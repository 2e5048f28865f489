import Chinix.KconfigExpr
import Mathlib.Data.Fin.VecNotation

/-! # `expr_transform` keeps the value of an expression

    Negations are pushed down to the symbols, and comparisons of a boolean
    with a constant go.  The recursion is not on the tree: a negated junction
    is rewritten and transformed again.  On an expression in normal form it
    comes to an end by induction on that expression, whose height bounds the
    depth of the calls. -/

namespace ChinixKconfigTransform

open ChinixKconfigExpr

variable {S : Type} {tab : SymbolTable S} {v : Values S}

/-! ## Values -/

theorem apply_not (type : JunctionType) (a b : Tristate) :
    type.dual.apply a.not b.not = (type.apply a b).not := by
  cases type <;> cases a <;> cases b <;> rfl

theorem mod_ne_yes (tab : SymbolTable S) : tab.symbolMod ≠ tab.symbolYes := by
  intro h
  have := tab.modName.symm.trans ((congrArg tab.name h).trans tab.yesName)
  exact absurd this (by decide)

theorem no_ne_yes (tab : SymbolTable S) : tab.symbolNo ≠ tab.symbolYes := by
  intro h
  have := tab.noName.symm.trans ((congrArg tab.name h).trans tab.yesName)
  exact absurd this (by decide)

theorem no_ne_mod (tab : SymbolTable S) : tab.symbolNo ≠ tab.symbolMod := by
  intro h
  have := tab.noName.symm.trans ((congrArg tab.name h).trans tab.modName)
  exact absurd this (by decide)

/-- A constant has its name for a string value. -/
theorem string_of_const (h : Calculated tab v) {s : S}
    (hs : tab.isConst s = true) : symGetStringValue tab v s = tab.name s := by
  rw [symGetStringValue, tab.constType s hs, if_neg (by decide)]
  exact h.const s hs

theorem string_yes (h : Calculated tab v) :
    symGetStringValue tab v tab.symbolYes = "y" :=
  (string_of_const h tab.yesConst).trans tab.yesName

theorem string_mod (h : Calculated tab v) :
    symGetStringValue tab v tab.symbolMod = "m" :=
  (string_of_const h tab.modConst).trans tab.modName

theorem string_no (h : Calculated tab v) :
    symGetStringValue tab v tab.symbolNo = "n" :=
  (string_of_const h tab.noConst).trans tab.noName

/-- The letter of a value. -/
def letter : Tristate → String
  | .no => "n"
  | .mod => "m"
  | .yes => "y"

/-- The string value of a boolean or a tristate is the letter of its
    value. -/
theorem string_of_typed (h : Calculated tab v) {s : S}
    (hs : tab.type s = .boolean ∨ tab.type s = .tristate) :
    symGetStringValue tab v s = letter (v.tri s) := by
  rw [symGetStringValue, if_pos hs]
  cases htri : v.tri s with
  | no => rfl
  | yes => rfl
  | mod =>
      -- without modules the value would not be `mod`
      have hmodules : v.tri tab.modulesSym ≠ .no := by
        intro hno
        rcases hs with hs | hs
        · exact h.boolean s hs htri
        · exact h.tristate s hs hno htri
      exact if_neg hmodules

/-! ## Normal form -/

/-- Negations stand before symbols only and not before `y`, `m` or `n`, and
    no comparison has a boolean on its left and `y`, `m` or `n` on its right.
    A quoted constant may be negated, and `y = FOO` is left as it is. -/
def Normal (tab : SymbolTable S) : Expr S → Prop
  | .symbol _ => True
  | .one (.symbol s) =>
      s ≠ tab.symbolYes ∧ s ≠ tab.symbolMod ∧ s ≠ tab.symbolNo
  | .one _ => False
  | .two _ l r => Normal tab l ∧ Normal tab r
  | .comp _ s t => tab.type s = .boolean →
      t ≠ tab.symbolYes ∧ t ≠ tab.symbolMod ∧ t ≠ tab.symbolNo

/-- The number of junctions on a longest way down. -/
def depth : Expr S → Nat
  | .symbol _ => 0
  | .one e => depth e
  | .two _ l r => max (depth l) (depth r) + 1
  | .comp _ _ _ => 0

/-- The height of the tree. -/
def height : Expr S → Nat
  | .symbol _ => 1
  | .one e => height e + 1
  | .two _ l r => max (height l) (height r) + 1
  | .comp _ _ _ => 1

/-- The number of leaves, with or without a negation. -/
def leaves : Expr S → Nat
  | .symbol _ => 1
  | .one e => leaves e
  | .two _ l r => leaves l + leaves r
  | .comp _ _ _ => 1

theorem depth_lt_height (e : Expr S) : depth e < height e := by
  induction e with
  | symbol s => exact Nat.zero_lt_one
  | one e ih => exact Nat.lt_succ_of_lt ih
  | two type l r ihl ihr => simp only [depth, height]; omega
  | comp type s t => exact Nat.zero_lt_one

/-- The form of a transformed expression. -/
structure Transforms (tab : SymbolTable S) (e e' : Expr S) : Prop where
  normal : Normal tab e'
  depth : depth e' ≤ depth e
  leaves : leaves e' ≤ leaves e

theorem Transforms.two {l l' r r' : Expr S} (hl : Transforms tab l l')
    (hr : Transforms tab r r') (type : JunctionType) :
    Transforms tab (.two type l r) (.two type l' r') := by
  refine ⟨⟨hl.normal, hr.normal⟩, ?_, ?_⟩
  · have := hl.depth
    have := hr.depth
    simp only [ChinixKconfigTransform.depth]
    omega
  · exact Nat.add_le_add hl.leaves hr.leaves

/-! ## The rewriting of comparisons -/

theorem value_flip (type : CompType) (s t : S) :
    exprCalcValue tab v (.comp type.flip s t)
      = (exprCalcValue tab v (.comp type s t)).not := by
  by_cases h : symGetStringValue tab v s = symGetStringValue tab v t <;>
    cases type <;> simp [exprCalcValue, CompType.flip, h, Tristate.not]

variable [DecidableEq S]

theorem value_transformComp (h : Calculated tab v) (type : CompType)
    (s t : S) :
    exprCalcValue tab v (transformComp tab type s t)
      = exprCalcValue tab v (.comp type s t) := by
  unfold transformComp
  by_cases hs : tab.type s ≠ .boolean
  · rw [if_pos hs]
  · rw [if_neg hs]
    have htype : tab.type s = .boolean := not_not.mp hs
    have hstring := string_of_typed h (.inl htype)
    have hvalue := h.boolean s htype
    by_cases hno : t = tab.symbolNo
    · subst hno
      cases type <;> cases htri : v.tri s <;>
        simp_all [exprCalcValue, string_no h, letter, Tristate.not]
    · by_cases hmod : t = tab.symbolMod
      · subst hmod
        cases type <;> cases htri : v.tri s <;>
          simp_all [exprCalcValue, string_mod h, letter, h.no, h.yes]
      · by_cases hyes : t = tab.symbolYes
        · subst hyes
          cases type <;> cases htri : v.tri s <;>
            simp_all [exprCalcValue, string_yes h, letter, Tristate.not]
        · cases type <;> simp [hno, hmod, hyes]

theorem value_transformNotSymbol (h : Calculated tab v) (s : S) :
    exprCalcValue tab v (transformNotSymbol tab s) = (v.tri s).not := by
  rw [transformNotSymbol]
  by_cases hyes : s = tab.symbolYes
  · rw [if_pos hyes, hyes, h.yes]
    exact h.no
  · rw [if_neg hyes]
    by_cases hmod : s = tab.symbolMod
    · rw [if_pos hmod, hmod, h.mod]
      exact h.mod
    · rw [if_neg hmod]
      by_cases hno : s = tab.symbolNo
      · rw [if_pos hno, hno, h.no]
        exact h.yes
      · rw [if_neg hno]
        rfl

/-- **What `expr_transform` returns has the value of its argument.** -/
theorem value_exprTransform (h : Calculated tab v) {fuel : Nat}
    {e e' : Expr S} (he : exprTransform tab fuel e = some e') :
    exprCalcValue tab v e' = exprCalcValue tab v e := by
  induction fuel generalizing e e' with
  | zero => cases he
  | succ fuel ih =>
      obtain ⟨d, hd, htop⟩ := Option.bind_eq_some_iff.mp he
      have hvalue : exprCalcValue tab v d = exprCalcValue tab v e := by
        cases e with
        | symbol s => rw [← Option.some.inj hd]
        | comp type s t => rw [← Option.some.inj hd]
        | one a =>
            obtain ⟨a', ha, rfl⟩ := Option.map_eq_some_iff.mp hd
            rw [exprCalcValue, ih ha]
            rfl
        | two type l r =>
            obtain ⟨l', hl, hd⟩ := Option.bind_eq_some_iff.mp hd
            obtain ⟨r', hr, hd⟩ := Option.bind_eq_some_iff.mp hd
            rw [← Option.some.inj hd, exprCalcValue, ih hl, ih hr]
            rfl
      rw [← hvalue]
      cases d with
      | symbol s => rw [← Option.some.inj htop]
      | two type l r => rw [← Option.some.inj htop]
      | comp type s t =>
          rw [← Option.some.inj htop]
          exact value_transformComp h type s t
      | one a =>
          cases a with
          | symbol s =>
              rw [← Option.some.inj htop]
              exact value_transformNotSymbol h s
          | one a =>
              rw [ih htop]
              exact (Tristate.not_not _).symm
          | two type l r =>
              rw [ih htop]
              exact apply_not type _ _
          | comp type s t =>
              rw [← Option.some.inj htop]
              exact value_flip type s t

/-! ## Steps of the transformation -/

theorem transforms_comp (tab : SymbolTable S) (type : CompType) (s t : S) :
    Transforms tab (.comp type s t) (transformComp tab type s t) := by
  refine ⟨?_, ?_, ?_⟩
  · unfold transformComp
    by_cases hs : tab.type s = .boolean
    · -- a boolean is none of the constants, which have no type
      have hconst : ∀ c, tab.isConst c = true → s ≠ c := by
        rintro c hc rfl
        rw [tab.constType s hc] at hs
        cases hs
      have hnormal : Normal tab (.one (.symbol s)) :=
        ⟨hconst _ tab.yesConst, hconst _ tab.modConst, hconst _ tab.noConst⟩
      rw [if_neg (not_not.mpr hs)]
      by_cases hno : t = tab.symbolNo
      · cases type <;> simp [hno, hnormal, Normal]
      · by_cases hmod : t = tab.symbolMod
        · cases type <;> simp [hmod, Ne.symm (no_ne_mod tab), Normal]
        · by_cases hyes : t = tab.symbolYes
          · cases type <;> simp [hyes, Ne.symm (no_ne_yes tab),
              Ne.symm (mod_ne_yes tab), hnormal, Normal]
          · cases type <;> simp [hno, hmod, hyes, Normal]
    · rw [if_pos hs]
      exact fun h => absurd h hs
  · unfold transformComp
    cases type <;> split_ifs <;> exact Nat.le_refl 0
  · unfold transformComp
    cases type <;> split_ifs <;> exact Nat.le_refl 1

theorem transforms_notSymbol (tab : SymbolTable S) (s : S) :
    Transforms tab (.one (.symbol s)) (transformNotSymbol tab s) := by
  refine ⟨?_, ?_, ?_⟩
  · rw [transformNotSymbol]
    split_ifs with hyes hmod hno
    · exact trivial
    · exact trivial
    · exact trivial
    · exact ⟨hyes, hmod, hno⟩
  · rw [transformNotSymbol]
    split_ifs <;> exact Nat.le_refl 0
  · rw [transformNotSymbol]
    split_ifs <;> exact Nat.le_refl 1

/-! ## The recursion -/

/-- **Normal forms are left alone.** -/
theorem exprTransform_normal {e : Expr S} (h : Normal tab e) {fuel : Nat}
    (hfuel : depth e + 2 ≤ fuel) : exprTransform tab fuel e = some e := by
  induction e generalizing fuel with
  | symbol s =>
      obtain ⟨fuel, rfl⟩ := Nat.exists_eq_add_of_le' hfuel
      rfl
  | comp type s t =>
      obtain ⟨fuel, rfl⟩ := Nat.exists_eq_add_of_le' hfuel
      show some (transformComp tab type s t) = _
      unfold transformComp
      by_cases hs : tab.type s = .boolean
      · obtain ⟨hyes, hmod, hno⟩ := h hs
        cases type <;> simp [hs, hyes, hmod, hno]
      · rw [if_pos hs]
  | one e ih =>
      cases e with
      | symbol s =>
          obtain ⟨fuel, rfl⟩ := Nat.exists_eq_add_of_le' hfuel
          obtain ⟨hyes, hmod, hno⟩ := h
          show some (transformNotSymbol tab s) = _
          rw [transformNotSymbol, if_neg hyes, if_neg hmod, if_neg hno]
      | one e => exact h.elim
      | two type l r => exact h.elim
      | comp type s t => exact h.elim
  | two type l r ihl ihr =>
      rw [depth] at hfuel
      cases fuel with
      | zero => omega
      | succ fuel =>
          have hl := ihl h.1 (show depth l + 2 ≤ fuel by omega)
          have hr := ihr h.2 (show depth r + 2 ≤ fuel by omega)
          simp [exprTransform, transformOperands, hl, hr, transformTop]

/-- A negation is transformed as the negation of its operand's transform. -/
theorem exprTransform_one {fuel : Nat} {e e' : Expr S}
    (h : exprTransform tab fuel e = some e') :
    exprTransform tab (fuel + 1) (.one e)
      = transformTop tab (exprTransform tab fuel) (.one e') := by
  simp [exprTransform, transformOperands, h]

theorem exprTransform_two {fuel : Nat} {type : JunctionType}
    {l l' r r' : Expr S} (hl : exprTransform tab fuel l = some l')
    (hr : exprTransform tab fuel r = some r') :
    exprTransform tab (fuel + 1) (.two type l r) = some (.two type l' r') := by
  simp [exprTransform, transformOperands, hl, hr, transformTop]

/-- **A negated normal form** is transformed: the negation is pushed through
    it. -/
theorem exprTransform_not {e : Expr S} (h : Normal tab e) {fuel : Nat}
    (hfuel : 2 * depth e + 3 ≤ fuel) :
    ∃ e', exprTransform tab fuel (.one e) = some e' ∧
      Transforms tab (.one e) e' := by
  induction e generalizing fuel with
  | symbol s =>
      obtain ⟨fuel, rfl⟩ := Nat.exists_eq_add_of_le' hfuel
      exact ⟨_, rfl, transforms_notSymbol tab s⟩
  | comp type s t =>
      obtain ⟨fuel, rfl⟩ := Nat.exists_eq_add_of_le' hfuel
      have hsame : exprTransform tab (fuel + 2) (.comp type s t)
          = some (.comp type s t) := exprTransform_normal h (by simp [depth])
      refine ⟨.comp type.flip s t, ?_, ?_, Nat.le_refl 0, Nat.le_refl 1⟩
      · exact exprTransform_one hsame
      · exact h
  | one e ih =>
      cases e with
      | symbol s =>
          obtain ⟨fuel, rfl⟩ := Nat.exists_eq_add_of_le' hfuel
          have hsame : exprTransform tab (fuel + 2) (.one (.symbol s))
              = some (.one (.symbol s)) :=
            exprTransform_normal h (by simp [depth])
          have hsymbol : exprTransform tab (fuel + 2) (.symbol s)
              = some (.symbol s) := rfl
          exact ⟨.symbol s, (exprTransform_one hsame).trans hsymbol, trivial,
            Nat.le_refl 0, Nat.le_refl 1⟩
      | one e => exact h.elim
      | two type l r => exact h.elim
      | comp type s t => exact h.elim
  | two type l r ihl ihr =>
      simp only [depth] at hfuel
      obtain ⟨fuel, rfl⟩ := Nat.exists_eq_add_of_le'
        (show 2 ≤ fuel by omega)
      have hsame : exprTransform tab (fuel + 1) (.two type l r)
          = some (.two type l r) :=
        exprTransform_normal h (by simp only [depth]; omega)
      obtain ⟨l', hl, htl⟩ := ihl h.1 (show 2 * depth l + 3 ≤ fuel by omega)
      obtain ⟨r', hr, htr⟩ := ihr h.2 (show 2 * depth r + 3 ≤ fuel by omega)
      have htwo := htl.two htr type.dual
      exact ⟨.two type.dual l' r',
        (exprTransform_one hsame).trans (exprTransform_two hl hr),
        htwo.normal, htwo.depth, htwo.leaves⟩

/-- **The recursion comes to an end.** -/
theorem exprTransform_transforms (tab : SymbolTable S) (e : Expr S)
    {fuel : Nat} (hfuel : 2 * height e + 1 ≤ fuel) :
    ∃ e', exprTransform tab fuel e = some e' ∧ Transforms tab e e' := by
  induction e generalizing fuel with
  | symbol s =>
      obtain ⟨fuel, rfl⟩ := Nat.exists_eq_add_of_le' hfuel
      exact ⟨_, rfl, trivial, Nat.le_refl 0, Nat.le_refl 1⟩
  | comp type s t =>
      obtain ⟨fuel, rfl⟩ := Nat.exists_eq_add_of_le' hfuel
      exact ⟨_, rfl, transforms_comp tab type s t⟩
  | one e ih =>
      simp only [height] at hfuel
      cases fuel with
      | zero => omega
      | succ fuel =>
          obtain ⟨e', he, ht⟩ := ih (show 2 * height e + 1 ≤ fuel by omega)
          have hdepth : depth e' + 1 ≤ height e :=
            Nat.lt_of_le_of_lt ht.depth (depth_lt_height e)
          have hsame : exprTransform tab fuel e' = some e' :=
            exprTransform_normal ht.normal (by omega)
          obtain ⟨e'', he', ht'⟩ :=
            exprTransform_not ht.normal
              (show 2 * depth e' + 3 ≤ fuel + 1 by omega)
          refine ⟨e'', ?_, ht'.normal, Nat.le_trans ht'.depth ht.depth,
            Nat.le_trans ht'.leaves ht.leaves⟩
          rw [exprTransform_one he, ← exprTransform_one hsame, he']
  | two type l r ihl ihr =>
      simp only [height] at hfuel
      cases fuel with
      | zero => omega
      | succ fuel =>
          obtain ⟨l', hl, htl⟩ := ihl (show 2 * height l + 1 ≤ fuel by omega)
          obtain ⟨r', hr, htr⟩ := ihr (show 2 * height r + 1 ≤ fuel by omega)
          exact ⟨_, exprTransform_two hl hr, htl.two htr type⟩

/-- **`expr_transform` comes to an end** on every expression, with one of the
    same value under all values of the symbols, in normal form, which it does
    not change again. -/
theorem transform_normalizes (tab : SymbolTable S) (e : Expr S) (fuel : Nat)
    (hfuel : 2 * height e + 1 ≤ fuel) :
    ∃ e', exprTransform tab fuel e = some e' ∧ Normal tab e' ∧
      (∀ v, Calculated tab v →
        exprCalcValue tab v e' = exprCalcValue tab v e) ∧
      ∀ fuel', 2 * height e' + 1 ≤ fuel' →
        exprTransform tab fuel' e' = some e' := by
  obtain ⟨e', he, ht⟩ := exprTransform_transforms tab e hfuel
  refine ⟨e', he, ht.normal, fun v hv => value_exprTransform hv he,
    fun fuel' hfuel' => ?_⟩
  have := depth_lt_height e'
  exact exprTransform_normal ht.normal (by omega)

/-- The constants, `MODULES`, a boolean `FOO` and a tristate `BAR`. -/
def sixSymbols : SymbolTable (Fin 6) where
  symbolYes := 0
  symbolMod := 1
  symbolNo := 2
  modulesSym := 3
  name := !["y", "m", "n", "MODULES", "FOO", "BAR"]
  type := ![.unknown, .unknown, .unknown, .boolean, .boolean, .tristate]
  isConst s := s < 3
  yesName := rfl
  modName := rfl
  noName := rfl
  yesConst := rfl
  modConst := rfl
  noConst := rfl
  constType := by decide
  constName := by decide

/-- `!(FOO=n || !BAR)` becomes `FOO && BAR`. -/
theorem transform_normalizes_sixSymbols :
    ∃ e', exprTransform sixSymbols 9
        (.one (.two .or (.comp .equal 4 2) (.one (.symbol 5)))) = some e' ∧
      e' = .two .and (.symbol 4) (.symbol 5) ∧ Normal sixSymbols e' := by
  obtain ⟨e', he, hnormal, -⟩ := transform_normalizes sixSymbols
    (.one (.two .or (.comp .equal 4 2) (.one (.symbol 5)))) 9 (by decide)
  refine ⟨e', he, ?_, hnormal⟩
  exact Option.some.inj (he.symm.trans (by decide))

end ChinixKconfigTransform

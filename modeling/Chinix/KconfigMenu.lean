import Chinix.KconfigRounds

/-! # Which entries go under a symbol (kconfig/menu.c, kconfig/expr.c)

    `menu_finalize` puts an entry that follows a symbol under it if the entry
    depends on the symbol, or if the prompt of the symbol is all that the
    dependency of the entry adds to what is left of it.  Both dependencies are
    first compared with `n` by `expr_trans_compare`, so that they are `y` or
    `n` and nothing of their values is lost by `expr_eliminate_dups`. -/

namespace ChinixKconfigMenu

open ChinixKconfigExpr ChinixKconfigTransform ChinixKconfigEquality
open ChinixKconfigDuplicates ChinixKconfigSimplification ChinixKconfigRounds

variable {S : Type} (tab : SymbolTable S)

/-! ## `expr_trans_compare` -/

/-- The symbols that `expr_trans_compare` is called with, `symbol_yes` and
    `symbol_no`. -/
inductive Bound where
  | yes
  | no
  deriving DecidableEq, Repr

/-- The symbol. -/
def Bound.sym : Bound → S
  | .yes => tab.symbolYes
  | .no => tab.symbolNo

/-- What `type` becomes when both operands are compared with the bound. -/
def Bound.junction : Bound → JunctionType → JunctionType
  | .yes, type => type
  | .no, type => type.dual

/-- `expr_trans_compare` of an expression. -/
def exprTransCompare (bound : Bound) : CompType → Expr S → Expr S
  | type, .two t l r =>
      let e := Expr.two (bound.junction t) (exprTransCompare bound .equal l)
        (exprTransCompare bound .equal r)
      match type with
      | .equal => e
      | .unequal => .one e
  | type, .one e => exprTransCompare bound type.flip e
  | type, .comp t a b =>
      match type, bound with
      | .equal, .yes => .comp t a b
      | .equal, .no => .one (.comp t a b)
      | .unequal, .yes => .one (.comp t a b)
      | .unequal, .no => .comp t a b
  | type, .symbol s => .comp type s (bound.sym tab)

/-- `expr_trans_compare(dep, E_UNEQUAL, &symbol_no)`, where `dep` may be
    NULL. -/
def compareWithNo : Option (Expr S) → Expr S
  | some e => exprTransCompare tab .no .unequal e
  | none => .one (.symbol tab.symbolNo)

/-- The value with `m` taken for `n`, or for `y`. -/
def Bound.round : Bound → Tristate → Tristate
  | .yes, a => if a = .yes then .yes else .no
  | .no, a => if a = .no then .no else .yes

/-- The value of an expression whose symbols are rounded. -/
def roundedValue (bound : Bound) (v : Values S) : Expr S → Tristate
  | .symbol s => bound.round (v.tri s)
  | .one e => (roundedValue bound v e).not
  | .two type l r => type.apply (roundedValue bound v l) (roundedValue bound v r)
  | .comp type s t => exprCalcValue tab v (.comp type s t)

/-- The symbols that stand for themselves have one of three values: they are
    booleans, tristates or the constants `y`, `m` and `n`. -/
def Typed : Expr S → Prop
  | .symbol s => tab.type s = .boolean ∨ tab.type s = .tristate ∨
      s = tab.symbolYes ∨ s = tab.symbolMod ∨ s = tab.symbolNo
  | .one e => Typed e
  | .two _ l r => Typed l ∧ Typed r
  | .comp _ _ _ => True

/-- A comparison of the type with the bound, as a value. -/
def compared (type : CompType) (bound : Bound) (a : Tristate) : Tristate :=
  match type, bound with
  | .equal, .yes => a
  | .equal, .no => a.not
  | .unequal, .yes => a.not
  | .unequal, .no => a

variable {tab} {v : Values S} {e : Expr S} {bound : Bound} {type : CompType}

theorem compared_flip (type : CompType) (bound : Bound) (a : Tristate) :
    compared type.flip bound a = (compared type bound a).not := by
  cases type <;> cases bound <;> cases a <;> rfl

theorem compared_not (type : CompType) (bound : Bound) (a : Tristate) :
    compared type bound a.not = (compared type bound a).not := by
  cases type <;> cases bound <;> cases a <;> rfl

theorem compared_apply (type : JunctionType) (bound : Bound)
    (a b : Tristate) :
    (bound.junction type).apply (compared .equal bound a)
      (compared .equal bound b) = compared .equal bound (type.apply a b) := by
  cases type <;> cases bound <;> cases a <;> cases b <;> rfl

/-- The string value of a symbol with one of three values. -/
theorem string_of_symbol (hv : Calculated tab v) {s : S}
    (hs : Typed tab (.symbol s)) :
    symGetStringValue tab v s = letter (v.tri s) := by
  rcases hs with hs | hs | rfl | rfl | rfl
  · exact string_of_typed hv (.inl hs)
  · exact string_of_typed hv (.inr hs)
  · rw [string_yes hv, hv.yes]
    rfl
  · rw [string_mod hv, hv.mod]
    rfl
  · rw [string_no hv, hv.no]
    rfl

/-- **A comparison goes down to the symbols**, which are rounded then. -/
theorem value_transCompare (hv : Calculated tab v) (bound : Bound)
    (type : CompType) (he : Typed tab e) :
    exprCalcValue tab v (exprTransCompare tab bound type e)
      = compared type bound (roundedValue tab bound v e) := by
  induction e generalizing type with
  | symbol s =>
      have hs := string_of_symbol hv he
      cases type <;> cases bound <;>
        simp only [exprTransCompare, exprCalcValue, Bound.sym, hs,
          string_yes hv, string_no hv, roundedValue] <;>
        cases v.tri s <;> rfl
  | one e ih =>
      rw [exprTransCompare, ih type.flip he, roundedValue, compared_flip, compared_not]
  | two t l r ihl ihr =>
      have htwo : exprCalcValue tab v (.two (bound.junction t)
            (exprTransCompare tab bound .equal l)
            (exprTransCompare tab bound .equal r))
          = compared .equal bound (roundedValue tab bound v (.two t l r)) := by
        rw [exprCalcValue, ihl .equal he.1, ihr .equal he.2, compared_apply]
        rfl
      cases type with
      | equal => exact htwo
      | unequal =>
          show (exprCalcValue tab v (.two _ _ _)).not = _
          rw [htwo, ← compared_flip]
          rfl
  | comp t a b => cases type <;> cases bound <;> rfl

/-- The value of a dependency with every `m` taken for `y`; NULL is `y`. -/
def roundedDep (tab : SymbolTable S) (v : Values S) :
    Option (Expr S) → Tristate
  | some e => roundedValue tab .no v e
  | none => .yes

theorem value_compareWithNo (hv : Calculated tab v) {dep : Option (Expr S)}
    (h : ∀ e, dep = some e → Typed tab e) :
    exprCalcValue tab v (compareWithNo tab dep) = roundedDep tab v dep := by
  cases dep with
  | none =>
      show (v.tri tab.symbolNo).not = _
      rw [hv.no]
      rfl
  | some e => exact value_transCompare hv .no .unequal (h e rfl)

/-- A comparison is never `m`. -/
theorem transCompare_ne_mod (v : Values S) (bound : Bound) (type : CompType)
    (e : Expr S) :
    exprCalcValue tab v (exprTransCompare tab bound type e) ≠ .mod := by
  have hcomp : ∀ t a b, exprCalcValue tab v (.comp t a b) ≠ .mod := by
    intro t a b
    cases t <;> rw [exprCalcValue] <;> split_ifs <;> decide
  have hnot : ∀ {a : Tristate}, a ≠ .mod → a.not ≠ .mod := by
    intro a h
    cases a <;> first | exact absurd rfl h | decide
  have happly : ∀ (t : JunctionType) {a b : Tristate}, a ≠ .mod → b ≠ .mod →
      t.apply a b ≠ .mod := by
    intro t a b ha hb
    cases t <;> cases a <;> cases b <;>
      first | exact absurd rfl ha | exact absurd rfl hb | decide
  induction e generalizing type with
  | symbol s => exact hcomp _ _ _
  | one e ih => exact ih _
  | two t l r ihl ihr =>
      have htwo := happly (bound.junction t) (ihl .equal) (ihr .equal)
      cases type with
      | equal => exact htwo
      | unequal => exact hnot htwo
  | comp t a b =>
      cases type <;> cases bound <;>
        first | exact hcomp _ _ _ | exact hnot (hcomp _ _ _)

/-! ## The entries behind a symbol -/

variable (tab) [DecidableEq S]

/-- `expr_contains_symbol`. -/
def exprContainsSymbol (sym : S) : Expr S → Bool
  | .two _ l r => exprContainsSymbol sym l || exprContainsSymbol sym r
  | .symbol s => s = sym
  | .comp _ s t => s = sym || t = sym
  | .one e => exprContainsSymbol sym e

/-- `expr_depends_symbol`. -/
def exprDependsSymbol (sym : S) : Expr S → Bool
  | .two .and l r => exprDependsSymbol sym l || exprDependsSymbol sym r
  | .symbol s => s = sym
  | .comp .equal s t => s = sym && (t = tab.symbolYes || t = tab.symbolMod)
  | .comp .unequal s t => s = sym && t = tab.symbolNo
  | _ => false

/-- `expr_eliminate_dups(expr_transform(..))` of what is compared. -/
def simplified (fuel : Nat) (dep : Option (Expr S)) : Option (Expr S) :=
  (exprTransform tab fuel (compareWithNo tab dep)).bind
    (eliminateDups tab fuel)

/-- The body of the loop of `menu_finalize` for an entry behind the symbol
    `sym` with the prompt condition `basedep`: `false` is `break`. -/
def goesUnder (fuel : Nat) (sym : S) (basedep dep : Option (Expr S)) :
    Option Bool :=
  match dep with
  | none => some false
  | some e =>
      if ¬ exprContainsSymbol sym e then some false
      else if exprDependsSymbol tab sym e then some true
      else do
        let base ← simplified tab fuel basedep
        let dep ← simplified tab fuel (some e)
        let (_, dep2) ← exprEliminateEq tab fuel dep base
        return dep2 = .symbol tab.symbolYes

/-! ## What `goesUnder` says -/

variable {tab} {sym : S} {fuel : Nat}

/-- A direct dependency on a symbol. -/
theorem dependsSymbol_value (hv : Calculated tab v)
    (hs : tab.type sym = .boolean ∨ tab.type sym = .tristate)
    (h : exprDependsSymbol tab sym e = true) (he : exprCalcValue tab v e ≠ .no) :
    v.tri sym ≠ .no := by
  induction e with
  | symbol s =>
      obtain rfl := of_decide_eq_true h
      exact he
  | one e ih => cases h
  | two t l r ihl ihr =>
      cases t with
      | or => cases h
      | and =>
          have hand : ∀ {a b : Tristate}, a.and b ≠ .no → a ≠ .no ∧ b ≠ .no := by
            intro a b
            cases a <;> cases b <;> decide
          obtain ⟨hl, hr⟩ := hand he
          rcases Bool.or_eq_true_iff.mp h with h | h
          · exact ihl h hl
          · exact ihr h hr
  | comp t a b =>
      have hstring := string_of_typed hv hs
      cases t with
      | equal =>
          obtain ⟨ha, hb⟩ := Bool.and_eq_true_iff.mp h
          obtain rfl := of_decide_eq_true ha
          intro hno
          rw [exprCalcValue, hstring, hno] at he
          rcases Bool.or_eq_true_iff.mp hb with hb | hb
          · rw [of_decide_eq_true hb, string_yes hv] at he
            exact he rfl
          · rw [of_decide_eq_true hb, string_mod hv] at he
            exact he rfl
      | unequal =>
          obtain ⟨ha, hb⟩ := Bool.and_eq_true_iff.mp h
          obtain rfl := of_decide_eq_true ha
          intro hno
          rw [exprCalcValue, hstring, hno, of_decide_eq_true hb,
            string_no hv] at he
          exact he rfl

/-- A depth that is enough for `simplified`. -/
def simplifyFuel (e : Expr S) : Nat :=
  2 * height e + dupsFuel (3 * leaves e) + 1

/-- What is compared keeps its value when it is simplified. -/
theorem simplified_value (tab : SymbolTable S) (dep : Option (Expr S))
    (hfuel : simplifyFuel (compareWithNo tab dep) ≤ fuel) :
    ∃ e', simplified tab fuel dep = some e' ∧
      size e' ≤ 3 * leaves (compareWithNo tab dep) ∧
      ∀ v, Calculated tab v → exprCalcValue tab v e'
        = exprCalcValue tab v (compareWithNo tab dep) := by
  rw [simplifyFuel] at hfuel
  obtain ⟨e1, htransform, ht⟩ := exprTransform_transforms tab
    (compareWithNo tab dep)
    (show 2 * height (compareWithNo tab dep) + 1 ≤ fuel by omega)
  have hsize := Normal.size_lt ht.normal
  have hleaves := ht.leaves
  have hmono := dupsFuel_mono (show size e1 ≤ 3 * leaves (compareWithNo tab dep)
    by omega)
  obtain ⟨e2, hdups, hsize2, hvalue⟩ :=
    eliminateDups_simplifies tab e1 fuel (by omega)
  refine ⟨e2, ?_, by omega, fun v hv => ?_⟩
  · rw [simplified, htransform, Option.bind_some, hdups]
  · have h1 := value_exprTransform hv htransform
    have hmod : exprCalcValue tab v (compareWithNo tab dep) ≠ .mod := by
      cases dep with
      | none =>
          show (v.tri tab.symbolNo).not ≠ .mod
          rw [hv.no]
          decide
      | some e => exact transCompare_ne_mod v .no .unequal e
    rw [hvalue v hv (by rw [h1]; exact hmod), h1]

/-- **What goes under a symbol depends on it**: the decision is always made,
    and an entry that goes under the symbol has a dependency that is `n`
    whenever the symbol is, or one that never exceeds the condition of the
    symbol's prompt, `m` being taken for `y`. -/
theorem goesUnder_depends (tab : SymbolTable S) (sym : S)
    (basedep : Option (Expr S)) (dep : Expr S) (fuel : Nat)
    (hs : tab.type sym = .boolean ∨ tab.type sym = .tristate)
    (hbase : ∀ e, basedep = some e → Typed tab e) (hdep : Typed tab dep)
    (hfuel : simplifyFuel (compareWithNo tab basedep)
      + simplifyFuel (compareWithNo tab (some dep))
      + 9 * (leaves (compareWithNo tab basedep)
        + leaves (compareWithNo tab (some dep))) ≤ fuel) :
    ∃ under, goesUnder tab fuel sym basedep (some dep) = some under ∧
      (under = true → exprContainsSymbol sym dep = true ∧
        ((∀ v, Calculated tab v → v.tri sym = .no →
          exprCalcValue tab v dep = .no) ∨
        ∀ v, Calculated tab v →
          roundedValue tab .no v dep ≤ roundedDep tab v basedep)) := by
  rw [goesUnder]
  by_cases hcontains : exprContainsSymbol sym dep = true
  · rw [if_neg (not_not.mpr hcontains)]
    by_cases hdepends : exprDependsSymbol tab sym dep = true
    · rw [if_pos hdepends]
      refine ⟨true, rfl, fun _ => ⟨hcontains, .inl fun v hv hno => ?_⟩⟩
      by_contra hne
      exact dependsSymbol_value hv hs hdepends hne hno
    · rw [if_neg hdepends]
      obtain ⟨base, hb, hbsize, hbvalue⟩ :=
        simplified_value tab basedep
          (show simplifyFuel (compareWithNo tab basedep) ≤ fuel by omega)
      obtain ⟨dep', hd, hdsize, hdvalue⟩ :=
        simplified_value tab (some dep)
          (show simplifyFuel (compareWithNo tab (some dep)) ≤ fuel by omega)
      obtain ⟨e1, e2, helim, -, -, horder⟩ :=
        eliminateEq_reflects tab dep' base fuel (by omega)
      refine ⟨decide (e2 = .symbol tab.symbolYes), ?_, fun hyes =>
        ⟨hcontains, .inr fun v hv => ?_⟩⟩
      · simp [hb, hd, helim]
      · have hle := (horder v hv).2.2 (of_decide_eq_true hyes)
        rw [hdvalue v hv, hbvalue v hv, value_compareWithNo hv hbase] at hle
        rwa [value_compareWithNo hv (fun e he => Option.some.inj he ▸ hdep)]
          at hle
  · rw [if_pos hcontains]
    exact ⟨false, rfl, fun h => absurd h Bool.false_ne_true⟩

/-- Where no symbol of it is `m` the rounded value is the value. -/
theorem roundedValue_eq (bound : Bound)
    (h : ∀ s, exprContainsSymbol s e = true → v.tri s ≠ .mod) :
    roundedValue tab bound v e = exprCalcValue tab v e := by
  induction e with
  | symbol s =>
      have hne := h s (decide_eq_true rfl)
      show bound.round (v.tri s) = v.tri s
      cases bound <;> cases hv : v.tri s <;>
        first | rfl | exact absurd hv hne
  | one e ih => exact congrArg Tristate.not (ih h)
  | two t l r ihl ihr =>
      rw [roundedValue, exprCalcValue,
        ihl fun s hs => h s (Bool.or_eq_true_iff.mpr (.inl hs)),
        ihr fun s hs => h s (Bool.or_eq_true_iff.mpr (.inr hs))]
  | comp t a b => rfl

/-- `BAR!=n && !FOO` goes under `FOO` where the prompt of `FOO` depends on
    `BAR`. -/
theorem goesUnder_depends_sixSymbols :
    goesUnder sixSymbols 1000 4 (some (.symbol 5))
        (some (.two .and (.comp .unequal 5 2) (.one (.symbol 4)))) = some true ∧
      ((∀ v, Calculated sixSymbols v → v.tri 4 = .no →
        exprCalcValue sixSymbols v
          (.two .and (.comp .unequal 5 2) (.one (.symbol 4))) = .no) ∨
      ∀ v, Calculated sixSymbols v →
        roundedValue sixSymbols .no v
          (.two .and (.comp .unequal 5 2) (.one (.symbol 4)))
        ≤ roundedDep sixSymbols v (some (.symbol 5))) := by
  obtain ⟨under, hunder, hdepends⟩ := goesUnder_depends sixSymbols 4
    (some (.symbol 5)) (.two .and (.comp .unequal 5 2) (.one (.symbol 4))) 1000
    (.inl rfl) (by rintro e ⟨⟩; exact .inr (.inl rfl))
    ⟨trivial, .inl rfl⟩ (by decide)
  have htrue : goesUnder sixSymbols 1000 4 (some (.symbol 5))
      (some (.two .and (.comp .unequal 5 2) (.one (.symbol 4))))
        = some true := by decide
  exact ⟨htrue, (hdepends (Option.some.inj (hunder.symm.trans htrue))).2⟩

end ChinixKconfigMenu

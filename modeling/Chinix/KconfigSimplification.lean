import Chinix.KconfigJoins

/-! # What `expr_eliminate_dups` keeps of a dependency

    Every write of `expr_eliminate_dups1` keeps the value of the whole.  The
    rule of `expr_eliminate_dups2`, by which (FOO || BAR) && (!FOO && !BAR)
    becomes `n`, is right for symbols that are `y` or `n`: where FOO is `m`
    the conjunction is `m`.  So the value may be lost where it is `m`, and is
    kept elsewhere.  Each rewriting leaves a constant among the operands of a
    junction, which `expr_eliminate_yn` then removes: the rounds come to an
    end. -/

namespace ChinixKconfigSimplification

open ChinixKconfigExpr ChinixKconfigTransform ChinixKconfigEquality
open ChinixKconfigDuplicates ChinixKconfigPlaces ChinixKconfigJoins

variable {S : Type} {tab : SymbolTable S} {v : Values S}
variable {e e1 e2 x y : Expr S} {p p1 p2 : Path}
variable {type inner : JunctionType} {w w' w'' : Rewriting S} {fuel : Nat}
variable {same : Tristate → Tristate → Prop}

/-! ## What may happen to a value -/

/-- What a rewriting of an operand does to the value of the operand, it may do
    to that of the junction. -/
structure Congruent (same : Tristate → Tristate → Prop) : Prop where
  refl : ∀ a, same a a
  trans : ∀ {a b c}, same a b → same b c → same a c
  apply : ∀ (type : JunctionType) {a b} (c : Tristate), same a b →
    same (type.apply a c) (type.apply b c)

/-- The value is kept unless it is `m`. -/
def Softened (a b : Tristate) : Prop := a ≠ .mod → b = a

theorem congruent_eq : Congruent Eq :=
  ⟨fun _ => rfl, fun h h' => h.trans h', fun type _ _ c h =>
    congrArg (type.apply · c) h⟩

theorem congruent_softened : Congruent Softened := by
  refine ⟨fun _ _ => rfl, fun h h' ha => ?_, fun type a b c h => ?_⟩
  · have hb := h ha
    rw [h' (by rw [hb]; exact ha), hb]
  · by_cases ha : a = .mod
    · subst ha
      cases type <;> cases c <;> cases b <;> simp [Softened,
        JunctionType.apply, Tristate.and_eq_min, Tristate.or_eq_max] <;>
        decide
    · rw [h ha]
      exact fun _ => rfl

/-! ## Constants among the operands -/

/-- A constant that `expr_eliminate_yn` looks for. -/
def IsYn (tab : SymbolTable S) (e : Expr S) : Prop :=
  e = .symbol tab.symbolYes ∨ e = .symbol tab.symbolNo

/-- Some operand of a junction is such a constant. -/
def Reducible (tab : SymbolTable S) : Expr S → Prop
  | .two _ l r => IsYn tab l ∨ IsYn tab r ∨ Reducible tab l ∨ Reducible tab r
  | _ => False

theorem isYn_unit (tab : SymbolTable S) (type : JunctionType) :
    IsYn tab (.symbol (unit tab type)) := by
  cases type
  · exact .inl rfl
  · exact .inr rfl

theorem isYn_zero (tab : SymbolTable S) (type : JunctionType) :
    IsYn tab (.symbol (zero tab type)) := by
  cases type
  · exact .inr rfl
  · exact .inl rfl

theorem IsYn.zero_or_unit (h : IsYn tab e) (type : JunctionType) :
    e = .symbol (zero tab type) ∨ e = .symbol (unit tab type) := by
  cases type
  · exact h.symm
  · exact h

theorem reducible_put_yn (h : at? e p = some y) (hp : p ≠ [])
    (hx : IsYn tab x) : Reducible tab (put e p x) := by
  induction p generalizing e with
  | nil => exact absurd rfl hp
  | cons s p ih =>
      obtain ⟨t, l, r, rfl, h⟩ := at?_cons h
      cases p with
      | nil =>
          cases s with
          | left => exact .inl hx
          | right => exact .inr (.inl hx)
      | cons s' p =>
          have hrest := ih h (List.cons_ne_nil _ _)
          cases s with
          | left => exact .inr (.inr (.inl hrest))
          | right => exact .inr (.inr (.inr hrest))

theorem reducible_put (h : at? e p = some y) (hx : Reducible tab x) :
    Reducible tab (put e p x) := by
  induction p generalizing e with
  | nil => exact hx
  | cons s p ih =>
      obtain ⟨t, l, r, rfl, h⟩ := at?_cons h
      cases s with
      | left => exact .inr (.inr (.inl (ih h)))
      | right => exact .inr (.inr (.inr (ih h)))

/-! ## Rewritings -/

/-- What the functions do to a tree: along the spine, to its value, to its
    size, and that a counted rewriting can be reduced. -/
structure Rewrites (tab : SymbolTable S) (same : Tristate → Tristate → Prop)
    (type : JunctionType) (w w' : Rewriting S) : Prop where
  keeps : KeepsSpine type w.1 w'.1
  value : ∀ v, Calculated tab v →
    same (exprCalcValue tab v w.1) (exprCalcValue tab v w'.1)
  size : size w'.1 ≤ size w.1
  progress : w' = w ∨ w.2 < w'.2 ∧ Reducible tab w'.1

theorem Rewrites.refl (hsame : Congruent same) (tab : SymbolTable S)
    (type : JunctionType) (w : Rewriting S) : Rewrites tab same type w w :=
  ⟨KeepsSpine.refl type w.1, fun _ _ => hsame.refl _, Nat.le_refl _, .inl rfl⟩

theorem Rewrites.trans (hsame : Congruent same)
    (h : Rewrites tab same type w w') (h' : Rewrites tab same type w' w'') :
    Rewrites tab same type w w'' := by
  refine ⟨h.keeps.trans h'.keeps, fun v hv => ?_,
    Nat.le_trans h'.size h.size, ?_⟩
  · exact hsame.trans (h.value v hv) (h'.value v hv)
  · rcases h'.progress with rfl | ⟨hcount', hred'⟩
    · exact h.progress
    · rcases h.progress with rfl | ⟨hcount, -⟩
      · exact .inr ⟨hcount', hred'⟩
      · exact .inr ⟨Nat.lt_trans hcount hcount', hred'⟩

/-- An end at a place that is another one than the root's is not the root. -/
theorem Leaf.ne_nil (h1 : Leaf type e p1) (h2 : Spine type e p2)
    (hne : p1 ≠ p2) : p1 ≠ [] := by
  rintro rfl
  exact hne (h1.eq_of_behind h2 List.nil_prefix).symm

/-- **A rewriting of an operand** is one of the junction. -/
theorem rewrites_within (hsame : Congruent same)
    {call : Rewriting S → Option (Rewriting S)} (hleaf : Leaf type w.1 p)
    (he : at? w.1 p = some e) (hj : e.junction = some inner)
    (hcall : ∀ {w'}, call (e, w.2) = some w' →
      Rewrites tab same inner (e, w.2) w')
    (h : within call p w = some w') : Rewrites tab same type w w' := by
  simp only [within, he] at h
  obtain ⟨⟨e', n⟩, hinner, rfl⟩ := Option.map_eq_some_iff.mp h
  have hrewrites := hcall hinner
  have hj' : e'.junction ≠ some type := by
    obtain ⟨-, x, hx, hjx⟩ := id hleaf
    obtain rfl := Option.some.inj (he.symm.trans hx)
    rw [hrewrites.keeps.junction hj, ← hj]
    exact hjx
  refine ⟨hleaf.keepsSpine_put hj', fun v hv => ?_, ?_, ?_⟩
  · have hv' := constants_of_calculated hv
    rw [value_put hleaf.1 hv', value_at? hleaf.1 he hv']
    exact hsame.apply type _ (hrewrites.value v hv)
  · have hput := size_put he e'
    have hsize : size e' ≤ size e := hrewrites.size
    show size (put w.1 p e') ≤ size w.1
    omega
  · rcases hrewrites.progress with hsame | ⟨hcount, hred⟩
    · obtain ⟨rfl, rfl⟩ := Prod.mk.inj hsame
      exact .inl (by rw [put_at? he])
    · exact .inr ⟨hcount, reducible_put he hred⟩

variable [DecidableEq S]

/-- **A constant operand is removed.** -/
theorem size_eliminateYn_lt (h : Reducible tab e) :
    size (exprEliminateYn tab e) < size e := by
  induction e with
  | symbol s => exact h.elim
  | one e => exact h.elim
  | comp t a b => exact h.elim
  | two type l r ihl ihr =>
      have hl := size_eliminateYn tab l
      have hr := size_eliminateYn tab r
      have hlpos := size_pos l
      have hrpos := size_pos r
      rw [exprEliminateYn]
      by_cases hlz : exprEliminateYn tab l = .symbol (zero tab type)
      · rw [if_pos hlz]
        simp only [size]
        omega
      rw [if_neg hlz]
      by_cases hlu : exprEliminateYn tab l = .symbol (unit tab type)
      · rw [if_pos hlu]
        simp only [size]
        omega
      rw [if_neg hlu]
      by_cases hrz : exprEliminateYn tab r = .symbol (zero tab type)
      · rw [if_pos hrz]
        simp only [size]
        omega
      rw [if_neg hrz]
      by_cases hru : exprEliminateYn tab r = .symbol (unit tab type)
      · rw [if_pos hru]
        simp only [size]
        omega
      rw [if_neg hru]
      -- nothing is removed here, so it must be further down
      have hsym : ∀ {x : Expr S}, IsYn tab x →
          exprEliminateYn tab x = x := by
        rintro x (rfl | rfl) <;> rfl
      rcases h with h | h | h | h
      · rcases h.zero_or_unit type with he | he
        · exact absurd ((hsym h).trans he) hlz
        · exact absurd ((hsym h).trans he) hlu
      · rcases h.zero_or_unit type with he | he
        · exact absurd ((hsym h).trans he) hrz
        · exact absurd ((hsym h).trans he) hru
      · have := ihl h
        simp only [size]
        omega
      · have := ihr h
        simp only [size]
        omega

/-! ## The rewritings of the code -/

/-- **Two operands are joined.** -/
theorem rewrites_joinAt (h1 : Leaf type w.1 p1) (h2 : Leaf type w.1 p2)
    (hne : p1 ≠ p2) (h : joinAt tab fuel type p1 p2 w = some w') :
    Rewrites tab Eq type w w' := by
  obtain ⟨-, e1, he1, hj1⟩ := id h1
  obtain ⟨-, e2, he2, hj2⟩ := id h2
  simp only [joinAt, he1, he2] at h
  obtain ⟨joined, hjoin, hw'⟩ := Option.map_eq_some_iff.mp h
  cases joined with
  | none =>
      obtain rfl : w = w' := hw'
      exact Rewrites.refl congruent_eq tab type w
  | some tmp =>
      obtain rfl : (put (put w.1 p1 (.symbol (unit tab type))) p2 tmp,
        w.2 + 1) = w' := hw'
      obtain ⟨hvalue, hform⟩ := exprJoin_joins hjoin
      have hapart := h1.apart h2 hne
      have hunit : (Expr.symbol (unit tab type)).junction ≠ some type :=
        junction_ne_of_size rfl
      have htmp : tmp.junction ≠ some type := by
        rcases hform with rfl | hsize
        · exact hj1
        · exact junction_ne_of_size hsize
      -- the first operand goes, then the second one is replaced
      have hleaf : Leaf type (put w.1 p1 (.symbol (unit tab type))) p2 :=
        h1.leaf_put h2 hunit
      have hat : at? (put w.1 p1 (.symbol (unit tab type))) p2 = some e2 := by
        rw [at?_put_of_apart hapart]
        exact he2
      refine ⟨(h1.keepsSpine_put hunit).trans (hleaf.keepsSpine_put htmp),
        fun v hv => ?_, ?_, .inr ⟨Nat.lt_succ_self _, ?_⟩⟩
      · have hv' := constants_of_calculated hv
        rw [value_put hleaf.1 hv', hvalue v hv, apply_assoc,
          ← value_at? hleaf.1 hat hv']
        exact value_at? h1.1 he1 hv'
      · have hfirst := size_put he1 (.symbol (unit tab type))
        have hsecond := size_put hat tmp
        have := size_pos e2
        have hle : ChinixKconfigEquality.size tmp
            ≤ ChinixKconfigEquality.size e1 := by
          rcases hform with rfl | hsize
          · exact Nat.le_refl _
          · rw [hsize]
            exact size_pos e1
        simp only [ChinixKconfigEquality.size] at hfirst
        show ChinixKconfigEquality.size (put _ p2 tmp) ≤ _
        omega
      · rw [put_put_of_apart hapart]
        refine reducible_put_yn (y := e1) ?_ (Leaf.ne_nil h1 h2.1 hne)
          (isYn_unit tab type)
        rw [at?_put_of_apart hapart.symm]
        exact he1

/-- `expr_eliminate_dups1` **keeps the value.** -/
theorem rewrites_dups1 {type : JunctionType} {p1 p2 : Path}
    {w w' : Rewriting S} (h1 : Spine type w.1 p1) (h2 : Spine type w.1 p2)
    (h : eliminateDups1 tab fuel type p1 p2 w = some w') :
    Rewrites tab Eq type w w' := by
  induction fuel generalizing type p1 p2 w w' with
  | zero => cases h
  | succ fuel ih =>
      obtain ⟨e1, he1⟩ := h1.exists_at?
      obtain ⟨e2, he2⟩ := h2.exists_at?
      simp only [eliminateDups1, he1, he2] at h
      by_cases hj1 : e1.junction = some type
      · rw [if_pos hj1] at h
        obtain ⟨w1, hleft, hright⟩ := Option.bind_eq_some_iff.mp h
        have hr1 := ih (h1.snoc he1 hj1 .left) h2 hleft
        exact hr1.trans congruent_eq
          (ih (hr1.keeps.spine _ (h1.snoc he1 hj1 .right))
            (hr1.keeps.spine _ h2) hright)
      rw [if_neg hj1] at h
      by_cases hj2 : e2.junction = some type
      · rw [if_pos hj2] at h
        obtain ⟨w1, hleft, hright⟩ := Option.bind_eq_some_iff.mp h
        have hr1 := ih h1 (h2.snoc he2 hj2 .left) hleft
        exact hr1.trans congruent_eq
          (ih (hr1.keeps.spine _ h1)
            (hr1.keeps.spine _ (h2.snoc he2 hj2 .right)) hright)
      rw [if_neg hj2] at h
      by_cases hp : p1 = p2
      · rw [if_pos hp] at h
        obtain rfl := Option.some.inj h
        exact Rewrites.refl congruent_eq tab type w
      rw [if_neg hp] at h
      have hl1 : Leaf type w.1 p1 := ⟨h1, e1, he1, hj1⟩
      have hl2 : Leaf type w.1 p2 := ⟨h2, e2, he2, hj2⟩
      obtain ⟨w1, hinner, hjoin⟩ := Option.bind_eq_some_iff.mp h
      have hr1 : Rewrites tab Eq type w w1 := by
        cases hj : e1.junction with
        | none =>
            rw [hj] at hinner
            obtain rfl := Option.some.inj hinner
            exact Rewrites.refl congruent_eq tab type w
        | some inner =>
            simp only [hj] at hinner
            exact rewrites_within congruent_eq hl1 he1 hj
              (ih (spine_nil _ _) (spine_nil _ _)) hinner
      exact hr1.trans congruent_eq
        (rewrites_joinAt (hr1.keeps.leaf _ hl1) (hr1.keeps.leaf _ hl2) hp
          hjoin)

end ChinixKconfigSimplification

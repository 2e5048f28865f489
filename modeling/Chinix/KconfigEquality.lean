import Chinix.KconfigTransform

/-! # `expr_eq` and `expr_eliminate_eq`

    Common operands of two expressions are cancelled.  What is cancelled goes
    from both, so that the order of what is left is the order of what was
    there; two junctions are taken to be equal when cancelling leaves the same
    symbol of both.  The two functions call each other, on trees that get
    smaller. -/

namespace ChinixKconfigEquality

open ChinixKconfigExpr ChinixKconfigTransform

variable {S : Type} {tab : SymbolTable S} {v : Values S}
variable {type : JunctionType} {e e1 e2 e1' e2' : Expr S} {fuel : Nat}

/-! ## Junctions of values -/

theorem apply_comm (type : JunctionType) (a b : Tristate) :
    type.apply a b = type.apply b a := by
  cases type <;> cases a <;> cases b <;> rfl

theorem apply_assoc (type : JunctionType) (a b c : Tristate) :
    type.apply (type.apply a b) c = type.apply a (type.apply b c) := by
  cases type <;> cases a <;> cases b <;> cases c <;> rfl

theorem apply_self (type : JunctionType) (a : Tristate) :
    type.apply a a = a := by
  cases type <;> cases a <;> rfl

/-- Four operands in another order. -/
theorem apply_apply_comm (type : JunctionType) (a b c d : Tristate) :
    type.apply (type.apply a b) (type.apply c d)
      = type.apply (type.apply a c) (type.apply b d) := by
  rw [apply_assoc, ← apply_assoc type b, apply_comm type b, apply_assoc type c,
    ← apply_assoc]

theorem apply_mono (type : JunctionType) {a b : Tristate} (c : Tristate)
    (h : a ≤ b) : type.apply a c ≤ type.apply b c := by
  cases type
  · show a.and c ≤ b.and c
    rw [Tristate.and_eq_min, Tristate.and_eq_min]
    exact min_le_min_right c h
  · show a.or c ≤ b.or c
    rw [Tristate.or_eq_max, Tristate.or_eq_max]
    exact max_le_max_right c h

/-- `symbol_yes` and `symbol_no` have their values. -/
structure Constants (tab : SymbolTable S) (v : Values S) : Prop where
  yes : v.tri tab.symbolYes = .yes
  no : v.tri tab.symbolNo = .no

theorem constants_of_calculated (h : Calculated tab v) : Constants tab v :=
  ⟨h.yes, h.no⟩

theorem apply_unit (h : Constants tab v) (type : JunctionType) (a : Tristate) :
    type.apply (v.tri (unit tab type)) a = a := by
  cases type
  · rw [unit, h.yes]
    cases a <;> rfl
  · rw [unit, h.no]
    cases a <;> rfl

theorem apply_zero (h : Constants tab v) (type : JunctionType) (a : Tristate) :
    type.apply (v.tri (zero tab type)) a = v.tri (zero tab type) := by
  cases type
  · rw [zero, h.no]
    cases a <;> rfl
  · rw [zero, h.yes]
    cases a <;> rfl

/-! ## Sizes -/

/-- The number of nodes. -/
def size : Expr S → Nat
  | .symbol _ => 1
  | .one e => size e + 1
  | .two _ l r => size l + size r + 1
  | .comp _ _ _ => 1

theorem size_pos (e : Expr S) : 0 < size e := by
  cases e <;> exact Nat.succ_pos _

theorem operands_eq_some {l r : Expr S} :
    e.operands type = some (l, r) ↔ e = .two type l r := by
  cases e with
  | two t a b =>
      by_cases h : t = type
      · subst h
        simp [Expr.operands]
      · simp [Expr.operands, h]
  | _ => simp [Expr.operands]

theorem operands_eq_none :
    e.operands type = none ↔ e.junction ≠ some type := by
  cases e with
  | two t a b =>
      by_cases h : t = type <;> simp [Expr.operands, Expr.junction, h]
  | _ => simp [Expr.operands, Expr.junction]

theorem junction_eq_some :
    e.junction = some type ↔ ∃ l r, e = .two type l r := by
  cases e <;> simp [Expr.junction]

/-- A single node is no junction. -/
theorem junction_ne_of_size (h : size e = 1) : e.junction ≠ some type := by
  intro hj
  obtain ⟨l, r, rfl⟩ := junction_eq_some.mp hj
  have := size_pos l
  simp only [size] at h
  omega

/-! ## What cancelling keeps -/

/-- The order of `a` and `b` is that of `a'` and `b'`. -/
structure Reflects (a b a' b' : Tristate) : Prop where
  le : a' ≤ b' → a ≤ b
  ge : b' ≤ a' → b ≤ a

theorem Reflects.refl (a b : Tristate) : Reflects a b a b := ⟨id, id⟩

theorem Reflects.trans {a b a' b' a'' b'' : Tristate}
    (h : Reflects a b a' b') (h' : Reflects a' b' a'' b'') :
    Reflects a b a'' b'' :=
  ⟨fun hle => h.le (h'.le hle), fun hge => h.ge (h'.ge hge)⟩

theorem Reflects.eq {a b c : Tristate} (h : Reflects a b c c) : a = b :=
  le_antisymm (h.le (le_refl c)) (h.ge (le_refl c))

/-- The two expressions and what is left of them differ in a common
    operand. -/
def Cancels (tab : SymbolTable S) (type : JunctionType)
    (e1 e2 e1' e2' : Expr S) : Prop :=
  ∀ v, Constants tab v → ∃ c,
    exprCalcValue tab v e1 = type.apply (exprCalcValue tab v e1') c ∧
    exprCalcValue tab v e2 = type.apply (exprCalcValue tab v e2') c

theorem Cancels.refl (tab : SymbolTable S) (type : JunctionType)
    (e1 e2 : Expr S) : Cancels tab type e1 e2 e1 e2 := by
  intro v h
  refine ⟨v.tri (unit tab type), ?_, ?_⟩ <;>
    rw [apply_comm, apply_unit h type]

theorem Cancels.symm (h : Cancels tab type e1 e2 e1' e2') :
    Cancels tab type e2 e1 e2' e1' := by
  intro v hv
  obtain ⟨c, h1, h2⟩ := h v hv
  exact ⟨c, h2, h1⟩

theorem Cancels.reflects (h : Cancels tab type e1 e2 e1' e2')
    (hv : Constants tab v) :
    Reflects (exprCalcValue tab v e1) (exprCalcValue tab v e2)
      (exprCalcValue tab v e1') (exprCalcValue tab v e2') := by
  obtain ⟨c, h1, h2⟩ := h v hv
  rw [h1, h2]
  exact ⟨apply_mono type c, apply_mono type c⟩

/-- Equal expressions are cancelled as a whole. -/
theorem cancels_of_eq (type : JunctionType) (h : ∀ v, Constants tab v →
    exprCalcValue tab v e1 = exprCalcValue tab v e2) :
    Cancels tab type e1 e2 (.symbol (unit tab type))
      (.symbol (unit tab type)) := by
  intro v hv
  refine ⟨exprCalcValue tab v e2, ?_, ?_⟩
  · rw [h v hv]
    exact (apply_unit hv type _).symm
  · exact (apply_unit hv type _).symm

/-- Both operands of the first expression in turn. -/
theorem Cancels.two {l r l' r' e2'' : Expr S}
    (hl : Cancels tab type l e2 l' e2') (hr : Cancels tab type r e2' r' e2'') :
    Cancels tab type (.two type l r) e2 (.two type l' r') e2'' := by
  intro v hv
  obtain ⟨c, hl, h2⟩ := hl v hv
  obtain ⟨d, hr, h2'⟩ := hr v hv
  refine ⟨type.apply c d, ?_, ?_⟩
  · rw [exprCalcValue, hl, hr]
    exact apply_apply_comm type _ _ _ _
  · rw [h2, h2', apply_assoc, apply_comm type d]

/-- The expressions that are left are no larger. -/
def Shrinks (r : Option (Expr S × Expr S)) (e1 e2 : Expr S) : Prop :=
  ∃ e1' e2', r = some (e1', e2') ∧ size e1' ≤ size e1 ∧ size e2' ≤ size e2

theorem firstPass_shrinks
    {eliminate : JunctionType → Expr S → Expr S → Option (Expr S × Expr S)}
    (h : ∀ type, e1.junction = some type →
      Shrinks (eliminate type e1 e2) e1 e2) :
    Shrinks (firstPass eliminate e1 e2) e1 e2 := by
  rw [firstPass]
  cases hj : e1.junction with
  | none => exact ⟨e1, e2, rfl, Nat.le_refl _, Nat.le_refl _⟩
  | some type => exact h type hj

theorem secondPass_shrinks
    {eliminate : JunctionType → Expr S → Expr S → Option (Expr S × Expr S)}
    (h : ∀ type, e2.junction = some type →
      Shrinks (eliminate type e1 e2) e1 e2) :
    Shrinks (secondPass eliminate e1 e2) e1 e2 := by
  rw [secondPass]
  cases hj : e2.junction with
  | none => exact ⟨e1, e2, rfl, Nat.le_refl _, Nat.le_refl _⟩
  | some type =>
      by_cases hsame : e1.junction = some type
      · simp only [if_pos hsame]
        exact ⟨e1, e2, rfl, Nat.le_refl _, Nat.le_refl _⟩
      · simp only [if_neg hsame]
        exact h type hj

variable [DecidableEq S]

/-! ## `expr_eliminate_yn` -/

/-- **Constants are eliminated** without a change of the value. -/
theorem value_eliminateYn (h : Constants tab v) (e : Expr S) :
    exprCalcValue tab v (exprEliminateYn tab e) = exprCalcValue tab v e := by
  induction e with
  | symbol s => rfl
  | one e => rfl
  | comp type s t => rfl
  | two type l r ihl ihr =>
      rw [exprEliminateYn, exprCalcValue, ← ihl, ← ihr]
      generalize exprEliminateYn tab l = l'
      generalize exprEliminateYn tab r = r'
      by_cases hlz : l' = .symbol (zero tab type)
      · rw [if_pos hlz, hlz]
        exact (apply_zero h type _).symm
      · rw [if_neg hlz]
        by_cases hlu : l' = .symbol (unit tab type)
        · rw [if_pos hlu, hlu]
          exact (apply_unit h type _).symm
        · rw [if_neg hlu]
          by_cases hrz : r' = .symbol (zero tab type)
          · rw [if_pos hrz, hrz, apply_comm]
            exact (apply_zero h type _).symm
          · rw [if_neg hrz]
            by_cases hru : r' = .symbol (unit tab type)
            · rw [if_pos hru, hru, apply_comm]
              exact (apply_unit h type _).symm
            · rw [if_neg hru]
              rfl

theorem size_eliminateYn (tab : SymbolTable S) (e : Expr S) :
    size (exprEliminateYn tab e) ≤ size e := by
  induction e with
  | symbol s => exact Nat.le_refl _
  | one e => exact Nat.le_refl _
  | comp type s t => exact Nat.le_refl _
  | two type l r ihl ihr =>
      rw [exprEliminateYn]
      split_ifs <;> simp only [size] <;> omega

/-! ## Soundness -/

/-- Whatever the passes of `expr_eliminate_eq` cancel, they reflect the
    order. -/
theorem eliminateEqWith_reflects
    {eliminate : JunctionType → Expr S → Expr S → Option (Expr S × Expr S)}
    (hcancels : ∀ {type e1 e2 e1' e2'},
      eliminate type e1 e2 = some (e1', e2') →
        Cancels tab type e1 e2 e1' e2')
    (h : eliminateEqWith tab eliminate e1 e2 = some (e1', e2'))
    (hv : Constants tab v) :
    Reflects (exprCalcValue tab v e1) (exprCalcValue tab v e2)
      (exprCalcValue tab v e1') (exprCalcValue tab v e2') := by
  simp only [eliminateEqWith, Option.bind_eq_bind, Option.bind_eq_some_iff,
    Prod.exists, Option.pure_def, Option.some.injEq, Prod.mk.injEq] at h
  obtain ⟨f1, f2, hfirst, g1, g2, hsecond, rfl, rfl⟩ := h
  rw [value_eliminateYn hv, value_eliminateYn hv]
  have h1 : Reflects (exprCalcValue tab v e1) (exprCalcValue tab v e2)
      (exprCalcValue tab v f1) (exprCalcValue tab v f2) := by
    rw [firstPass] at hfirst
    cases hj : e1.junction with
    | none =>
        rw [hj] at hfirst
        cases hfirst
        exact Reflects.refl _ _
    | some type =>
        rw [hj] at hfirst
        exact (hcancels hfirst).reflects hv
  have h2 : Reflects (exprCalcValue tab v f1) (exprCalcValue tab v f2)
      (exprCalcValue tab v g1) (exprCalcValue tab v g2) := by
    rw [secondPass] at hsecond
    cases hj : f2.junction with
    | none =>
        rw [hj] at hsecond
        cases hsecond
        exact Reflects.refl _ _
    | some type =>
        simp only [hj] at hsecond
        split_ifs at hsecond with hsame
        · cases hsecond
          exact Reflects.refl _ _
        · exact (hcancels hsecond).reflects hv
  exact h1.trans h2

theorem eq_of_sameSymbol (h : sameSymbol (e1, e2) = true) : e1 = e2 := by
  cases e1 with
  | symbol s =>
      cases e2 with
      | symbol s' => rw [of_decide_eq_true h]
      | _ => cases h
  | _ => cases h

/-- **Both functions are sound**, by induction on the depth of the calls. -/
theorem sound (tab : SymbolTable S) (fuel : Nat) :
    (∀ {type e1 e2 e1' e2'},
      eliminateEq tab fuel type e1 e2 = some (e1', e2') →
        Cancels tab type e1 e2 e1' e2') ∧
    ∀ {e1 e2}, exprEq tab fuel e1 e2 = some true → ∀ v, Constants tab v →
      exprCalcValue tab v e1 = exprCalcValue tab v e2 := by
  induction fuel with
  | zero =>
      constructor
      · intro type e1 e2 e1' e2' h
        rw [eliminateEq] at h
        cases h
      · intro e1 e2 h
        rw [exprEq] at h
        cases h
  | succ fuel ih =>
      obtain ⟨ihc, ihe⟩ := ih
      constructor
      · intro type e1 e2 e1' e2' h
        rw [eliminateEq] at h
        cases h1 : e1.operands type with
        | some p =>
            obtain ⟨l, r⟩ := p
            obtain rfl := operands_eq_some.mp h1
            simp only [h1, Option.bind_eq_bind, Option.bind_eq_some_iff,
              Prod.exists, Option.pure_def, Option.some.injEq,
              Prod.mk.injEq] at h
            obtain ⟨l', f2, hl, r', g2, hr, rfl, rfl⟩ := h
            exact (ihc hl).two (ihc hr)
        | none =>
            simp only [h1] at h
            cases h2 : e2.operands type with
            | some p =>
                obtain ⟨l, r⟩ := p
                obtain rfl := operands_eq_some.mp h2
                simp only [h2, Option.bind_eq_bind, Option.bind_eq_some_iff,
                  Prod.exists, Option.pure_def, Option.some.injEq,
                  Prod.mk.injEq] at h
                obtain ⟨f1, l', hl, g1, r', hr, rfl, rfl⟩ := h
                exact ((ihc hl).symm.two (ihc hr).symm).symm
            | none =>
                simp only [h2] at h
                split_ifs at h with hconst
                · cases h
                  exact Cancels.refl tab type _ _
                · simp only [Option.bind_eq_bind,
                    Option.bind_eq_some_iff] at h
                  obtain ⟨eq, heq, h⟩ := h
                  cases eq with
                  | true =>
                      cases h
                      exact cancels_of_eq type (ihe heq)
                  | false =>
                      cases h
                      exact Cancels.refl tab type _ _
      · intro e1 e2 h v hv
        cases e1 with
        | symbol s =>
            cases e2 with
            | symbol s' =>
                rw [exprEq] at h
                rw [of_decide_eq_true (Option.some.inj h)]
            | _ => simp [exprEq] at h
        | comp type s t =>
            cases e2 with
            | comp type' s' t' =>
                rw [exprEq] at h
                obtain ⟨rfl, rfl, rfl⟩ :=
                  of_decide_eq_true (Option.some.inj h)
                rfl
            | _ => simp [exprEq] at h
        | one e1 =>
            cases e2 with
            | one e2 =>
                rw [exprEq] at h
                rw [exprCalcValue, exprCalcValue, ihe h v hv]
            | _ => simp [exprEq] at h
        | two type l r =>
            cases e2 with
            | two type' l' r' =>
                rw [exprEq] at h
                split_ifs at h with htype
                · cases h
                obtain ⟨⟨f1, f2⟩, helim, hsame⟩ := Option.map_eq_some_iff.mp h
                have hreflects := eliminateEqWith_reflects ihc helim hv
                rw [eq_of_sameSymbol hsame] at hreflects
                exact hreflects.eq
            | _ => simp [exprEq] at h

/-! ## The calls come to an end -/

theorem eliminateEqWith_shrinks (tab : SymbolTable S) {n : Nat}
    {eliminate : JunctionType → Expr S → Expr S → Option (Expr S × Expr S)}
    (h : ∀ type e1 e2, e1.junction = some type ∨ e2.junction = some type →
      size e1 + size e2 ≤ n → Shrinks (eliminate type e1 e2) e1 e2)
    (hn : size e1 + size e2 ≤ n) :
    Shrinks (eliminateEqWith tab eliminate e1 e2) e1 e2 := by
  obtain ⟨f1, f2, hf, hf1, hf2⟩ :=
    firstPass_shrinks fun type hj => h type e1 e2 (.inl hj) hn
  obtain ⟨g1, g2, hg, hg1, hg2⟩ :=
    secondPass_shrinks fun type hj => h type f1 f2 (.inr hj) (by omega)
  refine ⟨exprEliminateYn tab g1, exprEliminateYn tab g2, ?_, ?_, ?_⟩
  · rw [eliminateEqWith, hf]
    show (secondPass eliminate f1 f2).bind _ = _
    rw [hg]
    rfl
  · exact Nat.le_trans (size_eliminateYn tab g1) (Nat.le_trans hg1 hf1)
  · exact Nat.le_trans (size_eliminateYn tab g2) (Nat.le_trans hg2 hf2)

/-- **The calls come to an end.**  Where one of the expressions is of the type
    that is eliminated the trees get smaller with the next call; else
    `expr_eq` is called, and that may come back for the same trees with
    another type. -/
theorem ends (tab : SymbolTable S) (fuel : Nat) :
    (∀ type e1 e2, e1.junction = some type ∨ e2.junction = some type →
      3 * (size e1 + size e2) ≤ fuel + 2 →
        Shrinks (eliminateEq tab fuel type e1 e2) e1 e2) ∧
    (∀ e1 e2, 3 * (size e1 + size e2) ≤ fuel + 1 →
      ∃ eq, exprEq tab fuel e1 e2 = some eq) ∧
    ∀ type e1 e2, 3 * (size e1 + size e2) ≤ fuel →
      Shrinks (eliminateEq tab fuel type e1 e2) e1 e2 := by
  induction fuel with
  | zero =>
      have hpos : ∀ e1 e2 : Expr S, 2 ≤ size e1 + size e2 := fun e1 e2 =>
        Nat.add_le_add (size_pos e1) (size_pos e2)
      refine ⟨fun _ e1 e2 _ h => ?_, fun e1 e2 h => ?_, fun _ e1 e2 h => ?_⟩ <;>
        · have := hpos e1 e2
          omega
  | succ fuel ih =>
      obtain ⟨ihactive, iheq, ihall⟩ := ih
      have hactive : ∀ type e1 e2,
          e1.junction = some type ∨ e2.junction = some type →
          3 * (size e1 + size e2) ≤ fuel + 1 + 2 →
          Shrinks (eliminateEq tab (fuel + 1) type e1 e2) e1 e2 := by
        intro type e1 e2 hj hfuel
        rw [eliminateEq]
        by_cases h1 : e1.junction = some type
        · obtain ⟨l, r, rfl⟩ := junction_eq_some.mp h1
          simp only [size] at hfuel
          have := size_pos r
          have := size_pos l
          obtain ⟨l', f2, hl, hl', hf2⟩ := ihall type l e2 (by omega)
          obtain ⟨r', g2, hr, hr', hg2⟩ := ihall type r f2 (by omega)
          refine ⟨.two type l' r', g2, ?_, ?_, by omega⟩
          · simp [operands_eq_some.mpr rfl, hl, hr]
          · simp only [size]
            omega
        · obtain ⟨l, r, rfl⟩ := junction_eq_some.mp (hj.resolve_left h1)
          simp only [size] at hfuel
          have := size_pos r
          have := size_pos l
          obtain ⟨f1, l', hl, hf1, hl'⟩ := ihall type e1 l (by omega)
          obtain ⟨g1, r', hr, hg1, hr'⟩ := ihall type f1 r (by omega)
          refine ⟨g1, .two type l' r', ?_, by omega, ?_⟩
          · simp [operands_eq_none.mpr h1, operands_eq_some.mpr rfl, hl, hr]
          · simp only [size]
            omega
      refine ⟨hactive, fun e1 e2 hfuel => ?_, fun type e1 e2 hfuel => ?_⟩
      · cases e1 with
        | symbol s => cases e2 <;> exact ⟨_, by rw [exprEq] <;> simp⟩
        | comp type s t => cases e2 <;> exact ⟨_, by rw [exprEq] <;> simp⟩
        | one e1 =>
            cases e2 with
            | one e2 =>
                simp only [size] at hfuel
                rw [exprEq]
                exact iheq e1 e2 (by omega)
            | _ => exact ⟨false, by simp [exprEq]⟩
        | two type l r =>
            cases e2 with
            | two type' l' r' =>
                rw [exprEq]
                by_cases htype : type ≠ type'
                · exact ⟨false, if_pos htype⟩
                · obtain ⟨f1, f2, helim, -, -⟩ :=
                    eliminateEqWith_shrinks tab (fun t f1 f2 hj hle =>
                      ihactive t f1 f2 hj (by omega))
                      (Nat.le_refl (size (.two type l r)
                        + size (.two type' l' r')))
                  exact ⟨_, by rw [if_neg htype, helim, Option.map_some]⟩
            | _ => exact ⟨false, by simp [exprEq]⟩
      · by_cases hj : e1.junction = some type ∨ e2.junction = some type
        · exact hactive type e1 e2 hj (by omega)
        · obtain ⟨h1, h2⟩ := not_or.mp hj
          rw [eliminateEq]
          simp only [operands_eq_none.mpr h1, operands_eq_none.mpr h2]
          by_cases hconst : e1 = e2 ∧ (e1 = .symbol tab.symbolYes
              ∨ e1 = .symbol tab.symbolNo)
          · rw [if_pos hconst]
            exact ⟨e1, e2, rfl, Nat.le_refl _, Nat.le_refl _⟩
          · obtain ⟨eq, heq⟩ := iheq e1 e2 (by omega)
            rw [if_neg hconst, heq]
            cases eq with
            | true => exact ⟨_, _, rfl, size_pos e1, size_pos e2⟩
            | false => exact ⟨_, _, rfl, Nat.le_refl _, Nat.le_refl _⟩

/-! ## The two functions -/

/-- `expr_eliminate_eq` returns, with no larger expressions. -/
theorem exprEliminateEq_shrinks (tab : SymbolTable S) {e1 e2 : Expr S}
    {fuel : Nat} (hfuel : 3 * (size e1 + size e2) ≤ fuel) :
    ∃ e1' e2', exprEliminateEq tab fuel e1 e2 = some (e1', e2') ∧
      size e1' ≤ size e1 ∧ size e2' ≤ size e2 :=
  eliminateEqWith_shrinks tab
    (fun type f1 f2 hj hle => (ends tab fuel).1 type f1 f2 hj (by omega))
    (Nat.le_refl (size e1 + size e2))

/-- **`expr_eq` decides soundly**: it returns, as `expr_eliminate_eq` does,
    and it takes two expressions to be equal only if they have the same value
    under all values of the symbols, whatever the order of the operands. -/
theorem exprEq_decides (tab : SymbolTable S) (e1 e2 : Expr S) (fuel : Nat)
    (hfuel : 3 * (size e1 + size e2) ≤ fuel) :
    (∃ e1' e2', exprEliminateEq tab fuel e1 e2 = some (e1', e2')) ∧
      ∃ eq, exprEq tab fuel e1 e2 = some eq ∧
        (eq = true → ∀ v, Calculated tab v →
          exprCalcValue tab v e1 = exprCalcValue tab v e2) := by
  obtain ⟨e1', e2', helim, -, -⟩ := exprEliminateEq_shrinks tab hfuel
  obtain ⟨eq, heq⟩ := (ends tab fuel).2.1 e1 e2 (by omega)
  refine ⟨⟨e1', e2', helim⟩, eq, heq, ?_⟩
  rintro rfl v hv
  exact (sound tab fuel).2 heq v (constants_of_calculated hv)

/-- `FOO && !BAR` and `!BAR && FOO` are found equal. -/
theorem exprEq_decides_sixSymbols :
    exprEq sixSymbols 24 (.two .and (.symbol 4) (.one (.symbol 5)))
        (.two .and (.one (.symbol 5)) (.symbol 4)) = some true ∧
      ∀ v, Calculated sixSymbols v →
        exprCalcValue sixSymbols v (.two .and (.symbol 4) (.one (.symbol 5)))
          = exprCalcValue sixSymbols v
            (.two .and (.one (.symbol 5)) (.symbol 4)) := by
  obtain ⟨-, eq, heq, hvalue⟩ := exprEq_decides sixSymbols
    (.two .and (.symbol 4) (.one (.symbol 5)))
    (.two .and (.one (.symbol 5)) (.symbol 4)) 24 (by decide)
  have htrue : exprEq sixSymbols 24 (.two .and (.symbol 4) (.one (.symbol 5)))
      (.two .and (.one (.symbol 5)) (.symbol 4)) = some true := by decide
  exact ⟨htrue, hvalue (Option.some.inj (heq.symm.trans htrue))⟩

/-- **`expr_eliminate_eq` keeps the order** of two dependencies in that of
    what it leaves of them: if it leaves `y` of the second one, as
    `menu_finalize` demands of an entry it puts into a submenu, then the
    first one never exceeds the second. -/
theorem eliminateEq_reflects (tab : SymbolTable S) (e1 e2 : Expr S)
    (fuel : Nat) (hfuel : 3 * (size e1 + size e2) ≤ fuel) :
    ∃ e1' e2', exprEliminateEq tab fuel e1 e2 = some (e1', e2') ∧
      size e1' ≤ size e1 ∧ size e2' ≤ size e2 ∧
      ∀ v, Calculated tab v →
        (exprCalcValue tab v e1' ≤ exprCalcValue tab v e2' →
          exprCalcValue tab v e1 ≤ exprCalcValue tab v e2) ∧
        (exprCalcValue tab v e2' ≤ exprCalcValue tab v e1' →
          exprCalcValue tab v e2 ≤ exprCalcValue tab v e1) ∧
        (e2' = .symbol tab.symbolYes →
          exprCalcValue tab v e1 ≤ exprCalcValue tab v e2) := by
  obtain ⟨e1', e2', helim, h1, h2⟩ := exprEliminateEq_shrinks tab hfuel
  refine ⟨e1', e2', helim, h1, h2, fun v hv => ?_⟩
  have hreflects := eliminateEqWith_reflects (sound tab fuel).1 helim
    (constants_of_calculated hv)
  refine ⟨hreflects.le, hreflects.ge, ?_⟩
  rintro rfl
  refine hreflects.le ?_
  show _ ≤ v.tri tab.symbolYes
  rw [hv.yes]
  exact Tristate.le_yes _

/-- An entry that depends on `FOO && BAR` goes under one that depends on
    `BAR`. -/
theorem eliminateEq_reflects_sixSymbols :
    exprEliminateEq sixSymbols 12 (.two .and (.symbol 4) (.symbol 5))
        (.symbol 5) = some (.symbol 4, .symbol 0) ∧
      ∀ v, Calculated sixSymbols v →
        exprCalcValue sixSymbols v (.two .and (.symbol 4) (.symbol 5))
          ≤ exprCalcValue sixSymbols v (.symbol 5) := by
  obtain ⟨e1', e2', helim, -, -, horder⟩ := eliminateEq_reflects sixSymbols
    (.two .and (.symbol 4) (.symbol 5)) (.symbol 5) 12 (by decide)
  have hleft : exprEliminateEq sixSymbols 12
      (.two .and (.symbol 4) (.symbol 5)) (.symbol 5)
        = some (.symbol 4, .symbol 0) := by decide
  obtain ⟨rfl, rfl⟩ := Prod.mk.inj
    (Option.some.inj (helim.symm.trans hleft))
  exact ⟨hleft, fun v hv => (horder v hv).2.2 rfl⟩

end ChinixKconfigEquality

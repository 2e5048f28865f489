import Chinix.KconfigSimplification

/-! # The rounds of `expr_eliminate_dups`

    `expr_eliminate_dups2` against the values, and the end of every recursion
    and of the loop.  A call goes down both of its ways, so a tree of `n`
    nodes bounds its depth, and the tree never grows. -/

namespace ChinixKconfigRounds

open ChinixKconfigExpr ChinixKconfigTransform ChinixKconfigEquality
open ChinixKconfigDuplicates ChinixKconfigPlaces ChinixKconfigJoins
open ChinixKconfigSimplification

variable {S : Type} {tab : SymbolTable S} {v : Values S}
variable {e e1 e2 e1' e2' : Expr S} {p p1 p2 : Path} {type : JunctionType}
variable {w w' : Rewriting S} {fuel n : Nat}

/-! ## Depths -/

/-- A depth that is enough for a tree of so many nodes. -/
def dupsFuel : Nat → Nat
  | 0 => 1
  | n + 1 => dupsFuel n + 16 * (n + 1) + 16

theorem dupsFuel_mono {m n : Nat} (h : m ≤ n) : dupsFuel m ≤ dupsFuel n := by
  induction h with
  | refl => exact Nat.le_refl _
  | step _ ih =>
      rw [dupsFuel]
      omega

/-- What is left at the ends of two ways, and for a call within an operand. -/
theorem dupsFuel_lt {m : Nat} (h : m < n) :
    dupsFuel m + 16 * n + 16 ≤ dupsFuel n := by
  obtain ⟨k, rfl⟩ := Nat.exists_eq_add_of_lt (Nat.zero_lt_of_lt h)
  have := dupsFuel_mono (show m ≤ 0 + k by omega)
  rw [dupsFuel]
  omega

theorem height_le_size (e : Expr S) : height e ≤ size e := by
  induction e with
  | symbol s => exact Nat.le_refl _
  | one e ih => exact Nat.succ_le_succ ih
  | two type l r ihl ihr =>
      simp only [height, size]
      omega
  | comp type a b => exact Nat.le_refl _

/-- A normal form has a negation before each leaf at most. -/
theorem Normal.size_lt (h : Normal tab e) : size e < 3 * leaves e := by
  induction e with
  | symbol s => exact by simp [size, leaves]
  | one e ih =>
      cases e with
      | symbol s => exact by simp [size, leaves]
      | _ => exact h.elim
  | two type l r ihl ihr =>
      have := ihl h.1
      have := ihr h.2
      simp only [size, leaves]
      omega
  | comp type a b => exact by simp [size, leaves]

theorem leaves_le_size (e : Expr S) : leaves e ≤ size e := by
  induction e with
  | symbol s => exact Nat.le_refl _
  | one e ih => exact Nat.le_succ_of_le ih
  | two type l r ihl ihr =>
      simp only [leaves, size]
      omega
  | comp type a b => exact Nat.le_refl _

/-! ## Calls that return -/

/-- Two calls in turn. -/
theorem bind_returns {f g : Rewriting S → Option (Rewriting S)}
    (hf : ∃ w1, f w = some w1)
    (hg : ∀ w1, f w = some w1 → ∃ w2, g w1 = some w2) :
    ∃ w2, (f w).bind g = some w2 := by
  obtain ⟨w1, hw1⟩ := hf
  obtain ⟨w2, hw2⟩ := hg w1 hw1
  exact ⟨w2, by rw [hw1, Option.bind_some, hw2]⟩

/-- A call within an operand. -/
theorem within_returns {call : Rewriting S → Option (Rewriting S)}
    (h : at? w.1 p = some e) (hcall : ∃ w', call (e, w.2) = some w') :
    ∃ w', within call p w = some w' := by
  obtain ⟨w', hw'⟩ := hcall
  rw [within, h]
  simp only [hw', Option.map_some]
  exact ⟨_, rfl⟩

/-- The depth that is left at two places of a tree. -/
theorem fuel_of_places (h1 : at? w.1 p1 = some e1)
    (h2 : at? w.1 p2 = some e2) (hsize : size w.1 ≤ n)
    (hfuel : dupsFuel n ≤ fuel + p1.length + p2.length) :
    16 * n + 16 + dupsFuel (n - 1) ≤ fuel + p1.length + p2.length ∧
      p1.length + size e1 ≤ n ∧ p2.length + size e2 ≤ n := by
  have hl1 := length_add_size_le h1
  have hl2 := length_add_size_le h2
  have := size_pos e1
  have := dupsFuel_lt (show n - 1 < n by omega)
  omega

/-! ## Contradictions -/

/-- What is both an operand and below the negation of one is `m`, or as the
    junction of constants. -/
theorem value_contradiction (hv : Calculated tab v) {a t : Tristate}
    (ha : type.apply t a = t) (hnot : type.apply t a.not = t)
    (ht : t ≠ .mod) : v.tri (zero tab type) = t := by
  cases type with
  | and =>
      rw [zero, hv.no]
      revert ha hnot ht
      cases a <;> cases t <;> decide
  | or =>
      rw [zero, hv.yes]
      revert ha hnot ht
      cases a <;> cases t <;> decide

/-- A junction is below its operand. -/
theorem apply_operand {x : Expr S} (h : Spine type e p)
    (hx : at? e p = some x) (hv : Constants tab v) :
    type.apply (exprCalcValue tab v e) (exprCalcValue tab v x)
      = exprCalcValue tab v e := by
  rw [value_at? h hx hv, apply_comm, ← apply_assoc, apply_self]

variable [DecidableEq S]

/-- `expr_extract_eq` takes the same from both expressions. -/
theorem cancels_extractEq {o o' : Option (Expr S)}
    (h : extractEq tab fuel type o e1 e2 = some (o', e1', e2')) :
    Cancels tab type e1 e2 e1' e2' := by
  induction fuel generalizing o o' e1 e2 e1' e2' with
  | zero => cases h
  | succ fuel ih =>
      rw [extractEq] at h
      cases h1 : e1.operands type with
      | some q =>
          obtain ⟨l, r⟩ := q
          obtain rfl := operands_eq_some.mp h1
          simp only [h1, Option.bind_eq_bind, Option.bind_eq_some_iff,
            Prod.exists, Option.pure_def, Option.some.injEq,
            Prod.mk.injEq] at h
          obtain ⟨o1, l', f2, hl, o2, r', g2, hr, rfl, rfl, rfl⟩ := h
          exact (ih hl).two (ih hr)
      | none =>
          simp only [h1] at h
          cases h2 : e2.operands type with
          | some q =>
              obtain ⟨l, r⟩ := q
              obtain rfl := operands_eq_some.mp h2
              simp only [h2, Option.bind_eq_bind, Option.bind_eq_some_iff,
                Prod.exists, Option.pure_def, Option.some.injEq,
                Prod.mk.injEq] at h
              obtain ⟨o1, f1, l', hl, o2, g1, r', hr, rfl, rfl, rfl⟩ := h
              exact ((ih hl).symm.two (ih hr).symm).symm
          | none =>
              simp only [h2] at h
              obtain ⟨eq, heq, h⟩ := Option.map_eq_some_iff.mp h
              cases eq with
              | true =>
                  obtain ⟨-, rfl, rfl⟩ := (by simpa using h :
                    _ ∧ Expr.symbol (unit tab type) = e1' ∧
                      Expr.symbol (unit tab type) = e2')
                  exact cancels_of_eq type ((sound tab fuel).2 heq)
              | false =>
                  obtain ⟨-, rfl, rfl⟩ := (by simpa using h :
                    o = o' ∧ e1 = e1' ∧ e2 = e2')
                  exact Cancels.refl tab type _ _

/-- If nothing is left of the first expression, the second one is it and
    more. -/
theorem apply_of_extractEqFirst (hv : Constants tab v)
    (h : extractEqFirst tab fuel type e1 e2
      = some (.symbol (unit tab type))) :
    type.apply (exprCalcValue tab v e2) (exprCalcValue tab v e1)
      = exprCalcValue tab v e2 := by
  obtain ⟨⟨o, f1, f2⟩, hextract, hfirst⟩ := Option.map_eq_some_iff.mp h
  have hunit : exprCalcValue tab v f1 = v.tri (unit tab type) := by
    cases o with
    | none =>
        obtain rfl : f1 = .symbol (unit tab type) := hfirst
        rfl
    | some x =>
        have hyn : exprEliminateYn tab f1 = .symbol (unit tab type) := hfirst
        rw [← value_eliminateYn hv, hyn]
        rfl
  obtain ⟨c, hc1, hc2⟩ := cancels_extractEq hextract v hv
  rw [hc1, hc2, hunit, apply_unit hv, apply_assoc, apply_self]

/-- **A contradiction** is replaced. -/
theorem rewrites_contradictAt (h1 : Leaf type w.1 p1) (h2 : Spine type w.1 p2)
    (hne : p1 ≠ p2) (h : contradictAt tab fuel type p1 p2 w = some w') :
    Rewrites tab Softened type w w' := by
  obtain ⟨-, e1, he1, hj1⟩ := id h1
  obtain ⟨e2, he2⟩ := h2.exists_at?
  simp only [contradictAt, he1, he2] at h
  obtain ⟨tmp1, htransform, h⟩ := Option.bind_eq_some_iff.mp h
  obtain ⟨left, hextract, h⟩ := Option.bind_eq_some_iff.mp h
  by_cases hleft : left = .symbol (unit tab type)
  · rw [if_pos hleft] at h
    subst hleft
    obtain rfl := Option.some.inj h
    refine ⟨h1.keepsSpine_put (junction_ne_of_size rfl), fun v hv ht => ?_, ?_,
      .inr ⟨Nat.lt_succ_self _, ?_⟩⟩
    · have hv' := constants_of_calculated hv
      have hbelow : type.apply (exprCalcValue tab v w.1)
          (exprCalcValue tab v e1).not = exprCalcValue tab v w.1 := by
        have hnot := apply_of_extractEqFirst hv' hextract
        rw [value_exprTransform hv htransform, exprCalcValue] at hnot
        rw [← apply_operand h2 he2 hv', apply_assoc, hnot]
      rw [value_put h1.1 hv']
      exact (apply_zero hv' type _).trans (value_contradiction hv
        (apply_operand h1.1 he1 hv') hbelow ht)
    · have hput := size_put he1 (.symbol (zero tab type))
      have := size_pos e1
      simp only [size] at hput
      show size (put w.1 p1 (.symbol (zero tab type))) ≤ size w.1
      omega
    · exact reducible_put_yn he1 (Leaf.ne_nil h1 h2 hne) (isYn_zero tab type)
  · rw [if_neg hleft] at h
    obtain rfl := Option.some.inj h
    exact Rewrites.refl congruent_softened tab type w

/-- `expr_eliminate_dups2` **keeps the value unless it is** `m`. -/
theorem rewrites_dups2 {type : JunctionType} {p1 p2 : Path}
    {w w' : Rewriting S} (h1 : Spine type w.1 p1) (h2 : Spine type w.1 p2)
    (h : eliminateDups2 tab fuel type p1 p2 w = some w') :
    Rewrites tab Softened type w w' := by
  induction fuel generalizing type p1 p2 w w' with
  | zero => cases h
  | succ fuel ih =>
      obtain ⟨e1, he1⟩ := h1.exists_at?
      obtain ⟨e2, he2⟩ := h2.exists_at?
      simp only [eliminateDups2, he1, he2] at h
      by_cases hj1 : e1.junction = some type
      · rw [if_pos hj1] at h
        obtain ⟨w1, hleft, hright⟩ := Option.bind_eq_some_iff.mp h
        have hr1 := ih (h1.snoc he1 hj1 .left) h2 hleft
        exact hr1.trans congruent_softened
          (ih (hr1.keeps.spine _ (h1.snoc he1 hj1 .right))
            (hr1.keeps.spine _ h2) hright)
      rw [if_neg hj1] at h
      obtain ⟨w1, hsecond, h⟩ := Option.bind_eq_some_iff.mp h
      have hr1 : Rewrites tab Softened type w w1 := by
        by_cases hj2 : e2.junction = some type
        · rw [if_pos hj2] at hsecond
          obtain ⟨w2, hleft, hright⟩ := Option.bind_eq_some_iff.mp hsecond
          have hr2 := ih h1 (h2.snoc he2 hj2 .left) hleft
          exact hr2.trans congruent_softened
            (ih (hr2.keeps.spine _ h1)
              (hr2.keeps.spine _ (h2.snoc he2 hj2 .right)) hright)
        · rw [if_neg hj2] at hsecond
          obtain rfl := Option.some.inj hsecond
          exact Rewrites.refl congruent_softened tab type w
      have hl1 : Leaf type w1.1 p1 :=
        hr1.keeps.leaf _ ⟨h1, e1, he1, hj1⟩
      have hs2 := hr1.keeps.spine _ h2
      by_cases hp : p1 = p2
      · rw [if_pos hp] at h
        obtain rfl := Option.some.inj h
        exact hr1
      rw [if_neg hp] at h
      obtain ⟨-, f1, hf1, hjf⟩ := id hl1
      rw [hf1, Option.bind_some] at h
      cases hj : f1.junction with
      | none =>
          simp only [hj] at h
          obtain rfl := Option.some.inj h
          exact hr1
      | some inner =>
          simp only [hj] at h
          obtain ⟨w2, hcall, hcontradict⟩ := Option.bind_eq_some_iff.mp h
          have hr2 := rewrites_within congruent_softened hl1 hf1 hj
            (ih (spine_nil _ _) (spine_nil _ _)) hcall
          exact (hr1.trans congruent_softened hr2).trans congruent_softened
            (rewrites_contradictAt (hr2.keeps.leaf _ hl1)
              (hr2.keeps.spine _ hs2) hp hcontradict)

/-- One round. -/
theorem rewrites_dupsRound (h : dupsRound tab fuel e = some w) :
    (∀ v, Calculated tab v →
      Softened (exprCalcValue tab v e) (exprCalcValue tab v w.1)) ∧
    size w.1 ≤ size e ∧ (w.2 = 0 ∨ Reducible tab w.1) := by
  rw [dupsRound] at h
  cases hj : e.junction with
  | none =>
      rw [hj] at h
      obtain rfl := Option.some.inj h
      exact ⟨fun _ _ _ => rfl, Nat.le_refl _, .inl rfl⟩
  | some type =>
      rw [hj] at h
      obtain ⟨w1, hfirst, hsecond⟩ := Option.bind_eq_some_iff.mp h
      have hr1 : Rewrites tab Eq type (e, 0) w1 :=
        rewrites_dups1 (spine_nil _ _) (spine_nil _ _) hfirst
      have hr2 : Rewrites tab Softened type w1 w :=
        rewrites_dups2 (spine_nil _ _) (spine_nil _ _) hsecond
      have hr1' : Rewrites tab Softened type (e, 0) w1 :=
        ⟨hr1.keeps, fun v hv _ => (hr1.value v hv).symm, hr1.size,
          hr1.progress⟩
      have hr := hr1'.trans congruent_softened hr2
      refine ⟨hr.value, hr.size, ?_⟩
      rcases hr.progress with rfl | ⟨-, hred⟩
      · exact .inl rfl
      · exact .inr hred

/-! ## The calls come to an end -/

/-- `expr_extract_eq` returns, with expressions that are no larger. -/
theorem extractEq_returns (tab : SymbolTable S) (type : JunctionType)
    (o : Option (Expr S)) (e1 e2 : Expr S)
    (hfuel : 3 * (size e1 + size e2) ≤ fuel) :
    ∃ o' e1' e2', extractEq tab fuel type o e1 e2 = some (o', e1', e2') ∧
      size e1' ≤ size e1 ∧ size e2' ≤ size e2 := by
  induction fuel generalizing o e1 e2 with
  | zero =>
      have := size_pos e1
      omega
  | succ fuel ih =>
      rw [extractEq]
      by_cases h1 : e1.junction = some type
      · obtain ⟨l, r, rfl⟩ := junction_eq_some.mp h1
        simp only [size] at hfuel
        obtain ⟨o1, l', f2, hl, hl', hf2⟩ := ih o l e2 (by omega)
        obtain ⟨o2, r', g2, hr, hr', hg2⟩ := ih o1 r f2 (by omega)
        refine ⟨o2, .two type l' r', g2, ?_, ?_, by omega⟩
        · simp [operands_eq_some.mpr rfl, hl, hr]
        · simp only [size]
          omega
      by_cases h2 : e2.junction = some type
      · obtain ⟨l, r, rfl⟩ := junction_eq_some.mp h2
        simp only [size] at hfuel
        obtain ⟨o1, f1, l', hl, hf1, hl'⟩ := ih o e1 l (by omega)
        obtain ⟨o2, g1, r', hr, hg1, hr'⟩ := ih o1 f1 r (by omega)
        refine ⟨o2, g1, .two type l' r', ?_, by omega, ?_⟩
        · simp [operands_eq_none.mpr h1, operands_eq_some.mpr rfl, hl, hr]
        · simp only [size]
          omega
      obtain ⟨eq, heq⟩ := (ends tab fuel).2.1 e1 e2 (by omega)
      simp only [operands_eq_none.mpr h1, operands_eq_none.mpr h2, heq]
      cases eq with
      | true => exact ⟨_, _, _, rfl, size_pos e1, size_pos e2⟩
      | false => exact ⟨_, _, _, rfl, Nat.le_refl _, Nat.le_refl _⟩

theorem joinAt_returns (tab : SymbolTable S) (type : JunctionType)
    (h1 : at? w.1 p1 = some e1) (h2 : at? w.1 p2 = some e2)
    (hfuel : 3 * (size e1 + size e2) ≤ fuel) :
    ∃ w', joinAt tab fuel type p1 p2 w = some w' := by
  obtain ⟨eq, heq⟩ := (ends tab fuel).2.1 e1 e2 (by omega)
  simp only [joinAt, h1, h2, exprJoin, heq, Option.map_some]
  exact ⟨_, rfl⟩

theorem contradictAt_returns (tab : SymbolTable S) (type : JunctionType)
    (h1 : at? w.1 p1 = some e1) (h2 : at? w.1 p2 = some e2)
    (hfuel : 9 * size e1 + 3 * size e2 + 3 ≤ fuel) :
    ∃ w', contradictAt tab fuel type p1 p2 w = some w' := by
  have hheight := height_le_size e1
  obtain ⟨tmp1, htransform, ht⟩ := exprTransform_transforms tab (.one e1)
    (show 2 * (height e1 + 1) + 1 ≤ fuel by omega)
  have hleaves : leaves tmp1 ≤ size e1 :=
    Nat.le_trans ht.leaves (leaves_le_size e1)
  have hsize := Normal.size_lt ht.normal
  obtain ⟨o, f1, f2, hextract, -, -⟩ :=
    extractEq_returns tab type none tmp1 e2
      (show 3 * (size tmp1 + size e2) ≤ fuel by omega)
  simp only [contradictAt, h1, h2, htransform, extractEqFirst, hextract,
    Option.map_some, Option.bind_eq_bind, Option.bind_some]
  split_ifs <;> exact ⟨_, rfl⟩

/-- `expr_eliminate_dups1` **returns.** -/
theorem dups1_returns (tab : SymbolTable S) {type : JunctionType}
    {p1 p2 : Path} {w : Rewriting S} {n : Nat} (h1 : Spine type w.1 p1)
    (h2 : Spine type w.1 p2) (hsize : size w.1 ≤ n)
    (hfuel : dupsFuel n ≤ fuel + p1.length + p2.length) :
    ∃ w', eliminateDups1 tab fuel type p1 p2 w = some w' := by
  induction fuel generalizing type p1 p2 w n with
  | zero =>
      obtain ⟨e1, he1⟩ := h1.exists_at?
      obtain ⟨e2, he2⟩ := h2.exists_at?
      have := fuel_of_places he1 he2 hsize hfuel
      omega
  | succ fuel ih =>
      obtain ⟨e1, he1⟩ := h1.exists_at?
      obtain ⟨e2, he2⟩ := h2.exists_at?
      obtain ⟨hleft, hl1, hl2⟩ := fuel_of_places he1 he2 hsize hfuel
      simp only [eliminateDups1, he1, he2]
      by_cases hj1 : e1.junction = some type
      · rw [if_pos hj1]
        have hs := h1.snoc he1 hj1
        refine bind_returns (ih (hs .left) h2 hsize ?_) fun w1 hw1 => ?_
        · rw [List.length_append, List.length_singleton]
          omega
        · have hr1 := rewrites_dups1 (hs .left) h2 hw1
          refine ih (hr1.keeps.spine _ (hs .right)) (hr1.keeps.spine _ h2)
            (Nat.le_trans hr1.size hsize) ?_
          rw [List.length_append, List.length_singleton]
          omega
      rw [if_neg hj1]
      by_cases hj2 : e2.junction = some type
      · rw [if_pos hj2]
        have hs := h2.snoc he2 hj2
        refine bind_returns (ih h1 (hs .left) hsize ?_) fun w1 hw1 => ?_
        · rw [List.length_append, List.length_singleton]
          omega
        · have hr1 := rewrites_dups1 h1 (hs .left) hw1
          refine ih (hr1.keeps.spine _ h1) (hr1.keeps.spine _ (hs .right))
            (Nat.le_trans hr1.size hsize) ?_
          rw [List.length_append, List.length_singleton]
          omega
      rw [if_neg hj2]
      by_cases hp : p1 = p2
      · exact ⟨w, if_pos hp⟩
      rw [if_neg hp]
      have hleaf : Leaf type w.1 p1 := ⟨h1, e1, he1, hj1⟩
      have hlen := List.length_pos_iff.mpr (Leaf.ne_nil hleaf h2 hp)
      cases hj : e1.junction with
      | none => exact joinAt_returns tab type he1 he2 (by omega)
      | some inner =>
          refine bind_returns (within_returns he1 ?_) fun w1 hw1 => ?_
          · refine ih (n := n - 1) (spine_nil _ _) (spine_nil _ _) ?_ ?_
            · show size e1 ≤ n - 1
              omega
            · simp only [List.length_nil]
              omega
          · have hr1 := rewrites_within congruent_eq hleaf he1 hj
              (rewrites_dups1 (spine_nil _ _) (spine_nil _ _)) hw1
            obtain ⟨f1, hf1⟩ := (hr1.keeps.spine _ h1).exists_at?
            obtain ⟨f2, hf2⟩ := (hr1.keeps.spine _ h2).exists_at?
            have := length_add_size_le hf1
            have := length_add_size_le hf2
            have := hr1.size
            exact joinAt_returns tab type hf1 hf2 (by omega)

/-- `expr_eliminate_dups2` **returns.** -/
theorem dups2_returns (tab : SymbolTable S) {type : JunctionType}
    {p1 p2 : Path} {w : Rewriting S} {n : Nat} (h1 : Spine type w.1 p1)
    (h2 : Spine type w.1 p2) (hsize : size w.1 ≤ n)
    (hfuel : dupsFuel n ≤ fuel + p1.length + p2.length) :
    ∃ w', eliminateDups2 tab fuel type p1 p2 w = some w' := by
  induction fuel generalizing type p1 p2 w n with
  | zero =>
      obtain ⟨e1, he1⟩ := h1.exists_at?
      obtain ⟨e2, he2⟩ := h2.exists_at?
      have := fuel_of_places he1 he2 hsize hfuel
      omega
  | succ fuel ih =>
      obtain ⟨e1, he1⟩ := h1.exists_at?
      obtain ⟨e2, he2⟩ := h2.exists_at?
      obtain ⟨hleft, hl1, hl2⟩ := fuel_of_places he1 he2 hsize hfuel
      simp only [eliminateDups2, he1, he2]
      by_cases hj1 : e1.junction = some type
      · rw [if_pos hj1]
        have hs := h1.snoc he1 hj1
        refine bind_returns (ih (hs .left) h2 hsize ?_) fun w1 hw1 => ?_
        · rw [List.length_append, List.length_singleton]
          omega
        · have hr1 := rewrites_dups2 (hs .left) h2 hw1
          refine ih (hr1.keeps.spine _ (hs .right)) (hr1.keeps.spine _ h2)
            (Nat.le_trans hr1.size hsize) ?_
          rw [List.length_append, List.length_singleton]
          omega
      rw [if_neg hj1]
      -- what the calls for the second place have made of the tree
      have hsecond : ∃ w1, (if e2.junction = some type then
          (eliminateDups2 tab fuel type p1 (p2 ++ [.left]) w).bind
            (eliminateDups2 tab fuel type p1 (p2 ++ [.right]))
          else some w) = some w1 ∧ Rewrites tab Softened type w w1 := by
        by_cases hj2 : e2.junction = some type
        · have hs := h2.snoc he2 hj2
          obtain ⟨w1, hw1⟩ := ih h1 (hs .left) hsize
            (by rw [List.length_append, List.length_singleton]; omega)
          have hr1 := rewrites_dups2 h1 (hs .left) hw1
          obtain ⟨w2, hw2⟩ := ih (hr1.keeps.spine _ h1)
            (hr1.keeps.spine _ (hs .right)) (Nat.le_trans hr1.size hsize)
            (by rw [List.length_append, List.length_singleton]; omega)
          refine ⟨w2, ?_, hr1.trans congruent_softened
            (rewrites_dups2 (hr1.keeps.spine _ h1)
              (hr1.keeps.spine _ (hs .right)) hw2)⟩
          rw [if_pos hj2, hw1, Option.bind_some, hw2]
        · exact ⟨w, if_neg hj2, Rewrites.refl congruent_softened tab type w⟩
      obtain ⟨w1, hw1, hr1⟩ := hsecond
      rw [hw1, Option.bind_some]
      by_cases hp : p1 = p2
      · exact ⟨w1, if_pos hp⟩
      rw [if_neg hp]
      have hleaf : Leaf type w1.1 p1 := hr1.keeps.leaf _ ⟨h1, e1, he1, hj1⟩
      have hs2 := hr1.keeps.spine _ h2
      have hlen := List.length_pos_iff.mpr (Leaf.ne_nil hleaf hs2 hp)
      obtain ⟨f1, hf1⟩ := hleaf.1.exists_at?
      have hsize1 := Nat.le_trans hr1.size hsize
      have := length_add_size_le hf1
      rw [hf1, Option.bind_some]
      cases hj : f1.junction with
      | none => exact ⟨w1, rfl⟩
      | some inner =>
          refine bind_returns (within_returns hf1 ?_) fun w2 hw2 => ?_
          · refine ih (n := n - 1) (spine_nil _ _) (spine_nil _ _) ?_ ?_
            · show size f1 ≤ n - 1
              omega
            · simp only [List.length_nil]
              omega
          · have hr2 := rewrites_within congruent_softened hleaf hf1 hj
              (rewrites_dups2 (spine_nil _ _) (spine_nil _ _)) hw2
            obtain ⟨g1, hg1⟩ := (hr2.keeps.spine _ hleaf.1).exists_at?
            obtain ⟨g2, hg2⟩ := (hr2.keeps.spine _ hs2).exists_at?
            have := length_add_size_le hg1
            have := length_add_size_le hg2
            have := hr2.size
            exact contradictAt_returns tab type hg1 hg2 (by omega)

/-! ## The loop -/

theorem dupsRound_returns (tab : SymbolTable S)
    (hfuel : dupsFuel (size e) ≤ fuel) :
    ∃ w, dupsRound tab fuel e = some w := by
  rw [dupsRound]
  cases hj : e.junction with
  | none => exact ⟨_, rfl⟩
  | some type =>
      refine bind_returns (dups1_returns tab (spine_nil _ _) (spine_nil _ _)
        (Nat.le_refl (size e)) hfuel) fun w1 hw1 => ?_
      have hr1 : Rewrites tab Eq type (e, 0) w1 :=
        rewrites_dups1 (spine_nil _ _) (spine_nil _ _) hw1
      exact dups2_returns tab (spine_nil _ _) (spine_nil _ _) hr1.size hfuel

/-- `expr_eliminate_dups1`, called for a whole junction, **keeps its value**
    for all values of the symbols. -/
theorem eliminateDups1_value (tab : SymbolTable S) (type : JunctionType)
    (l r : Expr S) (k fuel : Nat)
    (hfuel : dupsFuel (size (.two type l r)) ≤ fuel) :
    ∃ e' k', eliminateDups1 tab fuel type [] [] (.two type l r, k)
        = some (e', k') ∧
      e'.junction = some type ∧ size e' ≤ size (.two type l r) ∧
      ∀ v, Calculated tab v →
        exprCalcValue tab v e' = exprCalcValue tab v (.two type l r) := by
  obtain ⟨⟨e', k'⟩, hcall⟩ := dups1_returns tab (w := (.two type l r, k))
    (spine_nil type _) (spine_nil _ _) (Nat.le_refl _) hfuel
  have hr := rewrites_dups1 (spine_nil _ _) (spine_nil _ _) hcall
  exact ⟨e', k', hcall, hr.keeps.junction rfl, hr.size,
    fun v hv => (hr.value v hv).symm⟩

/-- `expr_eliminate_dups` **comes to an end** on every expression, with one
    that is no larger and has the same value wherever the value is not
    `m`. -/
theorem eliminateDups_simplifies (tab : SymbolTable S) (e : Expr S)
    (fuel : Nat) (hfuel : dupsFuel (size e) + 1 ≤ fuel) :
    ∃ e', eliminateDups tab fuel e = some e' ∧ size e' ≤ size e ∧
      ∀ v, Calculated tab v → exprCalcValue tab v e ≠ .mod →
        exprCalcValue tab v e' = exprCalcValue tab v e := by
  induction fuel generalizing e with
  | zero => omega
  | succ fuel ih =>
      have hfuel : dupsFuel (size e) ≤ fuel := by omega
      obtain ⟨w, hround⟩ := dupsRound_returns tab hfuel
      obtain ⟨hvalue, hsize, hprogress⟩ := rewrites_dupsRound hround
      rw [eliminateDups, hround, Option.bind_some]
      by_cases hcount : w.2 = 0
      · exact ⟨w.1, if_pos hcount, hsize, hvalue⟩
      -- a counted rewriting has left a constant that goes now
      have hlt := size_eliminateYn_lt (hprogress.resolve_left hcount)
      obtain ⟨e', he', hsize', hvalue'⟩ := ih (exprEliminateYn tab w.1) (by
        have := dupsFuel_lt (show size (exprEliminateYn tab w.1) < size e by
          omega)
        omega)
      refine ⟨e', (if_neg hcount).trans he', by omega, fun v hv hm => ?_⟩
      have hw := hvalue v hv hm
      have hyn := value_eliminateYn (constants_of_calculated hv) w.1
      rw [hvalue' v hv (by rw [hyn, hw]; exact hm), hyn, hw]

/-! ## Runs -/

/-- `BAR=y || BAR=m || FOO` becomes `n || BAR!=n || FOO`. -/
theorem eliminateDups1_value_sixSymbols :
    eliminateDups1 sixSymbols 322 .or [] [] (.two .or
        (.two .or (.comp .equal 5 0) (.comp .equal 5 1)) (.symbol 4), 0)
      = some (.two .or (.two .or (.symbol 2) (.comp .unequal 5 2))
        (.symbol 4), 1) ∧
      ∀ v, Calculated sixSymbols v →
        exprCalcValue sixSymbols v (.two .or
          (.two .or (.symbol 2) (.comp .unequal 5 2)) (.symbol 4))
        = exprCalcValue sixSymbols v (.two .or
          (.two .or (.comp .equal 5 0) (.comp .equal 5 1)) (.symbol 4)) := by
  obtain ⟨e', k', hcall, -, -, hvalue⟩ := eliminateDups1_value sixSymbols .or
    (.two .or (.comp .equal 5 0) (.comp .equal 5 1)) (.symbol 4) 0 322
    (by decide)
  have hjoined : eliminateDups1 sixSymbols 322 .or [] [] (.two .or
      (.two .or (.comp .equal 5 0) (.comp .equal 5 1)) (.symbol 4), 0)
        = some (.two .or (.two .or (.symbol 2) (.comp .unequal 5 2))
          (.symbol 4), 1) := by decide
  obtain ⟨rfl, rfl⟩ := Prod.mk.inj
    (Option.some.inj (hcall.symm.trans hjoined))
  exact ⟨hjoined, hvalue⟩

/-- `(BAR=y || BAR=m) && FOO` becomes `BAR!=n && FOO`. -/
theorem eliminateDups_simplifies_sixSymbols :
    eliminateDups sixSymbols 322 (.two .and
        (.two .or (.comp .equal 5 0) (.comp .equal 5 1)) (.symbol 4))
      = some (.two .and (.comp .unequal 5 2) (.symbol 4)) ∧
      ∀ v, Calculated sixSymbols v →
        exprCalcValue sixSymbols v (.two .and
          (.two .or (.comp .equal 5 0) (.comp .equal 5 1)) (.symbol 4)) ≠ .mod →
        exprCalcValue sixSymbols v
            (.two .and (.comp .unequal 5 2) (.symbol 4))
          = exprCalcValue sixSymbols v (.two .and
            (.two .or (.comp .equal 5 0) (.comp .equal 5 1)) (.symbol 4)) := by
  obtain ⟨e', he, -, hvalue⟩ := eliminateDups_simplifies sixSymbols
    (.two .and (.two .or (.comp .equal 5 0) (.comp .equal 5 1)) (.symbol 4))
    322 (by decide)
  have hjoined : eliminateDups sixSymbols 322 (.two .and
      (.two .or (.comp .equal 5 0) (.comp .equal 5 1)) (.symbol 4))
        = some (.two .and (.comp .unequal 5 2) (.symbol 4)) := by decide
  obtain rfl := Option.some.inj (he.symm.trans hjoined)
  exact ⟨hjoined, hvalue⟩

/-- `y` and `MODULES` are `y`, `m` and `BAR` are `m`, `n` and `FOO` are
    `n`. -/
def barIsModule : Values (Fin 6) where
  tri := ![.yes, .mod, .no, .yes, .no, .mod]
  val := ![ "y", "m", "n", "y", "n", "m"]

/-- **The value** `m` **is lost**: `(FOO || BAR) && (!FOO && !BAR)` becomes
    `n`. -/
theorem eliminateDups_loses_mod :
    Calculated sixSymbols barIsModule ∧
      exprCalcValue sixSymbols barIsModule
        (.two .and (.two .or (.symbol 4) (.symbol 5))
          (.two .and (.one (.symbol 4)) (.one (.symbol 5)))) = .mod ∧
      eliminateDups sixSymbols 322
        (.two .and (.two .or (.symbol 4) (.symbol 5))
          (.two .and (.one (.symbol 4)) (.one (.symbol 5))))
        = some (.symbol 2) := by
  refine ⟨⟨rfl, rfl, rfl, ?_, ?_, ?_⟩, ?_, ?_⟩ <;> decide

end ChinixKconfigRounds

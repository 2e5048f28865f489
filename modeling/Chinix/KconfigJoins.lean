import Chinix.KconfigPlaces

/-! # Joining two operands keeps their value

    Every rule of `expr_join_or` and `expr_join_and` is right for all values
    that the symbols can have: a boolean is never `m`, and the string value of
    a boolean or a tristate is the letter of its value. -/

namespace ChinixKconfigJoins

open ChinixKconfigExpr ChinixKconfigTransform ChinixKconfigEquality
open ChinixKconfigDuplicates ChinixKconfigPlaces

variable {S : Type} {tab : SymbolTable S} {v : Values S}
variable {e1 e2 tmp : Expr S} {s a b c t : S} {type : JunctionType}

/-! ## Comparisons with a constant -/

/-- A comparison of a boolean or a tristate. -/
theorem value_comp (hv : Calculated tab v)
    (hs : tab.type s = .boolean ∨ tab.type s = .tristate)
    (type : CompType) (t : S) :
    exprCalcValue tab v (.comp type s t) =
      if letter (v.tri s) = symGetStringValue tab v t then
        (match type with | .equal => .yes | .unequal => .no)
      else (match type with | .equal => .no | .unequal => .yes) := by
  rw [← string_of_typed hv hs]
  cases type <;> rfl

/-- What a symbol can be compared with in the rules. -/
theorem value_comp_yes (hv : Calculated tab v)
    (hs : tab.type s = .boolean ∨ tab.type s = .tristate) (type : CompType) :
    exprCalcValue tab v (.comp type s tab.symbolYes) =
      match type, v.tri s with
      | .equal, .yes => .yes
      | .equal, _ => .no
      | .unequal, .yes => .no
      | .unequal, _ => .yes := by
  rw [value_comp hv hs, string_yes hv]
  cases type <;> cases v.tri s <;> rfl

theorem value_comp_mod (hv : Calculated tab v)
    (hs : tab.type s = .boolean ∨ tab.type s = .tristate) (type : CompType) :
    exprCalcValue tab v (.comp type s tab.symbolMod) =
      match type, v.tri s with
      | .equal, .mod => .yes
      | .equal, _ => .no
      | .unequal, .mod => .no
      | .unequal, _ => .yes := by
  rw [value_comp hv hs, string_mod hv]
  cases type <;> cases v.tri s <;> rfl

theorem value_comp_no (hv : Calculated tab v)
    (hs : tab.type s = .boolean ∨ tab.type s = .tristate) (type : CompType) :
    exprCalcValue tab v (.comp type s tab.symbolNo) =
      match type, v.tri s with
      | .equal, .no => .yes
      | .equal, _ => .no
      | .unequal, .no => .no
      | .unequal, _ => .yes := by
  rw [value_comp hv hs, string_no hv]
  cases type <;> cases v.tri s <;> rfl

/-- What a rule must give. -/
def Joins (tab : SymbolTable S) (type : JunctionType)
    (e1 e2 tmp : Expr S) : Prop :=
  ∀ v, Calculated tab v → exprCalcValue tab v tmp
    = type.apply (exprCalcValue tab v e1) (exprCalcValue tab v e2)

theorem Joins.symm (h : Joins tab type e1 e2 tmp) :
    Joins tab type e2 e1 tmp := by
  intro v hv
  rw [h v hv, apply_comm]

/-- A boolean or its negation is `y`. -/
theorem joins_notSymbol (hbool : tab.type s = .boolean) :
    Joins tab .or (.symbol s) (.one (.symbol s)) (.symbol tab.symbolYes) := by
  intro v hv
  have hmod := hv.boolean s hbool
  show v.tri tab.symbolYes = (v.tri s).or (v.tri s).not
  rw [hv.yes]
  cases htri : v.tri s with
  | no => rfl
  | mod => exact absurd htri hmod
  | yes => rfl

variable [DecidableEq S]

/-! ## The rules -/

/-- The rules for two inequalities, and for two equalities in a disjunction,
    cover the pairs of different constants. -/
theorem value_joinAndUnequal (hv : Calculated tab v)
    (hs : tab.type s = .tristate) (h : joinAndUnequal tab s a b = some tmp) :
    exprCalcValue tab v tmp = (exprCalcValue tab v (.comp .unequal s a)).and
      (exprCalcValue tab v (.comp .unequal s b)) := by
  have htype : tab.type s = .boolean ∨ tab.type s = .tristate := .inr hs
  rw [joinAndUnequal] at h
  split_ifs at h with h1 h2 h3 <;> cases h
  · obtain ⟨rfl, rfl⟩ | ⟨rfl, rfl⟩ := h1 <;>
      rw [value_comp_yes hv htype, value_comp_no hv htype,
        value_comp_mod hv htype] <;>
      cases v.tri s <;> rfl
  · obtain ⟨rfl, rfl⟩ | ⟨rfl, rfl⟩ := h2 <;>
      rw [value_comp_yes hv htype, value_comp_no hv htype,
        value_comp_mod hv htype] <;>
      cases v.tri s <;> rfl
  · obtain ⟨rfl, rfl⟩ | ⟨rfl, rfl⟩ := h3 <;>
      rw [value_comp_yes hv htype, value_comp_no hv htype,
        value_comp_mod hv htype] <;>
      cases v.tri s <;> rfl

theorem value_joinOrEqual (hv : Calculated tab v)
    (hs : tab.type s = .boolean ∨ tab.type s = .tristate)
    (h : joinOrEqual tab s a b = some tmp) :
    exprCalcValue tab v tmp = (exprCalcValue tab v (.comp .equal s a)).or
      (exprCalcValue tab v (.comp .equal s b)) := by
  rw [joinOrEqual] at h
  split_ifs at h with h1 h2 h3 <;> cases h
  · obtain ⟨rfl, rfl⟩ | ⟨rfl, rfl⟩ := h1 <;>
      rw [value_comp_no hv hs, value_comp_yes hv hs, value_comp_mod hv hs] <;>
      cases v.tri s <;> rfl
  · obtain ⟨rfl, rfl⟩ | ⟨rfl, rfl⟩ := h2 <;>
      rw [value_comp_mod hv hs, value_comp_yes hv hs, value_comp_no hv hs] <;>
      cases v.tri s <;> rfl
  · obtain ⟨rfl, rfl⟩ | ⟨rfl, rfl⟩ := h3 <;>
      rw [value_comp_yes hv hs, value_comp_mod hv hs, value_comp_no hv hs] <;>
      cases v.tri s <;> rfl

/-- The rules for an equality and an inequality. -/
theorem value_joinAndEqual (hv : Calculated tab v)
    (h : joinAndEqual tab s b c = some tmp) :
    exprCalcValue tab v tmp = (exprCalcValue tab v (.comp .equal s b)).and
      (exprCalcValue tab v (.comp .unequal s c)) := by
  rw [joinAndEqual] at h
  split_ifs at h with hconst hbc <;> cases h
  · -- different constants have different names
    have hname : tab.name b ≠ tab.name c := fun he =>
      hbc (tab.constName b c hconst.2 hconst.1 he)
    rw [exprCalcValue, exprCalcValue, string_of_const hv hconst.2,
      string_of_const hv hconst.1]
    by_cases hsb : symGetStringValue tab v s = tab.name b
    · rw [if_pos hsb, hsb, if_neg hname]
      rfl
    · rw [if_neg hsb]
      split_ifs <;> rfl
  · obtain rfl : b = c := not_not.mp hbc
    rw [exprCalcValue, exprCalcValue, exprCalcValue, hv.no]
    split_ifs <;> rfl

/-- The rules for a symbol and a comparison. -/
theorem value_joinAndSymbol (hv : Calculated tab v)
    (hs : tab.type s = .boolean ∨ tab.type s = .tristate) {type : CompType}
    (h : joinAndSymbol tab s type t = some tmp) :
    exprCalcValue tab v tmp = (exprCalcValue tab v (.symbol s)).and
      (exprCalcValue tab v (.comp type s t)) := by
  cases type with
  | equal =>
      simp only [joinAndSymbol] at h
      split_ifs at h with hyes
      cases h
      subst hyes
      rw [value_comp_yes hv hs, exprCalcValue]
      cases v.tri s <;> rfl
  | unequal =>
      simp only [joinAndSymbol] at h
      split_ifs at h with hno hmod <;> cases h
      · subst hno
        rw [value_comp_no hv hs, exprCalcValue]
        cases v.tri s <;> rfl
      · subst hmod
        rw [value_comp_mod hv hs, value_comp_yes hv hs, exprCalcValue]
        cases v.tri s <;> rfl

theorem joins_and (h1 : sym1 e1 = some s) (h2 : sym2 e2 = some s)
    (hs : tab.type s = .boolean ∨ tab.type s = .tristate)
    (h : joinAndRules tab s e1 e2 = some tmp) : Joins tab .and e1 e2 tmp := by
  cases e1 with
  | symbol x =>
      obtain rfl : x = s := Option.some.inj h1
      cases e2 with
      | comp type y t =>
          obtain rfl : y = x := Option.some.inj h2
          exact fun v hv => value_joinAndSymbol hv hs h
      | _ => cases h
  | comp type x a =>
      obtain rfl : x = s := Option.some.inj h1
      cases e2 with
      | symbol y =>
          obtain rfl : y = x := Option.some.inj h2
          have hjoins : Joins tab .and (.symbol y) (.comp type y a) tmp := by
            cases type <;> exact fun v hv => value_joinAndSymbol hv hs h
          exact hjoins.symm
      | comp type' y b =>
          obtain rfl : y = x := Option.some.inj h2
          cases type with
          | equal =>
              cases type' with
              | equal => cases h
              | unequal =>
                  simp only [joinAndRules] at h
                  split_ifs at h
                  exact fun v hv => value_joinAndEqual hv h
          | unequal =>
              cases type' with
              | equal =>
                  simp only [joinAndRules] at h
                  split_ifs at h
                  have hjoins : Joins tab .and (.comp .equal y b)
                      (.comp .unequal y a) tmp :=
                    fun v hv => value_joinAndEqual hv h
                  exact hjoins.symm
              | unequal =>
                  simp only [joinAndRules] at h
                  split_ifs at h with htri
                  exact fun v hv => value_joinAndUnequal hv htri h
      | _ => cases type <;> cases h
  | _ => cases h

theorem joins_or (h1 : sym1 e1 = some s) (h2 : sym2 e2 = some s)
    (hs : tab.type s = .boolean ∨ tab.type s = .tristate)
    (h : joinOrRules tab s e1 e2 = some tmp) : Joins tab .or e1 e2 tmp := by
  cases e1 with
  | comp type x a =>
      obtain rfl : x = s := Option.some.inj h1
      cases e2 with
      | comp type' y b =>
          obtain rfl : y = x := Option.some.inj h2
          cases type <;> cases type' <;> try cases h
          simp only [joinOrRules] at h
          split_ifs at h
          exact fun v hv => value_joinOrEqual hv hs h
      | _ => cases type <;> cases h
  | one x =>
      cases x with
      | symbol x =>
          obtain rfl : x = s := Option.some.inj h1
          cases e2 with
          | symbol y =>
              obtain rfl : y = x := Option.some.inj h2
              simp only [joinOrRules] at h
              split_ifs at h with hbool
              cases h
              have hjoins : Joins tab .or (.symbol y) (.one (.symbol y))
                  (.symbol tab.symbolYes) := joins_notSymbol hbool
              exact hjoins.symm
          | _ => cases h
      | _ => cases e2 <;> cases h
  | symbol x =>
      obtain rfl : x = s := Option.some.inj h1
      cases e2 with
      | one y =>
          cases y with
          | symbol y =>
              obtain rfl : y = x := Option.some.inj h2
              simp only [joinOrRules] at h
              split_ifs at h with hbool
              cases h
              exact joins_notSymbol hbool
          | _ => cases h
      | _ => cases h
  | two _ _ _ => cases h1

/-! ## The functions -/

/-- What the symbols that `commonSym` finds are. -/
theorem commonSym_eq_some (h : commonSym tab e1 e2 = some s) :
    sym1 e1 = some s ∧ sym2 e2 = some s ∧
      (tab.type s = .boolean ∨ tab.type s = .tristate) := by
  rw [commonSym] at h
  cases h1 : sym1 e1 with
  | none =>
      rw [h1] at h
      cases h
  | some x =>
      cases h2 : sym2 e2 with
      | none =>
          rw [h1, h2] at h
          cases h
      | some y =>
          simp only [h1, h2] at h
          split_ifs at h with hcond
          obtain ⟨rfl, htype⟩ := hcond
          cases h
          exact ⟨rfl, rfl, htype⟩

theorem size_joinOrEqual (h : joinOrEqual tab s a b = some tmp) :
    size tmp = 1 := by
  rw [joinOrEqual] at h
  split_ifs at h <;> cases h <;> rfl

theorem size_joinAndUnequal (h : joinAndUnequal tab s a b = some tmp) :
    size tmp = 1 := by
  rw [joinAndUnequal] at h
  split_ifs at h <;> cases h <;> rfl

theorem size_joinAndEqual (h : joinAndEqual tab s b c = some tmp) :
    size tmp = 1 := by
  rw [joinAndEqual] at h
  split_ifs at h <;> cases h <;> rfl

theorem size_joinAndSymbol {type : CompType}
    (h : joinAndSymbol tab s type t = some tmp) : size tmp = 1 := by
  cases type with
  | equal =>
      simp only [joinAndSymbol] at h
      split_ifs at h
      cases h
      rfl
  | unequal =>
      simp only [joinAndSymbol] at h
      split_ifs at h <;> cases h <;> rfl

/-- The rules give single nodes. -/
theorem size_joinRules (h : joinRules tab type s e1 e2 = some tmp) :
    size tmp = 1 := by
  cases type with
  | or =>
      simp only [joinRules, joinOrRules] at h
      split at h
      · split_ifs at h
        exact size_joinOrEqual h
      · split_ifs at h
        cases h
        rfl
      · split_ifs at h
        cases h
        rfl
      · cases h
  | and =>
      simp only [joinRules, joinAndRules] at h
      split at h
      · exact size_joinAndSymbol h
      · exact size_joinAndSymbol h
      · split_ifs at h
        exact size_joinAndEqual h
      · split_ifs at h
        exact size_joinAndEqual h
      · split_ifs at h
        exact size_joinAndUnequal h
      · cases h

/-- **`expr_join_or` and `expr_join_and`** return an expression with the value
    of the two operands together; it is the first operand, or a single
    node. -/
theorem exprJoin_joins {fuel : Nat}
    (h : exprJoin tab fuel type e1 e2 = some (some tmp)) :
    Joins tab type e1 e2 tmp ∧ (tmp = e1 ∨ size tmp = 1) := by
  obtain ⟨eq, heq, h⟩ := Option.map_eq_some_iff.mp h
  cases eq with
  | true =>
      obtain rfl := Option.some.inj h
      refine ⟨fun v hv => ?_, .inl rfl⟩
      rw [← (sound tab fuel).2 heq v (constants_of_calculated hv), apply_self]
  | false =>
      obtain ⟨s, hs, hrule⟩ := Option.bind_eq_some_iff.mp h
      obtain ⟨h1, h2, htype⟩ := commonSym_eq_some hs
      refine ⟨?_, .inr (size_joinRules hrule)⟩
      cases type with
      | or => exact joins_or h1 h2 htype hrule
      | and => exact joins_and h1 h2 htype hrule

end ChinixKconfigJoins

import Chinix.KconfigDuplicates
import Chinix.KconfigEquality

/-! # Places in a junction

    The operands of nested junctions of one type are at the ends of a spine.
    A write to one of them leaves the spine and the other operands alone, and
    changes the value of the whole as it changes the operand. -/

namespace ChinixKconfigPlaces

open ChinixKconfigExpr ChinixKconfigTransform ChinixKconfigEquality
open ChinixKconfigDuplicates

variable {S : Type} {e x y : Expr S} {p q : Path} {type : JunctionType}

/-! ## Reading and writing -/

theorem at?_cons {s : Side} (h : at? e (s :: p) = some x) :
    ∃ t l r, e = .two t l r ∧ at? (s.pick l r) p = some x := by
  cases e with
  | two t l r => exact ⟨t, l, r, rfl, h⟩
  | _ => cases h

theorem at?_put_self (h : at? e p = some y) (x : Expr S) :
    at? (put e p x) p = some x := by
  induction p generalizing e with
  | nil => rfl
  | cons s p ih =>
      obtain ⟨t, l, r, rfl, h⟩ := at?_cons h
      cases s with
      | left => exact ih h
      | right => exact ih h

theorem put_at? (h : at? e p = some x) : put e p x = e := by
  induction p generalizing e with
  | nil => exact (Option.some.inj h).symm
  | cons s p ih =>
      obtain ⟨t, l, r, rfl, h⟩ := at?_cons h
      cases s with
      | left => exact congrArg (Expr.two t · r) (ih h)
      | right => exact congrArg (Expr.two t l ·) (ih h)

/-- Neither place is inside the other. -/
def Apart (p q : Path) : Prop := ¬ p <+: q ∧ ¬ q <+: p

theorem Apart.symm (h : Apart p q) : Apart q p := ⟨h.2, h.1⟩

theorem apart_cons {s : Side} : Apart (s :: p) (s :: q) ↔ Apart p q := by
  simp [Apart, List.cons_prefix_cons]

/-- A write to a place apart. -/
theorem at?_put_of_apart (h : Apart p q) (e x : Expr S) :
    at? (put e p x) q = at? e q := by
  induction p generalizing e q with
  | nil => exact absurd List.nil_prefix h.1
  | cons s p ih =>
      cases q with
      | nil => exact absurd List.nil_prefix h.2
      | cons s' q =>
          cases e with
          | two t l r =>
              cases s <;> cases s' <;>
                first | exact ih (apart_cons.mp h) _ | rfl
          | _ => rfl

/-- Writes to places apart, in either order. -/
theorem put_put_of_apart (h : Apart p q) (e x y : Expr S) :
    put (put e p x) q y = put (put e q y) p x := by
  induction p generalizing e q with
  | nil => exact absurd List.nil_prefix h.1
  | cons s p ih =>
      cases q with
      | nil => exact absurd List.nil_prefix h.2
      | cons s' q =>
          cases e with
          | two t l r =>
              cases s <;> cases s' <;>
                first
                  | exact congrArg (Expr.two t · r) (ih (apart_cons.mp h) _)
                  | exact congrArg (Expr.two t l ·) (ih (apart_cons.mp h) _)
                  | rfl
          | _ => rfl

/-! ## The spine -/

/-- The way to the place leads through junctions of the type only. -/
def Spine (type : JunctionType) : Expr S → Path → Prop
  | _, [] => True
  | e, s :: p =>
      match e with
      | .two t l r => t = type ∧ Spine type (s.pick l r) p
      | _ => False
termination_by structural _ p => p

/-- An end of the spine: something else than a junction of the type. -/
def Leaf (type : JunctionType) (e : Expr S) (p : Path) : Prop :=
  Spine type e p ∧ ∃ x, at? e p = some x ∧ x.junction ≠ some type

theorem spine_nil (type : JunctionType) (e : Expr S) : Spine type e [] :=
  trivial

theorem Spine.of_cons {s : Side} (h : Spine type e (s :: p)) :
    ∃ l r, e = .two type l r ∧ Spine type (s.pick l r) p := by
  cases e with
  | two t l r =>
      obtain ⟨rfl, hp⟩ := h
      exact ⟨l, r, rfl, hp⟩
  | _ => exact h.elim

theorem Spine.exists_at? (h : Spine type e p) : ∃ x, at? e p = some x := by
  induction p generalizing e with
  | nil => exact ⟨e, rfl⟩
  | cons s p ih =>
      obtain ⟨l, r, rfl, hp⟩ := h.of_cons
      exact ih hp

/-- The spine goes on through a junction of the type. -/
theorem Spine.snoc (h : Spine type e p) (hx : at? e p = some x)
    (hj : x.junction = some type) (s : Side) : Spine type e (p ++ [s]) := by
  induction p generalizing e with
  | nil =>
      obtain ⟨l, r, rfl⟩ := junction_eq_some.mp hj
      have he : e = .two type l r := Option.some.inj hx
      rw [he]
      cases s with
      | left => exact ⟨rfl, spine_nil type l⟩
      | right => exact ⟨rfl, spine_nil type r⟩
  | cons s' p ih =>
      obtain ⟨l, r, rfl, hp⟩ := h.of_cons
      exact ⟨rfl, ih hp hx⟩

/-- Nothing of the spine is behind an end. -/
theorem Leaf.eq_of_behind (h : Leaf type e p) (hq : Spine type e q)
    (hpq : p <+: q) : q = p := by
  induction p generalizing e q with
  | nil =>
      obtain ⟨-, x, hx, hj⟩ := h
      have he : e = x := Option.some.inj hx
      subst he
      cases q with
      | nil => rfl
      | cons s q =>
          obtain ⟨l, r, rfl, -⟩ := hq.of_cons
          exact absurd rfl hj
  | cons s p ih =>
      obtain ⟨q, rfl⟩ := hpq
      obtain ⟨l, r, rfl, hp⟩ := h.1.of_cons
      exact congrArg _ (ih ⟨hp, h.2⟩ hq.2 (List.prefix_append p q))

/-- Two ends are apart. -/
theorem Leaf.apart (hp : Leaf type e p) (hq : Leaf type e q) (hne : p ≠ q) :
    Apart p q :=
  ⟨fun h => hne (hp.eq_of_behind hq.1 h).symm,
    fun h => hne (hq.eq_of_behind hp.1 h)⟩

/-- A write to an end leaves the spine as it is. -/
theorem Leaf.spine_put (hp : Leaf type e p) (hq : Spine type e q)
    (x : Expr S) : Spine type (put e p x) q := by
  induction p generalizing e q with
  | nil =>
      obtain rfl := hp.eq_of_behind hq List.nil_prefix
      exact spine_nil type _
  | cons s p ih =>
      cases q with
      | nil => exact spine_nil type _
      | cons s' q =>
          obtain ⟨l, r, rfl, hq'⟩ := hq.of_cons
          cases s <;> cases s' <;>
            first | exact ⟨rfl, ih ⟨hp.1.2, hp.2⟩ hq'⟩ | exact hq

/-- It leaves the other ends as they are, and what is written there is an end
    unless it is a junction of the type. -/
theorem Leaf.leaf_put (hp : Leaf type e p) (hq : Leaf type e q)
    (hx : x.junction ≠ some type) : Leaf type (put e p x) q := by
  refine ⟨hp.spine_put hq.1 x, ?_⟩
  by_cases hpq : p = q
  · subst hpq
    obtain ⟨-, y, hy, -⟩ := hp
    exact ⟨x, at?_put_self hy x, hx⟩
  · rw [at?_put_of_apart (hp.apart hq hpq)]
    exact hq.2

/-- The ends that a rewriting leaves. -/
structure KeepsSpine (type : JunctionType) (e e' : Expr S) : Prop where
  spine : ∀ p, Spine type e p → Spine type e' p
  leaf : ∀ p, Leaf type e p → Leaf type e' p

theorem KeepsSpine.refl (type : JunctionType) (e : Expr S) :
    KeepsSpine type e e := ⟨fun _ h => h, fun _ h => h⟩

theorem KeepsSpine.trans {e e' e'' : Expr S} (h : KeepsSpine type e e')
    (h' : KeepsSpine type e' e'') : KeepsSpine type e e'' :=
  ⟨fun p hp => h'.spine p (h.spine p hp), fun p hp => h'.leaf p (h.leaf p hp)⟩

theorem Leaf.keepsSpine_put (hp : Leaf type e p)
    (hx : x.junction ≠ some type) : KeepsSpine type e (put e p x) :=
  ⟨fun _ hq => hp.spine_put hq x, fun _ hq => hp.leaf_put hq hx⟩

/-- A junction of the type stays one. -/
theorem KeepsSpine.junction {e' : Expr S} (h : KeepsSpine type e e')
    (he : e.junction = some type) : e'.junction = some type := by
  obtain ⟨l, r, rfl⟩ := junction_eq_some.mp he
  have hspine := h.spine [.left] ⟨rfl, spine_nil type l⟩
  obtain ⟨l', r', rfl, -⟩ := hspine.of_cons
  rfl

/-! ## Values -/

variable {tab : SymbolTable S} {v : Values S}

/-- **A junction is its operand and the rest.** -/
theorem value_put (h : Spine type e p) (hv : Constants tab v) (x : Expr S) :
    exprCalcValue tab v (put e p x)
      = type.apply (exprCalcValue tab v x)
        (exprCalcValue tab v (put e p (.symbol (unit tab type)))) := by
  induction p generalizing e with
  | nil =>
      show exprCalcValue tab v x = type.apply _ (v.tri (unit tab type))
      rw [apply_comm]
      exact (apply_unit hv type _).symm
  | cons s p ih =>
      obtain ⟨l, r, rfl, hp⟩ := h.of_cons
      cases s with
      | left =>
          have hl := ih (e := l) hp
          simp only [put, exprCalcValue]
          rw [hl, apply_assoc]
      | right =>
          have hr := ih (e := r) hp
          simp only [put, exprCalcValue]
          rw [hr, ← apply_assoc, apply_comm type (exprCalcValue tab v l),
            apply_assoc]

theorem value_at? (h : Spine type e p) (hx : at? e p = some x)
    (hv : Constants tab v) :
    exprCalcValue tab v e = type.apply (exprCalcValue tab v x)
      (exprCalcValue tab v (put e p (.symbol (unit tab type)))) := by
  rw [← value_put h hv x, put_at? hx]

/-! ## Sizes -/

theorem size_put (h : at? e p = some x) (y : Expr S) :
    size (put e p y) + size x = size e + size y := by
  induction p generalizing e with
  | nil =>
      have he : e = x := Option.some.inj h
      subst he
      exact Nat.add_comm _ _
  | cons s p ih =>
      obtain ⟨t, l, r, rfl, h⟩ := at?_cons h
      cases s with
      | left =>
          have := ih (e := l) h
          simp only [put, size]
          omega
      | right =>
          have := ih (e := r) h
          simp only [put, size]
          omega

/-- A place is not deeper than the tree is large. -/
theorem length_add_size_le (h : at? e p = some x) :
    p.length + size x ≤ size e := by
  induction p generalizing e with
  | nil =>
      have he : e = x := Option.some.inj h
      rw [he]
      exact Nat.le_of_eq (Nat.zero_add _)
  | cons s p ih =>
      obtain ⟨t, l, r, rfl, h⟩ := at?_cons h
      have := size_pos l
      have := size_pos r
      cases s with
      | left =>
          have := ih (e := l) h
          simp only [List.length_cons, size]
          omega
      | right =>
          have := ih (e := r) h
          simp only [List.length_cons, size]
          omega

end ChinixKconfigPlaces

import Mathlib.Data.List.Rotate

/-! # Choices in a cyclic order

    Choices that go round a sequence: the first of the sequence is chosen and
    moves behind the others.  After a choice the sequence is rotated by one,
    and as many consecutive choices as it is long make up the sequence. -/

namespace CyclicOrder

variable {A : Type} {order sel : List A} {x : A}

/-- The choices `sel` go round `order`, from its first element on. -/
def Cycles (order sel : List A) : Prop :=
  ∀ i, i < sel.length → sel[i]? = order[i % order.length]?

theorem Cycles.nil (order : List A) : Cycles order [] :=
  fun _ hi => absurd hi (Nat.not_lt_zero _)

/-- The next choice is the first of the rotated sequence. -/
theorem Cycles.concat (h : Cycles order sel)
    (hx : (order.rotate sel.length).head? = some x) :
    Cycles order (sel ++ [x]) := by
  intro i hi
  rw [List.length_append, List.length_singleton] at hi
  rcases Nat.lt_succ_iff_lt_or_eq.mp hi with hlt | rfl
  · rw [List.getElem?_append_left hlt]
    exact h i hlt
  · have hne : order ≠ [] := by
      rintro rfl
      simp at hx
    have hmod := Nat.mod_lt sel.length (List.length_pos_of_ne_nil hne)
    rw [← List.rotate_mod, List.head?_rotate hmod] at hx
    rw [List.getElem?_concat_length, hx]

/-- **Each once**: consecutive choices, as many as the sequence is long, are
    the sequence read from one of its elements on. -/
theorem Cycles.window (h : Cycles order sel) {i : Nat}
    (hi : i + order.length ≤ sel.length) :
    (sel.drop i).take order.length = order.rotate i := by
  refine List.ext_getElem? fun j => ?_
  by_cases hj : j < order.length
  · rw [List.getElem?_take_of_lt hj, List.getElem?_drop, h (i + j) (by omega),
      List.getElem?_rotate hj, Nat.add_comm]
  · have hle := Nat.le_of_not_lt hj
    rw [List.getElem?_eq_none, List.getElem?_eq_none]
    · rw [List.length_rotate]
      exact hle
    · rw [List.length_take]
      exact Nat.le_trans (Nat.min_le_left _ _) hle

theorem Cycles.window_perm (h : Cycles order sel) {i : Nat}
    (hi : i + order.length ≤ sel.length) :
    ((sel.drop i).take order.length).Perm order := by
  rw [h.window hi]
  exact List.rotate_perm order i

end CyclicOrder

import Mathlib.Data.List.Basic

/-! # First in, first out

    A queue that is fed at its end and served at its front.  What was served,
    followed by what is left, is what was there followed by what arrived: a
    law that composes over time and needs no record of the arrivals.  From it
    each element knows when it is served: after those that were ahead of it,
    and no other. -/

namespace FifoQueue

variable {A : Type} {q q' q'' served served' : List A}

/-- While `served` left the queue at its front, `q` became `q'`. -/
def Serves (q served q' : List A) : Prop :=
  ∃ arrived, q ++ arrived = served ++ q'

theorem Serves.refl (q : List A) : Serves q [] q :=
  ⟨[], by rw [List.append_nil, List.nil_append]⟩

/-- An arrival. -/
theorem Serves.grow (h : Serves q served q') (arrived : List A) :
    Serves q served (q' ++ arrived) := by
  obtain ⟨before, heq⟩ := h
  exact ⟨before ++ arrived, by rw [← List.append_assoc, heq,
    List.append_assoc]⟩

/-- The front of the queue is served. -/
theorem Serves.head {x : A} (h : Serves q served (x :: q')) :
    Serves q (served ++ [x]) q' := by
  obtain ⟨arrived, heq⟩ := h
  exact ⟨arrived, by rw [heq, List.append_assoc, List.singleton_append]⟩

theorem Serves.trans (h : Serves q served q') (h' : Serves q' served' q'') :
    Serves q (served ++ served') q'' := by
  obtain ⟨arrived, heq⟩ := h
  obtain ⟨arrived', heq'⟩ := h'
  refine ⟨arrived ++ arrived', ?_⟩
  rw [← List.append_assoc, heq, List.append_assoc, heq', List.append_assoc]

/-- **The turn of an element**: with `i` others ahead of it, it is served
    after `i` others, and till then it waits behind those that are left. -/
theorem Serves.turn (h : Serves q served q') {i : Nat} {x : A}
    (hx : q[i]? = some x) :
    if i < served.length then served[i]? = some x
    else q'[i - served.length]? = some x := by
  obtain ⟨arrived, heq⟩ := h
  have hi : i < q.length := (List.getElem?_eq_some_iff.mp hx).1
  have hwhole : (served ++ q')[i]? = some x := by
    rw [← heq, List.getElem?_append_left hi, hx]
  by_cases hlt : i < served.length
  · rw [if_pos hlt]
    rwa [List.getElem?_append_left hlt] at hwhole
  · rw [if_neg hlt]
    rwa [List.getElem?_append_right (Nat.not_lt.mp hlt)] at hwhole

end FifoQueue

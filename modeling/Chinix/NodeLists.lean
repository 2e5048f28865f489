import Mathlib.Logic.Function.Basic
import Mathlib.Data.List.Nodup

/-! # Families of intrusive lists

    A node of an intrusive list carries its own link, so it is on at most one
    list of the family at a time and it knows which.  `NodeLists H N` is such
    a family seen from outside: for each head the sequence of its nodes, and
    for each node the head it is linked under.  The two views agree and no
    list repeats a node; both facts are fields, so a family that breaks them
    cannot be built. -/

variable {H N : Type}

/-- The lists under the heads `H` over the nodes `N`. -/
structure NodeLists (H N : Type) where
  items : H → List N
  link : N → Option H
  mem_items : ∀ h x, x ∈ items h ↔ link x = some h
  nodup : ∀ h, (items h).Nodup

namespace NodeLists

/-- No list has a node. -/
def empty : NodeLists H N where
  items := fun _ => []
  link := fun _ => none
  mem_items := by simp
  nodup := by simp

@[simp] theorem items_empty (h : H) :
    (empty : NodeLists H N).items h = [] := rfl

@[simp] theorem link_empty (x : N) :
    (empty : NodeLists H N).link x = none := rfl

/-- A node is on one list at most. -/
theorem head_unique (L : NodeLists H N) {h h' : H} {x : N}
    (hx : x ∈ L.items h) (hx' : x ∈ L.items h') : h = h' := by
  rw [L.mem_items] at hx hx'
  exact Option.some.inj (hx.symm.trans hx')

/-- A list is empty exactly when no node is linked under its head. -/
theorem items_eq_nil_iff (L : NodeLists H N) (h : H) :
    L.items h = [] ↔ ∀ x, L.link x ≠ some h := by
  constructor
  · intro hnil x hx
    rw [← L.mem_items, hnil] at hx
    cases hx
  · intro hno
    refine List.eq_nil_iff_forall_not_mem.mpr ?_
    intro x hx
    exact hno x ((L.mem_items h x).mp hx)

/-- The first node of a list is linked under its head. -/
theorem link_of_items_cons (L : NodeLists H N) {h : H} {x : N} {xs : List N}
    (hcons : L.items h = x :: xs) : L.link x = some h := by
  rw [← L.mem_items, hcons]
  exact List.mem_cons_self

/-- Two families with the same lists and the same links are one. -/
theorem ext_of_items {L L' : NodeLists H N} (hi : L.items = L'.items)
    (hl : L.link = L'.link) : L = L' := by
  cases L
  cases L'
  cases hi
  cases hl
  rfl

variable [DecidableEq N]

/-- Take a node off the list it is on. -/
def delete (L : NodeLists H N) (x : N) : NodeLists H N where
  items := fun h => (L.items h).erase x
  link := Function.update L.link x none
  mem_items := by
    intro h y
    rw [(L.nodup h).mem_erase_iff]
    by_cases hy : y = x
    · subst hy; simp
    · simp [hy, L.mem_items]
  nodup := fun h => (L.nodup h).erase x

@[simp] theorem link_delete (L : NodeLists H N) (x : N) :
    (L.delete x).link = Function.update L.link x none := rfl

theorem items_delete (L : NodeLists H N) (x : N) (h : H) :
    (L.delete x).items h = (L.items h).erase x := rfl

/-- Deleting a node leaves every list it is not on as it was. -/
theorem items_delete_of_ne (L : NodeLists H N) {x : N} {h : H}
    (hx : L.link x ≠ some h) : (L.delete x).items h = L.items h := by
  rw [items_delete]
  refine List.erase_of_not_mem ?_
  rw [L.mem_items]
  exact hx

/-- Deleting the first node of a list leaves the rest of it. -/
theorem items_delete_head (L : NodeLists H N) {x : N} {h : H} {xs : List N}
    (hcons : L.items h = x :: xs) : (L.delete x).items h = xs := by
  rw [items_delete, hcons, List.erase_cons_head]

/-- Deleting a node shortens the list it was on by one. -/
theorem length_items_delete (L : NodeLists H N) {x : N} {h : H}
    (hx : L.link x = some h) :
    ((L.delete x).items h).length + 1 = (L.items h).length := by
  have hmem : x ∈ L.items h := (L.mem_items h x).mpr hx
  rw [items_delete, List.length_erase_of_mem hmem]
  have := List.length_pos_of_mem hmem
  omega

variable [DecidableEq H]

/-- Link an unlinked node in at the tail of a list; a node that is linked
    already is left where it is. -/
def addTail (L : NodeLists H N) (h : H) (x : N) : NodeLists H N :=
  if hx : L.link x = none then
    { items := Function.update L.items h (L.items h ++ [x])
      link := Function.update L.link x (some h)
      mem_items := by
        intro h' y
        by_cases hh : h' = h
        · subst hh
          by_cases hy : y = x
          · subst hy; simp
          · simp [hy, L.mem_items]
        · by_cases hy : y = x
          · subst hy
            simp [hh, L.mem_items, hx, Ne.symm hh]
          · simp [hh, hy, L.mem_items]
      nodup := by
        intro h'
        by_cases hh : h' = h
        · subst hh
          have hnot : x ∉ L.items h' := by
            rw [L.mem_items, hx]; simp
          rw [Function.update_self]
          exact List.Nodup.append (L.nodup h') (List.nodup_singleton x)
            (List.disjoint_singleton.mpr hnot)
        · rw [Function.update_of_ne hh]
          exact L.nodup h' }
  else L

theorem link_addTail (L : NodeLists H N) (h : H) (x : N)
    (hx : L.link x = none) :
    (L.addTail h x).link = Function.update L.link x (some h) := by
  rw [addTail, dif_pos hx]

theorem items_addTail (L : NodeLists H N) (h : H) (x : N)
    (hx : L.link x = none) :
    (L.addTail h x).items
      = Function.update L.items h (L.items h ++ [x]) := by
  rw [addTail, dif_pos hx]

/-- Linking one node in and taking another off can be done in either order. -/
theorem addTail_delete (L : NodeLists H N) (h : H) {x y : N} (hxy : x ≠ y)
    (hy : L.link y = none) :
    (L.delete x).addTail h y = (L.addTail h y).delete x := by
  have hy' : (L.delete x).link y = none := by
    simpa [Ne.symm hxy] using hy
  refine ext_of_items ?_ ?_
  · rw [items_addTail _ _ _ hy']
    funext h'
    rw [items_delete (L.addTail h y), items_addTail _ _ _ hy]
    by_cases hh : h' = h
    · subst hh
      rw [Function.update_self, Function.update_self, items_delete]
      by_cases hx : x ∈ L.items h'
      · rw [List.erase_append_left _ hx]
      · have hnot : x ∉ [y] := by simpa using hxy
        rw [List.erase_append_right _ hx, List.erase_of_not_mem hx,
          List.erase_of_not_mem hnot]
    · rw [Function.update_of_ne hh, Function.update_of_ne hh, items_delete]
  · rw [link_addTail _ _ _ hy', link_delete, link_delete,
      link_addTail _ _ _ hy]
    exact Function.update_comm hxy _ _ _

end NodeLists

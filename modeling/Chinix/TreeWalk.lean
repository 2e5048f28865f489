import Mathlib.Data.List.Basic

/-! # Walking over a tree

    The nodes of a forest as a C program links them: each has a list of
    children and a next sibling.  A loop goes from a node to its first child,
    else to its next sibling, else to the next sibling of the nearest ancestor
    that has one.  It meets the nodes in document order, a node before its
    children, each of them once, and it ends. -/

namespace TreeWalk

variable {N X : Type}

/-- A node with those that follow it: `null`, or a node, its children and its
    next siblings. -/
inductive Siblings (N : Type) where
  | null
  | node (n : N) (list next : Siblings N)
  deriving Repr

namespace Siblings

/-- The nodes in document order. -/
def nodes : Siblings N → List N
  | null => []
  | node n list next => n :: (nodes list ++ nodes next)

theorem node_ne_null {n : N} {list next : Siblings N} :
    node n list next ≠ null := by
  intro h
  cases h

/-- The number of nodes. -/
def size : Siblings N → Nat
  | null => 0
  | node _ list next => size list + size next + 1

end Siblings

open Siblings

/-- The nearest ancestor with a next sibling: that sibling and the next
    siblings of its ancestors.  `up` are those of the ancestors of a node,
    its parent first. -/
def climb : List (Siblings N) → Option (Siblings N × List (Siblings N))
  | [] => none
  | .null :: up => climb up
  | .node n list next :: up => some (.node n list next, up)

/-- Where the loop goes from a node with those children and next siblings. -/
def advance (list next : Siblings N) (up : List (Siblings N)) :
    Option (Siblings N × List (Siblings N)) :=
  match list with
  | .node n l k => some (.node n l k, next :: up)
  | .null => climb (next :: up)

/-- The loop, from a node on, with `body` for each node that it meets; the
    first argument bounds its rounds. -/
def walk (body : N → X → X) :
    Nat → Siblings N → List (Siblings N) → X → Option X
  | _, .null, _, x => some x
  | 0, .node _ _ _, _, _ => none
  | fuel + 1, .node n list next, up, x =>
      match advance list next up with
      | none => some (body n x)
      | some (s, up') => walk body fuel s up' (body n x)

/-- The nodes that are left for the loop. -/
def rest (menu : Siblings N) (up : List (Siblings N)) : List N :=
  nodes menu ++ up.flatMap nodes

theorem climb_eq_none {up : List (Siblings N)} (h : climb up = none) :
    up.flatMap nodes = [] := by
  induction up with
  | nil => rfl
  | cons s up ih =>
      cases s with
      | null => exact ih h
      | node n list next => cases h

theorem climb_eq_some {up up' : List (Siblings N)} {s : Siblings N}
    (h : climb up = some (s, up')) :
    s ≠ .null ∧ rest s up' = up.flatMap nodes := by
  induction up with
  | nil => cases h
  | cons t up ih =>
      cases t with
      | null => exact ih h
      | node n list next =>
          cases h
          exact ⟨node_ne_null, rfl⟩

theorem advance_eq_none {list next : Siblings N} {up : List (Siblings N)}
    (h : advance list next up = none) : nodes list ++ rest next up = [] := by
  cases list with
  | null => exact climb_eq_none h
  | node n l k => cases h

theorem advance_eq_some {list next s : Siblings N}
    {up up' : List (Siblings N)} (h : advance list next up = some (s, up')) :
    s ≠ .null ∧ rest s up' = nodes list ++ rest next up := by
  cases list with
  | null => exact climb_eq_some h
  | node n l k =>
      cases h
      exact ⟨node_ne_null, rfl⟩

theorem rest_node (n : N) (list next : Siblings N) (up : List (Siblings N)) :
    rest (.node n list next) up = n :: (nodes list ++ rest next up) := by
  simp [rest, nodes]

/-- The loop meets what is left for it in this order, and ends. -/
theorem walk_rest (body : N → X → X) {fuel : Nat} {s : Siblings N}
    {up : List (Siblings N)} (hs : s ≠ .null) (x : X)
    (h : (rest s up).length ≤ fuel) :
    walk body fuel s up x =
      some ((rest s up).foldl (fun x n => body n x) x) := by
  induction fuel generalizing s up x with
  | zero =>
      cases s with
      | null => exact absurd rfl hs
      | node n list next => simp [rest_node] at h
  | succ fuel ih =>
      cases s with
      | null => exact absurd rfl hs
      | node n list next =>
          rw [rest_node] at h ⊢
          rw [walk, List.foldl_cons]
          cases hadv : advance list next up with
          | none => rw [advance_eq_none hadv]; rfl
          | some p =>
              obtain ⟨s', up'⟩ := p
              obtain ⟨hs', hrest⟩ := advance_eq_some hadv
              rw [← hrest] at h ⊢
              exact ih hs' _ (Nat.le_of_succ_le_succ h)

theorem length_nodes (s : Siblings N) : (nodes s).length = size s := by
  induction s with
  | null => rfl
  | node n list next ihl ihn =>
      simp only [nodes, size, List.length_cons, List.length_append, ihl, ihn]

/-- **The loop** from the first node of a forest meets all the nodes in
    document order, each of them once, and ends. -/
theorem walk_eq (body : N → X → X) {fuel : Nat} (s : Siblings N) (x : X)
    (h : size s ≤ fuel) :
    walk body fuel s [] x =
      some ((nodes s).foldl (fun x n => body n x) x) := by
  cases s with
  | null => cases fuel <;> rfl
  | node n list next =>
      have hrest : rest (.node n list next) [] = nodes (.node n list next) :=
        List.append_nil _
      rw [← hrest]
      refine walk_rest body node_ne_null x ?_
      rwa [hrest, length_nodes]

end TreeWalk

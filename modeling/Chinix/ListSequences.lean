import Chinix.CircularList

/-! # Circular lists as sequences (include/list.h)

    Read from its head on, a ring is a finite sequence of distinct nodes.  The
    other functions of list.h, and what all of them do to that sequence: the
    node that a function adds, removes or returns, the order of the others,
    and that the nodes of other lists keep their pointers.  A ring has no
    first node of its own, so that inserting before an element is appending to
    the ring read from that element on. -/

namespace ChinixListSequences

open ChinixCircularList

variable {A : Type}

section Functions

variable [DecidableEq A]

/-! ## The functions of list.h

    `none` is the use of a NULL pointer, and `some none` the result NULL. -/

/-- `list_initialize`. -/
def listInitialize (list : A) (m : Memory A) : Memory A :=
  setPrev (setNext m list (some list)) list (some list)

/-- `list_add_before`, the macro: `list_add_tail` with an element for the
    head. -/
def listAddBefore (element node : A) (m : Memory A) : Option (Memory A) :=
  listAddTail element node m

/-- `list_remove_tail`. -/
def listRemoveTail (head : A) (m : Memory A) :
    Option (Option A × Memory A) := do
  let node ← (m head).prev
  if node ≠ head then
    let m ← listDelete node m
    return (some node, m)
  else return (none, m)

/-- `list_peek_head`. -/
def listPeekHead (head : A) (m : Memory A) : Option (Option A) := do
  let node ← (m head).next
  if node ≠ head then return some node else return none

/-- `list_peek_tail`. -/
def listPeekTail (head : A) (m : Memory A) : Option (Option A) := do
  let node ← (m head).prev
  if node ≠ head then return some node else return none

/-- The loop of `list_length`, `list_foreach` from `node` on, with a bound on
    the number of nodes that it looks at. -/
def listLengthLoop (head : A) (m : Memory A) : Nat → A → Nat → Option Nat
  | 0, _, _ => none
  | fuel + 1, node, cnt =>
      if node ≠ head then do
        let next ← (m node).next
        listLengthLoop head m fuel next (cnt + 1)
      else some cnt

/-- `list_length`. -/
def listLength (fuel : Nat) (head : A) (m : Memory A) : Option Nat := do
  let node ← (m head).next
  listLengthLoop head m fuel node 0

end Functions

/-! ## A ring from another of its nodes on -/

variable {m m' : Memory A} {head x y : A} {xs ys zs : List A}

/-- **Rotation.**  A ring begins at each of its nodes. -/
theorem ring_rotate (h : Ring m head (ys ++ y :: zs)) :
    Ring m y (zs ++ head :: ys) := by
  refine ⟨?_, ?_⟩
  · have hchain := h.chain
    rw [List.append_assoc, List.cons_append, ← List.cons_append,
      List.isChain_split] at hchain
    rw [List.append_assoc, List.cons_append, ← List.cons_append,
      List.isChain_split]
    exact ⟨hchain.2, hchain.1⟩
  · have hperm : (y :: (zs ++ head :: ys)).Perm (head :: (ys ++ y :: zs)) := by
      rw [← List.cons_append, ← List.cons_append]
      exact List.perm_append_comm
    exact hperm.nodup_iff.mpr h.nodup

/-- The first node is what `head->next` points at. -/
theorem ring_next (h : Ring m head xs) :
    (m head).next = some (xs.head?.getD head) := by
  cases xs with
  | nil => exact (List.isChain_cons_cons.mp h.chain).1.1
  | cons x xs => exact (List.isChain_cons_cons.mp h.chain).1.1

/-- What the node before a place on the ring points at. -/
theorem ring_next_of (h : Ring m head (ys ++ zs)) {as : List A} {z : A}
    (hlast : head :: ys = as ++ [z]) :
    (m z).next = some (zs.head?.getD head) := by
  have hchain := h.chain
  rw [List.append_assoc, ← List.cons_append, hlast, List.append_assoc]
    at hchain
  cases zs with
  | nil => exact (List.isChain_append_cons_cons.mp hchain).2.1.1
  | cons w ws => exact (List.isChain_append_cons_cons.mp hchain).2.1.1

/-- The last one is what `head->prev` points at. -/
theorem ring_prev (h : Ring m head xs) :
    (m head).prev = some (xs.getLast?.getD head) := by
  obtain rfl | ⟨ys, z, rfl⟩ := xs.eq_nil_or_concat'
  · have hlast : [head] = [] ++ [head] := rfl
    exact h.prev_head hlast
  · have hlast : head :: (ys ++ [z]) = (head :: ys) ++ [z] := rfl
    rw [List.getLast?_concat]
    exact h.prev_head hlast

/-- The head is none of its nodes. -/
theorem ring_ne_head (h : Ring m head xs) (hx : x ∈ xs) : x ≠ head := by
  rintro rfl
  exact (List.nodup_cons.mp h.nodup).1 hx

/-- A node occurs once on its ring, and its head is another one. -/
theorem ring_apart (h : Ring m head (ys ++ x :: zs)) :
    x ∉ head :: ys ∧ x ∉ zs := by
  have hnodup := h.nodup
  rw [← List.cons_append, List.nodup_append] at hnodup
  refine ⟨fun hmem => hnodup.2.2 x hmem x List.mem_cons_self rfl, ?_⟩
  exact (List.nodup_cons.mp hnodup.2.1).1

/-- A node on a ring has neighbours. -/
theorem ring_inList (h : Ring m head xs) (hx : x ∈ xs) :
    listInList x m = true := by
  obtain ⟨ys, zs, rfl⟩ := List.append_of_mem hx
  have hnext := ring_next (ring_rotate h)
  simp [listInList, hnext]

/-! ## The functions on the sequence -/

/-- Only `own` was written, and the lists of other nodes are as they were. -/
structure OthersKept (own : List A) (m m' : Memory A) : Prop where
  node : ∀ a, a ∉ own → m' a = m a
  ring : ∀ head' xs', Ring m head' xs' → (head' :: xs').Disjoint own →
    Ring m' head' xs'

theorem othersKept_of_node {own : List A} (h : ∀ a, a ∉ own → m' a = m a) :
    OthersKept own m m' :=
  ⟨h, fun _ _ hring hdisj => hring.congr fun a ha => h a (hdisj ha)⟩

theorem OthersKept.refl (own : List A) (m : Memory A) : OthersKept own m m :=
  othersKept_of_node fun _ _ => rfl

variable [DecidableEq A]

/-- `list_initialize` makes an empty ring. -/
theorem ring_initialized (list : A) (m : Memory A) :
    Ring (listInitialize list m) list [] := by
  refine ⟨List.isChain_pair.mpr ⟨?_, ?_⟩, List.nodup_singleton list⟩
  · simp [listInitialize, next_setNext]
  · simp [listInitialize, prev_setPrev]

theorem ring_addTail (h : Ring m head xs) (hx : x ∉ head :: xs) :
    ∃ m', listAddTail head x m = some m' ∧ Ring m' head (xs ++ [x]) ∧
      OthersKept (x :: head :: xs) m m' := by
  obtain ⟨m', hm, hring, hframe⟩ := h.addTail hx
  exact ⟨m', hm, hring, othersKept_of_node hframe⟩

/-- **Insertion before an element**: the ring is read from the element on, and
    from its head again. -/
theorem ring_addBefore (h : Ring m head (ys ++ y :: zs))
    (hx : x ∉ head :: (ys ++ y :: zs)) :
    ∃ m', listAddBefore y x m = some m' ∧
      Ring m' head (ys ++ x :: y :: zs) ∧
      OthersKept (x :: head :: (ys ++ y :: zs)) m m' := by
  have hmem : ∀ a, a ∈ y :: (zs ++ head :: ys) ↔
      a ∈ head :: (ys ++ y :: zs) := by
    intro a
    simp only [List.mem_cons, List.mem_append]
    tauto
  obtain ⟨m', hm, hring, hframe⟩ :=
    (ring_rotate h).addTail fun hy => hx ((hmem x).mp hy)
  rw [List.append_assoc, List.cons_append] at hring
  have hback := ring_rotate hring
  rw [List.append_assoc, List.singleton_append] at hback
  refine ⟨m', hm, hback, othersKept_of_node fun a ha => hframe a ?_⟩
  rw [List.mem_cons, hmem, ← List.mem_cons]
  exact ha

/-- **Deletion** takes out the element, wherever it is, and clears it. -/
theorem ring_delete (h : Ring m head (ys ++ x :: zs)) :
    ∃ m', listDelete x m = some m' ∧ Ring m' head (ys ++ zs) ∧
      listInList x m' = false ∧ OthersKept (head :: (ys ++ x :: zs)) m m' := by
  obtain ⟨m', hm, hring, hclear, hframe⟩ := h.delete
    (List.mem_append_right ys List.mem_cons_self)
  have hx : x ∉ ys := fun hmem =>
    (ring_apart h).1 (List.mem_cons_of_mem head hmem)
  rw [List.erase_append_right _ hx, List.erase_cons_head] at hring
  refine ⟨m', hm, hring, ?_, othersKept_of_node hframe⟩
  simp [listInList, hclear]

theorem ring_removeHead (h : Ring m head xs) :
    ∃ m', listRemoveHead head m = some (xs.head?, m') ∧
      Ring m' head xs.tail ∧ (∀ x ∈ xs.head?, listInList x m' = false) ∧
      OthersKept (head :: xs) m m' := by
  cases xs with
  | nil =>
      exact ⟨m, h.removeHead_nil, h, by simp, .refl _ m⟩
  | cons x xs =>
      have hfirst : Ring m head ([] ++ x :: xs) := h
      obtain ⟨m', hm, hring, hout, hothers⟩ := ring_delete hfirst
      refine ⟨m', ?_, hring, ?_, hothers⟩
      · rw [h.removeHead, hm]
        rfl
      · intro a ha
        cases ha
        exact hout

theorem ring_removeTail (h : Ring m head xs) :
    ∃ m', listRemoveTail head m = some (xs.getLast?, m') ∧
      Ring m' head xs.dropLast ∧
      (∀ x ∈ xs.getLast?, listInList x m' = false) ∧
      OthersKept (head :: xs) m m' := by
  have hprev := ring_prev h
  obtain rfl | ⟨ys, z, rfl⟩ := xs.eq_nil_or_concat'
  · refine ⟨m, ?_, h, by simp, .refl _ m⟩
    rw [listRemoveTail, hprev]
    exact if_neg (not_not.mpr rfl)
  · obtain ⟨m', hm, hring, hout, hothers⟩ := ring_delete h
    rw [List.append_nil] at hring
    rw [List.getLast?_concat] at hprev ⊢
    have hz : z ≠ head := ring_ne_head h (by simp)
    refine ⟨m', ?_, ?_, ?_, hothers⟩
    · rw [listRemoveTail, hprev]
      simp [hz, hm]
    · rw [List.dropLast_concat]
      exact hring
    · intro a ha
      cases ha
      exact hout

theorem ring_peekHead (h : Ring m head xs) :
    listPeekHead head m = some xs.head? := by
  rw [listPeekHead, ring_next h]
  cases xs with
  | nil => simp
  | cons x xs => simp [ring_ne_head h List.mem_cons_self]

theorem ring_peekTail (h : Ring m head xs) :
    listPeekTail head m = some xs.getLast? := by
  have hprev := ring_prev h
  rw [listPeekTail, hprev]
  obtain rfl | ⟨ys, z, rfl⟩ := xs.eq_nil_or_concat'
  · simp
  · have hz : z ≠ head := ring_ne_head h (by simp)
    simp [hz]

theorem ring_isEmpty (h : Ring m head xs) :
    listIsEmpty head m = xs.isEmpty := by
  rw [Bool.eq_iff_iff, h.isEmpty_iff, List.isEmpty_iff]

/-- The loop of `list_length` counts what is left of the ring. -/
theorem listLengthLoop_ring (h : Ring m head (ys ++ zs)) (fuel cnt : Nat)
    (hfuel : zs.length < fuel) :
    listLengthLoop head m fuel (zs.head?.getD head) cnt =
      some (cnt + zs.length) := by
  induction zs generalizing ys fuel cnt with
  | nil =>
      cases fuel with
      | zero => exact absurd hfuel (Nat.not_lt_zero _)
      | succ fuel => simp [listLengthLoop]
  | cons z zs ih =>
      cases fuel with
      | zero => exact absurd hfuel (Nat.not_lt_zero _)
      | succ fuel =>
          have hz : z ≠ head := ring_ne_head h (by simp)
          -- read from `z` on, the next node is the first of the others
          have hnext := ring_next (ring_rotate h)
          have hfirst : (zs ++ head :: ys).head?.getD z =
              zs.head?.getD head := by
            cases zs <;> rfl
          have hmoved : Ring m head ((ys ++ [z]) ++ zs) := by simpa using h
          have hrest := ih hmoved fuel (cnt + 1)
            (Nat.lt_of_succ_lt_succ hfuel)
          rw [List.head?_cons, Option.getD_some, listLengthLoop, if_pos hz,
            hnext, hfirst, Option.bind_eq_bind, Option.bind_some, hrest,
            List.length_cons, Nat.add_assoc, Nat.add_comm 1]

theorem ring_length (h : Ring m head xs) (fuel : Nat)
    (hfuel : xs.length < fuel) :
    listLength fuel head m = some xs.length := by
  have hwhole : Ring m head ([] ++ xs) := h
  rw [listLength, ring_next h, Option.bind_eq_bind, Option.bind_some,
    listLengthLoop_ring hwhole fuel 0 hfuel, Nat.zero_add]

/-- **list.h on sequences**: what each function does to a ring with the nodes
    `xs`, and what it returns. -/
structure ActsOnSequence (m : Memory A) (head : A) (xs : List A) : Prop where
  addTail : ∀ x, x ∉ head :: xs → ∃ m', listAddTail head x m = some m' ∧
    Ring m' head (xs ++ [x]) ∧ OthersKept (x :: head :: xs) m m'
  addBefore : ∀ ys y zs x, xs = ys ++ y :: zs → x ∉ head :: xs →
    ∃ m', listAddBefore y x m = some m' ∧
      Ring m' head (ys ++ x :: y :: zs) ∧ OthersKept (x :: head :: xs) m m'
  delete : ∀ ys x zs, xs = ys ++ x :: zs → ∃ m', listDelete x m = some m' ∧
    Ring m' head (ys ++ zs) ∧ listInList x m' = false ∧
    OthersKept (head :: xs) m m'
  removeHead : ∃ m', listRemoveHead head m = some (xs.head?, m') ∧
    Ring m' head xs.tail ∧ (∀ x ∈ xs.head?, listInList x m' = false) ∧
    OthersKept (head :: xs) m m'
  removeTail : ∃ m', listRemoveTail head m = some (xs.getLast?, m') ∧
    Ring m' head xs.dropLast ∧
    (∀ x ∈ xs.getLast?, listInList x m' = false) ∧
    OthersKept (head :: xs) m m'
  peekHead : listPeekHead head m = some xs.head?
  peekTail : listPeekTail head m = some xs.getLast?
  isEmpty : listIsEmpty head m = xs.isEmpty
  inList : ∀ x ∈ xs, listInList x m = true
  length : ∀ fuel, xs.length < fuel → listLength fuel head m = some xs.length

/-- **Every ring is acted on as the sequence it represents.** -/
theorem ring_actsOnSequence (h : Ring m head xs) :
    ActsOnSequence m head xs where
  addTail x hx := ring_addTail h hx
  addBefore ys y zs x heq hx := by
    subst heq
    exact ring_addBefore h hx
  delete ys x zs heq := by
    subst heq
    exact ring_delete h
  removeHead := ring_removeHead h
  removeTail := ring_removeTail h
  peekHead := ring_peekHead h
  peekTail := ring_peekTail h
  isEmpty := ring_isEmpty h
  inList _ hx := ring_inList h hx
  length := ring_length h

/-- Two nodes on the list of 0. -/
def twoNodes : Memory Nat
  | 0 => ⟨some 2, some 1⟩
  | 1 => ⟨some 0, some 2⟩
  | 2 => ⟨some 1, some 0⟩
  | _ => ⟨none, none⟩

theorem ring_actsOnSequence_twoNodes : ActsOnSequence twoNodes 0 [1, 2] :=
  ring_actsOnSequence ⟨by simp [Linked, twoNodes], by decide⟩

/-! ## Memories for given sequences -/

/-- Every sequence of distinct nodes is the ring of some memory. -/
theorem exists_ring (h : (head :: xs).Nodup) : ∃ m, Ring m head xs := by
  induction xs using List.reverseRecOn with
  | nil => exact ⟨_, ring_initialized head fun _ => ⟨none, none⟩⟩
  | append_singleton xs x ih =>
      rw [← List.cons_append, List.nodup_append] at h
      obtain ⟨m, hm⟩ := ih h.1
      have hx : x ∉ head :: xs := fun hmem =>
        h.2.2 x hmem x (List.mem_singleton.mpr rfl) rfl
      obtain ⟨m', -, hm', -⟩ := ring_addTail hm hx
      exact ⟨m', hm'⟩

section Families

variable {H N : Type}

/-- The memory that has each list of a family where `m` has it. -/
def layOut (L : NodeLists H N) (m : H → Memory (Address H N)) :
    Memory (Address H N)
  | .head h => m h (.head h)
  | .node x =>
      match L.link x with
      | none => ⟨none, none⟩
      | some h => m h (.node x)

/-- Every family of lists can be laid out in memory. -/
theorem exists_represents [DecidableEq H] [DecidableEq N]
    (L : NodeLists H N) : ∃ m, Represents m L := by
  have hinj : Function.Injective (Address.node : N → Address H N) :=
    fun _ _ he => by cases he; rfl
  have hring : ∀ h, ∃ m : Memory (Address H N),
      Ring m (.head h) ((L.items h).map .node) := by
    intro h
    refine exists_ring (List.nodup_cons.mpr ⟨?_, (L.nodup h).map hinj⟩)
    simp
  choose m hm using hring
  refine ⟨layOut L m, ?_, ?_⟩
  · intro h
    refine (hm h).congr ?_
    intro a ha
    rcases (mem_addresses L h a).mp ha with rfl | ⟨x, hx, rfl⟩
    · rfl
    · simp only [layOut, hx]
  · intro x hx
    simp only [layOut, hx]

end Families

/-! ## A node linked in twice -/

/-- The pointers `next` after a node was linked in, whether or not it was on a
    list before. -/
theorem next_addTail (hm : listAddTail head x m = some m') :
    ∃ last, (setPrev m x (m head).prev head).prev = some last ∧
      ∀ a, (m' a).next = if a = last then some x
        else if a = x then some head else (m a).next := by
  rw [listAddTail] at hm
  simp only [prev_setNext, Option.bind_eq_bind, Option.bind_eq_some_iff,
    Option.pure_def, Option.some.injEq] at hm
  obtain ⟨last, hlast, rfl⟩ := hm
  refine ⟨last, hlast, fun a => ?_⟩
  simp only [next_setPrev, next_setNext]

/-- The node before it on the ring it was on still points at it. -/
theorem next_before_addTail {head' : A} (h : Ring m head (ys ++ x :: zs))
    (hm : listAddTail head' x m = some m') :
    ∃ as z, head :: ys = as ++ [z] ∧ (m' z).next = some x := by
  obtain ⟨as, z, hlast⟩ :=
    (head :: ys).eq_nil_or_concat'.resolve_left (by simp)
  have hzx : z ≠ x := by
    rintro rfl
    exact (ring_apart h).1 (by rw [hlast]; simp)
  obtain ⟨last, -, hnext⟩ := next_addTail hm
  refine ⟨as, z, hlast, ?_⟩
  rw [hnext, if_neg hzx, ring_next_of h hlast]
  simp

/-- **A node linked in twice**: the ring it was on has not lost it. -/
theorem not_ring_of_addTail {head' : A} (h : Ring m head (ys ++ x :: zs))
    (hm : listAddTail head' x m = some m') : ¬ Ring m' head (ys ++ zs) := by
  intro hring
  obtain ⟨as, z, hlast, hstill⟩ := next_before_addTail h hm
  rw [ring_next_of hring hlast] at hstill
  have hfirst := Option.some.inj hstill
  cases zs with
  | nil => exact (ring_apart h).1 (hfirst ▸ List.mem_cons_self)
  | cons w ws => exact (ring_apart h).2 (hfirst ▸ List.mem_cons_self)

/-- Linked in again on its own list, a node does not come to the end. -/
theorem not_ring_of_addTail_again (h : Ring m head (ys ++ x :: zs))
    (hm : listAddTail head x m = some m') :
    ¬ Ring m' head (ys ++ (zs ++ [x])) := by
  intro hring
  cases zs with
  | nil =>
      -- it was the last one and points at itself now
      have hne : head ≠ x := fun he =>
        (ring_apart h).1 (he ▸ List.mem_cons_self)
      obtain ⟨last, hprev, hnext⟩ := next_addTail hm
      have hlast : last = x := by
        rw [prev_setPrev, if_neg hne, ring_prev h] at hprev
        simpa using hprev.symm
      have hwhole : Ring m' head ((ys ++ [x]) ++ []) := by simpa using hring
      have hend := ring_next_of hwhole (List.cons_append.symm)
      rw [hnext, if_pos hlast.symm] at hend
      exact hne (Option.some.inj hend).symm
  | cons w ws =>
      obtain ⟨as, z, hlast, hstill⟩ := next_before_addTail h hm
      rw [ring_next_of hring hlast] at hstill
      exact (ring_apart h).2 (Option.some.inj hstill ▸ List.mem_cons_self)

end ChinixListSequences

import Chinix.NodeLists
import Mathlib.Data.List.Chain

/-! # Circular lists in memory (include/list.h)

    A `struct list_node` is two pointers.  A list is a ring of nodes that
    starts and ends in its head; the functions of list.h write the pointers of
    a node and of its neighbours.  Read from the head on, a ring is a
    sequence, and on sequences the functions are the operations of
    `NodeLists`: `Represents` says which rings a family of lists stands for,
    and every function keeps it. -/

namespace ChinixCircularList

variable {A : Type}

/-- `struct list_node`. -/
structure ListNode (A : Type) where
  prev : Option A
  next : Option A

/-- The nodes in memory. -/
abbrev Memory (A : Type) := A → ListNode A

/-! ## Rings -/

/-- Two nodes point at each other. -/
def Linked (m : Memory A) (x y : A) : Prop :=
  (m x).next = some y ∧ (m y).prev = some x

/-- The ring of `head` has the nodes `xs`, in the order of `next`. -/
structure Ring (m : Memory A) (head : A) (xs : List A) : Prop where
  chain : List.IsChain (Linked m) (head :: (xs ++ [head]))
  nodup : (head :: xs).Nodup

variable {m m' : Memory A} {head x : A} {xs : List A}

/-- A chain reads `next` of all its nodes but the last, and `prev` of all but
    the first. -/
theorem chain_congr {l : List A} (h : List.IsChain (Linked m) l)
    (hnext : ∀ a ∈ l.dropLast, (m' a).next = (m a).next)
    (hprev : ∀ a ∈ l.tail, (m' a).prev = (m a).prev) :
    List.IsChain (Linked m') l := by
  rw [List.isChain_iff_forall_rel_of_append_cons_cons] at h ⊢
  intro a b l₁ l₂ heq
  obtain ⟨hn, hp⟩ := h heq
  have ha : a ∈ l.dropLast := by rw [heq]; simp
  have hb : b ∈ l.tail := by
    rw [heq]
    cases l₁ <;> simp
  exact ⟨(hnext a ha).trans hn, (hprev b hb).trans hp⟩

/-- A ring does not depend on other nodes. -/
theorem Ring.congr (h : Ring m head xs) (heq : ∀ a ∈ head :: xs, m' a = m a) :
    Ring m' head xs := by
  refine ⟨chain_congr h.chain ?_ ?_, h.nodup⟩
  · intro a ha
    rw [← List.cons_append, List.dropLast_concat] at ha
    rw [heq a ha]
  · intro a ha
    rw [List.tail_cons, List.mem_append, List.mem_singleton] at ha
    rw [heq a (List.mem_cons.mpr ha.symm)]

/-- The last node of a ring, which may be its head, is what `head->prev`
    points at. -/
theorem Ring.prev_head (h : Ring m head xs) {ys : List A} {z : A}
    (hlast : head :: xs = ys ++ [z]) : (m head).prev = some z := by
  have hchain := h.chain
  rw [← List.cons_append, hlast, List.append_assoc] at hchain
  exact (List.isChain_append_cons_cons.mp hchain).2.1.2

variable [DecidableEq A]

/-- `node->prev = p`. -/
def setPrev (m : Memory A) (node : A) (p : Option A) : Memory A :=
  Function.update m node { m node with prev := p }

/-- `node->next = p`. -/
def setNext (m : Memory A) (node : A) (p : Option A) : Memory A :=
  Function.update m node { m node with next := p }

/-! ## The functions of list.h

    `none` is the use of a NULL pointer. -/

/-- `list_add_head`. -/
def listAddHead (head node : A) (m : Memory A) : Option (Memory A) := do
  let m := setPrev m node (m head).prev
  let m := setNext m node (some head)
  let last ← (m head).prev
  let m := setNext m last (some node)
  return setPrev m head (some node)

/-- `list_add_tail`. -/
def listAddTail (head node : A) (m : Memory A) : Option (Memory A) := do
  let m := setPrev m node (m head).prev
  let m := setNext m node (some head)
  let last ← (m head).prev
  let m := setNext m last (some node)
  return setPrev m head (some node)

/-- `list_delete`. -/
def listDelete (node : A) (m : Memory A) : Option (Memory A) := do
  let next ← (m node).next
  let m := setPrev m next (m node).prev
  let prev ← (m node).prev
  let m := setNext m prev (m node).next
  return setNext (setPrev m node none) node none

/-- `list_remove_head`. -/
def listRemoveHead (head : A) (m : Memory A) :
    Option (Option A × Memory A) := do
  let node ← (m head).next
  if node ≠ head then
    let m ← listDelete node m
    return (some node, m)
  else return (none, m)

/-- `list_is_empty`. -/
def listIsEmpty (head : A) (m : Memory A) : Bool :=
  (m head).next = some head

/-- `list_in_list`. -/
def listInList (node : A) (m : Memory A) : Bool :=
  ¬ ((m node).prev = none ∧ (m node).next = none)

theorem setPrev_of_ne (m : Memory A) {node x : A} (p : Option A)
    (h : x ≠ node) : setPrev m node p x = m x :=
  Function.update_of_ne h _ _

theorem setNext_of_ne (m : Memory A) {node x : A} (p : Option A)
    (h : x ≠ node) : setNext m node p x = m x :=
  Function.update_of_ne h _ _

@[simp] theorem prev_setNext (m : Memory A) (node x : A) (p : Option A) :
    (setNext m node p x).prev = (m x).prev := by
  by_cases h : x = node
  · subst h; simp [setNext]
  · rw [setNext_of_ne m p h]

@[simp] theorem next_setPrev (m : Memory A) (node x : A) (p : Option A) :
    (setPrev m node p x).next = (m x).next := by
  by_cases h : x = node
  · subst h; simp [setPrev]
  · rw [setPrev_of_ne m p h]

theorem prev_setPrev (m : Memory A) (node x : A) (p : Option A) :
    (setPrev m node p x).prev = if x = node then p else (m x).prev := by
  by_cases h : x = node
  · subst h; simp [setPrev]
  · rw [setPrev_of_ne m p h, if_neg h]

theorem next_setNext (m : Memory A) (node x : A) (p : Option A) :
    (setNext m node p x).next = if x = node then p else (m x).next := by
  by_cases h : x = node
  · subst h; simp [setNext]
  · rw [setNext_of_ne m p h, if_neg h]

/-! ## What the functions do to a ring -/

/-- **What the four writes do**: the node comes last. -/
theorem Ring.addTail (h : Ring m head xs) (hx : x ∉ head :: xs) :
    ∃ m', listAddTail head x m = some m' ∧ Ring m' head (xs ++ [x]) ∧
      ∀ a, a ∉ x :: head :: xs → m' a = m a := by
  obtain ⟨ys, z, hlast⟩ : ∃ ys z, head :: xs = ys ++ [z] :=
    ⟨_, _, (List.dropLast_append_getLast (List.cons_ne_nil head xs)).symm⟩
  have hz : z ∈ head :: xs := by rw [hlast]; simp
  have hxh : x ≠ head := fun he => hx (he ▸ List.mem_cons_self)
  have hxz : x ≠ z := fun he => hx (he ▸ hz)
  have hprev := h.prev_head hlast
  have hnodup : (ys ++ [z]).Nodup := hlast ▸ h.nodup
  have hchain := h.chain
  rw [← List.cons_append, hlast, List.append_assoc] at hchain
  obtain ⟨hfront, -, -⟩ := List.isChain_append_cons_cons.mp hchain
  -- the memory after the writes, pointer by pointer
  have hm : listAddTail head x m = some (setPrev (setNext (setNext
      (setPrev m x (some z)) x (some head)) z (some x)) head (some x)) := by
    simp only [listAddTail, hprev, prev_setNext, prev_setPrev,
      if_neg (Ne.symm hxh)]
    rfl
  refine ⟨_, hm, ⟨?_, ?_⟩, ?_⟩
  · rw [← List.cons_append, ← List.cons_append, hlast]
    have hassoc : ys ++ [z] ++ [x] ++ [head] = ys ++ z :: x :: [head] := by
      simp
    rw [hassoc, List.isChain_append_cons_cons]
    refine ⟨chain_congr hfront ?_ ?_, ⟨?_, ?_⟩, List.isChain_pair.mpr ⟨?_, ?_⟩⟩
    · -- `next` is written at `x` and at the last node only
      intro a ha
      rw [List.dropLast_concat] at ha
      have haz : a ≠ z := by
        rintro rfl
        exact (List.nodup_append.mp hnodup).2.2 a ha a (by simp) rfl
      have hax : a ≠ x := by
        rintro rfl
        exact hx (hlast ▸ List.mem_append_left _ ha)
      simp [next_setNext, haz, hax]
    · -- `prev` is written at `x` and at the head only
      intro a ha
      have hmem : a ∈ xs := by rwa [← hlast] at ha
      have hah : a ≠ head := by
        rintro rfl
        exact (List.nodup_cons.mp h.nodup).1 hmem
      have hax : a ≠ x := by
        rintro rfl
        exact hx (List.mem_cons_of_mem _ hmem)
      simp [prev_setPrev, hah, hax]
    · simp [next_setNext]
    · simp [prev_setPrev, hxh]
    · simp [next_setNext, hxz]
    · simp [prev_setPrev]
  · rw [← List.cons_append]
    exact List.Nodup.append h.nodup (List.nodup_singleton x)
      (List.disjoint_singleton.mpr hx)
  · intro a ha
    have hax : a ≠ x := fun he => ha (he ▸ List.mem_cons_self)
    have hrest : a ∉ head :: xs := fun hm => ha (List.mem_cons_of_mem _ hm)
    have hah : a ≠ head := fun he => hrest (he ▸ List.mem_cons_self)
    have haz : a ≠ z := fun he => hrest (he ▸ hz)
    rw [setPrev_of_ne _ _ hah, setNext_of_ne _ _ haz, setNext_of_ne _ _ hax,
      setPrev_of_ne _ _ hax]

/-- `list_add_head` makes the same writes. -/
theorem listAddHead_eq_listAddTail (head node : A) (m : Memory A) :
    listAddHead head node m = listAddTail head node m := rfl

/-- A node in a ring with the two next to it: `p` comes before it and `q`
    behind it, in the list that begins and ends with the head. -/
theorem Ring.around (h : Ring m head xs) (hx : x ∈ xs) :
    ∃ init p q rest,
      head :: (xs ++ [head]) = init ++ p :: x :: q :: rest ∧
      head :: (xs.erase x ++ [head]) = init ++ p :: q :: rest ∧
      head :: xs = init ++ p :: x :: (q :: rest).dropLast ∧
      xs ++ [head] = (init ++ [p]).tail ++ x :: q :: rest := by
  obtain ⟨ys, zs, rfl⟩ := List.append_of_mem hx
  obtain ⟨init, p, hp⟩ : ∃ init p, head :: ys = init ++ [p] :=
    ⟨_, _, (List.dropLast_append_getLast (List.cons_ne_nil head ys)).symm⟩
  obtain ⟨q, rest, hq⟩ : ∃ q rest, zs ++ [head] = q :: rest :=
    List.exists_cons_of_ne_nil (by simp)
  have hxys : x ∉ ys := by
    intro hm
    have hdisj := (List.nodup_append.mp (List.nodup_cons.mp h.nodup).2).2.2
    exact hdisj x hm x List.mem_cons_self rfl
  have herase : (ys ++ x :: zs).erase x = ys ++ zs := by
    rw [List.erase_append_right _ hxys, List.erase_cons_head]
  refine ⟨init, p, q, rest, ?_, ?_, ?_, ?_⟩
  · rw [List.append_assoc, List.cons_append, hq, ← List.cons_append, hp]
    simp
  · rw [herase, List.append_assoc, hq, ← List.cons_append, hp]
    simp
  · rw [← hq, List.dropLast_concat, ← List.cons_append, hp]
    simp
  · rw [← hp, List.tail_cons, List.append_assoc, List.cons_append, hq]

/-- **What `list_delete` does**: the neighbours of the node are linked to each
    other and its own pointers are cleared. -/
theorem Ring.delete (h : Ring m head xs) (hx : x ∈ xs) :
    ∃ m', listDelete x m = some m' ∧ Ring m' head (xs.erase x) ∧
      m' x = ⟨none, none⟩ ∧ ∀ a, a ∉ head :: xs → m' a = m a := by
  obtain ⟨init, p, q, rest, hsplit, hjoin, hfrom, hto⟩ := h.around hx
  have hchain := h.chain
  rw [hsplit, List.isChain_append_cons_cons, List.isChain_cons_cons] at hchain
  obtain ⟨hfront, ⟨hpx, hxp⟩, ⟨hxq, hqx⟩, hback⟩ := hchain
  -- no node but the head comes twice, at the two ends
  have hto_nodup : (xs ++ [head]).Nodup :=
    (List.perm_append_comm.nodup_iff).mpr h.nodup
  rw [hto] at hto_nodup
  have hfrom_nodup := hfrom ▸ h.nodup
  obtain ⟨-, hpx_nodup, hinit⟩ := List.nodup_append.mp hfrom_nodup
  obtain ⟨-, hxq_nodup, hfirst⟩ := List.nodup_append.mp hto_nodup
  have hp := List.nodup_cons.mp hpx_nodup
  have hq := List.nodup_cons.mp hxq_nodup
  have hxp' : x ≠ p := fun he => hp.1 (he ▸ List.mem_cons_self)
  have hxq' : x ≠ q := fun he => hq.1 (he ▸ List.mem_cons_self)
  have hm : listDelete x m = some (setNext (setPrev (setNext (setPrev m q
      (some p)) p (some q)) x none) x none) := by
    simp only [listDelete, hxq, hxp, Option.bind_eq_bind, Option.bind_some,
      prev_setPrev, if_neg hxq', next_setPrev]
    rfl
  refine ⟨_, hm, ⟨?_, ?_⟩, ?_, ?_⟩
  · rw [hjoin, List.isChain_append_cons_cons]
    refine ⟨chain_congr hfront ?_ ?_, ⟨?_, ?_⟩, chain_congr hback ?_ ?_⟩
    · intro a ha
      rw [List.dropLast_concat] at ha
      have hap : a ≠ p := hinit a ha p List.mem_cons_self
      have hax : a ≠ x := hinit a ha x (by simp)
      simp [next_setNext, hap, hax]
    · intro a ha
      have hax : a ≠ x := hfirst a ha x List.mem_cons_self
      have haq : a ≠ q := hfirst a ha q (by simp)
      simp [prev_setPrev, hax, haq]
    · simp [next_setNext, Ne.symm hxp']
    · simp [prev_setPrev, Ne.symm hxq']
    · intro a ha
      have hap : a ≠ p := fun he => hp.1 (he ▸ List.mem_cons_of_mem _ ha)
      have hax : a ≠ x := fun he => (List.nodup_cons.mp hp.2).1 (he ▸ ha)
      simp [next_setNext, hax, hap]
    · intro a ha
      rw [List.tail_cons] at ha
      have haq : a ≠ q := fun he => (List.nodup_cons.mp hq.2).1 (he ▸ ha)
      have hax : a ≠ x := fun he => hq.1 (he ▸ List.mem_cons_of_mem _ ha)
      simp [prev_setPrev, haq, hax]
  · obtain ⟨hhead, hxs⟩ := List.nodup_cons.mp h.nodup
    refine List.nodup_cons.mpr ⟨?_, hxs.erase x⟩
    exact fun hmem => hhead (List.mem_of_mem_erase hmem)
  · simp [setNext, setPrev]
  · intro a ha
    have hfar : a ∉ xs ++ [head] := by
      intro hmem
      exact ha (List.perm_append_comm.mem_iff.mp hmem)
    have hax : a ≠ x := by
      rintro rfl
      exact ha (hfrom ▸ by simp)
    have hap : a ≠ p := by
      rintro rfl
      exact ha (hfrom ▸ by simp)
    have haq : a ≠ q := by
      rintro rfl
      exact hfar (hto ▸ by simp)
    rw [setNext_of_ne _ _ hax, setPrev_of_ne _ _ hax, setNext_of_ne _ _ hap,
      setPrev_of_ne _ _ haq]

/-- An empty ring is one that `list_is_empty` reports. -/
theorem Ring.isEmpty_iff (h : Ring m head xs) :
    listIsEmpty head m = true ↔ xs = [] := by
  cases xs with
  | nil =>
      have hl : Linked m head head :=
        (List.isChain_cons_cons.mp h.chain).1
      simp [listIsEmpty, hl.1]
  | cons x xs =>
      have hl : Linked m head x := (List.isChain_cons_cons.mp h.chain).1
      have hne : x ≠ head := by
        rintro rfl
        exact (List.nodup_cons.mp h.nodup).1 List.mem_cons_self
      simp [listIsEmpty, hl.1, hne]

/-- `list_remove_head` takes the first node of a ring that has one. -/
theorem Ring.removeHead (h : Ring m head (x :: xs)) :
    listRemoveHead head m = (listDelete x m).map fun m => (some x, m) := by
  have hl : Linked m head x := (List.isChain_cons_cons.mp h.chain).1
  have hne : x ≠ head := by
    rintro rfl
    exact (List.nodup_cons.mp h.nodup).1 List.mem_cons_self
  simp only [listRemoveHead, hl.1, Option.bind_eq_bind, Option.bind_some]
  rw [if_pos hne]
  cases listDelete x m <;> rfl

theorem Ring.removeHead_nil (h : Ring m head []) :
    listRemoveHead head m = some (none, m) := by
  have hl : Linked m head head := (List.isChain_cons_cons.mp h.chain).1
  simp [listRemoveHead, hl.1]

/-- **Head insertion**: the node that `list_add_head` links in is the next one
    that `list_remove_head` takes exactly when the list was empty. -/
theorem Ring.removeHead_addHead_iff (h : Ring m head xs)
    (hx : x ∉ head :: xs) :
    (∃ m1 m2, listAddHead head x m = some m1 ∧
        listRemoveHead head m1 = some (some x, m2)) ↔ xs = [] := by
  obtain ⟨m1, hm1, hring, -⟩ := h.addTail hx
  rw [listAddHead_eq_listAddTail, hm1]
  cases xs with
  | nil =>
      obtain ⟨m2, hm2, -⟩ := hring.delete (x := x) (by simp)
      refine iff_of_true ⟨m1, m2, rfl, ?_⟩ rfl
      rw [(show Ring m1 head [x] from hring).removeHead, hm2]
      rfl
  | cons y ys =>
      obtain ⟨m2, hm2, -⟩ := hring.delete (x := y) (by simp)
      refine iff_of_false ?_ (by simp)
      rintro ⟨m1', m2', heq, hrem⟩
      cases heq
      rw [(show Ring m1 head (y :: (ys ++ [x])) from hring).removeHead,
        hm2] at hrem
      have hyx : y = x := by
        have := congrArg (Option.map Prod.fst) hrem
        simpa using this
      exact hx (hyx ▸ by simp)

/-! ## Families of lists -/

/-- The addresses of a family: its heads, and the link of each node. -/
inductive Address (H N : Type) where
  | head (h : H)
  | node (x : N)
  deriving DecidableEq

variable {H N : Type}

/-- The memory holds the lists of a family, and cleared links for the nodes
    that are on no list. -/
structure Represents (m : Memory (Address H N)) (L : NodeLists H N) :
    Prop where
  ring : ∀ h, Ring m (.head h) ((L.items h).map .node)
  cleared : ∀ x, L.link x = none → m (.node x) = ⟨none, none⟩

variable {mem : Memory (Address H N)} {L : NodeLists H N} {h : H} {y : N}

/-- The addresses of a list. -/
theorem mem_addresses (L : NodeLists H N) (h : H) (a : Address H N) :
    a ∈ Address.head h :: (L.items h).map .node ↔
      a = .head h ∨ ∃ x, L.link x = some h ∧ a = .node x := by
  rw [List.mem_cons, List.mem_map]
  constructor
  · rintro (he | ⟨x, hx, rfl⟩)
    · exact .inl he
    · exact .inr ⟨x, (L.mem_items h x).mp hx, rfl⟩
  · rintro (he | ⟨x, hx, rfl⟩)
    · exact .inl he
    · exact .inr ⟨x, (L.mem_items h x).mpr hx, rfl⟩

/-- No two lists of a family share an address. -/
theorem addresses_disjoint {h' : H} (hne : h' ≠ h) {a : Address H N}
    (ha : a ∈ Address.head h' :: (L.items h').map .node) :
    a ∉ Address.head h :: (L.items h).map .node := by
  rw [mem_addresses] at ha ⊢
  rintro (rfl | ⟨x, hx, rfl⟩)
  · rcases ha with he | ⟨x, -, he⟩
    · cases he
      exact hne rfl
    · cases he
  · rcases ha with he | ⟨x', hx', he⟩
    · cases he
    · cases he
      rw [hx] at hx'
      cases hx'
      exact hne rfl

/-- `list_in_list` tells which nodes are on a list. -/
theorem Represents.inList_iff (hr : Represents mem L) :
    listInList (.node y) mem = true ↔ L.link y ≠ none := by
  cases hl : L.link y with
  | none => simp [listInList, hr.cleared y hl]
  | some h =>
      -- a node on a list has a successor
      obtain ⟨ys, zs, heq⟩ := List.append_of_mem ((L.mem_items h y).mpr hl)
      have hchain := (hr.ring h).chain
      rw [heq, List.map_append, List.map_cons, List.append_assoc,
        List.cons_append, ← List.cons_append] at hchain
      obtain ⟨a, as, has⟩ : ∃ a as,
          zs.map Address.node ++ [Address.head h] = a :: as :=
        List.exists_cons_of_ne_nil (by simp)
      rw [has, List.isChain_append_cons_cons] at hchain
      simp [listInList, hchain.2.1.1]

variable [DecidableEq H] [DecidableEq N]

/-- **Insertion** in memory is insertion in the family. -/
theorem Represents.addTail (hr : Represents mem L) (hy : L.link y = none) :
    ∃ mem', listAddTail (.head h) (.node y) mem = some mem' ∧
      Represents mem' (L.addTail h y) := by
  have hfresh : ∀ h', Address.node y ∉
      Address.head h' :: (L.items h').map .node := by
    intro h' hmem
    rw [mem_addresses] at hmem
    rcases hmem with he | ⟨x, hx, he⟩
    · cases he
    · cases he
      rw [hy] at hx
      cases hx
  obtain ⟨mem', hmem, hring, hframe⟩ := (hr.ring h).addTail (hfresh h)
  refine ⟨mem', hmem, ?_, ?_⟩
  · intro h'
    rw [L.items_addTail h y hy]
    by_cases hh : h' = h
    · subst hh
      rw [Function.update_self, List.map_append]
      exact hring
    · rw [Function.update_of_ne hh]
      refine (hr.ring h').congr ?_
      intro a ha
      refine hframe a ?_
      rw [List.mem_cons, not_or]
      exact ⟨fun he => hfresh h' (he ▸ ha), addresses_disjoint hh ha⟩
  · intro x hx
    rw [L.link_addTail h y hy] at hx
    have hxy : x ≠ y := by
      rintro rfl
      simp at hx
    rw [Function.update_of_ne hxy] at hx
    rw [hframe _ ?_, hr.cleared x hx]
    rw [List.mem_cons, not_or, mem_addresses]
    refine ⟨by simpa using hxy, ?_⟩
    rintro (he | ⟨x', hx', he⟩)
    · cases he
    · cases he
      rw [hx] at hx'
      cases hx'

/-- **Deletion** in memory is deletion from the family. -/
theorem Represents.delete (hr : Represents mem L) (hy : L.link y = some h) :
    ∃ mem', listDelete (.node y) mem = some mem' ∧
      Represents mem' (L.delete y) := by
  have hmem : y ∈ L.items h := (L.mem_items h y).mpr hy
  obtain ⟨mem', hdel, hring, hself, hframe⟩ := (hr.ring h).delete
    (x := .node y) (List.mem_map.mpr ⟨y, hmem, rfl⟩)
  refine ⟨mem', hdel, ?_, ?_⟩
  · intro h'
    by_cases hh : h' = h
    · subst hh
      have hinj : Function.Injective (Address.node : N → Address H N) :=
        fun _ _ he => by cases he; rfl
      rw [L.items_delete, List.map_erase hinj]
      exact hring
    · rw [L.items_delete_of_ne (by rw [hy]; simpa using Ne.symm hh)]
      refine (hr.ring h').congr ?_
      exact fun a ha => hframe a (addresses_disjoint hh ha)
  · intro x hx
    by_cases hxy : x = y
    · subst hxy
      exact hself
    · rw [NodeLists.link_delete, Function.update_of_ne hxy] at hx
      rw [hframe _ ?_, hr.cleared x hx]
      rw [mem_addresses]
      rintro (he | ⟨x', hx', he⟩)
      · cases he
      · cases he
        rw [hx] at hx'
        cases hx'

end ChinixCircularList

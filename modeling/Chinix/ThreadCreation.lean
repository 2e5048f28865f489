import Chinix.ListSequences
import Chinix.Runs

/-! # Concurrent calls of `thread_create` (kernel/thread.c)

    The free slots of `g_threads` are on `g_thread_free_list`, those of the
    created threads on `thread_list`.  `get_free_thread_node` tests the free
    list before it takes the lock, so that another call, or the exit of a
    detached thread, can come in between, and between its locked region and
    the one that links the slot in on `thread_list`.  The free list can be
    empty again by then: `list_remove_head` returns NULL, and `container_of`
    leaves it NULL because `thread_list_node` is the first field of
    `thread_t`. -/

namespace ChinixThreadCreation

open ChinixCircularList ChinixListSequences

/-! ## Addresses -/

abbrev Addr := BitVec 64

def null : Addr := 0

/-- `offsetof(thread_t, thread_list_node)`. -/
def threadListNodeOffset : Addr := 0

/-- `container_of`. -/
def containerOf (ptr offset : Addr) : Addr := ptr - offset

/-- `&thread->thread_list_node`. -/
def threadListNode (thread : Addr) : Addr := thread + threadListNodeOffset

@[simp] theorem threadListNode_eq (thread : Addr) :
    threadListNode thread = thread := BitVec.add_zero thread

@[simp] theorem containerOf_threadListNode (ptr : Addr) :
    containerOf ptr threadListNodeOffset = ptr := BitVec.sub_zero ptr

/-- Where the build puts the two lists and `g_threads`, and
    `sizeof(thread_t)`. -/
structure Layout where
  gThreadFreeList : Addr
  threadList : Addr
  gThreads : Addr
  sizeofThread : Addr

variable (L : Layout)

/-- `thread_ptr_to_id`; an `unsigned long` is returned as an `int`. -/
def threadPtrToId (thread : Addr) : Int :=
  (((thread - L.gThreads) / L.sizeofThread).setWidth 32).toInt

/-! ## The calls -/

/-- How far a call of `thread_create` has come. -/
inductive Call where
  | entered
  /-- The emptiness test of `get_free_thread_node` found a node. -/
  | tested
  /-- `get_free_thread_node` has returned. -/
  | obtained (thread : Addr)
  /-- The slot is filled in. -/
  | initialised (thread : Addr)
  | returned (ret : Int)
  deriving DecidableEq, Repr

def Call.hasReturned : Call → Bool
  | .returned _ => true
  | _ => false

/-- The lists in memory, the flag `THREAD_FLAG_DETACHED` of the slots, the
    calls, and which threads have been created and have not exited. -/
structure World (C : Type) where
  mem : Memory Addr
  detached : Addr → Bool
  calls : C → Call
  alive : Addr → Bool

variable {C : Type} [DecidableEq C]

/-- A call comes to `s`. -/
def World.setCall (w : World C) (c : C) (s : Call) : World C :=
  { w with calls := Function.update w.calls c s }

/-- The unlocked test of `get_free_thread_node`. -/
def testFreeList (c : C) (w : World C) : World C :=
  if listIsEmpty L.gThreadFreeList w.mem then w.setCall c (.obtained null)
  else w.setCall c .tested

/-- The locked region of `get_free_thread_node`. -/
def getFreeThreadNode (c : C) (w : World C) : Option (World C) := do
  let (node, mem) ← listRemoveHead L.gThreadFreeList w.mem
  let thread := containerOf (node.getD null) threadListNodeOffset
  return { w with mem := mem }.setCall c (.obtained thread)

/-- `thread_create` after `get_free_thread_node`, up to its locked region:
    `memset` clears the links and the flags of the slot too. -/
def initThreadStruct (c : C) (thread : Addr) (w : World C) : World C :=
  if thread = null then w.setCall c (.returned (-1))
  else
    { w with
      mem := setNext (setPrev w.mem (threadListNode thread) none)
        (threadListNode thread) none
      detached := Function.update w.detached thread false }.setCall c
        (.initialised thread)

/-- The locked region of `thread_create`. -/
def linkThread (c : C) (thread : Addr) (w : World C) : Option (World C) := do
  let mem ← listAddTail L.threadList (threadListNode thread) w.mem
  return { w with
    mem := mem, alive := Function.update w.alive thread true }.setCall c
      (.returned (threadPtrToId L thread))

/-- `thread_create` goes on up to the next place where another thread can
    come in. -/
def threadCreate (c : C) (w : World C) : Option (World C) :=
  match w.calls c with
  | .entered => some (testFreeList L c w)
  | .tested => getFreeThreadNode L c w
  | .obtained thread => some (initThreadStruct c thread w)
  | .initialised thread => linkThread L c thread w
  | .returned _ => some w

/-- `thread_detach` of a thread that has not exited. -/
def threadDetach (thread : Addr) (w : World C) : World C :=
  { w with detached := Function.update w.detached thread true }

/-- The lists in `thread_exit`: a detached thread frees its slot, any other
    one leaves that to `thread_join`. -/
def threadExit (thread : Addr) (w : World C) : Option (World C) := do
  let mem ←
    (if w.detached thread then do
      let mem ← listDelete (threadListNode thread) w.mem
      listAddTail L.gThreadFreeList (threadListNode thread) mem
    else some w.mem)
  return { w with
    mem := mem, alive := Function.update w.alive thread false }

/-! ## Steps -/

inductive Action (C : Type) where
  | threadCreate (c : C)
  | threadDetach (thread : Addr)
  | threadExit (thread : Addr)

def exec (a : Action C) (w : World C) : Option (World C) :=
  match a with
  | .threadCreate c => ChinixThreadCreation.threadCreate L c w
  | .threadDetach thread => some (ChinixThreadCreation.threadDetach thread w)
  | .threadExit thread => ChinixThreadCreation.threadExit L thread w

/-- A call that has not returned goes on, a created thread is detached or
    exits, in any order. -/
def Enabled (a : Action C) (w : World C) : Prop :=
  match a with
  | .threadCreate c => (w.calls c).hasReturned = false
  | .threadDetach thread => w.alive thread = true
  | .threadExit thread => w.alive thread = true

instance (a : Action C) (w : World C) : Decidable (Enabled a w) := by
  cases a <;> unfold Enabled <;> infer_instance

def Step (w : World C) (a : Action C) (w' : World C) : Prop :=
  Enabled a w ∧ exec L a w = some w'

/-- The worlds that are reached from `w`. -/
abbrev Reachable (w : World C) : World C → Prop :=
  Runs.Reachable w (Step L) fun _ _ => True

/-! ## Who has a slot -/

/-- The call has taken the slot off the free list and not yet linked it in on
    `thread_list`. -/
def Call.holds (s : Call) (thread : Addr) : Prop :=
  thread ≠ null ∧ (s = .obtained thread ∨ s = .initialised thread)

/-- The lists are rings apart from each other, the calls hold different slots,
    which are on neither, and the threads that can exit are on
    `thread_list`. -/
structure Apart (w : World C) (free all : List Addr) : Prop where
  freeRing : Ring w.mem L.gThreadFreeList free
  allRing : Ring w.mem L.threadList all
  disjoint : (L.gThreadFreeList :: free).Disjoint (L.threadList :: all)
  nonnull : ∀ a, a ∈ free ∨ a ∈ all → a ≠ null
  alive : ∀ a, w.alive a = true → a ∈ all
  held : ∀ c a, (w.calls c).holds a →
    a ∉ L.gThreadFreeList :: free ∧ a ∉ L.threadList :: all
  once : ∀ c c' a, (w.calls c).holds a → (w.calls c').holds a → c' = c
  filled : ∀ c, w.calls c ≠ .initialised null

variable {L} {w w' : World C} {free all : List Addr} {c : C} {a : Addr}

/-- The calls after one of them came to `s`. -/
theorem holds_setCall {s : Call} {c' : C} :
    ((w.setCall c s).calls c').holds a ↔
      if c' = c then s.holds a else (w.calls c').holds a := by
  by_cases hc : c' = c
  · subst hc
    simp [World.setCall]
  · simp [World.setCall, hc]

theorem filled_setCall {s : Call} (h : ∀ c', w.calls c' ≠ .initialised null)
    (hf : s ≠ .initialised null) (c' : C) :
    (w.setCall c s).calls c' ≠ .initialised null := by
  by_cases hc : c' = c
  · subst hc
    simpa [World.setCall] using hf
  · simpa [World.setCall, hc] using h c'

/-- A call that comes to hold no other slot than it did. -/
theorem Apart.setCall (h : Apart L w free all) {s : Call}
    (hs : ∀ a, s.holds a → (w.calls c).holds a) (hf : s ≠ .initialised null) :
    Apart L (w.setCall c s) free all := by
  have hback : ∀ c' a, ((w.setCall c s).calls c').holds a →
      (w.calls c').holds a := by
    intro c' a hc'
    rw [holds_setCall] at hc'
    split_ifs at hc' with hcc
    · subst hcc
      exact hs a hc'
    · exact hc'
  exact ⟨h.freeRing, h.allRing, h.disjoint, h.nonnull, h.alive,
    fun c' a hc' => h.held c' a (hback c' a hc'),
    fun c' c'' a hc' hc'' => h.once c' c'' a (hback c' a hc') (hback c'' a hc''),
    filled_setCall h.filled hf⟩

/-- NULL, a result and an unfinished test are no slots. -/
theorem not_holds {s : Call} (h : s = .tested ∨ s = .obtained null ∨
    ∃ ret, s = .returned ret) : ¬ s.holds a := by
  rintro ⟨hne, rfl | rfl⟩
  · rcases h with he | he | ⟨ret, he⟩
    · cases he
    · injection he with he
      exact hne he
    · cases he
  · rcases h with he | he | ⟨ret, he⟩ <;> cases he

theorem testFreeList_apart (h : Apart L w free all) (c : C) :
    Apart L (testFreeList L c w) free all := by
  rw [testFreeList]
  split_ifs
  · exact h.setCall (fun a ha => absurd ha (not_holds (.inr (.inl rfl))))
      (by simp)
  · exact h.setCall (fun a ha => absurd ha (not_holds (.inl rfl))) (by simp)

/-- **Removal** takes the first free slot, or returns NULL and changes
    nothing. -/
theorem getFreeThreadNode_eq (h : Apart L w free all) :
    ∃ mem, getFreeThreadNode L c w = some ({ w with mem := mem }.setCall c
        (.obtained (free.head?.getD null))) ∧
      Ring mem L.gThreadFreeList free.tail ∧
      OthersKept (L.gThreadFreeList :: free) w.mem mem ∧
      (free = [] → mem = w.mem) := by
  obtain ⟨mem, hm, hring, -, hothers⟩ := ring_removeHead h.freeRing
  refine ⟨mem, ?_, hring, hothers, ?_⟩
  · rw [getFreeThreadNode, hm]
    simp
  · rintro rfl
    rw [h.freeRing.removeHead_nil] at hm
    injection hm with hm
    exact (congrArg Prod.snd hm).symm

theorem Apart.obtain {rest : List Addr} {mem : Memory Addr}
    (h : Apart L w (a :: rest) all) (hring : Ring mem L.gThreadFreeList rest)
    (hothers : OthersKept (L.gThreadFreeList :: a :: rest) w.mem mem) :
    Apart L ({ w with mem := mem }.setCall c (.obtained a)) rest all := by
  have hsub : ∀ b, b ∈ L.gThreadFreeList :: rest →
      b ∈ L.gThreadFreeList :: a :: rest := by
    intro b hb
    rcases List.mem_cons.mp hb with rfl | hb
    · exact List.mem_cons_self
    · exact List.mem_cons_of_mem _ (List.mem_cons_of_mem _ hb)
  have ha : a ∈ L.gThreadFreeList :: a :: rest :=
    List.mem_cons_of_mem _ List.mem_cons_self
  have hout : a ∉ L.gThreadFreeList :: rest := by
    have hfirst : Ring w.mem L.gThreadFreeList ([] ++ a :: rest) := h.freeRing
    have hapart := ring_apart hfirst
    rw [List.mem_cons, not_or]
    exact ⟨fun he => hapart.1 (he ▸ List.mem_cons_self), hapart.2⟩
  have hheld : ∀ c' b, (({ w with mem := mem }.setCall c
      (.obtained a)).calls c').holds b →
        c' = c ∧ b = a ∨ c' ≠ c ∧ (w.calls c').holds b := by
    intro c' b hb
    rw [holds_setCall] at hb
    split_ifs at hb with hcc
    · rcases hb with ⟨-, he | he⟩
      · injection he with he
        exact .inl ⟨hcc, he.symm⟩
      · cases he
    · exact .inr ⟨hcc, hb⟩
  refine ⟨hring, hothers.ring _ _ h.allRing (List.disjoint_comm.mp h.disjoint),
    ?_, ?_, h.alive, ?_, ?_, filled_setCall h.filled (by simp)⟩
  · exact fun b hb => h.disjoint (hsub b hb)
  · exact fun b hb => h.nonnull b (hb.imp_left (List.mem_cons_of_mem a))
  · intro c' b hb
    rcases hheld c' b hb with ⟨-, rfl⟩ | ⟨-, hb'⟩
    · exact ⟨hout, h.disjoint ha⟩
    · obtain ⟨hfree, hall⟩ := h.held c' b hb'
      exact ⟨fun hmem => hfree (hsub b hmem), hall⟩
  · intro c' c'' b hb hb'
    rcases hheld c' b hb with ⟨hc, rfl⟩ | ⟨-, hold⟩ <;>
      rcases hheld c'' b hb' with ⟨hc', he⟩ | ⟨-, hold'⟩
    · rw [hc, hc']
    · exact absurd ha (h.held c'' b hold').1
    · subst he
      exact absurd ha (h.held c' b hold).1
    · exact h.once c' c'' b hold hold'

theorem getFreeThreadNode_apart (h : Apart L w free all)
    (hx : getFreeThreadNode L c w = some w') :
    Apart L w' free.tail all := by
  obtain ⟨mem, hm, hring, hothers, hsame⟩ := getFreeThreadNode_eq (c := c) h
  rw [hm] at hx
  cases hx
  cases free with
  | nil =>
      rw [hsame rfl]
      exact h.setCall (fun a ha => absurd ha (not_holds (.inr (.inl rfl))))
        (by simp)
  | cons a rest => exact h.obtain hring hothers

/-- **Filling in** writes the links of a slot that is on no list. -/
theorem initThreadStruct_apart (h : Apart L w free all)
    (hc : w.calls c = .obtained a) :
    Apart L (initThreadStruct c a w) free all := by
  rw [initThreadStruct]
  split_ifs with hnull
  · exact h.setCall
      (fun b hb => absurd hb (not_holds (.inr (.inr ⟨_, rfl⟩)))) (by simp)
  · obtain ⟨hfree, hall⟩ := h.held c a (by rw [hc]; exact ⟨hnull, .inl rfl⟩)
    have hkept : ∀ b, b ≠ a → setNext (setPrev w.mem (threadListNode a) none)
        (threadListNode a) none b = w.mem b := by
      intro b hb
      rw [threadListNode_eq, setNext_of_ne _ _ hb, setPrev_of_ne _ _ hb]
    have hinit : Apart L
        { w with
          mem := setNext (setPrev w.mem (threadListNode a) none)
            (threadListNode a) none
          detached := Function.update w.detached a false } free all :=
      ⟨h.freeRing.congr fun b hb => hkept b fun he => hfree (he ▸ hb),
        h.allRing.congr fun b hb => hkept b fun he => hall (he ▸ hb),
        h.disjoint, h.nonnull, h.alive, h.held, h.once, h.filled⟩
    refine hinit.setCall (fun b hb => ?_) (by simpa using hnull)
    rcases hb with ⟨hne, he | he⟩
    · cases he
    · injection he with he
      rw [hc, ← he]
      exact ⟨hnull, .inl rfl⟩

/-- **Linking in** puts the slot that the call holds on `thread_list`. -/
theorem linkThread_apart (h : Apart L w free all)
    (hc : w.calls c = .initialised a) :
    ∃ w', linkThread L c a w = some w' ∧ Apart L w' free (all ++ [a]) := by
  have hnull : a ≠ null := by
    rintro rfl
    exact h.filled c hc
  have hholds : (w.calls c).holds a := by
    rw [hc]
    exact ⟨hnull, .inr rfl⟩
  obtain ⟨hfree, hall⟩ := h.held c a hholds
  obtain ⟨mem, hm, hring, hothers⟩ := ring_addTail h.allRing hall
  have hother : ∀ c' b, (({ w with
      mem := mem, alive := Function.update w.alive a true }.setCall c
        (.returned (threadPtrToId L a))).calls c').holds b →
      c' ≠ c ∧ (w.calls c').holds b := by
    intro c' b hb
    rw [holds_setCall] at hb
    split_ifs at hb with hcc
    · exact absurd hb (not_holds (.inr (.inr ⟨_, rfl⟩)))
    · exact ⟨hcc, hb⟩
  have hx : linkThread L c a w = some ({ w with
      mem := mem, alive := Function.update w.alive a true }.setCall c
        (.returned (threadPtrToId L a))) := by
    rw [linkThread, threadListNode_eq, hm]
    rfl
  refine ⟨_, hx, ?_, hring, ?_, ?_, ?_, ?_, ?_,
    filled_setCall h.filled (by simp)⟩
  · refine hothers.ring _ _ h.freeRing ?_
    rw [List.disjoint_cons_right]
    exact ⟨hfree, h.disjoint⟩
  · rw [← List.cons_append, List.disjoint_append_right]
    exact ⟨h.disjoint, List.disjoint_singleton.mpr hfree⟩
  · rintro b (hb | hb)
    · exact h.nonnull b (.inl hb)
    · rcases List.mem_append.mp hb with hb | hb
      · exact h.nonnull b (.inr hb)
      · rwa [List.mem_singleton.mp hb]
  · intro b hb
    by_cases hba : b = a
    · subst hba
      exact List.mem_append_right _ (List.mem_singleton.mpr rfl)
    · refine List.mem_append_left _ (h.alive b ?_)
      simpa [World.setCall, hba] using hb
  · intro c' b hb
    obtain ⟨hne, hold⟩ := hother c' b hb
    obtain ⟨hfree', hall'⟩ := h.held c' b hold
    refine ⟨hfree', ?_⟩
    rw [← List.cons_append, List.mem_append, not_or, List.mem_singleton]
    refine ⟨hall', ?_⟩
    rintro rfl
    exact hne (h.once c c' b hholds hold)
  · intro c' c'' b hb hb'
    exact h.once c' c'' b (hother c' b hb).2 (hother c'' b hb').2

omit [DecidableEq C] in
/-- A slot that goes from `thread_list` to the free list. -/
theorem Apart.release {ys zs : List Addr} {mem : Memory Addr}
    (h : Apart L w free (ys ++ a :: zs))
    (hring : Ring mem L.gThreadFreeList (free ++ [a]))
    (hring' : Ring mem L.threadList (ys ++ zs)) :
    Apart L
      { w with mem := mem, alive := Function.update w.alive a false }
      (free ++ [a]) (ys ++ zs) := by
  have hmem : a ∈ ys ++ a :: zs := List.mem_append_right _ List.mem_cons_self
  have hsub : ∀ b, b ∈ L.threadList :: (ys ++ zs) →
      b ∈ L.threadList :: (ys ++ a :: zs) := by
    intro b hb
    simp only [List.mem_cons, List.mem_append] at hb ⊢
    tauto
  have hout : a ∉ L.threadList :: (ys ++ zs) := by
    have hapart := ring_apart h.allRing
    simp only [List.mem_cons, List.mem_append] at hapart ⊢
    tauto
  refine ⟨hring, hring', ?_, ?_, ?_, ?_, h.once, h.filled⟩
  · rw [← List.cons_append, List.disjoint_append_left]
    exact ⟨fun b hb hb' => h.disjoint hb (hsub b hb'),
      List.singleton_disjoint.mpr hout⟩
  · rintro b (hb | hb)
    · rcases List.mem_append.mp hb with hb | hb
      · exact h.nonnull b (.inl hb)
      · rw [List.mem_singleton.mp hb]
        exact h.nonnull a (.inr hmem)
    · refine h.nonnull b (.inr ?_)
      simp only [List.mem_append, List.mem_cons] at hb ⊢
      tauto
  · intro b hb
    by_cases hba : b = a
    · subst hba
      simp at hb
    · have hold := h.alive b (by simpa [hba] using hb)
      simp only [List.mem_append, List.mem_cons] at hold ⊢
      tauto
  · intro c' b hb
    obtain ⟨hf, hall⟩ := h.held c' b hb
    refine ⟨?_, fun hb' => hall (hsub b hb')⟩
    rw [← List.cons_append, List.mem_append, not_or, List.mem_singleton]
    refine ⟨hf, ?_⟩
    rintro rfl
    exact hall (List.mem_cons_of_mem _ hmem)

omit [DecidableEq C] in
/-- **Exit** frees the slot of a detached thread and leaves that of another
    one where it is. -/
theorem threadExit_apart (h : Apart L w free all) (ha : w.alive a = true) :
    ∃ w', threadExit L a w = some w' ∧ ∃ free' all', Apart L w' free' all' := by
  have hmem := h.alive a ha
  rw [threadExit, threadListNode_eq]
  by_cases hdet : w.detached a = true
  · obtain ⟨ys, zs, rfl⟩ := List.append_of_mem hmem
    obtain ⟨m1, hm1, hring1, -, hothers1⟩ := ring_delete h.allRing
    have hfree1 := hothers1.ring _ _ h.freeRing h.disjoint
    have hout : a ∉ L.gThreadFreeList :: free := fun hf =>
      h.disjoint hf (List.mem_cons_of_mem _ hmem)
    obtain ⟨m2, hm2, hring2, hothers2⟩ := ring_addTail hfree1 hout
    have hall2 : Ring m2 L.threadList (ys ++ zs) := by
      refine hothers2.ring _ _ hring1 fun b hb hb' => ?_
      have hapart := ring_apart h.allRing
      rcases List.mem_cons.mp hb' with rfl | hf
      · simp only [List.mem_cons, List.mem_append] at hapart hb
        tauto
      · refine h.disjoint hf ?_
        simp only [List.mem_cons, List.mem_append] at hb ⊢
        tauto
    rw [if_pos hdet, hm1]
    simp only [Option.bind_eq_bind, Option.bind_some, hm2]
    exact ⟨_, rfl, _, _, h.release hring2 hall2⟩
  · rw [if_neg hdet]
    refine ⟨_, rfl, free, all, h.freeRing, h.allRing, h.disjoint, h.nonnull,
      fun b hb => ?_, h.held, h.once, h.filled⟩
    by_cases hba : b = a
    · subst hba
      exact hmem
    · exact h.alive b (by simpa [hba] using hb)

/-! ## Every interleaving -/

/-- **Every step** that can be taken uses no NULL pointer and keeps the lists
    and the calls apart. -/
theorem exec_apart (h : Apart L w free all) {act : Action C}
    (hen : Enabled act w) :
    ∃ w', exec L act w = some w' ∧ ∃ free' all', Apart L w' free' all' := by
  cases act with
  | threadCreate c =>
      rw [exec, threadCreate]
      cases hc : w.calls c with
      | entered => exact ⟨_, rfl, _, _, testFreeList_apart h c⟩
      | tested =>
          obtain ⟨mem, hm, -⟩ := getFreeThreadNode_eq (c := c) h
          exact ⟨_, hm, _, _, getFreeThreadNode_apart h hm⟩
      | obtained thread =>
          exact ⟨_, rfl, _, _, initThreadStruct_apart h hc⟩
      | initialised thread =>
          obtain ⟨w', hx, hw'⟩ := linkThread_apart h hc
          exact ⟨w', hx, _, _, hw'⟩
      | returned ret =>
          rw [Enabled, hc] at hen
          cases hen
  | threadDetach thread =>
      exact ⟨_, rfl, free, all, h.freeRing, h.allRing, h.disjoint, h.nonnull,
        h.alive, h.held, h.once, h.filled⟩
  | threadExit thread => exact threadExit_apart h hen

theorem exists_apart {w0 : World C} (h0 : Apart L w0 free all)
    (h : Reachable L w0 w) : ∃ free all, Apart L w free all := by
  refine Runs.Reachable.invariant (I := fun w => ∃ free all,
    Apart L w free all) ⟨free, all, h0⟩ ?_ h
  rintro w1 act w2 ⟨free1, all1, h1⟩ - ⟨hen, hx⟩
  obtain ⟨w', hx', hw'⟩ := exec_apart h1 hen
  rw [hx] at hx'
  cases hx'
  exact hw'

/-- A step goes on with its own call only. -/
theorem calls_of_exec {act : Action C} (hx : exec L act w = some w')
    (hc : act ≠ .threadCreate c) : w'.calls c = w.calls c := by
  have hset : ∀ (w1 : World C) (c' : C) (s : Call), w1.calls = w.calls →
      c ≠ c' → (w1.setCall c' s).calls c = w.calls c := by
    intro w1 c' s hw1 hne
    rw [World.setCall, hw1]
    exact Function.update_of_ne hne _ _
  cases act with
  | threadCreate c' =>
      have hne : c ≠ c' := fun he => hc (he ▸ rfl)
      rw [exec, threadCreate] at hx
      cases hs : w.calls c' with
      | entered =>
          rw [hs] at hx
          cases hx
          rw [testFreeList]
          split_ifs <;> exact hset _ _ _ rfl hne
      | tested =>
          rw [hs] at hx
          simp only [getFreeThreadNode, Option.bind_eq_bind,
            Option.bind_eq_some_iff] at hx
          obtain ⟨r, -, hx⟩ := hx
          cases hx
          exact hset _ _ _ rfl hne
      | obtained thread =>
          rw [hs] at hx
          cases hx
          rw [initThreadStruct]
          split_ifs <;> exact hset _ _ _ rfl hne
      | initialised thread =>
          rw [hs] at hx
          simp only [linkThread, Option.bind_eq_bind,
            Option.bind_eq_some_iff] at hx
          obtain ⟨mem, -, hx⟩ := hx
          cases hx
          exact hset _ _ _ rfl hne
      | returned ret =>
          rw [hs] at hx
          cases hx
          rfl
  | threadDetach thread =>
      cases hx
      rfl
  | threadExit thread =>
      simp only [exec, ChinixThreadCreation.threadExit, Option.bind_eq_bind,
        Option.bind_eq_some_iff] at hx
      obtain ⟨mem, -, hx⟩ := hx
      cases hx
      rfl

/-- The next step of the call writes nothing, and after it, whatever happens
    in between, all that the call does is to return -1. -/
def FailsCleanly (L : Layout) (c : C) (w : World C) : Prop :=
  ∃ w1, exec L (.threadCreate c) w = some w1 ∧ w1.mem = w.mem ∧
    ∀ w2, Reachable L w1 w2 →
      w2.calls c = .returned (-1) ∨
        w2.calls c = .obtained null ∧
          exec L (.threadCreate c) w2 =
            some (w2.setCall c (.returned (-1)))

theorem exec_obtained_null (hc : w.calls c = .obtained null) :
    exec L (.threadCreate c) w = some (w.setCall c (.returned (-1))) := by
  rw [exec, threadCreate, hc]
  dsimp only
  rw [initThreadStruct, if_pos rfl]

/-- **An exhausted pool** at removal time. -/
theorem failsCleanly (h : Apart L w free all) (hc : w.calls c = .tested)
    (hempty : listIsEmpty L.gThreadFreeList w.mem = true) :
    FailsCleanly L c w := by
  rw [ring_isEmpty h.freeRing, List.isEmpty_iff] at hempty
  subst hempty
  obtain ⟨mem, hm, -, -, hsame⟩ := getFreeThreadNode_eq (c := c) h
  have hfail : ∀ w2, Reachable L ({ w with mem := mem }.setCall c
      (.obtained null)) w2 →
        w2.calls c = .returned (-1) ∨ w2.calls c = .obtained null := by
    intro w2 h2
    refine Runs.Reachable.invariant
      (I := fun w2 => w2.calls c = .returned (-1) ∨
        w2.calls c = .obtained null) ?_ ?_ h2
    · exact .inr (Function.update_self _ _ _)
    · rintro w3 act w4 h3 - ⟨hen, hx⟩
      by_cases hact : act = .threadCreate c
      · subst hact
        rcases h3 with hret | hnull
        · rw [Enabled, hret] at hen
          cases hen
        · rw [exec_obtained_null hnull] at hx
          cases hx
          exact .inl (Function.update_self _ _ _)
      · rwa [calls_of_exec hx hact]
  refine ⟨{ w with mem := mem }.setCall c (.obtained null), ?_, hsame rfl,
    fun w2 h2 => ?_⟩
  · rw [exec, threadCreate, hc]
    exact hm
  · exact (hfail w2 h2).imp_right fun hnull =>
      ⟨hnull, exec_obtained_null hnull⟩

/-- The world before the first call: the slots `free` are free, those of
    `all` belong to threads, and no call has begun. -/
structure Start (L : Layout) (w : World C) (free all : List Addr) : Prop where
  freeRing : Ring w.mem L.gThreadFreeList free
  allRing : Ring w.mem L.threadList all
  disjoint : (L.gThreadFreeList :: free).Disjoint (L.threadList :: all)
  nonnull : ∀ a, a ∈ free ∨ a ∈ all → a ≠ null
  alive : ∀ a, w.alive a = true → a ∈ all
  entered : ∀ c, w.calls c = .entered

omit [DecidableEq C] in
theorem Start.apart (h : Start L w free all) : Apart L w free all := by
  have hnone : ∀ c a, ¬ (w.calls c).holds a := by
    rintro c a ⟨-, he | he⟩ <;> cases (h.entered c).symm.trans he
  refine ⟨h.freeRing, h.allRing, h.disjoint, h.nonnull, h.alive,
    fun c a ha => absurd ha (hnone c a),
    fun c _ a ha => absurd ha (hnone c a), fun c hc => ?_⟩
  cases (h.entered c).symm.trans hc

/-- **Any number of calls in any order**: the slots that the calls hold are
    different ones and on no list, no slot is on both lists, no step uses a
    NULL pointer, and a call that finds the free list empty when it has the
    lock returns -1 and changes neither list. -/
theorem threadCreate_apart {w0 : World C} (h0 : Start L w0 free all)
    (h : Reachable L w0 w) :
    (∃ free all, Apart L w free all) ∧
      (∀ act, Enabled act w → ∃ w', exec L act w = some w') ∧
      ∀ c, w.calls c = .tested →
        listIsEmpty L.gThreadFreeList w.mem = true → FailsCleanly L c w := by
  obtain ⟨free, all, hw⟩ := exists_apart h0.apart h
  refine ⟨⟨free, all, hw⟩, fun act hen => ?_, fun c hc hempty =>
    failsCleanly hw hc hempty⟩
  obtain ⟨w', hx, -⟩ := exec_apart hw hen
  exact ⟨w', hx⟩

/-! ## Boot -/

/-- The lists of `thread_init_early`, made in cleared memory. -/
def threadInitEarly (L : Layout) (slots : List Addr) (idle : Addr) :
    Option (Memory Addr) := do
  let mem := listInitialize L.threadList fun _ => ⟨none, none⟩
  let mem := listInitialize L.gThreadFreeList mem
  let mem ← slots.foldlM
    (fun mem thread =>
      listAddTail L.gThreadFreeList (threadListNode thread) mem) mem
  listAddHead L.threadList (threadListNode idle) mem

/-- The calls begin after boot, when there is the idle thread only. -/
def boot (mem : Memory Addr) (idle : Addr) : World C where
  mem := mem
  detached := fun thread => thread = idle
  calls := fun _ => .entered
  alive := fun thread => thread = idle

theorem ring_foldlM_addTail {head : Addr} {slots : List Addr} :
    ∀ {xs : List Addr} {mem : Memory Addr}, Ring mem head xs →
      (head :: (xs ++ slots)).Nodup →
      ∃ mem', slots.foldlM
          (fun mem thread => listAddTail head (threadListNode thread) mem) mem
            = some mem' ∧
        Ring mem' head (xs ++ slots) ∧
        ∀ a, a ∉ head :: (xs ++ slots) → mem' a = mem a := by
  induction slots with
  | nil =>
      intro xs mem h _
      exact ⟨mem, rfl, by rwa [List.append_nil], fun _ _ => rfl⟩
  | cons a slots ih =>
      intro xs mem h hnodup
      have ha : a ∉ head :: xs := by
        rw [← List.cons_append, List.nodup_append] at hnodup
        exact fun hmem => hnodup.2.2 a hmem a List.mem_cons_self rfl
      obtain ⟨m1, hm1, hring1, hothers1⟩ := ring_addTail h ha
      have hsame : (xs ++ [a]) ++ slots = xs ++ a :: slots := by
        rw [List.append_assoc, List.singleton_append]
      obtain ⟨m2, hm2, hring2, hframe2⟩ := ih hring1 (by rwa [hsame])
      rw [hsame] at hring2 hframe2
      refine ⟨m2, ?_, hring2, fun b hb => ?_⟩
      · rw [List.foldlM_cons, threadListNode_eq, hm1]
        exact hm2
      · rw [hframe2 b hb, hothers1.node b]
        simp only [List.mem_cons, List.mem_append] at hb ⊢
        tauto

omit [DecidableEq C] in
/-- **Boot** leaves the world in which calls begin. -/
theorem threadInitEarly_start {slots : List Addr} {idle : Addr}
    (hnodup : (L.gThreadFreeList :: slots ++ [L.threadList, idle]).Nodup)
    (hnull : ∀ a ∈ idle :: slots, a ≠ null) :
    ∃ mem, threadInitEarly L slots idle = some mem ∧
      Start L (boot mem idle : World C) slots [idle] := by
  rw [List.nodup_append] at hnodup
  obtain ⟨hfree, hall, hapart⟩ := hnodup
  have hne : L.threadList ≠ L.gThreadFreeList := fun he =>
    hapart _ List.mem_cons_self _ List.mem_cons_self he.symm
  have hring0 := ring_initialized L.threadList fun _ => ⟨none, none⟩
  have hring1 : Ring (listInitialize L.gThreadFreeList
      (listInitialize L.threadList fun _ => ⟨none, none⟩)) L.threadList [] := by
    refine hring0.congr fun a ha => ?_
    rw [List.mem_singleton.mp ha, listInitialize, setPrev_of_ne _ _ hne,
      setNext_of_ne _ _ hne]
  have hslots : (L.gThreadFreeList :: ([] ++ slots)).Nodup := hfree
  obtain ⟨m1, hm1, hfree1, hframe1⟩ := ring_foldlM_addTail
    (ring_initialized L.gThreadFreeList
      (listInitialize L.threadList fun _ => ⟨none, none⟩)) hslots
  have hring2 : Ring m1 L.threadList [] := by
    refine hring1.congr fun a ha => hframe1 a fun hmem => ?_
    rw [List.mem_singleton.mp ha] at hmem
    exact hapart _ hmem _ List.mem_cons_self rfl
  have hidle : idle ∉ [L.threadList] := by
    intro hmem
    rw [List.mem_singleton.mp hmem] at hall
    simp at hall
  obtain ⟨m2, hm2, hall2, hothers2⟩ := ring_addTail hring2 hidle
  refine ⟨m2, ?_, ?_, hall2, ?_, ?_, ?_, fun _ => rfl⟩
  · rw [threadInitEarly, hm1, Option.bind_eq_bind, Option.bind_some,
      listAddHead_eq_listAddTail, threadListNode_eq]
    exact hm2
  · refine hothers2.ring _ _ hfree1 fun a ha ha' => hapart a ha a ?_ rfl
    simp only [List.mem_cons] at ha' ⊢
    tauto
  · intro a ha ha'
    exact hapart a ha a ha' rfl
  · rintro a (ha | ha)
    · exact hnull a (List.mem_cons_of_mem _ ha)
    · exact hnull a (List.mem_cons.mpr (.inl (List.mem_singleton.mp ha)))
  · intro a ha
    exact List.mem_singleton.mpr (of_decide_eq_true ha)

/-- One slot besides the one of the idle thread. -/
def oneSlot : Layout := ⟨0x1000, 0x2000, 0x3000, 0x100⟩

/-- Two calls pass the test, then one of them takes the slot. -/
def testTestRemove : List (Action Bool) :=
  [.threadCreate true, .threadCreate false, .threadCreate true]

/-- The call that took it holds it, the other one finds the list empty. -/
def OneLeftOut (w : World Bool) : Prop :=
  w.calls true = .obtained 0x3100 ∧ w.calls false = .tested ∧
    listIsEmpty oneSlot.gThreadFreeList w.mem = true

instance (w : World Bool) : Decidable (OneLeftOut w) :=
  inferInstanceAs (Decidable (_ ∧ _ ∧ _))

theorem threadCreate_apart_testTestRemove :
    ∃ w0 w : World Bool, Start oneSlot w0 [0x3100] [0x3000] ∧
      Reachable oneSlot w0 w ∧ OneLeftOut w ∧
      (∃ free all, Apart oneSlot w free all) ∧
      FailsCleanly oneSlot false w := by
  obtain ⟨mem, hmem, hstart⟩ : ∃ mem,
      threadInitEarly oneSlot [0x3100] 0x3000 = some mem ∧
        Start oneSlot (boot mem 0x3000 : World Bool) [0x3100] [0x3000] :=
    threadInitEarly_start (by simp [oneSlot]) (by simp [null])
  have hrun : (threadInitEarly oneSlot [0x3100] 0x3000).any (fun mem =>
      (Runs.replay (fun (w : World Bool) act =>
          if Enabled act w then exec oneSlot act w else none)
        (fun _ _ => True) testTestRemove (boot mem 0x3000)).any
          (fun w => OneLeftOut w)) = true := by
    decide +kernel
  rw [hmem, Option.any_some, Option.any_eq_true] at hrun
  obtain ⟨w, hw, hp⟩ := hrun
  have hleft := of_decide_eq_true hp
  have hreach : Reachable oneSlot (boot mem 0x3000) w := by
    refine Runs.reachable_of_replay ?_ .start hw
    intro w1 act w2 hx
    split_ifs at hx with hen
    exact ⟨hen, hx⟩
  obtain ⟨hapart, -, hfails⟩ := threadCreate_apart hstart hreach
  exact ⟨_, w, hstart, hreach, hleft, hapart,
    hfails false hleft.2.1 hleft.2.2⟩

end ChinixThreadCreation

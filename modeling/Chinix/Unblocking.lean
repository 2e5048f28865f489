import Chinix.RunQueueGrowth
import Chinix.ListSequences

/-! # `thread_unblock` and the wait queues

    `thread_unblock` makes a BLOCKED thread READY and links its `queue_node`
    in on the run queue.  A thread that blocked in `wait_queue_block` is still
    on the list of that wait queue then: `thread_unblock` does not take it
    off, as `thread_unblock_from_wait_queue` does.  With assertions compiled
    in it stops at `!list_in_list(&thread->queue_node)`; without them the list
    of the wait queue runs into the run queue. -/

namespace ChinixUnblocking

open ChinixTimerQueue ChinixPlatformTimer ChinixKernel ChinixRunQueue
open ChinixWaitQueue ChinixThread ChinixMachine Outcome
open ChinixQueueInvariant ChinixQueueRuns ChinixRunQueueGrowth
open ChinixListSequences

variable {cfg : Config} {k k' : Kernel} {t : Tid} {resched : Bool}

/-- The run queue of a thread. -/
def runQueueOf (k : Kernel) (t : Tid) : QueueRef :=
  .run (k.threads t).priority.toNat

/-- From `k` to `k'` the thread has gone to its run queue and to no other
    list, or has the CPU if `thread_unblock` was told to reschedule; the wait
    queues have their other waiters, in order, and count them. -/
structure OnRunQueueOnly (k k' : Kernel) (t : Tid) (resched : Bool) : Prop
    where
  queued : k'.queues.link t = some (runQueueOf k t) ∨
    resched = true ∧ k'.current = t ∧ k'.queues.link t = none
  waiters : ∀ q, k'.waitList q = (k.waitList q).erase t
  count : ∀ q, k'.waitCount q = (k'.waitList q).length

/-- `thread_unblock` returns, or gives up the CPU, in such a state. -/
def Unblocks (cfg : Config) (k : Kernel) (t : Tid) (resched : Bool) : Prop :=
  ∃ k', threadUnblock cfg t resched k = .ok k' ∧
    OnRunQueueOnly k k' t resched

/-- The same of the pointers that the four writes of `list_add_head` leave
    in `mem`, when nothing is asserted before them. -/
def RelinksIn (k : Kernel) (t : Tid)
    (mem : ChinixCircularList.Memory
      (ChinixCircularList.Address QueueRef Tid)) : Prop :=
  ∃ mem', ChinixCircularList.listAddHead (.head (runQueueOf k t)) (.node t) mem
      = some mem' ∧
    ChinixCircularList.Ring mem' (.head (runQueueOf k t))
      (((k.queues.items (runQueueOf k t)).erase t ++ [t]).map .node) ∧
    ∀ q, ChinixCircularList.Ring mem' (.head (.wait q))
      (((k.waitList q).erase t).map .node)

/-! ## The call -/

/-- What `thread_unblock` does before it reschedules. -/
def unblocked (k : Kernel) (t : Tid) : Kernel :=
  enqueue (k.setState t .ready) t

theorem threadUnblock_eq (hid : cfg.ValidId t)
    (hl : k.queues.link t = none)
    (hp : PriorityOk (k.threads t).priority) (resched : Bool) :
    threadUnblock cfg t resched k = .ok
      (if resched then threadResched ((unblocked k t).pushFrame k.current
        (.afterResched .unblock 0)) else unblocked k t) := by
  have hp' : PriorityOk ((k.setState t .ready).threads t).priority := by
    simpa using hp
  have hl' : (k.setState t .ready).queues.link t = none := hl
  rw [threadUnblock, threadIdToPtr_eq hid, ok_bind,
    insertInRunQueueHead_eq_tail, insertInRunQueueTail_eq hl' hp', ok_bind]
  rfl

/-- A thread that is on a list is not linked in. -/
theorem threadUnblock_linked {ref : QueueRef}
    (hl : k.queues.link t = some ref) :
    threadUnblock cfg t resched k ≠ .ok k' := by
  intro hx
  rw [threadUnblock, bind_eq_ok] at hx
  obtain ⟨u, hu, hx⟩ := hx
  have hut : u = t := by
    have := (threadIdToPtr_holds (b := False) t).of_ok hu
    simpa using this
  subst hut
  rw [insertInRunQueueHead_eq_tail, bind_eq_ok] at hx
  obtain ⟨k1, hins, -⟩ := hx
  obtain ⟨hnone, -, -⟩ := (insertInRunQueueTail_spec _ _).of_ok hins
  cases hnone.symm.trans hl

theorem unblocked_queues (hl : k.queues.link t = none) :
    (unblocked k t).queues.link t = some (runQueueOf k t) ∧
      ∀ q, (unblocked k t).waitList q = k.waitList q := by
  have hl' : (k.setState t .ready).queues.link t = none := hl
  refine ⟨?_, fun q => waitList_enqueue hl' q⟩
  rw [unblocked, enqueue_queues, NodeLists.link_addTail _ _ _ hl',
    Function.update_self]
  simp [runQueueOf]

/-- `thread_resched` takes a thread off a run queue only for the CPU, and
    leaves the wait queues alone. -/
theorem threadResched_queues (hb : BitmapOk k) :
    ((threadResched k).queues.link t = k.queues.link t ∨
      (threadResched k).current = t ∧
        (threadResched k).queues.link t = none) ∧
      ∀ q, (threadResched k).waitList q = k.waitList q := by
  rw [threadResched_eq]
  rcases getNewThread_cases hb with ⟨-, hg⟩ | ⟨q, u, us, -, hcons, -, hg⟩
  · rw [hg]
    exact ⟨.inl rfl, fun _ => rfl⟩
  · rw [hg]
    refine ⟨?_, fun w => ?_⟩
    · by_cases htu : t = u
      · subst htu
        exact .inr ⟨rfl, Function.update_self _ _ _⟩
      · exact .inl (Function.update_of_ne htu _ _)
    · refine k.queues.items_delete_of_ne ?_
      rw [k.queues.link_of_items_cons hcons]
      simp

/-- A thread on no list is on no wait queue. -/
theorem erase_waitList (hl : k.queues.link t = none) (q : WaitQueueRef) :
    (k.waitList q).erase t = k.waitList q := by
  refine List.erase_of_not_mem ?_
  rw [Kernel.waitList, k.queues.mem_items, hl]
  simp

/-- **A thread that `thread_block` blocked** is on its run queue afterwards,
    and on no other list. -/
theorem unblocks_of_unlinked (h : QueueInv False k) (hid : Issued cfg k t)
    (hl : k.queues.link t = none)
    (hp : PriorityOk (k.threads t).priority) : Unblocks cfg k t resched := by
  have hp' : PriorityOk ((k.setState t .ready).threads t).priority := by
    simpa using hp
  obtain ⟨hqueued, hwait⟩ := unblocked_queues hl
  refine ⟨_, threadUnblock_eq hid.1 hl hp resched, ?_⟩
  cases resched with
  | false =>
      refine ⟨.inl hqueued, fun q => ?_, fun q => ?_⟩
      · rw [erase_waitList hl]
        exact hwait q
      · rw [if_neg Bool.false_ne_true, hwait q]
        exact h.count q
  | true =>
      have hinv : QueueInv False (unblocked k t) :=
        (h.setState .ready).enqueue hl hp' (Issued.ne_idle hid)
      obtain ⟨hlink, hsame⟩ := threadResched_queues (t := t)
        (k := (unblocked k t).pushFrame k.current (.afterResched .unblock 0))
        hinv.bitmap
      have hcount : ∀ q, (threadResched ((unblocked k t).pushFrame k.current
          (.afterResched .unblock 0))).waitCount q = k.waitCount q := by
        intro q
        rw [threadResched_eq]
        rfl
      rw [if_pos rfl]
      refine ⟨?_, fun q => ?_, fun q => ?_⟩
      · rcases hlink with hkept | ⟨hc, hnone⟩
        · exact .inl (hkept.trans hqueued)
        · exact .inr ⟨rfl, hc, hnone⟩
      · rw [erase_waitList hl, hsame q]
        exact hwait q
      · have hlist : ((unblocked k t).pushFrame k.current
            (.afterResched .unblock 0)).waitList q = k.waitList q := hwait q
        rw [hcount q, hsame q, hlist]
        exact h.count q

/-! ## The writes -/

section Memory

open ChinixCircularList

variable {mem : Memory (Address QueueRef Tid)}

theorem relinksIn_of_unlinked (hr : Represents mem k.queues)
    (hl : k.queues.link t = none) : RelinksIn k t mem := by
  obtain ⟨mem', hadd, hring⟩ := hr.addTail (h := runQueueOf k t) hl
  have hitems := k.queues.items_addTail (runQueueOf k t) t hl
  refine ⟨mem', hadd, ?_, fun q => ?_⟩
  · have hrun := hring.ring (runQueueOf k t)
    rw [hitems, Function.update_self] at hrun
    rwa [List.erase_of_not_mem]
    rw [k.queues.mem_items, hl]
    simp
  · have hwait := hring.ring (.wait q)
    rw [hitems, Function.update_of_ne (by simp [runQueueOf])] at hwait
    rw [erase_waitList hl]
    exact hwait

/-- **A linked thread**: its neighbour still points at it, on a wait queue or
    on the run queue itself. -/
theorem not_relinksIn (h : QueueInv False k) (hr : Represents mem k.queues)
    {ref : QueueRef} (hl : k.queues.link t = some ref) :
    ¬ RelinksIn k t mem := by
  rintro ⟨mem', hadd, hrun, hwait⟩
  rw [listAddHead_eq_listAddTail] at hadd
  obtain ⟨ys, zs, hsplit⟩ :=
    List.append_of_mem ((k.queues.mem_items ref t).mpr hl)
  have herase : (k.queues.items ref).erase t = ys ++ zs := by
    have hnodup := k.queues.nodup ref
    rw [hsplit] at hnodup ⊢
    have hnot : t ∉ ys := fun hmem =>
      (List.nodup_append.mp hnodup).2.2 t hmem t List.mem_cons_self rfl
    rw [List.erase_append_right _ hnot, List.erase_cons_head]
  have hring := hr.ring ref
  rw [hsplit, List.map_append, List.map_cons] at hring
  cases ref with
  | wait q =>
      have hgone := hwait q
      rw [Kernel.waitList, herase, List.map_append] at hgone
      exact not_ring_of_addTail hring hadd hgone
  | run p =>
      have href : runQueueOf k t = .run p := by
        rw [runQueueOf, (h.run t p hl).1, Int.toNat_natCast]
      rw [href] at hadd hrun
      rw [herase, List.append_assoc, List.map_append, List.map_append] at hrun
      exact not_ring_of_addTail_again hring hadd hrun

end Memory

/-! ## Every run -/

/-- Thread 1 blocks by a call, thread 2 runs. -/
def firstBlocks (call : Action) : List Action :=
  [.threadCreate 5, .goOn, .goOn, .goOn, .threadResume 1 true,
   .threadCreate 5, .goOn, .goOn, .goOn, .threadResume 2 true,
   .threadBecomeIdle, .goOn, .goOn, call, .goOn]

end ChinixUnblocking

import Chinix.Kernel
import Chinix.Outcome
import Mathlib.Tactic.SplitIfs

/-! # Run queues and the scheduler (kernel/thread.c)

    `insert_in_run_queue_*`, `get_new_thread`, `thread_resched` and the calls
    that do little more than give up the CPU.

    A function that calls `thread_resched` leaves the rest of its body on
    `frames` and ends there: the rest runs when its thread is current again,
    at once if `thread_resched` chose the same thread. -/

namespace ChinixRunQueue

open ChinixTimerQueue ChinixPlatformTimer ChinixKernel

/-! ## Lists of `queue_node` -/

/-- `list_add_tail`. -/
def listAddTail (h : QueueRef) (t : Tid) (k : Kernel) : Except Fault Kernel :=
  match k.queues.link t with
  | none => .ok { k with queues := k.queues.addTail h t }
  | some _ => .error (.linkedTwice t)

/-- `list_add_head`: list.h gives it the body of `list_add_tail`, so the node
    is linked before the head, at the end of the list. -/
def listAddHead (h : QueueRef) (t : Tid) (k : Kernel) : Except Fault Kernel :=
  listAddTail h t k

/-- `list_delete`. -/
def listDelete (t : Tid) (k : Kernel) : Except Fault Kernel :=
  match k.queues.link t with
  | none => .error (.notLinked t)
  | some _ => .ok { k with queues := k.queues.delete t }

/-- `list_remove_head`. -/
def listRemoveHead (h : QueueRef) (k : Kernel) : Option Tid × Kernel :=
  match k.queues.items h with
  | [] => (none, k)
  | t :: _ => (some t, { k with queues := k.queues.delete t })

/-! ## Run queues -/

/-- An index that `run_queue` has a list for. -/
def PriorityOk (p : Int) : Prop := 0 ≤ p ∧ p < numPriority

instance (p : Int) : Decidable (PriorityOk p) :=
  inferInstanceAs (Decidable (_ ∧ _))

/-- `insert_in_run_queue_tail`. -/
def insertInRunQueueTail (t : Tid) (k : Kernel) : Except Fault Kernel :=
  let p := (k.threads t).priority
  if PriorityOk p then do
    let k ← listAddTail (.run p.toNat) t k
    return { k with
      runQueueBitmap := k.runQueueBitmap ||| (1#32 <<< p.toNat) }
  else .error (.runQueueIndex p)

/-- `insert_in_run_queue_head`. -/
def insertInRunQueueHead (t : Tid) (k : Kernel) : Except Fault Kernel :=
  let p := (k.threads t).priority
  if PriorityOk p then do
    let k ← listAddHead (.run p.toNat) t k
    return { k with
      runQueueBitmap := k.runQueueBitmap ||| (1#32 <<< p.toNat) }
  else .error (.runQueueIndex p)

/-- The scan of `get_new_thread`: the first set bit, from bit 0 on. -/
def scanBitmap (bitmap : BitVec 32) : Option Nat :=
  (List.range numPriority).find? fun q => bitmap.getLsbD q

/-- `get_new_thread`. -/
def getNewThread (k : Kernel) : Tid × Kernel :=
  match scanBitmap k.runQueueBitmap with
  | none => (idleThread, k)
  | some q =>
      match k.runQueue q with
      -- the bit was set for an empty list: `list_foreach_entry` has no round
      | [] => (idleThread, k)
      | new :: _ =>
          let k := { k with queues := k.queues.delete new }
          if k.runQueue q = [] then
            (new, { k with
              runQueueBitmap := k.runQueueBitmap &&& ~~~(1#32 <<< q) })
          else (new, k)

/-- The threads on the run queues with their priorities. -/
def queuedThreads (k : Kernel) : List (Tid × Int) :=
  (List.range numPriority).flatMap fun p =>
    (k.runQueue p).map fun t => (t, (k.threads t).priority)

/-- `thread_resched`.  `x64_thread_context_switch` leaves the outgoing stack
    where it is and goes on with the incoming one. -/
def threadResched (k : Kernel) : Kernel :=
  let old := k.current
  let queued := queuedThreads k
  let (new, k) := getNewThread k
  let k := k.setState new .running
  let k := k.emit (.rescheduled new (k.threads new).priority queued)
  -- a caller that is chosen again is not given a new quantum
  if new = old then k
  else
    let k :=
      if (k.threads new).remainingQuantum ≤ 0 then
        k.setThread new fun th => { th with remainingQuantum := 5 }
      else k
    { k with current := new }

/-! ## Giving up the CPU -/

/-- `thread_is_idle`. -/
def threadIsIdle (k : Kernel) (t : Tid) : Bool := (k.threads t).flags.idle

/-- `thread_preempt_is_enabled`. -/
def threadPreemptIsEnabled (k : Kernel) : Bool := k.preemptLock = 0

/-- `thread_preempt_disable`. -/
def threadPreemptDisable (k : Kernel) : Kernel :=
  { k with preemptLock := k.preemptLock + 1 }

/-- `thread_preempt_enable`. -/
def threadPreemptEnable (k : Kernel) : Kernel :=
  if k.preemptLock > 0 then { k with preemptLock := k.preemptLock - 1 } else k

/-- `thread_preempt`. -/
def threadPreempt (k : Kernel) : Except Fault Kernel := do
  let thread := k.current
  let k := (k.emit (.preempted thread)).setState thread .ready
  let k ←
    (if threadIsIdle k thread then pure k
    else if (k.threads thread).remainingQuantum > 0 then
      insertInRunQueueHead thread k
    else insertInRunQueueTail thread k)
  return threadResched (k.pushFrame thread (.afterResched .preempt 0))

/-- `thread_yield`. -/
def threadYield (k : Kernel) : Except Fault Kernel := do
  let old := k.current
  let k := k.setThread old fun th =>
    { th with state := .ready, remainingQuantum := 0 }
  let k ← (if threadIsIdle k old then pure k else insertInRunQueueTail old k)
  return threadResched (k.pushFrame old (.afterResched .yield 0))

/-- The two bounds that `thread_set_priority` puts on its argument. -/
def clampPriority (priority : Int) : Int :=
  let priority :=
    if priority ≤ idlePriority then idlePriority + 1 else priority
  if priority > highestPriority then highestPriority else priority

/-- `thread_set_priority`. -/
def threadSetPriority (priority : Int) (k : Kernel) : Except Fault Kernel := do
  let cur := k.current
  let k := k.setThread cur fun th =>
    { th with priority := clampPriority priority }
  let k ← insertInRunQueueHead cur k
  return threadResched (k.pushFrame cur (.afterResched .setPriority 0))

/-- `thread_block`, called with the state of the caller set to BLOCKED. -/
def threadBlock (k : Kernel) : Kernel :=
  let thread := k.current
  let k := k.setState thread .blocked
  threadResched (k.pushFrame thread (.afterResched .block 0))

/-- `thread_timer_tick`. -/
def threadTimerTick (k : Kernel) : HandlerReturn × Kernel :=
  let thread := k.current
  let k := k.setThread thread fun th =>
    { th with remainingQuantum := th.remainingQuantum - 1 }
  if (k.threads thread).remainingQuantum ≤ 0 ∧ threadPreemptIsEnabled k then
    (.reschedule, k)
  else (.noReschedule, k)

/-! ## The bitmap -/

/-- Setting a bit of the bitmap. -/
theorem getLsbD_setBit (bitmap : BitVec 32) {p q : Nat} (hp : p < numPriority) :
    (bitmap ||| (1#32 <<< p)).getLsbD q
      = (bitmap.getLsbD q || decide (q = p)) := by
  have hp' : p < 32 := hp
  rw [BitVec.getLsbD_or, BitVec.getLsbD_shiftLeft]
  by_cases h : q = p
  · subst h; simp [hp']
  · by_cases hlt : q < p
    · simp [hlt, h]
    · have hne : q - p ≠ 0 := by omega
      simp [h, hne]

/-- Clearing a bit of the bitmap. -/
theorem getLsbD_clearBit (bitmap : BitVec 32) {p q : Nat}
    (hp : p < numPriority) (hq : q < numPriority) :
    (bitmap &&& ~~~(1#32 <<< p)).getLsbD q
      = (bitmap.getLsbD q && decide (q ≠ p)) := by
  have hp' : p < 32 := hp
  have hq' : q < 32 := hq
  rw [BitVec.getLsbD_and, BitVec.getLsbD_not, BitVec.getLsbD_shiftLeft]
  by_cases h : q = p
  · subst h; simp [hp']
  · by_cases hlt : q < p
    · simp [hlt, h, hq']
    · have hne : q - p ≠ 0 := by omega
      simp [h, hne, hq']

/-- The scan stops at the lowest set bit. -/
theorem scanBitmap_eq_some {bitmap : BitVec 32} {q : Nat}
    (h : scanBitmap bitmap = some q) :
    q < numPriority ∧ bitmap.getLsbD q = true ∧
      ∀ p, p < q → bitmap.getLsbD p = false := by
  rw [scanBitmap, List.find?_range_eq_some] at h
  obtain ⟨hbit, hmem, hlow⟩ := h
  exact ⟨List.mem_range.mp hmem, hbit, fun p hp => by simpa using hlow p hp⟩

/-- The scan finds nothing only in an empty bitmap. -/
theorem scanBitmap_eq_none {bitmap : BitVec 32}
    (h : scanBitmap bitmap = none) :
    ∀ p, p < numPriority → bitmap.getLsbD p = false := by
  rw [scanBitmap, List.find?_range_eq_none] at h
  intro p hp
  simpa using h p hp

/-! ## What insertion does -/

theorem PriorityOk.toNat_lt {p : Int} (h : PriorityOk p) :
    p.toNat < numPriority := by
  obtain ⟨h0, hlt⟩ := h
  have hlt' : p < 32 := hlt
  show p.toNat < 32
  omega

theorem PriorityOk.toNat_eq {p : Int} (h : PriorityOk p) :
    (p.toNat : Int) = p :=
  Int.toNat_of_nonneg h.1

theorem priorityOk_clampPriority (p : Int) : PriorityOk (clampPriority p) := by
  rw [PriorityOk, clampPriority]
  simp only [idlePriority, highestPriority, numPriority]
  split_ifs <;> constructor <;> omega

/-- The state after an unlinked thread was put on its run queue. -/
@[simps]
def enqueue (k : Kernel) (t : Tid) : Kernel :=
  let p := (k.threads t).priority.toNat
  { k with
    queues := k.queues.addTail (.run p) t
    runQueueBitmap := k.runQueueBitmap ||| (1#32 <<< p) }

/-- The wait queues do not change. -/
theorem waitList_enqueue {k : Kernel} {t : Tid}
    (hl : k.queues.link t = none) (q : WaitQueueRef) :
    (enqueue k t).waitList q = k.waitList q := by
  rw [Kernel.waitList, enqueue_queues, k.queues.items_addTail _ _ hl]
  exact Function.update_of_ne (by simp) _ _

/-- What is on the run queues after an insertion. -/
theorem runQueue_enqueue {k : Kernel} {t : Tid}
    (hl : k.queues.link t = none) (q : Nat) :
    (enqueue k t).runQueue q =
      if q = (k.threads t).priority.toNat then k.runQueue q ++ [t]
      else k.runQueue q := by
  rw [Kernel.runQueue, enqueue_queues, k.queues.items_addTail _ _ hl]
  by_cases hq : q = (k.threads t).priority.toNat
  · subst hq
    simp [Kernel.runQueue]
  · simp [hq, Kernel.runQueue]

/-- Insertion succeeds for an unlinked thread whose priority is in range. -/
theorem insertInRunQueueTail_eq {k : Kernel} {t : Tid}
    (hl : k.queues.link t = none) (hp : PriorityOk (k.threads t).priority) :
    insertInRunQueueTail t k = .ok (enqueue k t) := by
  simp only [insertInRunQueueTail, if_pos hp, listAddTail, hl]
  rfl

/-- The two insertions are one: `list_add_head` adds at the tail. -/
theorem insertInRunQueueHead_eq_tail (t : Tid) (k : Kernel) :
    insertInRunQueueHead t k = insertInRunQueueTail t k := rfl

/-- **What insertion does**: it enqueues, or the thread was linked, or its
    priority is out of range. -/
theorem insertInRunQueueTail_spec (t : Tid) (k : Kernel) :
    Outcome.Holds (insertInRunQueueTail t k)
      (fun k' => k.queues.link t = none ∧
        PriorityOk (k.threads t).priority ∧ k' = enqueue k t)
      (fun e => e = .linkedTwice t ∨
        ¬ PriorityOk (k.threads t).priority ∧
          e = .runQueueIndex (k.threads t).priority) := by
  by_cases hp : PriorityOk (k.threads t).priority
  · cases hl : k.queues.link t with
    | none =>
        rw [insertInRunQueueTail_eq hl hp]
        exact ⟨rfl, hp, rfl⟩
    | some h =>
        simp only [insertInRunQueueTail, if_pos hp, listAddTail, hl]
        exact Or.inl rfl
  · simp only [insertInRunQueueTail, if_neg hp]
    exact Or.inr ⟨hp, rfl⟩

/-! ## What rescheduling does -/

/-- The state after the head `t` of `run_queue[q]` was taken off. -/
@[simps]
def dequeue (k : Kernel) (q : Nat) (t : Tid) : Kernel :=
  { k with
    queues := k.queues.delete t
    runQueueBitmap :=
      if (k.queues.delete t).items (.run q) = [] then
        k.runQueueBitmap &&& ~~~(1#32 <<< q)
      else k.runQueueBitmap }

/-- The bitmap tells which run queues have a thread. -/
def BitmapOk (k : Kernel) : Prop :=
  ∀ p, p < numPriority →
    (k.runQueueBitmap.getLsbD p = true ↔ k.runQueue p ≠ [])

/-- **What `get_new_thread` does**: it takes the head of the run queue with
    the lowest index that has a thread, or returns the idle thread when no
    run queue has one. -/
theorem getNewThread_cases {k : Kernel} (hb : BitmapOk k) :
    (∀ p, p < numPriority → k.runQueue p = []) ∧
        getNewThread k = (idleThread, k) ∨
      ∃ q t ts, q < numPriority ∧ k.runQueue q = t :: ts ∧
        (∀ p, p < q → k.runQueue p = []) ∧
        getNewThread k = (t, dequeue k q t) := by
  cases hs : scanBitmap k.runQueueBitmap with
  | none =>
      left
      constructor
      · intro p hp
        by_contra hne
        have hset := (hb p hp).mpr hne
        rw [scanBitmap_eq_none hs p hp] at hset
        exact Bool.noConfusion hset
      · rw [getNewThread, hs]
  | some q =>
      right
      obtain ⟨hq, hbit, hlow⟩ := scanBitmap_eq_some hs
      obtain ⟨t, ts, hcons⟩ := List.exists_cons_of_ne_nil ((hb q hq).mp hbit)
      refine ⟨q, t, ts, hq, hcons, ?_, ?_⟩
      · intro p hp
        by_contra hne
        have hset := (hb p (Nat.lt_trans hp hq)).mpr hne
        rw [hlow p hp] at hset
        exact Bool.noConfusion hset
      · rw [getNewThread, hs]
        simp only [hcons, dequeue]
        by_cases he : (k.queues.delete t).items (.run q) = []
        · simp [he, Kernel.runQueue]
        · simp [he, Kernel.runQueue]

/-- The choice of `get_new_thread`. -/
theorem getNewThread_fst (k : Kernel) :
    (getNewThread k).1 =
      match scanBitmap k.runQueueBitmap with
      | none => idleThread
      | some q => (k.runQueue q).headD idleThread := by
  rw [getNewThread]
  cases scanBitmap k.runQueueBitmap with
  | none => rfl
  | some q =>
      dsimp only
      cases k.runQueue q with
      | nil => rfl
      | cons t ts =>
          dsimp only
          split_ifs <;> rfl

/-- `get_new_thread` changes the queues and the bitmap only. -/
theorem getNewThread_frame (k : Kernel) :
    (getNewThread k).2 =
      { k with
        queues := (getNewThread k).2.queues
        runQueueBitmap := (getNewThread k).2.runQueueBitmap } := by
  simp only [getNewThread]
  split
  · rfl
  · split
    · rfl
    · split_ifs <;> rfl

/-- What `thread_resched` leaves in the slot of the thread it chose. -/
def scheduled (new old : Tid) (th : Thread) : Thread :=
  { th with
    state := .running
    remainingQuantum :=
      if new ≠ old ∧ th.remainingQuantum ≤ 0 then 5 else th.remainingQuantum }

/-- **What `thread_resched` does**, in terms of `get_new_thread`. -/
theorem threadResched_eq (k : Kernel) :
    threadResched k =
      { k with
        queues := (getNewThread k).2.queues
        runQueueBitmap := (getNewThread k).2.runQueueBitmap
        threads := Function.update k.threads (getNewThread k).1
          (scheduled (getNewThread k).1 k.current
            (k.threads (getNewThread k).1))
        current := (getNewThread k).1
        log := k.log ++ [.rescheduled (getNewThread k).1
          (k.threads (getNewThread k).1).priority (queuedThreads k)] } := by
  have hf := getNewThread_frame k
  rw [threadResched]
  generalize getNewThread k = g at hf ⊢
  obtain ⟨new, k'⟩ := g
  simp only at hf ⊢
  rw [hf]
  by_cases hsame : new = k.current
  · simp [hsame, scheduled, Kernel.setThread, Kernel.emit]
  · by_cases hq : (k.threads new).remainingQuantum ≤ 0
    · simp [hsame, hq, scheduled, Kernel.setThread, Kernel.emit]
    · simp [hsame, hq, scheduled, Kernel.setThread, Kernel.emit]

/-- `thread_resched` logs the thread it made current and the threads that were
    on the run queues when it was called. -/
theorem log_threadResched (k : Kernel) :
    (threadResched k).log = k.log ++ [.rescheduled (threadResched k).current
      (k.threads (threadResched k).current).priority (queuedThreads k)] := by
  rw [threadResched_eq]

end ChinixRunQueue

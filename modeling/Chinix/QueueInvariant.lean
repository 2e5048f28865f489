import Chinix.Machine

/-! # The queue invariant

    What every run keeps true of the queues, whatever the threads call: the
    bitmap tells which run queues have a thread, a thread on `run_queue[p]`
    has priority `p`, a thread is on the list of a wait queue exactly when
    its `blocking_wait_queue` is that queue, the counts are the lengths, and
    the idle thread is on no queue.  A run may end in a fault; what it left
    before is covered.

    The parameter `b` adds the bounds on priorities: they are kept by the
    runs in which `thread_create` gets a priority that `run_queue` has a list
    for, and then no fault is an index out of its bounds. -/

namespace ChinixQueueInvariant

open ChinixTimerQueue ChinixPlatformTimer ChinixKernel ChinixRunQueue
open ChinixWaitQueue ChinixThread ChinixMachine Outcome

/-- The slot that the rest of a call will clear or reap. -/
def target : Frame → Option Tid
  | .threadJoin t _ _ => some t
  | .initThread t _ => some t
  | _ => none

/-- The priority that the rest of a `thread_create` will store is in range. -/
def carriesOk : Frame → Prop
  | .getFreeThreadNode p => PriorityOk p
  | .initThread _ p => PriorityOk p
  | _ => True

/-- What a choice of `thread_resched` guarantees: the idle thread when nothing
    is queued, else a queued thread with the least priority number. -/
def Chosen (new : Tid) (priority : Int) (queued : List (Tid × Int)) : Prop :=
  new = idleThread ∧ queued = [] ∨
    new ≠ idleThread ∧ (new, priority) ∈ queued ∧
      ∀ u ∈ queued, priority ≤ u.2

/-- The invariant. -/
structure QueueInv (b : Prop) (k : Kernel) : Prop where
  bitmap : BitmapOk k
  run : ∀ t p, k.queues.link t = some (.run p) →
    (k.threads t).priority = p ∧ p < numPriority
  wait : ∀ t q, k.queues.link t = some (.wait q) ↔
    (k.threads t).blockingWaitQueue = some q
  count : ∀ q, k.waitCount q = (k.waitList q).length
  idle_unlinked : k.queues.link idleThread = none
  idle_listed : k.threadLists.link idleThread = some .all
  booting : booted k = false →
    k.current = idleThread ∧ Frame.threadYield ∉ k.frames idleThread
  flag : ∀ t, (k.threads t).flags.idle = true → t = idleThread
  handlers : ∀ r t,
    (k.timerQueue.timers r).callback = some (.threadSleepHandler t) →
      t ≠ idleThread
  oneshot : ∀ r, (k.timerQueue.timers r).periodicTime = 0
  armed : ∀ r ∈ k.timerQueue.queue,
    (k.timerQueue.timers r).callback ≠ none
  targets : ∀ u, ∀ f ∈ k.frames u, target f ≠ some idleThread
  priority : b → ∀ t, PriorityOk (k.threads t).priority
  carried : b → ∀ u, ∀ f ∈ k.frames u, carriesOk f
  chosen : ∀ new p queued,
    Event.rescheduled new p queued ∈ k.log → Chosen new p queued

variable {b : Prop} {k k' : Kernel} {t : Tid}

/-- The faults that `b` leaves possible. -/
def Tolerated (b : Prop) (e : Fault) : Prop :=
  b → ∀ p, e ≠ .runQueueIndex p

/-! ## Steps that leave the queues alone -/

/-- The invariant does not read the clock, the lock and the ghost numbers. -/
theorem QueueInv.congr (h : QueueInv b k) (ht : k'.threads = k.threads)
    (hq : k'.queues = k.queues) (hl : k'.threadLists = k.threadLists)
    (hw : k'.waitCount = k.waitCount)
    (hb : k'.runQueueBitmap = k.runQueueBitmap)
    (hc : k'.current = k.current) (htq : k'.timerQueue = k.timerQueue)
    (hf : k'.frames = k.frames) (hlog : k'.log = k.log) : QueueInv b k' := by
  constructor
  · intro p hp
    rw [hb, Kernel.runQueue, hq]
    exact h.bitmap p hp
  · rw [hq, ht]; exact h.run
  · rw [hq, ht]; exact h.wait
  · intro q
    rw [hw, Kernel.waitList, hq]
    exact h.count q
  · rw [hq]; exact h.idle_unlinked
  · rw [hl]; exact h.idle_listed
  · rw [booted, threadIsIdle, ht, hc, hf]; exact h.booting
  · rw [ht]; exact h.flag
  · rw [htq]; exact h.handlers
  · rw [htq]; exact h.oneshot
  · rw [htq]; exact h.armed
  · rw [hf]; exact h.targets
  · rw [ht]; exact h.priority
  · rw [hf]; exact h.carried
  · rw [hlog]; exact h.chosen

theorem QueueInv.emit (h : QueueInv b k) {e : Event}
    (he : ∀ new p queued, e ≠ .rescheduled new p queued) :
    QueueInv b (k.emit e) := by
  refine { h with chosen := ?_ }
  intro new p queued hmem
  rcases List.mem_append.mp hmem with hold | hnew
  · exact h.chosen new p queued hold
  · exact absurd (List.mem_singleton.mp hnew).symm (he new p queued)

theorem booted_setThread (f : Thread → Thread)
    (hi : (f (k.threads t)).flags.idle = (k.threads t).flags.idle) :
    booted (k.setThread t f) = booted k := by
  unfold booted threadIsIdle
  by_cases h : idleThread = t
  · subst h; simp [hi]
  · simp [h]

theorem booted_setThread_of_ne (f : Thread → Thread) (ht : t ≠ idleThread) :
    booted (k.setThread t f) = booted k := by
  simp [booted, threadIsIdle, Ne.symm ht]

/-- Changing the fields of a slot in agreement with where it is linked. -/
theorem QueueInv.setThread_linked (h : QueueInv b k) (f : Thread → Thread)
    (hr : ∀ p, k.queues.link t = some (.run p) →
      (f (k.threads t)).priority = p)
    (hw : ∀ q, k.queues.link t = some (.wait q) ↔
      (f (k.threads t)).blockingWaitQueue = some q)
    (hi : booted (k.setThread t f) = false → booted k = false)
    (hf : (f (k.threads t)).flags.idle = true →
      t = idleThread ∨ (k.threads t).flags.idle = true)
    (hp : b → PriorityOk (f (k.threads t)).priority) :
    QueueInv b (k.setThread t f) := by
  refine { h with
    run := ?_, wait := ?_, booting := ?_, flag := ?_, priority := ?_ }
  · intro u p hl
    by_cases hu : u = t
    · subst hu
      simpa using ⟨hr p hl, (h.run u p hl).2⟩
    · simpa [hu] using h.run u p hl
  · intro u q
    by_cases hu : u = t
    · subst hu
      simpa using hw q
    · simpa [hu] using h.wait u q
  · exact fun hb => h.booting (hi hb)
  · intro u hu
    by_cases he : u = t
    · subst he
      exact (hf (by simpa using hu)).elim id (h.flag u)
    · exact h.flag u (by simpa [he] using hu)
  · intro hb u
    by_cases hu : u = t
    · subst hu
      simpa using hp hb
    · simpa [hu] using h.priority hb u

/-- Changing the fields of a slot that the queues do not depend on. -/
theorem QueueInv.setThread (h : QueueInv b k) (f : Thread → Thread)
    (hp : (f (k.threads t)).priority = (k.threads t).priority)
    (hw : (f (k.threads t)).blockingWaitQueue
      = (k.threads t).blockingWaitQueue)
    (hi : (f (k.threads t)).flags.idle = (k.threads t).flags.idle) :
    QueueInv b (k.setThread t f) := by
  refine h.setThread_linked f ?_ ?_ ?_ ?_ ?_
  · intro p hl
    rw [hp]
    exact (h.run t p hl).1
  · intro q
    rw [hw]
    exact h.wait t q
  · rw [booted_setThread f hi]
    exact id
  · exact fun hf => .inr (hi.symm.trans hf)
  · intro hb
    rw [hp]
    exact h.priority hb t

theorem QueueInv.setState (h : QueueInv b k) (s : ThreadState) :
    QueueInv b (k.setState t s) :=
  h.setThread _ rfl rfl rfl

/-- Replacing the frames of one thread. -/
theorem QueueInv.setFrames (h : QueueInv b k) (fs : List Frame)
    (hy : booted k = false → t = idleThread → Frame.threadYield ∉ fs)
    (ht : ∀ f ∈ fs, target f ≠ some idleThread)
    (hc : b → ∀ f ∈ fs, carriesOk f) :
    QueueInv b { k with frames := Function.update k.frames t fs } := by
  refine { h with booting := ?_, targets := ?_, carried := ?_ }
  · intro hb
    refine ⟨(h.booting hb).1, ?_⟩
    by_cases hu : idleThread = t
    · subst hu
      simpa using hy hb rfl
    · simpa [hu] using (h.booting hb).2
  · intro u
    by_cases hu : u = t
    · subst hu; simpa using ht
    · simpa [hu] using h.targets u
  · intro hb u
    by_cases hu : u = t
    · subst hu; simpa using hc hb
    · simpa [hu] using h.carried hb u

theorem QueueInv.pushFrame (h : QueueInv b k) {f : Frame}
    (hy : booted k = false → f ≠ .threadYield)
    (ht : target f ≠ some idleThread) (hc : b → carriesOk f) :
    QueueInv b (k.pushFrame t f) := by
  refine h.setFrames _ ?_ ?_ ?_
  · intro hb ht hmem
    rcases List.mem_cons.mp hmem with heq | hold
    · exact hy hb heq.symm
    · rw [ht] at hold
      exact (h.booting hb).2 hold
  · intro g hg
    rcases List.mem_cons.mp hg with heq | hold
    · rw [heq]; exact ht
    · exact h.targets t g hold
  · intro hb g hg
    rcases List.mem_cons.mp hg with heq | hold
    · rw [heq]; exact hc hb
    · exact h.carried hb t g hold

theorem QueueInv.popFrame (h : QueueInv b k) : QueueInv b (k.popFrame t) := by
  refine h.setFrames _ ?_ ?_ ?_
  · intro hb ht hmem
    rw [ht] at hmem
    exact (h.booting hb).2 (List.mem_of_mem_tail hmem)
  · intro g hg
    exact h.targets t g (List.mem_of_mem_tail hg)
  · intro hb g hg
    exact h.carried hb t g (List.mem_of_mem_tail hg)

/-- A frame of the kind that only unlocks and returns. -/
theorem QueueInv.pushAfterResched (h : QueueInv b k) (op : Op) (ret : Int) :
    QueueInv b (k.pushFrame t (.afterResched op ret)) :=
  h.pushFrame (fun _ => by simp) (by rintro ⟨⟩) (fun _ => trivial)

/-! ## Run queues -/

theorem QueueInv.enqueue (h : QueueInv b k) (hl : k.queues.link t = none)
    (hp : PriorityOk (k.threads t).priority) (ht : t ≠ idleThread) :
    QueueInv b (enqueue k t) := by
  have hlt := hp.toNat_lt
  have hwait : ∀ q, (k.threads t).blockingWaitQueue ≠ some q := by
    intro q hq
    rw [← h.wait, hl] at hq
    cases hq
  refine { h with
    bitmap := ?_, run := ?_, wait := ?_, count := ?_, idle_unlinked := ?_ }
  · intro p hpn
    rw [Kernel.runQueue, enqueue_queues, k.queues.items_addTail _ _ hl,
      enqueue_runQueueBitmap, getLsbD_setBit _ hlt]
    by_cases he : p = (k.threads t).priority.toNat
    · subst he; simp
    · have hold := h.bitmap p hpn
      simpa [he, Kernel.runQueue] using hold
  · intro u p hu
    rw [enqueue_queues, k.queues.link_addTail _ _ hl] at hu
    by_cases he : u = t
    · subst he
      have hpp : (k.threads u).priority.toNat = p := by simpa using hu
      rw [← hpp]
      exact ⟨hp.toNat_eq.symm, hlt⟩
    · exact h.run u p (by simpa [he] using hu)
  · intro u q
    rw [enqueue_queues, k.queues.link_addTail _ _ hl]
    by_cases he : u = t
    · subst he
      simpa using hwait q
    · simpa [he] using h.wait u q
  · intro q
    rw [Kernel.waitList, enqueue_queues, k.queues.items_addTail _ _ hl]
    simpa [Kernel.waitList] using h.count q
  · rw [enqueue_queues, k.queues.link_addTail _ _ hl]
    simpa [Ne.symm ht] using h.idle_unlinked

theorem QueueInv.dequeue (h : QueueInv b k) {q : Nat} {ts : List Tid}
    (hq : q < numPriority) (hcons : k.runQueue q = t :: ts) :
    QueueInv b (dequeue k q t) := by
  have hl : k.queues.link t = some (.run q) :=
    k.queues.link_of_items_cons hcons
  refine { h with
    bitmap := ?_, run := ?_, wait := ?_, count := ?_, idle_unlinked := ?_ }
  · intro p hp
    have hitems : (k.queues.delete t).items (.run q) = ts :=
      k.queues.items_delete_head hcons
    rw [Kernel.runQueue, dequeue_queues, dequeue_runQueueBitmap, hitems]
    by_cases he : p = q
    · subst he
      have hset : k.runQueueBitmap.getLsbD p = true :=
        (h.bitmap p hp).mpr (by rw [hcons]; simp)
      rw [hitems]
      by_cases hts : ts = []
      · rw [if_pos hts, getLsbD_clearBit _ hp hp]
        simp [hts]
      · rw [if_neg hts]
        simp [hset, hts]
    · have hother : (k.queues.delete t).items (.run p) = k.runQueue p := by
        refine k.queues.items_delete_of_ne ?_
        rw [hl]
        intro hh
        exact he (by simpa using hh.symm)
      rw [hother, ← h.bitmap p hp]
      by_cases hts : ts = []
      · rw [if_pos hts, getLsbD_clearBit _ hq hp]
        simp [he]
      · rw [if_neg hts]
  · intro u p hu
    by_cases he : u = t
    · subst he
      simp at hu
    · exact h.run u p (by simpa [he] using hu)
  · intro u q'
    by_cases he : u = t
    · subst he
      have hno := h.wait u q'
      rw [hl] at hno
      simpa using hno
    · simpa [he] using h.wait u q'
  · intro q'
    have hother : (k.queues.delete t).items (.wait q') = k.waitList q' := by
      refine k.queues.items_delete_of_ne ?_
      rw [hl]; simp
    rw [Kernel.waitList, dequeue_queues, hother]
    exact h.count q'
  · by_cases he : idleThread = t
    · simp [he]
    · simpa [he] using h.idle_unlinked

/-- The threads that `queuedThreads` lists. -/
theorem mem_queuedThreads {k : Kernel} {u : Tid × Int} :
    u ∈ queuedThreads k ↔ ∃ p, p < numPriority ∧ u.1 ∈ k.runQueue p ∧
      u.2 = (k.threads u.1).priority := by
  obtain ⟨t, prio⟩ := u
  rw [queuedThreads]
  rw [List.mem_flatMap]
  constructor
  · rintro ⟨p, hp, hmem⟩
    obtain ⟨t', ht', heq⟩ := List.mem_map.mp hmem
    cases heq
    exact ⟨p, List.mem_range.mp hp, ht', rfl⟩
  · rintro ⟨p, hp, ht, hprio⟩
    have hprio' : prio = (k.threads t).priority := hprio
    refine ⟨p, List.mem_range.mpr hp, List.mem_map.mpr ⟨t, ht, ?_⟩⟩
    rw [hprio']

/-- A thread on `run_queue[p]` has priority `p`. -/
theorem QueueInv.priority_of_mem (h : QueueInv b k) {p : Nat}
    (ht : t ∈ k.runQueue p) : (k.threads t).priority = p :=
  (h.run t p ((k.queues.mem_items _ _).mp ht)).1

/-- **The choice of `thread_resched`.** -/
theorem QueueInv.chosen_getNewThread (h : QueueInv b k) :
    Chosen (getNewThread k).1 (k.threads (getNewThread k).1).priority
      (queuedThreads k) := by
  rcases getNewThread_cases h.bitmap with ⟨hnone, heq⟩
    | ⟨q, t, ts, hq, hcons, hlow, heq⟩
  · left
    rw [heq]
    refine ⟨rfl, List.eq_nil_iff_forall_not_mem.mpr ?_⟩
    intro u hu
    obtain ⟨p, hp, hmem, -⟩ := mem_queuedThreads.mp hu
    rw [hnone p hp] at hmem
    cases hmem
  · right
    rw [heq]
    have ht : t ∈ k.runQueue q := by rw [hcons]; exact List.mem_cons_self
    have hlink : k.queues.link t = some (.run q) :=
      k.queues.link_of_items_cons hcons
    refine ⟨?_, mem_queuedThreads.mpr ⟨q, hq, ht, rfl⟩, ?_⟩
    · intro h0
      have hidle := h.idle_unlinked
      rw [← h0, hlink] at hidle
      cases hidle
    · intro u hu
      obtain ⟨p, hp, hmem, hprio⟩ := mem_queuedThreads.mp hu
      rw [hprio, h.priority_of_mem hmem, h.priority_of_mem ht]
      by_contra hlt
      have hpq : p < q := by omega
      rw [hlow p hpq] at hmem
      cases hmem

theorem QueueInv.getNewThread (h : QueueInv b k) :
    QueueInv b (getNewThread k).2 := by
  rcases getNewThread_cases h.bitmap with ⟨-, heq⟩
    | ⟨q, t, ts, hq, hcons, -, heq⟩
  · rw [heq]; exact h
  · rw [heq]; exact h.dequeue hq hcons

theorem booted_threadResched (k : Kernel) :
    booted (threadResched k) = booted k := by
  rw [threadResched_eq]
  unfold booted threadIsIdle
  by_cases h : idleThread = (getNewThread k).1
  · simp [← h, scheduled]
  · simp [h]

/-- `thread_resched` keeps the invariant. -/
theorem QueueInv.threadResched (h : QueueInv b k) (hb : booted k = true) :
    QueueInv b (threadResched k) := by
  have hnew := h.getNewThread
  rw [getNewThread_frame] at hnew
  have hsame := booted_threadResched k
  rw [threadResched_eq] at hsame ⊢
  have hset := hnew.setThread (t := (ChinixRunQueue.getNewThread k).1)
    (scheduled (ChinixRunQueue.getNewThread k).1 k.current) rfl rfl rfl
  refine { hset with booting := ?_, chosen := ?_ }
  · intro hbf
    rw [hsame, hb] at hbf
    exact Bool.noConfusion hbf
  · intro new p queued hmem
    rcases List.mem_append.mp hmem with hold | hlast
    · exact h.chosen new p queued hold
    · cases List.mem_singleton.mp hlast
      exact h.chosen_getNewThread

/-! ## Wait queues -/

/-- A waiter taken off the list of its wait queue and made READY. -/
theorem QueueInv.readyWaiter (h : QueueInv b k) {q : WaitQueueRef}
    (hl : k.queues.link t = some (.wait q)) (error : Int) :
    QueueInv b (readyWaiter q t error
      { k with queues := k.queues.delete t }) := by
  have hrun : ∀ p, (k.queues.delete t).items (.run p) = k.runQueue p := by
    intro p
    refine k.queues.items_delete_of_ne ?_
    rw [hl]; simp
  have hmem := k.queues.length_items_delete hl
  refine { h with
    bitmap := ?_, run := ?_, wait := ?_, count := ?_, idle_unlinked := ?_
    booting := ?_, flag := ?_, priority := ?_, chosen := ?_ }
  · intro p hp
    have hb := h.bitmap p hp
    rwa [← hrun p] at hb
  · intro u p hu
    by_cases he : u = t
    · subst he
      simp [ChinixWaitQueue.readyWaiter] at hu
    · simpa [ChinixWaitQueue.readyWaiter, he] using
        h.run u p (by simpa [ChinixWaitQueue.readyWaiter, he] using hu)
  · intro u q'
    by_cases he : u = t
    · subst he
      simp [ChinixWaitQueue.readyWaiter]
    · simpa [ChinixWaitQueue.readyWaiter, he] using h.wait u q'
  · intro q'
    by_cases hq : q' = q
    · subst hq
      have hc := h.count q'
      simp only [ChinixWaitQueue.readyWaiter, Kernel.emit_waitCount,
        Kernel.setThread_waitCount, Function.update_self, Kernel.waitList,
        Kernel.emit_queues, Kernel.setThread_queues] at hc ⊢
      omega
    · have hother : (k.queues.delete t).items (.wait q') = k.waitList q' := by
        refine k.queues.items_delete_of_ne ?_
        rw [hl]
        intro hh
        exact hq (by simpa using hh.symm)
      have hc := h.count q'
      simp only [ChinixWaitQueue.readyWaiter, Kernel.emit_waitCount,
        Kernel.setThread_waitCount, Function.update_of_ne hq, Kernel.waitList,
        Kernel.emit_queues, Kernel.setThread_queues] at hc ⊢
      rw [hother]
      exact hc
  · by_cases he : idleThread = t
    · rw [← he, h.idle_unlinked] at hl
      cases hl
    · simpa [ChinixWaitQueue.readyWaiter, he] using h.idle_unlinked
  · have hne : idleThread ≠ t := by
      rintro rfl
      rw [h.idle_unlinked] at hl
      cases hl
    simpa [booted, threadIsIdle, ChinixWaitQueue.readyWaiter, hne]
      using h.booting
  · intro u hu
    by_cases he : u = t
    · subst he
      exact h.flag u (by simpa [ChinixWaitQueue.readyWaiter] using hu)
    · exact h.flag u (by simpa [ChinixWaitQueue.readyWaiter, he] using hu)
  · intro hb u
    by_cases he : u = t
    · subst he
      simpa [ChinixWaitQueue.readyWaiter] using h.priority hb u
    · simpa [ChinixWaitQueue.readyWaiter, he] using h.priority hb u
  · intro new p queued hmem
    simp only [ChinixWaitQueue.readyWaiter, Kernel.emit_log,
      List.mem_append, List.mem_singleton, reduceCtorEq, or_false] at hmem
    exact h.chosen new p queued hmem

/-- An unlinked thread put on the list of a wait queue and made BLOCKED. -/
def blockedOn (k : Kernel) (q : WaitQueueRef) : Kernel :=
  { k with
    queues := k.queues.addTail (.wait q) k.current
    waitCount := Function.update k.waitCount q (k.waitCount q + 1)
    threads := Function.update k.threads k.current
      { k.threads k.current with
        state := .blocked, blockingWaitQueue := some q
        waitQueueBlockRet := noErr }
    nextCall := k.nextCall + 1
    log := k.log ++ [.blocked k.nextCall k.current q] }

theorem QueueInv.blockedOn (h : QueueInv b k) (q : WaitQueueRef)
    (hl : k.queues.link k.current = none) (hc : k.current ≠ idleThread) :
    QueueInv b (blockedOn k q) := by
  have hlink := k.queues.link_addTail (.wait q) k.current hl
  have hitems := k.queues.items_addTail (.wait q) k.current hl
  refine { h with
    bitmap := ?_, run := ?_, wait := ?_, count := ?_, idle_unlinked := ?_
    booting := ?_, flag := ?_, priority := ?_, chosen := ?_ }
  · intro p hp
    have hb := h.bitmap p hp
    simpa [ChinixQueueInvariant.blockedOn, Kernel.runQueue, hitems] using hb
  · intro u p hu
    simp only [ChinixQueueInvariant.blockedOn, hlink] at hu ⊢
    by_cases he : u = k.current
    · subst he
      simp at hu
    · simpa [he] using h.run u p (by simpa [he] using hu)
  · intro u q'
    simp only [ChinixQueueInvariant.blockedOn, hlink]
    by_cases he : u = k.current
    · subst he
      simp
    · simpa [he] using h.wait u q'
  · intro q'
    simp only [ChinixQueueInvariant.blockedOn, Kernel.waitList, hitems]
    have hcount := h.count q'
    by_cases hq : q' = q
    · subst hq
      simpa [Kernel.waitList] using hcount
    · simpa [hq, Kernel.waitList] using hcount
  · simpa [ChinixQueueInvariant.blockedOn, hlink, Ne.symm hc]
      using h.idle_unlinked
  · simpa [booted, threadIsIdle, ChinixQueueInvariant.blockedOn, Ne.symm hc]
      using h.booting
  · intro u hu
    by_cases he : u = k.current
    · subst he
      exact h.flag _ (by simpa [ChinixQueueInvariant.blockedOn] using hu)
    · exact h.flag u (by simpa [ChinixQueueInvariant.blockedOn, he] using hu)
  · intro hb u
    by_cases he : u = k.current
    · subst he
      simpa [ChinixQueueInvariant.blockedOn] using h.priority hb k.current
    · simpa [ChinixQueueInvariant.blockedOn, he] using h.priority hb u
  · intro new p queued hmem
    simp only [ChinixQueueInvariant.blockedOn, List.mem_append,
      List.mem_singleton, reduceCtorEq, or_false] at hmem
    exact h.chosen new p queued hmem

/-! ## Timers -/

/-- Replacing the timer queue. -/
theorem QueueInv.setTimers (h : QueueInv b k)
    (tq : TimerQueue TimerRef Callback)
    (hh : ∀ r t, (tq.timers r).callback = some (.threadSleepHandler t) →
      t ≠ idleThread)
    (ho : ∀ r, (tq.timers r).periodicTime = 0)
    (ha : ∀ r ∈ tq.queue, (tq.timers r).callback ≠ none) :
    QueueInv b { k with timerQueue := tq } :=
  { h with handlers := hh, oneshot := ho, armed := ha }

theorem QueueInv.timerCancel (h : QueueInv b k) (r : TimerRef) :
    QueueInv b { k with timerQueue := timerCancel r k.timerQueue } := by
  refine h.setTimers _ ?_ ?_ ?_
  · intro r' u hcb
    by_cases he : r' = r
    · subst he
      simp [ChinixTimerQueue.timerCancel] at hcb
    · rw [timers_timerCancel_of_ne he] at hcb
      exact h.handlers r' u hcb
  · intro r'
    by_cases he : r' = r
    · subst he
      simp [ChinixTimerQueue.timerCancel]
    · rw [timers_timerCancel_of_ne he]
      exact h.oneshot r'
  · intro r' hr'
    obtain ⟨hne, hmem⟩ := mem_timerCancel.mp hr'
    rw [timers_timerCancel_of_ne hne]
    exact h.armed r' hmem

/-- Arming a timer of the kernel. -/
theorem QueueInv.armTimer (h : QueueInv b k) {r : TimerRef} {delay : Time}
    {callback : Callback}
    (hcb : ∀ t, callback = .threadSleepHandler t → t ≠ idleThread) :
    Holds (armTimer r delay callback k)
      (fun k' => QueueInv b k' ∧ ∃ tq, k' = { k with timerQueue := tq })
      (Tolerated b) := by
  rw [ChinixWaitQueue.armTimer]
  cases hs : timerSetOneshot r k.now delay callback k.timerQueue with
  | error e => exact fun _ _ => by simp
  | ok tq =>
      obtain ⟨-, hq, ht⟩ := timerSet_ok hs
      refine ⟨h.setTimers _ ?_ ?_ ?_, tq, rfl⟩
      · intro r' u hu
        rw [ht] at hu
        by_cases he : r' = r
        · subst he
          exact hcb u (by simpa using hu)
        · exact h.handlers r' u (by simpa [he] using hu)
      · intro r'
        rw [ht]
        by_cases he : r' = r
        · subst he; simp
        · simpa [he] using h.oneshot r'
      · intro r' hr'
        rw [ht]
        by_cases he : r' = r
        · subst he; simp
        · simpa [he] using h.armed r' (((hq r').mp hr').resolve_left he)

end ChinixQueueInvariant

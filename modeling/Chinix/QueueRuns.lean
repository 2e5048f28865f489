import Chinix.QueueInvariant

/-! # Every run keeps the queue invariant

    One lemma for each function of the kernel, then one for each step and the
    run lemma. -/

namespace ChinixQueueRuns

open ChinixTimerQueue ChinixPlatformTimer ChinixKernel ChinixRunQueue
open ChinixWaitQueue ChinixThread ChinixMachine Outcome ChinixQueueInvariant

variable {b : Prop} {k k' : Kernel} {t : Tid}

/-! ## Giving up the CPU -/

theorem booted_readyWaiter (q : WaitQueueRef) (error : Int) :
    booted (readyWaiter q t error { k with queues := k.queues.delete t })
      = booted k := by
  unfold booted threadIsIdle readyWaiter
  by_cases h : idleThread = t
  · subst h; simp
  · simp [h]

theorem booted_setState (s : ThreadState) :
    booted (k.setState t s) = booted k :=
  booted_setThread _ rfl

/-- The CPU stays with the current thread and no timer is touched. -/
def Undisturbed (k k' : Kernel) : Prop :=
  booted k' = booted k ∧ k'.current = k.current ∧
    k'.timerQueue = k.timerQueue ∧ k'.frames = k.frames

theorem Undisturbed.refl (k : Kernel) : Undisturbed k k :=
  ⟨rfl, rfl, rfl, rfl⟩

theorem Undisturbed.trans {k1 k2 k3 : Kernel} (h : Undisturbed k1 k2)
    (h' : Undisturbed k2 k3) : Undisturbed k1 k3 :=
  ⟨h'.1.trans h.1, h'.2.1.trans h.2.1, h'.2.2.1.trans h.2.2.1,
    h'.2.2.2.trans h.2.2.2⟩

/-- Insertion keeps the invariant for any thread but the idle one. -/
theorem insert_queueInv (h : QueueInv b k) (ht : t ≠ idleThread) :
    Holds (insertInRunQueueTail t k)
      (fun k' => QueueInv b k' ∧ k' = enqueue k t) (Tolerated b) := by
  have hspec := insertInRunQueueTail_spec t k
  cases hr : insertInRunQueueTail t k with
  | ok k' =>
      obtain ⟨hl, hp, heq⟩ := hspec.of_ok hr
      refine ⟨?_, heq⟩
      rw [heq]
      exact h.enqueue hl hp ht
  | error e =>
      intro hb p hep
      rcases hspec.of_error hr with hlink | ⟨hno, -⟩
      · cases hlink.symm.trans hep
      · exact hno (h.priority hb t)

theorem insertHead_queueInv (h : QueueInv b k) (ht : t ≠ idleThread) :
    Holds (insertInRunQueueHead t k)
      (fun k' => QueueInv b k' ∧ k' = enqueue k t) (Tolerated b) :=
  insert_queueInv h ht

/-- The end of every function that gives up the CPU. -/
theorem leave_queueInv (h : QueueInv b k) (hb : booted k = true)
    (op : Op) (ret : Int) :
    QueueInv b (threadResched (k.pushFrame t (.afterResched op ret))) :=
  (h.pushAfterResched op ret).threadResched hb

/-- A thread without the idle flag is not the idle thread. -/
theorem ne_idle_of_not_flag (hb : booted k = true)
    (ht : ¬ threadIsIdle k t = true) : t ≠ idleThread := by
  rintro rfl
  exact ht hb

/-- A thread that is READY and gives up the CPU. -/
theorem yield_queueInv (h : QueueInv b k) (hb : booted k = true) (t : Tid)
    (op : Op) :
    Holds (do
        let k1 ← (if threadIsIdle k t then pure k
          else insertInRunQueueTail t k)
        return threadResched (k1.pushFrame t (.afterResched op 0)))
      (QueueInv b) (Tolerated b) := by
  refine Holds.bind (Q := fun k' => QueueInv b k' ∧ booted k' = true) ?_ ?_
  · split_ifs with hidle
    · exact ⟨h, hb⟩
    · refine (insert_queueInv h (ne_idle_of_not_flag hb hidle)).imp ?_
      rintro k' ⟨hk', rfl⟩
      exact ⟨hk', hb⟩
  · rintro k' ⟨hk', hb'⟩
    exact leave_queueInv hk' hb' _ _

theorem threadPreempt_queueInv (h : QueueInv b k) (hb : booted k = true) :
    Holds (threadPreempt k) (QueueInv b) (Tolerated b) := by
  have h1 : QueueInv b ((k.emit (.preempted k.current)).setState k.current .ready) :=
    (h.emit (by simp)).setState .ready
  have hb1 : booted ((k.emit (.preempted k.current)).setState k.current .ready)
      = true := (booted_setThread _ rfl).trans hb
  have hdone := yield_queueInv h1 hb1 k.current .preempt
  dsimp only [threadPreempt]
  simp only [insertInRunQueueHead_eq_tail, ite_self]
  exact hdone

theorem threadYield_queueInv (h : QueueInv b k) (hb : booted k = true) :
    Holds (threadYield k) (QueueInv b) (Tolerated b) := by
  have h1 := h.setThread (t := k.current)
    (fun th => { th with state := .ready, remainingQuantum := 0 }) rfl rfl rfl
  have hb1 : booted (k.setThread k.current
      fun th => { th with state := .ready, remainingQuantum := 0 }) = true :=
    (booted_setThread _ rfl).trans hb
  exact yield_queueInv h1 hb1 k.current .yield

/-- A thread on no queue may get another priority. -/
theorem clampPriority_queueInv (h : QueueInv b k)
    (hl : k.queues.link t = none) (p : Int) :
    QueueInv b (k.setThread t fun th =>
      { th with priority := clampPriority p }) := by
  refine h.setThread_linked _ ?_ (h.wait t) ?_ .inr
    (fun _ => priorityOk_clampPriority p)
  · intro q hq
    cases hl.symm.trans hq
  · rw [booted_setThread _ rfl]
    exact id

theorem threadSetPriority_queueInv (h : QueueInv b k) (hb : booted k = true)
    (hc : k.current ≠ idleThread) (p : Int) :
    Holds (threadSetPriority p k) (QueueInv b) (Tolerated b) := by
  dsimp only [threadSetPriority]
  have hspec := insertInRunQueueTail_spec k.current
    (k.setThread k.current fun th => { th with priority := clampPriority p })
  have hok : PriorityOk ((k.setThread k.current fun th =>
      { th with priority := clampPriority p }).threads k.current).priority := by
    simpa using priorityOk_clampPriority p
  rw [insertInRunQueueHead_eq_tail]
  cases hr : insertInRunQueueTail k.current
      (k.setThread k.current fun th => { th with priority := clampPriority p })
    with
  | error e =>
      rcases hspec.of_error hr with hlink | ⟨hno, -⟩
      · rw [hlink]
        exact fun _ _ => by simp
      · exact absurd hok hno
  | ok k' =>
      obtain ⟨hl, hp, rfl⟩ := hspec.of_ok hr
      have hl' : k.queues.link k.current = none := hl
      have hb' : booted (k.setThread k.current
          fun th => { th with priority := clampPriority p }) = true :=
        (booted_setThread _ rfl).trans hb
      exact leave_queueInv
        ((clampPriority_queueInv h hl' p).enqueue hl hp hc) hb' _ _

theorem threadBlock_queueInv (h : QueueInv b k) (hb : booted k = true) :
    QueueInv b (threadBlock k) :=
  leave_queueInv (h.setState .blocked) ((booted_setThread _ rfl).trans hb) _ _

/-- `thread_timer_tick` takes one tick off the quantum. -/
theorem threadTimerTick_snd (k : Kernel) :
    (threadTimerTick k).2 = k.setThread k.current fun th =>
      { th with remainingQuantum := th.remainingQuantum - 1 } := by
  unfold threadTimerTick
  dsimp only
  split_ifs <;> rfl

theorem threadTimerTick_queueInv (h : QueueInv b k) :
    QueueInv b (threadTimerTick k).2 := by
  rw [threadTimerTick_snd]
  exact h.setThread _ rfl rfl rfl

/-! ## Wait queues -/

/-- `thread_unblock_from_wait_queue` finds the waiter on the list of its
    `blocking_wait_queue`. -/
theorem threadUnblockFromWaitQueue_queueInv (h : QueueInv b k) (error : Int) :
    Holds (threadUnblockFromWaitQueue t error k)
      (fun r => QueueInv b r.2 ∧ Undisturbed k r.2)
      (Tolerated b) := by
  rw [threadUnblockFromWaitQueue]
  split_ifs with hst
  · exact ⟨h, Undisturbed.refl k⟩
  · cases hl : k.queues.link t with
    | none =>
        simp only [listDelete, hl, error_bind]
        exact fun _ _ => by simp
    | some ref =>
        simp only [listDelete, hl, ok_bind]
        cases hw : (k.threads t).blockingWaitQueue with
        | none => exact fun _ _ => by simp
        | some q =>
            have hlq := (h.wait t q).mpr hw
            have hne : t ≠ idleThread := by
              rintro rfl
              rw [h.idle_unlinked] at hlq
              cases hlq
            have h1 := h.readyWaiter hlq error
            refine Holds.bind (insertHead_queueInv h1 hne) ?_
            rintro k' ⟨hk', rfl⟩
            exact ⟨hk', booted_readyWaiter q error, rfl, rfl, rfl⟩

theorem waitQueueTimeoutHandler_queueInv (h : QueueInv b k) :
    Holds (waitQueueTimeoutHandler t k)
      (fun r => QueueInv b r.2 ∧ Undisturbed k r.2)
      (Tolerated b) := by
  rw [waitQueueTimeoutHandler]
  refine Holds.bind (threadUnblockFromWaitQueue_queueInv h errTimedOut) ?_
  rintro ⟨err, k'⟩ hk'
  exact hk'

theorem threadSleepHandler_queueInv (h : QueueInv b k) (ht : t ≠ idleThread) :
    Holds (threadSleepHandler t k)
      (fun r => QueueInv b r.2 ∧ Undisturbed k r.2)
      (Tolerated b) := by
  rw [threadSleepHandler]
  refine Holds.bind (insertHead_queueInv (h.setState .ready) ht) ?_
  rintro k' ⟨hk', rfl⟩
  exact ⟨hk', booted_setState .ready, rfl, rfl, rfl⟩

/-- The caller of a rescheduling wake-up is not the idle thread. -/
theorem requeueCaller_queueInv (h : QueueInv b k)
    (hc : k.current ≠ idleThread) :
    Holds (requeueCaller k)
      (fun k' => QueueInv b k' ∧ Undisturbed k k')
      (Tolerated b) := by
  refine (insertHead_queueInv (h.setState .ready) hc).imp ?_
  rintro k' ⟨hk', rfl⟩
  exact ⟨hk', booted_setState .ready, rfl, rfl, rfl⟩

/-- The head of a wait queue is not the idle thread. -/
theorem QueueInv.waiter_ne_idle (h : QueueInv b k) {q : WaitQueueRef}
    (hl : k.queues.link t = some (.wait q)) : t ≠ idleThread := by
  rintro rfl
  rw [h.idle_unlinked] at hl
  cases hl

theorem waitQueueWakeOne_queueInv (h : QueueInv b k) (hb : booted k = true)
    (hc : k.current ≠ idleThread) (q : WaitQueueRef) (reschedule : Bool)
    (error : Int) :
    Holds (waitQueueWakeOne q reschedule error k)
      (fun r => QueueInv b r.2) (Tolerated b) := by
  rw [waitQueueWakeOne, listRemoveHead]
  cases hq : k.queues.items (.wait q) with
  | nil => exact h
  | cons t ts =>
      have hl := k.queues.link_of_items_cons hq
      have ht := QueueInv.waiter_ne_idle h hl
      have h1 := h.readyWaiter hl error
      have hb1 := (booted_readyWaiter (k := k) (t := t) q error).trans hb
      dsimp only
      refine Holds.bind
        (Q := fun k' => QueueInv b k' ∧ booted k' = true) ?_ ?_
      · split_ifs
        · refine (requeueCaller_queueInv h1 hc).imp ?_
          rintro k' ⟨hk', hb', -⟩
          exact ⟨hk', hb'.trans hb1⟩
        · exact ⟨h1, hb1⟩
      · rintro k1 ⟨hk1, hb1'⟩
        refine Holds.bind (insertHead_queueInv hk1 ht) ?_
        rintro k2 ⟨hk2, rfl⟩
        simp only [holds_pure]
        split_ifs
        · exact leave_queueInv hk2 hb1' _ _
        · exact hk2

theorem wakeAllLoop_queueInv (q : WaitQueueRef) (error : Int) :
    ∀ (n : Nat) (ret : Int) (k : Kernel), QueueInv b k →
      Holds (wakeAllLoop q error n ret k)
        (fun r => QueueInv b r.2 ∧ Undisturbed k r.2)
        (Tolerated b) := by
  intro n
  induction n with
  | zero => intro ret k _; exact fun _ _ => by simp
  | succ n ih =>
      intro ret k h
      rw [wakeAllLoop, listRemoveHead]
      cases hq : k.queues.items (.wait q) with
      | nil => exact ⟨h, Undisturbed.refl k⟩
      | cons t ts =>
          have hl := k.queues.link_of_items_cons hq
          have h1 := h.readyWaiter hl error
          refine Holds.bind
            (insertHead_queueInv h1 (QueueInv.waiter_ne_idle h hl)) ?_
          rintro k' ⟨hk', rfl⟩
          refine (ih (ret + 1) _ hk').imp ?_
          rintro r ⟨hr, hu⟩
          exact ⟨hr, Undisturbed.trans
            ⟨booted_readyWaiter q error, rfl, rfl, rfl⟩ hu⟩

theorem waitQueueWakeAll_queueInv (h : QueueInv b k) (q : WaitQueueRef)
    (reschedule : Bool) (error : Int)
    (hr : reschedule = true → booted k = true ∧ k.current ≠ idleThread) :
    Holds (waitQueueWakeAll q reschedule error k)
      (fun r => QueueInv b r.2 ∧ (reschedule = false → Undisturbed k r.2))
      (Tolerated b) := by
  dsimp only [waitQueueWakeAll]
  refine Holds.bind (Q := fun k' => QueueInv b k' ∧ Undisturbed k k') ?_ ?_
  · split_ifs with hres
    · exact requeueCaller_queueInv h (hr hres.1).2
    · exact ⟨h, Undisturbed.refl k⟩
  · rintro k1 ⟨hk1, hu1⟩
    refine Holds.bind (wakeAllLoop_queueInv q error _ 0 k1 hk1) ?_
    rintro ⟨ret, k2⟩ ⟨hk2, hu2⟩
    simp only [holds_pure]
    have hu : Undisturbed k k2 := hu1.trans hu2
    split_ifs with hres
    · refine ⟨leave_queueInv hk2 (hu.1.trans (hr hres.2).1) _ _, ?_⟩
      intro hf
      rw [hf] at hres
      exact Bool.noConfusion hres.2
    · exact ⟨hk2, fun _ => hu⟩

/-- Reaping puts a slot other than that of the idle thread on the free list. -/
theorem unlinkAndFree_queueInv (h : QueueInv b k) (ht : t ≠ idleThread)
    (entitled : Nat) :
    Holds (unlinkAndFree t entitled k)
      (fun k' => QueueInv b k' ∧ Undisturbed k k') (Tolerated b) := by
  rw [unlinkAndFree]
  cases hl : k.threadLists.link t with
  | none => exact fun _ _ => by simp
  | some ref =>
      refine ⟨?_, rfl, rfl, rfl, rfl⟩
      have hnone : (k.threadLists.delete t).link t = none := by simp
      have hlisted : ((k.threadLists.delete t).addTail .free t).link idleThread
          = some .all := by
        rw [NodeLists.link_addTail _ _ _ hnone]
        simpa [Ne.symm ht] using h.idle_listed
      have h1 : QueueInv b { k with
          threadLists := (k.threadLists.delete t).addTail .free t } :=
        { h with idle_listed := hlisted }
      exact h1.emit (by simp)

theorem threadJoinReap_queueInv (h : QueueInv b k) (ht : t ≠ idleThread)
    (wantRetcode : Bool) (lifetime : Nat) :
    Holds (threadJoinReap t wantRetcode lifetime k)
      (QueueInv b) (Tolerated b) := by
  rw [threadJoinReap]
  refine Holds.bind (unlinkAndFree_queueInv h ht lifetime) ?_
  rintro k' ⟨hk', -⟩
  exact hk'.emit (by simp)

theorem waitQueueBlockReturns_queueInv (h : QueueInv b k) (ret : Int) :
    Holds (waitQueueBlockReturns ret k) (QueueInv b) (Tolerated b) := by
  rw [waitQueueBlockReturns]
  split
  · rename_i t wantRetcode lifetime rest hfr
    have ht : t ≠ idleThread := by
      rintro rfl
      refine h.targets k.current (.threadJoin idleThread wantRetcode lifetime)
        ?_ rfl
      rw [hfr]
      exact List.mem_cons_self
    dsimp only
    split_ifs
    · exact h.popFrame.emit (by simp)
    · exact threadJoinReap_queueInv h.popFrame ht _ _
  · exact h

theorem waitQueueBlock_queueInv (h : QueueInv b k) (hb : booted k = true)
    (hc : k.current ≠ idleThread) (q : WaitQueueRef) (timeout : Time) :
    Holds (waitQueueBlock q timeout k) (QueueInv b) (Tolerated b) := by
  dsimp only [waitQueueBlock]
  by_cases h0 : timeout = 0
  · rw [if_pos h0]
    exact waitQueueBlockReturns_queueInv h _
  · rw [if_neg h0]
    cases hl : k.queues.link k.current with
    | some ref =>
        simp only [listAddTail, hl, error_bind]
        exact fun _ _ => by simp
    | none =>
        simp only [listAddTail, hl, ok_bind]
        have h1 := h.blockedOn q hl hc
        have hb1 : booted (blockedOn k q) = true := by
          simpa [booted, threadIsIdle, blockedOn, Ne.symm hc] using hb
        refine Holds.bind (Q := fun k' => QueueInv b k' ∧ booted k' = true)
          ?_ ?_
        · split_ifs
          · refine Holds.imp (h1.armTimer ?_) ?_
            · exact fun _ => by simp
            · rintro k' ⟨hk', tq, rfl⟩
              exact ⟨hk', hb1⟩
          · exact ⟨h1, hb1⟩
        · rintro k' ⟨hk', hb'⟩
          refine QueueInv.threadResched ?_ hb'
          exact hk'.pushFrame (fun _ => by simp) (by rintro ⟨⟩) (fun _ => trivial)

theorem waitQueueBlockRest_queueInv (h : QueueInv b k) (timeout : Time)
    (call : Nat) :
    Holds (waitQueueBlockRest timeout call k)
      (QueueInv b) (Tolerated b) := by
  dsimp only [waitQueueBlockRest]
  refine waitQueueBlockReturns_queueInv ?_ _
  refine QueueInv.emit (QueueInv.popFrame ?_) (by simp)
  split_ifs
  · exact h.timerCancel _
  · exact h

/-! ## The timer interrupt -/

/-- The invariant of the loop of `timer_tick`: no callback reschedules. -/
theorem invokeCallback_queueInv (h : QueueInv b k) {callback : Callback}
    (hcb : ∀ t, callback = .threadSleepHandler t → t ≠ idleThread) :
    Holds (invokeCallback callback k)
      (fun r => QueueInv b r.2 ∧ Undisturbed k r.2) (Tolerated b) := by
  cases callback with
  | threadSleepHandler t => exact threadSleepHandler_queueInv h (hcb t rfl)
  | waitQueueTimeoutHandler t => exact waitQueueTimeoutHandler_queueInv h

/-- Taking the head off the timer queue. -/
theorem dropHead_queueInv (h : QueueInv b k) :
    QueueInv b { k with timerQueue := k.timerQueue.dropHead } := by
  refine h.setTimers _ h.handlers h.oneshot ?_
  intro r hr
  exact h.armed r (List.mem_of_mem_tail hr)

theorem timerTickLoop_queueInv (h : QueueInv b k) (now : Time)
    (ret : HandlerReturn) {n : Nat} (hn : k.timerQueue.queue.length < n) :
    Holds (timerTickLoop timerHost now n ret k)
      (fun r => QueueInv b r.2 ∧ booted r.2 = booted k ∧
        r.2.current = k.current) (Tolerated b) := by
  refine Holds.imp (timerTickLoop_holds timerHost now
    (I := fun _ w => QueueInv b w ∧ booted w = booted k ∧
      w.current = k.current) ?_ ?_ ?_ n ret k ⟨h, rfl, rfl⟩ hn) ?_
  · intro _ w r hI
    exact hI.1.oneshot r
  · intro _ w hI
    exact hI.1.armed
  · intro ret w timer rest callback hI hq _ hcb
    have hdrop : (w.timerQueue.dropHead).queue = rest := by
      show w.timerQueue.queue.tail = rest
      rw [show w.timerQueue.queue = timer :: rest from hq, List.tail_cons]
    refine Holds.imp (invokeCallback_queueInv (dropHead_queueInv hI.1) ?_) ?_
    · rintro t rfl
      exact hI.1.handlers timer t hcb
    · rintro r ⟨hr, hb, hc, htq, -⟩
      refine ⟨⟨hr, hb.trans hI.2.1, hc.trans hI.2.2⟩, ?_⟩
      show r.2.timerQueue.queue.length ≤ rest.length
      rw [htq]
      exact Nat.le_of_eq (congrArg List.length hdrop)
  · rintro r ⟨hI, -⟩
    exact hI

theorem osTimerTickIsr_queueInv (h : QueueInv b k) :
    Holds (osTimerTickIsr k)
      (fun r => QueueInv b r.2 ∧ booted r.2 = booted k) (Tolerated b) := by
  rw [osTimerTickIsr]
  have hclock : ∀ p, QueueInv b { k with platform := p } := fun p =>
    h.congr rfl rfl rfl rfl rfl rfl rfl rfl rfl
  split
  · exact ⟨hclock _, rfl⟩
  · rename_i time p _
    rw [timerTick]
    refine Holds.bind (timerTickLoop_queueInv (hclock p) time _
      (Nat.lt_succ_self _)) ?_
    rintro ⟨ret, k'⟩ ⟨hk', hb', -⟩
    refine ⟨threadTimerTick_queueInv hk', ?_⟩
    show booted (threadTimerTick k').2 = booted k
    have hb1 : booted k' = booted k := hb'
    rw [← hb1, threadTimerTick_snd]
    exact booted_setThread _ rfl

theorem x64ExceptionHandler_queueInv (h : QueueInv b k)
    (hb : booted k = true) :
    Holds (x64ExceptionHandler k) (QueueInv b) (Tolerated b) := by
  rw [x64ExceptionHandler]
  refine Holds.bind (osTimerTickIsr_queueInv h) ?_
  rintro ⟨ret, k'⟩ ⟨hk', hb'⟩
  dsimp only
  split_ifs
  · exact threadPreempt_queueInv hk' (hb'.trans hb)
  · exact hk'

/-! ## The thread API -/

variable {cfg : Config}

/-- A created thread runs only after `thread_become_idle`. -/
theorem QueueInv.booted_of_inThread (h : QueueInv b k) (hin : inThread k) :
    booted k = true := by
  by_contra hb
  exact hin.2 (h.booting (by simpa using hb)).1

theorem threadIdToPtr_holds (thid : Tid) :
    Holds (threadIdToPtr cfg thid) (fun t => t = thid) (Tolerated b) := by
  rw [threadIdToPtr]
  split_ifs
  · exact Int.toNat_natCast thid
  · exact fun _ _ => by simp

/-- An issued id names its slot. -/
theorem threadIdToPtr_eq (h : cfg.ValidId t) :
    threadIdToPtr cfg t = .ok t := by
  have hlt : t < cfg.maxThreadsNum :=
    Nat.lt_of_lt_of_le h.2 (Nat.sub_le _ _)
  have hin : 0 ≤ (t : Int) ∧ (t : Int) < cfg.maxThreadsNum :=
    ⟨Int.natCast_nonneg _, Int.ofNat_lt.mpr hlt⟩
  rw [threadIdToPtr]
  rw [if_pos hin, Int.toNat_natCast]

/-- A pointer to a slot is no index of `g_threads`. -/
theorem threadIdToPtr_ptrToInt (cfg : Config) (t : Tid) :
    threadIdToPtr cfg (cfg.ptrToInt t)
      = .error (.threadIndex (cfg.ptrToInt t)) := by
  have hneg := cfg.ptrToInt_neg t
  rw [threadIdToPtr]
  rw [if_neg]
  omega

/-- An issued id is not the one of the idle thread. -/
theorem Issued.ne_idle {thid : Tid} (h : Issued cfg k thid) :
    thid ≠ idleThread :=
  Nat.ne_of_gt h.1.1

theorem threadCreate_queueInv (h : QueueInv b k) {p : Int}
    (hp : b → PriorityOk p) : QueueInv b (threadCreate p k) := by
  rw [threadCreate]
  split_ifs
  · exact h
  · exact h.pushFrame (fun _ => by simp) (by rintro ⟨⟩) hp

theorem getFreeThreadNode_queueInv (h : QueueInv b k) {p : Int}
    (hp : b → PriorityOk p) : QueueInv b (getFreeThreadNode p k) := by
  have h1 : QueueInv b (k.popFrame k.current) := h.popFrame
  rw [getFreeThreadNode]
  dsimp only
  split
  · exact h1
  · rename_i t ts hfree
    have hl : k.threadLists.link t = some .free :=
      k.threadLists.link_of_items_cons hfree
    have ht : t ≠ idleThread := by
      rintro rfl
      cases hl.symm.trans h.idle_listed
    have hlisted : (k.threadLists.delete t).link idleThread = some .all := by
      simpa [Ne.symm ht] using h.idle_listed
    have h2 : QueueInv b { k.popFrame k.current with
        threadLists := k.threadLists.delete t
        lifetime := Function.update k.lifetime t (k.lifetime t + 1) } :=
      { h1 with idle_listed := hlisted }
    exact h2.pushFrame (fun _ => by simp) (by simpa [target] using ht) hp

/-- Clearing a slot that nothing refers to. -/
theorem initThread_queueInv (h : QueueInv b k) {p : Int} (ht : t ≠ idleThread)
    (hp : b → PriorityOk p) :
    Holds (initThread t p k) (QueueInv b) (Tolerated b) := by
  rw [initThread]
  dsimp only
  split_ifs with hclear
  · obtain ⟨-, hq, hw, -⟩ := hclear
    have h1 : QueueInv b (k.popFrame k.current) := h.popFrame
    have hl : (k.popFrame k.current).queues.link t = none := hq
    have h2 : QueueInv b ((k.popFrame k.current).setThread t
        fun _ => { Thread.zero with priority := p }) := by
      refine h1.setThread_linked _ ?_ ?_ ?_ (by rintro ⟨⟩) hp
      · intro q hq
        cases hl.symm.trans hq
      · intro q
        rw [hl]
        exact ⟨by simp, by rintro ⟨⟩⟩
      · rw [booted_setThread_of_ne _ ht]
        exact id
    have h3 : QueueInv b { (k.popFrame k.current).setThread t
          fun _ => { Thread.zero with priority := p } with
        waitCount := Function.update k.waitCount (.exitOf t) 0 } := by
      refine { h2 with count := ?_ }
      intro q
      by_cases hqt : q = .exitOf t
      · subst hqt
        have hnil : k.waitList (.exitOf t) = [] := hw
        show Function.update k.waitCount (.exitOf t) 0 (.exitOf t)
          = (k.waitList (.exitOf t)).length
        rw [Function.update_self, hnil]
        rfl
      · show Function.update k.waitCount (.exitOf t) 0 q = _
        rw [Function.update_of_ne hqt]
        exact h.count q
    refine QueueInv.pushFrame (h3.setFrames [.initialThreadFunc] ?_ ?_ ?_)
      (fun _ => by simp) (by rintro ⟨⟩) (fun _ => trivial)
    · exact fun _ hi => absurd hi ht
    · simp [target]
    · simp [carriesOk]
  · exact fun _ _ => by simp

theorem linkThread_queueInv (h : QueueInv b k) :
    Holds (linkThread t k) (QueueInv b) (Tolerated b) := by
  have h1 : QueueInv b (k.popFrame k.current) := h.popFrame
  unfold linkThread
  dsimp only
  split
  · rename_i hl
    have hl' : k.threadLists.link t = none := hl
    have hlisted : (k.threadLists.addTail .all t).link idleThread
        = some .all := by
      rw [NodeLists.link_addTail _ _ _ hl']
      by_cases ht : idleThread = t
      · subst ht; simp
      · simpa [ht] using h.idle_listed
    have h2 : QueueInv b { k.popFrame k.current with
        threadLists := k.threadLists.addTail .all t } :=
      { h1 with idle_listed := hlisted }
    exact h2.emit (by simp)
  · exact fun _ _ => by simp

theorem threadResume_queueInv (h : QueueInv b k) {thid : Tid}
    (ht : thid ≠ idleThread) {intsDisabled : Bool}
    (hb : intsDisabled = false → booted k = true) :
    Holds (threadResume cfg thid intsDisabled k)
      (QueueInv b) (Tolerated b) := by
  rw [threadResume]
  refine Holds.bind (threadIdToPtr_holds thid) ?_
  rintro t rfl
  by_cases hs : (k.threads t).state = .suspended
  · rw [if_pos hs]
    refine Holds.bind (insertHead_queueInv (h.setState .ready) ht) ?_
    rintro k' ⟨hk', rfl⟩
    simp only [holds_pure]
    split_ifs with hi
    · exact hk'
    · refine hk'.pushFrame ?_ (by rintro ⟨⟩) (fun _ => trivial)
      intro hbf
      have hb' := (booted_setState (k := k) (t := t) .ready).trans
        (hb (by simpa using hi))
      exact Bool.noConfusion (hbf.symm.trans hb')
  · rw [if_neg hs]
    exact h

theorem threadSleep_queueInv (h : QueueInv b k) (hb : booted k = true)
    (hc : k.current ≠ idleThread) (delay : Time) :
    Holds (threadSleep delay k) (QueueInv b) (Tolerated b) := by
  dsimp only [threadSleep]
  refine Holds.bind (h.armTimer ?_) ?_
  · rintro t heq
    cases heq
    exact hc
  · rintro k' ⟨hk', tq, rfl⟩
    exact leave_queueInv (hk'.setState .sleeping)
      ((booted_setState .sleeping).trans hb) _ _

theorem threadUnblock_queueInv (h : QueueInv b k) (hb : booted k = true)
    {thid : Tid} (ht : thid ≠ idleThread) (resched : Bool) :
    Holds (threadUnblock cfg thid resched k) (QueueInv b) (Tolerated b) := by
  dsimp only [threadUnblock]
  refine Holds.bind (threadIdToPtr_holds thid) ?_
  rintro t rfl
  refine Holds.bind (insertHead_queueInv (h.setState .ready) ht) ?_
  rintro k' ⟨hk', rfl⟩
  simp only [holds_pure]
  split_ifs
  · exact leave_queueInv hk' ((booted_setState .ready).trans hb) _ _
  · exact hk'

/-- What `thread_exit` does before it gives up the CPU. -/
def died (retcode : Int) (k : Kernel) : Kernel :=
  (k.setThread k.current fun th =>
    { th with state := .death, retcode := retcode }).emit
      (.exited k.current (k.lifetime k.current) retcode)

theorem state_died (retcode : Int) (k : Kernel) :
    ((died retcode k).threads k.current).state = .death := by
  simp [died]

/-- `thread_exit` after that: nobody runs until it dispatches. -/
theorem threadExit_eq (retcode : Int) (k : Kernel) :
    threadExit retcode k = (do
      let k1 ←
        (if ((died retcode k).threads k.current).flags.detached then
          unlinkAndFree k.current ((died retcode k).lifetime k.current)
            (died retcode k)
        else do
          let (_, k1) ← waitQueueWakeAll (.exitOf k.current) false noErr
            (died retcode k)
          return k1)
      return threadResched
        (k1.pushFrame k.current (.afterResched .exit 0))) := rfl

theorem threadExit_queueInv (h : QueueInv b k) (hb : booted k = true)
    (hc : k.current ≠ idleThread) (retcode : Int) :
    Holds (threadExit retcode k) (QueueInv b) (Tolerated b) := by
  have h1 : QueueInv b (died retcode k) :=
    (h.setThread _ rfl rfl rfl).emit (by simp)
  have hb1 : booted (died retcode k) = true := by
    rw [← hb]
    exact booted_setThread (fun th =>
      { th with state := .death, retcode := retcode }) rfl
  rw [threadExit_eq]
  refine Holds.bind (Q := fun k' => QueueInv b k' ∧ booted k' = true) ?_ ?_
  · split_ifs
    · refine (unlinkAndFree_queueInv h1 hc _).imp ?_
      rintro k' ⟨hk', hu⟩
      exact ⟨hk', hu.1.trans hb1⟩
    · refine Holds.bind (waitQueueWakeAll_queueInv h1 _ false noErr (by simp)) ?_
      rintro ⟨ret, k'⟩ ⟨hk', hu⟩
      exact ⟨hk', (hu rfl).1.trans hb1⟩
  · rintro k' ⟨hk', hb'⟩
    exact leave_queueInv hk' hb' _ _

theorem threadJoin_queueInv (h : QueueInv b k) (hb : booted k = true)
    (hc : k.current ≠ idleThread) {thid : Tid} (ht : thid ≠ idleThread)
    (wantRetcode : Bool) (timeout : Time) :
    Holds (threadJoin cfg thid wantRetcode timeout k)
      (QueueInv b) (Tolerated b) := by
  dsimp only [threadJoin]
  refine Holds.bind (threadIdToPtr_holds thid) ?_
  rintro t rfl
  split_ifs
  · exact h.emit (by simp)
  · have h1 : QueueInv b
        (k.pushFrame k.current (.threadJoin t wantRetcode (k.lifetime t))) :=
      h.pushFrame (fun _ => by simp) (by simpa [target] using ht)
        (fun _ => trivial)
    exact waitQueueBlock_queueInv h1 hb hc _ _
  · exact threadJoinReap_queueInv h ht _ _

theorem threadDetach_queueInv (h : QueueInv b k) (thid : Tid) :
    Holds (threadDetach cfg thid k) (QueueInv b) (Tolerated b) := by
  dsimp only [threadDetach]
  refine Holds.bind (threadIdToPtr_holds thid) ?_
  rintro t rfl
  refine Holds.bind
    (waitQueueWakeAll_queueInv h _ false errThreadDetached (by simp)) ?_
  rintro ⟨ret, k'⟩ ⟨hk', -⟩
  simp only [holds_pure]
  split_ifs
  · refine QueueInv.pushFrame ?_ (fun _ => by simp) (by rintro ⟨⟩) (fun _ => trivial)
    exact hk'.setThread _ rfl rfl rfl
  · exact hk'.setThread _ rfl rfl rfl

/-- `thread_detach` hands `thread_join` a pointer, which is no id. -/
theorem detachJoin_eq (cfg : Config) (t : Tid) (k : Kernel) :
    detachJoin cfg t k = .error (.threadIndex (cfg.ptrToInt t)) := by
  rw [detachJoin, threadJoin]
  rw [threadIdToPtr_ptrToInt, error_bind]

/-- `thread_detach_and_resume` hands on a pointer, which is no id. -/
theorem threadDetachAndResume_eq (cfg : Config) (thid : Int)
    (intsDisabled : Bool) (k : Kernel) :
    ∃ n, threadDetachAndResume cfg thid intsDisabled k
      = .error (.threadIndex n) := by
  unfold threadDetachAndResume threadDetach
  cases ht : threadIdToPtr cfg thid with
  | error e =>
      rw [threadIdToPtr] at ht
      split_ifs at ht
      cases ht
      exact ⟨thid, rfl⟩
  | ok t =>
      rw [ok_bind, threadIdToPtr_ptrToInt, error_bind, error_bind]
      exact ⟨_, rfl⟩

theorem threadBecomeIdle_queueInv (h : QueueInv b k)
    (hc : k.current = idleThread) : QueueInv b (threadBecomeIdle k) := by
  have hb : booted (k.setThread k.current fun th =>
      { th with
        priority := idlePriority
        flags := { th.flags with idle := true } }) = true := by
    simp [booted, threadIsIdle, hc]
  have h1 : QueueInv b (k.setThread k.current fun th =>
      { th with
        priority := idlePriority
        flags := { th.flags with idle := true } }) := by
    refine h.setThread_linked _ ?_ (h.wait k.current) ?_ (fun _ => .inl hc) ?_
    · intro p hl
      rw [hc, h.idle_unlinked] at hl
      cases hl
    · exact fun hf => Bool.noConfusion (hf.symm.trans hb)
    · exact fun _ => show PriorityOk idlePriority by decide
  refine h1.pushFrame ?_ (by rintro ⟨⟩) (fun _ => trivial)
  exact fun hf => Bool.noConfusion (hf.symm.trans hb)

/-! ## Steps and runs -/

/-- The idle thread yields only once it is idle. -/
theorem QueueInv.booted_of_threadYield (h : QueueInv b k)
    (hf : Frame.threadYield ∈ k.frames k.current) : booted k = true := by
  by_contra hb
  obtain ⟨hc, hno⟩ := h.booting (by simpa using hb)
  rw [hc] at hf
  exact hno hf

/-- The topmost frame is one of the frames. -/
theorem mem_of_frames_eq {f : Frame} {rest : List Frame}
    (hf : k.frames k.current = f :: rest) : f ∈ k.frames k.current := by
  rw [hf]
  exact List.mem_cons_self

theorem continueFrame_queueInv (h : QueueInv b k) :
    Holds (continueFrame cfg k) (QueueInv b) (Tolerated b) := by
  rw [continueFrame]
  split
  · exact h
  · exact h.popFrame
  · split_ifs
    · exact fun _ _ => by simp
    · exact h.popFrame
  · exact waitQueueBlockRest_queueInv h _ _
  · exact h.popFrame
  · rename_i p _ hf
    exact getFreeThreadNode_queueInv h
      (fun hb => h.carried hb _ _ (mem_of_frames_eq hf))
  · rename_i t p _ hf
    refine initThread_queueInv h ?_
      (fun hb => h.carried hb _ _ (mem_of_frames_eq hf))
    rintro rfl
    exact h.targets _ _ (mem_of_frames_eq hf) rfl
  · exact linkThread_queueInv h
  · rename_i _ hf
    have hb : booted k = true :=
      QueueInv.booted_of_threadYield h (mem_of_frames_eq hf)
    exact threadYield_queueInv h.popFrame hb
  · rw [detachJoin_eq]
    exact fun _ _ => by simp

/-- What `b` asks of the calls: `thread_create` gets a priority in range. -/
def CreatesOk (b : Prop) (_ : Kernel) (a : Action) : Prop :=
  b → ∀ p, a = .threadCreate p → PriorityOk p

/-- **Every step keeps the queue invariant**, and with `b` its fault is no
    index out of the bounds of `run_queue`. -/
theorem exec_queueInv (h : QueueInv b k) {a : Action} (hen : Enabled cfg a k)
    (hok : CreatesOk b k a) :
    Holds (exec cfg a k) (QueueInv b) (Tolerated b) := by
  have hbin := QueueInv.booted_of_inThread h
  have hwake : ∀ q (reschedule : Bool) error, inThread k →
      Holds (waitQueueWakeAll q reschedule error k) (fun r => QueueInv b r.2)
        (Tolerated b) := by
    intro q reschedule error hin
    refine (waitQueueWakeAll_queueInv h q reschedule error
      (fun _ => ⟨hbin hin, hin.2⟩)).imp ?_
    exact fun r hr => hr.1
  cases a with
  | goOn => exact continueFrame_queueInv h
  | interrupt => exact x64ExceptionHandler_queueInv h hen.1
  | threadCreate p => exact threadCreate_queueInv h (fun hb => hok hb p rfl)
  | threadResume thid intsDisabled =>
      refine threadResume_queueInv h (Issued.ne_idle hen.1) ?_
      intro hi
      rcases hen.2.2 with hin | ⟨-, ht⟩
      · exact hbin hin
      · exact Bool.noConfusion (hi.symm.trans ht)
  | threadYield => exact threadYield_queueInv h (hbin hen)
  | threadPreempt => exact threadPreempt_queueInv h (hbin hen)
  | threadSetPriority p =>
      exact threadSetPriority_queueInv h (hbin hen) hen.2 p
  | threadSleep delay => exact threadSleep_queueInv h (hbin hen) hen.2 delay
  | threadBlock => exact threadBlock_queueInv h (hbin hen)
  | threadUnblock thid resched =>
      exact threadUnblock_queueInv h (hbin hen.2.2) (Issued.ne_idle hen.1) _
  | threadExit retcode => exact threadExit_queueInv h (hbin hen) hen.2 retcode
  | threadJoin thid wantRetcode timeout =>
      exact threadJoin_queueInv h (hbin hen.2) hen.2.2
        (Issued.ne_idle hen.1) _ _
  | threadDetach thid => exact threadDetach_queueInv h thid
  | threadDetachAndResume thid intsDisabled =>
      obtain ⟨n, heq⟩ := threadDetachAndResume_eq cfg thid intsDisabled k
      show Holds (ChinixThread.threadDetachAndResume cfg thid intsDisabled k)
        _ _
      rw [heq]
      exact fun _ _ => by simp
  | threadPreemptDisable =>
      exact h.congr rfl rfl rfl rfl rfl rfl rfl rfl rfl
  | threadPreemptEnable =>
      show QueueInv b (ChinixRunQueue.threadPreemptEnable k)
      rw [ChinixRunQueue.threadPreemptEnable]
      split_ifs
      · exact h.congr rfl rfl rfl rfl rfl rfl rfl rfl rfl
      · exact h
  | threadBecomeIdle => exact threadBecomeIdle_queueInv h hen.2.1
  | waitQueueBlock q timeout =>
      exact waitQueueBlock_queueInv h (hbin hen) hen.2 _ _
  | waitQueueWakeOne q reschedule error =>
      refine Holds.bind
        (waitQueueWakeOne_queueInv h (hbin hen) hen.2 _ reschedule error) ?_
      exact fun _ hr => hr
  | waitQueueWakeAll q reschedule error =>
      exact Holds.bind (hwake _ reschedule error hen) (fun _ hr => hr)
  | waitQueueDestroy q reschedule =>
      exact Holds.bind (hwake _ reschedule errObjectDestoryed hen)
        (fun _ hr => hr)

/-- The state in which the first thread is created. -/
theorem bootKernel_queueInv (cfg : Config) (b : Prop) :
    QueueInv b (bootKernel cfg) where
  bitmap := by
    intro p _
    simp [bootKernel, Kernel.runQueue]
  run := by rintro _ _ ⟨⟩
  wait := by
    intro t q
    by_cases h : t = idleThread
    · subst h; simp [bootKernel, Thread.zero]
    · simp [bootKernel, Thread.zero, h]
  count := fun _ => rfl
  idle_unlinked := rfl
  idle_listed := rfl
  booting := fun _ => ⟨rfl, by rintro ⟨⟩⟩
  flag := by
    intro t hf
    by_contra h
    simp [bootKernel, Thread.zero, h] at hf
  handlers := by rintro _ _ ⟨⟩
  oneshot := fun _ => rfl
  armed := by rintro _ ⟨⟩
  targets := by rintro _ _ ⟨⟩
  priority := by
    intro _ t
    by_cases h : t = idleThread
    · subst h
      show PriorityOk highestPriority
      decide
    · have h0 : ((bootKernel cfg).threads t).priority = 0 := by
        simp [bootKernel, Thread.zero, h]
      rw [h0]
      decide
  carried := fun _ => by rintro _ _ ⟨⟩
  chosen := by rintro _ _ _ ⟨⟩

/-- **Every run keeps the queue invariant.** -/
theorem queueInv_of_reachable {ok : Kernel → Action → Prop}
    (hok : ∀ k a, ok k a → CreatesOk b k a) (h : Reachable cfg ok k) :
    QueueInv b k := by
  refine Runs.Reachable.invariant (I := QueueInv b) (bootKernel_queueInv cfg b)
    ?_ h
  intro s a s' hs ha hstep
  exact (exec_queueInv hs hstep.1 (hok s a ha)).of_ok hstep.2

end ChinixQueueRuns

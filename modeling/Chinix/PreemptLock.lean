import Chinix.QueueRuns

/-! # Interrupts while preemption is disabled

    `thread_timer_tick` asks for a reschedule only if preemption is enabled.
    The callbacks that `timer_tick` runs before it do not ask: the handler of
    `thread_sleep` always wants to reschedule, the one of `wait_queue_block`
    whenever it readied its thread.  So a thread that disabled preemption
    keeps the CPU over an interrupt exactly when no such timer is due. -/

namespace ChinixPreemptLock

open ChinixTimerQueue ChinixPlatformTimer ChinixKernel ChinixRunQueue
open ChinixWaitQueue ChinixThread ChinixMachine Outcome ChinixQueueInvariant
open ChinixQueueRuns

variable {k k' : Kernel}

/-- The step did not call `thread_preempt` and left the CPU to its owner. -/
def NotPreempted (k k' : Kernel) : Prop :=
  ∃ new, k'.log = k.log ++ new ∧ (∀ t, Event.preempted t ∉ new) ∧
    k'.current = k.current

/-- The callback of the timer wants to reschedule: that of a sleeping thread,
    and that of a thread that is BLOCKED. -/
def Reschedules (k : Kernel) (r : TimerRef) : Prop :=
  match (k.timerQueue.timers r).callback with
  | some (.threadSleepHandler _) => True
  | some (.waitQueueTimeoutHandler t) => (k.threads t).state = .blocked
  | none => False

/-! ## The loop -/

/-- How far the loop of `timer_tick` has come: the timers `done` have run, and
    it wants to reschedule if one of them did.  As long as none did, nothing
    has changed but the queue. -/
structure Expired (k : Kernel) (now : Time) (ret : HandlerReturn)
    (w : Kernel) : Prop where
  done : ∃ done, k.timerQueue.queue = done ++ w.timerQueue.queue ∧
    (∀ r ∈ done, ¬ now < (k.timerQueue.timers r).schedTime) ∧
    (ret = .reschedule ↔ ∃ r ∈ done, Reschedules k r)
  timers : w.timerQueue.timers = k.timerQueue.timers
  lock : w.preemptLock = k.preemptLock
  log : k.log <+: w.log
  quiet : ret = .noReschedule →
    w.threads = k.threads ∧ w.log = k.log ∧ w.current = k.current

/-- `thread_unblock_from_wait_queue` reports a thread that is not BLOCKED. -/
theorem waitQueueTimeoutHandler_not_blocked {t : Tid}
    (hs : (k.threads t).state ≠ .blocked) :
    waitQueueTimeoutHandler t k = .ok (.noReschedule, k) := by
  rw [waitQueueTimeoutHandler, threadUnblockFromWaitQueue]
  rw [if_pos hs]
  rfl

/-- What the callbacks leave alone: the timers and the lock; they only add to
    the log. -/
def TimersKept (k k' : Kernel) : Prop :=
  k'.timerQueue = k.timerQueue ∧ k'.preemptLock = k.preemptLock ∧
    k.log <+: k'.log

theorem insertInRunQueueHead_kept (t : Tid) (k : Kernel) :
    Holds (insertInRunQueueHead t k) (TimersKept k) (fun _ => True) := by
  rw [insertInRunQueueHead_eq_tail]
  cases hr : insertInRunQueueTail t k with
  | error e => trivial
  | ok k' =>
      obtain ⟨-, -, rfl⟩ := (insertInRunQueueTail_spec t k).of_ok hr
      exact ⟨rfl, rfl, List.prefix_refl _⟩

theorem threadSleepHandler_kept (t : Tid) (k : Kernel) :
    Holds (threadSleepHandler t k)
      (fun r => r.1 = .reschedule ∧ TimersKept k r.2) (fun _ => True) := by
  rw [threadSleepHandler]
  refine Holds.bind (insertInRunQueueHead_kept t (k.setState t .ready)) ?_
  exact fun k' hk' => ⟨rfl, hk'⟩

theorem waitQueueTimeoutHandler_blocked {t : Tid}
    (hs : (k.threads t).state = .blocked) :
    Holds (waitQueueTimeoutHandler t k)
      (fun r => r.1 = .reschedule ∧ TimersKept k r.2) (fun _ => True) := by
  rw [waitQueueTimeoutHandler, threadUnblockFromWaitQueue]
  rw [if_neg (not_not.mpr hs)]
  cases hl : k.queues.link t with
  | none => simp only [listDelete, hl, error_bind, holds_error]
  | some ref =>
      simp only [listDelete, hl, ok_bind]
      cases hw : (k.threads t).blockingWaitQueue with
      | none => trivial
      | some q =>
          refine Holds.bind (Q := fun r => r.1 = noErr ∧ TimersKept k r.2)
            ?_ ?_
          · refine Holds.bind (insertInRunQueueHead_kept t _) ?_
            rintro k' ⟨htq, hlock, hlog⟩
            refine ⟨rfl, htq, hlock, ?_⟩
            exact (List.prefix_append _ _).trans hlog
          · rintro ⟨err, k'⟩ ⟨herr, hk'⟩
            have herr' : err = noErr := herr
            subst herr'
            exact ⟨rfl, hk'⟩

variable {now : Time} {ret : HandlerReturn} {w : Kernel}

/-- The timers that are done with once the head of the queue is. -/
theorem Expired.splits (h : Expired k now ret w) {timer : TimerRef}
    {rest : List TimerRef} (hq : w.timerQueue.queue = timer :: rest)
    (hdue : ¬ now < (k.timerQueue.timers timer).schedTime) :
    ∃ done, k.timerQueue.queue = (done ++ [timer]) ++ rest ∧
      (∀ r ∈ done ++ [timer], ¬ now < (k.timerQueue.timers r).schedTime) ∧
      (ret = .reschedule ↔ ∃ r ∈ done, Reschedules k r) := by
  obtain ⟨done, hsplit, hall, hret⟩ := h.done
  refine ⟨done, ?_, ?_, hret⟩
  · rw [hsplit, hq, List.append_assoc, List.singleton_append]
  · intro r hr
    rcases List.mem_append.mp hr with hr | hr
    · exact hall r hr
    · rw [List.mem_singleton.mp hr]
      exact hdue

/-- The first timer that wants to reschedule is so in `k`; the ones after it
    find a loop that does already. -/
theorem Expired.wanted (h : Expired k now ret w) {timer : TimerRef}
    {rest : List TimerRef} (hq : w.timerQueue.queue = timer :: rest)
    (hdue : ¬ now < (k.timerQueue.timers timer).schedTime)
    (hres : ret = .noReschedule → Reschedules k timer) :
    ∃ done, k.timerQueue.queue = done ++ rest ∧
      (∀ r ∈ done, ¬ now < (k.timerQueue.timers r).schedTime) ∧
      ∃ r ∈ done, Reschedules k r := by
  obtain ⟨done, hsplit, hall, hret⟩ := h.splits hq hdue
  refine ⟨done ++ [timer], hsplit, hall, ?_⟩
  cases hr : ret with
  | reschedule =>
      obtain ⟨r, hmem, hwants⟩ := hret.mp hr
      exact ⟨r, List.mem_append_left _ hmem, hwants⟩
  | noReschedule =>
      exact ⟨timer, List.mem_append_right _ List.mem_cons_self, hres hr⟩

/-- The round of a callback that wants to reschedule and faults. -/
theorem Expired.fault (h : Expired k now ret w) {timer : TimerRef}
    {rest : List TimerRef} (hq : w.timerQueue.queue = timer :: rest)
    (hdue : ¬ now < (k.timerQueue.timers timer).schedTime)
    (hres : ret = .noReschedule → Reschedules k timer) :
    ∃ r ∈ dueAt k now, Reschedules k r := by
  obtain ⟨done, hsplit, hall, r, hmem, hwants⟩ := h.wanted hq hdue hres
  refine ⟨r, ?_, hwants⟩
  rw [dueAt, hsplit]
  exact mem_takeWhile_append (by simpa using hall) hmem

/-- The round of a callback that wants to reschedule. -/
theorem Expired.fire (h : Expired k now ret w) {timer : TimerRef}
    {rest : List TimerRef} (hq : w.timerQueue.queue = timer :: rest)
    (hdue : ¬ now < (k.timerQueue.timers timer).schedTime)
    (hres : ret = .noReschedule → Reschedules k timer) {w' : Kernel}
    (hkept : TimersKept { w with timerQueue := w.timerQueue.dropHead } w') :
    Expired k now .reschedule w' := by
  obtain ⟨htq, hlock, hlog⟩ := hkept
  obtain ⟨done, hsplit, hall, hsome⟩ := h.wanted hq hdue hres
  have hqueue : w'.timerQueue.queue = rest := by
    rw [htq]
    show w.timerQueue.queue.tail = rest
    rw [hq, List.tail_cons]
  refine ⟨⟨done, ?_, hall, fun _ => hsome, fun _ => rfl⟩, ?_, ?_, ?_, ?_⟩
  · rw [hqueue]
    exact hsplit
  · rw [htq]
    exact h.timers
  · exact hlock.trans h.lock
  · exact h.log.trans hlog
  · simp

/-- The round of a callback that finds its thread awake. -/
theorem Expired.skip (h : Expired k now ret w) {timer : TimerRef}
    {rest : List TimerRef} (hq : w.timerQueue.queue = timer :: rest)
    (hdue : ¬ now < (k.timerQueue.timers timer).schedTime)
    (hno : ret = .noReschedule → ¬ Reschedules k timer) :
    Expired k now ret { w with timerQueue := w.timerQueue.dropHead } := by
  obtain ⟨done, hsplit, hall, hret⟩ := h.splits hq hdue
  refine ⟨⟨done ++ [timer], ?_, hall, ?_⟩, h.timers, h.lock, h.log, h.quiet⟩
  · show k.timerQueue.queue = (done ++ [timer]) ++ w.timerQueue.queue.tail
    rw [hq, List.tail_cons]
    exact hsplit
  · constructor
    · intro hr
      obtain ⟨r, hmem, hwants⟩ := hret.mp hr
      exact ⟨r, List.mem_append_left _ hmem, hwants⟩
    · rintro ⟨r, hmem, hwants⟩
      rcases List.mem_append.mp hmem with hr | hr
      · exact hret.mpr ⟨r, hr, hwants⟩
      · rw [List.mem_singleton.mp hr] at hwants
        cases hr' : ret with
        | reschedule => rfl
        | noReschedule => exact absurd hwants (hno hr')

/-- **One round of the loop.**  A callback that faults had wanted to
    reschedule. -/
theorem Expired.step (h : Expired k now ret w) {timer : TimerRef}
    {rest : List TimerRef} {callback : Callback}
    (hq : w.timerQueue.queue = timer :: rest)
    (hdue : ¬ now < (w.timerQueue.timers timer).schedTime)
    (hcb : (w.timerQueue.timers timer).callback = some callback) :
    Holds (invokeCallback callback
        { w with timerQueue := w.timerQueue.dropHead })
      (fun r => Expired k now
          (if r.1 = .reschedule then .reschedule else ret) r.2 ∧
        r.2.timerQueue.queue.length ≤ rest.length)
      (fun _ => ∃ r ∈ dueAt k now, Reschedules k r) := by
  rw [h.timers] at hdue hcb
  have hdrop : w.timerQueue.dropHead.queue = rest := by
    show w.timerQueue.queue.tail = rest
    rw [hq, List.tail_cons]
  -- the round of a callback that wants to reschedule
  have hround : ∀ r : HandlerReturn × Kernel,
      (ret = .noReschedule → Reschedules k timer) →
      r.1 = .reschedule ∧
        TimersKept { w with timerQueue := w.timerQueue.dropHead } r.2 →
      Expired k now (if r.1 = .reschedule then .reschedule else ret) r.2 ∧
        r.2.timerQueue.queue.length ≤ rest.length := by
    rintro ⟨ret', w'⟩ hres ⟨rfl, hkept⟩
    refine ⟨h.fire hq hdue hres hkept, ?_⟩
    show w'.timerQueue.queue.length ≤ rest.length
    rw [hkept.1]
    exact Nat.le_of_eq (congrArg List.length hdrop)
  cases callback with
  | threadSleepHandler t =>
      have hres : ret = .noReschedule → Reschedules k timer := by
        intro _
        rw [Reschedules, hcb]
        trivial
      have hkept := threadSleepHandler_kept t
        { w with timerQueue := w.timerQueue.dropHead }
      show Holds (threadSleepHandler t _) _ _
      cases hx : threadSleepHandler t
          { w with timerQueue := w.timerQueue.dropHead } with
      | error e => exact h.fault hq hdue hres
      | ok r => exact hround r hres (hkept.of_ok hx)
  | waitQueueTimeoutHandler t =>
      -- as long as no timer wanted to reschedule, the thread is as it was
      have hiff : ret = .noReschedule →
          (Reschedules k timer ↔ (w.threads t).state = .blocked) := by
        intro hr
        rw [Reschedules, hcb, (h.quiet hr).1]
      show Holds (waitQueueTimeoutHandler t _) _ _
      by_cases hs : (w.threads t).state = .blocked
      · have hres := fun hr => (hiff hr).mpr hs
        have hkept := waitQueueTimeoutHandler_blocked (t := t)
          (k := { w with timerQueue := w.timerQueue.dropHead }) hs
        cases hx : waitQueueTimeoutHandler t
            { w with timerQueue := w.timerQueue.dropHead } with
        | error e => exact h.fault hq hdue hres
        | ok r => exact hround r hres (hkept.of_ok hx)
      · rw [waitQueueTimeoutHandler_not_blocked
          (k := { w with timerQueue := w.timerQueue.dropHead }) hs]
        refine ⟨h.skip hq hdue (fun hr hwants => hs ((hiff hr).mp hwants)), ?_⟩
        exact Nat.le_of_eq (congrArg List.length hdrop)

/-- Where the loop ends, it wants to reschedule if a due timer did. -/
theorem Expired.finish (h : Expired k now ret w)
    (hend : ∀ timer rest, w.timerQueue.queue = timer :: rest →
      now < (w.timerQueue.timers timer).schedTime) :
    ret = .reschedule ↔ ∃ r ∈ dueAt k now, Reschedules k r := by
  obtain ⟨done, hsplit, hall, hret⟩ := h.done
  have hdue : dueAt k now = done := by
    rw [dueAt, hsplit, List.takeWhile_append_of_pos (by simpa using hall)]
    cases hq : w.timerQueue.queue with
    | nil => rw [List.takeWhile_nil, List.append_nil]
    | cons timer rest =>
        have hlater := hend timer rest hq
        rw [h.timers] at hlater
        simp [hlater]
  rw [hdue]
  exact hret

theorem timerTickLoop_expired (hinv : QueueInv False k) (now : Time) :
    Holds (timerTickLoop timerHost now (k.timerQueue.queue.length + 1)
        .noReschedule k)
      (fun r => Expired k now r.1 r.2 ∧
        (r.1 = .reschedule ↔ ∃ r ∈ dueAt k now, Reschedules k r))
      (fun _ => ∃ r ∈ dueAt k now, Reschedules k r) := by
  have hstart : Expired k now .noReschedule k :=
    ⟨⟨[], rfl, by simp, by simp, by simp⟩, rfl, rfl, List.prefix_refl _,
      fun _ => ⟨rfl, rfl, rfl⟩⟩
  refine Holds.imp (timerTickLoop_holds timerHost now
    (I := Expired k now) ?_ ?_ ?_ _ _ k hstart (Nat.lt_succ_self _)) ?_
  · intro ret w r hw
    show (w.timerQueue.timers r).periodicTime = 0
    rw [hw.timers]
    exact hinv.oneshot r
  · intro ret w hw r hr
    obtain ⟨done, hsplit, -⟩ := hw.done
    show (w.timerQueue.timers r).callback ≠ none
    rw [hw.timers]
    refine hinv.armed r ?_
    rw [hsplit]
    exact List.mem_append_right _ hr
  · intro ret w timer rest callback hw hq hdue hcb
    exact hw.step hq hdue hcb
  · rintro ⟨ret, w⟩ ⟨hw, hend⟩
    exact ⟨hw, hw.finish hend⟩

/-! ## The interrupt -/

/-- `thread_timer_tick` does not ask for a reschedule under the lock. -/
theorem threadTimerTick_locked (h : k.preemptLock ≠ 0) :
    (threadTimerTick k).1 = .noReschedule := by
  unfold threadTimerTick threadPreemptIsEnabled
  dsimp only
  rw [if_neg]
  rintro ⟨-, henabled⟩
  exact h (by simpa using henabled)

/-- What the interrupt handler does up to its last decision. -/
theorem osTimerTickIsr_locked (hinv : QueueInv False k)
    (hlock : k.preemptLock ≠ 0) :
    Holds (osTimerTickIsr k)
      (fun r => (r.1 = .reschedule ↔ ∃ r ∈ dueTimers k, Reschedules k r) ∧
        k.log <+: r.2.log ∧
        (r.1 = .noReschedule →
          r.2.log = k.log ∧ r.2.current = k.current))
      (fun _ => ∃ r ∈ dueTimers k, Reschedules k r) := by
  rw [osTimerTickIsr, dueTimers]
  rcases htick : osTimerTick k.platform with ⟨_ | now, p⟩
  · exact ⟨by simp, List.prefix_refl _, fun _ => ⟨rfl, rfl⟩⟩
  · have hclock : QueueInv False { k with platform := p } :=
      hinv.congr rfl rfl rfl rfl rfl rfl rfl rfl rfl
    dsimp only
    rw [timerTick]
    refine Holds.bind (timerTickLoop_expired hclock now) ?_
    rintro ⟨ret, w⟩ ⟨hw, hret⟩
    have hlock' : w.preemptLock ≠ 0 := by
      rw [hw.lock]
      exact hlock
    have htick : threadTimerTick w
        = (.noReschedule, (threadTimerTick w).2) :=
      Prod.ext (threadTimerTick_locked hlock') rfl
    dsimp only
    rw [htick, threadTimerTick_snd]
    exact ⟨hret, hw.log, fun hno => ⟨(hw.quiet hno).2.1, (hw.quiet hno).2.2⟩⟩

theorem insertInRunQueueTail_kept (t : Tid) (k : Kernel) :
    Holds (insertInRunQueueTail t k) (TimersKept k) (fun _ => True) :=
  insertInRunQueueHead_kept t k

/-- `thread_preempt` leaves a trace in the log. -/
theorem threadPreempt_logs (k : Kernel) :
    Holds (threadPreempt k) (fun k' => ∃ new,
      k'.log = k.log ++ .preempted k.current :: new) (fun _ => True) := by
  dsimp only [threadPreempt]
  refine Holds.bind (Q := TimersKept
    ((k.emit (.preempted k.current)).setState k.current .ready)) ?_ ?_
  · split_ifs
    · exact ⟨rfl, rfl, List.prefix_refl _⟩
    · exact insertInRunQueueHead_kept _ _
    · exact insertInRunQueueTail_kept _ _
  · rintro k1 ⟨-, -, new, hnew⟩
    rw [holds_pure, log_threadResched, Kernel.pushFrame_log, ← hnew,
      Kernel.setThread_log, Kernel.emit_log, List.append_assoc,
      List.append_assoc]
    exact ⟨_, rfl⟩

/-- **The interrupt under the lock**: it returns to the thread that disabled
    preemption, without calling `thread_preempt`, exactly when no timer is due
    whose callback wants to reschedule. -/
theorem interrupt_notPreempted_iff {cfg : Config}
    (h : Reachable cfg AnyCall k) (hlock : k.preemptLock ≠ 0) :
    (∃ k', x64ExceptionHandler k = .ok k' ∧ NotPreempted k k') ↔
      ∀ r ∈ dueTimers k, ¬ Reschedules k r := by
  have hinv : QueueInv False k :=
    queueInv_of_reachable (fun _ _ _ hf => hf.elim) h
  have hisr := osTimerTickIsr_locked hinv hlock
  rw [x64ExceptionHandler]
  cases hx : osTimerTickIsr k with
  | error e =>
      obtain ⟨r, hr, hres⟩ := hisr.of_error hx
      constructor
      · rintro ⟨k', hk', -⟩
        cases hk'
      · intro hall
        exact absurd hres (hall r hr)
  | ok r =>
      obtain ⟨ret, k1⟩ := r
      obtain ⟨hret, ⟨new, hnew⟩, hquiet⟩ := hisr.of_ok hx
      rw [ok_bind]
      dsimp only at hret hnew hquiet ⊢
      cases ret with
      | reschedule =>
          obtain ⟨r, hr, hres⟩ := hret.mp rfl
          constructor
          · rintro ⟨k', hk', new', hlog, hno, -⟩
            rw [if_pos rfl] at hk'
            obtain ⟨rest, hrest⟩ := (threadPreempt_logs k1).of_ok hk'
            rw [← hnew, hlog, List.append_assoc] at hrest
            have heq := List.append_cancel_left hrest
            refine absurd ?_ (hno k1.current)
            rw [heq]
            exact List.mem_append_right _ List.mem_cons_self
          · intro hall
            exact absurd hres (hall r hr)
      | noReschedule =>
          have hnone : ¬ ∃ r ∈ dueTimers k, Reschedules k r :=
            fun hsome => by cases hret.mpr hsome
          constructor
          · intro _ r hr hres
            exact hnone ⟨r, hr, hres⟩
          · intro _
            refine ⟨k1, rfl, [], ?_, by simp, (hquiet rfl).2⟩
            rw [List.append_nil]
            exact (hquiet rfl).1

/-- Thread 1 sleeps; thread 2 disables preemption and is interrupted. -/
def sleeperAndPrinter : List Action :=
  [.threadCreate 5, .goOn, .goOn, .goOn, .threadResume 1 true,
   .threadCreate 5, .goOn, .goOn, .goOn, .threadResume 2 true,
   .threadBecomeIdle, .goOn, .goOn, .threadSleep 5, .goOn,
   .threadPreemptDisable] ++ [.interrupt]

instance (k : Kernel) (r : TimerRef) : Decidable (Reschedules k r) := by
  unfold Reschedules
  split <;> infer_instance

/-- Before the sleeper is due, the interrupt returns to thread 2. -/
theorem printer_keeps_the_cpu :
    ∃ k, Reachable tenSlots AnyCall k ∧ k.preemptLock ≠ 0 ∧
      ∃ k', x64ExceptionHandler k = .ok k' ∧ NotPreempted k k' := by
  obtain ⟨k, hk, hlock, hnone⟩ :=
    exists_reachable_of_replay tenSlots AnyCall
      (fun k => k.preemptLock ≠ 0 ∧
        ∀ r ∈ dueTimers k, ¬ Reschedules k r) sleeperAndPrinter.dropLast
      (by decide +kernel)
  exact ⟨k, hk, hlock, (interrupt_notPreempted_iff hk hlock).mpr hnone⟩

/-- Thread 2 disabled preemption, and the timer of the sleeper takes the CPU
    from it. -/
theorem printer_is_preempted :
    ¬ ∀ k, Reachable tenSlots AnyCall k → k.preemptLock ≠ 0 →
      interruptsEnabled k →
      ∀ k', x64ExceptionHandler k = .ok k' → NotPreempted k k' := by
  intro hall
  obtain ⟨k, hk, hlock, hin, hsome⟩ :=
    exists_reachable_of_replay tenSlots AnyCall
      (fun k => k.preemptLock ≠ 0 ∧ interruptsEnabled k ∧
        (x64ExceptionHandler k).toOption.any fun k' => k'.current ≠ k.current)
      sleeperAndPrinter (by decide +kernel)
  rw [Option.any_eq_true] at hsome
  obtain ⟨k', hk', hne⟩ := hsome
  cases hx : x64ExceptionHandler k with
  | error e =>
      rw [hx] at hk'
      cases hk'
  | ok k1 =>
      obtain ⟨-, -, -, hsame⟩ := hall k hk hlock hin k1 hx
      rw [hx] at hk'
      cases hk'
      exact of_decide_eq_true hne hsame

end ChinixPreemptLock

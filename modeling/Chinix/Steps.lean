import Chinix.ThreadCalls

/-! # Every step is a sequence of moves

    The timer interrupt, the rest of a call, and then all actions.  `Allowed`
    gathers what the actions need under a scope.  From it follow the rules
    for runs: an invariant of the moves holds in every state of every run. -/

namespace ChinixSteps

open ChinixTimerQueue ChinixPlatformTimer ChinixKernel ChinixRunQueue
open ChinixWaitQueue ChinixThread ChinixMachine Outcome ChinixQueueInvariant
open ChinixQueueRuns ChinixLifecycle ChinixMoves ChinixLifeInvariant
open ChinixSimulation ChinixThreadCalls

variable {s : Scope} {k k' w : Kernel} {t : Tid} {cfg : Config}

/-! ## The timer interrupt -/

/-- The timeout of a thread that waits for an exit. -/
def EndsJoin (k : Kernel) : TimerRef → Prop
  | .sleep _ => False
  | .wait t => (k.threads t).state = .blocked ∧ joining (k.frames t) ≠ none

/-- No timer that is due wakes a thread from a join. -/
def JoinersPatient (k : Kernel) : Prop := ∀ r ∈ dueTimers k, ¬ EndsJoin k r

/-- How far the loop of `timer_tick` has come: the timers `done` have run. -/
structure Ticking (s : Scope) (k : Kernel) (now : Time) (w : Kernel) :
    Prop where
  moves : Moves s k w
  good : Good s w
  current : w.current = k.current
  booted : booted w = booted k
  frames : w.frames = k.frames
  timers : w.timerQueue.timers = k.timerQueue.timers
  done : ∃ done, k.timerQueue.queue = done ++ w.timerQueue.queue ∧
    ∀ r ∈ done, ¬ now < (k.timerQueue.timers r).schedTime
  blocked : ∀ t, (w.threads t).state = .blocked →
    (k.threads t).state = .blocked

/-- No thread becomes BLOCKED. -/
def NoneBlocked (k k' : Kernel) : Prop :=
  ∀ t, (k'.threads t).state = .blocked → (k.threads t).state = .blocked

/-- The timeout of a thread that waits, if it does, for no exit. -/
theorem waitQueueTimeoutHandler_woke (hq : QueueInv s.total k)
    (hcode : s.code errTimedOut)
    (hb : (k.threads t).state = .blocked →
      ∃ n, k.queues.link t = some (.wait (.user n))) :
    Holds (waitQueueTimeoutHandler t k)
      (fun r => Woke s k r.2 ∧ NoneBlocked k r.2) (Excused s) := by
  rw [waitQueueTimeoutHandler, threadUnblockFromWaitQueue]
  by_cases hs : (k.threads t).state = .blocked
  · rw [if_neg (not_not.mpr hs)]
    obtain ⟨n, hl⟩ := hb hs
    simp only [listDelete, hl, ok_bind, (hq.wait t (.user n)).mp hl]
    refine Holds.bind (Q := fun r => Woke s k r.2 ∧ NoneBlocked k r.2) ?_ ?_
    · refine Holds.bind
        (wake_holds hq hl (mayWake_user k n hcode)) ?_
      rintro k1 ⟨hw, rfl⟩
      refine ⟨hw, ?_⟩
      intro u hu
      have hv := congrArg View.state
        (view_wake (k := k) (q := .user n) (t := t) errTimedOut u)
      by_cases hut : u = t
      · rw [hut]
        exact hs
      · rw [if_neg hut] at hv
        exact hv.symm.trans hu
    · rintro ⟨err, k1⟩ hk1
      exact hk1
  · rw [if_pos hs]
    exact ⟨Woke.refl hq, fun _ => id⟩

/-- The end of a sleep, after its timer was taken off the timer queue. -/
theorem threadSleepHandler_done (h : Good s k) (ht : t ≠ idleThread)
    (hs : (k.threads t).state = .sleeping)
    (htm : TimerRef.sleep t ∉ k.timerQueue.queue) :
    Holds (threadSleepHandler t k)
      (fun r => Done s k r.2 ∧ QueueInv s.total r.2 ∧ Undisturbed k r.2 ∧
        NoneBlocked k r.2) (Excused s) := by
  have hne : t ≠ k.current := by
    rintro rfl
    cases hs.symm.trans h.rest.running
  have hs' : (view k t).state = .sleeping := hs
  have hl : k.queues.link t = none :=
    (h.life.ok t).unlinked (by rw [hs']; exact not_runnable_sleeping)
      (by rw [hs']; simp)
  have hm : k.threadLists.link t = some .all :=
    (h.life.ok t).listed (by rw [hs']; simp) (by rw [hs']; simp)
  rw [threadSleepHandler]
  rw [insertInRunQueueHead_eq_tail]
  refine Holds.bind (insert_holds (h.queue.setState .ready) ht hl) ?_
  rintro k1 ⟨-, hq1, rfl⟩
  have hmove : Move s k (enqueue (k.setState t .ready) t) :=
    .enlist t _ .ready (sameLife_state _ .ready) ht hl (.inl rfl)
      (by rw [hs]; simp) htm hm
  refine ⟨done_of_move hmove (resting_enqueue h.rest hne hl _), hq1,
    ⟨booted_setState .ready, rfl, rfl, rfl⟩, ?_⟩
  intro u hu
  have hu' : ((k.setState t .ready).threads u).state = .blocked := hu
  by_cases hut : u = t
  · rw [hut, Kernel.setThread_threads, Function.update_self] at hu'
    cases hu'
  · rw [Kernel.setThread_threads, Function.update_of_ne hut] at hu'
    exact hu'

/-- The timer at the head of the queue is taken off. -/
theorem Ticking.expired {now : Time} (h : Ticking s k now w) {r : TimerRef}
    {rest : List TimerRef} (hq : w.timerQueue.queue = r :: rest)
    (hdue : ¬ now < (w.timerQueue.timers r).schedTime) :
    Ticking s k now { w with timerQueue := w.timerQueue.dropHead } := by
  have hdrop : w.timerQueue.dropHead.queue = rest := by
    show w.timerQueue.queue.tail = rest
    rw [hq, List.tail_cons]
  obtain ⟨done, hsplit, hall⟩ := h.done
  refine ⟨h.moves.tail .expire, ⟨dropHead_queueInv h.good.queue,
    lifeInv_expire h.good.life, ⟨h.good.rest.running, h.good.rest.unlinked⟩⟩,
    h.current, h.booted, h.frames, h.timers, ⟨done ++ [r], ?_, ?_⟩, h.blocked⟩
  · show k.timerQueue.queue = done ++ [r] ++ w.timerQueue.dropHead.queue
    rw [hsplit, hq, hdrop, List.append_assoc, List.singleton_append]
  · intro r' hr'
    rcases List.mem_append.mp hr' with hold | hnew
    · exact hall r' hold
    · rw [List.mem_singleton.mp hnew, ← h.timers]
      exact hdue

/-- A callback has run. -/
theorem Ticking.callback {now : Time} (h : Ticking s k now w)
    (hd : Done s w k') (hq : QueueInv s.total k') (hu : Undisturbed w k')
    (hb : NoneBlocked w k') : Ticking s k now k' := by
  obtain ⟨hbooted, hcur, htq, hfr⟩ := hu
  refine ⟨h.moves.trans hd.moves, ⟨hq, lifeInv_moves h.good.life hd.moves,
    hd.rest⟩, hcur.trans h.current, hbooted.trans h.booted,
    hfr.trans h.frames, ?_, ?_, fun t ht => h.blocked t (hb t ht)⟩
  · rw [htq]
    exact h.timers
  · rw [htq]
    exact h.done

/-- A waiter whose timer is due waits for no exit. -/
theorem Ticking.waiter {now : Time} (h : Ticking s k now w)
    (hp : ∀ r ∈ dueAt k now, ¬ EndsJoin k r)
    {rest : List TimerRef} (hq : w.timerQueue.queue = .wait t :: rest)
    (hdue : ¬ now < (w.timerQueue.timers (.wait t)).schedTime)
    (hb : (w.threads t).state = .blocked) :
    ∃ n, w.queues.link t = some (.wait (.user n)) := by
  have hok := h.good.life.ok t
  have hwaiting : (view w t).waiting = true := by
    simp [view, hq]
  obtain ⟨q, delay, call, below, hfr, -⟩ := hok.timeout hwaiting
  have hin : blockedIn (w.frames t) = some q := by
    rw [show w.frames t = _ from hfr]
    rfl
  have hl : w.queues.link t = some (.wait q) := by
    refine (hok.call q hin).resolve_right ?_
    show ¬ Runnable (w.threads t).state
    rw [hb]
    exact not_runnable_blocked
  cases q with
  | user n => exact ⟨n, hl⟩
  | exitOf u =>
      obtain ⟨wr, l, hmem⟩ := hok.stack.mem_of_exitOf hin
      have hjoin : joining (k.frames t) = some u := by
        rw [← h.frames]
        exact (joining_eq_some_iff hok.stack).mpr ⟨wr, l, hmem⟩
      refine absurd ⟨h.blocked t hb, by rw [hjoin]; simp⟩ (hp (.wait t) ?_)
      obtain ⟨done, hsplit, hall⟩ := h.done
      rw [hq, ← List.singleton_append, ← List.append_assoc] at hsplit
      rw [dueAt, hsplit]
      refine mem_takeWhile_append ?_
        (List.mem_append_right _ (List.mem_singleton_self _))
      intro r' hr'
      rcases List.mem_append.mp hr' with hold | hnew
      · simpa using hall r' hold
      · rw [List.mem_singleton.mp hnew, ← h.timers]
        simpa using hdue

theorem Ticking.step {now : Time} (h : Ticking s k now w)
    (hcode : s.code errTimedOut)
    (hp : ∀ r ∈ dueAt k now, ¬ EndsJoin k r)
    {r : TimerRef} {rest : List TimerRef} {callback : Callback}
    (hq : w.timerQueue.queue = r :: rest)
    (hdue : ¬ now < (w.timerQueue.timers r).schedTime)
    (hcb : (w.timerQueue.timers r).callback = some callback) :
    Holds (invokeCallback callback
        { w with timerQueue := w.timerQueue.dropHead })
      (fun x => Ticking s k now x.2 ∧
        x.2.timerQueue = w.timerQueue.dropHead) (Excused s) := by
  have hexp := h.expired hq hdue
  have hmem : r ∈ w.timerQueue.queue := by rw [hq]; exact List.mem_cons_self
  have hhandler : callback = handler r :=
    Option.some.inj (hcb.symm.trans (h.good.life.timers r hmem))
  subst hhandler
  cases r with
  | sleep t =>
      have ht : t ≠ idleThread := h.good.queue.handlers _ t hcb
      have hs : (w.threads t).state = .sleeping := by
        refine (h.good.life.ok t).sleep ?_
        simpa [view] using hmem
      have htm : TimerRef.sleep t ∉ w.timerQueue.dropHead.queue := by
        show TimerRef.sleep t ∉ w.timerQueue.queue.tail
        have hnodup := w.timerQueue.nodup
        rw [hq] at hnodup ⊢
        exact (List.nodup_cons.mp hnodup).1
      refine (threadSleepHandler_done hexp.good ht hs htm).imp ?_
      rintro x ⟨hd, hq1, hu, hb⟩
      exact ⟨hexp.callback hd hq1 hu hb, hu.2.2.1⟩
  | wait t =>
      refine (waitQueueTimeoutHandler_woke hexp.good.queue hcode
        (h.waiter hp hq hdue)).imp ?_
      rintro x ⟨hw, hb⟩
      exact ⟨hexp.callback ⟨hw.moves, hw.resting hexp.good.rest⟩ hw.queue
        hw.undisturbed hb, hw.undisturbed.2.2.1⟩

/-- The loop of `timer_tick`. -/
theorem timerTickLoop_ticking (h : Good s k) (now : Time)
    (hcode : s.code errTimedOut)
    (hp : ∀ r ∈ dueAt k now, ¬ EndsJoin k r) :
    Holds (timerTickLoop timerHost now (k.timerQueue.queue.length + 1)
        .noReschedule k)
      (fun r => Ticking s k now r.2) (Excused s) := by
  have hstart : Ticking s k now k :=
    ⟨.refl, h, rfl, rfl, rfl, rfl, ⟨[], rfl, by simp⟩, fun _ => id⟩
  refine Holds.imp (timerTickLoop_holds timerHost now
    (I := fun _ w => Ticking s k now w) ?_ ?_ ?_ _ _ k hstart
    (Nat.lt_succ_self _)) ?_
  · intro _ w r hw
    exact hw.good.queue.oneshot r
  · intro _ w hw
    exact hw.good.queue.armed
  · intro _ w r rest callback hw hq hdue hcb
    refine (hw.step hcode hp hq hdue hcb).imp ?_
    rintro x ⟨hx, htq⟩
    refine ⟨hx, ?_⟩
    show x.2.timerQueue.queue.length ≤ rest.length
    have hdrop : w.timerQueue.dropHead.queue = rest := by
      show w.timerQueue.queue.tail = rest
      rw [show w.timerQueue.queue = r :: rest from hq, List.tail_cons]
    exact Nat.le_of_eq (by rw [htq, hdrop])
  · rintro r ⟨hr, -⟩
    exact hr

/-- What the interrupt handler does up to its last decision. -/
theorem osTimerTickIsr_done (h : Good s k) (hcode : s.code errTimedOut)
    (hp : JoinersPatient k) :
    Holds (osTimerTickIsr k)
      (fun r => Done s k r.2 ∧ Good s r.2 ∧ booted r.2 = booted k ∧
        r.2.current = k.current ∧ r.2.frames = k.frames) (Excused s) := by
  rw [osTimerTickIsr]
  rw [JoinersPatient, dueTimers] at hp
  rcases htick : osTimerTick k.platform with ⟨_ | now, p⟩
  all_goals
    have hclock : Move s k { k with platform := p } :=
      .clock p k.preemptLock
    have h1 : Good s { k with platform := p } :=
      ⟨h.queue.congr rfl rfl rfl rfl rfl rfl rfl rfl rfl,
        lifeInv_move h.life hclock, ⟨h.rest.running, h.rest.unlinked⟩⟩
  · exact ⟨done_of_move hclock h1.rest, h1, rfl, rfl, rfl⟩
  · rw [htick] at hp
    dsimp only at hp ⊢
    rw [timerTick]
    refine Holds.bind (timerTickLoop_ticking h1 now hcode hp) ?_
    rintro ⟨ret, w⟩ hw
    have htouch : Move s w (threadTimerTick w).2 := by
      rw [threadTimerTick_snd]
      exact .retouch w.current _ ⟨rfl, rfl, rfl, rfl, fun _ => rfl⟩
    have hmoves := (Relation.ReflTransGen.single hclock).trans
      (hw.moves.tail htouch)
    have hq := threadTimerTick_queueInv hw.good.queue
    have hrest : Resting (threadTimerTick w).2 := by
      rw [threadTimerTick_snd]
      exact resting_setThread hw.good.rest rfl
    have hgood : Good s (threadTimerTick w).2 :=
      ⟨hq, lifeInv_move hw.good.life htouch, hrest⟩
    refine ⟨⟨hmoves, hrest⟩, hgood, ?_, ?_, ?_⟩
    · show booted (threadTimerTick w).2 = booted k
      rw [threadTimerTick_snd]
      exact (booted_setThread _ rfl).trans hw.booted
    · show (threadTimerTick w).2.current = k.current
      rw [threadTimerTick_snd]
      exact hw.current
    · show (threadTimerTick w).2.frames = k.frames
      rw [threadTimerTick_snd]
      exact hw.frames

theorem x64ExceptionHandler_done (h : Good s k) (hi : interruptsEnabled k)
    (hcode : s.code errTimedOut) (hp : JoinersPatient k) :
    Holds (x64ExceptionHandler k) (Done s k) (Excused s) := by
  have hleaves : Leaves (k.frames k.current) := by
    have hmask := hi.2
    have hok : FramesOk (k.frames k.current) := (h.life.ok k.current).stack
    cases hfr : k.frames k.current with
    | nil => exact .inl rfl
    | cons f rest =>
        rw [hfr] at hmask hok
        exact leaves_of_interruptible hok hmask
  rw [x64ExceptionHandler]
  refine Holds.bind (osTimerTickIsr_done h hcode hp) ?_
  rintro ⟨ret, k1⟩ ⟨hd, h1, hb, hc, hfr⟩
  dsimp only
  split_ifs with hret
  · have hb1 : booted k1 = true := hb.trans hi.1
    have hc1 : k1.current = k.current := hc
    have hfr1 : k1.frames = k.frames := hfr
    have hdone := threadPreempt_done h1 hb1 (by rw [hc1, hfr1]; exact hleaves)
    exact hdone.imp (fun k2 hk2 => ⟨hd.moves.trans hk2.moves, hk2.rest⟩)
  · exact hd

/-! ## Going on -/

/-- The frame on top is a blocking call or gives up its place. -/
theorem pop_done (h : Good s k) {f : Frame} {rest : List Frame}
    (hfr : k.frames k.current = f :: rest)
    (hb : blockedIn (f :: rest) = none) (hheld : heldSlot f = none) :
    Done s k (k.popFrame k.current) :=
  done_of_move (leave_move h.life hfr hb hheld)
    ⟨h.rest.running, h.rest.unlinked⟩

theorem continueFrame_done (h : Good s k)
    (hj : ∀ p, k.frames k.current = [.getFreeThreadNode p] → HeadUnjoined k)
    (hs : joining (k.frames k.current) ≠ none → s.joins) :
    Holds (continueFrame cfg k) (Done s k) (Excused s) := by
  have hok : FramesOk (k.frames k.current) := (h.life.ok k.current).stack
  rw [continueFrame]
  cases hfr : k.frames k.current with
  | nil => exact ⟨.refl, h.rest⟩
  | cons f rest =>
      have hone := frames_eq_singleton h.life hfr
      cases f with
      | initialThreadFunc => exact pop_done h hfr rfl rfl
      | afterResched op ret =>
          dsimp only
          split_ifs with hop
          · subst hop
            have hdeath :=
              (h.life.ok k.current).exit ret (mem_of_frames_eq hfr)
            cases h.rest.running.symm.trans hdeath
          · exact pop_done h hfr rfl rfl
      | waitQueueBlock q timeout call => exact waitQueueBlockRest_done h hs hfr
      | threadJoin t w l => exact pop_done h hfr rfl rfl
      | getFreeThreadNode p =>
          exact getFreeThreadNode_done h (hone rfl) (hj p (hone rfl))
      | initThread t p => exact initThread_done h (hone rfl)
      | linkThread t => exact linkThread_done h (hone rfl)
      | threadYield =>
          have hb : booted k = true :=
            QueueInv.booted_of_threadYield h.queue (mem_of_frames_eq hfr)
          have hpop := pop_done h hfr rfl rfl
          have hgood : Good s (k.popFrame k.current) :=
            ⟨h.queue.popFrame, lifeInv_moves h.life hpop.moves, hpop.rest⟩
          have hleaves : Leaves ((k.popFrame k.current).frames k.current) := by
            refine .inl ?_
            rw [Kernel.popFrame_frames, Function.update_self, hone rfl]
            rfl
          exact (threadYield_done hgood hb hleaves).imp
            (fun k1 hk1 => ⟨hpop.moves.trans hk1.moves, hk1.rest⟩)
      | detachJoin t =>
          dsimp only
          rw [detachJoin_eq]
          refine fun _ => ⟨?_, _, rfl⟩
          intro hj
          cases h.life.joinless hj k.current (.detachJoin t)
            (mem_of_frames_eq hfr)

/-! ## All actions -/

/-- What the actions need under a scope, beyond being enabled. -/
def Allowed (s : Scope) (k : Kernel) (a : Action) : Prop :=
  match a with
  | .goOn =>
      (∀ p, k.frames k.current = [.getFreeThreadNode p] → HeadUnjoined k) ∧
        (joining (k.frames k.current) ≠ none → s.joins)
  | .interrupt => JoinersPatient k ∧ s.code errTimedOut
  | .threadCreate p => s.total → PriorityOk p
  | .threadResume thid _ => (k.threads thid).state = .suspended →
      k.threadLists.link thid = some .all
  | .threadUnblock thid resched => MayUnblock s k thid resched
  | .threadSetPriority p =>
      s.single → ∀ q, q ≤ (clampPriority p).toNat → k.runQueue q = []
  | .threadJoin thid _ timeout => MayJoin s k thid timeout
  | .threadDetach thid => MayDetach s k thid
  | .threadDetachAndResume _ _ => ¬ s.joinless
  | .threadExit _ => s.code noErr
  | .waitQueueWakeOne _ _ error => s.code error
  | .waitQueueWakeAll _ _ error => s.code error
  | .waitQueueDestroy _ _ => s.code errObjectDestoryed
  | _ => True

/-- `wait_queue_block` called from outside the kernel. -/
theorem waitQueueBlock_user_done (h : Good s k) (hin : inThread k) (n : Nat)
    (timeout : Time) :
    Holds (waitQueueBlock (.user n) timeout k) (Done s k) (Excused s) := by
  by_cases h0 : timeout = 0
  · have hnil : waitQueueBlock (.user n) timeout k = .ok k := by
      rw [waitQueueBlock]
      dsimp only
      rw [if_pos h0, waitQueueBlockReturns_nil _ hin.1]
    rw [hnil]
    exact ⟨.refl, h.rest⟩
  · have hdone := waitQueueBlock_done (s := s) h hin.2 hin.1
      (q := .user n) (.inl ⟨n, rfl, rfl⟩) h0
    have hsame : Function.update k.frames k.current [] = k.frames := by
      rw [← hin.1]
      exact Function.update_eq_self _ _
    rw [hsame] at hdone
    exact hdone

/-- **Every allowed step is a sequence of moves** and leaves the current
    thread RUNNING; under the scope `total` the one fault is a pointer that
    is taken for a thread id. -/
theorem exec_done (h : Good s k) {a : Action} (hen : Enabled cfg a k)
    (hal : Allowed s k a) :
    Holds (exec cfg a k) (Done s k) (Excused s) := by
  have hbin := QueueInv.booted_of_inThread h.queue
  have hclock : ∀ n, Done s k { k with preemptLock := n } := fun n =>
    done_of_move (.clock k.platform n) ⟨h.rest.running, h.rest.unlinked⟩
  cases a with
  | goOn => exact continueFrame_done h hal.1 hal.2
  | interrupt => exact x64ExceptionHandler_done h hen hal.2 hal.1
  | threadCreate p =>
      exact threadCreate_done h (hen.elim (fun hin => hin.1) (fun hin => hin.1)) p
  | threadResume thid intsDisabled =>
      obtain ⟨hid, -, hin⟩ := hen
      exact threadResume_done h
        (hin.elim (fun hin => hin.1) (fun hin => hin.1.1)) hid _ hal
  | threadYield => exact threadYield_done h (hbin hen) (.inl hen.1)
  | threadPreempt => exact threadPreempt_done h (hbin hen) (.inl hen.1)
  | threadSetPriority p => exact threadSetPriority_done h hen.2 hen.1 p hal
  | threadSleep delay => exact threadSleep_done h hen.2 hen.1 delay
  | threadBlock => exact threadBlock_done h hen.2 hen.1
  | threadUnblock thid resched =>
      exact threadUnblock_done h hen.2.2.1 hen.1 hen.2.1 hal
  | threadExit retcode => exact threadExit_done h hen.2 hen.1 retcode hal
  | threadJoin thid wantRetcode timeout =>
      exact threadJoin_done h hen.2.2 hen.2.1 hen.1 wantRetcode hal
  | threadDetach thid =>
      exact threadDetach_done h
        (hen.2.elim (fun hin => hin.1) (fun hin => hin.1)) hen.1 hal
  | threadDetachAndResume thid intsDisabled =>
      obtain ⟨n, heq⟩ := threadDetachAndResume_eq cfg thid intsDisabled k
      show Holds (ChinixThread.threadDetachAndResume cfg thid intsDisabled k)
        _ _
      rw [heq]
      exact fun _ => ⟨hal, n, rfl⟩
  | threadPreemptDisable => exact hclock _
  | threadPreemptEnable =>
      show Done s k (ChinixRunQueue.threadPreemptEnable k)
      rw [ChinixRunQueue.threadPreemptEnable]
      split_ifs
      · exact hclock _
      · exact ⟨.refl, h.rest⟩
  | threadBecomeIdle => exact threadBecomeIdle_done h hen.1
  | waitQueueBlock q timeout => exact waitQueueBlock_user_done h hen q timeout
  | waitQueueWakeOne q reschedule error =>
      exact Holds.bind
        (waitQueueWakeOne_done h hen.2 hen.1 q reschedule hal)
        (fun _ hr => hr.1)
  | waitQueueWakeAll q reschedule error =>
      exact Holds.bind
        (waitQueueWakeAll_done h hen.2 hen.1 q reschedule hal)
        (fun _ hr => hr.1)
  | waitQueueDestroy q reschedule =>
      exact Holds.bind
        (waitQueueWakeAll_done h hen.2 hen.1 q reschedule hal)
        (fun _ hr => hr.1)

/-! ## Runs -/

theorem bootKernel_lifeInv (cfg : Config) (s : Scope) :
    LifeInv s (bootKernel cfg) where
  ok := by
    intro t
    constructor
    · rintro _ ⟨⟩
    · rintro _ ⟨⟩
    · rintro _ ⟨⟩
    · rintro ⟨⟩
    · rintro ⟨⟩
    · exact .nil
    · by_cases ht : t = idleThread
      · rw [ht]
        exact .inr (.inr rfl)
      · refine .inl ?_
        simp [view, bootKernel, ht, Thread.zero]
    · exact fun _ => .inr rfl
    · rintro _ ⟨⟩
    · exact fun hj => absurd rfl hj
  held := by rintro _ _ ⟨⟩
  timers := by rintro _ ⟨⟩
  idle := .inr rfl
  joins := by rintro _ _ _ _ ⟨⟩
  joinless := fun _ _ => by rintro _ ⟨⟩
  undetached := by
    intro _ t ht
    simp [bootKernel, ht, Thread.zero]
  once := fun _ => by rintro _ _ ⟨⟩

theorem bootKernel_resting (cfg : Config) : Resting (bootKernel cfg) :=
  ⟨rfl, rfl⟩

theorem bootKernel_good (cfg : Config) (s : Scope) : Good s (bootKernel cfg) :=
  ⟨bootKernel_queueInv cfg s.total, bootKernel_lifeInv cfg s,
    bootKernel_resting cfg⟩

/-- An allowed step leads to a state between two steps, by moves. -/
theorem good_of_step (h : Good s k) {a : Action} (hal : Allowed s k a)
    (hst : Step cfg k a k') : Good s k' ∧ Moves s k k' := by
  have hdone := (exec_done h hst.1 hal).of_ok hst.2
  refine ⟨⟨?_, lifeInv_moves h.life hdone.moves, hdone.rest⟩, hdone.moves⟩
  refine (exec_queueInv h.queue hst.1 ?_).of_ok hst.2
  intro htotal p hp
  subst hp
  exact hal htotal

variable {ok : Kernel → Action → Prop}

/-- The states of a run under `Allowed`. -/
theorem good_of_reachable (hok : ∀ k a, Good s k → ok k a → Allowed s k a)
    (h : Reachable cfg ok k) : Good s k :=
  h.invariant (bootKernel_good cfg s)
    (fun k1 a _ hg ha hst => (good_of_step hg (hok k1 a hg ha) hst).1)

/-- What every move keeps, every sequence of moves keeps. -/
theorem keeps_of_moves {I : Kernel → Prop}
    (hm : ∀ k k', LifeInv s k → I k → Move s k k' → I k')
    (h : LifeInv s k) (hI : I k) (hmoves : Moves s k k') : I k' := by
  have hboth : LifeInv s k' ∧ I k' := by
    induction hmoves with
    | refl => exact ⟨h, hI⟩
    | tail _ hmove ih =>
        exact ⟨lifeInv_move ih.1 hmove, hm _ _ ih.1 ih.2 hmove⟩
  exact hboth.2

/-- **The invariant rule**: what the moves keep holds in every state of every
    run. -/
theorem invariant_of_moves {I : Kernel → Prop}
    (hok : ∀ k a, Good s k → ok k a → Allowed s k a)
    (h0 : I (bootKernel cfg))
    (hm : ∀ k k', LifeInv s k → I k → Move s k k' → I k')
    (h : Reachable cfg ok k) : I k := by
  refine h.invariant_under (fun _ hr => good_of_reachable hok hr) h0 ?_
  intro k1 a k2 hg hI ha hst
  exact keeps_of_moves hm hg.life hI (good_of_step hg (hok k1 a hg ha) hst).2

/-! ## Runs in which nobody joins -/

/-- The calls that neither join nor detach a thread.  A thread that is resumed
    is on `thread_list`. -/
def SchedulerCall (k : Kernel) (a : Action) : Prop :=
  match a with
  | .threadJoin _ _ _ => False
  | .threadDetach _ => False
  | .threadDetachAndResume _ _ => False
  | .threadResume thid _ => (k.threads thid).state = .suspended →
      k.threadLists.link thid = some .all
  | _ => True

instance (k : Kernel) (a : Action) : Decidable (SchedulerCall k a) := by
  apply a.casesOn (motive := fun a => Decidable (SchedulerCall k a)) <;>
    intros <;> unfold SchedulerCall <;> infer_instance

/-- Nobody joins. -/
theorem joining_eq_none_of_joinless (h : LifeInv s k) (hj : s.joinless)
    (t : Tid) : joining (k.frames t) = none := by
  have hfree := h.joinless hj t
  rw [joining, List.findSome?_eq_none_iff]
  intro f hf
  have hf' := hfree f hf
  cases f <;> first | rfl | cases hf'

/-- What a scheduler call needs under a scope without joins. -/
theorem allowed_of_schedulerCall (hj : s.joinless) (hcode : ∀ e, s.code e)
    (h : LifeInv s k) {a : Action} (hc : SchedulerCall k a)
    (hp : ∀ p, a = .threadCreate p → s.total → PriorityOk p)
    (hu : ∀ thid resched, a = .threadUnblock thid resched →
      MayUnblock s k thid resched)
    (hs : ∀ p, a = .threadSetPriority p → s.single →
      ∀ q, q ≤ (clampPriority p).toNat → k.runQueue q = []) :
    Allowed s k a := by
  have hnone := joining_eq_none_of_joinless h hj
  cases a with
  | goOn =>
      refine ⟨?_, fun hsome => absurd (hnone k.current) hsome⟩
      intro _ _ t _ _ u hu'
      cases (hnone u).symm.trans hu'
  | interrupt =>
      refine ⟨?_, hcode _⟩
      rintro (t | t) _ hends
      · exact hends
      · exact hends.2 (hnone t)
  | threadCreate p => exact hp p rfl
  | threadResume thid intsDisabled => exact hc
  | threadUnblock thid resched => exact hu thid resched rfl
  | threadSetPriority p => exact hs p rfl
  | threadJoin thid w timeout => exact hc.elim
  | threadDetach thid => exact hc.elim
  | threadDetachAndResume thid i => exact hc.elim
  | threadExit retcode => exact hcode _
  | waitQueueWakeOne q reschedule error => exact hcode _
  | waitQueueWakeAll q reschedule error => exact hcode _
  | waitQueueDestroy q reschedule => exact hcode _
  | _ => trivial

end ChinixSteps

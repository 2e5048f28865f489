import Chinix.TimedWaits
import Chinix.TimerOrder

/-! # No waiting thread is forgotten

    A sleeping thread is on no list but the timer queue: if its timer were
    lost, or passed over by a tick, the thread would sleep for ever.  A thread
    that waits for a timer has it on the queue in every state of a run, no
    step but a tick takes it off, and a tick ends exactly the waits that are
    due. -/

namespace ChinixWakeups

open ChinixTimerQueue ChinixPlatformTimer ChinixKernel ChinixRunQueue
open ChinixWaitQueue ChinixThread ChinixMachine Outcome ChinixQueueInvariant
open ChinixQueueRuns ChinixLifecycle ChinixMoves ChinixLifeInvariant
open ChinixSimulation ChinixThreadCalls ChinixSteps ChinixWhereabouts
open ChinixWhereaboutsRuns ChinixStackTimers ChinixTimerOrder
open ChinixWaitQueueInvariant ChinixTimedWaits

/-! ## The order of the queue -/

section Order

variable {R C : Type}

/-- The queue is in the order in which its timers fall due. -/
def Ordered (tq : TimerQueue R C) : Prop :=
  tq.queue.Pairwise fun a b =>
    (tq.timers a).schedTime ≤ (tq.timers b).schedTime

theorem ordered_insertBySchedTime {sched : R → Time} {timer : R} {q : List R}
    (hq : q.Pairwise fun a b => sched a ≤ sched b) :
    (insertBySchedTime sched timer q).Pairwise fun a b =>
      sched a ≤ sched b := by
  induction q with
  | nil => exact List.pairwise_singleton _ _
  | cons entry rest ih =>
      have hp := List.pairwise_cons.mp hq
      rw [insertBySchedTime]
      by_cases h : sched entry > sched timer
      · rw [if_pos h]
        refine List.pairwise_cons.mpr ⟨?_, hq⟩
        intro r hr
        rcases List.mem_cons.mp hr with rfl | hr
        · exact BitVec.le_of_lt h
        · exact BitVec.le_trans (BitVec.le_of_lt h) (hp.1 r hr)
      · rw [if_neg h]
        refine List.pairwise_cons.mpr ⟨?_, ih hp.2⟩
        intro r hr
        rcases mem_insertBySchedTime.mp hr with rfl | hr
        · exact BitVec.not_lt.mp h
        · exact hp.1 r hr

/-- No timer of an ordered queue is due if the first one is not. -/
theorem Ordered.not_due {tq : TimerQueue R C} (h : Ordered tq) {now : Time}
    (hhead : ∀ timer rest, tq.queue = timer :: rest →
      now < (tq.timers timer).schedTime) {r : R} (hr : r ∈ tq.queue) :
    now < (tq.timers r).schedTime := by
  rw [Ordered] at h
  cases hq : tq.queue with
  | nil =>
      rw [hq] at hr
      cases hr
  | cons timer rest =>
      have hfirst := hhead timer rest hq
      rw [hq] at h hr
      rcases List.mem_cons.mp hr with rfl | hrest
      · exact hfirst
      · exact Nat.lt_of_lt_of_le hfirst
          ((List.pairwise_cons.mp h).1 r hrest)

variable [DecidableEq R] {tq tq' : TimerQueue R C} {timer : R}

theorem Ordered.link {t : Timer C} (h : Ordered tq)
    (hl : Linked tq timer t tq') : Ordered tq' := by
  rw [Ordered, hl.queue]
  refine ordered_insertBySchedTime ?_
  refine List.Pairwise.imp_of_mem ?_ h
  intro a b ha hb hle
  rw [hl.timers_of_mem ha, hl.timers_of_mem hb]
  exact hle

theorem Ordered.cancel (h : Ordered tq) (timer : R) :
    Ordered (timerCancel timer tq) := by
  have hle : ∀ a b, (tq.timers a).schedTime ≤ (tq.timers b).schedTime →
      ((timerCancel timer tq).timers a).schedTime
        ≤ ((timerCancel timer tq).timers b).schedTime := by
    intro a b hab
    rw [timerCancel_schedTime, timerCancel_schedTime]
    exact hab
  exact (h.imp fun {a b} => hle a b).sublist List.erase_sublist

end Order

variable {w : Watch} {k k' k1 : Kernel} {t : Tid} {r : TimerRef} {cfg : Config}

/-! ## Steps without a tick -/

/-- Who waits for a timer has it on the queue, and the queue is in order. -/
structure Punctual (k : Kernel) : Prop where
  linked : ∀ r, Awaits k r → r ∈ k.timerQueue.queue
  ordered : Ordered k.timerQueue

/-- What a step without a tick leaves: no timer goes off the queue, but for
    the one that the current thread cancels. -/
structure Untimed (k k' : Kernel) : Prop where
  punctual : Punctual k'
  kept : ∀ r ∈ k.timerQueue.queue, r ≠ .wait k.current →
    r ∈ k'.timerQueue.queue ∧ k'.timerQueue.timers r = k.timerQueue.timers r

theorem untimed_of_calm (hp : Punctual k) (h : Calm k k') : Untimed k k' := by
  have htq := h.timerQueue
  refine ⟨⟨?_, ?_⟩, ?_⟩
  · intro r hr
    rw [htq]
    exact hp.linked r (h.awaits r hr)
  · rw [htq]
    exact hp.ordered
  · intro r hr _
    rw [htq]
    exact ⟨hr, rfl⟩

theorem untimed_of_calms {x : Except Fault Kernel} (hp : Punctual k)
    (h : Calms k x) : Holds x (Untimed k) fun _ => True :=
  h.imp fun _ hk => untimed_of_calm hp hk

/-- A timer is armed, and nobody starts to wait for another one. -/
theorem untimed_of_linked (hp : Punctual k) {t : Timer Callback}
    (hl : Linked k.timerQueue r t k'.timerQueue)
    (hw : ∀ r', Awaits k' r' → r' = r ∨ Awaits k r') : Untimed k k' := by
  refine ⟨⟨?_, hp.ordered.link hl⟩, ?_⟩
  · intro r' hr'
    exact hl.mem_iff.mpr ((hw r' hr').imp id (hp.linked r'))
  · intro r' hr' _
    exact ⟨hl.mem_iff.mpr (.inr hr'), hl.timers_of_mem hr'⟩

/-- `armTimer` that does not fault has linked the timer. -/
theorem armTimer_linked (r : TimerRef) (delay : Time) (callback : Callback)
    (k : Kernel) :
    Holds (armTimer r delay callback k)
      (fun k' => ∃ tq, k' = { k with timerQueue := tq } ∧
        Linked k.timerQueue r
          ⟨implicitInt k.now + atLeastOne delay, 0, some callback⟩ tq)
      fun _ => True := by
  rw [armTimer]
  cases hx : timerSetOneshot r k.now delay callback k.timerQueue with
  | error e => trivial
  | ok tq => exact ⟨tq, rfl, setOneshot_linked hx⟩

/-- `thread_sleep` arms the timer of its thread for the end of the delay. -/
theorem threadSleep_untimed (hp : Punctual k) (delay : Time) :
    Holds (threadSleep delay k)
      (fun k' => Untimed k k' ∧
        TimerRef.sleep k.current ∈ k'.timerQueue.queue ∧
        (k'.timerQueue.timers (.sleep k.current)).schedTime
          = implicitInt k.now + atLeastOne delay)
      fun _ => True := by
  dsimp only [threadSleep]
  refine (armTimer_linked _ delay _ k).bind ?_
  rintro _ ⟨tq, rfl, hl⟩
  rw [holds_pure]
  have hcalm := Calm.leave
    (Calm.refl ({ k with timerQueue := tq }.setState k.current .sleeping))
    k.current .sleep 0
  rw [← show _ = tq from hcalm.timerQueue] at hl
  refine ⟨untimed_of_linked hp hl ?_, hl.mem_iff.mpr (.inl rfl), ?_⟩
  · intro r hr
    have hmid := hcalm.awaits r hr
    cases r with
    | sleep u =>
        by_cases hu : u = k.current
        · exact .inl (congrArg _ hu)
        · exact .inr (by simpa [Awaits, hu] using hmid)
    | wait u =>
        by_cases hu : u = k.current
        · subst hu
          simp [Awaits] at hmid
        · exact .inr (by simpa [Awaits, hu] using hmid)
  · rw [hl.timers_self]

/-- The frame of a call that waits goes on the stack. -/
theorem awaits_of_pushFrame {q : WaitQueueRef} {timeout : Time} {call : Nat}
    (h : Awaits (k.pushFrame t (.waitQueueBlock q timeout call)) r) :
    r = .wait t ∧ timeout ≠ infinitTime ∨ Awaits k r := by
  cases r with
  | sleep u => exact .inr h
  | wait u =>
      obtain ⟨hb, q', timeout', call', hmem, hne⟩ := h
      by_cases hu : u = t
      · subst hu
        rw [Kernel.pushFrame_frames, Function.update_self] at hmem
        rcases List.mem_cons.mp hmem with heq | hold
        · cases heq
          exact .inl ⟨rfl, hne⟩
        · exact .inr ⟨hb, q', timeout', call', hold, hne⟩
      · rw [Kernel.pushFrame_frames, Function.update_of_ne hu] at hmem
        exact .inr ⟨hb, q', timeout', call', hmem, hne⟩

/-- `wait_queue_block`, called by a thread in no call of it. -/
theorem waitQueueBlock_untimed (hp : Punctual k) (h : Calm k k1)
    (hfr : ∀ f ∈ k1.frames k1.current, blockedIn [f] = none)
    (q : WaitQueueRef) (timeout : Time) :
    Holds (waitQueueBlock q timeout k1) (Untimed k) fun _ => True := by
  by_cases h0 : timeout = 0
  · dsimp only [waitQueueBlock]
    rw [if_pos h0]
    exact untimed_of_calms hp (waitQueueBlockReturns_calm h _)
  cases hlink : k1.queues.link k1.current with
  | some ref =>
      dsimp only [waitQueueBlock]
      rw [if_neg h0, listAddTail, hlink]
      trivial
  | none =>
      rw [waitQueueBlock_eq q hlink h0]
      have hblock : Calm k (blockedOn k1 q) :=
        (h.block k1.current hfr (f := fun th =>
          { th with
            state := .blocked, blockingWaitQueue := some q
            waitQueueBlockRet := noErr }) rfl).trans (Calm.of_eq rfl rfl rfl)
      -- the call goes on with the timer armed, if it is to time out
      refine Holds.bind (Q := fun k2 => ∃ tq,
        k2 = { blockedOn k1 q with timerQueue := tq } ∧
        (timeout = infinitTime ∧ tq = k.timerQueue ∨
          ∃ t, Linked k.timerQueue (.wait k1.current) t tq)) ?_ ?_
      · split_ifs with hinf
        · refine (armTimer_linked _ _ _ _).imp ?_
          rintro _ ⟨tq, rfl, hl⟩
          rw [hblock.timerQueue] at hl
          exact ⟨tq, rfl, .inr ⟨_, hl⟩⟩
        · exact ⟨k.timerQueue, by rw [← hblock.timerQueue],
            .inl ⟨not_not.mp hinf, rfl⟩⟩
      · rintro _ ⟨tq, rfl, htq⟩
        rw [holds_pure]
        have hcalm := Calm.dispatch ({ blockedOn k1 q with
          timerQueue := tq }.pushFrame k1.current
            (.waitQueueBlock q timeout k1.nextCall))
        have hnew : ∀ r, Awaits (threadResched ({ blockedOn k1 q with
            timerQueue := tq }.pushFrame k1.current
              (.waitQueueBlock q timeout k1.nextCall))) r →
            r = .wait k1.current ∧ timeout ≠ infinitTime ∨ Awaits k r :=
          fun r hr => (awaits_of_pushFrame (hcalm.awaits r hr)).imp id
            (hblock.awaits r)
        rcases htq with ⟨hinf, rfl⟩ | ⟨t, hl⟩
        · refine untimed_of_calm hp ⟨hcalm.timerQueue, ?_⟩
          exact fun r hr => (hnew r hr).resolve_left fun hne => hne.2 hinf
        · rw [← show _ = tq from hcalm.timerQueue] at hl
          exact untimed_of_linked hp hl fun r hr =>
            (hnew r hr).imp And.left id

/-- A call of `wait_queue_block` that returns cancels its own timer. -/
theorem waitQueueBlockRest_untimed (hp : Punctual k)
    (hs : (k.threads k.current).state ≠ .blocked) (timeout : Time)
    (call : Nat) :
    Holds (waitQueueBlockRest timeout call k) (Untimed k) fun _ => True := by
  have hcalm : ∀ tq, Calms { k with timerQueue := tq }
      (waitQueueBlockReturns (k.threads k.current).waitQueueBlockRet
        (({ k with timerQueue := tq }.popFrame k.current).emit
          (.returned call k.current
            (k.threads k.current).waitQueueBlockRet))) := fun tq =>
    waitQueueBlockReturns_calm
      ((Calm.popFrame _ _).trans (Calm.emit _ _)) _
  rw [waitQueueBlockRest]
  by_cases hinf : timeout = infinitTime
  · rw [if_neg (not_not.mpr hinf)]
    exact untimed_of_calms hp (hcalm k.timerQueue)
  · rw [if_pos hinf]
    refine (hcalm (timerCancel (.wait k.current) k.timerQueue)).imp ?_
    intro k' hk'
    have htq : k'.timerQueue = timerCancel (.wait k.current) k.timerQueue :=
      hk'.timerQueue
    refine ⟨⟨?_, ?_⟩, ?_⟩
    · intro r hr
      have hr' : Awaits k r := hk'.awaits r hr
      rw [htq, mem_timerCancel]
      refine ⟨?_, hp.linked r hr'⟩
      rintro rfl
      exact hs hr'.1
    · rw [htq]
      exact hp.ordered.cancel _
    · intro r hr hne
      rw [htq, mem_timerCancel]
      exact ⟨⟨hne, hr⟩, timers_timerCancel_of_ne hne⟩

/-- The rest of a call. -/
theorem continueFrame_untimed (hp : Punctual k)
    (hs : (k.threads k.current).state ≠ .blocked) :
    Holds (continueFrame cfg k) (Untimed k) fun _ => True := by
  have hpop : Untimed k (k.popFrame k.current) :=
    untimed_of_calm hp (Calm.popFrame k _)
  rw [continueFrame]
  cases k.frames k.current with
  | nil => exact untimed_of_calm hp (Calm.refl k)
  | cons f rest =>
      cases f with
      | initialThreadFunc => exact hpop
      | afterResched op ret =>
          dsimp only
          split_ifs
          · trivial
          · exact hpop
      | waitQueueBlock q timeout call =>
          exact waitQueueBlockRest_untimed hp hs timeout call
      | threadJoin t wantRetcode lifetime => exact hpop
      | getFreeThreadNode p =>
          exact untimed_of_calm hp (getFreeThreadNode_calm p k)
      | initThread t p => exact untimed_of_calms hp (initThread_calm t p k)
      | linkThread t => exact untimed_of_calms hp (linkThread_calm t k)
      | threadYield =>
          refine untimed_of_calms hp ?_
          exact (threadYield_calm _).imp fun _ h =>
            (Calm.popFrame k k.current).trans h
      | detachJoin t =>
          dsimp only
          rw [detachJoin_eq]
          trivial

theorem threadJoin_untimed (hp : Punctual k) (hfr : k.frames k.current = [])
    (thid : Int) (wantRetcode : Bool) (timeout : Time) :
    Holds (threadJoin cfg thid wantRetcode timeout k) (Untimed k)
      fun _ => True := by
  dsimp only [threadJoin]
  refine Holds.bind (Q := fun _ => True) ?_ fun t _ => ?_
  · rw [threadIdToPtr]
    split_ifs <;> trivial
  · split_ifs
    · exact untimed_of_calm hp (Calm.emit k _)
    · refine waitQueueBlock_untimed hp (Calm.pushFrame k _ rfl) ?_ _ timeout
      intro f hmem
      rw [Kernel.pushFrame_frames, Kernel.pushFrame_current,
        Function.update_self, hfr] at hmem
      rw [List.mem_singleton.mp hmem]
      rfl
    · exact untimed_of_calms hp (threadJoinReap_calm (Calm.refl k) _ _ _)

/-- The time that the step hands to `timer_tick`, if the step is a tick. -/
def tickTime (k : Kernel) : Action → Option Time
  | .interrupt => (osTimerTick k.platform).1
  | _ => none

/-- **A step without a tick takes no timer off the queue** but for the one
    that its own thread cancels. -/
theorem exec_untimed (hp : Punctual k) (hb : Between w k) {a : Action}
    (hen : Enabled cfg a k) (ht : tickTime k a = none) :
    Holds (exec cfg a k) (Untimed k) fun _ => True := by
  have hs : (k.threads k.current).state ≠ .blocked := by
    rw [(resting_of_between hb).running]
    simp
  have hnil : inThread k → ∀ f ∈ k.frames k.current, blockedIn [f] = none := by
    intro hin
    rw [hin.1]
    rintro _ ⟨⟩
  cases a with
  | goOn => exact continueFrame_untimed hp hs
  | interrupt =>
      have ht' : (osTimerTick k.platform).1 = none := ht
      show Holds (x64ExceptionHandler k) _ _
      rw [x64ExceptionHandler, osTimerTickIsr]
      split
      · exact untimed_of_calm hp (Calm.of_eq rfl rfl rfl)
      · rename_i heq
        rw [heq] at ht'
        cases ht'
  | threadCreate p => exact untimed_of_calm hp (threadCreate_calm p k)
  | threadResume thid i =>
      exact untimed_of_calms hp (threadResume_calm thid i k)
  | threadYield => exact untimed_of_calms hp (threadYield_calm k)
  | threadPreempt => exact untimed_of_calms hp (threadPreempt_calm k)
  | threadSetPriority p =>
      exact untimed_of_calms hp (threadSetPriority_calm p k)
  | threadSleep delay =>
      exact (threadSleep_untimed hp delay).imp fun _ h => h.1
  | threadBlock => exact untimed_of_calm hp (threadBlock_calm hen.1)
  | threadUnblock thid resched =>
      exact untimed_of_calms hp (threadUnblock_calm thid resched k)
  | threadExit retcode => exact untimed_of_calms hp (threadExit_calm retcode k)
  | threadJoin thid wantRetcode timeout =>
      exact threadJoin_untimed hp hen.2.1 thid wantRetcode timeout
  | threadDetach thid => exact untimed_of_calms hp (threadDetach_calm thid k)
  | threadDetachAndResume thid i =>
      obtain ⟨n, heq⟩ := threadDetachAndResume_eq cfg thid i k
      show Holds (ChinixThread.threadDetachAndResume cfg thid i k) _ _
      rw [heq]
      trivial
  | threadPreemptDisable =>
      exact untimed_of_calm hp (Calm.of_eq rfl rfl rfl)
  | threadPreemptEnable =>
      refine untimed_of_calm hp ?_
      rw [threadPreemptEnable]
      split_ifs
      · exact Calm.of_eq rfl rfl rfl
      · exact Calm.refl k
  | threadBecomeIdle => exact untimed_of_calm hp (threadBecomeIdle_calm k)
  | waitQueueBlock q timeout =>
      exact waitQueueBlock_untimed hp (Calm.refl k) (hnil hen) _ timeout
  | waitQueueWakeOne q reschedule error =>
      exact (waitQueueWakeOne_calm _ reschedule error k).bind fun _ h =>
        untimed_of_calm hp h
  | waitQueueWakeAll q reschedule error =>
      exact (waitQueueWakeAll_calm (Calm.refl k) _ reschedule error).bind
        fun _ h => untimed_of_calm hp h
  | waitQueueDestroy q reschedule =>
      exact (waitQueueWakeAll_calm (Calm.refl k) _ reschedule _).bind
        fun _ h => untimed_of_calm hp h

/-! ## One callback -/

/-- What a callback does: nothing, since the thread no longer waits for the
    timer, or it makes the thread READY. -/
structure Fires (r : TimerRef) (k k' : Kernel) : Prop where
  timerQueue : k'.timerQueue = k.timerQueue
  frames : k'.frames = k.frames
  states : (∀ u, (k'.threads u).state = (k.threads u).state) ∧
      r = .wait (owner r) ∧ (k.threads (owner r)).state ≠ .blocked ∨
    (∀ u, (k'.threads u).state =
        if u = owner r then .ready else (k.threads u).state) ∧
      ∀ t, r = .wait t → (k.threads t).state = .blocked

theorem threadUnblockFromWaitQueue_fires (t : Tid) (error : Int)
    (k : Kernel) :
    Holds (threadUnblockFromWaitQueue t error k)
      (fun x => Fires (.wait t) k x.2) fun _ => True := by
  rw [threadUnblockFromWaitQueue]
  split_ifs with hs
  · exact ⟨rfl, rfl, .inl ⟨fun _ => rfl, rfl, hs⟩⟩
  · rw [listDelete]
    cases k.queues.link t with
    | none => trivial
    | some ref =>
        rw [ok_bind]
        dsimp only
        split
        · trivial
        · refine Holds.bind (Q := Fires (.wait t) k) ?_ fun _ hk => hk
          refine (insertInRunQueueTail_spec t _).partly ?_
          rintro k1 ⟨-, -, rfl⟩
          refine ⟨rfl, rfl, .inr ⟨?_, ?_⟩⟩
          · intro u
            by_cases hu : u = t
            · subst hu
              simp [owner]
            · simp [owner, hu]
          · rintro _ ⟨⟩
            exact not_not.mp hs

theorem invokeCallback_fires (r : TimerRef) (k : Kernel) :
    Holds (invokeCallback (handler r) k) (fun x => Fires r k x.2)
      fun _ => True := by
  cases r with
  | sleep t =>
      show Holds (threadSleepHandler t k) _ _
      rw [threadSleepHandler]
      refine Holds.bind (Q := Fires (.sleep t) k) ?_ fun _ hk => hk
      refine (insertInRunQueueTail_spec t _).partly ?_
      rintro k1 ⟨-, -, rfl⟩
      refine ⟨rfl, rfl, .inr ⟨?_, fun _ => by simp⟩⟩
      intro u
      by_cases hu : u = t
      · subst hu
        simp [owner]
      · simp [owner, hu]
  | wait t =>
      show Holds (waitQueueTimeoutHandler t k) _ _
      rw [waitQueueTimeoutHandler]
      exact (threadUnblockFromWaitQueue_fires t errTimedOut k).bind
        fun _ hx => hx

/-- A thread waits for one timer at a time. -/
theorem awaits_unique {r r' : TimerRef} (h : Awaits k r) (h' : Awaits k r')
    (ho : owner r = owner r') : r = r' := by
  cases r with
  | sleep t =>
      cases r' with
      | sleep t' => exact congrArg _ ho
      | wait t' =>
          have ht : t = t' := ho
          subst ht
          cases h.symm.trans h'.1
  | wait t =>
      cases r' with
      | sleep t' =>
          have ht : t = t' := ho
          subst ht
          cases h.1.symm.trans h'
      | wait t' => exact congrArg _ ho

/-- Who waits for a timer is SLEEPING or BLOCKED. -/
theorem not_runnable_of_awaits (h : Awaits k r) :
    ¬ Runnable (k.threads (owner r)).state := by
  cases r with
  | sleep t =>
      have hs : (k.threads t).state = .sleeping := h
      show ¬ Runnable (k.threads t).state
      rw [hs]
      exact not_runnable_sleeping
  | wait t =>
      show ¬ Runnable (k.threads t).state
      rw [h.1]
      simp [Runnable]

/-- Waiting for a timer depends on the state of its owner. -/
theorem awaits_congr (hf : k'.frames = k.frames)
    (hs : (k'.threads (owner r)).state = (k.threads (owner r)).state) :
    Awaits k' r ↔ Awaits k r := by
  cases r with
  | sleep t =>
      have hs' : (k'.threads t).state = (k.threads t).state := hs
      simp [Awaits, hs']
  | wait t =>
      have hs' : (k'.threads t).state = (k.threads t).state := hs
      simp [Awaits, hs', hf]

/-- **A callback ends the wait for its timer and no other.** -/
theorem Fires.awaits {r0 : TimerRef} (h : Fires r0 k k')
    (h0 : ∀ t, r0 = .sleep t → (k.threads t).state = .sleeping) :
    ∀ r, Awaits k' r ↔ Awaits k r ∧ r ≠ r0 := by
  intro r
  rcases h.states with ⟨hsame, heq, hb⟩ | ⟨hready, hb⟩
  · rw [awaits_congr h.frames (hsame _)]
    refine ⟨fun hr => ⟨hr, ?_⟩, And.left⟩
    rintro rfl
    rw [heq] at hr
    exact hb hr.1
  · by_cases ho : owner r = owner r0
    · have hno : ¬ Awaits k' r := by
        intro hr
        refine not_runnable_of_awaits hr ?_
        rw [hready, if_pos ho]
        exact .inl rfl
      refine ⟨fun hr => absurd hr hno, ?_⟩
      rintro ⟨hr, hne⟩
      refine absurd ?_ hne
      cases r0 with
      | sleep t => exact awaits_unique hr (h0 t rfl) ho
      | wait t =>
          cases r with
          | wait t' => exact congrArg _ ho
          | sleep t' =>
              have ht : t' = t := ho
              subst ht
              cases hr.symm.trans (hb t' rfl)
    · rw [awaits_congr h.frames (by rw [hready, if_neg ho])]
      refine ⟨fun hr => ⟨hr, ?_⟩, And.left⟩
      rintro rfl
      exact ho rfl

/-- A callback makes no thread unable to run. -/
theorem Fires.runnable {r0 : TimerRef} (h : Fires r0 k k') {u : Tid}
    (hr : Runnable (k.threads u).state) : Runnable (k'.threads u).state := by
  rcases h.states with ⟨hsame, -⟩ | ⟨hready, -⟩
  · rw [hsame]
    exact hr
  · rw [hready]
    split_ifs
    · exact .inl rfl
    · exact hr

/-- Whose wait a callback ends can run. -/
theorem Fires.woken {r0 : TimerRef} (h : Fires r0 k k') (ha : Awaits k r0) :
    Runnable (k'.threads (owner r0)).state := by
  rcases h.states with ⟨-, heq, hb⟩ | ⟨hready, -⟩
  · rw [heq] at ha
    exact absurd ha.1 hb
  · rw [hready, if_pos rfl]
    exact .inl rfl

/-! ## One tick -/

/-- What the loop of `timer_tick` has done by the time it is in `x`: some
    timers at the head of the queue of `k` were due, and their waits are
    over. -/
structure Expired (w : Watch) (now : Time) (k x : Kernel) : Prop where
  settled : Settled w (some k.current) x
  timers : x.timerQueue.timers = k.timerQueue.timers
  due : ∃ done, k.timerQueue.queue = done ++ x.timerQueue.queue ∧
    ∀ r ∈ done, ¬ now < (k.timerQueue.timers r).schedTime
  awaits : ∀ r, Awaits x r ↔ Awaits k r ∧ r ∈ x.timerQueue.queue
  woken : ∀ r, Awaits k r →
    r ∈ x.timerQueue.queue ∨ Runnable (x.threads (owner r)).state

/-- The timer at the head of the queue expires. -/
theorem Expired.step {now : Time} {x : Kernel} (h : Expired w now k x)
    {rest : List TimerRef} (hq : x.timerQueue.queue = r :: rest)
    (hdue : ¬ now < (x.timerQueue.timers r).schedTime) :
    Holds (invokeCallback (handler r)
        { x with timerQueue := x.timerQueue.dropHead })
      (fun y => Expired w now k y.2 ∧ y.2.timerQueue.queue = rest)
      fun _ => True := by
  have hmem : r ∈ x.timerQueue.queue := by
    rw [hq]
    exact List.mem_cons_self
  have hnot : r ∉ rest := by
    have hnodup := x.timerQueue.nodup
    rw [hq] at hnodup
    exact (List.nodup_cons.mp hnodup).1
  have hsleep : ∀ t, r = .sleep t → (x.threads t).state = .sleeping := by
    rintro t rfl
    exact (h.settled.placed t).sleep (by simpa [view] using hmem)
  refine ((invokeCallback_handled h.settled hq).and
    (invokeCallback_fires r _)).partly ?_
  rintro ⟨ret, y⟩ ⟨hhandled, hfires⟩
  have hyq : y.timerQueue.queue = rest := by
    rw [hhandled.timerQueue]
    show x.timerQueue.queue.tail = rest
    rw [hq, List.tail_cons]
  have hmemq : ∀ r', r' ∈ y.timerQueue.queue ↔
      r' ∈ x.timerQueue.queue ∧ r' ≠ r := by
    intro r'
    rw [hyq, hq, List.mem_cons]
    constructor
    · intro hr'
      refine ⟨.inr hr', ?_⟩
      rintro rfl
      exact hnot hr'
    · rintro ⟨heq | hr', hne⟩
      · exact absurd heq hne
      · exact hr'
  refine ⟨⟨hhandled.settled, ?_, ?_, ?_, ?_⟩, hyq⟩
  · rw [hhandled.timerQueue]
    exact h.timers
  · obtain ⟨done, heq, hd⟩ := h.due
    refine ⟨done ++ [r], ?_, ?_⟩
    · rw [heq, hq, hyq, List.append_assoc]
      rfl
    · intro r' hr'
      rcases List.mem_append.mp hr' with hold | hnew
      · exact hd r' hold
      · rw [List.mem_singleton.mp hnew, ← h.timers]
        exact hdue
  · intro r'
    have hy := hfires.awaits hsleep r'
    have hx : Awaits { x with timerQueue := x.timerQueue.dropHead } r' ↔
        Awaits x r' := Iff.rfl
    rw [hy, hx, h.awaits r', hmemq, and_assoc]
  · intro r' hr'
    rcases h.woken r' hr' with hin | hrun
    · by_cases hne : r' = r
      · subst hne
        exact .inr (hfires.woken ((h.awaits r').mpr ⟨hr', hin⟩))
      · exact .inl ((hmemq r').mpr ⟨hin, hne⟩)
    · exact .inr (hfires.runnable hrun)

/-- The loop of `timer_tick` ends the waits that are due. -/
theorem timerTickLoop_expired {b : Prop} (hq : QueueInv b k)
    (hb : Between w k) (hp : Punctual k) (now : Time) :
    Holds (timerTickLoop timerHost now (k.timerQueue.queue.length + 1)
        .noReschedule k)
      (fun r => Expired w now k r.2 ∧ ∀ timer rest,
        r.2.timerQueue.queue = timer :: rest →
          now < (r.2.timerQueue.timers timer).schedTime) fun _ => True := by
  have h0 : Expired w now k k := by
    refine ⟨hb, rfl, ⟨[], rfl, by rintro _ ⟨⟩⟩, ?_, ?_⟩
    · exact fun r => ⟨fun hr => ⟨hr, hp.linked r hr⟩, And.left⟩
    · exact fun r hr => .inl (hp.linked r hr)
  refine timerTickLoop_holds timerHost now (I := fun _ x => Expired w now k x)
    ?_ ?_ ?_ _ _ k h0 (Nat.lt_succ_self _)
  · intro _ x r hx
    show (x.timerQueue.timers r).periodicTime = 0
    rw [hx.timers]
    exact hq.oneshot r
  · intro _ x hx r hr
    show (x.timerQueue.timers r).callback ≠ none
    rw [hx.settled.timers r hr]
    simp
  · intro ret x r rest callback hx hqx hdue hcb
    have hqx' : x.timerQueue.queue = r :: rest := hqx
    have hmem : r ∈ x.timerQueue.queue := by
      rw [hqx']
      exact List.mem_cons_self
    have hhandler : callback = handler r :=
      Option.some.inj (Eq.trans (Eq.symm hcb) (hx.settled.timers r hmem))
    rw [hhandler]
    refine (hx.step hqx' hdue).imp ?_
    rintro y ⟨hy, hrest⟩
    exact ⟨hy, Nat.le_of_eq (congrArg List.length hrest)⟩

/-- What a call leaves that lets threads go on or wait for the CPU: nobody
    starts or ends to wait for a timer. -/
structure Passes (k k' : Kernel) : Prop where
  timerQueue : k'.timerQueue = k.timerQueue
  states : ∀ u, (k'.threads u).state = (k.threads u).state ∨
    Runnable (k.threads u).state ∧ Runnable (k'.threads u).state
  frames : ∀ u q timeout call,
    Frame.waitQueueBlock q timeout call ∈ k'.frames u ↔
      Frame.waitQueueBlock q timeout call ∈ k.frames u

theorem Passes.trans (h : Passes k k1) (h' : Passes k1 k') : Passes k k' := by
  refine ⟨h'.timerQueue.trans h.timerQueue, ?_, ?_⟩
  · intro u
    rcases h.states u with h1 | ⟨h1, h2⟩
    · rcases h'.states u with h3 | ⟨h3, h4⟩
      · exact .inl (h3.trans h1)
      · exact .inr ⟨h1 ▸ h3, h4⟩
    · rcases h'.states u with h3 | ⟨-, h4⟩
      · exact .inr ⟨h1, h3.symm ▸ h2⟩
      · exact .inr ⟨h1, h4⟩
  · exact fun u q timeout call =>
      (h'.frames u q timeout call).trans (h.frames u q timeout call)

theorem Passes.runnable (h : Passes k k') {u : Tid}
    (hr : Runnable (k.threads u).state) : Runnable (k'.threads u).state := by
  rcases h.states u with heq | ⟨-, hr'⟩
  · rw [heq]
    exact hr
  · exact hr'

theorem Passes.awaits (h : Passes k k') (r : TimerRef) :
    Awaits k' r ↔ Awaits k r := by
  rcases h.states (owner r) with heq | ⟨hr, hr'⟩
  · cases r with
    | sleep t =>
        have heq' : (k'.threads t).state = (k.threads t).state := heq
        simp [Awaits, heq']
    | wait t =>
        have heq' : (k'.threads t).state = (k.threads t).state := heq
        simp [Awaits, heq', h.frames]
  · exact ⟨fun ha => absurd hr' (not_runnable_of_awaits ha),
      fun ha => absurd hr (not_runnable_of_awaits ha)⟩

/-- A slot stays in its state, or stays able to run. -/
theorem Passes.setThread (k : Kernel) (t : Tid) {f : Thread → Thread}
    (hf : (f (k.threads t)).state = (k.threads t).state ∨
      Runnable (k.threads t).state ∧ Runnable (f (k.threads t)).state) :
    Passes k (k.setThread t f) := by
  refine ⟨rfl, ?_, fun _ _ _ _ => Iff.rfl⟩
  intro u
  by_cases hu : u = t
  · subst hu
    simpa using hf
  · exact .inl (by simp [hu])

theorem Passes.pushFrame (k : Kernel) (t : Tid) {f : Frame}
    (hf : blockedIn [f] = none) : Passes k (k.pushFrame t f) := by
  refine ⟨rfl, fun _ => .inl rfl, ?_⟩
  intro u q timeout call
  by_cases hu : u = t
  · subst hu
    rw [Kernel.pushFrame_frames, Function.update_self, List.mem_cons]
    refine ⟨fun hmem => hmem.resolve_left ?_, .inr⟩
    rintro rfl
    cases hf
  · rw [Kernel.pushFrame_frames, Function.update_of_ne hu]

/-- Who is chosen was READY or RUNNING. -/
theorem Passes.dispatch (h : Settled w none k) :
    Passes k (threadResched k) := by
  obtain ⟨new, -, -, hnew, hv⟩ :=
    view_threadResched ((h.placed idleThread).idle rfl).2
  have hrun : Runnable (k.threads new).state := by
    rcases hnew with rfl | ⟨p, hq⟩
    · exact ((h.placed _).idle rfl).1
    · exact (h.placed new).run p hq
  refine ⟨by rw [threadResched_eq], ?_, fun _ _ _ _ => by rw [threadResched_eq]⟩
  intro u
  have hstate := congrArg View.state (hv u)
  by_cases hu : u = new
  · subst hu
    rw [if_pos rfl] at hstate
    exact .inr ⟨hrun, .inr hstate⟩
  · rw [if_neg hu] at hstate
    exact .inl hstate

theorem threadPreempt_passes (h : Between w k) (hw : w.stack k.current = none)
    (hb : booted k = true) (hfr : Leaves (k.frames k.current)) :
    Holds (threadPreempt k) (Passes k) fun _ => True := by
  have hrest := resting_of_between h
  have h1 : Between w (k.emit (.preempted k.current)) :=
    h.emit (fun _ => trivial)
  have hready := (h1.relax hfr.blockedIn_eq_none).readyCurrent
    (resting_of_between h1) (f := fun th => { th with state := .ready }) rfl
  have hpass : Passes k ((k.emit (.preempted k.current)).setState k.current
      .ready) := by
    have hemit : Passes k (k.emit (.preempted k.current)) :=
      ⟨rfl, fun _ => .inl rfl, fun _ _ _ _ => Iff.rfl⟩
    exact hemit.trans (Passes.setThread _ _
      (.inr ⟨.inr hrest.running, .inl rfl⟩))
  have hleave : ∀ k1, Settled w none k1 → Passes k k1 →
      k1.frames = k.frames → Passes k (threadResched
        (k1.pushFrame k.current (.afterResched .preempt 0))) := by
    intro k1 hk1 hp1 hfr1
    refine (hp1.trans (Passes.pushFrame k1 _ rfl)).trans
      (Passes.dispatch (w := w) ?_)
    exact Settled.push hk1 hw (by rw [hfr1]; exact hfr) .preempt 0 (by simp)
  dsimp only [threadPreempt]
  simp only [insertInRunQueueHead_eq_tail, ite_self]
  split_ifs with hidle
  · exact hleave _ hready hpass rfl
  · have hne : k.current ≠ idleThread := by
      refine ne_idle_of_not_flag hb ?_
      simpa [threadIsIdle] using hidle
    refine Holds.bind ((hready.insert (by simp [Runnable]) hne (by simp)).partly
      fun _ hk => hk) ?_
    rintro k1 ⟨hk1, rfl⟩
    refine hleave _ hk1 (hpass.trans ?_) rfl
    exact ⟨rfl, fun _ => .inl rfl, fun _ _ _ _ => Iff.rfl⟩

/-- What a tick at `now` leaves: the waits that were due are over, the others
    go on with their timers as they were. -/
structure Ticked (now : Time) (k k' : Kernel) : Prop where
  punctual : Punctual k'
  kept : ∀ r ∈ k.timerQueue.queue,
    now < (k.timerQueue.timers r).schedTime →
      r ∈ k'.timerQueue.queue ∧
        k'.timerQueue.timers r = k.timerQueue.timers r
  awaits : ∀ r, Awaits k' r ↔
    Awaits k r ∧ now < (k.timerQueue.timers r).schedTime
  woken : ∀ r, Awaits k r → ¬ now < (k.timerQueue.timers r).schedTime →
    Runnable (k'.threads (owner r)).state

/-- The loop has gone through all timers that were due. -/
theorem Expired.ticked {now : Time} {x : Kernel} (h : Expired w now k x)
    (hp : Punctual k) (hhead : ∀ timer rest,
      x.timerQueue.queue = timer :: rest →
        now < (x.timerQueue.timers timer).schedTime) : Ticked now k x := by
  obtain ⟨done, heq, hdone⟩ := h.due
  have hordered : Ordered x.timerQueue := by
    have hk := hp.ordered
    rw [Ordered, heq] at hk
    rw [Ordered, h.timers]
    exact (List.pairwise_append.mp hk).2.1
  have hmem : ∀ r ∈ k.timerQueue.queue, r ∈ x.timerQueue.queue ↔
      now < (k.timerQueue.timers r).schedTime := by
    intro r hr
    constructor
    · intro hx
      rw [← h.timers]
      exact hordered.not_due hhead hx
    · intro hlt
      rw [heq] at hr
      exact (List.mem_append.mp hr).resolve_left fun hd => hdone r hd hlt
  refine ⟨⟨fun r hr => ((h.awaits r).mp hr).2, hordered⟩, ?_, ?_, ?_⟩
  · intro r hr hlt
    exact ⟨(hmem r hr).mpr hlt, by rw [h.timers]⟩
  · intro r
    rw [h.awaits]
    constructor
    · rintro ⟨hr, hx⟩
      exact ⟨hr, (hmem r (hp.linked r hr)).mp hx⟩
    · rintro ⟨hr, hlt⟩
      exact ⟨hr, (hmem r (hp.linked r hr)).mpr hlt⟩
  · intro r hr hdue
    refine (h.woken r hr).resolve_left ?_
    exact fun hx => hdue ((hmem r (hp.linked r hr)).mp hx)

theorem Ticked.passes {now : Time} (h : Ticked now k k1)
    (h' : Passes k1 k') : Ticked now k k' := by
  refine ⟨⟨?_, ?_⟩, ?_, ?_, ?_⟩
  · intro r hr
    rw [h'.timerQueue]
    exact h.punctual.linked r ((h'.awaits r).mp hr)
  · rw [h'.timerQueue]
    exact h.punctual.ordered
  · rw [h'.timerQueue]
    exact h.kept
  · exact fun r => (h'.awaits r).trans (h.awaits r)
  · exact fun r hr hdue => h'.runnable (h.woken r hr hdue)

theorem osTimerTickIsr_ticked {b : Prop} (hq : QueueInv b k)
    (hb : Between w k) (hp : Punctual k) {now : Time}
    (hnow : (osTimerTick k.platform).1 = some now) :
    Holds (osTimerTickIsr k) (fun r => Ticked now k r.2) fun _ => True := by
  rw [osTimerTickIsr]
  split
  · rename_i heq
    rw [heq] at hnow
    cases hnow
  · rename_i time p heq
    rw [heq] at hnow
    cases hnow
    have hq1 : QueueInv b { k with platform := p } :=
      hq.congr rfl rfl rfl rfl rfl rfl rfl rfl rfl
    have hb1 : Between w { k with platform := p } :=
      hb.congr (fun _ => rfl) rfl (fun _ => .inl)
    have hp1 : Punctual { k with platform := p } := ⟨hp.linked, hp.ordered⟩
    rw [timerTick]
    refine Holds.bind (timerTickLoop_expired hq1 hb1 hp1 now) ?_
    rintro ⟨ret, x⟩ ⟨hx, hhead⟩
    have hticked : Ticked now k x := by
      have h1 := hx.ticked hp1 hhead
      exact ⟨h1.punctual, h1.kept, h1.awaits, h1.woken⟩
    refine hticked.passes ?_
    show Passes x (threadTimerTick x).2
    rw [threadTimerTick_snd]
    exact Passes.setThread x _ (.inl rfl)

/-- **A tick ends exactly the waits that are due.** -/
theorem x64ExceptionHandler_ticked {b : Prop} (hq : QueueInv b k)
    (hb : Between w k) (hw : w.stack k.current = none) (hp : Punctual k)
    (hi : interruptsEnabled k) {now : Time}
    (hnow : (osTimerTick k.platform).1 = some now) :
    Holds (x64ExceptionHandler k) (Ticked now k) fun _ => True := by
  have hsettled := osTimerTickIsr_settled hq hb
  have hqueue := osTimerTickIsr_queueInv hq
  have hticked := osTimerTickIsr_ticked hq hb hp hnow
  rw [x64ExceptionHandler]
  cases hx : osTimerTickIsr k with
  | error e => trivial
  | ok r =>
      obtain ⟨h1, hcur, hfr⟩ := hsettled.of_ok hx
      have hbooted : booted r.2 = true := (hqueue.of_ok hx).2.trans hi.1
      have h2 : Ticked now k r.2 := hticked.of_ok hx
      have hbetween : Between w r.2 := by
        show Settled w (some r.2.current) r.2
        rw [hcur]
        exact h1
      rw [ok_bind]
      dsimp only
      split_ifs
      · refine (threadPreempt_passes hbetween ?_ hbooted ?_).imp
          fun _ h3 => h2.passes h3
        · rw [hcur]
          exact hw
        · rw [hcur, hfr]
          exact leaves_of_interruptsEnabled hb hi
      · exact h2

/-! ## Runs -/

/-- `thread_create` takes no slot of a thread that lives, and `thread_resume`
    is called for no thread that is still being created. -/
abbrev Orderly (k : Kernel) (a : Action) : Prop := Heeds .nobody k a

/-- What is known along these runs. -/
structure Timely (k : Kernel) : Prop where
  queue : QueueInv False k
  between : Between .nobody k
  punctual : Punctual k

theorem Timely.step (h : Timely k) {a : Action} (ha : Orderly k a)
    (hst : Step cfg k a k') :
    Timely k' ∧ (tickTime k a = none → Untimed k k') ∧
      ∀ now, tickTime k a = some now → Ticked now k k' := by
  obtain ⟨hen, hx⟩ := hst
  have hq : QueueInv False k' :=
    (exec_queueInv h.queue hen (fun hf => hf.elim)).of_ok hx
  have hb : Between .nobody k' :=
    (exec_between h.queue h.between hen ha).of_ok hx
  have huntimed : tickTime k a = none → Untimed k k' := fun ht =>
    (exec_untimed h.punctual h.between hen ht).of_ok hx
  have hticked : ∀ now, tickTime k a = some now → Ticked now k k' := by
    intro now ht
    cases a with
    | interrupt =>
        exact (x64ExceptionHandler_ticked h.queue h.between rfl h.punctual hen
          ht).of_ok hx
    | _ => cases ht
  refine ⟨⟨hq, hb, ?_⟩, huntimed, hticked⟩
  cases ht : tickTime k a with
  | none => exact (huntimed ht).punctual
  | some now => exact (hticked now ht).punctual

theorem bootKernel_timely (cfg : Config) : Timely (bootKernel cfg) where
  queue := bootKernel_queueInv cfg False
  between := bootKernel_between cfg
  punctual := by
    refine ⟨?_, List.Pairwise.nil⟩
    have hstate : ∀ t, Runnable ((bootKernel cfg).threads t).state ∨
        ((bootKernel cfg).threads t).state = .suspended := by
      intro t
      by_cases ht : t = idleThread
      · subst ht
        exact .inl (.inr rfl)
      · exact .inr (by simp [bootKernel, ht, Thread.zero])
    intro r hr
    rcases hstate (owner r) with hrun | hsusp
    · exact absurd hrun (not_runnable_of_awaits hr)
    · cases r with
      | sleep t => cases hsusp.symm.trans hr
      | wait t => cases hsusp.symm.trans hr.1

theorem timely_of_reachable (h : Reachable cfg Orderly k) : Timely k := by
  refine h.invariant (bootKernel_timely cfg) ?_
  exact fun k a k' hk ha hst => (hk.step ha hst).1

/-- Who waits for a timer is not the current thread. -/
theorem Timely.kept (h : Timely k) (hr : Awaits k r)
    (hk : Untimed k k') : r ∈ k'.timerQueue.queue ∧
      k'.timerQueue.timers r = k.timerQueue.timers r := by
  refine hk.kept r (h.punctual.linked r hr) ?_
  rintro rfl
  cases (resting_of_between h.between).running.symm.trans hr.1

/-- Where the timer of a sleeping thread is linked, the thread sleeps. -/
theorem Timely.asleep (h : Timely k)
    (hr : TimerRef.sleep t ∈ k.timerQueue.queue) : Awaits k (.sleep t) :=
  (h.between.placed t).sleep (by simpa [view] using hr)

/-- **Waits end on time.**  A thread that sleeps, or is blocked in
    `wait_queue_block` with a timeout, has its timer on the timer queue.  A
    tick ends the wait exactly if the timer is due, and lets the thread run.
    Any other step leaves the timer linked as it was, and no such step ends a
    sleep. -/
theorem waits_end_on_time (h : Reachable cfg Orderly k) :
    (∀ r, Awaits k r → r ∈ k.timerQueue.queue) ∧
    ∀ a k', Orderly k a → Step cfg k a k' → ∀ r, Awaits k r →
      (∀ now, tickTime k a = some now →
        (Awaits k' r ↔ now < (k.timerQueue.timers r).schedTime) ∧
        (Awaits k' r ∨ Runnable (k'.threads (owner r)).state)) ∧
      (tickTime k a = none → r ∈ k'.timerQueue.queue ∧
        ∀ t, r = .sleep t → Awaits k' r) ∧
      (Awaits k' r → k'.timerQueue.timers r = k.timerQueue.timers r) := by
  have ht := timely_of_reachable h
  refine ⟨ht.punctual.linked, ?_⟩
  intro a k' ha hst r hr
  obtain ⟨ht', huntimed, hticked⟩ := ht.step ha hst
  have hlinked := ht.punctual.linked r hr
  refine ⟨?_, ?_, ?_⟩
  · intro now hnow
    have hk := hticked now hnow
    have hiff : Awaits k' r ↔ now < (k.timerQueue.timers r).schedTime :=
      (hk.awaits r).trans (and_iff_right hr)
    refine ⟨hiff, ?_⟩
    by_cases hdue : now < (k.timerQueue.timers r).schedTime
    · exact .inl (hiff.mpr hdue)
    · exact .inr (hk.woken r hr hdue)
  · intro hnone
    have hkept := ht.kept hr (huntimed hnone)
    refine ⟨hkept.1, ?_⟩
    rintro t rfl
    exact ht'.asleep hkept.1
  · intro hr'
    cases hnow : tickTime k a with
    | none => exact (ht.kept hr (huntimed hnow)).2
    | some now =>
        have hk := hticked now hnow
        exact (hk.kept r hlinked ((hk.awaits r).mp hr').2).2

/-- Where nobody joins, runs are orderly. -/
theorem orderly_of_schedulerCall (h : Reachable cfg SchedulerCall k) :
    Reachable cfg Orderly k :=
  h.weaken (J := fun k => Good (waiting False) k ∧ Between .nobody k)
    (fun _ hr => ⟨good_of_schedulerCall hr, between_of_schedulerCall hr⟩)
    (fun _ _ hj ha => heeds_of_schedulerCall hj.1 hj.2 ha)

/-- Thread 1 sleeps with its timer linked, next to that of thread 2. -/
theorem waits_end_on_time_two :
    ∃ k, Reachable tenSlots Orderly k ∧ Awaits k (.sleep 1) ∧
      TimerRef.wait 2 ∈ k.timerQueue.queue ∧
      TimerRef.sleep 1 ∈ k.timerQueue.queue := by
  obtain ⟨k, hk, hsleep, hwait⟩ := exists_reachable_of_replay tenSlots
    SchedulerCall (fun k => (k.threads 1).state = .sleeping ∧
      TimerRef.wait 2 ∈ k.timerQueue.queue)
    [.threadCreate 5, .goOn, .goOn, .goOn, .threadResume 1 true,
      .threadCreate 5, .goOn, .goOn, .goOn, .threadResume 2 true,
      .threadBecomeIdle, .goOn, .goOn, .threadSleep 100, .goOn,
      .waitQueueBlock 0 50, .goOn] (by decide +kernel)
  have hrun := orderly_of_schedulerCall hk
  exact ⟨k, hrun, hsleep, hwait,
    (waits_end_on_time hrun).1 (.sleep 1) hsleep⟩

/-- A sleep lasts until the first tick that is at the `sched_time` of its
    timer or later. -/
theorem sleep_lasts_until_sched (h : Reachable cfg Orderly k) {delay : Time}
    (hst : Step cfg k (.threadSleep delay) k1) {due : Time}
    (hsched : implicitInt k.now + atLeastOne delay = due) {k2 : Kernel}
    (hrun : Runs.Reachable k1 (Step cfg) (fun s a => Orderly s a ∧
      ∀ now, tickTime s a = some now → now < due) k2) :
    (k2.threads k.current).state = .sleeping ∧
    ∀ a k3 now, Orderly k2 a → Step cfg k2 a k3 → tickTime k2 a = some now →
      ¬ now < due → Runnable (k3.threads k.current).state := by
  have ht := timely_of_reachable h
  have horderly : Orderly k (.threadSleep delay) :=
    ⟨rfl, by rintro ⟨⟩, by rintro _ _ ⟨⟩⟩
  have harmed := (threadSleep_untimed ht.punctual delay).of_ok hst.2
  rw [hsched] at harmed
  -- the timer of the sleep stays linked with the time it was armed for
  have hinv : Timely k2 ∧ TimerRef.sleep k.current ∈ k2.timerQueue.queue ∧
      (k2.timerQueue.timers (.sleep k.current)).schedTime = due := by
    refine Runs.Reachable.invariant (I := fun s => Timely s ∧
      TimerRef.sleep k.current ∈ s.timerQueue.queue ∧
      (s.timerQueue.timers (.sleep k.current)).schedTime = due)
      ⟨(ht.step horderly hst).1, harmed.2⟩ ?_ hrun
    rintro s a s' ⟨hs, hmem, htime⟩ ⟨ha, hearly⟩ hstep
    obtain ⟨hs', huntimed, hticked⟩ := hs.step ha hstep
    have hkept : TimerRef.sleep k.current ∈ s'.timerQueue.queue ∧
        s'.timerQueue.timers (.sleep k.current)
          = s.timerQueue.timers (.sleep k.current) := by
      cases hnow : tickTime s a with
      | none => exact (huntimed hnow).kept _ hmem (by simp)
      | some now =>
          refine (hticked now hnow).kept _ hmem ?_
          rw [htime]
          exact hearly now hnow
    exact ⟨hs', hkept.1, by rw [hkept.2, htime]⟩
  obtain ⟨ht2, hmem, htime⟩ := hinv
  have hasleep := ht2.asleep hmem
  refine ⟨hasleep, ?_⟩
  intro a k3 now ha hstep hnow hdue
  refine ((ht2.step ha hstep).2.2 now hnow).woken _ hasleep ?_
  rw [htime]
  exact hdue

end ChinixWakeups

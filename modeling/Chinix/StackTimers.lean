import Chinix.WhereaboutsRuns
import Chinix.WaitQueueInvariant

/-! # Timers in stack frames

    `thread_sleep` and `wait_queue_block` arm a timer in their own stack
    frame.  `thread_sleep` never unlinks it: it relies on nobody but its
    handler to wake the thread.  `wait_queue_block` cancels it, whoever woke
    the thread.  So a timer that is linked is in the frame of a call that is
    under way, and no call returns while its timer is linked. -/

namespace ChinixStackTimers

open ChinixTimerQueue ChinixKernel ChinixRunQueue ChinixWaitQueue
open ChinixThread ChinixMachine Outcome ChinixQueueInvariant ChinixQueueRuns
open ChinixLifecycle ChinixMoves ChinixLifeInvariant ChinixSimulation
open ChinixThreadCalls ChinixSteps ChinixWaitQueueInvariant
open ChinixWhereabouts ChinixWhereaboutsRuns

variable {w : Watch} {c : Option Tid} {k k' : Kernel} {r : TimerRef}
  {cfg : Config}

/-- The thread in whose stack frame a timer is. -/
def owner : TimerRef → Tid
  | .sleep t => t
  | .wait t => t

/-- The stack of a thread inside the call that a timer belongs to. -/
def Inside : TimerRef → List Frame → Prop
  | .sleep _, fs => fs = [.afterResched .sleep 0]
  | .wait _, fs => ∃ q timeout call below,
      fs = .waitQueueBlock q timeout call :: below ∧ timeout ≠ infinitTime

/-- The states in which a thread waits for a timer, or for the CPU to cancel
    it. -/
def Pending : TimerRef → ThreadState → Prop
  | .sleep _, st => st = .sleeping
  | .wait _, st => st = .blocked ∨ st = .ready

/-- With this action the call that the timer belongs to returns. -/
def Returns (k : Kernel) (a : Action) : TimerRef → Prop
  | .sleep t => t = k.current ∧ a = .goOn ∧
      ∃ ret below, k.frames t = .afterResched .sleep ret :: below
  | .wait t => t = k.current ∧
      (a = .goOn ∧ (∃ q timeout call below,
          k.frames t = .waitQueueBlock q timeout call :: below) ∨
        ∃ q, a = .waitQueueBlock q 0)

/-! ## One state -/

theorem inside_of_mem (h : Settled w c k) (hr : r ∈ k.timerQueue.queue) :
    Inside r (k.frames (owner r)) := by
  cases r with
  | sleep t =>
      have hp := h.placed t
      exact hp.asleep (hp.sleep (by simpa [view] using hr))
  | wait t => exact (h.placed t).timeout (by simpa [view] using hr)

theorem pending_of_mem (h : Between w k) (hr : r ∈ k.timerQueue.queue)
    (hne : owner r ≠ k.current) : Pending r (k.threads (owner r)).state := by
  cases r with
  | sleep t => exact (h.placed t).sleep (by simpa [view] using hr)
  | wait t =>
      obtain ⟨q, timeout, call, below, hfr, -⟩ := inside_of_mem h hr
      have hin : blockedIn (view k t).frames ≠ none := by
        show blockedIn (k.frames (owner (.wait t))) ≠ none
        rw [hfr]
        rintro ⟨⟩
      rcases (h.placed t).call hin with hs | hs | hcur
      · exact .inl hs
      · exact .inr hs
      · exact absurd (Option.some.inj hcur).symm hne

/-- The current thread does not sleep. -/
theorem sleep_current_not_mem (h : Between w k) :
    TimerRef.sleep k.current ∉ k.timerQueue.queue := by
  refine h.not_sleeping ?_
  rw [(resting_of_between h).running]
  simp

/-- If the timer of the current thread is linked, then the thread can only go
    on with `wait_queue_block`. -/
theorem goOn_of_mem (h : Between w k) (hr : r ∈ k.timerQueue.queue)
    (hc : owner r = k.current) {a : Action} (hen : Enabled cfg a k) :
    a = .goOn ∧ r = .wait k.current ∧ ∃ q timeout call below,
      k.frames k.current = .waitQueueBlock q timeout call :: below := by
  cases r with
  | sleep t =>
      have ht : t = k.current := hc
      subst ht
      exact absurd hr (sleep_current_not_mem h)
  | wait t =>
      have ht : t = k.current := hc
      subst ht
      obtain ⟨q, timeout, call, below, hfr, -⟩ := inside_of_mem h hr
      have hfr' : k.frames k.current = .waitQueueBlock q timeout call :: below
        := hfr
      refine ⟨?_, rfl, q, timeout, call, below, hfr'⟩
      have hno : ∀ P : Prop, (inThread k ∨ inStartKernel k) → P := by
        rintro P (hin | hin)
        · cases hin.1.symm.trans hfr'
        · cases hin.1.symm.trans hfr'
      cases a with
      | goOn => rfl
      | interrupt =>
          have hmask := hen.2
          rw [hfr'] at hmask
          cases hmask
      | threadCreate p => exact hno _ hen
      | threadResume thid i => exact hno _ (hen.2.2.imp id And.left)
      | threadUnblock thid i => exact hno _ (.inl hen.2.2)
      | threadJoin thid wantRetcode timeout => exact hno _ (.inl hen.2)
      | threadDetach thid => exact hno _ hen.2
      | threadDetachAndResume thid i => exact hno _ (hen.2.imp id And.left)
      | threadBecomeIdle => exact hno _ (.inr hen)
      | _ => exact hno _ (.inl hen)

/-- Where interrupts are enabled no timer of the current thread is linked. -/
theorem owner_ne_current (h : Between w k) (hr : r ∈ k.timerQueue.queue)
    (hi : interruptsEnabled k) : owner r ≠ k.current := by
  intro hc
  have hen : Enabled tenSlots .interrupt k := hi
  cases (goOn_of_mem h hr hc hen).1

/-! ## One step -/

/-- What is below `wait_queue_block` touches no timer. -/
theorem timerQueue_waitQueueBlockReturns (ret : Int) (k : Kernel) :
    Holds (waitQueueBlockReturns ret k)
      (fun k' => k'.timerQueue = k.timerQueue) Survivable := by
  rw [waitQueueBlockReturns]
  split
  · dsimp only
    split_ifs
    · rfl
    · rw [threadJoinReap, unlinkAndFree]
      cases (k.popFrame k.current).threadLists.link _ with
      | none => rintro ⟨⟩
      | some ref => rfl
  · rfl

/-- `wait_queue_block` returns with its timer unlinked. -/
theorem waitQueueBlockRest_unlinks (h : Settled w c k) {q : WaitQueueRef}
    {timeout : Time} {call : Nat} {below : List Frame}
    (hfr : k.frames k.current = .waitQueueBlock q timeout call :: below) :
    Holds (waitQueueBlockRest timeout call k)
      (fun k' => TimerRef.wait k.current ∉ k'.timerQueue.queue)
      Survivable := by
  rw [waitQueueBlockRest_eq hfr]
  refine (timerQueue_waitQueueBlockReturns _ _).imp ?_
  intro k' hk'
  rw [hk']
  exact wait_not_mem_of_returns h hfr

/-- **A call that returns leaves no timer behind.** -/
theorem unlinked_of_returns (h : Between w k) {a : Action}
    (hst : Step cfg k a k') (hret : Returns k a r) :
    r ∉ k'.timerQueue.queue := by
  obtain ⟨hen, hx⟩ := hst
  cases r with
  | sleep t =>
      obtain ⟨rfl, rfl, ret, below, hfr⟩ := hret
      have hpop : continueFrame cfg k = .ok (k.popFrame k.current) := by
        rw [continueFrame]
        rw [hfr]
        rfl
      cases hpop.symm.trans hx
      show TimerRef.sleep k.current ∉ k.timerQueue.queue
      exact sleep_current_not_mem h
  | wait t =>
      obtain ⟨rfl, ⟨rfl, q, timeout, call, below, hfr⟩ | ⟨q, rfl⟩⟩ := hret
      · have hrest : continueFrame cfg k
            = waitQueueBlockRest timeout call k := by
          rw [continueFrame]
          rw [hfr]
        exact (waitQueueBlockRest_unlinks h hfr).of_ok (hrest.symm.trans hx)
      · have hsame : waitQueueBlock (.user q) 0 k = .ok k := by
          rw [waitQueueBlock]
          dsimp only
          rw [if_pos rfl, waitQueueBlockReturns_nil _ hen.1]
        cases hsame.symm.trans hx
        exact h.not_waiting (by rw [hen.1]; rfl)

/-- Only the stack of a thread that is in none of these calls is watched. -/
def stackOf (t : Tid) (fs : List Frame) : Watch where
  dead := fun _ => False
  since := 0
  stack := fun u => if u = t then some fs else none

/-- **A timer that stays linked over a step stays in the same call**: its
    owner's stack is as it was. -/
theorem frames_of_linked {b : Prop} (hq : QueueInv b k)
    (h : Between .nobody k) {a : Action} (hok : Heeds .nobody k a)
    (hst : Step cfg k a k') (hr : r ∈ k.timerQueue.queue)
    (hr' : r ∈ k'.timerQueue.queue) :
    k'.frames (owner r) = k.frames (owner r) := by
  by_cases hc : owner r = k.current
  · obtain ⟨rfl, rfl, hfr⟩ := goOn_of_mem h hr hc hst.1
    exact absurd hr' (unlinked_of_returns h hst ⟨rfl, .inl ⟨rfl, hfr⟩⟩)
  · have hpend := pending_of_mem h hr hc
    have hstate : ∀ st, st ≠ .sleeping → st ≠ .blocked → st ≠ .ready →
        (k.threads (owner r)).state ≠ st := by
      intro st hsl hb hrd heq
      cases r with
      | sleep t => exact hsl (heq.symm.trans hpend)
      | wait t =>
          rcases hpend with hs | hs
          · exact hb (heq.symm.trans hs)
          · exact hrd (heq.symm.trans hs)
    have hwatch : Between (stackOf (owner r) (k.frames (owner r))) k := by
      refine h.watch (fun _ => False.elim) ?_ (fun _ _ _ => False.elim)
      intro t fs hfs
      by_cases ht : t = owner r
      · rw [ht] at hfs ⊢
        have hfs' : k.frames (owner r) = fs := by simpa [stackOf] using hfs
        exact ⟨hfs', hstate _ (by simp) (by simp) (by simp),
          fun hd => absurd hd (hstate _ (by simp) (by simp) (by simp))⟩
      · simp [stackOf, ht] at hfs
    have hheeds : Heeds (stackOf (owner r) (k.frames (owner r))) k a :=
      ⟨if_neg (Ne.symm hc), hok.take, hok.resume⟩
    have hafter := (exec_between hq hwatch hst.1 hheeds).of_ok hst.2
    exact ((hafter.placed (owner r)).kept _ (if_pos rfl)).1

/-! ## Runs -/

/-- Where nobody joins, a slot on the free list belongs to no thread. -/
theorem heeds_of_schedulerCall {s : Scope} (hg : Good s k)
    (h : Between .nobody k) {a : Action} (ha : SchedulerCall k a) :
    Heeds .nobody k a where
  current := rfl
  take := by
    rintro - p - t ts hfree
    have hl : k.threadLists.link t = some .free :=
      k.threadLists.link_of_items_cons hfree
    have ht : t ≠ idleThread := by
      rintro rfl
      cases hl.symm.trans hg.queue.idle_listed
    rcases (hg.life.ok t).free hl with hd | h0
    · exact .inr ⟨hd, id⟩
    · exact .inl ((h.placed t).unborn ht h0)
  resume := by
    rintro thid i rfl hs
    rw [ha hs]
    simp

theorem good_of_schedulerCall (h : Reachable cfg SchedulerCall k) :
    Good (waiting False) k := by
  refine good_of_reachable ?_ h
  intro k1 a hg ha
  refine WaitQueueCall.allowed hg ⟨ha, ?_⟩
  cases a <;> first | exact False.elim | trivial

theorem between_of_schedulerCall (h : Reachable cfg SchedulerCall k) :
    Between .nobody k := by
  refine h.invariant_under (fun _ hr => good_of_schedulerCall hr)
    (bootKernel_between cfg) ?_
  intro k1 a k2 hg hb ha hst
  exact (exec_between hg.queue hb hst.1
    (heeds_of_schedulerCall hg hb ha)).of_ok hst.2

/-- **No dangling stack timer.**  In every run in which nobody joins, a timer
    that is linked is in the stack frame of a call that its owner is inside,
    and where the PIT can interrupt the owner is SLEEPING, or BLOCKED or READY
    in `wait_queue_block`.  A call that returns has its timer unlinked, and
    while a timer stays linked its owner stays in the same call. -/
theorem stackTimers_in_calls (h : Reachable cfg SchedulerCall k) :
    (∀ r ∈ k.timerQueue.queue, Inside r (k.frames (owner r)) ∧
      (interruptsEnabled k → Pending r (k.threads (owner r)).state)) ∧
    ∀ a k', SchedulerCall k a → Step cfg k a k' → ∀ r,
      (Returns k a r → r ∉ k'.timerQueue.queue) ∧
      (r ∈ k.timerQueue.queue → r ∈ k'.timerQueue.queue →
        k'.frames (owner r) = k.frames (owner r)) := by
  have hb := between_of_schedulerCall h
  have hg := good_of_schedulerCall h
  constructor
  · intro r hr
    exact ⟨inside_of_mem hb hr, fun hi =>
      pending_of_mem hb hr (owner_ne_current hb hr hi)⟩
  · intro a k' ha hst r
    exact ⟨unlinked_of_returns hb hst,
      frames_of_linked hg.queue hb (heeds_of_schedulerCall hg hb ha) hst⟩

/-- Thread 1 sleeps and thread 2 waits when the PIT interrupts. -/
theorem stackTimers_in_calls_two :
    ∃ k, Reachable tenSlots SchedulerCall k ∧ interruptsEnabled k ∧
      TimerRef.sleep 1 ∈ k.timerQueue.queue ∧
      TimerRef.wait 2 ∈ k.timerQueue.queue ∧
      k.frames 1 = [.afterResched .sleep 0] ∧
      (k.threads 1).state = .sleeping ∧
      ((k.threads 2).state = .blocked ∨ (k.threads 2).state = .ready) := by
  obtain ⟨k, hk, hi, hsleep, hwait⟩ := exists_reachable_of_replay tenSlots
    SchedulerCall (fun k => interruptsEnabled k ∧
      TimerRef.sleep 1 ∈ k.timerQueue.queue ∧
      TimerRef.wait 2 ∈ k.timerQueue.queue)
    [.threadCreate 5, .goOn, .goOn, .goOn, .threadResume 1 true,
      .threadCreate 5, .goOn, .goOn, .goOn, .threadResume 2 true,
      .threadBecomeIdle, .goOn, .goOn, .threadSleep 100, .goOn,
      .waitQueueBlock 0 50, .goOn] (by decide +kernel)
  obtain ⟨hin, -⟩ := stackTimers_in_calls hk
  exact ⟨k, hk, hi, hsleep, hwait, (hin _ hsleep).1, (hin _ hsleep).2 hi,
    (hin _ hwait).2 hi⟩

end ChinixStackTimers

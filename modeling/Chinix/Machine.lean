import Chinix.Thread
import Chinix.Runs

/-! # The machine

    One processor runs the threads.  A step is what happens without an
    interrupt in between: the current thread makes a call, or goes on with
    the call it is in, or the PIT interrupts it where interrupts are enabled
    (kernel/timer.c, driver/timer/platform_timer.c, arch/x64/exception.c). -/

namespace ChinixMachine

open ChinixTimerQueue ChinixPlatformTimer ChinixKernel ChinixRunQueue
open ChinixWaitQueue ChinixThread

/-! ## The timer interrupt -/

/-- The two callbacks of the kernel. -/
def invokeCallback (callback : Callback) (k : Kernel) :
    Except Fault (HandlerReturn × Kernel) :=
  match callback with
  | .threadSleepHandler t => threadSleepHandler t k
  | .waitQueueTimeoutHandler t => waitQueueTimeoutHandler t k

/-- The kernel as the host of its timer queue. -/
def timerHost : TimerHost TimerRef Callback Kernel Fault where
  get := Kernel.timerQueue
  set := fun tq k => { k with timerQueue := tq }
  get_set := fun _ _ => rfl
  invoke := fun callback _ _ k => invokeCallback callback k
  fault := Fault.timer

/-- `os_timer_tick`, with `timer_tick` as the registered callback. -/
def osTimerTickIsr (k : Kernel) : Except Fault (HandlerReturn × Kernel) :=
  match osTimerTick k.platform with
  | (none, p) => .ok (.noReschedule, { k with platform := p })
  | (some time, p) =>
      timerTick timerHost threadTimerTick time { k with platform := p }

/-- `x64_exception_handler` for the vector of the PIT: `platform_irq` calls
    the handler registered for it. -/
def x64ExceptionHandler (k : Kernel) : Except Fault Kernel := do
  let (ret, k) ← osTimerTickIsr k
  if ret = .reschedule then threadPreempt k else return k

/-- The timers that are due at `now`. -/
def dueAt (k : Kernel) (now : Time) : List TimerRef :=
  k.timerQueue.queue.takeWhile fun r =>
    ¬ now < (k.timerQueue.timers r).schedTime

/-- The timers that the next timer interrupt finds due. -/
def dueTimers (k : Kernel) : List TimerRef :=
  match osTimerTick k.platform with
  | (none, _) => []
  | (some now, _) => dueAt k now

/-- A timer that is due behind timers that are due is one of the due ones. -/
theorem mem_takeWhile_append {R : Type} {p : R → Bool} {r : R}
    {done rest : List R} (hdone : ∀ x ∈ done, p x = true) (hr : r ∈ done) :
    r ∈ (done ++ rest).takeWhile p := by
  rw [List.takeWhile_append_of_pos hdone]
  exact List.mem_append_left _ hr

/-! ## Going on -/

variable (cfg : Config)

/-- The current thread goes on with the call it is in. -/
def continueFrame (k : Kernel) : Except Fault Kernel :=
  match k.frames k.current with
  | [] => .ok k
  | .initialThreadFunc :: _ => .ok (k.popFrame k.current)
  | .afterResched op _ :: _ =>
      if op = .exit then .error .fellThroughExit
      else .ok (k.popFrame k.current)
  | .waitQueueBlock _ timeout call :: _ => waitQueueBlockRest timeout call k
  | .threadJoin _ _ _ :: _ => .ok (k.popFrame k.current)
  | .getFreeThreadNode priority :: _ => .ok (getFreeThreadNode priority k)
  | .initThread t priority :: _ => initThread t priority k
  | .linkThread t :: _ => linkThread t k
  | .threadYield :: _ => threadYield (k.popFrame k.current)
  | .detachJoin t :: _ => detachJoin cfg t k

/-! ## Steps -/

/-- What can happen next. -/
inductive Action where
  | goOn
  | interrupt
  | threadCreate (priority : Int)
  | threadResume (thid : Tid) (intsDisabled : Bool)
  | threadYield
  | threadPreempt
  | threadSetPriority (priority : Int)
  | threadSleep (delay : Time)
  | threadBlock
  | threadUnblock (thid : Tid) (resched : Bool)
  | threadExit (retcode : Int)
  | threadJoin (thid : Tid) (wantRetcode : Bool) (timeout : Time)
  | threadDetach (thid : Tid)
  | threadDetachAndResume (thid : Tid) (intsDisabled : Bool)
  | threadPreemptDisable
  | threadPreemptEnable
  | threadBecomeIdle
  | waitQueueBlock (q : Nat) (timeout : Time)
  | waitQueueWakeOne (q : Nat) (reschedule : Bool) (error : Int)
  | waitQueueWakeAll (q : Nat) (reschedule : Bool) (error : Int)
  | waitQueueDestroy (q : Nat) (reschedule : Bool)
  deriving DecidableEq, Repr

/-- The effect of an action. -/
def exec (a : Action) (k : Kernel) : Except Fault Kernel :=
  match a with
  | .goOn => continueFrame cfg k
  | .interrupt => x64ExceptionHandler k
  | .threadCreate priority => .ok (ChinixThread.threadCreate priority k)
  | .threadResume thid intsDisabled =>
      ChinixThread.threadResume cfg thid intsDisabled k
  | .threadYield => ChinixRunQueue.threadYield k
  | .threadPreempt => ChinixRunQueue.threadPreempt k
  | .threadSetPriority priority => ChinixRunQueue.threadSetPriority priority k
  | .threadSleep delay => ChinixThread.threadSleep delay k
  | .threadBlock => .ok (ChinixRunQueue.threadBlock k)
  | .threadUnblock thid resched => ChinixThread.threadUnblock cfg thid resched k
  | .threadExit retcode => ChinixThread.threadExit retcode k
  | .threadJoin thid wantRetcode timeout =>
      ChinixThread.threadJoin cfg thid wantRetcode timeout k
  | .threadDetach thid => ChinixThread.threadDetach cfg thid k
  | .threadDetachAndResume thid intsDisabled =>
      ChinixThread.threadDetachAndResume cfg thid intsDisabled k
  | .threadPreemptDisable => .ok (ChinixRunQueue.threadPreemptDisable k)
  | .threadPreemptEnable => .ok (ChinixRunQueue.threadPreemptEnable k)
  | .threadBecomeIdle => .ok (ChinixThread.threadBecomeIdle k)
  | .waitQueueBlock q timeout =>
      ChinixWaitQueue.waitQueueBlock (.user q) timeout k
  | .waitQueueWakeOne q reschedule error => do
      let (_, k) ← ChinixWaitQueue.waitQueueWakeOne (.user q) reschedule error k
      return k
  | .waitQueueWakeAll q reschedule error => do
      let (_, k) ← ChinixWaitQueue.waitQueueWakeAll (.user q) reschedule error k
      return k
  | .waitQueueDestroy q reschedule => do
      let (_, k) ← ChinixWaitQueue.waitQueueDestroy (.user q) reschedule k
      return k

/-- The boot thread has become the idle thread. -/
def booted (k : Kernel) : Bool := threadIsIdle k idleThread

/-- The current thread runs its own code: a created thread. -/
def inThread (k : Kernel) : Prop :=
  k.frames k.current = [] ∧ k.current ≠ idleThread

/-- The current thread is the boot thread, in `start_kernel`, which runs with
    interrupts disabled. -/
def inStartKernel (k : Kernel) : Prop :=
  k.frames k.current = [] ∧ k.current = idleThread ∧ booted k = false

/-- The PIT can interrupt: not before `thread_become_idle`, and not inside a
    locked region. -/
def interruptsEnabled (k : Kernel) : Prop :=
  booted k = true ∧
    match k.frames k.current with
    | [] => True
    | f :: _ => f.interruptible = true

/-- An id that `thread_create` has returned. -/
def Issued (k : Kernel) (thid : Tid) : Prop :=
  cfg.ValidId thid ∧ 0 < k.lifetime thid

/-- When an action can happen.  The calls are made by created threads and, as
    far as `start_kernel` makes them, by the boot thread; the assertions at
    their entry hold. -/
def Enabled (a : Action) (k : Kernel) : Prop :=
  match a with
  | .goOn => k.frames k.current ≠ []
  | .interrupt => interruptsEnabled k
  | .threadCreate _ => inThread k ∨ inStartKernel k
  | .threadResume thid intsDisabled =>
      Issued cfg k thid ∧ (k.threads thid).state ≠ .death ∧
        (inThread k ∨ inStartKernel k ∧ intsDisabled = true)
  | .threadUnblock thid _ =>
      Issued cfg k thid ∧ (k.threads thid).state = .blocked ∧ inThread k
  | .threadJoin thid _ _ => Issued cfg k thid ∧ inThread k
  | .threadDetach thid =>
      Issued cfg k thid ∧ (inThread k ∨ inStartKernel k)
  | .threadDetachAndResume thid intsDisabled =>
      Issued cfg k thid ∧
        (inThread k ∨ inStartKernel k ∧ intsDisabled = true)
  | .threadBecomeIdle => inStartKernel k
  | _ => inThread k

/-- A step of the machine: it did not fault. -/
def Step (k : Kernel) (a : Action) (k' : Kernel) : Prop :=
  Enabled cfg a k ∧ exec cfg a k = .ok k'

/-- The states of the runs whose steps all meet `ok`. -/
abbrev Reachable (ok : Kernel → Action → Prop) : Kernel → Prop :=
  Runs.Reachable (bootKernel cfg) (Step cfg) ok

instance (k : Kernel) : Decidable (inThread k) :=
  inferInstanceAs (Decidable (_ ∧ _))

instance (k : Kernel) : Decidable (inStartKernel k) :=
  inferInstanceAs (Decidable (_ ∧ _ ∧ _))

instance (k : Kernel) : Decidable (interruptsEnabled k) := by
  unfold interruptsEnabled
  cases k.frames k.current <;> infer_instance

instance (k : Kernel) (thid : Tid) : Decidable (Issued cfg k thid) :=
  inferInstanceAs (Decidable (_ ∧ _))

instance (a : Action) (k : Kernel) : Decidable (Enabled cfg a k) := by
  apply a.casesOn (motive := fun a => Decidable (Enabled cfg a k)) <;>
    intros <;> unfold Enabled <;> infer_instance

/-- Every call is made that is enabled. -/
def AnyCall (_ : Kernel) (_ : Action) : Prop := True

instance (k : Kernel) (a : Action) : Decidable (AnyCall k a) :=
  inferInstanceAs (Decidable True)

/-- Run a list of actions, each of which has to be enabled and to meet `ok`. -/
def replay (ok : Kernel → Action → Prop) [∀ k a, Decidable (ok k a)] :
    List Action → Kernel → Option Kernel
  | [], k => some k
  | a :: rest, k =>
      if Enabled cfg a k ∧ ok k a then
        match exec cfg a k with
        | .ok k => replay ok rest k
        | .error _ => none
      else none

/-- What a replay ends in is reachable. -/
theorem reachable_of_replay {ok : Kernel → Action → Prop}
    [∀ k a, Decidable (ok k a)] {as : List Action} {k0 k k' : Kernel}
    (hk : Runs.Reachable k0 (Step cfg) ok k)
    (h : replay cfg ok as k = some k') :
    Runs.Reachable k0 (Step cfg) ok k' := by
  induction as generalizing k with
  | nil =>
      cases h
      exact hk
  | cons a rest ih =>
      rw [replay] at h
      by_cases hen : Enabled cfg a k ∧ ok k a
      · rw [if_pos hen] at h
        cases hx : exec cfg a k with
        | error e =>
            rw [hx] at h
            cases h
        | ok k1 =>
            rw [hx] at h
            exact ih (.next a hk hen.2 ⟨hen.1, hx⟩) h
      · rw [if_neg hen] at h
        cases h

/-- A replay from boot shows a reachable state with a property. -/
theorem exists_reachable_of_replay (ok : Kernel → Action → Prop)
    [∀ k a, Decidable (ok k a)] (P : Kernel → Prop) [DecidablePred P]
    (as : List Action)
    (h : (replay cfg ok as (bootKernel cfg)).any (fun k => P k) = true) :
    ∃ k, Reachable cfg ok k ∧ P k := by
  rw [Option.any_eq_true] at h
  obtain ⟨k, hk, hp⟩ := h
  exact ⟨k, reachable_of_replay cfg .start hk, of_decide_eq_true hp⟩

/-- A build with ten slots. -/
def tenSlots : Config := ⟨10, fun t => Int.negSucc t, Int.negSucc_lt_zero⟩

end ChinixMachine

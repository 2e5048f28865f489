import Chinix.Machine
import Chinix.Uniprocessor

/-! # The kernel, statement by statement

    The functions of kernel/thread.c, kernel/wait_queue.c and kernel/timer.c
    with their locked regions (include/arch/spinlock.h) as code for one
    processor.  What a statement does to the data is taken from the modules
    about them; here the interrupt flag, the two locks and the switch are
    explicit, and a call can be interrupted wherever the flag is set.

    The stack of a thread is the code that it has left to run, so `frames` is
    not used, and neither are the log and the numbers that only serve it. -/

namespace ChinixLockedKernel

open ChinixTimerQueue ChinixPlatformTimer ChinixKernel Uniprocessor
open ChinixRunQueue (threadIsIdle clampPriority)
open ChinixThread (Config)

/-- `thread_lock` and `timer_lock`. -/
inductive Lock where
  | thread
  | timer
  deriving DecidableEq, Repr

/-- The entries of five functions, and the branch of `thread_exit` for a
    detached thread. -/
inductive Place where
  | insertInRunQueueHead
  | insertInRunQueueTail
  | threadUnblockFromWaitQueue
  | threadResched
  | waitQueueTimeoutHandler
  | detachedExit
  deriving DecidableEq, Repr

/-- Code of the kernel. -/
abbrev Prog := Code Kernel Lock Place Tid

/-- A statement that may leave what C defines. -/
def run (f : Kernel → Except Fault Kernel) : Prog Unit :=
  attempt fun k => (f k).toOption

/-! ## Run queues -/

/-- `insert_in_run_queue_head`. -/
def insertInRunQueueHead (thread : Tid) : Prog Unit := do
  place .insertInRunQueueHead
  run (ChinixRunQueue.insertInRunQueueHead thread)

/-- `insert_in_run_queue_tail`. -/
def insertInRunQueueTail (thread : Tid) : Prog Unit := do
  place .insertInRunQueueTail
  run (ChinixRunQueue.insertInRunQueueTail thread)

/-- `thread_resched`. -/
def threadResched : Prog Unit := do
  place .threadResched
  let k ← read
  let old := k.current
  let new := (ChinixRunQueue.threadResched k).current
  -- the data change before the switch: the new thread is already current
  modify ChinixRunQueue.threadResched
  (if new = old then pure () else switch old new)

/-- `thread_preempt_enable`. -/
def threadPreemptEnable : Prog Unit := do
  let state ← save .thread
  modify ChinixRunQueue.threadPreemptEnable
  restore .thread state

/-- `thread_preempt_disable`. -/
def threadPreemptDisable : Prog Unit := do
  let state ← save .thread
  modify ChinixRunQueue.threadPreemptDisable
  restore .thread state

/-- `thread_preempt`. -/
def threadPreempt : Prog Unit := do
  let thread := (← read).current
  let state ← save .thread
  modify fun k => k.setState thread .ready
  let k ← read
  (if threadIsIdle k thread then pure ()
  else if (k.threads thread).remainingQuantum > 0 then
    insertInRunQueueHead thread
  else insertInRunQueueTail thread)
  threadResched
  restore .thread state

/-- `thread_yield`. -/
def threadYield : Prog Unit := do
  let old := (← read).current
  let state ← save .thread
  modify fun k => k.setThread old fun th =>
    { th with state := .ready, remainingQuantum := 0 }
  let k ← read
  (if threadIsIdle k old then pure () else insertInRunQueueTail old)
  threadResched
  restore .thread state

/-- `thread_set_priority`. -/
def threadSetPriority (priority : Int) : Prog Unit := do
  let cur := (← read).current
  let state ← save .thread
  modify fun k => k.setThread cur fun th =>
    { th with priority := clampPriority priority }
  insertInRunQueueHead cur
  threadResched
  restore .thread state

/-! ## Timers -/

/-- The fields of a timer. -/
def setTimer (timer : TimerRef) (t : Timer Callback) (k : Kernel) : Kernel :=
  { k with timerQueue :=
    { k.timerQueue with
      timers := Function.update k.timerQueue.timers timer t } }

/-- `insert_timer_in_queue`. -/
def insertTimer (timer : TimerRef) (k : Kernel) : Except Fault Kernel :=
  match insertTimerInQueue timer k.timerQueue with
  | .ok tq => .ok { k with timerQueue := tq }
  | .error e => .error (.timer e)

/-- `timer_set`. -/
def timerSet (timer : TimerRef) (delay period : Time) (callback : Callback) :
    Prog Unit := do
  let now := implicitInt (← read).now
  -- the fields are set before the lock is taken
  modify (setTimer timer ⟨now + delay, period, some callback⟩)
  let state ← save .timer
  run (insertTimer timer)
  restore .timer state

/-- `timer_set_oneshot`. -/
def timerSetOneshot (timer : TimerRef) (delay : Time) (callback : Callback) :
    Prog Unit :=
  timerSet timer (if delay = 0 then 1 else delay) 0 callback

/-- `timer_cancel`. -/
def timerCancel (timer : TimerRef) : Prog Unit := do
  let state ← save .timer
  modify fun k =>
    { k with timerQueue := ChinixTimerQueue.timerCancel timer k.timerQueue }
  restore .timer state

/-- `thread_sleep_handler`. -/
def threadSleepHandler (thread : Tid) : Prog HandlerReturn := do
  let state ← save .thread
  modify fun k => k.setState thread .ready
  insertInRunQueueHead thread
  restore .thread state
  return .reschedule

/-- What `thread_unblock_from_wait_queue` does after it took the thread off
    its wait queue, up to the insertion in a run queue. -/
def leaveWaitQueue (thread : Tid) (error : Int) (k : Kernel) :
    Except Fault Kernel :=
  match (k.threads thread).blockingWaitQueue with
  | none => .error (.nullWaitQueue thread)
  | some q => .ok
      ({ k with
        waitCount := Function.update k.waitCount q (k.waitCount q - 1)
        }.setThread thread fun th =>
          { th with
            blockingWaitQueue := none, state := .ready
            waitQueueBlockRet := error })

/-- `thread_unblock_from_wait_queue`. -/
def threadUnblockFromWaitQueue (thread : Tid) (error : Int) : Prog Int := do
  place .threadUnblockFromWaitQueue
  let k ← read
  if (k.threads thread).state ≠ .blocked then return -errNotBlocked
  else do
    run (ChinixRunQueue.listDelete thread)
    run (leaveWaitQueue thread error)
    insertInRunQueueHead thread
    return noErr

/-- `wait_queue_timeout_handler`: unlike `thread_sleep_handler` it does not
    take `thread_lock`. -/
def waitQueueTimeoutHandler (thread : Tid) : Prog HandlerReturn := do
  place .waitQueueTimeoutHandler
  let err ← threadUnblockFromWaitQueue thread errTimedOut
  return if err ≥ noErr then .reschedule else .noReschedule

/-- `timer->callback`. -/
def invokeCallback (callback : Callback) : Prog HandlerReturn :=
  match callback with
  | .threadSleepHandler thread => threadSleepHandler thread
  | .waitQueueTimeoutHandler thread => waitQueueTimeoutHandler thread

/-- The body of the loop of `timer_tick`. -/
def timerTickBody (now : Time) (ret : HandlerReturn) :
    Prog (HandlerReturn ⊕ HandlerReturn) := do
  let k ← read
  match k.timerQueue.queue with
  | [] => return .inr ret
  | timer :: _ =>
      let t := k.timerQueue.timers timer
      if now < t.schedTime then return .inr ret
      else do
        modify fun k => { k with timerQueue := k.timerQueue.dropHead }
        match t.callback with
        -- a call of NULL
        | none => .halt
        | some callback => do
            let r ← invokeCallback callback
            run (requeuePeriodic ChinixMachine.timerHost timer
              (t.periodicTime > 0) now)
            return .inl (if r = .reschedule then .reschedule else ret)

/-- `timer_tick`. -/
def timerTick (now : Time) : Prog HandlerReturn := do
  let ret ← forever (timerTickBody now) .noReschedule
  let k ← read
  modify fun k => (ChinixRunQueue.threadTimerTick k).2
  return if (ChinixRunQueue.threadTimerTick k).1 = .reschedule then .reschedule
    else ret

/-- `os_timer_tick`. -/
def osTimerTick : Prog HandlerReturn := do
  let k ← read
  modify fun k =>
    { k with platform := (ChinixPlatformTimer.osTimerTick k.platform).2 }
  match (ChinixPlatformTimer.osTimerTick k.platform).1 with
  | none => return .noReschedule
  | some time => timerTick time

/-- `x64_exception_handler` for the vector of the PIT. -/
def x64ExceptionHandler : Prog Unit := do
  let ret ← osTimerTick
  if ret = .reschedule then threadPreempt else pure ()

/-! ## Wait queues -/

/-- The body of the loop of `wait_queue_wake_all`. -/
def wakeAllBody (q : WaitQueueRef) (error : Int) (ret : Int) :
    Prog (Int ⊕ Int) := do
  let k ← read
  match (ChinixRunQueue.listRemoveHead (.wait q) k).1 with
  | none => return .inr ret
  | some thread => do
      modify fun k => (ChinixRunQueue.listRemoveHead (.wait q) k).2
      modify (ChinixWaitQueue.readyWaiter q thread error)
      insertInRunQueueHead thread
      return .inl (ret + 1)

/-- The caller of a rescheduling wake-up goes back to the run queues. -/
def requeueCaller (thread : Tid) : Prog Unit := do
  modify fun k => k.setState thread .ready
  insertInRunQueueHead thread

/-- `wait_queue_wake_all`. -/
def waitQueueWakeAll (q : WaitQueueRef) (reschedule : Bool) (error : Int) :
    Prog Int := do
  let k ← read
  -- `q->count` decides here, and below the number of threads woken
  (if reschedule ∧ k.waitCount q > 0 then requeueCaller k.current else pure ())
  let ret ← forever (wakeAllBody q error) 0
  (if ret > 0 ∧ reschedule then threadResched else pure ())
  return ret

/-- `wait_queue_wake_one`. -/
def waitQueueWakeOne (q : WaitQueueRef) (reschedule : Bool) (error : Int) :
    Prog Int := do
  let k ← read
  match (ChinixRunQueue.listRemoveHead (.wait q) k).1 with
  | none => return 0
  | some thread => do
      modify fun k => (ChinixRunQueue.listRemoveHead (.wait q) k).2
      modify (ChinixWaitQueue.readyWaiter q thread error)
      (if reschedule then requeueCaller k.current else pure ())
      insertInRunQueueHead thread
      (if reschedule then threadResched else pure ())
      return 1

/-- `wait_queue_block`. -/
def waitQueueBlock (q : WaitQueueRef) (timeout : Time) : Prog Int := do
  let thread := (← read).current
  if timeout = 0 then return errTimedOut
  else do
    run (ChinixRunQueue.listAddTail (.wait q) thread)
    modify fun k =>
      { k with waitCount := Function.update k.waitCount q (k.waitCount q + 1) }
    modify fun k => k.setThread thread fun th =>
      { th with
        state := .blocked, blockingWaitQueue := some q
        waitQueueBlockRet := noErr }
    (if timeout ≠ infinitTime then do
      modify (setTimer (.wait thread) Timer.initial)
      timerSetOneshot (.wait thread) timeout (.waitQueueTimeoutHandler thread)
    else pure ())
    -- the thread comes back when it was woken, or when its timer ran out
    threadResched
    (if timeout ≠ infinitTime then timerCancel (.wait thread) else pure ())
    return ((← read).threads thread).waitQueueBlockRet

/-! ## The list of threads -/

/-- `list_add_tail` for a `thread_list_node`. -/
def threadListAddTail (h : ThreadListRef) (thread : Tid) (k : Kernel) :
    Except Fault Kernel :=
  match k.threadLists.link thread with
  | none => .ok { k with threadLists := k.threadLists.addTail h thread }
  | some _ => .error (.linkedTwice thread)

/-- `list_delete` for a `thread_list_node`. -/
def threadListDelete (thread : Tid) (k : Kernel) : Except Fault Kernel :=
  match k.threadLists.link thread with
  | none => .error (.notLinked thread)
  | some _ => .ok { k with threadLists := k.threadLists.delete thread }

/-- `list_remove_head` of `g_thread_free_list`. -/
def removeFreeHead (k : Kernel) : Kernel :=
  match k.freeList with
  | [] => k
  | thread :: _ => { k with threadLists := k.threadLists.delete thread }

/-- `get_free_thread_node`. -/
def getFreeThreadNode : Prog (Option Tid) := do
  let k ← read
  if k.freeList = [] then return none
  else do
    let state ← save .thread
    -- an interrupt may have emptied the list since the test; the node is the
    -- first field of `thread_t`, so a NULL node is a NULL thread
    let k ← read
    modify removeFreeHead
    restore .thread state
    return k.freeList.head?

/-- `free_thread_node`. -/
def freeThreadNode (thread : Tid) : Prog Unit := do
  let state ← save .thread
  run (threadListAddTail .free thread)
  restore .thread state

/-! ## The thread API -/

variable (cfg : Config)

/-- `thread_id_to_ptr`. -/
def threadIdToPtr (thid : Int) : Prog Tid :=
  match ChinixThread.threadIdToPtr cfg thid with
  | .ok thread => pure thread
  | .error _ => .halt

/-- `init_thread_strcut` and the assignments of `thread_create` after it. -/
def initThreadStrcut (thread : Tid) (priority : Int) (k : Kernel) :
    Except Fault Kernel :=
  if k.threadLists.link thread = none ∧ k.queues.link thread = none ∧
      k.waitList (.exitOf thread) = [] ∧ thread ≠ k.current then
    .ok ({ k with
      waitCount := Function.update k.waitCount (.exitOf thread) 0 }.setThread
        thread fun _ => { Thread.zero with priority := priority })
  else .error (.wiped thread)

/-- `thread_create`. -/
def threadCreate (priority : Int) : Prog Int := do
  match ← getFreeThreadNode with
  | none => return -1
  | some thread => do
      run (initThreadStrcut thread priority)
      prepare thread
      let state ← save .thread
      run (threadListAddTail .all thread)
      restore .thread state
      return thread

/-- `initial_thread_func` up to its call of `thread->entry`. -/
def initialThreadFunc : Prog Unit := do
  -- the lock was taken by the thread that switched here
  unlock .thread
  setInts true

/-- `thread_resume`. -/
def threadResume (thid : Int) : Prog Int := do
  let thread ← threadIdToPtr cfg thid
  let enabled ← intsEnabled
  let state ← save .thread
  let k ← read
  let suspended : Bool := (k.threads thread).state = .suspended
  (if suspended then requeueCaller thread else pure ())
  restore .thread state
  -- the state of the flag was read before the region
  (if suspended && enabled then threadYield else pure ())
  return noErr

/-- `thread_sleep`. -/
def threadSleep (delay : Time) : Prog Unit := do
  let thread := (← read).current
  modify (setTimer (.sleep thread) Timer.initial)
  let state ← save .thread
  timerSetOneshot (.sleep thread) delay (.threadSleepHandler thread)
  modify fun k => k.setState thread .sleeping
  threadResched
  restore .thread state

/-- `thread_join` from the point where it takes the thread for dead. -/
def threadJoinReap (thread : Tid) (state : Bool) : Prog Int := do
  run (threadListDelete thread)
  freeThreadNode thread
  restore .thread state
  return noErr

/-- `thread_join`, without the `retcode` that it stores. -/
def threadJoin (thid : Int) (timeout : Time) : Prog Int := do
  let thread ← threadIdToPtr cfg thid
  let state ← save .thread
  let k ← read
  if (k.threads thread).flags.detached then do
    restore .thread state
    return -errThreadDetached
  else if (k.threads thread).state ≠ .death then do
    let err ← waitQueueBlock (.exitOf thread) timeout
    -- the error codes are positive: a timeout goes on to reap the thread
    if err < 0 then do
      restore .thread state
      return err
    else threadJoinReap thread state
  else threadJoinReap thread state

/-- `thread_detach`. -/
def threadDetach (thid : Int) : Prog Int := do
  let thread ← threadIdToPtr cfg thid
  let state ← save .thread
  let _ ← waitQueueWakeAll (.exitOf thread) false errThreadDetached
  let k ← read
  if (k.threads thread).state = .death then do
    modify fun k => k.setThread thread fun th =>
      { th with flags := { th.flags with detached := false } }
    restore .thread state
    -- the pointer is passed where `thread_join` takes an id
    threadJoin cfg (cfg.ptrToInt thread) 0
  else do
    modify fun k => k.setThread thread fun th =>
      { th with flags := { th.flags with detached := true } }
    restore .thread state
    return noErr

/-- What `thread_exit` does to wake those who wait, or to free the slot. -/
def exitCleanup (thread : Tid) (detached : Bool) : Prog Unit :=
  if detached then do
    place .detachedExit
    run (threadListDelete thread)
    freeThreadNode thread
  else do
    let _ ← waitQueueWakeAll (.exitOf thread) false noErr
    return ()

/-- `thread_exit`. -/
def threadExit (retcode : Int) : Prog Unit := do
  let thread := (← read).current
  let _ ← save .thread
  modify fun k => k.setThread thread fun th =>
    { th with state := .death, retcode := retcode }
  let k ← read
  exitCleanup thread (k.threads thread).flags.detached
  threadResched
  -- the region is not ended; what is left is `platform_panic`
  .halt

/-- `thread_set_name`, without the name. -/
def threadSetName : Prog Unit := do
  let state ← save .thread
  restore .thread state

/-- `thread_become_idle` up to `idle_thread_routine`. -/
def threadBecomeIdle : Prog Unit := do
  let thread := (← read).current
  threadSetName
  modify fun k => k.setThread thread fun th =>
    { th with
      priority := idlePriority
      flags := { th.flags with idle := true } }
  setInts true
  threadYield

/-! ## What threads call -/

/-- The calls that a thread can make anywhere.  When its routine returns,
    `initial_thread_func` calls `thread_exit` for it. -/
inductive Call where
  | threadCreate (priority : Int)
  | threadResume (thid : Int)
  | threadYield
  | threadSetPriority (priority : Int)
  | threadSleep (delay : Time)
  | threadJoin (thid : Int) (timeout : Time)
  | threadDetach (thid : Int)
  | threadExit (retcode : Int)
  | threadPreemptDisable
  | threadPreemptEnable
  deriving DecidableEq, Repr

/-- The code of a call; the result is the thread's. -/
def Call.code (c : Call) : Prog Unit :=
  match c with
  | .threadCreate priority => do let _ ← ChinixLockedKernel.threadCreate priority
  | .threadResume thid => do let _ ← ChinixLockedKernel.threadResume cfg thid
  | .threadYield => ChinixLockedKernel.threadYield
  | .threadSetPriority priority => ChinixLockedKernel.threadSetPriority priority
  | .threadSleep delay => ChinixLockedKernel.threadSleep delay
  | .threadJoin thid timeout => do
      let _ ← ChinixLockedKernel.threadJoin cfg thid timeout
  | .threadDetach thid => do let _ ← ChinixLockedKernel.threadDetach cfg thid
  | .threadExit retcode => ChinixLockedKernel.threadExit retcode
  | .threadPreemptDisable => ChinixLockedKernel.threadPreemptDisable
  | .threadPreemptEnable => ChinixLockedKernel.threadPreemptEnable

/-- What a thread does in one go, inside `THREAD_LOCK` or not: it calls, it
    locks `thread_lock` itself, and it uses wait queues under that lock. -/
inductive Routine : Bool → Type where
  | call {inside : Bool} (c : Call) : Routine inside
  | locked {inside : Bool} (body : Routine true) : Routine inside
  | waitQueueBlock (q : Nat) (timeout : Time) : Routine true
  | waitQueueWakeOne (q : Nat) (reschedule : Bool) (error : Int) : Routine true
  | waitQueueWakeAll (q : Nat) (reschedule : Bool) (error : Int) : Routine true
  | seq {inside : Bool} (first second : Routine inside) : Routine inside

/-- The code of a routine. -/
def Routine.code {inside : Bool} (r : Routine inside) : Prog Unit :=
  match r with
  | .call c => c.code cfg
  | .locked body => do
      let state ← save .thread
      body.code
      restore .thread state
  | .waitQueueBlock q timeout => do
      let _ ← ChinixLockedKernel.waitQueueBlock (.user q) timeout
  | .waitQueueWakeOne q reschedule error => do
      let _ ← ChinixLockedKernel.waitQueueWakeOne (.user q) reschedule error
  | .waitQueueWakeAll q reschedule error => do
      let _ ← ChinixLockedKernel.waitQueueWakeAll (.user q) reschedule error
  | .seq first second => do
      first.code
      second.code

/-- What a thread does from its own code: a routine, `cli` or `sti`; the boot
    thread calls `thread_become_idle`. -/
inductive Entry where
  | routine (r : Routine false)
  | disableInts
  | enableInts
  | threadBecomeIdle

/-- The code of an entry. -/
def Entry.code (e : Entry) : Prog Unit :=
  match e with
  | .routine r => r.code cfg
  | .disableInts => setInts false
  | .enableInts => setInts true
  | .threadBecomeIdle => ChinixLockedKernel.threadBecomeIdle

/-- The kernel. -/
def system : System Kernel Lock Place Tid Entry where
  irq := x64ExceptionHandler
  entry := initialThreadFunc
  call := Entry.code cfg

/-- `start_kernel` before it creates its first thread. -/
def bootMachine : Machine Kernel Lock Place Tid where
  data := ChinixThread.bootKernel cfg
  ints := false
  held := fun _ => false
  regions := []
  code := .ret ()
  parked := fun _ => none

/-- The states of the runs whose steps all meet `ok`. -/
abbrev Reachable
    (ok : Machine Kernel Lock Place Tid → Label Entry → Prop) :
    Machine Kernel Lock Place Tid → Prop :=
  Runs.Reachable (bootMachine cfg) (Step (system cfg)) ok

/-- What is done by a list of labels shows a reachable state with a
    property. -/
theorem exists_reachable_of_replay
    (ok : Machine Kernel Lock Place Tid → Label Entry → Prop)
    [∀ m a, Decidable (ok m a)] (P : Machine Kernel Lock Place Tid → Prop)
    [DecidablePred P] (as : List (Label Entry))
    (h : (Runs.replay (fun m a => exec (system cfg) a m) ok as
      (bootMachine cfg)).any (fun m => P m) = true) :
    ∃ m, Reachable cfg ok m ∧ P m := by
  rw [Option.any_eq_true] at h
  obtain ⟨m, hm, hp⟩ := h
  exact ⟨m, Runs.reachable_of_replay (fun _ _ _ h => h) .start hm,
    of_decide_eq_true hp⟩

end ChinixLockedKernel

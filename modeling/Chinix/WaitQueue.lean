import Chinix.RunQueue

/-! # Wait queues (kernel/wait_queue.c, kernel/thread.c)

    Blocking, waking and timing out.  `thread_join` is the one caller of
    `wait_queue_block` in the kernel and does the rest of its work after it,
    so the reaping half of `thread_join` stands here too: it runs in the same
    breath as the return of `wait_queue_block`. -/

namespace ChinixWaitQueue

open ChinixTimerQueue ChinixPlatformTimer ChinixKernel ChinixRunQueue

/-- `thread_unblock_from_wait_queue`. -/
def threadUnblockFromWaitQueue (t : Tid) (error : Int) (k : Kernel) :
    Except Fault (Int × Kernel) :=
  if (k.threads t).state ≠ .blocked then .ok (-errNotBlocked, k)
  else do
    let k ← listDelete t k
    match (k.threads t).blockingWaitQueue with
    | none => .error (.nullWaitQueue t)
    | some q => do
        let k := { k with
          waitCount := Function.update k.waitCount q (k.waitCount q - 1) }
        let k := k.setThread t fun th =>
          { th with
            blockingWaitQueue := none, state := .ready
            waitQueueBlockRet := error }
        let k := k.emit (.readied (k.waitCall t) t error)
        let k ← insertInRunQueueHead t k
        return (noErr, k)

/-- `wait_queue_timeout_handler`. -/
def waitQueueTimeoutHandler (t : Tid) (k : Kernel) :
    Except Fault (HandlerReturn × Kernel) := do
  let (err, k) ← threadUnblockFromWaitQueue t errTimedOut k
  return (if err ≥ noErr then .reschedule else .noReschedule, k)

/-- `thread_sleep_handler`. -/
def threadSleepHandler (t : Tid) (k : Kernel) :
    Except Fault (HandlerReturn × Kernel) := do
  let k ← insertInRunQueueHead t (k.setState t .ready)
  return (.reschedule, k)

/-- What the two wake functions do to a waiter they took off its list, up to
    its insertion in a run queue. -/
def readyWaiter (q : WaitQueueRef) (t : Tid) (error : Int) (k : Kernel) :
    Kernel :=
  let k := { k with
    waitCount := Function.update k.waitCount q (k.waitCount q - 1) }
  let k := k.setThread t fun th =>
    { th with
      state := .ready, waitQueueBlockRet := error
      blockingWaitQueue := none }
  k.emit (.readied (k.waitCall t) t error)

/-- The caller of a rescheduling wake-up goes back to the run queues. -/
def requeueCaller (k : Kernel) : Except Fault Kernel :=
  insertInRunQueueHead k.current (k.setState k.current .ready)

/-- `wait_queue_wake_one`. -/
def waitQueueWakeOne (q : WaitQueueRef) (reschedule : Bool) (error : Int)
    (k : Kernel) : Except Fault (Int × Kernel) :=
  match listRemoveHead (.wait q) k with
  | (none, k) => .ok (0, k)
  | (some t, k) => do
      let thread := k.current
      let k := readyWaiter q t error k
      -- the caller is put on its run queue before the thread it wakes
      let k ← (if reschedule then requeueCaller k else pure k)
      let k ← insertInRunQueueHead t k
      let k :=
        if reschedule then
          threadResched (k.pushFrame thread (.afterResched .wakeOne 1))
        else k
      return (1, k)

/-- The loop of `wait_queue_wake_all`; the first argument bounds its rounds. -/
def wakeAllLoop (q : WaitQueueRef) (error : Int) :
    Nat → Int → Kernel → Except Fault (Int × Kernel)
  | 0, _, _ => .error .endlessWake
  | n + 1, ret, k =>
      match listRemoveHead (.wait q) k with
      | (none, k) => .ok (ret, k)
      | (some t, k) => do
          let k ← insertInRunQueueHead t (readyWaiter q t error k)
          wakeAllLoop q error n (ret + 1) k

/-- `wait_queue_wake_all`. -/
def waitQueueWakeAll (q : WaitQueueRef) (reschedule : Bool) (error : Int)
    (k : Kernel) : Except Fault (Int × Kernel) := do
  let thread := k.current
  -- `q->count` decides here, and below the number of threads woken
  let k ← (if reschedule ∧ k.waitCount q > 0 then requeueCaller k else pure k)
  let (ret, k) ← wakeAllLoop q error ((k.waitList q).length + 1) 0 k
  let k :=
    if ret > 0 ∧ reschedule then
      threadResched (k.pushFrame thread (.afterResched .wakeAll ret))
    else k
  return (ret, k)

/-- `wait_queue_destroy`. -/
def waitQueueDestroy (q : WaitQueueRef) (reschedule : Bool) (k : Kernel) :
    Except Fault (Int × Kernel) :=
  waitQueueWakeAll q reschedule errObjectDestoryed k

/-! ## The reaping half of `thread_join` -/

/-- `list_delete` of a `thread_list_node` followed by `free_thread_node`, by
    a call that was made for the life `entitled` of the slot. -/
def unlinkAndFree (t : Tid) (entitled : Nat) (k : Kernel) :
    Except Fault Kernel :=
  match k.threadLists.link t with
  | none => .error (.notLinked t)
  | some _ => .ok
      ({ k with
        threadLists := (k.threadLists.delete t).addTail .free t }.emit
          (.freed t (k.lifetime t) entitled))

/-- `thread_join` from the point where it takes the thread for dead. -/
def threadJoinReap (t : Tid) (wantRetcode : Bool) (lifetime : Nat)
    (k : Kernel) : Except Fault Kernel := do
  let stored := if wantRetcode then some (k.threads t).retcode else none
  let caller := k.current
  let k ← unlinkAndFree t lifetime k
  return k.emit (.joined caller t lifetime noErr wantRetcode stored)

/-- `wait_queue_block` returns `ret` to its caller: `thread_join` tests it
    and goes on, any other caller is outside the kernel. -/
def waitQueueBlockReturns (ret : Int) (k : Kernel) : Except Fault Kernel :=
  match k.frames k.current with
  | .threadJoin t wantRetcode lifetime :: _ =>
      let k := k.popFrame k.current
      if ret < 0 then
        .ok (k.emit (.joined k.current t lifetime ret wantRetcode none))
      else threadJoinReap t wantRetcode lifetime k
  | _ => .ok k

/-! ## Blocking -/

/-- `timer_set_oneshot` on a timer of the kernel. -/
def armTimer (timer : TimerRef) (delay : Time) (callback : Callback)
    (k : Kernel) : Except Fault Kernel :=
  match timerSetOneshot timer k.now delay callback k.timerQueue with
  | .ok tq => .ok { k with timerQueue := tq }
  | .error e => .error (.timer e)

/-- `wait_queue_block`. -/
def waitQueueBlock (q : WaitQueueRef) (timeout : Time) (k : Kernel) :
    Except Fault Kernel := do
  let thread := k.current
  -- a call that may not wait neither blocks nor arms a timer
  if timeout = 0 then waitQueueBlockReturns errTimedOut k
  else
    let call := k.nextCall
    let k ← listAddTail (.wait q) thread k
    let k := { k with
      waitCount := Function.update k.waitCount q (k.waitCount q + 1) }
    let k := k.setThread thread fun th =>
      { th with
        state := .blocked, blockingWaitQueue := some q
        waitQueueBlockRet := noErr }
    let k := { k with nextCall := call + 1 }.emit (.blocked call thread q)
    let k ←
      (if timeout ≠ infinitTime then
        armTimer (.wait thread) timeout (.waitQueueTimeoutHandler thread) k
      else pure k)
    return threadResched (k.pushFrame thread (.waitQueueBlock q timeout call))

/-- The rest of `wait_queue_block` after `thread_resched`. -/
def waitQueueBlockRest (timeout : Time) (call : Nat) (k : Kernel) :
    Except Fault Kernel :=
  let thread := k.current
  let k :=
    if timeout ≠ infinitTime then
      { k with timerQueue := timerCancel (.wait thread) k.timerQueue }
    else k
  let ret := (k.threads thread).waitQueueBlockRet
  waitQueueBlockReturns ret
    ((k.popFrame thread).emit (.returned call thread ret))

end ChinixWaitQueue

import Chinix.NodeLists
import Chinix.PlatformTimer
import Mathlib.Tactic.Simps.Basic

/-! # The kernel state (include/kernel/thread.h, kernel/thread.c)

    The static data of thread.c, the wait queues, the timer queue and the
    clock.  A thread is named by the index of its slot in `g_threads`.  The
    `queue_node` of a slot is on a run queue or on the list of a wait queue,
    its `thread_list_node` on `thread_list` or on `g_thread_free_list`.

    A context switch leaves the C stack of the outgoing thread as it is.
    `frames` holds what matters of each stack: the calls that are under way
    and have a rest to run when the thread is next current.

    The last three fields are ghost: the code never reads them.  They number
    the lives of a slot and the blocking calls, and log what happened. -/

namespace ChinixKernel

open ChinixTimerQueue ChinixPlatformTimer

/-- A slot of `g_threads`. -/
abbrev Tid := Nat

/-- `NUM_PRIORITY`. -/
def numPriority : Nat := 32

/-- `HIGHEST_PRIORITY`. -/
def highestPriority : Int := numPriority - 1

/-- `IDLE_PRIORITY`. -/
def idlePriority : Int := 0

/-- `IDLE_THREAD_ID`, the slot of the boot thread that becomes idle. -/
def idleThread : Tid := 0

/-- `NO_ERR`. -/
def noErr : Int := 0

/-- `ERR_THREAD_DETACHED`. -/
def errThreadDetached : Int := 5

/-- `ERR_NOT_BLOCKED`. -/
def errNotBlocked : Int := 6

/-- `ERR_TIMED_OUT`. -/
def errTimedOut : Int := 7

/-- `ERR_OBJECT_DESTORYED`. -/
def errObjectDestoryed : Int := 8

/-- `enum thread_state`. -/
inductive ThreadState where
  | suspended
  | ready
  | running
  | blocked
  | sleeping
  | death
  deriving DecidableEq, Repr

/-- The address of a `wait_queue_t`: the one in a slot, or another one. -/
inductive WaitQueueRef where
  | exitOf (thread : Tid)
  | user (q : Nat)
  deriving DecidableEq, Repr

/-- The heads a `queue_node` can be linked under. -/
inductive QueueRef where
  | run (priority : Nat)
  | wait (q : WaitQueueRef)
  deriving DecidableEq, Repr

/-- The heads a `thread_list_node` can be linked under. -/
inductive ThreadListRef where
  | free
  | all
  deriving DecidableEq, Repr

/-- The bits of `flags`. -/
structure ThreadFlags where
  detached : Bool
  idle : Bool
  deriving DecidableEq, Repr

/-- `thread_t`, without its list nodes, its stack and its entry point. -/
structure Thread where
  priority : Int
  state : ThreadState
  remainingQuantum : Int
  flags : ThreadFlags
  blockingWaitQueue : Option WaitQueueRef
  waitQueueBlockRet : Int
  retcode : Int

/-- What `memset` leaves of a slot. -/
def Thread.zero : Thread := ⟨0, .suspended, 0, ⟨false, false⟩, none, 0, 0⟩

/-- The timers that the kernel arms: each lives in the stack frame of the
    call of `thread_sleep` or `wait_queue_block` that its thread is in. -/
inductive TimerRef where
  | sleep (thread : Tid)
  | wait (thread : Tid)
  deriving DecidableEq, Repr

/-- The timer callbacks of the kernel with their argument. -/
inductive Callback where
  | threadSleepHandler (thread : Tid)
  | waitQueueTimeoutHandler (thread : Tid)
  deriving DecidableEq, Repr

/-- The functions that give up the CPU and only return afterwards. -/
inductive Op where
  | yield
  | preempt
  | setPriority
  | sleep
  | exit
  | block
  | unblock
  | wakeOne
  | wakeAll
  deriving DecidableEq, Repr

/-- The rest of a call that is under way. -/
inductive Frame where
  /-- A new thread enters through `initial_thread_func`. -/
  | initialThreadFunc
  /-- Unlock and return `ret`. -/
  | afterResched (op : Op) (ret : Int)
  /-- The rest of `wait_queue_block`; `call` numbers the call. -/
  | waitQueueBlock (q : WaitQueueRef) (timeout : Time) (call : Nat)
  /-- The rest of `thread_join` below `wait_queue_block`; `lifetime` is the
      one of the slot when the call was made. -/
  | threadJoin (thread : Tid) (wantRetcode : Bool) (lifetime : Nat)
  /-- `get_free_thread_node` after its emptiness test. -/
  | getFreeThreadNode (priority : Int)
  /-- `thread_create` after `get_free_thread_node`. -/
  | initThread (thread : Tid) (priority : Int)
  /-- `thread_create` before it links the slot on `thread_list`. -/
  | linkThread (thread : Tid)
  /-- A call of `thread_yield` to come, with interrupts enabled. -/
  | threadYield
  /-- `thread_detach` before its call of `thread_join`. -/
  | detachJoin (thread : Tid)
  deriving DecidableEq, Repr

/-- Interrupts are enabled between the locked regions of a call. -/
def Frame.interruptible : Frame → Bool
  | .getFreeThreadNode _ => true
  | .initThread _ _ => true
  | .linkThread _ => true
  | .threadYield => true
  | .detachJoin _ => true
  | _ => false

/-- What the log records. -/
inductive Event where
  /-- `thread_create` linked the slot on `thread_list`. -/
  | created (thread : Tid) (lifetime : Nat)
  /-- `thread_exit` was called. -/
  | exited (thread : Tid) (lifetime : Nat) (retcode : Int)
  /-- The slot was unlinked and put on the free list by a call that was
      made for the life `entitled` of it. -/
  | freed (thread : Tid) (lifetime entitled : Nat)
  /-- `thread_join`, called for that life of the slot, returned `ret`;
      `stored` is what it stored if it was to store the `retcode`. -/
  | joined (caller thread : Tid) (lifetime : Nat) (ret : Int)
      (wantRetcode : Bool) (stored : Option Int)
  /-- `wait_queue_block` blocked its caller. -/
  | blocked (call : Nat) (thread : Tid) (q : WaitQueueRef)
  /-- The caller of that call went from BLOCKED to READY with this code. -/
  | readied (call : Nat) (thread : Tid) (error : Int)
  /-- That call returned. -/
  | returned (call : Nat) (thread : Tid) (ret : Int)
  /-- `thread_preempt` was called. -/
  | preempted (thread : Tid)
  /-- `thread_resched` made `new` current; `queued` are the threads then on
      the run queues, each with its priority. -/
  | rescheduled (new : Tid) (priority : Int) (queued : List (Tid × Int))
  deriving DecidableEq, Repr

/-- Where the code leaves what C defines or runs into `platform_panic`. -/
inductive Fault where
  /-- `run_queue` is indexed out of its bounds. -/
  | runQueueIndex (priority : Int)
  /-- `g_threads` is indexed out of its bounds. -/
  | threadIndex (thid : Int)
  /-- A node is linked in while it is on a list. -/
  | linkedTwice (thread : Tid)
  /-- A node that is on no list is taken off. -/
  | notLinked (thread : Tid)
  /-- `blocking_wait_queue` is NULL and is used. -/
  | nullWaitQueue (thread : Tid)
  /-- A slot is cleared that is linked, waited for or running. -/
  | wiped (thread : Tid)
  /-- `list_remove_head` goes on for ever. -/
  | endlessWake
  | timer (fault : TimerFault)
  /-- `thread_resched` returned in `thread_exit`. -/
  | fellThroughExit
  deriving DecidableEq, Repr

/-- The state of the machine. -/
structure Kernel where
  threads : Tid → Thread
  threadLists : NodeLists ThreadListRef Tid
  queues : NodeLists QueueRef Tid
  waitCount : WaitQueueRef → Int
  runQueueBitmap : BitVec 32
  current : Tid
  preemptLock : BitVec 32
  timerQueue : TimerQueue TimerRef Callback
  platform : PlatformTimer
  frames : Tid → List Frame
  lifetime : Tid → Nat
  nextCall : Nat
  log : List Event

namespace Kernel

/-- `run_queue[p]`. -/
def runQueue (k : Kernel) (p : Nat) : List Tid := k.queues.items (.run p)

/-- `q->list`. -/
def waitList (k : Kernel) (q : WaitQueueRef) : List Tid :=
  k.queues.items (.wait q)

/-- `g_thread_free_list`. -/
def freeList (k : Kernel) : List Tid := k.threadLists.items .free

/-- `thread_list`. -/
def threadList (k : Kernel) : List Tid := k.threadLists.items .all

/-- `current_time`; `timer_set` sees the low half of it. -/
def now (k : Kernel) : Time := currentTime k.platform

/-- Change the fields of a slot. -/
@[simps]
def setThread (k : Kernel) (t : Tid) (f : Thread → Thread) : Kernel :=
  { k with threads := Function.update k.threads t (f (k.threads t)) }

/-- `thread->state = state`. -/
abbrev setState (k : Kernel) (t : Tid) (state : ThreadState) : Kernel :=
  k.setThread t fun th => { th with state := state }

/-- Enter a call that leaves a rest to run. -/
@[simps]
def pushFrame (k : Kernel) (t : Tid) (f : Frame) : Kernel :=
  { k with frames := Function.update k.frames t (f :: k.frames t) }

/-- Leave the topmost call. -/
@[simps]
def popFrame (k : Kernel) (t : Tid) : Kernel :=
  { k with frames := Function.update k.frames t (k.frames t).tail }

/-- Record an event. -/
@[simps]
def emit (k : Kernel) (e : Event) : Kernel :=
  { k with log := k.log ++ [e] }

/-- The number of the call of `wait_queue_block` that a thread is in. -/
def waitCall (k : Kernel) (t : Tid) : Nat :=
  match k.frames t with
  | .waitQueueBlock _ _ call :: _ => call
  | _ => 0

end Kernel

end ChinixKernel

import Mathlib.Logic.Relation
import Chinix.Lifecycle

/-! # The elementary moves

    Every call of the thread API is a sequence of these moves, and so is an
    interrupt.  `Scope` says what a family of runs is asked for beyond what
    every run keeps; a move may need more of the state under a wider scope. -/

namespace ChinixMoves

open ChinixTimerQueue ChinixPlatformTimer ChinixKernel ChinixRunQueue
open ChinixWaitQueue ChinixThread ChinixMachine ChinixQueueInvariant
open ChinixLifecycle

/-- What a family of runs keeps beyond what every run keeps. -/
structure Scope where
  /-- No step faults, but for a pointer that is taken for a thread id. -/
  total : Prop
  /-- Nobody joins. -/
  joinless : Prop
  /-- A thread that gives up the CPU and could go on is on a run queue. -/
  listed : Prop
  /-- One thread is RUNNING. -/
  single : Prop
  /-- A thread is joined by one call and never detached. -/
  once : Prop
  /-- The codes that wake-ups leave. -/
  code : Int → Prop
  /-- Joins end. -/
  joins : Prop

/-- The fields of a slot that the life of its thread depends on stay. -/
structure SameLife (s : Scope) (th th' : Thread) : Prop where
  state : th'.state = th.state
  queue : th'.blockingWaitQueue = th.blockingWaitQueue
  ret : th'.waitQueueBlockRet = th.waitQueueBlockRet
  retcode : th'.retcode = th.retcode
  detached : s.once → th'.flags.detached = th.flags.detached

/-- Between two steps the current thread is RUNNING and linked nowhere. -/
structure Resting (k : Kernel) : Prop where
  running : (k.threads k.current).state = .running
  unlinked : k.queues.link k.current = none

/-- `tq` is `tq0` with the timer `r` armed. -/
structure Armed (tq tq0 : TimerQueue TimerRef Callback) (r : TimerRef) :
    Prop where
  queue : ∀ r', r' ∈ tq.queue ↔ r' = r ∨ r' ∈ tq0.queue
  others : ∀ r', r' ≠ r → tq.timers r' = tq0.timers r'
  callback : (tq.timers r).callback = some (handler r)

/-- What is below a call of `wait_queue_block`: nothing, or the call of
    `thread_join` that made it. -/
def Below (s : Scope) (k : Kernel) (q : WaitQueueRef) (timeout : Time)
    (below : List Frame) : Prop :=
  (∃ n, q = .user n ∧ below = []) ∨
    ∃ t w, q = .exitOf t ∧ below = [.threadJoin t w (k.lifetime t)] ∧
      ¬ s.joinless ∧ k.threadLists.link t = some .all ∧ 0 < k.lifetime t ∧
      (k.threads t).state ≠ .death ∧
      (s.once → timeout = infinitTime ∧
        ∀ u, joining (k.frames u) ≠ some t)

/-- The elementary moves. -/
inductive Move (s : Scope) (k : Kernel) : Kernel → Prop where
  /-- The clock goes on; the lock is taken or released. -/
  | clock (p : PlatformTimer) (n : BitVec 32) :
      Move s k { k with platform := p, preemptLock := n }
  /-- The first timer is taken off the timer queue. -/
  | expire : Move s k { k with timerQueue := k.timerQueue.dropHead }
  | preempted : Move s k (k.emit (.preempted k.current))
  | retouch (t : Tid) (f : Thread → Thread)
      (hf : SameLife s (k.threads t) (f (k.threads t))) :
      Move s k (k.setThread t f)
  | setFrames (fs : List Frame)
      (hfrom : blockedIn (k.frames k.current) = none) (hok : FramesOk fs)
      (hto : blockedIn fs = none)
      (hold : holding fs = holding (k.frames k.current))
      (hexit : ∀ r, Frame.afterResched .exit r ∈ fs →
        (k.threads k.current).state = .death)
      (hj : s.joinless → ∀ f ∈ fs, joinFree f = true)
      (hlink : ∀ t, Frame.linkThread t ∈ fs →
        Frame.linkThread t ∈ k.frames k.current) :
      Move s k { k with frames := Function.update k.frames k.current fs }
  /-- The idle thread becomes READY, any other BLOCKED. -/
  | pause (f : Thread → Thread) (st : ThreadState)
      (hf : SameLife s { k.threads k.current with state := st }
        (f (k.threads k.current)))
      (hr : Resting k)
      (hb : blockedIn (k.frames k.current) = none)
      (hst : st = .ready ∧ k.current = idleThread ∨
        st = .blocked ∧ k.current ≠ idleThread) :
      Move s k (k.setThread k.current f)
  | sleep (tq : TimerQueue TimerRef Callback) (hr : Resting k)
      (hc : k.current ≠ idleThread)
      (hb : blockedIn (k.frames k.current) = none)
      (ht : Armed tq k.timerQueue (.sleep k.current)) :
      Move s k ({ k with timerQueue := tq }.setState k.current .sleeping)
  | die (retcode : Int) (hr : Resting k) (hc : k.current ≠ idleThread)
      (hfr : k.frames k.current = []) :
      Move s k ((k.setThread k.current fun th =>
        { th with state := .death, retcode := retcode }).emit
          (.exited k.current (k.lifetime k.current) retcode))
  /-- A thread goes on its run queue. -/
  | enlist (t : Tid) (f : Thread → Thread) (st : ThreadState)
      (hf : SameLife s { k.threads t with state := st } (f (k.threads t)))
      (ht : t ≠ idleThread) (hl : k.queues.link t = none)
      (hst : st = .ready ∨ t = k.current ∧ st = .running)
      (hfrom : (k.threads t).state ≠ .death)
      (htm : TimerRef.sleep t ∉ k.timerQueue.queue)
      (hm : k.threadLists.link t = some .all) :
      Move s k (enqueue (k.setThread t f) t)
  /-- A waiter goes from its wait queue to its run queue. -/
  | wake (q : WaitQueueRef) (t : Tid) (error : Int)
      (hl : k.queues.link t = some (.wait q))
      (hq : (k.threads t).blockingWaitQueue = some q)
      (hx : ∀ u, q = .exitOf u → (k.threads u).state = .death ∧ 0 ≤ error)
      (hcode : s.code error) :
      Move s k (enqueue
        (readyWaiter q t error { k with queues := k.queues.delete t }) t)
  | block (q : WaitQueueRef) (timeout : Time) (below : List Frame)
      (tq : TimerQueue TimerRef Callback) (hr : Resting k)
      (hc : k.current ≠ idleThread) (hfr : k.frames k.current = [])
      (hb : Below s k q timeout below)
      (ht : timeout = infinitTime ∧ tq = k.timerQueue ∨
        timeout ≠ infinitTime ∧ Armed tq k.timerQueue (.wait k.current)) :
      Move s k { blockedOn k q with
        timerQueue := tq
        frames := Function.update k.frames k.current
          (.waitQueueBlock q timeout k.nextCall :: below) }
  /-- `wait_queue_block` returns, and `thread_join` below it goes on. -/
  | returns (q : WaitQueueRef) (timeout : Time) (call : Nat)
      (below : List Frame) (hr : Resting k)
      (hfr : k.frames k.current = .waitQueueBlock q timeout call :: below) :
      Move s k ({ k with
        timerQueue :=
          if timeout ≠ infinitTime then
            timerCancel (.wait k.current) k.timerQueue
          else k.timerQueue
        frames := Function.update k.frames k.current [] }.emit
          (.returned call k.current
            (k.threads k.current).waitQueueBlockRet))
  /-- A slot leaves the free list for its next life. -/
  | take (t : Tid) (p : Int) (hr : Resting k)
      (hf : k.threadLists.link t = some .free)
      (hfr : k.frames k.current = [.getFreeThreadNode p])
      (hj : ∀ u, joining (k.frames u) ≠ some t) :
      Move s k { k with
        threadLists := k.threadLists.delete t
        lifetime := Function.update k.lifetime t (k.lifetime t + 1)
        frames := Function.update k.frames k.current [.initThread t p] }
  | wipe (t : Tid) (p : Int) (hfr : k.frames k.current = [.initThread t p])
      (hm : k.threadLists.link t = none) (hl : k.queues.link t = none)
      (hc : t ≠ k.current) (ht : t ≠ idleThread) :
      Move s k { k with
        threads := Function.update k.threads t
          { Thread.zero with priority := p }
        waitCount := Function.update k.waitCount (.exitOf t) 0
        frames := Function.update (Function.update k.frames t
          [.initialThreadFunc]) k.current [.linkThread t] }
  | publish (t : Tid) (hr : Resting k)
      (hfr : k.frames k.current = [.linkThread t])
      (hm : k.threadLists.link t = none) :
      Move s k ({ k with
        threadLists := k.threadLists.addTail .all t
        frames := Function.update k.frames k.current [] }.emit
          (.created t (k.lifetime t)))
  /-- The slot of a dead thread goes on the free list. -/
  | reclaim (t : Tid) (entitled : Nat) (hm : k.threadLists.link t ≠ none)
      (hd : (k.threads t).state = .death) (hl : k.lifetime t = entitled)
      (ho : s.once → k.threadLists.link t = some .all ∧
        ∀ u, joining (k.frames u) ≠ some t) :
      Move s k ({ k with
        threadLists := (k.threadLists.delete t).addTail .free t }.emit
          (.freed t (k.lifetime t) entitled))
  | joined (t : Tid) (lifetime : Nat) (ret : Int) (wantRetcode : Bool)
      (stored : Option Int) (hs : s.joins)
      (h : ret = noErr ∧ (k.threads t).state = .death ∧
          k.lifetime t = lifetime ∧ Event.freed t lifetime lifetime ∈ k.log ∧
          stored = (if wantRetcode then some (k.threads t).retcode else none) ∨
        ret < 0 ∧ stored = none) :
      Move s k (k.emit (.joined k.current t lifetime ret wantRetcode stored))
  /-- The CPU goes to the thread that `get_new_thread` chooses. -/
  | dispatch (hb : BitmapOk k) (hi : k.queues.link idleThread = none)
      (hl : s.listed → Runnable (k.threads k.current).state →
        k.current = idleThread ∨
          ∃ p, k.queues.link k.current = some (.run p))
      (hs : s.single → (k.threads k.current).state = .running →
        (getNewThread k).1 = k.current) :
      Move s k (threadResched k)

/-- A sequence of moves. -/
abbrev Moves (s : Scope) : Kernel → Kernel → Prop :=
  Relation.ReflTransGen (Move s)

end ChinixMoves

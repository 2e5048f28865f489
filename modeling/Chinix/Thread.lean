import Chinix.WaitQueue

/-! # The thread API (kernel/thread.c)

    Creation, resumption, sleeping, joining, detaching and exit.  The build
    configures the size of `g_threads`; where the linker puts `g_threads`
    matters because two functions hand a `thread_t *` on as a thread id. -/

namespace ChinixThread

open ChinixTimerQueue ChinixPlatformTimer ChinixKernel ChinixRunQueue
open ChinixWaitQueue

/-- What the build fixes.  `ptrToInt t` is `&g_threads[t]` converted to `int`:
    the kernel is linked at `kernel_base`, 0xffffffff80000000, so the sign bit
    of the low half of the address is set. -/
structure Config where
  maxThreadsNum : Nat
  ptrToInt : Tid → Int
  ptrToInt_neg : ∀ t, ptrToInt t < 0

variable (cfg : Config)

/-- `MAX_THREAD_ID`. -/
def Config.maxThreadId : Nat := cfg.maxThreadsNum - 1

/-- The ids that `thread_id_to_ptr` asserts to get. -/
def Config.ValidId (thid : Tid) : Prop :=
  idleThread < thid ∧ thid < cfg.maxThreadId

instance (thid : Tid) : Decidable (cfg.ValidId thid) :=
  inferInstanceAs (Decidable (_ ∧ _))

/-- `thread_id_to_ptr`. -/
def threadIdToPtr (thid : Int) : Except Fault Tid :=
  if 0 ≤ thid ∧ thid < cfg.maxThreadsNum then .ok thid.toNat
  else .error (.threadIndex thid)

/-! ## Creation

    `thread_create` runs with interrupts enabled except in its two locked
    regions, so it is cut where another thread can come in between. -/

/-- `get_free_thread_node` up to its emptiness test, which is not locked. -/
def threadCreate (priority : Int) (k : Kernel) : Kernel :=
  if k.freeList = [] then k
  else k.pushFrame k.current (.getFreeThreadNode priority)

/-- The locked region of `get_free_thread_node`.  The node is the first field
    of `thread_t`, so a NULL node makes a NULL thread and `thread_create`
    returns -1. -/
def getFreeThreadNode (priority : Int) (k : Kernel) : Kernel :=
  let k := k.popFrame k.current
  match k.freeList with
  | [] => k
  | t :: _ =>
      let k := { k with
        threadLists := k.threadLists.delete t
        lifetime := Function.update k.lifetime t (k.lifetime t + 1) }
      k.pushFrame k.current (.initThread t priority)

/-- `init_thread_strcut` and the assignments of `thread_create` after it. -/
def initThread (t : Tid) (priority : Int) (k : Kernel) : Except Fault Kernel :=
  let k := k.popFrame k.current
  -- `memset` on a node that is still linked would break its list
  if k.threadLists.link t = none ∧ k.queues.link t = none ∧
      k.waitList (.exitOf t) = [] ∧ t ≠ k.current then
    let k := k.setThread t fun _ => { Thread.zero with priority := priority }
    let k := { k with
      waitCount := Function.update k.waitCount (.exitOf t) 0
      frames := Function.update k.frames t [.initialThreadFunc] }
    .ok (k.pushFrame k.current (.linkThread t))
  else .error (.wiped t)

/-- The second locked region of `thread_create`. -/
def linkThread (t : Tid) (k : Kernel) : Except Fault Kernel :=
  let k := k.popFrame k.current
  match k.threadLists.link t with
  | none => .ok
      ({ k with threadLists := k.threadLists.addTail .all t }.emit
        (.created t (k.lifetime t)))
  | some _ => .error (.linkedTwice t)

/-! ## Running and sleeping -/

/-- `thread_resume`, up to its call of `thread_yield`. -/
def threadResume (thid : Int) (intsDisabled : Bool) (k : Kernel) :
    Except Fault Kernel := do
  let t ← threadIdToPtr cfg thid
  if (k.threads t).state = .suspended then
    let k ← insertInRunQueueHead t (k.setState t .ready)
    pure (if intsDisabled then k else k.pushFrame k.current .threadYield)
  else pure k

/-- `thread_sleep`. -/
def threadSleep (delay : Time) (k : Kernel) : Except Fault Kernel := do
  let thread := k.current
  let k ← armTimer (.sleep thread) delay (.threadSleepHandler thread) k
  let k := k.setState thread .sleeping
  return threadResched (k.pushFrame thread (.afterResched .sleep 0))

/-- `thread_unblock`. -/
def threadUnblock (thid : Int) (resched : Bool) (k : Kernel) :
    Except Fault Kernel := do
  let caller := k.current
  let t ← threadIdToPtr cfg thid
  let k ← insertInRunQueueHead t (k.setState t .ready)
  let k :=
    if resched then
      threadResched (k.pushFrame caller (.afterResched .unblock 0))
    else k
  return k

/-- `thread_exit`. -/
def threadExit (retcode : Int) (k : Kernel) : Except Fault Kernel := do
  let thread := k.current
  let k := k.setThread thread fun th =>
    { th with state := .death, retcode := retcode }
  let k := k.emit (.exited thread (k.lifetime thread) retcode)
  let k ←
    (if (k.threads thread).flags.detached then
      unlinkAndFree thread (k.lifetime thread) k
    else do
      let (_, k) ← waitQueueWakeAll (.exitOf thread) false noErr k
      return k)
  return threadResched (k.pushFrame thread (.afterResched .exit 0))

/-! ## Joining and detaching -/

/-- `thread_join`. -/
def threadJoin (thid : Int) (wantRetcode : Bool) (timeout : Time)
    (k : Kernel) : Except Fault Kernel := do
  let t ← threadIdToPtr cfg thid
  if (k.threads t).flags.detached then
    return k.emit
      (.joined k.current t (k.lifetime t) (-errThreadDetached) wantRetcode
        none)
  else if (k.threads t).state ≠ .death then
    waitQueueBlock (.exitOf t) timeout
      (k.pushFrame k.current (.threadJoin t wantRetcode (k.lifetime t)))
  else threadJoinReap t wantRetcode (k.lifetime t) k

/-- `thread_detach`, up to its call of `thread_join` for a dead thread. -/
def threadDetach (thid : Int) (k : Kernel) : Except Fault Kernel := do
  let t ← threadIdToPtr cfg thid
  let (_, k) ← waitQueueWakeAll (.exitOf t) false errThreadDetached k
  -- the flag of a dead thread is cleared, that of any other one is set
  let dead : Bool := (k.threads t).state = .death
  let k := k.setThread t fun th =>
    { th with flags := { th.flags with detached := !dead } }
  return if dead then k.pushFrame k.current (.detachJoin t) else k

/-- The call of `thread_join` in `thread_detach`: it passes the pointer. -/
def detachJoin (t : Tid) (k : Kernel) : Except Fault Kernel :=
  threadJoin cfg (cfg.ptrToInt t) false 0 (k.popFrame k.current)

/-- `thread_detach_and_resume`: it passes the pointer to both calls. -/
def threadDetachAndResume (thid : Int) (intsDisabled : Bool) (k : Kernel) :
    Except Fault Kernel := do
  let t ← threadIdToPtr cfg thid
  let k ← threadDetach cfg (cfg.ptrToInt t) k
  threadResume cfg (cfg.ptrToInt t) intsDisabled k

/-- `thread_become_idle`, up to its call of `thread_yield`. -/
def threadBecomeIdle (k : Kernel) : Kernel :=
  let k := k.setThread k.current fun th =>
    { th with
      priority := idlePriority
      flags := { th.flags with idle := true } }
  k.pushFrame k.current .threadYield

/-! ## Boot -/

/-- The links that `thread_init_early` gives the slots. -/
def bootThreadList (t : Tid) : Option ThreadListRef :=
  if t = idleThread then some .all
  else if t < cfg.maxThreadId then some .free
  else none

/-- `thread_list` and `g_thread_free_list` after `thread_init_early`. -/
def bootThreadLists : NodeLists ThreadListRef Tid where
  items
    | .all => [idleThread]
    | .free => List.range' 1 (cfg.maxThreadId - 1)
  link := bootThreadList cfg
  mem_items := by
    intro h t
    cases h with
    | all =>
        rw [List.mem_singleton, bootThreadList]
        by_cases h0 : t = idleThread
        · simp [h0]
        · by_cases hm : t < cfg.maxThreadId <;> simp [h0, hm]
    | free =>
        rw [List.mem_range'_1, bootThreadList]
        by_cases h0 : t = idleThread
        · simp [h0, idleThread]
        · rw [if_neg h0]
          have hpos : 1 ≤ t := Nat.one_le_iff_ne_zero.mpr h0
          have hmax : ∀ m n : Nat, 1 ≤ m → (m < 1 + (n - 1) ↔ m < n) := by
            intro m n hm
            omega
          rw [hmax t _ hpos]
          by_cases hm : t < cfg.maxThreadId <;> simp [hpos, hm]
  nodup := by
    intro h
    cases h with
    | all => exact List.nodup_singleton _
    | free => exact List.nodup_range'

/-- The state in which `start_kernel` creates its first thread: after
    `thread_init_early`, `platform_init_timer` and `timer_init`. -/
def bootKernel : Kernel where
  threads := Function.update (fun _ => Thread.zero) idleThread
    { Thread.zero with
      priority := highestPriority
      state := .running
      flags := ⟨true, false⟩ }
  threadLists := bootThreadLists cfg
  queues := NodeLists.empty
  waitCount := fun _ => 0
  runQueueBitmap := 0
  current := idleThread
  preemptLock := 0
  timerQueue := ⟨fun _ => Timer.initial, [], List.nodup_nil⟩
  platform := platformSetPeriodicTimer 10
    (setPitFrequency 1000 PlatformTimer.zero)
  frames := fun _ => []
  lifetime := fun _ => 0
  nextCall := 0
  log := []

end ChinixThread

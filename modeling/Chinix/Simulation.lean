import Chinix.LifeInvariant
import Chinix.QueueRuns

/-! # The calls are sequences of moves

    For each function of the kernel: from a state between two steps it makes
    a sequence of moves and leaves the current thread RUNNING and linked
    nowhere.  A fault is left open where the scope does not ask for runs
    without faults. -/

namespace ChinixSimulation

open ChinixTimerQueue ChinixPlatformTimer ChinixKernel ChinixRunQueue
open ChinixWaitQueue ChinixThread ChinixMachine Outcome ChinixQueueInvariant
open ChinixQueueRuns ChinixLifecycle ChinixMoves ChinixLifeInvariant

/-- Under the scope `total` there is one fault, that of `thread_detach` and
    `thread_detach_and_resume`, and none if nobody joins. -/
def Excused (s : Scope) (e : Fault) : Prop :=
  s.total → ¬ s.joinless ∧ ∃ thid, e = .threadIndex thid

/-- What holds between two steps. -/
structure Good (s : Scope) (k : Kernel) : Prop where
  queue : QueueInv s.total k
  life : LifeInv s k
  rest : Resting k

/-- What a call leaves. -/
structure Done (s : Scope) (k k' : Kernel) : Prop where
  moves : Moves s k k'
  rest : Resting k'

variable {s : Scope} {k k' : Kernel} {t : Tid} {cfg : Config}

/-- What holds between two steps does not depend on the codes of wake-ups,
    nor on whether joins end. -/
theorem Good.withCodes (h : Good s k) (code : Int → Prop) (joins : Prop) :
    Good { s with code := code, joins := joins } k :=
  ⟨h.queue, ⟨h.life.ok, h.life.held, h.life.timers, h.life.idle,
    h.life.joins, h.life.joinless, h.life.undetached, h.life.once⟩, h.rest⟩

/-! ## Stacks that a call leaves from -/

/-- The thread runs its own code, or is between two locked regions. -/
def Leaves (fs : List Frame) : Prop :=
  fs = [] ∨ ∃ f, fs = [f] ∧ f.interruptible = true

theorem Leaves.blockedIn_eq_none {fs : List Frame} (h : Leaves fs) :
    blockedIn fs = none := by
  rcases h with rfl | ⟨f, rfl, hf⟩
  · rfl
  · exact (plain_of_interruptible hf).1

theorem leaves_of_interruptible {f : Frame} {rest : List Frame}
    (h : FramesOk (f :: rest)) (hf : f.interruptible = true) :
    Leaves (f :: rest) := by
  cases h with
  | plain _ => exact .inr ⟨f, rfl, hf⟩
  | preempted op ret _ => cases hf
  | blocked q timeout call => cases hf
  | inJoin t timeout call w l => cases hf

/-- Entering a call that gives up the CPU. -/
theorem push_move (h : LifeInv s k) (hfr : Leaves (k.frames k.current))
    (op : Op) (ret : Int)
    (hexit : op = .exit → (k.threads k.current).state = .death) :
    Move s k (k.pushFrame k.current (.afterResched op ret)) := by
  refine .setFrames _ hfr.blockedIn_eq_none ?_ rfl ?_ ?_ ?_ ?_
  · rcases hfr with hnil | ⟨f, hone, hf⟩
    · rw [hnil]
      exact .plain ⟨rfl, rfl⟩
    · rw [hone]
      exact .preempted op ret hf
  · have hop : heldSlot (.afterResched op ret) = none := rfl
    simp [holding, hop]
  · intro r hr
    rcases List.mem_cons.mp hr with heq | hold
    · cases heq
      exact hexit rfl
    · exact (h.ok k.current).exit r hold
  · intro hj f hf
    rcases List.mem_cons.mp hf with heq | hold
    · rw [heq]
      rfl
    · exact h.joinless hj k.current f hold
  · intro t ht
    exact (List.mem_cons.mp ht).resolve_left (by simp)

/-! ## The scheduler -/

/-- The choice of `get_new_thread` does not depend on the stacks. -/
theorem getNewThread_pushFrame (k : Kernel) (t : Tid) (f : Frame) :
    (getNewThread (k.pushFrame t f)).1 = (getNewThread k).1 := by
  rw [getNewThread_fst, getNewThread_fst]
  rfl

/-- The thread that gets the CPU is RUNNING and linked nowhere. -/
theorem resting_threadResched (hi : k.queues.link idleThread = none) :
    Resting (threadResched k) := by
  obtain ⟨new, hc, -, -, hv⟩ := view_threadResched hi
  have hnew := hv new
  rw [if_pos rfl] at hnew
  constructor
  · rw [hc]
    exact congrArg View.state hnew
  · rw [hc]
    exact congrArg View.link hnew

/-- What the thread that gives up the CPU has to have seen to. -/
structure Leaving (s : Scope) (k : Kernel) : Prop where
  stack : Leaves (k.frames k.current)
  listed : s.listed → Runnable (k.threads k.current).state →
    k.current = idleThread ∨ ∃ p, k.queues.link k.current = some (.run p)
  single : s.single → (k.threads k.current).state = .running →
    (getNewThread k).1 = k.current

/-- The end of every function that gives up the CPU. -/
theorem leave_done {b : Prop} (hq : QueueInv b k) (h : LifeInv s k)
    (hl : Leaving s k) (op : Op) (ret : Int)
    (hexit : op = .exit → (k.threads k.current).state = .death) :
    Done s k
      (threadResched (k.pushFrame k.current (.afterResched op ret))) := by
  have hpush := push_move h hl.stack op ret hexit
  have hb : BitmapOk (k.pushFrame k.current (.afterResched op ret)) :=
    hq.bitmap
  have hi : (k.pushFrame k.current
      (.afterResched op ret)).queues.link idleThread = none :=
    hq.idle_unlinked
  refine ⟨(Relation.ReflTransGen.single hpush).tail
    (.dispatch hb hi hl.listed ?_), resting_threadResched hi⟩
  intro hs hr
  rw [getNewThread_pushFrame]
  exact hl.single hs hr

/-- Insertion of an unlinked thread. -/
theorem insert_holds (h : QueueInv s.total k) (ht : t ≠ idleThread)
    (hl : k.queues.link t = none) :
    Holds (insertInRunQueueTail t k)
      (fun k' => PriorityOk (k.threads t).priority ∧
        QueueInv s.total k' ∧ k' = enqueue k t) (Excused s) := by
  have hq := insert_queueInv h ht
  have hspec := insertInRunQueueTail_spec t k
  cases hr : insertInRunQueueTail t k with
  | ok k' => exact ⟨(hspec.of_ok hr).2.1, hq.of_ok hr⟩
  | error e =>
      intro htotal
      rcases hspec.of_error hr with rfl | ⟨hno, -⟩
      · rw [insertInRunQueueTail_eq hl (h.priority htotal t)] at hr
        cases hr
      · exact absurd (h.priority htotal t) hno

/-- Only the state of a slot changes. -/
theorem sameLife_state (th : Thread) (st : ThreadState) :
    SameLife s { th with state := st } { th with state := st } :=
  ⟨rfl, rfl, rfl, rfl, fun _ => rfl⟩

/-- The current thread goes on its run queue, to give up the CPU. -/
theorem enlist_current (h : Good s k) (hc : k.current ≠ idleThread)
    {f : Thread → Thread} {st : ThreadState}
    (hf : SameLife s { k.threads k.current with state := st }
      (f (k.threads k.current)))
    (hst : st = .ready ∨ st = .running) :
    Move s k (enqueue (k.setThread k.current f) k.current) := by
  refine .enlist k.current f st hf hc h.rest.unlinked ?_ ?_
    (h.life.current_not_sleeping h.rest) (h.life.current_listed h.rest)
  · exact hst.imp id (fun hr => ⟨rfl, hr⟩)
  · rw [h.rest.running]
    simp

/-- After `enlist_current` the CPU can go. -/
theorem leaving_enqueue (hfr : Leaves (k.frames k.current))
    {f : Thread → Thread} (hl : k.queues.link k.current = none)
    (hs : s.single → (f (k.threads k.current)).state = .running →
      (getNewThread (enqueue (k.setThread k.current f) k.current)).1
        = k.current) :
    Leaving s (enqueue (k.setThread k.current f) k.current) := by
  have hl' : (k.setThread k.current f).queues.link k.current = none := hl
  refine ⟨hfr, ?_, ?_⟩
  · intro _ _
    refine .inr ⟨((k.setThread k.current f).threads
      k.current).priority.toNat, ?_⟩
    show (enqueue (k.setThread k.current f) k.current).queues.link k.current
      = _
    rw [enqueue_queues, NodeLists.link_addTail _ _ _ hl',
      Function.update_self]
  · intro hsingle hr
    refine hs hsingle ?_
    simpa [enqueue] using hr

/-- A call that makes its thread READY and gives up the CPU: the idle thread
    stays off the run queues. -/
theorem yield_done (h : Good s k) (hb : booted k = true)
    (hfr : Leaves (k.frames k.current)) {f : Thread → Thread}
    (hf : SameLife s { k.threads k.current with state := .ready }
      (f (k.threads k.current)))
    (hi : (f (k.threads k.current)).flags.idle
      = (k.threads k.current).flags.idle)
    (hq : QueueInv s.total (k.setThread k.current f)) (op : Op)
    (hop : op ≠ .exit) :
    Holds (do
        let k1 ←
          (if threadIsIdle (k.setThread k.current f) k.current then
            pure (k.setThread k.current f)
          else insertInRunQueueTail k.current (k.setThread k.current f))
        return threadResched (k1.pushFrame k.current (.afterResched op 0)))
      (Done s k) (Excused s) := by
  have hready : (f (k.threads k.current)).state = .ready := hf.state
  have hflag : threadIsIdle (k.setThread k.current f) k.current
      = threadIsIdle k k.current := by
    simp [threadIsIdle, hi]
  rw [hflag]
  by_cases hidle : k.current = idleThread
  · have hset : threadIsIdle k k.current = true := by
      rw [hidle]
      exact hb
    have hpause : Move s k (k.setThread k.current f) :=
      .pause f .ready hf h.rest hfr.blockedIn_eq_none (.inl ⟨rfl, hidle⟩)
    have hleave : Leaving s (k.setThread k.current f) := by
      refine ⟨hfr, fun _ _ => .inl hidle, fun _ hr => ?_⟩
      have hst : ((k.setThread k.current f).threads k.current).state
          = .ready := by simpa using hready
      cases hst.symm.trans hr
    have hdone := leave_done hq (lifeInv_move h.life hpause) hleave op 0
      (fun he => absurd he hop)
    rw [if_pos hset]
    exact ⟨(Relation.ReflTransGen.single hpause).trans hdone.moves,
      hdone.rest⟩
  · have hset : threadIsIdle k k.current = false := by
      by_contra hne
      exact hidle (h.queue.flag k.current (by simpa [threadIsIdle] using hne))
    rw [if_neg (by rw [hset]; exact Bool.false_ne_true)]
    refine Holds.bind (insert_holds hq hidle h.rest.unlinked) ?_
    rintro k1 ⟨-, hq1, rfl⟩
    have henlist := enlist_current h hidle hf (.inl rfl)
    have hleave : Leaving s (enqueue (k.setThread k.current f) k.current) := by
      refine leaving_enqueue hfr h.rest.unlinked ?_
      exact fun _ hr => by cases hready.symm.trans hr
    have hdone := leave_done hq1 (lifeInv_move h.life henlist) hleave op 0
      (fun he => absurd he hop)
    exact ⟨(Relation.ReflTransGen.single henlist).trans hdone.moves,
      hdone.rest⟩

/-- A move that leaves the queues, the state and the stack alone. -/
theorem Good.emit (h : Good s k) (hm : Move s k (k.emit (.preempted t))) :
    Good s (k.emit (.preempted t)) :=
  ⟨h.queue.emit (by simp), lifeInv_move h.life hm,
    ⟨h.rest.running, h.rest.unlinked⟩⟩

theorem threadPreempt_done (h : Good s k) (hb : booted k = true)
    (hfr : Leaves (k.frames k.current)) :
    Holds (threadPreempt k) (Done s k) (Excused s) := by
  have hm : Move s k (k.emit (.preempted k.current)) := .preempted
  have h1 := h.emit hm
  have hdone := yield_done h1 hb hfr (f := fun th => { th with state := .ready })
    (sameLife_state _ .ready) rfl (h1.queue.setState .ready) .preempt (by simp)
  have hall : Holds (threadPreempt k) (Done s (k.emit (.preempted k.current)))
      (Excused s) := by
    dsimp only [threadPreempt]
    simp only [insertInRunQueueHead_eq_tail, ite_self]
    exact hdone
  exact hall.imp (fun k' hk' =>
    ⟨(Relation.ReflTransGen.single hm).trans hk'.moves, hk'.rest⟩)

theorem threadYield_done (h : Good s k) (hb : booted k = true)
    (hfr : Leaves (k.frames k.current)) :
    Holds (threadYield k) (Done s k) (Excused s) :=
  yield_done h hb hfr ⟨rfl, rfl, rfl, rfl, fun _ => rfl⟩ rfl
    (h.queue.setThread _ rfl rfl rfl) .yield (by simp)

/-- A thread that is put on its run queue is chosen if no thread waits at its
    priority or a lesser number. -/
theorem getNewThread_enqueue (hb : BitmapOk (enqueue k t))
    (hl : k.queues.link t = none) (hp : PriorityOk (k.threads t).priority)
    (hnone : ∀ q, q ≤ (k.threads t).priority.toNat → k.runQueue q = []) :
    (getNewThread (enqueue k t)).1 = t := by
  have hitems := runQueue_enqueue hl
  have hself := hitems (k.threads t).priority.toNat
  rw [if_pos rfl, hnone _ (Nat.le_refl _), List.nil_append] at hself
  rcases getNewThread_cases hb with ⟨hempty, -⟩
    | ⟨q, u, us, hq, hcons, hlow, heq⟩
  · cases (hempty _ hp.toNat_lt).symm.trans hself
  · rw [heq]
    rcases Nat.lt_trichotomy q (k.threads t).priority.toNat with hlt | hqp | hgt
    · have hq0 := hitems q
      rw [if_neg (Nat.ne_of_lt hlt), hnone q (Nat.le_of_lt hlt)] at hq0
      cases hq0.symm.trans hcons
    · rw [hqp, hself] at hcons
      exact (List.cons.inj hcons).1.symm
    · cases (hlow _ hgt).symm.trans hself

theorem threadSetPriority_done (h : Good s k) (hc : k.current ≠ idleThread)
    (hfr : k.frames k.current = []) (p : Int)
    (hs : s.single → ∀ q, q ≤ (clampPriority p).toNat → k.runQueue q = []) :
    Holds (threadSetPriority p k) (Done s k) (Excused s) := by
  have hok := priorityOk_clampPriority p
  have hlife : SameLife s { k.threads k.current with state := .running }
      { k.threads k.current with priority := clampPriority p } :=
    ⟨h.rest.running, rfl, rfl, rfl, fun _ => rfl⟩
  have hq := clampPriority_queueInv h.queue h.rest.unlinked p
  dsimp only [threadSetPriority]
  rw [insertInRunQueueHead_eq_tail]
  refine Holds.bind (insert_holds hq hc h.rest.unlinked) ?_
  rintro k1 ⟨-, hq1, rfl⟩
  have henlist := enlist_current h hc
    (f := fun th => { th with priority := clampPriority p }) hlife (.inr rfl)
  have hleave : Leaving s (enqueue (k.setThread k.current fun th =>
      { th with priority := clampPriority p }) k.current) := by
    refine leaving_enqueue (.inl hfr) h.rest.unlinked ?_
    intro hsingle _
    refine getNewThread_enqueue hq1.bitmap h.rest.unlinked ?_ ?_
    · simpa using hok
    · intro q hqp
      exact hs hsingle q (by simpa using hqp)
  have hdone := leave_done hq1 (lifeInv_move h.life henlist) hleave
    .setPriority 0 (by simp)
  exact ⟨(Relation.ReflTransGen.single henlist).trans hdone.moves,
    hdone.rest⟩

theorem threadBlock_done (h : Good s k) (hc : k.current ≠ idleThread)
    (hfr : k.frames k.current = []) : Done s k (threadBlock k) := by
  have hpause : Move s k (k.setState k.current .blocked) :=
    .pause _ .blocked (sameLife_state _ .blocked) h.rest (by rw [hfr]; rfl)
      (.inr ⟨rfl, hc⟩)
  have hst : ((k.setState k.current .blocked).threads k.current).state
      = .blocked := by simp
  have hleave : Leaving s (k.setState k.current .blocked) := by
    refine ⟨.inl hfr, ?_, ?_⟩
    · exact fun _ hr => absurd (hst ▸ hr) not_runnable_blocked
    · exact fun _ hr => by cases hst.symm.trans hr
  have hdone := leave_done (h.queue.setState .blocked)
    (lifeInv_move h.life hpause) hleave .block 0 (by simp)
  exact ⟨(Relation.ReflTransGen.single hpause).trans hdone.moves, hdone.rest⟩

/-! ## Timers -/

/-- Arming a timer of the kernel that is not armed. -/
theorem armTimer_eq {r : TimerRef} (delay : Time)
    (hr : r ∉ k.timerQueue.queue) :
    ∃ tq, armTimer r delay (handler r) k = .ok { k with timerQueue := tq } ∧
      Armed tq k.timerQueue r := by
  obtain ⟨tq, heq, hq, ht⟩ := timerSet_spec k.now
    (if delay = 0 then 1 else delay) 0 (handler r) hr
  refine ⟨tq, ?_, hq, ?_, ?_⟩
  · rw [armTimer, timerSetOneshot]
    rw [heq]
  · intro r' hne
    rw [ht, Function.update_of_ne hne]
  · rw [ht, Function.update_self]

theorem threadSleep_done (h : Good s k) (hc : k.current ≠ idleThread)
    (hfr : k.frames k.current = []) (delay : Time) :
    Holds (threadSleep delay k) (Done s k) (Excused s) := by
  obtain ⟨tq, heq, harmed⟩ := armTimer_eq delay
    (h.life.current_not_sleeping h.rest)
  have hb : blockedIn (k.frames k.current) = none := by rw [hfr]; rfl
  have hsleep := Move.sleep (s := s) tq h.rest hc hb harmed
  have hq : QueueInv s.total { k with timerQueue := tq } := by
    have hcb : ∀ t, handler (.sleep k.current) = .threadSleepHandler t →
        t ≠ idleThread := by
      rintro t ht
      cases ht
      exact hc
    exact ((h.queue.armTimer hcb).of_ok heq).1
  have hst : (({ k with timerQueue := tq }.setState k.current
      .sleeping).threads k.current).state = .sleeping := by simp
  have hleave : Leaving s ({ k with timerQueue := tq }.setState k.current
      .sleeping) := by
    refine ⟨.inl hfr, ?_, ?_⟩
    · rintro - (hr | hr) <;> cases hst.symm.trans hr
    · exact fun _ hr => by cases hst.symm.trans hr
  have hdone := leave_done (hq.setState .sleeping)
    (lifeInv_move h.life hsleep) hleave .sleep 0 (by simp)
  dsimp only [threadSleep]
  rw [show armTimer (.sleep k.current) delay (.threadSleepHandler k.current) k
    = _ from heq, ok_bind]
  exact ⟨(Relation.ReflTransGen.single hsleep).trans hdone.moves, hdone.rest⟩

/-! ## Wake-ups -/

/-- What a wake-up of waiters leaves: only threads that were on a wait queue
    are seen to. -/
structure Woke (s : Scope) (k k' : Kernel) : Prop where
  moves : Moves s k k'
  queue : QueueInv s.total k'
  undisturbed : Undisturbed k k'
  others : ∀ u, (∀ q, k.queues.link u ≠ some (.wait q)) →
    view k' u = view k u

theorem Woke.refl (h : QueueInv s.total k) : Woke s k k :=
  ⟨.refl, h, Undisturbed.refl k, fun _ _ => rfl⟩

theorem Woke.trans {k1 k2 k3 : Kernel} (h : Woke s k1 k2)
    (h' : Woke s k2 k3) : Woke s k1 k3 := by
  refine ⟨h.moves.trans h'.moves, h'.queue,
    h.undisturbed.trans h'.undisturbed, ?_⟩
  intro u hu
  have hsame := h.others u hu
  refine (h'.others u ?_).trans hsame
  intro q hq
  exact hu q ((congrArg View.link hsame).symm.trans hq)

/-- A wake-up leaves the current thread as it is. -/
theorem Woke.resting (h : Woke s k k') (hr : Resting k) : Resting k' := by
  have hc := h.undisturbed.2.1
  have hsame := h.others k.current
    (fun q hq => by cases hr.unlinked.symm.trans hq)
  constructor
  · rw [hc]
    exact (congrArg View.state hsame).trans hr.running
  · rw [hc]
    exact (congrArg View.link hsame).trans hr.unlinked

/-- The condition under which a waiter may be woken: who waits for an exit
    is woken when the thread is dead. -/
structure MayWake (s : Scope) (k : Kernel) (q : WaitQueueRef)
    (error : Int) : Prop where
  code : s.code error
  dead : ∀ u, q = .exitOf u → (k.threads u).state = .death ∧ 0 ≤ error

theorem mayWake_user (k : Kernel) (n : Nat) {error : Int}
    (hcode : s.code error) : MayWake s k (.user n) error :=
  ⟨hcode, by simp⟩

/-- Waking the waiter `t`. -/
theorem wake_holds (hq : QueueInv s.total k) {q : WaitQueueRef} {error : Int}
    (hl : k.queues.link t = some (.wait q)) (hx : MayWake s k q error) :
    Holds (insertInRunQueueHead t
        (readyWaiter q t error { k with queues := k.queues.delete t }))
      (fun k' => Woke s k k' ∧ k' = enqueue
        (readyWaiter q t error { k with queues := k.queues.delete t }) t)
      (Excused s) := by
  have ht := QueueInv.waiter_ne_idle hq hl
  have hnone : (readyWaiter q t error
      { k with queues := k.queues.delete t }).queues.link t = none := by
    simp [readyWaiter]
  rw [insertInRunQueueHead_eq_tail]
  refine (insert_holds (hq.readyWaiter hl error) ht hnone).imp ?_
  rintro k' ⟨-, hk', rfl⟩
  refine ⟨⟨?_, hk', ⟨booted_readyWaiter q error, rfl, rfl, rfl⟩, ?_⟩, rfl⟩
  · exact .single (.wake q t error hl ((hq.wait t q).mp hl) hx.dead hx.code)
  · intro u hu
    rw [view_wake, if_neg]
    rintro rfl
    exact hu q hl

/-- The next thread to be woken is the one at the head. -/
theorem waitList_wake {q : WaitQueueRef} {ts : List Tid} (error : Int)
    (hcons : k.waitList q = t :: ts) :
    (enqueue (readyWaiter q t error
      { k with queues := k.queues.delete t }) t).waitList q = ts := by
  have hnone : (readyWaiter q t error
      { k with queues := k.queues.delete t }).queues.link t = none := by
    simp [readyWaiter]
  rw [waitList_enqueue hnone]
  exact k.queues.items_delete_head hcons

/-- A dead thread is on no wait queue, so it stays dead in a wake-up. -/
theorem Woke.death (h : Woke s k k') (hlife : LifeInv s k)
    (hd : (k.threads t).state = .death) :
    (k'.threads t).state = .death := by
  have hsame := h.others t ?_
  · exact (congrArg View.state hsame).trans hd
  · intro q hq
    have hb := ((hlife.ok t).wait q hq).1
    cases hb.symm.trans hd

/-- **The loop of `wait_queue_wake_all`** wakes every waiter and counts them. -/
theorem wakeAllLoop_woke (q : WaitQueueRef) (error : Int) :
    ∀ (n : Nat) (ret : Int) (k : Kernel), QueueInv s.total k → LifeInv s k →
      (k.waitList q).length < n →
      (k.waitList q ≠ [] → MayWake s k q error) →
      Holds (wakeAllLoop q error n ret k)
        (fun r => Woke s k r.2 ∧ r.1 = ret + (k.waitList q).length)
        (Excused s) := by
  intro n
  induction n with
  | zero => intro ret k _ _ hn; exact absurd hn (Nat.not_lt_zero _)
  | succ n ih =>
      intro ret k hq hlife hn hx
      rw [wakeAllLoop, listRemoveHead]
      cases hlist : k.queues.items (.wait q) with
      | nil =>
          have hnil : k.waitList q = [] := hlist
          refine ⟨Woke.refl hq, ?_⟩
          rw [hnil]
          exact (Int.add_zero ret).symm
      | cons t ts =>
          have hcons : k.waitList q = t :: ts := hlist
          have hl := k.queues.link_of_items_cons hlist
          have hmay := hx (by rw [hcons]; simp)
          refine Holds.bind (wake_holds hq hl hmay) ?_
          rintro k' ⟨hw, hk'⟩
          have hlist' : k'.waitList q = ts := by
            rw [hk']
            exact waitList_wake error hcons
          have hlen : (k'.waitList q).length < n := by
            rw [hlist']
            rw [hcons, List.length_cons] at hn
            omega
          refine (ih (ret + 1) k' hw.queue (lifeInv_moves hlife hw.moves) hlen
            ?_).imp ?_
          · refine fun _ => ⟨hmay.code, ?_⟩
            intro u hu
            obtain ⟨hd, herr⟩ := hmay.dead u hu
            exact ⟨hw.death hlife hd, herr⟩
          · rintro r ⟨hr, hret⟩
            refine ⟨hw.trans hr, ?_⟩
            rw [hret, hlist', hcons, List.length_cons]
            omega

/-- The caller of a rescheduling wake-up is on its run queue. -/
structure Requeued (s : Scope) (k k' : Kernel) : Prop where
  moves : Moves s k k'
  queue : QueueInv s.total k'
  current : k'.current = k.current
  frames : k'.frames = k.frames
  ready : (k'.threads k.current).state = .ready
  linked : ∃ p, k'.queues.link k.current = some (.run p)

theorem Requeued.leaving (h : Requeued s k k')
    (hfr : k.frames k.current = []) : Leaving s k' := by
  rw [← h.current] at hfr
  refine ⟨.inl (by rw [h.frames]; exact hfr), ?_, ?_⟩
  · intro _ _
    rw [h.current]
    exact .inr h.linked
  · intro _ hr
    rw [h.current] at hr
    cases h.ready.symm.trans hr

/-- A wake-up leaves a requeued caller where it is. -/
theorem Requeued.woke {k1 : Kernel} (h : Requeued s k k1)
    (hw : Woke s k1 k') : Requeued s k k' := by
  obtain ⟨p, hp⟩ := h.linked
  have hsame := hw.others k.current (fun q hq => by cases hp.symm.trans hq)
  refine ⟨h.moves.trans hw.moves, hw.queue,
    hw.undisturbed.2.1.trans h.current, hw.undisturbed.2.2.2.trans h.frames,
    (congrArg View.state hsame).trans h.ready,
    ⟨p, (congrArg View.link hsame).trans hp⟩⟩

theorem Requeued.done (h : Requeued s k k') (hlife : LifeInv s k)
    (hfr : k.frames k.current = []) (op : Op) (ret : Int)
    (hop : op ≠ .exit) :
    Done s k
      (threadResched (k'.pushFrame k.current (.afterResched op ret))) := by
  have hdone := leave_done h.queue (lifeInv_moves hlife h.moves)
    (h.leaving hfr) op ret (fun he => absurd he hop)
  rw [h.current] at hdone
  exact ⟨h.moves.trans hdone.moves, hdone.rest⟩

theorem requeued_enqueue (h : Good s k) (hc : k.current ≠ idleThread)
    (hp : PriorityOk (k.threads k.current).priority) :
    Requeued s k (enqueue (k.setState k.current .ready) k.current) := by
  have hl : (k.setState k.current .ready).queues.link k.current = none :=
    h.rest.unlinked
  have hp' : PriorityOk
      ((k.setState k.current .ready).threads k.current).priority := by
    simpa using hp
  have hmove := enlist_current h hc (f := fun th => { th with state := .ready })
    (sameLife_state _ .ready) (.inl rfl)
  refine ⟨.single hmove, (h.queue.setState .ready).enqueue hl hp' hc, rfl,
    rfl, ?_, ⟨((k.threads k.current).priority).toNat, ?_⟩⟩
  · simp [enqueue]
  · rw [enqueue_queues, NodeLists.link_addTail _ _ _ hl,
      Function.update_self]
    simp

/-- The caller may go on its run queue before the waiter is made READY. -/
theorem requeue_readyWaiter (q : WaitQueueRef) (error : Int)
    (hne : t ≠ k.current) (hl : k.queues.link k.current = none) :
    enqueue ((readyWaiter q t error
        { k with queues := k.queues.delete t }).setState k.current .ready)
        k.current =
      readyWaiter q t error
        { enqueue (k.setState k.current .ready) k.current with
          queues := (enqueue (k.setState k.current .ready)
            k.current).queues.delete t } := by
  have hqueues := k.queues.addTail_delete
    (.run (k.threads k.current).priority.toNat) hne hl
  simp [enqueue, readyWaiter, Kernel.setThread, Kernel.emit, Kernel.waitCall,
    hne, Ne.symm hne, hqueues, Function.update_comm hne]

theorem waitQueueWakeOne_done (h : Good s k) (hc : k.current ≠ idleThread)
    (hfr : k.frames k.current = []) (n : Nat) (reschedule : Bool)
    {error : Int} (hcode : s.code error) :
    Holds (waitQueueWakeOne (.user n) reschedule error k)
      (fun r => Done s k r.2 ∧
        r.1 = if k.waitList (.user n) = [] then 0 else 1) (Excused s) := by
  rw [waitQueueWakeOne, listRemoveHead]
  cases hlist : k.queues.items (.wait (.user n)) with
  | nil =>
      have hnil : k.waitList (.user n) = [] := hlist
      exact ⟨⟨.refl, h.rest⟩, by rw [if_pos hnil]⟩
  | cons t ts =>
      have hl := k.queues.link_of_items_cons hlist
      have hsome : k.waitList (.user n) ≠ [] := by
        rw [show k.waitList (.user n) = t :: ts from hlist]
        simp
      have hne : t ≠ k.current := by
        rintro rfl
        cases h.rest.unlinked.symm.trans hl
      dsimp only
      cases reschedule with
      | false =>
          rw [if_neg Bool.false_ne_true, pure_bind]
          refine Holds.bind (wake_holds h.queue hl (mayWake_user k n hcode)) ?_
          rintro k' ⟨hw, -⟩
          exact ⟨⟨hw.moves, hw.resting h.rest⟩, by rw [if_neg hsome]⟩
      | true =>
          have hready := h.queue.readyWaiter hl error
          have hlc : ((readyWaiter (.user n) t error
              { k with queues := k.queues.delete t }).setState k.current
                .ready).queues.link k.current = none := by
            simpa [readyWaiter, Ne.symm hne] using h.rest.unlinked
          rw [if_pos rfl]
          refine Holds.bind (insert_holds (hready.setState .ready) hc hlc) ?_
          rintro k1 ⟨hp, -, hk1⟩
          -- the two insertions of the code in the order of the moves
          have hswap := hk1.trans
            (requeue_readyWaiter (.user n) error hne h.rest.unlinked)
          have hreq := requeued_enqueue h hc
            (by simpa [readyWaiter, Ne.symm hne] using hp)
          have hl0 : (enqueue (k.setState k.current .ready)
              k.current).queues.link t = some (.wait (.user n)) := by
            have hlc0 : (k.setState k.current .ready).queues.link k.current
              = none := h.rest.unlinked
            rw [enqueue_queues, NodeLists.link_addTail _ _ _ hlc0,
              Function.update_of_ne hne]
            exact hl
          rw [hswap]
          refine Holds.bind
            (wake_holds hreq.queue hl0 (mayWake_user _ n hcode)) ?_
          rintro k2 ⟨hw, -⟩
          have hdone := (hreq.woke hw).done h.life hfr .wakeOne 1 (by simp)
          exact ⟨hdone, by rw [if_neg hsome]⟩

theorem waitQueueWakeAll_done (h : Good s k) (hc : k.current ≠ idleThread)
    (hfr : k.frames k.current = []) (n : Nat) (reschedule : Bool)
    {error : Int} (hcode : s.code error) :
    Holds (waitQueueWakeAll (.user n) reschedule error k)
      (fun r => Done s k r.2 ∧ r.1 = (k.waitList (.user n)).length)
      (Excused s) := by
  have hcount := h.queue.count (.user n)
  dsimp only [waitQueueWakeAll]
  by_cases hres : reschedule = true ∧ k.waitCount (.user n) > 0
  · rw [if_pos hres]
    refine Holds.bind
      (insert_holds (h.queue.setState .ready) hc h.rest.unlinked) ?_
    rintro k1 ⟨hp, -, rfl⟩
    have hreq := requeued_enqueue h hc (by simpa using hp)
    have hlist := waitList_enqueue (k := k.setState k.current .ready)
      h.rest.unlinked (.user n)
    refine Holds.bind (wakeAllLoop_woke (.user n) error _ 0 _ hreq.queue
      (lifeInv_moves h.life hreq.moves) (Nat.lt_succ_self _)
      (fun _ => mayWake_user _ n hcode)) ?_
    rintro ⟨ret, k2⟩ ⟨hw, hret⟩
    have hret' : ret = (k.waitList (.user n)).length := by
      have hret0 : ret = 0 + (((enqueue (k.setState k.current .ready)
        k.current).waitList (.user n)).length : Int) := hret
      rw [hret0, hlist, Int.zero_add]
      rfl
    have hpos : ret > 0 ∧ reschedule = true := by
      refine ⟨?_, hres.1⟩
      rw [hret', ← hcount]
      exact hres.2
    dsimp only
    rw [if_pos hpos]
    exact ⟨(hreq.woke hw).done h.life hfr .wakeAll ret (by simp), hret'⟩
  · rw [if_neg hres, pure_bind]
    refine Holds.bind (wakeAllLoop_woke (.user n) error _ 0 _ h.queue h.life
      (Nat.lt_succ_self _) (fun _ => mayWake_user _ n hcode)) ?_
    rintro ⟨ret, k2⟩ ⟨hw, hret⟩
    have hret' : ret = (k.waitList (.user n)).length := by
      have hret0 : ret = 0 + ((k.waitList (.user n)).length : Int) := hret
      rw [hret0, Int.zero_add]
    have hno : ¬ (ret > 0 ∧ reschedule = true) := by
      rintro ⟨hpos, hr⟩
      refine hres ⟨hr, ?_⟩
      rw [hcount, ← hret']
      exact hpos
    dsimp only
    rw [if_neg hno]
    exact ⟨⟨hw.moves, hw.resting h.rest⟩, hret'⟩

/-- A wake-up that does not reschedule. -/
theorem waitQueueWakeAll_woke (hq : QueueInv s.total k) (hlife : LifeInv s k)
    (q : WaitQueueRef) (error : Int)
    (hx : k.waitList q ≠ [] → MayWake s k q error) :
    Holds (waitQueueWakeAll q false error k)
      (fun r => Woke s k r.2) (Excused s) := by
  dsimp only [waitQueueWakeAll]
  rw [if_neg (fun h => Bool.false_ne_true h.1), pure_bind]
  refine Holds.bind (wakeAllLoop_woke q error _ 0 k hq hlife
    (Nat.lt_succ_self _) hx) ?_
  rintro ⟨ret, k2⟩ ⟨hw, -⟩
  dsimp only
  rw [if_neg (fun h => Bool.false_ne_true h.2)]
  exact hw

/-! ## Blocking -/

/-- `wait_queue_block` of an unlinked thread that may wait. -/
theorem waitQueueBlock_eq (q : WaitQueueRef) {timeout : Time}
    (hl : k.queues.link k.current = none) (h0 : timeout ≠ 0) :
    waitQueueBlock q timeout k = (do
      let k1 ←
        (if timeout ≠ infinitTime then
          armTimer (.wait k.current) timeout (handler (.wait k.current))
            (blockedOn k q)
        else pure (blockedOn k q))
      return threadResched
        (k1.pushFrame k.current (.waitQueueBlock q timeout k.nextCall))) := by
  dsimp only [waitQueueBlock]
  rw [if_neg h0]
  simp only [listAddTail, hl, ok_bind]
  rfl

/-- What `wait_queue_block` ends with, whatever timer queue it leaves and
    whatever is `below` it on the stack. -/
theorem waitQueueBlock_holds (q : WaitQueueRef) {timeout : Time}
    (below : List Frame) (hl : k.queues.link k.current = none)
    (h0 : timeout ≠ 0) (hw : TimerRef.wait k.current ∉ k.timerQueue.queue)
    {Q : Kernel → Prop} {E : Fault → Prop}
    (hend : ∀ tq, (timeout = infinitTime ∧ tq = k.timerQueue ∨
      timeout ≠ infinitTime ∧ Armed tq k.timerQueue (.wait k.current)) →
      Q (threadResched { blockedOn k q with
        timerQueue := tq
        frames := Function.update k.frames k.current
          (.waitQueueBlock q timeout k.nextCall :: below) })) :
    Holds (waitQueueBlock q timeout
      { k with frames := Function.update k.frames k.current below }) Q E := by
  have hpush : ∀ tq, { blockedOn
      { k with frames := Function.update k.frames k.current below } q with
        timerQueue := tq }.pushFrame k.current
          (.waitQueueBlock q timeout k.nextCall) =
      { blockedOn k q with
        timerQueue := tq
        frames := Function.update k.frames k.current
          (.waitQueueBlock q timeout k.nextCall :: below) } := by
    intro tq
    simp [Kernel.pushFrame, blockedOn]
  have hq : ∀ tq, (timeout = infinitTime ∧ tq = k.timerQueue ∨
      timeout ≠ infinitTime ∧ Armed tq k.timerQueue (.wait k.current)) →
      Q (threadResched ({ blockedOn
        { k with frames := Function.update k.frames k.current below } q with
          timerQueue := tq }.pushFrame k.current
            (.waitQueueBlock q timeout k.nextCall))) := by
    intro tq htq
    rw [hpush]
    exact hend tq htq
  rw [waitQueueBlock_eq (k := { k with
    frames := Function.update k.frames k.current below }) q hl h0]
  by_cases hinf : timeout = infinitTime
  · rw [if_neg (not_not.mpr hinf), pure_bind]
    exact hq k.timerQueue (.inl ⟨hinf, rfl⟩)
  · rw [if_pos hinf]
    have hnot : TimerRef.wait k.current ∉ (blockedOn
        { k with frames := Function.update k.frames k.current below }
          q).timerQueue.queue := hw
    obtain ⟨tq, heq, harmed⟩ := armTimer_eq timeout hnot
    rw [heq, ok_bind]
    exact hq tq (.inr ⟨hinf, harmed⟩)

/-- Blocking, with the call of `thread_join` that may be below. -/
theorem waitQueueBlock_done (h : Good s k) (hc : k.current ≠ idleThread)
    (hfr : k.frames k.current = []) {q : WaitQueueRef} {below : List Frame}
    {timeout : Time} (hb : Below s k q timeout below) (h0 : timeout ≠ 0) :
    Holds (waitQueueBlock q timeout
        { k with frames := Function.update k.frames k.current below })
      (Done s k) (Excused s) := by
  have hfrom : blockedIn (k.frames k.current) = none := by rw [hfr]; rfl
  have hqueue := h.queue.blockedOn q h.rest.unlinked hc
  refine waitQueueBlock_holds q below h.rest.unlinked h0
    (h.life.not_waiting hfrom) ?_
  intro tq htq
  have hmove := Move.block q timeout below tq h.rest hc hfr hb htq
  have hst : (({ blockedOn k q with
      timerQueue := tq
      frames := Function.update k.frames k.current
        (.waitQueueBlock q timeout k.nextCall :: below) } : Kernel).threads
          k.current).state = .blocked := by
    simp [blockedOn]
  refine ⟨(Relation.ReflTransGen.single hmove).tail
    (.dispatch hqueue.bitmap hqueue.idle_unlinked ?_ ?_),
    resting_threadResched hqueue.idle_unlinked⟩
  · exact fun _ hr => absurd (hst ▸ hr) not_runnable_blocked
  · exact fun _ hr => by cases hst.symm.trans hr

/-- Reaping a dead thread. -/
theorem threadJoinReap_done (hr : Resting k) (hs : s.joins)
    (hm : k.threadLists.link t ≠ none) (hd : (k.threads t).state = .death)
    (ho : s.once → k.threadLists.link t = some .all ∧
      ∀ u, joining (k.frames u) ≠ some t) (wantRetcode : Bool) :
    Holds (threadJoinReap t wantRetcode (k.lifetime t) k) (Done s k)
      (Excused s) := by
  obtain ⟨ref, href⟩ := Option.ne_none_iff_exists'.mp hm
  have hreclaim := Move.reclaim t (k.lifetime t) hm hd rfl ho
  rw [threadJoinReap, unlinkAndFree]
  rw [href]
  dsimp only
  rw [ok_bind]
  refine ⟨(Relation.ReflTransGen.single hreclaim).tail
    (.joined t (k.lifetime t) noErr wantRetcode _ hs
      (.inl ⟨rfl, hd, rfl, ?_, rfl⟩)), ⟨hr.running, hr.unlinked⟩⟩
  exact List.mem_append_right _ (List.mem_singleton_self _)

/-- Nothing of the kernel is below `wait_queue_block`. -/
theorem waitQueueBlockReturns_nil (ret : Int)
    (hfr : k.frames k.current = []) :
    waitQueueBlockReturns ret k = .ok k := by
  rw [waitQueueBlockReturns]
  rw [hfr]

/-- `thread_join` takes the thread for dead. -/
theorem waitQueueBlockReturns_join {ret : Int} {w : Bool} {l : Nat}
    {below : List Frame}
    (hfr : k.frames k.current = .threadJoin t w l :: below) (hret : 0 ≤ ret) :
    waitQueueBlockReturns ret k =
      threadJoinReap t w l (k.popFrame k.current) := by
  rw [waitQueueBlockReturns]
  rw [hfr]
  dsimp only
  rw [if_neg (Int.not_lt.mpr hret)]

/-- The state in which `wait_queue_block` has returned to what is below. -/
theorem waitQueueBlockRest_eq {q : WaitQueueRef} {timeout : Time}
    {call : Nat} {below : List Frame}
    (hfr : k.frames k.current = .waitQueueBlock q timeout call :: below) :
    waitQueueBlockRest timeout call k =
      waitQueueBlockReturns (k.threads k.current).waitQueueBlockRet
        ({ k with
          timerQueue :=
            if timeout ≠ infinitTime then
              timerCancel (.wait k.current) k.timerQueue
            else k.timerQueue
          frames := Function.update k.frames k.current below }.emit
            (.returned call k.current
              (k.threads k.current).waitQueueBlockRet)) := by
  rw [waitQueueBlockRest]
  by_cases hinf : timeout = infinitTime <;>
    simp [hinf, hfr, Kernel.popFrame, Kernel.emit]

theorem waitQueueBlockRest_done (h : Good s k)
    (hs : joining (k.frames k.current) ≠ none → s.joins) {q : WaitQueueRef}
    {timeout : Time} {call : Nat} {below : List Frame}
    (hfr : k.frames k.current = .waitQueueBlock q timeout call :: below) :
    Holds (waitQueueBlockRest timeout call k) (Done s k) (Excused s) := by
  have hmove := Move.returns (s := s) q timeout call below h.rest hfr
  have hok : FramesOk (.waitQueueBlock q timeout call :: below) :=
    hfr ▸ (h.life.ok k.current).stack
  rw [waitQueueBlockRest_eq hfr]
  cases hok with
  | plain hf => cases hf.1
  | blocked n _ _ =>
      rw [waitQueueBlockReturns_nil _ (Function.update_self _ _ _)]
      exact ⟨.single hmove, ⟨h.rest.running, h.rest.unlinked⟩⟩
  | inJoin t _ _ w l =>
      have hmem : Frame.threadJoin t w l ∈ k.frames k.current := by
        rw [hfr]
        exact List.mem_cons_of_mem _ (List.mem_singleton_self _)
      have hjoin : joining (k.frames k.current) = some t :=
        (joining_eq_some_iff (h.life.ok k.current).stack).mpr ⟨w, l, hmem⟩
      obtain ⟨hne, rfl, -, hor⟩ := h.life.joins k.current t w l hmem
      have hdeath : (k.threads t).state = .death := by
        refine hor.resolve_left ?_
        rw [h.rest.unlinked]
        simp
      have hret : 0 ≤ (k.threads k.current).waitQueueBlockRet := by
        refine (h.life.ok k.current).ret ?_
        show joining (k.frames k.current) ≠ none
        rw [hjoin]
        simp
      have hreap := threadJoinReap_done (s := s) (t := t)
        (k := { k with
          timerQueue :=
            if timeout ≠ infinitTime then
              timerCancel (.wait k.current) k.timerQueue
            else k.timerQueue
          frames := Function.update k.frames k.current [] }.emit
            (.returned call k.current
              (k.threads k.current).waitQueueBlockRet))
        ⟨h.rest.running, h.rest.unlinked⟩ (hs (by rw [hjoin]; simp))
        hne hdeath ?_ w
      · rw [waitQueueBlockReturns_join (Function.update_self _ _ _) hret]
        have heq := hreap.imp (fun k' hk' =>
          (⟨(Relation.ReflTransGen.single hmove).trans hk'.moves, hk'.rest⟩ :
            Done s k k'))
        simpa [Kernel.popFrame, Kernel.emit] using heq
      · intro ho
        obtain ⟨hall, hone⟩ := h.life.once ho k.current t hjoin
        refine ⟨hall, ?_⟩
        intro u hu
        have hu' : joining (Function.update k.frames k.current [] u)
          = some t := hu
        by_cases hcur : u = k.current
        · rw [hcur, Function.update_self] at hu'
          cases hu'
        · rw [Function.update_of_ne hcur] at hu'
          exact hcur (hone u hu')

end ChinixSimulation

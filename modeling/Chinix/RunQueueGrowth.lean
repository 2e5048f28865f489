import Chinix.BeforeResched
import Mathlib.Order.Lattice

/-! # Between two choices of `thread_resched` the run queues only grow

    A call appends threads to the run queues and takes none off before it
    gives up the CPU, so that what was on a run queue stays in front.  On the
    way the priorities stay in range of every thread that runs, has run or is
    linked: a thread leaves SUSPENDED only through an insertion, which needs a
    run queue for its priority.  The quantum of the caller goes along: it
    counts only where the call does run `thread_resched`. -/

namespace ChinixRunQueueGrowth

open ChinixTimerQueue ChinixPlatformTimer ChinixKernel ChinixRunQueue
open ChinixWaitQueue ChinixThread ChinixMachine Outcome
open ChinixQueueInvariant ChinixQueueRuns ChinixQuantum

variable {cfg : Config} {k k' k1 : Kernel} {t : Tid} {quantum : Int}

/-- A thread that is running, idle, linked or no longer SUSPENDED. -/
def Active (k : Kernel) (t : Tid) : Prop :=
  (k.threads t).state ≠ .suspended ∨ k.queues.link t ≠ none ∨
    t = idleThread ∨ t = k.current

/-- The priorities of the active threads are in range. -/
def InRange (k : Kernel) : Prop :=
  ∀ t, Active k t → PriorityOk (k.threads t).priority

/-- A call goes from `k` to `k'` without giving up the CPU. -/
structure Grows (k k' : Kernel) : Prop where
  current : k'.current = k.current
  runQueue : ∀ p, ∃ added, k'.runQueue p = k.runQueue p ++ added
  range : InRange k → InRange k'
  slice : ∀ u, (k'.threads u).remainingQuantum
    ≤ max (k.threads u).remainingQuantum 0
  quiet : Quiet k k'

theorem Grows.trans (h : Grows k k1) (h' : Grows k1 k') : Grows k k' where
  current := h'.current.trans h.current
  runQueue := by
    intro p
    obtain ⟨added, heq⟩ := h.runQueue p
    obtain ⟨added', heq'⟩ := h'.runQueue p
    exact ⟨added ++ added', by rw [heq', heq, List.append_assoc]⟩
  range := fun hr => h'.range (h.range hr)
  slice := fun u => Int.le_trans (h'.slice u)
    (Int.max_le.mpr ⟨h.slice u, Int.le_max_right _ _⟩)
  quiet := h.quiet.trans h'.quiet

/-- What neither the slots, the queues nor the current thread depends on. -/
theorem Grows.of_eq (hc : k'.current = k.current)
    (ht : k'.threads = k.threads) (hq : k'.queues = k.queues)
    (hl : Quiet k k') : Grows k k' where
  current := hc
  runQueue := fun p => ⟨[], by rw [Kernel.runQueue, hq, List.append_nil]; rfl⟩
  range := by
    intro hr t hact
    rw [Active, ht, hq, hc] at hact
    rw [ht]
    exact hr t hact
  slice := fun u => by
    rw [ht]
    exact Int.le_max_left _ _
  quiet := hl

theorem Grows.of_log (hc : k'.current = k.current)
    (ht : k'.threads = k.threads) (hq : k'.queues = k.queues)
    (hl : k'.log = k.log) : Grows k k' :=
  Grows.of_eq hc ht hq (Quiet.of_log hl)

theorem Grows.refl (k : Kernel) : Grows k k := Grows.of_log rfl rfl rfl rfl

theorem Grows.emit (k : Kernel) {e : Event}
    (he : ∀ new p queued, e ≠ .rescheduled new p queued) :
    Grows k (k.emit e) :=
  Grows.of_eq rfl rfl rfl ((Quiet.of_log rfl).emit he)

/-- Changing the fields of a slot that is active already. -/
theorem Grows.setThread (k : Kernel) (t : Tid) (f : Thread → Thread)
    (hp : (f (k.threads t)).priority = (k.threads t).priority)
    (hq : (f (k.threads t)).remainingQuantum
      ≤ max (k.threads t).remainingQuantum 0)
    (hact : Active (k.setThread t f) t → Active k t) :
    Grows k (k.setThread t f) where
  current := rfl
  runQueue := fun _ => ⟨[], (List.append_nil _).symm⟩
  range := by
    intro hr u hu
    by_cases hut : u = t
    · subst hut
      have := hr u (hact hu)
      simpa [hp] using this
    · have hu' : Active k u := by simpa [Active, hut] using hu
      simpa [hut] using hr u hu'
  slice := by
    intro u
    by_cases hut : u = t
    · subst hut
      simpa using hq
    · simp [hut]
  quiet := Quiet.of_log rfl

/-- Changing the fields of the slot of the current thread. -/
theorem Grows.setCurrent (f : Thread → Thread) (ht : t = k.current)
    (hp : (f (k.threads t)).priority = (k.threads t).priority)
    (hq : (f (k.threads t)).remainingQuantum
      ≤ max (k.threads t).remainingQuantum 0) :
    Grows k (k.setThread t f) :=
  Grows.setThread k t f hp hq fun _ => .inr (.inr (.inr ht))

/-- A call goes from `k` to `k'` without giving up the CPU and without
    touching a quantum. -/
structure Steady (k k' : Kernel) : Prop extends Keeps k k' where
  runQueue : ∀ p, ∃ added, k'.runQueue p = k.runQueue p ++ added
  range : InRange k → InRange k'

theorem Steady.toGrows (h : Steady k k') : Grows k k' :=
  ⟨h.current, h.runQueue, h.range,
    fun u => h.quantum u ▸ Int.le_max_left _ _, h.quiet⟩

theorem Steady.of (hk : Keeps k k') (hg : Grows k k') : Steady k k' :=
  ⟨hk, hg.runQueue, hg.range⟩

theorem Steady.trans (h : Steady k k1) (h' : Steady k1 k') : Steady k k' :=
  Steady.of (h.toKeeps.trans h'.toKeeps) (h.toGrows.trans h'.toGrows)

theorem Steady.of_eq (hc : k'.current = k.current)
    (ht : k'.threads = k.threads) (hq : k'.queues = k.queues)
    (hl : Quiet k k') : Steady k k' :=
  Steady.of (Keeps.of_eq hc ht hl) (Grows.of_eq hc ht hq hl)

theorem Steady.of_log (hc : k'.current = k.current)
    (ht : k'.threads = k.threads) (hq : k'.queues = k.queues)
    (hl : k'.log = k.log) : Steady k k' :=
  Steady.of_eq hc ht hq (Quiet.of_log hl)

theorem Steady.refl (k : Kernel) : Steady k k := Steady.of_log rfl rfl rfl rfl

theorem Steady.emit (k : Kernel) {e : Event}
    (he : ∀ new p queued, e ≠ .rescheduled new p queued) :
    Steady k (k.emit e) :=
  Steady.of_eq rfl rfl rfl ((Quiet.of_log rfl).emit he)

theorem Steady.setCurrent (f : Thread → Thread) (ht : t = k.current)
    (hp : (f (k.threads t)).priority = (k.threads t).priority)
    (hq : (f (k.threads t)).remainingQuantum
      = (k.threads t).remainingQuantum) : Steady k (k.setThread t f) :=
  Steady.of (Keeps.setThread k t f hq)
    (Grows.setCurrent f ht hp (hq ▸ Int.le_max_left _ _))

/-- A thread goes on its run queue, whatever it was before. -/
theorem Steady.enlist (f : Thread → Thread)
    (hp : (f (k.threads t)).priority = (k.threads t).priority)
    (hq : (f (k.threads t)).remainingQuantum
      = (k.threads t).remainingQuantum)
    (hl : k.queues.link t = none) (hok : PriorityOk (k.threads t).priority) :
    Steady k (enqueue (k.setThread t f) t) where
  current := rfl
  quantum := (Keeps.setThread k t f hq).quantum
  runQueue := by
    intro p
    have hl' : (k.setThread t f).queues.link t = none := hl
    rw [runQueue_enqueue hl']
    split
    · exact ⟨[t], rfl⟩
    · exact ⟨[], (List.append_nil _).symm⟩
  range := by
    intro hr u hu
    by_cases hut : u = t
    · subst hut
      simpa [hp] using hok
    · have hu' : Active k u := by
        simpa [Active, hut, NodeLists.link_addTail _ _ _ hl] using hu
      simpa [hut] using hr u hu'
  quiet := Quiet.of_log rfl

theorem setThread_id (k : Kernel) (t : Tid) : k.setThread t id = k := by
  rw [Kernel.setThread]
  rw [id, Function.update_eq_self]

/-- Insertion of a thread whose fields were set for it. -/
theorem insert_setThread_steady (k : Kernel) (t : Tid) (f : Thread → Thread)
    (hp : (f (k.threads t)).priority = (k.threads t).priority)
    (hq : (f (k.threads t)).remainingQuantum
      = (k.threads t).remainingQuantum) :
    Holds (insertInRunQueueTail t (k.setThread t f)) (Steady k)
      (fun _ => True) := by
  have hspec := insertInRunQueueTail_spec t (k.setThread t f)
  cases hr : insertInRunQueueTail t (k.setThread t f) with
  | error e => trivial
  | ok k1 =>
      obtain ⟨hl, hok, rfl⟩ := hspec.of_ok hr
      refine Steady.enlist f hp hq hl ?_
      simpa [hp] using hok

theorem insert_steady (t : Tid) (k : Kernel) :
    Holds (insertInRunQueueTail t k) (Steady k) (fun _ => True) := by
  have h := insert_setThread_steady k t id rfl rfl
  rwa [setThread_id] at h

/-- A waiter is taken off its list and made READY. -/
theorem readyWaiter_steady {q : WaitQueueRef}
    (hl : k.queues.link t = some (.wait q)) (error : Int) :
    Steady k (readyWaiter q t error
      { k with queues := k.queues.delete t }) where
  current := rfl
  quantum := by
    intro u
    by_cases hut : u = t
    · subst hut
      simp [readyWaiter]
    · simp [readyWaiter, hut]
  runQueue := by
    intro p
    refine ⟨[], ?_⟩
    rw [List.append_nil]
    exact k.queues.items_delete_of_ne (by rw [hl]; simp)
  range := by
    intro hr u hu
    by_cases hut : u = t
    · subst hut
      have := hr u (.inr (.inl (by rw [hl]; simp)))
      simpa [readyWaiter] using this
    · have hu' : Active k u := by simpa [Active, readyWaiter, hut] using hu
      simpa [readyWaiter, hut] using hr u hu'
  quiet := (Quiet.of_log rfl).emit (by simp)

/-! ## What comes before `thread_resched` -/

theorem threadUnblockFromWaitQueue_steady (h : QueueInv False k)
    (error : Int) :
    Holds (threadUnblockFromWaitQueue t error k) (fun r => Steady k r.2)
      (fun _ => True) := by
  rw [threadUnblockFromWaitQueue]
  split_ifs
  · exact Steady.refl k
  · cases hl : k.queues.link t with
    | none =>
        simp only [listDelete, hl, error_bind]
        trivial
    | some ref =>
        simp only [listDelete, hl, ok_bind]
        cases hw : (k.threads t).blockingWaitQueue with
        | none => trivial
        | some q =>
            have hlq := (h.wait t q).mpr hw
            refine Holds.bind (insert_steady t _) ?_
            intro k1 hk1
            exact (readyWaiter_steady hlq error).trans hk1

theorem invokeCallback_steady (h : QueueInv False k) (callback : Callback) :
    Holds (invokeCallback callback k) (fun r => Steady k r.2)
      (fun _ => True) := by
  cases callback with
  | threadSleepHandler t =>
      refine Holds.bind (insert_setThread_steady k t _ rfl rfl) ?_
      exact fun k1 hk1 => hk1
  | waitQueueTimeoutHandler t =>
      refine Holds.bind (threadUnblockFromWaitQueue_steady h errTimedOut) ?_
      exact fun _ hr => hr

/-- The state in which a call from `k` runs `thread_resched`, with `quantum`
    left to its caller. -/
structure Before (k : Kernel) (quantum : Int) (ke : Kernel) : Prop
    extends Entry k quantum ke where
  grows : Grows k ke

theorem Before.start (h : QueueInv False k) :
    Before k (k.threads k.current).remainingQuantum k :=
  ⟨⟨h, rfl, rfl, Quiet.of_log rfl⟩, Grows.refl k⟩

/-- The caller is left with another quantum. -/
theorem Before.spend (h : Before k quantum k1) (hinv : QueueInv False k')
    (hg : Grows k1 k') {left : Int}
    (hleft : (k'.threads k1.current).remainingQuantum = left) :
    Before k left k' := by
  have hgrows := h.grows.trans hg
  refine ⟨⟨hinv, hgrows.current, ?_, hgrows.quiet⟩, hgrows⟩
  rw [← hleft, h.current]

theorem Before.keep (h : Before k quantum k1) (hinv : QueueInv False k')
    (hs : Steady k1 k') : Before k quantum k' := by
  refine h.spend hinv hs.toGrows ?_
  rw [hs.quantum, h.current, h.quantum]

theorem Before.insert (h : Before k quantum k1) (ht : t ≠ idleThread) :
    Holds (insertInRunQueueTail t k1) (Before k quantum) (fun _ => True) := by
  refine ((insert_queueInv h.inv ht).and (insert_steady t k1)).partly ?_
  rintro k' ⟨⟨hinv, -⟩, hs⟩
  exact h.keep hinv hs

/-- A thread becomes READY and goes on its run queue. -/
theorem Before.insertReady (h : Before k quantum k1) (ht : t ≠ idleThread) :
    Holds (insertInRunQueueTail t (k1.setState t .ready)) (Before k quantum)
      (fun _ => True) := by
  refine ((insert_queueInv (h.inv.setState .ready) ht).and
    (insert_setThread_steady k1 t _ rfl rfl)).partly ?_
  rintro k' ⟨⟨hinv, -⟩, hs⟩
  exact h.keep hinv hs

theorem Before.setState (h : Before k quantum k1) (s : ThreadState)
    (ht : t = k1.current) : Before k quantum (k1.setState t s) :=
  h.keep (h.inv.setState s) (Steady.setCurrent _ ht rfl rfl)

theorem Before.wakeAllLoop (q : WaitQueueRef) (error : Int) :
    ∀ (n : Nat) (ret : Int) (k1 : Kernel), Before k quantum k1 →
      Holds (wakeAllLoop q error n ret k1) (fun r => Before k quantum r.2)
        (fun _ => True) := by
  intro n
  induction n with
  | zero => intro ret k1 _; trivial
  | succ n ih =>
      intro ret k1 h
      rw [ChinixWaitQueue.wakeAllLoop, listRemoveHead]
      cases hq : k1.queues.items (.wait q) with
      | nil => exact h
      | cons t ts =>
          have hl := k1.queues.link_of_items_cons hq
          have h1 := h.keep (h.inv.readyWaiter hl error)
            (readyWaiter_steady hl error)
          refine Holds.bind (h1.insert (QueueInv.waiter_ne_idle h.inv hl)) ?_
          intro k2 hk2
          exact ih (ret + 1) k2 hk2

/-- A call from `k` never runs `thread_resched`, or it ends with it. -/
def Ends (k : Kernel) (quantum : Int) (k' : Kernel) : Prop :=
  Grows k k' ∨ ∃ ke, Before k quantum ke ∧ k' = threadResched ke

theorem Before.ends (h : Before k quantum k1) : Ends k quantum k1 :=
  .inl h.grows

theorem Before.leave (h : Before k quantum k1) (op : Op) (ret : Int) :
    Ends k quantum
      (threadResched (k1.pushFrame t (.afterResched op ret))) :=
  .inr ⟨_, h.keep (h.inv.pushAfterResched op ret)
    (Steady.of_log rfl rfl rfl rfl), rfl⟩

theorem Ends.endsIn (h : Ends k quantum k') : EndsIn k quantum k' := by
  rcases h with hg | ⟨ke, hke, heq⟩
  · exact .inl hg.quiet
  · exact .inr ⟨ke, hke.toEntry, heq⟩

/-! ## The calls -/

/-- A READY caller goes back to its run queue unless it is idle. -/
theorem Before.yield (h : Before k quantum k1) (hb : booted k1 = true) (op : Op) :
    Holds (do
        let k2 ← (if threadIsIdle k1 t then pure k1
          else insertInRunQueueTail t k1)
        return threadResched (k2.pushFrame t (.afterResched op 0)))
      (Ends k quantum) (fun _ => True) := by
  refine Holds.bind (Q := Before k quantum) ?_ ?_
  · split_ifs with hidle
    · exact h
    · exact h.insert (ne_idle_of_not_flag hb hidle)
  · intro k2 hk2
    exact hk2.leave _ _

theorem threadPreempt_ends (h : Before k quantum k1) (hb : booted k1 = true) :
    Holds (threadPreempt k1) (Ends k quantum) (fun _ => True) := by
  have h1 : Before k quantum
      ((k1.emit (.preempted k1.current)).setState k1.current .ready) :=
    (h.keep (h.inv.emit (by simp)) (Steady.emit k1 (by simp))).setState .ready
      rfl
  have hb1 : booted ((k1.emit (.preempted k1.current)).setState k1.current
      .ready) = true := (booted_setThread _ rfl).trans hb
  have hdone := h1.yield (t := k1.current) hb1 .preempt
  dsimp only [threadPreempt]
  simp only [insertInRunQueueHead_eq_tail, ite_self]
  exact hdone

theorem threadYield_ends (h : Before k quantum k1) (hb : booted k1 = true) :
    Holds (threadYield k1) (Ends k 0) (fun _ => True) := by
  have h1 : Before k 0 (k1.setThread k1.current fun th =>
      { th with state := .ready, remainingQuantum := 0 }) :=
    h.spend (h.inv.setThread _ rfl rfl rfl)
      (Grows.setCurrent _ rfl rfl (Int.le_max_right _ _)) (by simp)
  exact h1.yield ((booted_setThread _ rfl).trans hb) .yield

theorem threadSetPriority_ends (h : QueueInv False k)
    (hc : k.current ≠ idleThread) (p : Int) :
    Holds (threadSetPriority p k)
      (Ends k (k.threads k.current).remainingQuantum) (fun _ => True) := by
  dsimp only [threadSetPriority]
  rw [insertInRunQueueHead_eq_tail]
  have hspec := insertInRunQueueTail_spec k.current
    (k.setThread k.current fun th => { th with priority := clampPriority p })
  cases hr : insertInRunQueueTail k.current
      (k.setThread k.current fun th => { th with priority := clampPriority p })
    with
  | error e => trivial
  | ok k1 =>
      obtain ⟨hl, hp, rfl⟩ := hspec.of_ok hr
      have hl' : k.queues.link k.current = none := hl
      have hinv := (clampPriority_queueInv h hl' p).enqueue hl hp hc
      -- the priority that is set is in range
      have hset : Steady k (k.setThread k.current fun th =>
          { th with priority := clampPriority p }) := by
        refine ⟨Keeps.setThread k k.current _ rfl,
          fun _ => ⟨[], (List.append_nil _).symm⟩, ?_⟩
        intro hrange u hu
        by_cases huc : u = k.current
        · subst huc
          simpa using priorityOk_clampPriority p
        · have hu' : Active k u := by simpa [Active, huc] using hu
          simpa [huc] using hrange u hu'
      have henq := Steady.enlist (k := k.setThread k.current fun th =>
        { th with priority := clampPriority p }) id rfl rfl hl hp
      rw [setThread_id] at henq
      exact ((Before.start h).keep hinv (hset.trans henq)).leave _ _

theorem threadSleep_ends (h : Before k quantum k1)
    (hc : k1.current ≠ idleThread) (delay : Time) :
    Holds (threadSleep delay k1) (Ends k quantum) (fun _ => True) := by
  dsimp only [threadSleep]
  refine Holds.bind
    (Q := fun k2 => Before k quantum k2 ∧ k2.current = k1.current) ?_ ?_
  · refine (h.inv.armTimer ?_).partly ?_
    · rintro t heq
      cases heq
      exact hc
    · rintro k2 ⟨hinv, tq, rfl⟩
      exact ⟨h.keep hinv (Steady.of_log rfl rfl rfl rfl), rfl⟩
  · rintro k2 ⟨hk2, hcur⟩
    exact (hk2.setState .sleeping hcur.symm).leave _ _

theorem threadUnblock_ends (h : Before k quantum k1) {thid : Tid}
    (ht : thid ≠ idleThread) (resched : Bool) :
    Holds (threadUnblock cfg thid resched k1) (Ends k quantum)
      (fun _ => True) := by
  dsimp only [threadUnblock]
  refine Holds.bind ((threadIdToPtr_holds (b := False) thid).partly
    fun _ heq => heq) ?_
  rintro t rfl
  refine Holds.bind (h.insertReady ht) ?_
  intro k2 hk2
  simp only [holds_pure]
  split_ifs
  · exact hk2.leave _ _
  · exact hk2.ends

/-! ## Wake-ups -/

theorem waitQueueWakeAll_ends (h : Before k quantum k1) (q : WaitQueueRef)
    (reschedule : Bool) (error : Int)
    (hc : reschedule = true → k1.current ≠ idleThread) :
    Holds (waitQueueWakeAll q reschedule error k1)
      (fun r => Ends k quantum r.2 ∧
        (reschedule = false → Before k quantum r.2)) (fun _ => True) := by
  dsimp only [waitQueueWakeAll]
  refine Holds.bind (Q := Before k quantum) ?_ ?_
  · split_ifs with hres
    · exact h.insertReady (hc hres.1)
    · exact h
  · intro k2 hk2
    refine Holds.bind (Before.wakeAllLoop q error _ 0 k2 hk2) ?_
    rintro ⟨ret, k3⟩ hk3
    simp only [holds_pure]
    split_ifs with hres
    · refine ⟨hk3.leave _ _, ?_⟩
      intro hf
      rw [hf] at hres
      exact Bool.noConfusion hres.2
    · exact ⟨hk3.ends, fun _ => hk3⟩

theorem waitQueueWakeOne_ends (h : Before k quantum k1) (q : WaitQueueRef)
    (reschedule : Bool) (error : Int) (hc : k1.current ≠ idleThread) :
    Holds (waitQueueWakeOne q reschedule error k1)
      (fun r => Ends k quantum r.2) (fun _ => True) := by
  rw [waitQueueWakeOne, listRemoveHead]
  cases hq : k1.queues.items (.wait q) with
  | nil => exact h.ends
  | cons t ts =>
      have hl := k1.queues.link_of_items_cons hq
      have ht := QueueInv.waiter_ne_idle h.inv hl
      have h1 := h.keep (h.inv.readyWaiter hl error)
        (readyWaiter_steady hl error)
      dsimp only
      refine Holds.bind (Q := Before k quantum) ?_ ?_
      · split_ifs
        · exact h1.insertReady hc
        · exact h1
      · intro k2 hk2
        refine Holds.bind (hk2.insert ht) ?_
        intro k3 hk3
        simp only [holds_pure]
        split_ifs
        · exact hk3.leave _ _
        · exact hk3.ends

/-! ## Exit, joining and blocking -/

theorem unlinkAndFree_steady (t : Tid) (entitled : Nat) (k : Kernel) :
    Holds (unlinkAndFree t entitled k) (Steady k) (fun _ => True) := by
  rw [unlinkAndFree]
  cases k.threadLists.link t with
  | none => trivial
  | some ref =>
      exact Steady.of_eq rfl rfl rfl ((Quiet.of_log rfl).emit (by simp))

theorem threadExit_ends (h : QueueInv False k) (hc : k.current ≠ idleThread)
    (retcode : Int) :
    Holds (threadExit retcode k)
      (Ends k (k.threads k.current).remainingQuantum) (fun _ => True) := by
  have h1 : Before k (k.threads k.current).remainingQuantum
      (died retcode k) := by
    refine (Before.start h).keep ?_ ?_
    · exact (h.setThread _ rfl rfl rfl).emit (by simp)
    · exact (Steady.setCurrent _ rfl rfl rfl).trans (Steady.emit _ (by simp))
  rw [threadExit_eq]
  refine Holds.bind
    (Q := Before k (k.threads k.current).remainingQuantum) ?_ ?_
  · split_ifs
    · refine ((unlinkAndFree_queueInv h1.inv hc _).and
        (unlinkAndFree_steady _ _ _)).partly ?_
      rintro k2 ⟨⟨hinv, -⟩, hs⟩
      exact h1.keep hinv hs
    · refine Holds.bind (waitQueueWakeAll_ends h1 _ false noErr (by simp)) ?_
      rintro ⟨ret, k2⟩ ⟨-, hk2⟩
      exact hk2 rfl
  · intro k2 hk2
    exact hk2.leave _ _

theorem threadJoinReap_grows (t : Tid) (wantRetcode : Bool) (lifetime : Nat)
    (k : Kernel) :
    Holds (threadJoinReap t wantRetcode lifetime k) (Grows k)
      (fun _ => True) := by
  rw [threadJoinReap]
  refine Holds.bind (unlinkAndFree_steady t lifetime k) ?_
  intro k1 hk1
  exact hk1.toGrows.trans (Grows.emit k1 (by simp))

theorem waitQueueBlockReturns_grows (ret : Int) (k : Kernel) :
    Holds (waitQueueBlockReturns ret k) (Grows k) (fun _ => True) := by
  have hpop : Grows k (k.popFrame k.current) := Grows.of_log rfl rfl rfl rfl
  rw [waitQueueBlockReturns]
  split
  · dsimp only
    split_ifs
    · exact hpop.trans (Grows.emit _ (by simp))
    · exact (threadJoinReap_grows _ _ _ _).imp fun k1 hk1 => hpop.trans hk1
  · exact Grows.refl k

theorem blockedOn_steady (q : WaitQueueRef)
    (hl : k.queues.link k.current = none) : Steady k (blockedOn k q) where
  current := rfl
  quantum := by
    intro u
    by_cases huc : u = k.current
    · subst huc
      simp [blockedOn]
    · simp [blockedOn, huc]
  runQueue := by
    intro p
    refine ⟨[], ?_⟩
    rw [List.append_nil, Kernel.runQueue, blockedOn,
      k.queues.items_addTail _ _ hl]
    exact Function.update_of_ne (by simp) _ _
  range := by
    intro hr u hu
    by_cases huc : u = k.current
    · subst huc
      have := hr k.current (.inr (.inr (.inr rfl)))
      simpa [blockedOn] using this
    · have hu' : Active k u := by
        simpa [Active, blockedOn, huc, NodeLists.link_addTail _ _ _ hl] using hu
      simpa [blockedOn, huc] using hr u hu'
  quiet := ⟨[.blocked k.nextCall k.current q], rfl, by simp⟩

theorem waitQueueBlock_ends (h : Before k quantum k1)
    (hc : k1.current ≠ idleThread) (q : WaitQueueRef) (timeout : Time) :
    Holds (waitQueueBlock q timeout k1) (Ends k quantum)
      (fun _ => True) := by
  dsimp only [waitQueueBlock]
  by_cases h0 : timeout = 0
  · rw [if_pos h0]
    refine (waitQueueBlockReturns_grows _ k1).imp ?_
    exact fun k2 hk2 => .inl (h.grows.trans hk2)
  · rw [if_neg h0]
    cases hl : k1.queues.link k1.current with
    | some ref =>
        simp only [listAddTail, hl, error_bind]
        trivial
    | none =>
        simp only [listAddTail, hl, ok_bind]
        have h1 : Before k quantum (blockedOn k1 q) :=
          h.keep (h.inv.blockedOn q hl hc) (blockedOn_steady q hl)
        refine Holds.bind (Q := Before k quantum) ?_ ?_
        · split_ifs
          · refine (h1.inv.armTimer ?_).partly ?_
            · exact fun _ => by simp
            · rintro k2 ⟨hinv, tq, rfl⟩
              exact h1.keep hinv (Steady.of_log rfl rfl rfl rfl)
          · exact h1
        · intro k2 hk2
          have hinv : QueueInv False (k2.pushFrame k1.current
              (.waitQueueBlock q timeout k1.nextCall)) :=
            hk2.inv.pushFrame (fun _ => by simp) (by rintro ⟨⟩)
              (fun _ => trivial)
          exact .inr ⟨_, hk2.keep hinv (Steady.of_log rfl rfl rfl rfl), rfl⟩

theorem waitQueueBlockRest_grows (timeout : Time) (call : Nat) (k : Kernel) :
    Holds (waitQueueBlockRest timeout call k) (Grows k) (fun _ => True) := by
  dsimp only [waitQueueBlockRest]
  refine (waitQueueBlockReturns_grows _ _).imp ?_
  intro k1 hk1
  refine Grows.trans (Grows.trans (Grows.of_log ?_ ?_ ?_ ?_)
    (Grows.emit _ (by simp))) hk1
  all_goals split_ifs <;> rfl

theorem threadJoin_ends (h : QueueInv False k) (hc : k.current ≠ idleThread)
    {thid : Tid} (ht : thid ≠ idleThread) (wantRetcode : Bool)
    (timeout : Time) :
    Holds (threadJoin cfg thid wantRetcode timeout k)
      (Ends k (k.threads k.current).remainingQuantum) (fun _ => True) := by
  dsimp only [threadJoin]
  refine Holds.bind ((threadIdToPtr_holds (b := False) thid).partly
    fun _ heq => heq) ?_
  rintro t rfl
  split_ifs
  · exact .inl (Grows.emit k (by simp))
  · have hinv : QueueInv False
        (k.pushFrame k.current (.threadJoin t wantRetcode (k.lifetime t))) :=
      h.pushFrame (fun _ => by simp) (by simpa [target] using ht)
        (fun _ => trivial)
    exact waitQueueBlock_ends ((Before.start h).keep hinv
      (Steady.of_log rfl rfl rfl rfl)) hc _ _
  · exact (threadJoinReap_grows _ _ _ _).imp fun _ hk => .inl hk

/-! ## Calls that keep the CPU -/

theorem threadDetach_grows (h : QueueInv False k) (thid : Tid) :
    Holds (threadDetach cfg thid k) (Grows k) (fun _ => True) := by
  dsimp only [threadDetach]
  refine Holds.bind ((threadIdToPtr_holds (b := False) thid).partly
    fun _ heq => heq) ?_
  rintro t rfl
  refine Holds.bind (waitQueueWakeAll_ends (Before.start h) _ false
    errThreadDetached (by simp)) ?_
  rintro ⟨ret, k1⟩ ⟨-, hk1⟩
  simp only [holds_pure]
  have hflag : ∀ dead, Grows k1 (k1.setThread t fun th =>
      { th with flags := { th.flags with detached := dead } }) := by
    intro dead
    refine Grows.setThread k1 t _ rfl (Int.le_max_left _ _) fun hact => ?_
    simpa [Active] using hact
  refine (hk1 rfl).grows.trans
    ((hflag (!decide ((k1.threads t).state = .death))).trans ?_)
  split_ifs <;> exact Grows.of_log rfl rfl rfl rfl

theorem threadResume_grows (thid : Tid) (intsDisabled : Bool) (k : Kernel) :
    Holds (threadResume cfg thid intsDisabled k) (Grows k)
      (fun _ => True) := by
  rw [threadResume]
  refine Holds.bind ((threadIdToPtr_holds (b := False) thid).partly
    fun _ heq => heq) ?_
  rintro t rfl
  by_cases hs : (k.threads t).state = .suspended
  · rw [if_pos hs]
    refine Holds.bind (insert_setThread_steady k t _ rfl rfl) ?_
    intro k1 hk1
    simp only [holds_pure]
    split_ifs
    · exact hk1.toGrows
    · exact hk1.toGrows.trans (Grows.of_log rfl rfl rfl rfl)
  · rw [if_neg hs]
    exact Grows.refl k

theorem threadCreate_grows (p : Int) (k : Kernel) :
    Grows k (threadCreate p k) := by
  rw [threadCreate]
  split_ifs <;> exact Grows.of_log rfl rfl rfl rfl

theorem getFreeThreadNode_grows (p : Int) (k : Kernel) :
    Grows k (getFreeThreadNode p k) := by
  rw [getFreeThreadNode]
  dsimp only
  split <;> exact Grows.of_log rfl rfl rfl rfl

/-- A slot that is cleared is no longer active. -/
theorem initThread_grows (ht : t ≠ idleThread) (p : Int) (k : Kernel) :
    Holds (initThread t p k) (Grows k) (fun _ => True) := by
  rw [initThread]
  dsimp only
  split_ifs with hclear
  · obtain ⟨-, hl, -, hc⟩ := hclear
    refine ⟨rfl, fun _ => ⟨[], (List.append_nil _).symm⟩, ?_, ?_,
      Quiet.of_log rfl⟩
    · intro hr u hu
      by_cases hut : u = t
      · subst hut
        have hl' : k.queues.link u = none := hl
        have hc' : u ≠ k.current := hc
        simp [Active, Thread.zero, hl', hc', ht] at hu
      · have hu' : Active k u := by simpa [Active, hut] using hu
        simpa [hut] using hr u hu'
    · intro u
      by_cases hut : u = t
      · subst hut
        simp [Thread.zero]
      · simp [hut]
  · trivial

theorem linkThread_grows (t : Tid) (k : Kernel) :
    Holds (linkThread t k) (Grows k) (fun _ => True) := by
  unfold linkThread
  dsimp only
  split
  · exact Grows.of_eq rfl rfl rfl ((Quiet.of_log rfl).emit (by simp))
  · trivial

theorem threadBecomeIdle_grows (k : Kernel) :
    Grows k (threadBecomeIdle k) where
  current := rfl
  runQueue := fun _ => ⟨[], (List.append_nil _).symm⟩
  range := by
    intro hr u hu
    have hidle : PriorityOk idlePriority := by decide
    by_cases huc : u = k.current
    · subst huc
      simpa [threadBecomeIdle] using hidle
    · have hu' : Active k u := by simpa [Active, threadBecomeIdle, huc] using hu
      simpa [threadBecomeIdle, huc] using hr u hu'
  slice := by
    intro u
    by_cases huc : u = k.current
    · subst huc
      simp [threadBecomeIdle]
    · simp [threadBecomeIdle, huc]
  quiet := Quiet.of_log rfl

/-! ## The timer interrupt -/

theorem timerTickLoop_before (h : Before k quantum k1) (now : Time) {n : Nat}
    (hn : k1.timerQueue.queue.length < n) :
    Holds (timerTickLoop timerHost now n .noReschedule k1)
      (fun r => Before k quantum r.2) (fun _ => True) := by
  refine (timerTickLoop_holds timerHost now
    (I := fun _ w => Before k quantum w)
    (E := fun _ => True) ?_ ?_ ?_ n _ k1 h hn).imp ?_
  · intro _ w r hI
    exact hI.inv.oneshot r
  · intro _ w hI
    exact hI.inv.armed
  · intro _ w timer rest callback hI hq _ hcb
    have hdrop : (w.timerQueue.dropHead).queue = rest := by
      show w.timerQueue.queue.tail = rest
      rw [show w.timerQueue.queue = timer :: rest from hq, List.tail_cons]
    have hidle : ∀ t, callback = .threadSleepHandler t → t ≠ idleThread := by
      rintro t rfl
      exact hI.inv.handlers timer t hcb
    have hcall := (invokeCallback_queueInv (dropHead_queueInv hI.inv)
      hidle).and (invokeCallback_steady (dropHead_queueInv hI.inv) callback)
    refine hcall.partly ?_
    rintro r ⟨⟨hinv, -, -, htq, -⟩, hs⟩
    have hpop : Steady w { w with timerQueue := w.timerQueue.dropHead } :=
      Steady.of_log rfl rfl rfl rfl
    refine ⟨hI.keep hinv (hpop.trans hs), ?_⟩
    show r.2.timerQueue.queue.length ≤ rest.length
    rw [htq]
    exact Nat.le_of_eq (congrArg List.length hdrop)
  · rintro r ⟨hI, -⟩
    exact hI

/-- The interrupt asks for `thread_preempt` only after it took a tick off the
    quantum. -/
theorem osTimerTickIsr_before (h : QueueInv False k) :
    Holds (osTimerTickIsr k)
      (fun r => Grows k r.2 ∧ (r.1 = .reschedule →
        Before k ((k.threads k.current).remainingQuantum - 1) r.2))
      (fun _ => True) := by
  have hclock : ∀ p, Before k (k.threads k.current).remainingQuantum
      { k with platform := p } := fun p =>
    (Before.start h).keep (h.congr rfl rfl rfl rfl rfl rfl rfl rfl rfl)
      (Steady.of_log rfl rfl rfl rfl)
  rw [osTimerTickIsr]
  split
  · exact ⟨(hclock _).grows, by simp⟩
  · rename_i time p _
    rw [timerTick]
    refine Holds.bind (timerTickLoop_before (hclock p) time
      (Nat.lt_succ_self _)) ?_
    rintro ⟨ret, k1⟩ hk1
    -- the handlers leave the quantum alone, then the tick takes one off
    have htick : Before k ((k.threads k.current).remainingQuantum - 1)
        (threadTimerTick k1).2 := by
      rw [threadTimerTick_snd]
      refine hk1.spend (hk1.inv.setThread _ rfl rfl rfl)
        (Grows.setCurrent _ rfl rfl ?_) ?_
      · have := Int.le_max_left (k1.threads k1.current).remainingQuantum 0
        dsimp only
        omega
      have hcur : k1.current = k.current := hk1.current
      have hq : (k1.threads k.current).remainingQuantum
          = (k.threads k.current).remainingQuantum := hk1.quantum
      simp only [hcur, Kernel.setThread_threads, Function.update_self, hq]
    exact ⟨htick.grows, fun _ => htick⟩

theorem x64ExceptionHandler_ends (h : QueueInv False k)
    (hb : booted k = true) :
    Holds (x64ExceptionHandler k)
      (Ends k ((k.threads k.current).remainingQuantum - 1))
      (fun _ => True) := by
  rw [x64ExceptionHandler]
  refine Holds.bind (((osTimerTickIsr_queueInv h).and
    (osTimerTickIsr_before h)).partly fun _ hr => hr) ?_
  rintro ⟨ret, k1⟩ ⟨⟨-, hb1⟩, hgrows, hbefore⟩
  dsimp only
  split_ifs with hret
  · exact threadPreempt_ends (hbefore hret) (hb1.trans hb)
  · exact .inl hgrows

/-! ## Every step -/

theorem continueFrame_ends (h : QueueInv False k) :
    Holds (continueFrame cfg k) (Ends k 0) (fun _ => True) := by
  have hpop : Grows k (k.popFrame k.current) := Grows.of_log rfl rfl rfl rfl
  rw [continueFrame]
  split
  · exact .inl (Grows.refl k)
  · exact .inl hpop
  · split_ifs
    · trivial
    · exact .inl hpop
  · exact (waitQueueBlockRest_grows _ _ k).imp fun _ hk => .inl hk
  · exact .inl hpop
  · exact .inl (getFreeThreadNode_grows _ k)
  · rename_i t p _ hf
    have ht : t ≠ idleThread := by
      rintro rfl
      exact h.targets _ _ (mem_of_frames_eq hf) rfl
    exact (initThread_grows ht p k).imp fun _ hk => .inl hk
  · exact (linkThread_grows _ k).imp fun _ hk => .inl hk
  · rename_i _ hf
    have hb : booted k = true :=
      QueueInv.booted_of_threadYield h (mem_of_frames_eq hf)
    exact threadYield_ends ((Before.start h).keep h.popFrame
      (Steady.of_log rfl rfl rfl rfl)) hb
  · rw [detachJoin_eq]
    trivial

/-- **Every step** lets the run queues grow, and may run `thread_resched` at
    its end, where it leaves its caller `quantumLeft`. -/
theorem exec_ends (h : QueueInv False k) {a : Action}
    (hen : Enabled cfg a k) :
    Holds (exec cfg a k) (Ends k (quantumLeft a k)) (fun _ => True) := by
  have hbin := QueueInv.booted_of_inThread h
  have hstart := Before.start h
  have hgrows : ∀ {k'}, Grows k k' → Ends k (quantumLeft a k) k' :=
    fun hk => .inl hk
  cases a with
  | goOn => exact continueFrame_ends h
  | interrupt => exact x64ExceptionHandler_ends h hen.1
  | threadCreate p => exact hgrows (threadCreate_grows p k)
  | threadResume thid intsDisabled =>
      exact (threadResume_grows _ _ k).imp fun _ hk => hgrows hk
  | threadYield => exact threadYield_ends hstart (hbin hen)
  | threadPreempt => exact threadPreempt_ends hstart (hbin hen)
  | threadSetPriority p => exact threadSetPriority_ends h hen.2 p
  | threadSleep delay => exact threadSleep_ends hstart hen.2 delay
  | threadBlock => exact (hstart.setState .blocked rfl).leave _ _
  | threadUnblock thid resched =>
      exact threadUnblock_ends hstart (Issued.ne_idle hen.1) resched
  | threadExit retcode => exact threadExit_ends h hen.2 retcode
  | threadJoin thid wantRetcode timeout =>
      exact threadJoin_ends h hen.2.2 (Issued.ne_idle hen.1) _ _
  | threadDetach thid =>
      exact (threadDetach_grows h thid).imp fun _ hk => hgrows hk
  | threadDetachAndResume thid intsDisabled =>
      obtain ⟨n, heq⟩ := threadDetachAndResume_eq cfg thid intsDisabled k
      show Holds (ChinixThread.threadDetachAndResume cfg thid intsDisabled k)
        _ _
      rw [heq]
      trivial
  | threadPreemptDisable => exact hgrows (Grows.of_log rfl rfl rfl rfl)
  | threadPreemptEnable =>
      refine hgrows ?_
      show Grows k (ChinixRunQueue.threadPreemptEnable k)
      rw [ChinixRunQueue.threadPreemptEnable]
      split_ifs <;> exact Grows.of_log rfl rfl rfl rfl
  | threadBecomeIdle => exact hgrows (threadBecomeIdle_grows k)
  | waitQueueBlock q timeout => exact waitQueueBlock_ends hstart hen.2 _ _
  | waitQueueWakeOne q reschedule error =>
      exact Holds.bind (waitQueueWakeOne_ends hstart _ reschedule error hen.2)
        (fun _ hr => hr)
  | waitQueueWakeAll q reschedule error =>
      exact Holds.bind (waitQueueWakeAll_ends hstart _ reschedule error
        fun _ => hen.2) (fun _ hr => hr.1)
  | waitQueueDestroy q reschedule =>
      exact Holds.bind (waitQueueWakeAll_ends hstart _ reschedule
        errObjectDestoryed fun _ => hen.2) (fun _ hr => hr.1)

/-! ## Every run keeps the priorities in range -/

/-- `thread_resched` makes a thread current that was linked, or the idle
    thread, and takes no other one off its list. -/
theorem threadResched_inRange (h : QueueInv False k) (hr : InRange k) :
    InRange (threadResched k) := by
  have hnew : Active k (getNewThread k).1 ∧
      ∀ u, (getNewThread k).2.queues.link u ≠ none →
        k.queues.link u ≠ none := by
    rcases getNewThread_cases h.bitmap with ⟨-, hg⟩ |
        ⟨q, t, ts, -, hcons, -, hg⟩
    · rw [hg]
      exact ⟨.inr (.inr (.inl rfl)), fun _ hu => hu⟩
    · rw [hg]
      refine ⟨.inr (.inl ?_), fun u hu => ?_⟩
      · rw [k.queues.link_of_items_cons hcons]
        simp
      · by_cases hut : u = t
        · simp [hut] at hu
        · simpa [hut] using hu
  intro u hu
  rw [threadResched_eq] at hu ⊢
  by_cases huc : u = (getNewThread k).1
  · subst huc
    simpa [scheduled] using hr _ hnew.1
  · have hu' : Active k u := by
      rcases hu with hs | hl | hi | hc
      · exact .inl (by simpa [huc] using hs)
      · exact .inr (.inl (hnew.2 u hl))
      · exact .inr (.inr (.inl hi))
      · exact absurd hc huc
    simpa [huc] using hr u hu'

theorem inRange_of_reachable (h : Reachable cfg AnyCall k) : InRange k := by
  have hinv : ∀ k, Reachable cfg AnyCall k → QueueInv False k := fun _ hk =>
    queueInv_of_reachable (fun _ _ _ hf => hf.elim) hk
  refine Runs.Reachable.invariant_under hinv ?_ ?_ h
  · intro t ht
    by_cases hidle : t = idleThread
    · subst hidle
      show PriorityOk highestPriority
      decide
    · simp [Active, bootKernel, Thread.zero, hidle] at ht
  · intro k1 a k2 hq hr _ hstep
    rcases (exec_ends hq hstep.1).of_ok hstep.2 with hg | ⟨ke, hke, rfl⟩
    · exact hg.range hr
    · exact threadResched_inRange hke.inv (hke.grows.range hr)

end ChinixRunQueueGrowth

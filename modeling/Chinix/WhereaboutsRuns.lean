import Chinix.Whereabouts
import Chinix.ThreadCalls

/-! # Every step settles the threads

    One lemma for each function of the kernel.  A function that gives up the
    CPU first settles all threads with nobody running, and then dispatches.
    The stack of the thread that makes the step must not be a watched one. -/

namespace ChinixWhereaboutsRuns

open ChinixTimerQueue ChinixPlatformTimer ChinixKernel ChinixRunQueue
open ChinixWaitQueue ChinixThread ChinixMachine Outcome ChinixQueueInvariant
open ChinixQueueRuns ChinixLifecycle ChinixMoves ChinixLifeInvariant
open ChinixSimulation ChinixThreadCalls ChinixWhereabouts

variable {w : Watch} {c : Option Tid} {k k' : Kernel} {t : Tid} {cfg : Config}

/-! ## Giving up the CPU -/

/-- Between two steps the current thread is RUNNING and on no queue. -/
theorem resting_of_between (h : Between w k) : Resting k :=
  ⟨((h.placed k.current).current rfl).1, ((h.placed k.current).current rfl).2⟩

/-- A thread that leaves from its own code does not sleep. -/
theorem not_sleeping_of_leaves (h : Settled w c k)
    (hfr : Leaves (k.frames t)) : (k.threads t).state ≠ .sleeping := by
  intro hs
  have hone : k.frames t = [.afterResched .sleep 0] := (h.placed t).asleep hs
  rcases hfr with hnil | ⟨f, hf, hint⟩
  · cases hnil.symm.trans hone
  · cases hf.symm.trans hone
    cases hint

/-- A frame of no blocking call goes on top of the stack. -/
theorem Settled.push (h : Settled w c k) (hw : w.stack t = none)
    (hfr : Leaves (k.frames t)) (op : Op) (ret : Int)
    (hx : op = .exit → (k.threads t).state = .death) :
    Settled w c (k.pushFrame t (.afterResched op ret)) := by
  refine h.setFrames _ hw (h.not_waiting hfr.blockedIn_eq_none) ?_ rfl ?_
    (not_sleeping_of_leaves h hfr) ?_
  · rcases hfr with hnil | ⟨f, hone, hf⟩
    · rw [hnil]
      exact .plain ⟨rfl, rfl⟩
    · rw [hone]
      exact .preempted op ret hf
  · intro s hs
    have hop : heldSlot (.afterResched op ret) = none := rfl
    simpa [holding, hop] using hs
  · intro r hr
    rcases List.mem_cons.mp hr with heq | hold
    · cases heq
      exact hx rfl
    · exact (h.placed t).exit r hold

/-- The end of every function that gives up the CPU. -/
theorem Settled.leave (h : Settled w none k) (hw : w.stack t = none)
    (hfr : Leaves (k.frames t)) (op : Op) (ret : Int)
    (hx : op = .exit → (k.threads t).state = .death) :
    Between w (threadResched (k.pushFrame t (.afterResched op ret))) :=
  (Settled.push h hw hfr op ret hx).dispatch

/-- A call that makes its thread READY and gives up the CPU. -/
theorem yield_between (h : Between w k) (hw : w.stack k.current = none)
    (hb : booted k = true) (hfr : Leaves (k.frames k.current))
    {f : Thread → Thread} (hf : (f (k.threads k.current)).state = .ready)
    (hi : (f (k.threads k.current)).flags.idle
      = (k.threads k.current).flags.idle) (op : Op) (hop : op ≠ .exit) :
    Holds (do
        let k1 ←
          (if threadIsIdle (k.setThread k.current f) k.current then
            pure (k.setThread k.current f)
          else insertInRunQueueTail k.current (k.setThread k.current f))
        return threadResched (k1.pushFrame k.current (.afterResched op 0)))
      (Between w) Survivable := by
  have hready := (h.relax hfr.blockedIn_eq_none).readyCurrent
    (resting_of_between h) hf
  split_ifs with hidle
  · exact Settled.leave hready hw hfr op 0 (fun he => absurd he hop)
  · have hne : k.current ≠ idleThread := by
      refine ne_idle_of_not_flag hb ?_
      simpa [threadIsIdle, hi] using hidle
    have hrun : Runnable ((k.setThread k.current f).threads k.current).state
        := by
      rw [Kernel.setThread_threads, Function.update_self]
      exact .inl hf
    refine Holds.bind (hready.insert hrun hne (by simp)) ?_
    rintro k1 ⟨hk1, rfl⟩
    exact Settled.leave hk1 hw hfr op 0 (fun he => absurd he hop)

theorem threadPreempt_between (h : Between w k) (hw : w.stack k.current = none)
    (hb : booted k = true) (hfr : Leaves (k.frames k.current)) :
    Holds (threadPreempt k) (Between w) Survivable := by
  have h1 : Between w (k.emit (.preempted k.current)) :=
    h.emit (fun _ => trivial)
  have hdone := yield_between h1 hw hb hfr
    (f := fun th => { th with state := .ready }) rfl rfl .preempt (by simp)
  dsimp only [threadPreempt]
  simp only [insertInRunQueueHead_eq_tail, ite_self]
  exact hdone

theorem threadYield_between (h : Between w k) (hw : w.stack k.current = none)
    (hb : booted k = true) (hfr : Leaves (k.frames k.current)) :
    Holds (threadYield k) (Between w) Survivable :=
  yield_between h hw hb hfr (f := fun th =>
    { th with state := .ready, remainingQuantum := 0 }) rfl rfl .yield (by simp)

theorem threadSetPriority_between (h : Between w k)
    (hw : w.stack k.current = none) (hc : k.current ≠ idleThread)
    (hfr : Leaves (k.frames k.current)) (p : Int) :
    Holds (threadSetPriority p k) (Between w) Survivable := by
  have h1 : Settled w none (k.setThread k.current fun th =>
      { th with priority := clampPriority p }) :=
    (h.relax hfr.blockedIn_eq_none).setThread rfl
  have hrun : Runnable ((k.setThread k.current fun th =>
      { th with priority := clampPriority p }).threads k.current).state := by
    refine .inr ?_
    simpa using (resting_of_between h).running
  dsimp only [threadSetPriority]
  rw [insertInRunQueueHead_eq_tail]
  refine Holds.bind (h1.insert hrun hc (by simp)) ?_
  rintro k1 ⟨hk1, rfl⟩
  exact Settled.leave hk1 hw hfr .setPriority 0 (by simp)

/-- A thread on no queue becomes BLOCKED and gives up the CPU. -/
theorem threadBlock_between (h : Between w k) (hw : w.stack k.current = none)
    (hc : k.current ≠ idleThread) (hfr : Leaves (k.frames k.current)) :
    Between w (threadBlock k) := by
  have hb := hfr.blockedIn_eq_none
  have hblocked : Settled w none (k.setState k.current .blocked) :=
    (h.relax hb).stop (resting_of_between h) hc hw hb (by simp)
  exact Settled.leave hblocked hw hfr .block 0 (by simp)

theorem threadTimerTick_settled (h : Settled w c k) :
    Settled w c (threadTimerTick k).2 := by
  rw [threadTimerTick_snd]
  exact h.setThread rfl

/-! ## Wait queues -/

/-- What a function leaves that gives up no CPU and touches no stack and no
    timer. -/
structure Handled (w : Watch) (c : Option Tid) (k k' : Kernel) : Prop where
  settled : Settled w c k'
  current : k'.current = k.current
  frames : k'.frames = k.frames
  timerQueue : k'.timerQueue = k.timerQueue
  death : ∀ u, (k.threads u).state = .death → (k'.threads u).state = .death

theorem Handled.refl (h : Settled w c k) : Handled w c k k :=
  ⟨h, rfl, rfl, rfl, fun _ => id⟩

theorem Handled.trans {k1 k2 k3 : Kernel} (h : Handled w c k1 k2)
    (h' : Handled w c k2 k3) : Handled w c k1 k3 :=
  ⟨h'.settled, h'.current.trans h.current, h'.frames.trans h.frames,
    h'.timerQueue.trans h.timerQueue, fun u hu => h'.death u (h.death u hu)⟩

/-- A waiter goes to its run queue. -/
theorem wake_handled (h : Settled w c k) {q' : WaitQueueRef}
    (hl : k.queues.link t = some (.wait q')) (q : WaitQueueRef)
    (error : Int) :
    Holds (insertInRunQueueTail t (readyWaiter q t error
        { k with queues := k.queues.delete t })) (Handled w c k) Survivable := by
  obtain ⟨hs, hc, hi⟩ := h.waiter hl
  refine ((h.readyWaiter hl q error).insert ?_ hi hc).imp ?_
  · simp [readyWaiter, Runnable]
  · rintro k' ⟨hk', rfl⟩
    refine ⟨hk', rfl, rfl, rfl, ?_⟩
    intro u hu
    have hne : u ≠ t := by
      rintro rfl
      cases hs.symm.trans hu
    simpa [readyWaiter, hne] using hu

theorem threadUnblockFromWaitQueue_handled (h : Settled w c k) (t : Tid)
    (error : Int) :
    Holds (threadUnblockFromWaitQueue t error k) (fun r => Handled w c k r.2)
      Survivable := by
  rw [threadUnblockFromWaitQueue]
  split_ifs with hs
  · exact Handled.refl h
  · have hb : (k.threads t).state = .blocked := not_not.mp hs
    rw [listDelete]
    cases hl : k.queues.link t with
    | none => rintro ⟨⟩
    | some ref =>
        rw [ok_bind]
        dsimp only
        split
        · rintro ⟨⟩
        · rename_i q _
          cases ref with
          | run p =>
              rcases (h.placed t).run p hl with hr | hr
              · cases hb.symm.trans hr
              · cases hb.symm.trans hr
          | wait q' =>
              exact Holds.bind (wake_handled h hl q error) (fun _ hk => hk)

/-- The caller of a rescheduling wake-up goes to its run queue. -/
theorem requeueCaller_settled (h : Settled w none k) (hr : Resting k)
    (hc : k.current ≠ idleThread) :
    Holds (requeueCaller k)
      (fun k' => Settled w none k' ∧
        k' = enqueue (k.setState k.current .ready) k.current) Survivable := by
  have hready : Settled w none (k.setState k.current .ready) :=
    h.readyCurrent hr rfl
  exact hready.insert (by simp [Runnable]) hc (by simp)

/-- The loop of `wait_queue_wake_all` counts somebody if somebody waits. -/
theorem wakeAllLoop_handled (q : WaitQueueRef) (error : Int) :
    ∀ (n : Nat) (ret : Int) (k : Kernel), Settled w c k →
      Holds (wakeAllLoop q error n ret k)
        (fun r => Handled w c k r.2 ∧ ret ≤ r.1 ∧
          (k.waitList q ≠ [] → ret < r.1)) Survivable := by
  intro n
  induction n with
  | zero =>
      intro ret k _
      rintro ⟨⟩
  | succ n ih =>
      intro ret k h
      rw [wakeAllLoop, listRemoveHead]
      cases hq : k.queues.items (.wait q) with
      | nil => exact ⟨Handled.refl h, Int.le_refl _, fun hne => absurd hq hne⟩
      | cons t ts =>
          have hl := k.queues.link_of_items_cons hq
          refine Holds.bind (wake_handled h hl q error) ?_
          intro k1 hk1
          refine (ih (ret + 1) k1 hk1.settled).imp ?_
          rintro r ⟨hr, hle, -⟩
          exact ⟨hk1.trans hr, by omega, fun _ => by omega⟩

/-- A wake-up that does not reschedule. -/
theorem waitQueueWakeAll_handled (h : Settled w c k) (q : WaitQueueRef)
    (error : Int) :
    Holds (waitQueueWakeAll q false error k) (fun r => Handled w c k r.2)
      Survivable := by
  dsimp only [waitQueueWakeAll]
  rw [if_neg (fun hr => Bool.false_ne_true hr.1), pure_bind]
  refine Holds.bind (wakeAllLoop_handled q error _ 0 k h) ?_
  rintro ⟨ret, k2⟩ ⟨hk2, -⟩
  dsimp only
  rw [if_neg (fun hr => Bool.false_ne_true hr.2)]
  exact hk2

/-- A wake-up that reschedules has somebody to wake, since the count of the
    queue is the number of its waiters. -/
theorem waitQueueWakeAll_between {b : Prop} (hq : QueueInv b k)
    (h : Between w k) (hw : w.stack k.current = none)
    (hc : k.current ≠ idleThread) (hfr : k.frames k.current = [])
    (q : WaitQueueRef) (reschedule : Bool) (error : Int) :
    Holds (waitQueueWakeAll q reschedule error k)
      (fun r => Between w r.2) Survivable := by
  have hnone : blockedIn (k.frames k.current) = none := by rw [hfr]; rfl
  -- what is left to do once the loop has woken the waiters
  have hleave : ∀ (ret : Int) (k2 : Kernel), Settled w none k2 →
      k2.frames = k.frames → Between w (threadResched
        (k2.pushFrame k.current (.afterResched .wakeAll ret))) := by
    intro ret k2 hk2 hfr2
    exact Settled.leave hk2 hw (.inl (by rw [hfr2, hfr])) _ _ (by simp)
  dsimp only [waitQueueWakeAll]
  by_cases hres : reschedule = true ∧ k.waitCount q > 0
  · rw [if_pos hres]
    refine Holds.bind
      (requeueCaller_settled (h.relax hnone) (resting_of_between h) hc) ?_
    rintro k1 ⟨hk1, rfl⟩
    refine Holds.bind (wakeAllLoop_handled q error _ 0 _ hk1) ?_
    rintro ⟨ret, k2⟩ ⟨hk2, -, hpos⟩
    have hlist := waitList_enqueue (k := k.setState k.current .ready)
      (resting_of_between h).unlinked q
    have hne : (enqueue (k.setState k.current .ready) k.current).waitList q
        ≠ [] := by
      intro hnil
      have hcount := hq.count q
      rw [show k.waitList q = [] from hlist.symm.trans hnil] at hcount
      exact absurd hcount (Int.ne_of_gt hres.2)
    dsimp only
    rw [if_pos ⟨hpos hne, hres.1⟩]
    exact hleave ret k2 hk2.settled hk2.frames
  · rw [if_neg hres, pure_bind]
    refine Holds.bind (wakeAllLoop_handled q error _ 0 k h) ?_
    rintro ⟨ret, k2⟩ ⟨hk2, -⟩
    rw [holds_pure]
    dsimp only
    split_ifs
    · refine hleave ret k2 (hk2.settled.relax ?_) hk2.frames
      rw [hk2.frames]
      exact hnone
    · show Settled w (some k2.current) k2
      rw [hk2.current]
      exact hk2.settled

theorem waitQueueWakeOne_between (h : Between w k)
    (hw : w.stack k.current = none) (hc : k.current ≠ idleThread)
    (hfr : k.frames k.current = []) (q : WaitQueueRef) (reschedule : Bool)
    (error : Int) :
    Holds (waitQueueWakeOne q reschedule error k)
      (fun r => Between w r.2) Survivable := by
  have hnone : blockedIn (k.frames k.current) = none := by rw [hfr]; rfl
  have hrest := resting_of_between h
  rw [waitQueueWakeOne, listRemoveHead]
  cases hitems : k.queues.items (.wait q) with
  | nil => exact h
  | cons t ts =>
      have hl := k.queues.link_of_items_cons hitems
      obtain ⟨-, hcur, hi⟩ := h.waiter hl
      have h1 := h.readyWaiter hl q error
      dsimp only
      cases reschedule with
      | false =>
          rw [if_neg Bool.false_ne_true, pure_bind]
          refine Holds.bind (wake_handled h hl q error) ?_
          intro k1 hk1
          rw [holds_pure, if_neg Bool.false_ne_true]
          show Settled w (some k1.current) k1
          rw [hk1.current]
          exact hk1.settled
      | true =>
          have hne : k.current ≠ t := fun heq => hcur (congrArg some heq)
          have hr1 : Resting (readyWaiter q t error
              { k with queues := k.queues.delete t }) := by
            constructor
            · simpa [readyWaiter, hne] using hrest.running
            · simpa [readyWaiter, hne] using hrest.unlinked
          rw [if_pos rfl]
          refine Holds.bind
            (requeueCaller_settled (h1.relax hnone) hr1 hc) ?_
          rintro k1 ⟨hk1, rfl⟩
          refine Holds.bind (hk1.insert ?_ hi (by simp)) ?_
          · simp [readyWaiter, Ne.symm hne, Runnable]
          · rintro k2 ⟨hk2, rfl⟩
            rw [holds_pure, if_pos rfl]
            exact Settled.leave hk2 hw (.inl hfr) .wakeOne 1 (by simp)

/-! ## Blocking and reaping -/

theorem unlinkAndFree_handled (h : Settled w c k) (t : Tid) (entitled : Nat) :
    Holds (unlinkAndFree t entitled k) (Handled w c k) Survivable := by
  rw [unlinkAndFree]
  cases hl : k.threadLists.link t with
  | none => rintro ⟨⟩
  | some ref =>
      have hL : ∀ u, u ≠ t →
          ((k.threadLists.delete t).addTail .free t).link u
            = k.threadLists.link u := by
        intro u hu
        rw [NodeLists.link_addTail _ _ _ (by simp), Function.update_of_ne hu,
          NodeLists.link_delete, Function.update_of_ne hu]
      have h1 := h.relist (n := k.lifetime t) (by rw [hl]; simp) hL id
      rw [Function.update_eq_self] at h1
      exact ⟨h1.emit (fun _ => trivial), rfl, rfl, rfl, fun _ => id⟩

theorem threadJoinReap_between (h : Between w k) (t : Tid)
    (wantRetcode : Bool) (lifetime : Nat) :
    Holds (threadJoinReap t wantRetcode lifetime k) (Between w) Survivable := by
  rw [threadJoinReap]
  refine Holds.bind (unlinkAndFree_handled h t lifetime) ?_
  intro k1 hk1
  have h1 : Between w k1 := by
    show Settled w (some k1.current) k1
    rw [hk1.current]
    exact hk1.settled
  exact h1.emit (fun _ => trivial)

/-- What is below `wait_queue_block` goes on; `k` is the state without it. -/
theorem waitQueueBlockReturns_between (h : Between w k)
    (hfr : k.frames k.current = []) {below : List Frame}
    (hbelow : below = [] ∨
      ∃ t wantRetcode l, below = [.threadJoin t wantRetcode l]) (ret : Int) :
    Holds (waitQueueBlockReturns ret
        { k with frames := Function.update k.frames k.current below })
      (Between w) Survivable := by
  have hself : Function.update k.frames k.current [] = k.frames := by
    rw [← hfr, Function.update_eq_self]
  rcases hbelow with rfl | ⟨t, wantRetcode, l, rfl⟩
  · rw [hself, waitQueueBlockReturns_nil ret hfr]
    exact h
  · have hpop : Kernel.popFrame { k with
        frames := Function.update k.frames k.current
          [.threadJoin t wantRetcode l] } k.current = k := by
      simp [Kernel.popFrame, hself]
    rw [waitQueueBlockReturns]
    dsimp only
    rw [Function.update_self]
    dsimp only
    rw [hpop]
    split_ifs
    · exact h.emit (fun _ => trivial)
    · exact threadJoinReap_between h t wantRetcode l

/-- `wait_queue_block`, with the call of `thread_join` that may be below. -/
theorem waitQueueBlock_between (h : Between w k)
    (hw : w.stack k.current = none) (hc : k.current ≠ idleThread)
    (hfr : k.frames k.current = []) {q : WaitQueueRef} {timeout : Time}
    {below : List Frame}
    (hok : FramesOk (.waitQueueBlock q timeout k.nextCall :: below)) :
    Holds (waitQueueBlock q timeout
        { k with frames := Function.update k.frames k.current below })
      (Between w) Survivable := by
  have hrest := resting_of_between h
  have hnone : blockedIn (k.frames k.current) = none := by rw [hfr]; rfl
  by_cases h0 : timeout = 0
  · rw [waitQueueBlock]
    dsimp only
    rw [if_pos h0]
    exact waitQueueBlockReturns_between h hfr (below_of_framesOk hok) _
  refine waitQueueBlock_holds q below hrest.unlinked h0
    (h.not_waiting hnone) ?_
  intro tq htq
  have hblock := (h.relax hnone).block hw hc hrest.unlinked
    (.inr hrest.running) hfr hok htq
  exact hblock.dispatch

/-- The timer queue that `wait_queue_block` returns with does not have the
    timer in its stack frame. -/
theorem wait_not_mem_of_returns (h : Settled w c k) {q : WaitQueueRef}
    {timeout : Time} {call : Nat} {below : List Frame}
    (hfr : k.frames t = .waitQueueBlock q timeout call :: below) :
    TimerRef.wait t ∉ (if timeout ≠ infinitTime then
      timerCancel (.wait t) k.timerQueue else k.timerQueue).queue := by
  by_cases hinf : timeout = infinitTime
  · rw [if_neg (not_not.mpr hinf)]
    intro hmem
    obtain ⟨q', delay, call', rest, heq, hne⟩ :=
      (h.placed t).timeout (by simpa [view] using hmem)
    have heq' : k.frames t = .waitQueueBlock q' delay call' :: rest := heq
    rw [hfr] at heq'
    cases heq'
    exact hne hinf
  · rw [if_pos hinf, mem_timerCancel]
    exact fun hmem => hmem.1 rfl

theorem waitQueueBlockRest_between (h : Between w k)
    (hw : w.stack k.current = none) {q : WaitQueueRef} {timeout : Time}
    {call : Nat} {below : List Frame}
    (hfr : k.frames k.current = .waitQueueBlock q timeout call :: below) :
    Holds (waitQueueBlockRest timeout call k) (Between w) Survivable := by
  have hok : FramesOk (.waitQueueBlock q timeout call :: below) :=
    hfr ▸ (h.placed k.current).stack
  have hnot := wait_not_mem_of_returns h hfr
  rw [waitQueueBlockRest_eq hfr]
  generalize htq : (if timeout ≠ infinitTime then
    timerCancel (.wait k.current) k.timerQueue else k.timerQueue) = tq
    at hnot ⊢
  have hcancel : Between w { k with timerQueue := tq } := by
    rw [← htq]
    split_ifs
    · exact h.cancel _
    · exact h
  have hbase : Between w ({ k with
      timerQueue := tq
      frames := Function.update k.frames k.current [] }.emit
        (.returned call k.current (k.threads k.current).waitQueueBlockRet)) := by
    refine Settled.emit (hcancel.setFrames _ hw hnot .nil rfl
      (by rintro _ ⟨⟩) ?_ (by simp)) (fun _ => trivial)
    show (k.threads k.current).state ≠ .sleeping
    rw [(resting_of_between h).running]
    simp
  have hreturn := waitQueueBlockReturns_between hbase
    (Function.update_self _ _ _) (below_of_framesOk hok)
    (k.threads k.current).waitQueueBlockRet
  simpa [Kernel.emit] using hreturn

/-! ## The timer interrupt -/

/-- The end of a sleep, after its timer was taken off the timer queue. -/
theorem threadSleepHandler_handled (h : Settled w c k)
    (hs : (k.threads t).state = .sleeping)
    (htm : TimerRef.sleep t ∉ k.timerQueue.queue) :
    Holds (threadSleepHandler t k) (fun r => Handled w c k r.2) Survivable := by
  have hp := h.placed t
  have hs' : (view k t).state = .sleeping := hs
  have hc : c ≠ some t := by
    intro hcur
    cases hs'.symm.trans (hp.current hcur).1
  have hi : t ≠ idleThread := by
    intro hidle
    rcases (hp.idle hidle).1 with hr | hr
    · cases hs'.symm.trans hr
    · cases hs'.symm.trans hr
  have hready : Settled w c (k.setState t .ready) := by
    refine h.ready rfl hc ?_ htm ?_ ?_
    · rw [hs]
      simp
    · intro q hq
      cases hs'.symm.trans (hp.wait q hq)
    · intro hsusp
      cases hs.symm.trans hsusp
  rw [threadSleepHandler]
  refine Holds.bind (hready.insert (by simp [Runnable]) hi hc) ?_
  rintro k1 ⟨hk1, rfl⟩
  refine ⟨hk1, rfl, rfl, rfl, ?_⟩
  intro u hu
  have hne : u ≠ t := by
    rintro rfl
    cases hs.symm.trans hu
  simpa [hne] using hu

/-- A callback, after its timer was taken off the timer queue. -/
theorem invokeCallback_handled (h : Settled w c k) {r : TimerRef}
    {rest : List TimerRef} (hq : k.timerQueue.queue = r :: rest) :
    Holds (invokeCallback (handler r)
        { k with timerQueue := k.timerQueue.dropHead })
      (fun x => Handled w c { k with timerQueue := k.timerQueue.dropHead } x.2)
      Survivable := by
  have hmem : r ∈ k.timerQueue.queue := by
    rw [hq]
    exact List.mem_cons_self
  cases r with
  | sleep t =>
      have hs : (k.threads t).state = .sleeping :=
        (h.placed t).sleep (by simpa [view] using hmem)
      refine threadSleepHandler_handled h.expire hs ?_
      show TimerRef.sleep t ∉ k.timerQueue.queue.tail
      have hnodup := k.timerQueue.nodup
      rw [hq] at hnodup ⊢
      exact (List.nodup_cons.mp hnodup).1
  | wait t =>
      show Holds (waitQueueTimeoutHandler t _) _ _
      rw [waitQueueTimeoutHandler]
      exact Holds.bind
        (threadUnblockFromWaitQueue_handled h.expire t errTimedOut)
        (fun _ hx => hx)

/-- The loop of `timer_tick` leaves the current thread and all stacks. -/
theorem timerTickLoop_settled {b : Prop} (hq : QueueInv b k)
    (h : Settled w c k) (now : Time) :
    Holds (timerTickLoop timerHost now (k.timerQueue.queue.length + 1)
        .noReschedule k)
      (fun r => Settled w c r.2 ∧ r.2.current = k.current ∧
        r.2.frames = k.frames) Survivable := by
  refine Holds.imp (timerTickLoop_holds timerHost now
    (I := fun _ x => Settled w c x ∧ x.current = k.current ∧
      x.frames = k.frames ∧ x.timerQueue.timers = k.timerQueue.timers)
    ?_ ?_ ?_ _ _ k ⟨h, rfl, rfl, rfl⟩ (Nat.lt_succ_self _)) ?_
  · rintro _ x r ⟨-, -, -, htm⟩
    show (x.timerQueue.timers r).periodicTime = 0
    rw [htm]
    exact hq.oneshot r
  · rintro _ x ⟨hx, -⟩ r hr
    show (x.timerQueue.timers r).callback ≠ none
    rw [hx.timers r hr]
    simp
  · rintro ret x r rest callback ⟨hx, hcur, hfr, htm⟩ hqx - hcb
    have hqx' : x.timerQueue.queue = r :: rest := hqx
    have hhandler : callback = handler r := by
      have hmem : r ∈ x.timerQueue.queue := by
        rw [hqx']
        exact List.mem_cons_self
      exact Option.some.inj (Eq.trans (Eq.symm hcb) (hx.timers r hmem))
    rw [hhandler]
    refine (invokeCallback_handled hx hqx').imp ?_
    intro y hy
    refine ⟨⟨hy.settled, hy.current.trans hcur, hy.frames.trans hfr, ?_⟩, ?_⟩
    · rw [hy.timerQueue]
      exact htm
    · show y.2.timerQueue.queue.length ≤ rest.length
      rw [hy.timerQueue]
      show x.timerQueue.queue.tail.length ≤ rest.length
      exact Nat.le_of_eq (by rw [hqx', List.tail_cons])
  · rintro r ⟨⟨hr, hcur, hfr, -⟩, -⟩
    exact ⟨hr, hcur, hfr⟩

theorem osTimerTickIsr_settled {b : Prop} (hq : QueueInv b k)
    (h : Settled w c k) :
    Holds (osTimerTickIsr k)
      (fun r => Settled w c r.2 ∧ r.2.current = k.current ∧
        r.2.frames = k.frames) Survivable := by
  have hclock : ∀ p, Settled w c { k with platform := p } := fun p =>
    h.congr (fun _ => rfl) rfl (fun _ => .inl)
  rw [osTimerTickIsr]
  split
  · exact ⟨hclock _, rfl, rfl⟩
  · rename_i time p _
    have hq1 : QueueInv b { k with platform := p } :=
      hq.congr rfl rfl rfl rfl rfl rfl rfl rfl rfl
    rw [timerTick]
    refine Holds.bind (timerTickLoop_settled hq1 (hclock p) time) ?_
    rintro ⟨ret, x⟩ ⟨hx, hcur, hfr⟩
    refine ⟨threadTimerTick_settled hx, ?_, ?_⟩
    · show (threadTimerTick x).2.current = k.current
      rw [threadTimerTick_snd]
      exact hcur
    · show (threadTimerTick x).2.frames = k.frames
      rw [threadTimerTick_snd]
      exact hfr

/-- Where interrupts are enabled the current thread can leave. -/
theorem leaves_of_interruptsEnabled (h : Settled w c k)
    (hi : interruptsEnabled k) : Leaves (k.frames k.current) := by
  have hmask := hi.2
  have hok : FramesOk (k.frames k.current) := (h.placed k.current).stack
  cases hfr : k.frames k.current with
  | nil => exact .inl rfl
  | cons f rest =>
      rw [hfr] at hmask hok
      exact leaves_of_interruptible hok hmask

theorem x64ExceptionHandler_between {b : Prop} (hq : QueueInv b k)
    (h : Between w k) (hw : w.stack k.current = none)
    (hi : interruptsEnabled k) :
    Holds (x64ExceptionHandler k) (Between w) Survivable := by
  have hleaves := leaves_of_interruptsEnabled h hi
  have hsettled := osTimerTickIsr_settled hq h
  have hqueue := osTimerTickIsr_queueInv hq
  rw [x64ExceptionHandler]
  cases hx : osTimerTickIsr k with
  | error e => exact hsettled.of_error hx
  | ok r =>
      obtain ⟨h1, hcur, hfr⟩ := hsettled.of_ok hx
      have hb : booted r.2 = true := (hqueue.of_ok hx).2.trans hi.1
      have hbetween : Between w r.2 := by
        show Settled w (some r.2.current) r.2
        rw [hcur]
        exact h1
      rw [ok_bind]
      dsimp only
      split_ifs
      · refine threadPreempt_between hbetween ?_ hb ?_
        · rw [hcur]
          exact hw
        · rw [hcur, hfr]
          exact hleaves
      · exact hbetween

/-! ## The thread API -/

/-- A frame goes on the stack of a thread that runs its own code. -/
theorem enter_between (h : Between w k) (hw : w.stack k.current = none)
    (hfr : k.frames k.current = []) {f : Frame} (hf : Plain f)
    (hheld : heldSlot f = none) (hx : ∀ r, f ≠ .afterResched .exit r) :
    Between w (k.pushFrame k.current f) := by
  have hrun := (resting_of_between h).running
  refine h.setFrames _ hw (h.not_waiting (by rw [hfr]; rfl)) ?_ ?_ ?_ ?_ ?_
  · rw [hfr]
    exact .plain hf
  · rw [hfr]
    exact hf.1
  · intro s hs
    rw [hfr, holding, List.findSome?_cons, hheld] at hs
    cases hs
  · rw [hrun]
    simp
  · intro r hr
    rw [hfr] at hr
    exact absurd (List.mem_singleton.mp hr).symm (hx r)

/-- The frame on top of no blocking call goes off the stack. -/
theorem popFrame_between (h : Between w k) (hw : w.stack k.current = none)
    (hb : blockedIn (k.frames k.current) = none)
    (hheld : holding (k.frames k.current).tail
      = holding (k.frames k.current) ∨ holding (k.frames k.current).tail = none) :
    Between w (k.popFrame k.current) := by
  have hrun := (resting_of_between h).running
  have hok : FramesOk (k.frames k.current) := (h.placed k.current).stack
  have htail : FramesOk (k.frames k.current).tail ∧
      blockedIn (k.frames k.current).tail = none := by
    cases hfr : k.frames k.current with
    | nil => exact ⟨.nil, rfl⟩
    | cons f rest =>
        rw [hfr] at hok hb
        exact hok.tail hb
  refine h.setFrames _ hw (h.not_waiting hb) htail.1 htail.2 ?_ ?_ ?_
  · intro s hs
    rcases hheld with heq | hnone
    · exact heq.symm.trans hs
    · cases hnone.symm.trans hs
  · rw [hrun]
    simp
  · intro r hr
    exact (h.placed k.current).exit r (List.mem_of_mem_tail hr)

theorem threadCreate_between (h : Between w k) (hw : w.stack k.current = none)
    (hfr : k.frames k.current = []) (p : Int) :
    Between w (threadCreate p k) := by
  rw [threadCreate]
  split_ifs
  · exact h
  · exact enter_between h hw hfr ⟨rfl, rfl⟩ rfl (fun _ => by simp)

/-- The slot that is taken next belongs to no thread that lives or is
    watched. -/
def HeadIdle (w : Watch) (k : Kernel) : Prop :=
  ∀ t ts, k.freeList = t :: ts → (k.threads t).state = .suspended ∨
    (k.threads t).state = .death ∧ ¬ w.dead t

theorem getFreeThreadNode_between (h : Between w k)
    (hw : w.stack k.current = none) {p : Int}
    (hfr : k.frames k.current = [.getFreeThreadNode p])
    (hhead : HeadIdle w k) : Between w (getFreeThreadNode p k) := by
  have hpop : Between w (k.popFrame k.current) :=
    popFrame_between h hw (by rw [hfr]; rfl) (.inr (by rw [hfr]; rfl))
  rw [getFreeThreadNode]
  cases hfree : k.freeList with
  | nil =>
      have hfree' : (k.popFrame k.current).freeList = [] := hfree
      dsimp only
      rw [hfree']
      exact hpop
  | cons t ts =>
      have hfree' : (k.popFrame k.current).freeList = t :: ts := hfree
      have hl : k.threadLists.link t = some .free :=
        k.threadLists.link_of_items_cons hfree
      have hm : k.threadLists.link t ≠ none := by
        rw [hl]
        simp
      have htake := h.relist (L := k.threadLists.delete t)
        (n := k.lifetime t + 1) hm
        (fun u hu => by rw [NodeLists.link_delete, Function.update_of_ne hu])
        (fun h0 => absurd h0 (Nat.succ_ne_zero _))
      have hhold := Settled.hold (t := k.current) (s := t) htake
        [.initThread t p] hw ?_ (.plain ⟨rfl, rfl⟩) rfl rfl
        ⟨?_, hhead t ts hfree⟩ (h.not_held (.inl hm)) ?_ (fun r hr =>
          by cases List.mem_singleton.mp hr)
      · dsimp only
        rw [hfree']
        show Settled w _ _
        simpa [Kernel.pushFrame, Kernel.popFrame, hfr] using hhold
      · exact h.not_waiting (by rw [hfr]; rfl)
      · show (k.threadLists.delete t).link t = none
        simp
      · show (k.threads k.current).state ≠ .sleeping
        rw [(resting_of_between h).running]
        simp

/-- A slot that is held is cleared. -/
theorem wipe_settled (h : Settled w c k) {u : Tid}
    (hu : holding (k.frames u) = some t) (hc : c ≠ some t)
    (hl : k.queues.link t = none) (p : Int) :
    Settled w c { k with
      threads := Function.update k.threads t
        { Thread.zero with priority := p }
      waitCount := Function.update k.waitCount (.exitOf t) 0
      frames := Function.update k.frames t [.initialThreadFunc] } := by
  have hp := h.placed t
  have hblank := (h.held u t hu).1
  have hstate : ∀ st, st ≠ .suspended → st ≠ .death →
      (view k t).state ≠ st := by
    intro st hsusp hd heq
    rcases hblank.state with hst | ⟨hst, -⟩
    · exact hsusp (heq.symm.trans hst)
    · exact hd (heq.symm.trans hst)
  have hb : blockedIn (k.frames t) = none := by
    by_contra hne
    rcases hp.call hne with hs | hs | hs
    · exact hstate .blocked (by simp) (by simp) hs
    · exact hstate .ready (by simp) (by simp) hs
    · exact hc hs
  have hi : t ≠ idleThread := by
    intro hidle
    rcases (hp.idle hidle).1 with hs | hs
    · exact hstate .ready (by simp) (by simp) hs
    · exact hstate .running (by simp) (by simp) hs
  have hsl := h.not_sleeping (hstate .sleeping (by simp) (by simp))
  have hwait := h.not_waiting hb
  have hv : ∀ u', view { k with
      threads := Function.update k.threads t
        { Thread.zero with priority := p }
      waitCount := Function.update k.waitCount (.exitOf t) 0
      frames := Function.update k.frames t [.initialThreadFunc] } u' =
      if u' = t then
        { view k t with
          state := .suspended
          link := none
          frames := [.initialThreadFunc]
          sleeping := false
          waiting := false
          ret := 0 }
      else view k u' := by
    intro u'
    by_cases hu' : u' = t
    · subst hu'
      simp [view, Thread.zero, hl, hsl, hwait]
    · simp [view, hu']
  refine h.replace t ?_ ?_ ?_ (.inr ?_) h.timers (fun _ => .inl)
  · intro u' hu'
    rw [hv, if_neg hu']
  · rw [hv, if_pos rfl]
    exact
      { current := fun hcur => absurd hcur hc
        run := fun _ => by simp
        wait := fun _ => by simp
        stack := .plain ⟨rfl, rfl⟩
        call := fun hne => absurd rfl hne
        sleep := by simp
        asleep := by simp
        timeout := by simp
        exit := fun r hr => by cases List.mem_singleton.mp hr
        unborn := fun _ _ => rfl
        idle := fun hidle => absurd hidle hi
        dead := by
          intro hd
          rcases hblank.state with hst | ⟨-, hno⟩
          · cases hst.symm.trans (hp.dead hd)
          · exact absurd hd hno
        kept := fun _ hfs => by cases (hp.unwatched hblank).symm.trans hfs }
  · intro s hs
    simp [holding, heldSlot] at hs
  · rw [hv, if_pos rfl]
    exact fun hb => ⟨hb.member, .inl rfl⟩

theorem initThread_between (h : Between w k) (hw : w.stack k.current = none)
    {p : Int} (hfr : k.frames k.current = [.initThread t p]) :
    Holds (initThread t p k) (Between w) Survivable := by
  have hhold : holding (k.frames k.current) = some t := by rw [hfr]; rfl
  rw [initThread]
  dsimp only
  split_ifs with hclear
  · obtain ⟨-, hl, -, hne⟩ := hclear
    have hl' : k.queues.link t = none := hl
    have hne' : t ≠ k.current := hne
    have hcur : some k.current ≠ some t := fun heq =>
      hne' (Option.some.inj heq).symm
    have hwiped := wipe_settled h hhold hcur hl' p
    have hframes : Function.update k.frames t [.initialThreadFunc] k.current
        = [.initThread t p] := by
      rw [Function.update_of_ne (Ne.symm hne'), hfr]
    have hlink := Settled.setFrames (t := k.current) hwiped [.linkThread t]
      hw ?_ (.plain ⟨rfl, rfl⟩) rfl ?_ ?_
      (fun r hr => by cases List.mem_singleton.mp hr)
    · show Settled w _ _
      simpa [Kernel.pushFrame, Kernel.popFrame, Kernel.setThread, hfr,
        Function.update_comm hne', Ne.symm hne'] using hlink
    · exact h.not_waiting (by rw [hfr]; rfl)
    · intro s hs
      show holding (Function.update k.frames t [.initialThreadFunc] k.current)
        = some s
      rw [hframes]
      exact hs
    · show (Function.update k.threads t _ k.current).state ≠ .sleeping
      rw [Function.update_of_ne (Ne.symm hne'),
        (resting_of_between h).running]
      simp
  · rintro ⟨⟩

theorem linkThread_between (h : Between w k) (hw : w.stack k.current = none)
    (hfr : k.frames k.current = [.linkThread t]) :
    Holds (linkThread t k) (Between w) Survivable := by
  have hhold : holding (k.frames k.current) = some t := by rw [hfr]; rfl
  have hpop : Between w (k.popFrame k.current) :=
    popFrame_between h hw (by rw [hfr]; rfl) (.inr (by rw [hfr]; rfl))
  unfold linkThread
  dsimp only
  split
  · rename_i hl
    have hl' : k.threadLists.link t = none := hl
    -- the one that held the slot was the current thread
    have hnone : ∀ u, holding ((k.popFrame k.current).frames u) ≠ some t := by
      intro u hu
      by_cases hcur : u = k.current
      · subst hcur
        rw [Kernel.popFrame_frames, Function.update_self, hfr] at hu
        cases hu
      · rw [Kernel.popFrame_frames, Function.update_of_ne hcur] at hu
        exact hcur ((h.held k.current t hhold).2 u hu)
    refine Settled.emit ?_ (fun _ => trivial)
    refine hpop.replace t ?_ ?_ (fun _ => id) (.inl hnone) hpop.timers
      (fun _ => .inl)
    · intro u hu
      have hlink : (k.threadLists.addTail .all t).link u
          = k.threadLists.link u := by
        rw [NodeLists.link_addTail _ _ _ hl', Function.update_of_ne hu]
      simp [view, hlink]
    · exact { hpop.placed t with }
  · rintro ⟨⟩

/-- A slot with an id that `thread_create` returned becomes READY. -/
theorem resumed_settled (h : Settled w c k) (hc : c ≠ some t)
    (hst : (k.threads t).state = .suspended ∨ (k.threads t).state = .blocked)
    (hlife : (k.threads t).state = .suspended →
      k.lifetime t ≠ 0 ∧ k.threadLists.link t ≠ none) (ht : t ≠ idleThread) :
    Holds (insertInRunQueueHead t (k.setState t .ready))
      (fun k' => Settled w c k' ∧ k' = enqueue (k.setState t .ready) t)
      Survivable := by
  rw [insertInRunQueueHead_eq_tail]
  refine insert_of_unlinked ?_
  intro hl
  have hl' : k.queues.link t = none := hl
  have hready : Settled w c (k.setState t .ready) := by
    refine h.ready rfl hc ?_ ?_ ?_ hlife
    · rcases hst with hst | hst <;> rw [hst] <;> simp
    · refine h.not_sleeping ?_
      rcases hst with hst | hst <;> rw [hst] <;> simp
    · rw [hl']
      exact fun _ => by simp
  exact ⟨hready.enqueue hl (by simp [Runnable]) ht hc, rfl⟩

/-- A thread that is not RUNNING is not the current one. -/
theorem current_ne_of_state (h : Between w k)
    (hs : (k.threads t).state ≠ .running) : some k.current ≠ some t := by
  intro heq
  refine hs ?_
  rw [← Option.some.inj heq]
  exact (resting_of_between h).running

theorem threadResume_between (h : Between w k) (hw : w.stack k.current = none)
    (hfr : k.frames k.current = []) {thid : Tid} (hid : Issued cfg k thid)
    (intsDisabled : Bool)
    (hm : (k.threads thid).state = .suspended →
      k.threadLists.link thid ≠ none) :
    Holds (threadResume cfg thid intsDisabled k) (Between w) Survivable := by
  rw [threadResume]
  rw [threadIdToPtr_eq hid.1, ok_bind]
  by_cases hs : (k.threads thid).state = .suspended
  · rw [if_pos hs]
    have hcur := current_ne_of_state h (by rw [hs]; simp)
    refine Holds.bind (resumed_settled h hcur (.inl hs)
      (fun hsusp => ⟨Nat.ne_of_gt hid.2, hm hsusp⟩) (Issued.ne_idle hid)) ?_
    rintro k1 ⟨hk1, rfl⟩
    have hbetween : Between w (enqueue (k.setState thid .ready) thid) := hk1
    rw [holds_pure]
    split_ifs
    · exact hbetween
    · exact enter_between hbetween hw hfr ⟨rfl, rfl⟩ rfl (fun _ => by simp)
  · rw [if_neg hs]
    exact h

theorem threadUnblock_between (h : Between w k) (hw : w.stack k.current = none)
    (hfr : k.frames k.current = []) {thid : Tid} (hid : Issued cfg k thid)
    (hs : (k.threads thid).state = .blocked) (resched : Bool) :
    Holds (threadUnblock cfg thid resched k) (Between w) Survivable := by
  have hcur := current_ne_of_state h (by rw [hs]; simp)
  dsimp only [threadUnblock]
  rw [threadIdToPtr_eq hid.1, ok_bind]
  refine Holds.bind (resumed_settled h hcur (.inr hs)
    (fun hsusp => by cases hs.symm.trans hsusp) (Issued.ne_idle hid)) ?_
  rintro k1 ⟨hk1, rfl⟩
  have hbetween : Between w (enqueue (k.setState thid .ready) thid) := hk1
  rw [holds_pure]
  split_ifs
  · exact Settled.leave (hbetween.relax (by
      show blockedIn (k.frames k.current) = none
      rw [hfr]
      rfl)) hw (.inl hfr) .unblock 0 (by simp)
  · exact hbetween

theorem threadSleep_between (h : Between w k) (hw : w.stack k.current = none)
    (hc : k.current ≠ idleThread) (hfr : k.frames k.current = [])
    (delay : Time) : Holds (threadSleep delay k) (Between w) Survivable := by
  have hrest := resting_of_between h
  obtain ⟨tq, heq, harmed⟩ := armTimer_eq delay
    (h.not_sleeping (t := k.current) (by rw [hrest.running]; simp))
  have hsleep := (h.relax (by rw [hfr]; rfl)).sleep hw hc hrest.unlinked
    (.inr hrest.running) hfr harmed
  have hunfold : threadSleep delay k = (do
      let k1 ← armTimer (.sleep k.current) delay (handler (.sleep k.current)) k
      return threadResched ((k1.setState k.current .sleeping).pushFrame
        k.current (.afterResched .sleep 0))) := rfl
  rw [hunfold, heq, ok_bind]
  exact hsleep.dispatch

/-! ## Exit -/

theorem died_settled (h : Settled w none k) (hr : Resting k)
    (hc : k.current ≠ idleThread) (hw : w.stack k.current = none)
    (hfr : k.frames k.current = []) (retcode : Int) :
    Settled w none (died retcode k) := by
  have hb : blockedIn (k.frames k.current) = none := by
    rw [hfr]
    rfl
  refine Settled.emit (h.stop hr hc hw hb ?_) (fun _ => trivial)
  simp

/-- A thread that has died wakes who waits for it, and dispatches. -/
theorem afterDeath_between (h : Settled w none k)
    (hd : (k.threads t).state = .death) (hw : w.stack t = none)
    (hfr : k.frames t = []) (entitled : Nat) :
    Holds (do
        let k1 ←
          (if (k.threads t).flags.detached then unlinkAndFree t entitled k
          else do
            let (_, k1) ← waitQueueWakeAll (.exitOf t) false noErr k
            return k1)
        return threadResched (k1.pushFrame t (.afterResched .exit 0)))
      (fun k' => Between w k' ∧ k'.frames t = [.afterResched .exit 0])
      Survivable := by
  refine Holds.bind (Q := Handled w none k) ?_ ?_
  · split_ifs
    · exact unlinkAndFree_handled h t entitled
    · exact Holds.bind (waitQueueWakeAll_handled h _ noErr) (fun _ hr => hr)
  · intro k1 hk1
    refine ⟨Settled.leave hk1.settled hw (.inl (by rw [hk1.frames, hfr]))
      .exit 0 (fun _ => hk1.death t hd), ?_⟩
    rw [threadResched_eq]
    show (k1.pushFrame t (.afterResched .exit 0)).frames t = _
    rw [Kernel.pushFrame_frames, Function.update_self, hk1.frames, hfr]

theorem threadExit_between (h : Between w k) (hw : w.stack k.current = none)
    (hc : k.current ≠ idleThread) (hfr : k.frames k.current = [])
    (retcode : Int) : Holds (threadExit retcode k) (Between w) Survivable := by
  have hdied := died_settled (h.relax (by rw [hfr]; rfl))
    (resting_of_between h) hc hw hfr retcode
  rw [threadExit_eq]
  exact (afterDeath_between hdied (state_died retcode k) hw hfr _).imp
    fun _ hk => hk.1

/-! ## Joining and detaching -/

theorem threadJoin_between (h : Between w k) (hw : w.stack k.current = none)
    (hc : k.current ≠ idleThread) (hfr : k.frames k.current = [])
    {thid : Tid} (hid : cfg.ValidId thid) (wantRetcode : Bool)
    (timeout : Time) :
    Holds (threadJoin cfg thid wantRetcode timeout k) (Between w)
      Survivable := by
  dsimp only [threadJoin]
  rw [threadIdToPtr_eq hid, ok_bind]
  split_ifs
  · exact Settled.emit h (fun _ => trivial)
  · have hpush : k.pushFrame k.current
        (.threadJoin thid wantRetcode (k.lifetime thid)) =
        { k with
          frames := Function.update k.frames k.current
            [.threadJoin thid wantRetcode (k.lifetime thid)] } := by
      simp [Kernel.pushFrame, hfr]
    rw [hpush]
    exact waitQueueBlock_between h hw hc hfr (.inJoin _ _ _ _ _)
  · exact threadJoinReap_between h _ _ _

theorem threadDetach_between (h : Between w k) (hw : w.stack k.current = none)
    (hfr : k.frames k.current = []) {thid : Tid} (hid : cfg.ValidId thid) :
    Holds (threadDetach cfg thid k) (Between w) Survivable := by
  dsimp only [threadDetach]
  rw [threadIdToPtr_eq hid, ok_bind]
  refine Holds.bind (waitQueueWakeAll_handled h _ errThreadDetached) ?_
  rintro ⟨ret, k1⟩ hk1
  have h1 : Between w k1 := by
    show Settled w (some k1.current) k1
    rw [hk1.current]
    exact hk1.settled
  have hflag : Between w (k1.setThread thid fun th =>
      { th with
        flags := { th.flags with
          detached := !decide ((k1.threads thid).state = .death) } }) :=
    Settled.setThread h1 rfl
  have hw1 : w.stack k1.current = none := by
    rw [hk1.current]
    exact hw
  have hfr1 : k1.frames k1.current = [] := by
    rw [hk1.current, hk1.frames]
    exact hfr
  rw [holds_pure]
  split_ifs
  · exact enter_between hflag hw1 hfr1 ⟨rfl, rfl⟩ rfl (fun _ => by simp)
  · exact hflag

theorem threadBecomeIdle_between (h : Between w k)
    (hw : w.stack k.current = none) (hfr : k.frames k.current = []) :
    Between w (threadBecomeIdle k) := by
  have h1 : Between w (k.setThread k.current fun th =>
      { th with
        priority := idlePriority
        flags := { th.flags with idle := true } }) := Settled.setThread h rfl
  exact enter_between h1 hw hfr ⟨rfl, rfl⟩ rfl (fun _ => by simp)

/-! ## Steps and runs -/

/-- What is watched is heeded: the current thread's stack is not a watched
    one, the slot that is taken belongs to no thread that lives or is watched,
    and a thread that is resumed has been created. -/
structure Heeds (w : Watch) (k : Kernel) (a : Action) : Prop where
  current : w.stack k.current = none
  take : a = .goOn → ∀ p, k.frames k.current = [.getFreeThreadNode p] →
    HeadIdle w k
  resume : ∀ thid i, a = .threadResume thid i →
    (k.threads thid).state = .suspended → k.threadLists.link thid ≠ none

/-- An interruptible frame is alone on the stack. -/
theorem singleton_of_interruptible (h : Settled w c k) {f : Frame}
    {rest : List Frame} (hfr : k.frames t = f :: rest)
    (hf : f.interruptible = true) : k.frames t = [f] := by
  have hok : FramesOk (f :: rest) := hfr ▸ (h.placed t).stack
  rcases leaves_of_interruptible hok hf with hnil | ⟨g, hg, -⟩
  · cases hnil
  · rw [hfr, hg, (List.cons.inj hg).1]

/-- No thread goes on in `thread_exit`. -/
theorem exit_not_current (h : Between w k) (r : Int) :
    Frame.afterResched .exit r ∉ k.frames k.current := by
  intro hmem
  have hd : (k.threads k.current).state = .death :=
    (h.placed k.current).exit r hmem
  cases (resting_of_between h).running.symm.trans hd

theorem continueFrame_between {b : Prop} (hq : QueueInv b k)
    (h : Between w k) (hw : w.stack k.current = none)
    (htake : ∀ p, k.frames k.current = [.getFreeThreadNode p] →
      HeadIdle w k) :
    Holds (continueFrame cfg k) (Between w) Survivable := by
  rw [continueFrame]
  cases hfr : k.frames k.current with
  | nil => exact h
  | cons f rest =>
      have hone := singleton_of_interruptible h hfr
      -- the frame on top goes off the stack and holds no slot
      have hpop : blockedIn (f :: rest) = none → heldSlot f = none →
          Between w (k.popFrame k.current) := by
        intro hb hheld
        refine popFrame_between h hw (by rw [hfr]; exact hb) (.inl ?_)
        rw [hfr, List.tail_cons]
        simp [holding, hheld]
      cases f with
      | initialThreadFunc => exact hpop rfl rfl
      | afterResched op ret =>
          dsimp only
          split_ifs with hop
          · subst hop
            exact absurd (mem_of_frames_eq hfr) (exit_not_current h ret)
          · exact hpop rfl rfl
      | waitQueueBlock q timeout call => exact waitQueueBlockRest_between h hw hfr
      | threadJoin t wantRetcode l => exact hpop rfl rfl
      | getFreeThreadNode p =>
          exact getFreeThreadNode_between h hw (hone rfl) (htake p (hone rfl))
      | initThread t p => exact initThread_between h hw (hone rfl)
      | linkThread t => exact linkThread_between h hw (hone rfl)
      | threadYield =>
          have hb : booted k = true :=
            QueueInv.booted_of_threadYield hq (mem_of_frames_eq hfr)
          have hleaves : Leaves ((k.popFrame k.current).frames k.current) := by
            refine .inl ?_
            rw [Kernel.popFrame_frames, Function.update_self, hone rfl]
            rfl
          exact threadYield_between (hpop rfl rfl) hw hb hleaves
      | detachJoin t =>
          dsimp only
          rw [detachJoin_eq]
          rintro ⟨⟩

/-- **Every step settles the threads**, and none falls through
    `thread_exit`. -/
theorem exec_between {b : Prop} (hq : QueueInv b k) (h : Between w k)
    {a : Action} (hen : Enabled cfg a k) (hok : Heeds w k a) :
    Holds (exec cfg a k) (Between w) Survivable := by
  have hw := hok.current
  have hbin := QueueInv.booted_of_inThread hq
  have hnil : inThread k ∨ inStartKernel k → k.frames k.current = [] := by
    rintro (hin | hin)
    · exact hin.1
    · exact hin.1
  cases a with
  | goOn => exact continueFrame_between hq h hw (hok.take rfl)
  | interrupt => exact x64ExceptionHandler_between hq h hw hen
  | threadCreate p => exact threadCreate_between h hw (hnil hen) p
  | threadResume thid intsDisabled =>
      exact threadResume_between h hw
        (hnil (hen.2.2.imp id And.left)) hen.1 _
        (hok.resume thid intsDisabled rfl)
  | threadYield => exact threadYield_between h hw (hbin hen) (.inl hen.1)
  | threadPreempt => exact threadPreempt_between h hw (hbin hen) (.inl hen.1)
  | threadSetPriority p =>
      exact threadSetPriority_between h hw hen.2 (.inl hen.1) p
  | threadSleep delay => exact threadSleep_between h hw hen.2 hen.1 delay
  | threadBlock => exact threadBlock_between h hw hen.2 (.inl hen.1)
  | threadUnblock thid resched =>
      exact threadUnblock_between h hw hen.2.2.1 hen.1 hen.2.1 resched
  | threadExit retcode => exact threadExit_between h hw hen.2 hen.1 retcode
  | threadJoin thid wantRetcode timeout =>
      exact threadJoin_between h hw hen.2.2 hen.2.1 hen.1.1 wantRetcode timeout
  | threadDetach thid =>
      exact threadDetach_between h hw (hnil hen.2) hen.1.1
  | threadDetachAndResume thid intsDisabled =>
      obtain ⟨n, heq⟩ := threadDetachAndResume_eq cfg thid intsDisabled k
      show Holds (ChinixThread.threadDetachAndResume cfg thid intsDisabled k)
        _ _
      rw [heq]
      rintro ⟨⟩
  | threadPreemptDisable =>
      exact Settled.congr h (fun _ => rfl) rfl (fun _ => .inl)
  | threadPreemptEnable =>
      show Between w (threadPreemptEnable k)
      rw [threadPreemptEnable]
      split_ifs
      · exact Settled.congr h (fun _ => rfl) rfl (fun _ => .inl)
      · exact h
  | threadBecomeIdle => exact threadBecomeIdle_between h hw hen.1
  | waitQueueBlock q timeout =>
      have hself : ({ k with
          frames := Function.update k.frames k.current [] } : Kernel) = k := by
        rw [← hen.1, Function.update_eq_self]
      have hstack : FramesOk
          (.waitQueueBlock (.user q) timeout k.nextCall :: []) :=
        .blocked q timeout _
      have hblock := waitQueueBlock_between h hw hen.2 hen.1 hstack
      rwa [hself] at hblock
  | waitQueueWakeOne q reschedule error =>
      exact Holds.bind
        (waitQueueWakeOne_between h hw hen.2 hen.1 _ reschedule error)
        (fun _ hr => hr)
  | waitQueueWakeAll q reschedule error =>
      exact Holds.bind
        (waitQueueWakeAll_between hq h hw hen.2 hen.1 _ reschedule error)
        (fun _ hr => hr)
  | waitQueueDestroy q reschedule =>
      exact Holds.bind
        (waitQueueWakeAll_between hq h hw hen.2 hen.1 _ reschedule _)
        (fun _ hr => hr)

theorem bootKernel_between (cfg : Config) :
    Between .nobody (bootKernel cfg) where
  placed := by
    intro t
    by_cases ht : t = idleThread
    · subst ht
      exact
        { current := fun _ => ⟨rfl, rfl⟩
          run := fun _ => by rintro ⟨⟩
          wait := fun _ => by rintro ⟨⟩
          stack := .nil
          call := fun hne => absurd rfl hne
          sleep := by rintro ⟨⟩
          asleep := by rintro ⟨⟩
          timeout := by rintro ⟨⟩
          exit := fun _ => by rintro ⟨⟩
          unborn := fun hne => absurd rfl hne
          idle := fun _ => ⟨.inr rfl, rfl⟩
          dead := by rintro ⟨⟩
          kept := fun _ => by rintro ⟨⟩ }
    · have hs : (view (bootKernel cfg) t).state = .suspended := by
        simp [view, bootKernel, ht, Thread.zero]
      exact
        { current := fun heq => absurd (Option.some.inj heq).symm ht
          run := fun _ => by rintro ⟨⟩
          wait := fun _ => by rintro ⟨⟩
          stack := .nil
          call := fun hne => absurd rfl hne
          sleep := by rintro ⟨⟩
          asleep := fun hsl => by cases hs.symm.trans hsl
          timeout := by rintro ⟨⟩
          exit := fun _ => by rintro ⟨⟩
          unborn := fun _ _ => hs
          idle := fun heq => absurd heq ht
          dead := by rintro ⟨⟩
          kept := fun _ => by rintro ⟨⟩ }
  held := fun _ _ => by rintro ⟨⟩
  timers := by rintro _ ⟨⟩
  quiet := fun _ => by rintro ⟨⟩

end ChinixWhereaboutsRuns

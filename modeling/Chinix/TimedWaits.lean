import Chinix.StackTimers

/-! # Waits that a timer ends

    A thread waits for a timer while it sleeps, and while it is blocked in a
    call of `wait_queue_block` with a timeout.  Two functions start such a
    wait and arm the timer first; one cancels the timer of its own call.  All
    other functions leave the timer queue alone and start no such wait: they
    are `Calm`. -/

namespace ChinixTimedWaits

open ChinixTimerQueue ChinixPlatformTimer ChinixKernel ChinixRunQueue
open ChinixWaitQueue ChinixThread ChinixMachine Outcome ChinixQueueInvariant
open ChinixQueueRuns ChinixLifecycle ChinixThreadCalls ChinixSimulation

variable {k k' k1 : Kernel} {t : Tid} {cfg : Config}

/-- The thread whose timer it is waits for the timer. -/
def Awaits (k : Kernel) : TimerRef → Prop
  | .sleep t => (k.threads t).state = .sleeping
  | .wait t => (k.threads t).state = .blocked ∧
      ∃ q timeout call, Frame.waitQueueBlock q timeout call ∈ k.frames t ∧
        timeout ≠ infinitTime

/-- The states in which a thread waits for nothing. -/
def Awake (st : ThreadState) : Prop := st ≠ .sleeping ∧ st ≠ .blocked

/-- No thread starts to wait for a timer, and no timer is touched. -/
structure Calm (k k' : Kernel) : Prop where
  timerQueue : k'.timerQueue = k.timerQueue
  awaits : ∀ r, Awaits k' r → Awaits k r

theorem Calm.refl (k : Kernel) : Calm k k := ⟨rfl, fun _ => id⟩

theorem Calm.trans (h : Calm k k1) (h' : Calm k1 k') : Calm k k' :=
  ⟨h'.timerQueue.trans h.timerQueue, fun r hr => h.awaits r (h'.awaits r hr)⟩

/-- Every thread stays in its state or is awake, and no frame of
    `wait_queue_block` is new. -/
theorem Calm.of_states (htq : k'.timerQueue = k.timerQueue)
    (hs : ∀ u, (k'.threads u).state = (k.threads u).state ∨
      Awake (k'.threads u).state)
    (hf : ∀ u, ∀ f ∈ k'.frames u, f ∈ k.frames u ∨ blockedIn [f] = none) :
    Calm k k' := by
  refine ⟨htq, ?_⟩
  intro r hr
  cases r with
  | sleep t =>
      have hsl : (k'.threads t).state = .sleeping := hr
      rcases hs t with heq | hawake
      · exact heq.symm.trans hsl
      · exact absurd hsl hawake.1
  | wait t =>
      obtain ⟨hb, q, timeout, call, hmem, hne⟩ := hr
      rcases hs t with heq | hawake
      · refine ⟨heq.symm.trans hb, q, timeout, call, ?_, hne⟩
        rcases hf t _ hmem with hold | hplain
        · exact hold
        · cases hplain
      · exact absurd hb hawake.2

/-- Neither states nor stacks nor timers change. -/
theorem Calm.of_eq (htq : k'.timerQueue = k.timerQueue)
    (ht : k'.threads = k.threads) (hf : k'.frames = k.frames) : Calm k k' :=
  Calm.of_states htq (fun u => .inl (by rw [ht]))
    (fun u f hmem => .inl (by rwa [hf] at hmem))

theorem Calm.setThread (k : Kernel) (t : Tid) {f : Thread → Thread}
    (hf : (f (k.threads t)).state = (k.threads t).state ∨
      Awake (f (k.threads t)).state) : Calm k (k.setThread t f) := by
  refine Calm.of_states rfl ?_ (fun _ _ => .inl)
  intro u
  by_cases hu : u = t
  · subst hu
    simpa using hf
  · exact .inl (by simp [hu])

/-- New frames of one stack are frames of no `wait_queue_block`. -/
theorem Calm.setFrames (k : Kernel) (t : Tid) (fs : List Frame)
    (hf : ∀ f ∈ fs, f ∈ k.frames t ∨ blockedIn [f] = none) :
    Calm k { k with frames := Function.update k.frames t fs } := by
  refine Calm.of_states rfl (fun _ => .inl rfl) ?_
  intro u f (hmem : f ∈ Function.update k.frames t fs u)
  by_cases hu : u = t
  · subst hu
    rw [Function.update_self] at hmem
    exact hf f hmem
  · rw [Function.update_of_ne hu] at hmem
    exact .inl hmem

theorem Calm.popFrame (k : Kernel) (t : Tid) : Calm k (k.popFrame t) :=
  Calm.setFrames k t _ fun _ hmem => .inl (List.mem_of_mem_tail hmem)

theorem Calm.pushFrame (k : Kernel) (t : Tid) {f : Frame}
    (hf : blockedIn [f] = none) : Calm k (k.pushFrame t f) := by
  refine Calm.setFrames k t _ ?_
  intro g hmem
  rcases List.mem_cons.mp hmem with rfl | hold
  · exact .inr hf
  · exact .inl hold

theorem Calm.emit (k : Kernel) (e : Event) : Calm k (k.emit e) :=
  Calm.of_eq rfl rfl rfl

/-- Who is chosen is RUNNING, the others stay in their states. -/
theorem Calm.dispatch (k : Kernel) : Calm k (threadResched k) := by
  rw [threadResched_eq]
  refine Calm.of_states rfl ?_ (fun _ _ => .inl)
  intro u
  by_cases hu : u = (getNewThread k).1
  · subst hu
    refine .inr ?_
    simp [scheduled, Awake]
  · exact .inl (by simp [hu])

/-- The end of every function that gives up the CPU. -/
theorem Calm.leave (h : Calm k k1) (t : Tid) (op : Op) (ret : Int) :
    Calm k (threadResched (k1.pushFrame t (.afterResched op ret))) :=
  (h.trans (Calm.pushFrame k1 t rfl)).trans (Calm.dispatch _)

/-- What is asked of a call: if it returns, it was calm. -/
abbrev Calms (k : Kernel) (x : Except Fault Kernel) : Prop :=
  Holds x (Calm k) fun _ => True

theorem insert_calm (h : Calm k k1) (t : Tid) :
    Calms k (insertInRunQueueTail t k1) := by
  refine (insertInRunQueueTail_spec t k1).partly ?_
  rintro k2 ⟨-, -, rfl⟩
  exact h.trans (Calm.of_eq rfl rfl rfl)

/-! ## Giving up the CPU -/

/-- A call whose thread goes on a run queue, awake, and gives up the CPU. -/
theorem requeue_calm (h : Calm k k1) (t u : Tid) (c : Prop) [Decidable c]
    (op : Op) (ret : Int) :
    Calms k (do
      let k2 ← (if c then pure k1 else insertInRunQueueTail t k1)
      return threadResched (k2.pushFrame u (.afterResched op ret))) := by
  split_ifs
  · exact h.leave u op ret
  · exact (insert_calm h t).bind fun k2 hk2 => hk2.leave u op ret

theorem threadPreempt_calm (k : Kernel) : Calms k (threadPreempt k) := by
  have hready : Calm k ((k.emit (.preempted k.current)).setState k.current
      .ready) :=
    (Calm.emit k _).trans (Calm.setThread _ _ (.inr ⟨by simp, by simp⟩))
  dsimp only [threadPreempt]
  simp only [insertInRunQueueHead_eq_tail, ite_self]
  exact requeue_calm hready _ _ _ .preempt 0

theorem threadYield_calm (k : Kernel) : Calms k (threadYield k) :=
  requeue_calm (Calm.setThread k k.current (.inr ⟨by simp, by simp⟩)) _ _ _
    .yield 0

theorem threadSetPriority_calm (p : Int) (k : Kernel) :
    Calms k (threadSetPriority p k) :=
  (insert_calm (Calm.setThread k k.current (.inl rfl)) _).bind fun _ h =>
    h.leave _ .setPriority 0

/-- A thread whose stack has no frame of `wait_queue_block` blocks: no timer
    will end that. -/
theorem Calm.block (h : Calm k k1) (t : Tid)
    (hfr : ∀ f ∈ k1.frames t, blockedIn [f] = none) {f : Thread → Thread}
    (hf : (f (k1.threads t)).state = .blocked) :
    Calm k (k1.setThread t f) := by
  refine h.trans ⟨rfl, ?_⟩
  intro r hr
  cases r with
  | sleep u =>
      by_cases hu : u = t
      · subst hu
        simp [Awaits, hf] at hr
      · simpa [Awaits, hu] using hr
  | wait u =>
      by_cases hu : u = t
      · subst hu
        obtain ⟨-, q, timeout, call, hmem, -⟩ := hr
        cases hfr _ hmem
      · simpa [Awaits, hu] using hr

theorem threadBlock_calm (hfr : k.frames k.current = []) :
    Calm k (threadBlock k) := by
  have hnone : ∀ f ∈ k.frames k.current, blockedIn [f] = none := by
    rw [hfr]
    rintro _ ⟨⟩
  exact ((Calm.refl k).block _ hnone rfl).leave _ .block 0

/-! ## Wait queues -/

theorem readyWaiter_calm (k : Kernel) (q : WaitQueueRef) (t : Tid)
    (error : Int) (queues : NodeLists QueueRef Tid) :
    Calm k (readyWaiter q t error { k with queues := queues }) := by
  have h1 : Calm k { k with
      queues := queues
      waitCount := Function.update k.waitCount q (k.waitCount q - 1) } :=
    Calm.of_eq rfl rfl rfl
  exact (h1.trans (Calm.setThread _ t (.inr ⟨by simp, by simp⟩))).trans
    (Calm.emit _ _)

theorem requeueCaller_calm (h : Calm k k1) : Calms k (requeueCaller k1) :=
  insert_calm (h.trans (Calm.setThread k1 _ (.inr ⟨by simp, by simp⟩))) _

theorem waitQueueWakeOne_calm (q : WaitQueueRef) (reschedule : Bool)
    (error : Int) (k : Kernel) :
    Holds (waitQueueWakeOne q reschedule error k) (fun r => Calm k r.2)
      fun _ => True := by
  rw [waitQueueWakeOne, listRemoveHead]
  cases k.queues.items (.wait q) with
  | nil => exact Calm.refl k
  | cons t ts =>
      have h1 := readyWaiter_calm k q t error (k.queues.delete t)
      dsimp only
      refine Holds.bind (Q := Calm k) ?_ ?_
      · split_ifs
        · exact requeueCaller_calm h1
        · exact h1
      · intro k1 hk1
        refine (insert_calm hk1 t).bind ?_
        intro k2 hk2
        rw [holds_pure]
        split_ifs
        · exact hk2.leave _ .wakeOne 1
        · exact hk2

theorem wakeAllLoop_calm (q : WaitQueueRef) (error : Int) :
    ∀ (n : Nat) (ret : Int) (k1 : Kernel), Calm k k1 →
      Holds (wakeAllLoop q error n ret k1) (fun r => Calm k r.2)
        fun _ => True := by
  intro n
  induction n with
  | zero => exact fun _ _ _ => trivial
  | succ n ih =>
      intro ret k1 h
      rw [wakeAllLoop, listRemoveHead]
      cases k1.queues.items (.wait q) with
      | nil => exact h
      | cons t ts =>
          have h1 := readyWaiter_calm k1 q t error (k1.queues.delete t)
          exact (insert_calm (h.trans h1) t).bind fun k2 hk2 =>
            ih (ret + 1) k2 hk2

theorem waitQueueWakeAll_calm (h : Calm k k1) (q : WaitQueueRef)
    (reschedule : Bool) (error : Int) :
    Holds (waitQueueWakeAll q reschedule error k1) (fun r => Calm k r.2)
      fun _ => True := by
  dsimp only [waitQueueWakeAll]
  refine Holds.bind (Q := Calm k) ?_ ?_
  · split_ifs
    · exact requeueCaller_calm h
    · exact h
  · intro k2 hk2
    refine Holds.bind (wakeAllLoop_calm q error _ 0 k2 hk2) ?_
    rintro ⟨ret, k3⟩ hk3
    rw [holds_pure]
    dsimp only
    split_ifs
    · exact hk3.leave _ .wakeAll ret
    · exact hk3

/-! ## Reaping -/

theorem unlinkAndFree_calm (h : Calm k k1) (t : Tid) (entitled : Nat) :
    Calms k (unlinkAndFree t entitled k1) := by
  rw [unlinkAndFree]
  cases k1.threadLists.link t with
  | none => trivial
  | some ref => exact h.trans (Calm.of_eq rfl rfl rfl)

theorem threadJoinReap_calm (h : Calm k k1) (t : Tid) (wantRetcode : Bool)
    (lifetime : Nat) : Calms k (threadJoinReap t wantRetcode lifetime k1) := by
  rw [threadJoinReap]
  refine (unlinkAndFree_calm h t lifetime).bind ?_
  intro k2 hk2
  exact hk2.trans (Calm.emit k2 _)

theorem waitQueueBlockReturns_calm (h : Calm k k1) (ret : Int) :
    Calms k (waitQueueBlockReturns ret k1) := by
  have hpop : Calm k (k1.popFrame k1.current) :=
    h.trans (Calm.popFrame k1 _)
  rw [waitQueueBlockReturns]
  split
  · dsimp only
    split_ifs
    · exact hpop.trans (Calm.emit _ _)
    · exact threadJoinReap_calm hpop _ _ _
  · exact h

/-! ## The thread API -/

theorem threadCreate_calm (p : Int) (k : Kernel) : Calm k (threadCreate p k) := by
  rw [threadCreate]
  split_ifs
  · exact Calm.refl k
  · exact Calm.pushFrame k _ rfl

theorem getFreeThreadNode_calm (p : Int) (k : Kernel) :
    Calm k (getFreeThreadNode p k) := by
  have hpop := Calm.popFrame k k.current
  rw [getFreeThreadNode]
  dsimp only
  split
  · exact hpop
  · refine Calm.trans ?_ (Calm.pushFrame _ _ rfl)
    exact hpop.trans (Calm.of_eq rfl rfl rfl)

/-- A slot that is cleared waits for nothing. -/
theorem initThread_calm (t : Tid) (p : Int) (k : Kernel) :
    Calms k (initThread t p k) := by
  have hpop := Calm.popFrame k k.current
  rw [initThread]
  dsimp only
  split_ifs
  · refine Calm.trans ?_ (Calm.pushFrame _ _ rfl)
    have hclear : Calm (k.popFrame k.current)
        ((k.popFrame k.current).setThread t fun _ =>
          { Thread.zero with priority := p }) :=
      Calm.setThread _ t (.inr ⟨by simp [Thread.zero], by simp [Thread.zero]⟩)
    refine (hpop.trans hclear).trans ?_
    refine (Calm.setFrames _ t [.initialThreadFunc] ?_).trans
      (Calm.of_eq rfl rfl rfl)
    intro f hmem
    rw [List.mem_singleton.mp hmem]
    exact .inr rfl
  · trivial

theorem linkThread_calm (t : Tid) (k : Kernel) :
    Calms k (linkThread t k) := by
  have hpop := Calm.popFrame k k.current
  rw [linkThread]
  split
  · exact hpop.trans (Calm.of_eq rfl rfl rfl)
  · trivial

/-- A check of an id touches nothing. -/
theorem Calms.ofId {thid : Int} {f : Tid → Except Fault Kernel}
    (hf : ∀ t, Calms k (f t)) : Calms k (threadIdToPtr cfg thid >>= f) := by
  rw [threadIdToPtr]
  split_ifs
  · exact hf _
  · trivial

theorem threadResume_calm (thid : Int) (intsDisabled : Bool) (k : Kernel) :
    Calms k (threadResume cfg thid intsDisabled k) := by
  rw [threadResume]
  refine Calms.ofId fun t => ?_
  by_cases hs : (k.threads t).state = .suspended
  · rw [if_pos hs]
    have hready : Calm k (k.setState t .ready) :=
      Calm.setThread k t (.inr ⟨by simp, by simp⟩)
    refine (insert_calm hready t).bind ?_
    intro k2 hk2
    rw [holds_pure]
    split_ifs
    · exact hk2
    · exact hk2.trans (Calm.pushFrame _ _ rfl)
  · rw [if_neg hs]
    exact Calm.refl k

theorem threadUnblock_calm (thid : Int) (resched : Bool) (k : Kernel) :
    Calms k (threadUnblock cfg thid resched k) := by
  dsimp only [threadUnblock]
  refine Calms.ofId fun t => ?_
  have hready : Calm k (k.setState t .ready) :=
    Calm.setThread k t (.inr ⟨by simp, by simp⟩)
  refine (insert_calm hready t).bind ?_
  intro k2 hk2
  rw [holds_pure]
  split_ifs
  · exact hk2.leave _ .unblock 0
  · exact hk2

theorem threadExit_calm (retcode : Int) (k : Kernel) :
    Calms k (threadExit retcode k) := by
  have hdied : Calm k (died retcode k) :=
    (Calm.setThread k _ (.inr ⟨by simp, by simp⟩)).trans (Calm.emit _ _)
  rw [threadExit_eq]
  refine Holds.bind (Q := Calm k) ?_ ?_
  · split_ifs
    · exact unlinkAndFree_calm hdied _ _
    · exact (waitQueueWakeAll_calm hdied _ _ _).bind fun _ hr => hr
  · intro k1 hk1
    exact hk1.leave _ .exit 0

theorem threadDetach_calm (thid : Int) (k : Kernel) :
    Calms k (threadDetach cfg thid k) := by
  dsimp only [threadDetach]
  refine Calms.ofId fun t => ?_
  refine (waitQueueWakeAll_calm (Calm.refl k) _ _ _).bind ?_
  rintro ⟨ret, k1⟩ hk1
  have hflag : Calm k (k1.setThread t fun th =>
      { th with
        flags := { th.flags with
          detached := !decide ((k1.threads t).state = .death) } }) :=
    hk1.trans (Calm.setThread k1 t (.inl rfl))
  rw [holds_pure]
  split_ifs
  · exact hflag.trans (Calm.pushFrame _ _ rfl)
  · exact hflag

theorem threadBecomeIdle_calm (k : Kernel) : Calm k (threadBecomeIdle k) :=
  (Calm.setThread k k.current (.inl rfl)).trans (Calm.pushFrame _ _ rfl)

end ChinixTimedWaits

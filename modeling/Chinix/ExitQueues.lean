import Chinix.QueueRuns

/-! # The exit queues

    A thread that is dead or detached wakes nobody any more, so nobody may
    wait for its exit.  `thread_join` tests and blocks in one locked region,
    `thread_exit` and `thread_detach` wake in the region in which they close
    the queue, and every other function is `Calm`: it lets nobody wait for an
    exit who did not, and closes no queue. -/

namespace ChinixExitQueues

open ChinixTimerQueue ChinixPlatformTimer ChinixKernel ChinixRunQueue
open ChinixWaitQueue ChinixThread ChinixMachine Outcome ChinixQueueInvariant
open ChinixQueueRuns

variable {k k' : Kernel} {t : Tid} {cfg : Config}

/-- The exit of the thread wakes nobody any more. -/
def Closed (k : Kernel) (t : Tid) : Prop :=
  (k.threads t).state = .death ∨ (k.threads t).flags.detached = true

/-- A thread is on the exit queue of another. -/
def AwaitsExit (k : Kernel) (u t : Tid) : Prop :=
  k.queues.link u = some (.wait (.exitOf t))

/-- Nobody waits for the exit of a closed thread. -/
def NoneStranded (k : Kernel) : Prop :=
  ∀ u t, AwaitsExit k u t → ¬ Closed k t

/-- Nobody comes to wait for an exit, and no exit queue is closed. -/
structure Calm (k k' : Kernel) : Prop where
  waiting : ∀ u t, AwaitsExit k' u t → AwaitsExit k u t
  closed : ∀ t, Closed k' t → Closed k t

/-- Any fault. -/
def AnyFault (_ : Fault) : Prop := True

theorem Calm.refl (k : Kernel) : Calm k k := ⟨fun _ _ => id, fun _ => id⟩

theorem Calm.trans {k1 k2 k3 : Kernel} (h : Calm k1 k2) (h' : Calm k2 k3) :
    Calm k1 k3 :=
  ⟨fun u t hw => h.waiting u t (h'.waiting u t hw),
    fun t hc => h.closed t (h'.closed t hc)⟩

theorem NoneStranded.calm (h : NoneStranded k) (hc : Calm k k') :
    NoneStranded k' :=
  fun u t hw hd => h u t (hc.waiting u t hw) (hc.closed t hd)

/-- Only the queues and the slots matter. -/
theorem Calm.congr {k1 : Kernel} (h : Calm k k1)
    (hq : k'.queues = k1.queues) (ht : k'.threads = k1.threads) :
    Calm k k' := by
  constructor
  · intro u t hw
    rw [AwaitsExit, hq] at hw
    exact h.waiting u t hw
  · intro t hd
    rw [Closed, ht] at hd
    exact h.closed t hd

theorem NoneStranded.congr (h : NoneStranded k) (hq : k'.queues = k.queues)
    (ht : k'.threads = k.threads) : NoneStranded k' :=
  h.calm ((Calm.refl k).congr hq ht)

/-- A slot changes that is not closed by it. -/
theorem calm_setThread {f : Thread → Thread}
    (hs : (f (k.threads t)).state = .death → (k.threads t).state = .death)
    (hd : (f (k.threads t)).flags.detached = true →
      (k.threads t).flags.detached = true) :
    Calm k (k.setThread t f) := by
  refine ⟨fun _ _ => id, ?_⟩
  intro u hu
  by_cases he : u = t
  · subst he
    rw [Closed, Kernel.setThread_threads, Function.update_self] at hu
    exact hu.imp hs hd
  · rw [Closed, Kernel.setThread_threads, Function.update_of_ne he] at hu
    exact hu

theorem calm_delete (t : Tid) :
    Calm k { k with queues := k.queues.delete t } := by
  refine ⟨?_, fun _ => id⟩
  intro u t' hw
  have hw' : (k.queues.delete t).link u = some (.wait (.exitOf t')) := hw
  rw [NodeLists.link_delete] at hw'
  by_cases hu : u = t
  · rw [hu, Function.update_self] at hw'
    cases hw'
  · rwa [Function.update_of_ne hu] at hw'

theorem calm_enqueue (hl : k.queues.link t = none) :
    Calm k (enqueue k t) := by
  refine ⟨?_, fun _ => id⟩
  intro u t' hw
  rw [AwaitsExit, enqueue_queues, NodeLists.link_addTail _ _ _ hl] at hw
  by_cases hu : u = t
  · rw [hu, Function.update_self] at hw
    cases hw
  · rwa [Function.update_of_ne hu] at hw

/-! ## Run queues -/

theorem insert_calm (t : Tid) (k : Kernel) :
    Holds (insertInRunQueueTail t k) (Calm k) AnyFault := by
  have hspec := insertInRunQueueTail_spec t k
  cases hr : insertInRunQueueTail t k with
  | error e => trivial
  | ok k' =>
      obtain ⟨hl, -, rfl⟩ := hspec.of_ok hr
      exact calm_enqueue hl

theorem calm_threadResched (k : Kernel) : Calm k (threadResched k) := by
  have hdel : Calm k (getNewThread k).2 := by
    rw [getNewThread]
    split
    · exact Calm.refl k
    · split
      · exact Calm.refl k
      · dsimp only
        split_ifs
        · exact (calm_delete _).congr rfl rfl
        · exact calm_delete _
  rw [getNewThread_frame] at hdel
  rw [threadResched_eq]
  have hset := hdel.trans (calm_setThread (t := (getNewThread k).1)
    (f := scheduled (getNewThread k).1 k.current) (by rintro ⟨⟩) id)
  exact hset.congr rfl rfl

/-- The end of every function that gives up the CPU. -/
theorem Calm.leave {k1 : Kernel} (h : Calm k k1) (f : Frame) :
    Calm k (threadResched (k1.pushFrame t f)) :=
  (h.congr rfl rfl : Calm k (k1.pushFrame t f)).trans (calm_threadResched _)

theorem calm_setState (t : Tid) (st : ThreadState) (h : st ≠ .death) :
    Calm k (k.setState t st) :=
  calm_setThread (fun hd => absurd hd h) id

theorem threadPreempt_calm (k : Kernel) :
    Holds (threadPreempt k) (Calm k) AnyFault := by
  have h1 : Calm k
      ((k.emit (.preempted k.current)).setState k.current .ready) :=
    (calm_setState k.current .ready (by simp)).congr rfl rfl
  dsimp only [threadPreempt]
  refine Holds.bind (Q := Calm k) ?_ (fun k2 hk2 => hk2.leave _)
  split_ifs
  · exact h1
  · exact (insert_calm _ _).imp fun _ => h1.trans
  · exact (insert_calm _ _).imp fun _ => h1.trans

theorem threadYield_calm (k : Kernel) :
    Holds (threadYield k) (Calm k) AnyFault := by
  have h1 := calm_setThread (k := k) (t := k.current) (f := fun th =>
    { th with state := .ready, remainingQuantum := 0 }) (by simp) id
  dsimp only [threadYield]
  refine Holds.bind (Q := Calm k) ?_ (fun k2 hk2 => hk2.leave _)
  split_ifs
  · exact h1
  · exact (insert_calm _ _).imp fun _ => h1.trans

theorem threadSetPriority_calm (p : Int) (k : Kernel) :
    Holds (threadSetPriority p k) (Calm k) AnyFault := by
  have h1 := calm_setThread (k := k) (t := k.current) (f := fun th =>
    { th with priority := clampPriority p }) id id
  dsimp only [threadSetPriority]
  exact Holds.bind ((insert_calm _ _).imp fun _ => h1.trans)
    (fun k2 hk2 => hk2.leave _)

theorem calm_threadTimerTick (k : Kernel) : Calm k (threadTimerTick k).2 := by
  rw [threadTimerTick_snd]
  exact calm_setThread id id

/-! ## Wait queues -/

theorem calm_readyWaiter (q : WaitQueueRef) (error : Int) :
    Calm k (readyWaiter q t error { k with queues := k.queues.delete t }) := by
  have hset := (calm_delete (k := k) t).trans (calm_setThread (t := t)
    (f := fun th =>
      { th with
        state := .ready, waitQueueBlockRet := error
        blockingWaitQueue := none }) (by simp) id)
  exact hset.congr rfl rfl

theorem threadUnblockFromWaitQueue_calm (t : Tid) (error : Int) (k : Kernel) :
    Holds (threadUnblockFromWaitQueue t error k) (fun r => Calm k r.2)
      AnyFault := by
  rw [threadUnblockFromWaitQueue]
  split_ifs
  · exact Calm.refl k
  · rw [listDelete]
    cases k.queues.link t with
    | none => trivial
    | some ref =>
        rw [ok_bind]
        dsimp only
        split
        · trivial
        · rename_i q _
          exact Holds.bind ((insert_calm _ _).imp fun _ =>
            (calm_readyWaiter q error).trans) (fun _ hk => hk)

theorem requeueCaller_calm (k : Kernel) :
    Holds (requeueCaller k) (Calm k) AnyFault :=
  (insert_calm _ _).imp fun _ => (calm_setState k.current .ready (by simp)).trans

theorem waitQueueWakeOne_calm (q : WaitQueueRef) (reschedule : Bool)
    (error : Int) (k : Kernel) :
    Holds (waitQueueWakeOne q reschedule error k) (fun r => Calm k r.2)
      AnyFault := by
  rw [waitQueueWakeOne, listRemoveHead]
  cases k.queues.items (.wait q) with
  | nil => exact Calm.refl k
  | cons t ts =>
      have h1 := calm_readyWaiter (k := k) (t := t) q error
      dsimp only
      refine Holds.bind (Q := Calm k) ?_ ?_
      · split_ifs
        · exact (requeueCaller_calm _).imp fun _ => h1.trans
        · exact h1
      · intro k1 hk1
        refine Holds.bind ((insert_calm _ _).imp fun _ => hk1.trans) ?_
        intro k2 hk2
        rw [holds_pure]
        split_ifs
        · exact hk2.leave _
        · exact hk2

/-- The loop of `wait_queue_wake_all` ends with nobody on the queue. -/
theorem wakeAllLoop_calm (q : WaitQueueRef) (error : Int) :
    ∀ (n : Nat) (ret : Int) (k : Kernel),
      Holds (wakeAllLoop q error n ret k)
        (fun r => Calm k r.2 ∧ r.2.waitList q = []) AnyFault := by
  intro n
  induction n with
  | zero =>
      intro ret k
      trivial
  | succ n ih =>
      intro ret k
      rw [wakeAllLoop, listRemoveHead]
      cases hq : k.queues.items (.wait q) with
      | nil => exact ⟨Calm.refl k, hq⟩
      | cons t ts =>
          have h1 := calm_readyWaiter (k := k) (t := t) q error
          refine Holds.bind ((insert_calm _ _).imp fun _ => h1.trans) ?_
          intro k1 hk1
          refine (ih (ret + 1) k1).imp ?_
          rintro r ⟨hr, hnil⟩
          exact ⟨hk1.trans hr, hnil⟩

theorem waitQueueWakeAll_calm (q : WaitQueueRef) (reschedule : Bool)
    (error : Int) (k : Kernel) :
    Holds (waitQueueWakeAll q reschedule error k)
      (fun r => Calm k r.2 ∧ (reschedule = false → r.2.waitList q = []))
      AnyFault := by
  dsimp only [waitQueueWakeAll]
  refine Holds.bind (Q := Calm k) ?_ ?_
  · split_ifs
    · exact requeueCaller_calm k
    · exact Calm.refl k
  · intro k1 hk1
    refine Holds.bind (wakeAllLoop_calm q error _ 0 k1) ?_
    rintro ⟨ret, k2⟩ ⟨hk2, hnil⟩
    have hk : Calm k k2 := hk1.trans hk2
    rw [holds_pure]
    split_ifs with hres
    · refine ⟨hk.leave _, fun hno => ?_⟩
      rw [hno] at hres
      exact Bool.noConfusion hres.2
    · exact ⟨hk, fun _ => hnil⟩

/-! ## Reaping -/

theorem unlinkAndFree_calm (t : Tid) (entitled : Nat) (k : Kernel) :
    Holds (unlinkAndFree t entitled k) (Calm k) AnyFault := by
  rw [unlinkAndFree]
  split
  · trivial
  · exact (Calm.refl k).congr rfl rfl

theorem threadJoinReap_calm (t : Tid) (wantRetcode : Bool) (lifetime : Nat)
    (k : Kernel) :
    Holds (threadJoinReap t wantRetcode lifetime k) (Calm k) AnyFault :=
  Holds.bind (unlinkAndFree_calm t lifetime k) fun _ hk => hk.congr rfl rfl

theorem waitQueueBlockReturns_calm (ret : Int) (k : Kernel) :
    Holds (waitQueueBlockReturns ret k) (Calm k) AnyFault := by
  rw [waitQueueBlockReturns]
  split
  · rename_i t w l rest _
    have hpop : Calm k (k.popFrame k.current) := (Calm.refl k).congr rfl rfl
    dsimp only
    split_ifs
    · exact hpop.congr rfl rfl
    · exact (threadJoinReap_calm t w l _).imp fun _ => hpop.trans
  · exact Calm.refl k

theorem waitQueueBlockRest_calm (timeout : Time) (call : Nat) (k : Kernel) :
    Holds (waitQueueBlockRest timeout call k) (Calm k) AnyFault := by
  dsimp only [waitQueueBlockRest]
  refine (waitQueueBlockReturns_calm _ _).imp fun _ => Calm.trans ?_
  split_ifs
  · exact (Calm.refl k).congr rfl rfl
  · exact (Calm.refl k).congr rfl rfl

/-! ## The timer interrupt -/

/-- What the loop of `timer_tick` keeps. -/
theorem timerTickLoop_calm (now : Time) {k0 : Kernel} :
    ∀ (n : Nat) (ret : HandlerReturn) (k : Kernel), Calm k0 k →
      Holds (timerTickLoop timerHost now n ret k) (fun r => Calm k0 r.2)
        AnyFault := by
  intro n
  induction n with
  | zero =>
      intro ret k _
      trivial
  | succ n ih =>
      intro ret k h
      rw [timerTickLoop]
      split
      · exact h
      · rename_i timer rest _
        dsimp only
        split_ifs
        · exact h
        · have hdrop : Calm k0 (timerHost.set
              (timerHost.get k).dropHead k) := h.congr rfl rfl
          split
          · trivial
          · rename_i callback _
            refine Holds.bind (Q := fun r => Calm k0 r.2) ?_ ?_
            · cases callback with
              | threadSleepHandler t =>
                  exact Holds.bind (insert_calm t _) fun _ hk =>
                    (hdrop.trans (calm_setState t .ready (by simp))).trans hk
              | waitQueueTimeoutHandler t =>
                  exact Holds.bind (threadUnblockFromWaitQueue_calm t _ _)
                    fun _ hk => hdrop.trans hk
            · rintro ⟨r, k1⟩ hk1
              refine Holds.bind (Q := Calm k0) ?_ fun k2 hk2 => ih _ k2 hk2
              rw [requeuePeriodic]
              dsimp only
              split_ifs
              · split
                · exact hk1.congr rfl rfl
                · trivial
              · exact hk1

theorem x64ExceptionHandler_calm (k : Kernel) :
    Holds (x64ExceptionHandler k) (Calm k) AnyFault := by
  rw [x64ExceptionHandler]
  refine Holds.bind (Q := fun r => Calm k r.2) ?_ ?_
  · rw [osTimerTickIsr]
    split
    · exact (Calm.refl k).congr rfl rfl
    · rw [timerTick]
      refine Holds.bind (timerTickLoop_calm _ _ _ _
        ((Calm.refl k).congr rfl rfl)) ?_
      intro r hr
      exact hr.trans (calm_threadTimerTick r.2)
  · intro r hr
    dsimp only
    split_ifs
    · exact (threadPreempt_calm r.2).imp fun _ => hr.trans
    · exact hr

/-! ## The thread API -/

theorem calm_getFreeThreadNode (p : Int) (k : Kernel) :
    Calm k (getFreeThreadNode p k) := by
  rw [getFreeThreadNode]
  dsimp only
  split
  · exact (Calm.refl k).congr rfl rfl
  · exact (Calm.refl k).congr rfl rfl

theorem initThread_calm (t : Tid) (p : Int) (k : Kernel) :
    Holds (initThread t p k) (Calm k) AnyFault := by
  rw [initThread]
  dsimp only
  split_ifs
  · have hset := calm_setThread (k := k) (t := t)
      (f := fun _ => { Thread.zero with priority := p }) (by rintro ⟨⟩) (by rintro ⟨⟩)
    exact hset.congr rfl rfl
  · trivial

theorem linkThread_calm (t : Tid) (k : Kernel) :
    Holds (linkThread t k) (Calm k) AnyFault := by
  unfold linkThread
  dsimp only
  split
  · exact (Calm.refl k).congr rfl rfl
  · trivial

theorem threadResume_calm (thid : Int) (intsDisabled : Bool) (k : Kernel) :
    Holds (threadResume cfg thid intsDisabled k) (Calm k) AnyFault := by
  rw [threadResume]
  refine Holds.bind (Q := fun _ => True) ?_ ?_
  · rw [threadIdToPtr]
    split_ifs <;> trivial
  · intro t _
    split_ifs
    · refine Holds.bind ((insert_calm t _).imp fun _ =>
        (calm_setState t .ready (by simp)).trans) ?_
      intro k1 hk1
      exact hk1
    · refine Holds.bind ((insert_calm t _).imp fun _ =>
        (calm_setState t .ready (by simp)).trans) ?_
      intro k1 hk1
      exact hk1.congr rfl rfl
    · exact Calm.refl k

theorem threadUnblock_calm (thid : Int) (resched : Bool) (k : Kernel) :
    Holds (threadUnblock cfg thid resched k) (Calm k) AnyFault := by
  dsimp only [threadUnblock]
  refine Holds.bind (Q := fun _ => True) ?_ ?_
  · rw [threadIdToPtr]
    split_ifs <;> trivial
  · intro t _
    refine Holds.bind ((insert_calm t _).imp fun _ =>
      (calm_setState t .ready (by simp)).trans) ?_
    intro k1 hk1
    rw [holds_pure]
    split_ifs
    · exact hk1.leave _
    · exact hk1

theorem armTimer_calm (timer : TimerRef) (delay : Time) (callback : Callback)
    (k : Kernel) :
    Holds (armTimer timer delay callback k) (Calm k) AnyFault := by
  rw [armTimer]
  split
  · exact (Calm.refl k).congr rfl rfl
  · trivial

theorem threadSleep_calm (delay : Time) (k : Kernel) :
    Holds (threadSleep delay k) (Calm k) AnyFault := by
  dsimp only [threadSleep]
  refine Holds.bind (armTimer_calm _ _ _ _) ?_
  intro k1 hk1
  exact (hk1.trans (calm_setState k.current .sleeping (by simp))).leave _

/-- Waiting for a thread that is not closed. -/
theorem waitQueueBlock_noneStranded (h : NoneStranded k) (q : WaitQueueRef)
    (timeout : Time) (hq : ∀ t, q = .exitOf t → ¬ Closed k t) :
    Holds (waitQueueBlock q timeout k) NoneStranded AnyFault := by
  dsimp only [waitQueueBlock]
  by_cases h0 : timeout = 0
  · rw [if_pos h0]
    exact (waitQueueBlockReturns_calm _ k).imp fun _ => h.calm
  · rw [if_neg h0]
    cases hl : k.queues.link k.current with
    | some ref =>
        rw [listAddTail, hl]
        trivial
    | none =>
        rw [listAddTail, hl, ok_bind]
        have hblocked : NoneStranded (blockedOn k q) := by
          have hclosed : ∀ t, Closed (blockedOn k q) t → Closed k t :=
            (calm_setThread (k := k) (t := k.current) (f := fun th =>
              { th with
                state := .blocked, blockingWaitQueue := some q
                waitQueueBlockRet := noErr }) (by simp) id).closed
          intro u t hw hd
          have hw' : (k.queues.addTail (.wait q) k.current).link u
            = some (.wait (.exitOf t)) := hw
          rw [NodeLists.link_addTail _ _ _ hl] at hw'
          by_cases hu : u = k.current
          · rw [hu, Function.update_self] at hw'
            injection hw' with hw'
            injection hw' with hw'
            exact hq t hw' (hclosed t hd)
          · rw [Function.update_of_ne hu] at hw'
            exact h u t hw' (hclosed t hd)
        refine Holds.bind (Q := NoneStranded) ?_ ?_
        · split_ifs
          · exact (armTimer_calm _ _ _ (blockedOn k q)).imp
              fun _ => hblocked.calm
          · exact hblocked
        · intro k1 hk1
          exact hk1.calm ((Calm.refl k1).leave _)

/-- One thread is closed, and nobody waits for its exit. -/
theorem noneStranded_close (h : NoneStranded k)
    (hw : ∀ u t', AwaitsExit k' u t' → AwaitsExit k u t')
    (hd : ∀ t', t' ≠ t → Closed k' t' → Closed k t')
    (hnil : ∀ u, ¬ AwaitsExit k' u t) : NoneStranded k' := by
  intro u t' hu hc
  have ht : t' ≠ t := by
    rintro rfl
    exact hnil u hu
  exact h u t' (hw u t' hu) (hd t' ht hc)

/-- Nobody is on an empty list. -/
theorem not_awaitsExit_of_nil (h : k.waitList (.exitOf t) = []) (u : Tid) :
    ¬ AwaitsExit k u t := by
  intro hu
  have hmem : u ∈ k.waitList (.exitOf t) := (k.queues.mem_items _ _).mpr hu
  rw [h] at hmem
  cases hmem

theorem threadExit_noneStranded (h : NoneStranded k) (retcode : Int) :
    Holds (threadExit retcode k) NoneStranded AnyFault := by
  have hother : ∀ t', t' ≠ k.current → Closed (died retcode k) t' →
      Closed k t' := by
    intro t' ht' hc
    have hth : (died retcode k).threads t' = k.threads t' :=
      Function.update_of_ne ht' _ _
    rw [Closed, hth] at hc
    exact hc
  have hflag : ((died retcode k).threads k.current).flags.detached
      = (k.threads k.current).flags.detached := by
    simp [died]
  -- what is calm after the death leaves nobody waiting
  have hrest : ∀ k1, Calm (died retcode k) k1 →
      (∀ u, ¬ AwaitsExit k1 u k.current) → NoneStranded k1 := by
    intro k1 hcalm hnil
    refine noneStranded_close h hcalm.waiting ?_ hnil
    intro t' ht' hc
    exact hother t' ht' (hcalm.closed t' hc)
  rw [threadExit_eq]
  refine Holds.bind (Q := NoneStranded) ?_ ?_
  · split_ifs with hdet
    · refine (unlinkAndFree_calm _ _ _).imp ?_
      intro k1 hcalm
      refine hrest k1 hcalm ?_
      intro u hu
      exact h u k.current (hcalm.waiting u _ hu) (.inr (hflag.symm.trans hdet))
    · refine Holds.bind (waitQueueWakeAll_calm _ false noErr _) ?_
      rintro r ⟨hcalm, hnil⟩
      exact hrest r.2 hcalm (not_awaitsExit_of_nil (hnil rfl))
  · intro k1 hk1
    exact hk1.calm ((Calm.refl k1).leave _)

theorem threadDetach_noneStranded (h : NoneStranded k) (thid : Int) :
    Holds (threadDetach cfg thid k) NoneStranded AnyFault := by
  dsimp only [threadDetach]
  refine Holds.bind (Q := fun _ => True) ?_ ?_
  · rw [threadIdToPtr]
    split_ifs <;> trivial
  · intro t _
    refine Holds.bind (waitQueueWakeAll_calm _ false errThreadDetached k) ?_
    rintro ⟨ret, k1⟩ ⟨hcalm, hnil⟩
    have hnone := not_awaitsExit_of_nil (hnil rfl)
    have hset : ∀ f : Thread → Thread, NoneStranded (k1.setThread t f) := by
      intro f
      refine noneStranded_close (h.calm hcalm) (fun _ _ => id) ?_ hnone
      intro t' ht' hc
      rwa [Closed, Kernel.setThread_threads, Function.update_of_ne ht'] at hc
    have hflag := hset fun th =>
      { th with
        flags := { th.flags with
          detached := !decide ((k1.threads t).state = .death) } }
    rw [holds_pure]
    split_ifs
    · exact hflag.congr rfl rfl
    · exact hflag

theorem threadJoin_noneStranded (h : NoneStranded k) (thid : Int)
    (wantRetcode : Bool) (timeout : Time) :
    Holds (threadJoin cfg thid wantRetcode timeout k) NoneStranded
      AnyFault := by
  dsimp only [threadJoin]
  refine Holds.bind (Q := fun _ => True) ?_ ?_
  · rw [threadIdToPtr]
    split_ifs <;> trivial
  · intro t _
    split_ifs with hdet hdead
    · exact h.congr rfl rfl
    · have hpush : NoneStranded (k.pushFrame k.current
          (.threadJoin t wantRetcode (k.lifetime t))) := h.congr rfl rfl
      refine waitQueueBlock_noneStranded hpush _ _ ?_
      rintro t' ht' (hd | hd)
      · cases ht'
        exact hdead hd
      · cases ht'
        exact hdet hd
    · exact (threadJoinReap_calm _ _ _ k).imp fun _ => h.calm

/-! ## Steps and runs -/

theorem continueFrame_noneStranded (h : NoneStranded k) :
    Holds (continueFrame cfg k) NoneStranded AnyFault := by
  have hpop : Calm k (k.popFrame k.current) := (Calm.refl k).congr rfl rfl
  rw [continueFrame]
  split
  · exact h
  · exact h.calm hpop
  · split_ifs
    · trivial
    · exact h.calm hpop
  · exact (waitQueueBlockRest_calm _ _ k).imp fun _ => h.calm
  · exact h.calm hpop
  · exact h.calm (calm_getFreeThreadNode _ k)
  · exact (initThread_calm _ _ k).imp fun _ => h.calm
  · exact (linkThread_calm _ k).imp fun _ => h.calm
  · exact (threadYield_calm _).imp fun _ hk => h.calm (hpop.trans hk)
  · rw [detachJoin_eq]
    trivial

/-- **Every step strands nobody.** -/
theorem exec_noneStranded (h : NoneStranded k) (a : Action) :
    Holds (exec cfg a k) NoneStranded AnyFault := by
  have hwake : ∀ q (reschedule : Bool) error,
      Holds (waitQueueWakeAll q reschedule error k)
        (fun r => NoneStranded r.2) AnyFault := fun q reschedule error =>
    (waitQueueWakeAll_calm q reschedule error k).imp fun _ hr => h.calm hr.1
  cases a with
  | goOn => exact continueFrame_noneStranded h
  | interrupt => exact (x64ExceptionHandler_calm k).imp fun _ => h.calm
  | threadCreate p =>
      show NoneStranded (threadCreate p k)
      rw [threadCreate]
      split_ifs
      · exact h
      · exact h.congr rfl rfl
  | threadResume thid intsDisabled =>
      exact (threadResume_calm _ _ k).imp fun _ => h.calm
  | threadYield => exact (threadYield_calm k).imp fun _ => h.calm
  | threadPreempt => exact (threadPreempt_calm k).imp fun _ => h.calm
  | threadSetPriority p =>
      exact (threadSetPriority_calm p k).imp fun _ => h.calm
  | threadSleep delay => exact (threadSleep_calm delay k).imp fun _ => h.calm
  | threadBlock =>
      exact h.calm ((calm_setState k.current .blocked (by simp)).leave _)
  | threadUnblock thid resched =>
      exact (threadUnblock_calm _ _ k).imp fun _ => h.calm
  | threadExit retcode => exact threadExit_noneStranded h retcode
  | threadJoin thid w timeout => exact threadJoin_noneStranded h _ w timeout
  | threadDetach thid => exact threadDetach_noneStranded h _
  | threadDetachAndResume thid intsDisabled =>
      obtain ⟨n, heq⟩ := threadDetachAndResume_eq cfg thid intsDisabled k
      show Holds (ChinixThread.threadDetachAndResume cfg thid intsDisabled k)
        _ _
      rw [heq]
      trivial
  | threadPreemptDisable => exact h.congr rfl rfl
  | threadPreemptEnable =>
      show NoneStranded (threadPreemptEnable k)
      rw [threadPreemptEnable]
      split_ifs
      · exact h.congr rfl rfl
      · exact h
  | threadBecomeIdle =>
      have hset := calm_setThread (k := k) (t := k.current) (f := fun th =>
        { th with
          priority := idlePriority
          flags := { th.flags with idle := true } }) id id
      exact h.calm (hset.congr rfl rfl)
  | waitQueueBlock q timeout =>
      exact waitQueueBlock_noneStranded h _ timeout (fun _ => by simp)
  | waitQueueWakeOne q reschedule error =>
      exact Holds.bind (waitQueueWakeOne_calm _ reschedule error k)
        fun _ hr => h.calm hr
  | waitQueueWakeAll q reschedule error =>
      exact Holds.bind (hwake _ reschedule error) fun _ hr => hr
  | waitQueueDestroy q reschedule =>
      exact Holds.bind (hwake _ reschedule _) fun _ hr => hr

/-- Nobody waits for the idle thread. -/
theorem bootKernel_noneStranded (cfg : Config) :
    NoneStranded (bootKernel cfg) := by rintro _ _ ⟨⟩

/-- Who waits for an exit waits for a thread that is not closed. -/
theorem noneStranded_of_awaitsExit (h : Reachable cfg AnyCall k) {u t : Tid}
    (hw : AwaitsExit k u t) : ¬ Closed k t := by
  have hnone : NoneStranded k := h.invariant (bootKernel_noneStranded cfg)
    (fun _ a _ hi _ hst => (exec_noneStranded hi a).of_ok hst.2)
  exact hnone u t hw

/-- **Every run strands nobody**: a thread that is blocked on an exit queue,
    as its `blocking_wait_queue` tells, waits for one that is neither dead nor
    detached. -/
theorem noneStranded_of_reachable (h : Reachable cfg AnyCall k) (u t : Tid)
    (hq : (k.threads u).blockingWaitQueue = some (.exitOf t)) :
    (k.threads t).state ≠ .death ∧ (k.threads t).flags.detached = false := by
  have hqueue : QueueInv False k :=
    queueInv_of_reachable (fun _ _ _ hf => hf.elim) h
  have hopen := noneStranded_of_awaitsExit h ((hqueue.wait u _).mpr hq)
  refine ⟨fun hd => hopen (.inl hd), ?_⟩
  cases hdet : (k.threads t).flags.detached with
  | false => rfl
  | true => exact absurd (.inr hdet) hopen

/-- Thread 2 is BLOCKED in a join of thread 1, which lives. -/
theorem noneStranded_of_join :
    ∃ k, Reachable tenSlots AnyCall k ∧ (k.threads 2).state = .blocked ∧
      (k.threads 2).blockingWaitQueue = some (.exitOf 1) ∧
      (k.threads 1).state ≠ .death ∧
      (k.threads 1).flags.detached = false := by
  obtain ⟨k, hk, hb, hq⟩ := exists_reachable_of_replay tenSlots AnyCall
    (fun k => (k.threads 2).state = .blocked ∧
      (k.threads 2).blockingWaitQueue = some (.exitOf 1))
    [.threadCreate 5, .goOn, .goOn, .goOn, .threadResume 1 true,
      .threadCreate 5, .goOn, .goOn, .goOn, .threadResume 2 true,
      .threadBecomeIdle, .goOn, .goOn, .threadYield, .goOn,
      .threadJoin 1 true 50] (by decide +kernel)
  exact ⟨k, hk, hb, hq, noneStranded_of_reachable hk 2 1 hq⟩

end ChinixExitQueues

import Chinix.RunQueueInvariant

/-! # Who runs and who waits to run

    `place` is what the scheduler knows of a thread: its state and the queue
    it is on.  A move changes the place of one thread; `Shift` says how.  Two
    invariants follow: a thread that could run is on a run queue, and one
    thread is RUNNING. -/

namespace ChinixScheduling

open ChinixKernel ChinixRunQueue ChinixWaitQueue ChinixThread ChinixMachine
open ChinixQueueInvariant ChinixQueueRuns ChinixLifecycle ChinixMoves
open ChinixLifeInvariant ChinixSimulation ChinixThreadCalls ChinixSteps
open ChinixRunQueueInvariant

variable {s : Scope} {k k' : Kernel} {t : Tid} {cfg : Config}

/-- The state of a thread and the queue it is on. -/
def place (k : Kernel) (t : Tid) : ThreadState × Option QueueRef :=
  ((k.threads t).state, k.queues.link t)

theorem place_of_view {k' : Kernel} {u : Tid} (h : view k' t = view k u) :
    place k' t = place k u :=
  Prod.ext (congrArg View.state h) (congrArg View.link h)

/-- What a move does to the places: it changes the one of the current thread,
    it clears a slot, it puts a thread on its run queue, or it gives the CPU
    to another thread. -/
inductive Shift (s : Scope) (k k' : Kernel) : Prop where
  | current (hc : k'.current = k.current)
      (hsame : ∀ t, t ≠ k.current → place k' t = place k t)
  | wiped (u : Tid) (hc : k'.current = k.current)
      (hsame : ∀ t, t ≠ u → place k' t = place k t)
      (hu : place k' u = (.suspended, none))
  | enlisted (u : Tid) (p : Nat) (st : ThreadState)
      (hc : k'.current = k.current)
      (hsame : ∀ t, t ≠ u → place k' t = place k t)
      (hu : place k' u = (st, some (.run p)))
      (hst : st = .ready ∨ u = k.current)
  | dispatched (new : Tid) (hc : k'.current = new)
      (hsame : ∀ t, t ≠ new → place k' t = place k t)
      (hnew : place k' new = (.running, none))
      (hl : s.listed → Runnable (k.threads k.current).state →
        k.current = idleThread ∨
          ∃ p, k.queues.link k.current = some (.run p))
      (hs : s.single → (k.threads k.current).state = .running →
        new = k.current)

theorem shift_of_move (hm : Move s k k') : Shift s k k' := by
  cases hm with
  | clock p n => exact .current rfl (fun _ _ => rfl)
  | expire => exact .current rfl (fun _ _ => rfl)
  | preempted => exact .current rfl (fun _ _ => rfl)
  | retouch u f hf =>
      refine .current rfl ?_
      intro t _
      by_cases ht : t = u
      · subst ht
        simp [place, hf.state]
      · simp [place, ht]
  | setFrames fs => exact .current rfl (fun _ _ => rfl)
  | pause f st hf hr hb hst =>
      exact .current rfl (fun t ht => by simp [place, ht])
  | sleep tq hr hc hb ht =>
      exact .current rfl (fun t ht' => by simp [place, ht'])
  | die retcode hr hc hfr =>
      exact .current rfl (fun t ht => by simp [place, ht])
  | enlist u f st hf ht hl hst hfrom htm hm =>
      have hl' : (k.setThread u f).queues.link u = none := hl
      have hv := view_enqueue hl'
      refine .enlisted u ((k.setThread u f).threads u).priority.toNat st rfl
        ?_ ?_ (hst.imp id And.left)
      · intro t ht
        refine place_of_view ?_
        rw [hv, if_neg ht, view_setThread, if_neg ht]
      · have hvu := hv u
        rw [if_pos rfl] at hvu
        refine Prod.ext ((congrArg View.state hvu).trans ?_)
          (congrArg View.link hvu)
        show ((k.setThread u f).threads u).state = st
        rw [Kernel.setThread_threads, Function.update_self]
        exact hf.state
  | wake q u error hl hq hx hcode =>
      have hv := view_wake (k := k) (q := q) (t := u) error
      refine .enlisted u (k.threads u).priority.toNat .ready rfl ?_ ?_
        (.inl rfl)
      · intro t ht
        refine place_of_view ?_
        rw [hv, if_neg ht]
      · have hvu := hv u
        rw [if_pos rfl] at hvu
        exact Prod.ext (congrArg View.state hvu) (congrArg View.link hvu)
  | block q timeout below tq hr hc hfr hb ht =>
      refine .current rfl ?_
      intro t ht
      simp [place, blockedOn, ht, NodeLists.link_addTail _ _ _ hr.unlinked]
  | returns q timeout call below hr hfr => exact .current rfl (fun _ _ => rfl)
  | take u p hr hf hfr hj => exact .current rfl (fun _ _ => rfl)
  | wipe u p hfr hm hl hc ht =>
      refine .wiped u rfl ?_ ?_
      · intro t ht
        simp [place, ht]
      · simp [place, hl, Thread.zero]
  | publish u hr hfr hm => exact .current rfl (fun _ _ => rfl)
  | reclaim u entitled hm hd hl ho => exact .current rfl (fun _ _ => rfl)
  | joined u lifetime ret w stored hs h => exact .current rfl (fun _ _ => rfl)
  | dispatch hb hi hl hs =>
      obtain ⟨new, hc, hchosen, -, hv⟩ := view_threadResched hi
      refine .dispatched new hc ?_ ?_ hl ?_
      · intro t ht
        refine place_of_view ?_
        rw [hv, if_neg ht]
      · have hvn := hv new
        rw [if_pos rfl] at hvn
        exact Prod.ext (congrArg View.state hvn) (congrArg View.link hvn)
      · intro hsingle hr
        rw [← hchosen]
        exact hs hsingle hr

/-! ## Nobody who could run is lost -/

/-- A thread that could run is current, idle or on a run queue. -/
def Accounted (k : Kernel) : Prop :=
  ∀ t, Runnable (k.threads t).state →
    t = k.current ∨ t = idleThread ∨ ∃ p, k.queues.link t = some (.run p)

theorem accounted_of_shift (hlisted : s.listed) (h : Accounted k)
    (hm : Shift s k k') : Accounted k' := by
  -- a thread whose place stays is where it was
  have hkeep : ∀ t, place k' t = place k t →
      Runnable (k'.threads t).state →
      t = k.current ∨ t = idleThread ∨
        ∃ p, k'.queues.link t = some (.run p) := by
    intro t ht hr
    have hstate : (k'.threads t).state = (k.threads t).state :=
      congrArg Prod.fst ht
    have hlink : k'.queues.link t = k.queues.link t := congrArg Prod.snd ht
    rw [hlink]
    exact h t (hstate ▸ hr)
  intro t hr
  cases hm with
  | current hc hsame =>
      rw [hc]
      by_cases ht : t = k.current
      · exact .inl ht
      · exact hkeep t (hsame t ht) hr
  | wiped u hc hsame hu =>
      rw [hc]
      by_cases ht : t = u
      · have hstate : (k'.threads u).state = .suspended :=
          congrArg Prod.fst hu
        rw [ht, hstate] at hr
        rcases hr with hr | hr <;> cases hr
      · exact hkeep t (hsame t ht) hr
  | enlisted u p st hc hsame hu hst =>
      rw [hc]
      by_cases ht : t = u
      · rw [ht]
        exact .inr (.inr ⟨p, congrArg Prod.snd hu⟩)
      · exact hkeep t (hsame t ht) hr
  | dispatched new hc hsame hnew hl hs =>
      rw [hc]
      by_cases ht : t = new
      · exact .inl ht
      · have hstate : (k'.threads t).state = (k.threads t).state :=
          congrArg Prod.fst (hsame t ht)
        have hlink : k'.queues.link t = k.queues.link t :=
          congrArg Prod.snd (hsame t ht)
        rcases hkeep t (hsame t ht) hr with hcur | hrest
        · rw [hstate, hcur] at hr
          rw [hlink, hcur]
          exact .inr (hl hlisted hr)
        · exact .inr hrest

/-- Every thread but the current one and the idle one that is READY or
    RUNNING is on a run queue. -/
def NoneLost (k : Kernel) : Prop :=
  ∀ t, t ≠ k.current → t ≠ idleThread → Runnable (k.threads t).state →
    ∃ p, t ∈ k.runQueue p

theorem noneLost_of_accounted (h : Accounted k) : NoneLost k := by
  intro t hc hi hr
  obtain ⟨p, hp⟩ := ((h t hr).resolve_left hc).resolve_left hi
  exact ⟨p, (k.queues.mem_items _ _).mpr hp⟩

/-- A call of `thread_unblock` that asks for a reschedule. -/
def unblocksAndReschedules : Action → Bool
  | .threadUnblock _ resched => resched
  | _ => false

/-- The scheduler calls without a rescheduling `thread_unblock`. -/
def LosslessCall (k : Kernel) (a : Action) : Prop :=
  SchedulerCall k a ∧ unblocksAndReschedules a = false

instance (k : Kernel) (a : Action) : Decidable (LosslessCall k a) :=
  inferInstanceAs (Decidable (_ ∧ _))

/-- Of the calls that keep the run queues in order, those without a
    rescheduling `thread_unblock`. -/
def RequeuingCall (k : Kernel) (a : Action) : Prop :=
  RunQueueCall k a ∧ unblocksAndReschedules a = false

instance (k : Kernel) (a : Action) : Decidable (RequeuingCall k a) :=
  inferInstanceAs (Decidable (_ ∧ _))

/-- Nobody joins, and who gives up the CPU and could go on is on a run
    queue. -/
def lossless : Scope where
  total := False
  joinless := True
  listed := True
  single := False
  once := False
  code := fun _ => True
  joins := True

theorem RequeuingCall.allowed {a : Action} (h : Good lossless k)
    (hc : RequeuingCall k a) : Allowed lossless k a := by
  refine allowed_of_schedulerCall trivial (fun _ => trivial) h.life hc.1.1 ?_
    ?_ ?_
  · exact fun _ _ hno => hno.elim
  · rintro thid resched rfl
    exact ⟨False.elim, fun _ => hc.2⟩
  · exact fun _ _ hno => hno.elim

theorem accounted_of_reachable (h : Reachable cfg RequeuingCall k) :
    Accounted k := by
  refine invariant_of_moves (s := lossless)
    (fun _ _ hg ha => ha.allowed hg) ?_ ?_ h
  · intro t hr
    by_cases ht : t = idleThread
    · exact .inl ht
    · simp [bootKernel, ht, Thread.zero, Runnable] at hr
  · intro k1 k2 _ hI hm
    exact accounted_of_shift trivial hI (shift_of_move hm)

/-- A rescheduling `thread_unblock` leaves its caller RUNNING on no queue. -/
theorem threadUnblock_loses {b : Prop} (hq : QueueInv b k) (hr : Resting k)
    (hin : inThread k) (hid : Issued cfg k t)
    (hb : (k.threads t).state = .blocked)
    (hx : threadUnblock cfg t true k = .ok k') : ¬ NoneLost k' := by
  have hne : k.current ≠ t := by
    rintro hc
    rw [← hc] at hb
    cases hb.symm.trans hr.running
  rw [threadUnblock] at hx
  rw [threadIdToPtr_eq hid.1, Outcome.ok_bind, Outcome.bind_eq_ok] at hx
  obtain ⟨k1, hins, hx⟩ := hx
  obtain ⟨hl, hp, rfl⟩ := (insertInRunQueueTail_spec t _).of_ok hins
  have hk' : k' = threadResched ((enqueue (k.setState t .ready) t).pushFrame
      k.current (.afterResched .unblock 0)) := by
    cases hx
    rfl
  subst hk'
  have hq1 := (hq.setState .ready).enqueue hl hp (Issued.ne_idle hid)
  have hlink : (enqueue (k.setState t .ready) t).queues.link k.current
      = none := by
    rw [enqueue_queues, NodeLists.link_addTail _ _ _ hl,
      Function.update_of_ne hne]
    exact hr.unlinked
  obtain ⟨new, hc, -, hnew, hv⟩ := view_threadResched
    (k := (enqueue (k.setState t .ready) t).pushFrame k.current
      (.afterResched .unblock 0)) hq1.idle_unlinked
  have hother : k.current ≠ new := by
    rintro rfl
    rcases hnew with hi | ⟨p, hp⟩
    · exact hin.2 hi
    · cases hlink.symm.trans hp
  have hview := hv k.current
  rw [if_neg hother] at hview
  have hstate := congrArg View.state hview
  have hlost := congrArg View.link hview
  have hrun : ((k.setState t .ready).threads k.current).state = .running := by
    rw [Kernel.setThread_threads, Function.update_of_ne hne]
    exact hr.running
  intro hall
  obtain ⟨p, hmem⟩ := hall k.current (by rw [hc]; exact hother) hin.2
    (.inr (hstate.trans hrun))
  cases (hlost.trans hlink).symm.trans
    ((NodeLists.mem_items _ _ _).mp hmem)

/-- **Every run** without a rescheduling `thread_unblock` loses nobody.  The
    next call returns, and it loses somebody exactly when it is one. -/
theorem noneLost_iff (h : Reachable cfg RequeuingCall k) {a : Action}
    (hen : Enabled cfg a k) (ha : RunQueueCall k a) :
    NoneLost k ∧ ∃ k', exec cfg a k = .ok k' ∧
      (NoneLost k' ↔ unblocksAndReschedules a = false) := by
  have hrun : Reachable cfg RunQueueCall k :=
    h.weaken (J := fun _ => True) (fun _ _ => trivial) (fun _ _ _ hc => hc.1)
  obtain ⟨k', hx⟩ := exec_returns hrun hen ha
  refine ⟨noneLost_of_accounted (accounted_of_reachable h), k', hx, ?_, ?_⟩
  · intro hnone
    by_contra hno
    obtain ⟨thid, rfl⟩ : ∃ thid, a = .threadUnblock thid true := by
      cases a <;> simp_all [unblocksAndReschedules]
    have hgood : Good lossless k :=
      good_of_reachable (fun _ _ hg ha => ha.allowed hg) h
    exact threadUnblock_loses hgood.queue hgood.rest hen.2.2 hen.1 hen.2.1 hx
      hnone
  · intro hno
    have hstep : Step cfg k a k' := ⟨hen, hx⟩
    exact noneLost_of_accounted
      (accounted_of_reachable (.next a h ⟨ha, hno⟩ hstep))

/-- Thread 1 blocks, thread 2 is about to unblock it. -/
def blockedAndUnblocker : List Action :=
  [.threadCreate 5, .goOn, .goOn, .goOn, .threadResume 1 true,
   .threadCreate 5, .goOn, .goOn, .goOn, .threadResume 2 true,
   .threadBecomeIdle, .goOn, .goOn, .threadBlock, .goOn]

/-- If thread 2 does not ask for a reschedule, nobody is lost. -/
theorem noneLost_of_unblock :
    ∃ k k', Reachable tenSlots RequeuingCall k ∧
      exec tenSlots (.threadUnblock 1 false) k = .ok k' ∧ k.current = 2 ∧
      NoneLost k ∧ NoneLost k' := by
  obtain ⟨k, hk, hc, hen, hcall⟩ := exists_reachable_of_replay tenSlots
    RequeuingCall (fun k => k.current = 2 ∧
      Enabled tenSlots (.threadUnblock 1 false) k ∧
      RunQueueCall k (.threadUnblock 1 false))
    blockedAndUnblocker (by decide +kernel)
  obtain ⟨hnone, k', hx, hiff⟩ := noneLost_iff hk hen hcall
  exact ⟨k, k', hk, hx, hc, hnone, hiff.mpr rfl⟩

/-- If it does, thread 2 is RUNNING on no queue while thread 1 has the CPU. -/
theorem unblocker_is_lost :
    ¬ ∀ k, Reachable tenSlots SchedulerCall k → NoneLost k := by
  intro hall
  obtain ⟨k, hk, hc, hs, hl⟩ := exists_reachable_of_replay tenSlots
    SchedulerCall (fun k => 2 ≠ k.current ∧ (k.threads 2).state = .running ∧
      k.queues.link 2 = none)
    (blockedAndUnblocker ++ [.threadUnblock 1 true]) (by decide +kernel)
  obtain ⟨p, hp⟩ := hall k hk 2 hc (by decide) (.inr hs)
  cases hl.symm.trans ((k.queues.mem_items _ _).mp hp)

/-! ## One thread is RUNNING -/

/-- Only the current thread is RUNNING, and only it can be so on a run
    queue, on its way to `thread_resched`. -/
structure RunsAlone (k : Kernel) : Prop where
  running : ∀ t, (k.threads t).state = .running → t = k.current
  linked : ∀ t p, k.queues.link t = some (.run p) →
    (k.threads t).state = .ready ∨ t = k.current

theorem runsAlone_of_shift (hsingle : s.single) (hlife : LifeInv s k)
    (h : RunsAlone k) (hm : Shift s k k') : RunsAlone k' := by
  have hstate : ∀ t, place k' t = place k t →
      (k'.threads t).state = (k.threads t).state :=
    fun t ht => congrArg Prod.fst ht
  have hlink : ∀ t, place k' t = place k t →
      k'.queues.link t = k.queues.link t :=
    fun t ht => congrArg Prod.snd ht
  cases hm with
  | current hc hsame =>
      constructor
      · intro t hr
        by_contra ht
        rw [hc] at ht
        rw [hstate t (hsame t ht)] at hr
        exact ht (h.running t hr)
      · intro t p hp
        rw [hc]
        by_cases ht : t = k.current
        · exact .inr ht
        · rw [hstate t (hsame t ht)]
          rw [hlink t (hsame t ht)] at hp
          exact h.linked t p hp
  | wiped u hc hsame hu =>
      constructor
      · intro t hr
        by_cases ht : t = u
        · rw [ht] at hr
          cases hr.symm.trans (congrArg Prod.fst hu)
        · rw [hstate t (hsame t ht)] at hr
          exact (h.running t hr).trans hc.symm
      · intro t p hp
        by_cases ht : t = u
        · rw [ht] at hp
          cases hp.symm.trans (congrArg Prod.snd hu)
        · rw [hc, hstate t (hsame t ht)]
          rw [hlink t (hsame t ht)] at hp
          exact h.linked t p hp
  | enlisted u p st hc hsame hu hst =>
      have hself : (k'.threads u).state = st := congrArg Prod.fst hu
      constructor
      · intro t hr
        by_cases ht : t = u
        · rw [ht, hself] at hr
          rw [ht, hc]
          refine hst.resolve_left ?_
          rw [hr]
          simp
        · rw [hstate t (hsame t ht)] at hr
          exact (h.running t hr).trans hc.symm
      · intro t p' hp
        rw [hc]
        by_cases ht : t = u
        · rw [ht, hself]
          exact hst
        · rw [hstate t (hsame t ht)]
          rw [hlink t (hsame t ht)] at hp
          exact h.linked t p' hp
  | dispatched new hc hsame hnew hl hs =>
      -- a thread that gave up the CPU is not RUNNING any more
      have hleft : ∀ t, t ≠ new → (k.threads t).state ≠ .running := by
        intro t ht hr
        have hcur := h.running t hr
        rw [hcur] at hr ht
        exact ht (hs hsingle hr).symm
      constructor
      · intro t hr
        by_contra ht
        rw [hc] at ht
        rw [hstate t (hsame t ht)] at hr
        exact hleft t ht hr
      · intro t p hp
        by_cases ht : t = new
        · exact .inr (ht.trans hc.symm)
        · rw [hlink t (hsame t ht)] at hp
          rw [hstate t (hsame t ht)]
          exact .inl (((hlife.ok t).run p hp).resolve_right (hleft t ht))

/-- One thread is RUNNING, the current one; it is on no queue, and the
    threads on the run queues are READY. -/
structure OneRunning (k : Kernel) : Prop where
  running : ∀ t, (k.threads t).state = .running ↔ t = k.current
  unlinked : ∀ ref, k.current ∉ k.queues.items ref
  ready : ∀ p t, t ∈ k.runQueue p → (k.threads t).state = .ready

theorem oneRunning_of_runsAlone (h : RunsAlone k) (hr : Resting k) :
    OneRunning k where
  running := by
    intro t
    constructor
    · exact h.running t
    · rintro rfl
      exact hr.running
  unlinked := by
    intro ref hmem
    have hl := (k.queues.mem_items _ _).mp hmem
    cases hr.unlinked.symm.trans hl
  ready := by
    intro p t hmem
    have hl := (k.queues.mem_items _ _).mp hmem
    refine (h.linked t p hl).resolve_right ?_
    rintro rfl
    cases hr.unlinked.symm.trans hl

/-- No thread is on a run queue up to the one that the caller of
    `thread_set_priority` goes on. -/
def StaysChosen (k : Kernel) : Action → Prop
  | .threadSetPriority p => ∀ q, q ≤ (clampPriority p).toNat → k.runQueue q = []
  | _ => True

instance (k : Kernel) (a : Action) : Decidable (StaysChosen k a) := by
  apply a.casesOn (motive := fun a => Decidable (StaysChosen k a)) <;>
    intros <;> unfold StaysChosen <;> infer_instance

/-- The scheduler calls but for a rescheduling `thread_unblock`, with a
    `thread_set_priority` that keeps the CPU. -/
def KeepingCall (k : Kernel) (a : Action) : Prop :=
  LosslessCall k a ∧ StaysChosen k a

instance (k : Kernel) (a : Action) : Decidable (KeepingCall k a) :=
  inferInstanceAs (Decidable (_ ∧ _))

/-- Nobody joins, and a thread that gives up the CPU is not RUNNING. -/
def alone : Scope where
  total := False
  joinless := True
  listed := False
  single := True
  once := False
  code := fun _ => True
  joins := True

theorem KeepingCall.allowed {a : Action} (h : Good alone k)
    (hc : KeepingCall k a) : Allowed alone k a := by
  refine allowed_of_schedulerCall trivial (fun _ => trivial) h.life hc.1.1 ?_ ?_ ?_
  · exact fun _ _ hno => hno.elim
  · rintro thid resched rfl
    exact ⟨False.elim, fun _ => hc.1.2⟩
  · rintro p rfl _
    exact hc.2

theorem runsAlone_of_reachable (h : Reachable cfg KeepingCall k) :
    RunsAlone k := by
  refine invariant_of_moves (s := alone)
    (fun _ _ hg ha => ha.allowed hg) ?_ ?_ h
  · constructor
    · intro t hr
      by_contra ht
      have hi : t ≠ idleThread := ht
      simp [bootKernel, hi, Thread.zero] at hr
    · exact fun _ _ => by rintro ⟨⟩
  · intro k1 k2 hlife hI hm
    exact runsAlone_of_shift trivial hlife hI (shift_of_move hm)

/-- A thread that goes behind another one is not chosen. -/
theorem getNewThread_enqueue_ne (hb : BitmapOk (enqueue k t))
    (hl : k.queues.link t = none) (hp : PriorityOk (k.threads t).priority)
    (ht : t ≠ idleThread) {q : Nat} (hq : q ≤ (k.threads t).priority.toNat)
    (hne : k.runQueue q ≠ []) : (getNewThread (enqueue k t)).1 ≠ t := by
  have hsome : (enqueue k t).runQueue q ≠ [] := by
    rw [runQueue_enqueue hl]
    split_ifs
    · simp
    · exact hne
  rcases getNewThread_cases hb with ⟨-, heq⟩ | ⟨r, u, us, -, hcons, hlow, heq⟩
  · rw [heq]
    exact ht.symm
  · rw [heq]
    show u ≠ t
    rintro rfl
    have hr : r ≤ q := by
      by_contra hlt
      exact hsome (hlow q (Nat.lt_of_not_le hlt))
    have hfresh : ∀ x, u ∉ k.runQueue x := by
      intro x hx
      cases hl.symm.trans ((k.queues.mem_items _ _).mp hx)
    rw [runQueue_enqueue hl] at hcons
    split_ifs at hcons with hself
    · -- the list of its own priority had a thread before it
      have hqr : q = r := Nat.le_antisymm (hself ▸ hq) hr
      rw [← hqr] at hcons
      obtain ⟨v, vs, hv⟩ := List.exists_cons_of_ne_nil hne
      rw [hv, List.cons_append] at hcons
      refine hfresh q ?_
      rw [hv, (List.cons.inj hcons).1]
      exact List.mem_cons_self
    · exact hfresh r (by rw [hcons]; exact List.mem_cons_self)

/-- A `thread_set_priority` that gives up the CPU leaves its caller RUNNING. -/
theorem threadSetPriority_leaves {b : Prop} (hq : QueueInv b k)
    (hr : Resting k) (hin : inThread k) {p : Int} {q : Nat}
    (hle : q ≤ (clampPriority p).toNat) (hne : k.runQueue q ≠ [])
    (hx : threadSetPriority p k = .ok k') : ¬ OneRunning k' := by
  have hk := clampPriority_queueInv hq hr.unlinked p
  dsimp only [threadSetPriority] at hx
  rw [insertInRunQueueHead_eq_tail, Outcome.bind_eq_ok] at hx
  obtain ⟨k1, hins, hx⟩ := hx
  obtain ⟨hl, hp, rfl⟩ := (insertInRunQueueTail_spec k.current _).of_ok hins
  cases hx
  have hq1 := hk.enqueue hl hp hin.2
  have hother := getNewThread_enqueue_ne hq1.bitmap hl hp hin.2 (q := q)
    (by simpa using hle) hne
  obtain ⟨new, hc, hchosen, -, hv⟩ := view_threadResched
    (k := (enqueue (k.setThread k.current fun th =>
      { th with priority := clampPriority p }) k.current).pushFrame k.current
        (.afterResched .setPriority 0)) hq1.idle_unlinked
  have hcur : k.current ≠ new := by
    rintro rfl
    rw [getNewThread_pushFrame] at hchosen
    exact hother hchosen
  have hview := hv k.current
  rw [if_neg hcur] at hview
  have hrun : ((k.setThread k.current fun th =>
      { th with priority := clampPriority p }).threads k.current).state
      = .running := by simpa using hr.running
  intro hone
  have heq := (hone.running k.current).mp
    ((congrArg View.state hview).trans hrun)
  exact hcur (heq.trans hc)

/-- **Every run** of such calls has one RUNNING thread, and the next call
    keeps it so exactly when it is one of them. -/
theorem oneRunning_iff (h : Reachable cfg KeepingCall k) {a : Action}
    (hen : Enabled cfg a k) (ha : LosslessCall k a)
    (hx : exec cfg a k = .ok k') :
    OneRunning k ∧ (OneRunning k' ↔ StaysChosen k a) := by
  have hgood : ∀ {k}, Reachable cfg KeepingCall k → Good alone k :=
    fun hr => good_of_reachable (fun _ _ hg ha => ha.allowed hg) hr
  have hone : ∀ {k}, Reachable cfg KeepingCall k → OneRunning k :=
    fun hr => oneRunning_of_runsAlone (runsAlone_of_reachable hr) (hgood hr).rest
  refine ⟨hone h, ?_, ?_⟩
  · intro hk'
    cases a with
    | threadSetPriority p =>
        intro q hq
        by_contra hne
        exact threadSetPriority_leaves (hgood h).queue (hgood h).rest hen hq
          hne hx hk'
    | _ => trivial
  · intro hs
    exact hone (.next a h ⟨ha, hs⟩ ⟨hen, hx⟩)

/-- Thread 1 has the CPU, thread 2 waits at priority 5. -/
def twoAtFive : List Action :=
  [.threadCreate 5, .goOn, .goOn, .goOn, .threadResume 1 true,
   .threadCreate 5, .goOn, .goOn, .goOn, .threadResume 2 true,
   .threadBecomeIdle, .goOn, .goOn]

/-- Thread 1 goes to priority 3, where nobody is before it. -/
theorem oneRunning_of_three :
    ∃ k k', Reachable tenSlots KeepingCall k ∧
      exec tenSlots (.threadSetPriority 3) k = .ok k' ∧ k.runQueue 5 = [2] ∧
      OneRunning k ∧ OneRunning k' := by
  obtain ⟨k, hk, hq, hen, hs, hok⟩ := exists_reachable_of_replay tenSlots
    KeepingCall (fun k => k.runQueue 5 = [2] ∧
      Enabled tenSlots (.threadSetPriority 3) k ∧
      StaysChosen k (.threadSetPriority 3) ∧
      (exec tenSlots (.threadSetPriority 3) k).isOk = true)
    twoAtFive (by decide +kernel)
  cases hx : exec tenSlots (.threadSetPriority 3) k with
  | error e =>
      rw [hx] at hok
      cases hok
  | ok k' =>
      obtain ⟨hone, hiff⟩ := oneRunning_iff hk hen ⟨trivial, rfl⟩ hx
      exact ⟨k, k', hk, hx, hq, hone, hiff.mpr hs⟩

/-- Thread 1 goes to priority 20, and thread 2 is RUNNING beside it. -/
theorem two_running :
    ¬ ∀ k, Reachable tenSlots LosslessCall k → OneRunning k := by
  intro hall
  obtain ⟨k, hk, h1, h2⟩ := exists_reachable_of_replay tenSlots LosslessCall
    (fun k => (k.threads 1).state = .running ∧ (k.threads 2).state = .running)
    (twoAtFive ++ [.threadSetPriority 20]) (by decide +kernel)
  have hone := (hall k hk).running
  exact absurd (((hone 1).mp h1).trans ((hone 2).mp h2).symm) (by decide)

end ChinixScheduling

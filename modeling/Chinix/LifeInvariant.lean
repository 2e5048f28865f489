import Chinix.Moves

/-! # The moves keep the lives in order

    `LifeInv` holds of the view of every thread and of what the threads hold
    of each other: a slot that is being made into a thread is on no list and
    has one maker, and a thread that is joined is on a list and in the life
    that it is joined for. -/

namespace ChinixLifeInvariant

open ChinixTimerQueue ChinixPlatformTimer ChinixKernel ChinixRunQueue
open ChinixWaitQueue ChinixThread ChinixMachine ChinixQueueInvariant
open ChinixLifecycle ChinixMoves

/-- The invariant of all moves. -/
structure LifeInv (s : Scope) (k : Kernel) : Prop where
  ok : ∀ t, (view k t).Ok
  held : ∀ u t, holding (k.frames u) = some t →
    k.threadLists.link t = none ∧
      ∀ u', holding (k.frames u') = some t → u' = u
  timers : ∀ r ∈ k.timerQueue.queue,
    (k.timerQueue.timers r).callback = some (handler r)
  idle : Runnable (k.threads idleThread).state
  joins : ∀ u t w l, Frame.threadJoin t w l ∈ k.frames u →
    k.threadLists.link t ≠ none ∧ k.lifetime t = l ∧ 0 < l ∧
      (k.queues.link u = some (.wait (.exitOf t)) ∨
        (k.threads t).state = .death)
  joinless : s.joinless → ∀ u, ∀ f ∈ k.frames u, joinFree f = true
  undetached : s.once → ∀ t, t ≠ idleThread →
    (k.threads t).flags.detached = false
  once : s.once → ∀ u t, joining (k.frames u) = some t →
    k.threadLists.link t = some .all ∧
      ∀ u', joining (k.frames u') = some t → u' = u

variable {s : Scope} {k k' : Kernel} {t : Tid}

/-! ## Threads and their views -/

/-- A move that is about one thread. -/
theorem ok_of_view (h : ∀ u, (view k u).Ok)
    (hne : ∀ u, u ≠ t → view k' u = view k u) (ht : (view k' t).Ok) :
    ∀ u, (view k' u).Ok := by
  intro u
  by_cases hu : u = t
  · rw [hu]
    exact ht
  · rw [hne u hu]
    exact h u

/-- A move of one thread on the slot of another. -/
theorem ok_of_two_views {c : Tid} (h : ∀ u, (view k u).Ok)
    (hne : ∀ u, u ≠ t → u ≠ c → view k' u = view k u)
    (ht : (view k' t).Ok) (hc : (view k' c).Ok) : ∀ u, (view k' u).Ok := by
  intro u
  by_cases hu : u = t
  · rw [hu]
    exact ht
  · by_cases huc : u = c
    · rw [huc]
      exact hc
    · rw [hne u hu huc]
      exact h u

/-- A move that leaves the stacks, the thread lists and the lives alone. -/
theorem LifeInv.keep (h : LifeInv s k) (hfr : k'.frames = k.frames)
    (hm : k'.threadLists = k.threadLists) (hlt : k'.lifetime = k.lifetime)
    (hok : ∀ u, (view k' u).Ok)
    (htm : ∀ r ∈ k'.timerQueue.queue,
      (k'.timerQueue.timers r).callback = some (handler r))
    (hidle : Runnable (k'.threads idleThread).state)
    (hdet : s.once → ∀ u, (k'.threads u).flags.detached
      = (k.threads u).flags.detached)
    (hj : ∀ u t, joining (k.frames u) = some t →
      k.queues.link u = some (.wait (.exitOf t)) ∨
        (k.threads t).state = .death →
      k'.queues.link u = some (.wait (.exitOf t)) ∨
        (k'.threads t).state = .death) : LifeInv s k' := by
  constructor
  · exact hok
  · rw [hfr, hm]
    exact h.held
  · exact htm
  · exact hidle
  · intro u t w l hmem
    rw [hfr] at hmem
    obtain ⟨hne, hl, hpos, hor⟩ := h.joins u t w l hmem
    have hjoin : joining (k.frames u) = some t :=
      (joining_eq_some_iff (h.ok u).stack).mpr ⟨w, l, hmem⟩
    rw [hm, hlt]
    exact ⟨hne, hl, hpos, hj u t hjoin hor⟩
  · rw [hfr]
    exact h.joinless
  · intro ho u hu
    rw [hdet ho]
    exact h.undetached ho u hu
  · rw [hfr, hm]
    exact h.once

/-- A thread in a blocking call is the only one that joins. -/
theorem LifeInv.joining_eq_none (h : LifeInv s k)
    (hb : blockedIn (k.frames t) = none) : joining (k.frames t) = none :=
  (h.ok t).stack.joining_eq_none hb

theorem LifeInv.not_sleeping (h : LifeInv s k)
    (hs : (k.threads t).state ≠ .sleeping) :
    TimerRef.sleep t ∉ k.timerQueue.queue := by
  simpa [view] using (h.ok t).not_sleeping hs

theorem LifeInv.not_waiting (h : LifeInv s k)
    (hb : blockedIn (k.frames t) = none) :
    TimerRef.wait t ∉ k.timerQueue.queue := by
  simpa [view] using (h.ok t).not_waiting hb

/-! ## The moves -/

theorem view_setThread (f : Thread → Thread) (u : Tid) :
    view (k.setThread t f) u =
      if u = t then
        { view k t with
          state := (f (k.threads t)).state
          ret := (f (k.threads t)).waitQueueBlockRet }
      else view k u := by
  by_cases hu : u = t
  · subst hu
    simp [view]
  · simp [view, hu]

theorem view_enqueue (hl : k.queues.link t = none) (u : Tid) :
    view (enqueue k t) u =
      if u = t then
        { view k t with
          link := some (.run (k.threads t).priority.toNat) }
      else view k u := by
  by_cases hu : u = t
  · subst hu
    simp [view, NodeLists.link_addTail _ _ _ hl]
  · simp [view, NodeLists.link_addTail _ _ _ hl, hu]

/-- A timer that is no timer of a kept view. -/
theorem view_timerQueue_of_ne {tq : TimerQueue TimerRef Callback} {u : Tid}
    (hs : TimerRef.sleep u ∈ tq.queue ↔
      TimerRef.sleep u ∈ k.timerQueue.queue)
    (hw : TimerRef.wait u ∈ tq.queue ↔
      TimerRef.wait u ∈ k.timerQueue.queue) :
    view { k with timerQueue := tq } u = view k u := by
  simp [view, hs, hw]

/-- A timer queue with fewer timers. -/
theorem ok_of_fewer_timers {tq : TimerQueue TimerRef Callback} {u : Tid}
    (h : (view k u).Ok) (hq : ∀ r ∈ tq.queue, r ∈ k.timerQueue.queue) :
    (view { k with timerQueue := tq } u).Ok := by
  refine { h with sleep := ?_, timeout := ?_ }
  · intro hs
    have hmem : TimerRef.sleep u ∈ tq.queue := by simpa [view] using hs
    exact h.sleep (by simpa [view] using hq _ hmem)
  · intro hw
    have hmem : TimerRef.wait u ∈ tq.queue := by simpa [view] using hw
    exact h.timeout (by simpa [view] using hq _ hmem)

theorem lifeInv_expire (h : LifeInv s k) :
    LifeInv s { k with timerQueue := k.timerQueue.dropHead } := by
  have hq : ∀ r ∈ k.timerQueue.dropHead.queue, r ∈ k.timerQueue.queue :=
    fun r hr => List.mem_of_mem_tail hr
  refine h.keep rfl rfl rfl ?_ ?_ h.idle (fun _ _ => rfl) (fun _ _ _ => id)
  · exact fun u => ok_of_fewer_timers (h.ok u) hq
  · exact fun r hr => h.timers r (hq r hr)

theorem detached_setThread {f : Thread → Thread}
    (hf : (f (k.threads t)).flags.detached = (k.threads t).flags.detached)
    (u : Tid) : ((k.setThread t f).threads u).flags.detached
      = (k.threads u).flags.detached := by
  by_cases hu : u = t
  · subst hu
    simpa using hf
  · simp [hu]

theorem lifeInv_retouch (h : LifeInv s k) {f : Thread → Thread}
    (hf : SameLife s (k.threads t) (f (k.threads t))) :
    LifeInv s (k.setThread t f) := by
  have hview : ∀ u, view (k.setThread t f) u = view k u := by
    intro u
    rw [view_setThread]
    by_cases hu : u = t
    · rw [if_pos hu, hu, hf.state, hf.ret]
      rfl
    · rw [if_neg hu]
  have hstate : ∀ u, ((k.setThread t f).threads u).state
      = (k.threads u).state := fun u => congrArg View.state (hview u)
  refine h.keep rfl rfl rfl ?_ h.timers ?_ ?_ ?_
  · intro u
    rw [hview u]
    exact h.ok u
  · rw [hstate]
    exact h.idle
  · exact fun ho => detached_setThread (hf.detached ho)
  · intro u t' _ hor
    rw [hstate]
    exact hor

/-- A thread that is on no queue takes a state in which it cannot run, or in
    which the CPU is about to leave it. -/
theorem lifeInv_setState (h : LifeInv s k) {f : Thread → Thread}
    (hl : k.queues.link t = none) (hb : blockedIn (k.frames t) = none)
    (hs : TimerRef.sleep t ∈ k.timerQueue.queue →
      (f (k.threads t)).state = .sleeping)
    (hm : k.threadLists.link t = some .all)
    (hret : (f (k.threads t)).waitQueueBlockRet
      = (k.threads t).waitQueueBlockRet)
    (hidle : t = idleThread → Runnable (f (k.threads t)).state)
    (hd : (k.threads t).state = .death → (f (k.threads t)).state = .death)
    (hdet : s.once → (f (k.threads t)).flags.detached
      = (k.threads t).flags.detached) :
    LifeInv s (k.setThread t f) := by
  refine h.keep rfl rfl rfl ?_ h.timers ?_
    (fun ho => detached_setThread (hdet ho)) ?_
  · refine ok_of_view h.ok (t := t) ?_ ?_
    · intro u hu
      rw [view_setThread, if_neg hu]
    · rw [view_setThread, if_pos rfl]
      have hok := h.ok t
      constructor
      · intro p hp
        cases hl.symm.trans hp
      · intro q hq
        cases hl.symm.trans hq
      · intro q hq
        cases hb.symm.trans hq
      · intro hsl
        exact hs (by simpa [view] using hsl)
      · exact hok.timeout
      · exact hok.stack
      · exact .inr (.inr hm)
      · intro hfree
        cases hm.symm.trans hfree
      · exact fun r hr => hd (hok.exit r hr)
      · intro hj
        exact absurd (h.joining_eq_none hb) hj
  · by_cases hi : t = idleThread
    · subst hi
      simpa using hidle rfl
    · simpa [Ne.symm hi] using h.idle
  · intro u t' _ hor
    refine hor.imp id ?_
    intro hdeath
    by_cases hu : t' = t
    · subst hu
      simpa using hd hdeath
    · simpa [hu] using hdeath

/-- The current thread is on `thread_list`. -/
theorem LifeInv.current_listed (h : LifeInv s k) (hr : Resting k) :
    k.threadLists.link k.current = some .all := by
  have hrun : (view k k.current).state = .running := hr.running
  refine (h.ok k.current).listed ?_ ?_
  · rw [hrun]; simp
  · rw [hrun]; simp

theorem LifeInv.current_not_sleeping (h : LifeInv s k) (hr : Resting k) :
    TimerRef.sleep k.current ∉ k.timerQueue.queue := by
  refine h.not_sleeping ?_
  rw [hr.running]
  simp

theorem lifeInv_pause (h : LifeInv s k) {f : Thread → Thread}
    {st : ThreadState}
    (hf : SameLife s { k.threads k.current with state := st }
      (f (k.threads k.current)))
    (hr : Resting k) (hb : blockedIn (k.frames k.current) = none)
    (hst : st = .ready ∧ k.current = idleThread ∨
      st = .blocked ∧ k.current ≠ idleThread) :
    LifeInv s (k.setThread k.current f) := by
  refine lifeInv_setState h hr.unlinked hb ?_ (h.current_listed hr)
    hf.ret ?_ ?_ hf.detached
  · exact fun hs => absurd hs (h.current_not_sleeping hr)
  · intro hi
    rcases hst with ⟨hready, -⟩ | ⟨-, hne⟩
    · exact .inl (hf.state.trans hready)
    · exact absurd hi hne
  · intro hd
    cases hr.running.symm.trans hd

theorem lifeInv_die (h : LifeInv s k) (retcode : Int) (hr : Resting k)
    (hc : k.current ≠ idleThread) (hfr : k.frames k.current = []) :
    LifeInv s (k.setThread k.current fun th =>
      { th with state := .death, retcode := retcode }) := by
  have hb : blockedIn (k.frames k.current) = none := by rw [hfr]; rfl
  refine lifeInv_setState h hr.unlinked hb ?_ (h.current_listed hr) rfl ?_ ?_
    (fun _ => rfl)
  · exact fun hs => absurd hs (h.current_not_sleeping hr)
  · exact fun hi => absurd hi hc
  · exact fun _ => rfl

/-- The log and the clock are in no view. -/
theorem LifeInv.emit (h : LifeInv s k) (e : Event) : LifeInv s (k.emit e) :=
  h.keep rfl rfl rfl h.ok h.timers h.idle (fun _ _ => rfl) (fun _ _ _ => id)

/-- Arming a timer of a thread. -/
theorem callback_of_armed {tq tq0 : TimerQueue TimerRef Callback}
    {r : TimerRef} (ht : Armed tq tq0 r)
    (h : ∀ r' ∈ tq0.queue, (tq0.timers r').callback = some (handler r')) :
    ∀ r' ∈ tq.queue, (tq.timers r').callback = some (handler r') := by
  intro r' hr'
  by_cases he : r' = r
  · rw [he]
    exact ht.callback
  · rw [ht.others r' he]
    exact h r' (((ht.queue r').mp hr').resolve_left he)

theorem lifeInv_sleep (h : LifeInv s k)
    {tq : TimerQueue TimerRef Callback} (hr : Resting k)
    (hc : k.current ≠ idleThread)
    (hb : blockedIn (k.frames k.current) = none)
    (ht : Armed tq k.timerQueue (.sleep k.current)) :
    LifeInv s ({ k with timerQueue := tq }.setState k.current .sleeping) := by
  refine h.keep rfl rfl rfl ?_ (callback_of_armed ht h.timers) ?_
    (fun _ => detached_setThread (k := { k with timerQueue := tq }) rfl) ?_
  · refine ok_of_view h.ok (t := k.current) ?_ ?_
    · intro u hu
      rw [view_setThread, if_neg hu]
      refine view_timerQueue_of_ne ?_ ?_
      · rw [ht.queue]
        simp [hu]
      · rw [ht.queue]
        simp
    · rw [view_setThread, if_pos rfl]
      have hok := h.ok k.current
      have hw : TimerRef.wait k.current ∉ tq.queue := by
        rw [ht.queue]
        simpa using h.not_waiting hb
      constructor
      · intro p hp
        cases hr.unlinked.symm.trans hp
      · intro q hq
        cases hr.unlinked.symm.trans hq
      · intro q hq
        cases hb.symm.trans hq
      · exact fun _ => rfl
      · intro hw'
        exact absurd (by simpa [view] using hw') hw
      · exact hok.stack
      · exact .inr (.inr (h.current_listed hr))
      · intro hfree
        cases (h.current_listed hr).symm.trans hfree
      · exact fun r hx => by cases hr.running.symm.trans (hok.exit r hx)
      · exact hok.ret
  · simpa [Ne.symm hc] using h.idle
  · intro u t' _ hor
    refine hor.imp id ?_
    intro hd
    by_cases hu : t' = k.current
    · rw [hu, hr.running] at hd
      cases hd
    · simpa [hu] using hd

theorem lifeInv_enlist (h : LifeInv s k) {f : Thread → Thread}
    {st : ThreadState}
    (hf : SameLife s { k.threads t with state := st } (f (k.threads t)))
    (ht : t ≠ idleThread) (hl : k.queues.link t = none) (hst : Runnable st)
    (hfrom : (k.threads t).state ≠ .death)
    (htm : TimerRef.sleep t ∉ k.timerQueue.queue)
    (hm : k.threadLists.link t = some .all) :
    LifeInv s (enqueue (k.setThread t f) t) := by
  have hl' : (k.setThread t f).queues.link t = none := hl
  have hlink : ∀ u, u ≠ t → (enqueue (k.setThread t f) t).queues.link u
      = k.queues.link u := by
    intro u hu
    rw [enqueue_queues, NodeLists.link_addTail _ _ _ hl',
      Function.update_of_ne hu]
    rfl
  refine h.keep rfl rfl rfl ?_ h.timers ?_
    (fun ho => detached_setThread (hf.detached ho)) ?_
  · refine ok_of_view h.ok (t := t) ?_ ?_
    · intro u hu
      rw [view_enqueue hl', if_neg hu, view_setThread, if_neg hu]
    · rw [view_enqueue hl', if_pos rfl, view_setThread, if_pos rfl,
        hf.state, hf.ret]
      have hok := h.ok t
      constructor
      · exact fun _ _ => hst
      · exact fun _ => by simp
      · exact fun _ _ => .inr hst
      · intro hs
        exact absurd (by simpa [view] using hs) htm
      · exact hok.timeout
      · exact hok.stack
      · exact .inr (.inr hm)
      · intro hfree
        cases hm.symm.trans hfree
      · exact fun r hr => absurd (hok.exit r hr) hfrom
      · exact hok.ret
  · simpa [enqueue, Ne.symm ht] using h.idle
  · rintro u t' - (hq | hd)
    · have hu : u ≠ t := by
        rintro rfl
        cases hl.symm.trans hq
      exact .inl ((hlink u hu).trans hq)
    · have hne : t' ≠ t := by
        rintro rfl
        exact hfrom hd
      exact .inr (by simpa [enqueue, hne] using hd)

/-- The view of a waiter that was woken. -/
theorem view_wake {q : WaitQueueRef} (error : Int) (u : Tid) :
    view (enqueue (readyWaiter q t error
        { k with queues := k.queues.delete t }) t) u =
      if u = t then
        { view k t with
          state := .ready
          link := some (.run (k.threads t).priority.toNat)
          ret := error }
      else view k u := by
  have hl : (readyWaiter q t error
      { k with queues := k.queues.delete t }).queues.link t = none := by
    simp [readyWaiter]
  rw [view_enqueue hl]
  by_cases hu : u = t
  · subst hu
    simp [view, readyWaiter]
  · simp [view, readyWaiter, hu]

theorem lifeInv_wake (h : LifeInv s k) {q : WaitQueueRef} {error : Int}
    (hl : k.queues.link t = some (.wait q))
    (hx : ∀ u, q = .exitOf u → (k.threads u).state = .death ∧ 0 ≤ error) :
    LifeInv s (enqueue
      (readyWaiter q t error { k with queues := k.queues.delete t }) t) := by
  have hok := h.ok t
  obtain ⟨hstate, hin⟩ := hok.wait q hl
  have ht : t ≠ idleThread := by
    rintro rfl
    exact not_runnable_blocked (hstate ▸ h.idle)
  have hv := fun u => view_wake (k := k) (t := t) (q := q) error u
  refine h.keep rfl rfl rfl ?_ h.timers ?_ (fun _ => ?_) ?_
  · refine ok_of_view h.ok (t := t) ?_ ?_
    · intro u hu
      rw [hv, if_neg hu]
    · rw [hv, if_pos rfl]
      constructor
      · exact fun _ _ => .inl rfl
      · exact fun _ => by simp
      · exact fun _ _ => .inr (.inl rfl)
      · intro hs
        have hsl := hok.sleep hs
        rw [hstate] at hsl
        cases hsl
      · exact hok.timeout
      · exact hok.stack
      · refine .inr (.inr (hok.listed ?_ ?_))
        · rw [hstate]; simp
        · rw [hstate]; simp
      · intro hfree
        have hall := hok.listed (by rw [hstate]; simp)
          (by rw [hstate]; simp)
        cases hall.symm.trans hfree
      · intro r hr
        cases hstate.symm.trans (hok.exit r hr)
      · intro hj
        obtain ⟨u, hu⟩ := Option.ne_none_iff_exists'.mp hj
        have hq : q = .exitOf u :=
          Option.some.inj
            (hin.symm.trans (hok.stack.blockedIn_of_joining hu))
        exact (hx u hq).2
  · have hne := Ne.symm ht
    simpa [enqueue, readyWaiter, hne] using h.idle
  · intro u
    by_cases hu : u = t
    · subst hu
      simp [enqueue, readyWaiter]
    · simp [enqueue, readyWaiter, hu]
  · -- the thread that is woken waited, so the dead stay dead
    have hdead : ∀ t', (k.threads t').state = .death →
        ((enqueue (readyWaiter q t error k) t).threads t').state
          = .death := by
      intro t' hd
      have hne : t' ≠ t := by
        rintro rfl
        have hs : (view k t').state = .death := hd
        rw [hstate] at hs
        cases hs
      have hvt := congrArg View.state (hv t')
      rw [if_neg hne] at hvt
      exact hvt.trans hd
    rintro u t' hj (hq | hd)
    · by_cases hu : u = t
      · subst hu
        rw [hl] at hq
        have hqt : q = .exitOf t' := by simpa using hq
        exact .inr (hdead t' (hx t' hqt).1)
      · left
        have hvu := congrArg View.link (hv u)
        rw [if_neg hu] at hvu
        exact hvu.trans hq
    · exact .inr (hdead t' hd)

/-- **What the CPU goes to**: the idle thread or the thread at the head of a
    run queue, which is taken off it. -/
theorem view_threadResched (hi : k.queues.link idleThread = none) :
    ∃ new, (threadResched k).current = new ∧ (getNewThread k).1 = new ∧
      (new = idleThread ∨ ∃ p, k.queues.link new = some (.run p)) ∧
      ∀ u, view (threadResched k) u =
        if u = new then { view k new with state := .running, link := none }
        else view k u := by
  -- the idle thread is on no queue that it could be taken off
  have hnew : (getNewThread k).1 = idleThread ∧
        (getNewThread k).2.queues = k.queues ∨
      (∃ p, k.queues.link (getNewThread k).1 = some (.run p)) ∧
        (getNewThread k).2.queues = k.queues.delete (getNewThread k).1 := by
    rw [getNewThread]
    split
    · exact .inl ⟨rfl, rfl⟩
    · rename_i q _
      split
      · exact .inl ⟨rfl, rfl⟩
      · rename_i hcons
        refine .inr ⟨⟨q, ?_⟩, ?_⟩
        · dsimp only
          split_ifs <;> exact k.queues.link_of_items_cons hcons
        · dsimp only
          split_ifs <;> rfl
  refine ⟨(getNewThread k).1, by rw [threadResched_eq], rfl,
    hnew.imp And.left And.left, ?_⟩
  intro u
  rw [threadResched_eq]
  rcases hnew with ⟨heq, hqueues⟩ | ⟨-, hqueues⟩
  · rw [hqueues, heq]
    by_cases hu : u = idleThread
    · subst hu
      simp [view, scheduled, hi]
    · simp [view, hu]
  · rw [hqueues]
    by_cases hu : u = (getNewThread k).1
    · subst hu
      simp [view, scheduled]
    · simp [view, hu]

theorem lifeInv_dispatch (h : LifeInv s k)
    (hi : k.queues.link idleThread = none) :
    LifeInv s (threadResched k) := by
  obtain ⟨new, -, -, hnew, hv⟩ := view_threadResched hi
  have hok := h.ok new
  have hrun : Runnable (k.threads new).state := by
    rcases hnew with rfl | ⟨p, hp⟩
    · exact h.idle
    · exact hok.run p hp
  have hall : k.threadLists.link new = some .all := by
    refine hok.listed ?_ ?_
    · intro hs
      rcases hrun with hr | hr <;> cases hr.symm.trans hs
    · intro hs
      exact not_runnable_death (hs ▸ hrun)
  have hstate : ∀ u, u ≠ new → ((threadResched k).threads u).state
      = (k.threads u).state := by
    intro u hu
    have hvu := congrArg View.state (hv u)
    rwa [if_neg hu] at hvu
  have hself : ((threadResched k).threads new).state = .running := by
    have hvn := congrArg View.state (hv new)
    rwa [if_pos rfl] at hvn
  have htimers : (threadResched k).timerQueue = k.timerQueue := by
    rw [threadResched_eq]
  refine h.keep (by rw [threadResched_eq]) (by rw [threadResched_eq])
    (by rw [threadResched_eq]) ?_ ?_ ?_ (fun _ => ?_) ?_
  · refine ok_of_view h.ok (t := new) ?_ ?_
    · intro u hu
      rw [hv, if_neg hu]
    · rw [hv, if_pos rfl]
      constructor
      · exact fun _ => by simp
      · exact fun _ => by simp
      · exact fun _ _ => .inr (.inr rfl)
      · intro hs
        have hsl : (k.threads new).state = .sleeping := hok.sleep hs
        rcases hrun with hr | hr <;> cases hr.symm.trans hsl
      · exact hok.timeout
      · exact hok.stack
      · exact .inr (.inr hall)
      · intro hfree
        cases hall.symm.trans hfree
      · intro r hr
        have hdead : (k.threads new).state = .death := hok.exit r hr
        exact absurd (hdead ▸ hrun) not_runnable_death
      · exact hok.ret
  · rw [htimers]
    exact h.timers
  · by_cases hu : idleThread = new
    · rw [hu, hself]
      exact .inr rfl
    · rw [hstate _ hu]
      exact h.idle
  · rw [threadResched_eq]
    exact detached_setThread rfl
  · rintro u t' - (hq | hd)
    · have hu : u ≠ new := by
        rintro rfl
        rcases hnew with rfl | ⟨p, hp⟩
        · cases hi.symm.trans hq
        · cases hp.symm.trans hq
      have hvu := congrArg View.link (hv u)
      rw [if_neg hu] at hvu
      exact .inl (hvu.trans hq)
    · have hne : t' ≠ new := by
        rintro rfl
        exact not_runnable_death (hd ▸ hrun)
      exact .inr ((hstate t' hne).trans hd)

/-! ## Moves on the stack of the current thread -/

/-- Stacks that hold no slot that was not held. -/
theorem LifeInv.held_of_fewer (h : LifeInv s k) {frames : Tid → List Frame}
    (hsub : ∀ u t', holding (frames u) = some t' →
      holding (k.frames u) = some t') :
    ∀ u t', holding (frames u) = some t' →
      k.threadLists.link t' = none ∧
        ∀ u', holding (frames u') = some t' → u' = u := by
  intro u t' hu
  obtain ⟨hm, huniq⟩ := h.held u t' (hsub u t' hu)
  exact ⟨hm, fun u' hu' => huniq u' (hsub u' t' hu')⟩

/-- A stack is replaced by one that holds the same slot. -/
theorem LifeInv.held_update (h : LifeInv s k) {fs : List Frame}
    (hold : holding fs = holding (k.frames t)) :
    ∀ u t', holding (Function.update k.frames t fs u) = some t' →
      k.threadLists.link t' = none ∧
        ∀ u', holding (Function.update k.frames t fs u') = some t' →
          u' = u := by
  refine h.held_of_fewer ?_
  intro u t' hu
  by_cases hut : u = t
  · rw [hut, Function.update_self, hold] at hu
    rw [hut]
    exact hu
  · rwa [Function.update_of_ne hut] at hu

/-- A frame that is on a stack once one is replaced, and that the new one
    took over if it has it. -/
theorem mem_of_update {frames : Tid → List Frame} {fs : List Frame}
    {f : Frame} {u : Tid} (hfs : f ∈ fs → f ∈ frames t)
    (hmem : f ∈ Function.update frames t fs u) : f ∈ frames u := by
  by_cases hu : u = t
  · rw [hu, Function.update_self] at hmem
    rw [hu]
    exact hfs hmem
  · rwa [Function.update_of_ne hu] at hmem

theorem joinless_update {frames : Tid → List Frame} {fs : List Frame}
    (hfs : ∀ f ∈ fs, joinFree f = true)
    (h : ∀ u, ∀ f ∈ frames u, joinFree f = true) :
    ∀ u, ∀ f ∈ Function.update frames t fs u, joinFree f = true := by
  intro u
  by_cases hu : u = t
  · rw [hu, Function.update_self]
    exact hfs
  · rw [Function.update_of_ne hu]
    exact h u

/-- A stack is replaced by one that joins a thread on `thread_list` that
    nobody joins, or nobody. -/
theorem LifeInv.once_update (h : LifeInv s k) {fs : List Frame}
    (hfs : ∀ t', joining fs = some t' → s.once →
      k.threadLists.link t' = some .all ∧
        ∀ u, joining (k.frames u) ≠ some t') :
    s.once → ∀ u t', joining (Function.update k.frames t fs u) = some t' →
      k.threadLists.link t' = some .all ∧
        ∀ u', joining (Function.update k.frames t fs u') = some t' →
          u' = u := by
  intro ho u t' hu
  by_cases hut : u = t
  · rw [hut, Function.update_self] at hu
    obtain ⟨hm, hnone⟩ := hfs t' hu ho
    refine ⟨hm, ?_⟩
    intro u' hu'
    by_contra hne
    rw [Function.update_of_ne (fun he => hne (he.trans hut.symm))] at hu'
    exact hnone u' hu'
  · rw [Function.update_of_ne hut] at hu
    obtain ⟨hm, huniq⟩ := h.once ho u t' hu
    refine ⟨hm, ?_⟩
    intro u' hu'
    by_cases hut' : u' = t
    · rw [hut', Function.update_self] at hu'
      exact absurd hu ((hfs t' hu' ho).2 u)
    · rw [Function.update_of_ne hut'] at hu'
      exact huniq u' hu'

/-- The current thread leaves or enters calls that hold nothing and join
    nobody. -/
theorem lifeInv_setFrames (h : LifeInv s k) {fs : List Frame}
    (hfrom : blockedIn (k.frames t) = none) (hok : FramesOk fs)
    (hto : blockedIn fs = none) (hold : holding fs = holding (k.frames t))
    (hexit : ∀ r, Frame.afterResched .exit r ∈ fs →
      (k.threads t).state = .death)
    (hj : s.joinless → ∀ f ∈ fs, joinFree f = true) :
    LifeInv s { k with frames := Function.update k.frames t fs } := by
  have hnone := hok.joining_eq_none hto
  constructor
  · refine ok_of_view h.ok (t := t) ?_ ?_
    · intro u hu
      simp [view, hu]
    · have hv : view { k with frames := Function.update k.frames t fs } t
          = { view k t with frames := fs } := by
        simp [view]
      rw [hv]
      exact (h.ok t).restack hfrom hok hto hexit
  · exact h.held_update hold
  · exact h.timers
  · exact h.idle
  · intro u t' w l hmem
    have hfs : Frame.threadJoin t' w l ∉ fs := by
      intro hmem'
      have hj := (joining_eq_some_iff hok).mpr ⟨w, l, hmem'⟩
      cases hnone.symm.trans hj
    exact h.joins u t' w l (mem_of_update (fun hin => absurd hin hfs) hmem)
  · exact fun hs => joinless_update (hj hs) (h.joinless hs)
  · exact h.undetached
  · exact h.once_update (fun t' ht' => by cases hnone.symm.trans ht')

/-- What a thread may find below its call of `wait_queue_block`. -/
theorem framesOk_of_below {q : WaitQueueRef} {below : List Frame}
    {timeout : Time} (hb : Below s k q timeout below) (call : Nat) :
    FramesOk (.waitQueueBlock q timeout call :: below) ∧
      holding (.waitQueueBlock q timeout call :: below) = none := by
  rcases hb with ⟨n, rfl, rfl⟩ | ⟨t, w, rfl, rfl, -⟩
  · exact ⟨.blocked n timeout call, rfl⟩
  · exact ⟨.inJoin t timeout call w _, rfl⟩

theorem lifeInv_block (h : LifeInv s k) {q : WaitQueueRef} {timeout : Time}
    {below : List Frame} {tq : TimerQueue TimerRef Callback} (hr : Resting k)
    (hc : k.current ≠ idleThread) (hfr : k.frames k.current = [])
    (hb : Below s k q timeout below)
    (ht : timeout = infinitTime ∧ tq = k.timerQueue ∨
      timeout ≠ infinitTime ∧ Armed tq k.timerQueue (.wait k.current)) :
    LifeInv s { blockedOn k q with
      timerQueue := tq
      frames := Function.update k.frames k.current
        (.waitQueueBlock q timeout k.nextCall :: below) } := by
  have hfrom : blockedIn (k.frames k.current) = none := by rw [hfr]; rfl
  have hlink := k.queues.link_addTail (.wait q) k.current hr.unlinked
  obtain ⟨hstack, hheld⟩ := framesOk_of_below hb k.nextCall
  have hall := h.current_listed hr
  -- the call arms its own timer or none
  have hsl : TimerRef.sleep k.current ∉ tq.queue := by
    rcases ht with ⟨-, rfl⟩ | ⟨-, ht⟩
    · exact h.current_not_sleeping hr
    · rw [ht.queue]
      simpa using h.current_not_sleeping hr
  have hothers : ∀ u, u ≠ k.current →
      (TimerRef.sleep u ∈ tq.queue ↔
        TimerRef.sleep u ∈ k.timerQueue.queue) ∧
      (TimerRef.wait u ∈ tq.queue ↔ TimerRef.wait u ∈ k.timerQueue.queue) := by
    intro u hu
    rcases ht with ⟨-, rfl⟩ | ⟨-, ht⟩
    · exact ⟨Iff.rfl, Iff.rfl⟩
    · rw [ht.queue, ht.queue]
      simp [hu]
  constructor
  · refine ok_of_view h.ok (t := k.current) ?_ ?_
    · intro u hu
      obtain ⟨h1, h2⟩ := hothers u hu
      simp [view, blockedOn, hlink, hu, h1, h2]
    · have hok := h.ok k.current
      constructor
      · intro p hp
        simp [view, blockedOn, hlink] at hp
      · intro q' hq'
        have heq : q = q' := by
          simpa [view, blockedOn, hlink] using hq'
        subst heq
        refine ⟨?_, ?_⟩
        · simp [view, blockedOn]
        · simp [view, blockedIn]
      · intro q' hq'
        have heq : q = q' := by simpa [view, blockedIn] using hq'
        subst heq
        left
        simp [view, blockedOn, hlink]
      · intro hs
        exact absurd (by simpa [view] using hs) hsl
      · intro hw
        refine ⟨q, timeout, k.nextCall, below, ?_, ?_⟩
        · simp [view]
        · rcases ht with ⟨-, rfl⟩ | ⟨hne, -⟩
          · exact absurd (by simpa [view] using hw) (h.not_waiting hfrom)
          · exact hne
      · simpa [view] using hstack
      · exact .inr (.inr hall)
      · intro hfree
        cases hall.symm.trans hfree
      · intro r hx
        have hbelow : Frame.afterResched .exit r ∈ below := by
          simpa [view] using hx
        rcases hb with ⟨n, -, rfl⟩ | ⟨t1, w1, -, rfl, -⟩
        · cases hbelow
        · cases List.mem_singleton.mp hbelow
      · intro _
        simp [view, blockedOn, noErr]
  · refine h.held_update ?_
    rw [hheld, hfr]
    rfl
  · rcases ht with ⟨-, rfl⟩ | ⟨-, ht⟩
    · exact h.timers
    · exact callback_of_armed ht h.timers
  · simpa [blockedOn, Ne.symm hc] using h.idle
  · intro u t' w l hmem
    dsimp only at hmem
    by_cases hu : u = k.current
    · subst hu
      rw [Function.update_self] at hmem
      have hmem' : Frame.threadJoin t' w l ∈ below :=
        (List.mem_cons.mp hmem).resolve_left (by simp)
      rcases hb with ⟨n, -, rfl⟩ | ⟨t1, w1, rfl, rfl, -, hm1, hpos, -⟩
      · cases hmem'
      · cases List.mem_singleton.mp hmem'
        refine ⟨?_, rfl, hpos, .inl ?_⟩
        · exact fun hn => by cases hm1.symm.trans hn
        · simp [blockedOn, hlink]
    · rw [Function.update_of_ne hu] at hmem
      obtain ⟨hne, hl, hpos, hor⟩ := h.joins u t' w l hmem
      refine ⟨hne, hl, hpos, hor.imp ?_ ?_⟩
      · intro hq
        simpa [blockedOn, hlink, hu] using hq
      · intro hd
        have ht' : t' ≠ k.current := by
          rintro rfl
          cases hr.running.symm.trans hd
        simpa [blockedOn, ht'] using hd
  · intro hs
    refine joinless_update ?_ (h.joinless hs)
    rcases hb with ⟨n, -, rfl⟩ | ⟨t1, w1, -, -, hno, -⟩
    · simp [joinFree]
    · exact absurd hs hno
  · intro ho u hu
    have hdet := h.undetached ho u hu
    by_cases huc : u = k.current
    · subst huc
      simpa [blockedOn] using hdet
    · simpa [blockedOn, huc] using hdet
  · refine h.once_update ?_
    intro t' hj ho
    rcases hb with ⟨n, -, rfl⟩ | ⟨t1, w1, rfl, rfl, -, hm1, -, -, huniq⟩
    · simp [joining, joinedSlot] at hj
    · have ht1 : t1 = t' := by
        simpa [joining, joinedSlot, List.findSome?_cons] using hj
      subst ht1
      exact ⟨hm1, (huniq ho).2⟩

theorem lifeInv_returns (h : LifeInv s k) {q : WaitQueueRef} {timeout : Time}
    {call : Nat} {below : List Frame} (hr : Resting k)
    (hfr : k.frames k.current = .waitQueueBlock q timeout call :: below) :
    LifeInv s { k with
      timerQueue :=
        if timeout ≠ infinitTime then
          timerCancel (.wait k.current) k.timerQueue
        else k.timerQueue
      frames := Function.update k.frames k.current [] } := by
  have hok := h.ok k.current
  generalize htq : (if timeout ≠ infinitTime then
    timerCancel (.wait k.current) k.timerQueue else k.timerQueue) = tq
  -- the timer of the call is not armed any more, the others are as before
  have hmem : ∀ r, r ∈ tq.queue ↔
      r ≠ .wait k.current ∧ r ∈ k.timerQueue.queue := by
    intro r
    by_cases hinf : timeout ≠ infinitTime
    · rw [← htq, if_pos hinf]
      exact mem_timerCancel
    · rw [← htq, if_neg hinf]
      refine ⟨fun hmem => ⟨?_, hmem⟩, fun hmem => hmem.2⟩
      rintro rfl
      obtain ⟨q', delay, call', rest, heq, hne⟩ :=
        hok.timeout (by simpa [view] using hmem)
      cases hfr.symm.trans heq
      exact hinf hne
  have htimers : ∀ r ∈ tq.queue, tq.timers r = k.timerQueue.timers r := by
    intro r hmr
    by_cases hinf : timeout ≠ infinitTime
    · rw [← htq, if_pos hinf]
      exact timers_timerCancel_of_ne ((hmem r).mp hmr).1
    · rw [← htq, if_neg hinf]
  have hheld : holding (k.frames k.current) = none := by
    have hst := hok.stack
    change FramesOk (k.frames k.current) at hst
    rw [hfr] at hst ⊢
    cases hst with
    | plain hp => cases hp.1
    | blocked n _ _ => rfl
    | inJoin t _ _ w l => rfl
  constructor
  · refine ok_of_view h.ok (t := k.current) ?_ ?_
    · intro u hu
      simp [view, hu, hmem]
    · refine { hok with
        wait := ?_, call := ?_, sleep := ?_, timeout := ?_, stack := ?_
        exit := ?_, ret := ?_ }
      · intro q' hq'
        cases hr.unlinked.symm.trans hq'
      · intro q' hq'
        simp [view, blockedIn] at hq'
      · intro hs
        exact hok.sleep (by simpa [view, hmem] using hs)
      · intro hw
        simp [view, hmem] at hw
      · simpa [view] using FramesOk.nil
      · intro r hx
        simp [view] at hx
      · intro hj
        simp [view, joining] at hj
  · refine h.held_update ?_
    rw [hheld]
    rfl
  · intro r hmr
    dsimp only at hmr ⊢
    rw [htimers r hmr]
    exact h.timers r ((hmem r).mp hmr).2
  · exact h.idle
  · intro u t' w l hmem'
    exact h.joins u t' w l (mem_of_update (by simp) hmem')
  · exact fun hs => joinless_update (by simp) (h.joinless hs)
  · exact h.undetached
  · exact h.once_update (fun t' ht' => by cases ht')

/-! ## Moves on the thread lists -/

theorem lifeInv_take (h : LifeInv s k) {p : Int} (hr : Resting k)
    (hf : k.threadLists.link t = some .free)
    (hfr : k.frames k.current = [.getFreeThreadNode p])
    (hj : ∀ u, joining (k.frames u) ≠ some t) :
    LifeInv s { k with
      threadLists := k.threadLists.delete t
      lifetime := Function.update k.lifetime t (k.lifetime t + 1)
      frames := Function.update k.frames k.current [.initThread t p] } := by
  have htc : t ≠ k.current := by
    rintro rfl
    cases (h.current_listed hr).symm.trans hf
  have hfrom : blockedIn (k.frames k.current) = none := by rw [hfr]; rfl
  constructor
  · refine ok_of_two_views (t := t) (c := k.current) h.ok ?_ ?_ ?_
    · intro u hu huc
      simp [view, hu, huc]
    · have hv : view { k with
            threadLists := k.threadLists.delete t
            lifetime := Function.update k.lifetime t (k.lifetime t + 1)
            frames := Function.update k.frames k.current [.initThread t p] }
            t =
          { view k t with member := none, lifetime := k.lifetime t + 1 } := by
        simp [view, htc]
      rw [hv]
      refine { h.ok t with member := ?_, free := by simp }
      rcases (h.ok t).member with hs | hd | hall
      · exact .inl hs
      · exact .inr (.inl hd)
      · cases hf.symm.trans hall
    · have hv : view { k with
            threadLists := k.threadLists.delete t
            lifetime := Function.update k.lifetime t (k.lifetime t + 1)
            frames := Function.update k.frames k.current [.initThread t p] }
            k.current =
          { view k k.current with frames := [.initThread t p] } := by
        simp [view, Ne.symm htc]
      rw [hv]
      exact (h.ok k.current).restack hfrom (.plain ⟨rfl, rfl⟩) rfl (by simp)
  · -- the slot was on the free list, so nobody held it
    have hnot : ∀ u, holding (k.frames u) ≠ some t := by
      intro u hu
      cases hf.symm.trans (h.held u t hu).1
    intro u t' hu
    dsimp only at hu ⊢
    by_cases huc : u = k.current
    · subst huc
      rw [Function.update_self] at hu
      have ht' : t = t' := by simpa [holding, heldSlot] using hu
      subst ht'
      refine ⟨by simp, ?_⟩
      intro u' hu'
      by_contra hne
      rw [Function.update_of_ne hne] at hu'
      exact hnot u' hu'
    · rw [Function.update_of_ne huc] at hu
      obtain ⟨hm, huniq⟩ := h.held u t' hu
      have ht' : t' ≠ t := by
        rintro rfl
        exact hnot u hu
      refine ⟨by simpa [ht'] using hm, ?_⟩
      intro u' hu'
      by_cases huc' : u' = k.current
      · rw [huc', Function.update_self] at hu'
        have heq : t = t' := by simpa [holding, heldSlot] using hu'
        exact absurd heq.symm ht'
      · rw [Function.update_of_ne huc'] at hu'
        exact huniq u' hu'
  · exact h.timers
  · exact h.idle
  · intro u t' w l hmem
    dsimp only
    have hmem' := mem_of_update (by simp) hmem
    obtain ⟨hne, hl, hpos, hor⟩ := h.joins u t' w l hmem'
    have ht' : t' ≠ t := by
      rintro rfl
      exact hj u ((joining_eq_some_iff (h.ok u).stack).mpr ⟨w, l, hmem'⟩)
    refine ⟨by simpa [ht'] using hne, ?_, hpos, hor⟩
    rw [Function.update_of_ne ht']
    exact hl
  · exact fun hs => joinless_update (by simp [joinFree]) (h.joinless hs)
  · exact h.undetached
  · intro ho u t' hu
    have hnone : ∀ x, joining [Frame.initThread t p] ≠ some x := by rintro _ ⟨⟩
    obtain ⟨hm, huniq⟩ :=
      h.once_update (fun x hx => absurd hx (hnone x)) ho u t' hu
    refine ⟨?_, huniq⟩
    have ht' : t' ≠ t := by
      rintro rfl
      cases hf.symm.trans hm
    simpa [ht'] using hm

/-- A slot on no list is SUSPENDED or DEATH, so nothing of its last life is
    under way. -/
theorem LifeInv.unlisted (h : LifeInv s k)
    (hm : k.threadLists.link t = none) (hl : k.queues.link t = none) :
    (view k t).state ≠ .sleeping ∧ blockedIn (k.frames t) = none := by
  have hdead : (view k t).state = .suspended ∨ (view k t).state = .death := by
    rcases (h.ok t).member with hs | hd | hall
    · exact .inl hs
    · exact .inr hd
    · cases hm.symm.trans hall
  have hnr : ¬ Runnable (view k t).state := by
    rintro (hr | hr) <;> rcases hdead with hs | hs <;>
      cases hr.symm.trans hs
  refine ⟨?_, (h.ok t).not_blockedIn hnr ?_⟩
  · intro hs'
    rcases hdead with hs | hs <;> cases hs'.symm.trans hs
  · intro q hq
    cases hl.symm.trans hq

theorem lifeInv_wipe (h : LifeInv s k) {p : Int}
    (hfr : k.frames k.current = [.initThread t p])
    (hm : k.threadLists.link t = none) (hl : k.queues.link t = none)
    (htc : t ≠ k.current) (ht : t ≠ idleThread) :
    LifeInv s { k with
      threads := Function.update k.threads t
        { Thread.zero with priority := p }
      waitCount := Function.update k.waitCount (.exitOf t) 0
      frames := Function.update (Function.update k.frames t
        [.initialThreadFunc]) k.current [.linkThread t] } := by
  have hfrom : blockedIn (k.frames k.current) = none := by rw [hfr]; rfl
  obtain ⟨hns, hnb⟩ := h.unlisted hm hl
  -- the maker goes on with the slot, which is a thread that has not run
  have hframes : ∀ u, Function.update (Function.update k.frames t
      [.initialThreadFunc]) k.current [.linkThread t] u =
        if u = k.current then [.linkThread t]
        else if u = t then [.initialThreadFunc] else k.frames u := by
    intro u
    rw [Function.update_apply, Function.update_apply]
  constructor
  · refine ok_of_two_views (t := t) (c := k.current) h.ok ?_ ?_ ?_
    · intro u hu huc
      simp [view, hu, huc]
    · have hv : view { k with
            threads := Function.update k.threads t
              { Thread.zero with priority := p }
            waitCount := Function.update k.waitCount (.exitOf t) 0
            frames := Function.update (Function.update k.frames t
              [.initialThreadFunc]) k.current [.linkThread t] } t =
          { view k t with
            state := .suspended, frames := [.initialThreadFunc]
            ret := 0 } := by
        simp [view, htc, Thread.zero]
      rw [hv]
      constructor
      · intro q hq
        cases hl.symm.trans hq
      · intro q hq
        cases hl.symm.trans hq
      · exact fun _ => by rintro ⟨⟩
      · intro hs
        cases ((h.ok t).not_sleeping hns).symm.trans hs
      · intro hw
        cases ((h.ok t).not_waiting hnb).symm.trans hw
      · exact .plain ⟨rfl, rfl⟩
      · exact .inl rfl
      · intro hfree
        cases hm.symm.trans hfree
      · exact fun r hx => by cases List.mem_singleton.mp hx
      · exact fun _ => Int.le_refl _
    · have hv : view { k with
            threads := Function.update k.threads t
              { Thread.zero with priority := p }
            waitCount := Function.update k.waitCount (.exitOf t) 0
            frames := Function.update (Function.update k.frames t
              [.initialThreadFunc]) k.current [.linkThread t] } k.current =
          { view k k.current with frames := [.linkThread t] } := by
        simp [view, Ne.symm htc]
      rw [hv]
      exact (h.ok k.current).restack hfrom (.plain ⟨rfl, rfl⟩) rfl (by simp)
  · refine h.held_of_fewer ?_
    intro u t' hu
    dsimp only at hu
    rw [hframes] at hu
    by_cases huc : u = k.current
    · rw [if_pos huc] at hu
      rw [huc, hfr]
      exact hu
    · rw [if_neg huc] at hu
      by_cases hut : u = t
      · rw [if_pos hut] at hu
        cases hu
      · rwa [if_neg hut] at hu
  · exact h.timers
  · simpa [Ne.symm ht] using h.idle
  · intro u t' w l hmem
    have hmem' := mem_of_update (by simp)
      (mem_of_update (by simp) hmem)
    obtain ⟨hne, hlt, hpos, hor⟩ := h.joins u t' w l hmem'
    have ht' : t' ≠ t := by
      rintro rfl
      exact hne hm
    exact ⟨hne, hlt, hpos, by simpa [ht'] using hor⟩
  · intro hs
    exact joinless_update (by simp [joinFree])
      (joinless_update (by simp [joinFree]) (h.joinless hs))
  · intro ho u hu
    by_cases hut : u = t
    · subst hut
      simp [Thread.zero]
    · simpa [hut] using h.undetached ho u hu
  · have hold : ∀ u t', joining (Function.update (Function.update k.frames t
        [.initialThreadFunc]) k.current [.linkThread t] u) = some t' →
        joining (k.frames u) = some t' := by
      intro u t' hu
      rw [hframes] at hu
      split_ifs at hu
      · cases hu
      · cases hu
      · exact hu
    intro ho u t' hu
    obtain ⟨hm', huniq⟩ := h.once ho u t' (hold u t' hu)
    exact ⟨hm', fun u' hu' => huniq u' (hold u' t' hu')⟩

theorem lifeInv_publish (h : LifeInv s k) (hr : Resting k)
    (hfr : k.frames k.current = [.linkThread t])
    (hm : k.threadLists.link t = none) :
    LifeInv s { k with
      threadLists := k.threadLists.addTail .all t
      frames := Function.update k.frames k.current [] } := by
  have hlink := k.threadLists.link_addTail .all t hm
  have htc : t ≠ k.current := by
    rintro rfl
    cases (h.current_listed hr).symm.trans hm
  have hfrom : blockedIn (k.frames k.current) = none := by rw [hfr]; rfl
  constructor
  · refine ok_of_two_views (t := t) (c := k.current) h.ok ?_ ?_ ?_
    · intro u hu huc
      simp [view, hu, huc, hlink]
    · have hv : view { k with
            threadLists := k.threadLists.addTail .all t
            frames := Function.update k.frames k.current [] } t =
          { view k t with member := some .all } := by
        simp [view, htc, hlink]
      rw [hv]
      exact { h.ok t with member := .inr (.inr rfl), free := by simp }
    · have hv : view { k with
            threadLists := k.threadLists.addTail .all t
            frames := Function.update k.frames k.current [] } k.current =
          { view k k.current with frames := [] } := by
        simp [view, Ne.symm htc, hlink]
      rw [hv]
      exact (h.ok k.current).restack hfrom .nil rfl (by simp)
  · -- only the current thread held the slot
    have hmine : holding (k.frames k.current) = some t := by rw [hfr]; rfl
    have huniq := (h.held k.current t hmine).2
    have hold : ∀ u t', holding (Function.update k.frames k.current [] u)
        = some t' → u ≠ k.current ∧ holding (k.frames u) = some t' := by
      intro u t' hu
      by_cases huc : u = k.current
      · rw [huc, Function.update_self] at hu
        cases hu
      · rw [Function.update_of_ne huc] at hu
        exact ⟨huc, hu⟩
    intro u t' hu
    obtain ⟨huc, hu'⟩ := hold u t' hu
    have ht' : t' ≠ t := by
      rintro rfl
      exact huc (huniq u hu')
    obtain ⟨hm', huniq'⟩ := h.held u t' hu'
    refine ⟨?_, fun u' hu'' => huniq' u' (hold u' t' hu'').2⟩
    dsimp only
    rw [hlink, Function.update_of_ne ht']
    exact hm'
  · exact h.timers
  · exact h.idle
  · intro u t' w l hmem
    dsimp only
    obtain ⟨hne, hl, hpos, hor⟩ :=
      h.joins u t' w l (mem_of_update (by simp) hmem)
    refine ⟨?_, hl, hpos, hor⟩
    have ht' : t' ≠ t := by
      rintro rfl
      exact hne hm
    rw [hlink, Function.update_of_ne ht']
    exact hne
  · exact fun hs => joinless_update (by simp) (h.joinless hs)
  · exact h.undetached
  · intro ho u t' hu
    have hnone : ∀ x, joining [] ≠ some x := by rintro _ ⟨⟩
    obtain ⟨hm', huniq⟩ :=
      h.once_update (fun x hx => absurd hx (hnone x)) ho u t' hu
    refine ⟨?_, huniq⟩
    have ht' : t' ≠ t := by
      rintro rfl
      cases hm.symm.trans hm'
    dsimp only
    rw [hlink, Function.update_of_ne ht']
    exact hm'

theorem lifeInv_reclaim (h : LifeInv s k) (hm : k.threadLists.link t ≠ none)
    (hd : (k.threads t).state = .death)
    (ho : s.once → k.threadLists.link t = some .all ∧
      ∀ u, joining (k.frames u) ≠ some t) :
    LifeInv s { k with
      threadLists := (k.threadLists.delete t).addTail .free t } := by
  have hnone : (k.threadLists.delete t).link t = none := by simp
  have hlink : ((k.threadLists.delete t).addTail .free t).link
      = Function.update k.threadLists.link t (some .free) := by
    rw [NodeLists.link_addTail _ _ _ hnone, NodeLists.link_delete,
      Function.update_idem]
  constructor
  · refine ok_of_view h.ok (t := t) ?_ ?_
    · intro u hu
      simp [view, hlink, hu]
    · exact { h.ok t with
        member := .inr (.inl hd), free := fun _ => .inl hd }
  · intro u t' hu
    obtain ⟨hm', huniq⟩ := h.held u t' hu
    have ht' : t' ≠ t := by
      rintro rfl
      exact hm hm'
    refine ⟨?_, huniq⟩
    dsimp only
    rw [hlink, Function.update_of_ne ht']
    exact hm'
  · exact h.timers
  · exact h.idle
  · intro u t' w l hmem
    obtain ⟨hne, hl, hpos, hor⟩ := h.joins u t' w l hmem
    refine ⟨?_, hl, hpos, hor⟩
    dsimp only
    rw [hlink]
    by_cases ht' : t' = t
    · subst ht'
      simp
    · rw [Function.update_of_ne ht']
      exact hne
  · exact h.joinless
  · exact h.undetached
  · intro hs u t' hu
    obtain ⟨hm', huniq⟩ := h.once hs u t' hu
    refine ⟨?_, huniq⟩
    have ht' : t' ≠ t := by
      rintro rfl
      exact (ho hs).2 u hu
    dsimp only
    rw [hlink, Function.update_of_ne ht']
    exact hm'

/-! ## Sequences of moves -/

/-- **Every move keeps the lives in order.** -/
theorem lifeInv_move (h : LifeInv s k) (hm : Move s k k') : LifeInv s k' := by
  cases hm with
  | clock p n =>
      exact h.keep rfl rfl rfl h.ok h.timers h.idle (fun _ _ => rfl)
        (fun _ _ _ => id)
  | expire => exact lifeInv_expire h
  | preempted => exact h.emit _
  | retouch t f hf => exact lifeInv_retouch h hf
  | setFrames fs hfrom hok hto hold hexit hj hlink =>
      exact lifeInv_setFrames h hfrom hok hto hold hexit hj
  | pause f st hf hr hb hst => exact lifeInv_pause h hf hr hb hst
  | sleep tq hr hc hb ht => exact lifeInv_sleep h hr hc hb ht
  | die retcode hr hc hfr => exact (lifeInv_die h retcode hr hc hfr).emit _
  | enlist t f st hf ht hl hst hfrom htm hm =>
      have hrun : Runnable st := hst.imp id And.right
      exact lifeInv_enlist h hf ht hl hrun hfrom htm hm
  | wake q t error hl hq hx hcode => exact lifeInv_wake h hl hx
  | block q timeout below tq hr hc hfr hb ht =>
      exact lifeInv_block h hr hc hfr hb ht
  | returns q timeout call below hr hfr =>
      exact (lifeInv_returns h hr hfr).emit _
  | take t p hr hf hfr hj => exact lifeInv_take h hr hf hfr hj
  | wipe t p hfr hm hl hc ht => exact lifeInv_wipe h hfr hm hl hc ht
  | publish t hr hfr hm => exact (lifeInv_publish h hr hfr hm).emit _
  | reclaim t entitled hm hd hl ho =>
      exact (lifeInv_reclaim h hm hd ho).emit _
  | joined t lifetime ret w stored hs h' => exact h.emit _
  | dispatch hb hi hl hs => exact lifeInv_dispatch h hi

theorem lifeInv_moves (h : LifeInv s k) (hm : Moves s k k') :
    LifeInv s k' := by
  induction hm with
  | refl => exact h
  | tail _ hm ih => exact lifeInv_move ih hm

end ChinixLifeInvariant

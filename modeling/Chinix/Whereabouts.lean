import Chinix.Simulation

/-! # Where the threads are

    A join that times out reaps a thread that lives, so the lists of threads
    say little about the lives of their members.  What the state of a thread,
    the queue it is on, its stack and its timers say of each other does not
    depend on them: `Placed` gathers it for one thread and `Settled` for all.
    A `Watch` adds what a run is watched for: threads that are to stay dead
    and stacks that are to stay as they are. -/

namespace ChinixWhereabouts

open ChinixTimerQueue ChinixPlatformTimer ChinixKernel ChinixRunQueue
open ChinixWaitQueue ChinixThread ChinixMachine ChinixQueueInvariant
open ChinixQueueRuns ChinixLifecycle ChinixMoves ChinixLifeInvariant
open ChinixSimulation Outcome

/-- The threads that are to stay dead and to be spared by the events from
    number `since` on, and the stacks that are to stay as they are. -/
structure Watch where
  dead : Tid → Prop
  since : Nat
  stack : Tid → Option (List Frame)

/-- Any fault but the panic at the end of `thread_exit`. -/
def Survivable (e : Fault) : Prop := e ≠ .fellThroughExit

/-- No thread is watched. -/
def Watch.nobody : Watch := ⟨fun _ => False, 0, fun _ => none⟩

/-- The event is no dispatch that chooses the thread or finds it queued. -/
def Spares (t : Tid) : Event → Prop
  | .rescheduled new _ queued => t ≠ new ∧ ∀ u ∈ queued, t ≠ u.1
  | _ => True

/-- What is known of a thread; `cur` allows it to be the one that runs. -/
structure Placed (w : Watch) (cur : Prop) (t : Tid) (v : View) : Prop where
  current : cur → v.state = .running ∧ v.link = none
  run : ∀ p, v.link = some (.run p) → Runnable v.state
  wait : ∀ q, v.link = some (.wait q) → v.state = .blocked
  stack : FramesOk v.frames
  call : blockedIn v.frames ≠ none →
    v.state = .blocked ∨ v.state = .ready ∨ cur
  sleep : v.sleeping = true → v.state = .sleeping
  asleep : v.state = .sleeping → v.frames = [.afterResched .sleep 0]
  timeout : v.waiting = true → ∃ q delay call rest,
    v.frames = .waitQueueBlock q delay call :: rest ∧ delay ≠ infinitTime
  exit : ∀ r, Frame.afterResched .exit r ∈ v.frames → v.state = .death
  unborn : t ≠ idleThread → v.lifetime = 0 → v.state = .suspended
  idle : t = idleThread → Runnable v.state ∧ v.link = none
  dead : w.dead t → v.state = .death
  kept : ∀ fs, w.stack t = some fs →
    v.frames = fs ∧ v.state ≠ .suspended ∧ (v.state = .death → w.dead t)

/-- A slot that can be made into a thread: it is on no list of threads. -/
structure Blank (w : Watch) (t : Tid) (v : View) : Prop where
  member : v.member = none
  state : v.state = .suspended ∨ v.state = .death ∧ ¬ w.dead t

/-- What is known of all threads; `c` is the one that runs, if any does. -/
structure Settled (w : Watch) (c : Option Tid) (k : Kernel) : Prop where
  placed : ∀ t, Placed w (c = some t) t (view k t)
  held : ∀ u t, holding (k.frames u) = some t →
    Blank w t (view k t) ∧ ∀ u', holding (k.frames u') = some t → u' = u
  timers : ∀ r ∈ k.timerQueue.queue,
    (k.timerQueue.timers r).callback = some (handler r)
  quiet : ∀ e ∈ k.log.drop w.since, ∀ t, w.dead t → Spares t e

/-- What is known between two steps. -/
abbrev Between (w : Watch) (k : Kernel) : Prop := Settled w (some k.current) k

variable {w : Watch} {c : Option Tid} {k k' : Kernel} {t : Tid} {cur : Prop}

/-! ## One thread -/

namespace Placed

variable {v : View}

theorem not_sleeping (h : Placed w cur t v) (hs : v.state ≠ .sleeping) :
    v.sleeping = false := by
  cases hv : v.sleeping with
  | false => rfl
  | true => exact absurd (h.sleep hv) hs

theorem not_waiting (h : Placed w cur t v) (hb : blockedIn v.frames = none) :
    v.waiting = false := by
  cases hv : v.waiting with
  | false => rfl
  | true =>
      obtain ⟨q, delay, call, rest, heq, -⟩ := h.timeout hv
      rw [heq] at hb
      cases hb

/-- A slot that can be made into a thread is not watched. -/
theorem unwatched (h : Placed w cur t v) (hb : Blank w t v) :
    w.stack t = none := by
  cases hs : w.stack t with
  | none => rfl
  | some fs =>
      obtain ⟨-, hsusp, hdead⟩ := h.kept fs hs
      rcases hb.state with hst | ⟨hst, hno⟩
      · exact absurd hst hsusp
      · exact absurd (hdead hst) hno

/-- A thread in no blocking call may as well not run. -/
theorem relax (h : Placed w cur t v) (hb : blockedIn v.frames = none) :
    Placed w False t v :=
  { h with
    current := False.elim
    call := fun hne => absurd hb hne }

end Placed

/-! ## All threads -/

/-- A slot that is about to become a thread is suspended or dead, and on no
    list of threads. -/
theorem Settled.not_held (h : Settled w c k)
    (ht : k.threadLists.link t ≠ none ∨
      (k.threads t).state ≠ .suspended ∧ (k.threads t).state ≠ .death)
    (u : Tid) : holding (k.frames u) ≠ some t := by
  intro hu
  have hblank := (h.held u t hu).1
  rcases ht with hm | ⟨hs, hd⟩
  · exact hm hblank.member
  · rcases hblank.state with hst | ⟨hst, -⟩
    · exact hs hst
    · exact hd hst

/-- Nobody runs. -/
theorem Settled.relax (h : Settled w (some t) k)
    (hb : blockedIn (k.frames t) = none) : Settled w none k := by
  refine { h with placed := ?_ }
  intro u
  by_cases hu : u = t
  · subst hu
    exact { (h.placed u).relax hb with
      current := by simp
      call := fun hne => absurd hb hne }
  · have hp := h.placed u
    refine { hp with current := by simp, call := ?_ }
    intro hne
    rcases hp.call hne with hs | hs | hs
    · exact .inl hs
    · exact .inr (.inl hs)
    · exact absurd (Option.some.inj hs).symm hu

/-- Other threads and stacks are watched from now on. -/
theorem Settled.watch (h : Settled w c k) {w' : Watch}
    (hdead : ∀ t, w'.dead t → (k.threads t).state = .death ∧
      ∀ u, holding (k.frames u) ≠ some t)
    (hstack : ∀ t fs, w'.stack t = some fs → k.frames t = fs ∧
      (k.threads t).state ≠ .suspended ∧
      ((k.threads t).state = .death → w'.dead t))
    (hquiet : ∀ e ∈ k.log.drop w'.since, ∀ t, w'.dead t → Spares t e) :
    Settled w' c k where
  placed := by
    intro t
    exact { h.placed t with
      dead := fun hd => (hdead t hd).1
      kept := fun fs hfs => hstack t fs hfs }
  held := by
    intro u t hu
    obtain ⟨hblank, huniq⟩ := h.held u t hu
    refine ⟨⟨hblank.member, ?_⟩, huniq⟩
    rcases hblank.state with hs | ⟨hs, -⟩
    · exact .inl hs
    · exact .inr ⟨hs, fun hd => (hdead t hd).2 u hu⟩
  timers := h.timers
  quiet := hquiet

/-- One thread changes: it holds no slot that it did not hold, and if it is
    itself held, then it is blank as before. -/
theorem Settled.replace (h : Settled w c k) (t : Tid)
    (hv : ∀ u, u ≠ t → view k' u = view k u)
    (hp : Placed w (c = some t) t (view k' t))
    (hhold : ∀ s, holding (k'.frames t) = some s →
      holding (k.frames t) = some s)
    (hheld : (∀ u, holding (k.frames u) ≠ some t) ∨
      (Blank w t (view k t) → Blank w t (view k' t)))
    (htm : ∀ r ∈ k'.timerQueue.queue,
      (k'.timerQueue.timers r).callback = some (handler r))
    (hlog : ∀ e ∈ k'.log.drop w.since, e ∈ k.log.drop w.since ∨
      ∀ t, Spares t e) : Settled w c k' := by
  have hback : ∀ u s, holding (k'.frames u) = some s →
      holding (k.frames u) = some s := by
    intro u s hu
    by_cases ht : u = t
    · subst ht
      exact hhold s hu
    · have hfr : k'.frames u = k.frames u :=
        congrArg View.frames (hv u ht)
      rwa [hfr] at hu
  constructor
  · intro u
    by_cases hu : u = t
    · subst hu
      exact hp
    · rw [hv u hu]
      exact h.placed u
  · intro u s hu
    obtain ⟨hblank, huniq⟩ := h.held u s (hback u s hu)
    refine ⟨?_, fun u' hu' => huniq u' (hback u' s hu')⟩
    by_cases hs : s = t
    · subst hs
      rcases hheld with hno | hkeep
      · exact absurd (hback u s hu) (hno u)
      · exact hkeep hblank
    · rw [hv s hs]
      exact hblank
  · exact htm
  · intro e he t ht
    rcases hlog e he with hold | hnew
    · exact h.quiet e hold t ht
    · exact hnew t

/-- Nothing that the threads know of each other changes. -/
theorem Settled.congr (h : Settled w c k) (hv : ∀ u, view k' u = view k u)
    (htm : k'.timerQueue = k.timerQueue)
    (hlog : ∀ e ∈ k'.log.drop w.since, e ∈ k.log.drop w.since ∨
      ∀ t, Spares t e) : Settled w c k' := by
  have hfr : ∀ u, k'.frames u = k.frames u := fun u =>
    congrArg View.frames (hv u)
  constructor
  · intro u
    rw [hv]
    exact h.placed u
  · intro u t hu
    rw [hfr] at hu
    rw [hv]
    refine ⟨(h.held u t hu).1, ?_⟩
    intro u' hu'
    rw [hfr] at hu'
    exact (h.held u t hu).2 u' hu'
  · rw [htm]
    exact h.timers
  · intro e he t ht
    rcases hlog e he with hold | hnew
    · exact h.quiet e hold t ht
    · exact hnew t

/-- What is in the rest of a log that grew by one event. -/
theorem mem_drop_append_singleton {A : Type} {l : List A} {x e : A} {n : Nat}
    (h : e ∈ (l ++ [x]).drop n) : e ∈ l.drop n ∨ e = x := by
  rw [List.drop_append] at h
  rcases List.mem_append.mp h with hold | hnew
  · exact .inl hold
  · exact .inr (List.mem_singleton.mp (List.mem_of_mem_drop hnew))

theorem Settled.emit (h : Settled w c k) {e : Event}
    (he : ∀ t, Spares t e) : Settled w c (k.emit e) := by
  refine h.congr (fun _ => rfl) rfl ?_
  intro e' he'
  refine (mem_drop_append_singleton he').imp id ?_
  rintro rfl
  exact he

/-- The fields of a slot that matter to nobody else change. -/
theorem Settled.setThread (h : Settled w c k) {f : Thread → Thread}
    (hs : (f (k.threads t)).state = (k.threads t).state) :
    Settled w c (k.setThread t f) := by
  refine h.replace t ?_ ?_ (fun _ => id) (.inr ?_) h.timers
    (fun _ => .inl)
  · intro u hu
    rw [view_setThread, if_neg hu]
  · rw [view_setThread, if_pos rfl, hs]
    exact { h.placed t with }
  · rw [view_setThread, if_pos rfl, hs]
    exact fun hb => ⟨hb.member, hb.state⟩

/-! ## Going on a run queue -/

/-- A thread becomes READY. -/
theorem Placed.ready {v : View} (h : Placed w cur t v) (hc : ¬ cur)
    (hd : v.state ≠ .death) (hsl : v.sleeping = false)
    (hlife : v.state = .suspended → v.lifetime ≠ 0) {l : Option QueueRef}
    (hl : ∀ q, l ≠ some (.wait q)) (hi : t = idleThread → l = none)
    (r : Int) : Placed w cur t { v with state := .ready, link := l, ret := r } where
  current := fun hcur => absurd hcur hc
  run := fun _ _ => .inl rfl
  wait := fun q hq => absurd hq (hl q)
  stack := h.stack
  call := fun _ => .inr (.inl rfl)
  sleep := fun hs => Bool.noConfusion (hsl.symm.trans hs)
  asleep := by simp
  timeout := h.timeout
  exit := fun r hr => absurd (h.exit r hr) hd
  unborn := fun ht h0 => absurd h0 (hlife (h.unborn ht h0))
  idle := fun ht => ⟨.inl rfl, hi ht⟩
  dead := fun ht => absurd (h.dead ht) hd
  kept := fun fs hfs => ⟨(h.kept fs hfs).1, by simp, by simp⟩

/-- A thread becomes READY that does not run. -/
theorem Settled.ready (h : Settled w c k) {f : Thread → Thread}
    (hf : (f (k.threads t)).state = .ready) (hc : c ≠ some t)
    (hd : (k.threads t).state ≠ .death)
    (hsl : TimerRef.sleep t ∉ k.timerQueue.queue)
    (hl : ∀ q, k.queues.link t ≠ some (.wait q))
    (hs : (k.threads t).state = .suspended →
      k.lifetime t ≠ 0 ∧ k.threadLists.link t ≠ none) :
    Settled w c (k.setThread t f) := by
  have hp := h.placed t
  refine h.replace t ?_ ?_ (fun _ => id) (.inl ?_) h.timers (fun _ => .inl)
  · intro u hu
    rw [view_setThread, if_neg hu]
  · rw [view_setThread, if_pos rfl, hf]
    exact hp.ready hc hd (by simpa [view] using hsl) (fun h0 => (hs h0).1) hl
      (fun hi => (hp.idle hi).2) _
  · refine h.not_held ?_
    by_cases hsusp : (k.threads t).state = .suspended
    · exact .inl (hs hsusp).2
    · exact .inr ⟨hsusp, hd⟩

/-- The thread that runs becomes READY. -/
theorem Settled.readyCurrent (h : Settled w none k) (hr : Resting k)
    {f : Thread → Thread}
    (hf : (f (k.threads k.current)).state = .ready) :
    Settled w none (k.setThread k.current f) := by
  refine h.ready hf (by simp) ?_ ?_ ?_ ?_
  · rw [hr.running]
    simp
  · intro hsl
    have hs : (k.threads k.current).state = .sleeping :=
      (h.placed k.current).sleep (by simpa [view] using hsl)
    cases hr.running.symm.trans hs
  · rw [hr.unlinked]
    exact fun _ => by simp
  · intro hs
    cases hr.running.symm.trans hs

/-- The thread that runs, in no blocking call, is made to run no more. -/
theorem Settled.stop (h : Settled w none k) (hr : Resting k)
    (hc : k.current ≠ idleThread) (hw : w.stack k.current = none)
    (hb : blockedIn (k.frames k.current) = none) {f : Thread → Thread}
    (hf : (f (k.threads k.current)).state ≠ .sleeping) :
    Settled w none (k.setThread k.current f) := by
  have hp := h.placed k.current
  have hrun : Runnable (view k k.current).state := .inr hr.running
  have hsleeping : (view k k.current).state ≠ .sleeping :=
    hrun.ne not_runnable_sleeping
  have hsusp : (view k k.current).state ≠ .suspended :=
    hrun.ne not_runnable_suspended
  have hd : (view k k.current).state ≠ .death := hrun.ne not_runnable_death
  have hl : (view k k.current).link = none := hr.unlinked
  refine h.replace k.current ?_ ?_ (fun _ => id) (.inl ?_) h.timers
    (fun _ => .inl)
  · intro u hu
    rw [view_setThread, if_neg hu]
  · rw [view_setThread, if_pos rfl]
    exact
      { hp with
        current := by simp
        run := fun p hq => by cases hl.symm.trans hq
        wait := fun q hq => by cases hl.symm.trans hq
        call := fun hin => absurd hb hin
        sleep := fun hs => absurd (hp.sleep hs) hsleeping
        asleep := fun hs => absurd hs hf
        exit := fun r hx => absurd (hp.exit r hx) hd
        unborn := fun hi h0 => absurd (hp.unborn hi h0) hsusp
        idle := fun hi => absurd hi hc
        dead := fun hdead => absurd (hp.dead hdead) hd
        kept := fun _ hfs => by cases hw.symm.trans hfs }
  · exact h.not_held (.inr ⟨hsusp, hd⟩)

theorem Settled.enqueue (h : Settled w c k) (hl : k.queues.link t = none)
    (hr : Runnable (k.threads t).state) (ht : t ≠ idleThread)
    (hc : c ≠ some t) : Settled w c (enqueue k t) := by
  have hp := h.placed t
  refine h.replace t ?_ ?_ (fun _ => id) (.inr ?_) h.timers (fun _ => .inl)
  · intro u hu
    rw [view_enqueue hl, if_neg hu]
  · rw [view_enqueue hl, if_pos rfl]
    exact { hp with
      current := fun hcur => absurd hcur hc
      run := fun _ _ => hr
      wait := fun _ => by simp
      idle := fun hi => absurd hi ht }
  · rw [view_enqueue hl, if_pos rfl]
    exact fun hb => ⟨hb.member, hb.state⟩

/-- If insertion returns, the thread was on no queue. -/
theorem insert_of_unlinked {Q : Kernel → Prop}
    (hq : k.queues.link t = none → Q (ChinixRunQueue.enqueue k t)) :
    Holds (insertInRunQueueTail t k) Q Survivable := by
  have hspec := insertInRunQueueTail_spec t k
  cases hx : insertInRunQueueTail t k with
  | error e =>
      rcases hspec.of_error hx with rfl | ⟨-, rfl⟩
      · rintro ⟨⟩
      · rintro ⟨⟩
  | ok k' =>
      obtain ⟨hl, -, rfl⟩ := hspec.of_ok hx
      exact hq hl

/-- Insertion found the thread on no queue. -/
theorem Settled.insert (h : Settled w c k) (hr : Runnable (k.threads t).state)
    (ht : t ≠ idleThread) (hc : c ≠ some t) :
    Holds (insertInRunQueueTail t k)
      (fun k' => Settled w c k' ∧ k' = ChinixRunQueue.enqueue k t)
      Survivable :=
  insert_of_unlinked fun hl => ⟨h.enqueue hl hr ht hc, rfl⟩

/-- A waiter is on no queue for a moment. -/
theorem view_readyWaiter {q : WaitQueueRef} (error : Int) (u : Tid) :
    view (readyWaiter q t error { k with queues := k.queues.delete t }) u =
      if u = t then { view k t with state := .ready, link := none, ret := error }
      else view k u := by
  by_cases hu : u = t
  · subst hu
    simp [view, readyWaiter]
  · simp [view, readyWaiter, hu]

/-- Who is on a wait queue neither runs nor is the idle thread. -/
theorem Settled.waiter (h : Settled w c k) {q : WaitQueueRef}
    (hl : k.queues.link t = some (.wait q)) :
    (k.threads t).state = .blocked ∧ c ≠ some t ∧ t ≠ idleThread := by
  have hp := h.placed t
  refine ⟨hp.wait q hl, ?_, ?_⟩
  · intro hc
    cases hl.symm.trans (hp.current hc).2
  · intro hi
    cases hl.symm.trans (hp.idle hi).2

theorem Settled.readyWaiter (h : Settled w c k) {q' : WaitQueueRef}
    (hl : k.queues.link t = some (.wait q')) (q : WaitQueueRef)
    (error : Int) :
    Settled w c (readyWaiter q t error
      { k with queues := k.queues.delete t }) := by
  obtain ⟨hs, hc, hi⟩ := h.waiter hl
  have hp := h.placed t
  have hv := fun u => view_readyWaiter (k := k) (t := t) (q := q) error u
  have hsl : (view k t).sleeping = false := by
    refine hp.not_sleeping ?_
    show (k.threads t).state ≠ .sleeping
    rw [hs]
    simp
  refine h.replace t ?_ ?_ (fun _ => id) (.inl ?_) h.timers ?_
  · intro u hu
    rw [hv, if_neg hu]
  · rw [hv, if_pos rfl]
    refine hp.ready hc ?_ hsl ?_ ?_ (fun _ => rfl) error
    · show (k.threads t).state ≠ .death
      rw [hs]
      simp
    · intro hsusp
      cases hs.symm.trans hsusp
    · exact fun _ => by simp
  · refine h.not_held (.inr ?_)
    rw [hs]
    exact ⟨by simp, by simp⟩
  · intro e he
    refine (mem_drop_append_singleton he).imp id ?_
    rintro rfl _
    trivial

/-! ## Stacks -/

theorem Settled.not_waiting (h : Settled w c k)
    (hb : blockedIn (k.frames t) = none) :
    TimerRef.wait t ∉ k.timerQueue.queue := by
  simpa [view] using (h.placed t).not_waiting hb

theorem Settled.not_sleeping (h : Settled w c k)
    (hs : (k.threads t).state ≠ .sleeping) :
    TimerRef.sleep t ∉ k.timerQueue.queue := by
  simpa [view] using (h.placed t).not_sleeping hs

/-- A thread gets another stack, without a blocking call. -/
theorem Placed.restack {v : View} (h : Placed w cur t v) {fs : List Frame}
    (hw : w.stack t = none) (hwait : v.waiting = false) (hok : FramesOk fs)
    (hto : blockedIn fs = none) (hs : v.state ≠ .sleeping)
    (hx : ∀ r, Frame.afterResched .exit r ∈ fs → v.state = .death) :
    Placed w cur t { v with frames := fs } :=
  { h with
    stack := hok
    call := fun hne => absurd hto hne
    asleep := fun hsl => absurd hsl hs
    timeout := fun ht => Bool.noConfusion (hwait.symm.trans ht)
    exit := hx
    kept := fun _ hfs => by cases hw.symm.trans hfs }

theorem view_setFrames (fs : List Frame) (u : Tid) :
    view { k with frames := Function.update k.frames t fs } u =
      if u = t then { view k t with frames := fs } else view k u := by
  by_cases hu : u = t
  · subst hu
    simp [view]
  · simp [view, hu]

theorem Settled.setFrames (h : Settled w c k) (fs : List Frame)
    (hw : w.stack t = none) (hwait : TimerRef.wait t ∉ k.timerQueue.queue)
    (hok : FramesOk fs) (hto : blockedIn fs = none)
    (hhold : ∀ s, holding fs = some s → holding (k.frames t) = some s)
    (hs : (k.threads t).state ≠ .sleeping)
    (hx : ∀ r, Frame.afterResched .exit r ∈ fs →
      (k.threads t).state = .death) :
    Settled w c { k with frames := Function.update k.frames t fs } := by
  have hv := view_setFrames (k := k) (t := t) fs
  refine h.replace t ?_ ?_ ?_ (.inr ?_) h.timers (fun _ => .inl)
  · intro u hu
    rw [hv, if_neg hu]
  · rw [hv, if_pos rfl]
    exact (h.placed t).restack hw (by simpa [view] using hwait) hok hto hs hx
  · intro s hs'
    refine hhold s ?_
    simpa using hs'
  · rw [hv, if_pos rfl]
    exact fun hb => ⟨hb.member, hb.state⟩

/-- A thread takes hold of a slot that nobody holds. -/
theorem Settled.hold (h : Settled w c k) {s : Tid} (fs : List Frame)
    (hw : w.stack t = none) (hwait : TimerRef.wait t ∉ k.timerQueue.queue)
    (hok : FramesOk fs) (hto : blockedIn fs = none)
    (hhold : holding fs = some s) (hblank : Blank w s (view k s))
    (hnone : ∀ u, holding (k.frames u) ≠ some s)
    (hs : (k.threads t).state ≠ .sleeping)
    (hx : ∀ r, Frame.afterResched .exit r ∈ fs →
      (k.threads t).state = .death) :
    Settled w c { k with frames := Function.update k.frames t fs } := by
  have hv := view_setFrames (k := k) (t := t) fs
  -- who holds what afterwards
  have hafter : ∀ u s', holding (Function.update k.frames t fs u) = some s' →
      u = t ∧ s' = s ∨ u ≠ t ∧ holding (k.frames u) = some s' := by
    intro u s' hu
    by_cases ht : u = t
    · rw [ht, Function.update_self, hhold] at hu
      exact .inl ⟨ht, (Option.some.inj hu).symm⟩
    · rw [Function.update_of_ne ht] at hu
      exact .inr ⟨ht, hu⟩
  have hkeep : ∀ u, Blank w u (view k u) →
      Blank w u (view { k with frames := Function.update k.frames t fs } u)
      := fun _ hb => ⟨hb.member, hb.state⟩
  refine { h with placed := ?_, held := ?_ }
  · intro u
    rw [hv]
    by_cases hu : u = t
    · subst hu
      rw [if_pos rfl]
      exact (h.placed u).restack hw (by simpa [view] using hwait) hok hto hs hx
    · rw [if_neg hu]
      exact h.placed u
  · intro u s' hu
    rcases hafter u s' hu with ⟨rfl, rfl⟩ | ⟨hut, hold⟩
    · refine ⟨hkeep _ hblank, ?_⟩
      intro u' hu'
      rcases hafter u' _ hu' with ⟨heq, -⟩ | ⟨-, hold⟩
      · exact heq
      · exact absurd hold (hnone u')
    · obtain ⟨hb, huniq⟩ := h.held u s' hold
      refine ⟨hkeep _ hb, ?_⟩
      intro u' hu'
      rcases hafter u' _ hu' with ⟨-, rfl⟩ | ⟨-, hold'⟩
      · exact absurd hold (hnone u)
      · exact huniq u' hold'

/-! ## Timers -/

/-- Timers are taken off the timer queue. -/
theorem Settled.fewerTimers (h : Settled w c k)
    {tq : TimerQueue TimerRef Callback}
    (hq : ∀ r ∈ tq.queue, r ∈ k.timerQueue.queue ∧
      tq.timers r = k.timerQueue.timers r) :
    Settled w c { k with timerQueue := tq } := by
  refine { h with placed := ?_, held := ?_, timers := ?_ }
  · intro u
    have hp := h.placed u
    refine { hp with sleep := ?_, timeout := ?_ }
    · intro hs
      have hmem : TimerRef.sleep u ∈ tq.queue := by simpa [view] using hs
      exact hp.sleep (by simpa [view] using (hq _ hmem).1)
    · intro hw
      have hmem : TimerRef.wait u ∈ tq.queue := by simpa [view] using hw
      exact hp.timeout (by simpa [view] using (hq _ hmem).1)
  · intro u t hu
    obtain ⟨hb, huniq⟩ := h.held u t hu
    exact ⟨⟨hb.member, hb.state⟩, huniq⟩
  · intro r hr
    show (tq.timers r).callback = some (handler r)
    rw [(hq r hr).2]
    exact h.timers r (hq r hr).1

theorem Settled.expire (h : Settled w c k) :
    Settled w c { k with timerQueue := k.timerQueue.dropHead } :=
  h.fewerTimers fun _ hr => ⟨List.mem_of_mem_tail hr, rfl⟩

theorem Settled.cancel (h : Settled w c k) (r : TimerRef) :
    Settled w c { k with timerQueue := timerCancel r k.timerQueue } := by
  refine h.fewerTimers ?_
  intro r' hr'
  obtain ⟨hne, hmem⟩ := mem_timerCancel.mp hr'
  exact ⟨hmem, timers_timerCancel_of_ne hne⟩

/-- A thread that is on no queue goes to sleep inside `thread_sleep`. -/
theorem Settled.sleep (h : Settled w none k)
    {tq : TimerQueue TimerRef Callback} (hw : w.stack t = none)
    (ht : t ≠ idleThread) (hl : k.queues.link t = none)
    (hr : Runnable (k.threads t).state) (hfr : k.frames t = [])
    (harm : Armed tq k.timerQueue (.sleep t)) :
    Settled w none (({ k with timerQueue := tq }.setState t
      .sleeping).pushFrame t (.afterResched .sleep 0)) := by
  have hp := h.placed t
  have hsusp := hr.ne not_runnable_suspended
  have hd := hr.ne not_runnable_death
  have hwait : TimerRef.wait t ∉ tq.queue := by
    rw [harm.queue]
    simpa using h.not_waiting (t := t) (by rw [hfr]; rfl)
  refine h.replace t ?_ ?_ ?_ (.inl (h.not_held (.inr ⟨hsusp, hd⟩)))
    (callback_of_armed harm h.timers) (fun _ => .inl)
  · intro u hu
    have hsame : view { k with timerQueue := tq } u = view k u := by
      refine view_timerQueue_of_ne ?_ ?_
      · rw [harm.queue]
        simp [hu]
      · rw [harm.queue]
        simp
    rw [← hsame]
    simp [view, hu]
  · have hv : view (({ k with timerQueue := tq }.setState t
        .sleeping).pushFrame t (.afterResched .sleep 0)) t
        = { view k t with
            state := .sleeping
            frames := [.afterResched .sleep 0]
            sleeping := true
            waiting := false } := by
      simp [view, hfr, hwait, harm.queue]
    rw [hv]
    exact
      { current := by simp
        run := fun p hp => by cases hl.symm.trans hp
        wait := fun q hq => by cases hl.symm.trans hq
        stack := .plain ⟨rfl, rfl⟩
        call := fun hne => absurd rfl hne
        sleep := fun _ => rfl
        asleep := fun _ => rfl
        timeout := by simp
        exit := fun r hr => by cases List.mem_singleton.mp hr
        unborn := fun hi h0 => absurd (hp.unborn hi h0) hsusp
        idle := fun hi => absurd hi ht
        dead := fun hdead => absurd (hp.dead hdead) hd
        kept := fun _ hfs => by cases hw.symm.trans hfs }
  · intro s hs
    simp [hfr, holding, heldSlot] at hs

/-- Below a call of `wait_queue_block` is nothing, or the call of
    `thread_join` that made it. -/
theorem below_of_framesOk {q : WaitQueueRef} {timeout : Time} {call : Nat}
    {below : List Frame}
    (h : FramesOk (.waitQueueBlock q timeout call :: below)) :
    below = [] ∨ ∃ t wantRetcode l, below = [.threadJoin t wantRetcode l] := by
  cases h with
  | plain hf => exact .inl rfl
  | blocked n _ _ => exact .inl rfl
  | inJoin t _ _ wantRetcode l => exact .inr ⟨t, wantRetcode, l, rfl⟩

theorem holding_of_framesOk {q : WaitQueueRef} {timeout : Time} {call : Nat}
    {below : List Frame}
    (h : FramesOk (.waitQueueBlock q timeout call :: below)) :
    holding (.waitQueueBlock q timeout call :: below) = none := by
  rcases below_of_framesOk h with rfl | ⟨t, wantRetcode, l, rfl⟩ <;> rfl

/-- A thread that is on no queue goes to wait inside `wait_queue_block`. -/
theorem Settled.block (h : Settled w none k) {q : WaitQueueRef}
    {timeout : Time} {below : List Frame}
    {tq : TimerQueue TimerRef Callback} (hw : w.stack k.current = none)
    (hc : k.current ≠ idleThread) (hl : k.queues.link k.current = none)
    (hr : Runnable (k.threads k.current).state)
    (hfr : k.frames k.current = [])
    (hok : FramesOk (.waitQueueBlock q timeout k.nextCall :: below))
    (harm : timeout = infinitTime ∧ tq = k.timerQueue ∨
      timeout ≠ infinitTime ∧ Armed tq k.timerQueue (.wait k.current)) :
    Settled w none { blockedOn k q with
      timerQueue := tq
      frames := Function.update k.frames k.current
        (.waitQueueBlock q timeout k.nextCall :: below) } := by
  have hp := h.placed k.current
  have hsusp := hr.ne not_runnable_suspended
  have hd := hr.ne not_runnable_death
  have hsl : TimerRef.sleep k.current ∉ k.timerQueue.queue :=
    h.not_sleeping (hr.ne not_runnable_sleeping)
  have hwait : TimerRef.wait k.current ∉ k.timerQueue.queue :=
    h.not_waiting (by rw [hfr]; rfl)
  -- of the timers, only the one of the caller can change
  have hmem : ∀ r, r ≠ .wait k.current →
      (r ∈ tq.queue ↔ r ∈ k.timerQueue.queue) := by
    intro r hne
    rcases harm with ⟨-, rfl⟩ | ⟨-, harmed⟩
    · exact Iff.rfl
    · rw [harmed.queue]
      simp [hne]
  have hinf : TimerRef.wait k.current ∈ tq.queue → timeout ≠ infinitTime := by
    intro hin
    rcases harm with ⟨-, rfl⟩ | ⟨hne, -⟩
    · exact absurd hin hwait
    · exact hne
  have hv : ∀ u, view { blockedOn k q with
      timerQueue := tq
      frames := Function.update k.frames k.current
        (.waitQueueBlock q timeout k.nextCall :: below) } u =
      if u = k.current then
        { view k k.current with
          state := .blocked
          link := some (.wait q)
          frames := .waitQueueBlock q timeout k.nextCall :: below
          sleeping := false
          waiting := decide (TimerRef.wait k.current ∈ tq.queue)
          ret := noErr }
      else view k u := by
    intro u
    by_cases hu : u = k.current
    · subst hu
      simp [view, blockedOn, NodeLists.link_addTail _ _ _ hl,
        hmem (.sleep k.current) (by simp), hsl]
    · simp [view, blockedOn, NodeLists.link_addTail _ _ _ hl, hu,
        hmem (.sleep u) (by simp), hmem (.wait u) (by simpa using hu)]
  refine h.replace k.current ?_ ?_ ?_ (.inl (h.not_held (.inr ⟨hsusp, hd⟩)))
    ?_ ?_
  · intro u hu
    rw [hv, if_neg hu]
  · rw [hv, if_pos rfl]
    exact
      { current := by simp
        run := fun _ => by simp
        wait := fun _ _ => rfl
        stack := hok
        call := fun _ => .inl rfl
        sleep := by simp
        asleep := by simp
        timeout := fun hin => ⟨q, timeout, k.nextCall, below, rfl,
          hinf (of_decide_eq_true hin)⟩
        exit := by
          intro r hx
          rcases below_of_framesOk hok with rfl | ⟨t, wr, l, rfl⟩ <;>
            simp at hx
        unborn := fun hi h0 => absurd (hp.unborn hi h0) hsusp
        idle := fun hi => absurd hi hc
        dead := fun hdead => absurd (hp.dead hdead) hd
        kept := fun _ hfs => by cases hw.symm.trans hfs }
  · intro s hs
    have hs' : holding (Function.update k.frames k.current
        (.waitQueueBlock q timeout k.nextCall :: below) k.current)
        = some s := hs
    rw [Function.update_self, holding_of_framesOk hok] at hs'
    cases hs'
  · rcases harm with ⟨-, rfl⟩ | ⟨-, harmed⟩
    · exact h.timers
    · exact callback_of_armed harmed h.timers
  · intro e he
    refine (mem_drop_append_singleton he).imp id ?_
    rintro rfl _
    trivial

/-! ## The dispatch -/

/-- Who could run is not dead. -/
theorem Settled.alive (h : Settled w c k) (hr : Runnable (k.threads t).state) :
    ¬ w.dead t :=
  fun hd => hr.ne not_runnable_death ((h.placed t).dead hd)

/-- **The dispatch**: it settles who runs, and spares the dead. -/
theorem Settled.dispatch (h : Settled w none k) :
    Between w (threadResched k) := by
  obtain ⟨new, hc, -, hnew, hv⟩ :=
    view_threadResched ((h.placed idleThread).idle rfl).2
  have hp := h.placed new
  have hrun : Runnable (k.threads new).state := by
    rcases hnew with rfl | ⟨p, hq⟩
    · exact (hp.idle rfl).1
    · exact hp.run p hq
  have hsusp := hrun.ne not_runnable_suspended
  have hd := hrun.ne not_runnable_death
  have hsl := hrun.ne not_runnable_sleeping
  show Settled w (some (threadResched k).current) (threadResched k)
  rw [hc]
  constructor
  · intro u
    rw [hv]
    by_cases hu : u = new
    · subst hu
      rw [if_pos rfl]
      exact
        { current := fun _ => ⟨rfl, rfl⟩
          run := fun _ => by simp
          wait := fun _ => by simp
          stack := hp.stack
          call := fun _ => .inr (.inr rfl)
          sleep := fun hs => absurd (hp.sleep hs) hsl
          asleep := by simp
          timeout := hp.timeout
          exit := fun r hx => absurd (hp.exit r hx) hd
          unborn := fun hi h0 => absurd (hp.unborn hi h0) hsusp
          idle := fun _ => ⟨.inr rfl, rfl⟩
          dead := fun hdead => absurd (hp.dead hdead) hd
          kept := fun fs hfs => ⟨(hp.kept fs hfs).1, by simp, by simp⟩ }
    · rw [if_neg hu]
      have hpu := h.placed u
      refine { hpu with current := ?_, call := ?_ }
      · exact fun hcur => absurd (Option.some.inj hcur).symm hu
      · exact fun hne => (hpu.call hne).imp id (Or.imp id (by simp))
  · intro u t hu
    rw [threadResched_eq] at hu
    obtain ⟨hb, huniq⟩ := h.held u t hu
    have ht : t ≠ new := by
      rintro rfl
      exact h.not_held (.inr ⟨hsusp, hd⟩) u hu
    rw [hv, if_neg ht]
    refine ⟨hb, ?_⟩
    intro u' hu'
    rw [threadResched_eq] at hu'
    exact huniq u' hu'
  · rw [threadResched_eq]
    exact h.timers
  · intro e he t ht
    rw [log_threadResched] at he
    rcases mem_drop_append_singleton he with hold | rfl
    · exact h.quiet e hold t ht
    · refine ⟨?_, ?_⟩
      · rw [hc]
        rintro rfl
        exact h.alive hrun ht
      · rintro u hu rfl
        obtain ⟨p, -, hmem, -⟩ := mem_queuedThreads.mp hu
        have hl := (k.queues.mem_items _ _).mp hmem
        exact h.alive ((h.placed u.1).run p hl) ht

/-! ## Slots -/

/-- A slot that is on a list of threads changes lists and lives. -/
theorem Settled.relist (h : Settled w c k)
    {L : NodeLists ThreadListRef Tid} {n : Nat}
    (hm : k.threadLists.link t ≠ none)
    (hL : ∀ u, u ≠ t → L.link u = k.threadLists.link u)
    (hn : n = 0 → k.lifetime t = 0) :
    Settled w c { k with
      threadLists := L
      lifetime := Function.update k.lifetime t n } := by
  have hp := h.placed t
  refine h.replace t ?_ ?_ (fun _ => id) (.inl (h.not_held (.inl hm)))
    h.timers (fun _ => .inl)
  · intro u hu
    simp [view, hu, hL u hu]
  · have hv : view { k with
        threadLists := L
        lifetime := Function.update k.lifetime t n } t
        = { view k t with member := L.link t, lifetime := n } := by
      simp [view]
    rw [hv]
    exact { hp with unborn := fun hi h0 => hp.unborn hi (hn h0) }

end ChinixWhereabouts

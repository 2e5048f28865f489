import Chinix.LockedKernel

/-! # What the calls do to the flag, the lock and the open regions

    One contract for the code that runs under `thread_lock` and only works on
    the queues, one for the code that may give up the processor there, and one
    for the calls that lock and unlock.  `strict` chooses between two readings:
    with it the assertions about the lock are to hold and two places are not
    followed, without it every path is followed and nothing is asserted. -/

namespace ChinixLockedCalls

open ChinixTimerQueue ChinixKernel Uniprocessor ChinixLockedKernel
open ChinixThread (Config)

/-! ## The rules -/

/-- `thread_lock` is held and interrupts are disabled, as the four functions
    assert it; of `thread_resched` only the lock is asked. -/
def Asserted (p : Place) (held ints : Bool) : Prop :=
  match p with
  | .insertInRunQueueHead => held = true ∧ ints = false
  | .insertInRunQueueTail => held = true ∧ ints = false
  | .threadUnblockFromWaitQueue => held = true ∧ ints = false
  | .threadResched => held = true
  | .waitQueueTimeoutHandler => True
  | .detachedExit => True

instance (p : Place) (held ints : Bool) : Decidable (Asserted p held ints) := by
  apply p.casesOn (motive := fun p => Decidable (Asserted p held ints)) <;>
    unfold Asserted <;> infer_instance

/-- The two readings. -/
def rules (strict : Prop) : Rules Lock Place where
  lock := .thread
  ok := fun p v => strict → Asserted p v.lock v.ints ∧
    (p = .waitQueueTimeoutHandler → v.lock = false)
  follow := fun p =>
    strict → p ≠ .waitQueueTimeoutHandler ∧ p ≠ .detachedExit
  handover := fun b => strict → b = true

variable {strict : Prop} {A B : Type}

/-- Under `thread_lock`, with nothing changed in the end. -/
def stays (strict : Prop) : Contract Lock where
  pre := fun v => strict → v.lock = true ∧ v.ints = false
  rel := fun v w => w = v
  refl := fun _ => rfl
  trans := by
    rintro u v w rfl rfl
    rfl
  keep := by
    rintro v w h rfl
    exact h

/-- With interrupts disabled, under `thread_lock`, which may have been given
    up in between. -/
def inside (strict : Prop) : Contract Lock where
  pre := fun v => v.ints = false ∧ (strict → v.lock = true)
  rel := fun v w => w.ints = v.ints ∧ w.regions = v.regions ∧
    (strict → v.lock = true → w.lock = true)
  refl := fun _ => ⟨rfl, rfl, fun _ h => h⟩
  trans := by
    rintro u v w ⟨h1, h2, h3⟩ ⟨h4, h5, h6⟩
    exact ⟨h4.trans h1, h5.trans h2, fun hs h => h6 hs (h3 hs h)⟩
  keep := by
    rintro v w ⟨h1, h2⟩ ⟨h3, -, h4⟩
    exact ⟨h3.trans h1, fun hs => h4 hs (h2 hs)⟩

/-- A call: flag and regions are as before, and the lock is not left taken. -/
def returns : Contract Lock where
  pre := View.Calm
  rel := fun v w => w.ints = v.ints ∧ w.regions = v.regions ∧
    (v.lock = false → w.lock = false)
  refl := fun _ => ⟨rfl, rfl, fun h => h⟩
  trans := by
    rintro u v w ⟨h1, h2, h3⟩ ⟨h4, h5, h6⟩
    exact ⟨h4.trans h1, h5.trans h2, fun h => h6 (h3 h)⟩
  keep := by
    rintro v w h ⟨h1, h2, h3⟩ hon
    obtain ⟨hnone, hfree⟩ := h (h1 ▸ hon)
    exact ⟨h2.trans hnone, h3 hfree⟩

/-- A call that finds the lock free. -/
def quiet : Contract Lock where
  pre := fun v => v.Calm ∧ v.lock = false
  rel := returns.rel
  refl := returns.refl
  trans := returns.trans
  keep := by
    rintro v w ⟨hcalm, hfree⟩ hw
    exact ⟨returns.keep v w hcalm hw, hw.2.2 hfree⟩

/-- Code under the lock is code under the lock that may give it up. -/
theorem inside_of_stays {x : Prog A} (h : Meets (rules strict) (stays strict) x) :
    Meets (rules strict) (inside strict) x := by
  refine h.weaken ?_ ?_
  · rintro v ⟨hoff, hlock⟩ hs
    exact ⟨hlock hs, hoff⟩
  · rintro v w - rfl
    exact (inside strict).refl w

/-- Where nothing is asserted, a call may be made under the lock. -/
theorem inside_of_returns (hlax : ¬ strict) {x : Prog A}
    (h : Meets (rules strict) returns x) :
    Meets (rules strict) (inside strict) x := by
  refine h.weaken ?_ ?_
  · intro v hv hon
    cases hv.1.symm.trans hon
  · rintro v w - ⟨hints, hregions, -⟩
    exact ⟨hints, hregions, fun hs => absurd hs hlax⟩

/-- Where nothing is asserted, the lock does not have to be held. -/
theorem returns_of_stays (hlax : ¬ strict) {x : Prog A}
    (h : Meets (rules strict) (stays strict) x) :
    Meets (rules strict) returns x := by
  refine h.weaken ?_ ?_
  · exact fun _ _ hs => absurd hs hlax
  · rintro v w - rfl
    exact returns.refl w

theorem quiet_of_returns {x : Prog A} (h : Meets (rules strict) returns x) :
    Meets (rules strict) quiet x :=
  h.weaken (fun _ hv => hv.1) fun _ _ _ hw => hw

/-! ## Locked regions -/

/-- Code that ends the innermost region, of `thread_lock`; `locked` says
    whether it relies on the lock. -/
def Ends (strict locked : Prop) (flags : Bool) (x : Prog A) : Prop :=
  ∀ v rest, v.ints = false → (locked → v.lock = true) →
    v.regions = (.thread, flags) :: rest → (flags = true → rest = []) →
    wp (rules strict) x
      (fun _ w => w.ints = flags ∧ w.regions = rest ∧ w.lock = false) v

variable {locked : Prop} {flags : Bool}

/-- A call that is one region. -/
theorem Meets.region {f : Bool → Prog A}
    (hf : ∀ flags, Ends strict strict flags (f flags)) :
    Meets (rules strict) returns (save .thread >>= f) := by
  intro v hv
  refine wp_save (wp_mono (hf v.ints _ v.regions rfl ?_ rfl ?_) ?_)
  · intro _
    rfl
  -- a region that began with interrupts enabled is the outermost one
  · intro hon
    exact (hv hon).1
  · rintro _ w ⟨hints, hregions, hlock⟩
    exact ⟨hints, hregions, fun _ => hlock⟩

theorem Ends.restore : Ends strict locked flags (restore .thread flags) := by
  intro v rest _ _ hregions hnone
  refine wp_restore hregions ?_ ⟨rfl, rfl, rfl⟩
  intro hon
  exact ⟨hnone hon, rfl⟩

/-- After the region come calls. -/
theorem Ends.restore_bind {f : Unit → Prog A}
    (hf : Meets (rules strict) returns (f ())) :
    Ends strict locked flags (Uniprocessor.restore .thread flags >>= f) := by
  intro v rest hoff hlock hregions hnone
  rw [wp_bind]
  refine wp_mono (Ends.restore v rest hoff hlock hregions hnone) ?_
  rintro ⟨⟩ w ⟨hints, hrest, hfree⟩
  refine wp_mono (hf w ?_) ?_
  · intro hon
    exact ⟨hrest.trans (hnone (hints ▸ hon)), hfree⟩
  · rintro _ u ⟨h1, h2, h3⟩
    exact ⟨h1.trans hints, h2.trans hrest, h3 hfree⟩

/-- Code under the lock comes before the end of the region. -/
theorem Ends.after {x : Prog A} {f : A → Prog B}
    (hx : Meets (rules strict) (inside strict) x)
    (hf : ∀ a, Ends strict strict flags (f a)) :
    Ends strict strict flags (x >>= f) := by
  intro v rest hoff hlock hregions hnone
  rw [wp_bind]
  refine wp_mono (hx v ⟨hoff, hlock⟩) ?_
  rintro a w ⟨h1, h2, h3⟩
  exact hf a w rest (h1.trans hoff) (fun hs => h3 hs (hlock hs))
    (h2.trans hregions) hnone

/-- A call in a region takes the lock away. -/
theorem Ends.after_returns {x : Prog A} {f : A → Prog B}
    (hx : Meets (rules strict) returns x)
    (hf : ∀ a, Ends strict False flags (f a)) :
    Ends strict locked flags (x >>= f) := by
  intro v rest hoff _ hregions hnone
  rw [wp_bind]
  refine wp_mono (hx v ?_) ?_
  · intro hon
    cases hoff.symm.trans hon
  · rintro a w ⟨h1, h2, -⟩
    exact hf a w rest (h1.trans hoff) False.elim (h2.trans hregions) hnone

theorem Ends.ite {p : Prop} [Decidable p] {x y : Prog A}
    (hx : Ends strict locked flags x) (hy : Ends strict locked flags y) :
    Ends strict locked flags (if p then x else y) := by
  by_cases hp : p
  · rw [if_pos hp]
    exact hx
  · rw [if_neg hp]
    exact hy

theorem Ends.halt : Ends strict locked flags (.halt : Prog A) := by
  intro _ _ _ _ _ _
  trivial

/-- A region of `timer_lock` under `thread_lock`. -/
theorem Meets.timerRegion {x : Prog A}
    (hx : Meets (rules strict) (stays strict) x) :
    Meets (rules strict) (inside strict)
      (save .timer >>= fun state => x >>= fun _ => restore .timer state) := by
  rintro v ⟨hoff, hlock⟩
  refine wp_save ?_
  rw [wp_bind]
  refine wp_mono (hx _ fun hs => ⟨hlock hs, rfl⟩) ?_
  rintro _ w rfl
  refine wp_restore rfl ?_ ⟨rfl, rfl, fun _ h => h⟩
  intro hon
  cases hoff.symm.trans hon

/-! ## Queues and timers -/

/-- The assertions hold under the lock. -/
theorem stays_place (p : Place) (hp : Asserted p true false)
    (hne : p ≠ .waitQueueTimeoutHandler) :
    Meets (rules strict) (stays strict) (place p : Prog Unit) := by
  refine Meets.place ?_
  intro v h hs
  obtain ⟨hlock, hoff⟩ := h hs
  refine ⟨?_, fun heq => absurd heq hne⟩
  rw [hlock, hoff]
  exact hp

theorem stays_insertInRunQueueHead (t : Tid) :
    Meets (rules strict) (stays strict) (insertInRunQueueHead t) :=
  (stays_place .insertInRunQueueHead ⟨rfl, rfl⟩ (by decide)).bind fun _ => Meets.attempt _

theorem stays_insertInRunQueueTail (t : Tid) :
    Meets (rules strict) (stays strict) (insertInRunQueueTail t) :=
  (stays_place .insertInRunQueueTail ⟨rfl, rfl⟩ (by decide)).bind fun _ => Meets.attempt _

theorem stays_threadUnblockFromWaitQueue (t : Tid) (error : Int) :
    Meets (rules strict) (stays strict) (threadUnblockFromWaitQueue t error) := by
  refine Meets.bind (stays_place .threadUnblockFromWaitQueue ⟨rfl, rfl⟩
    (by decide)) fun _ => ?_
  refine Meets.read.bind fun k => Meets.ite (Meets.pure _) ?_
  refine (Meets.attempt _).bind fun _ => (Meets.attempt _).bind fun _ => ?_
  exact (stays_insertInRunQueueHead t).bind fun _ => Meets.pure _

theorem stays_requeueCaller (t : Tid) :
    Meets (rules strict) (stays strict) (requeueCaller t) :=
  (Meets.modify _).bind fun _ => stays_insertInRunQueueHead t

/-- `thread_resched` comes back with the lock that another thread left. -/
theorem inside_threadResched :
    Meets (rules strict) (inside strict) threadResched := by
  refine Meets.bind (inside_of_stays (stays_place .threadResched rfl
    (by decide))) fun _ => ?_
  refine Meets.read.bind fun k => (Meets.modify _).bind fun _ => ?_
  refine Meets.ite (Meets.pure _) ?_
  rintro v ⟨hoff, hlock⟩
  refine ⟨hoff, hlock, ?_⟩
  -- flag and regions are the thread's own, only the lock is handed over
  intro b hb
  exact ⟨rfl, rfl, fun hs _ => hb hs⟩

theorem inside_timerSet (timer : TimerRef) (delay period : Time)
    (callback : Callback) :
    Meets (rules strict) (inside strict)
      (timerSet timer delay period callback) := by
  refine Meets.read.bind fun k => (Meets.modify _).bind fun _ => ?_
  exact Meets.timerRegion (Meets.attempt _)

theorem inside_timerCancel (timer : TimerRef) :
    Meets (rules strict) (inside strict) (timerCancel timer) :=
  Meets.timerRegion (Meets.modify _)

/-! ## The timer interrupt -/

theorem returns_threadSleepHandler (t : Tid) :
    Meets (rules strict) returns (threadSleepHandler t) := by
  refine Meets.region fun flags => Ends.after (Meets.modify _) fun _ => ?_
  refine Ends.after (inside_of_stays (stays_insertInRunQueueHead t)) fun _ => ?_
  exact Ends.restore_bind (Meets.pure _)

/-- The handler is called without the lock. -/
theorem quiet_waitQueueTimeoutHandler (t : Tid) :
    Meets (rules strict) quiet (waitQueueTimeoutHandler t) := by
  refine Meets.place_bind (fun _ h _ => ⟨trivial, fun _ => h.2⟩) ?_
  intro hf
  -- the rest is followed only where nothing is asserted
  have hlax : ¬ strict := fun hs => (hf hs).1 rfl
  refine quiet_of_returns (Meets.bind ?_ fun _ => Meets.pure _)
  exact returns_of_stays hlax (stays_threadUnblockFromWaitQueue t errTimedOut)

theorem quiet_invokeCallback (callback : Callback) :
    Meets (rules strict) quiet (invokeCallback callback) := by
  cases callback with
  | threadSleepHandler t =>
      exact quiet_of_returns (returns_threadSleepHandler t)
  | waitQueueTimeoutHandler t => exact quiet_waitQueueTimeoutHandler t

theorem quiet_timerTickBody (now : Time) (ret : HandlerReturn) :
    Meets (rules strict) quiet (timerTickBody now ret) := by
  refine Meets.read.bind fun k => ?_
  cases k.timerQueue.queue with
  | nil => exact Meets.pure _
  | cons timer rest =>
      refine Meets.ite (Meets.pure _) ((Meets.modify _).bind fun _ => ?_)
      cases (k.timerQueue.timers timer).callback with
      | none => exact Meets.halt
      | some callback =>
          refine (quiet_invokeCallback callback).bind fun r => ?_
          exact (Meets.attempt _).bind fun _ => Meets.pure _

theorem quiet_timerTick (now : Time) :
    Meets (rules strict) quiet (timerTick now) := by
  refine (Meets.forever (quiet_timerTickBody now) _).bind fun ret => ?_
  exact Meets.read.bind fun k => (Meets.modify _).bind fun _ => Meets.pure _

theorem quiet_osTimerTick : Meets (rules strict) quiet osTimerTick := by
  refine Meets.read.bind fun k => (Meets.modify _).bind fun _ => ?_
  cases (ChinixPlatformTimer.osTimerTick k.platform).1 with
  | none => exact Meets.pure _
  | some time => exact quiet_timerTick time

theorem returns_threadPreempt :
    Meets (rules strict) returns threadPreempt := by
  refine Meets.read.bind fun k => Meets.region fun flags => ?_
  refine Ends.after (Meets.modify _) fun _ => Ends.after Meets.read fun k' => ?_
  refine Ends.after (Meets.ite (Meets.pure _) (Meets.ite ?_ ?_)) fun _ => ?_
  · exact inside_of_stays (stays_insertInRunQueueHead _)
  · exact inside_of_stays (stays_insertInRunQueueTail _)
  · exact Ends.after inside_threadResched fun _ => Ends.restore

theorem quiet_x64ExceptionHandler :
    Meets (rules strict) quiet x64ExceptionHandler :=
  quiet_osTimerTick.bind fun _ =>
    Meets.ite (quiet_of_returns returns_threadPreempt) (Meets.pure _)

/-! ## Wait queues -/

theorem stays_wakeAllBody (q : WaitQueueRef) (error ret : Int) :
    Meets (rules strict) (stays strict) (wakeAllBody q error ret) := by
  refine Meets.read.bind fun k => ?_
  cases (ChinixRunQueue.listRemoveHead (.wait q) k).1 with
  | none => exact Meets.pure _
  | some t =>
      refine (Meets.modify _).bind fun _ => (Meets.modify _).bind fun _ => ?_
      exact (stays_insertInRunQueueHead t).bind fun _ => Meets.pure _

theorem inside_waitQueueWakeAll (q : WaitQueueRef) (reschedule : Bool)
    (error : Int) :
    Meets (rules strict) (inside strict)
      (waitQueueWakeAll q reschedule error) := by
  refine Meets.read.bind fun k => Meets.bind ?_ fun _ => ?_
  · exact Meets.ite (inside_of_stays (stays_requeueCaller _)) (Meets.pure _)
  · refine Meets.bind ?_ fun ret => ?_
    · exact inside_of_stays (Meets.forever (stays_wakeAllBody q error) 0)
    · exact (Meets.ite inside_threadResched (Meets.pure _)).bind
        fun _ => Meets.pure _

theorem inside_waitQueueWakeOne (q : WaitQueueRef) (reschedule : Bool)
    (error : Int) :
    Meets (rules strict) (inside strict)
      (waitQueueWakeOne q reschedule error) := by
  refine Meets.read.bind fun k => ?_
  cases (ChinixRunQueue.listRemoveHead (.wait q) k).1 with
  | none => exact Meets.pure _
  | some t =>
      refine (Meets.modify _).bind fun _ => (Meets.modify _).bind fun _ => ?_
      refine Meets.bind ?_ fun _ => Meets.bind ?_ fun _ => ?_
      · exact Meets.ite (inside_of_stays (stays_requeueCaller _)) (Meets.pure _)
      · exact inside_of_stays (stays_insertInRunQueueHead t)
      · exact (Meets.ite inside_threadResched (Meets.pure _)).bind
          fun _ => Meets.pure _

theorem inside_waitQueueBlock (q : WaitQueueRef) (timeout : Time) :
    Meets (rules strict) (inside strict) (waitQueueBlock q timeout) := by
  refine Meets.read.bind fun k => Meets.ite (Meets.pure _) ?_
  refine (Meets.attempt _).bind fun _ => (Meets.modify _).bind fun _ => ?_
  refine (Meets.modify _).bind fun _ => Meets.bind ?_ fun _ => ?_
  · refine Meets.ite ((Meets.modify _).bind fun _ => ?_) (Meets.pure _)
    exact inside_timerSet _ _ _ _
  · refine inside_threadResched.bind fun _ => Meets.bind ?_ fun _ => ?_
    · exact Meets.ite (inside_timerCancel _) (Meets.pure _)
    · exact Meets.read.bind fun _ => Meets.pure _

/-! ## The thread API -/

theorem returns_getFreeThreadNode :
    Meets (rules strict) returns getFreeThreadNode := by
  refine Meets.read.bind fun k => Meets.ite (Meets.pure _) ?_
  refine Meets.region fun flags => Ends.after Meets.read fun k' => ?_
  exact Ends.after (Meets.modify _) fun _ => Ends.restore_bind (Meets.pure _)

theorem returns_freeThreadNode (t : Tid) :
    Meets (rules strict) returns (freeThreadNode t) :=
  Meets.region fun _ => Ends.after (Meets.attempt _) fun _ => Ends.restore

variable (cfg : Config)

theorem returns_threadIdToPtr (thid : Int) :
    Meets (rules strict) returns (threadIdToPtr cfg thid) := by
  rw [threadIdToPtr]
  cases ChinixThread.threadIdToPtr cfg thid with
  | ok t => exact Meets.pure t
  | error e => exact Meets.halt

theorem returns_threadCreate (priority : Int) :
    Meets (rules strict) returns (threadCreate priority) := by
  refine returns_getFreeThreadNode.bind fun node => ?_
  cases node with
  | none => exact Meets.pure _
  | some t =>
      refine (Meets.attempt _).bind fun _ => (Meets.prepare t).bind fun _ => ?_
      refine Meets.region fun flags => Ends.after (Meets.attempt _) fun _ => ?_
      exact Ends.restore_bind (Meets.pure _)

theorem returns_threadYield : Meets (rules strict) returns threadYield := by
  refine Meets.read.bind fun k => Meets.region fun flags => ?_
  refine Ends.after (Meets.modify _) fun _ => Ends.after Meets.read fun k' => ?_
  refine Ends.after (Meets.ite (Meets.pure _) ?_) fun _ => ?_
  · exact inside_of_stays (stays_insertInRunQueueTail _)
  · exact Ends.after inside_threadResched fun _ => Ends.restore

theorem returns_threadSetPriority (priority : Int) :
    Meets (rules strict) returns (threadSetPriority priority) := by
  refine Meets.read.bind fun k => Meets.region fun flags => ?_
  refine Ends.after (Meets.modify _) fun _ => Ends.after ?_ fun _ => ?_
  · exact inside_of_stays (stays_insertInRunQueueHead _)
  · exact Ends.after inside_threadResched fun _ => Ends.restore

theorem returns_threadResume (thid : Int) :
    Meets (rules strict) returns (threadResume cfg thid) := by
  refine (returns_threadIdToPtr cfg thid).bind fun t => ?_
  refine Meets.intsEnabled.bind fun enabled => Meets.region fun flags => ?_
  refine Ends.after Meets.read fun k => Ends.after ?_ fun _ => ?_
  · exact Meets.ite (inside_of_stays (stays_requeueCaller t)) (Meets.pure _)
  · refine Ends.restore_bind (Meets.bind ?_ fun _ => Meets.pure _)
    exact Meets.ite returns_threadYield (Meets.pure _)

theorem returns_threadSleep (delay : Time) :
    Meets (rules strict) returns (threadSleep delay) := by
  refine Meets.read.bind fun k => (Meets.modify _).bind fun _ => ?_
  refine Meets.region fun flags => Ends.after (inside_timerSet _ _ _ _) fun _ => ?_
  refine Ends.after (Meets.modify _) fun _ => ?_
  exact Ends.after inside_threadResched fun _ => Ends.restore

/-- `free_thread_node` unlocks before `thread_join` does. -/
theorem ends_threadJoinReap (t : Tid) (flags : Bool) :
    Ends strict strict flags (threadJoinReap t flags) := by
  refine Ends.after (Meets.attempt _) fun _ => ?_
  refine Ends.after_returns (returns_freeThreadNode t) fun _ => ?_
  exact Ends.restore_bind (Meets.pure _)

theorem returns_threadJoin (thid : Int) (timeout : Time) :
    Meets (rules strict) returns (threadJoin cfg thid timeout) := by
  refine (returns_threadIdToPtr cfg thid).bind fun t => ?_
  refine Meets.region fun flags => Ends.after Meets.read fun k => ?_
  refine Ends.ite (Ends.restore_bind (Meets.pure _)) (Ends.ite ?_ ?_)
  · refine Ends.after (inside_waitQueueBlock _ _) fun err => Ends.ite ?_ ?_
    · exact Ends.restore_bind (Meets.pure _)
    · exact ends_threadJoinReap t flags
  · exact ends_threadJoinReap t flags

theorem returns_threadDetach (thid : Int) :
    Meets (rules strict) returns (threadDetach cfg thid) := by
  refine (returns_threadIdToPtr cfg thid).bind fun t => ?_
  refine Meets.region fun flags => ?_
  refine Ends.after (inside_waitQueueWakeAll _ _ _) fun _ => ?_
  refine Ends.after Meets.read fun k => Ends.ite ?_ ?_
  · refine Ends.after (Meets.modify _) fun _ => ?_
    exact Ends.restore_bind (returns_threadJoin cfg _ _)
  · refine Ends.after (Meets.modify _) fun _ => ?_
    exact Ends.restore_bind (Meets.pure _)

/-- The branch for a detached thread is followed only where nothing is
    asserted. -/
theorem inside_exitCleanup (t : Tid) (detached : Bool) :
    Meets (rules strict) (inside strict) (exitCleanup t detached) := by
  refine Meets.ite ?_ ?_
  · refine Meets.place_bind ?_ ?_
    · rintro _ - -
      exact ⟨trivial, fun heq => by cases heq⟩
    intro hf
    have hlax : ¬ strict := fun hs => (hf hs).2 rfl
    refine (Meets.attempt _).bind fun _ => ?_
    exact inside_of_returns hlax (returns_freeThreadNode t)
  · exact (inside_waitQueueWakeAll _ _ _).bind fun _ => Meets.pure _

theorem returns_threadExit (retcode : Int) :
    Meets (rules strict) returns (threadExit retcode) := by
  refine Meets.read.bind fun k => Meets.region fun flags => ?_
  refine Ends.after (Meets.modify _) fun _ => Ends.after Meets.read fun k' => ?_
  refine Ends.after (inside_exitCleanup _ _) fun _ => ?_
  exact Ends.after inside_threadResched fun _ => Ends.halt

theorem returns_threadPreemptDisable :
    Meets (rules strict) returns threadPreemptDisable :=
  Meets.region fun _ => Ends.after (Meets.modify _) fun _ => Ends.restore

theorem returns_threadPreemptEnable :
    Meets (rules strict) returns threadPreemptEnable :=
  Meets.region fun _ => Ends.after (Meets.modify _) fun _ => Ends.restore

theorem returns_call (c : Call) :
    Meets (rules strict) returns (c.code cfg) := by
  cases c with
  | threadCreate priority =>
      exact (returns_threadCreate priority).bind fun _ => Meets.pure _
  | threadResume thid =>
      exact (returns_threadResume cfg thid).bind fun _ => Meets.pure _
  | threadYield => exact returns_threadYield
  | threadSetPriority priority => exact returns_threadSetPriority priority
  | threadSleep delay => exact returns_threadSleep delay
  | threadJoin thid timeout =>
      exact (returns_threadJoin cfg thid timeout).bind fun _ => Meets.pure _
  | threadDetach thid =>
      exact (returns_threadDetach cfg thid).bind fun _ => Meets.pure _
  | threadExit retcode => exact returns_threadExit retcode
  | threadPreemptDisable => exact returns_threadPreemptDisable
  | threadPreemptEnable => exact returns_threadPreemptEnable

/-! ## The system -/

/-- A routine inside `THREAD_LOCK` runs with interrupts disabled. -/
def routineContract (strict : Prop) (inside : Bool) : Contract Lock :=
  if inside then ChinixLockedCalls.inside strict else returns

/-- Where nothing is asserted, a thread may nest regions as it likes. -/
theorem meets_routine (hlax : ¬ strict) {inside : Bool} (r : Routine inside) :
    Meets (rules strict) (routineContract strict inside) (r.code cfg) := by
  -- a call is fine inside a region, too: it takes the lock away, no more
  have hany : ∀ {inside : Bool} {x : Prog Unit},
      Meets (rules strict) returns x →
      Meets (rules strict) (routineContract strict inside) x := by
    intro inside x hx
    cases inside with
    | false => exact hx
    | true => exact inside_of_returns hlax hx
  induction r with
  | call c => exact hany (returns_call cfg c)
  | locked body ih =>
      exact hany (Meets.region fun _ => Ends.after ih fun _ => Ends.restore)
  | waitQueueBlock q timeout =>
      exact (inside_waitQueueBlock _ _).bind fun _ => Meets.pure _
  | waitQueueWakeOne q reschedule error =>
      exact (inside_waitQueueWakeOne _ _ _).bind fun _ => Meets.pure _
  | waitQueueWakeAll q reschedule error =>
      exact (inside_waitQueueWakeAll _ _ _).bind fun _ => Meets.pure _
  | seq first second ih1 ih2 => exact ih1.bind fun _ => ih2

/-- A call from a thread's own code ends there. -/
theorem outside_of_returns {x : Prog Unit}
    (h : Meets (rules strict) returns x) (on : Bool) :
    wp (rules strict) x Outside ⟨on, false, []⟩ := by
  refine wp_mono (h _ fun _ => ⟨rfl, rfl⟩) ?_
  rintro ⟨⟩ w ⟨-, hregions, hlock⟩
  exact ⟨hregions, hlock rfl⟩

theorem outside_threadBecomeIdle (on : Bool) :
    wp (rules strict) threadBecomeIdle Outside ⟨on, false, []⟩ := by
  have hname : Meets (rules strict) returns threadSetName :=
    Meets.region fun _ => Ends.restore
  refine wp_read fun k => wp_bind.mpr ?_
  refine wp_mono (hname _ fun _ => ⟨rfl, rfl⟩) ?_
  rintro ⟨⟩ w ⟨-, hregions, hlock⟩
  have hcalm : View.Calm { w with ints := true } :=
    fun _ => ⟨hregions, hlock rfl⟩
  refine wp_modify (wp_setInts hcalm ?_)
  refine wp_mono (returns_threadYield _ hcalm) ?_
  rintro ⟨⟩ u ⟨-, hrest, hfree⟩
  exact ⟨hrest.trans hregions, hfree (hlock rfl)⟩

theorem outside_entry (e : Entry) (on : Bool)
    (hr : ∀ r, e = .routine r → Meets (rules strict) returns (r.code cfg)) :
    wp (rules strict) (e.code cfg) Outside ⟨on, false, []⟩ := by
  cases e with
  | routine r => exact outside_of_returns (hr r rfl) on
  | disableInts => exact ⟨fun _ => ⟨rfl, rfl⟩, rfl, rfl⟩
  | enableInts => exact ⟨fun _ => ⟨rfl, rfl⟩, rfl, rfl⟩
  | threadBecomeIdle => exact outside_threadBecomeIdle on

/-- The code of the kernel obeys the rules if the routines of the threads do. -/
theorem obeys {allowed : Entry → Prop}
    (hr : ∀ r, allowed (.routine r) →
      Meets (rules strict) returns (r.code cfg)) :
    (system cfg).Obeys (rules strict) allowed where
  irq := by
    have hstart : quiet.pre ⟨false, false, []⟩ := by
      refine ⟨?_, rfl⟩
      rintro ⟨⟩
    refine wp_mono (quiet_x64ExceptionHandler _ hstart) ?_
    rintro ⟨⟩ w ⟨-, hregions, hlock⟩
    exact ⟨hregions, hlock rfl⟩
  entry := by
    intro b _
    exact ⟨fun _ => ⟨rfl, rfl⟩, rfl, rfl⟩
  call := by
    intro e he on
    refine outside_entry cfg e on ?_
    rintro r rfl
    exact hr r he

/-- `start_kernel` runs with interrupts disabled and holds no lock. -/
theorem bootMachine_sound : Sound (rules strict) (bootMachine cfg) where
  calm := by rintro ⟨⟩
  running := ⟨rfl, rfl⟩
  parked := by rintro _ _ ⟨⟩

end ChinixLockedCalls

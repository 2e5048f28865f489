import Chinix.TimerDeadlines

/-! # No timer is lost

    `current_time` is the upper half of a 64-bit counter, so that it never
    reaches 2^32, while `sched_time` is a sum in 64 bits.  A one-shot timer is
    invoked in time as long as the counter does not wrap around while the
    timer is pending, if it was armed in the first 2^31 ms, or for so long
    that the sum wraps around; any other waits for a time close to 2^64, and
    one that is armed shortly before the counter wraps around for one that
    the clock does not reach. -/

namespace ChinixTimerLoss

open ChinixTimerQueue ChinixPlatformTimer ChinixTimerSystem ChinixTimerOrder
open ChinixTimerHistory ChinixTimerDeadlines

/-- The clock of the platform, which counts the interrupts of the timer. -/
def countedClock : Clock (PlatformTimer × Nat) where
  time k := currentTime k.1
  tick k := ((osTimerTick k.1).1, (osTimerTick k.1).2, k.2 + 1)
  below k := platformClock.below k.1
  tells k now k' h := by
    have h1 : (osTimerTick k.1).1 = some now := congrArg Prod.fst h
    have h2 : (osTimerTick k.1).2 = k'.1 := congrArg (fun x => x.2.1) h
    exact platformClock.tells k.1 now k'.1 (Prod.ext h1 h2)

variable {R C K : Type} [DecidableEq R]

/-- The one-shot arming of a timer that is still to be served: its delay and
    the clock at the time. -/
def pendingOneshot (r : R) : List (TimerEvent R C K) → Option (Time × K)
  | [] => none
  | .oneshotSet timer delay k :: past =>
      if timer = r then some (delay, k) else pendingOneshot r past
  | .periodicSet timer _ _ :: past =>
      if timer = r then none else pendingOneshot r past
  | .cancelled timer :: past =>
      if timer = r then none else pendingOneshot r past
  | .invoked timer _ _ _ :: past =>
      if timer = r then none else pendingOneshot r past
  | .requeued _ _ :: past => pendingOneshot r past

theorem pendingOneshot_of_not_touches {r : R} {e : TimerEvent R C K}
    (ht : Touches r e = false) (hi : Invokes r e = false)
    (past : List (TimerEvent R C K)) :
    pendingOneshot r (e :: past) = pendingOneshot r past := by
  cases e with
  | oneshotSet _ _ _ => exact if_neg (of_decide_eq_false ht)
  | periodicSet _ _ _ => exact if_neg (of_decide_eq_false ht)
  | cancelled _ => exact if_neg (of_decide_eq_false ht)
  | invoked _ _ _ _ => exact if_neg (of_decide_eq_false hi)
  | requeued _ _ => rfl

/-- The machine with the counted clock. -/
abbrev Counted (R C : Type) := TimerSystem R C (PlatformTimer × Nat)

/-- The counter of the clock. -/
abbrev counter (s : Counted R C) : Nat := s.clock.1.timerCurrentTime.toNat

/-- `timer_delta_time`. -/
abbrev tickLength (s : Counted R C) : Nat := s.clock.1.timerDeltaTime.toNat

/-- The counter does not wrap around at the next interrupt, if a one-shot
    timer with a delay below 2^32 is pending. -/
def NoWrapNext (s : Counted R C) : Option (Time × PlatformTimer × Nat) → Prop
  | some (delay, _) =>
      delay.toNat < 2 ^ 32 → counter s + tickLength s < 2 ^ 64
  | none => True

/-- A timer that is armed at `time` has a `sched_time` that the clock
    reaches: `timer_set` goes by the time itself, or its sum wraps around. -/
def InReach (time delay : Time) : Prop :=
  time.toNat < 2 ^ 31 ∨ 2 ^ 32 ≤ time.toNat + (atLeastOne delay).toNat

instance (time delay : Time) : Decidable (InReach time delay) :=
  inferInstanceAs (Decidable (_ ∨ _))

/-- If the call arms the timer for one invocation, with a delay below 2^32,
    it is in reach. -/
def ArmedInReach (r : R) (time : Time) : TimerCall R C → Prop
  | .setOneshot timer delay _ =>
      timer = r → delay.toNat < 2 ^ 32 → InReach time delay
  | _ => True

/-- The timer is armed in reach, and the counter does not wrap around while
    it is armed as a one-shot timer, with a delay below 2^32, and has not been
    served. -/
def KeptInReach (r : R) (s : Counted R C) : Action R C → Prop
  | .call c => ArmedInReach r (currentTime s.clock.1) c
  | .tick => NoWrapNext s (pendingOneshot r s.history)
  | _ => True

instance (s : Counted R C) (pending : Option (Time × PlatformTimer × Nat)) :
    Decidable (NoWrapNext s pending) :=
  match pending with
  | some _ => inferInstanceAs (Decidable (_ → _))
  | none => inferInstanceAs (Decidable True)

instance (r : R) (time : Time) (c : TimerCall R C) :
    Decidable (ArmedInReach r time c) :=
  match c with
  | .setOneshot _ _ _ => inferInstanceAs (Decidable (_ → _))
  | .setPeriodic _ _ _ => inferInstanceAs (Decidable True)
  | .cancel _ => inferInstanceAs (Decidable True)

instance (r : R) (s : Counted R C) (a : Action R C) :
    Decidable (KeptInReach r s a) :=
  match a with
  | .call _ => inferInstanceAs (Decidable (ArmedInReach r _ _))
  | .tick => inferInstanceAs (Decidable (NoWrapNext _ _))
  | .head => inferInstanceAs (Decidable True)
  | .callbackReturns => inferInstanceAs (Decidable True)

/-- If the timer is still pending, the time that has passed since it was
    armed is less than its delay. -/
def InTime (r : R) (s : Counted R C) : Prop :=
  ∀ delay p n, pendingOneshot r s.history = some (delay, p, n) →
    delay.toNat < 2 ^ 32 → n < s.clock.2 →
    (s.clock.2 - n) * tickLength s < delay.toNat * 2 ^ 32

-- ── A pending timer waits in the queue ──

/-- A pending timer is linked with the time that `timer_set` gave it, was
    armed in reach, and the counter has advanced since the arming by as many
    ticks as there were interrupts. -/
structure Waiting (r : R) (s : Counted R C) : Prop where
  length : s.clock.1.timerDeltaTime = bootClock.timerDeltaTime
  linked : ∀ delay p n, pendingOneshot r s.history = some (delay, p, n) →
    r ∈ s.tq.queue ∧
      (s.tq.timers r).schedTime
        = implicitInt (currentTime p) + atLeastOne delay
  reach : ∀ delay p n, pendingOneshot r s.history = some (delay, p, n) →
    delay.toNat < 2 ^ 32 → InReach (currentTime p) delay
  elapsed : ∀ delay p n, pendingOneshot r s.history = some (delay, p, n) →
    delay.toNat < 2 ^ 32 → n ≤ s.clock.2 ∧
      counter s = p.timerCurrentTime.toNat + (s.clock.2 - n) * tickLength s

/-- The rest of the state keeps a timer waiting that it does not touch. -/
theorem Waiting.other {r : R} {s s' : Counted R C} (h : Waiting r s)
    (hc : s'.clock = s.clock)
    (hp : pendingOneshot r s'.history = pendingOneshot r s.history)
    (hkeep : r ∈ s.tq.queue → r ∈ s'.tq.queue ∧
      (s'.tq.timers r).schedTime = (s.tq.timers r).schedTime) :
    Waiting r s' where
  length := hc ▸ h.length
  linked delay p n hpend := by
    obtain ⟨hmem, hsched⟩ := h.linked delay p n (hp ▸ hpend)
    exact ⟨(hkeep hmem).1, (hkeep hmem).2.trans hsched⟩
  reach delay p n hpend := h.reach delay p n (hp ▸ hpend)
  elapsed delay p n hpend := by
    rw [counter, tickLength]
    rw [hc]
    exact h.elapsed delay p n (hp ▸ hpend)

/-- A timer that is not pending keeps nothing. -/
theorem Waiting.none {r : R} {s s' : Counted R C} (h : Waiting r s)
    (hc : s'.clock = s.clock) (hp : pendingOneshot r s'.history = none) :
    Waiting r s' where
  length := hc ▸ h.length
  linked _ _ _ hpend := by cases hp.symm.trans hpend
  reach _ _ _ hpend := by cases hp.symm.trans hpend
  elapsed _ _ _ hpend := by cases hp.symm.trans hpend

/-- Linking another timer. -/
theorem Waiting.link {r timer : R} {s s' : Counted R C} {t : Timer C}
    {e : TimerEvent R C (PlatformTimer × Nat)} (h : Waiting r s)
    (hlink : Linked s.tq timer t s'.tq) (hc : s'.clock = s.clock)
    (hh : s'.history = e :: s.history)
    (ht : Touches r e = false) (hi : Invokes r e = false) : Waiting r s' := by
  refine h.other hc (by rw [hh, pendingOneshot_of_not_touches ht hi]) ?_
  intro hmem
  exact ⟨hlink.mem_iff.mpr (.inr hmem), by rw [hlink.timers_of_mem hmem]⟩

/-- Arming the timer itself. -/
theorem Waiting.arm {r : R} {s s' : Counted R C} {delay : Time} {t : Timer C}
    (h : Waiting r s) (hlink : Linked s.tq r t s'.tq)
    (ht : t.schedTime = implicitInt (currentTime s.clock.1) + atLeastOne delay)
    (hreach : delay.toNat < 2 ^ 32 → InReach (currentTime s.clock.1) delay)
    (hs : s' = { s with
      tq := s'.tq
      history := .oneshotSet r delay s.clock :: s.history }) :
    Waiting r s' := by
  have hpending : ∀ d p n, pendingOneshot r s'.history = some (d, p, n) →
      d = delay ∧ s.clock = (p, n) := by
    intro d p n hpend
    rw [hs] at hpend
    have heq := Option.some.inj ((if_pos rfl).symm.trans hpend)
    exact ⟨(congrArg Prod.fst heq).symm, congrArg Prod.snd heq⟩
  have hc : s'.clock = s.clock := by rw [hs]
  refine ⟨hc ▸ h.length, ?_, ?_, ?_⟩
  · intro d p n hpend
    obtain ⟨rfl, hk⟩ := hpending d p n hpend
    refine ⟨hlink.mem_iff.mpr (.inl rfl), ?_⟩
    rw [hlink.timers_self, ht, hk]
  · intro d p n hpend
    obtain ⟨rfl, hk⟩ := hpending d p n hpend
    rw [hk] at hreach
    exact hreach
  · intro d p n hpend _
    obtain ⟨rfl, hk⟩ := hpending d p n hpend
    rw [counter, tickLength]
    rw [hc, hk]
    dsimp only
    rw [Nat.sub_self, Nat.zero_mul]
    exact ⟨Nat.le_refl _, rfl⟩

theorem osTimerTick_counter (p : PlatformTimer) :
    (osTimerTick p).2.timerCurrentTime = p.timerCurrentTime + p.timerDeltaTime ∧
      (osTimerTick p).2.timerDeltaTime = p.timerDeltaTime := by
  rw [osTimerTick]
  dsimp only
  split_ifs
  · exact ⟨rfl, rfl⟩
  · exact ⟨rfl, rfl⟩

/-- An interrupt of the timer, at which the counter does not wrap around if
    the timer is pending. -/
theorem Waiting.tick {r : R} {s s' : Counted R C} (h : Waiting r s)
    (hok : KeptInReach r s .tick)
    (hc : s'.clock = ((osTimerTick s.clock.1).2, s.clock.2 + 1))
    (hh : s'.history = s.history) (hq : s'.tq = s.tq) : Waiting r s' := by
  obtain ⟨hcounter, hlength⟩ := osTimerTick_counter s.clock.1
  refine ⟨?_, ?_, fun delay p n hpend => h.reach delay p n (hh ▸ hpend), ?_⟩
  · rw [hc]
    exact hlength.trans h.length
  · intro delay p n hpend
    rw [hq]
    exact h.linked delay p n (hh ▸ hpend)
  · intro delay p n hpend hdelay
    rw [hh] at hpend
    obtain ⟨hn, helapsed⟩ := h.elapsed delay p n hpend hdelay
    have hfits : counter s + tickLength s < 2 ^ 64 := by
      have hnext : NoWrapNext s (pendingOneshot r s.history) := hok
      rw [hpend] at hnext
      exact hnext hdelay
    unfold counter tickLength at *
    rw [hc]
    dsimp only
    rw [hcounter, hlength, add_toNat_of_fits hfits, helapsed]
    refine ⟨Nat.le_succ_of_le hn, ?_⟩
    rw [Nat.succ_sub hn, Nat.succ_mul, Nat.add_assoc]

theorem Waiting.step {r : R} {s s' : Counted R C} {a : Action R C}
    (h : Waiting r s) (hok : KeptInReach r s a)
    (hs : Step countedClock s a s') : Waiting r s' := by
  cases hs with
  | call c _ hc =>
      cases c with
      | setOneshot timer delay callback =>
          have hlink := setOneshot_linked hc
          by_cases heq : timer = r
          · subst heq
            exact h.arm hlink rfl (hok rfl) rfl
          · exact h.link hlink rfl rfl (decide_eq_false heq) rfl
      | setPeriodic timer p callback =>
          by_cases heq : timer = r
          · exact h.none rfl (if_pos heq)
          · exact h.link (setPeriodic_linked hc) rfl rfl (decide_eq_false heq) rfl
      | cancel timer =>
          cases hc
          by_cases heq : timer = r
          · exact h.none rfl (if_pos heq)
          · refine h.other rfl (if_neg heq) fun hmem => ⟨?_, ?_⟩
            · exact mem_timerCancel.mpr ⟨Ne.symm heq, hmem⟩
            · exact timerCancel_schedTime timer r s.tq
  | idle _ ht =>
      refine h.tick hok ?_ rfl rfl
      exact (congrArg Prod.snd ht).symm
  | trigger _ ht =>
      refine h.tick hok ?_ rfl rfl
      exact (congrArg Prod.snd ht).symm
  | @expire now timer rest callback _ hq _ _ =>
      by_cases heq : timer = r
      · exact h.none rfl (if_pos heq)
      · refine h.other rfl (if_neg heq) fun hmem => ⟨?_, rfl⟩
        show r ∈ s.tq.queue.tail
        rw [hq] at hmem ⊢
        exact (List.mem_cons.mp hmem).resolve_left (Ne.symm heq)
  | finish _ _ => exact h.other rfl rfl fun hmem => ⟨hmem, rfl⟩
  | requeue _ _ hq => exact h.link (requeue_linked hq) rfl rfl rfl rfl
  | leave _ _ => exact h.other rfl rfl fun hmem => ⟨hmem, rfl⟩

-- ── In time ──

/-- In reach, `sched_time` is not after the deadline. -/
theorem schedTime_le_of_inReach {time delay : Time}
    (htime : time.toNat < 2 ^ 32) (h : InReach time delay) :
    (implicitInt time + atLeastOne delay).toNat ≤
      time.toNat + (atLeastOne delay).toNat := by
  rw [BitVec.toNat_add]
  by_cases hearly : time.toNat < 2 ^ 31
  · rw [implicitInt_of_lt hearly]
    exact Nat.mod_le _ _
  · have hlate := h.resolve_left hearly
    rw [implicitInt_of_ge (Nat.le_of_not_lt hearly) htime]
    omega

theorem bootClock_length : bootClock.timerDeltaTime.toNat = 42946733293 := by
  decide

/-- **No one-shot timer is lost** that is armed in reach and whose wait the
    counter does not wrap around in: in every run from boot, at the end of
    every `timer_tick` after the one it was armed in, a timer that is still
    pending has waited for less than its delay, measured in interrupts of the
    timer. -/
theorem oneshot_in_time (r : R) (s s' : Counted R C)
    (h : Reachable countedClock (KeptInReach r) (bootClock, 0) s)
    (hs : Step countedClock s .head s') (hout : s'.phase = .outside) :
    InTime r s' := by
  have hw : Waiting r s := Runs.Reachable.invariant (I := Waiting r)
    (show Waiting r (.init (bootClock, 0)) from
      ⟨rfl, by rintro _ _ _ ⟨⟩, by rintro _ _ _ ⟨⟩, by rintro _ _ _ ⟨⟩⟩)
    (fun _ _ _ hI hok hstep => hI.step hok hstep) h
  cases hs with
  | expire _ _ _ _ => cases hout
  | @finish now hp hhead =>
      have htime : countedClock.time s.clock = now := by
        have := onTime_of_reachable h
        rw [OnTime] at this
        rw [hp] at this
        exact this
      intro delay p n hpend hdelay hn
      obtain ⟨hmem, hsched⟩ := hw.linked delay p n hpend
      obtain ⟨-, helapsed⟩ := hw.elapsed delay p n hpend hdelay
      have hlate := (sorted_of_reachable h).not_due hhead r hmem
      -- all of it in unbounded numbers
      have hlength : tickLength s = 42946733293 := by
        rw [tickLength]
        rw [hw.length]
        exact bootClock_length
      have hnow : now.toNat = counter s / 2 ^ 32 := by
        rw [← htime]
        exact currentTime_toNat s.clock.1
      have hp1 := currentTime_toNat p
      have hp2 := p.timerCurrentTime.isLt
      have hone : (atLeastOne delay).toNat = max delay.toNat 1 := by
        rw [atLeastOne]
        split_ifs with h0
        · rw [h0]; rfl
        · have : delay.toNat ≠ 0 := fun h1 => h0 (BitVec.eq_of_toNat_eq h1)
          omega
      have hdue : (s.tq.timers r).schedTime.toNat ≤
          p.timerCurrentTime.toNat / 2 ^ 32 + max delay.toNat 1 := by
        rw [hsched, ← hp1, ← hone]
        exact schedTime_le_of_inReach (by omega)
          (hw.reach delay p n hpend hdelay)
      have hlt : now.toNat < (s.tq.timers r).schedTime.toNat := hlate
      show (s.clock.2 - n) * tickLength s < delay.toNat * 2 ^ 32
      have hn' : n < s.clock.2 := hn
      rw [hlength] at helapsed ⊢
      omega

/-- The theorem at a timer that is armed at boot for 20 ms and is pending at
    the end of the first `timer_tick`, 19 ms after boot. -/
theorem oneshot_in_time_pending :
    ∃ s : Counted Nat Unit, s.clock.2 = 2 ∧
      (pendingOneshot 0 s.history).isSome = true ∧ InTime 0 s := by
  have hrun : (Runs.replay (next countedClock) (KeptInReach 0)
      [.call (.setOneshot 0 20 ()), .tick, .tick]
      (.init (bootClock, 0) : Counted Nat Unit)).any (fun s =>
        (next countedClock s .head).any (fun s' =>
          decide (s'.phase = .outside ∧ s'.clock.2 = 2 ∧
            (pendingOneshot 0 s'.history).isSome = true))) = true := by decide
  obtain ⟨s, hs, hp⟩ := (Option.any_eq_true _ _).mp hrun
  obtain ⟨s', hs', hp'⟩ := (Option.any_eq_true _ _).mp hp
  obtain ⟨hout, hn, hpend⟩ := of_decide_eq_true hp'
  have hreach := Runs.reachable_of_replay (fun _ _ _ => step_of_next) .start hs
  exact ⟨s', hn, hpend, oneshot_in_time 0 s s' hreach (step_of_next hs') hout⟩

-- ── A timer that is lost ──

/-- The clock of the platform at a counter and a next trigger time. -/
def clockAt (current trigger : Time) : PlatformTimer :=
  { bootClock with timerCurrentTime := current, nextTriggerTime := trigger }

theorem add_sub_sub (c d t : Time) : c + d - (c - t) = t + d := by
  refine BitVec.eq_of_toNat_eq ?_
  rw [BitVec.toNat_sub, BitVec.toNat_sub, BitVec.toNat_add, BitVec.toNat_add]
  have := c.isLt
  have := d.isLt
  have := t.isLt
  omega

theorem bootClock_delta : bootClock.nextTriggerDelta = 42949672960 := by decide

theorem osTimerTick_clockAt (c t : Time) :
    osTimerTick (clockAt c t) =
      if c + 42946733293 ≥ t then
        (some ((c + 42946733293) >>> 32),
          clockAt (c + 42946733293) (t + 42949672960))
      else (none, clockAt (c + 42946733293) t) := by
  have hlength : bootClock.timerDeltaTime = 42946733293 := by decide
  have hcallback : bootClock.callback = true := by decide
  unfold osTimerTick currentTime clockAt
  dsimp only
  rw [hlength, hcallback, bootClock_delta]
  by_cases h : c + 42946733293 ≥ t
  · rw [if_pos ⟨rfl, h⟩, if_pos h, add_sub_sub]
  · rw [if_neg fun h' => h h'.2, if_neg h]

section Lost

variable {tq : TimerQueue Nat Unit}

/-- The machine `n` interrupts after boot: the timer 0 has been armed at boot
    for 2^32 - 1 ms and is pending. -/
def waitingState (tq : TimerQueue Nat Unit) (c t : Time) (n : Nat) :
    Counted Nat Unit :=
  ⟨tq, (clockAt c t, n), .outside, [.oneshotSet 0 0xffffffff#64 (bootClock, 0)]⟩

/-- Any run from boot. -/
abbrev FromBoot (s : Counted Nat Unit) : Prop :=
  Reachable countedClock (fun _ _ => True) (bootClock, 0) s

/-- An interrupt before the deadline leaves the timer where it is. -/
theorem waits (hq : tq.queue = [0])
    (hsched : (tq.timers 0).schedTime = 0xffffffff#64) {c t : Time} {n : Nat}
    (h : FromBoot (waitingState tq c t n))
    (hnow : (c + 42946733293) >>> 32 < 0xffffffff#64) :
    FromBoot (waitingState tq (c + 42946733293)
      (if c + 42946733293 ≥ t then t + 42949672960 else t) (n + 1)) := by
  have htick := osTimerTick_clockAt c t
  generalize c + 42946733293 = c' at htick hnow ⊢
  by_cases hreach : c' ≥ t
  · rw [if_pos hreach] at htick ⊢
    generalize t + 42949672960 = t' at htick ⊢
    have htold : countedClock.tick (clockAt c t, n) =
        (some (c' >>> 32), clockAt c' t', n + 1) := by
      show ((osTimerTick (clockAt c t)).1, (osTimerTick (clockAt c t)).2, n + 1) = _
      rw [htick]
    refine .next .head (.next .tick h trivial (.trigger rfl htold)) trivial
      (.finish rfl fun timer rest heq => ?_)
    cases hq.symm.trans heq
    show _ < (tq.timers 0).schedTime
    rw [hsched]
    exact hnow
  · rw [if_neg hreach] at htick ⊢
    have htold : countedClock.tick (clockAt c t, n) =
        (none, clockAt c' t, n + 1) := by
      show ((osTimerTick (clockAt c t)).1, (osTimerTick (clockAt c t)).2, n + 1) = _
      rw [htick]
    exact .next .tick h trivial (.idle rfl htold)

/-- The state `n` interrupts after boot, while nothing wraps around. -/
theorem waits_until (hq : tq.queue = [0])
    (hsched : (tq.timers 0).schedTime = 0xffffffff#64)
    (h0 : FromBoot (waitingState tq 0 42949672960 0)) (n : Nat)
    (hn : n ≤ 429526127) :
    ∃ c t, FromBoot (waitingState tq c t n) ∧ c.toNat = 42946733293 * n ∧
      t.toNat = 42949672960 * (42946733293 * n / 42949672960 + 1) := by
  induction n with
  | zero => exact ⟨0, 42949672960, h0, by decide, by decide⟩
  | succ n ih =>
      obtain ⟨c, t, hr, hc, ht⟩ := ih (by omega)
      have hd : (42946733293 : Time).toNat = 42946733293 := by decide
      have hD : (42949672960 : Time).toNat = 42949672960 := by decide
      have hc' : (c + 42946733293).toNat = 42946733293 * (n + 1) := by
        rw [BitVec.toNat_add, hc, hd]
        omega
      refine ⟨_, _, waits hq hsched hr ?_, hc', ?_⟩
      · rw [BitVec.lt_def, BitVec.toNat_ushiftRight, hc', Nat.shiftRight_eq_div_pow]
        show _ < 0xffffffff
        omega
      · have hreach : c + 42946733293 ≥ t ↔ t.toNat ≤ (c + 42946733293).toNat :=
          Iff.rfl
        rw [hc', ht] at hreach
        split_ifs with h
        · rw [hreach] at h
          have hquot : 42946733293 * (n + 1) / 42949672960 =
              42946733293 * n / 42949672960 + 1 := by omega
          have hbound : 42946733293 * (n + 1) / 42949672960 ≤ 429496728 := by omega
          rw [BitVec.toNat_add, ht, hD, hquot]
          omega
        · rw [hreach] at h
          have hquot : 42946733293 * (n + 1) / 42949672960 =
              42946733293 * n / 42949672960 := by omega
          rw [ht, hquot]

end Lost

/-- A timer that is armed at boot for 2^32 - 1 ms is still pending at the end
    of the `timer_tick` of interrupt 429526129, at which it has waited for
    longer: the counter wraps around at this interrupt, and `current_time` is
    7 ms again. -/
theorem oneshot_lost :
    ¬ ∀ (r : Nat) (s s' : Counted Nat Unit),
      Reachable countedClock (fun _ _ => True) (bootClock, 0) s →
      Step countedClock s .head s' → s'.phase = .outside → InTime r s' := by
  intro h
  have hunlinked : (0 : Nat) ∉
      (TimerSystem.init (bootClock, 0) : Counted Nat Unit).tq.queue :=
    List.not_mem_nil
  obtain ⟨tq, hset, -⟩ :=
    timerSet_spec (currentTime bootClock) 0xffffffff#64 0 () hunlinked
  have hlink := insertTimerInQueue_linked hset
  have hsched : (tq.timers 0).schedTime = 0xffffffff#64 := by
    rw [hlink.timers_self]
    decide
  have hboot : bootClock = clockAt 0 42949672960 := by
    have h1 : bootClock.timerCurrentTime = 0 := by decide
    have h2 : bootClock.nextTriggerTime = 42949672960 := by decide
    rw [clockAt]
    rw [← h1, ← h2]
  have harm : Step countedClock (TimerSystem.init (bootClock, 0))
      (.call (.setOneshot 0 0xffffffff#64 ()))
      (⟨tq, (bootClock, 0), .outside,
        [.oneshotSet 0 0xffffffff#64 (bootClock, 0)]⟩ : Counted Nat Unit) :=
    .call _ trivial hset
  have h0 : FromBoot (waitingState tq 0 42949672960 0) := by
    rw [waitingState]
    rw [← hboot]
    exact .next _ .start trivial harm
  obtain ⟨c, t, hr, hc, ht⟩ := waits_until hlink.queue hsched h0 429526127 (by omega)
  have hc' : c = 18446744018644246211#64 := BitVec.eq_of_toNat_eq (hc.trans (by decide))
  have ht' : t = 18446744047939747840#64 := BitVec.eq_of_toNat_eq (ht.trans (by decide))
  subst hc' ht'
  -- interrupt 429526128: the next trigger time wraps around
  have hr1 := waits hlink.queue hsched hr (by decide)
  have h1 : FromBoot (waitingState tq 18446744061590979504#64 17179869184#64 429526128) := hr1
  -- interrupt 429526129: the counter does
  have htick := osTimerTick_clockAt 18446744061590979504#64 17179869184#64
  rw [if_pos (by decide)] at htick
  have htold : countedClock.tick (clockAt 18446744061590979504#64 17179869184#64, 429526128) =
      (some 7#64, clockAt 30828161181#64 60129542144#64, 429526129) := by
    show ((osTimerTick (clockAt _ _)).1, (osTimerTick (clockAt _ _)).2, _) = _
    rw [htick]
    rfl
  have h2 := Runs.Reachable.next .tick h1 trivial (.trigger rfl htold)
  have hlate := h 0 _ _ h2 (.finish rfl fun timer rest heq => ?_) rfl
    0xffffffff#64 bootClock 0 rfl (by decide) (Nat.succ_pos 429526128)
  · have hlength : (clockAt 30828161181#64 60129542144#64).timerDeltaTime.toNat = 42946733293 :=
      bootClock_length
    have hlt : (429526129 - 0) * (clockAt 30828161181#64 60129542144#64).timerDeltaTime.toNat <
        (0xffffffff#64).toNat * 2 ^ 32 := hlate
    rw [hlength] at hlt
    exact absurd hlt (by decide)
  · cases hlink.queue.symm.trans heq
    show 7#64 < (tq.timers 0).schedTime
    rw [hsched]
    decide

end ChinixTimerLoss

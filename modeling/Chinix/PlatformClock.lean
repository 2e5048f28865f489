import Chinix.PlatformTimer
import Mathlib.Algebra.Order.Group.Abs
import Mathlib.Algebra.Order.Ring.Int
import Mathlib.Data.List.ReduceOption

/-! # The periodic timer over many ticks, and the period of the PIT

    `platform_set_periodic_timer` sets the first trigger time, and every tick
    that reaches a trigger time adds the interval to that trigger time, not to
    the clock: what a tick came too late is not lost.  So long as no trigger
    time passes the end of the 64-bit clock, the callback is called once for
    every whole interval that the clock has advanced. -/

namespace ChinixPlatformClock

open ChinixTimerQueue ChinixPlatformTimer

/-! ## Ticks in a row -/

/-- What `n` calls of `os_timer_tick` in a row return, and the state behind
    them. -/
def osTimerTicks : Nat → PlatformTimer → List (Option Time) × PlatformTimer
  | 0, p => ([], p)
  | n + 1, p =>
      let ticks := osTimerTicks n p
      let tick := osTimerTick ticks.2
      (ticks.1 ++ [tick.1], tick.2)

/-- The times that the callback is called with. -/
def callbackTimes (n : Nat) (p : PlatformTimer) : List Time :=
  (osTimerTicks n p).1.reduceOption

variable {p : PlatformTimer} {n : Nat}

theorem osTimerTicks_succ (n : Nat) (p : PlatformTimer) :
    osTimerTicks (n + 1) p =
      ((osTimerTicks n p).1 ++ [(osTimerTick (osTimerTicks n p).2).1],
        (osTimerTick (osTimerTicks n p).2).2) := rfl

theorem length_osTimerTicks (n : Nat) (p : PlatformTimer) :
    (osTimerTicks n p).1.length = n := by
  induction n with
  | zero => rfl
  | succ n ih => rw [osTimerTicks_succ, List.length_append, ih]; rfl

/-- **One tick.**  A tick that reaches the trigger time moves that time one
    interval on. -/
theorem osTimerTick_eq (hcb : p.callback = true) :
    osTimerTick p =
      let clock := p.timerCurrentTime + p.timerDeltaTime
      if p.nextTriggerTime ≤ clock then
        (some (clock >>> 32),
          { p with
            timerCurrentTime := clock
            nextTriggerTime := p.nextTriggerTime + p.nextTriggerDelta })
      else (none, { p with timerCurrentTime := clock }) := by
  simp only [osTimerTick, currentTime, hcb, true_and, ge_iff_le]
  split
  · congr 2
    bv_omega
  · rfl

/-- The multiples of a word. -/
theorem ofNat_succ_mul (x : BitVec 64) (n : Nat) :
    BitVec.ofNat 64 (n + 1) * x = BitVec.ofNat 64 n * x + x := by
  rw [BitVec.ofNat_add, BitVec.add_mul, BitVec.one_mul]

/-- The clock after `n` ticks. -/
def clockAfter (p : PlatformTimer) (n : Nat) : Time :=
  p.timerCurrentTime + BitVec.ofNat 64 n * p.timerDeltaTime

/-- The trigger time after `calls` calls. -/
def triggerAfter (p : PlatformTimer) (interval : Time) (calls : Nat) : Time :=
  p.timerCurrentTime + BitVec.ofNat 64 (calls + 1) * (interval <<< 32)

/-- What holds after `n` ticks: the clock has advanced `n` times, and the
    trigger time is one interval behind those that were reached. -/
structure Periodic (p : PlatformTimer) (interval : Time) (n calls : Nat)
    (q : PlatformTimer) : Prop where
  clock : q.timerCurrentTime = clockAfter p n
  trigger : q.nextTriggerTime = triggerAfter p interval calls
  callback : q.callback = true
  delta : q.timerDeltaTime = p.timerDeltaTime
  interval : q.nextTriggerDelta = interval <<< 32

theorem clockAfter_succ (p : PlatformTimer) (n : Nat) :
    clockAfter p (n + 1) = clockAfter p n + p.timerDeltaTime := by
  rw [clockAfter, ofNat_succ_mul, ← BitVec.add_assoc, clockAfter]

theorem triggerAfter_succ (p : PlatformTimer) (interval : Time) (n : Nat) :
    triggerAfter p interval (n + 1) =
      triggerAfter p interval n + interval <<< 32 := by
  rw [triggerAfter, ofNat_succ_mul, ← BitVec.add_assoc, triggerAfter]

theorem periodic_set (p : PlatformTimer) (interval : Time) :
    Periodic p interval 0 0 (platformSetPeriodicTimer interval p) := by
  constructor <;> simp [platformSetPeriodicTimer, clockAfter, triggerAfter]

/-- A tick that reaches the trigger time. -/
theorem Periodic.tick_call {interval : Time} {calls : Nat} {q : PlatformTimer}
    (h : Periodic p interval n calls q)
    (hreached : triggerAfter p interval calls ≤ clockAfter p (n + 1)) :
    (osTimerTick q).1 = some (clockAfter p (n + 1) >>> 32) ∧
      Periodic p interval (n + 1) (calls + 1) (osTimerTick q).2 := by
  have hclock : q.timerCurrentTime + q.timerDeltaTime =
      clockAfter p (n + 1) := by
    rw [h.clock, h.delta, clockAfter_succ]
  have htick := osTimerTick_eq h.callback
  simp only [hclock, h.trigger, h.interval] at htick
  rw [if_pos hreached, ← triggerAfter_succ] at htick
  rw [htick]
  exact ⟨rfl, rfl, rfl, h.callback, h.delta, rfl⟩

/-- A tick before the trigger time. -/
theorem Periodic.tick_none {interval : Time} {calls : Nat} {q : PlatformTimer}
    (h : Periodic p interval n calls q)
    (hreached : ¬ triggerAfter p interval calls ≤ clockAfter p (n + 1)) :
    (osTimerTick q).1 = none ∧
      Periodic p interval (n + 1) calls (osTimerTick q).2 := by
  have hclock : q.timerCurrentTime + q.timerDeltaTime =
      clockAfter p (n + 1) := by
    rw [h.clock, h.delta, clockAfter_succ]
  have htick := osTimerTick_eq h.callback
  simp only [hclock, h.trigger] at htick
  rw [if_neg hreached] at htick
  rw [htick]
  exact ⟨rfl, rfl, rfl, h.callback, h.delta, h.interval⟩

/-- **The run.**  What holds after any number of ticks. -/
theorem periodic_ticks (p : PlatformTimer) (interval : Time) (n : Nat) :
    Periodic p interval n
      (callbackTimes n (platformSetPeriodicTimer interval p)).length
      (osTimerTicks n (platformSetPeriodicTimer interval p)).2 := by
  induction n with
  | zero => exact periodic_set p interval
  | succ n ih =>
      rw [callbackTimes, osTimerTicks_succ, List.reduceOption_append,
        List.length_append]
      by_cases hreached : triggerAfter p interval
          (callbackTimes n (platformSetPeriodicTimer interval p)).length ≤
            clockAfter p (n + 1)
      · obtain ⟨htick, hq⟩ := ih.tick_call hreached
        rw [htick]
        exact hq
      · obtain ⟨htick, hq⟩ := ih.tick_none hreached
        rw [htick]
        exact hq

/-- A tick counts when it reaches the trigger time in force. -/
theorem length_callbackTimes_succ (p : PlatformTimer) (interval : Time)
    (n : Nat) :
    let q := platformSetPeriodicTimer interval p
    (callbackTimes (n + 1) q).length = (callbackTimes n q).length +
      if triggerAfter p interval (callbackTimes n q).length ≤
        clockAfter p (n + 1) then 1 else 0 := by
  intro q
  rw [callbackTimes, osTimerTicks_succ, List.reduceOption_append,
    List.length_append]
  have h := periodic_ticks p interval n
  by_cases hreached : triggerAfter p interval (callbackTimes n q).length ≤
      clockAfter p (n + 1)
  · rw [(h.tick_call hreached).1, if_pos hreached]
    rfl
  · rw [(h.tick_none hreached).1, if_neg hreached]
    rfl

/-- A call passes the milliseconds of the clock. -/
theorem osTimerTicks_time (p : PlatformTimer) (interval : Time) (n i : Nat)
    (t : Time)
    (h : (osTimerTicks n (platformSetPeriodicTimer interval p)).1[i]? =
      some (some t)) : t = clockAfter p (i + 1) >>> 32 := by
  induction n with
  | zero => simp [osTimerTicks] at h
  | succ n ih =>
      rw [osTimerTicks_succ, List.getElem?_append,
        length_osTimerTicks] at h
      split at h
      · exact ih h
      · -- the last tick
        rename_i hlast
        rw [List.getElem?_singleton] at h
        split at h
        · have hi : i = n := by omega
          have hp := periodic_ticks p interval n
          by_cases hreached : triggerAfter p interval (callbackTimes n
              (platformSetPeriodicTimer interval p)).length ≤
                clockAfter p (n + 1)
          · rw [(hp.tick_call hreached).1] at h
            cases h
            rw [hi]
          · rw [(hp.tick_none hreached).1] at h
            cases h
        · cases h

/-! ## Without drift -/

/-- **No drift.**  Of the `n` ticks after the timer is set, as many call the
    callback as whole intervals go into the time that the clock has advanced,
    and a call passes the whole milliseconds of the clock at its tick. -/
structure NoDrift (p : PlatformTimer) (interval : Time) (n : Nat) : Prop where
  calls : (callbackTimes n (platformSetPeriodicTimer interval p)).length =
    n * p.timerDeltaTime.toNat / (interval.toNat * 2 ^ 32)
  times : ∀ i t, (osTimerTicks n (platformSetPeriodicTimer interval p)).1[i]? =
      some (some t) →
    t.toNat = (p.timerCurrentTime.toNat +
      (i + 1) * p.timerDeltaTime.toNat) / 2 ^ 32

/-- The interval fits the fixed-point format, or its lower half is not reached;
    and the trigger time in force at the last tick fits in 64 bits. -/
def TriggerFits (p : PlatformTimer) (interval : Time) (n : Nat) : Prop :=
  n = 0 ∨
    (interval.toNat < 2 ^ 32 ∨
      n * p.timerDeltaTime.toNat < interval.toNat * 2 ^ 32 % 2 ^ 64) ∧
    p.timerCurrentTime.toNat +
      ((n - 1) * p.timerDeltaTime.toNat / (interval.toNat * 2 ^ 32) + 1) *
        (interval.toNat * 2 ^ 32 % 2 ^ 64) < 2 ^ 64

instance (p : PlatformTimer) (interval : Time) (n : Nat) :
    Decidable (TriggerFits p interval n) := by
  unfold TriggerFits
  infer_instance

theorem toNat_clockAfter (h : p.timerCurrentTime.toNat +
      n * p.timerDeltaTime.toNat < 2 ^ 64) :
    (clockAfter p n).toNat =
      p.timerCurrentTime.toNat + n * p.timerDeltaTime.toNat := by
  rw [clockAfter, BitVec.toNat_add, BitVec.toNat_mul, BitVec.toNat_ofNat,
    Nat.mod_mul_mod, Nat.add_mod_mod, Nat.mod_eq_of_lt h]

theorem toNat_triggerAfter (p : PlatformTimer) (interval : Time) (n : Nat) :
    (triggerAfter p interval n).toNat = (p.timerCurrentTime.toNat +
      (n + 1) * (interval.toNat * 2 ^ 32 % 2 ^ 64)) % 2 ^ 64 := by
  rw [triggerAfter, BitVec.toNat_add, BitVec.toNat_mul, BitVec.toNat_ofNat,
    Nat.mod_mul_mod, Nat.add_mod_mod, BitVec.toNat_shiftLeft,
    Nat.shiftLeft_eq]

section Drift

variable {p : PlatformTimer} {interval : Time} {n m : Nat}

/-- When a tick reaches the trigger time in force, in whole numbers. -/
theorem reached_iff (hclock : p.timerCurrentTime.toNat +
      (n + 1) * p.timerDeltaTime.toNat < 2 ^ 64) :
    triggerAfter p interval m ≤ clockAfter p (n + 1) ↔
      (p.timerCurrentTime.toNat +
          (m + 1) * (interval.toNat * 2 ^ 32 % 2 ^ 64)) % 2 ^ 64 ≤
        p.timerCurrentTime.toNat + (n + 1) * p.timerDeltaTime.toNat := by
  rw [BitVec.le_def, toNat_triggerAfter, toNat_clockAfter hclock]

/-- The whole intervals in `n + 1` steps, none of them longer than one. -/
theorem div_succ {d I : Nat} (hI : 0 < I) (hd : d ≤ I) :
    (n + 1) * d / I =
      n * d / I + if (n * d / I + 1) * I ≤ (n + 1) * d then 1 else 0 := by
  have hhigh : n * d < n * d / I * I + I := Nat.lt_div_mul_add hI
  have hlow : n * d / I * I ≤ n * d := Nat.div_mul_le_self _ _
  rw [Nat.add_one_mul, Nat.add_one_mul]
  split
  · refine Nat.div_eq_of_lt_le ?_ ?_ <;> rw [Nat.add_one_mul]
    · assumption
    · rw [Nat.add_one_mul]
      omega
  · refine Nat.div_eq_of_lt_le ?_ ?_
    · rw [Nat.add_zero]
      omega
    · rw [Nat.add_zero, Nat.add_one_mul]
      omega

/-- Before a trigger time that fits there was none that did not. -/
theorem TriggerFits.pred (h : TriggerFits p interval (n + 1)) :
    TriggerFits p interval n := by
  obtain h0 | ⟨hlow, htrigger⟩ := h
  · exact absurd h0 (Nat.succ_ne_zero n)
  · refine .inr ⟨hlow.imp_right fun hlt => ?_, ?_⟩
    · exact Nat.lt_of_le_of_lt (Nat.mul_le_mul_right _ (Nat.le_succ n)) hlt
    · refine Nat.lt_of_le_of_lt (Nat.add_le_add_left ?_ _) htrigger
      refine Nat.mul_le_mul_right _ (Nat.add_le_add_right ?_ 1)
      exact Nat.div_le_div_right (Nat.mul_le_mul_right _ (Nat.sub_le n 1))

/-- While the trigger times fit, no interval is missed or counted twice. -/
theorem length_callbackTimes_of_fits (hpos : 1 ≤ interval.toNat)
    (hdelta : p.timerDeltaTime.toNat ≤ interval.toNat * 2 ^ 32)
    (hclock : p.timerCurrentTime.toNat + n * p.timerDeltaTime.toNat < 2 ^ 64)
    (hfits : TriggerFits p interval n) :
    (callbackTimes n (platformSetPeriodicTimer interval p)).length =
      n * p.timerDeltaTime.toNat / (interval.toNat * 2 ^ 32) := by
  induction n with
  | zero => simp [callbackTimes, osTimerTicks]
  | succ n ih =>
      have hadvance := Nat.add_one_mul n p.timerDeltaTime.toNat
      have hcalls := ih (by omega) hfits.pred
      obtain h0 | ⟨hlow, htrigger⟩ := hfits
      · exact absurd h0 (Nat.succ_ne_zero n)
      rw [Nat.add_sub_cancel] at htrigger
      rw [length_callbackTimes_succ, hcalls, div_succ (by omega) hdelta]
      simp only [reached_iff hclock, Nat.mod_eq_of_lt htrigger,
        Nat.add_le_add_iff_left]
      by_cases hshort : interval.toNat < 2 ^ 32
      · rw [Nat.mod_eq_of_lt (by omega)]
      · -- nothing but the lower half of the interval is compared
        have hlt := hlow.resolve_left hshort
        have hle : interval.toNat * 2 ^ 32 % 2 ^ 64 ≤
          interval.toNat * 2 ^ 32 := Nat.mod_le _ _
        have hzero : n * p.timerDeltaTime.toNat /
          (interval.toNat * 2 ^ 32) = 0 := Nat.div_eq_of_lt (by omega)
        rw [hzero, if_neg (by omega), if_neg (by omega)]

/-- Once a trigger time does not fit, the clock reaches no further interval. -/
theorem div_succ_of_not_fits (hpos : 1 ≤ interval.toNat)
    (hclock : p.timerCurrentTime.toNat +
      (n + 1) * p.timerDeltaTime.toNat < 2 ^ 64)
    (hfits : ¬ TriggerFits p interval (n + 1)) :
    (n + 1) * p.timerDeltaTime.toNat / (interval.toNat * 2 ^ 32) =
      n * p.timerDeltaTime.toNat / (interval.toNat * 2 ^ 32) := by
  have hadvance := Nat.add_one_mul n p.timerDeltaTime.toNat
  refine Nat.le_antisymm ?_ (Nat.div_le_div_right (by omega))
  by_cases hshort : interval.toNat < 2 ^ 32
  · rw [TriggerFits, not_or, Nat.add_sub_cancel,
      Nat.mod_eq_of_lt (by omega)] at hfits
    have htrigger := fun h => hfits.2 ⟨.inl hshort, h⟩
    refine Nat.le_of_lt_add_one ?_
    rw [Nat.div_lt_iff_lt_mul (by omega)]
    omega
  · rw [Nat.div_eq_of_lt (by omega)]
    exact Nat.zero_le _

/-- The first trigger time that does not fit is reached too early. -/
theorem reached_of_not_fits
    (hclock : p.timerCurrentTime.toNat +
      (n + 1) * p.timerDeltaTime.toNat < 2 ^ 64)
    (hfits : ¬ TriggerFits p interval (n + 1)) :
    triggerAfter p interval
      (n * p.timerDeltaTime.toNat / (interval.toNat * 2 ^ 32)) ≤
        clockAfter p (n + 1) := by
  have hadvance := Nat.add_one_mul n p.timerDeltaTime.toNat
  rw [reached_iff hclock]
  rw [TriggerFits, not_or, Nat.add_sub_cancel, not_and_or] at hfits
  obtain hlow | htrigger := hfits.2
  · rw [not_or] at hlow
    rw [Nat.div_eq_of_lt (by omega)]
    refine Nat.le_trans (Nat.mod_le _ _) ?_
    omega
  · -- the sum passes 2^64 once
    have hcut : interval.toNat * 2 ^ 32 % 2 ^ 64 < 2 ^ 64 :=
      Nat.mod_lt _ (by decide)
    have hle : interval.toNat * 2 ^ 32 % 2 ^ 64 ≤ interval.toNat * 2 ^ 32 :=
      Nat.mod_le _ _
    have hpassed := Nat.le_trans (Nat.mul_le_mul_left
      (n * p.timerDeltaTime.toNat / (interval.toNat * 2 ^ 32)) hle)
      (Nat.div_mul_le_self _ _)
    rw [Nat.add_one_mul] at htrigger ⊢
    rw [Nat.mod_eq_sub_mod (by omega), Nat.mod_eq_of_lt (by omega)]
    omega

/-- From the first trigger time that does not fit on there is a call too
    many. -/
theorem lt_length_callbackTimes_of_not_fits (hpos : 1 ≤ interval.toNat)
    (hdelta : p.timerDeltaTime.toNat ≤ interval.toNat * 2 ^ 32)
    (hclock : p.timerCurrentTime.toNat + n * p.timerDeltaTime.toNat < 2 ^ 64)
    (hfits : ¬ TriggerFits p interval n) :
    n * p.timerDeltaTime.toNat / (interval.toNat * 2 ^ 32) <
      (callbackTimes n (platformSetPeriodicTimer interval p)).length := by
  induction n with
  | zero => exact absurd (.inl rfl) hfits
  | succ n ih =>
      have hadvance := Nat.add_one_mul n p.timerDeltaTime.toNat
      rw [div_succ_of_not_fits hpos hclock hfits, length_callbackTimes_succ]
      by_cases hprev : TriggerFits p interval n
      · rw [length_callbackTimes_of_fits hpos hdelta (by omega) hprev,
          if_pos (reached_of_not_fits hclock hfits)]
        exact Nat.lt_succ_self _
      · exact Nat.lt_of_lt_of_le (ih (by omega) hprev) (Nat.le_add_right _ _)

/-- **The periodic timer drifts from the first trigger time on that does not
    fit in 64 bits**, and not before. -/
theorem noDrift_iff_triggerFits (hpos : 1 ≤ interval.toNat)
    (hdelta : p.timerDeltaTime.toNat ≤ interval.toNat * 2 ^ 32)
    (hclock :
      p.timerCurrentTime.toNat + n * p.timerDeltaTime.toNat < 2 ^ 64) :
    NoDrift p interval n ↔ TriggerFits p interval n := by
  constructor
  · intro h
    by_contra hfits
    have hlt := lt_length_callbackTimes_of_not_fits hpos hdelta hclock hfits
    exact absurd h.calls (Nat.ne_of_gt hlt)
  · intro hfits
    refine ⟨length_callbackTimes_of_fits hpos hdelta hclock hfits, ?_⟩
    intro i t ht
    have hi : i < n := by
      rw [← length_osTimerTicks n (platformSetPeriodicTimer interval p)]
      exact (List.getElem?_eq_some_iff.mp ht).1
    have hle := Nat.mul_le_mul_right p.timerDeltaTime.toNat
      (Nat.succ_le_of_lt hi)
    rw [osTimerTicks_time p interval n i t ht, BitVec.toNat_ushiftRight,
      toNat_clockAfter (Nat.lt_of_le_of_lt (Nat.add_le_add_left hle _) hclock),
      Nat.shiftRight_eq_div_pow]

/-- The timer 16 milliseconds before its clock wraps. -/
def lateTimer : PlatformTimer :=
  { setPitFrequency 1000 PlatformTimer.zero with
    timerCurrentTime := 0xfffffff000000000 }

theorem noDrift_iff_triggerFits_lateTimer :
    NoDrift lateTimer 10 1 ↔ TriggerFits lateTimer 10 1 :=
  noDrift_iff_triggerFits (by decide) (by decide) (by decide)

/-- The next trigger time of a late timer is past the end of the clock; cut to
    64 bits it is reached at once. -/
theorem lateTimer_drifts : ¬ ∀ (p : PlatformTimer) (interval : Time) (n : Nat),
    1 ≤ interval.toNat →
    p.timerDeltaTime.toNat ≤ interval.toNat * 2 ^ 32 →
    p.timerCurrentTime.toNat + n * p.timerDeltaTime.toNat < 2 ^ 64 →
    NoDrift p interval n := by
  intro h
  have hcalls := (h lateTimer 20 1 (by decide) (by decide) (by decide)).calls
  revert hcalls
  decide

end Drift

/-! ## The period of the PIT -/

/-- **The programmed period.**  The count is within one cycle of the
    frequency's period, fits the 16-bit divisor, and the clock's step is the
    length of that many cycles. -/
structure ProgramsPeriod (frequency : BitVec 32) (p : PlatformTimer) :
    Prop where
  close : |((pitCount frequency).toNat * frequency.toNat : Int) - 1193182| ≤
    frequency.toNat
  fits : (pitCount frequency).toNat < 2 ^ 16
  divisor : (setPitFrequency frequency p).divisor.toNat =
    (pitCount frequency).toNat
  delta : (setPitFrequency frequency p).timerDeltaTime =
    (3685982306#64 *
      (setPitFrequency frequency p).divisor.zeroExtend 64) >>> 10

/-- 1000 Hz, the frequency of `platform_init_timer`, gets 100 Hz. -/
theorem thousandHertz_missed : ¬ ∀ (frequency : BitVec 32) (p : PlatformTimer),
    18 < frequency.toNat → frequency.toNat < 1193182 →
    ProgramsPeriod frequency p := by
  intro h
  have hclose := (h 1000 PlatformTimer.zero (by decide) (by decide)).close
  revert hclose
  decide

/-- The rounding down of the two divisions loses less than one cycle. -/
theorem lt_pitCount_mul {frequency : BitVec 32} (hlow : 18 < frequency.toNat)
    (hhigh : frequency.toNat < 1193182) :
    11931821 < ((pitCount frequency).toNat + 1) * frequency.toNat := by
  have hlow' : ¬ frequency ≤ 18 := by
    rw [BitVec.le_def]
    exact Nat.not_le.mpr hlow
  have hhigh' : ¬ frequency ≥ internalFreq := by
    rw [ge_iff_le, BitVec.le_def]
    exact Nat.not_le.mpr hhigh
  -- a remainder of a division by less than half the constant is not half of it
  have hround : ¬ internalFreq3x % frequency ≥ internalFreq3x / 2 := by
    rw [ge_iff_le, BitVec.le_def, BitVec.toNat_umod]
    have := Nat.mod_lt internalFreq3x.toNat (Nat.lt_trans (by decide) hlow)
    exact Nat.not_le.mpr (Nat.lt_trans this (Nat.lt_trans hhigh (by decide)))
  have hcount : (internalFreq3x / frequency / 3).toNat =
      35795464 / frequency.toNat / 3 := by
    rw [BitVec.toNat_udiv, BitVec.toNat_udiv]
    rfl
  have hup : 35795464 / frequency.toNat / 3 ≤ (pitCount frequency).toNat := by
    rw [pitCount, if_neg hlow', if_neg hhigh']
    simp only [if_neg hround]
    split
    · have hle : 35795464 / frequency.toNat ≤ 35795464 := Nat.div_le_self _ _
      have hone : (1 : BitVec 32).toNat = 1 := rfl
      rw [BitVec.toNat_add, hcount, hone, Nat.mod_eq_of_lt (by omega)]
      exact Nat.le_succ _
    · exact hcount.ge
  have hquot : 35795464 < 35795464 / frequency.toNat * frequency.toNat +
    frequency.toNat := Nat.lt_div_mul_add (by omega)
  have hthird : 35795464 / frequency.toNat ≤
    3 * (35795464 / frequency.toNat / 3) + 2 := by omega
  have hmul := Nat.mul_le_mul_right frequency.toNat
    (Nat.le_trans hthird (Nat.add_le_add_right (Nat.mul_le_mul_left 3 hup) 2))
  rw [Nat.add_mul, Nat.mul_assoc] at hmul
  rw [Nat.add_one_mul]
  omega

/-- **`INTERNAL_FREQ_3X` is ten times three times the frequency of the PIT**:
    no frequency gets its period. -/
theorem not_programsPeriod (frequency : BitVec 32) (p : PlatformTimer)
    (hlow : 18 < frequency.toNat) (hhigh : frequency.toNat < 1193182) :
    ¬ ProgramsPeriod frequency p := by
  intro h
  have hclose := (abs_le.mp h.close).2
  have hlt := lt_pitCount_mul hlow hhigh
  rw [Nat.add_one_mul] at hlt
  omega

theorem not_programsPeriod_1000 :
    ¬ ProgramsPeriod 1000 PlatformTimer.zero :=
  not_programsPeriod 1000 PlatformTimer.zero (by decide) (by decide)

end ChinixPlatformClock

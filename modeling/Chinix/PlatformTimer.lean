import Chinix.TimerQueue

/-! # The platform timer (driver/timer/platform_timer.c)

    The clock counts milliseconds in 32.32 fixed point.  Every interrupt of
    the PIT advances it by `timer_delta_time` and, once the next trigger time
    is reached, calls the registered callback with the whole milliseconds. -/

namespace ChinixPlatformTimer

open ChinixTimerQueue

/-- The static variables of the driver that the clock depends on. -/
structure PlatformTimer where
  callback : Bool
  nextTriggerTime : BitVec 64
  nextTriggerDelta : BitVec 64
  timerDeltaTime : BitVec 64
  timerCurrentTime : BitVec 64
  divisor : BitVec 16

/-- The zeroed statics. -/
def PlatformTimer.zero : PlatformTimer := ⟨false, 0, 0, 0, 0, 0⟩

/-- `INTERNAL_FREQ`. -/
def internalFreq : BitVec 32 := 1193182#32

/-- `INTERNAL_FREQ_3X`. -/
def internalFreq3x : BitVec 32 := 35795464#32

/-- The `count` that `set_pit_frequency` computes. -/
def pitCount (frequency : BitVec 32) : BitVec 32 :=
  if frequency ≤ 18 then 0xffff
  else if frequency ≥ internalFreq then 1
  else
    let count := internalFreq3x / frequency
    let remainder := internalFreq3x % frequency
    let count := if remainder ≥ internalFreq3x / 2 then count + 1 else count
    let count := count / 3
    let remainder := count % 3
    if remainder ≥ 1 then count + 1 else count

/-- `set_pit_frequency`, without the writes to the PIT ports. -/
def setPitFrequency (frequency : BitVec 32) (p : PlatformTimer) :
    PlatformTimer :=
  let count := pitCount frequency
  { p with
    divisor := count.truncate 16
    timerDeltaTime := (3685982306#64 * count.zeroExtend 64) >>> 10 }

/-- `platform_set_periodic_timer`. -/
def platformSetPeriodicTimer (interval : Time) (p : PlatformTimer) :
    PlatformTimer :=
  let delta := interval <<< 32
  { p with
    callback := true
    nextTriggerDelta := delta
    nextTriggerTime := p.timerCurrentTime + delta }

/-- `current_time`. -/
def currentTime (p : PlatformTimer) : Time := p.timerCurrentTime >>> 32

/-- `os_timer_tick`: the advanced clock, and the time to call the callback
    with when it is to be called. -/
def osTimerTick (p : PlatformTimer) : Option Time × PlatformTimer :=
  let p := { p with timerCurrentTime := p.timerCurrentTime + p.timerDeltaTime }
  let time := currentTime p
  if p.callback ∧ p.timerCurrentTime ≥ p.nextTriggerTime then
    let delta := p.timerCurrentTime - p.nextTriggerTime
    (some time,
      { p with
        nextTriggerTime := p.timerCurrentTime + p.nextTriggerDelta - delta })
  else (none, p)

end ChinixPlatformTimer

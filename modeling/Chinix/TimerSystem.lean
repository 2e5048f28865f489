import Chinix.PlatformTimer
import Chinix.Runs

/-! # The timers as a system

    `timer_tick` and its callers, one step at a time.  A callback is whatever
    calls of the interface are made between its invocation and its return, so
    that the runs below have callbacks that arm, arm again and cancel any
    timer, their own included.  The clock is a parameter: a state with a time
    in it that `os_timer_tick` advances, and now and then tells `timer_tick`.
    The history, newest event first, is what the theorems speak about. -/

namespace ChinixTimerSystem

open ChinixTimerQueue ChinixPlatformTimer Outcome

/-- A clock: `current_time` is the upper half of a 64-bit counter, and what
    `timer_tick` is told is the time. -/
structure Clock (K : Type) where
  time : K → Time
  tick : K → Option Time × K
  below : ∀ k, (time k).toNat < 2 ^ 32
  tells : ∀ k now k', tick k = (some now, k') → time k' = now

/-- The time is never after the one that `timer_set` goes by. -/
theorem Clock.le_implicitInt {K : Type} (clock : Clock K) (k : K) :
    (clock.time k).toNat ≤ (implicitInt (clock.time k)).toNat :=
  ChinixTimerQueue.le_implicitInt (clock.below k)

theorem currentTime_toNat (p : PlatformTimer) :
    (currentTime p).toNat = p.timerCurrentTime.toNat / 2 ^ 32 := by
  rw [currentTime]
  rw [BitVec.toNat_ushiftRight, Nat.shiftRight_eq_div_pow]

/-- The clock of the platform. -/
def platformClock : Clock PlatformTimer where
  time := currentTime
  tick := osTimerTick
  below p := by
    rw [currentTime_toNat]
    exact Nat.div_lt_of_lt_mul p.timerCurrentTime.isLt
  tells := by
    intro k now k' h
    unfold osTimerTick at h
    dsimp only at h
    split_ifs at h
    · cases h
      rfl
    · exact nomatch congrArg Prod.fst h

/-- The calls of the interface. -/
inductive TimerCall (R C : Type) where
  | setOneshot (timer : R) (delay : Time) (callback : C)
  | setPeriodic (timer : R) (period : Time) (callback : C)
  | cancel (timer : R)

/-- What happened, with the state of the clock at an arming. -/
inductive TimerEvent (R C K : Type) where
  | oneshotSet (timer : R) (delay : Time) (clock : K)
  | periodicSet (timer : R) (period : Time) (clock : K)
  | cancelled (timer : R)
  | invoked (timer : R) (callback : C) (schedTime now : Time)
  | requeued (timer : R) (now : Time)

/-- Where `timer_tick` is. -/
inductive Phase (R : Type) where
  | outside
  | atHead (now : Time)
  | inCallback (now : Time) (timer : R) (periodic : Bool)
  deriving DecidableEq

/-- The timers, the clock and what has happened. -/
structure TimerSystem (R C K : Type) where
  tq : TimerQueue R C
  clock : K
  phase : Phase R
  history : List (TimerEvent R C K)

/-- What can happen next: a call, an interrupt of the timer, the next round
    of the loop, the return of a callback. -/
inductive Action (R C : Type) where
  | call (c : TimerCall R C)
  | tick
  | head
  | callbackReturns

variable {R C K W F : Type} [DecidableEq R]

/-- The call when `current_time` is `time`. -/
def TimerCall.run (time : Time) (tq : TimerQueue R C) :
    TimerCall R C → Except TimerFault (TimerQueue R C)
  | .setOneshot timer delay callback => timerSetOneshot timer time delay callback tq
  | .setPeriodic timer period callback => timerSetPeriodic timer time period callback tq
  | .cancel timer => .ok (timerCancel timer tq)

/-- The event of a call. -/
def TimerCall.event (clock : K) : TimerCall R C → TimerEvent R C K
  | .setOneshot timer delay _ => .oneshotSet timer delay clock
  | .setPeriodic timer period _ => .periodicSet timer period clock
  | .cancel timer => .cancelled timer

/-- Whether `timer_tick` puts a timer back once its callback has returned;
    `periodic` was read before the callback. -/
def Requeues (tq : TimerQueue R C) (timer : R) (periodic : Bool) : Prop :=
  periodic = true ∧ timer ∉ tq.queue ∧ (tq.timers timer).periodicTime > 0

instance (tq : TimerQueue R C) (timer : R) (periodic : Bool) :
    Decidable (Requeues tq timer periodic) :=
  inferInstanceAs (Decidable (_ ∧ _))

/-- How it does. -/
def requeue (timer : R) (now : Time) (tq : TimerQueue R C) :
    Except TimerFault (TimerQueue R C) :=
  let t := tq.timers timer
  insertTimerInQueue timer
    { tq with
      timers := Function.update tq.timers timer
        { t with schedTime := now + t.periodicTime } }

/-- The initial state: no timer is armed. -/
def TimerSystem.init (clock : K) : TimerSystem R C K :=
  ⟨⟨fun _ => Timer.initial, [], List.nodup_nil⟩, clock, .outside, []⟩

/-- The interface can be used: by threads, and by a callback. -/
def Phase.Open : Phase R → Prop
  | .atHead _ => False
  | _ => True

/-- One step. -/
inductive Step (clock : Clock K) :
    TimerSystem R C K → Action R C → TimerSystem R C K → Prop where
  | call {s : TimerSystem R C K} {tq : TimerQueue R C} (c : TimerCall R C) :
      s.phase.Open → c.run (clock.time s.clock) s.tq = .ok tq →
      Step clock s (.call c)
        { s with tq := tq, history := c.event s.clock :: s.history }
  | idle {s : TimerSystem R C K} {k : K} :
      s.phase = .outside → clock.tick s.clock = (none, k) →
      Step clock s .tick { s with clock := k }
  | trigger {s : TimerSystem R C K} {now : Time} {k : K} :
      s.phase = .outside → clock.tick s.clock = (some now, k) →
      Step clock s .tick { s with clock := k, phase := .atHead now }
  | expire {s : TimerSystem R C K} {now : Time} {timer : R} {rest : List R}
      {callback : C} :
      s.phase = .atHead now → s.tq.queue = timer :: rest →
      ¬ now < (s.tq.timers timer).schedTime →
      (s.tq.timers timer).callback = some callback →
      Step clock s .head
        { s with
          tq := s.tq.dropHead
          phase := .inCallback now timer
            (decide ((s.tq.timers timer).periodicTime > 0))
          history := .invoked timer callback (s.tq.timers timer).schedTime now
            :: s.history }
  | finish {s : TimerSystem R C K} {now : Time} :
      s.phase = .atHead now →
      (∀ timer rest, s.tq.queue = timer :: rest →
        now < (s.tq.timers timer).schedTime) →
      Step clock s .head { s with phase := .outside }
  | requeue {s : TimerSystem R C K} {now : Time} {timer : R} {periodic : Bool}
      {tq : TimerQueue R C} :
      s.phase = .inCallback now timer periodic →
      Requeues s.tq timer periodic → requeue timer now s.tq = .ok tq →
      Step clock s .callbackReturns
        { s with
          tq := tq
          phase := .atHead now
          history := .requeued timer now :: s.history }
  | leave {s : TimerSystem R C K} {now : Time} {timer : R} {periodic : Bool} :
      s.phase = .inCallback now timer periodic →
      ¬ Requeues s.tq timer periodic →
      Step clock s .callbackReturns { s with phase := .atHead now }

instance (phase : Phase R) : Decidable phase.Open :=
  match phase with
  | .outside => inferInstanceAs (Decidable True)
  | .atHead _ => inferInstanceAs (Decidable False)
  | .inCallback _ _ _ => inferInstanceAs (Decidable True)

/-- The step that an action makes, if it can. -/
def next (clock : Clock K) (s : TimerSystem R C K) :
    Action R C → Option (TimerSystem R C K)
  | .call c =>
      if s.phase.Open then
        match c.run (clock.time s.clock) s.tq with
        | .ok tq =>
            some { s with tq := tq, history := c.event s.clock :: s.history }
        | .error _ => none
      else none
  | .tick =>
      match s.phase, clock.tick s.clock with
      | .outside, (none, k) => some { s with clock := k }
      | .outside, (some now, k) =>
          some { s with clock := k, phase := .atHead now }
      | _, _ => none
  | .head =>
      match s.phase, s.tq.queue with
      | .atHead _, [] => some { s with phase := .outside }
      | .atHead now, timer :: _ =>
          let t := s.tq.timers timer
          if now < t.schedTime then some { s with phase := .outside }
          else
            match t.callback with
            | none => none
            | some callback => some { s with
                tq := s.tq.dropHead
                phase := .inCallback now timer (decide (t.periodicTime > 0))
                history := .invoked timer callback t.schedTime now :: s.history }
      | _, _ => none
  | .callbackReturns =>
      match s.phase with
      | .inCallback now timer periodic =>
          if Requeues s.tq timer periodic then
            match requeue timer now s.tq with
            | .ok tq => some { s with
                tq := tq
                phase := .atHead now
                history := .requeued timer now :: s.history }
            | .error _ => none
          else some { s with phase := .atHead now }
      | _ => none

theorem step_of_next {clock : Clock K} {s s' : TimerSystem R C K}
    {a : Action R C} (h : next clock s a = some s') : Step clock s a s' := by
  cases a with
  | call c =>
      simp only [next] at h
      by_cases hp : s.phase.Open
      · rw [if_pos hp] at h
        split at h
        · rename_i tq hc
          cases h
          exact .call c hp hc
        · cases h
      · rw [if_neg hp] at h
        cases h
  | tick =>
      simp only [next] at h
      split at h
      · rename_i hp ht
        cases h
        exact .idle hp ht
      · rename_i hp ht
        cases h
        exact .trigger hp ht
      · cases h
  | head =>
      simp only [next] at h
      split at h
      · rename_i hp hq
        cases h
        exact .finish hp fun _ _ heq => by cases hq.symm.trans heq
      · rename_i now timer rest hp hq
        by_cases hdue : now < (s.tq.timers timer).schedTime
        · rw [if_pos hdue] at h
          cases h
          refine .finish hp fun timer' rest' heq => ?_
          cases hq.symm.trans heq
          exact hdue
        · rw [if_neg hdue] at h
          split at h
          · cases h
          · rename_i callback hcb
            cases h
            exact .expire hp hq hdue hcb
      · cases h
  | callbackReturns =>
      simp only [next] at h
      split at h
      · rename_i now timer periodic hp
        by_cases hr : Requeues s.tq timer periodic
        · rw [if_pos hr] at h
          split at h
          · rename_i tq hq
            cases h
            exact .requeue hp hr hq
          · cases h
        · rw [if_neg hr] at h
          cases h
          exact .leave hp hr
      · cases h

/-- The states reached by steps that meet `ok`. -/
abbrev Reachable (clock : Clock K) (ok : TimerSystem R C K → Action R C → Prop)
    (k0 : K) : TimerSystem R C K → Prop :=
  Runs.Reachable (TimerSystem.init k0) (Step clock) ok

/-! ## Callbacks that make calls -/

/-- Calls one after the other at the time `now`, each of which meets `ok`. -/
inductive Calls (now : Time) (ok : TimerCall R C → Prop) :
    TimerQueue R C → TimerQueue R C → Prop where
  | nil {tq : TimerQueue R C} : Calls now ok tq tq
  | next {tq tq' tq'' : TimerQueue R C} (c : TimerCall R C) :
      Calls now ok tq tq' → ok c → c.run now tq' = .ok tq'' → Calls now ok tq tq''

/-- The callbacks do nothing to the timers at the time `now` but make calls
    that meet `ok`. -/
def CallsOnly (host : TimerHost R C W F) (now : Time)
    (ok : TimerCall R C → Prop) : Prop :=
  ∀ callback timer w r w', host.invoke callback timer now w = .ok (r, w') →
    Calls now ok (host.get w) (host.get w')

/-- The calls of a callback are steps. -/
theorem calls_reachable {clock : Clock K} {now : Time} {timer : R}
    {periodic : Bool} {ok : TimerCall R C → Prop}
    {may : TimerSystem R C K → Action R C → Prop} {s0 : TimerSystem R C K}
    {tq tq' : TimerQueue R C} (h : Calls now ok tq tq') {k : K}
    (hk : clock.time k = now)
    (hmay : ∀ tq past c, ok c →
      may ⟨tq, k, .inCallback now timer periodic, past⟩ (.call c))
    {past : List (TimerEvent R C K)}
    (hs : Runs.Reachable s0 (Step clock) may
      ⟨tq, k, .inCallback now timer periodic, past⟩) :
    ∃ history, Runs.Reachable s0 (Step clock) may
      ⟨tq', k, .inCallback now timer periodic, history⟩ := by
  induction h with
  | nil => exact ⟨past, hs⟩
  | next c _ hok hc ih =>
      obtain ⟨history, hreach⟩ := ih
      exact ⟨_, .next _ hreach (hmay _ _ _ hok)
        (.call c trivial (by rw [hk]; exact hc))⟩

end ChinixTimerSystem

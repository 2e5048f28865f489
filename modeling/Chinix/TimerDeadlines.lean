import Chinix.TimerHistory

/-! # No timer fires early

    The deadline of a timer is an unbounded sum: the time of the arming, or of
    the previous invocation, and the delay or period that was asked for.  As
    long as the 64-bit sums that the code makes do not wrap around,
    `sched_time` is never below it, and no callback is invoked before it.
    Once one does wrap around, the timer is due before its time; from 2^31 ms
    of uptime on, delays of little more than 2^31 ms are enough for that. -/

namespace ChinixTimerDeadlines

open ChinixTimerQueue ChinixPlatformTimer ChinixTimerSystem ChinixTimerOrder
open ChinixTimerHistory

variable {R C K : Type} [DecidableEq R]

/-- The period a timer was asked for. -/
def requestedPeriod (r : R) : List (TimerEvent R C K) → Nat
  | [] => 0
  | .oneshotSet timer _ _ :: past => if timer = r then 0 else requestedPeriod r past
  | .periodicSet timer p _ :: past => if timer = r then p.toNat else requestedPeriod r past
  | .cancelled timer :: past => if timer = r then 0 else requestedPeriod r past
  | _ :: past => requestedPeriod r past

/-- The earliest time of a timer's next invocation. -/
def earliest (clock : Clock K) (r : R) : List (TimerEvent R C K) → Nat
  | [] => 0
  | .oneshotSet timer delay k :: past =>
      if timer = r then (clock.time k).toNat + delay.toNat
      else earliest clock r past
  | .periodicSet timer p k :: past =>
      if timer = r then (clock.time k).toNat + p.toNat
      else earliest clock r past
  | .invoked timer _ _ now :: past =>
      if timer = r then now.toNat + requestedPeriod r past else earliest clock r past
  | _ :: past => earliest clock r past

/-- No invocation came before the earliest time for it. -/
def NeverEarly (clock : Clock K) : List (TimerEvent R C K) → Prop
  | [] => True
  | .invoked timer _ _ now :: past =>
      earliest clock timer past ≤ now.toNat ∧ NeverEarly clock past
  | _ :: past => NeverEarly clock past

theorem atLeastOne_le (delay : Time) : delay.toNat ≤ (atLeastOne delay).toNat := by
  rw [atLeastOne]
  split_ifs with h
  · rw [h]
    exact Nat.zero_le _
  · exact Nat.le_refl _

theorem requestedPeriod_of_not_touches {r : R} {e : TimerEvent R C K}
    (h : Touches r e = false) (past : List (TimerEvent R C K)) :
    requestedPeriod r (e :: past) = requestedPeriod r past := by
  cases e with
  | oneshotSet _ _ _ => exact if_neg (of_decide_eq_false h)
  | periodicSet _ _ _ => exact if_neg (of_decide_eq_false h)
  | cancelled _ => exact if_neg (of_decide_eq_false h)
  | invoked _ _ _ _ => rfl
  | requeued _ _ => rfl

theorem earliest_of_not_touches {clock : Clock K} {r : R} {e : TimerEvent R C K}
    (ht : Touches r e = false) (hi : Invokes r e = false)
    (past : List (TimerEvent R C K)) :
    earliest clock r (e :: past) = earliest clock r past := by
  cases e with
  | oneshotSet _ _ _ => exact if_neg (of_decide_eq_false ht)
  | periodicSet _ _ _ => exact if_neg (of_decide_eq_false ht)
  | cancelled _ => rfl
  | invoked _ _ _ _ => exact if_neg (of_decide_eq_false hi)
  | requeued _ _ => rfl

/-- While its callback leaves a timer alone, it is to fire a period after the
    invocation. -/
theorem earliest_since_invoked {clock : Clock K} {r : R} {callback : C}
    {t now : Time} {past : List (TimerEvent R C K)} :
    ∀ {during : List (TimerEvent R C K)},
      (∀ e ∈ during, Invokes r e = false) → (∀ e ∈ during, Touches r e = false) →
      earliest clock r (during ++ .invoked r callback t now :: past) =
        now.toNat + requestedPeriod r (during ++ .invoked r callback t now :: past)
  | [], _, _ => if_pos rfl
  | e :: during, hi, ht => by
      have ih : earliest clock r
          (during ++ .invoked r callback t now :: past) = _ :=
        earliest_since_invoked
          (fun e' h => hi e' (List.mem_cons_of_mem _ h))
          (fun e' h => ht e' (List.mem_cons_of_mem _ h))
      have hte := ht e List.mem_cons_self
      rw [List.cons_append,
        earliest_of_not_touches hte (hi e List.mem_cons_self),
        requestedPeriod_of_not_touches hte]
      exact ih

/-- `sched_time` of a linked timer is not before its deadline, and the period
    in the fields is not below the one asked for. -/
structure Deadlines (clock : Clock K) (s : TimerSystem R C K) : Prop where
  period : ∀ r, requestedPeriod r s.history ≤ (s.tq.timers r).periodicTime.toNat
  linked : ∀ r ∈ s.tq.queue,
    earliest clock r s.history ≤ (s.tq.timers r).schedTime.toNat
  never : NeverEarly clock s.history

theorem add_toNat_of_fits {now delay : Time}
    (h : now.toNat + delay.toNat < 2 ^ 64) :
    (now + delay).toNat = now.toNat + delay.toNat := by
  rw [BitVec.toNat_add, Nat.mod_eq_of_lt h]

/-- Linking a timer to fall due no earlier than its deadline. -/
theorem Deadlines.link {clock : Clock K} {s s' : TimerSystem R C K}
    (h : Deadlines clock s) {timer : R} {t : Timer C} {e : TimerEvent R C K}
    (hlink : Linked s.tq timer t s'.tq) (hh : s'.history = e :: s.history)
    (hother : ∀ r, r ≠ timer → Touches r e = false)
    (hi : ∀ r, Invokes r e = false)
    (hperiod : requestedPeriod timer s'.history ≤ t.periodicTime.toNat)
    (hdue : earliest clock timer s'.history ≤ t.schedTime.toNat) :
    Deadlines clock s' where
  period r := by
    by_cases heq : r = timer
    · subst heq
      rw [hlink.timers_self]
      exact hperiod
    · rw [hlink.timers, Function.update_of_ne heq, hh,
        requestedPeriod_of_not_touches (hother r heq)]
      exact h.period r
  linked r hr := by
    by_cases heq : r = timer
    · subst heq
      rw [hlink.timers_self]
      exact hdue
    · have hr' : r ∈ s.tq.queue := (hlink.mem_iff.mp hr).resolve_left heq
      rw [hlink.timers_of_mem hr', hh,
        earliest_of_not_touches (hother r heq) (hi r)]
      exact h.linked r hr'
  never := by
    rw [hh]
    cases e with
    | invoked r _ _ _ => cases (decide_eq_true rfl).symm.trans (hi r)
    | _ => exact h.never

/-- **The step lemma**, for a step in which no sum wraps around. -/
theorem Deadlines.step {clock : Clock K} {s s' : TimerSystem R C K}
    {a : Action R C} (h : Deadlines clock s) (hf : Follows s)
    (hok : NoOverflow clock s a) (hs : Step clock s a s') :
    Deadlines clock s' := by
  cases hs with
  | call c _ hc =>
      cases c with
      | setOneshot timer delay callback =>
          refine h.link (setOneshot_linked hc) rfl
            (fun r hr => decide_eq_false (Ne.symm hr)) (fun _ => rfl) ?_ ?_
          · show requestedPeriod timer (.oneshotSet timer delay s.clock :: s.history) ≤ 0
            exact Nat.le_of_eq (if_pos rfl)
          · show earliest clock timer
              (.oneshotSet timer delay s.clock :: s.history) ≤ _
            rw [earliest, if_pos rfl, add_toNat_of_fits hok]
            exact Nat.add_le_add (clock.le_implicitInt _) (atLeastOne_le delay)
      | setPeriodic timer p callback =>
          refine h.link (setPeriodic_linked hc) rfl
            (fun r hr => decide_eq_false (Ne.symm hr)) (fun _ => rfl) ?_ ?_
          · show requestedPeriod timer (.periodicSet timer p s.clock :: s.history) ≤ _
            rw [requestedPeriod, if_pos rfl]
            exact atLeastOne_le p
          · show earliest clock timer
              (.periodicSet timer p s.clock :: s.history) ≤ _
            rw [earliest, if_pos rfl, add_toNat_of_fits hok]
            exact Nat.add_le_add (clock.le_implicitInt _) (atLeastOne_le p)
      | cancel timer =>
          cases hc
          refine ⟨fun r => ?_, fun r hr => ?_, h.never⟩
          · show requestedPeriod r (.cancelled timer :: s.history) ≤ _
            by_cases heq : timer = r
            · rw [requestedPeriod, if_pos heq]
              exact Nat.zero_le _
            · rw [requestedPeriod, if_neg heq]
              show _ ≤ ((timerCancel timer s.tq).timers r).periodicTime.toNat
              rw [timers_timerCancel_of_ne (Ne.symm heq)]
              exact h.period r
          · show earliest clock r s.history ≤
              ((timerCancel timer s.tq).timers r).schedTime.toNat
            rw [timerCancel_schedTime]
            exact h.linked r (mem_timerCancel.mp hr).2
  | idle _ _ => exact ⟨h.period, h.linked, h.never⟩
  | trigger _ _ => exact ⟨h.period, h.linked, h.never⟩
  | @expire now timer rest callback _ hq hdue _ =>
      have hmem : timer ∈ s.tq.queue := by rw [hq]; exact List.mem_cons_self
      refine ⟨h.period, fun r hr => ?_,
        Nat.le_trans (h.linked timer hmem) (BitVec.not_lt.mp hdue), h.never⟩
      have hne : timer ≠ r := by
        rintro rfl
        have hn := s.tq.nodup
        have hr' : timer ∈ s.tq.queue.tail := hr
        rw [hq] at hn hr'
        exact (List.nodup_cons.mp hn).1 hr'
      refine Nat.le_trans (Nat.le_of_eq (if_neg hne))
        (h.linked r (List.mem_of_mem_tail hr))
  | finish _ _ => exact ⟨h.period, h.linked, h.never⟩
  | @requeue now timer periodic tq hp hr hq =>
      obtain ⟨during, past, hrun⟩ := hf.running _ _ _ hp
      obtain ⟨callback, t, heq⟩ := hrun.history
      have huntouched := ((hrun.requeues_iff hf).mp hr).2
      refine h.link (requeue_linked hq) rfl (fun _ _ => rfl) (fun _ => rfl)
        (h.period timer) ?_
      show earliest clock timer s.history ≤ _
      have hfits := requeueFits_of_noOverflow hok hp hr
      rw [add_toNat_of_fits hfits, heq,
        earliest_since_invoked hrun.once huntouched, ← heq]
      exact Nat.add_le_add_left (h.period timer) _
  | leave _ _ => exact ⟨h.period, h.linked, h.never⟩

/-- **No timer fires early** in a run in which no sum that the code makes of a
    time and a delay or period wraps around: whatever the clock, every
    invocation comes at a time that is at least the time of the arming, or of
    the previous invocation, plus the delay or period asked for. -/
theorem neverEarly_of_noOverflow (clock : Clock K) (k0 : K)
    (s : TimerSystem R C K) (h : Reachable clock (NoOverflow clock) k0 s) :
    NeverEarly clock s.history := by
  have hd : Deadlines clock s :=
    Runs.Reachable.invariant_under (I := Deadlines clock)
      (fun s hs => follows_of_reachable hs)
      (show Deadlines clock (.init k0) from
        ⟨fun _ => Nat.zero_le _, by rintro _ ⟨⟩, trivial⟩)
      (fun _ _ _ hf hI hok hs => hI.step hf hok hs) h
  exact hd.never

/-- The platform clock as `timer_init` leaves it. -/
def bootClock : PlatformTimer :=
  platformSetPeriodicTimer 10 (setPitFrequency 1000 PlatformTimer.zero)

/-- The last event is an invocation before its deadline. -/
def lastIsEarly : List (TimerEvent Nat Unit PlatformTimer) → Bool
  | .invoked r _ _ now :: past =>
      decide (¬ earliest platformClock r past ≤ now.toNat)
  | _ => false

/-- A one-shot timer that is armed 9 ms after boot for 2^64 - 5 ms is invoked
    at the next `timer_tick`, 19 ms after boot. -/
theorem fires_early :
    ¬ ∀ (k0 : PlatformTimer) (s : TimerSystem Nat Unit PlatformTimer),
      Reachable platformClock (fun _ _ => True) k0 s →
        NeverEarly platformClock s.history := by
  intro h
  have hrun : (Runs.replay (next platformClock) (fun _ _ => True)
      [.tick, .call (.setOneshot 0 0xfffffffffffffffb#64 ()), .tick, .head]
      (.init bootClock : TimerSystem Nat Unit PlatformTimer)).any
        (fun s => lastIsEarly s.history) = true := by decide
  obtain ⟨s, hs, hp⟩ := (Option.any_eq_true _ _).mp hrun
  have hn := h bootClock s
    (Runs.reachable_of_replay (fun _ _ _ => step_of_next) .start hs)
  cases hh : s.history with
  | nil => rw [hh] at hp; cases hp
  | cons e past =>
      rw [hh] at hp hn
      cases e with
      | invoked r _ _ now => exact of_decide_eq_true hp hn.1
      | _ => cases hp

/-- The theorem at a timer armed for one unit and invoked one unit later. -/
theorem neverEarly_of_noOverflow_oneshot :
    ∃ s : TimerSystem Nat Unit (BitVec 32),
      invocations 0 s.history = 1 ∧ NeverEarly countingClock s.history := by
  have hrun : (Runs.replay (next countingClock) (NoOverflow countingClock)
      [.call (.setOneshot 0 1 ()), .tick, .head]
      (.init 0 : TimerSystem Nat Unit (BitVec 32))).any (fun s =>
        decide (invocations 0 s.history = 1)) = true := by decide
  obtain ⟨s, hs, hp⟩ := (Option.any_eq_true _ _).mp hrun
  exact ⟨s, of_decide_eq_true hp,
    neverEarly_of_noOverflow countingClock 0 s (reachable_of_replay _ hs)⟩

end ChinixTimerDeadlines

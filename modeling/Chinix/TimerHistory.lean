import Chinix.TimerOrder

/-! # What a timer's history says

    The abstract timer is off, armed for one invocation or armed for many; an
    arming and a cancellation set this, and an invocation uses up the one of a
    one-shot timer.  The queue and the fields of the timers agree with it in
    every state, so that no invocation comes without an arming that is still
    in force, and `timer_tick` puts a timer back exactly if it is periodic and
    its callback has left it alone. -/

namespace ChinixTimerHistory

open ChinixTimerQueue ChinixTimerSystem ChinixTimerOrder

variable {R C K : Type} [DecidableEq R]

/-- What a timer is armed as. -/
inductive Mode where
  | off
  | oneshot
  | periodic
  deriving DecidableEq, Repr

/-- What the history leaves a timer armed as. -/
def mode (r : R) : List (TimerEvent R C K) → Mode
  | [] => .off
  | .oneshotSet timer _ _ :: past => if timer = r then .oneshot else mode r past
  | .periodicSet timer _ _ :: past => if timer = r then .periodic else mode r past
  | .cancelled timer :: past => if timer = r then .off else mode r past
  | .invoked timer _ _ _ :: past =>
      if timer = r ∧ mode r past = .oneshot then .off else mode r past
  | .requeued _ _ :: past => mode r past

/-- The event arms the timer. -/
def Sets (r : R) : TimerEvent R C K → Bool
  | .oneshotSet timer _ _ => decide (timer = r)
  | .periodicSet timer _ _ => decide (timer = r)
  | _ => false

/-- The event arms or cancels the timer. -/
def Touches (r : R) : TimerEvent R C K → Bool
  | .cancelled timer => decide (timer = r)
  | e => Sets r e

/-- The event is an invocation of the timer's callback. -/
def Invokes (r : R) : TimerEvent R C K → Bool
  | .invoked timer _ _ _ => decide (timer = r)
  | _ => false

/-- How often the callback of a timer was invoked. -/
def invocations (r : R) (events : List (TimerEvent R C K)) : Nat :=
  events.countP (Invokes r)

/-- Every invocation finds its timer armed. -/
def Legal : List (TimerEvent R C K) → Prop
  | [] => True
  | .invoked timer _ _ _ :: past => mode timer past ≠ .off ∧ Legal past
  | _ :: past => Legal past

-- ── What a legal history says ──

theorem Legal.tail {e : TimerEvent R C K} {past : List (TimerEvent R C K)}
    (h : Legal (e :: past)) : Legal past := by
  cases e with
  | invoked _ _ _ _ => exact h.2
  | _ => exact h

theorem mode_of_not_touches {r : R} {e : TimerEvent R C K}
    (ht : Touches r e = false) (hi : Invokes r e = false)
    (past : List (TimerEvent R C K)) : mode r (e :: past) = mode r past := by
  cases e with
  | oneshotSet timer _ _ => exact if_neg (of_decide_eq_false ht)
  | periodicSet timer _ _ => exact if_neg (of_decide_eq_false ht)
  | cancelled timer => exact if_neg (of_decide_eq_false ht)
  | invoked timer _ _ _ => exact if_neg fun h => of_decide_eq_false hi h.1
  | requeued _ _ => rfl

/-- Nothing but an arming turns a timer on. -/
theorem mode_of_not_sets {r : R} {e : TimerEvent R C K} (h : Sets r e = false)
    (past : List (TimerEvent R C K)) :
    mode r (e :: past) = mode r past ∨ mode r (e :: past) = .off := by
  cases e with
  | oneshotSet timer _ _ => exact .inl (if_neg (of_decide_eq_false h))
  | periodicSet timer _ _ => exact .inl (if_neg (of_decide_eq_false h))
  | cancelled timer =>
      by_cases ht : timer = r
      · exact .inr (if_pos ht)
      · exact .inl (if_neg ht)
  | invoked timer _ _ _ =>
      by_cases ht : timer = r ∧ mode r past = .oneshot
      · exact .inr (if_pos ht)
      · exact .inl (if_neg ht)
  | requeued _ _ => exact .inl rfl

theorem mode_invoked_self {r : R} {callback : C} {t now : Time}
    {past : List (TimerEvent R C K)} (h : mode r past ≠ .periodic) :
    mode r (.invoked r callback t now :: past) = .off := by
  by_cases h1 : mode r past = .oneshot
  · exact if_pos ⟨rfl, h1⟩
  · rw [mode, if_neg fun h' => h1 h'.2]
    cases hm : mode r past with
    | off => rfl
    | oneshot => exact absurd hm h1
    | periodic => exact absurd hm h

/-- While it is not armed again, a timer that is off is not invoked. -/
theorem invocations_of_off {r : R} {past : List (TimerEvent R C K)}
    (h : mode r past = .off) : ∀ {after : List (TimerEvent R C K)},
      Legal (after ++ past) → (∀ e ∈ after, Sets r e = false) →
      mode r (after ++ past) = .off ∧ invocations r after = 0
  | [], _, _ => ⟨h, rfl⟩
  | e :: after, hl, hs => by
      obtain ⟨hm, hc⟩ := invocations_of_off h (Legal.tail hl)
        fun e' he => hs e' (List.mem_cons_of_mem _ he)
      refine ⟨?_, ?_⟩
      · rcases mode_of_not_sets (hs e List.mem_cons_self) (after ++ past)
          with h' | h'
        · exact h'.trans hm
        · exact h'
      · have hi : Invokes r e = false := by
          cases e with
          | invoked timer _ _ _ =>
              refine decide_eq_false fun ht => ?_
              exact hl.1 (ht ▸ hm)
          | _ => rfl
        rw [invocations] at hc ⊢
        rw [List.countP_cons_of_neg (by rw [hi]; simp), hc]

/-- While it is not armed again, a one-shot timer is invoked once at most. -/
theorem invocations_of_oneshot {r : R} {past : List (TimerEvent R C K)}
    (h : mode r past = .oneshot) : ∀ {after : List (TimerEvent R C K)},
      Legal (after ++ past) → (∀ e ∈ after, Sets r e = false) →
      (mode r (after ++ past) = .oneshot ∧ invocations r after = 0) ∨
        (mode r (after ++ past) = .off ∧ invocations r after ≤ 1)
  | [], _, _ => .inl ⟨h, rfl⟩
  | e :: after, hl, hs => by
      have hs' : ∀ e' ∈ after, Sets r e' = false := fun e' he =>
        hs e' (List.mem_cons_of_mem _ he)
      have hle : invocations r (e :: after) ≤ invocations r after + 1 := by
        unfold invocations
        rw [List.countP_cons]
        split_ifs <;> omega
      rcases invocations_of_oneshot h (Legal.tail hl) hs' with ⟨hm, hc⟩ | ⟨hm, hc⟩
      · by_cases hi : Invokes r e = true
        · right
          refine ⟨?_, by omega⟩
          cases e with
          | invoked timer _ _ _ =>
              cases of_decide_eq_true hi
              exact mode_invoked_self fun hp => by cases hm.symm.trans hp
          | _ => cases hi
        · have hcount : invocations r (e :: after) = 0 := by
            rw [invocations] at hc ⊢
            rw [List.countP_cons_of_neg hi, hc]
          rcases mode_of_not_sets (hs e List.mem_cons_self) (after ++ past)
            with h' | h'
          · exact .inl ⟨h'.trans hm, hcount⟩
          · exact .inr ⟨h', by omega⟩
      · -- it is off already
        right
        have hoff : mode r ([e] ++ (after ++ past)) = .off ∧
            invocations r [e] = 0 := invocations_of_off hm hl
          fun e' he => hs e' (List.mem_singleton.mp he ▸ List.mem_cons_self)
        refine ⟨hoff.1, ?_⟩
        have hi : ¬ Invokes r e = true := fun hi => by
          have := hoff.2
          rw [invocations] at this
          rw [List.countP_cons_of_pos hi] at this
          cases this
        rw [invocations] at hc ⊢
        rw [List.countP_cons_of_neg hi]
        exact hc

-- ── The queue agrees with the history ──

/-- While a callback runs: the invocation it runs for, whether its timer was
    periodic then, and what has become of the timer since. -/
structure Running (s : TimerSystem R C K) (now : Time) (timer : R)
    (periodic : Bool) (during past : List (TimerEvent R C K)) : Prop where
  history : ∃ callback t,
    s.history = during ++ .invoked timer callback t now :: past
  once : ∀ e ∈ during, Invokes timer e = false
  periodic_iff : periodic = true ↔ mode timer past = .periodic
  untouched : (∀ e ∈ during, Touches timer e = false) →
    timer ∉ s.tq.queue ∧ (mode timer s.history = .periodic ↔ periodic = true)
  touched : (∃ e ∈ during, Touches timer e = true) →
    timer ∈ s.tq.queue ∨ mode timer s.history ≠ .periodic

/-- The queue and the fields of the timers agree with the history. -/
structure Follows (s : TimerSystem R C K) : Prop where
  linked : ∀ r ∈ s.tq.queue, mode r s.history ≠ .off
  period : ∀ r, (s.tq.timers r).periodicTime > 0 ↔ mode r s.history = .periodic
  legal : Legal s.history
  running : ∀ now timer periodic, s.phase = .inCallback now timer periodic →
    ∃ during past, Running s now timer periodic during past

theorem follows_init (k0 : K) : Follows (TimerSystem.init k0 : TimerSystem R C K) where
  linked := by rintro _ ⟨⟩
  period _ := ⟨fun h => absurd h (by decide : ¬ (0 : Time) > 0), by rintro ⟨⟩⟩
  legal := trivial
  running := by rintro _ _ _ ⟨⟩

/-- A call by a callback. -/
theorem Running.call {s s' : TimerSystem R C K} {now : Time} {timer : R}
    {periodic : Bool} {during past : List (TimerEvent R C K)}
    {e : TimerEvent R C K} (h : Running s now timer periodic during past) (hh : s'.history = e :: s.history)
    (hi : Invokes timer e = false)
    (hkeep : Touches timer e = false → (timer ∈ s'.tq.queue ↔ timer ∈ s.tq.queue))
    (htouch : Touches timer e = true →
      timer ∈ s'.tq.queue ∨ mode timer s'.history ≠ .periodic) :
    Running s' now timer periodic (e :: during) past where
  history := by
    obtain ⟨callback, t, heq⟩ := h.history
    exact ⟨callback, t, by rw [hh, heq]; rfl⟩
  once e' he := by
    rcases List.mem_cons.mp he with rfl | he
    · exact hi
    · exact h.once e' he
  periodic_iff := h.periodic_iff
  untouched hall := by
    have he := hall e List.mem_cons_self
    obtain ⟨hq, hm⟩ := h.untouched fun e' h' => hall e' (List.mem_cons_of_mem _ h')
    refine ⟨fun h' => hq ((hkeep he).mp h'), ?_⟩
    rw [hh, mode_of_not_touches he hi]
    exact hm
  touched hsome := by
    by_cases he : Touches timer e = true
    · exact htouch he
    · rw [Bool.not_eq_true] at he
      obtain ⟨e', hmem, ht⟩ := hsome
      rcases List.mem_cons.mp hmem with rfl | hmem
      · rw [he] at ht
        cases ht
      · rw [hh, mode_of_not_touches he hi]
        rcases h.touched ⟨e', hmem, ht⟩ with hq | hm
        · exact .inl ((hkeep he).mpr hq)
        · exact .inr hm

/-- Arming a timer, whose new fields and new mode agree. -/
theorem Follows.set {s s' : TimerSystem R C K} (h : Follows s) {timer : R}
    {t : Timer C} {e : TimerEvent R C K} (hlink : Linked s.tq timer t s'.tq)
    (hh : s'.history = e :: s.history) (hphase : s'.phase = s.phase)
    (hsets : ∀ r, Touches r e = decide (timer = r))
    (hi : ∀ r, Invokes r e = false)
    (hon : mode timer s'.history ≠ .off)
    (hperiod : t.periodicTime > 0 ↔ mode timer s'.history = .periodic) :
    Follows s' where
  linked r hr := by
    by_cases heq : r = timer
    · exact heq ▸ hon
    · have hr' : r ∈ s.tq.queue := (hlink.mem_iff.mp hr).resolve_left heq
      rw [hh, mode_of_not_touches
        ((hsets r).trans (decide_eq_false (Ne.symm heq))) (hi r)]
      exact h.linked r hr'
  period r := by
    by_cases heq : r = timer
    · subst heq
      rw [hlink.timers_self]
      exact hperiod
    · rw [hlink.timers, Function.update_of_ne heq, hh, mode_of_not_touches
        ((hsets r).trans (decide_eq_false (Ne.symm heq))) (hi r)]
      exact h.period r
  legal := by
    rw [hh]
    cases e with
    | invoked r _ _ _ => cases (decide_eq_true rfl).symm.trans (hi r)
    | _ => exact h.legal
  running now r periodic hp := by
    obtain ⟨during, past, hrun⟩ := h.running now r periodic (hphase ▸ hp)
    refine ⟨e :: during, past, hrun.call hh (hi r) ?_ ?_⟩
    · intro ht
      have hne : timer ≠ r := of_decide_eq_false ((hsets r).symm.trans ht)
      rw [hlink.mem_iff]
      exact ⟨fun hm => hm.resolve_left (Ne.symm hne), .inr⟩
    · intro ht
      left
      exact hlink.mem_iff.mpr
        (.inl (of_decide_eq_true ((hsets r).symm.trans ht)).symm)

theorem Follows.cancel {s : TimerSystem R C K} (h : Follows s) (timer : R) :
    Follows { s with
      tq := timerCancel timer s.tq
      history := .cancelled timer :: s.history } where
  linked r hr := by
    obtain ⟨hne, hr⟩ := mem_timerCancel.mp hr
    show mode r (.cancelled timer :: s.history) ≠ .off
    rw [mode, if_neg (Ne.symm hne)]
    exact h.linked r hr
  period r := by
    show ((timerCancel timer s.tq).timers r).periodicTime > 0 ↔
      mode r (.cancelled timer :: s.history) = .periodic
    by_cases heq : r = timer
    · subst heq
      have h0 : ((timerCancel r s.tq).timers r).periodicTime = 0 := by
        show (Function.update s.tq.timers r _ r).periodicTime = 0
        rw [Function.update_self]
      rw [h0, mode, if_pos rfl]
      exact ⟨fun hp => absurd hp (by decide), by simp⟩
    · rw [timers_timerCancel_of_ne heq, mode, if_neg (Ne.symm heq)]
      exact h.period r
  legal := h.legal
  running now r periodic hp := by
    obtain ⟨during, past, hrun⟩ := h.running now r periodic hp
    refine ⟨_, past, hrun.call (e := .cancelled timer) rfl rfl ?_ ?_⟩
    · intro ht
      have hne : timer ≠ r := of_decide_eq_false ht
      rw [mem_timerCancel]
      exact ⟨And.right, fun hm => ⟨Ne.symm hne, hm⟩⟩
    · intro ht
      right
      show mode r (.cancelled timer :: s.history) ≠ .periodic
      rw [mode, if_pos (of_decide_eq_true ht)]
      simp

/-- The head of the queue is taken off and invoked. -/
theorem Follows.expire {s : TimerSystem R C K} (h : Follows s) {timer : R}
    {rest : List R} (hq : s.tq.queue = timer :: rest) (callback : C)
    (t now : Time) :
    Follows { s with
      tq := s.tq.dropHead
      phase := .inCallback now timer
        (decide ((s.tq.timers timer).periodicTime > 0))
      history := .invoked timer callback t now :: s.history } := by
  have hmem : timer ∈ s.tq.queue := by rw [hq]; exact List.mem_cons_self
  have hnodup := s.tq.nodup
  rw [hq] at hnodup
  have hgone : timer ∉ s.tq.queue.tail := by
    rw [hq]
    exact (List.nodup_cons.mp hnodup).1
  have hother : ∀ r, r ≠ timer →
      mode r (.invoked timer callback t now :: s.history) = mode r s.history :=
    fun r hne => if_neg fun h' => hne h'.1.symm
  have hself : mode timer (.invoked timer callback t now :: s.history) = .periodic ↔
      mode timer s.history = .periodic := by
    rw [mode]
    by_cases h1 : mode timer s.history = .oneshot
    · rw [if_pos ⟨rfl, h1⟩, h1]
      exact ⟨by simp, by simp⟩
    · rw [if_neg fun h' => h1 h'.2]
  refine ⟨?_, ?_, ⟨h.linked timer hmem, h.legal⟩, ?_⟩
  · intro r hr
    have hne : r ≠ timer := fun heq => hgone (heq ▸ hr)
    show mode r (.invoked timer callback t now :: s.history) ≠ .off
    rw [hother r hne]
    exact h.linked r (List.mem_of_mem_tail hr)
  · intro r
    show (s.tq.timers r).periodicTime > 0 ↔
      mode r (.invoked timer callback t now :: s.history) = .periodic
    by_cases heq : r = timer
    · rw [heq, hself]
      exact h.period timer
    · rw [hother r heq]
      exact h.period r
  · intro now' r periodic hp
    cases hp
    refine ⟨[], s.history, ⟨callback, t, rfl⟩, by simp, ?_, ?_, by simp⟩
    · exact decide_eq_true_iff.trans (h.period timer)
    · exact fun _ => ⟨hgone, hself.trans
        (decide_eq_true_iff.trans (h.period timer)).symm⟩

theorem Follows.requeue {s : TimerSystem R C K} (h : Follows s) {now : Time}
    {timer : R} {periodic : Bool} {tq : TimerQueue R C}
    (hr : Requeues s.tq timer periodic)
    (hq : requeue timer now s.tq = .ok tq) :
    Follows { s with
      tq := tq
      phase := .atHead now
      history := .requeued timer now :: s.history } := by
  have hlink := requeue_linked hq
  refine ⟨?_, ?_, h.legal, by simp⟩
  · intro r hmem
    show mode r s.history ≠ .off
    rcases hlink.mem_iff.mp hmem with rfl | hmem
    · rw [(h.period r).mp hr.2.2]
      simp
    · exact h.linked r hmem
  · intro r
    show (tq.timers r).periodicTime > 0 ↔ mode r s.history = .periodic
    by_cases heq : r = timer
    · subst heq
      rw [hlink.timers_self]
      exact h.period r
    · rw [hlink.timers, Function.update_of_ne heq]
      exact h.period r

/-- **The step lemma.** -/
theorem Follows.step {clock : Clock K} {s s' : TimerSystem R C K}
    {a : Action R C} (h : Follows s) (hs : Step clock s a s') : Follows s' := by
  cases hs with
  | call c _ hc =>
      cases c with
      | setOneshot timer delay callback =>
          refine h.set (setOneshot_linked hc) rfl rfl (fun _ => rfl) (fun _ => rfl)
            ?_ ?_
          · show mode timer (.oneshotSet timer delay s.clock :: s.history) ≠ .off
            rw [mode, if_pos rfl]
            simp
          · show (0 : Time) > 0 ↔
              mode timer (.oneshotSet timer delay s.clock :: s.history) = .periodic
            rw [mode, if_pos rfl]
            exact ⟨fun hp => absurd hp (by decide), by simp⟩
      | setPeriodic timer period callback =>
          refine h.set (setPeriodic_linked hc) rfl rfl (fun _ => rfl) (fun _ => rfl)
            ?_ ?_
          · show mode timer (.periodicSet timer period s.clock :: s.history) ≠ .off
            rw [mode, if_pos rfl]
            simp
          · show atLeastOne period > 0 ↔
              mode timer (.periodicSet timer period s.clock :: s.history) = .periodic
            rw [mode, if_pos rfl]
            exact ⟨fun _ => rfl, fun _ => atLeastOne_pos period⟩
      | cancel timer =>
          cases hc
          exact h.cancel timer
  | idle hp _ => exact ⟨h.linked, h.period, h.legal, fun _ _ _ hp' =>
      by cases hp.symm.trans hp'⟩
  | trigger _ _ => exact ⟨h.linked, h.period, h.legal, by simp⟩
  | expire _ hq _ _ => exact h.expire hq _ _ _
  | finish _ _ => exact ⟨h.linked, h.period, h.legal, by simp⟩
  | requeue _ hr hq => exact h.requeue hr hq
  | leave _ _ => exact ⟨h.linked, h.period, h.legal, by simp⟩

theorem follows_of_reachable {clock : Clock K} {k0 : K} {s : TimerSystem R C K}
    {ok : TimerSystem R C K → Action R C → Prop}
    (h : Reachable clock ok k0 s) : Follows s :=
  Runs.Reachable.invariant (I := Follows) (follows_init k0)
    (fun _ _ _ hI _ hs => hI.step hs) h

/-- A timer goes back on the queue iff it was periodic when its callback was
    invoked and has been left alone since. -/
theorem Running.requeues_iff {s : TimerSystem R C K} {now : Time} {timer : R}
    {periodic : Bool} {during past : List (TimerEvent R C K)}
    (h : Running s now timer periodic during past) (hf : Follows s) :
    Requeues s.tq timer periodic ↔
      mode timer past = .periodic ∧ ∀ e ∈ during, Touches timer e = false := by
  constructor
  · rintro ⟨hp, hq, hper⟩
    refine ⟨h.periodic_iff.mp hp, fun e he => ?_⟩
    by_contra ht
    rw [Bool.not_eq_false] at ht
    rcases h.touched ⟨e, he, ht⟩ with hmem | hm
    · exact hq hmem
    · exact hm ((hf.period timer).mp hper)
  · rintro ⟨hm, hall⟩
    obtain ⟨hq, hmode⟩ := h.untouched hall
    have hp := h.periodic_iff.mpr hm
    exact ⟨hp, hq, (hf.period timer).mpr (hmode.mpr hp)⟩

/-- A one-shot arming has led to at most one invocation as long as the timer
    has not been armed again. -/
def OneshotOnce (history : List (TimerEvent R C K)) : Prop :=
  ∀ r delay k after past, history = after ++ .oneshotSet r delay k :: past →
    (∀ e ∈ after, Sets r e = false) → invocations r after ≤ 1

/-- After a cancellation there is no invocation until the timer is armed. -/
def OffWhenCancelled (history : List (TimerEvent R C K)) : Prop :=
  ∀ r after past, history = after ++ .cancelled r :: past →
    (∀ e ∈ after, Sets r e = false) → invocations r after = 0

theorem Legal.oneshotOnce {history : List (TimerEvent R C K)}
    (h : Legal history) : OneshotOnce history := by
  intro r delay k after past heq hs
  rw [heq] at h
  have hmode : mode r (.oneshotSet r delay k :: past) = .oneshot := if_pos rfl
  rcases invocations_of_oneshot hmode h hs with ⟨-, hc⟩ | ⟨-, hc⟩
  · omega
  · exact hc

theorem Legal.offWhenCancelled {history : List (TimerEvent R C K)}
    (h : Legal history) : OffWhenCancelled history := by
  intro r after past heq hs
  rw [heq] at h
  have hmode : mode r (.cancelled r :: past) = .off := if_pos rfl
  exact (invocations_of_off hmode h hs).2

/-- When a callback returns, `timer_tick` puts its timer back iff the timer
    was periodic and the callback has neither armed nor cancelled it. -/
theorem Follows.returns {s : TimerSystem R C K} (hf : Follows s)
    (clock : Clock K) {now : Time} {timer : R} {periodic : Bool}
    (hp : s.phase = .inCallback now timer periodic) :
    ∃ during callback t past,
      s.history = during ++ .invoked timer callback t now :: past ∧
      (∀ e ∈ during, Invokes timer e = false) ∧
      ∀ s', Step clock s .callbackReturns s' →
        ((timer ∈ s'.tq.queue ∧ s'.history = .requeued timer now :: s.history) ↔
          (mode timer past = .periodic ∧ ∀ e ∈ during, Touches timer e = false)) := by
  obtain ⟨during, past, hrun⟩ := hf.running now timer periodic hp
  obtain ⟨callback, t, heq⟩ := hrun.history
  refine ⟨during, callback, t, past, heq, hrun.once, fun s' hs => ?_⟩
  rw [← hrun.requeues_iff hf]
  cases hs with
  | requeue hp' hr hq =>
      cases hp.symm.trans hp'
      refine ⟨fun _ => hr, fun _ => ⟨?_, rfl⟩⟩
      exact (requeue_linked hq).mem_iff.mpr (.inl rfl)
  | leave hp' hr =>
      cases hp.symm.trans hp'
      exact ⟨fun h' => absurd h'.2 (List.cons_ne_self _ _).symm, fun h' =>
        absurd h' hr⟩

end ChinixTimerHistory

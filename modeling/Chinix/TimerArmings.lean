import Chinix.TimerDeadlines
import Chinix.TimerPointers

/-! # Armed timers, invocations and cancellations

    timer.c on its pointers, for any history of calls, ticks and callbacks in
    which no linked timer is armed: the queue, the invocations and what goes
    back on the queue are what the history asks for.  Arming a linked timer,
    which only an assertion forbids, links its node a second time, and the
    queue is no ring any more: a timer can be invoked again without having
    been armed. -/

namespace ChinixTimerArmings

open ChinixCircularList ChinixTimerQueue ChinixPlatformTimer
open ChinixTimerSystem ChinixTimerHistory ChinixTimerDeadlines
open ChinixTimerPointers

variable {R C K : Type} [DecidableEq R]

/-- The timers keep to their history: a one-shot arming leads to at most one
    invocation, a cancelled timer is not invoked until it is armed again, what
    `timer_tick` puts back after a callback is what was periodic and has been
    left alone, the queue links no timer twice, and the next step, which is
    none with a null callback, can be made. -/
structure Regular (clock : Clock K) (p : PointerSystem R C K) : Prop where
  oneshot : OneshotOnce p.history
  cancelled : OffWhenCancelled p.history
  returns : ∀ now timer periodic, p.phase = .inCallback now timer periodic →
    ∃ during callback t past,
      p.history = during ++ .invoked timer callback t now :: past ∧
      (∀ e ∈ during, Invokes timer e = false) ∧
      ∀ p', ChinixTimerPointers.Step clock p .callbackReturns p' →
        ((listInList (.node timer) p'.mem.links = true ∧
            p'.history = .requeued timer now :: p.history) ↔
          (mode timer past = .periodic ∧
            ∀ e ∈ during, Touches timer e = false))
  linkedOnce : ∃ queue : List R, queue.Nodup ∧
    Ring p.mem.links timerQueue (queue.map .node)
  goesOn : GoesOn clock p

/-- **The timers keep to their history** in every run in which no linked
    timer is armed. -/
theorem regular_of_reachable (clock : Clock K) (k0 : K)
    (p : PointerSystem R C K)
    (h : ChinixTimerPointers.Reachable clock ArmsUnlinked k0 p) :
    Regular clock p := by
  obtain ⟨s, hs, hcorr⟩ := corresponds_of_reachable h
  have hf := follows_of_reachable hs
  refine ⟨?_, ?_, ?_, ⟨s.tq.queue, s.tq.nodup, hcorr.holds.ring⟩,
    hcorr.goesOn (ChinixTimerOrder.goesOn_of_armed
      (ChinixTimerOrder.armed_of_reachable hs))⟩
  · rw [hcorr.history]
    exact hf.legal.oneshotOnce
  · rw [hcorr.history]
    exact hf.legal.offWhenCancelled
  · intro now timer periodic hp
    rw [hcorr.phase] at hp
    obtain ⟨during, callback, t, past, heq, honce, hback⟩ :=
      hf.returns clock hp
    refine ⟨during, callback, t, past, hcorr.history.trans heq, honce,
      fun p' hp' => ?_⟩
    have hok : ArmsUnlinked p Action.callbackReturns := trivial
    obtain ⟨s', hs', hcorr'⟩ := hcorr.step hok hp'
    rw [hcorr'.holds.inList_iff, hcorr'.history, hcorr.history]
    exact hback s' hs'

/-- The theorem at a periodic timer whose callback has cancelled it. -/
theorem regular_of_reachable_cancelled :
    ∃ p : PointerSystem Nat Unit (BitVec 32), p.phase = .inCallback 1 0 true ∧
      ∀ p', ChinixTimerPointers.Step ChinixTimerOrder.countingClock p
        .callbackReturns p' → ¬ (listInList (.node 0) p'.mem.links = true ∧
          p'.history = .requeued 0 1 :: p.history) := by
  have hrun : (Runs.replay
      (ChinixTimerPointers.next ChinixTimerOrder.countingClock 1) ArmsUnlinked
      [.call (.setPeriodic 0 1 ()), .tick, .head, .call (.cancel 0)]
      (PointerSystem.init 0 : PointerSystem Nat Unit (BitVec 32))).any (fun p =>
        decide (p.phase = .inCallback 1 0 true)
          && p.history.head?.any (Touches 0)) = true := by decide
  obtain ⟨p, hp, hlast⟩ := (Option.any_eq_true _ _).mp hrun
  rw [Bool.and_eq_true, decide_eq_true_eq] at hlast
  have hreach : ChinixTimerPointers.Reachable ChinixTimerOrder.countingClock
      ArmsUnlinked 0 p :=
    Runs.reachable_of_replay
      (fun _ _ _ => ChinixTimerPointers.step_of_next) .start hp
  refine ⟨p, hlast.1, fun p' hp' => ?_⟩
  obtain ⟨during, callback, t, past, heq, -, hiff⟩ :=
    (regular_of_reachable ChinixTimerOrder.countingClock 0 p hreach).returns
      1 0 true hlast.1
  rw [hiff p' hp']
  rintro ⟨-, hall⟩
  -- the newest event is the cancellation
  cases during with
  | nil => rw [heq] at hlast; cases hlast.2
  | cons e during =>
      rw [heq] at hlast
      have := hall e List.mem_cons_self
      rw [show Touches 0 e = true from hlast.2] at this
      cases this

/-- The newest event arms the timer for one invocation. -/
def armsOneshot (r : Nat) :
    List (TimerEvent Nat Unit PlatformTimer) → Bool
  | .oneshotSet timer _ _ :: _ => decide (timer = r)
  | _ => false

/-- After boot timers 0, 1 and 2 are armed for 5, 8 and 100 ms and timer 1,
    which is linked, again for 3 ms.  At the second interrupt, 19 ms after
    boot, timers 1 and 0 are invoked, the callback of the latter cancels
    timer 2, and timer 1 is invoked once more. -/
theorem linked_twice_invoked_twice :
    ¬ ∀ (k0 : PlatformTimer) (p : PointerSystem Nat Unit PlatformTimer),
      ChinixTimerPointers.Reachable platformClock (fun _ _ => True) k0 p →
        Regular platformClock p := by
  intro h
  have hrun : (Runs.replay (ChinixTimerPointers.next platformClock 3)
      (fun _ _ => True)
      [.call (.setOneshot 0 5 ()), .call (.setOneshot 1 8 ()),
        .call (.setOneshot 2 100 ()), .call (.setOneshot 1 3 ()),
        .tick, .tick, .head, .callbackReturns,
        .head, .call (.cancel 2), .callbackReturns, .head]
      (PointerSystem.init bootClock :
        PointerSystem Nat Unit PlatformTimer)).any (fun p =>
        decide (armsOneshot 1 (p.history.drop 4) = true ∧
          (∀ e ∈ p.history.take 4, Sets 1 e = false) ∧
          invocations 1 (p.history.take 4) = 2)) = true := by decide
  obtain ⟨p, hp, hlast⟩ := (Option.any_eq_true _ _).mp hrun
  obtain ⟨harms, hsets, htwice⟩ := of_decide_eq_true hlast
  have hreach := Runs.reachable_of_replay
    (fun _ _ _ => ChinixTimerPointers.step_of_next) .start hp
  have hsplit := (List.take_append_drop 4 p.history).symm
  cases hd : p.history.drop 4 with
  | nil => rw [hd] at harms; cases harms
  | cons e past =>
      rw [hd] at harms hsplit
      cases e with
      | oneshotSet timer delay k =>
          cases of_decide_eq_true harms
          have honce := (h bootClock p hreach).oneshot _ _ _ _ _ hsplit hsets
          omega
      | _ => cases harms

end ChinixTimerArmings

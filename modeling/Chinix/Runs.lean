import Mathlib.Logic.Basic

/-! # Runs of a labelled transition system

    States reached from an initial state by steps `step s a s'`, each of which
    meets a side condition `ok s a`.  The side condition is a parameter, so
    that one system carries many families of runs.  The rules: an invariant
    of every step is an invariant of every run, an invariant may be proved
    relative to one already known, a run under one side condition is a run
    under another that an invariant makes weaker, and a run is matched by one
    of a system that simulates the steps. -/

namespace Runs

variable {S A : Type}

/-- The states reached by steps that meet `ok`. -/
inductive Reachable (init : S) (step : S → A → S → Prop)
    (ok : S → A → Prop) : S → Prop where
  | start : Reachable init step ok init
  | next {s s' : S} (a : A) :
      Reachable init step ok s → ok s a → step s a s' →
      Reachable init step ok s'

variable {init : S} {step : S → A → S → Prop} {ok ok' : S → A → Prop}

/-- **The invariant rule**, relative to a known invariant `J`. -/
theorem Reachable.invariant_under {J I : S → Prop}
    (hJ : ∀ s, Reachable init step ok s → J s) (h0 : I init)
    (hs : ∀ s a s', J s → I s → ok s a → step s a s' → I s')
    {s : S} (h : Reachable init step ok s) : I s := by
  induction h with
  | start => exact h0
  | next a hr hok hst ih => exact hs _ a _ (hJ _ hr) ih hok hst

/-- The invariant rule. -/
theorem Reachable.invariant {I : S → Prop} (h0 : I init)
    (hs : ∀ s a s', I s → ok s a → step s a s' → I s')
    {s : S} (h : Reachable init step ok s) : I s :=
  Reachable.invariant_under (J := fun _ => True) (fun _ _ => trivial) h0
    (fun s a s' _ => hs s a s') h

/-- A run under one side condition is a run under a weaker one; the
    comparison may use what is known of the states reached. -/
theorem Reachable.weaken {J : S → Prop}
    (hJ : ∀ s, Reachable init step ok s → J s)
    (hok : ∀ s a, J s → ok s a → ok' s a)
    {s : S} (h : Reachable init step ok s) :
    Reachable init step ok' s := by
  induction h with
  | start => exact .start
  | next a hr hst1 hst2 ih => exact .next a ih (hok _ a (hJ _ hr) hst1) hst2

/-- A run goes on from the state that another one ends in. -/
theorem Reachable.trans {s s' : S} (h : Reachable init step ok s)
    (h' : Reachable s step ok s') : Reachable init step ok s' := by
  induction h' with
  | start => exact h
  | next a _ hok hst ih => exact .next a ih hok hst

/-- **The simulation rule**: where every step of one system from related
    states is matched by a step of another with the same label, the states
    reached are related. -/
theorem Reachable.simulated {T : Type} (rel : S → T → Prop)
    (may : T → A → Prop) {t0 : T} {next : T → A → T → Prop} (h0 : rel init t0)
    (hs : ∀ s a s' t, rel s t → ok s a → step s a s' →
      ∃ t', may t a ∧ next t a t' ∧ rel s' t')
    {s : S} (h : Reachable init step ok s) :
    ∃ t, Reachable t0 next may t ∧ rel s t := by
  induction h with
  | start => exact ⟨t0, .start, h0⟩
  | next a hr hok hst ih =>
      obtain ⟨t, ht, hrel⟩ := ih
      obtain ⟨t', hmay, hnext, hrel'⟩ := hs _ a _ t hrel hok hst
      exact ⟨t', .next a ht hmay hnext, hrel'⟩

/-- Labels played one after the other by a function that computes the steps. -/
def replay (next : S → A → Option S) (ok : S → A → Prop)
    [∀ s a, Decidable (ok s a)] : List A → S → Option S
  | [], s => some s
  | a :: rest, s =>
      if ok s a then (next s a).bind (replay next ok rest) else none

/-- What a replay ends in is reachable. -/
theorem reachable_of_replay [∀ s a, Decidable (ok s a)]
    {next : S → A → Option S}
    (hnext : ∀ s a s', next s a = some s' → step s a s') {as : List A}
    {s s' : S} (hs : Reachable init step ok s)
    (h : replay next ok as s = some s') : Reachable init step ok s' := by
  induction as generalizing s with
  | nil =>
      cases h
      exact hs
  | cons a rest ih =>
      rw [replay] at h
      by_cases hok : ok s a
      · rw [if_pos hok] at h
        obtain ⟨s1, h1, h2⟩ := Option.bind_eq_some_iff.mp h
        exact ih (.next a hs hok (hnext s a s1 h1)) h2
      · rw [if_neg hok] at h
        cases h

end Runs

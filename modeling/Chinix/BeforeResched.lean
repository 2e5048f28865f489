import Chinix.QueueRuns

/-! # What comes before `thread_resched`

    A call that gives up the CPU ends with `thread_resched`.  Up to there it
    logs no choice, and what the quantum of its caller is by then depends on
    the call. -/

namespace ChinixQuantum

open ChinixKernel ChinixRunQueue ChinixMachine ChinixQueueInvariant

variable {k k' k1 : Kernel}

/-- No choice of `thread_resched` is logged on the way. -/
def Quiet (k k' : Kernel) : Prop :=
  ∃ events, k'.log = k.log ++ events ∧
    ∀ e ∈ events, ∀ new p queued, e ≠ .rescheduled new p queued

theorem Quiet.of_log (h : k'.log = k.log) : Quiet k k' :=
  ⟨[], by rw [h, List.append_nil], by simp⟩

theorem Quiet.emit (h : Quiet k k') {e : Event}
    (he : ∀ new p queued, e ≠ .rescheduled new p queued) :
    Quiet k (k'.emit e) := by
  obtain ⟨events, hlog, hno⟩ := h
  refine ⟨events ++ [e], ?_, ?_⟩
  · rw [Kernel.emit_log, hlog, List.append_assoc]
  · intro e' he'
    rcases List.mem_append.mp he' with hold | hnew
    · exact hno e' hold
    · rw [List.mem_singleton.mp hnew]
      exact he

theorem Quiet.trans (h : Quiet k k1) (h' : Quiet k1 k') : Quiet k k' := by
  obtain ⟨events, hlog, hno⟩ := h
  obtain ⟨events', hlog', hno'⟩ := h'
  refine ⟨events ++ events', ?_, ?_⟩
  · rw [hlog', hlog, List.append_assoc]
  · intro e he
    rcases List.mem_append.mp he with hold | hnew
    · exact hno e hold
    · exact hno' e hnew

/-- A call goes from `k` to `k'` without giving up the CPU and without
    touching a quantum. -/
structure Keeps (k k' : Kernel) : Prop where
  current : k'.current = k.current
  quantum : ∀ u, (k'.threads u).remainingQuantum
    = (k.threads u).remainingQuantum
  quiet : Quiet k k'

theorem Keeps.trans (h : Keeps k k1) (h' : Keeps k1 k') : Keeps k k' :=
  ⟨h'.current.trans h.current,
    fun u => (h'.quantum u).trans (h.quantum u), h.quiet.trans h'.quiet⟩

/-- What neither the current thread nor the slots depend on. -/
theorem Keeps.of_eq (hc : k'.current = k.current)
    (ht : k'.threads = k.threads) (hl : Quiet k k') : Keeps k k' :=
  ⟨hc, fun u => by rw [ht], hl⟩

theorem Keeps.setThread (k : Kernel) (t : Tid) (f : Thread → Thread)
    (hf : (f (k.threads t)).remainingQuantum
      = (k.threads t).remainingQuantum) : Keeps k (k.setThread t f) := by
  refine ⟨rfl, ?_, Quiet.of_log rfl⟩
  intro u
  by_cases hu : u = t
  · subst hu
    simpa using hf
  · simp [hu]

/-- The state in which a call from `k` runs `thread_resched`, with `quantum`
    left to its caller. -/
structure Entry (k : Kernel) (quantum : Int) (ke : Kernel) : Prop where
  inv : QueueInv False ke
  current : ke.current = k.current
  quantum : (ke.threads k.current).remainingQuantum = quantum
  quiet : Quiet k ke

/-- A call from `k` never runs `thread_resched`, or it ends with it. -/
def EndsIn (k : Kernel) (quantum : Int) (k' : Kernel) : Prop :=
  Quiet k k' ∨ ∃ ke, Entry k quantum ke ∧ k' = threadResched ke

/-- What a step leaves of the quantum of its caller when it runs
    `thread_resched`: `thread_yield` clears it, at once or as the rest of
    another call, and the interrupt comes with a tick. -/
def quantumLeft (a : Action) (k : Kernel) : Int :=
  match a with
  | .threadYield => 0
  | .goOn => 0
  | .interrupt => (k.threads k.current).remainingQuantum - 1
  | _ => (k.threads k.current).remainingQuantum

end ChinixQuantum

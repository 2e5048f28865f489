import Chinix.HeadInsertion
import Chinix.RunQueueGrowth

/-! # The quantum of the thread that `thread_resched` runs

    `thread_resched` gives a new quantum of 5 to a thread whose quantum is
    used up, but only after its test for `new == old`: the caller that is
    chosen again goes on with what it has.  `thread_yield` leaves 0 there and
    the tick handler anything below. -/

namespace ChinixQuantum

open ChinixTimerQueue ChinixPlatformTimer ChinixKernel ChinixRunQueue
open ChinixWaitQueue ChinixThread ChinixMachine Outcome
open ChinixQueueInvariant ChinixQueueRuns ChinixHeadInsertion
open ChinixRunQueueGrowth

variable {cfg : Config} {k k' : Kernel}

/-- **Every step** runs `thread_resched` at its end or not at all, and leaves
    its caller `quantumLeft`. -/
theorem exec_endsIn (h : QueueInv False k) {a : Action}
    (hen : Enabled cfg a k) :
    Holds (exec cfg a k) (EndsIn k (quantumLeft a k)) (fun _ => True) :=
  (exec_ends h hen).imp fun _ hk => hk.endsIn

/-! ## The choice and the quantum -/

/-- `thread_resched` is called while the threads `queued` are on the run
    queues, the one to be taken first in front, and takes the caller again. -/
def CallerNext (caller : Tid) (queued : List (Tid × Int)) : Prop :=
  (queued.map Prod.fst).headD idleThread = caller

instance (caller : Tid) (queued : List (Tid × Int)) :
    Decidable (CallerNext caller queued) :=
  inferInstanceAs (Decidable (_ = _))

theorem map_fst_queuedThreads (k : Kernel) :
    (queuedThreads k).map Prod.fst = readyThreads k := by
  rw [queuedThreads, readyThreads, List.map_flatMap]
  refine List.flatMap_congr fun p _ => ?_
  rw [List.map_map]
  exact List.map_id _

/-- `get_new_thread` takes the first of the ready threads. -/
theorem callerNext_queuedThreads (h : QueueInv False k) (caller : Tid) :
    CallerNext caller (queuedThreads k) ↔ (getNewThread k).1 = caller := by
  have hone := dequeues_eq 1 h
  rw [CallerNext, map_fst_queuedThreads]
  cases hr : readyThreads k with
  | nil =>
      rw [hr] at hone
      have hnew : (getNewThread k).1 = idleThread :=
        (List.cons.inj hone).1
      rw [hnew, List.headD_nil]
  | cons t ts =>
      rw [hr] at hone
      have hnew : (getNewThread k).1 = t := (List.cons.inj hone).1
      rw [hnew, List.headD_cons]

/-- **The refill**: the thread that `thread_resched` makes current has quantum
    left unless it is the caller and had none. -/
theorem threadResched_quantum_iff (k : Kernel) :
    1 ≤ ((threadResched k).threads (threadResched k).current).remainingQuantum ↔
      ((getNewThread k).1 = k.current →
        1 ≤ (k.threads k.current).remainingQuantum) := by
  rw [threadResched_eq]
  simp only [Function.update_self, scheduled]
  -- the caller chosen again is not refilled
  by_cases hnew : (getNewThread k).1 = k.current
  · simp [hnew]
  · simp only [hnew, ne_eq, not_false_eq_true, true_and, false_imp_iff,
      iff_true]
    split_ifs <;> omega

/-- **Every run**: when a step has run `thread_resched`, the running thread
    has a quantum of at least 1 exactly when it is another thread than the
    caller or the caller had that much left. -/
theorem remainingQuantum_pos_iff (h : Reachable cfg AnyCall k) {a : Action}
    (hstep : Step cfg k a k') {events : List Event} {new : Tid} {p : Int}
    {queued : List (Tid × Int)} (hlog : k'.log = k.log ++ events)
    (hres : Event.rescheduled new p queued ∈ events) :
    1 ≤ (k'.threads k'.current).remainingQuantum ↔
      (CallerNext k.current queued → 1 ≤ quantumLeft a k) := by
  have hinv : QueueInv False k :=
    queueInv_of_reachable (fun _ _ _ hf => hf.elim) h
  rcases (exec_endsIn hinv hstep.1).of_ok hstep.2 with
    ⟨es, hes, hno⟩ | ⟨ke, hke, rfl⟩
  · have heq : events = es := List.append_cancel_left (hlog.symm.trans hes)
    rw [heq] at hres
    exact absurd rfl (hno _ hres new p queued)
  · -- the step logs one choice, the last event
    obtain ⟨es, hes, hno⟩ := hke.quiet
    rw [log_threadResched, hes, List.append_assoc] at hlog
    have heq := List.append_cancel_left hlog
    rw [← heq] at hres
    rcases List.mem_append.mp hres with hold | hlast
    · exact absurd rfl (hno _ hold new p queued)
    · have hlast' := List.mem_singleton.mp hlast
      injection hlast' with _ _ hqueued
      rw [threadResched_quantum_iff, hqueued,
        callerNext_queuedThreads hke.inv, hke.current, hke.quantum]

/-- One created thread of priority 5, which runs, and the idle thread. -/
def loneThread : List Action :=
  [.threadCreate 5, .goOn, .goOn, .goOn, .threadResume 1 true,
   .threadBecomeIdle, .goOn, .goOn]

/-- A call of `thread_yield` whose caller is chosen again and runs on without
    any quantum. -/
def YieldsToItself (k : Kernel) : Prop :=
  Enabled tenSlots .threadYield k ∧
    (exec tenSlots .threadYield k).toOption.any (fun k' : Kernel =>
      k'.log = k.log ++ [.rescheduled 1 5 [(1, 5)]] ∧
        (k'.threads k'.current).remainingQuantum = 0) = true

instance (k : Kernel) : Decidable (YieldsToItself k) :=
  inferInstanceAs (Decidable (_ ∧ _))

/-- `loneThread` ends in such a state. -/
theorem loneThread_yields :
    ∃ k, ∃ k' : Kernel, Reachable tenSlots AnyCall k ∧
      Step tenSlots k .threadYield k' ∧
      k'.log = k.log ++ [.rescheduled 1 5 [(1, 5)]] ∧
      (k'.threads k'.current).remainingQuantum = 0 := by
  obtain ⟨k, hk, hen, hany⟩ := exists_reachable_of_replay tenSlots AnyCall
    YieldsToItself loneThread (by decide +kernel)
  rw [Option.any_eq_true] at hany
  obtain ⟨k', hx, hprop⟩ := hany
  obtain ⟨hlog, hquantum⟩ := of_decide_eq_true hprop
  refine ⟨k, k', hk, ⟨hen, ?_⟩, hlog, hquantum⟩
  cases he : exec tenSlots .threadYield k with
  | error e => rw [he] at hx; cases hx
  | ok k1 => rw [he] at hx; cases hx; rfl

/-- The theorem at the yield of `loneThread`. -/
theorem remainingQuantum_pos_iff_yield :
    ∃ k, ∃ k' : Kernel, Reachable tenSlots AnyCall k ∧
      (1 ≤ (k'.threads k'.current).remainingQuantum ↔
        (CallerNext k.current [(1, 5)] → 1 ≤ quantumLeft .threadYield k)) := by
  obtain ⟨k, k', hk, hstep, hlog, -⟩ := loneThread_yields
  exact ⟨k, k', hk,
    remainingQuantum_pos_iff hk hstep hlog (List.mem_singleton.mpr rfl)⟩

/-- A thread that yields while no other one is ready runs on without any
    quantum. -/
theorem lone_yield_no_quantum :
    ¬ ∀ k a k' events new p queued, Reachable tenSlots AnyCall k →
      Step tenSlots k a k' → k'.log = k.log ++ events →
      Event.rescheduled new p queued ∈ events →
        1 ≤ (k'.threads k'.current).remainingQuantum := by
  intro hall
  obtain ⟨k, k', hk, hstep, hlog, hquantum⟩ := loneThread_yields
  have hpos := hall k _ k' _ 1 5 _ hk hstep hlog (List.mem_singleton.mpr rfl)
  rw [hquantum] at hpos
  exact absurd hpos (by decide)

end ChinixQuantum

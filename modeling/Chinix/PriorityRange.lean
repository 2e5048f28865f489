import Chinix.QueueRuns

/-! # Indices of `run_queue`

    `thread_set_priority` clamps its argument; `thread_create` stores what it
    is given.  So `run_queue` is indexed in its bounds in all runs exactly
    when `thread_create` only gets priorities that have a run queue. -/

namespace ChinixPriorityRange

open ChinixKernel ChinixRunQueue ChinixMachine ChinixQueueInvariant
open ChinixQueueRuns ChinixThread

/-- Every `thread_create` gets one of the priorities `P`. -/
def CreatesIn (P : Int → Prop) (_ : Kernel) (a : Action) : Prop :=
  ∀ p, a = .threadCreate p → P p

/-- `start_kernel` creates a thread of priority `p`. -/
theorem reachable_created {P : Int → Prop} {p : Int} (hp : P p) :
    ∃ k, Reachable tenSlots (CreatesIn P) k ∧
      Enabled tenSlots (.threadResume 1 true) k ∧
      (k.threads 1).state = .suspended ∧ (k.threads 1).priority = p := by
  have hcreate : CreatesIn P (bootKernel tenSlots) (.threadCreate p) := by
    rintro q heq
    cases heq
    exact hp
  -- the call itself, then its three parts after `get_free_thread_node`
  refine ⟨_, .next .goOn (.next .goOn (.next .goOn
    (.next (.threadCreate p) .start hcreate ⟨.inr ⟨rfl, rfl, rfl⟩, rfl⟩)
    (fun _ => by simp) ⟨by rintro ⟨⟩, rfl⟩) (fun _ => by simp) ⟨by rintro ⟨⟩, rfl⟩)
    (fun _ => by simp) ⟨by rintro ⟨⟩, rfl⟩, ?_, rfl, rfl⟩
  have hid : tenSlots.ValidId 1 := by decide
  exact ⟨⟨hid, Nat.succ_pos _⟩, by rintro ⟨⟩, .inr ⟨⟨rfl, rfl, rfl⟩, rfl⟩⟩

/-- Resuming a thread whose priority is out of range faults. -/
theorem threadResume_outOfRange {k : Kernel}
    (hs : (k.threads 1).state = .suspended)
    (hno : ¬ PriorityOk (k.threads 1).priority) :
    exec tenSlots (.threadResume 1 true) k
      = .error (.runQueueIndex (k.threads 1).priority) := by
  have hid : threadIdToPtr tenSlots ((1 : Tid) : Int) = .ok 1 := rfl
  show ChinixThread.threadResume tenSlots _ _ _ = _
  rw [ChinixThread.threadResume]
  rw [hid, Outcome.ok_bind, if_pos hs]
  simp [insertInRunQueueHead, hno]

end ChinixPriorityRange

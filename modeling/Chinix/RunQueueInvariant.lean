import Chinix.Steps

/-! # The run queues

    One `queue_node` links a thread on a run queue or on a wait queue, and
    the bitmap is touched at insertion and in `get_new_thread` only.  In the
    runs of the scheduler the three stay in agreement: no insertion finds its
    thread linked, so no call faults. -/

namespace ChinixRunQueueInvariant

open ChinixKernel ChinixRunQueue ChinixMachine ChinixQueueInvariant
open ChinixMoves ChinixSimulation ChinixThreadCalls ChinixSteps

/-- The calls: threads are created with the priorities of run queues, and a
    thread that is unblocked is on no wait queue. -/
def RunQueueCall (k : Kernel) (a : Action) : Prop :=
  SchedulerCall k a ∧
    match a with
    | .threadCreate p => PriorityOk p
    | .threadUnblock thid _ => (k.threads thid).blockingWaitQueue = none
    | _ => True

instance (k : Kernel) (a : Action) : Decidable (RunQueueCall k a) := by
  apply a.casesOn (motive := fun a => Decidable (RunQueueCall k a)) <;>
    intros <;> unfold RunQueueCall <;> infer_instance

/-- No step faults, and nobody joins. -/
def faultless : Scope where
  total := True
  joinless := True
  listed := False
  single := False
  once := False
  code := fun _ => True
  joins := True

theorem RunQueueCall.allowed {k : Kernel} {a : Action} (h : Good faultless k)
    (hc : RunQueueCall k a) : Allowed faultless k a := by
  refine allowed_of_schedulerCall trivial (fun _ => trivial) h.life hc.1 ?_ ?_ ?_
  · rintro p rfl _
    exact hc.2
  · rintro thid resched rfl
    exact ⟨fun _ => hc.2, fun hno => hno.elim False.elim False.elim⟩
  · exact fun _ _ hno => hno.elim

/-- The run queues and the bitmap are in order. -/
structure RunQueuesOk (k : Kernel) : Prop where
  bitmap : ∀ p, p < numPriority →
    (k.runQueueBitmap.getLsbD p = true ↔ k.runQueue p ≠ [])
  priority : ∀ p t, t ∈ k.runQueue p → (k.threads t).priority = p
  apart : ∀ t ref ref', t ∈ k.queues.items ref → t ∈ k.queues.items ref' →
    ref = ref'
  once : ∀ ref, (k.queues.items ref).Nodup

theorem runQueuesOk_of_queueInv {b : Prop} {k : Kernel} (h : QueueInv b k) :
    RunQueuesOk k where
  bitmap := h.bitmap
  priority := fun p t ht => (h.run t p ((k.queues.mem_items _ _).mp ht)).1
  apart := fun _ _ _ ht ht' => k.queues.head_unique ht ht'
  once := k.queues.nodup

/-- No call of these runs faults. -/
theorem exec_returns {cfg : ChinixThread.Config} {k : Kernel}
    (h : Reachable cfg RunQueueCall k) {a : Action} (hen : Enabled cfg a k)
    (ha : RunQueueCall k a) : ∃ k', exec cfg a k = .ok k' := by
  have hgood : Good faultless k :=
    good_of_reachable (fun _ _ hg ha => ha.allowed hg) h
  have hdone := exec_done hgood hen (ha.allowed hgood)
  cases hx : exec cfg a k with
  | ok k' => exact ⟨k', rfl⟩
  | error e => exact absurd trivial (hdone.of_error hx trivial).1

/-- **Every run of the scheduler** keeps the run queues in order, and no call
    finds a node linked that it links in: it returns. -/
theorem runQueuesOk_of_reachable {cfg : ChinixThread.Config} {k : Kernel}
    (h : Reachable cfg RunQueueCall k) :
    RunQueuesOk k ∧ ∀ a, Enabled cfg a k → RunQueueCall k a →
      ∃ k', exec cfg a k = .ok k' ∧ RunQueuesOk k' := by
  have hgood : Good faultless k :=
    good_of_reachable (fun _ _ hg ha => ha.allowed hg) h
  refine ⟨runQueuesOk_of_queueInv hgood.queue, ?_⟩
  intro a hen ha
  obtain ⟨k', hx⟩ := exec_returns h hen ha
  have hgood' := (good_of_step hgood (ha.allowed hgood) ⟨hen, hx⟩).1
  exact ⟨k', hx, runQueuesOk_of_queueInv hgood'.queue⟩

/-- Two created threads wait at one priority when the PIT interrupts the
    third. -/
theorem runQueuesOk_of_interrupt :
    ∃ k, Reachable tenSlots RunQueueCall k ∧ k.runQueue 5 = [2, 3] ∧
      RunQueuesOk k ∧ ∃ k', exec tenSlots .interrupt k = .ok k' ∧
        RunQueuesOk k' := by
  obtain ⟨k, hk, hq, hen⟩ := exists_reachable_of_replay tenSlots RunQueueCall
    (fun k => k.runQueue 5 = [2, 3] ∧ Enabled tenSlots .interrupt k)
    [.threadCreate 5, .goOn, .goOn, .goOn, .threadResume 1 true,
      .threadCreate 5, .goOn, .goOn, .goOn, .threadResume 2 true,
      .threadCreate 5, .goOn, .goOn, .goOn, .threadResume 3 true,
      .threadBecomeIdle, .goOn, .goOn] (by decide +kernel)
  obtain ⟨hok, hstep⟩ := runQueuesOk_of_reachable hk
  exact ⟨k, hk, hq, hok, hstep .interrupt hen ⟨trivial, trivial⟩⟩

end ChinixRunQueueInvariant

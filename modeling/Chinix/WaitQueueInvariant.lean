import Chinix.Steps

/-! # The wait queues

    Blocking, the two wake functions and the timeout each update the list,
    the count, the state of the thread and its `blocking_wait_queue`.  They
    stay in agreement, so `wait_queue_wake_all`, which decides by the count
    alone whether its caller goes on a run queue, decides right. -/

namespace ChinixWaitQueueInvariant

open ChinixTimerQueue ChinixKernel ChinixRunQueue ChinixWaitQueue
open ChinixMachine Outcome
open ChinixQueueInvariant ChinixMoves ChinixLifeInvariant ChinixSimulation
open ChinixThreadCalls ChinixSteps

variable {cfg : ChinixThread.Config} {b : Prop} {k : Kernel}

/-- The calls.  With `b` the runs are those in which threads are created with
    the priorities of run queues and `thread_unblock` is called for threads
    on no wait queue; then no call faults. -/
def WaitQueueCall (b : Prop) (k : Kernel) (a : Action) : Prop :=
  SchedulerCall k a ∧
    match a with
    | .threadCreate p => b → PriorityOk p
    | .threadUnblock thid _ => b → (k.threads thid).blockingWaitQueue = none
    | _ => True

instance [Decidable b] (k : Kernel) (a : Action) :
    Decidable (WaitQueueCall b k a) := by
  apply a.casesOn (motive := fun a => Decidable (WaitQueueCall b k a)) <;>
    intros <;> unfold WaitQueueCall <;> infer_instance

/-- Nobody joins, and with `b` no step faults. -/
def waiting (b : Prop) : Scope where
  total := b
  joinless := True
  listed := False
  single := False
  once := False
  code := fun _ => True
  joins := True

theorem WaitQueueCall.allowed {a : Action} (h : Good (waiting b) k)
    (hc : WaitQueueCall b k a) : Allowed (waiting b) k a := by
  refine allowed_of_schedulerCall trivial (fun _ => trivial) h.life hc.1 ?_ ?_ ?_
  · rintro p rfl
    exact hc.2
  · rintro thid resched rfl
    exact ⟨hc.2, fun hno => hno.elim False.elim False.elim⟩
  · exact fun _ _ hno => hno.elim

/-- With `b` nothing excuses a fault. -/
theorem not_of_excused {e : Fault} (he : Excused (waiting b) e) : ¬ b :=
  fun hb => (he hb).1 trivial

/-- The wait queues are in order. -/
structure WaitQueuesOk (k : Kernel) : Prop where
  count : ∀ q, k.waitCount q = (k.waitList q).length
  linked : ∀ q t, t ∈ k.waitList q ↔
    (k.threads t).state = .blocked ∧
      (k.threads t).blockingWaitQueue = some q

theorem waitQueuesOk_of_good {s : Scope} (h : Good s k) : WaitQueuesOk k where
  count := h.queue.count
  linked := by
    intro q t
    rw [Kernel.waitList, k.queues.mem_items, ← h.queue.wait t q]
    constructor
    · exact fun hl => ⟨((h.life.ok t).wait q hl).1, hl⟩
    · exact fun hl => hl.2

/-- **Every run** keeps the wait queues in order, and the wake functions
    return how many threads they woke. -/
theorem waitQueuesOk_of_reachable (h : Reachable cfg (WaitQueueCall b) k) :
    WaitQueuesOk k ∧
      (inThread k → ∀ n reschedule error,
        Holds (waitQueueWakeOne (.user n) reschedule error k)
          (fun r => r.1 = if k.waitList (.user n) = [] then 0 else 1)
          (fun _ => ¬ b) ∧
        Holds (waitQueueWakeAll (.user n) reschedule error k)
          (fun r => r.1 = (k.waitList (.user n)).length) (fun _ => ¬ b) ∧
        Holds (waitQueueDestroy (.user n) reschedule k)
          (fun r => r.1 = (k.waitList (.user n)).length) (fun _ => ¬ b)) := by
  have hgood : Good (waiting b) k :=
    good_of_reachable (fun _ _ hg ha => ha.allowed hg) h
  refine ⟨waitQueuesOk_of_good hgood, ?_⟩
  intro hin n reschedule error
  refine ⟨?_, ?_, ?_⟩
  · exact (waitQueueWakeOne_done hgood hin.2 hin.1 n reschedule trivial).mono
      (fun _ hr => hr.2) (fun _ => not_of_excused)
  · exact (waitQueueWakeAll_done hgood hin.2 hin.1 n reschedule trivial).mono
      (fun _ hr => hr.2) (fun _ => not_of_excused)
  · exact (waitQueueWakeAll_done hgood hin.2 hin.1 n reschedule trivial).mono
      (fun _ hr => hr.2) (fun _ => not_of_excused)

/-- Threads 1 and 2 wait when thread 3 wakes. -/
theorem waitQueuesOk_of_two :
    ∃ k, Reachable tenSlots (WaitQueueCall True) k ∧ inThread k ∧
      k.waitList (.user 0) = [1, 2] ∧ WaitQueuesOk k ∧
      Holds (waitQueueWakeOne (.user 0) true 3 k)
        (fun r => r.1 = if k.waitList (.user 0) = [] then 0 else 1)
        (fun _ => ¬ True) := by
  obtain ⟨k, hk, hin, hq⟩ := exists_reachable_of_replay tenSlots
    (WaitQueueCall True) (fun k => inThread k ∧ k.waitList (.user 0) = [1, 2])
    [.threadCreate 5, .goOn, .goOn, .goOn, .threadResume 1 true,
      .threadCreate 5, .goOn, .goOn, .goOn, .threadResume 2 true,
      .threadCreate 5, .goOn, .goOn, .goOn, .threadResume 3 true,
      .threadBecomeIdle, .goOn, .goOn, .waitQueueBlock 0 100, .goOn,
      .waitQueueBlock 0 infinitTime, .goOn] (by decide +kernel)
  obtain ⟨hok, hwake⟩ := waitQueuesOk_of_reachable hk
  exact ⟨k, hk, hin, hq, hok, (hwake hin 0 true 3).1⟩

end ChinixWaitQueueInvariant

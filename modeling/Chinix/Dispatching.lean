import Chinix.HeadInsertion
import Chinix.RunQueueGrowth
import Chinix.FifoQueue

/-! # The run queues are first come, first served

    Threads come to a run queue at its end, from a call or from an interrupt,
    and leave it at its front when `thread_resched` takes them.  No call takes
    a thread out of the middle or moves it: over any run, what was taken from
    a run queue and what is left of it make up what was there and what came,
    in the order in which it came. -/

namespace ChinixDispatching

open ChinixTimerQueue ChinixPlatformTimer ChinixKernel ChinixRunQueue
open ChinixWaitQueue ChinixThread ChinixMachine Outcome
open ChinixQueueInvariant ChinixQueueRuns ChinixHeadInsertion ChinixQuantum
open ChinixRunQueueGrowth FifoQueue

variable {cfg : Config} {k k' : Kernel} {t : Tid} {q : Nat} {quantum : Int}

/-- The threads that `thread_resched` took off `run_queue[q]`; with all run
    queues empty it takes none. -/
def taken (q : Nat) (events : List Event) : List Tid :=
  events.filterMap fun
    | .rescheduled new p queued =>
        if p = q ∧ queued ≠ [] then some new else none
    | _ => none

theorem taken_append (q : Nat) (es es' : List Event) :
    taken q (es ++ es') = taken q es ++ taken q es' :=
  List.filterMap_append

theorem taken_of_quiet {events : List Event}
    (h : ∀ e ∈ events, ∀ new p queued, e ≠ .rescheduled new p queued)
    (q : Nat) : taken q events = [] := by
  refine List.filterMap_eq_nil_iff.mpr fun e he => ?_
  cases e with
  | rescheduled new p queued => exact absurd rfl (h _ he new p queued)
  | _ => rfl

theorem queuedThreads_eq_nil_iff (k : Kernel) :
    queuedThreads k = [] ↔ readyThreads k = [] := by
  rw [queuedThreads, readyThreads, List.flatMap_eq_nil_iff,
    List.flatMap_eq_nil_iff]
  simp only [List.map_eq_nil_iff]

/-- **One choice** serves the run queue that it takes a thread from, and no
    other. -/
theorem serves_threadResched (h : QueueInv False k) :
    ∃ e, (threadResched k).log = k.log ++ [e] ∧ ∀ q,
      Serves (k.runQueue q) (taken q [e]) ((threadResched k).runQueue q) := by
  rcases getNewThread_cases h.bitmap with ⟨hnil, hg⟩ |
      ⟨p, t, ts, hp, hcons, hlow, hg⟩
  · have hready : queuedThreads k = [] := by
      rw [queuedThreads_eq_nil_iff]
      exact flatMap_runQueue_nil fun q hq => hnil q (List.mem_range.mp hq)
    refine ⟨_, by rw [threadResched_eq], fun q => ?_⟩
    rw [threadResched_eq, hg]
    simpa [taken, hready, Kernel.runQueue] using
      Serves.refl (k.queues.items (.run q))
  · have hready : queuedThreads k ≠ [] := by
      rw [ne_eq, queuedThreads_eq_nil_iff, readyThreads_dequeue hp hcons hlow]
      exact List.cons_ne_nil _ _
    have hlink := k.queues.link_of_items_cons hcons
    have hprio : (k.threads t).priority = p := (h.run t p hlink).1
    refine ⟨_, by rw [threadResched_eq], fun q => ?_⟩
    rw [threadResched_eq, hg]
    by_cases hq : q = p
    · -- the thread is the front of this queue
      subst hq
      have hrest : (k.queues.delete t).items (.run q) = ts :=
        k.queues.items_delete_head hcons
      have hserve : Serves (k.runQueue q) [] (t :: ts) := by
        rw [hcons]
        exact Serves.refl _
      simpa [taken, hready, hprio, Kernel.runQueue, hrest] using hserve.head
    · have hrest : (k.queues.delete t).items (.run q)
          = k.queues.items (.run q) := by
        refine k.queues.items_delete_of_ne ?_
        rw [hlink]
        simpa using fun he => hq he.symm
      have hne : ¬ ((p : Int) = q) := fun he => hq (Int.ofNat_inj.mp he).symm
      simpa [taken, hprio, hne, Kernel.runQueue, hrest] using
        Serves.refl (k.queues.items (.run q))

/-- **One step** serves every run queue at its front. -/
theorem serves_step (h : QueueInv False k) {a : Action}
    (hstep : Step cfg k a k') :
    ∃ events, k'.log = k.log ++ events ∧
      ∀ q, Serves (k.runQueue q) (taken q events) (k'.runQueue q) := by
  rcases (exec_ends h hstep.1).of_ok hstep.2 with hg | ⟨ke, hke, rfl⟩
  · obtain ⟨events, hlog, hno⟩ := hg.quiet
    refine ⟨events, hlog, fun q => ?_⟩
    obtain ⟨added, hadded⟩ := hg.runQueue q
    rw [taken_of_quiet hno, hadded]
    exact (Serves.refl _).grow added
  · obtain ⟨events, hlog, hno⟩ := hke.grows.quiet
    obtain ⟨e, he, hserves⟩ := serves_threadResched hke.inv
    refine ⟨events ++ [e], ?_, fun q => ?_⟩
    · rw [he, hlog, List.append_assoc]
    · obtain ⟨added, hadded⟩ := hke.grows.runQueue q
      have hbefore : Serves (k.runQueue q) [] (ke.runQueue q) := by
        rw [hadded]
        exact (Serves.refl _).grow added
      rw [taken_append, taken_of_quiet hno]
      exact hbefore.trans (hserves q)

/-- **Every run** from a reachable state serves every run queue at its
    front. -/
theorem serves_run (h : Reachable cfg AnyCall k)
    (hrun : Runs.Reachable k (Step cfg) AnyCall k') :
    ∃ events, k'.log = k.log ++ events ∧
      ∀ q, Serves (k.runQueue q) (taken q events) (k'.runQueue q) := by
  induction hrun with
  | start => exact ⟨[], (List.append_nil _).symm, fun q => Serves.refl _⟩
  | next a hr _ hstep ih =>
      obtain ⟨events, hlog, hserves⟩ := ih
      have hinv : QueueInv False _ :=
        queueInv_of_reachable (fun _ _ _ hf => hf.elim) (h.trans hr)
      obtain ⟨events', hlog', hserves'⟩ := serves_step hinv hstep
      refine ⟨events ++ events', ?_, fun q => ?_⟩
      · rw [hlog', hlog, List.append_assoc]
      · rw [taken_append]
        exact (hserves q).trans (hserves' q)

/-- Threads 1 and 2 of priority 5 are created and ready. -/
def twoReady : List Action :=
  [.threadCreate 5, .goOn, .goOn, .goOn, .threadResume 1 true,
   .threadCreate 5, .goOn, .goOn, .goOn, .threadResume 2 true]

/-- The boot thread makes way for thread 1, and thread 1 for thread 2. -/
def twoTaken : List Action :=
  [.threadBecomeIdle, .goOn, .goOn, .threadYield]

end ChinixDispatching

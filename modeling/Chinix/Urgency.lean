import Chinix.QueueRuns

/-! # Which thread `thread_resched` chooses

    `thread.h` numbers the priorities upward: `HIGHEST_PRIORITY` is the
    greatest number.  `get_new_thread` scans the bitmap from bit 0 on, so it
    finds the least number that has a thread.  The two agree exactly when the
    threads on the run queues all have one priority. -/

namespace ChinixUrgency

open ChinixKernel ChinixRunQueue ChinixMachine ChinixQueueInvariant
open ChinixQueueRuns

/-- The chosen thread has the greatest priority number of the threads on the
    run queues, and it is the idle thread only if there is none. -/
def MostUrgent (new : Tid) (priority : Int) (queued : List (Tid × Int)) :
    Prop :=
  (new = idleThread → queued = []) ∧ ∀ u ∈ queued, u.2 ≤ priority

instance (new : Tid) (priority : Int) (queued : List (Tid × Int)) :
    Decidable (MostUrgent new priority queued) :=
  inferInstanceAs (Decidable (_ ∧ _))

/-- The threads on the run queues all have one priority. -/
def OnePriority (queued : List (Tid × Int)) : Prop :=
  ∀ u ∈ queued, ∀ v ∈ queued, u.2 = v.2

/-- The least number is the greatest one only among equals. -/
theorem mostUrgent_iff_of_chosen {new : Tid} {priority : Int}
    {queued : List (Tid × Int)} (h : Chosen new priority queued) :
    MostUrgent new priority queued ↔ OnePriority queued := by
  rcases h with ⟨-, hnil⟩ | ⟨hne, hmem, hleast⟩
  · subst hnil
    constructor
    · intro _ u hu
      cases hu
    · intro _
      exact ⟨fun _ => rfl, fun u hu => by cases hu⟩
  · constructor
    · rintro ⟨-, hgreatest⟩ u hu v hv
      have hu' : u.2 = priority :=
        Int.le_antisymm (hgreatest u hu) (hleast u hu)
      have hv' : v.2 = priority :=
        Int.le_antisymm (hgreatest v hv) (hleast v hv)
      rw [hu', hv']
    · intro hone
      refine ⟨fun hi => absurd hi hne, ?_⟩
      intro u hu
      exact Int.le_of_eq (hone u hu (new, priority) hmem)

/-- Two created threads, of priority 5 and 10, and the boot thread idle. -/
def twoThreads : List Action :=
  [.threadCreate 5, .goOn, .goOn, .goOn, .threadResume 1 true,
   .threadCreate 10, .goOn, .goOn, .goOn, .threadResume 2 true,
   .threadBecomeIdle, .goOn]

end ChinixUrgency

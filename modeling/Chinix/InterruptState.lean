import Chinix.LockedCalls

/-! # The interrupt flag of a thread

    Whatever a thread calls, nested as it likes, and whenever it gives up the
    processor or is interrupted: in its locked regions interrupts are
    disabled, and the end of each puts back the flag that its beginning
    found. -/

namespace ChinixInterruptState

open ChinixKernel Uniprocessor ChinixLockedKernel ChinixLockedCalls
open ChinixThread (Config)
open ChinixMachine (tenSlots)

variable {cfg : Config}
variable {ok : Machine Kernel Lock Place Tid → Label Entry → Prop}
variable {m : Machine Kernel Lock Place Tid}

/-- Every call is followed through every path. -/
theorem sound_of_reachable (h : Reachable cfg ok m) :
    Sound (rules False) m := by
  have hobeys : (system cfg).Obeys (rules False) fun _ => True :=
    obeys cfg fun r _ => meets_routine cfg not_false r
  refine Uniprocessor.sound_of_reachable hobeys (bootMachine_sound cfg) ?_ h
  intro m' a _
  cases a with
  | op n => exact fun _ _ hf => hf.elim
  | call e => trivial
  | interrupt => trivial

/-- The flag and the regions of the running thread, before a step. -/
structure FlagKept (cfg : Config) (m : Machine Kernel Lock Place Tid) :
    Prop where
  /-- In a region interrupts are disabled. -/
  masked : m.regions ≠ [] → m.ints = false
  /-- A restore ends the innermost region and sets the flag that was set
      before it. -/
  restored : ∀ l flags next, m.code = .restore l flags next →
    ∀ n m', Step (system cfg) m (.op n) m' →
      m.regions = (l, m'.ints) :: m'.regions

/-- **In every run a region has interrupts disabled, and its end leaves the
    flag as its beginning found it.** -/
theorem flagKept_of_reachable (h : Reachable cfg ok m) : FlagKept cfg m where
  masked := (sound_of_reachable h).masked
  restored := by
    intro l flags next hcode n m' hst
    exact (sound_of_reachable h).restored hcode hst

/-- A thread blocks under a `THREAD_LOCK` of its own, and the idle thread goes
    on in the region in which it yielded. -/
def blockingThread : List (Label Entry) :=
  [.call (.routine (.call (.threadCreate 10)))] ++ List.replicate 10 (.op 1) ++
  [.call (.routine (.call (.threadResume 1)))] ++ List.replicate 7 (.op 1) ++
  [.call .threadBecomeIdle] ++ List.replicate 15 (.op 1) ++
  [.call (.routine (.locked (.waitQueueBlock 0 ChinixTimerQueue.infinitTime)))]
    ++ List.replicate 9 (.op 1)

theorem flagKept_of_reachable_blocking :
    ∃ m, Reachable tenSlots (fun _ _ => True) m ∧
      (m.data.current = idleThread ∧ m.regions = [(.thread, true)]) ∧
      FlagKept tenSlots m := by
  obtain ⟨m, hm, hp⟩ := exists_reachable_of_replay tenSlots (fun _ _ => True)
    (fun m => m.data.current = idleThread ∧ m.regions = [(.thread, true)])
    blockingThread (by decide)
  exact ⟨m, hm, hp, flagKept_of_reachable hm⟩

end ChinixInterruptState

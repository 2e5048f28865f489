import Chinix.LockedCalls

/-! # The lock discipline of the thread API

    `insert_in_run_queue_head`, `insert_in_run_queue_tail` and
    `thread_unblock_from_wait_queue` assert that `thread_lock` is held and
    interrupts are disabled, and `thread_resched` needs the lock as well.  Two
    paths break this: `wait_queue_timeout_handler`, which does not take the
    lock, and `thread_exit` of a detached thread, where `free_thread_node`
    unlocks before `thread_resched` is called.  In the runs that take neither
    the assertions hold. -/

namespace ChinixLockDiscipline

open ChinixKernel Uniprocessor ChinixLockedKernel ChinixLockedCalls
open ChinixThread (Config)
open ChinixMachine (tenSlots)

variable {cfg : Config} {m : Machine Kernel Lock Place Tid}

/-- The running thread meets what is asserted where it is. -/
def AssertionsHold (m : Machine Kernel Lock Place Tid) : Prop :=
  ∀ p, m.here = some p → Asserted p (m.held .thread) m.ints

instance (m : Machine Kernel Lock Place Tid) : Decidable (AssertionsHold m) :=
  decidable_of_iff (∀ p ∈ m.here, Asserted p (m.held .thread) m.ints) Iff.rfl

/-- A thread uses the thread API, `cli` and `sti` only. -/
def threadApi (e : Entry) : Bool :=
  match e with
  | .routine (.call _) => true
  | .routine _ => false
  | .disableInts => true
  | .enableInts => true
  | .threadBecomeIdle => true

/-- What happens in a run of the thread API. -/
def apiLabel (a : Label Entry) : Bool :=
  match a with
  | .op _ => true
  | .call e => threadApi e
  | .interrupt => true

/-- No timeout of a wait queue runs out here, and no detached thread exits. -/
def NeitherLapse (m : Machine Kernel Lock Place Tid) : Prop :=
  m.here ≠ some .waitQueueTimeoutHandler ∧ m.here ≠ some .detachedExit

instance (m : Machine Kernel Lock Place Tid) : Decidable (NeitherLapse m) :=
  inferInstanceAs (Decidable (_ ∧ _))

/-- The runs of the thread API that take neither of the two paths. -/
def Disciplined (m : Machine Kernel Lock Place Tid) (a : Label Entry) : Prop :=
  apiLabel a = true ∧ NeitherLapse m

instance (m : Machine Kernel Lock Place Tid) (a : Label Entry) :
    Decidable (Disciplined m a) :=
  inferInstanceAs (Decidable (_ ∧ _))

/-- Such a run follows the rules that assert. -/
theorem followed_of_disciplined {a : Label Entry} (h : Disciplined m a) :
    Followed (rules True) (fun e => threadApi e = true) m a := by
  obtain ⟨hapi, htimeout, hexit⟩ := h
  cases a with
  | op n =>
      intro p hp _
      constructor
      · rintro rfl
        exact htimeout hp
      · rintro rfl
        exact hexit hp
  | call e => exact hapi
  | interrupt => trivial

theorem sound_of_reachable (h : Reachable cfg Disciplined m) :
    Sound (rules True) m := by
  have hobeys : (system cfg).Obeys (rules True)
      fun e => threadApi e = true := by
    refine obeys cfg ?_
    intro r hr
    cases r with
    | call c => exact returns_call cfg c
    | _ => cases hr
  exact Uniprocessor.sound_of_reachable hobeys (bootMachine_sound cfg)
    (fun _ _ => followed_of_disciplined) h

/-- **In the runs that take neither path the assertions hold at every call.** -/
theorem assertionsHold_of_disciplined (h : Reachable cfg Disciplined m) :
    AssertionsHold m := by
  intro p hp
  exact ((sound_of_reachable h).ok_of_here hp trivial).1

/-- The first path breaks the discipline whenever it is taken: the lock is
    free when `wait_queue_timeout_handler` is called. -/
theorem unlocked_of_timeout (h : Reachable cfg Disciplined m)
    (hp : m.here = some .waitQueueTimeoutHandler) :
    m.held .thread = false :=
  ((sound_of_reachable h).ok_of_here hp trivial).2 rfl

/-- `start_kernel` up to `thread_become_idle`, with the first thread detached
    or not. -/
def startKernel (detached : Bool) : List (Label Entry) :=
  [.call (.routine (.call (.threadCreate 10)))] ++ List.replicate 10 (.op 1) ++
  (if detached then [.call (.routine (.call (.threadDetach 1)))] ++
    List.replicate 7 (.op 1) else []) ++
  [.call (.routine (.call (.threadResume 1)))] ++ List.replicate 7 (.op 1) ++
  [.call .threadBecomeIdle] ++ List.replicate 15 (.op 1)

/-- A run up to the `thread_resched` of `thread_become_idle`. -/
theorem assertionsHold_of_disciplined_startKernel :
    ∃ m, Reachable tenSlots Disciplined m ∧ m.here = some .threadResched ∧
      AssertionsHold m := by
  obtain ⟨m, hm, hp⟩ := exists_reachable_of_replay tenSlots Disciplined
    -- 29 labels lead to the entry of `thread_resched`
    (fun m => m.here = some .threadResched)
    ((startKernel false).take 29) (by decide)
  exact ⟨m, hm, hp, assertionsHold_of_disciplined hm⟩

/-- Two runs of the thread API that break the discipline: the detached first
    thread of `start_kernel` exits, and a timeout of `thread_join` runs out. -/
theorem assertion_fails :
    (∃ m, Reachable tenSlots (fun _ a => apiLabel a = true) m ∧
      m.here = some .threadResched ∧ ¬ AssertionsHold m) ∧
    ∃ m, Reachable tenSlots (fun _ a => apiLabel a = true) m ∧
      m.here = some .threadUnblockFromWaitQueue ∧ ¬ AssertionsHold m := by
  constructor
  · exact exists_reachable_of_replay tenSlots _ _
      (startKernel true ++ [.call (.routine (.call (.threadExit 0)))] ++
        List.replicate 9 (.op 1)) (by decide)
  · exact exists_reachable_of_replay tenSlots _ _
      (startKernel false ++ [.call (.routine (.call (.threadCreate 10)))] ++
        List.replicate 10 (.op 1) ++
        [.call (.routine (.call (.threadJoin 2 1)))] ++
        List.replicate 17 (.op 1) ++
        [.interrupt] ++ List.replicate 3 (.op 1) ++
        [.interrupt] ++ List.replicate 6 (.op 1)) (by decide)

end ChinixLockDiscipline

import Chinix.WhereaboutsRuns

/-! # Exit is final

    When a thread calls `thread_exit` it is linked nowhere and no timer of it
    is armed, and a dead thread is left alone by whatever could make a thread
    READY.  So as long as its slot is not given to another thread it is never
    queued and never current again, and `thread_resched` in `thread_exit`
    does not return. -/

namespace ChinixThreadExit

open ChinixKernel ChinixRunQueue ChinixThread ChinixMachine Outcome
open ChinixQueueInvariant ChinixQueueRuns ChinixLifecycle
open ChinixThreadCalls ChinixWhereabouts ChinixWhereaboutsRuns

variable {k k1 k2 : Kernel} {cfg : Config}

/-- The slot that the next step takes off the free list, if it takes one. -/
def takes (k : Kernel) : Option Tid :=
  match k.frames k.current with
  | .getFreeThreadNode _ :: _ => k.freeList.head?
  | _ => none

/-- The threads are a fixed set: a slot is taken once, and a thread is resumed
    that `thread_create` has linked on a list of threads. -/
def FixedThreads (k : Kernel) (a : Action) : Prop :=
  match a with
  | .goOn => ∀ t ∈ takes k, k.lifetime t = 0
  | .threadResume thid _ => k.threadLists.link thid ≠ none
  | _ => True

instance (k : Kernel) (a : Action) : Decidable (FixedThreads k a) := by
  apply a.casesOn (motive := fun a => Decidable (FixedThreads k a)) <;>
    intros <;> unfold FixedThreads <;> infer_instance

/-- A slot that is taken for the first time belongs to no thread. -/
theorem heeds_of_fixedThreads {w : Watch} {b : Prop} (hq : QueueInv b k)
    (h : Between w k) (hw : w.stack k.current = none) {a : Action}
    (hok : FixedThreads k a) : Heeds w k a where
  current := hw
  take := by
    rintro rfl p hfr t ts hfree
    have htakes : t ∈ takes k := by
      simp [takes, hfr, hfree]
    have hl : k.threadLists.link t = some .free :=
      k.threadLists.link_of_items_cons hfree
    have ht : t ≠ idleThread := by
      rintro rfl
      cases hl.symm.trans hq.idle_listed
    exact .inl ((h.placed t).unborn ht (hok t htakes))
  resume := by
    rintro thid i rfl -
    exact hok

theorem queueInv_of_fixedThreads (h : Reachable cfg FixedThreads k) :
    QueueInv False k :=
  queueInv_of_reachable (fun _ _ _ hf => hf.elim) h

theorem between_of_fixedThreads (h : Reachable cfg FixedThreads k) :
    Between .nobody k := by
  refine h.invariant_under (fun _ hr => queueInv_of_fixedThreads hr)
    (bootKernel_between cfg) ?_
  intro s a s' hq hs ha hst
  exact (exec_between hq hs hst.1
    (heeds_of_fixedThreads hq hs rfl ha)).of_ok hst.2

/-- Thread `t` is watched in its `thread_exit`, from event `n` on. -/
def exiting (t : Tid) (n : Nat) : Watch where
  dead := fun u => u = t
  since := n
  stack := fun u => if u = t then some [.afterResched .exit 0] else none

/-- `thread_exit` leaves its caller dead and inside the call. -/
theorem exiting_of_threadExit (h : Between .nobody k) {retcode : Int}
    (hst : Step cfg k (.threadExit retcode) k1) :
    Between (exiting k.current k.log.length) k1 := by
  obtain ⟨hin, hx⟩ := hst
  have hfr : k.frames k.current = [] := hin.1
  have hrest := resting_of_between h
  have hdied := died_settled (h.relax (by rw [hfr]; rfl)) hrest hin.2 rfl
    hfr retcode
  -- from its death on the caller is watched
  have hwatch : Settled ⟨fun u => u = k.current, k.log.length, fun _ => none⟩
      none (died retcode k) := by
    refine hdied.watch ?_ (fun _ _ => by simp) ?_
    · rintro t rfl
      refine ⟨state_died retcode k, h.not_held (.inr ?_)⟩
      rw [hrest.running]
      exact ⟨by simp, by simp⟩
    · intro e he t _
      have hlog : (died retcode k).log.drop k.log.length
          = [.exited k.current (k.lifetime k.current) retcode] :=
        List.drop_left
      rw [hlog, List.mem_singleton] at he
      rw [he]
      trivial
  have hend := afterDeath_between hwatch (state_died retcode k) rfl hfr
    ((died retcode k).lifetime k.current)
  rw [← threadExit_eq] at hend
  obtain ⟨hbetween, hstack⟩ := hend.of_ok hx
  -- once it is inside `thread_resched`, so is its stack
  refine hbetween.watch ?_ ?_ hbetween.quiet
  · rintro t rfl
    refine ⟨(hbetween.placed k.current).dead rfl, ?_⟩
    intro u hu
    rcases (hbetween.held u _ hu).1.state with hs | ⟨-, hno⟩
    · cases hs.symm.trans ((hbetween.placed k.current).dead rfl)
    · exact hno rfl
  · intro t fs hfs
    by_cases ht : t = k.current
    · subst ht
      have hd : (k1.threads k.current).state = .death :=
        (hbetween.placed k.current).dead rfl
      have hfs' : [Frame.afterResched .exit 0] = fs := by
        simpa [exiting] using hfs
      refine ⟨hstack.trans hfs', ?_, fun _ => rfl⟩
      rw [hd]
      simp
    · simp [exiting, ht] at hfs

/-- The thread that is watched in its `thread_exit` is not the current one. -/
theorem exiting_ne_current {t : Tid} {n : Nat} (h : Between (exiting t n) k) :
    t ≠ k.current := by
  rintro rfl
  have hd : (k.threads k.current).state = .death :=
    (h.placed k.current).dead rfl
  cases (resting_of_between h).running.symm.trans hd

/-- **Every later step** leaves the thread in its `thread_exit`. -/
theorem exiting_of_runs {t : Tid} {n : Nat} (h1 : Reachable cfg FixedThreads k1)
    (h : Between (exiting t n) k1)
    (h2 : Runs.Reachable k1 (Step cfg) FixedThreads k2) :
    Between (exiting t n) k2 := by
  refine h2.invariant_under
    (fun _ hr => queueInv_of_fixedThreads (h1.trans hr)) h ?_
  intro s a s' hq hs ha hst
  have hw : (exiting t n).stack s.current = none :=
    if_neg (Ne.symm (exiting_ne_current hs))
  exact (exec_between hq hs hst.1
    (heeds_of_fixedThreads hq hs hw ha)).of_ok hst.2

/-- No step of a run falls through `thread_exit`. -/
theorem no_fellThroughExit (h : Reachable cfg FixedThreads k) {a : Action}
    (hen : Enabled cfg a k) (ha : FixedThreads k a) :
    exec cfg a k ≠ .error .fellThroughExit := by
  intro hx
  have hs := between_of_fixedThreads h
  have hq := queueInv_of_fixedThreads h
  exact (exec_between hq hs hen
    (heeds_of_fixedThreads hq hs rfl ha)).of_error hx rfl

/-- **Exit is final.**  In every run over a fixed set of threads, whatever
    happens after a thread has called `thread_exit`: it is not current, it is
    on no run queue, no dispatch since then has chosen it or found it queued,
    it is still inside the call, and the panic behind it is not reached. -/
theorem exit_is_final (h : Reachable cfg FixedThreads k) {retcode : Int}
    (hst : Step cfg k (.threadExit retcode) k1)
    (h2 : Runs.Reachable k1 (Step cfg) FixedThreads k2) :
    k.current ≠ k2.current ∧ (∀ p, k.current ∉ k2.runQueue p) ∧
      (∀ e ∈ k2.log.drop k.log.length, Spares k.current e) ∧
      k2.frames k.current = [.afterResched .exit 0] ∧
      ∀ a, Enabled cfg a k2 → FixedThreads k2 a →
        exec cfg a k2 ≠ .error .fellThroughExit := by
  have h1 : Reachable cfg FixedThreads k1 := .next (.threadExit retcode) h trivial hst
  have hend := exiting_of_runs h1
    (exiting_of_threadExit (between_of_fixedThreads h) hst) h2
  have hp := hend.placed k.current
  refine ⟨exiting_ne_current hend, ?_, fun e he => hend.quiet e he _ rfl,
    (hp.kept _ (if_pos rfl)).1, ?_⟩
  · intro p hmem
    have hl := (k2.queues.mem_items _ _).mp hmem
    have hd : (view k2 k.current).state = .death := hp.dead rfl
    exact not_runnable_death (hd ▸ hp.run p hl)
  · intro a hen ha
    exact no_fellThroughExit (h1.trans h2) hen ha

/-- Thread 2 waits for the exit of thread 1 and goes on when it has exited. -/
theorem exit_is_final_joined :
    ∃ k k1 k2, Reachable tenSlots FixedThreads k ∧ k.current = 1 ∧
      Step tenSlots k (.threadExit 7) k1 ∧
      Runs.Reachable k1 (Step tenSlots) FixedThreads k2 ∧
      k2.freeList.getLast? = some 1 ∧ 1 ≠ k2.current ∧
      (∀ p, 1 ∉ k2.runQueue p) ∧
      k2.frames 1 = [.afterResched .exit 0] := by
  obtain ⟨k, hk, hc, hen, hlater⟩ := exists_reachable_of_replay tenSlots
    FixedThreads (fun k => k.current = 1 ∧
      Enabled tenSlots (.threadExit 7) k ∧
      ((exec tenSlots (.threadExit 7) k).toOption.bind
        (replay tenSlots FixedThreads [.goOn, .threadSleep 3])).any
          (fun k2 => k2.freeList.getLast? = some 1) = true)
    [.threadCreate 5, .goOn, .goOn, .goOn, .threadResume 1 true,
      .threadCreate 5, .goOn, .goOn, .goOn, .threadResume 2 true,
      .threadBecomeIdle, .goOn, .goOn, .threadYield, .goOn,
      .threadJoin 1 true 50, .goOn] (by decide +kernel)
  cases hx : exec tenSlots (.threadExit 7) k with
  | error e =>
      rw [hx] at hlater
      cases hlater
  | ok k1 =>
      rw [hx, Option.any_eq_true] at hlater
      obtain ⟨k2, hreplay, hfree⟩ := hlater
      have h2 : Runs.Reachable k1 (Step tenSlots) FixedThreads k2 :=
        reachable_of_replay tenSlots .start hreplay
      have hst : Step tenSlots k (.threadExit 7) k1 := ⟨hen, hx⟩
      obtain ⟨hcur, hqueue, -, hstack, -⟩ := exit_is_final hk hst h2
      rw [hc] at hcur hqueue hstack
      exact ⟨k, k1, k2, hk, hc, hst, h2, of_decide_eq_true hfree, hcur,
        hqueue, hstack⟩

end ChinixThreadExit

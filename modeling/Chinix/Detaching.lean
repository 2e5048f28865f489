import Chinix.ExitQueues

/-! # Detaching a thread

    `thread_detach` and `thread_detach_and_resume` are made of other calls
    that take a thread id, and hand them the pointer to the slot instead.
    Seen as an id a pointer is negative: `thread_id_to_ptr` leaves the bounds
    of `g_threads` whatever the state of the thread is. -/

namespace ChinixDetaching

open ChinixTimerQueue ChinixPlatformTimer ChinixKernel ChinixRunQueue
open ChinixWaitQueue ChinixThread ChinixMachine Outcome ChinixQueueInvariant
open ChinixQueueRuns ChinixExitQueues

variable {k k' : Kernel} {thid : Tid} {cfg : Config}

/-- `thread_detach` with nothing in between. -/
def threadDetachAtOnce (cfg : Config) (thid : Int) (k : Kernel) :
    Except Fault Kernel := do
  let k ← threadDetach cfg thid k
  match k.frames k.current with
  | .detachJoin t :: _ => detachJoin cfg t k
  | _ => return k

/-- No index out of the bounds of `g_threads`. -/
def InBounds (e : Fault) : Prop := ∀ n, e ≠ .threadIndex n

/-- What the two calls are for: a dead thread that nobody has joined is reaped
    as by `thread_join`, detaching and resuming is one after the other, and
    what is handed on names a slot. -/
structure DetachComposes (cfg : Config) (thid : Tid) (k : Kernel) :
    Prop where
  reaps : (k.threads thid).state = .death →
    k.threadLists.link thid = some .all →
    threadDetachAtOnce cfg thid k = threadJoin cfg thid false 0 k
  resumes : ∀ intsDisabled, threadDetachAndResume cfg thid intsDisabled k =
    threadDetachAtOnce cfg thid k >>= threadResume cfg thid intsDisabled
  detaches : Holds (threadDetachAtOnce cfg thid k) (fun _ => True) InBounds

theorem insert_inBounds (t : Tid) (k : Kernel) :
    Holds (insertInRunQueueTail t k) (fun k' => k' = enqueue k t)
      InBounds := by
  have hspec := insertInRunQueueTail_spec t k
  cases hr : insertInRunQueueTail t k with
  | ok k' => exact (hspec.of_ok hr).2.2
  | error e =>
      intro n hn
      rcases hspec.of_error hr with hlink | ⟨-, hindex⟩
      · cases hlink.symm.trans hn
      · cases hindex.symm.trans hn

/-- Waking stays in bounds, leaves the calls alone and kills nobody. -/
theorem wakeAllLoop_inBounds (q : WaitQueueRef) (error : Int) :
    ∀ (n : Nat) (ret : Int) (k : Kernel),
      Holds (wakeAllLoop q error n ret k)
        (fun r => r.2.frames = k.frames ∧ r.2.current = k.current ∧
          ∀ t, (r.2.threads t).state = .death → (k.threads t).state = .death)
        InBounds := by
  intro n
  induction n with
  | zero =>
      intro ret k
      exact fun _ => by simp
  | succ n ih =>
      intro ret k
      rw [wakeAllLoop, listRemoveHead]
      cases k.queues.items (.wait q) with
      | nil => exact ⟨rfl, rfl, fun _ => id⟩
      | cons t ts =>
          refine Holds.bind (insert_inBounds t _) ?_
          rintro k1 rfl
          refine (ih (ret + 1) _).imp ?_
          rintro r ⟨hfr, hcur, hdead⟩
          refine ⟨hfr, hcur, fun u hu => ?_⟩
          have hu' := hdead u hu
          by_cases he : u = t
          · subst he
            simp [readyWaiter] at hu'
          · simpa [readyWaiter, he] using hu'

theorem waitQueueWakeAll_inBounds (q : WaitQueueRef) (error : Int)
    (k : Kernel) :
    Holds (waitQueueWakeAll q false error k)
      (fun r => r.2.frames = k.frames ∧ r.2.current = k.current ∧
        ∀ t, (r.2.threads t).state = .death → (k.threads t).state = .death)
      InBounds := by
  dsimp only [waitQueueWakeAll]
  rw [if_neg (fun h => Bool.noConfusion h.1)]
  refine Holds.bind (Q := fun k1 => k1 = k) rfl ?_
  rintro k1 rfl
  refine Holds.bind (wakeAllLoop_inBounds q error _ 0 k1) ?_
  rintro ⟨ret, k2⟩ hk2
  rw [if_neg (fun h => Bool.noConfusion h.2)]
  exact hk2

/-- Detaching a thread that lives stays in bounds. -/
theorem threadDetachAtOnce_inBounds (hid : cfg.ValidId thid)
    (hfr : k.frames k.current = []) (hs : (k.threads thid).state ≠ .death) :
    Holds (threadDetachAtOnce cfg thid k) (fun _ => True) InBounds := by
  rw [threadDetachAtOnce, threadDetach]
  rw [threadIdToPtr_eq hid, ok_bind]
  refine Holds.bind (Q := fun k1 => k1.frames k1.current = []) ?_ ?_
  · refine Holds.bind (waitQueueWakeAll_inBounds _ errThreadDetached k) ?_
    rintro ⟨ret, k1⟩ ⟨hfr1, hcur1, hdead⟩
    have hlive : decide ((k1.threads thid).state = .death) = false := by
      rw [decide_eq_false_iff_not]
      exact fun hd => hs (hdead thid hd)
    dsimp only
    rw [hlive]
    show k1.frames k1.current = []
    rw [show k1.frames = k.frames from hfr1,
      show k1.current = k.current from hcur1]
    exact hfr
  · intro k1 hk1
    rw [hk1]
    trivial

theorem threadResume_inBounds (hid : cfg.ValidId thid)
    (intsDisabled : Bool) (k : Kernel) :
    Holds (threadResume cfg thid intsDisabled k) (fun _ => True)
      InBounds := by
  rw [threadResume]
  rw [threadIdToPtr_eq hid, ok_bind]
  split_ifs
  · exact Holds.bind (insert_inBounds _ _) fun _ _ => trivial
  · exact Holds.bind (insert_inBounds _ _) fun _ _ => trivial
  · trivial

/-- `thread_detach` of a dead thread, for whose exit nobody waits, leaves the
    bounds in its call of `thread_join`. -/
theorem threadDetachAtOnce_dead (hid : cfg.ValidId thid)
    (hnil : k.waitList (.exitOf thid) = [])
    (hd : (k.threads thid).state = .death) :
    threadDetachAtOnce cfg thid k
      = .error (.threadIndex (cfg.ptrToInt thid)) := by
  have hwake : waitQueueWakeAll (.exitOf thid) false errThreadDetached k
      = .ok (0, k) := by
    have hnil' : k.queues.items (.wait (.exitOf thid)) = [] := hnil
    unfold waitQueueWakeAll wakeAllLoop listRemoveHead
    simp [hnil']
  rw [threadDetachAtOnce, threadDetach]
  rw [threadIdToPtr_eq hid, ok_bind, hwake, ok_bind]
  dsimp only
  rw [hd]
  show (match (Function.update _ k.current _ : Tid → List Frame) k.current with
    | .detachJoin t :: _ => _
    | _ => _) = _
  rw [Function.update_self]
  exact detachJoin_eq cfg thid _

/-- **The calls never compose.**  If the thread is dead, `thread_detach` does
    not reap it; if not, `thread_detach_and_resume` does not detach it. -/
theorem not_detachComposes (h : Reachable cfg AnyCall k)
    (hid : Issued cfg k thid) (hin : inThread k ∨ inStartKernel k) :
    ¬ DetachComposes cfg thid k := by
  rintro ⟨-, hresumes, hdetaches⟩
  by_cases hd : (k.threads thid).state = .death
  · have hnil : k.waitList (.exitOf thid) = [] := by
      refine List.eq_nil_iff_forall_not_mem.mpr ?_
      intro u hu
      have hopen := noneStranded_of_awaitsExit h
        ((k.queues.mem_items _ _).mp hu)
      exact hopen (.inl hd)
    exact hdetaches.of_error (threadDetachAtOnce_dead hid.1 hnil hd) _ rfl
  · have hfr : k.frames k.current = [] := hin.elim And.left And.left
    obtain ⟨n, hfault⟩ := threadDetachAndResume_eq cfg thid false k
    have hboth : Holds (threadDetachAtOnce cfg thid k >>=
        threadResume cfg thid false) (fun _ => True) InBounds :=
      Holds.bind (threadDetachAtOnce_inBounds hid.1 hfr hd)
        fun k1 _ => threadResume_inBounds hid.1 false k1
    have heq := hresumes false
    rw [hfault] at heq
    exact hboth.of_error heq.symm n rfl

/-- Thread 1 runs; thread 2 has been created. -/
def twoCreated : List Action :=
  [.threadCreate 5, .goOn, .goOn, .goOn, .threadResume 1 true,
   .threadCreate 5, .goOn, .goOn, .goOn, .threadBecomeIdle, .goOn, .goOn]

theorem not_detachComposes_two :
    ∃ k, Reachable tenSlots AnyCall k ∧ (k.threads 2).state = .suspended ∧
      ¬ DetachComposes tenSlots 2 k := by
  obtain ⟨k, hk, hid, hin, hs⟩ := exists_reachable_of_replay tenSlots AnyCall
    (fun k => Issued tenSlots k 2 ∧ inThread k ∧
      (k.threads 2).state = .suspended) twoCreated (by decide +kernel)
  exact ⟨k, hk, hs, not_detachComposes hk hid (.inl hin)⟩

/-- Thread 1 detaches and resumes thread 2: one call after the other works,
    `thread_detach_and_resume` leaves the bounds. -/
theorem detachAndResume_faults :
    ¬ ∀ k thid, Reachable tenSlots AnyCall k → Issued tenSlots k thid →
      inThread k → DetachComposes tenSlots thid k := by
  intro hall
  obtain ⟨k, hk, hid, hin, hfault, hworks⟩ := exists_reachable_of_replay
    tenSlots AnyCall (fun k => Issued tenSlots k 2 ∧ inThread k ∧
      (threadDetachAndResume tenSlots 2 false k).isOk = false ∧
      (threadDetachAtOnce tenSlots 2 k >>=
        threadResume tenSlots 2 false).isOk = true)
    twoCreated (by decide +kernel)
  have heq : threadDetachAndResume tenSlots 2 false k
      = threadDetachAtOnce tenSlots 2 k >>= threadResume tenSlots 2 false :=
    (hall k 2 hk hid hin).resumes false
  rw [heq] at hfault
  exact Bool.noConfusion (hfault.symm.trans hworks)

end ChinixDetaching

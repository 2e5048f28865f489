import Chinix.Steps

/-! # Joining a thread

    `thread_join` waits for the exit of a thread and reaps its slot.  What
    decides whether it may is the code that `wait_queue_block` returns, and
    the codes of a timeout and of a detached thread are positive, so they
    pass the test of `thread_join` as if the thread were dead.  `JoinSafe`
    excludes the calls that lead there, and those that break the lists; then
    only dead threads are reaped. -/

namespace ChinixJoining

open ChinixTimerQueue ChinixPlatformTimer ChinixKernel ChinixRunQueue
open ChinixWaitQueue ChinixThread ChinixMachine Outcome ChinixQueueInvariant
open ChinixQueueRuns ChinixLifecycle ChinixMoves ChinixLifeInvariant
open ChinixSimulation ChinixThreadCalls ChinixSteps

variable {s : Scope} {k k' : Kernel} {t : Tid} {cfg : Config}

/-! ## The calls -/

/-- The threads that join a thread. -/
def joiners (k : Kernel) (t : Tid) : List Tid :=
  k.threadList.filter fun u => joining (k.frames u) = some t

/-- A thread that joins is on `thread_list`. -/
theorem mem_joiners (h : LifeInv s k) {u : Tid} :
    u ∈ joiners k t ↔ joining (k.frames u) = some t := by
  rw [joiners, List.mem_filter, decide_eq_true_iff]
  refine ⟨And.right, fun hj => ⟨?_, hj⟩⟩
  have hok := h.ok u
  have hin := hok.stack.blockedIn_of_joining hj
  rw [Kernel.threadList, NodeLists.mem_items]
  rcases hok.call _ hin with hl | hr
  · have hb : (k.threads u).state = .blocked := (hok.wait _ hl).1
    refine hok.listed ?_ ?_
    · show (k.threads u).state ≠ .suspended
      rw [hb]
      simp
    · show (k.threads u).state ≠ .death
      rw [hb]
      simp
  · refine hok.listed ?_ ?_
    · intro hs
      rcases hr with hr | hr <;> cases hr.symm.trans hs
    · intro hs
      exact not_runnable_death (hs ▸ hr)

/-- The locked region of `get_free_thread_node` is next. -/
def takesSlot : List Frame → Bool
  | .getFreeThreadNode _ :: _ => true
  | _ => false

instance (k : Kernel) : DecidablePred (EndsJoin k) := by
  intro r
  unfold EndsJoin
  split <;> infer_instance

/-- The calls that reap dead threads only: a thread that lives is waited for,
    the slot of a dead one is on a list, no timeout ends a join, nobody waits
    for the exit of a thread that is detached, and no slot is taken that is
    still being joined.  Threads have the priorities of run queues, and a
    thread that is unblocked is on no wait queue. -/
def JoinSafe (k : Kernel) (a : Action) : Prop :=
  match a with
  | .goOn => takesSlot (k.frames k.current) = true →
      ∀ t ∈ k.freeList.head?, joiners k t = []
  | .interrupt => ∀ r ∈ dueTimers k, ¬ EndsJoin k r
  | .threadCreate p => PriorityOk p
  | .threadResume thid _ => (k.threads thid).state = .suspended →
      k.threadLists.link thid = some .all
  | .threadUnblock thid _ => (k.threads thid).blockingWaitQueue = none
  | .threadJoin thid _ timeout => (k.threads thid).flags.detached = false →
      k.threadLists.link thid ≠ none ∧
        ((k.threads thid).state ≠ .death →
          timeout ≠ 0 ∧ k.threadLists.link thid = some .all)
  | .threadDetach thid => (k.threads thid).state = .death ∨
      k.waitList (.exitOf thid) = []
  | _ => True

instance (k : Kernel) (a : Action) : Decidable (JoinSafe k a) := by
  apply a.casesOn (motive := fun a => Decidable (JoinSafe k a)) <;>
    intros <;> unfold JoinSafe <;> infer_instance

/-- A dead thread is reaped, and no step faults but for a pointer that is
    taken for a thread id. -/
def reaping (joins : Prop) : Scope where
  total := True
  joinless := False
  listed := False
  single := False
  once := False
  code := fun _ => True
  joins := joins

/-- The slot at the head of the free list is not being joined. -/
theorem headUnjoined (h : LifeInv s k)
    (hj : ∀ t ∈ k.freeList.head?, joiners k t = []) : HeadUnjoined k := by
  intro t ts hcons u hu
  have hmem := (mem_joiners h).mpr hu
  rw [hj t (by rw [hcons]; rfl)] at hmem
  cases hmem

/-- A step ends a join when `thread_join` returns in it. -/
def EndsWithJoin (k : Kernel) : Action → Prop
  | .goOn => joining (k.frames k.current) ≠ none
  | .threadJoin thid _ _ => (k.threads thid).flags.detached = true ∨
      (k.threads thid).state = .death
  | _ => False

theorem allowed_of_joinSafe {joins : Prop} (h : LifeInv s k) {a : Action}
    (hj : EndsWithJoin k a → joins) (ha : JoinSafe k a) :
    Allowed (reaping joins) k a := by
  cases a with
  | goOn =>
      refine ⟨?_, hj⟩
      intro p hfr
      exact headUnjoined h (ha (by rw [hfr]; rfl))
  | interrupt => exact ⟨ha, trivial⟩
  | threadCreate p => exact fun _ => ha
  | threadResume thid intsDisabled => exact ha
  | threadUnblock thid resched =>
      exact ⟨fun _ => ha, fun hno => hno.elim False.elim False.elim⟩
  | threadSetPriority p => exact False.elim
  | threadJoin thid w timeout =>
      exact ⟨id, hj, fun hdet => (ha hdet).2, fun _ hdet => (ha hdet).1,
        False.elim⟩
  | threadDetach thid => exact ⟨id, id, ha, trivial⟩
  | threadDetachAndResume thid i => exact id
  | threadExit retcode => exact trivial
  | waitQueueWakeOne q reschedule error => exact trivial
  | waitQueueWakeAll q reschedule error => exact trivial
  | waitQueueDestroy q reschedule => exact trivial
  | _ => exact trivial

theorem good_of_joinSafe (h : Reachable cfg JoinSafe k) :
    Good (reaping True) k :=
  good_of_reachable (fun _ _ hg ha =>
    allowed_of_joinSafe hg.life (fun _ => trivial) ha) h

/-! ## What a step that ends a join does -/

/-- `thread_join` returned. -/
def isJoined : Event → Bool
  | .joined _ _ _ _ _ _ => true
  | _ => false

theorem move_log (hm : Move s k k') (hs : ¬ s.joins) :
    ∃ new, k'.log = k.log ++ new ∧ ∀ e ∈ new, isJoined e = false := by
  have hnil : k.log = k.log ++ [] := (List.append_nil _).symm
  have hone : ∀ e, isJoined e = false → ∀ e' ∈ [e], isJoined e' = false := by
    intro e he e' he'
    rw [List.mem_singleton.mp he']
    exact he
  cases hm with
  | preempted => exact ⟨_, rfl, hone _ rfl⟩
  | die retcode hr hc hfr => exact ⟨_, rfl, hone _ rfl⟩
  | wake q u error hl hq hx hcode => exact ⟨_, rfl, hone _ rfl⟩
  | block q timeout below tq hr hc hfr hb ht => exact ⟨_, rfl, hone _ rfl⟩
  | returns q timeout call below hr hfr => exact ⟨_, rfl, hone _ rfl⟩
  | publish u hr hfr hm => exact ⟨_, rfl, hone _ rfl⟩
  | reclaim u entitled hm hd hl ho => exact ⟨_, rfl, hone _ rfl⟩
  | joined u lifetime ret w stored hj h => exact absurd hj hs
  | dispatch hb hi hl hs => exact ⟨_, log_threadResched k, hone _ rfl⟩
  | _ => exact ⟨[], hnil, by simp⟩

theorem moves_log (hm : Moves s k k') (hs : ¬ s.joins) :
    ∃ new, k'.log = k.log ++ new ∧ ∀ e ∈ new, isJoined e = false := by
  induction hm with
  | refl => exact ⟨[], (List.append_nil _).symm, by simp⟩
  | tail _ hmove ih =>
      obtain ⟨new, hlog, hnew⟩ := ih
      obtain ⟨more, hmore, hquiet⟩ := move_log hmove hs
      refine ⟨new ++ more, by rw [hmore, hlog, List.append_assoc], ?_⟩
      intro e he
      exact (List.mem_append.mp he).elim (hnew e) (hquiet e)

/-- The joins that ended in a step: with `NO_ERR` for a thread that is dead
    and whose slot went on the free list, or with an error, and then the slot
    is where it was. -/
def JoinsReapDead (k k' : Kernel) : Prop :=
  ∃ new, k'.log = k.log ++ new ∧
    ∀ caller t lifetime ret wantRetcode stored,
      Event.joined caller t lifetime ret wantRetcode stored ∈ new →
      ret = noErr ∧ (k'.threads t).state = .death ∧
          k'.threadLists.link t = some .free ∨
        ret < 0 ∧ k'.threadLists.link t = k.threadLists.link t

theorem joinsReapDead_of_quiet {new : List Event}
    (hlog : k'.log = k.log ++ new) (hnew : ∀ e ∈ new, isJoined e = false) :
    JoinsReapDead k k' :=
  ⟨new, hlog, fun _ _ _ _ _ _ hmem => by cases hnew _ hmem⟩

/-- `thread_join` takes the slot of the thread for the free list. -/
theorem threadJoinReap_ok {wantRetcode : Bool} {lifetime : Nat}
    (hx : threadJoinReap t wantRetcode lifetime k = .ok k') :
    k'.threads = k.threads ∧ k'.threadLists.link t = some .free ∧
      k'.log = k.log ++ [.freed t (k.lifetime t) lifetime,
        .joined k.current t lifetime noErr wantRetcode
          (if wantRetcode then some (k.threads t).retcode else none)] := by
  rw [threadJoinReap, unlinkAndFree] at hx
  cases hl : k.threadLists.link t with
  | none =>
      rw [hl] at hx
      cases hx
  | some ref =>
      rw [hl] at hx
      cases hx
      refine ⟨rfl, ?_, List.append_assoc _ _ _⟩
      have hnone : (k.threadLists.delete t).link t = none := by simp
      show ((k.threadLists.delete t).addTail .free t).link t = some .free
      rw [NodeLists.link_addTail _ _ _ hnone, Function.update_self]

theorem joinsReapDead_of_reap {k1 : Kernel} {wantRetcode : Bool}
    {lifetime : Nat} {new : List Event}
    (hx : threadJoinReap t wantRetcode lifetime k1 = .ok k')
    (hd : (k1.threads t).state = .death)
    (hlog : k1.log = k.log ++ new) (hnew : ∀ e ∈ new, isJoined e = false) :
    JoinsReapDead k k' := by
  obtain ⟨hth, hl, hlog'⟩ := threadJoinReap_ok hx
  refine ⟨_, by rw [hlog', hlog, List.append_assoc], ?_⟩
  intro caller t' lifetime' ret w stored hmem
  rcases List.mem_append.mp hmem with hold | hlast
  · cases hnew _ hold
  · rcases List.mem_cons.mp hlast with heq | hlast
    · cases heq
    · cases List.mem_singleton.mp hlast
      exact .inl ⟨rfl, by rw [hth]; exact hd, hl⟩

/-- The rest of a `thread_join` that was woken. -/
theorem goOn_reapsDead (h : Good s k)
    (hj : joining (k.frames k.current) ≠ none)
    (hx : continueFrame cfg k = .ok k') : JoinsReapDead k k' := by
  have hok : FramesOk (k.frames k.current) := (h.life.ok k.current).stack
  obtain ⟨t, ht⟩ := Option.ne_none_iff_exists'.mp hj
  obtain ⟨w, l, hmem⟩ := (joining_eq_some_iff hok).mp ht
  obtain ⟨-, -, -, hor⟩ := h.life.joins k.current t w l hmem
  have hdeath : (k.threads t).state = .death := by
    refine hor.resolve_left ?_
    rw [h.rest.unlinked]
    simp
  have hret : 0 ≤ (k.threads k.current).waitQueueBlockRet :=
    (h.life.ok k.current).ret hj
  obtain ⟨timeout, call, hfr⟩ := hok.eq_of_mem hmem
  rw [continueFrame] at hx
  rw [hfr] at hx
  dsimp only at hx
  rw [waitQueueBlockRest_eq hfr,
    waitQueueBlockReturns_join (Function.update_self _ _ _) hret] at hx
  refine joinsReapDead_of_reap hx hdeath rfl ?_
  intro e he
  rw [List.mem_singleton.mp he]
  rfl

/-- A `thread_join` that returns at once. -/
theorem threadJoin_reapsDead (hid : Issued cfg k t) {wantRetcode : Bool}
    {timeout : Time}
    (hends : (k.threads t).flags.detached = true ∨
      (k.threads t).state = .death)
    (hx : threadJoin cfg t wantRetcode timeout k = .ok k') :
    JoinsReapDead k k' := by
  rw [threadJoin] at hx
  rw [threadIdToPtr_eq hid.1, ok_bind] at hx
  by_cases hdet : (k.threads t).flags.detached = true
  · rw [if_pos hdet] at hx
    cases hx
    refine ⟨_, rfl, ?_⟩
    intro caller t' l ret w stored hmem
    cases List.mem_singleton.mp hmem
    exact .inr ⟨by decide, rfl⟩
  · have hd := hends.resolve_left hdet
    rw [if_neg hdet, if_neg (not_not.mpr hd)] at hx
    exact joinsReapDead_of_reap hx hd (List.append_nil _).symm (by simp)

/-- Every step reaps dead threads only. -/
theorem joinsReapDead_of_step {joins : Prop} (h : Good (reaping joins) k)
    {a : Action} (ha : JoinSafe k a) (hst : Step cfg k a k') :
    JoinsReapDead k k' := by
  by_cases hends : EndsWithJoin k a
  · cases a with
    | goOn => exact goOn_reapsDead h hends hst.2
    | threadJoin thid w timeout =>
        exact threadJoin_reapsDead hst.1.1 hends hst.2
    | _ => exact hends.elim
  · have h0 : Good (reaping False) k := h.withCodes _ False
    have hmoves := (good_of_step h0
      (allowed_of_joinSafe h0.life (fun he => hends he) ha) hst).2
    obtain ⟨new, hlog, hnew⟩ := moves_log hmoves id
    exact joinsReapDead_of_quiet hlog hnew

/-- A slot on the free list: its thread cannot run. -/
structure FreeSlot (k : Kernel) (t : Tid) : Prop where
  notCurrent : t ≠ k.current
  unlinked : ∀ ref, t ∉ k.queues.items ref
  dead : (k.threads t).state = .death ∨ k.lifetime t = 0

theorem freeSlot_of_good (h : Good s k) (ht : t ∈ k.freeList) :
    FreeSlot k t := by
  have hl : k.threadLists.link t = some .free :=
    (k.threadLists.mem_items _ _).mp ht
  have hfree := (h.life.ok t).free hl
  have hcur : t ≠ k.current := by
    rintro rfl
    cases hl.symm.trans (h.life.current_listed h.rest)
  have hnone : k.queues.link t = none := by
    obtain ⟨hrun, hblocked⟩ := (h.life.ok t).not_live (by
      intro hall
      cases hl.symm.trans hall)
    exact (h.life.ok t).unlinked hrun hblocked
  refine ⟨hcur, ?_, hfree⟩
  intro ref hmem
  cases hnone.symm.trans ((k.queues.mem_items _ _).mp hmem)

/-- **Every run** of safe calls: no slot on the free list belongs to a thread
    that can run, and a step in which `thread_join` returns reaped a dead
    thread, or returned an error and left the slot where it was.  The one step
    that faults takes the pointer that `thread_detach` passes for an id. -/
theorem joinsReapDead_of_reachable (h : Reachable cfg JoinSafe k) :
    (∀ t ∈ k.freeList, FreeSlot k t) ∧
      ∀ a, Enabled cfg a k → JoinSafe k a →
        (∃ k', exec cfg a k = .ok k' ∧ JoinsReapDead k k') ∨
          ∃ thid, exec cfg a k = .error (.threadIndex thid) := by
  have hgood := good_of_joinSafe h
  refine ⟨fun t => freeSlot_of_good hgood, ?_⟩
  intro a hen ha
  have hdone := exec_done hgood hen
    (allowed_of_joinSafe hgood.life (fun _ => trivial) ha)
  cases hx : exec cfg a k with
  | ok k' =>
      exact .inl ⟨k', rfl, joinsReapDead_of_step hgood ha ⟨hen, hx⟩⟩
  | error e =>
      obtain ⟨-, thid, rfl⟩ := hdone.of_error hx trivial
      exact .inr ⟨thid, rfl⟩

/-- Thread 2 joins thread 1, which exits. -/
def exitAndJoin : List Action :=
  [.threadCreate 5, .goOn, .goOn, .goOn, .threadResume 1 true,
   .threadCreate 5, .goOn, .goOn, .goOn, .threadResume 2 true,
   .threadBecomeIdle, .goOn, .goOn, .threadYield, .goOn,
   .threadJoin 1 true infinitTime, .goOn, .threadExit 42]

/-- The slot of thread 1 goes on the free list when thread 2 goes on. -/
theorem joinsReapDead_of_exitAndJoin :
    ∃ k k', Reachable tenSlots JoinSafe k ∧
      exec tenSlots .goOn k = .ok k' ∧ (k.threads 1).state = .death ∧
      (∀ t ∈ k.freeList, FreeSlot k t) ∧ JoinsReapDead k k' := by
  obtain ⟨k, hk, hen, hd, hok, hsafe⟩ := exists_reachable_of_replay tenSlots
    JoinSafe (fun k => Enabled tenSlots .goOn k ∧
      (k.threads 1).state = .death ∧ (exec tenSlots .goOn k).isOk = true ∧
      JoinSafe k .goOn) exitAndJoin (by decide +kernel)
  obtain ⟨hfree, hstep⟩ := joinsReapDead_of_reachable hk
  rcases hstep .goOn hen hsafe with ⟨k', hx, hreaps⟩ | ⟨thid, hx⟩
  · exact ⟨k, k', hk, hx, hd, hfree, hreaps⟩
  · rw [hx] at hok
    cases hok

/-- Thread 1 joins thread 2 with timeout 0: the slot of thread 2, which is
    about to run, goes on the free list. -/
theorem running_thread_is_freed :
    ¬ ∀ k, Reachable tenSlots AnyCall k → ∀ t ∈ k.freeList, FreeSlot k t := by
  intro hall
  obtain ⟨k, hk, hmem, hready⟩ := exists_reachable_of_replay tenSlots AnyCall
    (fun k => 2 ∈ k.freeList ∧ (k.threads 2).state = .ready ∧
      k.lifetime 2 ≠ 0)
    [.threadCreate 5, .goOn, .goOn, .goOn, .threadResume 1 true,
      .threadCreate 5, .goOn, .goOn, .goOn, .threadResume 2 true,
      .threadBecomeIdle, .goOn, .goOn, .threadJoin 2 true 0]
    (by decide +kernel)
  rcases (hall k hk 2 hmem).dead with hd | hl
  · cases hready.1.symm.trans hd
  · exact hready.2 hl

end ChinixJoining

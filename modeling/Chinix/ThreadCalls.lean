import Chinix.Simulation

/-! # The thread API as sequences of moves

    Exit, joining, detaching, resuming and creation, with what the caller has
    to see to.  Where a condition names a scope, the call does without it in
    the other scopes. -/

namespace ChinixThreadCalls

open ChinixTimerQueue ChinixPlatformTimer ChinixKernel ChinixRunQueue
open ChinixWaitQueue ChinixThread ChinixMachine Outcome ChinixQueueInvariant
open ChinixQueueRuns ChinixLifecycle ChinixMoves ChinixLifeInvariant
open ChinixSimulation

variable {s : Scope} {k k' : Kernel} {t : Tid} {cfg : Config}

/-! ## Entering and leaving calls -/

/-- Entering a call that goes on with interrupts enabled. -/
theorem enter_move (hfr : k.frames k.current = []) {f : Frame}
    (hf : f.interruptible = true) (hheld : heldSlot f = none)
    (hj : s.joinless → joinFree f = true) :
    Move s k (k.pushFrame k.current f) := by
  have hplain := plain_of_interruptible hf
  refine .setFrames _ (by rw [hfr]; rfl) ?_ ?_ ?_ ?_ ?_ ?_
  · rw [hfr]
    exact .plain hplain
  · rw [hfr]
    exact hplain.1
  · rw [hfr]
    simp [holding, hheld]
  · intro r hr
    rw [hfr] at hr
    rw [← List.mem_singleton.mp hr] at hf
    cases hf
  · intro hs f' hf'
    rw [hfr] at hf'
    rw [List.mem_singleton.mp hf']
    exact hj hs
  · intro t ht
    rw [hfr] at ht
    rw [← List.mem_singleton.mp ht] at hheld
    cases hheld

/-- Leaving a call that is no blocking call. -/
theorem leave_move (h : LifeInv s k) {f : Frame} {rest : List Frame}
    (hfr : k.frames k.current = f :: rest)
    (hb : blockedIn (f :: rest) = none) (hheld : heldSlot f = none) :
    Move s k (k.popFrame k.current) := by
  have hok : FramesOk (f :: rest) := hfr ▸ (h.ok k.current).stack
  have htail : (k.frames k.current).tail = rest := by rw [hfr]; rfl
  have hmem : ∀ g, g ∈ rest → g ∈ k.frames k.current := by
    intro g hg
    rw [hfr]
    exact List.mem_cons_of_mem f hg
  refine .setFrames _ (by rw [hfr]; exact hb) ?_ ?_ ?_ ?_ ?_ ?_
  · rw [htail]
    exact (hok.tail hb).1
  · rw [htail]
    exact (hok.tail hb).2
  · rw [hfr]
    simp [holding, hheld]
  · intro r hr
    rw [htail] at hr
    exact (h.ok k.current).exit r (hmem _ hr)
  · intro hj g hg
    rw [htail] at hg
    exact h.joinless hj k.current g (hmem g hg)
  · intro t ht
    exact List.mem_of_mem_tail ht

/-- The slots may change, but for the state of the current thread. -/
theorem resting_setThread (h : Resting k) {f : Thread → Thread}
    (hf : (f (k.threads t)).state = (k.threads t).state) :
    Resting (k.setThread t f) := by
  refine ⟨?_, h.unlinked⟩
  show ((k.setThread t f).threads k.current).state = .running
  by_cases hc : k.current = t
  · rw [← hc] at hf ⊢
    rw [Kernel.setThread_threads, Function.update_self, hf]
    exact h.running
  · rw [Kernel.setThread_threads, Function.update_of_ne hc]
    exact h.running

theorem done_of_move (hm : Move s k k') (hr : Resting k') : Done s k k' :=
  ⟨.single hm, hr⟩

/-! ## Exit -/

/-- The thread that exits gives up the CPU for the last time. -/
theorem exit_done (hq : QueueInv s.total k) (h : LifeInv s k)
    (hfr : k.frames k.current = [])
    (hd : (k.threads k.current).state = .death) :
    Done s k
      (threadResched (k.pushFrame k.current (.afterResched .exit 0))) := by
  refine leave_done hq h ⟨.inl hfr, ?_, ?_⟩ .exit 0 (fun _ => hd)
  · exact fun _ hr => absurd (hd ▸ hr) not_runnable_death
  · exact fun _ hr => by cases hd.symm.trans hr

/-- A detached thread reaps itself. -/
theorem unlinkAndFree_done (hq : QueueInv s.total k) (h : LifeInv s k)
    (hc : k.current ≠ idleThread) (hfr : k.frames k.current = [])
    (hm : k.threadLists.link k.current = some .all)
    (hd : (k.threads k.current).state = .death) (ho : ¬ s.once) :
    Holds (unlinkAndFree k.current (k.lifetime k.current) k)
      (fun k1 => Done s k (threadResched
        (k1.pushFrame k.current (.afterResched .exit 0)))) (Excused s) := by
  have hne : k.threadLists.link k.current ≠ none := by
    rw [hm]
    simp
  have hmove := Move.reclaim (s := s) k.current (k.lifetime k.current) hne hd
    rfl (fun hs => absurd hs ho)
  have hfree := unlinkAndFree_queueInv hq hc (k.lifetime k.current)
  have heq : unlinkAndFree k.current (k.lifetime k.current) k = .ok
      ({ k with
        threadLists := (k.threadLists.delete k.current).addTail .free
          k.current }.emit (.freed k.current (k.lifetime k.current)
            (k.lifetime k.current))) := by
    rw [unlinkAndFree]
    rw [hm]
  have hdone := exit_done (hfree.of_ok heq).1 (lifeInv_move h hmove) hfr hd
  rw [heq]
  exact ⟨(Relation.ReflTransGen.single hmove).trans hdone.moves, hdone.rest⟩

theorem threadExit_done (h : Good s k) (hc : k.current ≠ idleThread)
    (hfr : k.frames k.current = []) (retcode : Int) (hcode : s.code noErr) :
    Holds (threadExit retcode k) (Done s k) (Excused s) := by
  have hmove : Move s k (died retcode k) := .die retcode h.rest hc hfr
  have hlife := lifeInv_move h.life hmove
  have hq : QueueInv s.total (died retcode k) :=
    (h.queue.setThread _ rfl rfl rfl).emit (by simp)
  have hdeath := state_died retcode k
  rw [threadExit_eq]
  refine Holds.bind (Q := fun k1 => Done s (died retcode k) (threadResched
    (k1.pushFrame k.current (.afterResched .exit 0)))) ?_ ?_
  · split_ifs with hdet
    · refine unlinkAndFree_done hq hlife hc hfr ?_ hdeath ?_
      · exact h.life.current_listed h.rest
      · intro ho
        have hno := hlife.undetached ho k.current hc
        rw [hdet] at hno
        exact Bool.noConfusion hno
    · refine Holds.bind
        (waitQueueWakeAll_woke hq hlife (.exitOf k.current) noErr ?_) ?_
      · refine fun _ => ⟨hcode, ?_⟩
        intro u hu
        cases hu
        exact ⟨hdeath, Int.le_refl 0⟩
      · rintro ⟨ret, k2⟩ hw
        have hcur : k2.current = k.current := hw.undisturbed.2.1
        have hfr2 : k2.frames = k.frames := hw.undisturbed.2.2.2
        have hdone := exit_done hw.queue (lifeInv_moves hlife hw.moves)
          (by rw [hcur, hfr2]; exact hfr)
          (by rw [hcur]; exact hw.death hlife hdeath)
        rw [hcur] at hdone
        exact ⟨hw.moves.trans hdone.moves, hdone.rest⟩
  · intro k1 hk1
    exact ⟨(Relation.ReflTransGen.single hmove).trans hk1.moves, hk1.rest⟩

/-! ## Joining and detaching -/

/-- When `thread_join` may be called: a thread that lives is waited for, the
    slot of a dead one is on a list, and under the scope `once` nobody else
    joins it. -/
structure MayJoin (s : Scope) (k : Kernel) (t : Tid) (timeout : Time) :
    Prop where
  allowed : ¬ s.joinless
  reports : (k.threads t).flags.detached = true ∨
    (k.threads t).state = .death → s.joins
  waits : (k.threads t).flags.detached = false →
    (k.threads t).state ≠ .death →
    timeout ≠ 0 ∧ k.threadLists.link t = some .all
  listed : s.total → (k.threads t).flags.detached = false →
    k.threadLists.link t ≠ none
  once : s.once → k.threadLists.link t = some .all ∧
    timeout = infinitTime ∧ ∀ u, joining (k.frames u) ≠ some t

theorem threadJoin_done (h : Good s k) (hc : k.current ≠ idleThread)
    (hfr : k.frames k.current = []) (hid : Issued cfg k t)
    (wantRetcode : Bool) {timeout : Time} (hm : MayJoin s k t timeout) :
    Holds (threadJoin cfg t wantRetcode timeout k) (Done s k) (Excused s) := by
  rw [threadJoin]
  rw [threadIdToPtr_eq hid.1, ok_bind]
  by_cases hdet : (k.threads t).flags.detached = true
  · rw [if_pos hdet]
    exact done_of_move (.joined t _ _ wantRetcode none
      (hm.reports (.inl hdet)) (.inr ⟨by decide, rfl⟩))
      ⟨h.rest.running, h.rest.unlinked⟩
  · rw [if_neg hdet]
    have hdet' : (k.threads t).flags.detached = false := by simpa using hdet
    by_cases hd : (k.threads t).state = .death
    · rw [if_neg (not_not.mpr hd)]
      cases hl : k.threadLists.link t with
      | none =>
          rw [threadJoinReap, unlinkAndFree]
          rw [hl]
          exact fun htotal => absurd hl (hm.listed htotal hdet')
      | some ref =>
          refine threadJoinReap_done h.rest (hm.reports (.inr hd))
            (by rw [hl]; simp) hd ?_ wantRetcode
          exact fun ho => ⟨(hm.once ho).1, (hm.once ho).2.2⟩
    · rw [if_pos hd]
      obtain ⟨h0, hall⟩ := hm.waits hdet' hd
      have hbelow : Below s k (.exitOf t) timeout
          [.threadJoin t wantRetcode (k.lifetime t)] :=
        .inr ⟨t, wantRetcode, rfl, rfl, hm.allowed, hall, hid.2, hd,
          fun ho => (hm.once ho).2⟩
      have hdone := waitQueueBlock_done h hc hfr hbelow h0
      have hpush : k.pushFrame k.current
          (.threadJoin t wantRetcode (k.lifetime t)) =
          { k with
            frames := Function.update k.frames k.current
              [.threadJoin t wantRetcode (k.lifetime t)] } := by
        rw [Kernel.pushFrame, hfr]
      rw [hpush]
      exact hdone

/-- When `thread_detach` may be called: nobody waits for the exit. -/
structure MayDetach (s : Scope) (k : Kernel) (t : Tid) : Prop where
  allowed : ¬ s.joinless
  often : ¬ s.once
  alone : (k.threads t).state = .death ∨ k.waitList (.exitOf t) = []
  code : s.code errThreadDetached

theorem threadDetach_done (h : Good s k) (hfr : k.frames k.current = [])
    (hid : Issued cfg k t) (hm : MayDetach s k t) :
    Holds (threadDetach cfg t k) (Done s k) (Excused s) := by
  rw [threadDetach]
  rw [threadIdToPtr_eq hid.1, ok_bind]
  refine Holds.bind (waitQueueWakeAll_woke h.queue h.life (.exitOf t)
    errThreadDetached ?_) ?_
  · refine fun hne => ⟨hm.code, ?_⟩
    intro u hu
    cases hu
    exact ⟨hm.alone.resolve_right hne, by decide⟩
  · rintro ⟨ret, k1⟩ hw
    dsimp only
    generalize hdead : decide ((k1.threads t).state = .death) = dead
    have hrest := hw.resting h.rest
    have hfr1 : k1.frames k1.current = [] := by
      rw [hw.undisturbed.2.1, hw.undisturbed.2.2.2]
      exact hfr
    have htouch : Move s k1 (k1.setThread t fun th =>
        { th with flags := { th.flags with detached := !dead } }) :=
      .retouch t _ ⟨rfl, rfl, rfl, rfl, fun ho => absurd ho hm.often⟩
    have hrest1 : Resting (k1.setThread t fun th =>
        { th with flags := { th.flags with detached := !dead } }) :=
      resting_setThread hrest rfl
    have hmoves := hw.moves.tail htouch
    cases dead with
    | false => exact ⟨hmoves, hrest1⟩
    | true =>
        have henter := enter_move (s := s) (f := .detachJoin t)
          (k := k1.setThread t fun th =>
            { th with flags := { th.flags with detached := !true } })
          hfr1 rfl rfl (fun hj => absurd hj hm.allowed)
        exact ⟨hmoves.tail henter, ⟨hrest1.running, hrest1.unlinked⟩⟩

/-! ## Resuming and unblocking -/

/-- Another thread goes on its run queue. -/
theorem resting_enqueue (h : Resting k) (hne : t ≠ k.current)
    (hl : k.queues.link t = none) (f : Thread → Thread) :
    Resting (enqueue (k.setThread t f) t) := by
  have hl' : (k.setThread t f).queues.link t = none := hl
  constructor
  · show ((k.setThread t f).threads k.current).state = .running
    rw [Kernel.setThread_threads, Function.update_of_ne (Ne.symm hne)]
    exact h.running
  · show (enqueue (k.setThread t f) t).queues.link k.current = none
    rw [enqueue_queues, NodeLists.link_addTail _ _ _ hl',
      Function.update_of_ne (Ne.symm hne)]
    exact h.unlinked

theorem threadResume_done (h : Good s k) (hfr : k.frames k.current = [])
    (hid : Issued cfg k t) (intsDisabled : Bool)
    (hm : (k.threads t).state = .suspended →
      k.threadLists.link t = some .all) :
    Holds (threadResume cfg t intsDisabled k) (Done s k) (Excused s) := by
  rw [threadResume]
  rw [threadIdToPtr_eq hid.1, ok_bind]
  by_cases hs : (k.threads t).state = .suspended
  · rw [if_pos hs]
    have ht := Issued.ne_idle hid
    have hne : t ≠ k.current := by
      rintro rfl
      cases hs.symm.trans h.rest.running
    have hl : k.queues.link t = none := by
      refine (h.life.ok t).unlinked ?_ ?_
      · show ¬ Runnable (k.threads t).state
        rw [hs]
        exact not_runnable_suspended
      · show (k.threads t).state ≠ .blocked
        rw [hs]
        simp
    have hsleep : TimerRef.sleep t ∉ k.timerQueue.queue := by
      refine h.life.not_sleeping ?_
      rw [hs]
      simp
    rw [insertInRunQueueHead_eq_tail]
    refine Holds.bind (insert_holds (h.queue.setState .ready) ht hl) ?_
    rintro k1 ⟨-, -, rfl⟩
    have hmove : Move s k (enqueue (k.setState t .ready) t) :=
      .enlist t _ .ready (sameLife_state _ .ready) ht hl (.inl rfl)
        (by rw [hs]; simp) hsleep (hm hs)
    have hrest := resting_enqueue h.rest hne hl
      (fun th => { th with state := .ready })
    cases intsDisabled with
    | true => exact done_of_move hmove hrest
    | false =>
        have henter := enter_move (s := s) (f := .threadYield)
          (k := enqueue (k.setState t .ready) t) hfr rfl rfl (fun _ => rfl)
        exact ⟨(Relation.ReflTransGen.single hmove).tail henter,
          ⟨hrest.running, hrest.unlinked⟩⟩
  · rw [if_neg hs]
    exact ⟨.refl, h.rest⟩

/-- When `thread_unblock` may be called. -/
structure MayUnblock (s : Scope) (k : Kernel) (t : Tid) (resched : Bool) :
    Prop where
  free : s.total → (k.threads t).blockingWaitQueue = none
  stays : s.listed ∨ s.single → resched = false

theorem threadUnblock_done (h : Good s k) (hfr : k.frames k.current = [])
    (hid : Issued cfg k t) (hb : (k.threads t).state = .blocked)
    {resched : Bool} (hm : MayUnblock s k t resched) :
    Holds (threadUnblock cfg t resched k) (Done s k) (Excused s) := by
  have ht := Issued.ne_idle hid
  have hne : t ≠ k.current := by
    rintro rfl
    cases hb.symm.trans h.rest.running
  rw [threadUnblock]
  rw [threadIdToPtr_eq hid.1, ok_bind, insertInRunQueueHead_eq_tail]
  cases hl : k.queues.link t with
  | some ref =>
      have hspec := insertInRunQueueTail_spec t (k.setState t .ready)
      cases hr : insertInRunQueueTail t (k.setState t .ready) with
      | ok k1 => cases hl.symm.trans (hspec.of_ok hr).1
      | error e =>
          intro htotal
          have hfree := hm.free htotal
          cases ref with
          | run p =>
              rcases (h.life.ok t).run p hl with hrun | hrun
              · cases hb.symm.trans hrun
              · cases hb.symm.trans hrun
          | wait q => cases hfree.symm.trans ((h.queue.wait t q).mp hl)
  | none =>
      refine Holds.bind (insert_holds (h.queue.setState .ready) ht hl) ?_
      rintro k1 ⟨-, hq1, rfl⟩
      have hall : k.threadLists.link t = some .all := by
        refine (h.life.ok t).listed ?_ ?_
        · show (k.threads t).state ≠ .suspended
          rw [hb]
          simp
        · show (k.threads t).state ≠ .death
          rw [hb]
          simp
      have hmove : Move s k (enqueue (k.setState t .ready) t) :=
        .enlist t _ .ready (sameLife_state _ .ready) ht hl (.inl rfl)
          (by rw [hb]; simp)
          (h.life.not_sleeping (by rw [hb]; simp)) hall
      have hrest := resting_enqueue h.rest hne hl
        (fun th => { th with state := .ready })
      cases resched with
      | false => exact done_of_move hmove hrest
      | true =>
          have hleave : Leaving s (enqueue (k.setState t .ready) t) :=
            ⟨.inl hfr, fun hs => (by cases hm.stays (.inl hs)),
              fun hs => (by cases hm.stays (.inr hs))⟩
          have hdone := leave_done hq1 (lifeInv_move h.life hmove) hleave
            .unblock 0 (by simp)
          exact ⟨(Relation.ReflTransGen.single hmove).trans hdone.moves,
            hdone.rest⟩

/-! ## Creation -/

theorem threadCreate_done (h : Good s k) (hfr : k.frames k.current = [])
    (p : Int) : Done s k (threadCreate p k) := by
  rw [threadCreate]
  by_cases hfree : k.freeList = []
  · rw [if_pos hfree]
    exact ⟨.refl, h.rest⟩
  · rw [if_neg hfree]
    exact done_of_move (enter_move hfr rfl rfl (fun _ => rfl))
      ⟨h.rest.running, h.rest.unlinked⟩

/-- A frame of `thread_create` is alone on the stack. -/
theorem frames_eq_singleton (h : LifeInv s k) {f : Frame} {rest : List Frame}
    (hfr : k.frames k.current = f :: rest) (hf : f.interruptible = true) :
    k.frames k.current = [f] := by
  have hok : FramesOk (f :: rest) := hfr ▸ (h.ok k.current).stack
  rcases leaves_of_interruptible hok hf with hnil | ⟨g, hg, -⟩
  · cases hnil
  · rw [hfr, hg, (List.cons.inj hg).1]

/-- The slot at the head of the free list is not being joined. -/
def HeadUnjoined (k : Kernel) : Prop :=
  ∀ t ts, k.freeList = t :: ts → ∀ u, joining (k.frames u) ≠ some t

theorem getFreeThreadNode_done (h : Good s k) {p : Int}
    (hfr : k.frames k.current = [.getFreeThreadNode p])
    (hj : HeadUnjoined k) : Done s k (getFreeThreadNode p k) := by
  rw [getFreeThreadNode]
  cases hfree : k.freeList with
  | nil =>
      have hfree' : (k.popFrame k.current).freeList = [] := hfree
      dsimp only
      rw [hfree']
      exact done_of_move (leave_move h.life hfr rfl rfl)
        ⟨h.rest.running, h.rest.unlinked⟩
  | cons t ts =>
      have hfree' : (k.popFrame k.current).freeList = t :: ts := hfree
      have hl : k.threadLists.link t = some .free :=
        k.threadLists.link_of_items_cons hfree
      have hmove := Move.take (s := s) t p h.rest hl hfr (hj t ts hfree)
      dsimp only
      rw [hfree']
      refine done_of_move ?_ ⟨h.rest.running, h.rest.unlinked⟩
      simpa [Kernel.pushFrame, Kernel.popFrame, hfr] using hmove

theorem initThread_done (h : Good s k) {p : Int}
    (hfr : k.frames k.current = [.initThread t p]) :
    Holds (initThread t p k) (Done s k) (Excused s) := by
  have hhold : holding (k.frames k.current) = some t := by rw [hfr]; rfl
  have hm := (h.life.held k.current t hhold).1
  have hcur : t ≠ k.current := by
    rintro rfl
    cases hm.symm.trans (h.life.current_listed h.rest)
  have hidle : t ≠ idleThread := by
    rintro rfl
    cases hm.symm.trans h.queue.idle_listed
  have hl : k.queues.link t = none := by
    obtain ⟨hrun, hblocked⟩ := (h.life.ok t).not_live (by
      intro hall
      cases hm.symm.trans hall)
    exact (h.life.ok t).unlinked hrun hblocked
  have hwaits : k.waitList (.exitOf t) = [] := by
    rw [Kernel.waitList, NodeLists.items_eq_nil_iff]
    intro u hu
    obtain ⟨w, l, hmem⟩ :=
      (h.life.ok u).stack.mem_of_exitOf ((h.life.ok u).wait _ hu).2
    exact (h.life.joins u t w l hmem).1 hm
  have hmove := Move.wipe (s := s) t p hfr hm hl hcur hidle
  rw [initThread]
  dsimp only
  rw [if_pos ⟨hm, hl, hwaits, hcur⟩]
  refine done_of_move ?_ ⟨?_, ?_⟩
  · simpa [Kernel.pushFrame, Kernel.popFrame, Kernel.setThread, hfr,
      Ne.symm hcur, Function.update_comm (Ne.symm hcur)] using hmove
  · show (Function.update k.threads t _ k.current).state = .running
    rw [Function.update_of_ne (Ne.symm hcur)]
    exact h.rest.running
  · exact h.rest.unlinked

theorem linkThread_done (h : Good s k)
    (hfr : k.frames k.current = [.linkThread t]) :
    Holds (linkThread t k) (Done s k) (Excused s) := by
  have hhold : holding (k.frames k.current) = some t := by rw [hfr]; rfl
  have hm := (h.life.held k.current t hhold).1
  have hm' : (k.popFrame k.current).threadLists.link t = none := hm
  have hmove := Move.publish (s := s) t h.rest hfr hm
  unfold linkThread
  dsimp only
  rw [hm']
  refine done_of_move ?_ ⟨h.rest.running, h.rest.unlinked⟩
  simpa [Kernel.popFrame, Kernel.emit, hfr] using hmove

theorem threadBecomeIdle_done (h : Good s k) (hfr : k.frames k.current = []) :
    Done s k (threadBecomeIdle k) := by
  rw [threadBecomeIdle]
  have htouch : Move s k (k.setThread k.current fun th =>
      { th with
        priority := idlePriority
        flags := { th.flags with idle := true } }) :=
    .retouch k.current _ ⟨rfl, rfl, rfl, rfl, fun _ => rfl⟩
  have henter := enter_move (s := s) (f := .threadYield)
    (k := k.setThread k.current fun th =>
      { th with
        priority := idlePriority
        flags := { th.flags with idle := true } })
    hfr rfl rfl (fun _ => rfl)
  have hrest : Resting (k.setThread k.current fun th =>
      { th with
        priority := idlePriority
        flags := { th.flags with idle := true } }) :=
    resting_setThread h.rest rfl
  exact ⟨(Relation.ReflTransGen.single htouch).tail henter,
    ⟨hrest.running, hrest.unlinked⟩⟩

end ChinixThreadCalls

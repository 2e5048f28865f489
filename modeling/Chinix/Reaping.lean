import Chinix.Joining

/-! # Reaping once

    The log names the lives of a slot: a life ends with one `thread_exit`,
    and its slot goes on the free list by a call that was made for that life.
    `LivesLogged` ties the log to the slots in every run.  If each thread is
    joined by one call, the slot is freed once for each life. -/

namespace ChinixReaping

open ChinixTimerQueue ChinixPlatformTimer ChinixKernel ChinixRunQueue
open ChinixWaitQueue ChinixThread ChinixMachine Outcome ChinixQueueInvariant
open ChinixQueueRuns ChinixLifecycle ChinixMoves ChinixLifeInvariant
open ChinixSimulation ChinixThreadCalls ChinixSteps ChinixJoining

variable {s : Scope} {k k' : Kernel} {t : Tid} {cfg : Config}

/-! ## The log and the slots -/

/-- What the log says of the lives. -/
structure LivesLogged (k : Kernel) : Prop where
  exited : ∀ t l rc, Event.exited t l rc ∈ k.log → l ≤ k.lifetime t ∧
    (l = k.lifetime t → k.threadLists.link t ≠ none ∧
      (k.threads t).state = .death ∧ (k.threads t).retcode = rc)
  unique : ∀ t l rc rc', Event.exited t l rc ∈ k.log →
    Event.exited t l rc' ∈ k.log → rc = rc'
  died : ∀ t, (k.threads t).state = .death → k.threadLists.link t ≠ none →
    Event.exited t (k.lifetime t) (k.threads t).retcode ∈ k.log
  linking : ∀ u t, Frame.linkThread t ∈ k.frames u →
    (k.threads t).state = .suspended
  freed : ∀ t l e, Event.freed t l e ∈ k.log → e = l ∧ l ≤ k.lifetime t ∧
    (l = k.lifetime t → k.threadLists.link t = some .free)
  joined : ∀ caller t l w stored,
    Event.joined caller t l noErr w stored ∈ k.log →
    Event.freed t l l ∈ k.log ∧ ∃ rc, Event.exited t l rc ∈ k.log ∧
      (w = true → stored = some rc)

/-- The log tells of an exit, a reaping or the end of a join. -/
def endsLife : Event → Bool
  | .exited _ _ _ => true
  | .freed _ _ _ => true
  | .joined _ _ _ _ _ _ => true
  | _ => false

/-- A slot that is about to go on `thread_list` is held. -/
theorem holding_of_linkThread {fs : List Frame} (h : FramesOk fs)
    (hmem : Frame.linkThread t ∈ fs) : holding fs = some t := by
  cases h with
  | nil => cases hmem
  | plain hf =>
      rw [← List.mem_singleton.mp hmem]
      rfl
  | preempted op ret hf =>
      rcases List.mem_cons.mp hmem with heq | hmem
      · cases heq
      · rw [← List.mem_singleton.mp hmem]
        rfl
  | blocked q timeout call => simp at hmem
  | inJoin t' timeout call w l => simp at hmem

/-- A thread that is dead stays so, one that is not does not die, and a slot
    that is being made into a thread is left alone. -/
def SameFate (k k' : Kernel) (t : Tid) : Prop :=
  (k'.threads t).retcode = (k.threads t).retcode ∧
    ((k'.threads t).state = (k.threads t).state ∨
      (k.threads t).state ≠ .death ∧ (k'.threads t).state ≠ .death ∧
        ((k.threads t).state ≠ .suspended ∨ k.threadLists.link t ≠ none))

/-- A move that ends no life and takes no slot. -/
theorem LivesLogged.quiet (hlife : LifeInv s k) (h : LivesLogged k)
    {new : List Event} (hlog : k'.log = k.log ++ new)
    (hnew : ∀ e ∈ new, endsLife e = false)
    (hlt : k'.lifetime = k.lifetime) (hm : k'.threadLists = k.threadLists)
    (hlink : ∀ u t, Frame.linkThread t ∈ k'.frames u →
      Frame.linkThread t ∈ k.frames u)
    (hfate : ∀ t, SameFate k k' t) : LivesLogged k' := by
  have hmem : ∀ e, endsLife e = true → (e ∈ k'.log ↔ e ∈ k.log) := by
    intro e he
    rw [hlog, List.mem_append]
    refine ⟨fun hor => hor.resolve_right ?_, .inl⟩
    intro hin
    cases he.symm.trans (hnew e hin)
  have hdeath : ∀ t, (k'.threads t).state = .death ↔
      (k.threads t).state = .death := by
    intro t
    rcases (hfate t).2 with heq | ⟨h1, h2, -⟩
    · rw [heq]
    · exact ⟨fun hd => absurd hd h2, fun hd => absurd hd h1⟩
  constructor
  · intro t l rc he
    obtain ⟨hle, heq⟩ := h.exited t l rc ((hmem _ rfl).mp he)
    rw [hlt, hm, hdeath, (hfate t).1]
    exact ⟨hle, heq⟩
  · intro t l rc rc' he he'
    exact h.unique t l rc rc' ((hmem _ rfl).mp he) ((hmem _ rfl).mp he')
  · intro t hd hl
    rw [hm] at hl
    rw [hlt, (hfate t).1]
    exact (hmem _ rfl).mpr (h.died t ((hdeath t).mp hd) hl)
  · intro u t hf
    have hold := hlink u t hf
    have hs := h.linking u t hold
    rcases (hfate t).2 with heq | ⟨-, -, hor⟩
    · exact heq.trans hs
    · have hheld := holding_of_linkThread (hlife.ok u).stack hold
      have hnone := (hlife.held u t hheld).1
      rcases hor with hns | hnl
      · exact absurd hs hns
      · exact absurd hnone hnl
  · intro t l e he
    rw [hlt, hm]
    exact h.freed t l e ((hmem _ rfl).mp he)
  · intro caller t l w stored hj
    obtain ⟨hf, rc, he, hst⟩ :=
      h.joined caller t l w stored ((hmem _ rfl).mp hj)
    exact ⟨(hmem _ rfl).mpr hf, rc, (hmem _ rfl).mpr he, hst⟩

/-- An event that is not the new one is an old one. -/
theorem old_of_ne {log : List Event} {e new : Event}
    (h : e ∈ log ++ [new]) (hne : e ≠ new) : e ∈ log := by
  refine (List.mem_append.mp h).resolve_right ?_
  intro hnew
  exact hne (List.mem_singleton.mp hnew)

theorem sameFate_refl (k : Kernel) (t : Tid) : SameFate k k t :=
  ⟨rfl, .inl rfl⟩

/-- Only one slot changes. -/
theorem sameFate_setThread {f : Thread → Thread}
    (hret : (f (k.threads t)).retcode = (k.threads t).retcode)
    (hst : (f (k.threads t)).state = (k.threads t).state ∨
      (k.threads t).state ≠ .death ∧ (f (k.threads t)).state ≠ .death ∧
        ((k.threads t).state ≠ .suspended ∨ k.threadLists.link t ≠ none))
    (u : Tid) : SameFate k (k.setThread t f) u := by
  by_cases hu : u = t
  · subst hu
    simpa [SameFate] using And.intro hret hst
  · simp [SameFate, hu]

/-- The current thread is neither dead nor SUSPENDED. -/
theorem sameFate_current {f : Thread → Thread} (hr : Resting k)
    (hret : (f (k.threads k.current)).retcode
      = (k.threads k.current).retcode)
    (hst : (f (k.threads k.current)).state ≠ .death) (u : Tid) :
    SameFate k (k.setThread k.current f) u := by
  refine sameFate_setThread hret (.inr ⟨?_, hst, .inl ?_⟩) u
  · rw [hr.running]
    simp
  · rw [hr.running]
    simp

theorem livesLogged_die (hlife : LifeInv s k) (h : LivesLogged k)
    (retcode : Int) (hr : Resting k) : LivesLogged (died retcode k) := by
  have hlog : (died retcode k).log = k.log
      ++ [.exited k.current (k.lifetime k.current) retcode] := rfl
  have hself : ∀ t, t = k.current →
      ((died retcode k).threads t).state = .death ∧
        ((died retcode k).threads t).retcode = retcode := by
    rintro t rfl
    simp [died]
  have hother : ∀ t, t ≠ k.current →
      (died retcode k).threads t = k.threads t := by
    intro t ht
    simp [died, ht]
  have hlisted : k.threadLists.link k.current ≠ none := by
    rw [hlife.current_listed hr]
    simp
  -- the current thread has not died in this life
  have hfresh : ∀ rc,
      Event.exited k.current (k.lifetime k.current) rc ∉ k.log := by
    intro rc he
    cases hr.running.symm.trans
      ((h.exited _ _ _ he).2 rfl).2.1
  constructor
  · intro t l rc he
    rw [hlog] at he
    rcases List.mem_append.mp he with hold | hnew
    · obtain ⟨hle, heq⟩ := h.exited t l rc hold
      refine ⟨hle, fun hl => ?_⟩
      have hne : t ≠ k.current := by
        rintro rfl
        rw [hl] at hold
        exact hfresh rc hold
      rw [hother t hne]
      exact heq hl
    · cases List.mem_singleton.mp hnew
      exact ⟨Nat.le_refl _, fun _ => ⟨hlisted, hself _ rfl⟩⟩
  · intro t l rc rc' he he'
    rw [hlog] at he he'
    rcases List.mem_append.mp he with hold | hnew
    · rcases List.mem_append.mp he' with hold' | hnew'
      · exact h.unique t l rc rc' hold hold'
      · cases List.mem_singleton.mp hnew'
        exact absurd hold (hfresh rc)
    · cases List.mem_singleton.mp hnew
      rcases List.mem_append.mp he' with hold' | hnew'
      · exact absurd hold' (hfresh rc')
      · cases List.mem_singleton.mp hnew'
        rfl
  · intro t hd hl
    rw [hlog]
    by_cases ht : t = k.current
    · subst ht
      rw [(hself _ rfl).2]
      exact List.mem_append_right _ (List.mem_singleton_self _)
    · rw [hother t ht] at hd ⊢
      exact List.mem_append_left _ (h.died t hd hl)
  · intro u t hf
    have hs := h.linking u t hf
    rw [hother t ?_]
    · exact hs
    · rintro rfl
      cases hr.running.symm.trans hs
  · intro t l e he
    rw [hlog] at he
    exact h.freed t l e (by simpa using he)
  · intro caller t l w stored hj
    rw [hlog] at hj ⊢
    obtain ⟨hf, rc, he, hst⟩ :=
      h.joined caller t l w stored (by simpa using hj)
    exact ⟨List.mem_append_left _ hf, rc, List.mem_append_left _ he, hst⟩

/-- The slot that leaves the free list begins a life that is not logged. -/
theorem livesLogged_take (h : LivesLogged k) (p : Int)
    (hf : k.threadLists.link t = some .free) :
    LivesLogged { k with
      threadLists := k.threadLists.delete t
      lifetime := Function.update k.lifetime t (k.lifetime t + 1)
      frames := Function.update k.frames k.current [.initThread t p] } := by
  have hlt : ∀ u, u ≠ t →
      Function.update k.lifetime t (k.lifetime t + 1) u = k.lifetime u ∧
        (k.threadLists.delete t).link u = k.threadLists.link u := by
    intro u hu
    simp [hu]
  constructor
  · intro u l rc he
    obtain ⟨hle, heq⟩ := h.exited u l rc he
    by_cases hu : u = t
    · subst hu
      dsimp only
      rw [Function.update_self]
      exact ⟨Nat.le_succ_of_le hle,
        fun hl => absurd (hl ▸ hle) (Nat.not_succ_le_self _)⟩
    · dsimp only
      rw [(hlt u hu).1, (hlt u hu).2]
      exact ⟨hle, heq⟩
  · exact h.unique
  · intro u hd hl
    have hu : u ≠ t := by
      rintro rfl
      simp at hl
    dsimp only at hl ⊢
    rw [(hlt u hu).2] at hl
    rw [(hlt u hu).1]
    exact h.died u hd hl
  · intro u t' hmem
    exact h.linking u t' (mem_of_update (by simp) hmem)
  · intro u l e he
    obtain ⟨heq, hle, hfree⟩ := h.freed u l e he
    by_cases hu : u = t
    · subst hu
      dsimp only
      rw [Function.update_self]
      exact ⟨heq, Nat.le_succ_of_le hle,
        fun hl => absurd (hl ▸ hle) (Nat.not_succ_le_self _)⟩
    · dsimp only
      rw [(hlt u hu).1, (hlt u hu).2]
      exact ⟨heq, hle, hfree⟩
  · exact h.joined

/-- A slot that is on no list is wiped. -/
theorem livesLogged_wipe (h : LivesLogged k) (p : Int)
    (hm : k.threadLists.link t = none) :
    LivesLogged { k with
      threads := Function.update k.threads t
        { Thread.zero with priority := p }
      waitCount := Function.update k.waitCount (.exitOf t) 0
      frames := Function.update (Function.update k.frames t
        [.initialThreadFunc]) k.current [.linkThread t] } := by
  have hsusp : (Function.update k.threads t
      { Thread.zero with priority := p } t).state = .suspended := by
    rw [Function.update_self]
    rfl
  constructor
  · intro u l rc he
    obtain ⟨hle, heq⟩ := h.exited u l rc he
    refine ⟨hle, fun hl => ?_⟩
    have hu : u ≠ t := by
      rintro rfl
      exact (heq hl).1 hm
    dsimp only
    rw [Function.update_of_ne hu]
    exact heq hl
  · exact h.unique
  · intro u hd hl
    have hu : u ≠ t := by
      rintro rfl
      exact hl hm
    dsimp only at hd ⊢
    rw [Function.update_of_ne hu] at hd ⊢
    exact h.died u hd hl
  · intro u t' hmem
    dsimp only at hmem ⊢
    by_cases ht' : t' = t
    · rw [ht']
      exact hsusp
    · have hold : Frame.linkThread t' ∈ k.frames u :=
        mem_of_update (by simp) (mem_of_update (by simp [ht']) hmem)
      rw [Function.update_of_ne ht']
      exact h.linking u t' hold
  · exact h.freed
  · exact h.joined

/-- The life that is published has no exit yet. -/
theorem livesLogged_publish (h : LivesLogged k)
    (hfr : k.frames k.current = [.linkThread t])
    (hm : k.threadLists.link t = none) :
    LivesLogged ({ k with
      threadLists := k.threadLists.addTail .all t
      frames := Function.update k.frames k.current [] }.emit
        (.created t (k.lifetime t))) := by
  have hsusp := h.linking k.current t (by rw [hfr]; exact .head _)
  have hlink : ∀ u, u ≠ t →
      (k.threadLists.addTail .all t).link u = k.threadLists.link u := by
    intro u hu
    rw [NodeLists.link_addTail _ _ _ hm, Function.update_of_ne hu]
  constructor
  · intro u l rc he
    obtain ⟨hle, heq⟩ := h.exited u l rc (old_of_ne he (by simp))
    refine ⟨hle, fun hl => ?_⟩
    have hu : u ≠ t := by
      rintro rfl
      exact (heq hl).1 hm
    show (k.threadLists.addTail .all t).link u ≠ none ∧ _
    rw [hlink u hu]
    exact heq hl
  · intro u l rc rc' he he'
    exact h.unique u l rc rc' (old_of_ne he (by simp)) (old_of_ne he' (by simp))
  · intro u hd hl
    have hu : u ≠ t := by
      rintro rfl
      cases hsusp.symm.trans hd
    refine List.mem_append_left _ (h.died u hd ?_)
    rw [← hlink u hu]
    exact hl
  · intro u t' hmem
    exact h.linking u t' (mem_of_update (by simp) hmem)
  · intro u l e he
    obtain ⟨heq, hle, hfree⟩ := h.freed u l e (old_of_ne he (by simp))
    refine ⟨heq, hle, fun hl => ?_⟩
    have hu : u ≠ t := by
      rintro rfl
      cases hm.symm.trans (hfree hl)
    show (k.threadLists.addTail .all t).link u = _
    rw [hlink u hu]
    exact hfree hl
  · intro caller u l w stored hj
    obtain ⟨hf, rc, he, hst⟩ := h.joined caller u l w stored
      (old_of_ne hj (by simp))
    exact ⟨List.mem_append_left _ hf, rc, List.mem_append_left _ he, hst⟩

/-- A dead thread is reaped by a call that was made for its life. -/
theorem livesLogged_reclaim (h : LivesLogged k)
    (hm : k.threadLists.link t ≠ none) :
    LivesLogged ({ k with
      threadLists := (k.threadLists.delete t).addTail .free t }.emit
        (.freed t (k.lifetime t) (k.lifetime t))) := by
  have hnone : (k.threadLists.delete t).link t = none := by simp
  have hself : ((k.threadLists.delete t).addTail .free t).link t
      = some .free := by
    rw [NodeLists.link_addTail _ _ _ hnone, Function.update_self]
  have hlink : ∀ u, u ≠ t →
      ((k.threadLists.delete t).addTail .free t).link u
        = k.threadLists.link u := by
    intro u hu
    rw [NodeLists.link_addTail _ _ _ hnone, Function.update_of_ne hu]
    simp [hu]
  constructor
  · intro u l rc he
    obtain ⟨hle, heq⟩ := h.exited u l rc (old_of_ne he (by simp))
    refine ⟨hle, fun hl => ⟨?_, (heq hl).2⟩⟩
    show ((k.threadLists.delete t).addTail .free t).link u ≠ none
    by_cases hu : u = t
    · rw [hu, hself]
      simp
    · rw [hlink u hu]
      exact (heq hl).1
  · intro u l rc rc' he he'
    exact h.unique u l rc rc' (old_of_ne he (by simp)) (old_of_ne he' (by simp))
  · intro u hd hl
    refine List.mem_append_left _ (h.died u hd ?_)
    by_cases hu : u = t
    · rw [hu]
      exact hm
    · rw [← hlink u hu]
      exact hl
  · exact h.linking
  · intro u l e he
    show e = l ∧ l ≤ k.lifetime u ∧ (l = k.lifetime u →
      ((k.threadLists.delete t).addTail .free t).link u = some .free)
    by_cases hu : u = t
    · subst hu
      refine ⟨?_, ?_, fun _ => hself⟩
      · rcases List.mem_append.mp he with he | he
        · exact (h.freed u l e he).1
        · cases List.mem_singleton.mp he
          rfl
      · rcases List.mem_append.mp he with he | he
        · exact (h.freed u l e he).2.1
        · cases List.mem_singleton.mp he
          exact Nat.le_refl _
    · rw [hlink u hu]
      refine h.freed u l e (old_of_ne he ?_)
      intro heq
      injection heq with heq
      exact hu heq
  · intro caller u l w stored hj
    obtain ⟨hf, rc, he, hst⟩ := h.joined caller u l w stored
      (old_of_ne hj (by simp))
    exact ⟨List.mem_append_left _ hf, rc, List.mem_append_left _ he, hst⟩

/-- `thread_join` returns. -/
theorem livesLogged_joined (h : LivesLogged k) {caller : Tid} {l : Nat}
    {ret : Int} {w : Bool} {stored : Option Int}
    (hj : ret = noErr ∧ (k.threads t).state = .death ∧
        k.lifetime t = l ∧ Event.freed t l l ∈ k.log ∧
        stored = (if w then some (k.threads t).retcode else none) ∨
      ret < 0 ∧ stored = none) :
    LivesLogged (k.emit (.joined caller t l ret w stored)) := by
  constructor
  · intro u l' rc he
    exact h.exited u l' rc (old_of_ne he (by simp))
  · intro u l' rc rc' he he'
    exact h.unique u l' rc rc' (old_of_ne he (by simp)) (old_of_ne he' (by simp))
  · intro u hd hl
    exact List.mem_append_left _ (h.died u hd hl)
  · exact h.linking
  · intro u l' e he
    exact h.freed u l' e (old_of_ne he (by simp))
  · intro caller' u l' w' stored' hmem
    suffices hin : Event.freed u l' l' ∈ k.log ∧
        ∃ rc, Event.exited u l' rc ∈ k.log ∧
          (w' = true → stored' = some rc) by
      obtain ⟨hf, rc, he, hst⟩ := hin
      exact ⟨List.mem_append_left _ hf, rc, List.mem_append_left _ he, hst⟩
    rcases List.mem_append.mp hmem with hmem | hmem
    · exact h.joined caller' u l' w' stored' hmem
    · cases List.mem_singleton.mp hmem
      rcases hj with ⟨-, hd, hl, hf, hst⟩ | ⟨hneg, -⟩
      · have hfree := (h.freed t l l hf).2.2 hl.symm
        have hex := h.died t hd (by rw [hfree]; simp)
        rw [hl] at hex
        refine ⟨hf, _, hex, fun hw => ?_⟩
        rw [hst, if_pos hw]
      · exact absurd hneg (by decide)

theorem livesLogged_dispatch (hlife : LifeInv s k) (h : LivesLogged k)
    (hb : BitmapOk k) : LivesLogged (threadResched k) := by
  have hrun : Runnable (k.threads (getNewThread k).1).state := by
    rcases getNewThread_cases hb with ⟨-, heq⟩ | ⟨q, t, ts, -, hcons, -, heq⟩
    · rw [heq]
      exact hlife.idle
    · rw [heq]
      exact (hlife.ok t).run q (k.queues.link_of_items_cons hcons)
  refine h.quiet hlife (log_threadResched k) (by simp [endsLife])
    (by rw [threadResched_eq]) (by rw [threadResched_eq]) ?_ ?_
  · intro u t hf
    rw [threadResched_eq] at hf
    exact hf
  · intro t
    rw [threadResched_eq]
    refine sameFate_setThread (t := (getNewThread k).1)
      (f := scheduled (getNewThread k).1 k.current) rfl
      (.inr ⟨hrun.ne not_runnable_death, by rintro ⟨⟩,
        .inl (hrun.ne not_runnable_suspended)⟩) t

/-- **Every move keeps the log true.** -/
theorem livesLogged_move (hlife : LifeInv s k) (h : LivesLogged k)
    (hm : Move s k k') : LivesLogged k' := by
  have hnil : k.log = k.log ++ [] := (List.append_nil _).symm
  have hstack : ∀ fs : List Frame,
      (∀ t, Frame.linkThread t ∈ fs → Frame.linkThread t ∈
        k.frames k.current) →
      ∀ u t, Frame.linkThread t ∈ Function.update k.frames k.current fs u →
        Frame.linkThread t ∈ k.frames u := by
    intro fs hfs u t hmem
    exact mem_of_update (hfs t) hmem
  have hcurrent := @sameFate_current k
  cases hm with
  | clock p n =>
      exact ⟨h.exited, h.unique, h.died, h.linking, h.freed, h.joined⟩
  | expire =>
      exact ⟨h.exited, h.unique, h.died, h.linking, h.freed, h.joined⟩
  | preempted =>
      exact h.quiet hlife rfl (by simp [endsLife]) rfl rfl (fun _ _ => id)
        (sameFate_refl k)
  | retouch t f hf =>
      exact h.quiet hlife hnil (by simp) rfl rfl (fun _ _ => id)
        (sameFate_setThread hf.retcode (.inl hf.state))
  | setFrames fs hfrom hok hto hold hexit hj hlink =>
      exact h.quiet hlife hnil (by simp) rfl rfl (hstack fs hlink)
        (sameFate_refl k)
  | pause f st hf hr hb hst =>
      refine h.quiet hlife hnil (by simp) rfl rfl (fun _ _ => id)
        (hcurrent hr hf.retcode ?_)
      rw [hf.state]
      rcases hst with ⟨rfl, -⟩ | ⟨rfl, -⟩
      · simp
      · simp
  | sleep tq hr hc hb ht =>
      exact h.quiet hlife hnil (by simp) rfl rfl (fun _ _ => id)
        (hcurrent (f := fun th => { th with state := .sleeping }) hr rfl
          (by simp))
  | die retcode hr hc hfr => exact livesLogged_die hlife h retcode hr
  | enlist t f st hf ht hl hst hfrom htm hm =>
      refine h.quiet hlife hnil (by simp) rfl rfl (fun _ _ => id)
        (sameFate_setThread (t := t) (f := f) hf.retcode
          (.inr ⟨hfrom, ?_, .inr ?_⟩))
      · rw [hf.state]
        rcases hst with rfl | ⟨-, rfl⟩
        · simp
        · simp
      · rw [hm]
        simp
  | wake q t error hl hq hx hcode =>
      have hb : (k.threads t).state = .blocked := ((hlife.ok t).wait q hl).1
      refine h.quiet hlife rfl (by simp [endsLife]) rfl rfl (fun _ _ => id)
        (sameFate_setThread (t := t) (f := fun th =>
          { th with
            state := .ready, waitQueueBlockRet := error
            blockingWaitQueue := none }) rfl (.inr ⟨?_, by simp, .inl ?_⟩))
      · rw [hb]
        simp
      · rw [hb]
        simp
  | block q timeout below tq hr hc hfr hb ht =>
      refine h.quiet hlife rfl (by simp [endsLife]) rfl rfl (hstack _ ?_)
        (hcurrent (f := fun th =>
          { th with
            state := .blocked, blockingWaitQueue := some q
            waitQueueBlockRet := noErr }) hr rfl (by simp))
      intro t hmem
      rcases hb with ⟨n, -, rfl⟩ | ⟨t', w, -, rfl, -⟩
      · simp at hmem
      · simp at hmem
  | returns q timeout call below hr hfr =>
      exact h.quiet hlife rfl (by simp [endsLife]) rfl rfl
        (hstack [] (by simp)) (sameFate_refl k)
  | take t p hr hf hfr hj => exact livesLogged_take h p hf
  | wipe t p hfr hm hl hc ht => exact livesLogged_wipe h p hm
  | publish t hr hfr hm => exact livesLogged_publish h hfr hm
  | reclaim t entitled hm hd hl ho =>
      subst hl
      exact livesLogged_reclaim h hm
  | joined t l ret w stored hs hor => exact livesLogged_joined h hor
  | dispatch hb hi hl hs => exact livesLogged_dispatch hlife h hb

/-! ## One call joins a thread -/

/-- The slot was put on the free list in that life. -/
def isFreed (t : Tid) (l : Nat) : Event → Bool
  | .freed t' l' _ => t' = t ∧ l' = l
  | _ => false

/-- How often the slot was put on the free list in a life. -/
def timesFreed (k : Kernel) (t : Tid) (l : Nat) : Nat :=
  k.log.countP (isFreed t l)

/-- That life of the slot is over. -/
def Ended (k : Kernel) (t : Tid) (l : Nat) : Prop :=
  0 < l ∧ (l < k.lifetime t ∨
    l = k.lifetime t ∧ k.threadLists.link t = some .free)

/-- What holds when a thread is joined by one call: a slot is freed once in a
    life, and no join has a timeout. -/
structure FreedOnce (k : Kernel) : Prop where
  once : ∀ t l, timesFreed k t l ≤ 1
  ended : ∀ t l, Ended k t l → Event.freed t l l ∈ k.log
  endless : ∀ u q timeout call, Frame.waitQueueBlock q timeout call ∈
    k.frames u → joining (k.frames u) ≠ none → timeout = infinitTime

/-- No slot is freed, and nobody enters a join. -/
theorem FreedOnce.quiet (h : FreedOnce k) {new : List Event}
    (hlog : k'.log = k.log ++ new)
    (hnew : ∀ e ∈ new, ∀ t l, isFreed t l e = false)
    (hend : ∀ t l, Ended k' t l → Ended k t l)
    (hfr : ∀ u, joining (k'.frames u) ≠ none → k'.frames u = k.frames u) :
    FreedOnce k' := by
  constructor
  · intro t l
    have hzero : new.countP (isFreed t l) = 0 := by
      rw [List.countP_eq_zero]
      intro e he
      rw [hnew e he t l]
      exact Bool.false_ne_true
    rw [timesFreed, hlog, List.countP_append, hzero]
    exact h.once t l
  · intro t l he
    rw [hlog]
    exact List.mem_append_left _ (h.ended t l (hend t l he))
  · intro u q timeout call hmem hj
    rw [hfr u hj] at hmem hj
    exact h.endless u q timeout call hmem hj

/-- A stack is replaced by one without a join. -/
theorem frames_of_joining {frames : Tid → List Frame} {fs : List Frame}
    (hfs : joining fs = none) (u : Tid)
    (hj : joining (Function.update frames t fs u) ≠ none) :
    Function.update frames t fs u = frames u := by
  by_cases hu : u = t
  · rw [hu, Function.update_self] at hj
    exact absurd hfs hj
  · rw [Function.update_of_ne hu]

theorem freedOnce_reclaim (hlogged : LivesLogged k) (h : FreedOnce k)
    (hall : k.threadLists.link t = some .all) :
    FreedOnce ({ k with
      threadLists := (k.threadLists.delete t).addTail .free t }.emit
        (.freed t (k.lifetime t) (k.lifetime t))) := by
  refine ⟨?_, ?_, h.endless⟩
  rotate_left
  · rintro u l ⟨hpos, hlt | ⟨rfl, hfree⟩⟩
    · exact List.mem_append_left _ (h.ended u l ⟨hpos, .inl hlt⟩)
    · by_cases hu : u = t
      · rw [hu]
        exact List.mem_append_right _ (List.mem_singleton_self _)
      · refine List.mem_append_left _ (h.ended u _ ⟨hpos, .inr ⟨rfl, ?_⟩⟩)
        have hnone : (k.threadLists.delete t).link t = none := by simp
        have hfree' : ((k.threadLists.delete t).addTail .free t).link u
          = some .free := hfree
        rw [NodeLists.link_addTail _ _ _ hnone,
          Function.update_of_ne hu] at hfree'
        simpa [hu] using hfree'
  intro u l
  show (k.log ++ [Event.freed t (k.lifetime t) (k.lifetime t)]).countP
    (isFreed u l) ≤ 1
  rw [List.countP_append, List.countP_singleton]
  by_cases hu : t = u ∧ k.lifetime t = l
  · obtain ⟨rfl, rfl⟩ := hu
    -- in this life the slot was not freed before
    have hzero : k.log.countP (isFreed t (k.lifetime t)) = 0 := by
      rw [List.countP_eq_zero]
      intro e he hfreed
      cases e with
      | freed t' l' e' =>
          obtain ⟨rfl, rfl⟩ : t' = t ∧ l' = k.lifetime t := by
            simpa [isFreed] using hfreed
          cases hall.symm.trans ((hlogged.freed _ _ _ he).2.2 rfl)
      | _ => cases hfreed
    rw [hzero]
    split_ifs <;> omega
  · rw [if_neg (by simpa [isFreed] using hu)]
    exact h.once u l

theorem freedOnce_move (hs : s.once) (hlogged : LivesLogged k)
    (h : FreedOnce k) (hm : Move s k k') : FreedOnce k' := by
  have hnil : k.log = k.log ++ [] := (List.append_nil _).symm
  have hsame : ∀ u, joining (k.frames u) ≠ none → k.frames u = k.frames u :=
    fun _ _ => rfl
  have hkeep : ∀ t l, Ended k t l → Ended k t l := fun _ _ => id
  cases hm with
  | clock p n => exact ⟨h.once, h.ended, h.endless⟩
  | expire => exact ⟨h.once, h.ended, h.endless⟩
  | preempted => exact h.quiet rfl (by simp [isFreed]) hkeep hsame
  | retouch t f hf => exact h.quiet hnil (by simp) hkeep hsame
  | setFrames fs hfrom hok hto hold hexit hj hlink =>
      exact h.quiet hnil (by simp) hkeep
        (frames_of_joining (hok.joining_eq_none hto))
  | pause f st hf hr hb hst => exact h.quiet hnil (by simp) hkeep hsame
  | sleep tq hr hc hb ht => exact h.quiet hnil (by simp) hkeep hsame
  | die retcode hr hc hfr => exact h.quiet rfl (by simp [isFreed]) hkeep hsame
  | enlist t f st hf ht hl hst hfrom htm hm =>
      exact h.quiet hnil (by simp) hkeep hsame
  | wake q t error hl hq hx hcode =>
      exact h.quiet rfl (by simp [isFreed]) hkeep hsame
  | block q timeout below tq hr hc hfr hb ht =>
      constructor
      · intro t l
        have hq : FreedOnce (k.emit (.blocked k.nextCall k.current q)) :=
          h.quiet rfl (by simp [isFreed]) hkeep hsame
        exact hq.once t l
      · intro t l he
        exact List.mem_append_left _ (h.ended t l he)
      · intro u q' timeout' call hmem hj
        dsimp only at hmem hj
        by_cases hu : u = k.current
        · rw [hu, Function.update_self] at hmem hj
          rcases hb with ⟨n, rfl, rfl⟩ | ⟨t, w, rfl, rfl, -, -, -, -, hon⟩
          · exact absurd rfl hj
          · obtain ⟨rfl, -⟩ := hon hs
            rcases List.mem_cons.mp hmem with heq | hmem
            · exact (Frame.waitQueueBlock.inj heq).2.1
            · simp at hmem
        · rw [Function.update_of_ne hu] at hmem hj
          exact h.endless u q' timeout' call hmem hj
  | returns q timeout call below hr hfr =>
      exact h.quiet rfl (by simp [isFreed]) hkeep (frames_of_joining rfl)
  | take t p hr hf hfr hj =>
      refine h.quiet hnil (by simp) ?_ (frames_of_joining rfl)
      rintro u l ⟨hpos, hor⟩
      refine ⟨hpos, ?_⟩
      by_cases hu : u = t
      · subst hu
        rcases hor with hlt | ⟨-, hfree⟩
        · dsimp only at hlt
          rw [Function.update_self] at hlt
          rcases Nat.lt_succ_iff_lt_or_eq.mp hlt with hlt | heq
          · exact .inl hlt
          · exact .inr ⟨heq, hf⟩
        · simp at hfree
      · simpa [hu] using hor
  | wipe t p hfr hm hl hc ht =>
      refine h.quiet hnil (by simp) hkeep ?_
      intro u hj
      have hout := frames_of_joining rfl u hj
      dsimp only at hj
      rw [hout] at hj
      exact hout.trans (frames_of_joining rfl u hj)
  | publish t hr hfr hm =>
      refine h.quiet rfl (by simp [isFreed]) ?_ (frames_of_joining rfl)
      rintro u l ⟨hpos, hlt | ⟨heq, hfree⟩⟩
      · exact ⟨hpos, .inl hlt⟩
      · refine ⟨hpos, .inr ⟨heq, ?_⟩⟩
        have hfree' : (k.threadLists.addTail .all t).link u
          = some .free := hfree
        rw [NodeLists.link_addTail _ _ _ hm] at hfree'
        by_cases hu : u = t
        · rw [hu, Function.update_self] at hfree'
          cases hfree'
        · rwa [Function.update_of_ne hu] at hfree'
  | reclaim t entitled hm hd hl ho =>
      subst hl
      exact freedOnce_reclaim hlogged h (ho hs).1
  | joined t l ret w stored hj hor =>
      exact h.quiet rfl (by simp [isFreed]) hkeep hsame
  | dispatch hb hi hl hss =>
      refine h.quiet (log_threadResched k) (by simp [isFreed]) ?_ ?_
      · intro t l he
        rw [threadResched_eq] at he
        exact he
      · intro u _
        rw [threadResched_eq]

/-! ## Runs -/

/-- A thread is waited for as long as it takes, and not detached. -/
def EndlessJoins (_ : Kernel) (a : Action) : Prop :=
  match a with
  | .threadJoin _ _ timeout => timeout = infinitTime
  | .threadDetach _ => False
  | .threadDetachAndResume _ _ => False
  | _ => True

/-- A thread that is joined or resumed is on `thread_list`, and one call joins
    it. -/
def OneJoinCall (k : Kernel) (a : Action) : Prop :=
  EndlessJoins k a ∧
    match a with
    | .threadResume thid _ => (k.threads thid).state = .suspended →
        k.threadLists.link thid = some .all
    | .threadJoin thid _ _ =>
        k.threadLists.link thid = some .all ∧ joiners k thid = []
    | _ => True

instance (k : Kernel) (a : Action) : Decidable (EndlessJoins k a) := by
  apply a.casesOn (motive := fun a => Decidable (EndlessJoins k a)) <;>
    intros <;> unfold EndlessJoins <;> infer_instance

instance (k : Kernel) (a : Action) : Decidable (OneJoinCall k a) := by
  apply a.casesOn (motive := fun a => Decidable (OneJoinCall k a)) <;>
    intros <;> unfold OneJoinCall <;> infer_instance

/-- A thread is joined by one call. -/
def joinedOnce : Scope where
  total := False
  joinless := False
  listed := False
  single := False
  once := True
  code := fun _ => True
  joins := True

/-- A timer that is due belongs to a call with a timeout, which is no join. -/
theorem joinersPatient_of_freedOnce (h : LifeInv s k) (hf : FreedOnce k) :
    JoinersPatient k := by
  rintro (t | t) hdue
  · exact id
  · rintro ⟨-, hj⟩
    have hmem : TimerRef.wait t ∈ k.timerQueue.queue := by
      unfold dueTimers dueAt at hdue
      split at hdue
      · cases hdue
      · exact List.takeWhile_subset _ hdue
    obtain ⟨q, timeout, call, rest, hfr, hne⟩ :=
      (h.ok t).timeout (decide_eq_true hmem)
    have hfr' : k.frames t = .waitQueueBlock q timeout call :: rest := hfr
    refine hne (hf.endless t q timeout call ?_ hj)
    rw [hfr']
    exact List.mem_cons_self

theorem allowed_of_oneJoinCall (h : LifeInv joinedOnce k) (hf : FreedOnce k)
    {a : Action} (ha : OneJoinCall k a) : Allowed joinedOnce k a := by
  obtain ⟨hend, ha⟩ := ha
  cases a with
  | goOn =>
      refine ⟨?_, fun _ => trivial⟩
      intro p _ t ts hcons u hu
      have hfree := k.threadLists.link_of_items_cons hcons
      cases hfree.symm.trans (h.once trivial u t hu).1
  | interrupt => exact ⟨joinersPatient_of_freedOnce h hf, trivial⟩
  | threadCreate p => exact False.elim
  | threadResume thid intsDisabled => exact ha
  | threadUnblock thid resched =>
      exact ⟨False.elim, fun hno => hno.elim False.elim False.elim⟩
  | threadSetPriority p => exact False.elim
  | threadJoin thid w timeout =>
      have hinf : timeout = infinitTime := hend
      refine ⟨id, fun _ => trivial, fun _ _ => ⟨?_, ha.1⟩, False.elim,
        fun _ => ⟨ha.1, hinf, ?_⟩⟩
      · rw [hinf]
        decide
      · intro u hu
        have hmem := (mem_joiners h).mpr hu
        rw [ha.2] at hmem
        cases hmem
  | threadDetach thid => exact hend.elim
  | threadDetachAndResume thid i => exact hend.elim
  | threadExit retcode => exact trivial
  | waitQueueWakeOne q reschedule error => exact trivial
  | waitQueueWakeAll q reschedule error => exact trivial
  | waitQueueDestroy q reschedule => exact trivial
  | _ => exact trivial

theorem bootKernel_livesLogged (cfg : Config) :
    LivesLogged (bootKernel cfg) where
  exited := by rintro _ _ _ ⟨⟩
  unique := by rintro _ _ _ _ ⟨⟩
  died := by
    intro t hd
    by_cases ht : t = idleThread
    · rw [ht] at hd
      cases hd
    · simp [bootKernel, ht, Thread.zero] at hd
  linking := by rintro _ _ ⟨⟩
  freed := by rintro _ _ _ ⟨⟩
  joined := by rintro _ _ _ _ _ ⟨⟩

theorem bootKernel_freedOnce (cfg : Config) : FreedOnce (bootKernel cfg) where
  once := fun _ _ => Nat.zero_le 1
  ended := by
    rintro t l ⟨hpos, hlt | ⟨rfl, -⟩⟩
    · cases hlt
    · exact absurd hpos (Nat.lt_irrefl 0)
  endless := by rintro _ _ _ _ ⟨⟩

/-- The invariants of the runs in which one call joins a thread. -/
theorem freedOnce_of_reachable (h : Reachable cfg OneJoinCall k) :
    Good joinedOnce k ∧ LivesLogged k ∧ FreedOnce k := by
  refine h.invariant
    (I := fun k => Good joinedOnce k ∧ LivesLogged k ∧ FreedOnce k)
    ⟨bootKernel_good cfg joinedOnce, bootKernel_livesLogged cfg,
      bootKernel_freedOnce cfg⟩ ?_
  rintro k1 a k2 ⟨hg, hlogged, hf⟩ ha hst
  obtain ⟨hg', hmoves⟩ :=
    good_of_step hg (allowed_of_oneJoinCall hg.life hf ha) hst
  refine ⟨hg', ?_⟩
  refine keeps_of_moves (I := fun k => LivesLogged k ∧ FreedOnce k) ?_ hg.life
    ⟨hlogged, hf⟩ hmoves
  intro k3 k4 hlife hi hm
  exact ⟨livesLogged_move hlife hi.1 hm,
    freedOnce_move trivial hi.1 hi.2 hm⟩

/-- Every life of a slot is reaped once, by a call that was made for it, and
    what the joins store is what the thread passed to `thread_exit`. -/
structure ReapedOnce (k : Kernel) : Prop where
  once : ∀ t l, timesFreed k t l ≤ 1
  ended : ∀ t l, Ended k t l → timesFreed k t l = 1
  entitled : ∀ t l entitled, Event.freed t l entitled ∈ k.log → entitled = l
  joined : ∀ caller t l wantRetcode stored,
    Event.joined caller t l noErr wantRetcode stored ∈ k.log →
    timesFreed k t l = 1 ∧
      ∃ retcode, (∀ rc, Event.exited t l rc ∈ k.log ↔ rc = retcode) ∧
        (wantRetcode = true → stored = some retcode)

/-- **Every run** in which one call joins a thread reaps each thread once. -/
theorem reapedOnce_of_reachable (h : Reachable cfg OneJoinCall k) :
    ReapedOnce k := by
  obtain ⟨-, hlogged, hf⟩ := freedOnce_of_reachable h
  have hone : ∀ t l, Event.freed t l l ∈ k.log → timesFreed k t l = 1 := by
    intro t l hmem
    refine Nat.le_antisymm (hf.once t l) ?_
    exact List.countP_pos_iff.mpr ⟨.freed t l l, hmem, by simp [isFreed]⟩
  constructor
  · exact hf.once
  · exact fun t l he => hone t l (hf.ended t l he)
  · exact fun t l e he => (hlogged.freed t l e he).1
  · intro caller t l w stored hj
    obtain ⟨hfreed, rc, hex, hst⟩ := hlogged.joined caller t l w stored hj
    refine ⟨hone t l hfreed, rc, fun rc' => ⟨?_, ?_⟩, hst⟩
    · intro hex'
      exact hlogged.unique t l rc' rc hex' hex
    · rintro rfl
      exact hex

/-- Thread 2 joins thread 1, and thread 1 exits with 42. -/
theorem reapedOnce_of_exitAndJoin :
    ∃ k, Reachable tenSlots OneJoinCall k ∧
      Event.joined 2 1 1 noErr true (some 42) ∈ k.log ∧ ReapedOnce k := by
  obtain ⟨k, hk, hj⟩ := exists_reachable_of_replay tenSlots OneJoinCall
    (fun k => Event.joined 2 1 1 noErr true (some 42) ∈ k.log)
    (exitAndJoin ++ [.goOn]) (by decide +kernel)
  exact ⟨k, hk, hj, reapedOnce_of_reachable hk⟩

/-- Threads 2 and 3 join thread 1: when it exits, both put its slot on the
    free list. -/
theorem slot_is_freed_twice :
    ¬ ∀ k, Reachable tenSlots EndlessJoins k → ReapedOnce k := by
  intro hall
  obtain ⟨k, hk, htwo⟩ := exists_reachable_of_replay tenSlots EndlessJoins
    (fun k => timesFreed k 1 1 = 2)
    [.threadCreate 5, .goOn, .goOn, .goOn, .threadResume 1 true,
      .threadCreate 5, .goOn, .goOn, .goOn, .threadResume 2 true,
      .threadCreate 5, .goOn, .goOn, .goOn, .threadResume 3 true,
      .threadBecomeIdle, .goOn, .goOn, .threadYield, .goOn,
      .threadJoin 1 true infinitTime, .goOn,
      .threadJoin 1 true infinitTime, .goOn, .threadExit 42, .goOn,
      .threadExit 0, .goOn] (by decide +kernel)
  have hone := (hall k hk).once 1 1
  omega

end ChinixReaping

import Chinix.WaitQueueInvariant

/-! # The calls of `wait_queue_block`

    A wake-up and a timeout race for a thread that waits; the one that comes
    second finds it READY and leaves it alone.  `CallsInv` ties what the log
    says of a call to what the kernel holds of it: the call waits exactly as
    long as its thread is on the list, the list is in the order of the calls,
    and what is stored for a call that was made READY is what it was made
    READY with. -/

namespace ChinixBlockingCalls

open ChinixTimerQueue ChinixPlatformTimer ChinixKernel ChinixRunQueue
open ChinixWaitQueue ChinixThread ChinixMachine Outcome ChinixQueueInvariant
open ChinixLifecycle ChinixMoves ChinixLifeInvariant ChinixSimulation
open ChinixThreadCalls ChinixSteps ChinixWaitQueueInvariant

variable {s : Scope} {k k' : Kernel} {t : Tid} {cfg : Config}

/-! ## What the log says of a call -/

/-- The transitions from BLOCKED to READY in a call, each with its thread and
    the code of the event that made it. -/
def readies (call : Nat) (log : List Event) : List (Tid × Int) :=
  log.filterMap fun e =>
    match e with
    | .readied c t error => if c = call then some (t, error) else none
    | _ => none

/-- The call that an event is about. -/
def callOf : Event → Option Nat
  | .blocked call _ _ => some call
  | .readied call _ _ => some call
  | .returned call _ _ => some call
  | _ => none

theorem readies_append (call : Nat) (log new : List Event) :
    readies call (log ++ new) = readies call log ++ readies call new :=
  List.filterMap_append

theorem readies_of_quiet {new : List Event} (h : ∀ e ∈ new, callOf e = none)
    (call : Nat) : readies call new = [] := by
  rw [readies, List.filterMap_eq_nil_iff]
  intro e he
  have hno := h e he
  cases e <;> first | rfl | cases hno

@[simp] theorem readies_readied (call c : Nat) (t : Tid) (error : Int) :
    readies call [.readied c t error]
      = if c = call then [(t, error)] else [] := by
  by_cases h : c = call <;> simp [readies, h]

@[simp] theorem readies_blocked (call c : Nat) (t : Tid) (q : WaitQueueRef) :
    readies call [.blocked c t q] = [] := rfl

@[simp] theorem readies_returned (call c : Nat) (t : Tid) (ret : Int) :
    readies call [.returned c t ret] = [] := rfl

/-! ## What the kernel holds of a call -/

/-- The wait queue and the number of the call that a thread is in. -/
def callIn : List Frame → Option (WaitQueueRef × Nat)
  | .waitQueueBlock q _ call :: _ => some (q, call)
  | _ => none

theorem callIn_eq_none {fs : List Frame} :
    callIn fs = none ↔ blockedIn fs = none := by
  cases fs with
  | nil => simp [callIn, blockedIn]
  | cons f rest => cases f <;> simp [callIn, blockedIn]

theorem callIn_of_blockedIn {fs : List Frame} {q : WaitQueueRef}
    (h : blockedIn fs = some q) : ∃ c, callIn fs = some (q, c) := by
  cases fs with
  | nil => cases h
  | cons f rest =>
      cases f <;> cases h
      exact ⟨_, rfl⟩

theorem waitCall_of_callIn {q : WaitQueueRef} {c : Nat}
    (h : callIn (k.frames t) = some (q, c)) : k.waitCall t = c := by
  rw [Kernel.waitCall]
  cases hfr : k.frames t with
  | nil =>
      rw [hfr] at h
      cases h
  | cons f rest =>
      rw [hfr] at h
      cases f <;> cases h
      rfl

/-- The number of the call is read off the stack. -/
theorem waitCall_congr (h : callIn (k'.frames t) = callIn (k.frames t)) :
    k'.waitCall t = k.waitCall t := by
  cases hc : callIn (k.frames t) with
  | some qc =>
      rw [hc] at h
      rw [waitCall_of_callIn h, waitCall_of_callIn hc]
  | none =>
      have hzero : ∀ {k : Kernel}, callIn (k.frames t) = none →
          k.waitCall t = 0 := by
        intro k hnone
        rw [Kernel.waitCall]
        cases hfr : k.frames t with
        | nil => rfl
        | cons f rest =>
            rw [hfr] at hnone
            cases f <;> first | rfl | cases hnone
      rw [hzero (h.trans hc), hzero hc]

/-- The invariant of the calls. -/
structure CallsInv (k : Kernel) : Prop where
  number : ∀ e ∈ k.log, ∀ c, callOf e = some c → c < k.nextCall
  made : ∀ t q c, callIn (k.frames t) = some (q, c) →
    Event.blocked c t q ∈ k.log
  apart : ∀ t u q q' c, callIn (k.frames t) = some (q, c) →
    callIn (k.frames u) = some (q', c) → t = u
  waits : ∀ t q c, callIn (k.frames t) = some (q, c) →
    k.queues.link t = some (.wait q) → readies c k.log = []
  stored : ∀ t q c, callIn (k.frames t) = some (q, c) →
    k.queues.link t ≠ some (.wait q) →
    readies c k.log = [(t, (k.threads t).waitQueueBlockRet)]
  entered : ∀ c t q, Event.blocked c t q ∈ k.log → readies c k.log = [] →
    callIn (k.frames t) = some (q, c)
  once : ∀ c, (readies c k.log).length ≤ 1
  returned : ∀ c t ret, Event.returned c t ret ∈ k.log →
    readies c k.log = [(t, ret)]
  order : ∀ q, (k.waitList q).Pairwise fun t u => k.waitCall t < k.waitCall u

/-! ## The moves -/

/-- A move that is about no call. -/
theorem CallsInv.quiet (h : CallsInv k) {new : List Event}
    (hlog : k'.log = k.log ++ new) (hnew : ∀ e ∈ new, callOf e = none)
    (hnext : k'.nextCall = k.nextCall)
    (hin : ∀ t, callIn (k'.frames t) = callIn (k.frames t))
    (hwait : ∀ q, k'.waitList q = k.waitList q)
    (hret : ∀ t, callIn (k.frames t) ≠ none →
      (k'.threads t).waitQueueBlockRet = (k.threads t).waitQueueBlockRet) :
    CallsInv k' := by
  have hreadies : ∀ c, readies c k'.log = readies c k.log := by
    intro c
    rw [hlog, readies_append, readies_of_quiet hnew, List.append_nil]
  have hmem : ∀ e, callOf e ≠ none → (e ∈ k'.log ↔ e ∈ k.log) := by
    intro e he
    rw [hlog, List.mem_append]
    exact ⟨fun hor => hor.resolve_right (fun hin => he (hnew e hin)), .inl⟩
  have hlink : ∀ t q, k'.queues.link t = some (.wait q) ↔
      k.queues.link t = some (.wait q) := by
    intro t q
    have hitems := hwait q
    unfold Kernel.waitList at hitems
    rw [← NodeLists.mem_items, hitems, NodeLists.mem_items]
  constructor
  · intro e he c hc
    rw [hnext]
    exact h.number e ((hmem e (by rw [hc]; simp)).mp he) c hc
  · intro t q c hc
    rw [hin] at hc
    exact (hmem (.blocked c t q) (by rintro ⟨⟩)).mpr (h.made t q c hc)
  · intro t u q q' c hc hc'
    rw [hin] at hc hc'
    exact h.apart t u q q' c hc hc'
  · intro t q c hc hl
    rw [hin] at hc
    rw [hreadies]
    exact h.waits t q c hc ((hlink t q).mp hl)
  · intro t q c hc hl
    rw [hin] at hc
    rw [hreadies, hret t (by rw [hc]; simp)]
    exact h.stored t q c hc (fun hl' => hl ((hlink t q).mpr hl'))
  · intro c t q hb hr
    rw [hin]
    rw [hreadies] at hr
    exact h.entered c t q ((hmem (.blocked c t q) (by rintro ⟨⟩)).mp hb) hr
  · intro c
    rw [hreadies]
    exact h.once c
  · intro c t ret hr
    rw [hreadies]
    exact h.returned c t ret ((hmem (.returned c t ret) (by rintro ⟨⟩)).mp hr)
  · intro q
    rw [hwait]
    refine (h.order q).imp ?_
    intro t u hlt
    rw [waitCall_congr (hin t), waitCall_congr (hin u)]
    exact hlt

/-- The wait lists only change in `Move.wake` and `Move.block`. -/
theorem callsInv_wake (hlife : LifeInv s k) (h : CallsInv k)
    {q : WaitQueueRef} (error : Int)
    (hl : k.queues.link t = some (.wait q)) :
    CallsInv (enqueue
      (readyWaiter q t error { k with queues := k.queues.delete t }) t) := by
  obtain ⟨c, hc⟩ := callIn_of_blockedIn ((hlife.ok t).wait q hl).2
  have hcall : k.waitCall t = c := waitCall_of_callIn hc
  -- the thread is on the list, so nobody made it READY before
  have hnil := h.waits t q c hc hl
  generalize hk' : enqueue
    (readyWaiter q t error { k with queues := k.queues.delete t }) t = k'
  have hlog : k'.log = k.log ++ [.readied c t error] := by
    rw [← hk', ← hcall]
    rfl
  have hframes : k'.frames = k.frames := by rw [← hk']; rfl
  have hnext : k'.nextCall = k.nextCall := by rw [← hk']; rfl
  have hview : ∀ u, view k' u = if u = t then
      { view k t with
        state := .ready
        link := some (.run (k.threads t).priority.toNat)
        ret := error }
      else view k u := by
    rw [← hk']
    exact view_wake error
  have hself : readies c k'.log = [(t, error)] := by
    rw [hlog, readies_append, hnil, readies_readied, if_pos rfl]
    rfl
  have hother : ∀ c', c' ≠ c → readies c' k'.log = readies c' k.log := by
    intro c' hne
    rw [hlog, readies_append, readies_readied, if_neg (Ne.symm hne),
      List.append_nil]
  have hblocked : ∀ c u q, Event.blocked c u q ∈ k'.log ↔
      Event.blocked c u q ∈ k.log := by simp [hlog]
  have hreturned : ∀ c u ret, Event.returned c u ret ∈ k'.log ↔
      Event.returned c u ret ∈ k.log := by simp [hlog]
  have hne : ∀ u q' c', callIn (k.frames u) = some (q', c') → u ≠ t →
      c' ≠ c := by
    rintro u q' c' hu hut rfl
    exact hut (h.apart u t q' q c' hu hc)
  have hlist : ∀ q', k'.waitList q' = (k.waitList q').erase t := by
    intro q'
    rw [← hk', waitList_enqueue (by simp [readyWaiter])]
    rfl
  constructor
  · intro e he c' hc'
    rw [hnext]
    rw [hlog] at he
    rcases List.mem_append.mp he with hold | hnew
    · exact h.number e hold c' hc'
    · rw [List.mem_singleton.mp hnew] at hc'
      cases hc'
      exact h.number _ (h.made t q c hc) c rfl
  · intro u q' c' hu
    rw [hframes] at hu
    exact (hblocked c' u q').mpr (h.made u q' c' hu)
  · rw [hframes]
    exact h.apart
  · intro u q' c' hu hlu
    rw [hframes] at hu
    have hvu := congrArg View.link (hview u)
    by_cases hut : u = t
    · rw [if_pos hut] at hvu
      cases hvu.symm.trans hlu
    · rw [if_neg hut] at hvu
      rw [hother c' (hne u q' c' hu hut)]
      exact h.waits u q' c' hu (hvu.symm.trans hlu)
  · intro u q' c' hu hlu
    rw [hframes] at hu
    have hvl := congrArg View.link (hview u)
    have hvr : (k'.threads u).waitQueueBlockRet = _ :=
      congrArg View.ret (hview u)
    by_cases hut : u = t
    · subst hut
      rw [if_pos rfl] at hvr
      cases hu.symm.trans hc
      rw [hself, hvr]
    · rw [if_neg hut] at hvl hvr
      rw [hother c' (hne u q' c' hu hut), hvr]
      exact h.stored u q' c' hu (fun hl' => hlu (hvl.trans hl'))
  · intro c' u q' hb hr
    rw [hframes]
    have hc' : c' ≠ c := by
      rintro rfl
      cases hself.symm.trans hr
    rw [hother c' hc'] at hr
    exact h.entered c' u q' ((hblocked c' u q').mp hb) hr
  · intro c'
    by_cases hc' : c' = c
    · rw [hc', hself]
      exact Nat.le_refl 1
    · rw [hother c' hc']
      exact h.once c'
  · intro c' u ret hr
    have hold := h.returned c' u ret ((hreturned c' u ret).mp hr)
    rw [hother c' ?_]
    · exact hold
    · rintro rfl
      cases hnil.symm.trans hold
  · intro q'
    rw [hlist]
    refine ((h.order q').sublist List.erase_sublist).imp ?_
    intro u v hlt
    have hwait : ∀ x, k'.waitCall x = k.waitCall x :=
      fun x => waitCall_congr (by rw [hframes])
    rw [hwait, hwait]
    exact hlt

/-- The numbers of the calls to come are unused. -/
theorem CallsInv.readies_next (h : CallsInv k) :
    readies k.nextCall k.log = [] := by
  rw [readies, List.filterMap_eq_nil_iff]
  intro e he
  cases e with
  | readied c u error =>
      have hlt := h.number _ he c rfl
      exact if_neg (Nat.ne_of_lt hlt)
  | _ => rfl

/-- The calls under way once a thread has made a call. -/
theorem callIn_of_update {frames : Tid → List Frame} {q q' : WaitQueueRef}
    {timeout : Time} {call c : Nat} {below : List Frame} {u : Tid}
    (h : callIn (Function.update frames t
      (.waitQueueBlock q timeout call :: below) u) = some (q', c)) :
    u = t ∧ q' = q ∧ c = call ∨
      u ≠ t ∧ callIn (frames u) = some (q', c) := by
  by_cases hu : u = t
  · rw [hu, Function.update_self] at h
    cases h
    exact .inl ⟨hu, rfl, rfl⟩
  · rw [Function.update_of_ne hu] at h
    exact .inr ⟨hu, h⟩

theorem callsInv_block (hlife : LifeInv s k) (h : CallsInv k)
    (hr : Resting k) (hfr : k.frames k.current = []) (q : WaitQueueRef)
    (timeout : Time) (below : List Frame)
    (tq : TimerQueue TimerRef Callback) :
    CallsInv { blockedOn k q with
      timerQueue := tq
      frames := Function.update k.frames k.current
        (.waitQueueBlock q timeout k.nextCall :: below) } := by
  generalize hk' : ({ blockedOn k q with
      timerQueue := tq
      frames := Function.update k.frames k.current
        (.waitQueueBlock q timeout k.nextCall :: below) } : Kernel) = k'
  have hlog : k'.log = k.log ++ [.blocked k.nextCall k.current q] := by
    rw [← hk']
    rfl
  have hnext : k'.nextCall = k.nextCall + 1 := by rw [← hk']; rfl
  have hself : callIn (k'.frames k.current) = some (q, k.nextCall) := by
    simp [← hk', callIn]
  have hother : ∀ u, u ≠ k.current → k'.frames u = k.frames u := by
    intro u hu
    simp [← hk', hu]
  have hin : ∀ u q' c, callIn (k'.frames u) = some (q', c) →
      u = k.current ∧ q' = q ∧ c = k.nextCall ∨
        u ≠ k.current ∧ callIn (k.frames u) = some (q', c) := by
    intro u q' c hu
    rw [← hk'] at hu
    exact callIn_of_update hu
  have hlink : k'.queues.link
      = Function.update k.queues.link k.current (some (.wait q)) := by
    rw [← hk']
    exact k.queues.link_addTail (.wait q) k.current hr.unlinked
  have hlist : ∀ q', k'.waitList q' =
      if q' = q then k.waitList q ++ [k.current] else k.waitList q' := by
    intro q'
    rw [← hk']
    show (k.queues.addTail (.wait q) k.current).items (.wait q') = _
    rw [k.queues.items_addTail _ _ hr.unlinked]
    by_cases hq : q' = q
    · subst hq
      simp [Kernel.waitList]
    · simp [hq, Kernel.waitList]
  have hreadies : ∀ c, readies c k'.log = readies c k.log := by
    intro c
    rw [hlog, readies_append, readies_blocked, List.append_nil]
  have hidle : callIn (k.frames k.current) = none := by rw [hfr]; rfl
  -- the calls under way have smaller numbers than the new one
  have hlt : ∀ u q' c, callIn (k.frames u) = some (q', c) →
      c < k.nextCall := fun u q' c hu => h.number _ (h.made u q' c hu) c rfl
  -- a waiter is not the current thread
  have hwaiter : ∀ q', ∀ u ∈ k.waitList q', u ≠ k.current := by
    rintro q' u hu rfl
    cases hr.unlinked.symm.trans ((k.queues.mem_items _ _).mp hu)
  have hcall : ∀ q', ∀ u ∈ k.waitList q', k'.waitCall u = k.waitCall u := by
    intro q' u hu
    exact waitCall_congr (by rw [hother u (hwaiter q' u hu)])
  constructor
  · intro e he c hc
    rw [hnext]
    rw [hlog] at he
    rcases List.mem_append.mp he with hold | hnew
    · exact Nat.lt_succ_of_lt (h.number e hold c hc)
    · rw [List.mem_singleton.mp hnew] at hc
      cases hc
      exact Nat.lt_succ_self _
  · intro u q' c hu
    rw [hlog]
    rcases hin u q' c hu with ⟨rfl, rfl, rfl⟩ | ⟨-, hu⟩
    · exact List.mem_append_right _ (List.mem_singleton_self _)
    · exact List.mem_append_left _ (h.made u q' c hu)
  · intro u v q' q'' c hu hv
    rcases hin u q' c hu with ⟨rfl, -, rfl⟩ | ⟨-, hu⟩
    · rcases hin v q'' _ hv with ⟨rfl, -, -⟩ | ⟨-, hv⟩
      · rfl
      · exact absurd (hlt v q'' _ hv) (Nat.lt_irrefl _)
    · rcases hin v q'' c hv with ⟨rfl, -, rfl⟩ | ⟨-, hv⟩
      · exact absurd (hlt u q' _ hu) (Nat.lt_irrefl _)
      · exact h.apart u v q' q'' c hu hv
  · intro u q' c hu hlu
    rw [hreadies]
    rcases hin u q' c hu with ⟨rfl, rfl, rfl⟩ | ⟨huc, hu⟩
    · exact h.readies_next
    · rw [hlink, Function.update_of_ne huc] at hlu
      exact h.waits u q' c hu hlu
  · intro u q' c hu hlu
    rw [hreadies]
    rcases hin u q' c hu with ⟨rfl, rfl, rfl⟩ | ⟨huc, hu⟩
    · rw [hlink, Function.update_self] at hlu
      exact absurd rfl hlu
    · rw [hlink, Function.update_of_ne huc] at hlu
      have hret : (k'.threads u).waitQueueBlockRet
          = (k.threads u).waitQueueBlockRet := by
        simp [← hk', blockedOn, huc]
      rw [hret]
      exact h.stored u q' c hu hlu
  · intro c u q' hb hnil
    rw [hreadies] at hnil
    rw [hlog] at hb
    rcases List.mem_append.mp hb with hold | hnew
    · have hu := h.entered c u q' hold hnil
      rw [hother u ?_]
      · exact hu
      · rintro rfl
        cases hidle.symm.trans hu
    · cases List.mem_singleton.mp hnew
      exact hself
  · intro c
    rw [hreadies]
    exact h.once c
  · intro c u ret hret
    rw [hreadies]
    refine h.returned c u ret ?_
    rw [hlog] at hret
    simpa using hret
  · intro q'
    have hold : (k.waitList q').Pairwise
        fun u v => k'.waitCall u < k'.waitCall v := by
      refine (h.order q').imp_of_mem ?_
      intro u v hu hv huv
      rw [hcall q' u hu, hcall q' v hv]
      exact huv
    rw [hlist]
    split_ifs with hq
    · rw [← hq, List.pairwise_append]
      refine ⟨hold, List.pairwise_singleton _ _, ?_⟩
      intro u hu v hv
      obtain ⟨c, hc⟩ := callIn_of_blockedIn
        ((hlife.ok u).wait q' ((k.queues.mem_items _ _).mp hu)).2
      rw [List.mem_singleton.mp hv, waitCall_of_callIn hself, hcall q' u hu,
        waitCall_of_callIn hc]
      exact hlt u q' c hc
    · exact hold

theorem callsInv_returns (h : CallsInv k) (hr : Resting k) {q : WaitQueueRef}
    {timeout : Time} {call : Nat} {below : List Frame}
    (hfr : k.frames k.current = .waitQueueBlock q timeout call :: below)
    (tq : TimerQueue TimerRef Callback) :
    CallsInv ({ k with
      timerQueue := tq
      frames := Function.update k.frames k.current [] }.emit
        (.returned call k.current
          (k.threads k.current).waitQueueBlockRet)) := by
  generalize hk' : ({ k with
      timerQueue := tq
      frames := Function.update k.frames k.current [] }.emit
        (.returned call k.current
          (k.threads k.current).waitQueueBlockRet)) = k'
  have hlog : k'.log = k.log ++ [.returned call k.current
      (k.threads k.current).waitQueueBlockRet] := by
    rw [← hk']
    rfl
  have hnext : k'.nextCall = k.nextCall := by rw [← hk']; rfl
  have hqueues : k'.queues = k.queues := by rw [← hk']; rfl
  have hthreads : k'.threads = k.threads := by rw [← hk']; rfl
  have hin : callIn (k.frames k.current) = some (q, call) := by rw [hfr]; rfl
  have hself : callIn (k'.frames k.current) = none := by
    simp [← hk', callIn]
  have hother : ∀ u, u ≠ k.current → k'.frames u = k.frames u := by
    intro u hu
    simp [← hk', hu]
  have hreadies : ∀ c, readies c k'.log = readies c k.log := by
    intro c
    rw [hlog, readies_append, readies_returned, List.append_nil]
  have hstored := h.stored k.current q call hin (by rw [hr.unlinked]; simp)
  -- what is left to say of a call is about another thread
  have hold : ∀ u q' c, callIn (k'.frames u) = some (q', c) →
      u ≠ k.current ∧ callIn (k.frames u) = some (q', c) := by
    intro u q' c hu
    have hne : u ≠ k.current := by
      rintro rfl
      cases hself.symm.trans hu
    rw [hother u hne] at hu
    exact ⟨hne, hu⟩
  constructor
  · intro e he c hc
    rw [hnext]
    rw [hlog] at he
    rcases List.mem_append.mp he with hmem | hnew
    · exact h.number e hmem c hc
    · rw [List.mem_singleton.mp hnew] at hc
      cases hc
      exact h.number _ (h.made k.current q call hin) call rfl
  · intro u q' c hu
    rw [hlog]
    exact List.mem_append_left _ (h.made u q' c (hold u q' c hu).2)
  · intro u v q' q'' c hu hv
    exact h.apart u v q' q'' c (hold u q' c hu).2 (hold v q'' c hv).2
  · intro u q' c hu hlu
    rw [hreadies]
    rw [hqueues] at hlu
    exact h.waits u q' c (hold u q' c hu).2 hlu
  · intro u q' c hu hlu
    rw [hreadies, hthreads]
    rw [hqueues] at hlu
    exact h.stored u q' c (hold u q' c hu).2 hlu
  · intro c u q' hb hnil
    rw [hreadies] at hnil
    rw [hlog] at hb
    have hu := h.entered c u q' (by simpa using hb) hnil
    rw [hother u ?_]
    · exact hu
    · rintro rfl
      cases hu.symm.trans hin
      cases hnil.symm.trans hstored
  · intro c
    rw [hreadies]
    exact h.once c
  · intro c u ret hret
    rw [hreadies]
    rw [hlog] at hret
    rcases List.mem_append.mp hret with hmem | hnew
    · exact h.returned c u ret hmem
    · cases List.mem_singleton.mp hnew
      exact hstored
  · intro q'
    have hlist : k'.waitList q' = k.waitList q' := by
      rw [Kernel.waitList, hqueues]
      rfl
    rw [hlist]
    refine (h.order q').imp_of_mem ?_
    intro u v hu hv huv
    have hwait : ∀ x ∈ k.waitList q', k'.waitCall x = k.waitCall x := by
      intro x hx
      have hne : x ≠ k.current := by
        rintro rfl
        cases hr.unlinked.symm.trans ((k.queues.mem_items _ _).mp hx)
      exact waitCall_congr (by rw [hother x hne])
    rw [hwait u hu, hwait v hv]
    exact huv

/-- `thread_resched` takes nobody off a wait queue. -/
theorem waitList_threadResched (hb : BitmapOk k) (q : WaitQueueRef) :
    (threadResched k).waitList q = k.waitList q := by
  rw [Kernel.waitList, threadResched_eq]
  rcases getNewThread_cases hb with ⟨-, heq⟩ | ⟨p, t, ts, -, hcons, -, heq⟩
  · rw [heq]
    rfl
  · rw [heq]
    refine k.queues.items_delete_of_ne ?_
    rw [k.queues.link_of_items_cons hcons]
    simp

/-- A stack in no call is replaced by another one. -/
theorem callIn_restack {frames : Tid → List Frame} {fs : List Frame}
    (hfrom : blockedIn (frames t) = none) (hto : blockedIn fs = none)
    (u : Tid) : callIn (Function.update frames t fs u)
      = callIn (frames u) := by
  by_cases hu : u = t
  · rw [hu, Function.update_self, callIn_eq_none.mpr hfrom,
      callIn_eq_none.mpr hto]
  · rw [Function.update_of_ne hu]

/-- The slot that is made into a thread is in no call. -/
theorem callsInv_wipe (hlife : LifeInv s k) (h : CallsInv k) {p : Int}
    (hfr : k.frames k.current = [.initThread t p])
    (hm : k.threadLists.link t = none) (hl : k.queues.link t = none)
    (hc : t ≠ k.current) :
    CallsInv { k with
      threads := Function.update k.threads t
        { Thread.zero with priority := p }
      waitCount := Function.update k.waitCount (.exitOf t) 0
      frames := Function.update (Function.update k.frames t
        [.initialThreadFunc]) k.current [.linkThread t] } := by
  have hout : blockedIn (k.frames t) = none := (hlife.unlisted hm hl).2
  refine h.quiet (List.append_nil _).symm (by simp) rfl ?_ (fun _ => rfl) ?_
  · intro u
    have hfrom : blockedIn (Function.update k.frames t [.initialThreadFunc]
        k.current) = none := by
      rw [Function.update_of_ne (Ne.symm hc), hfr]
      rfl
    exact (callIn_restack hfrom rfl u).trans (callIn_restack hout rfl u)
  · intro u hin
    have hu : u ≠ t := by
      rintro rfl
      exact hin (callIn_eq_none.mpr hout)
    show (Function.update k.threads t _ u).waitQueueBlockRet = _
    rw [Function.update_of_ne hu]

theorem callsInv_move (hlife : LifeInv s k) (h : CallsInv k)
    (hm : Move s k k') : CallsInv k' := by
  have hnil : k.log = k.log ++ [] := (List.append_nil _).symm
  have hset : ∀ (u : Tid) (f : Thread → Thread),
      (f (k.threads u)).waitQueueBlockRet = (k.threads u).waitQueueBlockRet →
      ∀ t, ((k.setThread u f).threads t).waitQueueBlockRet
        = (k.threads t).waitQueueBlockRet := by
    intro u f hf t
    by_cases ht : t = u
    · subst ht
      simpa using hf
    · simp [ht]
  cases hm with
  | clock p n =>
      exact h.quiet hnil (by simp) rfl (fun _ => rfl) (fun _ => rfl)
        (fun _ _ => rfl)
  | expire =>
      exact h.quiet hnil (by simp) rfl (fun _ => rfl) (fun _ => rfl)
        (fun _ _ => rfl)
  | preempted =>
      exact h.quiet rfl (by simp [callOf]) rfl (fun _ => rfl) (fun _ => rfl)
        (fun _ _ => rfl)
  | retouch u f hf =>
      exact h.quiet hnil (by simp) rfl (fun _ => rfl) (fun _ => rfl)
        (fun t _ => hset u f hf.ret t)
  | setFrames fs hfrom hok hto hold hexit hj hlink =>
      exact h.quiet hnil (by simp) rfl (callIn_restack hfrom hto) (fun _ => rfl)
        (fun _ _ => rfl)
  | pause f st hf hr hb hst =>
      exact h.quiet hnil (by simp) rfl (fun _ => rfl) (fun _ => rfl)
        (fun t _ => hset _ f hf.ret t)
  | sleep tq hr hc hb ht =>
      exact h.quiet hnil (by simp) rfl (fun _ => rfl) (fun _ => rfl)
        (fun t _ => hset k.current (fun th => { th with state := .sleeping })
          rfl t)
  | die retcode hr hc hfr =>
      exact h.quiet rfl (by simp [callOf]) rfl (fun _ => rfl) (fun _ => rfl)
        (fun t _ => hset k.current (fun th =>
          { th with state := .death, retcode := retcode }) rfl t)
  | enlist u f st hf ht hl hst hfrom htm hm =>
      refine h.quiet hnil (by simp) rfl (fun _ => rfl) ?_
        (fun t _ => hset u f hf.ret t)
      exact waitList_enqueue (k := k.setThread u f) hl
  | wake q u error hl hq hx hcode => exact callsInv_wake hlife h error hl
  | block q timeout below tq hr hc hfr hb ht =>
      exact callsInv_block hlife h hr hfr q timeout below tq
  | returns q timeout call below hr hfr => exact callsInv_returns h hr hfr _
  | take u p hr hf hfr hj =>
      exact h.quiet hnil (by simp) rfl
        (callIn_restack (by rw [hfr]; rfl) rfl) (fun _ => rfl) (fun _ _ => rfl)
  | wipe u p hfr hm hl hc ht => exact callsInv_wipe hlife h hfr hm hl hc
  | publish u hr hfr hm =>
      exact h.quiet rfl (by simp [callOf]) rfl
        (callIn_restack (by rw [hfr]; rfl) rfl) (fun _ => rfl) (fun _ _ => rfl)
  | reclaim u entitled hm hd hl ho =>
      exact h.quiet rfl (by simp [callOf]) rfl (fun _ => rfl) (fun _ => rfl)
        (fun _ _ => rfl)
  | joined u lifetime ret w stored hs hor =>
      exact h.quiet rfl (by simp [callOf]) rfl (fun _ => rfl) (fun _ => rfl)
        (fun _ _ => rfl)
  | dispatch hb hi hl hs =>
      refine h.quiet (log_threadResched k) (by simp [callOf])
        (by rw [threadResched_eq]) (fun t => by rw [threadResched_eq])
        (waitList_threadResched hb) ?_
      intro t _
      rw [threadResched_eq]
      exact hset _ (fun th => scheduled (getNewThread k).1 k.current th) rfl t

/-! ## Runs -/

/-- The call waits: it was made, and no event has readied it. -/
def Pending (k : Kernel) (q : WaitQueueRef) (call : Nat) (t : Tid) : Prop :=
  Event.blocked call t q ∈ k.log ∧ readies call k.log = []

/-- Of the calls that wait on a queue, it was made first. -/
def Oldest (k : Kernel) (q : WaitQueueRef) (call : Nat) (t : Tid) : Prop :=
  Pending k q call t ∧ ∀ c u, Pending k q c u → call ≤ c

/-- The calls are in order: each is readied once at most, one that returned
    was readied and returned the code of that event, and the calls that wait
    are those of the BLOCKED threads on the list. -/
structure CallsOk (k : Kernel) : Prop where
  once : ∀ call, (readies call k.log).length ≤ 1
  returned : ∀ call t ret, Event.returned call t ret ∈ k.log →
    readies call k.log = [(t, ret)]
  pending : ∀ q call t, Pending k q call t ↔
    t ∈ k.waitList q ∧ (k.threads t).state = .blocked ∧ k.waitCall t = call

theorem callsOk_of_callsInv (hlife : LifeInv s k) (h : CallsInv k) :
    CallsOk k where
  once := h.once
  returned := h.returned
  pending := by
    intro q call t
    constructor
    · rintro ⟨hb, hnil⟩
      have hin := h.entered call t q hb hnil
      have hl : k.queues.link t = some (.wait q) := by
        by_contra hne
        cases hnil.symm.trans (h.stored t q call hin hne)
      exact ⟨(k.queues.mem_items _ _).mpr hl, ((hlife.ok t).wait q hl).1,
        waitCall_of_callIn hin⟩
    · rintro ⟨hmem, -, hcall⟩
      have hl := (k.queues.mem_items _ _).mp hmem
      obtain ⟨c, hc⟩ := callIn_of_blockedIn ((hlife.ok t).wait q hl).2
      have hcc : c = call := (waitCall_of_callIn hc).symm.trans hcall
      rw [hcc] at hc
      exact ⟨h.made t q call hc, h.waits t q call hc hl⟩

/-- The thread at the head of the list is in the oldest call. -/
theorem oldest_head (hlife : LifeInv s k) (h : CallsInv k)
    {q : WaitQueueRef} {ts : List Tid} (hcons : k.waitList q = t :: ts) :
    Oldest k q (k.waitCall t) t := by
  have hpending := (callsOk_of_callsInv hlife h).pending
  have hmem : t ∈ k.waitList q := by rw [hcons]; exact List.mem_cons_self
  have hl := (k.queues.mem_items _ _).mp hmem
  refine ⟨(hpending q _ t).mpr ⟨hmem, ((hlife.ok t).wait q hl).1, rfl⟩, ?_⟩
  intro c u hu
  obtain ⟨hmemu, -, rfl⟩ := (hpending q c u).mp hu
  have horder := h.order q
  rw [hcons] at hmemu horder
  rcases List.mem_cons.mp hmemu with rfl | hlater
  · exact Nat.le_refl _
  · exact Nat.le_of_lt ((List.pairwise_cons.mp horder).1 u hlater)

theorem insertInRunQueueHead_log (t : Tid) (k : Kernel) :
    Holds (insertInRunQueueHead t k) (fun k' => k'.log = k.log)
      (fun _ => True) := by
  rw [insertInRunQueueHead_eq_tail]
  cases hr : insertInRunQueueTail t k with
  | error e => trivial
  | ok k' =>
      obtain ⟨-, -, rfl⟩ := (insertInRunQueueTail_spec t k).of_ok hr
      rfl

/-- `wait_queue_wake_one` logs the transition it makes, and no other. -/
theorem waitQueueWakeOne_log {q : WaitQueueRef} {ts : List Tid}
    (hcons : k.waitList q = t :: ts) (reschedule : Bool) (error : Int) :
    Holds (waitQueueWakeOne q reschedule error k)
      (fun r => ∃ rest, r.2.log
          = k.log ++ .readied (k.waitCall t) t error :: rest ∧
        ∀ e ∈ rest, callOf e = none) (fun _ => True) := by
  have hitems : k.queues.items (.wait q) = t :: ts := hcons
  rw [waitQueueWakeOne, listRemoveHead]
  rw [hitems]
  dsimp only
  refine Holds.bind (Q := fun k1 => k1.log
    = k.log ++ [.readied (k.waitCall t) t error]) ?_ ?_
  · split_ifs
    · exact insertInRunQueueHead_log _ _
    · rfl
  · intro k1 hk1
    refine Holds.bind (insertInRunQueueHead_log t k1) ?_
    intro k2 hk2
    have hlog := hk2.trans hk1
    cases reschedule with
    | false => exact ⟨[], hlog, by simp⟩
    | true =>
        obtain ⟨e, hquiet, hres⟩ : ∃ e, callOf e = none ∧
            (threadResched (k2.pushFrame k.current
              (.afterResched .wakeOne 1))).log = k2.log ++ [e] :=
          ⟨_, rfl, log_threadResched _⟩
        refine ⟨[e], ?_, fun e' he' => by rwa [List.mem_singleton.mp he']⟩
        rw [hlog, List.append_assoc] at hres
        exact hres

/-- The code that an action leaves with the threads it wakes. -/
def wakeCode : Action → Option Int
  | .interrupt => some errTimedOut
  | .threadExit _ => some noErr
  | .threadDetach _ => some errThreadDetached
  | .waitQueueWakeOne _ _ error => some error
  | .waitQueueWakeAll _ _ error => some error
  | .waitQueueDestroy _ _ => some errObjectDestoryed
  | _ => none

/-- The moves of an action wake with its code. -/
def coded (s : Scope) (a : Action) : Scope :=
  { s with code := fun e => wakeCode a = some e }

theorem allowed_coded {a : Action} (h : Allowed s k a) :
    Allowed (coded s a) k a := by
  cases a with
  | interrupt => exact ⟨h.1, rfl⟩
  | threadUnblock thid resched => exact ⟨h.free, h.stays⟩
  | threadJoin thid w timeout =>
      exact ⟨h.allowed, h.reports, h.waits, h.listed, h.once⟩
  | threadDetach thid => exact ⟨h.allowed, h.often, h.alone, rfl⟩
  | threadExit retcode => exact rfl
  | waitQueueWakeOne q reschedule error => exact rfl
  | waitQueueWakeAll q reschedule error => exact rfl
  | waitQueueDestroy q reschedule => exact rfl
  | _ => exact h

/-- A transition is logged with a code of the scope. -/
theorem code_of_moves (hm : Moves s k k') {call : Nat} {t : Tid} {error : Int}
    (hr : Event.readied call t error ∈ k'.log) :
    Event.readied call t error ∈ k.log ∨ s.code error := by
  induction hm with
  | refl => exact .inl hr
  | @tail k1 k2 _ hmove ih =>
      have hback : Event.readied call t error ∈ k1.log ∨ s.code error := by
        cases hmove with
        | wake q u e hl hq hx hcode =>
            rcases List.mem_append.mp hr with hold | hnew
            · exact .inl hold
            · cases List.mem_singleton.mp hnew
              exact .inr hcode
        | dispatch hb hi hl hs =>
            rw [log_threadResched] at hr
            exact .inl (by simpa using hr)
        | _ => exact .inl (by simpa [blockedOn] using hr)
      exact hback.elim ih .inr

/-- **Every run**: each call is readied once at most, and once if it returned,
    with what it returned; a step readies with its own code only; and
    `wait_queue_wake_one` readies the oldest call, and no other. -/
theorem callsOk_of_reachable {b : Prop}
    (h : Reachable cfg (WaitQueueCall b) k) :
    CallsOk k ∧
      (∀ a k', Step cfg k a k' → WaitQueueCall b k a → ∀ call t error,
        Event.readied call t error ∈ k'.log →
          Event.readied call t error ∈ k.log ∨ wakeCode a = some error) ∧
      (inThread k → ∀ n reschedule error, k.waitList (.user n) ≠ [] →
        Holds (waitQueueWakeOne (.user n) reschedule error k)
          (fun r => ∃ call t rest, Oldest k (.user n) call t ∧
            r.2.log = k.log ++ .readied call t error :: rest ∧
            ∀ e ∈ rest, callOf e = none) (fun _ => ¬ b)) := by
  have hok : ∀ k a, Good (waiting b) k → WaitQueueCall b k a →
      Allowed (waiting b) k a := fun _ _ hg ha => ha.allowed hg
  have hgood : Good (waiting b) k := good_of_reachable hok h
  have hcalls : CallsInv k := by
    refine invariant_of_moves hok ?_ (fun _ _ => callsInv_move) h
    constructor
    · rintro _ ⟨⟩
    · rintro _ _ _ ⟨⟩
    · rintro _ _ _ _ _ ⟨⟩
    · rintro _ _ _ ⟨⟩
    · rintro _ _ _ ⟨⟩
    · rintro _ _ _ ⟨⟩
    · exact fun _ => Nat.zero_le 1
    · rintro _ _ _ ⟨⟩
    · exact fun _ => .nil
  refine ⟨callsOk_of_callsInv hgood.life hcalls, ?_, ?_⟩
  · intro a k' hst ha call t error hr
    have hmoves := (good_of_step (hgood.withCodes _ _)
      (allowed_coded (hok k a hgood ha)) hst).2
    exact code_of_moves hmoves hr
  · intro hin n reschedule error hne
    obtain ⟨t, ts, hcons⟩ := List.exists_cons_of_ne_nil hne
    have hlog := waitQueueWakeOne_log hcons reschedule error
    have hdone : Holds (waitQueueWakeOne (.user n) reschedule error k) _ _ :=
      waitQueueWakeOne_done hgood hin.2 hin.1 n reschedule trivial
    cases hx : waitQueueWakeOne (.user n) reschedule error k with
    | error e => exact not_of_excused (hdone.of_error hx)
    | ok r =>
        obtain ⟨rest, hrest, hquiet⟩ := hlog.of_ok hx
        exact ⟨k.waitCall t, t, rest, oldest_head hgood.life hcalls hcons,
          hrest, hquiet⟩

/-- Thread 3 wakes thread 1, and the timer of thread 1 expires before it
    runs; thread 2 goes on waiting. -/
def wokenThenExpired : List Action :=
  [.threadCreate 5, .goOn, .goOn, .goOn, .threadResume 1 true,
   .threadCreate 5, .goOn, .goOn, .goOn, .threadResume 2 true,
   .threadCreate 5, .goOn, .goOn, .goOn, .threadResume 3 true,
   .threadBecomeIdle, .goOn, .goOn, .waitQueueBlock 0 20, .goOn,
   .waitQueueBlock 0 infinitTime, .goOn, .waitQueueWakeOne 0 false 3,
   .interrupt, .interrupt, .interrupt, .threadYield, .goOn]

/-- The call of thread 1 returned what it was woken with. -/
theorem callsOk_of_wokenThenExpired :
    ∃ k, Reachable tenSlots (WaitQueueCall True) k ∧
      readies 0 k.log = [(1, 3)] ∧
      Holds (waitQueueWakeOne (.user 0) false 4 k)
        (fun r => ∃ call t rest, Oldest k (.user 0) call t ∧
          r.2.log = k.log ++ .readied call t 4 :: rest ∧
          ∀ e ∈ rest, callOf e = none) (fun _ => ¬ True) := by
  obtain ⟨k, hk, hin, hret, hne⟩ := exists_reachable_of_replay tenSlots
    (WaitQueueCall True) (fun k => inThread k ∧
      Event.returned 0 1 3 ∈ k.log ∧ k.waitList (.user 0) ≠ [])
    wokenThenExpired (by decide +kernel)
  obtain ⟨hok, -, hwake⟩ := callsOk_of_reachable hk
  exact ⟨k, hk, hok.returned 0 1 3 hret, hwake hin 0 false 4 hne⟩

end ChinixBlockingCalls

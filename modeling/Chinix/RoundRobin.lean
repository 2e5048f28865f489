import Chinix.HeadInsertion
import Chinix.RunQueueGrowth
import Chinix.CyclicOrder

/-! # Round robin

    The run queues followed by the running thread are the threads that can
    have the CPU, in the order in which `thread_resched` will give it to them
    while they all have one priority: a caller that gives it up goes to the
    end of its run queue, and the first one of the queue is taken.  When the
    last thread of a queue is taken its bit is cleared, and set again when the
    caller comes back. -/

namespace ChinixRoundRobin

open ChinixTimerQueue ChinixPlatformTimer ChinixKernel ChinixRunQueue
open ChinixWaitQueue ChinixThread ChinixMachine Outcome
open ChinixQueueInvariant ChinixQueueRuns ChinixHeadInsertion ChinixQuantum
open ChinixRunQueueGrowth CyclicOrder

variable {cfg : Config} {k k' k1 : Kernel} {t : Tid} {p quantum : Int}
  {ts : List Tid}

/-- The running thread, unless it is the idle thread. -/
def running (k : Kernel) : List Tid :=
  if k.current = idleThread then [] else [k.current]

/-- The threads that run or are on a run queue, the next one to be taken
    first. -/
def runnable (k : Kernel) : List Tid := readyThreads k ++ running k

/-- The threads `ts` are the runnable ones, each once, and have priority
    `p`. -/
structure OnlyRunnable (p : Int) (ts : List Tid) (k : Kernel) : Prop where
  perm : (runnable k).Perm ts
  priority : ∀ t ∈ ts, (k.threads t).priority = p

/-- The threads that `thread_resched` chose, in the order of the events. -/
def selected (events : List Event) : List Tid :=
  events.filterMap fun
    | .rescheduled new _ _ => some new
    | _ => none

/-! ## One choice -/

/-- **One choice**: the first ready thread runs, and comes last. -/
theorem runnable_threadResched (h : QueueInv False k) :
    runnable (threadResched k) = (readyThreads k).rotate 1 ∧
      (threadResched k).current = (readyThreads k).headD idleThread := by
  rw [threadResched_eq]
  rcases getNewThread_cases h.bitmap with ⟨hnil, hg⟩ |
      ⟨q, t, ts, hq, hcons, hlow, hg⟩
  · have hready : readyThreads k = [] :=
      flatMap_runQueue_nil fun q hq => hnil q (List.mem_range.mp hq)
    rw [hg, hready]
    refine ⟨?_, rfl⟩
    show readyThreads k ++ running { k with current := idleThread } = []
    rw [hready]
    rfl
  · have hready := readyThreads_dequeue hq hcons hlow
    have ht : t ≠ idleThread := by
      rintro rfl
      have hl := k.queues.link_of_items_cons hcons
      rw [h.idle_unlinked] at hl
      cases hl
    rw [hg, hready, List.rotate_cons_succ, List.rotate_zero]
    refine ⟨?_, rfl⟩
    show readyThreads (dequeue k q t) ++ running { k with current := t } = _
    rw [running, if_neg ht]

/-- `thread_resched` leaves the priorities as they are. -/
theorem priority_threadResched (k : Kernel) (t : Tid) :
    ((threadResched k).threads t).priority = (k.threads t).priority := by
  rw [threadResched_eq]
  by_cases ht : t = (getNewThread k).1
  · subst ht
    simp [scheduled]
  · simp [ht]

/-- While they have one priority, the ready threads are on one run queue. -/
theorem readyThreads_of_priority (h : QueueInv False k)
    (hp : ∀ t ∈ readyThreads k, (k.threads t).priority = p) :
    readyThreads k = k.runQueue p.toNat := by
  have hother : ∀ q, q ≠ p.toNat → k.runQueue q = [] := by
    intro q hq
    refine List.eq_nil_iff_forall_not_mem.mpr fun t ht => hq ?_
    obtain ⟨hprio, hlt⟩ := h.run t q ((k.queues.mem_items _ _).mp ht)
    have hready : t ∈ readyThreads k :=
      List.mem_flatMap.mpr ⟨q, List.mem_range.mpr hlt, ht⟩
    rw [← hp t hready, hprio, Int.toNat_natCast]
  by_cases hlt : p.toNat < numPriority
  · have hlow : (List.range p.toNat).flatMap k.runQueue = [] :=
      flatMap_runQueue_nil fun q hq =>
        hother q (Nat.ne_of_lt (List.mem_range.mp hq))
    have hhigh : (List.range' (p.toNat + 1)
        (numPriority - (p.toNat + 1))).flatMap k.runQueue = [] := by
      refine flatMap_runQueue_nil fun q hq => hother q ?_
      have := (List.mem_range'_1.mp hq).1
      omega
    rw [readyThreads_split k hlt, hlow, hhigh, List.nil_append,
      List.append_nil]
  · -- no thread is on a queue that there is not
    have hnone : k.runQueue p.toNat = [] := by
      refine List.eq_nil_iff_forall_not_mem.mpr fun t ht => hlt ?_
      exact (h.run t _ ((k.queues.mem_items _ _).mp ht)).2
    rw [hnone]
    refine flatMap_runQueue_nil fun q hq => hother q ?_
    have := List.mem_range.mp hq
    omega

theorem readyThreads_of_onlyRunnable (hr : OnlyRunnable p ts k)
    (h : QueueInv False k) : readyThreads k = k.runQueue p.toNat :=
  readyThreads_of_priority h fun t ht =>
    hr.priority t (hr.perm.mem_iff.mp (List.mem_append_left _ ht))

/-! ## One step -/

theorem selected_of_quiet {events : List Event}
    (h : ∀ e ∈ events, ∀ new p queued, e ≠ .rescheduled new p queued) :
    selected events = [] := by
  refine List.filterMap_eq_nil_iff.mpr fun e he => ?_
  cases e with
  | rescheduled new p queued => exact absurd rfl (h _ he new p queued)
  | _ => rfl

theorem selected_append (es es' : List Event) :
    selected (es ++ es') = selected es ++ selected es' :=
  List.filterMap_append

/-- Two arrangements of the runnable threads that differ at the end only, by
    one thread at most. -/
theorem append_running_eq {added : List Tid}
    (h : (readyThreads k ++ added).Perm (runnable k)) :
    readyThreads k ++ added = runnable k := by
  have hadded := (List.perm_append_left_iff _).mp h
  rw [runnable]
  congr 1
  rw [running] at hadded ⊢
  split_ifs at hadded ⊢
  · exact List.perm_nil.mp hadded
  · exact List.perm_singleton.mp hadded

/-- A call that keeps the CPU and adds no runnable thread. -/
theorem runnable_of_grows (h : QueueInv False k) (hr : OnlyRunnable p ts k)
    (hg : Grows k k') (h' : QueueInv False k') (hr' : OnlyRunnable p ts k') :
    runnable k' = runnable k := by
  obtain ⟨added, hadded⟩ := hg.runQueue p.toNat
  have hrun : running k' = running k := by
    rw [running, running, hg.current]
  have hready : readyThreads k' = readyThreads k ++ added := by
    rw [readyThreads_of_onlyRunnable hr' h', hadded,
      readyThreads_of_onlyRunnable hr h]
  -- nothing was added, as the number of runnable threads is the same
  have hlen := (hr'.perm.trans hr.perm.symm).length_eq
  rw [runnable, runnable, hready, hrun] at hlen
  simp only [List.length_append] at hlen
  have hnil : added = [] := List.eq_nil_of_length_eq_zero (by omega)
  rw [runnable, hready, hnil, List.append_nil, hrun, runnable]

/-- The threads that are ready when `thread_resched` runs are the runnable
    ones, the caller behind the others. -/
theorem readyThreads_of_choice (h : QueueInv False k)
    (hr : OnlyRunnable p ts k) {ke : Kernel} (hke : Before k quantum ke)
    (hr' : OnlyRunnable p ts (threadResched ke)) :
    readyThreads ke = runnable k := by
  obtain ⟨added, hadded⟩ := hke.grows.runQueue p.toNat
  have hperm : (readyThreads ke).Perm ts := by
    refine .trans ?_ hr'.perm
    rw [(runnable_threadResched hke.inv).1]
    exact (List.rotate_perm _ 1).symm
  have hprio : ∀ t ∈ readyThreads ke, (ke.threads t).priority = p := by
    intro t ht
    rw [← priority_threadResched]
    exact hr'.priority t (hperm.mem_iff.mp ht)
  have hqueue : readyThreads ke = readyThreads k ++ added := by
    rw [readyThreads_of_priority hke.inv hprio, hadded,
      readyThreads_of_onlyRunnable hr h]
  rw [hqueue] at hperm ⊢
  exact append_running_eq (hperm.trans hr.perm.symm)

/-- **One step**, after which the same threads are runnable: it has chosen
    none, or the next one, which is the last one now. -/
theorem step_rotates (h : QueueInv False k) (hts : ts ≠ [])
    (hr : OnlyRunnable p ts k) (hr' : OnlyRunnable p ts k') {a : Action}
    (hstep : Step cfg k a k') :
    ∃ events, k'.log = k.log ++ events ∧
      (selected events = [] ∧ runnable k' = runnable k ∨
        ∃ t, selected events = [t] ∧ (runnable k).head? = some t ∧
          runnable k' = (runnable k).rotate 1) := by
  have hinv' : QueueInv False k' :=
    (exec_queueInv h hstep.1 (fun hf => hf.elim)).of_ok hstep.2
  rcases (exec_ends h hstep.1).of_ok hstep.2 with hg | ⟨ke, hke, rfl⟩
  · obtain ⟨events, hlog, hno⟩ := hg.quiet
    exact ⟨events, hlog, .inl
      ⟨selected_of_quiet hno, runnable_of_grows h hr hg hinv' hr'⟩⟩
  · obtain ⟨events, hlog, hno⟩ := hke.grows.quiet
    obtain ⟨hrot, hcur⟩ := runnable_threadResched hke.inv
    have hready := readyThreads_of_choice h hr hke hr'
    obtain ⟨t, rest, hcons⟩ : ∃ t rest, runnable k = t :: rest := by
      refine List.exists_cons_of_ne_nil fun hnil => hts ?_
      have hperm := hr.perm
      rw [hnil] at hperm
      exact hperm.symm.eq_nil
    rw [hready] at hrot hcur
    have hchoice := log_threadResched ke
    rw [hlog, List.append_assoc] at hchoice
    refine ⟨_, hchoice, .inr ⟨t, ?_, ?_, hrot⟩⟩
    · rw [selected_append, selected_of_quiet hno, hcur, hcons]
      rfl
    · rw [hcons, List.head?_cons]

/-! ## Steps after which the same threads are runnable -/

theorem readyThreads_enqueue (hl : k.queues.link t = none)
    (hp : PriorityOk (k.threads t).priority) :
    (readyThreads (enqueue k t)).Perm (readyThreads k ++ [t]) := by
  have hq := hp.toNat_lt
  have hother : ∀ q, q ≠ (k.threads t).priority.toNat →
      (enqueue k t).runQueue q = k.runQueue q := by
    intro q hne
    rw [runQueue_enqueue hl, if_neg hne]
  have hlow : (List.range (k.threads t).priority.toNat).flatMap
      (enqueue k t).runQueue =
        (List.range (k.threads t).priority.toNat).flatMap k.runQueue :=
    List.flatMap_congr fun q hmem =>
      hother q (Nat.ne_of_lt (List.mem_range.mp hmem))
  rw [readyThreads_split _ hq, readyThreads_split k hq, hlow,
    runQueue_enqueue hl, if_pos rfl, List.append_assoc, List.append_assoc,
    List.append_assoc]
  refine List.Perm.append_left _ (List.Perm.append_left _ ?_)
  have hhigh : (List.range' ((k.threads t).priority.toNat + 1)
        (numPriority - ((k.threads t).priority.toNat + 1))).flatMap
      (enqueue k t).runQueue =
        (List.range' ((k.threads t).priority.toNat + 1)
          (numPriority - ((k.threads t).priority.toNat + 1))).flatMap
        k.runQueue := by
    refine List.flatMap_congr fun q hmem => hother q ?_
    have := (List.mem_range'_1.mp hmem).1
    omega
  rw [hhigh]
  exact List.perm_append_comm

/-- What the runnable threads and their priorities do not depend on. -/
theorem OnlyRunnable.congr (hr : OnlyRunnable p ts k)
    (hc : k'.current = k.current) (hq : k'.queues = k.queues)
    (hp : ∀ t, (k'.threads t).priority = (k.threads t).priority) :
    OnlyRunnable p ts k' where
  perm := by
    have hrun : k'.runQueue = k.runQueue := by
      funext q
      rw [Kernel.runQueue, hq]
      rfl
    rw [runnable, readyThreads, hrun, running, hc]
    exact hr.perm
  priority := fun t ht => (hp t).trans (hr.priority t ht)

theorem OnlyRunnable.setCurrent (hr : OnlyRunnable p ts k)
    (f : Thread → Thread)
    (hf : (f (k.threads k.current)).priority =
      (k.threads k.current).priority) :
    OnlyRunnable p ts (k.setThread k.current f) := by
  refine hr.congr rfl rfl fun t => ?_
  by_cases ht : t = k.current
  · subst ht
    simpa using hf
  · simp [ht]

/-- A choice among the threads `ts` leaves them runnable. -/
theorem onlyRunnable_threadResched (h : QueueInv False k)
    (hperm : (readyThreads k).Perm ts)
    (hp : ∀ t ∈ ts, (k.threads t).priority = p) :
    OnlyRunnable p ts (threadResched k) where
  perm := by
    rw [(runnable_threadResched h).1]
    exact (List.rotate_perm _ 1).trans hperm
  priority := fun t ht => (priority_threadResched k t).trans (hp t ht)

/-- A caller that goes back to its run queue and gives up the CPU. -/
theorem OnlyRunnable.yield (hr : OnlyRunnable p ts k) (h : QueueInv False k)
    (hb : booted k = true) (op : Op) :
    Holds (do
        let k1 ← (if threadIsIdle k k.current then pure k
          else insertInRunQueueTail k.current k)
        return threadResched (k1.pushFrame k.current (.afterResched op 0)))
      (OnlyRunnable p ts) (fun _ => True) := by
  refine Holds.bind (Q := fun k1 => QueueInv False k1 ∧
    (readyThreads k1).Perm ts ∧ ∀ t ∈ ts, (k1.threads t).priority = p) ?_ ?_
  · split_ifs with hidle
    · refine ⟨h, ?_, hr.priority⟩
      have hperm := hr.perm
      rwa [runnable, running, if_pos (h.flag _ hidle), List.append_nil]
        at hperm
    · have hne := ne_idle_of_not_flag hb hidle
      refine ((insert_queueInv h hne).and
        (insertInRunQueueTail_spec k.current k)).partly ?_
      rintro k1 ⟨⟨hinv, -⟩, hl, hp, rfl⟩
      refine ⟨hinv, (readyThreads_enqueue hl hp).trans ?_, hr.priority⟩
      have hperm := hr.perm
      rwa [runnable, running, if_neg hne] at hperm
  · rintro k1 ⟨hinv, hperm, hp⟩
    exact onlyRunnable_threadResched (hinv.pushAfterResched op 0) hperm hp

theorem threadYield_onlyRunnable (hr : OnlyRunnable p ts k)
    (h : QueueInv False k) (hb : booted k = true) :
    Holds (threadYield k) (OnlyRunnable p ts) (fun _ => True) :=
  (hr.setCurrent (fun th =>
      { th with state := .ready, remainingQuantum := 0 }) rfl).yield
    (h.setThread _ rfl rfl rfl) ((booted_setThread _ rfl).trans hb) .yield

theorem threadPreempt_onlyRunnable (hr : OnlyRunnable p ts k)
    (h : QueueInv False k) (hb : booted k = true) :
    Holds (threadPreempt k) (OnlyRunnable p ts) (fun _ => True) := by
  have hr1 : OnlyRunnable p ts (k.emit (.preempted k.current)) :=
    hr.congr rfl rfl fun _ => rfl
  have hdone := (hr1.setCurrent (fun th => { th with state := .ready })
    rfl).yield ((h.emit (by simp)).setState .ready)
      ((booted_setThread _ rfl).trans hb) .preempt
  dsimp only [threadPreempt]
  simp only [insertInRunQueueHead_eq_tail, ite_self]
  exact hdone

/-- `timer_tick` runs no callback if no timer is due. -/
theorem timerTickLoop_none {now : Time} (hdue : dueAt k now = []) (n : Nat)
    (ret : HandlerReturn) :
    timerTickLoop timerHost now (n + 1) ret k = .ok (ret, k) := by
  have hget : (timerHost.get k).queue = k.timerQueue.queue := rfl
  rw [timerTickLoop, hget]
  rw [dueAt] at hdue
  cases hq : k.timerQueue.queue with
  | nil => rfl
  | cons timer rest =>
      have hlater : now < (k.timerQueue.timers timer).schedTime := by
        by_contra hle
        rw [hq, List.takeWhile_cons_of_pos (by simpa using hle)] at hdue
        cases hdue
      exact if_pos hlater

/-- The timer interrupt, if no timer is due. -/
theorem x64ExceptionHandler_onlyRunnable (hr : OnlyRunnable p ts k)
    (h : QueueInv False k) (hb : booted k = true) (hdue : dueTimers k = []) :
    Holds (x64ExceptionHandler k) (OnlyRunnable p ts) (fun _ => True) := by
  have hisr : Holds (osTimerTickIsr k) (fun r => OnlyRunnable p ts r.2)
      (fun _ => True) := by
    have hclock : ∀ pl, OnlyRunnable p ts { k with platform := pl } := fun _ =>
      hr.congr rfl rfl fun _ => rfl
    rw [osTimerTickIsr]
    rw [dueTimers] at hdue
    cases htick : osTimerTick k.platform with
    | mk time pl =>
        rw [htick] at hdue
        cases time with
        | none => exact hclock pl
        | some now =>
            have hnone : dueAt { k with platform := pl } now = [] := hdue
            dsimp only
            rw [timerTick]
            rw [timerTickLoop_none hnone]
            rw [ok_bind]
            show OnlyRunnable p ts
              (threadTimerTick { k with platform := pl }).2
            rw [threadTimerTick_snd]
            exact (hclock pl).setCurrent _ rfl
  refine Holds.bind (((osTimerTickIsr_queueInv h).and hisr).partly
    fun _ hr => hr) ?_
  rintro ⟨ret, k1⟩ ⟨⟨hinv, hb1⟩, hr1⟩
  dsimp only
  split_ifs
  · exact threadPreempt_onlyRunnable hr1 hinv (hb1.trans hb)
  · exact hr1

/-! ## Every run -/

/-- Control changes only through `thread_yield` or `thread_preempt` on an
    exhausted quantum, by a call or in a timer interrupt that wakes nobody;
    whatever else happens leaves the threads `ts` the only runnable ones. -/
def Rotating (cfg : Config) (p : Int) (ts : List Tid) (k : Kernel)
    (a : Action) : Prop :=
  a = .threadYield ∨
    a = .threadPreempt ∧ (k.threads k.current).remainingQuantum ≤ 0 ∨
    a = .interrupt ∧ dueTimers k = [] ∨
    ∀ k', exec cfg a k = .ok k' → OnlyRunnable p ts k'

theorem onlyRunnable_of_rotating (hr : OnlyRunnable p ts k)
    (h : QueueInv False k) {a : Action} (ha : Rotating cfg p ts k a)
    (hstep : Step cfg k a k') : OnlyRunnable p ts k' := by
  obtain ⟨hen, hx⟩ := hstep
  rcases ha with rfl | ⟨rfl, -⟩ | ⟨rfl, hdue⟩ | hkeeps
  · have hb := QueueInv.booted_of_inThread h hen
    exact (threadYield_onlyRunnable hr h hb).of_ok hx
  · have hb := QueueInv.booted_of_inThread h hen
    exact (threadPreempt_onlyRunnable hr h hb).of_ok hx
  · exact (x64ExceptionHandler_onlyRunnable hr h hen.1 hdue).of_ok hx
  · exact hkeeps k' hx

/-- What a run from `k` has chosen, and the order it has come to. -/
def Rotated (k k' : Kernel) : Prop :=
  ∃ events, k'.log = k.log ++ events ∧
    Cycles (runnable k) (selected events) ∧
    runnable k' = (runnable k).rotate (selected events).length

theorem Rotated.start (k : Kernel) : Rotated k k :=
  ⟨[], (List.append_nil _).symm, Cycles.nil _, (List.rotate_zero _).symm⟩

theorem Rotated.step (h : Rotated k k1) (hinv : QueueInv False k1)
    (hts : ts ≠ []) (hr : OnlyRunnable p ts k1) (hr' : OnlyRunnable p ts k')
    {a : Action} (hstep : Step cfg k1 a k') : Rotated k k' := by
  obtain ⟨events, hlog, hcycles, hrot⟩ := h
  obtain ⟨es, hes, hcase⟩ := step_rotates hinv hts hr hr' hstep
  refine ⟨events ++ es, ?_, ?_⟩
  · rw [hes, hlog, List.append_assoc]
  · rw [selected_append]
    rcases hcase with ⟨hnone, hsame⟩ | ⟨t, hone, hfirst, hnext⟩
    · rw [hnone, List.append_nil, hsame]
      exact ⟨hcycles, hrot⟩
    · rw [hrot] at hfirst
      rw [hone]
      refine ⟨hcycles.concat hfirst, ?_⟩
      rw [hnext, hrot, List.rotate_rotate, List.length_append,
        List.length_singleton]

/-- **Round robin**: in every run in which the threads `ts` of one priority
    stay the only runnable ones, `thread_resched` goes round them in one
    cyclic order, so that as many consecutive choices as there are threads
    choose each of them once. -/
theorem selected_cycles (h : Reachable cfg AnyCall k) (hts : ts ≠ [])
    (hr : OnlyRunnable p ts k)
    (hrun : Runs.Reachable k (Step cfg) (Rotating cfg p ts) k') :
    ∃ events, k'.log = k.log ++ events ∧
      Cycles (runnable k) (selected events) ∧
      ∀ i, i + ts.length ≤ (selected events).length →
        (((selected events).drop i).take ts.length).Perm ts := by
  have hinv : ∀ k1, Runs.Reachable k (Step cfg) (Rotating cfg p ts) k1 →
      QueueInv False k1 := by
    intro k1 hk1
    refine queueInv_of_reachable (fun _ _ _ hf => hf.elim) (h.trans ?_)
    exact hk1.weaken (J := fun _ => True) (fun _ _ => trivial)
      fun _ _ _ _ => trivial
  have hall : OnlyRunnable p ts k' ∧ Rotated k k' := by
    refine Runs.Reachable.invariant_under
      (I := fun k1 => OnlyRunnable p ts k1 ∧ Rotated k k1) hinv
      ⟨hr, .start k⟩ ?_ hrun
    rintro k1 a k2 hk1 ⟨hr1, hrot⟩ ha hstep
    have hr2 := onlyRunnable_of_rotating hr1 hk1 ha hstep
    exact ⟨hr2, hrot.step hk1 hts hr1 hr2 hstep⟩
  obtain ⟨events, hlog, hcycles, -⟩ := hall.2
  refine ⟨events, hlog, hcycles, fun i hi => ?_⟩
  have hlen := hr.perm.length_eq
  rw [← hlen] at hi ⊢
  exact (hcycles.window_perm hi).trans hr.perm

instance (k : Kernel) : Decidable (OnlyRunnable p ts k) :=
  decidable_of_iff ((runnable k).Perm ts ∧
      ∀ t ∈ ts, (k.threads t).priority = p)
    ⟨fun h => ⟨h.1, h.2⟩, fun h => ⟨h.perm, h.priority⟩⟩

instance (k : Kernel) (a : Action) : Decidable (Rotating cfg p ts k a) := by
  have hkeeps : Decidable (∀ k', exec cfg a k = .ok k' →
      OnlyRunnable p ts k') :=
    decidable_of_iff ((exec cfg a k).toOption.all
        (fun k' => OnlyRunnable p ts k') = true) (by
      cases exec cfg a k <;> simp [Except.toOption])
  unfold Rotating
  infer_instance

/-- Three created threads of priority 5; the first one runs. -/
def threePeers : List Action :=
  [.threadCreate 5, .goOn, .goOn, .goOn, .threadResume 1 true,
   .threadCreate 5, .goOn, .goOn, .goOn, .threadResume 2 true,
   .threadCreate 5, .goOn, .goOn, .goOn, .threadResume 3 true,
   .threadBecomeIdle, .goOn, .goOn]

/-- Thread 1 yields, thread 2 runs until its quantum is exhausted, threads 3
    and 1 yield. -/
def fourChoices : List Action :=
  [.threadYield, .goOn, .interrupt, .interrupt, .interrupt, .interrupt,
   .interrupt, .interrupt, .goOn, .threadYield, .goOn, .threadYield]

theorem selected_cycles_fourChoices :
    ∃ k events, Reachable tenSlots AnyCall k ∧
      OnlyRunnable 5 [1, 2, 3] k ∧ selected events = [2, 3, 1, 2] ∧
      Cycles (runnable k) (selected events) ∧
      ∀ i, i + 3 ≤ 4 →
        (((selected events).drop i).take 3).Perm [1, 2, 3] := by
  obtain ⟨k, hk, hr, hany⟩ := exists_reachable_of_replay tenSlots AnyCall
    (fun k => OnlyRunnable 5 [1, 2, 3] k ∧
      (replay tenSlots (Rotating tenSlots 5 [1, 2, 3]) fourChoices k).any
        (fun k' => selected (k'.log.drop k.log.length) = [2, 3, 1, 2]) = true)
    threePeers (by decide +kernel)
  obtain ⟨k', hk', hsel⟩ := (Option.any_eq_true _ _).mp hany
  obtain ⟨events, hlog, hcycles, hround⟩ := selected_cycles hk (by simp) hr
    (reachable_of_replay tenSlots .start hk')
  have hsel' := of_decide_eq_true hsel
  rw [hlog, List.drop_left] at hsel'
  refine ⟨k, events, hk, hr, hsel', hcycles, fun i hi => hround i ?_⟩
  rw [hsel']
  exact hi

end ChinixRoundRobin

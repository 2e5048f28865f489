import Chinix.PreemptLock
import Chinix.RoundRobin
import Mathlib.Order.Lattice

/-! # How long a thread keeps the CPU

    `thread_timer_tick` takes one off `remaining_quantum` at every timer tick
    and asks for `thread_preempt` when nothing is left, unless preemption is
    disabled; `thread_resched` fills up a used-up quantum to 5 and nothing
    else raises one.  So no quantum is ever above 5, and as long as preemption
    is enabled a thread is past its fourth tick only if `thread_resched` has
    run. -/

namespace ChinixTimeSlices

open ChinixTimerQueue ChinixPlatformTimer ChinixKernel ChinixRunQueue
open ChinixWaitQueue ChinixThread ChinixMachine Outcome
open ChinixQueueInvariant ChinixQueueRuns ChinixPreemptLock ChinixQuantum
open ChinixRunQueueGrowth ChinixRoundRobin

variable {cfg : Config} {k k' : Kernel}

/-! ## No quantum is above 5 -/

theorem slice_threadResched (k : Kernel) (u : Tid) :
    ((threadResched k).threads u).remainingQuantum
      ≤ max (k.threads u).remainingQuantum 5 := by
  rw [threadResched_eq]
  by_cases hu : u = (getNewThread k).1
  · subst hu
    simp only [Function.update_self, scheduled]
    split_ifs <;> omega
  · simp [hu]

theorem remainingQuantum_le (h : Reachable cfg AnyCall k) :
    ∀ u, (k.threads u).remainingQuantum ≤ 5 := by
  have hinv : ∀ k, Reachable cfg AnyCall k → QueueInv False k := fun _ hk =>
    queueInv_of_reachable (fun _ _ _ hf => hf.elim) hk
  refine Runs.Reachable.invariant_under
    (I := fun k => ∀ u, (k.threads u).remainingQuantum ≤ 5) hinv ?_ ?_ h
  · intro u
    by_cases hu : u = idleThread
    · subst hu
      simp [bootKernel, Thread.zero]
    · simp [bootKernel, Thread.zero, hu]
  · intro k1 a k2 hq hle _ hstep u
    rcases (exec_ends hq hstep.1).of_ok hstep.2 with hg | ⟨ke, hke, rfl⟩
    · have := hg.slice u
      have := hle u
      omega
    · have := slice_threadResched ke u
      have := hke.grows.slice u
      have := hle u
      omega

/-! ## A tick without a dispatch -/

/-- The interrupt is a timer tick: `os_timer_tick` calls `timer_tick`. -/
def TimerTick (k : Kernel) (a : Action) : Prop :=
  a = .interrupt ∧ (osTimerTick k.platform).1.isSome = true

instance (k : Kernel) (a : Action) : Decidable (TimerTick k a) :=
  inferInstanceAs (Decidable (_ ∧ _))

/-- `thread_timer_tick` asks for nothing before the quantum is used up. -/
theorem threadTimerTick_noReschedule (hlock : k.preemptLock = 0)
    (h : (threadTimerTick k).1 = .noReschedule) :
    1 < (k.threads k.current).remainingQuantum := by
  by_contra hle
  rw [threadTimerTick, if_pos] at h
  · cases h
  · refine ⟨?_, by simpa [threadPreemptIsEnabled] using hlock⟩
    simp only [Kernel.setThread_threads, Function.update_self]
    omega

/-- `timer_tick` asks for nothing when neither a callback nor
    `thread_timer_tick` does. -/
theorem timerTick_noReschedule {ret r : HandlerReturn}
    (h : (if r = .reschedule then HandlerReturn.reschedule else ret)
      = .noReschedule) : ret = .noReschedule ∧ r = .noReschedule := by
  cases r
  · exact ⟨h, rfl⟩
  · cases h

/-- A tick that asks for nothing takes one off a quantum that is not used up
    by it, unless preemption is disabled. -/
theorem osTimerTickIsr_noReschedule (hinv : QueueInv False k)
    (hlock : k.preemptLock = 0)
    (htick : (osTimerTick k.platform).1.isSome = true) :
    Holds (osTimerTickIsr k)
      (fun r => r.1 = .noReschedule →
        (r.2.threads k.current).remainingQuantum
          = (k.threads k.current).remainingQuantum - 1 ∧
        1 < (k.threads k.current).remainingQuantum)
      (fun _ => True) := by
  rw [osTimerTickIsr]
  rcases hp : osTimerTick k.platform with ⟨_ | now, p⟩
  · rw [hp] at htick
    cases htick
  · have hclock : QueueInv False { k with platform := p } :=
      hinv.congr rfl rfl rfl rfl rfl rfl rfl rfl rfl
    dsimp only
    rw [timerTick]
    refine Holds.bind ((timerTickLoop_expired hclock now).partly
      fun _ hr => hr) ?_
    rintro ⟨ret, w⟩ ⟨hw, -⟩ hno
    -- no callback has asked either, so that none has changed a thread
    obtain ⟨hret, htick'⟩ := timerTick_noReschedule hno
    obtain ⟨hthreads, -, hcur⟩ := hw.quiet hret
    have hcur' : w.current = k.current := hcur
    have hthreads' : w.threads = k.threads := hthreads
    have hleft := threadTimerTick_noReschedule (hw.lock.trans hlock) htick'
    rw [hcur', hthreads'] at hleft
    refine ⟨?_, hleft⟩
    show ((threadTimerTick w).2.threads k.current).remainingQuantum = _
    rw [threadTimerTick_snd]
    simp only [Kernel.setThread_threads, hcur', Function.update_self, hthreads']

/-- `thread_preempt` ends with `thread_resched`. -/
theorem threadPreempt_dispatches (k : Kernel) :
    Holds (threadPreempt k)
      (fun k' => ∃ ke, k' = threadResched ke ∧ k.log <+: ke.log)
      (fun _ => True) := by
  dsimp only [threadPreempt]
  refine Holds.bind (Q := TimersKept
    ((k.emit (.preempted k.current)).setState k.current .ready)) ?_ ?_
  · split_ifs
    · exact ⟨rfl, rfl, List.prefix_refl _⟩
    · exact insertInRunQueueHead_kept _ _
    · exact insertInRunQueueTail_kept _ _
  · rintro k1 ⟨-, -, hlog⟩
    exact ⟨_, rfl, (List.prefix_append _ _).trans hlog⟩

/-- A step that dispatches no thread, and that is no interrupt while
    preemption is disabled. -/
def Undispatched (cfg : Config) (k : Kernel) (a : Action) : Prop :=
  (a = .interrupt → k.preemptLock = 0) ∧
    (exec cfg a k).toOption.all
      (fun k' => selected (k'.log.drop k.log.length) = []) = true

instance (k : Kernel) (a : Action) : Decidable (Undispatched cfg k a) :=
  inferInstanceAs (Decidable (_ ∧ _))

/-- A dispatch shows in the log. -/
theorem selected_threadResched {ke : Kernel} (h : k.log <+: ke.log) :
    selected ((threadResched ke).log.drop k.log.length) ≠ [] := by
  obtain ⟨events, hlog⟩ := h
  rw [log_threadResched, ← hlog, List.append_assoc, List.drop_left,
    selected_append]
  simp [selected]

/-- What a step without a dispatch does to the quantum of the thread that
    keeps the CPU. -/
theorem undispatched_step (h : QueueInv False k) {a : Action}
    (hstep : Step cfg k a k') (hno : Undispatched cfg k a) :
    k'.current = k.current ∧
      (k'.threads k.current).remainingQuantum
        ≤ max (k.threads k.current).remainingQuantum 0 ∧
      (TimerTick k a →
        (k'.threads k.current).remainingQuantum
          = (k.threads k.current).remainingQuantum - 1 ∧
        1 < (k.threads k.current).remainingQuantum) := by
  obtain ⟨hlock, hquiet⟩ := hno
  rw [hstep.2] at hquiet
  have hsel : selected (k'.log.drop k.log.length) = [] := by
    simpa [Except.toOption] using hquiet
  have hgrows : Grows k k' := by
    rcases (exec_ends h hstep.1).of_ok hstep.2 with hg | ⟨ke, hke, rfl⟩
    · exact hg
    · obtain ⟨events, hlog, -⟩ := hke.grows.quiet
      exact absurd hsel (selected_threadResched ⟨events, hlog.symm⟩)
  refine ⟨hgrows.current, hgrows.slice _, ?_⟩
  rintro ⟨rfl, htick⟩
  have hexec : x64ExceptionHandler k = .ok k' := hstep.2
  rw [x64ExceptionHandler] at hexec
  obtain ⟨⟨ret, k1⟩, hisr, hrest⟩ := bind_eq_ok.mp hexec
  by_cases hret : ret = .reschedule
  · dsimp only at hrest
    rw [if_pos hret] at hrest
    obtain ⟨events, hlog, -⟩ := ((osTimerTickIsr_before h).of_ok hisr).1.quiet
    obtain ⟨ke, rfl, hlog'⟩ := (threadPreempt_dispatches k1).of_ok hrest
    have hpre : k.log <+: ke.log := .trans ⟨events, hlog.symm⟩ hlog'
    exact absurd hsel (selected_threadResched hpre)
  · dsimp only at hrest
    rw [if_neg hret] at hrest
    cases hrest
    refine (osTimerTickIsr_noReschedule h (hlock rfl) htick).of_ok hisr ?_
    cases ret
    · rfl
    · exact absurd rfl hret

/-! ## Runs without a dispatch -/

/-- The timer ticks of a run. -/
def timerTicks (cfg : Config) : List Action → Kernel → Nat
  | [], _ => 0
  | a :: rest, k =>
      (if TimerTick k a then 1 else 0) +
        match exec cfg a k with
        | .ok k => timerTicks cfg rest k
        | .error _ => 0

/-- Ticks use up the quantum: while no thread is dispatched and preemption is
    enabled, there are fewer of them than it had left. -/
theorem timerTicks_lt_quantum (h : Reachable cfg AnyCall k)
    {as : List Action} (hrun : replay cfg (Undispatched cfg) as k = some k') :
    k'.current = k.current ∧ (timerTicks cfg as k ≠ 0 →
      (timerTicks cfg as k : Int)
        < (k.threads k.current).remainingQuantum) := by
  induction as generalizing k with
  | nil =>
      cases hrun
      exact ⟨rfl, fun hne => absurd rfl hne⟩
  | cons a rest ih =>
      rw [replay] at hrun
      by_cases hok : Enabled cfg a k ∧ Undispatched cfg k a
      · rw [if_pos hok] at hrun
        cases hx : exec cfg a k with
        | error e =>
            rw [hx] at hrun
            cases hrun
        | ok k1 =>
            rw [hx] at hrun
            have hinv : QueueInv False k :=
              queueInv_of_reachable (fun _ _ _ hf => hf.elim) h
            have hstep : Step cfg k a k1 := ⟨hok.1, hx⟩
            obtain ⟨hcur, hslice, htick⟩ := undispatched_step hinv hstep hok.2
            obtain ⟨hcur', hrest⟩ := ih (.next a h trivial hstep) hrun
            rw [hcur] at hcur' hrest
            refine ⟨hcur', fun hne => ?_⟩
            rw [timerTicks, hx] at hne ⊢
            dsimp only at hne ⊢
            by_cases ht : TimerTick k a
            · obtain ⟨hone, hleft⟩ := htick ht
              rw [if_pos ht]
              by_cases hzero : timerTicks cfg rest k1 = 0
              · rw [hzero]
                exact hleft
              · have := hrest hzero
                push_cast
                omega
            · rw [if_neg ht] at hne ⊢
              have := hrest fun hzero => hne (by rw [hzero])
              push_cast
              omega
      · rw [if_neg hok] at hrun
        cases hrun

/-- Thread 2 has been given the CPU and a quantum of 5. -/
def freshSlice : List Action := threePeers ++ [.threadYield, .goOn]

end ChinixTimeSlices

import Chinix.Outcome
import Mathlib.Algebra.Group.Nat.Defs
import Mathlib.Logic.Function.Basic
import Mathlib.Data.List.Nodup

/-! # The timer queue (kernel/timer.c)

    `timer_queue` holds the armed timers in the order in which they fall due.
    A timer is an object at an address `R` that the caller provides; its
    callback, together with the argument it is armed with, is a value of `C`.
    What a callback does is not known here: `TimerHost` says where in the
    state `W` of the machine the queue lives and what running a callback does
    to that state, which may include arming and cancelling timers. -/

namespace ChinixTimerQueue

/-- `time_t`. -/
abbrev Time := BitVec 64

/-- `INFINIT_TIME`. -/
def infinitTime : Time := 0xFFFFFFFF#64

/-- `enum handler_return`. -/
inductive HandlerReturn where
  | noReschedule
  | reschedule
  deriving DecidableEq, Repr

variable {R C W F : Type}

/-- `timer_t`, without its list node. -/
structure Timer (C : Type) where
  schedTime : Time
  periodicTime : Time
  callback : Option C

/-- `TIMER_INITIAL_VALUE`. -/
def Timer.initial : Timer C := ⟨0, 0, none⟩

/-- The timers and `timer_queue`, which links each of them at most once. -/
structure TimerQueue (R C : Type) where
  timers : R → Timer C
  queue : List R
  nodup : queue.Nodup

/-- What a fault of the timer code is. -/
inductive TimerFault where
  | linkedTwice
  | nullCallback
  | endless
  deriving DecidableEq, Repr

/-- The loop of `insert_timer_in_queue`: before the first entry that is due
    strictly later, else at the tail. -/
def insertBySchedTime (sched : R → Time) (timer : R) : List R → List R
  | [] => [timer]
  | entry :: rest =>
      if sched entry > sched timer then timer :: entry :: rest
      else entry :: insertBySchedTime sched timer rest

theorem insertBySchedTime_perm (sched : R → Time) (timer : R) (q : List R) :
    (insertBySchedTime sched timer q).Perm (timer :: q) := by
  induction q with
  | nil => exact List.Perm.refl _
  | cons entry rest ih =>
      rw [insertBySchedTime]
      by_cases h : sched entry > sched timer
      · rw [if_pos h]
      · rw [if_neg h]
        exact (ih.cons entry).trans (List.Perm.swap timer entry rest)

variable [DecidableEq R]

/-- `insert_timer_in_queue`; a timer that is linked already would be linked
    a second time. -/
def insertTimerInQueue (timer : R) (tq : TimerQueue R C) :
    Except TimerFault (TimerQueue R C) :=
  if h : timer ∈ tq.queue then .error .linkedTwice
  else .ok
    { tq with
      queue := insertBySchedTime (fun r => (tq.timers r).schedTime) timer
        tq.queue
      nodup := (insertBySchedTime_perm _ timer tq.queue).nodup_iff.mpr
        (List.nodup_cons.mpr ⟨h, tq.nodup⟩) }

/-- What timer.c gets from `current_time`.  Nothing declares the function
    there, so that it is taken to return an `int`: the low 32 bits, with their
    sign extended. -/
def implicitInt (time : Time) : Time := (time.setWidth 32).signExtend 64

/-- `timer_set` when `current_time` is `time`. -/
def timerSet (timer : R) (time delay period : Time) (callback : C)
    (tq : TimerQueue R C) : Except TimerFault (TimerQueue R C) :=
  insertTimerInQueue timer
    { tq with
      timers := Function.update tq.timers timer
        ⟨implicitInt time + delay, period, some callback⟩ }

/-- `timer_set_oneshot`. -/
def timerSetOneshot (timer : R) (time delay : Time) (callback : C)
    (tq : TimerQueue R C) : Except TimerFault (TimerQueue R C) :=
  timerSet timer time (if delay = 0 then 1 else delay) 0 callback tq

/-- `timer_set_periodic`. -/
def timerSetPeriodic (timer : R) (time period : Time) (callback : C)
    (tq : TimerQueue R C) : Except TimerFault (TimerQueue R C) :=
  let period := if period = 0 then 1 else period
  timerSet timer time period period callback tq

/-- `timer_cancel`. -/
def timerCancel (timer : R) (tq : TimerQueue R C) : TimerQueue R C where
  timers := Function.update tq.timers timer
    { tq.timers timer with periodicTime := 0, callback := none }
  queue := tq.queue.erase timer
  nodup := tq.nodup.erase timer

/-- `list_delete(&timer->node)` for the timer at the head of the queue. -/
def TimerQueue.dropHead (tq : TimerQueue R C) : TimerQueue R C where
  timers := tq.timers
  queue := tq.queue.tail
  nodup := tq.nodup.tail

/-- A machine that runs a timer queue: where the queue is in its state, what
    running a callback does, and how a fault of the timer code shows. -/
structure TimerHost (R C W F : Type) where
  get : W → TimerQueue R C
  set : TimerQueue R C → W → W
  get_set : ∀ q w, get (set q w) = q
  invoke : C → R → Time → W → Except F (HandlerReturn × W)
  fault : TimerFault → F

/-- The tail of the loop body of `timer_tick`: a periodic timer that the
    callback neither cancelled nor armed again goes back on the queue. -/
def requeuePeriodic (host : TimerHost R C W F) (timer : R) (periodic : Bool)
    (now : Time) (w : W) : Except F W :=
  let tq := host.get w
  if periodic ∧ timer ∉ tq.queue ∧ (tq.timers timer).periodicTime > 0 then
    let t := tq.timers timer
    match insertTimerInQueue timer
        { tq with
          timers := Function.update tq.timers timer
            { t with schedTime := now + t.periodicTime } } with
    | .ok tq => .ok (host.set tq w)
    | .error e => .error (host.fault e)
  else .ok w

/-- The loop of `timer_tick`; the first argument bounds its rounds. -/
def timerTickLoop (host : TimerHost R C W F) (now : Time) :
    Nat → HandlerReturn → W → Except F (HandlerReturn × W)
  | 0, _, _ => .error (host.fault .endless)
  | n + 1, ret, w =>
      match (host.get w).queue with
      | [] => .ok (ret, w)
      | timer :: _ =>
          let t := (host.get w).timers timer
          if now < t.schedTime then .ok (ret, w)
          else do
            let w := host.set (host.get w).dropHead w
            match t.callback with
            | none => .error (host.fault .nullCallback)
            | some callback => do
                -- `periodic` is what the timer was before its callback ran
                let (r, w) ← host.invoke callback timer now w
                let w ← requeuePeriodic host timer (t.periodicTime > 0) now w
                timerTickLoop host now n
                  (if r = .reschedule then .reschedule else ret) w

/-- `timer_tick`, with `thread_timer_tick` as the last thing it calls. -/
def timerTick (host : TimerHost R C W F) (threadTimerTick : W → HandlerReturn × W)
    (now : Time) (w : W) : Except F (HandlerReturn × W) := do
  let (ret, w) ← timerTickLoop host now ((host.get w).queue.length + 1)
    .noReschedule w
  let (r, w) := threadTimerTick w
  return (if r = .reschedule then .reschedule else ret, w)

/-! ## The time that `timer_set` goes by -/

/-- In the first 2^31 ms it is the time. -/
theorem implicitInt_of_lt {time : Time} (h : time.toNat < 2 ^ 31) :
    implicitInt time = time := by
  have hlow : (time.setWidth 32).toNat = time.toNat := by
    rw [BitVec.toNat_setWidth, Nat.mod_eq_of_lt (by omega)]
  have hmsb : (time.setWidth 32).msb = false :=
    BitVec.msb_eq_false_iff_two_mul_lt.mpr (by rw [hlow]; omega)
  refine BitVec.eq_of_toNat_eq ?_
  rw [implicitInt, BitVec.toNat_signExtend, hmsb, BitVec.toNat_setWidth, hlow,
    Nat.mod_eq_of_lt time.isLt]
  rfl

/-- After them, in which bit 31 is set, all the bits above it are, too. -/
theorem implicitInt_of_ge {time : Time} (h : 2 ^ 31 ≤ time.toNat)
    (hlt : time.toNat < 2 ^ 32) :
    (implicitInt time).toNat = 2 ^ 64 - 2 ^ 32 + time.toNat := by
  have hlow : (time.setWidth 32).toNat = time.toNat := by
    rw [BitVec.toNat_setWidth, Nat.mod_eq_of_lt hlt]
  have hmsb : (time.setWidth 32).msb = true :=
    BitVec.msb_eq_true_iff_two_mul_ge.mpr (by rw [hlow]; omega)
  rw [implicitInt, BitVec.toNat_signExtend, hmsb, BitVec.toNat_setWidth, hlow]
  simp only [if_true]
  omega

/-- It is never before the time. -/
theorem le_implicitInt {time : Time} (hlt : time.toNat < 2 ^ 32) :
    time.toNat ≤ (implicitInt time).toNat := by
  by_cases h : time.toNat < 2 ^ 31
  · exact Nat.le_of_eq (congrArg BitVec.toNat (implicitInt_of_lt h).symm)
  · rw [implicitInt_of_ge (Nat.le_of_not_lt h) hlt]
    omega

/-! ## What the operations do to the queue -/

omit [DecidableEq R] in
theorem mem_insertBySchedTime {sched : R → Time} {timer r : R} {q : List R} :
    r ∈ insertBySchedTime sched timer q ↔ r = timer ∨ r ∈ q := by
  rw [(insertBySchedTime_perm sched timer q).mem_iff, List.mem_cons]

/-- Arming an unlinked timer succeeds; it links that timer and no other. -/
theorem timerSet_spec {timer : R} (time delay period : Time) (callback : C)
    {tq : TimerQueue R C} (h : timer ∉ tq.queue) :
    ∃ tq', timerSet timer time delay period callback tq = .ok tq' ∧
      (∀ r, r ∈ tq'.queue ↔ r = timer ∨ r ∈ tq.queue) ∧
      tq'.timers = Function.update tq.timers timer
        ⟨implicitInt time + delay, period, some callback⟩ := by
  refine ⟨_, dif_neg h, ?_, rfl⟩
  intro r
  exact mem_insertBySchedTime

/-- Arming a timer that did not fault found it unlinked. -/
theorem timerSet_ok {timer : R} {time delay period : Time} {callback : C}
    {tq tq' : TimerQueue R C}
    (h : timerSet timer time delay period callback tq = .ok tq') :
    timer ∉ tq.queue ∧
      (∀ r, r ∈ tq'.queue ↔ r = timer ∨ r ∈ tq.queue) ∧
      tq'.timers = Function.update tq.timers timer
        ⟨implicitInt time + delay, period, some callback⟩ := by
  by_cases hmem : timer ∈ tq.queue
  · cases (dif_pos hmem).symm.trans h
  · obtain ⟨tq'', heq, hq, ht⟩ := timerSet_spec time delay period callback hmem
    cases heq.symm.trans h
    exact ⟨hmem, hq, ht⟩

theorem mem_timerCancel {timer r : R} {tq : TimerQueue R C} :
    r ∈ (timerCancel timer tq).queue ↔ r ≠ timer ∧ r ∈ tq.queue :=
  tq.nodup.mem_erase_iff

theorem timers_timerCancel_of_ne {timer r : R} {tq : TimerQueue R C}
    (h : r ≠ timer) : (timerCancel timer tq).timers r = tq.timers r :=
  Function.update_of_ne h _ _

/-! ## What the loop of `timer_tick` does -/

/-- A timer that is not periodic is not put back. -/
theorem requeuePeriodic_oneshot (host : TimerHost R C W F) (timer : R)
    (now : Time) (w : W) :
    requeuePeriodic host timer false now w = .ok w := by
  simp [requeuePeriodic]

/-- **The invariant rule for the loop.**  `I` is kept by expiring the timer
    at the head of the queue, under `I` the timers are one-shot and armed with
    a callback, and no callback makes the queue longer.  Then the rounds
    suffice, and the loop ends where no timer is due. -/
theorem timerTickLoop_holds (host : TimerHost R C W F) (now : Time)
    {I : HandlerReturn → W → Prop} {E : F → Prop}
    (hone : ∀ ret w r, I ret w → ((host.get w).timers r).periodicTime = 0)
    (harmed : ∀ ret w, I ret w → ∀ r ∈ (host.get w).queue,
      ((host.get w).timers r).callback ≠ none)
    (hstep : ∀ ret w timer rest callback, I ret w →
      (host.get w).queue = timer :: rest →
      ¬ now < ((host.get w).timers timer).schedTime →
      ((host.get w).timers timer).callback = some callback →
      Outcome.Holds
        (host.invoke callback timer now (host.set (host.get w).dropHead w))
        (fun r => I (if r.1 = .reschedule then .reschedule else ret) r.2 ∧
          (host.get r.2).queue.length ≤ rest.length) E) :
    ∀ (n : Nat) (ret : HandlerReturn) (w : W), I ret w →
      (host.get w).queue.length < n →
      Outcome.Holds (timerTickLoop host now n ret w)
        (fun r => I r.1 r.2 ∧ ∀ timer rest,
          (host.get r.2).queue = timer :: rest →
            now < ((host.get r.2).timers timer).schedTime) E := by
  intro n
  induction n with
  | zero => intro ret w _ hn; exact absurd hn (Nat.not_lt_zero _)
  | succ n ih =>
      intro ret w hI hn
      rw [timerTickLoop]
      cases hq : (host.get w).queue with
      | nil => exact ⟨hI, fun timer rest heq => by cases hq.symm.trans heq⟩
      | cons timer rest =>
          dsimp only
          by_cases hdue : now < ((host.get w).timers timer).schedTime
          · rw [if_pos hdue]
            refine ⟨hI, ?_⟩
            intro timer' rest' heq
            cases hq.symm.trans heq
            exact hdue
          · rw [if_neg hdue]
            have hmem : timer ∈ (host.get w).queue := by
              rw [hq]; exact List.mem_cons_self
            obtain ⟨callback, hcb⟩ :=
              Option.ne_none_iff_exists'.mp (harmed ret w hI timer hmem)
            rw [hcb, hone ret w timer hI]
            refine Outcome.Holds.bind
              (hstep ret w timer rest callback hI hq hdue hcb) ?_
            rintro ⟨r, w'⟩ ⟨hI', hlen⟩
            show Outcome.Holds (requeuePeriodic host timer false now w' >>= _)
              _ _
            rw [requeuePeriodic_oneshot, Outcome.ok_bind]
            have hn' : (host.get w').queue.length < n := by
              have hlen' : (host.get w').queue.length ≤ rest.length := hlen
              rw [hq, List.length_cons] at hn
              omega
            exact ih _ w' hI' hn'

end ChinixTimerQueue

import Chinix.TimerSystem
import Mathlib.Algebra.Group.Nat.Defs
import Mathlib.Data.List.Pairwise

/-! # The order of the timer queue

    The queue is sorted by the time at which its timers fall due, those of one
    time in the order in which they were linked.  As long as no sum that
    `timer_set` and `timer_tick` make wraps around, `timer_tick` drains it:
    each of its rounds takes one due timer away and no callback can add one,
    so that it comes to an end, has invoked what was due in order and leaves
    nothing due.  From 2^31 ms of uptime on `timer_set` goes by a time that is
    close to 2^64, and a callback can make the loop go on for ever. -/

namespace ChinixTimerOrder

open ChinixTimerQueue ChinixPlatformTimer ChinixTimerSystem

variable {R C K : Type} [DecidableEq R]

-- ── Insertion ──

/-- Due earlier, or at the same time and linked earlier. -/
def Before (sched : R → Time) (stamp : R → Nat) (a b : R) : Prop :=
  sched a < sched b ∨ (sched a = sched b ∧ stamp a < stamp b)

omit [DecidableEq R] in
theorem Before.le {sched : R → Time} {stamp : R → Nat} {a b : R}
    (h : Before sched stamp a b) : sched a ≤ sched b := by
  rcases h with h | h
  · exact BitVec.le_of_lt h
  · exact h.1 ▸ BitVec.le_refl _

omit [DecidableEq R] in
/-- The insertion keeps the order if the new timer is the last one linked. -/
theorem pairwise_insertBySchedTime {sched : R → Time} {stamp : R → Nat}
    {timer : R} {q : List R} (hq : q.Pairwise (Before sched stamp))
    (hlast : ∀ r ∈ q, stamp r < stamp timer) :
    (insertBySchedTime sched timer q).Pairwise (Before sched stamp) := by
  induction q with
  | nil => exact List.pairwise_singleton _ _
  | cons entry rest ih =>
      have hp := List.pairwise_cons.mp hq
      rw [insertBySchedTime]
      by_cases h : sched entry > sched timer
      · rw [if_pos h]
        refine List.pairwise_cons.mpr ⟨?_, hq⟩
        intro r hr
        rcases List.mem_cons.mp hr with rfl | hr
        · exact .inl h
        · exact .inl (Nat.lt_of_lt_of_le h (hp.1 r hr).le)
      · rw [if_neg h]
        refine List.pairwise_cons.mpr
          ⟨?_, ih hp.2 fun r hr => hlast r (List.mem_cons_of_mem _ hr)⟩
        intro r hr
        rcases mem_insertBySchedTime.mp hr with rfl | hr
        · have hle : sched entry ≤ sched r := BitVec.not_lt.mp h
          by_cases heq : sched entry = sched r
          · exact .inr ⟨heq, hlast entry List.mem_cons_self⟩
          · exact .inl (BitVec.lt_of_le_ne hle heq)
        · exact hp.1 r hr

-- ── What the operations do ──

/-- The delay that is used for a requested one. -/
def atLeastOne (delay : Time) : Time := if delay = 0 then 1 else delay

theorem atLeastOne_pos (delay : Time) : 0 < (atLeastOne delay).toNat := by
  rw [atLeastOne]
  split_ifs with h
  · decide
  · exact Nat.pos_of_ne_zero fun h0 => h (BitVec.eq_of_toNat_eq h0)

/-- An unlinked timer has been given the fields `t` and linked. -/
structure Linked (tq : TimerQueue R C) (timer : R) (t : Timer C)
    (tq' : TimerQueue R C) : Prop where
  unlinked : timer ∉ tq.queue
  timers : tq'.timers = Function.update tq.timers timer t
  queue : tq'.queue =
    insertBySchedTime (fun r => (tq'.timers r).schedTime) timer tq.queue

theorem insertTimerInQueue_linked {timer : R} {tq tq' : TimerQueue R C}
    {t : Timer C}
    (h : insertTimerInQueue timer
      { tq with timers := Function.update tq.timers timer t } = .ok tq') :
    Linked tq timer t tq' := by
  rw [insertTimerInQueue] at h
  split at h
  · cases h
  · rename_i hmem
    cases h
    exact ⟨hmem, rfl, rfl⟩

theorem setOneshot_linked {timer : R} {time delay : Time} {callback : C}
    {tq tq' : TimerQueue R C}
    (h : timerSetOneshot timer time delay callback tq = .ok tq') :
    Linked tq timer
      ⟨implicitInt time + atLeastOne delay, 0, some callback⟩ tq' :=
  insertTimerInQueue_linked h

theorem setPeriodic_linked {timer : R} {time period : Time} {callback : C}
    {tq tq' : TimerQueue R C}
    (h : timerSetPeriodic timer time period callback tq = .ok tq') :
    Linked tq timer
      ⟨implicitInt time + atLeastOne period, atLeastOne period, some callback⟩
      tq' :=
  insertTimerInQueue_linked h

theorem requeue_linked {timer : R} {now : Time} {tq tq' : TimerQueue R C}
    (h : requeue timer now tq = .ok tq') :
    Linked tq timer
      { tq.timers timer with
        schedTime := now + (tq.timers timer).periodicTime } tq' :=
  insertTimerInQueue_linked h

/-- Linking an unlinked timer succeeds. -/
theorem exists_requeue {timer : R} (now : Time) {tq : TimerQueue R C}
    (h : timer ∉ tq.queue) : ∃ tq', requeue timer now tq = .ok tq' :=
  ⟨_, dif_neg h⟩

theorem Linked.mem_iff {tq tq' : TimerQueue R C} {timer r : R} {t : Timer C}
    (h : Linked tq timer t tq') :
    r ∈ tq'.queue ↔ r = timer ∨ r ∈ tq.queue := by
  rw [h.queue, mem_insertBySchedTime]

theorem Linked.timers_self {tq tq' : TimerQueue R C} {timer : R} {t : Timer C}
    (h : Linked tq timer t tq') : tq'.timers timer = t := by
  rw [h.timers, Function.update_self]

theorem Linked.timers_of_mem {tq tq' : TimerQueue R C} {timer r : R}
    {t : Timer C} (h : Linked tq timer t tq') (hr : r ∈ tq.queue) :
    tq'.timers r = tq.timers r := by
  have hne : r ≠ timer := fun e => h.unlinked (e ▸ hr)
  rw [h.timers, Function.update_of_ne hne]

theorem timerCancel_schedTime (timer r : R) (tq : TimerQueue R C) :
    ((timerCancel timer tq).timers r).schedTime = (tq.timers r).schedTime := by
  by_cases h : r = timer
  · subst h
    show (Function.update tq.timers r _ r).schedTime = _
    rw [Function.update_self]
  · rw [timers_timerCancel_of_ne h]

-- ── The order is kept ──

/-- The event links the timer. -/
def Links (r : R) : TimerEvent R C K → Bool
  | .oneshotSet timer _ _ => decide (timer = r)
  | .periodicSet timer _ _ => decide (timer = r)
  | .requeued timer _ => decide (timer = r)
  | _ => false

/-- When a timer was last linked, as a place in the history. -/
def lastLinked (r : R) : List (TimerEvent R C K) → Nat
  | [] => 0
  | e :: past => if Links r e then past.length + 1 else lastLinked r past

theorem lastLinked_le (r : R) (history : List (TimerEvent R C K)) :
    lastLinked r history ≤ history.length := by
  induction history with
  | nil => exact Nat.le_refl 0
  | cons e past ih =>
      rw [lastLinked]
      split_ifs
      · exact Nat.le_refl _
      · exact Nat.le_succ_of_le ih

theorem lastLinked_cons_of_not {r : R} {e : TimerEvent R C K}
    (h : Links r e = false) (past : List (TimerEvent R C K)) :
    lastLinked r (e :: past) = lastLinked r past := by
  rw [lastLinked, if_neg (by rw [h]; simp)]

/-- The queue is sorted by `sched_time`, equal times in insertion order. -/
def Sorted (s : TimerSystem R C K) : Prop :=
  s.tq.queue.Pairwise
    (Before (fun r => (s.tq.timers r).schedTime) (fun r => lastLinked r s.history))

/-- The order is that of a part of the queue whose times have not changed. -/
theorem Sorted.sublist {s s' : TimerSystem R C K} (h : Sorted s)
    (hq : s'.tq.queue.Sublist s.tq.queue)
    (ht : ∀ r, (s'.tq.timers r).schedTime = (s.tq.timers r).schedTime)
    (hl : ∀ r, lastLinked r s'.history = lastLinked r s.history) :
    Sorted s' := by
  refine List.Pairwise.imp ?_ (List.Pairwise.sublist hq h)
  intro a b hab
  unfold Before
  dsimp only
  rw [ht a, ht b, hl a, hl b]
  exact hab

theorem Sorted.link {s s' : TimerSystem R C K} (h : Sorted s) {timer : R}
    {t : Timer C} {e : TimerEvent R C K} (hlink : Linked s.tq timer t s'.tq)
    (hh : s'.history = e :: s.history) (he : ∀ r, Links r e = decide (timer = r)) :
    Sorted s' := by
  have hstamp : ∀ r ∈ s.tq.queue,
      lastLinked r s'.history = lastLinked r s.history := by
    intro r hr
    rw [hh, lastLinked_cons_of_not]
    rw [he r]
    exact decide_eq_false fun heq => hlink.unlinked (heq ▸ hr)
  have hlast : lastLinked timer s'.history = s.history.length + 1 := by
    rw [hh, lastLinked, he timer, if_pos (decide_eq_true rfl)]
  rw [Sorted]
  rw [hlink.queue]
  refine pairwise_insertBySchedTime ?_ ?_
  · refine List.Pairwise.imp_of_mem ?_ h
    intro a b ha hb hab
    unfold Before
    dsimp only
    rw [hlink.timers_of_mem ha, hlink.timers_of_mem hb, hstamp a ha, hstamp b hb]
    exact hab
  · intro r hr
    rw [hlast, hstamp r hr]
    exact Nat.lt_succ_of_le (lastLinked_le r s.history)

/-- With the head not due nothing is: the queue is sorted. -/
theorem Sorted.not_due {s : TimerSystem R C K} {now : Time} (h : Sorted s)
    (hhead : ∀ timer rest, s.tq.queue = timer :: rest →
      now < (s.tq.timers timer).schedTime) :
    ∀ r ∈ s.tq.queue, now < (s.tq.timers r).schedTime := by
  intro r hr
  cases hq : s.tq.queue with
  | nil => rw [hq] at hr; cases hr
  | cons timer rest =>
      have hlate := hhead timer rest hq
      rw [hq] at hr
      rcases List.mem_cons.mp hr with rfl | hr
      · exact hlate
      · rw [Sorted] at h
        rw [hq] at h
        exact Nat.lt_of_lt_of_le hlate ((List.pairwise_cons.mp h).1 r hr).le

theorem Sorted.step {clock : Clock K} {s s' : TimerSystem R C K}
    {a : Action R C} (h : Sorted s) (hs : Step clock s a s') : Sorted s' := by
  cases hs with
  | call c _ hc =>
      cases c with
      | setOneshot timer delay callback =>
          exact h.link (setOneshot_linked hc) rfl fun _ => rfl
      | setPeriodic timer period callback =>
          exact h.link (setPeriodic_linked hc) rfl fun _ => rfl
      | cancel timer =>
          cases hc
          exact h.sublist List.erase_sublist (timerCancel_schedTime timer · s.tq)
            fun r => lastLinked_cons_of_not rfl _
  | idle _ _ => exact h
  | trigger _ _ => exact h
  | expire _ _ _ _ =>
      exact h.sublist (List.tail_sublist _) (fun _ => rfl)
        fun r => lastLinked_cons_of_not rfl _
  | finish _ _ => exact h
  | requeue _ _ hr => exact h.link (requeue_linked hr) rfl fun _ => rfl
  | leave _ _ => exact h

-- ── No sum wraps around ──

/-- A timer that is put back falls due below 2^64. -/
def RequeueFits (tq : TimerQueue R C) : Phase R → Prop
  | .inCallback now timer periodic => Requeues tq timer periodic →
      now.toNat + (tq.timers timer).periodicTime.toNat < 2 ^ 64
  | _ => True

/-- A timer that is armed from `base` on falls due below 2^64. -/
def Fits (base : Time) : TimerCall R C → Prop
  | .setOneshot _ delay _ => base.toNat + (atLeastOne delay).toNat < 2 ^ 64
  | .setPeriodic _ period _ => base.toNat + (atLeastOne period).toNat < 2 ^ 64
  | .cancel _ => True

/-- The sums from `base` on, and those of `timer_tick`, are below 2^64. -/
def SumsFit (base : Time) (s : TimerSystem R C K) : Action R C → Prop
  | .call c => Fits base c
  | .callbackReturns => RequeueFits s.tq s.phase
  | _ => True

/-- The sums that the code makes are below 2^64. -/
def NoOverflow (clock : Clock K) (s : TimerSystem R C K) (a : Action R C) :
    Prop :=
  SumsFit (implicitInt (clock.time s.clock)) s a

/-- The sums with `current_time` itself are below 2^64. -/
def NoTimeOverflow (clock : Clock K) (s : TimerSystem R C K)
    (a : Action R C) : Prop :=
  SumsFit (clock.time s.clock) s a

instance (tq : TimerQueue R C) (phase : Phase R) :
    Decidable (RequeueFits tq phase) :=
  match phase with
  | .outside => inferInstanceAs (Decidable True)
  | .atHead _ => inferInstanceAs (Decidable True)
  | .inCallback _ _ _ => inferInstanceAs (Decidable (_ → _))

instance (base : Time) (c : TimerCall R C) : Decidable (Fits base c) :=
  match c with
  | .setOneshot _ _ _ => inferInstanceAs (Decidable (_ < _))
  | .setPeriodic _ _ _ => inferInstanceAs (Decidable (_ < _))
  | .cancel _ => inferInstanceAs (Decidable True)

instance (base : Time) (s : TimerSystem R C K) (a : Action R C) :
    Decidable (SumsFit base s a) :=
  match a with
  | .call _ => inferInstanceAs (Decidable (Fits _ _))
  | .tick => inferInstanceAs (Decidable True)
  | .head => inferInstanceAs (Decidable True)
  | .callbackReturns => inferInstanceAs (Decidable (RequeueFits _ _))

instance (clock : Clock K) (s : TimerSystem R C K) (a : Action R C) :
    Decidable (NoOverflow clock s a) :=
  inferInstanceAs (Decidable (SumsFit _ s a))

instance (clock : Clock K) (s : TimerSystem R C K) (a : Action R C) :
    Decidable (NoTimeOverflow clock s a) :=
  inferInstanceAs (Decidable (SumsFit _ s a))

omit [DecidableEq R] in
theorem requeueFits_of_noOverflow {clock : Clock K} {s : TimerSystem R C K}
    {now : Time} {timer : R} {periodic : Bool}
    (h : NoOverflow clock s .callbackReturns)
    (hp : s.phase = .inCallback now timer periodic)
    (hr : Requeues s.tq timer periodic) :
    now.toNat + (s.tq.timers timer).periodicTime.toNat < 2 ^ 64 := by
  have h' : RequeueFits s.tq s.phase := h
  rw [hp] at h'
  exact h' hr

theorem lt_add_of_fits {now base delay : Time}
    (hle : now.toNat ≤ base.toNat) (hpos : 0 < delay.toNat)
    (h : base.toNat + delay.toNat < 2 ^ 64) : now < base + delay := by
  rw [BitVec.lt_def, BitVec.toNat_add, Nat.mod_eq_of_lt h]
  omega

/-- What `timer_tick` was told is the time. -/
def OnTime (clock : Clock K) (s : TimerSystem R C K) : Prop :=
  match s.phase with
  | .outside => True
  | .atHead now => clock.time s.clock = now
  | .inCallback now _ _ => clock.time s.clock = now

theorem OnTime.step {clock : Clock K} {s s' : TimerSystem R C K}
    {a : Action R C} (h : OnTime clock s) (hs : Step clock s a s') :
    OnTime clock s' := by
  rw [OnTime] at h ⊢
  cases hs with
  | call c hp hc => exact h
  | idle hp _ => rw [hp]; exact trivial
  | trigger hp ht => exact clock.tells _ _ _ ht
  | expire hp _ _ _ => rw [hp] at h; exact h
  | finish hp _ => exact trivial
  | requeue hp _ _ => rw [hp] at h; exact h
  | leave hp _ => rw [hp] at h; exact h

-- ── One `timer_tick` ──

/-- The timer is due. -/
def Due (now : Time) (tq : TimerQueue R C) (r : R) : Bool :=
  decide ((tq.timers r).schedTime ≤ now)

/-- How many timers are due. -/
def dueCount (now : Time) (tq : TimerQueue R C) : Nat :=
  tq.queue.countP (Due now tq)

/-- The times at which the timers invoked were due, newest first. -/
def invokedTimes : List (TimerEvent R C K) → List Time
  | [] => []
  | .invoked _ _ schedTime _ :: past => schedTime :: invokedTimes past
  | _ :: past => invokedTimes past

/-- The timer was invoked, or cancelled. -/
def Handled (r : R) (events : List (TimerEvent R C K)) : Prop :=
  (∃ callback schedTime now, .invoked r callback schedTime now ∈ events) ∨
    .cancelled r ∈ events

omit [DecidableEq R] in
theorem Handled.cons {r : R} {events : List (TimerEvent R C K)}
    (h : Handled r events) (e : TimerEvent R C K) : Handled r (e :: events) := by
  rcases h with ⟨callback, schedTime, now, h⟩ | h
  · exact .inl ⟨callback, schedTime, now, List.mem_cons_of_mem _ h⟩
  · exact .inr (List.mem_cons_of_mem _ h)

theorem Linked.dueCount {now : Time} {tq tq' : TimerQueue R C} {timer : R}
    {t : Timer C} (h : Linked tq timer t tq') (hlate : now < t.schedTime) :
    dueCount now tq' = dueCount now tq := by
  have hdue : ∀ r ∈ tq.queue, Due now tq' r = Due now tq r := fun r hr => by
    unfold Due
    rw [h.timers_of_mem hr]
  have hself : ¬ Due now tq' timer = true := by
    rw [Due]
    rw [h.timers_self, decide_eq_true_iff]
    exact fun hle => Nat.lt_irrefl _ (Nat.lt_of_lt_of_le hlate hle)
  rw [ChinixTimerOrder.dueCount]
  rw [h.queue, (insertBySchedTime_perm _ timer tq.queue).countP_eq,
    List.countP_cons_of_neg hself]
  exact List.countP_congr fun r hr => by rw [hdue r hr]

theorem dueCount_timerCancel (now : Time) (timer : R) (tq : TimerQueue R C) :
    dueCount now (timerCancel timer tq) ≤ dueCount now tq := by
  have hdue : Due now (timerCancel timer tq) = Due now tq := by
    funext r
    unfold Due
    rw [timerCancel_schedTime]
  rw [dueCount]
  rw [hdue]
  exact List.Sublist.countP_le List.erase_sublist

omit [DecidableEq R] in
theorem dueCount_dropHead {now : Time} {tq : TimerQueue R C} {timer : R}
    {rest : List R} (hq : tq.queue = timer :: rest)
    (hdue : ¬ now < (tq.timers timer).schedTime) :
    dueCount now tq.dropHead + 1 = dueCount now tq := by
  unfold dueCount
  show tq.queue.tail.countP (Due now tq) + 1 = _
  rw [hq, List.tail_cons, List.countP_cons_of_pos]
  exact decide_eq_true (BitVec.not_lt.mp hdue)

/-- How far `timer_tick` has come since a state `s0` in which it was at the
    head of the queue; `new` is what has happened since. -/
structure Draining (now : Time) (s0 s : TimerSystem R C K)
    (new : List (TimerEvent R C K)) : Prop where
  history : s.history = new ++ s0.history
  clock : s.clock = s0.clock
  sorted : Sorted s
  phase : ∀ now', s.phase = .atHead now' → now' = now
  callback : ∀ now' timer periodic,
    s.phase = .inCallback now' timer periodic → now' = now
  rounds : (invokedTimes new).length + dueCount now s.tq ≤ dueCount now s0.tq
  ordered : (invokedTimes new).Pairwise (· ≥ ·)
  due : ∀ t ∈ invokedTimes new, t ≤ now
  below : ∀ t ∈ invokedTimes new, ∀ r ∈ s.tq.queue, t ≤ (s.tq.timers r).schedTime
  drained : s.phase = .outside → ∀ r ∈ s.tq.queue, now < (s.tq.timers r).schedTime
  handled : ∀ r ∈ s0.tq.queue, (s0.tq.timers r).schedTime ≤ now →
    (r ∈ s.tq.queue ∧ (s.tq.timers r).schedTime ≤ now) ∨ Handled r new

theorem Draining.start {now : Time} {s : TimerSystem R C K} (h : Sorted s)
    (hp : s.phase = .atHead now) : Draining now s s [] where
  history := rfl
  clock := rfl
  sorted := h
  phase now' h' := by rw [hp] at h'; cases h'; rfl
  callback now' timer periodic h' := by cases hp.symm.trans h'
  rounds := Nat.le_of_eq (Nat.zero_add _)
  ordered := List.Pairwise.nil
  due := by rintro _ ⟨⟩
  below := by rintro _ ⟨⟩
  drained h' := by cases hp.symm.trans h'
  handled r hr hd := .inl ⟨hr, hd⟩

/-- Linking a timer that falls due later. -/
theorem Draining.link {now : Time} {s0 s s' : TimerSystem R C K}
    {new : List (TimerEvent R C K)} (h : Draining now s0 s new) {timer : R}
    {t : Timer C} {e : TimerEvent R C K} (hlink : Linked s.tq timer t s'.tq)
    (hlate : now < t.schedTime) (hsorted : Sorted s')
    (hh : s'.history = e :: s.history) (hc : s'.clock = s.clock)
    (he : invokedTimes (e :: new) = invokedTimes new)
    (hphase : s'.phase = s.phase ∨ s'.phase = .atHead now) :
    Draining now s0 s' (e :: new) where
  history := by rw [hh, h.history]; rfl
  clock := hc.trans h.clock
  sorted := hsorted
  phase now' h' := by
    rcases hphase with hp | hp
    · exact h.phase now' (hp ▸ h')
    · rw [hp] at h'; cases h'; rfl
  callback now' r periodic h' := by
    rcases hphase with hp | hp
    · exact h.callback now' r periodic (hp ▸ h')
    · cases hp.symm.trans h'
  rounds := by
    rw [he, hlink.dueCount hlate]
    exact h.rounds
  ordered := he ▸ h.ordered
  due := he ▸ h.due
  below u hu r hr := by
    rw [he] at hu
    rcases hlink.mem_iff.mp hr with rfl | hr
    · rw [hlink.timers_self]
      exact BitVec.le_trans (h.due u hu) (BitVec.le_of_lt hlate)
    · rw [hlink.timers_of_mem hr]
      exact h.below u hu r hr
  drained h' r hr := by
    rcases hphase with hp | hp
    · rcases hlink.mem_iff.mp hr with rfl | hr
      · rw [hlink.timers_self]; exact hlate
      · rw [hlink.timers_of_mem hr]; exact h.drained (hp ▸ h') r hr
    · cases hp.symm.trans h'
  handled r hr hd := by
    rcases h.handled r hr hd with ⟨hmem, hle⟩ | hd
    · left
      rw [hlink.timers_of_mem hmem]
      exact ⟨hlink.mem_iff.mpr (.inr hmem), hle⟩
    · exact .inr (hd.cons e)

theorem Draining.cancel {now : Time} {s0 s : TimerSystem R C K}
    {new : List (TimerEvent R C K)} (h : Draining now s0 s new) (timer : R)
    {s' : TimerSystem R C K} (hsorted : Sorted s')
    (hs : s' = { s with
      tq := timerCancel timer s.tq
      history := .cancelled timer :: s.history }) :
    Draining now s0 s' (.cancelled timer :: new) := by
  subst hs
  refine ⟨?_, h.clock, hsorted, h.phase, h.callback, ?_, h.ordered, h.due,
    ?_, ?_, ?_⟩
  · show _ :: s.history = _
    rw [h.history]
    rfl
  · exact Nat.le_trans
      (Nat.add_le_add_left (dueCount_timerCancel now timer s.tq) _) h.rounds
  · intro t ht r hr
    rw [timerCancel_schedTime]
    exact h.below t ht r (mem_timerCancel.mp hr).2
  · intro hp r hr
    rw [timerCancel_schedTime]
    exact h.drained hp r (mem_timerCancel.mp hr).2
  · intro r hr hd
    rcases h.handled r hr hd with ⟨hmem, hle⟩ | hd
    · by_cases heq : r = timer
      · subst heq
        exact .inr (.inr List.mem_cons_self)
      · left
        rw [timerCancel_schedTime]
        exact ⟨mem_timerCancel.mpr ⟨heq, hmem⟩, hle⟩
    · exact .inr (hd.cons _)

/-- A round: the head is the earliest of the queue, and no earlier than what
    has been invoked. -/
theorem Draining.expire {now : Time} {s0 s s' : TimerSystem R C K}
    {new : List (TimerEvent R C K)} (h : Draining now s0 s new) {timer : R}
    {rest : List R} {callback : C} (hq : s.tq.queue = timer :: rest)
    (hdue : ¬ now < (s.tq.timers timer).schedTime) (hsorted : Sorted s')
    (hs : s' = { s with
      tq := s.tq.dropHead
      phase := .inCallback now timer
        (decide ((s.tq.timers timer).periodicTime > 0))
      history := .invoked timer callback (s.tq.timers timer).schedTime now
        :: s.history }) :
    Draining now s0 s'
      (.invoked timer callback (s.tq.timers timer).schedTime now :: new) := by
  have hmem : timer ∈ s.tq.queue := by rw [hq]; exact List.mem_cons_self
  have hrest : s.tq.dropHead.queue = rest := by
    show s.tq.queue.tail = rest
    rw [hq, List.tail_cons]
  have hfirst : ∀ r ∈ rest,
      (s.tq.timers timer).schedTime ≤ (s.tq.timers r).schedTime := by
    have hp := h.sorted
    rw [Sorted] at hp
    rw [hq] at hp
    exact fun r hr => ((List.pairwise_cons.mp hp).1 r hr).le
  subst hs
  refine ⟨?_, h.clock, hsorted, by simp, ?_, ?_, ?_, ?_, ?_, by simp, ?_⟩
  · show _ :: s.history = _
    rw [h.history]
    rfl
  · intro now' r periodic hp
    cases hp
    rfl
  · have hcount := dueCount_dropHead hq hdue
    have hrounds := h.rounds
    show (invokedTimes new).length + 1 + dueCount now s.tq.dropHead ≤ _
    omega
  · exact List.pairwise_cons.mpr ⟨fun t ht => h.below t ht timer hmem, h.ordered⟩
  · intro t ht
    rcases List.mem_cons.mp ht with rfl | ht
    · exact BitVec.not_lt.mp hdue
    · exact h.due t ht
  · intro t ht r hr
    have hr' : r ∈ rest := hrest ▸ hr
    rcases List.mem_cons.mp ht with rfl | ht
    · exact hfirst r hr'
    · exact h.below t ht r (by rw [hq]; exact List.mem_cons_of_mem _ hr')
  · intro r hr hd
    rcases h.handled r hr hd with ⟨hm, hle⟩ | hd
    · rw [hq] at hm
      rcases List.mem_cons.mp hm with rfl | hm
      · exact .inr (.inl ⟨_, _, _, List.mem_cons_self⟩)
      · exact .inl ⟨hrest.symm ▸ hm, hle⟩
    · exact .inr (hd.cons _)

/-- **A step of the tick** that makes no sum wrap around. -/
theorem Draining.step {clock : Clock K} {now : Time} {s0 s s' : TimerSystem R C K}
    {new : List (TimerEvent R C K)} {a : Action R C}
    (h : Draining now s0 s new) (hnow : clock.time s0.clock = now)
    (hok : NoOverflow clock s a) (htick : a ≠ .tick) (hs : Step clock s a s') :
    ∃ more, Draining now s0 s' (more ++ new) := by
  have hsorted := h.sorted.step hs
  have hle : now.toNat ≤ (implicitInt (clock.time s.clock)).toNat := by
    rw [← hnow, ← h.clock]
    exact clock.le_implicitInt s.clock
  cases hs with
  | call c hp hc =>
      cases c with
      | setOneshot timer delay callback =>
          exact ⟨[_], h.link (setOneshot_linked hc)
            (lt_add_of_fits hle (atLeastOne_pos delay) hok) hsorted
            rfl rfl rfl (.inl rfl)⟩
      | setPeriodic timer period callback =>
          exact ⟨[_], h.link (setPeriodic_linked hc)
            (lt_add_of_fits hle (atLeastOne_pos period) hok) hsorted
            rfl rfl rfl (.inl rfl)⟩
      | cancel timer =>
          cases hc
          exact ⟨[_], h.cancel timer hsorted rfl⟩
  | idle _ _ => exact absurd rfl htick
  | trigger _ _ => exact absurd rfl htick
  | expire hp hq hdue hcb =>
      cases h.phase _ hp
      exact ⟨[_], h.expire hq hdue hsorted rfl⟩
  | finish hp hhead =>
      cases h.phase _ hp
      refine ⟨[], h.history, h.clock, hsorted, by simp, by simp, h.rounds,
        h.ordered, h.due, h.below, fun _ => h.sorted.not_due hhead, h.handled⟩
  | requeue hp hr hq =>
      cases h.callback _ _ _ hp
      exact ⟨[_], h.link (requeue_linked hq)
        (lt_add_of_fits (Nat.le_refl _) hr.2.2
          (requeueFits_of_noOverflow hok hp hr)) hsorted rfl rfl rfl
        (.inr rfl)⟩
  | leave hp hr =>
      cases h.callback _ _ _ hp
      exact ⟨[], h.history, h.clock, hsorted,
        fun now' h' => by cases h'; rfl, by simp, h.rounds, h.ordered, h.due,
        h.below, by simp, h.handled⟩

/-- The steps of one `timer_tick`, and what follows it before the next
    interrupt of the timer. -/
def WithinTick (clock : Clock K) (ok : TimerSystem R C K → Action R C → Prop)
    (s s' : TimerSystem R C K) : Prop :=
  Runs.Reachable s (Step clock) (fun s a => ok s a ∧ a ≠ .tick) s'

/-- What `timer_tick` has done in order since it was at the head of the
    queue: it has invoked at most as many callbacks as timers were due, each
    at a time no later than `now` and no earlier than the one before, and
    once it has left the loop nothing in the queue is due and every timer
    that was due has been invoked or cancelled. -/
structure InOrder (now : Time) (s s' : TimerSystem R C K)
    (new : List (TimerEvent R C K)) : Prop where
  history : s'.history = new ++ s.history
  bounded : (invokedTimes new).length ≤ dueCount now s.tq
  ordered : (invokedTimes new).Pairwise (· ≥ ·)
  due : ∀ t ∈ invokedTimes new, t ≤ now
  drained : s'.phase = .outside →
    ∀ r ∈ s'.tq.queue, now < (s'.tq.timers r).schedTime
  handled : s'.phase = .outside →
    ∀ r ∈ s.tq.queue, (s.tq.timers r).schedTime ≤ now → Handled r new

theorem Draining.inOrder {now : Time} {s s' : TimerSystem R C K}
    {new : List (TimerEvent R C K)} (h : Draining now s s' new) :
    InOrder now s s' new where
  history := h.history
  bounded := Nat.le_trans (Nat.le_add_right _ _) h.rounds
  ordered := h.ordered
  due := h.due
  drained := h.drained
  handled hout r hr hdue := by
    rcases h.handled r hr hdue with ⟨hmem, hle⟩ | hhandled
    · exact absurd (Nat.lt_of_lt_of_le (h.drained hout r hmem) hle)
        (Nat.lt_irrefl _)
    · exact hhandled

/-- The tick that is at the head of the queue at `now` stays in order. -/
def Drains (clock : Clock K) (ok : TimerSystem R C K → Action R C → Prop)
    (now : Time) (s : TimerSystem R C K) : Prop :=
  ∀ s', WithinTick clock ok s s' → ∃ new, InOrder now s s' new

theorem drains_of_sorted {clock : Clock K} {now : Time}
    {s : TimerSystem R C K} (hsorted : Sorted s)
    (hp : s.phase = .atHead now) (hnow : clock.time s.clock = now) :
    Drains clock (NoOverflow clock) now s := by
  intro s' h
  have hdraining : ∃ new, Draining now s s' new := by
    refine Runs.Reachable.invariant
      (I := fun s' => ∃ new, Draining now s s' new)
      ⟨[], .start hsorted hp⟩ ?_ h
    rintro s1 a s2 ⟨new, hd⟩ ⟨hok, htick⟩ hs
    obtain ⟨more, hd'⟩ := hd.step hnow hok htick hs
    exact ⟨more ++ new, hd'⟩
  obtain ⟨new, hd⟩ := hdraining
  exact ⟨new, hd.inOrder⟩

-- ── The loop is never stuck ──

/-- A linked timer has a callback, and so has one that could be put back. -/
structure Armed (tq : TimerQueue R C) : Prop where
  linked : ∀ r ∈ tq.queue, (tq.timers r).callback ≠ none
  periodic : ∀ r, (tq.timers r).periodicTime > 0 → (tq.timers r).callback ≠ none

theorem Armed.link {tq tq' : TimerQueue R C} (h : Armed tq) {timer : R}
    {t : Timer C} (hlink : Linked tq timer t tq') (ht : t.callback ≠ none) :
    Armed tq' where
  linked r hr := by
    rcases hlink.mem_iff.mp hr with rfl | hr
    · rw [hlink.timers_self]; exact ht
    · rw [hlink.timers_of_mem hr]; exact h.linked r hr
  periodic r hr := by
    by_cases heq : r = timer
    · subst heq
      rw [hlink.timers_self]
      exact ht
    · rw [hlink.timers, Function.update_of_ne heq] at hr ⊢
      exact h.periodic r hr

theorem Armed.cancel {tq : TimerQueue R C} (h : Armed tq) (timer : R) :
    Armed (timerCancel timer tq) where
  linked r hr := by
    obtain ⟨hne, hr⟩ := mem_timerCancel.mp hr
    rw [timers_timerCancel_of_ne hne]
    exact h.linked r hr
  periodic r hr := by
    by_cases heq : r = timer
    · subst heq
      have h0 : ((timerCancel r tq).timers r).periodicTime = 0 := by
        show (Function.update tq.timers r _ r).periodicTime = 0
        rw [Function.update_self]
      rw [h0] at hr
      exact absurd hr (by decide)
    · rw [timers_timerCancel_of_ne heq] at hr ⊢
      exact h.periodic r hr

theorem Armed.step {clock : Clock K} {s s' : TimerSystem R C K}
    {a : Action R C} (h : Armed s.tq) (hs : Step clock s a s') : Armed s'.tq := by
  cases hs with
  | call c _ hc =>
      cases c with
      | setOneshot timer delay callback => exact h.link (setOneshot_linked hc) (by simp)
      | setPeriodic timer period callback =>
          exact h.link (setPeriodic_linked hc) (by simp)
      | cancel timer =>
          cases hc
          exact h.cancel timer
  | idle _ _ => exact h
  | trigger _ _ => exact h
  | expire _ _ _ _ =>
      exact ⟨fun r hr => h.linked r (List.mem_of_mem_tail hr), h.periodic⟩
  | finish _ _ => exact h
  | requeue _ hr hq =>
      exact h.link (requeue_linked hq) (h.periodic _ hr.2.2)
  | leave _ _ => exact h

/-- The loop can go on: it neither follows a null callback nor links a timer
    a second time. -/
def GoesOn (clock : Clock K) (s : TimerSystem R C K) : Prop :=
  match s.phase with
  | .outside => True
  | .atHead _ => ∃ s', Step clock s .head s'
  | .inCallback _ _ _ => ∃ s', Step clock s .callbackReturns s'

theorem goesOn_of_armed {clock : Clock K} {s : TimerSystem R C K}
    (h : Armed s.tq) : GoesOn clock s := by
  rw [GoesOn]
  cases hp : s.phase with
  | outside => exact trivial
  | atHead now =>
      cases hq : s.tq.queue with
      | nil => exact ⟨_, .finish hp fun _ _ heq => by cases hq.symm.trans heq⟩
      | cons timer rest =>
          by_cases hdue : now < (s.tq.timers timer).schedTime
          · refine ⟨_, .finish hp fun timer' rest' heq => ?_⟩
            cases hq.symm.trans heq
            exact hdue
          · obtain ⟨callback, hcb⟩ := Option.ne_none_iff_exists'.mp
              (h.linked timer (by rw [hq]; exact List.mem_cons_self))
            exact ⟨_, .expire hp hq hdue hcb⟩
  | inCallback now timer periodic =>
      by_cases hr : Requeues s.tq timer periodic
      · obtain ⟨tq, htq⟩ := exists_requeue now hr.2.1
        exact ⟨_, .requeue hp hr htq⟩
      · exact ⟨_, .leave hp hr⟩

omit [DecidableEq R] in
theorem armed_init (k0 : K) : Armed (TimerSystem.init k0 : TimerSystem R C K).tq :=
  ⟨by rintro _ ⟨⟩, fun _ h => absurd h (by decide : ¬ (0 : Time) > 0)⟩

-- ── The loop returns ──

section Returns

variable {W F : Type} {host : TimerHost R C W F} {clock : Clock K} {k : K}
  {now : Time}

/-- What makes the loop come to an end: the linked timers have callbacks, and
    none of the periods reaches past 2^64. -/
structure CanTick (now : Time) (tq : TimerQueue R C) : Prop where
  armed : Armed tq
  periods : ∀ r, now.toNat + (tq.timers r).periodicTime.toNat < 2 ^ 64

/-- Callbacks that return, and whose calls make no sum wrap around. -/
structure Modest (host : TimerHost R C W F) (now : Time) : Prop where
  calls : CallsOnly host now (Fits (implicitInt now))
  returns : ∀ callback timer w, ∃ r, host.invoke callback timer now w = .ok r

theorem CanTick.link {tq tq' : TimerQueue R C} (h : CanTick now tq) {timer : R}
    {t : Timer C} (hlink : Linked tq timer t tq') (hcb : t.callback ≠ none)
    (ht : now.toNat + t.periodicTime.toNat < 2 ^ 64) : CanTick now tq' where
  armed := h.armed.link hlink hcb
  periods r := by
    by_cases heq : r = timer
    · subst heq
      rw [hlink.timers_self]
      exact ht
    · rw [hlink.timers, Function.update_of_ne heq]
      exact h.periods r

/-- One call keeps this, and makes no timer due. -/
theorem CanTick.call {tq tq' : TimerQueue R C} (h : CanTick now tq)
    (hle : now.toNat ≤ (implicitInt now).toNat) {c : TimerCall R C}
    (hfits : Fits (implicitInt now) c) (hc : c.run now tq = .ok tq') :
    CanTick now tq' ∧ dueCount now tq' ≤ dueCount now tq := by
  cases c with
  | setOneshot timer delay callback =>
      have hlink := setOneshot_linked hc
      exact ⟨h.link hlink (by simp) now.isLt, Nat.le_of_eq
        (hlink.dueCount (lt_add_of_fits hle (atLeastOne_pos delay) hfits))⟩
  | setPeriodic timer period callback =>
      have hlink := setPeriodic_linked hc
      exact ⟨h.link hlink (by simp)
          (Nat.lt_of_le_of_lt (Nat.add_le_add_right hle _) hfits),
        Nat.le_of_eq
          (hlink.dueCount (lt_add_of_fits hle (atLeastOne_pos period) hfits))⟩
  | cancel timer =>
      cases hc
      refine ⟨⟨h.armed.cancel timer, fun r => ?_⟩, dueCount_timerCancel now timer tq⟩
      by_cases heq : r = timer
      · subst heq
        show now.toNat + (Function.update tq.timers r _ r).periodicTime.toNat < _
        rw [Function.update_self]
        exact now.isLt
      · rw [timers_timerCancel_of_ne heq]
        exact h.periods r

theorem CanTick.calls {tq tq' : TimerQueue R C} (h : CanTick now tq)
    (hle : now.toNat ≤ (implicitInt now).toNat)
    (hcalls : Calls now (Fits (implicitInt now)) tq tq') :
    CanTick now tq' ∧ dueCount now tq' ≤ dueCount now tq := by
  induction hcalls with
  | nil => exact ⟨h, Nat.le_refl _⟩
  | next c _ hfits hc ih =>
      obtain ⟨hcan, hdue⟩ := ih
      obtain ⟨hcan', hdue'⟩ := hcan.call hle hfits hc
      exact ⟨hcan', Nat.le_trans hdue' hdue⟩

/-- What `timer_tick` does after a callback keeps it, too, and is a step of
    the system. -/
theorem CanTick.requeuePeriodic {w : W} (h : CanTick now (host.get w))
    (clock : Clock K) (k : K) (timer : R) (periodic : Bool)
    (past : List (TimerEvent R C K)) :
    ∃ w' past',
      ChinixTimerQueue.requeuePeriodic host timer periodic now w = .ok w' ∧
      CanTick now (host.get w') ∧
      dueCount now (host.get w') ≤ dueCount now (host.get w) ∧
      Step clock ⟨host.get w, k, .inCallback now timer periodic, past⟩
        .callbackReturns ⟨host.get w', k, .atHead now, past'⟩ := by
  by_cases hr : Requeues (host.get w) timer periodic
  · obtain ⟨tq, htq⟩ := exists_requeue now hr.2.1
    have hlink := requeue_linked htq
    have hlate := lt_add_of_fits (Nat.le_refl _) hr.2.2 (h.periods timer)
    have hput : ChinixTimerQueue.requeuePeriodic host timer periodic now w
        = .ok (host.set tq w) := by
      rw [requeue] at htq
      rw [ChinixTimerQueue.requeuePeriodic]
      dsimp only at htq ⊢
      rw [if_pos ⟨hr.1, hr.2.1, hr.2.2⟩, htq]
    refine ⟨host.set tq w, .requeued timer now :: past, hput, ?_⟩
    rw [host.get_set]
    exact ⟨h.link hlink (h.armed.periodic timer hr.2.2) (h.periods timer),
      Nat.le_of_eq (hlink.dueCount hlate), .requeue rfl hr htq⟩
  · refine ⟨w, past, ?_, h, Nat.le_refl _, .leave rfl hr⟩
    rw [ChinixTimerQueue.requeuePeriodic]
    exact if_neg hr

/-- **The loop of `timer_tick` terminates, and is a run of the system**:
    modest callbacks let it run no more rounds than there were due timers. -/
theorem timerTickLoop_returns (hmodest : Modest host now)
    (hk : clock.time k = now) (s0 : TimerSystem R C K) (n : Nat) :
    ∀ (ret : HandlerReturn) (w : W) (past : List (TimerEvent R C K)),
      WithinTick clock (NoOverflow clock) s0
        ⟨host.get w, k, .atHead now, past⟩ →
      CanTick now (host.get w) → dueCount now (host.get w) < n →
      ∃ ret' w' history, timerTickLoop host now n ret w = .ok (ret', w') ∧
        WithinTick clock (NoOverflow clock) s0
          ⟨host.get w', k, .outside, history⟩ := by
  have hle : now.toNat ≤ (implicitInt now).toNat := by
    rw [← hk]
    exact clock.le_implicitInt k
  induction n with
  | zero => intro ret w past _ _ hn; exact absurd hn (Nat.not_lt_zero _)
  | succ n ih =>
      intro ret w past hs hcan hn
      rw [timerTickLoop]
      cases hq : (host.get w).queue with
      | nil =>
          exact ⟨ret, w, past, rfl, .next .head hs ⟨trivial, by simp⟩
            (.finish rfl fun _ _ heq => by cases hq.symm.trans heq)⟩
      | cons timer rest =>
          dsimp only
          by_cases hdue : now < ((host.get w).timers timer).schedTime
          · rw [if_pos hdue]
            refine ⟨ret, w, past, rfl, .next .head hs ⟨trivial, by simp⟩
              (.finish rfl fun timer' rest' heq => ?_)⟩
            cases hq.symm.trans heq
            exact hdue
          · rw [if_neg hdue]
            obtain ⟨callback, hcb⟩ := Option.ne_none_iff_exists'.mp
              (hcan.armed.linked timer (by rw [hq]; exact List.mem_cons_self))
            rw [hcb]
            -- the head is gone, and nothing that follows becomes due
            have hexpire := Runs.Reachable.next Action.head hs
              ⟨trivial, by simp⟩ (.expire rfl hq hdue hcb)
            have hdrop := dueCount_dropHead hq hdue
            have hcan0 : CanTick now (host.get w).dropHead :=
              ⟨⟨fun r hr => hcan.armed.linked r (List.mem_of_mem_tail hr),
                hcan.armed.periodic⟩, hcan.periods⟩
            obtain ⟨⟨r, w1⟩, hinvoke⟩ :=
              hmodest.returns callback timer (host.set (host.get w).dropHead w)
            have hc := hmodest.calls callback timer _ r w1 hinvoke
            rw [host.get_set] at hc
            obtain ⟨hcan1, hle1⟩ := hcan0.calls hle hc
            obtain ⟨past1, hcallback⟩ := calls_reachable hc hk
              (fun _ _ _ hfits => ⟨by rw [← hk] at hfits; exact hfits, by simp⟩)
              hexpire
            obtain ⟨w2, past2, hrequeue, hcan2, hle2, hback⟩ :=
              hcan1.requeuePeriodic clock k timer
                (decide (((host.get w).timers timer).periodicTime > 0)) past1
            have hround := Runs.Reachable.next Action.callbackReturns hcallback
              ⟨fun _ => hcan1.periods timer, by simp⟩ hback
            obtain ⟨ret', w', history, hresult, hrun⟩ := ih
              (if r = .reschedule then .reschedule else ret) w2 past2 hround
              hcan2 (by omega)
            refine ⟨ret', w', history, ?_, hrun⟩
            dsimp only
            rw [hinvoke, Outcome.ok_bind, hrequeue, Outcome.ok_bind]
            exact hresult

/-- `timer_tick` returns, and what it has done to the timers is the run of a
    tick, at the end of which the rest of the machine gets its own tick. -/
theorem timerTick_returns (hmodest : Modest host now)
    (threadTimerTick : W → HandlerReturn × W) {w : W}
    (past : List (TimerEvent R C K)) (hk : clock.time k = now)
    (hcan : CanTick now (host.get w)) :
    ∃ ret w' history,
      timerTick host threadTimerTick now w = .ok
        (if (threadTimerTick w').1 = .reschedule then .reschedule else ret,
          (threadTimerTick w').2) ∧
      WithinTick clock (NoOverflow clock) ⟨host.get w, k, .atHead now, past⟩
        ⟨host.get w', k, .outside, history⟩ := by
  obtain ⟨ret, w', history, hloop, hrun⟩ := timerTickLoop_returns hmodest hk _
    ((host.get w).queue.length + 1) .noReschedule w past .start hcan
    (Nat.lt_succ_of_le List.countP_le_length)
  refine ⟨ret, w', history, ?_, hrun⟩
  rw [timerTick, hloop, Outcome.ok_bind]
  rfl

end Returns

section Reached

variable {clock : Clock K} {k0 : K} {s : TimerSystem R C K}
  {ok : TimerSystem R C K → Action R C → Prop}

theorem armed_of_reachable (h : Reachable clock ok k0 s) : Armed s.tq :=
  Runs.Reachable.invariant (I := fun s => Armed s.tq) (armed_init k0)
    (fun _ _ _ hI _ hs => hI.step hs) h

theorem sorted_of_reachable (h : Reachable clock ok k0 s) : Sorted s :=
  Runs.Reachable.invariant (I := Sorted)
    (show Sorted (TimerSystem.init k0) from List.Pairwise.nil)
    (fun _ _ _ hI _ hs => hI.step hs) h

theorem onTime_of_reachable (h : Reachable clock ok k0 s) : OnTime clock s :=
  Runs.Reachable.invariant (I := OnTime clock)
    (show OnTime clock (TimerSystem.init k0) from trivial)
    (fun _ _ _ hI _ hs => hI.step hs) h

end Reached

/-- **The order of the queue, and what `timer_tick` does to it.**  In every
    state reached without a sum of the code that wraps around, the queue is
    sorted by `sched_time`, equal times in insertion order, and the loop can
    go on.  A tick that is told `now`, which is the time, stays in order
    however the callbacks use the interface; and `timer_tick` itself, with
    callbacks that return, comes to an end as such a run. -/
theorem timerQueue_ordered (clock : Clock K) (k0 : K) (s : TimerSystem R C K)
    (h : Reachable clock (NoOverflow clock) k0 s) :
    Sorted s ∧ GoesOn clock s ∧
    ∀ now, s.phase = .atHead now → now = clock.time s.clock ∧
      Drains clock (NoOverflow clock) now s ∧
      ∀ (W F : Type) (host : TimerHost R C W F) (w : W)
        (threadTimerTick : W → HandlerReturn × W),
        host.get w = s.tq → Modest host now →
        (∀ r, now.toNat + (s.tq.timers r).periodicTime.toNat < 2 ^ 64) →
        ∃ ret w' s', WithinTick clock (NoOverflow clock) s s' ∧
          s'.phase = .outside ∧ s'.tq = host.get w' ∧
          timerTick host threadTimerTick now w = .ok
            (if (threadTimerTick w').1 = .reschedule then .reschedule
              else ret, (threadTimerTick w').2) := by
  refine ⟨sorted_of_reachable h, goesOn_of_armed (armed_of_reachable h), ?_⟩
  intro now hp
  have htime : clock.time s.clock = now := by
    have := onTime_of_reachable h
    rw [OnTime] at this
    rw [hp] at this
    exact this
  refine ⟨htime.symm, drains_of_sorted (sorted_of_reachable h) hp htime, ?_⟩
  intro W F host w threadTimerTick hw hmodest hperiods
  have hcan : CanTick now (host.get w) := by
    rw [hw]
    exact ⟨armed_of_reachable h, hperiods⟩
  obtain ⟨ret, w', history, htick, hrun⟩ := timerTick_returns hmodest
    threadTimerTick s.history htime hcan
  refine ⟨ret, w', ⟨host.get w', s.clock, .outside, history⟩, ?_, rfl, rfl,
    htick⟩
  rw [hw, ← hp] at hrun
  exact hrun

/-- A clock that advances by one and tells `timer_tick` each time. -/
def countingClock : Clock (BitVec 32) where
  time k := k.setWidth 64
  tick k := (some ((k + 1).setWidth 64), k + 1)
  below k := by
    rw [BitVec.toNat_setWidth]
    exact Nat.lt_of_le_of_lt (Nat.mod_le _ _) k.isLt
  tells := by
    intro k now k' h
    cases h
    rfl

/-- What a replay ends in is reachable without a sum that wraps around. -/
theorem reachable_of_replay {clock : Clock K} {k0 : K}
    {s : TimerSystem R C K} (as : List (Action R C))
    (h : Runs.replay (next clock) (NoOverflow clock) as (.init k0) = some s) :
    Reachable clock (NoOverflow clock) k0 s :=
  Runs.reachable_of_replay (fun _ _ _ => step_of_next) .start h

/-- The theorem after a timer was armed for one unit and then fell due. -/
theorem timerQueue_ordered_due :
    ∃ s : TimerSystem Nat Unit (BitVec 32), s.phase = .atHead 1 ∧ Sorted s ∧
      GoesOn countingClock s ∧
      ∀ s', WithinTick countingClock (NoOverflow countingClock) s s' →
        s'.phase = .outside → ∃ new, s'.history = new ++ s.history ∧
          Handled 0 new := by
  have hrun : (Runs.replay (next countingClock) (NoOverflow countingClock)
      [.call (.setOneshot 0 1 ()), .tick]
      (.init 0 : TimerSystem Nat Unit (BitVec 32))).any (fun s =>
        decide (s.phase = .atHead 1 ∧ 0 ∈ s.tq.queue ∧
          (s.tq.timers 0).schedTime ≤ 1)) = true := by decide
  obtain ⟨s, hs, hp⟩ := (Option.any_eq_true _ _).mp hrun
  obtain ⟨hphase, hmem, hdue⟩ := of_decide_eq_true hp
  obtain ⟨hsorted, hgoes, htick⟩ := timerQueue_ordered countingClock 0 s
    (reachable_of_replay _ hs)
  refine ⟨s, hphase, hsorted, hgoes, fun s' hs' hout => ?_⟩
  obtain ⟨new, hnew⟩ := (htick 1 hphase).2.1 s' hs'
  exact ⟨new, hnew.history, hnew.handled hout 0 hmem hdue⟩

-- ── A loop that goes on for ever ──

/-- The clock as booted, 214763064 interrupts later: 2147483646 ms. -/
def lateClock : PlatformTimer :=
  { platformSetPeriodicTimer 10 (setPitFrequency 1000 PlatformTimer.zero) with
    timerCurrentTime := 9223372030795489752
    nextTriggerTime := 9223372045444710400 }

/-- What the next interrupt tells `timer_tick`: 2^31 + 8 ms. -/
def lateNow : Time := 2147483656

/-- Timer 0, and no other, is linked, for one invocation, and is due. -/
def DueAlone (tq : TimerQueue Nat Unit) : Prop :=
  tq.queue = [0] ∧ (tq.timers 0).schedTime ≤ lateNow ∧
    (tq.timers 0).periodicTime = 0 ∧ (tq.timers 0).callback = some ()

instance (tq : TimerQueue Nat Unit) : Decidable (DueAlone tq) :=
  inferInstanceAs (Decidable (_ ∧ _))

/-- A round in which the callback arms its timer for 2^31 ms: the sum of the
    code wraps around to 8, and the timer is due again. -/
theorem dueAlone_round {s0 : TimerSystem Nat Unit PlatformTimer}
    {tq : TimerQueue Nat Unit} {k : PlatformTimer}
    {past : List (TimerEvent Nat Unit PlatformTimer)} (h : DueAlone tq)
    (hk : currentTime k = lateNow)
    (hs : WithinTick platformClock (NoTimeOverflow platformClock) s0
      ⟨tq, k, .atHead lateNow, past⟩) :
    ∃ tq' e t, DueAlone tq' ∧
      WithinTick platformClock (NoTimeOverflow platformClock) s0
        ⟨tq', k, .atHead lateNow,
          e :: .invoked 0 () t lateNow :: past⟩ ∧
      invokedTimes [e] = [] := by
  obtain ⟨hq, hdue, hperiod, hcb⟩ := h
  have hgone : (0 : Nat) ∉ tq.dropHead.queue := by
    show 0 ∉ tq.queue.tail
    rw [hq]
    simp
  obtain ⟨tq', hset, -⟩ :=
    timerSet_spec lateNow 2147483648 0 () hgone
  have hlink := insertTimerInQueue_linked hset
  have hself := hlink.timers_self
  have halone : DueAlone tq' := by
    refine ⟨?_, ?_⟩
    · rw [hlink.queue]
      show insertBySchedTime _ 0 tq.queue.tail = [0]
      rw [hq]
      rfl
    · rw [hself]
      decide
  refine ⟨tq', .oneshotSet 0 2147483648 k, (tq.timers 0).schedTime, halone,
    ?_, rfl⟩
  have hexpire := Runs.Reachable.next Action.head hs ⟨trivial, by simp⟩
    (.expire rfl hq (BitVec.not_lt.mpr hdue) hcb)
  have hfits : NoTimeOverflow platformClock
      (⟨tq.dropHead, k, .inCallback lateNow 0
          (decide ((tq.timers 0).periodicTime > 0)),
        .invoked 0 () (tq.timers 0).schedTime lateNow :: past⟩ :
        TimerSystem Nat Unit PlatformTimer)
      (.call (.setOneshot 0 2147483648 ())) := by
    show (currentTime k).toNat + _ < _
    rw [hk]
    decide
  have hcall := Runs.Reachable.next
    (Action.call (.setOneshot 0 2147483648 ())) hexpire ⟨hfits, by simp⟩
    (.call _ trivial (by
      show timerSetOneshot 0 (currentTime k) 2147483648 () tq.dropHead = _
      rw [hk]
      exact hset))
  have hstays : ¬ Requeues tq' 0 (decide ((tq.timers 0).periodicTime > 0)) :=
    fun hr => by
      have hpos := hr.2.2
      rw [hself] at hpos
      exact absurd hpos (by decide)
  exact .next Action.callbackReturns hcall
    ⟨fun hr => absurd hr hstays, by simp⟩ (.leave rfl hstays)

/-- The tick has any number of rounds. -/
theorem dueAlone_rounds {s : TimerSystem Nat Unit PlatformTimer}
    (h : DueAlone s.tq) (hk : currentTime s.clock = lateNow)
    (hp : s.phase = .atHead lateNow) (n : Nat) :
    ∃ tq new, DueAlone tq ∧
      WithinTick platformClock (NoTimeOverflow platformClock) s
        ⟨tq, s.clock, .atHead lateNow, new ++ s.history⟩ ∧
      (invokedTimes new).length = n := by
  induction n with
  | zero =>
      refine ⟨s.tq, [], h, ?_, rfl⟩
      rw [← hp]
      exact .start
  | succ n ih =>
      obtain ⟨tq, new, halone, hrun, hn⟩ := ih
      obtain ⟨tq', e, t, halone', hrun', he⟩ := dueAlone_round halone hk hrun
      refine ⟨tq', e :: .invoked 0 () t lateNow :: new, halone', hrun', ?_⟩
      have hskip : ∀ past, invokedTimes (e :: past) = invokedTimes past := by
        intro past
        cases e with
        | invoked _ _ _ _ => cases he
        | _ => rfl
      rw [hskip]
      exact congrArg (· + 1) hn

/-- After 2^31 ms of uptime the sums with `current_time` may all be below
    2^64, and still the loop of `timer_tick` is not bounded: a callback that
    arms its own timer again for 2^31 ms keeps it going. -/
theorem tick_goes_on :
    ¬ ∀ (k0 : PlatformTimer) (s : TimerSystem Nat Unit PlatformTimer),
      Reachable platformClock (NoTimeOverflow platformClock) k0 s →
      ∀ now, s.phase = .atHead now →
        Drains platformClock (NoTimeOverflow platformClock) now s := by
  intro h
  have hrun : (Runs.replay (next platformClock) (NoTimeOverflow platformClock)
      [.call (.setOneshot 0 1 ()), .tick]
      (.init lateClock : TimerSystem Nat Unit PlatformTimer)).any (fun s =>
        decide (s.phase = .atHead lateNow ∧ DueAlone s.tq ∧
          currentTime s.clock = lateNow)) = true := by decide
  obtain ⟨s, hs, hp⟩ := (Option.any_eq_true _ _).mp hrun
  obtain ⟨hphase, halone, hk⟩ := of_decide_eq_true hp
  have hreach := Runs.reachable_of_replay (fun _ _ _ => step_of_next) .start hs
  obtain ⟨tq, new, -, hlong, hn⟩ :=
    dueAlone_rounds halone hk hphase (dueCount lateNow s.tq + 1)
  obtain ⟨new', hin⟩ := h lateClock s hreach lateNow hphase _ hlong
  cases List.append_cancel_right hin.history
  have hbound := hin.bounded
  omega

end ChinixTimerOrder

import Chinix.ListSequences
import Chinix.TimerOrder

/-! # The timer queue in memory (kernel/timer.c, include/list.h)

    The functions of timer.c on the pointers that they really write: the ring
    of `timer_queue` and the nodes inside the timers.  As long as no linked
    timer is armed, the system of timers is the one whose queue is a sequence,
    step by step, but for the memory. -/

namespace ChinixTimerPointers

open ChinixCircularList ChinixListSequences ChinixTimerQueue
open ChinixTimerSystem ChinixTimerOrder

variable {R C K : Type}

/-- The list nodes: `timer_queue`, and the field `node` of a timer. -/
abbrev Node (R : Type) := Address Unit R

/-- `timer_queue`. -/
def timerQueue : Node R := .head ()

/-- The nodes, and the other fields of the timers. -/
structure TimerMemory (R C : Type) where
  links : Memory (Node R)
  timers : R → Timer C

variable [DecidableEq R]

/-! ## The functions of timer.c

    `none` is the use of a NULL pointer, or a loop that looks at more entries
    than `fuel`.  The assertions are not compiled in by default. -/

/-- The loop of `insert_timer_in_queue`, from `entry` on. -/
def insertLoop (timer : R) (m : TimerMemory R C) :
    Nat → Node R → Option (Memory (Node R))
  | 0, _ => none
  | _ + 1, .head _ => listAddTail timerQueue (.node timer) m.links
  | fuel + 1, .node entry =>
      if (m.timers entry).schedTime > (m.timers timer).schedTime then
        listAddBefore (.node entry) (.node timer) m.links
      else do
        let next ← (m.links (.node entry)).next
        insertLoop timer m fuel next

/-- `insert_timer_in_queue`. -/
def insertTimerInQueue (fuel : Nat) (timer : R) (m : TimerMemory R C) :
    Option (TimerMemory R C) := do
  let first ← (m.links timerQueue).next
  let links ← insertLoop timer m fuel first
  return { m with links := links }

/-- `timer_set` when `current_time` is `time`.  A timer that is linked is
    linked again. -/
def timerSet (fuel : Nat) (timer : R) (time delay period : Time) (callback : C)
    (m : TimerMemory R C) : Option (TimerMemory R C) :=
  insertTimerInQueue fuel timer
    { m with
      timers := Function.update m.timers timer
        ⟨implicitInt time + delay, period, some callback⟩ }

/-- `timer_cancel`. -/
def timerCancel (timer : R) (m : TimerMemory R C) :
    Option (TimerMemory R C) := do
  let links ←
    if listInList (.node timer) m.links then listDelete (.node timer) m.links
    else some m.links
  return {
    links := links
    timers := Function.update m.timers timer
      { m.timers timer with periodicTime := 0, callback := none } }

/-- `timer_set_oneshot`, `timer_set_periodic` and `timer_cancel`. -/
def runCall (fuel : Nat) (time : Time) (m : TimerMemory R C) :
    TimerCall R C → Option (TimerMemory R C)
  | .setOneshot timer delay callback =>
      let delay := if delay = 0 then 1 else delay
      timerSet fuel timer time delay 0 callback m
  | .setPeriodic timer period callback =>
      let period := if period = 0 then 1 else period
      timerSet fuel timer time period period callback m
  | .cancel timer => timerCancel timer m

/-- The condition under which `timer_tick` puts a timer back; `periodic` was
    read before the callback. -/
def PutsBack (m : TimerMemory R C) (timer : R) (periodic : Bool) : Prop :=
  periodic = true ∧ listInList (.node timer) m.links = false ∧
    (m.timers timer).periodicTime > 0

instance (m : TimerMemory R C) (timer : R) (periodic : Bool) :
    Decidable (PutsBack m timer periodic) :=
  inferInstanceAs (Decidable (_ ∧ _))

/-- How it does. -/
def putBack (fuel : Nat) (timer : R) (now : Time) (m : TimerMemory R C) :
    Option (TimerMemory R C) :=
  let t := m.timers timer
  insertTimerInQueue fuel timer
    { m with
      timers := Function.update m.timers timer
        { t with schedTime := now + t.periodicTime } }

/-! ## The system -/

/-- The timers in memory, the clock and what has happened. -/
structure PointerSystem (R C K : Type) where
  mem : TimerMemory R C
  clock : K
  phase : Phase R
  history : List (TimerEvent R C K)

/-- `timer_init`, with the timers initialized by `timer_initialize`. -/
def PointerSystem.init (clock : K) : PointerSystem R C K where
  mem :=
    { links := listInitialize timerQueue fun _ => ⟨none, none⟩
      timers := fun _ => Timer.initial }
  clock := clock
  phase := .outside
  history := []

/-- One step, as one of the system of timers. -/
inductive Step (clock : Clock K) :
    PointerSystem R C K → Action R C → PointerSystem R C K → Prop where
  | call {s : PointerSystem R C K} {m : TimerMemory R C} (c : TimerCall R C)
      (fuel : Nat) :
      s.phase.Open → runCall fuel (clock.time s.clock) s.mem c = some m →
      Step clock s (.call c)
        { s with mem := m, history := c.event s.clock :: s.history }
  | idle {s : PointerSystem R C K} {k : K} :
      s.phase = .outside → clock.tick s.clock = (none, k) →
      Step clock s .tick { s with clock := k }
  | trigger {s : PointerSystem R C K} {now : Time} {k : K} :
      s.phase = .outside → clock.tick s.clock = (some now, k) →
      Step clock s .tick { s with clock := k, phase := .atHead now }
  | expire {s : PointerSystem R C K} {now : Time} {timer : R} {callback : C}
      {links : Memory (Node R)} :
      s.phase = .atHead now →
      listPeekHead timerQueue s.mem.links = some (some (.node timer)) →
      ¬ now < (s.mem.timers timer).schedTime →
      (s.mem.timers timer).callback = some callback →
      listDelete (.node timer) s.mem.links = some links →
      Step clock s .head
        { s with
          mem := { s.mem with links := links }
          phase := .inCallback now timer
            (decide ((s.mem.timers timer).periodicTime > 0))
          history := .invoked timer callback (s.mem.timers timer).schedTime now
            :: s.history }
  | finishEmpty {s : PointerSystem R C K} {now : Time} :
      s.phase = .atHead now →
      listPeekHead timerQueue s.mem.links = some none →
      Step clock s .head { s with phase := .outside }
  | finishEarly {s : PointerSystem R C K} {now : Time} {timer : R} :
      s.phase = .atHead now →
      listPeekHead timerQueue s.mem.links = some (some (.node timer)) →
      now < (s.mem.timers timer).schedTime →
      Step clock s .head { s with phase := .outside }
  | requeue {s : PointerSystem R C K} {now : Time} {timer : R}
      {periodic : Bool} {m : TimerMemory R C} (fuel : Nat) :
      s.phase = .inCallback now timer periodic →
      PutsBack s.mem timer periodic → putBack fuel timer now s.mem = some m →
      Step clock s .callbackReturns
        { s with
          mem := m
          phase := .atHead now
          history := .requeued timer now :: s.history }
  | leave {s : PointerSystem R C K} {now : Time} {timer : R}
      {periodic : Bool} :
      s.phase = .inCallback now timer periodic →
      ¬ PutsBack s.mem timer periodic →
      Step clock s .callbackReturns { s with phase := .atHead now }

/-- The timer that a call arms is not linked: what the assertion of
    `timer_set` asks for. -/
def ArmsUnlinked (s : PointerSystem R C K) : Action R C → Prop
  | .call (.setOneshot timer _ _) => listInList (.node timer) s.mem.links = false
  | .call (.setPeriodic timer _ _) => listInList (.node timer) s.mem.links = false
  | _ => True

instance (s : PointerSystem R C K) (a : Action R C) :
    Decidable (ArmsUnlinked s a) :=
  match a with
  | .call (.setOneshot _ _ _) => inferInstanceAs (Decidable (_ = _))
  | .call (.setPeriodic _ _ _) => inferInstanceAs (Decidable (_ = _))
  | .call (.cancel _) => inferInstanceAs (Decidable True)
  | .tick => inferInstanceAs (Decidable True)
  | .head => inferInstanceAs (Decidable True)
  | .callbackReturns => inferInstanceAs (Decidable True)

/-- The states reached by steps that meet `ok`. -/
abbrev Reachable (clock : Clock K) (ok : PointerSystem R C K → Action R C → Prop)
    (k0 : K) : PointerSystem R C K → Prop :=
  Runs.Reachable (PointerSystem.init k0) (Step clock) ok

/-- The step that an action makes, if it can, with loops of at most `fuel`
    entries. -/
def next (clock : Clock K) (fuel : Nat) (s : PointerSystem R C K) :
    Action R C → Option (PointerSystem R C K)
  | .call c =>
      if s.phase.Open then
        (runCall fuel (clock.time s.clock) s.mem c).map fun m =>
          { s with mem := m, history := c.event s.clock :: s.history }
      else none
  | .tick =>
      match s.phase, clock.tick s.clock with
      | .outside, (none, k) => some { s with clock := k }
      | .outside, (some now, k) =>
          some { s with clock := k, phase := .atHead now }
      | _, _ => none
  | .head =>
      match s.phase, listPeekHead timerQueue s.mem.links with
      | .atHead _, some none => some { s with phase := .outside }
      | .atHead now, some (some (.node timer)) =>
          let t := s.mem.timers timer
          if now < t.schedTime then some { s with phase := .outside }
          else
            match t.callback, listDelete (.node timer) s.mem.links with
            | some callback, some links => some { s with
                mem := { s.mem with links := links }
                phase := .inCallback now timer (decide (t.periodicTime > 0))
                history := .invoked timer callback t.schedTime now :: s.history }
            | _, _ => none
      | _, _ => none
  | .callbackReturns =>
      match s.phase with
      | .inCallback now timer periodic =>
          if PutsBack s.mem timer periodic then
            (putBack fuel timer now s.mem).map fun m =>
              { s with
                mem := m
                phase := .atHead now
                history := .requeued timer now :: s.history }
          else some { s with phase := .atHead now }
      | _ => none

theorem step_of_next {clock : Clock K} {fuel : Nat} {s s' : PointerSystem R C K}
    {a : Action R C} (h : next clock fuel s a = some s') : Step clock s a s' := by
  cases a with
  | call c =>
      simp only [next] at h
      by_cases hp : s.phase.Open
      · rw [if_pos hp] at h
        obtain ⟨m, hm, rfl⟩ := Option.map_eq_some_iff.mp h
        exact .call c fuel hp hm
      · rw [if_neg hp] at h
        cases h
  | tick =>
      simp only [next] at h
      split at h
      · rename_i hp ht
        cases h
        exact .idle hp ht
      · rename_i hp ht
        cases h
        exact .trigger hp ht
      · cases h
  | head =>
      simp only [next] at h
      split at h
      · rename_i hp hpeek
        cases h
        exact .finishEmpty hp hpeek
      · rename_i now timer hp hpeek
        by_cases hdue : now < (s.mem.timers timer).schedTime
        · rw [if_pos hdue] at h
          cases h
          exact .finishEarly hp hpeek hdue
        · rw [if_neg hdue] at h
          split at h
          · rename_i callback links hcb hdel
            cases h
            exact .expire hp hpeek hdue hcb hdel
          · cases h
      · cases h
  | callbackReturns =>
      simp only [next] at h
      split at h
      · rename_i now timer periodic hp
        by_cases hr : PutsBack s.mem timer periodic
        · rw [if_pos hr] at h
          obtain ⟨m, hm, rfl⟩ := Option.map_eq_some_iff.mp h
          exact .requeue fuel hp hr hm
        · rw [if_neg hr] at h
          cases h
          exact .leave hp hr
      · cases h

/-! ## What the pointers stand for -/

/-- The memory holds a queue: the ring of `timer_queue` is the sequence, the
    nodes of the other timers are cleared, and the other fields are as they
    should be. -/
structure Holds (m : TimerMemory R C) (tq : TimerQueue R C) : Prop where
  ring : Ring m.links timerQueue (tq.queue.map .node)
  cleared : ∀ r, r ∉ tq.queue → m.links (.node r) = ⟨none, none⟩
  timers : m.timers = tq.timers

variable {m m' : TimerMemory R C} {tq tq' : TimerQueue R C} {timer r : R}

omit [DecidableEq R] in
theorem node_mem_ring {q : List R} :
    (.node r : Node R) ∈ timerQueue :: q.map .node ↔ r ∈ q := by
  rw [List.mem_cons, List.mem_map]
  constructor
  · rintro (h | ⟨x, hx, heq⟩)
    · cases h
    · cases heq
      exact hx
  · exact fun h => .inr ⟨r, h, rfl⟩

/-- `list_in_list` tells which timers are armed. -/
theorem Holds.inList_iff (h : Holds m tq) :
    listInList (.node r) m.links = true ↔ r ∈ tq.queue := by
  constructor
  · intro hin
    by_contra hr
    rw [listInList, h.cleared r hr] at hin
    simp at hin
  · exact fun hr => ring_inList h.ring (List.mem_map.mpr ⟨r, hr, rfl⟩)

/-- `list_peek_head` finds the timer that is due first. -/
theorem Holds.peekHead (h : Holds m tq) :
    listPeekHead timerQueue m.links = some (tq.queue.head?.map .node) := by
  rw [ring_peekHead h.ring, List.head?_map]

theorem holds_init (k0 : K) :
    Holds (PointerSystem.init k0 : PointerSystem R C K).mem
      (TimerSystem.init k0 : TimerSystem R C K).tq := by
  refine ⟨ring_initialized _ _, fun r _ => ?_, rfl⟩
  have hne : (.node r : Node R) ≠ timerQueue := fun h => by cases h
  show listInitialize timerQueue (fun _ => ⟨none, none⟩) (.node r) = _
  rw [listInitialize, setPrev_of_ne _ _ hne, setNext_of_ne _ _ hne]

/-! ## The functions on a memory that holds a queue -/

/-- A loop comes to `x` when the fuel is more than `n`, and with less fuel to
    nothing else. -/
structure Computes {X : Type} (loop : Nat → Option X) (n : Nat) (x : X) :
    Prop where
  only : ∀ fuel y, loop fuel = some y → y = x
  enough : ∀ fuel, n < fuel → loop fuel = some x

/-- **The loop of `insert_timer_in_queue`**: with `ys` behind it and `zs` in
    front of it, it inserts into `zs`. -/
theorem insertLoop_ring {ys zs : List R}
    (h : Ring m.links timerQueue ((ys ++ zs).map .node))
    (hx : timer ∉ ys ++ zs) :
    ∃ links, Ring links timerQueue ((ys ++ insertBySchedTime
        (fun r => (m.timers r).schedTime) timer zs).map .node) ∧
      OthersKept (.node timer :: timerQueue :: (ys ++ zs).map .node) m.links
        links ∧
      Computes (fun fuel => insertLoop timer m fuel
        (zs.head?.elim timerQueue .node)) zs.length links := by
  have hfresh : (.node timer : Node R) ∉ timerQueue :: (ys ++ zs).map .node :=
    fun hmem => hx (node_mem_ring.mp hmem)
  induction zs generalizing ys with
  | nil =>
      obtain ⟨links, hadd, hring, hkept⟩ := ring_addTail h hfresh
      refine ⟨links, ?_, hkept, ?_, ?_⟩
      · rw [List.append_nil] at hring
        rw [insertBySchedTime, List.map_append]
        exact hring
      · intro fuel y hy
        cases fuel with
        | zero => cases hy
        | succ fuel => exact Option.some.inj (hy.symm.trans hadd)
      · intro fuel hfuel
        cases fuel with
        | zero => exact absurd hfuel (Nat.lt_irrefl 0)
        | succ fuel => exact hadd
  | cons z zs ih =>
      have hsplit : Ring m.links timerQueue
          (ys.map .node ++ .node z :: zs.map .node) := by
        rw [← List.map_cons, ← List.map_append]
        exact h
      by_cases hdue : (m.timers z).schedTime > (m.timers timer).schedTime
      · have hfresh' := hfresh
        rw [List.map_append, List.map_cons] at hfresh'
        obtain ⟨links, hadd, hring, hkept⟩ := ring_addBefore hsplit hfresh'
        have hloop : ∀ fuel, insertLoop timer m (fuel + 1) (.node z)
            = some links := by
          intro fuel
          rw [insertLoop, if_pos hdue]
          exact hadd
        refine ⟨links, ?_, ?_, ?_, ?_⟩
        · rw [insertBySchedTime, if_pos hdue, List.map_append, List.map_cons,
            List.map_cons]
          exact hring
        · rw [List.map_append, List.map_cons]
          exact hkept
        · intro fuel y hy
          cases fuel with
          | zero => cases hy
          | succ fuel => exact Option.some.inj (hy.symm.trans (hloop fuel))
        · intro fuel hfuel
          cases fuel with
          | zero => exact absurd hfuel (Nat.not_lt_zero _)
          | succ fuel => exact hloop fuel
      · -- the entry stays in front: the loop goes on behind it
        have hmoved : ys ++ z :: zs = (ys ++ [z]) ++ zs :=
          List.append_cons ys z zs
        rw [hmoved] at h hx hfresh
        obtain ⟨links, hring, hkept, hloop⟩ := ih h hx hfresh
        have hnext : (m.links (.node z)).next
            = some (zs.head?.elim timerQueue .node) := by
          rw [ring_next (ring_rotate hsplit)]
          cases zs <;> rfl
        have hgo : ∀ fuel, insertLoop timer m (fuel + 1) (.node z)
            = insertLoop timer m fuel (zs.head?.elim timerQueue .node) := by
          intro fuel
          rw [insertLoop, if_neg hdue, hnext]
          rfl
        refine ⟨links, ?_, ?_, ?_, ?_⟩
        · rw [insertBySchedTime, if_neg hdue, List.append_cons]
          exact hring
        · rw [hmoved]
          exact hkept
        · intro fuel y hy
          cases fuel with
          | zero => cases hy
          | succ fuel => exact hloop.only fuel y ((hgo fuel).symm.trans hy)
        · intro fuel hfuel
          cases fuel with
          | zero => exact absurd hfuel (Nat.not_lt_zero _)
          | succ fuel =>
              exact (hgo fuel).trans
                (hloop.enough fuel (Nat.lt_of_succ_lt_succ hfuel))

/-- **Insertion.** -/
theorem Holds.insert (h : Holds m tq) (hr : timer ∉ tq.queue) :
    ∃ m' tq', ChinixTimerQueue.insertTimerInQueue timer tq = .ok tq' ∧
      Holds m' tq' ∧
      Computes (fun fuel => insertTimerInQueue fuel timer m) tq.queue.length
        m' := by
  have hring : Ring m.links timerQueue (([] ++ tq.queue).map .node) := h.ring
  obtain ⟨links, hnew, hkept, hloop⟩ := insertLoop_ring hring hr
  have hfirst : (m.links timerQueue).next
      = some (tq.queue.head?.elim timerQueue .node) := by
    rw [ring_next h.ring]
    cases tq.queue <;> rfl
  have hinsert : ∀ fuel, insertTimerInQueue fuel timer m
      = (insertLoop timer m fuel (tq.queue.head?.elim timerQueue .node)).map
          fun links => { m with links := links } := by
    intro fuel
    rw [insertTimerInQueue, hfirst, Option.bind_eq_bind, Option.bind_some]
    cases insertLoop timer m fuel (tq.queue.head?.elim timerQueue .node) <;> rfl
  refine ⟨{ m with links := links }, _, dif_neg hr, ⟨?_, ?_, h.timers⟩, ?_, ?_⟩
  · rw [h.timers] at hnew
    exact hnew
  · intro r hmem
    have hmem' : r ≠ timer ∧ r ∉ tq.queue := by
      rw [← not_or, ← mem_insertBySchedTime]
      exact hmem
    have hout : (.node r : Node R) ∉
        .node timer :: timerQueue :: ([] ++ tq.queue).map .node := by
      rw [List.mem_cons, not_or]
      refine ⟨fun he => hmem'.1 (by cases he; rfl), fun he => ?_⟩
      exact hmem'.2 (node_mem_ring.mp he)
    show links (.node r) = _
    rw [hkept.node _ hout, h.cleared r hmem'.2]
  · intro fuel y hy
    rw [hinsert] at hy
    obtain ⟨l, hl, rfl⟩ := Option.map_eq_some_iff.mp hy
    rw [hloop.only fuel l hl]
  · intro fuel hfuel
    rw [hinsert, hloop.enough fuel hfuel]
    rfl

/-- **Arming.** -/
theorem Holds.set (h : Holds m tq) (t : Timer C) (hr : timer ∉ tq.queue) :
    ∃ m' tq', ChinixTimerQueue.insertTimerInQueue timer
        { tq with timers := Function.update tq.timers timer t } = .ok tq' ∧
      Holds m' tq' ∧
      Computes (fun fuel => insertTimerInQueue fuel timer
        { m with timers := Function.update m.timers timer t })
        tq.queue.length m' := by
  have hwrite : Holds { m with timers := Function.update m.timers timer t }
      { tq with timers := Function.update tq.timers timer t } := by
    refine ⟨h.ring, h.cleared, ?_⟩
    show Function.update m.timers timer t = _
    rw [h.timers]
  exact hwrite.insert hr

/-- **Deletion.** -/
theorem Holds.delete (h : Holds m tq) (hr : timer ∈ tq.queue) :
    ∃ links, listDelete (.node timer) m.links = some links ∧
      Ring links timerQueue ((tq.queue.erase timer).map .node) ∧
      ∀ r, r ∉ tq.queue.erase timer → links (.node r) = ⟨none, none⟩ := by
  have hinj : Function.Injective (Address.node : R → Node R) :=
    fun _ _ he => by cases he; rfl
  obtain ⟨links, hdel, hring, hself, hkept⟩ := h.ring.delete
    (x := .node timer) (List.mem_map.mpr ⟨timer, hr, rfl⟩)
  refine ⟨links, hdel, ?_, fun r hmem => ?_⟩
  · rw [List.map_erase hinj]
    exact hring
  · by_cases hrt : r = timer
    · rw [hrt]
      exact hself
    · have hout : r ∉ tq.queue := fun hin =>
        hmem ((List.mem_erase_of_ne hrt).mpr hin)
      rw [hkept _ fun he => hout (node_mem_ring.mp he), h.cleared r hout]

/-- **Cancelling.** -/
theorem Holds.cancel (h : Holds m tq) (timer : R) :
    ∃ m', timerCancel timer m = some m' ∧
      Holds m' (ChinixTimerQueue.timerCancel timer tq) := by
  have htimers : Function.update m.timers timer
      { m.timers timer with periodicTime := 0, callback := none }
      = (ChinixTimerQueue.timerCancel timer tq).timers := by
    rw [h.timers]
    rfl
  by_cases hr : timer ∈ tq.queue
  · obtain ⟨links, hdel, hring, hcleared⟩ := h.delete hr
    refine ⟨⟨links, _⟩, ?_, ⟨hring, hcleared, htimers⟩⟩
    rw [timerCancel, if_pos (h.inList_iff.mpr hr), hdel]
    rfl
  · have hout : ¬ listInList (.node timer) m.links = true := fun hin =>
      hr (h.inList_iff.mp hin)
    have herase : tq.queue.erase timer = tq.queue := List.erase_of_not_mem hr
    refine ⟨⟨m.links, _⟩, ?_, ⟨?_, ?_, htimers⟩⟩
    · rw [timerCancel, if_neg hout]
      rfl
    · show Ring m.links timerQueue ((tq.queue.erase timer).map .node)
      rw [herase]
      exact h.ring
    · show ∀ r, r ∉ tq.queue.erase timer → _
      rw [herase]
      exact h.cleared

/-- The call arms no linked timer, in terms of the queue. -/
def Unlinked (tq : TimerQueue R C) : TimerCall R C → Prop
  | .setOneshot timer _ _ => timer ∉ tq.queue
  | .setPeriodic timer _ _ => timer ∉ tq.queue
  | .cancel _ => True

/-- **A call** of the interface. -/
theorem Holds.call (h : Holds m tq) (time : Time) {c : TimerCall R C}
    (hc : Unlinked tq c) :
    ∃ m' tq' n, c.run time tq = .ok tq' ∧ Holds m' tq' ∧
      Computes (fun fuel => runCall fuel time m c) n m' := by
  cases c with
  | setOneshot timer delay callback =>
      obtain ⟨m', tq', hset, hm', hloop⟩ :=
        h.set ⟨implicitInt time + _, 0, some callback⟩ hc
      exact ⟨m', tq', _, hset, hm', hloop⟩
  | setPeriodic timer period callback =>
      obtain ⟨m', tq', hset, hm', hloop⟩ :=
        h.set ⟨implicitInt time + _, _, some callback⟩ hc
      exact ⟨m', tq', _, hset, hm', hloop⟩
  | cancel timer =>
      obtain ⟨m', hcancel, hm'⟩ := h.cancel timer
      refine ⟨m', _, 0, rfl, hm', fun _ y hy => ?_, fun _ _ => hcancel⟩
      exact Option.some.inj (hy.symm.trans hcancel)

/-- A call that the system of timers makes arms no linked timer. -/
theorem unlinked_of_run {time : Time} {c : TimerCall R C}
    (h : c.run time tq = .ok tq') : Unlinked tq c := by
  cases c with
  | setOneshot timer delay callback => exact (timerSet_ok h).1
  | setPeriodic timer period callback => exact (timerSet_ok h).1
  | cancel timer => exact trivial

theorem Holds.putsBack_iff (h : Holds m tq) (periodic : Bool) :
    PutsBack m timer periodic ↔ Requeues tq timer periodic := by
  rw [PutsBack, Requeues, h.timers, ← h.inList_iff, Bool.not_eq_true]

/-- **A periodic timer goes back.** -/
theorem Holds.putBack (h : Holds m tq) (now : Time) (hr : timer ∉ tq.queue) :
    ∃ m' tq', requeue timer now tq = .ok tq' ∧ Holds m' tq' ∧
      Computes (fun fuel => ChinixTimerPointers.putBack fuel timer now m)
        tq.queue.length m' := by
  obtain ⟨m', tq', hins, hm', hloop⟩ := h.set
    { tq.timers timer with
      schedTime := now + (tq.timers timer).periodicTime } hr
  refine ⟨m', tq', hins, hm', ?_⟩
  rw [← h.timers] at hloop
  exact hloop

/-- **The first timer expires.** -/
theorem Holds.dropHead (h : Holds m tq) {rest : List R}
    (hq : tq.queue = timer :: rest) :
    ∃ links, listDelete (.node timer) m.links = some links ∧
      Holds { m with links := links } tq.dropHead := by
  have hmem : timer ∈ tq.queue := by
    rw [hq]
    exact List.mem_cons_self
  obtain ⟨links, hdel, hring, hcleared⟩ := h.delete hmem
  have htail : tq.queue.erase timer = tq.dropHead.queue := by
    show _ = tq.queue.tail
    rw [hq, List.erase_cons_head]
    rfl
  rw [htail] at hring hcleared
  exact ⟨links, hdel, hring, hcleared, h.timers⟩

/-! ## The two systems -/

/-- The pointers stand for the queue, and the rest is the same. -/
structure Corresponds (p : PointerSystem R C K) (s : TimerSystem R C K) :
    Prop where
  holds : Holds p.mem s.tq
  clock : p.clock = s.clock
  phase : p.phase = s.phase
  history : p.history = s.history

variable {clock : Clock K} {p p' : PointerSystem R C K}
  {s s' : TimerSystem R C K} {a : Action R C}

/-- The head of the queue is what `list_peek_head` finds. -/
theorem Corresponds.peek_timer (h : Corresponds p s)
    (hpeek : listPeekHead timerQueue p.mem.links = some (some (.node timer))) :
    ∃ rest, s.tq.queue = timer :: rest := by
  rw [h.holds.peekHead] at hpeek
  cases hq : s.tq.queue with
  | nil => simp [hq] at hpeek
  | cons r rest =>
      simp only [hq, List.head?_cons, Option.map_some, Option.some.injEq,
        Address.node.injEq] at hpeek
      exact ⟨rest, by rw [hpeek]⟩

theorem Corresponds.peek_empty (h : Corresponds p s)
    (hpeek : listPeekHead timerQueue p.mem.links = some none) :
    s.tq.queue = [] := by
  rw [h.holds.peekHead] at hpeek
  cases hq : s.tq.queue with
  | nil => rfl
  | cons r rest => simp [hq] at hpeek

/-- The two conditions on the armed timers are one. -/
theorem Corresponds.armsUnlinked_iff (h : Corresponds p s)
    (c : TimerCall R C) : ArmsUnlinked p (.call c) ↔ Unlinked s.tq c := by
  have hnode : ∀ timer, listInList (.node timer) p.mem.links = false ↔
      timer ∉ s.tq.queue := fun timer => by
    rw [← h.holds.inList_iff, Bool.not_eq_true]
  cases c with
  | setOneshot timer _ _ => exact hnode timer
  | setPeriodic timer _ _ => exact hnode timer
  | cancel _ => exact Iff.rfl

/-- **Simulation**: what the pointers do, the sequence does. -/
theorem Corresponds.step (h : Corresponds p s) (hok : ArmsUnlinked p a)
    (hstep : Step clock p a p') :
    ∃ s', ChinixTimerSystem.Step clock s a s' ∧ Corresponds p' s' := by
  obtain ⟨hholds, hclock, hphase, hhistory⟩ := h
  cases hstep with
  | call c fuel hopen hrun =>
      have hc := (Corresponds.armsUnlinked_iff
        ⟨hholds, hclock, hphase, hhistory⟩ c).mp hok
      rw [hphase] at hopen
      rw [hclock] at hrun ⊢
      obtain ⟨m', tq', n, hdone, hm', hloop⟩ :=
        hholds.call (clock.time s.clock) hc
      rw [hloop.only fuel _ hrun, hhistory]
      exact ⟨_, .call c hopen hdone, hm', rfl, hphase, rfl⟩
  | idle hout htick =>
      rw [hphase] at hout
      rw [hclock] at htick
      exact ⟨_, .idle hout htick, hholds, rfl, hphase, hhistory⟩
  | trigger hout htick =>
      rw [hphase] at hout
      rw [hclock] at htick
      exact ⟨_, .trigger hout htick, hholds, rfl, rfl, hhistory⟩
  | expire hat hpeek hdue hcb hdel =>
      obtain ⟨rest, hq⟩ :=
        Corresponds.peek_timer ⟨hholds, hclock, hphase, hhistory⟩ hpeek
      obtain ⟨links, hdel', hm'⟩ := hholds.dropHead hq
      cases hdel.symm.trans hdel'
      rw [hholds.timers] at hdue hcb
      rw [hphase] at hat
      refine ⟨_, .expire hat hq hdue hcb, hm', hclock, ?_, ?_⟩
      · rw [hholds.timers]
      · rw [hholds.timers, hhistory]
  | finishEmpty hat hpeek =>
      have hq := Corresponds.peek_empty ⟨hholds, hclock, hphase, hhistory⟩ hpeek
      rw [hphase] at hat
      refine ⟨_, .finish hat fun timer rest heq => ?_, hholds, hclock, rfl,
        hhistory⟩
      cases hq.symm.trans heq
  | finishEarly hat hpeek hearly =>
      obtain ⟨rest, hq⟩ :=
        Corresponds.peek_timer ⟨hholds, hclock, hphase, hhistory⟩ hpeek
      rw [hphase] at hat
      rw [hholds.timers] at hearly
      refine ⟨_, .finish hat fun timer rest heq => ?_, hholds, hclock, rfl,
        hhistory⟩
      cases hq.symm.trans heq
      exact hearly
  | requeue fuel hin hback hput =>
      rw [hphase] at hin
      have hreq := (hholds.putsBack_iff _).mp hback
      obtain ⟨m', tq', hdone, hm', hloop⟩ := hholds.putBack _ hreq.2.1
      rw [hloop.only fuel _ hput, hhistory]
      exact ⟨_, .requeue hin hreq hdone, hm', hclock, rfl, rfl⟩
  | leave hin hback =>
      rw [hphase] at hin
      rw [hholds.putsBack_iff] at hback
      exact ⟨_, .leave hin hback, hholds, hclock, rfl, hhistory⟩

/-- What the sequence does arms no linked timer. -/
theorem Corresponds.arms_unlinked (h : Corresponds p s)
    (hstep : ChinixTimerSystem.Step clock s a s') : ArmsUnlinked p a := by
  cases hstep with
  | call c _ hrun => exact (h.armsUnlinked_iff c).mpr (unlinked_of_run hrun)
  | _ => exact trivial

/-- **And back**: what the sequence does, the pointers do, without a fault and
    with enough fuel. -/
theorem Corresponds.step_back (h : Corresponds p s)
    (hstep : ChinixTimerSystem.Step clock s a s') :
    ∃ p', Step clock p a p' ∧ Corresponds p' s' := by
  obtain ⟨hholds, hclock, hphase, hhistory⟩ := h
  have hpeek := hholds.peekHead
  cases hstep with
  | call c hopen hrun =>
      rw [← hphase] at hopen
      rw [← hclock] at hrun ⊢
      obtain ⟨m', tq', n, hdone, hm', hloop⟩ :=
        hholds.call (clock.time p.clock) (unlinked_of_run hrun)
      cases hdone.symm.trans hrun
      rw [← hhistory]
      exact ⟨_, .call c (n + 1) hopen
        (hloop.enough _ (Nat.lt_succ_self n)), hm', rfl, hphase, rfl⟩
  | idle hout htick =>
      rw [← hphase] at hout
      rw [← hclock] at htick
      exact ⟨_, .idle hout htick, hholds, rfl, hphase, hhistory⟩
  | trigger hout htick =>
      rw [← hphase] at hout
      rw [← hclock] at htick
      exact ⟨_, .trigger hout htick, hholds, rfl, rfl, hhistory⟩
  | expire hat hq hdue hcb =>
      obtain ⟨links, hdel, hm'⟩ := hholds.dropHead hq
      rw [hq] at hpeek
      rw [← hholds.timers] at hdue hcb
      rw [← hphase] at hat
      refine ⟨_, .expire hat hpeek hdue hcb hdel, hm', hclock, ?_, ?_⟩
      · rw [hholds.timers]
      · rw [hholds.timers, hhistory]
  | finish hat hearly =>
      rw [← hphase] at hat
      cases hq : s.tq.queue with
      | nil =>
          rw [hq] at hpeek
          exact ⟨_, .finishEmpty hat hpeek, hholds, hclock, rfl, hhistory⟩
      | cons timer rest =>
          have hlate := hearly timer rest hq
          rw [hq] at hpeek
          rw [← hholds.timers] at hlate
          exact ⟨_, .finishEarly hat hpeek hlate, hholds, hclock, rfl,
            hhistory⟩
  | requeue hin hreq hdone =>
      rw [← hphase] at hin
      obtain ⟨m', tq', hdone', hm', hloop⟩ := hholds.putBack _ hreq.2.1
      cases hdone.symm.trans hdone'
      rw [← hhistory]
      exact ⟨_, .requeue _ hin ((hholds.putsBack_iff _).mpr hreq)
        (hloop.enough _ (Nat.lt_succ_self _)), hm', hclock, rfl, rfl⟩
  | leave hin hreq =>
      rw [← hphase] at hin
      rw [← hholds.putsBack_iff] at hreq
      exact ⟨_, .leave hin hreq, hholds, hclock, rfl, hhistory⟩

theorem corresponds_init (k0 : K) :
    Corresponds (PointerSystem.init k0 : PointerSystem R C K)
      (TimerSystem.init k0) :=
  ⟨holds_init k0, rfl, rfl, rfl⟩

/-- In every run in which no linked timer is armed the pointers stand for the
    queue of a run of the system of timers. -/
theorem corresponds_of_reachable {k0 : K}
    (h : Reachable clock ArmsUnlinked k0 p) :
    ∃ s, ChinixTimerSystem.Reachable clock (fun _ _ => True) k0 s ∧
      Corresponds p s :=
  Runs.Reachable.simulated Corresponds (fun _ _ => True) (corresponds_init k0)
    (fun _ _ _ _ hrel hok hstep =>
      have ⟨s', hstep', hrel'⟩ := hrel.step hok hstep
      ⟨s', trivial, hstep', hrel'⟩) h

/-- Nothing is in the way: a call that arms no linked timer returns, and
    `timer_tick` can take its next step. -/
structure GoesOn (clock : Clock K) (p : PointerSystem R C K) : Prop where
  call : ∀ c, p.phase.Open → ArmsUnlinked p (.call c) →
    ∃ p', Step clock p (.call c) p'
  head : ∀ now, p.phase = .atHead now → ∃ p', Step clock p .head p'
  callback : ∀ now timer periodic, p.phase = .inCallback now timer periodic →
    ∃ p', Step clock p .callbackReturns p'

theorem Corresponds.goesOn (h : Corresponds p s)
    (hs : ChinixTimerOrder.GoesOn clock s) : GoesOn clock p where
  call c hopen hok := by
    rw [h.phase] at hopen
    obtain ⟨m', tq', n, hdone, -, -⟩ :=
      h.holds.call (clock.time s.clock) ((h.armsUnlinked_iff c).mp hok)
    obtain ⟨p', hp', -⟩ := h.step_back (.call c hopen hdone)
    exact ⟨p', hp'⟩
  head now hp := by
    rw [ChinixTimerOrder.GoesOn] at hs
    rw [← h.phase, hp] at hs
    obtain ⟨s', hs'⟩ := hs
    obtain ⟨p', hp', -⟩ := h.step_back hs'
    exact ⟨p', hp'⟩
  callback now timer periodic hp := by
    rw [ChinixTimerOrder.GoesOn] at hs
    rw [← h.phase, hp] at hs
    obtain ⟨s', hs'⟩ := hs
    obtain ⟨p', hp', -⟩ := h.step_back hs'
    exact ⟨p', hp'⟩

/-- **timer.c on pointers is timer.c on sequences.**  In every run in which no
    linked timer is armed, whatever else callbacks arm and cancel, the ring of
    `timer_queue` is the queue of a run of the system of timers with the same
    history, in the order of `sched_time`, and nothing is in the way of the
    next step: no NULL pointer is used, and every insertion comes to an end.
    What the sequence can do the pointers can, in every state and over every
    run. -/
theorem timerPointers_refine (clock : Clock K) (k0 : K) :
    (∀ p : PointerSystem R C K, Reachable clock ArmsUnlinked k0 p →
      (∃ s, ChinixTimerSystem.Reachable clock (fun _ _ => True) k0 s ∧
        Corresponds p s ∧
        Ring p.mem.links timerQueue (s.tq.queue.map .node) ∧
        s.tq.queue.Pairwise fun r r' =>
          (p.mem.timers r).schedTime ≤ (p.mem.timers r').schedTime) ∧
      GoesOn clock p) ∧
    (∀ (p : PointerSystem R C K) (s s' : TimerSystem R C K) (a : Action R C),
      Corresponds p s → ChinixTimerSystem.Step clock s a s' →
      ArmsUnlinked p a ∧ ∃ p', Step clock p a p' ∧ Corresponds p' s') ∧
    ∀ s : TimerSystem R C K,
      ChinixTimerSystem.Reachable clock (fun _ _ => True) k0 s →
      ∃ p, Reachable clock ArmsUnlinked k0 p ∧ Corresponds p s := by
  refine ⟨fun p hp => ?_, fun _ _ _ _ h hstep =>
    ⟨h.arms_unlinked hstep, h.step_back hstep⟩, fun s hs => ?_⟩
  · obtain ⟨s, hs, hcorr⟩ := corresponds_of_reachable hp
    refine ⟨⟨s, hs, hcorr, hcorr.holds.ring, ?_⟩,
      hcorr.goesOn (goesOn_of_armed (armed_of_reachable hs))⟩
    rw [hcorr.holds.timers]
    exact (sorted_of_reachable hs).imp fun h => h.le
  · obtain ⟨p, hp, hcorr⟩ := Runs.Reachable.simulated
      (fun s p => Corresponds p s) ArmsUnlinked (corresponds_init k0)
      (fun _ _ _ _ hrel _ hstep =>
        have ⟨p', hstep', hrel'⟩ := hrel.step_back hstep
        ⟨p', hrel.arms_unlinked hstep, hstep', hrel'⟩) hs
    exact ⟨p, hp, hcorr⟩

end ChinixTimerPointers

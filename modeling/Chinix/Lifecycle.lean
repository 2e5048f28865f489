import Chinix.QueueInvariant

/-! # The life of a thread

    What the kernel knows of one thread is spread over its slot, the lists its
    nodes are on, its stack and its timers; `view` puts it together, and
    `View.Ok` says which combinations occur.  `Move` lists the elementary
    moves that the calls are made of, each with what it needs of the state
    before it.  A move touches the thread it is about and leaves the views of
    the others alone, so an invariant is proved for each move once and then
    holds of every call that is a sequence of moves. -/

namespace ChinixLifecycle

open ChinixTimerQueue ChinixPlatformTimer ChinixKernel ChinixRunQueue
open ChinixWaitQueue ChinixThread ChinixMachine ChinixQueueInvariant

/-! ## Stacks -/

/-- The callback that a timer of the kernel is armed with. -/
def handler : TimerRef → Callback
  | .sleep t => .threadSleepHandler t
  | .wait t => .waitQueueTimeoutHandler t

/-- The wait queue of the call of `wait_queue_block` that a thread is in. -/
def blockedIn : List Frame → Option WaitQueueRef
  | .waitQueueBlock q _ _ :: _ => some q
  | _ => none

/-- The slot that a frame of `thread_create` has taken off the free list. -/
def heldSlot : Frame → Option Tid
  | .initThread t _ => some t
  | .linkThread t => some t
  | _ => none

/-- The slot that a thread is about to turn into a thread. -/
def holding (fs : List Frame) : Option Tid := fs.findSome? heldSlot

/-- The thread that a frame of `thread_join` is about. -/
def joinedSlot : Frame → Option Tid
  | .threadJoin t _ _ => some t
  | _ => none

/-- The thread that a thread is joining. -/
def joining (fs : List Frame) : Option Tid := fs.findSome? joinedSlot

/-- A frame of no call that joins or is about to. -/
def joinFree : Frame → Bool
  | .threadJoin _ _ _ => false
  | .detachJoin _ => false
  | _ => true

/-- A frame that is not part of a blocking call. -/
def Plain (f : Frame) : Prop := blockedIn [f] = none ∧ joinedSlot f = none

/-- The stacks that occur between two steps. -/
inductive FramesOk : List Frame → Prop where
  | nil : FramesOk []
  | plain {f : Frame} (h : Plain f) : FramesOk [f]
  | preempted (op : Op) (ret : Int) {f : Frame} (h : f.interruptible = true) :
      FramesOk [.afterResched op ret, f]
  | blocked (q : Nat) (timeout : Time) (call : Nat) :
      FramesOk [.waitQueueBlock (.user q) timeout call]
  | inJoin (t : Tid) (timeout : Time) (call : Nat) (w : Bool) (l : Nat) :
      FramesOk [.waitQueueBlock (.exitOf t) timeout call, .threadJoin t w l]

theorem plain_of_interruptible {f : Frame} (h : f.interruptible = true) :
    Plain f := by
  cases f <;> first | exact ⟨rfl, rfl⟩ | cases h

/-- The rest of a stack below a frame that is no blocking call. -/
theorem FramesOk.tail {f : Frame} {rest : List Frame}
    (h : FramesOk (f :: rest)) (hb : blockedIn (f :: rest) = none) :
    FramesOk rest ∧ blockedIn rest = none := by
  cases h with
  | plain _ => exact ⟨.nil, rfl⟩
  | preempted op ret hf =>
      exact ⟨.plain (plain_of_interruptible hf),
        (plain_of_interruptible hf).1⟩
  | blocked q timeout call => cases hb
  | inJoin t timeout call w l => cases hb

/-- A stack that is in no blocking call joins nobody. -/
theorem FramesOk.joining_eq_none {fs : List Frame} (h : FramesOk fs)
    (hb : blockedIn fs = none) : joining fs = none := by
  cases h with
  | nil => rfl
  | plain hf => simp [joining, hf.2]
  | preempted op ret hf =>
      have hop : joinedSlot (.afterResched op ret) = none := rfl
      simp [joining, hop, (plain_of_interruptible hf).2]
  | blocked q timeout call => rfl
  | inJoin t timeout call w l => cases hb

/-- A thread that waits for an exit is in `thread_join`. -/
theorem FramesOk.mem_of_exitOf {fs : List Frame} {t : Tid} (h : FramesOk fs)
    (hb : blockedIn fs = some (.exitOf t)) :
    ∃ w l, Frame.threadJoin t w l ∈ fs := by
  cases h with
  | nil => cases hb
  | plain hf => cases hf.1.symm.trans hb
  | preempted op ret hf => cases hb
  | blocked q timeout call => cases hb
  | inJoin t' timeout call w l =>
      cases hb
      exact ⟨w, l, by simp⟩

theorem joining_eq_some_iff {fs : List Frame} {t : Tid} (h : FramesOk fs) :
    joining fs = some t ↔ ∃ w l, Frame.threadJoin t w l ∈ fs := by
  cases h with
  | nil => simp [joining]
  | plain hf =>
      rw [FramesOk.joining_eq_none (.plain hf) hf.1]
      constructor
      · simp
      · rintro ⟨w, l, hmem⟩
        rw [← List.mem_singleton.mp hmem] at hf
        cases hf.2
  | preempted op ret hf =>
      rw [FramesOk.joining_eq_none (.preempted op ret hf) rfl]
      constructor
      · simp
      · rintro ⟨w, l, hmem⟩
        rcases List.mem_cons.mp hmem with heq | hmem
        · cases heq
        · rw [← List.mem_singleton.mp hmem] at hf
          cases hf
  | blocked q timeout call => simp [joining, joinedSlot]
  | inJoin t' timeout call w l =>
      simp [joining, joinedSlot, List.findSome?_cons, eq_comm]

/-- The stack of a thread that joins. -/
theorem FramesOk.eq_of_mem {fs : List Frame} {t : Tid} {w : Bool} {l : Nat}
    (h : FramesOk fs) (hmem : Frame.threadJoin t w l ∈ fs) :
    ∃ timeout call,
      fs = [.waitQueueBlock (.exitOf t) timeout call, .threadJoin t w l] := by
  cases h with
  | nil => cases hmem
  | plain hf =>
      rw [← List.mem_singleton.mp hmem] at hf
      cases hf.2
  | preempted op ret hf =>
      rcases List.mem_cons.mp hmem with heq | hmem
      · cases heq
      · rw [← List.mem_singleton.mp hmem] at hf
        cases hf
  | blocked q timeout call => simp at hmem
  | inJoin t' timeout call w' l' =>
      rcases List.mem_cons.mp hmem with heq | hmem
      · cases heq
      · cases List.mem_singleton.mp hmem
        exact ⟨timeout, call, rfl⟩

/-- A thread that joins waits for an exit. -/
theorem FramesOk.blockedIn_of_joining {fs : List Frame} {t : Tid}
    (h : FramesOk fs) (hj : joining fs = some t) :
    blockedIn fs = some (.exitOf t) := by
  obtain ⟨w, l, hmem⟩ := (joining_eq_some_iff h).mp hj
  obtain ⟨timeout, call, rfl⟩ := h.eq_of_mem hmem
  rfl

/-! ## Views -/

/-- What the kernel knows of a thread. -/
structure View where
  state : ThreadState
  link : Option QueueRef
  member : Option ThreadListRef
  frames : List Frame
  sleeping : Bool
  waiting : Bool
  ret : Int
  lifetime : Nat

/-- What the kernel knows of a thread in a state. -/
def view (k : Kernel) (t : Tid) : View where
  state := (k.threads t).state
  link := k.queues.link t
  member := k.threadLists.link t
  frames := k.frames t
  sleeping := decide (TimerRef.sleep t ∈ k.timerQueue.queue)
  waiting := decide (TimerRef.wait t ∈ k.timerQueue.queue)
  ret := (k.threads t).waitQueueBlockRet
  lifetime := k.lifetime t

/-- READY or RUNNING. -/
def Runnable (state : ThreadState) : Prop :=
  state = .ready ∨ state = .running

theorem Runnable.ne {state other : ThreadState} (h : Runnable state)
    (hother : ¬ Runnable other) : state ≠ other := by
  rintro rfl
  exact hother h

theorem not_runnable_blocked : ¬ Runnable .blocked := by
  rintro (h | h) <;> cases h

theorem not_runnable_death : ¬ Runnable .death := by
  rintro (h | h) <;> cases h

theorem not_runnable_suspended : ¬ Runnable .suspended := by
  rintro (h | h) <;> cases h

theorem not_runnable_sleeping : ¬ Runnable .sleeping := by
  rintro (h | h) <;> cases h

/-- The combinations that occur. -/
structure View.Ok (v : View) : Prop where
  run : ∀ p, v.link = some (.run p) → Runnable v.state
  wait : ∀ q, v.link = some (.wait q) →
    v.state = .blocked ∧ blockedIn v.frames = some q
  call : ∀ q, blockedIn v.frames = some q →
    v.link = some (.wait q) ∨ Runnable v.state
  sleep : v.sleeping = true → v.state = .sleeping
  timeout : v.waiting = true → ∃ q delay call rest,
    v.frames = .waitQueueBlock q delay call :: rest ∧ delay ≠ infinitTime
  stack : FramesOk v.frames
  member : v.state = .suspended ∨ v.state = .death ∨ v.member = some .all
  free : v.member = some .free → v.state = .death ∨ v.lifetime = 0
  exit : ∀ r, Frame.afterResched .exit r ∈ v.frames → v.state = .death
  ret : joining v.frames ≠ none → 0 ≤ v.ret

namespace View.Ok

variable {v : View}

/-- A thread that runs, or could, has no timer for a sleep. -/
theorem not_sleeping (h : v.Ok) (hs : v.state ≠ .sleeping) :
    v.sleeping = false := by
  cases hv : v.sleeping with
  | false => rfl
  | true => exact absurd (h.sleep hv) hs

/-- A thread in no blocking call has no timer for one. -/
theorem not_waiting (h : v.Ok) (hb : blockedIn v.frames = none) :
    v.waiting = false := by
  cases hv : v.waiting with
  | false => rfl
  | true =>
      obtain ⟨q, delay, call, rest, heq, -⟩ := h.timeout hv
      rw [heq] at hb
      cases hb

/-- A thread that cannot run and is on no wait queue is in no blocking
    call. -/
theorem not_blockedIn (h : v.Ok) (hr : ¬ Runnable v.state)
    (hl : ∀ q, v.link ≠ some (.wait q)) : blockedIn v.frames = none := by
  cases hv : blockedIn v.frames with
  | none => rfl
  | some q =>
      rcases h.call q hv with hq | hr'
      · exact absurd hq (hl q)
      · exact absurd hr' hr

/-- A thread that is neither runnable nor BLOCKED is linked nowhere. -/
theorem unlinked (h : v.Ok) (hr : ¬ Runnable v.state)
    (hb : v.state ≠ .blocked) : v.link = none := by
  cases hv : v.link with
  | none => rfl
  | some ref =>
      cases ref with
      | run p => exact absurd (h.run p hv) hr
      | wait q => exact absurd (h.wait q hv).1 hb

/-- A thread that is not among those that live neither runs nor waits. -/
theorem not_live (h : v.Ok) (hm : v.member ≠ some .all) :
    ¬ Runnable v.state ∧ v.state ≠ .blocked := by
  rcases h.member with hs | hd | hall
  · rw [hs]
    exact ⟨not_runnable_suspended, by simp⟩
  · rw [hd]
    exact ⟨not_runnable_death, by simp⟩
  · exact absurd hall hm

theorem listed (h : v.Ok) (hs : v.state ≠ .suspended)
    (hd : v.state ≠ .death) : v.member = some .all :=
  (h.member.resolve_left hs).resolve_left hd

/-- A stack without a blocking call is replaced by another such stack. -/
theorem restack (h : v.Ok) {fs : List Frame}
    (hfrom : blockedIn v.frames = none) (hok : FramesOk fs)
    (hto : blockedIn fs = none)
    (hexit : ∀ r, Frame.afterResched .exit r ∈ fs → v.state = .death) :
    View.Ok { v with frames := fs } := by
  refine { h with
    wait := ?_, call := ?_, timeout := ?_, stack := hok, exit := hexit
    ret := ?_ }
  · intro q hq
    cases hfrom.symm.trans (h.wait q hq).2
  · intro q hq
    cases hto.symm.trans hq
  · intro hw
    cases (h.not_waiting hfrom).symm.trans hw
  · exact fun hj => absurd (hok.joining_eq_none hto) hj

end View.Ok

end ChinixLifecycle

import Chinix.Runs
import Mathlib.Logic.Function.Basic

/-! # Code on one processor whose interrupts can be masked

    Threads take turns on a processor that has an interrupt flag.  A locked
    region saves the flag in a local, clears it and takes a lock; its end
    frees the lock and puts the saved flag back.  Regions nest, and a thread
    may give up the processor inside them: the flag goes with the thread.

    `Code` is what is left of a function to run, `Machine` is the processor
    with the threads that wait for it, and `wp` is a weakest precondition over
    the flag, the open regions and one lock.  It leaves the shared data open,
    so a condition is about every value that the code may read. -/

namespace Uniprocessor

variable {K L P T C A B : Type}

/-! ## Code -/

/-- Code over shared data `K`, locks `L`, named places `P` and threads `T`
    that returns an `A`. -/
inductive Code (K L P T A : Type) : Type where
  | ret (a : A)
  /-- A statement that reads the data and changes them, or cannot be run. -/
  | act (f : K → Option K) (next : K → Code K L P T A)
  /-- Read the interrupt flag. -/
  | ints (next : Bool → Code K L P T A)
  /-- Set or clear the interrupt flag. -/
  | setInts (on : Bool) (next : Code K L P T A)
  /-- Read the flag, clear it and take the lock. -/
  | save (l : L) (next : Bool → Code K L P T A)
  /-- Free the lock and set the flag as it was saved. -/
  | restore (l : L) (flags : Bool) (next : Code K L P T A)
  /-- Free the lock. -/
  | unlock (l : L) (next : Code K L P T A)
  /-- A place that has a name. -/
  | place (p : P) (next : Code K L P T A)
  /-- Start a loop.  A run chooses how many rounds it can make; with too few
      it ends, and the runs of a loop without a bound are those of all
      choices. -/
  | rounds (next : Nat → Code K L P T A)
  /-- Build the stack of a new thread. -/
  | prepare (t : T) (next : Code K L P T A)
  /-- Give the processor to another thread. -/
  | switch (old new : T) (next : Code K L P T A)
  /-- Nothing more happens. -/
  | halt

/-- Code followed by code. -/
def Code.bind : Code K L P T A → (A → Code K L P T B) → Code K L P T B
  | .ret a, f => f a
  | .act g next, f => .act g fun k => (next k).bind f
  | .ints next, f => .ints fun on => (next on).bind f
  | .setInts on next, f => .setInts on (next.bind f)
  | .save l next, f => .save l fun flags => (next flags).bind f
  | .restore l flags next, f => .restore l flags (next.bind f)
  | .unlock l next, f => .unlock l (next.bind f)
  | .place p next, f => .place p (next.bind f)
  | .rounds next, f => .rounds fun n => (next n).bind f
  | .prepare t next, f => .prepare t (next.bind f)
  | .switch old new next, f => .switch old new (next.bind f)
  | .halt, _ => .halt

instance : Monad (Code K L P T) where
  pure := .ret
  bind := .bind

/-- The data as they are now. -/
def read : Code K L P T K := .act some .ret

/-- Change the data. -/
def modify (f : K → K) : Code K L P T Unit :=
  .act (fun k => some (f k)) fun _ => .ret ()

/-- Change the data if that is defined. -/
def attempt (f : K → Option K) : Code K L P T Unit := .act f fun _ => .ret ()

/-- Is the interrupt flag set? -/
def intsEnabled : Code K L P T Bool := .ints .ret

def setInts (on : Bool) : Code K L P T Unit := .setInts on (.ret ())

def save (l : L) : Code K L P T Bool := .save l .ret

def restore (l : L) (flags : Bool) : Code K L P T Unit :=
  .restore l flags (.ret ())

def unlock (l : L) : Code K L P T Unit := .unlock l (.ret ())

def place (p : P) : Code K L P T Unit := .place p (.ret ())

def prepare (t : T) : Code K L P T Unit := .prepare t (.ret ())

def switch (old new : T) : Code K L P T Unit := .switch old new (.ret ())

/-- The rounds of a loop whose body returns a value when it leaves it. -/
def iterate (body : B → Code K L P T (B ⊕ A)) : Nat → B → Code K L P T A
  | 0, _ => .halt
  | n + 1, b => do
      match ← body b with
      | .inl b => iterate body n b
      | .inr a => return a

/-- A loop without a bound. -/
def forever (body : B → Code K L P T (B ⊕ A)) (b : B) : Code K L P T A :=
  .rounds fun n => iterate body n b

/-! ## The machine -/

/-- What runs: the handler of the interrupt, the code that a new thread starts
    with, and the calls that threads make. -/
structure System (K L P T C : Type) where
  irq : Code K L P T Unit
  entry : Code K L P T Unit
  call : C → Code K L P T Unit

/-- What a thread that waits for the processor finds again. -/
structure Context (K L P T : Type) where
  ints : Bool
  regions : List (L × Bool)
  code : Code K L P T Unit

/-- The processor.  `regions` is ghost: of each locked region that the running
    thread is in, the lock and what the flag was before it, innermost first. -/
structure Machine (K L P T : Type) where
  data : K
  ints : Bool
  held : L → Bool
  regions : List (L × Bool)
  code : Code K L P T Unit
  parked : T → Option (Context K L P T)

/-- What happens: the running thread makes a step, calls a function from its
    own code, or is interrupted. -/
inductive Label (C : Type) where
  | op (rounds : Nat)
  | call (c : C)
  | interrupt
  deriving DecidableEq, Repr

section Machine

variable [DecidableEq L] [DecidableEq T]

/-- A step of the running thread. -/
def Machine.op (sys : System K L P T C) (n : Nat) (m : Machine K L P T) :
    Option (Machine K L P T) :=
  match m.code with
  | .ret _ => none
  | .act f next =>
      (f m.data).map fun k => { m with data := k, code := next m.data }
  | .ints next => some { m with code := next m.ints }
  | .setInts on next => some { m with ints := on, code := next }
  | .save l next => some
      { m with
        ints := false
        held := Function.update m.held l true
        regions := (l, m.ints) :: m.regions
        code := next m.ints }
  | .restore l flags next => some
      { m with
        ints := flags
        held := Function.update m.held l false
        regions := m.regions.tail
        code := next }
  | .unlock l next => some
      { m with held := Function.update m.held l false, code := next }
  | .place _ next => some { m with code := next }
  | .rounds next => some { m with code := next n }
  | .prepare t next => some
      { m with
        parked := Function.update m.parked t (some ⟨false, [], sys.entry⟩)
        code := next }
  | .switch old new next =>
      (m.parked new).map fun c =>
        { m with
          ints := c.ints
          regions := c.regions
          code := c.code
          parked := Function.update m.parked old
            (some ⟨m.ints, m.regions, next⟩) }
  | .halt => none

/-- The running thread is in its own code. -/
def Machine.inOwnCode (m : Machine K L P T) : Bool :=
  match m.code with
  | .ret _ => true
  | _ => false

/-- The place that the running thread is at. -/
def Machine.here (m : Machine K L P T) : Option P :=
  match m.code with
  | .place p _ => some p
  | _ => none

/-- What a label does.  An interrupt clears the flag, and returning from its
    handler sets it. -/
def exec (sys : System K L P T C) (a : Label C) (m : Machine K L P T) :
    Option (Machine K L P T) :=
  match a with
  | .op n => m.op sys n
  | .call c => if m.inOwnCode then some { m with code := sys.call c } else none
  | .interrupt =>
      if m.ints then
        some { m with
          ints := false
          -- `iretq` is the last thing that the handler does
          code := sys.irq.bind fun _ => .setInts true m.code }
      else none

/-- A step of the machine. -/
def Step (sys : System K L P T C) (m : Machine K L P T) (a : Label C)
    (m' : Machine K L P T) : Prop := exec sys a m = some m'

end Machine

/-! ## Weakest preconditions -/

/-- What the conditions are about: the flag, whether the lock that is followed
    is taken, and the open regions. -/
@[ext] structure View (L : Type) where
  ints : Bool
  lock : Bool
  regions : List (L × Bool)

/-- With interrupts enabled no region is open and the lock is free. -/
def View.Calm (v : View L) : Prop :=
  v.ints = true → v.regions = [] ∧ v.lock = false

/-- The lock that is followed, what has to hold at a place, at which places
    the code is followed further, and how the lock may be found by a thread
    that gets the processor. -/
structure Rules (L P : Type) where
  lock : L
  ok : P → View L → Prop
  follow : P → Prop
  handover : Bool → Prop

section Rules

variable [DecidableEq L]

/-- After `save`. -/
def View.enter (v : View L) (R : Rules L P) (l : L) : View L :=
  ⟨false, if R.lock = l then true else v.lock, (l, v.ints) :: v.regions⟩

/-- After `unlock`. -/
def View.unlock (v : View L) (R : Rules L P) (l : L) : View L :=
  { v with lock := if R.lock = l then false else v.lock }

/-- After `restore`. -/
def View.leave (v : View L) (R : Rules L P) (l : L) (flags : Bool)
    (rest : List (L × Bool)) : View L :=
  ⟨flags, if R.lock = l then false else v.lock, rest⟩

/-- The code can be run from `v` and returns with `Q`.  It ends the regions
    that it opens, with the flags that they were opened with, it enables
    interrupts outside of regions only, and it gives up the processor with
    interrupts disabled. -/
def wp (R : Rules L P) :
    Code K L P T A → (A → View L → Prop) → View L → Prop
  | .ret a, Q, v => Q a v
  | .act _ next, Q, v => ∀ k, wp R (next k) Q v
  | .ints next, Q, v => wp R (next v.ints) Q v
  | .setInts on next, Q, v =>
      { v with ints := on }.Calm ∧ wp R next Q { v with ints := on }
  | .save l next, Q, v => wp R (next v.ints) Q (v.enter R l)
  | .restore l flags next, Q, v =>
      ∃ rest, v.regions = (l, flags) :: rest ∧
        (v.leave R l flags rest).Calm ∧ wp R next Q (v.leave R l flags rest)
  | .unlock l next, Q, v => wp R next Q (v.unlock R l)
  | .place p next, Q, v => R.ok p v ∧ (R.follow p → wp R next Q v)
  | .rounds next, Q, v => ∀ n, wp R (next n) Q v
  | .prepare _ next, Q, v => wp R next Q v
  | .switch _ _ next, Q, v =>
      v.ints = false ∧ R.handover v.lock ∧
        ∀ b, R.handover b → wp R next Q { v with lock := b }
  | .halt, _, _ => True

variable {R : Rules L P} {v : View L}

/-- The sequencing rule. -/
theorem wp_bind {x : Code K L P T A} {f : A → Code K L P T B}
    {Q : B → View L → Prop} :
    wp R (x >>= f) Q v ↔ wp R x (fun a v => wp R (f a) Q v) v := by
  show wp R (x.bind f) Q v ↔ _
  induction x generalizing v with
  | ret a => exact Iff.rfl
  | act g next ih => exact forall_congr' fun k => ih k
  | ints next ih => exact ih v.ints
  | setInts on next ih => exact and_congr_right fun _ => ih
  | save l next ih => exact ih v.ints
  | restore l flags next ih =>
      exact exists_congr fun rest =>
        and_congr_right fun _ => and_congr_right fun _ => ih
  | unlock l next ih => exact ih
  | place p next ih => exact and_congr_right fun _ => imp_congr_right fun _ => ih
  | rounds next ih => exact forall_congr' fun n => ih n
  | prepare t next ih => exact ih
  | switch old new next ih =>
      exact and_congr_right fun _ => and_congr_right fun _ =>
        forall_congr' fun b => imp_congr_right fun _ => ih
  | halt => exact Iff.rfl

theorem wp_read {f : K → Code K L P T B} {Q : B → View L → Prop}
    (h : ∀ k, wp R (f k) Q v) : wp R (read >>= f) Q v := h

theorem wp_modify {g : K → K} {f : Unit → Code K L P T B}
    {Q : B → View L → Prop} (h : wp R (f ()) Q v) :
    wp R (modify g >>= f) Q v := fun _ => h

/-- Setting the flag. -/
theorem wp_setInts {on : Bool} {f : Unit → Code K L P T B}
    {Q : B → View L → Prop} (hcalm : { v with ints := on }.Calm)
    (h : wp R (f ()) Q { v with ints := on }) :
    wp R (setInts on >>= f) Q v := ⟨hcalm, h⟩

/-- Entering a region. -/
theorem wp_save {l : L} {f : Bool → Code K L P T B} {Q : B → View L → Prop}
    (h : wp R (f v.ints) Q (v.enter R l)) : wp R (save l >>= f) Q v := h

/-- Leaving the innermost region. -/
theorem wp_restore {l : L} {flags : Bool} {rest : List (L × Bool)}
    {Q : Unit → View L → Prop} (hv : v.regions = (l, flags) :: rest)
    (hcalm : (v.leave R l flags rest).Calm)
    (hq : Q () (v.leave R l flags rest)) :
    wp R (restore l flags : Code K L P T Unit) Q v := ⟨rest, hv, hcalm, hq⟩

/-- The consequence rule. -/
theorem wp_mono {x : Code K L P T A} {Q Q' : A → View L → Prop}
    (h : wp R x Q v) (hq : ∀ a v, Q a v → Q' a v) : wp R x Q' v := by
  induction x generalizing v with
  | ret a => exact hq a v h
  | act g next ih =>
      intro k
      exact ih k (h k)
  | ints next ih => exact ih v.ints h
  | setInts on next ih =>
      obtain ⟨hcalm, hnext⟩ := h
      exact ⟨hcalm, ih hnext⟩
  | save l next ih => exact ih v.ints h
  | restore l flags next ih =>
      obtain ⟨rest, hregions, hcalm, hnext⟩ := h
      exact ⟨rest, hregions, hcalm, ih hnext⟩
  | unlock l next ih => exact ih h
  | place p next ih =>
      obtain ⟨hok, hnext⟩ := h
      exact ⟨hok, fun hp => ih (hnext hp)⟩
  | rounds next ih =>
      intro n
      exact ih n (h n)
  | prepare t next ih => exact ih h
  | switch old new next ih =>
      obtain ⟨hints, hgive, hnext⟩ := h
      exact ⟨hints, hgive, fun b hb => ih (hnext b hb)⟩
  | halt => trivial

/-- The loop rule: `I` holds before every round. -/
theorem wp_forever {body : B → Code K L P T (B ⊕ A)} {b : B}
    {I : B → View L → Prop} {Q : A → View L → Prop} (h0 : I b v)
    (hbody : ∀ b v, I b v →
      wp R (body b) (fun r v => Sum.elim (I · v) (Q · v) r) v) :
    wp R (forever body b) Q v := by
  intro n
  induction n generalizing b v with
  -- without a round left nothing more happens, and nothing is to be shown
  | zero => trivial
  | succ n ih =>
      show wp R (body b >>= _) Q v
      rw [wp_bind]
      refine wp_mono (hbody b v h0) ?_
      intro r v' hr
      cases r with
      | inl b' => exact ih hr
      | inr a => exact hr

/-! ## Contracts -/

/-- What code relies on and what it guarantees, as one step of a sequence. -/
structure Contract (L : Type) where
  pre : View L → Prop
  rel : View L → View L → Prop
  refl : ∀ v, rel v v
  trans : ∀ u v w, rel u v → rel v w → rel u w
  keep : ∀ v w, pre v → rel v w → pre w

/-- From a view that meets the condition the code leads to related ones. -/
def Meets (R : Rules L P) (c : Contract L) (x : Code K L P T A) : Prop :=
  ∀ v, c.pre v → wp R x (fun _ w => c.rel v w) v

section Meets

variable {c d : Contract L} {x : Code K L P T A} {f : A → Code K L P T B}

theorem Meets.bind (hx : Meets R c x) (hf : ∀ a, Meets R c (f a)) :
    Meets R c (x >>= f) := by
  intro v hv
  rw [wp_bind]
  refine wp_mono (hx v hv) ?_
  intro a w hw
  refine wp_mono (hf a w (c.keep v w hv hw)) ?_
  intro _ u hu
  exact c.trans v w u hw hu

theorem Meets.pure (a : A) : Meets R c (pure a : Code K L P T A) := by
  intro v _
  exact c.refl v

theorem Meets.halt : Meets R c (.halt : Code K L P T A) := by
  intro v _
  trivial

theorem Meets.read : Meets R c (read : Code K L P T K) := by
  intro v _ _
  exact c.refl v

theorem Meets.modify (g : K → K) :
    Meets R c (modify g : Code K L P T Unit) := by
  intro v _ _
  exact c.refl v

theorem Meets.attempt (g : K → Option K) :
    Meets R c (attempt g : Code K L P T Unit) := by
  intro v _ _
  exact c.refl v

theorem Meets.intsEnabled : Meets R c (intsEnabled : Code K L P T Bool) := by
  intro v _
  exact c.refl v

theorem Meets.prepare (t : T) : Meets R c (prepare t : Code K L P T Unit) := by
  intro v _
  exact c.refl v

theorem Meets.place {p : P} (hp : ∀ v, c.pre v → R.ok p v) :
    Meets R c (place p : Code K L P T Unit) := by
  intro v hv
  exact ⟨hp v hv, fun _ => c.refl v⟩

/-- Behind a place that is not followed nothing is left to show. -/
theorem Meets.place_bind {p : P} {g : Unit → Code K L P T B}
    (hp : ∀ v, c.pre v → R.ok p v) (hg : R.follow p → Meets R c (g ())) :
    Meets R c (Uniprocessor.place p >>= g) := by
  intro v hv
  exact ⟨hp v hv, fun hf => hg hf v hv⟩

theorem Meets.ite {p : Prop} [Decidable p] {y : Code K L P T A}
    (hx : Meets R c x) (hy : Meets R c y) : Meets R c (if p then x else y) := by
  by_cases hp : p
  · rw [if_pos hp]
    exact hx
  · rw [if_neg hp]
    exact hy

theorem Meets.forever {body : B → Code K L P T (B ⊕ A)}
    (hbody : ∀ b, Meets R c (body b)) (b : B) :
    Meets R c (forever body b) := by
  intro v hv
  refine wp_forever (I := fun _ w => c.rel v w) (c.refl v) ?_
  intro b w hw
  refine wp_mono (hbody b w (c.keep v w hv hw)) ?_
  intro r u hu
  have hrel := c.trans v w u hw hu
  cases r with
  | inl b => exact hrel
  | inr a => exact hrel

/-- The consequence rule for contracts. -/
theorem Meets.weaken (h : Meets R c x) (hpre : ∀ v, d.pre v → c.pre v)
    (hrel : ∀ v w, d.pre v → c.rel v w → d.rel v w) : Meets R d x := by
  intro v hv
  refine wp_mono (h v (hpre v hv)) ?_
  intro _ w hw
  exact hrel v w hv hw

end Meets

/-! ## Every run -/

/-- What a thread that is in its own code may find. -/
def Outside (_ : Unit) (v : View L) : Prop := v.regions = [] ∧ v.lock = false

/-- The code of the system can be run wherever it is entered; `allowed` are
    the calls that are made. -/
structure System.Obeys (sys : System K L P T C) (R : Rules L P)
    (allowed : C → Prop) : Prop where
  irq : wp R sys.irq Outside ⟨false, false, []⟩
  entry : ∀ b, R.handover b → wp R sys.entry Outside ⟨false, b, []⟩
  call : ∀ c, allowed c → ∀ on, wp R (sys.call c) Outside ⟨on, false, []⟩

/-- The view of a machine. -/
def Machine.view (m : Machine K L P T) (R : Rules L P) : View L :=
  ⟨m.ints, m.held R.lock, m.regions⟩

/-- The running code and the code of the threads that wait can be run. -/
structure Sound (R : Rules L P) (m : Machine K L P T) : Prop where
  calm : (m.view R).Calm
  running : wp R m.code Outside (m.view R)
  parked : ∀ t c, m.parked t = some c → c.ints = false ∧
    ∀ b, R.handover b → wp R c.code Outside ⟨false, b, c.regions⟩

/-- The step is not made from a place that is not followed, and the call is
    allowed. -/
def Followed (R : Rules L P) (allowed : C → Prop) (m : Machine K L P T)
    (a : Label C) : Prop :=
  match a with
  | .op _ => ∀ p, m.here = some p → R.follow p
  | .call c => allowed c
  | .interrupt => True

variable [DecidableEq T] {sys : System K L P T C} {R : Rules L P}
variable {allowed : C → Prop} {m m' : Machine K L P T}

omit [DecidableEq T] in
theorem outside_of_inOwnCode (h : Sound R m) (hown : m.inOwnCode = true) :
    m.regions = [] ∧ m.held R.lock = false := by
  obtain ⟨data, ints, held, regions, code, parked⟩ := m
  cases code with
  | ret a => exact h.running
  | _ => cases hown

/-- **The step lemma**, for a step of the running thread. -/
theorem sound_op (hsys : sys.Obeys R allowed) (h : Sound R m) {n : Nat}
    (hf : Followed R allowed m (.op n)) (hst : m.op sys n = some m') :
    Sound R m' := by
  obtain ⟨data, ints, held, regions, code, parked⟩ := m
  obtain ⟨hcalm, hrun, hparked⟩ := h
  cases code with
  | ret a => cases hst
  | act f next =>
      obtain ⟨k, -, rfl⟩ := Option.map_eq_some_iff.mp hst
      exact ⟨hcalm, hrun data, hparked⟩
  | ints next =>
      cases hst
      exact ⟨hcalm, hrun, hparked⟩
  | setInts on next =>
      cases hst
      exact ⟨hrun.1, hrun.2, hparked⟩
  | save l next =>
      cases hst
      refine ⟨?_, ?_, hparked⟩
      · rintro ⟨⟩
      · show wp R _ _ ⟨_, Function.update held l true R.lock, _⟩
        rw [Function.update_apply]
        exact hrun
  | restore l flags next =>
      cases hst
      obtain ⟨rest, hregions, hcalm', hnext⟩ := hrun
      -- the region that is ended is the innermost one
      have hview : Machine.view ⟨data, flags, Function.update held l false,
          regions.tail, next, parked⟩ R =
          View.leave (Machine.view ⟨data, ints, held, regions,
            .restore l flags next, parked⟩ R) R l flags rest := by
        have htail : regions.tail = rest := by
          rw [show regions = (l, flags) :: rest from hregions]
          rfl
        simp only [Machine.view, View.leave, Function.update_apply, htail]
      exact ⟨hview ▸ hcalm', hview ▸ hnext, hparked⟩
  | unlock l next =>
      cases hst
      have hlock : Function.update held l false R.lock =
          if R.lock = l then false else held R.lock :=
        Function.update_apply ..
      refine ⟨?_, ?_, hparked⟩
      · intro hon
        obtain ⟨hnone, hfree⟩ := hcalm hon
        refine ⟨hnone, ?_⟩
        show Function.update held l false R.lock = false
        rw [hlock, show held R.lock = false from hfree, ite_self]
      · show wp R _ _ ⟨_, Function.update held l false R.lock, _⟩
        rw [hlock]
        exact hrun
  | place p next =>
      cases hst
      exact ⟨hcalm, hrun.2 (hf p rfl), hparked⟩
  | rounds next =>
      cases hst
      exact ⟨hcalm, hrun n, hparked⟩
  | prepare t next =>
      cases hst
      refine ⟨hcalm, hrun, ?_⟩
      intro u c hc
      by_cases hu : u = t
      · subst hu
        cases (Function.update_self ..).symm.trans hc
        exact ⟨rfl, hsys.entry⟩
      · exact hparked u c ((Function.update_of_ne hu ..).symm.trans hc)
  | switch old new next =>
      obtain ⟨c, hc, rfl⟩ := Option.map_eq_some_iff.mp hst
      obtain ⟨hoff, hgive, hnext⟩ := hrun
      -- the new thread goes on with the lock as the old one leaves it
      obtain ⟨hcoff, hcrun⟩ := hparked new c hc
      refine ⟨?_, ?_, ?_⟩
      · intro hon
        cases hcoff.symm.trans hon
      · show wp R c.code Outside ⟨c.ints, held R.lock, c.regions⟩
        rw [hcoff]
        exact hcrun _ hgive
      -- what is left of the old thread is what its condition is about
      · intro u d hd
        by_cases hu : u = old
        · subst hu
          cases (Function.update_self ..).symm.trans hd
          refine ⟨hoff, ?_⟩
          intro b hb
          have hwp := hnext b hb
          have hoff' : ints = false := hoff
          subst hoff'
          exact hwp
        · exact hparked u d ((Function.update_of_ne hu ..).symm.trans hd)
  | halt => cases hst

/-- **The step lemma.** -/
theorem sound_step (hsys : sys.Obeys R allowed) (h : Sound R m)
    {a : Label C} (hf : Followed R allowed m a) (hst : Step sys m a m') :
    Sound R m' := by
  cases a with
  | op n => exact sound_op hsys h hf hst
  | call c =>
      have hst' : (if m.inOwnCode then some { m with code := sys.call c } else none)
          = some m' := hst
      by_cases hown : m.inOwnCode = true
      · rw [if_pos hown] at hst'
        cases hst'
        obtain ⟨hregions, hlock⟩ := outside_of_inOwnCode h hown
        refine ⟨h.calm, ?_, h.parked⟩
        have hcall := hsys.call c hf m.ints
        show wp R (sys.call c) Outside ⟨m.ints, m.held R.lock, m.regions⟩
        rw [hregions, hlock]
        exact hcall
      · rw [if_neg hown] at hst'
        cases hst'
  | interrupt =>
      have hst' : (if m.ints then some { m with
          ints := false
          code := sys.irq.bind fun _ => .setInts true m.code } else none)
          = some m' := hst
      by_cases hon : m.ints = true
      · rw [if_pos hon] at hst'
        cases hst'
        -- an interrupt finds no region open, so the handler starts from scratch
        obtain ⟨hregions, hlock⟩ :
            m.regions = [] ∧ m.held R.lock = false := h.calm hon
        have hrun := h.running
        rw [Machine.view, hon, hregions, hlock] at hrun
        refine ⟨?_, ?_, h.parked⟩
        · rintro ⟨⟩
        · show wp R (sys.irq >>= fun _ => .setInts true m.code) Outside
            ⟨false, m.held R.lock, m.regions⟩
          rw [hregions, hlock, wp_bind]
          refine wp_mono hsys.irq ?_
          rintro ⟨⟩ ⟨on, lock, regions⟩ ⟨hnone, hfree⟩
          cases hnone
          cases hfree
          exact ⟨fun _ => ⟨rfl, rfl⟩, hrun⟩
      · rw [if_neg hon] at hst'
        cases hst'

/-- **The run lemma.** -/
theorem sound_of_reachable (hsys : sys.Obeys R allowed)
    {m0 : Machine K L P T} (h0 : Sound R m0)
    {ok : Machine K L P T → Label C → Prop}
    (hok : ∀ m a, ok m a → Followed R allowed m a)
    (h : Runs.Reachable m0 (Step sys) ok m) : Sound R m :=
  h.invariant h0 fun m1 a _ hs ha hst => sound_step hsys hs (hok m1 a ha) hst

omit [DecidableEq T] in
/-- Interrupts are disabled in a region. -/
theorem Sound.masked (h : Sound R m) (hregions : m.regions ≠ []) :
    m.ints = false := by
  cases hon : m.ints with
  | false => rfl
  | true => exact absurd (h.calm hon).1 hregions

/-- The end of a region is that of the innermost one, and it sets the flag
    that was set before the region. -/
theorem Sound.restored (h : Sound R m) {l : L} {flags : Bool}
    {next : Code K L P T Unit} (hcode : m.code = .restore l flags next)
    {n : Nat} (hst : Step sys m (.op n) m') :
    m.regions = (l, m'.ints) :: m'.regions := by
  obtain ⟨data, ints, held, regions, code, parked⟩ := m
  cases hcode
  cases hst
  obtain ⟨rest, hregions, -⟩ := h.running
  have hregions' : regions = (l, flags) :: rest := hregions
  rw [hregions']
  rfl

omit [DecidableEq T] in
/-- What has to hold at a place holds there. -/
theorem Sound.ok_of_here (h : Sound R m) {p : P} (hp : m.here = some p) :
    R.ok p (m.view R) := by
  obtain ⟨data, ints, held, regions, code, parked⟩ := m
  cases code with
  | place q next =>
      cases hp
      exact h.running.1
  | _ => cases hp

end Rules

end Uniprocessor

import Mathlib.Logic.Function.Basic
import Chinix.WordMemory

/-! # Switching contexts (arch/x64/x64_context_switch.S, kernel/thread.c)

    `x64_thread_context_switch`, instruction by instruction, and
    `init_thread_stack` on the bytes of memory.  A thread has a stack and, in
    its record, the stack pointer that it was switched out with.  Of the
    processor there are the registers that a call preserves, the flags and the
    instruction pointer. -/

namespace ChinixContextSwitch

open PageWalk WordMemory

/-! ## The processor -/

/-- The registers that the switch pushes and pops. -/
inductive Reg where
  | rbx
  | rbp
  | r12
  | r13
  | r14
  | r15
  deriving DecidableEq, Repr

/-- What a thread finds again when it runs on. -/
@[ext] structure Cpu where
  regs : Reg → BitVec 64
  rsp : BitVec 64
  rflags : BitVec 64
  rip : BitVec 64

variable {Tid : Type} [DecidableEq Tid]

/-- The processor, the memory, the field `sp` of the thread records and
    `_current_thread`. -/
structure State (Tid : Type) where
  cpu : Cpu
  mem : Mem
  sp : Tid → BitVec 64
  current : Tid

/-- A word pushed on the stack. -/
def push (w : BitVec 64) (s : State Tid) : State Tid :=
  let rsp := s.cpu.rsp - 8
  { s with cpu := { s.cpu with rsp := rsp }, mem := store64 rsp.toNat w s.mem }

/-- The word on top of the stack. -/
def top (s : State Tid) : BitVec 64 := load64 s.mem s.cpu.rsp.toNat

/-- The stack without the word on top. -/
def drop (s : State Tid) : State Tid :=
  { s with cpu := { s.cpu with rsp := s.cpu.rsp + 8 } }

/-! ## The switch -/

/-- The instructions of the switch. -/
inductive Instr where
  | pushf
  | pushq (r : Reg)
  /-- `movq %rsp, (%rdi)`. -/
  | storeSp
  /-- `movq (%rsi), %rsp`. -/
  | loadSp
  | popq (r : Reg)
  | popf
  | retq
  deriving DecidableEq, Repr

/-- What an instruction does; `old` and `new` are the threads whose `sp` the
    two arguments point to. -/
def exec (old new : Tid) (i : Instr) (s : State Tid) : State Tid :=
  match i with
  | .pushf => push s.cpu.rflags s
  | .pushq r => push (s.cpu.regs r) s
  | .storeSp => { s with sp := Function.update s.sp old s.cpu.rsp }
  | .loadSp => { s with cpu := { s.cpu with rsp := s.sp new } }
  | .popq r =>
      let v := top s
      let s := drop s
      { s with cpu := { s.cpu with regs := Function.update s.cpu.regs r v } }
  | .popf =>
      let v := top s
      let s := drop s
      { s with cpu := { s.cpu with rflags := v } }
  | .retq =>
      let v := top s
      let s := drop s
      { s with cpu := { s.cpu with rip := v } }

/-- Instructions, one after the other. -/
def execAll (old new : Tid) (is : List Instr) (s : State Tid) : State Tid :=
  is.foldl (fun s i => exec old new i s) s

/-- `x64_thread_context_switch`. -/
def x64ThreadContextSwitch : List Instr :=
  [.pushf,
   .pushq .rbx, .pushq .rbp, .pushq .r12, .pushq .r13, .pushq .r14,
   .pushq .r15,
   .storeSp,
   .loadSp,
   .popq .r15, .popq .r14, .popq .r13, .popq .r12, .popq .rbp, .popq .rbx,
   .popf,
   .retq]

/-- The end of `thread_resched`: `set_current_thread`, and the call of the
    switch, which is to return to `ret`. -/
def switchTo (ret : BitVec 64) (new : Tid) (s : State Tid) : State Tid :=
  execAll s.current new x64ThreadContextSwitch
    (push ret { s with current := new })

/-! ## A new thread -/

/-- The stack of a thread: its first byte and its size. -/
structure Stack where
  base : Nat
  size : Nat
  deriving DecidableEq, Repr

/-- The byte is one of the stack. -/
def Stack.Contains (k : Stack) (x : Nat) : Prop :=
  k.base ≤ x ∧ x < k.base + k.size

/-- `stack_top`, aligned and less 8. -/
def stackTop (k : Stack) : BitVec 64 :=
  (BitVec.ofNat 64 (k.base + k.size) &&& ~~~0xf) - 8

/-- `init_thread_stack`: the frame is a `struct x64_context_frame`, in which
    `rflags` is the seventh word and `rip` the eighth. -/
def initThreadStack (entry : BitVec 64) (k : Stack) (t : Tid)
    (s : State Tid) : State Tid :=
  let frame := stackTop k - 64
  let mem := memzero frame.toNat 64 s.mem
  -- `rip` is set before `rflags`; the other words stay zero
  let mem := store64 (frame.toNat + 56) entry mem
  let mem := store64 (frame.toNat + 48) 0x3002 mem
  { s with mem := mem, sp := Function.update s.sp t frame }

/-! ## Runs -/

/-- The threads' stacks, and the address of `initial_thread_func`. -/
structure Config (Tid : Type) where
  stack : Tid → Stack
  initialThreadFunc : BitVec 64

/-- The stacks are of 96 bytes at least, are apart, and no one of them goes
    around the end of memory. -/
structure Config.WellFormed (cfg : Config Tid) : Prop where
  size : ∀ t, 96 ≤ (cfg.stack t).size
  bound : ∀ t, (cfg.stack t).base + (cfg.stack t).size < 2 ^ 64
  apart : ∀ t u, t ≠ u → ∀ x, (cfg.stack t).Contains x →
    ¬ (cfg.stack u).Contains x

/-- What happens. -/
inductive Event (Tid : Type) where
  /-- The running thread computes. -/
  | run
  /-- It prepares the stack of a new thread. -/
  | init (t : Tid)
  /-- It calls the switch. -/
  | switch (ret : BitVec 64) (new : Tid)

/-- The stack pointer is in the stack, and what the call and the pushes of the
    switch write is, too. -/
def HasRoom (k : Stack) (rsp : BitVec 64) : Prop :=
  k.base + 64 ≤ rsp.toNat ∧ rsp.toNat ≤ k.base + k.size

/-- One event: the running thread does to the processor and to memory what it
    likes, but writes to no other thread's stack. -/
inductive Step (cfg : Config Tid) :
    State Tid → Event Tid → State Tid → Prop where
  | run (s : State Tid) (cpu : Cpu) (mem : Mem)
      (own : ∀ t, t ≠ s.current → ∀ x, (cfg.stack t).Contains x →
        mem x = s.mem x) :
      Step cfg s .run { s with cpu := cpu, mem := mem }
  | init (s : State Tid) (t : Tid) (other : t ≠ s.current) :
      Step cfg s (.init t)
        (initThreadStack cfg.initialThreadFunc (cfg.stack t) t s)
  | switch (s : State Tid) (ret : BitVec 64) (new : Tid)
      (other : new ≠ s.current)
      (room : HasRoom (cfg.stack s.current) s.cpu.rsp) :
      Step cfg s (.switch ret new) (switchTo ret new s)

/-- A sequence of events. -/
inductive Run (cfg : Config Tid) :
    State Tid → List (Event Tid) → State Tid → Prop where
  | nil (s : State Tid) : Run cfg s [] s
  | cons {s s' s'' : State Tid} {e : Event Tid} {es : List (Event Tid)} :
      Step cfg s e s' → Run cfg s' es s'' → Run cfg s (e :: es) s''

/-- The event switches to the thread, or prepares its stack. -/
def Event.Concerns (t : Tid) (e : Event Tid) : Prop :=
  match e with
  | .run => False
  | .init u => u = t
  | .switch _ new => new = t

end ChinixContextSwitch

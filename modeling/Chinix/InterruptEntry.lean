import Chinix.ContextSwitch
import Chinix.IdtSetup

/-! # Entering and leaving an interrupt (boot/idt.S, include/arch/x86.h)

    The processor pushes what `iretq` takes back, the stub of the vector adds
    the error code where the processor has none and the vector, and `_common`
    pushes the general registers: a `struct x64_eframe`, which
    `x64_exception_handler` gets the address of.  The machine is that of the
    switch with the registers that a call does not preserve and with the
    selectors. -/

namespace ChinixInterruptEntry

open PageWalk WordMemory ChinixContextSwitch ChinixIdtSetup

/-- The general registers that the switch leaves to the caller. -/
inductive Scratch where
  | rax
  | rcx
  | rdx
  | rsi
  | rdi
  | r8
  | r9
  | r10
  | r11
  deriving DecidableEq, Repr

/-- The general registers but `rsp`. -/
inductive Gpr where
  | saved (r : Reg)
  | scratch (r : Scratch)
  deriving DecidableEq, Repr

variable {Tid : Type}

/-- The machine of the switch with the rest of the registers. -/
structure Machine (Tid : Type) extends State Tid where
  scratch : Scratch → BitVec 64
  cs : BitVec 16
  ss : BitVec 16

/-- A register's word. -/
def Machine.gpr (s : Machine Tid) : Gpr → BitVec 64
  | .saved r => s.cpu.regs r
  | .scratch r => s.scratch r

/-- A write of a register. -/
def Machine.setGpr (s : Machine Tid) (g : Gpr) (w : BitVec 64) : Machine Tid :=
  match g with
  | .saved r =>
      { s with cpu := { s.cpu with regs := Function.update s.cpu.regs r w } }
  | .scratch r => { s with scratch := Function.update s.scratch r w }

/-- A word pushed on the stack. -/
def Machine.push (s : Machine Tid) (w : BitVec 64) : Machine Tid :=
  { s with toState := ChinixContextSwitch.push w s.toState }

/-- The word on top of the stack. -/
def Machine.top (s : Machine Tid) : BitVec 64 :=
  ChinixContextSwitch.top s.toState

/-- The stack without the word on top. -/
def Machine.drop (s : Machine Tid) : Machine Tid :=
  { s with toState := ChinixContextSwitch.drop s.toState }

/-- A jump. -/
def Machine.jump (s : Machine Tid) (rip : BitVec 64) : Machine Tid :=
  { s with cpu := { s.cpu with rip := rip } }

/-! ## The processor -/

/-- The flags that an interrupt gate clears: TF, IF, NT, RF and VM. -/
def gateClears : BitVec 64 := 0x34300

/-- Delivery through a gate, in 64-bit mode and from ring 0: the stack pointer
    is aligned, and the old one is pushed in any case. -/
def deliver (g : Gate) (errCode : Option (BitVec 64)) (s : Machine Tid) :
    Machine Tid :=
  let old := s
  let s := { s with cpu := { s.cpu with rsp := s.cpu.rsp &&& ~~~0xf } }
  let s := s.push (old.ss.setWidth 64)
  let s := s.push old.cpu.rsp
  let s := s.push old.cpu.rflags
  let s := s.push (old.cs.setWidth 64)
  let s := s.push old.cpu.rip
  let s :=
    match errCode with
    | some e => s.push e
    | none => s
  { s with
    cpu := { s.cpu with rip := g.offset, rflags := s.cpu.rflags &&& ~~~gateClears }
    cs := g.selector }

/-- `iretq`. -/
def iretq (s : Machine Tid) : Machine Tid :=
  let rip := s.top
  let s := s.drop
  let cs := s.top
  let s := s.drop
  let rflags := s.top
  let s := s.drop
  let rsp := s.top
  let s := s.drop
  let ss := s.top
  { s with
    cpu := { s.cpu with rip := rip, rflags := rflags, rsp := rsp }
    cs := cs.setWidth 16
    ss := ss.setWidth 16 }

/-! ## The code -/

/-- Where `_common`, `x64_exception_handler` and the code behind its call
    are. -/
structure Code where
  common : BitVec 64
  handler : BitVec 64
  behindCall : BitVec 64

/-- One instruction of a stub. -/
def execStub (code : Code) (s : Machine Tid) : StubInstr → Machine Tid
  | .nop => s
  | .pushImm imm => s.push (BitVec.ofNat 64 imm)
  | .jmpCommon => s.jump code.common

/-- The instructions of `_common`. -/
inductive CommonInstr where
  | pushq (g : Gpr)
  /-- `movq %rsp, %rdi`. -/
  | movRspRdi
  /-- `call x64_exception_handler`. -/
  | call
  | popq (g : Gpr)
  /-- `addq $imm, %rsp`. -/
  | addRsp (imm : BitVec 64)
  | iretq

/-- One instruction of `_common`. -/
def execCommon (code : Code) (s : Machine Tid) : CommonInstr → Machine Tid
  | .pushq g => s.push (s.gpr g)
  | .movRspRdi => s.setGpr (.scratch .rdi) s.cpu.rsp
  | .call => (s.push code.behindCall).jump code.handler
  | .popq g => (s.drop).setGpr g s.top
  | .addRsp imm => { s with cpu := { s.cpu with rsp := s.cpu.rsp + imm } }
  | .iretq => ChinixInterruptEntry.iretq s

/-- `_common` up to the call. -/
def commonEntry : List CommonInstr :=
  [.pushq (.saved .r15), .pushq (.saved .r14), .pushq (.saved .r13),
   .pushq (.saved .r12), .pushq (.scratch .r11), .pushq (.scratch .r10),
   .pushq (.scratch .r9), .pushq (.scratch .r8), .pushq (.scratch .rax),
   .pushq (.scratch .rcx), .pushq (.scratch .rdx), .pushq (.saved .rbx),
   .pushq (.saved .rbp), .pushq (.scratch .rsi), .pushq (.scratch .rdi),
   .movRspRdi,
   .call]

/-- `_common` behind the call. -/
def commonExit : List CommonInstr :=
  [.popq (.scratch .rdi), .popq (.scratch .rsi), .popq (.saved .rbp),
   .popq (.saved .rbx), .popq (.scratch .rdx), .popq (.scratch .rcx),
   .popq (.scratch .rax), .popq (.scratch .r8), .popq (.scratch .r9),
   .popq (.scratch .r10), .popq (.scratch .r11), .popq (.saved .r12),
   .popq (.saved .r13), .popq (.saved .r14), .popq (.saved .r15),
   .addRsp 16,
   .iretq]

/-- The stub at an address. -/
def stubAt (y : Symbols) (a : BitVec 64) : Option Nat :=
  (List.range numInt).find? fun i => BitVec.ofNat 64 (y.stub i) = a

/-- An interrupt, from its delivery up to the first instruction of
    `x64_exception_handler`; `none` if the vector has no gate, or one that
    does not lead to a stub. -/
def enter (y : Symbols) (r : Idtr) (code : Code) (vector : Nat)
    (errCode : Option (BitVec 64)) (s : Machine Tid) : Option (Machine Tid) :=
  (lookup s.mem r vector).bind fun g =>
    (stubAt y g.offset).map fun i =>
      let s := deliver g errCode s
      let s := (ChinixIdtSetup.isr i).foldl (execStub code) s
      commonEntry.foldl (execCommon code) s

/-- The way back from `x64_exception_handler`. -/
def leave (code : Code) (s : Machine Tid) : Machine Tid :=
  commonExit.foldl (execCommon code) s

/-! ## `struct x64_eframe` -/

/-- The fields of `struct x64_eframe`. -/
inductive Field where
  | gpr (g : Gpr)
  | vector
  | errCode
  | rip
  | cs
  | rflag
  | userSp
  | userSs
  deriving DecidableEq, Repr

/-- `struct x64_eframe`: all the fields are 64-bit words. -/
def eframe : List Field :=
  [.gpr (.scratch .rdi), .gpr (.scratch .rsi), .gpr (.saved .rbp),
   .gpr (.saved .rbx), .gpr (.scratch .rdx), .gpr (.scratch .rcx),
   .gpr (.scratch .rax),
   .gpr (.scratch .r8), .gpr (.scratch .r9), .gpr (.scratch .r10),
   .gpr (.scratch .r11), .gpr (.saved .r12), .gpr (.saved .r13),
   .gpr (.saved .r14), .gpr (.saved .r15),
   .vector, .errCode,
   .rip, .cs, .rflag,
   .userSp, .userSs]

/-- A field of the frame at an address. -/
def readField (m : Mem) (frame : Nat) (f : Field) : BitVec 64 :=
  load64 m (frame + 8 * eframe.idxOf f)

/-! ## The handler -/

variable [DecidableEq Tid]

/-- What may happen between the call of the handler and its return, while the
    frame of thread `t` is at `frame`: the thread computes, without writing to
    its stack from the frame on, or it calls the switch and is switched back
    to. -/
inductive Handling (cfg : Config Tid) (t : Tid) (frame : Nat) :
    Machine Tid → Machine Tid → Prop where
  | done (s : Machine Tid) : Handling cfg t frame s s
  | compute {s s1 s' : Machine Tid} (current : s1.current = t)
      (own : ∀ x, (cfg.stack t).Contains x → frame ≤ x →
        s1.mem x = s.mem x)
      (rest : Handling cfg t frame s1 s') : Handling cfg t frame s s'
  | away {s s4 s' : Machine Tid} {s1 s2 s3 : State Tid}
      {ret ret' : BitVec 64} {new : Tid} {es : List (Event Tid)}
      (current : s.current = t)
      (below : s.cpu.rsp.toNat ≤ frame)
      (out : Step cfg s.toState (.switch ret new) s1)
      (others : Run cfg s1 es s2)
      (apart : ∀ e ∈ es, ¬ e.Concerns t)
      (back : Step cfg s2 (.switch ret' t) s3)
      (same : s4.toState = s3)
      (rest : Handling cfg t frame s4 s') : Handling cfg t frame s s'

end ChinixInterruptEntry

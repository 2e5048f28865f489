import Chinix.LoopInstruction
import Chinix.WordMemory

/-! # The interrupt descriptor table (boot/idt.S)

    `_isr` holds `NUM_INT` stubs of one length, `_idt` the gates for them,
    complete but for the stubs' addresses, which `setup_idt` fills in.  The
    table has one gate less than there are stubs: the last round of the loop
    writes behind `_idt_end`, and the limit that `lidt` loads leaves the last
    vector without a gate. -/

namespace ChinixIdtSetup

open PageWalk WordMemory LoopInstruction

/-- `NUM_INT`. -/
def numInt : Nat := 0x31

/-- `CODE_64_SELECTOR`. -/
def code64Selector : BitVec 16 := 0x28

/-! ## The stubs -/

/-- The instructions of the stubs. -/
inductive StubInstr where
  | nop
  | pushImm (imm : Nat)
  | jmpCommon
  deriving DecidableEq, Repr

/-- The bytes of an instruction; `_common` is behind a `.fill 256`, so that
    the displacement of the jump takes four bytes. -/
def StubInstr.size : StubInstr → Nat
  | .nop => 1
  | .pushImm imm => if imm < 128 then 2 else 5
  | .jmpCommon => 5

/-- The vectors for which the processor pushes an error code. -/
def pushesErrorCode (i : Nat) : Bool :=
  i == 8 || (10 ≤ i && i ≤ 14) || i == 17

/-- The stub of a vector. -/
def isr (i : Nat) : List StubInstr :=
  if pushesErrorCode i then [.nop, .nop, .pushImm i, .jmpCommon]
  else [.pushImm 0, .pushImm i, .jmpCommon]

/-- The bytes of a stub. -/
def isrSize (i : Nat) : Nat := ((isr i).map StubInstr.size).sum

/-- `isr_len`, which `.set` leaves at the length of the last stub. -/
def isrLen : Nat := isrSize (numInt - 1)

/-- Where the linker puts `_isr` and `_idt`. -/
structure Symbols where
  isr : Nat
  idt : Nat
  isrBound : isr + isrLen * numInt < 2 ^ 64
  idtBound : idt + 16 * numInt < 2 ^ 64

/-- The address of a stub: the stubs follow one another. -/
def Symbols.stub (y : Symbols) (i : Nat) : Nat :=
  y.isr + ((List.range i).map isrSize).sum

/-! ## `setup_idt` -/

/-- The registers of `setup_idt`, and memory. -/
structure Cpu where
  rsi : BitVec 64
  rdi : BitVec 64
  rbx : BitVec 64
  rcx : BitVec 64
  mem : Mem

/-- A store of a 16-bit word. -/
def store16 (a : Nat) (w : BitVec 16) (m : Mem) : Mem := fun x =>
  if x = a then w.extractLsb' 0 8
  else if x = a + 1 then w.extractLsb' 8 8
  else m x

/-- The instructions, operands in the order of the assembler. -/
inductive Instr where
  /-- `mov $imm, %rsi`. -/
  | movRsi (imm : BitVec 64)
  /-- `mov $imm, %rdi`. -/
  | movRdi (imm : BitVec 64)
  /-- `movl $imm, %ecx`, which clears the upper half of `rcx`. -/
  | movEcx (imm : BitVec 32)
  /-- `mov %rsi, %rbx`. -/
  | movRsiRbx
  /-- `movw %bx, disp(%rdi)`. -/
  | storeBx (disp : BitVec 64)
  /-- `shr $count, %rbx`. -/
  | shrRbx (count : Nat)
  /-- `movl %ebx, disp(%rdi)`. -/
  | storeEbx (disp : BitVec 64)
  /-- `add $imm, %rsi`. -/
  | addRsi (imm : BitVec 64)
  /-- `add $imm, %rdi`. -/
  | addRdi (imm : BitVec 64)

/-- One instruction. -/
def exec (s : Cpu) : Instr → Cpu
  | .movRsi imm => { s with rsi := imm }
  | .movRdi imm => { s with rdi := imm }
  | .movEcx imm => { s with rcx := imm.setWidth 64 }
  | .movRsiRbx => { s with rbx := s.rsi }
  | .storeBx disp =>
      { s with mem := store16 (s.rdi + disp).toNat (s.rbx.setWidth 16) s.mem }
  | .shrRbx count => { s with rbx := s.rbx >>> count }
  | .storeEbx disp =>
      { s with mem := store32 (s.rdi + disp).toNat (s.rbx.setWidth 32) s.mem }
  | .addRsi imm => { s with rsi := s.rsi + imm }
  | .addRdi imm => { s with rdi := s.rdi + imm }

/-- Before the loop. -/
def enterIdt (y : Symbols) : List Instr :=
  [.movRsi (BitVec.ofNat 64 y.isr),
   .movRdi (BitVec.ofNat 64 y.idt),
   .movEcx (BitVec.ofNat 32 numInt)]

/-- One gate. -/
def idtBody : List Instr :=
  [.movRsiRbx,
   .storeBx 0,
   .shrRbx 16,
   .storeBx 6,
   .shrRbx 16,
   .storeEbx 8,
   .addRsi (BitVec.ofNat 64 isrLen),
   .addRdi 16]

/-- The body and the count of `loop`. -/
def idtRound (s : Cpu) : Cpu :=
  let s := idtBody.foldl exec s
  { s with rcx := s.rcx - 1 }

/-- `lidt`: the limit and the base. -/
structure Idtr where
  limit : Nat
  base : Nat

/-- `_idtr`. -/
def Symbols.idtr (y : Symbols) : Idtr := ⟨16 * (numInt - 1) - 1, y.idt⟩

/-- `setup_idt`. -/
def setupIdt (y : Symbols) (fuel : Nat) (s : Cpu) : Option (Cpu × Idtr) :=
  (loopDown Cpu.rcx idtRound fuel ((enterIdt y).foldl exec s)).map
    fun s => (s, y.idtr)

/-! ## What the processor reads -/

/-- A gate descriptor. -/
structure Gate where
  offset : BitVec 64
  selector : BitVec 16
  ist : BitVec 8
  attributes : BitVec 8
  deriving DecidableEq, Repr

/-- The 16-bit word at an address. -/
def load16 (m : Mem) (a : Nat) : BitVec 16 := m (a + 1) ++ m a

/-- The gate at an address. -/
def gateAt (m : Mem) (a : Nat) : Gate where
  offset := load32 m (a + 8) ++ load16 m (a + 6) ++ load16 m a
  selector := load16 m (a + 2)
  ist := m (a + 4)
  attributes := m (a + 5)

/-- The gate of a vector, if it is inside the limit. -/
def lookup (m : Mem) (r : Idtr) (vector : Nat) : Option Gate :=
  if 16 * vector + 15 ≤ r.limit then some (gateAt m (r.base + 16 * vector))
  else none

/-- `_idt` as it is linked: gates of ring 0 for 64-bit interrupts, present,
    in the code segment, with the offset left zero. -/
def Linked (y : Symbols) (m : Mem) : Prop :=
  ∀ i < numInt - 1, gateAt m (y.idt + 16 * i) = ⟨0, code64Selector, 0, 0x8e⟩

end ChinixIdtSetup

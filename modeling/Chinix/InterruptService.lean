import Chinix.Interrupts

/-! # Serving interrupts (driver/interrupt/interrupt.c, arch/x64/exception.c)

    The ports of `Controller` are those of two 8259A.  What a command port
    takes, and what a data port takes while a controller is set up, goes to
    the state of the chip; behind that a data port is the mask register, which
    `Controller` has.  Handlers are called with interrupts disabled, so one
    interrupt is served at a time: from the acknowledgement, by which the
    processor gets the vector, to the end-of-interrupt command. -/

namespace ChinixInterruptService

open ChinixInterrupts

/-- A pointer. -/
abbrev Word := BitVec 64

/-! ## The chip -/

/-- What a controller takes the next byte at its data port for. -/
inductive Expects where
  | icw2
  | icw3
  | icw4
  | mask
  deriving DecidableEq, Repr

/-- An 8259A without its mask register: how it is set up, the lines that
    request an interrupt and those that are in service. -/
structure Chip where
  expects : Expects
  needsIcw4 : Bool
  base : Byte
  cascade : Byte
  x86 : Bool
  autoEoi : Bool
  irr : Byte
  isr : Byte
  deriving DecidableEq, Repr

/-- A byte at the command port: ICW1, or the end of an interrupt, which is
    that of the most urgent line in service.  The other commands are not
    used. -/
def Chip.command (data : Byte) (chip : Chip) : Chip :=
  if data.getLsbD 4 then
    { chip with
      expects := .icw2, needsIcw4 := data.getLsbD 0
      x86 := false, autoEoi := false, irr := 0, isr := 0 }
  else if data = 0x20 then { chip with isr := chip.isr &&& (chip.isr - 1) }
  else chip

/-- A byte at the data port. -/
def Chip.data (data : Byte) (chip : Chip) : Chip :=
  match chip.expects with
  | .icw2 => { chip with base := data &&& 0xf8, expects := .icw3 }
  | .icw3 =>
      { chip with
        cascade := data
        expects := if chip.needsIcw4 then .icw4 else .mask }
  | .icw4 =>
      { chip with
        x86 := data.getLsbD 0, autoEoi := data.getLsbD 1, expects := .mask }
  | .mask => chip

/-- The line that the chip requests an interrupt for: the most urgent one that
    is not masked, if no line as urgent is in service. -/
def Chip.request (imr : Byte) (chip : Chip) : Option Nat :=
  (List.range 8).find? fun i =>
    (chip.irr &&& ~~~imr).getLsbD i
      && (List.range (i + 1)).all fun j => !chip.isr.getLsbD j

/-- The acknowledgement of a line. -/
def Chip.accept (i : Nat) (chip : Chip) : Chip :=
  { chip with
    irr := chip.irr &&& ~~~lineBit i
    isr := if chip.autoEoi then chip.isr else chip.isr ||| lineBit i }

/-- The vector of a line, for a processor of the kind. -/
def Chip.vector (i : Nat) (chip : Chip) : Option Nat :=
  if chip.x86 then some (chip.base ||| BitVec.ofNat 8 i).toNat else none

/-! ## The board -/

/-- What an interrupt is for: a line, or no line any more when the
    acknowledgement comes. -/
inductive Source where
  | line (line : Line)
  | spurious (pic : Pic)
  deriving DecidableEq

/-- The chip that gives the vector. -/
def Source.pic : Source → Pic
  | .line l => l.pic
  | .spurious pic => pic

/-- The place of the vector among its vectors: the last one if no line
    requests an interrupt any more. -/
def Source.index : Source → Nat
  | .line l => l.index
  | .spurious _ => 7

/-- The vector that the driver knows the source by. -/
def Source.vector (source : Source) : Nat := source.pic.base + source.index

/-- The line that a chip accepts with an acknowledgement: the first chip
    accepts the cascade for what the second one is to give the vector of. -/
def Source.accepted (source : Source) (pic : Pic) : Option Nat :=
  match source, pic with
  | .line l, .pic1 => if l.pic = .pic1 then some l.index else some cascadeIndex
  | .line l, .pic2 => if l.pic = .pic2 then some l.index else none
  | .spurious .pic2, .pic1 => some cascadeIndex
  | .spurious _, _ => none

/-- `struct int_handler_struct`. -/
structure IntHandlerStruct where
  handler : Word
  arg : Word
  deriving DecidableEq, Repr

/-- The ports and the driver's statics, the chips, the vector in the frame of
    the interrupt that is served, and the handlers that were called. -/
structure Board where
  controller : Controller
  chips : Pic → Chip
  intHandlerTable : Nat → IntHandlerStruct
  serving : Option (Nat × Source)
  called : List (Nat × IntHandlerStruct)

/-- `outb`, with what the chips make of it. -/
def Board.outb (port : Nat) (data : Byte) (b : Board) : Board :=
  { b with
    controller := ChinixInterrupts.outb port data b.controller
    chips := fun pic =>
      if port = pic.port then (b.chips pic).command data
      else if port = pic.dataPort then (b.chips pic).data data
      else b.chips pic }

/-- What `map_interrupt_controller` writes. -/
def initWrites (pic1 pic2 : Byte) : List (Nat × Byte) :=
  [(Pic.port .pic1, icw1), (Pic.port .pic2, icw1),
    (Pic.dataPort .pic1, pic1), (Pic.dataPort .pic2, pic2),
    (Pic.dataPort .pic1, 4), (Pic.dataPort .pic2, 2),
    (Pic.dataPort .pic1, 5), (Pic.dataPort .pic2, 1),
    (Pic.dataPort .pic1, 0xff), (Pic.dataPort .pic2, 0xff)]

/-- `map_interrupt_controller`. -/
def Board.mapInterruptController (pic1 pic2 : Byte) (b : Board) : Board :=
  let b := (initWrites pic1 pic2).foldl (fun b w => b.outb w.1 w.2) b
  { b with
    controller := setIrqMask .pic2 0xff (setIrqMask .pic1 0xff b.controller) }

/-- `platform_init_interrupts`. -/
def Board.platformInitInterrupts (b : Board) : Board :=
  { b with controller := printf "init interrupt controller\r\n" [] b.controller
    }.mapInterruptController (BitVec.ofNat 8 (Pic.base .pic1))
      (BitVec.ofNat 8 (Pic.base .pic2))

/-- The driver sees of it what it sees without the chips. -/
@[simp] theorem Board.platformInitInterrupts_controller (b : Board) :
    b.platformInitInterrupts.controller
      = ChinixInterrupts.platformInitInterrupts b.controller := rfl

/-- The line that the processor is interrupted for.  The second chip is behind
    the line `INT_PIC2` of the first one, and gives the vector if that line is
    a cascade to it. -/
def Board.next (b : Board) : Option (Pic × Nat) :=
  let slave := (b.chips .pic2).request (b.controller.ports (Pic.dataPort .pic2))
  let chip := b.chips .pic1
  let master :=
    if slave.isSome then
      { chip with irr := chip.irr ||| lineBit cascadeIndex }
    else chip
  (master.request (b.controller.ports (Pic.dataPort .pic1))).bind fun i =>
    if chip.cascade.getLsbD i then
      if (b.chips .pic2).cascade = BitVec.ofNat 8 i then slave.map (.pic2, ·)
      else none
    else some (.pic1, i)

/-- A change of a chip. -/
def Board.modifyChip (pic : Pic) (f : Chip → Chip) (b : Board) : Board :=
  { b with chips := Function.update b.chips pic (f (b.chips pic)) }

/-- The acknowledgement. -/
def Board.acknowledge (b : Board) (source : Source) : Board :=
  { b with
    chips := fun pic =>
      (source.accepted pic).elim (b.chips pic) fun i => (b.chips pic).accept i }

/-- The vector that goes with it. -/
def Board.vector (b : Board) (source : Source) : Option Nat :=
  (b.chips source.pic).vector source.index

/-- `issue_eoi`. -/
def Board.issueEoi (vector : Nat) (b : Board) : Board :=
  if Pic.base .pic1 ≤ vector ∧ vector ≤ Pic.base .pic1 + 7 then
    b.outb (Pic.port .pic1) 0x20
  else if Pic.base .pic2 ≤ vector ∧ vector ≤ Pic.base .pic2 + 7 then
    (b.outb (Pic.port .pic2) 0x20).outb (Pic.port .pic1) 0x20
  else b

/-- `register_int_handler`, behind its assertion. -/
def Board.registerIntHandler (vector : Nat) (handler arg : Word) (b : Board) :
    Board :=
  { b with
    controller := printf "register vector 0x%x, handler %p\r\n"
      [vector, handler.toNat] b.controller
    intHandlerTable :=
      Function.update b.intHandlerTable vector ⟨handler, arg⟩ }

/-- `platform_irq`, up to the call of the handler. -/
def Board.callHandler (vector : Nat) (b : Board) : Board :=
  let entry := b.intHandlerTable vector
  if entry.handler ≠ 0 then { b with called := b.called ++ [(vector, entry)] }
  else b

/-! ## Runs -/

/-- What happens: a device raises or lowers its line, the driver is called, be
    it from a handler, the processor takes an interrupt and calls the handler,
    and the handler returns. -/
inductive Event where
  | raise (line : Line)
  | lower (line : Line)
  | mask (vector : Nat)
  | unmask (vector : Nat)
  | maskAll
  | register (vector : Nat) (handler arg : Word)
  | enter (source : Source)
  | leave
  deriving DecidableEq

/-- Interrupts are enabled, and the source can be what the processor is
    interrupted for. -/
def Board.Takes (b : Board) (source : Source) : Prop :=
  b.serving = none ∧
    match source with
    | .line line => b.next = some (line.pic, line.index)
    | .spurious _ => True

instance (b : Board) (source : Source) : Decidable (b.Takes source) :=
  match source with
  | .line _ => inferInstanceAs (Decidable (_ ∧ _))
  | .spurious _ => inferInstanceAs (Decidable (_ ∧ True))

/-- One event, if it can happen. -/
def Board.step (b : Board) : Event → Option Board
  | .raise line =>
      some (b.modifyChip line.pic fun chip =>
        { chip with irr := chip.irr ||| lineBit line.index })
  | .lower line =>
      some (b.modifyChip line.pic fun chip =>
        { chip with irr := chip.irr &&& ~~~lineBit line.index })
  | .mask vector =>
      some { b with controller := (maskInterrupt vector b.controller).2 }
  | .unmask vector =>
      some { b with controller := (unmaskInterrupt vector b.controller).2 }
  | .maskAll => some { b with controller := maskAllInterrupt b.controller }
  | .register vector handler arg =>
      if vector < intMaxVectors then
        some (b.registerIntHandler vector handler arg)
      else none
  | .enter source =>
      if b.Takes source then
        (b.vector source).map fun vector =>
          { (b.acknowledge source).callHandler vector with
            serving := some (vector, source) }
      else none
  | .leave =>
      b.serving.map fun frame =>
        { b.issueEoi frame.1 with serving := none }

/-- A run. -/
def Board.run (b : Board) : List Event → Option Board
  | [] => some b
  | event :: events => (b.step event).bind fun b => b.run events

/-- The line requests an interrupt. -/
def Board.Pending (b : Board) (line : Line) : Prop :=
  (b.chips line.pic).irr.getLsbD line.index = true

instance (b : Board) (line : Line) : Decidable (b.Pending line) :=
  inferInstanceAs (Decidable (_ = _))

end ChinixInterruptService

import Mathlib.Logic.Function.Basic

/-! # The interrupt controller (driver/interrupt/interrupt.c)

    Two cascaded PICs, each with a mask register behind its data port and a
    software copy of that register in `irqMask`.  A port reads back the last
    byte written to it.  `interrupt_spinlock` is left out: the calls follow
    one another. -/

namespace ChinixInterrupts

/-- `uint8_t`. -/
abbrev Byte := BitVec 8

/-- The two controllers, by their place in `irqMask`. -/
inductive Pic where
  | pic1
  | pic2
  deriving DecidableEq, Repr

/-- `PIC1` and `PIC2`, the command ports. -/
def Pic.port : Pic → Nat
  | .pic1 => 0x20
  | .pic2 => 0xA0

/-- The port of the mask register. -/
def Pic.dataPort (pic : Pic) : Nat := pic.port + 1

/-- `PIC1_BASE` and `PIC2_BASE`, the first vector of each. -/
def Pic.base : Pic → Nat
  | .pic1 => 0x20
  | .pic2 => 0x28

/-- `ICW1`. -/
def icw1 : Byte := 0x11

/-- `INT_MAX_VECTORS`. -/
def intMaxVectors : Nat := 0x31

/-- `INT_PIC2`, the line of the first PIC that the second one is behind. -/
def intPic2 : Nat := 0x22

/-- The result of the calls that check their vector. -/
inductive Status where
  | noErr
  | errArg
  deriving DecidableEq, Repr

/-- The I/O ports, the static `irqMask` and what `printf` was called with. -/
structure Controller where
  ports : Nat → Byte
  irqMask : Pic → Byte
  printed : List (String × List Nat)

/-- `inb`. -/
def inb (port : Nat) (c : Controller) : Byte := c.ports port

/-- `outb`. -/
def outb (port : Nat) (data : Byte) (c : Controller) : Controller :=
  { c with ports := Function.update c.ports port data }

/-- An assignment to `irqMask[pic]`. -/
def setIrqMask (pic : Pic) (mask : Byte) (c : Controller) : Controller :=
  { c with irqMask := Function.update c.irqMask pic mask }

/-- `printf`. -/
def printf (fmt : String) (args : List Nat) (c : Controller) : Controller :=
  { c with printed := c.printed ++ [(fmt, args)] }

/-- `map_interrupt_controller`. -/
def mapInterruptController (pic1 pic2 : Byte) (c : Controller) : Controller :=
  let c := outb (Pic.port .pic1) icw1 c
  let c := outb (Pic.port .pic2) icw1 c
  let c := outb (Pic.dataPort .pic1) pic1 c
  let c := outb (Pic.dataPort .pic2) pic2 c
  let c := outb (Pic.dataPort .pic1) 4 c
  let c := outb (Pic.dataPort .pic2) 2 c
  let c := outb (Pic.dataPort .pic1) 5 c
  let c := outb (Pic.dataPort .pic2) 1 c
  let c := outb (Pic.dataPort .pic1) 0xff c
  let c := outb (Pic.dataPort .pic2) 0xff c
  let c := setIrqMask .pic1 0xff c
  setIrqMask .pic2 0xff c

/-- The four statements that every branch of `interrupt_enable` runs: fetch
    the register, change the copy, write it back and fetch it again. -/
def rewriteMask (pic : Pic) (change : Byte → Byte) (c : Controller) :
    Controller :=
  let c := setIrqMask pic (inb pic.dataPort c) c
  let c := setIrqMask pic (change (c.irqMask pic)) c
  let c := outb pic.dataPort (c.irqMask pic) c
  setIrqMask pic (inb pic.dataPort c) c

/-- `1 << vector` as a `uint8_t`. -/
def lineBit (vector : Nat) : Byte := 1#8 <<< vector

/-- The branch of `interrupt_enable` for a line of the first PIC. -/
def enableOnPic1 (vector : Nat) (enable : Bool) (c : Controller) :
    Controller :=
  let bit := lineBit vector
  if enable ∧ c.irqMask .pic1 &&& bit ≠ 0 then
    rewriteMask .pic1 (fun mask => mask &&& ~~~bit) c
  else if ¬enable ∧ c.irqMask .pic1 &&& bit = 0 then
    -- an assignment, where the branch for the second PIC has `|=`
    rewriteMask .pic1 (fun _ => bit) c
  else c

/-- The branch for a line of the second PIC, up to the cascade. -/
def enableOnPic2 (vector : Nat) (enable : Bool) (c : Controller) :
    Controller :=
  let bit := lineBit vector
  if enable ∧ c.irqMask .pic2 &&& bit ≠ 0 then
    rewriteMask .pic2 (fun mask => mask &&& ~~~bit) c
  else if ¬enable ∧ c.irqMask .pic2 &&& bit = 0 then
    rewriteMask .pic2 (fun mask => mask ||| bit) c
  else c

/-- The rest of that branch: the line of the cascade. -/
def adjustCascade (c : Controller) : Controller :=
  let bit := lineBit (intPic2 - Pic.base .pic1)
  if c.irqMask .pic2 ≠ 0xff ∧ c.irqMask .pic1 &&& bit ≠ 0 then
    rewriteMask .pic1 (fun mask => mask &&& ~~~bit) c
  else if c.irqMask .pic2 = 0 ∧ c.irqMask .pic1 &&& bit = 0 then
    rewriteMask .pic1 (fun mask => mask ||| bit) c
  else c

/-- `interrupt_enable`. -/
def interruptEnable (vector : Nat) (enable : Bool) (c : Controller) :
    Controller :=
  if Pic.base .pic1 ≤ vector ∧ vector < Pic.base .pic1 + 8 then
    enableOnPic1 (vector - Pic.base .pic1) enable c
  else if Pic.base .pic2 ≤ vector ∧ vector < Pic.base .pic2 + 8 then
    adjustCascade (enableOnPic2 (vector - Pic.base .pic2) enable c)
  else printf "invalid PIC interrupt 0x%x\r\n" [vector] c

/-- `platform_init_interrupts`. -/
def platformInitInterrupts (c : Controller) : Controller :=
  let c := printf "init interrupt controller\r\n" [] c
  mapInterruptController (BitVec.ofNat 8 (Pic.base .pic1))
    (BitVec.ofNat 8 (Pic.base .pic2)) c

/-- `mask_interrupt`. -/
def maskInterrupt (vector : Nat) (c : Controller) : Status × Controller :=
  if vector ≥ intMaxVectors then
    (.errArg, printf "vector 0x%x exceeds max interrupt vector 0x%x\r\n"
      [vector, intMaxVectors] c)
  else (.noErr, interruptEnable vector false c)

/-- `mask_all_interrupt`. -/
def maskAllInterrupt (c : Controller) : Controller :=
  let c := setIrqMask .pic1 (inb (Pic.dataPort .pic1) c) c
  let c := setIrqMask .pic2 (inb (Pic.dataPort .pic2) c) c
  let c := outb (Pic.dataPort .pic1) 0xff c
  let c := outb (Pic.dataPort .pic2) 0xff c
  let c := setIrqMask .pic1 (inb (Pic.dataPort .pic1) c) c
  setIrqMask .pic2 (inb (Pic.dataPort .pic2) c) c

/-- `unmask_interrupt`. -/
def unmaskInterrupt (vector : Nat) (c : Controller) : Status × Controller :=
  (.noErr, interruptEnable vector true c)

-- ── Lines and operations on them ──

/-- A line that a device may be on: any of the sixteen but the cascade. -/
structure Line where
  vector : Nat
  first : Pic.base .pic1 ≤ vector
  last : vector < Pic.base .pic2 + 8
  notCascade : vector ≠ intPic2
  deriving DecidableEq

/-- The controller a line belongs to. -/
def Line.pic (line : Line) : Pic :=
  if line.vector < Pic.base .pic2 then .pic1 else .pic2

/-- The place of a line in its mask register. -/
def Line.index (line : Line) : Nat := line.vector - line.pic.base

/-- The calls of the interface. -/
inductive Operation where
  | mask (line : Line)
  | unmask (line : Line)
  | maskAll
  deriving DecidableEq

/-- What a call does to the controller. -/
def Operation.exec (c : Controller) : Operation → Controller
  | .mask line => (maskInterrupt line.vector c).2
  | .unmask line => (unmaskInterrupt line.vector c).2
  | .maskAll => maskAllInterrupt c

/-- The controller after `platform_init_interrupts` and some calls. -/
def runOps (c : Controller) (ops : List Operation) : Controller :=
  ops.foldl Operation.exec (platformInitInterrupts c)

/-- The register has the bit at `index` set. -/
def Masked (c : Controller) (pic : Pic) (index : Nat) : Prop :=
  (c.ports pic.dataPort).getLsbD index = true

instance (c : Controller) (pic : Pic) (index : Nat) :
    Decidable (Masked c pic index) :=
  inferInstanceAs (Decidable (_ = _))

/-- The place of the cascade in the first register. -/
def cascadeIndex : Nat := intPic2 - Pic.base .pic1

/-- An interrupt on the line reaches the processor. -/
def Deliverable (c : Controller) (line : Line) : Prop :=
  ¬ Masked c line.pic line.index ∧
    (line.pic = .pic2 → ¬ Masked c .pic1 cascadeIndex)

instance (c : Controller) (line : Line) : Decidable (Deliverable c line) :=
  inferInstanceAs (Decidable (_ ∧ (_ → _)))

end ChinixInterrupts

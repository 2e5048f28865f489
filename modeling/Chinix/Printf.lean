import Mathlib.Data.BitVec
import Mathlib.Data.List.Basic

/-! # Formatted output (libc/printf.c)

    `_printf_driver` on a format in memory.  Its two loops, over the text
    between the directives and over the characters of a directive, and its
    `goto`s are one function by recursion on the bytes of the format: the
    `Mode` tells which loop the next byte is for.

    The sink `print` may return anything; what it returns may depend on what
    it was given before. -/

namespace ChinixPrintf

/-- `char`, as its bits. -/
abbrev Byte := BitVec 8

/-- The code of a character. -/
def ascii (c : Char) : Byte := BitVec.ofNat 8 c.toNat

/-! ## Types -/

/-- The bits of `flags`. -/
structure Flags where
  long : Bool
  longlong : Bool
  half : Bool
  halfhalf : Bool
  sizet : Bool
  intmax : Bool
  ptrdiff : Bool
  alt : Bool
  caps : Bool
  showsign : Bool
  signed : Bool
  leftformat : Bool
  leadzero : Bool
  blankpos : Bool
  deriving DecidableEq, Repr

/-- No flag. -/
def Flags.none : Flags :=
  ⟨false, false, false, false, false, false, false, false, false, false,
    false, false, false, false⟩

/-- The format state: `flags`, `format_num` and `signchar`. -/
structure Spec where
  flags : Flags
  formatNum : Nat
  signchar : Byte
  deriving DecidableEq, Repr

/-- What the head of the outer loop resets the format state to. -/
def Spec.reset : Spec := ⟨Flags.none, 0, 0⟩

/-- An argument as `va_arg` finds it: a 64-bit slot, or a slot that points at
    a NUL-terminated string or is NULL. -/
inductive Arg where
  | slot (v : BitVec 64)
  | string (s : Option (List Byte))
  deriving DecidableEq, Repr

/-- A store through the pointer of `%n`. -/
structure Store where
  address : BitVec 64
  size : Nat
  value : Nat
  deriving DecidableEq, Repr

/-- The locals of `_printf_driver`.  `calls` are the calls of `print` with the
    characters each was given, `stores` the stores of `%n`. -/
structure State where
  args : List Arg
  spec : Spec
  charsWritten : Nat
  err : Int
  calls : List (List Byte)
  stores : List Store
  deriving DecidableEq, Repr

/-- `printf_driver_func`: what it returns for some characters, after the calls
    before. -/
abbrev Sink := List (List Byte) → List Byte → Int

/-- Where C leaves the behaviour open. -/
inductive Fault where
  /-- The next argument is missing or of another type. -/
  | mismatch
  /-- A byte behind the memory of the format is read. -/
  | pastEnd
  /-- `num_buffer` is too small. -/
  | numBuffer
  deriving DecidableEq, Repr

/-- The ways out of the loops before the end of the format. -/
inductive Stop where
  /-- `goto exit`. -/
  | exit (st : State)
  | fault (f : Fault)
  deriving DecidableEq, Repr

/-! ## Output -/

variable (print : Sink)

/-- `OUTPUT_STRING`. -/
def outputString (str : List Byte) (st : State) : Except Stop State :=
  let err := print st.calls str
  let st := { st with err := err, calls := st.calls ++ [str] }
  if err < 0 then .error (.exit st)
  else .ok { st with charsWritten := (st.charsWritten + err.toNat) % 2 ^ 64 }

/-- `OUTPUT_CHAR`. -/
def outputChar (c : Byte) (st : State) : Except Stop State :=
  outputString print [c] st

/-- A padding loop, which counts `format_num` down: `count` rounds. -/
def outputPad (c : Byte) : Nat → State → Except Stop State
  | 0, st => .ok st
  | count + 1, st => do
      let st ← outputChar print c st
      outputPad c count
        { st with spec := { st.spec with formatNum := st.spec.formatNum - 1 } }

/-- `_output_string`. -/
def outputField (s : List Byte) (st : State) : Except Stop State :=
  let spec := st.spec
  if spec.flags.leftformat then do
    let st ← outputString print s st
    -- what the sink returned counts, and the sign is left out
    let written := (BitVec.ofInt 32 st.err).toNat
    outputPad print (ascii ' ') (spec.formatNum - written) st
  else do
    let hasSign : Bool := spec.signchar ≠ 0
    let formatNum :=
      if hasSign ∧ spec.formatNum > 0 then spec.formatNum - 1
      else spec.formatNum
    let st := { st with spec := { spec with formatNum := formatNum } }
    let st ←
      (if spec.flags.leadzero ∧ hasSign then outputChar print spec.signchar st
      else .ok st)
    let st ← outputPad print
      (if spec.flags.leadzero then ascii '0' else ascii ' ')
      (formatNum - s.length) st
    let st ←
      (if ¬ spec.flags.leadzero ∧ hasSign then
        outputChar print spec.signchar st
      else .ok st)
    outputString print s st

/-! ## Numbers -/

/-- `digit + '0'`. -/
def digitChar (digit : Nat) : Byte := BitVec.ofNat 8 (digit + 0x30)

/-- The loop of `longlong_to_string`; `pos` bytes of the buffer are left below
    the digits. -/
def decLoop : Nat → Nat → List Byte → Option (List Byte)
  | 0, _, _ => none
  | pos + 1, n, digits =>
      if n ≥ 10 then decLoop pos (n / 10) (digitChar (n % 10) :: digits)
      else some (digitChar n :: digits)

/-- The sign of `longlong_to_string`. -/
def signcharOf (flags : Flags) (negative : Bool) : Byte :=
  if negative then ascii '-'
  else if flags.showsign then ascii '+'
  else if flags.blankpos then ascii ' '
  else 0

/-- `sizeof(num_buffer)` less the terminating NUL. -/
def numBufferRoom : Nat := 31

/-- `longlong_to_string`, with what it stores in `signchar`. -/
def longlongToString (n : BitVec 64) (flags : Flags) :
    Option (List Byte × Byte) := do
  let negative : Bool := flags.signed ∧ n.toInt < 0
  let n := if negative then -n else n
  let s ← decLoop numBufferRoom n.toNat []
  return (s, signcharOf flags negative)

/-- `hextable` and `hextable_caps`. -/
def hexChar (caps : Bool) (digit : Nat) : Byte :=
  if digit < 10 then BitVec.ofNat 8 (digit + 0x30)
  else if caps then BitVec.ofNat 8 (digit - 10 + 0x41)
  else BitVec.ofNat 8 (digit - 10 + 0x61)

/-- The loop of `longlong_to_hexstring`. -/
def hexLoop (caps : Bool) : Nat → Nat → List Byte → Option (List Byte)
  | 0, _, _ => none
  | pos + 1, u, digits =>
      let digits := hexChar caps (u % 16) :: digits
      if u / 16 ≠ 0 then hexLoop caps pos (u / 16) digits else some digits

/-- `longlong_to_hexstring`. -/
def longlongToHexstring (u : BitVec 64) (flags : Flags) :
    Option (List Byte) :=
  hexLoop flags.caps numBufferRoom u.toNat []

/-! ## Arguments -/

/-- `va_arg` for an integer or a pointer. -/
def vaSlot (st : State) : Except Stop (BitVec 64 × State) :=
  -- an argument of another type is undefined behaviour in C
  match st.args with
  | .slot v :: args => .ok (v, { st with args := args })
  | _ => .error (.fault .mismatch)

/-- `va_arg` for a `char *`. -/
def vaString (st : State) : Except Stop (Option (List Byte) × State) :=
  match st.args with
  | .string s :: args => .ok (s, { st with args := args })
  | _ => .error (.fault .mismatch)

/-- What `d` and `i` read.  sys/types.h makes `ssize_t` an `int`. -/
def signedArg (flags : Flags) (v : BitVec 64) : BitVec 64 :=
  if flags.longlong then v
  else if flags.long then v
  else if flags.halfhalf then (v.setWidth 8).signExtend 64
  else if flags.half then (v.setWidth 16).signExtend 64
  else if flags.sizet then (v.setWidth 32).signExtend 64
  else if flags.intmax then v
  else if flags.ptrdiff then v
  else (v.setWidth 32).signExtend 64

/-- What `u`, `x`, `X` and `p` read. -/
def unsignedArg (flags : Flags) (v : BitVec 64) : BitVec 64 :=
  if flags.longlong then v
  else if flags.long then v
  else if flags.halfhalf then (v.setWidth 8).setWidth 64
  else if flags.half then (v.setWidth 16).setWidth 64
  else if flags.sizet then v
  else if flags.intmax then v
  else if flags.ptrdiff then v
  else (v.setWidth 32).setWidth 64

/-- The stores of `n`: the chain of tests is broken after `HALFHALFFLAG`. -/
def countStores (flags : Flags) (ptr : BitVec 64) (written : Nat) :
    List Store :=
  let store := fun size => Store.mk ptr size (written % 2 ^ (8 * size))
  (if flags.longlong then [store 8]
    else if flags.long then [store 8]
    else if flags.halfhalf then [store 1]
    else []) ++
  (if flags.half then [store 2]
    else if flags.sizet then [store 8]
    else [store 4])

/-! ## Directives -/

/-- Change the flags of the format state. -/
def Spec.setFlags (spec : Spec) (f : Flags → Flags) : Spec :=
  { spec with flags := f spec.flags }

/-- A decimal digit. -/
def isDigit (c : Byte) : Bool := 0x30 ≤ c.toNat ∧ c.toNat ≤ 0x39

/-- The characters of a directive that change the format state and go on with
    the next character. -/
def Spec.modify (spec : Spec) (c : Byte) : Option Spec :=
  if isDigit c then
    let spec :=
      if c = ascii '0' ∧ spec.formatNum = 0 then
        spec.setFlags fun f => { f with leadzero := true }
      else spec
    some { spec with
      formatNum :=
        (spec.formatNum * 10 % 2 ^ 32 + (c.toNat - 0x30)) % 2 ^ 32 }
  -- a precision is not told from a width: the digits behind go on with it
  else if c = ascii '.' then some spec
  else if c = ascii '-' then
    some (spec.setFlags fun f => { f with leftformat := true })
  else if c = ascii '+' then
    some (spec.setFlags fun f => { f with showsign := true })
  else if c = ascii ' ' then
    some (spec.setFlags fun f => { f with blankpos := true })
  else if c = ascii '#' then
    some (spec.setFlags fun f => { f with alt := true })
  else if c = ascii 'l' then
    some (spec.setFlags fun f =>
      { f with longlong := f.longlong || f.long, long := true })
  else if c = ascii 'h' then
    some (spec.setFlags fun f =>
      { f with halfhalf := f.halfhalf || f.half, half := true })
  else if c = ascii 'z' then
    some (spec.setFlags fun f => { f with sizet := true })
  else if c = ascii 'j' then
    some (spec.setFlags fun f => { f with intmax := true })
  else if c = ascii 't' then
    some (spec.setFlags fun f => { f with ptrdiff := true })
  else none

/-- Change the format state. -/
def State.setSpec (st : State) (spec : Spec) : State :=
  { st with spec := spec }

/-- Change the flags. -/
def State.setFlags (st : State) (f : Flags → Flags) : State :=
  st.setSpec (st.spec.setFlags f)

/-- The case `s`. -/
def convertString (st : State) : Except Stop State := do
  let (s, st) ← vaString st
  let s := s.getD ("<null>".toList.map ascii)
  outputField print s (st.setFlags fun f => { f with leadzero := false })

/-- A decimal number of `num_buffer`, with its sign. -/
def outputDecimal (n : BitVec 64) (st : State) : Except Stop State :=
  match longlongToString n st.spec.flags with
  | none => .error (.fault .numBuffer)
  | some (s, signchar) =>
      outputField print s (st.setSpec { st.spec with signchar := signchar })

/-- The cases `i` and `d`. -/
def convertSigned (st : State) : Except Stop State := do
  let (v, st) ← vaSlot st
  let n := signedArg st.spec.flags v
  outputDecimal print n (st.setFlags fun f => { f with signed := true })

/-- The case `u`. -/
def convertUnsigned (st : State) : Except Stop State := do
  let (v, st) ← vaSlot st
  outputDecimal print (unsignedArg st.spec.flags v) st

/-- The case `x`, with the label `hex`. -/
def convertHex (st : State) : Except Stop State := do
  let (v, st) ← vaSlot st
  let flags := st.spec.flags
  match longlongToHexstring (unsignedArg flags v) flags with
  | none => .error (.fault .numBuffer)
  | some s => do
      -- the prefix goes out before the field, and so before its padding
      let st ←
        (if flags.alt then do
          let st ← outputChar print (ascii '0') st
          outputChar print (if flags.caps then ascii 'X' else ascii 'x') st
        else .ok st)
      outputField print s st

/-- The case `n`. -/
def convertCount (st : State) : Except Stop State := do
  let (ptr, st) ← vaSlot st
  return { st with
    stores := st.stores ++ countStores st.spec.flags ptr st.charsWritten }

/-- The characters that end a directive. -/
def convert (c : Byte) (st : State) : Except Stop State :=
  if c = ascii '%' then outputChar print (ascii '%') st
  else if c = ascii 'c' then do
    let (v, st) ← vaSlot st
    outputChar print (v.setWidth 8) st
  else if c = ascii 's' then convertString print st
  else if c = ascii 'i' ∨ c = ascii 'd' then convertSigned print st
  else if c = ascii 'u' then convertUnsigned print st
  else if c = ascii 'p' then
    convertHex print (st.setFlags fun f => { f with long := true, alt := true })
  else if c = ascii 'X' then
    convertHex print (st.setFlags fun f => { f with caps := true })
  else if c = ascii 'x' then convertHex print st
  else if c = ascii 'n' then convertCount st
  else do
    -- an unknown character is printed as it stands
    let st ← outputChar print (ascii '%') st
    outputChar print c st

/-! ## The driver -/

/-- Which loop the next byte of the format is for; `s` is the text that has
    been accumulated. -/
inductive Mode where
  | text (s : List Byte)
  | directive
  deriving DecidableEq, Repr

/-- The head of the outer loop. -/
def State.reset (st : State) : State := st.setSpec Spec.reset

/-- One byte of the format, other than the terminating NUL. -/
def scanByte (mode : Mode) (c : Byte) (st : State) :
    Except Stop (Mode × State) :=
  match mode with
  | .text s =>
      if c = ascii '%' then do
        let st ← outputString print s st
        return (.directive, st)
      else .ok (.text (s ++ [c]), st)
  | .directive =>
      match st.spec.modify c with
      | some spec => .ok (.directive, st.setSpec spec)
      | none => do
          let st ← convert print c st
          return (.text [], st.reset)

/-- The terminating NUL. -/
def scanEnd (mode : Mode) (st : State) : Except Stop State :=
  match mode with
  -- a directive that is cut off prints nothing
  | .text s => outputString print s st
  | .directive => .ok st

/-- The loops of `_printf_driver` over the memory `fmt`. -/
def scan : Mode → List Byte → State → Except Stop State
  | _, [], _ => .error (.fault .pastEnd)
  | mode, c :: fmt, st =>
      if c = 0 then scanEnd print mode st
      else do
        let (mode, st) ← scanByte print mode c st
        scan mode fmt st

/-- The locals at the first byte. -/
def State.init (args : List Arg) : State :=
  ⟨args, Spec.reset, 0, 0, [], []⟩

/-- What the label `exit` returns. -/
def returnValue (st : State) : Int :=
  if st.err < 0 then st.err else (BitVec.ofNat 32 st.charsWritten).toInt

/-- `_printf_driver`, with its locals at the end. -/
def printfDriver (fmt : List Byte) (args : List Arg) :
    Except Fault (Int × State) :=
  match scan print (.text []) fmt (State.init args) with
  | .ok st => .ok (returnValue st, st)
  | .error (.exit st) => .ok (returnValue st, st)
  | .error (.fault f) => .error f

end ChinixPrintf

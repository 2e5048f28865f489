import Chinix.CountingLoop
import Mathlib.Data.BitVec
import Mathlib.Logic.Function.Basic

/-! # The console (driver/console/console.c)

    A window and a cursor over the 16-bit cells of the text frame buffer.
    The frame buffer is memory: a cell is `2 * (80 * y + x)` bytes from its
    base, whatever `x` and `y` are, so cells are numbered by `80 * y + x` and
    the numbers outside the screen are the memory next to it. -/

namespace ChinixConsole

open CountingLoop

/-- `char`, as its bits. -/
abbrev Byte := BitVec 8

/-- `FRAME_WIDTH`. -/
def frameWidth : Int := 80

/-- `FRAME_HEIGHT`. -/
def frameHeight : Int := 25

/-- `CGA_INDEX_PORT`. -/
def cgaIndexPort : Nat := 0x3D4

/-- `CGA_DATA_PORT`. -/
def cgaDataPort : Nat := 0x3D5

/-- `CURSOR_POS_MSB`. -/
def cursorPosMsb : Byte := 0x0E

/-- `CURSOR_POS_LSB`. -/
def cursorPosLsb : Byte := 0x0F

/-- The tab character. -/
def tab : Byte := 0x09

/-- The carriage return. -/
def carriageReturn : Byte := 0x0D

/-- The newline. -/
def newline : Byte := 0x0A

/-- The backspace. -/
def backspace : Byte := 0x08

/-- The blank. -/
def space : Byte := 0x20

/-- `struct window`. -/
structure Window where
  x1 : Int
  x2 : Int
  y1 : Int
  y2 : Int
  deriving DecidableEq, Repr

/-- `struct cursor`, without the fields that nothing reads.  `x` and `y` are
    of type `char`. -/
structure Cursor where
  x : Int
  y : Int
  defaultAttr : Byte

/-- `viewer`, the frame buffer, and what was sent to the CGA controller and
    to the UART.  The last field is ghost: the cells read or written. -/
structure Console where
  wd : Window
  cs : Cursor
  cells : Int → BitVec 16
  ports : List (Nat × Byte)
  uart : List Byte
  touched : List Int

/-- The conversion of an `int` to `char`. -/
def toChar (x : Int) : Int := (BitVec.ofInt 8 x).toInt

/-- `ANCHOR_BUF`, as the number of the cell. -/
def anchorBuf (x y : Int) : Int := frameWidth * y + x

/-- `outb`. -/
def outb (port : Nat) (data : Byte) (s : Console) : Console :=
  { s with ports := s.ports ++ [(port, data)] }

/-- `place`. -/
def place (x y : Int) (s : Console) : Console :=
  let word := BitVec.ofInt 16 (x + y * 80)
  let s := outb cgaIndexPort cursorPosLsb s
  let s := outb cgaDataPort (word.setWidth 8) s
  let s := outb cgaIndexPort cursorPosMsb s
  let s := outb cgaDataPort ((word >>> 8).setWidth 8) s
  { s with cs := { s.cs with x := toChar x, y := toChar y } }

/-- `read_pos_value`. -/
def readPosValue (x y : Int) (s : Console) : BitVec 16 × Console :=
  (s.cells (anchorBuf x y),
    { s with touched := s.touched ++ [anchorBuf x y] })

/-- `set_pos_value`. -/
def setPosValue (x y : Int) (value : BitVec 16) (s : Console) : Console :=
  { s with
    cells := Function.update s.cells (anchorBuf x y) value
    touched := s.touched ++ [anchorBuf x y] }

/-- A character with its attribute. -/
def cellOf (attr c : Byte) : BitVec 16 :=
  (attr.setWidth 16 <<< 8) ||| c.setWidth 16

/-- `console_display_char`. -/
def consoleDisplayChar (x y : Int) (attr c : Byte) (s : Console) : Console :=
  setPosValue x y (cellOf attr c) s

/-- `clear_console`. -/
def clearConsole (s : Console) : Console :=
  let wd := s.wd
  let attr := s.cs.defaultAttr
  let s := forTo wd.y1 wd.y2 (fun y s =>
    forTo wd.x1 wd.x2 (fun x s => consoleDisplayChar x y attr space s) s) s
  { s with cs := { s.cs with x := toChar wd.x1, y := toChar wd.y1 } }

/-- The body of the copying loop of `scroll`. -/
def copyUp (x y : Int) (s : Console) : Console :=
  let r := readPosValue x y s
  setPosValue x (y - 1) r.1 r.2

/-- `scroll`. -/
def scroll (s : Console) : Console :=
  let wd := s.wd
  let defaultAttr := s.cs.defaultAttr
  let s := forTo (wd.y1 + 1) wd.y2 (fun y s =>
    forTo wd.x1 wd.x2 (fun x s => copyUp x y s) s) s
  forTo wd.x1 wd.x2 (fun x s =>
    setPosValue x wd.y2 (defaultAttr.setWidth 16 <<< 8) s) s

/-- `if (y == wd->y2) scroll(vw); else y++;`, with the new `y`. -/
def nextRow (y : Int) (s : Console) : Int × Console :=
  if y = s.wd.y2 then (y, scroll s) else (y + 1, s)

/-- `((x + 0x07) & 0xf8)`. -/
def roundUp8 (x : Int) : Int :=
  (BitVec.ofInt 32 (x + 0x07) &&& 0xf8#32).toInt

/-- `console_putc`. -/
def consolePutc (c : Byte) (s : Console) : Console :=
  let x := s.cs.x
  let y := s.cs.y
  if c = tab then
    -- rounding up comes after the test and may leave the row
    let x := x + 8
    if x ≥ s.wd.x2 + 1 then
      let r := nextRow y s
      place s.wd.x1 r.1 r.2
    else place (roundUp8 x) y s
  else if c = carriageReturn then place s.wd.x1 y s
  else if c = newline then
    -- the column stays
    let r := nextRow y s
    place x r.1 r.2
  else if c = backspace then
    -- without a test for column 0
    let x := x - 1
    place x y (consoleDisplayChar x y s.cs.defaultAttr space s)
  else
    let s := consoleDisplayChar x y s.cs.defaultAttr c s
    let x := x + 1
    if x ≥ s.wd.x2 + 1 then
      let r := nextRow y s
      place s.wd.x1 r.1 r.2
    else place x y s

/-- `uart_putc`, once the transmitter is ready. -/
def uartPutc (c : Byte) (s : Console) : Console :=
  { s with uart := s.uart ++ [c] }

/-- The body of the loop of `console_put_str`. -/
def putStrChar (s : Console) (c : Byte) : Console :=
  let s := if c = newline then consolePutc carriageReturn s else s
  uartPutc c (consolePutc c s)

/-- `console_put_str`, with its return value; `str` are the `len` characters
    at its argument. -/
def consolePutStr (str : List Byte) (s : Console) : Int × Console :=
  ((BitVec.ofNat 32 str.length).toInt, str.foldl putStrChar s)

/-- `console_init`. -/
def consoleInit (s : Console) : Console :=
  let s := { s with
    wd := ⟨0, frameWidth - 1, 0, frameHeight - 1⟩
    cs := ⟨0, 0, 0x07⟩ }
  place 0 0 (clearConsole s)

/-! ## Cells and conversions -/

/-- The window that `console_init` sets up: the whole screen. -/
def screen : Window := ⟨0, 79, 0, 24⟩

/-- The number of a cell of the screen. -/
def OnScreen (i : Int) : Prop := 0 ≤ i ∧ i < frameWidth * frameHeight

instance (i : Int) : Decidable (OnScreen i) :=
  inferInstanceAs (Decidable (_ ∧ _))

theorem onScreen_iff {i : Int} : OnScreen i ↔ 0 ≤ i ∧ i < 2000 := Iff.rfl

theorem anchorBuf_eq (x y : Int) : anchorBuf x y = 80 * y + x := rfl

/-- A cell in the bounds of the screen. -/
theorem onScreen_anchorBuf {x y : Int} (hx : 0 ≤ x) (hx' : x ≤ 79)
    (hy : 0 ≤ y) (hy' : y ≤ 24) : OnScreen (anchorBuf x y) := by
  rw [onScreen_iff, anchorBuf_eq]
  omega

/-- A value in the range of `char` is kept. -/
theorem toChar_of_range {x : Int} (hlo : -128 ≤ x) (hhi : x < 128) :
    toChar x = x := by
  rw [toChar, BitVec.toInt_ofInt]
  exact Int.bmod_eq_of_le (by omega) (by omega)

/-- The next tab stop. -/
theorem roundUp8_of_range {x : Int} (hlo : 0 ≤ x) (hhi : x ≤ 79) :
    roundUp8 x = (x + 7) / 8 * 8 := by
  have hall : ∀ n : Fin 80, roundUp8 ((n : Nat) : Int)
      = (((n : Nat) : Int) + 7) / 8 * 8 := by decide
  obtain ⟨n, rfl⟩ := Int.eq_ofNat_of_zero_le hlo
  exact hall ⟨n, by omega⟩

/-! ## What drawing leaves alone -/

/-- All the cells read or written so far are on the screen. -/
def Inside (s : Console) : Prop := ∀ i ∈ s.touched, OnScreen i

/-- The frame buffer is read and written, on the screen only. -/
structure Draws (s s' : Console) : Prop where
  wd : s'.wd = s.wd
  cs : s'.cs = s.cs
  ports : s'.ports = s.ports
  uart : s'.uart = s.uart
  inside : Inside s → Inside s'

theorem Draws.refl (s : Console) : Draws s s := ⟨rfl, rfl, rfl, rfl, id⟩

theorem Draws.trans {s s' s'' : Console} (h : Draws s s')
    (h' : Draws s' s'') : Draws s s'' :=
  ⟨h'.wd.trans h.wd, h'.cs.trans h.cs, h'.ports.trans h.ports,
    h'.uart.trans h.uart, fun hi => h'.inside (h.inside hi)⟩

/-- One more cell of the screen is touched. -/
theorem inside_append {s : Console} {i : Int} (h : Inside s) (hi : OnScreen i) :
    ∀ j ∈ s.touched ++ [i], OnScreen j := by
  intro j hj
  rcases List.mem_append.mp hj with hold | hnew
  · exact h j hold
  · rw [List.mem_singleton.mp hnew]
    exact hi

theorem setPosValue_draws {x y : Int} (h : OnScreen (anchorBuf x y))
    (value : BitVec 16) (s : Console) : Draws s (setPosValue x y value s) :=
  ⟨rfl, rfl, rfl, rfl, fun hi => inside_append hi h⟩

theorem readPosValue_draws {x y : Int} (h : OnScreen (anchorBuf x y))
    (s : Console) : Draws s (readPosValue x y s).2 :=
  ⟨rfl, rfl, rfl, rfl, fun hi => inside_append hi h⟩

theorem copyUp_draws {x y : Int} (hx : 0 ≤ x) (hx' : x ≤ 79) (hy : 1 ≤ y)
    (hy' : y ≤ 24) (s : Console) : Draws s (copyUp x y s) :=
  (readPosValue_draws (onScreen_anchorBuf hx hx' (by omega) hy') s).trans
    (setPosValue_draws (onScreen_anchorBuf hx hx' (by omega) (by omega)) _ _)

/-- `scroll` stays on the screen. -/
theorem scroll_draws {s : Console} (h : s.wd = screen) :
    Draws s (scroll s) := by
  rw [scroll]
  rw [h]
  refine Draws.trans (forTo_keeps (I := Draws s) (Draws.refl s) ?_)
    (forTo_keeps (I := Draws _) (Draws.refl _) ?_)
  · intro y s1 hy hy' h1
    refine h1.trans (forTo_keeps (I := Draws s1) (Draws.refl s1) ?_)
    intro x s2 hx hx' h2
    exact h2.trans (copyUp_draws hx hx' hy hy' s2)
  · intro x s1 hx hx' h1
    exact h1.trans (setPosValue_draws
      (onScreen_anchorBuf hx hx' (by decide) (by decide)) _ s1)

/-! ## What `scroll` and `clear_console` write -/

theorem cells_setPosValue (x y : Int) (value : BitVec 16) (s : Console)
    (i : Int) :
    (setPosValue x y value s).cells i
      = if i = 80 * y + x then value else s.cells i := by
  by_cases h : i = 80 * y + x
  · subst h
    rw [if_pos rfl]
    exact Function.update_self _ _ _
  · rw [if_neg h]
    exact Function.update_of_ne h _ _

theorem cells_copyUp (x y : Int) (s : Console) (i : Int) :
    (copyUp x y s).cells i
      = if i = 80 * (y - 1) + x then s.cells (80 * y + x) else s.cells i :=
  cells_setPosValue x (y - 1) _ _ i

/-- A row of the copying loop of `scroll`. -/
theorem cells_copyRow (y : Int) (s : Console) (i : Int) :
    (forTo 0 79 (fun x s => copyUp x y s) s).cells i
      = if 80 * (y - 1) ≤ i ∧ i < 80 * y then s.cells (i + 80)
        else s.cells i := by
  have hloop := forTo_rule 0 79 (fun x s => copyUp x y s) s
    (I := fun x s' => ∀ i, s'.cells i =
      if 80 * (y - 1) ≤ i ∧ i < 80 * (y - 1) + x then s.cells (i + 80)
      else s.cells i) (by decide) ?_ ?_
  · rw [hloop i]
    have hiff : i < 80 * (y - 1) + (79 + 1) ↔ i < 80 * y := by omega
    simp only [hiff]
  · intro i
    rw [if_neg (by omega)]
  · intro x s' hx hx' hI i
    rw [cells_copyUp]
    by_cases hi : i = 80 * (y - 1) + x
    · -- the cell it comes from is in a row that this loop does not write
      rw [if_pos hi, hI, if_neg (by omega), if_pos (by omega)]
      congr 1
      omega
    · have hiff : i < 80 * (y - 1) + x ↔ i < 80 * (y - 1) + (x + 1) := by
        omega
      rw [if_neg hi, hI]
      simp only [hiff]

/-- The copying loop of `scroll`. -/
theorem cells_copyRows (s : Console) (i : Int) :
    (forTo 1 24 (fun y s => forTo 0 79 (fun x s => copyUp x y s) s) s).cells i
      = if 0 ≤ i ∧ i < 1920 then s.cells (i + 80) else s.cells i := by
  have hloop := forTo_rule 1 24
    (fun y s => forTo 0 79 (fun x s => copyUp x y s) s) s
    (I := fun y s' => ∀ i, s'.cells i =
      if 0 ≤ i ∧ i < 80 * (y - 1) then s.cells (i + 80) else s.cells i)
    (by decide) ?_ ?_
  · exact hloop i
  · intro i
    rw [if_neg (by omega)]
  · intro y s' hy hy' hI i
    rw [cells_copyRow]
    by_cases hrow : 80 * (y - 1) ≤ i ∧ i < 80 * y
    · -- the rows from `y` on are as they were
      rw [if_pos hrow, hI, if_neg (by omega), if_pos (by omega)]
    · have hiff : (0 ≤ i ∧ i < 80 * (y - 1)) ↔
          (0 ≤ i ∧ i < 80 * (y + 1 - 1)) := by omega
      rw [if_neg hrow, hI]
      simp only [hiff]

/-- A row filled with one value. -/
theorem cells_fillRow (y : Int) (value : BitVec 16) (s : Console) (i : Int) :
    (forTo 0 79 (fun x s => setPosValue x y value s) s).cells i
      = if 80 * y ≤ i ∧ i < 80 * y + 80 then value else s.cells i := by
  have hloop := forTo_rule 0 79 (fun x s => setPosValue x y value s) s
    (I := fun x s' => ∀ i, s'.cells i =
      if 80 * y ≤ i ∧ i < 80 * y + x then value else s.cells i)
    (by decide) ?_ ?_
  · exact hloop i
  · intro i
    rw [if_neg (by omega)]
  · intro x s' hx hx' hI i
    rw [cells_setPosValue]
    by_cases hi : i = 80 * y + x
    · rw [if_pos hi, if_pos (by omega)]
    · have hiff : i < 80 * y + x ↔ i < 80 * y + (x + 1) := by omega
      rw [if_neg hi, hI]
      simp only [hiff]

/-- **What `scroll` does**: every row but the last takes the row below it, the
    last one is blank. -/
theorem cells_scroll {s : Console} (h : s.wd = screen) (i : Int) :
    (scroll s).cells i =
      if 1920 ≤ i ∧ i < 2000 then s.cs.defaultAttr.setWidth 16 <<< 8
      else if 0 ≤ i ∧ i < 1920 then s.cells (i + 80) else s.cells i := by
  have hcopy := cells_copyRows s i
  have hfill := cells_fillRow 24 (s.cs.defaultAttr.setWidth 16 <<< 8)
    (forTo 1 24 (fun y s => forTo 0 79 (fun x s => copyUp x y s) s) s) i
  rw [hcopy] at hfill
  rw [scroll]
  rw [h]
  exact hfill

/-- **What `clear_console` does** to the cells. -/
theorem cells_clearConsole {s : Console} (h : s.wd = screen) (i : Int) :
    (clearConsole s).cells i
      = if 0 ≤ i ∧ i < 2000 then cellOf s.cs.defaultAttr space
        else s.cells i := by
  have hloop := forTo_rule 0 24
    (fun y s' => forTo 0 79 (fun x s' =>
      setPosValue x y (cellOf s.cs.defaultAttr space) s') s') s
    (I := fun y s' => ∀ i, s'.cells i =
      if 0 ≤ i ∧ i < 80 * y then cellOf s.cs.defaultAttr space
      else s.cells i)
    (by decide) ?_ ?_
  · rw [clearConsole]
    rw [h]
    exact hloop i
  · intro i
    rw [if_neg (by omega)]
  · intro y s' hy hy' hI i
    rw [cells_fillRow]
    by_cases hrow : 80 * y ≤ i ∧ i < 80 * y + 80
    · rw [if_pos hrow, if_pos (by omega)]
    · have hiff : (0 ≤ i ∧ i < 80 * y) ↔ (0 ≤ i ∧ i < 80 * (y + 1)) := by
        omega
      rw [if_neg hrow, hI]
      simp only [hiff]

/-- `clear_console` draws on the screen and then homes the cursor. -/
theorem clearConsole_eq {s : Console} (h : s.wd = screen) :
    ∃ s', Draws s s' ∧
      clearConsole s = { s' with cs := { s'.cs with x := 0, y := 0 } } := by
  refine ⟨forTo 0 24 (fun y s' => forTo 0 79 (fun x s' =>
    consoleDisplayChar x y s.cs.defaultAttr space s') s') s, ?_, ?_⟩
  · refine forTo_keeps (I := Draws s) (Draws.refl s) ?_
    intro y s1 hy hy' h1
    refine h1.trans (forTo_keeps (I := Draws s1) (Draws.refl s1) ?_)
    intro x s2 hx hx' h2
    exact h2.trans (setPosValue_draws (onScreen_anchorBuf hx hx' hy hy') _ s2)
  · rw [clearConsole]
    rw [h]
    rfl

/-! ## `console_putc` on the screen, branch by branch -/

variable {s : Console}

theorem consolePutc_tab (h : s.wd = screen) :
    consolePutc tab s =
      if 80 ≤ s.cs.x + 8 then place 0 (nextRow s.cs.y s).1 (nextRow s.cs.y s).2
      else place (roundUp8 (s.cs.x + 8)) s.cs.y s := by
  rw [consolePutc]
  rw [h]
  rfl

theorem consolePutc_carriageReturn (h : s.wd = screen) :
    consolePutc carriageReturn s = place 0 s.cs.y s := by
  rw [consolePutc]
  rw [h]
  rfl

theorem consolePutc_newline (s : Console) :
    consolePutc newline s
      = place s.cs.x (nextRow s.cs.y s).1 (nextRow s.cs.y s).2 := rfl

theorem consolePutc_backspace (s : Console) :
    consolePutc backspace s = place (s.cs.x - 1) s.cs.y
      (consoleDisplayChar (s.cs.x - 1) s.cs.y s.cs.defaultAttr space s) := rfl

/-- A character without a branch of its own. -/
theorem consolePutc_plain (h : s.wd = screen) {c : Byte} (htab : c ≠ tab)
    (hcr : c ≠ carriageReturn) (hnl : c ≠ newline) (hbs : c ≠ backspace) :
    consolePutc c s =
      let s' := consoleDisplayChar s.cs.x s.cs.y s.cs.defaultAttr c s
      if 80 ≤ s.cs.x + 1 then
        place 0 (nextRow s.cs.y s').1 (nextRow s.cs.y s').2
      else place (s.cs.x + 1) s.cs.y s' := by
  rw [consolePutc]
  rw [if_neg htab, if_neg hcr, if_neg hnl, if_neg hbs]
  show (if s.cs.x + 1 ≥ s.wd.x2 + 1 then place s.wd.x1 _ _ else _) = _
  rw [h]
  rfl

end ChinixConsole

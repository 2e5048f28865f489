import Chinix.ConsoleBounds

/-! # The console as a window on an unbounded terminal

    A terminal without a bottom: characters go to the cell of the cursor, the
    cursor moves on, and no row ever moves.  Without tabs and backspaces the
    screen of the console is the last 25 rows of that terminal, up to the row
    of the cursor, where NUL shows as a blank. -/

namespace ChinixReferenceTerminal

open CountingLoop ChinixConsole ChinixConsoleBounds

/-! ## The reference terminal -/

/-- A terminal of 80 columns and any number of rows. -/
structure Terminal where
  cell : Nat → Nat → Byte
  row : Nat
  col : Nat

/-- A blank terminal with its cursor at home. -/
def Terminal.init : Terminal := ⟨fun _ _ => space, 0, 0⟩

/-- The first column of the next row. -/
def Terminal.nextLine (t : Terminal) : Terminal :=
  { t with row := t.row + 1, col := 0 }

/-- A character stored in the cell of the cursor. -/
def Terminal.store (t : Terminal) (c : Byte) : Terminal :=
  { t with
    cell := Function.update t.cell t.row
      (Function.update (t.cell t.row) t.col c) }

/-- What the terminal does with a character. -/
def Terminal.feed (t : Terminal) (c : Byte) : Terminal :=
  if c = newline then t.nextLine
  else if c = carriageReturn then { t with col := 0 }
  else if t.col + 1 = 80 then (t.store c).nextLine
  else { t.store c with col := t.col + 1 }

/-- The first of the last 25 rows. -/
def Terminal.top (t : Terminal) : Nat := t.row - 24

/-! ## What the screen shows -/

/-- NUL counts as a blank. -/
def shown (c : Byte) : Byte := if c = 0 then space else c

/-- The character of a cell. -/
def cellChar (w : BitVec 16) : Byte := w.setWidth 8

/-- The attribute of a cell. -/
def cellAttr (w : BitVec 16) : Byte := (w >>> 8).setWidth 8

/-- A cell of the frame buffer shows a character in the default attribute. -/
def CellShows (w : BitVec 16) (c : Byte) : Prop :=
  cellAttr w = 0x07 ∧ shown (cellChar w) = shown c

/-- The screen and the cursor are those of the terminal, from its row `top`
    on. -/
structure Displays (s : Console) (t : Terminal) : Prop where
  x : s.cs.x = t.col
  y : s.cs.y = (t.row - t.top : Nat)
  cell : ∀ x y : Nat, x < 80 → y < 25 →
    CellShows (s.cells (anchorBuf x y)) (t.cell (t.top + y) x)

theorem cellAttr_cellOf (attr c : Byte) : cellAttr (cellOf attr c) = attr := by
  refine BitVec.eq_of_getLsbD_eq fun i hi => ?_
  have h8 : 8 + i < 16 := by omega
  simp [cellAttr, cellOf, hi, h8]

theorem cellChar_cellOf (attr c : Byte) : cellChar (cellOf attr c) = c := by
  refine BitVec.eq_of_getLsbD_eq fun i hi => ?_
  simp [cellChar, cellOf, hi]

/-- A character that was displayed shows. -/
theorem cellShows_cellOf (c : Byte) : CellShows (cellOf 0x07 c) c := by
  rw [CellShows, cellAttr_cellOf, cellChar_cellOf]
  exact ⟨rfl, rfl⟩

/-- What `scroll` leaves in the last row shows as a blank. -/
theorem cellShows_scrolled :
    CellShows ((0x07#8).setWidth 16 <<< 8) space :=
  ⟨by decide, by decide⟩

/-! ## The simulation -/

/-- The cells agree with those of the terminal from its row `top` on, and
    what the console adds to them later is blank there. -/
structure Agrees (s : Console) (t : Terminal) : Prop where
  wd : s.wd = screen
  attr : s.cs.defaultAttr = 0x07
  cell : ∀ x y : Nat, x < 80 → y < 25 →
    CellShows (s.cells (anchorBuf x y)) (t.cell (t.top + y) x)
  below : ∀ r x, t.row < r → t.cell r x = space

variable {s : Console} {t : Terminal}

/-- The agreement does not depend on where the two cursors are in a row. -/
theorem Agrees.setCol (h : Agrees s t) (col : Nat) :
    Agrees s { t with col := col } :=
  ⟨h.wd, h.attr, h.cell, h.below⟩

theorem Agrees.place (h : Agrees s t) (x y : Int) : Agrees (place x y s) t :=
  ⟨h.wd, h.attr, h.cell, h.below⟩

/-- A cell of row `y` of the screen is another cell than one of another row
    or column. -/
theorem anchorBuf_inj {x y x' y' : Nat} (hx : x < 80) (hx' : x' < 80)
    (h : anchorBuf x y = anchorBuf x' y') : x = x' ∧ y = y' := by
  rw [anchorBuf_eq, anchorBuf_eq] at h
  omega

/-- **Storing a character**: the cell of the cursor is row `row - top` of the
    screen. -/
theorem Agrees.store (h : Agrees s t) (hcol : t.col < 80) (c : Byte) :
    Agrees (consoleDisplayChar t.col (t.row - t.top : Nat)
      s.cs.defaultAttr c s) (t.store c) := by
  refine ⟨h.wd, h.attr, ?_, ?_⟩
  · intro x y hx hy
    show CellShows ((setPosValue t.col (t.row - t.top : Nat)
      (cellOf s.cs.defaultAttr c) s).cells (anchorBuf x y))
      ((t.store c).cell (t.top + y) x)
    rw [cells_setPosValue, ← anchorBuf_eq, h.attr]
    by_cases hhere : anchorBuf x y = anchorBuf t.col (t.row - t.top : Nat)
    · obtain ⟨rfl, hy'⟩ := anchorBuf_inj hx hcol hhere
      have hrow : t.top + y = t.row := by
        rw [hy', Terminal.top]
        omega
      rw [if_pos hhere, hrow, Terminal.store]
      simp only [Function.update_self]
      exact cellShows_cellOf c
    -- every other cell of the screen is another cell of the terminal, too
    · have hkeep : (t.store c).cell (t.top + y) x = t.cell (t.top + y) x := by
        by_cases hrow : t.top + y = t.row
        · have hx' : x ≠ t.col := by
            rintro rfl
            refine hhere ?_
            congr 1
            omega
          simp [Terminal.store, hrow, hx']
        · simp [Terminal.store, hrow]
      rw [if_neg hhere, hkeep]
      exact h.cell x y hx hy
  · intro r x hr
    have hne : r ≠ t.row := Nat.ne_of_gt hr
    simp only [Terminal.store, Function.update_of_ne hne]
    exact h.below r x hr

/-- **The next row**: the window of the terminal moves with the scrolling. -/
theorem Agrees.nextRow (h : Agrees s t) :
    Agrees (nextRow (t.row - t.top : Nat) s).2 t.nextLine ∧
      (nextRow (t.row - t.top : Nat) s).1
        = (t.nextLine.row - t.nextLine.top : Nat) := by
  have hy2 : s.wd.y2 = 24 := by rw [h.wd]; rfl
  have hbelow : ∀ r x, t.nextLine.row < r → t.nextLine.cell r x = space :=
    fun r x hr => h.below r x (Nat.lt_of_succ_lt hr)
  rw [ChinixConsole.nextRow]
  rw [hy2]
  by_cases hlast : ((t.row - t.top : Nat) : Int) = 24
  -- the cursor is in the last row: the screen scrolls, the window moves
  · have hrow : 24 ≤ t.row := by omega
    have htop : t.nextLine.top = t.top + 1 := by
      simp only [Terminal.top, Terminal.nextLine]
      omega
    rw [if_pos hlast]
    refine ⟨⟨(scroll_draws h.wd).wd.trans h.wd, ?_, ?_, hbelow⟩, ?_⟩
    · rw [(scroll_draws h.wd).cs]
      exact h.attr
    · intro x y hx hy
      rw [cells_scroll h.wd, anchorBuf_eq, htop]
      by_cases hbottom : y = 24
      · -- the row that was scrolled in is still blank on the terminal
        have hblank : t.cell (t.top + 1 + y) x = space := by
          refine h.below _ x ?_
          simp only [Terminal.top]
          omega
        rw [if_pos (by omega), h.attr]
        show CellShows _ (t.cell (t.top + 1 + y) x)
        rw [hblank]
        exact cellShows_scrolled
      · have hup := h.cell x (y + 1) hx (by omega)
        have hidx : (80 * (y : Int) + x) + 80 = anchorBuf x ((y + 1 : Nat) : Int) := by
          rw [anchorBuf_eq]
          omega
        have hrow' : t.top + 1 + y = t.top + (y + 1) := by omega
        rw [if_neg (by omega), if_pos (by omega), hidx, hrow']
        exact hup
    · show ((t.row - t.top : Nat) : Int) = _
      rw [htop]
      simp only [Terminal.nextLine]
      omega
  · -- the window has not reached row 25 yet
    have hrow : t.row < 24 := by
      simp only [Terminal.top] at hlast
      omega
    have htop : t.top = 0 := by
      simp only [Terminal.top]
      omega
    have htop' : t.nextLine.top = 0 := by
      simp only [Terminal.top, Terminal.nextLine]
      omega
    rw [if_neg hlast]
    refine ⟨⟨h.wd, h.attr, ?_, hbelow⟩, ?_⟩
    · intro x y hx hy
      have hcell := h.cell x y hx hy
      rw [htop] at hcell
      rw [htop']
      exact hcell
    · rw [htop, htop']
      simp only [Terminal.nextLine]
      omega

/-- The simulation relation. -/
structure Simulates (s : Console) (t : Terminal) : Prop where
  agrees : Agrees s t
  x : s.cs.x = t.col
  y : s.cs.y = (t.row - t.top : Nat)
  col_lt : t.col < 80

theorem Simulates.displays (h : Simulates s t) : Displays s t :=
  ⟨h.x, h.y, h.agrees.cell⟩

/-- Where `place` puts the cursor. -/
theorem Agrees.simulates (h : Agrees s t) (hcol : t.col < 80) :
    Simulates (ChinixConsole.place t.col (t.row - t.top : Nat) s) t := by
  refine ⟨h.place _ _, ?_, ?_, hcol⟩
  · exact toChar_of_range (by omega) (by omega)
  · refine toChar_of_range (by omega) ?_
    simp only [Terminal.top]
    omega

/-- To the first column of the next row. -/
theorem Agrees.simulates_nextRow (h : Agrees s t) :
    Simulates (ChinixConsole.place 0
      (ChinixConsole.nextRow (t.row - t.top : Nat) s).1
      (ChinixConsole.nextRow (t.row - t.top : Nat) s).2) t.nextLine := by
  obtain ⟨hagrees, hy⟩ := h.nextRow
  rw [hy]
  exact hagrees.simulates (Nat.succ_pos 79)

/-! ## Characters -/

variable {c : Byte}

theorem Simulates.carriageReturn (h : Simulates s t) :
    Simulates (consolePutc carriageReturn s) { t with col := 0 } := by
  rw [consolePutc_carriageReturn h.agrees.wd, h.y]
  exact (h.agrees.setCol 0).simulates (Nat.succ_pos 79)

/-- A newline in column 0. -/
theorem Simulates.newline (h : Simulates s t) (hcol : t.col = 0) :
    Simulates (consolePutc newline s) t.nextLine := by
  rw [consolePutc_newline, h.x, h.y, hcol]
  exact h.agrees.simulates_nextRow

/-- A character that is stored. -/
theorem Simulates.plain (h : Simulates s t) (htab : c ≠ tab)
    (hcr : c ≠ ChinixConsole.carriageReturn) (hnl : c ≠ ChinixConsole.newline)
    (hbs : c ≠ backspace) : Simulates (consolePutc c s) (t.feed c) := by
  have hstore := h.agrees.store h.col_lt c
  rw [← h.x, ← h.y] at hstore
  rw [consolePutc_plain h.agrees.wd htab hcr hnl hbs, Terminal.feed,
    if_neg hnl, if_neg hcr]
  dsimp only
  -- both wrap behind the last column, or neither does
  by_cases hwrap : t.col + 1 = 80
  · have hwrap' : 80 ≤ s.cs.x + 1 := by
      rw [h.x]
      omega
    rw [if_pos hwrap, if_pos hwrap', h.y]
    rw [h.y] at hstore
    exact hstore.simulates_nextRow
  · have hwrap' : ¬ 80 ≤ s.cs.x + 1 := by
      have := h.x
      have := h.col_lt
      omega
    rw [if_neg hwrap, if_neg hwrap']
    have hdone := (hstore.setCol (t.col + 1)).simulates (by
      have := h.col_lt
      show t.col + 1 < 80
      omega)
    have hx : s.cs.x + 1 = ((t.col + 1 : Nat) : Int) := by
      rw [h.x]
      rfl
    rw [hx, h.y]
    rw [h.y] at hdone
    exact hdone

/-- **One round of `console_put_str`.** -/
theorem Simulates.putStrChar (h : Simulates s t) (htab : c ≠ tab)
    (hbs : c ≠ backspace) : Simulates (putStrChar s c) (t.feed c) := by
  have hdone : Simulates (consolePutc c (if c = ChinixConsole.newline then
      consolePutc ChinixConsole.carriageReturn s else s)) (t.feed c) := by
    by_cases hnl : c = ChinixConsole.newline
    · subst hnl
      rw [if_pos rfl, Terminal.feed, if_pos rfl]
      -- `console_put_str` sends a carriage return first
      exact h.carriageReturn.newline rfl
    · rw [if_neg hnl]
      by_cases hcr : c = ChinixConsole.carriageReturn
      · subst hcr
        rw [Terminal.feed, if_neg hnl, if_pos rfl]
        exact h.carriageReturn
      · exact h.plain htab hcr hnl hbs
  exact ⟨⟨hdone.agrees.wd, hdone.agrees.attr, hdone.agrees.cell,
    hdone.agrees.below⟩, hdone.x, hdone.y, hdone.col_lt⟩

/-! ## Runs -/

/-- Neither tab nor backspace. -/
def Plain (c : Byte) : Prop := c ≠ tab ∧ c ≠ backspace

instance (c : Byte) : Decidable (Plain c) :=
  inferInstanceAs (Decidable (_ ∧ _))

theorem Simulates.putStr (h : Simulates s t) {str : List Byte}
    (hstr : ∀ c ∈ str, Plain c) :
    Simulates (consolePutStr str s).2 (str.foldl Terminal.feed t) := by
  induction str generalizing s t with
  | nil => exact h
  | cons c str ih =>
      obtain ⟨hc, hrest⟩ := List.forall_mem_cons.mp hstr
      exact ih (h.putStrChar hc.1 hc.2) hrest

theorem Simulates.putStrs (h : Simulates s t) {strs : List (List Byte)}
    (hstrs : ∀ str ∈ strs, ∀ c ∈ str, Plain c) :
    Simulates (strs.foldl (fun s str => (consolePutStr str s).2) s)
      (strs.flatten.foldl Terminal.feed t) := by
  induction strs generalizing s t with
  | nil => exact h
  | cons str strs ih =>
      obtain ⟨hstr, hrest⟩ := List.forall_mem_cons.mp hstrs
      rw [List.flatten_cons, List.foldl_append]
      exact ih (h.putStr hstr) hrest

/-- `console_init` blanks the screen. -/
theorem start_simulates (cells : Int → BitVec 16) :
    Simulates (start cells) Terminal.init := by
  obtain ⟨s', hdraws, heq⟩ := clearConsole_eq
    (s := ⟨screen, ⟨0, 0, 0x07⟩, cells, [], [], []⟩) rfl
  have hcells := cells_clearConsole
    (s := ⟨screen, ⟨0, 0, 0x07⟩, cells, [], [], []⟩) rfl
  have hstart : start cells
      = place 0 0 (clearConsole ⟨screen, ⟨0, 0, 0x07⟩, cells, [], [], []⟩) :=
    rfl
  rw [hstart]
  refine Agrees.simulates (t := Terminal.init) ⟨?_, ?_, ?_, fun _ _ _ => rfl⟩
    (Nat.succ_pos 79)
  · rw [heq]
    exact hdraws.wd
  · rw [heq]
    show s'.cs.defaultAttr = 0x07
    rw [hdraws.cs]
  · intro x y hx hy
    rw [hcells, if_pos (by rw [anchorBuf_eq]; omega)]
    exact cellShows_cellOf space

/-- **Every run** of `console_put_str` after `console_init`, without tabs and
    backspaces: the screen and the cursor are the last 25 rows and the cursor
    of the unbounded terminal fed the same characters. -/
theorem putStr_displays (cells : Int → BitVec 16) (strs : List (List Byte))
    (hstrs : ∀ str ∈ strs, ∀ c ∈ str, Plain c) :
    Displays (strs.foldl (fun s str => (consolePutStr str s).2) (start cells))
      (strs.flatten.foldl Terminal.feed Terminal.init) :=
  ((start_simulates cells).putStrs hstrs).displays

/-- 24 line breaks, and then a line of 81 letters. -/
def longLastLine : List (List Byte) :=
  [List.replicate 24 newline, List.replicate 81 0x41]

/-- The line wraps in the last row of the screen and scrolls it: its first 80
    letters are in the row above the cursor, which is behind the last one. -/
theorem putStr_displays_longLastLine :
    ∃ s t, s = longLastLine.foldl (fun s str => (consolePutStr str s).2)
        (start fun _ => 0) ∧
      t = longLastLine.flatten.foldl Terminal.feed Terminal.init ∧
      Displays s t ∧ s.cs.x = 1 ∧ s.cs.y = 24 ∧
      CellShows (s.cells (anchorBuf 79 23)) 0x41 ∧
      CellShows (s.cells (anchorBuf 0 24)) 0x41 ∧
      CellShows (s.cells (anchorBuf 1 24)) space := by
  refine ⟨_, _, rfl, rfl, ?_⟩
  have hshown := putStr_displays (fun _ => 0) longLastLine (by decide)
  generalize List.foldl _ (start _) longLastLine = s at hshown ⊢
  generalize ht : List.foldl _ Terminal.init _ = t at hshown
  have hend : t.col = 1 ∧ t.row = 25 ∧ t.cell 24 79 = 0x41 ∧
      t.cell 25 0 = 0x41 ∧ t.cell 25 1 = space := by
    subst ht
    decide +kernel
  obtain ⟨hcol, hrow, hlast, hfirst, hblank⟩ := hend
  have htop : t.top = 1 := by rw [Terminal.top, hrow]
  have hcell := hshown.cell
  have hy := hshown.y
  rw [htop] at hcell hy
  refine ⟨hshown, ?_, ?_, ?_, ?_, ?_⟩
  · rw [hshown.x, hcol]
    rfl
  · rw [hy, hrow]
    rfl
  · exact hlast ▸ hcell 79 23 (by decide) (by decide)
  · exact hfirst ▸ hcell 0 24 (by decide) (by decide)
  · exact hblank ▸ hcell 1 24 (by decide) (by decide)

end ChinixReferenceTerminal

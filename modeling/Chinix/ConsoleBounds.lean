import Chinix.Console

/-! # The cursor and the screen

    Each control character moves the cursor with its own test.  Two of them
    can leave the screen: a backspace in column 0, and a tab from one of the
    columns 65 to 71, which `console_putc` rounds up to 80 after its test. -/

namespace ChinixConsoleBounds

open CountingLoop ChinixConsole

variable {s : Console} {c : Byte}

/-! ## Runs -/

/-- A call of the console. -/
inductive Call where
  | putc (c : Byte)
  | putStr (str : List Byte)

/-- The effect of a call. -/
def Call.run : Call → Console → Console
  | .putc c, s => consolePutc c s
  | .putStr str, s => (consolePutStr str s).2

/-- The calls of `console_putc` that one round of `console_put_str` makes,
    each with the state it is made in. -/
def putsOfChar (c : Byte) (s : Console) : List (Byte × Console) :=
  if c = newline then
    [(carriageReturn, s), (c, consolePutc carriageReturn s)]
  else [(c, s)]

/-- Those of `console_put_str`. -/
def putsOfStr : List Byte → Console → List (Byte × Console)
  | [], _ => []
  | c :: str, s => putsOfChar c s ++ putsOfStr str (putStrChar s c)

/-- Those of a call. -/
def Call.puts : Call → Console → List (Byte × Console)
  | .putc c, s => [(c, s)]
  | .putStr str, s => putsOfStr str s

/-- Those of a run. -/
def puts : List Call → Console → List (Byte × Console)
  | [], _ => []
  | call :: calls, s => call.puts s ++ puts calls (call.run s)

/-- The state after `console_init`, whatever the video memory holds. -/
def start (cells : Int → BitVec 16) : Console :=
  consoleInit ⟨⟨0, 0, 0, 0⟩, ⟨0, 0, 0⟩, cells, [], [], []⟩

/-- The cursor is on the screen and so are all the cells read or written. -/
def Contained (s : Console) : Prop :=
  (0 ≤ s.cs.x ∧ s.cs.x ≤ 79) ∧ (0 ≤ s.cs.y ∧ s.cs.y ≤ 24) ∧ Inside s

/-- The character does not leave the screen to the left or to the right. -/
def Stays (c : Byte) (s : Console) : Prop :=
  ¬ (c = backspace ∧ s.cs.x = 0) ∧
    ¬ (c = tab ∧ 65 ≤ s.cs.x ∧ s.cs.x ≤ 71)

/-! ## The parts of `console_putc` -/

/-- Where `place` leaves the cursor. -/
theorem contained_place {x y : Int} (hin : Inside s)
    (hx : -128 ≤ x) (hx' : x < 128) (hy : 0 ≤ y) (hy' : y ≤ 24) :
    Contained (place x y s) ↔ 0 ≤ x ∧ x ≤ 79 := by
  have hcx : (place x y s).cs.x = x := toChar_of_range hx hx'
  have hcy : (place x y s).cs.y = y :=
    toChar_of_range (by omega) (by omega)
  rw [Contained, hcx, hcy]
  exact ⟨fun h => h.1, fun h => ⟨h, ⟨hy, hy'⟩, hin⟩⟩

/-- `nextRow` stays on the screen. -/
theorem nextRow_spec (h : s.wd = screen) {y : Int} (hy : 0 ≤ y)
    (hy' : y ≤ 24) :
    0 ≤ (nextRow y s).1 ∧ (nextRow y s).1 ≤ 24 ∧ Draws s (nextRow y s).2 := by
  have hlast : s.wd.y2 = 24 := by rw [h]; rfl
  rw [nextRow]
  rw [hlast]
  by_cases hrow : y = 24
  · rw [if_pos hrow]
    exact ⟨hy, hy', scroll_draws h⟩
  · rw [if_neg hrow]
    exact ⟨by omega, by omega, Draws.refl s⟩

/-- To the first column of the next row. -/
theorem contained_nextRow (h : s.wd = screen) (hin : Inside s) {y : Int}
    (hy : 0 ≤ y) (hy' : y ≤ 24) {x : Int} (hx : 0 ≤ x) (hx' : x ≤ 79) :
    Contained (place x (nextRow y s).1 (nextRow y s).2) := by
  obtain ⟨hr, hr', hdraws⟩ := nextRow_spec h hy hy'
  exact (contained_place (hdraws.inside hin) (by omega) (by omega) hr hr').mpr
    ⟨hx, hx'⟩

/-! ## One character -/

theorem contained_tab_iff (h : s.wd = screen) (hc : Contained s) :
    Contained (consolePutc tab s) ↔ ¬ (65 ≤ s.cs.x ∧ s.cs.x ≤ 71) := by
  obtain ⟨⟨hx, hx'⟩, ⟨hy, hy'⟩, hin⟩ := hc
  rw [consolePutc_tab h]
  -- the test is made before the column is rounded up
  by_cases hwrap : 80 ≤ s.cs.x + 8
  · rw [if_pos hwrap]
    exact iff_of_true
      (contained_nextRow h hin hy hy' (by decide) (by decide)) (by omega)
  · have hround : roundUp8 (s.cs.x + 8) = (s.cs.x + 8 + 7) / 8 * 8 :=
      roundUp8_of_range (by omega) (by omega)
    rw [if_neg hwrap, hround,
      contained_place hin (by omega) (by omega) hy hy']
    omega

theorem contained_backspace_iff (hc : Contained s) :
    Contained (consolePutc backspace s) ↔ s.cs.x ≠ 0 := by
  obtain ⟨⟨hx, hx'⟩, ⟨hy, hy'⟩, hin⟩ := hc
  rw [consolePutc_backspace]
  by_cases hx0 : s.cs.x = 0
  · -- the cursor goes to column -1
    refine iff_of_false ?_ (fun hne => hne hx0)
    rintro ⟨⟨hcol, -⟩, -⟩
    have hplace : toChar (s.cs.x - 1) = s.cs.x - 1 :=
      toChar_of_range (by omega) (by omega)
    have hcol' : 0 ≤ toChar (s.cs.x - 1) := hcol
    rw [hplace] at hcol'
    omega
  · have hdraws : Draws s (consoleDisplayChar (s.cs.x - 1) s.cs.y
        s.cs.defaultAttr space s) :=
      setPosValue_draws (onScreen_anchorBuf (by omega) (by omega) hy hy') _ s
    rw [contained_place (hdraws.inside hin) (by omega) (by omega) hy hy']
    omega

theorem contained_plain (h : s.wd = screen) (hc : Contained s)
    (htab : c ≠ tab) (hbs : c ≠ backspace) : Contained (consolePutc c s) := by
  obtain ⟨⟨hx, hx'⟩, ⟨hy, hy'⟩, hin⟩ := hc
  -- a newline keeps the column, the other characters go on to the next one
  by_cases hcr : c = carriageReturn
  · rw [hcr, consolePutc_carriageReturn h,
      contained_place hin (by omega) (by omega) hy hy']
    decide
  by_cases hnl : c = newline
  · rw [hnl, consolePutc_newline]
    exact contained_nextRow h hin hy hy' hx hx'
  have hdraws : Draws s
      (consoleDisplayChar s.cs.x s.cs.y s.cs.defaultAttr c s) :=
    setPosValue_draws (onScreen_anchorBuf hx hx' hy hy') _ s
  rw [consolePutc_plain h htab hcr hnl hbs]
  dsimp only
  by_cases hwrap : 80 ≤ s.cs.x + 1
  · rw [if_pos hwrap]
    exact contained_nextRow (hdraws.wd.trans h) (hdraws.inside hin) hy hy'
      (by decide) (by decide)
  · rw [if_neg hwrap, contained_place (hdraws.inside hin) (by omega)
      (by omega) hy hy']
    omega

/-- **One character**: from a state on the screen `console_putc` stays on it
    exactly for the characters of `Stays`. -/
theorem contained_consolePutc_iff (h : s.wd = screen) (hc : Contained s) :
    Contained (consolePutc c s) ↔ Stays c s := by
  by_cases htab : c = tab
  · subst htab
    have hno : ¬ tab = backspace := by decide
    simp [contained_tab_iff h hc, Stays, hno]
  by_cases hbs : c = backspace
  · subst hbs
    simp [contained_backspace_iff hc, Stays, htab]
  · simp [contained_plain h hc htab hbs, Stays, htab, hbs]

/-- The window stays the whole screen. -/
theorem wd_nextRow (h : s.wd = screen) (y : Int) :
    (nextRow y s).2.wd = screen := by
  rw [nextRow]
  split_ifs
  · exact (scroll_draws h).wd.trans h
  · exact h

theorem wd_consolePutc (h : s.wd = screen) (c : Byte) :
    (consolePutc c s).wd = screen := by
  rw [consolePutc]
  dsimp only
  split_ifs
  · exact wd_nextRow h _
  · exact h
  · exact h
  · exact wd_nextRow h _
  · exact h
  · exact wd_nextRow (s := consoleDisplayChar _ _ _ c s) h _
  · exact h

/-! ## Every run -/

/-- What a state on the screen has. -/
structure Ready (s : Console) : Prop where
  wd : s.wd = screen
  contained : Contained s

theorem Ready.uartPutc (h : Ready s) (c : Byte) : Ready (uartPutc c s) :=
  ⟨h.wd, h.contained⟩

theorem Ready.consolePutc (h : Ready s) (hc : Stays c s) :
    Ready (consolePutc c s) :=
  ⟨wd_consolePutc h.wd c, (contained_consolePutc_iff h.wd h.contained).mpr hc⟩

/-- The carriage return that `console_put_str` puts before a newline. -/
theorem stays_carriageReturn (s : Console) : Stays carriageReturn s :=
  ⟨fun h => absurd h.1 (by decide), fun h => absurd h.1 (by decide)⟩

/-- All the calls of `console_putc` stay on the screen. -/
def AllContained (ps : List (Byte × Console)) : Prop :=
  ∀ p ∈ ps, Contained (consolePutc p.1 p.2)

/-- All of them are in the condition. -/
def AllStay (ps : List (Byte × Console)) : Prop := ∀ p ∈ ps, Stays p.1 p.2

@[simp] theorem allContained_nil : AllContained [] := by rintro _ ⟨⟩

@[simp] theorem allStay_nil : AllStay [] := by rintro _ ⟨⟩

theorem allContained_cons {p : Byte × Console}
    {ps : List (Byte × Console)} :
    AllContained (p :: ps) ↔
      Contained (consolePutc p.1 p.2) ∧ AllContained ps :=
  List.forall_mem_cons

theorem allStay_cons {p : Byte × Console} {ps : List (Byte × Console)} :
    AllStay (p :: ps) ↔ Stays p.1 p.2 ∧ AllStay ps :=
  List.forall_mem_cons

theorem allContained_append {ps qs : List (Byte × Console)} :
    AllContained (ps ++ qs) ↔ AllContained ps ∧ AllContained qs :=
  List.forall_mem_append

theorem allStay_append {ps qs : List (Byte × Console)} :
    AllStay (ps ++ qs) ↔ AllStay ps ∧ AllStay qs :=
  List.forall_mem_append

/-- One round of `console_put_str`. -/
theorem putsOfChar_iff (h : Ready s) :
    (AllContained (putsOfChar c s) ↔ AllStay (putsOfChar c s)) ∧
      (AllStay (putsOfChar c s) → Ready (putStrChar s c)) := by
  rw [putsOfChar, putStrChar]
  by_cases hnl : c = newline
  · have h1 : Ready (ChinixConsole.consolePutc carriageReturn s) :=
      h.consolePutc (stays_carriageReturn s)
    simp only [if_pos hnl, allContained_cons, allStay_cons, allContained_nil,
      allStay_nil, contained_consolePutc_iff h.wd h.contained,
      contained_consolePutc_iff h1.wd h1.contained, true_and]
    exact fun hs => (h1.consolePutc hs.2.1).uartPutc c
  · simp only [if_neg hnl, allContained_cons, allStay_cons, allContained_nil,
      allStay_nil, contained_consolePutc_iff h.wd h.contained, true_and]
    exact fun hs => (h.consolePutc hs.1).uartPutc c

theorem putsOfStr_iff (str : List Byte) (h : Ready s) :
    (AllContained (putsOfStr str s) ↔ AllStay (putsOfStr str s)) ∧
      (AllStay (putsOfStr str s) → Ready (consolePutStr str s).2) := by
  induction str generalizing s with
  | nil => exact ⟨by simp [putsOfStr], fun _ => h⟩
  -- up to the first character that leaves the screen the states are `Ready`
  | cons c str ih =>
      obtain ⟨hone, hnext⟩ := putsOfChar_iff (c := c) h
      rw [putsOfStr, allContained_append, allStay_append, hone]
      constructor
      · exact and_congr_right fun hs => (ih (hnext hs)).1
      · exact fun hs => (ih (hnext hs.1)).2 hs.2

theorem call_iff (call : Call) (h : Ready s) :
    (AllContained (call.puts s) ↔ AllStay (call.puts s)) ∧
      (AllStay (call.puts s) → Ready (call.run s)) := by
  cases call with
  | putc c =>
      simp only [Call.puts, allContained_cons, allStay_cons,
        allContained_nil, allStay_nil,
        contained_consolePutc_iff h.wd h.contained, true_and]
      exact fun hs => h.consolePutc hs.1
  | putStr str => exact putsOfStr_iff str h

theorem puts_iff (calls : List Call) (h : Ready s) :
    AllContained (puts calls s) ↔ AllStay (puts calls s) := by
  induction calls generalizing s with
  | nil => simp [puts]
  | cons call calls ih =>
      obtain ⟨hone, hnext⟩ := call_iff call h
      rw [puts, allContained_append, allStay_append, hone]
      exact and_congr_right fun hs => ih (hnext hs)

theorem start_ready (cells : Int → BitVec 16) : Ready (start cells) := by
  obtain ⟨s', hdraws, heq⟩ := clearConsole_eq
    (s := ⟨screen, ⟨0, 0, 0x07⟩, cells, [], [], []⟩) rfl
  have hstart : start cells
      = place 0 0 { s' with cs := { s'.cs with x := 0, y := 0 } } := by
    rw [← heq]
    rfl
  have hin : Inside s' := hdraws.inside (by rintro _ ⟨⟩)
  rw [hstart]
  exact ⟨hdraws.wd, (contained_place hin (by decide) (by decide) (by decide)
    (by decide)).mpr (by decide)⟩

/-- **Every run after `console_init`** keeps the cursor and all the cells on
    the screen exactly when no call of `console_putc` gets a backspace in
    column 0 or a tab in one of the columns 65 to 71. -/
theorem contained_iff_stays (cells : Int → BitVec 16) (calls : List Call) :
    Contained (start cells) ∧
      (AllContained (puts calls (start cells)) ↔
        AllStay (puts calls (start cells))) :=
  ⟨(start_ready cells).contained, puts_iff calls (start_ready cells)⟩

/-- A backspace right after `console_init` leaves the screen. -/
theorem backspace_leaves_screen :
    ¬ ∀ cells calls, Contained (start cells) ∧
      AllContained (puts calls (start cells)) := by
  intro hall
  have hready := start_ready fun _ => 0
  have hstay := (puts_iff [.putc backspace] hready).mp (hall _ _).2
  refine (hstay (backspace, start fun _ => 0) ?_).1 ⟨rfl, rfl⟩
  exact List.mem_singleton.mpr rfl

end ChinixConsoleBounds

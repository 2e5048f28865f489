import Chinix.PrintfComposition
import Chinix.ReferenceTerminal

/-! # Printing on the console (libc/stdio.c)

    `_vfprintf` gives `_printf_driver` the sink `console_put_str`.  What that
    returns does not depend on the console, so that the driver runs against
    its return values and the console takes the calls in their order. -/

namespace ChinixPrintfConsole

open Outcome ChinixPrintf ChinixPrintfFields ChinixPrintfComposition
open ChinixConsole hiding Byte
open ChinixConsoleBounds ChinixReferenceTerminal

/-- What `console_put_str` returns. -/
def consoleSink : Sink := fun _ str => (BitVec.ofNat 32 str.length).toInt

theorem consoleSink_eq (calls : List (List Byte)) (str : List Byte)
    (s : Console) : consoleSink calls str = (consolePutStr str s).1 := rfl

/-- `_vfprintf`, which `_printf` calls, with `fmt` the memory at the format. -/
def vfprintf (fmt : List Byte) (args : List Arg) (s : Console) :
    Except Fault (Int × Console) := do
  let (err, st) ← printfDriver consoleSink fmt args
  return (err, st.calls.foldl (fun s str => (consolePutStr str s).2) s)

/-- A call of `_printf`: the format in front of its NUL, what is behind the
    NUL in memory, and the arguments. -/
structure Print where
  format : List Byte
  behind : List Byte
  args : List Arg

/-- Calls of `_printf`, with what each returns. -/
def printAll : List Print → Console → Except Fault (List Int × Console)
  | [], s => .ok ([], s)
  | p :: ps, s => do
      let (err, s) ← vfprintf (p.format ++ 0 :: p.behind) p.args s
      let (errs, s) ← printAll ps s
      return (err :: errs, s)

/-- What a call is to print. -/
def Print.text (p : Print) : List Byte := render p.format p.args

/-- The format is a string, the arguments are those that it asks for, and the
    text is of less than 2 GB and without tabs and backspaces. -/
structure Print.Fine (p : Print) : Prop where
  nul : 0 ∉ p.format
  args : Matches p.format p.args
  fitting : Fitting p.text
  plain : ∀ c ∈ p.text, Plain c

theorem consoleSink_returnsLength : ReturnsLength consoleSink := by
  intro calls str hlen
  rw [consoleSink, BitVec.toInt_eq_toNat_of_lt]
  · rw [BitVec.toNat_ofNat, Nat.mod_eq_of_lt (by omega)]
  · rw [BitVec.toNat_ofNat, Nat.mod_eq_of_lt (by omega)]
    omega

/-! ## The serial line -/

variable {s : Console}

theorem uart_nextRow (h : s.wd = screen) (y : Int) :
    (nextRow y s).2.uart = s.uart := by
  rw [nextRow]
  split_ifs
  · exact (scroll_draws h).uart
  · rfl

theorem uart_consolePutc (h : s.wd = screen) (c : Byte) :
    (consolePutc c s).uart = s.uart := by
  rw [consolePutc]
  dsimp only
  split_ifs
  · exact uart_nextRow h _
  · rfl
  · rfl
  · exact uart_nextRow h _
  · rfl
  · exact uart_nextRow (s := consoleDisplayChar _ _ _ c s) h _
  · rfl

/-- One character goes to the serial line, a newline too. -/
theorem uart_putStrChar (h : s.wd = screen) (c : Byte) :
    (putStrChar s c).uart = s.uart ++ [c] := by
  have hfirst : (if c = newline then consolePutc carriageReturn s else s).wd
      = screen := by
    split_ifs
    · exact wd_consolePutc h _
    · exact h
  have huart : (if c = newline then consolePutc carriageReturn s else s).uart
      = s.uart := by
    split_ifs
    · exact uart_consolePutc h _
    · rfl
  show (consolePutc c _).uart ++ [c] = _
  rw [uart_consolePutc hfirst, huart]

theorem wd_putStrChar (h : s.wd = screen) (c : Byte) :
    (putStrChar s c).wd = screen := by
  show (consolePutc c _).wd = screen
  refine wd_consolePutc ?_ c
  split_ifs
  · exact wd_consolePutc h _
  · exact h

theorem uart_putStr (h : s.wd = screen) (str : List Byte) :
    (consolePutStr str s).2.uart = s.uart ++ str ∧
      (consolePutStr str s).2.wd = screen := by
  induction str generalizing s with
  | nil => exact ⟨(List.append_nil _).symm, h⟩
  | cons c str ih =>
      obtain ⟨huart, hwd⟩ := ih (wd_putStrChar h c)
      refine ⟨?_, hwd⟩
      rw [uart_putStrChar h, List.append_assoc] at huart
      exact huart

theorem uart_putStrs (h : s.wd = screen) (strs : List (List Byte)) :
    (strs.foldl (fun s str => (consolePutStr str s).2) s).uart
      = s.uart ++ strs.flatten := by
  induction strs generalizing s with
  | nil => exact (List.append_nil _).symm
  | cons str strs ih =>
      obtain ⟨huart, hwd⟩ := uart_putStr h str
      rw [List.foldl_cons, ih hwd, huart, List.flatten_cons,
        List.append_assoc]

/-- `console_init` sends nothing. -/
theorem start_uart (cells : Int → BitVec 16) : (start cells).uart = [] := by
  obtain ⟨s', hdraws, heq⟩ := clearConsole_eq
    (s := ⟨screen, ⟨0, 0, 0x07⟩, cells, [], [], []⟩) rfl
  have hclear : (clearConsole ⟨screen, ⟨0, 0, 0x07⟩, cells, [], [], []⟩).uart
      = [] := by
    rw [heq]
    exact hdraws.uart
  have hplace : ∀ s : Console, (place 0 0 s).uart = s.uart := fun _ => rfl
  have hstart : start cells
      = place 0 0 (clearConsole ⟨screen, ⟨0, 0, 0x07⟩, cells, [], [], []⟩) :=
    rfl
  rw [hstart, hplace, hclear]

/-! ## The screen -/

/-- What one call of `_printf` does, on a screen that shows `t`. -/
structure Shows (s : Console) (t : Terminal) (text : List Byte)
    (s' : Console) : Prop where
  simulates : Simulates s' (text.foldl Terminal.feed t)
  uart : s'.uart = s.uart ++ text

/-- The calls of the sink split the text; the screen does not see where. -/
theorem vfprintf_shows {t : Terminal} (h : Simulates s t) {p : Print}
    (hp : p.Fine) :
    ∃ s', vfprintf (p.format ++ 0 :: p.behind) p.args s
        = .ok (p.text.length, s') ∧ Shows s t p.text s' := by
  obtain ⟨st, hst, hcalls⟩ := printfDriver_prints consoleSink_returnsLength
    hp.nul hp.args hp.fitting p.behind
  have hplain : ∀ str ∈ st.calls, ∀ c ∈ str, Plain c := by
    intro str hstr c hc
    refine hp.plain c ?_
    rw [Print.text, ← hcalls]
    exact List.mem_flatten.mpr ⟨str, hstr, hc⟩
  refine ⟨st.calls.foldl (fun s str => (consolePutStr str s).2) s, ?_, ?_, ?_⟩
  · rw [vfprintf, hst]
    rfl
  · rw [Print.text, ← hcalls]
    exact h.putStrs hplain
  · rw [Print.text, ← hcalls]
    exact uart_putStrs h.agrees.wd st.calls

/-- **Printing**: whatever is printed by calls of `_printf` after
    `console_init`, every call returns the length of its text, the screen and
    the cursor are those of the unbounded terminal that is fed the texts, and
    the serial line has carried the same bytes in the same order. -/
theorem printAll_shows (cells : Int → BitVec 16) (ps : List Print)
    (h : ∀ p ∈ ps, p.Fine) :
    ∃ s', printAll ps (start cells)
        = .ok (ps.map fun p => (p.text.length : Int), s') ∧
      Displays s' ((ps.map Print.text).flatten.foldl Terminal.feed
        Terminal.init) ∧
      s'.uart = (ps.map Print.text).flatten := by
  have hall : ∀ (s : Console) (t : Terminal), Simulates s t →
      ∃ s', printAll ps s = .ok (ps.map fun p => (p.text.length : Int), s') ∧
        Shows s t (ps.map Print.text).flatten s' := by
    induction ps with
    | nil => exact fun s t hs => ⟨s, rfl, hs, (List.append_nil _).symm⟩
    | cons p ps ih =>
        intro s t hs
        obtain ⟨hp, hps⟩ := List.forall_mem_cons.mp h
        obtain ⟨s1, hone, hshows⟩ := vfprintf_shows hs hp
        obtain ⟨s2, hrest, hshows'⟩ := ih hps s1 _ hshows.simulates
        refine ⟨s2, ?_, ?_, ?_⟩
        · rw [printAll, hone]
          show (do let (errs, s) ← printAll ps s1; _) = _
          rw [hrest]
          rfl
        · rw [List.map_cons, List.flatten_cons, List.foldl_append]
          exact hshows'.simulates
        · rw [hshows'.uart, hshows.uart, List.map_cons, List.flatten_cons,
            List.append_assoc]
  obtain ⟨s', hrun, hshows⟩ := hall _ _ (start_simulates cells)
  refine ⟨s', hrun, hshows.simulates.displays, ?_⟩
  rw [hshows.uart, start_uart]
  rfl

/-- `printf("x=%3d", 7)` and `printf("%s", "ok\n")`. -/
def twoPrints : List Print :=
  [⟨bytes "x=%3d", [], [.slot 7]⟩,
   ⟨bytes "%s", [], [.string (bytes "ok\n")]⟩]

theorem twoPrints_text : twoPrints.map Print.text
    = [bytes "x=  7", bytes "ok\n"] := by decide +kernel

/-- The theorem for these two calls. -/
theorem printAll_shows_twoPrints :
    ∃ s', printAll twoPrints (start fun _ => 0) = .ok ([5, 3], s') ∧
      Displays s' ((bytes "x=  7ok\n").foldl Terminal.feed Terminal.init) ∧
      s'.uart = bytes "x=  7ok\n" := by
  have hlen : ∀ text : List Byte, text.length < 2 ^ 31 → Fitting text :=
    fun _ h => h
  have hfine : ∀ p ∈ twoPrints, p.Fine := by
    intro p hp
    rcases List.mem_cons.mp hp with rfl | hp
    · exact ⟨by decide, .cons trivial .nil, hlen _ (by decide +kernel),
        by decide +kernel⟩
    · rw [List.mem_singleton.mp hp]
      exact ⟨by decide, .cons trivial .nil, hlen _ (by decide +kernel),
        by decide +kernel⟩
  obtain ⟨s', hrun, hdisplays, huart⟩ :=
    printAll_shows (fun _ => 0) twoPrints hfine
  rw [twoPrints_text] at hdisplays huart
  have hlengths : twoPrints.map (fun p => (p.text.length : Int)) = [5, 3] := by
    decide +kernel
  rw [hlengths] at hrun
  exact ⟨s', hrun, hdisplays, huart⟩

end ChinixPrintfConsole

import Chinix.KconfigExpr
import Chinix.DelimitedText
import Chinix.TreeWalk

/-! # Configuration files (kconfig/confdata.c)

    `conf_write` goes over the menus and writes the symbols; `conf_read_simple`
    reads such a file into the user values of the symbols.  A file is its
    characters, and a line of it holds no NUL before its end unless the file
    does.  What `sym_calc_value` calculates is given: the values, and the flag
    `SYMBOL_WRITE`. -/

namespace ChinixKconfigFile

open ChinixKconfigExpr DelimitedText TreeWalk

/-- What confdata.c reads of the symbols besides: the symbols of the hash
    table in the order in which `sym_find` comes to them, whether `sym->name`
    is not NULL, which of them are choices, and the choice that a symbol with
    the flag `SYMBOL_CHOICEVAL` is a value of.  A choice may have a name or
    not.  Only values read from auto.conf make a symbol an `S_OTHER`. -/
structure ConfSymbols (S : Type) extends SymbolTable S where
  symbols : List S
  named : S → Bool
  isChoice : S → Bool
  choice : S → Option S
  notOther : ∀ s, type s ≠ .other
  choiceIsChoice : ∀ s cs, choice s = some cs →
    isChoice cs = true ∧ cs ∈ symbols

variable {S : Type} [DecidableEq S] (tab : ConfSymbols S)

/-- `sym->name`. -/
def nameOf (s : S) : List Char := (tab.name s).toList

/-- The two types whose values are tristates. -/
def hasTristate (s : S) : Bool :=
  tab.type s = .boolean ∨ tab.type s = .tristate

omit [DecidableEq S] in
theorem hasTristate_iff {tab : ConfSymbols S} {s : S} :
    hasTristate tab s ↔ tab.type s = .boolean ∨ tab.type s = .tristate := by
  simp [hasTristate]

/-- `sym_find`. -/
def symFind (name : List Char) : Option S :=
  if name = ['y'] then some tab.symbolYes
  else if name = ['m'] then some tab.symbolMod
  else if name = ['n'] then some tab.symbolNo
  else tab.symbols.find? fun s =>
    tab.named s && nameOf tab s = name && !tab.isConst s

/-! ## Writing -/

/-- `sym_escape_string_value`. -/
def symEscapeStringValue (value : List Char) : List Char :=
  '"' :: escape '"' '\\' value ++ ['"']

/-- The line that `kconfig_print_symbol` writes, without its newline, and
    none if it skips the symbol; `config` is `CONFIG_`, which the environment
    can set. -/
def kconfigPrintSymbol (config : List Char) (skipUnset : Bool) (s : S)
    (value : List Char) : List (List Char) :=
  if hasTristate tab s ∧ value.head? = some 'n' then
    if skipUnset then []
    else ["# ".toList ++ config ++ nameOf tab s ++ " is not set".toList]
  else [config ++ nameOf tab s ++ '=' :: value]

/-- The lines of `kconfig_print_comment`. -/
def kconfigPrintComment (value : List Char) : List (List Char) :=
  (value.splitOn '\n').map fun l => '#' :: if l = [] then [] else ' ' :: l

/-- `conf_write_symbol`. -/
def confWriteSymbol (config : List Char) (v : Values S) (s : S) :
    List (List Char) :=
  let str := (symGetStringValue tab.toSymbolTable v s).toList
  match tab.type s with
  | .other | .unknown => []
  | .string =>
      kconfigPrintSymbol tab config false s (symEscapeStringValue str)
  | _ => kconfigPrintSymbol tab config false s str

/-- The size of `buf` in `conf_write_heading`, less the terminator. -/
def headingRoom : Nat := 255

/-- What every file begins with. -/
def generated : List Char :=
  "Automatically generated file; DO NOT EDIT.".toList

/-- `conf_write_heading`, with the prompt of the root menu. -/
def confWriteHeading (rootPrompt : List Char) : List (List Char) :=
  kconfigPrintComment
    (('\n' :: generated ++ '\n' :: rootPrompt ++ ['\n']).take headingRoom)

/-- A prompt of a menu entry: its text, and when it is visible. -/
structure Prompt (S : Type) where
  text : List Char
  visible : Option (Expr S)

/-- `struct menu`, without its links. -/
structure MenuEntry (S : Type) where
  sym : Option S
  prompt : Option (Prompt S)
  visibility : Option (Expr S)

/-- `expr_calc_value`, which takes NULL for `y`. -/
def calcValue (v : Values S) : Option (Expr S) → Tristate
  | none => .yes
  | some e => exprCalcValue tab.toSymbolTable v e

/-- `menu_is_visible` of an entry without a symbol. -/
def menuIsVisible (v : Values S) (menu : MenuEntry S) : Bool :=
  match menu.prompt with
  | none => false
  | some prompt =>
      calcValue tab v menu.visibility ≠ .no ∧ calcValue tab v prompt.visible ≠ .no

/-- `menu_get_prompt` of such an entry. -/
def menuGetPrompt (menu : MenuEntry S) : List Char :=
  menu.prompt.elim [] Prompt.text

/-- What `conf_write` has written, and `SYMBOL_WRITE` of the symbols. -/
structure Writing (S : Type) where
  lines : List (List Char)
  write : S → Bool

/-- The body of the loop of `conf_write`. -/
def confWriteEntry (config : List Char) (v : Values S) (menu : MenuEntry S)
    (w : Writing S) : Writing S :=
  match menu.sym with
  | none =>
      if menuIsVisible tab v menu then
        { w with lines := w.lines ++
            [[], ['#'], "# ".toList ++ menuGetPrompt menu, ['#']] }
      else w
  | some s =>
      if tab.isChoice s then w
      else if w.write s then
        { lines := w.lines ++ confWriteSymbol tab config v s
          write := Function.update w.write s false }
      else w

/-- `conf_write`: the characters of the file.  The first argument bounds the
    rounds of its loop over the menus. -/
def confWrite (fuel : Nat) (config rootPrompt : List Char) (v : Values S)
    (menus : Siblings (MenuEntry S)) (write : S → Bool) :
    Option (List Char) :=
  (walk (confWriteEntry tab config v) fuel menus []
    { lines := confWriteHeading rootPrompt, write := write }).map fun w =>
      unlines '\n' w.lines

/-! ## Reading -/

/-- `sym->def[S_DEF_USER]` and the flag `SYMBOL_DEF_USER`.  The pointer `val`
    leads to a string or, of a choice, to a symbol, so that setting the one
    drops the other. -/
structure UserValue (S : Type) where
  given : Bool
  tri : Tristate
  val : Option String
  chosen : Option S
  deriving DecidableEq

/-- The warnings of `conf_read_simple`. -/
inductive Warning (S : Type) where
  | reassigning (sym : S)
  | invalidValue (value : List Char) (sym : S)
  | invalidString
  | unexpectedData
  | inconsistentChoice (sym : S)
  | changesChoice (sym : S)
  deriving DecidableEq

/-- What reading works on: the user values, `conf_lineno`, the warnings with
    the lines that they are about, and how often a symbol was not found, which
    `sym_add_change_count` counts. -/
structure Reading (S : Type) where
  values : S → UserValue S
  lineno : Nat
  warnings : List (Nat × Warning S)
  notFound : Nat

/-- `conf_warning`. -/
def Reading.warn (r : Reading S) (w : Warning S) : Reading S :=
  { r with warnings := r.warnings ++ [(r.lineno, w)] }

/-- An assignment to `sym->def[S_DEF_USER]` or the flag. -/
def Reading.modify (r : Reading S) (s : S)
    (f : UserValue S → UserValue S) : Reading S :=
  { r with values := Function.update r.values s (f (r.values s)) }

theorem modify_modify (r : Reading S) (s : S)
    (f g : UserValue S → UserValue S) :
    (r.modify s f).modify s g = r.modify s (g ∘ f) := by
  simp [Reading.modify]

/-- A C string: the characters up to the NUL. -/
def cstr (l : List Char) : List Char := l.takeWhile (· ≠ '\x00')

/-- `isxdigit`. -/
def isXDigit (c : Char) : Bool :=
  c.isDigit || ('a' ≤ c && c ≤ 'f') || ('A' ≤ c && c ≤ 'F')

/-- The case `S_INT` of `sym_string_valid`. -/
def intValid (str : List Char) : Bool :=
  match if str.head? = some '-' then str.tail else str with
  | [] => false
  | ch :: str => ch.isDigit && (ch ≠ '0' || str = []) && str.all Char.isDigit

/-- The case `S_HEX`. -/
def hexValid (str : List Char) : Bool :=
  let str := if str.take 2 = ['0', 'x'] ∨ str.take 2 = ['0', 'X'] then
    str.drop 2 else str
  str ≠ [] && str.all isXDigit

/-- `sym_string_valid`. -/
def symStringValid (s : S) (str : List Char) : Bool :=
  match tab.type s with
  | .string => true
  | .int => intValid str
  | .hex => hexValid str
  | .boolean | .tristate =>
      str.head? = some 'y' || str.head? = some 'Y' || str.head? = some 'm' ||
        str.head? = some 'M' || str.head? = some 'n' || str.head? = some 'N'
  | .unknown | .other => false

/-- `sym->def[def].tri = tri`, and the flag. -/
def UserValue.setTri (tri : Tristate) (u : UserValue S) : UserValue S :=
  { u with given := true, tri := tri }

/-- `sym->def[def].val = strdup(p)`, and the flag. -/
def UserValue.setVal (p : List Char) (u : UserValue S) : UserValue S :=
  { u with given := true, val := some (String.ofList p), chosen := none }

/-- `cs->def[def].val = sym`. -/
def UserValue.choose (s : S) (u : UserValue S) : UserValue S :=
  { u with val := none, chosen := some s }

/-- The end of `conf_set_sym_val`, from `sym_string_valid` on. -/
def setStringVal (s : S) (p : List Char) (r : Reading S) :
    Bool × Reading S :=
  if symStringValid tab s p then (false, r.modify s (UserValue.setVal p))
  else (true, r.warn (.invalidValue p s))

/-- `conf_set_sym_val`: `true` is a failure.  A string that does not begin
    with a quote is passed over in silence. -/
def confSetSymVal (s : S) (p : List Char) (r : Reading S) :
    Bool × Reading S :=
  match tab.type s with
  | .boolean | .tristate =>
      if tab.type s = .tristate ∧ p.head? = some 'm' then
        (false, r.modify s (UserValue.setTri .mod))
      else if p.head? = some 'y' then
        (false, r.modify s (UserValue.setTri .yes))
      else if p.head? = some 'n' then
        (false, r.modify s (UserValue.setTri .no))
      else (true, r.warn (.invalidValue p s))
  | .string =>
      if p.head? = some '"' then
        match readQuoted '"' '\\' false p.tail with
        | none => (true, r.warn .invalidString)
        | some str => setStringVal tab s str r
      else (false, r)
  | .int | .hex => setStringVal tab s p r
  | .unknown | .other => (false, r)

theorem confSetSymVal_of_hasTristate {tab : ConfSymbols S} {s : S}
    (hs : hasTristate tab s) (p : List Char) (r : Reading S) :
    confSetSymVal tab s p r =
      if tab.type s = .tristate ∧ p.head? = some 'm' then
        (false, r.modify s (UserValue.setTri .mod))
      else if p.head? = some 'y' then
        (false, r.modify s (UserValue.setTri .yes))
      else if p.head? = some 'n' then
        (false, r.modify s (UserValue.setTri .no))
      else (true, r.warn (.invalidValue p s)) := by
  rcases hasTristate_iff.mp hs with ht | ht <;> simp only [confSetSymVal, ht]

/-- The code at `setsym`: the choice of a symbol that is a choice value. -/
def setChoice (s : S) (r : Reading S) : Reading S :=
  match tab.choice s with
  | none => r
  | some cs =>
      let tri := (r.values s).tri
      let r' :=
        match tri with
        | .no => r
        | .mod =>
            if (r.values cs).tri = Tristate.yes then
              (r.warn (.inconsistentChoice s)).modify cs fun u =>
                { u with given := false }
            else r
        | .yes =>
            (if (r.values cs).tri ≠ Tristate.no then r.warn (.changesChoice s)
              else r).modify cs (UserValue.choose s)
      r'.modify cs fun u => { u with tri := u.tri.or tri }

/-- The test for a symbol that has been given a value already. -/
def warnReassigned (s : S) (r : Reading S) : Reading S :=
  if (r.values s).given then r.warn (.reassigning s) else r

/-- A line that begins with `#`.  Of a last line that is a single `#` without
    a newline the code compares what was in its buffer before; here there is
    nothing behind it. -/
def readUnset (config line : List Char) (r : Reading S) : Reading S :=
  if config.isPrefixOf (line.drop 2) then
    match cut ' ' (cstr (line.drop (2 + config.length))) with
    | none => r
    | some (name, p) =>
        if "is not set".toList.isPrefixOf p then
          match symFind tab name with
          | none => { r with notFound := r.notFound + 1 }
          | some s =>
              let r := warnReassigned s r
              setChoice tab s
                (if hasTristate tab s then
                  r.modify s (UserValue.setTri .no) else r)
        else r
  else r

/-- What is behind `=`, without the newline and a carriage return before
    it. -/
def valueOf (p : List Char) : List Char :=
  match cut '\n' p with
  | none => p
  | some (value, _) =>
      if value.getLast? = some '\r' then value.dropLast else value

/-- A line that begins with `CONFIG_`. -/
def readAssignment (config line : List Char) (r : Reading S) : Reading S :=
  match cut '=' (cstr (line.drop config.length)) with
  | none => r
  | some (name, p) =>
      match symFind tab name with
      | none => { r with notFound := r.notFound + 1 }
      | some s =>
          let (failed, r) :=
            confSetSymVal tab s (valueOf p) (warnReassigned s r)
          if failed then r else setChoice tab s r

/-- The body of the loop of `conf_read_simple`. -/
def readLine (config : List Char) (r : Reading S) (line : List Char) :
    Reading S :=
  let r := { r with lineno := r.lineno + 1 }
  if line.head? = some '#' then readUnset tab config line r
  else if config.isPrefixOf line then readAssignment tab config line r
  else if line.head? ≠ some '\r' ∧ line.head? ≠ some '\n' then
    r.warn .unexpectedData
  else r

/-- What `conf_read_simple` starts with. -/
def resetValues (r : Reading S) : Reading S :=
  { values := fun s =>
      if s ∈ tab.symbols then ⟨tab.isChoice s, .no, none, none⟩
      else r.values s
    lineno := 0
    warnings := []
    notFound := r.notFound }

/-- `conf_read_simple` for `S_DEF_USER`, with the characters of the file. -/
def confReadSimple (config text : List Char) (r : Reading S) : Reading S :=
  (linesOf '\n' text).foldl (readLine tab config) (resetValues tab r)

end ChinixKconfigFile

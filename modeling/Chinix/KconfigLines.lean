import Mathlib.Data.List.TakeWhile
import Chinix.KconfigFile
import Chinix.KconfigTransform

/-! # The lines of a configuration file

    How `conf_read_simple` takes each kind of line that `conf_write` writes:
    comments, headings and blank lines are passed over, and a line about a
    symbol is taken for an assignment of what is written on it. -/

namespace ChinixKconfigLines

open ChinixKconfigExpr ChinixKconfigTransform ChinixKconfigFile
open DelimitedText

variable {S : Type} [DecidableEq S] {tab : ConfSymbols S}

/-! ## Lines that say nothing -/

/-- A comment that does not read like one about a symbol. -/
def Inert (config comment : List Char) : Prop :=
  ∀ name rest, ' ' ∉ name →
    comment ≠ config ++ name ++ " is not set".toList ++ rest

/-- A part of a line: no newline, no NUL. -/
def InLine (l : List Char) : Prop := '\n' ∉ l ∧ '\x00' ∉ l

theorem cstr_eq {l : List Char} (h : '\x00' ∉ l) : cstr l = l := by
  refine List.takeWhile_eq_self_iff.mpr fun c hc => ?_
  simpa using ne_of_mem_of_not_mem hc h

/-- The prefix of a line is one of what is before its newline. -/
theorem isPrefix_line {config l : List Char} (hc : '\n' ∉ config) :
    config <+: l ++ ['\n'] ↔ config <+: l := by
  constructor
  · intro h
    rcases List.prefix_concat_iff.mp h with rfl | h
    · exact absurd (by simp) hc
    · exact h
  · exact fun h => h.trans (List.prefix_append l _)

/-- The rest of a comment is a comment. -/
theorem Inert.take {config comment : List Char} (h : Inert config comment)
    (k : Nat) : Inert config (comment.take k) := by
  intro name rest hname he
  refine h name (rest ++ comment.drop k) hname ?_
  rw [← List.append_assoc, ← he, List.take_append_drop]

theorem inert_of_not_mem {comment : List Char} (h : 's' ∉ comment)
    (config : List Char) : Inert config comment := by
  rintro name rest - rfl
  exact h (by simp)

theorem inert_of_not_prefix {config comment : List Char}
    (h : ¬ config <+: comment) : Inert config comment := by
  rintro name rest - rfl
  exact h ⟨name ++ " is not set".toList ++ rest, by simp⟩

/-- A comment is passed over unless it reads like one about a symbol. -/
theorem readUnset_inert {config comment : List Char}
    (hconfig : '\n' ∉ config) (hnul : '\x00' ∉ comment)
    (hinert : Inert config comment) (r : Reading S) :
    readUnset tab config ('#' :: ' ' :: comment ++ ['\n']) r = r := by
  have hdrop : ('#' :: ' ' :: comment ++ ['\n']).drop 2 = comment ++ ['\n'] :=
    rfl
  rw [readUnset, ← List.drop_drop, hdrop]
  by_cases hp : config <+: comment ++ ['\n']
  · obtain ⟨l, rfl⟩ := (isPrefix_line hconfig).mp hp
    rw [if_pos (List.isPrefixOf_iff_prefix.mpr hp), List.append_assoc,
      List.drop_left]
    have hl : '\x00' ∉ l ++ ['\n'] := by
      simp only [List.mem_append, not_or] at hnul ⊢
      exact ⟨hnul.2, by decide⟩
    rw [cstr_eq hl]
    cases hcut : cut ' ' (l ++ ['\n']) with
    | none => rfl
    | some p =>
        obtain ⟨name, p⟩ := p
        obtain ⟨he, hname⟩ := cut_eq_some hcut
        refine if_neg fun hset => ?_
        obtain ⟨rest, rfl⟩ := List.isPrefixOf_iff_prefix.mp hset
        rcases List.eq_nil_or_concat rest with rfl | ⟨rest, c, rfl⟩
        · have := congrArg List.getLast? he
          simp at this
        · have he' : l ++ ['\n'] =
              name ++ " is not set".toList ++ rest ++ [c] := by
            rw [he]
            simp
          obtain ⟨rfl, -⟩ := List.append_inj' he' rfl
          exact hinert name rest hname (by simp)
  · exact if_neg fun h => hp (List.isPrefixOf_iff_prefix.mp h)

/-- The next line. -/
def next (r : Reading S) : Reading S := { r with lineno := r.lineno + 1 }

theorem readLine_comment {config comment : List Char}
    (hconfig : '\n' ∉ config) (hnul : '\x00' ∉ comment)
    (hinert : Inert config comment) (r : Reading S) :
    readLine tab config r ('#' :: ' ' :: comment ++ ['\n']) = next r :=
  readUnset_inert hconfig hnul hinert (next r)

theorem readLine_hash (config : List Char) (r : Reading S) :
    readLine tab config r ['#', '\n'] = next r := by
  cases config with
  | nil => rfl
  | cons c config => rfl

theorem readLine_blank {config : List Char} (hconfig : '\n' ∉ config)
    (r : Reading S) : readLine tab config r ['\n'] = next r := by
  cases config with
  | nil => rfl
  | cons c config =>
      have hc : c ≠ '\n' := ne_of_mem_of_not_mem List.mem_cons_self hconfig
      have hp : (c :: config).isPrefixOf ['\n'] = false := by
        simp [List.isPrefixOf, hc]
      rw [readLine, if_neg (by decide), hp, if_neg (by decide),
        if_neg (by decide)]
      rfl

/-! ## Lines about a symbol -/

/-- The name stands for the symbol, and can be told from what is around
    it. -/
structure NameOk (tab : ConfSymbols S) (config : List Char) (s : S) :
    Prop where
  found : symFind tab (nameOf tab s) = some s
  inLine : InLine (nameOf tab s)
  blank : ' ' ∉ nameOf tab s
  equals : '=' ∉ nameOf tab s
  hash : (config ++ nameOf tab s).head? ≠ some '#'

theorem readUnset_of_cut {config line name p : List Char} {s : S}
    (hp : config.isPrefixOf (line.drop 2))
    (hcut : cut ' ' (cstr (line.drop (2 + config.length))) = some (name, p))
    (hset : "is not set".toList.isPrefixOf p)
    (hs : symFind tab name = some s) (r : Reading S) :
    readUnset tab config line r =
      setChoice tab s (if hasTristate tab s then
        (warnReassigned s r).modify s (UserValue.setTri .no)
        else warnReassigned s r) := by
  simp only [readUnset, hp, hcut, hset, hs, if_true]

/-- `# CONFIG_FOO is not set`. -/
theorem readLine_unset {config : List Char} {s : S}
    (hs : NameOk tab config s) (r : Reading S) :
    readLine tab config r ("# ".toList ++ config ++ nameOf tab s ++
        " is not set".toList ++ ['\n']) =
      setChoice tab s (if hasTristate tab s then
        (warnReassigned s (next r)).modify s (UserValue.setTri .no)
        else warnReassigned s (next r)) := by
  have hline : "# ".toList ++ config ++ nameOf tab s ++
      " is not set".toList ++ ['\n'] = '#' :: ' ' ::
        (config ++ (nameOf tab s ++ ' ' :: "is not set\n".toList)) := by
    simp
  have hnul : '\x00' ∉ nameOf tab s ++ ' ' :: "is not set\n".toList := by
    simpa using hs.inLine.2
  rw [hline]
  refine readUnset_of_cut (p := "is not set\n".toList) ?_ ?_ (by decide)
    hs.found (next r)
  · exact List.isPrefixOf_iff_prefix.mpr (List.prefix_append _ _)
  · rw [← List.drop_drop]
    change cut ' ' (cstr ((config ++ _).drop config.length)) = _
    rw [List.drop_left, cstr_eq hnul]
    exact cut_append hs.blank _

theorem readAssignment_of_cut {config line name p : List Char} {s : S}
    (hcut : cut '=' (cstr (line.drop config.length)) = some (name, p))
    (hs : symFind tab name = some s) (r : Reading S) :
    readAssignment tab config line r =
      let result := confSetSymVal tab s (valueOf p) (warnReassigned s r)
      if result.1 then result.2 else setChoice tab s result.2 := by
  simp only [readAssignment, hcut, hs]

/-- What can stand behind `=` on a line. -/
def ValueOk (value : List Char) : Prop :=
  InLine value ∧ value.getLast? ≠ some '\r'

theorem valueOf_line {value : List Char} (h : ValueOk value) :
    valueOf (value ++ ['\n']) = value := by
  simp only [valueOf, cut_append h.1.1 [], if_neg h.2]

/-- `CONFIG_FOO=value`. -/
theorem readLine_assign {config value : List Char} {s : S}
    (hs : NameOk tab config s) (hvalue : ValueOk value) (r : Reading S) :
    readLine tab config r
        (config ++ nameOf tab s ++ '=' :: value ++ ['\n']) =
      let result := confSetSymVal tab s value (warnReassigned s (next r))
      if result.1 then result.2 else setChoice tab s result.2 := by
  have hline : config ++ nameOf tab s ++ '=' :: value ++ ['\n'] =
      config ++ (nameOf tab s ++ '=' :: (value ++ ['\n'])) := by
    simp
  have hhash : (config ++ (nameOf tab s ++ '=' :: (value ++ ['\n']))).head? ≠
      some '#' := by
    rw [← List.append_assoc, List.head?_append]
    have hname := hs.hash
    cases h : (config ++ nameOf tab s).head? with
    | none =>
        rw [Option.none_or, List.head?_cons]
        decide
    | some c => rwa [h] at hname
  have hnul : '\x00' ∉ nameOf tab s ++ '=' :: (value ++ ['\n']) := by
    have := hs.inLine.2
    have := hvalue.1.2
    simp_all
  rw [hline, readLine, if_neg hhash,
    if_pos (List.isPrefixOf_iff_prefix.mpr (List.prefix_append _ _))]
  have hcut : cut '=' (cstr ((config ++ (nameOf tab s ++
      '=' :: (value ++ ['\n']))).drop config.length)) =
      some (nameOf tab s, value ++ ['\n']) := by
    rw [List.drop_left, cstr_eq hnul]
    exact cut_append hs.equals _
  rw [readAssignment_of_cut hcut hs.found, valueOf_line hvalue]
  rfl

/-! ## What is written on a line -/

variable {s : S}

/-- A character that numbers are written with. -/
def NumberChar (c : Char) : Prop :=
  isXDigit c ∨ c = '-' ∨ c = 'x' ∨ c = 'X'

theorem numberChar_of_isDigit {c : Char} (h : c.isDigit) : NumberChar c :=
  .inl (by rw [isXDigit, h]; rfl)

theorem intValid_chars {l : List Char} (h : intValid l) :
    ∀ c ∈ l, NumberChar c := by
  have hdigits : ∀ str : List Char,
      (∀ ch t, str = ch :: t → ch.isDigit ∧ t.all Char.isDigit) →
      ∀ c ∈ str, NumberChar c := by
    intro str hstr c hc
    cases str with
    | nil => cases hc
    | cons ch t =>
        obtain ⟨hch, ht⟩ := hstr ch t rfl
        rcases List.mem_cons.mp hc with rfl | hc
        · exact numberChar_of_isDigit hch
        · exact numberChar_of_isDigit (List.all_eq_true.mp ht c hc)
  rw [intValid] at h
  have hrest : ∀ c ∈ (if l.head? = some '-' then l.tail else l),
      NumberChar c := by
    refine hdigits _ fun ch t he => ?_
    rw [he] at h
    simp only [Bool.and_eq_true] at h
    exact ⟨h.1.1, h.2⟩
  split_ifs at hrest with hminus
  · intro c hc
    cases l with
    | nil => cases hc
    | cons a l =>
        rcases List.mem_cons.mp hc with rfl | hc
        · exact .inr (.inl (Option.some.inj hminus))
        · exact hrest c hc
  · exact hrest

theorem hexValid_chars {l : List Char} (h : hexValid l) :
    ∀ c ∈ l, NumberChar c := by
  intro c hc
  rw [hexValid] at h
  rw [← List.take_append_drop 2 l] at hc
  by_cases hpre : l.take 2 = ['0', 'x'] ∨ l.take 2 = ['0', 'X']
  · simp only [if_pos hpre, Bool.and_eq_true] at h
    rcases List.mem_append.mp hc with hc | hc
    · have : c = '0' ∨ c = 'x' ∨ c = 'X' := by
        rcases hpre with he | he <;> rw [he] at hc <;> simp_all <;> tauto
      rcases this with rfl | hx
      · exact .inl (by decide)
      · exact .inr (.inr hx)
    · exact .inl (List.all_eq_true.mp h.2 c hc)
  · simp only [if_neg hpre, Bool.and_eq_true] at h
    rw [List.take_append_drop] at hc
    exact .inl (List.all_eq_true.mp h.2 c hc)

theorem valueOk_of_numberChars {l : List Char}
    (h : ∀ c ∈ l, NumberChar c) : ValueOk l := by
  have hne : ∀ c, ¬ NumberChar c → c ∉ l := fun c hc hl => hc (h c hl)
  refine ⟨⟨hne _ ?_, hne _ ?_⟩, fun hlast => ?_⟩
  · unfold NumberChar; decide
  · unfold NumberChar; decide
  · exact hne '\r' (by unfold NumberChar; decide)
      (List.mem_of_getLast? hlast)

/-- `conf_set_sym_val` of what is written for a number. -/
theorem confSetSymVal_number (ht : tab.type s = .int ∨ tab.type s = .hex)
    {value : List Char} (hvalid : symStringValid tab s value)
    (r : Reading S) : confSetSymVal tab s value r =
      (false, r.modify s (UserValue.setVal value)) := by
  rcases ht with ht | ht <;>
    simp only [confSetSymVal, ht, setStringVal, hvalid, if_true]

/-- `conf_set_sym_val` of an escaped string. -/
theorem confSetSymVal_string (ht : tab.type s = .string) (str : List Char)
    (r : Reading S) : confSetSymVal tab s (symEscapeStringValue str) r =
      (false, r.modify s (UserValue.setVal str)) := by
  have hread : readQuoted '"' '\\' false
      (symEscapeStringValue str).tail = some str :=
    readQuoted_escape (by decide) str []
  have hquote : (symEscapeStringValue str).head? = some '"' := rfl
  simp only [confSetSymVal, ht, hquote, if_true, hread, setStringVal,
    symStringValid]

/-- `conf_set_sym_val` of `m` or `y`. -/
theorem confSetSymVal_tristate (ht : hasTristate tab s) {t : Tristate}
    (hno : t ≠ .no) (hmod : t = .mod → tab.type s = .tristate)
    (r : Reading S) : confSetSymVal tab s (letter t).toList r =
      (false, r.modify s (UserValue.setTri t)) := by
  rw [confSetSymVal_of_hasTristate ht]
  cases t with
  | no => exact absurd rfl hno
  | mod =>
      have hhead : (letter .mod).toList.head? = some 'm' := by decide
      rw [if_pos ⟨hmod rfl, hhead⟩]
  | yes =>
      have hhead : (letter .yes).toList.head? = some 'y' := by decide
      have hm : (letter .yes).toList.head? ≠ some 'm' := by decide
      rw [if_neg fun h => hm h.2, if_pos hhead]

theorem valueOk_escaped {str : List Char} (h : InLine str) :
    ValueOk (symEscapeStringValue str) := by
  have hmem : ∀ c, c ≠ '"' → c ≠ '\\' → c ∉ str →
      c ∉ symEscapeStringValue str := by
    intro c hq hm hc hmem
    simp only [symEscapeStringValue, List.cons_append, List.mem_cons,
      List.mem_append, List.not_mem_nil, hq, false_or, or_false] at hmem
    exact (mem_of_mem_escape hmem).elim hc hm
  refine ⟨⟨hmem _ (by decide) (by decide) h.1,
    hmem _ (by decide) (by decide) h.2⟩, ?_⟩
  rw [symEscapeStringValue, List.getLast?_concat]
  decide

omit [DecidableEq S] in
theorem valueOk_number (ht : tab.type s = .int ∨ tab.type s = .hex)
    {value : List Char} (hvalid : symStringValid tab s value) :
    ValueOk value := by
  refine valueOk_of_numberChars ?_
  rcases ht with ht | ht
  · refine intValid_chars ?_
    simpa only [symStringValid, ht] using hvalid
  · refine hexValid_chars ?_
    simpa only [symStringValid, ht] using hvalid

end ChinixKconfigLines

import Mathlib.Data.List.TakeWhile
import Chinix.PrintfNumbers

/-! # The width of a field

    A field should be as wide as the directive asks for, or as its content
    needs.  It is, unless a sign is left out, a prefix is not counted, or the
    digits behind a `.` are: the code reads them as more digits of the
    width. -/

namespace ChinixPrintfWidth

open Outcome ChinixPrintf ChinixPrintfFields ChinixPrintfComposition
  ChinixPrintfDirectives ChinixPrintfNumbers

/-! ## Widths -/

/-- One more character: a digit, or another one that does not count. -/
def nextNumber (n : Nat) (c : Byte) : Nat :=
  if isDigit c then n * 10 + (c.toNat - 0x30) else n

/-- The number that the digits of some characters form. -/
def numberOf (mods : List Byte) : Nat := mods.foldl nextNumber 0

/-- The width, written before any `.`. -/
def widthOf (mods : List Byte) : Nat :=
  numberOf (mods.takeWhile (· ≠ ascii '.'))

/-- What the code takes for the width: all digits. -/
def formatNumOf (mods : List Byte) : Nat := numberOf mods % 2 ^ 32

theorem modifyAll_formatNum {mods : List Byte}
    (hm : ∀ m ∈ mods, isModifier m = true) {spec : Spec} {n : Nat}
    (h : spec.formatNum = n % 2 ^ 32) :
    (modifyAll spec mods).formatNum = mods.foldl nextNumber n % 2 ^ 32 := by
  induction mods generalizing spec n with
  | nil => exact h
  | cons c mods ih =>
      have hc : (spec.modify c).isSome = true := by
        rw [modify_isSome]
        exact hm c List.mem_cons_self
      obtain ⟨spec', hspec⟩ := Option.isSome_iff_exists.mp hc
      have hnum := (modify_modified hspec).formatNum
      have hmods := fun c hc => hm c (List.mem_cons_of_mem _ hc)
      show (modifyAll ((spec.modify c).getD spec) mods).formatNum = _
      rw [hspec]
      refine ih hmods ?_
      show spec'.formatNum = _
      rw [hnum, h, nextNumber]
      by_cases hd : isDigit c
      · rw [if_pos hd, if_pos hd, Nat.add_mod, Nat.mod_mul_mod, ← Nat.add_mod]
      · rw [if_neg hd, if_neg hd]

theorem specOf_formatNum {mods : List Byte}
    (hm : ∀ m ∈ mods, isModifier m = true) :
    (specOf mods).formatNum = formatNumOf mods :=
  modifyAll_formatNum hm rfl

/-- Without a `.` the code takes the width for the width. -/
theorem formatNumOf_eq_widthOf {mods : List Byte} (hdot : ascii '.' ∉ mods)
    (hw : widthOf mods < 2 ^ 32) : formatNumOf mods = widthOf mods := by
  have hall : mods.takeWhile (· ≠ ascii '.') = mods := by
    refine List.takeWhile_eq_self_iff.mpr fun c hc => ?_
    rw [decide_eq_true_iff]
    rintro rfl
    exact hdot hc
  rw [widthOf, hall] at hw ⊢
  exact Nat.mod_eq_of_lt hw

/-! ## Contents -/

/-- The characters of the sign. -/
def signLength (c : Byte) (spec : Spec) (arg : Arg) : Nat :=
  if c = ascii 's' ∨ IsHex c then 0
  else if argValue c spec (slotOf (some arg)) < 0 ∨
    spec.flags.showsign = true ∨ spec.flags.blankpos = true then 1
  else 0

/-- The characters of `0x` or `0X`. -/
def prefixLength (c : Byte) (spec : Spec) : Nat :=
  if IsHex c ∧ (spec.flags.alt = true ∨ c = ascii 'p') then 2 else 0

/-- The digits, or the characters of the string. -/
def bodyLength (c : Byte) (spec : Spec) (arg : Arg) : Nat :=
  if c = ascii 's' then (stringOf (some arg)).length
  else Nat.log (baseOf c) (argValue c spec (slotOf (some arg))).natAbs + 1

/-- The length of the content of a field. -/
def contentLength (c : Byte) (spec : Spec) (arg : Arg) : Nat :=
  signLength c spec arg + prefixLength c spec + bodyLength c spec arg

/-- The lengths for which a field has its width: `formatNum` is what the code
    takes for the width. -/
def HasWidth (width formatNum : Nat) (left : Bool)
    (sign pre body : Nat) : Prop :=
  -- the prefix is added to the width
  if pre = 2 then
    (formatNum ≤ body ∧ width ≤ body + 2) ∨
      (body < formatNum ∧ width = formatNum + 2)
  -- the sign is not printed
  else if left = true ∧ sign = 1 then formatNum = max width (body + 1)
  else formatNum = width ∨
    (formatNum ≤ body + sign ∧ width ≤ body + sign)

/-! ## Lengths -/

/-- How long a field is. -/
theorem fieldText_length (spec : Spec) (s : List Byte) :
    (fieldText spec s).length =
      max spec.formatNum (s.length +
        if spec.flags.leftformat = true ∨ spec.signchar = 0 then 0 else 1) := by
  rw [fieldText]
  by_cases hl : spec.flags.leftformat
  · rw [if_pos hl, if_pos (Or.inl hl), List.length_append,
      List.length_replicate]
    omega
  · by_cases hs : spec.signchar = 0
    · rw [if_neg hl, if_pos hs, if_pos (Or.inr hs)]
      split
      all_goals
        simp only [List.length_append, List.length_replicate, List.length_nil]
        omega
    · rw [if_neg hl, if_neg hs, if_neg (not_or.mpr ⟨hl, hs⟩)]
      split
      all_goals
        simp only [List.length_append, List.length_replicate,
          List.length_singleton]
        omega

theorem hexPrefix_length (flags : Flags) :
    (hexPrefix flags).length = if flags.alt = true then 2 else 0 := by
  rw [hexPrefix]
  split <;> rfl

theorem signcharOf_eq_zero_iff (flags : Flags) (negative : Bool) :
    signcharOf flags negative = 0 ↔
      ¬ (negative = true ∨ flags.showsign = true ∨ flags.blankpos = true) := by
  rw [signcharOf]
  by_cases hn : negative = true
  · rw [if_pos hn]
    exact iff_of_false (by decide) (fun h => h (.inl hn))
  · by_cases hs : flags.showsign = true
    · rw [if_neg hn, if_pos hs]
      exact iff_of_false (by decide) (fun h => h (.inr (.inl hs)))
    · by_cases hb : flags.blankpos = true
      · rw [if_neg hn, if_neg hs, if_pos hb]
        exact iff_of_false (by decide) (fun h => h (.inr (.inr hb)))
      · rw [if_neg hn, if_neg hs, if_neg hb]
        exact iff_of_true rfl (fun h => h.elim hn (·.elim hs hb))

/-- How long a decimal field is. -/
theorem decimalText_length (spec : Spec) (v : BitVec 64) :
    (decimalText spec v).length =
      max spec.formatNum (Nat.log 10 (decimalValue spec.flags v).natAbs + 1 +
        if spec.flags.leftformat = true then 0
        else if decimalValue spec.flags v < 0 ∨ spec.flags.showsign = true ∨
          spec.flags.blankpos = true then 1
        else 0) := by
  have hdigits : (decDigits spec.flags v).length =
      Nat.log 10 (decimalValue spec.flags v).natAbs + 1 := by
    rw [decDigits, List.length_map, Numerals.numeral_length (by decide),
      magnitude_eq_natAbs]
  have hsign := signcharOf_eq_zero_iff spec.flags (isNegative spec.flags v)
  rw [isNegative_iff] at hsign
  rw [decimalText, fieldText_length, hdigits]
  show max spec.formatNum (_ + if spec.flags.leftformat = true ∨
    signcharOf spec.flags (isNegative spec.flags v) = 0 then 0 else 1) = _
  by_cases hl : spec.flags.leftformat = true
  · rw [if_pos (Or.inl hl), if_pos hl]
  · rw [if_neg hl]
    by_cases hs : decimalValue spec.flags v < 0 ∨ spec.flags.showsign = true ∨
        spec.flags.blankpos = true
    · rw [if_pos hs, if_neg (not_or.mpr ⟨hl, fun h => hsign.mp h hs⟩)]
    · rw [if_neg hs, if_pos (Or.inr (hsign.mpr hs))]

/-- How long a hexadecimal field is, with its prefix. -/
theorem hexText_length {spec : Spec} (hsign : spec.signchar = 0)
    (u : BitVec 64) :
    (hexText spec u).length = (if spec.flags.alt = true then 2 else 0) +
      max spec.formatNum (Nat.log 16 u.toNat + 1) := by
  rw [hexText, List.length_append, hexPrefix_length, fieldText_length,
    if_pos (Or.inr hsign), hexDigits, List.length_map,
    Numerals.numeral_length (by decide), Nat.add_zero]

/-! ## The directives -/

/-- The argument that a directive with a field reads. -/
inductive Prints : Byte → Arg → Prop where
  | number (c : Byte) (v : BitVec 64) : IsNumeric c → Prints c (.slot v)
  | string (s : Option (List Byte)) : Prints (ascii 's') (.string s)

/-- **How long a field is**: a sign counts in a right-justified field only, a
    prefix is added to the width. -/
theorem conversionText_length {c : Byte} {arg : Arg} (h : Prints c arg)
    {spec : Spec} (hsign : spec.signchar = 0)
    (hsigned : spec.flags.signed = false) :
    (conversionText c spec (some arg)).length = prefixLength c spec +
      max spec.formatNum (bodyLength c spec arg +
        if spec.flags.leftformat = true then 0
        else signLength c spec arg) := by
  cases h with
  | string s =>
      have hbody : bodyLength (ascii 's') spec (.string s) =
          (stringOf (some (.string s))).length := rfl
      have hlen := fieldText_length
        (spec.setFlags fun f => { f with leadzero := false })
        (stringOf (some (.string s)))
      have hzero : (spec.setFlags fun f =>
        { f with leadzero := false }).signchar = 0 := hsign
      rw [if_pos (Or.inr hzero)] at hlen
      have hpre : prefixLength (ascii 's') spec = 0 :=
        if_neg fun h => absurd h.1 (by decide)
      have hsign0 : signLength (ascii 's') spec (.string s) = 0 :=
        if_pos (Or.inl rfl)
      rw [conversionText_string, hlen, hbody, hpre, hsign0, ite_self,
        Nat.zero_add]
      rfl
  | number c v hc =>
      have hs : c ≠ ascii 's' := by
        rintro rfl
        exact absurd hc (by decide)
      by_cases hhex : IsHex c
      · obtain ⟨hsc, hf, -, -, ha⟩ := hexSpec_keeps c spec
        have hnot : ¬ IsSigned c := fun h => h.not_isHex hhex
        have hbody : bodyLength c spec (.slot v) =
            Nat.log 16 (unsignedArg (hexSpec c spec).flags v).toNat + 1 := by
          rw [bodyLength, if_neg hs, baseOf, if_pos hhex, argValue,
            if_neg hnot, if_pos hhex, Int.natAbs_natCast]
          rfl
        have hsign0 : signLength c spec (.slot v) = 0 :=
          if_pos (Or.inr hhex)
        rw [conversionText_hex hhex, hexText_length (hsc.trans hsign), hf, hbody,
          hsign0, ite_self, prefixLength]
        simp only [ha, hhex, true_and, slotOf, Nat.add_zero]
      · have hpre : prefixLength c spec = 0 := if_neg fun h => hhex h.1
        have hbase : baseOf c = 10 := if_neg hhex
        rw [hpre, Nat.zero_add, bodyLength, if_neg hs, hbase, signLength,
          if_neg (not_or.mpr ⟨hs, hhex⟩)]
        rcases hc with hc | rfl | hc
        · have hval : decimalValue
              (spec.setFlags fun f => { f with signed := true }).flags
              (signedArg spec.flags v) =
                argValue c spec (slotOf (some (.slot v))) := by
            rw [argValue, if_pos hc]
            rfl
          rw [conversionText_signed hc, decimalText_length, hval]
          rfl
        · have hval : decimalValue spec.flags (unsignedArg spec.flags v) =
              argValue (ascii 'u') spec (slotOf (some (.slot v))) := by
            rw [decimalValue, hsigned, if_neg Bool.false_ne_true, argValue,
              if_neg (by decide), if_neg (by decide), slotOf]
          rw [conversionText_unsigned, decimalText_length, hval]
        · exact absurd hc hhex

/-- There is a sign or a prefix, not both. -/
theorem prefixed_or_signed (c : Byte) (spec : Spec) (arg : Arg) :
    prefixLength c spec = 0 ∧ signLength c spec arg ≤ 1 ∨
      prefixLength c spec = 2 ∧ signLength c spec arg = 0 := by
  by_cases h : IsHex c ∧ (spec.flags.alt = true ∨ c = ascii 'p')
  · exact .inr ⟨if_pos h, if_pos (Or.inr h.1)⟩
  · refine .inl ⟨if_neg h, ?_⟩
    rw [signLength]
    split
    · omega
    · split <;> omega

/-- The lengths that are compared. -/
theorem hasWidth_iff {width formatNum sign pre body : Nat} {left : Bool}
    (h : pre = 0 ∧ sign ≤ 1 ∨ pre = 2 ∧ sign = 0) :
    pre + max formatNum (body + if left = true then 0 else sign) =
        max width (sign + pre + body) ↔
      HasWidth width formatNum left sign pre body := by
  rw [HasWidth]
  rcases h with ⟨rfl, hs⟩ | ⟨rfl, rfl⟩
  · rw [if_neg (show ¬ 0 = 2 by decide)]
    cases left with
    | false =>
        simp only [Bool.false_eq_true, false_and, if_false]
        constructor <;> intro h <;> omega
    | true =>
        simp only [if_true, true_and]
        split <;> constructor <;> intro h <;> omega
  · rw [if_pos rfl, ite_self, Nat.add_zero]
    constructor <;> intro h <;> omega

/-- **The width of a field**: wherever in a format a directive with a field
    stands, the field is as wide as its width or its content exactly when the
    lengths are such that neither what the code takes for the width nor the
    sign or the prefix makes a difference. -/
theorem directive_width_iff {print : Sink} (hp : ReturnsLength print)
    {mods : List Byte} (hm : ∀ m ∈ mods, isModifier m = true)
    {c : Byte} {arg : Arg} (hc : Prints c arg) (hshort : Short arg)
    {st : State} (hst : st.spec = Spec.reset) {args : List Arg}
    (hargs : st.args = arg :: args) :
    ∃ st' field,
      feed print .directive (mods ++ [c]) st = .ok (.text [], st') ∧
      st'.args = args ∧ st'.calls.flatten = st.calls.flatten ++ field ∧
      (field.length =
          max (widthOf mods) (contentLength c (specOf mods) arg) ↔
        HasWidth (widthOf mods) (formatNumOf mods)
          (specOf mods).flags.leftformat (signLength c (specOf mods) arg)
          (prefixLength c (specOf mods)) (bodyLength c (specOf mods) arg)) := by
  have hfit : List.Forall₂ Fits (kindOf c).toList [arg] := by
    cases hc with
    | string s => exact .cons trivial .nil
    | number c v hc =>
        rw [hc.kind]
        exact .cons trivial .nil
  have hmod : isModifier c = false := by
    cases hc with
    | string s => decide
    | number c v hc => exact hc.not_isModifier
  have hshorts : ∀ a ∈ [arg], Short a := by
    intro a ha
    rw [List.mem_singleton.mp ha]
    exact hshort
  obtain ⟨⟨mode, st'⟩, hfeed, hmode, -, hsent⟩ :=
    (feed_directive hp hm hmod hst
      (show st.args = [arg] ++ args from hargs) hfit hshorts).returns
  obtain rfl : mode = .text [] := hmode
  refine ⟨st', _, hfeed, hsent.args, hsent.calls, ?_⟩
  show (conversionText c (specOf mods) (some arg)).length = _ ↔ _
  rw [conversionText_length hc (specOf_signchar mods) (specOf_signed mods),
    specOf_formatNum hm]
  exact hasWidth_iff (prefixed_or_signed c (specOf mods) arg)

/-- `"%8d"` with 7. -/
theorem directive_width_iff_blanks :
    ∃ st' field,
      feed takeAll .directive (bytes "8" ++ [ascii 'd'])
        (State.init [.slot 7]) = .ok (.text [], st') ∧
      st'.args = [] ∧ st'.calls.flatten = [] ++ field ∧
      (field.length = max (widthOf (bytes "8"))
          (contentLength (ascii 'd') (specOf (bytes "8")) (.slot 7)) ↔
        HasWidth (widthOf (bytes "8")) (formatNumOf (bytes "8"))
          (specOf (bytes "8")).flags.leftformat
          (signLength (ascii 'd') (specOf (bytes "8")) (.slot 7))
          (prefixLength (ascii 'd') (specOf (bytes "8")))
          (bodyLength (ascii 'd') (specOf (bytes "8")) (.slot 7))) :=
  directive_width_iff takeAll_returnsLength (by decide)
    (.number _ _ (by decide)) trivial rfl rfl

/-- `"%-d"` prints -5 in one character, `"%#4x"` prints 31 in six, and
    `"%2.5s"` prints `ab` in 25. -/
theorem width_missed :
    (∃ st, printfDriver takeAll (bytes "%-d" ++ [0]) [.slot (-5)] =
        .ok (1, st) ∧ st.calls.flatten = bytes "5" ∧
      max (widthOf (bytes "-"))
        (contentLength (ascii 'd') (specOf (bytes "-")) (.slot (-5))) = 2) ∧
    (∃ st, printfDriver takeAll (bytes "%#4x" ++ [0]) [.slot 31] =
        .ok (6, st) ∧ st.calls.flatten = bytes "0x  1f" ∧
      max (widthOf (bytes "#4"))
        (contentLength (ascii 'x') (specOf (bytes "#4")) (.slot 31)) = 4) ∧
    ∃ st, printfDriver takeAll (bytes "%2.5s" ++ [0])
        [.string (bytes "ab")] = .ok (25, st) ∧
      max (widthOf (bytes "2.5")) (contentLength (ascii 's')
        (specOf (bytes "2.5")) (.string (bytes "ab"))) = 2 := by
  refine ⟨⟨_, rfl, rfl, ?_⟩, ⟨_, rfl, rfl, ?_⟩, ⟨_, rfl, ?_⟩⟩
  all_goals decide

/-- Without a `.`, the width is missed by a prefix in front of the padding and
    by the sign of a left-justified field. -/
theorem hasWidth_of_no_dot {mods : List Byte} (hdot : ascii '.' ∉ mods)
    (hw : widthOf mods < 2 ^ 32) {left : Bool} {sign pre body : Nat}
    (h : pre = 0 ∧ sign ≤ 1 ∨ pre = 2 ∧ sign = 0) :
    HasWidth (widthOf mods) (formatNumOf mods) left sign pre body ↔
      (pre = 2 → widthOf mods ≤ body) ∧
        (left = true ∧ sign = 1 → body + 1 ≤ widthOf mods) := by
  rw [formatNumOf_eq_widthOf hdot hw, HasWidth]
  rcases h with ⟨rfl, hs⟩ | ⟨rfl, rfl⟩
  · rw [if_neg (show ¬ 0 = 2 by decide)]
    split
    · next hsign =>
        rw [and_iff_right (fun h => absurd h (by decide))]
        simp only [hsign, and_self, true_implies]
        omega
    · next hsign =>
        exact iff_of_true (.inl rfl)
          ⟨fun h => absurd h (by decide), fun h => absurd h hsign⟩
  · rw [if_pos rfl]
    have hsign : ¬ (left = true ∧ 0 = 1) := fun h => absurd h.2 (by decide)
    simp only [hsign, false_implies, and_true, true_implies]
    omega

end ChinixPrintfWidth

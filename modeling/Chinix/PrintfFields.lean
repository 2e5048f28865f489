import Mathlib.Data.Nat.ModEq
import Chinix.Numerals
import Chinix.Outcome
import Chinix.Printf

/-! # What a directive prints

    The text of each conversion, as a function of the format state and of the
    argument, and the proof that the driver sends that text to any sink that
    returns the lengths it is given.  The sink sees the text in pieces; what
    counts here is their concatenation. -/

namespace ChinixPrintfFields

open Outcome ChinixPrintf

/-! ## The texts -/

/-- The field of `_output_string`. -/
def fieldText (spec : Spec) (s : List Byte) : List Byte :=
  let sign := if spec.signchar = 0 then [] else [spec.signchar]
  let room := spec.formatNum - (sign.length + s.length)
  if spec.flags.leftformat then
    s ++ List.replicate (spec.formatNum - s.length) (ascii ' ')
  else if spec.flags.leadzero then
    sign ++ List.replicate room (ascii '0') ++ s
  else List.replicate room (ascii ' ') ++ sign ++ s

/-- The argument is printed as a negative number. -/
def isNegative (flags : Flags) (n : BitVec 64) : Bool :=
  flags.signed ∧ n.toInt < 0

/-- The number whose digits are printed. -/
def magnitude (flags : Flags) (n : BitVec 64) : Nat :=
  (if isNegative flags n then -n else n).toNat

/-- The digits of a decimal number. -/
def decDigits (flags : Flags) (n : BitVec 64) : List Byte :=
  (Numerals.numeral 10 (magnitude flags n)).map digitChar

/-- The digits of a hexadecimal number. -/
def hexDigits (flags : Flags) (u : BitVec 64) : List Byte :=
  (Numerals.numeral 16 u.toNat).map (hexChar flags.caps)

/-- The field of a decimal number, with its sign. -/
def decimalText (spec : Spec) (n : BitVec 64) : List Byte :=
  fieldText
    { spec with signchar := signcharOf spec.flags (isNegative spec.flags n) }
    (decDigits spec.flags n)

/-- `0x` or `0X`. -/
def hexPrefix (flags : Flags) : List Byte :=
  if flags.alt then
    [ascii '0', if flags.caps then ascii 'X' else ascii 'x']
  else []

/-- The field of a hexadecimal number, behind its prefix. -/
def hexText (spec : Spec) (u : BitVec 64) : List Byte :=
  hexPrefix spec.flags ++ fieldText spec (hexDigits spec.flags u)

/-- The slot that was read. -/
def slotOf : Option Arg → BitVec 64
  | some (.slot v) => v
  | _ => 0

/-- The string that was read. -/
def stringOf : Option Arg → List Byte
  | some (.string (some s)) => s
  | _ => "<null>".toList.map ascii

/-- The format state in which `x`, `X` and `p` print. -/
def hexSpec (c : Byte) (spec : Spec) : Spec :=
  if c = ascii 'p' then
    spec.setFlags fun f => { f with long := true, alt := true }
  else if c = ascii 'X' then spec.setFlags fun f => { f with caps := true }
  else spec

/-- What the last character of a directive prints. -/
def conversionText (c : Byte) (spec : Spec) (arg : Option Arg) : List Byte :=
  if c = ascii '%' then [ascii '%']
  else if c = ascii 'c' then [(slotOf arg).setWidth 8]
  else if c = ascii 's' then
    fieldText (spec.setFlags fun f => { f with leadzero := false })
      (stringOf arg)
  else if c = ascii 'i' ∨ c = ascii 'd' then
    decimalText (spec.setFlags fun f => { f with signed := true })
      (signedArg spec.flags (slotOf arg))
  else if c = ascii 'u' then
    decimalText spec (unsignedArg spec.flags (slotOf arg))
  else if c = ascii 'p' ∨ c = ascii 'X' ∨ c = ascii 'x' then
    hexText (hexSpec c spec)
      (unsignedArg (hexSpec c spec).flags (slotOf arg))
  else if c = ascii 'n' then []
  else [ascii '%', c]

/-! ## The arguments -/

/-- What a directive reads. -/
inductive Kind where
  | slot
  | string
  /-- The pointer of `%n`. -/
  | count
  deriving DecidableEq, Repr

/-- The argument that the last character of a directive reads. -/
def kindOf (c : Byte) : Option Kind :=
  if c = ascii 's' then some .string
  else if c = ascii 'c' ∨ c = ascii 'i' ∨ c = ascii 'd' ∨ c = ascii 'u' ∨
      c = ascii 'p' ∨ c = ascii 'X' ∨ c = ascii 'x' then some .slot
  else if c = ascii 'n' then some .count
  else none

/-- The argument is of the kind that is read; none is for `%n`. -/
def Fits (kind : Kind) (arg : Arg) : Prop :=
  match kind, arg with
  | .slot, .slot _ => True
  | .string, .string _ => True
  | _, _ => False

/-- A string whose length is an `int`. -/
def Short (arg : Arg) : Prop :=
  match arg with
  | .slot _ => True
  | .string s => (s.getD []).length < 2 ^ 31

/-! ## The digits -/

theorem decLoop_eq {pos n : Nat} (h : n < 10 ^ (pos + 1))
    (digits : List Byte) :
    decLoop (pos + 1) n digits =
      some ((Numerals.numeral 10 n).map digitChar ++ digits) := by
  induction pos generalizing n digits with
  | zero =>
      have hn : n < 10 := h
      rw [decLoop, if_neg (by omega), Numerals.numeral_of_lt hn]
      rfl
  | succ pos ih =>
      rw [decLoop]
      split
      · next hn =>
          have hdiv : n / 10 < 10 ^ (pos + 1) :=
            Nat.div_lt_of_lt_mul (by rwa [← Nat.pow_succ'])
          rw [ih hdiv, Numerals.numeral_of_ge (by omega) hn, List.map_append,
            List.append_assoc]
          rfl
      · next hn =>
          rw [Numerals.numeral_of_lt (by omega)]
          rfl

theorem hexLoop_eq (caps : Bool) {pos u : Nat} (h : u < 16 ^ (pos + 1))
    (digits : List Byte) :
    hexLoop caps (pos + 1) u digits =
      some ((Numerals.numeral 16 u).map (hexChar caps) ++ digits) := by
  induction pos generalizing u digits with
  | zero =>
      have hu : u < 16 := h
      rw [hexLoop, if_neg (by omega), Numerals.numeral_of_lt hu,
        Nat.mod_eq_of_lt hu]
      rfl
  | succ pos ih =>
      have hdiv : u / 16 < 16 ^ (pos + 1) :=
        Nat.div_lt_of_lt_mul (by rwa [← Nat.pow_succ'])
      rw [hexLoop]
      split
      · next hu =>
          have hge : 16 ≤ u := by omega
          rw [ih hdiv, Numerals.numeral_of_ge (by omega) hge, List.map_append,
            List.append_assoc]
          rfl
      · next hu =>
          have hlt : u < 16 := by omega
          rw [Numerals.numeral_of_lt hlt, Nat.mod_eq_of_lt hlt]
          rfl

/-- `num_buffer` holds every decimal number. -/
theorem longlongToString_eq (n : BitVec 64) (flags : Flags) :
    longlongToString n flags =
      some (decDigits flags n, signcharOf flags (isNegative flags n)) := by
  have hlt : magnitude flags n < 10 ^ (30 + 1) :=
    (BitVec.isLt _).trans (by decide)
  have h := decLoop_eq hlt []
  rw [List.append_nil] at h
  show (decLoop (30 + 1) (magnitude flags n) []).bind
    (fun s => some (s, signcharOf flags (isNegative flags n))) = _
  rw [h]
  rfl

/-- `num_buffer` holds every hexadecimal number. -/
theorem longlongToHexstring_eq (u : BitVec 64) (flags : Flags) :
    longlongToHexstring u flags = some (hexDigits flags u) := by
  have hlt : u.toNat < 16 ^ (30 + 1) := u.isLt.trans (by decide)
  have h := hexLoop_eq flags.caps hlt []
  rw [List.append_nil] at h
  exact h

theorem decDigits_short (flags : Flags) (n : BitVec 64) :
    (decDigits flags n).length < 2 ^ 31 := by
  have hlt : magnitude flags n < 10 ^ 20 := (BitVec.isLt _).trans (by decide)
  have := Numerals.numeral_length_le (by decide) (by decide) hlt
  rw [decDigits, List.length_map]
  omega

theorem hexDigits_short (flags : Flags) (u : BitVec 64) :
    (hexDigits flags u).length < 2 ^ 31 := by
  have hlt : u.toNat < 16 ^ 16 := u.isLt
  have := Numerals.numeral_length_le (by decide) (by decide) hlt
  rw [hexDigits, List.length_map]
  omega

/-- A sign chews up one byte of the format size. -/
theorem padCount_eq (c : Byte) (formatNum len : Nat) :
    (if decide (c ≠ 0) = true ∧ formatNum > 0 then formatNum - 1
      else formatNum) - len =
      formatNum - ((if c = 0 then [] else [c]).length + len) := by
  by_cases hc : c = 0
  · simp [hc]
  · have hdec : decide (c ≠ 0) = true := decide_eq_true hc
    rw [if_neg hc, List.length_singleton]
    simp only [hdec, true_and]
    split <;> omega

/-! ## What the directives read -/

theorem vaSlot_eq {st : State} {v : BitVec 64} {args : List Arg}
    (h : st.args = .slot v :: args) :
    vaSlot st = .ok (v, { st with args := args }) := by
  rw [vaSlot, h]

theorem vaString_eq {st : State} {s : Option (List Byte)} {args : List Arg}
    (h : st.args = .string s :: args) :
    vaString st = .ok (s, { st with args := args }) := by
  rw [vaString, h]

/-- A slot is what the directive reads. -/
theorem fits_slot {needed : List Arg}
    (h : List.Forall₂ Fits [Kind.slot] needed) :
    ∃ v, needed = [.slot v] := by
  obtain ⟨a, rest, ha, hrest, rfl⟩ := List.forall₂_cons_left_iff.mp h
  rw [List.forall₂_nil_left_iff] at hrest
  subst hrest
  cases a with
  | slot v => exact ⟨v, rfl⟩
  | string s => exact absurd ha id

/-- A string is what the directive reads. -/
theorem fits_string {needed : List Arg}
    (h : List.Forall₂ Fits [Kind.string] needed) :
    ∃ s, needed = [.string s] := by
  obtain ⟨a, rest, ha, hrest, rfl⟩ := List.forall₂_cons_left_iff.mp h
  rw [List.forall₂_nil_left_iff] at hrest
  subst hrest
  cases a with
  | slot v => exact absurd ha id
  | string s => exact ⟨s, rfl⟩

/-- Nothing is read by `%n`. -/
theorem not_fits_count {needed : List Arg} :
    ¬ List.Forall₂ Fits [Kind.count] needed := by
  intro h
  obtain ⟨a, rest, ha, -, -⟩ := List.forall₂_cons_left_iff.mp h
  cases a <;> exact ha

theorem convert_hex {print : Sink} {st : State} {c : Byte}
    (h : c = ascii 'p' ∨ c = ascii 'X' ∨ c = ascii 'x') :
    convert print c st = convertHex print (st.setSpec (hexSpec c st.spec)) := by
  rcases h with rfl | rfl | rfl <;> rfl

theorem conversionText_hex {c : Byte} {spec : Spec} {arg : Option Arg}
    (h : c = ascii 'p' ∨ c = ascii 'X' ∨ c = ascii 'x') :
    conversionText c spec arg = hexText (hexSpec c spec)
      (unsignedArg (hexSpec c spec).flags (slotOf arg)) := by
  rcases h with rfl | rfl | rfl <;> rfl

/-- A character without a case of its own reads nothing. -/
theorem kindOf_eq_none {c : Byte} (h : kindOf c = none) :
    c ≠ ascii 's' ∧ c ≠ ascii 'n' ∧
      ¬ (c = ascii 'c' ∨ c = ascii 'i' ∨ c = ascii 'd' ∨ c = ascii 'u' ∨
        c = ascii 'p' ∨ c = ascii 'X' ∨ c = ascii 'x') := by
  rw [kindOf] at h
  split at h
  · cases h
  · split at h
    · cases h
    · split at h
      · cases h
      · exact ⟨‹_›, ‹_›, ‹_›⟩

/-- The characters that read a slot. -/
theorem kindOf_eq_slot {c : Byte} (h : kindOf c = some .slot) :
    c = ascii 'c' ∨ (c = ascii 'i' ∨ c = ascii 'd') ∨ c = ascii 'u' ∨
      c = ascii 'p' ∨ c = ascii 'X' ∨ c = ascii 'x' := by
  rw [kindOf] at h
  split at h
  · cases h
  · split at h
    · next hc =>
        rcases hc with hc | hc | hc | hc | hc
        · exact .inl hc
        · exact .inr (.inl (.inl hc))
        · exact .inr (.inl (.inr hc))
        · exact .inr (.inr (.inl hc))
        · exact .inr (.inr (.inr hc))
    · split at h
      · cases h
      · cases h

theorem kindOf_eq_string {c : Byte} (h : kindOf c = some .string) :
    c = ascii 's' := by
  rw [kindOf] at h
  split at h
  · assumption
  · split at h
    · cases h
    · split at h <;> cases h

/-- A conversion that reads nothing prints the same for every argument. -/
theorem conversionText_none {c : Byte} (hkind : kindOf c = none) (spec : Spec)
    (arg arg' : Option Arg) :
    conversionText c spec arg = conversionText c spec arg' := by
  obtain ⟨hs, -, hslot⟩ := kindOf_eq_none hkind
  simp only [not_or] at hslot
  obtain ⟨hc, hi, hd, hu, hp', hX, hx⟩ := hslot
  simp only [conversionText, hs, hc, hi, hd, hu, hp', hX, hx, if_false, or_self]

/-- The conversions that read nothing: `%%` and the unknown ones. -/
theorem convert_none {print : Sink} {st : State} {c : Byte}
    (hkind : kindOf c = none) :
    convert print c st =
      if c = ascii '%' then outputChar print (ascii '%') st
      else outputChar print (ascii '%') st >>= outputChar print c := by
  obtain ⟨hs, hn, hslot⟩ := kindOf_eq_none hkind
  simp only [not_or] at hslot
  obtain ⟨hc, hi, hd, hu, hp', hX, hx⟩ := hslot
  simp only [convert, hc, hs, hi, hd, hu, hp', hX, hx, hn, if_false, or_self]

/-! ## Sinks that count -/

/-- `print` returns the length it is given, where an `int` holds it. -/
def ReturnsLength (print : Sink) : Prop :=
  ∀ calls s, s.length < 2 ^ 31 → print calls s = s.length

/-- From `st` to `st'` the characters `text` have been sent; the format state
    may have changed. -/
structure Sent (st : State) (text : List Byte) (st' : State) : Prop where
  args : st'.args = st.args
  calls : st'.calls.flatten = st.calls.flatten ++ text
  charsWritten : st'.charsWritten ≡ st.charsWritten + text.length [MOD 2 ^ 64]
  err : 0 ≤ st.err → 0 ≤ st'.err

theorem Sent.refl (st : State) : Sent st [] st :=
  ⟨rfl, (List.append_nil _).symm, rfl, id⟩

theorem Sent.trans {st st' st'' : State} {a b : List Byte}
    (h : Sent st a st') (h' : Sent st' b st'') : Sent st (a ++ b) st'' := by
  refine ⟨h'.args.trans h.args, ?_, ?_, fun hst => h'.err (h.err hst)⟩
  · rw [h'.calls, h.calls, List.append_assoc]
  · have hlen : st.charsWritten + (a ++ b).length =
        st.charsWritten + a.length + b.length := by
      rw [List.length_append, Nat.add_assoc]
    rw [hlen]
    exact h'.charsWritten.trans (h.charsWritten.add_right _)

variable {print : Sink} (hp : ReturnsLength print)

include hp

/-- One call of `print`. -/
theorem outputString_sends {s : List Byte} (hs : s.length < 2 ^ 31)
    (st : State) :
    Holds (outputString print s st)
      (fun st' => Sent st s st' ∧ st'.spec = st.spec ∧ st'.err = s.length)
      (fun _ => False) := by
  have herr : print st.calls s = s.length := hp st.calls s hs
  rw [outputString, herr, if_neg (by omega)]
  refine ⟨⟨rfl, ?_, ?_, ?_⟩, rfl, rfl⟩
  · show (st.calls ++ [s]).flatten = _
    rw [List.flatten_append, List.flatten_singleton]
  · exact Nat.mod_modEq _ _
  · intro _
    exact Int.natCast_nonneg _

theorem outputChar_sends (c : Byte) (st : State) :
    Holds (outputChar print c st)
      (fun st' => Sent st [c] st' ∧ st'.spec = st.spec) (fun _ => False) :=
  (outputString_sends hp (show [c].length < 2 ^ 31 by simp) st).imp
    fun _ h => ⟨h.1, h.2.1⟩

theorem outputPad_sends (c : Byte) (count : Nat) (st : State) :
    Holds (outputPad print c count st) (Sent st (List.replicate count c))
      (fun _ => False) := by
  induction count generalizing st with
  | zero => exact Sent.refl st
  | succ count ih =>
      refine (outputChar_sends hp c st).bind ?_
      rintro st' ⟨hsent, -⟩
      refine (ih _).imp fun st'' h => ?_
      exact hsent.trans ⟨h.args, h.calls, h.charsWritten, h.err⟩

/-- `OUTPUT_CHAR` under a condition. -/
theorem outputIf_sends (b : Prop) [Decidable b] (c : Byte) (st : State) :
    Holds (if b then outputChar print c st else .ok st)
      (Sent st (if b then [c] else [])) (fun _ => False) := by
  by_cases hb : b
  · rw [if_pos hb, if_pos hb]
    exact (outputChar_sends hp c st).imp fun _ h => h.1
  · rw [if_neg hb, if_neg hb]
    exact Sent.refl st

/-- **The shared output code** prints the field. -/
theorem outputField_sends {s : List Byte} (hs : s.length < 2 ^ 31)
    (st : State) :
    Holds (outputField print s st) (Sent st (fieldText st.spec s))
      (fun _ => False) := by
  rw [outputField, fieldText]
  split
  · refine (outputString_sends hp hs st).bind ?_
    rintro st' ⟨hsent, -, herr⟩
    have hwritten : (BitVec.ofInt 32 st'.err).toNat = s.length := by
      rw [herr, BitVec.ofInt_natCast, BitVec.toNat_ofNat]
      exact Nat.mod_eq_of_lt (by omega)
    rw [hwritten]
    exact (outputPad_sends hp _ _ st').imp fun _ h => hsent.trans h
  · refine (outputIf_sends hp _ _ _).bind fun st₁ h₁ => ?_
    refine (outputPad_sends hp _ _ st₁).bind fun st₂ h₂ => ?_
    refine (outputIf_sends hp _ _ st₂).bind fun st₃ h₃ => ?_
    refine (outputString_sends hp hs st₃).imp fun st₄ h₄ => ?_
    have h := ((h₁.trans h₂).trans h₃).trans h₄.1
    have hst : Sent st _ st₄ := ⟨h.args, h.calls, h.charsWritten, h.err⟩
    refine (congrArg (Sent st · st₄) ?_).mp hst
    rw [padCount_eq]
    by_cases hsign : st.spec.signchar = 0
    · by_cases hz : st.spec.flags.leadzero <;> simp [hsign, hz]
    · have hdec : decide (st.spec.signchar ≠ 0) = true := decide_eq_true hsign
      rw [if_neg hsign]
      by_cases hz : st.spec.flags.leadzero <;> simp only [hz, hdec] <;> simp

/-- A decimal number, with the format state in which it is printed. -/
theorem outputDecimal_sends (n : BitVec 64) (st : State) :
    Holds (outputDecimal print n st) (Sent st (decimalText st.spec n))
      (fun _ => False) := by
  rw [outputDecimal, longlongToString_eq]
  refine (outputField_sends hp (decDigits_short _ n) _).imp fun st' h => ?_
  exact ⟨h.args, h.calls, h.charsWritten, h.err⟩

/-- The prefix of `#`. -/
theorem outputPrefix_sends (flags : Flags) (st : State) :
    Holds
      (if flags.alt then do
        let st ← outputChar print (ascii '0') st
        outputChar print (if flags.caps then ascii 'X' else ascii 'x') st
      else .ok st)
      (fun st' => Sent st (hexPrefix flags) st' ∧ st'.spec = st.spec)
      (fun _ => False) := by
  by_cases halt : flags.alt
  · rw [if_pos halt, hexPrefix, if_pos halt]
    refine (outputChar_sends hp _ st).bind fun st₁ h₁ => ?_
    refine (outputChar_sends hp _ st₁).imp fun st₂ h₂ => ?_
    exact ⟨h₁.1.trans h₂.1, h₂.2.trans h₁.2⟩
  · rw [if_neg halt, hexPrefix, if_neg halt]
    exact ⟨Sent.refl st, rfl⟩

/-! ## The conversions -/

variable {st : State} {v : BitVec 64} {args : List Arg}

theorem convertString_sends {s : Option (List Byte)}
    (h : st.args = .string s :: args) (hs : Short (.string s)) :
    Holds (convertString print st)
      (Sent { st with args := args }
        (fieldText (st.spec.setFlags fun f => { f with leadzero := false })
          (stringOf (some (.string s)))))
      (fun _ => False) := by
  rw [convertString, vaString_eq h, ok_bind]
  have hs' : (s.getD ("<null>".toList.map ascii)).length < 2 ^ 31 := by
    cases s with
    | none => decide
    | some s => exact hs
  have hof : stringOf (some (.string s)) =
      s.getD ("<null>".toList.map ascii) := by
    cases s <;> rfl
  rw [hof]
  exact (outputField_sends hp hs' _).imp fun st' h =>
    ⟨h.args, h.calls, h.charsWritten, h.err⟩

theorem convertSigned_sends (h : st.args = .slot v :: args) :
    Holds (convertSigned print st)
      (Sent { st with args := args }
        (decimalText (st.spec.setFlags fun f => { f with signed := true })
          (signedArg st.spec.flags v)))
      (fun _ => False) := by
  rw [convertSigned, vaSlot_eq h, ok_bind]
  exact (outputDecimal_sends hp _ _).imp fun st' h =>
    ⟨h.args, h.calls, h.charsWritten, h.err⟩

theorem convertUnsigned_sends (h : st.args = .slot v :: args) :
    Holds (convertUnsigned print st)
      (Sent { st with args := args }
        (decimalText st.spec (unsignedArg st.spec.flags v)))
      (fun _ => False) := by
  rw [convertUnsigned, vaSlot_eq h, ok_bind]
  exact outputDecimal_sends hp _ _

theorem convertHex_sends (h : st.args = .slot v :: args) (spec : Spec) :
    Holds (convertHex print (st.setSpec spec))
      (Sent { st with args := args }
        (hexText spec (unsignedArg spec.flags v)))
      (fun _ => False) := by
  have hset : (st.setSpec spec).args = .slot v :: args := h
  rw [convertHex, vaSlot_eq hset, ok_bind]
  simp only [longlongToHexstring_eq]
  refine (outputPrefix_sends hp _ _).bind ?_
  rintro st' ⟨hsent, hspec⟩
  refine (outputField_sends hp (hexDigits_short _ _) st').imp fun st'' h => ?_
  rw [hspec] at h
  have h := hsent.trans h
  exact ⟨h.args, h.calls, h.charsWritten, h.err⟩

theorem convert_none_sends {c : Byte} (hkind : kindOf c = none)
    (arg : Option Arg) :
    Holds (convert print c st) (Sent st (conversionText c st.spec arg))
      (fun _ => False) := by
  rw [convert_none hkind]
  by_cases hpercent : c = ascii '%'
  · rw [conversionText, if_pos hpercent, if_pos hpercent]
    exact (outputChar_sends hp _ st).imp fun _ h => h.1
  · obtain ⟨hs, hn, hslot⟩ := kindOf_eq_none hkind
    simp only [not_or] at hslot
    obtain ⟨hc, hi, hd, hu, hp', hX, hx⟩ := hslot
    simp only [conversionText, hpercent, hc, hs, hi, hd, hu, hp', hX, hx, hn,
      if_false, or_self]
    refine (outputChar_sends hp _ st).bind fun st₁ h₁ => ?_
    exact (outputChar_sends hp c st₁).imp fun st₂ h₂ => h₁.1.trans h₂.1

/-- The conversions that read a slot. -/
theorem convert_slot_sends {c : Byte} (hkind : kindOf c = some .slot)
    (h : st.args = .slot v :: args) :
    Holds (convert print c st)
      (Sent { st with args := args }
        (conversionText c st.spec (some (.slot v))))
      (fun _ => False) := by
  rcases kindOf_eq_slot hkind with rfl | (rfl | rfl) | rfl | hhex
  · show Holds (vaSlot st >>= fun r => outputChar print (r.1.setWidth 8) r.2)
      (Sent _ [v.setWidth 8]) _
    rw [vaSlot_eq h, ok_bind]
    exact (outputChar_sends hp _ _).imp fun _ h => h.1
  · exact convertSigned_sends hp h
  · exact convertSigned_sends hp h
  · exact convertUnsigned_sends hp h
  · rw [convert_hex hhex, conversionText_hex hhex]
    exact convertHex_sends hp h _

/-- **A conversion** reads the arguments that fit it and prints its text. -/
theorem convert_sends {c : Byte} {needed : List Arg}
    (hfit : List.Forall₂ Fits (kindOf c).toList needed)
    (hshort : ∀ a ∈ needed, Short a) (hargs : st.args = needed ++ args)
    (more : List Arg) :
    Holds (convert print c st)
      (Sent { st with args := args }
        (conversionText c st.spec (needed ++ more).head?))
      (fun _ => False) := by
  cases hkind : kindOf c with
  | none =>
      rw [hkind] at hfit
      obtain rfl : needed = [] := List.forall₂_nil_left_iff.mp hfit
      have hst : { st with args := args } = st := by
        rw [← hargs.trans (List.nil_append _)]
      rw [hst]
      exact convert_none_sends hp hkind _
  | some kind =>
      rw [hkind] at hfit
      cases kind with
      | slot =>
          obtain ⟨v, rfl⟩ := fits_slot hfit
          exact convert_slot_sends hp hkind hargs
      | string =>
          obtain ⟨s, rfl⟩ := fits_string hfit
          obtain rfl := kindOf_eq_string hkind
          exact convertString_sends hp hargs
            (hshort _ (List.mem_singleton_self _))
      | count => exact absurd hfit not_fits_count

end ChinixPrintfFields

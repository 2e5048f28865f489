import Chinix.PrintfDirectives

/-! # Reading a printed number back

    A reader takes the blanks off both ends of a field, then a sign, then for
    a hexadecimal number `0x` or `0X`, and what is left are digits.  It gets
    the argument back, but for two kinds of directives: a negative number in a
    left-justified field has no sign, and a hexadecimal prefix stands in front
    of the blanks of its field. -/

namespace ChinixPrintfNumbers

open Outcome ChinixPrintf ChinixPrintfFields ChinixPrintfComposition
  ChinixPrintfDirectives

/-! ## The reader -/

/-- What a digit is worth in a base. -/
def digitOf (base : Nat) (c : Byte) : Option Nat :=
  let n := c.toNat
  let d :=
    if 0x30 ≤ n ∧ n ≤ 0x39 then some (n - 0x30)
    else if 0x61 ≤ n ∧ n ≤ 0x66 then some (n - 0x61 + 10)
    else if 0x41 ≤ n ∧ n ≤ 0x46 then some (n - 0x41 + 10)
    else none
  d.filter fun d => d < base

/-- A text without the blanks in front. -/
def dropBlanks (s : List Byte) : List Byte := s.dropWhile (· = ascii ' ')

/-- A text without the blanks at its ends. -/
def strip (s : List Byte) : List Byte :=
  (dropBlanks (dropBlanks s).reverse).reverse

/-- A text without `0x` or `0X` in front. -/
def dropPrefix : List Byte → List Byte
  | a :: b :: s =>
      if a = ascii '0' ∧ (b = ascii 'x' ∨ b = ascii 'X') then s else a :: b :: s
  | s => s

/-- The number that a text without a sign stands for. -/
def readUnsigned (base : Nat) (s : List Byte) : Option Nat :=
  Numerals.readNumeral (digitOf base) base
    (if base = 16 then dropPrefix s else s)

/-- The number that a text stands for. -/
def readSigned (base : Nat) : List Byte → Option Int
  | [] => none
  | c :: s =>
      if c = ascii '-' then (readUnsigned base s).map fun n => -(n : Int)
      else if c = ascii '+' then (readUnsigned base s).map Int.ofNat
      else (readUnsigned base (c :: s)).map Int.ofNat

/-- The number that a field stands for. -/
def readBack (base : Nat) (field : List Byte) : Option Int :=
  readSigned base (strip field)

/-! ### Blanks -/

theorem dropBlanks_replicate (i : Nat) (s : List Byte) :
    dropBlanks (List.replicate i (ascii ' ') ++ s) = dropBlanks s := by
  induction i with
  | zero => rfl
  | succ i ih => exact ih

theorem dropBlanks_of_head {s : List Byte}
    (h : ∀ c ∈ s.head?, c ≠ ascii ' ') : dropBlanks s = s := by
  cases s with
  | nil => rfl
  | cons c s =>
      have hc : ¬ decide (c = ascii ' ') = true := by
        rw [decide_eq_true_iff]
        exact h c rfl
      exact List.dropWhile_cons_of_neg hc

/-- The blanks at the ends are stripped, and no more. -/
theorem strip_padded {body : List Byte}
    (hhead : ∀ c ∈ body.head?, c ≠ ascii ' ')
    (hlast : ∀ c ∈ body.getLast?, c ≠ ascii ' ') (hne : body ≠ [])
    (i j : Nat) :
    strip (List.replicate i (ascii ' ') ++ (body ++
      List.replicate j (ascii ' '))) = body := by
  have hfront : ∀ c ∈ (body ++ List.replicate j (ascii ' ')).head?,
      c ≠ ascii ' ' := by
    rw [List.head?_append_of_ne_nil _ hne]
    exact hhead
  have hback : ∀ c ∈ body.reverse.head?, c ≠ ascii ' ' := by
    rw [List.head?_reverse]
    exact hlast
  rw [strip, dropBlanks_replicate, dropBlanks_of_head hfront,
    List.reverse_append, List.reverse_replicate, dropBlanks_replicate,
    dropBlanks_of_head hback, List.reverse_reverse]

/-! ### Digits -/

/-- The text has digits only, and they stand for `n`. -/
def IsNumber (base n : Nat) (s : List Byte) : Prop :=
  Numerals.readNumeral (digitOf base) base s = some n

variable {base n : Nat} {s : List Byte}

theorem IsNumber.ne_nil (h : IsNumber base n s) : s ≠ [] := by
  rintro rfl
  cases h

theorem IsNumber.digit (h : IsNumber base n s) {c : Byte} (hc : c ∈ s) :
    digitOf base c ≠ none := by
  intro hd
  rw [IsNumber, Numerals.readNumeral_eq_none hc hd] at h
  cases h

theorem digitOf_eq_none {c : Byte}
    (h : c = ascii ' ' ∨ c = ascii '-' ∨ c = ascii '+' ∨ c = ascii 'x' ∨
      c = ascii 'X') : digitOf base c = none := by
  rcases h with rfl | rfl | rfl | rfl | rfl <;> rfl

/-- Leading zeros are worth nothing. -/
theorem IsNumber.zeros (h : IsNumber base n s) (hb : 1 < base) (k : Nat) :
    IsNumber base n (List.replicate k (ascii '0') ++ s) := by
  have hzero : digitOf base (ascii '0') = some 0 := by
    show Option.filter (fun d => decide (d < base)) (some 0) = some 0
    rw [Option.filter_some, if_pos (decide_eq_true (by omega))]
  induction k with
  | zero => exact h
  | succ k ih =>
      have hne := ih.ne_nil
      rw [IsNumber, Numerals.readNumeral, if_neg hne] at ih
      rw [IsNumber, Numerals.readNumeral, List.replicate_succ, List.cons_append,
        if_neg (List.cons_ne_nil _ _), Numerals.readDigits, List.foldlM_cons,
        hzero]
      show List.foldlM _ (0 * base + 0) _ = _
      rw [Nat.zero_mul]
      exact ih

theorem isNumber_decDigits (flags : Flags) (v : BitVec 64) :
    IsNumber 10 (magnitude flags v) (decDigits flags v) :=
  Numerals.readNumeral_numeral (by decide) (by decide) _

theorem isNumber_hexDigits (flags : Flags) (u : BitVec 64) :
    IsNumber 16 u.toNat (hexDigits flags u) := by
  refine Numerals.readNumeral_numeral (by decide) ?_ _
  cases flags.caps <;> decide

theorem IsNumber.dropPrefix_eq (h : IsNumber base n s) : dropPrefix s = s := by
  cases s with
  | nil => rfl
  | cons a s =>
      cases s with
      | nil => rfl
      | cons b s =>
          refine if_neg ?_
          rintro ⟨-, hb⟩
          refine h.digit (c := b) (by simp) (digitOf_eq_none ?_)
          exact .inr (.inr (.inr hb))

theorem IsNumber.readUnsigned (h : IsNumber base n s) :
    readUnsigned base s = some n := by
  rw [ChinixPrintfNumbers.readUnsigned, h.dropPrefix_eq, ite_self]
  exact h

theorem IsNumber.readSigned (h : IsNumber base n s) :
    readSigned base s = some (n : Int) := by
  cases s with
  | nil => exact absurd rfl h.ne_nil
  | cons c s =>
      have hdigit := h.digit List.mem_cons_self
      have hminus : c ≠ ascii '-' := fun hc =>
        hdigit (digitOf_eq_none (.inr (.inl hc)))
      have hplus : c ≠ ascii '+' := fun hc =>
        hdigit (digitOf_eq_none (.inr (.inr (.inl hc))))
      rw [ChinixPrintfNumbers.readSigned, if_neg hminus, if_neg hplus,
        h.readUnsigned]
      rfl

theorem IsNumber.not_blank (h : IsNumber base n s) :
    ∀ c ∈ s, c ≠ ascii ' ' :=
  fun _ hc hblank => h.digit hc (digitOf_eq_none (.inl hblank))

/-! ### Fields -/

theorem strip_of_not_blank {body : List Byte}
    (h : ∀ c ∈ body, c ≠ ascii ' ') (hne : body ≠ []) (i j : Nat) :
    strip (List.replicate i (ascii ' ') ++ (body ++
      List.replicate j (ascii ' '))) = body :=
  strip_padded (fun c hc => h c (List.mem_of_mem_head? hc))
    (fun c hc => h c (List.mem_of_mem_getLast? hc)) hne i j

/-- What a sign stands for in front of a number. -/
def signed (signchar : Byte) (n : Nat) : Int :=
  if signchar = ascii '-' then -(n : Int) else n

/-- A sign that `longlong_to_string` stores. -/
def IsSign (c : Byte) : Prop :=
  c = ascii '-' ∨ c = ascii '+' ∨ c = ascii ' ' ∨ c = 0

theorem signcharOf_isSign (flags : Flags) (negative : Bool) :
    IsSign (signcharOf flags negative) := by
  rw [signcharOf]
  split
  · exact .inl rfl
  · split
    · exact .inr (.inl rfl)
    · split
      · exact .inr (.inr (.inl rfl))
      · exact .inr (.inr (.inr rfl))

/-- Blanks, a sign and a number: the blank of `% d` is one more blank. -/
theorem readBack_sign {c : Byte} (hc : IsSign c) (h : IsNumber base n s)
    (i : Nat) :
    readBack base (List.replicate i (ascii ' ') ++
      ((if c = 0 then [] else [c]) ++ s)) = some (signed c n) := by
  have hblank := h.not_blank
  have hstrip : ∀ (i : Nat) (body : List Byte), (∀ b ∈ body, b ≠ ascii ' ') →
      body ≠ [] → strip (List.replicate i (ascii ' ') ++ body) = body := by
    intro i body hbody hne
    have := strip_of_not_blank hbody hne i 0
    rwa [List.replicate_zero, List.append_nil] at this
  have hcons : ∀ b, b ≠ ascii ' ' → ∀ b' ∈ b :: s, b' ≠ ascii ' ' := by
    intro b hb b' hmem
    rcases List.mem_cons.mp hmem with rfl | hmem
    · exact hb
    · exact hblank b' hmem
  rcases hc with rfl | rfl | rfl | rfl
  · show readSigned base (strip (_ ++ (ascii '-' :: s))) = _
    rw [hstrip i _ (hcons _ (by decide)) (List.cons_ne_nil _ _), readSigned,
      if_pos rfl, h.readUnsigned]
    rfl
  · show readSigned base (strip (_ ++ (ascii '+' :: s))) = _
    rw [hstrip i _ (hcons _ (by decide)) (List.cons_ne_nil _ _), readSigned,
      if_neg (by decide), if_pos rfl, h.readUnsigned]
    rfl
  -- the blank that stands for a sign is stripped with the padding
  · show readSigned base (strip (_ ++ ([ascii ' '] ++ s))) = _
    have hmerge : List.replicate i (ascii ' ') ++ ([ascii ' '] ++ s) =
        List.replicate (i + 1) (ascii ' ') ++ s := by
      rw [List.replicate_succ', List.append_assoc]
    rw [hmerge, hstrip (i + 1) s hblank h.ne_nil, h.readSigned]
    rfl
  · show readSigned base (strip (_ ++ s)) = _
    rw [hstrip i s hblank h.ne_nil, h.readSigned]
    rfl

/-- A field that is right-justified shows the sign. -/
theorem readBack_right {spec : Spec} (hleft : spec.flags.leftformat = false)
    (hsign : IsSign spec.signchar) (h : IsNumber base n s) (hb : 1 < base) :
    readBack base (fieldText spec s) = some (signed spec.signchar n) := by
  rw [fieldText, if_neg (by rw [hleft]; exact Bool.false_ne_true)]
  by_cases hz : spec.flags.leadzero
  -- the zeros stand between the sign and the digits
  · rw [if_pos hz, List.append_assoc]
    exact readBack_sign hsign (h.zeros hb _) 0
  · rw [if_neg hz, List.append_assoc]
    exact readBack_sign hsign h _

/-- A field that is left-justified shows no sign. -/
theorem readBack_left {spec : Spec} (hleft : spec.flags.leftformat = true)
    (h : IsNumber base n s) :
    readBack base (fieldText spec s) = some (n : Int) := by
  rw [fieldText, if_pos hleft]
  have hstrip := strip_of_not_blank h.not_blank h.ne_nil 0
    (spec.formatNum - s.length)
  rw [readBack]
  exact (congrArg _ hstrip).trans h.readSigned

/-! ## Decimal numbers -/

/-- The number that a decimal directive is asked to print. -/
def decimalValue (flags : Flags) (v : BitVec 64) : Int :=
  if flags.signed then v.toInt else v.toNat

theorem isNegative_iff (flags : Flags) (v : BitVec 64) :
    isNegative flags v = true ↔ decimalValue flags v < 0 := by
  rw [isNegative, decimalValue, decide_eq_true_iff]
  cases flags.signed with
  | false => simp
  | true => simp

/-- The digits of a negative number are those of its opposite. -/
theorem magnitude_of_neg {flags : Flags} {v : BitVec 64}
    (h : isNegative flags v = true) :
    (magnitude flags v : Int) = -decimalValue flags v := by
  have hsigned : flags.signed = true ∧ v.toInt < 0 := by
    rwa [isNegative, decide_eq_true_iff] at h
  have hcond := BitVec.toInt_eq_toNat_cond v
  have hlt := v.isLt
  rw [magnitude, if_pos h, decimalValue, if_pos hsigned.1, BitVec.toNat_neg]
  rw [hcond] at hsigned ⊢
  split at hsigned
  · omega
  · next hge =>
      rw [if_neg hge, Nat.mod_eq_of_lt (by omega)]
      omega

theorem magnitude_of_nonneg {flags : Flags} {v : BitVec 64}
    (h : isNegative flags v = false) :
    (magnitude flags v : Int) = decimalValue flags v := by
  have hneg : ¬ decimalValue flags v < 0 := by
    rw [← isNegative_iff, h]
    exact Bool.false_ne_true
  rw [magnitude, if_neg (by rw [h]; exact Bool.false_ne_true)]
  rw [decimalValue] at hneg ⊢
  split
  · next hs =>
      rw [if_pos hs] at hneg
      have hcond := BitVec.toInt_eq_toNat_cond v
      have hlt := v.isLt
      rw [hcond] at hneg ⊢
      split at hneg
      · next hsmall => rw [if_pos hsmall]
      · omega
  · rfl

/-- The number printed in base 10 is the absolute value of the argument. -/
theorem magnitude_eq_natAbs (flags : Flags) (n : BitVec 64) :
    magnitude flags n = (decimalValue flags n).natAbs := by
  cases h : isNegative flags n with
  | true =>
      have := magnitude_of_neg h
      omega
  | false =>
      have := magnitude_of_nonneg h
      omega

/-- The sign and the digits are those of the number. -/
theorem signed_magnitude (flags : Flags) (v : BitVec 64) :
    signed (signcharOf flags (isNegative flags v)) (magnitude flags v) =
      decimalValue flags v := by
  cases h : isNegative flags v with
  | true =>
      rw [signcharOf, if_pos rfl, signed, if_pos rfl, magnitude_of_neg h,
        Int.neg_neg]
  | false =>
      have hminus : signcharOf flags false ≠ ascii '-' := by
        rw [signcharOf, if_neg Bool.false_ne_true]
        repeat' split
        all_goals decide
      rw [signed, if_neg hminus, magnitude_of_nonneg h]

/-- **A decimal field** reads back, but for the sign that a left-justified
    field leaves out. -/
theorem readBack_decimalText (spec : Spec) (v : BitVec 64) :
    readBack 10 (decimalText spec v) = some (decimalValue spec.flags v) ↔
      ¬ (spec.flags.leftformat = true ∧ decimalValue spec.flags v < 0) := by
  have hdigits := isNumber_decDigits spec.flags v
  cases hleft : spec.flags.leftformat with
  | false =>
      refine iff_of_true ?_ (fun h => Bool.false_ne_true h.1)
      have hread : readBack 10 (decimalText spec v) =
          some (signed (signcharOf spec.flags (isNegative spec.flags v))
            (magnitude spec.flags v)) :=
        readBack_right hleft (signcharOf_isSign _ _) hdigits (by decide)
      rw [hread, signed_magnitude]
  | true =>
      have hread : readBack 10 (decimalText spec v) =
          some (magnitude spec.flags v : Int) := readBack_left hleft hdigits
      -- without the sign it is the number only if that is not negative
      rw [hread, Option.some_inj, ← isNegative_iff]
      cases hneg : isNegative spec.flags v with
      | false => exact iff_of_true (magnitude_of_nonneg hneg) (by simp)
      | true =>
          refine iff_of_false ?_ (by simp)
          have hlt := (isNegative_iff spec.flags v).mp hneg
          rw [magnitude_of_neg hneg]
          omega

/-! ## Hexadecimal numbers -/

/-- The prefix of `#` is taken off. -/
theorem readSigned_prefix {flags : Flags} (halt : flags.alt = true)
    (s : List Byte) :
    readSigned 16 (hexPrefix flags ++ s) =
      (Numerals.readNumeral (digitOf 16) 16 s).map Int.ofNat := by
  have hx : (if flags.caps then ascii 'X' else ascii 'x') = ascii 'x' ∨
      (if flags.caps then ascii 'X' else ascii 'x') = ascii 'X' := by
    split
    · exact .inr rfl
    · exact .inl rfl
  have hdrop : dropPrefix (hexPrefix flags ++ s) = s := by
    rw [hexPrefix, if_pos halt]
    exact if_pos ⟨rfl, hx⟩
  have hread : readSigned 16 (hexPrefix flags ++ s) =
      (readUnsigned 16 (hexPrefix flags ++ s)).map Int.ofNat := by
    rw [hexPrefix, if_pos halt]
    rfl
  rw [hread, readUnsigned, if_pos rfl, hdrop]

theorem hexPrefix_not_blank (flags : Flags) :
    ∀ c ∈ hexPrefix flags, c ≠ ascii ' ' := by
  intro c hc
  rw [hexPrefix] at hc
  split at hc
  · rcases List.mem_cons.mp hc with rfl | hc
    · decide
    · rw [List.mem_singleton.mp hc]
      split <;> decide
  · cases hc

/-- The prefix and the number behind it. -/
theorem readBack_prefix {flags : Flags} (halt : flags.alt = true)
    (h : IsNumber 16 n s) (j : Nat) :
    readBack 16 (hexPrefix flags ++ (s ++ List.replicate j (ascii ' '))) =
      some (n : Int) := by
  have hblank : ∀ c ∈ hexPrefix flags ++ s, c ≠ ascii ' ' := by
    intro c hc
    rcases List.mem_append.mp hc with hc | hc
    · exact hexPrefix_not_blank flags c hc
    · exact h.not_blank c hc
  have hne : hexPrefix flags ++ s ≠ [] :=
    fun h' => h.ne_nil (List.append_eq_nil_iff.mp h').2
  have hstrip := strip_of_not_blank hblank hne 0 j
  rw [List.replicate_zero, List.nil_append, List.append_assoc] at hstrip
  rw [readBack, hstrip, readSigned_prefix halt]
  rw [IsNumber] at h
  rw [h]
  rfl

/-- A prefix in front of blanks is not a number. -/
theorem readBack_split {flags : Flags} (halt : flags.alt = true)
    (h : IsNumber 16 n s) (k : Nat) :
    readBack 16 (hexPrefix flags ++ (List.replicate (k + 1) (ascii ' ') ++ s)) =
      none := by
  have hhead : ∀ c ∈ (hexPrefix flags ++
      (List.replicate (k + 1) (ascii ' ') ++ s)).head?, c ≠ ascii ' ' := by
    rw [hexPrefix, if_pos halt]
    intro c hc
    cases hc
    decide
  have hlast : ∀ c ∈ (hexPrefix flags ++
      (List.replicate (k + 1) (ascii ' ') ++ s)).getLast?, c ≠ ascii ' ' := by
    rw [← List.append_assoc, List.getLast?_append_of_ne_nil _ h.ne_nil]
    exact fun c hc => h.not_blank c (List.mem_of_mem_getLast? hc)
  have hne : hexPrefix flags ++ (List.replicate (k + 1) (ascii ' ') ++ s) ≠ [] :=
    fun h' => h.ne_nil (List.append_eq_nil_iff.mp
      (List.append_eq_nil_iff.mp h').2).2
  have hstrip := strip_padded hhead hlast hne 0 0
  rw [List.replicate_zero, List.nil_append, List.append_nil] at hstrip
  have hmem : ascii ' ' ∈ List.replicate (k + 1) (ascii ' ') ++ s :=
    List.mem_append_left _ (List.mem_replicate.mpr ⟨by omega, rfl⟩)
  rw [readBack, hstrip, readSigned_prefix halt,
    Numerals.readNumeral_eq_none hmem (digitOf_eq_none (.inl rfl))]
  rfl

/-- **A hexadecimal field** reads back, but for the prefix that stands in
    front of the blanks of its field. -/
theorem readBack_hexText {spec : Spec} (hsign : spec.signchar = 0)
    (u : BitVec 64) :
    readBack 16 (hexText spec u) = some (u.toNat : Int) ↔
      ¬ (spec.flags.alt = true ∧ spec.flags.leftformat = false ∧
        spec.flags.leadzero = false ∧
        Nat.log 16 u.toNat + 1 < spec.formatNum) := by
  have hdigits := isNumber_hexDigits spec.flags u
  have hlen : (hexDigits spec.flags u).length = Nat.log 16 u.toNat + 1 := by
    rw [hexDigits, List.length_map, Numerals.numeral_length (by decide)]
  rw [hexText]
  cases halt : spec.flags.alt with
  | false =>
      refine iff_of_true ?_ (fun h => Bool.false_ne_true h.1)
      have hnone : hexPrefix spec.flags = [] :=
        if_neg (by rw [halt]; exact Bool.false_ne_true)
      rw [hnone, List.nil_append]
      cases hleft : spec.flags.leftformat with
      | true => exact readBack_left hleft hdigits
      | false =>
          have hzero : IsSign spec.signchar := .inr (.inr (.inr hsign))
          rw [readBack_right hleft hzero hdigits (by decide), hsign]
          rfl
  | true =>
      rw [fieldText, if_pos hsign]
      cases hleft : spec.flags.leftformat with
      | true =>
          refine iff_of_true ?_ (fun h => Bool.false_ne_true h.2.1.symm)
          rw [if_pos rfl]
          exact readBack_prefix halt hdigits _
      | false =>
          rw [if_neg Bool.false_ne_true]
          cases hz : spec.flags.leadzero with
          | true =>
              refine iff_of_true ?_ (fun h => Bool.false_ne_true h.2.2.1.symm)
              have hpad := readBack_prefix halt
                (hdigits.zeros (by decide) (spec.formatNum -
                  (([] : List Byte).length + (hexDigits spec.flags u).length))) 0
              rw [List.replicate_zero, List.append_nil] at hpad
              exact hpad
          | false =>
              rw [if_neg Bool.false_ne_true, List.append_nil, List.length_nil,
                Nat.zero_add, hlen]
              by_cases hroom : Nat.log 16 u.toNat + 1 < spec.formatNum
              · refine iff_of_false ?_ (fun h => h ⟨rfl, rfl, rfl, hroom⟩)
                obtain ⟨k, hk⟩ : ∃ k, spec.formatNum -
                    (Nat.log 16 u.toNat + 1) = k + 1 :=
                  ⟨spec.formatNum - (Nat.log 16 u.toNat + 1) - 1, by omega⟩
                rw [hk, readBack_split halt hdigits]
                exact (Option.some_ne_none _).symm
              · refine iff_of_true ?_ (fun h => hroom h.2.2.2)
                have hk : spec.formatNum - (Nat.log 16 u.toNat + 1) = 0 := by
                  omega
                have hpad := readBack_prefix halt hdigits 0
                rw [List.replicate_zero, List.append_nil] at hpad
                rw [hk]
                exact hpad

/-! ## The directives -/

/-- The argument, converted to the type of the directive. -/
def argValue (c : Byte) (spec : Spec) (v : BitVec 64) : Int :=
  if IsSigned c then (signedArg spec.flags v).toInt
  else if IsHex c then (unsignedArg (hexSpec c spec).flags v).toNat
  else (unsignedArg spec.flags v).toNat

/-- The base of a directive. -/
def baseOf (c : Byte) : Nat := if IsHex c then 16 else 10

/-- A negative number in a left-justified field. -/
def LosesSign (c : Byte) (spec : Spec) (v : BitVec 64) : Prop :=
  IsSigned c ∧ spec.flags.leftformat = true ∧ argValue c spec v < 0

/-- A prefix, and blanks between it and the digits. -/
def SplitsPrefix (c : Byte) (spec : Spec) (v : BitVec 64) : Prop :=
  IsHex c ∧ (spec.flags.alt = true ∨ c = ascii 'p') ∧
    spec.flags.leftformat = false ∧ spec.flags.leadzero = false ∧
    Nat.log 16 (argValue c spec v).toNat + 1 < spec.formatNum

theorem hexSpec_keeps (c : Byte) (spec : Spec) :
    (hexSpec c spec).signchar = spec.signchar ∧
      (hexSpec c spec).formatNum = spec.formatNum ∧
      (hexSpec c spec).flags.leftformat = spec.flags.leftformat ∧
      (hexSpec c spec).flags.leadzero = spec.flags.leadzero ∧
      ((hexSpec c spec).flags.alt = true ↔
        spec.flags.alt = true ∨ c = ascii 'p') := by
  rw [hexSpec]
  split
  · next hc => exact ⟨rfl, rfl, rfl, rfl, iff_of_true rfl (.inr hc)⟩
  · next hc =>
      split
      · exact ⟨rfl, rfl, rfl, rfl, (or_iff_left hc).symm⟩
      · exact ⟨rfl, rfl, rfl, rfl, (or_iff_left hc).symm⟩

/-- What the text of a conversion reads back as. -/
theorem readBack_conversionText {c : Byte} (hc : IsNumeric c) {spec : Spec}
    (hsign : spec.signchar = 0) (hsigned : spec.flags.signed = false)
    (v : BitVec 64) :
    readBack (baseOf c) (conversionText c spec (some (.slot v))) =
        some (argValue c spec v) ↔
      ¬ LosesSign c spec v ∧ ¬ SplitsPrefix c spec v := by
  rcases hc with hc | rfl | hc
  · have hsplit : ¬ SplitsPrefix c spec v := fun h => hc.not_isHex h.1
    have hdec := readBack_decimalText
      (spec.setFlags fun f => { f with signed := true })
      (signedArg spec.flags v)
    rw [conversionText_signed hc, baseOf, if_neg hc.not_isHex, argValue,
      if_pos hc, and_iff_left hsplit]
    refine hdec.trans (not_congr ?_)
    rw [LosesSign, argValue, if_pos hc, and_iff_right hc]
    exact Iff.rfl
  · have hdec := readBack_decimalText spec (unsignedArg spec.flags v)
    have hval : decimalValue spec.flags (unsignedArg spec.flags v) =
        (unsignedArg spec.flags v).toNat := by
      rw [decimalValue, hsigned]
      rfl
    rw [hval] at hdec
    refine iff_of_true (hdec.mpr fun h => ?_) ⟨fun h => ?_, fun h => ?_⟩
    · exact absurd h.2 (not_lt.mpr (Int.natCast_nonneg _))
    · exact absurd h.1 (by decide)
    · exact absurd h.1 (by decide)
  · obtain ⟨hs, hf, hl, hz, ha⟩ := hexSpec_keeps c spec
    have hnot : ¬ IsSigned c := fun h => h.not_isHex hc
    have hlose : ¬ LosesSign c spec v := fun h => hnot h.1
    have hhex := readBack_hexText (hs.trans hsign)
      (unsignedArg (hexSpec c spec).flags v)
    rw [hf, hl, hz, ha] at hhex
    rw [conversionText_hex hc, baseOf, if_pos hc, argValue, if_neg hnot,
      if_pos hc, and_iff_right hlose]
    refine hhex.trans (not_congr ?_)
    rw [SplitsPrefix, argValue, if_neg hnot, if_pos hc, and_iff_right hc]
    exact Iff.rfl

/-- **Reading back**: wherever in a format a numeric directive stands, with
    any modifiers and any argument, the field reads back as the argument
    exactly when it is not a negative number in a left-justified field, nor a
    hexadecimal number with blanks behind its prefix. -/
theorem directive_reads_back_iff {print : Sink} (hp : ReturnsLength print)
    {mods : List Byte} (hm : ∀ m ∈ mods, isModifier m = true) {c : Byte}
    (hc : IsNumeric c) {st : State} (hst : st.spec = Spec.reset)
    {v : BitVec 64} {args : List Arg} (hargs : st.args = .slot v :: args) :
    ∃ st' field,
      feed print .directive (mods ++ [c]) st = .ok (.text [], st') ∧
      st'.args = args ∧ st'.calls.flatten = st.calls.flatten ++ field ∧
      (readBack (baseOf c) field = some (argValue c (specOf mods) v) ↔
        ¬ LosesSign c (specOf mods) v ∧ ¬ SplitsPrefix c (specOf mods) v) := by
  have hfit : List.Forall₂ Fits (kindOf c).toList [.slot v] := by
    rw [hc.kind]
    exact .cons trivial .nil
  have hshort : ∀ a ∈ [Arg.slot v], Short a := by
    intro a ha
    rw [List.mem_singleton.mp ha]
    trivial
  obtain ⟨⟨mode, st'⟩, hfeed, hmode, -, hsent⟩ :=
    (feed_directive hp hm hc.not_isModifier hst
      (show st.args = [.slot v] ++ args from hargs) hfit hshort).returns
  obtain rfl : mode = .text [] := hmode
  exact ⟨st', _, hfeed, hsent.args, hsent.calls,
    readBack_conversionText hc (specOf_signchar mods) (specOf_signed mods) v⟩

/-- `"%5d"` with -7 in front of the rest of a format. -/
theorem directive_reads_back_iff_right :
    ∃ st' field,
      feed takeAll .directive (bytes "5" ++ [ascii 'd'])
        (State.init [.slot (-7)]) = .ok (.text [], st') ∧
      st'.args = [] ∧ st'.calls.flatten = [] ++ field ∧
      (readBack (baseOf (ascii 'd')) field =
          some (argValue (ascii 'd') (specOf (bytes "5")) (-7)) ↔
        ¬ LosesSign (ascii 'd') (specOf (bytes "5")) (-7) ∧
          ¬ SplitsPrefix (ascii 'd') (specOf (bytes "5")) (-7)) :=
  directive_reads_back_iff takeAll_returnsLength (by decide) (by decide) rfl rfl

/-- `"%-d"` prints -1 as `1`, and `"%#8x"` prints 31 as `0x      1f`. -/
theorem sign_and_prefix_lost :
    (∃ st, printfDriver takeAll (bytes "%-d" ++ [0]) [.slot (-1)] =
        .ok (1, st) ∧ st.calls.flatten = bytes "1" ∧
      readBack (baseOf (ascii 'd')) st.calls.flatten = some 1 ∧
      argValue (ascii 'd') (specOf (bytes "-")) (-1) = -1) ∧
    ∃ st, printfDriver takeAll (bytes "%#8x" ++ [0]) [.slot 31] =
        .ok (10, st) ∧ st.calls.flatten = bytes "0x      1f" ∧
      readBack (baseOf (ascii 'x')) st.calls.flatten = none ∧
      argValue (ascii 'x') (specOf (bytes "#8")) 31 = 31 :=
  ⟨⟨_, rfl, rfl, rfl, rfl⟩, ⟨_, rfl, rfl, rfl, rfl⟩⟩

end ChinixPrintfNumbers

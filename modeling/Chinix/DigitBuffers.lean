import Chinix.ByteStrings
import Chinix.PrintfNumbers

/-! # The digit buffers of printf (libc/printf.c)

    `longlong_to_string` and `longlong_to_hexstring` as they write: a buffer in
    memory that is filled from its end down, through an index that is counted
    down before each store.  The index is a `size_t`: one step below 0 it is
    2^64 - 1, far outside the buffer. -/

namespace ChinixDigitBuffers

open PageWalk (Mem)
open ByteStrings ChinixPrintf ChinixPrintfFields ChinixPrintfNumbers

/-! ## The functions -/

/-- `--pos`, of a `size_t`. -/
def decrement (pos : Nat) : Nat := (pos + (2 ^ 64 - 1)) % 2 ^ 64

/-- The loop of `longlong_to_string` and the store behind it. -/
def storeDecimal (buf n pos : Nat) (m : Mem) : Nat × Mem :=
  let pos := decrement pos
  if n ≥ 10 then
    storeDecimal buf (n / 10) pos
      (Function.update m (buf + pos) (digitChar (n % 10)))
  else (pos, Function.update m (buf + pos) (digitChar n))
termination_by n
decreasing_by omega

/-- `longlong_to_string`: the pointer it returns, what it stores in
    `signchar`, and the memory. -/
def longlongToStringIn (buf : Nat) (n : BitVec 64) (len : Nat) (flags : Flags)
    (m : Mem) : Nat × Byte × Mem :=
  let negative : Bool := flags.signed ∧ n.toInt < 0
  let n := if negative then -n else n
  let pos := decrement len
  let m := Function.update m (buf + pos) 0
  let (pos, m) := storeDecimal buf n.toNat pos m
  (buf + pos, signcharOf flags negative, m)

/-- The loop of `longlong_to_hexstring`. -/
def storeHexadecimal (caps : Bool) (buf u pos : Nat) (m : Mem) : Nat × Mem :=
  let pos := decrement pos
  let m := Function.update m (buf + pos) (hexChar caps (u % 16))
  if u / 16 ≠ 0 then storeHexadecimal caps buf (u / 16) pos m else (pos, m)
termination_by u
decreasing_by omega

/-- `longlong_to_hexstring`: the pointer it returns, and the memory. -/
def longlongToHexstringIn (buf : Nat) (u : BitVec 64) (len : Nat)
    (flags : Flags) (m : Mem) : Nat × Mem :=
  let pos := decrement len
  let m := Function.update m (buf + pos) 0
  let (pos, m) := storeHexadecimal flags.caps buf u.toNat pos m
  (buf + pos, m)

theorem decrement_succ {pos : Nat} (h : pos < 2 ^ 64) :
    decrement (pos + 1) = pos := by
  rw [decrement]
  omega

/-! ## A buffer that is filled from its end down -/

/-- From `pos` on the buffer holds `digits` and the terminator, and nothing
    outside of it and below `pos` differs from `m`. -/
structure Filled (buf len : Nat) (m : Mem) (pos : Nat) (digits : List Byte)
    (m' : Mem) : Prop where
  bytes : BytesAt m' (buf + pos) (digits ++ [0])
  room : pos + digits.length + 1 = len
  outside : ∀ x, x < buf ∨ buf + len ≤ x → m' x = m x

variable {buf len pos n : Nat} {m m' : Mem} {digits s : List Byte}

theorem filled_nul (m : Mem) (buf : Nat) {len : Nat} (h : len < 2 ^ 64) :
    Filled buf (len + 1) m (decrement (len + 1)) []
      (Function.update m (buf + decrement (len + 1)) 0) := by
  rw [decrement_succ h]
  refine ⟨bytesAt_cons.mpr ⟨Function.update_self .., bytesAt_nil _ _⟩, rfl, ?_⟩
  intro x hx
  exact Function.update_of_ne (by omega) _ _

/-- One more digit. -/
theorem Filled.store (h : Filled buf len m (pos + 1) digits m')
    (hlen : len < 2 ^ 64) (c : Byte) :
    Filled buf len m (decrement (pos + 1)) (c :: digits)
      (Function.update m' (buf + decrement (pos + 1)) c) := by
  have hroom := h.room
  rw [decrement_succ (by omega)]
  refine ⟨?_, ?_, ?_⟩
  · rw [List.cons_append, bytesAt_cons]
    refine ⟨Function.update_self .., h.bytes.congr fun x hlo _ => ?_⟩
    exact Function.update_of_ne (by omega) _ _
  · rw [List.length_cons]
    omega
  · intro x hx
    rw [Function.update_of_ne (by omega), h.outside x hx]

/-- **The loop in the buffer** does what the loop on the digits does. -/
theorem Filled.storeDecimal (h : Filled buf len m pos digits m')
    (hlen : len < 2 ^ 64) (hloop : decLoop pos n digits = some s) :
    ∃ pos' m'', storeDecimal buf n pos m' = (pos', m'') ∧
      Filled buf len m pos' s m'' := by
  induction pos generalizing n digits m' with
  | zero => cases hloop
  | succ pos ih =>
      have hstep := fun c => h.store hlen c
      have hpos : decrement (pos + 1) = pos :=
        decrement_succ (by have := h.room; omega)
      rw [decLoop] at hloop
      rw [ChinixDigitBuffers.storeDecimal]
      simp only [hpos] at hstep ⊢
      by_cases hn : n ≥ 10
      · rw [if_pos hn] at hloop ⊢
        exact ih (hstep _) hloop
      · rw [if_neg hn] at hloop ⊢
        cases hloop
        exact ⟨_, _, rfl, hstep _⟩

theorem Filled.storeHexadecimal {caps : Bool}
    (h : Filled buf len m pos digits m') (hlen : len < 2 ^ 64)
    (hloop : hexLoop caps pos n digits = some s) :
    ∃ pos' m'', storeHexadecimal caps buf n pos m' = (pos', m'') ∧
      Filled buf len m pos' s m'' := by
  induction pos generalizing n digits m' with
  | zero => cases hloop
  | succ pos ih =>
      have hstep := h.store hlen (hexChar caps (n % 16))
      have hpos : decrement (pos + 1) = pos :=
        decrement_succ (by have := h.room; omega)
      rw [hexLoop] at hloop
      rw [ChinixDigitBuffers.storeHexadecimal]
      simp only [hpos] at hstep hloop ⊢
      by_cases hn : n / 16 ≠ 0
      · rw [if_pos hn] at hloop ⊢
        exact ih hstep hloop
      · rw [if_neg hn] at hloop ⊢
        cases hloop
        exact ⟨_, _, rfl, hstep⟩

/-! ## What the functions return -/

/-- **A printed number**: only the buffer of 32 bytes is written, and the
    string at `p` lies in it, has no leading zero to spare, and reads back. -/
structure Prints (base n buf : Nat) (m m' : Mem) (p : Nat) : Prop where
  outside : ∀ x, x < buf ∨ buf + 32 ≤ x → m' x = m x
  string : ∃ s, StringAt m' p s ∧ buf ≤ p ∧ p + s.length < buf + 32 ∧
    (s.head? = some (ascii '0') → s.length = 1) ∧ IsNumber base n s

/-- A digit's character is neither NUL nor, but for the digit 0, a zero. -/
def IsDigitChar (base : Nat) (write : Nat → Byte) : Prop :=
  ∀ d, d < base → write d ≠ 0 ∧ (write d = ascii '0' → d = 0)

theorem Filled.prints {base : Nat} {write : Nat → Byte} (hb : 1 < base)
    (hwrite : IsDigitChar base write)
    (h : Filled buf 32 m pos ((Numerals.numeral base n).map write) m')
    (hnumber : IsNumber base n ((Numerals.numeral base n).map write)) :
    Prints base n buf m m' (buf + pos) := by
  have hroom := h.room
  refine ⟨h.outside, _, stringAt_iff.mpr ⟨h.bytes, ?_⟩, by omega, by omega,
    ?_, hnumber⟩
  · intro hzero
    obtain ⟨d, hd, hd0⟩ := List.mem_map.mp hzero
    exact (hwrite d (Numerals.lt_of_mem_numeral hb hd)).1 hd0
  · intro hhead
    rw [List.head?_map, Option.map_eq_some_iff] at hhead
    obtain ⟨d, hd, hd0⟩ := hhead
    have hlt := Numerals.lt_of_mem_numeral hb (List.mem_of_head? hd)
    rw [(hwrite d hlt).2 hd0] at hd
    rw [Numerals.eq_zero_of_head?_numeral hd]
    rfl

theorem isDigitChar_digitChar : IsDigitChar 10 digitChar := by
  unfold IsDigitChar
  decide

theorem isDigitChar_hexChar (caps : Bool) : IsDigitChar 16 (hexChar caps) := by
  unfold IsDigitChar
  cases caps <;> decide

theorem longlongToStringIn_prints (buf : Nat) (n : BitVec 64) (flags : Flags)
    (m : Mem) :
    let r := longlongToStringIn buf n 32 flags m
    Prints 10 (magnitude flags n) buf m r.2.2 r.1 ∧
      r.2.1 = signcharOf flags (isNegative flags n) := by
  have hloop : decLoop 31 (magnitude flags n) [] = some (decDigits flags n) := by
    have hlt : magnitude flags n < 10 ^ (30 + 1) :=
      (BitVec.isLt _).trans (by decide)
    rw [decLoop_eq hlt, List.append_nil, decDigits]
  obtain ⟨pos, m', hstore, hfilled⟩ :=
    (filled_nul m buf (by decide : 31 < 2 ^ 64)).storeDecimal (by decide) hloop
  have hr : longlongToStringIn buf n 32 flags m =
      (buf + pos, signcharOf flags (isNegative flags n), m') := by
    show (buf + (storeDecimal buf (magnitude flags n) _ _).1, _,
      (storeDecimal buf (magnitude flags n) _ _).2) = _
    rw [hstore]
    rfl
  rw [hr]
  exact ⟨hfilled.prints (by decide) isDigitChar_digitChar
    (isNumber_decDigits flags n), rfl⟩

theorem longlongToHexstringIn_prints (buf : Nat) (u : BitVec 64)
    (flags : Flags) (m : Mem) :
    let r := longlongToHexstringIn buf u 32 flags m
    Prints 16 u.toNat buf m r.2 r.1 := by
  have hloop : hexLoop flags.caps 31 u.toNat [] = some (hexDigits flags u) :=
    longlongToHexstring_eq u flags
  obtain ⟨pos, m', hstore, hfilled⟩ :=
    (filled_nul m buf (by decide : 31 < 2 ^ 64)).storeHexadecimal (by decide)
      hloop
  have hr : longlongToHexstringIn buf u 32 flags m = (buf + pos, m') := by
    show (buf + (storeHexadecimal flags.caps buf u.toNat _ _).1,
      (storeHexadecimal flags.caps buf u.toNat _ _).2) = _
    rw [hstore]
  rw [hr]
  exact hfilled.prints (by decide) (isDigitChar_hexChar flags.caps)
    (isNumber_hexDigits flags u)

theorem signcharOf_eq_minus (flags : Flags) (negative : Bool) :
    signcharOf flags negative = ascii '-' ↔ negative = true := by
  rw [signcharOf]
  cases negative with
  | true => simp
  | false =>
      rw [if_neg Bool.false_ne_true]
      refine iff_of_false ?_ Bool.false_ne_true
      repeat' split
      all_goals decide

/-- **Both functions, on every number and with every flag**: `n` is printed as
    it is or, when it is to be taken as signed, as its absolute value, and the
    sign is a minus for the negative numbers. -/
theorem digitBuffers_print (buf : Nat) (n : BitVec 64) (flags : Flags)
    (m : Mem) :
    (let r := longlongToStringIn buf n 32 flags m
     Prints 10 (if flags.signed then n.toInt.natAbs else n.toNat) buf m
        r.2.2 r.1 ∧
      (r.2.1 = ascii '-' ↔ flags.signed = true ∧ n.toInt < 0)) ∧
    (let r := longlongToHexstringIn buf n 32 flags m
     Prints 16 n.toNat buf m r.2 r.1) := by
  refine ⟨?_, longlongToHexstringIn_prints buf n flags m⟩
  obtain ⟨hprints, hsign⟩ := longlongToStringIn_prints buf n flags m
  have hvalue : magnitude flags n =
      if flags.signed then n.toInt.natAbs else n.toNat := by
    rw [magnitude_eq_natAbs, decimalValue]
    split <;> rfl
  rw [hvalue] at hprints
  refine ⟨hprints, ?_⟩
  rw [hsign, signcharOf_eq_minus, isNegative, decide_eq_true_iff]

end ChinixDigitBuffers

import Mathlib.Data.Nat.Digits.Lemmas

/-! # Numerals

    A number written in a base `b`, its first digit first: the remainders of
    the repeated division come out in the opposite order, and zero is one
    digit.  What is said here: how long a numeral is, that its last digit
    comes off by a division, and that it reads back. -/

namespace Numerals

variable {C : Type}

/-- The digits of a number, the first one first; zero is one digit. -/
def numeral (b n : Nat) : List Nat :=
  if n = 0 then [0] else (Nat.digits b n).reverse

theorem numeral_of_lt {b n : Nat} (h : n < b) : numeral b n = [n] := by
  rw [numeral]
  split
  · next h0 => rw [h0]
  · next h0 => rw [Nat.digits_of_lt b n h0 h, List.reverse_singleton]

/-- The last digit comes off by a division. -/
theorem numeral_of_ge {b n : Nat} (hb : 1 < b) (h : b ≤ n) :
    numeral b n = numeral b (n / b) ++ [n % b] := by
  have hn : n ≠ 0 := by omega
  have hq : n / b ≠ 0 := (Nat.div_pos h (by omega)).ne'
  rw [numeral, if_neg hn, numeral, if_neg hq,
    Nat.digits_def' hb (Nat.pos_of_ne_zero hn), List.reverse_cons]

/-- An induction along the digits. -/
theorem numeral_induction {b : Nat} (hb : 1 < b) {P : Nat → Prop}
    (last : ∀ n, n < b → P n) (step : ∀ n, b ≤ n → P (n / b) → P n) (n : Nat) :
    P n := by
  induction n using Nat.strongRecOn with
  | ind n ih =>
      rcases Nat.lt_or_ge n b with h | h
      · exact last n h
      · exact step n h (ih _ (Nat.div_lt_self (by omega) hb))

theorem numeral_length {b : Nat} (hb : 1 < b) (n : Nat) :
    (numeral b n).length = Nat.log b n + 1 := by
  induction n using numeral_induction hb with
  | last n h => rw [numeral_of_lt h, Nat.log_of_lt h]; rfl
  | step n h ih =>
      rw [numeral_of_ge hb h, List.length_append, ih,
        Nat.log_of_one_lt_of_le hb h]
      rfl

/-- A number below `b ^ k` has at most `k` digits. -/
theorem numeral_length_le {b k : Nat} (hb : 1 < b) (hk : 0 < k) {n : Nat}
    (h : n < b ^ k) : (numeral b n).length ≤ k := by
  rw [numeral_length hb]
  exact Nat.log_lt_of_lt_pow' (by omega) h

theorem lt_of_mem_numeral {b n d : Nat} (hb : 1 < b)
    (h : d ∈ numeral b n) : d < b := by
  rw [numeral] at h
  split at h
  · rw [List.mem_singleton.mp h]
    omega
  · exact Nat.digits_lt_base hb (List.mem_reverse.mp h)

/-- No numeral but that of zero begins with a zero. -/
theorem eq_zero_of_head?_numeral {b n : Nat}
    (h : (numeral b n).head? = some 0) : n = 0 := by
  by_contra hn
  have hne : Nat.digits b n ≠ [] := Nat.digits_ne_nil_iff_ne_zero.mpr hn
  rw [numeral, if_neg hn, List.head?_reverse,
    List.getLast?_eq_some_getLast hne] at h
  exact Nat.getLast_digit_ne_zero b hn (Option.some.inj h)

/-! ## Reading -/

/-- The number that a text stands for; `digit` tells what a character is
    worth. -/
def readDigits (digit : C → Option Nat) (b : Nat) (s : List C) : Option Nat :=
  s.foldlM (fun n c => (digit c).map fun d => n * b + d) 0

/-- A text with at least one character. -/
def readNumeral (digit : C → Option Nat) (b : Nat) (s : List C) : Option Nat :=
  if s = [] then none else readDigits digit b s

/-- **Reading back**: the written digits give the number. -/
theorem readDigits_numeral {digit : C → Option Nat} {write : Nat → C} {b : Nat}
    (hb : 1 < b) (hd : ∀ d, d < b → digit (write d) = some d) (n : Nat) :
    readDigits digit b ((numeral b n).map write) = some n := by
  induction n using numeral_induction hb with
  | last n h =>
      rw [numeral_of_lt h]
      simp [readDigits, hd n h]
  | step n h ih =>
      rw [readDigits] at ih
      have hmod : digit (write (n % b)) = some (n % b) :=
        hd _ (Nat.mod_lt _ (by omega))
      rw [numeral_of_ge hb h, readDigits, List.map_append, List.foldlM_append,
        ih]
      have hdiv : n / b * b + n % b = n := Nat.div_add_mod' n b
      simp [hmod, hdiv]

theorem numeral_ne_nil (b n : Nat) (hb : 1 < b) : numeral b n ≠ [] := by
  intro h
  have := numeral_length hb n
  rw [h] at this
  cases this

theorem readNumeral_numeral {digit : C → Option Nat} {write : Nat → C}
    {b : Nat} (hb : 1 < b) (hd : ∀ d, d < b → digit (write d) = some d)
    (n : Nat) :
    readNumeral digit b ((numeral b n).map write) = some n := by
  have hne : (numeral b n).map write ≠ [] := by
    rw [Ne, List.map_eq_nil_iff]
    exact numeral_ne_nil b n hb
  rw [readNumeral, if_neg hne]
  exact readDigits_numeral hb hd n

/-- A text with a character that is no digit is not a number. -/
theorem readDigits_eq_none {digit : C → Option Nat} {b : Nat} {s : List C}
    {c : C} (hc : c ∈ s) (hd : digit c = none) : readDigits digit b s = none := by
  rw [readDigits]
  generalize 0 = n
  induction s generalizing n with
  | nil => cases hc
  | cons a s ih =>
      rw [List.foldlM_cons]
      rcases List.mem_cons.mp hc with rfl | hc
      · simp [hd]
      · cases digit a with
        | none => rfl
        | some d => exact ih hc _

theorem readNumeral_eq_none {digit : C → Option Nat} {b : Nat} {s : List C}
    {c : C} (hc : c ∈ s) (hd : digit c = none) :
    readNumeral digit b s = none := by
  rw [readNumeral, readDigits_eq_none hc hd, ite_self]

end Numerals

import Mathlib.Data.BitVec
import Mathlib.Logic.Function.Iterate

/-! # Loops that count a register down

    `loop` takes one off a register and goes back to the start of the body
    unless the register is zero then.  The machine is any type of states with
    a register of `w` bits; a round is the body together with the count.  The
    rules: a loop makes as many rounds as the register says, zero standing for
    the `2 ^ w` rounds that it takes to come back to zero, and an invariant
    that each round takes from `k` to `k + 1` holds of their number at the
    end. -/

namespace LoopInstruction

variable {S : Type} {w : Nat} {counter : S → BitVec w} {round : S → S}

/-- The loop; `none` when the fuel does not suffice. -/
def loopDown (counter : S → BitVec w) (round : S → S) : Nat → S → Option S
  | 0, _ => none
  | fuel + 1, s =>
      let s := round s
      if counter s = 0 then some s else loopDown counter round fuel s

/-- How many rounds a loop makes that is entered with `n`. -/
def trips (n : BitVec w) : Nat := if n = 0 then 2 ^ w else n.toNat

theorem trips_of_pos {n : BitVec w} (h : 0 < n.toNat) : trips n = n.toNat := by
  refine if_neg fun h0 => ?_
  rw [h0] at h
  exact absurd h (Nat.lt_irrefl 0)

/-- The last round. -/
theorem trips_of_sub_eq_zero {n : BitVec w} (h : n - 1 = 0) : trips n = 1 := by
  have hn : n = 1 := by
    rw [← BitVec.sub_add_cancel n 1, h]
    exact BitVec.zero_add 1
  subst hn
  rw [trips]
  rcases Nat.eq_zero_or_pos w with rfl | hw
  · rfl
  · have hone : (1 : BitVec w).toNat = 1 := BitVec.toNat_one hw
    rw [if_neg, hone]
    intro h0
    rw [h0] at hone
    exact absurd hone (by simp)

/-- A round that is not the last. -/
theorem trips_of_sub_ne_zero {n : BitVec w} (h : n - 1 ≠ 0) :
    trips n = trips (n - 1) + 1 := by
  have hlt := n.isLt
  have hw : 0 < w := by
    refine Nat.pos_of_ne_zero ?_
    rintro rfl
    exact h (Subsingleton.elim _ _)
  have hpow : 1 < 2 ^ w := Nat.one_lt_two_pow hw.ne'
  have hone : (1 : BitVec w).toNat = 1 := BitVec.toNat_one hw
  rw [trips, trips, if_neg h, BitVec.toNat_sub, hone]
  by_cases h0 : n = 0
  · subst h0
    rw [if_pos rfl]
    have hzero : (0 : BitVec w).toNat = 0 := by simp
    rw [hzero, Nat.mod_eq_of_lt (by omega)]
    omega
  · rw [if_neg h0]
    have hpos : 0 < n.toNat := by
      refine Nat.pos_of_ne_zero fun hz => h0 (BitVec.eq_of_toNat_eq ?_)
      rw [hz]
      simp
    rw [Nat.mod_eq_sub_mod (by omega), Nat.mod_eq_of_lt (by omega)]
    omega

/-- **The loop is its rounds.** -/
theorem loopDown_eq (hcount : ∀ s, counter (round s) = counter s - 1)
    {fuel : Nat} {s : S} (hfuel : trips (counter s) ≤ fuel) :
    loopDown counter round fuel s
      = some (Nat.iterate round (trips (counter s)) s) := by
  induction fuel generalizing s with
  | zero =>
      rw [trips] at hfuel
      split_ifs at hfuel with h0
      · exact absurd hfuel (Nat.not_le.mpr (Nat.two_pow_pos w))
      · exact absurd (BitVec.eq_of_toNat_eq (by simpa using hfuel)) h0
  | succ fuel ih =>
      show (if counter (round s) = 0 then some (round s)
        else loopDown counter round fuel (round s)) = _
      by_cases h : counter s - 1 = 0
      · rw [if_pos ((hcount s).trans h), trips_of_sub_eq_zero h]
        rfl
      · have htrips := trips_of_sub_ne_zero h
        rw [if_neg fun h0 => h ((hcount s).symm.trans h0), htrips]
        rw [ih (by rw [hcount]; omega), hcount]
        rfl

variable (counter round) in
/-- **The rule of the loop.** -/
theorem loopDown_rule (hcount : ∀ s, counter (round s) = counter s - 1)
    {P : Nat → S → Prop} {n fuel : Nat} {s : S}
    (hn : trips (counter s) = n) (hfuel : n ≤ fuel) (h0 : P 0 s)
    (hround : ∀ k s, k < n → P k s → P (k + 1) (round s)) :
    ∃ s', loopDown counter round fuel s = some s' ∧ P n s' := by
  have hrounds : ∀ k ≤ n, P k (Nat.iterate round k s) := by
    intro k
    induction k with
    | zero => exact fun _ => h0
    | succ k ih =>
        intro hk
        rw [Function.iterate_succ_apply']
        exact hround k _ hk (ih (Nat.le_of_lt hk))
  refine ⟨_, loopDown_eq hcount (by rw [hn]; exact hfuel), ?_⟩
  rw [hn]
  exact hrounds n (Nat.le_refl n)

end LoopInstruction

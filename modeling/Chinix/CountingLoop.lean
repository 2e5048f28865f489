import Mathlib.Logic.Basic

/-! # Counting loops

    `for (i = lo; i <= hi; i++) body` on an explicit state.  The rules: the
    loop whose bounds have crossed does nothing, a loop is its last round
    after the rest of it, and what every round takes from `i` to `i + 1` the
    loop takes from `lo` to `hi + 1`. -/

namespace CountingLoop

variable {S : Type}

/-- `for (i = lo; i <= hi; i++)`. -/
def forTo (lo hi : Int) (body : Int → S → S) (s : S) : S :=
  (List.range (hi + 1 - lo).toNat).foldl (fun s (i : Nat) => body (lo + i) s) s

variable {lo hi : Int} {body : Int → S → S} {s : S}

theorem forTo_of_lt (h : hi < lo) : forTo lo hi body s = s := by
  have hzero : (hi + 1 - lo).toNat = 0 := by omega
  rw [forTo, hzero]
  rfl

/-- The last round. -/
theorem forTo_succ (h : lo ≤ hi + 1) :
    forTo lo (hi + 1) body s = body (hi + 1) (forTo lo hi body s) := by
  have hone : (hi + 1 + 1 - lo).toNat = (hi + 1 - lo).toNat + 1 := by omega
  have hlast : lo + ((hi + 1 - lo).toNat : Int) = hi + 1 := by omega
  rw [forTo, hone, List.range_succ, List.foldl_append]
  show body (lo + ((hi + 1 - lo).toNat : Int)) _ = _
  rw [hlast]
  rfl

/-- **The loop rule.** -/
theorem forTo_rule (lo hi : Int) (body : Int → S → S) (s : S)
    {I : Int → S → Prop} (h : lo ≤ hi + 1) (h0 : I lo s)
    (hbody : ∀ i s, lo ≤ i → i ≤ hi → I i s → I (i + 1) (body i s)) :
    I (hi + 1) (forTo lo hi body s) := by
  obtain ⟨n, rfl⟩ : ∃ n : Nat, hi = lo + n - 1 :=
    ⟨(hi + 1 - lo).toNat, by omega⟩
  clear h
  induction n with
  | zero =>
      rw [forTo_of_lt (by omega)]
      simpa using h0
  | succ n ih =>
      have hprev : I (lo + n - 1 + 1) (forTo lo (lo + n - 1) body s) :=
        ih fun i s hlo hhi => hbody i s hlo (by omega)
      have hnext : lo + ((n + 1 : Nat) : Int) - 1 = lo + n - 1 + 1 := by omega
      rw [hnext, forTo_succ (by omega)]
      exact hbody _ _ (by omega) (by omega) hprev

/-- What every round keeps, the loop keeps. -/
theorem forTo_keeps {I : S → Prop} (h0 : I s)
    (hbody : ∀ i s, lo ≤ i → i ≤ hi → I s → I (body i s)) :
    I (forTo lo hi body s) := by
  by_cases h : lo ≤ hi + 1
  · exact forTo_rule lo hi body s (I := fun _ => I) h h0 hbody
  · rw [forTo_of_lt (by omega)]
    exact h0

end CountingLoop

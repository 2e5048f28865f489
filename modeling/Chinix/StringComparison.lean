import Chinix.StringFunctions

/-! # Comparing strings (libc/string.c)

    The loop of `strcmp` ends at the first place where the characters are
    *equal*, or where the first string ends.  So it gives 0 for strings that
    begin with the same character, and reads on behind a second string that is
    shorter than the first and differs from it everywhere. -/

namespace ChinixStringComparison

open PageWalk (Mem)
open ByteStrings ChinixStringFunctions

/-! ## The order of strings -/

/-- The sign of the lexicographic comparison: at the first difference, where
    the end of a string comes before every character. -/
def lexSign : List (BitVec 8) → List (BitVec 8) → Int
  | [], [] => 0
  | [], _ :: _ => -1
  | _ :: _, [] => 1
  | c :: s, d :: t => if d < c then 1 else if c < d then -1 else lexSign s t

variable {m : Mem} {stra strb : Nat} {s t : List (BitVec 8)}

theorem lexSign_self (s : List (BitVec 8)) : lexSign s s = 0 := by
  induction s with
  | nil => rfl
  | cons c s ih =>
      rw [lexSign, if_neg (BitVec.lt_irrefl c), if_neg (BitVec.lt_irrefl c), ih]

/-- `memcmp` up to the shorter one's terminator is the lexicographic
    comparison. -/
theorem memcmp_eq_lexSign (hs : StringAt m stra s) (ht : StringAt m strb t) :
    memcmp m (min s.length t.length + 1) stra strb = lexSign s t := by
  induction s generalizing stra strb t with
  | nil =>
      have hnul := stringAt_nil.mp hs
      cases t with
      | nil =>
          have hnul' := stringAt_nil.mp ht
          simp [memcmp, hnul, hnul', lexSign]
      | cons d t =>
          obtain ⟨hd, hmem, -⟩ := stringAt_cons.mp ht
          have hd' : ¬ d = 0#8 := hd
          simp [memcmp, hnul, hmem, lexSign, hd']
  | cons c s ih =>
      obtain ⟨hc, hmem, hrest⟩ := stringAt_cons.mp hs
      cases t with
      | nil =>
          have hnul' := stringAt_nil.mp ht
          have hc' : ¬ c = 0#8 := hc
          simp [memcmp, hnul', hmem, lexSign, hc']
      | cons d t =>
          obtain ⟨hd, hmem', hrest'⟩ := stringAt_cons.mp ht
          rw [List.length_cons, List.length_cons, Nat.add_min_add_right,
            memcmp, hmem, hmem', ih hrest hrest']
          rfl

/-! ## What `strcmp` does -/

/-- The loop ends behind `k` characters: they all differ, and then the first
    string ends or two characters are equal. -/
structure StopsAt (m : Mem) (stra strb n k : Nat) : Prop where
  le : k ≤ n
  differ : ∀ i < k, m (stra + i) ≠ m (strb + i)
  stop : k = n ∨ m (stra + k) = m (strb + k)

theorem toInt_sub_eq_zero {x y : BitVec 8} : x.toInt - y.toInt = 0 ↔ x = y := by
  rw [Int.sub_eq_zero, BitVec.toInt_inj]

/-- **The loop of `strcmp`** ends at the latest where the first string does,
    whatever is behind the second one. -/
theorem strcmpLoop_eq (hs : StringAt m stra s) (strb : Nat) :
    ∃ k, StopsAt m stra strb s.length k ∧
      ∀ fuel readsA readsB, k < fuel →
        strcmpLoop m fuel stra strb readsA readsB =
          some ⟨(m (stra + k)).toInt - (m (strb + k)).toInt,
            readsA ++ List.range' stra (k + 1),
            readsB ++ List.range' strb (k + 1)⟩ := by
  induction s generalizing stra strb with
  | nil =>
      refine ⟨0, ⟨Nat.le_refl 0, by simp, .inl rfl⟩, ?_⟩
      intro fuel readsA readsB hfuel
      cases fuel with
      | zero => exact absurd hfuel (Nat.lt_irrefl 0)
      | succ fuel =>
          rw [strcmpLoop, if_pos (.inr (stringAt_nil.mp hs))]
          rfl
  | cons c s ih =>
      obtain ⟨hc, hmem, hrest⟩ := stringAt_cons.mp hs
      by_cases heq : m stra = m strb
      · refine ⟨0, ⟨Nat.zero_le _, by simp, .inr heq⟩, ?_⟩
        intro fuel readsA readsB hfuel
        cases fuel with
        | zero => exact absurd hfuel (Nat.lt_irrefl 0)
        | succ fuel =>
            rw [strcmpLoop, if_pos (.inl (toInt_sub_eq_zero.mpr heq))]
            rfl
      · -- one round, and the rest of the strings
        obtain ⟨k, hk, hloop⟩ := ih hrest (strb + 1)
        refine ⟨k + 1, ⟨Nat.succ_le_succ hk.le, ?_, ?_⟩, ?_⟩
        · intro i hi
          cases i with
          | zero => exact heq
          | succ i =>
              have hdiffer := hk.differ i (Nat.lt_of_succ_lt_succ hi)
              rwa [Nat.add_right_comm, Nat.add_right_comm strb] at hdiffer
        · have hstop := hk.stop
          rw [Nat.add_right_comm, Nat.add_right_comm strb] at hstop
          exact hstop.imp_left (congrArg (· + 1))
        · intro fuel readsA readsB hfuel
          cases fuel with
          | zero => exact absurd hfuel (Nat.not_lt_zero _)
          | succ fuel =>
              have hgo : ¬ ((m stra).toInt - (m strb).toInt = 0 ∨
                  m stra = 0) := by
                rw [toInt_sub_eq_zero, hmem, not_or]
                exact ⟨hmem ▸ heq, hc⟩
              rw [strcmpLoop, if_neg hgo,
                hloop fuel _ _ (Nat.lt_of_succ_lt_succ hfuel),
                List.append_assoc, List.append_assoc, Nat.add_right_comm,
                Nat.add_right_comm strb]
              rfl

/-- **Comparing strings**: `strcmp` returns, reads no further than the
    terminators, gives the lexicographic order, 0 for equal strings only, and
    the sign that `memcmp` gives. -/
structure Compares (m : Mem) (stra strb : Nat) (s t : List (BitVec 8))
    (r : Comparison) : Prop where
  returns : ∃ bound, ∀ fuel, bound ≤ fuel → strcmp fuel stra strb m = some r
  readsA : ∀ x ∈ r.readsA, stra ≤ x ∧ x ≤ stra + s.length
  readsB : ∀ x ∈ r.readsB, strb ≤ x ∧ x ≤ strb + t.length
  sign : r.ret.sign = lexSign s t
  zero : r.ret = 0 ↔ s = t
  memcmp : r.ret.sign =
    (memcmp m (min s.length t.length + 1) stra strb).sign

/-- The strings are equal, or the first is shorter, differs from the second at
    every place and begins with a smaller character. -/
def EqualOrApart (s t : List (BitVec 8)) : Prop :=
  s = t ∨ s.length < t.length ∧ (∀ i < s.length, s[i]? ≠ t[i]?) ∧
    ∀ c d, s.head? = some c → t.head? = some d → c < d

/-- What `strcmp` returns. -/
theorem strcmp_eq (hs : StringAt m stra s) (strb : Nat) :
    ∃ k, StopsAt m stra strb s.length k ∧
      ∀ fuel, k < fuel → strcmp fuel stra strb m =
        some ⟨(m (stra + k)).toInt - (m (strb + k)).toInt,
          List.range' stra (k + 1), List.range' strb (k + 1)⟩ := by
  obtain ⟨k, hk, hloop⟩ := strcmpLoop_eq hs strb
  exact ⟨k, hk, fun fuel hfuel => hloop fuel [] [] hfuel⟩

/-- A 7-bit character is positive. -/
theorem toInt_pos {c : BitVec 8} (hc : c ≠ 0) (h7 : c.toNat < 128) :
    0 < c.toInt := by
  have hne : c.toNat ≠ 0 := fun h0 => hc (BitVec.eq_of_toNat_eq h0)
  rw [BitVec.toInt_eq_toNat_cond, if_pos (by omega)]
  omega

theorem sign_lexSign (s t : List (BitVec 8)) :
    (lexSign s t).sign = lexSign s t := by
  fun_induction lexSign s t with
  | case1 => rfl
  | case2 => rfl
  | case3 => rfl
  | case4 => rfl
  | case5 => rfl
  | case6 c s d t hlt hgt ih => exact ih

theorem lexSign_of_lt (hlen : s.length < t.length)
    (hfirst : ∀ c d, s.head? = some c → t.head? = some d → c < d) :
    lexSign s t = -1 := by
  cases t with
  | nil => exact absurd hlen (Nat.not_lt_zero _)
  | cons d t =>
      cases s with
      | nil => rfl
      | cons c s =>
          have hlt := hfirst c d rfl rfl
          rw [lexSign, if_neg (BitVec.not_lt.mpr (BitVec.le_of_lt hlt)),
            if_pos hlt]

theorem lt_of_lexSign_neg {c d : BitVec 8} (hne : c ≠ d)
    (h : lexSign (c :: s) (d :: t) = -1) : c < d := by
  rw [lexSign] at h
  split at h
  · cases h
  · bv_omega

/-- A loop that ends before the second string does, with the right sign. -/
theorem compares_of_stop (hs : StringAt m stra s) (ht : StringAt m strb t)
    {k : Nat} (hk : StopsAt m stra strb s.length k) (hle : k ≤ t.length)
    (hrun : ∀ fuel, k < fuel → strcmp fuel stra strb m =
      some ⟨(m (stra + k)).toInt - (m (strb + k)).toInt,
        List.range' stra (k + 1), List.range' strb (k + 1)⟩)
    (hsign : ((m (stra + k)).toInt - (m (strb + k)).toInt).sign = lexSign s t)
    (hzero : m (stra + k) = m (strb + k) ↔ s = t) :
    ∃ r, Compares m stra strb s t r := by
  refine ⟨_, ⟨k + 1, hrun⟩, ?_, ?_, hsign, ?_, ?_⟩
  · intro x hx
    have := hk.le
    rw [List.mem_range'_1] at hx
    omega
  · intro x hx
    rw [List.mem_range'_1] at hx
    omega
  · exact toInt_sub_eq_zero.trans hzero
  · rw [memcmp_eq_lexSign hs ht, sign_lexSign]
    exact hsign

/-- If `strcmp` tells two strings apart, it ran to the end of the first one
    and met a difference everywhere. -/
theorem equalOrApart_of_compares (hs : StringAt m stra s)
    (ht : StringAt m strb t) (ht7 : ∀ c ∈ t, c.toNat < 128) {r : Comparison}
    (hr : Compares m stra strb s t r) : EqualOrApart s t := by
  obtain ⟨k, hk, hrun⟩ := strcmp_eq hs strb
  obtain ⟨bound, hbound⟩ := hr.returns
  have heq := (hbound _ (Nat.le_max_left bound (k + 1))).symm.trans
    (hrun _ (Nat.le_max_right _ _))
  cases heq
  by_cases hst : s = t
  · exact .inl hst
  · have hzero := mt hr.zero.mp hst
    rw [toInt_sub_eq_zero] at hzero
    have hend := hk.stop.resolve_right hzero
    rw [hend, hs.nul] at hzero
    have hle := (hr.readsB (strb + k)
      (List.mem_range'_1.mpr ⟨by omega, by omega⟩)).2
    have hlen : s.length < t.length := by
      rcases Nat.lt_or_eq_of_le (by omega : s.length ≤ t.length) with h | h
      · exact h
      · rw [h, ht.nul] at hzero
        exact absurd rfl hzero
    have hdiffer : ∀ i < s.length, s[i]? ≠ t[i]? := by
      intro i hi
      have := hk.differ i (by omega)
      rw [hs.bytes i hi, ht.bytes i (by omega)] at this
      rw [List.getElem?_eq_getElem hi, List.getElem?_eq_getElem (by omega)]
      exact fun h => this (Option.some.inj h)
    refine .inr ⟨hlen, hdiffer, fun c d hc hd => ?_⟩
    have hneg : lexSign s t = -1 := by
      rw [← hr.sign, hend, hs.nul, ht.bytes _ hlen]
      have hpos := toInt_pos
        (fun h0 => ht.nonzero (h0 ▸ List.getElem_mem hlen))
        (ht7 _ (List.getElem_mem hlen))
      exact Int.sign_eq_neg_one_of_neg (by simpa using hpos)
    obtain ⟨s, rfl⟩ := List.head?_eq_some_iff.mp hc
    obtain ⟨t, rfl⟩ := List.head?_eq_some_iff.mp hd
    exact lt_of_lexSign_neg
      (fun h => hdiffer 0 (Nat.zero_lt_succ _) (congrArg some h)) hneg

/-- For equal strings it stops at once, with 0. -/
theorem compares_self (hs : StringAt m stra s) (ht : StringAt m strb s) :
    ∃ r, Compares m stra strb s s r := by
  obtain ⟨k, hk, hrun⟩ := strcmp_eq hs strb
  -- the first characters are equal, or both strings are empty
  have hsame : m stra = m strb := by
    cases s with
    | nil => rw [stringAt_nil.mp hs, stringAt_nil.mp ht]
    | cons c s => rw [(stringAt_cons.mp hs).2.1, (stringAt_cons.mp ht).2.1]
  have hk0 : k = 0 := by
    by_contra hne
    exact hk.differ 0 (Nat.pos_of_ne_zero hne) hsame
  subst hk0
  refine compares_of_stop hs ht hk (Nat.zero_le _) hrun ?_
    (iff_of_true hsame rfl)
  rw [lexSign_self, Nat.add_zero, Nat.add_zero, hsame, Int.sub_self]
  rfl

/-- A first string that differs everywhere from a longer second one is run
    through to its end. -/
theorem compares_of_apart (hs : StringAt m stra s) (ht : StringAt m strb t)
    (ht7 : ∀ c ∈ t, c.toNat < 128) (hlen : s.length < t.length)
    (hdiffer : ∀ i < s.length, s[i]? ≠ t[i]?)
    (hfirst : ∀ c d, s.head? = some c → t.head? = some d → c < d) :
    ∃ r, Compares m stra strb s t r := by
  obtain ⟨k, hk, hrun⟩ := strcmp_eq hs strb
  have hne : t[s.length] ≠ 0 :=
    fun h0 => ht.nonzero (h0 ▸ List.getElem_mem hlen)
  have hend : k = s.length := by
    refine hk.stop.resolve_right fun heq => ?_
    have hlt : k < s.length := by
      refine Nat.lt_of_le_of_ne hk.le fun h => ?_
      rw [h, hs.nul, ht.bytes _ hlen] at heq
      exact hne heq.symm
    rw [hs.bytes k hlt, ht.bytes k (by omega)] at heq
    refine hdiffer k hlt ?_
    rw [List.getElem?_eq_getElem hlt, List.getElem?_eq_getElem (by omega),
      heq]
  subst hend
  have hpos := toInt_pos hne (ht7 _ (List.getElem_mem hlen))
  refine compares_of_stop hs ht hk (by omega) hrun ?_ (iff_of_false ?_ ?_)
  · rw [lexSign_of_lt hlen hfirst, hs.nul, ht.bytes _ hlen]
    exact Int.sign_eq_neg_one_of_neg (by simpa using hpos)
  · rw [hs.nul, ht.bytes _ hlen]
    exact Ne.symm hne
  · rintro rfl
    exact Nat.lt_irrefl _ hlen

/-- **`strcmp` compares exactly** equal strings, and those whose first one is
    shorter, differs from the second everywhere and begins lower. -/
theorem compares_iff (hs : StringAt m stra s) (ht : StringAt m strb t)
    (ht7 : ∀ c ∈ t, c.toNat < 128) :
    (∃ r, Compares m stra strb s t r) ↔ EqualOrApart s t := by
  constructor
  · rintro ⟨r, hr⟩
    exact equalOrApart_of_compares hs ht ht7 hr
  · rintro (rfl | ⟨hlen, hdiffer, hfirst⟩)
    · exact compares_self hs ht
    · exact compares_of_apart hs ht ht7 hlen hdiffer hfirst

/-- "ab" at 0 and "ac" at 3. -/
def twoWords : Mem := fun x => [0x61, 0x62, 0, 0x61, 0x63].getD x 0

theorem twoWords_first : StringAt twoWords 0 [0x61, 0x62] := by
  simp only [stringAt_cons, stringAt_nil]
  decide

theorem twoWords_second : StringAt twoWords 3 [0x61, 0x63] := by
  simp only [stringAt_cons, stringAt_nil]
  decide

theorem compares_iff_twoWords :
    (∃ r, Compares twoWords 0 3 [0x61, 0x62] [0x61, 0x63] r) ↔
      EqualOrApart [0x61, 0x62] [0x61, 0x63] :=
  compares_iff twoWords_first twoWords_second (by decide)

/-- "ab" and "ac" are equal to `strcmp`. -/
theorem different_words_equal : ¬ ∀ (m : Mem) (stra strb : Nat)
    (s t : List (BitVec 8)), StringAt m stra s → StringAt m strb t →
    (∀ c ∈ s, c.toNat < 128) → (∀ c ∈ t, c.toNat < 128) →
    ∃ r, Compares m stra strb s t r := by
  intro h
  obtain ⟨r, hr⟩ := h twoWords 0 3 _ _ twoWords_first twoWords_second
    (by decide) (by decide)
  obtain ⟨bound, hbound⟩ := hr.returns
  have hrun : strcmp (bound + 1) 0 3 twoWords = some ⟨0, [0], [3]⟩ := rfl
  have heq := (hbound _ (Nat.le_add_right bound 1)).symm.trans hrun
  cases heq
  have hzero := hr.zero.mp rfl
  revert hzero
  decide

end ChinixStringComparison

import Chinix.PageWalk

/-! # NUL-terminated strings in byte memory

    The bytes at an address, and the string that begins there: the bytes up to
    the first zero.  An address holds at most one string, and a string is
    still there in a memory that agrees on its bytes and its terminator. -/

namespace ByteStrings

open PageWalk (Mem)

/-- The bytes from `p` on are those of `s`. -/
def BytesAt (m : Mem) (p : Nat) (s : List (BitVec 8)) : Prop :=
  ∀ i (h : i < s.length), m (p + i) = s[i]

/-- The string `s`, with its terminator, is at `p`. -/
structure StringAt (m : Mem) (p : Nat) (s : List (BitVec 8)) : Prop where
  bytes : BytesAt m p s
  nul : m (p + s.length) = 0
  nonzero : 0 ∉ s

variable {m m' : Mem} {p : Nat} {c : BitVec 8} {s t : List (BitVec 8)}

-- ── Bytes ──

theorem bytesAt_nil (m : Mem) (p : Nat) : BytesAt m p [] :=
  fun _ h => nomatch h

theorem bytesAt_cons :
    BytesAt m p (c :: s) ↔ m p = c ∧ BytesAt m (p + 1) s := by
  constructor
  · intro h
    refine ⟨h 0 (Nat.zero_lt_succ _), fun i hi => ?_⟩
    have := h (i + 1) (Nat.succ_lt_succ hi)
    rwa [Nat.add_right_comm, Nat.add_assoc]
  · rintro ⟨hc, h⟩ i hi
    cases i with
    | zero => exact hc
    | succ i =>
        have := h i (Nat.lt_of_succ_lt_succ hi)
        rwa [Nat.add_right_comm, Nat.add_assoc] at this

theorem bytesAt_append : BytesAt m p (s ++ t) ↔
    BytesAt m p s ∧ BytesAt m (p + s.length) t := by
  induction s generalizing p with
  | nil => simp [bytesAt_nil]
  | cons c s ih =>
      rw [List.cons_append, bytesAt_cons, bytesAt_cons, ih, and_assoc,
        List.length_cons, Nat.add_assoc, Nat.add_comm 1]

theorem BytesAt.congr (h : BytesAt m p s)
    (heq : ∀ x, p ≤ x → x < p + s.length → m' x = m x) : BytesAt m' p s := by
  intro i hi
  rw [heq (p + i) (Nat.le_add_right p i) (Nat.add_lt_add_left hi p), h i hi]

-- ── Strings ──

theorem stringAt_iff :
    StringAt m p s ↔ BytesAt m p (s ++ [0]) ∧ 0 ∉ s := by
  rw [bytesAt_append, bytesAt_cons]
  constructor
  · intro h
    exact ⟨⟨h.bytes, h.nul, bytesAt_nil _ _⟩, h.nonzero⟩
  · rintro ⟨⟨hbytes, hnul, -⟩, hzero⟩
    exact ⟨hbytes, hnul, hzero⟩

theorem stringAt_nil : StringAt m p [] ↔ m p = 0 := by
  rw [stringAt_iff, List.nil_append, bytesAt_cons]
  simp [bytesAt_nil]

theorem stringAt_cons :
    StringAt m p (c :: s) ↔ c ≠ 0 ∧ m p = c ∧ StringAt m (p + 1) s := by
  rw [stringAt_iff, stringAt_iff, List.cons_append, bytesAt_cons,
    List.mem_cons, not_or, ne_comm]
  tauto

theorem StringAt.ne_zero (h : StringAt m p s) {i : Nat} (hi : i < s.length) :
    m (p + i) ≠ 0 := by
  rw [h.bytes i hi]
  exact fun h0 => h.nonzero (h0 ▸ List.getElem_mem hi)

theorem StringAt.congr (h : StringAt m p s)
    (heq : ∀ x, p ≤ x → x ≤ p + s.length → m' x = m x) :
    StringAt m' p s := by
  refine ⟨h.bytes.congr fun x hlo hhi => heq x hlo hhi.le, ?_, h.nonzero⟩
  rw [heq _ (Nat.le_add_right _ _) (Nat.le_refl _), h.nul]

end ByteStrings

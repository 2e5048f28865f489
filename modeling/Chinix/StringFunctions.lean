import Chinix.ByteStrings

/-! # Strings (libc/string.c)

    The string functions on byte memory, with the addresses that they read.  A
    loop that runs up to a terminator is given a bound on its rounds; it ends
    with the same result under every bound that is large enough. -/

namespace ChinixStringFunctions

open PageWalk (Mem)
open ByteStrings

/-- The memory, and the addresses that were read. -/
structure Access where
  mem : Mem
  reads : List Nat

/-- A read. -/
def Access.read (p : Nat) (a : Access) : BitVec 8 × Access :=
  (a.mem p, { a with reads := a.reads ++ [p] })

/-- A write. -/
def Access.write (p : Nat) (c : BitVec 8) (a : Access) : Access :=
  { a with mem := Function.update a.mem p c }

/-! ## The functions -/

/-- The loop of `strcpy` and `strcat`; `dest` is where it ends. -/
def copyLoop : Nat → Nat → Nat → Access → Option (Nat × Access)
  | 0, _, _, _ => none
  | fuel + 1, dest, src, a =>
      let (c, a) := a.read src
      if c ≠ 0 then copyLoop fuel (dest + 1) (src + 1) (a.write dest c)
      else some (dest, a)

/-- `strcpy`.  The terminator of `src` is not copied. -/
def strcpy (fuel dest src : Nat) (a : Access) : Option (Nat × Access) := do
  let (_, a) ← copyLoop fuel dest src a
  return (dest, a)

/-- The loop of `strncpy`. -/
def strncpyLoop : Nat → Nat → Nat → Access → Access
  | 0, _, src, a => (a.read src).2
  | n + 1, dest, src, a =>
      let (c, a) := a.read src
      if c ≠ 0 then strncpyLoop n (dest + 1) (src + 1) (a.write dest c) else a

/-- `strncpy`. -/
def strncpy (dest src n : Nat) (a : Access) : Nat × Access :=
  (dest, strncpyLoop n dest src a)

/-- The loop of `strlen`: the address of the terminator. -/
def strlenLoop : Nat → Nat → Access → Option (Nat × Access)
  | 0, _, _ => none
  | fuel + 1, s, a =>
      let (c, a) := a.read s
      if c ≠ 0 then strlenLoop fuel (s + 1) a else some (s, a)

/-- `strlen`. -/
def strlen (fuel s : Nat) (a : Access) : Option (Nat × Access) := do
  let (e, a) ← strlenLoop fuel s a
  return (e - s, a)

/-- `strcat`. -/
def strcat (fuel dest src : Nat) (a : Access) : Option (Nat × Access) := do
  let (n, a) ← strlen fuel dest a
  let (e, a) ← copyLoop fuel (dest + n) src a
  return (dest, a.write e 0)

/-- What `strcmp` returns, and the addresses that it reads through its two
    pointers. -/
structure Comparison where
  ret : Int
  readsA : List Nat
  readsB : List Nat

/-- The loop of `strcmp`.  It goes on as long as the characters *differ*. -/
def strcmpLoop (m : Mem) : Nat → Nat → Nat → List Nat → List Nat →
    Option Comparison
  | 0, _, _, _, _ => none
  | fuel + 1, stra, strb, readsA, readsB =>
      let ret := (m stra).toInt - (m strb).toInt
      let readsA := readsA ++ [stra]
      let readsB := readsB ++ [strb]
      if ret = 0 ∨ m stra = 0 then some ⟨ret, readsA, readsB⟩
      else strcmpLoop m fuel (stra + 1) (strb + 1) readsA readsB

/-- `strcmp`. -/
def strcmp (fuel stra strb : Nat) (m : Mem) : Option Comparison :=
  strcmpLoop m fuel stra strb [] []

/-- `memcmp`, on `unsigned char`. -/
def memcmp (m : Mem) : Nat → Nat → Nat → Int
  | 0, _, _ => 0
  | n + 1, p1, p2 =>
      if m p1 > m p2 then 1
      else if m p1 < m p2 then -1
      else memcmp m n (p1 + 1) (p2 + 1)

/-! ## What they do -/

variable {s : List (BitVec 8)} {a : Access} {dest src p : Nat}

/-- Two ranges of memory without a common address. -/
def Apart (p n q k : Nat) : Prop := p + n ≤ q ∨ q + k ≤ p

/-- **The copying loop** writes the characters and leaves the rest alone. -/
theorem copyLoop_eq (h : StringAt a.mem src s)
    (hapart : Apart dest s.length src (s.length + 1)) :
    ∃ a', (∀ fuel, s.length < fuel →
        copyLoop fuel dest src a = some (dest + s.length, a')) ∧
      BytesAt a'.mem dest s ∧
      (∀ x, x < dest ∨ dest + s.length ≤ x → a'.mem x = a.mem x) ∧
      a'.reads = a.reads ++ List.range' src (s.length + 1) := by
  induction s generalizing a dest src with
  | nil =>
      refine ⟨(a.read src).2, ?_, bytesAt_nil _ _, fun _ _ => rfl, rfl⟩
      intro fuel hfuel
      cases fuel with
      | zero => exact absurd hfuel (Nat.not_lt_zero _)
      | succ fuel =>
          rw [copyLoop, Access.read, stringAt_nil.mp h]
          rfl
  | cons c s ih =>
      obtain ⟨hc, hmem, hrest⟩ := stringAt_cons.mp h
      rw [Apart, List.length_cons] at hapart
      -- the rest of the source is not written
      have hrest' : StringAt ((a.read src).2.write dest c).mem (src + 1) s :=
        hrest.congr fun x _ _ => Function.update_of_ne (by omega) _ _
      have hapart' : Apart (dest + 1) s.length (src + 1) (s.length + 1) := by
        rw [Apart]
        omega
      obtain ⟨a', hloop, hbytes, hframe, hreads⟩ := ih hrest' hapart'
      refine ⟨a', ?_, ?_, ?_, ?_⟩
      · intro fuel hfuel
        cases fuel with
        | zero => exact absurd hfuel (Nat.not_lt_zero _)
        | succ fuel =>
            have hgo := hloop fuel (Nat.lt_of_succ_lt_succ hfuel)
            rw [Nat.add_right_comm, Nat.add_assoc] at hgo
            rw [copyLoop, Access.read, hmem]
            exact (if_pos hc).trans hgo
      · rw [bytesAt_cons]
        refine ⟨?_, hbytes⟩
        rw [hframe dest (.inl (Nat.lt_succ_self _))]
        exact Function.update_self ..
      · intro x hx
        rw [List.length_cons] at hx
        rw [hframe x (by omega)]
        exact Function.update_of_ne (by omega) _ _
      · rw [hreads, List.length_cons, List.range'_succ]
        exact List.append_assoc a.reads [src] _

/-- **The loop of `strlen`** ends at the terminator. -/
theorem strlen_eq (h : StringAt a.mem p s) :
    ∃ a', (∀ fuel, s.length < fuel → strlen fuel p a = some (s.length, a')) ∧
      a'.mem = a.mem ∧ a'.reads = a.reads ++ List.range' p (s.length + 1) := by
  suffices hloop : ∃ a', (∀ fuel, s.length < fuel →
      strlenLoop fuel p a = some (p + s.length, a')) ∧
      a'.mem = a.mem ∧
      a'.reads = a.reads ++ List.range' p (s.length + 1) by
    obtain ⟨a', hend, hmem, hreads⟩ := hloop
    refine ⟨a', fun fuel hfuel => ?_, hmem, hreads⟩
    rw [strlen, hend fuel hfuel]
    show some (p + s.length - p, a') = _
    rw [Nat.add_sub_cancel_left]
  induction s generalizing a p with
  | nil =>
      refine ⟨(a.read p).2, ?_, rfl, rfl⟩
      intro fuel hfuel
      cases fuel with
      | zero => exact absurd hfuel (Nat.not_lt_zero _)
      | succ fuel =>
          rw [strlenLoop, Access.read, stringAt_nil.mp h]
          rfl
  | cons c s ih =>
      obtain ⟨hc, hmem, hrest⟩ := stringAt_cons.mp h
      obtain ⟨a', hloop, hmem', hreads⟩ := ih (a := (a.read p).2) hrest
      refine ⟨a', ?_, hmem', ?_⟩
      · intro fuel hfuel
        cases fuel with
        | zero => exact absurd hfuel (Nat.not_lt_zero _)
        | succ fuel =>
            have hgo := hloop fuel (Nat.lt_of_succ_lt_succ hfuel)
            rw [Nat.add_right_comm, Nat.add_assoc] at hgo
            rw [strlenLoop, Access.read, hmem]
            exact (if_pos hc).trans hgo
      · rw [hreads, List.length_cons, List.range'_succ]
        exact List.append_assoc a.reads [p] _

end ChinixStringFunctions

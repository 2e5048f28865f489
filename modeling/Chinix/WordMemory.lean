import Chinix.PageWalk

/-! # Words in memory

    Stores of 64-bit words into byte memory: what a load reads behind a store,
    at the same place and at a place apart, and that a store leaves the bytes
    outside the word alone. -/

namespace WordMemory

open PageWalk

/-- A store of a 64-bit word. -/
def store64 (a : Nat) (w : BitVec 64) (m : Mem) : Mem :=
  store32 a (w.extractLsb' 0 32) (store32 (a + 4) (w.extractLsb' 32 32) m)

/-- `n` bytes set to zero. -/
def memzero (a n : Nat) (m : Mem) : Mem := fun x =>
  if a ≤ x ∧ x < a + n then 0 else m x

theorem load32_congr {m m' : Mem} {a : Nat}
    (h : ∀ x, a ≤ x → x < a + 4 → m' x = m x) : load32 m' a = load32 m a := by
  rw [load32, load32, h (a + 3) (by omega) (by omega),
    h (a + 2) (by omega) (by omega), h (a + 1) (by omega) (by omega),
    h a (by omega) (by omega)]

/-- A load depends on the bytes of its word only. -/
theorem load64_congr {m m' : Mem} {a : Nat}
    (h : ∀ x, a ≤ x → x < a + 8 → m' x = m x) : load64 m' a = load64 m a := by
  rw [load64, load64,
    load32_congr fun x hlo hhi => h x (by omega) (by omega),
    load32_congr fun x hlo hhi => h x (by omega) (by omega)]

/-- A store leaves the bytes outside its word alone. -/
theorem store64_apply_of_outside {m : Mem} {a x : Nat} {w : BitVec 64}
    (h : x < a ∨ a + 8 ≤ x) : store64 a w m x = m x := by
  rw [store64, store32_apply_of_outside (by omega),
    store32_apply_of_outside (by omega)]

/-- A load at the place of a store. -/
theorem load64_store64_self (m : Mem) (a : Nat) (w : BitVec 64) :
    load64 (store64 a w m) a = w := by
  -- the low half is stored last, apart from the high half
  have hhigh : load32 (store64 a w m) (a + 4) = w.extractLsb' 32 32 := by
    rw [store64]
    rw [load32_congr fun x hlo hhi => store32_apply_of_outside (by omega)]
    exact load32_store32_self _ _ _
  have hlow : load32 (store64 a w m) a = w.extractLsb' 0 32 :=
    load32_store32_self _ _ _
  rw [load64, hhigh, hlow]
  ext i hi
  simp only [BitVec.getElem_append, BitVec.getElem_extractLsb']
  split_ifs <;> (rw [← BitVec.getLsbD_eq_getElem]; congr 1; omega)

/-- A load apart from a store. -/
theorem load64_store64_of_apart {m : Mem} {a b : Nat} {w : BitVec 64}
    (h : a + 8 ≤ b ∨ b + 8 ≤ a) :
    load64 (store64 b w m) a = load64 m a :=
  load64_congr fun _ _ _ => store64_apply_of_outside (by omega)

/-- A load of bytes that are zero. -/
theorem load64_eq_zero {m : Mem} {a : Nat}
    (h : ∀ x, a ≤ x → x < a + 8 → m x = 0) : load64 m a = 0 := by
  rw [load64, load32_eq_zero fun x hlo hhi => h x (by omega) (by omega),
    load32_eq_zero fun x hlo hhi => h x (by omega) (by omega)]
  rfl

theorem load64_memzero {m : Mem} {a b n : Nat} (h : a ≤ b ∧ b + 8 ≤ a + n) :
    load64 (memzero a n m) b = 0 :=
  load64_eq_zero fun _ _ _ => if_pos (by omega)

theorem memzero_apply_of_outside {m : Mem} {a n x : Nat}
    (h : x < a ∨ a + n ≤ x) : memzero a n m x = m x :=
  if_neg (by omega)

end WordMemory

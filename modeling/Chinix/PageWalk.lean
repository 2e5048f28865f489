import Mathlib.Data.BitVec

/-! # Memory and the four-level page walk

    Physical memory as bytes, read and written in little-endian words, and
    the translation that an x86-64 processor makes of a virtual address
    through the tables in it: pages of 1 GB, 2 MB and 4 KB, absent entries and
    the reserved bits that make an entry fault. -/

namespace PageWalk

/-- Physical memory, by byte address. -/
abbrev Mem := Nat → BitVec 8

/-- The 32-bit word at an address. -/
def load32 (m : Mem) (a : Nat) : BitVec 32 :=
  m (a + 3) ++ m (a + 2) ++ m (a + 1) ++ m a

/-- The 64-bit word at an address. -/
def load64 (m : Mem) (a : Nat) : BitVec 64 :=
  load32 m (a + 4) ++ load32 m a

/-- A store of a 32-bit word. -/
def store32 (a : Nat) (w : BitVec 32) (m : Mem) : Mem := fun x =>
  if x = a then w.extractLsb' 0 8
  else if x = a + 1 then w.extractLsb' 8 8
  else if x = a + 2 then w.extractLsb' 16 8
  else if x = a + 3 then w.extractLsb' 24 8
  else m x

-- ── Loads after stores ──

theorem bytes_append (w : BitVec 32) :
    (w.extractLsb' 24 8 ++ w.extractLsb' 16 8 ++ w.extractLsb' 8 8 ++
      w.extractLsb' 0 8 : BitVec 32) = w := by
  ext i hi
  simp only [BitVec.getElem_append, BitVec.getElem_extractLsb']
  split_ifs <;> (rw [← BitVec.getLsbD_eq_getElem]; congr 1; omega)

theorem load32_store32_self (m : Mem) (a : Nat) (w : BitVec 32) :
    load32 (store32 a w m) a = w := by
  simp only [load32, store32, Nat.add_eq_left, Nat.reduceEqDiff, ↓reduceIte]
  exact bytes_append w

theorem store32_apply_of_outside {m : Mem} {a x : Nat} {w : BitVec 32}
    (h : x < a ∨ a + 4 ≤ x) : store32 a w m x = m x := by
  rw [store32]
  rw [if_neg (by omega), if_neg (by omega), if_neg (by omega),
    if_neg (by omega)]

/-- Between aligned words a store changes the one it is made to. -/
theorem load32_store32 (m : Mem) {a b : Nat} (w : BitVec 32)
    (ha : a % 4 = 0) (hb : b % 4 = 0) :
    load32 (store32 b w m) a = if a = b then w else load32 m a := by
  by_cases h : a = b
  · subst h
    rw [if_pos rfl, load32_store32_self]
  · rw [if_neg h]
    unfold load32
    rw [store32_apply_of_outside (by omega), store32_apply_of_outside (by omega),
      store32_apply_of_outside (by omega), store32_apply_of_outside (by omega)]

theorem load32_eq_zero {m : Mem} {a : Nat} (h : ∀ x, a ≤ x → x < a + 4 → m x = 0) :
    load32 m a = 0 := by
  rw [load32]
  rw [h (a + 3) (by omega) (by omega), h (a + 2) (by omega) (by omega),
    h (a + 1) (by omega) (by omega), h a (by omega) (by omega)]
  rfl

theorem load64_toNat (m : Mem) (a : Nat) :
    (load64 m a).toNat =
      2 ^ 32 * (load32 m (a + 4)).toNat + (load32 m a).toNat := by
  rw [load64]
  rw [BitVec.toNat_append, Nat.shiftLeft_eq, Nat.mul_comm,
    Nat.two_pow_add_eq_or_of_lt (load32 m a).isLt]

-- ── The walk ──

/-- The entry of a table at an index. -/
def entryAt (m : Mem) (table index : Nat) : Nat :=
  (load64 m (table + 8 * index)).toNat

/-- The present bit. -/
def Present (entry : Nat) : Prop := entry % 2 = 1

/-- The page-size bit: the entry maps a page and not a table. -/
def Large (entry : Nat) : Prop := entry / 2 ^ 7 % 2 = 1

instance (entry : Nat) : Decidable (Present entry) :=
  inferInstanceAs (Decidable (_ = _))

instance (entry : Nat) : Decidable (Large entry) :=
  inferInstanceAs (Decidable (_ = _))

/-- The physical address in an entry, for pages of `2 ^ shift` bytes. -/
def frame (shift entry : Nat) : Nat := entry % 2 ^ 52 / 2 ^ shift * 2 ^ shift

/-- The index that a virtual address selects in a table. -/
def index (shift v : Nat) : Nat := v / 2 ^ shift % 512

/-- The physical address of `v` in the page of an entry; the bits between
    the attributes and the address of a large page are reserved. -/
def pageAddress (shift entry v : Nat) : Option Nat :=
  if entry / 2 ^ 13 % 2 ^ (shift - 13) ≠ 0 then none
  else some (frame shift entry + v % 2 ^ shift)

/-- The page table. -/
def walkPt (m : Mem) (table v : Nat) : Option Nat :=
  let entry := entryAt m table (index 12 v)
  if Present entry then some (frame 12 entry + v % 2 ^ 12) else none

/-- The page directory. -/
def walkPd (m : Mem) (table v : Nat) : Option Nat :=
  let entry := entryAt m table (index 21 v)
  if Present entry then
    if Large entry then pageAddress 21 entry v
    else walkPt m (frame 12 entry) v
  else none

/-- The page-directory-pointer table. -/
def walkPdpt (m : Mem) (table v : Nat) : Option Nat :=
  let entry := entryAt m table (index 30 v)
  if Present entry then
    if Large entry then pageAddress 30 entry v
    else walkPd m (frame 12 entry) v
  else none

/-- The whole walk from `CR3`; in the top table the page-size bit is
    reserved. -/
def walk (m : Mem) (cr3 : Nat) (v : Nat) : Option Nat :=
  let entry := entryAt m (frame 12 cr3) (index 39 v)
  if Present entry then
    if Large entry then none
    else walkPdpt m (frame 12 entry) v
  else none

/-- The addresses whose upper bits repeat bit 47. -/
def Canonical (v : BitVec 64) : Prop :=
  v.toNat < 2 ^ 47 ∨ 2 ^ 64 - 2 ^ 47 ≤ v.toNat

instance (v : BitVec 64) : Decidable (Canonical v) :=
  inferInstanceAs (Decidable (_ ∨ _))

-- ── Entries that map ──

/-- An entry for the table at `base`, with the present and the writable bit. -/
def tableEntry (base : Nat) : Nat := base + 3

/-- An entry for the 2 MB page at `base`: present, writable, large, global. -/
def pageEntry (base : Nat) : Nat := base + 0x183

theorem present_tableEntry {base : Nat} (h : base % 2 ^ 12 = 0) :
    Present (tableEntry base) := by
  rw [Present, tableEntry]
  omega

theorem not_large_tableEntry {base : Nat} (h : base % 2 ^ 12 = 0) :
    ¬ Large (tableEntry base) := by
  rw [Large, tableEntry]
  omega

theorem frame_tableEntry {base : Nat} (h : base % 2 ^ 12 = 0)
    (hlt : base < 2 ^ 52) : frame 12 (tableEntry base) = base := by
  rw [frame, tableEntry]
  omega

theorem not_present_zero : ¬ Present 0 := by decide

theorem walk_of_table {m : Mem} {cr3 v base : Nat}
    (he : entryAt m (frame 12 cr3) (index 39 v) = tableEntry base)
    (h : base % 2 ^ 12 = 0) (hlt : base < 2 ^ 52) :
    walk m cr3 v = walkPdpt m base v := by
  unfold walk
  dsimp only
  rw [he, if_pos (present_tableEntry h), if_neg (not_large_tableEntry h),
    frame_tableEntry h hlt]

theorem walk_of_absent {m : Mem} {cr3 v : Nat}
    (he : entryAt m (frame 12 cr3) (index 39 v) = 0) :
    walk m cr3 v = none := by
  unfold walk
  dsimp only
  rw [he, if_neg not_present_zero]

theorem walkPdpt_of_table {m : Mem} {table v base : Nat}
    (he : entryAt m table (index 30 v) = tableEntry base)
    (h : base % 2 ^ 12 = 0) (hlt : base < 2 ^ 52) :
    walkPdpt m table v = walkPd m base v := by
  unfold walkPdpt
  dsimp only
  rw [he, if_pos (present_tableEntry h), if_neg (not_large_tableEntry h),
    frame_tableEntry h hlt]

theorem walkPdpt_of_absent {m : Mem} {table v : Nat}
    (he : entryAt m table (index 30 v) = 0) :
    walkPdpt m table v = none := by
  unfold walkPdpt
  dsimp only
  rw [he, if_neg not_present_zero]

theorem walkPd_of_page {m : Mem} {table v base : Nat}
    (he : entryAt m table (index 21 v) = pageEntry base)
    (h : base % 2 ^ 21 = 0) (hlt : base < 2 ^ 52) :
    walkPd m table v = some (base + v % 2 ^ 21) := by
  have hp : Present (pageEntry base) := by
    rw [Present, pageEntry]
    omega
  have hl : Large (pageEntry base) := by
    rw [Large, pageEntry]
    omega
  have hr : ¬ pageEntry base / 2 ^ 13 % 2 ^ (21 - 13) ≠ 0 := by
    rw [pageEntry]
    omega
  have hf : frame 21 (pageEntry base) = base := by
    rw [frame, pageEntry]
    omega
  unfold walkPd
  dsimp only
  rw [he, if_pos hp, if_pos hl]
  rw [pageAddress]
  rw [if_neg hr, hf]

end PageWalk

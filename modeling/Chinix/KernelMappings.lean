import Chinix.PagingSetup

/-! # What the boot page tables map

    The tables hold one 64-bit number an entry.  Every store of
    `paging_setup` changes one half of one entry, each loop fills a range of
    entries, and the walk through what they leave reaches the low 64 GB from
    three windows of the address space and nothing from anywhere else. -/

namespace ChinixKernelMappings

open PageWalk Assembly ChinixPagingSetup

-- ── Tables as functions of the index ──

/-- The contents of the tables. -/
abbrev Contents := Table → Nat → Nat

/-- Memory holds these contents where the tables are placed. -/
def Holds (p : Placement) (m : Mem) (e : Contents) : Prop :=
  ∀ t i, i < t.entries → entryAt m (p.phys t) i = e t i

/-- The contents with one entry changed. -/
def setEntry (e : Contents) (t : Table) (i w : Nat) : Contents :=
  fun u j => if u = t ∧ j = i then w else e u j

theorem setEntry_self (e : Contents) (t : Table) (i w : Nat) :
    setEntry e t i w t i = w := if_pos ⟨rfl, rfl⟩

theorem setEntry_ne (e : Contents) {t u : Table} {i j : Nat} (w : Nat)
    (h : ¬ (u = t ∧ j = i)) : setEntry e t i w u j = e u j := if_neg h

/-- Entries are apart: their addresses agree only where they do. -/
theorem entry_inj (p : Placement) {t u : Table} {i j : Nat}
    (hi : i < t.entries) (hj : j < u.entries)
    (h : p.phys u + 8 * j = p.phys t + 8 * i) : u = t ∧ j = i := by
  by_cases htu : u = t
  · subst htu
    exact ⟨rfl, by omega⟩
  · have := p.disjoint u t htu
    omega

/-- No entry starts in the middle of another. -/
theorem entry_half (p : Placement) (t u : Table) (i j : Nat) :
    p.phys u + 8 * j + 4 ≠ p.phys t + 8 * i := by
  have := p.aligned t
  have := p.aligned u
  omega

theorem entry_aligned (p : Placement) (t : Table) (i : Nat) :
    (p.phys t + 8 * i) % 4 = 0 := by
  have := p.aligned t
  omega

/-- A store to the lower half of an entry. -/
theorem Holds.store_low {p : Placement} {m : Mem} {e : Contents}
    (h : Holds p m e) {t : Table} {i : Nat} (hi : i < t.entries)
    (w : BitVec 32) :
    Holds p (store32 (p.phys t + 8 * i) w m)
      (setEntry e t i (e t i / 2 ^ 32 * 2 ^ 32 + w.toNat)) := by
  intro u j hj
  have ha := entry_aligned p t i
  have hu := entry_aligned p u j
  have hold : entryAt m (p.phys u) j = e u j := h u j hj
  rw [entryAt] at hold ⊢
  rw [load64_toNat] at hold ⊢
  rw [load32_store32 m w (by omega) ha, if_neg (entry_half p t u i j),
    load32_store32 m w hu ha]
  by_cases hsame : u = t ∧ j = i
  · obtain ⟨rfl, rfl⟩ := hsame
    rw [if_pos rfl, setEntry_self, ← hold]
    have := (load32 m (p.phys u + 8 * j)).isLt
    omega
  · rw [if_neg fun heq => hsame (entry_inj p hi hj heq), setEntry_ne e _ hsame]
    exact hold

/-- A store to the upper half. -/
theorem Holds.store_high {p : Placement} {m : Mem} {e : Contents}
    (h : Holds p m e) {t : Table} {i : Nat} (hi : i < t.entries)
    (w : BitVec 32) :
    Holds p (store32 (p.phys t + 8 * i + 4) w m)
      (setEntry e t i (w.toNat * 2 ^ 32 + e t i % 2 ^ 32)) := by
  intro u j hj
  have ha := entry_aligned p t i
  have hu := entry_aligned p u j
  have hold : entryAt m (p.phys u) j = e u j := h u j hj
  rw [entryAt] at hold ⊢
  rw [load64_toNat] at hold ⊢
  rw [load32_store32 m w (by omega) (by omega),
    load32_store32 m w hu (by omega), if_neg (entry_half p u t j i).symm]
  by_cases hsame : u = t ∧ j = i
  · obtain ⟨rfl, rfl⟩ := hsame
    rw [if_pos rfl, setEntry_self, ← hold]
    have := (load32 m (p.phys u + 8 * j)).isLt
    omega
  · rw [if_neg fun heq => hsame (entry_inj p hi hj (by omega)),
      setEntry_ne e _ hsame]
    exact hold

/-- A store to the lower half of an entry that is zero so far. -/
theorem Holds.store_entry {p : Placement} {m : Mem} {e : Contents}
    (h : Holds p m e) {t : Table} {i : Nat} (hi : i < t.entries)
    {w : BitVec 32} {n : Nat} (h0 : e t i = 0) (hw : w.toNat = n) :
    Holds p (store32 (p.phys t + 8 * i) w m) (setEntry e t i n) := by
  have hs := h.store_low hi w
  rw [h0, hw] at hs
  simpa using hs

/-- Zeroed tables hold zeros. -/
theorem holds_of_zeroed {p : Placement} {m : Mem} (h : Zeroed p m) :
    Holds p m (fun _ _ => 0) := by
  intro t i hi
  have hz : ∀ d, d + 4 ≤ 8 → load32 m (p.phys t + 8 * i + d) = 0 := fun d hd =>
    load32_eq_zero fun x hx1 hx2 => h t x (by omega) (by omega)
  rw [entryAt]
  rw [load64_toNat, hz 4 (by omega)]
  have := hz 0 (by omega)
  rw [Nat.add_zero] at this
  rw [this]
  rfl

-- ── Operands ──

theorem operand_toNat (p : Placement) (t : Table) {disp : Nat}
    (h : disp < 8 * t.entries) :
    (p.operand t disp).toNat = p.phys t + disp := by
  have := p.low t
  rw [Placement.operand]
  rw [BitVec.toNat_ofNat, Nat.mod_eq_of_lt (by omega)]

theorem entries_ge (t : Table) : 512 ≤ t.entries := by
  cases t <;> decide

/-- Flags below the page size are added to an aligned address. -/
theorem or_flags_toNat {w flags : BitVec 32} {k : Nat}
    (hw : w.toNat % 2 ^ k = 0) (hf : flags.toNat < 2 ^ k) :
    (w ||| flags).toNat = w.toNat + flags.toNat := by
  obtain ⟨q, hq⟩ := Nat.dvd_of_mod_eq_zero hw
  rw [BitVec.toNat_or, hq, Nat.two_pow_add_eq_or_of_lt hf]

-- ── Loops that fill a table ──

/-- The contents with the first `k` entries of a table given by `f`. -/
def fill (e : Contents) (t : Table) (f : Nat → Nat) (k : Nat) : Contents :=
  fun u j => if u = t ∧ j < k then f j else e u j

theorem fill_zero (e : Contents) (t : Table) (f : Nat → Nat) :
    fill e t f 0 = e := by
  funext u j
  exact if_neg fun h => Nat.not_lt_zero j h.2

theorem fill_next (e : Contents) (t : Table) (f : Nat → Nat) (k : Nat) :
    fill e t f k t k = e t k := if_neg fun h => Nat.lt_irrefl k h.2

theorem setEntry_fill (e : Contents) (t : Table) (f : Nat → Nat) (k : Nat) :
    setEntry (fill e t f k) t k (f k) = fill e t f (k + 1) := by
  funext u j
  by_cases hu : u = t
  · subst hu
    rcases Nat.lt_trichotomy j k with h | h | h
    · rw [setEntry_ne _ _ fun he => Nat.ne_of_lt h he.2]
      simp [fill, h, Nat.lt_succ_of_lt h]
    · subst h
      rw [setEntry_self]
      simp [fill]
    · rw [setEntry_ne _ _ fun he => Nat.ne_of_gt h he.2]
      simp [fill, Nat.not_lt_of_lt h, Nat.not_lt_of_le h]
  · rw [setEntry_ne _ _ fun he => hu he.1]
    simp [fill, hu]

/-- A loop has filled `k` entries of `t`: `esi` is at the next one, `eax`
    counts as `a` says, and nothing but memory and registers has changed. -/
structure Filling (p : Placement) (t : Table) (a f : Nat → Nat) (e : Contents)
    (s0 : Cpu) (k : Nat) (s : Cpu) : Prop where
  eax : (s.reg .eax).toNat = a k
  esi : (s.reg .esi).toNat = p.phys t + 8 * k
  holds : Holds p s.mem (fill e t f k)
  control : s.control = s0.control
  msr : s.msr = s0.msr

theorem Filling.decEcx {p : Placement} {t : Table} {a f : Nat → Nat}
    {e : Contents} {s0 s : Cpu} {k : Nat} (h : Filling p t a f e s0 k s) :
    Filling p t a f e s0 k (decEcx s) := ⟨h.eax, h.esi, h.holds, h.control, h.msr⟩

theorem Filling.esi_next {p : Placement} {t : Table} {a f : Nat → Nat}
    {e : Contents} {s0 s : Cpu} {k : Nat} (h : Filling p t a f e s0 k s)
    (hk : k < t.entries) :
    (s.reg .esi + 8).toNat = p.phys t + 8 * (k + 1) := by
  have := p.low t
  rw [BitVec.toNat_add, h.esi]
  show (p.phys t + 8 * k + 8) % 2 ^ 32 = _
  omega

/-- A page of 2 MB an entry. -/
def pageOf (k : Nat) : Nat := pageEntry (2 ^ 21 * k)

/-- The lower word of `pageOf k`. -/
theorem pageWord_toNat {w : BitVec 32} {k : Nat} (hw : w.toNat = k) :
    (w <<< 21 ||| x86KernelPdLpFlags).toNat =
      2 ^ 21 * (k % 2 ^ 11) + 0x183 := by
  have hs : (w <<< 21).toNat = 2 ^ 21 * (k % 2 ^ 11) := by
    rw [BitVec.toNat_shiftLeft, hw, Nat.shiftLeft_eq]
    omega
  have hf : x86KernelPdLpFlags.toNat = 0x183 := rfl
  rw [or_flags_toNat (k := 21) (by rw [hs]; omega) (by rw [hf]; omega), hs, hf]

theorem pteBody_round {p : Placement} {e : Contents} {s0 s : Cpu} {k : Nat}
    (hk : k < 512) (h0 : e .pte k = 0)
    (h : Filling p .pte id pageOf e s0 k s) :
    Filling p .pte id pageOf e s0 (k + 1) (decEcx (execBlock pteBody s)) := by
  refine Filling.decEcx ?_
  have hword := pageWord_toNat h.eax
  refine ⟨?_, ?_, ?_, h.control, h.msr⟩
  · show (s.reg .eax + 1).toNat = k + 1
    rw [BitVec.toNat_add, h.eax]
    show (k + 1) % 2 ^ 32 = k + 1
    omega
  · exact h.esi_next hk
  · show Holds p (store32 (s.reg .esi + 0#32).toNat
      (s.reg .eax <<< 21 ||| x86KernelPdLpFlags) s.mem) _
    rw [BitVec.add_zero, h.esi, ← setEntry_fill]
    refine h.holds.store_entry hk ((fill_next ..).trans h0) ?_
    rw [hword]
    rw [pageOf, pageEntry]
    show 2 ^ 21 * (k % 2 ^ 11) + 0x183 = _
    omega

theorem linearBody_round {p : Placement} {e : Contents} {s0 s : Cpu} {k : Nat}
    (hk : k < 32768) (h0 : e .linearMapPdp k = 0)
    (h : Filling p .linearMapPdp id pageOf e s0 k s) :
    Filling p .linearMapPdp id pageOf e s0 (k + 1)
      (decEcx (execBlock linearBody s)) := by
  refine Filling.decEcx ?_
  have hword := pageWord_toNat h.eax
  have hlow := p.low .linearMapPdp
  have hentries : Table.entries .linearMapPdp = 32768 := rfl
  have hk' : k < Table.entries .linearMapPdp := hentries ▸ hk
  refine ⟨?_, ?_, ?_, h.control, h.msr⟩
  · show (s.reg .eax + 1).toNat = k + 1
    rw [BitVec.toNat_add, h.eax]
    show (k + 1) % 2 ^ 32 = k + 1
    omega
  · exact h.esi_next hk'
  · show Holds p (store32 (s.reg .esi + 4).toNat (s.reg .eax >>> 11)
      (store32 (s.reg .esi + 0#32).toNat
        (s.reg .eax <<< 21 ||| x86KernelPdLpFlags) s.mem)) _
    have hhigh : (s.reg .esi + 4).toNat = p.phys .linearMapPdp + 8 * k + 4 := by
      rw [BitVec.toNat_add, h.esi]
      show (p.phys .linearMapPdp + 8 * k + 4) % 2 ^ 32 = _
      omega
    have hstored :=
      (h.holds.store_entry hk' ((fill_next ..).trans h0) hword).store_high hk'
        (s.reg .eax >>> 11)
    rw [BitVec.add_zero, hhigh, h.esi]
    intro t i hi
    rw [hstored t i hi, ← setEntry_fill]
    by_cases hsame : t = .linearMapPdp ∧ i = k
    · obtain ⟨rfl, rfl⟩ := hsame
      rw [setEntry_self, setEntry_self, setEntry_self, BitVec.toNat_ushiftRight,
        h.eax, Nat.shiftRight_eq_div_pow]
      rw [pageOf, pageEntry]
      show i / 2 ^ 11 * 2 ^ 32 + (2 ^ 21 * (i % 2 ^ 11) + 0x183) % 2 ^ 32 = _
      omega
    · rw [setEntry_ne _ _ hsame, setEntry_ne _ _ hsame, setEntry_ne _ _ hsame]

/-- The tables of the linear map, one an entry. -/
def linearTable (p : Placement) (k : Nat) : Nat :=
  tableEntry (p.phys .linearMapPdp + 4096 * k)

theorem pdpHighBody_round {p : Placement} {e : Contents} {s0 s : Cpu} {k : Nat}
    (hk : k < 64) (h0 : e .pdpHigh k = 0)
    (h : Filling p .pdpHigh (linearTable p) (linearTable p) e s0 k s) :
    Filling p .pdpHigh (linearTable p) (linearTable p) e s0 (k + 1)
      (decEcx (execBlock pdpHighBody s)) := by
  refine Filling.decEcx ?_
  have hlow := p.low .linearMapPdp
  have hentries : Table.entries .linearMapPdp = 32768 := rfl
  have hk' : k < Table.entries .pdpHigh := Nat.lt_trans hk (by decide)
  refine ⟨?_, ?_, ?_, h.control, h.msr⟩
  · show (s.reg .eax + 4096).toNat = _
    rw [BitVec.toNat_add, h.eax]
    unfold linearTable tableEntry
    show (p.phys .linearMapPdp + 4096 * k + 3 + 4096) % 2 ^ 32 = _
    omega
  · exact h.esi_next hk'
  · show Holds p (store32 (s.reg .esi + 0#32).toNat (s.reg .eax) s.mem) _
    rw [BitVec.add_zero, h.esi, ← setEntry_fill]
    exact h.holds.store_entry hk' ((fill_next ..).trans h0) h.eax

-- ── The whole of `paging_setup` ──

/-- Long mode is prepared, and the tables hold `e`. -/
structure Prepared (p : Placement) (e : Contents) (s : Cpu) : Prop where
  cr3 : (s.control .cr3).toNat = p.phys .pml4
  cr4 : (s.control .cr4).getLsbD 5 = true
  efer : (s.msr msrEfer).getLsbD 8 = true
  holds : Holds p s.mem e

/-- Registers and memory aside, nothing has changed since. -/
theorem Prepared.of_frame {p : Placement} {e e' : Contents} {s s' : Cpu}
    (h : Prepared p e s) (hc : s'.control = s.control) (hm : s'.msr = s.msr)
    (hh : Holds p s'.mem e') : Prepared p e' s' :=
  ⟨hc ▸ h.cr3, hc ▸ h.cr4, hm ▸ h.efer, hh⟩

theorem prepared_enableLongMode {p : Placement} {s : Cpu}
    (h : Zeroed p s.mem) :
    Prepared p (fun _ _ => 0) (execBlock (enableLongMode p) s) where
  cr3 := operand_toNat p .pml4 (by decide)
  cr4 := by
    show ((s.control .cr4 ||| BitVec.twoPow 32 5)).getLsbD 5 = true
    rw [BitVec.getLsbD_or, BitVec.getLsbD_twoPow]
    simp
  efer := by
    show (((s.msr msrEfer >>> 32).truncate 32 : BitVec 32) ++
      ((s.msr msrEfer).truncate 32 ||| eferLme)).getLsbD 8 = true
    rw [BitVec.getLsbD_append, if_pos (by decide), BitVec.getLsbD_or]
    exact Bool.or_eq_true_iff.mpr (.inr rfl)
  holds := holds_of_zeroed h

theorem tableWord_toNat {w : BitVec 32} {n : Nat} (hw : w.toNat = n)
    (h : n % 2 ^ 12 = 0) : (w ||| x86KernelPdFlags).toNat = tableEntry n := by
  have hf : x86KernelPdFlags.toNat = 3 := rfl
  rw [or_flags_toNat (k := 12) (by rw [hw]; exact h) (by rw [hf]; omega), hw, hf]
  rfl

/-- One link between two tables. -/
theorem Prepared.link {p : Placement} {e : Contents} {s : Cpu}
    (h : Prepared p e s) (table holder : Table) {i : Nat}
    (hi : i < holder.entries) (h0 : e holder i = 0) :
    Prepared p (setEntry e holder i (tableEntry (p.phys table)))
      (execBlock (linkTable p table holder (8 * i)) s) := by
  refine h.of_frame rfl rfl ?_
  show Holds p (store32 (p.operand holder (8 * i)).toNat
    (p.operand table 0 ||| x86KernelPdFlags) s.mem) _
  have hentries := entries_ge table
  rw [operand_toNat p holder (by omega)]
  refine h.holds.store_entry hi h0 (tableWord_toNat ?_ (p.aligned table))
  exact operand_toNat p table (by omega)

/-- The entries that point at tables, before the loops. -/
def linkedContents (p : Placement) : Contents :=
  setEntry (setEntry (setEntry (setEntry (fun _ _ => 0)
    .pml4 0 (tableEntry (p.phys .pdp)))
    .pdp 0 (tableEntry (p.phys .pte)))
    .pml4 511 (tableEntry (p.phys .pdpHigh)))
    .pdpHigh 510 (tableEntry (p.phys .pte))

/-- What the tables hold in the end. -/
def bootContents (p : Placement) : Contents :=
  fill (fill (fill (linkedContents p)
    .pte pageOf 512)
    .linearMapPdp pageOf 32768)
    .pdpHigh (linearTable p) 64

/-- A loop that fills a table, from the block before it. -/
theorem Prepared.loop {p : Placement} {e : Contents} {s : Cpu} {t : Table}
    {a f : Nat → Nat} {n : Nat} {before body : List Instr} {fuel : Nat}
    (h : Prepared p e s) (hn : 0 < n) (hfuel : n ≤ fuel)
    (hecx : ∀ s, (execBlock body s).reg .ecx = s.reg .ecx)
    (hround : ∀ s0 s k, k < n → Filling p t a f e s0 k s →
      Filling p t a f e s0 (k + 1) (decEcx (execBlock body s)))
    (hcount : ((execBlock before s).reg .ecx).toNat = n)
    (hstart : Filling p t a f e s 0 (execBlock before s)) :
    ∃ s', Prepared p (fill e t f n) s' ∧
      ∀ rest, run fuel (block before ++ .loop body :: rest) s =
        run fuel rest s' := by
  obtain ⟨s', hrun, hfill⟩ := execLoop_invariant (P := Filling p t a f e s) hn
    hecx (fun k s' hk hP => hround s s' k hk hP) hfuel hcount hstart
  refine ⟨s', h.of_frame hfill.control hfill.msr hfill.holds, fun rest => ?_⟩
  rw [run_block, run_loop hrun]

theorem Prepared.enterPte {p : Placement} {e : Contents} {s : Cpu}
    (h : Prepared p e s) (f : Nat → Nat) :
    Filling p .pte id f e s 0 (execBlock (enterPte p) s) where
  eax := by
    show (s.reg .eax ^^^ s.reg .eax).toNat = 0
    rw [BitVec.xor_self]
    rfl
  esi := operand_toNat p .pte (by decide)
  holds := by
    rw [fill_zero]
    exact h.holds
  control := rfl
  msr := rfl

theorem Prepared.enterLinear {p : Placement} {e : Contents} {s : Cpu}
    (h : Prepared p e s) (f : Nat → Nat) :
    Filling p .linearMapPdp id f e s 0 (execBlock (enterLinear p) s) where
  eax := by
    show (s.reg .eax ^^^ s.reg .eax).toNat = 0
    rw [BitVec.xor_self]
    rfl
  esi := operand_toNat p .linearMapPdp (by decide)
  holds := by
    rw [fill_zero]
    exact h.holds
  control := rfl
  msr := rfl

theorem Prepared.enterPdpHigh {p : Placement} {e : Contents} {s : Cpu}
    (h : Prepared p e s) (f : Nat → Nat) :
    Filling p .pdpHigh (linearTable p) f e s 0
      (execBlock (enterPdpHigh p) s) where
  eax := tableWord_toNat (operand_toNat p .linearMapPdp (by decide))
    (p.aligned .linearMapPdp)
  esi := operand_toNat p .pdpHigh (by decide)
  holds := by
    rw [fill_zero]
    exact h.holds
  control := rfl
  msr := rfl

theorem fourLevelPaging_enablePaging {p : Placement} {e : Contents} {s : Cpu}
    (h : Prepared p e s) : FourLevelPaging (execBlock enablePaging s) := by
  refine ⟨?_, h.cr4, h.efer⟩
  show (s.control .cr0 ||| BitVec.twoPow 32 31).getLsbD 31 = true
  rw [BitVec.getLsbD_or, BitVec.getLsbD_twoPow]
  simp

theorem linked_pagingSetup {p : Placement} {s : Cpu} (h : Zeroed p s.mem) :
    Prepared p (linkedContents p)
      (execBlock (linkTable p .pte .pdpHigh (8 * 510))
        (execBlock (linkTable p .pdpHigh .pml4 (8 * 511))
          (execBlock (linkTable p .pte .pdp (8 * 0))
            (execBlock (linkTable p .pdp .pml4 (8 * 0))
              (execBlock (enableLongMode p) s))))) := by
  have h1 := (prepared_enableLongMode h).link .pdp .pml4 (i := 0) (by decide) rfl
  have h2 := h1.link .pte .pdp (i := 0) (by decide) rfl
  have h3 := h2.link .pdpHigh .pml4 (i := 511) (by decide) rfl
  exact h3.link .pte .pdpHigh (i := 510) (by decide) rfl

theorem linkedContents_pte (p : Placement) (k : Nat) :
    linkedContents p .pte k = 0 := rfl

theorem linkedContents_linear (p : Placement) (k : Nat) :
    linkedContents p .linearMapPdp k = 0 := rfl

theorem linkedContents_pdpHigh (p : Placement) {k : Nat} (h : k ≠ 510) :
    linkedContents p .pdpHigh k = 0 := if_neg fun he => h he.2

/-- `paging_setup` terminates with the tables filled and paging on. -/
theorem run_pagingSetup (p : Placement) {s : Cpu} (h : Zeroed p s.mem)
    {fuel : Nat} (hfuel : 32768 ≤ fuel) :
    ∃ s', run fuel (pagingSetup p) s = some s' ∧ FourLevelPaging s' ∧
      (s'.control .cr3).toNat = p.phys .pml4 ∧
      Holds p s'.mem (bootContents p) := by
  -- the first 1 GB, the linear map, the tables of the linear map
  obtain ⟨s1, h1, hrun1⟩ := (linked_pagingSetup h).loop
    (Nat.zero_lt_succ 511) (Nat.le_trans (by omega) hfuel) (fun _ => rfl)
    (fun _ _ k hk => pteBody_round hk (linkedContents_pte p k)) rfl
    ((linked_pagingSetup h).enterPte pageOf)
  obtain ⟨s2, h2, hrun2⟩ := h1.loop
    (Nat.zero_lt_succ 32767) hfuel (fun _ => rfl)
    (fun _ _ k hk => linearBody_round hk (linkedContents_linear p k)) rfl
    (h1.enterLinear pageOf)
  obtain ⟨s3, h3, hrun3⟩ := h2.loop
    (Nat.zero_lt_succ 63) (Nat.le_trans (by omega) hfuel) (fun _ => rfl)
    (fun _ _ k hk => pdpHighBody_round hk
      (linkedContents_pdpHigh p (by omega))) rfl
    (h2.enterPdpHigh (linearTable p))
  refine ⟨execBlock enablePaging s3, ?_, fourLevelPaging_enablePaging h3,
    h3.cr3, h3.holds⟩
  rw [pagingSetup]
  rw [run_block, run_block, run_block, run_block, run_block]
  rw [hrun1, hrun2, hrun3, run_block]
  rfl

-- ── The walk through these tables ──

/-- The three windows: the low 1 GB, its alias for the kernel image, and the
    linear map of 64 GB. -/
def InWindow (v x : Nat) : Prop :=
  (v < 2 ^ 30 ∧ x = v) ∨
  (kernelBase ≤ v ∧ v < kernelBase + 2 ^ 30 ∧ x = v - kernelBase) ∨
  (kernelSpaceBase ≤ v ∧ v < kernelSpaceBase + 2 ^ 36 ∧ x = v - kernelSpaceBase)

section Walk

variable {p : Placement} {m : Mem} (h : Holds p m (bootContents p))
include h

theorem entry_pml4 {i : Nat} (hi : i < 512) :
    entryAt m (p.phys .pml4) i =
      if i = 511 then tableEntry (p.phys .pdpHigh)
      else if i = 0 then tableEntry (p.phys .pdp) else 0 := by
  rw [h .pml4 i hi]
  by_cases h1 : i = 511
  · subst h1; rfl
  · rw [if_neg h1]
    by_cases h0 : i = 0
    · subst h0; rfl
    · rw [if_neg h0]
      simp [bootContents, fill, linkedContents, setEntry, h0, h1]

theorem entry_pdp {i : Nat} (hi : i < 512) :
    entryAt m (p.phys .pdp) i =
      if i = 0 then tableEntry (p.phys .pte) else 0 := by
  rw [h .pdp i hi]
  by_cases h0 : i = 0
  · subst h0; rfl
  · rw [if_neg h0]
    simp [bootContents, fill, linkedContents, setEntry, h0]

theorem entry_pdpHigh {i : Nat} (hi : i < 512) :
    entryAt m (p.phys .pdpHigh) i =
      if i < 64 then linearTable p i
      else if i = 510 then tableEntry (p.phys .pte) else 0 := by
  rw [h .pdpHigh i hi]
  by_cases h1 : i < 64
  · rw [if_pos h1]
    exact if_pos ⟨rfl, h1⟩
  · rw [if_neg h1]
    simp [bootContents, fill, linkedContents, setEntry, h1]

/-- The page directory of the low 1 GB. -/
theorem walkPd_pte (v : Nat) :
    walkPd m (p.phys .pte) v = some (v % 2 ^ 30) := by
  have hi : index 21 v < 512 := Nat.mod_lt _ (by decide)
  have he : entryAt m (p.phys .pte) (index 21 v) =
      pageEntry (2 ^ 21 * index 21 v) := by
    rw [h .pte _ hi]
    show fill (linkedContents p) .pte pageOf 512 .pte (index 21 v) = _
    exact if_pos ⟨rfl, hi⟩
  rw [walkPd_of_page he (Nat.mul_mod_right ..) (by omega)]
  rw [index]
  congr 1
  omega

/-- The page directories of the linear map, the `j`-th of which covers the
    `j`-th GB. -/
theorem walkPd_linear {j : Nat} (hj : j < 64) (v : Nat) :
    walkPd m (p.phys .linearMapPdp + 4096 * j) v =
      some (2 ^ 30 * j + v % 2 ^ 30) := by
  have hi : index 21 v < 512 := Nat.mod_lt _ (by decide)
  have hlt : 512 * j + index 21 v < 32768 := by omega
  have he : entryAt m (p.phys .linearMapPdp + 4096 * j) (index 21 v) =
      pageEntry (2 ^ 21 * (512 * j + index 21 v)) := by
    have haddr : p.phys .linearMapPdp + 4096 * j + 8 * index 21 v =
        p.phys .linearMapPdp + 8 * (512 * j + index 21 v) := by omega
    rw [entryAt]
    rw [haddr]
    refine (h .linearMapPdp _ hlt).trans ?_
    show fill _ .linearMapPdp pageOf 32768 .linearMapPdp _ = _
    exact if_pos ⟨rfl, hlt⟩
  rw [walkPd_of_page he (Nat.mul_mod_right ..) (by omega)]
  rw [index]
  congr 1
  omega

theorem walkPdpt_pdp (v : Nat) :
    walkPdpt m (p.phys .pdp) v =
      if index 30 v = 0 then some (v % 2 ^ 30) else none := by
  have he := entry_pdp h (i := index 30 v) (Nat.mod_lt _ (by decide))
  have hpte := p.low .pte
  by_cases h0 : index 30 v = 0
  · rw [if_pos h0] at he ⊢
    rw [walkPdpt_of_table he (p.aligned _) (by omega), walkPd_pte h]
  · rw [if_neg h0] at he ⊢
    exact walkPdpt_of_absent he

theorem walkPdpt_pdpHigh (v : Nat) :
    walkPdpt m (p.phys .pdpHigh) v =
      if index 30 v < 64 then some (2 ^ 30 * index 30 v + v % 2 ^ 30)
      else if index 30 v = 510 then some (v % 2 ^ 30) else none := by
  have he := entry_pdpHigh h (i := index 30 v) (Nat.mod_lt _ (by decide))
  have hpte := p.low .pte
  have hlinear := p.low .linearMapPdp
  have haligned := p.aligned .linearMapPdp
  by_cases h1 : index 30 v < 64
  · rw [if_pos h1] at he ⊢
    rw [walkPdpt_of_table he (by omega) (by omega), walkPd_linear h h1]
  · rw [if_neg h1] at he ⊢
    by_cases h2 : index 30 v = 510
    · rw [if_pos h2] at he ⊢
      rw [walkPdpt_of_table he (p.aligned _) (by omega), walkPd_pte h]
    · rw [if_neg h2] at he ⊢
      exact walkPdpt_of_absent he

/-- The walk from the top table. -/
theorem walk_boot {cr3 : Nat} (hcr3 : cr3 = p.phys .pml4) (v : Nat) :
    walk m cr3 v =
      if index 39 v = 511 then walkPdpt m (p.phys .pdpHigh) v
      else if index 39 v = 0 then walkPdpt m (p.phys .pdp) v else none := by
  have hlow := fun t => p.low t
  have hframe : frame 12 cr3 = p.phys .pml4 := by
    have := p.aligned .pml4
    have := p.low .pml4
    rw [frame]
    omega
  have he := entry_pml4 h (i := index 39 v) (Nat.mod_lt _ (by decide))
  rw [← hframe] at he
  by_cases h1 : index 39 v = 511
  · rw [if_pos h1] at he ⊢
    have := hlow .pdpHigh
    exact walk_of_table he (p.aligned _) (by omega)
  · rw [if_neg h1] at he ⊢
    by_cases h0 : index 39 v = 0
    · rw [if_pos h0] at he ⊢
      have := hlow .pdp
      exact walk_of_table he (p.aligned _) (by omega)
    · rw [if_neg h0] at he ⊢
      exact walk_of_absent he

/-- A canonical address is mapped exactly inside the windows. -/
theorem walk_eq_some_iff {cr3 : Nat} (hcr3 : cr3 = p.phys .pml4)
    {v : BitVec 64} (hv : Canonical v) (x : Nat) :
    walk m cr3 v.toNat = some x ↔ InWindow v.toNat x := by
  have hlt := v.isLt
  rw [walk_boot h hcr3]
  rw [InWindow, kernelBase, kernelSpaceBase]
  rw [Canonical] at hv
  generalize v.toNat = n at hv hlt
  by_cases h1 : index 39 n = 511
  · rw [if_pos h1, walkPdpt_pdpHigh h]
    rw [index] at h1 ⊢
    split_ifs with h2 h3
    · rw [Option.some_inj]
      omega
    · rw [Option.some_inj]
      omega
    · exact ⟨by simp, by omega⟩
  · rw [if_neg h1]
    by_cases h0 : index 39 n = 0
    · rw [if_pos h0, walkPdpt_pdp h]
      rw [index] at h0 h1 ⊢
      split_ifs with h2
      · rw [Option.some_inj]
        omega
      · exact ⟨by simp, by omega⟩
    · rw [if_neg h0]
      rw [index] at h0 h1
      exact ⟨by simp, by omega⟩

end Walk

theorem phys2virt_toNat {x : Nat} (hx : x < 2 ^ 36) :
    (phys2virt x).toNat = kernelSpaceBase + x := by
  rw [phys2virt, kernelSpaceBase]
  rw [BitVec.toNat_ofNat, Nat.mod_eq_of_lt (by omega), Nat.add_comm]

theorem canonical_phys2virt {x : Nat} (hx : x < 2 ^ 36) :
    Canonical (phys2virt x) := by
  right
  rw [phys2virt_toNat hx]
  rw [kernelSpaceBase]
  omega

/-- **What `paging_setup` maps.**  Wherever the tables are placed in the low
    1 GB and whatever the registers and the rest of memory hold, it comes to
    an end with paging on, and then a canonical virtual address is mapped to
    `x` iff it is the address of `x` in one of the three windows; so every
    physical address below 64 GB is what its `phys2virt` is mapped to, and the
    aliases of the first 1 GB agree. -/
theorem pagingSetup_maps (p : Placement) (s : Cpu) (hz : Zeroed p s.mem)
    (fuel : Nat) (hfuel : 32768 ≤ fuel) :
    ∃ s', run fuel (pagingSetup p) s = some s' ∧ FourLevelPaging s' ∧
      (∀ v, Canonical v → ∀ x, translate s' v = some x ↔ InWindow v.toNat x) ∧
      (∀ x < 2 ^ 36, translate s' (phys2virt x) = some x) ∧
      (∀ x < 2 ^ 30,
        translate s' (BitVec.ofNat 64 x) = some x ∧
        translate s' (BitVec.ofNat 64 (kernelBase + x)) = some x ∧
        translate s' (phys2virt x) = some x) := by
  obtain ⟨s', hrun, hpaging, hcr3, hholds⟩ := run_pagingSetup p hz hfuel
  have hwalk := fun v hv x => walk_eq_some_iff hholds hcr3 (v := v) hv x
  have hlinear : ∀ x < 2 ^ 36, translate s' (phys2virt x) = some x := by
    intro x hx
    refine (hwalk _ (canonical_phys2virt hx) x).mpr (.inr (.inr ?_))
    rw [phys2virt_toNat hx]
    omega
  refine ⟨s', hrun, hpaging, hwalk, hlinear, fun x hx => ⟨?_, ?_, ?_⟩⟩
  · have hv : (BitVec.ofNat 64 x).toNat = x :=
      (BitVec.toNat_ofNat ..).trans (Nat.mod_eq_of_lt (by omega))
    refine (hwalk _ (.inl (by omega)) x).mpr (.inl ?_)
    omega
  · have hv : (BitVec.ofNat 64 (kernelBase + x)).toNat = kernelBase + x :=
      (BitVec.toNat_ofNat ..).trans
        (Nat.mod_eq_of_lt (by unfold kernelBase; omega))
    have hc : Canonical (BitVec.ofNat 64 (kernelBase + x)) := by
      right
      rw [hv]
      rw [kernelBase]
      omega
    refine (hwalk _ hc x).mpr (.inr (.inl ?_))
    omega
  · exact hlinear x (by omega)

/-- The tables one after the other from 2 MB on. -/
def lowPlacement : Placement where
  phys
    | .pml4 => 0x200000
    | .pdp => 0x201000
    | .pdpHigh => 0x202000
    | .pte => 0x203000
    | .linearMapPdp => 0x204000
  aligned t := by cases t <;> decide
  low t := by cases t <;> decide
  disjoint t u := by cases t <;> cases u <;> decide

/-- The theorem at this placement, with all of memory zero. -/
theorem pagingSetup_maps_low :
    ∃ s', run 32768 (pagingSetup lowPlacement)
        ⟨fun _ => 0, fun _ => 0, fun _ => 0, fun _ => 0⟩ = some s' ∧
      translate s' (phys2virt 0x123456789) = some 0x123456789 := by
  obtain ⟨s', hrun, -, -, hlinear, -⟩ := pagingSetup_maps lowPlacement
    ⟨fun _ => 0, fun _ => 0, fun _ => 0, fun _ => 0⟩ (fun _ _ _ _ => rfl)
    32768 (Nat.le_refl _)
  exact ⟨s', hrun, hlinear _ (by decide)⟩

end ChinixKernelMappings

import Chinix.KernelMappings
import Chinix.LoopInstruction
import Chinix.WordMemory

/-! # Zeroing the bss (boot/start.S, boot/linker.ld)

    `bss_setup` runs before `paging_setup`, in the same 32-bit mode, and
    stores zero words from `PHYS(__bss_start)` on.  The page tables are in the
    bss, so that `paging_setup` may rely on their being zero: the two together
    map the kernel from any contents of memory. -/

namespace ChinixBssSetup

open PageWalk Assembly WordMemory LoopInstruction
open ChinixPagingSetup ChinixKernelMappings

/-- The processor with the register that only `bss_setup` uses. -/
structure BssCpu extends Cpu where
  edi : BitVec 32

/-- The instructions of `bss_setup`. -/
inductive BssInstr where
  /-- `movl $imm, %edi`. -/
  | movEdi (imm : BitVec 32)
  /-- `movl $imm, %ecx`. -/
  | movEcx (imm : BitVec 32)
  /-- `subl %edi, %ecx`. -/
  | subEdiEcx
  /-- `shrl $count, %ecx`. -/
  | shrEcx (count : Nat)
  /-- `movl $imm, (%edi)`. -/
  | storeImm (imm : BitVec 32)
  /-- `addl $imm, %edi`. -/
  | addEdi (imm : BitVec 32)

/-- A write of `ecx`. -/
def setEcx (w : BitVec 32) (s : BssCpu) : BssCpu :=
  { s with toCpu := s.setReg .ecx w }

/-- One instruction. -/
def execBss (s : BssCpu) : BssInstr → BssCpu
  | .movEdi imm => { s with edi := imm }
  | .movEcx imm => setEcx imm s
  | .subEdiEcx => setEcx (s.reg .ecx - s.edi) s
  | .shrEcx count => setEcx (s.reg .ecx >>> count) s
  | .storeImm imm => { s with mem := store32 s.edi.toNat imm s.mem }
  | .addEdi imm => { s with edi := s.edi + imm }

/-- The symbols of the linker script, less `PHYS_ADDR_DELTA`; the section is
    not empty, and is in the low 4 GB. -/
structure Bss where
  start : Nat
  stop : Nat
  startAligned : start % 4096 = 0
  stopAligned : stop % 8 = 0
  nonempty : start < stop
  low : stop < 2 ^ 32

/-- Before the loop. -/
def enterBss (b : Bss) : List BssInstr :=
  [.movEdi (BitVec.ofNat 32 b.start),
   .movEcx (BitVec.ofNat 32 b.stop),
   .subEdiEcx,
   .shrEcx 2]

/-- One word. -/
def bssBody : List BssInstr :=
  [.storeImm 0,
   .addEdi 4]

/-- The body and the count of `loop`. -/
def bssRound (s : BssCpu) : BssCpu :=
  let s := bssBody.foldl execBss s
  setEcx (s.reg .ecx - 1) s

/-- `bss_setup`. -/
def bssSetup (b : Bss) (fuel : Nat) (s : BssCpu) : Option BssCpu :=
  loopDown (fun s => s.reg .ecx) bssRound fuel ((enterBss b).foldl execBss s)

/-! ## The loop -/

@[simp] theorem setEcx_ecx (w : BitVec 32) (s : BssCpu) :
    (setEcx w s).reg .ecx = w := by
  show (s.setReg .ecx w).reg .ecx = w
  rw [Cpu.setReg_reg, if_pos rfl]

theorem bssRound_ecx (s : BssCpu) :
    (bssRound s).reg .ecx = s.reg .ecx - 1 := setEcx_ecx _ _

/-- The next word is zeroed. -/
theorem store32_memzero (a n : Nat) (m : Mem) :
    store32 (a + n) 0 (memzero a n m) = memzero a (n + 4) m := by
  funext x
  rw [store32, memzero, memzero]
  have hzero : ∀ i, BitVec.extractLsb' i 8 (0 : BitVec 32) = 0 := by simp
  rw [hzero, hzero, hzero, hzero]
  split_ifs <;> first | rfl | omega

/-- `k` words are zero. -/
structure Zeroing (b : Bss) (s0 : BssCpu) (k : Nat) (s : BssCpu) : Prop where
  mem : s.mem = memzero b.start (4 * k) s0.mem
  edi : s.edi.toNat = b.start + 4 * k
  control : s.control = s0.control
  msr : s.msr = s0.msr

theorem Zeroing.round {b : Bss} {s0 s : BssCpu} {k : Nat}
    (h : Zeroing b s0 k s) (hk : b.start + 4 * k < b.stop) :
    Zeroing b s0 (k + 1) (bssRound s) := by
  have hlow := b.low
  have hstart := b.startAligned
  have hstop := b.stopAligned
  refine ⟨?_, ?_, h.control, h.msr⟩
  · show store32 s.edi.toNat 0 s.mem = _
    rw [h.edi, h.mem, store32_memzero]
    rfl
  · show (s.edi + 4).toNat = _
    rw [BitVec.toNat_add, h.edi]
    show (b.start + 4 * k + 4) % 2 ^ 32 = _
    rw [Nat.mod_eq_of_lt (by omega)]
    omega

/-- `ecx` when the loop is entered: the length in words. -/
theorem enterBss_ecx (b : Bss) (s : BssCpu) :
    (((enterBss b).foldl execBss s).reg .ecx).toNat
      = (b.stop - b.start) / 4 := by
  have hlow := b.low
  have hlt := b.nonempty
  have hwords : ((enterBss b).foldl execBss s).reg .ecx
      = (BitVec.ofNat 32 b.stop - BitVec.ofNat 32 b.start) >>> 2 := rfl
  rw [hwords, BitVec.toNat_ushiftRight, Nat.shiftRight_eq_div_pow]
  rw [BitVec.toNat_sub, BitVec.toNat_ofNat, BitVec.toNat_ofNat]
  rw [Nat.mod_eq_of_lt (by omega : b.start < 2 ^ 32), Nat.mod_eq_of_lt hlow]
  rw [Nat.mod_eq_sub_mod (by omega), Nat.mod_eq_of_lt (by omega)]
  have hlen : 2 ^ 32 - b.start + b.stop - 2 ^ 32 = b.stop - b.start := by omega
  rw [hlen]

/-- **`bss_setup` zeroes the bss** and nothing else, and leaves the control
    registers alone. -/
theorem bssSetup_zeroes (b : Bss) (s : BssCpu) {fuel : Nat}
    (hfuel : 2 ^ 30 ≤ fuel) :
    ∃ s', bssSetup b fuel s = some s' ∧
      s'.mem = memzero b.start (b.stop - b.start) s.mem ∧
      s'.control = s.control ∧ s'.msr = s.msr := by
  have hlow := b.low
  have hlt := b.nonempty
  have hstart := b.startAligned
  have hstop := b.stopAligned
  have hecx := enterBss_ecx b s
  have hzero : Zeroing b s 0 ((enterBss b).foldl execBss s) := by
    refine ⟨?_, ?_, rfl, rfl⟩
    · funext x
      exact (if_neg (by omega)).symm
    · show (BitVec.ofNat 32 b.start).toNat = _
      rw [BitVec.toNat_ofNat, Nat.mod_eq_of_lt (by omega)]
      omega
  have htrips : trips (((enterBss b).foldl execBss s).reg .ecx)
      = (b.stop - b.start) / 4 :=
    (trips_of_pos (by rw [hecx]; omega)).trans hecx
  have hrounds : (b.stop - b.start) / 4 ≤ fuel := by omega
  obtain ⟨s', hrun, hend⟩ := loopDown_rule (fun s => s.reg .ecx) bssRound
    bssRound_ecx htrips hrounds hzero fun k _ hk h => h.round (by omega)
  refine ⟨s', hrun, ?_, hend.control, hend.msr⟩
  have hbytes : 4 * ((b.stop - b.start) / 4) = b.stop - b.start := by omega
  rw [hend.mem, hbytes]

/-! ## With `paging_setup` -/

/-- The tables of mmu.c are in the bss. -/
def TablesIn (b : Bss) (p : Placement) : Prop :=
  ∀ t, b.start ≤ p.phys t ∧ p.phys t + 8 * t.entries ≤ b.stop

instance (b : Bss) (p : Placement) : Decidable (TablesIn b p) :=
  decidable_of_iff
    (∀ t ∈ [Table.pml4, .pdp, .pdpHigh, .pte, .linearMapPdp],
      b.start ≤ p.phys t ∧ p.phys t + 8 * t.entries ≤ b.stop)
    ⟨fun h t => h t (by cases t <;> decide), fun h t _ => h t⟩

/-- The boot code from `bss_setup` up to the jump to 64-bit code. -/
def setupMemory (b : Bss) (p : Placement) (fuel : Nat) (s : BssCpu) :
    Option Cpu :=
  (bssSetup b fuel s).bind fun s => run fuel (pagingSetup p) s.toCpu

theorem zeroed_of_bss {b : Bss} {p : Placement} (h : TablesIn b p) (m : Mem) :
    Zeroed p (memzero b.start (b.stop - b.start) m) := by
  intro t x hlo hhi
  obtain ⟨hfirst, hlast⟩ := h t
  exact if_pos (by omega)

/-- **The boot code maps the kernel from any contents of memory**: behind
    `bss_setup` and `paging_setup` paging is on, a canonical virtual address
    is mapped exactly inside the three windows, and the linear map reaches
    every physical address below 64 GB. -/
theorem setupMemory_maps (b : Bss) (p : Placement) (h : TablesIn b p)
    (s : BssCpu) (fuel : Nat) (hfuel : 2 ^ 30 ≤ fuel) :
    ∃ s', setupMemory b p fuel s = some s' ∧ FourLevelPaging s' ∧
      (∀ v, Canonical v → ∀ x,
        translate s' v = some x ↔ InWindow v.toNat x) ∧
      ∀ x < 2 ^ 36, translate s' (phys2virt x) = some x := by
  obtain ⟨s1, hbss, hmem, -, -⟩ := bssSetup_zeroes b s hfuel
  have hz : Zeroed p s1.mem := by
    rw [hmem]
    exact zeroed_of_bss h s.mem
  have hfuel' : 32768 ≤ fuel := by omega
  obtain ⟨s2, hrun, hpaging, hcr3, hholds⟩ := run_pagingSetup p hz hfuel'
  refine ⟨s2, ?_, hpaging,
    fun v hv x => walk_eq_some_iff hholds hcr3 hv x, fun x hx => ?_⟩
  · rw [setupMemory, hbss]
    exact hrun
  · refine (walk_eq_some_iff hholds hcr3 (canonical_phys2virt hx) x).mpr
      (.inr (.inr ?_))
    rw [phys2virt_toNat hx]
    omega

/-- A bss of 2 MB that holds the tables of `lowPlacement`. -/
def lowBss : Bss := ⟨0x200000, 0x400000, by decide, by decide, by decide,
  by decide⟩

/-- The theorem with all of memory `0xff`. -/
theorem setupMemory_maps_lowBss :
    ∃ s', setupMemory lowBss lowPlacement (2 ^ 30)
        ⟨⟨fun _ => 0, fun _ => 0, fun _ => 0, fun _ => 0xff⟩, 0⟩ = some s' ∧
      translate s' (phys2virt 0x123456789) = some 0x123456789 := by
  obtain ⟨s', hrun, -, -, hlinear⟩ := setupMemory_maps lowBss lowPlacement
    (by decide) ⟨⟨fun _ => 0, fun _ => 0, fun _ => 0, fun _ => 0xff⟩, 0⟩
    (2 ^ 30) (Nat.le_refl _)
  exact ⟨s', hrun, hlinear _ (by decide)⟩

end ChinixBssSetup

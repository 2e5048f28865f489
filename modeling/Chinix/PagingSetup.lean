import Chinix.Assembly

/-! # The page tables of the boot code (boot/start.S, arch/x64/mmu.c)

    `paging_setup` runs in 32-bit mode with paging off: every address it
    stores to is physical, `PHYS` of a symbol.  Where the linker puts the five
    tables is a parameter. -/

namespace ChinixPagingSetup

open PageWalk Assembly

/-- `KERNEL_BASE`. -/
def kernelBase : Nat := 0xffffffff80000000

/-- `KERNEL_SPACE_BASE`. -/
def kernelSpaceBase : Nat := 0xffffff8000000000

/-- `phys2virt`. -/
def phys2virt (x : Nat) : BitVec 64 := BitVec.ofNat 64 (x + kernelSpaceBase)

/-- `X86_KERNEL_PD_FLAGS`: writable, present. -/
def x86KernelPdFlags : BitVec 32 := 0x002 + 0x001

/-- `X86_KERNEL_PD_LP_FLAGS`: global, page size, writable, present. -/
def x86KernelPdLpFlags : BitVec 32 := 0x100 + 0x080 + 0x002 + 0x001

/-- `MSR_EFER`. -/
def msrEfer : BitVec 32 := 0xc0000080

/-- `EFER_LME`. -/
def eferLme : BitVec 32 := 0x00000100

/-- The tables of mmu.c. -/
inductive Table where
  | pml4
  | pdp
  | pdpHigh
  | pte
  | linearMapPdp
  deriving DecidableEq, Repr

/-- The declared lengths: `NO_OF_PT_ENTRIES`, and 64 GB in steps of 2 MB. -/
def Table.entries : Table → Nat
  | .linearMapPdp => (64 <<< 30) / (2 <<< 20)
  | _ => 512

/-- A placement of the tables: page-aligned, disjoint, in the low 1 GB. -/
structure Placement where
  phys : Table → Nat
  aligned : ∀ t, phys t % 2 ^ 12 = 0
  low : ∀ t, phys t + 8 * t.entries ≤ 2 ^ 30
  disjoint : ∀ t u, t ≠ u →
    phys t + 8 * t.entries ≤ phys u ∨ phys u + 8 * u.entries ≤ phys t

/-- `PHYS(table + disp)` as an operand. -/
def Placement.operand (p : Placement) (t : Table) (disp : Nat) : BitVec 32 :=
  BitVec.ofNat 32 (p.phys t + disp)

/-- PAE, `CR3` and long mode. -/
def enableLongMode (p : Placement) : List Instr :=
  [.movFromControl .cr4 .eax,
   .bts 5 .eax,
   .movToControl .eax .cr4,
   .movImm (p.operand .pml4 0) .eax,
   .movToControl .eax .cr3,
   .movImm msrEfer .ecx,
   .rdmsr,
   .orImm eferLme .eax,
   .wrmsr]

/-- A table's address with the flags goes to an entry. -/
def linkTable (p : Placement) (table : Table) (holder : Table) (disp : Nat) :
    List Instr :=
  [.movImm (p.operand table 0) .eax,
   .orImm x86KernelPdFlags .eax,
   .storeAbs .eax (p.operand holder disp)]

/-- Before the loop over the first 1 GB. -/
def enterPte (p : Placement) : List Instr :=
  [.movImm (p.operand .pte 0) .esi,
   .movImm 0x200 .ecx,
   .xor .eax .eax]

/-- One entry of the first 1 GB. -/
def pteBody : List Instr :=
  [.mov .eax .ebx,
   .shl 21 .ebx,
   .orImm x86KernelPdLpFlags .ebx,
   .store .ebx 0 .esi,
   .addImm 8 .esi,
   .inc .eax]

/-- Before the loop over the linear map. -/
def enterLinear (p : Placement) : List Instr :=
  [.movImm (p.operand .linearMapPdp 0) .esi,
   .movImm 32768 .ecx,
   .xor .eax .eax]

/-- One entry of the linear map, in two halves. -/
def linearBody : List Instr :=
  [.mov .eax .ebx,
   .shl 21 .ebx,
   .orImm x86KernelPdLpFlags .ebx,
   .store .ebx 0 .esi,
   .mov .eax .ebx,
   .shr 11 .ebx,
   .store .ebx 4 .esi,
   .addImm 8 .esi,
   .inc .eax]

/-- Before the loop over the tables of the linear map. -/
def enterPdpHigh (p : Placement) : List Instr :=
  [.movImm (p.operand .pdpHigh 0) .esi,
   .movImm 64 .ecx,
   .movImm (p.operand .linearMapPdp 0) .eax,
   .orImm x86KernelPdFlags .eax]

/-- One entry of the high table. -/
def pdpHighBody : List Instr :=
  [.store .eax 0 .esi,
   .addImm 8 .esi,
   .addImm 4096 .eax]

/-- Paging goes on. -/
def enablePaging : List Instr :=
  [.movFromControl .cr0 .eax,
   .bts 31 .eax,
   .movToControl .eax .cr0]

/-- `paging_setup`. -/
def pagingSetup (p : Placement) : List Stmt :=
  block (enableLongMode p) ++
  (block (linkTable p .pdp .pml4 0) ++
  (block (linkTable p .pte .pdp 0) ++
  (block (linkTable p .pdpHigh .pml4 (8 * 511)) ++
  (block (linkTable p .pte .pdpHigh (8 * 510)) ++
  (block (enterPte p) ++ .loop pteBody ::
  (block (enterLinear p) ++ .loop linearBody ::
  (block (enterPdpHigh p) ++ .loop pdpHighBody ::
  (block enablePaging ++ []))))))))

/-- The mode in which the processor makes the four-level walk. -/
def FourLevelPaging (s : Cpu) : Prop :=
  (s.control .cr0).getLsbD 31 = true ∧ (s.control .cr4).getLsbD 5 = true ∧
    (s.msr msrEfer).getLsbD 8 = true

/-- What a virtual address is mapped to. -/
def translate (s : Cpu) (v : BitVec 64) : Option Nat :=
  walk s.mem (s.control .cr3).toNat v.toNat

/-- The tables read as zero, as `bss_setup` leaves them. -/
def Zeroed (p : Placement) (m : Mem) : Prop :=
  ∀ (t : Table) (x : Nat), p.phys t ≤ x → x < p.phys t + 8 * t.entries →
    m x = 0

end ChinixPagingSetup

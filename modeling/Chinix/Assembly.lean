import Chinix.PageWalk
import Mathlib.Logic.Function.Basic

/-! # A fragment of 32-bit x86 assembly

    Straight-line instructions on the general registers, control registers,
    model-specific registers and memory, and the loop that the `loop`
    instruction closes, which counts `ecx` down to zero.  The arithmetic
    flags are left out: `loop` does not look at them.  The rules: a block is
    the composition of its instructions, and a loop entered with `n` in `ecx`
    runs its body `n` times. -/

namespace Assembly

open PageWalk

/-- The general registers that the code uses. -/
inductive Reg where
  | eax
  | ebx
  | ecx
  | edx
  | esi
  deriving DecidableEq, Repr

/-- The control registers. -/
inductive Control where
  | cr0
  | cr3
  | cr4
  deriving DecidableEq, Repr

/-- What the instructions act on. -/
structure Cpu where
  reg : Reg → BitVec 32
  control : Control → BitVec 32
  msr : BitVec 32 → BitVec 64
  mem : Mem

/-- Instructions, operands in the order of the assembler: source first. -/
inductive Instr where
  | movImm (imm : BitVec 32) (dst : Reg)
  | mov (src dst : Reg)
  | store (src : Reg) (disp : BitVec 32) (base : Reg)
  | storeAbs (src : Reg) (addr : BitVec 32)
  | orImm (imm : BitVec 32) (dst : Reg)
  | addImm (imm : BitVec 32) (dst : Reg)
  | shl (count : Nat) (dst : Reg)
  | shr (count : Nat) (dst : Reg)
  | inc (dst : Reg)
  | xor (src dst : Reg)
  | bts (bit : Nat) (dst : Reg)
  | movFromControl (src : Control) (dst : Reg)
  | movToControl (src : Reg) (dst : Control)
  | rdmsr
  | wrmsr

/-- A program: instructions, and loops closed by `loop`. -/
inductive Stmt where
  | instr (i : Instr)
  | loop (body : List Instr)

/-- A write of a register. -/
def Cpu.setReg (s : Cpu) (r : Reg) (w : BitVec 32) : Cpu :=
  { s with reg := Function.update s.reg r w }

@[simp] theorem Cpu.setReg_mem (s : Cpu) (r : Reg) (w : BitVec 32) :
    (s.setReg r w).mem = s.mem := rfl

@[simp] theorem Cpu.setReg_control (s : Cpu) (r : Reg) (w : BitVec 32) :
    (s.setReg r w).control = s.control := rfl

@[simp] theorem Cpu.setReg_msr (s : Cpu) (r : Reg) (w : BitVec 32) :
    (s.setReg r w).msr = s.msr := rfl

@[simp] theorem Cpu.setReg_reg (s : Cpu) (r q : Reg) (w : BitVec 32) :
    (s.setReg r w).reg q = if q = r then w else s.reg q := by
  rw [Cpu.setReg]
  by_cases h : q = r
  · subst h
    rw [if_pos rfl]
    exact Function.update_self ..
  · rw [if_neg h]
    exact Function.update_of_ne h ..

/-- One instruction. -/
def exec (s : Cpu) : Instr → Cpu
  | .movImm imm dst => s.setReg dst imm
  | .mov src dst => s.setReg dst (s.reg src)
  | .store src disp base =>
      { s with mem := store32 (s.reg base + disp).toNat (s.reg src) s.mem }
  | .storeAbs src addr =>
      { s with mem := store32 addr.toNat (s.reg src) s.mem }
  | .orImm imm dst => s.setReg dst (s.reg dst ||| imm)
  | .addImm imm dst => s.setReg dst (s.reg dst + imm)
  | .shl count dst => s.setReg dst (s.reg dst <<< count)
  | .shr count dst => s.setReg dst (s.reg dst >>> count)
  | .inc dst => s.setReg dst (s.reg dst + 1)
  | .xor src dst => s.setReg dst (s.reg dst ^^^ s.reg src)
  | .bts bit dst => s.setReg dst (s.reg dst ||| BitVec.twoPow 32 bit)
  | .movFromControl src dst => s.setReg dst (s.control src)
  | .movToControl src dst =>
      { s with control := Function.update s.control dst (s.reg src) }
  | .rdmsr =>
      let value := s.msr (s.reg .ecx)
      (s.setReg .eax (value.truncate 32)).setReg .edx
        ((value >>> 32).truncate 32)
  | .wrmsr =>
      { s with
        msr := Function.update s.msr (s.reg .ecx)
          (s.reg .edx ++ s.reg .eax) }

/-- A block of instructions. -/
def execBlock (body : List Instr) (s : Cpu) : Cpu := body.foldl exec s

/-- The `loop` instruction's own part: `ecx` counts down. -/
def decEcx (s : Cpu) : Cpu := s.setReg .ecx (s.reg .ecx - 1)

/-- A loop; `none` when the fuel does not suffice. -/
def execLoop (body : List Instr) : Nat → Cpu → Option Cpu
  | 0, _ => none
  | fuel + 1, s =>
      let s := decEcx (execBlock body s)
      if s.reg .ecx = 0 then some s else execLoop body fuel s

/-- A program. -/
def run (fuel : Nat) : List Stmt → Cpu → Option Cpu
  | [], s => some s
  | .instr i :: rest, s => run fuel rest (exec s i)
  | .loop body :: rest, s =>
      match execLoop body fuel s with
      | some s => run fuel rest s
      | none => none

-- ── Rules ──

theorem run_loop {fuel : Nat} {body : List Instr} {s s' : Cpu}
    (h : execLoop body fuel s = some s') (rest : List Stmt) :
    run fuel (.loop body :: rest) s = run fuel rest s' := by
  show (match execLoop body fuel s with
    | some s => run fuel rest s
    | none => none) = _
  rw [h]

/-- The statements of a block, one by one. -/
def block (body : List Instr) : List Stmt := body.map Stmt.instr

theorem run_block (fuel : Nat) (body : List Instr) (rest : List Stmt)
    (s : Cpu) :
    run fuel (block body ++ rest) s = run fuel rest (execBlock body s) := by
  induction body generalizing s with
  | nil => rfl
  | cons i tail ih => exact ih (exec s i)

/-- **The rule of a counted loop**: with `n` in `ecx` and a body that leaves
    `ecx` alone, an invariant that each round takes from `k` to `k + 1` holds
    of `n` at the end. -/
theorem execLoop_invariant {body : List Instr} {n : Nat} {P : Nat → Cpu → Prop}
    (hn : 0 < n)
    (hecx : ∀ s, (execBlock body s).reg .ecx = s.reg .ecx)
    (hbody : ∀ k s, k < n → P k s → P (k + 1) (decEcx (execBlock body s)))
    {fuel : Nat} (hfuel : n ≤ fuel) {s : Cpu}
    (hs : (s.reg .ecx).toNat = n) (h0 : P 0 s) :
    ∃ s', execLoop body fuel s = some s' ∧ P n s' := by
  -- `j` rounds are left and `k` are done
  have rounds : ∀ j fuel k (s : Cpu), 0 < j → j ≤ fuel → j + k = n →
      (s.reg .ecx).toNat = j → P k s →
      ∃ s', execLoop body fuel s = some s' ∧ P n s' := by
    intro j
    induction j with
    | zero => intro fuel k s h; exact absurd h (Nat.lt_irrefl 0)
    | succ j ih =>
        intro fuel k s _ hf hk hs hP
        obtain ⟨fuel, rfl⟩ : ∃ f, fuel = f + 1 := ⟨fuel - 1, by omega⟩
        have hnext := hbody k s (by omega) hP
        have hcx : ((decEcx (execBlock body s)).reg .ecx).toNat = j := by
          rw [decEcx, Cpu.setReg_reg, if_pos rfl, hecx, BitVec.toNat_sub_of_le]
          · rw [hs]; rfl
          · rw [BitVec.le_def, hs]; exact Nat.succ_le_succ (Nat.zero_le j)
        show ∃ s', (if (decEcx (execBlock body s)).reg .ecx = 0 then
            some (decEcx (execBlock body s))
          else execLoop body fuel (decEcx (execBlock body s))) = some s' ∧ P n s'
        by_cases h0 : j = 0
        · rw [if_pos (BitVec.eq_of_toNat_eq (by rw [hcx, h0]; rfl))]
          refine ⟨_, rfl, ?_⟩
          have hkn : k + 1 = n := by omega
          exact hkn ▸ hnext
        · rw [if_neg fun h => h0 (by rw [← hcx, h]; rfl)]
          exact ih fuel (k + 1) _ (by omega) (by omega) (by omega) hcx hnext
  exact rounds n fuel 0 s hn hfuel (Nat.add_zero n) hs h0

end Assembly

import Chinix.ContextPreserved
import Chinix.InterruptEntry
import Chinix.InterruptGates

/-! # What an interrupted thread finds again

    The way into an interrupt is pushes only, so that the frame is a list of
    words below the aligned stack pointer, and the way back pops that list.
    In between the frame is in the thread's own stack: the handler works below
    it, and while the thread is switched out nobody else writes there. -/

namespace ChinixInterruptTransparency

open PageWalk WordMemory ChinixContextSwitch ChinixContextPreserved
open ChinixIdtSetup ChinixInterruptGates ChinixInterruptEntry

variable {Tid : Type} {s : Machine Tid} {cfg : Config Tid} {t : Tid}

/-! ## The way in -/

theorem stubAt_stub (y : Symbols) {v : Nat} (h : v < numInt) :
    stubAt y (BitVec.ofNat 64 (y.stub v)) = some v := by
  have hnum : numInt = 0x31 := rfl
  have hlen : isrLen = 9 := by decide
  have hfound : (stubAt y (BitVec.ofNat 64 (y.stub v))).isSome = true := by
    rw [stubAt, List.find?_isSome]
    exact ⟨v, List.mem_range.mpr h, by simp⟩
  obtain ⟨i, hi⟩ := Option.isSome_iff_exists.mp hfound
  have hlt : i < numInt := List.mem_range.mp (List.mem_of_find?_eq_some hi)
  have heq : BitVec.ofNat 64 (y.stub i) = BitVec.ofNat 64 (y.stub v) := by
    rw [stubAt] at hi
    simpa using List.find?_some hi
  have hnat := congrArg BitVec.toNat heq
  rw [BitVec.toNat_ofNat, BitVec.toNat_ofNat,
    Nat.mod_eq_of_lt (stub_lt y (by omega)),
    Nat.mod_eq_of_lt (stub_lt y (by omega)),
    stub_eq y (by omega), stub_eq y (by omega), hlen] at hnat
  rw [hi]
  congr 1
  omega

/-- The stack pointer that the pushes of an interrupt start from. -/
def aligned (s : Machine Tid) : State Tid :=
  { s.toState with cpu := { s.cpu with rsp := s.cpu.rsp &&& ~~~0xf } }

/-- The machine has pushed `ws`, and has not changed a general register. -/
structure Entered (s : Machine Tid) (ws : List (BitVec 64)) (m : Machine Tid) :
    Prop where
  mem : m.mem = (pushAll ws (aligned s)).mem
  rsp : m.cpu.rsp = (pushAll ws (aligned s)).cpu.rsp
  gpr : m.gpr = s.gpr
  current : m.current = s.current

theorem Entered.push {ws : List (BitVec 64)} {m : Machine Tid}
    (h : Entered s ws m) (w : BitVec 64) :
    Entered s (ws ++ [w]) (m.push w) := by
  refine ⟨?_, ?_, ?_, h.current⟩
  · rw [pushAll_concat]
    show store64 (m.cpu.rsp - 8).toNat w m.mem
      = store64 ((pushAll ws (aligned s)).cpu.rsp - 8).toNat w _
    rw [h.rsp, h.mem]
  · rw [pushAll_concat]
    show m.cpu.rsp - 8 = (pushAll ws (aligned s)).cpu.rsp - 8
    rw [h.rsp]
  · rw [← h.gpr]
    rfl

theorem Entered.jump {ws : List (BitVec 64)} {m : Machine Tid}
    (h : Entered s ws m) (rip : BitVec 64) : Entered s ws (m.jump rip) :=
  ⟨h.mem, h.rsp, h.gpr, h.current⟩

/-- The general registers, in the order in which `_common` pushes them. -/
def savedGprs : List Gpr :=
  [.saved .r15, .saved .r14, .saved .r13, .saved .r12, .scratch .r11,
   .scratch .r10, .scratch .r9, .scratch .r8, .scratch .rax, .scratch .rcx,
   .scratch .rdx, .saved .rbx, .saved .rbp, .scratch .rsi, .scratch .rdi]

theorem Entered.pushqs {ws : List (BitVec 64)} {m : Machine Tid}
    (h : Entered s ws m) (code : Code) (gs : List Gpr) :
    Entered s (ws ++ gs.map s.gpr)
      ((gs.map CommonInstr.pushq).foldl (execCommon code) m) := by
  induction gs generalizing ws m with
  | nil =>
      rw [List.map_nil, List.append_nil]
      exact h
  | cons g gs ih =>
      rw [List.map_cons, List.append_cons, ← congrFun h.gpr g]
      exact ih (h.push (m.gpr g))

/-! ### The frame -/

/-- What `iretq` takes back, as it is pushed. -/
def returnWords (s : Machine Tid) : List (BitVec 64) :=
  [s.ss.setWidth 64, s.cpu.rsp, s.cpu.rflags, s.cs.setWidth 64, s.cpu.rip]

theorem deliver_entered (g : Gate) (errCode : Option (BitVec 64))
    (s : Machine Tid) :
    Entered s (returnWords s ++ errCode.toList) (deliver g errCode s) := by
  have hstart : Entered s [] { s with toState := aligned s } :=
    ⟨rfl, rfl, rfl, rfl⟩
  have hreturn : Entered s (returnWords s) _ :=
    ((((hstart.push (s.ss.setWidth 64)).push s.cpu.rsp).push
      s.cpu.rflags).push (s.cs.setWidth 64)).push s.cpu.rip
  cases errCode with
  | none =>
      rw [Option.toList_none, List.append_nil]
      exact ⟨hreturn.mem, hreturn.rsp, hreturn.gpr, hreturn.current⟩
  | some e =>
      have herr := hreturn.push e
      exact ⟨herr.mem, herr.rsp, herr.gpr, herr.current⟩

/-- The processor and the stub of a vector agree on who pushes the error
    code. -/
def ErrorCodeAgrees (v : Nat) (errCode : Option (BitVec 64)) : Prop :=
  errCode.isSome = pushesErrorCode v

instance (v : Nat) (errCode : Option (BitVec 64)) :
    Decidable (ErrorCodeAgrees v errCode) := inferInstanceAs (Decidable (_ = _))

/-- Behind the stub, every vector has an error code and its number on the
    stack. -/
theorem stub_entered {v : Nat} {errCode : Option (BitVec 64)}
    (herr : ErrorCodeAgrees v errCode) (code : Code) (g : Gate)
    (s : Machine Tid) :
    Entered s (returnWords s ++ [errCode.getD 0, BitVec.ofNat 64 v])
      ((isr v).foldl (execStub code) (deliver g errCode s)) := by
  rw [ErrorCodeAgrees] at herr
  have hdeliver := deliver_entered g errCode s
  cases errCode with
  | none =>
      have hisr : isr v = [.pushImm 0, .pushImm v, .jmpCommon] :=
        if_neg (by rw [← herr]; decide)
      rw [hisr]
      exact ((hdeliver.push 0).push (BitVec.ofNat 64 v)).jump code.common
  | some e =>
      have hisr : isr v = [.nop, .nop, .pushImm v, .jmpCommon] :=
        if_pos (by rw [← herr]; rfl)
      rw [hisr]
      exact (hdeliver.push (BitVec.ofNat 64 v)).jump code.common

/-- The words of the frame, as they are pushed. -/
def frameWords (v : Nat) (errCode : Option (BitVec 64)) (s : Machine Tid) :
    List (BitVec 64) :=
  returnWords s ++ [errCode.getD 0, BitVec.ofNat 64 v] ++ savedGprs.map s.gpr

/-- The machine at the first instruction of the handler. -/
structure Called (code : Code) (s : Machine Tid) (ws : List (BitVec 64))
    (m : Machine Tid) : Prop where
  mem : m.mem = (pushAll (ws ++ [code.behindCall]) (aligned s)).mem
  rsp : m.cpu.rsp = (pushAll (ws ++ [code.behindCall]) (aligned s)).cpu.rsp
  rdi : m.scratch .rdi = (pushAll ws (aligned s)).cpu.rsp
  rip : m.cpu.rip = code.handler
  current : m.current = s.current

theorem Entered.call {code : Code} {ws : List (BitVec 64)} {m : Machine Tid}
    (h : Entered s ws m) :
    Called code s ws ([.movRspRdi, .call].foldl (execCommon code) m) := by
  have hpush := h.push code.behindCall
  exact ⟨hpush.mem, hpush.rsp, h.rsp, rfl, h.current⟩

/-- **The way in** is pushes: the frame, and below it the return address of
    the call. -/
theorem enter_eq_some {y : Symbols} {r : Idtr} {v : Nat}
    {errCode : Option (BitVec 64)} {g : Gate} (code : Code) (hv : v < numInt)
    (hg : lookup s.mem r v = some g)
    (hstub : g.offset = BitVec.ofNat 64 (y.stub v))
    (herr : ErrorCodeAgrees v errCode) :
    ∃ m, enter y r code v errCode s = some m ∧
      Called code s (frameWords v errCode s) m := by
  have hsaved : Entered s (frameWords v errCode s) _ :=
    (stub_entered herr code g s).pushqs code savedGprs
  have hentry : commonEntry
      = savedGprs.map CommonInstr.pushq ++ [.movRspRdi, .call] := rfl
  rw [enter, hg]
  dsimp only [Option.bind]
  rw [hstub, stubAt_stub y hv]
  dsimp only [Option.map]
  rw [hentry, List.foldl_append]
  exact ⟨_, rfl, hsaved.call⟩

/-! ### The fields -/

theorem aligned_toNat (s : Machine Tid) :
    (aligned s).cpu.rsp.toNat = s.cpu.rsp.toNat / 16 * 16 :=
  and_not_fifteen _

/-- The address of the frame. -/
def frameOf (s : Machine Tid) : Nat := s.cpu.rsp.toNat / 16 * 16 - 176

/-- The stack of the interrupted thread has room for the frame and for the
    return address. -/
def HasFrameRoom (k : Stack) (s : Machine Tid) : Prop :=
  k.base + 200 ≤ s.cpu.rsp.toNat ∧ s.cpu.rsp.toNat ≤ k.base + k.size

theorem frameWords_length (v : Nat) (errCode : Option (BitVec 64))
    (s : Machine Tid) : (frameWords v errCode s).length = 22 := rfl

theorem calledWords_length (v : Nat) (errCode : Option (BitVec 64))
    (s : Machine Tid) (code : Code) :
    (frameWords v errCode s ++ [code.behindCall]).length = 23 := rfl

/-- A field's word. -/
def fieldWord (v : Nat) (errCode : Option (BitVec 64)) (s : Machine Tid) :
    Field → BitVec 64
  | .gpr g => s.gpr g
  | .vector => BitVec.ofNat 64 v
  | .errCode => errCode.getD 0
  | .rip => s.cpu.rip
  | .cs => s.cs.setWidth 64
  | .rflag => s.cpu.rflags
  | .userSp => s.cpu.rsp
  | .userSs => s.ss.setWidth 64

/-- The frame is a `struct x64_eframe`: its fields, from the last to the
    first, are what is pushed. -/
theorem frameWords_eq (v : Nat) (errCode : Option (BitVec 64))
    (s : Machine Tid) :
    frameWords v errCode s = (eframe.map (fieldWord v errCode s)).reverse := rfl

theorem mem_eframe (f : Field) : f ∈ eframe := by
  cases f with
  | gpr g => cases g with
    | saved r => cases r <;> decide
    | scratch r => cases r <;> decide
  | _ => decide

/-- **The fields** of the frame hold what the interrupted thread had in its
    registers, the vector and the error code. -/
theorem readField_pushed {v : Nat} {errCode : Option (BitVec 64)} {a : State Tid}
    {frame : Nat} {ws : List (BitVec 64)} {m : Mem}
    (ha : a.cpu.rsp.toNat = frame + 176)
    (hroom : 8 * (22 + ws.length) ≤ a.cpu.rsp.toNat)
    (hm : m = (pushAll (frameWords v errCode s ++ ws) a).mem) (f : Field) :
    readField m frame f = fieldWord v errCode s f := by
  have hlt : eframe.idxOf f < 22 := List.idxOf_lt_length_of_mem (mem_eframe f)
  have hlen : (frameWords v errCode s ++ ws).length = 22 + ws.length := by
    rw [List.length_append, frameWords_length]
  have hp : Pushed a (frameWords v errCode s ++ ws) _ :=
    pushAll_pushed _ a (by rw [hlen]; exact hroom)
  have hword := hp.word (21 - eframe.idxOf f) (by rw [hlen]; omega)
  have haddr : frame + 8 * eframe.idxOf f
      = a.cpu.rsp.toNat - 8 * (21 - eframe.idxOf f + 1) := by omega
  rw [readField, hm, haddr, hword]
  rw [List.getElem_append_left (by rw [frameWords_length]; omega)]
  have hsize : eframe.length = 22 := rfl
  have hrev : eframe.length - 1 - (21 - eframe.idxOf f) = eframe.idxOf f := by
    omega
  simp only [frameWords_eq, List.getElem_reverse, List.getElem_map,
    List.length_map, hrev, List.getElem_idxOf]

/-! ## The way back -/

theorem gpr_setGpr (m : Machine Tid) (f g : Gpr) (w : BitVec 64) :
    (m.setGpr g w).gpr f = if f = g then w else m.gpr f := by
  by_cases h : f = g
  · subst h
    rw [if_pos rfl]
    cases f with
    | saved q => exact Function.update_self _ _ _
    | scratch q => exact Function.update_self _ _ _
  · rw [if_neg h]
    cases g with
    | saved q => cases f with
      | saved q' =>
          have hq : q' ≠ q := fun hq => h (congrArg Gpr.saved hq)
          exact Function.update_of_ne hq _ _
      | scratch _ => rfl
    | scratch q => cases f with
      | saved _ => rfl
      | scratch q' =>
          have hq : q' ≠ q := fun hq => h (congrArg Gpr.scratch hq)
          exact Function.update_of_ne hq _ _

/-- Pops take what is on the stack. -/
theorem popqs_gpr (val : Gpr → BitVec 64) (code : Code) (gs : List Gpr)
    {m : Machine Tid} (hbound : m.cpu.rsp.toNat + 8 * gs.length < 2 ^ 64)
    (hword : ∀ (i : Nat) (hi : i < gs.length),
      load64 m.mem (m.cpu.rsp.toNat + 8 * i) = val gs[i]) :
    let m' := (gs.map CommonInstr.popq).foldl (execCommon code) m
    m'.mem = m.mem ∧ m'.current = m.current ∧
      m'.cpu.rsp.toNat = m.cpu.rsp.toNat + 8 * gs.length ∧
      ∀ g, g ∈ gs ∨ m.gpr g = val g → m'.gpr g = val g := by
  induction gs generalizing m with
  | nil => exact ⟨rfl, rfl, rfl, fun g hg => hg.resolve_left (by simp)⟩
  | cons g gs ih =>
      rw [List.length_cons] at hbound
      have hmem : (m.drop.setGpr g m.top).mem = m.mem := by cases g <;> rfl
      have hcur : (m.drop.setGpr g m.top).current = m.current := by
        cases g <;> rfl
      have hrsp : (m.drop.setGpr g m.top).cpu.rsp.toNat
          = m.cpu.rsp.toNat + 8 := by
        have hdrop : (m.drop.setGpr g m.top).cpu.rsp = m.cpu.rsp + 8 := by
          cases g <;> rfl
        rw [hdrop, BitVec.toNat_add]
        exact Nat.mod_eq_of_lt (by show m.cpu.rsp.toNat + 8 < _; omega)
      obtain ⟨hmem', hcur', hrsp', hgpr⟩ := ih (m := m.drop.setGpr g m.top)
        (by rw [hrsp]; omega) (by
          intro i hi
          rw [hmem, hrsp]
          have hnext := hword (i + 1) (Nat.succ_lt_succ hi)
          rw [List.getElem_cons_succ] at hnext
          rw [← hnext]
          congr 1
          omega)
      refine ⟨hmem'.trans hmem, hcur'.trans hcur, ?_, fun f hf => hgpr f ?_⟩
      · rw [List.length_cons]
        refine hrsp'.trans ?_
        rw [hrsp]
        omega
      · rw [gpr_setGpr]
        by_cases hfg : f = g
        · rw [if_pos hfg, hfg]
          exact .inr (hword 0 (Nat.succ_pos _))
        · rw [if_neg hfg]
          exact hf.imp_left fun hmemf =>
            (List.mem_cons.mp hmemf).resolve_left hfg

/-- `iretq` takes what is on the stack. -/
theorem iretq_takes {m : Machine Tid} {a : Nat}
    (hrsp : m.cpu.rsp.toNat = a) (hbound : a + 40 < 2 ^ 64) :
    let m' := iretq m
    m'.cpu.rip = load64 m.mem a ∧ m'.cs = (load64 m.mem (a + 8)).setWidth 16 ∧
      m'.cpu.rflags = load64 m.mem (a + 16) ∧
      m'.cpu.rsp = load64 m.mem (a + 24) ∧
      m'.ss = (load64 m.mem (a + 32)).setWidth 16 := by
  have hadd : ∀ (w : BitVec 64) (n : Nat), w.toNat = a + n → n ≤ 24 →
      (w + 8).toNat = a + (n + 8) := by
    intro w n hw hn
    rw [BitVec.toNat_add, hw]
    show (a + n + 8) % 2 ^ 64 = _
    exact Nat.mod_eq_of_lt (by omega)
  have h8 := hadd m.cpu.rsp 0 hrsp (by decide)
  have h16 := hadd _ 8 h8 (by decide)
  have h24 := hadd _ 16 h16 (by decide)
  have h32 := hadd _ 24 h24 (by decide)
  refine ⟨congrArg (load64 m.mem) hrsp, ?_, congrArg (load64 m.mem) h16,
    congrArg (load64 m.mem) h24, ?_⟩
  · exact congrArg (fun x => (load64 m.mem x).setWidth 16) h8
  · exact congrArg (fun x => (load64 m.mem x).setWidth 16) h32

theorem iretq_keeps (m : Machine Tid) :
    (iretq m).gpr = m.gpr ∧ (iretq m).mem = m.mem ∧
      (iretq m).current = m.current := by
  refine ⟨?_, rfl, rfl⟩
  funext g
  cases g <;> rfl

/-- The vector and the error code are skipped. -/
def skipped (m : Machine Tid) : Machine Tid :=
  { m with cpu := { m.cpu with rsp := m.cpu.rsp + 16 } }

theorem skipped_keeps (m : Machine Tid) :
    (skipped m).gpr = m.gpr ∧ (skipped m).mem = m.mem ∧
      (skipped m).current = m.current := by
  refine ⟨?_, rfl, rfl⟩
  funext g
  cases g <;> rfl

theorem skipped_rsp {m : Machine Tid} {a : Nat}
    (hrsp : m.cpu.rsp.toNat + 16 = a) (hbound : a < 2 ^ 64) :
    (skipped m).cpu.rsp.toNat = a := by
  show (m.cpu.rsp + 16).toNat = a
  rw [BitVec.toNat_add]
  show (m.cpu.rsp.toNat + 16) % 2 ^ 64 = _
  rw [hrsp]
  exact Nat.mod_eq_of_lt hbound

theorem leave_eq (code : Code) (m : Machine Tid) :
    leave code m = iretq (skipped
      ((savedGprs.reverse.map CommonInstr.popq).foldl (execCommon code) m)) :=
  rfl

/-- The general registers, in the order in which `_common` pops them. -/
def poppedGprs : List Gpr := savedGprs.reverse

theorem mem_poppedGprs (g : Gpr) : g ∈ poppedGprs := by
  cases g with
  | saved r => cases r <;> decide
  | scratch r => cases r <;> decide

/-- The first fields of the frame are the registers. -/
theorem idxOf_poppedGprs : ∀ (i : Nat) (hi : i < poppedGprs.length),
    eframe.idxOf (.gpr poppedGprs[i]) = i := by decide

/-- The machine has the registers of the interrupted one. -/
structure Resumed (s m : Machine Tid) : Prop where
  gpr : m.gpr = s.gpr
  rsp : m.cpu.rsp = s.cpu.rsp
  rip : m.cpu.rip = s.cpu.rip
  rflags : m.cpu.rflags = s.cpu.rflags
  cs : m.cs = s.cs
  ss : m.ss = s.ss

/-- **The way back** takes everything from the frame. -/
theorem leave_resumes {v : Nat} {errCode : Option (BitVec 64)} {frame : Nat}
    {m : Machine Tid} (code : Code) (hrsp : m.cpu.rsp.toNat = frame)
    (hbound : frame + 176 < 2 ^ 64)
    (hframe : ∀ f, readField m.mem frame f = fieldWord v errCode s f) :
    Resumed s (leave code m) ∧ (leave code m).mem = m.mem ∧
      (leave code m).current = m.current := by
  have hwords : ∀ (i : Nat) (hi : i < poppedGprs.length),
      load64 m.mem (m.cpu.rsp.toNat + 8 * i) = s.gpr poppedGprs[i] := by
    intro i hi
    have hfield := hframe (.gpr poppedGprs[i])
    rw [readField, idxOf_poppedGprs i hi] at hfield
    rw [hrsp]
    exact hfield
  have hroom : m.cpu.rsp.toNat + 8 * poppedGprs.length < 2 ^ 64 := by
    rw [hrsp]
    show frame + 8 * 15 < _
    omega
  obtain ⟨hmem, hcur, hpop, hgpr⟩ :=
    popqs_gpr s.gpr code poppedGprs hroom hwords
  rw [leave_eq]
  rw [← poppedGprs]
  generalize (poppedGprs.map CommonInstr.popq).foldl (execCommon code) m = m'
    at hmem hcur hpop hgpr
  obtain ⟨hgpr', hmem', hcur'⟩ := skipped_keeps m'
  obtain ⟨hgpr'', hmem'', hcur''⟩ := iretq_keeps (skipped m')
  obtain ⟨hrip, hcs, hflags, hsp, hss⟩ := iretq_takes
    (skipped_rsp (m := m') (a := frame + 136) (by rw [hpop, hrsp]; rfl)
      (by omega)) (by omega)
  have hread : ∀ f, readField (skipped m').mem frame f
      = fieldWord v errCode s f := by
    rw [hmem', hmem]
    exact hframe
  have hselector : ∀ w : BitVec 16, (w.setWidth 64).setWidth 16 = w := fun w =>
    BitVec.setWidth_setWidth_of_le w (by decide)
  refine ⟨⟨?_, hsp.trans (hread .userSp), hrip.trans (hread .rip),
    hflags.trans (hread .rflag), ?_, ?_⟩, hmem''.trans (hmem'.trans hmem),
    hcur''.trans (hcur'.trans hcur)⟩
  · rw [hgpr'', hgpr']
    funext g
    exact hgpr g (.inl (mem_poppedGprs g))
  · refine hcs.trans ?_
    rw [← hselector s.cs]
    exact congrArg (BitVec.setWidth 16) (hread .cs)
  · refine hss.trans ?_
    rw [← hselector s.ss]
    exact congrArg (BitVec.setWidth 16) (hread .userSs)

/-! ## In between -/

section Handling

variable [DecidableEq Tid]

/-- **A step** of the others leaves a thread's stack alone. -/
theorem Step.stack_kept (hcfg : cfg.WellFormed) {s s' : State Tid}
    {e : Event Tid} (hstep : Step cfg s e s') (he : ¬ e.Concerns t)
    (hother : t ≠ s.current) :
    t ≠ s'.current ∧
      ∀ x, (cfg.stack t).Contains x → s'.mem x = s.mem x := by
  cases hstep with
  | run cpu mem own => exact ⟨hother, own t hother⟩
  | init u other =>
      refine ⟨hother, fun x hx => ?_⟩
      have hne : t ≠ u := fun heq => he heq.symm
      exact initThreadStack_outside (hcfg.size u) (hcfg.bound u) u
        (hcfg.apart t u hne x hx)
  | switch ret new other room =>
      refine ⟨fun heq => he heq.symm, fun x hx => ?_⟩
      rw [switchTo_mem]
      exact switchedOut_outside room (hcfg.apart t s.current hother x hx)

/-- **A run** of the others leaves a thread's stack alone. -/
theorem Run.stack_kept (hcfg : cfg.WellFormed) {s s' : State Tid}
    {es : List (Event Tid)} (hrun : Run cfg s es s')
    (he : ∀ e ∈ es, ¬ e.Concerns t) (hother : t ≠ s.current) :
    t ≠ s'.current ∧
      ∀ x, (cfg.stack t).Contains x → s'.mem x = s.mem x := by
  induction hrun with
  | nil s => exact ⟨hother, fun _ _ => rfl⟩
  | cons hstep _ ih =>
      obtain ⟨hother', hkept⟩ := Step.stack_kept hcfg hstep
        (he _ List.mem_cons_self) hother
      obtain ⟨hother'', hkept'⟩ :=
        ih (fun e hmem => he e (List.mem_cons_of_mem _ hmem)) hother'
      exact ⟨hother'', fun x hx => (hkept' x hx).trans (hkept x hx)⟩

/-- A thread that is switched out and back finds its stack from its stack
    pointer on as it was. -/
theorem away_kept (hcfg : cfg.WellFormed) {s s1 s2 s3 : State Tid}
    {ret ret' : BitVec 64} {new : Tid} {es : List (Event Tid)}
    (out : Step cfg s (.switch ret new) s1) (others : Run cfg s1 es s2)
    (apart : ∀ e ∈ es, ¬ e.Concerns s.current)
    (back : Step cfg s2 (.switch ret' s.current) s3) :
    s3.current = s.current ∧ ∀ x, (cfg.stack s.current).Contains x →
      s.cpu.rsp.toNat ≤ x → s3.mem x = s.mem x := by
  cases out with
  | switch _ _ other room =>
      obtain ⟨hother, hkept⟩ :=
        Run.stack_kept hcfg others apart (Ne.symm other)
      cases back with
      | switch _ _ _ room' =>
          refine ⟨switchTo_current _ _ _, fun x hx hrsp => ?_⟩
          have hin : (switchedOut ret' s2).mem x = s2.mem x :=
            switchedOut_outside room'
              (hcfg.apart s.current s2.current hother x hx)
          have hout : Pushed s (contextWords ret s.cpu) (switchedOut ret s) :=
            switchedOut_pushed room
          rw [switchTo_mem, hin, hkept x hx, switchTo_mem]
          exact hout.outside x (.inr hrsp)

/-- **The frame** stays in the stack while the handler runs, and is preempted
    or not. -/
theorem Handling.kept (hcfg : cfg.WellFormed) {frame : Nat}
    {m m' : Machine Tid} (h : Handling cfg t frame m m')
    (hcur : m.current = t) :
    m'.current = t ∧ ∀ x, (cfg.stack t).Contains x → frame ≤ x →
      m'.mem x = m.mem x := by
  induction h with
  | done m => exact ⟨hcur, fun _ _ _ => rfl⟩
  | compute current own _ ih =>
      obtain ⟨hcur', hkept⟩ := ih current
      exact ⟨hcur', fun x hx hle => (hkept x hx hle).trans (own x hx hle)⟩
  | away current below out others apart back same _ ih =>
      subst current
      obtain ⟨hback, haway⟩ := away_kept hcfg out others apart back
      obtain ⟨hcur', hkept⟩ := ih (by rw [same]; exact hback)
      refine ⟨hcur', fun x hx hle => (hkept x hx hle).trans ?_⟩
      rw [same]
      exact haway x hx (Nat.le_trans below hle)

/-- The handler has returned. -/
def Returned (code : Code) (frame : Nat) (m : Machine Tid) : Prop :=
  m.cpu.rip = code.behindCall ∧ m.cpu.rsp.toNat = frame

/-- **Interrupts are transparent.**  Through a gate of the table every vector
    reaches `x64_exception_handler` with the stack aligned as behind a call
    and with the address of a `struct x64_eframe` of the interrupted thread's
    registers, of the vector and of its error code; and whatever the handler
    does then, be it switched out and back any number of times, the thread
    runs on behind the interrupt with all its registers, its flags and its
    stack. -/
theorem interrupt_transparent (hcfg : cfg.WellFormed) {y : Symbols}
    {r : Idtr} {code : Code} {v : Nat} {errCode : Option (BitVec 64)}
    {g : Gate} (hv : v < numInt) (hg : lookup s.mem r v = some g)
    (hstub : g.offset = BitVec.ofNat 64 (y.stub v))
    (herr : ErrorCodeAgrees v errCode)
    (hroom : HasFrameRoom (cfg.stack s.current) s) :
    ∃ m, enter y r code v errCode s = some m ∧
      m.current = s.current ∧ m.cpu.rip = code.handler ∧
      m.top = code.behindCall ∧ m.cpu.rsp.toNat % 16 = 8 ∧
      m.cpu.rsp.toNat + 8 = frameOf s ∧ (m.scratch .rdi).toNat = frameOf s ∧
      (∀ f, readField m.mem (frameOf s) f = fieldWord v errCode s f) ∧
      ∀ m', Handling cfg s.current (frameOf s) m m' →
        Returned code (frameOf s) m' →
        Resumed s (leave code m') ∧ (leave code m').current = s.current ∧
        ∀ x, (cfg.stack s.current).Contains x → s.cpu.rsp.toNat ≤ x →
          (leave code m').mem x = s.mem x := by
  obtain ⟨m, henter, hm⟩ := enter_eq_some code hv hg hstub herr
  obtain ⟨hlo, hhi⟩ := hroom
  have hbound := hcfg.bound s.current
  have halign := aligned_toNat s
  have hframe : frameOf s + 176 = s.cpu.rsp.toNat / 16 * 16 := by
    unfold frameOf
    omega
  -- the frame, and the frame with the return address below it
  have hpushed : Pushed (aligned s) (frameWords v errCode s) _ :=
    pushAll_pushed _ _ (by rw [frameWords_length, halign]; omega)
  have hcalled : Pushed (aligned s)
      (frameWords v errCode s ++ [code.behindCall]) _ :=
    pushAll_pushed _ _ (by rw [calledWords_length, halign]; omega)
  have hrsp : m.cpu.rsp.toNat = frameOf s - 8 := by
    rw [hm.rsp, hcalled.rsp, halign, calledWords_length]
    omega
  have hfields : ∀ f, readField m.mem (frameOf s) f
      = fieldWord v errCode s f :=
    readField_pushed (halign.trans hframe.symm)
      (by rw [halign, List.length_singleton]; omega) hm.mem
  refine ⟨m, henter, hm.current, hm.rip, ?_, by omega, by omega, ?_, hfields,
    ?_⟩
  · have hret := hcalled.word 22 (by rw [calledWords_length]; omega)
    rw [List.getElem_append_right (by rw [frameWords_length])] at hret
    show load64 m.mem m.cpu.rsp.toNat = _
    rw [hrsp, hm.mem]
    rw [halign] at hret
    have haddr : frameOf s - 8 = s.cpu.rsp.toNat / 16 * 16 - 8 * (22 + 1) := by
      omega
    rw [haddr, hret]
    rfl
  · rw [hm.rdi, hpushed.rsp, halign, frameWords_length]
    omega
  · rintro m' hhandling ⟨-, hrsp'⟩
    obtain ⟨hcur', hkept⟩ := Handling.kept hcfg hhandling hm.current
    have hfields' : ∀ f, readField m'.mem (frameOf s) f
        = fieldWord v errCode s f := by
      intro f
      have hidx : eframe.idxOf f < 22 :=
        List.idxOf_lt_length_of_mem (mem_eframe f)
      rw [← hfields f, readField, readField]
      exact load64_congr fun x hx hx' =>
        hkept x ⟨by omega, by omega⟩ (by omega)
    obtain ⟨hresumed, hmem, hcur⟩ := leave_resumes (s := s) code hrsp'
      (by omega) hfields'
    refine ⟨hresumed, hcur.trans hcur', fun x hx hle => ?_⟩
    rw [hmem, hkept x hx (by omega), hm.mem]
    refine hcalled.outside x (.inr ?_)
    rw [halign]
    omega

end Handling

/-! ### Two threads -/

/-- Two stacks of 1 KB. -/
def roomyStacks : Config Bool where
  stack := fun t => if t then ⟨0x2000, 1024⟩ else ⟨0x1000, 1024⟩
  initialThreadFunc := 0x4000

theorem roomyStacks_wellFormed : roomyStacks.WellFormed := by
  refine ⟨by decide, by decide, ?_⟩
  intro t u hne x hx hx'
  obtain ⟨hlo, hhi⟩ := hx
  obtain ⟨hlo', hhi'⟩ := hx'
  cases t <;> cases u
  · exact hne rfl
  · change x < 0x1000 + 1024 at hhi
    change 0x2000 ≤ x at hlo'
    omega
  · change 0x2000 ≤ x at hlo
    change x < 0x1000 + 1024 at hhi'
    omega
  · exact hne rfl

/-- The first thread, interrupted by the timer. -/
def interrupted : Machine Bool where
  cpu := ⟨fun _ => 7, 0x1338, 0x3202, 0x5000⟩
  mem := patch 0x200200 0x100120 linkedMem
  sp := fun _ => 0
  current := false
  scratch := fun _ => 9
  cs := 0x28
  ss := 0x30

/-- The handler and the code behind its call. -/
def lowCode : Code := ⟨0x101000, 0x102000, 0x101020⟩

/-- The second thread, at its call of the switch. -/
def atSwitchBack : ChinixContextSwitch.Cpu :=
  ⟨fun _ => 5, 0x2200, 0x3002, 0x4100⟩

/-- The handler makes way to the second thread, is switched back to, and
    returns. -/
def switchedBack (m : Machine Bool) : State Bool :=
  switchTo 0x4105 false
    { switchTo 0x102010 true m.toState with cpu := atSwitchBack }

def preempted (m : Machine Bool) : Machine Bool :=
  { m with
    toState := { switchedBack m with
      cpu := ⟨fun _ => 5, 0x1280, 0, lowCode.behindCall⟩ } }

theorem handling_preempted {m : Machine Bool} (hcur : m.current = false)
    (hrsp : m.cpu.rsp.toNat + 8 = 0x1280) :
    Handling roomyStacks false 0x1280 m (preempted m) := by
  have hother : true ≠ m.current := by
    rw [hcur]
    decide
  have hroom : HasRoom (roomyStacks.stack m.current) m.cpu.rsp := by
    rw [hcur]
    change 0x1000 + 64 ≤ _ ∧ _ ≤ 0x1000 + 1024
    omega
  have hroom' : HasRoom (roomyStacks.stack true) atSwitchBack.rsp :=
    ⟨by decide, by decide⟩
  have hout : Step roomyStacks m.toState (.switch 0x102010 true)
      (switchTo 0x102010 true m.toState) := .switch _ _ _ hother hroom
  have hran : Run roomyStacks (switchTo 0x102010 true m.toState) [.run]
      { switchTo 0x102010 true m.toState with cpu := atSwitchBack } :=
    .cons (.run _ _ _ fun _ _ _ _ => rfl) (.nil _)
  have hback : Step roomyStacks
      { switchTo 0x102010 true m.toState with cpu := atSwitchBack }
      (.switch 0x4105 false) (switchedBack m) :=
    .switch _ _ _ Bool.false_ne_true hroom'
  have happart : ∀ e ∈ ([.run] : List (Event Bool)), ¬ e.Concerns false := by
    intro e he
    rw [List.mem_singleton.mp he]
    exact id
  let m1 : Machine Bool := { m with toState := switchedBack m }
  have hsame : m1.toState = switchedBack m := rfl
  have hcur' : (preempted m).current = false := rfl
  have hreturn : Handling roomyStacks false 0x1280 m1 (preempted m) :=
    .compute hcur' (fun _ _ _ => rfl) (.done (preempted m))
  exact .away hcur (by omega) hout hran happart hback hsame hreturn

/-- The theorem at this interrupt. -/
theorem interrupt_transparent_interrupted :
    ∃ m, enter lowSymbols lowSymbols.idtr lowCode 0x20 none interrupted
        = some m ∧
      m.scratch .rdi = 0x1280 ∧
      Handling roomyStacks false 0x1280 m (preempted m) ∧
      Resumed interrupted (leave lowCode (preempted m)) := by
  have hgate : lookup interrupted.mem lowSymbols.idtr 0x20
      = some ⟨0x100120, 0x28, 0, 0x8e⟩ := by decide +kernel
  have hstub : (0x100120 : BitVec 64)
      = BitVec.ofNat 64 (lowSymbols.stub 0x20) := by decide +kernel
  have herr : ErrorCodeAgrees 0x20 none := by decide
  obtain ⟨m, henter, hcur, -, -, -, hrsp, hrdi, -, hleave⟩ :=
    interrupt_transparent roomyStacks_wellFormed (by decide) hgate hstub herr
      ⟨by decide, by decide⟩
  have hframe : frameOf interrupted = 0x1280 := by decide
  rw [hframe] at hrsp hrdi hleave
  have hhandling := handling_preempted hcur hrsp
  exact ⟨m, henter, BitVec.eq_of_toNat_eq hrdi, hhandling,
    (hleave _ hhandling ⟨rfl, rfl⟩).1⟩

end ChinixInterruptTransparency

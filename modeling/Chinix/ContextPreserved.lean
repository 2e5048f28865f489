import Chinix.ContextSwitch

/-! # What a thread finds when it runs on

    The pushes of the switch and the frame of `init_thread_stack` have one
    layout, that of `struct x64_context_frame`, and the pops read it.  While a
    thread does not run its frame lies in its own stack, which no other thread
    writes: it is still there when the thread is switched to. -/

namespace ChinixContextPreserved

open PageWalk WordMemory ChinixContextSwitch

variable {Tid : Type}

/-! ## Pushes -/

/-- Words pushed, the first one first. -/
def pushAll (ws : List (BitVec 64)) (s : State Tid) : State Tid :=
  ws.foldl (fun s w => push w s) s

theorem pushAll_concat (ws : List (BitVec 64)) (w : BitVec 64)
    (s : State Tid) : pushAll (ws ++ [w]) s = push w (pushAll ws s) := by
  rw [pushAll, List.foldl_append]
  rfl

/-- What some pushes leave. -/
structure Pushed (s : State Tid) (ws : List (BitVec 64)) (s' : State Tid) :
    Prop where
  rsp : s'.cpu.rsp.toNat = s.cpu.rsp.toNat - 8 * ws.length
  regs : s'.cpu.regs = s.cpu.regs
  rflags : s'.cpu.rflags = s.cpu.rflags
  sp : s'.sp = s.sp
  current : s'.current = s.current
  word : ∀ (i : Nat) (hi : i < ws.length),
    load64 s'.mem (s.cpu.rsp.toNat - 8 * (i + 1)) = ws[i]
  outside : ∀ x, x < s.cpu.rsp.toNat - 8 * ws.length ∨ s.cpu.rsp.toNat ≤ x →
    s'.mem x = s.mem x

/-- **Pushes** leave their words below each other, and nothing else. -/
theorem pushAll_pushed (ws : List (BitVec 64)) (s : State Tid)
    (h : 8 * ws.length ≤ s.cpu.rsp.toNat) : Pushed s ws (pushAll ws s) := by
  induction ws using List.reverseRecOn with
  | nil => exact ⟨rfl, rfl, rfl, rfl, rfl, fun i hi => absurd hi (by simp),
      fun _ _ => rfl⟩
  | append_singleton ws w ih =>
      rw [List.length_append, List.length_singleton] at h
      have hws := ih (by omega)
      have hrsp : ((pushAll ws s).cpu.rsp - 8).toNat =
          s.cpu.rsp.toNat - 8 * (ws.length + 1) := by
        have hle : (8 : BitVec 64) ≤ (pushAll ws s).cpu.rsp := by
          rw [BitVec.le_def, hws.rsp]
          show 8 ≤ _
          omega
        rw [BitVec.toNat_sub_of_le hle, hws.rsp]
        show _ - 8 = _
        omega
      rw [pushAll_concat]
      refine ⟨?_, hws.regs, hws.rflags, hws.sp, hws.current, ?_, ?_⟩
      · rw [List.length_append, List.length_singleton]
        exact hrsp
      · intro i hi
        rw [List.length_append, List.length_singleton] at hi
        show load64 (store64 ((pushAll ws s).cpu.rsp - 8).toNat w _) _ = _
        rw [hrsp]
        rcases Nat.lt_or_ge i ws.length with hlt | hge
        · rw [load64_store64_of_apart (by omega), hws.word i hlt,
            List.getElem_append_left hlt]
        -- the word that was pushed last
        · obtain rfl : i = ws.length := by omega
          rw [load64_store64_self, List.getElem_concat_length rfl]
      · intro x hx
        rw [List.length_append, List.length_singleton] at hx
        show store64 ((pushAll ws s).cpu.rsp - 8).toNat w _ x = _
        rw [hrsp, store64_apply_of_outside (by omega),
          hws.outside x (by omega)]

/-! ## The frame -/

/-- The frame at `sp` in memory is that of a thread which runs on as `c`: the
    words of `struct x64_context_frame`, and the stack above them. -/
structure Saved (m : Mem) (sp : BitVec 64) (c : Cpu) : Prop where
  r15 : load64 m sp.toNat = c.regs .r15
  r14 : load64 m (sp.toNat + 8) = c.regs .r14
  r13 : load64 m (sp.toNat + 16) = c.regs .r13
  r12 : load64 m (sp.toNat + 24) = c.regs .r12
  rbp : load64 m (sp.toNat + 32) = c.regs .rbp
  rbx : load64 m (sp.toNat + 40) = c.regs .rbx
  rflags : load64 m (sp.toNat + 48) = c.rflags
  rip : load64 m (sp.toNat + 56) = c.rip
  rsp : sp + 64 = c.rsp
  bound : sp.toNat + 64 < 2 ^ 64

/-- A frame in bytes that stay the same. -/
theorem Saved.congr {m m' : Mem} {sp : BitVec 64} {c : Cpu} (h : Saved m sp c)
    (heq : ∀ x, sp.toNat ≤ x → x < sp.toNat + 64 → m' x = m x) :
    Saved m' sp c := by
  have hload : ∀ a, sp.toNat ≤ a → a + 8 ≤ sp.toNat + 64 →
      load64 m' a = load64 m a := fun a hlo hhi =>
    load64_congr fun x hx hx' => heq x (by omega) (by omega)
  refine ⟨?_, ?_, ?_, ?_, ?_, ?_, ?_, ?_, h.rsp, h.bound⟩
  · rw [hload _ (by omega) (by omega), h.r15]
  · rw [hload _ (by omega) (by omega), h.r14]
  · rw [hload _ (by omega) (by omega), h.r13]
  · rw [hload _ (by omega) (by omega), h.r12]
  · rw [hload _ (by omega) (by omega), h.rbp]
  · rw [hload _ (by omega) (by omega), h.rbx]
  · rw [hload _ (by omega) (by omega), h.rflags]
  · rw [hload _ (by omega) (by omega), h.rip]

/-! ## The switch -/

/-- The pops of the switch. -/
def pops : List Instr :=
  [.popq .r15, .popq .r14, .popq .r13, .popq .r12, .popq .rbp, .popq .rbx,
   .popf, .retq]

/-- What the call and the pushes of the switch write. -/
def contextWords (ret : BitVec 64) (c : Cpu) : List (BitVec 64) :=
  [ret, c.rflags, c.regs .rbx, c.regs .rbp, c.regs .r12, c.regs .r13,
   c.regs .r14, c.regs .r15]

/-- The old thread, switched out. -/
def switchedOut (ret : BitVec 64) (s : State Tid) : State Tid :=
  pushAll (contextWords ret s.cpu) s

theorem switchedOut_pushed {ret : BitVec 64} {s : State Tid} {k : Stack}
    (h : HasRoom k s.cpu.rsp) :
    Pushed s (contextWords ret s.cpu) (switchedOut ret s) := by
  refine pushAll_pushed _ s ?_
  have := h.1
  show 8 * 8 ≤ _
  omega

/-- **Switched out**: the frame is that of a thread that runs on at `ret` as
    it is. -/
theorem switchedOut_saved {ret : BitVec 64} {s : State Tid} {k : Stack}
    (h : HasRoom k s.cpu.rsp) :
    Saved (switchedOut ret s).mem (switchedOut ret s).cpu.rsp
      { s.cpu with rip := ret } := by
  have hp : Pushed s (contextWords ret s.cpu) _ := switchedOut_pushed h
  obtain ⟨hlo, hhi⟩ := h
  have hrsp : (switchedOut ret s).cpu.rsp.toNat = s.cpu.rsp.toNat - 64 := hp.rsp
  have hword : ∀ (a i : Nat) (hi : i < 8), a + 8 * (i + 1) = 64 →
      load64 (switchedOut ret s).mem
        ((switchedOut ret s).cpu.rsp.toNat + a) =
          (contextWords ret s.cpu).get ⟨i, hi⟩ := by
    intro a i hi ha
    refine Eq.trans ?_ (hp.word i hi)
    rw [hrsp]
    congr 1
    omega
  refine ⟨hword 0 7 (by decide) rfl, hword 8 6 (by decide) rfl,
    hword 16 5 (by decide) rfl, hword 24 4 (by decide) rfl,
    hword 32 3 (by decide) rfl, hword 40 2 (by decide) rfl,
    hword 48 1 (by decide) rfl, hword 56 0 (by decide) rfl, ?_, by omega⟩
  refine BitVec.eq_of_toNat_eq ?_
  rw [BitVec.toNat_add, hrsp]
  show (s.cpu.rsp.toNat - 64 + 64) % 2 ^ 64 = _
  rw [Nat.sub_add_cancel (by omega)]
  exact Nat.mod_eq_of_lt s.cpu.rsp.isLt

variable [DecidableEq Tid]

/-- The switch: pushes, the exchange of the stack pointers, and pops. -/
theorem switchTo_eq (ret : BitVec 64) (new : Tid) (s : State Tid) :
    switchTo ret new s =
      let out := switchedOut ret s
      let sp := Function.update s.sp s.current out.cpu.rsp
      execAll s.current new pops
        { cpu := { out.cpu with rsp := sp new }, mem := out.mem, sp := sp,
          current := new } := rfl

/-- **Switched in**: the pops take what the frame says. -/
theorem execAll_pops {old new : Tid} {s : State Tid} {c : Cpu}
    (h : Saved s.mem s.cpu.rsp c) :
    execAll old new pops s = { s with cpu := c } := by
  have hbound := h.bound
  have hadd : ∀ (a : BitVec 64) (n : Nat), a.toNat = s.cpu.rsp.toNat + n →
      n ≤ 56 → (a + 8).toNat = s.cpu.rsp.toNat + (n + 8) := by
    intro a n ha hn
    rw [BitVec.toNat_add, ha]
    show (s.cpu.rsp.toNat + n + 8) % 2 ^ 64 = _
    exact Nat.mod_eq_of_lt (by omega)
  have h8 := hadd s.cpu.rsp 0 rfl (by decide)
  have h16 := hadd _ 8 h8 (by decide)
  have h24 := hadd _ 16 h16 (by decide)
  have h32 := hadd _ 24 h24 (by decide)
  have h40 := hadd _ 32 h32 (by decide)
  have h48 := hadd _ 40 h40 (by decide)
  have h56 := hadd _ 48 h48 (by decide)
  have hcpu : (execAll old new pops s).cpu = c := by
    refine Cpu.ext ?_ ?_ ?_ ?_
    · funext r
      cases r with
      | rbx => exact (congrArg (load64 s.mem) h40).trans h.rbx
      | rbp => exact (congrArg (load64 s.mem) h32).trans h.rbp
      | r12 => exact (congrArg (load64 s.mem) h24).trans h.r12
      | r13 => exact (congrArg (load64 s.mem) h16).trans h.r13
      | r14 => exact (congrArg (load64 s.mem) h8).trans h.r14
      | r15 => exact h.r15
    · show s.cpu.rsp + 8 + 8 + 8 + 8 + 8 + 8 + 8 + 8 = c.rsp
      rw [← h.rsp]
      simp only [BitVec.add_assoc]
      rfl
    · exact (congrArg (load64 s.mem) h48).trans h.rflags
    · exact (congrArg (load64 s.mem) h56).trans h.rip
  have hrest : execAll old new pops s =
      { s with cpu := (execAll old new pops s).cpu } := rfl
  rw [hrest, hcpu]

/-- **A switch** to a thread with a frame runs it on as the frame says. -/
theorem switchTo_cpu {ret : BitVec 64} {new : Tid} {s : State Tid} {c : Cpu}
    (hne : new ≠ s.current)
    (h : Saved (switchedOut ret s).mem (s.sp new) c) :
    switchTo ret new s =
      { cpu := c, mem := (switchedOut ret s).mem,
        sp := Function.update s.sp s.current (switchedOut ret s).cpu.rsp,
        current := new } := by
  rw [switchTo_eq]
  have hsp : Function.update s.sp s.current (switchedOut ret s).cpu.rsp new =
      s.sp new := Function.update_of_ne hne _ _
  refine execAll_pops ?_
  show Saved _ (Function.update s.sp s.current _ new) c
  rw [hsp]
  exact h

/-! ## A new thread -/

theorem and_not_fifteen (x : BitVec 64) :
    (x &&& ~~~(0xf : BitVec 64)).toNat = x.toNat / 16 * 16 := by
  have hshift : x &&& ~~~(0xf : BitVec 64) = x >>> 4 <<< 4 := by
    refine BitVec.eq_of_getLsbD_eq fun i hi => ?_
    have hfifteen : (0xf : BitVec 64).getLsbD i = decide (i < 4) := by
      revert i
      decide
    rw [BitVec.getLsbD_and, BitVec.getLsbD_not, hfifteen,
      BitVec.getLsbD_shiftLeft, BitVec.getLsbD_ushiftRight]
    by_cases h4 : i < 4
    · simp [h4]
    · have hback : 4 + (i - 4) = i := by omega
      simp [h4, hi, hback]
  rw [hshift, BitVec.toNat_shiftLeft, BitVec.toNat_ushiftRight,
    Nat.shiftRight_eq_div_pow, Nat.shiftLeft_eq]
  have := x.isLt
  exact Nat.mod_eq_of_lt (by omega)

/-- The top of a stack: 8 below a multiple of 16. -/
theorem stackTop_toNat {k : Stack} (hsize : 96 ≤ k.size)
    (hbound : k.base + k.size < 2 ^ 64) :
    (stackTop k).toNat = (k.base + k.size) / 16 * 16 - 8 := by
  have hn : (BitVec.ofNat 64 (k.base + k.size) &&& ~~~0xf).toNat =
      (k.base + k.size) / 16 * 16 := by
    rw [and_not_fifteen, BitVec.toNat_ofNat, Nat.mod_eq_of_lt hbound]
  have hle : (8 : BitVec 64) ≤
      BitVec.ofNat 64 (k.base + k.size) &&& ~~~0xf := by
    rw [BitVec.le_def, hn]
    show 8 ≤ _
    omega
  rw [stackTop, BitVec.toNat_sub_of_le hle, hn]
  rfl

/-- **The first frame** is in the stack, and what is above it begins 8 off a
    multiple of 16. -/
theorem frame_inside {k : Stack} (hsize : 96 ≤ k.size)
    (hbound : k.base + k.size < 2 ^ 64) :
    k.base ≤ (stackTop k - 64).toNat ∧
      (stackTop k - 64).toNat + 64 = (stackTop k).toNat ∧
      (stackTop k).toNat ≤ k.base + k.size ∧ (stackTop k).toNat % 16 = 8 := by
  have htop := stackTop_toNat hsize hbound
  have hle : (64 : BitVec 64) ≤ stackTop k := by
    rw [BitVec.le_def, htop]
    show 64 ≤ _
    omega
  rw [BitVec.toNat_sub_of_le hle, htop]
  show k.base ≤ _ - 64 ∧ _ - 64 + 64 = _ ∧ _ ∧ _
  omega

/-- How a new thread begins. -/
def firstCpu (entry : BitVec 64) (k : Stack) : Cpu where
  regs := fun _ => 0
  rsp := stackTop k
  rflags := 0x3002
  rip := entry

variable {entry : BitVec 64} {k : Stack} {s : State Tid}

/-- **The frame of `init_thread_stack`** has the layout that the pops read. -/
theorem initThreadStack_saved (hsize : 96 ≤ k.size)
    (hbound : k.base + k.size < 2 ^ 64) (t : Tid) :
    Saved (initThreadStack entry k t s).mem (stackTop k - 64)
      (firstCpu entry k) := by
  obtain ⟨-, htop, hhi, -⟩ := frame_inside hsize hbound
  have hzero : ∀ a, a + 8 ≤ 48 →
      load64 (initThreadStack entry k t s).mem
        ((stackTop k - 64).toNat + a) = 0 := by
    intro a ha
    show load64 (store64 _ _ (store64 _ _ (memzero _ _ _))) _ = 0
    rw [load64_store64_of_apart (by omega),
      load64_store64_of_apart (by omega), load64_memzero (by omega)]
  refine ⟨hzero 0 (by decide), hzero 8 (by decide), hzero 16 (by decide),
    hzero 24 (by decide), hzero 32 (by decide), hzero 40 (by decide),
    ?_, ?_, ?_, by omega⟩
  · exact load64_store64_self _ _ _
  · show load64 (store64 _ _ (store64 _ _ _)) _ = entry
    rw [load64_store64_of_apart (by omega)]
    exact load64_store64_self _ _ _
  · show stackTop k - 64 + 64 = stackTop k
    exact BitVec.sub_add_cancel _ _

/-- `init_thread_stack` writes to the stack of its thread only. -/
theorem initThreadStack_outside (hsize : 96 ≤ k.size)
    (hbound : k.base + k.size < 2 ^ 64) (t : Tid) {x : Nat}
    (hx : ¬ k.Contains x) : (initThreadStack entry k t s).mem x = s.mem x := by
  obtain ⟨hlo, htop, hhi, -⟩ := frame_inside hsize hbound
  rw [Stack.Contains] at hx
  show store64 _ _ (store64 _ _ (memzero _ _ _)) x = _
  rw [store64_apply_of_outside (by omega), store64_apply_of_outside (by omega),
    memzero_apply_of_outside (by omega)]

/-! ## Runs -/

variable {cfg : Config Tid}

/-- The thread does not run, and its frame is in its stack: it runs on as
    `c`. -/
structure Suspended (cfg : Config Tid) (t : Tid) (c : Cpu) (s : State Tid) :
    Prop where
  other : t ≠ s.current
  saved : Saved s.mem (s.sp t) c
  lo : (cfg.stack t).base ≤ (s.sp t).toNat
  hi : (s.sp t).toNat + 64 ≤ (cfg.stack t).base + (cfg.stack t).size

omit [DecidableEq Tid] in
/-- A thread stays suspended while its stack and its `sp` stay the same. -/
theorem Suspended.congr {t : Tid} {c : Cpu} {s s' : State Tid}
    (h : Suspended cfg t c s) (hother : t ≠ s'.current)
    (hsp : s'.sp t = s.sp t)
    (hmem : ∀ x, (cfg.stack t).Contains x → s'.mem x = s.mem x) :
    Suspended cfg t c s' := by
  have hlo := h.lo
  have hhi := h.hi
  refine ⟨hother, ?_, hsp ▸ hlo, hsp ▸ hhi⟩
  rw [hsp]
  exact h.saved.congr fun x hx hx' => hmem x ⟨by omega, by omega⟩

omit [DecidableEq Tid] in
/-- The switch out writes to the stack of the thread that runs. -/
theorem switchedOut_outside {ret : BitVec 64} {k : Stack}
    (h : HasRoom k s.cpu.rsp) {x : Nat} (hx : ¬ k.Contains x) :
    (switchedOut ret s).mem x = s.mem x := by
  refine (switchedOut_pushed h).outside x ?_
  obtain ⟨hlo, hhi⟩ := h
  rw [Stack.Contains] at hx
  show x < _ - 8 * 8 ∨ _
  omega

theorem switchTo_mem (ret : BitVec 64) (new : Tid) (s : State Tid) :
    (switchTo ret new s).mem = (switchedOut ret s).mem := rfl

theorem switchTo_sp (ret : BitVec 64) (new : Tid) (s : State Tid) :
    (switchTo ret new s).sp =
      Function.update s.sp s.current (switchedOut ret s).cpu.rsp := rfl

theorem switchTo_current (ret : BitVec 64) (new : Tid) (s : State Tid) :
    (switchTo ret new s).current = new := rfl

/-- **A step** that does not concern a suspended thread keeps it. -/
theorem Step.suspended (hcfg : cfg.WellFormed) {t : Tid} {c : Cpu}
    {s s' : State Tid} {e : Event Tid} (hstep : Step cfg s e s')
    (he : ¬ e.Concerns t) (h : Suspended cfg t c s) :
    Suspended cfg t c s' := by
  cases hstep with
  -- the frame is in the stack of `t`, which nobody else writes
  | run cpu mem own => exact h.congr h.other rfl (own t h.other)
  | init u other =>
      have hne : t ≠ u := fun heq => he heq.symm
      refine h.congr h.other (Function.update_of_ne hne _ _) fun x hx => ?_
      exact initThreadStack_outside (hcfg.size u) (hcfg.bound u) u
        (hcfg.apart t u hne x hx)
  | switch ret new other room =>
      have hother : t ≠ (switchTo ret new s).current := by
        rw [switchTo_current]
        exact fun heq => he heq.symm
      have hsp : (switchTo ret new s).sp t = s.sp t := by
        rw [switchTo_sp]
        exact Function.update_of_ne h.other _ _
      refine h.congr hother hsp fun x hx => ?_
      rw [switchTo_mem]
      exact switchedOut_outside room (hcfg.apart t s.current h.other x hx)

/-- **A run** that does not concern a suspended thread keeps it. -/
theorem Run.suspended (hcfg : cfg.WellFormed) {t : Tid} {c : Cpu}
    {s s' : State Tid} {es : List (Event Tid)} (hrun : Run cfg s es s')
    (he : ∀ e ∈ es, ¬ e.Concerns t) (h : Suspended cfg t c s) :
    Suspended cfg t c s' := by
  induction hrun with
  | nil s => exact h
  | cons hstep _ ih =>
      exact ih (fun e hmem => he e (List.mem_cons_of_mem _ hmem))
        (Step.suspended hcfg hstep (he _ List.mem_cons_self) h)

/-- The thread that calls the switch is suspended by it. -/
theorem switchTo_suspended {ret : BitVec 64} {new : Tid}
    (hne : new ≠ s.current) (room : HasRoom (cfg.stack s.current) s.cpu.rsp) :
    Suspended cfg s.current { s.cpu with rip := ret } (switchTo ret new s) := by
  have hsp : (switchTo ret new s).sp s.current =
      (switchedOut ret s).cpu.rsp := Function.update_self _ _ _
  have hrsp : (switchedOut ret s).cpu.rsp.toNat = s.cpu.rsp.toNat - 64 :=
    (switchedOut_pushed room).rsp
  obtain ⟨hlo, hhi⟩ := room
  refine ⟨Ne.symm hne, ?_, ?_, ?_⟩
  · rw [hsp]
    exact switchedOut_saved ⟨hlo, hhi⟩
  · rw [hsp, hrsp]
    omega
  · rw [hsp, hrsp]
    omega

/-- A thread whose stack is prepared is suspended. -/
theorem initThreadStack_suspended (hcfg : cfg.WellFormed) {t : Tid}
    (hne : t ≠ s.current) :
    Suspended cfg t (firstCpu entry (cfg.stack t))
      (initThreadStack entry (cfg.stack t) t s) := by
  have hsp : (initThreadStack entry (cfg.stack t) t s).sp t =
      stackTop (cfg.stack t) - 64 := Function.update_self _ _ _
  obtain ⟨hlo, htop, hhi, -⟩ := frame_inside (hcfg.size t) (hcfg.bound t)
  refine ⟨hne, ?_, ?_, ?_⟩
  · rw [hsp]
    exact initThreadStack_saved (hcfg.size t) (hcfg.bound t) t
  · rw [hsp]
    exact hlo
  · rw [hsp, htop]
    exact hhi

/-- **A suspended thread that is switched to** runs on as it should. -/
theorem Suspended.switchTo (hcfg : cfg.WellFormed) {t : Tid} {c : Cpu}
    {ret : BitVec 64} (h : Suspended cfg t c s)
    (room : HasRoom (cfg.stack s.current) s.cpu.rsp) :
    (ChinixContextSwitch.switchTo ret t s).cpu = c := by
  have hlo := h.lo
  have hhi := h.hi
  -- the pushes of the thread that is switched out are in its own stack
  have hsaved : Saved (switchedOut ret s).mem (s.sp t) c := by
    refine h.saved.congr fun x hx hx' => ?_
    exact switchedOut_outside room
      (hcfg.apart t s.current h.other x ⟨by omega, by omega⟩)
  rw [switchTo_cpu h.other hsaved]

/-- **Contexts are preserved**: whatever the threads do in between, without
    writing to each other's stacks, a thread that is switched back to runs on
    behind its last call of the switch with its registers, its flags and its
    stack pointer; a new thread enters `initial_thread_func` with interrupts
    off and the stack aligned as behind a call, and its frame is in its
    stack. -/
theorem contexts_preserved (hcfg : cfg.WellFormed) :
    (∀ s₁ s₂ s₃ s₄ es t new ret ret', s₁.current = t →
      Step cfg s₁ (.switch ret new) s₂ → Run cfg s₂ es s₃ →
      (∀ e ∈ es, ¬ e.Concerns t) → Step cfg s₃ (.switch ret' t) s₄ →
      s₄.current = t ∧ s₄.cpu = { s₁.cpu with rip := ret }) ∧
    (∀ s₁ s₂ s₃ s₄ es t ret, Step cfg s₁ (.init t) s₂ → Run cfg s₂ es s₃ →
      (∀ e ∈ es, ¬ e.Concerns t) → Step cfg s₃ (.switch ret t) s₄ →
      s₄.current = t ∧ s₄.cpu.rip = cfg.initialThreadFunc ∧
      s₄.cpu.rflags.getLsbD 9 = false ∧ s₄.cpu.rsp.toNat % 16 = 8 ∧
      (cfg.stack t).base ≤ (s₂.sp t).toNat ∧
      (s₂.sp t).toNat + 64 ≤ (cfg.stack t).base + (cfg.stack t).size) := by
  constructor
  · rintro s₁ s₂ s₃ s₄ es t new ret ret' rfl hout hrun he hin
    cases hout with
    | switch _ _ other room =>
        have hsusp := Run.suspended hcfg hrun he (switchTo_suspended other room)
        cases hin with
        | switch _ _ other' room' =>
            exact ⟨switchTo_current _ _ _, hsusp.switchTo hcfg room'⟩
  · intro s₁ s₂ s₃ s₄ es t ret hinit hrun he hin
    cases hinit with
    | init _ other =>
        have hfirst : Suspended cfg t
            (firstCpu cfg.initialThreadFunc (cfg.stack t)) _ :=
          initThreadStack_suspended hcfg other
        have hsusp := Run.suspended hcfg hrun he hfirst
        obtain ⟨-, -, -, halign⟩ := frame_inside (hcfg.size t) (hcfg.bound t)
        cases hin with
        | switch _ _ other' room' =>
            have hcpu : (switchTo ret t s₃).cpu = _ :=
              hsusp.switchTo hcfg room'
            refine ⟨switchTo_current _ _ _, ?_, ?_, ?_, hfirst.lo, hfirst.hi⟩
            · rw [hcpu]
              rfl
            · rw [hcpu]
              show (0x3002 : BitVec 64).getLsbD 9 = false
              decide
            · rw [hcpu]
              exact halign

/-! ### Two threads -/

/-- Two small stacks, at addresses that are not aligned. -/
def twoStacks : Config Bool where
  stack := fun t => if t then ⟨0x2003, 101⟩ else ⟨0x1000, 96⟩
  initialThreadFunc := 0x4000

theorem twoStacks_wellFormed : twoStacks.WellFormed := by
  refine ⟨?_, ?_, ?_⟩
  · decide
  · decide
  · intro t u hne x hx hx'
    cases t with
    | false =>
        have hlow : x < 0x1000 + 96 := hx.2
        cases u with
        | false => exact hne rfl
        | true =>
            have hhigh : 0x2003 ≤ x := hx'.1
            omega
    | true =>
        have hhigh : 0x2003 ≤ x := hx.1
        cases u with
        | false =>
            have hlow : x < 0x1000 + 96 := hx'.2
            omega
        | true => exact hne rfl

/-- The first thread, at the call of the switch. -/
def atSwitch : State Bool where
  cpu := ⟨fun _ => 7, 0x1058, 0x3202, 0x5000⟩
  mem := fun _ => 0
  sp := fun _ => 0
  current := false

/-- The second thread, at its call. -/
def atSwitchBack : Cpu := ⟨fun _ => 9, 0x2058, 0x3002, 0x4100⟩

/-- The first thread prepares the second one, switches to it, and is switched
    back to. -/
theorem contexts_preserved_twoStacks :
    let prepared := initThreadStack 0x4000 (twoStacks.stack true) true atSwitch
    let entered := switchTo 0x5005 true prepared
    let ran := { entered with cpu := atSwitchBack }
    let back := switchTo 0x4105 false ran
    (back.current = false ∧ back.cpu = { prepared.cpu with rip := 0x5005 }) ∧
      entered.current = true ∧ entered.cpu.rip = 0x4000 ∧
      entered.cpu.rflags.getLsbD 9 = false ∧
      entered.cpu.rsp.toNat % 16 = 8 ∧
      0x2003 ≤ (prepared.sp true).toNat ∧
      (prepared.sp true).toNat + 64 ≤ 0x2003 + 101 := by
  intro prepared entered ran back
  have hinit : Step twoStacks atSwitch (.init true) prepared :=
    .init _ _ (by decide)
  have hout : Step twoStacks prepared (.switch 0x5005 true) entered :=
    .switch _ _ _ (by decide) ⟨by decide, by decide⟩
  have hran : Run twoStacks entered [.run] ran :=
    .cons (.run _ _ _ fun _ _ _ _ => rfl) (.nil _)
  have hback : Step twoStacks ran (.switch 0x4105 false) back :=
    .switch _ _ _ Bool.false_ne_true ⟨by decide, by decide⟩
  have h := contexts_preserved twoStacks_wellFormed
  have hrun : ∀ e ∈ [Event.run], ¬ e.Concerns false := by
    intro e he
    rw [List.mem_singleton.mp he]
    exact id
  exact ⟨h.1 _ _ _ _ _ _ _ _ _ rfl hout hran hrun hback,
    h.2 _ _ _ _ _ _ _ hinit (.nil _) (by simp) hout⟩

end ChinixContextPreserved

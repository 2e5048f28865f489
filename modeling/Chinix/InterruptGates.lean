import Chinix.IdtSetup

/-! # What `setup_idt` leaves in the table

    One round writes a stub's address into three fields of a gate and leaves
    its other fields alone.  So every gate of `_idt` comes to lead to the stub
    of its vector, and the round that has no gate left writes its three
    fields behind the table, where the limit hides them. -/

namespace ChinixInterruptGates

open PageWalk WordMemory LoopInstruction ChinixIdtSetup

/-! ## Half words -/

theorem load16_congr {m m' : Mem} {a : Nat} (h0 : m' a = m a)
    (h1 : m' (a + 1) = m (a + 1)) : load16 m' a = load16 m a := by
  rw [load16, load16, h0, h1]

theorem store16_apply_of_outside {m : Mem} {a x : Nat} {w : BitVec 16}
    (h : x < a ∨ a + 2 ≤ x) : store16 a w m x = m x := by
  rw [store16, if_neg (by omega), if_neg (by omega)]

theorem load16_store16_self (m : Mem) (a : Nat) (w : BitVec 16) :
    load16 (store16 a w m) a = w := by
  rw [load16, store16, store16, if_neg (by omega), if_pos rfl, if_pos rfl]
  ext i hi
  simp only [BitVec.getElem_append, BitVec.getElem_extractLsb']
  split_ifs <;> (rw [← BitVec.getLsbD_eq_getElem]; congr 1; omega)

/-! ## The stubs -/

theorem isrSize_eq {i : Nat} (h : i < 128) : isrSize i = isrLen := by
  have hlen : isrLen = 9 := by decide
  rw [hlen, isrSize, isr]
  split_ifs
  · simp [StubInstr.size, h]
  · simp [StubInstr.size, h]

/-- The stubs are at multiples of `isr_len`. -/
theorem stub_eq (y : Symbols) {i : Nat} (h : i ≤ 128) :
    y.stub i = y.isr + isrLen * i := by
  rw [Symbols.stub]
  congr 1
  induction i with
  | zero => rfl
  | succ i ih =>
      rw [List.range_succ, List.map_append, List.sum_append, ih (by omega)]
      simp only [List.map_cons, List.map_nil, List.sum_singleton]
      rw [isrSize_eq (by omega), Nat.mul_succ]

theorem stub_lt (y : Symbols) {i : Nat} (h : i ≤ numInt) :
    y.stub i < 2 ^ 64 := by
  have hbound := y.isrBound
  have hnum : numInt = 0x31 := rfl
  rw [stub_eq y (by omega)]
  have := Nat.mul_le_mul_left isrLen h
  omega

/-! ## One gate -/

/-- What a round writes at `a`. -/
def patch (a : Nat) (w : BitVec 64) (m : Mem) : Mem :=
  store32 (a + 8) ((w >>> 16 >>> 16).setWidth 32)
    (store16 (a + 6) ((w >>> 16).setWidth 16)
      (store16 a (w.setWidth 16) m))

theorem patch_apply_of_outside {m : Mem} {a x : Nat} {w : BitVec 64}
    (h : x < a ∨ (a + 2 ≤ x ∧ x < a + 6) ∨ a + 12 ≤ x) :
    patch a w m x = m x := by
  rw [patch, store32_apply_of_outside (by omega),
    store16_apply_of_outside (by omega), store16_apply_of_outside (by omega)]

theorem word_append (w : BitVec 64) :
    ((w >>> 16 >>> 16).setWidth 32 ++ (w >>> 16).setWidth 16 ++
      w.setWidth 16 : BitVec 64) = w := by
  ext i hi
  simp only [BitVec.getElem_append, BitVec.getElem_setWidth,
    BitVec.getLsbD_ushiftRight]
  rw [← BitVec.getLsbD_eq_getElem]
  split_ifs
  · rfl
  · congr 1
    omega
  · congr 1
    omega

/-- The gate that is written. -/
theorem gateAt_patch_self (m : Mem) (a : Nat) (w : BitVec 64) :
    gateAt (patch a w m) a = { gateAt m a with offset := w } := by
  have hlow : load16 (patch a w m) a = w.setWidth 16 := by
    rw [← load16_store16_self m a (w.setWidth 16), patch]
    refine load16_congr ?_ ?_
    · rw [store32_apply_of_outside (by omega),
        store16_apply_of_outside (by omega)]
    · rw [store32_apply_of_outside (by omega),
        store16_apply_of_outside (by omega)]
  have hmid : load16 (patch a w m) (a + 6) = (w >>> 16).setWidth 16 := by
    rw [← load16_store16_self (store16 a (w.setWidth 16) m) (a + 6)
      ((w >>> 16).setWidth 16), patch]
    exact load16_congr (store32_apply_of_outside (by omega))
      (store32_apply_of_outside (by omega))
  have hhigh : load32 (patch a w m) (a + 8) = (w >>> 16 >>> 16).setWidth 32 :=
    load32_store32_self _ _ _
  have hsel : load16 (patch a w m) (a + 2) = load16 m (a + 2) :=
    load16_congr (patch_apply_of_outside (by omega))
      (patch_apply_of_outside (by omega))
  rw [gateAt, gateAt, hlow, hmid, hhigh, hsel, word_append]
  rw [patch_apply_of_outside (by omega), patch_apply_of_outside (by omega)]

/-- A gate apart from it. -/
theorem gateAt_congr {m m' : Mem} {a : Nat}
    (h : ∀ x, a ≤ x → x < a + 12 → m' x = m x) : gateAt m' a = gateAt m a := by
  rw [gateAt, gateAt]
  rw [load32_congr fun x hlo hhi => h x (by omega) (by omega)]
  rw [load16_congr (h a (by omega) (by omega)) (h (a + 1) (by omega) (by omega))]
  rw [load16_congr (h (a + 2) (by omega) (by omega))
    (h (a + 2 + 1) (by omega) (by omega))]
  rw [load16_congr (h (a + 6) (by omega) (by omega))
    (h (a + 6 + 1) (by omega) (by omega))]
  rw [h (a + 4) (by omega) (by omega), h (a + 5) (by omega) (by omega)]

theorem gateAt_patch_of_apart {m : Mem} {a b : Nat} {w : BitVec 64}
    (h : a + 12 ≤ b ∨ b + 12 ≤ a) :
    gateAt (patch b w m) a = gateAt m a :=
  gateAt_congr fun _ _ _ => patch_apply_of_outside (by omega)

/-! ## The loop -/

/-- `k` gates are written. -/
structure Filled (y : Symbols) (s0 : Cpu) (k : Nat) (s : Cpu) : Prop where
  rsi : s.rsi = BitVec.ofNat 64 (y.stub k)
  rdi : s.rdi = BitVec.ofNat 64 (y.idt + 16 * k)
  written : ∀ i < k, gateAt s.mem (y.idt + 16 * i)
    = { gateAt s0.mem (y.idt + 16 * i) with
        offset := BitVec.ofNat 64 (y.stub i) }
  frame : ∀ x, x < y.idt ∨ y.idt + 16 * k ≤ x + 4 → s.mem x = s0.mem x

/-- A round writes one gate. -/
theorem idtRound_mem (s : Cpu) (h : s.rdi.toNat + 16 < 2 ^ 64) :
    (idtRound s).mem = patch s.rdi.toNat s.rsi s.mem := by
  have hsix : (s.rdi + 6).toNat = s.rdi.toNat + 6 := by
    rw [BitVec.toNat_add]
    exact Nat.mod_eq_of_lt (by show s.rdi.toNat + 6 < _; omega)
  have height : (s.rdi + 8).toNat = s.rdi.toNat + 8 := by
    rw [BitVec.toNat_add]
    exact Nat.mod_eq_of_lt (by show s.rdi.toNat + 8 < _; omega)
  have hzero : s.rdi + 0 = s.rdi := BitVec.add_zero _
  rw [patch, ← hsix, ← height]
  show store32 (s.rdi + 8).toNat _ (store16 (s.rdi + 6).toNat _
    (store16 (s.rdi + 0).toNat _ s.mem)) = _
  rw [hzero]
  rfl

theorem Filled.round {y : Symbols} {s0 s : Cpu} {k : Nat}
    (h : Filled y s0 k s) (hk : k < numInt) :
    Filled y s0 (k + 1) (idtRound s) := by
  have hnum : numInt = 0x31 := rfl
  have hbound := y.idtBound
  have hrdi : s.rdi.toNat = y.idt + 16 * k := by
    rw [h.rdi, BitVec.toNat_ofNat, Nat.mod_eq_of_lt (by omega)]
  have hmem := idtRound_mem s (by omega)
  rw [hrdi] at hmem
  refine ⟨?_, ?_, ?_, ?_⟩
  · show s.rsi + BitVec.ofNat 64 isrLen = _
    rw [h.rsi, stub_eq y (by omega), stub_eq y (by omega),
      ← BitVec.ofNat_add, Nat.mul_succ, Nat.add_assoc]
  · show s.rdi + 16 = _
    rw [h.rdi]
    show BitVec.ofNat 64 _ + BitVec.ofNat 64 16 = _
    rw [← BitVec.ofNat_add, Nat.mul_succ, Nat.add_assoc]
  · intro i hi
    rw [hmem]
    by_cases hik : i = k
    · subst hik
      have hold : gateAt s.mem (y.idt + 16 * i)
          = gateAt s0.mem (y.idt + 16 * i) :=
        gateAt_congr fun x _ _ => h.frame x (by omega)
      rw [gateAt_patch_self, hold, h.rsi]
    · rw [gateAt_patch_of_apart (by omega)]
      exact h.written i (by omega)
  · intro x hx
    rw [hmem, patch_apply_of_outside (by omega)]
    exact h.frame x (by omega)

/-- `setup_idt` comes to an end with all the rounds done. -/
theorem setupIdt_filled (y : Symbols) (s : Cpu) {fuel : Nat}
    (hfuel : numInt ≤ fuel) :
    ∃ s', setupIdt y fuel s = some (s', y.idtr) ∧ Filled y s numInt s' := by
  have hzero : Filled y s 0 ((enterIdt y).foldl exec s) :=
    ⟨rfl, rfl, fun _ hi => absurd hi (Nat.not_lt_zero _), fun _ _ => rfl⟩
  have htrips : trips ((enterIdt y).foldl exec s).rcx = numInt := by
    show trips ((BitVec.ofNat 32 numInt).setWidth 64) = numInt
    decide
  obtain ⟨s', hrun, hend⟩ := loopDown_rule Cpu.rcx idtRound
    (fun _ => rfl) htrips hfuel hzero fun k _ hk h => h.round hk
  refine ⟨s', ?_, hend⟩
  rw [setupIdt, hrun]
  rfl

/-- **The table that `setup_idt` leaves**: every vector below `NUM_INT` - 1 has
    a present interrupt gate that leads to its stub, and no other vector has
    one.  Outside the table memory stays as it was but for the last round,
    which writes the address of the stub of `NUM_INT` - 1 behind
    `_idt_end`. -/
theorem setupIdt_gates (y : Symbols) (s : Cpu) (h : Linked y s.mem)
    (fuel : Nat) (hfuel : numInt ≤ fuel) :
    ∃ s' r, setupIdt y fuel s = some (s', r) ∧
      (∀ v, lookup s'.mem r v
        = if v < numInt - 1 then
            some ⟨BitVec.ofNat 64 (y.stub v), code64Selector, 0, 0x8e⟩
          else none) ∧
      (gateAt s'.mem (y.idt + 16 * (numInt - 1))).offset
        = BitVec.ofNat 64 (y.stub (numInt - 1)) ∧
      ∀ x, x < y.idt ∨ y.idt + 16 * (numInt - 1) + 12 ≤ x →
        s'.mem x = s.mem x := by
  obtain ⟨s', hrun, hend⟩ := setupIdt_filled y s hfuel
  have hnum : numInt = 0x31 := rfl
  refine ⟨s', y.idtr, hrun, fun v => ?_, ?_, fun x hx => ?_⟩
  · rw [lookup]
    show (if 16 * v + 15 ≤ 16 * (numInt - 1) - 1 then
      some (gateAt s'.mem (y.idt + 16 * v)) else none) = _
    by_cases hv : v < numInt - 1
    · rw [if_pos hv, if_pos (by omega), hend.written v (by omega), h v hv]
    · rw [if_neg hv, if_neg (by omega)]
  · rw [hend.written _ (by omega)]
  · exact hend.frame x (by omega)

/-- The stubs at 1 MB, the table at 2 MB. -/
def lowSymbols : Symbols := ⟨0x100000, 0x200000, by decide, by decide⟩

/-- Memory with the linked table everywhere. -/
def linkedMem : Mem := fun x =>
  if x % 16 = 2 then 0x28 else if x % 16 = 5 then 0x8e else 0

/-- The timer's vector leads to its stub, and vector 0x30 has no gate. -/
theorem setupIdt_gates_lowSymbols :
    ∃ s' r, setupIdt lowSymbols 49 ⟨0, 0, 0, 0, linkedMem⟩ = some (s', r) ∧
      lookup s'.mem r 0x20 = some ⟨0x100120, 0x28, 0, 0x8e⟩ ∧
      lookup s'.mem r 0x30 = none := by
  have hlinked : Linked lowSymbols linkedMem := by
    rw [Linked]
    decide +kernel
  obtain ⟨s', r, hrun, hlookup, -⟩ := setupIdt_gates lowSymbols
    ⟨0, 0, 0, 0, linkedMem⟩ hlinked 49 (by decide)
  refine ⟨s', r, hrun, ?_, hlookup 0x30⟩
  rw [hlookup]
  decide +kernel

end ChinixInterruptGates

import Chinix.Interrupts
import Mathlib.Data.List.Induction

/-! # Which interrupt lines are deliverable

    What a caller expects of `mask_interrupt` and `unmask_interrupt`: a line
    delivers if the last call that concerned it unmasked it.  Two statements
    of `interrupt_enable` break this, and each only in one kind of state; a
    sequence of calls behaves as expected exactly when none of its calls is
    made in such a state. -/

namespace ChinixInterruptLines

open ChinixInterrupts

-- ── Bits of a register ──

theorem lineBit_eq (index : Nat) : lineBit index = BitVec.twoPow 8 index := rfl

theorem and_lineBit_eq_zero {mask : Byte} {index : Nat} (h : index < 8) :
    mask &&& lineBit index = 0 ↔ mask.getLsbD index = false := by
  rw [lineBit_eq, BitVec.and_twoPow]
  by_cases hm : mask.getLsbD index
  · rw [if_pos hm, hm]
    refine ⟨fun h0 => ?_, by simp⟩
    have := congrArg (fun b => b.getLsbD index) h0
    simp [h] at this
  · rw [if_neg hm]
    exact ⟨fun _ => by simpa using hm, fun _ => rfl⟩

theorem getLsbD_lineBit {i j : Nat} (h : j < 8) :
    (lineBit i).getLsbD j = decide (j = i) := by
  rw [lineBit_eq, BitVec.getLsbD_twoPow]
  by_cases hij : j = i
  · subst hij; simp [h]
  · simp [hij, Ne.symm hij]

theorem getLsbD_and_not_lineBit {mask : Byte} {i j : Nat} (h : j < 8) :
    (mask &&& ~~~lineBit i).getLsbD j = (mask.getLsbD j && !decide (j = i)) := by
  rw [BitVec.getLsbD_and, BitVec.getLsbD_not, getLsbD_lineBit h]
  simp [h]

theorem getLsbD_or_lineBit {mask : Byte} {i j : Nat} (h : j < 8) :
    (mask ||| lineBit i).getLsbD j = (mask.getLsbD j || decide (j = i)) := by
  rw [BitVec.getLsbD_or, getLsbD_lineBit h]

theorem getLsbD_full {j : Nat} (h : j < 8) :
    (0xff : Byte).getLsbD j = true := by
  show (BitVec.allOnes 8).getLsbD j = true
  rw [BitVec.getLsbD_allOnes]
  exact decide_eq_true h

theorem eq_full_iff {mask : Byte} :
    mask = 0xff ↔ ∀ j < 8, mask.getLsbD j = true := by
  refine ⟨fun h j hj => h ▸ getLsbD_full hj, fun h => ?_⟩
  exact BitVec.eq_of_getLsbD_eq fun j hj => by rw [h j hj, getLsbD_full hj]

theorem eq_zero_iff {mask : Byte} :
    mask = 0 ↔ ∀ j < 8, mask.getLsbD j = false := by
  refine ⟨fun h j _ => by rw [h]; exact BitVec.getLsbD_zero, fun h => ?_⟩
  exact BitVec.eq_of_getLsbD_eq fun j hj => by
    rw [h j hj]; exact BitVec.getLsbD_zero.symm

-- ── The registers and their copies ──

/-- The software copies agree with the registers. -/
def Synced (c : Controller) : Prop :=
  ∀ pic : Pic, c.irqMask pic = c.ports pic.dataPort

theorem dataPort_injective {p q : Pic} (h : p.dataPort = q.dataPort) :
    p = q := by
  cases p <;> cases q <;> first | rfl | exact absurd h (by decide)

theorem rewriteMask_eq (pic : Pic) (change : Byte → Byte) (c : Controller) :
    rewriteMask pic change c =
      { c with
        ports := Function.update c.ports pic.dataPort
          (change (c.ports pic.dataPort)),
        irqMask := Function.update c.irqMask pic
          (change (c.ports pic.dataPort)) } := by
  simp [rewriteMask, setIrqMask, outb, inb]

/-- The register that a rewrite leaves. -/
theorem rewriteMask_ports (pic other : Pic) (change : Byte → Byte)
    (c : Controller) :
    (rewriteMask pic change c).ports other.dataPort =
      if other = pic then change (c.ports pic.dataPort)
      else c.ports other.dataPort := by
  rw [rewriteMask_eq]
  by_cases h : other = pic
  · subst h
    rw [if_pos rfl]
    exact Function.update_self ..
  · rw [if_neg h]
    exact Function.update_of_ne (fun e => h (dataPort_injective e)) ..

theorem synced_rewriteMask {pic : Pic} {change : Byte → Byte}
    {c : Controller} (h : Synced c) : Synced (rewriteMask pic change c) := by
  intro other
  rw [rewriteMask_ports, rewriteMask_eq]
  show Function.update c.irqMask pic _ other = _
  by_cases ho : other = pic
  · subst ho
    rw [if_pos rfl, Function.update_self]
  · rw [if_neg ho, Function.update_of_ne ho]
    exact h other

theorem synced_maskAll (c : Controller) : Synced (maskAllInterrupt c) := by
  intro pic
  cases pic <;> rfl

theorem synced_platformInit (c : Controller) :
    Synced (platformInitInterrupts c) := by
  intro pic
  cases pic <;> rfl

theorem masked_maskAll (c : Controller) (pic : Pic) {j : Nat} (hj : j < 8) :
    Masked (maskAllInterrupt c) pic j := by
  cases pic <;> exact getLsbD_full hj

theorem masked_platformInit (c : Controller) (pic : Pic) {j : Nat}
    (hj : j < 8) : Masked (platformInitInterrupts c) pic j := by
  cases pic <;> exact getLsbD_full hj

/-- A rewrite that clears one bit. -/
theorem masked_clear {pic other : Pic} {i j : Nat} {c : Controller}
    (hj : j < 8) :
    Masked (rewriteMask pic (fun mask => mask &&& ~~~lineBit i) c) other j ↔
      Masked c other j ∧ ¬ (other = pic ∧ j = i) := by
  unfold Masked
  rw [rewriteMask_ports]
  by_cases ho : other = pic
  · subst ho
    rw [if_pos rfl, getLsbD_and_not_lineBit hj]
    simp
  · rw [if_neg ho]
    simp [ho]

/-- A rewrite that sets one bit. -/
theorem masked_set {pic other : Pic} {i j : Nat} {c : Controller}
    (hj : j < 8) :
    Masked (rewriteMask pic (fun mask => mask ||| lineBit i) c) other j ↔
      Masked c other j ∨ (other = pic ∧ j = i) := by
  unfold Masked
  rw [rewriteMask_ports]
  by_cases ho : other = pic
  · subst ho
    rw [if_pos rfl, getLsbD_or_lineBit hj]
    simp
  · rw [if_neg ho]
    simp [ho]

/-- A rewrite that puts one bit in the place of the register. -/
theorem masked_assign {pic other : Pic} {i j : Nat} {c : Controller}
    (hj : j < 8) :
    Masked (rewriteMask pic (fun _ => lineBit i) c) other j ↔
      if other = pic then j = i else Masked c other j := by
  unfold Masked
  rw [rewriteMask_ports]
  by_cases ho : other = pic
  · rw [if_pos ho, if_pos ho, getLsbD_lineBit hj]
    exact decide_eq_true_iff
  · rw [if_neg ho, if_neg ho]

-- ── The branches of `interrupt_enable` ──

theorem irqMask_bit {c : Controller} (hs : Synced c) {pic : Pic} {i : Nat}
    (hi : i < 8) :
    c.irqMask pic &&& lineBit i = 0 ↔ ¬ Masked c pic i := by
  rw [and_lineBit_eq_zero hi, hs pic]
  exact (Bool.not_eq_true _).symm.to_iff

/-- The branches that clear a bit leave a clear one alone. -/
theorem masked_clear_guarded {c : Controller} (hs : Synced c) {i j : Nat}
    (hi : i < 8) (hj : j < 8) {p q r : Prop} [Decidable p] [Decidable q]
    [Decidable r] (hp : p) (hq : ¬ q) {target : Pic} (b : Controller)
    (pic : Pic) :
    Masked
        (if p ∧ c.irqMask target &&& lineBit i ≠ 0 then
          rewriteMask target (fun mask => mask &&& ~~~lineBit i) c
        else if q ∧ r then b else c) pic j ↔
      Masked c pic j ∧ ¬ (pic = target ∧ j = i) := by
  by_cases hm : Masked c target i
  · rw [if_pos ⟨hp, fun h => (irqMask_bit hs hi).mp h hm⟩]
    exact masked_clear hj
  · rw [if_neg (fun h => h.2 ((irqMask_bit hs hi).mpr hm)),
      if_neg (fun h => hq h.1)]
    exact ⟨fun h => ⟨h, fun e => hm (e.2 ▸ e.1 ▸ h)⟩, And.left⟩

theorem enableOnPic1_unmask {c : Controller} (hs : Synced c) {i j : Nat}
    (hi : i < 8) (hj : j < 8) (pic : Pic) :
    Masked (enableOnPic1 i true c) pic j ↔
      Masked c pic j ∧ ¬ (pic = .pic1 ∧ j = i) := by
  rw [enableOnPic1]
  exact masked_clear_guarded hs hi hj rfl (fun h => h rfl) _ pic

theorem enableOnPic1_masked {c : Controller} (hs : Synced c) {i : Nat}
    (hi : i < 8) (hm : Masked c .pic1 i) : enableOnPic1 i false c = c := by
  rw [enableOnPic1]
  rw [if_neg (fun h => by cases h.1),
    if_neg (fun h => (irqMask_bit hs hi).mp h.2 hm)]

/-- Masking an unmasked line of the first PIC leaves no other bit set. -/
theorem enableOnPic1_mask {c : Controller} (hs : Synced c) {i j : Nat}
    (hi : i < 8) (hj : j < 8) (hm : ¬ Masked c .pic1 i) (pic : Pic) :
    Masked (enableOnPic1 i false c) pic j ↔
      if pic = .pic1 then j = i else Masked c pic j := by
  rw [enableOnPic1]
  rw [if_neg (fun h => by cases h.1),
    if_pos ⟨by simp, (irqMask_bit hs hi).mpr hm⟩]
  exact masked_assign hj

theorem enableOnPic2_unmask {c : Controller} (hs : Synced c) {i j : Nat}
    (hi : i < 8) (hj : j < 8) (pic : Pic) :
    Masked (enableOnPic2 i true c) pic j ↔
      Masked c pic j ∧ ¬ (pic = .pic2 ∧ j = i) := by
  rw [enableOnPic2]
  exact masked_clear_guarded hs hi hj rfl (fun h => h rfl) _ pic

theorem enableOnPic2_mask {c : Controller} (hs : Synced c) {i j : Nat}
    (hi : i < 8) (hj : j < 8) (pic : Pic) :
    Masked (enableOnPic2 i false c) pic j ↔
      Masked c pic j ∨ (pic = .pic2 ∧ j = i) := by
  rw [enableOnPic2]
  rw [if_neg (fun h => by cases h.1)]
  by_cases hm : Masked c .pic2 i
  · rw [if_neg (fun h => (irqMask_bit hs hi).mp h.2 hm)]
    refine ⟨Or.inl, ?_⟩
    rintro (h | ⟨rfl, rfl⟩)
    · exact h
    · exact hm
  · rw [if_pos ⟨by simp, (irqMask_bit hs hi).mpr hm⟩]
    exact masked_set hj

theorem cascadeIndex_lt : cascadeIndex < 8 := by decide

/-- With some line of the second PIC masked the cascade is opened, unless
    they all are. -/
theorem adjustCascade_some {c : Controller} (hs : Synced c)
    {a b : Nat} (ha : a < 8) (hma : Masked c .pic2 a)
    (hb : b < 8) (hmb : ¬ Masked c .pic2 b) {j : Nat} (hj : j < 8)
    (pic : Pic) :
    Masked (adjustCascade c) pic j ↔
      Masked c pic j ∧ ¬ (pic = .pic1 ∧ j = cascadeIndex) := by
  have hfull : c.irqMask .pic2 ≠ 0xff := by
    intro h
    exact hmb (by rw [Masked, ← hs .pic2]; exact eq_full_iff.mp h b hb)
  have hzero : c.irqMask .pic2 ≠ 0 := by
    intro h
    rw [Masked, ← hs .pic2, eq_zero_iff.mp h a ha] at hma
    cases hma
  rw [adjustCascade]
  exact masked_clear_guarded hs cascadeIndex_lt hj hfull hzero _ pic

theorem adjustCascade_full {c : Controller} (hs : Synced c)
    (h : ∀ j < 8, Masked c .pic2 j) : adjustCascade c = c := by
  have hfull : c.irqMask .pic2 = 0xff :=
    eq_full_iff.mpr fun j hj => by rw [hs .pic2]; exact h j hj
  rw [adjustCascade]
  rw [if_neg (fun e => e.1 hfull),
    if_neg (fun e => by rw [hfull] at e; exact absurd e.1 (by decide))]

/-- With no line of the second PIC masked an open cascade is closed. -/
theorem adjustCascade_none {c : Controller} (hs : Synced c)
    (h : ∀ j < 8, ¬ Masked c .pic2 j) (hm : ¬ Masked c .pic1 cascadeIndex) :
    Masked (adjustCascade c) .pic1 cascadeIndex := by
  have hzero : c.irqMask .pic2 = 0 := eq_zero_iff.mpr fun j hj => by
    rw [hs .pic2]
    exact (Bool.not_eq_true _).mp (h j hj)
  have hbit := (irqMask_bit hs cascadeIndex_lt).mpr hm
  rw [adjustCascade]
  rw [if_neg (fun e => e.2 hbit), if_pos ⟨hzero, hbit⟩]
  exact (masked_set cascadeIndex_lt).mpr (.inr ⟨rfl, rfl⟩)

/-- Every branch rewrites a register or leaves both. -/
theorem synced_branches {c : Controller} (hs : Synced c) {p q : Prop}
    [Decidable p] [Decidable q] (pic pic' : Pic) (change change' : Byte → Byte) :
    Synced (if p then rewriteMask pic change c
      else if q then rewriteMask pic' change' c else c) := by
  split_ifs
  · exact synced_rewriteMask hs
  · exact synced_rewriteMask hs
  · exact hs

theorem synced_enableOnPic1 {c : Controller} (hs : Synced c) (i : Nat)
    (enable : Bool) : Synced (enableOnPic1 i enable c) := by
  rw [enableOnPic1]
  exact synced_branches hs _ _ _ _

theorem synced_enableOnPic2 {c : Controller} (hs : Synced c) (i : Nat)
    (enable : Bool) : Synced (enableOnPic2 i enable c) := by
  rw [enableOnPic2]
  exact synced_branches hs _ _ _ _

theorem synced_adjustCascade {c : Controller} (hs : Synced c) :
    Synced (adjustCascade c) := by
  rw [adjustCascade]
  exact synced_branches hs _ _ _ _

-- ── Lines ──

theorem Line.index_lt (line : Line) : line.index < 8 := by
  have h1 := line.first
  have h2 := line.last
  rw [Line.index, Line.pic]
  split_ifs with h
  · simp only [Pic.base] at h1 h ⊢
    omega
  · simp only [Pic.base] at h2 h ⊢
    omega

theorem Line.vector_eq (line : Line) :
    line.vector = line.pic.base + line.index := by
  have h1 := line.first
  rw [Line.index, Line.pic]
  split_ifs with h
  · simp only [Pic.base] at h1 ⊢
    omega
  · simp only [Pic.base] at h ⊢
    omega

theorem Line.ext_index {l l' : Line} (hp : l.pic = l'.pic)
    (hi : l.index = l'.index) : l = l' := by
  have h : l.vector = l'.vector := by
    rw [Line.vector_eq l, Line.vector_eq l', hp, hi]
  cases l
  cases l'
  cases h
  rfl

theorem Line.index_ne_cascade {line : Line} (h : line.pic = .pic1) :
    line.index ≠ cascadeIndex := by
  intro hi
  refine line.notCascade ?_
  rw [Line.vector_eq, h, hi]
  rfl

/-- The line at a place of the second register. -/
theorem exists_line_pic2 {j : Nat} (hj : j < 8) :
    ∃ line : Line, line.pic = .pic2 ∧ line.index = j := by
  have h1 : Pic.base .pic1 ≤ 0x28 + j := by
    show 0x20 ≤ 0x28 + j
    omega
  have h2 : 0x28 + j < Pic.base .pic2 + 8 := by
    show 0x28 + j < 0x28 + 8
    omega
  have h3 : 0x28 + j ≠ intPic2 := by
    show 0x28 + j ≠ 0x22
    omega
  have hpic : Line.pic ⟨0x28 + j, h1, h2, h3⟩ = .pic2 :=
    if_neg (by show ¬ 0x28 + j < 0x28; omega)
  refine ⟨⟨0x28 + j, h1, h2, h3⟩, hpic, ?_⟩
  show 0x28 + j - Pic.base _ = j
  rw [hpic]
  exact Nat.add_sub_cancel_left ..

theorem interruptEnable_pic1 {line : Line} (h : line.pic = .pic1)
    (enable : Bool) (c : Controller) :
    interruptEnable line.vector enable c = enableOnPic1 line.index enable c := by
  have hlt := Line.index_lt line
  rw [interruptEnable]
  rw [Line.vector_eq, h, if_pos ⟨by omega, by omega⟩, Nat.add_sub_cancel_left]

theorem interruptEnable_pic2 {line : Line} (h : line.pic = .pic2)
    (enable : Bool) (c : Controller) :
    interruptEnable line.vector enable c =
      adjustCascade (enableOnPic2 line.index enable c) := by
  have hlt := Line.index_lt line
  have hpast : ¬ (Pic.base .pic1 ≤ Pic.base .pic2 + line.index ∧
      Pic.base .pic2 + line.index < Pic.base .pic1 + 8) := by
    show ¬ (0x20 ≤ 0x28 + line.index ∧ 0x28 + line.index < 0x20 + 8)
    omega
  rw [interruptEnable]
  rw [Line.vector_eq, h, if_neg hpast, if_pos ⟨by omega, by omega⟩,
    Nat.add_sub_cancel_left]

theorem exec_mask (line : Line) (c : Controller) :
    Operation.exec c (.mask line) = interruptEnable line.vector false c := by
  have hlt : ¬ line.vector ≥ intMaxVectors := by
    have := line.last
    show ¬ 0x31 ≤ line.vector
    have h : line.vector < 0x28 + 8 := this
    omega
  show (maskInterrupt line.vector c).2 = _
  rw [maskInterrupt]
  rw [if_neg hlt]

theorem exec_unmask (line : Line) (c : Controller) :
    Operation.exec c (.unmask line) = interruptEnable line.vector true c := rfl

-- ── What a caller expects ──

/-- The operation is about the line. -/
def Operation.Concerns (line : Line) : Operation → Bool
  | .mask other => decide (other = line)
  | .unmask other => decide (other = line)
  | .maskAll => true

/-- The last operation that concerned the line. -/
def lastOperation (ops : List Operation) (line : Line) : Option Operation :=
  ops.reverse.find? (Operation.Concerns line)

/-- A line is deliverable iff it was last unmasked. -/
def LinesFollow (c : Controller) (ops : List Operation) : Prop :=
  ∀ line : Line,
    Deliverable (runOps c ops) line ↔
      lastOperation ops line = some (.unmask line)

/-- The last of the calls changed nothing for the lines it does not concern. -/
def OthersKept (c : Controller) (ops : List Operation) : Prop :=
  ∀ (before : List Operation) (op : Operation), ops = before ++ [op] →
    ∀ line : Line, Operation.Concerns line op = false →
      (Deliverable (runOps c ops) line ↔ Deliverable (runOps c before) line)

/-- The states in which a call of the interface is safe: not to mask an
    unmasked line of the first PIC while another of its lines is masked, and
    not to unmask the last masked line of the second. -/
def SafeOn (c : Controller) : Operation → Prop
  | .mask line => line.pic = .pic1 → ¬ Masked c .pic1 line.index →
      ∀ other : Line, other.pic = .pic1 → other ≠ line →
        ¬ Masked c .pic1 other.index
  | .unmask line => line.pic = .pic2 →
      ∃ other : Line, other.pic = .pic2 ∧ other ≠ line ∧
        Masked c .pic2 other.index
  | .maskAll => True

theorem lastOperation_snoc (ops : List Operation) (op : Operation)
    (line : Line) :
    lastOperation (ops ++ [op]) line =
      if Operation.Concerns line op then some op else lastOperation ops line := by
  rw [lastOperation]
  rw [List.reverse_append, List.reverse_singleton, List.singleton_append,
    List.find?_cons]
  cases Operation.Concerns line op <;> rfl

theorem runOps_snoc (c : Controller) (ops : List Operation) (op : Operation) :
    runOps c (ops ++ [op]) = Operation.exec (runOps c ops) op := by
  rw [runOps]
  rw [List.foldl_append]
  rfl

/-- What the registers and their copies satisfy as long as every call is
    safe. -/
structure Inv (c : Controller) (ops : List Operation) : Prop where
  synced : Synced c
  cascade : ∀ j < 8, ¬ Masked c .pic2 j → ¬ Masked c .pic1 cascadeIndex
  follows : ∀ line : Line, ¬ Masked c line.pic line.index ↔
    lastOperation ops line = some (.unmask line)

theorem Inv.deliverable_iff {c : Controller} {ops : List Operation}
    (hi : Inv c ops) (line : Line) :
    Deliverable c line ↔ ¬ Masked c line.pic line.index := by
  refine ⟨And.left, fun h => ⟨h, fun hp => ?_⟩⟩
  exact hi.cascade line.index (Line.index_lt line) (hp ▸ h)

theorem inv_platformInit (c : Controller) :
    Inv (platformInitInterrupts c) [] where
  synced := synced_platformInit c
  cascade _ hj h := absurd (masked_platformInit c .pic2 hj) h
  follows line :=
    ⟨fun h => absurd (masked_platformInit c _ (Line.index_lt line)) h,
      by rintro ⟨⟩⟩

-- ── One call ──

/-- One call changes the bit of the lines it concerns and of no other. -/
def Tracks (c c' : Controller) (op : Operation) : Prop :=
  ∀ line : Line, Masked c' line.pic line.index ↔
    if Operation.Concerns line op then op ≠ .unmask line
    else Masked c line.pic line.index

theorem Inv.snoc {c c' : Controller} {ops : List Operation} {op : Operation}
    (hi : Inv c ops) (hs : Synced c') (ht : Tracks c c' op)
    (hc : ∀ j < 8, ¬ Masked c' .pic2 j → ¬ Masked c' .pic1 cascadeIndex) :
    Inv c' (ops ++ [op]) := by
  refine ⟨hs, hc, fun line => ?_⟩
  rw [lastOperation_snoc, ht line]
  by_cases h : Operation.Concerns line op
  · rw [if_pos h, if_pos h, not_not, Option.some_inj]
  · rw [if_neg h, if_neg h]
    exact hi.follows line

theorem concerns_mask (line : Line) :
    Operation.Concerns line (.mask line) = true := decide_eq_true rfl

theorem concerns_unmask (line : Line) :
    Operation.Concerns line (.unmask line) = true := decide_eq_true rfl

theorem tracks_maskAll (c : Controller) :
    Tracks c (maskAllInterrupt c) .maskAll := fun line =>
  ⟨fun _ => by rintro ⟨⟩, fun _ => masked_maskAll c _ (Line.index_lt line)⟩

/-- The bits after an `unmask_interrupt`: the line's own is cleared. -/
theorem tracks_unmask {c c' : Controller} {line : Line}
    (h : ∀ other : Line, Masked c' other.pic other.index ↔
      Masked c other.pic other.index ∧
        ¬ (other.pic = line.pic ∧ other.index = line.index)) :
    Tracks c c' (.unmask line) := by
  intro other
  rw [h other]
  by_cases ho : line = other
  · subst ho
    rw [if_pos (concerns_unmask line)]
    exact ⟨fun hm => absurd ⟨rfl, rfl⟩ hm.2, fun hm => absurd rfl hm⟩
  · rw [if_neg (by simpa [Operation.Concerns] using ho)]
    exact ⟨And.left, fun hm => ⟨hm, fun e =>
      ho (Line.ext_index e.1 e.2).symm⟩⟩

/-- The bits after a `mask_interrupt`: the line's own is set. -/
theorem tracks_mask {c c' : Controller} {line : Line}
    (h : ∀ other : Line, Masked c' other.pic other.index ↔
      Masked c other.pic other.index ∨
        (other.pic = line.pic ∧ other.index = line.index)) :
    Tracks c c' (.mask line) := by
  intro other
  rw [h other]
  by_cases ho : line = other
  · subst ho
    rw [if_pos (concerns_mask line)]
    exact ⟨fun _ => by simp, fun _ => .inr ⟨rfl, rfl⟩⟩
  · rw [if_neg (by simpa [Operation.Concerns] using ho)]
    refine ⟨?_, .inl⟩
    rintro (hm | ⟨hp, hi⟩)
    · exact hm
    · exact absurd (Line.ext_index hp hi).symm ho

theorem Inv.unmask_pic1 {c : Controller} {ops : List Operation}
    (hi : Inv c ops) {line : Line} (hp : line.pic = .pic1) :
    Inv (enableOnPic1 line.index true c) (ops ++ [.unmask line]) := by
  have hl := Line.index_lt line
  have hm := fun (pic : Pic) (j : Nat) (hj : j < 8) =>
    enableOnPic1_unmask hi.synced hl hj pic
  refine hi.snoc (synced_enableOnPic1 hi.synced _ _) (tracks_unmask ?_) ?_
  · intro other
    rw [hm _ _ (Line.index_lt other), hp]
  · intro j hj h2 h1
    have h2' : ¬ Masked c .pic2 j := fun h =>
      h2 ((hm _ j hj).mpr ⟨h, fun e => by cases e.1⟩)
    exact hi.cascade j hj h2' ((hm _ _ cascadeIndex_lt).mp h1).1

theorem Inv.mask_pic1 {c : Controller} {ops : List Operation}
    (hi : Inv c ops) {line : Line} (hp : line.pic = .pic1)
    (hsafe : SafeOn c (.mask line)) :
    Inv (enableOnPic1 line.index false c) (ops ++ [.mask line]) := by
  have hl := Line.index_lt line
  by_cases hmasked : Masked c .pic1 line.index
  · rw [enableOnPic1_masked hi.synced hl hmasked]
    refine hi.snoc hi.synced (tracks_mask fun other => ⟨.inl, ?_⟩) hi.cascade
    rintro (h | ⟨h1, h2⟩)
    · exact h
    · rw [h1, h2, hp]
      exact hmasked
  · have hm := fun (pic : Pic) (j : Nat) (hj : j < 8) =>
      enableOnPic1_mask hi.synced hl hj hmasked pic
    refine hi.snoc (synced_enableOnPic1 hi.synced _ _) (tracks_mask ?_) ?_
    · intro other
      rw [hm _ _ (Line.index_lt other)]
      by_cases ho : other.pic = .pic1
      · -- the other lines of the register were clear already
        rw [if_pos ho]
        refine ⟨fun e => .inr ⟨ho.trans hp.symm, e⟩, ?_⟩
        rintro (h | h)
        · by_contra hne
          exact hsafe hp hmasked other ho (fun e => hne (e ▸ rfl)) (ho ▸ h)
        · exact h.2
      · rw [if_neg ho]
        exact ⟨.inl, fun h => h.resolve_right fun e => ho (e.1.trans hp)⟩
    · intro j hj _ h1
      have := (hm _ _ cascadeIndex_lt).mp h1
      rw [if_pos rfl] at this
      exact Line.index_ne_cascade hp this.symm

/-- What the second half of the branch for the second PIC adds, once one of
    its lines is masked and another is not. -/
theorem adjustCascade_line {c : Controller} (hs : Synced c)
    {a b : Nat} (ha : a < 8) (hma : Masked c .pic2 a)
    (hb : b < 8) (hmb : ¬ Masked c .pic2 b) :
    ¬ Masked (adjustCascade c) .pic1 cascadeIndex ∧
      ∀ line : Line, Masked (adjustCascade c) line.pic line.index ↔
        Masked c line.pic line.index := by
  refine ⟨fun h => ?_, fun line => ?_⟩
  · exact ((adjustCascade_some hs ha hma hb hmb cascadeIndex_lt _).mp h).2
      ⟨rfl, rfl⟩
  · rw [adjustCascade_some hs ha hma hb hmb (Line.index_lt line)]
    exact ⟨And.left, fun h => ⟨h, fun e => Line.index_ne_cascade e.1 e.2⟩⟩

theorem Inv.unmask_pic2 {c : Controller} {ops : List Operation}
    (hi : Inv c ops) {line : Line} (hp : line.pic = .pic2)
    (hsafe : SafeOn c (.unmask line)) :
    Inv (adjustCascade (enableOnPic2 line.index true c))
      (ops ++ [.unmask line]) := by
  have hl := Line.index_lt line
  have hs := synced_enableOnPic2 hi.synced line.index true
  have hm := fun (pic : Pic) (j : Nat) (hj : j < 8) =>
    enableOnPic2_unmask hi.synced hl hj pic
  obtain ⟨other, hop, hne, hmo⟩ := hsafe hp
  have hother : Masked (enableOnPic2 line.index true c) .pic2 other.index :=
    (hm _ _ (Line.index_lt other)).mpr ⟨hmo, fun e =>
      hne (Line.ext_index (hop.trans hp.symm) e.2)⟩
  have hself : ¬ Masked (enableOnPic2 line.index true c) .pic2 line.index :=
    fun h => ((hm _ _ hl).mp h).2 ⟨rfl, rfl⟩
  obtain ⟨hopen, hsame⟩ :=
    adjustCascade_line hs (Line.index_lt other) hother hl hself
  refine hi.snoc (synced_adjustCascade hs) (tracks_unmask ?_)
    (fun _ _ _ => hopen)
  intro l
  rw [hsame l, hm _ _ (Line.index_lt l), hp]

theorem Inv.mask_pic2 {c : Controller} {ops : List Operation}
    (hi : Inv c ops) {line : Line} (hp : line.pic = .pic2) :
    Inv (adjustCascade (enableOnPic2 line.index false c))
      (ops ++ [.mask line]) := by
  have hl := Line.index_lt line
  have hs := synced_enableOnPic2 hi.synced line.index false
  have hm := fun (pic : Pic) (j : Nat) (hj : j < 8) =>
    enableOnPic2_mask hi.synced hl hj pic
  have htracks : Tracks c (enableOnPic2 line.index false c) (.mask line) :=
    tracks_mask fun other => by rw [hm _ _ (Line.index_lt other), hp]
  by_cases hall : ∀ j < 8, Masked (enableOnPic2 line.index false c) .pic2 j
  · rw [adjustCascade_full hs hall]
    exact hi.snoc hs htracks fun j hj h => absurd (hall j hj) h
  · have hsome : ∃ j < 8, ¬ Masked (enableOnPic2 line.index false c) .pic2 j := by
      by_contra h
      exact hall fun j hj => by
        by_contra hj'
        exact h ⟨j, hj, hj'⟩
    obtain ⟨b, hb, hmb⟩ := hsome
    have hself : Masked (enableOnPic2 line.index false c) .pic2 line.index :=
      (hm _ _ hl).mpr (.inr ⟨rfl, rfl⟩)
    obtain ⟨hopen, hsame⟩ := adjustCascade_line hs hl hself hb hmb
    refine hi.snoc (synced_adjustCascade hs) (fun l => ?_) (fun _ _ _ => hopen)
    rw [hsame l]
    exact htracks l

/-- **A safe call keeps the invariant.** -/
theorem Inv.exec {c : Controller} {ops : List Operation} {op : Operation}
    (hi : Inv c ops) (hsafe : SafeOn c op) :
    Inv (Operation.exec c op) (ops ++ [op]) := by
  cases op with
  | mask line =>
      rw [exec_mask]
      cases hp : line.pic with
      | pic1 => rw [interruptEnable_pic1 hp]; exact hi.mask_pic1 hp hsafe
      | pic2 => rw [interruptEnable_pic2 hp]; exact hi.mask_pic2 hp
  | unmask line =>
      rw [exec_unmask]
      cases hp : line.pic with
      | pic1 => rw [interruptEnable_pic1 hp]; exact hi.unmask_pic1 hp
      | pic2 => rw [interruptEnable_pic2 hp]; exact hi.unmask_pic2 hp hsafe
  | maskAll =>
      exact hi.snoc (synced_maskAll c) (tracks_maskAll c) fun j hj h =>
        absurd (masked_maskAll c .pic2 hj) h

/-- An unsafe call is seen at once: masking the line opens another one, or
    unmasking it closes the cascade. -/
theorem Inv.safeOn_of_follows {c : Controller} {ops : List Operation}
    {op : Operation} (hi : Inv c ops)
    (h : ∀ line : Line, Deliverable (Operation.exec c op) line ↔
      lastOperation (ops ++ [op]) line = some (.unmask line)) :
    SafeOn c op := by
  cases op with
  | maskAll => exact trivial
  | mask line =>
      intro hp hm other ho hne
      rw [exec_mask, interruptEnable_pic1 hp] at h
      have hopen : ¬ Masked (enableOnPic1 line.index false c) other.pic
          other.index := by
        rw [enableOnPic1_mask hi.synced (Line.index_lt line)
          (Line.index_lt other) hm, if_pos ho]
        exact fun e => hne (Line.ext_index (ho.trans hp.symm) e)
      have hlast := (h other).mp ⟨hopen, fun e => by cases ho.symm.trans e⟩
      rw [lastOperation_snoc, if_neg (by
        simpa [Operation.Concerns] using Ne.symm hne)] at hlast
      exact ho ▸ (hi.follows other).mpr hlast
  | unmask line =>
      intro hp
      rw [exec_unmask, interruptEnable_pic2 hp] at h
      have hl := Line.index_lt line
      by_contra hno
      have hclear : ∀ j < 8, j ≠ line.index → ¬ Masked c .pic2 j := by
        intro j hj hne hmj
        obtain ⟨other, hop, hoi⟩ := exists_line_pic2 hj
        exact hno ⟨other, hop, fun e => hne (e ▸ hoi.symm), hoi ▸ hmj⟩
      have hcascade : ¬ Masked c .pic1 cascadeIndex := by
        by_cases h0 : line.index = 0
        · exact hi.cascade 1 (by omega) (hclear 1 (by omega) (by omega))
        · exact hi.cascade 0 (by omega) (hclear 0 (by omega) (Ne.symm h0))
      have hm := fun (pic : Pic) (j : Nat) (hj : j < 8) =>
        enableOnPic2_unmask hi.synced hl hj pic
      have hclosed := adjustCascade_none
        (synced_enableOnPic2 hi.synced line.index true)
        (fun j hj hmj => hclear j hj
          (fun e => ((hm _ _ hj).mp hmj).2 ⟨rfl, e⟩) ((hm _ _ hj).mp hmj).1)
        (fun hmc => hcascade ((hm _ _ cascadeIndex_lt).mp hmc).1)
      have hlast := (h line).mpr (by
        rw [lastOperation_snoc, if_pos (concerns_unmask line)])
      exact hlast.2 hp hclosed

-- ── Every sequence of calls ──

/-- Every call of the sequence is made in a state in which it is safe. -/
def SafeCalls (c : Controller) (ops : List Operation) : Prop :=
  ∀ before op, before ++ [op] <+: ops → SafeOn (runOps c before) op

theorem inv_of_safeCalls (c : Controller) {ops : List Operation}
    (h : SafeCalls c ops) : Inv (runOps c ops) ops := by
  induction ops using List.reverseRecOn with
  | nil => exact inv_platformInit c
  | append_singleton before op ih =>
      have hi := ih fun b o hb => h b o (hb.trans (List.prefix_append ..))
      rw [runOps_snoc]
      exact hi.exec (h before op (List.prefix_refl _))

theorem Inv.linesFollow {c : Controller} {ops : List Operation}
    (h : Inv (runOps c ops) ops) : LinesFollow c ops := fun line =>
  (h.deliverable_iff line).trans (h.follows line)

/-- What is deliverable follows the last operation, so that an operation on
    one line is not seen on another. -/
theorem othersKept_of_linesFollow {c : Controller} {ops : List Operation}
    (h : ∀ before, before <+: ops → LinesFollow c before) :
    OthersKept c ops := by
  rintro before op rfl line hline
  rw [h _ (List.prefix_refl _) line, h _ (List.prefix_append ..) line,
    lastOperation_snoc, if_neg (by rw [hline]; simp)]

/-- **Exactly the safe sequences behave as a caller expects**: whatever the
    ports and `irqMask` held before `platform_init_interrupts`, after every
    prefix of the calls each line is deliverable iff the last operation that
    concerned it was an unmask, and no operation on one line changes whether
    another is deliverable, iff every call is safe in the state in which it
    is made. -/
theorem linesFollow_iff_safeCalls (c : Controller) (ops : List Operation) :
    (∀ before, before <+: ops → LinesFollow c before ∧ OthersKept c before) ↔
      SafeCalls c ops := by
  constructor
  · intro h
    induction ops using List.reverseRecOn with
    | nil =>
        intro before op hb
        exact absurd (List.prefix_nil.mp hb) (by simp)
    | append_singleton init last ih =>
        have hinit := ih fun b hb => h b (hb.trans (List.prefix_append ..))
        have hi := inv_of_safeCalls c hinit
        intro before op hb
        rcases List.prefix_concat_iff.mp hb with he | hb
        · obtain ⟨rfl, rfl⟩ := List.append_singleton_inj.mp he
          refine hi.safeOn_of_follows ?_
          rw [← runOps_snoc]
          exact (h _ (List.prefix_refl _)).1
        · exact hinit before op hb
  · intro h
    have hfollow : ∀ before, before <+: ops → LinesFollow c before :=
      fun before hb => (inv_of_safeCalls c fun b o hbo =>
        h b o (hbo.trans hb)).linesFollow
    exact fun before hb => ⟨hfollow before hb,
      othersKept_of_linesFollow fun b hb' => hfollow b (hb'.trans hb)⟩

/-- The line of the PIT. -/
def pitLine : Line := ⟨0x20, by decide, by decide, by decide⟩

/-- The line of the keyboard. -/
def keyboardLine : Line := ⟨0x21, by decide, by decide, by decide⟩

/-- Unmasking the PIT and masking it again opens the keyboard, which no call
    has unmasked. -/
theorem masking_opens_another_line :
    ¬ ∀ (c : Controller) (ops : List Operation),
      LinesFollow c ops ∧ OthersKept c ops := by
  intro h
  have hf := (h ⟨fun _ => 0, fun _ => 0, []⟩
    [.unmask pitLine, .mask pitLine]).1 keyboardLine
  have hd : Deliverable (runOps ⟨fun _ => 0, fun _ => 0, []⟩
    [.unmask pitLine, .mask pitLine]) keyboardLine := by decide
  exact absurd (hf.mp hd) (by decide)

end ChinixInterruptLines

import Chinix.InterruptRuns

/-! # Which interrupt is served, and that each request is

    With nothing in service the processor is interrupted for the most urgent
    line that requests an interrupt and is deliverable.  So the requests that
    are there are served one by one in the order of urgency, and the handler
    that is called is the one registered last. -/

namespace ChinixInterruptDelivery

open ChinixInterrupts ChinixInterruptLines ChinixInterruptService
open ChinixInterruptRuns

variable {b b' : Board} {event : Event} {events : List Event} {line : Line}
variable {irr isr imr : Byte} {pic : Pic} {i : Nat}

/-! ## The most urgent line -/

/-- The urgency of a line, the most urgent being 0: the lines of the second
    chip have the place of the cascade. -/
def rank (line : Line) : Nat :=
  match line.pic with
  | .pic1 =>
      if line.index < cascadeIndex then line.index else line.index + 8
  | .pic2 => line.index + cascadeIndex

theorem rank_lt (line : Line) : rank line < 16 := by
  have := Line.index_lt line
  have hc : cascadeIndex = 2 := rfl
  rw [rank]
  cases line.pic with
  | pic1 =>
      dsimp only
      split_ifs <;> omega
  | pic2 =>
      dsimp only
      omega

theorem rank_injective {l l' : Line} (h : rank l = rank l') : l = l' := by
  have hl := Line.index_lt l
  have hl' := Line.index_lt l'
  have hc : cascadeIndex = 2 := rfl
  rw [rank, rank] at h
  cases hp : l.pic with
  | pic1 =>
      cases hp' : l'.pic with
      | pic1 =>
          rw [hp, hp'] at h
          refine Line.ext_index (hp.trans hp'.symm) ?_
          dsimp only at h
          split_ifs at h <;> omega
      | pic2 =>
          have := Line.index_ne_cascade hp
          rw [hp, hp'] at h
          dsimp only at h
          split_ifs at h <;> omega
  | pic2 =>
      cases hp' : l'.pic with
      | pic1 =>
          have := Line.index_ne_cascade hp'
          rw [hp, hp'] at h
          dsimp only at h
          split_ifs at h <;> omega
      | pic2 =>
          rw [hp, hp'] at h
          exact Line.ext_index (hp.trans hp'.symm) (by dsimp only at h; omega)

/-- A request that the chip's mask register lets through. -/
def Wants (imr irr : Byte) (i : Nat) : Prop :=
  irr.getLsbD i = true ∧ imr.getLsbD i = false

/-- The test of the request, with nothing in service. -/
theorem request_test (hi : i < 8) (irr imr : Byte) :
    ((irr &&& ~~~imr).getLsbD i
      && (List.range (i + 1)).all fun j => !(0 : Byte).getLsbD j) = true ↔
      Wants imr irr i := by
  rw [BitVec.getLsbD_and, BitVec.getLsbD_not]
  simp [Wants, hi]

/-- With nothing in service a chip requests an interrupt for its most urgent
    line. -/
theorem request_idle (pic : Pic) (irr imr : Byte) :
    (setUp pic irr 0).request imr = some i ↔
      i < 8 ∧ Wants imr irr i ∧ ∀ j < i, ¬ Wants imr irr j := by
  rw [Chip.request, List.find?_range_eq_some, List.mem_range]
  constructor
  · rintro ⟨htest, hi, hmin⟩
    refine ⟨hi, (request_test hi irr imr).mp htest, fun j hj hw => ?_⟩
    have htrue := (request_test (by omega) irr imr).mpr hw
    have hfalse := (Bool.not_eq_true' _).mp (hmin j hj)
    exact Bool.false_ne_true (hfalse.symm.trans htrue)
  · rintro ⟨hi, hw, hmin⟩
    refine ⟨(request_test hi irr imr).mpr hw, hi, fun j hj => ?_⟩
    rw [Bool.not_eq_true', ← Bool.not_eq_true]
    exact fun h => hmin j hj ((request_test (by omega) irr imr).mp h)

theorem request_idle_none (pic : Pic) (irr imr : Byte) :
    (setUp pic irr 0).request imr = none ↔ ∀ i < 8, ¬ Wants imr irr i := by
  rw [Chip.request, List.find?_range_eq_none]
  refine forall₂_congr fun i hi => ?_
  rw [Bool.not_eq_true', ← Bool.not_eq_true]
  exact not_congr (request_test hi irr imr)

/-- The lines by chip and place. -/
theorem exists_line (hi : i < 8) (h : pic = .pic1 → i ≠ cascadeIndex) :
    ∃ line : Line, line.pic = pic ∧ line.index = i := by
  cases pic with
  | pic1 =>
      have hne := h rfl
      have hc : cascadeIndex = 2 := rfl
      have h1 : Pic.base .pic1 ≤ 0x20 + i := Nat.le_add_right _ _
      have h2 : 0x20 + i < Pic.base .pic2 + 8 := by
        show 0x20 + i < 0x28 + 8
        omega
      have h3 : 0x20 + i ≠ intPic2 := by
        show 0x20 + i ≠ 0x22
        omega
      have hpic : Line.pic ⟨0x20 + i, h1, h2, h3⟩ = .pic1 :=
        if_pos (by show 0x20 + i < 0x28; omega)
      refine ⟨⟨0x20 + i, h1, h2, h3⟩, hpic, ?_⟩
      rw [Line.index, hpic]
      exact Nat.add_sub_cancel_left ..
  | pic2 => exact exists_line_pic2 hi

/-- A line that the processor could be interrupted for. -/
def Due (b : Board) (line : Line) : Prop :=
  b.Pending line ∧ Deliverable b.controller line

instance (b : Board) (line : Line) : Decidable (Due b line) :=
  inferInstanceAs (Decidable (_ ∧ _))

/-- What the second chip requests. -/
def slaveRequest (b : Board) : Option Nat :=
  (b.chips .pic2).request (b.controller.ports (Pic.dataPort .pic2))

/-- The requests of the first chip, with that of the second one. -/
def masterIrr (b : Board) : Byte :=
  if (slaveRequest b).isSome then
    (b.chips .pic1).irr ||| lineBit cascadeIndex
  else (b.chips .pic1).irr

theorem chips_idle (hi : InService b) (hidle : b.serving = none) (pic : Pic) :
    b.chips pic = setUp pic (b.chips pic).irr 0 := by
  have := hi.chips pic
  rwa [hidle] at this

theorem next_idle (hi : InService b) (hidle : b.serving = none) :
    b.next = ((setUp .pic1 (masterIrr b) 0).request
      (b.controller.ports (Pic.dataPort .pic1))).bind fun i =>
        if i = cascadeIndex then (slaveRequest b).map (.pic2, ·)
        else some (.pic1, i) := by
  have hmaster : (if (slaveRequest b).isSome then
        { b.chips .pic1 with
          irr := (b.chips .pic1).irr ||| lineBit cascadeIndex }
      else b.chips .pic1) = setUp .pic1 (masterIrr b) 0 := by
    rw [masterIrr]
    split_ifs
    · exact congrArg (fun chip : Chip =>
        { chip with irr := chip.irr ||| lineBit cascadeIndex })
        (chips_idle hi hidle .pic1)
    · exact chips_idle hi hidle .pic1
  have h1 : (b.chips .pic1).cascade = lineBit cascadeIndex := by
    rw [chips_idle hi hidle .pic1]
    rfl
  have h2 : (b.chips .pic2).cascade = 2 := by
    rw [chips_idle hi hidle .pic2]
    rfl
  show ((if (slaveRequest b).isSome then
        { b.chips .pic1 with
          irr := (b.chips .pic1).irr ||| lineBit cascadeIndex }
      else b.chips .pic1).request _).bind _ = _
  rw [hmaster]
  refine Option.bind_congr fun i hrequest => ?_
  have hlt := ((request_idle _ _ _).mp hrequest).1
  rw [h1, h2, getLsbD_lineBit hlt]
  by_cases hc : i = cascadeIndex
  · rw [if_pos (decide_eq_true hc), if_pos hc, hc]
    exact if_pos rfl
  · rw [if_neg (by simp [hc]), if_neg hc]

/-- What the first chip lets through. -/
theorem wants_master (hi : InService b) (hlt : i < 8) (imr : Byte) :
    Wants imr (masterIrr b) i ↔
      if i = cascadeIndex then
        (slaveRequest b).isSome = true ∧ imr.getLsbD cascadeIndex = false
      else Wants imr (b.chips .pic1).irr i := by
  rw [masterIrr, Wants]
  by_cases hc : i = cascadeIndex
  · subst hc
    rw [if_pos rfl]
    split_ifs with hs
    · simp [getLsbD_or_lineBit hlt, hs]
    · simp [hi.cascade, hs]
  · rw [if_neg hc, Wants]
    split_ifs
    · rw [getLsbD_or_lineBit hlt]
      simp [hc]
    · exact Iff.rfl

/-- A due line in terms of the registers. -/
theorem due_iff : Due b line ↔
    Wants (b.controller.ports line.pic.dataPort) (b.chips line.pic).irr
      line.index ∧
    (line.pic = .pic2 → (b.controller.ports (Pic.dataPort .pic1)).getLsbD
      cascadeIndex = false) := by
  simp [Due, Board.Pending, Deliverable, Masked, Wants, and_assoc]

/-- The second chip requests an interrupt if a line of it is due. -/
theorem slaveRequest_of_due (hi : InService b) (hidle : b.serving = none)
    (hdue : Due b line) (hp : line.pic = .pic2) :
    (slaveRequest b).isSome = true := by
  rw [Option.isSome_iff_ne_none, slaveRequest, chips_idle hi hidle]
  intro hnone
  have hwants := (due_iff.mp hdue).1
  rw [hp] at hwants
  exact (request_idle_none _ _ _).mp hnone _ (Line.index_lt line) hwants

/-- The place of a line at the first chip. -/
def masterIndex (line : Line) : Nat :=
  match line.pic with
  | .pic1 => line.index
  | .pic2 => cascadeIndex

theorem masterIndex_lt (line : Line) : masterIndex line < 8 := by
  rw [masterIndex]
  cases line.pic with
  | pic1 => exact Line.index_lt line
  | pic2 => exact cascadeIndex_lt

/-- What is due gets to the first chip. -/
theorem wants_of_due (hi : InService b) (hidle : b.serving = none)
    (hdue : Due b line) :
    Wants (b.controller.ports (Pic.dataPort .pic1)) (masterIrr b)
      (masterIndex line) := by
  obtain ⟨hwants, hopen⟩ := due_iff.mp hdue
  rw [wants_master hi (masterIndex_lt line), masterIndex]
  cases hp : line.pic with
  | pic1 =>
      rw [if_neg (Line.index_ne_cascade hp)]
      rwa [hp] at hwants
  | pic2 =>
      rw [if_pos rfl]
      exact ⟨slaveRequest_of_due hi hidle hdue hp, hopen hp⟩

/-- **The processor is interrupted for the most urgent due line**, if any line
    is due. -/
theorem next_cases (hi : InService b) (hidle : b.serving = none) :
    (b.next = none ∧ ∀ line, ¬ Due b line) ∨
    ∃ line : Line, b.next = some (line.pic, line.index) ∧ Due b line ∧
      ∀ other, Due b other → rank line ≤ rank other := by
  rw [next_idle hi hidle]
  cases hrequest : (setUp .pic1 (masterIrr b) 0).request
      (b.controller.ports (Pic.dataPort .pic1)) with
  | none =>
      refine .inl ⟨rfl, fun line hdue => ?_⟩
      exact (request_idle_none _ _ _).mp hrequest _ (masterIndex_lt line)
        (wants_of_due hi hidle hdue)
  | some i =>
      right
      obtain ⟨hlt, hwants, hmin⟩ := (request_idle _ _ _).mp hrequest
      have hle : ∀ other, Due b other → i ≤ masterIndex other :=
        fun other hdue => Nat.le_of_not_lt fun h =>
          hmin _ h (wants_of_due hi hidle hdue)
      rw [wants_master hi hlt] at hwants
      by_cases hcascade : i = cascadeIndex
      · -- the second chip gives the line
        rw [if_pos hcascade] at hwants
        obtain ⟨k, hk⟩ := Option.isSome_iff_exists.mp hwants.1
        have hslave := id hk
        rw [slaveRequest, chips_idle hi hidle, request_idle] at hslave
        obtain ⟨hk8, hkwants, hkmin⟩ := hslave
        obtain ⟨line, hp, rfl⟩ := exists_line_pic2 hk8
        refine ⟨line, ?_, due_iff.mpr ⟨?_, fun _ => hwants.2⟩, ?_⟩
        · simp [hcascade, hk, hp]
        · rw [hp]
          exact hkwants
        · intro other hdue
          have hother := hle other hdue
          rw [masterIndex] at hother
          rw [rank, rank, hp]
          cases hp' : other.pic with
          | pic1 =>
              rw [hp'] at hother
              have := Line.index_ne_cascade hp'
              dsimp only at hother ⊢
              rw [if_neg (by omega)]
              have : cascadeIndex = 2 := rfl
              omega
          | pic2 =>
              have hwants' := (due_iff.mp hdue).1
              rw [hp'] at hwants'
              exact Nat.add_le_add_right
                (Nat.le_of_not_lt fun h => hkmin _ h hwants') _
      · rw [if_neg hcascade] at hwants
        obtain ⟨line, hp, rfl⟩ := exists_line hlt
          fun _ : Pic.pic1 = .pic1 => hcascade
        refine ⟨line, ?_, due_iff.mpr ⟨?_, fun h => ?_⟩, ?_⟩
        · simp [hcascade, hp]
        · rw [hp]
          exact hwants
        · cases hp.symm.trans h
        · intro other hdue
          have hother := hle other hdue
          rw [masterIndex] at hother
          rw [rank, rank, hp]
          cases hp' : other.pic with
          | pic1 =>
              rw [hp'] at hother
              dsimp only at hother ⊢
              split_ifs <;> omega
          | pic2 =>
              rw [hp'] at hother
              dsimp only at hother ⊢
              rw [if_pos (by omega)]
              omega

/-- The line that the processor is interrupted for. -/
theorem next_eq_some_iff (hi : InService b) (hidle : b.serving = none) :
    b.next = some (line.pic, line.index) ↔
      Due b line ∧ ∀ other, Due b other → rank line ≤ rank other := by
  obtain ⟨hnone, hnot⟩ | ⟨first, hnext, hdue, hmin⟩ := next_cases hi hidle
  · rw [hnone]
    exact ⟨fun h => (by cases h), fun h => absurd h.1 (hnot line)⟩
  · rw [hnext]
    constructor
    · intro h
      obtain ⟨hp, hindex⟩ := Prod.mk.inj (Option.some.inj h)
      obtain rfl := Line.ext_index hp hindex
      exact ⟨hdue, hmin⟩
    · rintro ⟨hdue', hmin'⟩
      rw [rank_injective (Nat.le_antisymm (hmin line hdue')
        (hmin' first hdue))]

end ChinixInterruptDelivery

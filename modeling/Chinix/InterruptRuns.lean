import Chinix.InterruptLines
import Chinix.InterruptService

/-! # Runs with interrupts

    What the chips have in service is what the processor serves: nothing, one
    line, or one line of the second chip and the cascade.  So one
    end-of-interrupt command a chip leaves nothing in service, and no line is
    ever held back by an earlier interrupt. -/

namespace ChinixInterruptRuns

open ChinixInterrupts ChinixInterruptLines ChinixInterruptService

variable {b b' : Board} {event : Event} {events : List Event} {line : Line}
variable {irr isr imr : Byte} {pic : Pic} {i : Nat}

/-! ## The chips behind the driver -/

/-- What ICW3 tells a chip of the cascade. -/
def icw3 : Pic → Byte
  | .pic1 => 4
  | .pic2 => 2

/-- A chip as `map_interrupt_controller` sets it up. -/
def setUp (pic : Pic) (irr isr : Byte) : Chip where
  expects := .mask
  needsIcw4 := true
  base := BitVec.ofNat 8 pic.base
  cascade := icw3 pic
  x86 := true
  autoEoi := false
  irr := irr
  isr := isr

theorem chips_platformInit (b : Board) (pic : Pic) :
    b.platformInitInterrupts.chips pic = setUp pic 0 0 := by
  cases pic <;> rfl

theorem vector_setUp (pic : Pic) (hi : i < 8) (irr isr : Byte) :
    (setUp pic irr isr).vector i = some (pic.base + i) := by
  have : ∀ i < 8, (BitVec.ofNat 8 pic.base ||| BitVec.ofNat 8 i).toNat
      = pic.base + i := by
    cases pic <;> decide
  exact congrArg some (this i hi)

/-- What is in service. -/
def serviceBits (serving : Option (Nat × Source)) (pic : Pic) : Byte :=
  match serving with
  | some (_, source) => (source.accepted pic).elim 0 lineBit
  | none => 0

/-- The invariant: no device is on the cascade. -/
structure InService (b : Board) : Prop where
  chips : ∀ pic,
    b.chips pic = setUp pic (b.chips pic).irr (serviceBits b.serving pic)
  cascade : (b.chips .pic1).irr.getLsbD cascadeIndex = false
  frame : ∀ vector source, b.serving = some (vector, source) →
    vector = source.vector

theorem inService_platformInit (hb : b.serving = none) :
    InService b.platformInitInterrupts where
  chips pic := by
    rw [chips_platformInit]
    show _ = setUp pic 0 (serviceBits b.serving pic)
    rw [hb]
    cases pic <;> rfl
  cascade := by rw [chips_platformInit]; rfl
  frame vector source h := by cases hb.symm.trans h

/-! ## The chips under each event -/

@[simp] theorem modifyChip_self (b : Board) (pic : Pic) (f : Chip → Chip) :
    (b.modifyChip pic f).chips pic = f (b.chips pic) :=
  Function.update_self ..

theorem modifyChip_of_ne {other : Pic} (h : other ≠ pic) (b : Board)
    (f : Chip → Chip) : (b.modifyChip pic f).chips other = b.chips other :=
  Function.update_of_ne h ..

/-- A command goes to its chip. -/
theorem chips_outb_port (b : Board) (pic other : Pic) (data : Byte) :
    (b.outb pic.port data).chips other =
      if other = pic then (b.chips other).command data
      else b.chips other := by
  cases pic <;> cases other <;> rfl

theorem eoi_setUp (pic : Pic) (irr isr : Byte) :
    (setUp pic irr isr).command 0x20 = setUp pic irr (isr &&& (isr - 1)) :=
  rfl

/-- The end-of-interrupt command for one line in service. -/
theorem lineBit_eoi (hi : i < 8) : lineBit i &&& (lineBit i - 1) = 0 := by
  have : ∀ i < 8, lineBit i &&& (lineBit i - 1) = 0 := by decide
  exact this i hi

theorem accept_setUp (pic : Pic) (irr isr : Byte) (i : Nat) :
    (setUp pic irr isr).accept i
      = setUp pic (irr &&& ~~~lineBit i) (isr ||| lineBit i) := rfl

theorem index_lt (source : Source) : source.index < 8 := by
  cases source with
  | line line => exact Line.index_lt line
  | spurious pic => exact Nat.lt_succ_self 7

/-- `issue_eoi` tells both chips the end of what the second one is for. -/
theorem chips_issueEoi (source : Source) (b : Board) (pic : Pic) :
    (b.issueEoi source.vector).chips pic =
      if pic = .pic1 ∨ source.pic = .pic2 then
        (b.chips pic).command 0x20
      else b.chips pic := by
  have hi := index_lt source
  rw [Board.issueEoi, Source.vector]
  cases hs : source.pic with
  | pic1 =>
      rw [if_pos (by simp only [Pic.base]; omega), chips_outb_port]
      cases pic <;> rfl
  | pic2 =>
      rw [if_neg (by simp only [Pic.base]; omega),
        if_pos (by simp only [Pic.base]; omega), chips_outb_port,
        chips_outb_port]
      cases pic <;> rfl

/-- What the second chip is not asked for it does not accept. -/
theorem accepted_eq_none {source : Source}
    (h : ¬ (pic = .pic1 ∨ source.pic = .pic2)) :
    source.accepted pic = none := by
  obtain ⟨h1, h2⟩ := not_or.mp h
  cases pic with
  | pic1 => exact absurd rfl h1
  | pic2 =>
      cases source with
      | line l => exact if_neg h2
      | spurious spic => cases spic <;> rfl

theorem accepted_lt {source : Source} (h : source.accepted pic = some i) :
    i < 8 := by
  cases source with
  | line l =>
      have hl := Line.index_lt l
      have hc := cascadeIndex_lt
      cases pic with
      | pic1 =>
          rw [Source.accepted] at h
          split_ifs at h <;> cases h
          · exact hl
          · exact hc
      | pic2 =>
          rw [Source.accepted] at h
          split_ifs at h
          cases h
          exact hl
  | spurious spic =>
      cases spic <;> cases pic <;> cases h
      exact cascadeIndex_lt

/-- **Nothing is in service behind** `issue_eoi`. -/
theorem issueEoi_setUp (source : Source) (v : Nat)
    (h : b.chips pic = setUp pic irr (serviceBits (some (v, source)) pic)) :
    (b.issueEoi source.vector).chips pic = setUp pic irr 0 := by
  rw [chips_issueEoi, h, serviceBits, eoi_setUp]
  cases ha : source.accepted pic with
  | none => split_ifs <;> rfl
  | some i =>
      have hcommand : pic = .pic1 ∨ source.pic = .pic2 := by
        by_contra hn
        cases ha.symm.trans (accepted_eq_none hn)
      rw [if_pos hcommand]
      exact congrArg _ (lineBit_eoi (accepted_lt ha))

/-- **What is in service behind an acknowledgement.** -/
theorem acknowledge_setUp (source : Source) (v : Nat)
    (h : b.chips pic = setUp pic irr 0) :
    (b.acknowledge source).chips pic = setUp pic
      ((source.accepted pic).elim irr fun i => irr &&& ~~~lineBit i)
      (serviceBits (some (v, source)) pic) := by
  rw [Board.acknowledge, serviceBits]
  show (source.accepted pic).elim _ _ = _
  rw [h]
  cases source.accepted pic with
  | none => rfl
  | some i =>
      exact (accept_setUp pic irr 0 i).trans
        (congrArg (setUp pic _) BitVec.zero_or)

/-! ## Requests -/

/-- A line is accepted in its own name only. -/
theorem accepted_line {source : Source} :
    source.accepted line.pic = some line.index ↔ source = .line line := by
  have hne : line.pic = .pic1 → cascadeIndex ≠ line.index := fun hp e =>
    Line.index_ne_cascade hp e.symm
  constructor
  · intro h
    cases source with
    | line l =>
        cases hp : line.pic with
        | pic1 =>
            rw [hp, Source.accepted] at h
            split_ifs at h with hl
            · rw [Line.ext_index (hl.trans hp.symm) (Option.some.inj h)]
            · exact absurd (Option.some.inj h) (hne hp)
        | pic2 =>
            rw [hp, Source.accepted] at h
            split_ifs at h with hl
            rw [Line.ext_index (hl.trans hp.symm) (Option.some.inj h)]
    | spurious spic =>
        cases hp : line.pic with
        | pic1 =>
            rw [hp] at h
            cases spic with
            | pic1 => cases h
            | pic2 => exact absurd (Option.some.inj h) (hne hp)
        | pic2 =>
            rw [hp] at h
            cases spic <;> cases h
  · rintro rfl
    cases hp : line.pic <;> simp [Source.accepted, hp]

theorem getLsbD_raise {j : Nat} (hi : i < 8) (irr : Byte) :
    (irr ||| lineBit j).getLsbD i = true ↔
      i = j ∨ irr.getLsbD i = true := by
  rw [getLsbD_or_lineBit hi, Bool.or_eq_true, decide_eq_true_iff, or_comm]

theorem getLsbD_lower {j : Nat} (hi : i < 8) (irr : Byte) :
    (irr &&& ~~~lineBit j).getLsbD i = true ↔
      irr.getLsbD i = true ∧ i ≠ j := by
  rw [getLsbD_and_not_lineBit hi]
  simp

/-- The chips that a device's line is not on are left alone. -/
theorem pending_modifyChip (b : Board) (l : Line) (f : Chip → Chip) :
    (b.modifyChip l.pic f).Pending line ↔
      if line.pic = l.pic then
        (f (b.chips line.pic)).irr.getLsbD line.index = true
      else b.Pending line := by
  rw [Board.Pending]
  by_cases h : line.pic = l.pic
  · rw [if_pos h, h, modifyChip_self]
  · rw [if_neg h, modifyChip_of_ne h]
    exact Iff.rfl

/-- The call of a handler goes on record, and that is all. -/
theorem callHandler_eq (vector : Nat) (b : Board) :
    b.callHandler vector =
      { b with
        called := b.called ++
          if (b.intHandlerTable vector).handler ≠ 0 then
            [(vector, b.intHandlerTable vector)]
          else [] } := by
  rw [Board.callHandler]
  split_ifs
  · rfl
  · rw [List.append_nil]

theorem chips_callHandler (vector : Nat) (b : Board) :
    (b.callHandler vector).chips = b.chips := by
  rw [callHandler_eq]

theorem irr_issueEoi (vector : Nat) (b : Board) (pic : Pic) :
    ((b.issueEoi vector).chips pic).irr = (b.chips pic).irr := by
  rw [Board.issueEoi]
  split_ifs
  · rw [chips_outb_port]
    split_ifs <;> rfl
  · rw [chips_outb_port, chips_outb_port]
    split_ifs <;> rfl
  · rfl

/-- An acknowledgement takes the request of its line only. -/
theorem pending_acknowledge {source : Source} :
    (b.acknowledge source).Pending line ↔
      b.Pending line ∧ source ≠ .line line := by
  rw [ne_eq, ← accepted_line, Board.Pending, Board.acknowledge]
  show ((source.accepted line.pic).elim (b.chips line.pic)
    fun i => (b.chips line.pic).accept i).irr.getLsbD line.index = true ↔ _
  cases source.accepted line.pic with
  | none => simp [Board.Pending]
  | some i =>
      rw [Option.some.injEq, eq_comm (a := i)]
      exact getLsbD_lower (Line.index_lt line) _

/-- **What an event does to a request**: its device raises it, and it goes
    with the acknowledgement or with the device. -/
theorem pending_step (h : b.step event = some b') :
    b'.Pending line ↔ event = .raise line ∨
      b.Pending line ∧ event ≠ .lower line ∧ event ≠ .enter (.line line) := by
  have hl := Line.index_lt line
  have hsame : ∀ {l : Line}, line.pic = l.pic →
      (line.index = l.index ↔ l = line) := fun hp =>
    ⟨fun he => (Line.ext_index hp he).symm, fun he => he ▸ rfl⟩
  cases event with
  | raise l =>
      obtain rfl := Option.some.inj h
      rw [pending_modifyChip]
      by_cases hp : line.pic = l.pic
      · rw [if_pos hp, getLsbD_raise hl, hsame hp]
        simp [Board.Pending]
      · have hne : l ≠ line := fun he => hp (he ▸ rfl)
        simp [hp, hne]
  | lower l =>
      obtain rfl := Option.some.inj h
      rw [pending_modifyChip]
      by_cases hp : line.pic = l.pic
      · rw [if_pos hp, getLsbD_lower hl, ne_eq, hsame hp]
        simp [Board.Pending]
      · have hne : l ≠ line := fun he => hp (he ▸ rfl)
        simp [hp, hne]
  | mask vector =>
      obtain rfl := Option.some.inj h
      simp [Board.Pending]
  | unmask vector =>
      obtain rfl := Option.some.inj h
      simp [Board.Pending]
  | maskAll =>
      obtain rfl := Option.some.inj h
      simp [Board.Pending]
  | register vector handler arg =>
      rw [Board.step] at h
      split_ifs at h
      obtain rfl := Option.some.inj h
      simp [Board.Pending, Board.registerIntHandler]
  | enter source =>
      rw [Board.step] at h
      split_ifs at h with htakes
      obtain ⟨vector, -, rfl⟩ := Option.map_eq_some_iff.mp h
      have hcall : ((b.acknowledge source).callHandler vector).Pending line ↔
          (b.acknowledge source).Pending line := by
        rw [Board.Pending, Board.Pending, chips_callHandler]
      refine hcall.trans (pending_acknowledge.trans ?_)
      simp
  | leave =>
      obtain ⟨⟨vector, source⟩, hserving, rfl⟩ := Option.map_eq_some_iff.mp h
      show ((b.issueEoi vector).chips line.pic).irr.getLsbD _ = true ↔ _
      rw [irr_issueEoi]
      simp [Board.Pending]

/-! ## The invariant -/

theorem vector_of_inService (hi : InService b) (source : Source) :
    b.vector source = some source.vector := by
  rw [Board.vector, hi.chips source.pic]
  exact vector_setUp source.pic (index_lt source) _ _

/-- Only the requests of a chip change. -/
theorem InService.modifyIrr (hi : InService b) (pic : Pic) (f : Byte → Byte)
    (hf : pic = .pic1 → ∀ irr : Byte, irr.getLsbD cascadeIndex = false →
      (f irr).getLsbD cascadeIndex = false) :
    InService (b.modifyChip pic fun chip => { chip with irr := f chip.irr }) where
  chips other := by
    show _ = setUp other _ (serviceBits b.serving other)
    by_cases h : other = pic
    · subst h
      rw [modifyChip_self]
      exact congrArg (fun chip : Chip => { chip with irr := f chip.irr })
        (hi.chips other)
    · rw [modifyChip_of_ne h]
      exact hi.chips other
  cascade := by
    by_cases h : .pic1 = pic
    · subst h
      rw [modifyChip_self]
      exact hf rfl _ hi.cascade
    · rw [modifyChip_of_ne h]
      exact hi.cascade
  frame := hi.frame

/-- **Every event keeps the invariant.** -/
theorem inService_step (hi : InService b) (h : b.step event = some b') : InService b' := by
  cases event with
  | raise l =>
      obtain rfl := Option.some.inj h
      refine hi.modifyIrr l.pic (· ||| lineBit l.index) fun hp irr hirr => ?_
      rw [getLsbD_or_lineBit cascadeIndex_lt, hirr,
        decide_eq_false fun e => Line.index_ne_cascade hp e.symm]
      rfl
  | lower l =>
      obtain rfl := Option.some.inj h
      refine hi.modifyIrr l.pic (· &&& ~~~lineBit l.index) fun _ irr hirr => ?_
      rw [getLsbD_and_not_lineBit cascadeIndex_lt, hirr]
      rfl
  | mask vector =>
      obtain rfl := Option.some.inj h
      exact ⟨hi.chips, hi.cascade, hi.frame⟩
  | unmask vector =>
      obtain rfl := Option.some.inj h
      exact ⟨hi.chips, hi.cascade, hi.frame⟩
  | maskAll =>
      obtain rfl := Option.some.inj h
      exact ⟨hi.chips, hi.cascade, hi.frame⟩
  | register vector handler arg =>
      rw [Board.step] at h
      split_ifs at h
      obtain rfl := Option.some.inj h
      exact ⟨hi.chips, hi.cascade, hi.frame⟩
  | enter source =>
      rw [Board.step] at h
      split_ifs at h with htakes
      obtain ⟨vector, hvector, rfl⟩ := Option.map_eq_some_iff.mp h
      have hidle : ∀ pic, b.chips pic = setUp pic (b.chips pic).irr 0 := by
        intro pic
        have := hi.chips pic
        rwa [htakes.1] at this
      have hchips := fun pic => acknowledge_setUp source vector (hidle pic)
      refine ⟨fun pic => ?_, ?_, fun v s hs => ?_⟩
      · show ((b.acknowledge source).callHandler vector).chips pic
          = setUp pic (((b.acknowledge source).callHandler vector).chips pic).irr
            (serviceBits (some (vector, source)) pic)
        rw [chips_callHandler, hchips]
        rfl
      · show (((b.acknowledge source).callHandler vector).chips _).irr.getLsbD _
          = _
        rw [chips_callHandler, hchips]
        show ((source.accepted _).elim (b.chips .pic1).irr _).getLsbD _ = _
        cases source.accepted .pic1 with
        | none => exact hi.cascade
        | some i =>
            exact (getLsbD_and_not_lineBit cascadeIndex_lt).trans
              (by rw [hi.cascade, Bool.false_and])
      · obtain ⟨rfl, rfl⟩ := Prod.mk.inj (Option.some.inj hs)
        exact Option.some.inj (hvector.symm.trans (vector_of_inService hi source))
  | leave =>
      obtain ⟨⟨vector, source⟩, hserving, rfl⟩ := Option.map_eq_some_iff.mp h
      obtain rfl := hi.frame _ _ hserving
      refine ⟨fun pic => ?_, ?_, fun _ _ hs => by cases hs⟩
      · show (b.issueEoi source.vector).chips pic
          = setUp pic ((b.issueEoi source.vector).chips pic).irr 0
        have hchip := hi.chips pic
        rw [hserving] at hchip
        rw [irr_issueEoi, issueEoi_setUp source source.vector hchip]
      · show ((b.issueEoi source.vector).chips _).irr.getLsbD _ = _
        rw [irr_issueEoi]
        exact hi.cascade

theorem inService_run (hi : InService b) (h : b.run events = some b') : InService b' := by
  induction events generalizing b with
  | nil =>
      obtain rfl := Option.some.inj h
      exact hi
  | cons event events ih =>
      obtain ⟨b1, hstep, hrun⟩ := Option.bind_eq_some_iff.mp h
      exact ih (inService_step hi hstep) hrun

/-- Runs in turn. -/
theorem run_append {events' : List Event} (b : Board) :
    b.run (events ++ events') = (b.run events).bind fun b => b.run events' := by
  induction events generalizing b with
  | nil => rfl
  | cons event events ih =>
      show (b.step event).bind _ = ((b.step event).bind _).bind _
      rw [Option.bind_assoc]
      exact congrArg _ (funext fun b1 => ih b1)

end ChinixInterruptRuns

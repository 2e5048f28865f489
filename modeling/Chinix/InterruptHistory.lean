import Chinix.InterruptDelivery

/-! # Histories of interrupts

    What is served over any run, whatever the devices do, whatever is masked
    and registered, and whatever interrupts turn out to be spurious. -/

namespace ChinixInterruptHistory

open ChinixInterrupts ChinixInterruptLines ChinixInterruptService
open ChinixInterruptRuns ChinixInterruptDelivery

variable {b b' : Board} {event : Event} {events : List Event} {line : Line}

/-! ## The handlers -/

/-- The calls that a history asks for: each of the handler that was last
    registered for the vector, with its argument. -/
def calls (table : Nat → IntHandlerStruct) :
    List Event → List (Nat × IntHandlerStruct)
  | [] => []
  | .register vector handler arg :: events =>
      calls (Function.update table vector ⟨handler, arg⟩) events
  | .enter source :: events =>
      if (table source.vector).handler ≠ 0 then
        (source.vector, table source.vector) :: calls table events
      else calls table events
  | _ :: events => calls table events

theorem called_issueEoi (vector : Nat) (b : Board) :
    (b.issueEoi vector).called = b.called ∧
      (b.issueEoi vector).intHandlerTable = b.intHandlerTable := by
  rw [Board.issueEoi]
  split_ifs <;> exact ⟨rfl, rfl⟩

/-- The calls of one event and of the events behind it. -/
theorem calls_cons (hi : InService b) (h : b.step event = some b') :
    b.called ++ calls b.intHandlerTable (event :: events)
      = b'.called ++ calls b'.intHandlerTable events := by
  cases event with
  | register vector handler arg =>
      rw [Board.step] at h
      split_ifs at h
      obtain rfl := Option.some.inj h
      rfl
  | enter source =>
      rw [Board.step] at h
      split_ifs at h with htakes
      obtain ⟨vector, hvector, rfl⟩ := Option.map_eq_some_iff.mp h
      obtain rfl := Option.some.inj ((vector_of_inService hi source).symm.trans hvector)
      rw [calls]
      show _ = ((b.acknowledge source).callHandler source.vector).called ++ calls
        ((b.acknowledge source).callHandler source.vector).intHandlerTable events
      rw [callHandler_eq]
      show _ = (b.called ++ if (b.intHandlerTable source.vector).handler ≠ 0
        then _ else _) ++ calls b.intHandlerTable events
      by_cases hh : (b.intHandlerTable source.vector).handler ≠ 0
      · rw [if_pos hh, if_pos hh, List.append_assoc]
        rfl
      · rw [if_neg hh, if_neg hh, List.append_nil]
  | leave =>
      obtain ⟨⟨vector, source⟩, -, rfl⟩ := Option.map_eq_some_iff.mp h
      obtain ⟨hcalled, htable⟩ := called_issueEoi vector b
      show _ = (b.issueEoi vector).called
        ++ calls (b.issueEoi vector).intHandlerTable events
      rw [hcalled, htable]
      rfl
  | _ =>
      obtain rfl := Option.some.inj h
      rfl

theorem called_run (hi : InService b) (h : b.run events = some b') :
    b'.called = b.called ++ calls b.intHandlerTable events := by
  induction events generalizing b with
  | nil =>
      obtain rfl := Option.some.inj h
      exact (List.append_nil _).symm
  | cons event events ih =>
      obtain ⟨b1, hstep, hrun⟩ := Option.bind_eq_some_iff.mp h
      rw [calls_cons hi hstep]
      exact ih (inService_step hi hstep) hrun

/-- **Interrupts are served** over every run behind
    `platform_init_interrupts`: each one calls the handler registered last for
    the vector of its line, which is in the bounds of the table; behind its
    end nothing is in service, and the processor takes the most urgent line
    that is due. -/
theorem interrupts_served (b : Board) (hb : b.serving = none)
    (events : List Event) (b' : Board)
    (h : b.platformInitInterrupts.run events = some b') :
    b'.called = b.called ++ calls b.intHandlerTable events ∧
    (∀ vector source, b'.serving = some (vector, source) →
      vector = source.vector ∧ Pic.base .pic1 ≤ vector ∧
        vector < intMaxVectors) ∧
    (b'.serving = none →
      (∀ pic, (b'.chips pic).isr = 0) ∧
      ∀ line, b'.Takes (.line line) ↔
        Due b' line ∧ ∀ other, Due b' other → rank line ≤ rank other) := by
  have hi := inService_run (inService_platformInit hb) h
  have hcalled := called_run (inService_platformInit hb) h
  refine ⟨hcalled, fun vector source hs => ?_,
    fun hidle => ⟨fun pic => ?_, fun line => ?_⟩⟩
  · obtain rfl := hi.frame vector source hs
    have hlt := index_lt source
    refine ⟨rfl, ?_, ?_⟩ <;> rw [Source.vector] <;> cases source.pic <;>
      simp only [Pic.base, intMaxVectors] <;> omega
  · rw [chips_idle hi hidle]
    rfl
  · rw [← next_eq_some_iff hi hidle]
    exact and_iff_right hidle

/-! ## The requests -/

/-- A request is there until it is served or lowered. -/
theorem pending_run (h : b.run events = some b') (hb : b.Pending line)
    (hlower : .lower line ∉ events)
    (henter : .enter (.line line) ∉ events) : b'.Pending line := by
  induction events generalizing b with
  | nil =>
      obtain rfl := Option.some.inj h
      exact hb
  | cons event events ih =>
      obtain ⟨b1, hstep, hrun⟩ := Option.bind_eq_some_iff.mp h
      refine ih hrun ((pending_step hstep).mpr (.inr ⟨hb, ?_, ?_⟩))
        (List.not_mem_of_not_mem_cons hlower)
        (List.not_mem_of_not_mem_cons henter)
      · exact (List.ne_of_not_mem_cons hlower).symm
      · exact (List.ne_of_not_mem_cons henter).symm

/-- There is none until it is raised. -/
theorem not_pending_run (h : b.run events = some b') (hb : ¬ b.Pending line)
    (hraise : .raise line ∉ events) : ¬ b'.Pending line := by
  induction events generalizing b with
  | nil =>
      obtain rfl := Option.some.inj h
      exact hb
  | cons event events ih =>
      obtain ⟨b1, hstep, hrun⟩ := Option.bind_eq_some_iff.mp h
      refine ih hrun (fun hp => ?_) (List.not_mem_of_not_mem_cons hraise)
      rcases (pending_step hstep).mp hp with he | ⟨hp, -⟩
      · exact List.ne_of_not_mem_cons hraise he.symm
      · exact hb hp

/-- An interrupt for a line takes a request of it. -/
theorem pending_of_enter (hi : InService b)
    (h : b.step (.enter (.line line)) = some b') : b.Pending line := by
  rw [Board.step] at h
  split_ifs at h with htakes
  exact ((next_eq_some_iff hi htakes.1).mp htakes.2).1.1

/-- **No request is lost, and none is served twice**: once raised a request
    stays until it is served, unless the device lowers its line, and between
    two interrupts for a line its device has raised it. -/
theorem requests_kept (b : Board) (hb : b.serving = none)
    (events : List Event) (b' : Board)
    (h : b.platformInitInterrupts.run events = some b') (line : Line) :
    (∀ before after, events = before ++ .raise line :: after →
      .lower line ∉ after → .enter (.line line) ∉ after →
      b'.Pending line) ∧
    ∀ before mid after, events = before ++ .enter (.line line) ::
        (mid ++ .enter (.line line) :: after) → .raise line ∈ mid := by
  have hi := inService_platformInit hb
  constructor
  · rintro before after rfl hlower henter
    rw [run_append] at h
    obtain ⟨b1, -, h⟩ := Option.bind_eq_some_iff.mp h
    obtain ⟨b2, hstep, hrun⟩ := Option.bind_eq_some_iff.mp h
    exact pending_run hrun ((pending_step hstep).mpr (.inl rfl)) hlower henter
  · rintro before mid after rfl
    rw [run_append] at h
    obtain ⟨b1, hbefore, h⟩ := Option.bind_eq_some_iff.mp h
    obtain ⟨b2, hstep, h⟩ := Option.bind_eq_some_iff.mp h
    rw [run_append] at h
    obtain ⟨b3, hmid, h⟩ := Option.bind_eq_some_iff.mp h
    obtain ⟨b4, hagain, -⟩ := Option.bind_eq_some_iff.mp h
    have hi2 := inService_step (inService_run hi hbefore) hstep
    have hgone : ¬ b2.Pending line := by
      rw [pending_step hstep]
      simp
    by_contra hraise
    exact not_pending_run hmid hgone hraise
      (pending_of_enter (inService_run hi2 hmid) hagain)

/-! ## Serving what is due -/

theorem ports_enter {source : Source}
    (h : b.step (.enter source) = some b') (pic : Pic) :
    b'.controller.ports pic.dataPort = b.controller.ports pic.dataPort := by
  rw [Board.step] at h
  split_ifs at h
  obtain ⟨vector, -, rfl⟩ := Option.map_eq_some_iff.mp h
  show ((b.acknowledge source).callHandler vector).controller.ports _ = _
  rw [callHandler_eq]
  rfl

theorem ports_leave (h : b.step .leave = some b') (pic : Pic) :
    b'.controller.ports pic.dataPort = b.controller.ports pic.dataPort := by
  obtain ⟨⟨vector, source⟩, -, rfl⟩ := Option.map_eq_some_iff.mp h
  show (b.issueEoi vector).controller.ports _ = _
  rw [Board.issueEoi]
  split_ifs <;> cases pic <;> rfl

/-- **An interrupt for a line** is over, and leaves the other lines as they
    are. -/
theorem served_once (hi : InService b) (hidle : b.serving = none)
    (hnext : b.next = some (line.pic, line.index)) :
    ∃ b', b.run [.enter (.line line), .leave] = some b' ∧ InService b' ∧
      b'.serving = none ∧
      ∀ other, Due b' other ↔ Due b other ∧ other ≠ line := by
  obtain ⟨b1, henter, hserving⟩ : ∃ b1, b.step (.enter (.line line)) = some b1 ∧
      b1.serving = some (line.vector, .line line) := by
    refine ⟨{ (b.acknowledge (.line line)).callHandler line.vector with
      serving := some (line.vector, .line line) }, ?_, rfl⟩
    rw [Board.step, if_pos ⟨hidle, hnext⟩, vector_of_inService hi]
    rw [Line.vector_eq]
    rfl
  obtain ⟨b2, hleave, hover⟩ : ∃ b2, b1.step .leave = some b2 ∧
      b2.serving = none := by
    refine ⟨{ b1.issueEoi line.vector with serving := none }, ?_, rfl⟩
    rw [Board.step, hserving]
    rfl
  have hi2 := inService_step (inService_step hi henter) hleave
  refine ⟨b2, ?_, hi2, hover, fun other => ?_⟩
  · rw [Board.run, henter, Option.bind_some, Board.run, hleave]
    rfl
  · have hports := fun pic =>
      (ports_leave hleave pic).trans (ports_enter henter pic)
    have hdeliverable : Deliverable b2.controller other ↔
        Deliverable b.controller other := by
      rw [Deliverable, Deliverable, Masked, Masked, Masked, Masked, hports,
        hports]
    rw [Due, Due, hdeliverable, pending_step hleave, pending_step henter]
    simp only [reduceCtorEq, false_or, ne_eq, not_false_eq_true, true_and,
      and_true, Event.enter.injEq, Source.line.injEq]
    rw [eq_comm (a := other)]
    exact and_right_comm

/-- The lines that are left have a rank below the bound. -/
theorem drained_of_bound (n : Nat) {b : Board} (hi : InService b)
    (hidle : b.serving = none) (hn : ∀ line, Due b line → 16 ≤ rank line + n) :
    ∃ lines : List Line, lines.Pairwise (fun l l' => rank l < rank l') ∧
      (∀ line, line ∈ lines ↔ Due b line) ∧
      ∃ b', b.run (lines.flatMap fun line => [.enter (.line line), .leave])
          = some b' ∧ b'.serving = none ∧ ∀ line, ¬ Due b' line := by
  induction n generalizing b with
  | zero =>
      have hnone : ∀ line, ¬ Due b line := fun line hdue => by
        have := hn line hdue
        have := rank_lt line
        omega
      exact ⟨[], .nil, fun line => by simp [hnone], b, rfl, hidle, hnone⟩
  | succ n ih =>
      obtain ⟨-, hnone⟩ | ⟨first, hnext, hdue, hmin⟩ := next_cases hi hidle
      · exact ⟨[], .nil, fun line => by simp [hnone], b, rfl, hidle, hnone⟩
      · obtain ⟨b1, hrun, hi1, hidle1, hrest⟩ := served_once hi hidle hnext
        obtain ⟨lines, hsorted, hmem, b2, hrun2, hidle2, hnone⟩ :=
          ih hi1 hidle1 fun line hline => by
            obtain ⟨hd, hne⟩ := (hrest line).mp hline
            have := hn first hdue
            have := hmin line hd
            have : rank line ≠ rank first := fun h => hne (rank_injective h)
            omega
        refine ⟨first :: lines, ?_, fun line => ?_, b2, ?_, hidle2, hnone⟩
        · refine List.pairwise_cons.mpr ⟨fun line hline => ?_, hsorted⟩
          obtain ⟨hd, hne⟩ := (hrest line).mp ((hmem line).mp hline)
          exact Nat.lt_of_le_of_ne (hmin line hd)
            fun h => hne (rank_injective h.symm)
        · rw [List.mem_cons, hmem, hrest]
          constructor
          · rintro (rfl | ⟨hd, -⟩)
            · exact hdue
            · exact hd
          · intro hd
            by_cases he : line = first
            · exact .inl he
            · exact .inr ⟨hd, he⟩
        · rw [List.flatMap_cons, run_append, hrun]
          exact hrun2

/-- What serving some lines calls. -/
theorem calls_lines (table : Nat → IntHandlerStruct) (lines : List Line) :
    calls table (lines.flatMap fun line => [.enter (.line line), .leave])
      = (lines.map fun line => (line.vector, table line.vector)).filter
        fun call => call.2.handler ≠ 0 := by
  induction lines with
  | nil => rfl
  | cons line lines ih =>
      have hvector : Source.vector (.line line) = line.vector :=
        (Line.vector_eq line).symm
      rw [List.flatMap_cons, List.map_cons, List.filter_cons, ← ih]
      show calls table (.enter (.line line) :: .leave :: _) = _
      rw [calls, hvector]
      by_cases hh : (table line.vector).handler ≠ 0
      · rw [if_pos hh, if_pos (decide_eq_true hh)]
        rfl
      · rw [if_neg hh, if_neg (by simpa using hh)]
        rfl

/-- **All that is due is served**, once each and in the order of urgency, if
    the devices leave the processor alone. -/
theorem due_lines_served (b : Board) (hb : b.serving = none)
    (events : List Event) (b' : Board)
    (h : b.platformInitInterrupts.run events = some b')
    (hidle : b'.serving = none) :
    ∃ lines : List Line, lines.Pairwise (fun l l' => rank l < rank l') ∧
      (∀ line, line ∈ lines ↔ Due b' line) ∧
      ∃ b'', b'.run (lines.flatMap fun line => [.enter (.line line), .leave])
          = some b'' ∧ b''.serving = none ∧ (∀ line, ¬ Due b'' line) ∧
        b''.called = b'.called ++
          (lines.map fun line =>
            (line.vector, b'.intHandlerTable line.vector)).filter
              fun call => call.2.handler ≠ 0 := by
  have hi := inService_run (inService_platformInit hb) h
  obtain ⟨lines, hsorted, hmem, b'', hrun, hidle', hnone⟩ :=
    drained_of_bound 16 hi hidle fun line _ => Nat.le_add_left 16 (rank line)
  refine ⟨lines, hsorted, hmem, b'', hrun, hidle', hnone, ?_⟩
  rw [called_run hi hrun, calls_lines]

/-! ## A run -/

/-- Nothing is set up, and nothing registered. -/
def rawBoard : Board where
  controller := ⟨fun _ => 0, fun _ => 0, []⟩
  chips _ := ⟨.mask, false, 0, 0, false, false, 0xff, 0xff⟩
  intHandlerTable _ := ⟨0, 0⟩
  serving := none
  called := []

/-- The PIT is registered and both lines are unmasked; then both devices raise
    their lines. -/
def bothRaised : List Event :=
  [.register 0x20 0xffffffff80201000 0, .unmask 0x20, .unmask 0x21,
    .raise keyboardLine, .raise pitLine]

/-- The PIT is served. -/
theorem interrupts_served_pit :
    ∃ b', rawBoard.platformInitInterrupts.run
        (bothRaised ++ [.enter (.line pitLine), .leave]) = some b' ∧
      b'.called = [(0x20, ⟨0xffffffff80201000, 0⟩)] := by
  obtain ⟨b', h⟩ := Option.isSome_iff_exists.mp
    (show (rawBoard.platformInitInterrupts.run
      (bothRaised ++ [.enter (.line pitLine), .leave])).isSome by decide)
  have hserved := interrupts_served rawBoard rfl _ b' h
  exact ⟨b', h, hserved.1.trans (by decide)⟩

/-- The keyboard is still pending behind that. -/
theorem requests_kept_keyboard :
    ∃ b', rawBoard.platformInitInterrupts.run
        (bothRaised ++ [.enter (.line pitLine), .leave]) = some b' ∧
      b'.Pending keyboardLine := by
  obtain ⟨b', h⟩ := Option.isSome_iff_exists.mp
    (show (rawBoard.platformInitInterrupts.run
      (bothRaised ++ [.enter (.line pitLine), .leave])).isSome by decide)
  exact ⟨b', h, (requests_kept rawBoard rfl _ b' h keyboardLine).1
    (bothRaised.take 3) [.raise pitLine, .enter (.line pitLine), .leave] rfl
    (by decide) (by decide)⟩

/-- Both are served if nothing comes in between. -/
theorem due_lines_served_both :
    ∃ b', rawBoard.platformInitInterrupts.run bothRaised = some b' ∧
      ∃ (lines : List Line) (b'' : Board), b'.run (lines.flatMap fun line =>
          [.enter (.line line), .leave]) = some b'' ∧
        ∀ line, ¬ Due b'' line := by
  obtain ⟨b', h⟩ := Option.isSome_iff_exists.mp
    (show (rawBoard.platformInitInterrupts.run bothRaised).isSome by decide)
  have hidle : (rawBoard.platformInitInterrupts.run bothRaised).map
      Board.serving = some none := by decide
  rw [h] at hidle
  obtain ⟨lines, -, -, b'', hrun, -, hnone, -⟩ :=
    due_lines_served rawBoard rfl _ b' h (Option.some.inj hidle)
  exact ⟨b', h, lines, b'', hrun, hnone⟩

end ChinixInterruptHistory

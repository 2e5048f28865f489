import Chinix.PrintfFields

/-! # Formats one behind the other

    Outside a directive the driver is in the state in which it began, up to
    the arguments it has read: a format that does not end inside a directive
    can be followed by another one, and what is printed, and counted, is what
    the two print on their own. -/

namespace ChinixPrintfComposition

open Outcome ChinixPrintf ChinixPrintfFields

/-! ## Formats -/

/-- The character goes on with the directive. -/
def isModifier (c : Byte) : Bool := (Spec.reset.modify c).isSome

/-- Whether the bytes end inside a directive, from inside one or not. -/
def insideAfter : Bool → List Byte → Bool
  | inside, [] => inside
  | false, c :: f => insideAfter (c = ascii '%') f
  | true, c :: f => insideAfter (isModifier c) f

/-- The format ends inside a directive. -/
def EndsInside (f : List Byte) : Prop := insideAfter false f = true

/-- What the directives read. -/
def argKinds : Bool → List Byte → List Kind
  | _, [] => []
  | false, c :: f => argKinds (c = ascii '%') f
  | true, c :: f =>
      if isModifier c then argKinds true f
      else (kindOf c).toList ++ argKinds false f

/-- The arguments are those that the format reads, without `%n`. -/
def Matches (f : List Byte) (args : List Arg) : Prop :=
  List.Forall₂ Fits (argKinds false f) args

/-- What a format prints, from inside a directive or not. -/
def renderFrom : Bool → Spec → List Byte → List Arg → List Byte
  | _, _, [], _ => []
  | false, spec, c :: f, args =>
      if c = ascii '%' then renderFrom true spec f args
      else c :: renderFrom false spec f args
  | true, spec, c :: f, args =>
      match spec.modify c with
      | some spec => renderFrom true spec f args
      | none =>
          conversionText c spec args.head? ++
            renderFrom false Spec.reset f
              (args.drop (kindOf c).toList.length)

/-- What a format prints. -/
def render (f : List Byte) (args : List Arg) : List Byte :=
  renderFrom false Spec.reset f args

theorem modify_isSome (spec : Spec) (c : Byte) :
    (spec.modify c).isSome = isModifier c := by
  simp only [isModifier, Spec.modify, apply_ite Option.isSome,
    Option.isSome_some, Option.isSome_none]

theorem isModifier_of_some {spec spec' : Spec} {c : Byte}
    (h : spec.modify c = some spec') : isModifier c = true := by
  rw [← modify_isSome spec c, h]
  rfl

theorem isModifier_of_none {spec : Spec} {c : Byte}
    (h : spec.modify c = none) : isModifier c = false := by
  rw [← modify_isSome spec c, h]
  rfl

/-! ### Concatenation -/

theorem argKinds_append (inside : Bool) (f g : List Byte) :
    argKinds inside (f ++ g) =
      argKinds inside f ++ argKinds (insideAfter inside f) g := by
  induction f generalizing inside with
  | nil => cases inside <;> rfl
  | cons c f ih =>
      cases inside with
      | false => exact ih _
      | true =>
          rw [List.cons_append, argKinds, argKinds, insideAfter]
          by_cases hc : isModifier c
          · rw [if_pos hc, if_pos hc, hc]
            exact ih true
          · rw [if_neg hc, if_neg hc, Bool.eq_false_iff.mpr hc, ih false,
              List.append_assoc]

/-- The arguments of a conversion are those that fit it. -/
theorem fits_split {kinds kinds' : List Kind} {args : List Arg}
    (h : List.Forall₂ Fits (kinds ++ kinds') args) :
    ∃ needed rest, args = needed ++ rest ∧
      List.Forall₂ Fits kinds needed ∧ List.Forall₂ Fits kinds' rest := by
  have hneeded := List.forall₂_take kinds.length h
  have hrest := List.forall₂_drop kinds.length h
  rw [List.take_left] at hneeded
  rw [List.drop_left] at hrest
  exact ⟨_, _, (List.take_append_drop _ _).symm, hneeded, hrest⟩

/-- What a conversion prints depends on the arguments that fit it only. -/
theorem conversionText_needed {c : Byte} {needed : List Arg}
    (hfit : List.Forall₂ Fits (kindOf c).toList needed) (spec : Spec)
    (more more' : List Arg) :
    conversionText c spec (needed ++ more).head? =
      conversionText c spec (needed ++ more').head? := by
  cases needed with
  | cons a needed => rfl
  | nil =>
      cases hkind : kindOf c with
      | none => exact conversionText_none hkind spec _ _
      | some kind =>
          rw [hkind] at hfit
          cases hfit

theorem renderFrom_append {inside : Bool} {spec : Spec} {f g : List Byte}
    {args args' : List Arg}
    (hfit : List.Forall₂ Fits (argKinds inside f) args)
    (hspec : inside = false → spec = Spec.reset)
    (hout : insideAfter inside f = false) :
    renderFrom inside spec (f ++ g) (args ++ args') =
      renderFrom inside spec f args ++ render g args' := by
  induction f generalizing inside spec args with
  | nil =>
      obtain rfl : inside = false := hout
      obtain rfl : args = [] := List.forall₂_nil_left_iff.mp hfit
      rw [hspec rfl]
      rfl
  | cons c f ih =>
      cases inside with
      | false =>
          rw [List.cons_append, renderFrom, renderFrom]
          rw [argKinds] at hfit
          rw [insideAfter] at hout
          by_cases hc : c = ascii '%'
          · rw [decide_eq_true hc] at hfit hout
            rw [if_pos hc, if_pos hc]
            exact ih hfit (fun h => by cases h) hout
          · rw [decide_eq_false hc] at hfit hout
            rw [if_neg hc, if_neg hc, List.cons_append, ih hfit hspec hout]
      | true =>
          rw [List.cons_append, renderFrom, renderFrom]
          rw [argKinds] at hfit
          rw [insideAfter] at hout
          cases hmod : spec.modify c with
          | some spec' =>
              rw [isModifier_of_some hmod] at hfit hout
              exact ih hfit (fun h => by cases h) hout
          | none =>
              rw [isModifier_of_none hmod] at hfit hout
              obtain ⟨needed, rest, rfl, hneeded, hrest⟩ := fits_split hfit
              have hdrop : ∀ more, (needed ++ more).drop
                  (kindOf c).toList.length = more := fun more => by
                rw [hneeded.length_eq, List.drop_left]
              rw [List.append_assoc]
              simp only [hdrop]
              rw [ih hrest (fun _ => rfl) hout, ← List.append_assoc,
                conversionText_needed hneeded spec (rest ++ args') rest]

/-! ## The scanner -/

/-- The next byte belongs to a directive. -/
def inside : Mode → Bool
  | .text _ => false
  | .directive => true

/-- The text that has been accumulated but not yet sent. -/
def pending : Mode → List Byte
  | .text s => s
  | .directive => []

/-- The bytes `f`, none of which is the terminating NUL. -/
def feed (print : Sink) : Mode → List Byte → State → Except Stop (Mode × State)
  | mode, [], st => .ok (mode, st)
  | mode, c :: f, st => do
      let (mode, st) ← scanByte print mode c st
      feed print mode f st

/-- What the loops do with the bytes behind `f`. -/
theorem scan_append {print : Sink} {f : List Byte} (hf : 0 ∉ f)
    (mode : Mode) (rest : List Byte) (st : State) :
    scan print mode (f ++ rest) st =
      feed print mode f st >>= fun r => scan print r.1 rest r.2 := by
  induction f generalizing mode st with
  | nil => rfl
  | cons c f ih =>
      obtain ⟨hc, hf⟩ := not_or.mp (mt List.mem_cons.mpr hf)
      rw [List.cons_append, scan, if_neg (Ne.symm hc), feed]
      cases scanByte print mode c st with
      | error e => rfl
      | ok r => exact ih hf r.1 r.2

/-- Only the terminating NUL ends the format. -/
theorem scan_nul {print : Sink} {f : List Byte} (hf : 0 ∉ f) (mode : Mode)
    (behind : List Byte) (st : State) :
    scan print mode (f ++ 0 :: behind) st =
      feed print mode f st >>= fun r => scanEnd print r.1 r.2 :=
  scan_append hf mode (0 :: behind) st

/-- A text of `int` length. -/
def Fitting (text : List Byte) : Prop := text.length < 2 ^ 31

theorem Fitting.left {a b : List Byte} (h : Fitting (a ++ b)) : Fitting a := by
  rw [Fitting, List.length_append] at h
  rw [Fitting]
  omega

theorem Fitting.right {a b : List Byte} (h : Fitting (a ++ b)) :
    Fitting b := by
  rw [Fitting, List.length_append] at h
  rw [Fitting]
  omega

/-- The string is part of its field. -/
theorem length_le_fieldText (spec : Spec) (s : List Byte) :
    s.length ≤ (fieldText spec s).length := by
  rw [fieldText]
  split
  · rw [List.length_append]
    omega
  · split
    all_goals
      rw [List.length_append]
      omega

/-- The strings of a text of `int` length are short. -/
theorem short_of_fitting {c : Byte} {spec : Spec} {needed more : List Arg}
    (hfit : List.Forall₂ Fits (kindOf c).toList needed)
    (h : Fitting (conversionText c spec (needed ++ more).head?)) :
    ∀ a ∈ needed, Short a := by
  cases hkind : kindOf c with
  | none =>
      rw [hkind] at hfit
      obtain rfl : needed = [] := List.forall₂_nil_left_iff.mp hfit
      intro a ha
      cases ha
  | some kind =>
      rw [hkind] at hfit
      cases kind with
      | slot =>
          obtain ⟨v, rfl⟩ := fits_slot hfit
          intro a ha
          rw [List.mem_singleton.mp ha]
          trivial
      | count => exact absurd hfit not_fits_count
      | string =>
          obtain ⟨s, rfl⟩ := fits_string hfit
          obtain rfl := kindOf_eq_string hkind
          intro a ha
          rw [List.mem_singleton.mp ha]
          cases s with
          | none => exact Nat.two_pow_pos 31
          | some s => exact (length_le_fieldText _ s).trans_lt h

/-- **One byte**: from `(mode, st)` with the arguments `needed` for this byte
    and the bytes `f` behind it, to `r` with the arguments `rest` for `f`.
    What is printed altogether stays the same. -/
structure Advances (mode : Mode) (st : State) (c : Byte) (f : List Byte)
    (args needed rest : List Arg) (r : Mode × State) : Prop where
  inside_eq : insideAfter (inside r.1) f = insideAfter (inside mode) (c :: f)
  args_eq : r.2.args = rest ++ args
  fits : List.Forall₂ Fits (argKinds (inside r.1) f) rest
  reset : inside r.1 = false → r.2.spec = Spec.reset
  sent : ∃ text, Sent { st with args := args } text { r.2 with args := args } ∧
    text ++ (pending r.1 ++ renderFrom (inside r.1) r.2.spec f rest) =
      pending mode ++ renderFrom (inside mode) st.spec (c :: f) needed

/-- **Some bytes**: with the text that is still pending the scanner has sent
    what they print. -/
structure Renders (mode : Mode) (st : State) (f : List Byte)
    (needed args : List Arg) (r : Mode × State) : Prop where
  inside_eq : inside r.1 = insideAfter (inside mode) f
  args_eq : r.2.args = args
  reset : inside r.1 = false → r.2.spec = Spec.reset
  sent : ∃ text, Sent { st with args := args } text r.2 ∧
    text ++ pending r.1 =
      pending mode ++ renderFrom (inside mode) st.spec f needed

theorem Advances.renders {mode : Mode} {st : State} {c : Byte} {f : List Byte}
    {args needed rest : List Arg} {r r' : Mode × State}
    (h : Advances mode st c f args needed rest r)
    (h' : Renders r.1 r.2 f rest args r') :
    Renders mode st (c :: f) needed args r' := by
  obtain ⟨text, hsent, htext⟩ := h.sent
  obtain ⟨text', hsent', htext'⟩ := h'.sent
  refine ⟨h'.inside_eq.trans h.inside_eq, h'.args_eq, h'.reset, text ++ text',
    hsent.trans hsent', ?_⟩
  rw [List.append_assoc, htext', htext]

/-- The return value counts what has been sent. -/
theorem returnValue_eq {text : List Byte} {st : State}
    (h : Sent (State.init []) text st) (hlen : Fitting text) :
    returnValue st = text.length := by
  have herr : ¬ st.err < 0 := not_lt.mpr (h.err le_rfl)
  have hmod : st.charsWritten ≡ text.length [MOD 2 ^ 32] := by
    have := h.charsWritten.of_dvd (show 2 ^ 32 ∣ 2 ^ 64 from ⟨2 ^ 32, rfl⟩)
    rwa [State.init, Nat.zero_add] at this
  have hbits : BitVec.ofNat 32 st.charsWritten = BitVec.ofNat 32 text.length :=
    BitVec.eq_of_toNat_eq hmod
  rw [Fitting] at hlen
  have hnat : (BitVec.ofNat 32 text.length).toNat = text.length := by
    rw [BitVec.toNat_ofNat]
    exact Nat.mod_eq_of_lt (by omega)
  rw [returnValue, if_neg herr, hbits,
    BitVec.toInt_eq_toNat_of_lt (by omega), hnat]

variable {print : Sink}

section ReturnsLength

variable (hp : ReturnsLength print)

include hp

/-- A byte between the directives. -/
theorem scanByte_text {s f : List Byte} {c : Byte} {st : State}
    {needed args : List Arg} (hargs : st.args = needed ++ args)
    (hfit : List.Forall₂ Fits (argKinds false (c :: f)) needed)
    (hreset : st.spec = Spec.reset)
    (hlen : Fitting (s ++ renderFrom false st.spec (c :: f) needed)) :
    Holds (scanByte print (.text s) c st)
      (Advances (.text s) st c f args needed needed) (fun _ => False) := by
  rw [argKinds] at hfit
  by_cases hc : c = ascii '%'
  · rw [decide_eq_true hc] at hfit
    rw [scanByte, if_pos hc]
    refine (outputString_sends hp hlen.left st).bind ?_
    rintro st₁ ⟨hsent, hspec, -⟩
    refine ⟨?_, hsent.args.trans hargs, hfit, (fun h => by cases h), s,
      ⟨rfl, hsent.calls, hsent.charsWritten, hsent.err⟩, ?_⟩
    · rw [inside, inside, insideAfter, decide_eq_true hc]
    · rw [hspec, inside, inside, pending, pending, renderFrom, if_pos hc]
      rfl
  · rw [decide_eq_false hc] at hfit
    rw [scanByte, if_neg hc]
    refine ⟨?_, hargs, hfit, fun _ => hreset, [], Sent.refl _, ?_⟩
    · rw [inside, inside, insideAfter, decide_eq_false hc]
    · rw [inside, inside, pending, pending, renderFrom, if_neg hc,
        List.append_assoc]
      rfl

/-- A byte of a directive. -/
theorem scanByte_directive {f : List Byte} {c : Byte} {st : State}
    {needed args : List Arg} (hargs : st.args = needed ++ args)
    (hfit : List.Forall₂ Fits (argKinds true (c :: f)) needed)
    (hlen : Fitting (renderFrom true st.spec (c :: f) needed)) :
    ∃ rest, Holds (scanByte print .directive c st)
      (Advances .directive st c f args needed rest) (fun _ => False) := by
  rw [argKinds] at hfit
  rw [renderFrom] at hlen
  rw [scanByte]
  cases hmod : st.spec.modify c with
  | some spec =>
      rw [isModifier_of_some hmod, if_pos rfl] at hfit
      refine ⟨needed, ?_, hargs, hfit, (fun h => by cases h), [],
        ⟨rfl, (List.append_nil _).symm, rfl, id⟩, ?_⟩
      · rw [inside, insideAfter, isModifier_of_some hmod]
      · rw [inside, renderFrom, hmod]
        rfl
  | none =>
      rw [isModifier_of_none hmod, if_neg Bool.false_ne_true] at hfit
      rw [hmod] at hlen
      obtain ⟨here, rest, rfl, hhere, hrest⟩ := fits_split hfit
      have hdrop : (here ++ rest).drop (kindOf c).toList.length = rest := by
        rw [hhere.length_eq, List.drop_left]
      rw [List.append_assoc] at hargs
      refine ⟨rest, (convert_sends hp hhere
        (short_of_fitting hhere hlen.left) hargs rest).bind fun st₁ hsent => ?_⟩
      refine ⟨?_, hsent.args, hrest, fun _ => rfl, _,
        ⟨rfl, hsent.calls, hsent.charsWritten, hsent.err⟩, ?_⟩
      · rw [inside, inside, insideAfter, isModifier_of_none hmod]
      · rw [inside, inside, renderFrom, hmod]
        simp only [hdrop]
        rfl

/-- **The scanner** sends what the bytes print, but for the pending text. -/
theorem feed_renders {f : List Byte} {mode : Mode} {st : State}
    {needed args : List Arg} (hargs : st.args = needed ++ args)
    (hfit : List.Forall₂ Fits (argKinds (inside mode) f) needed)
    (hreset : inside mode = false → st.spec = Spec.reset)
    (hlen : Fitting
      (pending mode ++ renderFrom (inside mode) st.spec f needed)) :
    Holds (feed print mode f st) (Renders mode st f needed args)
      (fun _ => False) := by
  induction f generalizing mode st needed with
  | nil =>
      obtain rfl : needed = [] := by
        cases mode <;> exact List.forall₂_nil_left_iff.mp hfit
      have hst : { st with args := args } = st := by
        rw [← hargs.trans (List.nil_append _)]
      have hrender : renderFrom (inside mode) st.spec [] [] = [] := by
        cases mode <;> rfl
      refine ⟨?_, hargs, hreset, [], ?_, ?_⟩
      · cases mode <;> rfl
      · rw [hst]
        exact Sent.refl st
      · rw [hrender, List.append_nil]
        rfl
  | cons c f ih =>
      have hstep : ∃ rest, Holds (scanByte print mode c st)
          (Advances mode st c f args needed rest) (fun _ => False) := by
        cases mode with
        | text s => exact ⟨needed, scanByte_text hp hargs hfit (hreset rfl) hlen⟩
        | directive => exact scanByte_directive hp hargs hfit hlen
      obtain ⟨rest, hstep⟩ := hstep
      rw [feed]
      refine hstep.bind fun r h => ?_
      obtain ⟨text, -, htext⟩ := h.sent
      rw [← htext] at hlen
      exact (ih h.args_eq h.fits h.reset hlen.right).imp
        fun r' h' => h.renders h'

/-- What is pending at the terminating NUL is sent. -/
theorem scanEnd_sends {mode : Mode} {st : State} (hlen : Fitting (pending mode)) :
    Holds (scanEnd print mode st) (Sent st (pending mode))
      (fun _ => False) := by
  cases mode with
  | text s => exact (outputString_sends hp hlen st).imp fun _ h => h.1
  | directive => exact Sent.refl st

/-! ## The driver -/

/-- The call prints `text` and returns how much that is. -/
def Prints (print : Sink) (fmt : List Byte) (args : List Arg)
    (text : List Byte) : Prop :=
  ∃ st, printfDriver print fmt args = .ok (text.length, st) ∧
    st.calls.flatten = text

/-- **A format** prints what it stands for, whatever is behind its NUL. -/
theorem printfDriver_prints {f : List Byte} {args : List Arg} (hf : 0 ∉ f)
    (hfit : Matches f args) (hlen : Fitting (render f args))
    (behind : List Byte) :
    Prints print (f ++ 0 :: behind) args (render f args) := by
  have hscan : Holds (scan print (.text []) (f ++ 0 :: behind)
      (State.init args)) (Sent { State.init args with args := [] }
        (render f args)) (fun _ => False) := by
    rw [scan_nul hf]
    have hfeed : Holds (feed print (.text []) f (State.init args))
        (Renders (.text []) (State.init args) f args []) (fun _ => False) :=
      feed_renders hp (List.append_nil args).symm hfit (fun _ => rfl) hlen
    refine hfeed.bind fun r hr => ?_
    obtain ⟨text, hsent, htext⟩ := hr.sent
    have htext : text ++ pending r.1 = render f args := htext
    have hpend : Fitting (pending r.1) :=
      (show Fitting (text ++ pending r.1) by rwa [htext]).right
    refine (scanEnd_sends hp hpend).imp fun st' h => ?_
    rw [← htext]
    exact hsent.trans h
  obtain ⟨st, hst, hsent⟩ := hscan.returns
  refine ⟨st, ?_, hsent.calls⟩
  rw [printfDriver, hst]
  show Except.ok (returnValue st, st) = _
  rw [returnValue_eq hsent hlen]

end ReturnsLength

/-! ## Sinks that refuse -/

/-- No call of `print` was refused, and `args` are the arguments left. -/
structure Accepted (print : Sink) (args : List Arg) (st : State) : Prop where
  calls : ∀ pre s post, st.calls = pre ++ s :: post → 0 ≤ print pre s
  args : st.args = args

/-- The last call was refused, and no other. -/
def Refused (print : Sink) (e : Stop) : Prop :=
  ∃ st pre s, e = .exit st ∧ st.calls = pre ++ [s] ∧ print pre s = st.err ∧
    st.err < 0 ∧
    ∀ pre' s' post, pre = pre' ++ s' :: post → 0 ≤ print pre' s'

theorem Accepted.setSpec {args : List Arg} {st : State}
    (h : Accepted print args st) (spec : Spec) :
    Accepted print args (st.setSpec spec) :=
  ⟨h.calls, h.args⟩

/-- What a call of `print` leaves. -/
theorem outputString_accepts {args : List Arg} {st : State}
    (h : Accepted print args st) (s : List Byte) :
    Holds (outputString print s st) (Accepted print args) (Refused print) := by
  rw [outputString]
  split
  · next herr => exact ⟨_, st.calls, s, rfl, rfl, rfl, herr, h.calls⟩
  · next herr =>
      refine ⟨fun pre s' post heq => ?_, h.args⟩
      have heq : st.calls ++ [s] = pre ++ s' :: post := heq
      rcases List.eq_nil_or_concat post with rfl | ⟨post, z, rfl⟩
      · obtain ⟨rfl, hs⟩ := List.append_inj' heq rfl
        obtain rfl : s = s' := List.singleton_inj.mp hs
        exact not_lt.mp herr
      · have heq : st.calls ++ [s] = (pre ++ s' :: post) ++ [z] := by
          rw [heq, List.append_assoc, List.concat_eq_append]
          rfl
        exact h.calls pre s' post (List.append_inj' heq rfl).1

theorem outputPad_accepts {args : List Arg} {st : State}
    (h : Accepted print args st) (c : Byte) (count : Nat) :
    Holds (outputPad print c count st) (Accepted print args)
      (Refused print) := by
  induction count generalizing st with
  | zero => exact h
  | succ count ih =>
      exact (outputString_accepts h [c]).bind fun st' h' => ih (h'.setSpec _)

theorem outputIf_accepts {args : List Arg} {st : State}
    (h : Accepted print args st) (b : Prop) [Decidable b] (c : Byte) :
    Holds (if b then outputChar print c st else .ok st)
      (Accepted print args) (Refused print) := by
  split
  · exact outputString_accepts h [c]
  · exact h

theorem outputField_accepts {args : List Arg} {st : State}
    (h : Accepted print args st) (s : List Byte) :
    Holds (outputField print s st) (Accepted print args)
      (Refused print) := by
  rw [outputField]
  split
  · exact (outputString_accepts h s).bind fun st₁ h₁ =>
      outputPad_accepts h₁ _ _
  · refine (outputIf_accepts (h.setSpec _) _ _).bind fun st₁ h₁ => ?_
    refine (outputPad_accepts h₁ _ _).bind fun st₂ h₂ => ?_
    refine (outputIf_accepts h₂ _ _).bind fun st₃ h₃ => ?_
    exact outputString_accepts h₃ s

theorem outputDecimal_accepts {args : List Arg} {st : State}
    (h : Accepted print args st) (n : BitVec 64) :
    Holds (outputDecimal print n st) (Accepted print args)
      (Refused print) := by
  rw [outputDecimal, longlongToString_eq]
  exact outputField_accepts (h.setSpec _) _

theorem convertHex_accepts {args : List Arg} {st : State} {v : BitVec 64}
    (h : Accepted print (.slot v :: args) st) :
    Holds (convertHex print st) (Accepted print args) (Refused print) := by
  have hst : Accepted print args { st with args := args } := ⟨h.calls, rfl⟩
  rw [convertHex, vaSlot_eq h.args, ok_bind]
  simp only [longlongToHexstring_eq]
  refine Holds.bind (Q := Accepted print args) ?_
    fun st₁ h₁ => outputField_accepts h₁ _
  split
  · exact (outputString_accepts hst _).bind fun st₁ h₁ =>
      outputString_accepts h₁ _
  · exact hst

/-- **A conversion** with the arguments that fit it goes through to its end,
    or to the first refusal. -/
theorem convert_accepts {c : Byte} {needed args : List Arg} {st : State}
    (hfit : List.Forall₂ Fits (kindOf c).toList needed)
    (h : Accepted print (needed ++ args) st) :
    Holds (convert print c st) (Accepted print args) (Refused print) := by
  cases hkind : kindOf c with
  | none =>
      rw [hkind] at hfit
      obtain rfl : needed = [] := List.forall₂_nil_left_iff.mp hfit
      rw [convert_none hkind]
      split
      · exact outputString_accepts h _
      · exact (outputString_accepts h _).bind fun st₁ h₁ =>
          outputString_accepts h₁ _
  | some kind =>
      rw [hkind] at hfit
      cases kind with
      | slot =>
          obtain ⟨v, rfl⟩ := fits_slot hfit
          have hst : Accepted print args { st with args := args } :=
            ⟨h.calls, rfl⟩
          rcases kindOf_eq_slot hkind with rfl | hc | rfl | hhex
          · show Holds
              (vaSlot st >>= fun r => outputChar print (r.1.setWidth 8) r.2) _ _
            rw [vaSlot_eq h.args, ok_bind]
            exact outputString_accepts hst _
          · have hconv : convert print c st = convertSigned print st := by
              rcases hc with rfl | rfl <;> rfl
            rw [hconv, convertSigned, vaSlot_eq h.args, ok_bind]
            exact outputDecimal_accepts (hst.setSpec _) _
          · show Holds (convertUnsigned print st) _ _
            rw [convertUnsigned, vaSlot_eq h.args, ok_bind]
            exact outputDecimal_accepts hst _
          · rw [convert_hex hhex]
            exact convertHex_accepts (h.setSpec _)
      | string =>
          obtain ⟨s, rfl⟩ := fits_string hfit
          obtain rfl := kindOf_eq_string hkind
          have hst : Accepted print args { st with args := args } :=
            ⟨h.calls, rfl⟩
          show Holds (convertString print st) _ _
          rw [convertString, vaString_eq h.args, ok_bind]
          exact outputField_accepts (hst.setSpec _) _
      | count => exact absurd hfit not_fits_count

/-- **The scanner** with arguments that match the bytes. -/
theorem feed_accepts {f : List Byte} {mode : Mode} {st : State}
    {needed args : List Arg} (h : Accepted print (needed ++ args) st)
    (hfit : List.Forall₂ Fits (argKinds (inside mode) f) needed) :
    Holds (feed print mode f st) (fun r => Accepted print args r.2)
      (Refused print) := by
  induction f generalizing mode st needed with
  | nil =>
      obtain rfl : needed = [] := by
        cases mode <;> exact List.forall₂_nil_left_iff.mp hfit
      exact h
  | cons c f ih =>
      rw [feed]
      cases mode with
      | text s =>
          rw [inside, argKinds] at hfit
          rw [scanByte]
          by_cases hc : c = ascii '%'
          · rw [decide_eq_true hc] at hfit
            rw [if_pos hc, bind_assoc]
            exact (outputString_accepts h s).bind fun st₁ h₁ => ih h₁ hfit
          · rw [decide_eq_false hc] at hfit
            rw [if_neg hc]
            exact ih h hfit
      | directive =>
          rw [inside, argKinds] at hfit
          rw [scanByte]
          cases hmod : st.spec.modify c with
          | some spec =>
              rw [isModifier_of_some hmod, if_pos rfl] at hfit
              exact ih (h.setSpec spec) hfit
          | none =>
              rw [isModifier_of_none hmod, if_neg Bool.false_ne_true] at hfit
              obtain ⟨here, rest, rfl, hhere, hrest⟩ := fits_split hfit
              rw [List.append_assoc] at h
              simp only [bind_assoc]
              exact (convert_accepts hhere h).bind fun st₁ h₁ =>
                ih (h₁.setSpec _) hrest

/-- A refusal is the last call, and what it returned is returned. -/
def StopsAtRefusal (print : Sink) (r : Int) (st : State) : Prop :=
  ∀ pre s post, st.calls = pre ++ s :: post → print pre s < 0 →
    post = [] ∧ r = print pre s

theorem Accepted.stops {args : List Arg} {st : State}
    (h : Accepted print args st) (r : Int) : StopsAtRefusal print r st :=
  fun pre s post heq hneg => absurd (h.calls pre s post heq) (not_le.mpr hneg)

theorem stops_of_refused {st : State} (h : Refused print (.exit st)) :
    StopsAtRefusal print (returnValue st) st := by
  obtain ⟨st, last, z, ⟨⟩, hcalls, hlast, herr, hbefore⟩ := h
  intro pre s post heq hneg
  rw [hcalls] at heq
  rcases List.eq_nil_or_concat post with rfl | ⟨post, y, rfl⟩
  · obtain ⟨rfl, hs⟩ := List.append_inj' heq rfl
    obtain rfl : z = s := List.singleton_inj.mp hs
    exact ⟨rfl, by rw [returnValue, if_pos herr, hlast]⟩
  · have heq : last ++ [z] = (pre ++ s :: post) ++ [y] := by
      rw [heq, List.append_assoc, List.concat_eq_append]
      rfl
    have := hbefore pre s post (List.append_inj' heq rfl).1
    omega

/-- **Any sink**: with arguments that match, the call returns, and it stops at
    the first refusal. -/
theorem printfDriver_stops {f : List Byte} {args : List Arg} (hf : 0 ∉ f)
    (hfit : Matches f args) (behind : List Byte) :
    ∃ r st, printfDriver print (f ++ 0 :: behind) args = .ok (r, st) ∧
      StopsAtRefusal print r st := by
  have hinit : Accepted print (args ++ []) (State.init args) := by
    refine ⟨fun pre s post heq => ?_, (List.append_nil args).symm⟩
    have heq : [] = pre ++ s :: post := heq
    simp at heq
  have hfeed : Holds (feed print (.text []) f (State.init args))
      (fun r => Accepted print [] r.2) (Refused print) :=
    feed_accepts hinit hfit
  have hscan : Holds (scan print (.text []) (f ++ 0 :: behind)
      (State.init args)) (Accepted print []) (Refused print) := by
    rw [scan_nul hf]
    refine hfeed.bind fun r h => ?_
    cases hmode : r.1 with
    | text s => exact outputString_accepts h s
    | directive => exact h
  rw [printfDriver]
  cases hst : scan print (.text []) (f ++ 0 :: behind) (State.init args) with
  | ok st => exact ⟨_, st, rfl, (hscan.of_ok hst).stops _⟩
  | error e =>
      have href := hscan.of_error hst
      cases e with
      | exit st => exact ⟨_, st, rfl, stops_of_refused href⟩
      | fault f =>
          obtain ⟨_, _, _, ⟨⟩, -⟩ := href

/-! ## What is carried over -/

/-- Outside a directive the format state is the one at the start. -/
theorem feed_reset {f : List Byte} {mode mode' : Mode} {st st' : State}
    (h : feed print mode f st = .ok (mode', st'))
    (hreset : inside mode = false → st.spec = Spec.reset) :
    inside mode' = false → st'.spec = Spec.reset := by
  induction f generalizing mode st with
  | nil =>
      cases h
      exact hreset
  | cons c f ih =>
      obtain ⟨r, hr, hfeed⟩ := bind_eq_ok.mp h
      refine ih hfeed ?_
      cases mode with
      | text s =>
          rw [scanByte] at hr
          split at hr
          · obtain ⟨st₁, -, hr⟩ := bind_eq_ok.mp hr
            cases hr
            intro h
            cases h
          · cases hr
            exact hreset
      | directive =>
          rw [scanByte] at hr
          split at hr
          · cases hr
            intro h
            cases h
          · obtain ⟨st₁, -, hr⟩ := bind_eq_ok.mp hr
            cases hr
            intro _
            rfl

/-! ## Composition -/

/-- **Two formats, one behind the other**: what is sent for them is what is
    sent for each, and the return values add up. -/
theorem printfDriver_append (hp : ReturnsLength print) {f g : List Byte}
    {args args' : List Arg} (hf : 0 ∉ f) (hg : 0 ∉ g) (hout : ¬ EndsInside f)
    (hfit : Matches f args) (hfit' : Matches g args')
    (hlen : (render f args).length + (render g args').length < 2 ^ 31)
    (behind behind' behind'' : List Byte) :
    Prints print (f ++ 0 :: behind) args (render f args) ∧
      Prints print (g ++ 0 :: behind') args' (render g args') ∧
      Prints print (f ++ g ++ 0 :: behind'') (args ++ args')
        (render f args ++ render g args') := by
  have hout : insideAfter false f = false := Bool.eq_false_iff.mpr hout
  have hboth : Fitting (render f args ++ render g args') := by
    rwa [Fitting, List.length_append]
  have hnul : 0 ∉ f ++ g := fun h => (List.mem_append.mp h).elim hf hg
  have hmatches : Matches (f ++ g) (args ++ args') := by
    rw [Matches, argKinds_append, hout]
    exact List.rel_append hfit hfit'
  have hrender : render (f ++ g) (args ++ args') =
      render f args ++ render g args' :=
    renderFrom_append hfit (fun _ => rfl) hout
  refine ⟨printfDriver_prints hp hf hfit hboth.left behind,
    printfDriver_prints hp hg hfit' hboth.right behind', ?_⟩
  rw [← hrender] at hboth ⊢
  exact printfDriver_prints hp hnul hmatches hboth behind''

/-- **`_printf_driver` is compositional.** -/
theorem printfDriver_compositional :
    (∀ print f g args args' behind behind' behind'', ReturnsLength print →
      0 ∉ f → 0 ∉ g → ¬ EndsInside f → Matches f args → Matches g args' →
      (render f args).length + (render g args').length < 2 ^ 31 →
      ∃ n m st st' st'',
        printfDriver print (f ++ 0 :: behind) args = .ok (n, st) ∧
        printfDriver print (g ++ 0 :: behind') args' = .ok (m, st') ∧
        printfDriver print (f ++ g ++ 0 :: behind'') (args ++ args') =
          .ok (n + m, st'') ∧
        st''.calls.flatten = st.calls.flatten ++ st'.calls.flatten ∧
        n = st.calls.flatten.length ∧ m = st'.calls.flatten.length ∧
        st.calls.flatten = render f args ∧
        st'.calls.flatten = render g args') ∧
    (∀ print f args mode st,
      feed print (.text []) f (State.init args) = .ok (mode, st) →
      inside mode = false → st.spec = Spec.reset) ∧
    (∀ print f args behind, 0 ∉ f →
      printfDriver print (f ++ 0 :: behind) args =
        printfDriver print (f ++ [0]) args) ∧
    (∀ print f args behind, 0 ∉ f → Matches f args →
      ∃ r st, printfDriver print (f ++ 0 :: behind) args = .ok (r, st) ∧
        StopsAtRefusal print r st) := by
  refine ⟨?_, ?_, ?_, ?_⟩
  · intro print f g args args' behind behind' behind'' hp hf hg hout hfit hfit'
      hlen
    obtain ⟨⟨st, hst, htext⟩, ⟨st', hst', htext'⟩, ⟨st'', hst'', htext''⟩⟩ :=
      printfDriver_append hp hf hg hout hfit hfit' hlen behind behind' behind''
    rw [List.length_append, Int.natCast_add] at hst''
    exact ⟨_, _, st, st', st'', hst, hst', hst'', by rw [htext'', htext, htext'],
      by rw [htext], by rw [htext'], htext, htext'⟩
  · intro print f args mode st h
    exact feed_reset h fun _ => rfl
  · intro print f args behind hf
    rw [printfDriver, scan_nul hf, printfDriver, scan_nul hf]
  · intro print f args behind hf hfit
    exact printfDriver_stops hf hfit behind

/-- A sink that takes everything. -/
def takeAll : Sink := fun _ s => s.length

theorem takeAll_returnsLength : ReturnsLength takeAll := fun _ _ _ => rfl

/-- The bytes of a text. -/
def bytes (s : String) : List Byte := s.toList.map ascii

/-- `"x=%3d"` with 7, then `"%s"` with `"ok"`. -/
theorem printfDriver_compositional_ok :
    (∃ n m st st' st'',
      printfDriver takeAll (bytes "x=%3d" ++ [0]) [.slot 7] = .ok (n, st) ∧
      printfDriver takeAll (bytes "%s" ++ [0]) [.string (bytes "ok")] =
        .ok (m, st') ∧
      printfDriver takeAll (bytes "x=%3d" ++ bytes "%s" ++ [0])
        [.slot 7, .string (bytes "ok")] = .ok (n + m, st'') ∧
      st''.calls.flatten = st.calls.flatten ++ st'.calls.flatten ∧
      n = st.calls.flatten.length ∧ m = st'.calls.flatten.length ∧
      st.calls.flatten = bytes "x=  7" ∧ st'.calls.flatten = bytes "ok") ∧
    (∃ st, feed takeAll (.text []) (bytes "x=%3d") (State.init [.slot 7]) =
      .ok (.text [], st) ∧ st.spec = Spec.reset) ∧
    printfDriver takeAll (bytes "%s" ++ 0 :: bytes "%d") [.string none] =
      printfDriver takeAll (bytes "%s" ++ [0]) [.string none] ∧
    ∃ r st, printfDriver takeAll (bytes "%s" ++ 0 :: bytes "%d")
      [.string none] = .ok (r, st) ∧ StopsAtRefusal takeAll r st := by
  have h := printfDriver_compositional
  have hd : 0 ∉ bytes "x=%3d" := by decide
  have hs : 0 ∉ bytes "%s" := by decide
  have hfit : Matches (bytes "x=%3d") [.slot 7] := .cons trivial .nil
  have hfit' : Matches (bytes "%s") [.string (bytes "ok")] :=
    .cons trivial .nil
  obtain ⟨st, hst⟩ : ∃ st, feed takeAll (.text []) (bytes "x=%3d")
    (State.init [.slot 7]) = .ok (.text [], st) := ⟨_, rfl⟩
  refine ⟨?_, ⟨st, hst, h.2.1 _ _ _ _ _ hst rfl⟩, ?_, ?_⟩
  · exact h.1 takeAll (bytes "x=%3d") (bytes "%s") [.slot 7]
      [.string (bytes "ok")] [] [] [] takeAll_returnsLength hd hs
      Bool.false_ne_true hfit hfit' (by decide)
  · exact h.2.2.1 takeAll (bytes "%s") [.string none] (bytes "%d") hs
  · exact h.2.2.2 takeAll (bytes "%s") [.string none] (bytes "%d") hs
      (.cons trivial .nil)

end ChinixPrintfComposition

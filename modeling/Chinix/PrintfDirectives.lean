import Chinix.PrintfComposition

/-! # One directive

    The characters between the `%` and the last character of a directive only
    change the format state: what the directive prints is the text of its
    conversion in the state that they leave. -/

namespace ChinixPrintfDirectives

open Outcome ChinixPrintf ChinixPrintfFields ChinixPrintfComposition

/-- The format state behind some characters. -/
def modifyAll (spec : Spec) (mods : List Byte) : Spec :=
  mods.foldl (fun spec c => (spec.modify c).getD spec) spec

/-- The format state in which the last character of a directive is read. -/
def specOf (mods : List Byte) : Spec := modifyAll Spec.reset mods

/-- The last character asks for a hexadecimal number. -/
def IsHex (c : Byte) : Prop := c = ascii 'p' ∨ c = ascii 'X' ∨ c = ascii 'x'

/-- The last character asks for a signed number. -/
def IsSigned (c : Byte) : Prop := c = ascii 'i' ∨ c = ascii 'd'

/-- The last character asks for a number. -/
def IsNumeric (c : Byte) : Prop := IsSigned c ∨ c = ascii 'u' ∨ IsHex c

instance (c : Byte) : Decidable (IsHex c) := inferInstanceAs (Decidable (_ ∨ _))

instance (c : Byte) : Decidable (IsSigned c) :=
  inferInstanceAs (Decidable (_ ∨ _))

instance (c : Byte) : Decidable (IsNumeric c) :=
  inferInstanceAs (Decidable (_ ∨ _))

theorem IsNumeric.kind {c : Byte} (h : IsNumeric c) :
    kindOf c = some .slot := by
  rcases h with (rfl | rfl) | rfl | rfl | rfl | rfl <;> decide

theorem IsNumeric.not_isModifier {c : Byte} (h : IsNumeric c) :
    isModifier c = false := by
  rcases h with (rfl | rfl) | rfl | rfl | rfl | rfl <;> decide

theorem IsSigned.not_isHex {c : Byte} (h : IsSigned c) : ¬ IsHex c := by
  rcases h with rfl | rfl <;> decide

/-! ## The texts -/

theorem conversionText_signed {c : Byte} (h : IsSigned c) (spec : Spec)
    (v : BitVec 64) :
    conversionText c spec (some (.slot v)) =
      decimalText (spec.setFlags fun f => { f with signed := true })
        (signedArg spec.flags v) := by
  rcases h with rfl | rfl <;> rfl

theorem conversionText_unsigned (spec : Spec) (v : BitVec 64) :
    conversionText (ascii 'u') spec (some (.slot v)) =
      decimalText spec (unsignedArg spec.flags v) := rfl

theorem conversionText_string (spec : Spec) (s : Option (List Byte)) :
    conversionText (ascii 's') spec (some (.string s)) =
      fieldText (spec.setFlags fun f => { f with leadzero := false })
        (stringOf (some (.string s))) := rfl

/-! ## The format state -/

/-- What a modifier does to the rest of the format state. -/
structure Modified (spec : Spec) (c : Byte) (spec' : Spec) : Prop where
  signchar : spec'.signchar = spec.signchar
  signed : spec'.flags.signed = spec.flags.signed
  formatNum : spec'.formatNum =
    if isDigit c then (spec.formatNum * 10 + (c.toNat - 0x30)) % 2 ^ 32
    else spec.formatNum

theorem modify_modified {spec spec' : Spec} {c : Byte}
    (h : spec.modify c = some spec') : Modified spec c spec' := by
  rw [Spec.modify] at h
  by_cases hd : isDigit c
  · rw [if_pos hd] at h
    obtain rfl := Option.some.inj h
    refine ⟨?_, ?_, ?_⟩
    · split <;> rfl
    · split <;> rfl
    · rw [if_pos hd]
      refine (Nat.mod_add_mod _ _ _).trans ?_
      split <;> rfl
  · have hrest : spec'.signchar = spec.signchar ∧
        spec'.flags.signed = spec.flags.signed ∧
        spec'.formatNum = spec.formatNum := by
      rw [if_neg hd] at h
      revert h
      -- the other modifiers set flags, one after the other in the chain
      repeat'
        refine iteInduction (motive := fun o => o = some spec' →
          spec'.signchar = spec.signchar ∧
          spec'.flags.signed = spec.flags.signed ∧
          spec'.formatNum = spec.formatNum) (fun _ => ?_) (fun _ => ?_)
      all_goals
        intro h
        cases h
        try exact ⟨rfl, rfl, rfl⟩
    exact ⟨hrest.1, hrest.2.1, by rw [if_neg hd, hrest.2.2]⟩

/-- The numbers behind some modifiers. -/
theorem modifyAll_keeps {mods : List Byte} (spec : Spec) :
    (modifyAll spec mods).signchar = spec.signchar ∧
      (modifyAll spec mods).flags.signed = spec.flags.signed := by
  induction mods generalizing spec with
  | nil => exact ⟨rfl, rfl⟩
  | cons c mods ih =>
      show (modifyAll ((spec.modify c).getD spec) mods).signchar = _ ∧
        (modifyAll ((spec.modify c).getD spec) mods).flags.signed = _
      obtain ⟨hs, hf⟩ := ih ((spec.modify c).getD spec)
      rw [hs, hf]
      cases hmod : spec.modify c with
      | none => exact ⟨rfl, rfl⟩
      | some spec' =>
          have h := modify_modified hmod
          exact ⟨h.signchar, h.signed⟩

/-- No sign is left from before. -/
theorem specOf_signchar (mods : List Byte) : (specOf mods).signchar = 0 :=
  (modifyAll_keeps Spec.reset).1

theorem specOf_signed (mods : List Byte) : (specOf mods).flags.signed = false :=
  (modifyAll_keeps Spec.reset).2

/-! ## The scanner -/

/-- The modifiers are read without any output. -/
theorem feed_modifiers (print : Sink) {mods : List Byte}
    (hm : ∀ c ∈ mods, isModifier c = true) (rest : List Byte) (st : State) :
    feed print .directive (mods ++ rest) st =
      feed print .directive rest (st.setSpec (modifyAll st.spec mods)) := by
  induction mods generalizing st with
  | nil => rfl
  | cons c mods ih =>
      have hc : (st.spec.modify c).isSome = true := by
        rw [modify_isSome]
        exact hm c List.mem_cons_self
      obtain ⟨spec, hspec⟩ := Option.isSome_iff_exists.mp hc
      have hrest := ih (fun c hc => hm c (List.mem_cons_of_mem _ hc))
        (st.setSpec spec)
      rw [List.cons_append, feed, scanByte, hspec]
      show feed print .directive (mods ++ rest) (st.setSpec spec) = _
      rw [hrest]
      have hall : modifyAll st.spec (c :: mods) = modifyAll spec mods := by
        show modifyAll ((st.spec.modify c).getD st.spec) mods = _
        rw [hspec]
        rfl
      rw [hall]
      rfl

/-- What is known behind a directive that has printed `text`. -/
structure Printed (st : State) (args : List Arg) (text : List Byte)
    (r : Mode × State) : Prop where
  mode : r.1 = .text []
  spec : r.2.spec = Spec.reset
  sent : Sent { st with args := args } text r.2

/-- **A directive** prints the text of its conversion in the format state that
    its modifiers leave. -/
theorem feed_directive {print : Sink} (hp : ReturnsLength print)
    {mods : List Byte} (hm : ∀ c ∈ mods, isModifier c = true) {c : Byte}
    (hc : isModifier c = false) {st : State} (hst : st.spec = Spec.reset)
    {needed args : List Arg} (hargs : st.args = needed ++ args)
    (hfit : List.Forall₂ Fits (kindOf c).toList needed)
    (hshort : ∀ a ∈ needed, Short a) :
    Holds (feed print .directive (mods ++ [c]) st)
      (Printed st args (conversionText c (specOf mods) needed.head?))
      (fun _ => False) := by
  rw [feed_modifiers print hm, hst]
  have hnone : (specOf mods).modify c = none := by
    rw [← Option.not_isSome_iff_eq_none, modify_isSome, hc]
    exact Bool.false_ne_true
  have hconv := convert_sends hp hfit hshort
    (show (st.setSpec (specOf mods)).args = needed ++ args from hargs) []
  rw [List.append_nil] at hconv
  have hscan : scanByte print .directive c (st.setSpec (specOf mods)) =
      convert print c (st.setSpec (specOf mods)) >>= fun st =>
        .ok (.text [], st.reset) := by
    have hnone : (st.setSpec (specOf mods)).spec.modify c = none := hnone
    rw [scanByte, hnone]
    rfl
  have hfeed : feed print .directive [c] (st.setSpec (specOf mods)) =
      scanByte print .directive c (st.setSpec (specOf mods)) :=
    bind_pure _
  show Holds (feed print .directive [c] (st.setSpec (specOf mods))) _ _
  rw [hfeed, hscan]
  refine hconv.bind fun st₁ hsent => ?_
  exact ⟨rfl, rfl, hsent.args, hsent.calls, hsent.charsWritten, hsent.err⟩

end ChinixPrintfDirectives

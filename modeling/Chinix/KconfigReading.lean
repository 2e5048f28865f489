import Chinix.KconfigFile

/-! # What any file leaves

    `conf_read_simple` takes every text: lines that it cannot read are
    skipped, with a warning or without one.  Whatever is on the others, the
    user values are values of the types of their symbols, and the values of
    the choices fit those of their members.  A choice that has a name is the
    exception: a line can set it or unset it as if it were a symbol. -/

namespace ChinixKconfigReading

open ChinixKconfigExpr ChinixKconfigFile DelimitedText

variable {S : Type} [DecidableEq S] {tab : ConfSymbols S}

/-- A choice that no line can name. -/
def Unnamed (tab : ConfSymbols S) (s : S) : Prop :=
  tab.isChoice s = true ∧ tab.named s = false

/-- The user value of a symbol is one of its type, and what is chosen of a
    choice is one of its values. -/
structure Sound (tab : ConfSymbols S) (s : S) (u : UserValue S) : Prop where
  tristate : tab.isChoice s = false → hasTristate tab s → u.val = none ∧
    (u.given = false → u.tri = .no) ∧ (u.tri = .mod → tab.type s = .tristate)
  string : tab.isChoice s = false → ¬ hasTristate tab s → u.tri = .no ∧
    (u.given = false → u.val = none) ∧
    (u.given → ∃ w, u.val = some w ∧ symStringValid tab s w.toList)
  member : ∀ t, u.chosen = some t → tab.choice t = some s
  choice : Unnamed tab s → u.val = none ∧ (u.tri = .yes → u.chosen ≠ none)

/-- All user values are sound, and no value of a choice without a name exceeds
    that of the choice. -/
structure WellFormed (tab : ConfSymbols S) (values : S → UserValue S) :
    Prop where
  sound : ∀ s ∈ tab.symbols, Sound tab s (values s)
  bounded : ∀ s ∈ tab.symbols, tab.isChoice s = false → ∀ cs,
    tab.choice s = some cs → Unnamed tab cs →
      (values s).tri ≤ (values cs).tri

variable {r : Reading S} {s : S} {u : UserValue S}

/-! ## The code at `setsym` -/

/-- Only the choice changes: its value takes in that of the symbol, and the
    symbol is chosen if it is set. -/
theorem setChoice_values (tab : ConfSymbols S) (s : S) (r : Reading S) :
    (tab.choice s = none ∧ (setChoice tab s r).values = r.values) ∨
    ∃ cs u, tab.choice s = some cs ∧
      (setChoice tab s r).values = Function.update r.values cs u ∧
      u.tri = (r.values cs).tri.or (r.values s).tri ∧
      ((r.values cs).val = none → u.val = none) ∧
      u.chosen = if (r.values s).tri = .yes then some s
        else (r.values cs).chosen := by
  rw [setChoice]
  cases hc : tab.choice s with
  | none => exact .inl ⟨rfl, rfl⟩
  | some cs =>
      refine .inr ⟨cs, ?_⟩
      cases htri : (r.values s).tri with
      | no => exact ⟨_, rfl, rfl, rfl, id, rfl⟩
      | mod =>
          by_cases hyes : (r.values cs).tri = .yes
          · simp only [if_pos hyes, modify_modify, true_and]
            exact ⟨_, rfl, rfl, id, rfl⟩
          · simp only [if_neg hyes, true_and]
            exact ⟨_, rfl, rfl, id, rfl⟩
      | yes =>
          by_cases hno : (r.values cs).tri = .no
          · simp only [if_neg (not_not.mpr hno), modify_modify, true_and]
            exact ⟨_, rfl, rfl, fun _ => rfl, rfl⟩
          · simp only [if_pos hno, modify_modify, true_and]
            exact ⟨_, rfl, rfl, fun _ => rfl, rfl⟩

omit [DecidableEq S] in
/-- A choice stays sound. -/
theorem Sound.join {cs : S} (hc : tab.choice s = some cs)
    (h : Sound tab cs (r.values cs))
    (htri : u.tri = (r.values cs).tri.or (r.values s).tri)
    (hval : (r.values cs).val = none → u.val = none)
    (hchosen : u.chosen = if (r.values s).tri = .yes then some s
      else (r.values cs).chosen) : Sound tab cs u := by
  obtain ⟨hchoice, -⟩ := tab.choiceIsChoice s cs hc
  have hnot : tab.isChoice cs ≠ false := by rw [hchoice]; decide
  refine ⟨fun h => absurd h hnot, fun h => absurd h hnot, fun t ht => ?_,
    fun hcs => ?_⟩
  · rw [hchosen] at ht
    split_ifs at ht
    · rw [← Option.some_inj.mp ht, hc]
    · exact h.member t ht
  · obtain ⟨hnone, hyes⟩ := h.choice hcs
    refine ⟨hval hnone, fun hu => ?_⟩
    rw [hchosen]
    by_cases hs : (r.values s).tri = .yes
    · rw [if_pos hs]
      exact Option.some_ne_none s
    · rw [if_neg hs]
      rw [htri, Tristate.or] at hu
      split_ifs at hu
      · exact hyes hu
      · exact absurd hu hs

/-- What is wrong with the choice of `s` at most is put right. -/
theorem setChoice_wellFormed
    (hsound : ∀ t ∈ tab.symbols, Sound tab t (r.values t))
    (hbounded : ∀ t ∈ tab.symbols, t ≠ s → tab.isChoice t = false → ∀ cs,
      tab.choice t = some cs → Unnamed tab cs →
        (r.values t).tri ≤ (r.values cs).tri) :
    WellFormed tab (setChoice tab s r).values := by
  rcases setChoice_values tab s r with
    ⟨hc, hvalues⟩ | ⟨cs, u, hc, hvalues, htri, hval, hchosen⟩
  · rw [hvalues]
    refine ⟨hsound, fun t ht hnot cs htc => hbounded t ht ?_ hnot cs htc⟩
    rintro rfl
    rw [hc] at htc
    cases htc
  · obtain ⟨hchoice, hmem⟩ := tab.choiceIsChoice s cs hc
    have hother : ∀ t, t ≠ cs → Function.update r.values cs u t = r.values t :=
      fun t ht => Function.update_of_ne ht u r.values
    have hself : Function.update r.values cs u cs = u :=
      Function.update_self cs u r.values
    rw [hvalues]
    refine ⟨fun t ht => ?_, fun t ht hnot cs' htc hun => ?_⟩
    · by_cases htcs : t = cs
      · rw [htcs, hself]
        exact (hsound cs hmem).join hc htri hval hchosen
      · rw [hother t htcs]
        exact hsound t ht
    · have htcs : t ≠ cs := by
        rintro rfl
        rw [hchoice] at hnot
        cases hnot
      rw [hother t htcs]
      by_cases hts : t = s
      · -- the bound of `s` itself
        rw [hts, hc, Option.some_inj] at htc
        rw [hts, ← htc, hself, htri, Tristate.or_eq_max]
        exact le_max_right _ _
      · have hle := hbounded t ht hts hnot cs' htc hun
        by_cases hcs : cs' = cs
        · rw [hcs] at hle ⊢
          rw [hself, htri, Tristate.or_eq_max]
          exact hle.trans (le_max_left _ _)
        · rwa [hother cs' hcs]

theorem WellFormed.setChoice (h : WellFormed tab r.values) (s : S) :
    WellFormed tab (setChoice tab s r).values :=
  setChoice_wellFormed h.sound fun t ht _ => h.bounded t ht

/-- A symbol is given a value of its type, and its choice follows. -/
theorem WellFormed.assigned (h : WellFormed tab r.values)
    (hs : ¬ Unnamed tab s) {r' : Reading S}
    (hr : r'.values = Function.update r.values s u)
    (hu : Sound tab s (r.values s) → Sound tab s u) :
    WellFormed tab (ChinixKconfigFile.setChoice tab s r').values := by
  have hother : ∀ t, t ≠ s → r'.values t = r.values t := fun t ht => by
    rw [hr, Function.update_of_ne ht]
  refine setChoice_wellFormed (fun t ht => ?_) fun t ht hts hnot cs htc hun => ?_
  · by_cases hts : t = s
    · subst hts
      rw [hr, Function.update_self]
      exact hu (h.sound t ht)
    · rw [hother t hts]
      exact h.sound t ht
  · have hcs : cs ≠ s := by
      rintro rfl
      exact hs hun
    rw [hother t hts, hother cs hcs]
    exact h.bounded t ht hnot cs htc hun

/-! ## Assignments -/

omit [DecidableEq S] in
/-- A tristate is set, to `m` only where the type has that value. -/
theorem Sound.setTri (hc : ¬ Unnamed tab s) (hs : hasTristate tab s)
    {t : Tristate} (ht : t = .mod → tab.type s = .tristate)
    (h : Sound tab s u) : Sound tab s (u.setTri t) := by
  refine ⟨fun hno _ => ⟨(h.tristate hno hs).1, fun hg => ?_, ht⟩,
    fun _ hnot => absurd hs hnot, h.member, fun hun => absurd hun hc⟩
  cases hg

omit [DecidableEq S] in
/-- A valid string is set. -/
theorem Sound.setVal (hc : ¬ Unnamed tab s) {p : List Char}
    (hp : symStringValid tab s p) (hs : ¬ hasTristate tab s)
    (h : Sound tab s u) : Sound tab s (u.setVal p) := by
  refine ⟨fun _ hyes => absurd hyes hs,
    fun hno _ => ⟨(h.string hno hs).1, fun hg => ?_, fun _ => ⟨_, rfl, ?_⟩⟩,
    fun t ht => ?_, fun hun => absurd hun hc⟩
  · cases hg
  · rwa [String.toList_ofList]
  · cases ht

/-- What an assignment leaves: the values as they were, or, when it succeeds,
    a value of the type of the symbol. -/
def Assigns (tab : ConfSymbols S) (s : S) (r : Reading S)
    (result : Bool × Reading S) : Prop :=
  result.2.values = r.values ∨
    ¬ Unnamed tab s ∧ result.1 = false ∧
      ∃ u, result.2.values = Function.update r.values s u ∧
        (Sound tab s (r.values s) → Sound tab s u)

theorem setStringVal_assigns (hc : ¬ Unnamed tab s)
    (hs : ¬ hasTristate tab s) (p : List Char) (r : Reading S) :
    Assigns tab s r (setStringVal tab s p r) := by
  rw [setStringVal]
  by_cases hp : symStringValid tab s p
  · rw [if_pos hp]
    exact .inr ⟨hc, rfl, _, rfl, fun h => h.setVal hc hp hs⟩
  · rw [if_neg hp]
    exact .inl rfl

theorem confSetSymVal_assigns (hc : ¬ Unnamed tab s) (p : List Char)
    (r : Reading S) : Assigns tab s r (confSetSymVal tab s p r) := by
  have htri : hasTristate tab s →
      Assigns tab s r (confSetSymVal tab s p r) := by
    intro hs
    have hset : ∀ t, (t = .mod → tab.type s = .tristate) →
        Assigns tab s r (false, r.modify s (UserValue.setTri t)) :=
      fun t hmod => .inr ⟨hc, rfl, _, rfl, fun h => h.setTri hc hs hmod⟩
    rw [confSetSymVal_of_hasTristate hs]
    split_ifs with hm
    · exact hset .mod fun _ => hm.1
    · exact hset .yes fun h => by cases h
    · exact hset .no fun h => by cases h
    · exact .inl rfl
  have hnot : ∀ t, tab.type s = t → t ≠ .boolean → t ≠ .tristate →
      ¬ hasTristate tab s := by
    rintro t rfl hb ht hs
    exact (hasTristate_iff.mp hs).elim hb ht
  cases ht : tab.type s with
  | boolean => exact htri (hasTristate_iff.mpr (.inl ht))
  | tristate => exact htri (hasTristate_iff.mpr (.inr ht))
  | unknown =>
      simp only [confSetSymVal, ht]
      exact .inl rfl
  | other =>
      simp only [confSetSymVal, ht]
      exact .inl rfl
  | int =>
      simp only [confSetSymVal, ht]
      exact setStringVal_assigns hc (hnot _ ht (by decide) (by decide)) p r
  | hex =>
      simp only [confSetSymVal, ht]
      exact setStringVal_assigns hc (hnot _ ht (by decide) (by decide)) p r
  | string =>
      simp only [confSetSymVal, ht]
      by_cases hq : p.head? = some '"'
      · rw [if_pos hq]
        cases readQuoted '"' '\\' false p.tail with
        | none => exact .inl rfl
        | some str =>
            exact setStringVal_assigns hc
              (hnot _ ht (by decide) (by decide)) str r
      · rw [if_neg hq]
        exact .inl rfl

/-! ## Lines -/

omit [DecidableEq S] in
/-- A symbol that is found has a name, unless it is a constant. -/
theorem symFind_eq_some {name : List Char} (h : symFind tab name = some s) :
    ¬ Unnamed tab s ∨ tab.type s = .unknown := by
  rw [symFind] at h
  split_ifs at h
  · cases h
    exact .inr (tab.constType _ tab.yesConst)
  · cases h
    exact .inr (tab.constType _ tab.modConst)
  · cases h
    exact .inr (tab.constType _ tab.noConst)
  · have hfound := List.find?_some h
    simp only [Bool.and_eq_true] at hfound
    refine .inl fun hun => ?_
    rw [hun.2] at hfound
    cases hfound.1.1

omit [DecidableEq S] in
theorem warnReassigned_values (s : S) (r : Reading S) :
    (warnReassigned s r).values = r.values := by
  rw [warnReassigned]
  split_ifs <;> rfl

theorem WellFormed.readUnset (h : WellFormed tab r.values)
    (config line : List Char) :
    WellFormed tab (readUnset tab config line r).values := by
  rw [ChinixKconfigFile.readUnset]
  split_ifs
  · split
    · exact h
    · split_ifs
      · split
        · exact h
        · next s hfind =>
          have hwarn : WellFormed tab (warnReassigned s r).values := by
            rwa [warnReassigned_values]
          by_cases hs : hasTristate tab s
          · have hc : ¬ Unnamed tab s := by
              refine (symFind_eq_some hfind).resolve_right fun ht => ?_
              rcases hasTristate_iff.mp hs with hs | hs <;>
                rw [ht] at hs <;> cases hs
            simp only [if_pos hs]
            exact hwarn.assigned hc rfl fun hu =>
              hu.setTri hc hs fun hm => by cases hm
          · simp only [if_neg hs]
            exact hwarn.setChoice s
      · exact h
  · exact h

theorem WellFormed.readAssignment (h : WellFormed tab r.values)
    (config line : List Char) :
    WellFormed tab (readAssignment tab config line r).values := by
  rw [ChinixKconfigFile.readAssignment]
  split
  · exact h
  · next name p _ =>
    split
    · exact h
    · next s hfind =>
      -- an assignment to a constant does nothing
      have hset : Assigns tab s (warnReassigned s r)
          (confSetSymVal tab s (valueOf p) (warnReassigned s r)) := by
        rcases symFind_eq_some hfind with hc | ht
        · exact confSetSymVal_assigns hc _ _
        · simp only [confSetSymVal, ht]
          exact .inl rfl
      generalize confSetSymVal tab s (valueOf p) (warnReassigned s r) =
        result at hset
      obtain ⟨failed, r'⟩ := result
      have hwarn := warnReassigned_values s r
      rcases hset with hsame | ⟨hc, hok, u, hvalues, hu⟩
      · have hr' : WellFormed tab r'.values := by
          rwa [show r'.values = r.values from hsame.trans hwarn]
        cases failed with
        | true => exact hr'
        | false => exact hr'.setChoice s
      · cases hok
        rw [hwarn] at hvalues hu
        exact h.assigned hc hvalues hu

/-- One line. -/
theorem WellFormed.readLine (h : WellFormed tab r.values)
    (config line : List Char) :
    WellFormed tab (readLine tab config r line).values := by
  have hnext : WellFormed tab { r with lineno := r.lineno + 1 }.values := h
  rw [ChinixKconfigFile.readLine]
  split_ifs
  · exact hnext.readUnset config line
  · exact hnext.readAssignment config line
  · exact hnext
  · exact hnext

theorem resetValues_wellFormed (r : Reading S) :
    WellFormed tab (resetValues tab r).values := by
  have hreset : ∀ s ∈ tab.symbols, (resetValues tab r).values s =
      ⟨tab.isChoice s, .no, none, none⟩ := fun s hs => if_pos hs
  refine ⟨fun s hs => ?_, fun s hs _ cs hc _ => ?_⟩
  · rw [hreset s hs]
    refine ⟨fun _ _ => ⟨rfl, fun _ => rfl, fun h => ?_⟩,
      fun hc _ => ⟨rfl, fun _ => rfl, fun h => ?_⟩, fun t h => ?_,
      fun _ => ⟨rfl, fun h => ?_⟩⟩
    · cases h
    · rw [hc] at h
      cases h
    · cases h
    · cases h
  · rw [hreset s hs]
    exact Tristate.no_le _

/-- **Every file** is read to the end, and what it leaves is well formed:
    each symbol but a choice has a value of its type or none, and no value of
    a choice without a name exceeds that of the choice, which is `y` only if
    a value is chosen. -/
theorem read_wellFormed (tab : ConfSymbols S) (config text : List Char)
    (r : Reading S) :
    WellFormed tab (confReadSimple tab config text r).values := by
  rw [confReadSimple]
  have hlines : ∀ (lines : List (List Char)) (r : Reading S),
      WellFormed tab r.values →
      WellFormed tab (lines.foldl (ChinixKconfigFile.readLine tab config)
        r).values := by
    intro lines
    induction lines with
    | nil => exact fun r h => h
    | cons line lines ih => exact fun r h => ih _ (h.readLine config line)
  exact hlines _ _ (resetValues_wellFormed r)

end ChinixKconfigReading

import Mathlib.Data.List.Induction
import Chinix.KconfigLines

/-! # Reading back a configuration file

    What `conf_write` writes, `conf_read_simple` reads: each symbol that was
    written has the value that it had, every other symbol has none, a choice
    has the value of its members, and nothing is warned about.  After some
    lines the user values are those of the symbols on them. -/

namespace ChinixKconfigRoundTrip

open ChinixKconfigExpr ChinixKconfigTransform ChinixKconfigFile
open ChinixKconfigLines DelimitedText TreeWalk

variable {S : Type} [DecidableEq S] {tab : ConfSymbols S}

/-! ## The values that are read -/

/-- What a file says of a symbol. -/
def saved (tab : ConfSymbols S) (v : Values S) (s : S) : UserValue S :=
  if hasTristate tab s then ⟨true, v.tri s, none, none⟩
  else ⟨true, .no, some (v.val s), none⟩

/-- The values of a choice among some symbols. -/
def membersOf (tab : ConfSymbols S) (done : List S) (cs : S) : List S :=
  done.filter fun s => tab.choice s = some cs

/-- The value of a choice some of whose values have been read. -/
def joined (tab : ConfSymbols S) (v : Values S) (done : List S) (cs : S) :
    Tristate :=
  (membersOf tab done cs).foldl (fun t s => t.or (saved tab v s).tri) .no

/-- The one that is chosen. -/
def chosenOf (tab : ConfSymbols S) (v : Values S) (done : List S) (cs : S) :
    Option S :=
  (membersOf tab done cs).foldl
    (fun c s => if (saved tab v s).tri = .yes then some s else c) none

/-- The user values when the symbols `done` have been read. -/
def restored (tab : ConfSymbols S) (v : Values S) (before : S → UserValue S)
    (done : List S) (s : S) : UserValue S :=
  if s ∈ tab.symbols then
    if tab.isChoice s then
      ⟨true, joined tab v done s, none, chosenOf tab v done s⟩
    else if s ∈ done then saved tab v s
    else ⟨false, .no, none, none⟩
  else before s

variable {v : Values S} {before : S → UserValue S} {done : List S} {s cs : S}

theorem restored_nil (r : Reading S) :
    (resetValues tab r).values = restored tab v r.values [] := by
  funext s
  by_cases hs : s ∈ tab.symbols
  · cases hc : tab.isChoice s <;> simp [resetValues, restored, joined,
      chosenOf, membersOf, hs, hc]
  · simp [resetValues, restored, hs]

theorem membersOf_concat_of_ne (h : tab.choice s ≠ some cs) :
    membersOf tab (done ++ [s]) cs = membersOf tab done cs := by
  simp [membersOf, h]

theorem membersOf_concat (h : tab.choice s = some cs) :
    membersOf tab (done ++ [s]) cs = membersOf tab done cs ++ [s] := by
  simp [membersOf, h]

theorem joined_concat_of_ne (h : tab.choice s ≠ some cs) :
    joined tab v (done ++ [s]) cs = joined tab v done cs := by
  rw [joined, membersOf_concat_of_ne h, joined]

theorem chosenOf_concat_of_ne (h : tab.choice s ≠ some cs) :
    chosenOf tab v (done ++ [s]) cs = chosenOf tab v done cs := by
  rw [chosenOf, membersOf_concat_of_ne h, chosenOf]

theorem joined_concat (h : tab.choice s = some cs) :
    joined tab v (done ++ [s]) cs =
      (joined tab v done cs).or (saved tab v s).tri := by
  rw [joined, membersOf_concat h, List.foldl_concat]
  rfl

theorem chosenOf_concat (h : tab.choice s = some cs) :
    chosenOf tab v (done ++ [s]) cs =
      if (saved tab v s).tri = .yes then some s
      else chosenOf tab v done cs := by
  rw [chosenOf, membersOf_concat h, List.foldl_concat]
  rfl

/-- A symbol says nothing of other ones, its choice apart. -/
theorem restored_concat_of_ne {t : S} (hs : t ≠ s)
    (hcs : tab.choice s ≠ some t) :
    restored tab v before (done ++ [s]) t = restored tab v before done t := by
  simp only [restored, joined_concat_of_ne hcs, chosenOf_concat_of_ne hcs,
    List.mem_append, List.mem_singleton, hs, or_false]

theorem restored_choice (hmem : cs ∈ tab.symbols) (hcs : tab.isChoice cs) :
    restored tab v before done cs =
      ⟨true, joined tab v done cs, none, chosenOf tab v done cs⟩ := by
  simp [restored, hmem, hcs]

theorem restored_concat_self (hmem : s ∈ tab.symbols)
    (hs : tab.isChoice s = false) :
    restored tab v before (done ++ [s]) s = saved tab v s := by
  simp [restored, hmem, hs]

/-- The value of a choice is that of one of its values that have been read,
    unless it is `n`. -/
theorem exists_of_joined (h : joined tab v done cs ≠ .no) :
    ∃ s ∈ membersOf tab done cs, (saved tab v s).tri = joined tab v done cs := by
  induction done using List.reverseRecOn with
  | nil => exact absurd rfl h
  | append_singleton done s ih =>
      by_cases hs : tab.choice s = some cs
      · rw [joined_concat hs] at h ⊢
        rw [membersOf_concat hs]
        rw [Tristate.or] at h ⊢
        split_ifs at h ⊢ with hlt
        · obtain ⟨t, ht, he⟩ := ih h
          exact ⟨t, List.mem_append_left _ ht, he⟩
        · exact ⟨s, by simp, rfl⟩
      · rw [joined_concat_of_ne hs] at h ⊢
        rw [membersOf_concat_of_ne hs]
        exact ih h

theorem le_joined {s : S} (h : s ∈ done) (hs : tab.choice s = some cs) :
    (saved tab v s).tri ≤ joined tab v done cs := by
  induction done using List.reverseRecOn with
  | nil => cases h
  | append_singleton done t ih =>
      by_cases ht : tab.choice t = some cs
      · rw [joined_concat ht, Tristate.or_eq_max]
        rcases List.mem_append.mp h with h | h
        · exact (ih h).trans (le_max_left _ _)
        · rw [List.mem_singleton.mp h]
          exact le_max_right _ _
      · rw [joined_concat_of_ne ht]
        rcases List.mem_append.mp h with h | h
        · exact ih h
        · rw [List.mem_singleton.mp h] at hs
          exact absurd hs ht

/-! ## The choice of a symbol -/

/-- Without a conflict the choice takes over the value. -/
theorem setChoice_of_agrees {r : Reading S} (hs : tab.choice s = some cs)
    (hmod : (r.values s).tri = .mod → (r.values cs).tri ≠ .yes)
    (hyes : (r.values s).tri = .yes → (r.values cs).tri = .no) :
    setChoice tab s r = r.modify cs fun u =>
      { u with
        tri := u.tri.or (r.values s).tri
        val := if (r.values s).tri = .yes then none else u.val
        chosen := if (r.values s).tri = .yes then some s else u.chosen } := by
  rw [setChoice, hs]
  cases htri : (r.values s).tri with
  | no => simp
  | mod => simp [hmod htri]
  | yes =>
      simp only [hyes htri, ne_eq, not_true_eq_false, if_false, if_true,
        modify_modify]
      rfl

/-- Two values of one choice are not both set. -/
def Exclusive (tab : ConfSymbols S) (v : Values S) (s t : S) : Prop :=
  ∀ cs, tab.choice s = some cs → tab.choice t = some cs →
    (saved tab v s).tri = .yes → (saved tab v t).tri = .no

/-- Of the values of a choice the one that is set is chosen. -/
theorem chosenOf_eq_some {s : S}
    (hexcl : ∀ s ∈ done, ∀ t ∈ done, s ≠ t → Exclusive tab v s t) :
    chosenOf tab v done cs = some s ↔
      s ∈ done ∧ tab.choice s = some cs ∧ (saved tab v s).tri = .yes := by
  induction done using List.reverseRecOn with
  | nil => simp [chosenOf, membersOf]
  | append_singleton done t ih =>
      have ih := ih fun a ha b hb =>
        hexcl a (List.mem_append_left _ ha) b (List.mem_append_left _ hb)
      have hlast : t ∈ done ++ [t] := by simp
      by_cases ht : tab.choice t = some cs
      · rw [chosenOf_concat ht]
        by_cases hyes : (saved tab v t).tri = .yes
        · rw [if_pos hyes, Option.some_inj]
          refine ⟨fun he => he ▸ ⟨hlast, ht, hyes⟩, ?_⟩
          rintro ⟨hmem, hs, hsyes⟩
          by_contra hne
          have := hexcl t hlast s hmem hne cs ht hs hyes
          rw [hsyes] at this
          cases this
        · rw [if_neg hyes, ih, List.mem_append, List.mem_singleton]
          refine ⟨fun h => ⟨.inl h.1, h.2⟩, ?_⟩
          rintro ⟨h | rfl, hs, hsyes⟩
          · exact ⟨h, hs, hsyes⟩
          · exact absurd hsyes hyes
      · rw [chosenOf_concat_of_ne ht, ih, List.mem_append, List.mem_singleton]
        refine ⟨fun h => ⟨.inl h.1, h.2⟩, ?_⟩
        rintro ⟨h | rfl, hs, hsyes⟩
        · exact ⟨h, hs, hsyes⟩
        · exact absurd hs ht

/-- What is left to do for a symbol whose value has just been read. -/
theorem setChoice_restored {r : Reading S} (hmem : s ∈ tab.symbols)
    (hs : tab.isChoice s = false)
    (hr : r.values =
      Function.update (restored tab v before done) s (saved tab v s))
    (hexcl : ∀ t ∈ done, Exclusive tab v s t ∧ Exclusive tab v t s) :
    setChoice tab s r =
      { r with values := restored tab v before (done ++ [s]) } := by
  have hself : r.values s = saved tab v s := by rw [hr, Function.update_self]
  have hother : ∀ {t}, t ≠ s → r.values t = restored tab v before done t :=
    fun ht => by rw [hr, Function.update_of_ne ht]
  cases hc : tab.choice s with
  | none =>
      have hvalues : restored tab v before (done ++ [s]) = r.values := by
        funext t
        by_cases ht : t = s
        · rw [ht, restored_concat_self hmem hs, hself]
        · rw [hother ht, restored_concat_of_ne ht (by rw [hc]; simp)]
      rw [setChoice, hc, hvalues]
  | some cs =>
      obtain ⟨hchoice, hcs⟩ := tab.choiceIsChoice s cs hc
      have hne : cs ≠ s := by
        rintro rfl
        rw [hs] at hchoice
        cases hchoice
      -- a value that is set already is that of another symbol of the choice
      have hset : (r.values cs).tri ≠ .no → ∃ t ∈ done,
          tab.choice t = some cs ∧ (saved tab v t).tri = (r.values cs).tri := by
        rw [hother hne, restored_choice hcs hchoice]
        intro h
        obtain ⟨t, ht, he⟩ := exists_of_joined h
        obtain ⟨hdone, htc⟩ := List.mem_filter.mp ht
        exact ⟨t, hdone, by simpa using htc, he⟩
      have hyes : (r.values s).tri = .yes → (r.values cs).tri = .no := by
        intro h
        by_contra hno
        obtain ⟨t, ht, htc, he⟩ := hset hno
        rw [hself] at h
        exact hno (he.symm.trans ((hexcl t ht).1 cs hc htc h))
      have hmod : (r.values s).tri = .mod → (r.values cs).tri ≠ .yes := by
        intro h hcsyes
        obtain ⟨t, ht, htc, he⟩ := hset (by rw [hcsyes]; decide)
        have := (hexcl t ht).2 cs htc hc (he.trans hcsyes)
        rw [hself, this] at h
        cases h
      rw [setChoice_of_agrees hc hmod hyes, Reading.modify, hself, hother hne,
        restored_choice hcs hchoice, ite_self, ← joined_concat hc,
        ← chosenOf_concat hc, ← restored_choice hcs hchoice]
      congr 1
      funext t
      by_cases htcs : t = cs
      · rw [htcs, Function.update_self]
      · rw [Function.update_of_ne htcs]
        by_cases ht : t = s
        · rw [ht, restored_concat_self hmem hs, hself]
        · rw [hother ht, restored_concat_of_ne ht]
          rw [hc]
          exact fun h => htcs (Option.some.inj h).symm

/-! ## A symbol -/

/-- What has to hold of a symbol that is written. -/
structure SymbolOk (tab : ConfSymbols S) (config : List Char) (v : Values S)
    (s : S) : Prop where
  notChoice : tab.isChoice s = false
  typed : tab.type s ≠ .unknown
  name : NameOk tab config s
  valid : tab.type s = .int ∨ tab.type s = .hex →
    symStringValid tab s (v.val s).toList
  string : tab.type s = .string → InLine (v.val s).toList

omit [DecidableEq S] in
theorem SymbolOk.mem {config : List Char} (h : SymbolOk tab config v s) :
    s ∈ tab.symbols := by
  have hfound := h.name.found
  rw [symFind] at hfound
  split_ifs at hfound
  · cases hfound
    exact absurd (tab.constType _ tab.yesConst) h.typed
  · cases hfound
    exact absurd (tab.constType _ tab.modConst) h.typed
  · cases hfound
    exact absurd (tab.constType _ tab.noConst) h.typed
  · exact List.mem_of_find?_eq_some hfound

/-- The user values are those read from the lines of `done`, without `s`. -/
structure Fresh (tab : ConfSymbols S) (v : Values S)
    (before : S → UserValue S) (done : List S) (s : S) (r : Reading S) :
    Prop where
  values : r.values = restored tab v before done
  notDone : s ∉ done
  exclusive : ∀ t ∈ done, Exclusive tab v s t ∧ Exclusive tab v t s

variable {config : List Char} {r : Reading S}

theorem Fresh.unset (h : Fresh tab v before done s r)
    (hs : SymbolOk tab config v s) : r.values s = ⟨false, .no, none, none⟩ := by
  rw [h.values]
  simp [restored, hs.mem, hs.notChoice, h.notDone]

theorem Fresh.warnReassigned (h : Fresh tab v before done s r)
    (hs : SymbolOk tab config v s) :
    warnReassigned s (next r) = next r := by
  have hunset : (next r).values s = _ := h.unset hs
  rw [ChinixKconfigFile.warnReassigned, hunset]
  rfl

/-- An assignment of what is saved, and the code at `setsym` behind it. -/
theorem Fresh.setChoice (h : Fresh tab v before done s r)
    (hs : SymbolOk tab config v s) {f : UserValue S → UserValue S}
    (hf : f ⟨false, .no, none, none⟩ = saved tab v s) :
    setChoice tab s ((next r).modify s f) =
      { next r with values := restored tab v before (done ++ [s]) } := by
  refine setChoice_restored hs.mem hs.notChoice ?_ h.exclusive
  rw [Reading.modify, ← hf, ← h.unset hs, ← h.values]
  rfl

theorem readLine_value (h : Fresh tab v before done s r)
    (hs : SymbolOk tab config v s) {value : List Char}
    (hvalue : ValueOk value) {f : UserValue S → UserValue S}
    (hset : ∀ r, confSetSymVal tab s value r = (false, r.modify s f))
    (hf : f ⟨false, .no, none, none⟩ = saved tab v s) :
    readLine tab config r
        (config ++ nameOf tab s ++ '=' :: value ++ ['\n']) =
      { next r with values := restored tab v before (done ++ [s]) } := by
  rw [readLine_assign hs.name hvalue, h.warnReassigned hs]
  simp only [hset]
  exact h.setChoice hs hf

/-- One line is written for the symbol, and reading it gives the symbol its
    value, and its choice the value that it has so far. -/
def ReadsBack (tab : ConfSymbols S) (config : List Char) (v : Values S)
    (before : S → UserValue S) (done : List S) (s : S) (r : Reading S) :
    Prop :=
  ∃ line, confWriteSymbol tab config v s = [line] ∧ '\n' ∉ line ∧
    readLine tab config r (line ++ ['\n']) =
      { next r with values := restored tab v before (done ++ [s]) }

/-- A symbol whose line has a value. -/
theorem readsBack_value (hconfig : '\n' ∉ config)
    (h : Fresh tab v before done s r) (hs : SymbolOk tab config v s)
    {value : List Char} {f : UserValue S → UserValue S}
    (hwrite : confWriteSymbol tab config v s =
      [config ++ nameOf tab s ++ '=' :: value])
    (hvalue : ValueOk value)
    (hset : ∀ r, confSetSymVal tab s value r = (false, r.modify s f))
    (hf : f ⟨false, .no, none, none⟩ = saved tab v s) :
    ReadsBack tab config v before done s r := by
  refine ⟨_, hwrite, ?_, readLine_value h hs hvalue hset hf⟩
  simp [hconfig, hs.name.inLine.1, hvalue.1.1]

theorem readsBack_tristate (hv : Calculated tab.toSymbolTable v)
    (hconfig : '\n' ∉ config) (h : Fresh tab v before done s r)
    (hs : SymbolOk tab config v s) (htri : hasTristate tab s) :
    ReadsBack tab config v before done s r := by
  have htype := hasTristate_iff.mp htri
  have hstr : symGetStringValue tab.toSymbolTable v s = letter (v.tri s) :=
    string_of_typed hv htype
  have hwrite : confWriteSymbol tab config v s =
      kconfigPrintSymbol tab config false s (letter (v.tri s)).toList := by
    rcases htype with ht | ht <;> simp only [confWriteSymbol, ht, hstr]
  have hsaved : UserValue.setTri (v.tri s) ⟨false, .no, none, none⟩ =
      saved tab v s := by
    simp [saved, htri, UserValue.setTri]
  by_cases hno : v.tri s = .no
  · have hhead : (letter .no).toList.head? = some 'n' := by decide
    refine ⟨_, by rw [hwrite, hno, kconfigPrintSymbol,
      if_pos ⟨htri, hhead⟩, if_neg (by decide)], ?_, ?_⟩
    · simp [hconfig, hs.name.inLine.1]
    · rw [readLine_unset hs.name, if_pos htri, h.warnReassigned hs, ← hno]
      exact h.setChoice hs hsaved
  · have hhead : (letter (v.tri s)).toList.head? ≠ some 'n' := by
      cases ht : v.tri s with
      | no => exact absurd ht hno
      | mod => decide
      | yes => decide
    have hvalue : ValueOk (letter (v.tri s)).toList := by
      cases ht : v.tri s with
      | no => exact absurd ht hno
      | mod => unfold ValueOk InLine; decide
      | yes => unfold ValueOk InLine; decide
    have hmod : v.tri s = .mod → tab.type s = .tristate := fun hm =>
      htype.resolve_left fun hb => hv.boolean s hb hm
    have hline : confWriteSymbol tab config v s =
        [config ++ nameOf tab s ++ '=' :: (letter (v.tri s)).toList] := by
      rw [hwrite, kconfigPrintSymbol, if_neg fun hp => hhead hp.2]
    exact readsBack_value hconfig h hs hline hvalue
      (confSetSymVal_tristate htri hno hmod) hsaved

theorem readsBack_string (hconfig : '\n' ∉ config)
    (h : Fresh tab v before done s r) (hs : SymbolOk tab config v s)
    (htri : ¬ hasTristate tab s) : ReadsBack tab config v before done s r := by
  have htype := mt hasTristate_iff.mpr htri
  have hstr : symGetStringValue tab.toSymbolTable v s = v.val s := by
    rw [symGetStringValue, if_neg htype]
  have hsaved : UserValue.setVal (v.val s).toList ⟨false, .no, none, none⟩ =
      saved tab v s := by
    simp [saved, htri, UserValue.setVal]
  have hprint : ∀ value, kconfigPrintSymbol tab config false s value =
      [config ++ nameOf tab s ++ '=' :: value] := fun value => by
    rw [kconfigPrintSymbol, if_neg fun hp => htri hp.1]
  have hnumber : tab.type s = .int ∨ tab.type s = .hex →
      ReadsBack tab config v before done s r := by
    intro ht
    have hline : confWriteSymbol tab config v s =
        [config ++ nameOf tab s ++ '=' :: (v.val s).toList] := by
      rcases ht with ht | ht <;>
        simp only [confWriteSymbol, ht, hstr, hprint]
    exact readsBack_value hconfig h hs hline (valueOk_number ht (hs.valid ht))
      (confSetSymVal_number ht (hs.valid ht)) hsaved
  cases ht : tab.type s with
  | unknown => exact absurd ht hs.typed
  | other => exact absurd ht (tab.notOther s)
  | boolean => exact absurd (.inl ht) htype
  | tristate => exact absurd (.inr ht) htype
  | string =>
      have hline : confWriteSymbol tab config v s =
          [config ++ nameOf tab s ++
            '=' :: symEscapeStringValue (v.val s).toList] := by
        simp only [confWriteSymbol, ht, hstr, hprint]
      exact readsBack_value hconfig h hs hline
        (valueOk_escaped (hs.string ht)) (confSetSymVal_string ht _) hsaved
  | int => exact hnumber (.inl ht)
  | hex => exact hnumber (.inr ht)

/-- **A symbol** that is written is read back. -/
theorem readsBack (hv : Calculated tab.toSymbolTable v)
    (hconfig : '\n' ∉ config) (h : Fresh tab v before done s r)
    (hs : SymbolOk tab config v s) :
    ReadsBack tab config v before done s r := by
  by_cases htri : hasTristate tab s
  · exact readsBack_tristate hv hconfig h hs htri
  · exact readsBack_string hconfig h hs htri

/-! ## Lines that are passed over -/

/-- The lines are read one after the other. -/
def readAll (tab : ConfSymbols S) (config : List Char)
    (lines : List (List Char)) (r : Reading S) : Reading S :=
  (lines.map fun line => line ++ ['\n']).foldl (readLine tab config) r

theorem readAll_append (lines lines' : List (List Char)) (r : Reading S) :
    readAll tab config (lines ++ lines') r =
      readAll tab config lines' (readAll tab config lines r) := by
  rw [readAll, List.map_append, List.foldl_append]
  rfl

/-- Reading the lines does nothing but count them. -/
def Passes (tab : ConfSymbols S) (config : List Char)
    (lines : List (List Char)) : Prop :=
  ∀ line ∈ lines, '\n' ∉ line ∧
    ∀ r : Reading S, readLine tab config r (line ++ ['\n']) = next r

theorem Passes.readAll {lines : List (List Char)}
    (h : Passes tab config lines) (r : Reading S) :
    readAll tab config lines r =
      { r with lineno := r.lineno + lines.length } := by
  induction lines generalizing r with
  | nil => rfl
  | cons line lines ih =>
      obtain ⟨hline, hlines⟩ := List.forall_mem_cons.mp h
      change ChinixKconfigRoundTrip.readAll tab config lines
        (readLine tab config r (line ++ ['\n'])) = _
      rw [hline.2 r, ih hlines]
      simp only [next, List.length_cons]
      congr 1
      omega

/-- A line of `kconfig_print_comment`. -/
theorem passes_comment {comment : List Char} (hconfig : '\n' ∉ config)
    (h : comment = [] ∨ InLine comment ∧ Inert config comment) :
    Passes tab config
      [('#' :: if comment = [] then [] else ' ' :: comment)] := by
  intro line hline
  rw [List.mem_singleton.mp hline]
  by_cases hnil : comment = []
  · rw [if_pos hnil]
    exact ⟨by decide, readLine_hash config⟩
  · obtain ⟨hin, hinert⟩ := h.resolve_left hnil
    rw [if_neg hnil]
    refine ⟨?_, readLine_comment hconfig hin.2 hinert⟩
    simp [hin.1]

/-- The lines of a menu or a comment. -/
theorem passes_prompt {prompt : List Char} (hconfig : '\n' ∉ config)
    (hin : InLine prompt) (hinert : Inert config prompt) :
    Passes tab config [[], ['#'], "# ".toList ++ prompt, ['#']] := by
  have hhash : '\n' ∉ ['#'] ∧
      ∀ r : Reading S, readLine tab config r (['#'] ++ ['\n']) = next r :=
    ⟨by decide, readLine_hash config⟩
  have hprompt : '\n' ∉ "# ".toList ++ prompt := by
    simp [hin.1]
  have hread : ∀ r : Reading S,
      readLine tab config r ("# ".toList ++ prompt ++ ['\n']) = next r :=
    readLine_comment hconfig hin.2 hinert
  simp only [Passes, List.forall_mem_cons]
  exact ⟨⟨List.not_mem_nil, readLine_blank hconfig⟩, hhash, ⟨hprompt, hread⟩,
    hhash, fun _ h => absurd h List.not_mem_nil⟩

/-- The comments of the heading: two lines of its own, and as much of the
    prompt as there is room for. -/
theorem mem_heading {rootPrompt comment : List Char}
    (hroot : '\n' ∉ rootPrompt)
    (h : comment ∈ (('\n' :: generated ++ '\n' :: rootPrompt ++ ['\n']).take
      headingRoom).splitOn '\n') :
    comment = [] ∨ comment = generated ∨ ∃ k, comment = rootPrompt.take k := by
  have hlen : ('\n' :: generated ++ ['\n']).length = 44 := by decide
  have htext : ('\n' :: generated ++ '\n' :: rootPrompt ++ ['\n']).take
      headingRoom = [] ++ '\n' :: (generated ++ '\n' ::
        (rootPrompt ++ ['\n']).take 211) := by
    have : '\n' :: generated ++ '\n' :: rootPrompt ++ ['\n'] =
        ('\n' :: generated ++ ['\n']) ++ (rootPrompt ++ ['\n']) := by simp
    rw [this, List.take_append, hlen, List.take_of_length_le (by decide)]
    simp [headingRoom]
  rw [htext, List.splitOn_append_cons_self_of_not_mem List.not_mem_nil,
    List.splitOn_append_cons_self_of_not_mem (by decide)] at h
  rcases List.mem_cons.mp h with h | h
  · exact .inl h
  rcases List.mem_cons.mp h with h | h
  · exact .inr (.inl h)
  rw [List.take_append] at h
  cases hk : 211 - rootPrompt.length with
  | zero =>
      have hmem : '\n' ∉ rootPrompt.take 211 := fun hc =>
        hroot (List.mem_of_mem_take hc)
      rw [hk, List.take_zero, List.append_nil,
        List.splitOn_eq_singleton hmem] at h
      exact .inr (.inr ⟨211, List.mem_singleton.mp h⟩)
  | succ k =>
      have hle : rootPrompt.length ≤ 211 := by omega
      rw [hk, List.take_of_length_le hle, List.take_succ_cons,
        List.take_nil, List.splitOn_append_cons_self_of_not_mem hroot,
        List.splitOn_nil] at h
      rcases List.mem_cons.mp h with h | h
      · exact .inr (.inr ⟨rootPrompt.length, by rw [h, List.take_length]⟩)
      · exact .inl (List.mem_singleton.mp h)

/-- The heading is passed over. -/
theorem passes_heading {rootPrompt : List Char} (hconfig : '\n' ∉ config)
    (hin : InLine rootPrompt) (hinert : Inert config rootPrompt) :
    Passes tab config (confWriteHeading rootPrompt) := by
  intro line hline
  obtain ⟨comment, hmem, rfl⟩ := List.mem_map.mp hline
  refine passes_comment hconfig ?_ _ (List.mem_singleton_self _)
  rcases mem_heading hin.1 hmem with h | rfl | ⟨k, rfl⟩
  · exact .inl h
  · exact .inr ⟨by unfold InLine; decide, inert_of_not_mem (by decide) config⟩
  · exact .inr ⟨⟨fun hc => hin.1 (List.mem_of_mem_take hc),
      fun hc => hin.2 (List.mem_of_mem_take hc)⟩, hinert.take k⟩

/-! ## A whole file -/

/-- The symbol is written: it is no choice, it has the flag `SYMBOL_WRITE`,
    and an entry of the menus is about it. -/
def Written (tab : ConfSymbols S) (write : S → Bool)
    (entries : List (MenuEntry S)) (s : S) : Prop :=
  tab.isChoice s = false ∧ write s ∧ ∃ menu ∈ entries, menu.sym = some s

/-- A configuration that a file can hold: the symbols that are written have
    values of their types, and names that can be told from what is around
    them, no two values of a choice are set, and no prompt reads like a comment
    about a symbol. -/
structure Writable (tab : ConfSymbols S) (config rootPrompt : List Char)
    (v : Values S) (entries : List (MenuEntry S)) (write : S → Bool) :
    Prop where
  calculated : Calculated tab.toSymbolTable v
  oneLine : '\n' ∉ config
  root : InLine rootPrompt
  rootInert : Inert config rootPrompt
  symbols : ∀ s, Written tab write entries s → SymbolOk tab config v s
  exclusive : ∀ s t, Written tab write entries s →
    Written tab write entries t → s ≠ t → Exclusive tab v s t
  prompts : ∀ menu ∈ entries, menu.sym = none → menuIsVisible tab v menu →
    InLine (menuGetPrompt menu) ∧ Inert config (menuGetPrompt menu)

/-- How far `conf_write` has come, and what reading its lines gives: the
    symbols `done` are written, and `seen` are the entries that it has met. -/
structure SoFar (tab : ConfSymbols S) (config : List Char) (v : Values S)
    (write : S → Bool) (r0 : Reading S) (seen : List (MenuEntry S))
    (done : List S) (w : Writing S) : Prop where
  lines : ∀ line ∈ w.lines, '\n' ∉ line
  flags : ∀ s, tab.isChoice s = false → w.write s = (write s && s ∉ done)
  members : ∀ s, s ∈ done ↔ Written tab write seen s
  values : (readAll tab config w.lines (resetValues tab r0)).values =
    restored tab v r0.values done
  warnings : (readAll tab config w.lines (resetValues tab r0)).warnings = []
  notFound : (readAll tab config w.lines (resetValues tab r0)).notFound =
    r0.notFound

variable {write : S → Bool} {r0 : Reading S} {seen : List (MenuEntry S)}
  {menu : MenuEntry S} {w : Writing S}

/-- Nothing is written for a choice, or without the flag. -/
theorem confWriteEntry_of_skipped {s : S} (hsym : menu.sym = some s)
    (hs : tab.isChoice s = true ∨ w.write s = false) :
    confWriteEntry tab config v menu w = w := by
  rw [confWriteEntry, hsym]
  rcases hs with hs | hs <;> simp [hs]

/-- A symbol is written and loses the flag. -/
theorem confWriteEntry_of_symbol {s : S} (hsym : menu.sym = some s)
    (hc : tab.isChoice s = false) (hw : w.write s) :
    confWriteEntry tab config v menu w =
      { lines := w.lines ++ confWriteSymbol tab config v s
        write := Function.update w.write s false } := by
  rw [confWriteEntry, hsym]
  simp [hc, hw]

omit [DecidableEq S] in
theorem written_concat {s : S} : Written tab write (seen ++ [menu]) s ↔
    Written tab write seen s ∨
      tab.isChoice s = false ∧ write s ∧ menu.sym = some s := by
  simp only [Written, List.mem_append, List.mem_singleton, or_and_right,
    exists_or, exists_eq_left]
  rw [← and_or_left, ← and_or_left]

/-- A symbol that is to be written is new. -/
theorem SoFar.new (h : SoFar tab config v write r0 seen done w) {s : S}
    (hs : tab.isChoice s = false) (hw : w.write s) :
    write s ∧ s ∉ done := by
  have := h.flags s hs
  rw [hw] at this
  simpa using this.symm

/-- Lines that are passed over can be added. -/
theorem SoFar.passes (h : SoFar tab config v write r0 seen done w)
    {lines : List (List Char)} (hlines : Passes tab config lines)
    (hdone : ∀ s, s ∈ done ↔ Written tab write (seen ++ [menu]) s) :
    SoFar tab config v write r0 (seen ++ [menu]) done
      { w with lines := w.lines ++ lines } := by
  have hread := hlines.readAll (readAll tab config w.lines (resetValues tab r0))
  refine ⟨fun line hline => ?_, h.flags, hdone, ?_, ?_, ?_⟩
  · rcases List.mem_append.mp hline with hline | hline
    · exact h.lines line hline
    · exact (hlines line hline).1
  · rw [readAll_append, hread]
    exact h.values
  · rw [readAll_append, hread]
    exact h.warnings
  · rw [readAll_append, hread]
    exact h.notFound

/-- An entry for which nothing is written. -/
theorem SoFar.stays (h : SoFar tab config v write r0 seen done w)
    (hdone : ∀ s, s ∈ done ↔ Written tab write (seen ++ [menu]) s) :
    SoFar tab config v write r0 (seen ++ [menu]) done w := by
  have hnil : Passes tab config [] := fun _ h => absurd h List.not_mem_nil
  have := h.passes hnil hdone
  rwa [List.append_nil] at this

/-- A symbol is written. -/
theorem SoFar.symbol (h : SoFar tab config v write r0 seen done w)
    (hv : Calculated tab.toSymbolTable v) (hconfig : '\n' ∉ config) {s : S}
    (hs : SymbolOk tab config v s) (hsym : menu.sym = some s)
    (hw : w.write s)
    (hexcl : ∀ t ∈ done, Exclusive tab v s t ∧ Exclusive tab v t s) :
    SoFar tab config v write r0 (seen ++ [menu]) (done ++ [s])
      { lines := w.lines ++ confWriteSymbol tab config v s
        write := Function.update w.write s false } := by
  have hnew := h.new hs.notChoice hw
  obtain ⟨line, hline, hnewline, hread⟩ := readsBack hv hconfig
    ⟨h.values, hnew.2, hexcl⟩ hs
  have hall : readAll tab config (w.lines ++ [line]) (resetValues tab r0) =
      { next (readAll tab config w.lines (resetValues tab r0)) with
        values := restored tab v r0.values (done ++ [s]) } := by
    rw [readAll_append]
    exact hread
  rw [hline]
  refine ⟨fun l hl => ?_, fun t ht => ?_, fun t => ?_, ?_, ?_, ?_⟩
  · rcases List.mem_append.mp hl with hl | hl
    · exact h.lines l hl
    · rwa [List.mem_singleton.mp hl]
  · by_cases hts : t = s
    · simp [hts]
    · simp [h.flags t ht, hts]
  · rw [List.mem_append, List.mem_singleton, written_concat, h.members, hsym,
      Option.some_inj]
    constructor
    · rintro (ht | rfl)
      · exact .inl ht
      · exact .inr ⟨hs.notChoice, hnew.1, rfl⟩
    · rintro (ht | ⟨-, -, rfl⟩)
      · exact .inl ht
      · exact .inr rfl
  · rw [hall]
  · rw [hall]
    exact h.warnings
  · rw [hall]
    exact h.notFound

/-- Nothing is new unless the entry is about a symbol that is to be
    written. -/
theorem SoFar.same (h : SoFar tab config v write r0 seen done w)
    (hno : ∀ s, menu.sym = some s → tab.isChoice s = false →
      w.write s = false) (s : S) :
    s ∈ done ↔ Written tab write (seen ++ [menu]) s := by
  rw [written_concat, ← h.members]
  refine ⟨.inl, fun hs => hs.elim id ?_⟩
  rintro ⟨hc, hw, he⟩
  have hflag := h.flags s hc
  rw [hno s he hc, hw] at hflag
  by_contra hdone
  simp [hdone] at hflag

/-- One round of `conf_write`. -/
theorem SoFar.step {rootPrompt : List Char} {entries : List (MenuEntry S)}
    (hok : Writable tab config rootPrompt v entries write)
    (hsub : ∀ m ∈ seen ++ [menu], m ∈ entries)
    (h : SoFar tab config v write r0 seen done w) :
    ∃ done', SoFar tab config v write r0 (seen ++ [menu]) done'
      (confWriteEntry tab config v menu w) := by
  have hwritten : ∀ s, Written tab write (seen ++ [menu]) s →
      Written tab write entries s := by
    rintro s ⟨hc, hw, m, hm, he⟩
    exact ⟨hc, hw, m, hsub m hm, he⟩
  cases hsym : menu.sym with
  | none =>
      have hdone := h.same fun s he => by
        rw [hsym] at he
        cases he
      rw [confWriteEntry, hsym]
      by_cases hvis : menuIsVisible tab v menu
      · obtain ⟨hin, hinert⟩ := hok.prompts menu
          (hsub menu (List.mem_append_right _ (List.mem_singleton_self _)))
          hsym hvis
        refine ⟨done, ?_⟩
        simp only [hvis, if_true]
        exact h.passes (passes_prompt hok.oneLine hin hinert) hdone
      · refine ⟨done, ?_⟩
        simp only [hvis]
        exact h.stays hdone
  | some s =>
      by_cases hno : tab.isChoice s = true ∨ w.write s = false
      · rw [confWriteEntry_of_skipped hsym hno]
        refine ⟨done, h.stays (h.same fun t he ht => ?_)⟩
        rw [hsym, Option.some_inj] at he
        rw [← he] at ht ⊢
        refine hno.resolve_left fun hc => ?_
        rw [ht] at hc
        cases hc
      · obtain ⟨hc, hw⟩ := not_or.mp hno
        have hc := eq_false_of_ne_true hc
        have hw := eq_true_of_ne_false hw
        rw [confWriteEntry_of_symbol hsym hc hw]
        obtain ⟨hwrite, hnot⟩ := h.new hc hw
        have hs := hwritten s (written_concat.mpr (.inr ⟨hc, hwrite, hsym⟩))
        refine ⟨done ++ [s], h.symbol hok.calculated hok.oneLine
          (hok.symbols s hs) hsym hw fun t ht => ?_⟩
        have hne : s ≠ t := (ne_of_mem_of_not_mem ht hnot).symm
        have hts := hwritten t (written_concat.mpr
          (.inl ((h.members t).mp ht)))
        exact ⟨hok.exclusive s t hs hts hne,
          hok.exclusive t s hts hs hne.symm⟩

/-- The rounds of `conf_write`. -/
theorem SoFar.run {rootPrompt : List Char} {entries : List (MenuEntry S)}
    (hok : Writable tab config rootPrompt v entries write)
    (rest : List (MenuEntry S)) (hsub : ∀ m ∈ seen ++ rest, m ∈ entries)
    (h : SoFar tab config v write r0 seen done w) :
    ∃ done', SoFar tab config v write r0 (seen ++ rest) done'
      (rest.foldl (fun w menu => confWriteEntry tab config v menu w) w) := by
  induction rest generalizing seen done w with
  | nil => exact ⟨done, by rwa [List.append_nil]⟩
  | cons menu rest ih =>
      rw [List.append_cons] at hsub ⊢
      have hseen : ∀ m ∈ seen ++ [menu], m ∈ entries := fun m hm =>
        hsub m (List.mem_append_left _ hm)
      obtain ⟨done', h'⟩ := h.step hok hseen
      exact ih hsub h'

/-- What `conf_read_simple` reads from a file. -/
structure ReadsValues (tab : ConfSymbols S) (v : Values S) (write : S → Bool)
    (entries : List (MenuEntry S)) (r0 r : Reading S) : Prop where
  symbol : ∀ s, Written tab write entries s → r.values s = saved tab v s
  unset : ∀ s ∈ tab.symbols, tab.isChoice s = false →
    ¬ Written tab write entries s → r.values s = ⟨false, .no, none, none⟩
  given : ∀ cs ∈ tab.symbols, tab.isChoice cs → (r.values cs).given
  upper : ∀ cs s, tab.choice s = some cs → Written tab write entries s →
    (saved tab v s).tri ≤ (r.values cs).tri
  least : ∀ cs ∈ tab.symbols, tab.isChoice cs → (r.values cs).tri ≠ .no →
    ∃ s, tab.choice s = some cs ∧ Written tab write entries s ∧
      (saved tab v s).tri = (r.values cs).tri
  chosen : ∀ cs ∈ tab.symbols, tab.isChoice cs → ∀ s,
    (r.values cs).chosen = some s ↔ tab.choice s = some cs ∧
      Written tab write entries s ∧ (saved tab v s).tri = .yes
  others : ∀ s, s ∉ tab.symbols → r.values s = r0.values s
  warnings : r.warnings = []
  notFound : r.notFound = r0.notFound

theorem SoFar.readsValues {entries : List (MenuEntry S)}
    {rootPrompt : List Char}
    (hok : Writable tab config rootPrompt v entries write)
    (h : SoFar tab config v write r0 entries done w) :
    ReadsValues tab v write entries r0
      (readAll tab config w.lines (resetValues tab r0)) := by
  have hexcl : ∀ s ∈ done, ∀ t ∈ done, s ≠ t → Exclusive tab v s t :=
    fun s hs t ht hne => hok.exclusive s t ((h.members s).mp hs)
      ((h.members t).mp ht) hne
  refine ⟨fun s hs => ?_, fun s hs hc hnot => ?_, fun cs hcs hc => ?_,
    fun cs s hsc hs => ?_, fun cs hcs hc hno => ?_, fun cs hcs hc s => ?_,
    fun s hs => ?_, h.warnings, h.notFound⟩
  · rw [h.values]
    simp [restored, (hok.symbols s hs).mem, hs.1, (h.members s).mpr hs]
  · rw [h.values]
    simp [restored, hs, hc, mt (h.members s).mp hnot]
  · rw [h.values, restored_choice hcs hc]
  · obtain ⟨hc, hcs⟩ := tab.choiceIsChoice s cs hsc
    rw [h.values, restored_choice hcs hc]
    exact le_joined ((h.members s).mpr hs) hsc
  · rw [h.values, restored_choice hcs hc] at hno ⊢
    obtain ⟨s, hs, he⟩ := exists_of_joined hno
    obtain ⟨hdone, hsc⟩ := List.mem_filter.mp hs
    exact ⟨s, by simpa using hsc, (h.members s).mp hdone, he⟩
  · rw [h.values, restored_choice hcs hc, chosenOf_eq_some hexcl, h.members]
    tauto
  · rw [h.values]
    simp [restored, hs]

/-- **The round trip.**  `conf_write` returns, and `conf_read_simple` reads
    from what it has written the values of the symbols that were written and
    of no others, and the values of the choices; it warns about nothing and
    finds every symbol. -/
theorem conf_write_read {rootPrompt : List Char}
    {menus : Siblings (MenuEntry S)}
    (hok : Writable tab config rootPrompt v menus.nodes write)
    {fuel : Nat} (hfuel : menus.size ≤ fuel) (r0 : Reading S) :
    ∃ text, confWrite tab fuel config rootPrompt v menus write = some text ∧
      ReadsValues tab v write menus.nodes r0
        (confReadSimple tab config text r0) := by
  have hheading : Passes tab config (confWriteHeading rootPrompt) :=
    passes_heading hok.oneLine hok.root hok.rootInert
  have hstart : SoFar tab config v write r0 [] []
      { lines := confWriteHeading rootPrompt, write := write } := by
    have hread := hheading.readAll (resetValues tab r0)
    refine ⟨fun line hline => (hheading line hline).1, fun s _ => by simp,
      fun s => by simp [Written], ?_, ?_, ?_⟩
    · rw [hread]
      exact restored_nil r0
    · rw [hread]
      rfl
    · rw [hread]
      rfl
  obtain ⟨done, hend⟩ := hstart.run hok menus.nodes fun m hm => hm
  refine ⟨_, by rw [confWrite, walk_eq _ menus _ hfuel, Option.map_some], ?_⟩
  rw [confReadSimple, linesOf_unlines hend.lines]
  exact hend.readsValues hok

/-! ## The configuration of the repository -/

/-- The symbols of Kconfig and kernel/Kconfig, behind the constants: the
    choice of a platform, which has no name, `LINUX_HOST`, `VERSION`,
    `MAX_THREADS`, `DEFAULT_THREAD_STACK_SIZE` and `DEBUG_ASSERT`.  No symbol
    has the option `modules`, so that `conf_parse` takes `symbol_no`. -/
def chinixSymbols : ConfSymbols (Fin 9) where
  symbolYes := 0
  symbolMod := 1
  symbolNo := 2
  modulesSym := 2
  name := !["y", "m", "n", "", "LINUX_HOST", "VERSION", "MAX_THREADS",
    "DEFAULT_THREAD_STACK_SIZE", "DEBUG_ASSERT"]
  type := ![.unknown, .unknown, .unknown, .boolean, .boolean, .string, .int,
    .hex, .boolean]
  isConst s := s < 3
  yesName := rfl
  modName := rfl
  noName := rfl
  yesConst := rfl
  modConst := rfl
  noConst := rfl
  constType := by decide
  constName := by decide
  symbols := [3, 4, 5, 6, 7, 8]
  named s := s ≠ 3
  isChoice s := s = 3
  choice s := if s = 4 then some 3 else none
  notOther := by decide
  choiceIsChoice := by decide

/-- The defaults. -/
def chinixValues : Values (Fin 9) where
  tri := ![.yes, .mod, .no, .yes, .yes, .no, .no, .no, .no]
  val := !["y", "m", "n", "", "", "0.1", "10", "0x1000", ""]

/-- An entry about a symbol. -/
def symbolEntry (s : Fin 9) : MenuEntry (Fin 9) := ⟨some s, none, none⟩

/-- A menu. -/
def menuEntry (text : String) : MenuEntry (Fin 9) :=
  ⟨none, some ⟨text.toList, none⟩, none⟩

/-- The menus. -/
def chinixMenus : Siblings (MenuEntry (Fin 9)) :=
  .node (menuEntry "Build Setup")
    (.node (symbolEntry 3) (.node (symbolEntry 4) .null .null) .null)
    (.node (menuEntry "Kernel Configuartion")
      (.node (symbolEntry 5) .null (.node (symbolEntry 6) .null
        (.node (symbolEntry 7) .null .null)))
      (.node (menuEntry "Debug Options")
        (.node (symbolEntry 8) .null .null) .null))

theorem chinix_writable : Writable chinixSymbols "CONFIG_".toList
    "Chinix Configuration".toList chinixValues chinixMenus.nodes
    (fun _ => true) := by
  have hwritten : ∀ s, Written chinixSymbols (fun _ => true)
      chinixMenus.nodes s → s ∈ [4, 5, 6, 7, 8] := by
    unfold Written
    decide
  have hok : ∀ s ∈ [4, 5, 6, 7, 8],
      SymbolOk chinixSymbols "CONFIG_".toList chinixValues s := by
    simp only [List.forall_mem_cons]
    refine ⟨?_, ?_, ?_, ?_, ?_, fun s h => absurd h List.not_mem_nil⟩ <;>
      exact ⟨by decide, by decide, ⟨by decide, by unfold InLine; decide,
        by decide, by decide, by decide⟩, by decide,
        by unfold InLine; decide⟩
  have hprompts : ∀ menu ∈ chinixMenus.nodes, menu.sym = none →
      InLine (menuGetPrompt menu) ∧
        ¬ "CONFIG_".toList <+: menuGetPrompt menu := by
    unfold InLine
    decide
  refine ⟨⟨rfl, rfl, rfl, ?_, ?_, ?_⟩, by decide, by unfold InLine; decide,
    inert_of_not_prefix (by decide), fun s hs => hok s (hwritten s hs), ?_,
    fun menu hmenu hsym _ => ?_⟩
  · decide
  · decide
  · decide
  · intro s t _ _ hne cs hs ht
    -- the choice has one value
    have honly : ∀ s cs, chinixSymbols.choice s = some cs → s = 4 := by decide
    exact absurd ((honly s cs hs).trans (honly t cs ht).symm) hne
  · obtain ⟨hin, hprefix⟩ := hprompts menu hmenu hsym
    exact ⟨hin, inert_of_not_prefix hprefix⟩

theorem conf_write_read_chinix : ∃ text,
    confWrite chinixSymbols 9 "CONFIG_".toList "Chinix Configuration".toList
      chinixValues chinixMenus (fun _ => true) = some text ∧
    ReadsValues chinixSymbols chinixValues (fun _ => true) chinixMenus.nodes
      ⟨fun _ => ⟨false, .no, none, none⟩, 0, [], 0⟩
      (confReadSimple chinixSymbols "CONFIG_".toList text
        ⟨fun _ => ⟨false, .no, none, none⟩, 0, [], 0⟩) :=
  conf_write_read chinix_writable (by decide) _

end ChinixKconfigRoundTrip

import Mathlib.Data.List.Basic

/-! # Delimited text

    Texts over any alphabet in which some characters delimit: lines that end
    in a terminator, fields that end at the first delimiter, and strings
    between quotes in which an escape character stands before every quote and
    before every escape character.  What is written so is read back. -/

namespace DelimitedText

variable {A : Type}

-- ── Writing lines ──

/-- The text of some lines, each given without its terminator. -/
def unlines (terminator : A) (lines : List (List A)) : List A :=
  lines.flatMap fun line => line ++ [terminator]

@[simp] theorem unlines_cons (t : A) (line : List A) (lines : List (List A)) :
    unlines t (line :: lines) = line ++ t :: unlines t lines := by
  simp [unlines]

-- ── Fields ──

variable [DecidableEq A]

/-- What is before the first `c` and what is behind it. -/
def cut (c : A) : List A → Option (List A × List A)
  | [] => none
  | a :: rest =>
      if a = c then some ([], rest)
      else (cut c rest).map fun p => (a :: p.1, p.2)

theorem cut_append {c : A} {field : List A} (h : c ∉ field)
    (rest : List A) : cut c (field ++ c :: rest) = some (field, rest) := by
  induction field with
  | nil => simp [cut]
  | cons a field ih =>
      rw [List.mem_cons, not_or] at h
      obtain ⟨hne, hmem⟩ := h
      rw [List.cons_append, cut, if_neg (Ne.symm hne), ih hmem]
      rfl

theorem cut_eq_some {c : A} {l field rest : List A}
    (h : cut c l = some (field, rest)) :
    l = field ++ c :: rest ∧ c ∉ field := by
  induction l generalizing field with
  | nil => cases h
  | cons a l ih =>
      rw [cut] at h
      by_cases ha : a = c
      · rw [if_pos ha] at h
        cases h
        exact ⟨by rw [ha, List.nil_append], List.not_mem_nil⟩
      · rw [if_neg ha] at h
        obtain ⟨⟨f, r⟩, hp, he⟩ := Option.map_eq_some_iff.mp h
        cases he
        obtain ⟨rfl, hmem⟩ := ih hp
        refine ⟨rfl, fun hc => ?_⟩
        rcases List.mem_cons.mp hc with rfl | hc
        · exact ha rfl
        · exact hmem hc

-- ── Reading lines ──

/-- The lines of a text behind `line`, the characters of the current one.  A
    line keeps its terminator; the last one may lack it. -/
def linesFrom (terminator : A) : List A → List A → List (List A)
  | line, [] => if line = [] then [] else [line]
  | line, a :: rest =>
      if a = terminator then
        (line ++ [a]) :: linesFrom terminator [] rest
      else linesFrom terminator (line ++ [a]) rest

/-- The lines of a text. -/
def linesOf (terminator : A) (text : List A) : List (List A) :=
  linesFrom terminator [] text

theorem linesFrom_append {t : A} {field : List A} (h : t ∉ field)
    (line rest : List A) : linesFrom t line (field ++ t :: rest) =
      (line ++ field ++ [t]) :: linesOf t rest := by
  induction field generalizing line with
  | nil => simp [linesFrom, linesOf]
  | cons a field ih =>
      rw [List.mem_cons, not_or] at h
      obtain ⟨hne, hmem⟩ := h
      rw [List.cons_append, linesFrom, if_neg (Ne.symm hne), ih hmem]
      simp

/-- Lines without a terminator inside are read as they were written. -/
theorem linesOf_unlines {t : A} {lines : List (List A)}
    (h : ∀ line ∈ lines, t ∉ line) :
    linesOf t (unlines t lines) = lines.map fun line => line ++ [t] := by
  induction lines with
  | nil => rfl
  | cons line lines ih =>
      obtain ⟨hline, hlines⟩ := List.forall_mem_cons.mp h
      rw [unlines_cons, linesOf, linesFrom_append hline, ih hlines]
      rfl

-- ── Quoted strings ──

variable (quote mark : A)

/-- A text with the escape character `mark` before each quote and each
    escape character. -/
def escape : List A → List A
  | [] => []
  | a :: rest =>
      if a = quote ∨ a = mark then mark :: a :: escape rest
      else a :: escape rest

/-- The text up to the first quote that no escape character stands before;
    `escaped` tells whether one does before the first character. -/
def readQuoted : Bool → List A → Option (List A)
  | _, [] => none
  | true, a :: rest => (readQuoted false rest).map (a :: ·)
  | false, a :: rest =>
      if a = quote then some []
      else if a = mark then readQuoted true rest
      else (readQuoted false rest).map (a :: ·)

variable {quote mark}

/-- What is written between quotes is read back, up to the closing quote. -/
theorem readQuoted_escape (h : quote ≠ mark) (s rest : List A) :
    readQuoted quote mark false (escape quote mark s ++ quote :: rest) =
      some s := by
  induction s with
  | nil => simp [escape, readQuoted]
  | cons a s ih =>
      rw [escape]
      by_cases ha : a = quote ∨ a = mark
      · rw [if_pos ha, List.cons_append, List.cons_append, readQuoted,
          if_neg (Ne.symm h), if_pos rfl, readQuoted, ih, Option.map_some]
      · obtain ⟨hq, hm⟩ := not_or.mp ha
        rw [if_neg ha, List.cons_append, readQuoted, if_neg hq, if_neg hm, ih,
          Option.map_some]

theorem mem_of_mem_escape {c : A} {s : List A}
    (h : c ∈ escape quote mark s) : c ∈ s ∨ c = mark := by
  induction s with
  | nil => exact .inl h
  | cons a s ih =>
      rw [escape] at h
      have hs : c ∈ escape quote mark s → c ∈ a :: s ∨ c = mark := fun hc =>
        (ih hc).imp_left (List.mem_cons_of_mem a)
      split at h
      · rcases List.mem_cons.mp h with rfl | h
        · exact .inr rfl
        rcases List.mem_cons.mp h with rfl | h
        · exact .inl List.mem_cons_self
        · exact hs h
      · rcases List.mem_cons.mp h with rfl | h
        · exact .inl List.mem_cons_self
        · exact hs h

end DelimitedText

import Chinix.StringFunctions

/-! # Copying strings (libc/string.c, kernel/thread.c)

    `strcpy` copies the characters of a string and not its terminator, and
    `thread_set_name` bounds `strncpy` by the length of its source, so that
    the terminator is not copied either.  What is read back afterwards is
    right only if the byte behind the characters was zero before. -/

namespace ChinixStringCopies

open PageWalk (Mem)
open ByteStrings ChinixStringFunctions

/-! ## `strcpy` and `strcat` -/

/-- **Copying and appending**: after `strcpy` the buffer reads as `s`, after
    `strcat` as `s` and then `t`; nothing behind that is changed or read. -/
structure CopiesAndAppends (m : Mem) (dest src src' : Nat)
    (s t : List (BitVec 8)) (a a' : Access) : Prop where
  copied : ∃ bound, ∀ fuel, bound ≤ fuel →
    strcpy fuel dest src ⟨m, []⟩ = some (dest, a)
  appended : ∃ bound, ∀ fuel, bound ≤ fuel →
    strcat fuel dest src' a = some (dest, a')
  first : StringAt a.mem dest s
  both : StringAt a'.mem dest (s ++ t)
  kept : ∀ x, x < dest ∨ dest + (s.length + t.length + 1) ≤ x →
    a.mem x = m x ∧ a'.mem x = m x
  reads : ∀ x ∈ a'.reads, (src ≤ x ∧ x ≤ src + s.length) ∨
    (src' ≤ x ∧ x ≤ src' + t.length) ∨
    (dest ≤ x ∧ x ≤ dest + (s.length + t.length))

variable {m : Mem} {dest src src' : Nat} {s t : List (BitVec 8)}

/-- A copied string is terminated by what was behind it before. -/
theorem strcpy_eq (hs : StringAt m src s)
    (hapart : Apart dest s.length src (s.length + 1)) :
    ∃ a, (∀ fuel, s.length < fuel →
        strcpy fuel dest src ⟨m, []⟩ = some (dest, a)) ∧
      BytesAt a.mem dest s ∧
      (∀ x, x < dest ∨ dest + s.length ≤ x → a.mem x = m x) ∧
      a.reads = List.range' src (s.length + 1) := by
  obtain ⟨a, hloop, hbytes, hframe, hreads⟩ :=
    copyLoop_eq (a := ⟨m, []⟩) hs hapart
  refine ⟨a, fun fuel hfuel => ?_, hbytes, hframe, hreads⟩
  rw [strcpy, hloop fuel hfuel]
  rfl

/-- `strcat` behind a string. -/
theorem strcat_eq {a : Access} (hs : StringAt a.mem dest s)
    (ht : StringAt a.mem src t)
    (hapart : Apart dest (s.length + t.length + 1) src (t.length + 1)) :
    ∃ a', (∀ fuel, s.length < fuel → t.length < fuel →
        strcat fuel dest src a = some (dest, a')) ∧
      StringAt a'.mem dest (s ++ t) ∧
      (∀ x, x < dest ∨ dest + (s.length + t.length + 1) ≤ x →
        a'.mem x = a.mem x) ∧
      a'.reads = a.reads ++ List.range' dest (s.length + 1) ++
        List.range' src (t.length + 1) := by
  rw [Apart] at hapart
  obtain ⟨a₁, hlen, hmem, hreads₁⟩ := strlen_eq hs
  rw [← hmem] at ht
  have hbehind : Apart (dest + s.length) t.length src (t.length + 1) := by
    rw [Apart]
    omega
  obtain ⟨a₂, hloop, hbytes, hframe, hreads₂⟩ := copyLoop_eq ht hbehind
  refine ⟨a₂.write (dest + s.length + t.length) 0, ?_, ?_, ?_, ?_⟩
  · intro fuel hfuel hfuel'
    rw [strcat, hlen fuel hfuel]
    show (copyLoop fuel (dest + s.length) src a₁ >>= _) = _
    rw [hloop fuel hfuel']
    rfl
  · rw [stringAt_iff, List.append_assoc, bytesAt_append, bytesAt_append,
      bytesAt_cons]
    refine ⟨⟨?_, ?_, ?_, bytesAt_nil _ _⟩, ?_⟩
    · refine hs.bytes.congr fun x _ _ => ?_
      rw [← hmem, ← hframe x (by omega)]
      exact Function.update_of_ne (by omega) _ _
    · refine hbytes.congr fun x _ _ => ?_
      exact Function.update_of_ne (by omega) _ _
    · exact Function.update_self ..
    · exact fun h0 => (List.mem_append.mp h0).elim hs.nonzero ht.nonzero
  · intro x hx
    rw [← hmem, ← hframe x (by omega)]
    exact Function.update_of_ne (by omega) _ _
  · rw [← hreads₁]
    exact hreads₂

/-- **Copying and appending work exactly when** the byte behind the copied
    characters was zero before. -/
theorem copiesAndAppends_iff (hs : StringAt m src s) (ht : StringAt m src' t)
    (hapart : Apart dest (s.length + t.length + 1) src (s.length + 1))
    (hapart' : Apart dest (s.length + t.length + 1) src' (t.length + 1)) :
    (∃ a a', CopiesAndAppends m dest src src' s t a a') ↔
      m (dest + s.length) = 0 := by
  rw [Apart] at hapart hapart'
  have hcopied : Apart dest s.length src (s.length + 1) := by
    rw [Apart]
    omega
  obtain ⟨a, hcopy, hbytes, hframe, hreads⟩ := strcpy_eq hs hcopied
  have hnul := hframe (dest + s.length) (.inr (Nat.le_refl _))
  constructor
  · rintro ⟨b, b', hb⟩
    obtain ⟨bound, hbound⟩ := hb.copied
    have heq := (hbound _ (Nat.le_max_left bound (s.length + 1))).symm.trans
      (hcopy _ (Nat.le_max_right _ _))
    cases heq
    rw [← hnul, hb.first.nul]
  · intro h0
    have hs' : StringAt a.mem dest s := ⟨hbytes, hnul.trans h0, hs.nonzero⟩
    have ht' : StringAt a.mem src' t :=
      ht.congr fun x _ _ => hframe x (by omega)
    obtain ⟨a', happend, hboth, hframe', hreads'⟩ :=
      strcat_eq hs' ht' (by rw [Apart]; omega)
    refine ⟨a, a', ⟨s.length + 1, fun fuel hfuel => hcopy fuel hfuel⟩,
      ⟨s.length + t.length + 1, fun fuel hfuel =>
        happend fuel (by omega) (by omega)⟩, hs', hboth, ?_, ?_⟩
    · intro x hx
      rw [hframe' x hx, hframe x (by omega)]
      exact ⟨rfl, rfl⟩
    · intro x hx
      rw [hreads', hreads] at hx
      simp only [List.mem_append, List.mem_range'_1] at hx
      omega

/-- The strings "a" and "b", and a buffer at 4 that holds "xxx". -/
def usedBuffer : Mem := fun x => [0x61, 0, 0x62, 0, 0x78, 0x78, 0x78].getD x 0

theorem usedBuffer_first : StringAt usedBuffer 0 [0x61] := by
  rw [stringAt_cons, stringAt_nil]
  decide

theorem usedBuffer_second : StringAt usedBuffer 2 [0x62] := by
  rw [stringAt_cons, stringAt_nil]
  decide

theorem copiesAndAppends_iff_usedBuffer :
    (∃ a a', CopiesAndAppends usedBuffer 4 0 2 [0x61] [0x62] a a') ↔
      usedBuffer (4 + 1) = 0 :=
  copiesAndAppends_iff usedBuffer_first usedBuffer_second
    (.inr (by decide)) (.inr (by decide))

/-- Copying "a" over "xxx" leaves "axx", and "b" is appended to that. -/
theorem usedBuffer_unterminated : ¬ ∀ (m : Mem) (dest src src' : Nat)
    (s t : List (BitVec 8)), StringAt m src s → StringAt m src' t →
    Apart dest (s.length + t.length + 1) src (s.length + 1) →
    Apart dest (s.length + t.length + 1) src' (t.length + 1) →
    ∃ a a', CopiesAndAppends m dest src src' s t a a' := by
  intro h
  obtain ⟨a, a', hb⟩ := h usedBuffer 4 0 2 [0x61] [0x62] usedBuffer_first
    usedBuffer_second (.inr (by decide)) (.inr (by decide))
  obtain ⟨bound, hbound⟩ := hb.copied
  have hrun : strcpy (bound + 2) 4 0 ⟨usedBuffer, []⟩ =
      some (4, ⟨Function.update usedBuffer 4 0x61, [0, 1]⟩) := rfl
  have heq := (hbound _ (Nat.le_add_right bound 2)).symm.trans hrun
  cases heq
  have hnul := hb.first.nul
  revert hnul
  decide

/-! ## `thread_set_name` -/

/-- `TREAD_NAME_LEN`. -/
def treadNameLen : Nat := 31

/-- `thread_set_name`, with the address of the current thread's name for that
    thread.  The lock is as it was when the function returns. -/
def threadSetName (fuel field name : Nat) (m : Mem) : Option Mem := do
  let (n, a) ← strlen fuel name ⟨m, []⟩
  return (strncpy field name n a).2.mem

/-- **Setting a name**: the field reads as the name, cut to its length, and
    nothing outside of it is changed. -/
structure SetsName (m : Mem) (field name : Nat) (s : List (BitVec 8))
    (m' : Mem) : Prop where
  returns : ∃ bound, ∀ fuel, bound ≤ fuel →
    threadSetName fuel field name m = some m'
  reads : StringAt m' field (s.take treadNameLen)
  kept : ∀ x, x < field ∨ field + (treadNameLen + 1) ≤ x → m' x = m x

/-- The character that is copied to a place of the field.  A name that begins
    below the field and reaches into it is overwritten while it is read. -/
def copiedFrom (field name i : Nat) : Nat :=
  if name < field then i % (field - name) else i

/-- The memory when `k` characters have been copied. -/
def namePartly (m : Mem) (field name k : Nat) : Mem := fun x =>
  if field ≤ x ∧ x < field + k then
    m (name + copiedFrom field name (x - field))
  else m x

variable {field name k r : Nat}

theorem copiedFrom_le (field name i : Nat) : copiedFrom field name i ≤ i := by
  rw [copiedFrom]
  split
  · exact Nat.mod_le _ _
  · exact Nat.le_refl _

/-- The next character that is read. -/
theorem namePartly_next (m : Mem) (field name k : Nat) :
    namePartly m field name k (name + k) =
      m (name + copiedFrom field name k) := by
  rw [namePartly]
  split
  · -- one that was copied before
    rename_i hin
    have hmod : k % (field - name) = (k - (field - name)) % (field - name) :=
      Nat.mod_eq_sub_mod (by omega)
    rw [copiedFrom, if_pos (by omega), copiedFrom, if_pos (by omega), hmod]
    congr 3
    omega
  · rw [copiedFrom]
    split
    · rw [Nat.mod_eq_of_lt (by omega)]
    · rfl

theorem namePartly_succ (m : Mem) (field name k : Nat) :
    Function.update (namePartly m field name k) (field + k)
        (m (name + copiedFrom field name k)) =
      namePartly m field name (k + 1) := by
  funext x
  by_cases hx : x = field + k
  · subst hx
    rw [Function.update_self, namePartly, if_pos (by omega),
      Nat.add_sub_cancel_left]
  · rw [Function.update_of_ne hx, namePartly, namePartly]
    split
    · rw [if_pos (by omega)]
    · rw [if_neg (by omega)]

/-- The loop of `strncpy` copies as many characters as the name has. -/
theorem strncpyLoop_eq (hs : StringAt m name s) {a : Access}
    (hk : k + r = s.length) (ha : a.mem = namePartly m field name k) :
    (strncpyLoop r (field + k) (name + k) a).mem =
      namePartly m field name s.length := by
  induction r generalizing k a with
  | zero =>
      rw [← hk]
      exact ha
  | succ r ih =>
      have hread : a.mem (name + k) = m (name + copiedFrom field name k) := by
        rw [ha, namePartly_next]
      have hne : a.mem (name + k) ≠ 0 := by
        rw [hread]
        have := copiedFrom_le field name k
        exact hs.ne_zero (by omega)
      have hgo := ih (k := k + 1)
        (a := (a.read (name + k)).2.write (field + k) (a.mem (name + k)))
        (by omega) (by
          rw [← namePartly_succ, ← hread, ← ha]
          rfl)
      exact (congrArg Access.mem (if_pos hne)).trans hgo

/-- What `thread_set_name` does. -/
theorem threadSetName_eq (field : Nat) (hs : StringAt m name s) {fuel : Nat}
    (hfuel : s.length < fuel) :
    threadSetName fuel field name m =
      some (namePartly m field name s.length) := by
  obtain ⟨a, hlen, hmem, -⟩ := strlen_eq (a := ⟨m, []⟩) hs
  have hpartly : a.mem = namePartly m field name 0 := by
    rw [hmem]
    funext x
    rw [namePartly, if_neg (by omega)]
  rw [threadSetName, hlen fuel hfuel]
  exact congrArg some (strncpyLoop_eq (k := 0) hs (Nat.zero_add _) hpartly)

theorem namePartly_at (m : Mem) (field name : Nat) {i : Nat} (hi : i < k) :
    namePartly m field name k (field + i) =
      m (name + copiedFrom field name i) := by
  rw [namePartly, if_pos (by omega), Nat.add_sub_cancel_left]

/-- A name that reaches into the field from below is read back if and only if
    it repeats itself from the field on. -/
theorem copiedFrom_iff (hs : StringAt m name s) :
    (∀ i < s.length, m (name + copiedFrom field name i) = m (name + i)) ↔
      (name < field → s.drop (field - name) <+: s) := by
  constructor
  · intro h hlt
    rw [List.prefix_iff_eq_take]
    refine List.ext_getElem (by simp) fun i hi hi' => ?_
    rw [List.length_drop] at hi
    have hback := h (field - name + i) (by omega)
    rw [copiedFrom, if_pos hlt, Nat.add_mod_left] at hback
    have hfront := h i (by omega)
    rw [copiedFrom, if_pos hlt, hback] at hfront
    rw [List.getElem_drop, List.getElem_take, ← hs.bytes _ (by omega),
      ← hs.bytes _ (by omega), hfront]
  · intro h i hi
    by_cases hlt : name < field
    · -- along the distance of the field from the name
      rw [copiedFrom, if_pos hlt]
      induction i using Nat.strongRecOn with
      | ind i ih =>
          by_cases hsmall : i < field - name
          · rw [Nat.mod_eq_of_lt hsmall]
          · have hrest : i - (field - name) < (s.drop (field - name)).length := by
              rw [List.length_drop]
              omega
            have hprefix := (h hlt).getElem hrest
            rw [List.getElem_drop] at hprefix
            rw [Nat.mod_eq_sub_mod (by omega), ih _ (by omega) (by omega),
              hs.bytes _ (by omega), hs.bytes _ hi, ← hprefix]
            congr 1
            omega
    · rw [copiedFrom, if_neg hlt]

/-- **A name is set exactly when** it fits the field, the byte behind its
    characters was zero before, and, should it begin below the field and reach
    into it, it repeats itself from there on. -/
theorem setsName_iff (field : Nat) (hs : StringAt m name s) :
    (∃ m', SetsName m field name s m') ↔
      s.length ≤ treadNameLen ∧ m (field + s.length) = 0 ∧
        (name < field → s.drop (field - name) <+: s) := by
  rw [← copiedFrom_iff hs]
  have hbehind : namePartly m field name s.length (field + s.length) =
      m (field + s.length) := by
    rw [namePartly, if_neg (by omega)]
  constructor
  · rintro ⟨m', hm'⟩
    obtain ⟨bound, hbound⟩ := hm'.returns
    have heq := (hbound _ (Nat.le_max_left bound (s.length + 1))).symm.trans
      (threadSetName_eq field hs (Nat.le_max_right _ _))
    cases heq
    have hlen : s.length ≤ treadNameLen := by
      by_contra hlong
      -- the place of the terminator holds a character
      have hnul := hm'.reads.nul
      rw [List.length_take, Nat.min_eq_left (by omega),
        namePartly_at m field name (by omega)] at hnul
      have := copiedFrom_le field name treadNameLen
      exact hs.ne_zero (by omega) hnul
    have hreads := hm'.reads
    rw [List.take_of_length_le hlen] at hreads
    refine ⟨hlen, hbehind ▸ hreads.nul, fun i hi => ?_⟩
    rw [← namePartly_at m field name hi, hreads.bytes i hi, hs.bytes i hi]
  · rintro ⟨hlen, hnul, hcopied⟩
    refine ⟨_, ⟨s.length + 1, fun fuel hfuel =>
      threadSetName_eq field hs hfuel⟩, ?_, ?_⟩
    · rw [List.take_of_length_le hlen]
      refine ⟨fun i hi => ?_, hbehind.trans hnul, hs.nonzero⟩
      rw [namePartly_at m field name hi, hcopied i hi, hs.bytes i hi]
    · intro x hx
      rw [namePartly, if_neg (by omega)]

/-- The boot thread's name at 0, and the literal "idle" at 32. -/
def bootNames : Mem := fun x =>
  if x < 32 then
    [0x62, 0x6f, 0x6f, 0x74, 0x20, 0x74, 0x68, 0x72, 0x65, 0x61, 0x64].getD x 0
  else [0x69, 0x64, 0x6c, 0x65].getD (x - 32) 0

theorem bootNames_idle : StringAt bootNames 32 [0x69, 0x64, 0x6c, 0x65] := by
  simp only [stringAt_cons, stringAt_nil]
  decide

theorem setsName_iff_bootNames :
    (∃ m', SetsName bootNames 0 32 [0x69, 0x64, 0x6c, 0x65] m') ↔
      [(0x69 : BitVec 8), 0x64, 0x6c, 0x65].length ≤ treadNameLen ∧
        bootNames (0 + [(0x69 : BitVec 8), 0x64, 0x6c, 0x65].length) = 0 ∧
        (32 < 0 → [(0x69 : BitVec 8), 0x64, 0x6c, 0x65].drop (0 - 32) <+:
          [0x69, 0x64, 0x6c, 0x65]) :=
  setsName_iff 0 bootNames_idle

/-- The boot thread becomes "idle thread", not "idle". -/
theorem idle_thread_named : ¬ ∀ (m : Mem) (field name : Nat)
    (s : List (BitVec 8)), StringAt m name s →
    ∃ m', SetsName m field name s m' := by
  intro h
  obtain ⟨m', hm'⟩ := h bootNames 0 32 _ bootNames_idle
  obtain ⟨bound, hbound⟩ := hm'.returns
  have hrun : threadSetName (bound + 5) 0 32 bootNames =
      some (strncpy 0 32 4 ⟨bootNames, [32, 33, 34, 35, 36]⟩).2.mem := rfl
  have heq := (hbound _ (Nat.le_add_right bound 5)).symm.trans hrun
  cases heq
  have hnul := hm'.reads.nul
  revert hnul
  decide

end ChinixStringCopies

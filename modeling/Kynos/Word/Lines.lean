import Mathlib.Data.List.Infix

/-!
# Lines

A word is cut into lines at every occurrence of one fixed pair of different
letters. Occurrences of such a pair never overlap, so the lines of a word and
of what follows a pair are read separately, and joining the lines gives the
word back. Or a line ends at a carriage return, at a line feed, or at the one
followed by the other, which is a single end: the lines of a word hold neither
letter, a word written line by line is cut back into its lines, and encoding the
letters of a word encodes its lines.
-/

namespace Kynos.Word

universe u

variable {α : Type u}

/-- A letter more on the first line. -/
def onFirst (letter : α) : List (List α) → List (List α)
  | [] => [[letter]]
  | line :: rest => (letter :: line) :: rest

section Lines

variable [DecidableEq α]

/-- The lines of a word: what stands between its occurrences of the pair. -/
def lines (first second : α) : List α → List (List α)
  | [] => [[]]
  | [letter] => [[letter]]
  | letter :: next :: rest =>
      if letter = first ∧ next = second then
        [] :: lines first second rest
      else
        onFirst letter (lines first second (next :: rest))

variable {first second : α}

theorem lines_ne_nil (first second : α) (word : List α) : lines first second word ≠ [] := by
  fun_induction lines first second word with
  | case1 => simp
  | case2 letter => simp
  | case3 letter next rest pair ih => simp
  | case4 letter next rest other ih =>
      cases split : lines first second (next :: rest) <;> simp [onFirst]

omit [DecidableEq α] in
theorem onFirst_append {lines : List (List α)} (nonempty : lines ≠ []) (letter : α)
    (more : List (List α)) : onFirst letter (lines ++ more) = onFirst letter lines ++ more := by
  cases lines with
  | nil => contradiction
  | cons line rest => rfl

/-- What stands before a pair and what follows it have their own lines. -/
theorem lines_append (different : first ≠ second) (word rest : List α) :
    lines first second (word ++ first :: second :: rest) =
      lines first second word ++ lines first second rest := by
  fun_induction lines first second word with
  | case1 => simp [lines]
  | case2 letter =>
      have notPair : ¬ (letter = first ∧ first = second) := fun pair => different pair.2
      simp [lines, notPair, onFirst]
  | case3 letter next word pair ih =>
      obtain ⟨rfl, rfl⟩ := pair
      simp [lines, ih]
  | case4 letter next word other ih =>
      have nonempty := lines_ne_nil first second (next :: word)
      rw [List.cons_append, List.cons_append, lines, if_neg other, ← List.cons_append, ih,
        onFirst_append nonempty]

/-- A word without the second letter is one line. -/
theorem lines_of_notMem {word : List α} (plain : second ∉ word) :
    lines first second word = [word] := by
  fun_induction lines first second word with
  | case1 => rfl
  | case2 letter => rfl
  | case3 letter next rest pair ih =>
      obtain ⟨rfl, rfl⟩ := pair
      simp at plain
  | case4 letter next rest other ih =>
      rw [ih fun member => plain (List.mem_cons_of_mem _ member), onFirst]

/-- A line of a word stands in it. -/
theorem isInfix_of_mem_lines {word line : List α} (member : line ∈ lines first second word) :
    line <:+: word := by
  have firstLine : ∀ word line : List α, (lines first second word).head? = some line →
      line <+: word := by
    intro word
    fun_induction lines first second word with
    | case1 => simp
    | case2 letter => simp
    | case3 letter next rest pair ih => simp
    | case4 letter next rest other ih =>
        intro line head
        cases split : lines first second (next :: rest) with
        | nil => exact absurd split (lines_ne_nil _ _ _)
        | cons start more =>
            rw [split, onFirst, List.head?_cons, Option.some.injEq] at head
            subst head
            exact List.cons_prefix_cons.mpr ⟨rfl, ih start (by rw [split]; rfl)⟩
  fun_induction lines first second word with
  | case1 => simp_all
  | case2 letter => simp_all
  | case3 letter next rest pair ih =>
      rcases List.mem_cons.mp member with rfl | member
      · exact List.nil_infix
      · exact ((ih member).trans (List.suffix_cons _ _).isInfix).trans (List.suffix_cons _ _).isInfix
  | case4 letter next rest other ih =>
      cases split : lines first second (next :: rest) with
      | nil => exact absurd split (lines_ne_nil _ _ _)
      | cons start more =>
          rw [split] at member ih
          rcases List.mem_cons.mp member with rfl | member
          · have head := firstLine (next :: rest) start (by rw [split]; rfl)
            exact (List.cons_prefix_cons.mpr ⟨rfl, head⟩).isInfix
          · exact (ih (List.mem_cons_of_mem _ member)).trans (List.suffix_cons _ _).isInfix

end Lines

/-- Lines put together with the pair between them. -/
def unlines (first second : α) : List (List α) → List α
  | [] => []
  | [line] => line
  | line :: rest => line ++ first :: second :: unlines first second rest

theorem unlines_onFirst {first second : α} {lines : List (List α)} (nonempty : lines ≠ [])
    (letter : α) :
    unlines first second (onFirst letter lines) = letter :: unlines first second lines := by
  match lines with
  | [] => contradiction
  | [line] => rfl
  | line :: next :: rest => rfl

/-- The lines of a word put together are the word. -/
theorem unlines_lines [DecidableEq α] (first second : α) (word : List α) :
    unlines first second (lines first second word) = word := by
  fun_induction lines first second word with
  | case1 => rfl
  | case2 letter => rfl
  | case3 letter next rest pair ih =>
      obtain ⟨rfl, rfl⟩ := pair
      cases split : lines letter next rest with
      | nil => exact absurd split (lines_ne_nil _ _ _)
      | cons line more =>
          rw [split] at ih
          rw [unlines, ih]
          · rfl
          · simp
  | case4 letter next rest other ih =>
      rw [unlines_onFirst (lines_ne_nil _ _ _), ih]

end Kynos.Word

namespace Kynos.Word

universe u v

variable {α : Type u} {β : Type v}

section Breaks

variable [DecidableEq α]

/-- The lines of a word, where `cr`, `lf` and `cr` followed by `lf` end one. -/
def breaks (cr lf : α) : List α → List (List α)
  | [] => [[]]
  | [letter] => if letter = cr ∨ letter = lf then [[], []] else [[letter]]
  | letter :: next :: rest =>
      if letter = cr ∧ next = lf then
        [] :: breaks cr lf rest
      else if letter = cr ∨ letter = lf then
        [] :: breaks cr lf (next :: rest)
      else
        onFirst letter (breaks cr lf (next :: rest))

/-- A word with `lf` for each of its line ends. -/
def lineFed (cr lf : α) : List α → List α
  | [] => []
  | [letter] => if letter = cr then [lf] else [letter]
  | letter :: next :: rest =>
      if letter = cr ∧ next = lf then
        lf :: lineFed cr lf rest
      else if letter = cr then
        lf :: lineFed cr lf (next :: rest)
      else
        letter :: lineFed cr lf (next :: rest)

variable {cr lf : α}

/-- A word with no line end. -/
def Unbroken (cr lf : α) (word : List α) : Prop :=
  cr ∉ word ∧ lf ∉ word

theorem breaks_ne_nil (cr lf : α) (word : List α) : breaks cr lf word ≠ [] := by
  fun_induction breaks cr lf word with
  | case1 => simp
  | case2 letter ends => simp
  | case3 letter plain => simp
  | case4 letter next rest pair ih => simp
  | case5 letter next rest single ends ih => simp
  | case6 letter next rest single plain ih =>
      cases cut : breaks cr lf (next :: rest) <;> simp [onFirst]

theorem breaks_cons_lf (different : cr ≠ lf) (word : List α) :
    breaks cr lf (lf :: word) = [] :: breaks cr lf word := by
  cases word with
  | nil => simp [breaks]
  | cons next rest => simp [breaks, Ne.symm different]

theorem breaks_cons_plain {letter : α} (notCr : letter ≠ cr) (notLf : letter ≠ lf)
    (word : List α) : breaks cr lf (letter :: word) = onFirst letter (breaks cr lf word) := by
  cases word with
  | nil => simp [breaks, notCr, notLf, onFirst]
  | cons next rest => simp [breaks, notCr, notLf]

theorem breaks_cr_lf (word : List α) :
    breaks cr lf (cr :: lf :: word) = [] :: breaks cr lf word := by
  simp [breaks]

theorem breaks_cons_cr {word : List α} (alone : word.head? ≠ some lf) :
    breaks cr lf (cr :: word) = [] :: breaks cr lf word := by
  cases word with
  | nil => simp [breaks]
  | cons next rest =>
      have notLf : next ≠ lf := by simpa using alone
      simp [breaks, notLf]

/-- Letters that end no line stand on the first line of what follows. -/
theorem breaks_append {line : List α} (unbroken : Unbroken cr lf line) (word : List α) :
    breaks cr lf (line ++ word) = (breaks cr lf word).modifyHead (line ++ ·) := by
  induction line with
  | nil =>
      rw [List.nil_append]
      cases breaks cr lf word <;> rfl
  | cons letter line ih =>
      obtain ⟨noCr, noLf⟩ := unbroken
      simp only [List.mem_cons, not_or] at noCr noLf
      rw [List.cons_append, breaks_cons_plain (Ne.symm noCr.1) (Ne.symm noLf.1), ih ⟨noCr.2, noLf.2⟩]
      cases cut : breaks cr lf word with
      | nil => exact absurd cut (breaks_ne_nil _ _ _)
      | cons first rest => rfl

/-- A line and its end are cut off the word. -/
theorem breaks_line (different : cr ≠ lf) {line : List α} (unbroken : Unbroken cr lf line)
    (word : List α) : breaks cr lf (line ++ lf :: word) = line :: breaks cr lf word := by
  rw [breaks_append unbroken, breaks_cons_lf different, List.modifyHead_cons, List.append_nil]

/-- Lines written one by one are cut back. -/
theorem breaks_written (different : cr ≠ lf) {written : List (List α)}
    (unbroken : ∀ line ∈ written, Unbroken cr lf line) (word : List α) :
    breaks cr lf (written.flatMap (· ++ [lf]) ++ word) = written ++ breaks cr lf word := by
  induction written with
  | nil => rfl
  | cons line rest ih =>
      have tail := ih fun other member => unbroken other (List.mem_cons_of_mem _ member)
      rw [List.flatMap_cons, List.append_assoc, List.append_assoc, List.singleton_append,
        breaks_line different (unbroken line List.mem_cons_self), tail, List.cons_append]

/-- A word with no line end is one line. -/
theorem breaks_of_unbroken {word : List α} (unbroken : Unbroken cr lf word) :
    breaks cr lf word = [word] := by
  have alone : breaks cr lf (word ++ []) = (breaks cr lf []).modifyHead (word ++ ·) :=
    breaks_append unbroken []
  rwa [List.append_nil, breaks, List.modifyHead_cons, List.append_nil] at alone

/-- No line holds a line end. -/
theorem unbroken_of_mem_breaks {word line : List α} (member : line ∈ breaks cr lf word) :
    Unbroken cr lf line := by
  fun_induction breaks cr lf word generalizing line with
  | case1 => simp_all [Unbroken]
  | case2 letter ends => simp_all [Unbroken]
  | case3 letter plain =>
      rw [not_or] at plain
      rw [List.mem_singleton] at member
      subst member
      simp [Unbroken, Ne.symm plain.1, Ne.symm plain.2]
  | case4 letter next rest pair ih =>
      rcases List.mem_cons.mp member with rfl | member
      · simp [Unbroken]
      · exact ih member
  | case5 letter next rest single ends ih =>
      rcases List.mem_cons.mp member with rfl | member
      · simp [Unbroken]
      · exact ih member
  | case6 letter next rest single plain ih =>
      rw [not_or] at plain
      cases cut : breaks cr lf (next :: rest) with
      | nil => exact absurd cut (breaks_ne_nil _ _ _)
      | cons first more =>
          rw [cut] at member ih
          rw [onFirst, List.mem_cons] at member
          rcases member with rfl | member
          · have inner := @ih first List.mem_cons_self
            simp [Unbroken, Ne.symm plain.1, Ne.symm plain.2, inner.1, inner.2]
          · exact ih (List.mem_cons_of_mem _ member)

/-- The lines of a word, joined, are the word with every line end read as
`lf`. -/
theorem intercalate_breaks (word : List α) :
    [lf].intercalate (breaks cr lf word) = lineFed cr lf word := by
  have joined : ∀ {lines : List (List α)}, lines ≠ [] →
      [lf].intercalate ([] :: lines) = lf :: [lf].intercalate lines := by
    intro lines nonempty
    rw [List.intercalate_cons_of_ne_nil nonempty]
    rfl
  fun_induction breaks cr lf word with
  | case1 => rfl
  | case2 letter ends =>
      rcases ends with rfl | rfl
      · simp [lineFed, joined]
      · simp [lineFed, joined]
  | case3 letter plain =>
      rw [not_or] at plain
      simp [lineFed, plain.1]
  | case4 letter next rest pair ih =>
      rw [joined (breaks_ne_nil _ _ _), ih, lineFed, if_pos pair]
  | case5 letter next rest single ends ih =>
      rw [joined (breaks_ne_nil _ _ _), ih, lineFed, if_neg single]
      rcases ends with rfl | rfl
      · rw [if_pos rfl]
      · split <;> rfl
  | case6 letter next rest single plain ih =>
      rw [not_or] at plain
      rw [lineFed, if_neg single, if_neg plain.1, ← ih]
      cases cut : breaks cr lf (next :: rest) with
      | nil => exact absurd cut (breaks_ne_nil _ _ _)
      | cons first more =>
          cases more with
          | nil => simp [onFirst]
          | cons second more => simp [onFirst, List.intercalate_cons_of_ne_nil]

end Breaks

/-! ## Encoded letters -/

/-- An encoding of letters in which the two line ends are letters of their own. -/
structure KeepsBreaks (encode : α → List β) (cr lf : α) (cr' lf' : β) : Prop where
  encode_cr : encode cr = [cr']
  encode_lf : encode lf = [lf']
  nonempty : ∀ letter, encode letter ≠ []
  unbroken : ∀ letter, letter ≠ cr → letter ≠ lf → Unbroken cr' lf' (encode letter)

variable [DecidableEq α] [DecidableEq β] {encode : α → List β} {cr lf : α} {cr' lf' : β}

omit [DecidableEq β] in
/-- Only a line feed is encoded with a line feed first. -/
theorem KeepsBreaks.head?_ne (keeps : KeepsBreaks encode cr lf cr' lf') (different : cr' ≠ lf')
    {letter : α} (notLf : letter ≠ lf) (word : List α) :
    ((letter :: word).flatMap encode).head? ≠ some lf' := by
  rw [List.flatMap_cons, List.head?_append_of_ne_nil _ (keeps.nonempty letter)]
  intro head
  by_cases isCr : letter = cr
  · rw [isCr, keeps.encode_cr, List.head?_cons, Option.some.injEq] at head
    exact different head
  · exact (keeps.unbroken letter isCr notLf).2 (List.mem_of_mem_head? head)

/-- Encoding the letters of a word encodes its lines. -/
theorem breaks_flatMap (keeps : KeepsBreaks encode cr lf cr' lf') (different : cr' ≠ lf')
    (word : List α) :
    breaks cr' lf' (word.flatMap encode) = (breaks cr lf word).map (·.flatMap encode) := by
  fun_induction breaks cr lf word with
  | case1 => rfl
  | case2 letter ends =>
      rw [List.flatMap_singleton]
      rcases ends with rfl | rfl
      · simp [keeps.encode_cr, breaks]
      · simp [keeps.encode_lf, breaks]
  | case3 letter plain =>
      rw [not_or] at plain
      rw [List.flatMap_singleton, breaks_of_unbroken (keeps.unbroken letter plain.1 plain.2),
        List.map_singleton, List.flatMap_singleton]
  | case4 letter next rest pair ih =>
      obtain ⟨rfl, rfl⟩ := pair
      rw [List.flatMap_cons, List.flatMap_cons, keeps.encode_cr, keeps.encode_lf,
        List.singleton_append, List.singleton_append, breaks_cr_lf, ih]
      rfl
  | case5 letter next rest single ends ih =>
      rw [List.flatMap_cons, List.map_cons, ← ih]
      by_cases isCr : letter = cr
      · subst letter
        have notLf : next ≠ lf := fun isLf => single ⟨rfl, isLf⟩
        rw [keeps.encode_cr, List.singleton_append,
          breaks_cons_cr (keeps.head?_ne different notLf rest)]
        rfl
      · obtain rfl := ends.resolve_left isCr
        rw [keeps.encode_lf, List.singleton_append, breaks_cons_lf different]
        rfl
  | case6 letter next rest single plain ih =>
      rw [not_or] at plain
      rw [List.flatMap_cons, breaks_append (keeps.unbroken letter plain.1 plain.2), ih]
      cases cut : breaks cr lf (next :: rest) with
      | nil => exact absurd cut (breaks_ne_nil _ _ _)
      | cons first more => rfl

end Kynos.Word

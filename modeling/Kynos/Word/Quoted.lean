import Kynos.Word.Padded
import Kynos.Word.Scan
import Mathlib.Data.List.Infix
import Mathlib.Tactic.Common

/-!
# Cutting a word at separators outside quotes

A field written by several hands is read backwards: each hand appends to what
is already there, so only the end of the word can be relied on. The reader
tracks quoted strings from right to left, where an escape is visible only in
the letters further left. A word that is *closed*, made of plain letters and of
well-formed quoted strings, is one piece whatever precedes it.

The reader from the left tracks whether it is within quotes and whether the next
letter is escaped. Closed words are cut where they were joined, and blanks at the
ends of a word change no piece but for the blanks at its ends.
-/

namespace Kynos.Word

universe u

/-- The letters a quoted string is written with: its quote and its escape; and
the separator it hides. -/
structure Quoting (α : Type u) where
  quote : α
  escape : α
  separator : α
  quote_ne_escape : quote ≠ escape
  separator_ne_quote : separator ≠ quote
  separator_ne_escape : separator ≠ escape

namespace Quoting

variable {α : Type u} [DecidableEq α] (quoting : Quoting α)

/-! ## The reader -/

/-- How many escapes stand at the right end of a reversed word. -/
def escapes (reversed : List α) : Nat :=
  (reversed.takeWhile (· = quoting.escape)).length

/-- Whether a letter leaves the reader within quotes, `reversed` being what is
left of it: within quotes, an odd run of escapes keeps a quote inside its
string. -/
def quotedAfter (quoted : Bool) (letter : α) (reversed : List α) : Bool :=
  if letter = quoting.quote then
    quoted != (!quoted || quoting.escapes reversed % 2 == 0)
  else
    quoted

/-- The pieces of a reversed word, last piece first, `piece` being what was
already read of the first of them. -/
def cut (quoted : Bool) (piece : List α) : List α → List (List α)
  | [] => [piece]
  | letter :: reversed =>
      let quoted := quoting.quotedAfter quoted letter reversed
      if !quoted ∧ letter = quoting.separator then
        piece :: cut false [] reversed
      else
        cut quoted (letter :: piece) reversed

/-- The pieces of a word between separators outside quotes, last piece first. -/
def rsplit (word : List α) : List (List α) :=
  quoting.cut false [] word.reverse

/-! ## Closed words -/

/-- What stands within quotes: letters other than the quote and the escape, and
escaped letters. -/
inductive Content : List α → Prop where
  | nil : Content []
  | letter {letter : α} {content : List α} (notQuote : letter ≠ quoting.quote)
      (notEscape : letter ≠ quoting.escape) (rest : Content content) :
      Content (letter :: content)
  | escaped {letter : α} {content : List α} (rest : Content content) :
      Content (quoting.escape :: letter :: content)

/-- Plain letters and quoted strings. -/
inductive Closed : List α → Prop where
  | nil : Closed []
  | letter {letter : α} {word : List α} (notQuote : letter ≠ quoting.quote)
      (notEscape : letter ≠ quoting.escape) (notSeparator : letter ≠ quoting.separator)
      (rest : Closed word) : Closed (letter :: word)
  | quoted {content word : List α} (within : quoting.Content content) (rest : Closed word) :
      Closed (quoting.quote :: content ++ quoting.quote :: word)

variable {quoting}

omit [DecidableEq α] in
theorem Closed.of_forall {word : List α} (plain : ∀ letter ∈ word,
    letter ≠ quoting.quote ∧ letter ≠ quoting.escape ∧ letter ≠ quoting.separator) :
    quoting.Closed word := by
  induction word with
  | nil => exact .nil
  | cons letter rest ih =>
      obtain ⟨notQuote, notEscape, notSeparator⟩ := plain letter List.mem_cons_self
      exact .letter notQuote notEscape notSeparator
        (ih fun other member => plain other (List.mem_cons_of_mem _ member))

omit [DecidableEq α] in
theorem Closed.append {word other : List α} (closed : quoting.Closed word)
    (otherClosed : quoting.Closed other) : quoting.Closed (word ++ other) := by
  induction closed with
  | nil => exact otherClosed
  | letter notQuote notEscape notSeparator _ ih =>
      exact .letter notQuote notEscape notSeparator ih
  | quoted within _ ih =>
      rw [List.append_assoc]
      exact .quoted within ih

theorem escapes_cons_of_ne {letter : α} (notEscape : letter ≠ quoting.escape)
    (reversed : List α) : quoting.escapes (letter :: reversed) = 0 := by
  simp [escapes, notEscape]

theorem escapes_cons_escape (reversed : List α) :
    quoting.escapes (quoting.escape :: reversed) = quoting.escapes reversed + 1 := by
  simp [escapes]

theorem cut_cons_of_ne {letter : α} (notQuote : letter ≠ quoting.quote) (piece reversed : List α) :
    quoting.cut true piece (letter :: reversed) = quoting.cut true (letter :: piece) reversed := by
  simp [cut, quotedAfter, notQuote]

/-- Content is read without leaving the quotes, where an even run of escapes
stands before it. -/
theorem cut_content {content : List α} (within : quoting.Content content) (piece left : List α)
    (even : quoting.escapes left % 2 = 0) :
    quoting.cut true piece (content.reverse ++ left) =
      quoting.cut true (content ++ piece) left := by
  induction within generalizing piece left with
  | nil => rfl
  | @letter letter content notQuote notEscape _ ih =>
      have evenHere : quoting.escapes (letter :: left) % 2 = 0 := by
        rw [escapes_cons_of_ne notEscape]
      rw [List.reverse_cons, List.append_assoc, List.singleton_append, ih _ _ evenHere,
        cut_cons_of_ne notQuote]
      rfl
  | @escaped letter content _ ih =>
      have escapeNotQuote : quoting.escape ≠ quoting.quote := quoting.quote_ne_escape.symm
      have evenHere : quoting.escapes (letter :: quoting.escape :: left) % 2 = 0 := by
        by_cases isEscape : letter = quoting.escape
        · rw [isEscape, escapes_cons_escape, escapes_cons_escape]
          omega
        · rw [escapes_cons_of_ne isEscape]
      have kept : quoting.quotedAfter true letter (quoting.escape :: left) = true := by
        have odd : (quoting.escapes left + 1) % 2 = 1 := by omega
        simp [quotedAfter, escapes_cons_escape, odd]
      have read : quoting.cut true (content ++ piece) (letter :: quoting.escape :: left) =
          quoting.cut true (letter :: (content ++ piece)) (quoting.escape :: left) := by
        simp [cut, kept]
      rw [List.reverse_cons, List.reverse_cons, List.append_assoc, List.append_assoc,
        List.singleton_append, List.singleton_append, ih _ _ evenHere, read,
        cut_cons_of_ne escapeNotQuote]
      rfl

/-- A closed word is one piece, unless an escape stands before it. -/
theorem cut_closed {word : List α} (closed : quoting.Closed word) (piece left : List α)
    (notEscaped : left.head? ≠ some quoting.escape) :
    quoting.cut false piece (word.reverse ++ left) = quoting.cut false (word ++ piece) left := by
  induction closed generalizing piece left with
  | nil => rfl
  | @letter letter word notQuote notEscape notSeparator _ ih =>
      have read : quoting.cut false (word ++ piece) (letter :: left) =
          quoting.cut false (letter :: (word ++ piece)) left := by
        simp [cut, quotedAfter, notQuote, notSeparator]
      rw [List.reverse_cons, List.append_assoc, List.singleton_append,
        ih _ _ (by simpa using notEscape), read]
      rfl
  | @quoted content word within _ ih =>
      have quoteNotEscape : quoting.quote ≠ quoting.escape := quoting.quote_ne_escape
      have closing : quoting.cut false (word ++ piece)
          (quoting.quote :: (content.reverse ++ quoting.quote :: left)) =
          quoting.cut true (quoting.quote :: (word ++ piece))
            (content.reverse ++ quoting.quote :: left) := by
        simp [cut, quotedAfter]
      have noEscape : quoting.escapes left = 0 := by
        cases left with
        | nil => rfl
        | cons letter left =>
            exact escapes_cons_of_ne (by simpa using notEscaped) left
      have opening : quoting.cut true (content ++ quoting.quote :: (word ++ piece))
          (quoting.quote :: left) =
          quoting.cut false (quoting.quote :: (content ++ quoting.quote :: (word ++ piece)))
            left := by
        simp [cut, quotedAfter, noEscape, quoting.separator_ne_quote.symm]
      have even : quoting.escapes (quoting.quote :: left) % 2 = 0 := by
        rw [escapes_cons_of_ne quoteNotEscape]
      calc
        quoting.cut false piece
            ((quoting.quote :: content ++ quoting.quote :: word).reverse ++ left) =
          quoting.cut false piece (word.reverse ++
            (quoting.quote :: (content.reverse ++ quoting.quote :: left))) := by
            simp
        _ = quoting.cut false (word ++ piece)
            (quoting.quote :: (content.reverse ++ quoting.quote :: left)) :=
            ih _ _ (by simpa using quoteNotEscape)
        _ = quoting.cut true (content ++ quoting.quote :: (word ++ piece))
            (quoting.quote :: left) := by
            rw [closing, cut_content within _ _ even]
        _ = quoting.cut false (quoting.quote :: content ++ quoting.quote :: word ++ piece)
            left := by
            rw [opening]
            simp

/-- What is appended, separator by separator, in closed words is cut back into
these words, whatever stands before them. -/
theorem rsplit_append {words : List (List α)} (closed : ∀ word ∈ words, quoting.Closed word)
    (before : List α) :
    quoting.rsplit (before ++ words.flatMap (quoting.separator :: ·)) =
      words.reverse ++ quoting.rsplit before := by
  induction words using List.reverseRecOn with
  | nil => simp
  | append_singleton words word ih =>
      have earlier : ∀ word ∈ words, quoting.Closed word := fun other member =>
        closed other (by simp [member])
      have last : quoting.Closed word := closed word (by simp)
      have notEscaped : (quoting.separator ::
          (before ++ words.flatMap (quoting.separator :: ·)).reverse).head? ≠
            some quoting.escape := by
        simpa using quoting.separator_ne_escape
      have stop : quoting.cut false word (quoting.separator ::
          (before ++ words.flatMap (quoting.separator :: ·)).reverse) =
          word :: quoting.rsplit (before ++ words.flatMap (quoting.separator :: ·)) := by
        simp [cut, quotedAfter, quoting.separator_ne_quote, rsplit]
      calc
        quoting.rsplit (before ++ (words ++ [word]).flatMap (quoting.separator :: ·)) =
          quoting.cut false [] (word.reverse ++ (quoting.separator ::
            (before ++ words.flatMap (quoting.separator :: ·)).reverse)) := by
            simp [rsplit]
        _ = word :: quoting.rsplit (before ++ words.flatMap (quoting.separator :: ·)) := by
            rw [cut_closed last _ _ notEscaped, List.append_nil, stop]
        _ = (words ++ [word]).reverse ++ quoting.rsplit before := by
            rw [ih earlier]
            simp

end Quoting

end Kynos.Word

namespace Kynos.Word

universe u v

variable {α : Type u}

/-! ## Blanks at the ends -/

section Blanks

variable {σ : Type v} {step : σ → α → Option σ} {start : σ} {blank : α → Bool}

theorem trimBy_append_left {left : List α} (leftBlank : ∀ letter ∈ left, blank letter = true)
    (word : List α) : trimBy blank (left ++ word) = trimBy blank word := by
  rw [trimBy, dropWhile_append_of_forall leftBlank, trimBy]

theorem trimBy_append_right {right : List α} (rightBlank : ∀ letter ∈ right, blank letter = true)
    (word : List α) : trimBy blank (word ++ right) = trimBy blank word := by
  rw [trimBy, trimBy, List.dropWhile_append]
  split
  · rename_i isBlank
    rw [List.isEmpty_iff.mp isBlank, List.dropWhile_eq_nil_iff.mpr rightBlank]
  · exact rdropWhile_append_of_forall rightBlank _

theorem scan_of_forall {word : List α} (reads : ∀ state, ∀ letter ∈ word, step state letter ≠ none)
    (state : σ) : scan step start state word = [word] := by
  induction word generalizing state with
  | nil => rfl
  | cons letter word ih =>
      obtain ⟨next, isNext⟩ := Option.ne_none_iff_exists'.mp (reads state letter List.mem_cons_self)
      rw [scan_cons_of_some isNext,
        ih (fun state other member => reads state other (List.mem_cons_of_mem _ member)) next]
      rfl

/-- Letters that never stop the scanner end the last piece. -/
theorem exists_scan_append {right : List α}
    (reads : ∀ state, ∀ letter ∈ right, step state letter ≠ none) (state : σ) (word : List α) :
    ∃ pieces last, scan step start state word = pieces ++ [last] ∧
      scan step start state (word ++ right) = pieces ++ [last ++ right] := by
  induction word generalizing state with
  | nil => exact ⟨[], [], rfl, scan_of_forall reads state⟩
  | cons letter word ih =>
      cases stepped : step state letter with
      | none =>
          obtain ⟨pieces, last, isScan, isLonger⟩ := ih start
          refine ⟨[] :: pieces, last, ?_, ?_⟩
          · rw [scan_cons_of_none stepped, isScan, List.cons_append]
          · rw [List.cons_append, scan_cons_of_none stepped, isLonger, List.cons_append]
      | some next =>
          obtain ⟨pieces, last, isScan, isLonger⟩ := ih next
          rw [List.cons_append, scan_cons_of_some stepped, scan_cons_of_some stepped, isScan, isLonger]
          cases pieces with
          | nil => exact ⟨[], letter :: last, rfl, rfl⟩
          | cons first pieces => exact ⟨(letter :: first) :: pieces, last, rfl, rfl⟩

/-- Trimming a word first changes no trimmed piece. -/
theorem map_trimBy_scan_trimBy (reads : ∀ state letter, blank letter = true → step state letter ≠ none)
    (stays : ∀ letter, blank letter = true → step start letter = some start) (word : List α) :
    (scan step start start (trimBy blank word)).map (trimBy blank) =
      (scan step start start word).map (trimBy blank) := by
  obtain ⟨left, right, cut, leftBlank, rightBlank⟩ := exists_eq_trimBy blank word
  generalize trimBy blank word = trimmed at cut
  subst cut
  have readsLeft : left.foldlM step start = some start :=
    foldlM_of_forall fun letter member => stays letter (leftBlank letter member)
  obtain ⟨pieces, last, isScan, isLonger⟩ := exists_scan_append
    (fun state letter member => reads state letter (rightBlank letter member)) start trimmed
  rw [List.append_assoc, scan_append readsLeft, isScan, isLonger]
  cases pieces with
  | nil =>
      simp only [List.nil_append, List.modifyHead_cons, List.map_cons, List.map_nil,
        trimBy_append_left leftBlank, trimBy_append_right rightBlank]
  | cons first pieces =>
      simp only [List.cons_append, List.modifyHead_cons, List.map_cons, List.map_append,
        List.map_nil, trimBy_append_left leftBlank, trimBy_append_right rightBlank]

end Blanks

namespace Quoting

variable [DecidableEq α] (quoting : Quoting α)

/-- The reader on one letter: whether it is within quotes, and whether the next
letter is escaped. -/
def step (state : Bool × Bool) (letter : α) : Option (Bool × Bool) :=
  let (quoted, escaped) := state
  if escaped then
    some (quoted, false)
  else if quoted ∧ letter = quoting.escape then
    some (quoted, true)
  else if letter = quoting.quote then
    some (!quoted, false)
  else if !quoted ∧ letter = quoting.separator then
    none
  else
    some (quoted, false)

/-- The pieces of a word between separators outside quotes. -/
def split (word : List α) : List (List α) :=
  scan quoting.step (false, false) (false, false) word

variable {quoting}

theorem foldlM_content {content : List α} (within : quoting.Content content) :
    content.foldlM quoting.step (true, false) = some (true, false) := by
  induction within with
  | nil => rfl
  | letter notQuote notEscape _ ih =>
      rw [List.foldlM_cons, step]
      simpa [notQuote, notEscape] using ih
  | @escaped letter content _ ih =>
      have escapes : quoting.step (true, false) quoting.escape = some (true, true) := by
        simp [step]
      have skips : quoting.step (true, true) letter = some (true, false) := rfl
      rw [List.foldlM_cons, escapes, Option.bind_eq_bind, Option.bind_some, List.foldlM_cons, skips]
      exact ih

theorem foldlM_closed {word : List α} (closed : quoting.Closed word) :
    word.foldlM quoting.step (false, false) = some (false, false) := by
  induction closed with
  | nil => rfl
  | letter notQuote notEscape notSeparator _ ih =>
      rw [List.foldlM_cons, step]
      simpa [notQuote, notSeparator] using ih
  | @quoted content word within _ ih =>
      have opens : quoting.step (false, false) quoting.quote = some (true, false) := by
        simp [step]
      have closes : quoting.step (true, false) quoting.quote = some (false, false) := by
        simp [step, quoting.quote_ne_escape]
      rw [List.cons_append, List.foldlM_cons, opens]
      refine foldlM_append_of_some (foldlM_content within) ?_
      rw [List.foldlM_cons, closes]
      exact ih

/-- Closed words are cut where they were joined. -/
theorem split_intercalate {words : List (List α)} (nonempty : words ≠ [])
    (closed : ∀ word ∈ words, quoting.Closed word) :
    quoting.split ([quoting.separator].intercalate words) = words := by
  refine scan_intercalate nonempty fun word member =>
    ⟨(false, false), foldlM_closed (closed word member), ?_⟩
  simp [step, quoting.separator_ne_quote]

end Quoting

end Kynos.Word

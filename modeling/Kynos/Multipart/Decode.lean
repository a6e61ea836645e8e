import Kynos.Multipart.Framing
import Kynos.Word.Lines

/-!
# Reading a multipart body back

A reader of multipart bodies as RFC 2046 has them: a line that starts with two
hyphens and the boundary is a delimiter, whatever follows on it, and two more
hyphens close the body. A rendered body is read back as its parts, in order,
under the delimiter that was chosen for it.
-/

namespace Kynos.Multipart

open Kynos.Http Kynos.Numeral Kynos.Word

/-! ## RFC 2046 -/

/-- The lines of a body, which end in CRLF. -/
def bodyLines (octets : Octets) : List Octets :=
  lines 13 10 octets

/-- What a delimiter line begins with. -/
def delimiterLine (boundary : Octets) : Octets :=
  dashes ++ boundary

/-- What a closing delimiter line begins with. -/
def closingLine (boundary : Octets) : Octets :=
  dashes ++ boundary ++ dashes

/-- A delimiter line: boundaries are compared with the beginning of a line. -/
def isDelimiter (boundary line : Octets) : Bool :=
  (delimiterLine boundary).isPrefixOf line

/-- The delimiter line that closes a body. -/
def isClosing (boundary line : Octets) : Bool :=
  (closingLine boundary).isPrefixOf line

/-- Header lines, each ended by CRLF. -/
def block (headerLines : List Octets) : Octets :=
  headerLines.flatMap (· ++ crlf)

/-- A body part: its header lines up to an empty one, and the lines after it. -/
def readPart (partLines : List Octets) : Encapsulation where
  headers := block (partLines.takeWhile (· ≠ []))
  content := unlines 13 10 ((partLines.dropWhile (· ≠ [])).drop 1)

/-- The parts from the lines of one on, which are read so far into `current`. A
body that is never closed is truncated. -/
def readParts (boundary : Octets) : (current rest : List Octets) → Option (List Encapsulation)
  | _, [] => none
  | current, line :: rest =>
      if isClosing boundary line then
        some [readPart current]
      else if isDelimiter boundary line then
        (readParts boundary [] rest).map (readPart current :: ·)
      else
        readParts boundary (current ++ [line]) rest

/-- The parts of a body, what stands before its first delimiter being a
preamble and what follows the closing one an epilogue. -/
def parse (boundary body : Octets) : Option (List Encapsulation) :=
  match (bodyLines body).dropWhile fun line => !isDelimiter boundary line with
  | [] => none
  | delimiter :: rest =>
      if isClosing boundary delimiter then some [] else readParts boundary [] rest

/-! ## Lines of a rendered body -/

section Lines

variable {boundary : Octets}

theorem isDelimiter_of_isClosing {line : Octets} (closing : isClosing boundary line = true) :
    isDelimiter boundary line = true := by
  rw [isClosing, List.isPrefixOf_iff_prefix] at closing
  rw [isDelimiter, List.isPrefixOf_iff_prefix]
  exact (List.prefix_append _ _).trans closing

@[simp]
theorem isDelimiter_self : isDelimiter boundary (delimiterLine boundary) = true := by
  simp [isDelimiter]

@[simp]
theorem isClosing_self : isClosing boundary (closingLine boundary) = true := by
  simp [isClosing]

@[simp]
theorem isDelimiter_closing : isDelimiter boundary (closingLine boundary) = true :=
  isDelimiter_of_isClosing isClosing_self

/-- A delimiter line is too short to close the body. -/
@[simp]
theorem isClosing_delimiter : isClosing boundary (delimiterLine boundary) = false := by
  rw [← Bool.not_eq_true, isClosing, List.isPrefixOf_iff_prefix]
  intro longer
  have length := longer.length_le
  simp only [closingLine, delimiterLine, List.length_append, dashes, List.length_cons] at length
  omega

@[simp]
theorem isDelimiter_nil : isDelimiter boundary [] = false := rfl

/-- No line of a content the boundary does not stand in is a delimiter. -/
theorem isDelimiter_of_mem_bodyLines {content line : Octets} (fresh : ¬ boundary <:+: content)
    (member : line ∈ bodyLines content) : isDelimiter boundary line = false := by
  rw [← Bool.not_eq_true, isDelimiter, List.isPrefixOf_iff_prefix]
  intro delimiter
  exact fresh (((List.suffix_append dashes boundary).isInfix.trans delimiter.isInfix).trans
    (isInfix_of_mem_lines member))

/-- What is put before a CRLF has its own lines, whatever octets it ends in. -/
theorem bodyLines_append (octets rest : Octets) :
    bodyLines (octets ++ (crlf ++ rest)) = bodyLines octets ++ bodyLines rest :=
  lines_append (by decide) octets rest

theorem bodyLines_block_append {headerLines : List Octets}
    (plain : ∀ line ∈ headerLines, 10 ∉ line) (rest : Octets) :
    bodyLines (block headerLines ++ rest) = headerLines ++ bodyLines rest := by
  induction headerLines with
  | nil => rfl
  | cons line headerLines ih =>
      rw [block, List.flatMap_cons, List.append_assoc, List.append_assoc, bodyLines_append,
        bodyLines, lines_of_notMem (plain line List.mem_cons_self)]
      exact congrArg (line :: ·) (ih fun other member => plain other (List.mem_cons_of_mem _ member))

/-- A part as a sender has it: its header lines and its content. -/
abbrev Sent := List Octets × Octets

namespace Sent

/-- The part as it is encapsulated. -/
def encapsulation (part : Sent) : Encapsulation :=
  ⟨block part.1, part.2⟩

/-- The lines of a part, its delimiter line apart. -/
def bodyLines (part : Sent) : List Octets :=
  part.1 ++ [] :: Multipart.bodyLines part.2

end Sent

/-- The lines of a rendered body: every part's behind its delimiter line, then
the closing one. -/
theorem bodyLines_render {parts : List Sent} (plainBoundary : 10 ∉ boundary)
    (plain : ∀ part ∈ parts, ∀ line ∈ part.1, 10 ∉ line) :
    bodyLines (render (parts.map Sent.encapsulation) boundary) =
      parts.flatMap (fun part => delimiterLine boundary :: part.bodyLines) ++
        [closingLine boundary, []] := by
  have plainDashes : (10 : UInt8) ∉ dashes := by decide
  have plainDelimiter : (10 : UInt8) ∉ delimiterLine boundary := by
    simp [delimiterLine, plainDashes, plainBoundary]
  induction parts with
  | nil =>
      have closing : render ([].map Sent.encapsulation) boundary =
          closingLine boundary ++ (crlf ++ []) := by
        simp [render, puts, close, closingLine]
      rw [closing, bodyLines_append, bodyLines, lines_of_notMem (by simp [closingLine, plainBoundary, plainDashes])]
      rfl
  | cons part parts ih =>
      have first : render ((part :: parts).map Sent.encapsulation) boundary =
          delimiterLine boundary ++ (crlf ++ (block part.1 ++ ([] ++ (crlf ++ (part.2 ++ (crlf ++
            render (parts.map Sent.encapsulation) boundary)))))) := by
        simp [render, puts, encapsulate, Sent.encapsulation, delimiterLine]
      rw [first, bodyLines_append, bodyLines_block_append (plain part List.mem_cons_self),
        bodyLines_append, bodyLines_append,
        ih fun other member => plain other (List.mem_cons_of_mem _ member)]
      rw [bodyLines, lines_of_notMem plainDelimiter]
      simp [Sent.bodyLines, bodyLines, lines]

end Lines

/-! ## The parts read back -/

section Read

variable {boundary : Octets}

theorem readParts_append {block : List Octets}
    (undelimited : ∀ line ∈ block, isDelimiter boundary line = false)
    (current rest : List Octets) :
    readParts boundary current (block ++ rest) = readParts boundary (current ++ block) rest := by
  induction block generalizing current with
  | nil => simp
  | cons line block ih =>
      have delimiter := undelimited line List.mem_cons_self
      have closing : isClosing boundary line = false := by
        rw [← Bool.not_eq_true]
        intro closing
        rw [isDelimiter_of_isClosing closing] at delimiter
        contradiction
      rw [List.cons_append, readParts, closing, delimiter]
      simp only [Bool.false_eq_true, if_false]
      rw [ih fun other member => undelimited other (List.mem_cons_of_mem _ member),
        List.append_assoc]
      rfl

/-- The lines of a part are read as that part. -/
theorem readPart_bodyLines {part : Sent} (nonempty : ∀ line ∈ part.1, line ≠ []) :
    readPart part.bodyLines = part.encapsulation := by
  have headers : part.bodyLines.takeWhile (· ≠ []) = part.1 := by
    rw [Sent.bodyLines, List.takeWhile_append_of_pos (by simpa using nonempty)]
    simp
  have content : (part.bodyLines.dropWhile (· ≠ [])).drop 1 = bodyLines part.2 := by
    rw [Sent.bodyLines, List.dropWhile_append_of_pos (by simpa using nonempty)]
    simp
  rw [readPart, headers, content, bodyLines, unlines_lines]
  rfl

/-- The lines of parts, each of which holds no delimiter line, are read as
those parts. -/
theorem readParts_render {parts : List Sent} {part : Sent}
    (nonempty : ∀ other ∈ part :: parts, ∀ line ∈ other.1, line ≠ [])
    (undelimited : ∀ other ∈ part :: parts, ∀ line ∈ other.bodyLines,
      isDelimiter boundary line = false) :
    readParts boundary [] (part.bodyLines ++
        (parts.flatMap (fun part => delimiterLine boundary :: part.bodyLines) ++
          [closingLine boundary, []])) =
      some ((part :: parts).map Sent.encapsulation) := by
  induction parts generalizing part with
  | nil =>
      rw [readParts_append (undelimited part List.mem_cons_self), List.flatMap_nil, List.nil_append,
        List.nil_append, readParts, if_pos isClosing_self,
        readPart_bodyLines (nonempty part List.mem_cons_self)]
      rfl
  | cons next parts ih =>
      have rest := ih (fun other member => nonempty other (List.mem_cons_of_mem _ member))
        (fun other member => undelimited other (List.mem_cons_of_mem _ member))
      rw [readParts_append (undelimited part List.mem_cons_self), List.flatMap_cons,
        List.cons_append, List.cons_append, List.nil_append, readParts, isClosing_delimiter,
        isDelimiter_self, List.append_assoc, rest,
        readPart_bodyLines (nonempty part List.mem_cons_self)]
      rfl

/-- The delimiter lines of a rendered body are those its framing put. -/
theorem filter_bodyLines_render {parts : List Sent}
    (undelimited : ∀ part ∈ parts, ∀ line ∈ part.bodyLines, isDelimiter boundary line = false) :
    (parts.flatMap (fun part => delimiterLine boundary :: part.bodyLines) ++
        [closingLine boundary, []]).filter (isDelimiter boundary) =
      List.replicate parts.length (delimiterLine boundary) ++ [closingLine boundary] := by
  induction parts with
  | nil => simp
  | cons part parts ih =>
      have none : part.bodyLines.filter (isDelimiter boundary) = [] := by
        rw [List.filter_eq_nil_iff]
        intro line member
        simp [undelimited part List.mem_cons_self line member]
      have rest := ih fun other member => undelimited other (List.mem_cons_of_mem _ member)
      rw [List.flatMap_cons, List.cons_append, List.cons_append, List.filter_cons,
        if_pos isDelimiter_self, List.append_assoc, List.filter_append, none, List.nil_append, rest]
      rfl

/-- A body rendered under a boundary that no content holds and no header line
begins is read back as its parts, and holds no other delimiter line. -/
theorem parse_render_of_fresh {parts : List Sent} (plainBoundary : 10 ∉ boundary)
    (plain : ∀ part ∈ parts, ∀ line ∈ part.1, 10 ∉ line)
    (headed : ∀ part ∈ parts, ∀ line ∈ part.1, line ≠ [] ∧ isDelimiter boundary line = false)
    (fresh : ∀ part ∈ parts, ¬ boundary <:+: part.2) :
    parse boundary (render (parts.map Sent.encapsulation) boundary) =
        some (parts.map Sent.encapsulation) ∧
      (bodyLines (render (parts.map Sent.encapsulation) boundary)).filter (isDelimiter boundary) =
        List.replicate parts.length (delimiterLine boundary) ++ [closingLine boundary] := by
  have undelimited : ∀ part ∈ parts, ∀ line ∈ part.bodyLines, isDelimiter boundary line = false := by
    intro part member line lineMember
    rcases List.mem_append.mp lineMember with header | rest
    · exact (headed part member line header).2
    · rcases List.mem_cons.mp rest with rfl | content
      · exact isDelimiter_nil
      · exact isDelimiter_of_mem_bodyLines (fresh part member) content
  rw [parse, bodyLines_render plainBoundary plain]
  refine ⟨?_, filter_bodyLines_render undelimited⟩
  cases parts with
  | nil => simp
  | cons part parts =>
      have read := readParts_render
        (fun other member line header => (headed other member line header).1) undelimited
      rw [List.flatMap_cons, List.cons_append, List.cons_append,
        List.dropWhile_cons_of_neg (by simp), List.append_assoc]
      simp only [isClosing_delimiter, Bool.false_eq_true, if_false]
      exact read

end Read

theorem newline_notMem_new (counter : Nat) : 10 ∉ Boundary.new counter := by
  have digit : ∀ nibble < 16, hexDigit nibble ≠ 10 := by decide
  rw [Boundary.new, List.mem_append, not_or]
  refine ⟨by decide, fun member => ?_⟩
  obtain ⟨index, _, same⟩ := List.mem_map.mp member
  refine digit _ ?_ same
  exact Nat.lt_of_le_of_lt Nat.and_le_right (by decide)

/-- The boundary chosen for contents held in memory splits the rendered body
into exactly the parts that were encapsulated, in order, where header lines are
not empty and do not begin with the delimiter; the body holds no delimiter line
but the ones put before its parts and at its end. -/
theorem parse_render (parts : List Sent)
    (small : ((parts.map Prod.snd).map List.length).sum ≤ u64Max)
    (plain : ∀ part ∈ parts, ∀ line ∈ part.1, 13 ∉ line ∧ 10 ∉ line) :
    ∃ chosen, boundary (parts.map Prod.snd) = some chosen ∧
      ((∀ part ∈ parts, ∀ line ∈ part.1, line ≠ [] ∧ isDelimiter chosen line = false) →
        parse chosen (render (parts.map Sent.encapsulation) chosen) =
            some (parts.map Sent.encapsulation) ∧
          (bodyLines (render (parts.map Sent.encapsulation) chosen)).filter (isDelimiter chosen) =
            List.replicate parts.length (delimiterLine chosen) ++ [closingLine chosen]) := by
  obtain ⟨chosen, found, fresh⟩ := exists_boundary small
  obtain ⟨counter, rfl⟩ := eq_new_of_boundaryFrom found
  refine ⟨_, found, fun headed => ?_⟩
  exact parse_render_of_fresh (newline_notMem_new counter)
    (fun part member line header => (plain part member line header).2) headed
    fun part member => fresh part.2 (List.mem_map_of_mem member)

theorem parse_render_adversarial :
    let parts : List Sent :=
      [([Text.toOctets "Content-Type: text/plain".toList],
          Text.toOctets "--kynos-boundary-0000000000000000--\r\n".toList),
        ([Text.toOctets "Content-Type: text/plain".toList],
          Text.toOctets "\r\n--kynos-boundary-000000000000000\r".toList)]
    ∃ chosen, boundary (parts.map Prod.snd) = some chosen ∧
      ((∀ part ∈ parts, ∀ line ∈ part.1, line ≠ [] ∧ isDelimiter chosen line = false) →
        parse chosen (render (parts.map Sent.encapsulation) chosen) =
            some (parts.map Sent.encapsulation) ∧
          (bodyLines (render (parts.map Sent.encapsulation) chosen)).filter (isDelimiter chosen) =
            List.replicate parts.length (delimiterLine chosen) ++ [closingLine chosen]) :=
  parse_render _ (by decide) (by decide)

/-- A header line that begins with the delimiter, which is chosen by the
contents alone, starts a part of its own. -/
theorem parse_render_delimiter_header :
    let parts : List Sent :=
      [([Text.toOctets "--kynos-boundary-0000000000000000".toList], Text.toOctets "x".toList)]
    ∃ chosen, boundary (parts.map Prod.snd) = some chosen ∧
      parse chosen (render (parts.map Sent.encapsulation) chosen) ≠
        some (parts.map Sent.encapsulation) :=
  ⟨Boundary.new 0, by decide +kernel, by decide +kernel⟩

end Kynos.Multipart

import Kynos.Multipart.NamesBack

/-!
# The grammar of a part's disposition

RFC 6266 section 4.1 as a relation between a text and the parameters it spells,
with optional whitespace around semicolons and equals signs and with empty
parameters. The reader accepts exactly the texts of this grammar that name one
field, and finds the values they spell.
-/

namespace Kynos.Multipart.PartDisposition

open Kynos.Http

/-! ## The grammar -/

/-- `OWS`. -/
def Blank (text : Text) : Prop :=
  ∀ character ∈ text, Text.isOws character = true

/-- `qdtext`: `HTAB / SP / %x21 / %x23-5B / %x5D-7E / obs-text`. -/
def IsQdtext (character : Char) : Prop :=
  character = '\t' ∨ character = ' ' ∨ character.toNat = 0x21 ∨
    (0x23 ≤ character.toNat ∧ character.toNat ≤ 0x5B) ∨
    (0x5D ≤ character.toNat ∧ character.toNat ≤ 0x7E) ∨ 0x80 ≤ character.toNat

/-- What a `quoted-pair` quotes: `HTAB / SP / VCHAR / obs-text`. -/
def IsQuotable (character : Char) : Prop :=
  character = '\t' ∨ character = ' ' ∨ (0x21 ≤ character.toNat ∧ character.toNat ≤ 0x7E) ∨
    0x80 ≤ character.toNat

/-- A value, and its spelling between the quotes of a `quoted-string`. -/
inductive Quoted : Text → Text → Prop where
  | nil : Quoted [] []
  | qdtext {character : Char} {value spelling : Text} (isQdtext : IsQdtext character)
      (rest : Quoted value spelling) : Quoted (character :: value) (character :: spelling)
  | pair {character : Char} {value spelling : Text} (isQuotable : IsQuotable character)
      (rest : Quoted value spelling) : Quoted (character :: value) ('\\' :: character :: spelling)

/-- `value = token | quoted-string`. -/
inductive Valued : Text → Text → Prop where
  | token {value : Text} (isToken : isToken value = true) : Valued value value
  | quoted {value spelling : Text} (isQuoted : Quoted value spelling) :
      Valued value ('"' :: (spelling ++ ['"']))

/-- A parameter: a name and a value. -/
inductive Spelled : Text × Text → Text → Prop where
  | mk {name value before after spelling : Text} (isName : isToken name = true)
      (isBefore : Blank before) (isAfter : Blank after) (isValue : Valued value spelling) :
      Spelled (name, value) (name ++ (before ++ '=' :: (after ++ spelling)))

/-- Parameters, each after a semicolon. -/
inductive Parameters : List (Text × Text) → Text → Prop where
  | nil : Parameters [] []
  | empty {parameters : List (Text × Text)} {before after rest : Text} (isBefore : Blank before)
      (isAfter : Blank after) (others : Parameters parameters rest) :
      Parameters parameters (before ++ ';' :: (after ++ rest))
  | cons {first : Text × Text} {parameters : List (Text × Text)} {before after spelling rest : Text}
      (isBefore : Blank before) (isAfter : Blank after) (isFirst : Spelled first spelling)
      (others : Parameters parameters rest) :
      Parameters (first :: parameters) (before ++ ';' :: (after ++ (spelling ++ rest)))

/-- A disposition of the type `form-data`, in any case. -/
inductive FormData : List (Text × Text) → Text → Prop where
  | mk {parameters : List (Text × Text)} {kind rest : Text}
      (isFormData : Text.eqIgnoreAsciiCase kind formData = true) (others : Parameters parameters rest) :
      FormData parameters (kind ++ rest)

/-- The values of the parameters with a name, in any case. -/
def valuesOf (name : Text) (parameters : List (Text × Text)) : List Text :=
  (parameters.filter fun parameter => Text.eqIgnoreAsciiCase parameter.1 name).map Prod.snd

/-- What parameters say of the field: the one name, and the filename, if any. -/
def Names (disposition : Disposition) (parameters : List (Text × Text)) : Prop :=
  valuesOf "name".toList parameters = [disposition.name] ∧
    valuesOf "filename".toList parameters = disposition.fileName.toList

/-! ## Characters -/

theorem admitted_iff {character : Char} : admitted character = true ↔ IsQuotable character := by
  have printed : ' ' ≤ character ↔ 0x20 ≤ character.toNat := Iff.rfl
  have space : character = ' ' ↔ character.toNat = 0x20 := Char.toNat_inj.symm
  have delete : character = '\x7f' ↔ character.toNat = 0x7F := Char.toNat_inj.symm
  rw [admitted, IsQuotable, Bool.or_eq_true, Bool.and_eq_true, beq_iff_eq, decide_eq_true_eq, bne_iff_ne,
    ne_eq, printed, delete, space]
  refine or_congr_right ?_
  omega

theorem isQdtext_iff {character : Char} :
    IsQdtext character ↔ IsQuotable character ∧ character ≠ '"' ∧ character ≠ '\\' := by
  have quote : character = '"' ↔ character.toNat = 0x22 := Char.toNat_inj.symm
  have backslash : character = '\\' ↔ character.toNat = 0x5C := Char.toNat_inj.symm
  have tab : character = '\t' ↔ character.toNat = 9 := Char.toNat_inj.symm
  have space : character = ' ' ↔ character.toNat = 0x20 := Char.toNat_inj.symm
  rw [IsQdtext, IsQuotable, ne_eq, ne_eq, quote, backslash, tab, space]
  omega

theorem endsToken_of_isOws {character : Char} (blank : Text.isOws character = true) :
    endsToken character = true := by
  rw [endsToken, blank, Bool.true_or, Bool.true_or, Bool.true_or]

/-! ## Whitespace -/

theorem blank_iff_skipOws {text : Text} : Blank text ↔ skipOws text = [] := by
  rw [skipOws, List.dropWhile_eq_nil_iff]
  rfl

theorem skipOws_append {before : Text} (isBefore : Blank before) (rest : Text) :
    skipOws (before ++ rest) = skipOws rest :=
  List.dropWhile_append_of_pos isBefore

theorem exists_eq_append_skipOws (text : Text) : ∃ before, Blank before ∧ text = before ++ skipOws text :=
  ⟨text.takeWhile Text.isOws, fun _ member => List.mem_takeWhile_imp member,
    List.takeWhile_append_dropWhile.symm⟩

theorem skipOws_skipOws (text : Text) : skipOws (skipOws text) = skipOws text :=
  List.dropWhile_idempotent Text.isOws text

/-! ## Tokens -/

/-- A token that ends where a text does not go on. -/
def Stops (rest : Text) : Prop :=
  ∀ character ∈ rest.head?, endsToken character = true

theorem token_append_of_stops {label rest : Text}
    (goesOn : ∀ character ∈ label, endsToken character = false) (stops : Stops rest) :
    token (label ++ rest) = (label, rest) := by
  have goes : ∀ character ∈ label, (!endsToken character) = true := fun character member => by
    rw [goesOn character member, Bool.not_false]
  rw [token, List.takeWhile_append_of_pos goes, List.dropWhile_append_of_pos goes]
  cases rest with
  | nil => simp
  | cons stop rest => simp [stops stop rfl]

theorem goesOn_of_isToken {label : Text} (isLabel : isToken label = true) :
    ∀ character ∈ label, endsToken character = false := fun _ member =>
  endsToken_of_isTchar (isTchar_of_mem isLabel member)

theorem stops_blank {blank rest : Text} (isBlank : Blank blank) (stops : Stops rest) :
    Stops (blank ++ rest) := by
  cases blank with
  | nil => exact stops
  | cons first blank =>
      rintro _ ⟨⟩
      exact endsToken_of_isOws (isBlank first List.mem_cons_self)

theorem stops_cons {stop : Char} (ends : endsToken stop = true) (rest : Text) : Stops (stop :: rest) := by
  rintro character ⟨⟩
  exact ends

/-! ## Values -/

theorem quotedRest_quote (rest : Text) : quotedRest ('"' :: rest) = some ([], rest) := by
  rw [quotedRest.eq_def]
  exact if_pos rfl

theorem quotedRest_pair (character : Char) (rest : Text) :
    quotedRest ('\\' :: character :: rest) =
      if admitted character then (quotedRest rest).map (Prod.map (character :: ·) id) else none := by
  rw [quotedRest.eq_def]
  rfl

theorem quotedRest_plain {character : Char} (notQuote : character ≠ '"') (notBackslash : character ≠ '\\')
    (rest : Text) :
    quotedRest (character :: rest) =
      if admitted character then (quotedRest rest).map (Prod.map (character :: ·) id) else none := by
  rw [quotedRest.eq_def]
  dsimp only
  rw [if_neg notQuote, if_neg notBackslash]

/-- A quoted string is read as the value it spells. -/
theorem quotedRest_of_quoted {value spelling : Text} (isQuoted : Quoted value spelling) (rest : Text) :
    quotedRest (spelling ++ '"' :: rest) = some (value, rest) := by
  induction isQuoted with
  | nil => exact quotedRest_quote rest
  | qdtext isQdtext _ ih =>
      obtain ⟨isQuotable, notQuote, notBackslash⟩ := isQdtext_iff.mp isQdtext
      rw [List.cons_append, quotedRest_plain notQuote notBackslash, if_pos (admitted_iff.mpr isQuotable),
        ih]
      rfl
  | pair isQuotable _ ih =>
      rw [List.cons_append, List.cons_append, quotedRest_pair, if_pos (admitted_iff.mpr isQuotable), ih]
      rfl

/-- What is read as a quoted string spells its value. -/
theorem exists_of_quotedRest {input value rest : Text} (reads : quotedRest input = some (value, rest)) :
    ∃ spelling, Quoted value spelling ∧ input = spelling ++ '"' :: rest := by
  fun_induction quotedRest input generalizing value with
  | case1 => contradiction
  | case2 tail =>
      obtain ⟨rfl, rfl⟩ := Prod.mk.inj (Option.some.inj reads)
      exact ⟨[], .nil, rfl⟩
  | case3 => contradiction
  | case4 escaped tail isAdmitted _ ih =>
      obtain ⟨⟨other, after⟩, isRest, same⟩ := Option.map_eq_some_iff.mp reads
      obtain ⟨rfl, rfl⟩ := Prod.mk.inj same
      obtain ⟨spelling, isQuoted, rfl⟩ := ih isRest
      exact ⟨_, .pair (admitted_iff.mp isAdmitted) isQuoted, rfl⟩
  | case5 => contradiction
  | case6 character tail notQuote notBackslash isAdmitted ih =>
      obtain ⟨⟨other, after⟩, isRest, same⟩ := Option.map_eq_some_iff.mp reads
      obtain ⟨rfl, rfl⟩ := Prod.mk.inj same
      obtain ⟨spelling, isQuoted, rfl⟩ := ih isRest
      exact ⟨_, .qdtext (isQdtext_iff.mpr ⟨admitted_iff.mp isAdmitted, notQuote, notBackslash⟩) isQuoted,
        rfl⟩
  | case7 => contradiction

/-- No value starts with whitespace. -/
theorem skipOws_valued {read spelling : Text} (isValue : Valued read spelling) (rest : Text) :
    skipOws (spelling ++ rest) = spelling ++ rest := by
  cases isValue with
  | token isToken => exact skipOws_token isToken rest
  | quoted isQuoted => exact skipOws_of_visible (by decide)

theorem value_of_valued {read spelling rest : Text} (isValue : Valued read spelling)
    (stops : Stops rest) : value (spelling ++ rest) = some (read, rest) := by
  cases isValue with
  | token isToken =>
      have notQuote : ¬ (read ++ rest).head? = some '"' := by
        obtain ⟨first, others, rfl⟩ := List.exists_cons_of_ne_nil (ne_nil_of_isToken isToken)
        rintro ⟨⟩
        exact notMem_of_isToken isToken (by decide) List.mem_cons_self
      rw [value, if_neg notQuote, token_append_of_stops (goesOn_of_isToken isToken) stops, if_pos isToken]
  | quoted isQuoted =>
      rw [value, if_pos (by rfl), quotedString, List.cons_append, stripPrefix_cons, Option.bind_some,
        List.append_assoc]
      exact quotedRest_of_quoted isQuoted rest

theorem exists_of_value {input read rest : Text} (reads : value input = some (read, rest)) :
    ∃ spelling, Valued read spelling ∧ input = spelling ++ rest := by
  rw [value] at reads
  split at reads
  · obtain ⟨after, strips, isRest⟩ := Option.bind_eq_some_iff.mp reads
    obtain ⟨spelling, isQuoted, rfl⟩ := exists_of_quotedRest isRest
    rw [Date.stripPrefix_eq_some_iff] at strips
    exact ⟨_, .quoted isQuoted, by simp [strips]⟩
  · rw [Option.ite_none_right_eq_some, Option.some.injEq, Prod.ext_iff] at reads
    obtain ⟨isValue, rfl, rfl⟩ := reads
    exact ⟨_, .token isValue, (List.takeWhile_append_dropWhile).symm⟩

/-! ## A turn of the loop -/

theorem parameter_skipOws (input : Text) : parameter (skipOws input) = parameter input := by
  rw [parameter, parameter, skipOws_skipOws]

/-- What a turn reads of a text that goes on after a semicolon. -/
theorem parameter_semicolon {before : Text} (isBefore : Blank before) (after : Text) :
    parameter (before ++ ';' :: after) = parameter (';' :: after) := by
  rw [← parameter_skipOws, skipOws_append isBefore, parameter_skipOws]

theorem parameter_of_empty {after rest : Text} (isAfter : Blank after)
    (stops : skipOws rest = [] ∨ (skipOws rest).head? = some ';') :
    parameter (';' :: (after ++ rest)) = some (none, skipOws rest) := by
  rw [parameter, skipOws_of_visible (by decide), stripPrefix_cons, Option.bind_some,
    skipOws_append isAfter]
  exact if_pos stops

theorem parameter_of_spelled {after spelling rest : Text} {first : Text × Text} (isAfter : Blank after)
    (isFirst : Spelled first spelling) (stops : Stops rest) :
    parameter (';' :: (after ++ (spelling ++ rest))) = some (some first, rest) := by
  cases isFirst with
  | @mk name read before behind spelling isName isBefore isBehind isValue =>
      have goesOn : skipOws (after ++ (name ++ (before ++ '=' :: (behind ++ spelling)) ++ rest)) =
          name ++ (before ++ '=' :: (behind ++ (spelling ++ rest))) := by
        rw [skipOws_append isAfter, List.append_assoc, skipOws_token isName]
        simp
      have starts : ¬ (name ++ (before ++ '=' :: (behind ++ (spelling ++ rest))) = [] ∨
          (name ++ (before ++ '=' :: (behind ++ (spelling ++ rest)))).head? = some ';') := by
        obtain ⟨letter, letters, rfl⟩ := List.exists_cons_of_ne_nil (ne_nil_of_isToken isName)
        rintro (isNil | isSemicolon)
        · exact List.cons_ne_nil _ _ isNil
        · exact ne_of_isTchar (isTchar_of_mem isName List.mem_cons_self) (show ';' ∈ delimiters by decide)
            (Option.some.inj isSemicolon)
      have isLabel : token (name ++ (before ++ '=' :: (behind ++ (spelling ++ rest)))) =
          (name, before ++ '=' :: (behind ++ (spelling ++ rest))) :=
        token_append_of_stops (goesOn_of_isToken isName)
          (stops_blank isBefore (stops_cons (by decide) _))
      have isRead : value (skipOws (behind ++ (spelling ++ rest))) = some (read, rest) := by
        rw [skipOws_append isBehind, skipOws_valued isValue, value_of_valued isValue stops]
      rw [parameter, skipOws_of_visible (by decide), stripPrefix_cons, Option.bind_some, goesOn]
      dsimp only
      rw [if_neg starts, isLabel, skipOws_append isBefore, skipOws_of_visible (by decide),
        stripPrefix_cons, Option.bind_some, if_pos isName, isRead]
      rfl

/-- A turn that reads no parameter passes one that is empty. -/
theorem exists_of_parameter_none {input rest : Text} (reads : parameter input = some (none, rest)) :
    ∃ before after, Blank before ∧ Blank after ∧ input = before ++ ';' :: (after ++ rest) := by
  obtain ⟨after, strips, isRest⟩ := Option.bind_eq_some_iff.mp reads
  obtain ⟨before, isBefore, isInput⟩ := exists_eq_append_skipOws input
  obtain ⟨blank, isBlank, isAfter⟩ := exists_eq_append_skipOws after
  rw [Date.stripPrefix_eq_some_iff] at strips
  dsimp only at isRest
  split at isRest
  · obtain ⟨-, rfl⟩ := Prod.mk.inj (Option.some.inj isRest)
    exact ⟨before, blank, isBefore, isBlank, by rw [← isAfter, isInput, strips]; rfl⟩
  · obtain ⟨value, -, isValue⟩ := Option.bind_eq_some_iff.mp isRest
    rw [Option.ite_none_right_eq_some] at isValue
    obtain ⟨read, -, same⟩ := Option.map_eq_some_iff.mp isValue.2
    cases same

/-- A turn reads the parameter that is spelled. -/
theorem exists_of_parameter_some {input rest : Text} {first : Text × Text}
    (reads : parameter input = some (some first, rest)) :
    ∃ before after spelling, Blank before ∧ Blank after ∧ Spelled first spelling ∧
      input = before ++ ';' :: (after ++ (spelling ++ rest)) := by
  obtain ⟨after, strips, isRest⟩ := Option.bind_eq_some_iff.mp reads
  obtain ⟨before, isBefore, isInput⟩ := exists_eq_append_skipOws input
  obtain ⟨blank, isBlank, isAfter⟩ := exists_eq_append_skipOws after
  rw [Date.stripPrefix_eq_some_iff] at strips
  dsimp only at isRest
  split at isRest
  · cases isRest
  · obtain ⟨behind, isEquals, isValue⟩ := Option.bind_eq_some_iff.mp isRest
    rw [Option.ite_none_right_eq_some] at isValue
    obtain ⟨isName, isValue⟩ := isValue
    obtain ⟨⟨read, tail⟩, readsValue, same⟩ := Option.map_eq_some_iff.mp isValue
    obtain ⟨isFirst, rfl⟩ := Prod.mk.inj same
    obtain ⟨spelling, isSpelled, isBehind⟩ := exists_of_value readsValue
    obtain ⟨early, isEarly, isLabelEnd⟩ := exists_eq_append_skipOws (token (skipOws after)).2
    obtain ⟨late, isLate, isValueStart⟩ := exists_eq_append_skipOws behind
    rw [Date.stripPrefix_eq_some_iff] at isEquals
    have isAll : skipOws after =
        (token (skipOws after)).1 ++ (early ++ '=' :: (late ++ (spelling ++ tail))) :=
      calc
        skipOws after = (token (skipOws after)).1 ++ (token (skipOws after)).2 :=
          List.takeWhile_append_dropWhile.symm
        _ = (token (skipOws after)).1 ++ (early ++ (['='] ++ behind)) := by
          rw [← isEquals, ← isLabelEnd]
        _ = (token (skipOws after)).1 ++ (early ++ '=' :: (late ++ (spelling ++ tail))) := by
          rw [← isBehind, ← isValueStart]
          rfl
    have isWhole : input = before ++ ';' :: (blank ++ ((token (skipOws after)).1 ++
        (early ++ '=' :: (late ++ spelling)) ++ tail)) :=
      calc
        input = before ++ ([';'] ++ (blank ++ skipOws after)) := by rw [← isAfter, ← strips, ← isInput]
        _ = before ++ ([';'] ++ (blank ++ ((token (skipOws after)).1 ++
            (early ++ '=' :: (late ++ (spelling ++ tail)))))) := by rw [← isAll]
        _ = _ := by simp
    exact ⟨before, blank, _, isBefore, isBlank, Option.some.inj isFirst ▸ .mk isName isEarly isLate isSpelled,
      isWhole⟩

/-! ## The loop -/

theorem stops_parameters {parameters : List (Text × Text)} {rest trail : Text}
    (spelled : Parameters parameters rest) (isTrail : Blank trail) : Stops (rest ++ trail) := by
  cases spelled with
  | nil =>
      rw [List.nil_append, ← List.append_nil trail]
      exact stops_blank isTrail nofun
  | empty isBefore =>
      rw [List.append_assoc]
      exact stops_blank isBefore (stops_cons (by decide) _)
  | cons isBefore =>
      rw [List.append_assoc]
      exact stops_blank isBefore (stops_cons (by decide) _)

theorem stops_of_reads {input : Text} {parameters : List (Text × Text)} (reads : Reads input parameters) :
    skipOws input = [] ∨ (skipOws input).head? = some ';' := by
  have semicolon : ∀ read, parameter input = some read → (skipOws input).head? = some ';' := by
    intro read isRead
    obtain ⟨after, strips, -⟩ := Option.bind_eq_some_iff.mp isRead
    rw [Date.stripPrefix_eq_some_iff.mp strips]
    rfl
  cases reads with
  | done isDone => exact .inl isDone
  | skip isEmpty => exact .inr (semicolon _ isEmpty)
  | read isFirst => exact .inr (semicolon _ isFirst)

theorem reads_skipOws {input : Text} {parameters : List (Text × Text)} (reads : Reads input parameters) :
    Reads (skipOws input) parameters := by
  cases reads with
  | done isDone => exact .done (by rw [skipOws_skipOws, isDone])
  | skip isEmpty others => exact .skip (by rw [parameter_skipOws, isEmpty]) others
  | read isFirst others => exact .read (by rw [parameter_skipOws, isFirst]) others

/-- The loop reads the parameters a text spells. -/
theorem reads_of_parameters {parameters : List (Text × Text)} {rest trail : Text}
    (spelled : Parameters parameters rest) (isTrail : Blank trail) :
    Reads (rest ++ trail) parameters := by
  induction spelled with
  | nil => exact .done (blank_iff_skipOws.mp isTrail)
  | empty isBefore isAfter others ih =>
      rw [List.append_assoc, List.cons_append, List.append_assoc]
      refine .skip ?_ (reads_skipOws ih)
      rw [parameter_semicolon isBefore, parameter_of_empty isAfter (stops_of_reads ih)]
  | cons isBefore isAfter isFirst others ih =>
      rw [List.append_assoc, List.cons_append, List.append_assoc, List.append_assoc]
      refine .read ?_ ih
      rw [parameter_semicolon isBefore,
        parameter_of_spelled isAfter isFirst (stops_parameters others isTrail)]

/-- What the loop reads is spelled, up to whitespace at the end. -/
theorem exists_of_reads {input : Text} {parameters : List (Text × Text)} (reads : Reads input parameters) :
    ∃ rest trail, Parameters parameters rest ∧ Blank trail ∧ input = rest ++ trail := by
  induction reads with
  | done isDone => exact ⟨[], _, .nil, blank_iff_skipOws.mpr isDone, rfl⟩
  | skip isEmpty _ ih =>
      obtain ⟨before, after, isBefore, isAfter, rfl⟩ := exists_of_parameter_none isEmpty
      obtain ⟨rest, trail, others, isTrail, rfl⟩ := ih
      exact ⟨_, trail, .empty isBefore isAfter others, isTrail, by simp⟩
  | read isFirst _ ih =>
      obtain ⟨before, after, spelling, isBefore, isAfter, isSpelled, rfl⟩ := exists_of_parameter_some isFirst
      obtain ⟨rest, trail, others, isTrail, rfl⟩ := ih
      exact ⟨_, trail, .cons isBefore isAfter isSpelled others, isTrail, by simp⟩

theorem parameters_of_empty {field input rest : Text} {slots : Slots}
    (isEmpty : parameter input = some (none, rest)) :
    parameters field slots input = parameters field slots rest := by
  have isWritten : skipOws input ≠ [] := fun isDone => by
    simp [parameter_of_done isDone] at isEmpty
  rw [parameters, if_neg isWritten]
  split
  · simp_all
  · rename_i isSame
    obtain ⟨-, rfl⟩ := Prod.mk.inj (Option.some.inj (isEmpty.symm.trans isSame))
    rfl
  · simp_all

/-- A parameter put in its slot. -/
def Slots.putParameter (slots : Slots) (parameter : Text × Text) : Except Text Slots :=
  slots.put parameter.1 parameter.2

/-- The loop ends well exactly where it reads parameters that fit their slots. -/
theorem parameters_eq_ok_iff {field input : Text} {slots final : Slots} :
    parameters field slots input = .ok final ↔
      ∃ read, Reads input read ∧ read.foldlM Slots.putParameter slots = .ok final := by
  constructor
  · intro ends
    fun_induction parameters field slots input with
    | case1 slots input isDone => exact ⟨[], .done isDone, ends⟩
    | case2 => cases ends
    | case3 slots input _ rest isEmpty ih =>
        obtain ⟨read, reads, fits⟩ := ih ends
        exact ⟨read, .skip isEmpty reads, fits⟩
    | case4 => cases ends
    | case5 slots input _ label value rest isFirst next puts ih =>
        obtain ⟨read, reads, fits⟩ := ih ends
        refine ⟨(label, value) :: read, .read isFirst reads, ?_⟩
        rw [List.foldlM_cons, Slots.putParameter, puts]
        exact fits
  · rintro ⟨read, reads, fits⟩
    induction reads generalizing slots with
    | done isDone =>
        rw [parameters_of_done isDone]
        exact fits
    | skip isEmpty others ih =>
        rw [parameters_of_empty isEmpty]
        exact ih fits
    | @read input rest first others isFirst _ ih =>
        rw [List.foldlM_cons] at fits
        cases puts : slots.putParameter first with
        | error detail =>
            rw [puts] at fits
            cases fits
        | ok next =>
            rw [puts] at fits
            rw [parameters_of_some isFirst puts]
            exact ih fits

theorem valuesOf_cons (name : Text) (first : Text × Text) (read : List (Text × Text)) :
    valuesOf name (first :: read) =
      if Text.eqIgnoreAsciiCase first.1 name then first.2 :: valuesOf name read
      else valuesOf name read := by
  rw [valuesOf, List.filter_cons]
  split <;> rfl

/-- No slot holds two values. -/
theorem not_toList_append_cons {held value : Text} {others : List Text} {final : Option Text} :
    ¬ (some held).toList ++ value :: others = final.toList := by
  cases final <;> simp

/-- Parameters fit their slots exactly where the two that are looked for come once
at most. -/
theorem foldlM_putParameter_eq_ok_iff {read : List (Text × Text)} {slots final : Slots} :
    read.foldlM Slots.putParameter slots = .ok final ↔
      slots.name.toList ++ valuesOf "name".toList read = final.name.toList ∧
        slots.fileName.toList ++ valuesOf "filename".toList read = final.fileName.toList := by
  induction read generalizing slots with
  | nil =>
      obtain ⟨name, fileName⟩ := slots
      obtain ⟨lastName, lastFile⟩ := final
      have toList_inj : ∀ first second : Option Text, first.toList = second.toList ↔ first = second := by
        intro first second
        cases first <;> cases second <;> simp
      simp [valuesOf, toList_inj, pure, Except.pure]
  | cons first read ih =>
      rw [List.foldlM_cons, valuesOf_cons, valuesOf_cons, Slots.putParameter, Slots.put]
      by_cases isName : Text.eqIgnoreAsciiCase first.1 "name".toList = true
      · have notFile : ¬ Text.eqIgnoreAsciiCase first.1 "filename".toList = true := fun isFile => by
          have both := (beq_iff_eq.mp isName).symm.trans (beq_iff_eq.mp isFile)
          exact absurd both (by decide)
        rw [if_pos isName, if_pos isName, if_neg notFile]
        cases held : slots.name with
        | some given =>
            rw [Option.isSome_some, if_pos rfl]
            exact iff_of_false nofun fun names => not_toList_append_cons names.1
        | none =>
            rw [Option.isSome_none, if_neg Bool.false_ne_true]
            exact ih
      · rw [if_neg isName, if_neg isName]
        by_cases isFile : Text.eqIgnoreAsciiCase first.1 "filename".toList = true
        · rw [if_pos isFile, if_pos isFile]
          cases held : slots.fileName with
          | some given =>
              rw [Option.isSome_some, if_pos rfl]
              exact iff_of_false nofun fun names => not_toList_append_cons names.2
          | none =>
              rw [Option.isSome_none, if_neg Bool.false_ne_true]
              exact ih
        · rw [if_neg isFile, if_neg isFile]
          exact ih

/-! ## The field -/

theorem endsToken_toAsciiLower {character : Char} (ends : endsToken character = true) :
    Text.toAsciiLower character = character := by
  simp only [endsToken, Text.isOws, Bool.or_eq_true, beq_iff_eq] at ends
  rcases ends with (((rfl | rfl) | rfl) | rfl) | rfl <;> decide

theorem goesOn_of_formData {kind : Text} (isFormData : Text.eqIgnoreAsciiCase kind formData = true) :
    ∀ character ∈ kind, endsToken character = false := by
  intro character member
  refine Bool.eq_false_iff.mpr fun ends => ?_
  have lowered : Text.toAsciiLower character ∈ Text.toAsciiLowercase formData := by
    rw [← beq_iff_eq.mp isFormData]
    exact List.mem_map_of_mem member
  rw [endsToken_toAsciiLower ends] at lowered
  have plain : (Text.toAsciiLowercase formData).all (!endsToken ·) = true := by decide
  have goesOn := List.all_eq_true.mp plain character lowered
  rw [ends] at goesOn
  cases goesOn

theorem skipOws_of_goesOn {kind : Text} (goesOn : ∀ character ∈ kind, endsToken character = false)
    (nonempty : kind ≠ []) (rest : Text) : skipOws (kind ++ rest) = kind ++ rest := by
  obtain ⟨first, others, rfl⟩ := List.exists_cons_of_ne_nil nonempty
  refine skipOws_of_visible (Bool.eq_false_iff.mpr fun blank => ?_)
  have ends := endsToken_of_isOws blank
  rw [goesOn first List.mem_cons_self] at ends
  cases ends

theorem ne_nil_of_formData {kind : Text} (isFormData : Text.eqIgnoreAsciiCase kind formData = true) :
    kind ≠ [] := by
  rintro rfl
  exact absurd isFormData (by decide)

/-- The reader reads the type, and then the parameters. -/
theorem parse_eq_ok_iff_reads {field : Text} {disposition : Disposition} :
    parse field = .ok disposition ↔
      Text.eqIgnoreAsciiCase (token (skipOws field)).1 formData = true ∧
        ∃ read, Reads (token (skipOws field)).2 read ∧ Names disposition read := by
  have names : ∀ read, read.foldlM Slots.putParameter ⟨none, none⟩ =
      .ok ⟨some disposition.name, disposition.fileName⟩ ↔ Names disposition read :=
    fun read => foldlM_putParameter_eq_ok_iff
  have ends : (∃ read, Reads (token (skipOws field)).2 read ∧ Names disposition read) ↔
      parameters field ⟨none, none⟩ (token (skipOws field)).2 =
        .ok ⟨some disposition.name, disposition.fileName⟩ := by
    rw [parameters_eq_ok_iff]
    exact exists_congr fun read => and_congr_right fun _ => (names read).symm
  rw [ends, parse]
  dsimp only
  by_cases isFormData : Text.eqIgnoreAsciiCase (token (skipOws field)).1 formData = true
  · rw [if_pos isFormData, and_iff_right isFormData]
    cases parameters field ⟨none, none⟩ (token (skipOws field)).2 with
    | error detail => simp
    | ok slots =>
        obtain ⟨name, fileName⟩ := slots
        obtain ⟨wanted, wantedFile⟩ := disposition
        cases name <;> simp
  · simp [isFormData]

/-- The reader accepts exactly the dispositions of form data that name one field
and at most one file, with whitespace at either end, and returns what they spell. -/
theorem parse_exact (field : Text) (disposition : Disposition) :
    parse field = .ok disposition ↔
      ∃ lead text trail read, Blank lead ∧ Blank trail ∧ field = lead ++ (text ++ trail) ∧
        FormData read text ∧ Names disposition read := by
  rw [parse_eq_ok_iff_reads]
  constructor
  · rintro ⟨isFormData, read, reads, names⟩
    obtain ⟨lead, isLead, isField⟩ := exists_eq_append_skipOws field
    obtain ⟨rest, trail, others, isTrail, isRest⟩ := exists_of_reads reads
    have whole : skipOws field = (token (skipOws field)).1 ++ (token (skipOws field)).2 :=
      List.takeWhile_append_dropWhile.symm
    refine ⟨lead, _, trail, read, isLead, isTrail, ?_, .mk isFormData others, names⟩
    rw [List.append_assoc, ← isRest, ← whole]
    exact isField
  · rintro ⟨lead, _, trail, read, isLead, isTrail, rfl, ⟨isFormData, others⟩, names⟩
    have goesOn := goesOn_of_formData isFormData
    rw [skipOws_append isLead, List.append_assoc,
      skipOws_of_goesOn goesOn (ne_nil_of_formData isFormData),
      token_append_of_stops goesOn (stops_parameters others isTrail)]
    exact ⟨isFormData, read, reads_of_parameters others isTrail, names⟩

/-- Whitespace before the type is read past. -/
theorem parse_blank_first :
    ¬ ∀ field disposition, parse field = .ok disposition ↔
      ∃ read, FormData read field ∧ Names disposition read := by
  intro strict
  have isRead : parameter "; name=a".toList = some (some ("name".toList, ['a']), []) := by decide
  have reads : parse " form-data; name=a".toList = .ok ⟨['a'], none⟩ :=
    parse_eq_ok_iff_reads.mpr ⟨by decide, [("name".toList, ['a'])], .read isRead (.done rfl),
      by decide, by decide⟩
  obtain ⟨read, isFormData, -⟩ := (strict _ _).mp reads
  generalize isField : " form-data; name=a".toList = field at isFormData
  obtain ⟨isFormData, others⟩ := isFormData
  obtain ⟨first, others, rfl⟩ := List.exists_cons_of_ne_nil (ne_nil_of_formData isFormData)
  obtain rfl : ' ' = first := (List.cons.inj isField).1
  exact absurd (goesOn_of_formData isFormData ' ' List.mem_cons_self) (by decide)

end Kynos.Multipart.PartDisposition

import Kynos.Text.Str
import Kynos.Word.Led
import Kynos.Word.Split

/-!
# JSON Pointers

RFC 6901: a pointer is its reference tokens, each behind a slash, with tildes and
slashes escaped. A text is the pointer of one list of tokens at most.
-/

namespace Kynos.Text.Pointer

open Kynos.Word

/-- A character of a token, escaped. -/
def escapeCharacter (character : Char) : Text :=
  if character = '~' then ['~', '0'] else if character = '/' then ['~', '1'] else [character]

/-- A token, escaped. -/
def escape (token : Text) : Text :=
  token.flatMap escapeCharacter

/-- The pointer of some tokens. -/
def render (tokens : List Text) : Text :=
  tokens.flatMap fun token => '/' :: escape token

/-- The token that is escaped as a text, if one is. -/
def unescape : Text → Option Text
  | [] => some []
  | character :: rest =>
      if character = '~' then
        match rest with
        | [] => none
        | digit :: rest =>
            if digit = '0' then
              (unescape rest).map ('~' :: ·)
            else if digit = '1' then
              (unescape rest).map ('/' :: ·)
            else
              none
      else if character = '/' then
        none
      else
        (unescape rest).map (character :: ·)

/-- The tokens of a pointer, from the slash each is behind. -/
def readTokens : List Text → Option (List Text)
  | [] => some []
  | word :: words => (unescape word).bind fun token => (readTokens words).map (token :: ·)

/-- The tokens a text is the pointer of, if it is one. -/
def read (text : Text) : Option (List Text) :=
  match text.splitOn '/' with
  | [] :: words => readTokens words
  | _ => none

/-! ## Tokens -/

theorem escapeCharacter_of_ne {character : Char} (notTilde : character ≠ '~') (notSlash : character ≠ '/') :
    escapeCharacter character = [character] := by
  rw [escapeCharacter, if_neg notTilde, if_neg notSlash]

theorem notMem_escapeCharacter (character : Char) : '/' ∉ escapeCharacter character := by
  by_cases tilde : character = '~'
  · rw [tilde]
    decide
  · by_cases slash : character = '/'
    · rw [slash]
      decide
    · rw [escapeCharacter_of_ne tilde slash, List.mem_singleton]
      exact Ne.symm slash

theorem notMem_escape (token : Text) : '/' ∉ escape token := by
  rw [escape, List.mem_flatMap]
  rintro ⟨character, -, member⟩
  exact notMem_escapeCharacter character member

theorem escape_cons (character : Char) (rest : Text) :
    escape (character :: rest) = escapeCharacter character ++ escape rest :=
  List.flatMap_cons

theorem unescape_escapeCharacter (character : Char) (rest : Text) :
    unescape (escapeCharacter character ++ rest) = (unescape rest).map (character :: ·) := by
  by_cases tilde : character = '~'
  · subst tilde
    rfl
  · by_cases slash : character = '/'
    · subst slash
      rfl
    · rw [escapeCharacter_of_ne tilde slash, List.singleton_append, unescape.eq_def]
      dsimp only
      rw [if_neg tilde, if_neg slash]

theorem unescape_escape (token : Text) : unescape (escape token) = some token := by
  induction token with
  | nil => rfl
  | cons character rest ih => rw [escape_cons, unescape_escapeCharacter, ih, Option.map_some]

/-- A token is read from what it is escaped as, and from nothing else. -/
theorem unescape_eq_some_iff {text token : Text} : unescape text = some token ↔ text = escape token := by
  constructor
  · intro reads
    fun_induction unescape text generalizing token with
    | case1 => rw [← Option.some.inj reads]; rfl
    | case2 => cases reads
    | case3 rest ih =>
        obtain ⟨others, isRest, rfl⟩ := Option.map_eq_some_iff.mp reads
        rw [ih isRest]
        rfl
    | case4 rest _ ih =>
        obtain ⟨others, isRest, rfl⟩ := Option.map_eq_some_iff.mp reads
        rw [ih isRest]
        rfl
    | case5 => cases reads
    | case6 => cases reads
    | case7 character rest notTilde notSlash ih =>
        obtain ⟨others, isRest, rfl⟩ := Option.map_eq_some_iff.mp reads
        rw [ih isRest, escape_cons, escapeCharacter_of_ne notTilde notSlash]
        rfl
  · rintro rfl
    exact unescape_escape token

theorem escape_injective : Function.Injective escape := fun first second same =>
  Option.some.inj (by rw [← unescape_escape first, same, unescape_escape])

/-! ## Pointers -/

theorem readTokens_eq_some_iff {words tokens : List Text} :
    readTokens words = some tokens ↔ words = tokens.map escape := by
  induction words generalizing tokens with
  | nil => cases tokens <;> simp [readTokens]
  | cons word words ih =>
      simp only [readTokens, Option.bind_eq_some_iff, Option.map_eq_some_iff, unescape_eq_some_iff, ih]
      cases tokens with
      | nil => simp
      | cons token tokens => simp

theorem render_eq_led (tokens : List Text) : render tokens = led '/' (tokens.map escape) := by
  rw [render, led, List.flatMap_map]

/-- A text is read as the tokens it is the pointer of. -/
theorem read_eq_some_iff {text : Text} {tokens : List Text} :
    read text = some tokens ↔ text = render tokens := by
  have joined (words : List Text) : ['/'].intercalate ([] :: words) = led '/' words :=
    intercalate_eq_led [] words
  constructor
  · intro reads
    rw [read] at reads
    split at reads
    · rename_i words pieces
      rw [render_eq_led, ← readTokens_eq_some_iff.mp reads, ← joined, ← pieces,
        List.intercalate_splitOn]
    · cases reads
  · rintro rfl
    have plain : ∀ word ∈ [] :: tokens.map escape, '/' ∉ word := by
      rw [List.forall_mem_cons, List.forall_mem_map]
      exact ⟨List.not_mem_nil, fun token _ => notMem_escape token⟩
    rw [read, render_eq_led, ← joined, List.splitOn_intercalate '/' plain (List.cons_ne_nil _ _)]
    exact readTokens_eq_some_iff.mpr rfl

theorem render_injective : Function.Injective render := fun _ _ same =>
  Option.some.inj ((read_eq_some_iff.mpr rfl).symm.trans (read_eq_some_iff.mpr same))

theorem render_append (first second : List Text) : render (first ++ second) = render first ++ render second :=
  List.flatMap_append

end Kynos.Text.Pointer

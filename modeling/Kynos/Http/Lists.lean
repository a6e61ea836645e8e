import Kynos.Text.Str
import Kynos.Http.Field

/-!
# Tokens and fields that are lists

RFC 9110 section 5.6.2: a token is visible ASCII without the delimiters.

Names joined into one comma-separated value, the names a value lists, every
line of a field as one list, and the `Vary` a response is given. A joined value
lists exactly the names it was joined from.
-/

namespace Kynos.Http

/-- The delimiters. -/
def delimiters : List Char :=
  "\"(),/:;<=>?@[\\]\x7b\x7d".toList

/-- `tchar`. -/
def isTchar (character : Char) : Bool :=
  33 ≤ character.toNat && character.toNat ≤ 126 && !delimiters.contains character

/-- `is_token`, over the characters of a `str`: no octet of a character past
ASCII is visible ASCII. -/
def isToken (text : Text) : Bool :=
  !text.isEmpty && text.all isTchar

theorem toNat_of_isTchar {character : Char} (tchar : isTchar character = true) :
    33 ≤ character.toNat ∧ character.toNat ≤ 126 := by
  simp only [isTchar, Bool.and_eq_true, decide_eq_true_eq] at tchar
  exact tchar.1

theorem ne_of_isTchar {character : Char} (tchar : isTchar character = true) {delimiter : Char}
    (isDelimiter : delimiter ∈ delimiters) : character ≠ delimiter := by
  rintro rfl
  simp [isTchar, isDelimiter] at tchar

theorem isWhitespace_of_isTchar {character : Char} (tchar : isTchar character = true) :
    Text.isWhitespace character = false := by
  obtain ⟨low, high⟩ := toNat_of_isTchar tchar
  exact Text.isWhitespace_of_visible low high

section Token

variable {text : Text} (token : isToken text = true)

include token

theorem isTchar_of_mem {character : Char} (member : character ∈ text) : isTchar character = true := by
  rw [isToken, Bool.and_eq_true, List.all_eq_true] at token
  exact token.2 character member

theorem ne_nil_of_isToken : text ≠ [] := by
  rintro rfl
  cases token

theorem notMem_of_isToken {delimiter : Char} (isDelimiter : delimiter ∈ delimiters) :
    delimiter ∉ text := fun member =>
  ne_of_isTchar (isTchar_of_mem token member) isDelimiter rfl

end Token

end Kynos.Http

namespace Kynos.Http

/-- `join_names`: names as one comma-separated field value. -/
def joinNames : List Text → Option HeaderValue
  | [] => none
  | name :: rest =>
      HeaderValue.fromStr (rest.foldl (fun joined name => joined ++ ", ".toList ++ name) name)

/-- The members of a list, empty ones left out. -/
def members (text : Text) : List Text :=
  ((text.splitOn ',').map Text.trimOws).filter (· ≠ [])

/-- Whether a field value lists a name. -/
def Lists (value : HeaderValue) (name : Text) : Prop :=
  ∃ text, value.toStr = some text ∧ name ∈ members text

/-- `field_lines`: every line of a field, comma-joined; a line that is not
visible ASCII is skipped, and no line left is no field. -/
def fieldLines (fields : HeaderMap) (name : Text) : Option Text :=
  match (fields.getAll name).filterMap HeaderValue.toStr with
  | [] => none
  | first :: rest => some (rest.foldl (fun joined line => joined ++ ',' :: line) first)

/-! ## Joined names -/

/-- A name a list may hold: visible ASCII, and no comma. -/
def IsListName (name : Text) : Prop :=
  name ≠ [] ∧ ∀ character ∈ name,
    33 ≤ character.toNat ∧ character.toNat < 127 ∧ character ≠ ','

instance : DecidablePred IsListName := fun name =>
  decidable_of_iff
    (name ≠ [] ∧ name.all fun character => 33 ≤ character.toNat ∧ character.toNat < 127 ∧ character ≠ ',')
    (and_congr_right fun _ => List.all_iff_forall_prop)

theorem foldl_join (names : List Text) (joined : Text) :
    names.foldl (fun joined name => joined ++ ", ".toList ++ name) joined =
      joined ++ names.flatMap fun name => ',' :: ' ' :: name := by
  induction names generalizing joined with
  | nil => simp
  | cons name rest ih =>
      rw [List.foldl_cons, ih, List.flatMap_cons]
      simp

theorem splitOn_join {names : List Text} {first : Text} (firstPlain : ',' ∉ first)
    (plain : ∀ name ∈ names, ',' ∉ name) :
    (first ++ names.flatMap fun name => ',' :: ' ' :: name).splitOn ',' =
      first :: names.map (' ' :: ·) := by
  induction names generalizing first with
  | nil => simp [List.splitOn_eq_singleton firstPlain]
  | cons name rest ih =>
      have namePlain : ',' ∉ ' ' :: name := by simp [plain name List.mem_cons_self]
      rw [List.flatMap_cons, List.cons_append, List.splitOn_append_cons_self,
        List.splitOn_eq_singleton firstPlain, List.cons_append, List.nil_append,
        ih namePlain fun other member => plain other (List.mem_cons_of_mem _ member)]
      rfl

theorem trimOws_of_isListName {name : Text} (listName : IsListName name) :
    Text.trimOws name = name ∧ Text.trimOws (' ' :: name) = name := by
  have solid : ∀ character ∈ name, (character == ' ' || character == '\t') = false := by
    intro character member
    obtain ⟨visible, _⟩ := listName.2 character member
    rw [Bool.or_eq_false_iff]
    constructor <;>
      · rw [beq_eq_false_iff_ne]
        rintro rfl
        exact absurd visible (by decide)
  have trimmed : Text.trimOws name = name := Word.trimBy_eq_self_of_forall solid
  refine ⟨trimmed, ?_⟩
  have blank : Text.trimOws (' ' :: name) = Text.trimOws name := by
    simp [Text.trimOws, Word.trimBy]
  rw [blank, trimmed]

/-- Names that may be listed are joined into a value that lists exactly them. -/
theorem exists_joinNames {names : List Text} (nonempty : names ≠ [])
    (listNames : ∀ name ∈ names, IsListName name) :
    ∃ value, joinNames names = some value ∧ ∀ name, Lists value name ↔ name ∈ names := by
  cases names with
  | nil => contradiction
  | cons first rest =>
      have isText : ∀ character ∈ first ++ rest.flatMap (fun name => ',' :: ' ' :: name),
          HeaderValue.IsTextCharacter character := by
        intro character member
        rcases List.mem_append.mp member with inFirst | inRest
        · obtain ⟨visible, below, _⟩ := (listNames first List.mem_cons_self).2 character inFirst
          exact .inl ⟨by omega, below⟩
        · obtain ⟨name, nameMember, inName⟩ := List.mem_flatMap.mp inRest
          rcases List.mem_cons.mp inName with rfl | inName
          · decide
          · rcases List.mem_cons.mp inName with rfl | inName
            · decide
            · obtain ⟨visible, below, _⟩ :=
                (listNames name (List.mem_cons_of_mem _ nameMember)).2 character inName
              exact .inl ⟨by omega, below⟩
      obtain ⟨value, sent, reads⟩ := HeaderValue.exists_fromStr isText
      refine ⟨value, by rw [joinNames, foldl_join, sent], fun name => ?_⟩
      have plain : ∀ name ∈ first :: rest, ',' ∉ name := fun name member comma =>
        ((listNames name member).2 ',' comma).2.2 rfl
      have split := splitOn_join (plain first List.mem_cons_self)
        fun name member => plain name (List.mem_cons_of_mem _ member)
      have trims : ((first :: rest.map (' ' :: ·)).map Text.trimOws) = first :: rest := by
        rw [List.map_cons, (trimOws_of_isListName (listNames first List.mem_cons_self)).1,
          List.map_map]
        congr 1
        conv_rhs => rw [← List.map_id rest]
        exact List.map_congr_left fun name member =>
          (trimOws_of_isListName (listNames name (List.mem_cons_of_mem _ member))).2
      have kept : (first :: rest).filter (· ≠ []) = first :: rest :=
        List.filter_eq_self.mpr fun name member => by simpa using (listNames name member).1
      simp only [Lists, reads, Option.some.injEq, exists_eq_left', members, split, trims, kept]

/-- A name is listed by the value of the names it is one of. -/
theorem exists_lists_joinNames_iff {names : List Text} (listNames : ∀ name ∈ names, IsListName name)
    {name : Text} : (∃ value, joinNames names = some value ∧ Lists value name) ↔ name ∈ names := by
  by_cases none : names = []
  · simp [none, joinNames]
  · obtain ⟨value, isJoined, reads⟩ := exists_joinNames none listNames
    simp [isJoined, reads]

end Kynos.Http

import Kynos.Collection.Assoc
import Kynos.Http.Field
import Kynos.Http.Lists
import Kynos.Word.Padded

/-!
# `Vary`

The field is a set of field names that several interceptors contribute to. A
contribution is merged over octets into whatever lines the response carries, and
a star, which stands for every name, is never narrowed.
-/

namespace Kynos.Http

open Kynos.Word Kynos.Collection

namespace Vary

/-- The member that stands for every field name. -/
def star : Octets := [42]

/-- Every non-empty member of every `Vary` line, trimmed. -/
def members (fields : HeaderMap) : List Octets :=
  (((fields.getAll Header.vary).flatMap fun line => line.octets.splitOn 44).map
    Octets.trimAscii).filter fun member => !member.isEmpty

/-- Each of the names neither known nor an earlier name, in any case. -/
def addedFrom (known : List Octets) : List Text → List Octets
  | [] => []
  | name :: rest =>
      if known.any (Octets.eqIgnoreAsciiCase · name.toOctets) then
        addedFrom (known ++ [name.toOctets]) rest
      else
        name.toOctets :: addedFrom (known ++ [name.toOctets]) rest

/-- The names that are neither members nor earlier names. -/
def added (fields : HeaderMap) (names : List Text) : List Octets :=
  addedFrom (members fields) names

/-- The rewritten line. -/
def joined (pieces : List Octets) : Octets :=
  pieces.foldl (fun line piece => (if line.isEmpty then line else line ++ [44, 32]) ++ piece) []

/-- The line the members and the added names are sent in; `none` where no name
is added. The one name added to no member is the whole line. -/
def rewritten (fields : HeaderMap) (names : List Text) : Option Octets :=
  match added fields names with
  | [] => none
  | [last] => some (if members fields = [] then last else joined (members fields ++ [last]))
  | several => some (joined (members fields ++ several))

end Vary

/-- `vary_on`. -/
def varyOn (fields : HeaderMap) (names : List Text) : HeaderMap :=
  if Vary.star ∈ Vary.members fields then
    fields
  else
    match Vary.rewritten fields names with
    | none => fields
    | some line =>
        match HeaderValue.fromBytes line with
        | none => fields
        | some value => fields.insert Header.vary value

namespace Vary

/-! ## The names that are added -/

/-- Names are compared in lower case. -/
def key (name : Octets) : Octets :=
  name.map Octets.toAsciiLower

/-- The octets of the names of a list. -/
def spelled (names : List Text) : List Octets :=
  names.map Text.toOctets

theorem addedFrom_eq_fresh (known : List Octets) (names : List Text) :
    addedFrom known names = fresh key (known.map key) (spelled names) := by
  induction names generalizing known with
  | nil => rfl
  | cons name rest ih =>
      have isKnown : known.any (Octets.eqIgnoreAsciiCase · name.toOctets) = true ↔
          key name.toOctets ∈ known.map key := by
        simp [List.any_eq_true, Octets.eqIgnoreAsciiCase, key]
      have longer : ∀ wanted : Octets,
          wanted ∈ (known ++ [name.toOctets]).map key ↔ wanted ∈ key name.toOctets :: known.map key := by
        simp [or_comm]
      rw [addedFrom, spelled, List.map_cons]
      by_cases member : key name.toOctets ∈ known.map key
      · have nothingNew : ∀ wanted : Octets,
            wanted ∈ key name.toOctets :: known.map key ↔ wanted ∈ known.map key :=
          fun wanted => List.mem_cons.trans (or_iff_right_of_imp fun isName => isName ▸ member)
        rw [if_pos (isKnown.mpr member), fresh_cons_of_mem member, ih,
          fresh_congr fun wanted => (longer wanted).trans (nothingNew wanted)]
        rfl
      · rw [if_neg (mt isKnown.mp member), fresh_cons_of_notMem member, ih, fresh_congr longer]
        rfl

theorem added_eq_fresh (fields : HeaderMap) (names : List Text) :
    added fields names = fresh key ((members fields).map key) (spelled names) :=
  addedFrom_eq_fresh _ _

/-! ## Members -/

/-- What a member of a `Vary` line is: not empty, without a comma, trimmed, and
of octets a field value may hold. -/
structure Member (piece : Octets) : Prop where
  nonempty : piece ≠ []
  noComma : 44 ∉ piece
  solid : Solid Octets.isAsciiWhitespace piece
  valid : ∀ octet ∈ piece, isFieldOctet octet = true

theorem member_of_mem {fields : HeaderMap} {piece : Octets} (member : piece ∈ members fields) :
    Member piece := by
  obtain ⟨trimmed, nonempty⟩ := List.mem_filter.mp member
  obtain ⟨untrimmed, inLine, rfl⟩ := List.mem_map.mp trimmed
  obtain ⟨line, -, inPieces⟩ := List.mem_flatMap.mp inLine
  have letters : ∀ octet ∈ Octets.trimAscii untrimmed, octet ∈ line.octets ∧ octet ≠ 44 :=
    fun octet inside => mem_of_mem_splitOn inPieces octet
      ((trimBy_isInfix Octets.isAsciiWhitespace untrimmed).subset inside)
  refine ⟨by simpa using nonempty, fun comma => (letters 44 comma).2 rfl,
    solid_trimBy _ untrimmed, fun octet inside => ?_⟩
  exact List.all_eq_true.mp line.valid octet (letters octet inside).1

/-- The octets of a field name are visible, and none is a comma. -/
theorem visible_of_isToken {name : Text} (token : isToken name = true) :
    ∀ octet ∈ name.toOctets, 33 ≤ octet.toNat ∧ octet.toNat ≤ 126 ∧ octet ≠ 44 := by
  have isText : ∀ character ∈ name, HeaderValue.IsTextCharacter character := fun character member => by
    have bounds := toNat_of_isTchar (isTchar_of_mem token member)
    exact .inl (by omega)
  intro octet member
  obtain ⟨character, inName, code⟩ := HeaderValue.exists_of_mem_toOctets isText member
  have tchar := isTchar_of_mem token inName
  rw [code]
  obtain ⟨low, high⟩ := toNat_of_isTchar tchar
  refine ⟨low, high, fun isComma => ?_⟩
  rw [isComma] at code
  exact ne_of_isTchar tchar (show ',' ∈ delimiters by decide) (Char.toNat_inj.mp code.symm)

/-- A field name is a member. -/
theorem member_of_isToken {name : Text} (token : isToken name = true) : Member name.toOctets := by
  have visible := visible_of_isToken token
  refine ⟨?_, fun comma => (visible 44 comma).2.2 rfl, .of_forall fun octet inside => ?_,
    fun octet inside => ?_⟩
  · obtain ⟨character, rest, rfl⟩ := List.exists_cons_of_ne_nil (ne_nil_of_isToken token)
    rw [Text.toOctets, List.flatMap_cons]
    simp [String.utf8EncodeChar_ne_nil]
  · obtain ⟨low, high, -⟩ := visible octet inside
    simp only [Octets.isAsciiWhitespace, Bool.or_eq_false_iff, beq_eq_false_iff_ne, ne_eq,
      ← UInt8.toNat_inj]
    simp
    omega
  · obtain ⟨low, high, -⟩ := visible octet inside
    simp only [isFieldOctet, Bool.or_eq_true, Bool.and_eq_true, decide_eq_true_eq, bne_iff_ne,
      UInt8.le_iff_toNat_le, ne_eq, ← UInt8.toNat_inj]
    simp
    omega

/-! ## The rewritten line -/

theorem foldl_joined {line : Octets} (started : line ≠ []) (pieces : List Octets) :
    pieces.foldl (fun line piece => (if line.isEmpty then line else line ++ [44, 32]) ++ piece) line =
      line ++ pieces.flatMap ([44, 32] ++ ·) := by
  induction pieces generalizing line with
  | nil => simp
  | cons piece rest ih =>
      have notEmpty : line.isEmpty = false := by simpa using started
      have longer : line ++ [44, 32] ++ piece ≠ [] := by simp
      rw [List.foldl_cons, notEmpty, if_neg Bool.false_ne_true, ih longer, List.flatMap_cons]
      simp

theorem joined_eq_intercalate {pieces : List Octets} (areMembers : ∀ piece ∈ pieces, Member piece) :
    joined pieces = [44, 32].intercalate pieces := by
  cases pieces with
  | nil => rfl
  | cons first rest =>
      have nonempty := (areMembers first List.mem_cons_self).nonempty
      rw [intercalate_cons, joined, List.foldl_cons, List.isEmpty_nil, if_pos rfl, List.nil_append,
        foldl_joined nonempty]

/-- The members of a line that is written are the pieces it was joined of. -/
theorem pieces_joined {pieces : List Octets} (areMembers : ∀ piece ∈ pieces, Member piece) :
    (((joined pieces).splitOn 44).map Octets.trimAscii).filter (fun member => !member.isEmpty) =
      pieces := by
  by_cases none : pieces = []
  · subst pieces
    rfl
  · have trimmed : (([44, 32].intercalate pieces).splitOn 44).map Octets.trimAscii = pieces :=
      map_trimBy_splitOn_spaced rfl rfl (fun piece member => (areMembers piece member).noComma)
        (fun piece member => (areMembers piece member).solid) none
    rw [joined_eq_intercalate areMembers, trimmed, List.filter_eq_self]
    intro piece member
    simpa using (areMembers piece member).nonempty

/-- A line of members is a field value. -/
theorem valid_joined {pieces : List Octets} (areMembers : ∀ piece ∈ pieces, Member piece) :
    (joined pieces).all isFieldOctet = true := by
  rw [List.all_eq_true, joined_eq_intercalate areMembers]
  cases pieces with
  | nil => simp
  | cons first rest =>
      rw [intercalate_cons]
      intro octet member
      rcases List.mem_append.mp member with inFirst | inRest
      · exact (areMembers first List.mem_cons_self).valid octet inFirst
      · obtain ⟨piece, inPieces, inLed⟩ := List.mem_flatMap.mp inRest
        rcases List.mem_append.mp inLed with inGlue | inPiece
        · have glue : ∀ octet ∈ ([44, 32] : Octets), isFieldOctet octet = true :=
            List.all_iff_forall_prop.mp (by decide)
          exact glue octet inGlue
        · exact (areMembers piece (List.mem_cons_of_mem _ inPieces)).valid octet inPiece

/-! ## The merge -/

theorem rewritten_eq (fields : HeaderMap) (names : List Text) :
    rewritten fields names =
      if added fields names = [] then none
      else some (joined (members fields ++ added fields names)) := by
  rw [rewritten]
  cases isAdded : added fields names with
  | nil => rfl
  | cons name rest =>
      rw [if_neg (List.cons_ne_nil _ _)]
      cases rest with
      | cons => rfl
      | nil =>
          by_cases none : members fields = []
          · simp [none, joined]
          · simp [none]

theorem varyOn_of_star {fields : HeaderMap} (starred : star ∈ members fields) (names : List Text) :
    varyOn fields names = fields := by
  rw [varyOn, if_pos starred]

theorem varyOn_of_known {fields : HeaderMap} {names : List Text} (none : added fields names = []) :
    varyOn fields names = fields := by
  rw [varyOn, rewritten_eq, if_pos none]
  exact ite_self fields

theorem added_eq_nil_iff {fields : HeaderMap} {names : List Text} :
    added fields names = [] ↔ ∀ name ∈ names, key name.toOctets ∈ (members fields).map key := by
  rw [added_eq_fresh, fresh_eq_nil_iff, spelled, List.forall_mem_map]

theorem eq_of_toAsciiLower_eq_star {octet : UInt8} (lowered : Octets.toAsciiLower octet = 42) :
    octet = 42 := by
  rw [Octets.toAsciiLower] at lowered
  split at lowered
  · rename_i upper
    rw [Bool.and_eq_true, decide_eq_true_eq, decide_eq_true_eq, UInt8.le_iff_toNat_le,
      UInt8.le_iff_toNat_le] at upper
    have code := congrArg UInt8.toNat lowered
    simp only [UInt8.toNat_add, UInt8.reduceToNat] at code upper
    omega
  · exact lowered

/-- A star has no other spelling. -/
theorem star_mem_iff {pieces : List Octets} : star ∈ pieces ↔ star ∈ pieces.map key := by
  constructor
  · intro member
    have keyed : key star ∈ pieces.map key := List.mem_map_of_mem member
    exact keyed
  · intro member
    obtain ⟨piece, inPieces, isStar⟩ := List.mem_map.mp member
    obtain ⟨octet, rfl, lowered⟩ := List.map_eq_singleton_iff.mp isStar
    rwa [eq_of_toAsciiLower_eq_star lowered] at inPieces

/-- A merge changes no other field. -/
theorem remove_varyOn (fields : HeaderMap) (names : List Text) :
    (varyOn fields names).remove Header.vary = fields.remove Header.vary := by
  unfold varyOn
  split
  · rfl
  · split
    · rfl
    · split
      · rfl
      · exact HeaderMap.remove_insert fields Header.vary _

theorem getAll_varyOn_of_ne {name : Text} (different : name ≠ Header.vary) (fields : HeaderMap)
    (names : List Text) : (varyOn fields names).getAll name = fields.getAll name := by
  have same := congrArg (HeaderMap.getAll · name) (remove_varyOn fields names)
  simpa only [HeaderMap.getAll_remove_of_ne different] using same

section Merged

variable (fields : HeaderMap) {names : List Text} (tokens : ∀ name ∈ names, isToken name = true)

include tokens

theorem areMembers_append : ∀ piece ∈ members fields ++ added fields names, Member piece := by
  intro piece member
  rcases List.mem_append.mp member with present | isAdded
  · exact member_of_mem present
  · rw [added_eq_fresh] at isAdded
    obtain ⟨name, inNames, rfl⟩ := List.mem_map.mp ((fresh_sublist key _ _).subset isAdded)
    exact member_of_isToken (tokens name inNames)

/-- The members after a merge are those before it and the names added. -/
theorem members_varyOn (notStar : star ∉ members fields) :
    members (varyOn fields names) = members fields ++ added fields names := by
  by_cases none : added fields names = []
  · rw [varyOn_of_known none, none, List.append_nil]
  · have pieces := areMembers_append fields tokens
    rw [varyOn, if_neg notStar, rewritten_eq, if_neg none]
    simp only [HeaderValue.fromBytes, dif_pos (valid_joined pieces)]
    rw [members, HeaderMap.getAll_insert, if_pos rfl, List.flatMap_singleton, pieces_joined pieces]

theorem mem_members_varyOn (notStar : star ∉ members fields) {wanted : Octets} :
    wanted ∈ (members (varyOn fields names)).map key ↔
      wanted ∈ (members fields).map key ∨ wanted ∈ (spelled names).map key := by
  rw [members_varyOn fields tokens notStar, List.map_append, List.mem_append, added_eq_fresh,
    mem_map_fresh]
  by_cases present : wanted ∈ (members fields).map key <;> simp [present]

theorem star_mem_members_varyOn :
    star ∈ members (varyOn fields names) ↔ star ∈ members fields ∨ star ∈ spelled names := by
  by_cases starred : star ∈ members fields
  · rw [varyOn_of_star starred]
    simp [starred]
  · rw [star_mem_iff, mem_members_varyOn fields tokens starred, ← star_mem_iff, ← star_mem_iff]

/-- A merge repeated changes nothing. -/
theorem varyOn_varyOn : varyOn (varyOn fields names) names = varyOn fields names := by
  by_cases starred : star ∈ members fields
  · rw [varyOn_of_star starred, varyOn_of_star starred]
  · refine varyOn_of_known (added_eq_nil_iff.mpr fun name member => ?_)
    exact (mem_members_varyOn fields tokens starred).mpr
      (.inr (List.mem_map_of_mem (List.mem_map_of_mem member)))

end Merged

/-- Merges in either order name the same fields, ignoring case, unless one of
them names the star. -/
theorem mem_members_comm {fields : HeaderMap} {names others : List Text}
    (tokens : ∀ name ∈ names, isToken name = true)
    (otherTokens : ∀ name ∈ others, isToken name = true) (notStar : star ∉ spelled names)
    (otherNotStar : star ∉ spelled others) {wanted : Octets} :
    wanted ∈ (members (varyOn (varyOn fields names) others)).map key ↔
      wanted ∈ (members (varyOn (varyOn fields others) names)).map key := by
  by_cases starred : star ∈ members fields
  · simp only [varyOn_of_star starred]
  · have first : star ∉ members (varyOn fields names) := by
      simp [star_mem_members_varyOn fields tokens, starred, notStar]
    have second : star ∉ members (varyOn fields others) := by
      simp [star_mem_members_varyOn fields otherTokens, starred, otherNotStar]
    rw [mem_members_varyOn _ otherTokens first, mem_members_varyOn _ tokens starred,
      mem_members_varyOn _ tokens second, mem_members_varyOn _ otherTokens starred]
    exact or_right_comm

/-! ## A union -/

/-- A merge of field names is a set union. The members are followed by each name
not among them, once, in any case; a star is left as it is, and so are the lines
where no name is new; other fields keep their lines. Merged again, the names
change nothing, and in either order two lists give the same members in any case,
or both a star where one of them holds it. -/
theorem varyOn_union (fields : HeaderMap) {names others : List Text}
    (tokens : ∀ name ∈ names, isToken name = true)
    (otherTokens : ∀ name ∈ others, isToken name = true) :
    (star ∉ members fields →
        ∃ new, members (varyOn fields names) = members fields ++ new ∧
          new.Sublist (spelled names) ∧ (new.map key).Nodup ∧
          ∀ wanted, wanted ∈ new.map key ↔
            wanted ∈ (spelled names).map key ∧ wanted ∉ (members fields).map key) ∧
      (star ∈ members fields → varyOn fields names = fields) ∧
      (varyOn fields names).remove Header.vary = fields.remove Header.vary ∧
      ((∀ name ∈ names, key name.toOctets ∈ (members fields).map key) →
        varyOn fields names = fields) ∧
      varyOn (varyOn fields names) names = varyOn fields names ∧
      (star ∉ spelled names → star ∉ spelled others →
        ∀ wanted, wanted ∈ (members (varyOn (varyOn fields names) others)).map key ↔
          wanted ∈ (members (varyOn (varyOn fields others) names)).map key) ∧
      (star ∈ members (varyOn (varyOn fields names) others) ↔
        star ∈ members (varyOn (varyOn fields others) names)) := by
  refine ⟨fun notStar => ⟨added fields names, members_varyOn fields tokens notStar, ?_, ?_, ?_⟩,
    fun starred => varyOn_of_star starred names, remove_varyOn fields names,
    fun known => varyOn_of_known (added_eq_nil_iff.mpr known), varyOn_varyOn fields tokens,
    fun notStar otherNotStar _ => mem_members_comm tokens otherTokens notStar otherNotStar, ?_⟩
  · rw [added_eq_fresh]
    exact fresh_sublist key _ _
  · rw [added_eq_fresh]
    exact nodup_map_fresh key _ _
  · intro wanted
    rw [added_eq_fresh]
    exact mem_map_fresh
  · rw [star_mem_members_varyOn _ otherTokens, star_mem_members_varyOn _ tokens,
      star_mem_members_varyOn _ tokens, star_mem_members_varyOn _ otherTokens]
    exact or_right_comm

/-- A response that varies on a cookie. -/
def cookieFields : HeaderMap :=
  HeaderMap.empty.append Header.vary ⟨Text.toOctets "cookie".toList, by decide⟩

theorem varyOn_union_cookie :
    star ∉ members cookieFields ∧
      (∃ new, members (varyOn cookieFields ["accept".toList]) = members cookieFields ++ new) ∧
      varyOn (varyOn cookieFields ["accept".toList]) ["accept".toList] =
        varyOn cookieFields ["accept".toList] := by
  have notStar : star ∉ members cookieFields := by decide
  have accept : ∀ name ∈ ["accept".toList], isToken name = true := by decide
  have origin : ∀ name ∈ ["origin".toList], isToken name = true := by decide
  obtain ⟨appends, -, -, -, repeated, -⟩ := varyOn_union cookieFields accept origin
  obtain ⟨new, added, -⟩ := appends notStar
  exact ⟨notStar, ⟨new, added⟩, repeated⟩

/-- The two orders differ where a list names the star, and what is no field name
is not read back. -/
theorem not_varyOn_comm_star :
    (key (Text.toOctets "accept".toList) ∈
        (members (varyOn (varyOn HeaderMap.empty ["accept".toList]) [['*']])).map key ∧
      key (Text.toOctets "accept".toList) ∉
        (members (varyOn (varyOn HeaderMap.empty [['*']]) ["accept".toList])).map key) ∧
      members (varyOn HeaderMap.empty ["a,b".toList]) ≠ [Text.toOctets "a,b".toList] := by
  decide

end Vary

end Kynos.Http

import Kynos.Assets.Walk
import Kynos.Collection.Sorted
import Mathlib.Data.Prod.Lex

/-!
# Stored codings are folded into what they encode

Whether a file is a stored coding depends on whether what it encodes is one.
One pass over the files, the shorter names first, decides all of them: every
file is embedded once, as itself or as one coding of a file that is not a
coding. In what order the files are listed makes no difference.
-/

namespace Kynos.Assets

open Kynos.Collection

/-! ## What a file is a coding of -/

/-- The suffix a coding is stored under. -/
def suffixOf (coding : Text) : Text :=
  ((storedCodings.find? fun stored => stored.2 == coding).map Prod.fst).getD []

theorem suffixOf_ne_nil {coding : Text} (stored : coding ∈ storedCodings.map Prod.snd) :
    suffixOf coding ≠ [] := by
  simp only [storedCodings, List.map_cons, List.map_nil, List.mem_cons, List.not_mem_nil,
    or_false] at stored
  rcases stored with rfl | rfl | rfl <;> decide

theorem storedCoding_eq_some_iff {name coding base : Text} :
    storedCoding name = some (coding, base) ↔
      coding ∈ storedCodings.map Prod.snd ∧ name = base ++ suffixOf coding := by
  constructor
  · intro stored
    obtain ⟨⟨suffix, token⟩, member, strips⟩ := List.exists_of_findSome?_eq_some stored
    obtain ⟨front, ends, same⟩ := Option.map_eq_some_iff.mp strips
    cases same
    refine ⟨List.mem_map_of_mem member, (Uri.stripEnd_eq_some_iff.mp ends).trans ?_⟩
    simp only [storedCodings, List.mem_cons, List.not_mem_nil, or_false] at member
    rcases member with same | same | same <;> cases same <;> rfl
  · rintro ⟨token, rfl⟩
    simp only [storedCodings, List.map_cons, List.map_nil, List.mem_cons, List.not_mem_nil,
      or_false] at token
    rcases token with rfl | rfl | rfl <;>
      simp [storedCoding, storedCodings, suffixOf, Uri.stripEnd, List.isSuffixOf]

/-- A path is folded away among others where it has the suffix of a coding,
and the rest of it is among them and not folded away itself. -/
def isCoding (paths : List Text) (path : Text) : Bool :=
  match stored : storedCoding path with
  | none => false
  | some (_, base) => paths.contains base && !isCoding paths base
termination_by path.length
decreasing_by
  obtain ⟨token, rfl⟩ := storedCoding_eq_some_iff.mp stored
  rw [List.length_append]
  exact Nat.lt_add_of_pos_right (List.length_pos_iff.mpr (suffixOf_ne_nil token))

theorem isCoding_iff {paths : List Text} {path : Text} :
    isCoding paths path = true ↔
      ∃ coding base, storedCoding path = some (coding, base) ∧ base ∈ paths ∧
        isCoding paths base = false := by
  rw [isCoding.eq_def]
  split
  · next none =>
      simp [none]
  · next coding base stored =>
      rw [stored]
      constructor
      · intro folded
        rw [Bool.and_eq_true, List.contains_iff_mem, Bool.not_eq_true'] at folded
        exact ⟨coding, base, rfl, folded⟩
      · rintro ⟨_, _, same, known, kept⟩
        cases same
        rw [Bool.and_eq_true, List.contains_iff_mem, Bool.not_eq_true']
        exact ⟨known, kept⟩

/-! ## Where a file is placed -/

/-- The file a resource was. -/
def Embedded.resource (file : Embedded) : Found :=
  ⟨file.path, file.contents, file.etag⟩

/-- The file a coding of a resource was. -/
def Embedded.coding (file : Embedded) (encoded : Encoded) : Found :=
  ⟨file.path ++ suffixOf encoded.coding, encoded.contents, encoded.etag⟩

/-- The files the codings of a resource were. -/
def Embedded.codings (file : Embedded) : List Found :=
  file.encodings.map file.coding

/-- A resource and its codings. -/
def Embedded.placed (file : Embedded) : List Found :=
  file.resource :: file.codings

/-- What holds of the files embedded among some, when a part of them is done. -/
structure Folding.Places (folding : Folding) (paths : List Text) (done : List Found) : Prop where
  known : ∀ path index, folding.indexOf.lookup path = some index →
    ∃ file, folding.embedded[index]? = some file ∧ file.path = path
  indexed : ∀ file ∈ folding.embedded, folding.indexOf.lookup file.path ≠ none
  placed : (folding.embedded.flatMap Embedded.placed).Perm done
  stored : ∀ file ∈ folding.embedded, ∀ encoded ∈ file.encodings,
    encoded.coding ∈ storedCodings.map Prod.snd
  resources : ∀ file ∈ folding.embedded, isCoding paths file.path = false
  codings : ∀ file ∈ folding.embedded, ∀ encoded ∈ file.encodings,
    isCoding paths (file.coding encoded).path = true

theorem Folding.places_nil (paths : List Text) : Folding.Places ⟨[], []⟩ paths [] where
  known := by simp
  indexed := by simp
  placed := List.Perm.nil
  stored := by simp
  resources := by simp
  codings := by simp

/-- What is done and is not a coding is a resource. -/
theorem Folding.Places.exists_resource {folding : Folding} {paths : List Text} {done : List Found}
    (places : folding.Places paths done) {found : Found} (member : found ∈ done)
    (kept : isCoding paths found.path = false) : ∃ file ∈ folding.embedded, file.resource = found := by
  obtain ⟨file, embedded, here⟩ := List.mem_flatMap.mp (places.placed.mem_iff.mpr member)
  rcases List.mem_cons.mp here with isResource | isEncoded
  · exact ⟨file, embedded, isResource.symm⟩
  · obtain ⟨encoded, inEncodings, rfl⟩ := List.mem_map.mp isEncoded
    exact absurd (places.codings file embedded encoded inEncodings) (by simp [kept])

/-- What is done and is a coding is one of a resource. -/
theorem Folding.Places.exists_coding {folding : Folding} {paths : List Text} {done : List Found}
    (places : folding.Places paths done) {found : Found} (member : found ∈ done)
    (folded : isCoding paths found.path = true) :
    ∃ file ∈ folding.embedded, found ∈ file.codings := by
  obtain ⟨file, embedded, here⟩ := List.mem_flatMap.mp (places.placed.mem_iff.mpr member)
  rcases List.mem_cons.mp here with rfl | isEncoded
  · exact absurd (places.resources file embedded) (by simp [Embedded.resource] at folded; simp [folded])
  · exact ⟨file, embedded, isEncoded⟩

/-! ## One file -/

/-- A resource with one more coding. -/
def Embedded.push (encoded : Encoded) (file : Embedded) : Embedded :=
  { file with encodings := file.encodings ++ [encoded] }

theorem placed_push (file : Embedded) (encoded : Encoded) :
    (file.push encoded).placed = file.placed ++ [file.coding encoded] := by
  simp [Embedded.push, Embedded.placed, Embedded.resource, Embedded.codings, Embedded.coding]

theorem perm_flatMap_modify {embedded : List Embedded} {index : Nat} {file : Embedded}
    {change : Embedded → Embedded} {added : List Found} (found : embedded[index]? = some file)
    (adds : (change file).placed = file.placed ++ added) :
    ((embedded.modify index change).flatMap Embedded.placed).Perm
      (embedded.flatMap Embedded.placed ++ added) := by
  induction embedded generalizing index with
  | nil => cases found
  | cons first embedded ih =>
      cases index with
      | zero =>
          cases found
          rw [List.modify_zero_cons, List.flatMap_cons, List.flatMap_cons, adds, List.append_assoc,
            List.append_assoc]
          exact List.perm_append_comm.append_left _
      | succ index =>
          rw [List.modify_succ_cons, List.flatMap_cons, List.flatMap_cons, List.append_assoc]
          exact (ih found).append_left _

/-- A file modified is one of the files, or what one of them was changed to. -/
theorem mem_modify {embedded : List Embedded} {index : Nat} {change : Embedded → Embedded}
    {file : Embedded} (member : file ∈ embedded.modify index change) :
    file ∈ embedded ∨ ∃ before, embedded[index]? = some before ∧ file = change before := by
  obtain ⟨position, found⟩ := List.mem_iff_getElem?.mp member
  rw [List.getElem?_modify, Option.map_eq_map, Option.map_eq_some_iff] at found
  obtain ⟨before, was, rfl⟩ := found
  split
  · next same =>
      subst same
      exact .inr ⟨before, was, rfl⟩
  · exact .inl (List.mem_of_getElem? was)

/-- A coding of a resource is folded into it. -/
theorem Folding.Places.push {folding : Folding} {paths : List Text} {done : List Found}
    (places : folding.Places paths done) {index : Nat} {file : Embedded} {found : Found}
    {coding : Text} (stands : folding.embedded[index]? = some file)
    (stored : storedCoding found.path = some (coding, file.path))
    (folded : isCoding paths found.path = true) :
    Folding.Places
      { folding with
        embedded := folding.embedded.modify index
          (Embedded.push ⟨coding, found.contents, found.etag⟩) }
      paths (done ++ [found]) := by
  obtain ⟨token, named⟩ := storedCoding_eq_some_iff.mp stored
  have origin : file.coding ⟨coding, found.contents, found.etag⟩ = found := by
    rw [Embedded.coding, ← named]
  constructor
  · intro path position looked
    obtain ⟨before, was, same⟩ := places.known path position looked
    rw [List.getElem?_modify, was]
    refine ⟨_, rfl, ?_⟩
    split
    · exact same
    · exact same
  · intro changed member
    rcases mem_modify member with before | ⟨before, was, rfl⟩
    · exact places.indexed changed before
    · exact places.indexed before (List.mem_of_getElem? was)
  · have pushed := perm_flatMap_modify stands (placed_push file ⟨coding, found.contents, found.etag⟩)
    rw [origin] at pushed
    exact pushed.trans (places.placed.append_right _)
  · intro changed member encoded inEncodings
    rcases mem_modify member with before | ⟨before, was, rfl⟩
    · exact places.stored changed before encoded inEncodings
    · rcases List.mem_append.mp inEncodings with old | new
      · exact places.stored before (List.mem_of_getElem? was) encoded old
      · rw [List.mem_singleton.mp new]
        exact token
  · intro changed member
    rcases mem_modify member with before | ⟨before, was, rfl⟩
    · exact places.resources changed before
    · exact places.resources before (List.mem_of_getElem? was)
  · intro changed member encoded inEncodings
    rcases mem_modify member with before | ⟨before, was, rfl⟩
    · exact places.codings changed before encoded inEncodings
    · rcases List.mem_append.mp inEncodings with old | new
      · exact places.codings before (List.mem_of_getElem? was) encoded old
      · cases stands.symm.trans was
        rw [List.mem_singleton.mp new]
        exact (congrArg (fun file => isCoding paths file.path) origin).trans folded

/-- A file that is no coding is a resource. -/
theorem Folding.Places.append {folding : Folding} {paths : List Text} {done : List Found}
    (places : folding.Places paths done) {found : Found}
    (kept : isCoding paths found.path = false) :
    Folding.Places
      { embedded := folding.embedded ++ [⟨found.path, found.contents, found.etag, []⟩]
        indexOf := (found.path, folding.embedded.length) :: folding.indexOf }
      paths (done ++ [found]) := by
  constructor
  · intro path index looked
    rw [List.lookup_cons] at looked
    split at looked
    · next same =>
        cases looked
        exact ⟨_, List.getElem?_concat_length, (eq_of_beq same).symm⟩
    · obtain ⟨file, stands, same⟩ := places.known path index looked
      exact ⟨file, List.getElem?_append_left (List.getElem?_eq_some_iff.mp stands).1 ▸ stands, same⟩
  · intro file member
    rw [List.lookup_cons]
    split
    · exact Option.some_ne_none _
    · next other =>
        rcases List.mem_append.mp member with before | new
        · exact places.indexed file before
        · rw [List.mem_singleton.mp new, beq_self_eq_true] at other
          cases other
  · rw [List.flatMap_append]
    exact places.placed.append (List.Perm.refl _)
  · intro file member encoded inEncodings
    rcases List.mem_append.mp member with before | new
    · exact places.stored file before encoded inEncodings
    · rw [List.mem_singleton.mp new] at inEncodings
      cases inEncodings
  · intro file member
    rcases List.mem_append.mp member with before | new
    · exact places.resources file before
    · rw [List.mem_singleton.mp new]
      exact kept
  · intro file member encoded inEncodings
    rcases List.mem_append.mp member with before | new
    · exact places.codings file before encoded inEncodings
    · rw [List.mem_singleton.mp new] at inEncodings
      cases inEncodings

/-- One more file is placed, when what it may encode is done. -/
theorem Folding.Places.file {folding : Folding} {paths : List Text} {done : List Found}
    (places : folding.Places paths done) (among : ∀ other ∈ done, other.path ∈ paths)
    {found : Found}
    (before : ∀ coding base, storedCoding found.path = some (coding, base) → base ∈ paths →
      ∃ other ∈ done, other.path = base) :
    (folding.file found).Places paths (done ++ [found]) := by
  unfold Folding.file
  dsimp only
  split
  · next coding index known =>
      obtain ⟨⟨token, base⟩, stored, looked⟩ := Option.bind_eq_some_iff.mp known
      obtain ⟨position, looks, same⟩ := Option.map_eq_some_iff.mp looked
      cases same
      obtain ⟨file, stands, rfl⟩ := places.known base index looks
      have embedded := List.mem_of_getElem? stands
      have isDone : file.resource ∈ done := places.placed.mem_iff.mp
        (List.mem_flatMap.mpr ⟨file, embedded, List.mem_cons_self⟩)
      exact places.push stands stored (isCoding_iff.mpr
        ⟨_, file.path, stored, among _ isDone, places.resources file embedded⟩)
  · next unknown =>
      refine places.append (Bool.eq_false_iff.mpr fun folded => ?_)
      obtain ⟨coding, base, stored, inPaths, kept⟩ := isCoding_iff.mp folded
      obtain ⟨other, isDone, rfl⟩ := before coding base stored inPaths
      obtain ⟨file, embedded, rfl⟩ := places.exists_resource isDone kept
      obtain ⟨index, looks⟩ := Option.ne_none_iff_exists'.mp (places.indexed file embedded)
      rw [stored, Option.bind_some] at unknown
      exact absurd (Option.map_eq_none_iff.mp unknown) (by
        rw [show file.resource.path = file.path from rfl, looks]
        exact Option.some_ne_none _)

/-! ## Every file, the shorter first -/

theorem byteLength_append (front back : Text) :
    byteLength (front ++ back) = byteLength front + byteLength back := by
  rw [byteLength, List.map_append, List.sum_append, byteLength, byteLength]

theorem byteLength_lt_of_storedCoding {name coding base : Text}
    (stored : storedCoding name = some (coding, base)) : byteLength base < byteLength name := by
  obtain ⟨token, rfl⟩ := storedCoding_eq_some_iff.mp stored
  obtain ⟨first, rest, same⟩ := List.exists_cons_of_ne_nil (suffixOf_ne_nil token)
  have positive := Char.utf8Size_pos first
  rw [byteLength_append, same, byteLength, byteLength, List.map_cons, List.sum_cons]
  omega

theorem shorterFirst_iff (left right : Found) :
    shorterFirst left right = true ↔
      toLex (byteLength left.path, left.path) ≤ toLex (byteLength right.path, right.path) := by
  rw [Prod.Lex.toLex_le_toLex]
  simp [shorterFirst]

theorem Folding.Places.foldl {paths : List Text} {rest : List Found}
    (ordered : rest.Pairwise fun left right => byteLength left.path ≤ byteLength right.path) :
    ∀ {folding : Folding} {done : List Found}, folding.Places paths done →
      (∀ path, path ∈ paths ↔ ∃ found ∈ done ++ rest, found.path = path) →
      (rest.foldl Folding.file folding).Places paths (done ++ rest) := by
  induction rest with
  | nil =>
      intro folding done places _
      rw [List.append_nil]
      exact places
  | cons found rest ih =>
      intro folding done places among
      obtain ⟨first, ordered⟩ := List.pairwise_cons.mp ordered
      have step : (folding.file found).Places paths (done ++ [found]) := by
        refine places.file
          (fun other isDone => (among _).mpr ⟨other, List.mem_append_left _ isDone, rfl⟩)
          fun coding base stored inPaths => ?_
        have shorter := byteLength_lt_of_storedCoding stored
        obtain ⟨other, member, rfl⟩ := (among base).mp inPaths
        rcases List.mem_append.mp member with isDone | later
        · exact ⟨other, isDone, rfl⟩
        · rcases List.mem_cons.mp later with rfl | after
          · exact absurd shorter (lt_irrefl _)
          · exact absurd (first other after) (Nat.not_le_of_lt shorter)
      rw [List.append_cons] at among ⊢
      exact ih ordered step among

/-- What one pass over all files leaves. -/
theorem places_folded (files : List Found) :
    ((files.mergeSort shorterFirst).foldl Folding.file ⟨[], []⟩).Places (files.map Found.path)
      files := by
  have ordered := (pairwise_key_mergeSort shorterFirst_iff files).imp fun {left right} before =>
    show byteLength left.path ≤ byteLength right.path from
      (Prod.Lex.le_iff.mp before).elim le_of_lt fun same => same.1.le
  have places := Folding.Places.foldl ordered
    (Folding.places_nil (files.map Found.path)) fun path => by
      rw [List.nil_append, List.mem_map]
      simp only [List.mem_mergeSort]
  exact { places with placed := places.placed.trans (List.mergeSort_perm files shorterFirst) }

/-! ## The files embedded -/

/-- A resource with its codings in the order they are stored in. -/
def Embedded.sorted (file : Embedded) : Embedded :=
  { file with
    encodings := file.encodings.mergeSort fun left right => codingPosition left ≤ codingPosition right }

theorem perm_placed_sorted (file : Embedded) : file.sorted.placed.Perm file.placed :=
  ((List.mergeSort_perm _ _).map _).cons _

theorem perm_codings_sorted (file : Embedded) : file.sorted.codings.Perm file.codings :=
  (List.mergeSort_perm _ _).map _

theorem sublist_resources (embedded : List Embedded) :
    (embedded.map Embedded.resource).Sublist (embedded.flatMap Embedded.placed) := by
  induction embedded with
  | nil => exact List.Sublist.slnil
  | cons file embedded ih =>
      rw [List.map_cons, List.flatMap_cons, Embedded.placed, List.cons_append]
      exact (ih.trans (List.sublist_append_right _ _)).cons_cons _

/-- No two files placed have one path. -/
theorem Folding.Places.nodup {folding : Folding} {paths : List Text} {done : List Found}
    (places : folding.Places paths done) (distinct : (done.map Found.path).Nodup) :
    ((folding.embedded.flatMap Embedded.placed).map Found.path).Nodup :=
  (places.placed.map Found.path).nodup_iff.mpr distinct

/-- No resource has two codings of one token. -/
theorem Folding.Places.once {folding : Folding} {paths : List Text} {done : List Found}
    (places : folding.Places paths done) (distinct : (done.map Found.path).Nodup)
    {file : Embedded} (member : file ∈ folding.embedded) :
    (file.encodings.map Encoded.coding).Nodup := by
  have part : file.codings.Sublist (folding.embedded.flatMap Embedded.placed) :=
    (List.sublist_cons_self _ _).trans (List.sublist_flatten_of_mem (List.mem_map_of_mem member))
  have apart := (places.nodup distinct).sublist (part.map Found.path)
  have paired : file.codings.map Found.path =
      (file.encodings.map Encoded.coding).map fun coding => file.path ++ suffixOf coding := by
    simp [Embedded.codings, Embedded.coding]
  rw [paired] at apart
  exact apart.of_map

theorem Folding.Places.nodup_resources {folding : Folding} {paths : List Text} {done : List Found}
    (places : folding.Places paths done) (distinct : (done.map Found.path).Nodup) :
    (folding.embedded.map Embedded.path).Nodup := by
  have part := (sublist_resources folding.embedded).map Found.path
  rw [List.map_map] at part
  exact (places.nodup distinct).sublist part

theorem codingPosition_injective {left right : Encoded}
    (storedLeft : left.coding ∈ storedCodings.map Prod.snd)
    (storedRight : right.coding ∈ storedCodings.map Prod.snd)
    (same : codingPosition left = codingPosition right) : left.coding = right.coding := by
  have found : ∀ encoded : Encoded, encoded.coding ∈ storedCodings.map Prod.snd →
      (storedCodings[codingPosition encoded]?).map Prod.snd = some encoded.coding := by
    intro encoded stored
    obtain ⟨entry, member, named⟩ := List.mem_map.mp stored
    have bound : codingPosition encoded < storedCodings.length :=
      List.findIdx_lt_length_of_exists ⟨entry, member, beq_iff_eq.mpr named⟩
    rw [List.getElem?_eq_getElem bound, Option.map_some]
    exact congrArg some (eq_of_beq (List.findIdx_getElem (w := bound)))
  exact Option.some.inj ((found left storedLeft).symm.trans (same ▸ found right storedRight))

theorem Folding.Places.nodup_positions {folding : Folding} {paths : List Text} {done : List Found}
    (places : folding.Places paths done) (distinct : (done.map Found.path).Nodup)
    {file : Embedded} (member : file ∈ folding.embedded) :
    (file.encodings.map codingPosition).Nodup := by
  refine List.pairwise_map.mpr ((List.pairwise_map.mp (places.once distinct member)).imp_of_mem
    fun {left right} inLeft inRight other same => other ?_)
  exact codingPosition_injective (places.stored file member left inLeft)
    (places.stored file member right inRight) same

/-- The files embedded are some files, each placed once: a coding of another
that is kept goes with it, and what is no coding is kept. -/
structure Folds (files : List Found) (embedded : List Embedded) : Prop where
  /-- Every file is embedded once. -/
  placed : (embedded.flatMap Embedded.placed).Perm files
  /-- What is folded away is decided by the names alone. -/
  resources : ∀ found ∈ files, found ∈ embedded.map Embedded.resource ↔
    isCoding (files.map Found.path) found.path = false
  /-- A coding has the suffix of one, and what it encodes is a resource. -/
  codings : ∀ found ∈ files, found ∈ embedded.flatMap Embedded.codings ↔
    ∃ base ∈ files, (∃ coding, storedCoding found.path = some (coding, base.path)) ∧
      base ∈ embedded.map Embedded.resource
  stored : ∀ file ∈ embedded, ∀ encoded ∈ file.encodings,
    encoded.coding ∈ storedCodings.map Prod.snd
  once : ∀ file ∈ embedded, (file.encodings.map Encoded.coding).Nodup
  ascending : embedded.Pairwise fun left right => left.path < right.path
  ordered : ∀ file ∈ embedded,
    file.encodings.Pairwise fun left right => codingPosition left < codingPosition right

section Final

variable {folding : Folding} {files : List Found}

/-- What is embedded when the pass is done. -/
theorem foldEncodings_eq (files : List Found) :
    foldEncodings files =
      (((files.mergeSort shorterFirst).foldl Folding.file ⟨[], []⟩).embedded.mergeSort
        fun left right => left.path ≤ right.path).map Embedded.sorted :=
  rfl

theorem perm_resources_sorted (embedded : List Embedded) :
    (((embedded.mergeSort fun left right => left.path ≤ right.path).map Embedded.sorted).map
      Embedded.resource).Perm (embedded.map Embedded.resource) := by
  rw [List.map_map]
  exact (List.mergeSort_perm _ _).map _

theorem perm_flatMap_sorted {part : Embedded → List Found}
    (same : ∀ file : Embedded, (part file.sorted).Perm (part file)) (embedded : List Embedded) :
    (((embedded.mergeSort fun left right => left.path ≤ right.path).map Embedded.sorted).flatMap
      part).Perm (embedded.flatMap part) := by
  rw [List.flatMap_map]
  exact (List.Perm.flatMap_left _ fun file _ => same file).trans
    ((List.mergeSort_perm _ _).flatMap_right part)

theorem Folding.Places.mem_resources_iff (places : folding.Places (files.map Found.path) files)
    (found : Found) (member : found ∈ files) :
    found ∈ folding.embedded.map Embedded.resource ↔
      isCoding (files.map Found.path) found.path = false := by
  rw [List.mem_map]
  constructor
  · rintro ⟨file, embedded, rfl⟩
    exact places.resources file embedded
  · exact places.exists_resource member

theorem Folding.Places.mem_codings_iff (places : folding.Places (files.map Found.path) files)
    (found : Found) (member : found ∈ files) :
    found ∈ folding.embedded.flatMap Embedded.codings ↔
      isCoding (files.map Found.path) found.path = true := by
  rw [List.mem_flatMap]
  constructor
  · rintro ⟨file, embedded, isEncoded⟩
    obtain ⟨encoded, inEncodings, rfl⟩ := List.mem_map.mp isEncoded
    exact places.codings file embedded encoded inEncodings
  · exact places.exists_coding member

/-- What a pass places, sorted. -/
theorem Folding.Places.folds (places : folding.Places (files.map Found.path) files)
    (distinct : (files.map Found.path).Nodup) :
    Folds files ((folding.embedded.mergeSort fun left right =>
      left.path ≤ right.path).map Embedded.sorted) := by
  have origin {file : Embedded} (member : file ∈ (folding.embedded.mergeSort fun left right =>
      left.path ≤ right.path).map Embedded.sorted) :
      ∃ before ∈ folding.embedded, before.sorted = file := by
    obtain ⟨before, embedded, same⟩ := List.mem_map.mp member
    exact ⟨before, List.mem_mergeSort.mp embedded, same⟩
  have resources := perm_resources_sorted folding.embedded
  have codings := perm_flatMap_sorted perm_codings_sorted folding.embedded
  constructor
  · exact (perm_flatMap_sorted perm_placed_sorted folding.embedded).trans places.placed
  · intro found member
    rw [resources.mem_iff]
    exact places.mem_resources_iff found member
  · intro found member
    rw [codings.mem_iff, places.mem_codings_iff found member, isCoding_iff]
    constructor
    · rintro ⟨coding, _, stored, inPaths, kept⟩
      obtain ⟨base, among, rfl⟩ := List.mem_map.mp inPaths
      exact ⟨base, among, ⟨coding, stored⟩,
        resources.mem_iff.mpr ((places.mem_resources_iff base among).mpr kept)⟩
    · rintro ⟨base, among, ⟨coding, stored⟩, isResource⟩
      exact ⟨coding, base.path, stored, List.mem_map_of_mem among,
        (places.mem_resources_iff base among).mp (resources.mem_iff.mp isResource)⟩
  · intro file member encoded inEncodings
    obtain ⟨before, embedded, rfl⟩ := origin member
    exact places.stored before embedded encoded (List.mem_mergeSort.mp inEncodings)
  · intro file member
    obtain ⟨before, embedded, rfl⟩ := origin member
    exact ((List.mergeSort_perm _ _).map _).nodup_iff.mpr (places.once distinct embedded)
  · exact List.pairwise_map.mpr
      (pairwise_lt_mergeSort (fun _ _ => decide_eq_true_iff) (places.nodup_resources distinct))
  · intro file member
    obtain ⟨before, embedded, rfl⟩ := origin member
    exact pairwise_lt_mergeSort (fun _ _ => decide_eq_true_iff)
      (places.nodup_positions distinct embedded)

end Final

theorem foldEncodings_eq_of_perm {files others : List Found}
    (distinct : (files.map Found.path).Nodup) (perm : others.Perm files) :
    foldEncodings others = foldEncodings files := by
  have separate : (files.map fun found => toLex (byteLength found.path, found.path)).Nodup := by
    refine List.Nodup.of_map (fun key => (ofLex key).2) ?_
    rw [List.map_map]
    exact distinct
  rw [foldEncodings_eq, foldEncodings_eq, mergeSort_eq_of_perm shorterFirst_iff separate perm]

/-- `fold_encodings` places every file of distinct paths once, as the names
decide, and in whatever order they are listed. -/
theorem foldEncodings_folds {files : List Found} (distinct : (files.map Found.path).Nodup) :
    Folds files (foldEncodings files) ∧
      ∀ others, others.Perm files → foldEncodings others = foldEncodings files :=
  ⟨(places_folded files).folds distinct, fun _ perm => foldEncodings_eq_of_perm distinct perm⟩

/-- A script, a coding of it, and a coding of that. -/
def scripts : List Found :=
  ["app.js.br.gz", "app.js", "app.js.br"].map fun path => ⟨path.toList, ⟨[], length_nil_le⟩, []⟩

theorem foldEncodings_folds_scripts :
    Folds scripts (foldEncodings scripts) ∧
      ∀ others, others.Perm scripts → foldEncodings others = foldEncodings scripts :=
  foldEncodings_folds (by decide)

end Kynos.Assets

import Kynos.OpenApi.PathTemplate
import Kynos.Router.Assets
import Kynos.Uri.Captures
import Mathlib.Algebra.Ring.Nat
import Mathlib.Data.Char
import Mathlib.Data.List.Lex

/-!
# Walking a directory of assets

A set of files is read from a directory when the program is compiled. A file
whose path is no path template is refused, and one that is a stored coding of
another file is folded into it. The directory is a tree that can be read.
-/

namespace Kynos.Assets

open Kynos.Http Kynos.Numeral Kynos.OpenApi

/-- What a file holds: no more octets than an address counts. -/
structure Contents where
  bytes : Octets
  bounded : bytes.length ≤ u64Max

theorem length_nil_le : ([] : Octets).length ≤ u64Max :=
  Nat.zero_le u64Max

/-- An entry of a directory. -/
inductive Entry where
  | symlink (name : Text)
  | directory (name : Text) (entries : List Entry)
  | file (name : Text) (contents : Contents)

/-- What the macro was given. -/
structure AssetArgs where
  dir : Text
  exclude : List Text

/-- How far a walk may go. -/
structure Limits where
  depth : Nat
  files : Nat

/-- `LIMITS`. -/
def limits : Limits :=
  ⟨32, 100000⟩

/-- Why a directory is refused. -/
inductive WalkError where
  | nestsDeeper (dir : Text) (levels : Nat)
  | noTemplate (relative : Text)
  | holdsMore (dir : Text) (files : Nat)
  | noServableFile (dir : Text)
  deriving DecidableEq, Repr

/-! ## Files -/

/-- The last hexadecimal digits of a number. -/
def hexadecimal : (digits number : Nat) → Text
  | 0, _ => []
  | digits + 1, number => hexadecimal digits (number / 16) ++ [Nat.digitChar (number % 16)]

/-- FNV-1a over the contents, with the length folded in. -/
def fnv1a (bytes : Octets) : UInt64 :=
  let offset : UInt64 := 0xcbf29ce484222325
  let prime : UInt64 := 0x00000100000001b3
  let hashed := bytes.foldl (fun hash byte => (hash ^^^ byte.toUInt64) * prime) offset
  (hashed ^^^ UInt64.ofNat bytes.length) * prime

/-- One file, as it was found. -/
structure Found where
  path : Text
  contents : Contents
  etag : Text

/-- Whether `exclude` names a file: by its extension, its relative path or its
bare name. -/
def excluded (args : AssetArgs) (relative name : Text) : Bool :=
  args.exclude.any fun entry =>
    if entry.head? = some '.' then entry.isSuffixOf relative else relative == entry || name == entry

/-- A file kept, where its path is a template and the set has room. -/
def keep (args : AssetArgs) (limits : Limits) (relative : Text) (contents : Contents)
    (files : List Found) : Except WalkError (List Found) :=
  match PathTemplate.parse ('/' :: relative) with
  | .error _ => .error (.noTemplate relative)
  | .ok _ =>
      let etag := '"' :: hexadecimal 16 (fnv1a contents.bytes).toNat ++ ['"']
      let files := files ++ [⟨relative, contents, etag⟩]
      if limits.files < files.length then .error (.holdsMore args.dir limits.files) else .ok files

mutual

/-- One entry of the directory at a path, which is empty or ends in a slash. -/
def collectEntry (args : AssetArgs) (limits : Limits) (directory : Text) (depth : Nat)
    (files : List Found) : Entry → Except WalkError (List Found)
  | .symlink _ => .ok files
  | .directory name entries =>
      if name.head? = some '.' then
        .ok files
      else if limits.depth < depth + 1 then
        .error (.nestsDeeper args.dir limits.depth)
      else
        collect args limits (directory ++ name ++ ['/']) (depth + 1) files entries
  | .file name contents =>
      if name.head? = some '.' then
        .ok files
      else
        let relative := (directory ++ name).map fun character =>
          if character = '\\' then '/' else character
        if excluded args relative name then .ok files else keep args limits relative contents files

/-- The entries of a directory, one after another. -/
def collect (args : AssetArgs) (limits : Limits) (directory : Text) (depth : Nat)
    (files : List Found) : List Entry → Except WalkError (List Found)
  | [] => .ok files
  | entry :: entries =>
      match collectEntry args limits directory depth files entry with
      | .error refusal => .error refusal
      | .ok files => collect args limits directory depth files entries

end

/-! ## Stored codings -/

/-- `STORED_CODINGS`: suffixes, and the coding each one names. -/
def storedCodings : List (Text × Text) :=
  [(".br".toList, "br".toList), (".gz".toList, "gzip".toList), (".zst".toList, "zstd".toList)]

/-- The coding a file is a stored form of, and the name of what it encodes. -/
def storedCoding (name : Text) : Option (Text × Text) :=
  storedCodings.findSome? fun (suffix, coding) => (Uri.stripEnd suffix name).map fun base => (coding, base)

/-- One stored coding of a file. -/
structure Encoded where
  coding : Text
  contents : Contents
  etag : Text

/-- One file as it is embedded. -/
structure Embedded where
  path : Text
  contents : Contents
  etag : Text
  encodings : List Encoded

/-- The files embedded so far, and where each path is. -/
structure Folding where
  embedded : List Embedded
  indexOf : List (Text × Nat)

/-- One file: a coding of a known one is folded into it. -/
def Folding.file (folding : Folding) (file : Found) : Folding :=
  let known := (storedCoding file.path).bind fun (coding, base) =>
    (folding.indexOf.lookup base).map fun index => (coding, index)
  match known with
  | some (coding, index) =>
      { folding with
        embedded := folding.embedded.modify index fun embedded =>
          { embedded with encodings := embedded.encodings ++ [⟨coding, file.contents, file.etag⟩] } }
  | none =>
      { embedded := folding.embedded ++ [⟨file.path, file.contents, file.etag, []⟩]
        indexOf := (file.path, folding.embedded.length) :: folding.indexOf }

/-- `str::len`. -/
def byteLength (path : Text) : Nat :=
  (path.map Char.utf8Size).sum

/-- The shorter path first, of two as long the lesser. -/
def shorterFirst (left right : Found) : Bool :=
  byteLength left.path < byteLength right.path ||
    (byteLength left.path == byteLength right.path && left.path ≤ right.path)

/-- Where a coding stands among those that are stored. -/
def codingPosition (encoded : Encoded) : Nat :=
  storedCodings.findIdx fun stored => stored.2 == encoded.coding

/-- `fold_encodings`. -/
def foldEncodings (files : List Found) : List Embedded :=
  let folded := (files.mergeSort shorterFirst).foldl Folding.file ⟨[], []⟩
  (folded.embedded.mergeSort fun left right => left.path ≤ right.path).map fun file =>
    { file with
      encodings := file.encodings.mergeSort fun left right => codingPosition left ≤ codingPosition right }

/-- What a walk found. -/
structure Walked where
  files : List Embedded
  totalBytes : Nat

/-- `walk_within`. -/
def walkWithin (args : AssetArgs) (limits : Limits) (entries : List Entry) : Except WalkError Walked :=
  match collect args limits [] 0 [] entries with
  | .error refusal => .error refusal
  | .ok files =>
      if files.isEmpty then
        .error (.noServableFile args.dir)
      else
        let files := files.mergeSort fun left right => left.path ≤ right.path
        .ok ⟨foldEncodings files, (files.map fun file => file.contents.bytes.length).sum⟩

/-- `walk`. -/
def walk (args : AssetArgs) (entries : List Entry) : Except WalkError Walked :=
  walkWithin args limits entries

/-! ## Every file walked has a template -/

/-- A path a template expresses. -/
def Servable (path : Text) : Prop :=
  ∃ template, PathTemplate.parse ('/' :: path) = .ok template

theorem servable_of_keep {args : AssetArgs} {limits : Limits} {relative : Text} {contents : Contents}
    {files kept : List Found} (keeps : keep args limits relative contents files = .ok kept)
    (servable : ∀ file ∈ files, Servable file.path) : ∀ file ∈ kept, Servable file.path := by
  unfold keep at keeps
  split at keeps
  · cases keeps
  · next template parsed =>
      simp only at keeps
      split at keeps
      · cases keeps
      · cases keeps
        intro file member
        rcases List.mem_append.mp member with before | isNew
        · exact servable file before
        · rw [List.mem_singleton.mp isNew]
          exact ⟨template, parsed⟩

mutual

theorem servable_of_collectEntry {args : AssetArgs} {limits : Limits} {directory : Text} {depth : Nat}
    {files found : List Found} (servable : ∀ file ∈ files, Servable file.path) :
    ∀ entry, collectEntry args limits directory depth files entry = .ok found →
      ∀ file ∈ found, Servable file.path
  | .symlink _, collects => by
      cases collects
      exact servable
  | .directory name entries, collects => by
      rw [collectEntry] at collects
      split at collects
      · cases collects
        exact servable
      · split at collects
        · cases collects
        · exact servable_of_collect servable entries collects
  | .file name contents, collects => by
      rw [collectEntry] at collects
      split at collects
      · cases collects
        exact servable
      · simp only at collects
        split at collects
        · cases collects
          exact servable
        · exact servable_of_keep collects servable

theorem servable_of_collect {args : AssetArgs} {limits : Limits} {directory : Text} {depth : Nat}
    {files found : List Found} (servable : ∀ file ∈ files, Servable file.path) :
    ∀ entries, collect args limits directory depth files entries = .ok found →
      ∀ file ∈ found, Servable file.path
  | [], collects => by
      cases collects
      exact servable
  | entry :: entries, collects => by
      rw [collect] at collects
      split at collects
      · cases collects
      · next collected =>
          exact servable_of_collect (servable_of_collectEntry servable entry collected) entries collects

end

theorem path_modify {embedded : List Embedded} {index : Nat} {change : Embedded → Embedded}
    (kept : ∀ file, (change file).path = file.path) :
    (embedded.modify index change).map Embedded.path = embedded.map Embedded.path := by
  induction embedded generalizing index with
  | nil => rw [List.modify_nil]
  | cons file embedded ih =>
      cases index with
      | zero => rw [List.modify_zero_cons, List.map_cons, List.map_cons, kept]
      | succ index => rw [List.modify_succ_cons, List.map_cons, List.map_cons, ih]

/-- A file embedded was found. -/
theorem exists_found_of_folding {folding : Folding} {files : List Found} {path : Text}
    (member : path ∈ (files.foldl Folding.file folding).embedded.map Embedded.path) :
    path ∈ folding.embedded.map Embedded.path ∨ ∃ file ∈ files, file.path = path := by
  induction files generalizing folding with
  | nil => exact .inl member
  | cons file files ih =>
      rcases ih member with before | ⟨later, inFiles, same⟩
      · rw [Folding.file] at before
        simp only at before
        split at before
        · simp only at before
          rw [path_modify (by exact fun _ => rfl)] at before
          exact .inl before
        · rw [List.map_append, List.mem_append] at before
          refine before.imp_right fun isNew => ⟨file, List.mem_cons_self, ?_⟩
          exact (List.mem_singleton.mp isNew).symm
      · exact .inr ⟨later, List.mem_cons_of_mem _ inFiles, same⟩

theorem exists_found_of_foldEncodings {files : List Found} {file : Embedded}
    (member : file ∈ foldEncodings files) : ∃ found ∈ files, found.path = file.path := by
  obtain ⟨folded, inFolded, rfl⟩ := List.mem_map.mp member
  have inPaths := List.mem_map_of_mem (f := Embedded.path) (List.mem_mergeSort.mp inFolded)
  rcases exists_found_of_folding inPaths with none | ⟨found, inSorted, same⟩
  · cases none
  · exact ⟨found, List.mem_mergeSort.mp inSorted, same⟩

/-- A walk only gives files whose paths are templates. -/
theorem servable_of_walk {args : AssetArgs} {entries : List Entry} {walked : Walked}
    (walks : walk args entries = .ok walked) : ∀ file ∈ walked.files, Servable file.path := by
  unfold walk walkWithin at walks
  split at walks
  · cases walks
  · next files collected =>
      split at walks
      · cases walks
      · cases walks
        intro file member
        obtain ⟨found, inFiles, same⟩ := exists_found_of_foldEncodings member
        rw [← same]
        exact servable_of_collect (by simp) entries collected found (List.mem_mergeSort.mp inFiles)

/-- Without a stored coding, every file found is embedded. -/
theorem perm_foldEncodings {files : List Found}
    (plain : ∀ file ∈ files, storedCoding file.path = none) :
    ((foldEncodings files).map Embedded.path).Perm (files.map Found.path) := by
  have step : ∀ (sorted : List Found) (folding : Folding),
      (∀ file ∈ sorted, storedCoding file.path = none) →
      (sorted.foldl Folding.file folding).embedded.map Embedded.path =
        folding.embedded.map Embedded.path ++ sorted.map Found.path := by
    intro sorted
    induction sorted with
    | nil => simp
    | cons file sorted ih =>
        intro folding plain
        obtain ⟨first, others⟩ := List.forall_mem_cons.mp plain
        rw [List.foldl_cons, ih _ others]
        simp [Folding.file, first]
  have sorted := List.mergeSort_perm files shorterFirst
  have each := step (files.mergeSort shorterFirst) ⟨[], []⟩ fun file member =>
    plain file (sorted.mem_iff.mp member)
  rw [foldEncodings, List.map_map]
  refine ((List.mergeSort_perm _ _).map _).trans ?_
  simp only [Function.comp_def]
  rw [each]
  exact sorted.map _

/-- A walk without stored codings gives the files that were collected. -/
theorem exists_walk {args : AssetArgs} {entries : List Entry} {files : List Found}
    (collects : collect args limits [] 0 [] entries = .ok files) (nonempty : files ≠ [])
    (plain : ∀ file ∈ files, storedCoding file.path = none) :
    ∃ walked, walk args entries = .ok walked ∧
      (walked.files.map Embedded.path).Perm (files.map Found.path) := by
  have notEmpty : ¬ files.isEmpty = true := mt List.isEmpty_iff.mp nonempty
  simp only [walk, walkWithin, collects, if_neg notEmpty]
  refine ⟨_, rfl, ?_⟩
  have sorted := List.mergeSort_perm files fun left right => decide (left.path ≤ right.path)
  exact (perm_foldEncodings fun file member => plain file (sorted.mem_iff.mp member)).trans
    (sorted.map _)

end Kynos.Assets

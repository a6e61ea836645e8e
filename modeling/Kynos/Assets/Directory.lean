import Kynos.Assets.Walk
import Mathlib

/-!
# Directories served from disk

A requested path is read segment by segment, and what it names is looked for one
directory below another, so that no link below the root is followed. The tree is
one that stays as it is while a request is located in it.
-/

namespace Kynos.Assets

open Kynos.Http

/-! ## Paths -/

/-- A component of a path, as Unix reads it. -/
inductive Component where
  | rootDir
  | curDir
  | parentDir
  | normal (name : Text)
  deriving DecidableEq, Repr

/-- What a piece between slashes stands for, unless it is skipped. -/
def Component.piece (piece : Text) : Option Component :=
  if piece = [] ∨ piece = ['.'] then
    none
  else if piece = ['.', '.'] then
    some .parentDir
  else
    some (.normal piece)

/-- `Path::components`: blank pieces are skipped, and a dot is kept where it comes
first. -/
def components (path : Text) : List Component :=
  let pieces := path.splitOn '/'
  let leading :=
    if path.head? = some '/' then [.rootDir]
    else if pieces.head? = some ['.'] then [.curDir]
    else []
  leading ++ pieces.filterMap Component.piece

/-- A piece of a path that is read without a slash, a blank or a dot. -/
structure Visible (name : Text) : Prop where
  nonempty : name ≠ []
  undotted : name.head? ≠ some '.'
  unslashed : '/' ∉ name

/-- A visible name is one plain component. -/
theorem Visible.components_eq {name : Text} (visible : Visible name) :
    components name = [.normal name] := by
  have notDot : name ≠ ['.'] := fun same => visible.undotted (by rw [same]; rfl)
  have notDots : name ≠ ['.', '.'] := fun same => visible.undotted (by rw [same]; rfl)
  have notSlash : name.head? ≠ some '/' := fun same => visible.unslashed (List.mem_of_head? same)
  have pieces : name.splitOn '/' = [name] := List.splitOn_eq_singleton visible.unslashed
  have piece : Component.piece name = some (.normal name) := by
    rw [Component.piece, if_neg (not_or.mpr ⟨visible.nonempty, notDot⟩), if_neg notDots]
  have first : [name].head? ≠ some ['.'] := mt Option.some.inj notDot
  simp only [components, pieces, if_neg notSlash, if_neg first, List.nil_append, List.filterMap_cons,
    piece, List.filterMap_nil]

/-! ## File systems -/

namespace Entry

/-- The name of an entry. -/
def name : Entry → Text
  | .symlink name => name
  | .directory name _ => name
  | .file name _ => name

/-- `FileType::is_symlink`. -/
def isSymlink : Entry → Bool
  | .symlink _ => true
  | .directory _ _ => false
  | .file _ _ => false

/-- The entry of a directory that has a name. -/
def child (entry : Entry) (sought : Text) : Option Entry :=
  match entry with
  | .directory _ entries => entries.find? fun entry => entry.name == sought
  | .symlink _ => none
  | .file _ _ => none

/-- The entry at the names below another, where no link is followed. -/
def find (entry : Entry) : List Text → Option Entry
  | [] => some entry
  | name :: rest => (entry.child name).bind fun child => child.find rest

theorem find_append (entry : Entry) (path rest : List Text) :
    entry.find (path ++ rest) = (entry.find path).bind fun found => found.find rest := by
  induction path generalizing entry with
  | nil => rfl
  | cons name path ih =>
      rw [List.cons_append, find, find, Option.bind_assoc]
      simp only [ih]

/-- What has an entry is a directory. -/
theorem isSymlink_of_child {entry child : Entry} {name : Text} (isChild : entry.child name = some child) :
    entry.isSymlink = false := by
  cases entry with
  | symlink _ => cases isChild
  | directory _ _ => rfl
  | file _ _ => cases isChild

end Entry

/-- What a process finds on disk at a root and below it. A path is the list of the
names below the root. -/
structure FileSystem where
  /-- Where the root leads, its own links followed. -/
  root : Option Entry
  /-- Where the link at a path leads. -/
  leads : List Text → Option Entry
  /-- Paths whose metadata cannot be read. -/
  denied : List Text → Bool
  /-- When a file was last written, in nanoseconds of the Unix epoch. -/
  modified : List Text → Option Nat
  /-- What opening a path gives, when a file is located there. -/
  opened : List Text → Option Contents

namespace FileSystem

variable (system : FileSystem)

/-- An entry, or where it leads. -/
def entered (path : List Text) : Entry → Option Entry
  | .symlink _ => system.leads path
  | entry => some entry

/-- The entry at the names below another, where a link on the way is followed and
the last one is not. -/
def walked (path : List Text) (entry : Entry) : List Text → Option Entry
  | [] => some entry
  | name :: rest =>
      (entry.child name).bind fun child =>
        if rest = [] then
          some child
        else
          (system.entered (path ++ [name]) child).bind fun entered =>
            walked (path ++ [name]) entered rest

/-- `symlink_metadata`. -/
def symlinkMetadata (path : List Text) : Option Entry :=
  if system.denied path then none else system.root.bind fun root => system.walked [] root path

/-- What `lstat` reports of a path, unless it is a link. -/
def unlinked (path : List Text) : Option Entry :=
  (system.symlinkMetadata path).filter fun metadata => !metadata.isSymlink

/-! ## Paths without links -/

/-- The entry at a path below the root, where no link is followed. -/
def find (path : List Text) : Option Entry :=
  system.root.bind fun root => root.find path

/-- A path each part of which can be asked for. -/
def Readable (path : List Text) : Prop :=
  ∀ names, names ≠ [] → names <+: path → system.denied names = false

variable {system}

theorem find_append (path rest : List Text) :
    system.find (path ++ rest) = (system.find path).bind fun entry => entry.find rest := by
  rw [find, find, Option.bind_assoc]
  simp only [Entry.find_append]

/-- What an entry holds is found below it. -/
theorem find_append_singleton {path : List Text} {parent : Entry} (found : system.find path = some parent)
    (name : Text) : system.find (path ++ [name]) = parent.child name := by
  rw [find_append, found, Option.bind_some]
  exact Option.bind_fun_some _

theorem readable_nil : system.Readable [] :=
  fun _ nonempty isPrefix => absurd (List.prefix_nil.mp isPrefix) nonempty

theorem readable_append_singleton_iff {path : List Text} {name : Text} :
    system.Readable (path ++ [name]) ↔ system.Readable path ∧ system.denied (path ++ [name]) = false := by
  constructor
  · intro readable
    exact ⟨fun names nonempty isPrefix => readable names nonempty (isPrefix.trans (List.prefix_append _ _)),
      readable _ (List.append_ne_nil_of_right_ne_nil _ (List.cons_ne_nil _ _)) List.prefix_rfl⟩
  · rintro ⟨readable, allowed⟩ names nonempty isPrefix
    rcases List.prefix_concat_iff.mp isPrefix with rfl | before
    · exact allowed
    · exact readable names nonempty before

/-- Below a directory that no link leads to, what the process finds is what the
tree holds. -/
theorem walked_append_singleton {start path : List Text} {entry parent : Entry} {name : Text}
    (found : entry.find path = some parent) (solid : path = [] ∨ parent.isSymlink = false) :
    system.walked start entry (path ++ [name]) = parent.child name := by
  induction path generalizing start entry with
  | nil =>
      cases found
      simp [walked]
  | cons first path ih =>
      obtain ⟨child, isChild, below⟩ := Option.bind_eq_some_iff.mp found
      have parentSolid : parent.isSymlink = false := solid.resolve_left (List.cons_ne_nil _ _)
      have childSolid : child.isSymlink = false := by
        cases path with
        | nil =>
            cases below
            exact parentSolid
        | cons second path =>
            obtain ⟨next, isNext, -⟩ := Option.bind_eq_some_iff.mp below
            exact Entry.isSymlink_of_child isNext
      have enters : system.entered (start ++ [first]) child = some child := by
        cases child with
        | symlink _ => cases childSolid
        | directory _ _ => rfl
        | file _ _ => rfl
      rw [List.cons_append, walked, isChild, Option.bind_some,
        if_neg (List.append_ne_nil_of_right_ne_nil _ (List.cons_ne_nil _ _)), enters, Option.bind_some]
      exact ih below (.inr parentSolid)

/-- A name is looked for below what a path without links names. -/
theorem unlinked_append_singleton_eq_some_iff {path : List Text} {parent entry : Entry} {name : Text}
    (found : system.find path = some parent) (solid : path = [] ∨ parent.isSymlink = false) :
    system.unlinked (path ++ [name]) = some entry ↔
      system.denied (path ++ [name]) = false ∧ parent.child name = some entry ∧
        entry.isSymlink = false := by
  obtain ⟨root, isRoot, below⟩ := Option.bind_eq_some_iff.mp found
  rw [unlinked, symlinkMetadata, isRoot, Option.bind_some, walked_append_singleton below solid,
    Option.filter_eq_some_iff]
  cases system.denied (path ++ [name]) with
  | true => simp
  | false => simp

end FileSystem

/-! ## Directories -/

/-- A directory served from disk: the last name of its root, and how its files are
served. Its index is one plain name. -/
structure Directory where
  rootName : Text
  cacheControl : Option HeaderValue
  index : Option Text
  plain : ∀ name, index = some name → components name = [.normal name]

namespace Directory

variable (directory : Directory) (system : FileSystem)

/-- One segment of a requested path. -/
def resolveSegment (resolved : List Text) (segment : Text) : Option (List Text) :=
  if segment = [] ∨ segment = ['.'] then
    some resolved
  else if segment.head? = some '.' then
    none
  else
    match components segment with
    | [.normal name] => some (resolved ++ [name])
    | _ => none

/-- The names a requested path resolves to, or `none` where it escapes the root or
names something hidden. -/
def resolve (requested : Text) : Option (List Text) :=
  (requested.splitOn '/').foldlM resolveSegment []

/-- Each name is looked for below the one before it. -/
def descend (path : List Text) (below : Option Entry) : List Text → Option (List Text × Option Entry)
  | [] => some (path, below)
  | name :: rest =>
      (system.unlinked (path ++ [name])).bind fun found =>
        descend (path ++ [name]) (some found) rest

/-- What is served of an entry: a directory stands for its index, and only a file
is served. -/
def settle (path : List Text) (metadata : Entry) : Option (List Text × Contents) :=
  (match metadata with
    | .directory _ _ => directory.index.bind fun index =>
        (system.unlinked (path ++ [index])).map fun metadata => (path ++ [index], metadata)
    | other => some (path, other)).bind fun (path, metadata) =>
      match metadata with
      | .file _ contents => some (path, contents)
      | .directory _ _ => none
      | .symlink _ => none

/-- The file a requested path names on disk, or `none` where nothing may be
served. -/
def locate (requested : Text) : Option (List Text × Contents) :=
  (resolve requested).bind fun resolved =>
    (descend system [] none resolved).bind fun (path, below) =>
      (below.or system.root).bind fun metadata => directory.settle system path metadata

/-! ## Resolving -/

variable {directory system}

/-- A segment that is neither blank nor a dot. -/
def isName (segment : Text) : Bool :=
  segment ≠ [] && segment ≠ ['.']

theorem isName_iff {segment : Text} : isName segment = true ↔ ¬ (segment = [] ∨ segment = ['.']) := by
  simp [isName, not_or]

/-- The names of a requested path. -/
def named (requested : Text) : List Text :=
  (requested.splitOn '/').filter isName

/-- Segments resolve to the names among them, unless one of these is hidden. -/
theorem foldlM_resolveSegment {segments resolved names : List Text}
    (unslashed : ∀ segment ∈ segments, '/' ∉ segment) :
    segments.foldlM resolveSegment resolved = some names ↔
      names = resolved ++ segments.filter isName ∧
        ∀ name ∈ segments.filter isName, name.head? ≠ some '.' := by
  induction segments generalizing resolved with
  | nil => simp [eq_comm]
  | cons segment segments ih =>
      obtain ⟨first, others⟩ := List.forall_mem_cons.mp unslashed
      rw [List.foldlM_cons, resolveSegment]
      by_cases skipped : segment = [] ∨ segment = ['.']
      · have dropped : ¬ isName segment = true := fun kept => isName_iff.mp kept skipped
        rw [if_pos skipped, Option.bind_eq_bind, Option.bind_some, ih others,
          List.filter_cons_of_neg dropped]
      · rw [if_neg skipped, List.filter_cons_of_pos (isName_iff.mpr skipped)]
        by_cases hidden : segment.head? = some '.'
        · simp [hidden]
        · have visible : Visible segment := ⟨(not_or.mp skipped).1, hidden, first⟩
          simp only [if_neg hidden, visible.components_eq, Option.bind_eq_bind, Option.bind_some]
          rw [ih others, List.append_assoc, List.singleton_append, List.forall_mem_cons,
            and_iff_right hidden]

/-- A request resolves to its names where none of them is hidden. -/
theorem resolve_eq_some_iff {requested : Text} {names : List Text} :
    resolve requested = some names ↔
      names = named requested ∧ ∀ name ∈ names, name.head? ≠ some '.' := by
  have unslashed : ∀ segment ∈ requested.splitOn '/', '/' ∉ segment := fun segment isSegment slash =>
    (Word.mem_of_mem_splitOn isSegment '/' slash).2 rfl
  rw [resolve, foldlM_resolveSegment unslashed, List.nil_append]
  constructor
  · rintro ⟨rfl, visible⟩
    exact ⟨rfl, visible⟩
  · rintro ⟨rfl, visible⟩
    exact ⟨rfl, visible⟩

/-! ## Locating -/

/-- Names are descended to what they lead to without a link. -/
theorem descend_eq_some_iff {path rest reached : List Text} {below last : Option Entry} {parent : Entry}
    (found : system.find path = some parent) (solid : path = [] ∨ parent.isSymlink = false)
    (readable : system.Readable path) :
    descend system path below rest = some (reached, last) ↔
      reached = path ++ rest ∧ system.Readable reached ∧
        ((rest = [] ∧ last = below) ∨ (rest ≠ [] ∧ ∃ entry, last = some entry ∧
          system.find reached = some entry ∧ entry.isSymlink = false)) := by
  induction rest generalizing path parent below with
  | nil =>
      rw [descend, Option.some.injEq, Prod.mk.injEq, List.append_nil]
      constructor
      · rintro ⟨rfl, rfl⟩
        exact ⟨rfl, readable, .inl ⟨rfl, rfl⟩⟩
      · rintro ⟨rfl, -, ⟨-, rfl⟩ | ⟨nonempty, -⟩⟩
        · exact ⟨rfl, rfl⟩
        · exact absurd rfl nonempty
  | cons name rest ih =>
      have isWhole : path ++ name :: rest = path ++ [name] ++ rest := List.append_cons _ _ _
      rw [descend, Option.bind_eq_some_iff]
      constructor
      · rintro ⟨child, isChild, descends⟩
        obtain ⟨allowed, inParent, childSolid⟩ :=
          (FileSystem.unlinked_append_singleton_eq_some_iff found solid).mp isChild
        have below : system.find (path ++ [name]) = some child :=
          (FileSystem.find_append_singleton found name).trans inParent
        obtain ⟨isReached, readable, ends⟩ := (ih below (.inr childSolid)
          (FileSystem.readable_append_singleton_iff.mpr ⟨readable, allowed⟩)).mp descends
        refine ⟨isReached.trans isWhole.symm, readable, .inr ⟨List.cons_ne_nil _ _, ?_⟩⟩
        rcases ends with ⟨rfl, rfl⟩ | ⟨-, ends⟩
        · rw [List.append_nil] at isReached
          exact ⟨child, rfl, isReached ▸ below, childSolid⟩
        · exact ends
      · rintro ⟨isReached, allReadable, ⟨impossible, -⟩ | ⟨-, entry, isLast, isEntry, entrySolid⟩⟩
        · cases impossible
        · rw [isWhole] at isReached
          have split := isEntry
          rw [isReached, FileSystem.find_append, FileSystem.find_append_singleton found] at split
          obtain ⟨child, inParent, after⟩ := Option.bind_eq_some_iff.mp split
          have childSolid : child.isSymlink = false := by
            cases rest with
            | nil =>
                cases after
                exact entrySolid
            | cons next rest =>
                obtain ⟨grandchild, isNext, -⟩ := Option.bind_eq_some_iff.mp after
                exact Entry.isSymlink_of_child isNext
          have allowed : system.denied (path ++ [name]) = false :=
            allReadable _ (List.append_ne_nil_of_right_ne_nil _ (List.cons_ne_nil _ _))
              (isReached ▸ List.prefix_append _ _)
          have below : system.find (path ++ [name]) = some child :=
            (FileSystem.find_append_singleton found name).trans inParent
          refine ⟨child, (FileSystem.unlinked_append_singleton_eq_some_iff found solid).mpr
            ⟨allowed, inParent, childSolid⟩, ?_⟩
          refine (ih below (.inr childSolid)
            (FileSystem.readable_append_singleton_iff.mpr ⟨readable, allowed⟩)).mpr
              ⟨isReached, allReadable, ?_⟩
          cases rest with
          | nil =>
              cases after
              exact .inl ⟨rfl, isLast⟩
          | cons next rest => exact .inr ⟨List.cons_ne_nil _ _, entry, isLast, isEntry, entrySolid⟩

/-- What the names of a request are found to be: the entry they name without a
link, each part of them readable. -/
theorem descend_root {names reached : List Text} {root entry : Entry} (isRoot : system.root = some root) :
    (∃ last, descend system [] none names = some (reached, last) ∧ last.or system.root = some entry) ↔
      reached = names ∧ system.Readable names ∧ system.find names = some entry ∧
        (names = [] ∨ entry.isSymlink = false) := by
  have found : system.find [] = some root := by
    rw [FileSystem.find, isRoot]
    rfl
  have descends : ∀ last, descend system [] none names = some (reached, last) ↔ _ := fun last =>
    descend_eq_some_iff found (.inl rfl) FileSystem.readable_nil
  simp only [descends, List.nil_append]
  constructor
  · rintro ⟨last, ⟨rfl, readable, ends⟩, isEntry⟩
    rcases ends with ⟨rfl, rfl⟩ | ⟨-, other, rfl, below, solid⟩
    · rw [Option.none_or, isRoot] at isEntry
      cases isEntry
      exact ⟨rfl, readable, found, .inl rfl⟩
    · cases isEntry
      exact ⟨rfl, readable, below, .inr solid⟩
  · rintro ⟨rfl, readable, below, solid⟩
    by_cases empty : reached = []
    · subst empty
      rw [found] at below
      cases below
      exact ⟨none, ⟨rfl, readable, .inl ⟨rfl, rfl⟩⟩, by rw [Option.none_or, isRoot]⟩
    · exact ⟨some entry, ⟨rfl, readable, .inr ⟨empty, entry, rfl, below, solid.resolve_left empty⟩⟩, rfl⟩

/-- What is served of an entry that no link leads to. -/
theorem settle_eq_some_iff {names path : List Text} {entry : Entry} {contents : Contents}
    (found : system.find names = some entry) (readable : system.Readable names) :
    directory.settle system names entry = some (path, contents) ↔
      system.Readable path ∧ (∃ name, system.find path = some (.file name contents)) ∧
        (path = names ∨ ∃ index name entries, directory.index = some index ∧
          path = names ++ [index] ∧ entry = .directory name entries) := by
  cases entry with
  | symlink link =>
      constructor
      · intro settles
        cases settles
      · rintro ⟨-, ⟨name, isFile⟩, rfl | ⟨_, _, _, -, -, impossible⟩⟩
        · rw [found] at isFile
          cases isFile
        · cases impossible
  | file name held =>
      constructor
      · intro settles
        cases settles
        exact ⟨readable, ⟨name, found⟩, .inl rfl⟩
      · rintro ⟨-, ⟨name, isFile⟩, rfl | ⟨_, _, _, -, -, impossible⟩⟩
        · rw [found] at isFile
          cases isFile
          rfl
        · cases impossible
  | directory name entries =>
      have solid : (Entry.directory name entries).isSymlink = false := rfl
      have below := FileSystem.find_append_singleton found
      constructor
      · intro settles
        obtain ⟨⟨reached, metadata⟩, chosen, isServed⟩ := Option.bind_eq_some_iff.mp settles
        obtain ⟨index, isIndex, inDirectory⟩ := Option.bind_eq_some_iff.mp chosen
        obtain ⟨other, isOther, same⟩ := Option.map_eq_some_iff.mp inDirectory
        obtain ⟨rfl, rfl⟩ := Prod.mk.inj same
        obtain ⟨allowed, isChild, -⟩ :=
          (FileSystem.unlinked_append_singleton_eq_some_iff found (.inr solid)).mp isOther
        cases other with
        | symlink _ => cases isServed
        | directory _ _ => cases isServed
        | file own held =>
            cases isServed
            exact ⟨FileSystem.readable_append_singleton_iff.mpr ⟨readable, allowed⟩,
              ⟨own, (below index).trans isChild⟩, .inr ⟨index, name, entries, isIndex, rfl, rfl⟩⟩
      · rintro ⟨pathReadable, ⟨own, isFile⟩, rfl | ⟨index, _, _, isIndex, rfl, -⟩⟩
        · rw [found] at isFile
          cases isFile
        · have isOther : system.unlinked (names ++ [index]) = some (.file own contents) :=
            (FileSystem.unlinked_append_singleton_eq_some_iff found (.inr solid)).mpr
              ⟨(FileSystem.readable_append_singleton_iff.mp pathReadable).2,
                (below index).symm.trans isFile, rfl⟩
          simp only [settle, isIndex, Option.bind_some, isOther, Option.map_some]

/-- A file is located where the names of a request, none of them hidden, lead to it
without a link, or lead so to a directory whose index it is. -/
theorem locate_eq_some_iff (directory : Directory) (system : FileSystem) (requested : Text)
    (path : List Text) (contents : Contents) :
    directory.locate system requested = some (path, contents) ↔
      (∀ name ∈ named requested, name.head? ≠ some '.') ∧ system.Readable path ∧
        (∃ name, system.find path = some (.file name contents)) ∧
        (path = named requested ∨ ∃ index name entries, directory.index = some index ∧
          path = named requested ++ [index] ∧
          system.find (named requested) = some (.directory name entries)) := by
  cases isRoot : system.root with
  | none =>
      have absent : ∀ path, system.find path = none := fun path => by rw [FileSystem.find, isRoot]; rfl
      have unlinked : ∀ path, system.unlinked path = none := fun path => by
        rw [FileSystem.unlinked, FileSystem.symlinkMetadata, isRoot, Option.bind_none, ite_self]
        rfl
      constructor
      · intro locates
        obtain ⟨names, -, rest⟩ := Option.bind_eq_some_iff.mp locates
        obtain ⟨⟨reached, below⟩, descends, rest⟩ := Option.bind_eq_some_iff.mp rest
        cases names with
        | nil =>
            cases descends
            rw [isRoot] at rest
            cases rest
        | cons name names =>
            rw [descend, unlinked] at descends
            cases descends
      · rintro ⟨-, -, ⟨name, isFile⟩, -⟩
        rw [absent] at isFile
        cases isFile
  | some root =>
      rw [locate, Option.bind_eq_some_iff]
      constructor
      · rintro ⟨names, resolves, rest⟩
        obtain ⟨⟨reached, below⟩, descends, rest⟩ := Option.bind_eq_some_iff.mp rest
        obtain ⟨entry, isEntry, settles⟩ := Option.bind_eq_some_iff.mp rest
        obtain ⟨rfl, readable, found, -⟩ := (descend_root isRoot).mp ⟨below, descends, isEntry⟩
        obtain ⟨rfl, visible⟩ := resolve_eq_some_iff.mp resolves
        obtain ⟨pathReadable, isFile, isPath⟩ := (settle_eq_some_iff found readable).mp settles
        refine ⟨visible, pathReadable, isFile, isPath.imp_right ?_⟩
        rintro ⟨index, name, entries, isIndex, isPath, isDirectory⟩
        exact ⟨index, name, entries, isIndex, isPath, isDirectory ▸ found⟩
      · rintro ⟨visible, pathReadable, ⟨own, isFile⟩, isPath⟩
        have exists_found : ∃ entry, system.Readable (named requested) ∧
            system.find (named requested) = some entry ∧ entry.isSymlink = false ∧
            (path = named requested ∨ ∃ index name entries, directory.index = some index ∧
              path = named requested ++ [index] ∧ entry = .directory name entries) := by
          rcases isPath with rfl | ⟨index, name, entries, isIndex, rfl, isDirectory⟩
          · exact ⟨.file own contents, pathReadable, isFile, rfl, .inl rfl⟩
          · exact ⟨.directory name entries, (FileSystem.readable_append_singleton_iff.mp pathReadable).1,
              isDirectory, rfl, .inr ⟨index, name, entries, isIndex, rfl, rfl⟩⟩
        obtain ⟨entry, readable, found, solid, isPath⟩ := exists_found
        obtain ⟨last, descends, isEntry⟩ :=
          (descend_root isRoot).mpr ⟨rfl, readable, found, .inr solid⟩
        refine ⟨named requested, resolve_eq_some_iff.mpr ⟨rfl, visible⟩, ?_⟩
        rw [descends, Option.bind_some]
        simp only [isEntry, Option.bind_some]
        exact (settle_eq_some_iff found readable).mpr ⟨pathReadable, ⟨own, isFile⟩, isPath⟩

/-- Where links lead does not matter. -/
theorem locate_congr {other : FileSystem} (root : system.root = other.root)
    (denied : system.denied = other.denied) (requested : Text) :
    directory.locate system requested = directory.locate other requested := by
  have finds : ∀ path, system.find path = other.find path := fun path => by
    rw [FileSystem.find, FileSystem.find, root]
  have reads : ∀ path, system.Readable path ↔ other.Readable path := fun path => by
    rw [FileSystem.Readable, FileSystem.Readable, denied]
  apply Option.ext
  rintro ⟨path, contents⟩
  rw [locate_eq_some_iff, locate_eq_some_iff]
  simp only [finds, reads]

/-- What a directory locates: the file that the names of a request, none of them hidden,
lead to without a link, or the index of the directory they lead to so. Where links lead
does not matter. -/
theorem locate_unlinked (directory : Directory) (system : FileSystem) (requested : Text) :
    (∀ path contents, directory.locate system requested = some (path, contents) ↔
      (∀ name ∈ named requested, name.head? ≠ some '.') ∧ system.Readable path ∧
        (∃ name, system.find path = some (.file name contents)) ∧
        (path = named requested ∨ ∃ index name entries, directory.index = some index ∧
          path = named requested ++ [index] ∧
          system.find (named requested) = some (.directory name entries))) ∧
      ∀ other : FileSystem, system.root = other.root → system.denied = other.denied →
        directory.locate system requested = directory.locate other requested := by
  constructor
  · exact locate_eq_some_iff directory system requested
  · intro other root denied
    exact locate_congr root denied requested

/-! ## A site -/

/-- A tree that can be read, each of its files written at the first nanosecond. -/
def site (entries : List Entry) : FileSystem where
  root := some (.directory "site".toList entries)
  leads _ := none
  denied _ := false
  modified _ := some 1
  opened path :=
    match (Entry.directory "site".toList entries).find path with
    | some (.file _ contents) => some contents
    | _ => none

/-- A directory that serves an index. -/
def indexed : Directory where
  rootName := "site".toList
  cacheControl := none
  index := some "index.html".toList
  plain := by
    rintro name ⟨⟩
    decide

end Directory

end Kynos.Assets

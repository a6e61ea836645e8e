import Kynos.Assets.Built
import Kynos.Assets.Directory
import Kynos.Assets.Folded

/-!
# Directories embedded and directories served

Over one tree, the files embedded when a program is compiled are those a directory
serves from disk, unless they are excluded: each is found at the same path, with
the same contents.
-/

namespace Kynos.Assets

/-- A name a directory can hold, of no backslash. -/
structure Named (name : Text) : Prop where
  nonempty : name ≠ []
  undotted : name ≠ ['.']
  unslashed : '/' ∉ name
  unescaped : '\\' ∉ name

/-- A tree whose names are names, those of one directory distinct. -/
inductive Entry.Tidy : Entry → Prop where
  | symlink {name : Text} : Named name → Tidy (.symlink name)
  | file {name : Text} {contents : Contents} : Named name → Tidy (.file name contents)
  | directory {name : Text} {entries : List Entry} : Named name → (entries.map Entry.name).Nodup →
      (∀ entry ∈ entries, Tidy entry) → Tidy (.directory name entries)

/-- A path as it is written. -/
def joined (names : List Text) : Text :=
  ['/'].intercalate names

/-- Whether a file at a path below a directory is excluded. -/
def excludesBelow (args : AssetArgs) (directory : Text) (names : List Text) : Bool :=
  excluded args (directory ++ joined names) (names.getLast?.getD [])

/-- A file as a walk keeps it. -/
def kept (relative : Text) (contents : Contents) : Found :=
  ⟨relative, contents, '"' :: hexadecimal 16 (fnv1a contents.bytes).toNat ++ ['"']⟩

/-! ## Listing -/

mutual

/-- The files of an entry a walk keeps, where it is not refused. -/
def Entry.listed (args : AssetArgs) (directory : Text) : Entry → List Found
  | .symlink _ => []
  | .directory name entries =>
      if name.head? = some '.' then [] else listedAll args (directory ++ name ++ ['/']) entries
  | .file name contents =>
      if name.head? = some '.' then
        []
      else
        let relative := (directory ++ name).map fun character =>
          if character = '\\' then '/' else character
        if excluded args relative name then [] else [kept relative contents]

/-- The files of all entries. -/
def listedAll (args : AssetArgs) (directory : Text) : List Entry → List Found
  | [] => []
  | entry :: entries => entry.listed args directory ++ listedAll args directory entries

end

theorem mem_listedAll {args : AssetArgs} {directory : Text} {entries : List Entry} {file : Found} :
    file ∈ listedAll args directory entries ↔ ∃ entry ∈ entries, file ∈ entry.listed args directory := by
  induction entries with
  | nil => simp [listedAll]
  | cons entry entries ih => simp [listedAll, ih]

theorem eq_append_of_keep {args : AssetArgs} {limits : Limits} {relative : Text} {contents : Contents}
    {files found : List Found} (keeps : keep args limits relative contents files = .ok found) :
    found = files ++ [kept relative contents] := by
  unfold keep at keeps
  split at keeps
  · cases keeps
  · simp only at keeps
    split at keeps
    · cases keeps
    · cases keeps
      rfl

mutual

/-- A walk that is not refused lists files in the order of the tree. -/
theorem collectEntry_eq_listed {args : AssetArgs} {limits : Limits} {directory : Text} {depth : Nat}
    {files found : List Found} :
    ∀ entry, collectEntry args limits directory depth files entry = .ok found →
      found = files ++ entry.listed args directory
  | .symlink _, collects => by
      cases collects
      rw [Entry.listed, List.append_nil]
  | .directory name entries, collects => by
      rw [collectEntry] at collects
      rw [Entry.listed]
      split at collects
      · next hidden =>
          cases collects
          rw [if_pos hidden, List.append_nil]
      · next visible =>
          rw [if_neg visible]
          split at collects
          · cases collects
          · exact collect_eq_listedAll entries collects
  | .file name contents, collects => by
      rw [collectEntry] at collects
      rw [Entry.listed]
      split at collects
      · next hidden =>
          cases collects
          rw [if_pos hidden, List.append_nil]
      · next visible =>
          rw [if_neg visible]
          simp only at collects ⊢
          split at collects
          · next isExcluded =>
              cases collects
              rw [if_pos isExcluded, List.append_nil]
          · next included =>
              rw [if_neg included]
              exact eq_append_of_keep collects

theorem collect_eq_listedAll {args : AssetArgs} {limits : Limits} {directory : Text} {depth : Nat}
    {files found : List Found} :
    ∀ entries, collect args limits directory depth files entries = .ok found →
      found = files ++ listedAll args directory entries
  | [], collects => by
      cases collects
      rw [listedAll, List.append_nil]
  | entry :: entries, collects => by
      rw [collect] at collects
      split at collects
      · cases collects
      · next next collected =>
          rw [collect_eq_listedAll entries collects, collectEntry_eq_listed entry collected, listedAll,
            List.append_assoc]

end

/-! ## What is listed is held -/

theorem Entry.Tidy.named {entry : Entry} (tidy : entry.Tidy) : Named entry.name := by
  cases tidy with
  | symlink named => exact named
  | file named => exact named
  | directory named _ _ => exact named

/-- An entry of a directory is the one of its name. -/
theorem child_of_mem {name : Text} {entries : List Entry} {entry : Entry}
    (distinct : (entries.map Entry.name).Nodup) (member : entry ∈ entries) :
    (Entry.directory name entries).child entry.name = some entry := by
  rw [Entry.child]
  induction entries with
  | nil => cases member
  | cons first entries ih =>
      rw [List.map_cons, List.nodup_cons] at distinct
      rcases List.mem_cons.mp member with rfl | later
      · exact List.find?_cons_of_pos (beq_self_eq_true _)
      · rw [List.find?_cons_of_neg]
        · exact ih distinct.2 later
        · intro same
          apply distinct.1
          rw [beq_iff_eq.mp same]
          exact List.mem_map_of_mem later

theorem mem_of_child {name sought : Text} {entries : List Entry} {entry : Entry}
    (isChild : (Entry.directory name entries).child sought = some entry) :
    entry ∈ entries ∧ entry.name = sought := by
  rw [Entry.child] at isChild
  exact ⟨List.mem_of_find?_eq_some isChild, by simpa using List.find?_some isChild⟩

/-- Slashes alone are written for backslashes. -/
theorem map_unescaped {text : Text} (unescaped : '\\' ∉ text) :
    text.map (fun character => if character = '\\' then '/' else character) = text := by
  calc
    text.map (fun character => if character = '\\' then '/' else character)
        = text.map id := List.map_congr_left fun character member =>
          if_neg fun same : character = '\\' => unescaped (same ▸ member)
    _ = text := List.map_id text

theorem joined_cons {name : Text} {names : List Text} (nonempty : names ≠ []) :
    joined (name :: names) = name ++ ['/'] ++ joined names :=
  List.intercalate_cons_of_ne_nil nonempty

theorem append_joined_cons (directory name next : Text) (rest : List Text) :
    directory ++ joined (name :: next :: rest) = directory ++ name ++ ['/'] ++ joined (next :: rest) := by
  rw [joined_cons (List.cons_ne_nil _ _)]
  simp only [List.append_assoc]

theorem excludesBelow_cons (args : AssetArgs) (directory name next : Text) (rest : List Text) :
    excludesBelow args directory (name :: next :: rest) =
      excludesBelow args (directory ++ name ++ ['/']) (next :: rest) := by
  rw [excludesBelow, excludesBelow, append_joined_cons, List.getLast?_cons_cons]

/-- The files listed of an entry are those found below it, visible and not
excluded. -/
theorem Entry.Tidy.mem_listed_iff {args : AssetArgs} {entry : Entry} (tidy : entry.Tidy)
    {directory : Text} (unescaped : '\\' ∉ directory) {file : Found} :
    file ∈ entry.listed args directory ↔
      ∃ names name contents, entry.find names = some (.file name contents) ∧
        (∀ name ∈ entry.name :: names, name.head? ≠ some '.') ∧
        excludesBelow args directory (entry.name :: names) = false ∧
        file = kept (directory ++ joined (entry.name :: names)) contents := by
  induction tidy generalizing directory file with
  | symlink named =>
      rename_i link
      rw [Entry.listed]
      constructor
      · intro member
        cases member
      · rintro ⟨names, name, contents, isFound, -⟩
        cases names with
        | nil => cases isFound
        | cons _ _ => cases isFound
  | file named =>
      rename_i own held
      have relative : (directory ++ own).map (fun character => if character = '\\' then '/' else character) =
          directory ++ own := by
        apply map_unescaped
        rw [List.mem_append, not_or]
        exact ⟨unescaped, named.unescaped⟩
      have single : joined [own] = own := List.intercalate_singleton
      rw [Entry.listed, relative]
      constructor
      · intro member
        split at member
        · cases member
        · next visible =>
          simp only at member
          split at member
          · cases member
          · next included =>
              obtain rfl := List.mem_singleton.mp member
              refine ⟨[], own, held, rfl, List.forall_mem_singleton.mpr visible, ?_, ?_⟩
              · rw [excludesBelow, Entry.name, single]
                exact eq_false_of_ne_true included
              · rw [Entry.name, single]
      · rintro ⟨names, name, contents, isFound, visible, included, rfl⟩
        cases names with
        | cons _ _ => cases isFound
        | nil =>
            cases isFound
            have shown := List.forall_mem_singleton.mp visible
            have notExcluded : ¬ excluded args (directory ++ own) own = true := by
              rw [excludesBelow, Entry.name, single] at included
              exact ne_true_of_eq_false included
            rw [Entry.name] at shown
            simp only [if_neg shown, if_neg notExcluded, Entry.name, single, List.mem_singleton]
  | directory named distinct tidies ih =>
      rename_i own entries
      have below : '\\' ∉ directory ++ own ++ ['/'] := by
        simp only [List.mem_append, List.mem_singleton, not_or]
        exact ⟨⟨unescaped, named.unescaped⟩, by decide⟩
      rw [Entry.listed]
      constructor
      · intro member
        split at member
        · cases member
        · next visible =>
          obtain ⟨child, isEntry, inChild⟩ := mem_listedAll.mp member
          obtain ⟨names, name, contents, isFound, allVisible, included, rfl⟩ :=
            (ih child isEntry below).mp inChild
          refine ⟨child.name :: names, name, contents, ?_, ?_, ?_, ?_⟩
          · rw [Entry.find, child_of_mem distinct isEntry]
            exact isFound
          · exact List.forall_mem_cons.mpr ⟨visible, allVisible⟩
          · rw [Entry.name, excludesBelow_cons]
            exact included
          · rw [Entry.name, append_joined_cons]
      · rintro ⟨names, name, contents, isFound, visible, included, rfl⟩
        cases names with
        | nil => cases isFound
        | cons next names =>
            obtain ⟨child, isChild, after⟩ := Option.bind_eq_some_iff.mp isFound
            obtain ⟨isEntry, rfl⟩ := mem_of_child isChild
            obtain ⟨shown, allVisible⟩ := List.forall_mem_cons.mp visible
            rw [Entry.name] at shown
            rw [Entry.name, excludesBelow_cons] at included
            rw [if_neg shown, mem_listedAll, Entry.name, append_joined_cons]
            exact ⟨child, isEntry, (ih child isEntry below).mpr
              ⟨names, name, contents, after, allVisible, included, rfl⟩⟩

/-! ## What a walk embeds -/

/-- Names that are found are names. -/
theorem Entry.Tidy.named_of_find {entry found : Entry} {names : List Text} (tidy : entry.Tidy)
    (isFound : entry.find names = some found) : ∀ name ∈ names, Named name := by
  induction names generalizing entry with
  | nil => simp
  | cons name names ih =>
      obtain ⟨child, isChild, after⟩ := Option.bind_eq_some_iff.mp isFound
      cases tidy with
      | symlink _ => cases isChild
      | file _ => cases isChild
      | directory _ _ tidies =>
          obtain ⟨isEntry, rfl⟩ := mem_of_child isChild
          exact List.forall_mem_cons.mpr ⟨(tidies child isEntry).named, ih (tidies child isEntry) after⟩

/-- A path of names is requested by writing it. -/
theorem named_joined {names : List Text} (nonempty : names ≠ []) (named : ∀ name ∈ names, Named name) :
    Directory.named (joined names) = names := by
  rw [Directory.named, joined, List.splitOn_intercalate '/' (fun name member => (named name member).unslashed)
    nonempty, List.filter_eq_self]
  intro name member
  apply Directory.isName_iff.mpr
  exact not_or.mpr ⟨(named name member).nonempty, (named name member).undotted⟩

/-- The files a walk embeds are those it lists. -/
theorem mem_placed_iff {args : AssetArgs} {entries : List Entry} {walked : Walked}
    (walks : walk args entries = .ok walked) {file : Found} :
    file ∈ walked.files.flatMap Embedded.placed ↔ file ∈ listedAll args [] entries := by
  unfold walk walkWithin at walks
  split at walks
  · cases walks
  · next files collected =>
      split at walks
      · cases walks
      · cases walks
        have isListed : files = listedAll args [] entries := collect_eq_listedAll entries collected
        rw [foldEncodings_eq, (perm_flatMap_sorted perm_placed_sorted _).mem_iff,
          (places_folded _).placed.mem_iff, List.mem_mergeSort, isListed]

/-- Over a tree that can be read, a walk embeds at a path what a directory serves
there, unless it is excluded. -/
theorem mem_placed_iff_locate {args : AssetArgs} {entries : List Entry} {walked : Walked}
    (walks : walk args entries = .ok walked) (distinct : (entries.map Entry.name).Nodup)
    (tidies : ∀ entry ∈ entries, entry.Tidy) (directory : Directory) (system : FileSystem) (name : Text)
    (isRoot : system.root = some (.directory name entries))
    (allowed : ∀ path, system.denied path = false) (requested : Text) (contents : Contents) :
    (∃ file ∈ walked.files.flatMap Embedded.placed, file.path = requested ∧ file.contents = contents) ↔
      ∃ path, directory.locate system requested = some (path, contents) ∧ requested = joined path ∧
        excludesBelow args [] path = false := by
  have finds : ∀ path, system.find path = (Entry.directory name entries).find path := fun path => by
    rw [FileSystem.find, isRoot]
    rfl
  simp only [mem_placed_iff walks, mem_listedAll, Directory.locate_eq_some_iff, finds]
  constructor
  · rintro ⟨file, ⟨entry, isEntry, isListed⟩, rfl, rfl⟩
    obtain ⟨names, own, contents, isFound, visible, included, rfl⟩ :=
      ((tidies entry isEntry).mem_listed_iff List.not_mem_nil).mp isListed
    have named : Directory.named (joined (entry.name :: names)) = entry.name :: names :=
      named_joined (List.cons_ne_nil _ _) (List.forall_mem_cons.mpr
        ⟨(tidies entry isEntry).named, (tidies entry isEntry).named_of_find isFound⟩)
    refine ⟨entry.name :: names, ⟨?_, fun path _ _ => allowed path, ⟨own, ?_⟩, .inl ?_⟩, ?_, included⟩
    · rw [kept, List.nil_append, named]
      exact visible
    · rw [Entry.find, child_of_mem distinct isEntry]
      exact isFound
    · rw [kept, List.nil_append, named]
    · rw [kept, List.nil_append]
  · rintro ⟨path, ⟨visible, -, ⟨own, isFile⟩, isPath⟩, rfl, included⟩
    cases path with
    | nil => cases isFile
    | cons first names =>
        obtain ⟨entry, isChild, isFound⟩ := Option.bind_eq_some_iff.mp isFile
        obtain ⟨isEntry, rfl⟩ := mem_of_child isChild
        have named : Directory.named (joined (entry.name :: names)) = entry.name :: names :=
          named_joined (List.cons_ne_nil _ _) (List.forall_mem_cons.mpr
            ⟨(tidies entry isEntry).named, (tidies entry isEntry).named_of_find isFound⟩)
        rw [named] at visible
        refine ⟨kept (joined (entry.name :: names)) contents, ⟨entry, isEntry, ?_⟩, rfl, rfl⟩
        exact ((tidies entry isEntry).mem_listed_iff List.not_mem_nil).mpr
          ⟨names, own, contents, isFound, visible, included, rfl⟩

theorem mem_placed_iff_locate_one : ∃ walked,
    walk ⟨"site".toList, []⟩ [emptyFile "a".toList] = .ok walked ∧ ∀ requested contents,
      (∃ file ∈ walked.files.flatMap Embedded.placed, file.path = requested ∧ file.contents = contents) ↔
        ∃ path, Directory.indexed.locate (Directory.site [emptyFile "a".toList]) requested =
            some (path, contents) ∧ requested = joined path ∧
          excludesBelow ⟨"site".toList, []⟩ [] path = false := by
  obtain ⟨walked, walks, -⟩ := exists_walk_one
  refine ⟨walked, walks, mem_placed_iff_locate walks (List.nodup_singleton _) ?_ Directory.indexed
    (Directory.site [emptyFile "a".toList]) "site".toList rfl fun _ => rfl⟩
  rintro entry member
  rw [List.mem_singleton.mp member]
  exact .file ⟨by decide, by decide, by decide, by decide⟩

end Kynos.Assets

import Kynos.Assets.Mount

/-!
# Paths without braces

A path a template expresses has a variable where it has a brace. Without one, the
directories above it are expressed too, and the match table holds it as itself.
-/

namespace Kynos.OpenApi

open Kynos.Word

theorem nameless_of_literals {pieces : List Piece} (braceless : '\x7b' ∉ spelled pieces) :
    ∀ piece ∈ pieces, piece.name = none :=
  literals_of_cut (splitOnce_eq_none_iff.mpr braceless)

theorem literals_of_names {pieces : List Piece} (nameless : names pieces = []) :
    ∀ piece ∈ pieces, piece.name = none :=
  List.filterMap_eq_nil_iff.mp nameless

/-- A template has a variable where it has a brace. -/
theorem Accepted.braceless_iff {template : PathTemplate} (accepted : Accepted template) :
    '\x7b' ∉ template.raw ↔ template.variableNames = [] := by
  obtain ⟨pieces, -, spells, named⟩ := accepted.exists_pieces
  rw [← spells, named]
  exact ⟨fun braceless => names_of_literals (nameless_of_literals braceless),
    fun nameless => (braceless_spelled (literals_of_names nameless)).1⟩

theorem normalized_of_braceless {template : PathTemplate} (braceless : '\x7b' ∉ template.raw) :
    template.normalized = some template.raw := by
  rw [PathTemplate.normalized, PathTemplate.normalizedFrom.eq_def]
  split
  · rfl
  · next cut =>
      rw [splitOnce_eq_none_iff.mpr braceless] at cut
      cases cut

/-- The pieces up to a slash, where nothing but a slash is spelled with one. -/
theorem exists_of_spelled_append {pieces : List Piece} (literals : ∀ piece ∈ pieces, piece.name = none)
    {before after : Text} (spells : spelled pieces = before ++ '/' :: after) :
    ∃ front back, pieces = front ++ .slash :: back ∧ spelled front = before := by
  induction pieces generalizing before with
  | nil => simp at spells
  | cons piece pieces ih =>
      obtain ⟨first, others⟩ := List.forall_mem_cons.mp literals
      have deeper : ∀ {rest}, before = piece.text ++ rest → spelled pieces = rest ++ '/' :: after →
          ∃ front back, piece :: pieces = front ++ .slash :: back ∧ spelled front = before := by
        rintro rest rfl spelling
        obtain ⟨front, back, rfl, rfl⟩ := ih others spelling
        exact ⟨piece :: front, back, rfl, rfl⟩
      rw [spelled_cons, List.append_eq_append_iff] at spells
      rcases spells with ⟨rest, isBefore, spelling⟩ | ⟨rest, isText, spelling⟩
      · exact deeper isBefore spelling
      · cases rest with
        | nil =>
            rw [List.append_nil] at isText
            exact @deeper [] (by rw [isText, List.append_nil]) spelling.symm
        | cons letter rest =>
            obtain ⟨rfl, -⟩ := List.cons.inj spelling
            have inText : '/' ∈ piece.text := by
              rw [isText]
              exact List.mem_append_right _ List.mem_cons_self
            cases piece with
            | slash =>
                cases before with
                | nil => exact ⟨[], pieces, rfl, rfl⟩
                | cons letter before =>
                    have lengths := congrArg List.length isText
                    simp [Piece.text] at lengths
            | literal character allowed =>
                obtain rfl := List.mem_singleton.mp inText
                exact absurd allowed (by decide)
            | triple high low hexdigits =>
                simp only [Piece.text, List.mem_cons, List.not_mem_nil, or_false] at inText
                rcases inText with impossible | rfl | rfl
                · exact absurd impossible (by decide)
                · exact absurd hexdigits.1 (by decide)
                · exact absurd hexdigits.2 (by decide)
            | expression => cases first

theorem prefix_mem {front back : List Piece} :
    (front ++ back ∈ afterSlash → front ∈ afterSlash) ∧
      (front ++ back ∈ withinSegment → front ∈ withinSegment) := by
  induction front with
  | nil => exact ⟨fun _ => nil_mem_afterSlash, fun _ => nil_mem_withinSegment⟩
  | cons piece front ih =>
      rw [List.cons_append, cons_mem_afterSlash_iff, cons_mem_afterSlash_iff,
        cons_mem_withinSegment_iff, cons_mem_withinSegment_iff]
      exact ⟨And.imp_right ih.2, Or.imp (And.imp_right ih.1) (And.imp_right ih.2)⟩

end Kynos.OpenApi

namespace Kynos.Router

open Kynos.OpenApi Kynos.Word

theorem expressionCount_of_braceless {text : Text} (braceless : '\x7b' ∉ text) :
    expressionCount text = 0 := by
  fun_induction expressionCount text with
  | case1 => rfl
  | case2 => simp at braceless
  | case3 letter rest _ ih => exact ih (mt (List.mem_cons_of_mem letter) braceless)

/-- A template without a variable is routed. -/
theorem unroutable_of_braceless {template : PathTemplate} (accepted : Accepted template)
    (braceless : '\x7b' ∉ template.raw) : unroutable template = false := by
  rw [unroutable, normalized_of_braceless braceless, accepted.braceless_iff.mp braceless]
  simp only [List.any_nil, Bool.false_or, List.any_eq_false, decide_eq_true_eq, Option.getD_some]
  intro segment member
  rw [expressionCount_of_braceless]
  · decide
  · intro inSegment
    exact braceless (mem_of_mem_splitOn member _ inSegment).1

namespace Pattern

/-- The pattern of a path that is matched as itself. -/
def literal (text : Text) : Pattern :=
  (text.splitOn '/').map Segment.static

theorem shape_literal (text : Text) : (literal text).shape = literal text := by
  rw [shape, literal, List.map_map]
  rfl

theorem literal_injective : Function.Injective literal := by
  intro text other same
  have pieces := List.map_injective_iff.mpr (fun _ _ => Segment.static.inj) same
  calc
    text = ['/'].intercalate (text.splitOn '/') := (List.intercalate_splitOn '/').symm
    _ = other := by rw [pieces, List.intercalate_splitOn]

theorem read_of_braceless {text : Text} (braceless : '\x7b' ∉ text) :
    read text = some (literal text) := by
  have each : ∀ piece ∈ text.splitOn '/', Segment.read piece = some (.static piece) := by
    intro piece member
    rw [Segment.read, splitOnce_eq_none_iff.mpr fun inPiece =>
      braceless (mem_of_mem_splitOn member _ inPiece).1]
  rw [read, literal]
  generalize text.splitOn '/' = pieces at each
  induction pieces with
  | nil => rfl
  | cons piece pieces ih =>
      obtain ⟨first, others⟩ := List.forall_mem_cons.mp each
      rw [List.mapM_cons, first, ih others]
      rfl

theorem capture_statics (pieces others : List Text) :
    capture (pieces.map Segment.static) others = if others = pieces then some [] else none := by
  induction pieces generalizing others with
  | nil => cases others <;> rfl
  | cons piece pieces ih =>
      cases others with
      | nil => rfl
      | cons other others =>
          rw [List.map_cons, capture, Segment.capture, ih]
          by_cases same : other = piece <;> by_cases rest : others = pieces <;> simp [same, rest]

/-- A literal pattern is matched by its own path alone. -/
theorem capture_literal (text path : Text) :
    (literal text).capture (path.splitOn '/') = if path = text then some [] else none := by
  rw [literal, capture_statics]
  refine if_congr ⟨fun same => ?_, fun same => by rw [same]⟩ rfl rfl
  calc
    path = ['/'].intercalate (path.splitOn '/') := (List.intercalate_splitOn '/').symm
    _ = text := by rw [same, List.intercalate_splitOn]

end Pattern

end Kynos.Router

namespace Kynos.Assets

open Kynos.OpenApi Kynos.Word

theorem servable_iff {path : Text} :
    Servable path ↔ ∃ rest ∈ afterSlash, spelled rest = path ∧ (names rest).Nodup := by
  constructor
  · rintro ⟨template, parsed⟩
    obtain ⟨pieces, derived, spells, nodup, -⟩ := parse_eq_ok_iff.mp parsed
    obtain ⟨_, rfl, rest, following, rfl⟩ := Language.mem_mul.mp derived
    exact ⟨rest, following, (List.cons.inj spells).2, nodup⟩
  · rintro ⟨rest, following, rfl, nodup⟩
    exact ⟨_, parse_eq_ok_iff.mpr ⟨_, cons_mem_singleton_mul following, rfl, nodup, rfl⟩⟩

/-- A path a template expresses begins with no slash. -/
theorem Servable.dropWhile_slash {path : Text} (servable : Servable path) :
    path.dropWhile (· == '/') = path := by
  obtain ⟨rest, following, rfl, -⟩ := servable_iff.mp servable
  rw [List.dropWhile_eq_self_iff]
  intro nonempty isSlash
  obtain ⟨others, rfl⟩ := exists_slash (by
    rw [List.head?_eq_getElem?, List.getElem?_eq_getElem nonempty, beq_iff_eq.mp isSlash])
  exact absurd (cons_mem_afterSlash_iff.mp following).1 (by decide)

/-- The directories above a path without braces are expressed too. -/
theorem Servable.directory {before after : Text} (servable : Servable (before ++ after))
    (braceless : '\x7b' ∉ before ++ after) (isDirectory : before = [] ∨ before.getLast? = some '/') :
    Servable before := by
  obtain ⟨rest, following, spells, -⟩ := servable_iff.mp servable
  rcases isDirectory with rfl | slashed
  · exact servable_iff.mpr ⟨[], nil_mem_afterSlash, rfl, List.nodup_nil⟩
  · obtain ⟨front, rfl⟩ := List.getLast?_eq_some_iff.mp slashed
    have literals := nameless_of_literals (by rwa [spells])
    rw [List.append_assoc] at spells
    obtain ⟨pieces, back, rfl, rfl⟩ := exists_of_spelled_append literals spells
    refine servable_iff.mpr ⟨pieces ++ [.slash], ?_, by simp [Piece.text], ?_⟩
    · have whole : (pieces ++ [.slash]) ++ back ∈ afterSlash := by
        rw [List.append_assoc]
        exact following
      exact prefix_mem.1 whole
    · rw [names_of_literals fun piece member => literals piece ?_]
      · exact List.nodup_nil
      · rw [List.mem_append, List.mem_singleton] at member
        rcases member with inFront | rfl
        · exact List.mem_append_left _ inFront
        · exact List.mem_append_right _ List.mem_cons_self

end Kynos.Assets

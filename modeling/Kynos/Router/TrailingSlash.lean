import Kynos.OpenApi.PathNesting
import Kynos.Router.Assembly
import Kynos.Router.ExactlyOne
import Kynos.Router.Spellings

/-!
# Trailing slashes

The table of a router under each policy. A lenient one holds the other spelling
of every template too, added after all templates; a redirecting one tries the
other spelling of a path no template matches.
-/

namespace Kynos.Router

open Kynos.Word Kynos.Http Kynos.OpenApi

variable {Mount Rank : Type} [LinearOrder Rank] {count : Nat}

/-! ## The templates of a router -/

/-- The templates of the paths of a router, in the order of their entries: each
is parsed and routed, and the match table takes them all. -/
structure Templates (count : Nat) where
  template : Fin count → PathTemplate
  accepted : ∀ index, Accepted (template index)
  routable : ∀ index, unroutable (template index) = false
  declared : MatchTable (Fin count)
  inserted : MatchTable.empty.insertAll
    ((List.finRange count).map fun index => ((template index).raw, index)) = some declared

namespace Templates

variable (templates : Templates count) (ranking : Ranking Rank)

/-- The other spelling of every template but a catch-all. -/
def flippedSpellings : List (Text × Fin count) :=
  ((List.finRange count).filter fun index =>
    ¬ ['\x7b', '*'] <:+: (templates.template index).raw).filterMap fun index =>
      (flipTrailingSlash (templates.template index).raw).map (·, index)

/-- `register_flipped_spellings`: a spelling that is refused was declared. -/
def registerFlippedSpellings : MatchTable (Fin count) :=
  templates.declared.extend templates.flippedSpellings

/-- The match table under a policy. -/
def table : TrailingSlashPolicy → MatchTable (Fin count)
  | .strict | .redirect => templates.declared
  | .lenient => templates.registerFlippedSpellings

/-- The entry a path is dispatched to, and what each variable of its template
captured. -/
def reach (policy : TrailingSlashPolicy) (path : Text) :
    Option (Fin count × List (Text × Option Text)) :=
  ((templates.table policy).matched ranking path).map fun (index, captured) =>
    (index, (templates.template index).variableNames.map fun name => (name, captured.lookup name))

/-- A router with these templates and a policy. -/
def serving (router : Router Mount count) (policy : TrailingSlashPolicy) : Router Mount count :=
  { router with
    matcher := fun path => (templates.reach ranking policy path).map Prod.fst
    trailingSlashes := policy }

end Templates

/-- A path and a query as the target of a redirect. -/
def withQuery (path : Text) : Option Text → Text
  | some query => path ++ '?' :: query
  | none => path

/-! ## Templates are regular -/

theorem notMem_slashes (before : List Piece) :
    before ++ [.slash, .slash] ∉ afterSlash ∧ before ++ [.slash, .slash] ∉ withinSegment := by
  induction before with
  | nil =>
      constructor
      · rw [List.nil_append, cons_mem_afterSlash_iff]
        simp [Piece.isSlash]
      · rw [List.nil_append, cons_mem_withinSegment_iff, cons_mem_afterSlash_iff]
        simp [Piece.isSlash]
  | cons piece before ih =>
      rw [List.cons_append, cons_mem_afterSlash_iff, cons_mem_withinSegment_iff]
      simp [ih]

/-- Only a slash ends in one. -/
theorem exists_of_spelled_slash {pieces : List Piece} {before : Text}
    (spells : spelled pieces = before ++ ['/']) :
    ∃ front, pieces = front ++ [.slash] ∧ spelled front = before := by
  rcases List.eq_nil_or_concat pieces with rfl | ⟨front, piece, rfl⟩
  · simp at spells
  · rw [List.concat_eq_append, spelled_append] at spells
    cases piece with
    | slash => exact ⟨front, by simp, List.append_cancel_right spells⟩
    | literal character allowed =>
        have last := congrArg List.getLast? spells
        simp only [spelled_cons, spelled_nil, Piece.text, List.append_nil, List.getLast?_concat,
          Option.some.injEq] at last
        exact absurd last (ne_of_isPathCharacter allowed (by decide))
    | triple high low hexdigits =>
        have last := congrArg List.getLast? spells
        simp [Piece.text] at last
        exact absurd last (ne_of_isAsciiHexdigit hexdigits.2 (by decide))
    | expression name =>
        have last := congrArg List.getLast? spells
        simp only [spelled_cons, spelled_nil, Piece.text, List.append_nil, ← List.cons_append,
          ← List.append_assoc, List.getLast?_concat, Option.some.injEq] at last
        exact absurd last (by decide)

theorem regular_of_accepted {template : PathTemplate} (accepted : Accepted template) :
    Regular template.raw := by
  obtain ⟨pieces, derived, spells, -⟩ := accepted.exists_pieces
  obtain ⟨_, rfl, rest, following, rfl⟩ := Language.mem_mul.mp derived
  rw [← spells]
  refine ⟨by simp [Piece.text], ?_⟩
  rintro ⟨before, slashes⟩
  have twice : spelled ([.slash] ++ rest) = (before ++ ['/']) ++ ['/'] := by
    rw [← slashes, List.append_assoc]
    rfl
  obtain ⟨front, isFront, spellsFront⟩ := exists_of_spelled_slash twice
  obtain ⟨earlier, rfl, -⟩ := exists_of_spelled_slash spellsFront
  cases earlier with
  | nil =>
      have isRest : rest = [.slash] := (List.cons.inj isFront).2
      rw [isRest] at following
      exact absurd (cons_mem_afterSlash_iff.mp following).1 (by decide)
  | cons first earlier =>
      have isRest : rest = earlier ++ [.slash, .slash] := by
        simpa using (List.cons.inj isFront).2
      rw [isRest] at following
      exact (notMem_slashes earlier).1 following

/-- A catch-all is spelled only where a variable's name begins with an asterisk. -/
theorem exists_catchAll {pieces : List Piece} {before after : Text}
    (spells : spelled pieces = before ++ '\x7b' :: '*' :: after) :
    ∃ name ∈ names pieces, name.head? = some '*' := by
  induction pieces generalizing before with
  | nil => simp at spells
  | cons piece pieces ih =>
      rw [spelled_cons, List.append_eq_append_iff] at spells
      have inTail : (∃ name ∈ names pieces, name.head? = some '*') →
          ∃ name ∈ names (piece :: pieces), name.head? = some '*' := by
        rintro ⟨name, member, starred⟩
        refine ⟨name, ?_, starred⟩
        have isNames : names (piece :: pieces) = names [piece] ++ names pieces :=
          names_append [piece] pieces
        rw [isNames]
        exact List.mem_append_right _ member
      rcases spells with ⟨middle, rfl, isRest⟩ | ⟨middle, isText, isRest⟩
      · exact inTail (ih isRest)
      · cases middle with
        | nil => exact inTail (@ih [] isRest.symm)
        | cons letter middle =>
            rw [List.cons_append, List.cons.injEq] at isRest
            obtain ⟨rfl, isRest⟩ := isRest
            cases isName : piece.name with
            | none =>
                refine absurd ?_ (piece.braceless isName).1
                rw [isText]
                exact List.mem_append_right _ List.mem_cons_self
            | some name =>
                cases piece with
                | slash => cases isName
                | literal => cases isName
                | triple => cases isName
                | expression name =>
                    have within : '\x7b' ∉ name.text ++ ['\x7d'] := by
                      simp [name.unopened]
                    cases before with
                    | cons letter before =>
                        refine absurd ?_ within
                        rw [(List.cons.inj isText).2]
                        exact List.mem_append_right _ List.mem_cons_self
                    | nil =>
                        obtain rfl := (List.cons.inj isText).2
                        refine ⟨name.text, List.mem_cons_self, ?_⟩
                        cases isText : name.text with
                        | nil => exact absurd isText name.nonempty
                        | cons letter rest =>
                            rw [isText] at isRest
                            exact congrArg some (List.cons.inj isRest).1.symm

namespace Templates

variable {templates : Templates count} {ranking : Ranking Rank}

theorem regular (index : Fin count) : Regular (templates.template index).raw :=
  regular_of_accepted (templates.accepted index)

theorem plain (index : Fin count) : ¬ ['\x7b', '*'] <:+: (templates.template index).raw := by
  rintro ⟨before, after, isRaw⟩
  obtain ⟨pieces, -, spells, named⟩ := (templates.accepted index).exists_pieces
  have routable := templates.routable index
  simp only [unroutable, Bool.or_eq_false_iff, List.any_eq_false, decide_eq_true_eq] at routable
  have contains : spelled pieces = before ++ '\x7b' :: '*' :: after := by
    rw [spells, ← isRaw, List.append_assoc]
    rfl
  obtain ⟨name, member, starred⟩ := exists_catchAll contains
  exact routable.1 name (named ▸ member) starred

/-- What the templates are read as. -/
theorem mem_declared_iff {pattern : Pattern} {index : Fin count} :
    (pattern, index) ∈ templates.declared.held ↔
      Pattern.read (templates.template index).raw = some pattern := by
  rw [MatchTable.mem_of_insertAll templates.inserted]
  constructor
  · rintro (impossible | ⟨spelling, member, isRead⟩)
    · cases impossible
    · obtain ⟨other, -, same⟩ := List.mem_map.mp member
      rw [Prod.mk.injEq] at same
      obtain ⟨rfl, rfl⟩ := same
      exact isRead
  · intro isRead
    exact .inr ⟨_, List.mem_map.mpr ⟨index, List.mem_finRange index, rfl⟩, isRead⟩

theorem exists_read (index : Fin count) :
    ∃ pattern, Pattern.read (templates.template index).raw = some pattern :=
  MatchTable.exists_read_of_insertAll templates.inserted
    (List.mem_map.mpr ⟨index, List.mem_finRange index, rfl⟩)

theorem mem_flippedSpellings_iff {spelling : Text} {index : Fin count} :
    (spelling, index) ∈ templates.flippedSpellings ↔
      flipTrailingSlash (templates.template index).raw = some spelling := by
  rw [flippedSpellings, List.mem_filterMap]
  constructor
  · rintro ⟨other, -, flips⟩
    obtain ⟨flipped, isFlip, same⟩ := Option.map_eq_some_iff.mp flips
    rw [Prod.mk.injEq] at same
    obtain ⟨rfl, rfl⟩ := same
    exact isFlip
  · intro flips
    refine ⟨index, List.mem_filter.mpr ⟨List.mem_finRange index, ?_⟩, by rw [flips]; rfl⟩
    simpa using templates.plain index

/-- The patterns of the other spellings. -/
def Flips (templates : Templates count) (flipped : Pattern) (index : Fin count) : Prop :=
  ∃ spelling, flipTrailingSlash (templates.template index).raw = some spelling ∧
    Pattern.read spelling = some flipped

theorem mem_lenient {pattern : Pattern} {index : Fin count}
    (member : (pattern, index) ∈ templates.registerFlippedSpellings.held) :
    (pattern, index) ∈ templates.declared.held ∨ templates.Flips pattern index := by
  refine (MatchTable.mem_or_mem_of_mem_extend member).imp_right ?_
  rintro ⟨spelling, isEntry, isRead⟩
  exact ⟨spelling, mem_flippedSpellings_iff.mp isEntry, isRead⟩

theorem exists_shape_lenient {flipped : Pattern} {index : Fin count}
    (flips : templates.Flips flipped index) :
    ∃ entry ∈ templates.registerFlippedSpellings.held, entry.1.shape = flipped.shape := by
  obtain ⟨spelling, isSpelling, isRead⟩ := flips
  exact MatchTable.exists_shape_of_mem (mem_flippedSpellings_iff.mpr isSpelling) isRead

end Templates

end Kynos.Router

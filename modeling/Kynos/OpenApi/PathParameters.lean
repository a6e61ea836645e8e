import Kynos.OpenApi.PathTemplate
import Kynos.OpenApi.Requires
import Kynos.OpenApi.Violation
import Kynos.Run.Chain

/-!
# Path parameters

An entry of a list of parameters stands for the parameter at the end of its chain
of references. Following one hop more than there are components tells a chain
that goes round. The path parameters of an operation, those of its path item
included, and the variables of the path's template must be the same.
-/

namespace Kynos.OpenApi

open Kynos.Run

/-! ## The source -/

/-- `ParameterIn`. -/
inductive ParameterIn
  | query
  | header
  | path
  | cookie
  | querystring
  deriving DecidableEq

/-- `Parameter`, as far as a path's rules read it. -/
structure Parameter where
  name : Text
  location : ParameterIn
  deriving DecidableEq

/-- `Resolved`. -/
inductive Resolved
  | found (parameter : Parameter)
  | missing
  | elsewhere
  deriving DecidableEq

variable (components : Map (RefOr Parameter))

/-- `resolve_parameter`, with a number of hops left. -/
def resolveWithin : Nat → RefOr Parameter → Resolved
  | 0, _ => .missing
  | _ + 1, .item parameter => .found parameter
  | hops + 1, .ref location =>
      match literalComponentName location "parameters".toList with
      | none => .elsewhere
      | some name =>
          match components.lookup name with
          | none => .missing
          | some next => resolveWithin hops next

/-- `resolve_parameter`. -/
def resolveParameter (parameter : RefOr Parameter) : Resolved :=
  resolveWithin components (components.length + 1) parameter

/-- The name of an entry that is a path parameter. -/
def pathParameterName (entry : RefOr Parameter) : Option Text :=
  match resolveParameter components entry with
  | .found parameter => if parameter.location = .path then some parameter.name else none
  | .missing => none
  | .elsewhere => none

/-- Names in the order they are first declared. -/
def declaredNames (names : List Text) : List Text :=
  names.foldl (fun declared name => if name ∈ declared then declared else declared ++ [name]) []

/-- `check_path_correspondence`. -/
def checkPathCorrespondence (location : Text) (template : PathTemplate)
    (item operation : List (RefOr Parameter)) : List Violation :=
  let entries := item ++ operation
  let declared := declaredNames (entries.filterMap (pathParameterName components))
  let unknowable := entries.any fun entry => resolveParameter components entry = .elsewhere
  (template.variableNames.filter fun name => !unknowable && !declared.contains name).map
      (fun name => .ofError location (.undeclaredPathVariable name)) ++
    (declared.filter fun name => !template.variableNames.contains name).map
      fun name => .ofError location (.unusedPathParameter name)

/-! ## Chains of references -/

/-- The entry a reference names. -/
def nextEntry : RefOr Parameter → Option (RefOr Parameter)
  | .item _ => none
  | .ref location =>
      (literalComponentName location "parameters".toList).bind fun name => components.lookup name

/-- The chain of references from an entry comes to another. -/
def Leads : RefOr Parameter → RefOr Parameter → Prop :=
  Relation.ReflTransGen fun entry other => nextEntry components entry = some other

/-- What an entry stands for that refers to no other. -/
def standsFor : RefOr Parameter → Resolved
  | .item parameter => .found parameter
  | .ref location =>
      match literalComponentName location "parameters".toList with
      | none => .elsewhere
      | some _ => .missing

variable {components} {entry last : RefOr Parameter}

theorem resolveWithin_of_stops (hops : Nat) (stops : nextEntry components last = none) :
    resolveWithin components (hops + 1) last = standsFor last := by
  cases last with
  | item parameter => rfl
  | ref location =>
      rw [nextEntry] at stops
      rw [resolveWithin, standsFor]
      cases isName : literalComponentName location "parameters".toList with
      | none => rfl
      | some name =>
          rw [isName, Option.bind_some] at stops
          simp only [stops]

theorem resolveWithin_of_next {next : RefOr Parameter} (hops : Nat)
    (isNext : nextEntry components entry = some next) :
    resolveWithin components (hops + 1) entry = resolveWithin components hops next := by
  cases entry with
  | item parameter => cases isNext
  | ref location =>
      obtain ⟨name, isName, isEntry⟩ := Option.bind_eq_some_iff.mp isNext
      rw [resolveWithin, isName]
      simp only [isEntry]

theorem resolveWithin_along {hops steps : Nat}
    (reached : along (nextEntry components) steps entry = some last) :
    resolveWithin components (steps + hops) entry = resolveWithin components hops last := by
  induction steps generalizing entry with
  | zero =>
      cases reached
      rw [Nat.zero_add]
  | succ steps ih =>
      obtain ⟨next, isNext, further⟩ := Option.bind_eq_some_iff.mp reached
      rw [Nat.succ_add, resolveWithin_of_next _ isNext, ih further]

theorem nextEntry_mem {other : RefOr Parameter} (isNext : nextEntry components entry = some other) :
    other ∈ components.map Prod.snd := by
  cases entry with
  | item parameter => cases isNext
  | ref location =>
      obtain ⟨name, -, isEntry⟩ := Option.bind_eq_some_iff.mp isNext
      obtain ⟨before, after, same, -⟩ := List.lookup_eq_some_iff.mp isEntry
      rw [same]
      simp

/-- A chain that stops is followed to its end. -/
theorem resolveParameter_of_stops (leads : Leads components entry last)
    (stops : nextEntry components last = none) :
    resolveParameter components entry = standsFor last := by
  obtain ⟨steps, reached⟩ := reflTransGen_iff_exists_along.mp leads
  have few := le_length_of_stops (fun _ _ => nextEntry_mem) reached stops
  rw [List.length_map] at few
  obtain ⟨left, isLeft⟩ := Nat.exists_eq_add_of_le few
  rw [resolveParameter, isLeft, Nat.add_assoc, resolveWithin_along reached,
    resolveWithin_of_stops left stops]

/-- An entry's chain stops, and is followed to its end, or goes round, and is given up. -/
theorem resolveParameter_cases (components : Map (RefOr Parameter)) (entry : RefOr Parameter) :
    (∃ last, Leads components entry last ∧ nextEntry components last = none ∧
        resolveParameter components entry = standsFor last) ∨
      ∃ other, Leads components entry other ∧
        Relation.TransGen (fun entry next => nextEntry components entry = some next) other other ∧
        resolveParameter components entry = .missing := by
  cases reached : along (nextEntry components) (components.length + 1) entry with
  | none =>
      obtain ⟨last, leads, stops⟩ := exists_stop_of_along_eq_none reached
      exact .inl ⟨last, leads, stops, resolveParameter_of_stops leads stops⟩
  | some last =>
      have long : (components.map Prod.snd).length < components.length + 1 := by
        rw [List.length_map]
        exact Nat.lt_succ_self _
      obtain ⟨other, leads, goesRound⟩ := exists_cycle (fun _ _ => nextEntry_mem) long reached
      have missing : resolveWithin components (components.length + 1 + 0) entry = .missing :=
        resolveWithin_along reached
      exact .inr ⟨other, leads, goesRound, missing⟩

theorem resolveParameter_eq_found_iff {parameter : Parameter} :
    resolveParameter components entry = .found parameter ↔
      Leads components entry (.item parameter) := by
  constructor
  · intro found
    rcases resolveParameter_cases components entry with ⟨last, leads, -, isLast⟩ | ⟨_, -, -, missing⟩
    · rw [isLast] at found
      cases last with
      | item other =>
          cases found
          exact leads
      | ref location =>
          rw [standsFor] at found
          split at found <;> cases found
    · rw [missing] at found
      cases found
  · exact fun leads => resolveParameter_of_stops leads rfl

theorem resolveParameter_eq_elsewhere_iff :
    resolveParameter components entry = .elsewhere ↔
      ∃ location, Leads components entry (.ref location) ∧
        literalComponentName location "parameters".toList = none := by
  constructor
  · intro elsewhere
    rcases resolveParameter_cases components entry with ⟨last, leads, -, isLast⟩ | ⟨_, -, -, missing⟩
    · rw [isLast] at elsewhere
      cases last with
      | item other => cases elsewhere
      | ref location =>
          refine ⟨location, leads, ?_⟩
          rw [standsFor] at elsewhere
          split at elsewhere
          · assumption
          · cases elsewhere
    · rw [missing] at elsewhere
      cases elsewhere
  · rintro ⟨location, leads, unnamed⟩
    have stops : nextEntry components (.ref location) = none := by
      rw [nextEntry, unnamed, Option.bind_none]
    rw [resolveParameter_of_stops leads stops, standsFor, unnamed]

theorem resolveParameter_eq_missing_iff :
    resolveParameter components entry = .missing ↔
      (∃ location name, Leads components entry (.ref location) ∧
        literalComponentName location "parameters".toList = some name ∧
          components.lookup name = none) ∨
      ∃ other, Leads components entry other ∧
        Relation.TransGen (fun entry next => nextEntry components entry = some next) other other := by
  constructor
  · intro missing
    rcases resolveParameter_cases components entry with
      ⟨last, leads, stops, isLast⟩ | ⟨other, leads, goesRound, -⟩
    · rw [isLast] at missing
      cases last with
      | item other => cases missing
      | ref location =>
          rw [standsFor] at missing
          split at missing
          · cases missing
          · rename_i name isName
            rw [nextEntry, isName, Option.bind_some] at stops
            exact .inl ⟨location, name, leads, isName, stops⟩
    · exact .inr ⟨other, leads, goesRound⟩
  · rintro (⟨location, name, leads, isName, dangles⟩ | ⟨other, leads, goesRound⟩)
    · have stops : nextEntry components (.ref location) = none := by
        rw [nextEntry, isName, Option.bind_some, dangles]
      rw [resolveParameter_of_stops leads stops, standsFor, isName]
    · rcases resolveParameter_cases components entry with ⟨last, ends, stops, -⟩ | ⟨_, -, -, missing⟩
      · exact absurd stops (not_stops_of_cycle leads goesRound ends)
      · exact missing

/-! ## The correspondence -/

theorem mem_declaredNames {names : List Text} {name : Text} :
    name ∈ declaredNames names ↔ name ∈ names := by
  have step (declared : List Text) : name ∈ names.foldl (fun declared name =>
      if name ∈ declared then declared else declared ++ [name]) declared ↔
        name ∈ declared ∨ name ∈ names := by
    induction names generalizing declared with
    | nil => simp
    | cons first names ih =>
        rw [List.foldl_cons, ih, List.mem_cons]
        split
        · rename_i isDeclared
          constructor
          · exact Or.imp_right .inr
          · rintro (before | rfl | later)
            · exact .inl before
            · exact .inl isDeclared
            · exact .inr later
        · rw [List.mem_append, List.mem_singleton, or_assoc]
  rw [declaredNames, step]
  simp

theorem pathParameterName_eq_some_iff {name : Text} :
    pathParameterName components entry = some name ↔
      ∃ parameter, Leads components entry (.item parameter) ∧ parameter.location = .path ∧
        parameter.name = name := by
  simp only [← resolveParameter_eq_found_iff, pathParameterName]
  cases resolveParameter components entry with
  | found parameter => simp [ite_eq_iff]
  | missing => simp
  | elsewhere => simp

/-- An entry is what its chain of references comes to, and the rules of a path report
nothing exactly where its path parameters are its template's variables. -/
theorem pathParameters_exact (components : Map (RefOr Parameter)) :
    (∀ entry,
      (∀ parameter, resolveParameter components entry = .found parameter ↔
        Leads components entry (.item parameter)) ∧
      (resolveParameter components entry = .elsewhere ↔
        ∃ location, Leads components entry (.ref location) ∧
          literalComponentName location "parameters".toList = none) ∧
      (resolveParameter components entry = .missing ↔
        (∃ location name, Leads components entry (.ref location) ∧
          literalComponentName location "parameters".toList = some name ∧
            components.lookup name = none) ∨
        ∃ other, Leads components entry other ∧
          Relation.TransGen (fun entry next => nextEntry components entry = some next) other other)) ∧
    ∀ (location : Text) (template : PathTemplate) (item operation : List (RefOr Parameter)),
      (∀ entry ∈ item ++ operation, resolveParameter components entry ≠ .elsewhere) →
        (checkPathCorrespondence components location template item operation = [] ↔
          { name | ∃ entry ∈ item ++ operation, ∃ parameter, Leads components entry (.item parameter) ∧
            parameter.location = .path ∧ parameter.name = name } =
              { name | name ∈ template.variableNames }) := by
  refine ⟨fun entry => ⟨fun parameter => resolveParameter_eq_found_iff,
    resolveParameter_eq_elsewhere_iff, resolveParameter_eq_missing_iff⟩, ?_⟩
  intro location template item operation known
  have isDeclared (name : Text) :
      name ∈ declaredNames ((item ++ operation).filterMap (pathParameterName components)) ↔
        ∃ entry ∈ item ++ operation, ∃ parameter, Leads components entry (.item parameter) ∧
          parameter.location = .path ∧ parameter.name = name := by
    rw [mem_declaredNames, List.mem_filterMap]
    exact exists_congr fun entry => and_congr_right fun _ => pathParameterName_eq_some_iff
  have knowable : ((item ++ operation).any fun entry =>
      decide (resolveParameter components entry = .elsewhere)) = false := by
    rw [List.any_eq_false]
    exact fun entry member => by simpa using known entry member
  rw [checkPathCorrespondence, knowable]
  simp only [List.append_eq_nil_iff, List.map_eq_nil_iff, List.filter_eq_nil_iff]
  rw [Set.ext_iff]
  simp only [Set.mem_ofPred_eq, ← isDeclared]
  constructor
  · rintro ⟨declares, uses⟩ name
    exact ⟨fun member => by simpa using uses name member,
      fun member => by simpa using declares name member⟩
  · intro same
    exact ⟨fun name member => by simpa using (same name).mpr member,
      fun name member => by simpa using (same name).mp member⟩

/-- A path parameter at the end of two references, the only variable of its template. -/
theorem pathParameters_two :
    { name | ∃ entry ∈ [] ++ [RefOr.ref "#/components/parameters/b".toList], ∃ parameter,
        Leads [(['b'], .ref "#/components/parameters/a".toList), (['a'], .item ⟨['i'], .path⟩)] entry
          (.item parameter) ∧ parameter.location = .path ∧ parameter.name = name } =
      { name | name ∈ [['i']] } := by
  have exactly := (pathParameters_exact [(['b'], .ref "#/components/parameters/a".toList),
    (['a'], .item ⟨['i'], .path⟩)]).2 ['#'] ⟨"/\x7bi\x7d".toList, [['i']]⟩ []
      [.ref "#/components/parameters/b".toList] (by decide)
  exact exactly.mp (by decide)

end Kynos.OpenApi

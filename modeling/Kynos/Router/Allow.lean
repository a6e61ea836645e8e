import Kynos.Router.Table

/-!
# What a path answers

The methods a declared path answers are read off its operations four times: for
the operation of a request, for its `Allow`, for the methods the service
implements and for the plain `OPTIONS` its `Accept-Query` answers. All four
agree.
-/

namespace Kynos.Router

open Kynos.Http Kynos.Cors

variable {Mount : Type}

/-! ## Positions -/

namespace PathEntry

variable {entry : PathEntry Mount} {method : Method}

/-- A method is declared when some operation of the path has it. -/
def Declares (entry : PathEntry Mount) (method : Method) : Prop :=
  ∃ operation ∈ entry.operations, operation.method = method

/-- What a path answers: its declared methods, an undeclared `HEAD` where a `GET`
is declared, and a plain `OPTIONS` where it names an `Accept-Query`. -/
def Answers (entry : PathEntry Mount) (method : Method) : Prop :=
  entry.Declares method ∨ (method = .head ∧ entry.Declares .get) ∨
    (method = .options ∧ entry.acceptQuery.isSome)

theorem declares_iff_mem_map : entry.Declares method ↔ method ∈ entry.operations.map Served.method :=
  List.mem_map.symm

theorem any_eq_true_iff_declares :
    (entry.operations.any (·.method = method)) = true ↔ entry.Declares method := by
  simp [Declares]

theorem declared_eq_none_iff : entry.declared method = none ↔ ¬ entry.Declares method := by
  rw [declared, List.findIdx?_eq_none_iff, Declares]
  push Not
  exact forall₂_congr fun operation _ => decide_eq_false_iff_not

theorem position_eq_none_iff :
    entry.position method = none ↔
      ¬ entry.Declares method ∧ (method = .head → ¬ entry.Declares .get) := by
  rw [position, Option.or_eq_none_iff, declared_eq_none_iff]
  by_cases isHead : method = .head
  · rw [if_pos isHead, declared_eq_none_iff]
    simp [isHead]
  · simp [isHead]

theorem position_options : entry.position .options = entry.declared .options := by
  rw [position, if_neg (by decide), Option.or_none]

theorem answersOptions_iff :
    entry.answersOptions = true ↔ entry.acceptQuery.isSome ∧ ¬ entry.Declares .options := by
  rw [answersOptions, Bool.and_eq_true, Option.isNone_iff_eq_none, position_options,
    declared_eq_none_iff]

/-- The operation at a method's position is declared for that method, or is the
`GET` an undeclared `HEAD` falls back to. -/
theorem exists_of_position {position : Nat} (found : entry.position method = some position) :
    ∃ operation, entry.operations[position]? = some operation ∧
      (operation.method = method ∨
        (method = .head ∧ operation.method = .get ∧ ¬ entry.Declares .head)) := by
  have read : ∀ {wanted : Method}, entry.declared wanted = some position →
      ∃ operation, entry.operations[position]? = some operation ∧ operation.method = wanted := by
    intro wanted sits
    obtain ⟨inside, hasMethod, -⟩ := List.findIdx?_eq_some_iff_getElem.mp sits
    exact ⟨_, List.getElem?_eq_getElem inside, of_decide_eq_true hasMethod⟩
  rcases Option.or_eq_some_iff.mp found with own | ⟨none, fallsBack⟩
  · obtain ⟨operation, sits, hasMethod⟩ := read own
    exact ⟨operation, sits, .inl hasMethod⟩
  · rw [Option.ite_none_right_eq_some] at fallsBack
    obtain ⟨rfl, isGet⟩ := fallsBack
    obtain ⟨operation, sits, hasMethod⟩ := read isGet
    exact ⟨operation, sits, .inr ⟨rfl, hasMethod, declared_eq_none_iff.mp none⟩⟩

/-- A path answers what an operation of it is dispatched for, and the plain
`OPTIONS`. -/
theorem answers_iff :
    entry.Answers method ↔
      (entry.position method).isSome ∨ (method = .options ∧ entry.answersOptions = true) := by
  rw [← Option.ne_none_iff_isSome, ne_eq, position_eq_none_iff, answersOptions_iff, Answers]
  by_cases isOptions : method = .options
  · subst method
    have notHead : (Method.options = .head) ↔ False := by decide
    simp only [notHead, false_and, false_or, false_imp_iff, and_true, not_not, true_and]
    tauto
  · simp only [isOptions, false_and, or_false]
    tauto

end PathEntry

/-! ## The methods of a service -/

theorem mem_pushNew {methods : List Method} {method wanted : Method} :
    wanted ∈ pushNew methods method ↔ wanted ∈ methods ∨ wanted = method := by
  unfold pushNew
  split
  · rename_i known
    rw [List.contains_iff_mem] at known
    exact ⟨.inl, fun member => member.elim id fun same => same ▸ known⟩
  · rw [List.mem_append, List.mem_singleton]

theorem mem_foldl_pushNew {added methods : List Method} {wanted : Method} :
    wanted ∈ added.foldl pushNew methods ↔ wanted ∈ methods ∨ wanted ∈ added := by
  induction added generalizing methods with
  | nil => simp
  | cons method rest ih => rw [List.foldl_cons, ih, mem_pushNew, List.mem_cons, or_assoc]

theorem mem_foldl_answeredBy {operations : List (Served Mount)} {methods : List Method}
    {wanted : Method} :
    wanted ∈ operations.foldl
        (fun methods operation => (answeredBy operation).foldl pushNew methods) methods ↔
      wanted ∈ methods ∨ ∃ operation ∈ operations, wanted ∈ answeredBy operation := by
  induction operations generalizing methods with
  | nil => simp
  | cons operation rest ih =>
      rw [List.foldl_cons, ih, mem_foldl_pushNew, List.exists_mem_cons_iff, or_assoc]

theorem mem_answeredBy {operation : Served Mount} {wanted : Method} :
    wanted ∈ answeredBy operation ↔
      operation.method = wanted ∨ (wanted = .head ∧ operation.method = .get) := by
  rw [answeredBy, List.mem_cons, eq_comm]
  by_cases isGet : operation.method = .get <;> simp [isGet]

theorem exists_mem_answeredBy_iff {entry : PathEntry Mount} {wanted : Method} :
    (∃ operation ∈ entry.operations, wanted ∈ answeredBy operation) ↔
      entry.Declares wanted ∨ (wanted = .head ∧ entry.Declares .get) := by
  constructor
  · rintro ⟨operation, member, answered⟩
    rcases mem_answeredBy.mp answered with own | ⟨isHead, isGet⟩
    · exact .inl ⟨operation, member, own⟩
    · exact .inr ⟨isHead, operation, member, isGet⟩
  · rintro (⟨operation, member, own⟩ | ⟨isHead, operation, member, isGet⟩)
    · exact ⟨operation, member, mem_answeredBy.mpr (.inl own)⟩
    · exact ⟨operation, member, mem_answeredBy.mpr (.inr ⟨isHead, isGet⟩)⟩

theorem mem_implementedBy {entry : PathEntry Mount} {methods : List Method} {wanted : Method} :
    wanted ∈ implementedBy methods entry ↔ wanted ∈ methods ∨ entry.Answers wanted := by
  have folded := @mem_foldl_answeredBy _ entry.operations methods wanted
  rw [exists_mem_answeredBy_iff] at folded
  unfold implementedBy
  rw [PathEntry.Answers]
  split
  · rename_i answers
    rw [mem_pushNew, folded]
    simp [(PathEntry.answersOptions_iff.mp answers).1, or_assoc]
  · rename_i silent
    rw [folded]
    have declared : wanted = .options ∧ entry.acceptQuery.isSome → entry.Declares wanted := by
      rintro ⟨rfl, named⟩
      by_contra undeclared
      exact silent (PathEntry.answersOptions_iff.mpr ⟨named, undeclared⟩)
    tauto

theorem mem_foldl_implementedBy {paths : List (PathEntry Mount)} {methods : List Method}
    {wanted : Method} :
    wanted ∈ paths.foldl implementedBy methods ↔
      wanted ∈ methods ∨ ∃ entry ∈ paths, entry.Answers wanted := by
  induction paths generalizing methods with
  | nil => simp
  | cons entry rest ih =>
      rw [List.foldl_cons, ih, mem_implementedBy, List.exists_mem_cons_iff, or_assoc]

/-- The methods a service implements are those some path of it answers. -/
theorem mem_implemented {paths : List (PathEntry Mount)} {wanted : Method} :
    wanted ∈ implemented paths ↔ ∃ entry ∈ paths, entry.Answers wanted := by
  rw [implemented, mem_foldl_implementedBy]
  simp

/-! ## The `Allow` of a path -/

/-- A name is a method's that a path answers. -/
def PathEntry.AnswersTo (entry : PathEntry Mount) (name : Text) : Prop :=
  ∃ method, Method.fromWireStr name = some method ∧ entry.Answers method

theorem not_lists_emptyValue (name : Text) : ¬ Lists emptyValue name := by
  rintro ⟨text, read, member⟩
  obtain rfl : [] = text := Option.some.inj read
  exact absurd member (by simp [members, Text.trimOws, Word.trimBy])

/-- Methods joined by their wire names are listed. -/
theorem lists_joined {methods : List Method} {name : Text} :
    Lists ((joinNames (methods.map Method.asWireStr)).getD emptyValue) name ↔
      ∃ method ∈ methods, method.asWireStr = name := by
  rw [← List.mem_map]
  by_cases none : methods = []
  · subst methods
    simpa [joinNames] using not_lists_emptyValue name
  · obtain ⟨value, isJoined, reads⟩ :=
      exists_joinNames (List.map_eq_nil_iff.not.mpr none) Method.isListName_of_mem_map
    rw [isJoined, Option.getD_some, reads]

/-- What `allow_header` lists. -/
theorem lists_allowHeader {methods : List Method} {name : Text} :
    Lists (allowHeader methods) name ↔
      ∃ method, Method.fromWireStr name = some method ∧
        (method ∈ methods ∨ (method = .head ∧ .get ∈ methods)) := by
  rw [allowHeader, lists_joined]
  simp only [List.mem_flatMap, List.mem_cons, Method.fromWireStr_eq_some_iff]
  constructor
  · rintro ⟨method, ⟨declared, member, rfl | derived⟩, hasName⟩
    · exact ⟨method, hasName, .inl member⟩
    · obtain ⟨⟨-, rfl⟩, rfl⟩ : (_ ∧ declared = .get) ∧ method = .head := by simpa using derived
      exact ⟨.head, hasName, .inr ⟨rfl, member⟩⟩
  · rintro ⟨method, hasName, member | ⟨rfl, member⟩⟩
    · exact ⟨method, ⟨method, member, .inl rfl⟩, hasName⟩
    · refine ⟨.head, ?_, hasName⟩
      by_cases declared : Method.head ∈ methods
      · exact ⟨.head, declared, .inl rfl⟩
      · exact ⟨.get, member, .inr (by simp [declared])⟩

/-- The `Allow` derived for a path lists what it answers. -/
theorem PathEntry.lists_deriveAllow {entry : PathEntry Mount} {name : Text} :
    Lists entry.deriveAllow.allow name ↔ entry.AnswersTo name := by
  rw [deriveAllow, lists_allowHeader]
  refine exists_congr fun method => and_congr_right fun _ => ?_
  have getOnly : Method.get ∉ if entry.answersOptions = true then [Method.options] else [] := by
    split <;> simp
  rw [List.mem_append, List.mem_append, ← declares_iff_mem_map, ← declares_iff_mem_map,
    or_iff_left getOnly, Answers]
  have answered : (method ∈ if entry.answersOptions = true then [Method.options] else []) ↔
      method = .options ∧ entry.acceptQuery.isSome ∧ ¬ entry.Declares .options := by
    rw [← answersOptions_iff]
    split <;> simp [*]
  rw [answered]
  by_cases isOptions : method = .options
  · subst method
    tauto
  · simp [isOptions]

end Kynos.Router

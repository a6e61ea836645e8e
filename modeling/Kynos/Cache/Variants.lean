import Kynos.Cache.Store
import Kynos.Run.Runs

/-!
# Which variant is selected

Selection compares the request a response was recorded for with another one, and
being the same variant compares the requests of two responses: both by the
combined value of every field the response varied on. A store that replaces by
the same variant holds one a request selects.
-/

namespace Kynos.Cache

open Kynos.Http Kynos.Run

/-! ## Splitting lines -/

theorem intercalate_split {before after : List Octets} {whole first second separator : Octets}
    (isWhole : whole = first ++ separator ++ second) :
    separator.intercalate (before ++ whole :: after) =
      separator.intercalate (before ++ first :: second :: after) := by
  subst isWhole
  induction before with
  | nil =>
      cases after <;> simp [List.intercalate, List.intersperse]
  | cons line before ih =>
      cases before with
      | nil => simpa [List.intercalate, List.intersperse] using ih
      | cons next before => simpa [List.intercalate, List.intersperse] using ih

/-- Messages alike but for a line of one field that the second sends as two, cut
at a comma and a space. -/
def Splits (merged split : HeaderMap) : Prop :=
  ∃ name before after whole first second,
    merged.getAll name = before ++ whole :: after ∧
    split.getAll name = before ++ first :: second :: after ∧
    whole.octets = first.octets ++ [44, 32] ++ second.octets ∧
    ∀ other, other ≠ name → merged.getAll other = split.getAll other

theorem combinedValue_of_splits {merged split : HeaderMap} (splits : Splits merged split)
    (name : Text) : combinedValue merged name = combinedValue split name := by
  obtain ⟨cut, before, after, whole, first, second, isMerged, isSplit, isWhole, others⟩ := splits
  by_cases isCut : name = cut
  · subst isCut
    rw [← sameLines_getAll_iff, isMerged, isSplit, sameLines, Bool.and_eq_true, beq_iff_eq,
      beq_iff_eq]
    constructor
    · cases before <;> rfl
    · simp only [combined, List.map_append, List.map_cons]
      exact intercalate_split isWhole
  · simp only [combinedValue, others name isCut]

namespace StoredResponse

variable {stored other : StoredResponse} {request theirs : HeaderMap}

/-- A response is recorded with the lines a request sent for each name it varies
on. -/
def RecordedFor (stored : StoredResponse) (request : HeaderMap) : Prop :=
  stored.selecting = stored.vary.map request.getAll

/-- A stored response was recorded for some request. -/
def IsRecorded (stored : StoredResponse) : Prop :=
  ∃ request, stored.RecordedFor request

theorem recordedFor_recordedOf (recordedAt : Date.SystemTime) (status : Nat) (headers : HeaderMap)
    (body : Octets) (vary : List Text) (request : HeaderMap) (freshness : Numeral.Duration) :
    (recordedOf recordedAt status headers body vary request freshness).RecordedFor request :=
  rfl

theorem selectedBy_iff (recorded : stored.RecordedFor request) :
    stored.selectedBy theirs = true ↔
      ∀ name ∈ stored.vary, combinedValue request name = combinedValue theirs name := by
  have rebuilt : stored = recordedOf stored.recordedAt stored.status stored.headers stored.body
      stored.vary request stored.freshness := by
    rw [recordedOf, ← recorded]
  rw [rebuilt]
  exact selectedBy_recordedOf_iff

theorem sameVariant_iff (recorded : stored.RecordedFor request)
    (otherRecorded : other.RecordedFor theirs) :
    stored.sameVariant other = true ↔ stored.vary = other.vary ∧
      ∀ name ∈ stored.vary, combinedValue request name = combinedValue theirs name := by
  rw [sameVariant, Bool.and_eq_true, beq_iff_eq]
  refine and_congr_right fun same => ?_
  rw [recorded, otherRecorded, ← same, List.zip_map', List.all_map, List.all_eq_true]
  simp only [Function.comp_apply, sameLines_getAll_iff]

/-- A request selects a response that is the same variant as the one recorded for
that request. -/
theorem selectedBy_eq_sameVariant (recorded : stored.RecordedFor request)
    (otherRecorded : other.RecordedFor theirs) (same : other.vary = stored.vary) :
    stored.selectedBy theirs = stored.sameVariant other := by
  rw [Bool.eq_iff_iff, selectedBy_iff recorded, sameVariant_iff recorded otherRecorded]
  exact (and_iff_right same.symm).symm

theorem sameVariant_equivalence :
    Equivalence fun first second : Subtype IsRecorded =>
      first.val.sameVariant second.val = true where
  refl := by
    rintro ⟨stored, request, recorded⟩
    exact (sameVariant_iff recorded recorded).mpr ⟨rfl, fun _ _ => rfl⟩
  symm := by
    rintro ⟨first, request, recorded⟩ ⟨second, theirs, otherRecorded⟩ same
    obtain ⟨sameVary, values⟩ := (sameVariant_iff recorded otherRecorded).mp same
    exact (sameVariant_iff otherRecorded recorded).mpr
      ⟨sameVary.symm, fun name member => (values name (sameVary ▸ member)).symm⟩
  trans := by
    rintro ⟨first, request, recorded⟩ ⟨second, theirs, otherRecorded⟩ ⟨third, last, lastRecorded⟩
      same next
    obtain ⟨sameVary, values⟩ := (sameVariant_iff recorded otherRecorded).mp same
    obtain ⟨nextVary, nextValues⟩ := (sameVariant_iff otherRecorded lastRecorded).mp next
    exact (sameVariant_iff recorded lastRecorded).mpr ⟨sameVary.trans nextVary, fun name member =>
      (values name member).trans (nextValues name (sameVary ▸ member))⟩

/-- Selection does not see where the lines of a field are cut. -/
theorem selectedBy_of_splits (recorded : stored.RecordedFor request) {split : HeaderMap}
    (splits : Splits theirs split) : stored.selectedBy theirs = stored.selectedBy split := by
  rw [Bool.eq_iff_iff, selectedBy_iff recorded, selectedBy_iff recorded]
  simp only [combinedValue_of_splits splits]

/-- Nor where those it was recorded with are. -/
theorem sameVariant_of_splits (recorded : stored.RecordedFor request) {split : HeaderMap}
    (otherRecorded : other.RecordedFor split) (splits : Splits request split)
    (same : stored.vary = other.vary) : stored.sameVariant other = true :=
  (sameVariant_iff recorded otherRecorded).mpr
    ⟨same, fun name _ => combinedValue_of_splits splits name⟩

/-- A field that is not sent is not one sent empty. -/
theorem absent_iff_of_selectedBy (recorded : stored.RecordedFor request)
    (selected : stored.selectedBy theirs = true) {name : Text} (varied : name ∈ stored.vary) :
    request.getAll name = [] ↔ theirs.getAll name = [] := by
  have same := (selectedBy_iff recorded).mp selected name varied
  unfold combinedValue at same
  cases mine : request.getAll name <;> cases others : theirs.getAll name <;> simp_all

end StoredResponse

/-! ## Stores -/

/-- What is done to a store. -/
inductive Operation where
  | put (key : PrimaryKey) (response : StoredResponse)
  | invalidate (key : PrimaryKey)

/-- What is put is a recorded response. -/
def Operation.Recorded : Operation → Prop
  | put _ response => response.IsRecorded
  | invalidate _ => True

/-- The store after an operation. -/
def CacheStore.after {State : Type} (store : CacheStore State) (state : State) :
    Operation → State
  | .put key response => store.put state key response
  | .invalidate key => store.invalidate state key

/-- Every variant was recorded, and no two are the same variant. -/
def CacheStore.Distinct {State : Type} (store : CacheStore State) (state : State) : Prop :=
  ∀ key, (∀ stored ∈ store.get state key, stored.IsRecorded) ∧
    ∀ first ∈ store.get state key, ∀ second ∈ store.get state key,
      first.sameVariant second = true → first = second

section Stores

variable {State : Type} {store : CacheStore State} {state : State}

theorem CacheStore.distinct_empty : store.Distinct store.empty := by
  intro key
  simp [store.get_empty]

theorem CacheStore.Distinct.after (distinct : store.Distinct state) {operation : Operation}
    (recorded : operation.Recorded) : store.Distinct (store.after state operation) := by
  intro key
  obtain ⟨allRecorded, unique⟩ := distinct key
  cases operation with
  | put target response =>
      simp only [CacheStore.after, store.mem_get_put]
      refine ⟨?_, ?_⟩
      · rintro stored (⟨-, rfl⟩ | ⟨held, -⟩)
        · exact recorded
        · exact allRecorded stored held
      · rintro first (⟨isTarget, rfl⟩ | ⟨held, differs⟩) second (⟨isTarget', rfl⟩ | ⟨held', differs'⟩)
          same
        · rfl
        · exact absurd ⟨isTarget, StoredResponse.sameVariant_equivalence.symm
            (x := ⟨first, recorded⟩) (y := ⟨second, allRecorded second held'⟩) same⟩ differs'
        · exact absurd ⟨isTarget', same⟩ differs
        · exact unique first held second held' same
  | invalidate target =>
      simp only [CacheStore.after, store.mem_get_invalidate]
      exact ⟨fun stored held => allRecorded stored held.1,
        fun first held second held' => unique first held.1 second held'.1⟩

theorem CacheStore.distinct_run {operations : List Operation}
    (recorded : ∀ operation ∈ operations, operation.Recorded) :
    store.Distinct (operations.foldl store.after store.empty) := by
  suffices ∀ state, store.Distinct state → store.Distinct (operations.foldl store.after state) from
    this _ store.distinct_empty
  induction operations with
  | nil => exact fun _ distinct => distinct
  | cons operation operations ih =>
      intro state distinct
      exact ih (fun later member => recorded later (List.mem_cons_of_mem _ member)) _
        (distinct.after (recorded operation List.mem_cons_self))

/-- Of the variants of one `Vary`, a request selects one. -/
theorem CacheStore.Distinct.eq_of_selectedBy (distinct : store.Distinct state) {key : PrimaryKey}
    {first second : StoredResponse} (held : first ∈ store.get state key)
    (held' : second ∈ store.get state key) (sameVary : first.vary = second.vary)
    {request : HeaderMap} (selected : first.selectedBy request = true)
    (selected' : second.selectedBy request = true) : first = second := by
  obtain ⟨allRecorded, unique⟩ := distinct key
  obtain ⟨mine, recorded⟩ := allRecorded first held
  obtain ⟨theirs, recorded'⟩ := allRecorded second held'
  refine unique first held second held'
    ((StoredResponse.sameVariant_iff recorded recorded').mpr ⟨sameVary, fun name member => ?_⟩)
  rw [(StoredResponse.selectedBy_iff recorded).mp selected name member,
    (StoredResponse.selectedBy_iff recorded').mp selected' name (sameVary ▸ member)]

end Stores

/-- In memory, no variant is held twice. -/
theorem pairwise_memory (operations : List Operation) (key : PrimaryKey) :
    (memory.get (operations.foldl memory.after memory.empty) key).Pairwise fun first second =>
      first.sameVariant second = false := by
  suffices ∀ state : PrimaryKey → List StoredResponse,
      (∀ key, (state key).Pairwise fun first second => first.sameVariant second = false) →
        ∀ key, (operations.foldl memory.after state key).Pairwise fun first second =>
          first.sameVariant second = false from
    this _ (fun _ => .nil) key
  induction operations with
  | nil => exact fun _ pairwise => pairwise
  | cons operation operations ih =>
      intro state pairwise
      refine ih _ fun key => ?_
      cases operation with
      | put target response =>
          by_cases isTarget : key = target
          · subst isTarget
            simp only [CacheStore.after, memory, Function.update_self, List.pairwise_append,
              List.pairwise_singleton, List.mem_filter, List.mem_singleton, true_and]
            refine ⟨(pairwise key).filter _, ?_⟩
            rintro stored ⟨-, differs⟩ _ rfl
            simpa using differs
          · simp only [CacheStore.after, memory, Function.update_of_ne isTarget]
            exact pairwise key
      | invalidate target =>
          by_cases isTarget : key = target
          · subst isTarget
            simp [CacheStore.after, memory]
          · simp only [CacheStore.after, memory, Function.update_of_ne isTarget]
            exact pairwise key

/-- Variant selection is coherent. -/
theorem variant_selection :
    (Equivalence fun first second : Subtype StoredResponse.IsRecorded =>
      first.val.sameVariant second.val = true) ∧
    (∀ (stored other : StoredResponse) (request theirs : HeaderMap),
      stored.RecordedFor request → other.RecordedFor theirs → other.vary = stored.vary →
        stored.selectedBy theirs = stored.sameVariant other) ∧
    (∀ (stored : StoredResponse) (request merged split : HeaderMap),
      stored.RecordedFor request → Splits merged split →
        stored.selectedBy merged = stored.selectedBy split) ∧
    (∀ (stored other : StoredResponse) (merged split : HeaderMap),
      stored.RecordedFor merged → other.RecordedFor split → Splits merged split →
        stored.vary = other.vary → stored.sameVariant other = true) ∧
    (∀ (stored : StoredResponse) (request theirs : HeaderMap),
      stored.RecordedFor request → stored.selectedBy theirs = true → ∀ name ∈ stored.vary,
        (request.getAll name = [] ↔ theirs.getAll name = [])) ∧
    (∀ (State : Type) (store : CacheStore State) (operations : List Operation),
      (∀ operation ∈ operations, operation.Recorded) →
        let state := operations.foldl store.after store.empty
        ∀ key, ∀ first ∈ store.get state key, ∀ second ∈ store.get state key,
          first.vary = second.vary → ∀ request, first.selectedBy request = true →
            second.selectedBy request = true → first = second) ∧
    ∀ (operations : List Operation) (key : PrimaryKey),
      (memory.get (operations.foldl memory.after memory.empty) key).Pairwise fun first second =>
        first.sameVariant second = false :=
  ⟨StoredResponse.sameVariant_equivalence,
    fun _ _ _ _ => StoredResponse.selectedBy_eq_sameVariant,
    fun _ _ _ _ recorded => StoredResponse.selectedBy_of_splits recorded,
    fun _ _ _ _ recorded => StoredResponse.sameVariant_of_splits recorded,
    fun _ _ _ recorded selected _ => StoredResponse.absent_iff_of_selectedBy recorded selected,
    fun _ _ _ recorded _ _ held _ held' sameVary _ =>
      (CacheStore.distinct_run recorded).eq_of_selectedBy held held' sameVary,
    pairwise_memory⟩

def acceptLanguage : Text := "accept-language".toList

/-- A response that varies on the language, recorded for a request. -/
def inLanguage (request : HeaderMap) : StoredResponse :=
  StoredResponse.recordedOf 0 200 HeaderMap.empty [] [acceptLanguage] request 0

/-- A request for two languages, on one line and on two. -/
theorem variant_selection_languages :
    let line := fun octets valid => ((acceptLanguage, ⟨octets, valid⟩) : Text × HeaderValue)
    let merged : HeaderMap := ⟨[line [100, 101, 44, 32, 101, 110] (by decide)]⟩
    let split : HeaderMap := ⟨[line [100, 101] (by decide), line [101, 110] (by decide)]⟩
    (inLanguage merged).selectedBy merged = (inLanguage merged).selectedBy split ∧
      (inLanguage merged).selectedBy split = (inLanguage merged).sameVariant (inLanguage split) := by
  intro line merged split
  refine ⟨variant_selection.2.2.1 (inLanguage merged) merged merged split rfl ?_,
    variant_selection.2.1 (inLanguage merged) (inLanguage split) merged split rfl rfl rfl⟩
  refine ⟨acceptLanguage, [], [], ⟨[100, 101, 44, 32, 101, 110], by decide⟩,
    ⟨[100, 101], by decide⟩, ⟨[101, 110], by decide⟩, by decide, by decide, rfl,
    fun other different => ?_⟩
  simp [merged, split, line, HeaderMap.getAll, Ne.symm different]

end Kynos.Cache

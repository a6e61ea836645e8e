import Mathlib.Data.List.Nodup
import Mathlib.Tactic.Common
import Mathlib.Data.List.Induction

/-!
# Collections by key

Items count as one where their keys are equal. Those of a list that a collection
lacks are each added once, in the order of the list.

An ordered map has its entries in the order their keys were first put; a key put
again keeps its place and takes the new value. As a type of its own, it holds no
key twice.
-/

namespace Kynos.Collection

universe u v

variable {α : Type u} {κ : Type v} [DecidableEq κ] {key : α → κ}

/-- The items of a list whose key neither is known nor an earlier item has. -/
def fresh (key : α → κ) (known : List κ) : List α → List α
  | [] => []
  | item :: rest =>
      if key item ∈ known then fresh key known rest else item :: fresh key (key item :: known) rest

variable {known other : List κ}

theorem fresh_cons_of_mem {item : α} (member : key item ∈ known) (rest : List α) :
    fresh key known (item :: rest) = fresh key known rest := by
  rw [fresh, if_pos member]

theorem fresh_cons_of_notMem {item : α} (notMember : key item ∉ known) (rest : List α) :
    fresh key known (item :: rest) = item :: fresh key (key item :: known) rest := by
  rw [fresh, if_neg notMember]

/-- Only which keys are known counts. -/
theorem fresh_congr (same : ∀ known' : κ, known' ∈ known ↔ known' ∈ other) (items : List α) :
    fresh key known items = fresh key other items := by
  induction items generalizing known other with
  | nil => rfl
  | cons item rest ih =>
      by_cases member : key item ∈ known
      · rw [fresh_cons_of_mem member, fresh_cons_of_mem ((same _).mp member), ih same]
      · rw [fresh_cons_of_notMem member, fresh_cons_of_notMem (mt (same _).mpr member),
          ih fun _ => List.mem_cons.trans ((or_congr_right (same _)).trans List.mem_cons.symm)]

theorem fresh_sublist (key : α → κ) (known : List κ) (items : List α) :
    List.Sublist (fresh key known items) items := by
  induction items generalizing known with
  | nil => exact .refl _
  | cons item rest ih =>
      by_cases member : key item ∈ known
      · rw [fresh_cons_of_mem member]
        exact (ih known).cons item
      · rw [fresh_cons_of_notMem member]
        exact (ih _).cons_cons item

/-- The keys added are those of the list that were not known. -/
theorem mem_map_fresh {wanted : κ} {items : List α} :
    wanted ∈ (fresh key known items).map key ↔ wanted ∈ items.map key ∧ wanted ∉ known := by
  induction items generalizing known with
  | nil => simp [fresh]
  | cons item rest ih =>
      by_cases member : key item ∈ known
      · rw [fresh_cons_of_mem member, ih, List.map_cons, List.mem_cons]
        constructor
        · rintro ⟨inRest, unknown⟩
          exact ⟨.inr inRest, unknown⟩
        · rintro ⟨rfl | inRest, unknown⟩
          · exact absurd member unknown
          · exact ⟨inRest, unknown⟩
      · rw [fresh_cons_of_notMem member, List.map_cons, List.mem_cons, ih, List.map_cons,
          List.mem_cons, List.mem_cons]
        by_cases isItem : wanted = key item
        · simp [isItem, member]
        · simp [isItem]

/-- Every key is added once. -/
theorem nodup_map_fresh (key : α → κ) (known : List κ) (items : List α) :
    ((fresh key known items).map key).Nodup := by
  induction items generalizing known with
  | nil => exact .nil
  | cons item rest ih =>
      by_cases member : key item ∈ known
      · rw [fresh_cons_of_mem member]
        exact ih known
      · rw [fresh_cons_of_notMem member, List.map_cons, List.nodup_cons, mem_map_fresh]
        exact ⟨fun added => added.2 List.mem_cons_self, ih _⟩

/-- Nothing is added where every key is known. -/
theorem fresh_eq_nil_iff {items : List α} :
    fresh key known items = [] ↔ ∀ item ∈ items, key item ∈ known := by
  rw [List.eq_nil_iff_forall_not_mem]
  constructor
  · intro none item member
    by_contra unknown
    have added : key item ∈ (fresh key known items).map key :=
      mem_map_fresh.mpr ⟨List.mem_map_of_mem member, unknown⟩
    obtain ⟨found, inFresh, -⟩ := List.mem_map.mp added
    exact none found inFresh
  · intro known item inFresh
    have added : key item ∈ (fresh key _ items).map key := List.mem_map_of_mem inFresh
    exact (mem_map_fresh.mp added).2 (known item ((fresh_sublist key _ items).subset inFresh))

end Kynos.Collection

namespace Kynos.Collection

variable {κ β : Type*} [DecidableEq κ]

/-- One entry put in a map. -/
def put (key : κ) (value : β) : List (κ × β) → List (κ × β)
  | [] => [(key, value)]
  | (other, held) :: rest =>
      if other = key then (key, value) :: rest else (other, held) :: put key value rest

/-- The entries of a map put in another. -/
def extend (entries added : List (κ × β)) : List (κ × β) :=
  added.foldl (fun entries entry => put entry.1 entry.2 entries) entries

theorem mem_of_mem_put {key : κ} {value : β} {entries : List (κ × β)} {entry : κ × β}
    (member : entry ∈ put key value entries) : entry = (key, value) ∨ entry ∈ entries := by
  induction entries with
  | nil => exact .inl (List.mem_singleton.mp member)
  | cons first rest ih =>
      rw [put] at member
      split at member
      · exact (List.mem_cons.mp member).imp_right (List.mem_cons_of_mem _)
      · rcases List.mem_cons.mp member with rfl | inRest
        · exact .inr List.mem_cons_self
        · exact (ih inRest).imp_right (List.mem_cons_of_mem _)

/-- Entries put in an empty map are all it has. -/
theorem mem_of_mem_extend_nil {added : List (κ × β)} {entry : κ × β} (member : entry ∈ extend [] added) :
    entry ∈ added := by
  induction added using List.reverseRecOn with
  | nil => exact member
  | append_singleton added last ih =>
      rw [extend, List.foldl_append, List.foldl_cons, List.foldl_nil] at member
      rcases mem_of_mem_put member with rfl | before
      · exact List.mem_append_right _ List.mem_cons_self
      · exact List.mem_append_left _ (ih before)

variable [BEq κ] [LawfulBEq κ]

theorem lookup_cons (key wanted : κ) (value : β) (entries : List (κ × β)) :
    ((key, value) :: entries).lookup wanted =
      if wanted = key then some value else entries.lookup wanted := by
  rw [List.lookup_cons]
  by_cases same : wanted = key
  · simp only [same, beq_self_eq_true, if_true]
  · simp only [beq_eq_false_iff_ne.mpr same, same, if_false]

theorem lookup_map {γ : Type*} (change : β → γ) (wanted : κ) (entries : List (κ × β)) :
    (entries.map fun entry => (entry.1, change entry.2)).lookup wanted = (entries.lookup wanted).map change := by
  induction entries with
  | nil => rfl
  | cons entry rest ih =>
      rw [List.map_cons, lookup_cons, lookup_cons, ih]
      split <;> rfl

theorem lookup_put (key wanted : κ) (value : β) (entries : List (κ × β)) :
    (put key value entries).lookup wanted =
      if wanted = key then some value else entries.lookup wanted := by
  induction entries with
  | nil => rw [put, lookup_cons]
  | cons entry rest ih =>
      obtain ⟨other, held⟩ := entry
      rw [put]
      split
      · rename_i same
        rw [lookup_cons, lookup_cons, same]
        split <;> rfl
      · rename_i different
        rw [lookup_cons, lookup_cons, ih]
        by_cases isKey : wanted = key
        · rw [if_pos isKey, if_pos isKey, if_neg (by rw [isKey]; exact Ne.symm different)]
        · rw [if_neg isKey, if_neg isKey]

/-- A key has the value it was last put with. -/
theorem lookup_foldl_put {α : Type*} (key : α → κ) (value : α → β) (items : List α) (wanted : κ) :
    (items.foldl (fun entries item => put (key item) (value item) entries) []).lookup wanted =
      (items.reverse.find? fun item => key item = wanted).map value := by
  induction items using List.reverseRecOn with
  | nil => rfl
  | append_singleton items item ih =>
      rw [List.foldl_append, List.foldl_cons, List.foldl_nil, lookup_put, List.reverse_concat,
        List.find?_cons, ih]
      by_cases same : wanted = key item
      · simp [same]
      · simp [same, Ne.symm same]

/-- Of entries whose keys differ, a map holds each. -/
theorem lookup_extend_nil_eq_some_iff {entries : List (κ × β)} (distinct : (entries.map Prod.fst).Nodup)
    {key : κ} {value : β} : (extend [] entries).lookup key = some value ↔ (key, value) ∈ entries := by
  rw [extend, lookup_foldl_put Prod.fst Prod.snd, Option.map_eq_some_iff]
  constructor
  · rintro ⟨⟨other, held⟩, isFound, rfl⟩
    have isKey := List.find?_some isFound
    have member := List.mem_reverse.mp (List.mem_of_find?_eq_some isFound)
    simp only [decide_eq_true_eq] at isKey
    rw [isKey] at member
    exact member
  · intro member
    obtain ⟨entry, isFound⟩ : ∃ entry, entries.reverse.find? (fun item => item.1 = key) = some entry := by
      refine Option.isSome_iff_exists.mp (List.find?_isSome.mpr ?_)
      exact ⟨(key, value), List.mem_reverse.mpr member, decide_eq_true rfl⟩
    have isKey := List.find?_some isFound
    have isEntry := List.mem_reverse.mp (List.mem_of_find?_eq_some isFound)
    simp only [decide_eq_true_eq] at isKey
    refine ⟨entry, isFound, ?_⟩
    exact congrArg Prod.snd (List.inj_on_of_nodup_map distinct isEntry member isKey)

end Kynos.Collection

namespace Kynos.Collection

/-- `indexmap::IndexMap`. -/
structure IndexMap (κ β : Type*) where
  entries : List (κ × β)
  distinct : (entries.map Prod.fst).Nodup

namespace IndexMap

variable {κ β : Type*}

/-- `IndexMap::new`. -/
def empty : IndexMap κ β where
  entries := []
  distinct := List.nodup_nil

variable [DecidableEq κ]

theorem map_fst_put (key : κ) (value : β) (entries : List (κ × β)) :
    (put key value entries).map Prod.fst =
      if key ∈ entries.map Prod.fst then entries.map Prod.fst else entries.map Prod.fst ++ [key] := by
  induction entries with
  | nil => rfl
  | cons entry rest ih =>
      obtain ⟨other, held⟩ := entry
      rw [put]
      by_cases same : other = key
      · simp [same]
      · simp only [if_neg same, List.map_cons, ih, List.mem_cons, Ne.symm same, false_or]
        split <;> rfl

/-- `IndexMap::insert`. -/
def insert (key : κ) (value : β) (map : IndexMap κ β) : IndexMap κ β where
  entries := put key value map.entries
  distinct := by
    rw [map_fst_put]
    split
    · exact map.distinct
    · rename_i absent
      exact List.nodup_append.mpr ⟨map.distinct, List.nodup_singleton key, by
        rintro other member _ isKey rfl
        exact absent ((List.mem_singleton.mp isKey) ▸ member)⟩

/-- `IndexMap::get`. -/
def get? (map : IndexMap κ β) (key : κ) : Option β :=
  map.entries.lookup key

theorem get?_empty (key : κ) : (empty : IndexMap κ β).get? key = none :=
  rfl

theorem get?_insert (key wanted : κ) (value : β) (map : IndexMap κ β) :
    (map.insert key value).get? wanted = if wanted = key then some value else map.get? wanted :=
  lookup_put key wanted value map.entries

theorem get?_eq_some_iff {map : IndexMap κ β} {key : κ} {value : β} :
    map.get? key = some value ↔ (key, value) ∈ map.entries := by
  constructor
  · intro isValue
    obtain ⟨before, after, same, -⟩ := List.lookup_eq_some_iff.mp isValue
    rw [same]
    exact List.mem_append_right _ List.mem_cons_self
  · intro member
    obtain ⟨before, after, same⟩ := List.append_of_mem member
    refine List.lookup_eq_some_iff.mpr ⟨before, after, same, fun other isBefore => ?_⟩
    have distinct := map.distinct
    rw [same, List.map_append, List.map_cons] at distinct
    rw [bne_iff_ne]
    rintro rfl
    exact (List.nodup_append.mp distinct).2.2 _ (List.mem_map_of_mem isBefore) _
      List.mem_cons_self rfl

/-- Entries of new keys that differ are inserted one after another. -/
theorem get?_foldl_insert {entries : List (κ × β)} (distinct : (entries.map Prod.fst).Nodup)
    (map : IndexMap κ β) (key : κ) :
    (entries.foldl (fun map entry => map.insert entry.1 entry.2) map).get? key =
      (entries.lookup key).or (map.get? key) := by
  induction entries generalizing map with
  | nil => rfl
  | cons entry rest ih =>
      rw [List.map_cons, List.nodup_cons] at distinct
      rw [List.foldl_cons, ih distinct.2, get?_insert, lookup_cons]
      by_cases same : key = entry.1
      · have absent : rest.lookup key = none := by
          rw [List.lookup_eq_none_iff]
          intro other member
          rw [bne_iff_ne]
          rintro isKey
          exact distinct.1 (by rw [← same, isKey]; exact List.mem_map_of_mem member)
        rw [if_pos same, if_pos same, absent]
        rfl
      · rw [if_neg same, if_neg same]

/-- A map of entries whose keys differ holds each of them. -/
theorem mem_entries_foldl_insert_iff {entries : List (κ × β)}
    (distinct : (entries.map Prod.fst).Nodup) {key : κ} {value : β} :
    (key, value) ∈ (entries.foldl (fun map entry => map.insert entry.1 entry.2) empty).entries ↔
      (key, value) ∈ entries := by
  rw [← get?_eq_some_iff, get?_foldl_insert distinct, get?_empty, Option.or_none]
  have held : (IndexMap.mk entries distinct).get? key = some value ↔ (key, value) ∈ entries :=
    get?_eq_some_iff
  exact held

/-- Entries that are gone through one after another, each changing what its own key
holds. -/
theorem get?_foldl {γ : Type*} {step : IndexMap κ β → κ × γ → IndexMap κ β}
    (value : κ → Option β → γ → Option β)
    (isStep : ∀ map entry key, (step map entry).get? key =
      if key = entry.1 then value entry.1 (map.get? entry.1) entry.2 else map.get? key)
    (added : IndexMap κ γ) (map : IndexMap κ β) (key : κ) :
    (added.entries.foldl step map).get? key =
      (added.get? key).elim (map.get? key) (value key (map.get? key)) := by
  obtain ⟨entries, distinct⟩ := added
  change _ = (entries.lookup key).elim _ _
  induction entries generalizing map with
  | nil => rfl
  | cons entry rest ih =>
      rw [List.map_cons, List.nodup_cons] at distinct
      rw [List.foldl_cons, ih _ distinct.2, isStep, lookup_cons]
      by_cases same : key = entry.1
      · have absent : rest.lookup key = none := by
          rw [List.lookup_eq_none_iff]
          intro other member
          rw [bne_iff_ne]
          rintro isKey
          exact distinct.1 (by rw [← same, isKey]; exact List.mem_map_of_mem member)
        rw [if_pos same, if_pos same, absent, Option.elim_none, Option.elim_some, same]
      · rw [if_neg same, if_neg same]

end IndexMap

end Kynos.Collection

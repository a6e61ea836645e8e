import Kynos.Http.SfString
import Kynos.RateLimit.Quota
import Mathlib.Data.List.Forall2

/-!
# The standard rate-limit fields

`RateLimitFields` of `middleware/rate_limit/headers.rs`: where a client stands
against each limit, and what each policy enforces. Both fields are structured
Lists of the entries whose names can be written, and no number in them promises
more than the entry does.
-/

namespace Kynos.RateLimit

open Kynos.Http Kynos.Numeral Kynos.StructuredField

/-! ## What is reported -/

/-- `QuotaUnit`. -/
inductive QuotaUnit where
  | requests
  | contentBytes
  deriving DecidableEq, Repr

/-- `QuotaUnit::as_str`. -/
def QuotaUnit.asStr : QuotaUnit → Text
  | requests => "requests".toList
  | contentBytes => "content-bytes".toList

/-- `QuotaPolicy`. -/
structure QuotaPolicy where
  name : Text
  quota : Nat
  window : Option Duration
  unit : QuotaUnit
  deriving DecidableEq, Repr

/-- `RateLimitFields`. -/
structure RateLimitFields where
  limits : List ServiceLimit
  policies : List QuotaPolicy
  deriving DecidableEq, Repr

/-! ## Rendering -/

/-- `SF_INTEGER_MAX`. -/
def sfIntegerMax : Nat :=
  999999999999999

/-- `sf_integer`. -/
def sfInteger (value : Nat) : Option Nat :=
  if value ≤ sfIntegerMax then some value else none

/-- A member of `render_limits`. -/
def renderLimit (limit : ServiceLimit) : Option Text :=
  (sfString limit.name).map fun name =>
    name ++ ";r=".toList ++ Text.decimal (min limit.remaining sfIntegerMax) ++
      match sfInteger (Duration.wholeSeconds limit.reset) with
      | some reset => ";t=".toList ++ Text.decimal reset
      | none => []

/-- `render_limits`. -/
def renderLimits (limits : List ServiceLimit) : Option HeaderValue :=
  joinNames (limits.filterMap renderLimit)

/-- The seconds `render_policies` writes for a window. -/
def windowSeconds (policy : QuotaPolicy) : Option Nat :=
  ((policy.window.map Duration.wholeSeconds).filter (0 < ·)).bind sfInteger

/-- A member of `render_policies`. -/
def renderPolicy (policy : QuotaPolicy) : Option Text :=
  (sfString policy.name).map fun name =>
    name ++ ";q=".toList ++ Text.decimal (min policy.quota sfIntegerMax) ++
      (match windowSeconds policy with
      | some window => ";w=".toList ++ Text.decimal window
      | none => []) ++
      if policy.unit ≠ .requests then
        match sfString policy.unit.asStr with
        | some unit => ";qu=".toList ++ unit
        | none => []
      else
        []

/-- `render_policies`. -/
def renderPolicies (policies : List QuotaPolicy) : Option HeaderValue :=
  joinNames (policies.filterMap renderPolicy)

/-- `RateLimitFields::encode`. -/
def RateLimitFields.encode (fields : RateLimitFields) : List (Text × HeaderValue) :=
  ((renderLimits fields.limits).map fun value => ("ratelimit".toList, value)).toList ++
    ((renderPolicies fields.policies).map fun value => ("ratelimit-policy".toList, value)).toList

/-! ## Members -/

/-- The item of a limit. -/
def limitItem (limit : ServiceLimit) : Item where
  value := .string limit.name
  parameters :=
    ("r".toList, .integer (min limit.remaining sfIntegerMax : Nat)) ::
      ((sfInteger (Duration.wholeSeconds limit.reset)).map fun reset : Nat =>
        ("t".toList, .integer reset)).toList

/-- The item of a policy. -/
def policyItem (policy : QuotaPolicy) : Item where
  value := .string policy.name
  parameters :=
    ("q".toList, .integer (min policy.quota sfIntegerMax : Nat)) ::
      ((windowSeconds policy).map fun window : Nat => ("w".toList, .integer window)).toList ++
        if policy.unit ≠ .requests then [("qu".toList, .string policy.unit.asStr)] else []

theorem le_of_sfInteger {value number : Nat} (written : sfInteger value = some number) :
    number = value ∧ number ≤ integerMax := by
  rw [sfInteger] at written
  split at written
  next bounded =>
    cases written
    exact ⟨rfl, bounded⟩
  next => cases written

theorem le_of_windowSeconds {policy : QuotaPolicy} {seconds : Nat}
    (written : windowSeconds policy = some seconds) :
    ∃ window, policy.window = some window ∧ seconds = Duration.wholeSeconds window ∧
      0 < seconds ∧ seconds ≤ integerMax := by
  obtain ⟨value, filtered, inRange⟩ := Option.bind_eq_some_iff.mp written
  obtain ⟨rfl, bounded⟩ := le_of_sfInteger inRange
  obtain ⟨mapped, positive⟩ := Option.filter_eq_some_iff.mp filtered
  obtain ⟨window, present, rounded⟩ := Option.map_eq_some_iff.mp mapped
  exact ⟨window, present, rounded.symm, by simpa using positive, bounded⟩

/-- An optional number is written where it is there. -/
theorem writeParameters_toList {key : Text} (isKey : isName opensKey isKeyCharacter key = true)
    {number : Option Nat} (bounded : ∀ value ∈ number, value ≤ integerMax) :
    writeParameters (number.map fun value : Nat => (key, BareItem.integer value)).toList =
      some (number.elim [] fun value => ';' :: key ++ '=' :: Text.decimal value) := by
  cases number with
  | none => rfl
  | some value => exact writeParameters_singleton (writeParameter_natCast isKey (bounded value rfl))

theorem renderLimit_eq (limit : ServiceLimit) : renderLimit limit = (limitItem limit).write := by
  have isRemaining : isName opensKey isKeyCharacter "r".toList = true := by decide
  have isReset : isName opensKey isKeyCharacter "t".toList = true := by decide
  have remaining := writeParameters_singleton
    (writeParameter_natCast isRemaining (min_le_right limit.remaining integerMax))
  have reset := writeParameters_toList isReset
    fun value (written : value ∈ sfInteger (Duration.wholeSeconds limit.reset)) =>
      (le_of_sfInteger written).2
  rw [renderLimit, sfString_eq, Item.write_eq (writeParameters_append remaining reset)]
  refine Option.map_congr fun name _ => ?_
  rw [List.append_assoc, List.append_assoc]
  cases sfInteger (Duration.wholeSeconds limit.reset) <;> rfl

example : renderLimit ⟨"by \"key\"".toList, 10, 5, 1500000000⟩ =
    some "\"by \\\"key\\\"\";r=5;t=2".toList := by
  decide

theorem writeParameters_unit (unit : QuotaUnit) :
    writeParameters (if unit ≠ .requests then [("qu".toList, .string unit.asStr)] else []) =
      some (if unit ≠ .requests then
          match sfString unit.asStr with
          | some unit => ";qu=".toList ++ unit
          | none => []
        else
          []) := by
  cases unit <;> decide

theorem renderPolicy_eq (policy : QuotaPolicy) : renderPolicy policy = (policyItem policy).write := by
  have isQuota : isName opensKey isKeyCharacter "q".toList = true := by decide
  have isWindow : isName opensKey isKeyCharacter "w".toList = true := by decide
  have quota := writeParameters_singleton
    (writeParameter_natCast isQuota (min_le_right policy.quota integerMax))
  have window := writeParameters_toList isWindow fun value (written : value ∈ windowSeconds policy) => by
    obtain ⟨_, _, _, _, bounded⟩ := le_of_windowSeconds written
    exact bounded
  have unit := writeParameters_unit policy.unit
  rw [renderPolicy, sfString_eq policy.name,
    Item.write_eq (writeParameters_append (writeParameters_append quota window) unit)]
  refine Option.map_congr fun name _ => ?_
  simp only [List.append_assoc]
  cases windowSeconds policy <;> rfl

/-! ## The fields -/

/-- A field that lists, in order, what the entries with writable names report;
there is no field where no entry has one. -/
structure Carries {α : Type} (field : Option HeaderValue) (entries : List α) (name : α → Text)
    (Reports : α → Item → Prop) : Prop where
  absent : field = none ↔ ∀ entry ∈ entries, ¬ isWritable (name entry)
  reads : ∀ value ∈ field, ∃ text items, value.toStr = some text ∧ readList text = some items ∧
    List.Forall₂ Reports (entries.filter fun entry => isWritable (name entry)) items

/-- An item that has a name, some of the parameters of a list, each at most
once, and no integer out of range. -/
structure WellFormed (name : Text) (keys : List Text) (item : Item) : Prop where
  value : item.value = .string name
  keys : (item.parameters.map Prod.fst).Sublist keys
  bounded : ∀ parameter ∈ item.parameters, ∀ number, parameter.2 = .integer number →
    -999999999999999 ≤ number ∧ number ≤ 999999999999999

/-- What a member of `RateLimit` says of a limit. -/
structure ReportsLimit (limit : ServiceLimit) (item : Item) : Prop where
  wellFormed : WellFormed limit.name ["r".toList, "t".toList] item
  remaining : ∃ count : Nat, item.parameters.lookup "r".toList = some (.integer count) ∧
    count ≤ limit.remaining
  reset : ∀ value ∈ item.parameters.lookup "t".toList, ∃ seconds : Nat,
    value = .integer seconds ∧ limit.reset ≤ seconds * 1000000000

/-- What a member of `RateLimit-Policy` says of a policy. -/
structure ReportsPolicy (policy : QuotaPolicy) (item : Item) : Prop where
  wellFormed : WellFormed policy.name ["q".toList, "w".toList, "qu".toList] item
  quota : ∃ count : Nat, item.parameters.lookup "q".toList = some (.integer count) ∧
    count ≤ policy.quota
  window : ∀ value ∈ item.parameters.lookup "w".toList, ∃ (seconds : Nat) (window : Duration),
    value = .integer seconds ∧ policy.window = some window ∧ 0 < seconds ∧
      window ≤ seconds * 1000000000
  unit : item.parameters.lookup "qu".toList =
    if policy.unit = .requests then none else some (.string policy.unit.asStr)

/-- Seconds that are in range are not held at the bound. -/
theorem le_wholeSeconds {duration : Nat} (inRange : Duration.wholeSeconds duration ≤ integerMax) :
    duration ≤ Duration.wholeSeconds duration * 1000000000 := by
  rw [Duration.wholeSeconds_eq, u64Max, integerMax] at *
  omega

/-- A number that is there is the one parameter of its key. -/
theorem lookup_toList (key : Text) (number : Option Nat) :
    (number.map fun value : Nat => (key, BareItem.integer value)).toList.lookup key =
      number.map fun value : Nat => .integer value := by
  cases number <;> simp

theorem sublist_toList (key : Text) (number : Option Nat) :
    ((number.map fun value : Nat => (key, BareItem.integer value)).toList.map Prod.fst).Sublist
      [key] := by
  cases number <;> simp

theorem natCast_inRange {count : Nat} (bounded : count ≤ integerMax) :
    -999999999999999 ≤ (count : Int) ∧ (count : Int) ≤ 999999999999999 := by
  rw [integerMax] at bounded
  omega

theorem inRange_toList {key : Text} {number : Option Nat}
    (bounded : ∀ value ∈ number, value ≤ integerMax) :
    ∀ parameter ∈ (number.map fun value : Nat => (key, BareItem.integer value)).toList,
      ∀ integer, parameter.2 = .integer integer →
        -999999999999999 ≤ integer ∧ integer ≤ 999999999999999 := by
  cases number with
  | none => nofun
  | some value =>
      intro parameter member integer same
      cases List.mem_singleton.mp member
      cases same
      exact natCast_inRange (bounded value rfl)

theorem reportsLimit (limit : ServiceLimit) : ReportsLimit limit (limitItem limit) := by
  have remaining : min limit.remaining sfIntegerMax ≤ integerMax := min_le_right _ _
  refine ⟨⟨rfl, (sublist_toList _ _).cons_cons _, ?_⟩, ⟨_, rfl, min_le_left _ _⟩, ?_⟩
  · intro parameter member integer same
    rcases List.mem_cons.mp member with rfl | inReset
    · cases same
      exact natCast_inRange remaining
    · exact inRange_toList (fun _ written => (le_of_sfInteger written).2) parameter inReset integer same
  · intro value found
    have isReset : (limitItem limit).parameters.lookup "t".toList =
        (sfInteger (Duration.wholeSeconds limit.reset)).map fun seconds : Nat => .integer seconds :=
      lookup_toList _ _
    rw [isReset] at found
    obtain ⟨seconds, written, rfl⟩ := Option.map_eq_some_iff.mp found
    obtain ⟨rfl, bounded⟩ := le_of_sfInteger written
    exact ⟨_, rfl, le_wholeSeconds bounded⟩

theorem lookup_window (policy : QuotaPolicy) : (policyItem policy).parameters.lookup "w".toList =
    (windowSeconds policy).map fun seconds : Nat => .integer seconds := by
  rw [policyItem]
  cases windowSeconds policy <;> cases policy.unit <;> rfl

theorem lookup_unit (policy : QuotaPolicy) : (policyItem policy).parameters.lookup "qu".toList =
    if policy.unit = .requests then none else some (.string policy.unit.asStr) := by
  rw [policyItem]
  cases windowSeconds policy <;> cases policy.unit <;> rfl

theorem reportsPolicy (policy : QuotaPolicy) : ReportsPolicy policy (policyItem policy) := by
  have quota : min policy.quota sfIntegerMax ≤ integerMax := min_le_right _ _
  refine ⟨⟨rfl, ?_, ?_⟩, ⟨_, rfl, min_le_left _ _⟩, ?_, lookup_unit policy⟩
  · have unit : ((if policy.unit ≠ .requests then [("qu".toList, .string policy.unit.asStr)]
        else [] : List (Text × BareItem)).map Prod.fst).Sublist ["qu".toList] := by
      split <;> simp
    have keys := ((sublist_toList "w".toList (windowSeconds policy)).cons_cons "q".toList).append unit
    rw [policyItem, List.map_append]
    exact keys
  · intro parameter member integer same
    rcases List.mem_append.mp member with inNumbers | inUnit
    · rcases List.mem_cons.mp inNumbers with rfl | inWindow
      · cases same
        exact natCast_inRange quota
      · refine inRange_toList (fun _ written => ?_) parameter inWindow integer same
        obtain ⟨_, _, _, _, bounded⟩ := le_of_windowSeconds written
        exact bounded
    · split at inUnit
      · cases List.mem_singleton.mp inUnit
        cases same
      · cases inUnit
  · intro value found
    rw [lookup_window] at found
    obtain ⟨seconds, written, rfl⟩ := Option.map_eq_some_iff.mp found
    obtain ⟨window, present, rfl, positive, bounded⟩ := le_of_windowSeconds written
    exact ⟨_, window, rfl, present, positive, le_wholeSeconds bounded⟩

/-! ## What is written -/

/-- A field of the entries that can be written. -/
theorem carries {α : Type} {entries : List α} {name : α → Text} {render : α → Option Text}
    {item : α → Item} {Reports : α → Item → Prop} (renders : ∀ entry, render entry = (item entry).write)
    (writes : ∀ entry, (render entry).isSome = isWritable (name entry))
    (distinct : ∀ entry, ((item entry).parameters.map Prod.fst).Nodup)
    (reports : ∀ entry, Reports entry (item entry)) :
    Carries (joinNames (entries.filterMap render)) entries name Reports := by
  have written : List.Forall₂ (fun item text => item.write = some text)
      ((entries.filter fun entry => isWritable (name entry)).map item)
      (entries.filterMap render) := by
    induction entries with
    | nil => exact .nil
    | cons entry entries ih =>
        rw [List.filter_cons, ← writes entry]
        rcases rendered : render entry with _ | text
        · rw [List.filterMap_cons_none rendered]
          exact ih
        · rw [List.filterMap_cons_some rendered]
          exact .cons ((renders entry).symm.trans rendered) ih
  obtain ⟨absent, reads⟩ := joinNames_write written
  refine ⟨absent.trans ?_, fun value sent => ?_⟩
  · rw [List.map_eq_nil_iff, List.filter_eq_nil_iff]
  · obtain ⟨text, isText, read⟩ := reads value sent
    refine ⟨text, _, isText, read, ?_⟩
    rw [List.map_map, List.forall₂_map_right_iff]
    refine List.forall₂_same.mpr fun entry _ => ?_
    rw [Function.comp_apply, Item.merged_eq (distinct entry)]
    exact reports entry

/-- Both fields are Lists of the entries whose names can be written, in order,
and promise no more than the entries. -/
theorem RateLimitFields.encode_carries (fields : RateLimitFields) :
    Carries (fields.encode.lookup "ratelimit".toList) fields.limits ServiceLimit.name ReportsLimit ∧
      Carries (fields.encode.lookup "ratelimit-policy".toList) fields.policies QuotaPolicy.name
        ReportsPolicy ∧
      (fields.encode.map Prod.fst).Sublist ["ratelimit".toList, "ratelimit-policy".toList] := by
  have limits : Carries (renderLimits fields.limits) fields.limits ServiceLimit.name ReportsLimit :=
    carries renderLimit_eq (fun limit => by rw [renderLimit, Option.isSome_map, isSome_sfString])
      (fun limit => (reportsLimit limit).wellFormed.keys.nodup (by decide)) reportsLimit
  have policies :
      Carries (renderPolicies fields.policies) fields.policies QuotaPolicy.name ReportsPolicy :=
    carries renderPolicy_eq (fun policy => by rw [renderPolicy, Option.isSome_map, isSome_sfString])
      (fun policy => (reportsPolicy policy).wellFormed.keys.nodup (by decide)) reportsPolicy
  have limitsField : fields.encode.lookup "ratelimit".toList = renderLimits fields.limits := by
    rw [RateLimitFields.encode]
    cases renderLimits fields.limits <;> cases renderPolicies fields.policies <;> rfl
  have policiesField :
      fields.encode.lookup "ratelimit-policy".toList = renderPolicies fields.policies := by
    rw [RateLimitFields.encode]
    cases renderLimits fields.limits <;> cases renderPolicies fields.policies <;> rfl
  refine ⟨limitsField ▸ limits, policiesField ▸ policies, ?_⟩
  rw [RateLimitFields.encode]
  cases renderLimits fields.limits <;> cases renderPolicies fields.policies <;> simp

end Kynos.RateLimit

import Kynos.Http.Quality
import Mathlib.Order.Lattice

/-!
# Reading `Accept-Encoding`

What RFC 9110 section 12.5.3 says of content codings: the weight a field gives
one, the wildcard that speaks for those it does not name, and the coding that is
preferred of those on offer. Which entry of a field speaks for a coding, and what
it has to say of the one that is preferred and of those that are passed over.
-/

namespace Kynos.Http.Coding

open Kynos.Word

/-- The deprecated spellings a recipient must treat as a token. -/
def aliases (token : Text) : List Text :=
  if token = "gzip".toList then ["x-gzip".toList] else []

/-- Whether a name names a coding, in any case, or as one of its aliases. -/
def names (name token : Text) : Bool :=
  Text.eqIgnoreAsciiCase name token ||
    (aliases token).any fun spelling => Text.eqIgnoreAsciiCase spelling name

/-- The weight an entry states: a qvalue, or something else, which each caller
reads by its own rule. -/
inductive Weight where
  | qvalue (thousandths : Nat)
  | malformed
  deriving DecidableEq, Repr

/-- What a parameter of the form `q=` or `Q=` holds. -/
def stated (parameter : Text) : Option Text :=
  match Text.trim parameter with
  | 'q' :: '=' :: weight => some weight
  | 'Q' :: '=' :: weight => some weight
  | _ => none

/-- The weight of an entry's parameters: the first one stated. -/
def entryWeight (parameters : List Text) : Weight :=
  match parameters.findSome? stated with
  | none => .qvalue 1000
  | some weight => (Quality.parse (Text.trim weight)).elim .malformed .qvalue

/-- The weight of the entry that speaks for a token: its own, else the last
wildcard's. -/
def weightFrom (token : Text) (wildcard : Option Weight) : List Text → Option Weight
  | [] => wildcard
  | entry :: rest =>
      let parts := entry.splitOn ';'
      let name := Text.trim (parts.headD [])
      let weight := entryWeight parts.tail
      if names name token then
        some weight
      else
        weightFrom token (if name = ['*'] then some weight else wildcard) rest

/-- The weight of the entry that speaks for a token, if one does. -/
def weight (accept token : Text) : Option Weight :=
  weightFrom token none (accept.splitOn ',')

/-- The quality a field assigns a token, in thousandths; a malformed weight
refuses it. -/
def quality (accept token : Text) : Option Nat :=
  (weight accept token).map fun
    | .qvalue thousandths => thousandths
    | .malformed => 0

/-- What the client thinks of the unencoded representation. -/
def identityQuality (accept : Text) : Nat :=
  match weight accept "identity".toList with
  | some (.qvalue thousandths) => thousandths
  | _ => 1000

/-- The best coding so far, and the next one on offer. -/
def better (accept : Text) (best : Option (Text × Nat)) (token : Text) : Option (Text × Nat) :=
  match quality accept token with
  | none => best
  | some weight =>
      if weight = 0 then
        best
      else
        match best with
        | none => some (token, weight)
        | some (_, greatest) => if weight > greatest then some (token, weight) else best

/-- The acceptable coding on offer that the client prefers most; `none` means
identity. -/
def preferred (accept : Text) (available : List Text) : Option Text :=
  match available.foldl (better accept) none with
  | none => none
  | some (token, weight) => if identityQuality accept ≤ weight then some token else none

end Kynos.Http.Coding

namespace Kynos.Http.Coding

open Kynos.Word

/-! ## Entries -/

/-- The name of an entry. -/
def entryName (entry : Text) : Text :=
  Text.trim ((entry.splitOn ';').headD [])

/-- The weight an entry states. -/
def statedWeight (entry : Text) : Weight :=
  entryWeight (entry.splitOn ';').tail

/-- The entry that speaks for a token: the first that names it, or the last
wildcard where none does. -/
inductive SpeaksIn (token : Text) : List Text → Text → Prop where
  | own {before after : List Text} {entry : Text}
      (unnamed : ∀ other ∈ before, names (entryName other) token = false)
      (named : names (entryName entry) token = true) :
      SpeaksIn token (before ++ entry :: after) entry
  | wildcard {before after : List Text} {entry : Text}
      (unnamed : ∀ other ∈ before ++ entry :: after, names (entryName other) token = false)
      (wild : entryName entry = ['*']) (last : ∀ other ∈ after, entryName other ≠ ['*']) :
      SpeaksIn token (before ++ entry :: after) entry

/-- The entry of a field that speaks for a token. -/
def Speaks (accept token entry : Text) : Prop :=
  SpeaksIn token (accept.splitOn ',') entry

theorem weightFrom_cons (token : Text) (wildcard : Option Weight) (entry : Text)
    (rest : List Text) :
    weightFrom token wildcard (entry :: rest) =
      if names (entryName entry) token then
        some (statedWeight entry)
      else
        weightFrom token (if entryName entry = ['*'] then some (statedWeight entry) else wildcard)
          rest :=
  rfl

/-- Entries that neither name a token nor are wildcards say nothing of it. -/
theorem weightFrom_of_absent {token : Text} (wildcard : Option Weight) {entries : List Text}
    (absent : ∀ entry ∈ entries,
      names (entryName entry) token = false ∧ entryName entry ≠ ['*']) :
    weightFrom token wildcard entries = wildcard := by
  induction entries with
  | nil => rfl
  | cons entry rest ih =>
      obtain ⟨head, tail⟩ := List.forall_mem_cons.mp absent
      rw [weightFrom_cons, head.1, if_neg Bool.false_ne_true, if_neg head.2]
      exact ih tail

/-- The weight of a token is the one stated by the entry that speaks for it. -/
theorem weightFrom_of_speaksIn {token entry : Text} {entries : List Text}
    (speaks : SpeaksIn token entries entry) (wildcard : Option Weight) :
    weightFrom token wildcard entries = some (statedWeight entry) := by
  cases speaks with
  | @own before after _ unnamed named =>
      induction before generalizing wildcard with
      | nil => rw [List.nil_append, weightFrom_cons, if_pos named]
      | cons other before ih =>
          obtain ⟨head, tail⟩ := List.forall_mem_cons.mp unnamed
          rw [List.cons_append, weightFrom_cons, head, if_neg Bool.false_ne_true]
          exact ih _ tail
  | @wildcard before after _ unnamed wild last =>
      induction before generalizing wildcard with
      | nil =>
          obtain ⟨head, tail⟩ := List.forall_mem_cons.mp unnamed
          rw [List.nil_append, weightFrom_cons, head, if_neg Bool.false_ne_true, if_pos wild]
          exact weightFrom_of_absent _ fun other member => ⟨tail other member, last other member⟩
      | cons other before ih =>
          obtain ⟨head, tail⟩ := List.forall_mem_cons.mp unnamed
          rw [List.cons_append, weightFrom_cons, head, if_neg Bool.false_ne_true]
          exact ih _ tail

/-- An entry that does not name a token takes nothing from a later one. -/
theorem SpeaksIn.cons {token head entry : Text} {rest : List Text}
    (speaks : SpeaksIn token rest entry) (unnamed : names (entryName head) token = false) :
    SpeaksIn token (head :: rest) entry := by
  cases speaks with
  | @own before after _ others named =>
      exact @SpeaksIn.own token (head :: before) after entry
        (List.forall_mem_cons.mpr ⟨unnamed, others⟩) named
  | @wildcard before after _ others wild last =>
      exact @SpeaksIn.wildcard token (head :: before) after entry
        (List.forall_mem_cons.mpr ⟨unnamed, others⟩) wild last

/-- Some entry speaks for a token, or none names it and none is a wildcard. -/
theorem exists_speaksIn_or_absent (token : Text) (entries : List Text) :
    (∃ entry, SpeaksIn token entries entry) ∨
      ∀ entry ∈ entries, names (entryName entry) token = false ∧ entryName entry ≠ ['*'] := by
  induction entries with
  | nil => exact .inr (by simp)
  | cons head rest ih =>
      cases named : names (entryName head) token with
      | true => exact .inl ⟨head, @SpeaksIn.own token [] rest head (by simp) named⟩
      | false =>
          rcases ih with ⟨entry, speaks⟩ | absent
          · exact .inl ⟨entry, speaks.cons named⟩
          · by_cases wild : entryName head = ['*']
            · have unnamed : ∀ other ∈ head :: rest, names (entryName other) token = false :=
                List.forall_mem_cons.mpr ⟨named, fun other member => (absent other member).1⟩
              exact .inl ⟨head, @SpeaksIn.wildcard token [] rest head unnamed wild
                fun other member => (absent other member).2⟩
            · exact .inr (List.forall_mem_cons.mpr ⟨⟨named, wild⟩, absent⟩)

/-- The weight of a token is the one stated by the entry that speaks for it. -/
theorem weight_eq_some_iff {accept token : Text} {stated : Weight} :
    weight accept token = some stated ↔ ∃ entry, Speaks accept token entry ∧ statedWeight entry = stated := by
  constructor
  · intro weighed
    rcases exists_speaksIn_or_absent token (accept.splitOn ',') with ⟨entry, speaks⟩ | absent
    · have same := weightFrom_of_speaksIn speaks none
      exact ⟨entry, speaks, Option.some.inj (same.symm.trans weighed)⟩
    · rw [weight, weightFrom_of_absent none absent] at weighed
      cases weighed
  · rintro ⟨entry, speaks, rfl⟩
    exact weightFrom_of_speaksIn speaks none

/-- A token has no weight exactly where no entry speaks for it. -/
theorem weight_eq_none_iff {accept token : Text} :
    weight accept token = none ↔ ∀ entry, ¬Speaks accept token entry := by
  constructor
  · intro unweighed entry speaks
    have weighed := weight_eq_some_iff.mpr ⟨entry, speaks, rfl⟩
    rw [unweighed] at weighed
    cases weighed
  · intro unspoken
    by_contra weighed
    obtain ⟨stated, found⟩ := Option.ne_none_iff_exists'.mp weighed
    obtain ⟨entry, speaks, -⟩ := weight_eq_some_iff.mp found
    exact unspoken entry speaks

/-! ## Qualities -/

/-- The weight of identity: the one stated by the entry that speaks for it, the
greatest where that is no qvalue or no entry does. -/
def IdentityWeighs (accept : Text) (thousandths : Nat) : Prop :=
  (∃ entry, Speaks accept "identity".toList entry ∧ statedWeight entry = .qvalue thousandths) ∨
    (∀ entry, Speaks accept "identity".toList entry → statedWeight entry = .malformed) ∧
      thousandths = 1000

/-- Identity is excluded by the entry that speaks for it. -/
def IdentityExcluded (accept : Text) : Prop :=
  ∃ entry, Speaks accept "identity".toList entry ∧ statedWeight entry = .qvalue 0

theorem identityWeighs_identityQuality (accept : Text) :
    IdentityWeighs accept (identityQuality accept) := by
  rw [identityQuality]
  cases weighed : weight accept "identity".toList with
  | none =>
      refine .inr ⟨fun entry speaks => ?_, rfl⟩
      exact absurd speaks (weight_eq_none_iff.mp weighed entry)
  | some stated =>
      obtain ⟨entry, speaks, same⟩ := weight_eq_some_iff.mp weighed
      cases stated with
      | qvalue thousandths => exact .inl ⟨entry, speaks, same⟩
      | malformed =>
          refine .inr ⟨fun other otherSpeaks => ?_, rfl⟩
          have other := weight_eq_some_iff.mpr ⟨other, otherSpeaks, rfl⟩
          exact Option.some.inj (other.symm.trans weighed)

theorem identityWeighs_iff {accept : Text} {thousandths : Nat} :
    IdentityWeighs accept thousandths ↔ identityQuality accept = thousandths := by
  constructor
  · rintro (⟨entry, speaks, stated⟩ | ⟨malformed, rfl⟩)
    · rw [identityQuality, weight_eq_some_iff.mpr ⟨entry, speaks, stated⟩]
    · rw [identityQuality]
      cases weighed : weight accept "identity".toList with
      | none => rfl
      | some stated =>
          obtain ⟨entry, speaks, same⟩ := weight_eq_some_iff.mp weighed
          rw [← same, malformed entry speaks]
  · rintro rfl
    exact identityWeighs_identityQuality accept

/-- Identity has no weight exactly where it is excluded. -/
theorem identityQuality_eq_zero_iff {accept : Text} :
    identityQuality accept = 0 ↔ IdentityExcluded accept := by
  constructor
  · intro excluded
    rcases identityWeighs_identityQuality accept with stated | ⟨-, default⟩
    · rw [excluded] at stated
      exact stated
    · omega
  · intro excluded
    rw [identityQuality, weight_eq_some_iff.mpr excluded]

/-- A coding has a positive quality exactly where the entry that speaks for it
states that qvalue. -/
theorem quality_eq_some_iff {accept token : Text} {thousandths : Nat} (positive : 0 < thousandths) :
    quality accept token = some thousandths ↔
      ∃ entry, Speaks accept token entry ∧ statedWeight entry = .qvalue thousandths := by
  rw [← weight_eq_some_iff, quality, Option.map_eq_some_iff]
  constructor
  · rintro ⟨stated, weighed, read⟩
    cases stated with
    | qvalue => exact read ▸ weighed
    | malformed => exact absurd read positive.ne
  · intro weighed
    exact ⟨_, weighed, rfl⟩

/-! ## The best of several -/

/-- A coding of those read has a positive quality that no earlier one reaches
and no later one exceeds. -/
structure Leads (accept : Text) (read : List Text) (token : Text) (quality : Nat) : Prop where
  positive : 0 < quality
  weighed : Coding.quality accept token = some quality
  earliest : ∃ before after, read = before ++ token :: after ∧
    (∀ other ∈ before, ∀ thousandths, Coding.quality accept other = some thousandths →
      thousandths < quality) ∧
    ∀ other ∈ after, ∀ thousandths, Coding.quality accept other = some thousandths →
      thousandths ≤ quality

/-- What is known of the codings read so far: one leads, or none has a positive
quality. -/
def Led (accept : Text) (read : List Text) : Option (Text × Nat) → Prop
  | some (token, quality) => Leads accept read token quality
  | none => ∀ token ∈ read, ∀ quality, Coding.quality accept token = some quality → quality = 0

/-- A coding with a positive quality leads where no earlier one has it. -/
theorem Leads.concat {accept token : Text} {read : List Text} {weight : Nat}
    (positive : 0 < weight) (weighed : quality accept token = some weight)
    (below : ∀ other ∈ read, ∀ thousandths, quality accept other = some thousandths →
      thousandths < weight) : Leads accept (read ++ [token]) token weight :=
  ⟨positive, weighed, read, [], rfl, below, by simp⟩

/-- The leading coding goes on to lead where the next one does not exceed it. -/
theorem Leads.keep {accept token next : Text} {read : List Text} {weight : Nat}
    (leads : Leads accept read token weight)
    (below : ∀ thousandths, quality accept next = some thousandths → thousandths ≤ weight) :
    Leads accept (read ++ [next]) token weight := by
  obtain ⟨before, after, rfl, earlier, later⟩ := leads.earliest
  refine ⟨leads.positive, leads.weighed, before, after ++ [next], by simp, earlier, ?_⟩
  intro other member
  rcases List.mem_append.mp member with kept | added
  · exact later other kept
  · rw [List.mem_singleton] at added
    exact added ▸ below

/-- No coding that was read exceeds the leading one. -/
theorem Leads.le {accept token other : Text} {read : List Text} {weight thousandths : Nat}
    (leads : Leads accept read token weight) (member : other ∈ read)
    (weighed : quality accept other = some thousandths) : thousandths ≤ weight := by
  obtain ⟨before, after, rfl, earlier, later⟩ := leads.earliest
  rcases List.mem_append.mp member with first | rest
  · exact (earlier other first thousandths weighed).le
  · rcases List.mem_cons.mp rest with rfl | last
    · exact (Option.some.inj (weighed.symm.trans leads.weighed)).le
    · exact later other last thousandths weighed

/-- Reading one more coding keeps what is known. -/
theorem led_better {accept : Text} {read : List Text} {best : Option (Text × Nat)}
    (led : Led accept read best) (next : Text) :
    Led accept (read ++ [next]) (better accept best next) := by
  cases weighed : quality accept next with
  | none =>
      rw [better, weighed]
      cases best with
      | none =>
          refine List.forall_mem_append.mpr ⟨led, ?_⟩
          simp [weighed]
      | some leader => exact Leads.keep led (by simp [weighed])
  | some weight =>
      rw [better, weighed]
      dsimp only
      by_cases zero : weight = 0
      · rw [if_pos zero]
        cases best with
        | none =>
            refine List.forall_mem_append.mpr ⟨led, ?_⟩
            simp [weighed, zero]
        | some leader => exact Leads.keep led (by simp [weighed, zero])
      · have positive := Nat.pos_of_ne_zero zero
        rw [if_neg zero]
        cases best with
        | none =>
            refine Leads.concat positive weighed fun other member thousandths stated => ?_
            exact (led other member thousandths stated).symm ▸ positive
        | some leader =>
            obtain ⟨token, greatest⟩ := leader
            dsimp only
            by_cases exceeds : weight > greatest
            · rw [if_pos exceeds]
              refine Leads.concat positive weighed fun other member thousandths stated => ?_
              exact (Leads.le led member stated).trans_lt exceeds
            · rw [if_neg exceeds]
              refine Leads.keep led fun thousandths stated => ?_
              rw [weighed, Option.some.injEq] at stated
              exact stated ▸ Nat.not_lt.mp exceeds

/-- What is known once every coding on offer is read. -/
theorem led_foldl {accept : Text} (available read : List Text) {best : Option (Text × Nat)}
    (led : Led accept read best) :
    Led accept (read ++ available) (available.foldl (better accept) best) := by
  induction available generalizing read best with
  | nil => simpa using led
  | cons next rest ih =>
      rw [List.append_cons]
      exact ih (read ++ [next]) (led_better led next)

theorem led_available (accept : Text) (available : List Text) :
    Led accept available (available.foldl (better accept) none) := by
  simpa using led_foldl available [] (by simp [Led] : Led accept [] none)

/-! ## The coding that is preferred -/

/-- The entry that speaks for a coding states a positive weight, no lower than
that of identity, that no coding on offer exceeds and no earlier one reaches. -/
structure Prefers (accept : Text) (available : List Text) (token entry : Text)
    (thousandths : Nat) : Prop where
  speaks : Speaks accept token entry
  states : statedWeight entry = .qvalue thousandths
  positive : 0 < thousandths
  identity : ∃ identity, IdentityWeighs accept identity ∧ identity ≤ thousandths
  unexceeded : ∀ other ∈ available, ∀ otherEntry otherThousandths,
    Speaks accept other otherEntry → statedWeight otherEntry = .qvalue otherThousandths →
      otherThousandths ≤ thousandths
  earliest : ∃ before after, available = before ++ token :: after ∧
    ∀ other ∈ before, ∀ otherEntry otherThousandths,
      Speaks accept other otherEntry → statedWeight otherEntry = .qvalue otherThousandths →
        otherThousandths < thousandths

/-- Why a coding on offer is not preferred: no entry speaks for it, or the one
that does refuses it or weighs it below identity. -/
inductive PassedOver (accept token : Text) : Prop where
  | unnamed (unspoken : ∀ entry, ¬Speaks accept token entry)
  | refused {entry : Text} (speaks : Speaks accept token entry)
      (refuses : statedWeight entry = .malformed ∨ statedWeight entry = .qvalue 0)
  | below {entry : Text} {thousandths identity : Nat} (speaks : Speaks accept token entry)
      (states : statedWeight entry = .qvalue thousandths)
      (weighs : IdentityWeighs accept identity) (lower : thousandths < identity)

/-- A coding with no positive quality is passed over. -/
theorem passedOver_of_quality {accept token : Text}
    (weightless : ∀ thousandths, quality accept token = some thousandths →
      thousandths < max 1 (identityQuality accept)) : PassedOver accept token := by
  cases weighed : weight accept token with
  | none => exact .unnamed (weight_eq_none_iff.mp weighed)
  | some stated =>
      obtain ⟨entry, speaks, same⟩ := weight_eq_some_iff.mp weighed
      cases stated with
      | malformed => exact .refused speaks (.inl same)
      | qvalue thousandths =>
          have bound := weightless thousandths (by simp [quality, weighed])
          rcases Nat.eq_zero_or_pos thousandths with rfl | positive
          · exact .refused speaks (.inr same)
          · exact .below speaks same (identityWeighs_identityQuality accept) (by omega)

/-- A coding that is passed over has no quality that would be sent. -/
theorem PassedOver.quality_lt {accept token : Text} (passed : PassedOver accept token)
    {thousandths : Nat} (weighed : quality accept token = some thousandths) :
    thousandths < max 1 (identityQuality accept) := by
  rcases Nat.eq_zero_or_pos thousandths with rfl | positive
  · omega
  · obtain ⟨entry, speaks, states⟩ := (quality_eq_some_iff positive).mp weighed
    have stated := weight_eq_some_iff.mpr ⟨entry, speaks, states⟩
    cases passed with
    | unnamed unspoken => exact absurd speaks (unspoken entry)
    | @refused other otherSpeaks refuses =>
        have same := stated.symm.trans (weight_eq_some_iff.mpr ⟨other, otherSpeaks, rfl⟩)
        rcases refuses with malformed | zero
        · rw [malformed] at same
          cases same
        · rw [zero] at same
          cases same
          omega
    | @below other thousandths' identity otherSpeaks otherStates weighs lower =>
        have same := stated.symm.trans (weight_eq_some_iff.mpr ⟨other, otherSpeaks, otherStates⟩)
        cases same
        have identity := identityWeighs_iff.mp weighs
        omega

/-- What is preferred leads the codings on offer and is weighed no lower than
identity. -/
theorem preferred_eq_some {accept token : Text} {available : List Text}
    (preferred : preferred accept available = some token) :
    ∃ entry thousandths, Prefers accept available token entry thousandths := by
  rw [Coding.preferred] at preferred
  have led := led_available accept available
  cases best : available.foldl (better accept) none with
  | none =>
      rw [best] at preferred
      cases preferred
  | some leader =>
      obtain ⟨leading, weight⟩ := leader
      rw [best] at preferred led
      dsimp only at preferred
      split at preferred
      next above =>
        cases preferred
        have leads : Leads accept available _ weight := led
        obtain ⟨entry, speaks, states⟩ := (quality_eq_some_iff leads.positive).mp leads.weighed
        refine ⟨entry, weight, speaks, states, leads.positive,
          ⟨_, identityWeighs_identityQuality accept, above⟩, ?_, ?_⟩
        · intro other member otherEntry otherThousandths otherSpeaks otherStates
          refine leads.le member ?_
          rw [quality, weight_eq_some_iff.mpr ⟨otherEntry, otherSpeaks, otherStates⟩]
          rfl
        · obtain ⟨before, after, split, earlier, -⟩ := leads.earliest
          refine ⟨before, after, split, ?_⟩
          intro other member otherEntry otherThousandths otherSpeaks otherStates
          refine earlier other member _ ?_
          rw [quality, weight_eq_some_iff.mpr ⟨otherEntry, otherSpeaks, otherStates⟩]
          rfl
      next => cases preferred

/-- No coding is preferred exactly where every one on offer is passed over. -/
theorem preferred_eq_none_iff {accept : Text} {available : List Text} :
    preferred accept available = none ↔ ∀ token ∈ available, PassedOver accept token := by
  rw [preferred]
  have led := led_available accept available
  cases best : available.foldl (better accept) none with
  | none =>
      rw [best] at led
      refine iff_of_true rfl fun token member => passedOver_of_quality fun thousandths weighed => ?_
      have zero := led token member thousandths weighed
      omega
  | some leader =>
      obtain ⟨leading, weight⟩ := leader
      rw [best] at led
      have leads : Leads accept available leading weight := led
      dsimp only
      constructor
      · intro unsent token member
        have above : ¬identityQuality accept ≤ weight := fun above => by simp [above] at unsent
        refine passedOver_of_quality fun thousandths weighed => ?_
        have bound := leads.le member weighed
        omega
      · intro passed
        obtain ⟨before, after, split, -⟩ := leads.earliest
        have member : leading ∈ available := split ▸ List.mem_append_right _ List.mem_cons_self
        have lower := (passed leading member).quality_lt leads.weighed
        have positive := leads.positive
        rw [if_neg (by omega)]

end Kynos.Http.Coding

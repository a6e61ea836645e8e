import Kynos.Body.Adapters
import Kynos.Numeral.Unsigned

/-!
# A body collected under a limit

The frames of a body are read while their octets stay within a limit. A body that
comes as one frame of data is kept as it is; a second one starts a buffer. What is
collected depends on the octets and on how the body ends, and a body that holds
them ends the same way.
-/

namespace Kynos.Body

open Kynos.Http Kynos.Numeral

variable {Error : Type}

/-! ## The source -/

/-- What is read of a body: its frames up to its end, or up to its failure. -/
structure Arriving (Error : Type) where
  frames : List Frame
  failure : Option (BoxError Error)

/-- `Capped`. -/
inductive Capped (Error : Type) where
  | whole (octets : Octets)
  | failedPartWay (arrived : Octets) (error : BoxError Error)
  | exceeded (limit : Nat)
  deriving DecidableEq

namespace Capped

/-- What has arrived: the buffer where there is one. -/
def arrived (first : Octets) (joined : Option Octets) : Octets :=
  joined.getD first

/-- The rest of a collection: the first frame of data, the buffer, and the octets
counted so far. -/
def collectFrom (limit : Nat) (failure : Option (BoxError Error)) (first : Octets)
    (joined : Option Octets) (soFar : Nat) : List Frame → Capped Error
  | [] =>
      match failure with
      | some error => .failedPartWay (arrived first joined) error
      | none => .whole (arrived first joined)
  | .trailers _ :: rest => collectFrom limit failure first joined soFar rest
  | .data octets :: rest =>
      if octets = [] then
        collectFrom limit failure first joined soFar rest
      else
        let soFar := saturatingAdd u64Max soFar (min octets.length u64Max)
        if limit < soFar then
          .exceeded limit
        else
          match joined with
          | some buffer => collectFrom limit failure first (some (buffer ++ octets)) soFar rest
          | none =>
              if first = [] then
                collectFrom limit failure octets none soFar rest
              else
                collectFrom limit failure [] (some (first ++ octets)) soFar rest

/-- `collect_capped`. -/
def collectCapped (body : Arriving Error) (limit : Nat) : Capped Error :=
  collectFrom limit body.failure [] none 0 body.frames

end Capped

/-- What reading a body to its end may find. -/
inductive Reads : Assembled Error → Arriving Error → Prop where
  | ended {body next : Assembled Error} (polled : body.Polls (.ready none) next) :
      Reads body ⟨[], none⟩
  | failed {body next : Assembled Error} {error : BoxError Error}
      (polled : body.Polls (.ready (some (.error error))) next) : Reads body ⟨[], some error⟩
  | frame {body next : Assembled Error} {frame : Frame} {rest : Arriving Error}
      (polled : body.Polls (.ready (some (.ok frame))) next) (later : Reads next rest) :
      Reads body ⟨frame :: rest.frames, rest.failure⟩
  | waited {body next : Assembled Error} {read : Arriving Error} (polled : body.Polls .pending next)
      (later : Reads next read) : Reads body read

/-! ## What is collected -/

/-- The octets of frames, one after another. -/
def octetsOf (frames : List Frame) : Octets :=
  frames.flatMap Frame.octets

@[simp]
theorem octetsOf_nil : octetsOf [] = [] :=
  rfl

@[simp]
theorem octetsOf_cons (frame : Frame) (frames : List Frame) :
    octetsOf (frame :: frames) = frame.octets ++ octetsOf frames :=
  List.flatMap_cons

namespace Capped

/-- What octets are collected as, by their number and the body's ending. -/
def ofOctets (limit : Nat) (failure : Option (BoxError Error)) (octets : Octets) : Capped Error :=
  if limit < min octets.length u64Max then
    .exceeded limit
  else
    failure.elim (.whole octets) (.failedPartWay octets)

variable {limit soFar : Nat} {failure : Option (BoxError Error)} {first : Octets}
  {joined : Option Octets}

theorem ofOctets_of_le {octets : Octets} (within : min octets.length u64Max ≤ limit) :
    ofOctets limit failure octets = failure.elim (.whole octets) (.failedPartWay octets) :=
  if_neg (Nat.not_lt.mpr within)

/-- Octets past the limit are so whatever comes after them. -/
theorem ofOctets_append_of_lt {octets : Octets} (past : limit < min octets.length u64Max)
    (more : Octets) : ofOctets limit failure (octets ++ more) = .exceeded limit := by
  refine if_pos (past.trans_le (min_le_min_right _ ?_))
  rw [List.length_append]
  exact Nat.le_add_right ..

theorem saturatingAdd_length (octets more : Octets) :
    saturatingAdd u64Max (min octets.length u64Max) (min more.length u64Max) =
      min (octets ++ more).length u64Max := by
  rw [saturatingAdd, List.length_append]
  omega

/-- What is collected after what has arrived: its octets and those still to come. -/
theorem collectFrom_eq (frames : List Frame)
    (counted : soFar = min (arrived first joined).length u64Max) (within : soFar ≤ limit) :
    collectFrom limit failure first joined soFar frames =
      ofOctets limit failure (arrived first joined ++ octetsOf frames) := by
  induction frames generalizing first joined soFar with
  | nil =>
      rw [octetsOf_nil, List.append_nil, ofOctets_of_le (counted ▸ within)]
      cases failure <;> rfl
  | cons frame rest ih =>
      cases frame with
      | trailers fields =>
          rw [collectFrom, ih counted within]
          rfl
      | data octets =>
          rw [collectFrom, octetsOf_cons]
          by_cases isEmpty : octets = []
          · rw [if_pos isEmpty, ih counted within, isEmpty]
            rfl
          rw [if_neg isEmpty]
          have total : saturatingAdd u64Max soFar (min octets.length u64Max) =
              min (arrived first joined ++ octets).length u64Max := by
            rw [counted, saturatingAdd_length]
          dsimp only
          rw [total, show (Frame.data octets).octets = octets from rfl, ← List.append_assoc]
          by_cases past : limit < min (arrived first joined ++ octets).length u64Max
          · rw [if_pos past, ofOctets_append_of_lt past]
          rw [if_neg past]
          have still := Nat.le_of_not_lt past
          cases joined with
          | some buffer => exact ih rfl still
          | none =>
              dsimp only
              by_cases isFirst : first = []
              · rw [if_pos isFirst]
                rw [isFirst] at still ⊢
                exact ih rfl still
              · rw [if_neg isFirst]
                exact ih rfl still

/-- What is collected of a body depends on its octets and its ending alone. -/
theorem collectCapped_eq (body : Arriving Error) (limit : Nat) :
    collectCapped body limit = ofOctets limit body.failure (octetsOf body.frames) :=
  collectFrom_eq body.frames (Nat.zero_min _).symm (Nat.zero_le limit)

end Capped

/-! ## What is handed on -/

namespace Capped

variable {handed : Assembled Error} {capped : Capped Error}

end Capped

end Kynos.Body

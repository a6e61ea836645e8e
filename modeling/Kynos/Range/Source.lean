import Kynos.Http.Field
import Kynos.Numeral.Unsigned

/-!
# Where ranged octets come from

A byte source is asked for spans of a representation; the body it is sent as
reads one span after another. A short answer is asked again for the remainder,
a long one is cut to the span, and an empty one fails the body.
-/

namespace Kynos.Range

open Kynos.Http Kynos.Numeral

/-- How much of a representation is read at a time. -/
def spanOctets : Nat := 64 * 1024

/-- Octets a byte range can be read from. A read is told apart by how many came
before it, so a source may answer one question differently each time. -/
structure ByteSource (Error : Type) where
  completeLength : Except Error Nat
  readSpan : (call first last : Nat) → Except Error Octets
  /-- The octets of an `InMemory` source, which a body slices itself. -/
  inMemory : Option Octets := none

/-- The octets from `first` to `last` inclusive, clamped to what is there. -/
def clamped (octets : Octets) (first last : Nat) : Octets :=
  let start := min first octets.length
  let stop := max start (min (last + 1) octets.length)
  (octets.drop start).take (stop - start)

/-- A representation held in memory. -/
def inMemory (octets : Octets) : ByteSource Empty where
  completeLength := .ok (min octets.length u64Max)
  readSpan _ first last := .ok (clamped octets first last)
  inMemory := some octets

/-- Why a body failed: the source's own error, or a source that stopped short
of the length it reported. -/
inductive BodyError (Error : Type) where
  | source (error : Error)
  | truncated (first last : Nat)
  deriving DecidableEq, Repr

/-- A body that reads one span at a time: the next offset to read, the last one
enclosed, and how many reads the source has answered. -/
structure Spans where
  cursor : Nat
  last : Nat
  calls : Nat
  deriving DecidableEq, Repr

namespace Spans

variable {Error : Type}

/-- Reads `first..=last`. -/
def new (first last : Nat) : Spans :=
  ⟨first, last, 0⟩

/-- The span the next read covers. -/
def span (body : Spans) : Nat × Nat :=
  (body.cursor, min body.last (saturatingAdd u64Max body.cursor (spanOctets - 1)))

/-- Whether every octet asked for has been read. -/
def exhausted (body : Spans) : Bool :=
  body.cursor > body.last

/-- The frame a completed read yields, advancing past what it delivered. -/
def answer (body : Spans) (read : Except Error Octets) :
    Except (BodyError Error) Octets × Spans :=
  match read with
  | .ok [] =>
      (.error (.truncated body.span.1 body.span.2),
        { body with cursor := saturatingAdd u64Max body.last 1 })
  | .ok octets =>
      let frame := octets.take (body.span.2 - body.span.1 + 1)
      (.ok frame, { body with cursor := saturatingAdd u64Max body.cursor frame.length })
  | .error error => (.error (.source error), body)

/-- The next frame, its read awaited, or `none` at the end. -/
def pollFrame (source : ByteSource Error) (body : Spans) :
    Option (Except (BodyError Error) Octets) × Spans :=
  if body.exhausted then
    (none, body)
  else
    match source.inMemory with
    | some octets =>
        let (frame, next) := body.answer (.ok (clamped octets body.span.1 body.span.2))
        (some frame, next)
    | none =>
        let (frame, next) := body.answer (source.readSpan body.calls body.span.1 body.span.2)
        (some frame, { next with calls := body.calls + 1 })

/-- The octets of every frame up to the end, or the first error; `none` where
`fuel` polls do not reach either. -/
def collect (source : ByteSource Error) :
    (fuel : Nat) → Spans → Option (Except (BodyError Error) Octets)
  | 0, _ => none
  | fuel + 1, body =>
      match pollFrame source body with
      | (none, _) => some (.ok [])
      | (some (.error error), _) => some (.error error)
      | (some (.ok frame), next) => (collect source fuel next).map (Except.map (frame ++ ·))

end Spans

/-! ## Sources that read fully -/

variable {Error : Type}

/-- A source that holds `contents` and answers every read with some of the
octets asked for, or with these and more. -/
structure ByteSource.Serves (source : ByteSource Error) (contents : Octets) : Prop where
  bounded : contents.length ≤ u64Max
  complete : source.completeLength = .ok contents.length
  held : ∀ octets, source.inMemory = some octets → octets = contents
  reads : ∀ call first last, first ≤ last → last < contents.length →
    ∃ octets, source.readSpan call first last = .ok octets ∧ octets ≠ [] ∧
      octets.take (last - first + 1) <+: contents.drop first

theorem clamped_eq {contents : Octets} {first last : Nat} (ordered : first ≤ last)
    (inside : last < contents.length) :
    clamped contents first last = (contents.drop first).take (last - first + 1) := by
  have start : min first contents.length = first := by omega
  have stop : max first (min (last + 1) contents.length) - first = last - first + 1 := by omega
  simp only [clamped, start, stop]

/-- What is held in memory is served. -/
theorem inMemory_serves {contents : Octets} (bounded : contents.length ≤ u64Max) :
    (inMemory contents).Serves contents where
  bounded := bounded
  complete := by simp [inMemory, bounded]
  held octets same := by simpa [inMemory, eq_comm] using same
  reads call first last ordered inside := by
    refine ⟨clamped contents first last, rfl, ?_, ?_⟩
    · rw [clamped_eq ordered inside]
      simp only [ne_eq, List.take_eq_nil_iff, List.drop_eq_nil_iff]
      omega
    · rw [clamped_eq ordered inside, List.take_take, min_self]
      exact List.take_prefix _ _

namespace Spans

/-- While octets remain, the span to read is within them. -/
theorem span_bounds {body : Spans} (remaining : body.cursor ≤ body.last)
    (bounded : body.last < u64Max) :
    body.span.1 = body.cursor ∧ body.cursor ≤ body.span.2 ∧ body.span.2 ≤ body.last := by
  have reach : body.cursor ≤ saturatingAdd u64Max body.cursor (spanOctets - 1) := by
    simp only [saturatingAdd]
    omega
  refine ⟨rfl, ?_, min_le_left _ _⟩
  exact le_min remaining reach

/-- A read that begins with the octets that come next yields some of them and
moves past these. -/
theorem answer_of_prefix (Error : Type) {body : Spans} {octets rest : Octets}
    (remaining : body.cursor ≤ body.last) (bounded : body.last < u64Max) (nonempty : octets ≠ [])
    (agrees : octets.take (body.span.2 - body.span.1 + 1) <+: rest) :
    ∃ frame : Octets, (body.answer (.ok octets) : Except (BodyError Error) Octets × Spans) =
        (.ok frame, { body with cursor := body.cursor + frame.length }) ∧
      frame ≠ [] ∧ body.cursor + frame.length ≤ body.last + 1 ∧ frame <+: rest := by
  obtain ⟨spanFirst, spanOrdered, spanLast⟩ := span_bounds remaining bounded
  refine ⟨octets.take (body.span.2 - body.span.1 + 1), ?_, ?_, ?_, agrees⟩
  · have room : body.cursor + (octets.take (body.span.2 - body.span.1 + 1)).length ≤ u64Max := by
      rw [List.length_take]
      omega
    cases octets with
    | nil => contradiction
    | cons octet octets => simp only [answer, saturatingAdd_eq_of_le room]
  · simpa using nonempty
  · rw [List.length_take]
    omega

/-- While octets remain, a poll of a source that reads fully yields some of
those that come next, and moves past them. -/
theorem pollFrame_of_serves {source : ByteSource Error} {contents : Octets}
    (serves : source.Serves contents) {body : Spans} (remaining : body.cursor ≤ body.last)
    (inside : body.last < contents.length) :
    ∃ frame calls, pollFrame source body =
        (some (.ok frame), ⟨body.cursor + frame.length, body.last, calls⟩) ∧
      frame ≠ [] ∧ body.cursor + frame.length ≤ body.last + 1 ∧
      frame <+: contents.drop body.cursor := by
  have bounded : body.last < u64Max := Nat.lt_of_lt_of_le inside serves.bounded
  have more : body.exhausted = false := by simpa [exhausted] using remaining
  obtain ⟨spanFirst, spanOrdered, spanLast⟩ := span_bounds remaining bounded
  have ordered : body.span.1 ≤ body.span.2 := spanFirst ▸ spanOrdered
  have within : body.span.2 < contents.length := Nat.lt_of_le_of_lt spanLast inside
  cases held : source.inMemory with
  | some octets =>
      have same := serves.held octets held
      subst octets
      have sliced : clamped contents body.span.1 body.span.2 =
          (contents.drop body.cursor).take (body.span.2 - body.span.1 + 1) := by
        rw [clamped_eq ordered within, spanFirst]
      have someOctet : clamped contents body.span.1 body.span.2 ≠ [] := by
        rw [sliced, ne_eq, List.take_eq_nil_iff, List.drop_eq_nil_iff]
        omega
      have upTo : (clamped contents body.span.1 body.span.2).take
          (body.span.2 - body.span.1 + 1) <+: contents.drop body.cursor := by
        rw [sliced, List.take_take, min_self]
        exact List.take_prefix _ _
      obtain ⟨frame, answered, nonempty, room, agrees⟩ :=
        answer_of_prefix Error remaining bounded someOctet upTo
      refine ⟨frame, body.calls, ?_, nonempty, room, agrees⟩
      simp [pollFrame, more, held, answered]
  | none =>
      obtain ⟨octets, read, nonempty, agrees⟩ :=
        serves.reads body.calls body.span.1 body.span.2 ordered within
      obtain ⟨frame, answered, nonempty, room, agrees⟩ :=
        answer_of_prefix Error remaining bounded nonempty agrees
      rw [spanFirst] at agrees
      refine ⟨frame, body.calls + 1, ?_, nonempty, room, agrees⟩
      simp [pollFrame, more, held, read, answered]

/-- A source that reads fully is collected to exactly the octets from the
cursor to the last one enclosed, one poll for each octet and one more being
enough. -/
theorem collect_of_serves {source : ByteSource Error} {contents : Octets}
    (serves : source.Serves contents) (fuel : Nat) (body : Spans)
    (inside : body.last < contents.length) (enough : body.last + 1 - body.cursor < fuel) :
    collect source fuel body =
      some (.ok ((contents.drop body.cursor).take (body.last + 1 - body.cursor))) := by
  induction fuel generalizing body with
  | zero => omega
  | succ fuel ih =>
      by_cases remaining : body.cursor ≤ body.last
      · obtain ⟨frame, calls, polled, nonempty, room, agrees⟩ :=
          pollFrame_of_serves serves remaining inside
        have progress : 0 < frame.length := List.length_pos_iff.mpr nonempty
        have rest := ih ⟨body.cursor + frame.length, body.last, calls⟩ inside (by
          simp only
          omega)
        obtain ⟨suffix, cut⟩ := agrees
        have width : body.last + 1 - body.cursor =
            frame.length + (body.last + 1 - (body.cursor + frame.length)) := by
          omega
        simp only at rest
        rw [collect, polled]
        simp only [rest, Option.map_some, Except.map, Option.some.injEq, Except.ok.injEq]
        rw [← List.drop_drop, ← cut, List.drop_left, width, List.take_length_add_append]
      · have done : body.exhausted = true := by simpa [exhausted] using remaining
        have nothing : body.last + 1 - body.cursor = 0 := by omega
        simp [collect, pollFrame, done, nothing]

end Spans

end Kynos.Range

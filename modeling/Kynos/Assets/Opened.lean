import Kynos.Assets.Walk
import Kynos.Range.Delivery
import Mathlib

/-!
# Reading an open file

A located file is held open and read one span at a time. The offset its cursor is at
is remembered, so that a read that goes on where the last one stopped does not seek.
Seeking and reading may fail, and a read may give more or less than it is asked for.
-/

namespace Kynos.Assets

open Kynos.Http Kynos.Numeral Kynos.Range

/-- What the system does when it is asked for a span: whether it seeks, and how many
octets a read gives, unless it fails. -/
structure Outcome (Error : Type) where
  seek : Except Error Unit
  read : Except Error Nat

/-- An open file: what it holds, the offset its next read is from, and the offset
remembered. -/
structure Opened where
  contents : Contents
  position : Nat
  cursor : Nat

namespace Opened

variable {Error : Type}

/-- A file just opened. -/
def new (contents : Contents) : Opened :=
  ⟨contents, 0, 0⟩

/-- A read from the file's own offset. -/
def readBuf (file : Opened) (granted : Nat) : Octets × Opened :=
  let octets := (file.contents.bytes.drop file.position).take granted
  (octets, { file with position := file.position + octets.length })

/-- The file with its cursor at an offset: it seeks unless it is there. -/
def seekTo (file : Opened) (outcome : Outcome Error) (first : Nat) : Except Error Opened :=
  if file.cursor ≠ first then
    outcome.seek.map fun _ => { file with position := first, cursor := first }
  else
    .ok file

/-- A read that moves the cursor past what it gives. -/
def readOn (file : Opened) (outcome : Outcome Error) : Except Error Octets × Opened :=
  match outcome.read with
  | .error error => (.error error, file)
  | .ok granted =>
      let (octets, after) := file.readBuf granted
      (.ok octets, { after with cursor := saturatingAdd u64Max file.cursor octets.length })

/-- `read_span`. -/
def readSpan (file : Opened) (outcome : Outcome Error) (first : Nat) :
    Except Error Octets × Opened :=
  match file.seekTo outcome first with
  | .error error => (.error error, file)
  | .ok file => file.readOn outcome

/-- The next frame of a body over an open file, or `none` at the end. -/
def pollFrame (file : Opened) (body : Spans) (outcome : Outcome Error) :
    Option (Except (BodyError Error) Octets) × Opened × Spans :=
  if body.exhausted then
    (none, file, body)
  else
    let (answered, file) := file.readSpan outcome body.span.1
    let (frame, next) := body.answer answered
    (some frame, file, { next with calls := body.calls + 1 })

/-- The octets of every frame up to the end, or the first error; `none` where the
outcomes at hand do not reach either. -/
def collect (file : Opened) (body : Spans) :
    List (Outcome Error) → Option (Except (BodyError Error) Octets)
  | [] => if body.exhausted then some (.ok []) else none
  | outcome :: outcomes =>
      match file.pollFrame body outcome with
      | (none, _, _) => some (.ok [])
      | (some (.error error), _, _) => some (.error error)
      | (some (.ok frame), file, next) => (file.collect next outcomes).map (Except.map (frame ++ ·))

/-! ## Reads -/

/-- The offset remembered is the one the next read is from. -/
def Tracked (file : Opened) : Prop :=
  file.cursor = file.position

theorem tracked_new (contents : Contents) : (new contents).Tracked :=
  rfl

/-- A read from the offset remembered keeps track of it. -/
theorem tracked_readBuf {file : Opened} (tracked : file.Tracked) (bounded : file.cursor ≤ u64Max)
    (granted : Nat) :
    Tracked { (file.readBuf granted).2 with
      cursor := saturatingAdd u64Max file.cursor (file.readBuf granted).1.length } := by
  have length : (file.readBuf granted).1.length =
      min granted (file.contents.bytes.length - file.position) := by
    rw [readBuf, List.length_take, List.length_drop]
  have room : file.cursor + (file.readBuf granted).1.length ≤ u64Max := by
    have inside := file.contents.bounded
    rw [Tracked] at tracked
    omega
  rw [Tracked, saturatingAdd_eq_of_le room, tracked]
  rfl

theorem exists_readOn {file : Opened} (tracked : file.Tracked) (outcome : Outcome Error)
    (bounded : file.cursor ≤ u64Max) :
    ∃ after, after.Tracked ∧ after.contents = file.contents ∧
      ((∃ error, file.readOn outcome = (.error error, after) ∧ outcome.read = .error error) ∨
        ∃ granted, outcome.read = .ok granted ∧
          file.readOn outcome = (.ok ((file.contents.bytes.drop file.cursor).take granted), after)) := by
  cases reads : outcome.read with
  | error error =>
      refine ⟨file, tracked, rfl, .inl ⟨error, ?_, rfl⟩⟩
      rw [readOn, reads]
  | ok granted =>
      refine ⟨_, tracked_readBuf tracked bounded granted, rfl, .inr ⟨granted, rfl, ?_⟩⟩
      rw [readOn, reads, tracked]
      rfl

/-- A span is read from where it begins, and the offset stays tracked. -/
theorem exists_readSpan {file : Opened} (tracked : file.Tracked) (outcome : Outcome Error) {first : Nat}
    (bounded : first ≤ u64Max) :
    ∃ after, after.Tracked ∧ after.contents = file.contents ∧
      ((∃ error, file.readSpan outcome first = (.error error, after) ∧
          (outcome.seek = .error error ∨ outcome.read = .error error)) ∨
        ∃ granted, outcome.read = .ok granted ∧
          file.readSpan outcome first = (.ok ((file.contents.bytes.drop first).take granted), after)) := by
  -- From a cursor at the span, only the read decides.
  have reading : ∀ sought : Opened, sought.Tracked → sought.contents = file.contents →
      sought.cursor = first → file.seekTo outcome first = .ok sought →
      ∃ after, after.Tracked ∧ after.contents = file.contents ∧
        ((∃ error, file.readSpan outcome first = (.error error, after) ∧
            (outcome.seek = .error error ∨ outcome.read = .error error)) ∨
          ∃ granted, outcome.read = .ok granted ∧
            file.readSpan outcome first =
              (.ok ((file.contents.bytes.drop first).take granted), after)) := by
    intro sought isTracked held isThere seeks
    obtain ⟨after, afterTracked, afterHeld, reads⟩ :=
      exists_readOn isTracked outcome (isThere ▸ bounded)
    rw [isThere, held] at reads
    refine ⟨after, afterTracked, afterHeld.trans held, ?_⟩
    rw [readSpan, seeks]
    exact reads.imp_left fun ⟨error, failed, isError⟩ => ⟨error, failed, .inr isError⟩
  by_cases there : file.cursor = first
  · apply reading file tracked rfl there
    rw [seekTo, if_neg (not_not.mpr there)]
  · cases seeks : outcome.seek with
    | error error =>
        refine ⟨file, tracked, rfl, .inl ⟨error, ?_, .inl rfl⟩⟩
        rw [readSpan, seekTo, if_pos there, seeks]
        rfl
    | ok _ =>
        rw [← seeks]
        apply reading { file with position := first, cursor := first } rfl rfl rfl
        rw [seekTo, if_pos there, seeks]
        rfl

/-! ## Bodies -/

/-- While octets remain, a poll yields some of those that come next and moves past
them, unless a seek or a read fails or gives nothing. -/
theorem exists_pollFrame {file : Opened} {body : Spans} (tracked : file.Tracked)
    (remaining : body.cursor ≤ body.last) (bounded : body.last < u64Max) (outcome : Outcome Error) :
    ∃ after, after.Tracked ∧ after.contents = file.contents ∧
      ((∃ error next, file.pollFrame body outcome = (some (.error error), after, next) ∧
          ∀ granted, outcome.seek = .ok () → outcome.read = .ok granted →
            granted = 0 ∨ file.contents.bytes.length ≤ body.cursor) ∨
        ∃ frame calls, file.pollFrame body outcome =
            (some (.ok frame), after, ⟨body.cursor + frame.length, body.last, calls⟩) ∧
          frame ≠ [] ∧ body.cursor + frame.length ≤ body.last + 1 ∧
          frame <+: file.contents.bytes.drop body.cursor) := by
  obtain ⟨spanFirst, -, -⟩ := Spans.span_bounds remaining bounded
  have more : body.exhausted = false := by simpa [Spans.exhausted] using remaining
  obtain ⟨after, afterTracked, held, reads⟩ :=
    exists_readSpan tracked outcome (remaining.trans bounded.le)
  refine ⟨after, afterTracked, held, ?_⟩
  rcases reads with ⟨error, failed, isError⟩ | ⟨granted, isGranted, gives⟩
  · refine .inl ⟨.source error, { body with calls := body.calls + 1 }, ?_, ?_⟩
    · simp only [pollFrame, more, Bool.false_eq_true, if_false, spanFirst, failed, Spans.answer]
    · intro granted seeks reads
      rcases isError with seekFails | readFails
      · rw [seeks] at seekFails
        cases seekFails
      · rw [reads] at readFails
        cases readFails
  · by_cases nothing : (file.contents.bytes.drop body.cursor).take granted = []
    · refine .inl ⟨.truncated body.span.1 body.span.2,
        { body with cursor := saturatingAdd u64Max body.last 1, calls := body.calls + 1 }, ?_, ?_⟩
      · simp only [pollFrame, more, Bool.false_eq_true, if_false, spanFirst, gives, nothing, Spans.answer]
      · intro other _ reads
        rw [isGranted] at reads
        cases reads
        simpa [List.take_eq_nil_iff] using nothing
    · obtain ⟨frame, answered, nonempty, room, agrees⟩ :=
        Spans.answer_of_prefix Error remaining bounded nothing
          ((List.take_prefix _ _).trans (List.take_prefix granted (file.contents.bytes.drop body.cursor)))
      refine .inr ⟨frame, body.calls + 1, ?_, nonempty, room, agrees⟩
      simp only [pollFrame, more, Bool.false_eq_true, if_false, spanFirst, gives]
      simp only [answered]

/-- A body past its last octet is at its end. -/
theorem collect_exhausted {file : Opened} {body : Spans} (done : body.last < body.cursor)
    (outcomes : List (Outcome Error)) : file.collect body outcomes = some (.ok []) := by
  have exhausted : body.exhausted = true := by simpa [Spans.exhausted] using done
  cases outcomes with
  | nil => rw [collect, if_pos exhausted]
  | cons outcome outcomes =>
      rw [collect, pollFrame, if_pos exhausted]

/-- A body over an open file that ends without an error has delivered all octets
asked for, from where it began. -/
theorem collect_eq_ok {file : Opened} {body : Spans} (tracked : file.Tracked)
    (bounded : body.last < u64Max) {octets : Octets} {outcomes : List (Outcome Error)}
    (collects : file.collect body outcomes = some (.ok octets)) :
    octets = (file.contents.bytes.drop body.cursor).take (body.last + 1 - body.cursor) ∧
      octets.length = body.last + 1 - body.cursor := by
  induction outcomes generalizing file body octets with
  | nil =>
      by_cases done : body.last < body.cursor
      · rw [collect_exhausted done] at collects
        cases collects
        rw [Nat.sub_eq_zero_of_le done]
        exact ⟨rfl, rfl⟩
      · have more : ¬ body.exhausted = true := by simpa [Spans.exhausted] using done
        rw [collect, if_neg more] at collects
        cases collects
  | cons outcome outcomes ih =>
      by_cases done : body.last < body.cursor
      · rw [collect_exhausted done] at collects
        cases collects
        rw [Nat.sub_eq_zero_of_le done]
        exact ⟨rfl, rfl⟩
      · obtain ⟨after, afterTracked, held, polled⟩ :=
          exists_pollFrame tracked (Nat.not_lt.mp done) bounded outcome
        rcases polled with ⟨error, next, failed, -⟩ | ⟨frame, calls, polled, nonempty, room, agrees⟩
        · rw [collect, failed] at collects
          cases collects
        · rw [collect, polled] at collects
          obtain ⟨result, rest, joins⟩ := Option.map_eq_some_iff.mp collects
          cases result with
          | error error => cases joins
          | ok others =>
              cases joins
              obtain ⟨isRest, length⟩ :=
                @ih after ⟨body.cursor + frame.length, body.last, calls⟩ afterTracked bounded others rest
              simp only at isRest length
              obtain ⟨suffix, cut⟩ := agrees
              have width : body.last + 1 - body.cursor =
                  frame.length + (body.last + 1 - (body.cursor + frame.length)) := by
                omega
              constructor
              · rw [isRest, held, ← List.drop_drop, ← cut, List.drop_left, width,
                  List.take_length_add_append]
              · rw [List.length_append, length, ← width]

/-- Where every seek succeeds and every read gives some octet, a body within an open
file is delivered. -/
theorem exists_collect_of_granted {file : Opened} {body : Spans} (tracked : file.Tracked)
    (inside : body.last < file.contents.bytes.length) {outcomes : List (Outcome Error)}
    (granted : ∀ outcome ∈ outcomes, outcome.seek = .ok () ∧ ∃ octets, outcome.read = .ok octets ∧ octets ≠ 0)
    (enough : body.last + 1 - body.cursor ≤ outcomes.length) :
    ∃ octets, file.collect body outcomes = some (.ok octets) := by
  induction outcomes generalizing file body with
  | nil =>
      rw [List.length_nil] at enough
      exact ⟨[], collect_exhausted (by omega) []⟩
  | cons outcome outcomes ih =>
      by_cases done : body.last < body.cursor
      · exact ⟨[], collect_exhausted done _⟩
      · have bounded : body.last < u64Max := inside.trans_le file.contents.bounded
        obtain ⟨first, others⟩ := List.forall_mem_cons.mp granted
        obtain ⟨seeks, count, reads, some_⟩ := first
        obtain ⟨after, afterTracked, held, polled⟩ :=
          exists_pollFrame tracked (Nat.not_lt.mp done) bounded outcome
        rcases polled with ⟨error, next, failed, why⟩ | ⟨frame, calls, polled, nonempty, room, agrees⟩
        · rcases why count seeks reads with none_ | past
          · exact absurd none_ some_
          · omega
        · have progress : 0 < frame.length := List.length_pos_iff.mpr nonempty
          rw [List.length_cons] at enough
          have rest : ∃ octets, after.collect ⟨body.cursor + frame.length, body.last, calls⟩ outcomes =
              some (.ok octets) := by
            apply ih afterTracked (by rw [held]; exact inside) others
            simp only
            omega
          obtain ⟨octets, collects⟩ := rest
          refine ⟨frame ++ octets, ?_⟩
          simp only [collect, polled, collects]
          rfl

/-- However its reads turn out, a body over a file just opened that ends without an
error has delivered the octets asked for, and none but these; and it ends so where the
file holds them, every seek succeeds and every read gives some octet. -/
theorem collect_new {contents : Contents} {first last : Nat} (ordered : first ≤ last)
    (bounded : last < u64Max) (outcomes : List (Outcome Error)) :
    (∀ octets, (new contents).collect (Spans.new first last) outcomes = some (.ok octets) →
      last < contents.bytes.length ∧ octets = slice contents.bytes first last) ∧
      (last < contents.bytes.length → last - first < outcomes.length →
        (∀ outcome ∈ outcomes, outcome.seek = .ok () ∧ ∃ octets, outcome.read = .ok octets ∧ octets ≠ 0) →
          (new contents).collect (Spans.new first last) outcomes =
            some (.ok (slice contents.bytes first last))) := by
  have sound : ∀ octets, (new contents).collect (Spans.new first last) outcomes = some (.ok octets) →
      last < contents.bytes.length ∧ octets = slice contents.bytes first last := by
    intro octets collects
    have inBody : (Spans.new first last).last < u64Max := bounded
    obtain ⟨isSlice, length⟩ := collect_eq_ok (tracked_new contents) inBody collects
    simp only [Spans.new] at isSlice length
    have width : last + 1 - first = last - first + 1 := by omega
    rw [width] at isSlice length
    refine ⟨?_, isSlice⟩
    rw [isSlice, List.length_take, List.length_drop] at length
    have held : (new contents).contents = contents := rfl
    rw [held] at length
    omega
  refine ⟨sound, fun inside enough granted => ?_⟩
  have inBody : (Spans.new first last).last < (new contents).contents.bytes.length := inside
  obtain ⟨octets, collects⟩ := exists_collect_of_granted (tracked_new contents) inBody granted (by
    simp only [Spans.new]
    omega)
  rw [collects, (sound octets collects).2]

/-- Three octets read one and two at a time. -/
theorem collect_new_three :
    (∀ octets, (new ⟨[1, 2, 3], by decide⟩).collect (Spans.new 0 2)
        [⟨.ok (), .ok 1⟩, ⟨.ok (), .ok 2⟩, (⟨.ok (), .ok 1⟩ : Outcome Empty)] = some (.ok octets) →
      2 < ([1, 2, 3] : Octets).length ∧ octets = slice [1, 2, 3] 0 2) ∧
      (2 < ([1, 2, 3] : Octets).length →
        2 - 0 < [⟨.ok (), .ok 1⟩, ⟨.ok (), .ok 2⟩, (⟨.ok (), .ok 1⟩ : Outcome Empty)].length →
        (∀ outcome ∈ [⟨.ok (), .ok 1⟩, ⟨.ok (), .ok 2⟩, (⟨.ok (), .ok 1⟩ : Outcome Empty)],
          outcome.seek = .ok () ∧ ∃ octets, outcome.read = .ok octets ∧ octets ≠ 0) →
        (new ⟨[1, 2, 3], by decide⟩).collect (Spans.new 0 2)
            [⟨.ok (), .ok 1⟩, ⟨.ok (), .ok 2⟩, (⟨.ok (), .ok 1⟩ : Outcome Empty)] =
          some (.ok (slice [1, 2, 3] 0 2))) :=
  collect_new (Nat.zero_le 2) (by decide) _

end Opened

end Kynos.Assets

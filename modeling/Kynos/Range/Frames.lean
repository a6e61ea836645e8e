import Kynos.Range.Source

/-!
# The frames of a body read one span at a time

Nothing is assumed of the source: its answers may be short, exact, too long,
empty or failures, and each read may stay pending through any number of polls.
The frames are consecutive pieces of the range asked for up to the first error,
and the octets they leave out are those the size hint names.
-/

namespace Kynos.Range

open Kynos.Http Kynos.Numeral

variable {Error : Type}

/-- What the source says to its next read. -/
def ByteSource.answers (source : ByteSource Error) (call first last : Nat) :
    Except Error Octets :=
  match source.inMemory with
  | some octets => .ok (clamped octets first last)
  | none => source.readSpan call first last

/-- The same source, read through its reads alone. -/
def ByteSource.boxed (source : ByteSource Error) : ByteSource Error :=
  { source with inMemory := none }

/-- What a poll finds: nothing yet, or a value. -/
inductive Poll (α : Type) where
  | pending
  | ready (value : α)
  deriving DecidableEq, Repr

/-- What a body is polled for: a frame, an error, or the end. -/
abbrev Polled (Error : Type) := Option (Except (BodyError Error) Octets)

namespace Spans

/-- The exact length still to come. -/
def sizeHint (body : Spans) : Nat :=
  if body.exhausted then 0 else saturatingAdd u64Max (body.last - body.cursor) 1

end Spans

/-- A body and the span its read in flight was asked for, if there is one. -/
structure Reading where
  body : Spans
  reading : Option (Nat × Nat)
  deriving DecidableEq, Repr

namespace Reading

/-- Reads `first..=last`, no read in flight. -/
def new (first last : Nat) : Reading :=
  ⟨Spans.new first last, none⟩

/-- Polls the read in flight, which is ready or not. -/
def pollReading (source : ByteSource Error) (ready : Bool) (body : Spans) (span : Nat × Nat) :
    Poll (Polled Error) × Reading :=
  if ready then
    let (frame, next) := body.answer (source.readSpan body.calls span.1 span.2)
    (.ready (some frame), ⟨{ next with calls := body.calls + 1 }, none⟩)
  else
    (.pending, ⟨body, some span⟩)

/-- One poll: of the read in flight, or of the one it begins. -/
def pollFrame (source : ByteSource Error) (ready : Bool) (this : Reading) :
    Poll (Polled Error) × Reading :=
  match this.reading with
  | some span => pollReading source ready this.body span
  | none =>
      if this.body.exhausted then
        (.ready none, this)
      else
        match source.inMemory with
        | some octets =>
            let (frame, next) :=
              this.body.answer (.ok (clamped octets this.body.span.1 this.body.span.2))
            (.ready (some frame), ⟨next, none⟩)
        | none => pollReading source ready this.body this.body.span

/-- What polls find, in order, one for each element of the schedule: whether it
would find a read in flight ready. -/
def run (source : ByteSource Error) : (schedule : List Bool) → Reading →
    List (Polled Error) × Reading
  | [], this => ([], this)
  | ready :: schedule, this =>
      match pollFrame source ready this with
      | (.pending, next) => run source schedule next
      | (.ready found, next) =>
          let (rest, last) := run source schedule next
          (found :: rest, last)

end Reading

namespace Spans

/-- What `count` polls find, each read awaited. -/
def polls (source : ByteSource Error) : (count : Nat) → Spans → List (Polled Error) × Spans
  | 0, body => ([], body)
  | count + 1, body =>
      let (found, next) := pollFrame source body
      let (rest, last) := polls source count next
      (found :: rest, last)

/-! ## Reads in flight -/

end Spans

namespace Reading

/-- A read in flight was asked for the span that will be computed again once it
is complete. -/
structure Asked (source : ByteSource Error) (this : Reading) : Prop where
  span : ∀ span, this.reading = some span →
    span = this.body.span ∧ this.body.exhausted = false ∧ source.inMemory = none

/-- A poll leaves the body alone, or does to it what an awaited poll does. -/
theorem pollFrame_cases {source : ByteSource Error} {this : Reading}
    (asked : this.Asked source) (ready : Bool) :
    (ready = false ∧ ∃ next, pollFrame source ready this = (.pending, next) ∧
      next.body = this.body ∧ next.Asked source) ∨
    pollFrame source ready this =
      (.ready (Spans.pollFrame source this.body).1,
        ⟨(Spans.pollFrame source this.body).2, none⟩) := by
  obtain ⟨body, reading⟩ := this
  have inFlight : body.exhausted = false → source.inMemory = none →
      (ready = false ∧ ∃ next, pollReading source ready body body.span = (.pending, next) ∧
        next.body = body ∧ next.Asked source) ∨
      pollReading source ready body body.span =
        (.ready (Spans.pollFrame source body).1, ⟨(Spans.pollFrame source body).2, none⟩) := by
    intro more boxed
    cases ready with
    | false =>
        refine .inl ⟨rfl, ⟨body, some body.span⟩, rfl, rfl, ⟨?_⟩⟩
        rintro span ⟨⟩
        exact ⟨rfl, more, boxed⟩
    | true =>
        right
        simp [pollReading, Spans.pollFrame, more, boxed]
  cases reading with
  | some span =>
      obtain ⟨same, more, boxed⟩ := asked.span span rfl
      rw [same]
      exact inFlight more boxed
  | none =>
      cases more : body.exhausted with
      | true =>
          right
          simp [pollFrame, Spans.pollFrame, more]
      | false =>
          cases held : source.inMemory with
          | some octets =>
              right
              simp [pollFrame, Spans.pollFrame, more, held]
          | none =>
              simpa [pollFrame, more, held] using inFlight more held

theorem Asked.none (source : ByteSource Error) (body : Spans) :
    Asked source (⟨body, .none⟩ : Reading) :=
  ⟨by simp⟩

/-- Whatever the schedule, polls find what awaited polls do, one at least for
each poll that would find a read ready. -/
theorem run_eq_polls (source : ByteSource Error) (schedule : List Bool) (this : Reading)
    (asked : this.Asked source) :
    ∃ count, schedule.count true ≤ count ∧ count ≤ schedule.length ∧
      (run source schedule this).1 = (Spans.polls source count this.body).1 ∧
      (run source schedule this).2.body = (Spans.polls source count this.body).2 := by
  induction schedule generalizing this with
  | nil => exact ⟨0, by simp [run, Spans.polls]⟩
  | cons ready schedule ih =>
      rcases pollFrame_cases asked ready with ⟨rfl, next, polled, same, nextAsked⟩ | polled
      · obtain ⟨count, enough, bounded, found, last⟩ := ih next nextAsked
        rw [same] at found last
        refine ⟨count, by simpa using enough, by simp only [List.length_cons]; omega, ?_, ?_⟩
        · simpa [run, polled] using found
        · simpa [run, polled] using last
      · obtain ⟨count, enough, bounded, found, last⟩ :=
          ih ⟨(Spans.pollFrame source this.body).2, none⟩ (Asked.none source _)
        refine ⟨count + 1, ?_, by simpa using bounded, ?_, ?_⟩
        · rw [List.count_cons]
          split <;> omega
        · simp [run, polled, Spans.polls, found]
        · simp [run, polled, Spans.polls, last]

end Reading

/-! ## The pieces of a range -/

namespace Spans

/-- The last offset of the span that begins at `first`. -/
def spanEnd (first last : Nat) : Nat :=
  min last (first + (spanOctets - 1))

/-- Frames that are consecutive pieces of a range, from an offset on: each is
what the source's next answer, asked for the span that begins there, holds of
this span, has an octet and does not go past the last offset. -/
inductive Pieces (source : ByteSource Error) (last : Nat) : Nat → Nat → List Octets → Prop where
  | nil (call first : Nat) : Pieces source last call first []
  | cons {call first : Nat} {octets : Octets} {frames : List Octets}
      (answered : source.answers call first (spanEnd first last) = .ok octets)
      (nonempty : octets.take (spanEnd first last - first + 1) ≠ [])
      (inside : first + (octets.take (spanEnd first last - first + 1)).length ≤ last + 1)
      (rest : Pieces source last (call + 1)
        (first + (octets.take (spanEnd first last - first + 1)).length) frames) :
      Pieces source last call first (octets.take (spanEnd first last - first + 1) :: frames)

/-- What polls find after the pieces up to an offset, and the size hint they
leave: nothing yet; the end, at the end of the range; one truncation, naming the
span an empty answer was asked for, and the end; or the source's own error. -/
inductive Ending (source : ByteSource Error) (last call first : Nat) :
    List (Polled Error) → Nat → Prop where
  | pending : Ending source last call first [] (last + 1 - first)
  | complete (count : Nat) (reached : first = last + 1) :
      Ending source last call first (List.replicate (count + 1) none) 0
  | truncated (count : Nat) (remaining : first ≤ last)
      (answered : source.answers call first (spanEnd first last) = .ok []) :
      Ending source last call first
        (some (.error (.truncated first (spanEnd first last))) :: List.replicate count none) 0
  | failed (error : Error) (after : List (Polled Error)) (hint : Nat) (remaining : first ≤ last)
      (answered : source.answers call first (spanEnd first last) = .error error) :
      Ending source last call first (some (.error (.source error)) :: after) hint

/-- The pieces cover as many offsets as they have octets, one at least each. -/
theorem Pieces.bounds {source : ByteSource Error} {last call first : Nat} {frames : List Octets}
    (pieces : Pieces source last call first frames) (start : first ≤ last + 1) :
    frames.length ≤ frames.flatten.length ∧ first + frames.flatten.length ≤ last + 1 := by
  induction pieces with
  | nil => simpa using start
  | @cons call first octets frames answered nonempty inside rest ih =>
      obtain ⟨count, total⟩ := ih inside
      have progress : 0 < (octets.take (spanEnd first last - first + 1)).length :=
        List.length_pos_iff.mpr nonempty
      simp only [List.flatten_cons, List.length_append, List.length_cons]
      omega

theorem polls_succ (source : ByteSource Error) (count : Nat) (body : Spans) :
    polls source (count + 1) body =
      ((pollFrame source body).1 :: (polls source count (pollFrame source body).2).1,
        (polls source count (pollFrame source body).2).2) :=
  rfl

theorem polls_of_polled {source : ByteSource Error} {body next : Spans} {found : Polled Error}
    (polled : pollFrame source body = (found, next)) (count : Nat) :
    polls source (count + 1) body =
      (found :: (polls source count next).1, (polls source count next).2) := by
  rw [polls_succ, polled]

theorem length_polls (source : ByteSource Error) (count : Nat) (body : Spans) :
    (polls source count body).1.length = count := by
  induction count generalizing body with
  | zero => rfl
  | succ count ih => rw [polls_succ, List.length_cons, ih]

theorem polls_of_exhausted (source : ByteSource Error) {body : Spans}
    (exhausted : body.exhausted = true) (count : Nat) :
    polls source count body = (List.replicate count none, body) := by
  induction count with
  | zero => rfl
  | succ count ih => simp [polls, pollFrame, exhausted, ih, List.replicate_succ]

/-- The state of a body between polls: it goes on at `first`, up to `last`, and
the source's next answer is numbered `call`. -/
structure At (source : ByteSource Error) (last call first : Nat) (body : Spans) : Prop where
  cursor : body.cursor = first
  enclosed : body.last = last
  numbered : source.inMemory = none → body.calls = call

theorem At.span {source : ByteSource Error} {last call first : Nat} {body : Spans}
    (state : At source last call first body) (bounded : last < u64Max) :
    body.span = (first, spanEnd first last) := by
  simp only [Spans.span, state.cursor, state.enclosed, spanEnd, saturatingAdd, Prod.mk.injEq,
    true_and]
  omega

theorem At.sizeHint {source : ByteSource Error} {last call first : Nat} {body : Spans}
    (state : At source last call first body) (start : first ≤ last + 1) (bounded : last < u64Max) :
    body.sizeHint = last + 1 - first := by
  simp only [Spans.sizeHint, exhausted, state.cursor, state.enclosed, saturatingAdd,
    decide_eq_true_eq]
  split <;> omega

/-- A poll while octets remain reads the span that comes next. -/
theorem pollFrame_of_remaining {source : ByteSource Error} {last call first : Nat} {body : Spans}
    (state : At source last call first body) (remaining : first ≤ last) (bounded : last < u64Max) :
    ∃ calls, (source.inMemory = none → calls = call + 1) ∧
      pollFrame source body =
        (some (body.answer (source.answers call first (spanEnd first last))).1,
          { (body.answer (source.answers call first (spanEnd first last))).2 with
            calls := calls }) := by
  have more : body.exhausted = false := by
    simpa [exhausted, state.cursor, state.enclosed] using remaining
  have span := state.span bounded
  cases held : source.inMemory with
  | some octets =>
      refine ⟨(body.answer (source.answers call first (spanEnd first last))).2.calls, by simp, ?_⟩
      simp [pollFrame, more, held, span, ByteSource.answers]
  | none =>
      refine ⟨call + 1, by simp, ?_⟩
      simp [pollFrame, more, held, span, ByteSource.answers, state.numbered held]

/-- A read that fails fails the body. -/
theorem pollFrame_of_error {source : ByteSource Error} {last call first : Nat} {body : Spans}
    {error : Error} (state : At source last call first body) (remaining : first ≤ last)
    (bounded : last < u64Max)
    (answered : source.answers call first (spanEnd first last) = .error error) :
    ∃ next, pollFrame source body = (some (.error (.source error)), next) := by
  obtain ⟨calls, -, polled⟩ := pollFrame_of_remaining state remaining bounded
  rw [answered] at polled
  exact ⟨_, polled⟩

/-- An empty answer fails the body, naming the span, and leaves nothing to
read. -/
theorem pollFrame_of_empty {source : ByteSource Error} {last call first : Nat} {body : Spans}
    (state : At source last call first body) (remaining : first ≤ last) (bounded : last < u64Max)
    (answered : source.answers call first (spanEnd first last) = .ok []) :
    ∃ next : Spans, next.exhausted = true ∧
      pollFrame source body = (some (.error (.truncated first (spanEnd first last))), next) := by
  obtain ⟨calls, -, polled⟩ := pollFrame_of_remaining state remaining bounded
  refine ⟨⟨saturatingAdd u64Max body.last 1, body.last, calls⟩, ?_, ?_⟩
  · rw [state.enclosed, saturatingAdd_eq_of_le (Nat.succ_le_of_lt bounded)]
    simp [exhausted]
  · rw [polled, answered]
    simp only [answer, state.span bounded]

/-- An answer with octets yields those of its span, and the body goes on after
them. -/
theorem pollFrame_of_octets {source : ByteSource Error} {last call first : Nat} {body : Spans}
    {octets : Octets} (state : At source last call first body) (remaining : first ≤ last)
    (bounded : last < u64Max)
    (answered : source.answers call first (spanEnd first last) = .ok octets)
    (inside : first + (octets.take (spanEnd first last - first + 1)).length ≤ last + 1)
    (nonempty : octets ≠ []) :
    ∃ next, At source last (call + 1)
        (first + (octets.take (spanEnd first last - first + 1)).length) next ∧
      pollFrame source body =
        (some (.ok (octets.take (spanEnd first last - first + 1))), next) := by
  obtain ⟨calls, numbered, polled⟩ := pollFrame_of_remaining state remaining bounded
  refine ⟨⟨first + (octets.take (spanEnd first last - first + 1)).length, last, calls⟩,
    ⟨rfl, rfl, numbered⟩, ?_⟩
  have fits := inside.trans (Nat.succ_le_of_lt bounded)
  cases octets with
  | nil => contradiction
  | cons octet octets =>
      rw [polled, answered]
      simp only [answer, state.span bounded, state.cursor, state.enclosed,
        saturatingAdd_eq_of_le fits]

/-- What is left of an answer within its span does not go past the range. -/
theorem spanEnd_inside {first last : Nat} (remaining : first ≤ last) (octets : Octets) :
    first + (octets.take (spanEnd first last - first + 1)).length ≤ last + 1 := by
  have reach : spanEnd first last ≤ last := min_le_left _ _
  rw [List.length_take]
  omega

/-- Awaited polls find consecutive pieces and then an ending. -/
theorem polls_deliver (source : ByteSource Error) {last : Nat} (bounded : last < u64Max)
    (count call first : Nat) (body : Spans) (state : At source last call first body)
    (start : first ≤ last + 1) :
    ∃ frames after,
      (polls source count body).1 = frames.map (fun frame => some (.ok frame)) ++ after ∧
      Pieces source last call first frames ∧
      Ending source last (call + frames.length) (first + frames.flatten.length) after
        (polls source count body).2.sizeHint ∧
      frames.length + after.length = count := by
  induction count generalizing call first body with
  | zero =>
      refine ⟨[], [], rfl, .nil call first, ?_, rfl⟩
      simpa [polls, state.sizeHint start bounded] using Ending.pending
  | succ count ih =>
      by_cases remaining : first ≤ last
      · have measured := length_polls source (count + 1) body
        cases answered : source.answers call first (spanEnd first last) with
        | error error =>
            obtain ⟨next, polled⟩ := pollFrame_of_error state remaining bounded answered
            rw [polls_of_polled polled] at measured ⊢
            exact ⟨[], _, rfl, .nil call first, .failed error _ _ remaining answered,
              by simpa using measured⟩
        | ok octets =>
            by_cases empty : octets = []
            · subst octets
              obtain ⟨next, exhausted, polled⟩ := pollFrame_of_empty state remaining bounded answered
              rw [polls_of_polled polled, polls_of_exhausted source exhausted]
              refine ⟨[], _, rfl, .nil call first, ?_, by simp⟩
              rw [sizeHint, if_pos exhausted]
              exact .truncated count remaining answered
            · have inside := spanEnd_inside remaining octets
              have nonempty : octets.take (spanEnd first last - first + 1) ≠ [] := by
                simpa using empty
              obtain ⟨next, nextState, polled⟩ :=
                pollFrame_of_octets state remaining bounded answered inside empty
              obtain ⟨frames, after, found, pieces, ending, total⟩ :=
                ih (call + 1) _ next nextState inside
              rw [polls_of_polled polled]
              refine ⟨octets.take (spanEnd first last - first + 1) :: frames, after, ?_,
                .cons answered nonempty inside pieces, ?_, ?_⟩
              · rw [found, List.map_cons, List.cons_append]
              · rw [List.length_cons, List.flatten_cons, List.length_append, ← Nat.add_assoc first,
                  Nat.add_comm frames.length, ← Nat.add_assoc call]
                exact ending
              · simp only [List.length_cons]
                omega
      · have reached : first = last + 1 := by omega
        have exhausted : body.exhausted = true := by
          simp [Spans.exhausted, state.cursor, state.enclosed, reached]
        refine ⟨[], List.replicate (count + 1) none, ?_, .nil call first, ?_, by simp⟩
        · simp [polls_of_exhausted source exhausted]
        · simpa [polls_of_exhausted source exhausted, sizeHint, exhausted] using
            Ending.complete count reached

/-! ## The octets in memory -/

/-- What a read yields does not depend on how many came before it. -/
theorem answer_calls {body body' : Spans} (cursor : body.cursor = body'.cursor)
    (last : body.last = body'.last) (read : Except Error Octets) :
    (body.answer read).1 = (body'.answer read).1 ∧
      (body.answer read).2.cursor = (body'.answer read).2.cursor ∧
      (body.answer read).2.last = (body'.answer read).2.last := by
  have span : body.span = body'.span := by simp only [Spans.span, cursor, last]
  cases read with
  | error error => exact ⟨rfl, cursor, last⟩
  | ok octets => cases octets <;> simp only [answer, span, cursor, last, and_self]

/-- What is held in memory is answered alike by a slice and by a read. -/
theorem pollFrame_boxed (octets : Octets) {body body' : Spans} (cursor : body.cursor = body'.cursor)
    (last : body.last = body'.last) :
    (pollFrame (inMemory octets).boxed body').1 = (pollFrame (inMemory octets) body).1 ∧
      (pollFrame (inMemory octets) body).2.cursor =
        (pollFrame (inMemory octets).boxed body').2.cursor ∧
      (pollFrame (inMemory octets) body).2.last =
        (pollFrame (inMemory octets).boxed body').2.last := by
  have span : body.span = body'.span := by simp only [Spans.span, cursor, last]
  have spent : body.exhausted = body'.exhausted := by simp only [exhausted, cursor, last]
  obtain ⟨frame, nextCursor, nextLast⟩ := answer_calls cursor last
    (.ok (clamped octets body'.span.1 body'.span.2) : Except Empty Octets)
  cases more : body'.exhausted with
  | true => simp [pollFrame, spent, more, cursor, last]
  | false =>
      simp [pollFrame, spent, more, inMemory, ByteSource.boxed, span, frame, nextCursor, nextLast]

theorem polls_boxed (octets : Octets) (count : Nat) {body body' : Spans}
    (cursor : body.cursor = body'.cursor) (last : body.last = body'.last) :
    (polls (inMemory octets).boxed count body').1 = (polls (inMemory octets) count body).1 := by
  induction count generalizing body body' with
  | zero => rfl
  | succ count ih =>
      obtain ⟨found, nextCursor, nextLast⟩ := pollFrame_boxed octets cursor last
      rw [polls_succ, polls_succ, found, ih nextCursor nextLast]

end Spans

namespace Reading

/-- A body finds consecutive pieces of its range and then an ending, whatever
its source answers and whenever it answers; without an error it ends with the
last octet of the range; and what is held in memory is found alike through a
slice and through a read. -/
theorem run_delivers (source : ByteSource Error) {first last : Nat} (ordered : first ≤ last)
    (bounded : last < u64Max) :
    (∀ schedule, ∃ frames after,
      (run source schedule (new first last)).1 =
        frames.map (fun frame => some (.ok frame)) ++ after ∧
      Spans.Pieces source last 0 first frames ∧
      Spans.Ending source last frames.length (first + frames.flatten.length) after
        (run source schedule (new first last)).2.body.sizeHint ∧
      (last - first + 2 ≤ schedule.count true → after ≠ [] ∧
        ((∀ error, some (.error error) ∉ after) → frames.flatten.length = last - first + 1))) ∧
    ∀ octets schedule, ∃ count, schedule.count true ≤ count ∧
      (run (inMemory octets).boxed schedule (new first last)).1 =
        (run (inMemory octets) (List.replicate count true) (new first last)).1 := by
  constructor
  · intro schedule
    obtain ⟨count, enough, -, found, left⟩ :=
      run_eq_polls source schedule (new first last) (Asked.none source _)
    obtain ⟨frames, after, polled, pieces, ending, total⟩ :=
      Spans.polls_deliver source bounded count 0 first (new first last).body
        ⟨rfl, rfl, fun _ => rfl⟩ (by omega)
    rw [Nat.zero_add, ← left] at ending
    generalize (run source schedule (new first last)).2.body.sizeHint = hint at ending ⊢
    refine ⟨frames, after, found.trans polled, pieces, ending, fun long => ?_⟩
    obtain ⟨progress, inside⟩ := pieces.bounds (by omega)
    have more : after ≠ [] := by
      rintro rfl
      simp only [List.length_nil] at total
      omega
    refine ⟨more, fun noError => ?_⟩
    cases ending with
    | pending => contradiction
    | complete _ reached => omega
    | truncated => exact absurd List.mem_cons_self (noError _)
    | failed => exact absurd List.mem_cons_self (noError _)
  · intro octets schedule
    obtain ⟨count, enough, -, read, -⟩ :=
      run_eq_polls (inMemory octets).boxed schedule (new first last) (Asked.none _ _)
    obtain ⟨count', least, most, sliced, -⟩ :=
      run_eq_polls (inMemory octets) (List.replicate count true) (new first last) (Asked.none _ _)
    rw [List.count_replicate_self] at least
    rw [List.length_replicate] at most
    obtain rfl := le_antisymm least most
    exact ⟨count, enough, by rw [read, sliced, Spans.polls_boxed octets count rfl rfl]⟩

/-- A source of five octets that answers the first read short and has nothing
more. -/
theorem run_delivers_short :
    let source : ByteSource Empty :=
      ⟨.ok 5, fun call _ _ => if call = 0 then .ok [1, 2] else .ok [], none⟩
    ∃ (frames : List Octets) (after : List (Polled Empty)),
      (run source [false, true, true, true, true, true, true] (new 0 4)).1 =
        frames.map (fun frame => some (.ok frame)) ++ after ∧ after ≠ [] := by
  intro source
  obtain ⟨frames, after, found, -, -, ends⟩ :=
    (run_delivers source (by decide : 0 ≤ 4) (by decide)).1
      [false, true, true, true, true, true, true]
  exact ⟨frames, after, found, (ends (by decide)).1⟩

end Reading

end Kynos.Range

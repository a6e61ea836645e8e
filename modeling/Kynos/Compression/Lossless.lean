import Kynos.Compression.Streamed

/-!
# Streamed encoding loses and repeats nothing

Over every behaviour of the inner body and of the encoder, what is handed to the
encoder is what was read, what is yielded is what the encoder emitted, the
trailers are last, and a failure is yielded once and ends the body.
-/

namespace Kynos.Compression

open Kynos.Http Kynos.Range Kynos.Body Kynos.Run

variable {Error : Type} {writeZero : Error} {call : Call Error}

/-! ## Calls that wait or fail -/

/-- A call that is not ready. -/
def Call.Waits : Call Error → Prop
  | .inner answer => answer = .pending
  | .write answer _ => answer = .pending
  | .flush answer _ => answer = .pending
  | .shutdown answer _ => answer = .pending
  | .idle => False

/-- A call that takes no octets and reads nothing. -/
structure Call.Barren (call : Call Error) : Prop where
  accepts : ∀ pending, call.accepts pending = []
  read : call.read = []
  trailers : call.trailers = none

theorem Call.Waits.barren (waits : call.Waits) : call.Barren := by
  cases call <;> cases waits <;> exact ⟨fun _ => rfl, rfl, rfl⟩

theorem Call.Waits.failure (waits : call.Waits) : call.failure writeZero = none := by
  cases call <;> cases waits <;> rfl

theorem Call.barren_of_failure {error : Error} (failure : call.failure writeZero = some error) :
    call.Barren := by
  rw [Call.failure.eq_def] at failure
  split at failure
  next answer =>
    rw [Answer.error.eq_def] at failure
    split at failure
    next => exact ⟨fun _ => rfl, rfl, rfl⟩
    next => cases failure
  all_goals first
    | exact ⟨fun _ => rfl, rfl, rfl⟩
    | cases failure

theorem Call.failure_write {written : Nat} {emitted : Octets} (some : written ≠ 0) :
    (Call.write (.ready (.ok written)) emitted).failure writeZero = none := by
  cases written with
  | zero => exact absurd rfl some
  | succ => rfl

namespace Streamed

variable {this : Streamed} {turned : Streamed × Option (Answer Error)}

/-! ## What a round does -/

section Emit

variable (this : Streamed)

theorem emit_fst : (@emit Error this).1 = { this with buffer := [] } := by
  obtain ⟨latency, state, buffer, pending, trailers⟩ := this
  rw [emit]
  split
  next none =>
    cases none
    rfl
  next => rfl

theorem dataOf_emit : dataOf (@emit Error this).2.toList = this.buffer := by
  rw [emit]
  split
  next none => exact none.symm
  next => exact dataOf_singleton _

theorem running_of_emit : ∀ answer ∈ (@emit Error this).2.toList, answer.Running := by
  intro answer emitted
  rw [emit] at emitted
  split at emitted
  next => cases emitted
  next some =>
    cases List.mem_singleton.mp emitted
    exact .data _ some

end Emit

/-- The changes a round may make. -/
inductive Turned (writeZero : Error) (this : Streamed) :
    Call Error → Streamed × Option (Answer Error) → Prop where
  | ends (done : this.state = .done) :
      Turned writeZero this .idle ({ this with trailers := none },
        some (.ready (this.trailers.map fun fields => .ok (.trailers fields))))
  | failed (failed : this.state = .failed) : Turned writeZero this .idle (this, some (.ready none))
  | waits {call : Call Error} (waits : call.Waits)
      (running : this.state ≠ .done ∧ this.state ≠ .failed)
      (quiet : this.state = .feeding → this.pending = [] → call.emitted = []) :
      Turned writeZero this call (this.fill call.emitted, some .pending)
  | fails {call : Call Error} {error : Error} (failure : call.failure writeZero = some error)
      (running : this.state ≠ .done ∧ this.state ≠ .failed)
      (inner : ∀ answer, call = .inner answer → this.state = .feeding ∧ this.pending = []) :
      Turned writeZero this call ((this.fill call.emitted).fail error)
  | shutdown {emitted : Octets} (finishing : this.state = .finishing) :
      Turned writeZero this (.shutdown (.ready (.ok ())) emitted)
        { this.fill emitted with state := .done }.emit
  | flush {emitted : Octets} (flushing : this.state = .flushing) :
      Turned writeZero this (.flush (.ready (.ok ())) emitted)
        { this.fill emitted with state := .feeding }.emit
  | writeAll {written : Nat} {emitted : Octets} (feeding : this.state = .feeding)
      (some : written ≠ 0) (all : this.pending.drop written = [])
      (interactive : this.latency = .interactive) :
      Turned writeZero this (.write (.ready (.ok written)) emitted)
        ({ this.fill emitted with pending := [], state := .flushing }, none)
  | write {written : Nat} {emitted : Octets} (feeding : this.state = .feeding) (some : written ≠ 0)
      (more : ¬ (this.pending.drop written = [] ∧ this.latency = .interactive)) :
      Turned writeZero this (.write (.ready (.ok written)) emitted)
        { this.fill emitted with pending := this.pending.drop written }.emit
  | innerEnds (feeding : this.state = .feeding) (pending : this.pending = []) :
      Turned writeZero this (.inner (.ready none)) ({ this with state := .finishing }, none)
  | innerData {octets : Octets} (feeding : this.state = .feeding) (pending : this.pending = []) :
      Turned writeZero this (.inner (.ready (some (.ok (.data octets)))))
        ({ this with pending := octets }, none)
  | innerTrailers {fields : HeaderMap} (feeding : this.state = .feeding)
      (pending : this.pending = []) :
      Turned writeZero this (.inner (.ready (some (.ok (.trailers fields)))))
        ({ this with trailers := some fields }, none)

theorem fill_nil (this : Streamed) : this.fill [] = this := by
  rw [fill, List.append_nil]

theorem turned_write {written : Nat} {emitted : Octets} (feeding : this.state = .feeding)
    (some : written ≠ 0) :
    Turned writeZero this (.write (.ready (.ok written)) emitted)
      ((this.fill emitted).advance written) := by
  rw [advance]
  simp only
  split
  next all =>
    have none : this.pending.drop written = [] := all.1
    rw [show (this.fill emitted).pending = this.pending from rfl, none]
    exact .writeAll feeding some none all.2
  next more => exact .write feeding some more

theorem turned_inner {answer : Answer Error} (feeding : this.state = .feeding)
    (pending : this.pending = []) : Turned writeZero this (.inner answer) (this.take answer) := by
  have running : this.state ≠ .done ∧ this.state ≠ .failed := by simp [feeding]
  rw [take.eq_def]
  split
  next =>
    have waits : @Turned Error writeZero this (.inner .pending) (this.fill [], some .pending) :=
      .waits rfl running fun _ _ => rfl
    rwa [fill_nil] at waits
  next => exact .innerEnds feeding pending
  next error =>
    have fails : @Turned Error writeZero this (.inner (.ready (some (.error error))))
      ((this.fill []).fail error) := .fails rfl running fun _ _ => ⟨feeding, pending⟩
    rwa [fill_nil] at fails
  next => exact .innerData feeding pending
  next => exact .innerTrailers feeding pending

theorem turned_of_turn (stepped : this.turn writeZero call = some turned) :
    Turned writeZero this call turned := by
  rw [turn.eq_def] at stepped
  split at stepped
  · split at stepped
    next done =>
      cases stepped
      exact .ends done
    next failed =>
      cases stepped
      exact .failed failed
    next => cases stepped
  · split at stepped
    next finishing =>
      have running : this.state ≠ .done ∧ this.state ≠ .failed := by simp [finishing]
      split at stepped <;> cases stepped
      · exact .waits rfl running fun feeding => by simp [finishing] at feeding
      · exact .fails rfl running nofun
      · exact .shutdown finishing
    next => cases stepped
  · split at stepped
    next flushing =>
      have running : this.state ≠ .done ∧ this.state ≠ .failed := by simp [flushing]
      split at stepped <;> cases stepped
      · exact .waits rfl running fun feeding => by simp [flushing] at feeding
      · exact .fails rfl running nofun
      · exact .flush flushing
    next => cases stepped
  · split at stepped
    next asked =>
      obtain ⟨feeding, pending⟩ := asked
      have running : this.state ≠ .done ∧ this.state ≠ .failed := by simp [feeding]
      split at stepped
      next =>
        cases stepped
        exact .waits rfl running fun _ none => absurd none pending
      next result =>
        rcases result with error | written
        · cases stepped
          exact .fails rfl running nofun
        · cases written with
          | zero =>
              cases stepped
              exact .fails rfl running nofun
          | succ written =>
              simp only [accepted] at stepped
              split at stepped <;> cases stepped
              exact turned_write feeding (Nat.succ_ne_zero written)
    next => cases stepped
  · split at stepped <;> cases stepped
    next asked => exact turned_inner asked.1 asked.2

/-- A round accepts pending octets only, and the data it reads is pending. -/
theorem Turned.pending (turns : this.Turned writeZero call turned) :
    call.accepts this.pending ++ turned.1.pending = this.pending ++ call.read := by
  cases turns with
  | ends | failed => simp [Call.accepts, Call.read]
  | waits waits => rw [waits.barren.accepts, waits.barren.read, List.append_nil]; rfl
  | fails failure =>
      have barren := Call.barren_of_failure failure
      rw [barren.accepts, barren.read, List.append_nil]
      rfl
  | shutdown | flush => rw [emit_fst]; simp [Call.accepts, Call.read, fill]
  | @writeAll written emitted feeding some all =>
      have taken := List.take_append_drop written this.pending
      rw [all, List.append_nil] at taken
      simp [Call.accepts, Call.read, taken]
  | write => rw [emit_fst]; simp [Call.accepts, Call.read]
  | innerEnds | innerTrailers => simp [Call.accepts, Call.read, Answer.octets]
  | innerData feeding pending => simp [Call.accepts, Call.read, Answer.octets, pending]

/-- What a round yields and leaves in the buffer is what was there and what the
encoder emitted. -/
theorem Turned.buffer (turns : this.Turned writeZero call turned) :
    dataOf turned.2.toList ++ turned.1.buffer = this.buffer ++ call.emitted := by
  cases turns with
  | ends => cases this.trailers <;> simp [Call.emitted, Answer.octets]
  | failed | waits | fails => simp [Call.emitted, Answer.octets, fill, fail]
  | shutdown | flush | write => simp [dataOf_emit, emit_fst, fill, Call.emitted]
  | writeAll | innerEnds | innerData | innerTrailers => simp [fill, Call.emitted]

/-- A body that has ended has nothing more to yield. -/
theorem Turned.of_ended (turns : this.Turned writeZero call turned)
    (ended : this.isEndStream = true) :
    turned.2 = some (.ready none) ∧ turned.1.isEndStream = true := by
  obtain ⟨done, none⟩ : this.state = .done ∧ this.trailers = none := by
    simpa [isEndStream] using ended
  cases turns with
  | ends => simp [isEndStream, done, none]
  | waits waits running | fails failure running => exact absurd done running.1
  | failed state | shutdown state | flush state | writeAll state | write state | innerEnds state
  | innerData state | innerTrailers state => cases done.symm.trans state

/-- A failed body stays so, and yields nothing more. -/
theorem Turned.of_failed (turns : this.Turned writeZero call turned)
    (failed : this.state = .failed) : turned = (this, some (.ready none)) := by
  cases turns with
  | failed => rfl
  | waits waits running | fails failure running => exact absurd failed running.2
  | ends state | shutdown state | flush state | writeAll state | write state | innerEnds state
  | innerData state | innerTrailers state => cases failed.symm.trans state

theorem Turned.of_error {error : Error} (turns : this.Turned writeZero call turned)
    (failure : turned.2 = some (.ready (some (.error error)))) : turned.1.state = .failed := by
  cases turns with
  | fails => rfl
  | ends =>
      cases found : this.trailers <;> simp [found] at failure
  | shutdown | flush | write =>
      have running := running_of_emit _ _ (Option.mem_toList.mpr failure)
      cases running
  | failed | waits | writeAll | innerEnds | innerData | innerTrailers => cases failure

theorem Turned.of_pending (turns : this.Turned writeZero call turned)
    (pending : turned.2 = some .pending) : turned.1.isEndStream = false := by
  cases turns with
  | waits waits running => simp [isEndStream, fill, running.1]
  | shutdown | flush | write =>
      rw [emit] at pending
      split at pending <;> cases pending
  | ends | failed | fails | writeAll | innerEnds | innerData | innerTrailers => cases pending

end Streamed

/-! ## What is kept -/

theorem lastTrailers_concat_of_none {calls : List (Call Error)} (none : call.trailers = none) :
    lastTrailers (calls ++ [call]) = lastTrailers calls := by
  rw [lastTrailers_concat, none, Option.none_or]

namespace Trace

variable {latency : LatencyMode} {calls : List (Call Error)} {trace next : Trace Error}

theorem turned_of_step (stepped : trace.step writeZero call = some next) :
    ∃ turned, trace.body.Turned writeZero call turned ∧
      next = ⟨turned.1, trace.answers ++ turned.2.toList,
        trace.handed ++ call.accepts trace.body.pending⟩ := by
  obtain ⟨turned, turns, rfl⟩ := Option.map_eq_some_iff.mp stepped
  exact ⟨turned, Streamed.turned_of_turn turns, rfl⟩

/-- What is read is handed over or pending, and what is emitted is yielded or in
the buffer. -/
structure Conserves (calls : List (Call Error)) (trace : Trace Error) : Prop where
  handed : trace.handed ++ trace.body.pending = readOf calls
  yielded : dataOf trace.answers ++ trace.body.buffer = emittedOf calls

theorem conserves_of_run (run : run writeZero latency calls = some trace) :
    trace.Conserves calls := by
  refine invariant_reached ⟨rfl, rfl⟩ (fun calls trace call next _ kept stepped => ?_) run
  obtain ⟨turned, turns, rfl⟩ := turned_of_step stepped
  constructor
  · simp only [readOf_append, readOf_singleton, List.append_assoc, turns.pending, ← kept.handed]
  · simp only [emittedOf_append, emittedOf_singleton, dataOf_append, List.append_assoc, turns.buffer,
      ← kept.yielded]

/-- Nothing but data has been yielded, nothing has failed, and the trailers read
are held. -/
structure Open (writeZero : Error) (calls : List (Call Error)) (trace : Trace Error) : Prop where
  running : ∀ answer ∈ trace.answers, answer.Running
  sound : ∀ call ∈ calls, call.failure writeZero = none
  trailers : trace.body.trailers = lastTrailers calls

/-- What is known of a run where its body is. -/
inductive Phase (writeZero : Error) (calls : List (Call Error)) (trace : Trace Error) : Prop where
  | feeding (state : trace.body.state = .feeding) (opened : trace.Open writeZero calls)
      (drained : trace.body.pending = [] → trace.body.buffer = [])
  | flushing (state : trace.body.state = .flushing) (opened : trace.Open writeZero calls)
      (pending : trace.body.pending = [])
  | finishing (state : trace.body.state = .finishing) (opened : trace.Open writeZero calls)
      (pending : trace.body.pending = []) (ended : .inner (.ready none) ∈ calls)
  | held (state : trace.body.state = .done) (opened : trace.Open writeZero calls)
      (pending : trace.body.pending = []) (buffer : trace.body.buffer = [])
      (ended : .inner (.ready none) ∈ calls)
  | done (state : trace.body.state = .done) (sound : ∀ call ∈ calls, call.failure writeZero = none)
      (pending : trace.body.pending = []) (buffer : trace.body.buffer = [])
      (ended : .inner (.ready none) ∈ calls) (trailers : trace.body.trailers = none)
      (yielded : ∃ running : List (Answer Error), ∃ count,
        (∀ answer ∈ running, answer.Running) ∧ trace.answers = running ++
          .ready ((lastTrailers calls).map fun fields => .ok (.trailers fields)) ::
            List.replicate count (.ready none))
  | failed (state : trace.body.state = .failed)
      (inner : ∀ error, .inner (.ready (some (.error error))) ∈ calls → trace.body.buffer = [])
      (yielded : ∃ running : List (Answer Error), ∃ call ∈ calls, ∃ error, ∃ count,
        (∀ answer ∈ running, answer.Running) ∧ call.failure writeZero = some error ∧
          (∀ other ∈ calls, ∀ error', other.failure writeZero = some error' → error' = error) ∧
          trace.answers = running ++ .ready (some (.error error)) ::
            List.replicate count (.ready none))

theorem Phase.opened (phase : trace.Phase writeZero calls)
    (running : trace.body.state ≠ .done ∧ trace.body.state ≠ .failed) :
    trace.Open writeZero calls := by
  cases phase with
  | feeding state opened | flushing state opened | finishing state opened => exact opened
  | held state | done state => exact absurd state running.1
  | failed state => exact absurd state running.2

theorem Phase.drained (phase : trace.Phase writeZero calls) (feeding : trace.body.state = .feeding)
    (pending : trace.body.pending = []) : trace.body.buffer = [] := by
  cases phase with
  | feeding state opened drained => exact drained pending
  | flushing state | finishing state | held state | done state | failed state =>
      rw [state] at feeding
      cases feeding

theorem Phase.finishes (phase : trace.Phase writeZero calls)
    (finishing : trace.body.state = .finishing) :
    trace.body.pending = [] ∧ .inner (.ready none) ∈ calls := by
  cases phase with
  | finishing state opened pending ended => exact ⟨pending, ended⟩
  | feeding state | flushing state | held state | done state | failed state =>
      rw [state] at finishing
      cases finishing

theorem Phase.flushes (phase : trace.Phase writeZero calls)
    (flushing : trace.body.state = .flushing) : trace.body.pending = [] := by
  cases phase with
  | flushing state opened pending => exact pending
  | feeding state | finishing state | held state | done state | failed state =>
      rw [state] at flushing
      cases flushing

/-- A round that yields data or nothing, and does not fail, leaves a run open. -/
theorem Open.concat {body : Streamed} {answer : Option (Answer Error)} {handed : Octets}
    (opened : trace.Open writeZero calls) (sound : call.failure writeZero = none)
    (running : ∀ found ∈ answer.toList, found.Running)
    (trailers : body.trailers = call.trailers.or trace.body.trailers) :
    Open writeZero (calls ++ [call]) ⟨body, trace.answers ++ answer.toList, handed⟩ where
  running := List.forall_mem_append.mpr ⟨opened.running, running⟩
  sound := List.forall_mem_append.mpr ⟨opened.sound, List.forall_mem_singleton.mpr sound⟩
  trailers := by rw [lastTrailers_concat, ← opened.trailers]; exact trailers

theorem replicate_concat {Item : Type} (front : List Item) (item last : Item) (count : Nat) :
    front ++ item :: List.replicate count last ++ [last] =
      front ++ item :: List.replicate (count + 1) last := by
  rw [List.append_assoc, List.cons_append, ← List.replicate_succ']

theorem sound_concat (sound : ∀ call ∈ calls, call.failure writeZero = none)
    (last : call.failure writeZero = none) :
    ∀ other ∈ calls ++ [call], other.failure writeZero = none :=
  List.forall_mem_append.mpr ⟨sound, List.forall_mem_singleton.mpr last⟩

/-- A finished body yields its trailers, and the end from then on. -/
theorem Phase.ends {handed : Octets} (phase : trace.Phase writeZero calls)
    (done : trace.body.state = .done) :
    Phase writeZero (calls ++ [.idle]) ⟨{ trace.body with trailers := none },
      trace.answers ++ [.ready (trace.body.trailers.map fun fields => .ok (.trailers fields))],
      handed⟩ := by
  cases phase with
  | held state opened pending buffer ended =>
      refine .done state (sound_concat opened.sound rfl) pending buffer
        (List.mem_append_left _ ended) rfl ⟨trace.answers, 0, opened.running, ?_⟩
      rw [lastTrailers_concat_of_none rfl, ← opened.trailers]
      rfl
  | done state sound pending buffer ended trailers yielded =>
      obtain ⟨running, count, all, answers⟩ := yielded
      refine .done state (sound_concat sound rfl) pending buffer (List.mem_append_left _ ended) rfl
        ⟨running, count + 1, all, ?_⟩
      rw [lastTrailers_concat_of_none rfl, ← replicate_concat, trailers, answers]
      rfl
  | feeding state | flushing state | finishing state | failed state =>
      rw [state] at done
      cases done

/-- A failed body yields the end. -/
theorem Phase.stays {handed : Octets} (phase : trace.Phase writeZero calls)
    (failed : trace.body.state = .failed) :
    Phase writeZero (calls ++ [.idle]) ⟨trace.body, trace.answers ++ [.ready none], handed⟩ := by
  cases phase with
  | failed state inner yielded =>
      obtain ⟨running, call, called, error, count, all, failure, only, answers⟩ := yielded
      refine .failed state (fun error called => inner error ?_)
        ⟨running, call, List.mem_append_left _ called, error, count + 1, all, failure, ?_, ?_⟩
      · exact (List.mem_append.mp called).resolve_right (by simp)
      · refine List.forall_mem_append.mpr ⟨only, List.forall_mem_singleton.mpr fun _ none => ?_⟩
        cases none
      · rw [← replicate_concat, answers]
  | feeding state | flushing state | finishing state | held state | done state =>
      rw [state] at failed
      cases failed

/-- A call that fails is the first that does, and its error is yielded. -/
theorem Phase.fails {error : Error} {handed : Octets} (phase : trace.Phase writeZero calls)
    (failure : call.failure writeZero = some error)
    (running : trace.body.state ≠ .done ∧ trace.body.state ≠ .failed)
    (inner : ∀ answer, call = .inner answer → trace.body.state = .feeding ∧ trace.body.pending = []) :
    Phase writeZero (calls ++ [call]) ⟨{ trace.body.fill call.emitted with state := .failed },
      trace.answers ++ [.ready (some (.error error))], handed⟩ := by
  have opened := phase.opened running
  refine .failed rfl (fun other called => ?_) ⟨trace.answers, call, by simp, error, 0,
    opened.running, failure, fun other called error' fails => ?_, rfl⟩
  · rcases List.mem_append.mp called with earlier | last
    · cases opened.sound _ earlier
    · obtain rfl := List.mem_singleton.mp last
      obtain ⟨feeding, pending⟩ := inner _ rfl
      exact (List.append_nil _).trans (phase.drained feeding pending)
  · rcases List.mem_append.mp called with earlier | last
    · cases (opened.sound _ earlier).symm.trans fails
    · obtain rfl := List.mem_singleton.mp last
      exact Option.some.inj (fails.symm.trans failure)

theorem Phase.step {turned : Streamed × Option (Answer Error)} {handed : Octets}
    (phase : trace.Phase writeZero calls) (turns : trace.body.Turned writeZero call turned) :
    Phase writeZero (calls ++ [call]) ⟨turned.1, trace.answers ++ turned.2.toList, handed⟩ := by
  cases turns with
  | ends done => exact phase.ends done
  | failed failed => exact phase.stays failed
  | waits waits running quiet =>
      have opened : Open writeZero (calls ++ [call]) ⟨trace.body.fill call.emitted,
          trace.answers ++ (some .pending : Option (Answer Error)).toList, handed⟩ :=
        (phase.opened running).concat waits.failure (List.forall_mem_singleton.mpr .pending)
          (by rw [waits.barren.trailers, Option.none_or]; rfl)
      cases state : trace.body.state with
      | feeding =>
          refine .feeding state opened fun pending => ?_
          rw [Streamed.fill, quiet state pending, phase.drained state pending, List.append_nil]
      | flushing => exact .flushing state opened (phase.flushes state)
      | finishing =>
          obtain ⟨pending, ended⟩ := phase.finishes state
          exact .finishing state opened pending (List.mem_append_left _ ended)
      | done => exact absurd state running.1
      | failed => exact absurd state running.2
  | fails failure running inner => exact phase.fails failure running inner
  | shutdown finishing =>
      obtain ⟨pending, ended⟩ := phase.finishes finishing
      have opened := phase.opened (by simp [finishing])
      rw [Streamed.emit_fst]
      exact .held rfl (opened.concat rfl (Streamed.running_of_emit _) rfl) pending rfl
        (List.mem_append_left _ ended)
  | flush flushing =>
      have opened := phase.opened (by simp [flushing])
      rw [Streamed.emit_fst]
      exact .feeding rfl (opened.concat rfl (Streamed.running_of_emit _) rfl) fun _ => rfl
  | writeAll feeding some all =>
      have opened := phase.opened (by simp [feeding])
      exact .flushing rfl (opened.concat (Call.failure_write some) nofun rfl) rfl
  | write feeding some =>
      have opened := phase.opened (by simp [feeding])
      rw [Streamed.emit_fst]
      exact .feeding feeding
        (opened.concat (Call.failure_write some) (Streamed.running_of_emit _) rfl) fun _ => rfl
  | innerEnds feeding pending =>
      have opened := phase.opened (by simp [feeding])
      exact .finishing rfl (opened.concat rfl nofun rfl) pending (by simp)
  | innerData feeding pending =>
      have opened := phase.opened (by simp [feeding])
      exact .feeding feeding (opened.concat rfl nofun rfl) fun _ => phase.drained feeding pending
  | innerTrailers feeding pending =>
      have opened := phase.opened (by simp [feeding])
      exact .feeding feeding (opened.concat rfl nofun rfl) fun _ => phase.drained feeding pending

theorem phase_of_run (run : run writeZero latency calls = some trace) :
    trace.Phase writeZero calls := by
  refine invariant_reached ?_ (fun calls trace call next _ phase stepped => ?_) run
  · exact .feeding rfl ⟨nofun, nofun, rfl⟩ fun _ => rfl
  · obtain ⟨turned, turns, rfl⟩ := turned_of_step stepped
    exact phase.step turns

/-- The encoder of a body that is done was shut down. -/
theorem shutdown_of_done (run : run writeZero latency calls = some trace)
    (done : trace.body.state = .done) : ∃ emitted, .shutdown (.ready (.ok ())) emitted ∈ calls := by
  refine @invariant_reached _ _ _ _ _ (fun calls (trace : Trace Error) =>
    trace.body.state = .done → ∃ emitted, .shutdown (.ready (.ok ())) emitted ∈ calls)
    (fun done => by cases done) (fun calls trace call next _ kept stepped done => ?_) calls run done
  obtain ⟨turned, turns, rfl⟩ := turned_of_step stepped
  have earlier : trace.body.state = .done →
      ∃ emitted, .shutdown (.ready (.ok ())) emitted ∈ calls ++ [call] := fun done =>
    (kept done).imp fun _ => List.mem_append_left _
  cases turns with
  | ends | failed | waits => exact earlier done
  | @shutdown emitted => exact ⟨emitted, by simp⟩
  | flush =>
      rw [Streamed.emit_fst] at done
      cases done
  | write state =>
      rw [Streamed.emit_fst] at done
      cases state.symm.trans done
  | fails | writeAll | innerEnds => cases done
  | innerData state | innerTrailers state => cases state.symm.trans done

/-! ## Flushing -/

/-- Every frame with data was read before a flush that is complete. -/
def Settled (calls : List (Call Error)) : Prop :=
  ∀ before octets after, octets ≠ [] →
    calls = before ++ .inner (.ready (some (.ok (.data octets)))) :: after →
      ∃ emitted, .flush (.ready (.ok ())) emitted ∈ after

theorem split_concat {Item : Type} {items before after : List Item} {item last : Item}
    (split : items ++ [last] = before ++ item :: after) :
    last = item ∧ after = [] ∨ ∃ rest, after = rest ++ [last] ∧ items = before ++ item :: rest := by
  rcases List.eq_nil_or_concat' after with rfl | ⟨rest, other, rfl⟩
  · exact .inl ⟨(List.append_singleton_inj.mp split).2, rfl⟩
  · rw [← List.cons_append, ← List.append_assoc] at split
    obtain ⟨rfl, rfl⟩ := List.append_singleton_inj.mp split
    exact .inr ⟨rest, rfl, rfl⟩

theorem Settled.concat (settled : Settled calls) (read : call.read = []) :
    Settled (calls ++ [call]) := by
  intro before octets after nonempty split
  rcases split_concat split with ⟨rfl, _⟩ | ⟨rest, rfl, rfl⟩
  · exact absurd read nonempty
  · obtain ⟨emitted, flushed⟩ := settled before octets rest nonempty rfl
    exact ⟨emitted, List.mem_append_left _ flushed⟩

theorem settled_flush (emitted : Octets) : Settled (calls ++ [.flush (.ready (.ok ())) emitted]) := by
  intro before octets after nonempty split
  rcases split_concat split with ⟨isInner, _⟩ | ⟨rest, rfl, _⟩
  · cases isInner
  · exact ⟨emitted, by simp⟩

/-- Under the mode that flushes, a body that asks for the next frame has flushed
those before it. -/
structure Flushes (calls : List (Call Error)) (trace : Trace Error) : Prop where
  interactive : trace.body.latency = .interactive
  settled : trace.body.state = .feeding → trace.body.pending = [] → Settled calls

theorem Flushes.step {turned : Streamed × Option (Answer Error)} {answers : List (Answer Error)}
    {handed : Octets} (flushes : trace.Flushes calls)
    (turns : trace.body.Turned writeZero call turned) :
    Flushes (calls ++ [call]) ⟨turned.1, answers, handed⟩ := by
  obtain ⟨interactive, settled⟩ := flushes
  cases turns with
  | ends done => exact ⟨interactive, fun feeding => by cases done.symm.trans feeding⟩
  | failed failed => exact ⟨interactive, fun feeding => by cases failed.symm.trans feeding⟩
  | waits waits =>
      exact ⟨interactive, fun feeding pending => (settled feeding pending).concat waits.barren.read⟩
  | fails | writeAll | innerEnds => exact ⟨interactive, nofun⟩
  | shutdown =>
      rw [Streamed.emit_fst]
      exact ⟨interactive, nofun⟩
  | flush =>
      rw [Streamed.emit_fst]
      exact ⟨interactive, fun _ _ => settled_flush _⟩
  | write feeding some more =>
      rw [Streamed.emit_fst]
      exact ⟨interactive, fun _ none => absurd ⟨none, interactive⟩ more⟩
  | innerData feeding pending =>
      exact ⟨interactive, fun _ none => (settled feeding pending).concat none⟩
  | innerTrailers feeding pending =>
      exact ⟨interactive, fun _ _ => (settled feeding pending).concat rfl⟩

theorem flushes_of_run (run : run writeZero .interactive calls = some trace) :
    trace.Flushes calls := by
  have none : Settled ([] : List (Call Error)) := fun before octets after _ split => by
    simp at split
  refine @invariant_reached (Trace Error) (Call Error) _ _ _ (fun calls => Flushes calls)
    ⟨rfl, fun _ _ => none⟩ (fun calls trace call next _ flushes stepped => ?_) calls run
  obtain ⟨turned, turns, rfl⟩ := turned_of_step stepped
  exact flushes.step turns

/-! ## The whole run -/

theorem eq_of_split {Item : Type} {front rest before after : List Item} {item other : Item}
    (split : front ++ item :: rest = before ++ other :: after) (notFront : other ∉ front)
    (notRest : other ∉ rest) : before = front ∧ other = item ∧ after = rest := by
  rcases List.append_eq_append_iff.mp split with ⟨more, rfl, tail⟩ | ⟨more, rfl, tail⟩
  · cases more with
    | nil =>
        cases tail
        exact ⟨List.append_nil _, rfl, rfl⟩
    | cons first more =>
        obtain ⟨rfl, rfl⟩ := List.cons_eq_cons.mp tail
        exact absurd (List.mem_append_right _ List.mem_cons_self) notRest
  · cases more with
    | nil =>
        cases tail
        exact ⟨(List.append_nil _).symm, rfl, rfl⟩
    | cons first more =>
        obtain ⟨rfl, rfl⟩ := List.cons_eq_cons.mp tail
        exact absurd (List.mem_append_right _ List.mem_cons_self) notFront

/-- What a run that neither loses nor repeats anything does: what is handed to
the encoder is what was read, flushes and the shutdown find all of it handed over,
what is yielded is what the encoder emitted, the trailers come last, and a failure
is yielded once and ends the body. -/
structure Lossless (writeZero : Error) (latency : LatencyMode) (calls : List (Call Error))
    (trace : Trace Error) : Prop where
  handed : trace.handed <+: readOf calls
  shutdown : ∀ before answer emitted after earlier,
    calls = before ++ .shutdown answer emitted :: after →
    run writeZero latency before = some earlier →
      earlier.handed = readOf before ∧ .inner (.ready none) ∈ before
  flush : ∀ before answer emitted after earlier,
    calls = before ++ .flush answer emitted :: after →
    run writeZero latency before = some earlier → earlier.handed = readOf before
  flushed : latency = .interactive → ∀ before octets between answer after, octets ≠ [] →
    calls = before ++ .inner (.ready (some (.ok (.data octets)))) ::
      (between ++ .inner answer :: after) →
    ∃ emitted, .flush (.ready (.ok ())) emitted ∈ between
  nonempty : ∀ octets, .ready (some (.ok (.data octets))) ∈ trace.answers → octets ≠ []
  yielded : dataOf trace.answers <+: emittedOf calls
  ended : .ready none ∈ trace.answers → (∀ answer ∈ trace.answers, answer.error = none) →
    dataOf trace.answers = emittedOf calls ∧ trace.handed = readOf calls ∧
      trace.answers.filterMap Answer.trailers = (lastTrailers calls).toList
  innerFailed : ∀ error, .inner (.ready (some (.error error))) ∈ calls →
    dataOf trace.answers = emittedOf calls
  trailers : ∀ before fields after,
    trace.answers = before ++ .ready (some (.ok (.trailers fields))) :: after →
      dataOf before = emittedOf calls ∧ lastTrailers calls = some fields ∧
        ∀ answer ∈ after, answer = .ready none
  failure : ∀ call ∈ calls, ∀ error, call.failure writeZero = some error →
    ∃ before count, (∀ answer ∈ before, answer.Running) ∧
      trace.answers = before ++ .ready (some (.error error)) :: List.replicate count (.ready none)
  error : ∀ error, .ready (some (.error error)) ∈ trace.answers →
    ∃ call ∈ calls, call.failure writeZero = some error
  isEndStream : trace.body.isEndStream = true →
    dataOf trace.answers = emittedOf calls ∧ trace.handed = readOf calls ∧
      trace.answers.filterMap Answer.trailers = (lastTrailers calls).toList ∧
      (∀ call ∈ calls, call.failure writeZero = none) ∧
      ∀ more later, run writeZero latency (calls ++ more) = some later →
        ∃ count, later.answers = trace.answers ++ List.replicate count (.ready none)

/-- The trailers among answers that run and then yield something and the end. -/
theorem filterMap_trailers {running : List (Answer Error)} (all : ∀ answer ∈ running, answer.Running)
    (found : Option (Except Error Frame)) (count : Nat) :
    List.filterMap Answer.trailers
        (running ++ (.ready found : Answer Error) :: List.replicate count (.ready none)) =
      (Answer.trailers (.ready found : Answer Error)).toList := by
  have silent : running.filterMap Answer.trailers = [] := by
    refine List.filterMap_eq_nil_iff.mpr fun answer found => ?_
    cases all answer found <;> rfl
  have ends : (List.replicate count (.ready none : Answer Error)).filterMap Answer.trailers = [] := by
    refine List.filterMap_eq_nil_iff.mpr fun answer found => ?_
    rw [List.eq_of_mem_replicate found]
    rfl
  rw [List.filterMap_append, List.filterMap_cons, silent, ends]
  cases Answer.trailers (.ready found : Answer Error) <;> rfl

/-- What the answers of a run are. -/
inductive Shape (writeZero : Error) (calls : List (Call Error)) (trace : Trace Error) : Prop where
  | running (all : ∀ answer ∈ trace.answers, answer.Running)
      (sound : ∀ call ∈ calls, call.failure writeZero = none)
  | done {running : List (Answer Error)} {count : Nat} (all : ∀ answer ∈ running, answer.Running)
      (sound : ∀ call ∈ calls, call.failure writeZero = none)
      (yielded : dataOf running = emittedOf calls) (handed : trace.handed = readOf calls)
      (shape : trace.answers = running ++
        .ready ((lastTrailers calls).map fun fields => .ok (.trailers fields)) ::
          List.replicate count (.ready none))
  | failed {running : List (Answer Error)} {count : Nat} {call : Call Error} {error : Error}
      (all : ∀ answer ∈ running, answer.Running) (called : call ∈ calls)
      (failure : call.failure writeZero = some error)
      (only : ∀ other ∈ calls, ∀ error', other.failure writeZero = some error' → error' = error)
      (shape : trace.answers = running ++ .ready (some (.error error)) ::
        List.replicate count (.ready none))

/-- The octets of answers that end. -/
theorem dataOf_ended (running : List (Answer Error)) (found : Option (Except Error Frame))
    (count : Nat) : dataOf (running ++ .ready found :: List.replicate count (.ready none)) =
      dataOf running ++ Answer.octets (.ready found : Answer Error) := by
  rw [← List.singleton_append, dataOf_append, dataOf_append, dataOf_replicate_none,
    dataOf_singleton, List.append_nil]

theorem octets_trailers (found : Option HeaderMap) :
    Answer.octets (.ready (found.map fun fields => .ok (.trailers fields)) : Answer Error) = [] := by
  cases found <;> rfl

theorem Phase.shape (phase : trace.Phase writeZero calls) (conserves : trace.Conserves calls) :
    trace.Shape writeZero calls := by
  cases phase with
  | feeding state opened | flushing state opened | finishing state opened | held state opened =>
      exact .running opened.running opened.sound
  | done state sound pending buffer ended trailers yielded =>
      obtain ⟨running, count, all, answers⟩ := yielded
      have yielded := conserves.yielded
      rw [buffer, answers, List.append_nil, dataOf_ended, octets_trailers, List.append_nil] at yielded
      have handed := conserves.handed
      rw [pending, List.append_nil] at handed
      exact .done all sound yielded handed answers
  | failed state inner yielded =>
      obtain ⟨running, call, called, error, count, all, failure, only, answers⟩ := yielded
      exact .failed all called failure only answers

theorem shape_of_run (run : run writeZero latency calls = some trace) :
    trace.Shape writeZero calls :=
  (phase_of_run run).shape (conserves_of_run run)

theorem Shape.nonempty (shape : trace.Shape writeZero calls) {octets : Octets}
    (found : .ready (some (.ok (.data octets))) ∈ trace.answers) : octets ≠ [] := by
  have ofRunning : ∀ running : List (Answer Error), (∀ answer ∈ running, answer.Running) →
      .ready (some (.ok (.data octets))) ∈ running → octets ≠ [] := fun running all found => by
    cases all _ found with
    | data _ nonempty => exact nonempty
  cases shape with
  | running all => exact ofRunning _ all found
  | done all sound yielded handed shape =>
      rw [shape, List.mem_append, List.mem_cons] at found
      rcases found with found | found | found
      · exact ofRunning _ all found
      · cases last : lastTrailers calls <;> rw [last] at found <;> cases found
      · cases List.eq_of_mem_replicate found
  | failed all called failure only shape =>
      rw [shape, List.mem_append, List.mem_cons] at found
      rcases found with found | found | found
      · exact ofRunning _ all found
      · cases found
      · cases List.eq_of_mem_replicate found

theorem Shape.ended (shape : trace.Shape writeZero calls) (ended : .ready none ∈ trace.answers)
    (sound : ∀ answer ∈ trace.answers, answer.error = none) :
    dataOf trace.answers = emittedOf calls ∧ trace.handed = readOf calls ∧
      trace.answers.filterMap Answer.trailers = (lastTrailers calls).toList := by
  cases shape with
  | running all => cases all _ ended
  | done all sound yielded handed shape =>
      rw [shape, dataOf_ended, octets_trailers, List.append_nil, filterMap_trailers all]
      refine ⟨yielded, handed, ?_⟩
      cases lastTrailers calls <;> rfl
  | failed all called failure only shape =>
      rw [shape] at sound
      cases sound _ (List.mem_append_right _ List.mem_cons_self)

theorem Shape.trailers (shape : trace.Shape writeZero calls) {before after : List (Answer Error)}
    {fields : HeaderMap}
    (split : trace.answers = before ++ .ready (some (.ok (.trailers fields))) :: after) :
    dataOf before = emittedOf calls ∧ lastTrailers calls = some fields ∧
      ∀ answer ∈ after, answer = .ready none := by
  cases shape with
  | running all => cases all _ (split ▸ List.mem_append_right _ List.mem_cons_self)
  | done all sound yielded handed shape =>
      obtain ⟨rfl, last, rfl⟩ := eq_of_split (shape.symm.trans split) (fun found => nomatch all _ found)
        (fun found => nomatch List.eq_of_mem_replicate found)
      refine ⟨yielded, ?_, fun answer => List.eq_of_mem_replicate⟩
      cases found : lastTrailers calls <;> rw [found] at last <;> cases last
      rfl
  | failed all called failure only shape =>
      obtain ⟨-, last, -⟩ := eq_of_split (shape.symm.trans split) (fun found => nomatch all _ found)
        (fun found => nomatch List.eq_of_mem_replicate found)
      cases last

theorem Shape.failure (shape : trace.Shape writeZero calls) {error : Error} (called : call ∈ calls)
    (failure : call.failure writeZero = some error) :
    ∃ before count, (∀ answer ∈ before, answer.Running) ∧
      trace.answers = before ++ .ready (some (.error error)) :: List.replicate count (.ready none) := by
  cases shape with
  | running all sound | done all sound => cases (sound call called).symm.trans failure
  | failed all _ _ only shape =>
      cases only call called error failure
      exact ⟨_, _, all, shape⟩

theorem Shape.error (shape : trace.Shape writeZero calls) {error : Error}
    (found : .ready (some (.error error)) ∈ trace.answers) :
    ∃ call ∈ calls, call.failure writeZero = some error := by
  cases shape with
  | running all => cases all _ found
  | done all sound yielded handed shape =>
      rw [shape, List.mem_append, List.mem_cons] at found
      rcases found with found | found | found
      · cases all _ found
      · cases last : lastTrailers calls <;> rw [last] at found <;> cases found
      · cases List.eq_of_mem_replicate found
  | failed all called failure only shape =>
      rw [shape, List.mem_append, List.mem_cons] at found
      rcases found with found | found | found
      · cases all _ found
      · cases found
        exact ⟨_, called, failure⟩
      · cases List.eq_of_mem_replicate found

/-- A body that has ended with no trailers left is answered the end alone. -/
theorem exists_of_done (done : trace.body.state = .done) (trailers : trace.body.trailers = none)
    {more : List (Call Error)} {later : Trace Error}
    (run : reached (step writeZero) trace more = some later) :
    ∃ count, later.answers = trace.answers ++ List.replicate count (.ready none) := by
  have kept := @kept_reached _ _ _ trace later (fun later => later.body.state = .done ∧
      later.body.trailers = none ∧
        ∃ count, later.answers = trace.answers ++ List.replicate count (.ready none))
    ⟨done, trailers, 0, (List.append_nil _).symm⟩ (fun state call next ended stepped => ?_) more run
  · exact kept.2.2
  · obtain ⟨done, trailers, count, answers⟩ := ended
    obtain ⟨turned, turns, rfl⟩ := turned_of_step stepped
    cases turns with
    | ends =>
        refine ⟨done, rfl, count + 1, ?_⟩
        rw [answers, trailers, List.replicate_succ', ← List.append_assoc]
        rfl
    | waits waits running | fails failure running => exact absurd done running.1
    | failed state | shutdown state | flush state | writeAll state | write state | innerEnds state
    | innerData state | innerTrailers state => cases done.symm.trans state

theorem Phase.isEndStream (phase : trace.Phase writeZero calls) (conserves : trace.Conserves calls)
    (ended : trace.body.isEndStream = true) :
    dataOf trace.answers = emittedOf calls ∧ trace.handed = readOf calls ∧
      trace.answers.filterMap Answer.trailers = (lastTrailers calls).toList ∧
      ∀ call ∈ calls, call.failure writeZero = none := by
  rw [Streamed.isEndStream, Bool.and_eq_true, decide_eq_true_eq, Option.isNone_iff_eq_none] at ended
  obtain ⟨done, none⟩ := ended
  have yielded := conserves.yielded
  have handed := conserves.handed
  cases phase with
  | held state opened pending buffer =>
      rw [buffer, List.append_nil] at yielded
      rw [pending, List.append_nil] at handed
      refine ⟨yielded, handed, ?_, opened.sound⟩
      rw [← opened.trailers, none]
      exact List.filterMap_eq_nil_iff.mpr fun answer found => by cases opened.running _ found <;> rfl
  | done state sound pending buffer ended trailers answers =>
      rw [buffer, List.append_nil] at yielded
      rw [pending, List.append_nil] at handed
      refine ⟨yielded, handed, ?_, sound⟩
      obtain ⟨running, count, all, shape⟩ := answers
      rw [shape, filterMap_trailers all]
      cases lastTrailers calls <;> rfl
  | feeding state | flushing state | finishing state | failed state => cases state.symm.trans done

/-! ## What a call finds -/

theorem finishing_of_step {answer : Poll (Except Error Unit)} {emitted : Octets}
    (stepped : trace.step writeZero (.shutdown answer emitted) = some next) :
    trace.body.state = .finishing := by
  by_contra other
  simp [step, Streamed.turn, other] at stepped

theorem flushing_of_step {answer : Poll (Except Error Unit)} {emitted : Octets}
    (stepped : trace.step writeZero (.flush answer emitted) = some next) :
    trace.body.state = .flushing := by
  by_contra other
  simp [step, Streamed.turn, other] at stepped

theorem feeding_of_step {answer : Answer Error}
    (stepped : trace.step writeZero (.inner answer) = some next) :
    trace.body.state = .feeding ∧ trace.body.pending = [] := by
  by_contra other
  simp [step, Streamed.turn, other] at stepped

theorem handed_of_pending (run : run writeZero latency calls = some trace)
    (none : trace.body.pending = []) : trace.handed = readOf calls := by
  have handed := (conserves_of_run run).handed
  rwa [none, List.append_nil] at handed

theorem shutdown_of_run {before after : List (Call Error)} {answer : Poll (Except Error Unit)}
    {emitted : Octets} {earlier : Trace Error}
    (runs : run writeZero latency (before ++ .shutdown answer emitted :: after) = some trace)
    (ran : run writeZero latency before = some earlier) :
    earlier.handed = readOf before ∧ .inner (.ready none) ∈ before := by
  obtain ⟨same, next, again, stepped, -⟩ := exists_of_reached runs
  cases ran.symm.trans again
  obtain ⟨pending, ended⟩ := (phase_of_run ran).finishes (finishing_of_step stepped)
  exact ⟨handed_of_pending ran pending, ended⟩

theorem flush_of_run {before after : List (Call Error)} {answer : Poll (Except Error Unit)}
    {emitted : Octets} {earlier : Trace Error}
    (runs : run writeZero latency (before ++ .flush answer emitted :: after) = some trace)
    (ran : run writeZero latency before = some earlier) : earlier.handed = readOf before := by
  obtain ⟨same, next, again, stepped, -⟩ := exists_of_reached runs
  cases ran.symm.trans again
  exact handed_of_pending ran ((phase_of_run ran).flushes (flushing_of_step stepped))

theorem flushed_of_run {before between after : List (Call Error)} {octets : Octets}
    {answer : Answer Error} (nonempty : octets ≠ [])
    (runs : run writeZero .interactive (before ++ .inner (.ready (some (.ok (.data octets)))) ::
      (between ++ .inner answer :: after)) = some trace) :
    ∃ emitted, .flush (.ready (.ok ())) emitted ∈ between := by
  rw [← List.cons_append, ← List.append_assoc] at runs
  obtain ⟨earlier, next, ran, stepped, -⟩ := exists_of_reached runs
  obtain ⟨feeding, pending⟩ := feeding_of_step stepped
  exact (flushes_of_run ran).settled feeding pending before octets between nonempty rfl

theorem Phase.innerFailed (phase : trace.Phase writeZero calls) (conserves : trace.Conserves calls)
    {error : Error} (called : .inner (.ready (some (.error error))) ∈ calls) :
    dataOf trace.answers = emittedOf calls := by
  cases phase with
  | feeding state opened | flushing state opened | finishing state opened | held state opened =>
      cases opened.sound _ called
  | done state sound => cases sound _ called
  | failed state inner =>
      rw [← conserves.yielded, inner error called, List.append_nil]

/-- Streamed encoding neither loses nor repeats anything, whatever its inner body
and its encoder do. -/
theorem lossless_of_run (runs : run writeZero latency calls = some trace) :
    trace.Lossless writeZero latency calls := by
  have phase := phase_of_run runs
  have conserves := conserves_of_run runs
  have shape := shape_of_run runs
  constructor
  · exact ⟨_, conserves.handed⟩
  · rintro before answer emitted after earlier rfl ran
    exact shutdown_of_run runs ran
  · rintro before answer emitted after earlier rfl ran
    exact flush_of_run runs ran
  · rintro rfl before octets between answer after nonempty rfl
    exact flushed_of_run nonempty runs
  · exact fun octets => shape.nonempty
  · exact ⟨_, conserves.yielded⟩
  · exact shape.ended
  · exact fun error => phase.innerFailed conserves
  · exact fun before fields after => shape.trailers
  · exact fun call called error => shape.failure called
  · exact fun error => shape.error
  · intro ended
    obtain ⟨yielded, handed, trailers, sound⟩ := phase.isEndStream conserves ended
    refine ⟨yielded, handed, trailers, sound, fun more later ran => ?_⟩
    rw [run, reached_append, Option.bind_eq_some_iff] at ran
    obtain ⟨same, again, ran⟩ := ran
    cases runs.symm.trans again
    rw [Streamed.isEndStream, Bool.and_eq_true, decide_eq_true_eq,
      Option.isNone_iff_eq_none] at ended
    exact exists_of_done ended.1 ended.2 ran

/-- A run that encodes one frame and trailers. -/
def oneFrame : List (Call Unit) :=
  [.inner .pending, .inner (.ready (some (.ok (.data [1, 2])))), .write (.ready (.ok 1)) [],
    .write (.ready (.ok 1)) [7], .flush .pending [8], .flush (.ready (.ok ())) [9],
    .inner (.ready (some (.ok (.trailers .empty)))), .inner (.ready none),
    .shutdown (.ready (.ok ())) [10], .idle, .idle]

theorem lossless_of_run_oneFrame :
    Lossless () .interactive oneFrame ⟨⟨.interactive, .done, [], [], none⟩,
      [.pending, .pending, .ready (some (.ok (.data [7, 8, 9]))), .ready (some (.ok (.data [10]))),
        .ready (some (.ok (.trailers .empty))), .ready none], [1, 2]⟩ :=
  lossless_of_run (by rfl)

/-- An encoder that fails may keep octets it has emitted. -/
theorem not_yielded_of_failure :
    ¬ ∀ (latency : LatencyMode) (calls : List (Call Unit)) (trace : Trace Unit),
      run () latency calls = some trace → .ready none ∈ trace.answers →
        dataOf trace.answers = emittedOf calls := by
  intro yielded
  have lost := yielded .interactive
    [.inner (.ready (some (.ok (.data [1])))), .write (.ready (.ok 1)) [7],
      .flush (.ready (.error ())) [], .idle]
    ⟨⟨.interactive, .failed, [7], [], none⟩, [.ready (some (.error ())), .ready none], [1]⟩ rfl
    (by simp)
  cases lost

end Trace

end Kynos.Compression

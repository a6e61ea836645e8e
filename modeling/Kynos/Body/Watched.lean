import Kynos.Body.Adapters
import Kynos.Run.Runs

/-!
# Reporting how a body ended

A watched body reports its delivery once, from the poll that finds its end or
from its drop.
-/

namespace Kynos.Body

open Kynos.Http Kynos.Numeral Kynos.Range Kynos.Compression Kynos.Run

variable {Error : Type}

/-- How a body ended. -/
inductive Delivery where
  | complete
  | interrupted
  deriving DecidableEq, Repr

/-- A body that reports how it ended: whether it has yet to, and the reports it
has made. -/
structure Watched (Error : Type) where
  inner : Assembled Error
  armed : Bool
  reports : List Delivery

namespace Watched

/-- A body to be watched. -/
def watching (inner : Assembled Error) : Watched Error :=
  ⟨inner, true, []⟩

/-- Reports a delivery, unless something already reported. -/
def report (this : Watched Error) (delivery : Delivery) : Watched Error :=
  if this.armed then { this with armed := false, reports := this.reports ++ [delivery] } else this

/-- The body after a poll that found an answer and left the inner body so. -/
def pollFrame (this : Watched Error) (polled : Answer (BoxError Error)) (inner : Assembled Error) :
    Watched Error :=
  let this := { this with inner := inner }
  match polled with
  | .ready none => this.report .complete
  | .ready (some (.ok _)) => if this.inner.isEndStream then this.report .complete else this
  | _ => this

/-- What a poll may find, and the body after it. -/
inductive Polls (this : Watched Error) (answer : Answer (BoxError Error)) : Watched Error → Prop where
  | intro {inner : Assembled Error} (polled : this.inner.Polls answer inner) :
      Polls this answer (this.pollFrame answer inner)

/-- The reports made once the body is dropped. -/
def drop (this : Watched Error) : List Delivery :=
  (this.report (if this.inner.isEndStream then .complete else .interrupted)).reports

/-! ## What the report says -/

/-- A body of which every further poll finds the end. -/
def Exhausted (body : Assembled Error) : Prop :=
  ∀ answers last, Steps Assembled.Polls body answers last → ∀ answer ∈ answers, answer = .ready none

theorem exhausted_of_ended {body : Assembled Error} (ended : body.isEndStream = true) :
    Exhausted body := fun answers last run =>
  (@Steps.forall_labels _ _ Assembled.Polls body last answers (fun body => body.isEndStream = true)
    (fun answer => answer = .ready none) (fun _ _ _ ended polled => polled.of_ended ended) ended run).1

/-- A body dropped after some polls reported its delivery once: complete only if
the body came to its end, which a poll found or every further poll would find,
without having yielded an error, and interrupted wherever it yielded one before
its end. -/
structure Truthful (body : Assembled Error) (answers : List (Answer (BoxError Error)))
    (last : Watched Error) : Prop where
  once : ∃ delivery, last.drop = [delivery]
  complete : last.drop = [.complete] → ∃ earlier rest ended, answers = earlier ++ rest ∧
    Steps Polls (watching body) earlier ended ∧ (∀ answer ∈ earlier, answer.error = none) ∧
      (earlier.getLast? = some (.ready none) ∨ Exhausted ended.inner)
  failed : ∀ before error after, answers = before ++ .ready (some (.error error)) :: after →
    .ready none ∉ before → last.drop = [.interrupted]

/-- The first poll that finds the end comes before any that found an error. -/
def EndsFirst (answers : List (Answer (BoxError Error))) : Prop :=
  ∀ before after, answers = before ++ .ready none :: after → .ready none ∉ before →
    ∀ answer ∈ before, answer.error = none

/-- What is known of a watched body after some polls: it has yet to report, a
poll found the end, or a frame came with the end declared. -/
inductive Told (body : Assembled Error) (answers : List (Answer (BoxError Error)))
    (this : Watched Error) : Prop where
  | yet (armed : this.armed = true) (silent : this.reports = []) (noEnd : .ready none ∉ answers)
      (failed : ∀ answer ∈ answers, answer.error ≠ none → this.inner.Unending)
  | found {before rest : List (Answer (BoxError Error))} {ended : Watched Error}
      (armed : this.armed = false) (told : this.reports = [.complete])
      (split : answers = before ++ .ready none :: rest) (first : .ready none ∉ before)
      (run : Steps Polls (watching body) (before ++ [.ready none]) ended)
  | declared {earlier rest : List (Answer (BoxError Error))} {ended : Watched Error}
      (armed : this.armed = false) (told : this.reports = [.complete])
      (split : answers = earlier ++ rest) (run : Steps Polls (watching body) earlier ended)
      (declares : ended.inner.isEndStream = true) (sound : ∀ answer ∈ earlier, answer.error = none)
      (ends : ∀ answer ∈ rest, answer = .ready none) (still : this.inner.isEndStream = true)

theorem report_of_armed {this : Watched Error} (armed : this.armed = true) (delivery : Delivery) :
    this.report delivery = ⟨this.inner, false, this.reports ++ [delivery]⟩ :=
  if_pos armed

theorem report_of_not_armed {this : Watched Error} (armed : this.armed = false)
    (delivery : Delivery) : this.report delivery = this :=
  if_neg (by simp [armed])

theorem pollFrame_of_not_armed {this : Watched Error} (armed : this.armed = false)
    (answer : Answer (BoxError Error)) (inner : Assembled Error) :
    this.pollFrame answer inner = { this with inner := inner } := by
  rw [pollFrame.eq_def]
  simp only
  have silent := @report_of_not_armed Error { this with inner := inner } armed .complete
  split
  next => exact silent
  next =>
    split
    next => exact silent
    next => rfl
  next => rfl

/-- A body that has yet to report does so at the end, or at a frame that declares
it. -/
theorem pollFrame_cases {this : Watched Error} (armed : this.armed = true)
    (answer : Answer (BoxError Error)) (inner : Assembled Error) :
    ((answer = .ready none ∨ inner.isEndStream = true ∧ answer.error = none) ∧
      this.pollFrame answer inner = ⟨inner, false, this.reports ++ [.complete]⟩) ∨
    (answer ≠ .ready none ∧ this.pollFrame answer inner = { this with inner := inner }) := by
  have reports := @report_of_armed Error { this with inner := inner } armed .complete
  rw [pollFrame.eq_def]
  simp only
  split
  next => exact .inl ⟨.inl rfl, reports⟩
  next =>
    split
    next ended => exact .inl ⟨.inr ⟨ended, rfl⟩, reports⟩
    next => exact .inr ⟨nofun, rfl⟩
  next noEnd _ => exact .inr ⟨noEnd, rfl⟩

variable {body : Assembled Error} {answers : List (Answer (BoxError Error))}
  {answer : Answer (BoxError Error)} {this next : Watched Error}

theorem Told.step (run : Steps Polls (watching body) answers this) (told : Told body answers this)
    (polls : this.Polls answer next) : Told body (answers ++ [answer]) next := by
  have more : Steps Polls (watching body) (answers ++ [answer]) next := run.concat polls
  obtain @⟨inner, polled⟩ := polls
  cases told with
  | found armed told split first run =>
      rw [pollFrame_of_not_armed armed]
      exact .found armed told (by rw [split, List.append_assoc]; rfl) first run
  | declared armed told split run declares sound ends still =>
      obtain ⟨isEnd, stillEnded⟩ := polled.of_ended still
      rw [pollFrame_of_not_armed armed]
      exact .declared armed told (by rw [split, List.append_assoc]) run declares sound
        (List.forall_mem_append.mpr ⟨ends, List.forall_mem_singleton.mpr isEnd⟩) stillEnded
  | yet armed silent noEnd failed =>
      have kept : ∀ answer ∈ answers, answer.error ≠ none → inner.Unending :=
        fun answer answered error => polled.unending (failed answer answered error)
      rcases pollFrame_cases armed answer inner with ⟨ends, reports⟩ | ⟨notEnd, same⟩
      · rw [reports, silent] at more ⊢
        rcases ends with rfl | ⟨declares, noError⟩
        · exact .found rfl rfl rfl noEnd more
        · have sound : ∀ other ∈ answers, other.error = none := fun other answered => by
            by_contra error
            cases declares.symm.trans (kept other answered error).isEndStream
          exact .declared rfl rfl (List.append_nil _).symm more declares
            (List.forall_mem_append.mpr ⟨sound, List.forall_mem_singleton.mpr noError⟩) nofun declares
      · rw [same]
        refine .yet armed silent ?_ fun other answered error => ?_
        · rw [List.mem_append, List.mem_singleton, not_or]
          exact ⟨noEnd, notEnd.symm⟩
        · rcases List.mem_append.mp answered with earlier | last
          · exact kept other earlier error
          · obtain rfl := List.mem_singleton.mp last
            obtain ⟨failure, rfl⟩ := Answer.exists_of_error_ne_none error
            exact polled.of_error rfl

theorem told_of_run (run : Steps Polls (watching body) answers this) : Told body answers this := by
  induction run with
  | nil => exact .yet rfl rfl nofun nofun
  | concat earlier polls told => exact told.step earlier polls

/-! ## What follows from when the end is found -/

theorem drop_of_armed (armed : this.armed = true) (silent : this.reports = []) :
    this.drop = [if this.inner.isEndStream then .complete else .interrupted] := by
  rw [drop, report_of_armed armed, silent]
  rfl

theorem drop_of_told (armed : this.armed = false) (told : this.reports = [.complete]) :
    this.drop = [.complete] := by
  rw [drop, report_of_not_armed armed, told]

/-- Where one item comes first at two places, these are the same. -/
theorem eq_of_first {Item : Type} {item : Item} {before rest other after : List Item}
    (split : before ++ item :: rest = other ++ item :: after) (first : item ∉ before)
    (firstOther : item ∉ other) : other = before := by
  rcases List.append_eq_append_iff.mp split with ⟨more, rfl, tail⟩ | ⟨more, rfl, tail⟩ <;>
    cases more with
    | nil => simp
    | cons head more =>
        obtain ⟨rfl, -⟩ := List.cons_eq_cons.mp tail
        simp at first firstOther

/-- What comes with no `item` before it comes before the first `item`. -/
theorem mem_of_split {Item : Type} {item found : Item} {before rest other after : List Item}
    (split : before ++ item :: rest = other ++ found :: after) (notBefore : item ∉ other)
    (different : found ≠ item) : found ∈ before := by
  rcases List.append_eq_append_iff.mp split with ⟨more, rfl, tail⟩ | ⟨more, rfl, tail⟩ <;>
    cases more with
    | nil => exact absurd (List.cons_eq_cons.mp tail).1 (by simp [different, Ne.symm different])
    | cons head more =>
        obtain ⟨rfl, -⟩ := List.cons_eq_cons.mp tail
        simp at notBefore ⊢

/-- An error is no end. -/
theorem truthful_of_yet (run : Steps Polls (watching body) answers this)
    (armed : this.armed = true) (silent : this.reports = [])
    (failed : ∀ answer ∈ answers, answer.error ≠ none → this.inner.Unending) :
    Truthful body answers this := by
  refine ⟨⟨_, drop_of_armed armed silent⟩, fun complete => ?_, fun before error after split _ => ?_⟩
  · rw [drop_of_armed armed silent, List.cons_eq_cons] at complete
    have ended : this.inner.isEndStream = true := by
      by_contra going
      rw [if_neg going] at complete
      cases complete.1
    refine ⟨answers, [], this, (List.append_nil _).symm, run, fun answer answered => ?_,
      .inr (exhausted_of_ended ended)⟩
    by_contra error
    cases ended.symm.trans (failed answer answered error).isEndStream
  · have going := (failed (.ready (some (.error error))) (by simp [split]) nofun).isEndStream
    rw [drop_of_armed armed silent, if_neg (by simp [going])]

theorem truthful_of_found {before rest : List (Answer (BoxError Error))} {ended : Watched Error}
    (armed : this.armed = false) (told : this.reports = [.complete])
    (split : answers = before ++ .ready none :: rest) (first : .ready none ∉ before)
    (run : Steps Polls (watching body) (before ++ [.ready none]) ended) :
    Truthful body answers this ↔ EndsFirst answers := by
  have dropped := drop_of_told armed told
  constructor
  · rintro ⟨-, -, failed⟩ other after again firstOther answer answered
    obtain rfl := eq_of_first (split.symm.trans again) first firstOther
    by_contra error
    obtain ⟨failure, rfl⟩ := Answer.exists_of_error_ne_none error
    obtain ⟨early, late, rfl⟩ := List.append_of_mem answered
    have interrupted := failed early failure (late ++ .ready none :: rest) (by simp [split])
      (fun member => first (List.mem_append_left _ member))
    cases dropped.symm.trans interrupted
  · intro endsFirst
    have sound := endsFirst before rest split first
    refine ⟨⟨_, dropped⟩, fun _ => ⟨before ++ [.ready none], rest, ended, by simp [split], run, ?_,
      .inl (by simp)⟩, fun other error after again notBefore => ?_⟩
    · exact List.forall_mem_append.mpr ⟨sound, List.forall_mem_singleton.mpr rfl⟩
    · cases sound _ (mem_of_split (split.symm.trans again) notBefore nofun)

theorem truthful_of_declared {earlier rest : List (Answer (BoxError Error))} {ended : Watched Error}
    (armed : this.armed = false) (told : this.reports = [.complete])
    (split : answers = earlier ++ rest) (run : Steps Polls (watching body) earlier ended)
    (declares : ended.inner.isEndStream = true) (sound : ∀ answer ∈ earlier, answer.error = none)
    (ends : ∀ answer ∈ rest, answer = .ready none) :
    Truthful body answers this ∧ EndsFirst answers := by
  have all : ∀ answer ∈ answers, answer.error = none := by
    rw [split]
    refine List.forall_mem_append.mpr ⟨sound, fun answer answered => ?_⟩
    rw [ends answer answered]
    rfl
  refine ⟨⟨⟨_, drop_of_told armed told⟩, fun _ => ?_, fun before error after again _ => ?_⟩,
    fun before after again _ answer answered => all answer (by simp [again, answered])⟩
  · exact ⟨earlier, rest, ended, split, run, sound, .inr (exhausted_of_ended declares)⟩
  · cases all (.ready (some (.error error))) (by simp [again])

/-- Every run is reported truthfully exactly where the end, if a poll found it,
was found before any error. -/
theorem truthful_iff (run : Steps Polls (watching body) answers this) :
    Truthful body answers this ↔ EndsFirst answers := by
  cases told_of_run run with
  | yet armed silent noEnd failed =>
      refine iff_of_true (truthful_of_yet run armed silent failed) fun before after split => ?_
      exact absurd (by simp [split]) noEnd
  | found armed told split first run => exact truthful_of_found armed told split first run
  | declared armed told split run declares sound ends =>
      obtain ⟨truthful, endsFirst⟩ := truthful_of_declared armed told split run declares sound ends
      exact iff_of_true truthful endsFirst

/-- A body that yields an octet and then fails, polled until it has failed. -/
theorem truthful_iff_failed :
    Truthful (.failedAfter (some [120]) (some (.boxed ())))
      [.ready (some (.ok (.data [120]))), .ready (some (.error (.boxed ())))]
      ⟨.failedAfter none none, true, []⟩ ↔
    EndsFirst [.ready (some (.ok (.data [120]))), .ready (some (.error (BoxError.boxed ())))] :=
  truthful_iff (((Steps.nil.concat ⟨.arrived [120] _⟩).concat ⟨.failedAfter _⟩))

/-- A body that yields an octet and then fails is reported complete once it is
polled on. -/
theorem not_truthful_of_polled_on :
    ¬ ∀ (body : Assembled Unit) (answers : List (Answer (BoxError Unit))) (last : Watched Unit),
      Steps Polls (watching body) answers last → Truthful body answers last := by
  intro truthful
  have run : Steps Polls (watching (.failedAfter (some [120]) (some (BoxError.boxed ()))))
      [.ready (some (.ok (.data [120]))), .ready (some (.error (.boxed ()))), .ready none]
      ⟨.failedAfter none none, false, [.complete]⟩ :=
    (((Steps.nil.concat ⟨.arrived [120] _⟩).concat ⟨.failedAfter _⟩).concat ⟨.failedAfter _⟩)
  have interrupted := (truthful _ _ _ run).failed [.ready (some (.ok (.data [120])))] (.boxed ())
    [.ready none] rfl (by simp)
  cases interrupted

end Watched

end Kynos.Body

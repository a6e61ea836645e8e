import Kynos.JsonLines.Whole

/-!
# Chunking does not matter

The reader answers with the records of the whole body, however it arrives: at
every poll, what it holds and what is still to arrive make up the body that is
left to be read.
-/

namespace Kynos.JsonLines

open Kynos.Http
open Kynos.Word
open Document

universe u

variable {V : Type u} {document : Document V}

namespace Records

/-- What a reader knows of its buffer: no delimiter stands where it searched. -/
structure Valid (records : Records) : Prop where
  inside : records.scanned ≤ records.buffer.length
  searched : ∀ octet ∈ (records.buffer.take records.scanned).drop records.framing.lead.length,
    octet ≠ records.framing.delimiter

theorem valid_new (limit : Nat) (framing : Framing) : (new limit framing).Valid :=
  ⟨Nat.zero_le _, by simp [new]⟩

/-- A fresh search knows nothing. -/
theorem valid_of_scanned_eq_zero {records : Records} (fresh : records.scanned = 0) :
    records.Valid :=
  ⟨by omega, by simp [fresh]⟩

variable {records : Records} {piece : Octets}

/-- Octets that arrive are not searched yet. -/
theorem Valid.append (valid : records.Valid) (octets : Octets) :
    { records with buffer := records.buffer ++ octets }.Valid := by
  refine ⟨?_, ?_⟩
  · have inside := valid.inside
    simp only [List.length_append]
    omega
  · rw [List.take_append_of_le_length valid.inside]
    exact valid.searched

/-! ## One search -/

/-- The search finds the delimiter after the first piece. -/
theorem found_piece (valid : records.Valid) {rest : Octets}
    (buffer : records.buffer =
      records.framing.lead ++ piece ++ records.framing.delimiter :: rest)
    (plain : records.framing.delimiter ∉ piece) :
    records.found = some (records.framing.lead.length + piece.length) := by
  have scanned : records.scanned ≤ records.framing.lead.length + piece.length := by
    by_contra past
    have whole : records.buffer = records.framing.lead ++ (piece ++ [records.framing.delimiter]) ++
        rest := by
      rw [buffer]
      simp
    have within : (records.framing.lead ++ (piece ++ [records.framing.delimiter])).length ≤
        records.scanned := by
      simp only [List.length_append, List.length_singleton]
      omega
    refine valid.searched records.framing.delimiter ?_ rfl
    rw [whole, List.take_append, List.take_of_length_le within, List.append_assoc, List.drop_left]
    simp
  rw [found]
  generalize starts : max records.scanned records.framing.lead.length = start
  have cut : records.buffer.drop start =
      piece.drop (start - records.framing.lead.length) ++ records.framing.delimiter :: rest := by
    rw [buffer, List.drop_append_of_le_length (by rw [List.length_append]; omega), List.drop_append,
      List.drop_eq_nil_of_le (by omega), List.nil_append]
  have notBefore : ∀ octet ∈ piece.drop (start - records.framing.lead.length),
      (octet == records.framing.delimiter) = false := by
    intro octet member
    rw [beq_eq_false_iff_ne]
    rintro rfl
    exact plain (List.mem_of_mem_drop member)
  rw [cut, findIdx?_append_cons notBefore (beq_self_eq_true _), Option.map_some, List.length_drop]
  congr 1
  omega

/-- The search finds no delimiter where there is none. -/
theorem found_last (buffer : records.buffer = records.framing.lead ++ piece)
    (plain : records.framing.delimiter ∉ piece) : records.found = none := by
  rw [found, Option.map_eq_none_iff, List.findIdx?_eq_none_iff]
  generalize starts : max records.scanned records.framing.lead.length = start
  intro octet member
  rw [buffer, List.drop_append, List.drop_eq_nil_of_le (by omega), List.nil_append] at member
  rw [beq_eq_false_iff_ne]
  rintro rfl
  exact plain (List.mem_of_mem_drop member)

/-- The frame of the first piece, and the reader without it. -/
theorem takeFrame_piece (valid : records.Valid) {rest : Octets}
    (buffer : records.buffer =
      records.framing.lead ++ piece ++ records.framing.delimiter :: rest)
    (plain : records.framing.delimiter ∉ piece) :
    records.takeFrame = some (records.framing.lead ++ piece,
      { records with buffer := records.framing.lead ++ rest, scanned := 0 }) := by
  rw [takeFrame, found_piece valid buffer plain]
  obtain ⟨limit, octets, scanned, index, framing, state⟩ := records
  simp only at buffer ⊢
  subst octets
  rw [← List.length_append]
  cases framing with
  | lines => simp [Framing.lead, List.take_take]
  | sequence => simp [Framing.lead, Framing.delimiter]

/-- The frame of what is left of a body that ended. -/
theorem takeFrame_last (buffer : records.buffer = records.framing.lead ++ piece)
    (plain : records.framing.delimiter ∉ piece) :
    records.takeFrame = if records.state = .ended then
      some (records.buffer, { records with buffer := [], scanned := 0 }) else none := by
  rw [takeFrame, found_last buffer plain]

/-! ## One record -/

/-- The first piece: refused past the limit, left out where it is blank. -/
theorem nextFrame_piece (valid : records.Valid) {rest : Octets}
    (buffer : records.buffer =
      records.framing.lead ++ piece ++ records.framing.delimiter :: rest)
    (plain : records.framing.delimiter ∉ piece) :
    records.nextFrame =
      if records.limit < piece.length then
        (some (.error (.tooLarge records.limit)), { records with state := .fused })
      else if Octets.trimAscii piece = [] then
        { records with buffer := records.framing.lead ++ rest, scanned := 0 }.nextFrame
      else
        (some (.ok (Octets.trimAscii piece)),
          { records with buffer := records.framing.lead ++ rest, scanned := 0 }) := by
  have nonempty : records.buffer ≠ [] := by simp [buffer]
  have led : ¬ (records.framing = .sequence ∧ records.buffer.head? ≠ some recordSeparator) := by
    rintro ⟨framing, unled⟩
    rw [buffer, framing] at unled
    exact unled rfl
  have held : records.found.getD records.buffer.length - records.framing.lead.length =
      piece.length := by
    rw [found_piece valid buffer plain, Option.getD_some, Nat.add_sub_cancel_left]
  have cut : (records.framing.lead ++ piece).drop (min records.framing.lead.length
      (records.framing.lead ++ piece).length) = piece := by
    rw [min_eq_left (by simp), List.drop_left]
  rw [nextFrame, dif_neg nonempty, if_neg led]
  simp only [held]
  split
  · rfl
  · split
    · rename_i none
      rw [takeFrame_piece valid buffer plain] at none
      contradiction
    · rename_i frame left taken
      rw [takeFrame_piece valid buffer plain, Option.some.injEq, Prod.mk.injEq] at taken
      obtain ⟨rfl, rfl⟩ := taken
      rw [cut]

/-- What is left of a body: refused past the limit, and a record only where the
body ended. -/
theorem nextFrame_last (nonempty : records.buffer ≠ [])
    (buffer : records.buffer = records.framing.lead ++ piece)
    (plain : records.framing.delimiter ∉ piece) :
    records.nextFrame =
      if records.limit < piece.length then
        (some (.error (.tooLarge records.limit)), { records with state := .fused })
      else if records.state = .ended then
        if Octets.trimAscii piece = [] then
          (none, { records with buffer := [], scanned := 0 })
        else
          (some (.ok (Octets.trimAscii piece)), { records with buffer := [], scanned := 0 })
      else
        (none, { records with scanned := records.buffer.length }) := by
  have led : ¬ (records.framing = .sequence ∧ records.buffer.head? ≠ some recordSeparator) := by
    rintro ⟨framing, unled⟩
    rw [buffer, framing] at unled
    exact unled rfl
  have held : records.found.getD records.buffer.length - records.framing.lead.length =
      piece.length := by
    rw [found_last buffer plain, Option.getD_none, buffer, List.length_append,
      Nat.add_sub_cancel_left]
  have cut : records.buffer.drop (min records.framing.lead.length records.buffer.length) =
      piece := by
    rw [buffer, min_eq_left (by simp), List.drop_left]
  have finished : ∀ records : Records, { records with buffer := [] }.nextFrame =
      (none, { records with buffer := [] }) := by
    intro records
    rw [nextFrame, dif_pos rfl]
  rw [nextFrame, dif_neg nonempty, if_neg led]
  simp only [held]
  split
  · rfl
  · split
    · rename_i none
      rw [takeFrame_last buffer plain] at none
      rw [if_neg (by intro ended; simp [ended] at none)]
    · rename_i frame left taken
      rw [takeFrame_last buffer plain] at taken
      split at taken
      · rename_i ended
        rw [Option.some.injEq, Prod.mk.injEq] at taken
        obtain ⟨rfl, rfl⟩ := taken
        rw [cut, if_pos ended, finished { records with scanned := 0 }]
      · contradiction

/-- A body that does not begin as its framing has it. -/
theorem nextFrame_of_not_lead (nonempty : records.buffer ≠ [])
    (unled : ¬ records.framing.lead.isPrefixOf records.buffer) :
    records.nextFrame =
      (some (.error (.badSyntax
        "an `application/json-seq` body must begin with a record separator".toList)),
        { records with state := .fused }) := by
  have isSequence : records.framing = .sequence ∧
      records.buffer.head? ≠ some recordSeparator := by
    cases framing : records.framing with
    | lines =>
        rw [framing] at unled
        exact absurd rfl unled
    | sequence =>
        refine ⟨rfl, fun head => unled ?_⟩
        obtain ⟨rest, buffer⟩ := List.head?_eq_some_iff.mp head
        rw [framing, buffer]
        rfl
  rw [nextFrame, dif_neg nonempty, if_pos isSequence]

/-- A buffer is empty, does not begin as its framing has it, or begins with a
piece, the last or one before a delimiter. -/
theorem buffer_cases (records : Records) :
    records.buffer = [] ∨
    (records.buffer ≠ [] ∧ ¬ records.framing.lead.isPrefixOf records.buffer) ∨
    (∃ piece rest, records.framing.delimiter ∉ piece ∧
      records.buffer = records.framing.lead ++ piece ++ records.framing.delimiter :: rest) ∨
    ∃ piece, records.framing.delimiter ∉ piece ∧ records.buffer ≠ [] ∧
      records.buffer = records.framing.lead ++ piece := by
  by_cases empty : records.buffer = []
  · exact .inl empty
  · by_cases led : records.framing.lead.isPrefixOf records.buffer
    · obtain ⟨octets, buffer⟩ := List.isPrefixOf_iff_prefix.mp led
      by_cases more : records.framing.delimiter ∈ octets
      · obtain ⟨piece, rest, rfl, plain⟩ := List.eq_append_cons_of_mem more
        exact .inr (.inr (.inl ⟨piece, rest, plain, by rw [← buffer, List.append_assoc]⟩))
      · exact .inr (.inr (.inr ⟨octets, more, empty, buffer.symm⟩))
    · exact .inr (.inl ⟨empty, led⟩)

/-- What is left to be read of a body, once `more` has arrived. -/
def left (document : Document V) (records : Records) (more : Octets)
    (ending : Option TransportError) : List (Except BodyRejection V) :=
  document.readWhole records.framing records.limit ending records.index (records.buffer ++ more)

/-- What one search answers, whatever is still to arrive of a body that did not
end. -/
inductive Found (document : Document V) (records : Records) (more : Octets)
    (ending : Option TransportError) : Option (Except BodyRejection Octets) × Records → Prop where
  | record (record : Octets) (after : Records) (valid : after.Valid)
      (state : after.state = records.state)
      (shorter : after.buffer.length < records.buffer.length)
      (index : after.index = records.index)
      (read : records.left document more ending =
        document.read records.index record ::
          if document.ends record then [] else
            { after with index := after.index + 1 }.left document more ending) :
      Found document records more ending (some (.ok record), after)
  | refused (rejection : BodyRejection) (after : Records) (valid : after.Valid)
      (fused : after.state = .fused)
      (shorter : after.buffer.length ≤ records.buffer.length)
      (read : records.left document more ending = [.error rejection]) :
      Found document records more ending (some (.error rejection), after)
  | none (after : Records) (valid : after.Valid) (state : after.state = records.state)
      (shorter : after.buffer.length ≤ records.buffer.length)
      (read : records.left document more ending = after.left document more ending)
      (finished : records.state = .ended → after.buffer = [])
      (unfinished : ∀ error, after.left document [] (some error) = [.error (.readFailed error)]) :
      Found document records more ending (none, after)

/-- A search that goes on in a shorter buffer with as much left to be read. -/
theorem Found.of_left {document : Document V} {records rest : Records} {more : Octets}
    {ending : Option TransportError} {answer : Option (Except BodyRejection Octets) × Records}
    (found : Found document rest more ending answer)
    (same : records.left document more ending = rest.left document more ending)
    (index : rest.index = records.index) (state : rest.state = records.state)
    (shorter : rest.buffer.length ≤ records.buffer.length) : Found document records more ending answer := by
  cases found with
  | record record after valid afterState afterShorter afterIndex read =>
      exact .record record after valid (afterState.trans state) (by omega)
        (afterIndex.trans index) (by rw [same, read, index])
  | refused rejection after valid fused afterShorter read =>
      exact .refused rejection after valid fused (by omega) (same.trans read)
  | none after valid afterState afterShorter read finished unfinished =>
      exact .none after valid (afterState.trans state) (by omega) (same.trans read)
        (fun ended => finished (state.trans ended)) unfinished

/-- A search finds what is left to be read. -/
theorem found_nextFrame (document : Document V) (records : Records) (valid : records.Valid)
    {more : Octets} {ending : Option TransportError}
    (whole : records.state = .ended → more = [] ∧ ending = none) :
    Found document records more ending records.nextFrame := by
  induction size : records.buffer.length using Nat.strong_induction_on generalizing records with
  | _ size ih =>
      rcases records.buffer_cases with empty | ⟨nonempty, unled⟩ | ⟨piece, rest, plain, buffer⟩ |
        ⟨piece, plain, nonempty, buffer⟩
      · rw [nextFrame, dif_pos empty]
        refine .none records valid rfl (Nat.le_refl _) rfl (fun _ => empty) fun error => ?_
        simp [left, empty, readWhole]
      · rw [nextFrame_of_not_lead nonempty unled]
        have unledMore : ¬ records.framing.lead.isPrefixOf (records.buffer ++ more) := by
          intro led
          have short : records.framing.lead.length ≤ records.buffer.length := by
            have positive := List.length_pos_of_ne_nil nonempty
            cases framing : records.framing <;> simp [Framing.lead]
            omega
          exact unled (List.isPrefixOf_iff_prefix.mpr (List.prefix_of_prefix_length_le
            (List.isPrefixOf_iff_prefix.mp led) (List.prefix_append _ _) short))
        exact .refused _ _ ⟨valid.inside, valid.searched⟩ rfl (Nat.le_refl _)
          (readWhole_of_not_lead (by simp [nonempty]) unledMore)
      · have readPiece := @readWhole_piece _ document records.framing records.limit records.index
          ending _ plain (rest ++ more)
        have together : records.buffer ++ more =
            records.framing.lead ++ piece ++ records.framing.delimiter :: (rest ++ more) := by
          rw [buffer]
          simp
        have shorter : (records.framing.lead ++ rest).length < records.buffer.length := by
          rw [buffer]
          simp only [List.length_append, List.length_cons]
          omega
        rw [nextFrame_piece valid buffer plain]
        split
        · rename_i large
          refine .refused _ _ ⟨valid.inside, valid.searched⟩ rfl (Nat.le_refl _) ?_
          rw [left, together, readPiece, if_pos large]
        · rename_i within
          split
          · rename_i blank
            have fresh : { records with buffer := records.framing.lead ++ rest, scanned := 0 }.Valid :=
              valid_of_scanned_eq_zero rfl
            have next := ih _ (size ▸ shorter) _ fresh whole rfl
            refine next.of_left ?_ rfl rfl (Nat.le_of_lt shorter)
            rw [left, together, readPiece, if_neg within, if_pos blank, left, List.append_assoc]
          · rename_i present
            refine .record _ _ (valid_of_scanned_eq_zero rfl) rfl shorter rfl ?_
            rw [left, together, readPiece, if_neg within, if_neg present, left, List.append_assoc]
      · rw [nextFrame_last nonempty buffer plain]
        split
        · rename_i large
          refine .refused _ _ ⟨valid.inside, valid.searched⟩ rfl (Nat.le_refl _) ?_
          rw [left, buffer]
          exact readWhole_of_large plain large more
        · rename_i within
          split
          · rename_i ended
            obtain ⟨rfl, rfl⟩ := whole ended
            have isLeft : records.left document [] none =
                document.readLast records.limit none records.index piece := by
              rw [left, List.append_nil, buffer, readWhole_last plain]
            have positive : 0 < records.buffer.length := List.length_pos_of_ne_nil nonempty
            split
            · rename_i blank
              refine .none _ (valid_of_scanned_eq_zero rfl) rfl (Nat.zero_le _) ?_ (fun _ => rfl)
                fun error => ?_
              · rw [isLeft, readLast.eq_def, if_neg within]
                simp [blank, left, readWhole]
              · simp [left, readWhole]
            · rename_i present
              refine .record _ _ (valid_of_scanned_eq_zero rfl) rfl positive rfl ?_
              rw [isLeft, readLast.eq_def, if_neg within]
              simp [present, left, readWhole]
          · rename_i going
            refine .none _ ⟨Nat.le_refl _, ?_⟩ rfl (Nat.le_refl _) rfl
              (fun ended => absurd ended going) fun error => ?_
            · rintro octet member rfl
              simp only [List.take_length, buffer, List.drop_left] at member
              exact plain member
            · rw [left, List.append_nil, buffer, readWhole_last plain, readLast.eq_def,
                if_neg within]

/-! ## One poll -/

/-- What a reader and the body it reads still have to give. -/
def remaining (document : Document V) (records : Records) (body : List Arrival) :
    List (Except BodyRejection V) :=
  match records.state with
  | .reading => records.left document (arrived body).1 (arrived body).2
  | .ended => records.left document [] none
  | .fused => []

/-- How many states a reader may still go through. -/
def weight : State → Nat
  | .reading => 2
  | .ended => 1
  | .fused => 0

theorem weight_fused : weight .fused = 0 :=
  rfl

theorem weight_pos {state : State} (going : state ≠ .fused) : 0 < weight state := by
  cases state with
  | reading => decide
  | ended => decide
  | fused => exact absurd rfl going

/-- How many octets a body offers in all. -/
def offered : List Arrival → Nat
  | [] => 0
  | .chunk octets :: body => octets.length + offered body
  | _ :: body => offered body

/-- How much a reader and its body may still do. -/
def size (records : Records) (body : List Arrival) : Nat :=
  records.buffer.length + offered body + body.length + weight records.state

/-- What a poll answers: the next record, or that there is none, or that
nothing arrived yet. -/
inductive Answered (document : Document V) (records : Records) (body : List Arrival) :
    Poll V × Records × List Arrival → Prop where
  | ready (item : Except BodyRejection V) (after : Records) (rest : List Arrival)
      (valid : after.Valid) (smaller : after.size rest < records.size body)
      (read : records.remaining document body = item :: after.remaining document rest) :
      Answered document records body (.ready (some item), after, rest)
  | finished (after : Records) (rest : List Arrival)
      (read : records.remaining document body = []) :
      Answered document records body (.ready none, after, rest)
  | pending (after : Records) (rest : List Arrival) (valid : after.Valid)
      (smaller : after.size rest < records.size body)
      (read : records.remaining document body = after.remaining document rest) :
      Answered document records body (.pending, after, rest)

/-- `decode` reads a record, and ends the stream where it is no JSON. -/
theorem decode_eq (document : Document V) (records : Records) (record : Octets) :
    records.decode document record =
      (document.read records.index record,
        { records with
          index := records.index + 1
          state := if document.ends record then .fused else records.state }) := by
  rw [decode, Document.read, Document.ends]
  cases document.fromSlice record with
  | error failure => cases isSchema : failure.isSchemaFailure <;> simp [isSchema]
  | ok value => rfl

/-- A poll that goes on with as much to be read. -/
theorem Answered.of_remaining {document : Document V} {records after : Records}
    {body rest : List Arrival} {answer : Poll V × Records × List Arrival}
    (answered : Answered document after rest answer)
    (same : records.remaining document body = after.remaining document rest)
    (smaller : after.size rest ≤ records.size body) : Answered document records body answer := by
  cases answered with
  | ready item last left valid less read =>
      exact .ready item last left valid (by omega) (same.trans read)
  | finished last left read => exact .finished last left (same.trans read)
  | pending last left valid less read => exact .pending last left valid (by omega) (same.trans read)

/-- A search that finds no record in a body that goes on. -/
theorem of_nextFrame_none (document : Document V) {records after : Records} (valid : records.Valid)
    (next : records.nextFrame = (none, after)) (going : records.state ≠ .fused)
    (notEnded : after.state ≠ .ended) :
    records.state = .reading ∧ after.state = .reading ∧ after.Valid ∧
      after.buffer.length ≤ records.buffer.length ∧
      (∀ more ending, records.left document more ending = after.left document more ending) ∧
      ∀ error, after.left document [] (some error) = [.error (.readFailed error)] := by
  have state := state_nextFrame next
  have reading : records.state = .reading := by
    cases known : records.state with
    | reading => rfl
    | ended => exact absurd (state.trans known) notEnded
    | fused => exact absurd known going
  have searched : ∀ more ending, after.Valid ∧ after.buffer.length ≤ records.buffer.length ∧
      records.left document more ending = after.left document more ending ∧
      ∀ error, after.left document [] (some error) = [.error (.readFailed error)] := by
    intro more ending
    have found := @found_nextFrame _ document records valid more ending (by simp [reading])
    rw [next] at found
    cases found with
    | none _ afterValid _ shorter read _ unfinished => exact ⟨afterValid, shorter, read, unfinished⟩
  obtain ⟨afterValid, shorter, -, unfinished⟩ := searched [] none
  exact ⟨reading, state.trans reading, afterValid, shorter,
    fun more ending => (searched more ending).2.2.1, unfinished⟩

/-- A reader that goes on has as much left as it finds, whatever it is told
arrives: what the body holds, or nothing once it ended. -/
theorem exists_remaining (document : Document V) {records : Records} (body : List Arrival)
    (going : records.state ≠ .fused) :
    ∃ more ending, (records.state = .ended → more = [] ∧ ending = none) ∧
      ∀ after : Records, after.state = records.state →
        after.remaining document body = after.left document more ending := by
  cases state : records.state with
  | reading =>
      refine ⟨(arrived body).1, (arrived body).2, by simp, fun after same => ?_⟩
      rw [remaining, same]
  | ended =>
      refine ⟨[], none, fun _ => ⟨rfl, rfl⟩, fun after same => ?_⟩
      rw [remaining, same]
  | fused => exact absurd state going

/-- A poll answers what is left to be read. -/
theorem answered_pollRecord (document : Document V) (records : Records) (body : List Arrival)
    (valid : records.Valid) :
    Answered document records body (records.pollRecord document body) := by
  fun_induction pollRecord document records body with
  | case1 records body fused =>
      exact .finished _ _ (by rw [remaining, fused])
  | case2 records body going record after next item decoded read =>
      obtain ⟨more, ending, whole, left⟩ := exists_remaining document body going
      have found := found_nextFrame document records valid whole
      rw [next] at found
      cases found with
      | record _ _ afterValid state shorter index readRecord =>
          rw [decode_eq, Prod.mk.injEq] at read
          obtain ⟨rfl, rfl⟩ := read
          refine .ready _ _ _ ⟨afterValid.inside, afterValid.searched⟩ ?_ ?_
          · simp only [size]
            split
            · have positive := weight_pos going
              rw [weight_fused]
              omega
            · rw [state]
              omega
          · rw [left records rfl, readRecord, index]
            by_cases ends : document.ends record
            · simp [remaining, ends]
            · simp only [ends, Bool.false_eq_true, if_false, ← index]
              rw [left _ (by exact state)]
  | case3 records body going rejection after next =>
      obtain ⟨more, ending, whole, left⟩ := exists_remaining document body going
      have found := found_nextFrame document records valid whole
      rw [next] at found
      cases found with
      | refused _ _ afterValid fused shorter readRecord =>
          refine .ready _ _ _ afterValid ?_ ?_
          · have positive := weight_pos going
            simp only [size, fused, weight_fused]
            omega
          · rw [left records rfl, readRecord, remaining, fused]
  | case4 records body going after next ended =>
      obtain ⟨more, ending, whole, left⟩ := exists_remaining document body going
      have found := found_nextFrame document records valid whole
      rw [next] at found
      cases found with
      | none _ afterValid state shorter readRecord finished unfinished =>
          have recordsEnded : records.state = .ended := state.symm.trans ended
          obtain ⟨rfl, rfl⟩ := whole recordsEnded
          refine .finished _ _ ?_
          rw [left records rfl, readRecord, Records.left, finished recordsEnded]
          rfl
  | case5 records going after next reading body =>
      obtain ⟨isReading, afterReading, afterValid, shorter, readRecord, -⟩ :=
        of_nextFrame_none document valid next going reading
      refine .pending _ _ afterValid ?_ ?_
      · simp only [size, offered, isReading, afterReading, List.length_cons]
        omega
      · rw [remaining, remaining, isReading, afterReading]
        exact readRecord _ _
  | case6 records going after next reading octets body ih =>
      obtain ⟨isReading, afterReading, afterValid, shorter, readRecord, -⟩ :=
        of_nextFrame_none document valid next going reading
      refine (ih (afterValid.append octets)).of_remaining ?_ ?_
      · rw [remaining, remaining, isReading, afterReading]
        simp only
        rw [readRecord, Records.left, Records.left, arrived, List.append_assoc]
      · simp only [size, offered, isReading, afterReading, List.length_cons, List.length_append]
        omega
  | case7 records going after next reading error body =>
      obtain ⟨isReading, afterReading, afterValid, shorter, readRecord, unfinished⟩ :=
        of_nextFrame_none document valid next going reading
      refine .ready _ _ _ ⟨afterValid.inside, afterValid.searched⟩ ?_ ?_
      · have positive := weight_pos going
        simp only [size, offered, weight_fused, List.length_cons]
        omega
      · rw [remaining, remaining, isReading]
        exact (readRecord _ _).trans (unfinished error)
  | case8 records going after next reading ih =>
      obtain ⟨isReading, afterReading, afterValid, shorter, readRecord, -⟩ :=
        of_nextFrame_none document valid next going reading
      refine (ih ⟨afterValid.inside, afterValid.searched⟩).of_remaining ?_ ?_
      · rw [remaining, remaining, isReading]
        exact readRecord _ _
      · have ends : weight .ended ≤ weight .reading := by decide
        simp only [size, isReading]
        omega

end Records

/-! ## A whole body -/

/-- What a consumer reads, polling until there is nothing more. -/
inductive Yields (document : Document V) :
    Records → List Arrival → List (Except BodyRejection V) → Prop where
  | finished {records after : Records} {body rest : List Arrival}
      (polled : records.pollRecord document body = (.ready none, after, rest)) :
      Yields document records body []
  | ready {records after : Records} {body rest : List Arrival} {item : Except BodyRejection V}
      {items : List (Except BodyRejection V)}
      (polled : records.pollRecord document body = (.ready (some item), after, rest))
      (more : Yields document after rest items) : Yields document records body (item :: items)
  | pending {records after : Records} {body rest : List Arrival}
      {items : List (Except BodyRejection V)}
      (polled : records.pollRecord document body = (.pending, after, rest))
      (more : Yields document after rest items) : Yields document records body items

/-- A consumer reads what is left to be read. -/
theorem yields_remaining (document : Document V) {records : Records} (valid : records.Valid)
    (body : List Arrival) : Yields document records body (records.remaining document body) := by
  induction size : records.size body using Nat.strong_induction_on generalizing records body with
  | _ size ih =>
      have answered := records.answered_pollRecord document body valid
      generalize polled : records.pollRecord document body = answer at answered
      cases answered with
      | ready item after rest afterValid smaller read =>
          rw [read]
          exact .ready polled (ih _ (size ▸ smaller) afterValid rest rfl)
      | finished after rest read =>
          rw [read]
          exact .finished polled
      | pending after rest afterValid smaller read =>
          rw [read]
          exact .pending polled (ih _ (size ▸ smaller) afterValid rest rfl)

/-- A consumer reads one list. -/
theorem Yields.unique {records : Records} {body : List Arrival}
    {items others : List (Except BodyRejection V)} (yields : Yields document records body items)
    (other : Yields document records body others) : items = others := by
  induction yields generalizing others with
  | finished polled =>
      cases other with
      | finished _ => rfl
      | ready again _ => cases polled.symm.trans again
      | pending again _ => cases polled.symm.trans again
  | ready polled more ih =>
      cases other with
      | finished again => cases polled.symm.trans again
      | ready again moreOthers =>
          cases polled.symm.trans again
          rw [ih moreOthers]
      | pending again _ => cases polled.symm.trans again
  | pending polled more ih =>
      cases other with
      | finished again => cases polled.symm.trans again
      | ready again _ => cases polled.symm.trans again
      | pending again moreOthers =>
          cases polled.symm.trans again
          exact ih moreOthers

/-- However a body arrives, a consumer reads the records of its octets. -/
theorem yields_iff (document : Document V) (limit : Nat) (framing : Framing) (body : List Arrival)
    (items : List (Except BodyRejection V)) :
    Yields document (.new limit framing) body items ↔
      items = document.readWhole framing limit (arrived body).2 0 (arrived body).1 := by
  have yields := yields_remaining document (Records.valid_new limit framing) body
  constructor
  · exact fun others => others.unique yields
  · rintro rfl
    exact yields

end Kynos.JsonLines

import Kynos.Sse.Client

/-!
# Server-Sent Events decode back

A client that reads a stream dispatches one message for each event, in order.
Between two records its buffers are empty, so a record is read on its own: it
leaves the data, the type and the id its event carries, and no line of a value
is read under another field's name.
-/

namespace Kynos.Sse

open Kynos.Http
open Kynos.Numeral
open Kynos.Word

universe u

variable {T : Type u}

/-! ## One record -/

/-- The message of an event, for a client whose last event ID is `previous`. -/
def Event.message (event : Event T) (data previous : Text) : Message where
  type := if Client.typed event.event [] = [] then "message".toList else Client.typed event.event []
  data := lineFed '\r' '\n' data
  lastEventId := Client.identified event.id previous

/-- Lines written one after the other end in a line feed. -/
theorem written_eq {lines : List Text} (nonempty : lines ≠ []) :
    written lines = ['\n'].intercalate lines ++ ['\n'] := by
  induction lines with
  | nil => contradiction
  | cons line rest ih =>
      cases rest with
      | nil => simp
      | cons second rest =>
          rw [written_cons, ih (by simp),
            List.intercalate_cons_of_ne_nil (List.cons_ne_nil second rest), List.append_assoc,
            List.append_assoc]
          rfl

namespace Client

variable {client : Client}

/-- The client between two records. -/
structure Idle (client : Client) : Prop where
  data : client.data = []
  eventType : client.eventType = []

/-- Dispatching the data of a text. -/
theorem dispatch_data (text eventType idBuffer lastEventId : Text) (time : Option Nat)
    (dispatched : List Message) :
    dispatch ⟨written (linesOf text), eventType, idBuffer, lastEventId, time, dispatched⟩ =
      ⟨[], [], idBuffer, idBuffer, time, dispatched ++
        [⟨if eventType = [] then "message".toList else eventType, lineFed '\r' '\n' text,
          idBuffer⟩]⟩ := by
  have ended : written (linesOf text) = lineFed '\r' '\n' text ++ ['\n'] := by
    rw [written_eq (breaks_ne_nil _ _ _), intercalate_breaks]
  simp [dispatch, ended]

/-- Reading a record dispatches its event. -/
theorem foldl_lines (idle : client.Idle) (event : Event T) (data : Text) :
    (event.lines data).foldl line client =
      { client with
        idBuffer := identified event.id client.idBuffer
        lastEventId := identified event.id client.idBuffer
        reconnectionTime := (event.retry.map milliseconds).or client.reconnectionTime
        dispatched := client.dispatched ++ [event.message data client.idBuffer] } := by
  have retry : event.retry.map (fun retry => Text.decimal (milliseconds retry)) =
      (event.retry.map milliseconds).map Text.decimal := by
    rw [Option.map_map]
    rfl
  obtain ⟨empty, untyped⟩ := idle
  rw [Event.lines, retry]
  simp only [List.foldl_append, foldl_comment, foldl_event, foldl_id, foldl_retry, foldl_data,
    List.foldl_cons, List.foldl_nil, line_nil, empty, untyped, List.nil_append, dispatch_data]
  rfl

/-- Reading a keep-alive message changes nothing but the last event ID, which it
brings up to its buffer. -/
theorem foldl_heartbeat (idle : client.Idle) (comment : Text) :
    (labelled [] (some comment) ++ [[]]).foldl line client =
      { client with lastEventId := client.idBuffer } := by
  obtain ⟨empty, untyped⟩ := idle
  rw [List.foldl_append, foldl_comment, List.foldl_cons, List.foldl_nil, line_nil, dispatch]
  simp [empty, untyped]

/-! ## A whole stream -/

/-- The client once it has read a frame. -/
def heard (toJson : T → Option Text) (client : Client) : Frame T → Client
  | .heartbeat => { client with lastEventId := client.idBuffer }
  | .next event =>
      match toJson event.data with
      | none => client
      | some data =>
          { client with
            idBuffer := identified event.id client.idBuffer
            lastEventId := identified event.id client.idBuffer
            reconnectionTime := (event.retry.map milliseconds).or client.reconnectionTime
            dispatched := client.dispatched ++ [event.message data client.idBuffer] }

theorem Idle.heard (idle : client.Idle) (toJson : T → Option Text) (frame : Frame T) :
    (client.heard toJson frame).Idle := by
  cases frame with
  | heartbeat => exact ⟨idle.data, idle.eventType⟩
  | next event =>
      rw [Client.heard]
      split
      · exact idle
      · exact ⟨idle.data, idle.eventType⟩

end Client

/-- The lines of a frame's record. -/
def Frame.lines (toJson : T → Option Text) (keepAlive : Text) : Frame T → List Text
  | .heartbeat => labelled [] (some keepAlive) ++ [[]]
  | .next event => ((toJson event.data).map event.lines).getD []

theorem getD_record (toJson : T → Option Text) (keepAlive : Text) (frame : Frame T) :
    (frame.record toJson keepAlive).getD [] =
      (written (frame.lines toJson keepAlive)).toOctets := by
  cases frame with
  | heartbeat => exact heartbeatRecord_eq keepAlive
  | next event =>
      rw [Frame.record, encode_eq, Frame.lines]
      cases toJson event.data <;> rfl

/-- A stream is written as the lines of its frames. -/
theorem body_eq (toJson : T → Option Text) (keepAlive : Text) (frames : List (Frame T)) :
    body toJson keepAlive frames =
      (written (frames.flatMap (Frame.lines toJson keepAlive))).toOctets := by
  induction frames with
  | nil => rfl
  | cons frame rest ih =>
      rw [List.flatMap_cons, written_append, Text.toOctets_append, ← ih, ← getD_record, body, body]
      cases record : frame.record toJson keepAlive with
      | none => rw [List.filterMap_cons_none record]; rfl
      | some octets => rw [List.filterMap_cons_some record]; rfl

/-- No line of a record holds a line end, and none starts with a byte order
mark. -/
theorem unbroken_of_mem_lines {toJson : T → Option Text} {keepAlive : Text} {frame : Frame T}
    {line : Text} (member : line ∈ frame.lines toJson keepAlive) :
    Unbroken '\r' '\n' line ∧ line.head? ≠ some '\uFEFF' := by
  have inField : ∀ (name : Text) (value : Option Text) (line : Text),
      Unbroken '\r' '\n' name → (name ++ [':']).head? ≠ some '\uFEFF' →
      line ∈ labelled name value → Unbroken '\r' '\n' line ∧ line.head? ≠ some '\uFEFF' := by
    intro name value line unbroken unmarked member
    cases value with
    | none => cases member
    | some text =>
        obtain ⟨piece, inLines, rfl⟩ := List.mem_map.mp member
        have plain := unbroken_of_mem_breaks inLines
        refine ⟨⟨?_, ?_⟩, ?_⟩
        · simp [unbroken.1, plain.1]
        · simp [unbroken.2, plain.2]
        · cases name with
          | nil => simp
          | cons first rest => simpa using unmarked
  have blank : Unbroken '\r' '\n' ([] : Text) ∧ ([] : Text).head? ≠ some '\uFEFF' := by
    simp [Unbroken]
  cases frame with
  | heartbeat =>
      rcases List.mem_append.mp member with inComment | isBlank
      · exact inField _ _ _ ⟨by decide, by decide⟩ (by decide) inComment
      · rwa [List.mem_singleton.mp isBlank]
  | next event =>
      rw [Frame.lines] at member
      cases serialized : toJson event.data with
      | none => simp [serialized] at member
      | some data =>
          rw [serialized, Option.map_some, Option.getD_some, Event.lines] at member
          simp only [List.mem_append, List.mem_singleton] at member
          rcases member with ((((inComment | inEvent) | inId) | inRetry) | inData) | rfl
          · exact inField _ _ _ ⟨by decide, by decide⟩ (by decide) inComment
          · exact inField _ _ _ ⟨by decide, by decide⟩ (by decide) inEvent
          · exact inField _ _ _ ⟨by decide, by decide⟩ (by decide) inId
          · exact inField _ _ _ ⟨by decide, by decide⟩ (by decide) inRetry
          · exact inField _ _ _ ⟨by decide, by decide⟩ (by decide) inData
          · exact blank

namespace Client

/-- A stream of written lines is read line by line. -/
theorem read_written {lines : List Text}
    (plain : ∀ line ∈ lines, Unbroken '\r' '\n' line ∧ line.head? ≠ some '\uFEFF') :
    read (written lines) = lines.foldl line start := by
  have unmarked : (written lines).head? ≠ some '\uFEFF' := by
    cases lines with
    | nil => simp
    | cons first rest =>
        have notMark := (plain first List.mem_cons_self).2
        cases first with
        | nil => simp
        | cons letter first => simpa using notMark
  have cut : linesOf (written lines) = lines ++ [[]] := by
    have ended := breaks_written (show '\r' ≠ '\n' by decide) (fun line member => (plain line member).1) []
    rwa [List.append_nil] at ended
  rw [read, withoutMark, if_neg unmarked, cut, List.dropLast_concat]

theorem foldl_frames (toJson : T → Option Text) (keepAlive : Text) (frames : List (Frame T))
    {client : Client} (idle : client.Idle) :
    (frames.flatMap (Frame.lines toJson keepAlive)).foldl line client =
      frames.foldl (heard toJson) client := by
  induction frames generalizing client with
  | nil => rfl
  | cons frame rest ih =>
      have frameRead : (frame.lines toJson keepAlive).foldl line client = client.heard toJson frame := by
        cases frame with
        | heartbeat => exact foldl_heartbeat idle keepAlive
        | next event =>
            rw [Frame.lines, heard]
            cases toJson event.data with
            | none => rfl
            | some data => exact foldl_lines idle event data
      rw [List.flatMap_cons, List.foldl_append, frameRead, ih (idle.heard toJson frame),
        List.foldl_cons]

/-- A stream is read frame by frame. -/
theorem listen_body (toJson : T → Option Text) (keepAlive : Text) (frames : List (Frame T)) :
    listen (body toJson keepAlive frames) = some (frames.foldl (heard toJson) start) := by
  have plain : ∀ line ∈ frames.flatMap (Frame.lines toJson keepAlive),
      Unbroken '\r' '\n' line ∧ line.head? ≠ some '\uFEFF' := by
    intro line member
    obtain ⟨frame, -, inFrame⟩ := List.mem_flatMap.mp member
    exact unbroken_of_mem_lines inFrame
  rw [listen, body_eq, Text.fromUtf8_toOctets, Option.map_some, read_written plain,
    foldl_frames toJson keepAlive frames ⟨rfl, rfl⟩]

end Client

/-! ## What an event is read as -/

/-- A message is what an event says, for a client whose last event ID was
`previous`. -/
structure Delivers (event : Event T) (data previous : Text) (message : Message) : Prop where
  data : message.data = lineFed '\r' '\n' data
  named : ∀ name, event.event = some name → name ≠ [] → Unbroken '\r' '\n' name →
    message.type = name
  unnamed : event.event = none ∨ event.event = some [] → message.type = "message".toList
  identified : ∀ id, event.id = some id → Unbroken '\r' '\n' id → '\x00' ∉ id →
    message.lastEventId = id
  unidentified : event.id = none → message.lastEventId = previous

/-- Messages are what events say, one each and in order, the last event ID of
one carried on to the next. -/
inductive Delivered : Text → List (Event T × Text) → List Message → Text → Prop where
  | nil (previous : Text) : Delivered previous [] [] previous
  | cons {previous last data : Text} {event : Event T} {message : Message}
      {events : List (Event T × Text)} {messages : List Message}
      (first : Delivers event data previous message)
      (rest : Delivered message.lastEventId events messages last) :
      Delivered previous ((event, data) :: events) (message :: messages) last

/-- The events of a stream that have a record, with their JSON. -/
def sent (toJson : T → Option Text) (frames : List (Frame T)) : List (Event T × Text) :=
  frames.filterMap fun
    | .heartbeat => none
    | .next event => (toJson event.data).map (event, ·)

theorem Event.delivers_message (event : Event T) (data previous : Text) :
    Delivers event data previous (event.message data previous) where
  data := rfl
  named := by
    intro name isNamed nonempty unbroken
    have last : Client.lastLine name = name := by
      simp [Client.lastLine, breaks_of_unbroken unbroken]
    simp [Event.message, Client.typed, isNamed, last, nonempty]
  unnamed := by
    rintro (isUnnamed | isEmpty)
    · simp [Event.message, Client.typed, isUnnamed]
    · rw [Event.message, isEmpty]
      rfl
  identified := by
    intro id isIdentified unbroken noNull
    have only : linesOf id = [id] := breaks_of_unbroken unbroken
    have kept : ([id].filter fun text => '\x00' ∉ text) = [id] :=
      List.filter_eq_self.mpr fun text member => by
        rw [List.mem_singleton.mp member]
        exact decide_eq_true noNull
    rw [Event.message, isIdentified, Client.identified, only, kept]
    rfl
  unidentified := by
    intro isUnidentified
    simp [Event.message, Client.identified, isUnidentified]

namespace Client

/-- A stream read from any point on: what is dispatched, and what is held
after. -/
theorem delivered_foldl (toJson : T → Option Text) (frames : List (Frame T)) (client : Client) :
    ∃ messages,
      (frames.foldl (heard toJson) client).dispatched = client.dispatched ++ messages ∧
        Delivered client.idBuffer (sent toJson frames) messages
          (frames.foldl (heard toJson) client).idBuffer ∧
        (frames.foldl (heard toJson) client).reconnectionTime =
          (((sent toJson frames).filterMap fun event => event.1.retry).getLast?.map
            milliseconds).or client.reconnectionTime := by
  induction frames generalizing client with
  | nil => exact ⟨[], by simp, .nil _, by simp [sent]⟩
  | cons frame rest ih =>
      obtain ⟨messages, dispatched, delivered, time⟩ := ih (client.heard toJson frame)
      rw [List.foldl_cons]
      cases frame with
      | heartbeat => exact ⟨messages, dispatched, delivered, time⟩
      | next event =>
          cases serialized : toJson event.data with
          | none =>
              have unheard : client.heard toJson (.next event) = client := by rw [heard, serialized]
              have unsent : sent toJson (.next event :: rest) = sent toJson rest := by
                simp [sent, serialized]
              rw [unheard] at dispatched delivered time
              rw [unheard, unsent]
              exact ⟨messages, dispatched, delivered, time⟩
          | some data =>
              have isSent : sent toJson (.next event :: rest) = (event, data) :: sent toJson rest := by
                simp [sent, serialized]
              rw [isSent]
              have isHeard : client.heard toJson (.next event) =
                  ⟨client.data, client.eventType, identified event.id client.idBuffer,
                    identified event.id client.idBuffer,
                    (event.retry.map milliseconds).or client.reconnectionTime,
                    client.dispatched ++ [event.message data client.idBuffer]⟩ := by
                rw [heard, serialized]
              rw [isHeard] at dispatched delivered time
              rw [isHeard]
              refine ⟨event.message data client.idBuffer :: messages, ?_, ?_, ?_⟩
              · rw [dispatched, List.append_assoc]
                rfl
              · exact .cons (event.delivers_message data client.idBuffer) delivered
              · rw [time]
                cases retry : event.retry with
                | none => rw [List.filterMap_cons_none (by exact retry)]; rfl
                | some retry =>
                    rw [List.filterMap_cons_some (by exact retry), List.getLast?_cons]
                    cases ((sent toJson rest).filterMap fun event => event.1.retry).getLast? <;> rfl

end Client

/-- A stream decodes back: each event that has a record is dispatched as one
message, in order, that says what the event says, where a client has a name for
it; the client's last event ID and reconnection time are what the events left,
and the lines of a record are the lines of the event's own values, each under
its field's name. -/
theorem events_decode_back (toJson : T → Option Text) (keepAlive : Text)
    (frames : List (Frame T)) :
    (∃ client, Client.listen (body toJson keepAlive frames) = some client ∧
      Delivered [] (sent toJson frames) client.dispatched client.idBuffer ∧
      client.reconnectionTime =
        ((sent toJson frames).filterMap fun event => event.1.retry).getLast?.map milliseconds) ∧
    ∀ event : Event T, ∀ record, encode toJson event = some record →
      ∃ data text, toJson event.data = some data ∧ Octets.fromUtf8 record = some text ∧
        linesOf text = event.lines data ++ [[]] := by
  constructor
  · obtain ⟨messages, dispatched, delivered, time⟩ :=
      Client.delivered_foldl toJson frames Client.start
    refine ⟨_, Client.listen_body toJson keepAlive frames, ?_, ?_⟩
    · rw [dispatched]
      exact delivered
    · rw [time]
      exact Option.or_none
  · intro event record encoded
    rw [encode_eq] at encoded
    obtain ⟨data, serialized, rfl⟩ := Option.map_eq_some_iff.mp encoded
    refine ⟨data, _, serialized, Text.fromUtf8_toOctets _, ?_⟩
    have plain : ∀ line ∈ event.lines data, Unbroken '\r' '\n' line := by
      intro line member
      have inFrame : line ∈ Frame.lines toJson [] (.next event) := by
        rwa [Frame.lines, serialized]
      exact (unbroken_of_mem_lines inFrame).1
    have ended := breaks_written (show '\r' ≠ '\n' by decide) plain []
    rwa [List.append_nil] at ended

/-- An event whose name is the empty text is dispatched as a `message`. -/
theorem not_named_by_empty_text :
    ∃ event : Event Text, event.event = some [] ∧ Unbroken '\r' '\n' ([] : Text) ∧
      ∃ client, Client.listen (body some [] [.next event]) = some client ∧
        client.dispatched.map Message.type = ["message".toList] :=
  ⟨⟨['1'], some [], none, none, none⟩, rfl, ⟨by simp, by simp⟩, _,
    Client.listen_body some [] _, rfl⟩

end Kynos.Sse

import Kynos.Text.Pointer

/-!
# Where a JSON document did not read

A document is read through wrappers that note where a failure happened: each
member and element adds its step to the path of an error that unwinds through
it, and one that reads forgets the path of an error swallowed below. The names
of members are kept in one buffer, which every map and sequence cuts back to
where it began.

What hands out the parts of a document is a parser that is not known here, and
so is how a value is made of them. A visitor is what it answers to all it was
handed so far, and a run is given its number of turns.
-/

namespace Kynos.Body.StrictJson

/-! ## The source -/

/-- `Step`. -/
inductive Step
  | member (name : Text)
  | index (index : Nat)

/-- `Key`. -/
inductive Key
  | absent
  | borrowed (name : Text)
  | buffered (first last : Nat)

/-- `Key::name`. -/
def Key.name (keys : Text) : Key → Option Text
  | .absent => none
  | .borrowed name => some name
  | .buffered first last =>
      if first ≤ last ∧ last ≤ keys.length then some ((keys.take last).drop first) else none

/-- What the visitor of a key is handed: a `bool`, a name borrowed from the document, a
number, a character or a string, which is written out, or nothing that names it. -/
inductive Named
  | bool (value : Bool)
  | borrowed (name : Text)
  | written (name : Text)
  | nothing

/-- `Naming`: the name recorded, and the buffer after it. -/
def Named.record (keys : Text) : Named → Key × Text
  | .bool value => (.borrowed (if value then "true".toList else "false".toList), keys)
  | .borrowed name => (.borrowed name, keys)
  | .written name => (.buffered keys.length (keys.length + name.length), keys ++ name)
  | .nothing => (.absent, keys)

/-- `State`. -/
structure State where
  refused : Bool
  keys : Text
  path : List Step

namespace State

/-- `State::default`. -/
def empty : State where
  refused := false
  keys := []
  path := []

/-- `State::at`: what becomes of the path where a result is passed on. -/
def passOn {ε α : Type} (state : State) (result : Except ε α) (step : Option Step) : State :=
  match result with
  | .ok _ => { state with path := [] }
  | .error _ => { state with path := state.path ++ step.toList }

/-- `State::begin`. -/
def begun (state : State) : State :=
  { state with path := [] }

/-- `State::mark`. -/
def mark (state : State) : Nat :=
  state.keys.length

/-- The key buffer, truncated to a mark. -/
def truncate (state : State) (start : Nat) : State :=
  { state with keys := state.keys.take start }

end State

/-- What a value is asked for as. The methods whose visitors are not wrapped are `scalar`. -/
inductive Request
  | scalar
  | any
  | option
  | newtype
  | seq
  | tuple
  | map
  | enum
  | struct
  | tupleVariant
  | structVariant
  deriving DecidableEq

/-- Whether a struct is asked for. -/
def Request.isObject (request : Request) : Bool :=
  request = .struct || request = .structVariant

/-- What a parser hands a visitor first. -/
inductive Handed (E S : Type)
  | scalar (value : S)
  | present
  | newtype
  | seq
  | map
  | enum
  | failed (error : E)

/-- The next key of a map, as its seed reads it. -/
inductive KeyRead (E V : Type)
  | done
  | failed (named : Named) (error : E)
  | read (named : Named) (value : V)

/-- A container that a parser hands out, and closes. -/
inductive Container
  | seq
  | map
  | enum

/-- A deserializer of JSON, over its own state. -/
structure Parser (P E S K V : Type) where
  /-- What a visitor is handed for a request. -/
  hand : Request → P → Handed E S × P
  /-- The end of a container whose visitor returned, with a value or not. -/
  close : Container → Bool → P → Except E Unit × P
  /-- Whether a sequence has another element. -/
  hasElement : P → Except E Bool × P
  /-- The next key of a map, read by a seed. -/
  key : K → P → KeyRead E V × P
  /-- What stands between a key and its value. -/
  colon : P → Except E Unit × P
  /-- The name of a variant, read by a seed. -/
  variant : K → P → (Named × Except E V) × P
  /-- Whether a variant that was named holds content, where it is no bare string. -/
  hasContent : P → Bool
  /-- The content of a unit variant. -/
  unitVariant : P → Except E Unit × P
  /-- Up to the content of a newtype variant. -/
  newtypeVariant : P → Except E Unit × P
  /-- What follows the document. -/
  finish : P → Except E Unit
  /-- Why the bytes are no JSON document, where they are not. -/
  syntaxError : Option E
  /-- That an array was found in place of a JSON object. -/
  notObject : E

/-- What a map answered a visitor. -/
inductive MapAnswer (E V : Type)
  | key (result : Except E (Option V))
  | value (result : Except E V)

mutual

/-- How a value is read: what it is asked for as and by which visitor, or another way, a
value put in place of its failure. -/
inductive Reader (E S K V : Type)
  | read (request : Request) (visitor : Visitor E S K V)
  | recover (reader : Reader E S K V) (value : E → V)

/-- What a visitor does with what it is handed. -/
inductive Visitor (E S K V : Type)
  | mk (scalar : S → Except E V) (present newtype : Onward E S K V)
      (seq : List (Except E (Option V)) → SeqTurn E S K V) (map : List (MapAnswer E V) → MapTurn E S K V)
      (enum : EnumVisitor E S K V)

/-- `visit_some` and `visit_newtype_struct`. -/
inductive Onward (E S K V : Type)
  | refuse (error : E)
  | read (reader : Reader E S K V) (wrap : V → V)

/-- A turn of `visit_seq`. -/
inductive SeqTurn (E S K V : Type)
  | ret (result : Except E V)
  | next (seed : Reader E S K V)

/-- A turn of `visit_map`. -/
inductive MapTurn (E S K V : Type)
  | ret (result : Except E V)
  | key (seed : K)
  | value (seed : Reader E S K V)

/-- `visit_enum`. -/
inductive EnumVisitor (E S K V : Type)
  | refuse (error : E)
  | variant (seed : K) (content : V → Content E S K V)

/-- What a variant is read with. -/
inductive Content (E S K V : Type)
  | refuse (error : E)
  | unit (value : V)
  | newtype (reader : Reader E S K V) (wrap : V → V)
  | tuple (visitor : Visitor E S K V)
  | struct (visitor : Visitor E S K V)

end

variable {P E S K V : Type}

/-- What a read leaves: its result, the parser and the state. -/
abbrev Ran (P E α : Type) := Except E α × P × State

/-- A value that was read, wrapped. -/
def wrapped {α β : Type} (wrap : α → β) : Ran P E α → Ran P E β
  | (result, input, state) => (result.map wrap, input, state)

/-- `Elements`. -/
structure Elements where
  start : Nat
  index : Nat

/-- `Members`. -/
structure Members where
  start : Nat
  key : Key

section Source

variable (parser : Parser P E S K V) (read : Reader E S K V → P → State → Option (Ran P E V))

/-- `next_element_seed` of the parser's own sequence. -/
def innerElement (seed : Reader E S K V) (input : P) (state : State) : Option (Ran P E (Option V)) :=
  match parser.hasElement input with
  | (.error error, input) => some (.error error, input, state)
  | (.ok false, input) => some (.ok none, input, state)
  | (.ok true, input) => (read seed input state).map (wrapped some)

/-- Whether a result is that there is no further element. -/
def isDone {ε α : Type} : Except ε (Option α) → Bool
  | .ok none => true
  | _ => false

/-- `Elements::next_element_seed`. -/
def nextElement (elements : Elements) (seed : Reader E S K V) (input : P) (state : State) :
    Option (Elements × Ran P E (Option V)) :=
  (innerElement parser read seed input (state.truncate elements.start).begun).map fun (result, input, state) =>
    ({ elements with index := if isDone result then elements.index else elements.index + 1 },
      result, input, state.passOn result (some (.index elements.index)))

/-- `Members::next_key_seed`. -/
def nextKey (members : Members) (seed : K) (input : P) (state : State) : Members × Ran P E (Option V) :=
  let state := state.begun.truncate members.start
  match parser.key seed input with
  | (.done, input) => ({ members with key := .absent }, .ok none, input, state.begun)
  | (.failed named error, input) =>
      let (key, keys) := named.record state.keys
      ({ members with key := key }, .error error, input,
        { state with keys := keys, path := state.path ++ ((key.name keys).map Step.member).toList })
  | (.read named value, input) =>
      let (key, keys) := named.record state.keys
      ({ members with key := key }, .ok (some value), input, { state with keys := keys }.begun)

/-- `next_value_seed` of the parser's own map. -/
def innerValue (seed : Reader E S K V) (input : P) (state : State) : Option (Ran P E V) :=
  match parser.colon input with
  | (.error error, input) => some (.error error, input, state)
  | (.ok (), input) => read seed input state

/-- `Members::next_value_seed`. -/
def nextValue (members : Members) (seed : Reader E S K V) (input : P) (state : State) : Option (Ran P E V) :=
  (innerValue parser read seed input state.begun).map fun (result, input, state) =>
    (result, input, state.passOn result ((members.key.name state.keys).map Step.member))

/-- The turns of a sequence's visitor, after some. -/
def runSeq (turn : List (Except E (Option V)) → SeqTurn E S K V) :
    Nat → List (Except E (Option V)) → Elements → P → State → Option (Ran P E V)
  | 0, _, _, _, _ => none
  | turns + 1, answers, elements, input, state =>
      match turn answers with
      | .ret result => some (result, input, state)
      | .next seed =>
          (nextElement parser read elements seed input state).bind fun (elements, result, input, state) =>
            runSeq turn turns (answers ++ [result]) elements input state

/-- The turns of a map's visitor, after some. -/
def runMap (turn : List (MapAnswer E V) → MapTurn E S K V) :
    Nat → List (MapAnswer E V) → Members → P → State → Option (Ran P E V)
  | 0, _, _, _, _ => none
  | turns + 1, answers, members, input, state =>
      match turn answers with
      | .ret result => some (result, input, state)
      | .key seed =>
          let (members, result, input, state) := nextKey parser members seed input state
          runMap turn turns (answers ++ [.key result]) members input state
      | .value seed =>
          (nextValue parser read members seed input state).bind fun (result, input, state) =>
            runMap turn turns (answers ++ [.value result]) members input state

/-- What a visitor returned of a container, which is then closed. -/
def closed (container : Container) : Ran P E V → Ran P E V
  | (.ok value, input, state) =>
      let (ended, input) := parser.close container true input
      (ended.map fun () => value, input, state)
  | (.error error, input, state) => (.error error, (parser.close container false input).2, state)

/-- `visit_some` and `visit_newtype_struct`. -/
def runOnward (input : P) (state : State) : Onward E S K V → Option (Ran P E V)
  | .refuse error => some (.error error, input, state)
  | .read reader wrap => (read reader input state).map (wrapped wrap)

/-- `State::within`. -/
def within (name : Key) (entered : Bool) : Ran P E V → Ran P E V
  | (result, input, state) =>
      (result, input, state.passOn result (if entered then (name.name state.keys).map Step.member else none))

/-- Whether a visitor is handed a sequence or a map. -/
def isEntered : Handed E S → Bool
  | .seq => true
  | .map => true
  | _ => false

/-- `tuple_variant` and `struct_variant`. -/
def runVariant (name : Key) (request : Request) (visitor : Visitor E S K V) (input : P) (state : State) :
    Option (Ran P E V) :=
  (read (.read request visitor) input state.begun).map (within name (isEntered (parser.hand request input).1))

/-- `Variant`: the content of the variant of a name. -/
def runContent (name : Key) (input : P) (state : State) : Content E S K V → Option (Ran P E V)
  | .refuse error => some (.error error, input, state)
  | .unit value =>
      let (result, input) := parser.unitVariant input
      some (result.map fun () => value, input, state)
  | .newtype reader wrap =>
      match parser.newtypeVariant input with
      | (.error error, input) => some (within name false (.error error, input, state.begun))
      | (.ok (), input) => ((read reader input state.begun).map (within name true)).map (wrapped wrap)
  | .tuple visitor => runVariant parser read name .tupleVariant visitor input state
  | .struct visitor => runVariant parser read name .structVariant visitor input state

/-- `visit_enum`, and `variant_seed`. -/
def runEnum (input : P) (state : State) : EnumVisitor E S K V → Option (Ran P E V)
  | .refuse error => some (.error error, input, state)
  | .variant seed content =>
      let ((named, result), input) := parser.variant seed input
      let (name, keys) := named.record state.keys
      let state := { state.begun with keys := keys }
      match result with
      | .error error => some (.error error, input, state)
      | .ok value => runContent parser read name input state (content value)

/-- `Visit`. -/
def visit (turns : Nat) (isObject : Bool) (input : P) (state : State) :
    Visitor E S K V → Handed E S → Option (Ran P E V)
  | .mk scalar present newtype seq map enum, handed =>
      match handed with
      | .failed error => some (.error error, input, state)
      | .scalar value => some (scalar value, input, state)
      | .present => runOnward read input state present
      | .newtype => runOnward read input state newtype
      | .seq =>
          if isObject then
            some (closed parser .seq (.error parser.notObject, input, { state with refused := true }))
          else
            (runSeq parser read seq turns [] ⟨state.mark, 0⟩ input state).map (closed parser .seq)
      | .map => (runMap parser read map turns [] ⟨state.mark, .absent⟩ input state).map (closed parser .map)
      | .enum => (runEnum parser read input state enum).map (closed parser .enum)

end Source

/-- A value in place of a failure. -/
def recovered (value : E → V) : Ran P E V → Ran P E V
  | (.error error, input, state) => (.ok (value error), input, state)
  | (.ok value, input, state) => (.ok value, input, state)

/-- `Strict`: a value read at a position. -/
def readStrict (parser : Parser P E S K V) : Nat → Reader E S K V → P → State → Option (Ran P E V)
  | 0, _, _, _ => none
  | turns + 1, .recover reader value, input, state =>
      (readStrict parser turns reader input state).map (recovered value)
  | turns + 1, .read request visitor, input, state =>
      let (handed, input) := parser.hand request input
      visit parser (readStrict parser turns) turns request.isObject input state visitor handed

/-- `Failure`. -/
structure Failure (E : Type) where
  error : E
  path : List Step

/-- `from_slice`. -/
def fromSlice (parser : Parser P E S K V) (turns : Nat) (reader : Reader E S K V) (input : P) :
    Option (Except (Failure E) V) :=
  (readStrict parser turns reader input .empty).map fun (result, input, state) =>
    match result with
    | .error error =>
        .error ⟨if state.refused then parser.syntaxError.getD error else error, state.path⟩
    | .ok value =>
        match parser.finish input with
        | .error error => .error ⟨error, []⟩
        | .ok () => .ok value

/-- `replace`, of every tilde. -/
def escapeTildes (part : Text) : Text :=
  part.flatMap fun letter => if letter = '~' then "~0".toList else [letter]

/-- A step of a `Pointer`, as it is displayed. -/
def Step.text : Step → Text
  | .index position => '/' :: Text.decimal position
  | .member name => '/' :: "~1".toList.intercalate ((name.splitOn '/').map escapeTildes)

/-- `Failure::pointer`, under the steps of a base. -/
def Failure.pointer (failure : Failure E) (base : List Step) : Text :=
  (base ++ failure.path.reverse).flatMap Step.text

/-! ## Where reads fail -/

/-- The name a key is read by. -/
def Named.name : Named → Option Text
  | .bool value => some (if value then "true".toList else "false".toList)
  | .borrowed name => some name
  | .written name => some name
  | .nothing => none

/-- A failure, and the position it happened at. -/
structure Failed (E : Type) where
  error : E
  position : List Step

/-- What a read finds: a value, or where it failed. -/
abbrev Found (P E α : Type) := Except (Failed E) α × P

/-- A value that was found, wrapped. -/
def wrappedAt {α β : Type} (wrap : α → β) : Found P E α → Found P E β
  | (result, input) => (result.map wrap, input)

/-- The position of a member, where its name was read. -/
def memberAt (position : List Step) (name : Option Text) : List Step :=
  position ++ (name.map Step.member).toList

/-- Where a read failed, if it did. -/
def failedAt {α : Type} : Except (Failed E) α → Option (List Step)
  | .error failed => some failed.position
  | .ok _ => none

section Specification

variable (parser : Parser P E S K V) (strictly : Bool)
  (locate : List Step → Reader E S K V → P → Option (Found P E V))

/-- An element, at its index. -/
def locateElement (position : List Step) (index : Nat) (seed : Reader E S K V) (input : P) :
    Option (Found P E (Option V)) :=
  match parser.hasElement input with
  | (.error error, input) => some (.error ⟨error, position ++ [.index index]⟩, input)
  | (.ok false, input) => some (.ok none, input)
  | (.ok true, input) => (locate (position ++ [.index index]) seed input).map (wrappedAt some)

/-- A value, at its member. -/
def locateValue (position : List Step) (name : Option Text) (seed : Reader E S K V) (input : P) :
    Option (Found P E V) :=
  match parser.colon input with
  | (.error error, input) => some (.error ⟨error, memberAt position name⟩, input)
  | (.ok (), input) => locate (memberAt position name) seed input

/-- The turns of a sequence's visitor, and the position of the read before its return, if
that failed. -/
def locateSeq (position : List Step) (turn : List (Except E (Option V)) → SeqTurn E S K V) :
    Nat → List (Except E (Option V)) → Nat → Option (List Step) → P →
      Option (Except E V × Option (List Step) × P)
  | 0, _, _, _, _ => none
  | turns + 1, answers, index, last, input =>
      match turn answers with
      | .ret result => some (result, last, input)
      | .next seed =>
          (locateElement parser locate position index seed input).bind fun (result, input) =>
            locateSeq position turn turns (answers ++ [result.mapError Failed.error])
              (if isDone result then index else index + 1) (failedAt result) input

/-- The turns of a map's visitor, likewise. -/
def locateMap (position : List Step) (turn : List (MapAnswer E V) → MapTurn E S K V) :
    Nat → List (MapAnswer E V) → Option Text → Option (List Step) → P →
      Option (Except E V × Option (List Step) × P)
  | 0, _, _, _, _ => none
  | turns + 1, answers, name, last, input =>
      match turn answers with
      | .ret result => some (result, last, input)
      | .key seed =>
          match parser.key seed input with
          | (.done, input) => locateMap position turn turns (answers ++ [.key (.ok none)]) none none input
          | (.failed named error, input) =>
              locateMap position turn turns (answers ++ [.key (.error error)]) named.name
                (some (memberAt position named.name)) input
          | (.read named value, input) =>
              locateMap position turn turns (answers ++ [.key (.ok (some value))]) named.name none input
      | .value seed =>
          (locateValue parser locate position name seed input).bind fun (result, input) =>
            locateMap position turn turns (answers ++ [.value (result.mapError Failed.error)]) name
              (failedAt result) input

/-- A container that is closed, and fails where it stands. -/
def locateClosed (container : Container) (position : List Step) : Found P E V → Found P E V
  | (.ok value, input) =>
      let (ended, input) := parser.close container true input
      ((ended.map fun () => value).mapError (⟨·, position⟩), input)
  | (.error failed, input) => (.error failed, (parser.close container false input).2)

/-- What a container's visitor returned. An error it returns straight after a read failed is
that read's, and so is one of the container's end, unless that is strictly the container's. -/
def returned (container : Container) (position : List Step) (left : Except E V × Option (List Step) × P) :
    Found P E V :=
  locateClosed parser container (if strictly then position else left.2.1.getD position)
    (left.1.mapError (⟨·, left.2.1.getD position⟩), left.2.2)

def locateOnward (position : List Step) (input : P) : Onward E S K V → Option (Found P E V)
  | .refuse error => some (.error ⟨error, position⟩, input)
  | .read reader wrap => (locate position reader input).map (wrappedAt wrap)

/-- Where the content of a variant stands. Content of another kind than the variant's is the
enum's failure, unless it is strictly the member's. -/
def contentAt (position : List Step) (name : Option Text) (isOfKind : Bool) (input : P) : List Step :=
  if (strictly && parser.hasContent input) || isOfKind then memberAt position name else position

/-- The content of a variant. -/
def locateContent (position : List Step) (name : Option Text) (input : P) :
    Content E S K V → Option (Found P E V)
  | .refuse error => some (.error ⟨error, position⟩, input)
  | .unit value =>
      let stands := contentAt parser strictly position name false input
      let (result, input) := parser.unitVariant input
      some ((result.map fun () => value).mapError (⟨·, stands⟩), input)
  | .newtype reader wrap =>
      match parser.newtypeVariant input with
      | (.error error, input) => some (.error ⟨error, position⟩, input)
      | (.ok (), input) => (locate (memberAt position name) reader input).map (wrappedAt wrap)
  | .tuple visitor =>
      locate (contentAt parser strictly position name (isEntered (parser.hand .tupleVariant input).1) input)
        (.read .tupleVariant visitor) input
  | .struct visitor =>
      locate (contentAt parser strictly position name (isEntered (parser.hand .structVariant input).1) input)
        (.read .structVariant visitor) input

def locateEnum (position : List Step) (input : P) : EnumVisitor E S K V → Option (Found P E V)
  | .refuse error => some (.error ⟨error, position⟩, input)
  | .variant seed content =>
      match parser.variant seed input with
      | ((_, .error error), input) => some (.error ⟨error, position⟩, input)
      | ((named, .ok value), input) =>
          locateContent parser strictly locate position named.name input (content value)

/-- A value at a position, by what its visitor is handed. A struct is refused an array. -/
def locateVisit (turns : Nat) (isObject : Bool) (position : List Step) (input : P) :
    Visitor E S K V → Handed E S → Option (Found P E V)
  | .mk scalar present newtype seq map enum, handed =>
      match handed with
      | .failed error => some (.error ⟨error, position⟩, input)
      | .scalar value => some ((scalar value).mapError (⟨·, position⟩), input)
      | .present => locateOnward locate position input present
      | .newtype => locateOnward locate position input newtype
      | .seq =>
          if isObject then
            some (locateClosed parser .seq position (.error ⟨parser.notObject, position⟩, input))
          else
            (locateSeq parser locate position seq turns [] 0 none input).map (returned parser strictly .seq position)
      | .map => (locateMap parser locate position map turns [] none none input).map (returned parser strictly .map position)
      | .enum => (locateEnum parser strictly locate position input enum).map (locateClosed parser .enum position)

end Specification

/-- A value in place of a failure. -/
def recoveredAt (value : E → V) : Found P E V → Found P E V
  | (.error failed, input) => (.ok (value failed.error), input)
  | (.ok value, input) => (.ok value, input)

/-- A value read at a position, or the position its reading failed at. -/
def locate (parser : Parser P E S K V) (strictly : Bool) :
    Nat → List Step → Reader E S K V → P → Option (Found P E V)
  | 0, _, _, _ => none
  | turns + 1, position, .recover reader value, input =>
      (locate parser strictly turns position reader input).map (recoveredAt value)
  | turns + 1, position, .read request visitor, input =>
      let (handed, input) := parser.hand request input
      locateVisit parser strictly (locate parser strictly turns) turns request.isObject position input visitor handed

/-- A document read, or the position its reading failed at. What follows it is the whole
document's failure. -/
def locateSlice (parser : Parser P E S K V) (strictly : Bool) (turns : Nat) (reader : Reader E S K V) (input : P) :
    Option (Except (Failed E) V) :=
  (locate parser strictly turns [] reader input).map fun (result, input) =>
    result.bind fun value => ((parser.finish input).map fun () => value).mapError (⟨·, []⟩)

/-- The reference token of a step. -/
def Step.token : Step → Text
  | .index position => Text.decimal position
  | .member name => name

/-! ## Names -/

/-- A key that names a member, however the buffer grows. -/
def Names (key : Key) (keys : Text) (name : Option Text) : Prop :=
  ∀ grown, keys <+: grown → key.name grown = name

theorem Names.grow {key : Key} {keys grown : Text} {name : Option Text} (names : Names key keys name)
    (grows : keys <+: grown) : Names key grown name := fun further grown' =>
  names further (grows.trans grown')

theorem names_absent (keys : Text) : Names .absent keys none := fun _ _ => rfl

theorem prefix_record (named : Named) (keys : Text) : keys <+: (named.record keys).2 := by
  cases named with
  | written name => exact List.prefix_append keys name
  | _ => exact List.prefix_refl keys

/-- A key is named as it was read, whatever is written after it. -/
theorem names_record (named : Named) (keys : Text) :
    Names (named.record keys).1 (named.record keys).2 named.name := by
  cases named with
  | written name =>
      rintro _ ⟨more, rfl⟩
      have bound : keys.length ≤ keys.length + name.length ∧
          keys.length + name.length ≤ (keys ++ name ++ more).length := by
        simp only [List.length_append]
        omega
      have whole : (keys ++ name ++ more).take (keys.length + name.length) = keys ++ name := by
        rw [← List.length_append, List.take_left]
      simp only [Named.record, Key.name, if_pos bound, whole, List.drop_left, Named.name]
  | _ => exact fun _ _ => rfl

/-! ## What a read leaves -/

section Agreement

variable {keys : Text} {position : List Step} {α : Type}

/-- A read and where it is found to fail: it keeps the names in the buffer, and the path of an
error leads from the position read to the one that failed. -/
structure Agrees (keys : Text) (position : List Step) (ran : Ran P E α) (found : Found P E α) : Prop where
  input : ran.2.1 = found.2
  keys : keys <+: ran.2.2.keys
  result : ran.1 = found.1.mapError Failed.error
  path : ∀ failed, found.1 = .error failed → failed.position = position ++ ran.2.2.path.reverse

/-- The reads of positions agree, each begun with no path. -/
def Sound (read : Reader E S K V → P → State → Option (Ran P E V))
    (locate : List Step → Reader E S K V → P → Option (Found P E V)) : Prop :=
  ∀ position reader input state, state.path = [] →
    Option.Rel (Agrees state.keys position) (read reader input state) (locate position reader input)

theorem rel_imp {α β : Type} {related image : α → β → Prop} {left : Option α} {right : Option β}
    (rel : Option.Rel related left right) (images : ∀ first second, related first second → image first second) :
    Option.Rel image left right := by
  cases rel with
  | some isRelated => exact .some (images _ _ isRelated)
  | none => exact .none

theorem rel_map {α β γ δ : Type} {related : α → β → Prop} {image : γ → δ → Prop} {change : α → γ} {other : β → δ}
    {left : Option α} {right : Option β} (rel : Option.Rel related left right)
    (images : ∀ first second, related first second → image (change first) (other second)) :
    Option.Rel image (left.map change) (right.map other) := by
  cases rel with
  | some isRelated => exact .some (images _ _ isRelated)
  | none => exact .none

theorem rel_mapLeft {α β γ : Type} {related : α → β → Prop} {image : γ → β → Prop} {change : α → γ}
    {left : Option α} {right : Option β} (rel : Option.Rel related left right)
    (images : ∀ first second, related first second → image (change first) second) :
    Option.Rel image (left.map change) right := by
  cases rel with
  | some isRelated => exact .some (images _ _ isRelated)
  | none => exact .none

theorem rel_bind {α β γ δ : Type} {related : α → β → Prop} {image : γ → δ → Prop} {change : α → Option γ}
    {other : β → Option δ} {left : Option α} {right : Option β} (rel : Option.Rel related left right)
    (images : ∀ first second, related first second → Option.Rel image (change first) (other second)) :
    Option.Rel image (left.bind change) (right.bind other) := by
  cases rel with
  | some isRelated => exact images _ _ isRelated
  | none => exact .none

/-- What a visitor returned of a container, and the path it left. -/
structure Left (keys : Text) (position : List Step) (ran : Ran P E V)
    (left : Except E V × Option (List Step) × P) : Prop where
  input : ran.2.1 = left.2.2
  keys : keys <+: ran.2.2.keys
  result : ran.1 = left.1
  path : left.2.1.getD position = position ++ ran.2.2.path.reverse

/-- A read whose failure is passed on through a step. -/
theorem Agrees.passOn {step : Option Step} {ran : Ran P E α} {found : Found P E α}
    (agrees : Agrees keys (position ++ step.toList) ran found) :
    Agrees keys position (ran.1, ran.2.1, ran.2.2.passOn ran.1 step) found := by
  obtain ⟨result, input, state⟩ := ran
  refine ⟨agrees.input, ?_, agrees.result, fun failed isFailed => ?_⟩
  · cases result <;> exact agrees.keys
  · have isError := agrees.result
    rw [isFailed] at isError
    have isPath := agrees.path failed isFailed
    cases isError
    rw [isPath, State.passOn, List.reverse_append, List.append_assoc]
    cases step <;> rfl

/-- What is passed on leaves the path of its failure, or none. -/
theorem Agrees.left {step : Option Step} {ran : Ran P E α} {found : Found P E α}
    (agrees : Agrees keys (position ++ step.toList) ran found) :
    (failedAt found.1).getD position = position ++ (ran.2.2.passOn ran.1 step).path.reverse := by
  have passed := agrees.passOn
  obtain ⟨result, input, state⟩ := ran
  obtain ⟨result', input'⟩ := found
  cases result' with
  | error failed => exact passed.path failed rfl
  | ok value =>
      have isOk := agrees.result
      cases isOk
      exact (List.append_nil position).symm

variable {parser : Parser P E S K V} {read : Reader E S K V → P → State → Option (Ran P E V)}
  {found : List Step → Reader E S K V → P → Option (Found P E V)}

theorem Agrees.wrap {β : Type} {ran : Ran P E α} {other : Found P E α} (agrees : Agrees keys position ran other)
    (change : α → β) : Agrees keys position (wrapped change ran) (wrappedAt change other) := by
  obtain ⟨result, input, state⟩ := ran
  obtain ⟨result', input'⟩ := other
  refine ⟨agrees.input, agrees.keys, ?_, fun failed isFailed => ?_⟩
  · have same := agrees.result
    cases result' <;> cases same <;> rfl
  · cases result' with
    | error other =>
        cases isFailed
        exact agrees.path _ rfl
    | ok value => cases isFailed

/-- An element that is read agrees, its sequence begun where the buffer was. -/
theorem innerElement_agrees (sound : Sound read found) {state : State} (unwound : state.path = [])
    (cut : state.keys = keys) (index : Nat) (seed : Reader E S K V) (input : P) :
    Option.Rel (Agrees keys (position ++ [.index index])) (innerElement parser read seed input state)
      (locateElement parser found position index seed input) := by
  subst cut
  rw [innerElement, locateElement]
  cases parser.hasElement input with
  | mk answer input =>
      cases answer with
      | error error =>
          refine .some ⟨rfl, List.prefix_refl _, rfl, fun failed isFailed => ?_⟩
          cases isFailed
          rw [unwound, List.reverse_nil, List.append_nil]
      | ok more =>
          cases more with
          | false => exact .some ⟨rfl, List.prefix_refl _, rfl, nofun⟩
          | true => exact rel_map (sound _ seed input state unwound) fun _ _ agrees => agrees.wrap some

theorem isDone_mapError {ε ε' α : Type} (change : ε → ε') (result : Except ε (Option α)) :
    isDone (result.mapError change) = isDone result := by
  cases result with
  | error error => rfl
  | ok answer => cases answer <;> rfl

/-- The turns over a sequence leave the path to the read that failed last. -/
theorem runSeq_left (sound : Sound read found) (turn : List (Except E (Option V)) → SeqTurn E S K V)
    (turns : Nat) {answers : List (Except E (Option V))} {elements : Elements} {last : Option (List Step)}
    {input : P} {state : State} (began : elements.start = keys.length) (kept : keys <+: state.keys)
    (path : last.getD position = position ++ state.path.reverse) :
    Option.Rel (Left keys position) (runSeq parser read turn turns answers elements input state)
      (locateSeq parser found position turn turns answers elements.index last input) := by
  induction turns generalizing answers elements last input state with
  | zero => exact .none
  | succ turns ih =>
      rw [runSeq, locateSeq]
      cases turn answers with
      | ret result => exact .some ⟨rfl, kept, rfl, path⟩
      | next seed =>
          have cut : ((state.truncate elements.start).begun).keys = keys := by
            rw [State.begun, State.truncate, began]
            exact (List.prefix_iff_eq_take.mp kept).symm
          have unwound : (state.truncate elements.start).begun.path = [] := rfl
          unfold nextElement
          dsimp only
          rw [Option.bind_map]
          refine rel_bind (innerElement_agrees sound unwound cut elements.index seed input) fun ran other agrees => ?_
          obtain ⟨result, input, state⟩ := ran
          obtain ⟨result', input'⟩ := other
          have isInput := agrees.input
          have isResult := agrees.result
          dsimp only at isInput isResult
          subst isInput isResult
          rw [Function.comp_apply, isDone_mapError]
          exact ih began agrees.passOn.keys agrees.left

theorem Agrees.weaken {shorter : Text} {ran : Ran P E α} {other : Found P E α} (agrees : Agrees keys position ran other)
    (kept : shorter <+: keys) : Agrees shorter position ran other :=
  ⟨agrees.input, kept.trans agrees.keys, agrees.result, agrees.path⟩

/-- A value that is read agrees, at its member. -/
theorem innerValue_agrees (sound : Sound read found) {state : State} (unwound : state.path = []) (name : Option Text)
    (seed : Reader E S K V) (input : P) :
    Option.Rel (Agrees state.keys (memberAt position name)) (innerValue parser read seed input state)
      (locateValue parser found position name seed input) := by
  rw [innerValue, locateValue]
  cases parser.colon input with
  | mk answer input =>
      cases answer with
      | error error =>
          refine .some ⟨rfl, List.prefix_refl _, rfl, fun failed isFailed => ?_⟩
          cases isFailed
          rw [unwound, List.reverse_nil, List.append_nil]
      | ok between => exact sound _ seed input state unwound

/-- The turns over a map leave the path to the read that failed last, and its key named. -/
theorem runMap_left (sound : Sound read found) (turn : List (MapAnswer E V) → MapTurn E S K V) (turns : Nat)
    {answers : List (MapAnswer E V)} {members : Members} {name : Option Text} {last : Option (List Step)}
    {input : P} {state : State} (began : members.start = keys.length) (kept : keys <+: state.keys)
    (names : Names members.key state.keys name) (path : last.getD position = position ++ state.path.reverse) :
    Option.Rel (Left keys position) (runMap parser read turn turns answers members input state)
      (locateMap parser found position turn turns answers name last input) := by
  induction turns generalizing answers members name last input state with
  | zero => exact .none
  | succ turns ih =>
      rw [runMap, locateMap]
      cases turn answers with
      | ret result => exact .some ⟨rfl, kept, rfl, path⟩
      | key seed =>
          have cut : (state.begun.truncate members.start).keys = keys := by
            rw [State.truncate, State.begun, began]
            exact (List.prefix_iff_eq_take.mp kept).symm
          unfold nextKey
          dsimp only
          rw [cut]
          cases parser.key seed input with
          | mk answer input =>
              cases answer with
              | done =>
                  refine ih began ?_ (names_absent _) (List.append_nil position).symm
                  rw [State.begun, cut]
              | failed named error =>
                  refine ih began (prefix_record named keys) (names_record named keys) ?_
                  dsimp only
                  rw [names_record named keys _ (List.prefix_refl _)]
                  cases named.name <;> rfl
              | read named value =>
                  exact ih began (prefix_record named keys) (names_record named keys)
                    (List.append_nil position).symm
      | value seed =>
          have unwound : state.begun.path = [] := rfl
          unfold nextValue
          dsimp only
          rw [Option.bind_map]
          refine rel_bind (innerValue_agrees sound unwound name seed input) fun ran other agrees => ?_
          obtain ⟨result, input, after⟩ := ran
          obtain ⟨result', input'⟩ := other
          have isNamed : members.key.name after.keys = name := names _ agrees.keys
          have isInput := agrees.input
          have isResult := agrees.result
          dsimp only at isInput isResult
          subst isInput isResult
          rw [Function.comp_apply, isNamed]
          exact ih began (kept.trans agrees.passOn.keys) (names.grow agrees.passOn.keys) agrees.left

/-- A container that is closed fails where its visitor's path leads. -/
theorem Agrees.close {stands : List Step} {ran : Ran P E V} {other : Found P E V} (agrees : Agrees keys position ran other)
    (container : Container) (path : ∀ value, other.1 = .ok value → stands = position ++ ran.2.2.path.reverse) :
    Agrees keys position (closed parser container ran) (locateClosed parser container stands other) := by
  obtain ⟨result, input, state⟩ := ran
  obtain ⟨result', input'⟩ := other
  have isInput := agrees.input
  have isResult := agrees.result
  dsimp only at isInput isResult
  subst isInput isResult
  cases result' with
  | error failed =>
      refine ⟨rfl, agrees.keys, rfl, fun other isFailed => ?_⟩
      cases isFailed
      exact agrees.path failed rfl
  | ok value =>
      have leads := path value rfl
      change Agrees keys position (closed parser container (.ok value, input, state)) _
      rw [closed, locateClosed]
      cases parser.close container true input with
      | mk ended input =>
          cases ended with
          | error error =>
              refine ⟨rfl, agrees.keys, rfl, fun failed isFailed => ?_⟩
              cases isFailed
              exact leads
          | ok between => exact ⟨rfl, agrees.keys, rfl, nofun⟩

/-- What a container's visitor returned agrees on where it failed. -/
theorem Left.close {ran : Ran P E V} {left : Except E V × Option (List Step) × P} (leaves : Left keys position ran left)
    (container : Container) :
    Agrees keys position (closed parser container ran) (returned parser false container position left) := by
  obtain ⟨result, input, state⟩ := ran
  obtain ⟨result', last, input'⟩ := left
  have isResult := leaves.result
  dsimp only at isResult
  subst isResult
  refine Agrees.close ⟨leaves.input, leaves.keys, ?_, fun failed isFailed => ?_⟩ container fun value isValue => leaves.path
  · cases result <;> rfl
  · cases result with
    | error error =>
        cases isFailed
        exact leaves.path
    | ok value => cases isFailed

/-- A read that agrees, and leaves no path where it succeeds. -/
structure Settles (keys : Text) (position : List Step) (ran : Ran P E α) (found : Found P E α) : Prop
    extends Agrees keys position ran found where
  unwound : ∀ value, found.1 = .ok value → ran.2.2.path = []

/-- The content of a variant fails at its member where it was entered, and at the enum
otherwise. -/
theorem within_settles {name : Key} {called : Option Text} (names : Names name keys called) (entered : Bool)
    {ran : Ran P E V} {other : Found P E V}
    (agrees : Agrees keys (if entered then memberAt position called else position) ran other) :
    Settles keys position (within name entered ran) other := by
  obtain ⟨result, input, state⟩ := ran
  have isNamed : name.name state.keys = called := names _ agrees.keys
  have isStep : (if entered then memberAt position called else position) =
      position ++ (if entered then called.map Step.member else none).toList := by
    cases entered with
    | false => exact (List.append_nil position).symm
    | true => rfl
  rw [isStep] at agrees
  rw [within, isNamed]
  refine ⟨agrees.passOn, fun value isValue => ?_⟩
  have isOk := agrees.result
  rw [isValue] at isOk
  cases isOk
  rfl

theorem Settles.weaken {shorter : Text} {ran : Ran P E α} {other : Found P E α}
    (settles : Settles keys position ran other) (kept : shorter <+: keys) : Settles shorter position ran other :=
  ⟨settles.toAgrees.weaken kept, settles.unwound⟩

theorem Settles.wrap {ran : Ran P E V} {other : Found P E V} (settles : Settles keys position ran other)
    (change : V → V) : Settles keys position (wrapped change ran) (wrappedAt change other) := by
  refine ⟨settles.toAgrees.wrap change, fun value isValue => ?_⟩
  obtain ⟨result, input⟩ := other
  cases result with
  | error failed => cases isValue
  | ok read => exact settles.unwound read rfl

/-- A failure noted where its path is empty is at the position read. -/
theorem settles_error {input : P} (state : State) (unwound : state.path = []) (error : E) :
    Settles (α := α) state.keys position (.error error, input, state) (.error ⟨error, position⟩, input) := by
  refine ⟨⟨rfl, List.prefix_refl _, rfl, fun failed isFailed => ?_⟩, nofun⟩
  cases isFailed
  rw [unwound, List.reverse_nil, List.append_nil]

theorem settles_ok {input : P} {state : State} (unwound : state.path = []) (value : α) :
    Settles (E := E) state.keys position (.ok value, input, state) (.ok value, input) :=
  ⟨⟨rfl, List.prefix_refl _, rfl, nofun⟩, fun _ _ => unwound⟩

/-- The content of a variant settles. -/
theorem runContent_settles (sound : Sound read found) {name : Key} {called : Option Text} {state : State}
    (unwound : state.path = []) (names : Names name state.keys called) (input : P) (content : Content E S K V) :
    Option.Rel (Settles state.keys position) (runContent parser read name input state content)
      (locateContent parser false found position called input content) := by
  have variant (request : Request) (visitor : Visitor E S K V) :
      Option.Rel (Settles state.keys position) (runVariant parser read name request visitor input state)
        (found (if isEntered (parser.hand request input).1 then memberAt position called else position)
          (.read request visitor) input) := by
    exact rel_mapLeft (sound _ _ input state.begun rfl) fun ran other agrees => within_settles names _ agrees
  cases content with
  | refuse error => exact .some (settles_error state unwound error)
  | unit value =>
      rw [runContent, locateContent]
      cases parser.unitVariant input with
      | mk answer input =>
          cases answer with
          | error error => exact .some (settles_error state unwound error)
          | ok between => exact .some (settles_ok unwound value)
  | newtype reader wrap =>
      rw [runContent, locateContent]
      cases parser.newtypeVariant input with
      | mk answer input =>
          cases answer with
          | error error =>
              exact .some (within_settles names false (settles_error state.begun rfl error).toAgrees)
          | ok between =>
              have settled := rel_mapLeft (sound (memberAt position called) reader input state.begun rfl)
                fun ran other agrees => within_settles names true agrees
              exact rel_map settled fun ran other settles => settles.wrap wrap
  | tuple visitor => exact variant .tupleVariant visitor
  | struct visitor => exact variant .structVariant visitor

/-- An enum's visitor settles. -/
theorem runEnum_settles (sound : Sound read found) {state : State} (unwound : state.path = []) (input : P)
    (visitor : EnumVisitor E S K V) :
    Option.Rel (Settles state.keys position) (runEnum parser read input state visitor)
      (locateEnum parser false found position input visitor) := by
  cases visitor with
  | refuse error => exact .some (settles_error state unwound error)
  | variant seed content =>
      rw [runEnum, locateEnum]
      cases parser.variant seed input with
      | mk answer input =>
          obtain ⟨named, result⟩ := answer
          have kept := prefix_record named state.keys
          cases result with
          | error error =>
              exact .some ((settles_error { state.begun with keys := (named.record state.keys).2 } rfl error).weaken kept)
          | ok value =>
              exact rel_imp (runContent_settles sound rfl (names_record named state.keys) input (content value))
                fun ran other settles => settles.weaken kept

/-- A value agrees on where it fails, by what its visitor is handed. -/
theorem visit_agrees (sound : Sound read found) (turns : Nat) (isObject : Bool) {state : State}
    (unwound : state.path = []) (input : P) (visitor : Visitor E S K V) (handed : Handed E S) :
    Option.Rel (Agrees state.keys position) (visit parser read turns isObject input state visitor handed)
      (locateVisit parser false found turns isObject position input visitor handed) := by
  have onward (turn : Onward E S K V) :
      Option.Rel (Agrees state.keys position) (runOnward read input state turn) (locateOnward found position input turn) := by
    cases turn with
    | refuse error => exact .some (settles_error state unwound error).toAgrees
    | read reader wrap =>
        exact rel_map (sound position reader input state unwound) fun ran other agrees => agrees.wrap wrap
  obtain ⟨scalar, present, newtype, seq, map, enum⟩ := visitor
  have begins : (none : Option (List Step)).getD position = position ++ state.path.reverse := by
    rw [unwound, List.reverse_nil, List.append_nil, Option.getD_none]
  cases handed with
  | failed error => exact .some (settles_error state unwound error).toAgrees
  | scalar value =>
      rw [visit, locateVisit]
      cases scalar value with
      | error error => exact .some (settles_error state unwound error).toAgrees
      | ok value => exact .some (settles_ok unwound value).toAgrees
  | present => exact onward present
  | newtype => exact onward newtype
  | seq =>
      cases isObject with
      | true =>
          have refused : Agrees state.keys position
              ((.error parser.notObject, input, { state with refused := true }) : Ran P E V) _ :=
            (settles_error { state with refused := true } unwound parser.notObject).toAgrees
          exact .some (refused.close .seq nofun)
      | false =>
          exact rel_map (runSeq_left sound seq turns rfl (List.prefix_refl _) begins) fun ran left leaves =>
            leaves.close .seq
  | map =>
      exact rel_map (runMap_left sound map turns rfl (List.prefix_refl _) (names_absent _) begins) fun ran left leaves =>
        leaves.close .map
  | enum =>
      refine rel_map (runEnum_settles sound unwound input enum) fun ran other settles => ?_
      refine settles.close .enum fun value isValue => ?_
      rw [settles.unwound value isValue, List.reverse_nil, List.append_nil]

end Agreement

/-- A value put in place of a failure keeps the names. -/
theorem Agrees.recovered {keys : Text} {position : List Step} {ran : Ran P E V} {other : Found P E V}
    (agrees : Agrees keys position ran other) (value : E → V) :
    Agrees keys position (recovered value ran) (recoveredAt value other) := by
  obtain ⟨result, input, state⟩ := ran
  obtain ⟨result', input'⟩ := other
  have isResult := agrees.result
  dsimp only at isResult
  subst isResult
  cases result' <;> exact ⟨agrees.input, agrees.keys, rfl, nofun⟩

/-- Every reader agrees on where it fails. -/
theorem readStrict_sound (parser : Parser P E S K V) (turns : Nat) :
    Sound (readStrict parser turns) (locate parser false turns) := by
  induction turns with
  | zero => exact fun _ _ _ _ _ => .none
  | succ turns ih =>
      intro position reader input state unwound
      cases reader with
      | recover reader value =>
          exact rel_map (ih position reader input state unwound) fun ran other agrees => agrees.recovered value
      | read request visitor =>
          rw [readStrict, locate]
          exact visit_agrees ih turns request.isObject unwound (parser.hand request input).2 visitor
            (parser.hand request input).1

/-! ## Pointers -/

theorem escapeTildes_cons {letter : Char} (notSlash : letter ≠ '/') (rest : Text) :
    escapeTildes (letter :: rest) = Text.Pointer.escapeCharacter letter ++ escapeTildes rest := by
  rw [escapeTildes, List.flatMap_cons, Text.Pointer.escapeCharacter]
  split_ifs <;> rfl

theorem intercalate_append_cons {α : Type} (separator before first : List α) (list : List (List α)) :
    separator.intercalate ((before ++ first) :: list) = before ++ separator.intercalate (first :: list) := by
  cases list with
  | nil => rw [List.intercalate_singleton, List.intercalate_singleton]
  | cons second list =>
      rw [List.intercalate_cons_of_ne_nil (List.cons_ne_nil second list),
        List.intercalate_cons_of_ne_nil (List.cons_ne_nil second list), List.append_assoc, List.append_assoc,
        List.append_assoc]

/-- Tildes are escaped between slashes, and slashes where they part a name. -/
theorem intercalate_escapeTildes (name : Text) :
    "~1".toList.intercalate ((name.splitOn '/').map escapeTildes) = Text.Pointer.escape name := by
  induction name with
  | nil => rfl
  | cons letter name ih =>
      rw [List.splitOn_cons_eq_if_modifyHead, Text.Pointer.escape_cons, ← ih]
      cases split : name.splitOn '/' with
      | nil => exact absurd split (List.splitOn_ne_nil _ _)
      | cons first list =>
          split_ifs with isSlash
          · rw [eq_of_beq isSlash, List.map_cons, List.intercalate_cons_of_ne_nil (by simp)]
            rfl
          · have notSlash : letter ≠ '/' := fun slash => isSlash (beq_iff_eq.mpr slash)
            rw [List.modifyHead_cons, List.map_cons, escapeTildes_cons notSlash, intercalate_append_cons,
              List.map_cons]

theorem escape_decimal (number : Nat) : Text.Pointer.escape (Text.decimal number) = Text.decimal number := by
  have plain {letter : Char} (member : letter ∈ Text.decimal number) : Text.Pointer.escapeCharacter letter = [letter] := by
    have isDigit := Text.isAsciiDigit_of_mem_decimal member
    refine Text.Pointer.escapeCharacter_of_ne ?_ ?_ <;> rintro rfl <;> cases isDigit
  rw [Text.Pointer.escape, List.flatMap_congr fun letter member => plain member, List.flatMap_singleton']

/-- A step is displayed as the escape of its token. -/
theorem Step.text_eq (step : Step) : step.text = '/' :: Text.Pointer.escape step.token := by
  cases step with
  | member name => rw [Step.text, intercalate_escapeTildes, Step.token]
  | index position => rw [Step.text, Step.token, escape_decimal]

theorem flatMap_text (steps : List Step) : steps.flatMap Step.text = Text.Pointer.render (steps.map Step.token) := by
  rw [Text.Pointer.render, List.flatMap_map]
  exact List.flatMap_congr fun step _ => step.text_eq

/-- A document that does not read is keyed where it failed, under the base, for every
deserializer and every reader; and a struct is refused an array where it stands. -/
theorem fromSlice_pointer (parser : Parser P E S K V) (turns : Nat) (base : List Step) :
    (∀ reader input, (fromSlice parser turns reader input).map (Except.mapError (Failure.pointer · base)) =
      (locateSlice parser false turns reader input).map
        (Except.mapError fun failed => Text.Pointer.render ((base ++ failed.position).map Step.token))) ∧
      ∀ position request visitor input array, request.isObject = true → parser.hand request input = (.seq, array) →
        locate parser false (turns + 1) position (.read request visitor) input =
          some (.error ⟨parser.notObject, position⟩, (parser.close .seq false array).2) := by
  constructor
  · intro reader input
    have agrees := readStrict_sound parser turns [] reader input .empty rfl
    rw [fromSlice, locateSlice, Option.map_map, Option.map_map]
    generalize readStrict parser turns reader input .empty = ran at agrees ⊢
    generalize locate parser false turns [] reader input = found at agrees ⊢
    cases agrees with
    | none => rfl
    | @some ran found agrees =>
        obtain ⟨result, rest, state⟩ := ran
        obtain ⟨result', rest'⟩ := found
        have isInput := agrees.input
        have isResult := agrees.result
        dsimp only at isInput isResult
        subst isInput isResult
        cases result' with
        | error failed =>
            have isPosition : failed.position = state.path.reverse := agrees.path failed rfl
            refine congrArg some (congrArg Except.error ?_)
            change (base ++ state.path.reverse).flatMap Step.text = _
            rw [flatMap_text, ← isPosition]
        | ok value =>
            rw [Option.map_some, Option.map_some, Function.comp_apply, Function.comp_apply]
            simp only [Except.mapError, Except.bind]
            cases parser.finish rest with
            | error error => exact congrArg some (congrArg Except.error (flatMap_text (base ++ [])))
            | ok between => rfl
  · rintro position request ⟨scalar, present, newtype, seq, map, enum⟩ input array isObject isArray
    rw [locate, isArray, isObject]
    rfl

/-! ## Content of another kind -/

/-- A token of the object below. -/
inductive Token
  | opened
  | name (text : Text)
  | number
  | closed

/-- A deserializer of `{"name": number}`, read as an enum. -/
def tokens : Parser (List Token) Text Unit Unit Unit where
  hand request
    | .opened :: input => if request = .enum then (.enum, input) else (.failed "invalid type: map".toList, input)
    | .number :: input =>
        if request = .any then (.scalar (), input) else (.failed "invalid type: integer".toList, input)
    | input => (.failed "expected value".toList, input)
  close
    | .enum, true, .closed :: input => (.ok (), input)
    | _, true, input => (.error "expected value".toList, input)
    | _, false, input => (.ok (), input)
  hasElement input := (.ok false, input)
  key _ input := (.done, input)
  colon input := (.ok (), input)
  variant _
    | .name text :: input => ((.borrowed text, .ok ()), input)
    | input => ((.nothing, .error "expected value".toList), input)
  hasContent _ := true
  unitVariant
    | .number :: input => (.error "invalid type: integer".toList, input)
    | input => (.error "expected value".toList, input)
  newtypeVariant input := (.ok (), input)
  finish input := if input.isEmpty then .ok () else .error "trailing characters".toList
  syntaxError := none
  notObject := "invalid type: sequence".toList

/-- A visitor that is handed no sequence. -/
def emptyVisitor : Visitor Text Unit Unit Unit :=
  .mk (fun () => .error "invalid type".toList) (.refuse "invalid type".toList) (.refuse "invalid type".toList)
    (fun _ => .ret (.ok ())) (fun _ => .ret (.ok ())) (.refuse "invalid type".toList)

/-- An enum of a variant that holds a tuple. -/
def tupleVariantReader : Reader Text Unit Unit Unit :=
  .read .enum (.mk (fun () => .error "invalid type".toList) (.refuse "invalid type".toList)
    (.refuse "invalid type".toList) (fun _ => .ret (.ok ())) (fun _ => .ret (.ok ()))
    (.variant () fun () => .tuple emptyVisitor))

/-- Of `{"A": 5}`, the tuple of `A` fails at `/A`, and is keyed at the enum. -/
theorem fromSlice_pointer_ofKind :
    (fromSlice tokens 2 tupleVariantReader [.opened, .name ['A'], .number, .closed]).map
        (Except.mapError (Failure.pointer · [])) ≠
      (locateSlice tokens true 2 tupleVariantReader [.opened, .name ['A'], .number, .closed]).map
        (Except.mapError fun failed => Text.Pointer.render (([] ++ failed.position).map Step.token)) := by
  have keyed : (fromSlice tokens 2 tupleVariantReader [.opened, .name ['A'], .number, .closed]).map
      (Except.mapError (Failure.pointer · [])) = some (.error []) := rfl
  have stands : (locateSlice tokens true 2 tupleVariantReader [.opened, .name ['A'], .number, .closed]).map
      (Except.mapError fun failed => Text.Pointer.render (([] ++ failed.position).map Step.token)) =
        some (.error ['/', 'A']) := rfl
  rw [keyed, stands]
  exact fun same => nomatch same

end Kynos.Body.StrictJson

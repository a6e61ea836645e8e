import Kynos.OpenApi.ResponseHeaders
import Kynos.Text.Pointer

/-!
# Walking a document

Path items stand under `paths`, `webhooks` and the components, and below the
operations of path items, in callbacks. A walk over a document comes to each
operation where it is written, and follows no reference.
-/

namespace Kynos.OpenApi

/-! ## The source -/

/-- `LinkTarget`. -/
inductive LinkTarget
  | uri (uri : Text)
  | id (id : Text)
  deriving DecidableEq

/-- `Link`. -/
structure Link where
  target : LinkTarget
  deriving DecidableEq

/-- A response, which beside its headers has links. -/
abbrev LinkingResponse := Response Unit (Map (RefOr Link))

/-- Responses that have links. -/
abbrev LinkingResponses := Responses Unit (Map (RefOr Link)) Unit

mutual

/-- `PathItem`. -/
inductive PathItem
  | mk (reference : Option Text) (get put post delete options head patch trace query : Option Operation)
      (additionalOperations : List (Text × Operation))

/-- `Operation`. -/
inductive Operation
  | mk (operationId : Option Text) (responses : LinkingResponses)
      (callbacks : List (Text × RefOr Callback))

/-- `Callback`. -/
inductive Callback
  | mk (items : List (Text × RefOr PathItem))

end

/-- `Method`. -/
inductive Method
  | get
  | put
  | post
  | delete
  | options
  | head
  | patch
  | trace
  | query
  deriving DecidableEq

namespace Method

/-- `Method::all`. -/
def all : List Method :=
  [.get, .put, .post, .delete, .options, .head, .patch, .trace, .query]

/-- `Method::field_name`. -/
def fieldName : Method → Text
  | .get => "get".toList
  | .put => "put".toList
  | .post => "post".toList
  | .delete => "delete".toList
  | .options => "options".toList
  | .head => "head".toList
  | .patch => "patch".toList
  | .trace => "trace".toList
  | .query => "query".toList

theorem mem_all (method : Method) : method ∈ all := by
  cases method <;> decide

end Method

namespace PathItem

/-- The `$ref` of a path item. -/
def reference : PathItem → Option Text
  | mk reference .. => reference

/-- `PathItem::operation`. -/
def operation : PathItem → Method → Option Operation
  | mk _ get put post delete options head patch trace query _, method =>
      match method with
      | .get => get
      | .put => put
      | .post => post
      | .delete => delete
      | .options => options
      | .head => head
      | .patch => patch
      | .trace => trace
      | .query => query

/-- The operations of a path item by other methods. -/
def additionalOperations : PathItem → List (Text × Operation)
  | mk _ _ _ _ _ _ _ _ _ _ additionalOperations => additionalOperations

/-- `PathItem::operations`. -/
def operations (item : PathItem) : List (Method × Operation) :=
  Method.all.filterMap fun method => (item.operation method).map (method, ·)

end PathItem

namespace Operation

def operationId : Operation → Option Text
  | mk operationId _ _ => operationId

def responses : Operation → LinkingResponses
  | mk _ responses _ => responses

def callbacks : Operation → List (Text × RefOr Callback)
  | mk _ _ callbacks => callbacks

end Operation

def Callback.items : Callback → List (Text × RefOr PathItem)
  | mk items => items

/-- `Components`, as far as path items and links go. -/
structure Components where
  responses : Map (RefOr LinkingResponse)
  links : Map (RefOr Link)
  callbacks : Map (RefOr Callback)
  pathItems : Map PathItem

/-- `Document`, as far as path items and links go. -/
structure Document where
  paths : Map PathItem
  webhooks : Map PathItem
  components : Components

/-- `At`: the tokens that lead from the document to a place in it. -/
abbrev At := List Text

/-- `At::pointer`. -/
def At.pointer (place : At) : Text :=
  '#' :: Text.Pointer.render place

/-- What a walk tells its visitor of. -/
inductive Visited
  | pathItem (place : At) (item : PathItem)
  | operationWalked (place : At) (operation : Operation)
  | reference (place : At) (uri : Text)

/-! ## Sizes -/

theorem PathItem.mem_operations {item : PathItem} {method : Method} {operation : Operation} :
    (method, operation) ∈ item.operations ↔ item.operation method = some operation := by
  simp only [operations, List.mem_filterMap, Option.map_eq_some_iff, Prod.mk.injEq]
  constructor
  · rintro ⟨_, -, _, isOperation, rfl, rfl⟩
    exact isOperation
  · intro isOperation
    exact ⟨method, method.mem_all, operation, isOperation, rfl, rfl⟩

theorem PathItem.sizeOf_operation {item : PathItem} {method : Method} {operation : Operation}
    (isOperation : item.operation method = some operation) : sizeOf operation < sizeOf item := by
  cases item
  cases method <;>
  · cases isOperation
    simp only [mk.sizeOf_spec, Option.some.sizeOf_spec]
    omega

theorem PathItem.sizeOf_additional {item : PathItem} {entry : Text × Operation}
    (member : entry ∈ item.additionalOperations) : sizeOf entry.2 < sizeOf item := by
  obtain ⟨reference, get, put, post, delete, options, head, patch, trace, query, additional⟩ := item
  have below : sizeOf entry < sizeOf additional := List.sizeOf_lt_of_mem member
  have held : sizeOf entry.2 < sizeOf entry := by
    obtain ⟨name, operation⟩ := entry
    simp only [Prod.mk.sizeOf_spec]
    omega
  simp only [mk.sizeOf_spec]
  omega

theorem Operation.sizeOf_callback {operation : Operation} {entry : Text × RefOr Callback}
    (member : entry ∈ operation.callbacks) : sizeOf entry.2 < sizeOf operation := by
  obtain ⟨operationId, responses, callbacks⟩ := operation
  have below : sizeOf entry < sizeOf callbacks := List.sizeOf_lt_of_mem member
  have held : sizeOf entry.2 < sizeOf entry := by
    obtain ⟨name, callback⟩ := entry
    simp only [Prod.mk.sizeOf_spec]
    omega
  simp only [mk.sizeOf_spec]
  omega

theorem Callback.sizeOf_item {callback : Callback} {entry : Text × RefOr PathItem}
    (member : entry ∈ callback.items) : sizeOf entry.2 < sizeOf callback := by
  obtain ⟨items⟩ := callback
  have below : sizeOf entry < sizeOf items := List.sizeOf_lt_of_mem member
  have held : sizeOf entry.2 < sizeOf entry := by
    obtain ⟨name, item⟩ := entry
    simp only [Prod.mk.sizeOf_spec]
    omega
  simp only [mk.sizeOf_spec]
  omega

/-! ## The walk -/

mutual

/-- `walk_path_item`. -/
def walkPathItem (place : At) (item : PathItem) : List Visited :=
  .pathItem place item ::
    ((item.operations.attach.flatMap fun entry =>
      walkOperation (place ++ [entry.1.1.fieldName]) entry.1.2) ++
    item.additionalOperations.attach.flatMap fun entry =>
      walkOperation (place ++ ["additionalOperations".toList, entry.1.1]) entry.1.2)
termination_by sizeOf item
decreasing_by
  · exact PathItem.sizeOf_operation (PathItem.mem_operations.mp entry.2)
  · exact PathItem.sizeOf_additional entry.2

/-- `walk_operation`. -/
def walkOperation (place : At) (operation : Operation) : List Visited :=
  (operation.callbacks.attach.flatMap fun entry =>
    callbackOrReference (place ++ ["callbacks".toList, entry.1.1]) entry.1.2) ++
  [.operationWalked place operation]
termination_by sizeOf operation
decreasing_by exact Operation.sizeOf_callback entry.2

/-- `callback_or_reference`. -/
def callbackOrReference (place : At) : RefOr Callback → List Visited
  | .item entry => walkCallback place entry
  | .ref uri => [.reference place uri]
termination_by entry => sizeOf entry

/-- `callback`. -/
def walkCallback (place : At) (callback : Callback) : List Visited :=
  callback.items.attach.flatMap fun entry => walkEntry (place ++ [entry.1.1]) entry.1.2
termination_by sizeOf callback
decreasing_by exact Callback.sizeOf_item entry.2

/-- One entry of a callback. -/
def walkEntry (place : At) : RefOr PathItem → List Visited
  | .item item => walkPathItem place item
  | .ref uri => [.reference place uri]
termination_by entry => sizeOf entry

end

/-- `document`: `paths`, `webhooks`, the path items of the components, and their
callbacks. -/
def walk (document : Document) : List Visited :=
  (document.paths.flatMap fun entry => walkPathItem ["paths".toList, entry.1] entry.2) ++
  (document.webhooks.flatMap fun entry => walkPathItem ["webhooks".toList, entry.1] entry.2) ++
  (document.components.pathItems.flatMap fun entry =>
    walkPathItem ["components".toList, "pathItems".toList, entry.1] entry.2) ++
  document.components.callbacks.flatMap fun entry =>
    callbackOrReference ["components".toList, "callbacks".toList, entry.1] entry.2

section Members

variable {place : At} {visited : Visited}

theorem mem_walkPathItem {item : PathItem} : visited ∈ walkPathItem place item ↔
    visited = .pathItem place item ∨
      (∃ method operation, item.operation method = some operation ∧
        visited ∈ walkOperation (place ++ [method.fieldName]) operation) ∨
      ∃ entry ∈ item.additionalOperations,
        visited ∈ walkOperation (place ++ ["additionalOperations".toList, entry.1]) entry.2 := by
  rw [walkPathItem, List.mem_cons, List.mem_append]
  simp only [List.mem_flatMap, List.mem_attach, true_and, Subtype.exists, Prod.exists,
    PathItem.mem_operations, exists_prop]

theorem mem_walkOperation {operation : Operation} : visited ∈ walkOperation place operation ↔
    (∃ entry ∈ operation.callbacks,
      visited ∈ callbackOrReference (place ++ ["callbacks".toList, entry.1]) entry.2) ∨
    visited = .operationWalked place operation := by
  rw [walkOperation, List.mem_append, List.mem_singleton]
  simp only [List.mem_flatMap, List.mem_attach, true_and, Subtype.exists, exists_prop]

theorem mem_walkCallback {callback : Callback} : visited ∈ walkCallback place callback ↔
    ∃ entry ∈ callback.items, visited ∈ walkEntry (place ++ [entry.1]) entry.2 := by
  rw [walkCallback]
  simp only [List.mem_flatMap, List.mem_attach, true_and, Subtype.exists, exists_prop]

theorem callbackOrReference_item (callback : Callback) :
    callbackOrReference place (.item callback) = walkCallback place callback := by
  rw [callbackOrReference]

theorem callbackOrReference_ref (uri : Text) :
    callbackOrReference place (.ref uri) = [.reference place uri] := by
  rw [callbackOrReference]

theorem walkEntry_item (item : PathItem) : walkEntry place (.item item) = walkPathItem place item := by
  rw [walkEntry]

theorem walkEntry_ref (uri : Text) : walkEntry place (.ref uri) = [.reference place uri] := by
  rw [walkEntry]

theorem mem_walk {document : Document} : visited ∈ walk document ↔
    (∃ entry ∈ document.paths, visited ∈ walkPathItem ["paths".toList, entry.1] entry.2) ∨
    (∃ entry ∈ document.webhooks, visited ∈ walkPathItem ["webhooks".toList, entry.1] entry.2) ∨
    (∃ entry ∈ document.components.pathItems,
      visited ∈ walkPathItem ["components".toList, "pathItems".toList, entry.1] entry.2) ∨
    ∃ entry ∈ document.components.callbacks,
      visited ∈ callbackOrReference ["components".toList, "callbacks".toList, entry.1] entry.2 := by
  simp only [walk, List.mem_append, List.mem_flatMap, or_assoc]

end Members

/-! ## Where objects stand -/

/-- An object that a walk comes to. -/
inductive Node
  | pathItem (item : PathItem)
  | operation (operation : Operation)
  | callback (entry : RefOr Callback)
  | entry (entry : RefOr PathItem)

/-- The tokens that lead to an object of a document. -/
inductive Stands (document : Document) : At → Node → Prop where
  | path {key : Text} {item : PathItem} (member : (key, item) ∈ document.paths) :
      Stands document ["paths".toList, key] (.pathItem item)
  | webhook {key : Text} {item : PathItem} (member : (key, item) ∈ document.webhooks) :
      Stands document ["webhooks".toList, key] (.pathItem item)
  | component {key : Text} {item : PathItem} (member : (key, item) ∈ document.components.pathItems) :
      Stands document ["components".toList, "pathItems".toList, key] (.pathItem item)
  | callback {key : Text} {entry : RefOr Callback} (member : (key, entry) ∈ document.components.callbacks) :
      Stands document ["components".toList, "callbacks".toList, key] (.callback entry)
  | method {place : At} {item : PathItem} {method : Method} {operation : Operation}
      (above : Stands document place (.pathItem item)) (held : item.operation method = some operation) :
      Stands document (place ++ [method.fieldName]) (.operation operation)
  | additional {place : At} {item : PathItem} {method : Text} {operation : Operation}
      (above : Stands document place (.pathItem item))
      (member : (method, operation) ∈ item.additionalOperations) :
      Stands document (place ++ ["additionalOperations".toList, method]) (.operation operation)
  | operationCallback {place : At} {operation : Operation} {key : Text} {entry : RefOr Callback}
      (above : Stands document place (.operation operation)) (member : (key, entry) ∈ operation.callbacks) :
      Stands document (place ++ ["callbacks".toList, key]) (.callback entry)
  | expression {place : At} {callback : Callback} {key : Text} {entry : RefOr PathItem}
      (above : Stands document place (.callback (.item callback))) (member : (key, entry) ∈ callback.items) :
      Stands document (place ++ [key]) (.entry entry)
  | inline {place : At} {item : PathItem} (above : Stands document place (.entry (.item item))) :
      Stands document place (.pathItem item)

/-- What a walk comes to from an object on. -/
def Node.walk (place : At) : Node → List Visited
  | .pathItem held => walkPathItem place held
  | .operation held => walkOperation place held
  | .callback held => callbackOrReference place held
  | .entry held => walkEntry place held

/-- What is visited stands where the visitor is told. -/
def Visited.Stands (document : Document) : Visited → Prop
  | .pathItem place item => OpenApi.Stands document place (.pathItem item)
  | .operationWalked place operation => OpenApi.Stands document place (.operation operation)
  | .reference place uri => OpenApi.Stands document place (.callback (.ref uri)) ∨
      OpenApi.Stands document place (.entry (.ref uri))

/-- A walk comes to all there is from an object on. -/
theorem Stands.subset {document : Document} {place : At} {node : Node} (stands : Stands document place node) :
    node.walk place ⊆ walk document := by
  induction stands with
  | path member => exact fun _ visited => mem_walk.mpr (.inl ⟨_, member, visited⟩)
  | webhook member => exact fun _ visited => mem_walk.mpr (.inr (.inl ⟨_, member, visited⟩))
  | component member => exact fun _ visited => mem_walk.mpr (.inr (.inr (.inl ⟨_, member, visited⟩)))
  | callback member => exact fun _ visited => mem_walk.mpr (.inr (.inr (.inr ⟨_, member, visited⟩)))
  | method _ held ih => exact fun _ visited => ih (mem_walkPathItem.mpr (.inr (.inl ⟨_, _, held, visited⟩)))
  | additional _ member ih =>
      exact fun _ visited => ih (mem_walkPathItem.mpr (.inr (.inr ⟨_, member, visited⟩)))
  | operationCallback _ member ih =>
      exact fun _ visited => ih (mem_walkOperation.mpr (.inl ⟨_, member, visited⟩))
  | @expression place callback key entry _ member ih =>
      intro _ visited
      refine ih ?_
      rw [Node.walk, callbackOrReference_item, mem_walkCallback]
      exact ⟨_, member, visited⟩
  | @inline place item _ ih =>
      intro _ visited
      refine ih ?_
      rw [Node.walk, walkEntry_item]
      exact visited

/-- A walk comes to nothing else. -/
theorem Stands.forall_visited {document : Document} {place : At} {node : Node}
    (stands : Stands document place node) : ∀ visited ∈ node.walk place, visited.Stands document := by
  induction size : sizeOf node using Nat.strong_induction_on generalizing place node with
  | _ _ ih =>
      subst size
      intro visited member
      cases node with
      | pathItem item =>
          rcases mem_walkPathItem.mp member with rfl | ⟨method, operation, held, below⟩ | ⟨entry, held, below⟩
          · exact stands
          · exact ih _ (Nat.add_lt_add_left (PathItem.sizeOf_operation held) 1) (stands.method held) rfl visited below
          · exact ih _ (Nat.add_lt_add_left (PathItem.sizeOf_additional held) 1) (stands.additional held) rfl visited below
      | operation operation =>
          rcases mem_walkOperation.mp member with ⟨entry, held, below⟩ | rfl
          · exact ih _ (Nat.add_lt_add_left (Operation.sizeOf_callback held) 1) (stands.operationCallback held) rfl
              visited below
          · exact stands
      | callback entry =>
          cases entry with
          | ref uri =>
              rw [Node.walk, callbackOrReference_ref, List.mem_singleton] at member
              subst member
              exact .inl stands
          | item callback =>
              rw [Node.walk, callbackOrReference_item, mem_walkCallback] at member
              obtain ⟨entry, held, below⟩ := member
              refine ih _ ?_ (stands.expression held) rfl visited below
              have below := Callback.sizeOf_item held
              simp only [Node.entry.sizeOf_spec, Node.callback.sizeOf_spec, RefOr.item.sizeOf_spec]
              omega
      | entry entry =>
          cases entry with
          | ref uri =>
              rw [Node.walk, walkEntry_ref, List.mem_singleton] at member
              subst member
              exact .inr stands
          | item item =>
              rw [Node.walk, walkEntry_item] at member
              refine ih _ ?_ stands.inline rfl visited member
              simp only [Node.entry.sizeOf_spec, Node.pathItem.sizeOf_spec, RefOr.item.sizeOf_spec]
              omega

/-- What a walk comes to is what stands in the document. -/
theorem mem_walk_iff {document : Document} {visited : Visited} :
    visited ∈ walk document ↔ visited.Stands document := by
  constructor
  · intro member
    rcases mem_walk.mp member with ⟨entry, held, below⟩ | ⟨entry, held, below⟩ | ⟨entry, held, below⟩ |
      ⟨entry, held, below⟩
    · exact Stands.forall_visited (.path held) visited below
    · exact Stands.forall_visited (.webhook held) visited below
    · exact Stands.forall_visited (.component held) visited below
    · exact Stands.forall_visited (.callback held) visited below
  · intro stands
    cases visited with
    | pathItem place item => exact OpenApi.Stands.subset stands (mem_walkPathItem.mpr (.inl rfl))
    | operationWalked place operation =>
        exact OpenApi.Stands.subset stands (mem_walkOperation.mpr (.inr rfl))
    | reference place uri =>
        rcases stands with stands | stands
        · refine stands.subset ?_
          rw [Node.walk, callbackOrReference_ref]
          exact List.mem_singleton_self _
        · refine stands.subset ?_
          rw [Node.walk, walkEntry_ref]
          exact List.mem_singleton_self _

end Kynos.OpenApi

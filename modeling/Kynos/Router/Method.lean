import Kynos.Http.Lists

/-!
# Methods

`kynos-openapi`'s `Method`: the methods a path item has a field for, by their
wire names. A request's method is any token; one that is no method's wire name
is answered by nothing.
-/

namespace Kynos.Router

open Kynos.Http

/-- `Method`. -/
inductive Method where
  | get
  | put
  | post
  | delete
  | options
  | head
  | patch
  | trace
  | query
  deriving DecidableEq, Repr

namespace Method

/-- `Method::all`. -/
def all : List Method :=
  [get, put, post, delete, options, head, patch, trace, query]

/-- `Method::as_wire_str`. -/
def asWireStr : Method → Text
  | get => "GET".toList
  | put => "PUT".toList
  | post => "POST".toList
  | delete => "DELETE".toList
  | options => "OPTIONS".toList
  | head => "HEAD".toList
  | patch => "PATCH".toList
  | trace => "TRACE".toList
  | query => "QUERY".toList

/-- `Method::from_wire_str`. -/
def fromWireStr (name : Text) : Option Method :=
  all.find? fun method => method.asWireStr == name

@[simp]
theorem fromWireStr_asWireStr (method : Method) : fromWireStr method.asWireStr = some method := by
  cases method <;> rfl

theorem fromWireStr_eq_some_iff {name : Text} {method : Method} :
    fromWireStr name = some method ↔ method.asWireStr = name := by
  constructor
  · intro found
    simpa using List.find?_some found
  · rintro rfl
    exact fromWireStr_asWireStr method

theorem asWireStr_injective : Function.Injective asWireStr := by
  intro first second same
  have read := fromWireStr_asWireStr first
  rw [same, fromWireStr_asWireStr] at read
  exact (Option.some.inj read).symm

theorem isListName_asWireStr (method : Method) : IsListName method.asWireStr := by
  cases method <;> decide

theorem isListName_of_mem_map {methods : List Method} :
    ∀ name ∈ methods.map asWireStr, IsListName name := by
  intro name member
  obtain ⟨method, -, rfl⟩ := List.mem_map.mp member
  exact method.isListName_asWireStr

end Method

end Kynos.Router

import Kynos.Http.Field

/-!
# Content and problem details

What a response carries: nothing, an RFC 9457 problem document, or a stream of
some kind. A problem is kept as its status and detail; its type, title and JSON
spelling follow from these.
-/

namespace Kynos.Http

/-- An RFC 9457 problem detail of type `about:blank`. -/
structure Problem where
  status : Nat
  detail : Option Text
  deriving DecidableEq, Repr

/-- The content of a response. -/
inductive Content (Stream : Type) where
  | empty
  | problem (problem : Problem)
  | stream (stream : Stream)

variable {Stream : Type}

/-- `application/problem+json`. -/
def applicationProblemJson : HeaderValue :=
  ⟨Text.toOctets "application/problem+json".toList, by decide⟩

/-- The response a problem is sent as. -/
def Problem.intoResponse (problem : Problem) : Response (Content Stream) where
  status := problem.status
  headers := HeaderMap.empty.insert Header.contentType applicationProblemJson
  body := .problem problem

/-- A response with a status and no content. -/
def bodiless (status : Nat) : Response (Content Stream) :=
  ⟨status, HeaderMap.empty, .empty⟩

/-- The 500 a writer answers with in place of a response one of whose fields
could not be encoded. -/
def refused : Response (Content Stream) :=
  Problem.intoResponse ⟨500, some "a response header could not be encoded".toList⟩

end Kynos.Http

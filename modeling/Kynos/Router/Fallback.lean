import Kynos.Http.Problem

/-!
# Answers the router finishes

What every response goes through once it has been made, whatever made it; and
what a request gets that no operation answers, and the other spelling of a path.
-/

namespace Kynos.Router

open Kynos.Http

variable {Stream : Type}

/-- A length as a field value. -/
def lengthValue (length : Nat) : Option HeaderValue :=
  HeaderValue.fromStr (Text.decimal length)

/-- `without_content`: a response as the answer to a `HEAD`, the same status and
fields, and no content; a length its body is known to have and that is not zero
is stated. -/
def withoutContent (exactLength : Option Nat) (response : Response (Content Stream)) :
    Response (Content Stream) :=
  let bodiless := response.status < 200 || response.status = 204 || response.status = 304
  let headers :=
    if !bodiless && !response.headers.containsKey Header.contentLength then
      match exactLength.filter (· ≠ 0) with
      | some length =>
          match lengthValue length with
          | some value => response.headers.insert Header.contentLength value
          | none => response.headers
      | none => response.headers
    else
      response.headers
  ⟨response.status, headers, .empty⟩

/-- `finish`: a `HEAD` response sheds its content. -/
def finish (method : Method) (exactLength : Option Nat) (response : Response (Content Stream)) :
    Response (Content Stream) :=
  if method = Method.head then withoutContent exactLength response else response

@[simp]
theorem status_finish (method : Method) (exactLength : Option Nat)
    (response : Response (Content Stream)) :
    (finish method exactLength response).status = response.status := by
  unfold finish withoutContent
  split <;> rfl

/-- Only the length is added. -/
theorem getAll_finish {name : Text} (other : Header.contentLength ≠ name) (method : Method)
    (exactLength : Option Nat) (response : Response (Content Stream)) :
    (finish method exactLength response).headers.getAll name = response.headers.getAll name := by
  unfold finish withoutContent
  split
  · simp only
    split
    · split
      · split
        · rw [HeaderMap.getAll_insert, if_neg other]
        · rfl
      · rfl
    · rfl
  · rfl

theorem body_finish_head (exactLength : Option Nat) (response : Response (Content Stream)) :
    (finish Method.head exactLength response).body = .empty := by
  rw [finish, if_pos rfl, withoutContent]

theorem finish_of_ne_head {method : Method} (other : method ≠ Method.head)
    (exactLength : Option Nat) (response : Response (Content Stream)) :
    finish method exactLength response = response :=
  if_neg other

end Kynos.Router

namespace Kynos.Http.Header

def acceptQuery : Text := "accept-query".toList
def allow : Text := "allow".toList
def location : Text := "location".toList

end Kynos.Http.Header

namespace Kynos.Router

open Kynos.Http

variable {Stream : Type}

/-- What to return for a request no operation handles: the shape of its body,
never its status. -/
inductive FallbackPolicy where
  | problem
  | empty
  deriving DecidableEq, Repr

/-- How a request that differs only by a trailing slash is handled. -/
inductive TrailingSlashPolicy where
  | strict
  | redirect
  | lenient
  deriving DecidableEq, Repr

/-- The body shape a fallback takes. -/
def fallback (status : Nat) : FallbackPolicy → Response (Content Stream)
  | .problem => Problem.intoResponse ⟨status, none⟩
  | .empty => bodiless status

/-- What a request gets whose method no operation on its path answers: a 405
carrying `allow`, or a 501 where nothing in the service implements the method. -/
def methodRefusal (allow : Option HeaderValue) (policy : FallbackPolicy) :
    Response (Content Stream) :=
  match allow with
  | none => fallback 501 policy
  | some allow =>
      let response := fallback 405 policy
      { response with headers := response.headers.insert Header.allow allow }

/-- The `Content-Length` of no content. -/
def zeroLength : HeaderValue :=
  ⟨Text.toOctets "0".toList, by decide⟩

/-- What a plain `OPTIONS` gets on a path whose `QUERY` names its media types. -/
def optionsAnswer (allow acceptQuery : HeaderValue) : Response (Content Stream) :=
  let response := bodiless 200
  { response with
    headers := ((response.headers.insert Header.allow allow).insert Header.acceptQuery
      acceptQuery).insert Header.contentLength zeroLength }

/-- The 308 a trailing-slash redirect answers with. -/
def redirect (path : Text) (query : Option Text) : Response (Content Stream) :=
  let target :=
    match query with
    | some query => path ++ '?' :: query
    | none => path
  let response := bodiless 308
  match HeaderValue.fromStr target with
  | some location => { response with headers := response.headers.insert Header.location location }
  | none => response

/-- The same path with its final slash added or removed; `none` for a slash. -/
def flipTrailingSlash (path : Text) : Option Text :=
  if path.getLast? = some '/' then
    if path.dropLast = [] then none else some path.dropLast
  else
    some (path ++ ['/'])

/-! ## Statuses -/

@[simp]
theorem status_fallback (status : Nat) (policy : FallbackPolicy) :
    (fallback status policy : Response (Content Stream)).status = status := by
  cases policy <;> rfl

theorem status_methodRefusal (allow : Option HeaderValue) (policy : FallbackPolicy) :
    (methodRefusal allow policy : Response (Content Stream)).status =
      if allow.isSome then 405 else 501 := by
  cases allow with
  | none => exact status_fallback 501 policy
  | some allow => exact status_fallback 405 policy

@[simp]
theorem status_optionsAnswer (allow acceptQuery : HeaderValue) :
    (optionsAnswer allow acceptQuery : Response (Content Stream)).status = 200 :=
  rfl

@[simp]
theorem status_redirect (path : Text) (query : Option Text) :
    (redirect path query : Response (Content Stream)).status = 308 := by
  unfold redirect
  cases query <;>
    · simp only
      split <;> rfl

theorem allow_methodRefusal (allow : HeaderValue) (policy : FallbackPolicy) :
    (methodRefusal (some allow) policy : Response (Content Stream)).headers.get Header.allow =
      some allow := by
  rw [methodRefusal, HeaderMap.get_insert, if_pos rfl]

theorem acceptQuery_optionsAnswer (allow acceptQuery : HeaderValue) :
    (optionsAnswer allow acceptQuery : Response (Content Stream)).headers.get Header.acceptQuery =
      some acceptQuery := by
  rw [optionsAnswer, HeaderMap.get_insert, if_neg (by decide), HeaderMap.get_insert, if_pos rfl]

end Kynos.Router

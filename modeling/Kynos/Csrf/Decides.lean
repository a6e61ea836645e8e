import Kynos.Cache.Intercept
import Kynos.Cors.Preflight

/-!
# Cross-site requests

Which requests a `Csrf` permits, by the `Origin` and `Sec-Fetch-Site` fields a
browser sets. A field that is not text is read as though it were not sent, so
the exemption of requests with neither field reaches some that have one.
-/

namespace Kynos.Http.Header

def secFetchSite : Text := "sec-fetch-site".toList

end Kynos.Http.Header

namespace Kynos

open Kynos.Http

/-- The origins that are trusted besides the request's own. -/
structure Csrf where
  trusted : List Text
  deriving DecidableEq, Repr

namespace Csrf

/-! ## The source -/

/-- Whether a method is let through unchecked. -/
def isSafe (method : Http.Method) : Bool :=
  [Method.get, Method.head, Method.options].contains method

/-- What follows the first `://` of a text. -/
def afterScheme : Text → Option Text
  | ':' :: '/' :: '/' :: authority => some authority
  | _ :: rest => afterScheme rest
  | [] => none

/-- The authority part of an origin, in lowercase. -/
def authorityOf (origin : Text) : Text :=
  Text.toAsciiLowercase ((afterScheme (Text.trim origin)).getD (Text.trim origin))

/-- Whether an origin is on the trusted list. -/
def trusts (csrf : Csrf) (origin : Text) : Bool :=
  csrf.trusted.any fun trusted => Text.eqIgnoreAsciiCase trusted (Text.trim origin)

/-- Whether a request is permitted, `authority` being that of its target. -/
def decides (csrf : Csrf) (method : Http.Method) (headers : HeaderMap)
    (authority : Option Text) : Bool :=
  if isSafe method then
    true
  else
    let site := (headers.get Header.secFetchSite).bind HeaderValue.toStr
    let origin := (headers.get Header.origin).bind HeaderValue.toStr
    if origin.any csrf.trusts then
      true
    else
      match site with
      | some site => ["same-origin".toList, "none".toList].contains (Text.trim site)
      | none =>
          match origin with
          | some origin =>
              (Cache.ownAuthority headers authority).any fun host => host == authorityOf origin
          | none => true

/-! ## What a permitted request shows -/

/-- A field is sent, whatever octets its first line holds. -/
def Sent (headers : HeaderMap) (name : Text) : Prop :=
  ∃ value, headers.get name = some value

/-- The first line of a field is text. -/
def Reads (headers : HeaderMap) (name text : Text) : Prop :=
  ∃ value, headers.get name = some value ∧ value.toStr = some text

/-- Why an unsafe request that has one of the fields may be permitted. -/
inductive Allowed (csrf : Csrf) (headers : HeaderMap) (authority : Option Text) : Prop where
  | trusted {origin : Text} (reads : Reads headers Header.origin origin)
      (trusts : csrf.trusts origin = true)
  | site {site : Text} (reads : Reads headers Header.secFetchSite site)
      (states : Text.trim site = "same-origin".toList ∨ Text.trim site = "none".toList)
  | same {origin : Text} (unstated : ¬Sent headers Header.secFetchSite)
      (reads : Reads headers Header.origin origin)
      (own : Cache.ownAuthority headers authority = some (authorityOf origin))

/-- An unsafe request that has one of the fields is permitted only for one of
these reasons. -/
def Guarded (csrf : Csrf) (method : Http.Method) (headers : HeaderMap)
    (authority : Option Text) : Prop :=
  isSafe method = false → Sent headers Header.origin ∨ Sent headers Header.secFetchSite →
    csrf.decides method headers authority = true → csrf.Allowed headers authority

/-- What is read as not sent was not sent, or is of no consequence: the first
line of `Sec-Fetch-Site` is text; or that of `Origin` is, and is trusted, or is
no reason to permit what a `Sec-Fetch-Site` that is not text says. -/
inductive Legible (csrf : Csrf) (method : Http.Method) (headers : HeaderMap)
    (authority : Option Text) : Prop where
  | safe (exempt : isSafe method = true)
  | neither (origin : ¬Sent headers Header.origin) (site : ¬Sent headers Header.secFetchSite)
  | site {site : Text} (reads : Reads headers Header.secFetchSite site)
  | origin {origin : Text} (reads : Reads headers Header.origin origin)
      (harmless : csrf.trusts origin = true ∨ ¬Sent headers Header.secFetchSite ∨
        Cache.ownAuthority headers authority ≠ some (authorityOf origin))

section

variable {headers : HeaderMap} {name : Text}

theorem reads_iff {text : Text} :
    Reads headers name text ↔ (headers.get name).bind HeaderValue.toStr = some text :=
  Option.bind_eq_some_iff.symm

/-- One text at most is read. -/
theorem Reads.eq {text other : Text} (reads : Reads headers name text)
    (reads' : Reads headers name other) : text = other :=
  Option.some.inj ((reads_iff.mp reads).symm.trans (reads_iff.mp reads'))

/-- What is read was sent. -/
theorem Reads.sent {text : Text} (reads : Reads headers name text) : Sent headers name :=
  reads.imp fun _ read => read.1

end

section

variable {csrf : Csrf} {method : Http.Method} {headers : HeaderMap} {authority : Option Text}

/-- A request with no text in either field is let through. -/
theorem decides_of_illegible (origin : (headers.get Header.origin).bind HeaderValue.toStr = none)
    (site : (headers.get Header.secFetchSite).bind HeaderValue.toStr = none) :
    csrf.decides method headers authority = true := by
  simp [decides, origin, site]

/-- An origin that is not trusted is let through as the request's own, where
`Sec-Fetch-Site` is no text. -/
theorem decides_of_origin {origin : Text} (unsafe_ : isSafe method = false)
    (reads : Reads headers Header.origin origin) (distrusts : csrf.trusts origin = false)
    (site : (headers.get Header.secFetchSite).bind HeaderValue.toStr = none) :
    csrf.decides method headers authority = true ↔
      Cache.ownAuthority headers authority = some (authorityOf origin) := by
  rw [reads_iff] at reads
  simp only [decides, unsafe_, Bool.false_eq_true, if_false, reads, site, Option.any_some,
    distrusts]
  cases Cache.ownAuthority headers authority <;> simp

/-- Where `Sec-Fetch-Site` is text, a request is permitted for what it says or
for a trusted origin. -/
theorem allowed_of_site {site : Text} (unsafe_ : isSafe method = false)
    (reads : Reads headers Header.secFetchSite site)
    (permitted : csrf.decides method headers authority = true) :
    csrf.Allowed headers authority := by
  have read := reads_iff.mp reads
  simp only [decides, unsafe_, Bool.false_eq_true, if_false, read] at permitted
  split at permitted
  next trusted =>
    obtain ⟨origin, readOrigin, trusts⟩ := (Option.any_eq_true _ _).mp trusted
    exact .trusted (reads_iff.mpr readOrigin) trusts
  next =>
    refine .site reads ?_
    simpa using permitted

/-- Where `Origin` is text and what `Sec-Fetch-Site` says is of no consequence,
a request is permitted for its origin. -/
theorem allowed_of_origin {origin : Text} (unsafe_ : isSafe method = false)
    (reads : Reads headers Header.origin origin)
    (harmless : csrf.trusts origin = true ∨ ¬Sent headers Header.secFetchSite ∨
      Cache.ownAuthority headers authority ≠ some (authorityOf origin))
    (permitted : csrf.decides method headers authority = true) :
    csrf.Allowed headers authority := by
  cases trusts : csrf.trusts origin with
  | true => exact .trusted reads trusts
  | false =>
      cases site : (headers.get Header.secFetchSite).bind HeaderValue.toStr with
      | some site => exact allowed_of_site unsafe_ (reads_iff.mpr site) permitted
      | none =>
          have own := (decides_of_origin unsafe_ reads trusts site).mp permitted
          rcases harmless with trusted | unstated | foreign
          · rw [trusts] at trusted
            cases trusted
          · exact .same unstated reads own
          · exact absurd own foreign

/-- A request that is permitted only for a reason is one whose fields are read
as they were sent. -/
theorem legible_of_guarded (guarded : csrf.Guarded method headers authority) :
    csrf.Legible method headers authority := by
  cases unsafe_ : isSafe method with
  | true => exact .safe unsafe_
  | false =>
      cases site : (headers.get Header.secFetchSite).bind HeaderValue.toStr with
      | some site => exact .site (reads_iff.mpr site)
      | none =>
          have unread : ∀ site, ¬Reads headers Header.secFetchSite site := fun other reads => by
            rw [reads_iff, site] at reads
            cases reads
          cases origin : (headers.get Header.origin).bind HeaderValue.toStr with
          | none =>
              by_cases sent : Sent headers Header.origin ∨ Sent headers Header.secFetchSite
              · cases guarded unsafe_ sent (decides_of_illegible origin site) with
                | trusted reads =>
                    rw [reads_iff, origin] at reads
                    cases reads
                | site reads => exact absurd reads (unread _)
                | same _ reads =>
                    rw [reads_iff, origin] at reads
                    cases reads
              · rw [not_or] at sent
                exact .neither sent.1 sent.2
          | some text =>
              have reads := reads_iff.mpr origin
              refine .origin reads ?_
              by_contra harmful
              simp only [not_or, Bool.not_eq_true, not_not] at harmful
              obtain ⟨distrusts, sent, own⟩ := harmful
              have permitted := (decides_of_origin unsafe_ reads distrusts site).mpr own
              cases guarded unsafe_ (.inr sent) permitted with
              | trusted reads' trusts =>
                  rw [reads.eq reads', trusts] at distrusts
                  cases distrusts
              | site reads' => exact absurd reads' (unread _)
              | same unstated => exact unstated sent

/-- An unsafe request that has one of the fields is permitted only for its
origin or its site exactly where what is read as not sent was not sent, or is of
no consequence. -/
theorem guarded_iff_legible (csrf : Csrf) (method : Http.Method) (headers : HeaderMap)
    (authority : Option Text) :
    csrf.Guarded method headers authority ↔ csrf.Legible method headers authority := by
  refine ⟨legible_of_guarded, fun legible unsafe_ sent permitted => ?_⟩
  cases legible with
  | safe exempt =>
      rw [unsafe_] at exempt
      cases exempt
  | neither origin site => exact absurd sent (by simp [origin, site])
  | site reads => exact allowed_of_site unsafe_ reads permitted
  | origin reads harmless => exact allowed_of_origin unsafe_ reads harmless permitted

end

/-- A post whose one `Origin` is an octet that is no text. -/
def unreadableOrigin : HeaderMap :=
  HeaderMap.empty.insert Header.origin ⟨[0xFF], by decide⟩

/-- A post with an `Origin` that is no text is permitted as one with neither
field. -/
theorem not_guarded_unreadableOrigin :
    ¬(Csrf.mk []).Guarded "POST".toList unreadableOrigin (some "a".toList) := by
  intro guarded
  have origin : (unreadableOrigin.get Header.origin).bind HeaderValue.toStr = none := by decide
  have site : (unreadableOrigin.get Header.secFetchSite).bind HeaderValue.toStr = none := by decide
  cases guarded (by decide) (.inl ⟨_, rfl⟩) (decides_of_illegible origin site) with
  | trusted reads => exact absurd (origin.symm.trans (reads_iff.mp reads)) (by simp)
  | site reads => exact absurd (site.symm.trans (reads_iff.mp reads)) (by simp)
  | same _ reads => exact absurd (origin.symm.trans (reads_iff.mp reads)) (by simp)

end Csrf

end Kynos

import Kynos.Http.Forwarded

/-!
# A client does not choose its address

What a client writes into a forwarding field stands left of what the trusted
proxies append. Where the walk over the chain meets an untrusted sender among
the appended elements, the client and the scheme it resolves are those of the
appended elements alone, whatever octets stand before them.
-/

namespace Kynos.Http.Forwarded

open Kynos.Net Kynos.Word

/-! ## The grammar of RFC 7239 -/

/-- `tchar`. -/
def isTchar (octet : UInt8) : Bool :=
  (48 ≤ octet && octet ≤ 57) || (65 ≤ octet && octet ≤ 90) || (97 ≤ octet && octet ≤ 122) ||
    octet == 33 || octet == 35 || octet == 36 || octet == 37 || octet == 38 || octet == 39 ||
    octet == 42 || octet == 43 || octet == 45 || octet == 46 || octet == 94 || octet == 95 ||
    octet == 96 || octet == 124 || octet == 126

/-- `qdtext`: a tab, a space and every visible octet but the quote and the
backslash. -/
def isQdtext (octet : UInt8) : Bool :=
  octet == 9 || (32 ≤ octet && octet != 34 && octet != 92 && octet != 127)

/-- What a backslash may stand before. -/
def isQuotable (octet : UInt8) : Bool :=
  octet == 9 || (32 ≤ octet && octet != 127)

/-- `token`. -/
def IsToken (octets : Octets) : Prop :=
  octets ≠ [] ∧ ∀ octet ∈ octets, isTchar octet = true

instance : DecidablePred IsToken := fun octets =>
  decidable_of_iff (octets ≠ [] ∧ octets.all isTchar = true) (and_congr_right fun _ => List.all_eq_true)

/-- What stands within the quotes of a `quoted-string`. -/
inductive QuotedContent : Octets → Prop where
  | nil : QuotedContent []
  | qdtext {octet : UInt8} {rest : Octets} (plain : isQdtext octet = true)
      (content : QuotedContent rest) : QuotedContent (octet :: rest)
  | quotedPair {octet : UInt8} {rest : Octets} (quotable : isQuotable octet = true)
      (content : QuotedContent rest) : QuotedContent (92 :: octet :: rest)

/-- `value`. -/
inductive IsValue : Octets → Prop where
  | token {octets : Octets} (token : IsToken octets) : IsValue octets
  | quotedString {content : Octets} (quoted : QuotedContent content) :
      IsValue (34 :: content ++ [34])

/-- `forwarded-pair`. -/
def IsPair (octets : Octets) : Prop :=
  ∃ name value, IsToken name ∧ IsValue value ∧ octets = name ++ 61 :: value

/-- `forwarded-element`. -/
inductive IsElement : Octets → Prop where
  | empty : IsElement []
  | pair {pair : Octets} (isPair : IsPair pair) : IsElement pair
  | emptyThen {rest : Octets} (element : IsElement rest) : IsElement (59 :: rest)
  | pairThen {pair rest : Octets} (isPair : IsPair pair) (element : IsElement rest) :
      IsElement (pair ++ 59 :: rest)

/-- Optional whitespace. -/
def IsOws (octets : Octets) : Prop :=
  ∀ octet ∈ octets, octet = 32 ∨ octet = 9

instance : DecidablePred IsOws := fun octets =>
  decidable_of_iff (octets.all fun octet => octet = 32 ∨ octet = 9) List.all_iff_forall_prop

/-- An element of a list, the optional whitespace around it included. -/
def IsListed (octets : Octets) : Prop :=
  ∃ before element after, IsOws before ∧ IsElement element ∧ IsOws after ∧
    octets = before ++ element ++ after

theorem closed_of_isToken {octets : Octets} (token : IsToken octets) : commas.Closed octets := by
  refine .of_forall fun octet member => ?_
  have tchar := token.2 octet member
  refine ⟨?_, ?_, ?_⟩ <;>
    · rintro rfl
      exact absurd tchar (by decide)

theorem closed_of_isOws {octets : Octets} (ows : IsOws octets) : commas.Closed octets := by
  refine .of_forall fun octet member => ?_
  rcases ows octet member with rfl | rfl <;> decide

theorem content_of_quotedContent {octets : Octets} (quoted : QuotedContent octets) :
    commas.Content octets := by
  induction quoted with
  | nil => exact .nil
  | qdtext plain _ ih =>
      refine .letter ?_ ?_ ih <;>
        · rintro rfl
          exact absurd plain (by decide)
  | quotedPair _ _ ih => exact .escaped ih

theorem closed_of_isValue {octets : Octets} (value : IsValue octets) : commas.Closed octets := by
  cases value with
  | token token => exact closed_of_isToken token
  | quotedString quoted => exact .quoted (content_of_quotedContent quoted) .nil

theorem closed_of_isPair {octets : Octets} (isPair : IsPair octets) : commas.Closed octets := by
  obtain ⟨name, value, token, isValue, rfl⟩ := isPair
  exact (closed_of_isToken token).append
    (.letter (by decide) (by decide) (by decide) (closed_of_isValue isValue))

/-- A well-formed element has no comma outside its quoted strings, which are all
closed. -/
theorem closed_of_isElement {octets : Octets} (element : IsElement octets) :
    commas.Closed octets := by
  induction element with
  | empty => exact .nil
  | pair isPair => exact closed_of_isPair isPair
  | emptyThen _ ih => exact .letter (by decide) (by decide) (by decide) ih
  | pairThen isPair _ ih =>
      exact (closed_of_isPair isPair).append (.letter (by decide) (by decide) (by decide) ih)

theorem closed_of_isListed {octets : Octets} (listed : IsListed octets) :
    commas.Closed octets := by
  obtain ⟨before, element, after, beforeOws, isElement, afterOws, rfl⟩ := listed
  exact ((closed_of_isOws beforeOws).append (closed_of_isElement isElement)).append
    (closed_of_isOws afterOws)

/-! ## The walk -/

/-- The sender of the element `believed` places from the right of a chain, which
is given right to left: the socket peer, then the address of each element. -/
def senderAt (peer : Option IpAddr) (chain : List Hop) : (believed : Nat) → Option IpAddr
  | 0 => peer
  | believed + 1 => chain[believed]?.bind Hop.address

/-- The walk meets an untrusted sender on the chain: the peer or the address of
one of its elements, the furthest included. -/
def MeetsUntrusted (trusted : TrustedProxies) (peer : Option IpAddr) (chain : List Hop) : Prop :=
  ∃ believed ≤ chain.length, trustedSender trusted (senderAt peer chain believed) believed = false

/-- Nothing further out than an untrusted sender is read. -/
theorem walk_append {trusted : TrustedProxies} {chain : List Hop} (further other : List Hop)
    (believed : Nat) (client : Option IpAddr) (stop : Option Hop)
    (untrusted : ∃ more ≤ chain.length,
      trustedSender trusted (senderAt client chain more) (believed + more) = false) :
    walk trusted believed client stop (chain ++ further) =
      walk trusted believed client stop (chain ++ other) := by
  induction chain generalizing believed client stop with
  | nil =>
      obtain ⟨more, least, unbelieved⟩ := untrusted
      cases Nat.le_zero.mp least
      have halts : ∀ hops, walk trusted believed client stop hops = (client, stop) := by
        intro hops
        cases hops with
        | nil => rfl
        | cons hop hops =>
            rw [walk, if_neg]
            simpa [senderAt] using unbelieved
      rw [List.nil_append, List.nil_append, halts, halts]
  | cons hop chain ih =>
      rw [List.cons_append, List.cons_append, walk, walk]
      by_cases believes : trustedSender trusted client believed = true
      · rw [if_pos believes, if_pos believes]
        refine ih (believed + 1) hop.address (some hop) ?_
        obtain ⟨more, least, unbelieved⟩ := untrusted
        cases more with
        | zero =>
            rw [senderAt, Nat.add_zero, believes] at unbelieved
            contradiction
        | succ more =>
            refine ⟨more, Nat.le_of_succ_le_succ least, ?_⟩
            rw [show believed + 1 + more = believed + (more + 1) by omega, ← unbelieved]
            cases more <;> rfl
      · rw [if_neg believes, if_neg believes]

/-! ## Appended elements -/

/-- The name a proxy appends to. -/
def appendedName : ProxyHeader → Text
  | .forwarded => Header.forwarded
  | .xForwarded => Header.xForwardedFor

/-- What a proxy appends: a well-formed element of `Forwarded`, or an entry of
`X-Forwarded-For`, which holds no comma. -/
def IsAppended : ProxyHeader → Octets → Prop
  | .forwarded, octets => IsListed octets
  | .xForwarded, octets => 44 ∉ octets

/-- The hops of one line, right to left. -/
def lineHops : ProxyHeader → Octets → List Hop
  | .forwarded, line => (unquotedRsplit commas line).map hopOf
  | .xForwarded, line => ((addresses line).map addressHop).reverse

/-- The hops of appended elements, right to left; one that is blank is no
hop. -/
def appendedHops (header : ProxyHeader) (appended : List Octets) : List Hop :=
  match header with
  | .forwarded => ((appended.filter isWritten).map hopOf).reverse
  | .xForwarded =>
      (((appended.map Octets.trimAscii).filter fun address => !address.isEmpty).map
        addressHop).reverse

/-- A head carries, on some line of the field, elements appended after a comma
each, and then further lines; `client` is what stands left of the first of these
commas, and the lines before are arbitrary. -/
def Carries (header : ProxyHeader) (headers : HeaderMap) (appended : List Octets)
    (later : List HeaderValue) : Prop :=
  ∃ earlier line client, headers.getAll (appendedName header) = earlier ++ line :: later ∧
    line.octets = client ++ appended.flatMap (44 :: ·)

/-- The hops right of what the client wrote, right to left. -/
def trustedChain (header : ProxyHeader) (appended : List Octets) (later : List HeaderValue) :
    List Hop :=
  later.reverse.flatMap (fun value => lineHops header value.octets) ++ appendedHops header appended

/-- The hops of a line end in those of the elements appended to it. -/
theorem lineHops_append {header : ProxyHeader} {appended : List Octets}
    (isAppended : ∀ octets ∈ appended, IsAppended header octets) (client : Octets) :
    lineHops header (client ++ appended.flatMap (44 :: ·)) =
      appendedHops header appended ++ lineHops header client := by
  cases header with
  | forwarded =>
      have closed : ∀ octets ∈ appended, commas.Closed octets := fun octets member =>
        closed_of_isListed (isAppended octets member)
      have pieces := Quoting.rsplit_append closed client
      change commas.rsplit (client ++ appended.flatMap (44 :: ·)) = _ at pieces
      simp [lineHops, appendedHops, unquotedRsplit, pieces, List.map_reverse]
  | xForwarded =>
      have pieces : ∀ before, (before ++ appended.flatMap (44 :: ·)).splitOn 44 =
          before.splitOn 44 ++ appended := by
        induction appended with
        | nil => simp
        | cons octets appended ih =>
            intro before
            have single : List.splitOn (44 : UInt8) octets = [octets] :=
              List.splitOn_eq_singleton (isAppended octets List.mem_cons_self)
            have rest := ih (fun other member => isAppended other (List.mem_cons_of_mem _ member))
              octets
            calc
              (before ++ (octets :: appended).flatMap (44 :: ·)).splitOn 44 =
                (before ++ 44 :: (octets ++ appended.flatMap (44 :: ·))).splitOn 44 := by
                  simp
              _ = before.splitOn 44 ++ octets :: appended := by
                  rw [List.splitOn_append_cons_self, rest, single]
                  rfl
      simp [lineHops, appendedHops, addresses, pieces]

/-- The chain of a head ends in the hops right of what the client wrote. -/
theorem exists_chain {header : ProxyHeader} {headers : HeaderMap} {appended : List Octets}
    {later : List HeaderValue} (isAppended : ∀ octets ∈ appended, IsAppended header octets)
    (carries : Carries header headers appended later) :
    ∃ further, (elements headers header).1.reverse =
      trustedChain header appended later ++ further := by
  obtain ⟨earlier, line, client, lines, octets⟩ := carries
  have chain : (elements headers header).1.reverse =
      (headers.getAll (appendedName header)).reverse.flatMap
        fun value => lineHops header value.octets := by
    cases header with
    | forwarded =>
        simp [elements, forwardedElements, appendedName, lineHops, List.reverse_flatMap,
          Function.comp_def]
    | xForwarded =>
        simp [elements, xForwardedElements, appendedName, lineHops, List.reverse_flatMap,
          Function.comp_def]
  refine ⟨lineHops header client ++
    earlier.reverse.flatMap fun value => lineHops header value.octets, ?_⟩
  rw [chain, lines, List.reverse_append, List.reverse_cons]
  simp [trustedChain, octets, lineHops_append isAppended]

/-- Two heads that carry the same appended elements and, beside `X-Forwarded-For`,
the same schemes resolve alike where the walk meets an untrusted sender on these
elements: what the clients wrote before them is not read. -/
theorem resolve_eq_of_meetsUntrusted (trusted : TrustedProxies) (peer : Option IpAddr)
    {header : ProxyHeader} (reads : trusted.header = some header) {headers other : HeaderMap}
    {appended : List Octets} {later : List HeaderValue}
    (isAppended : ∀ octets ∈ appended, IsAppended header octets)
    (carries : Carries header headers appended later)
    (otherCarries : Carries header other appended later)
    (schemes : header = .xForwarded →
      headers.getAll Header.xForwardedProto = other.getAll Header.xForwardedProto)
    (stops : MeetsUntrusted trusted (peer.map IpAddr.toCanonical)
      (trustedChain header appended later)) :
    resolve headers peer trusted = resolve other peer trusted := by
  obtain ⟨further, chain⟩ := exists_chain isAppended carries
  obtain ⟨otherFurther, otherChain⟩ := exists_chain isAppended otherCarries
  have sameScheme : (elements headers header).2 = (elements other header).2 := by
    cases header with
    | forwarded => rfl
    | xForwarded => simp only [elements, xForwardedElements, schemes rfl]
  have sameWalk : walk trusted 0 (peer.map IpAddr.toCanonical) none
      (elements headers header).1.reverse =
        walk trusted 0 (peer.map IpAddr.toCanonical) none (elements other header).1.reverse := by
    rw [chain, otherChain]
    refine walk_append further otherFurther 0 _ none ?_
    simpa [MeetsUntrusted] using stops
  have policy : trusted.readHeader = none ∨ trusted.readHeader = some header := by
    simp only [TrustedProxies.readHeader, reads]
    split
    · exact .inl rfl
    · exact .inr rfl
  rcases policy with nobody | some'
  · simp [resolve, nobody]
  · simp only [resolve, some', sameWalk, sameScheme]

/-- One proxy, whose address is not known. -/
def oneHop : TrustedProxies :=
  ⟨some .forwarded, 1, [], []⟩

/-- The element the proxy appends: a quoted address with an escape, and a
scheme. -/
def appendedElement : Octets :=
  Text.toOctets " for=\"[2001:db8::1\\]\";proto=https".toList

/-- A line whose left part a client left quoted and escaped. -/
def forgedHeaders : HeaderMap :=
  HeaderMap.empty.append Header.forwarded
    ⟨Text.toOctets "for=6.6.6.6;by=\"\\".toList ++ [appendedElement].flatMap (44 :: ·), by decide⟩

/-- The line of a client that wrote nothing. -/
def plainHeaders : HeaderMap :=
  HeaderMap.empty.append Header.forwarded
    ⟨[appendedElement].flatMap (44 :: ·), by decide⟩

theorem isListed_appendedElement : IsListed appendedElement := by
  refine ⟨[32], Text.toOctets "for=\"[2001:db8::1\\]\";proto=https".toList, [], by decide, ?_,
    by decide, by decide⟩
  have address : IsPair (Text.toOctets "for=\"[2001:db8::1\\]\"".toList) := by
    refine ⟨Text.toOctets "for".toList, Text.toOctets "\"[2001:db8::1\\]\"".toList, by decide, ?_,
      by decide⟩
    have content : QuotedContent (Text.toOctets "[2001:db8::1\\]".toList) := by
      repeat (first | exact .nil | refine .qdtext (by decide) ?_ | refine .quotedPair (by decide) ?_)
    exact .quotedString content
  have scheme : IsPair (Text.toOctets "proto=https".toList) :=
    ⟨Text.toOctets "proto".toList, Text.toOctets "https".toList, by decide,
      .token (by decide), by decide⟩
  exact .pairThen address (.pair scheme)

theorem resolve_forged_eq :
    resolve forgedHeaders none oneHop = resolve plainHeaders none oneHop := by
  have isAppended : ∀ octets ∈ [appendedElement], IsAppended .forwarded octets := by
    intro octets member
    rw [List.mem_singleton.mp member]
    exact isListed_appendedElement
  have forged : Carries .forwarded forgedHeaders [appendedElement] [] :=
    ⟨[], _, Text.toOctets "for=6.6.6.6;by=\"\\".toList, rfl, rfl⟩
  have plain : Carries .forwarded plainHeaders [appendedElement] [] :=
    ⟨[], _, [], rfl, rfl⟩
  have stops : MeetsUntrusted oneHop none (trustedChain .forwarded [appendedElement] []) := by
    have unnamed : ∀ sender, trustedSender oneHop sender 1 = false := by
      intro sender
      cases sender <;> rfl
    exact ⟨1, by decide, unnamed _⟩
  exact resolve_eq_of_meetsUntrusted oneHop none rfl isAppended forged plain (by simp) stops

end Kynos.Http.Forwarded

import Soyokaze.Helpers.Addr
import Soyokaze.Lib.Clock
import Soyokaze.Models

/-!
# Cookies

A server asks a client to keep a cookie with a `Set-Cookie` field, and which hosts and paths
it is for. A jar keeps cookies from the responses it is shown, and has those ready that
belong on a request.

* `StoredCookie.domainMatches_iff`: which hosts fall under a domain;
* `StoredCookie.pathMatches_iff`: which targets fall under a path;
* `StoredCookie.matches_iff`: which requests a cookie belongs on.
-/

namespace Soyokaze

/-- What of a URL it takes to tell which cookies belong on a request for it. -/
structure URL where
  scheme : Octets
  host : Octets
  target : Octets

namespace URL

/-- Whether the scheme asks for TLS. -/
def secure (url : URL) : Bool := url.scheme == lit "https" || url.scheme == lit "wss"

end URL

/-- The `SameSite` attribute of a cookie. -/
inductive SameSite
  | strict
  | lax
  | none
  deriving DecidableEq

namespace SameSite

/-- Reads an attribute value, ignoring case. -/
def parse (value : Octets) : Option SameSite :=
  let value := Str.toAsciiLowercase value
  if value = lit "strict" then some strict
  else if value = lit "lax" then some lax
  else if value = lit "none" then some none
  else Option.none

end SameSite

/-- One `Set-Cookie` field: the cookie a server asks a client to keep. -/
structure SetCookie where
  name : Octets
  value : Octets
  expires : Option Octets
  maxAge : Option ℤ
  domain : Option Octets
  path : Option Octets
  secure : Bool
  httponly : Bool
  samesite : Option SameSite
  deriving DecidableEq

namespace SetCookie

/-- A cookie with no attributes set. -/
def new (name value : Octets) : SetCookie := ⟨name, value, none, none, none, none, false, false, none⟩

/-- Reads a `Max-Age` value: an optional `-` and then digits. One too large for 64 bits saturates. -/
def age (text : Octets) : Option ℤ :=
  let (sign, digits) : ℤ × Octets := match text with
    | 0x2d :: rest => (-1, rest)
    | text => (1, text)
  if digits.isEmpty || !digits.all Str.isDigit then none
  else some (sign * min (Str.decimal digits) (2 ^ 63 - 1))

/-- Takes in an attribute. -/
def read (cookie : SetCookie) (part : Octets) : SetCookie :=
  let (key, raw) := match Str.splitOnce part 0x3d with
    | some (key, raw) => (Str.toAsciiLowercase (Str.trim key), Str.trim raw)
    | none => (Str.toAsciiLowercase (Str.trim part), [])
  if key = lit "expires" then { cookie with expires := some raw }
  else if key = lit "max-age" then { cookie with maxAge := age raw }
  else if key = lit "domain" then { cookie with domain := some raw }
  else if key = lit "path" then { cookie with path := some raw }
  else if key = lit "secure" then { cookie with secure := true }
  else if key = lit "httponly" then { cookie with httponly := true }
  else if key = lit "samesite" then { cookie with samesite := SameSite.parse raw }
  else cookie

/-- Reads a `Set-Cookie` field value. -/
def parse (value : Octets) : Except Error SetCookie :=
  match Str.split value 0x3b with
  | [] => .error (.protocol "Set-Cookie has no name=value pair" [])
  | pair :: parts => match Str.splitOnce pair 0x3d with
    | none => .error (.protocol "Set-Cookie has no name=value pair" [])
    | some (name, value) => .ok (parts.foldl read (new (Str.trim name) (Str.trim value)))

end SetCookie

/-- A cookie as a jar holds it, with its attributes resolved. -/
structure StoredCookie where
  name : Octets
  value : Octets
  domain : Octets
  /-- Whether it is confined to exactly the domain. -/
  hostOnly : Bool
  path : Octets
  secure : Bool
  expires : Option Instant
  deriving DecidableEq

namespace StoredCookie

/-- A request target up to its query or fragment. -/
def requestPath (target : Octets) : Octets := target.takeWhile fun octet => octet != 0x3f && octet != 0x23

/-- Whether a request target falls under a cookie's path. -/
def pathMatches (target cookiePath : Octets) : Bool :=
  let requestPath := requestPath target
  if requestPath = cookiePath then true
  else if cookiePath.isPrefixOf requestPath then
    cookiePath.getLast? == some 0x2f || (requestPath.drop cookiePath.length).head? == some 0x2f
  else false

/-- Whether a host falls under a cookie's domain. An address matches only itself. -/
def domainMatches (host domain : Octets) : Bool :=
  if host = domain then true
  else if IpAddr.parses host then false
  else !domain.isEmpty && domain.length < host.length && domain.isSuffixOf host &&
    host[host.length - domain.length - 1]? == some 0x2e

/-- Whether a host is a name or is under it. -/
def Under (host domain : Octets) : Prop := host = domain ∨ ∃ before, host = before ++ 0x2e :: domain

theorem suffix_iff {host domain : Octets} :
    (domain.length < host.length && domain.isSuffixOf host && host[host.length - domain.length - 1]? == some 0x2e) = true ↔
      ∃ before, host = before ++ 0x2e :: domain := by
  simp only [Bool.and_eq_true, decide_eq_true_eq, List.isSuffixOf_iff_suffix, beq_iff_eq]
  constructor
  · rintro ⟨⟨hlt, before, rfl⟩, hdot⟩
    -- What is before it is not nothing, and ends in a dot.
    have hne : before ≠ [] := by
      rintro rfl
      simp at hlt
    obtain ⟨start, last, rfl⟩ := List.eq_nil_or_concat before |>.resolve_left hne
    refine ⟨start, ?_⟩
    have hindex : (start ++ [last] ++ domain).length - domain.length - 1 = start.length := by
      rw [List.length_append, List.length_append, List.length_singleton]
      omega
    rw [List.concat_eq_append, hindex] at hdot
    have hlast : last = 0x2e := by simpa using hdot
    rw [hlast]
    simp
  · rintro ⟨before, rfl⟩
    refine ⟨⟨?_, before ++ [0x2e], by simp⟩, ?_⟩
    · rw [List.length_append, List.length_cons]
      omega
    · have hindex : (before ++ 0x2e :: domain).length - domain.length - 1 = before.length := by
        rw [List.length_append, List.length_cons]
        omega
      rw [hindex]
      simp

theorem domainMatches_iff {host domain : Octets} : domainMatches host domain = true ↔
    host = domain ∨ (IpAddr.parses host = false ∧ domain ≠ [] ∧ ∃ before, host = before ++ 0x2e :: domain) := by
  rw [domainMatches]
  split_ifs with hsame haddress
  · exact iff_of_true rfl (.inl hsame)
  · refine iff_of_false not_false ?_
    rintro (hsame' | ⟨hname, -⟩)
    · exact hsame hsame'
    · rw [haddress] at hname
      cases hname
  · rw [or_iff_right hsame, Bool.and_assoc, Bool.and_assoc, Bool.and_eq_true, ← Bool.and_assoc, suffix_iff, Bool.not_eq_true',
      List.isEmpty_eq_false_iff]
    exact (and_iff_right (Bool.eq_false_iff.2 haddress)).symm

theorem pathMatches_iff {target cookiePath : Octets} : pathMatches target cookiePath = true ↔
    ∃ rest, requestPath target = cookiePath ++ rest ∧
      (rest = [] ∨ cookiePath.getLast? = some 0x2f ∨ rest.head? = some 0x2f) := by
  rw [pathMatches]
  split_ifs with hsame hprefix
  · exact iff_of_true rfl ⟨[], by rw [hsame, List.append_nil], .inl rfl⟩
  · obtain ⟨rest, hrest⟩ := List.isPrefixOf_iff_prefix.1 hprefix
    rw [← hrest, List.drop_left, Bool.or_eq_true, beq_iff_eq, beq_iff_eq]
    constructor
    · exact fun hboundary => ⟨rest, rfl, .inr hboundary⟩
    · rintro ⟨rest', hrest', hboundary⟩
      obtain rfl := List.append_cancel_left hrest'
      refine hboundary.resolve_left ?_
      rintro rfl
      exact hsame (by rw [← hrest, List.append_nil])
  · refine iff_of_false not_false ?_
    rintro ⟨rest, hrest, -⟩
    exact hprefix (List.isPrefixOf_iff_prefix.2 ⟨rest, hrest.symm⟩)

/-- Whether a domain is broad enough that no one host may claim it. -/
def tooBroad (domain : Octets) : Bool := !domain.contains 0x2e

/-- The domain an attribute asks for, if it asks for one. -/
def asked (domain : Option Octets) : Option Octets :=
  (domain.map fun domain => Str.toAsciiLowercase (Str.trimStartMatches (· == 0x2e) (Str.trim domain))).filter (!·.isEmpty)

/-- The domain and host-only flag a cookie is stored under, unless it must be ignored. -/
def scope (host : Octets) (wanted : Option Octets) : Option (Octets × Bool) :=
  match asked wanted with
  | none => some (host, true)
  | some domain =>
    if domain = host then some (domain, false)
    else if tooBroad domain || !domainMatches host domain then none
    else some (domain, false)

/-- The path a cookie takes when the server sets none: the target up to, but not including, its last `/`. -/
def defaultPath (target : Octets) : Octets :=
  match (requestPath target).rdropWhile (· != 0x2f) with
  | [] | [_] => [0x2f]
  | upTo => upTo.dropLast

/-- Whether it has expired. -/
def expired (cookie : StoredCookie) (now : Instant) : Bool := cookie.expires.any (· ≤ now)

/-- Whether a cookie belongs on a request. -/
def «matches» (cookie : StoredCookie) (url : URL) (now : Instant) : Bool :=
  if cookie.expired now then false
  else if cookie.secure && !url.secure then false
  else
    let host := Str.toAsciiLowercase url.host
    let domainOk := if cookie.hostOnly then host == cookie.domain else domainMatches host cookie.domain
    domainOk && pathMatches url.target cookie.path

theorem matches_iff {cookie : StoredCookie} {url : URL} {now : Instant} : cookie.matches url now = true ↔
    cookie.expired now = false ∧ (cookie.secure = true → url.secure = true) ∧
      (if cookie.hostOnly then Str.toAsciiLowercase url.host = cookie.domain
        else domainMatches (Str.toAsciiLowercase url.host) cookie.domain = true) ∧
      pathMatches url.target cookie.path = true := by
  rw [«matches»]
  cases cookie.expired now <;> cases cookie.secure <;> cases url.secure <;> cases cookie.hostOnly <;> simp

end StoredCookie

/-- A client-side cookie store. -/
structure CookieJar where
  /-- The cookies held, in the order they were stored. -/
  entries : List StoredCookie
  maxCookies : UInt32
  maxCookiesPerDomain : UInt16

namespace CookieJar

/-- An empty jar. -/
def new (maxCookies : UInt32) (maxCookiesPerDomain : UInt16) : CookieJar := ⟨[], maxCookies, maxCookiesPerDomain⟩

/-- Drops the oldest cookies until there are fewer than this. -/
def dropOldest (most : ℕ) : List StoredCookie → List StoredCookie
  | [] => []
  | oldest :: rest => if most ≤ (oldest :: rest).length then dropOldest most rest else oldest :: rest

/-- Makes room for one more cookie in a domain. -/
def evict (jar : CookieJar) (domain : Octets) (entries : List StoredCookie) : List StoredCookie :=
  let entries :=
    if jar.maxCookiesPerDomain.toNat ≤ entries.countP (·.domain == domain) then entries.eraseP (·.domain == domain)
    else entries
  dropOldest jar.maxCookies.toNat entries

/-- Whether the jar may hold anything at all. -/
def holds (jar : CookieJar) : Bool := 0 < jar.maxCookies

/-- The cookie that a response for a URL has a jar keep, unless it must be ignored. -/
def resolve (url : URL) (cookie : SetCookie) (now : Instant) : Option StoredCookie :=
  (StoredCookie.scope (Str.toAsciiLowercase url.host) cookie.domain).map fun (domain, hostOnly) => {
    name := cookie.name
    value := cookie.value
    domain
    hostOnly
    path := cookie.path.getD (StoredCookie.defaultPath url.target)
    secure := cookie.secure
    expires := cookie.maxAge.bind fun seconds => now.checkedAdd (max seconds 0).toNat }

/-- Takes in one `Set-Cookie` value. -/
def learnOne (jar : CookieJar) (url : URL) (now : Instant) (value : Octets) : CookieJar :=
  match SetCookie.parse value with
  | .error _ => jar
  | .ok cookie => match resolve url cookie now with
    | none => jar
    | some new =>
      let entries := jar.entries.filter fun stored =>
        !(stored.name == new.name && stored.domain == new.domain && stored.path == new.path)
      if cookie.maxAge.any (· ≤ 0) then { jar with entries }
      else if !jar.holds then { jar with entries }
      else { jar with entries := jar.evict new.domain (entries.filter (!·.expired now)) ++ [new] }

/-- Takes in the `Set-Cookie` values a response for a URL carried. -/
def learn (jar : CookieJar) (url : URL) (values : List Octets) (now : Instant) : CookieJar :=
  values.foldl (fun jar value => jar.learnOne url now value) jar

/-- The cookies that belong on a request. -/
def kept (jar : CookieJar) (url : URL) (now : Instant) : List StoredCookie := jar.entries.filter (·.matches url now)

/-- The `Cookie` field value that holds these cookies. -/
def join (cookies : List StoredCookie) : Octets :=
  List.intercalate (lit "; ") (cookies.map fun cookie => cookie.name ++ 0x3d :: cookie.value)

/-- The `Cookie` field value for a request to a URL, if any cookie matches. -/
def cookie (jar : CookieJar) (url : URL) (now : Instant) : Option Octets :=
  let pairs := jar.kept url now
  if pairs.isEmpty then none else some (join pairs)

/-- Drops every cookie that has expired. -/
def prune (jar : CookieJar) (now : Instant) : CookieJar := { jar with entries := jar.entries.filter (!·.expired now) }

end CookieJar

end Soyokaze

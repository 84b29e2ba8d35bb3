import Soyokaze.Helpers.Strings
import Soyokaze.Models

/-!
# URLs

The text of an absolute URL is cut into a scheme, an authority and a tail, and the authority
into userinfo, a host and a port. What is read of it is the scheme, the host, the port and the
target of a request; the userinfo is left behind.

* `URL.exists_parts`, `Parts.parse_text`: which texts are accepted, and what is read of them;
* `Parts.parse_written`: a URL is read again of what it is written as;
* `URL.promised_iff`: the target is rooted but where the tail begins with a query or a fragment,
  and a written port is digits but where a `+` stands before it; all else that is promised of a
  URL holds of each.
-/

namespace Soyokaze

namespace Models

/-- An absolute URL, split into what a request for it takes. -/
structure URL where
  scheme : Octets
  host : Octets
  port : UInt16
  target : Octets
  deriving DecidableEq

namespace URL

/-- The port a scheme implies. -/
def defaultPort (scheme : Octets) : UInt16 := if scheme == lit "https" || scheme == lit "wss" then 443 else 80

/-- Whether a string may be sent as the host of an authority. -/
def isHost (host : Octets) : Bool :=
  !host.isEmpty && host.all fun octet => 0x20 < octet && octet != 0x7f && !(lit "/?#@[]:").contains octet

/-- The authority of a host and a port: an IPv6 host has brackets, and the port the scheme implies
    is left out. -/
def authorityOf (scheme host : Octets) (port : UInt16) : Octets :=
  match host.contains 0x3a, port == defaultPort scheme with
  | true, true => lit "[" ++ host ++ lit "]"
  | true, false => lit "[" ++ host ++ lit "]:" ++ Number.decimal port.toNat
  | false, true => host
  | false, false => host ++ lit ":" ++ Number.decimal port.toNat

/-- The authority as it belongs in a `Host` field or an `:authority` pseudo-header. -/
def authority (url : URL) : Octets := authorityOf url.scheme url.host url.port

/-- Reads a 16-bit number from its digits. -/
def parseDigits (digits : Octets) : Option UInt16 :=
  if digits.isEmpty || !digits.all Str.isDigit then none
  else if Str.decimal digits < 2 ^ 16 then some (.ofNat (Str.decimal digits))
  else none

/-- What the standard library reads a 16-bit number from: digits, which a `+` may stand before. -/
def parseU16 : Octets → Option UInt16
  | 0x2b :: digits => parseDigits digits
  | digits => parseDigits digits

/-- Reads a port that is written. -/
def readPort (digits : Octets) : Except Error UInt16 :=
  match parseU16 digits with
  | none => .error (.protocol "port {digits} is not a number" [.text digits])
  | some port => .ok port

/-- Whether an octet is an ASCII hexadecimal digit. -/
def isAsciiHexdigit (octet : UInt8) : Bool :=
  Str.isDigit octet || (0x41 ≤ octet && octet ≤ 0x46) || (0x61 ≤ octet && octet ≤ 0x66)

/-- Whether an octet is one of an IPv6 literal. -/
def isLiteral (octet : UInt8) : Bool := isAsciiHexdigit octet || octet == 0x3a || octet == 0x2e

/-- Reads the port behind the brackets of an IPv6 literal, where there is one. -/
def readBehind : Octets → Except Error (Option UInt16)
  | 0x3a :: digits => (readPort digits).map some
  | [] => .ok none
  | _ => .error (.protocol "IPv6 authority has trailing characters" [])

/-- Reads the host of an authority, and the port where one is written. -/
def readAuthority : Octets → Except Error (Octets × Option UInt16)
  | 0x5b :: rest =>
    match Str.splitOnce rest 0x5d with
    | none => .error (.protocol "IPv6 authority is missing its closing bracket" [])
    | some (host, after) =>
      match readBehind after with
      | .error error => .error error
      | .ok port =>
        if host.isEmpty || !host.all isLiteral then
          .error (.protocol "IPv6 authority {host} is malformed" [.text host])
        else .ok (host, port)
  | authority =>
    match Str.rsplitOnce authority 0x3a with
    | some (host, digits) => (readPort digits).map fun port => (host, some port)
    | none => .ok (authority, none)

/-- Whether an octet ends an authority. -/
def ends (octet : UInt8) : Bool := (lit "/?#").contains octet

/-- Splits an absolute URL into its parts. -/
def parse (text : Octets) : Except Error URL :=
  match Str.splitOnceAt (lit "://") text with
  | none => .error (.protocol "url {text} has no scheme" [.text text])
  | some (scheme, rest) =>
    let scheme := Str.toAsciiLowercase scheme
    let authority := rest.takeWhile (!ends ·)
    let tail := rest.dropWhile (!ends ·)
    let target := if tail.isEmpty then lit "/" else tail
    if !Soyokaze.URL.isTarget target then .error (.protocol "request target {target} is malformed" [.text target])
    else
      let authority := (Str.split authority 0x40).getLast?.getD authority
      match readAuthority authority with
      | .error error => .error error
      | .ok (host, port) =>
        if host.isEmpty then .error (.protocol "url {text} has no host" [.text text])
        else if authority.head? != some 0x5b && !isHost host then
          .error (.protocol "host {host} is malformed" [.text host])
        else .ok ⟨scheme, host, port.getD (defaultPort scheme), target⟩

end URL

/-! ## The parts of a text -/

/-- The parts that the text of a URL is put together from. -/
structure Parts where
  scheme : Octets
  /-- What is before the last `@` of the authority. -/
  userinfo : Option Octets
  bracketed : Bool
  host : Octets
  /-- The port as it is written. -/
  port : Option Octets
  tail : Octets

namespace Parts

/-- The authority without the userinfo. -/
def place (p : Parts) : Octets :=
  (if p.bracketed then 0x5b :: (p.host ++ [0x5d]) else p.host) ++ p.port.elim [] (0x3a :: ·)

/-- The authority. -/
def authority (p : Parts) : Octets := p.userinfo.elim [] (· ++ [0x40]) ++ p.place

/-- The text of the URL. -/
def text (p : Parts) : Octets := p.scheme ++ lit "://" ++ (p.authority ++ p.tail)

/-- Each part ends where the first delimiter behind it is, and the userinfo at the last `@`. -/
structure Cut (p : Parts) : Prop where
  scheme : Str.First (lit "://") p.scheme
  authority : ∀ octet ∈ p.authority, URL.ends octet = false
  tail : ∀ octet ∈ p.tail.head?, URL.ends octet = true
  place : 0x40 ∉ p.place
  bracketed : p.bracketed = true → 0x5d ∉ p.host
  named : p.bracketed = false → p.place.head? ≠ some 0x5b
  port : p.bracketed = false → 0x3a ∉ p.port.getD p.host

/-- The target of a request for the URL. -/
def target (p : Parts) : Octets := if p.tail.isEmpty then lit "/" else p.tail

/-- What is read of the parts. -/
def url (p : Parts) : URL :=
  let scheme := Str.toAsciiLowercase p.scheme
  ⟨scheme, p.host, (p.port.bind URL.parseU16).getD (URL.defaultPort scheme), p.target⟩

/-- The parts are well formed. -/
structure Proper (p : Parts) : Prop where
  target : Soyokaze.URL.isTarget p.target = true
  literal : p.bracketed = true → p.host ≠ [] ∧ p.host.all URL.isLiteral = true
  host : p.bracketed = false → URL.isHost p.host = true
  port : ∀ digits ∈ p.port, (URL.parseU16 digits).isSome = true

end Parts

/-! ## What is accepted -/

namespace URL

variable {found : Octets × Option UInt16} {port : Option UInt16}

theorem readPort_eq_ok {digits : Octets} {port : UInt16} : readPort digits = .ok port ↔ parseU16 digits = some port := by
  rw [readPort]
  cases parseU16 digits with
  | none => simp
  | some n => rw [Except.ok.injEq, Option.some.injEq]

theorem map_readPort_eq_ok {α : Type} {f : UInt16 → α} {digits : Octets} {a : α} :
    (readPort digits).map f = .ok a ↔ ∃ port, parseU16 digits = some port ∧ a = f port := by
  simp only [← readPort_eq_ok]
  cases readPort digits with
  | error error => simp [Except.map]
  | ok port => simp [Except.map, eq_comm]

/-- Behind the brackets is nothing, or a port. -/
theorem readBehind_eq_ok {after : Octets} : readBehind after = .ok port ↔
    ∃ written : Option Octets, after = written.elim [] (0x3a :: ·) ∧
      (∀ digits ∈ written, (parseU16 digits).isSome = true) ∧ port = written.bind parseU16 := by
  constructor
  · intro h
    rw [readBehind.eq_def] at h
    split at h
    · next digits =>
      obtain ⟨n, hn, rfl⟩ := map_readPort_eq_ok.1 h
      refine ⟨some digits, rfl, fun _ hdigits => ?_, hn.symm⟩
      rw [← Option.some.inj hdigits, hn]
      rfl
    · exact ⟨none, rfl, (fun _ hdigits => by cases hdigits), (Except.ok.inj h).symm⟩
    · cases h
  · rintro ⟨written, rfl, hport, rfl⟩
    cases written with
    | none => rfl
    | some digits =>
      obtain ⟨n, hn⟩ := Option.isSome_iff_exists.1 (hport digits rfl)
      exact map_readPort_eq_ok.2 ⟨n, hn, hn⟩

/-- What is read of an authority that begins with a bracket. -/
theorem readAuthority_bracket_eq_ok {rest : Octets} : readAuthority (0x5b :: rest) = .ok found ↔
    ∃ host after port, Str.splitOnce rest 0x5d = some (host, after) ∧ readBehind after = .ok port ∧
      (host ≠ [] ∧ host.all isLiteral = true) ∧ found = (host, port) := by
  have hhost : ∀ host : Octets, (host ≠ [] ∧ host.all isLiteral = true) ↔ ¬ (host.isEmpty || !host.all isLiteral) = true := by
    simp
  constructor
  · intro h
    rw [readAuthority] at h
    split at h
    · cases h
    · next host after hsplit =>
      split at h
      · cases h
      · next port hport =>
        split_ifs at h with hliteral
        exact ⟨host, after, port, hsplit, hport, (hhost host).2 hliteral, (Except.ok.inj h).symm⟩
  · rintro ⟨host, after, port, hsplit, hport, hliteral, rfl⟩
    rw [readAuthority, hsplit]
    simp only [hport]
    rw [if_neg ((hhost host).1 hliteral)]

/-- What is read of one that does not. -/
theorem readAuthority_name_eq_ok {authority : Octets} (hname : authority.head? ≠ some 0x5b) :
    readAuthority authority = .ok found ↔
      (∃ host digits port, Str.rsplitOnce authority 0x3a = some (host, digits) ∧ parseU16 digits = some port ∧
        found = (host, some port)) ∨
      Str.rsplitOnce authority 0x3a = none ∧ found = (authority, none) := by
  have hread : readAuthority authority = match Str.rsplitOnce authority 0x3a with
      | some (host, digits) => (readPort digits).map fun port => (host, some port)
      | none => .ok (authority, none) := by
    rw [readAuthority]
    rintro rest rfl
    exact hname rfl
  rw [hread]
  cases Str.rsplitOnce authority 0x3a with
  | none => simp [eq_comm]
  | some cut =>
    obtain ⟨host, digits⟩ := cut
    simp only [map_readPort_eq_ok]
    constructor
    · rintro ⟨port, hport, rfl⟩
      exact .inl ⟨host, digits, port, rfl, hport, rfl⟩
    · rintro (⟨_, _, port, hcut, hport, rfl⟩ | ⟨hcut, -⟩)
      · cases hcut
        exact ⟨port, hport, rfl⟩
      · cases hcut

end URL

namespace Parts

variable {p : Parts} {text : Octets} {url : URL}

theorem splitOnceAt_text (h : p.Cut) : Str.splitOnceAt (lit "://") p.text = some (p.scheme, p.authority ++ p.tail) :=
  Str.splitOnceAt_append h.scheme _

theorem takeWhile_authority (h : p.Cut) : (p.authority ++ p.tail).takeWhile (!URL.ends ·) = p.authority := by
  have htail : p.tail.takeWhile (!URL.ends ·) = [] := by
    rw [List.takeWhile_eq_nil_iff]
    intro hlength
    have := h.tail p.tail[0] (by simp [List.head?_eq_getElem?])
    simp [this]
  rw [List.takeWhile_append_of_pos fun octet hoctet => by simp [h.authority octet hoctet], htail, List.append_nil]

theorem dropWhile_authority (h : p.Cut) : (p.authority ++ p.tail).dropWhile (!URL.ends ·) = p.tail := by
  have hboth : (p.authority ++ p.tail).takeWhile (!URL.ends ·) ++ (p.authority ++ p.tail).dropWhile (!URL.ends ·) =
      p.authority ++ p.tail := List.takeWhile_append_dropWhile
  rw [takeWhile_authority h] at hboth
  exact List.append_cancel_left hboth

/-- What is behind the last `@`. -/
theorem getLast?_authority (h : p.Cut) : (Str.split p.authority 0x40).getLast?.getD p.authority = p.place := by
  rw [authority]
  cases p.userinfo with
  | none =>
    rw [Option.elim_none, List.nil_append, Str.split_of_notMem h.place]
    rfl
  | some userinfo =>
    rw [Option.elim_some, List.append_assoc, List.singleton_append, Str.getLast?_split_append h.place]
    rfl

theorem place_bracketed (h : p.bracketed = true) : p.place = 0x5b :: (p.host ++ 0x5d :: p.port.elim [] (0x3a :: ·)) := by
  rw [place, if_pos h, List.cons_append, List.append_assoc]
  rfl

theorem place_named (h : p.bracketed = false) : p.place = p.host ++ p.port.elim [] (0x3a :: ·) := by
  rw [place, h]
  rfl

/-- What is read of the authority. -/
theorem readAuthority_place (h : p.Cut) {found : Octets × Option UInt16} : URL.readAuthority p.place = .ok found ↔
    (∀ digits ∈ p.port, (URL.parseU16 digits).isSome = true) ∧
      (p.bracketed = true → p.host ≠ [] ∧ p.host.all URL.isLiteral = true) ∧ found = (p.host, p.port.bind URL.parseU16) := by
  cases hbracketed : p.bracketed with
  | true =>
    rw [place_bracketed hbracketed, URL.readAuthority_bracket_eq_ok, Str.splitOnce_append (h.bracketed hbracketed)]
    constructor
    · rintro ⟨host, after, port, hsplit, hbehind, hhost, rfl⟩
      cases hsplit
      obtain ⟨written, hwritten, hport, rfl⟩ := URL.readBehind_eq_ok.1 hbehind
      obtain rfl : p.port = written := by
        cases hp : p.port <;> cases written <;> simp_all
      exact ⟨hport, fun _ => hhost, rfl⟩
    · rintro ⟨hport, hhost, rfl⟩
      exact ⟨_, _, _, rfl, URL.readBehind_eq_ok.2 ⟨p.port, rfl, hport, rfl⟩, hhost rfl, rfl⟩
  | false =>
    rw [URL.readAuthority_name_eq_ok (h.named hbracketed)]
    have hcut := h.port hbracketed
    rw [place_named hbracketed]
    cases hport : p.port with
    | none =>
      rw [hport, Option.getD_none] at hcut
      rw [Option.elim_none, List.append_nil, Str.rsplitOnce_of_notMem hcut]
      simp
    | some digits =>
      rw [hport, Option.getD_some] at hcut
      rw [Option.elim_some, Str.rsplitOnce_append hcut]
      cases hdigits : URL.parseU16 digits <;> simp [hdigits]

theorem head?_place (h : p.Cut) : (p.place.head? != some 0x5b) = !p.bracketed := by
  cases hbracketed : p.bracketed with
  | true =>
    rw [place_bracketed hbracketed]
    rfl
  | false => exact bne_iff_ne.2 (h.named hbracketed)

theorem parse_cut (h : p.Cut) : URL.parse p.text =
    if !Soyokaze.URL.isTarget p.target then .error (.protocol "request target {target} is malformed" [.text p.target])
    else
      match URL.readAuthority p.place with
      | .error error => .error error
      | .ok (host, port) =>
        if host.isEmpty then .error (.protocol "url {text} has no host" [.text p.text])
        else if !p.bracketed && !URL.isHost host then .error (.protocol "host {host} is malformed" [.text host])
        else .ok ⟨Str.toAsciiLowercase p.scheme, host, port.getD (URL.defaultPort (Str.toAsciiLowercase p.scheme)), p.target⟩ := by
  rw [URL.parse, splitOnceAt_text h]
  simp only [takeWhile_authority h, dropWhile_authority h, getLast?_authority h, head?_place h]
  rfl

/-- A text in its parts is accepted where they are well formed. -/
theorem parse_text (h : p.Cut) : URL.parse p.text = .ok url ↔ p.Proper ∧ url = p.url := by
  rw [parse_cut h]
  constructor
  · intro hparse
    split_ifs at hparse with htarget
    split at hparse
    · cases hparse
    · next host port hread =>
      obtain ⟨hport, hliteral, hfound⟩ := (readAuthority_place h).1 hread
      cases hfound
      split_ifs at hparse with hempty hhost
      cases hparse
      refine ⟨⟨by simpa using htarget, hliteral, fun hnamed => ?_, hport⟩, rfl⟩
      simpa [hnamed] using hhost
  · rintro ⟨hproper, rfl⟩
    have hread := (readAuthority_place h).2 ⟨hproper.port, hproper.literal, rfl⟩
    have hhost : ¬ (!p.bracketed && !URL.isHost p.host) = true := by
      cases hbracketed : p.bracketed with
      | true => simp
      | false => simp [hproper.host hbracketed]
    have hempty : ¬ p.host.isEmpty = true := by
      cases hbracketed : p.bracketed with
      | true => simpa using (hproper.literal hbracketed).1
      | false =>
        have hhost := hproper.host hbracketed
        rw [URL.isHost, Bool.and_eq_true] at hhost
        simpa using hhost.1
    rw [hproper.target, hread]
    simp only [if_neg hempty, if_neg hhost]
    rfl

end Parts

namespace URL

variable {text : Octets} {url : URL}

/-- An authority that is read is a host, in brackets or not, and a port or none. -/
theorem exists_place {place : Octets} {found : Octets × Option UInt16} (h : readAuthority place = .ok found) :
    ∃ bracketed host, ∃ port : Option Octets,
      place = (if bracketed then 0x5b :: (host ++ [0x5d]) else host) ++ port.elim [] (0x3a :: ·) ∧
      (bracketed = true → 0x5d ∉ host) ∧ (bracketed = false → place.head? ≠ some 0x5b ∧ 0x3a ∉ port.getD host) := by
  by_cases hbracket : place.head? = some 0x5b
  · obtain ⟨rest, rfl⟩ := List.head?_eq_some_iff.1 hbracket
    obtain ⟨host, after, port, hsplit, hbehind, -, -⟩ := readAuthority_bracket_eq_ok.1 h
    obtain ⟨rfl, hhost⟩ := Str.splitOnce_eq_some.1 hsplit
    obtain ⟨written, rfl, -, -⟩ := readBehind_eq_ok.1 hbehind
    refine ⟨true, host, written, ?_, fun _ => hhost, fun hfalse => by cases hfalse⟩
    rw [if_pos rfl, List.cons_append, List.append_assoc]
    rfl
  · rcases (readAuthority_name_eq_ok hbracket).1 h with ⟨host, digits, port, hsplit, -, -⟩ | ⟨hsplit, -⟩
    · obtain ⟨rfl, hdigits⟩ := Str.rsplitOnce_eq_some.1 hsplit
      exact ⟨false, host, some digits, rfl, fun hfalse => (by cases hfalse), fun _ => ⟨hbracket, hdigits⟩⟩
    · refine ⟨false, place, none, (List.append_nil _).symm, fun hfalse => (by cases hfalse), fun _ => ⟨hbracket, fun hmem => ?_⟩⟩
      obtain ⟨before, behind, hplace, hbehind⟩ := Str.exists_last (show 0x3a ∈ place from hmem)
      rw [hplace, Str.rsplitOnce_append hbehind] at hsplit
      cases hsplit

/-- The userinfo of an authority is what is before the last `@`. -/
theorem exists_userinfo (authority : Octets) : ∃ userinfo : Option Octets, ∃ place : Octets,
    authority = userinfo.elim [] (· ++ [0x40]) ++ place ∧ 0x40 ∉ place ∧
      (Str.split authority 0x40).getLast?.getD authority = place := by
  by_cases hmem : 0x40 ∈ authority
  · obtain ⟨userinfo, place, rfl, hplace⟩ := Str.exists_last hmem
    refine ⟨some userinfo, place, ?_, hplace, ?_⟩
    · rw [Option.elim_some, List.append_assoc]
      rfl
    · rw [Str.getLast?_split_append hplace]
      rfl
  · refine ⟨none, authority, rfl, hmem, ?_⟩
    rw [Str.split_of_notMem hmem]
    rfl

/-- A text that is accepted is in parts. -/
theorem exists_parts (h : parse text = .ok url) : ∃ p : Parts, p.Cut ∧ text = p.text := by
  rw [parse] at h
  split at h
  · cases h
  · next scheme rest hscheme =>
    obtain ⟨rfl, hfirst⟩ := Str.first_of_splitOnceAt hscheme
    obtain ⟨userinfo, place, hauthority, hat, hlast⟩ := exists_userinfo (rest.takeWhile (!ends ·))
    simp only [hlast] at h
    generalize (if (rest.dropWhile (!ends ·)).isEmpty = true then lit "/" else rest.dropWhile (!ends ·)) = target at h
    split_ifs at h
    split at h
    · cases h
    · next found hread =>
      obtain ⟨bracketed, host, port, hplace, hhost, hname⟩ := exists_place hread
      let p : Parts := ⟨scheme, userinfo, bracketed, host, port, rest.dropWhile (!ends ·)⟩
      have hp : p.place = place := hplace.symm
      have hpa : p.authority = rest.takeWhile (!ends ·) := by rw [hauthority, Parts.authority, hp]
      refine ⟨p, ⟨hfirst, fun octet hoctet => ?_, fun octet hoctet => ?_, hp ▸ hat, hhost, fun hb => hp ▸ (hname hb).1,
        fun hb => (hname hb).2⟩, ?_⟩
      · rw [hpa] at hoctet
        simpa using List.mem_takeWhile_imp hoctet
      · have hhead := List.head?_dropWhile_not (!ends ·) rest
        simp only [p] at hoctet
        simp_all
      · rw [Parts.text, hpa]
        exact congrArg _ List.takeWhile_append_dropWhile.symm

theorem parseDigits_eq_some {digits : Octets} {port : UInt16} : parseDigits digits = some port ↔
    digits ≠ [] ∧ digits.all Str.isDigit = true ∧ Str.decimal digits = port.toNat := by
  rw [parseDigits]
  constructor
  · intro h
    split_ifs at h with hnot hfits
    cases h
    rw [UInt16.toNat_ofNat_of_lt' hfits]
    simpa using hnot
  · rintro ⟨hne, hdigits, hvalue⟩
    rw [if_neg (by simpa [hne] using hdigits), hvalue, if_pos port.toNat_lt, UInt16.ofNat_toNat]

theorem parseU16_of_head {written : Octets} (h : written.head? ≠ some 0x2b) : parseU16 written = parseDigits written := by
  rw [parseU16]
  rintro digits rfl
  exact h rfl

/-- Digits do not begin with a `+`. -/
theorem head?_ne_plus {written : Octets} (h : written.all Str.isDigit = true) : written.head? ≠ some 0x2b := fun hplus => by
  obtain ⟨digits, rfl⟩ := List.head?_eq_some_iff.1 hplus
  exact absurd (List.all_eq_true.1 h 0x2b List.mem_cons_self) (by decide)

theorem parseU16_decimal (port : UInt16) : parseU16 (Number.decimal port.toNat) = some port := by
  obtain ⟨hne, hdigits, hvalue⟩ := Number.decimal_spells (Nat.lt_trans port.toNat_lt (by decide))
  rw [parseU16_of_head (head?_ne_plus hdigits)]
  exact parseDigits_eq_some.2 ⟨hne, hdigits, hvalue⟩

end URL

namespace Parts

/-! ## What is written -/

variable {p : Parts}

/-- An octet that a host may have: it is printed, and is no delimiter but the colon. -/
def Ordinary (octet : UInt8) : Prop := (0x20 < octet ∧ octet ≠ 0x7f) ∧ octet ∉ lit "/?#@[]"

theorem ordinary_of_isLiteral {octet : UInt8} (h : URL.isLiteral octet = true) : Ordinary octet := by
  have hnone : ∀ other ∈ 0x7f :: lit "/?#@[]", URL.isLiteral other = false := by decide +kernel
  have hlow : 0x20 < octet := by
    rw [URL.isLiteral, URL.isAsciiHexdigit, Str.isDigit] at h
    simp only [Bool.or_eq_true, Bool.and_eq_true, decide_eq_true_eq, beq_iff_eq, UInt8.le_iff_toNat_le] at h
    rw [UInt8.lt_iff_toNat_lt]
    rcases h with (((h | h) | h) | rfl) | rfl
    · exact Nat.lt_of_lt_of_le (by decide) h.1
    · exact Nat.lt_of_lt_of_le (by decide) h.1
    · exact Nat.lt_of_lt_of_le (by decide) h.1
    · decide
    · decide
  refine ⟨⟨hlow, ?_⟩, fun hmem => ?_⟩
  · rintro rfl
    exact absurd (hnone _ List.mem_cons_self) (by rw [h]; decide)
  · exact absurd (hnone _ (List.mem_cons_of_mem _ hmem)) (by rw [h]; decide)

theorem eq_colon_of_ordinary {octet : UInt8} (h : Ordinary octet) (hdelimiter : octet ∈ lit "/?#@[]:") : octet = 0x3a := by
  rcases List.mem_append.1 (show octet ∈ lit "/?#@[]" ++ lit ":" from hdelimiter) with hmem | hmem
  · exact absurd hmem h.2
  · exact List.mem_singleton.1 hmem

theorem isLiteral_of_isDigit {octet : UInt8} (h : Str.isDigit octet = true) : URL.isLiteral octet = true := by
  rw [URL.isLiteral, URL.isAsciiHexdigit, h]
  rfl

/-- The octets of a host are ordinary, and a colon is in none but a literal. -/
theorem ordinary_host (h : p.Proper) :
    (∀ octet ∈ p.host, Ordinary octet) ∧ (p.bracketed = false → 0x3a ∉ p.host) ∧ p.host ≠ [] := by
  cases hbracketed : p.bracketed with
  | true =>
    obtain ⟨hne, hliteral⟩ := h.literal hbracketed
    exact ⟨fun octet hoctet => ordinary_of_isLiteral (List.all_eq_true.1 hliteral octet hoctet),
      (fun hfalse => by cases hfalse), hne⟩
  | false =>
    have hhost := h.host hbracketed
    rw [URL.isHost, Bool.and_eq_true, List.all_eq_true] at hhost
    obtain ⟨hne, hall⟩ := hhost
    have hoctet : ∀ octet ∈ p.host, (0x20 < octet ∧ octet ≠ 0x7f) ∧ octet ∉ lit "/?#@[]:" := fun octet hoctet => by
      simpa [and_assoc] using hall octet hoctet
    refine ⟨fun octet hmem => ⟨(hoctet octet hmem).1, fun hdelimiter => (hoctet octet hmem).2 ?_⟩, fun _ hmem => ?_, by simpa using hne⟩
    · exact (List.prefix_append (lit "/?#@[]") (lit ":")).subset hdelimiter
    · exact (hoctet _ hmem).2 (by decide)

/-- The parts that a URL is written in. -/
def written (url : URL) : Parts where
  scheme := url.scheme
  userinfo := none
  bracketed := url.host.contains 0x3a
  host := url.host
  port := if url.port == URL.defaultPort url.scheme then none else some (Number.decimal url.port.toNat)
  tail := url.target

theorem place_written (url : URL) : (written url).place = url.authority := by
  rw [place, URL.authority, URL.authorityOf, written]
  dsimp only
  cases url.host.contains 0x3a <;> cases url.port == URL.defaultPort url.scheme <;> simp <;> rfl

theorem text_written (url : URL) : (written url).text = url.scheme ++ lit "://" ++ (url.authority ++ url.target) := by
  rw [text, authority, place_written]
  rfl

theorem host_url (p : Parts) : p.url.host = p.host := rfl

theorem target_url (p : Parts) : p.url.target = p.target := rfl

theorem notMem_of_named (h : (written p.url).bracketed = false) : 0x3a ∉ p.host := by
  change p.host.contains 0x3a = false at h
  exact fun hmem => Bool.eq_false_iff.1 h (List.contains_iff_mem.2 hmem)

/-- The octets of an authority that is written are printed, and what ends an authority or its userinfo is none of them. -/
theorem octets_place (h : p.Proper) :
    ∀ octet ∈ (written p.url).place, (0x20 < octet ∧ octet ≠ 0x7f) ∧ octet ∉ lit "/?#@" := by
  have hordinary : ∀ octet, Ordinary octet → (0x20 < octet ∧ octet ≠ 0x7f) ∧ octet ∉ lit "/?#@" := fun octet hoctet =>
    ⟨hoctet.1, fun hmem => hoctet.2 ((List.prefix_append (lit "/?#@") (lit "[]")).subset hmem)⟩
  have hmarks : ∀ octet ∈ lit "[]:", (0x20 < octet ∧ octet ≠ 0x7f) ∧ octet ∉ lit "/?#@" := by decide +kernel
  have hhost : ∀ octet ∈ p.url.host, (0x20 < octet ∧ octet ≠ 0x7f) ∧ octet ∉ lit "/?#@" := fun octet hoctet =>
    hordinary octet ((ordinary_host h).1 octet hoctet)
  have hdigits : ∀ octet ∈ Number.decimal p.url.port.toNat, (0x20 < octet ∧ octet ≠ 0x7f) ∧ octet ∉ lit "/?#@" := fun octet hoctet =>
    hordinary octet (ordinary_of_isLiteral (isLiteral_of_isDigit (List.all_eq_true.1 (Number.decimal_digits _) octet hoctet)))
  intro octet hoctet
  rw [place, List.mem_append] at hoctet
  rcases hoctet with hoctet | hoctet
  · split_ifs at hoctet
    · rw [List.mem_cons, List.mem_append, List.mem_singleton] at hoctet
      rcases hoctet with rfl | hoctet | rfl
      · exact hmarks _ (by decide)
      · exact hhost octet hoctet
      · exact hmarks _ (by decide)
    · exact hhost octet hoctet
  · rw [written] at hoctet
    dsimp only at hoctet
    split_ifs at hoctet
    · exact absurd hoctet List.not_mem_nil
    · rcases List.mem_cons.1 hoctet with rfl | hoctet
      · exact hmarks _ (by decide)
      · exact hdigits octet hoctet

theorem target_ne_nil (h : p.Proper) : p.target.isEmpty = false := by
  have htarget := h.target
  rw [Soyokaze.URL.isTarget, Bool.and_eq_true, Bool.not_eq_true'] at htarget
  exact htarget.1

/-- A URL that is read is written in parts that end where they are cut. -/
theorem cut_written (h : p.Cut) (hproper : p.Proper) : (written p.url).Cut := by
  obtain ⟨hordinary, hcolon, hne⟩ := ordinary_host hproper
  have hplace := octets_place hproper
  refine ⟨h.scheme.map fun octet hoctet other => Str.lower_eq_iff ?_, fun octet hoctet => ?_, fun octet hoctet => ?_, fun hmem => ?_,
    fun _ hmem => ?_, fun hnamed hhead => ?_, fun hnamed => ?_⟩
  · have hsmall : ∀ octet ∈ lit "://", octet < 0x41 := by decide +kernel
    exact hsmall octet hoctet
  · rw [authority] at hoctet
    have hends := (hplace octet hoctet).2
    rw [URL.ends, ← Bool.not_eq_true, List.contains_iff_mem]
    exact fun hmem => hends ((List.prefix_append (lit "/?#") (lit "@")).subset hmem)
  · change octet ∈ p.target.head? at hoctet
    rw [target] at hoctet
    split_ifs at hoctet
    · cases hoctet
      decide
    · exact h.tail octet hoctet
  · exact (hplace _ hmem).2 (by decide)
  · exact (hordinary _ hmem).2 (by decide)
  · -- The authority would begin with the host.
    obtain ⟨first, host, hhost⟩ := List.exists_cons_of_ne_nil hne
    rw [place_named hnamed, written, host_url, hhost] at hhead
    cases hhead
    exact (hordinary 0x5b (hhost ▸ List.mem_cons_self)).2 (by decide)
  · rw [written]
    dsimp only
    split_ifs
    · exact notMem_of_named hnamed
    · exact fun hmem => absurd (List.all_eq_true.1 (Number.decimal_digits _) 0x3a hmem) (by decide)

theorem proper_written (hproper : p.Proper) : (written p.url).Proper := by
  obtain ⟨hordinary, hcolon, hne⟩ := ordinary_host hproper
  have htarget : (written p.url).target = p.target := by
    change (if p.target.isEmpty then lit "/" else p.target) = p.target
    rw [target_ne_nil hproper]
    rfl
  refine ⟨htarget ▸ hproper.target, fun hliteral => ?_, fun hnamed => ?_, fun digits hdigits => ?_⟩
  · -- Only a literal has a colon in it.
    refine hproper.literal ?_
    by_contra hnamed
    exact hcolon (Bool.eq_false_iff.2 hnamed) (List.contains_iff_mem.1 hliteral)
  · change URL.isHost p.host = true
    have hall : ∀ octet ∈ p.host, (0x20 < octet ∧ octet ≠ 0x7f) ∧ octet ∉ lit "/?#@[]:" := fun octet hoctet => by
      refine ⟨(hordinary octet hoctet).1, fun hmem => ?_⟩
      rw [eq_colon_of_ordinary (hordinary octet hoctet) hmem] at hoctet
      exact notMem_of_named hnamed hoctet
    rw [URL.isHost, Bool.and_eq_true, List.all_eq_true]
    exact ⟨by simpa using hne, fun octet hoctet => by simpa [and_assoc] using hall octet hoctet⟩
  · rw [written] at hdigits
    dsimp only at hdigits
    split_ifs at hdigits
    · cases hdigits
    · cases hdigits
      rw [URL.parseU16_decimal]
      rfl

theorem url_written (hproper : p.Proper) : (written p.url).url = p.url := by
  have hscheme : Str.toAsciiLowercase p.url.scheme = p.url.scheme := Str.toAsciiLowercase_toAsciiLowercase p.scheme
  have htarget : (written p.url).target = p.url.target := by
    change (if p.target.isEmpty then lit "/" else p.target) = p.target
    rw [target_ne_nil hproper]
    rfl
  have hport : ((written p.url).port.bind URL.parseU16).getD (URL.defaultPort p.url.scheme) = p.url.port := by
    rw [written]
    dsimp only
    split_ifs with hdefault
    · exact (beq_iff_eq.1 hdefault).symm
    · rw [Option.bind_some, URL.parseU16_decimal]
      rfl
  rw [Parts.url, htarget]
  change URL.mk (Str.toAsciiLowercase p.url.scheme) p.url.host (((written p.url).port.bind URL.parseU16).getD
    (URL.defaultPort (Str.toAsciiLowercase p.url.scheme))) p.url.target = p.url
  rw [hscheme, hport]

/-- And is read again of it. -/
theorem parse_written (h : p.Cut) (hproper : p.Proper) :
    URL.parse (p.url.scheme ++ lit "://" ++ (p.url.authority ++ p.url.target)) = .ok p.url := by
  rw [← text_written, parse_text (cut_written h hproper)]
  exact ⟨proper_written hproper, (url_written hproper).symm⟩

/-- The userinfo makes no difference. -/
theorem parse_without_userinfo (h : p.Cut) (hproper : p.Proper) : URL.parse { p with userinfo := none }.text = .ok p.url := by
  have hcut : ({ p with userinfo := none } : Parts).Cut :=
    ⟨h.scheme, fun octet hoctet => h.authority octet (List.mem_append_right _ hoctet), h.tail, h.place, h.bracketed, h.named, h.port⟩
  exact (parse_text hcut).2 ⟨⟨hproper.target, hproper.literal, hproper.host, hproper.port⟩, rfl⟩

/-! ## What is promised -/

/-- What is promised of the URL that is read of some parts. -/
structure Promised (p : Parts) (url : URL) : Prop where
  /-- It is read again of what it is written as. -/
  again : URL.parse (url.scheme ++ lit "://" ++ (url.authority ++ url.target)) = .ok url
  rooted : url.target.head? = some 0x2f
  /-- It is what is read without the userinfo. -/
  userinfo : URL.parse { p with userinfo := none }.text = .ok url ∧ 0x40 ∉ url.host
  host : p.bracketed = false → ∀ octet ∈ lit "/?#@[]:", octet ∉ url.host
  /-- A port that is written is digits, one or more, of a number of 16 bits. -/
  port : ∀ digits ∈ p.port, digits ≠ [] ∧ digits.all Str.isDigit = true ∧ Str.decimal digits = url.port.toNat
  visible : ∀ octet ∈ url.authority ++ url.target, 0x20 < octet ∧ octet ≠ 0x7f

/-- The tail does not begin with a query or a fragment, and no `+` stands before the port. -/
structure Plain (p : Parts) : Prop where
  tail : ∀ octet ∈ p.tail.head?, octet = 0x2f
  port : ∀ digits ∈ p.port, digits.head? ≠ some 0x2b

theorem head?_target : p.target.head? = some 0x2f ↔ ∀ octet ∈ p.tail.head?, octet = 0x2f := by
  rw [target]
  cases p.tail with
  | nil => simp; rfl
  | cons octet tail => simp

theorem spelled_iff (h : p.Proper) : (∀ digits ∈ p.port, digits ≠ [] ∧ digits.all Str.isDigit = true ∧
    Str.decimal digits = p.url.port.toNat) ↔ ∀ digits ∈ p.port, digits.head? ≠ some 0x2b := by
  refine forall₂_congr fun digits hdigits => ⟨fun hspelled => URL.head?_ne_plus hspelled.2.1, fun hplus => ?_⟩
  obtain ⟨n, hn⟩ := Option.isSome_iff_exists.1 (h.port digits hdigits)
  have hport : p.url.port = n := by
    rw [url, hdigits, Option.bind_some, hn]
    rfl
  rw [hport]
  rw [URL.parseU16_of_head hplus] at hn
  exact URL.parseDigits_eq_some.1 hn

end Parts

namespace URL

variable {text : Octets} {url : URL}

/-- A text that is accepted is in parts, and what is promised of the URL holds where they are plain. -/
theorem promised_iff (h : parse text = .ok url) : (∃ p : Parts, p.Cut ∧ text = p.text) ∧
    ∀ p : Parts, p.Cut → text = p.text → (p.Promised url ↔ p.Plain) := by
  refine ⟨exists_parts h, fun p hcut htext => ?_⟩
  obtain ⟨hproper, rfl⟩ := (Parts.parse_text hcut).1 (htext ▸ h)
  obtain ⟨hordinary, hcolon, -⟩ := Parts.ordinary_host hproper
  constructor
  · intro hpromised
    exact ⟨(Parts.head?_target).1 hpromised.rooted, (Parts.spelled_iff hproper).1 hpromised.port⟩
  · intro hplain
    refine ⟨Parts.parse_written hcut hproper, (Parts.head?_target).2 hplain.tail,
      ⟨Parts.parse_without_userinfo hcut hproper, fun hmem => (hordinary _ hmem).2 (by decide)⟩, fun hnamed octet hoctet hmem => ?_,
      (Parts.spelled_iff hproper).2 hplain.port, fun octet hoctet => ?_⟩
    · rw [Parts.host_url] at hmem
      rw [Parts.eq_colon_of_ordinary (hordinary octet hmem) hoctet] at hmem
      exact hcolon hnamed hmem
    · rcases List.mem_append.1 hoctet with hoctet | hoctet
      · rw [← Parts.place_written] at hoctet
        exact (Parts.octets_place hproper octet hoctet).1
      · have htarget := hproper.target
        rw [Soyokaze.URL.isTarget, Bool.and_eq_true, Scan.allVisible, List.all_eq_true] at htarget
        simpa using htarget.2 octet hoctet

/-- A literal behind userinfo, with a port. -/
theorem promised_literal :
    (⟨lit "HTTPS", some (lit "a@b"), true, lit "::1", some (lit "8443"), lit "/c?d"⟩ : Parts).Promised
      ⟨lit "https", lit "::1", 8443, lit "/c?d"⟩ :=
  ((promised_iff (show parse (lit "HTTPS://a@b@[::1]:8443/c?d") = _ by decide)).2 _
    ⟨(Str.first_of_splitOnceAt (show Str.splitOnceAt (lit "://") (lit "HTTPS://") = some (_, []) by decide)).2,
      by decide +kernel, by decide +kernel, by decide +kernel, by decide +kernel, by decide +kernel, by decide +kernel⟩ rfl).2 ⟨by decide +kernel, by decide +kernel⟩

/-- A query directly behind the authority is a target of its own, and a `+` may stand before a port. -/
theorem unpromised_query : parse (lit "http://h?x") = .ok ⟨lit "http", lit "h", 80, lit "?x"⟩ ∧
    parse (lit "http://h:+8080/") = .ok ⟨lit "http", lit "h", 8080, lit "/"⟩ ∧
    ¬ ∀ text url, parse text = .ok url → ∀ p : Parts, p.Cut → text = p.text → p.Promised url := by
  refine ⟨by decide, by decide, fun hall => ?_⟩
  have hpromised := hall (lit "http://h?x") ⟨lit "http", lit "h", 80, lit "?x"⟩ (by decide)
    ⟨lit "http", none, false, lit "h", none, lit "?x"⟩
    ⟨(Str.first_of_splitOnceAt (show Str.splitOnceAt (lit "://") (lit "http://") = some (_, []) by decide)).2,
      by decide +kernel, by decide +kernel, by decide +kernel, by decide +kernel, by decide +kernel, by decide +kernel⟩ rfl
  exact absurd hpromised.rooted (by decide)

end URL

end Models

end Soyokaze

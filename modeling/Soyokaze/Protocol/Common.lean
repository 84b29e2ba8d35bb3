import Mathlib.Data.List.AList
import Soyokaze.Helpers.Hpack
import Soyokaze.Helpers.Qpack
import Soyokaze.Lib.Source
import Soyokaze.Models

/-!
# What the versions share

The writing half of a transport, the streams of a connection by their numbers, and
the conversion between a message and the field list HTTP/2 and HTTP/3 frame. Both
carry the start line as pseudo-headers and hold them to the same rules, so the
rules are here once.

* `StreamMap.lookup_modify`, `StreamMap.lookup_mapValues`: what changing one stream, or
  every stream, leaves of each.
-/

namespace Soyokaze

/-! ## The errors of the codecs -/

namespace Error

/-- A string that is not Huffman-coded as it should be, as `codec` reports it. -/
def ofHuffman (codec : String) : Huffman.DecodeError → Error
  | .invalidPadding => .protocol (codec ++ ": huffman error: huffman padding is not all one-bits") []
  | .unknownSymbol => .protocol (codec ++ ": huffman error: huffman code does not map to a known symbol") []

/-- A block HPACK would not decode. -/
def ofHpack : Hpack.Error → Error
  | .indexOutOfRange index => .protocol "hpack: index {index} is out of range" [.number index]
  | .integerOverflow => .protocol "hpack: integer representation overflowed" []
  | .invalidCapacityUpdate => .protocol "hpack: dynamic table capacity update exceeds the negotiated limit" []
  | .incomplete => .protocol "hpack: representation ends before the block does" []
  | .huffman error => ofHuffman "hpack" error
  | .decodedSizeExceeded => .protocol "hpack: decoded header list exceeds the permitted size" []

/-- What QPACK would not decode. -/
def ofQpack : Qpack.Error → Error
  | .indexOutOfRange index => .protocol "qpack: absolute index {index} is out of range" [.number index]
  | .integerOverflow => .protocol "qpack: integer representation overflowed" []
  | .invalidCapacityUpdate => .protocol "qpack: dynamic table capacity update exceeds the negotiated limit" []
  | .invalidInsertCount => .protocol "qpack: required insert count could not have been produced by an encoder" []
  | .invalidBase => .protocol "qpack: delta base places the base below zero" []
  | .entryTooLarge => .protocol "qpack: entry is larger than the dynamic table capacity" []
  | .instructionTooLarge => .protocol "qpack: a single instruction exceeds the permitted size" []
  | .tooManyBlockedStreams => .protocol "qpack: more streams are blocked than were advertised" []
  | .incomplete => .protocol "qpack: representation ends before the block does" []
  | .blocked => .protocol "qpack: decoding is blocked on a pending dynamic table insertion" []
  | .huffman error => ofHuffman "qpack" error
  | .decodedSizeExceeded => .protocol "qpack: decoded header list exceeds the permitted size" []

end Error

/-! ## The writing half of a transport -/

/-- The writing half of a transport: what was written, and how the writes to come end. -/
structure Sink where
  written : Octets
  outcomes : List (Except Error Unit)

/-- One write. -/
def Sink.write (sink : Sink) (octets : Octets) : Except Error Unit × Sink :=
  match sink.outcomes with
  | .error error :: outcomes => (.error error, { sink with outcomes := outcomes })
  | .ok () :: outcomes => (.ok (), ⟨sink.written ++ octets, outcomes⟩)
  | [] => (.ok (), { sink with written := sink.written ++ octets })

/-! ## Streams by their numbers -/

/-- State kept by stream identifier. -/
abbrev StreamMap (α : Type) := AList fun _ : ℕ => α

namespace StreamMap

variable {α : Type}

/-- Changes the state of one stream, if it is there. -/
def modify (streams : StreamMap α) (id : ℕ) (f : α → α) : StreamMap α :=
  match streams.lookup id with
  | some stream => streams.insert id (f stream)
  | none => streams

/-- Changes the state of every stream. -/
def mapValues (streams : StreamMap α) (f : α → α) : StreamMap α where
  entries := streams.entries.map fun entry => ⟨entry.1, f entry.2⟩
  nodupKeys := by
    have hkeys : (streams.entries.map fun entry => (⟨entry.1, f entry.2⟩ : Σ _ : ℕ, α)).keys = streams.entries.keys :=
      List.map_map
    rw [List.NodupKeys, hkeys]
    exact streams.nodupKeys

/-- The states of every stream. -/
def values (streams : StreamMap α) : List α := streams.entries.map (·.2)

theorem lookup_modify (streams : StreamMap α) (id : ℕ) (f : α → α) (other : ℕ) :
    (streams.modify id f).lookup other = if other = id then (streams.lookup other).map f else streams.lookup other := by
  rw [modify]
  split
  · next stream hstream =>
    split_ifs with h
    · rw [h, AList.lookup_insert, hstream]
      rfl
    · rw [AList.lookup_insert_ne h]
  · next hnone =>
    split_ifs with h
    · rw [h, hnone]
      rfl
    · rfl

theorem mem_values {streams : StreamMap α} {id : ℕ} {stream : α} (h : streams.lookup id = some stream) :
    stream ∈ streams.values := List.mem_map.2 ⟨⟨id, stream⟩, AList.mem_lookup_iff.1 h, rfl⟩

theorem lookup_mapValues (streams : StreamMap α) (f : α → α) (id : ℕ) :
    (streams.mapValues f).lookup id = (streams.lookup id).map f := by
  obtain ⟨entries, hnodup⟩ := streams
  simp only [mapValues, AList.lookup]
  clear hnodup
  induction entries with
  | nil => rfl
  | cons entry entries ih =>
    obtain ⟨key, stream⟩ := entry
    rw [List.map_cons]
    by_cases h : id = key
    · rw [h, List.dlookup_cons_eq, List.dlookup_cons_eq]
      rfl
    · rw [List.dlookup_cons_ne _ _ h, List.dlookup_cons_ne _ _ h, ih]

end StreamMap

/-! ## Field names and values -/

namespace HeaderField

/-- Whether an octet may appear in a token. -/
def isTchar (octet : UInt8) : Bool :=
  (0x30 ≤ octet && octet ≤ 0x39) || (0x41 ≤ octet && octet ≤ 0x5a) || (0x61 ≤ octet && octet ≤ 0x7a) ||
    (Soyokaze.lit "!#$%&'*+-.^_\x60|~").contains octet

/-- Whether an octet is an upper-case letter. -/
def isUpper (octet : UInt8) : Bool := 0x41 ≤ octet && octet ≤ 0x5a

/-- Whether a name is a token with no upper-case letter in it, as the binary versions
    require. -/
def isLowercaseName (name : Octets) : Bool := !name.isEmpty && name.all fun octet => isTchar octet && !isUpper octet

/-- Whether an octet is a space or a tab. -/
def isBlank (octet : UInt8) : Bool := octet == 0x20 || octet == 0x09

/-- Whether a field value may be sent or accepted: no control octet, and no blank that a
    receiver would strip. -/
def isValue (value : Octets) : Bool :=
  if (value.head?.map isBlank).getD false || (value.getLast?.map isBlank).getD false then false
  else Scan.isFieldValue value

end HeaderField

/-! ## Messages and field lists -/

namespace Fields

/-- Fields that describe an HTTP/1 connection rather than a message. -/
def CONNECTION_SPECIFIC : List Octets :=
  [lit "connection", lit "keep-alive", lit "proxy-connection", lit "transfer-encoding", lit "upgrade"]

/-- Fields that must not appear in a trailer section, beside those. -/
def FORBIDDEN_TRAILERS : List Octets := [lit "content-length", lit "expect", lit "host", lit "te", lit "trailer"]

/-- Whether a field name is a pseudo-header's. -/
def pseudo (name : Text) : Bool := name.octets.head? == some 0x3a

/-- Whether a field name is one of an HTTP/1 connection's. -/
def connectionSpecific (name : Text) : Bool := CONNECTION_SPECIFIC.contains name.octets

/-- Whether a field name may not appear in a trailer section. -/
def forbiddenTrailer (name : Text) : Bool := connectionSpecific name || FORBIDDEN_TRAILERS.contains name.octets

/-- Checks one field of a section. -/
def check (field : HeaderField) : Except Soyokaze.Error Unit :=
  if !HeaderField.isLowercaseName field.name.octets then
    .error (.protocol "field name {name} is not a lowercase token" [.text field.name.octets])
  else if !HeaderField.isValue field.value.octets then
    .error (.protocol "field value of {name} is not a field value" [.text field.name.octets])
  else .ok ()

/-- Checks one field of a trailer section. -/
def checkTrailer (field : HeaderField) : Except Soyokaze.Error Unit :=
  if pseudo field.name then .error (.protocol "trailer section carries a pseudo-header" [])
  else match check field with
    | .error error => .error error
    | .ok () =>
      if forbiddenTrailer field.name then
        .error (.protocol "field {name} cannot appear in a trailer section" [.text field.name.octets])
      else .ok ()

/-- Checks the fields of a trailer section, up to the first that may not be there. -/
def checkTrailers : List HeaderField → Except Soyokaze.Error Unit
  | [] => .ok ()
  | field :: fields =>
    match checkTrailer field with
    | .error error => .error error
    | .ok () => checkTrailers fields

/-- The trailers a decoded section gives a message. -/
def intoTrailers (fields : List HeaderField) : Except Soyokaze.Error Headers :=
  match checkTrailers fields with
  | .error error => .error error
  | .ok () => .ok (.adopt fields)

/-- A status code as `:status` carries it. -/
def status (statusCode : ℕ) : Text :=
  if 100 ≤ statusCode ∧ statusCode < 1000 then
    .fromVerifiedAscii [.ofNat (0x30 + statusCode / 100), .ofNat (0x30 + statusCode / 10 % 10),
      .ofNat (0x30 + statusCode % 10)]
  else .fromUtf8Lossy (Number.decimal statusCode)

/-! ### From a message -/

/-- The pseudo-headers of a request that is no plain `CONNECT`. -/
def writeRequest (m : Message) (target : Text) (protocol : Option Text) : Except Soyokaze.Error (List HeaderField) :=
  let scheme : HeaderField := ⟨.lit ":scheme", .lit (if m.secure then "https" else "http")⟩
  let rest : List HeaderField := ⟨.lit ":path", target⟩ :: (protocol.map fun value => ⟨.lit ":protocol", value⟩).toList
  if !URL.isTarget target.octets then
    .error (.protocol "request target {target} is malformed" [.text target.octets])
  else match m.section'.get (.lit "host") with
    | none => .ok (scheme :: rest)
    | some authority =>
      if !URL.isAuthority authority.octets then
        .error (.protocol "authority {authority} is malformed" [.text authority.octets])
      else .ok (scheme :: ⟨.lit ":authority", authority⟩ :: rest)

/-- The pseudo-headers of a message. -/
def writePseudo (m : Message) : Except Soyokaze.Error (List HeaderField) :=
  match m.method, m.statusCode with
  | some method, _ =>
    let target := m.target.getD (.lit "/")
    let protocol := m.section'.get (.lit ":protocol")
    (if method = .CONNECT ∧ protocol = none then
      if !URL.isAuthority target.octets then
        .error (.protocol "authority {target} is malformed" [.text target.octets])
      else .ok [⟨.lit ":authority", target⟩]
    else writeRequest m target protocol).map (⟨.lit ":method", .fromUtf8Lossy method.asStr⟩ :: ·)
  | none, some statusCode => .ok [⟨.lit ":status", status statusCode⟩]
  | none, none => .error (.protocol "message is neither a request nor a response" [])

/-- The regular fields of a section, as they are framed. -/
def writeRegular : List HeaderField → Except Soyokaze.Error (List HeaderField)
  | [] => .ok []
  | field :: fields =>
    if pseudo field.name || field.name == .lit "host" then writeRegular fields
    else match check field with
      | .error error => .error error
      | .ok () =>
        if connectionSpecific field.name then
          .error (.protocol "connection-specific field {name} cannot be framed" [.text field.name.octets])
        else (writeRegular fields).map (field :: ·)

/-- The field list a message is framed as. -/
def write (m : Message) : Except Soyokaze.Error (List HeaderField) :=
  match writePseudo m with
  | .error error => .error error
  | .ok start => (writeRegular m.section'.fields).map (start ++ ·)

/-! ### To a message -/

/-- The pseudo-headers there are. -/
inductive Pseudo
  | method | status | scheme | path | authority | protocol
  deriving DecidableEq

/-- A pseudo-header's name. -/
def Pseudo.name : Pseudo → Octets
  | .method => lit ":method"
  | .status => lit ":status"
  | .scheme => lit ":scheme"
  | .path => lit ":path"
  | .authority => lit ":authority"
  | .protocol => lit ":protocol"

/-- The pseudo-header a name is of. -/
def Pseudo.of (name : Octets) : Option Pseudo :=
  [Pseudo.method, .status, .scheme, .path, .authority, .protocol].find? (·.name == name)

/-- What the fields walked so far came to. -/
structure Gathered where
  message : Message
  regular : Bool
  seen : List Pseudo
  authority : Option Text
  path : Option Text

/-- Takes in one pseudo-header's value. -/
def gatherPseudo (g : Gathered) (pseudo : Pseudo) (value : Text) : Except Soyokaze.Error Gathered :=
  let g := { g with seen := pseudo :: g.seen }
  match pseudo with
  | .method =>
    match Method.parse value.octets with
    | some method => .ok { g with message := { g.message with method := some method } }
    | none => .error (.protocol "method {value} is not recognised" [.text value.octets])
  | .status =>
    if value.len ≠ 3 ∨ !value.octets.all Str.isDigit then
      .error (.protocol "status {value} is not three digits" [.text value.octets])
    else .ok { g with message := { g.message with
      statusCode := some (value.octets.foldl (fun status digit => status * 10 + (digit.toNat - 0x30)) 0) } }
  | .scheme => .ok { g with message := { g.message with secure := value == .lit "https" } }
  | .authority =>
    if !URL.isAuthority value.octets then .error (.protocol "authority {value} is malformed" [.text value.octets])
    else .ok { g with authority := some value }
  | .path =>
    if !URL.isTarget value.octets then .error (.protocol "path {value} is malformed" [.text value.octets])
    else .ok { g with path := some value }
  | .protocol => .ok g

/-- Takes in one regular field. -/
def gatherRegular (g : Gathered) (field : HeaderField) : Except Soyokaze.Error Gathered :=
  match check field with
  | .error error => .error error
  | .ok () =>
    if connectionSpecific field.name then
      .error (.protocol "connection-specific field {name} cannot be framed" [.text field.name.octets])
    else if field.name == .lit "te" && field.value != .lit "trailers" then
      .error (.protocol "TE may only request trailers" [])
    else .ok { g with regular := true }

/-- Takes in one field. -/
def gather (g : Gathered) (field : HeaderField) : Except Soyokaze.Error Gathered :=
  if !pseudo field.name then gatherRegular g field
  else if g.regular then
    .error (.protocol "pseudo-header {name} follows a regular field" [.text field.name.octets])
  else if !HeaderField.isValue field.value.octets then
    .error (.protocol "pseudo-header {name} carries a malformed value" [.text field.name.octets])
  else match Pseudo.of field.name.octets with
    | none => .error (.protocol "pseudo-header {name} is not defined" [.text field.name.octets])
    | some pseudo =>
      if g.seen.contains pseudo then
        .error (.protocol "pseudo-header {name} is repeated" [.text field.name.octets])
      else gatherPseudo g pseudo field.value

/-- Takes in fields one by one. -/
def gatherAll : Gathered → List HeaderField → Except Soyokaze.Error Gathered
  | g, [] => .ok g
  | g, field :: fields =>
    match gather g field with
    | .error error => .error error
    | .ok g => gatherAll g fields

/-- The pseudo-header that is of the other kind of message, if there is one. -/
def stray (g : Gathered) : Option Pseudo :=
  (if g.message.method.isSome then [Pseudo.status] else [.method, .scheme, .path, .authority, .protocol]).find?
    (g.seen.contains ·)

/-- The target of a request. -/
def targetOf (g : Gathered) (method : Method) : Except Soyokaze.Error (Option Text) :=
  if method = .CONNECT ∧ !g.seen.contains .protocol then
    if g.authority.isNone || g.seen.contains .scheme || g.seen.contains .path then
      .error (.protocol "CONNECT carries an authority and nothing else" [])
    else .ok g.authority
  else
    let path := g.path.getD .new
    if path.isEmpty || !g.seen.contains .scheme then
      .error (.protocol "request needs both a scheme and a non-empty path" [])
    else .ok (some path)

/-- The message that fields walked to their end make. -/
def messageOf (g : Gathered) (fields : List HeaderField) : Except Soyokaze.Error Message :=
  match stray g with
  | some pseudo =>
    .error (.protocol "pseudo-header {name} does not belong to this message" [.text pseudo.name])
  | none =>
    match g.message.method, g.message.statusCode with
    | none, none => .error (.protocol "message has neither :method nor :status" [])
    | none, some _ => .ok { g.message with headers := some (.adopt fields) }
    | some method, _ =>
      (targetOf g method).map fun target =>
        let headers := Headers.adopt fields
        { g.message with
          target := target
          headers := some (match g.authority with
            | some authority => headers.insert (.lit "host") authority
            | none => headers) }

/-- The message a decoded field list is. -/
def intoMessage (fields : List HeaderField) (version : Version) : Except Soyokaze.Error Message :=
  match gatherAll ⟨.new version, false, [], none, none⟩ fields with
  | .error error => .error error
  | .ok g => messageOf g fields

end Fields

end Soyokaze

import Soyokaze.Helpers.Compression
import Soyokaze.Helpers.Fields

/-!
# Messages

One request or response, whichever version framed it, and the field sections it
carries. A section answers most lookups from the bits it keeps for the field
names it is asked for often (`Headers.present`), which by construction are
those of the names it holds.

* `Headers.absent_sound`: the bits rule out no name the section holds;
* `Method.parse_asStr`, `Method.asStr_of_parse`: a method is read from its name
  and from nothing else.
-/

namespace Soyokaze

/-- An HTTP version. -/
inductive Version
  | v1_0 | v1_1 | v2_0 | v3_0
  deriving DecidableEq

namespace Version

/-- The major version number. -/
def major : Version → ℕ
  | v1_0 | v1_1 => 1
  | v2_0 => 2
  | v3_0 => 3

/-- The version as it is written in a start line. -/
def asStr : Version → Octets
  | v1_0 => lit "HTTP/1.0"
  | v1_1 => lit "HTTP/1.1"
  | v2_0 => lit "HTTP/2"
  | v3_0 => lit "HTTP/3"

end Version

/-- A request method. -/
inductive Method
  | GET | HEAD | POST | PUT | DELETE | CONNECT | OPTIONS | TRACE | PATCH
  deriving DecidableEq

namespace Method

/-- The method name as it appears on the wire. -/
def asStr : Method → Octets
  | GET => lit "GET"
  | HEAD => lit "HEAD"
  | POST => lit "POST"
  | PUT => lit "PUT"
  | DELETE => lit "DELETE"
  | CONNECT => lit "CONNECT"
  | OPTIONS => lit "OPTIONS"
  | TRACE => lit "TRACE"
  | PATCH => lit "PATCH"

/-- The methods there are. -/
def ALL : List Method := [GET, HEAD, POST, PUT, DELETE, CONNECT, OPTIONS, TRACE, PATCH]

/-- The method a name stands for. -/
def parse (text : Octets) : Option Method := ALL.find? (·.asStr == text)

theorem parse_asStr (m : Method) : parse m.asStr = some m := by cases m <;> decide +kernel

theorem asStr_of_parse {text : Octets} {m : Method} (h : parse text = some m) : m.asStr = text :=
  beq_iff_eq.1 (@List.find?_some _ (fun m : Method => m.asStr == text) m ALL h)

end Method

/-- What one end of a connection is doing on it. -/
inductive Role
  | userAgent | origin | proxy | gateway | tunnel
  deriving DecidableEq

namespace Role

/-- Whether this role sends requests and reads responses. -/
def isClient : Role → Bool
  | userAgent | proxy => true
  | _ => false

/-- Whether this role reads requests and sends responses. -/
def isServer : Role → Bool
  | origin | gateway => true
  | _ => false

end Role

/-- How field names are cased when they are written out. -/
inductive HeaderCase
  | title | lower
  deriving DecidableEq

namespace HeaderCase

/-- Raises the letter that begins each word, where a dash ends one. -/
def titleLoop : Bool → Octets → Octets
  | _, [] => []
  | first, octet :: rest => (if first then Str.upper octet else octet) :: titleLoop (octet = 0x2d) rest

/-- A field name in this casing. -/
def apply (case : HeaderCase) (name : Octets) : Octets :=
  match case with
  | title => titleLoop true (name.map Str.lower)
  | lower => name.map Str.lower

/-- The casing a version expects. -/
def fromVersion : Version → HeaderCase
  | .v1_0 | .v1_1 => title
  | .v2_0 | .v3_0 => lower

end HeaderCase

namespace URL

/-- Whether a string may be sent as a request target. -/
def isTarget (target : Octets) : Bool := !target.isEmpty && Scan.allVisible target

/-- Whether a string may be sent as an authority. -/
def isAuthority (authority : Octets) : Bool := !authority.isEmpty && Scan.allVisible authority

end URL

/-! ## Field sections -/

namespace Headers

/-- The names a section keeps a bit for, the bit's place being the name's. -/
def WELL_KNOWN : List Octets :=
  [lit "te", lit "host", lit "date", lit "server", lit "cookie", lit "upgrade", lit "location", lit "connection",
    lit "keep-alive", lit "set-cookie", lit "content-type", lit "content-length", lit "accept-encoding",
    lit "content-encoding", lit "proxy-connection", lit "transfer-encoding", lit "strict-transport-security"]

/-- The presence bit that stands for a well-known field name, or zero. -/
def wellKnown (name : Text) : ℕ :=
  match WELL_KNOWN.findIdx? (· == name.octets) with
  | some index => 1 <<< index
  | none => 0

/-- The presence bits of every well-known name among some fields. -/
def presence (fields : List HeaderField) : ℕ := fields.foldl (fun present field => present ||| wellKnown field.name) 0

end Headers

/-- A field section: an ordered list of fields, with the bits that stand for the
    well-known names among them. -/
structure Headers where
  fields : List HeaderField
  present : ℕ
  present_eq : present = Headers.presence fields
  deriving DecidableEq

namespace Headers

theorem presence_append (fields : List HeaderField) (field : HeaderField) :
    presence (fields ++ [field]) = presence fields ||| wellKnown field.name := by
  rw [presence, List.foldl_append]
  rfl

/-- A bit a name stands for is among those of any section that holds the name. -/
theorem wellKnown_of_mem {fields : List HeaderField} {field : HeaderField} (h : field ∈ fields) :
    presence fields &&& wellKnown field.name = wellKnown field.name := by
  induction fields using List.reverseRecOn with
  | nil => exact absurd h List.not_mem_nil
  | append_singleton fields last ih =>
    rw [presence_append, Nat.and_or_distrib_right]
    rcases List.mem_append.1 h with h | h
    · rw [ih h]
      exact Nat.eq_of_testBit_eq fun i => by
        rw [Nat.testBit_or, Nat.testBit_and]
        cases (wellKnown field.name).testBit i <;> simp
    · rw [List.mem_singleton.1 h, Nat.and_self]
      exact Nat.eq_of_testBit_eq fun i => by
        rw [Nat.testBit_or, Nat.testBit_and]
        cases (wellKnown last.name).testBit i <;> simp

/-- An empty section. -/
def new : Headers := ⟨[], 0, rfl⟩

/-- The number of fields. -/
def len (headers : Headers) : ℕ := headers.fields.length

/-- Whether a stored name matches `name`, whatever the case of its letters. -/
def named (stored name : Text) : Bool := Str.eqIgnoreAsciiCase stored.octets name.octets

/-- Whether the presence bits prove a name is not here. -/
def absent (headers : Headers) (name : Text) : Bool :=
  wellKnown name != 0 && headers.present &&& wellKnown name == 0

/-- The bits rule out no name the section holds. -/
theorem absent_sound {headers : Headers} {field : HeaderField} (h : field ∈ headers.fields) :
    headers.absent field.name = false := by
  rw [absent, headers.present_eq, wellKnown_of_mem h]
  cases wellKnown field.name <;> simp

/-- Whether any field carries a name. -/
def contains (headers : Headers) (name : Text) : Bool :=
  !headers.absent name && headers.fields.any (named ·.name name)

/-- The value of the first field with a name. -/
def get (headers : Headers) (name : Text) : Option Text :=
  if headers.absent name then none else (headers.fields.find? (named ·.name name)).map (·.value)

/-- The values of every field with a name, in order. -/
def getAll (headers : Headers) (name : Text) : List Text :=
  if headers.absent name then [] else (headers.fields.filter (named ·.name name)).map (·.value)

/-- A section over fields whose presence bits are worked out already. -/
def adopt (fields : List HeaderField) : Headers := ⟨fields, presence fields, rfl⟩

/-- Adds a field whose name is lower-case already. -/
def appendLowercase (headers : Headers) (name value : Text) : Headers :=
  ⟨headers.fields ++ [⟨name, value⟩], headers.present ||| wellKnown name, by
    rw [presence_append, headers.present_eq]⟩

/-- Adds a field, keeping any that carries the name already. -/
def append (headers : Headers) (name value : Text) : Headers := headers.appendLowercase name.makeAsciiLowercase value

/-- Drops every field with a name. -/
def remove (headers : Headers) (name : Text) : Headers :=
  if headers.absent name then headers else adopt (headers.fields.filter fun field => !named field.name name)

/-- Adds a field, dropping every field that carries the name already. The source
    leaves the bits of those it dropped, and the new field sets the same ones. -/
def insert (headers : Headers) (name value : Text) : Headers :=
  let name := name.makeAsciiLowercase
  adopt ((if headers.absent name then headers.fields else headers.fields.filter (·.name ≠ name)) ++ [⟨name, value⟩])

end Headers

/-! ## Messages -/

/-- What goes into an error's text where it leaves a place. -/
inductive Quoted
  | number (n : ℕ)
  | text (octets : Octets)
  deriving DecidableEq

/-- What went wrong, with the text that says so and what it quotes. -/
inductive Error
  | closed
  | protocol (reason : String) (quoted : List Quoted)
  | limit (reason : String) (quoted : List Quoted)
  | stream (id code : ℕ) (reason : String) (quoted : List Quoted)
  | timeout
  | version (reason : String) (quoted : List Quoted)
  | io
  deriving DecidableEq

namespace Error

/-- Narrows a failure of the connection to one stream, where a stream can absorb it. -/
def onStream (id code : ℕ) : Error → Error
  | protocol reason quoted | limit reason quoted => .stream id code reason quoted
  | error => error

/-- The error a failed coding is reported as. -/
def ofCompression : Compression.Error → Error
  | .settled => .protocol "the content coding was never settled" []
  | .tooLarge max => .limit "the decoded body exceeds {max} octets" [.number max]
  | .coding reason => .protocol "the content coding failed: {reason}" [.text (lit reason)]

end Error

/-- What the program asks of what is around it. -/
structure World extends Codecs where
  /-- The current time as an HTTP date. -/
  now : Text
  /-- A file, or the failure to read it. -/
  file : Octets → Except Error Octets

/-- A world of one moment, with no files in it and no codec that answers. -/
def World.bare : World where
  encode _ _ := .error "no codec"
  read _ _ _ := .error "no codec"
  float _ := false
  now := .lit "Sun, 06 Nov 1994 08:49:37 GMT"
  file _ := .error .io

/-- The payload of a message. -/
inductive Body
  | data (octets : Octets)
  | text (text : Text)
  | file (path : Octets)
  deriving DecidableEq

namespace Body

/-- The octets, or the path of the file they are in. -/
def intoInline : Body → Except Octets Octets
  | data octets => .ok octets
  | text t => .ok t.octets
  | file path => .error path

/-- The octets in memory, if they are. -/
def inline (body : Body) : Option Octets := body.intoInline.toOption

/-- Whether the body is known to be empty. -/
def isEmpty (body : Body) : Bool := body.inline == some []

/-- The octets, the file read if there is one. -/
def intoBytes (world : World) (body : Body) : Except Error Octets :=
  match body.intoInline with
  | .ok octets => .ok octets
  | .error path => world.file path

end Body

/-- One request or response, whichever version framed it. -/
structure Message where
  version : Version
  body : Option Body
  compression : Option Compression
  headers : Option Headers
  trailers : Option Headers
  streamId : Option ℕ
  /-- Whether the transport was a secure one. -/
  secure : Bool
  method : Option Method
  target : Option Text
  statusCode : Option ℕ
  deriving DecidableEq

namespace Message

/-- A message with nothing set but an empty field section. -/
def new (version : Version) : Message :=
  ⟨version, none, none, some .new, none, none, false, none, none, none⟩

/-- A request for a target. -/
def request (method : Method) (target : Text) (version : Version) : Message :=
  { new version with method := some method, target := some target }

/-- A response carrying a status. -/
def response (statusCode : ℕ) (version : Version) : Message := { new version with statusCode := some statusCode }

/-- Whether this is a request. -/
def isRequest (m : Message) : Bool := m.method.isSome

/-- Whether this is a response. -/
def isResponse (m : Message) : Bool := m.statusCode.isSome

/-- Whether this is a 1xx response, which precedes the real one. -/
def isInformational (m : Message) : Bool :=
  match m.statusCode with
  | some status => 100 ≤ status && status ≤ 199
  | none => false

/-- Whether a status is of a response that carries no content by definition. -/
def statusBodyless (status : ℕ) : Bool := (100 ≤ status && status ≤ 199) || status == 204 || status == 304

/-- Whether the message ends at its field section, whatever it carries. `method` is
    that of the request being answered. -/
def bodyless (m : Message) (method : Option Method) : Bool :=
  match m.statusCode with
  | some status => statusBodyless status || method == some .HEAD
  | none => false

/-- Whether this message leaves its stream open as a tunnel. `method` is that of the
    request the stream carries. -/
def tunneling (m : Message) (method : Option Method) : Bool :=
  method == some .CONNECT && (m.isRequest || match m.statusCode with
    | some status => 200 ≤ status && status ≤ 299
    | none => false)

/-- The field section, an empty one in place of none. -/
def section' (m : Message) : Headers := m.headers.getD .new

/-- The values of every field with a name. -/
def values (m : Message) (name : String) : List Octets :=
  match m.headers with
  | some headers => (headers.getAll (.lit name)).map (·.octets)
  | none => []

/-- Whether any field carries a name. -/
def carries (m : Message) (name : String) : Bool :=
  match m.headers with
  | some headers => headers.contains (.lit name)
  | none => false

/-- Whether the body is carried compressed. -/
def compressed (codecs : Codecs) (m : Message) : Bool := Compression.encoded codecs (m.values "content-encoding")

/-- The best coding the message's `Accept-Encoding` permits. -/
def accepted (codecs : Codecs) (m : Message) : Option Compression :=
  Compression.accepted codecs (m.values "accept-encoding")

/-- Whether the message may have its content coded. -/
def codable (m : Message) : Bool :=
  let bodyless := match m.statusCode with
    | some status => statusBodyless status
    | none => false
  let partial' := m.statusCode == some 206 || m.carries "content-range"
  !bodyless && !partial' && m.method != some .CONNECT

/-- Reads the body into memory. -/
def materialize (world : World) (m : Message) : Except Error Message :=
  match m.body with
  | none => .ok m
  | some body => (body.intoBytes world).map fun octets => { m with body := some (.data octets) }

/-- The field section with the fields a coded body is owed. -/
def codedSection (m : Message) (coding : Compression) (length : ℕ) (varying : Bool) : Headers :=
  let headers := m.section'.appendLowercase (.lit "content-encoding") (.lit coding.asStr)
  let headers := if headers.contains (.lit "content-length") then
      headers.insert (.lit "content-length") (.fromUtf8Lossy (Number.decimal length))
    else headers
  if varying && !headers.contains (.lit "vary") then headers.appendLowercase (.lit "vary") (.lit "Accept-Encoding")
  else headers

/-- Encodes the body, ready for it to go out. `accepted` is the coding the exchange
    permits, which is what `auto` settles on. -/
def compress (world : World) (m : Message) (accepted : Option Compression) : Except Error Message :=
  match m.compression with
  | none => .ok m
  | some compression =>
    match if compression = .auto then accepted else some compression with
    | none => .ok { m with compression := none }
    | some coding =>
      if m.compressed world.toCodecs || !m.codable || (m.body.map (·.isEmpty)).getD true then
        .ok { m with compression := none }
      else match m.body.bind (·.inline) with
        | none => .error (.protocol "a body that is still a file cannot be coded" [])
        | some body =>
          match coding.encode world.toCodecs body with
          | .error error => .error (.ofCompression error)
          | .ok encoded =>
            let varying := compression = .auto && m.isResponse
            .ok { m with
              body := some (.data encoded), compression := some coding
              headers := some (m.codedSection coding encoded.length varying) }

/-- The field section of a body that was decoded. -/
def decodedSection (headers : Headers) (length : ℕ) : Headers :=
  let headers := headers.remove (.lit "content-encoding")
  if headers.contains (.lit "content-length") then
    headers.insert (.lit "content-length") (.fromUtf8Lossy (Number.decimal length))
  else headers

/-- Decodes a body that arrived coded, and takes the field off it. -/
def decompress (world : World) (m : Message) (max : ℕ) : Except Error Message :=
  match m.headers with
  | none => .ok m
  | some headers =>
    match Compression.applied world.toCodecs (m.values "content-encoding"), m.body.bind (·.inline) with
    | some coding, some body =>
      match coding.decode world.toCodecs body max with
      | .error error => .error (.ofCompression error)
      | .ok decoded => .ok { m with
          body := some (.data decoded), compression := some coding
          headers := some (decodedSection headers decoded.length) }
    | _, _ => .ok m

end Message

/-! ## Finalizers -/

/-- The finalisation a server connection applies to a response. -/
structure ResponseFinalizer where
  /-- The value of the HSTS policy to attach, if there is one. -/
  hsts : Option Text

/-- The finalisation a client connection applies to a request. -/
structure RequestFinalizer where
  /-- The authority the connection was dialled with, if it is known. -/
  authority : Option Text

namespace Headers

/-- Adds a field where none carries its name. -/
def supply (headers : Headers) (name : String) (value : Text) : Headers :=
  if headers.contains (.lit name) then headers else headers.appendLowercase (.lit name) value

end Headers

namespace Message

/-- Fills in the fields a server owes on a response. -/
def finalizeResponse (world : World) (m : Message) (hsts : Option Text) : Message :=
  match m.statusCode with
  | none => m
  | some status =>
    if status < 200 then m
    else
      let headers := (m.section'.supply "date" world.now).supply "server" (.lit "Soyokaze")
      { m with headers := some (match hsts with
        | some policy => if m.secure then headers.supply "strict-transport-security" policy else headers
        | none => headers) }

/-- Fills in the fields a client owes on a request. -/
def finalizeRequest (m : Message) (authority : Option Text) : Message :=
  match m.method with
  | none => m
  | some method =>
    let headers := match authority with
      | some authority => m.section'.supply "host" authority
      | none => m.section'
    { m with headers := some (
        if method = .CONNECT then headers else headers.supply "accept-encoding" (.lit Compression.ACCEPTED)) }

end Message

namespace ResponseFinalizer

/-- Finalises a response about to leave a server. -/
def finalize (world : World) (f : ResponseFinalizer) (role : Role) (secure : Bool) (m : Message) : Message :=
  if role.isServer && m.isResponse then { m with secure := secure }.finalizeResponse world f.hsts else m

end ResponseFinalizer

namespace RequestFinalizer

/-- Finalises a request about to leave a client. -/
def finalize (f : RequestFinalizer) (role : Role) (m : Message) : Message :=
  if role.isClient && m.isRequest then m.finalizeRequest f.authority else m

end RequestFinalizer

end Soyokaze

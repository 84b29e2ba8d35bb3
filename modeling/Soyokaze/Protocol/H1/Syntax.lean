import Soyokaze.Lib.Act
import Soyokaze.Models

/-!
# The octets of HTTP/1

The start line, the field lines, the chunks, and what a message says about the
length of its body. Every parser here reads octets that are at hand: what it
does when more are needed is the connection's business.

* `StartLine.parseBytes_kind`: a start line is of a request or of a response;
* `Chunk.decode_le`: a chunk that was read was there in whole;
* `BodyLength.of_eq_iff`: two methods frame a response alike where both or neither
  end it at its fields.
-/

namespace Soyokaze

/-- The conventional reason phrases. -/
def Status.REASONS : List (ℕ × String) :=
  [
    (100, "Continue"), (101, "Switching Protocols"), (102, "Processing"), (103, "Early Hints"),
    (200, "OK"), (201, "Created"), (202, "Accepted"), (203, "Non-Authoritative Information"),
    (204, "No Content"), (205, "Reset Content"), (206, "Partial Content"), (207, "Multi-Status"),
    (208, "Already Reported"), (226, "IM Used"), (300, "Multiple Choices"), (301, "Moved Permanently"),
    (302, "Found"), (303, "See Other"), (304, "Not Modified"), (305, "Use Proxy"),
    (307, "Temporary Redirect"), (308, "Permanent Redirect"), (400, "Bad Request"), (401, "Unauthorized"),
    (402, "Payment Required"), (403, "Forbidden"), (404, "Not Found"), (405, "Method Not Allowed"),
    (406, "Not Acceptable"), (407, "Proxy Authentication Required"), (408, "Request Timeout"),
    (409, "Conflict"), (410, "Gone"), (411, "Length Required"), (412, "Precondition Failed"),
    (413, "Content Too Large"), (414, "URI Too Long"), (415, "Unsupported Media Type"),
    (416, "Range Not Satisfiable"), (417, "Expectation Failed"), (418, "I'm a teapot"),
    (421, "Misdirected Request"), (422, "Unprocessable Content"), (423, "Locked"),
    (424, "Failed Dependency"), (425, "Too Early"), (426, "Upgrade Required"),
    (428, "Precondition Required"), (429, "Too Many Requests"), (431, "Request Header Fields Too Large"),
    (451, "Unavailable For Legal Reasons"), (500, "Internal Server Error"), (501, "Not Implemented"),
    (502, "Bad Gateway"), (503, "Service Unavailable"), (504, "Gateway Timeout"),
    (505, "HTTP Version Not Supported"), (506, "Variant Also Negotiates"), (507, "Insufficient Storage"),
    (508, "Loop Detected"), (510, "Not Extended"), (511, "Network Authentication Required")]

/-- The reason phrase paired with a status code. -/
def Status.reason (statusCode : ℕ) : Octets :=
  match REASONS.find? (·.1 == statusCode) with
  | some (_, reason) => lit reason
  | none => lit "Unknown"

namespace Text

/-- Octets as a string, if they are one. -/
def fromUtf8 (octets : Octets) : Option Text := if h : Utf8.valid octets .ground = true then some ⟨octets, h⟩ else none

end Text

/-! ## What each octet may be part of -/

namespace Class

/-- Whether an octet may appear in a token. -/
def isTchar (octet : UInt8) : Bool :=
  (0x30 ≤ octet && octet ≤ 0x39) || (0x41 ≤ octet && octet ≤ 0x5a) || (0x61 ≤ octet && octet ≤ 0x7a) ||
    (lit "!#$%&'*+-.^_\x60|~").contains octet

/-- Whether octets are a token, and so usable as a field name. -/
def isToken (text : Octets) : Bool := !text.isEmpty && text.all isTchar

/-- Whether octets are a request target. -/
def isTarget (text : Octets) : Bool := !text.isEmpty && Scan.allVisible text

/-- Whether octets are usable as a reason phrase. -/
def isReason (text : Octets) : Bool := Scan.isFieldValue text

end Class

/-! ## The start line -/

namespace StartLine

/-- The version a start line names. -/
def versionBytes (text : Octets) : Except Error Version :=
  if text = lit "HTTP/1.0" then .ok .v1_0
  else if text = lit "HTTP/1.1" then .ok .v1_1
  else .error (.version "{text} is not an HTTP/1.x version" [.text text])

/-- The three digits of a status code, the last of them where there are more. -/
def digits (statusCode : ℕ) : Octets :=
  [.ofNat (0x30 + statusCode / 100 % 10), .ofNat (0x30 + statusCode / 10 % 10), .ofNat (0x30 + statusCode % 10)]

/-- The start line, without the CRLF that ends it. -/
def write (m : Message) : Except Error Octets :=
  if m.version.major ≠ 1 then .error (.version "{version} has no start line" [.text m.version.asStr])
  else match m.method, m.statusCode with
    | some method, _ =>
      let target := (m.target.map (·.octets)).getD (lit "/")
      if !URL.isTarget target then .error (.protocol "request target {target} is malformed" [.text target])
      else .ok (method.asStr ++ 0x20 :: target ++ 0x20 :: m.version.asStr)
    | none, some statusCode =>
      let code := if 100 ≤ statusCode ∧ statusCode < 1000 then digits statusCode else Number.decimal statusCode
      .ok (m.version.asStr ++ 0x20 :: code ++ 0x20 :: Status.reason statusCode)
    | none, none => .error (.protocol "message is neither a request nor a response" [])

/-- The number three digits spell. -/
def statusOf (code : Octets) : ℕ := code.foldl (fun status digit => status * 10 + (digit.toNat - 0x30)) 0

/-- Splits a line at `at'`, discarding the octet there. -/
def split (line : Octets) (at' : ℕ) : Octets × Octets := (line.take at', line.drop (at' + 1))

/-- Splits a line at its first two spaces: into three, or into what there is. -/
def parts (line : Octets) : Octets × Option (Octets × Option Octets) :=
  match Scan.find line 0x20 with
  | none => (line, none)
  | some first =>
    let (head, rest) := split line first
    match Scan.find rest 0x20 with
    | none => (head, some (rest, none))
    | some second =>
      let (middle, last) := split rest second
      (head, some (middle, some last))

/-- Parses a status line. -/
def parseStatusLine (line : Octets) : Except Error Message :=
  match parts line with
  | (_, none) => .error (.protocol "status line has no status code" [])
  | (_, some (_, none)) => .error (.protocol "status line has no reason phrase" [])
  | (version, some (statusCode, some reason)) =>
    if statusCode.length ≠ 3 ∨ !statusCode.all Str.isDigit then
      .error (.protocol "status code {status_code} is not three digits" [.text statusCode])
    else if !Class.isReason reason then
      .error (.protocol "reason phrase contains a control character other than a tab" [])
    else (versionBytes version).map (.response (statusOf statusCode))

/-- Parses a request line. -/
def parseRequestLine (line : Octets) : Except Error Message :=
  match parts line with
  | (_, none) => .error (.protocol "request line has no target" [])
  | (_, some (_, none)) => .error (.protocol "request line has no version" [])
  | (method, some (target, some version)) =>
    match Method.parse method with
    | none => .error (.protocol "method {method} is not recognised" [.text method])
    | some method' =>
      match Text.fromUtf8 target with
      | some text =>
        if Class.isTarget target then (versionBytes version).map (.request method' text)
        else .error (.protocol "request target {target} is malformed" [.text target])
      | none => .error (.protocol "request target {target} is malformed" [.text target])

/-- Parses a start line into an empty request or response: a status line where it
    begins as one, and a request line otherwise. -/
def parseBytes (line : Octets) : Except Error Message :=
  if (lit "HTTP/").isPrefixOf line then parseStatusLine line else parseRequestLine line

/-- A start line is of a request, with a method and a target and no status, or of a
    response, with a status and neither. -/
theorem parseBytes_kind {line : Octets} {m : Message} (h : parseBytes line = .ok m) :
    (∃ method target version, m = .request method target version) ∨ ∃ status version, m = .response status version := by
  rw [parseBytes] at h
  split_ifs at h
  · rw [parseStatusLine] at h
    split at h
    · cases h
    · cases h
    · split_ifs at h
      obtain ⟨version, -, rfl⟩ := Except.map_eq_ok h
      exact Or.inr ⟨_, version, rfl⟩
  · rw [parseRequestLine] at h
    split at h
    · cases h
    · cases h
    · split at h
      · cases h
      · split at h
        · split_ifs at h
          obtain ⟨version, -, rfl⟩ := Except.map_eq_ok h
          exact Or.inl ⟨_, _, version, rfl⟩
        · cases h

/-- The status a server answers a request line with that it could not parse. -/
def errorStatusBytes (line : Octets) : ℕ :=
  match parts line with
  | (method, some (target, some version)) =>
    if (Method.parse method).isNone then 501
    else if (Text.fromUtf8 target).isNone || !Class.isTarget target then 400
    else match versionBytes version with
      | .error _ => 505
      | .ok _ => 400
  | _ => 400

end StartLine

/-! ## Field lines -/

namespace Field

/-- One field line, its CRLF included. -/
def write (name value : Text) (case : HeaderCase) : Except Error Octets :=
  if !Class.isToken name.octets then .error (.protocol "field name {name} is not a token" [.text name.octets])
  else if !Scan.isFieldValue value.octets then
    .error (.protocol "field value of {name} contains a control character" [.text name.octets])
  else .ok (case.apply name.octets ++ [0x3a, 0x20] ++ value.octets ++ [0x0d, 0x0a])

/-- The field lines of some fields. -/
def writeFields (case : HeaderCase) : List HeaderField → Except Error Octets
  | [] => .ok []
  | field :: fields =>
    match write field.name field.value case with
    | .error error => .error error
    | .ok line => (writeFields case fields).map (line ++ ·)

/-- A whole field section, without the blank line that ends it. -/
def writeAll (headers : Headers) (case : HeaderCase) : Except Error Octets := writeFields case headers.fields

/-- A `Content-Length` line. -/
def writeContentLength (length : ℕ) (case : HeaderCase) : Octets :=
  let name := match case with
    | .title => lit "Content-Length"
    | .lower => lit "content-length"
  name ++ [0x3a, 0x20] ++ Number.decimal length ++ [0x0d, 0x0a]

/-- The offset of the colon that ends a field name. -/
def nameEnd (line : Octets) : Except Error ℕ :=
  match Scan.find line 0x3a with
  | none => .error (.protocol "field line {line} has no colon" [.text line])
  | some 0 => .error (.protocol "field line has an empty name" [])
  | some at' =>
    if (line.take at').all Class.isTchar then .ok at'
    else .error (.protocol "field name {name} is not a token" [.text (line.take at')])

/-- Whether an octet is a space or a tab. -/
def isBlank (octet : UInt8) : Bool := octet == 0x20 || octet == 0x09

/-- The name and the value within a field line, the blanks around the value left off. -/
def spans (line : Octets) : Except Error (Octets × Octets) :=
  match nameEnd line with
  | .error error => .error error
  | .ok colon =>
    let value := (((line.drop (colon + 1)).dropWhile isBlank).reverse.dropWhile isBlank).reverse
    if !Scan.isFieldValue value then
      .error (.protocol "field value of {name} contains a control character" [.text (line.take colon)])
    else .ok (line.take colon, value)

/-- One field line as a lower-cased name and a value. -/
def parseBytes (line : Octets) : Except Error HeaderField :=
  (spans line).map fun (name, value) =>
    ⟨.fromVerifiedAscii (name.map Str.lower), if isAscii value then .fromVerifiedAscii value else .fromUtf8Lossy value⟩

/-- Parses the lines of a section one by one. The fuel is the length of what is left. -/
def parseBlockLoop (maxCount : ℕ) : ℕ → Octets → Headers → Except Error Headers
  | 0, _, headers => .ok headers
  | _ + 1, [], headers => .ok headers
  | fuel + 1, rest, headers =>
    match Scan.find rest 0x0a with
    | none => .error (.protocol "line is not terminated by CRLF" [])
    | some end' =>
      if end' = 0 ∨ rest[end' - 1]? ≠ some 0x0d then .error (.protocol "line is not terminated by CRLF" [])
      else if maxCount ≤ headers.len then .error (.limit "more than {max_count} header fields" [.number maxCount])
      else
        let line := rest.take (end' - 1)
        if (line.head?.map isBlank).getD false then
          .error (.protocol "field line is folded onto a continuation line" [])
        else match parseBytes line with
          | .error error => .error error
          | .ok field =>
            parseBlockLoop maxCount fuel (rest.drop (end' + 1)) (headers.appendLowercase field.name field.value)

/-- A whole field section, without the blank line that ends it. -/
def parseBlock (block : Octets) (maxCount : ℕ) : Except Error Headers :=
  parseBlockLoop maxCount block.length block .new

/-- Looks for the blank line from `at'` on. -/
def blockEndLoop (data : Octets) : ℕ → ℕ → Option (ℕ × ℕ) × ℕ
  | 0, at' => (none, at')
  | fuel + 1, at' =>
    match Scan.find (data.drop at') 0x0a with
    | none => (none, at')
    | some offset =>
      let lineEnd := at' + offset
      if data.length < lineEnd + 3 then (none, at')
      else if data[lineEnd + 1]? = some 0x0d ∧ data[lineEnd + 2]? = some 0x0a then (some (lineEnd + 1, lineEnd + 3), at')
      else blockEndLoop data fuel (lineEnd + 1)

/-- The blank line that ends a section: where the field lines stop and where the
    section ends, and how far was looked where it is not there yet. -/
def blockEnd (data : Octets) (searched : ℕ) : Option (ℕ × ℕ) × ℕ :=
  if data[0]? = some 0x0d ∧ data[1]? = some 0x0a then (some (0, 2), searched)
  else blockEndLoop data (data.length + 1) searched

end Field

/-! ## Chunks -/

/-- The first number a `usize` cannot hold. -/
def USIZE : ℕ := 2 ^ 64

namespace Chunk

/-- One chunk: its size, the data, and their CRLFs. -/
def write (data : Octets) : Octets := Number.hexadecimal data.length ++ [0x0d, 0x0a] ++ data ++ [0x0d, 0x0a]

/-- The value of a hexadecimal digit. -/
def digit (octet : UInt8) : Option ℕ :=
  if 0x30 ≤ octet ∧ octet ≤ 0x39 then some (octet.toNat - 0x30)
  else if 0x61 ≤ octet ∧ octet ≤ 0x66 then some (octet.toNat - 0x61 + 10)
  else if 0x41 ≤ octet ∧ octet ≤ 0x46 then some (octet.toNat - 0x41 + 10)
  else none

/-- Reads the digits of a chunk size, after those that came to `size`. -/
def sizeLoop (digits : Octets) : Octets → ℕ → Except Error ℕ
  | [], size => .ok size
  | octet :: rest, size =>
    match digit octet with
    | none => .error (.protocol "chunk size {digits} is not hexadecimal" [.text digits])
    | some value =>
      if USIZE ≤ size * 16 + value then .error (.protocol "chunk size is too large to address" [])
      else sizeLoop digits rest (size * 16 + value)

/-- Reads a chunk size. -/
def size (digits : Octets) : Except Error ℕ :=
  if digits.isEmpty then .error (.protocol "chunk size {digits} is not hexadecimal" [.text digits])
  else sizeLoop digits digits 0

/-- Where the data of a chunk starts and how long it is, once its size line is there. -/
def parseSize (data : Octets) : Except Error (Option (ℕ × ℕ)) :=
  match Scan.find data 0x0a with
  | none => .ok none
  | some end' =>
    if end' = 0 ∨ data[end' - 1]? ≠ some 0x0d then
      .error (.protocol "chunk size line is not terminated by CRLF" [])
    else
      let line := data.take (end' - 1)
      let digits := match Scan.find line 0x3b with
        | some at' => line.take at'
        | none => line
      (size digits).map fun size => some (end' + 1, size)

/-- Reads one whole chunk: how many octets it occupies, and where its data is. Zero
    octets are a chunk that is not there yet, no data is the chunk that ends the body. -/
def decode (data : Octets) : Except Error (ℕ × ℕ × ℕ) :=
  match parseSize data with
  | .error error => .error error
  | .ok none => .ok (0, 0, 0)
  | .ok (some (start, size)) =>
    if size = 0 then .ok (start, 0, 0)
    else
      let end' := start + size
      if USIZE ≤ end' + 2 then .error (.protocol "chunk size is too large to address" [])
      else if data.length < end' + 2 then .ok (0, 0, 0)
      else if (data.drop end').take 2 ≠ [0x0d, 0x0a] then
        .error (.protocol "chunk data is not terminated by CRLF" [])
      else .ok (end' + 2, start, end')

theorem size_error {digits : Octets} {e : Error} (h : size digits = .error e) : ∃ reason quoted, e = .protocol reason quoted := by
  have hloop : ∀ rest n, sizeLoop digits rest n = .error e → ∃ reason quoted, e = .protocol reason quoted := by
    intro rest
    induction rest with
    | nil =>
      intro n h
      cases h
    | cons octet rest ih =>
      intro n h
      rw [sizeLoop] at h
      split at h
      · cases h
        exact ⟨_, _, rfl⟩
      · split_ifs at h
        · cases h
          exact ⟨_, _, rfl⟩
        · exact ih _ h
  rw [size] at h
  split_ifs at h
  · cases h
    exact ⟨_, _, rfl⟩
  · exact hloop _ _ h

/-- What is wrong with a chunk is an error of the protocol. -/
theorem parseSize_error {data : Octets} {e : Error} (h : parseSize data = .error e) :
    ∃ reason quoted, e = .protocol reason quoted := by
  rw [parseSize] at h
  split at h
  · cases h
  · split_ifs at h
    · cases h
      exact ⟨_, _, rfl⟩
    · dsimp only at h
      rcases hsize : size _ with e' | n <;> rw [hsize] at h <;> cases h
      exact size_error hsize

theorem decode_error {data : Octets} {e : Error} (h : decode data = .error e) :
    ∃ reason quoted, e = .protocol reason quoted := by
  rw [decode] at h
  split at h
  · next hsize =>
    cases h
    exact parseSize_error hsize
  · cases h
  · dsimp only at h
    split_ifs at h <;> cases h <;> exact ⟨_, _, rfl⟩

/-- A size line that was read was there, its LF last. -/
theorem parseSize_some {data : Octets} {start size : ℕ} (h : parseSize data = .ok (some (start, size))) :
    ∃ end', Scan.find data 0x0a = some end' ∧ start = end' + 1 := by
  rw [parseSize] at h
  split at h
  · cases h
  · next end' hfind =>
    split_ifs at h
    obtain ⟨size', -, hpair⟩ := Except.map_eq_ok h
    cases hpair
    exact ⟨end', hfind, rfl⟩

/-- A chunk that was read was there in whole, and takes more than nothing. -/
theorem decode_le {data : Octets} {consumed start end' : ℕ} (h : decode data = .ok (consumed, start, end')) :
    consumed ≤ data.length := by
  rw [decode] at h
  split at h
  · cases h
  · cases h
    exact Nat.zero_le _
  · next start' size hsize =>
    obtain ⟨at', hfind, rfl⟩ := parseSize_some hsize
    have hlt := Scan.lt_of_find hfind
    dsimp only at h
    split_ifs at h
    · cases h
      exact hlt
    · cases h
      exact Nat.zero_le _
    · cases h
      omega

end Chunk

/-! ## The length of a body -/

/-- How the length of a message body is determined. -/
inductive BodyLength
  | none
  | chunked
  | fixed (size : ℕ)
  | close
  deriving DecidableEq

namespace BodyLength

/-- The transfer coding that frames a body. -/
def CHUNKED : Octets := lit "chunked"

/-- Reads a `Content-Length` value. -/
def contentLength (value : Octets) : Except Error ℕ :=
  if value.isEmpty ∨ !value.all Str.isDigit then
    .error (.protocol "Content-Length {value} is not a number" [.text value])
  else
    let length := value.foldl (fun length digit => length * 10 + (digit.toNat - 0x30)) 0
    if USIZE ≤ length then .error (.protocol "Content-Length {value} does not fit" [.text value]) else .ok length

/-- Holds every further `Content-Length` value to the first. -/
def agree (length : ℕ) : List Octets → Except Error BodyLength
  | [] => .ok (fixed length)
  | value :: values =>
    match contentLength value with
    | .error error => .error error
    | .ok other => if other ≠ length then .error (.protocol "Content-Length values disagree" []) else agree length values

/-- The length a message's `Transfer-Encoding` gives its body. -/
def encoded (m : Message) : Except Error BodyLength :=
  let values := m.values "transfer-encoding"
  let applied := ((values.flatMap (Str.split · 0x2c)).filter fun coding =>
    Str.eqIgnoreAsciiCase (Str.trim coding) CHUNKED).length
  if 1 < applied then .error (.protocol "the chunked transfer coding is applied more than once" [])
  else
    let last := Str.trim ((Str.split (values.getLast?.getD []) 0x2c).getLast?.getD [])
    if !Str.eqIgnoreAsciiCase last CHUNKED then
      if m.isRequest ∨ 0 < applied then .error (.protocol "Transfer-Encoding does not end with chunked" [])
      else .ok close
    else .ok chunked

/-- The length a message's `Content-Length` gives its body. -/
def measured (m : Message) : Except Error BodyLength :=
  match ((m.values "content-length").flatMap (Str.split · 0x2c)).map Str.trim with
  | [] => (contentLength []).map fixed
  | first :: values =>
    match contentLength first with
    | .error error => .error error
    | .ok length => agree length values

/-- The length a message's own fields give its body. -/
def labelled (m : Message) : Except Error BodyLength :=
  let encoded' := m.carries "transfer-encoding"
  let measured' := m.carries "content-length"
  if encoded' && measured' then .error (.protocol "Transfer-Encoding and Content-Length are both present" [])
  else if encoded' then encoded m
  else if measured' then measured m
  else if m.isRequest then .ok none else .ok close

/-- Whether a response ends at its field section: by its status or its method, or
    because tunnelled octets follow it. -/
def ends (m : Message) (method : Option Method) : Bool :=
  match m.statusCode with
  | some status => m.bodyless method || (method == some .CONNECT && 200 ≤ status && status < 300)
  | Option.none => false

/-- Works out how a message's body is framed. `method` is that of the request it
    responds to. -/
def of (m : Message) (method : Option Method) : Except Error BodyLength :=
  if ends m method then .ok none else labelled m

/-- A message that is no request is never labelled as one without a body. -/
theorem labelled_ne_none {m : Message} (h : m.isRequest = false) : labelled m ≠ .ok none := by
  have hagree : ∀ values length, agree length values ≠ .ok none := by
    intro values length
    induction values with
    | nil => simp [agree]
    | cons value values ih =>
      rw [agree]
      split
      · simp
      · split_ifs
        · simp
        · exact ih
  rw [labelled]
  split_ifs with _ _ _ hrequest
  · simp
  · rw [encoded]
    dsimp only
    split_ifs <;> simp
  · rw [measured]
    split
    · rcases contentLength [] with error | length <;> simp [Except.map]
    · split
      · simp
      · exact hagree _ _
  · rw [h] at hrequest
    cases hrequest
  · simp

/-- Two methods frame a response alike exactly where both or neither end it at its fields. -/
theorem of_eq_iff {m : Message} (h : m.isRequest = false) (method method' : Option Method) :
    of m method = of m method' ↔ ends m method = ends m method' := by
  rw [of, of]
  cases ends m method <;> cases ends m method'
  · exact ⟨fun _ => rfl, fun _ => rfl⟩
  · exact ⟨fun heq => absurd heq (labelled_ne_none h), fun heq => by cases heq⟩
  · exact ⟨fun heq => absurd heq.symm (labelled_ne_none h), fun heq => by cases heq⟩
  · exact ⟨fun _ => rfl, fun _ => rfl⟩

end BodyLength

end Soyokaze

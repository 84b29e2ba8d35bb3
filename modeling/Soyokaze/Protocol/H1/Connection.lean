import Soyokaze.Protocol.Common
import Soyokaze.Protocol.H1.Syntax

/-!
# An HTTP/1 connection

One message at a time in each direction, over a transport that gives octets a
read at a time. The buffer and the reading half of the transport are one
`Source`; how much room a read is given, and what memory is given back, change
nothing of what is read. A write either takes all it is given or fails.

* `H1Connection.readChunks_fuel`: the loop over the chunks of a body never stops
  short of what the source has left.
-/

namespace Soyokaze

/-- The ceilings a connection holds itself to. -/
structure H1Limits where
  maxMessageSize : ℕ
  maxMessageBodySize : ℕ
  maxDecompressedBodySize : ℕ
  maxStartlineSize : ℕ
  maxHeadersSize : ℕ
  maxHeaderCount : ℕ
  maxChunkHeaderSize : ℕ
  inlineBodySize : ℕ
  maxConcurrentStreams : ℕ
  deriving DecidableEq

/-- The ceilings a connection has unless it is told others. -/
def H1Limits.default : H1Limits where
  maxMessageSize := 64 * 1024 * 1024
  maxMessageBodySize := 64 * 1024 * 1024
  maxDecompressedBodySize := 256 * 1024 * 1024
  maxStartlineSize := 8 * 1024
  maxHeadersSize := 64 * 1024
  maxHeaderCount := 100
  maxChunkHeaderSize := 128
  inlineBodySize := 64 * 1024
  maxConcurrentStreams := 100

/-! ## Lines -/

namespace Line

/-- Looks for the end of a line from where the last look stopped. -/
def look (max searched : ℕ) (data : Octets) : Option (Except Error ℕ) × ℕ :=
  match Scan.find (data.drop searched) 0x0a with
  | some offset =>
    let end' := searched + offset
    if end' = 0 ∨ data[end' - 1]? ≠ some 0x0d then
      (some (.error (.protocol "line is not terminated by CRLF" [])), searched)
    else if max < end' - 1 then (some (.error (.limit "line exceeds {max} octets" [.number max])), searched)
    else (some (.ok (end' - 1)), searched)
  | none =>
    if max < data.length then (some (.error (.limit "line exceeds {max} octets" [.number max])), data.length)
    else (none, data.length)

/-- Reads until a line is there, and says how long it is without its CRLF. -/
def end' (max : ℕ) (source : Source Error UInt8) : Except Error ℕ × Source Error UInt8 :=
  source.awaitWith (look max) (.error .closed) 0

end Line

/-- Whether the connection survives a message. -/
def Persistence.keepAlive (m : Message) : Bool :=
  let tokens := ((m.values "connection").flatMap (Str.split · 0x2c)).map Str.trim
  let close := tokens.any (Str.eqIgnoreAsciiCase · (lit "close"))
  let keep := tokens.any fun token =>
    !Str.eqIgnoreAsciiCase token (lit "close") && Str.eqIgnoreAsciiCase token (lit "keep-alive")
  if close then false
  else match m.version with
    | .v1_0 => keep
    | .v1_1 | .v2_0 | .v3_0 => true

namespace Expectation

/-- The interim status that answers the expectation. -/
def STATUS : ℕ := 100

/-- Whether a request asks to be told to go ahead before it sends content. -/
def requested (m : Message) : Bool :=
  m.version ≠ .v1_0 && ((m.values "expect").flatMap (Str.split · 0x2c)).any fun token =>
    Str.eqIgnoreAsciiCase (Str.trim token) (lit "100-continue")

end Expectation

/-- One request awaiting its response. -/
structure Exchange where
  method : Method
  /-- The best coding the request's `Accept-Encoding` permits. -/
  accepted : Option Compression
  deriving DecidableEq

/-- The exchange a received request opens. -/
def Exchange.of (codecs : Codecs) (m : Message) : Option Exchange :=
  m.method.map fun method => ⟨method, m.accepted codecs⟩

/-- An HTTP/1.0 or HTTP/1.1 connection. -/
structure H1Connection where
  source : Source Error UInt8
  sink : Sink
  role : Role
  version : Version
  limits : H1Limits
  pending : List Exchange
  closing : Bool
  requestFinalizer : RequestFinalizer
  responseFinalizer : ResponseFinalizer
  secure : Bool

namespace H1Connection

/-- A connection over a transport that will give these reads. -/
def new (reads : List (Except Error Octets)) (role : Role) (limits : H1Limits) : H1Connection where
  source := ⟨[], false, reads⟩
  sink := ⟨[], []⟩
  role := role
  version := .v1_1
  limits := limits
  pending := []
  closing := false
  requestFinalizer := ⟨none⟩
  responseFinalizer := ⟨none⟩
  secure := false

/-- A step of a connection. -/
abbrev Step (α : Type) : Type := Act H1Connection Error α

/-- A step that reads. -/
def reading {α : Type} (f : Source Error UInt8 → Except Error α × Source Error UInt8) : Step α := fun c =>
  ((f c.source).1, { c with source := (f c.source).2 })

/-- A step that writes. -/
def writing (octets : Octets) : Step Unit := fun c =>
  ((c.sink.write octets).1, { c with sink := (c.sink.write octets).2 })

/-- A step that writes what did not go out with the head, if anything did not. -/
def writingRest : Option Octets → Step Unit
  | some octets => writing octets
  | none => pure ()

/-- Drops octets off the front of the buffer. -/
def consuming (count : ℕ) : Step Unit := Act.modify fun c => { c with source := c.source.consume count }

/-! ## Sending -/

/-- How many requests may be in flight at once. -/
def pipelineDepth (c : H1Connection) : ℕ := max c.limits.maxConcurrentStreams 1

/-- The coding the exchange a message belongs to permits. -/
def accepted (c : H1Connection) (m : Message) : Option Compression :=
  if m.isResponse then c.pending.head?.bind (·.accepted) else none

/-- The method of the request a message is answering, if it is answering one. -/
def answering (c : H1Connection) (m : Message) : Option Method :=
  if m.isResponse then c.pending.head?.map (·.method) else none

/-- Finalises a message about to leave. -/
def finalize (world : World) (c : H1Connection) (m : Message) : Message :=
  c.responseFinalizer.finalize world c.role c.secure (c.requestFinalizer.finalize c.role m)

/-- Whether a message's own fields say its body is chunked. -/
def chunked (m : Message) : Bool :=
  (m.values "transfer-encoding").any fun value =>
    Str.eqIgnoreAsciiCase (Str.trim ((Str.split value 0x2c).getLast?.getD [])) (lit "chunked")

/-- The `Content-Length` line the framing adds, where it adds one. -/
def lengthLine (m : Message) (body : Option Octets) (case : HeaderCase) : Octets :=
  let bodyless := match m.statusCode with
    | some status => Message.statusBodyless status
    | none => false
  if !chunked m && !m.carries "content-length" && !bodyless then
    match body with
    | some body => Field.writeContentLength body.length case
    | none => if m.isResponse then Field.writeContentLength 0 case else []
  else []

/-- The line that says the connection is to be closed, where it is and none says so. -/
def closeLine (c : H1Connection) (m : Message) (case : HeaderCase) : Except Error Octets :=
  if c.closing && !m.carries "connection" then Field.write (.lit "connection") (.lit "close") case else .ok []

/-- The head of a message: its start line, its fields, and the blank line. -/
def head (c : H1Connection) (m : Message) (body : Option Octets) : Except Error Octets := do
  let case := HeaderCase.fromVersion m.version
  let start ← StartLine.write m
  let fields ← Field.writeAll m.section' case
  let close ← c.closeLine m case
  return start ++ [0x0d, 0x0a] ++ fields ++ lengthLine m body case ++ close ++ [0x0d, 0x0a]

/-- What follows the head in the same write, and what is written after it. -/
def content (c : H1Connection) (m : Message) (body : Option Octets) : Except Error (Octets × Option Octets) :=
  -- Past the head of a message that ends there, a body would be read as the next message.
  let framed := !m.bodyless (c.answering m)
  let inline : Bool := match body with
    | some body => body.length ≤ c.limits.inlineBodySize
    | none => false
  let body := if framed then body else none
  if chunked m && framed then
    let chunk := match body with
      | some body => if body.isEmpty then [] else Chunk.write body
      | none => []
    let trailers := match m.trailers with
      | some trailers => Field.writeAll trailers (HeaderCase.fromVersion m.version)
      | none => .ok []
    trailers.map fun trailers => (chunk ++ lit "0" ++ [0x0d, 0x0a] ++ trailers ++ [0x0d, 0x0a], none)
  else match body with
    | some body => .ok (if inline then (body, none) else ([], some body))
    | none => .ok ([], none)

/-- The octets of a message about to leave: those of one write, and those of a second. -/
def compose (world : World) (c : H1Connection) (m : Message) : Except Error (Octets × Option Octets) := do
  let m ← (c.finalize world m).materialize world
  let m ← m.compress world (c.accepted m)
  let body ← match m.body with
    | some body => (body.intoBytes world).map some
    | none => .ok none
  let head ← c.head m body
  let (more, trailing) ← c.content m body
  return (head ++ more, trailing)

/-- The exchanges outstanding once a message has been sent. -/
def afterSending (c : H1Connection) (m : Message) : List Exchange :=
  match m.method with
  | some method => c.pending ++ [⟨method, none⟩]
  | none => if c.role.isServer && !m.isInformational then c.pending.tail else c.pending

/-- Writes one whole message: start line, fields, and body. -/
def sendMessage (world : World) (m : Message) : Step Unit := do
  let c ← Act.get
  Act.demand (!(m.method.isSome && c.pipelineDepth ≤ c.pending.length))
    (.limit "more than {depth} requests are awaiting a response" [.number c.pipelineDepth])
  let (out, trailing) ← Act.ofExcept (c.compose world m)
  writing out
  writingRest trailing
  Act.modify fun c => { c with pending := c.afterSending m }

theorem run_sendMessage (world : World) (m : Message) (c : H1Connection) :
    (sendMessage world m).run c =
      if m.method.isSome && c.pipelineDepth ≤ c.pending.length then
        (.error (.limit "more than {depth} requests are awaiting a response" [.number c.pipelineDepth]), c)
      else match c.compose world m with
        | .error error => (.error error, c)
        | .ok (out, trailing) =>
          match (writing out >>= fun _ => writingRest trailing).run c with
          | (.error error, c') => (.error error, c')
          | (.ok (), c') => (.ok (), { c' with pending := c'.afterSending m }) := by
  rw [sendMessage, Act.run_bind, Act.run_get]
  dsimp only
  rw [Act.run_bind, Act.run_demand]
  cases m.method.isSome && decide (c.pipelineDepth ≤ c.pending.length) with
  | true => rfl
  | false =>
    rw [if_neg Bool.false_ne_true, Bool.not_false, if_pos rfl]
    dsimp only
    rw [Act.run_bind, Act.run_ofExcept]
    rcases c.compose world m with error | ⟨out, trailing⟩
    · rfl
    · dsimp only
      rw [Act.run_bind, Act.run_bind]
      rcases (writing out).run c with ⟨error | _, c'⟩
      · rfl
      · dsimp only
        rw [Act.run_bind]
        rcases (writingRest trailing).run c' with ⟨error | _, c''⟩ <;> rfl

/-- Answers with a bare status and marks the connection for closing. That the answer
    could not be sent is not reported. -/
def reject (world : World) (status : ℕ) : Step Unit := fun c =>
  (.ok (), ((sendMessage world (.response status c.version)).run { c with closing := true }).2)

/-! ## Receiving -/

/-- Looks for the blank line that ends a section. -/
def blockLook (max searched : ℕ) (data : Octets) : Option (Except Error (ℕ × ℕ)) × ℕ :=
  match Field.blockEnd data searched with
  | (some found, searched) => (some (.ok found), searched)
  | (none, searched) =>
    if max < data.length then (some (.error (.limit "header block exceeds {max} octets" [.number max])), searched)
    else (none, searched)

/-- The section at the front of the buffer, whose lines are of so many octets. -/
def blockAt (limits : H1Limits) (data : Octets) (fields : ℕ) : Except Error Headers :=
  if limits.maxHeadersSize < fields then
    .error (.limit "header block exceeds {max} octets" [.number limits.maxHeadersSize])
  else Field.parseBlock (data.take fields) limits.maxHeaderCount

/-- Reads a field section, and says how many octets it occupied. -/
def readHeaderBlock : Step (Headers × ℕ) := do
  let c ← Act.get
  let (fields, consumed) ← reading (·.awaitWith (blockLook c.limits.maxHeadersSize) (.error .closed) 0)
  let c ← Act.get
  let headers ← Act.ofExcept (blockAt c.limits c.source.data fields)
  consuming consumed
  return (headers, consumed)

theorem run_readHeaderBlock (c : H1Connection) :
    readHeaderBlock.run c =
      match c.source.awaitWith (blockLook c.limits.maxHeadersSize) (.error .closed) 0 with
      | (.error error, s) => (.error error, { c with source := s })
      | (.ok (fields, consumed), s) =>
        match blockAt c.limits s.data fields with
        | .error error => (.error error, { c with source := s })
        | .ok headers => (.ok (headers, consumed), { c with source := s.consume consumed }) := by
  simp only [readHeaderBlock, reading, consuming, Act.run, Act.get, Act.ofExcept, Act.modify, bind, pure]
  rcases c.source.awaitWith _ _ _ with ⟨error | ⟨fields, consumed⟩, s⟩
  · rfl
  · dsimp only
    rcases blockAt c.limits s.data fields with error | headers <;> rfl

/-- The ceiling one body is held to. -/
def bodyLimit (limits : H1Limits) (budget : ℕ) : ℕ := min limits.maxMessageBodySize budget

/-- Looks for one chunk, `length` octets of the body being read already. -/
def chunkLook (limits : H1Limits) (limit length : ℕ) (data : Octets) : Option (Except Error (ℕ × ℕ × ℕ)) :=
  match Chunk.parseSize data with
  | .error error => some (.error error)
  | .ok (some (_, size)) =>
    if limit < min (length + size) (USIZE - 1) then
      some (.error (.limit "chunked body exceeds {limit} octets" [.number limit]))
    else chunkAt data
  | .ok none =>
    if limits.maxChunkHeaderSize < data.length then
      some (.error (.limit "chunk size line exceeds {max} octets" [.number limits.maxChunkHeaderSize]))
    else chunkAt data
where
  /-- The chunk at the front, if it is there. -/
  chunkAt (data : Octets) : Option (Except Error (ℕ × ℕ × ℕ)) :=
    match Chunk.decode data with
    | .error error => some (.error error)
    | .ok (consumed, range) => if consumed = 0 then none else some (.ok (consumed, range))

/-- Reads the chunks of a body behind those that gave `body`. Every one takes octets
    off the source, which `fuel` is more than. -/
def readChunks (limits : H1Limits) (limit : ℕ) :
    ℕ → Octets → Source Error UInt8 → Except Error Octets × Source Error UInt8
  | 0, _, s => (.error .closed, s)
  | fuel + 1, body, s =>
    match s.await (chunkLook limits limit body.length) (.error .closed) with
    | (.error error, s) => (.error error, s)
    | (.ok (consumed, start, end'), s) =>
      if end' ≤ start then (.ok body, s.consume consumed)
      else readChunks limits limit fuel (body ++ (s.data.take end').drop start) (s.consume consumed)

/-- Reads to the end of the source. What a read brought in is held to the limit. -/
def readToEnd (limit : ℕ) (s : Source Error UInt8) : Except Error Unit × Source Error UInt8 :=
  match s.fill with
  | (.error error, s) => (.error error, s)
  | (.ok false, s) => (.ok (), s)
  | (.ok true, s) =>
    s.await (fun data => if limit < data.length then
        some (.error (.limit "body exceeds {limit} octets" [.number limit]))
      else none) (.ok ())

/-- Takes octets off the front of the buffer. -/
def taking (count : ℕ) : Step Octets := fun c =>
  (.ok (c.source.data.take count), { c with source := c.source.consume count })

/-- Reads a message body framed as `length` says. `budget` is what the head has left
    of the message's own ceiling. -/
def readBody (length : BodyLength) (budget : ℕ) : Step (Option Octets) := do
  let c ← Act.get
  let limit := bodyLimit c.limits budget
  match length with
  | .none => return none
  | .fixed size =>
    Act.demand (size ≤ limit) (.limit "body of {size} octets exceeds {limit}" [.number size, .number limit])
    Act.demand (size < USIZE) (.limit "body of {size} octets exceeds what this platform can address" [.number size])
    reading (·.await (fun data => if size ≤ data.length then some (.ok ()) else none) (.error .closed))
    some <$> taking size
  | .chunked => some <$> reading fun s => readChunks c.limits limit (s.left + 1) [] s
  | .close =>
    reading (readToEnd limit)
    let c ← Act.get
    some <$> taking c.source.data.length

/-- `readBody`, an empty body being none. -/
def receiveBody (length : BodyLength) (budget : ℕ) : Step (Option Octets) := do
  let body ← readBody length budget
  return body.filter (!·.isEmpty)

/-- Reads up to the end of the start line, past the one empty line a server ignores. -/
def awaitStartLine : Step ℕ := do
  let c ← Act.get
  let length ← reading (Line.end' c.limits.maxStartlineSize)
  if length = 0 && c.role.isServer then do
    consuming 2
    reading (Line.end' c.limits.maxStartlineSize)
  else pure length

theorem run_awaitStartLine (c : H1Connection) :
    awaitStartLine.run c = match (reading (Line.end' c.limits.maxStartlineSize)).run c with
      | (.error error, c') => (.error error, c')
      | (.ok length, c') =>
        if length = 0 && c.role.isServer then
          (reading (Line.end' c.limits.maxStartlineSize)).run { c' with source := c'.source.consume 2 }
        else (.ok length, c') := by
  rw [awaitStartLine, Act.run_bind, Act.run_get]
  dsimp only
  rw [Act.run_bind]
  rcases (reading (Line.end' c.limits.maxStartlineSize)).run c with ⟨error | length, c'⟩
  · rfl
  · dsimp only
    split_ifs <;> rfl

/-- Reports a start line that cannot be parsed, which a server answers first. -/
def refuse {α : Type} (world : World) (line : Octets) (error : Error) : Step α := fun c =>
  (.error error, if c.role.isServer then ((reject world (StartLine.errorStatusBytes line)).run c).2 else c)

/-- Reads the start line. -/
def readStartLine (world : World) : Step (Message × ℕ) := do
  let length ← awaitStartLine
  let c ← Act.get
  let line := c.source.data.take length
  consuming (length + 2)
  match StartLine.parseBytes line with
  | .ok m => return (m, length)
  | .error error => refuse world line error

/-- Remembers a received request, so that its response can be framed. -/
def openExchange (world : World) (m : Message) : Step Unit := do
  let c ← Act.get
  match if c.role.isServer then Exchange.of world.toCodecs m else none with
  | none => pure ()
  | some exchange =>
    Act.demand (c.pending.length < c.pipelineDepth)
      (.limit "more than {depth} requests are awaiting an answer" [.number c.pipelineDepth])
    Act.modify fun c => { c with pending := c.pending ++ [exchange] }

/-- Takes back the method of the request a received response answers. -/
def takeAnswered (m : Message) : Step (Option Method) := fun c =>
  if m.isResponse then (.ok (c.pending.head?.map (·.method)), { c with pending := c.pending.tail })
  else (.ok none, c)

/-- Tells a client that waits for it to go ahead. -/
def answerExpectation (world : World) (m : Message) (length : BodyLength) : Step Unit := do
  let c ← Act.get
  if c.role.isServer && length ≠ .none && Expectation.requested m then
    sendMessage world (.response Expectation.STATUS c.version)
  else pure ()

/-- Takes up a message whose head of `size` octets is read, and says what that leaves
    of the message's ceiling. -/
def reserve (world : World) (m : Message) (size : ℕ) : Step ℕ := do
  Act.modify fun c => { c with closing := c.closing || !Persistence.keepAlive m }
  let c ← Act.get
  Act.demand (size ≤ c.limits.maxMessageSize)
    (.limit "message head of {head} octets exceeds {limit}" [.number size, .number c.limits.maxMessageSize])
  openExchange world m
  return c.limits.maxMessageSize - size

/-- Reads the head of a message. -/
def readHead (world : World) : Step (Message × ℕ) := do
  let (m, length) ← readStartLine world
  let (headers, block) ← readHeaderBlock
  let c ← Act.get
  let m := { m with headers := some headers, secure := c.secure }
  let budget ← reserve world m (length + 4 + block)
  return (m, budget)

theorem run_reject (world : World) (status : ℕ) (c : H1Connection) :
    (reject world status).run c =
      (.ok (), ((sendMessage world (.response status c.version)).run { c with closing := true }).2) := rfl

theorem run_refuse {α : Type} (world : World) (line : Octets) (error : Error) (c : H1Connection) :
    (refuse world line error : Step α).run c =
      (.error error, if c.role.isServer then ((reject world (StartLine.errorStatusBytes line)).run c).2 else c) := rfl

theorem run_takeAnswered (m : Message) (c : H1Connection) :
    (takeAnswered m).run c = if m.isResponse then
      (.ok (c.pending.head?.map (·.method)), { c with pending := c.pending.tail }) else (.ok none, c) := rfl

/-- Reads the body of a message that has one. -/
def readFramed (length : BodyLength) (budget : ℕ) : Step (Option Octets) :=
  if length = .none then pure none else receiveBody length budget

/-- Reads the trailers of a message that is chunked. -/
def readTrailers (length : BodyLength) : Step (Option Headers) :=
  if length = .chunked then (fun block => some block.1) <$> readHeaderBlock else pure none

/-- Reads what follows the head of a message that is framed as `length` says. -/
def readContent (world : World) (m : Message) (length : BodyLength) (budget : ℕ) : Step Message := do
  answerExpectation world m length
  let body ← readFramed length budget
  let trailers ← readTrailers length
  let c ← Act.get
  Act.ofExcept ({ m with body := body.map .data, trailers := trailers }.decompress world
    c.limits.maxDecompressedBodySize)

/-- Reads one whole message. -/
def receiveMessage (world : World) : Step Message := do
  let (m, budget) ← readHead world
  let method ← takeAnswered m
  let length ← Act.ofExcept (BodyLength.of m method)
  readContent world m length budget

/-- What is done with a connection next. -/
inductive Event
  | receive
  | send (m : Message)

/-- Does it: a message where one was received, nothing where one was sent. -/
def perform (world : World) : Event → Step (Option Message)
  | .receive => some <$> receiveMessage world
  | .send m => (fun _ => none) <$> sendMessage world m

end H1Connection

end Soyokaze

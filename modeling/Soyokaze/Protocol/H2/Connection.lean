import Soyokaze.Lib.Act
import Soyokaze.Protocol.H2.Frames

/-!
# An HTTP/2 connection

Many streams over one transport. The frames a step writes are gathered in `out`
until they are flushed, and a send that waits for credit handles the frames that
arrive meanwhile. A call runs to its end: what a timeout or a caller that gives up
leaves behind is not modelled.

`passed` is what passed between this end and its peer, the latest first. The source
keeps no such record and nothing here reads it: the results are stated over it.
-/

namespace Soyokaze

/-- The ceilings a connection holds itself to. -/
structure H2Limits where
  maxMessageSize : ℕ
  maxMessageBodySize : ℕ
  maxDecompressedBodySize : ℕ
  maxHeadersSize : ℕ
  maxHeaderCount : ℕ
  maxConcurrentStreams : ℕ
  maxConnectionBufferSize : ℕ
  maxPrematureResets : ℕ
  maxIdleFrames : ℕ
  outputHighWater : ℕ
  maxEncoderTableSize : ℕ
  deriving DecidableEq

/-- The ceilings a connection has unless it is told others. -/
def H2Limits.default : H2Limits where
  maxMessageSize := 64 * 1024 * 1024
  maxMessageBodySize := 64 * 1024 * 1024
  maxDecompressedBodySize := 256 * 1024 * 1024
  maxHeadersSize := 64 * 1024
  maxHeaderCount := 100
  maxConcurrentStreams := 100
  maxConnectionBufferSize := 64 * 1024 * 1024
  maxPrematureResets := 1000
  maxIdleFrames := 1000
  outputHighWater := 64 * 1024
  maxEncoderTableSize := 64 * 1024

namespace H2

/-- Where a stream is in its lifetime. -/
inductive StreamState
  | idle | reservedLocal | reservedRemote | open' | halfClosedLocal | halfClosedRemote | closed
  deriving DecidableEq

namespace StreamState

/-- Whether the peer may still send on this stream. -/
def receivable : StreamState → Bool
  | idle | open' | halfClosedLocal => true
  | _ => false

/-- Whether this end may still send on this stream. -/
def sendable : StreamState → Bool
  | idle | open' | halfClosedRemote => true
  | _ => false

/-- The state after this end finishes sending. -/
def closeLocal : StreamState → StreamState
  | open' | idle => halfClosedLocal
  | _ => closed

/-- The state after the peer finishes sending. -/
def closeRemote : StreamState → StreamState
  | open' | idle => halfClosedRemote
  | _ => closed

/-- The state once something has been received on the stream. -/
def begun : StreamState → StreamState
  | idle => open'
  | state => state

end StreamState

/-- What passed between a connection and its peer. -/
inductive Passed
  /-- A stream was opened, by either end. -/
  | opened (streamId : ℕ)
  /-- A frame was read off the wire. -/
  | received (header : FrameHeader) (payload : Octets)
  /-- A frame was written, to go out with the next flush. -/
  | sent (frame : Frame)
  /-- The octets of a DATA frame were taken up on a stream. -/
  | accepted (streamId : ℕ) (data : Octets)
  /-- The peer closed a stream that no message was held on. -/
  | unattended (streamId : ℕ)
  /-- The peer ended a stream with an informational response. -/
  | overlooked (streamId : ℕ)
  /-- A frame was acted on, and left these streams closed with no reset of theirs to go out. -/
  | handled (frame : Frame) (lingering : List ℕ)
  /-- More DATA arrived than the peer had credit for. -/
  | exceeded
  /-- The transport failed, or what the peer sent was refused. -/
  | failed
  deriving DecidableEq

/-- A counter of so many bits that stays at its largest value. -/
def saturating (bits value : ℕ) : ℕ := min value (2 ^ bits - 1)

end H2

open H2

/-- One stream within an HTTP/2 connection. -/
structure H2Stream where
  state : StreamState
  windowLocal : ℤ
  windowRemote : ℤ
  block : Octets
  head : ℕ
  body : Octets
  headers : Option Message
  method : Option Method
  accepted : Option Compression
  pendingReset : Option ℕ
  deriving DecidableEq

namespace H2Stream

/-- An idle stream with the given starting windows. -/
def new (windowLocal windowRemote : ℤ) : H2Stream :=
  ⟨.idle, windowLocal, windowRemote, [], 0, [], none, none, none, none⟩

/-- How many octets of message have arrived, compressed head and body alike. -/
def received (stream : H2Stream) : ℕ := stream.head + stream.body.length

/-- Whether the message being assembled opens a tunnel. -/
def tunneling (stream : H2Stream) : Bool :=
  match stream.headers with
  | some m => m.tunneling stream.method
  | none => false

end H2Stream

/-- An HTTP/2 connection. -/
structure H2Connection where
  source : Source Error UInt8
  sink : Sink
  role : Role
  limits : H2Limits
  streams : StreamMap H2Stream
  hpackEncoder : Hpack.Encoder
  hpackDecoder : Hpack.Decoder
  settingsLocal : Settings
  settingsRemote : Settings
  windowLocal : ℤ
  windowRemote : ℤ
  nextStreamId : ℕ
  highestPeerStreamId : ℕ
  started : Bool
  goaway : Option ℕ
  ready : List Message
  out : Octets
  bufferedBound : ℕ
  resets : Bool
  prematureResets : ℕ
  idleFrames : ℕ
  requestFinalizer : RequestFinalizer
  responseFinalizer : ResponseFinalizer
  secure : Bool
  passed : List Passed

namespace H2Connection

/-- A connection over a transport of which some was read already. -/
def resume (source : Source Error UInt8) (sink : Sink) (role : Role) (limits : H2Limits) : H2Connection where
  source := source
  sink := sink
  role := role
  limits := limits
  streams := ∅
  hpackEncoder := Hpack.Encoder.new.setCapacityLimit limits.maxEncoderTableSize
  hpackDecoder := .new
  settingsLocal := { Settings.default with maxConcurrentStreams := some limits.maxConcurrentStreams }
  settingsRemote := .peer
  windowLocal := Settings.DEFAULT_INITIAL_WINDOW_SIZE
  windowRemote := Settings.DEFAULT_INITIAL_WINDOW_SIZE
  nextStreamId := if role.isClient then 1 else 2
  highestPeerStreamId := 0
  started := false
  goaway := none
  ready := []
  out := []
  bufferedBound := 0
  resets := false
  prematureResets := 0
  idleFrames := 0
  requestFinalizer := ⟨none⟩
  responseFinalizer := ⟨none⟩
  secure := false
  passed := []

/-- A step of a connection. -/
abbrev Step (α : Type) : Type := Act H2Connection Error α

/-- A step that reads. -/
def reading {α : Type} (f : Source Error UInt8 → Except Error α × Source Error UInt8) : Step α := fun c =>
  ((f c.source).1, { c with source := (f c.source).2 })

/-- Drops octets off the front of the buffer. -/
def consuming (count : ℕ) : Step Unit := Act.modify fun c => { c with source := c.source.consume count }

/-- Records what passed. -/
def note (entry : Passed) : Step Unit := Act.modify fun c => { c with passed := entry :: c.passed }

/-- Records what passed under a condition. -/
def noteIf (condition : Bool) (entry : Passed) : Step Unit := if condition then note entry else pure ()

/-- A step that takes the connection down with it where it fails. -/
def fatal {α : Type} (m : Step α) : Step α := fun c =>
  match m.run c with
  | (.ok a, c) => (.ok a, c)
  | (.error error, c) => (.error error, { c with passed := .failed :: c.passed })

/-- Changes one stream, if it is open. -/
def modifyStream (id : ℕ) (f : H2Stream → H2Stream) : Step Unit :=
  Act.modify fun c => { c with streams := StreamMap.modify c.streams id f }

/-- One stream, which has to be open. -/
def openStream (id : ℕ) : Step H2Stream := fun c =>
  match c.streams.lookup id with
  | some stream => (.ok stream, c)
  | none => (.error (.protocol "stream {id} is no longer open" [.number id]), c)

/-- How many streams this end may open at once. -/
def localStreamCeiling (c : H2Connection) : ℕ :=
  max (c.settingsRemote.maxConcurrentStreams.getD c.limits.maxConcurrentStreams) 1

/-! ## Writing -/

/-- Adds a frame to what goes out next. -/
def queue (frame : Frame) : Step Unit := Act.modify fun c =>
  { c with out := c.out ++ frame.encode, passed := .sent frame :: c.passed }

/-- Writes everything queued. What could not be written is not kept. -/
def flushOut : Step Unit := fun c =>
  if c.out.isEmpty then (.ok (), c)
  else match c.sink.write c.out with
    | (.ok (), sink) => (.ok (), { c with sink := sink, out := [] })
    | (.error error, sink) => (.error error, { c with sink := sink, out := [], passed := .failed :: c.passed })

/-- Queues one frame and flushes. -/
def write (frame : Frame) : Step Unit := do
  queue frame
  flushOut

/-- Fails, having told the peer that it costs more than it spends. That it could not be
    told is not reported. -/
def overloaded {α : Type} (reason : String) (quoted : List Quoted) : Step α := fun c =>
  (.error (.limit reason quoted), ((write (.goAway c.highestPeerStreamId Code.ENHANCE_YOUR_CALM [])).run c).2)

/-- Abandons one stream and tells the peer why. -/
def reset (id errorCode : ℕ) : Step Unit := do
  Act.modify fun c => { c with streams := c.streams.erase id }
  write (.rstStream id errorCode)

/-- Drops a stream if it has finished. -/
def retire (id : ℕ) : Step Unit := Act.modify fun c =>
  match c.streams.lookup id with
  | some stream => if stream.state = .closed then { c with streams := c.streams.erase id } else c
  | none => c

/-- Counts one frame that did not advance any stream. -/
def idle : Step Unit := do
  Act.modify fun c => { c with idleFrames := saturating 32 (c.idleFrames + 1) }
  let c ← Act.get
  if c.limits.maxIdleFrames < c.idleFrames then
    overloaded "more than {limit} frames arrived without advancing a stream" [.number c.limits.maxIdleFrames]
  else pure ()

/-- Says that a frame advanced a stream, where it did, and counts it where it did not. -/
def advanced (progress : Bool) : Step Unit :=
  if progress then Act.modify fun c => { c with idleFrames := 0 } else idle

/-! ## Starting -/

/-- Reads what a client sends before anything else, or writes it. -/
def exchangePreface : Step Unit := do
  let c ← Act.get
  if c.role.isClient then Act.modify fun c => { c with out := c.out ++ PREFACE }
  else do
    let preface ← reading (·.await
      (fun data => if PREFACE.length ≤ data.length then some (.ok (data.take PREFACE.length)) else none)
      (.error .closed))
    Act.demand (preface = PREFACE) (.protocol "connection preface is not the HTTP/2 preface" [])
    consuming PREFACE.length

/-- Exchanges the preface and sends the opening SETTINGS. -/
def startUp : Step Unit := fatal do
  Act.modify fun c => { c with started := true }
  exchangePreface
  Act.modify fun c => { c with
    hpackDecoder := (c.hpackDecoder.setMaxCapacity c.settingsLocal.headerTableSize).setMaxDecodedSize
      c.limits.maxHeadersSize }
  let c ← Act.get
  queue (.settings false c.settingsLocal.parameters)
  flushOut

/-- `startUp`, once. -/
def start : Step Unit := do
  let c ← Act.get
  if c.started then pure () else startUp

/-- Queues a RST_STREAM for each of these streams and drops it. -/
def resetAll : List (ℕ × ℕ) → Step Unit
  | [] => pure ()
  | (id, code) :: pending => do
    queue (.rstStream id code)
    Act.modify fun c => { c with streams := c.streams.erase id }
    resetAll pending

/-- The streams that are marked for reset, with the codes to reset them with. -/
def pendingResets (c : H2Connection) : List (ℕ × ℕ) :=
  c.streams.entries.filterMap fun entry => entry.2.pendingReset.map fun code => (entry.1, code)

/-- Queues a RST_STREAM for every stream that was marked. -/
def flushResets : Step Unit := do
  let c ← Act.get
  if c.resets then do
    Act.modify fun c => { c with resets := false }
    resetAll c.pendingResets
  else pure ()

/-! ## Reading frames -/

/-- Takes the frame at the front of the buffer, which is of so many octets. -/
def takeFrame (length : ℕ) (header : Option FrameHeader) : Step (Except UInt8 Frame) := do
  let c ← Act.get
  let octets := c.source.data.take (FrameHeader.SIZE + length)
  consuming (FrameHeader.SIZE + length)
  match header with
  | none => return .error (octets.getD 3 0)
  | some header => do
    note (.received header (octets.drop FrameHeader.SIZE))
    Except.ok <$> Act.ofExcept (Frame.assemble header (octets.drop FrameHeader.SIZE))

/-- Flushes what is queued where the next frame is still to arrive. -/
def flushBeforeWaiting : Step Unit := do
  let c ← Act.get
  if (Frame.whole c.settingsLocal.maxFrameSize c.source.data).isNone then flushOut else pure ()

/-- Reads until one whole frame has arrived, and reports one of an unknown type. -/
def readFrameKept : Step (Except UInt8 Frame) := do
  flushBeforeWaiting
  let c ← Act.get
  let (length, header) ← reading (·.await (Frame.whole c.settingsLocal.maxFrameSize) (.error .closed))
  takeFrame length header

/-- Reads past frames of unknown type. Every one takes octets off the source, which
    `fuel` is more than. -/
def readFrameLoop : ℕ → Step Frame
  | 0 => Act.fail .closed
  | fuel + 1 => do
    match ← readFrameKept with
    | .ok frame => return frame
    | .error _ => readFrameLoop fuel

/-- Reads until one whole frame of a known type has arrived. -/
def readFrame : Step Frame := do
  let c ← Act.get
  readFrameLoop (c.source.left + 1)

/-! ## Field sections -/

/-- Opens the stream a HEADERS frame names, if the peer may open it. -/
def beginStream (id : ℕ) : Step Unit := do
  let c ← Act.get
  if id = 0 ∨ (id % 2 = 1) ≠ (!c.role.isClient) then
    Act.demand (c.streams.lookup id).isSome (.protocol "stream {id} is not the peer's to open" [.number id])
  else if (c.streams.lookup id).isSome then pure ()
  else do
    Act.demand (c.highestPeerStreamId < id)
      (.protocol "stream {id} does not exceed the last stream the peer opened" [.number id])
    Act.modify fun c => { c with highestPeerStreamId := id }
    Act.demand (match c.settingsLocal.maxConcurrentStreams with
        | some max => c.streams.entries.length < max
        | none => true) (.protocol "stream {id} exceeds the concurrent stream limit" [.number id])
    Act.modify fun c => { c with
      streams := c.streams.insert id
        (.new c.settingsLocal.initialWindowSize c.settingsRemote.initialWindowSize) }
    note (.opened id)

/-- Takes the finished message off a stream, attaching whatever body arrived. -/
def complete (id : ℕ) (endStream : Bool) : Step (Option Message) := do
  modifyStream id fun stream =>
    if endStream then { stream with state := stream.state.closeRemote } else stream
  let c ← Act.get
  match c.streams.lookup id with
  | none => return none
  | some stream =>
    match stream.headers with
    | none => do
      noteIf (stream.state = .closed) (.unattended id)
      return none
    | some m => do
      modifyStream id fun stream => { stream with headers := none, body := [] }
      retire id
      return some (if stream.body.isEmpty then m else { m with body := some (.data stream.body) })

/-- Decodes a field block. -/
def decodeBlock (block : Octets) : Step (List HeaderField) := fun c =>
  ((c.hpackDecoder.decode block).2.mapError Error.ofHpack,
    { c with hpackDecoder := (c.hpackDecoder.decode block).1 })

/-- Takes a second section on a stream for its trailers. -/
def absorbTrailers (id : ℕ) (fields : List HeaderField) : Step Unit := do
  let trailers ← Act.ofExcept (Fields.intoTrailers fields)
  modifyStream id fun stream =>
    { stream with headers := stream.headers.map fun m => { m with trailers := some trailers } }

/-- Takes the first section on a stream for its message, and hands back an informational
    response, since the real one follows on the same stream. -/
def absorbMessage (world : World) (id : ℕ) (fields : List HeaderField) : Step (Option Message) := do
  let m ← Act.ofExcept (Fields.intoMessage fields .v2_0)
  let c ← Act.get
  let m := { m with streamId := some id, secure := c.secure }
  modifyStream id fun stream =>
    if m.isRequest then { stream with method := m.method, accepted := m.accepted world.toCodecs } else stream
  if m.isInformational then do
    modifyStream id fun stream => { stream with state := stream.state.begun }
    return some m
  else do
    modifyStream id fun stream => { stream with headers := some m }
    return none

/-- Goes on from a section that is not an informational response. -/
def settleSection (id : ℕ) (endStream : Bool) : Step (Option Message) := do
  modifyStream id fun stream => { stream with state := stream.state.begun }
  let stream ← openStream id
  if endStream || stream.tunneling then complete id endStream else return none

/-- Folds a decoded section into the stream's message. -/
def foldSection (world : World) (id : ℕ) (fields : List HeaderField) (endStream : Bool) : Step (Option Message) := do
  let stream ← openStream id
  if stream.headers.isSome then do
    absorbTrailers id fields
    settleSection id endStream
  else do
    match ← absorbMessage world id fields with
    | some informational => do
      noteIf endStream (.overlooked id)
      return some informational
    | none => settleSection id endStream

/-- Decodes a complete field section and folds it into the stream's message. -/
def finishHeaders (world : World) (id : ℕ) (block : Octets) (endStream : Bool) : Step (Option Message) := do
  Act.modify fun c => { c with idleFrames := 0 }
  let _ ← openStream id
  modifyStream id fun stream => { stream with head := stream.head + block.length }
  let stream ← openStream id
  let c ← Act.get
  Act.demand (stream.received ≤ c.limits.maxMessageSize)
    (.limit "message exceeds {limit} octets" [.number c.limits.maxMessageSize])
  let fields ← decodeBlock block
  Act.demand (fields.length ≤ c.limits.maxHeaderCount)
    (.limit "more than {limit} header fields" [.number c.limits.maxHeaderCount])
  foldSection world id fields endStream

/-- Checks how much of a field block was gathered. -/
def checkBlock (id : ℕ) : Step Unit := do
  let c ← Act.get
  let size := match c.streams.lookup id with
    | some stream => stream.block.length
    | none => 0
  Act.demand (size ≤ c.limits.maxHeadersSize)
    (.limit "field block exceeds {limit} octets" [.number c.limits.maxHeadersSize])

/-- Finishes a section gathered on its stream. -/
def finishGathered (world : World) (id : ℕ) (endStream : Bool) : Step (Option Message) := do
  let stream ← openStream id
  modifyStream id fun stream => { stream with block := [] }
  finishHeaders world id stream.block endStream

/-- Reads CONTINUATION frames until the field section is complete, so many at most. -/
def continueHeaders (world : World) (id : ℕ) (endStream : Bool) : ℕ → Step (Option Message)
  | 0 => do
    checkBlock id
    let c ← Act.get
    Act.fail (.limit "field block spans more than {limit} CONTINUATION frames" [.number c.limits.maxHeaderCount])
  | frames + 1 => do
    checkBlock id
    match ← readFrameKept with
    | .error kind => Act.fail (.protocol "a frame of type {kind} interrupted a field block" [.number kind.toNat])
    | .ok (.continuation other endHeaders block) =>
      if other = id then do
        let _ ← openStream id
        modifyStream id fun stream => { stream with block := stream.block ++ block }
        if endHeaders then finishGathered world id endStream else continueHeaders world id endStream frames
      else Act.fail (.protocol "a field block was interrupted" [])
    | .ok _ => Act.fail (.protocol "a field block was interrupted" [])

/-! ## Handling frames -/

/-- Applies settings one by one, and keeps those before the first that is refused. -/
def applySettings (params : List (ℕ × ℕ)) : Step Unit := fun c =>
  ((c.settingsRemote.applyAll params).1, { c with settingsRemote := (c.settingsRemote.applyAll params).2 })

/-- Takes up the peer's settings. -/
def handleSettings (params : List (ℕ × ℕ)) : Step (Option Message) := do
  idle
  let before ← Act.get
  applySettings params
  Act.modify fun c =>
    let change : ℤ := c.settingsRemote.initialWindowSize - before.settingsRemote.initialWindowSize
    { c with
      streams := StreamMap.mapValues c.streams fun stream =>
        { stream with windowRemote := stream.windowRemote + change }
      hpackEncoder := c.hpackEncoder.setMaxCapacity c.settingsRemote.headerTableSize }
  queue (.settings true [])
  return none

/-- Takes up credit for the connection as a whole. -/
def creditConnection (increment : ℕ) : Step (Option Message) := do
  let c ← Act.get
  Act.modify fun c => { c with windowRemote := c.windowRemote + increment }
  Act.demand (c.windowRemote + increment ≤ Settings.MAXIMUM_WINDOW_SIZE)
    (.protocol "connection send window overflowed" [])
  advanced (c.windowRemote ≤ 0 && 0 < c.windowRemote + increment)
  return none

/-- Takes up credit for one stream, which is reset where it overflows. -/
def creditStream (id increment : ℕ) : Step (Option Message) := do
  let c ← Act.get
  match c.streams.lookup id with
  | none => do
    idle
    return none
  | some stream => do
    modifyStream id fun stream => { stream with windowRemote := stream.windowRemote + increment }
    if Settings.MAXIMUM_WINDOW_SIZE < stream.windowRemote + increment then do
      reset id Code.FLOW_CONTROL_ERROR
      return none
    else do
      advanced (stream.windowRemote ≤ 0 && 0 < stream.windowRemote + increment)
      return none

/-- Counts a stream reset before a response was sent. -/
def countPremature : Step (Option Message) := do
  Act.modify fun c => { c with prematureResets := saturating 32 (c.prematureResets + 1) }
  let c ← Act.get
  if c.limits.maxPrematureResets < c.prematureResets then
    overloaded "more than {limit} streams were reset before a response was sent" [.number c.limits.maxPrematureResets]
  else return none

/-- Forgets a stream the peer abandoned. -/
def handleReset (id : ℕ) : Step (Option Message) := do
  idle
  let c ← Act.get
  Act.modify fun c => { c with streams := c.streams.erase id }
  match c.streams.lookup id with
  | some stream => if stream.state.sendable then countPremature else return none
  | none => return none

/-- Takes up a field section. -/
def handleHeaders (world : World) (id : ℕ) (endStream endHeaders : Bool) (block : Octets) :
    Step (Option Message) := do
  beginStream id
  if endHeaders then finishHeaders world id block endStream
  else do
    let _ ← openStream id
    modifyStream id fun stream => { stream with block := block }
    let c ← Act.get
    continueHeaders world id endStream c.limits.maxHeaderCount

/-- Refuses DATA on a stream that is not the peer's to send on. -/
def demandReceivable (id : ℕ) : Step Unit := fun c =>
  match c.streams.lookup id with
  | none => (.error (.protocol "DATA on unopened stream {id}" [.number id]), c)
  | some stream =>
    (if stream.state.receivable then .ok () else .error (.protocol "DATA on closed stream {id}" [.number id]), c)

/-- Queues credit for as many octets, if there are any. -/
def giveCredit (id length : ℕ) : Step Unit :=
  if 0 < length then queue (.windowUpdate id length) else pure ()

/-- Counts the octets of a DATA frame against the connection's window and gives the
    credit back, whatever becomes of the stream. -/
def spendConnection (length : ℕ) : Step Unit := do
  Act.modify fun c => { c with windowLocal := c.windowLocal - length }
  let c ← Act.get
  if c.windowLocal < 0 then do
    note .exceeded
    Act.fail (.protocol "connection receive window overflowed" [])
  else do
    giveCredit 0 length
    Act.modify fun c => { c with windowLocal := c.windowLocal + length }

/-- How much unread body the connection is holding across all its streams. -/
def buffered (c : H2Connection) : ℕ := c.streams.values.foldr (fun stream held => stream.body.length + held) 0

/-- Whether the connection is holding more than its ceiling across all of its streams. -/
def overbuffered : Step Bool := fun c =>
  if c.bufferedBound ≤ c.limits.maxConnectionBufferSize then (.ok false, c)
  else (.ok (c.limits.maxConnectionBufferSize < c.buffered), { c with bufferedBound := c.buffered })

/-- Gives the credit of a stream back, if the peer may still use it. -/
def restoreStream (id length : ℕ) : Step Unit := do
  let c ← Act.get
  if ((c.streams.lookup id).map (·.state.receivable)).getD false then do
    giveCredit id length
    modifyStream id fun stream => { stream with windowLocal := stream.windowLocal + length }
  else pure ()

/-- Adds the octets of a DATA frame to the body of its stream, and checks how much is held. -/
def holdData (id : ℕ) (data : Octets) : Step Unit := do
  modifyStream id fun stream => { stream with body := stream.body ++ data }
  let stream ← openStream id
  Act.modify fun c => { c with bufferedBound := saturating 64 (c.bufferedBound + data.length) }
  let c ← Act.get
  Act.demand (stream.body.length ≤ c.limits.maxMessageBodySize)
    (.limit "body exceeds {limit} octets" [.number c.limits.maxMessageBodySize])
  Act.demand (stream.received ≤ c.limits.maxMessageSize)
    (.limit "message exceeds {limit} octets" [.number c.limits.maxMessageSize])
  let exceeding ← overbuffered
  Act.demand (!exceeding) (.limit "buffered messages exceed {limit} octets" [.number c.limits.maxConnectionBufferSize])

/-- Takes the octets of a DATA frame the peer had credit for. -/
def absorbData (id : ℕ) (endStream : Bool) (data : Octets) : Step (Option Message) := do
  holdData id data
  note (.accepted id data)
  restoreStream id data.length
  if endStream then complete id true else return none

/-- Takes up body octets. -/
def handleData (id : ℕ) (endStream : Bool) (data : Octets) : Step (Option Message) := do
  demandReceivable id
  advanced (!(data.isEmpty && !endStream))
  spendConnection data.length
  modifyStream id fun stream => { stream with windowLocal := stream.windowLocal - data.length }
  let stream ← openStream id
  if stream.windowLocal < 0 then do
    note .exceeded
    reset id Code.FLOW_CONTROL_ERROR
    return none
  else absorbData id endStream data

/-- Acts on one frame, returning a message if that completed one. -/
def handle (world : World) : Frame → Step (Option Message)
  | .settings false params => handleSettings params
  | .settings true _ => do
    idle
    return none
  | .ping false payload => do
    idle
    queue (.ping true payload)
    return none
  | .ping true _ => do
    idle
    return none
  | .windowUpdate id increment => if id = 0 then creditConnection increment else creditStream id increment
  | .goAway _ errorCode _ => do
    idle
    Act.modify fun c => { c with goaway := some errorCode }
    return none
  | .rstStream id _ => handleReset id
  | .priority .. => do
    idle
    return none
  | .pushPromise .. => Act.fail (.protocol "PUSH_PROMISE arrived with push disabled" [])
  | .headers id endStream endHeaders block => handleHeaders world id endStream endHeaders block
  | .continuation .. => Act.fail (.protocol "CONTINUATION arrived outside a header block" [])
  | .data id endStream data => handleData id endStream data

/-- Flushes what is queued where no input is left to answer. -/
def flushIfDrained : Step Unit := do
  let c ← Act.get
  if c.source.data.isEmpty then flushOut else pure ()

/-- The streams that are closed with no reset of theirs to go out. -/
def lingering (c : H2Connection) : List ℕ :=
  c.streams.entries.filterMap fun entry =>
    if entry.2.state = .closed ∧ (entry.2.pendingReset = none ∨ c.resets = false) then some entry.1 else none

/-- Handles a frame and records that it did. -/
def act (world : World) (frame : Frame) : Step (Option Message) := do
  let m ← handle world frame
  let c ← Act.get
  note (.handled frame c.lingering)
  return m

/-- Reads and handles one frame, returning a message if that completed one. -/
def pump (world : World) : Step (Option Message) := fatal do
  start
  flushResets
  let frame ← readFrame
  let m ← act world frame
  flushIfDrained
  return m

/-- Reads and handles one frame for a tunnel, which has flushed what is queued. -/
def relay (world : World) : Step (Option Message) := fatal do
  flushOut
  let frame ← readFrame
  act world frame

/-! ## Receiving -/

/-- A message that completed already, or what the next frame completes. -/
def arrived (world : World) : Step (Option Message) := do
  let c ← Act.get
  match c.ready with
  | m :: ready => do
    Act.modify fun c => { c with ready := ready }
    return some m
  | [] => pump world

/-- Drives the connection until a message completes. Every frame takes octets off the
    source, which `fuel` is more than. -/
def receiveLoop (world : World) : ℕ → Step Message
  | 0 => Act.fail .closed
  | fuel + 1 => do
    match ← arrived world with
    | some m => do
      let c ← Act.get
      Act.ofExcept (m.decompress world c.limits.maxDecompressedBodySize)
    | none => do
      let c ← Act.get
      if c.goaway.isSome && c.streams.entries.isEmpty then Act.fail .closed else receiveLoop world fuel

/-- Drives the connection until a message completes. -/
def receiveMessage (world : World) : Step Message := do
  let c ← Act.get
  receiveLoop world (c.source.left + 1)

/-! ## Sending -/

/-- The pieces of a block that frames of this size carry. -/
def chunks (size : ℕ) : ℕ → Octets → List Octets
  | 0, _ => []
  | fuel + 1, block => if block.isEmpty then [] else block.take size :: chunks size fuel (block.drop size)

/-- Queues the pieces of a field block behind the first. -/
def writeContinuations (id : ℕ) : List Octets → Step Unit
  | [] => pure ()
  | chunk :: rest => do
    queue (.continuation id rest.isEmpty chunk)
    writeContinuations id rest

/-- Queues a field block, split across CONTINUATION frames if it is large. -/
def writeBlock (id : ℕ) (block : Octets) (endStream : Bool) : Step Unit := do
  let c ← Act.get
  let pieces := chunks (max c.settingsRemote.maxFrameSize 1) block.length block
  queue (.headers id endStream pieces.tail.isEmpty (pieces.headD []))
  writeContinuations id pieces.tail

/-- Encodes a field section and queues it. -/
def writeSection (id : ℕ) (fields : List HeaderField) (endStream : Bool) : Step Unit := do
  let c ← Act.get
  Act.modify fun c => { c with hpackEncoder := (c.hpackEncoder.encode fields).1 }
  writeBlock id (c.hpackEncoder.encode fields).2 endStream

/-- Handles the frame that may bring credit, and keeps a message it completes. -/
def awaitCredit (world : World) : Step Unit := do
  match ← pump world with
  | some m => Act.modify fun c => { c with ready := c.ready ++ [m] }
  | none => pure ()

/-- Flushes what is queued where there is much of it. -/
def flushAtHighWater : Step Unit := do
  let c ← Act.get
  if c.limits.outputHighWater ≤ c.out.length then flushOut else pure ()

/-- Queues one DATA frame and counts it against both windows. -/
def writeChunk (id : ℕ) (chunk : Octets) (last : Bool) : Step Unit := do
  queue (.data id last chunk)
  flushAtHighWater
  Act.modify fun c => { c with
    windowRemote := c.windowRemote - chunk.length
    streams := StreamMap.modify c.streams id fun stream =>
      { stream with windowRemote := stream.windowRemote - chunk.length } }

/-- How much of what is left goes into the next DATA frame of a stream. -/
def chunkSize (c : H2Connection) (stream : H2Stream) (rest : Octets) : ℕ :=
  min (min rest.length (min c.windowRemote stream.windowRemote).toNat) c.settingsRemote.maxFrameSize

/-- Sends body octets, as flow control lets them go. Every round takes octets off what is
    left to send or off the source, which `fuel` is more than together. -/
def writeDataLoop (world : World) (id : ℕ) (endStream : Bool) : ℕ → Octets → Step Unit
  | 0, _ => Act.fail .closed
  | fuel + 1, rest => do
    let c ← Act.get
    match c.streams.lookup id with
    | none => Act.fail (.stream id Code.STREAM_CLOSED "stream {id} is no longer open" [.number id])
    | some stream =>
      if min c.windowRemote stream.windowRemote ≤ 0 ∧ rest ≠ [] then do
        awaitCredit world
        writeDataLoop world id endStream fuel rest
      else do
        let size := c.chunkSize stream rest
        writeChunk id (rest.take size) (endStream && (rest.drop size).isEmpty)
        if (rest.drop size).isEmpty then pure () else writeDataLoop world id endStream fuel (rest.drop size)

/-- Sends body octets, respecting flow control. -/
def writeData (world : World) (id : ℕ) (data : Octets) (endStream : Bool) : Step Unit := do
  let c ← Act.get
  writeDataLoop world id endStream (data.length + c.source.left + 1) data

/-- What a message about to leave puts on its stream. -/
structure Outgoing where
  message : Message
  fields : List HeaderField
  body : Option Octets
  trailers : Option (List HeaderField)
  /-- Whether more is to follow on the stream. -/
  open' : Bool

/-- Finalises a message about to leave. -/
def finalize (world : World) (c : H2Connection) (m : Message) : Message :=
  c.responseFinalizer.finalize world c.role c.secure (c.requestFinalizer.finalize c.role m)

/-- What a message puts on a stream. -/
def compose (world : World) (stream : Option H2Stream) (m : Message) : Except Error Outgoing := do
  let m ← m.materialize world
  let m ← m.compress world (if m.isResponse then stream.bind (·.accepted) else none)
  let fields ← Fields.write m
  let method := stream.bind (·.method)
  -- A message that ends at its field section carries neither a body nor trailers.
  let framed := !m.bodyless method
  let tunneling := m.method == some .CONNECT || (match m.statusCode with
    | some status => 200 ≤ status && status ≤ 299
    | none => false) && method == some .CONNECT
  return {
    message := m
    fields := fields
    body := (m.body.bind (·.inline)).filter fun body => framed && !body.isEmpty
    trailers := (m.trailers.map (·.fields)).filter fun fields => framed && !fields.isEmpty
    open' := tunneling || m.isInformational }

/-- The stream a message goes on: the one it names, which has to be open, or a new one. -/
def allocate (m : Message) : Step ℕ := do
  let c ← Act.get
  match m.streamId with
  | some id => do
    Act.demand (c.streams.lookup id).isSome
      (.stream id Code.STREAM_CLOSED "stream {id} is no longer open" [.number id])
    return id
  | none => do
    Act.demand (c.streams.entries.length < c.localStreamCeiling)
      (.limit "more than {ceiling} streams are open at once" [.number c.localStreamCeiling])
    Act.modify fun c => { c with
      nextStreamId := c.nextStreamId + 2
      streams := c.streams.insert c.nextStreamId
        (.new c.settingsLocal.initialWindowSize c.settingsRemote.initialWindowSize) }
    note (.opened c.nextStreamId)
    return c.nextStreamId

/-- Sends the body, if there is one. -/
def writeBody (world : World) (id : ℕ) (body : Option Octets) (endStream : Bool) : Step Unit :=
  match body with
  | some body => writeData world id body endStream
  | none => pure ()

/-- Sends the trailers, if there are any. -/
def writeTrailers (id : ℕ) (trailers : Option (List HeaderField)) : Step Unit :=
  match trailers with
  | some fields => writeSection id fields true
  | none => pure ()

/-- Records on the stream that a message has gone out on it. -/
def finishSending (id : ℕ) (m : Message) (open' : Bool) : Step Unit := do
  modifyStream id fun stream =>
    { stream with
      state := if open' then stream.state else stream.state.closeLocal
      method := if m.isRequest then m.method else stream.method }
  retire id

/-- Sends a message on a stream. -/
def sendOn (world : World) (id : ℕ) (m : Message) : Step Unit := do
  let c ← Act.get
  let o ← Act.ofExcept (compose world (c.streams.lookup id) m)
  writeSection id o.fields (!o.open' && o.body.isNone && o.trailers.isNone)
  writeBody world id o.body o.trailers.isNone
  writeTrailers id o.trailers
  finishSending id o.message o.open'
  flushIfDrained

/-- Sends one whole message on a stream. -/
def sendMessage (world : World) (m : Message) : Step Unit := do
  let c ← Act.get
  start
  flushResets
  let id ← allocate (c.finalize world m)
  sendOn world id (c.finalize world m)

/-! ## Runs -/

/-- Marks a stream to be reset the next time the connection is driven. -/
def mark (id code : ℕ) : Step Unit := Act.modify fun c =>
  if (c.streams.lookup id).isSome then
    { c with
      streams := StreamMap.modify c.streams id fun stream =>
        { stream with state := .closed, pendingReset := some code }
      resets := true }
  else c

/-- Takes whatever body octets have arrived on a stream. -/
def drain (id : ℕ) : Step (Option Octets) := do
  let c ← Act.get
  modifyStream id fun stream => { stream with body := [] }
  return ((c.streams.lookup id).map (·.body)).filter (!·.isEmpty)

/-- Says goodbye. That it could not be said is not reported. -/
def close : Step Unit := fun c =>
  (.ok (), ((write (.goAway (c.nextStreamId - 2) Code.NO_ERROR [])).run c).2)

/-- What is done with a connection next. -/
inductive Event
  | receive
  | send (m : Message)
  | pump
  | relay
  | writeData (id : ℕ) (data : Octets) (endStream : Bool)
  | reset (id code : ℕ)
  | mark (id code : ℕ)
  | drain (id : ℕ)
  | close

/-- Does it: a message where one was received, nothing where none was. -/
def perform (world : World) : Event → Step (Option Message)
  | .receive => some <$> receiveMessage world
  | .send m => (fun _ => none) <$> sendMessage world m
  | .pump => H2Connection.pump world
  | .relay => H2Connection.relay world
  | .writeData id data endStream => (fun _ => none) <$> H2Connection.writeData world id data endStream
  | .reset id code => (fun _ => none) <$> H2Connection.reset id code
  | .mark id code => (fun _ => none) <$> H2Connection.mark id code
  | .drain id => (fun _ => none) <$> H2Connection.drain id
  | .close => (fun _ => none) <$> H2Connection.close

/-- Whether the transport failed, or something the peer sent was refused. -/
def Failed (c : H2Connection) : Prop := .failed ∈ c.passed

instance (c : H2Connection) : Decidable c.Failed := inferInstanceAs (Decidable (_ ∈ _))

/-- The connection after all that was done with it, whatever each came to. Nothing is done
    with one that failed. -/
def after : List (World × Event) → H2Connection → H2Connection
  | [], c => c
  | (world, event) :: events, c => if c.Failed then c else after events ((perform world event).run c).2

end H2Connection

end Soyokaze

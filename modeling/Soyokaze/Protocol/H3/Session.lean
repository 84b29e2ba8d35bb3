import Soyokaze.Lib.Act
import Soyokaze.Protocol.H3.Frames

/-!
# An HTTP/3 session

The protocol apart from the QUIC connection under it. Octets go in as they arrive on
a stream, and the messages they complete are held until they are taken. A stream whose
field section names table entries that have not arrived waits for them.

When a stream became blocked is a matter of the clock, and is not modelled.
-/

namespace Soyokaze

/-- The ceilings a session holds itself to. -/
structure H3Limits where
  maxMessageSize : ℕ
  maxMessageBodySize : ℕ
  maxDecompressedBodySize : ℕ
  maxHeadersSize : ℕ
  maxHeaderCount : ℕ
  maxConcurrentStreams : ℕ
  maxConnectionBufferSize : ℕ
  maxPrematureResets : ℕ
  maxRequestsPerConnection : ℕ
  maxEncoderTableSize : ℕ
  maxPeerUniStreams : ℕ
  maxOutstandingSections : ℕ
  maxBlockedStreams : ℕ
  deriving DecidableEq

/-- The ceilings a session has unless it is told others. -/
def H3Limits.default : H3Limits where
  maxMessageSize := 64 * 1024 * 1024
  maxMessageBodySize := 64 * 1024 * 1024
  maxDecompressedBodySize := 256 * 1024 * 1024
  maxHeadersSize := 64 * 1024
  maxHeaderCount := 100
  maxConcurrentStreams := 100
  maxConnectionBufferSize := 64 * 1024 * 1024
  maxPrematureResets := 1000
  maxRequestsPerConnection := 10000
  maxEncoderTableSize := 64 * 1024
  maxPeerUniStreams := 32
  maxOutstandingSections := 512
  maxBlockedStreams := 16

namespace QUICStreamID

/-- How far apart successive streams of one kind are numbered. -/
def STEP : ℕ := 4

/-- Whether an identifier names a bidirectional stream. -/
def isBidi (id : ℕ) : Bool := id / 2 % 2 == 0

/-- Whether the client opened the stream. -/
def clientInitiated (id : ℕ) : Bool := id % 2 == 0

/-- The first bidirectional stream a role may open. -/
def firstBidi (role : Role) : ℕ := if role.isClient then 0 else 1

/-- The first unidirectional stream a role may open. -/
def firstUni (role : Role) : ℕ := if role.isClient then 2 else 3

end QUICStreamID

namespace H3

/-! ## Settings -/

/-- The parameters one end of a connection has announced. -/
structure Settings where
  qpackMaxTableCapacity : ℕ
  qpackBlockedStreams : ℕ
  maxFieldSectionSize : Option ℕ
  enableConnectProtocol : Bool
  deriving DecidableEq

namespace Settings

def QPACK_MAX_TABLE_CAPACITY : ℕ := 0x01
def MAX_FIELD_SECTION_SIZE : ℕ := 0x06
def QPACK_BLOCKED_STREAMS : ℕ := 0x07
def ENABLE_CONNECT_PROTOCOL : ℕ := 0x08

/-- Identifiers reserved so that an HTTP/2 setting is not mistaken for one. -/
def RESERVED : List ℕ := [0x00, 0x02, 0x03, 0x04, 0x05]

/-- What a peer must be taken to have announced before its SETTINGS arrives. -/
def peer : Settings := ⟨Qpack.DynamicTable.DEFAULT_CAPACITY, 0, none, false⟩

/-- What this end announces. -/
def default : Settings := ⟨Qpack.Decoder.DEFAULT_MAX_CAPACITY, Qpack.Decoder.DEFAULT_MAX_BLOCKED_STREAMS, none, true⟩

/-- The parameters as they go on the wire. -/
def parameters (s : Settings) : List (ℕ × ℕ) :=
  [(QPACK_MAX_TABLE_CAPACITY, s.qpackMaxTableCapacity), (QPACK_BLOCKED_STREAMS, s.qpackBlockedStreams),
    (ENABLE_CONNECT_PROTOCOL, s.enableConnectProtocol.toNat)] ++
    (s.maxFieldSectionSize.map fun size => (MAX_FIELD_SECTION_SIZE, size)).toList

/-- Applies one parameter. -/
def apply (s : Settings) (id value : ℕ) : Except Error Settings :=
  if RESERVED.contains id then .error (.protocol "setting {id:#x} is reserved" [.number id])
  else if id = QPACK_MAX_TABLE_CAPACITY then .ok { s with qpackMaxTableCapacity := value }
  else if id = QPACK_BLOCKED_STREAMS then .ok { s with qpackBlockedStreams := value }
  else if id = MAX_FIELD_SECTION_SIZE then .ok { s with maxFieldSectionSize := some value }
  else if id = ENABLE_CONNECT_PROTOCOL then
    if 1 < value then .error (.protocol "SETTINGS_ENABLE_CONNECT_PROTOCOL is not a flag" [])
    else .ok { s with enableConnectProtocol := value == 1 }
  else .ok s

/-- Applies parameters one by one. -/
def applyAll (s : Settings) : List (ℕ × ℕ) → Except Error Settings
  | [] => .ok s
  | (id, value) :: params =>
    match s.apply id value with
    | .error error => .error error
    | .ok s => s.applyAll params

end Settings

/-! ## Streams -/

/-- What is known about one request stream. -/
structure StreamState where
  buffer : Octets
  body : Octets
  message : Option Message
  method : Option Method
  accepted : Option Compression
  pending : Option Octets
  eof : Bool
  delivered : Bool
  finished : Bool
  raw : Bool
  responded : Bool
  deriving DecidableEq

/-- A stream nothing has passed over. -/
def StreamState.new : StreamState := ⟨[], [], none, none, none, none, false, false, false, false, false⟩

/-- Whether the stream is finished with. A tunnel is not, while it is still relaying. -/
def StreamState.spent (state : StreamState) : Bool := state.finished && state.eof && state.delivered && !state.raw

end H3

open H3

/-- The state of an HTTP/3 connection, apart from QUIC. -/
structure H3Session where
  role : Role
  limits : H3Limits
  settingsLocal : Settings
  settingsRemote : Option Settings
  encoder : Qpack.Encoder
  decoder : Qpack.Decoder
  streams : StreamMap StreamState
  blockedSince : StreamMap Unit
  ready : List Message
  bufferedBound : ℕ
  controlRecv : Octets
  nextStreamId : ℕ
  highestPeerStreamId : ℕ
  totalStreams : ℕ
  goaway : Option ℕ
  goawaySent : Option ℕ
  /-- Whether the transport is a secure one. -/
  secure : Bool

namespace H3Session

/-- A session with nothing exchanged yet. -/
def new (role : Role) (limits : H3Limits) : H3Session where
  role := role
  limits := limits
  settingsLocal := { Settings.default with qpackBlockedStreams := limits.maxBlockedStreams }
  settingsRemote := none
  encoder :=
    let encoder := (Qpack.Encoder.new.setMaxOutstandingSections limits.maxOutstandingSections).setMaxInstructionSize
      limits.maxHeadersSize
    let (encoder, instruction) := encoder.setCapacityLimit limits.maxEncoderTableSize
    encoder.queue instruction.toList
  decoder :=
    (((Qpack.Decoder.new.setMaxCapacity Settings.default.qpackMaxTableCapacity).setMaxDecodedSize
      limits.maxHeadersSize).setMaxInstructionSize limits.maxHeadersSize).setMaxBlockedStreams limits.maxBlockedStreams
  streams := ∅
  blockedSince := ∅
  ready := []
  bufferedBound := 0
  controlRecv := []
  nextStreamId := QUICStreamID.firstBidi role
  highestPeerStreamId := 0
  totalStreams := 0
  goaway := none
  goawaySent := none
  secure := true

/-- A step of a session. -/
abbrev Step (α : Type) : Type := Act H3Session Error α

/-- Changes one stream, if it is there. -/
def modifyStream (id : ℕ) (f : StreamState → StreamState) : Step Unit :=
  Act.modify fun s => { s with streams := StreamMap.modify s.streams id f }

/-- Sees to it that a stream is there. -/
def entry (id : ℕ) : Step Unit := Act.modify fun s =>
  if (s.streams.lookup id).isSome then s else { s with streams := s.streams.insert id .new }

/-- One stream, which has to be there. -/
def stream (id : ℕ) : Step StreamState := fun s =>
  match s.streams.lookup id with
  | some state => (.ok state, s)
  | none => (.error .closed, s)

/-- Allocates the next bidirectional stream this end may open. -/
def openBidi : Step ℕ := do
  let s ← Act.get
  Act.modify fun s => { s with nextStreamId := s.nextStreamId + QUICStreamID.STEP }
  entry s.nextStreamId
  return s.nextStreamId

/-- How many request streams may be held at once. -/
def streamCeiling (s : H3Session) : ℕ := max (s.limits.maxConcurrentStreams * 2) 2

/-- Drops all state for a stream, and stops waiting on its acknowledgement. -/
def forget (id : ℕ) : Step Unit := Act.modify fun s => { s with
  blockedSince := s.blockedSince.erase id
  encoder := s.encoder.cancel id
  decoder := s.decoder.cancel id
  streams := s.streams.erase id }

/-- Drops a stream's state if it is spent. -/
def retire (id : ℕ) : Step Unit := do
  let s ← Act.get
  if ((s.streams.lookup id).map (·.spent)).getD false then forget id else pure ()

/-! ## Sending -/

/-- Encodes a field section as a frame. -/
def writeBlock (id : ℕ) (fields : List HeaderField) : Step Octets := fun s =>
  (.ok (Frame.write .headers (s.encoder.encode id fields).2), { s with encoder := (s.encoder.encode id fields).1 })

/-- The frame of a body, if it is not empty. -/
def writeBody : Option Body → Except Error Octets
  | none => .ok []
  | some body =>
    match body.inline with
    | none => .error (.protocol "a file body must be materialised before HTTP/3 encoding" [])
    | some octets => .ok (if octets.isEmpty then [] else (Frame.data octets).encode)

/-- The frame of trailers, if there are any. -/
def writeTrailers (id : ℕ) : Option Headers → Step Octets
  | none => pure []
  | some trailers => if trailers.fields.isEmpty then pure [] else writeBlock id trailers.fields

/-- Frames a message as HEADERS, DATA and trailing HEADERS: the octets, and whether the
    stream ends with them, which it does unless the message opens a tunnel. -/
def frameMessage (world : World) (id : ℕ) (m : Message) : Step (Octets × Bool) := do
  let s ← Act.get
  let state := s.streams.lookup id
  let m ← Act.ofExcept (m.compress world (if m.isResponse then state.bind (·.accepted) else none))
  -- A message that ends at its field section carries neither a body nor trailers.
  let framed := !m.bodyless (state.bind (·.method))
  let fields ← Act.ofExcept (Fields.write m)
  let head ← writeBlock id fields
  let body ← Act.ofExcept (writeBody (m.body.filter fun _ => framed))
  let trailers ← writeTrailers id (m.trailers.filter fun _ => framed)
  entry id
  modifyStream id fun state => if m.isRequest then { state with method := m.method } else state
  let state ← stream id
  let tunneling := m.tunneling state.method
  modifyStream id fun state => { state with finished := state.finished || !tunneling }
  return (head ++ body ++ trailers, !tunneling)

/-! ## Receiving on a request stream -/

/-- How far parsing a stream got. -/
inductive Progress
  /-- There may be more to parse. -/
  | again
  /-- There is not, yet. -/
  | stop
  /-- Nor will there be: the peer has finished. -/
  | finish

/-- Decodes a field block that arrived on a stream, and queues the acknowledgement it is
    owed. -/
def decodeBlock (id : ℕ) (block : Octets) : Step (Except Qpack.Error (List HeaderField)) := fun s =>
  match s.decoder.decode id block with
  | (decoder, .ok (fields, acknowledgment)) => (.ok (.ok fields), { s with decoder := decoder.queue acknowledgment.toList })
  | (decoder, .error error) => (.ok (.error error), { s with decoder := decoder })

/-- Takes one frame off what a stream has buffered. -/
def takeFrame (id : ℕ) (state : StreamState) : Step (Option Frame) := do
  modifyStream id fun state => { state with buffer := (Frame.parse state.buffer).2 }
  Act.ofExcept (Frame.parse state.buffer).1

/-- Folds a decoded field section into the stream's message: the first becomes the message,
    a second its trailers. One that opens a tunnel is delivered at once. -/
def absorbHeaders (world : World) (id : ℕ) (fields : List HeaderField) : Step Unit := do
  let s ← Act.get
  Act.demand (fields.length ≤ s.limits.maxHeaderCount)
    (.stream id Code.EXCESSIVE_LOAD "more than {limit} header fields" [.number s.limits.maxHeaderCount])
  let state ← stream id
  if state.message.isSome then do
    let trailers ← Act.ofExcept ((Fields.intoTrailers fields).mapError (·.onStream id Code.MESSAGE_ERROR))
    modifyStream id fun state =>
      { state with message := state.message.map fun m => { m with trailers := some trailers } }
  else do
    let m ← Act.ofExcept ((Fields.intoMessage fields .v3_0).mapError (·.onStream id Code.MESSAGE_ERROR))
    let m := { m with streamId := some id, secure := s.secure }
    modifyStream id fun state =>
      if m.isRequest then { state with method := m.method, accepted := m.accepted world.toCodecs } else state
    let state ← stream id
    if m.tunneling state.method then do
      modifyStream id fun state => { state with delivered := true, raw := true }
      Act.modify fun s => { s with ready := s.ready ++ [m] }
    else modifyStream id fun state => { state with message := some m }

/-- Takes up a field section, or holds it until the table entries it names have arrived. -/
def absorbBlock (world : World) (id : ℕ) (block : Octets) : Step Progress := do
  match ← decodeBlock id block with
  | .ok fields => do
    absorbHeaders world id fields
    return .again
  | .error .blocked => do
    let _ ← stream id
    modifyStream id fun state => { state with pending := some block }
    Act.modify fun s => if (s.blockedSince.lookup id).isSome then s else
      { s with blockedSince := s.blockedSince.insert id () }
    return .stop
  | .error error => Act.fail (.ofQpack error)

/-- Takes up the block a stream was waiting with. -/
def retryBlock (world : World) (id : ℕ) (block : Octets) : Step Progress := do
  match ← decodeBlock id block with
  | .ok fields => do
    let _ ← stream id
    modifyStream id fun state => { state with pending := none }
    Act.modify fun s => { s with blockedSince := s.blockedSince.erase id }
    absorbHeaders world id fields
    return .again
  | .error .blocked => return .stop
  | .error error => Act.fail (.ofQpack error)

/-- Takes up body octets. -/
def absorbData (id : ℕ) (octets : Octets) : Step Progress := do
  let s ← Act.get
  let state ← stream id
  Act.demand state.message.isSome (.protocol "DATA arrived before HEADERS" [])
  modifyStream id fun state => { state with body := state.body ++ octets }
  Act.demand ((state.body ++ octets).length ≤ s.limits.maxMessageBodySize)
    (.stream id Code.EXCESSIVE_LOAD "body exceeds {limit} octets" [.number s.limits.maxMessageBodySize])
  return .again

/-- Takes up one frame of a request stream. -/
def absorbFrame (world : World) (id : ℕ) : Frame → Step Progress
  | .headers block => do
    let s ← Act.get
    Act.demand (block.length ≤ s.limits.maxHeadersSize)
      (.stream id Code.EXCESSIVE_LOAD "field section exceeds {limit} octets" [.number s.limits.maxHeadersSize])
    absorbBlock world id block
  | .data octets => absorbData id octets
  | .settings _ | .goAway _ | .maxPushId _ | .cancelPush _ =>
    Act.fail (.protocol "a control frame arrived on a request stream" [])
  | .pushPromise .. => Act.fail (.protocol "PUSH_PROMISE arrived with push disabled" [])

/-- One round of parsing a stream. -/
def advanceOnce (world : World) (id : ℕ) : Step Progress := do
  let s ← Act.get
  match s.streams.lookup id with
  | none => return .stop
  | some state =>
    if state.raw then return .stop
    else match state.pending with
      | some block => retryBlock world id block
      | none => do
        match ← takeFrame id state with
        | some frame => absorbFrame world id frame
        | none => return if state.eof then .finish else .stop

/-- Delivers the message of a stream whose peer has finished. -/
def deliver (id : ℕ) : Step Unit := do
  let state ← stream id
  if state.delivered then retire id
  else match state.message with
    | none => Act.fail (.stream id Code.REQUEST_INCOMPLETE "request stream carried no field section" [])
    | some m => do
      let m := if state.body.isEmpty then m else { m with body := some (.data state.body) }
      modifyStream id fun state => { state with message := none, body := [], delivered := true }
      Act.modify fun s => { s with ready := s.ready ++ [m] }
      retire id

/-- Parses as far as it can on one stream. Every round but one takes octets off the buffer,
    which `fuel` is more than. -/
def advanceLoop (world : World) (id : ℕ) : ℕ → Step Unit
  | 0 => pure ()
  | fuel + 1 => do
    match ← advanceOnce world id with
    | .again => advanceLoop world id fuel
    | .stop => pure ()
    | .finish => deliver id

/-- Parses as far as it can on one stream, and delivers the message if it completes. -/
def advance (world : World) (id : ℕ) : Step Unit := do
  let s ← Act.get
  advanceLoop world id (((s.streams.lookup id).map (·.buffer.length)).getD 0 + 2)

/-- How much unparsed and unread data the session is holding across all its streams. -/
def buffered (s : H3Session) : ℕ :=
  s.streams.values.foldr (fun state held => state.buffer.length + state.body.length + held) 0

/-- Whether the session is holding more than its ceiling across all of its streams. -/
def overbuffered : Step Bool := fun s =>
  if s.bufferedBound ≤ s.limits.maxConnectionBufferSize then (.ok false, s)
  else (.ok (s.limits.maxConnectionBufferSize < s.buffered), { s with bufferedBound := s.buffered })

/-- Counts a stream that is new, if there is room for it. -/
def admitStream (id : ℕ) : Step Unit := do
  let s ← Act.get
  if (s.streams.lookup id).isSome then pure ()
  else do
    Act.demand (s.streams.entries.length < s.streamCeiling)
      (.stream id Code.EXCESSIVE_LOAD "more than {ceiling} streams are held open at once" [.number s.streamCeiling])
    Act.modify fun s => { s with
      totalStreams := s.totalStreams + 1, highestPeerStreamId := max s.highestPeerStreamId id }

/-- Takes in octets from a request stream. -/
def onStreamBytes (world : World) (id : ℕ) (bytes : Octets) (fin : Bool) : Step Unit := do
  admitStream id
  entry id
  modifyStream id fun state => { state with buffer := state.buffer ++ bytes, eof := state.eof || fin }
  let state ← stream id
  Act.modify fun s => { s with bufferedBound := min (s.bufferedBound + bytes.length) (2 ^ 64 - 1) }
  let s ← Act.get
  Act.demand (state.buffer.length ≤ s.limits.maxMessageSize)
    (.stream id Code.EXCESSIVE_LOAD "unparsed stream data exceeds {limit} octets" [.number s.limits.maxMessageSize])
  let exceeding ← overbuffered
  Act.demand (!exceeding) (.limit "buffered messages exceed {limit} octets" [.number s.limits.maxConnectionBufferSize])
  advance world id

/-! ## Receiving on the other streams -/

/-- The error an instruction stream that could not be read is reported as. -/
def instructionError (s : H3Session) (kind : String) : Qpack.Error → Error
  | .instructionTooLarge => .limit (kind ++ " instruction exceeds {limit} octets") [.number s.limits.maxHeadersSize]
  | error => .ofQpack error

/-- Goes on with each of these streams. -/
def advanceAll (world : World) : List ℕ → Step Unit
  | [] => pure ()
  | id :: ids => do
    advance world id
    advanceAll world ids

/-- Takes in octets from the peer's encoder stream, and goes on with the streams that waited
    for them. -/
def onEncoderBytes (world : World) (bytes : Octets) : Step Unit := do
  let s ← Act.get
  let (decoder, error) := s.decoder.onEncoderStream bytes
  Act.modify fun s => { s with decoder := decoder }
  match error with
  | some error => Act.fail (s.instructionError "an encoder" error)
  | none => if s.blockedSince.entries.isEmpty then pure () else advanceAll world decoder.unblocked

/-- Takes in octets from the peer's decoder stream. -/
def onDecoderBytes (bytes : Octets) : Step Unit := do
  let s ← Act.get
  let (encoder, error) := s.encoder.onDecoderStream bytes
  Act.modify fun s => { s with encoder := encoder }
  match error with
  | some error => Act.fail (s.instructionError "a decoder" error)
  | none => pure ()

/-- Adopts the peer's settings, and sizes the encoder's table to match. -/
def applyPeerSettings (settings : Settings) : Step Unit := Act.modify fun s =>
  let (encoder, instruction) := s.encoder.setMaxCapacity settings.qpackMaxTableCapacity
  { s with encoder := encoder.queue instruction.toList, settingsRemote := some settings }

/-- Takes up one frame of the control stream. -/
def absorbControl : Frame → Step Unit
  | .settings params => do
    let s ← Act.get
    Act.demand s.settingsRemote.isNone (.protocol "a second SETTINGS frame arrived on the control stream" [])
    let settings ← Act.ofExcept (Settings.peer.applyAll params)
    applyPeerSettings settings
  | .goAway id => Act.modify fun s => { s with goaway := some (match s.goaway with
      | some earlier => min earlier id
      | none => id) }
  | .maxPushId _ | .cancelPush _ => pure ()
  | _ => Act.fail (.protocol "an unexpected frame arrived on the control stream" [])

/-- Takes up the frames of the control stream that have arrived. Each takes octets off what
    is buffered, which `fuel` is more than. -/
def controlLoop : ℕ → Step Unit
  | 0 => pure ()
  | fuel + 1 => do
    let s ← Act.get
    Act.modify fun s => { s with controlRecv := (Frame.parse s.controlRecv).2 }
    match ← Act.ofExcept (Frame.parse s.controlRecv).1 with
    | none => pure ()
    | some frame => do
      absorbControl frame
      controlLoop fuel

/-- Takes in octets from the peer's control stream. -/
def onControlBytes (bytes : Octets) : Step Unit := do
  Act.modify fun s => { s with controlRecv := s.controlRecv ++ bytes }
  let s ← Act.get
  Act.demand (s.controlRecv.length ≤ s.limits.maxHeadersSize)
    (.limit "a control frame exceeds {limit} octets" [.number s.limits.maxHeadersSize])
  controlLoop (s.controlRecv.length + 1)

/-- Takes the next completed message, if there is one. -/
def takeReady : Step (Option Message) := fun s =>
  match s.ready with
  | m :: ready => (.ok (some m), { s with ready := ready })
  | [] => (.ok none, s)

end H3Session

end Soyokaze

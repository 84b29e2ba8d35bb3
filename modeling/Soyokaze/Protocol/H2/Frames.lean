import Soyokaze.Lib.Act
import Soyokaze.Protocol.Common

/-!
# The frames of HTTP/2

Frames on and off the wire: the header every one begins with, the payload each type
has, and the settings a SETTINGS frame carries. Padding is stripped here, so what a
frame holds can be shorter than the payload its header announced.

* `Frame.data_of_assemble`: a DATA frame holds all of its payload where it is not
  padded, and less where it is;
* `Settings.Lawful.applyAll`: whatever parameters are applied, what they leave is
  within its bounds.
-/

namespace Soyokaze

/-- The number big-endian octets spell. -/
def fromBeBytes (octets : Octets) : ℕ := octets.foldl (fun value octet => value * 256 + octet.toNat) 0

/-- A `u32` as its four octets, the most significant first. -/
def u32Bytes (value : ℕ) : Octets :=
  [.ofNat (value / 2 ^ 24), .ofNat (value / 2 ^ 16), .ofNat (value / 2 ^ 8), .ofNat value]

/-- A `u16` as its two octets, the most significant first. -/
def u16Bytes (value : ℕ) : Octets := [.ofNat (value / 2 ^ 8), .ofNat value]

namespace H2

/-- What a client sends before anything else. -/
def PREFACE : Octets := lit "PRI * HTTP/2.0\r\n\r\nSM\r\n\r\n"

namespace Code

def NO_ERROR : ℕ := 0x0
def FLOW_CONTROL_ERROR : ℕ := 0x3
def STREAM_CLOSED : ℕ := 0x5
def ENHANCE_YOUR_CALM : ℕ := 0xb

end Code

namespace Flag

/-- The last frame this end will send on the stream. -/
def END_STREAM : UInt8 := 0x1
/-- An acknowledgement of the peer's SETTINGS or PING. -/
def ACK : UInt8 := 0x1
/-- The field section ends here. -/
def END_HEADERS : UInt8 := 0x4
/-- The payload begins with a padding length and ends with padding. -/
def PADDED : UInt8 := 0x8
/-- A HEADERS frame carries priority information before its block. -/
def PRIORITY : UInt8 := 0x20

/-- Whether a flag is set. -/
def isSet (flags flag : UInt8) : Bool := flags &&& flag != 0

end Flag

/-- The kind of a frame. -/
inductive FrameType
  | data | headers | priority | rstStream | settings | pushPromise | ping | goAway | windowUpdate | continuation
  deriving DecidableEq

namespace FrameType

/-- The types there are, each at the place its code names. -/
def ALL : List FrameType :=
  [data, headers, priority, rstStream, settings, pushPromise, ping, goAway, windowUpdate, continuation]

/-- The code that goes on the wire. -/
def code : FrameType → UInt8
  | data => 0x0
  | headers => 0x1
  | priority => 0x2
  | rstStream => 0x3
  | settings => 0x4
  | pushPromise => 0x5
  | ping => 0x6
  | goAway => 0x7
  | windowUpdate => 0x8
  | continuation => 0x9

/-- The type a code names. -/
def fromCode (code : UInt8) : Option FrameType := ALL[code.toNat]?

/-- The type as an error names it. -/
def text : FrameType → String
  | data => "Data"
  | headers => "Headers"
  | priority => "Priority"
  | rstStream => "RstStream"
  | settings => "Settings"
  | pushPromise => "PushPromise"
  | ping => "Ping"
  | goAway => "GoAway"
  | windowUpdate => "WindowUpdate"
  | continuation => "Continuation"

/-- Whether this type belongs on a stream, or on the connection, or on either. -/
def streamed : FrameType → Option Bool
  | data | headers | priority | rstStream | pushPromise | continuation => some true
  | settings | ping | goAway => some false
  | windowUpdate => none

/-- Whether frames of this type may be padded. -/
def paddable : FrameType → Bool
  | data | headers | pushPromise => true
  | _ => false

theorem fromCode_code (kind : FrameType) : fromCode kind.code = some kind := by cases kind <;> rfl

end FrameType

/-! ## Headers -/

/-- What every frame begins with. -/
structure FrameHeader where
  length : ℕ
  kind : FrameType
  flags : UInt8
  streamId : ℕ
  deriving DecidableEq

namespace FrameHeader

/-- The size of a header on the wire. -/
def SIZE : ℕ := 9

/-- The header as it is written: the low 24 bits of its length, and the low 31 of its
    stream. -/
def encode (header : FrameHeader) : Octets :=
  (u32Bytes header.length).drop 1 ++ [header.kind.code, header.flags] ++ u32Bytes (header.streamId % 2 ^ 31)

/-- The length nine octets announce, and the header they are, unless its type is unknown. -/
def decode (octets : Octets) : ℕ × Option FrameHeader :=
  let length := fromBeBytes (octets.take 3)
  (length, (FrameType.fromCode (octets.getD 3 0)).map fun kind =>
    ⟨length, kind, octets.getD 4 0, fromBeBytes ((octets.drop 5).take 4) % 2 ^ 31⟩)

/-- Whether this is the header of a padded DATA frame. -/
def padded (header : FrameHeader) : Bool := header.kind = .data && Flag.isSet header.flags Flag.PADDED

end FrameHeader

/-! ## Frames -/

/-- One frame, its padding left off. -/
inductive Frame
  | data (streamId : ℕ) (endStream : Bool) (data : Octets)
  | headers (streamId : ℕ) (endStream endHeaders : Bool) (block : Octets)
  | priority (streamId dependency : ℕ) (exclusive : Bool) (weight : UInt8)
  | rstStream (streamId errorCode : ℕ)
  | settings (ack : Bool) (params : List (ℕ × ℕ))
  | pushPromise (streamId promisedStreamId : ℕ) (block : Octets)
  | ping (ack : Bool) (payload : Octets)
  | goAway (lastStreamId errorCode : ℕ) (debugData : Octets)
  | windowUpdate (streamId increment : ℕ)
  | continuation (streamId : ℕ) (endHeaders : Bool) (block : Octets)
  deriving DecidableEq

namespace Frame

/-- The frame's type. -/
def kind : Frame → FrameType
  | data .. => .data
  | headers .. => .headers
  | priority .. => .priority
  | rstStream .. => .rstStream
  | settings .. => .settings
  | pushPromise .. => .pushPromise
  | ping .. => .ping
  | goAway .. => .goAway
  | windowUpdate .. => .windowUpdate
  | continuation .. => .continuation

/-- The stream the frame belongs to, or zero for the connection. -/
def streamId : Frame → ℕ
  | data id .. | headers id .. | priority id .. | rstStream id .. | pushPromise id .. | windowUpdate id ..
  | continuation id .. => id
  | settings .. | ping .. | goAway .. => 0

/-- A flag where a condition holds, and none where it does not. -/
def flagIf (condition : Bool) (flag : UInt8) : UInt8 := if condition then flag else 0

/-- The flags the frame goes out with. It is never padded. -/
def flags : Frame → UInt8
  | data _ endStream _ => flagIf endStream Flag.END_STREAM
  | headers _ endStream endHeaders _ => flagIf endStream Flag.END_STREAM ||| flagIf endHeaders Flag.END_HEADERS
  | settings ack _ | ping ack _ => flagIf ack Flag.ACK
  | pushPromise .. => Flag.END_HEADERS
  | continuation _ endHeaders _ => flagIf endHeaders Flag.END_HEADERS
  | priority .. | rstStream .. | goAway .. | windowUpdate .. => 0

/-- The payload. -/
def payload : Frame → Octets
  | data _ _ octets => octets
  | headers _ _ _ block | continuation _ _ block => block
  | priority _ dependency exclusive weight =>
    u32Bytes (dependency ||| if exclusive then 2 ^ 31 else 0) ++ [weight]
  | rstStream _ errorCode => u32Bytes errorCode
  | settings _ params => params.flatMap fun (id, value) => u16Bytes id ++ u32Bytes value
  | pushPromise _ promised block => u32Bytes promised ++ block
  | ping _ payload => payload
  | goAway last errorCode debugData => u32Bytes last ++ u32Bytes errorCode ++ debugData
  | windowUpdate _ increment => u32Bytes increment

/-- The whole frame, header included. -/
def encode (frame : Frame) : Octets :=
  FrameHeader.encode ⟨frame.payload.length, frame.kind, frame.flags, frame.streamId⟩ ++ frame.payload

/-- The length of the frame at the front of a buffer and the header it has, once it is
    there in whole. -/
def whole (maxFrameSize : ℕ) (data : Octets) : Option (Except Error (ℕ × Option FrameHeader)) :=
  if data.length < FrameHeader.SIZE then none
  else
    let (length, header) := FrameHeader.decode data
    if maxFrameSize < length then
      some (.error (.limit "frame of {length} octets exceeds the advertised maximum" [.number length]))
    else if data.length < FrameHeader.SIZE + length then none
    else some (.ok (length, header))

/-- A payload without its padding. -/
def unpad : Octets → Except Error Octets
  | [] => .error (.protocol "padded frame is empty" [])
  | payload@(padding :: _) =>
    if payload.length ≤ padding.toNat then .error (.protocol "padding is longer than the frame payload" [])
    else .ok ((payload.take (payload.length - padding.toNat)).drop 1)

/-- A payload that must be of so many octets. -/
def exact (length : ℕ) (name : String) (payload : Octets) : Except Error Octets :=
  if payload.length = length then .ok payload
  else .error (.protocol "{name} length is {length} rather than {N}"
    [.text (lit name), .number payload.length, .number length])

/-- The parameters of a SETTINGS payload. -/
def params : Octets → List (ℕ × ℕ)
  | a :: b :: c :: d :: e :: f :: rest => (fromBeBytes [a, b], fromBeBytes [c, d, e, f]) :: params rest
  | _ => []

/-- The frame a payload is, its padding left off. -/
def ofPayload (header : FrameHeader) (payload : Octets) : Except Error Frame :=
  let id := header.streamId
  match header.kind with
  | .data => .ok (.data id (Flag.isSet header.flags Flag.END_STREAM) payload)
  | .headers =>
    let endStream := Flag.isSet header.flags Flag.END_STREAM
    let endHeaders := Flag.isSet header.flags Flag.END_HEADERS
    if Flag.isSet header.flags Flag.PRIORITY then
      if payload.length < 5 then .error (.protocol "HEADERS is too short for its priority" [])
      else .ok (.headers id endStream endHeaders (payload.drop 5))
    else .ok (.headers id endStream endHeaders payload)
  | .priority =>
    (exact 5 "PRIORITY" payload).map fun payload =>
      let dependency := fromBeBytes (payload.take 4)
      .priority id (dependency % 2 ^ 31) (2 ^ 31 ≤ dependency) (payload.getD 4 0)
  | .rstStream => (exact 4 "RST_STREAM" payload).map fun payload => .rstStream id (fromBeBytes payload)
  | .settings =>
    let ack := Flag.isSet header.flags Flag.ACK
    if ack && !payload.isEmpty then .error (.protocol "SETTINGS acknowledgement carries a payload" [])
    else if payload.length % 6 ≠ 0 then .error (.protocol "SETTINGS length is not a multiple of six" [])
    else .ok (.settings ack (params payload))
  | .pushPromise =>
    if payload.length < 4 then .error (.protocol "PUSH_PROMISE is too short" [])
    else .ok (.pushPromise id (fromBeBytes (payload.take 4) % 2 ^ 31) (payload.drop 4))
  | .ping => (exact 8 "PING" payload).map fun payload => .ping (Flag.isSet header.flags Flag.ACK) payload
  | .goAway =>
    if payload.length < 8 then .error (.protocol "GOAWAY is too short" [])
    else .ok (.goAway (fromBeBytes (payload.take 4) % 2 ^ 31) (fromBeBytes ((payload.drop 4).take 4)) (payload.drop 8))
  | .windowUpdate =>
    match exact 4 "WINDOW_UPDATE" payload with
    | .error error => .error error
    | .ok payload =>
      let increment := fromBeBytes payload % 2 ^ 31
      if increment = 0 then .error (.protocol "WINDOW_UPDATE increment is zero" [])
      else .ok (.windowUpdate id increment)
  | .continuation => .ok (.continuation id (Flag.isSet header.flags Flag.END_HEADERS) payload)

/-- The frame a header and its payload are. -/
def assemble (header : FrameHeader) (payload : Octets) : Except Error Frame :=
  if payload.length ≠ header.length then
    .error (.protocol "frame payload does not match its declared length" [])
  else if header.kind.streamed == some (header.streamId == 0) then
    .error (.protocol "{kind} frame on stream {id}" [.text (lit header.kind.text), .number header.streamId])
  else if Flag.isSet header.flags Flag.PADDED && header.kind.paddable then
    match unpad payload with
    | .error error => .error error
    | .ok payload => ofPayload header payload
  else ofPayload header payload

/-- A frame that is there in whole is no longer than is let past, nor than what is there. -/
theorem of_whole {maxFrameSize length : ℕ} {data : Octets} {header : Option FrameHeader}
    (h : whole maxFrameSize data = some (.ok (length, header))) :
    length ≤ maxFrameSize ∧ FrameHeader.SIZE + length ≤ data.length ∧ ∀ header' ∈ header, header'.length = length := by
  rcases hdecode : FrameHeader.decode data with ⟨length', header'⟩
  rw [whole, hdecode] at h
  split_ifs at h
  dsimp only at h
  split_ifs at h with hmax hdata
  · cases h
  obtain ⟨rfl, rfl⟩ := Prod.mk.inj (Except.ok.inj (Option.some.inj h))
  refine ⟨Nat.le_of_not_lt hmax, Nat.le_of_not_lt hdata, fun header'' hheader => ?_⟩
  obtain ⟨rfl, rfl⟩ := Prod.mk.inj hdecode
  obtain ⟨kind, -, rfl⟩ := Option.map_eq_some_iff.1 hheader
  rfl

/-! ### What a payload keeps of its kind -/

theorem exact_eq_ok {length : ℕ} {name : String} {payload out : Octets} (h : exact length name payload = .ok out) :
    out = payload ∧ payload.length = length := by
  rw [exact] at h
  split_ifs at h with hlength
  cases h
  exact ⟨rfl, hlength⟩

theorem length_unpad {payload out : Octets} (h : unpad payload = .ok out) : out.length < payload.length := by
  rw [unpad.eq_def] at h
  split at h
  · cases h
  · split_ifs at h with hpadding
    cases h
    rw [List.length_drop, List.length_take]
    have := Nat.min_le_right
    omega

theorem kind_ofPayload {header : FrameHeader} {payload : Octets} {frame : Frame}
    (h : ofPayload header payload = .ok frame) : frame.kind = header.kind := by
  rw [ofPayload] at h
  split at h
  case h_5 hkind =>
    dsimp only at h
    split_ifs at h
    cases h
    exact hkind.symm
  case h_9 hkind =>
    dsimp only at h
    split at h
    · cases h
    · split_ifs at h
      cases h
      exact hkind.symm
  case h_3 hkind | h_4 hkind | h_7 hkind =>
    obtain ⟨payload, -, rfl⟩ := Except.map_eq_ok h
    exact hkind.symm
  all_goals
    try split_ifs at h
    all_goals
      cases h
      exact Eq.symm ‹_›

/-- What was assembled, the padding off. -/
theorem of_assemble {header : FrameHeader} {payload : Octets} {frame : Frame}
    (h : assemble header payload = .ok frame) :
    payload.length = header.length ∧ ∃ inner, ofPayload header inner = .ok frame ∧
      ((Flag.isSet header.flags Flag.PADDED && header.kind.paddable) = false ∧ inner = payload ∨
        (Flag.isSet header.flags Flag.PADDED && header.kind.paddable) = true ∧ inner.length < payload.length) := by
  rw [assemble] at h
  split_ifs at h with hlength hstreamed hpadded
  · split at h
    · cases h
    · next inner hunpad => exact ⟨not_not.1 hlength, inner, h, Or.inr ⟨hpadded, length_unpad hunpad⟩⟩
  · exact ⟨not_not.1 hlength, payload, h, Or.inl ⟨Bool.eq_false_iff.2 hpadded, rfl⟩⟩

theorem kind_assemble {header : FrameHeader} {payload : Octets} {frame : Frame}
    (h : assemble header payload = .ok frame) : frame.kind = header.kind := by
  obtain ⟨-, inner, hinner, -⟩ := of_assemble h
  exact kind_ofPayload hinner

/-- A DATA frame is on the stream its header names. -/
theorem data_of_assemble {header : FrameHeader} {payload data : Octets} {id : ℕ} {endStream : Bool}
    (h : assemble header payload = .ok (.data id endStream data)) :
    header.kind = .data ∧ header.streamId = id ∧ payload.length = header.length ∧
      (header.padded = false ∧ data.length = header.length ∨ header.padded = true ∧ data.length < header.length) := by
  have hkind : header.kind = .data := (kind_assemble h).symm
  obtain ⟨hlength, inner, hinner, hpadded⟩ := of_assemble h
  rw [ofPayload, hkind] at hinner
  cases hinner
  rw [hkind] at hpadded
  refine ⟨hkind, rfl, hlength, ?_⟩
  rw [FrameHeader.padded, hkind, ← hlength]
  rcases hpadded with ⟨hflag, rfl⟩ | ⟨hflag, hlt⟩
  · exact Or.inl ⟨by simpa [FrameType.paddable] using hflag, rfl⟩
  · exact Or.inr ⟨by simpa [FrameType.paddable] using hflag, hlt⟩

end Frame

/-! ## Settings -/

/-- The parameters one end of a connection has announced. -/
structure Settings where
  headerTableSize : ℕ
  enablePush : Bool
  maxConcurrentStreams : Option ℕ
  initialWindowSize : ℕ
  maxFrameSize : ℕ
  maxHeaderListSize : Option ℕ
  enableConnectProtocol : Bool
  deriving DecidableEq

namespace Settings

def HEADER_TABLE_SIZE : ℕ := 0x1
def ENABLE_PUSH : ℕ := 0x2
def MAX_CONCURRENT_STREAMS : ℕ := 0x3
def INITIAL_WINDOW_SIZE : ℕ := 0x4
def MAX_FRAME_SIZE : ℕ := 0x5
def MAX_HEADER_LIST_SIZE : ℕ := 0x6
def ENABLE_CONNECT_PROTOCOL : ℕ := 0x8

/-- The window both ends assume before any setting says otherwise. -/
def DEFAULT_INITIAL_WINDOW_SIZE : ℕ := 65535
/-- The frame size both ends assume, and the smallest that may be negotiated. -/
def DEFAULT_MAX_FRAME_SIZE : ℕ := 16384
/-- The largest frame size that may be negotiated. -/
def MAXIMUM_FRAME_SIZE : ℕ := 16777215
/-- The largest a window may reach. -/
def MAXIMUM_WINDOW_SIZE : ℕ := 0x7fffffff

/-- What a peer must be taken to have announced before its SETTINGS arrives. -/
def peer : Settings where
  headerTableSize := Hpack.DynamicTable.DEFAULT_CAPACITY
  enablePush := true
  maxConcurrentStreams := none
  initialWindowSize := DEFAULT_INITIAL_WINDOW_SIZE
  maxFrameSize := DEFAULT_MAX_FRAME_SIZE
  maxHeaderListSize := none
  enableConnectProtocol := false

/-- What this end announces. -/
def default : Settings where
  headerTableSize := Hpack.DynamicTable.DEFAULT_CAPACITY
  enablePush := false
  maxConcurrentStreams := none
  initialWindowSize := DEFAULT_INITIAL_WINDOW_SIZE
  maxFrameSize := DEFAULT_MAX_FRAME_SIZE
  maxHeaderListSize := none
  enableConnectProtocol := true

/-- The parameters as they go on the wire. -/
def parameters (s : Settings) : List (ℕ × ℕ) :=
  [(HEADER_TABLE_SIZE, s.headerTableSize), (ENABLE_PUSH, s.enablePush.toNat),
    (INITIAL_WINDOW_SIZE, s.initialWindowSize), (MAX_FRAME_SIZE, s.maxFrameSize),
    (ENABLE_CONNECT_PROTOCOL, s.enableConnectProtocol.toNat)] ++
    (s.maxConcurrentStreams.map fun streams => (MAX_CONCURRENT_STREAMS, streams)).toList ++
    (s.maxHeaderListSize.map fun size => (MAX_HEADER_LIST_SIZE, size)).toList

/-- Applies one parameter. -/
def apply (s : Settings) (id value : ℕ) : Except Error Settings :=
  if id = HEADER_TABLE_SIZE then .ok { s with headerTableSize := value }
  else if id = ENABLE_PUSH then
    if 1 < value then .error (.protocol "SETTINGS_ENABLE_PUSH is not a flag" [])
    else .ok { s with enablePush := value == 1 }
  else if id = MAX_CONCURRENT_STREAMS then .ok { s with maxConcurrentStreams := some value }
  else if id = INITIAL_WINDOW_SIZE then
    if MAXIMUM_WINDOW_SIZE < value then .error (.protocol "SETTINGS_INITIAL_WINDOW_SIZE is above the maximum" [])
    else .ok { s with initialWindowSize := value }
  else if id = MAX_FRAME_SIZE then
    if DEFAULT_MAX_FRAME_SIZE ≤ value ∧ value ≤ MAXIMUM_FRAME_SIZE then .ok { s with maxFrameSize := value }
    else .error (.protocol "SETTINGS_MAX_FRAME_SIZE is outside the permitted range" [])
  else if id = MAX_HEADER_LIST_SIZE then .ok { s with maxHeaderListSize := some value }
  else if id = ENABLE_CONNECT_PROTOCOL then
    if 1 < value then .error (.protocol "SETTINGS_ENABLE_CONNECT_PROTOCOL is not a flag" [])
    else .ok { s with enableConnectProtocol := value == 1 }
  else .ok s

/-- Applies parameters one by one, and keeps those before the first that is refused. -/
def applyAll (s : Settings) : List (ℕ × ℕ) → Except Error Unit × Settings
  | [] => (.ok (), s)
  | (id, value) :: params =>
    match s.apply id value with
    | .error error => (.error error, s)
    | .ok s => s.applyAll params

/-- The bounds no parameter is let past. -/
def Lawful (s : Settings) : Prop :=
  s.initialWindowSize ≤ MAXIMUM_WINDOW_SIZE ∧ DEFAULT_MAX_FRAME_SIZE ≤ s.maxFrameSize ∧
    s.maxFrameSize ≤ MAXIMUM_FRAME_SIZE

theorem lawful_peer : Lawful peer := ⟨by decide, by decide, by decide⟩

theorem Lawful.apply {s s' : Settings} {id value : ℕ} (hs : Lawful s) (h : s.apply id value = .ok s') : Lawful s' := by
  rw [Settings.apply] at h
  obtain ⟨hwindow, hlow, hhigh⟩ := hs
  split_ifs at h <;> cases h
  all_goals first
    | exact ⟨hwindow, hlow, hhigh⟩
    | exact ⟨Nat.le_of_not_lt ‹_›, hlow, hhigh⟩
    | exact ⟨hwindow, ‹_ ∧ _›⟩

/-- Whatever parameters are applied, what they leave is within its bounds. -/
theorem Lawful.applyAll {s : Settings} (hs : Lawful s) (params : List (ℕ × ℕ)) : Lawful (s.applyAll params).2 := by
  induction params generalizing s with
  | nil => exact hs
  | cons param params ih =>
    obtain ⟨id, value⟩ := param
    rw [Settings.applyAll]
    split
    · exact hs
    · next s' happly => exact ih (hs.apply happly)

end Settings

end H2

end Soyokaze

import Soyokaze.Protocol.Common

/-!
# HTTP/3 frames

Frames on and off the wire, and the parameters a SETTINGS frame carries. A frame
names no stream, as it belongs to the one it arrives on.

* `Varint.decode_encode`: a variable-length integer is read back as it was written;
* `Frame.parse_written`: so is a frame of field or body octets, whatever follows it.
-/

namespace Soyokaze

/-- A number as so many big-endian octets, less what does not fit them. -/
def toBeBytes : ℕ → ℕ → Octets
  | 0, _ => []
  | count + 1, value => .ofNat (value / 256 ^ count) :: toBeBytes count value

@[simp] theorem length_toBeBytes (count value : ℕ) : (toBeBytes count value).length = count := by
  induction count with
  | zero => rfl
  | succ count ih => rw [toBeBytes, List.length_cons, ih]

/-- Octets are read behind what was read before them. -/
theorem foldl_toBeBytes (count value start : ℕ) :
    (toBeBytes count value).foldl (fun value octet => value * 256 + octet.toNat) start =
      start * 256 ^ count + value % 256 ^ count := by
  induction count generalizing start with
  | zero => simp [toBeBytes, Nat.mod_one]
  | succ count ih =>
    have hoctet : (UInt8.ofNat (value / 256 ^ count)).toNat = value / 256 ^ count % 256 := UInt8.toNat_ofNat'
    rw [toBeBytes, List.foldl_cons, ih, hoctet, Nat.mod_pow_succ]
    ring

/-! ## Variable-length integers -/

namespace Varint

/-- The largest value there is. -/
def MAXIMUM : ℕ := 2 ^ 62 - 1

/-- The most octets a value takes. -/
def MAX_SIZE : ℕ := 8

/-- How many octets a value takes. -/
def len (value : ℕ) : ℕ :=
  if value ≤ 0x3f then 1 else if value ≤ 0x3fff then 2 else if value ≤ 0x3fffffff then 4 else 8

/-- A value in the shortest form that holds it. -/
def encode (value : ℕ) : Octets :=
  match len value with
  | 1 => [.ofNat value]
  | 2 => toBeBytes 2 (value % 2 ^ 16 ||| 0x4000)
  | 4 => toBeBytes 4 (value % 2 ^ 32 ||| 0x80000000)
  | _ => toBeBytes 8 (value ||| 0xc000000000000000)

/-- How many octets the value at the front takes, and the value; none where it has not all
    arrived. -/
def decode : Octets → ℕ × ℕ
  | [] => (0, 0)
  | first :: rest =>
    let length := 2 ^ (first.toNat / 64)
    if rest.length + 1 < length then (0, 0)
    else (length, (rest.take (length - 1)).foldl (fun value octet => value * 256 + octet.toNat) (first.toNat % 64))

/-- A payload that is one value. -/
def only (payload : Octets) (name : String) : Except Error ℕ :=
  let (consumed, value) := decode payload
  if consumed = 0 ∨ consumed ≠ payload.length then
    .error (.protocol "{name} payload is not a single variable-length integer" [.text (lit name)])
  else .ok value

/-- What two high bits on top of a value of so many octets more are read as. -/
theorem decode_toBeBytes {mark count value : ℕ} (hmark : mark < 4) (hcount : 2 ^ mark = count + 1)
    (h : value < 64 * 256 ^ count) (rest : Octets) :
    decode (toBeBytes (count + 1) (mark * (64 * 256 ^ count) + value) ++ rest) = (count + 1, value) := by
  have hpos : 0 < 256 ^ count := Nat.pow_pos (by decide)
  obtain ⟨high, hhigh⟩ : ∃ high, high = value / 256 ^ count := ⟨_, rfl⟩
  have hbound : high < 64 := hhigh ▸ Nat.div_lt_of_lt_mul (by rwa [Nat.mul_comm] at h)
  have hfirst : (mark * (64 * 256 ^ count) + value) / 256 ^ count = mark * 64 + high := by
    rw [← Nat.mul_assoc, Nat.mul_comm (mark * 64), Nat.mul_add_div hpos, hhigh]
  have hlow : (mark * (64 * 256 ^ count) + value) % 256 ^ count = value % 256 ^ count := by
    rw [← Nat.mul_assoc, Nat.add_comm, Nat.add_mul_mod_self_right]
  have hoctet : (UInt8.ofNat (mark * 64 + high)).toNat = mark * 64 + high := by
    rw [UInt8.toNat_ofNat']
    omega
  rw [toBeBytes, hfirst, List.cons_append, decode, hoctet, show (mark * 64 + high) / 64 = mark by omega, hcount,
    if_neg (by simp), Nat.add_sub_cancel, List.take_left' (length_toBeBytes _ _), foldl_toBeBytes,
    show (mark * 64 + high) % 64 = high by omega, hlow, hhigh, Nat.mul_comm, Nat.div_add_mod]

/-- A value that is not too large is read back as it was written, whatever follows it. -/
theorem decode_encode {value : ℕ} (h : value ≤ MAXIMUM) (rest : Octets) :
    decode (encode value ++ rest) = (len value, value) := by
  have hmax : value < 2 ^ 62 := Nat.lt_of_le_pred (by decide) h
  rw [encode, len]
  split_ifs with h₁ h₂ h₃
  · have hone : [UInt8.ofNat value] = toBeBytes (0 + 1) (0 * (64 * 256 ^ 0) + value) := by simp [toBeBytes]
    rw [hone]
    exact decode_toBeBytes (by decide) rfl (by omega) rest
  · have hor : value % 2 ^ 16 ||| 0x4000 = 1 * (64 * 256 ^ 1) + value := by
      rw [Nat.mod_eq_of_lt (by omega), Nat.or_comm]
      exact (Nat.two_pow_add_eq_or_of_lt (i := 14) (by omega) 1).symm
    rw [hor]
    exact decode_toBeBytes (by decide) rfl (by omega) rest
  · have hor : value % 2 ^ 32 ||| 0x80000000 = 2 * (64 * 256 ^ 3) + value := by
      rw [Nat.mod_eq_of_lt (by omega), Nat.or_comm]
      exact (Nat.two_pow_add_eq_or_of_lt (i := 30) (by omega) 2).symm
    rw [hor]
    exact decode_toBeBytes (by decide) rfl (by omega) rest
  · have hor : value ||| 0xc000000000000000 = 3 * (64 * 256 ^ 7) + value := by
      rw [Nat.or_comm]
      exact (Nat.two_pow_add_eq_or_of_lt (i := 62) (by omega) 3).symm
    rw [hor]
    exact decode_toBeBytes (by decide) rfl (by omega) rest

end Varint

/-! ## Frames -/

namespace H3

namespace Code

def NO_ERROR : ℕ := 0x0100
def STREAM_CREATION_ERROR : ℕ := 0x0103
def EXCESSIVE_LOAD : ℕ := 0x0107
def REQUEST_REJECTED : ℕ := 0x010b
def REQUEST_INCOMPLETE : ℕ := 0x010d
def MESSAGE_ERROR : ℕ := 0x010e
def QPACK_DECOMPRESSION_FAILED : ℕ := 0x0200

end Code

/-- What a stream is for. -/
inductive StreamKind
  | control | push | qpackEncoder | qpackDecoder | request
  deriving DecidableEq

namespace StreamKind

/-- The code a unidirectional stream announces itself with. A request stream is none. -/
def code : StreamKind → Option ℕ
  | control => some 0x00
  | push => some 0x01
  | qpackEncoder => some 0x02
  | qpackDecoder => some 0x03
  | request => none

/-- The kind a code names, if it names one. -/
def fromCode (code : ℕ) : Option StreamKind :=
  [control, push, qpackEncoder, qpackDecoder].find? (·.code == some code)

end StreamKind

/-- The kind of a frame. -/
inductive FrameType
  | data | headers | cancelPush | settings | pushPromise | goAway | maxPushId
  deriving DecidableEq

namespace FrameType

/-- Types reserved so that an HTTP/2 frame is not mistaken for one. -/
def RESERVED : List ℕ := [0x02, 0x06, 0x08, 0x09]

/-- The code that goes on the wire. -/
def code : FrameType → ℕ
  | data => 0x00
  | headers => 0x01
  | cancelPush => 0x03
  | settings => 0x04
  | pushPromise => 0x05
  | goAway => 0x07
  | maxPushId => 0x0d

/-- The type a code names, if it names one. -/
def fromCode (code : ℕ) : Option FrameType :=
  [data, headers, cancelPush, settings, pushPromise, goAway, maxPushId].find? (·.code == code)

theorem fromCode_code (kind : FrameType) : fromCode kind.code = some kind := by cases kind <;> rfl

theorem code_not_reserved (kind : FrameType) : RESERVED.contains kind.code = false := by cases kind <;> rfl

theorem code_le (kind : FrameType) : kind.code ≤ Varint.MAXIMUM := by cases kind <;> decide

end FrameType

/-- One frame. -/
inductive Frame
  | data (octets : Octets)
  | headers (block : Octets)
  | cancelPush (pushId : ℕ)
  | settings (params : List (ℕ × ℕ))
  | pushPromise (pushId : ℕ) (block : Octets)
  | goAway (id : ℕ)
  | maxPushId (pushId : ℕ)
  deriving DecidableEq

namespace Frame

/-- The frame's type. -/
def kind : Frame → FrameType
  | data _ => .data
  | headers _ => .headers
  | cancelPush _ => .cancelPush
  | settings _ => .settings
  | pushPromise .. => .pushPromise
  | goAway _ => .goAway
  | maxPushId _ => .maxPushId

/-- The payload. -/
def payload : Frame → Octets
  | data octets | headers octets => octets
  | cancelPush id | goAway id | maxPushId id => Varint.encode id
  | settings params => params.flatMap fun (id, value) => Varint.encode id ++ Varint.encode value
  | pushPromise id block => Varint.encode id ++ block

/-- A frame of a kind that carries these octets. -/
def write (kind : FrameType) (payload : Octets) : Octets :=
  Varint.encode kind.code ++ Varint.encode payload.length ++ payload

/-- The whole frame. -/
def encode (frame : Frame) : Octets := write frame.kind frame.payload

/-- The parameters of a SETTINGS payload, behind those already read. Each takes octets off
    the payload, which `fuel` is more than. -/
def params : ℕ → List (ℕ × ℕ) → Octets → Except Error (List (ℕ × ℕ))
  | 0, _, _ => .error (.protocol "SETTINGS ends inside a parameter" [])
  | fuel + 1, read, rest =>
    if rest.isEmpty then .ok read
    else
      let (consumed, id) := Varint.decode rest
      let (taken, value) := Varint.decode (rest.drop consumed)
      if consumed = 0 ∨ taken = 0 then .error (.protocol "SETTINGS ends inside a parameter" [])
      else if read.any (·.1 == id) then .error (.protocol "setting {id:#x} is repeated" [.number id])
      else params fuel (read ++ [(id, value)]) (rest.drop (consumed + taken))

/-- The frame a payload is. -/
def assemble (kind : FrameType) (payload : Octets) : Except Error Frame :=
  match kind with
  | .data => .ok (.data payload)
  | .headers => .ok (.headers payload)
  | .cancelPush => (Varint.only payload "CANCEL_PUSH").map .cancelPush
  | .maxPushId => (Varint.only payload "MAX_PUSH_ID").map .maxPushId
  | .goAway => (Varint.only payload "GOAWAY").map .goAway
  | .settings => (params (payload.length + 1) [] payload).map .settings
  | .pushPromise =>
    let (consumed, pushId) := Varint.decode payload
    if consumed = 0 then .error (.protocol "PUSH_PROMISE has no push identifier" [])
    else .ok (.pushPromise pushId (payload.drop consumed))

/-- How long the header of the frame at the front of a buffer is, its type and the length of
    its payload, once the frame is there in whole. -/
def whole (data : Octets) : Option (ℕ × ℕ × ℕ) :=
  let (taken, code) := Varint.decode data
  let (took, length) := Varint.decode (data.drop taken)
  if taken = 0 ∨ took = 0 ∨ data.length < taken + took + length then none
  else some (taken + took, code, length)

/-- Takes one whole frame off a buffer, past those of an unknown type. Each takes octets off
    the buffer, which `fuel` is more than. -/
def parseLoop : ℕ → Octets → Except Error (Option Frame) × Octets
  | 0, buffer => (.ok none, buffer)
  | fuel + 1, buffer =>
    match whole buffer with
    | none => (.ok none, buffer)
    | some (consumed, code, length) =>
      if FrameType.RESERVED.contains code then
        (.error (.protocol "frame type {code:#x} is reserved" [.number code]), buffer)
      else match FrameType.fromCode code with
        | some kind =>
          ((assemble kind ((buffer.drop consumed).take length)).map some, buffer.drop (consumed + length))
        | none => parseLoop fuel (buffer.drop (consumed + length))

/-- Takes one whole frame off the front of a buffer, or none where it has not all arrived. -/
def parse (buffer : Octets) : Except Error (Option Frame) × Octets := parseLoop (buffer.length + 1) buffer

theorem length_encode_varint (value : ℕ) : (Varint.encode value).length = Varint.len value := by
  rw [Varint.encode, Varint.len]
  split_ifs <;> simp

theorem len_pos (value : ℕ) : 0 < Varint.len value := by
  rw [Varint.len]
  split_ifs <;> decide

theorem whole_write {kind : FrameType} {payload : Octets} (h : payload.length ≤ Varint.MAXIMUM) (rest : Octets) :
    whole (write kind payload ++ rest) =
      some (Varint.len kind.code + Varint.len payload.length, kind.code, payload.length) := by
  have hcode := len_pos kind.code
  have hlength := len_pos payload.length
  have hrest : (write kind payload ++ rest).drop (Varint.len kind.code) =
      Varint.encode payload.length ++ (payload ++ rest) := by
    rw [write, List.append_assoc, List.append_assoc, ← length_encode_varint kind.code, List.drop_left]
  have hwhole : (write kind payload ++ rest).length =
      Varint.len kind.code + Varint.len payload.length + payload.length + rest.length := by
    rw [write, List.length_append, List.length_append, List.length_append, length_encode_varint, length_encode_varint]
  have hfirst : Varint.decode (write kind payload ++ rest) = (Varint.len kind.code, kind.code) := by
    rw [write, List.append_assoc, List.append_assoc, Varint.decode_encode kind.code_le]
  rw [whole, hfirst]
  dsimp only
  rw [hrest, Varint.decode_encode h]
  dsimp only
  rw [hwhole, if_neg (by omega)]

/-- A frame is taken off what it was written in front of. -/
theorem parse_written {kind : FrameType} {payload : Octets} (h : payload.length ≤ Varint.MAXIMUM) (rest : Octets) :
    parse (write kind payload ++ rest) = ((assemble kind payload).map some, rest) := by
  have hlen : (Varint.encode kind.code ++ Varint.encode payload.length).length =
      Varint.len kind.code + Varint.len payload.length := by
    rw [List.length_append, length_encode_varint, length_encode_varint]
  rw [parse, parseLoop, whole_write h]
  simp only [kind.code_not_reserved, kind.fromCode_code, Bool.false_eq_true, if_false]
  rw [write, List.append_assoc, ← hlen, List.drop_left, List.take_left, ← List.drop_drop, List.drop_left, List.drop_left]

/-- Nothing is taken off an empty buffer. -/
theorem parse_nil : parse [] = (.ok none, []) := rfl

end Frame

end H3

end Soyokaze

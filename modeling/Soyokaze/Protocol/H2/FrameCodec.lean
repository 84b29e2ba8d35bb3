import Soyokaze.Lib.Inlet
import Soyokaze.Protocol.H2.Frames

/-!
# The frames of HTTP/2, off the wire

Frames are taken off the front of a buffer as they arrive, one of an unknown type being
stepped over and reported.

* `Frame.assemble_payload`: what a frame is written as, it is read back from;
* `Frame.assemble_padded`, `Frame.assemble_prioritised`: padding and priorities are read
  past;
* `Frame.settles_read`: what is taken does not hang on what arrives behind it;
* `Frame.frames_coded`: all of it at the buffer. An acknowledgement that carries
  parameters is written and refused.
-/

namespace Soyokaze

/-! ## Numbers -/

theorem fromBeBytes_u32 {value : ℕ} (h : value < 2 ^ 32) : fromBeBytes (u32Bytes value) = value := by
  simp only [fromBeBytes, u32Bytes, List.foldl_cons, List.foldl_nil, UInt8.toNat_ofNat']
  omega

theorem fromBeBytes_u16 {value : ℕ} (h : value < 2 ^ 16) : fromBeBytes (u16Bytes value) = value := by
  simp only [fromBeBytes, u16Bytes, List.foldl_cons, List.foldl_nil, UInt8.toNat_ofNat']
  omega

@[simp] theorem length_u32Bytes (value : ℕ) : (u32Bytes value).length = 4 := rfl

@[simp] theorem length_u16Bytes (value : ℕ) : (u16Bytes value).length = 2 := rfl

namespace H2

namespace FrameHeader

@[simp] theorem length_encode (header : FrameHeader) : header.encode.length = SIZE := rfl

/-- A header is read back from what it is written as, whatever follows. -/
theorem decode_encode {header : FrameHeader} (hlength : header.length < 2 ^ 24) (hid : header.streamId < 2 ^ 31)
    (rest : Octets) : decode (header.encode ++ rest) = (header.length, some header) := by
  have hlen : fromBeBytes ((u32Bytes header.length).drop 1) = header.length := by
    simp only [fromBeBytes, u32Bytes, List.drop_succ_cons, List.drop_zero, List.foldl_cons, List.foldl_nil,
      UInt8.toNat_ofNat']
    omega
  have hstream : fromBeBytes (u32Bytes (header.streamId % 2 ^ 31)) % 2 ^ 31 = header.streamId := by
    rw [Nat.mod_eq_of_lt hid, fromBeBytes_u32 (hid.trans (by decide)), Nat.mod_eq_of_lt hid]
  have hdecode : decode (header.encode ++ rest) = (fromBeBytes ((u32Bytes header.length).drop 1),
      (FrameType.fromCode header.kind.code).map fun kind =>
        ⟨fromBeBytes ((u32Bytes header.length).drop 1), kind, header.flags,
          fromBeBytes (u32Bytes (header.streamId % 2 ^ 31)) % 2 ^ 31⟩) := rfl
  rw [hdecode, hlen, hstream, FrameType.fromCode_code]
  rfl

/-- A header is its first nine octets. -/
theorem decode_take {data : Octets} {n : ℕ} (h : SIZE ≤ n) : decode (data.take n) = decode data := by
  rw [SIZE] at h
  have hget : ∀ i < 9, (data.take n).getD i 0 = data.getD i 0 := fun i hi => by
    rw [List.getD_eq_getElem?_getD, List.getD_eq_getElem?_getD, List.getElem?_take_of_lt (hi.trans_le h)]
  rw [decode, decode, List.take_take, Nat.min_eq_left (by omega), hget 3 (by decide), hget 4 (by decide), List.drop_take,
    List.take_take, Nat.min_eq_left (by omega)]

theorem decode_append {data : Octets} (h : SIZE ≤ data.length) (more : Octets) : decode (data ++ more) = decode data := by
  rw [← decode_take (le_refl SIZE), List.take_append_of_le_length h, decode_take (le_refl SIZE)]

end FrameHeader

namespace Frame

/-! ## Reading back -/

/-- What can be told of a frame from what it is written as: the numbers fit the fields they
    are written to, a frame is on a stream where its type is, and its payload is no longer
    than may be sent. -/
structure InRange (maxFrameSize : ℕ) (frame : Frame) : Prop where
  length_le : frame.payload.length ≤ maxFrameSize
  length_lt : frame.payload.length < 2 ^ 24
  streamId_lt : frame.streamId < 2 ^ 31
  streamed : frame.kind.streamed = some true → frame.streamId ≠ 0
  numbers : match frame with
    | .data .. | .headers .. | .continuation .. => True
    | .priority _ dependency .. => dependency < 2 ^ 31
    | .rstStream _ errorCode => errorCode < 2 ^ 32
    | .settings _ params => ∀ param ∈ params, param.1 < 2 ^ 16 ∧ param.2 < 2 ^ 32
    | .pushPromise _ promised _ => promised < 2 ^ 31
    | .ping _ payload => payload.length = 8
    | .goAway last errorCode _ => last < 2 ^ 31 ∧ errorCode < 2 ^ 32
    | .windowUpdate _ increment => 0 < increment ∧ increment < 2 ^ 31

/-- An acknowledgement of settings sets none. -/
def Acknowledges : Frame → Prop
  | .settings true params => params = []
  | _ => True

/-- The header a frame is written with. -/
def header (frame : Frame) : FrameHeader := ⟨frame.payload.length, frame.kind, frame.flags, frame.streamId⟩

theorem params_payload {list : List (ℕ × ℕ)} (h : ∀ param ∈ list, param.1 < 2 ^ 16 ∧ param.2 < 2 ^ 32) :
    params (list.flatMap fun (id, value) => u16Bytes id ++ u32Bytes value) = list := by
  induction list with
  | nil => rfl
  | cons param list ih =>
    obtain ⟨id, value⟩ := param
    rw [List.forall_mem_cons] at h
    have hparams : params ((id, value) :: list |>.flatMap fun (id, value) => u16Bytes id ++ u32Bytes value) =
        (fromBeBytes (u16Bytes id), fromBeBytes (u32Bytes value)) ::
          params (list.flatMap fun (id, value) => u16Bytes id ++ u32Bytes value) := rfl
    rw [hparams, fromBeBytes_u16 h.1.1, fromBeBytes_u32 h.1.2, ih h.2]

theorem length_params (list : List (ℕ × ℕ)) :
    (list.flatMap fun (id, value) => u16Bytes id ++ u32Bytes value).length = 6 * list.length := by
  induction list with
  | nil => rfl
  | cons param list ih =>
    rw [List.flatMap_cons, List.length_append, ih, List.length_cons, List.length_append, length_u16Bytes, length_u32Bytes]
    ring

theorem streamId_mod {id : ℕ} (h : id < 2 ^ 31) : fromBeBytes (u32Bytes id) % 2 ^ 31 = id := by
  rw [fromBeBytes_u32 (h.trans (by decide)), Nat.mod_eq_of_lt h]

theorem dependency_eq {dependency : ℕ} (h : dependency < 2 ^ 31) (exclusive : Bool) :
    fromBeBytes (u32Bytes (dependency ||| if exclusive then 2 ^ 31 else 0)) = exclusive.toNat * 2 ^ 31 + dependency := by
  cases exclusive with
  | false => simpa using fromBeBytes_u32 (h.trans (by decide))
  | true =>
    have hor : dependency ||| 2 ^ 31 = 2 ^ 31 + dependency := by
      rw [Nat.or_comm]
      simpa using (Nat.two_pow_add_eq_or_of_lt h 1).symm
    rw [if_pos rfl, hor, fromBeBytes_u32 (by omega)]
    simp

/-- The flags of a HEADERS frame. -/
theorem isSet_headers (endStream endHeaders : Bool) :
    let flags := flagIf endStream Flag.END_STREAM ||| flagIf endHeaders Flag.END_HEADERS
    Flag.isSet flags Flag.END_STREAM = endStream ∧ Flag.isSet flags Flag.END_HEADERS = endHeaders ∧
      Flag.isSet flags Flag.PADDED = false ∧ Flag.isSet flags Flag.PRIORITY = false := by
  revert endStream endHeaders
  decide

/-- The flag of a frame that has one at most. -/
theorem isSet_flagIf (condition : Bool) :
    Flag.isSet (flagIf condition Flag.END_STREAM) Flag.END_STREAM = condition ∧
      Flag.isSet (flagIf condition Flag.END_HEADERS) Flag.END_HEADERS = condition ∧
      Flag.isSet (flagIf condition Flag.END_STREAM) Flag.PADDED = false := by
  revert condition
  decide

/-- A DATA, HEADERS or PUSH_PROMISE frame goes out without padding. -/
theorem isSet_padded (frame : Frame) : (Flag.isSet frame.flags Flag.PADDED && frame.kind.paddable) = false := by
  cases frame with
  | data id endStream octets =>
    rw [Frame.flags, (isSet_flagIf endStream).2.2]
    rfl
  | headers id endStream endHeaders block =>
    rw [Frame.flags, (isSet_headers endStream endHeaders).2.2.1]
    rfl
  | pushPromise => rw [Frame.flags, show Flag.isSet Flag.END_HEADERS Flag.PADDED = false by decide, Bool.false_and]
  | priority | rstStream | settings | ping | goAway | windowUpdate | continuation => exact Bool.and_false _

/-- What a payload is written as, it is read back from. -/
theorem ofPayload_payload {maxFrameSize : ℕ} {frame : Frame} (h : frame.InRange maxFrameSize) (hack : frame.Acknowledges) :
    ofPayload frame.header frame.payload = .ok frame := by
  have hnumbers := h.numbers
  cases frame with
  | data id endStream octets =>
    show Except.ok (Frame.data id (Flag.isSet (flagIf endStream Flag.END_STREAM) Flag.END_STREAM) octets) = _
    rw [(isSet_flagIf endStream).1]
  | headers id endStream endHeaders block =>
    obtain ⟨hstream, hheaders, -, hpriority⟩ := isSet_headers endStream endHeaders
    rw [ofPayload, header, Frame.kind, Frame.flags]
    simp only [hstream, hheaders, hpriority]
    rfl
  | continuation id endHeaders block =>
    show Except.ok (Frame.continuation id (Flag.isSet (flagIf endHeaders Flag.END_HEADERS) Flag.END_HEADERS) block) = _
    rw [(isSet_flagIf endHeaders).2.1]
  | priority id dependency exclusive weight =>
    have hnumbers : dependency < 2 ^ 31 := hnumbers
    have hdependency := dependency_eq hnumbers exclusive
    show Except.ok (Frame.priority id (fromBeBytes (u32Bytes _) % 2 ^ 31)
      (decide (2 ^ 31 ≤ fromBeBytes (u32Bytes _))) weight) = _
    have hmod : (exclusive.toNat * 2 ^ 31 + dependency) % 2 ^ 31 = dependency := by omega
    have htop : decide (2 ^ 31 ≤ exclusive.toNat * 2 ^ 31 + dependency) = exclusive := by
      cases exclusive <;> simp only [Bool.toNat_false, Bool.toNat_true, decide_eq_false_iff_not, decide_eq_true_eq] <;> omega
    rw [hdependency, hmod, htop]
  | rstStream id errorCode =>
    show Except.ok (Frame.rstStream id (fromBeBytes (u32Bytes errorCode))) = _
    rw [fromBeBytes_u32 hnumbers]
  | settings ack list =>
    have hlength : (settings ack list).payload.length % 6 = 0 := by
      rw [Frame.payload, length_params, Nat.mul_mod_right]
    have hempty : (ack && !(settings ack list).payload.isEmpty) = false := by
      cases ack with
      | false => rfl
      | true =>
        obtain rfl : list = [] := hack
        rfl
    show (if Flag.isSet (flagIf ack Flag.ACK) Flag.ACK && _ then _ else if _ then _ else _) = _
    have hflag : Flag.isSet (flagIf ack Flag.ACK) Flag.ACK = ack := (isSet_flagIf ack).1
    rw [hflag, if_neg (by rw [hempty]; exact Bool.false_ne_true), if_neg (not_not_intro hlength)]
    show Except.ok (Frame.settings (Flag.isSet (flagIf ack Flag.ACK) Flag.ACK) (params (settings ack list).payload)) = _
    rw [hflag, Frame.payload, params_payload hnumbers]
  | pushPromise id promised block =>
    show Except.ok (Frame.pushPromise id (fromBeBytes (u32Bytes promised) % 2 ^ 31) block) = _
    rw [streamId_mod hnumbers]
  | ping ack payload =>
    show (exact 8 "PING" payload).map _ = _
    rw [exact, if_pos hnumbers]
    show Except.ok (Frame.ping (Flag.isSet (flagIf ack Flag.ACK) Flag.ACK) payload) = _
    rw [show Flag.isSet (flagIf ack Flag.ACK) Flag.ACK = ack from (isSet_flagIf ack).1]
  | goAway last errorCode debugData =>
    show Except.ok (Frame.goAway (fromBeBytes (u32Bytes last) % 2 ^ 31) (fromBeBytes (u32Bytes errorCode)) debugData) = _
    rw [streamId_mod hnumbers.1, fromBeBytes_u32 hnumbers.2]
  | windowUpdate id increment =>
    show (if fromBeBytes (u32Bytes increment) % 2 ^ 31 = 0 then _ else _) = _
    rw [streamId_mod hnumbers.2, if_neg hnumbers.1.ne']
    show Except.ok (Frame.windowUpdate id (fromBeBytes (u32Bytes increment) % 2 ^ 31)) = _
    rw [streamId_mod hnumbers.2]

/-- A frame is on a stream where its type is, and not where its type is not. -/
theorem streamed_header {maxFrameSize : ℕ} {frame : Frame} (h : frame.InRange maxFrameSize) :
    (frame.kind.streamed == some (frame.streamId == 0)) = false := by
  have hstreamed := h.streamed
  cases frame with
  | settings | ping | goAway | windowUpdate => rfl
  | data | headers | priority | rstStream | pushPromise | continuation =>
    simpa [Frame.kind, FrameType.streamed] using hstreamed rfl

theorem assemble_payload {maxFrameSize : ℕ} {frame : Frame} (h : frame.InRange maxFrameSize) (hack : frame.Acknowledges) :
    assemble frame.header frame.payload = .ok frame := by
  have hpadded : (Flag.isSet frame.header.flags Flag.PADDED && frame.header.kind.paddable) = false := isSet_padded frame
  have hstreamed : (frame.header.kind.streamed == some (frame.header.streamId == 0)) = false := streamed_header h
  rw [assemble, if_neg (show ¬ frame.payload.length ≠ frame.header.length from not_not_intro rfl), hstreamed,
    if_neg Bool.false_ne_true, hpadded, if_neg Bool.false_ne_true, ofPayload_payload h hack]

/-! ## Padding and priorities -/

theorem unpad_padded (payload pad : Octets) (hpad : pad.length < 256) :
    unpad (.ofNat pad.length :: (payload ++ pad)) = .ok payload := by
  have hlength : (UInt8.ofNat pad.length).toNat = pad.length := by
    rw [UInt8.toNat_ofNat']
    exact Nat.mod_eq_of_lt hpad
  have hall : (UInt8.ofNat pad.length :: (payload ++ pad)).length = payload.length + 1 + pad.length := by
    rw [List.length_cons, List.length_append]
    omega
  rw [unpad, hlength, hall, if_neg (by omega), Nat.add_sub_cancel, List.take_succ_cons, List.drop_succ_cons,
    List.drop_zero, List.take_left]

/-- Padding that runs past the payload is refused. -/
theorem unpad_long {padding : UInt8} {rest : Octets} (h : rest.length < padding.toNat) :
    unpad (padding :: rest) = .error (.protocol "padding is longer than the frame payload" []) := by
  rw [unpad, if_pos (by rw [List.length_cons]; omega)]

/-- The header of a frame to whose flags one is added, and to whose payload so many octets. -/
def grown (header : FrameHeader) (flag : UInt8) (octets : ℕ) : FrameHeader :=
  { header with flags := header.flags ||| flag, length := header.length + octets }

theorem isSet_or (flags flag other : UInt8) :
    Flag.isSet (flags ||| flag) other = (Flag.isSet flags other || Flag.isSet flag other) := by
  have hor : (flags ||| flag) &&& other = flags &&& other ||| flag &&& other :=
    UInt8.toBitVec_inj.1 BitVec.and_or_distrib_right
  rw [Flag.isSet, hor, Bool.eq_iff_iff, Bool.or_eq_true, Flag.isSet, Flag.isSet]
  simp only [bne_iff_ne, ne_eq, UInt8.or_eq_zero_iff]
  tauto

/-- What a payload is does not hang on whether it was padded. -/
theorem ofPayload_grown (header : FrameHeader) (octets : ℕ) (payload : Octets) :
    ofPayload (grown header Flag.PADDED octets) payload = ofPayload header payload := by
  have hflag : ∀ other, Flag.isSet Flag.PADDED other = false →
      Flag.isSet (header.flags ||| Flag.PADDED) other = Flag.isSet header.flags other := fun other h => by
    rw [isSet_or, h, Bool.or_false]
  rw [ofPayload, ofPayload, grown]
  simp only [hflag Flag.END_STREAM (by decide), hflag Flag.END_HEADERS (by decide), hflag Flag.PRIORITY (by decide),
    hflag Flag.ACK (by decide)]

/-- Padding is read past. -/
theorem assemble_padded {header : FrameHeader} {payload pad : Octets} (hkind : header.kind.paddable = true)
    (hflag : Flag.isSet header.flags Flag.PADDED = false) (hpad : pad.length < 256) :
    assemble (grown header Flag.PADDED (1 + pad.length)) (.ofNat pad.length :: (payload ++ pad)) =
      assemble header payload := by
  have hlength : (UInt8.ofNat pad.length :: (payload ++ pad)).length ≠ header.length + (1 + pad.length) ↔
      payload.length ≠ header.length := by
    rw [List.length_cons, List.length_append]
    omega
  have hset : Flag.isSet (header.flags ||| Flag.PADDED) Flag.PADDED = true := by
    rw [isSet_or, show Flag.isSet Flag.PADDED Flag.PADDED = true by decide, Bool.or_true]
  rw [assemble, assemble, hflag, ofPayload_grown, unpad_padded payload pad hpad]
  simp only [grown, hlength, hset, hkind, Bool.and_self, if_true, Bool.false_and, Bool.false_eq_true, if_false]
  rw [← ofPayload_grown header (1 + pad.length), grown]

/-- A priority is read past. -/
theorem assemble_prioritised {header : FrameHeader} {payload priority : Octets} (hkind : header.kind = .headers)
    (hpadded : Flag.isSet header.flags Flag.PADDED = false) (hflag : Flag.isSet header.flags Flag.PRIORITY = false)
    (hpriority : priority.length = 5) :
    assemble (grown header Flag.PRIORITY 5) (priority ++ payload) = assemble header payload := by
  have hlength : (priority ++ payload).length ≠ header.length + 5 ↔ payload.length ≠ header.length := by
    rw [List.length_append]
    omega
  have hshort : ¬ (priority ++ payload).length < 5 := by
    rw [List.length_append]
    omega
  have hother : ∀ other, Flag.isSet Flag.PRIORITY other = false →
      Flag.isSet (header.flags ||| Flag.PRIORITY) other = Flag.isSet header.flags other := fun other h => by
    rw [isSet_or, h, Bool.or_false]
  have hset : Flag.isSet (header.flags ||| Flag.PRIORITY) Flag.PRIORITY = true := by
    rw [isSet_or, show Flag.isSet Flag.PRIORITY Flag.PRIORITY = true by decide, Bool.or_true]
  rw [assemble, assemble, ofPayload, ofPayload, grown]
  simp only [hlength, hkind, hother Flag.PADDED (by decide), hother Flag.END_STREAM (by decide),
    hother Flag.END_HEADERS (by decide), hset, hpadded, hflag, Bool.false_and, Bool.false_eq_true, if_false, if_true,
    if_neg hshort, List.drop_left' hpriority]

theorem refused_padding {header : FrameHeader} {padding : UInt8} {rest : Octets} (hkind : header.kind.paddable = true)
    (hflag : Flag.isSet header.flags Flag.PADDED = true) (hlong : rest.length < padding.toNat) :
    ∃ error, assemble header (padding :: rest) = .error error := by
  rw [assemble]
  split_ifs with hlength hstreamed hpadded
  · exact ⟨_, rfl⟩
  · exact ⟨_, rfl⟩
  · exact ⟨_, by rw [unpad_long hlong]⟩
  · exact absurd (by rw [hflag, hkind]; rfl) hpadded

/-! ## At the buffer -/

/-- Takes one whole frame off the front of a buffer, or the type of one that is unknown:
    nothing, where it has not fully arrived. -/
def take (maxFrameSize : ℕ) (buffer : Octets) : Except Error (Option (Except UInt8 Frame)) × Octets :=
  match whole maxFrameSize buffer with
  | none => (.ok none, buffer)
  | some (.error error) => (.error error, buffer)
  | some (.ok (length, header)) =>
    let octets := buffer.take (FrameHeader.SIZE + length)
    let rest := buffer.drop (FrameHeader.SIZE + length)
    match header with
    | none => (.ok (some (.error (octets.getD 3 0))), rest)
    | some header => ((assemble header (octets.drop FrameHeader.SIZE)).map (some ∘ .ok), rest)

theorem encode_eq (frame : Frame) : frame.encode = frame.header.encode ++ frame.payload := rfl

theorem length_encode (frame : Frame) : frame.encode.length = FrameHeader.SIZE + frame.payload.length := by
  rw [encode_eq, List.length_append, FrameHeader.length_encode]

theorem take_encode {maxFrameSize : ℕ} {frame : Frame} (h : frame.InRange maxFrameSize) (hack : frame.Acknowledges)
    (rest : Octets) : take maxFrameSize (frame.encode ++ rest) = (.ok (some (.ok frame)), rest) := by
  have hlength := length_encode frame
  have hdecode : FrameHeader.decode (frame.encode ++ rest) = (frame.payload.length, some frame.header) := by
    rw [encode_eq, List.append_assoc, FrameHeader.decode_encode h.length_lt h.streamId_lt]
    rfl
  have hwhole : whole maxFrameSize (frame.encode ++ rest) = some (.ok (frame.payload.length, some frame.header)) := by
    have hsize : ¬ (frame.encode ++ rest).length < FrameHeader.SIZE := by
      rw [List.length_append]
      omega
    have hall : ¬ (frame.encode ++ rest).length < FrameHeader.SIZE + frame.payload.length := by
      rw [List.length_append]
      omega
    rw [whole, if_neg hsize, hdecode]
    dsimp only
    rw [if_neg (Nat.not_lt.2 h.length_le), if_neg hall]
  have hdrop : frame.encode.drop FrameHeader.SIZE = frame.payload := by
    rw [encode_eq, List.drop_left' (FrameHeader.length_encode _)]
  rw [take, hwhole]
  dsimp only
  rw [List.take_left' hlength, List.drop_left' hlength, hdrop, assemble_payload h hack]
  rfl

/-- A frame that has not fully arrived is left. -/
theorem take_short {maxFrameSize : ℕ} {frame : Frame} (h : frame.InRange maxFrameSize) {front : Octets}
    (hfront : front <+: frame.encode) (hne : front ≠ frame.encode) : take maxFrameSize front = (.ok none, front) := by
  have hlt : front.length < FrameHeader.SIZE + frame.payload.length := by
    rw [← length_encode]
    exact lt_of_le_of_ne hfront.length_le fun heq => hne (hfront.eq_of_length heq)
  have hwhole : whole maxFrameSize front = none := by
    rw [whole]
    split_ifs with hsize
    · rfl
    · have hdecode : FrameHeader.decode front = (frame.payload.length, some frame.header) := by
        obtain ⟨rest, hrest⟩ := hfront
        have happend := FrameHeader.decode_append (Nat.le_of_not_lt hsize) rest
        rw [hrest, encode_eq, FrameHeader.decode_encode h.length_lt h.streamId_lt] at happend
        exact happend.symm
      rw [hdecode]
      dsimp only
      rw [if_neg (Nat.not_lt.2 h.length_le), if_pos hlt]
  rw [take, hwhole]

/-- Takes frames off a buffer until none is there in whole, or the next is too large: what
    each call answered, and what is left. -/
def takeWhole (maxFrameSize : ℕ) : ℕ → Octets → List (Except Error (Except UInt8 Frame)) × Octets
  | 0, buffer => ([], buffer)
  | fuel + 1, buffer =>
    match take maxFrameSize buffer with
    | (.ok none, _) => ([], buffer)
    | (.ok (some kept), rest) =>
      let (answers, left) := takeWhole maxFrameSize fuel rest
      (.ok kept :: answers, left)
    | (.error error, rest) =>
      if rest.length < buffer.length then
        let (answers, left) := takeWhole maxFrameSize fuel rest
        (.error error :: answers, left)
      else ([], buffer)

/-- Takes frames off a buffer that is filled piece by piece, as far as it goes each time. -/
def takeArriving (maxFrameSize : ℕ) : Octets → List Octets → List (Except Error (Except UInt8 Frame)) × Octets
  | buffer, [] => takeWhole maxFrameSize (buffer.length + 1) buffer
  | buffer, piece :: pieces =>
    let (answers, left) := takeWhole maxFrameSize (buffer.length + 1) buffer
    let (answers', left) := takeArriving maxFrameSize (left ++ piece) pieces
    (answers ++ answers', left)

/-- The frame at the front of a buffer, as it is answered. -/
def read (maxFrameSize : ℕ) (buffer : Octets) : Except (Option Error) (ℕ × Except Error (Except UInt8 Frame)) :=
  match whole maxFrameSize buffer with
  | none => .error none
  | some (.error error) => .error (some error)
  | some (.ok (length, header)) =>
    let octets := buffer.take (FrameHeader.SIZE + length)
    .ok (FrameHeader.SIZE + length, match header with
      | none => .ok (.error (octets.getD 3 0))
      | some header => (assemble header (octets.drop FrameHeader.SIZE)).map .ok)

theorem takeWhole_eq (maxFrameSize : ℕ) (fuel : ℕ) (buffer : Octets) :
    takeWhole maxFrameSize fuel buffer = Framing.pulled (read maxFrameSize) fuel buffer := by
  induction fuel generalizing buffer with
  | zero => rfl
  | succ fuel ih =>
    rw [takeWhole, Framing.pulled, take, read]
    rcases hwhole : whole maxFrameSize buffer with - | error | ⟨length, header⟩
    · rfl
    · simp
    · have hle := (of_whole hwhole).2.1
      have hless : (buffer.drop (FrameHeader.SIZE + length)).length < buffer.length := by
        rw [List.length_drop]
        rw [FrameHeader.SIZE] at hle ⊢
        omega
      cases header with
      | none => simp only [ih]
      | some header =>
        dsimp only
        rcases assemble header ((buffer.take (FrameHeader.SIZE + length)).drop FrameHeader.SIZE) with error | frame
        · simp only [Except.map, if_pos hless, ih]
        · simp only [Except.map, Function.comp_apply, ih]

theorem takeArriving_eq (maxFrameSize : ℕ) (buffer : Octets) (pieces : List Octets) :
    takeArriving maxFrameSize buffer pieces = Framing.fed (read maxFrameSize) buffer pieces := by
  induction pieces generalizing buffer with
  | nil => exact takeWhole_eq ..
  | cons piece pieces ih =>
    rw [takeArriving, Framing.fed, takeWhole_eq]
    simp only [ih]

/-- What is there in whole, or too large, stays so. -/
theorem whole_append {maxFrameSize : ℕ} {data : Octets} {found : Except Error (ℕ × Option FrameHeader)}
    (h : whole maxFrameSize data = some found) (more : Octets) : whole maxFrameSize (data ++ more) = some found := by
  rw [whole] at h ⊢
  split_ifs at h with hsize
  have hsize' : ¬ (data ++ more).length < FrameHeader.SIZE := by
    rw [List.length_append]
    omega
  rw [if_neg hsize', FrameHeader.decode_append (Nat.le_of_not_lt hsize)]
  generalize FrameHeader.decode data = decoded at h ⊢
  obtain ⟨length, header⟩ := decoded
  dsimp only at h ⊢
  split_ifs at h with hmax hdata
  · rw [if_pos hmax, h]
  · have hdata' : ¬ (data ++ more).length < FrameHeader.SIZE + length := by
      rw [List.length_append]
      omega
    rw [if_neg hmax, if_neg hdata', h]

/-- A frame is whole by itself. -/
theorem whole_take {maxFrameSize length : ℕ} {data : Octets} {header : Option FrameHeader}
    (h : whole maxFrameSize data = some (.ok (length, header))) :
    whole maxFrameSize (data.take (FrameHeader.SIZE + length)) = some (.ok (length, header)) := by
  have hle := (of_whole h).2.1
  have hlen : (data.take (FrameHeader.SIZE + length)).length = FrameHeader.SIZE + length := List.length_take_of_le hle
  rw [whole] at h
  split_ifs at h
  rw [whole, hlen, if_neg (by omega), FrameHeader.decode_take (Nat.le_add_right _ _)]
  generalize FrameHeader.decode data = decoded at h ⊢
  obtain ⟨length', header'⟩ := decoded
  dsimp only at h ⊢
  split_ifs at h with hmax hdata
  · cases h
  · cases h
    rw [if_neg hmax, if_neg (Nat.lt_irrefl _)]

theorem read_of_whole (maxFrameSize length : ℕ) (data : Octets) (header : Option FrameHeader) :
    ∃ answer, ∀ data', data'.take (FrameHeader.SIZE + length) = data.take (FrameHeader.SIZE + length) →
      whole maxFrameSize data' = some (.ok (length, header)) →
        read maxFrameSize data' = .ok (FrameHeader.SIZE + length, answer) :=
  ⟨_, fun data' htake h' => by
    rw [read, h']
    dsimp only
    rw [htake]⟩

theorem settles_read (maxFrameSize : ℕ) : Framing.Settles (read maxFrameSize) none where
  stays {bs} hbs cs := by
    rcases hwhole : whole maxFrameSize bs with - | error | ⟨length, header⟩
    · exact absurd (by rw [read, hwhole]) hbs
    · rw [read, read, hwhole, whole_append hwhole]
    · obtain ⟨answer, hanswer⟩ := read_of_whole maxFrameSize length bs header
      rw [hanswer bs rfl hwhole, hanswer (bs ++ cs) _ (whole_append hwhole cs)]
      exact List.take_append_of_le_length (of_whole hwhole).2.1
  within {bs n answer} h := by
    rcases hwhole : whole maxFrameSize bs with - | error | ⟨length, header⟩ <;> rw [read, hwhole] at h <;> cases h
    exact (of_whole hwhole).2.1
  alone {bs n answer} h := by
    rcases hwhole : whole maxFrameSize bs with - | error | ⟨length, header⟩
    · rw [read, hwhole] at h
      cases h
    · rw [read, hwhole] at h
      cases h
    · obtain ⟨answer', hanswer⟩ := read_of_whole maxFrameSize length bs header
      have hsame := h.symm.trans (hanswer bs rfl hwhole)
      cases hsame
      exact hanswer _ (by rw [List.take_take, Nat.min_self]) (whole_take hwhole)

theorem advances_read (maxFrameSize : ℕ) : Framing.Advances (read maxFrameSize) where
  pos {bs n answer} h := by
    rcases hwhole : whole maxFrameSize bs with - | error | ⟨length, header⟩ <;> rw [read, hwhole] at h <;> cases h
    exact Nat.add_pos_left (by decide) length

/-- What is left gives nothing more, however often it is asked. -/
theorem take_left (maxFrameSize : ℕ) (buffer : Octets) :
    (take maxFrameSize (takeWhole maxFrameSize (buffer.length + 1) buffer).2).2 =
      (takeWhole maxFrameSize (buffer.length + 1) buffer).2 := by
  rw [takeWhole_eq]
  obtain ⟨e, he⟩ := Framing.pulledAll_left (advances_read maxFrameSize) (settles_read maxFrameSize).within buffer
  rcases hwhole : whole maxFrameSize (Framing.pulledAll (read maxFrameSize) buffer).2 with - | error | ⟨length, header⟩
  · rw [take, hwhole]
  · rw [take, hwhole]
  · rw [read, hwhole] at he
    cases he

/-- Frames are read back from what they are written as, if an acknowledgement of settings
    sets none, and are left until they are there in whole; padding and priorities are read
    past, padding that runs past its frame is refused; and however the buffer is filled,
    the same frames, unknown types and errors come off it, and the same is left, of which
    nothing more is taken. -/
theorem frames_coded (maxFrameSize : ℕ) :
    (∀ frame : Frame, frame.InRange maxFrameSize → frame.Acknowledges →
      (∀ rest, take maxFrameSize (frame.encode ++ rest) = (.ok (some (.ok frame)), rest)) ∧
        ∀ front, front <+: frame.encode → front ≠ frame.encode → take maxFrameSize front = (.ok none, front)) ∧
      (∀ (header : FrameHeader) (payload pad : Octets), header.kind.paddable = true →
        Flag.isSet header.flags Flag.PADDED = false → pad.length < 256 →
          assemble (grown header Flag.PADDED (1 + pad.length)) (.ofNat pad.length :: (payload ++ pad)) =
            assemble header payload) ∧
      (∀ (header : FrameHeader) (payload priority : Octets), header.kind = .headers →
        Flag.isSet header.flags Flag.PADDED = false → Flag.isSet header.flags Flag.PRIORITY = false →
          priority.length = 5 →
            assemble (grown header Flag.PRIORITY 5) (priority ++ payload) = assemble header payload) ∧
      (∀ (header : FrameHeader) (padding : UInt8) (rest : Octets), header.kind.paddable = true →
        Flag.isSet header.flags Flag.PADDED = true → rest.length < padding.toNat →
          ∃ error, assemble header (padding :: rest) = .error error) ∧
      ∀ (buffer : Octets) (pieces : List Octets),
        takeArriving maxFrameSize buffer pieces =
            takeWhole maxFrameSize ((buffer ++ pieces.flatten).length + 1) (buffer ++ pieces.flatten) ∧
          (take maxFrameSize (takeArriving maxFrameSize buffer pieces).2).2 = (takeArriving maxFrameSize buffer pieces).2 := by
  refine ⟨fun frame h hack => ⟨take_encode h hack, fun front => take_short h⟩, fun header payload pad => assemble_padded,
    fun header payload priority => assemble_prioritised, fun header padding rest => refused_padding, fun buffer pieces => ?_⟩
  have hpieces : takeArriving maxFrameSize buffer pieces =
      takeWhole maxFrameSize ((buffer ++ pieces.flatten).length + 1) (buffer ++ pieces.flatten) := by
    rw [takeArriving_eq, takeWhole_eq, Framing.fed_eq (settles_read maxFrameSize) (advances_read maxFrameSize)]
  rw [hpieces]
  exact ⟨rfl, take_left maxFrameSize _⟩

/-- An acknowledgement can be built with parameters, and is not read back. -/
theorem acknowledgement_refused : ¬ ∀ (maxFrameSize : ℕ) (frame : Frame), frame.InRange maxFrameSize → ∀ rest,
    take maxFrameSize (frame.encode ++ rest) = (.ok (some (.ok frame)), rest) := by
  intro h
  have hrange : (settings true [(1, 4096)]).InRange 16384 :=
    ⟨by decide, by decide, by decide, nofun, by simp⟩
  have htake := congrArg Prod.fst (h 16384 (settings true [(1, 4096)]) hrange [])
  revert htake
  decide

end Frame

end H2

end Soyokaze

import Soyokaze.Lib.Blocks
import Soyokaze.Lib.Lanes
import Soyokaze.Websocket.Frames

/-!
# The frame codec

Frames as the source writes and reads them: the mask is applied a word at a time, a frame is
written behind what a buffer holds, and read either out of the octets or off their front.

* `Wire.applyMask_eq`: a mask applied by words is one applied octet by octet;
* `Wire.frames_exact`: what is written is read back by both readers, which agree whatever the
  octets are.
-/

namespace Soyokaze

namespace WebSocket

namespace Wire

/-! ## Masks -/

/-- A masking key over the eight octets of a word. -/
def key (mask : Mask) : UInt64 := Lanes.word (mask.octets ++ mask.octets)

/-- Applies a masking key in place, a word at a time. Which end of a word the first octet is at
    is the machine's affair, and makes no difference here. -/
def applyMask (mask : Mask) (payload : Octets) : Octets :=
  let (out, remainder) := Blocks.eat (fun out chunk => out ++ Lanes.octets (Lanes.word chunk ^^^ key mask)) 8 [] payload
  out ++ remainder.mapIdx fun offset octet => octet ^^^ mask.octets.getD (offset &&& 3) 0

theorem apply_append (mask : Mask) (l m : Octets) : mask.apply (l ++ m) = mask.apply l ++ (Mask.next^[l.length] mask).apply m := by
  induction l generalizing mask with
  | nil => rfl
  | cons octet l ih => rw [List.cons_append, Mask.apply, Mask.apply, ih, List.cons_append, List.length_cons, Function.iterate_succ_apply]

/-- The key that applies from the next octet on begins with what was its second octet. -/
theorem next_getD (mask : Mask) (i : ℕ) : mask.next.octets.getD (i % 4) 0 = mask.octets.getD ((i + 1) % 4) 0 := by
  have hlt : i % 4 < 4 := Nat.mod_lt i (by decide)
  rw [Nat.add_mod]
  generalize i % 4 = k at hlt
  match k, hlt with
  | 0, _ | 1, _ | 2, _ | 3, _ => rfl

/-- A mask is applied to each octet by itself: the key over and over. -/
theorem apply_eq_mapIdx (mask : Mask) (payload : Octets) :
    mask.apply payload = payload.mapIdx fun i octet => octet ^^^ mask.octets.getD (i % 4) 0 := by
  induction payload generalizing mask with
  | nil => rfl
  | cons octet payload ih =>
    rw [Mask.apply, ih, List.mapIdx_cons]
    simp only [next_getD]
    rfl

/-- A word is masked as the octets are that it is made of. -/
theorem octets_xor_key (mask : Mask) {chunk : Octets} (h : chunk.length = 8) :
    Lanes.octets (Lanes.word chunk ^^^ key mask) = mask.apply chunk := by
  have hzip : (chunk.zip (mask.octets ++ mask.octets)).map Prod.fst = chunk := List.map_fst_zip (Nat.le_of_eq h)
  have hzip' : (chunk.zip (mask.octets ++ mask.octets)).map Prod.snd = mask.octets ++ mask.octets :=
    List.map_snd_zip (Nat.le_of_eq h.symm)
  have hchunk : Lanes.Holds (chunk.zip (mask.octets ++ mask.octets)) (Lanes.word chunk) fun lane => lane.1 :=
    Lanes.Holds.of_map Prod.fst (fun x => x) (by rw [hzip]; exact Lanes.holds_word h)
  have hkey : Lanes.Holds (chunk.zip (mask.octets ++ mask.octets)) (key mask) fun lane => lane.2 :=
    Lanes.Holds.of_map Prod.snd (fun x => x) (by rw [hzip']; exact Lanes.holds_word rfl)
  rw [(hchunk.xor hkey).octets_eq]
  match chunk, h with
  | [_, _, _, _, _, _, _, _], _ => rfl

theorem applyMask_eq (mask : Mask) (payload : Octets) : applyMask mask payload = mask.apply payload := by
  have heat := Blocks.eat_eq (f := fun out chunk => out ++ Lanes.octets (Lanes.word chunk ^^^ key mask))
    (h := fun out rest => out ++ mask.apply rest) (s := []) (l := payload) (by decide : 0 < 8) fun out chunk rest hchunk => by
      rw [octets_xor_key mask hchunk, apply_append, hchunk, List.append_assoc]
      rfl
  rw [applyMask, ← List.nil_append (mask.apply payload), ← heat]
  dsimp only
  rw [apply_eq_mapIdx]
  simp only [show 3 = 2 ^ 2 - 1 from rfl, Nat.and_two_pow_sub_one_eq_mod]

/-! ## Writing and reading -/

/-- Appends the whole frame, masking the payload if a key is set. -/
def encodeInto (frame : Frame) (out : Octets) : Octets :=
  let out := out ++ (Frame.high frame.fin ||| frame.opcode.code) :: Frame.encodeLength frame.mask.isSome frame.payload.length
  match frame.mask with
  | some mask =>
    let out := out ++ mask.octets
    let start := out.length
    let out := out ++ frame.payload
    out.take start ++ applyMask mask (out.drop start)
  | none => out ++ frame.payload

/-- The whole frame as its own buffer. -/
def encode (frame : Frame) : Octets := encodeInto frame []

/-- A frame with the payload a mask is taken off of. -/
def unmasked (head : FrameHead) (payload : Octets) : Frame where
  fin := head.fin
  opcode := head.opcode
  mask := head.mask
  payload := match head.mask with
    | some mask => applyMask mask payload
    | none => payload

/-- Reads one frame, and says how many octets it took. -/
def decode (data : Octets) : Except Error (Option (ℕ × Frame)) :=
  match FrameHead.decode data with
  | .error error => .error error
  | .ok none => .ok none
  | .ok (some head) =>
    let finish := head.start + head.length
    .ok (some (finish, unmasked head ((data.take finish).drop head.start)))

/-- Takes one frame off the front of a buffer, and gives what is left of it. -/
def take (buffer : Octets) : Except Error (Option Frame) × Octets :=
  match FrameHead.decode buffer with
  | .error error => (.error error, buffer)
  | .ok none => (.ok none, buffer)
  | .ok (some head) =>
    let buffer := buffer.drop head.start
    (.ok (some (unmasked head (buffer.take head.length))), buffer.drop head.length)

theorem encodeInto_eq (frame : Frame) (out : Octets) : encodeInto frame out = out ++ frame.encode := by
  rw [encodeInto, Frame.encode]
  obtain ⟨fin, opcode, mask, payload⟩ := frame
  cases mask with
  | none => simp
  | some mask =>
    dsimp only
    rw [List.take_left, List.drop_left, applyMask_eq]
    simp

theorem encode_eq (frame : Frame) : encode frame = frame.encode := encodeInto_eq frame []

theorem decode_eq (data : Octets) : decode data = Frame.decode data := by
  rw [decode, Frame.decode]
  rcases FrameHead.decode data with error | _ | head
  · rfl
  · rfl
  · obtain ⟨fin, opcode, mask, start, length⟩ := head
    cases mask with
    | none => rfl
    | some mask =>
      simp only [unmasked, applyMask_eq]
      rfl

/-- The two readers agree: the one leaves what is behind the octets the other says it took. -/
theorem take_eq (data : Octets) : take data = match decode data with
    | .error error => (.error error, data)
    | .ok none => (.ok none, data)
    | .ok (some (count, frame)) => (.ok (some frame), data.drop count) := by
  rw [take, decode]
  rcases FrameHead.decode data with error | _ | head
  · rfl
  · rfl
  · dsimp only
    rw [List.drop_drop, List.drop_take, Nat.add_sub_cancel_left]

/-! ## Frames that may be -/

/-- What the format allows together: a control frame is whole and short. No payload is longer
    than an object in memory may be. -/
structure Allowed (frame : Frame) : Prop where
  length : frame.payload.length < 2 ^ 63
  control : frame.opcode.control = true → frame.fin = true ∧ frame.payload.length ≤ MAXIMUM_CONTROL_PAYLOAD

theorem Allowed.verifyControl {frame : Frame} (h : Allowed frame) :
    FrameHead.verifyControl frame.opcode frame.fin frame.payload.length = .ok () := by
  rw [FrameHead.verifyControl]
  split_ifs with hcontrol hlong hfin
  · exact absurd (h.control hcontrol).2 (Nat.not_le.2 hlong)
  · rw [(h.control hcontrol).1] at hfin
    cases hfin
  · rfl
  · rfl

theorem Allowed.decode {frame : Frame} (h : Allowed frame) (rest : Octets) :
    decode (encode frame ++ rest) = .ok (some ((encode frame).length, frame)) := by
  rw [decode_eq, encode_eq, Frame.decode_encode h.length, h.verifyControl]
  rfl

theorem Allowed.decode_front {frame : Frame} (h : Allowed frame) {front : Octets} (hfront : front <+: encode frame)
    (hne : front ≠ encode frame) : Wire.decode front = .ok none := by
  rw [encode_eq] at hfront hne
  have hshown := Frame.decode_shown h.length (show front <+: frame.encode ++ [] by rwa [List.append_nil])
  rw [decode_eq, hshown, Frame.shown, h.verifyControl]
  exact Nat.lt_of_le_of_ne hfront.length_le fun hlength => hne (hfront.eq_of_length hlength)

/-! ## What is refused -/

theorem fromCode_eq_none {code : UInt8} (h : ∀ opcode : Opcode, opcode.code ≠ code) : Opcode.fromCode code = none := by
  refine List.find?_eq_none.2 fun opcode _ hcode => h opcode (beq_iff_eq.1 hcode)

/-- A length whose top bit is set is one of 63 bits more. -/
theorem number_top {octets : Octets} (hlength : octets.length = 8) (htop : 0x80 ≤ octets.getD 0 0) : 2 ^ 63 ≤ number octets := by
  match octets, hlength with
  | [a, b, c, d, e, f, g, h], _ =>
    have ha : 0x80 ≤ a.toNat := UInt8.le_iff_toNat_le.1 htop
    simp only [number, List.foldl_cons, List.foldl_nil]
    omega

/-- Octets that no frame begins with: a reserved bit is set, the opcode is reserved, or the length has its top bit set. -/
def Refused : Octets → Prop
  | first :: second :: rest => first &&& 0x70 ≠ 0 ∨ (∀ opcode : Opcode, opcode.code ≠ first &&& 0x0f) ∨
      (second &&& 0x7f = 127 ∧ 8 ≤ rest.length ∧ 0x80 ≤ rest.getD 0 0)
  | _ => False

theorem Refused.header {data : Octets} (h : Refused data) : ∃ error, FrameHead.header data = .error error := by
  match data, h with
  | first :: second :: rest, h =>
    rw [FrameHead.header]
    by_cases hreserved : first &&& 0x70 = 0
    · rw [if_neg (not_not.2 hreserved)]
      rcases h.resolve_left (not_not.2 hreserved) with hopcode | ⟨hlong, hlength, htop⟩
      · rw [fromCode_eq_none hopcode]
        exact ⟨_, rfl⟩
      · have hextent : FrameHead.extent second rest = .error (.protocol "the payload length has its high bit set" []) := by
          have hfirst : (rest.take 8).getD 0 0 = rest.getD 0 0 := by
            cases rest with
            | nil => rfl
            | cons octet rest => rfl
          have hnumber := number_top (List.length_take_of_le hlength) (by rwa [hfirst])
          rw [FrameHead.extent, hlong, if_neg (by decide), if_pos rfl, ahead, if_pos hlength]
          exact if_pos hnumber
        cases Opcode.fromCode (first &&& 0x0f) with
        | none => exact ⟨_, rfl⟩
        | some opcode =>
          rw [hextent]
          exact ⟨_, rfl⟩
    · rw [if_pos hreserved]
      exact ⟨_, rfl⟩

/-- A frame that may be is read back by both readers as it was written, whatever follows it, and
    takes its own octets; less of it gives nothing yet; the readers agree on any octets, and both
    refuse what no frame begins with. A mask is the key over and over, and takes itself off. -/
theorem frames_exact :
    (∀ (frame : Frame) (out : Octets), encodeInto frame out = out ++ encode frame) ∧
    (∀ frame : Frame, Allowed frame →
      (∀ rest, decode (encode frame ++ rest) = .ok (some ((encode frame).length, frame)) ∧
        take (encode frame ++ rest) = (.ok (some frame), rest)) ∧
      ∀ front, front <+: encode frame → front ≠ encode frame → decode front = .ok none ∧ take front = (.ok none, front)) ∧
    (∀ data, take data = match decode data with
      | .error error => (.error error, data)
      | .ok none => (.ok none, data)
      | .ok (some (count, frame)) => (.ok (some frame), data.drop count)) ∧
    (∀ data, Refused data → ∃ error, decode data = .error error ∧ take data = (.error error, data)) ∧
    ∀ (mask : Mask) (payload : Octets),
      applyMask mask payload = payload.mapIdx (fun i octet => octet ^^^ mask.octets.getD (i % 4) 0) ∧
        applyMask mask (applyMask mask payload) = payload := by
  refine ⟨fun frame out => ?_, fun frame h => ⟨fun rest => ?_, fun front hfront hne => ?_⟩, take_eq, fun data h => ?_,
    fun mask payload => ?_⟩
  · rw [encodeInto_eq, encode_eq]
  · have hdecode := h.decode rest
    refine ⟨hdecode, ?_⟩
    rw [take_eq, hdecode]
    dsimp only
    rw [List.drop_left]
  · have hdecode := h.decode_front hfront hne
    refine ⟨hdecode, ?_⟩
    rw [take_eq, hdecode]
  · obtain ⟨error, herror⟩ := h.header
    have hdecode : decode data = .error error := by
      rw [decode, FrameHead.decode, herror]
      rfl
    refine ⟨error, hdecode, ?_⟩
    rw [take_eq, hdecode]
  · rw [applyMask_eq, applyMask_eq, Mask.apply_apply]
    exact ⟨apply_eq_mapIdx mask payload, rfl⟩

/-- A ping of three octets, masked, and an octet of what comes next. -/
theorem frames_exact_ping :
    take (encode ⟨true, .ping, some ⟨1, 2, 3, 4⟩, [9, 9, 9]⟩ ++ [7]) = (.ok (some ⟨true, .ping, some ⟨1, 2, 3, 4⟩, [9, 9, 9]⟩), [7]) :=
  ((frames_exact.2.1 _ ⟨by decide, fun _ => ⟨rfl, by decide⟩⟩).1 [7]).2

end Wire

end WebSocket

end Soyokaze

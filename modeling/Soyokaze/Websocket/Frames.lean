import Soyokaze.Lib.Act
import Soyokaze.Models

/-!
# WebSocket frames

Frames as they are written and read.

* `FrameHead.header_prefix`: a beginning of a stream has the header the stream has, or too
  little of it;
* `Frame.decode_encode`: a frame is read back as it was written, whatever follows it.
-/

namespace Soyokaze

namespace WebSocket

/-- The largest payload a control frame may carry. -/
def MAXIMUM_CONTROL_PAYLOAD : ℕ := 125

/-- What a frame is. -/
inductive Opcode
  | continuation
  | text
  | binary
  | close
  | ping
  | pong
  deriving DecidableEq

namespace Opcode

/-- The opcode as it appears in a frame header. -/
def code : Opcode → UInt8
  | continuation => 0x0
  | text => 0x1
  | binary => 0x2
  | close => 0x8
  | ping => 0x9
  | pong => 0xa

/-- The opcode a code names, if it is not reserved. -/
def fromCode (code : UInt8) : Option Opcode :=
  [continuation, text, binary, close, ping, pong].find? (·.code == code)

/-- Whether this is a control frame. -/
def control (opcode : Opcode) : Bool := opcode.code &&& 0x8 != 0

theorem control_eq (opcode : Opcode) : opcode.control = match opcode with
    | close | ping | pong => true
    | continuation | text | binary => false := by
  cases opcode <;> rfl

theorem data_cases {opcode : Opcode} (h : opcode.control = false) :
    opcode = continuation ∨ opcode = text ∨ opcode = binary := by
  cases opcode <;> simp_all [control_eq]

end Opcode

/-- Why a connection is being closed. -/
inductive CloseCode
  | normal
  | goingAway
  | protocolError
  | unsupportedData
  | invalidPayload
  | policyViolation
  | messageTooBig
  | mandatoryExtension
  | internalError
  deriving DecidableEq

namespace CloseCode

/-- The numeric code as it appears in a close payload. -/
def code : CloseCode → ℕ
  | normal => 1000
  | goingAway => 1001
  | protocolError => 1002
  | unsupportedData => 1003
  | invalidPayload => 1007
  | policyViolation => 1008
  | messageTooBig => 1009
  | mandatoryExtension => 1010
  | internalError => 1011

/-- The close code a number names. -/
def fromCode (code : ℕ) : Option CloseCode :=
  [normal, goingAway, protocolError, unsupportedData, invalidPayload, policyViolation, messageTooBig, mandatoryExtension,
    internalError].find? (·.code == code)

/-- Whether a close code may appear on the wire. -/
def permitted (code : ℕ) : Bool := (fromCode code).isSome || (3000 ≤ code && code < 5000)

end CloseCode

/-- A masking key. -/
structure Mask where
  a : UInt8
  b : UInt8
  c : UInt8
  d : UInt8
  deriving DecidableEq

namespace Mask

def octets (mask : Mask) : Octets := [mask.a, mask.b, mask.c, mask.d]

/-- The key as it applies from the second octet on. -/
def next (mask : Mask) : Mask := ⟨mask.b, mask.c, mask.d, mask.a⟩

/-- Applies a masking key, which also removes one. -/
def apply : Mask → Octets → Octets
  | _, [] => []
  | mask, octet :: payload => (octet ^^^ mask.a) :: mask.next.apply payload

@[simp] theorem length_apply (mask : Mask) (payload : Octets) : (mask.apply payload).length = payload.length := by
  induction payload generalizing mask with
  | nil => rfl
  | cons octet payload ih => rw [apply, List.length_cons, ih, List.length_cons]

@[simp] theorem apply_apply (mask : Mask) (payload : Octets) : mask.apply (mask.apply payload) = payload := by
  induction payload generalizing mask with
  | nil => rfl
  | cons octet payload ih =>
    rw [apply, apply, ih, UInt8.xor_assoc, UInt8.xor_self, UInt8.xor_zero]

end Mask

/-- The octets of a number, the most significant first. -/
def bytes : ℕ → ℕ → Octets
  | 0, _ => []
  | count + 1, value => .ofNat (value / 256 ^ count) :: bytes count value

/-- The number that octets are, the most significant first. -/
def number (octets : Octets) : ℕ := octets.foldl (fun number octet => number * 256 + octet.toNat) 0

@[simp] theorem length_bytes (count value : ℕ) : (bytes count value).length = count := by
  induction count with
  | zero => rfl
  | succ count ih => rw [bytes, List.length_cons, ih]

theorem foldl_bytes (count value start : ℕ) :
    (bytes count value).foldl (fun number octet => number * 256 + octet.toNat) start =
      start * 256 ^ count + value % 256 ^ count := by
  induction count generalizing start with
  | zero => rw [pow_zero, Nat.mod_one, Nat.mul_one, bytes, List.foldl_nil, Nat.add_zero]
  | succ count ih =>
    have hoctet : (UInt8.ofNat (value / 256 ^ count)).toNat = value / 256 ^ count % 256 := UInt8.toNat_ofNat'
    have hmod : value % 256 ^ (count + 1) = value / 256 ^ count % 256 * 256 ^ count + value % 256 ^ count := by
      rw [pow_succ, Nat.mod_mul, Nat.add_comm, Nat.mul_comm]
    rw [bytes, List.foldl_cons, ih, hoctet, hmod, pow_succ, Nat.add_mul, Nat.mul_assoc, Nat.mul_comm 256, Nat.add_assoc]

theorem number_bytes (count value : ℕ) : number (bytes count value) = value % 256 ^ count := by
  rw [number, foldl_bytes, Nat.zero_mul, Nat.zero_add]

/-- The first octets, if there are so many. -/
def ahead (count : ℕ) (data : Octets) : Option Octets := if count ≤ data.length then some (data.take count) else none

theorem ahead_of_le {count : ℕ} {front data : Octets} (h : front <+: data) (hle : count ≤ front.length) :
    ahead count front = ahead count data := by
  obtain ⟨rest, rfl⟩ := h
  rw [ahead, ahead, if_pos hle, List.length_append, if_pos (hle.trans (Nat.le_add_right _ _)),
    List.take_append_of_le_length hle]

/-- Where a frame's payload sits within the octets that carry it. -/
structure FrameHead where
  fin : Bool
  opcode : Opcode
  mask : Option Mask
  start : ℕ
  length : ℕ
  deriving DecidableEq

namespace FrameHead

/-- How long the payload is, and where it would start if it were not masked. -/
def extent (second : UInt8) (rest : Octets) : Except Error (Option (ℕ × ℕ)) :=
  if second &&& 0x7f = 126 then .ok ((ahead 2 rest).map fun octets => (4, number octets))
  else if second &&& 0x7f = 127 then match ahead 8 rest with
    | none => .ok none
    | some octets =>
      if 2 ^ 63 ≤ number octets then .error (.protocol "the payload length has its high bit set" [])
      else .ok (some (10, number octets))
  else .ok (some (2, (second &&& 0x7f).toNat))

/-- The mask, if the payload is masked, and where the payload starts. -/
def masking (masked : Bool) (start : ℕ) (data : Octets) : Option (Option Mask × ℕ) :=
  if masked then match data.drop start with
    | a :: b :: c :: d :: _ => some (some ⟨a, b, c, d⟩, start + 4)
    | _ => none
  else some (none, start)

/-- What a control frame may not be. -/
def verifyControl (opcode : Opcode) (fin : Bool) (length : ℕ) : Except Error Unit :=
  if opcode.control then
    if MAXIMUM_CONTROL_PAYLOAD < length then .error (.protocol "control frame carries {length} octets" [.number length])
    else if !fin then .error (.protocol "control frame is fragmented" [])
    else .ok ()
  else .ok ()

/-- Reads a frame's header, if it has arrived. -/
def header (data : Octets) : Except Error (Option FrameHead) :=
  match data with
  | first :: second :: rest =>
    if first &&& 0x70 ≠ 0 then .error (.protocol "a reserved bit is set with no extension negotiated" [])
    else match Opcode.fromCode (first &&& 0x0f) with
      | none => .error (.protocol "opcode {code} is reserved" [.number (first &&& 0x0f).toNat])
      | some opcode =>
        let fin := first &&& 0x80 != 0
        match extent second rest with
        | .error error => .error error
        | .ok none => .ok none
        | .ok (some (start, length)) => match verifyControl opcode fin length with
          | .error error => .error error
          | .ok () => match masking (second &&& 0x80 != 0) start data with
            | none => .ok none
            | some (mask, start) => .ok (some ⟨fin, opcode, mask, start, length⟩)
  | _ => .ok none

/-- Where a frame ends. -/
def finish (head : FrameHead) : ℕ := head.start + head.length

/-- Reads a frame's header, if it and the payload it declares have arrived. -/
def decode (data : Octets) : Except Error (Option FrameHead) :=
  (header data).map fun head => head.filter (·.finish ≤ data.length)

theorem extent_prefix {front rest : Octets} (h : front <+: rest) (second : UInt8) :
    extent second front = extent second rest ∨ extent second front = .ok none ∧
      ∀ start length, extent second rest = .ok (some (start, length)) → front.length + 2 < start := by
  rw [extent, extent]
  split_ifs
  · by_cases hle : 2 ≤ front.length
    · rw [ahead_of_le h hle]
      exact .inl rfl
    · rw [ahead, if_neg hle]
      refine .inr ⟨rfl, fun start length hextent => ?_⟩
      obtain ⟨found, hfound⟩ := Except.ok.inj hextent |> Option.map_eq_some_iff.1
      cases hfound.2
      omega
  · by_cases hle : 8 ≤ front.length
    · rw [ahead_of_le h hle]
      exact .inl rfl
    · rw [ahead, if_neg hle]
      refine .inr ⟨rfl, fun start length hextent => ?_⟩
      cases hahead : ahead 8 rest with
      | none =>
        rw [hahead] at hextent
        cases hextent
      | some octets =>
        rw [hahead] at hextent
        dsimp only at hextent
        split_ifs at hextent
        cases hextent
        omega
  · exact .inl rfl

theorem masking_prefix {front data : Octets} (h : front <+: data) (masked : Bool) (start : ℕ) :
    masking masked start front = masking masked start data ∨ masking masked start front = none ∧
      ∀ mask start', masking masked start data = some (mask, start') → front.length < start' := by
  rw [masking, masking]
  split_ifs
  · obtain ⟨rest, rfl⟩ := h
    by_cases hle : start + 4 ≤ front.length
    · left
      rw [List.drop_append_of_le_length (by omega)]
      have hlength : 4 ≤ (front.drop start).length := by
        rw [List.length_drop]
        omega
      match hdrop : front.drop start, hlength with
      | a :: b :: c :: d :: more, _ => rfl
    · right
      have hlength : (front.drop start).length < 4 := by
        rw [List.length_drop]
        omega
      have hnone : masking true start front = none := by
        rw [masking, if_pos rfl]
        match hdrop : front.drop start, hlength with
        | [], _ | [_], _ | [_, _], _ | [_, _, _], _ => rfl
      refine ⟨hnone, fun mask start' hsome => ?_⟩
      split at hsome
      · cases hsome
        omega
      · cases hsome
  · exact .inl rfl

theorem start_le_masking {masked : Bool} {start : ℕ} {data : Octets} {found : Option Mask × ℕ}
    (h : masking masked start data = some found) : start ≤ found.2 := by
  rw [masking] at h
  split_ifs at h
  · split at h
    · cases h
      exact Nat.le_add_right _ _
    · cases h
  · cases h
    exact Nat.le_refl _

/-- What there is where there is a header. -/
theorem of_header {data : Octets} {head : FrameHead} (h : header data = .ok (some head)) :
    ∃ first second rest start, data = first :: second :: rest ∧
      extent second rest = .ok (some (start, head.length)) ∧
      verifyControl head.opcode head.fin head.length = .ok () ∧
      masking (second &&& 0x80 != 0) start data = some (head.mask, head.start) := by
  match data with
  | [] | [_] => cases h
  | first :: second :: rest =>
    rw [header] at h
    split_ifs at h
    cases hopcode : Opcode.fromCode (first &&& 0x0f) with
    | none =>
      rw [hopcode] at h
      cases h
    | some opcode =>
      rw [hopcode] at h
      dsimp only at h
      rcases hextent : extent second rest with error | _ | ⟨start, length⟩ <;> rw [hextent] at h
      · cases h
      · cases h
      · dsimp only at h
        cases hcontrol : verifyControl opcode (first &&& 0x80 != 0) length with
        | error error =>
          rw [hcontrol] at h
          cases h
        | ok _ =>
          rw [hcontrol] at h
          dsimp only at h
          cases hmasking : masking (second &&& 0x80 != 0) start (first :: second :: rest) with
          | none =>
            rw [hmasking] at h
            cases h
          | some found =>
            rw [hmasking] at h
            cases h
            exact ⟨first, second, rest, start, rfl, hextent, hcontrol, hmasking⟩

theorem extent_le {second : UInt8} {rest : Octets} {start length : ℕ}
    (h : extent second rest = .ok (some (start, length))) : start ≤ rest.length + 2 := by
  have hahead : ∀ {count octets}, ahead count rest = some octets → count ≤ rest.length := by
    intro count octets hsome
    rw [ahead] at hsome
    split_ifs at hsome with hle
    exact hle
  rw [extent] at h
  split_ifs at h
  · obtain ⟨octets, hoctets, hfound⟩ := Option.map_eq_some_iff.1 (Except.ok.inj h)
    cases hfound
    exact Nat.add_le_add_right (hahead hoctets) 2
  · rcases hoctets : ahead 8 rest with _ | octets <;> rw [hoctets] at h
    · cases h
    · dsimp only at h
      split_ifs at h
      cases h
      exact Nat.add_le_add_right (hahead hoctets) 2
  · cases h
    exact Nat.le_add_left _ _

theorem two_le_extent {second : UInt8} {rest : Octets} {start length : ℕ}
    (h : extent second rest = .ok (some (start, length))) : 2 ≤ start := by
  obtain hsame | ⟨-, hless⟩ := extent_prefix (List.nil_prefix (l := rest)) second
  · rw [h, extent] at hsame
    split_ifs at hsame <;> cases hsame
    exact Nat.le_refl _
  · exact (Nat.le_add_left _ _).trans (hless _ _ h).le

/-- A beginning of a stream has the header the stream has, or too little of it. -/
theorem header_prefix {front data : Octets} (h : front <+: data) :
    header front = header data ∨ header front = .ok none ∧
      ∀ head, header data = .ok (some head) → front.length < head.start := by
  match front with
  | [] | [_] =>
    refine .inr ⟨rfl, fun head hhead => ?_⟩
    obtain ⟨_, _, _, start, -, hextent, -, hmasking⟩ := of_header hhead
    have hstart := (two_le_extent hextent).trans (start_le_masking hmasking)
    simp only [List.length_nil, List.length_singleton]
    omega
  | first :: second :: front =>
    obtain ⟨rest, rfl⟩ := h
    obtain hextent | ⟨hextent, hstart⟩ := extent_prefix (List.prefix_append front rest) second
    · have hmasking := masking_prefix (List.prefix_append (first :: second :: front) rest) (second &&& 0x80 != 0)
      simp only [List.cons_append] at hmasking
      simp only [header, List.cons_append, ← hextent]
      split_ifs
      · exact .inl rfl
      · cases Opcode.fromCode (first &&& 0x0f) with
        | none => exact .inl rfl
        | some opcode =>
          rcases extent second front with error | _ | ⟨start, length⟩
          · exact .inl rfl
          · exact .inl rfl
          · dsimp only
            cases verifyControl opcode (first &&& 0x80 != 0) length with
            | error error => exact .inl rfl
            | ok _ =>
              obtain hsame | ⟨hnone, hless⟩ := hmasking start
              · rw [hsame]
                exact .inl rfl
              · rw [hnone]
                refine .inr ⟨rfl, fun head hhead => ?_⟩
                cases hmask : masking (second &&& 0x80 != 0) start (first :: second :: (front ++ rest)) with
                | none =>
                  rw [hmask] at hhead
                  cases hhead
                | some found =>
                  rw [hmask] at hhead
                  cases hhead
                  exact hless _ _ hmask
    · have hless : ∀ head, header (first :: second :: front ++ rest) = .ok (some head) →
          (first :: second :: front).length < head.start := by
        intro head hhead
        obtain ⟨_, _, _, start, hdata, hsome, -, hmasking⟩ := of_header hhead
        cases hdata
        exact (hstart _ _ hsome).trans_le (start_le_masking hmasking)
      simp only [List.cons_append] at hless
      simp only [header, List.cons_append, hextent] at hless ⊢
      split_ifs at hless ⊢
      · exact .inl rfl
      · cases hopcode : Opcode.fromCode (first &&& 0x0f) with
        | none => exact .inl rfl
        | some opcode =>
          rw [hopcode] at hless
          exact .inr ⟨rfl, hless⟩

theorem decode_eq_some {data : Octets} {head : FrameHead} :
    decode data = .ok (some head) ↔ header data = .ok (some head) ∧ head.finish ≤ data.length := by
  rw [decode]
  rcases header data with error | _ | head'
  · exact ⟨fun h => (by cases h), fun h => (by cases h.1)⟩
  · exact ⟨fun h => (by cases h), fun h => (by cases h.1)⟩
  · rw [Except.map, Option.filter_some]
    by_cases hle : head'.finish ≤ data.length
    · rw [if_pos (decide_eq_true hle)]
      refine ⟨fun h => ?_, fun h => h.1⟩
      cases h
      exact ⟨rfl, hle⟩
    · rw [if_neg (by rwa [decide_eq_true_eq])]
      refine ⟨fun h => (by cases h), fun h => ?_⟩
      cases h.1
      exact absurd h.2 hle

/-- A beginning of a stream that holds a frame of it whole has that frame. -/
theorem decode_of_le {front data : Octets} {head : FrameHead} (h : front <+: data)
    (hdecode : decode data = .ok (some head)) (hle : head.finish ≤ front.length) : decode front = .ok (some head) := by
  obtain ⟨hheader, -⟩ := decode_eq_some.1 hdecode
  obtain hsame | ⟨-, hless⟩ := header_prefix h
  · exact decode_eq_some.2 ⟨hsame.trans hheader, hle⟩
  · have hstart := (hless head hheader).trans_le (Nat.le_add_right head.start head.length)
    exact absurd hle (Nat.not_le.2 hstart)

/-- A beginning of a stream is read as the stream is, or not yet. -/
theorem decode_prefix {front data : Octets} (h : front <+: data) :
    decode front = .ok none ∨ decode front = decode data := by
  rcases hfront : decode front with error | _ | head
  · right
    obtain hsame | ⟨hnone, -⟩ := header_prefix h
    · rw [decode] at hfront ⊢
      rw [← hsame]
      rcases hheader : header front with e | _ | head <;> rw [hheader] at hfront
      · exact hfront.symm
      · cases hfront
      · cases hfront
    · rw [decode, hnone] at hfront
      cases hfront
  · exact .inl rfl
  · right
    obtain ⟨hheader, hle⟩ := decode_eq_some.1 hfront
    obtain hsame | ⟨hnone, -⟩ := header_prefix h
    · exact (decode_eq_some.2 ⟨hsame.symm.trans hheader, hle.trans h.length_le⟩).symm
    · cases hheader.symm.trans hnone

theorem two_le_finish {data : Octets} {head : FrameHead} (h : decode data = .ok (some head)) : 2 ≤ head.finish := by
  obtain ⟨_, _, _, start, -, hextent, -, hmasking⟩ := of_header (decode_eq_some.1 h).1
  exact ((two_le_extent hextent).trans (start_le_masking hmasking)).trans (Nat.le_add_right _ _)

theorem header_error {data : Octets} {error : Error} (h : header data = .error error) :
    ∃ reason quoted, error = .protocol reason quoted := by
  match data with
  | [] | [_] => cases h
  | first :: second :: rest =>
    rw [header] at h
    split_ifs at h
    · cases h
      exact ⟨_, _, rfl⟩
    · cases hopcode : Opcode.fromCode (first &&& 0x0f) with
      | none =>
        rw [hopcode] at h
        cases h
        exact ⟨_, _, rfl⟩
      | some opcode =>
        rw [hopcode] at h
        dsimp only at h
        rcases hextent : extent second rest with error' | _ | ⟨start, length⟩ <;> rw [hextent] at h
        · cases h
          exact extent_error hextent
        · cases h
        · dsimp only at h
          rcases hcontrol : verifyControl opcode (first &&& 0x80 != 0) length with error' | _ <;> rw [hcontrol] at h
          · cases h
            exact verifyControl_error hcontrol
          · dsimp only at h
            split at h <;> cases h
where
  extent_error {second : UInt8} {rest : Octets} {error : Error} (h : extent second rest = .error error) :
      ∃ reason quoted, error = .protocol reason quoted := by
    rw [extent] at h
    split_ifs at h
    split at h
    · cases h
    · split_ifs at h
      cases h
      exact ⟨_, _, rfl⟩
  verifyControl_error {opcode : Opcode} {fin : Bool} {length : ℕ} {error : Error}
      (h : verifyControl opcode fin length = .error error) : ∃ reason quoted, error = .protocol reason quoted := by
    rw [verifyControl] at h
    split_ifs at h <;> cases h
    · exact ⟨_, _, rfl⟩
    · exact ⟨_, _, rfl⟩

end FrameHead

/-- One WebSocket frame. The payload is always unmasked here. -/
structure Frame where
  fin : Bool
  opcode : Opcode
  mask : Option Mask
  payload : Octets
  deriving DecidableEq

namespace Frame

/-- A complete, unmasked frame. -/
def new (opcode : Opcode) (payload : Octets) : Frame := ⟨true, opcode, none, payload⟩

/-- A bit in the highest place. -/
def high (bit : Bool) : UInt8 := if bit then 0x80 else 0

/-- What says how long a payload is, and whether it is masked. -/
def encodeLength (masked : Bool) (length : ℕ) : Octets :=
  if length ≤ 125 then [high masked ||| .ofNat length]
  else if length ≤ 65535 then (high masked ||| 126) :: bytes 2 length
  else (high masked ||| 127) :: bytes 8 length

/-- The whole frame. -/
def encode (frame : Frame) : Octets :=
  (high frame.fin ||| frame.opcode.code) :: (encodeLength frame.mask.isSome frame.payload.length ++
    match frame.mask with
    | some mask => mask.octets ++ mask.apply frame.payload
    | none => frame.payload)

/-- Reads one frame, and says how many octets it took. -/
def decode (data : Octets) : Except Error (Option (ℕ × Frame)) :=
  (FrameHead.decode data).map fun head => head.map fun head =>
    let payload := (data.take head.finish).drop head.start
    (head.finish, ⟨head.fin, head.opcode, head.mask, match head.mask with
      | some mask => mask.apply payload
      | none => payload⟩)

/-- What stands before the payload, or before the mask of it. -/
def lengthOctets (frame : Frame) : ℕ :=
  if frame.payload.length ≤ 125 then 2 else if frame.payload.length ≤ 65535 then 4 else 10

/-- The head of the frame. -/
def head (frame : Frame) : FrameHead where
  fin := frame.fin
  opcode := frame.opcode
  mask := frame.mask
  start := frame.lengthOctets + if frame.mask.isSome then 4 else 0
  length := frame.payload.length

theorem first_bits (fin : Bool) (opcode : Opcode) : (high fin ||| opcode.code) &&& 0x70 = 0 ∧
    Opcode.fromCode ((high fin ||| opcode.code) &&& 0x0f) = some opcode ∧
    ((high fin ||| opcode.code) &&& 0x80 != 0) = fin := by
  cases fin <;> cases opcode <;> decide

theorem second_bits {length : ℕ} (h : length < 128) (masked : Bool) :
    (high masked ||| .ofNat length) &&& 0x7f = .ofNat length ∧ ((high masked ||| .ofNat length) &&& 0x80 != 0) = masked := by
  have hall : ∀ (length : Fin 128) (masked : Bool), (high masked ||| .ofNat length) &&& 0x7f = .ofNat length ∧
      ((high masked ||| .ofNat length) &&& 0x80 != 0) = masked := by decide +kernel
  exact hall ⟨length, h⟩ masked

/-- The octets before the payload, of a frame with some of what follows it. -/
theorem encode_append (frame : Frame) (rest : Octets) : frame.encode ++ rest =
    (high frame.fin ||| frame.opcode.code) :: (encodeLength frame.mask.isSome frame.payload.length ++
      (((frame.mask.map Mask.octets).getD [] ++ (frame.mask.elim frame.payload (·.apply frame.payload))) ++ rest)) := by
  rw [encode, List.cons_append, List.append_assoc]
  cases frame.mask <;> rfl

theorem ahead_append (count value : ℕ) (rest : Octets) : ahead count (bytes count value ++ rest) = some (bytes count value) := by
  rw [ahead, List.length_append, length_bytes, if_pos (Nat.le_add_right _ _), ← length_bytes count value, List.take_left']
  rw [length_bytes]

theorem extent_encodeLength (masked : Bool) {length : ℕ} (h : length < 2 ^ 63) (rest : Octets) :
    ∃ second more, encodeLength masked length ++ rest = second :: more ∧ (second &&& 0x80 != 0) = masked ∧
      FrameHead.extent second more =
        .ok (some (if length ≤ 125 then 2 else if length ≤ 65535 then 4 else 10, length)) := by
  rw [encodeLength]
  split_ifs with hshort hlong
  · obtain ⟨hlow, hhigh⟩ := second_bits (by omega : length < 128) masked
    have hof : (UInt8.ofNat length).toNat = length := UInt8.toNat_ofNat_of_lt (Nat.lt_of_le_of_lt hshort (by decide))
    refine ⟨_, _, List.cons_append, hhigh, ?_⟩
    rw [FrameHead.extent, hlow, if_neg, if_neg, hof]
    · intro heq
      have := congrArg UInt8.toNat heq
      rw [hof] at this
      exact absurd (this.symm.trans_le hshort) (by decide)
    · intro heq
      have := congrArg UInt8.toNat heq
      rw [hof] at this
      exact absurd (this.symm.trans_le hshort) (by decide)
  · have hbits : (high masked ||| 126) &&& 0x7f = 126 ∧ _ := second_bits (by decide : 126 < 128) masked
    refine ⟨_, _, List.cons_append, hbits.2, ?_⟩
    rw [FrameHead.extent, hbits.1, if_pos rfl, ahead_append, Option.map_some, number_bytes, Nat.mod_eq_of_lt (by omega)]
  · have hbits : (high masked ||| 127) &&& 0x7f = 127 ∧ _ := second_bits (by decide : 127 < 128) masked
    have hmod : length % 256 ^ 8 = length := Nat.mod_eq_of_lt (h.trans (by decide))
    refine ⟨_, _, List.cons_append, hbits.2, ?_⟩
    rw [FrameHead.extent, hbits.1, if_neg (by decide), if_pos rfl, ahead_append]
    dsimp only
    rw [number_bytes, hmod, if_neg (Nat.not_le.2 h)]

theorem length_encodeLength (masked : Bool) (length : ℕ) : (encodeLength masked length).length + 1 =
    if length ≤ 125 then 2 else if length ≤ 65535 then 4 else 10 := by
  rw [encodeLength]
  split_ifs
  · rfl
  · rw [List.length_cons, length_bytes]
  · rw [List.length_cons, length_bytes]

/-- The octets a frame takes. -/
theorem length_encode (frame : Frame) : frame.encode.length = frame.head.finish := by
  have hlength := length_encodeLength frame.mask.isSome frame.payload.length
  rw [FrameHead.finish, head, lengthOctets, ← hlength, encode, List.length_cons, List.length_append]
  cases frame.mask with
  | none => simp only [Option.isSome_none, Bool.false_eq_true, if_false]; omega
  | some mask => simp only [Option.isSome_some, if_true, List.length_append, Mask.length_apply, Mask.octets, List.length_cons, List.length_nil]; omega

theorem masking_encode (frame : Frame) (rest : Octets) :
    FrameHead.masking frame.mask.isSome frame.lengthOctets (frame.encode ++ rest) =
      some (frame.mask, frame.head.start) := by
  have hlength : (encodeLength frame.mask.isSome frame.payload.length).length + 1 = frame.lengthOctets :=
    length_encodeLength frame.mask.isSome frame.payload.length
  have hhead : frame.head.start = frame.lengthOctets + if frame.mask.isSome then 4 else 0 := rfl
  rw [encode_append, FrameHead.masking, hhead]
  cases hmask : frame.mask with
  | none => rfl
  | some mask =>
    rw [hmask, Option.isSome_some] at hlength
    rw [Option.isSome_some, if_pos rfl, if_pos rfl, ← hlength, List.drop_succ_cons, List.drop_left]
    rfl

/-- The header of a frame is read back as it was written, or refused for what it is. -/
theorem header_encode {frame : Frame} (h : frame.payload.length < 2 ^ 63) (rest : Octets) :
    FrameHead.header (frame.encode ++ rest) =
      (FrameHead.verifyControl frame.opcode frame.fin frame.payload.length).map fun _ => some frame.head := by
  have hmasking := masking_encode frame rest
  rw [encode_append] at hmasking ⊢
  obtain ⟨second, more, hsplit, hhigh, hextent⟩ := extent_encodeLength frame.mask.isSome h
    (((frame.mask.map Mask.octets).getD [] ++ (frame.mask.elim frame.payload (·.apply frame.payload))) ++ rest)
  obtain ⟨hreserved, hopcode, hfin⟩ := first_bits frame.fin frame.opcode
  rw [hsplit] at hmasking ⊢
  rw [FrameHead.header, if_neg (not_not.2 hreserved), hopcode]
  dsimp only
  rw [hextent, hfin, hhigh]
  dsimp only
  cases FrameHead.verifyControl frame.opcode frame.fin frame.payload.length with
  | error error => rfl
  | ok _ =>
    dsimp only
    rw [lengthOctets] at hmasking
    rw [hmasking]
    rfl

theorem payload_encode (frame : Frame) (rest : Octets) :
    ((frame.encode ++ rest).take frame.head.finish).drop frame.head.start =
      frame.mask.elim frame.payload (·.apply frame.payload) := by
  have hlength : (encodeLength frame.mask.isSome frame.payload.length).length + 1 = frame.lengthOctets :=
    length_encodeLength frame.mask.isSome frame.payload.length
  have hhead : frame.head.start = frame.lengthOctets + if frame.mask.isSome then 4 else 0 := rfl
  rw [← length_encode, List.take_left, hhead, encode]
  cases hmask : frame.mask with
  | none =>
    rw [hmask, Option.isSome_none] at hlength
    rw [Option.isSome_none, if_neg Bool.false_ne_true, Nat.add_zero, ← hlength, List.drop_succ_cons, List.drop_left]
    rfl
  | some mask =>
    rw [hmask, Option.isSome_some] at hlength
    rw [Option.isSome_some, if_pos rfl, ← hlength, Nat.add_right_comm, List.drop_succ_cons, ← List.drop_drop, List.drop_left]
    rfl

/-- A frame is read back as it was written, whatever follows it, unless it is a control frame that may not be. -/
theorem decode_encode {frame : Frame} (h : frame.payload.length < 2 ^ 63) (rest : Octets) :
    decode (frame.encode ++ rest) =
      (FrameHead.verifyControl frame.opcode frame.fin frame.payload.length).map fun _ =>
        some (frame.encode.length, frame) := by
  have hheader := header_encode h rest
  rw [decode]
  cases hcontrol : FrameHead.verifyControl frame.opcode frame.fin frame.payload.length with
  | error error =>
    rw [hcontrol] at hheader
    rw [FrameHead.decode, hheader]
    rfl
  | ok _ =>
    rw [hcontrol] at hheader
    have hdecode : FrameHead.decode (frame.encode ++ rest) = .ok (some frame.head) := by
      refine FrameHead.decode_eq_some.2 ⟨hheader, ?_⟩
      rw [List.length_append, length_encode]
      exact Nat.le_add_right _ _
    rw [hdecode]
    simp only [Except.map, Option.map_some, payload_encode, length_encode]
    obtain ⟨fin, opcode, mask, payload⟩ := frame
    cases mask with
    | none => rfl
    | some mask => simp only [head, Option.elim_some, Mask.apply_apply]

theorem decode_eq_some {data : Octets} {count : ℕ} {frame : Frame} (h : decode data = .ok (some (count, frame))) :
    ∃ head, FrameHead.decode data = .ok (some head) ∧ head.finish = count := by
  obtain ⟨head, hhead, hfound⟩ := Except.map_eq_ok h
  cases head with
  | none => cases hfound
  | some head =>
    cases hfound
    exact ⟨head, hhead, rfl⟩

/-- A frame that is malformed is a breach of the protocol. -/
theorem decode_error {data : Octets} {error : Error} (h : decode data = .error error) :
    ∃ reason quoted, error = .protocol reason quoted := by
  rw [decode, FrameHead.decode] at h
  rcases hheader : FrameHead.header data with error' | head <;> rw [hheader] at h <;> cases h
  exact FrameHead.header_error hheader

/-- A frame takes octets that are there. -/
theorem decode_bounds {data : Octets} {count : ℕ} {frame : Frame} (h : decode data = .ok (some (count, frame))) :
    2 ≤ count ∧ count ≤ data.length := by
  obtain ⟨head, hhead, rfl⟩ := decode_eq_some h
  exact ⟨FrameHead.two_le_finish hhead, (FrameHead.decode_eq_some.1 hhead).2⟩

theorem decode_congr {front data : Octets} (h : front <+: data)
    (hsame : FrameHead.decode front = FrameHead.decode data) : decode front = decode data := by
  rw [decode, decode, ← hsame]
  rcases hfront : FrameHead.decode front with error | _ | head
  · rfl
  · rfl
  · have htake : data.take head.finish = front.take head.finish := by
      obtain ⟨rest, rfl⟩ := h
      exact List.take_append_of_le_length (FrameHead.decode_eq_some.1 hfront).2
    simp only [Except.map, Option.map_some, htake]

/-- A beginning of a stream is read as the stream is, or not yet. -/
theorem decode_prefix {front data : Octets} (h : front <+: data) :
    decode front = .ok none ∨ decode front = decode data := by
  obtain hnone | hsame := FrameHead.decode_prefix h
  · left
    rw [decode, hnone]
    rfl
  · exact .inr (decode_congr h hsame)

/-- A beginning of a stream that holds a frame of it whole has that frame. -/
theorem decode_of_le {front data : Octets} {count : ℕ} {frame : Frame} (h : front <+: data)
    (hdecode : decode data = .ok (some (count, frame))) (hle : count ≤ front.length) :
    decode front = .ok (some (count, frame)) := by
  obtain ⟨head, hhead, rfl⟩ := decode_eq_some hdecode
  rw [decode_congr h ((FrameHead.decode_of_le h hhead hle).trans hhead.symm), hdecode]

/-- How many octets show a frame for what it is: all of it, or the length of a control frame that may not be. -/
def shown (frame : Frame) : ℕ :=
  match FrameHead.verifyControl frame.opcode frame.fin frame.payload.length with
  | .ok _ => frame.encode.length
  | .error _ => frame.lengthOctets

theorem two_le_shown (frame : Frame) : 2 ≤ frame.shown := by
  have hlength : 2 ≤ frame.lengthOctets := by
    rw [lengthOctets]
    split_ifs <;> decide
  rw [shown]
  split
  · rw [length_encode]
    exact (hlength.trans (Nat.le_add_right _ _)).trans (Nat.le_add_right _ _)
  · exact hlength

theorem shown_le (frame : Frame) : frame.shown ≤ frame.encode.length := by
  rw [shown]
  split
  · exact Nat.le_refl _
  · rw [length_encode]
    exact (Nat.le_add_right _ _).trans (Nat.le_add_right _ _)

/-- A beginning of a control frame that may not be is refused once its length is there. -/
theorem header_refused {frame : Frame} {error : Error} (h : frame.payload.length < 2 ^ 63)
    (hcontrol : FrameHead.verifyControl frame.opcode frame.fin frame.payload.length = .error error) {front rest : Octets}
    (hfront : front <+: frame.encode ++ rest) :
    FrameHead.header front = if front.length < frame.lengthOctets then .ok none else .error error := by
  have htwo : 2 ≤ frame.lengthOctets := by
    rw [lengthOctets]
    split_ifs <;> decide
  rw [encode_append] at hfront
  obtain ⟨second, more, hsplit, -, hextent⟩ := extent_encodeLength frame.mask.isSome h
    (((frame.mask.map Mask.octets).getD [] ++ (frame.mask.elim frame.payload (·.apply frame.payload))) ++ rest)
  obtain ⟨hreserved, hopcode, hfin⟩ := first_bits frame.fin frame.opcode
  rw [hsplit] at hfront
  rw [← lengthOctets] at hextent
  match front with
  | [] => exact (if_pos (Nat.lt_of_lt_of_le Nat.two_pos htwo)).symm
  | [_] => exact (if_pos (Nat.lt_of_lt_of_le Nat.one_lt_two htwo)).symm
  | first :: second' :: front =>
    obtain ⟨hfirst, hrest⟩ := List.cons_prefix_cons.1 hfront
    obtain ⟨hsecond, hmore⟩ := List.cons_prefix_cons.1 hrest
    subst hfirst hsecond
    rw [FrameHead.header, if_neg (not_not.2 hreserved), hopcode]
    dsimp only
    rw [hfin]
    obtain hsame | ⟨hnone, hless⟩ := FrameHead.extent_prefix hmore second'
    · have hle := FrameHead.extent_le (hsame.trans hextent)
      rw [hsame, hextent]
      dsimp only
      rw [hcontrol]
      exact (if_neg (Nat.not_lt.2 hle)).symm
    · rw [hnone]
      exact (if_pos (hless _ _ hextent)).symm

/-- A beginning of a frame that is not all there shows nothing, and one that shows it for what it is does. -/
theorem decode_shown {frame : Frame} (h : frame.payload.length < 2 ^ 63) {front rest : Octets}
    (hfront : front <+: frame.encode ++ rest) : decode front = .ok none ↔ front.length < frame.shown := by
  have hdecode := decode_encode h rest
  rw [shown]
  rcases hcontrol : FrameHead.verifyControl frame.opcode frame.fin frame.payload.length with error | _
  · have hheader := header_refused h hcontrol hfront
    rw [decode, FrameHead.decode, hheader]
    dsimp only
    split_ifs with hless
    · exact iff_of_true rfl hless
    · exact iff_of_false (fun hnone => by cases hnone) hless
  · rw [hcontrol] at hdecode
    dsimp only
    constructor
    · intro hnone
      by_contra hle
      cases hnone.symm.trans (decode_of_le hfront hdecode (Nat.not_lt.1 hle))
    · intro hless
      obtain hnone | hsame := decode_prefix hfront
      · exact hnone
      · exact absurd (decode_bounds (hsame.trans hdecode)).2 (Nat.not_le.2 hless)

end Frame

end WebSocket

end Soyokaze

import Soyokaze.Protocol.H3.Frames

/-!
# The frames of HTTP/3, off the wire

Frames are taken off the front of a buffer as they arrive, those of unknown types being
passed over.

* `Frame.params_written`, `Frame.assemble_payload`: what a frame is written as, it is read back
  from;
* `Frame.parseAll_append`: what arrives later is taken up where the frames before it end;
* `Frame.coded`: all of it at the buffer. A number above the largest there is, which a frame
  can hold, is read back as another.
-/

namespace Soyokaze

open H3

namespace Varint

/-- A value that has arrived is not another one when more arrives. -/
theorem decode_append {input : Octets} (h : (decode input).1 ≠ 0) (rest : Octets) :
    decode (input ++ rest) = decode input := by
  rcases input with _ | ⟨first, input⟩
  · exact absurd rfl h
  · rw [decode] at h
    rw [List.cons_append, decode, decode]
    split_ifs at h with hshort
    · exact absurd rfl h
    · have hlong : ¬(input ++ rest).length + 1 < 2 ^ (first.toNat / 64) := by
        rw [List.length_append]
        omega
      rw [if_neg hlong, if_neg hshort, List.take_append_of_le_length (by omega)]

theorem decode_le (input : Octets) : (decode input).1 ≤ input.length := by
  rcases input with _ | ⟨first, input⟩
  · exact Nat.le_refl _
  · rw [decode]
    split_ifs with h
    · exact Nat.zero_le _
    · rw [List.length_cons]
      omega

end Varint

namespace H3.Frame

/-! ## What a buffer holds -/

theorem whole_append {data : Octets} {found : ℕ × ℕ × ℕ} (h : whole data = some found) (rest : Octets) :
    whole (data ++ rest) = some found := by
  rw [whole] at h ⊢
  dsimp only at h ⊢
  split_ifs at h with hnone
  push Not at hnone
  obtain ⟨htaken, htook, hlength⟩ := hnone
  have hdrop : (data ++ rest).drop (Varint.decode data).1 = data.drop (Varint.decode data).1 ++ rest :=
    List.drop_append_of_le_length (Varint.decode_le data)
  rw [Varint.decode_append htaken, hdrop, Varint.decode_append htook, if_neg, h]
  rw [List.length_append]
  push Not
  exact ⟨htaken, htook, by omega⟩

theorem le_of_whole {data : Octets} {consumed code length : ℕ} (h : whole data = some (consumed, code, length)) :
    consumed + length ≤ data.length := by
  rw [whole] at h
  dsimp only at h
  split_ifs at h with hnone
  cases h
  push Not at hnone
  exact hnone.2.2

theorem parse_of_whole {data : Octets} (h : whole data = none) : parse data = (.ok none, data) := by
  rw [parse, parseLoop, h]

theorem pos_of_whole {data : Octets} {consumed code length : ℕ}
    (h : whole data = some (consumed, code, length)) : 0 < consumed := by
  rw [whole] at h
  dsimp only at h
  split_ifs at h with hnone
  cases h
  push Not at hnone
  omega

/-- A frame that is taken off a buffer leaves less of it. -/
theorem length_parse {buffer rest : Octets} {frame : Frame} (h : parse buffer = (.ok (some frame), rest)) :
    rest.length < buffer.length := by
  suffices hloop : ∀ (fuel : ℕ) (data : Octets), parseLoop fuel data = (.ok (some frame), rest) →
      rest.length < data.length from hloop _ _ h
  intro fuel
  induction fuel with
  | zero =>
    intro data hrun
    cases hrun
  | succ fuel ih =>
    intro data hrun
    rw [parseLoop] at hrun
    split at hrun
    · cases hrun
    · next consumed code length hwhole =>
      have hpos := pos_of_whole hwhole
      have hle := le_of_whole hwhole
      split_ifs at hrun
      · cases hrun
      · split at hrun
        · cases congrArg Prod.snd hrun
          rw [List.length_drop]
          omega
        · have := ih _ hrun
          rw [List.length_drop] at this
          omega

/-- A frame leaves less of the buffer it is taken off. -/
theorem length_drop_whole {buffer : Octets} {consumed code length : ℕ} (h : whole buffer = some (consumed, code, length)) :
    (buffer.drop (consumed + length)).length < buffer.length := by
  have hle := le_of_whole h
  have hpos := pos_of_whole h
  rw [List.length_drop]
  omega

/-- How often it may be gone on does not matter, if that is often enough. -/
theorem parseLoop_fuel {fuel fuel' : ℕ} {buffer : Octets} (h : buffer.length < fuel) (h' : buffer.length < fuel') :
    parseLoop fuel buffer = parseLoop fuel' buffer := by
  induction fuel generalizing fuel' buffer with
  | zero => exact absurd h (Nat.not_lt_zero _)
  | succ fuel ih =>
    obtain ⟨fuel', rfl⟩ := Nat.exists_eq_succ_of_ne_zero (Nat.ne_zero_of_lt h')
    rw [parseLoop, parseLoop]
    rcases hwhole : whole buffer with _ | ⟨consumed, code, length⟩
    · rfl
    · have hless := length_drop_whole hwhole
      dsimp only
      have hshorter : (buffer.drop (consumed + length)).length < fuel' := by omega
      rw [ih (by omega) hshorter]

/-- Parsing, a frame of an unknown type at a time. -/
theorem parse_eq (buffer : Octets) : parse buffer = match whole buffer with
    | none => (.ok none, buffer)
    | some (consumed, code, length) =>
      if FrameType.RESERVED.contains code then
        (.error (.protocol "frame type {code:#x} is reserved" [.number code]), buffer)
      else match FrameType.fromCode code with
        | some kind =>
          ((assemble kind ((buffer.drop consumed).take length)).map some, buffer.drop (consumed + length))
        | none => parse (buffer.drop (consumed + length)) := by
  rw [parse, parseLoop]
  rcases hwhole : whole buffer with _ | ⟨consumed, code, length⟩
  · rfl
  · have hless := length_drop_whole hwhole
    have hrest : parseLoop buffer.length (buffer.drop (consumed + length)) = parse (buffer.drop (consumed + length)) :=
      parseLoop_fuel hless (Nat.lt_succ_self _)
    dsimp only
    split_ifs
    · rfl
    · cases FrameType.fromCode code with
      | some kind => rfl
      | none => exact hrest

/-- A frame that is there in whole is the same whatever follows, and so is what is wrong with one;
    and where there is none, none was passed over. -/
theorem parse_append (buffer more : Octets) :
    (∀ frame rest, parse buffer = (.ok (some frame), rest) → parse (buffer ++ more) = (.ok (some frame), rest ++ more)) ∧
      (∀ rest, parse buffer = (.ok none, rest) → parse (buffer ++ more) = parse (rest ++ more)) ∧
        ∀ error rest, parse buffer = (.error error, rest) → parse (buffer ++ more) = (.error error, rest ++ more) := by
  induction hlength : buffer.length using Nat.strong_induction_on generalizing buffer with
  | _ n ih =>
    subst hlength
    rw [parse_eq buffer]
    rcases hwhole : whole buffer with _ | ⟨consumed, code, length⟩
    · refine ⟨fun _ _ h => ?_, fun _ h => ?_, fun _ _ h => ?_⟩ <;> cases h
      rfl
    · have hle := le_of_whole hwhole
      have hdrop : (buffer ++ more).drop (consumed + length) = buffer.drop (consumed + length) ++ more :=
        List.drop_append_of_le_length hle
      have htake : ((buffer ++ more).drop consumed).take length = (buffer.drop consumed).take length := by
        rw [List.drop_append_of_le_length (by omega), List.take_append_of_le_length]
        rw [List.length_drop]
        omega
      rw [parse_eq (buffer ++ more), whole_append hwhole]
      dsimp only
      rw [hdrop, htake]
      split_ifs
      · refine ⟨fun _ _ h => ?_, fun _ h => ?_, fun _ _ h => ?_⟩ <;> cases h
        rfl
      · cases FrameType.fromCode code with
        | none => exact ih _ (length_drop_whole hwhole) _ rfl
        | some kind =>
          dsimp only
          cases assemble kind ((buffer.drop consumed).take length) with
          | error error =>
            refine ⟨fun _ _ h => ?_, fun _ h => ?_, fun _ _ h => ?_⟩ <;> cases h
            rfl
          | ok frame =>
            refine ⟨fun _ _ h => ?_, fun _ h => ?_, fun _ _ h => ?_⟩ <;> cases h
            rfl

theorem length_encode (frame : Frame) : frame.encode.length =
    Varint.len frame.kind.code + Varint.len frame.payload.length + frame.payload.length := by
  rw [encode, write, List.length_append, List.length_append, length_encode_varint, length_encode_varint]

/-- What is short of a frame is no frame. -/
theorem whole_of_short {frame : Frame} (h : frame.payload.length ≤ Varint.MAXIMUM) {piece rest : Octets}
    (hsplit : piece ++ rest = frame.encode) (hrest : rest ≠ []) : whole piece = none := by
  rcases hwhole : whole piece with _ | ⟨consumed, code, length⟩
  · rfl
  · have hall : whole (write frame.kind frame.payload ++ []) = _ := whole_write h []
    rw [List.append_nil, ← encode, ← hsplit, whole_append hwhole] at hall
    cases hall
    have hle := le_of_whole hwhole
    have hlength : piece.length + rest.length = frame.encode.length := by rw [← hsplit, List.length_append]
    have hpos := List.length_pos_of_ne_nil hrest
    rw [length_encode] at hlength
    omega

/-! ## Reading back -/

/-- How long the payload will be, worked out without writing it. -/
def payloadLen : Frame → ℕ
  | .data octets | .headers octets => octets.length
  | .cancelPush id | .maxPushId id | .goAway id => Varint.len id
  | .settings params => (params.map fun (id, value) => Varint.len id + Varint.len value).sum
  | .pushPromise id block => Varint.len id + block.length

theorem payloadLen_eq (frame : Frame) : frame.payloadLen = frame.payload.length := by
  cases frame with
  | data | headers => rfl
  | cancelPush | maxPushId | goAway => exact (length_encode_varint _).symm
  | pushPromise id block => rw [payloadLen, payload, List.length_append, length_encode_varint]
  | settings params =>
    rw [payloadLen, payload, List.length_flatMap]
    refine congrArg List.sum (List.map_congr_left fun param _ => ?_)
    rw [List.length_append, length_encode_varint, length_encode_varint]

/-- The numbers a frame is written with are such as can be written. -/
structure InRange (frame : Frame) : Prop where
  length_le : frame.payload.length ≤ Varint.MAXIMUM
  numbers : match frame with
    | .data _ | .headers _ => True
    | .cancelPush id | .maxPushId id | .goAway id | .pushPromise id _ => id ≤ Varint.MAXIMUM
    | .settings params => ∀ param ∈ params, param.1 ≤ Varint.MAXIMUM ∧ param.2 ≤ Varint.MAXIMUM

/-- No setting is repeated. -/
def Distinct : Frame → Prop
  | .settings params => (params.map Prod.fst).Nodup
  | _ => True

theorem only_encode {value : ℕ} (h : value ≤ Varint.MAXIMUM) (name : String) :
    Varint.only (Varint.encode value) name = .ok value := by
  have hdecode : Varint.decode (Varint.encode value) = (Varint.len value, value) := by
    simpa using Varint.decode_encode h []
  have hpos := len_pos value
  rw [Varint.only, hdecode]
  exact if_neg (by rw [length_encode_varint]; omega)

theorem params_written {fuel : ℕ} {read list : List (ℕ × ℕ)}
    (h : ∀ param ∈ list, param.1 ≤ Varint.MAXIMUM ∧ param.2 ≤ Varint.MAXIMUM)
    (hdistinct : ((read ++ list).map Prod.fst).Nodup) (hfuel : list.length < fuel) :
    params fuel read (list.flatMap fun (id, value) => Varint.encode id ++ Varint.encode value) = .ok (read ++ list) := by
  induction list generalizing fuel read with
  | nil =>
    obtain ⟨fuel, rfl⟩ := Nat.exists_eq_succ_of_ne_zero (Nat.ne_zero_of_lt hfuel)
    rw [List.append_nil]
    rfl
  | cons param list ih =>
    obtain ⟨fuel, rfl⟩ := Nat.exists_eq_succ_of_ne_zero (Nat.ne_zero_of_lt hfuel)
    obtain ⟨id, value⟩ := param
    rw [List.forall_mem_cons] at h
    obtain ⟨⟨hid, hvalue⟩, h⟩ := h
    have hpos := len_pos id
    have hpos' := len_pos value
    rw [List.flatMap_cons]
    dsimp only
    generalize hrest : (list.flatMap fun (id, value) => Varint.encode id ++ Varint.encode value) = rest
    have hnonempty : (Varint.encode id ++ Varint.encode value ++ rest).isEmpty = false := by
      rw [List.isEmpty_eq_false_iff, ← List.length_pos_iff]
      simp only [List.length_append, length_encode_varint]
      omega
    have hdrop : (Varint.encode id ++ (Varint.encode value ++ rest)).drop (Varint.len id) = Varint.encode value ++ rest := by
      rw [← length_encode_varint id, List.drop_left]
    have hdrop' : (Varint.encode value ++ rest).drop (Varint.len value) = rest := by
      rw [← length_encode_varint value, List.drop_left]
    -- The setting is none of those before it.
    have hnew : read.any (·.1 == id) = false := by
      rw [List.map_append, List.map_cons, List.nodup_append] at hdistinct
      rw [List.any_eq_false]
      intro other hother heq
      exact hdistinct.2.2 other.1 (List.mem_map_of_mem hother) id List.mem_cons_self (beq_iff_eq.1 heq)
    rw [params, hnonempty, if_neg nofun, List.append_assoc, Varint.decode_encode hid]
    dsimp only
    rw [hdrop, Varint.decode_encode hvalue]
    dsimp only
    rw [if_neg (by omega), hnew, if_neg nofun, ← List.drop_drop, hdrop, hdrop', ← hrest,
      ih h (by rwa [List.append_assoc]) (Nat.lt_of_succ_lt_succ hfuel), List.append_assoc]
    rfl

theorem length_le_payload (list : List (ℕ × ℕ)) : list.length ≤ (settings list).payload.length := by
  induction list with
  | nil => exact Nat.le_refl _
  | cons param list ih =>
    have hpos := len_pos param.1
    simp only [payload, List.flatMap_cons, List.length_append, List.length_cons, length_encode_varint] at ih ⊢
    omega

theorem assemble_payload {frame : Frame} (h : frame.InRange) (hdistinct : frame.Distinct) :
    assemble frame.kind frame.payload = .ok frame := by
  have hnumbers := h.numbers
  cases frame with
  | data | headers => rfl
  | cancelPush id | maxPushId id | goAway id =>
    rw [kind, assemble, payload, only_encode hnumbers]
    rfl
  | settings list =>
    have hfuel : list.length < (settings list).payload.length + 1 := Nat.lt_succ_of_le (length_le_payload list)
    have hwritten : params ((settings list).payload.length + 1) [] (settings list).payload = .ok list :=
      params_written hnumbers hdistinct hfuel
    change (params ((settings list).payload.length + 1) [] (settings list).payload).map settings = _
    rw [hwritten]
    rfl
  | pushPromise id block =>
    have hpos := len_pos id
    rw [kind, assemble, payload, Varint.decode_encode hnumbers]
    dsimp only
    rw [if_neg hpos.ne', ← length_encode_varint id, List.drop_left]

theorem parse_encode {frame : Frame} (h : frame.InRange) (hdistinct : frame.Distinct) (rest : Octets) :
    parse (frame.encode ++ rest) = (.ok (some frame), rest) := by
  rw [encode, parse_written h.length_le, assemble_payload h hdistinct]
  rfl

/-- A frame that has not fully arrived is left. -/
theorem parse_short {frame : Frame} (h : frame.InRange) {front : Octets} (hfront : front <+: frame.encode)
    (hne : front ≠ frame.encode) : parse front = (.ok none, front) := by
  obtain ⟨rest, hrest⟩ := hfront
  refine parse_of_whole (whole_of_short h.length_le hrest ?_)
  rintro rfl
  exact hne (by rw [← hrest, List.append_nil])

/-! ## A buffer that is filled in pieces -/

/-- Takes frames off a buffer until none is there in whole, or one is wrong: the frames, what was
    wrong, and what is left. -/
def parseAll : ℕ → Octets → List Frame × Option Error × Octets
  | 0, buffer => ([], none, buffer)
  | fuel + 1, buffer =>
    match parse buffer with
    | (.ok none, rest) => ([], none, rest)
    | (.ok (some frame), rest) =>
      let (frames, error, left) := parseAll fuel rest
      (frame :: frames, error, left)
    | (.error error, rest) => ([], some error, rest)

/-- Takes frames off a buffer that is filled piece by piece, until one is wrong. -/
def parseArriving : Octets → List Octets → List Frame × Option Error × Octets
  | buffer, [] => parseAll (buffer.length + 1) buffer
  | buffer, piece :: pieces =>
    match parseAll (buffer.length + 1) buffer with
    | (frames, some error, left) => (frames, some error, left ++ (piece :: pieces).flatten)
    | (frames, none, left) =>
      let (frames', error, left) := parseArriving (left ++ piece) pieces
      (frames ++ frames', error, left)

theorem parseAll_fuel {fuel m : ℕ} {buffer : Octets} (h : buffer.length < fuel) (h' : buffer.length < m) :
    parseAll fuel buffer = parseAll m buffer := by
  induction fuel generalizing m buffer with
  | zero => exact absurd h (Nat.not_lt_zero _)
  | succ fuel ih =>
    obtain ⟨m, rfl⟩ := Nat.exists_eq_succ_of_ne_zero (Nat.ne_zero_of_lt h')
    rw [parseAll, parseAll]
    rcases hparse : parse buffer with ⟨error | _ | frame, rest⟩
    · rfl
    · rfl
    · have hless := length_parse hparse
      dsimp only
      rw [ih (m := m) (by omega) (by omega)]

theorem parseAll_frame {buffer rest : Octets} {frame : Frame} (h : parse buffer = (.ok (some frame), rest)) :
    parseAll (buffer.length + 1) buffer =
      (frame :: (parseAll (rest.length + 1) rest).1, (parseAll (rest.length + 1) rest).2) := by
  have hless := length_parse h
  rw [parseAll, h]
  dsimp only
  rw [parseAll_fuel (m := rest.length + 1) (by omega) (by omega)]

theorem parseAll_none {buffer rest : Octets} (h : parse buffer = (.ok none, rest)) :
    parseAll (buffer.length + 1) buffer = ([], none, rest) := by
  rw [parseAll, h]

theorem parseAll_error {buffer rest : Octets} {error : Error} (h : parse buffer = (.error error, rest)) :
    parseAll (buffer.length + 1) buffer = ([], some error, rest) := by
  rw [parseAll, h]

/-- What more arrives is taken up where the frames that had arrived end, if none of them is wrong. -/
theorem parseAll_append (buffer more : Octets) : parseAll ((buffer ++ more).length + 1) (buffer ++ more) =
    match parseAll (buffer.length + 1) buffer with
    | (frames, some error, left) => (frames, some error, left ++ more)
    | (frames, none, left) => (frames ++ (parseAll ((left ++ more).length + 1) (left ++ more)).1,
        (parseAll ((left ++ more).length + 1) (left ++ more)).2) := by
  induction hlength : buffer.length using Nat.strong_induction_on generalizing buffer with
  | _ n ih =>
    subst hlength
    obtain ⟨hframe, hnone, herror⟩ := parse_append buffer more
    rcases hparse : parse buffer with ⟨error | _ | frame, rest⟩
    · rw [parseAll_error hparse, parseAll_error (herror error rest hparse)]
    · rw [parseAll_none hparse]
      dsimp only
      rw [List.nil_append]
      have hsame := hnone rest hparse
      rcases hrest : parse (rest ++ more) with ⟨error | _ | frame, left⟩
      · rw [parseAll_error (hsame.trans hrest), parseAll_error hrest]
      · rw [parseAll_none (hsame.trans hrest), parseAll_none hrest]
      · rw [parseAll_frame (hsame.trans hrest), parseAll_frame hrest]
    · rw [parseAll_frame hparse, parseAll_frame (hframe frame rest hparse), ih _ (length_parse hparse) rest rfl]
      rcases parseAll (rest.length + 1) rest with ⟨frames, - | error, left⟩ <;> rfl

theorem parseArriving_eq (buffer : Octets) (pieces : List Octets) : parseArriving buffer pieces =
    parseAll ((buffer ++ pieces.flatten).length + 1) (buffer ++ pieces.flatten) := by
  induction pieces generalizing buffer with
  | nil => rw [List.flatten_nil, List.append_nil, parseArriving]
  | cons piece pieces ih =>
    rw [parseArriving, parseAll_append]
    rcases parseAll (buffer.length + 1) buffer with ⟨frames, - | error, left⟩
    · dsimp only
      rw [ih, List.flatten_cons, List.append_assoc]
    · rfl

/-- Numbers that can be written are read back, and frames of such numbers that repeat no setting,
    with the length worked out for them; they are left until they are there in whole; and however
    the buffer is filled, the same known frames come off it, the same is found wrong, and the same
    is left. -/
theorem coded :
    (∀ value ≤ Varint.MAXIMUM, (Varint.encode value).length = Varint.len value ∧
      ∀ rest, Varint.decode (Varint.encode value ++ rest) = (Varint.len value, value)) ∧
      (∀ frame : Frame, frame.payloadLen = frame.payload.length) ∧
      (∀ frame : Frame, frame.InRange → frame.Distinct →
        (∀ rest, parse (frame.encode ++ rest) = (.ok (some frame), rest)) ∧
          ∀ front, front <+: frame.encode → front ≠ frame.encode → parse front = (.ok none, front)) ∧
      ∀ (buffer : Octets) (pieces : List Octets), parseArriving buffer pieces =
        parseAll ((buffer ++ pieces.flatten).length + 1) (buffer ++ pieces.flatten) :=
  ⟨fun value h => ⟨length_encode_varint value, Varint.decode_encode h⟩, payloadLen_eq,
    fun _ h hdistinct => ⟨parse_encode h hdistinct, fun _ => parse_short h⟩, parseArriving_eq⟩

/-- A number that is too large is read back as another. -/
theorem large_number_lost : ¬ ∀ frame : Frame, frame.Distinct → ∀ rest,
    parse (frame.encode ++ rest) = (.ok (some frame), rest) := by
  intro h
  have hparse := h (.cancelPush (2 ^ 62)) trivial []
  revert hparse
  decide

end H3.Frame

end Soyokaze

import Soyokaze.Protocol.H3.PeerStreams
import Soyokaze.Helpers.QpackCuts

/-!
# The control stream, wherever it is cut

The control stream brings frames, and the two instruction streams instructions; each is
read an item at a time, and no item may grow past a limit. What is measured is all that a
call finds, and not the item.

* `H3Session.controlStream`: the control stream is an inlet, as the instruction streams are;
* `streams_cut_alike_iff`: two ways of cutting one of them come to the same, with nothing
  blamed for its size that is not too large, exactly if every call finds no more than the
  limit or one item that is larger by itself.
-/

namespace Soyokaze

open H3

/-! ## Frames as items -/

namespace Varint

/-- A value takes no notice of what is cut off behind it. -/
theorem decode_take {data : Octets} {k : ℕ} (hpos : (decode data).1 ≠ 0) (hk : (decode data).1 ≤ k) :
    decode (data.take k) = decode data := by
  cases data with
  | nil => exact absurd rfl hpos
  | cons first rest =>
    have hlength : 0 < 2 ^ (first.toNat / 64) := Nat.two_pow_pos _
    rw [decode] at hpos hk
    split_ifs at hpos hk with hshort
    · exact absurd rfl hpos
    · obtain ⟨k, rfl⟩ := Nat.exists_eq_succ_of_ne_zero (hlength.trans_le hk).ne'
      have hlong : ¬ (rest.take k).length + 1 < 2 ^ (first.toNat / 64) := by
        rw [List.length_take]
        dsimp only at hk
        omega
      rw [List.take_succ_cons, decode, decode, if_neg hlong, if_neg hshort, List.take_take,
        Nat.min_eq_left (by dsimp only at hk; omega)]

end Varint

namespace H3

namespace Frame

/-- A frame is whole by itself. -/
theorem whole_take {data : Octets} {consumed code length : ℕ} (h : whole data = some (consumed, code, length)) :
    whole (data.take (consumed + length)) = some (consumed, code, length) := by
  rw [whole] at h ⊢
  dsimp only at h ⊢
  split_ifs at h with hnone
  push Not at hnone
  obtain ⟨htaken, htook, hlength⟩ := hnone
  cases h
  have hdrop : (data.take ((Varint.decode data).1 + (Varint.decode (data.drop (Varint.decode data).1)).1 +
      (Varint.decode (data.drop (Varint.decode data).1)).2)).drop (Varint.decode data).1 =
      (data.drop (Varint.decode data).1).take ((Varint.decode (data.drop (Varint.decode data).1)).1 +
        (Varint.decode (data.drop (Varint.decode data).1)).2) := by
    rw [List.drop_take]
    congr 1
    omega
  rw [Varint.decode_take htaken (by omega), hdrop, Varint.decode_take htook (by omega), if_neg]
  rw [List.length_take]
  push Not
  exact ⟨htaken, htook, by omega⟩

/-- The frame at the front of a buffer: its type and its payload. -/
def read (buffer : Octets) : Except (Option Error) (ℕ × ℕ × Octets) :=
  match whole buffer with
  | none => .error none
  | some (consumed, code, length) =>
    if FrameType.RESERVED.contains code then
      .error (some (.protocol "frame type {code:#x} is reserved" [.number code]))
    else .ok (consumed + length, code, (buffer.drop consumed).take length)

theorem read_of_none {buffer : Octets} (h : whole buffer = none) : read buffer = .error none := by
  rw [read, h]

theorem read_of_reserved {buffer : Octets} {consumed code length : ℕ} (h : whole buffer = some (consumed, code, length))
    (hreserved : FrameType.RESERVED.contains code = true) :
    read buffer = .error (some (.protocol "frame type {code:#x} is reserved" [.number code])) := by
  rw [read, h]
  exact if_pos hreserved

theorem read_of_whole {buffer : Octets} {consumed code length : ℕ} (h : whole buffer = some (consumed, code, length))
    (hreserved : FrameType.RESERVED.contains code = false) :
    read buffer = .ok (consumed + length, code, (buffer.drop consumed).take length) := by
  rw [read, h]
  exact if_neg (by rw [hreserved]; nofun)

/-- A frame that can be read is there in whole. -/
theorem of_read {buffer : Octets} {n code : ℕ} {payload : Octets} (h : read buffer = .ok (n, code, payload)) :
    ∃ consumed length, whole buffer = some (consumed, code, length) ∧ FrameType.RESERVED.contains code = false ∧
      n = consumed + length ∧ payload = (buffer.drop consumed).take length := by
  rcases hwhole : whole buffer with - | ⟨consumed, code', length⟩
  · rw [read_of_none hwhole] at h
    cases h
  · rcases hreserved : FrameType.RESERVED.contains code' with - | -
    · rw [read_of_whole hwhole hreserved] at h
      cases h
      exact ⟨consumed, length, rfl, hreserved, rfl, rfl⟩
    · rw [read_of_reserved hwhole hreserved] at h
      cases h

theorem settles_read : Framing.Settles read none where
  stays {bs} hbs cs := by
    rcases hwhole : whole bs with - | ⟨consumed, code, length⟩
    · exact absurd (read_of_none hwhole) hbs
    · have hle := le_of_whole hwhole
      rcases hreserved : FrameType.RESERVED.contains code with - | -
      · rw [read_of_whole hwhole hreserved, read_of_whole (whole_append hwhole cs) hreserved,
          List.drop_append_of_le_length (by omega), List.take_append_of_le_length]
        rw [List.length_drop]
        omega
      · rw [read_of_reserved hwhole hreserved, read_of_reserved (whole_append hwhole cs) hreserved]
  within {bs n item} h := by
    obtain ⟨consumed, length, hwhole, -, rfl, -⟩ := of_read h
    exact le_of_whole hwhole
  alone {bs n item} h := by
    obtain ⟨consumed, length, hwhole, hreserved, rfl, hpayload⟩ := of_read h
    rw [read_of_whole (whole_take hwhole) hreserved, List.drop_take, Nat.add_sub_cancel_left, List.take_take,
      Nat.min_self, ← hpayload]

theorem advances_read : Framing.Advances read where
  pos {bs n item} h := by
    obtain ⟨consumed, length, hwhole, -, rfl, -⟩ := of_read h
    exact Nat.add_pos_left (pos_of_whole hwhole) length

/-- A frame that cannot be read is misspelt. -/
theorem never_read (reason : String) (quoted : List Quoted) : Framing.Never read (some (.limit reason quoted)) := by
  intro bs hbs
  rcases hwhole : whole bs with - | ⟨consumed, code, length⟩
  · rw [read_of_none hwhole] at hbs
    cases hbs
  · rcases hreserved : FrameType.RESERVED.contains code with - | -
    · rw [read_of_whole hwhole hreserved] at hbs
      cases hbs
    · rw [read_of_reserved hwhole hreserved] at hbs
      cases hbs

end Frame

end H3

/-! ## The control stream -/

namespace H3Session

/-- What a step has come to, where the error that asks for more is `none`. -/
def report (ended : Except Error Unit × H3Session) : H3Session × Option (Option Error) :=
  (ended.2, match ended.1 with
    | .ok _ => none
    | .error error => some (some error))

/-- Takes up the frame with this type and payload, if the type is known. -/
def takeControl (s : H3Session) (frame : ℕ × Octets) : H3Session × Option (Option Error) :=
  match FrameType.fromCode frame.1 with
  | none => (s, none)
  | some kind =>
    match Frame.assemble kind frame.2 with
    | .error error => (s, some (some error))
    | .ok frame => report ((absorbControl frame).run s)

/-- The session, had it other octets of the control stream. -/
def holding (s : H3Session) (buffer : Octets) : H3Session := { s with controlRecv := buffer }

/-- A frame is taken up the same whatever octets are held. -/
theorem absorbControl_holding (s : H3Session) (buffer : Octets) (frame : Frame) :
    (absorbControl frame).run (s.holding buffer) =
      (((absorbControl frame).run s).1, ((absorbControl frame).run s).2.holding buffer) := by
  have hlike : Act.Respects (fun s s' => s' = holding s buffer) (absorbControl frame) := by
    cases frame with
    | settings params =>
      refine Act.respects_get_bind (fun s s' h => by subst h; rfl) fun s => ?_
      refine (Act.respects_demand _ _).bind fun _ => (Act.respects_ofExcept _).bind fun settings => ?_
      exact Act.respects_modify fun s s' h => by subst h; rfl
    | goAway id => exact Act.respects_modify fun s s' h => by subst h; rfl
    | maxPushId | cancelPush => exact Act.respects_pure _
    | headers | data | pushPromise => exact Act.respects_fail _
  exact Prod.ext (hlike s _ rfl).1 (hlike s _ rfl).2

theorem report_holding (ended : Except Error Unit × H3Session) (buffer : Octets) :
    report (ended.1, ended.2.holding buffer) = ((report ended).1.holding buffer, (report ended).2) := rfl

/-- A frame is passed over, misspelt, or taken up. -/
theorem takeControl_cases (frame : ℕ × Octets) :
    (∀ s, takeControl s frame = (s, none)) ∨
      (∃ reason quoted, ∀ s, takeControl s frame = (s, some (some (.protocol reason quoted)))) ∨
      ∃ known, ∀ s, takeControl s frame = report ((absorbControl known).run s) := by
  rcases hkind : FrameType.fromCode frame.1 with - | kind
  · exact .inl fun s => by rw [takeControl, hkind]
  · rcases hassemble : Frame.assemble kind frame.2 with error | known
    · obtain ⟨reason, quoted, rfl⟩ := Frame.misspelt_assemble kind frame.2 error hassemble
      refine .inr (.inl ⟨reason, quoted, fun s => ?_⟩)
      rw [takeControl, hkind]
      dsimp only
      rw [hassemble]
    · refine .inr (.inr ⟨known, fun s => ?_⟩)
      rw [takeControl, hkind]
      dsimp only
      rw [hassemble]

theorem takeControl_holding (s : H3Session) (frame : ℕ × Octets) (buffer : Octets) :
    takeControl (s.holding buffer) frame = ((takeControl s frame).1.holding buffer, (takeControl s frame).2) := by
  rcases takeControl_cases frame with h | ⟨_, _, h⟩ | ⟨known, h⟩
  · rw [h, h]
  · rw [h, h]
  · rw [h, h, absorbControl_holding, report_holding]

/-- No frame is taken up and said to be too large. -/
theorem takeControl_ne (s : H3Session) (frame : ℕ × Octets) (reason : String) (quoted : List Quoted) :
    (takeControl s frame).2 ≠ some (some (.limit reason quoted)) := by
  rcases takeControl_cases frame with h | ⟨_, _, h⟩ | ⟨known, h⟩ <;> rw [h]
  · nofun
  · nofun
  · intro hlimit
    rcases hrun : (absorbControl known).run s with ⟨error | _, s'⟩
    · obtain ⟨_, _, rfl⟩ := absorbControl_protocol known s error (congrArg Prod.fst hrun)
      rw [hrun] at hlimit
      cases hlimit
    · rw [hrun] at hlimit
      cases hlimit

theorem limits_absorbControl (s : H3Session) (frame : Frame) : ((absorbControl frame).run s).2.limits = s.limits := by
  have hkeeps : ∀ s, ((absorbControl frame).run s).2.limits = s.limits := by
    cases frame with
    | settings params =>
      have hbind {α : Type} {m : Step α} {f : α → Step Unit} (hm : ∀ s, (m.run s).2.limits = s.limits)
          (hf : ∀ a s, ((f a).run s).2.limits = s.limits) : ∀ s, ((m >>= f).run s).2.limits = s.limits :=
        Act.Keeps.bind (R := fun s s' : H3Session => s'.limits = s.limits) (fun h h' => h'.trans h) hm hf
      exact hbind (fun _ => rfl) fun _ => hbind (fun _ => rfl) fun _ => hbind (fun _ => rfl) fun _ _ => rfl
    | goAway id => exact fun _ => rfl
    | maxPushId | cancelPush => exact fun _ => rfl
    | headers | data | pushPromise => exact fun _ => rfl
  exact hkeeps s

theorem limits_takeControl (s : H3Session) (frame : ℕ × Octets) : (takeControl s frame).1.limits = s.limits := by
  rcases takeControl_cases frame with h | ⟨_, _, h⟩ | ⟨known, h⟩ <;> rw [h]
  exact limits_absorbControl s known

/-- The frames that are there in whole, taken up one by one. -/
def takeAll (s : H3Session) (buffer : Octets) : H3Session × Octets × Option (Option Error) :=
  Framing.drain Frame.read (fun error => decide (error = none)) takeControl (buffer.length + 1) s buffer

/-- Frames of unknown types are passed over, and so the first that is known is taken up. -/
theorem takeAll_eq (s : H3Session) (buffer : Octets) : takeAll s buffer = match Frame.parse buffer with
    | (.error error, rest) => (s, rest, some (some error))
    | (.ok none, rest) => (s, rest, none)
    | (.ok (some frame), rest) => match report ((absorbControl frame).run s) with
      | (s, none) => takeAll s rest
      | (s, some error) => (s, rest, some error) := by
  induction hlength : buffer.length using Nat.strong_induction_on generalizing buffer with
  | _ k ih =>
    subst hlength
    rw [Frame.parse_eq]
    rcases hwhole : Frame.whole buffer with - | ⟨consumed, code, length⟩
    · exact Framing.drain_error (Frame.read_of_none hwhole) s
    · dsimp only
      rcases hreserved : FrameType.RESERVED.contains code with - | -
      · have hread := Frame.read_of_whole hwhole hreserved
        rw [if_neg nofun]
        rcases hkind : FrameType.fromCode code with - | kind
        · have happly : takeControl s (code, (buffer.drop consumed).take length) = (s, none) := by
            rw [takeControl, hkind]
          rw [takeAll, Framing.drain_next Frame.advances_read Frame.settles_read.within hread happly]
          exact ih _ (Frame.length_drop_whole hwhole) _ rfl
        · rcases hassemble : Frame.assemble kind ((buffer.drop consumed).take length) with error | frame
          · have happly : takeControl s (code, (buffer.drop consumed).take length) = (s, some (some error)) := by
              rw [takeControl, hkind]
              dsimp only
              rw [hassemble]
            dsimp only
            rw [hassemble]
            exact Framing.drain_refused hread happly
          · have happly : takeControl s (code, (buffer.drop consumed).take length) =
                report ((absorbControl frame).run s) := by
              rw [takeControl, hkind]
              dsimp only
              rw [hassemble]
            dsimp only
            rw [hassemble]
            dsimp only [Except.map]
            rcases hreport : report ((absorbControl frame).run s) with ⟨t, - | error⟩
            · exact Framing.drain_next Frame.advances_read Frame.settles_read.within hread (happly.trans hreport)
            · exact Framing.drain_refused hread (happly.trans hreport)
      · exact Framing.drain_error (Frame.read_of_reserved hwhole hreserved) s

theorem takeAll_holding (s : H3Session) (held buffer : Octets) :
    takeAll (s.holding held) buffer = ((takeAll s buffer).1.holding held, (takeAll s buffer).2) :=
  Framing.drain_map (f := fun s => holding s held) (fun s frame => takeControl_holding s frame held) _ s buffer

/-- Taking up all of them is what the loop does. -/
theorem run_controlLoop {fuel : ℕ} {s : H3Session} (hfuel : s.controlRecv.length < fuel) :
    report ((controlLoop fuel).run s) =
      ((takeAll s s.controlRecv).1.holding (takeAll s s.controlRecv).2.1, (takeAll s s.controlRecv).2.2) := by
  induction fuel generalizing s with
  | zero => exact absurd hfuel (Nat.not_lt_zero _)
  | succ fuel ih =>
    rw [controlLoop, Act.run_bind_ok (Act.run_get s), Act.run_bind_ok (Act.run_modify _ _), Act.run_bind,
      Act.run_ofExcept, takeAll_eq]
    rcases hparse : Frame.parse s.controlRecv with ⟨error | - | frame, rest⟩
    · rfl
    · rfl
    · change report ((absorbControl frame >>= fun _ => controlLoop fuel).run (s.holding rest)) = _
      rw [Act.run_bind, absorbControl_holding]
      dsimp only
      rcases hrun : (absorbControl frame).run s with ⟨error | _, t⟩
      · rfl
      · have hless := Frame.length_parse hparse
        have hrest := ih (s := t.holding rest) (hless.trans_le (Nat.le_of_lt_succ hfuel))
        rw [show (t.holding rest).controlRecv = rest from rfl, takeAll_holding] at hrest
        exact hrest

theorem report_onControlBytes (s : H3Session) (bytes : Octets) : report ((onControlBytes bytes).run s) =
    if s.limits.maxHeadersSize < (s.controlRecv ++ bytes).length then
      (s.holding (s.controlRecv ++ bytes),
        some (some (.limit "a control frame exceeds {limit} octets" [.number s.limits.maxHeadersSize])))
    else
      let taken := takeAll s (s.controlRecv ++ bytes)
      (taken.1.holding taken.2.1, taken.2.2) := by
  rw [onControlBytes, Act.run_bind_ok (Act.run_modify _ _), Act.run_bind_ok (Act.run_get _)]
  split_ifs with hlarge
  · rw [Act.run_bind_refused (decide_eq_false (Nat.not_le.2 hlarge))]
    rfl
  · rw [Act.run_bind_demand (decide_eq_true (Nat.le_of_not_lt hlarge))]
    have hloop := run_controlLoop (s := s.holding (s.controlRecv ++ bytes)) (Nat.lt_succ_self _)
    rw [show (s.holding (s.controlRecv ++ bytes)).controlRecv = s.controlRecv ++ bytes from rfl,
      takeAll_holding] at hloop
    exact hloop

/-- The peer's control stream, as it is taken in. -/
def controlStream : Inlet H3Session UInt8 (Option Error) (ℕ × Octets) where
  call s bytes := report ((onControlBytes bytes).run s)
  read := Frame.read
  more := none
  tooLarge limit := some (.limit "a control frame exceeds {limit} octets" [.number limit])
  limit s := s.limits.maxHeadersSize
  unread s := s.controlRecv
  keep := holding
  apply := takeControl
  call_eq := report_onControlBytes
  settles := Frame.settles_read
  advances := Frame.advances_read
  read_ne _ := Frame.never_read _ _
  apply_ne s frame _ := takeControl_ne s frame _ _
  apply_keep s frame buffer := takeControl_holding s frame buffer
  limit_keep _ _ := rfl
  limit_apply s frame := congrArg _ (limits_takeControl s frame)
  unread_keep _ _ := rfl
  keep_keep _ _ _ := rfl

end H3Session

/-! ## Wherever they are cut -/

open Qpack

/-- The instruction streams of QPACK and the control stream: two ways of cutting one into
    calls come to the same, and blame an instruction or a frame only where one is too large,
    exactly if in both of them every call finds no more than the limit, or one instruction
    or frame that is larger by itself. -/
theorem streams_agree_iff {pieces pieces' : List Octets} (h : pieces.flatten = pieces'.flatten) :
    (∀ d, (pieces = [] ∨ pieces' = [] → Decoder.encoderStream.Settled d) →
      (Decoder.encoderStream.Agree d pieces pieces' ↔
        Decoder.encoderStream.Fits d pieces ∧ Decoder.encoderStream.Fits d pieces')) ∧
    (∀ e, (pieces = [] ∨ pieces' = [] → Encoder.decoderStream.Settled e) →
      (Encoder.decoderStream.Agree e pieces pieces' ↔
        Encoder.decoderStream.Fits e pieces ∧ Encoder.decoderStream.Fits e pieces')) ∧
    ∀ s, (pieces = [] ∨ pieces' = [] → H3Session.controlStream.Settled s) →
      (H3Session.controlStream.Agree s pieces pieces' ↔
        H3Session.controlStream.Fits s pieces ∧ H3Session.controlStream.Fits s pieces') :=
  ⟨fun _ hs => Inlet.agree_iff h hs, fun _ hs => Inlet.agree_iff h hs, fun _ hs => Inlet.agree_iff h hs⟩

/-- An acknowledgement cut in two, or not, with another behind it. -/
theorem streams_agree_acknowledged :
    Encoder.decoderStream.Agree .new [[0xff, 0x01, 0x84]] [[0xff], [0x01, 0x84]] :=
  ((@streams_agree_iff [[0xff, 0x01, 0x84]] [[0xff], [0x01, 0x84]] rfl).2.1 .new (by simp)).2
    ⟨Inlet.fits_of_le (by decide), Inlet.fits_of_le (by decide)⟩

/-- Two increments are too large together, where neither is. -/
theorem streams_disagree :
    ¬ ∀ (e : Encoder) (pieces pieces' : List Octets), pieces.flatten = pieces'.flatten →
      Encoder.decoderStream.outcome e pieces = Encoder.decoderStream.outcome e pieces' := by
  intro h
  have hsame := h (Encoder.new.setMaxInstructionSize 1) [[0x01, 0x01]] [[0x01], [0x01]] rfl
  exact absurd (congrArg Prod.snd hsame) (by decide)

end Soyokaze

import Soyokaze.Protocol.H3.FrameCodec
import Soyokaze.Protocol.H3.Session

/-!
# However the octets arrive

A request stream is read as a sequence of frames, wherever the pieces its octets arrive
in are cut. So what a stream comes to is settled frame by frame: `Passes` and `Refuses`
say what a frame does to a stream that has come to a `Stage`, and the rest follows.

* `feed_passes`: frames that all pass, fed in any pieces, leave the stage after the last;
* `feed_refused`: frames of which one is refused fail, in whatever piece it is completed.
-/

namespace Soyokaze

open H3

/-! ## Frames and their pieces -/

namespace H3.Frame

/-- A frame that holds field or body octets, and no more than can be told how long it is. -/
def Plain (frame : Frame) : Prop :=
  (frame.kind = .data ∨ frame.kind = .headers) ∧ frame.payload.length ≤ Varint.MAXIMUM

theorem parse_plain {frame : Frame} (h : frame.Plain) (rest : Octets) :
    parse (frame.encode ++ rest) = (.ok (some frame), rest) := by
  rw [encode, parse_written h.2]
  cases frame <;> first | rfl | (rcases h.1 with h | h <;> cases h)

theorem two_le_encode (frame : Frame) : 2 ≤ frame.encode.length := by
  have hcode := len_pos frame.kind.code
  have hlength := len_pos frame.payload.length
  rw [length_encode]
  omega

/-- Frames one behind another. -/
def encodeAll (frames : List Frame) : Octets := frames.flatMap encode

@[simp] theorem encodeAll_nil : encodeAll [] = [] := rfl

@[simp] theorem encodeAll_cons (frame : Frame) (frames : List Frame) :
    encodeAll (frame :: frames) = frame.encode ++ encodeAll frames := rfl

theorem encodeAll_append (frames frames' : List Frame) :
    encodeAll (frames ++ frames') = encodeAll frames ++ encodeAll frames' := List.flatMap_append

theorem length_le_encodeAll (frames : List Frame) : 2 * frames.length ≤ (encodeAll frames).length := by
  induction frames with
  | nil => exact Nat.le_refl _
  | cons frame frames ih =>
    have := two_le_encode frame
    rw [encodeAll_cons, List.length_append, List.length_cons]
    omega

/-- What is short of a frame is not all of any. -/
theorem ne_encodeAll_of_short {piece : Octets} (h : whole piece = none) {frames : List Frame} (hsome : frames ≠ [])
    (hplain : ∀ frame ∈ frames, frame.Plain) : piece ≠ encodeAll frames := by
  rintro rfl
  obtain ⟨frame, frames, rfl⟩ := List.exists_cons_of_ne_nil hsome
  rw [encodeAll_cons, encode, whole_write (hplain frame List.mem_cons_self).2] at h
  cases h

/-- Wherever frames are cut, what is before the cut is some of them and less than the next. -/
theorem cut_frames {frames : List Frame} (hplain : ∀ frame ∈ frames, frame.Plain) {before rest : Octets}
    (h : before ++ rest = encodeAll frames) : ∃ done left short, frames = done ++ left ∧
      before = encodeAll done ++ short ∧ short ++ rest = encodeAll left ∧ whole short = none := by
  induction frames generalizing before with
  | nil =>
    obtain ⟨rfl, rfl⟩ := List.append_eq_nil_iff.1 h
    exact ⟨[], [], [], rfl, rfl, rfl, rfl⟩
  | cons frame frames ih =>
    rw [encodeAll_cons] at h
    rcases List.append_eq_append_iff.1 h with ⟨short, hencode, hrest⟩ | ⟨short, hbefore, hrest⟩
    · rcases eq_or_ne short [] with rfl | hshort
      · -- The cut is right behind the first frame.
        refine ⟨[frame], frames, [], rfl, ?_, ?_, rfl⟩
        · rw [List.append_nil] at hencode
          simp [hencode]
        · simpa using hrest
      · refine ⟨[], frame :: frames, before, rfl, rfl, by rw [encodeAll_cons, h], ?_⟩
        exact whole_of_short (hplain frame List.mem_cons_self).2 hencode.symm hshort
    · obtain ⟨done, left, short', hframes, hshort, hleft, hnone⟩ :=
        ih (fun f hf => hplain f (List.mem_cons_of_mem _ hf)) hrest.symm
      refine ⟨frame :: done, left, short', by rw [hframes]; rfl, ?_, hleft, hnone⟩
      rw [hbefore, hshort, encodeAll_cons, List.append_assoc]

end H3.Frame

/-! ## What a frame does to a stream -/

namespace H3Session

/-- What does not change while a message arrives on a stream: the stream as it was before
    the message, and what the session had ready. -/
structure Setting where
  id : ℕ
  held : StreamState
  limits : H3Limits
  secure : Bool
  ready : List Message

/-- How far a message has come: what there is of it, and the decoder of the next section. -/
structure Stage where
  decoder : Qpack.Decoder
  message : Option Message
  body : Octets

/-- A stream that has come to a stage with these octets yet to be parsed. It waits for
    nothing, and nothing of it has been delivered. -/
def Setting.state (x : Setting) (stage : Stage) (buffer : Octets) (eof : Bool) : StreamState := { x.held with
  buffer := buffer, body := stage.body, message := stage.message, pending := none, eof := eof, delivered := false
  raw := false }

/-- The session has the stream there, and room for so many more octets. -/
structure Stands (x : Setting) (stage : Stage) (buffer : Octets) (eof : Bool) (room : ℕ) (s : H3Session) : Prop where
  limits : s.limits = x.limits
  secure : s.secure = x.secure
  ready : s.ready = x.ready
  decoder : s.decoder = stage.decoder
  bound : s.bufferedBound + room ≤ x.limits.maxConnectionBufferSize
  stream : s.streams.lookup x.id = some (x.state stage buffer eof)

variable {world : World} {x : Setting} {stage stage' before after mid : Stage} {buffer : Octets} {eof : Bool}
  {room : ℕ} {s s' : H3Session} {frame : Frame} {frames : List Frame} {error : Error}

/-- The frame takes every stream that stands at a stage on to another. -/
def Passes (world : World) (x : Setting) (frame : Frame) (stage stage' : Stage) : Prop :=
  ∀ ⦃buffer eof room s⦄, Stands x stage buffer eof room s →
    ∃ s', (absorbFrame world x.id frame).run s = (.ok .again, s') ∧ Stands x stage' buffer eof room s'

/-- The frame is an error on every stream that stands at a stage. -/
def Refuses (world : World) (x : Setting) (frame : Frame) (stage : Stage) (error : Error) : Prop :=
  ∀ ⦃buffer eof room s⦄, Stands x stage buffer eof room s →
    ∃ s', (absorbFrame world x.id frame).run s = (.error error, s') ∧ s'.ready = x.ready

/-- The frames take a stream on one by one. -/
inductive PassesAll (world : World) (x : Setting) : List Frame → Stage → Stage → Prop
  | nil (stage : Stage) : PassesAll world x [] stage stage
  | cons {frame : Frame} {frames : List Frame} {stage mid stage' : Stage} (first : Passes world x frame stage mid)
      (rest : PassesAll world x frames mid stage') : PassesAll world x (frame :: frames) stage stage'

theorem PassesAll.append {frames' : List Frame} (h : PassesAll world x frames before mid)
    (h' : PassesAll world x frames' mid after) : PassesAll world x (frames ++ frames') before after := by
  induction h with
  | nil => exact h'
  | cons first _ ih => exact .cons first (ih h')

theorem PassesAll.of_append {frames' : List Frame} (h : PassesAll world x (frames ++ frames') before after) :
    ∃ mid, PassesAll world x frames before mid ∧ PassesAll world x frames' mid after := by
  induction frames generalizing before with
  | nil => exact ⟨before, .nil before, h⟩
  | cons frame frames ih =>
    obtain _ | ⟨first, rest⟩ := h
    obtain ⟨mid, hfront, hback⟩ := ih rest
    exact ⟨mid, .cons first hfront, hback⟩

/-! ## Changing the stream -/

theorem run_modifyStream (id : ℕ) (f : StreamState → StreamState) (s : H3Session) :
    (modifyStream id f).run s = (.ok (), { s with streams := StreamMap.modify s.streams id f }) := rfl

theorem run_stream {id : ℕ} {state : StreamState} (h : s.streams.lookup id = some state) :
    (stream id).run s = (.ok state, s) := by
  rw [Act.run, stream, h]

/-- The session once one of its streams is changed. -/
def changed (s : H3Session) (id : ℕ) (f : StreamState → StreamState) : H3Session :=
  { s with streams := StreamMap.modify s.streams id f }

theorem lookup_changed {id : ℕ} {state : StreamState} (h : s.streams.lookup id = some state)
    (f : StreamState → StreamState) : (s.changed id f).streams.lookup id = some (f state) := by
  rw [changed, StreamMap.lookup_modify, if_pos rfl, h]
  rfl

theorem Stands.changed {buffer' : Octets} {eof' : Bool} (h : Stands x stage buffer eof room s)
    {f : StreamState → StreamState} (hf : f (x.state stage buffer eof) = x.state stage' buffer' eof')
    (hdecoder : stage'.decoder = stage.decoder) : Stands x stage' buffer' eof' room (s.changed x.id f) :=
  { h with
    decoder := h.decoder.trans hdecoder.symm
    stream := (lookup_changed h.stream f).trans (congrArg some hf) }

/-- A round of parsing takes a frame off what is buffered, if one is there. -/
theorem advanceOnce_stands (world : World) {found : Option Frame} {rest : Octets} (hparse : Frame.parse buffer = (.ok found, rest))
    (h : Stands x stage buffer eof room s) : ∃ s', Stands x stage rest eof room s' ∧
      (advanceOnce world x.id).run s = (match found with
        | some frame => absorbFrame world x.id frame
        | none => pure (if eof then .finish else .stop)).run s' := by
  have htake : (takeFrame x.id (x.state stage buffer eof)).run s =
      (.ok found, s.changed x.id fun state => { state with buffer := (Frame.parse state.buffer).2 }) := by
    rw [takeFrame, Act.run_bind_ok (run_modifyStream _ _ _), Act.run_ofExcept]
    rw [show (x.state stage buffer eof).buffer = buffer from rfl, hparse]
    rfl
  refine ⟨_, h.changed (f := fun state => { state with buffer := (Frame.parse state.buffer).2 }) ?_ rfl, ?_⟩
  · simp only [Setting.state, hparse]
  · rw [advanceOnce, Act.run_bind_ok (Act.run_get s), h.stream]
    refine (Act.run_bind_ok htake _).trans ?_
    cases found <;> rfl

/-! ## Parsing as far as it goes -/

/-- Frames that all pass are parsed one a round. -/
theorem advanceLoop_passes (hplain : ∀ frame ∈ frames, frame.Plain) (hpasses : PassesAll world x frames stage stage')
    (fuel : ℕ) (h : Stands x stage (Frame.encodeAll frames ++ buffer) eof room s) :
    ∃ s', Stands x stage' buffer eof room s' ∧
      (advanceLoop world x.id (frames.length + fuel)).run s = (advanceLoop world x.id fuel).run s' := by
  induction hpasses generalizing s with
  | nil stage => exact ⟨s, h, by rw [List.length_nil, Nat.zero_add]⟩
  | @cons frame frames stage mid stage' first _ ih =>
    rw [Frame.encodeAll_cons, List.append_assoc] at h
    obtain ⟨s₁, hs₁, honce⟩ := advanceOnce_stands world
      (Frame.parse_plain (hplain frame List.mem_cons_self) _) h
    obtain ⟨s₂, habsorb, hs₂⟩ := first hs₁
    obtain ⟨s', hs', hloop⟩ := ih (fun f hf => hplain f (List.mem_cons_of_mem _ hf)) hs₂
    refine ⟨s', hs', ?_⟩
    rw [List.length_cons, Nat.succ_add, advanceLoop, Act.run_bind_ok (honce.trans habsorb)]
    exact hloop

/-- What a stream does once nothing is left to parse: it is delivered if its peer has
    finished. -/
def settle (id : ℕ) (eof : Bool) : Step Unit := if eof then deliver id else pure ()

theorem advanceLoop_short (world : World) (hshort : Frame.whole buffer = none) (fuel : ℕ) (h : Stands x stage buffer eof room s) :
    ∃ s', Stands x stage buffer eof room s' ∧
      (advanceLoop world x.id (fuel + 1)).run s = (settle x.id eof).run s' := by
  obtain ⟨s', hs', honce⟩ := advanceOnce_stands world (Frame.parse_of_whole hshort) h
  refine ⟨s', hs', ?_⟩
  rw [advanceLoop, Act.run_bind_ok honce]
  cases eof <;> rfl

/-- There is fuel for every frame that is buffered, and more. -/
theorem advance_fuel (world : World) {frames : List Frame} (hlength : 2 * frames.length ≤ buffer.length) (h : Stands x stage buffer eof room s) :
    ∃ fuel, (advance world x.id).run s = (advanceLoop world x.id (frames.length + (fuel + 2))).run s := by
  refine ⟨buffer.length - frames.length, ?_⟩
  rw [advance, Act.run_bind_ok (Act.run_get s), h.stream]
  rw [show frames.length + (buffer.length - frames.length + 2) = buffer.length + 2 by omega]
  rfl

/-! ## Feeding -/

/-- A stream that is held already is not counted again. -/
theorem run_admitStream {id : ℕ} {state : StreamState} (h : s.streams.lookup id = some state) :
    (admitStream id).run s = (.ok (), s) := by
  rw [admitStream, Act.run_bind_ok (Act.run_get s), h]
  rfl

theorem run_entry {id : ℕ} {state : StreamState} (h : s.streams.lookup id = some state) :
    (entry id).run s = (.ok (), s) := by
  rw [entry, Act.run_modify, h]
  rfl

theorem run_overbuffered (h : s.bufferedBound ≤ s.limits.maxConnectionBufferSize) :
    overbuffered.run s = (.ok false, s) := by
  rw [Act.run, overbuffered, if_pos h]

/-- The session once it has buffered octets of a stream. -/
def received (s : H3Session) (id : ℕ) (bytes : Octets) (fin : Bool) : H3Session :=
  { s.changed id fun state => { state with buffer := state.buffer ++ bytes, eof := state.eof || fin } with
    bufferedBound := min (s.bufferedBound + bytes.length) (2 ^ 64 - 1) }

/-- Octets that fit are buffered, and then parsed. -/
theorem run_onStreamBytes (world : World) {id : ℕ} {state : StreamState} {bytes : Octets} (fin : Bool)
    (h : s.streams.lookup id = some state) (hsize : (state.buffer ++ bytes).length ≤ s.limits.maxMessageSize)
    (hbound : s.bufferedBound + bytes.length ≤ s.limits.maxConnectionBufferSize) :
    (onStreamBytes world id bytes fin).run s = (advance world id).run (s.received id bytes fin) := by
  have hfits : (s.received id bytes fin).bufferedBound ≤ (s.received id bytes fin).limits.maxConnectionBufferSize :=
    (Nat.min_le_left _ _).trans hbound
  rw [onStreamBytes, Act.run_bind_ok (run_admitStream h), Act.run_bind_ok (run_entry h),
    Act.run_bind_ok (run_modifyStream _ _ _), ← changed, Act.run_bind_ok (run_stream (lookup_changed h _)),
    Act.run_bind_ok (Act.run_modify _ _), Act.run_bind_ok (Act.run_get _)]
  refine (Act.run_bind_demand (decide_eq_true hsize) _ _ _).trans ?_
  exact (Act.run_bind_ok (run_overbuffered hfits) _).trans rfl

theorem onStreamBytes_stands (world : World) {bytes : Octets} (fin : Bool)
    (h : Stands x stage buffer false (bytes.length + room) s)
    (hsize : (buffer ++ bytes).length ≤ x.limits.maxMessageSize) :
    ∃ s', Stands x stage (buffer ++ bytes) fin room s' ∧
      (onStreamBytes world x.id bytes fin).run s = (advance world x.id).run s' := by
  have hbound := h.bound
  refine ⟨s.received x.id bytes fin, ?_, run_onStreamBytes world fin h.stream (h.limits ▸ hsize) ?_⟩
  · have hbuffered : Stands x stage (buffer ++ bytes) fin (bytes.length + room)
        (s.changed x.id fun state => { state with buffer := state.buffer ++ bytes, eof := state.eof || fin }) :=
      h.changed rfl rfl
    refine { hbuffered with bound := ?_ }
    rw [received]
    dsimp only
    omega
  · rw [h.limits]
    omega

/-- Octets that complete frames have those parsed, and go on with what is left. -/
theorem onStreamBytes_passes (fin : Bool) {bytes left : Octets} (hplain : ∀ frame ∈ frames, frame.Plain)
    (hpasses : PassesAll world x frames stage stage') (hbytes : buffer ++ bytes = Frame.encodeAll frames ++ left)
    (hsize : (buffer ++ bytes).length ≤ x.limits.maxMessageSize)
    (h : Stands x stage buffer false (bytes.length + room) s) :
    ∃ s' fuel, Stands x stage' left fin room s' ∧
      (onStreamBytes world x.id bytes fin).run s = (advanceLoop world x.id (fuel + 2)).run s' := by
  obtain ⟨s₁, hs₁, hon⟩ := onStreamBytes_stands world fin h hsize
  have hlength := Frame.length_le_encodeAll frames
  rw [hbytes] at hs₁
  have hfuel : 2 * frames.length ≤ (Frame.encodeAll frames ++ left).length := by
    rw [List.length_append]
    omega
  obtain ⟨fuel, hadvance⟩ := advance_fuel world hfuel hs₁
  obtain ⟨s', hs', hloop⟩ := advanceLoop_passes hplain hpasses (fuel + 2) hs₁
  exact ⟨s', fuel, hs', hon.trans (hadvance.trans hloop)⟩

/-- Feeds octets in pieces, the peer finishing with the last. -/
def feed (world : World) (id : ℕ) : List Octets → Step Unit
  | [] => pure ()
  | piece :: pieces => do
    onStreamBytes world id piece pieces.isEmpty
    feed world id pieces

theorem feed_last (world : World) (id : ℕ) (last : Octets) (s : H3Session) :
    (feed world id [last]).run s = (onStreamBytes world id last true).run s := by
  rw [feed, Act.run_bind]
  rcases h : (onStreamBytes world id last [].isEmpty).run s with ⟨error | ⟨⟩, s'⟩ <;> exact h.symm

/-- Frames that all pass leave the stage after the last, whatever pieces they come in. -/
theorem feed_passes {pieces : List Octets} (hplain : ∀ frame ∈ frames, frame.Plain)
    (hpasses : PassesAll world x frames stage stage') (hsome : pieces ≠ [])
    (hpieces : buffer ++ pieces.flatten = Frame.encodeAll frames)
    (hsize : (Frame.encodeAll frames).length ≤ x.limits.maxMessageSize)
    (h : Stands x stage buffer false (pieces.flatten.length + room) s) :
    ∃ s', Stands x stage' [] true room s' ∧ (feed world x.id pieces).run s = (deliver x.id).run s' := by
  induction pieces generalizing buffer frames stage s with
  | nil => exact absurd rfl hsome
  | cons piece pieces ih =>
    have hpiece : (buffer ++ piece).length ≤ x.limits.maxMessageSize := by
      refine Nat.le_trans ?_ hsize
      rw [← hpieces, List.flatten_cons, ← List.append_assoc]
      exact (Nat.le_add_right _ _).trans List.length_append.ge
    rw [List.flatten_cons, ← List.append_assoc] at hpieces
    rw [List.flatten_cons, List.length_append, Nat.add_assoc] at h
    rcases eq_or_ne pieces [] with rfl | hmore
    · rw [List.flatten_nil, List.append_nil] at hpieces
      obtain ⟨s₁, fuel, hs₁, hon⟩ := onStreamBytes_passes true hplain hpasses
        (hpieces.trans (List.append_nil _).symm) hpiece h
      obtain ⟨s', hs', hloop⟩ := advanceLoop_short world rfl (fuel + 1) hs₁
      rw [List.flatten_nil, List.length_nil, Nat.zero_add] at hs'
      exact ⟨s', hs', (feed_last world x.id piece s).trans (hon.trans hloop)⟩
    · obtain ⟨done, left, short, rfl, hdone, hleft, hshort⟩ := Frame.cut_frames hplain hpieces
      obtain ⟨mid, hfront, hback⟩ := hpasses.of_append
      have hlength : (Frame.encodeAll left).length ≤ x.limits.maxMessageSize := by
        refine Nat.le_trans ?_ hsize
        rw [Frame.encodeAll_append, List.length_append]
        exact Nat.le_add_left _ _
      obtain ⟨s₁, fuel, hs₁, hon⟩ := onStreamBytes_passes false (fun f hf => hplain f (List.mem_append_left _ hf))
        hfront hdone hpiece h
      obtain ⟨s₂, hs₂, hloop⟩ := advanceLoop_short world hshort (fuel + 1) hs₁
      obtain ⟨s', hs', hfeed⟩ := ih (fun f hf => hplain f (List.mem_append_right _ hf)) hback hmore hleft hlength hs₂
      refine ⟨s', hs', ?_⟩
      rw [feed, List.isEmpty_eq_false_iff.2 hmore, Act.run_bind_ok (hon.trans hloop)]
      exact hfeed

/-- Behind frames that all pass, the next is come to in some piece, whatever pieces they
    come in. -/
theorem feed_reaches {later : List Frame} {pieces : List Octets} (hplain : ∀ f ∈ frames ++ frame :: later, f.Plain)
    (hpasses : PassesAll world x frames stage stage')
    (hpieces : buffer ++ pieces.flatten = Frame.encodeAll (frames ++ frame :: later))
    (hsize : (Frame.encodeAll (frames ++ frame :: later)).length ≤ x.limits.maxMessageSize)
    (hshort : Frame.whole buffer = none)
    (h : Stands x stage buffer false (pieces.flatten.length + room) s) :
    ∃ s' left rest fuel, Stands x stage' left rest.isEmpty (rest.flatten.length + room) s' ∧
      left.length + rest.flatten.length ≤ x.limits.maxMessageSize ∧
      (feed world x.id pieces).run s = (do
        match ← absorbFrame world x.id frame with
        | .again => advanceLoop world x.id fuel
        | .stop => pure ()
        | .finish => deliver x.id
        feed world x.id rest).run s' := by
  induction pieces generalizing buffer frames stage s with
  | nil =>
    rw [List.flatten_nil, List.append_nil] at hpieces
    exact absurd hpieces (Frame.ne_encodeAll_of_short hshort (List.append_ne_nil_of_right_ne_nil _ (List.cons_ne_nil _ _))
      hplain)
  | cons piece pieces ih =>
    rw [List.flatten_cons, ← List.append_assoc] at hpieces
    have hlength : (buffer ++ piece).length + pieces.flatten.length ≤ x.limits.maxMessageSize := by
      rwa [← List.length_append, hpieces]
    rw [List.flatten_cons, List.length_append, Nat.add_assoc] at h
    obtain ⟨done, left, short, hcut, hdone, hleft, hnone⟩ := Frame.cut_frames hplain hpieces
    -- The frame is completed by a later piece, or by this one.
    have hcases : (∃ front, frames = done ++ front ∧ left = front ++ frame :: later) ∨
        ∃ behind, done = frames ++ frame :: behind := by
      rcases List.append_eq_append_iff.1 hcut with ⟨behind, hbehind, hlater⟩ | hfront
      · rcases behind with _ | ⟨first, behind⟩
        · exact .inl ⟨[], by rw [hbehind, List.append_nil, List.append_nil], hlater.symm⟩
        · rw [List.cons_append] at hlater
          cases hlater
          exact .inr ⟨behind, hbehind⟩
      · exact .inl hfront
    rcases hcases with ⟨front, rfl, rfl⟩ | ⟨behind, rfl⟩
    · obtain ⟨mid, hbefore, hfront⟩ := hpasses.of_append
      have hmore : pieces ≠ [] := by
        rintro rfl
        rw [List.flatten_nil, List.append_nil] at hleft
        refine Frame.ne_encodeAll_of_short hnone ?_ ?_ hleft
        · exact List.append_ne_nil_of_right_ne_nil _ (List.cons_ne_nil _ _)
        · intro f hf
          rw [List.append_assoc] at hplain
          exact hplain f (List.mem_append_right _ hf)
      rw [List.append_assoc] at hplain hsize
      have hfits : (Frame.encodeAll (front ++ frame :: later)).length ≤ x.limits.maxMessageSize := by
        refine Nat.le_trans ?_ hsize
        rw [Frame.encodeAll_append done, List.length_append]
        exact Nat.le_add_left _ _
      obtain ⟨s₁, fuel, hs₁, hon⟩ := onStreamBytes_passes false
        (fun f hf => hplain f (List.mem_append_left _ hf)) hbefore hdone (Nat.le_of_add_right_le hlength) h
      obtain ⟨s₂, hs₂, hloop⟩ := advanceLoop_short world hnone (fuel + 1) hs₁
      obtain ⟨s', left, rest, fuel', hs', hroom, hfeed⟩ :=
        ih (fun f hf => hplain f (List.mem_append_right _ hf)) hfront hleft hfits hnone hs₂
      refine ⟨s', left, rest, fuel', hs', hroom, ?_⟩
      rw [feed, List.isEmpty_eq_false_iff.2 hmore, Act.run_bind_ok (hon.trans hloop)]
      exact hfeed
    · have hbytes : buffer ++ piece =
          Frame.encodeAll frames ++ (frame.encode ++ (Frame.encodeAll behind ++ short)) := by
        rw [hdone, Frame.encodeAll_append, Frame.encodeAll_cons, List.append_assoc, List.append_assoc]
      have hframes : ∀ f ∈ frames, f.Plain := fun f hf => hplain f (List.mem_append_left _ hf)
      have hframe : frame.Plain := hplain frame (List.mem_append_right _ List.mem_cons_self)
      obtain ⟨s₁, fuel, hs₁, hon⟩ := onStreamBytes_passes pieces.isEmpty hframes hpasses hbytes
        (Nat.le_of_add_right_le hlength) h
      obtain ⟨s₂, hs₂, honce⟩ := advanceOnce_stands world (Frame.parse_plain hframe _) hs₁
      refine ⟨s₂, Frame.encodeAll behind ++ short, pieces, fuel + 1, hs₂, ?_, ?_⟩
      · rw [hbytes, List.length_append, List.length_append] at hlength
        omega
      · rw [feed, Act.run_bind, hon, advanceLoop, Act.run_bind, honce, Act.run_bind]
        rcases (absorbFrame world x.id frame).run s₂ with ⟨error | progress, s₃⟩
        · rfl
        · cases progress <;> rfl

/-- Frames of which one is refused fail, in whatever piece it is completed. -/
theorem feed_refused {later : List Frame} {pieces : List Octets} (hplain : ∀ f ∈ frames ++ frame :: later, f.Plain)
    (hpasses : PassesAll world x frames stage stage') (hrefuses : Refuses world x frame stage' error)
    (hpieces : buffer ++ pieces.flatten = Frame.encodeAll (frames ++ frame :: later))
    (hsize : (Frame.encodeAll (frames ++ frame :: later)).length ≤ x.limits.maxMessageSize)
    (hshort : Frame.whole buffer = none)
    (h : Stands x stage buffer false (pieces.flatten.length + room) s) :
    ∃ s', (feed world x.id pieces).run s = (.error error, s') ∧ s'.ready = x.ready := by
  obtain ⟨s₁, left, rest, fuel, hs₁, -, hfeed⟩ := feed_reaches hplain hpasses hpieces hsize hshort h
  obtain ⟨s', habsorb, hready⟩ := hrefuses hs₁
  exact ⟨s', hfeed.trans (Act.run_bind_error habsorb _), hready⟩

/-! ## Tunnels -/

/-- A stream that has become a tunnel has octets buffered for it, and the session has these
    messages ready and room for so many more octets. -/
structure Relays (x : Setting) (ready : List Message) (held room : ℕ) (s : H3Session) : Prop where
  limits : s.limits = x.limits
  ready : s.ready = ready
  bound : s.bufferedBound + room ≤ x.limits.maxConnectionBufferSize
  stream : ∃ state, s.streams.lookup x.id = some state ∧ state.raw = true ∧ state.buffer.length = held

theorem advanceLoop_relays {ready : List Message} {held : ℕ} (h : Relays x ready held room s) (fuel : ℕ) :
    (advanceLoop world x.id fuel).run s = (.ok (), s) := by
  obtain ⟨state, hstream, hraw, -⟩ := h.stream
  have honce : (advanceOnce world x.id).run s = (.ok .stop, s) := by
    rw [advanceOnce, Act.run_bind_ok (Act.run_get s), hstream]
    dsimp only
    rw [if_pos hraw]
    rfl
  cases fuel with
  | zero => rfl
  | succ fuel =>
    rw [advanceLoop, Act.run_bind_ok honce]
    rfl

/-- What is fed to a tunnel is buffered, and delivers nothing. -/
theorem feed_relays {ready : List Message} {held : ℕ} {pieces : List Octets}
    (h : Relays x ready held (pieces.flatten.length + room) s)
    (hsize : held + pieces.flatten.length ≤ x.limits.maxMessageSize) :
    ∃ s', (feed world x.id pieces).run s = (.ok (), s') ∧ s'.ready = ready := by
  induction pieces generalizing held s with
  | nil => exact ⟨s, rfl, h.ready⟩
  | cons piece pieces ih =>
    obtain ⟨state, hstream, hraw, rfl⟩ := h.stream
    have hbound := h.bound
    rw [List.flatten_cons, List.length_append] at hsize hbound
    have hreceived : Relays x ready (state.buffer ++ piece).length (pieces.flatten.length + room)
        (s.received x.id piece pieces.isEmpty) := by
      refine ⟨h.limits, h.ready, ?_, _, lookup_changed hstream _, hraw, rfl⟩
      rw [received]
      dsimp only
      omega
    have hon : (onStreamBytes world x.id piece pieces.isEmpty).run s =
        (.ok (), s.received x.id piece pieces.isEmpty) := by
      rw [run_onStreamBytes world _ hstream, advance, Act.run_bind_ok (Act.run_get _), advanceLoop_relays hreceived]
      · rw [h.limits, List.length_append]
        omega
      · rw [h.limits]
        omega
    obtain ⟨s', hfeed, hready⟩ := ih hreceived (by rw [List.length_append]; omega)
    refine ⟨s', ?_, hready⟩
    rw [feed, Act.run_bind_ok hon]
    exact hfeed

end H3Session

end Soyokaze

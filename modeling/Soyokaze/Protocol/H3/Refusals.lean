import Soyokaze.Protocol.H3.Course

/-!
# Requests past a goodbye

A server that has served enough requests names the first stream it will not take up, and
refuses those at or past it from then on. The name is past every stream the peer is known
to have opened, and none that was opened later is taken up, so that it bounds what was
taken up before as well as what would be after.

* `H3Session.Bounded`: what a session has of requests is of streams the peer is known to
  have opened;
* `H3Worker.goodbye_safe`: what that comes to, whatever arrives in whatever order.
-/

namespace Soyokaze

open H3

/-- Whether a stream is one on which a client makes a request. -/
def QUICStreamID.isRequest (id : ℕ) : Bool := isBidi id && clientInitiated id

namespace H3Session

variable {s s' : H3Session} {id : ℕ} {α β : Type} {world : World}

/-! ## What a session has of requests -/

/-- If this is a request stream, the peer is known to have opened one as high. -/
def Within (s : H3Session) (id : ℕ) : Prop := QUICStreamID.isRequest id = true → id ≤ s.highestPeerStreamId

/-- What a session has of requests is of streams the peer is known to have opened. -/
structure Bounded (s : H3Session) : Prop where
  /-- The streams this end opens are not request streams. -/
  next : s.nextStreamId % 2 = 1
  held : ∀ id state, s.streams.lookup id = some state →
    s.Within id ∧ ∀ m, state.message = some m → m.streamId = some id
  ready : ∀ m ∈ s.ready, ∃ id, m.streamId = some id ∧ s.Within id

/-- A step goes on with what the peer is known to have opened, and with no more. -/
structure Onward (s s' : H3Session) : Prop where
  bounded : s.Bounded → s'.Bounded
  highest : s'.highestPeerStreamId = s.highestPeerStreamId
  sent : s'.goawaySent = s.goawaySent

theorem Onward.refl (s : H3Session) : Onward s s := ⟨fun h => h, rfl, rfl⟩

theorem Onward.trans {a b c : H3Session} (h : Onward a b) (h' : Onward b c) : Onward a c :=
  ⟨fun ha => h'.bounded (h.bounded ha), h'.highest.trans h.highest, h'.sent.trans h.sent⟩

theorem Onward.within (h : Onward s s') (hid : s.Within id) : s'.Within id := fun hrequest =>
  (hid hrequest).trans_eq h.highest.symm

/-- A step that goes on so, however it ends. -/
abbrev GoesOn (m : Step α) : Prop := Act.Keeps Onward m

theorem GoesOn.bind {m : Step α} {f : α → Step β} (hm : GoesOn m) (hf : ∀ a, GoesOn (f a)) : GoesOn (m >>= f) :=
  @Act.Keeps.bind _ _ _ _ Onward Onward.trans m f hm hf

/-- Whatever else changes, this is what matters. -/
theorem Onward.of_eq (hstreams : s'.streams = s.streams) (hready : s'.ready = s.ready)
    (hnext : s'.nextStreamId = s.nextStreamId) (hhighest : s'.highestPeerStreamId = s.highestPeerStreamId)
    (hsent : s'.goawaySent = s.goawaySent) : Onward s s' := by
  refine ⟨fun h => ⟨hnext ▸ h.next, fun id state hstate => ?_, fun m hm => ?_⟩, hhighest, hsent⟩
  · rw [hstreams] at hstate
    rw [Within, hhighest]
    exact h.held id state hstate
  · rw [hready] at hm
    simp only [Within, hhighest]
    exact h.ready m hm

theorem goesOn_of_eq {m : Step α} (h : ∀ s, (m.run s).2.streams = s.streams ∧ (m.run s).2.ready = s.ready ∧
    (m.run s).2.nextStreamId = s.nextStreamId ∧ (m.run s).2.highestPeerStreamId = s.highestPeerStreamId ∧
    (m.run s).2.goawaySent = s.goawaySent) : GoesOn m :=
  fun s => .of_eq (h s).1 (h s).2.1 (h s).2.2.1 (h s).2.2.2.1 (h s).2.2.2.2

theorem goesOn_get : GoesOn (Act.get : Step H3Session) := fun s => .refl s

theorem goesOn_pure (a : α) : GoesOn (pure a : Step α) := fun s => .refl s

theorem goesOn_fail (error : Error) : GoesOn (Act.fail error : Step α) := fun s => .refl s

theorem goesOn_ofExcept (x : Except Error α) : GoesOn (Act.ofExcept x : Step α) := fun s => .refl s

theorem goesOn_demand (condition : Bool) (error : Error) : GoesOn (Act.demand condition error : Step Unit) :=
  fun s => .refl s

theorem goesOn_stream (id : ℕ) : GoesOn (stream id) := goesOn_of_eq fun s => by
  simp only [Act.run, stream]
  split <;> exact ⟨rfl, rfl, rfl, rfl, rfl⟩

/-- What follows the reading of a stream may count on the stream. -/
theorem goesOn_stream_bind {f : StreamState → Step α}
    (h : ∀ s state, s.streams.lookup id = some state → Onward s ((f state).run s).2) : GoesOn (stream id >>= f) := by
  intro s
  cases hstate : s.streams.lookup id with
  | some state =>
    rw [Act.run_bind_ok (run_stream hstate)]
    exact h s state hstate
  | none =>
    have hmissing : (stream id).run s = (.error .closed, s) := by
      simp only [Act.run, stream, hstate]
    rw [Act.run_bind_error hmissing]
    exact .refl s

/-- The message of a stream stays one of that stream. -/
theorem goesOn_modifyStream {f : StreamState → StreamState}
    (hf : ∀ state m, (∀ m, state.message = some m → m.streamId = some id) → (f state).message = some m →
      m.streamId = some id) : GoesOn (modifyStream id f) := by
  refine fun s => ⟨fun h => ⟨h.next, fun other state hstate => ?_, h.ready⟩, rfl, rfl⟩
  rw [run_modifyStream, StreamMap.lookup_modify] at hstate
  split_ifs at hstate with heq
  · subst heq
    obtain ⟨before, hbefore, rfl⟩ := Option.map_eq_some_iff.1 hstate
    obtain ⟨hwithin, hmessage⟩ := h.held _ before hbefore
    exact ⟨hwithin, fun m hm => hf before m hmessage hm⟩
  · exact h.held other state hstate

theorem goesOn_modifyStream_same {f : StreamState → StreamState} (hf : ∀ state, (f state).message = state.message) :
    GoesOn (modifyStream id f) := goesOn_modifyStream fun state m hmessage hm => hmessage m (hf state ▸ hm)

/-- A message that completed on a stream is ready. -/
theorem Onward.push {state : StreamState} {m : Message} (hstate : s.streams.lookup id = some state)
    (hm : s.Bounded → m.streamId = some id) : Onward s { s with ready := s.ready ++ [m] } := by
  refine ⟨fun h => ⟨h.next, h.held, fun other hother => ?_⟩, rfl, rfl⟩
  obtain hother | hother := List.mem_append.1 hother
  · exact h.ready other hother
  · cases List.mem_singleton.1 hother
    exact ⟨id, hm h, (h.held id state hstate).1⟩

theorem goesOn_forget : GoesOn (forget id) := by
  refine fun s => ⟨fun h => ⟨h.next, fun other state hstate => ?_, h.ready⟩, rfl, rfl⟩
  by_cases heq : other = id
  · rw [heq] at hstate
    simp [forget] at hstate
  · exact h.held other state (by rwa [forget, Act.run_modify, AList.lookup_erase_ne heq] at hstate)

theorem goesOn_retire : GoesOn (retire id) := by
  refine goesOn_get.bind fun s => ?_
  split_ifs
  · exact goesOn_forget
  · exact goesOn_pure ()

theorem goesOn_decodeBlock (block : Octets) : GoesOn (decodeBlock id block) := goesOn_of_eq fun s => by
  simp only [Act.run, decodeBlock]
  split <;> exact ⟨rfl, rfl, rfl, rfl, rfl⟩

theorem goesOn_absorbHeaders (fields : List HeaderField) : GoesOn (absorbHeaders world id fields) := by
  refine goesOn_get.bind fun s => (goesOn_demand _ _).bind fun _ => (goesOn_stream id).bind fun state => ?_
  split_ifs
  · refine (goesOn_ofExcept _).bind fun trailers => goesOn_modifyStream fun state m hmessage hm => ?_
    obtain ⟨before, hbefore, rfl⟩ := Option.map_eq_some_iff.1 hm
    exact hmessage before hbefore
  · refine (goesOn_ofExcept _).bind fun m => GoesOn.bind (goesOn_modifyStream_same fun state => ?_) fun _ => ?_
    · split_ifs <;> rfl
    · refine goesOn_stream_bind fun s state hstate => ?_
      split_ifs
      · have hmarked : GoesOn (modifyStream id fun state => { state with delivered := true, raw := true }) :=
          goesOn_modifyStream_same fun _ => rfl
        exact (hmarked s).trans (Onward.push (lookup_changed hstate _) fun _ => rfl)
      · refine goesOn_modifyStream (fun state m _ hm => ?_) s
        cases hm
        rfl

theorem goesOn_absorbBlock (block : Octets) : GoesOn (absorbBlock world id block) := by
  refine (goesOn_decodeBlock block).bind fun outcome => ?_
  split
  · exact (goesOn_absorbHeaders _).bind fun _ => goesOn_pure _
  · refine (goesOn_stream id).bind fun state => GoesOn.bind (goesOn_modifyStream_same fun _ => rfl) fun _ => ?_
    refine GoesOn.bind (goesOn_of_eq fun s => ?_) fun _ => goesOn_pure _
    rw [Act.run_modify]
    split_ifs <;> exact ⟨rfl, rfl, rfl, rfl, rfl⟩
  · exact goesOn_fail _

theorem goesOn_retryBlock (block : Octets) : GoesOn (retryBlock world id block) := by
  refine (goesOn_decodeBlock block).bind fun outcome => ?_
  split
  · refine (goesOn_stream id).bind fun state => GoesOn.bind (goesOn_modifyStream_same fun _ => rfl) fun _ => ?_
    refine GoesOn.bind (goesOn_of_eq fun _ => ⟨rfl, rfl, rfl, rfl, rfl⟩) fun _ => ?_
    exact (goesOn_absorbHeaders _).bind fun _ => goesOn_pure _
  · exact goesOn_pure _
  · exact goesOn_fail _

theorem goesOn_absorbData (octets : Octets) : GoesOn (absorbData id octets) := by
  refine goesOn_get.bind fun s => (goesOn_stream id).bind fun state => (goesOn_demand _ _).bind fun _ => ?_
  exact GoesOn.bind (goesOn_modifyStream_same fun _ => rfl) fun _ => (goesOn_demand _ _).bind fun _ => goesOn_pure _

theorem goesOn_absorbFrame (frame : Frame) : GoesOn (absorbFrame world id frame) := by
  cases frame with
  | headers block => exact goesOn_get.bind fun _ => (goesOn_demand _ _).bind fun _ => goesOn_absorbBlock block
  | data octets => exact goesOn_absorbData octets
  | settings | goAway | maxPushId | cancelPush | pushPromise => exact goesOn_fail _

theorem goesOn_advanceOnce : GoesOn (advanceOnce world id) := by
  refine goesOn_get.bind fun s => ?_
  split
  · exact goesOn_pure _
  · split
    · exact goesOn_pure _
    · split
      · exact goesOn_retryBlock _
      · refine GoesOn.bind (GoesOn.bind (goesOn_modifyStream_same fun _ => rfl) fun _ => goesOn_ofExcept _) fun found => ?_
        cases found with
        | some frame => exact goesOn_absorbFrame frame
        | none => exact goesOn_pure _

theorem goesOn_deliver : GoesOn (deliver id) := by
  refine goesOn_stream_bind fun s state hstate => ?_
  cases hdelivered : state.delivered with
  | true => exact goesOn_retire s
  | false =>
    rw [if_neg Bool.false_ne_true]
    cases hmessage : state.message with
    | none => exact goesOn_fail _ s
    | some m =>
      have hm (h : s.Bounded) : (if state.body.isEmpty then m else
          { m with body := some (.data state.body) }).streamId = some id := by
        have hof := (h.held id state hstate).2 m hmessage
        split_ifs <;> exact hof
      have hcleared : GoesOn (modifyStream id fun state => { state with message := none, body := [], delivered := true }) :=
        goesOn_modifyStream fun _ _ _ hnone => by cases hnone
      -- The message may as well be ready before it is taken off the stream.
      have hready := (Onward.push hstate hm).trans (hcleared _)
      have hretired : GoesOn (retire id) := goesOn_retire
      exact hready.trans (hretired _)

theorem goesOn_advanceLoop (fuel : ℕ) : GoesOn (advanceLoop world id fuel) := by
  induction fuel with
  | zero => exact goesOn_pure ()
  | succ fuel ih =>
    refine goesOn_advanceOnce.bind fun progress => ?_
    cases progress with
    | again => exact ih
    | stop => exact goesOn_pure ()
    | finish => exact goesOn_deliver

theorem goesOn_advance : GoesOn (advance world id) := goesOn_get.bind fun _ => goesOn_advanceLoop _

theorem goesOn_advanceAll (ids : List ℕ) : GoesOn (advanceAll world ids) := by
  induction ids with
  | nil => exact goesOn_pure ()
  | cons id ids ih => exact goesOn_advance.bind fun _ => ih

theorem goesOn_onEncoderBytes (bytes : Octets) : GoesOn (onEncoderBytes world bytes) := by
  refine goesOn_get.bind fun s => GoesOn.bind (goesOn_of_eq fun _ => ⟨rfl, rfl, rfl, rfl, rfl⟩) fun _ => ?_
  split
  · exact goesOn_fail _
  · split_ifs
    · exact goesOn_pure ()
    · exact goesOn_advanceAll _

theorem goesOn_onDecoderBytes (bytes : Octets) : GoesOn (onDecoderBytes bytes) := by
  refine goesOn_get.bind fun s => GoesOn.bind (goesOn_of_eq fun _ => ⟨rfl, rfl, rfl, rfl, rfl⟩) fun _ => ?_
  split
  · exact goesOn_fail _
  · exact goesOn_pure ()

theorem goesOn_absorbControl (frame : Frame) : GoesOn (absorbControl frame) := by
  cases frame with
  | settings params =>
    exact goesOn_get.bind fun _ => (goesOn_demand _ _).bind fun _ => (goesOn_ofExcept _).bind fun _ =>
      goesOn_of_eq fun _ => ⟨rfl, rfl, rfl, rfl, rfl⟩
  | goAway id => exact goesOn_of_eq fun _ => ⟨rfl, rfl, rfl, rfl, rfl⟩
  | maxPushId | cancelPush => exact goesOn_pure _
  | headers | data | pushPromise => exact goesOn_fail _

theorem goesOn_controlLoop (fuel : ℕ) : GoesOn (controlLoop fuel) := by
  induction fuel with
  | zero => exact goesOn_pure ()
  | succ fuel ih =>
    refine goesOn_get.bind fun s => GoesOn.bind (goesOn_of_eq fun _ => ⟨rfl, rfl, rfl, rfl, rfl⟩) fun _ => ?_
    refine (goesOn_ofExcept _).bind fun found => ?_
    cases found with
    | none => exact goesOn_pure _
    | some frame => exact (goesOn_absorbControl frame).bind fun _ => ih

theorem goesOn_onControlBytes (bytes : Octets) : GoesOn (onControlBytes bytes) :=
  GoesOn.bind (goesOn_of_eq fun _ => ⟨rfl, rfl, rfl, rfl, rfl⟩) fun _ => goesOn_get.bind fun _ =>
    (goesOn_demand _ _).bind fun _ => goesOn_controlLoop _

theorem goesOn_overbuffered : GoesOn overbuffered := goesOn_of_eq fun s => by
  simp only [Act.run, overbuffered]
  split_ifs <;> exact ⟨rfl, rfl, rfl, rfl, rfl⟩

theorem entry_aside (id : ℕ) (s : H3Session) : ((entry id).run s).2.highestPeerStreamId = s.highestPeerStreamId ∧
    ((entry id).run s).2.goawaySent = s.goawaySent := by
  simp only [entry, Act.run_modify]
  split_ifs <;> exact ⟨rfl, rfl⟩

/-- Seeing to it that a stream is there, it is no request past those the peer is known to have made. -/
theorem Onward.entry (h : s.Bounded → s.Within id) : Onward s ((entry id).run s).2 := by
  simp only [H3Session.entry, Act.run_modify]
  split_ifs
  · exact .refl s
  · refine ⟨fun hb => ⟨hb.next, fun other state hstate => ?_, hb.ready⟩, rfl, rfl⟩
    by_cases heq : other = id
    · subst heq
      rw [AList.lookup_insert] at hstate
      cases hstate
      exact ⟨h hb, fun m hm => by cases hm⟩
    · rw [AList.lookup_insert_ne heq] at hstate
      exact hb.held other state hstate

/-- What octets of a stream make of the session: the stream, if it is new, is one the peer is known to
    have opened. -/
structure TakesUp (id : ℕ) (s s' : H3Session) : Prop where
  bounded : s.Bounded → s'.Bounded
  highest : s'.highestPeerStreamId = s.highestPeerStreamId ∨
    s.streams.lookup id = none ∧ s'.highestPeerStreamId = max s.highestPeerStreamId id
  sent : s'.goawaySent = s.goawaySent

theorem Onward.takesUp (h : Onward s s') : TakesUp id s s' := ⟨h.bounded, .inl h.highest, h.sent⟩

/-- A new stream is one the peer is known to have opened from then on. -/
theorem admitStream_run (id : ℕ) (s : H3Session) : (∃ error, (admitStream id).run s = (.error error, s)) ∨
    ∃ s', (admitStream id).run s = (.ok (), s') ∧ TakesUp id s s' ∧ (s'.Bounded → s'.Within id) := by
  rw [admitStream, Act.run_bind_ok (Act.run_get s)]
  split_ifs with hthere
  · obtain ⟨state, hstate⟩ := Option.isSome_iff_exists.1 hthere
    exact .inr ⟨s, rfl, (Onward.refl s).takesUp, fun h => (h.held id state hstate).1⟩
  · rw [Act.run_bind, Act.run_demand]
    cases decide (s.streams.entries.length < s.streamCeiling) with
    | false => exact .inl ⟨_, rfl⟩
    | true =>
      refine .inr ⟨_, rfl, ⟨fun h => ⟨h.next, fun other state hstate => ?_, fun m hm => ?_⟩, .inr ?_, rfl⟩, fun _ _ => ?_⟩
      · obtain ⟨hwithin, hmessage⟩ := h.held other state hstate
        exact ⟨fun hrequest => (hwithin hrequest).trans (le_max_left _ _), hmessage⟩
      · obtain ⟨other, hother, hwithin⟩ := h.ready m hm
        exact ⟨other, hother, fun hrequest => (hwithin hrequest).trans (le_max_left _ _)⟩
      · exact ⟨Option.not_isSome_iff_eq_none.1 hthere, rfl⟩
      · exact le_max_right _ _

theorem onStreamBytes_takesUp (id : ℕ) (bytes : Octets) (fin : Bool) (s : H3Session) :
    TakesUp id s ((onStreamBytes world id bytes fin).run s).2 := by
  obtain ⟨error, hrun⟩ | ⟨s₁, hrun, htakes, hwithin⟩ := admitStream_run id s
  · rw [onStreamBytes, Act.run_bind_error hrun]
    exact (Onward.refl s).takesUp
  · rw [onStreamBytes, Act.run_bind_ok hrun]
    have hentry : Onward s₁ ((entry id).run s₁).2 := .entry hwithin
    have hrest : GoesOn (do
        modifyStream id fun state => { state with buffer := state.buffer ++ bytes, eof := state.eof || fin }
        let state ← stream id
        Act.modify fun s => { s with bufferedBound := min (s.bufferedBound + bytes.length) (2 ^ 64 - 1) }
        let s ← Act.get
        Act.demand (state.buffer.length ≤ s.limits.maxMessageSize)
          (.stream id Code.EXCESSIVE_LOAD "unparsed stream data exceeds {limit} octets" [.number s.limits.maxMessageSize])
        let exceeding ← overbuffered
        Act.demand (!exceeding) (.limit "buffered messages exceed {limit} octets" [.number s.limits.maxConnectionBufferSize])
        advance world id) := by
      refine GoesOn.bind (goesOn_modifyStream_same fun _ => rfl) fun _ => (goesOn_stream id).bind fun state => ?_
      refine GoesOn.bind (goesOn_of_eq fun _ => ⟨rfl, rfl, rfl, rfl, rfl⟩) fun _ => goesOn_get.bind fun _ => ?_
      exact (goesOn_demand _ _).bind fun _ => goesOn_overbuffered.bind fun _ => (goesOn_demand _ _).bind fun _ =>
        goesOn_advance
    have hall := hentry.trans (hrest _)
    exact ⟨fun h => hall.bounded (htakes.bounded h), htakes.highest.imp hall.highest.trans fun h => ⟨h.1, hall.highest.trans h.2⟩,
      hall.sent.trans htakes.sent⟩

/-- A step for a stream that is no request past those the peer is known to have made. -/
abbrev GoesOnAt (id : ℕ) (m : Step α) : Prop := Act.Keeps (fun s s' => s.Within id → Onward s s') m

theorem GoesOnAt.bind {m : Step α} {f : α → Step β} (hm : GoesOnAt id m) (hf : ∀ a, GoesOnAt id (f a)) :
    GoesOnAt id (m >>= f) :=
  @Act.Keeps.bind _ _ _ _ (fun s s' => s.Within id → Onward s s')
    (fun h h' hid => (h hid).trans (h' ((h hid).within hid))) m f hm hf

theorem GoesOn.at {m : Step α} (h : GoesOn m) : GoesOnAt id m := fun s _ => h s

theorem goesOnAt_entry : GoesOnAt id (entry id) := fun _ hid => .entry fun _ => hid

theorem goesOn_writeTrailers (trailers : Option Headers) : GoesOn (writeTrailers id trailers) := by
  cases trailers with
  | none => exact goesOn_pure _
  | some trailers =>
    rw [writeTrailers]
    split_ifs
    · exact goesOn_pure _
    · exact goesOn_of_eq fun _ => ⟨rfl, rfl, rfl, rfl, rfl⟩

theorem goesOnAt_frameMessage (m : Message) : GoesOnAt id (frameMessage world id m) := by
  refine goesOn_get.at.bind fun _ => (goesOn_ofExcept _).at.bind fun m => (goesOn_ofExcept _).at.bind fun _ => ?_
  refine GoesOnAt.bind (GoesOn.at (goesOn_of_eq fun _ => ⟨rfl, rfl, rfl, rfl, rfl⟩)) fun _ => ?_
  refine (goesOn_ofExcept _).at.bind fun _ => (goesOn_writeTrailers _).at.bind fun _ => goesOnAt_entry.bind fun _ => ?_
  refine GoesOnAt.bind (GoesOn.at (goesOn_modifyStream_same fun state => ?_)) fun _ => GoesOn.at ?_
  · split_ifs <;> rfl
  · exact (goesOn_stream id).bind fun _ => GoesOn.bind (goesOn_modifyStream_same fun _ => rfl) fun _ => goesOn_pure _

/-- The stream this end opens is no request. -/
theorem goesOn_openBidi : GoesOn openBidi := by
  intro s
  rw [openBidi, Act.run_bind_ok (Act.run_get s)]
  have hnext : s.Bounded → QUICStreamID.isRequest s.nextStreamId = false := fun h => by
    simp [QUICStreamID.isRequest, QUICStreamID.clientInitiated, h.next]
  refine ⟨fun h => ?_, ?_, ?_⟩
  · have hmoved : Bounded { s with nextStreamId := s.nextStreamId + QUICStreamID.STEP } := by
      refine ⟨?_, h.held, h.ready⟩
      have hodd := h.next
      change (s.nextStreamId + 4) % 2 = 1
      omega
    refine (Onward.entry fun _ hrequest => ?_).bounded hmoved
    exact absurd ((hnext h).symm.trans hrequest) Bool.false_ne_true
  · exact (entry_aside _ { s with nextStreamId := s.nextStreamId + QUICStreamID.STEP }).1
  · exact (entry_aside _ { s with nextStreamId := s.nextStreamId + QUICStreamID.STEP }).2

end H3Session

namespace H3Worker

variable {w w' : H3Worker} {id : ℕ} {α β : Type} {world : World} {octets : Octets} {fin : Bool}

/-! ## What a worker has of requests -/

/-- What a worker has of requests, and what the handle was given of them, is of streams the peer is known
    to have opened, all of them before the one that a goodbye names. -/
structure Kept (w : H3Worker) : Prop where
  session : w.session.Bounded
  told : ∀ m ∈ messagesTold w.passed, ∃ id, m.streamId = some id ∧ w.session.Within id
  sent : ∀ g, w.session.goawaySent = some g → w.session.highestPeerStreamId < g

/-- A step goes on with what the peer is known to have opened, and tells and refuses nothing. -/
structure Heeds (w w' : H3Worker) : Prop where
  session : w.session.Onward w'.session
  rejected : w'.rejected = w.rejected
  rejectedFloor : w'.rejectedFloor = w.rejectedFloor
  told : messagesTold w'.passed = messagesTold w.passed

theorem Heeds.trans {a b c : H3Worker} (h : Heeds a b) (h' : Heeds b c) : Heeds a c :=
  ⟨h.session.trans h'.session, h'.rejected.trans h.rejected, h'.rejectedFloor.trans h.rejectedFloor,
    h'.told.trans h.told⟩

theorem Kept.heeds (h : Kept w) (hheeds : Heeds w w') : Kept w' where
  session := hheeds.session.bounded h.session
  told := fun m hm => by
    obtain ⟨id, hid, hwithin⟩ := h.told m (hheeds.told ▸ hm)
    exact ⟨id, hid, hheeds.session.within hwithin⟩
  sent := fun g hg => by
    rw [hheeds.session.highest]
    exact h.sent g (hheeds.session.sent ▸ hg)

/-- A step that goes on so, however it ends. -/
abbrev Heeding (m : Step α) : Prop := Act.Keeps Heeds m

theorem Heeding.bind {m : Step α} {f : α → Step β} (hm : Heeding m) (hf : ∀ a, Heeding (f a)) : Heeding (m >>= f) :=
  @Act.Keeps.bind _ _ _ _ Heeds Heeds.trans m f hm hf

/-- A step that goes on so for a stream that is no request past those the peer is known to have made. -/
abbrev HeedingAt (id : ℕ) (m : Step α) : Prop := Act.Keeps (fun w w' => w.session.Within id → Heeds w w') m

theorem HeedingAt.bind {m : Step α} {f : α → Step β} (hm : HeedingAt id m) (hf : ∀ a, HeedingAt id (f a)) :
    HeedingAt id (m >>= f) :=
  @Act.Keeps.bind _ _ _ _ (fun w w' => w.session.Within id → Heeds w w')
    (fun h h' hid => (h hid).trans (h' ((h hid).session.within hid))) m f hm hf

theorem Heeding.at {m : Step α} (h : Heeding m) : HeedingAt id m := fun w _ => h w

theorem Spares.heeds (h : Spares w w') : Heeds w w' := by
  obtain ⟨encoder, secure, hsession⟩ := h.session
  refine ⟨?_, h.rejected, h.rejectedFloor, h.told⟩
  rw [hsession]
  exact .of_eq rfl rfl rfl rfl rfl

theorem Sparing.heeding {m : Step α} (h : Sparing m) : Heeding m := fun w => (h w).heeds

theorem heeding_onSession {m : H3Session.Step α} (h : H3Session.GoesOn m) : Heeding (onSession m) := fun w =>
  ⟨h w.session, rfl, rfl, rfl⟩

theorem heeding_pure (a : α) : Heeding (pure a : Step α) := (sparing_pure a).heeding

/-- Tunnels and streams that the peer may write alone are no matter to requests. -/
theorem heeding_of_session {m : Step α} (h : ∀ w, (m.run w).2.session = w.session ∧ (m.run w).2.rejected = w.rejected ∧
    (m.run w).2.rejectedFloor = w.rejectedFloor ∧ messagesTold (m.run w).2.passed = messagesTold w.passed) : Heeding m :=
  fun w => ⟨(h w).1 ▸ .refl _, (h w).2.1, (h w).2.2.1, (h w).2.2.2⟩

theorem heeding_relay (id : ℕ) (sink : Mailbox) (octets : Octets) (fin : Bool) : Heeding (relay id sink octets fin) :=
  heeding_of_session fun w => by
    simp only [Act.run, relay]
    split_ifs <;> exact ⟨rfl, rfl, rfl, rfl⟩

theorem heeding_feedTunnel (sink : Mailbox) : Heeding (feedTunnel id sink octets fin) := by
  refine (heeding_relay id sink octets fin).bind fun answer => ?_
  refine Heeding.bind (heeding_of_session fun _ => ⟨rfl, rfl, rfl, rfl⟩) fun _ => ?_
  split_ifs
  · exact Heeding.bind (heeding_of_session fun _ => ⟨rfl, rfl, rfl, rfl⟩) fun _ =>
      heeding_onSession H3Session.goesOn_forget
  · exact heeding_of_session fun _ => ⟨rfl, rfl, rfl, rfl⟩

theorem heeding_forgetStream : Heeding (forgetStream id) :=
  (heeding_onSession H3Session.goesOn_forget).bind fun _ =>
    Heeding.bind (heeding_of_session fun _ => ⟨rfl, rfl, rfl, rfl⟩) fun _ => (sparing_dropOutbound id).heeding

theorem heeding_takeUnparsed : Heeding (takeUnparsed id) := by
  have hemptied : H3Session.GoesOn (H3Session.modifyStream id fun state => { state with buffer := [] }) :=
    H3Session.goesOn_modifyStream_same fun _ => rfl
  exact fun w => ⟨hemptied w.session, rfl, rfl, rfl⟩

theorem heeding_joinTunnel (sink : Mailbox) : Heeding (joinTunnel id sink) := by
  have hjoin (sink : Mailbox) : Heeding (Act.modify fun w => { w with tunnels := w.tunnels.insert id sink } : Step Unit) :=
    heeding_of_session fun _ => ⟨rfl, rfl, rfl, rfl⟩
  refine heeding_takeUnparsed.bind fun unparsed => ?_
  rcases unparsed with _ | ⟨buffered, eof⟩
  · exact (heeding_pure _).bind fun _ => hjoin _
  · dsimp only
    split_ifs
    · exact Heeding.bind ((heeding_relay _ _ _ _).map _) fun _ => hjoin _
    · exact (heeding_pure _).bind fun _ => hjoin _

theorem heeding_abandon (code : ℕ) : Heeding (abandon id code) :=
  Heeding.bind (heeding_of_session fun _ => ⟨rfl, rfl, rfl, rfl⟩) fun _ =>
    (heeding_onSession H3Session.goesOn_retire).bind fun _ => (sparing_note rfl).heeding.bind fun _ =>
    (sparing_note rfl).heeding

theorem heedingAt_frameInto (m : Message) : HeedingAt id (frameInto world id m) := by
  have hframe : HeedingAt id (attempt (onSession (H3Session.frameMessage world id m))) := fun w hid =>
    ⟨H3Session.goesOnAt_frameMessage m w.session hid, rfl, rfl, rfl⟩
  refine sparing_get.heeding.at.bind fun w => HeedingAt.bind (Heeding.at (Sparing.heeding fun w => ?_)) fun _ =>
    hframe.bind fun outcome => Heeding.at ?_
  · rw [claimOutbound, Act.run_modify]
    split_ifs
    · exact .refl w
    · exact ⟨⟨_, _, rfl⟩, fun _ => rfl, rfl, rfl, rfl, rfl⟩
  · cases outcome with
    | ok framed => exact Sparing.heeding fun _ => ⟨⟨_, _, rfl⟩, fun _ => rfl, rfl, rfl, rfl, rfl⟩
    | error error => exact (sparing_note rfl).heeding.bind fun _ => (sparing_fail error).heeding

/-- A message on a stream of its own, or on one the peer is known to have opened, makes nothing else known. -/
theorem sendMessage_heeds (m : Message) (h : w.session.Bounded) (hid : ∀ id, m.streamId = some id → w.session.Within id) :
    Heeds w ((sendMessage world m).run w).2 := by
  have hat (id : ℕ) : HeedingAt id (do
      onSession (H3Session.entry id)
      onSession (H3Session.modifyStream id fun state => { state with responded := true })
      frameInto world id m
      flushStream id
      onSession (H3Session.retire id)) := by
    have hentry : HeedingAt id (onSession (H3Session.entry id)) := fun w hid =>
      ⟨H3Session.goesOnAt_entry w.session hid, rfl, rfl, rfl⟩
    refine hentry.bind fun _ => HeedingAt.bind (Heeding.at (heeding_onSession ?_)) fun _ => ?_
    · exact H3Session.goesOn_modifyStream_same fun _ => rfl
    · exact (heedingAt_frameInto m).bind fun _ => (sparing_flushStream id).heeding.at.bind fun _ =>
        (heeding_onSession H3Session.goesOn_retire).at
  cases hstream : m.streamId with
  | some id =>
    have hown : (streamOf m).run w = (.ok id, w) := by rw [streamOf, hstream, Act.run_pure]
    rw [sendMessage, Act.run_bind_ok hown]
    exact hat id w (hid id hstream)
  | none =>
    have hnew : (streamOf m).run w = (.ok w.session.nextStreamId, ((onSession H3Session.openBidi).run w).2) := by
      rw [streamOf, hstream]
      rfl
    have hopened : Heeds w ((onSession H3Session.openBidi).run w).2 := heeding_onSession H3Session.goesOn_openBidi w
    rw [sendMessage, Act.run_bind_ok hnew]
    refine hopened.trans (hat w.session.nextStreamId _ fun hrequest => ?_)
    simp [QUICStreamID.isRequest, QUICStreamID.clientInitiated, h.next] at hrequest

/-- A command makes nothing known to have been opened that was not. -/
theorem execute_heeds (command : H3Command) (h : w.session.Bounded)
    (hid : ∀ m id, command = .send m → m.streamId = some id → w.session.Within id) :
    Heeds w ((execute world command).run w).2 := by
  cases command with
  | send m => exact sendMessage_heeds m h fun id hstream => hid m id rfl hstream
  | openBidi => exact ((heeding_onSession H3Session.goesOn_openBidi).bind fun _ => (sparing_note rfl).heeding) w
  | openUni kind =>
    exact (sparing_allocUni.bind fun _ => (sparing_openUni _ kind).bind fun _ => sparing_note rfl).heeding w
  | tunnel id sink => exact heeding_joinTunnel sink w
  | writeEncoder octets => exact (sparing_get.bind fun _ => sparing_write _ octets false).heeding w
  | reset id code => exact heeding_abandon code w
  | close => exact (sparing_note rfl).heeding w

/-! ## Single deeds -/

/-- A deed keeps what a worker has of requests, says no goodbye and refuses nothing. -/
structure Carries (w w' : H3Worker) : Prop where
  kept : Kept w'
  highest : w'.session.highestPeerStreamId = w.session.highestPeerStreamId
  sent : w'.session.goawaySent = w.session.goawaySent
  rejected : w'.rejected = w.rejected
  rejectedFloor : w'.rejectedFloor = w.rejectedFloor

theorem Kept.carries (h : Kept w) (hheeds : Heeds w w') : Carries w w' :=
  ⟨h.heeds hheeds, hheeds.session.highest, hheeds.session.sent, hheeds.rejected, hheeds.rejectedFloor⟩

/-- The handle is given what was ready. -/
theorem hand_carries (h : Kept w) : Carries w (hand.run w).2 := by
  cases hready : w.session.ready with
  | nil =>
    have hnone : hand.run w = (.ok false, w) := by
      rw [hand, Act.run_bind_ok (show (onSession H3Session.takeReady).run w = (.ok none, w) by
        simp only [Act.run, onSession, H3Session.takeReady, hready]), Act.run_pure]
    rw [hnone]
    exact ⟨h, rfl, rfl, rfl, rfl⟩
  | cons m ready =>
    have htake : (onSession H3Session.takeReady).run w =
        (.ok (some m), { w with session := { w.session with ready := ready } }) := by
      simp only [Act.run, onSession, H3Session.takeReady, hready]
    have hof := h.session.ready m (hready ▸ List.mem_cons_self)
    have hrest : H3Session.Bounded { w.session with ready := ready } :=
      ⟨h.session.next, h.session.held, fun other hmem => h.session.ready other (hready ▸ List.mem_cons_of_mem _ hmem)⟩
    rw [hand, Act.run_bind_ok htake]
    rcases htold : w.events.trySend with ⟨_ | _ | _, events⟩ <;> simp only [Act.run, bind, tell, htold]
    · refine ⟨⟨hrest, fun other hmem => ?_, h.sent⟩, rfl, rfl, rfl, rfl⟩
      obtain rfl | hmem := List.mem_cons.1 hmem
      · exact hof
      · exact h.told other hmem
    · refine ⟨⟨⟨h.session.next, h.session.held, fun other hmem => ?_⟩, h.told, h.sent⟩, rfl, rfl, rfl, rfl⟩
      exact h.session.ready other (hready ▸ hmem)
    · exact ⟨⟨hrest, h.told, h.sent⟩, rfl, rfl, rfl, rfl⟩

/-- What was put to be sent, and where, the latest first. -/
def queuedIn (passed : List Passage) : List (ℕ × Octets) := passed.filterMap fun
  | .queued id _ octets _ => some (id, octets)
  | _ => none

/-- Nothing was put to be sent between two states. -/
def Silence (w w' : H3Worker) : Prop := queuedIn w'.passed = queuedIn w.passed

theorem Silence.trans {a b c : H3Worker} (h : Silence a b) (h' : Silence b c) : Silence a c := Eq.trans h' h

/-- A step that puts nothing to be sent. -/
abbrev Mute (m : Step α) : Prop := Act.Keeps Silence m

theorem Mute.bind {m : Step α} {f : α → Step β} (hm : Mute m) (hf : ∀ a, Mute (f a)) : Mute (m >>= f) :=
  @Act.Keeps.bind _ _ _ _ Silence Silence.trans m f hm hf

theorem mute_feedTunnel (sink : Mailbox) : Mute (feedTunnel id sink octets fin) := by
  refine Mute.bind (fun w => ?_) fun answer => Mute.bind (fun _ => rfl) fun _ => ?_
  · simp only [Act.run, relay]
    split_ifs <;> rfl
  · split_ifs
    · exact Mute.bind (fun _ => rfl) fun _ _ => rfl
    · exact fun _ => rfl

theorem mute_flushStream (id : ℕ) : Mute (flushStream id) := by
  refine Mute.bind (fun _ => rfl) fun w => ?_
  split
  · exact fun _ => rfl
  · split_ifs
    · exact fun _ => rfl
    · refine Mute.bind (fun _ => rfl) fun outcome => ?_
      cases outcome with
      | sent count => exact fun _ => rfl
      | blocked => exact fun _ => rfl
      | stopped code =>
        refine Mute.bind (fun w => ?_) fun _ => Mute.bind (fun w => ?_) fun _ _ => rfl
        · simp only [Act.run, dropOutbound, Act.modify]
          split <;> rfl
        · rcases h : w.events.trySend with ⟨_ | _ | _, events⟩ <;> (simp only [Act.run, tell, h]; rfl)

theorem mute_reject : Mute (reject id) := by
  refine Mute.bind (fun w => ?_) fun _ => Mute.bind (fun _ => rfl) fun w => ?_
  · rw [Act.run_modify]
    split_ifs <;> rfl
  · split_ifs
    · exact Mute.bind (fun _ => rfl) fun _ _ => rfl
    · exact Mute.bind (fun _ => rfl) fun _ _ => rfl

/-- What the streams of the peer's that carry no requests say is no matter to requests. -/
theorem heeding_feedUni : Heeding (feedUni world id octets fin) := by
  have hkind (octets : Octets) (kind : StreamKind) : Heeding (feedUniKind world octets kind) := by
    cases kind with
    | control => exact heeding_onSession (H3Session.goesOn_onControlBytes octets)
    | qpackEncoder => exact heeding_onSession (H3Session.goesOn_onEncoderBytes octets)
    | qpackDecoder => exact heeding_onSession (H3Session.goesOn_onDecoderBytes octets)
    | push | request => exact heeding_pure ()
  have hbytes : Heeding (feedUniBytes world id octets) := by
    refine sparing_get.heeding.bind fun w => ?_
    dsimp only
    split_ifs
    · exact heeding_pure ()
    · split
      · exact hkind _ _
      · refine Heeding.bind (heeding_of_session fun _ => ⟨rfl, rfl, rfl, rfl⟩) fun _ =>
          Heeding.bind (heeding_of_session fun _ => ⟨rfl, rfl, rfl, rfl⟩) fun _ => ?_
        rw [feedPrefix]
        split
        split_ifs
        · exact heeding_of_session fun _ => ⟨rfl, rfl, rfl, rfl⟩
        · split
          · exact Heeding.bind (heeding_of_session fun _ => ⟨rfl, rfl, rfl, rfl⟩) fun _ => (sparing_note rfl).heeding
          · exact Heeding.bind (heeding_of_session fun _ => ⟨rfl, rfl, rfl, rfl⟩) fun _ => hkind _ _
  have hattempt : Heeding (attempt (feedUniBytes world id octets)) := hbytes
  refine hattempt.bind fun outcome => Heeding.bind (heeding_of_session fun w => ?_) fun _ =>
    heeding_of_session fun _ => ⟨rfl, rfl, rfl, rfl⟩
  rw [Act.run_modify]
  split_ifs <;> exact ⟨rfl, rfl, rfl, rfl⟩

theorem mute_feedUni : Mute (feedUni world id octets fin) := by
  have hkind (octets : Octets) (kind : StreamKind) : Mute (feedUniKind world octets kind) := by
    cases kind <;> exact fun _ => rfl
  have hbytes : Mute (attempt (feedUniBytes world id octets)) := by
    refine Mute.bind (fun _ => rfl) fun w => ?_
    dsimp only
    split_ifs
    · exact fun _ => rfl
    · split
      · exact hkind _ _
      · refine Mute.bind (fun _ => rfl) fun _ => Mute.bind (fun _ => rfl) fun _ => ?_
        rw [feedPrefix]
        split
        split_ifs
        · exact fun _ => rfl
        · split
          · exact Mute.bind (fun _ => rfl) fun _ _ => rfl
          · exact Mute.bind (fun _ => rfl) fun _ => hkind _ _
  refine hbytes.bind fun outcome => Mute.bind (fun w => ?_) fun _ _ => rfl
  rw [Act.run_modify]
  split_ifs <;> rfl

/-- Writing puts that to be sent, and spares the rest. -/
theorem write_queues (id : ℕ) (octets : Octets) (fin : Bool) (w : H3Worker) :
    Spares w ((write id octets fin).run w).2 ∧
      queuedIn ((write id octets fin).run w).2.passed = (id, octets) :: queuedIn w.passed := by
  refine ⟨sparing_write id octets fin w, ?_⟩
  have henqueue : (enqueue id octets fin).run w = (.ok (), ((enqueue id octets fin).run w).2) := rfl
  rw [write, Act.run_bind_ok henqueue]
  exact mute_flushStream id _

/-- The stream a goodbye names, past those the peer is known to have opened. -/
def goodbye (w : H3Worker) : ℕ := w.session.highestPeerStreamId + QUICStreamID.STEP

/-- A goodbye is said once. -/
theorem goaway_run (w : H3Worker) : goaway.run w = (.ok (), w) ∨ w.session.goawaySent = none ∧ ∃ w₁, Spares w w₁ ∧
    queuedIn w₁.passed = (w.localControl, (Frame.goAway w.goodbye).encode) :: queuedIn w.passed ∧
      ((∃ error, error.blamed = none ∧ goaway.run w = (.error error, w₁)) ∨
        goaway.run w = (.ok (), { w₁ with session := { w₁.session with goawaySent := some w.goodbye } })) := by
  have hnamed (error : Error) (h : (goaway.run w).1 = .error error) : error.blamed = none := by
    refine Option.eq_none_iff_forall_not_mem.2 fun other hother => ?_
    have hfirst : other = 0 := blames_goaway w error h other hother
    have hsecond : other = 1 := blames_goaway w error h other hother
    exact absurd (hfirst.symm.trans hsecond) Nat.zero_ne_one
  by_cases hno : (w.session.role.isClient || w.session.goawaySent.isSome || w.session.limits.maxRequestsPerConnection == 0 ||
    w.session.totalStreams < w.session.limits.maxRequestsPerConnection) = true
  · left
    rw [goaway, Act.run_bind_ok (Act.run_get w)]
    dsimp only
    rw [if_pos hno, Act.run_pure]
  · have hgoes : goaway.run w = (write w.localControl (Frame.goAway w.goodbye).encode false >>= fun _ =>
        Act.modify fun w₁ => { w₁ with session := { w₁.session with goawaySent := some w.goodbye } }).run w := by
      rw [goaway, Act.run_bind_ok (Act.run_get w)]
      dsimp only
      rw [if_neg hno, goodbye]
    have hunsaid : w.session.goawaySent = none := by
      simp only [Bool.or_eq_true, not_or] at hno
      exact Option.not_isSome_iff_eq_none.1 hno.1.1.2
    obtain ⟨hspares, hqueued⟩ := write_queues w.localControl (Frame.goAway w.goodbye).encode false w
    refine .inr ⟨hunsaid, _, hspares, hqueued, ?_⟩
    rw [hgoes] at hnamed ⊢
    rcases hwrite : (write w.localControl (Frame.goAway w.goodbye).encode false).run w with ⟨error | _, w₁⟩
    · rw [Act.run_bind_error hwrite] at hnamed ⊢
      exact .inl ⟨error, hnamed error rfl, rfl⟩
    · rw [Act.run_bind_ok hwrite]
      exact .inr rfl

/-! ## What arrives -/

/-- Where what arrives on a stream is routed. -/
inductive Routed (world : World) (id : ℕ) (octets : Octets) (fin : Bool) (w : H3Worker) (m : Step Unit) : Prop
  | tunnelled (sink : Mailbox) (tunnel : w.tunnels.lookup id = some sink) (does : m = feedTunnel id sink octets fin)
  | uni (other : QUICStreamID.isRequest id = false) (does : m = feedUni world id octets fin)
  | refused (g : ℕ) (sent : w.session.goawaySent = some g) (past : g ≤ id) (does : m = reject id)
  | taken (early : w.session.streams.lookup id = none → ∀ g, w.session.goawaySent = some g → id < g)
      (does : m = (onSession (H3Session.onStreamBytes world id octets fin) >>= fun _ => goaway))

theorem routed (world : World) (id : ℕ) (octets : Octets) (fin : Bool) (w : H3Worker) :
    ∃ m, (dispatch world id octets fin).run w = m.run w ∧ Routed world id octets fin w m := by
  rw [dispatch, Act.run_bind_ok (Act.run_get w)]
  cases htunnel : w.tunnels.lookup id with
  | some sink => exact ⟨_, rfl, .tunnelled sink htunnel rfl⟩
  | none =>
    dsimp only
    cases hbidi : QUICStreamID.isBidi id with
    | false => exact ⟨_, rfl, .uni (by rw [QUICStreamID.isRequest, hbidi, Bool.false_and]) rfl⟩
    | true =>
      rw [if_pos rfl]
      by_cases hpast : (w.session.goawaySent.any (· ≤ id) && (w.session.streams.lookup id).isNone) = true
      · rw [if_pos hpast]
        obtain ⟨g, hsent, hle⟩ := (Option.any_eq_true _ _).1 (Bool.and_eq_true_iff.1 hpast).1
        exact ⟨_, rfl, .refused g hsent (of_decide_eq_true hle) rfl⟩
      · rw [if_neg hpast]
        refine ⟨_, rfl, .taken (fun hnew g hsent => ?_) rfl⟩
        simpa [hnew, hsent] using hpast

/-- What came of octets that arrived on a stream, as far as requests go. -/
structure Arrived (id : ℕ) (w : H3Worker) (outcome : Except Error Unit) (w' : H3Worker) : Prop where
  kept : Kept w → Kept w'
  /-- Only a stream past the goodbye is refused. -/
  refuses : resetsIn w'.passed ≠ resetsIn w.passed → ∃ g, w.session.goawaySent = some g ∧ g ≤ id
  /-- A request past the goodbye is not taken up. -/
  spurned : Kept w → ∀ g, w.session.goawaySent = some g → g ≤ id → QUICStreamID.isRequest id = true →
    w.tunnels.lookup id = none → w'.session = w.session
  counted : w'.rejected = w.rejected ∧ w'.rejectedFloor = w.rejectedFloor ∨
    w.rejectedFloor ≤ id ∧ w'.rejected = w.rejected + 1 ∧ w'.rejectedFloor = id + QUICStreamID.STEP
  said : queuedIn w'.passed = queuedIn w.passed ∧ w'.session.goawaySent = w.session.goawaySent ∨
    w.session.goawaySent = none ∧ ∃ g, queuedIn w'.passed = (w.localControl, (Frame.goAway g).encode) :: queuedIn w.passed ∧
      w'.session.highestPeerStreamId < g ∧ (w'.session.goawaySent = some g ∨
        w'.session.goawaySent = none ∧ ∃ error, outcome = .error error ∧ error.blamed = none)

/-- Counts a stream that is refused, unless it was before. -/
def counting (id : ℕ) (w : H3Worker) : H3Worker :=
  if w.rejectedFloor ≤ id then { w with rejectedFloor := id + QUICStreamID.STEP, rejected := w.rejected + 1 } else w

theorem reject_arrived {g : ℕ} (hsent : w.session.goawaySent = some g) (hpast : g ≤ id) {outcome : Except Error Unit}
    (hrun : (reject id).run w = (outcome, w')) : Arrived id w outcome w' := by
  have hsame : w'.session = w.session ∧ messagesTold w'.passed = messagesTold w.passed ∧
      (w'.rejected = w.rejected ∧ w'.rejectedFloor = w.rejectedFloor ∨
        w.rejectedFloor ≤ id ∧ w'.rejected = w.rejected + 1 ∧ w'.rejectedFloor = id + QUICStreamID.STEP) := by
    have hrest : w'.session = (counting id w).session ∧ messagesTold w'.passed = messagesTold (counting id w).passed ∧
        w'.rejected = (counting id w).rejected ∧ w'.rejectedFloor = (counting id w).rejectedFloor := by
      rw [reject, Act.run_bind_ok (Act.run_modify _ _), Act.run_bind_ok (Act.run_get _)] at hrun
      change Act.run (if (counting id w).session.streamCeiling < (counting id w).rejected then _ else _) (counting id w) = _
        at hrun
      split_ifs at hrun <;> cases hrun <;> exact ⟨rfl, rfl, rfl, rfl⟩
    obtain ⟨hsession, htold, hrejected, hfloor⟩ := hrest
    rw [hsession, htold, hrejected, hfloor, counting]
    split_ifs with hcounts
    · exact ⟨rfl, rfl, .inr ⟨hcounts, rfl, rfl⟩⟩
    · exact ⟨rfl, rfl, .inl ⟨rfl, rfl⟩⟩
  obtain ⟨hsession, htold, hcounted⟩ := hsame
  have hmute := (mute_reject : Mute (reject id)) w
  rw [hrun] at hmute
  refine ⟨fun h => ⟨hsession ▸ h.session, fun m hm => ?_, hsession ▸ h.sent⟩, fun _ => ⟨g, hsent, hpast⟩,
    fun _ _ _ _ _ _ => hsession, hcounted, .inl ⟨hmute, hsession ▸ rfl⟩⟩
  rw [hsession]
  exact h.told m (htold ▸ hm)

/-- What is no matter to requests, and puts nothing to be sent. -/
theorem Heeds.arrived (h : Heeds w w') (hmute : Silence w w') (hreset : NoReset w w')
    (hspurned : Kept w → ∀ g, w.session.goawaySent = some g → g ≤ id → QUICStreamID.isRequest id = true →
      w.tunnels.lookup id = none → w'.session = w.session) {outcome : Except Error Unit} : Arrived id w outcome w' :=
  ⟨fun hkept => hkept.heeds h, fun hne => absurd hreset hne, hspurned, .inl ⟨h.rejected, h.rejectedFloor⟩,
    .inl ⟨hmute, h.session.sent⟩⟩

/-- A request that is taken up is none past the goodbye. -/
theorem Kept.takesUp {s : H3Session} (h : Kept w) (htakes : H3Session.TakesUp id w.session s)
    (hearly : w.session.streams.lookup id = none → ∀ g, w.session.goawaySent = some g → id < g) :
    Kept { w with session := s } := by
  have hmore : w.session.highestPeerStreamId ≤ s.highestPeerStreamId := by
    obtain hsame | ⟨-, hmax⟩ := htakes.highest
    · exact hsame.ge
    · exact hmax ▸ le_max_left _ _
  refine ⟨htakes.bounded h.session, fun m hm => ?_, fun g hg => ?_⟩
  · obtain ⟨other, hof, hwithin⟩ := h.told m hm
    exact ⟨other, hof, fun hrequest => (hwithin hrequest).trans hmore⟩
  · rw [htakes.sent] at hg
    have hbefore := h.sent g hg
    obtain hsame | ⟨hnew, hmax⟩ := htakes.highest
    · exact hsame ▸ hbefore
    · rw [hmax]
      exact max_lt hbefore (hearly hnew g hg)

/-- What is known of requests, but for a goodbye that is past them all. -/
theorem Kept.bid {g : ℕ} (h : Kept w) (hpast : w.session.highestPeerStreamId < g) :
    Kept { w with session := { w.session with goawaySent := some g } } := by
  refine ⟨⟨h.session.next, h.session.held, h.session.ready⟩, h.told, fun g' hg' => ?_⟩
  cases hg'
  exact hpast

theorem taken_arrived (hearly : w.session.streams.lookup id = none → ∀ g, w.session.goawaySent = some g → id < g)
    {outcome : Except Error Unit}
    (hrun : (onSession (H3Session.onStreamBytes world id octets fin) >>= fun _ => goaway).run w = (outcome, w')) :
    Arrived id w outcome w' := by
  have hcalm : Calmly (onSession (H3Session.onStreamBytes world id octets fin) >>= fun _ => goaway) :=
    (calmly_onSession _).bind fun _ => calmly_goaway
  have hreset : NoReset w w' := by
    have hkept := (hcalm w).1
    rwa [hrun] at hkept
  have hspurned (h : Kept w) (g : ℕ) (hsent : w.session.goawaySent = some g) (hpast : g ≤ id)
      (hrequest : QUICStreamID.isRequest id = true) : False := by
    cases hstate : w.session.streams.lookup id with
    | none => exact absurd (hearly hstate g hsent) (by omega)
    | some state =>
      have hknown := (h.session.held id state hstate).1 hrequest
      have hbound := h.sent g hsent
      omega
  have htakes : H3Session.TakesUp id w.session ((H3Session.onStreamBytes world id octets fin).run w.session).2 :=
    H3Session.onStreamBytes_takesUp id octets fin w.session
  generalize hs₁ : ((H3Session.onStreamBytes world id octets fin).run w.session).2 = s₁ at htakes
  have hkept (h : Kept w) : Kept { w with session := s₁ } := h.takesUp htakes hearly
  have hquiet (hout : (outcome, w') = (outcome, { w with session := s₁ })) : Arrived id w outcome w' := by
    cases hout
    exact ⟨hkept, fun hne => absurd hreset hne, fun h g hsent hpast hrequest _ => (hspurned h g hsent hpast hrequest).elim,
      .inl ⟨rfl, rfl⟩, .inl ⟨rfl, htakes.sent⟩⟩
  cases hbytes : ((H3Session.onStreamBytes world id octets fin).run w.session).1 with
  | error error =>
    have hsession : (onSession (H3Session.onStreamBytes world id octets fin)).run w =
        (.error error, { w with session := s₁ }) := by
      rw [← hs₁, ← hbytes]
      rfl
    rw [Act.run_bind_error hsession] at hrun
    cases hrun
    exact hquiet rfl
  | ok _ =>
    have hsession : (onSession (H3Session.onStreamBytes world id octets fin)).run w =
        (.ok (), { w with session := s₁ }) := by
      rw [← hs₁, ← hbytes]
      rfl
    rw [Act.run_bind_ok hsession] at hrun
    obtain hdone | ⟨hunsaid, w₂, hspares, hqueued, hsaid⟩ := goaway_run { w with session := s₁ }
    · rw [hdone] at hrun
      cases hrun
      exact hquiet rfl
    · have hunsaid₀ : w.session.goawaySent = none := htakes.sent ▸ hunsaid
      have hpast : w₂.session.highestPeerStreamId < goodbye { w with session := s₁ } := by
        obtain ⟨encoder, secure, hsame⟩ := hspares.session
        rw [hsame]
        exact Nat.lt_add_of_pos_right (Nat.succ_pos _)
      have hkept₂ (h : Kept w) : Kept w₂ := (hkept h).heeds hspares.heeds
      have hcounted : w₂.rejected = w.rejected ∧ w₂.rejectedFloor = w.rejectedFloor :=
        ⟨hspares.rejected, hspares.rejectedFloor⟩
      obtain ⟨error, hnamed, hfails⟩ | hsaid := hsaid
      · rw [hfails] at hrun
        cases hrun
        have hstill : w'.session.goawaySent = none := hspares.heeds.session.sent.trans hunsaid
        exact ⟨hkept₂, fun hne => absurd hreset hne,
          fun h g hsent hle hrequest _ => (hspurned h g hsent hle hrequest).elim, .inl hcounted,
          .inr ⟨hunsaid₀, _, hqueued, hpast, .inr ⟨hstill, error, rfl, hnamed⟩⟩⟩
      · rw [hsaid] at hrun
        cases hrun
        exact ⟨fun h => (hkept₂ h).bid hpast, fun hne => absurd hreset hne,
          fun h g hsent hle hrequest _ => (hspurned h g hsent hle hrequest).elim, .inl hcounted,
          .inr ⟨hunsaid₀, _, hqueued, hpast, .inl rfl⟩⟩

/-- What comes of octets that arrive on a stream. -/
theorem dispatch_arrived (world : World) (id : ℕ) (octets : Octets) (fin : Bool) (w : H3Worker) :
    Arrived id w ((dispatch world id octets fin).run w).1 ((dispatch world id octets fin).run w).2 := by
  obtain ⟨m, hrun, hrouted⟩ := routed world id octets fin w
  rw [hrun]
  cases hrouted with
  | tunnelled sink htunnel hdoes =>
    subst hdoes
    refine (heeding_feedTunnel sink w).arrived (mute_feedTunnel sink w) (calmly_feedTunnel sink octets fin w).1 ?_
    exact fun _ _ _ _ _ hnone => by cases htunnel.symm.trans hnone
  | uni hother hdoes =>
    subst hdoes
    refine (heeding_feedUni w).arrived (mute_feedUni w) (resetless_feedUni world id octets fin w) ?_
    exact fun _ _ _ _ hrequest _ => absurd (hother.symm.trans hrequest) Bool.false_ne_true
  | refused g hsent hpast hdoes =>
    subst hdoes
    exact reject_arrived hsent hpast rfl
  | taken hearly hdoes =>
    subst hdoes
    exact taken_arrived hearly rfl

/-! ## What came to pass -/

/-- A message answers a stream the peer is known to have opened, or goes on one of this end's. -/
def answers (_ : List (Turn H3Worker Error Unit Deed)) (t : Turn H3Worker Error Unit Deed) : Bool :=
  match t.move with
  | .act (.send m) => m.streamId.all fun id =>
    !QUICStreamID.isRequest id || id ≤ t.before.session.highestPeerStreamId
  | _ => true

/-- What a turn put to be sent, and where, the latest first. -/
def queuedBy (t : Turn H3Worker Error Unit Deed) : List (ℕ × Octets) :=
  (queuedIn t.after.passed).take ((queuedIn t.after.passed).length - (queuedIn t.before.passed).length)

/-- What octets that arrived had a worker put to be sent. -/
def farewells (h : List (Turn H3Worker Error Unit Deed)) : List (ℕ × Octets) := h.flatMap fun t =>
  match t.move with
  | .arrive .. => queuedBy t
  | _ => []

/-- The streams that were counted as refused. -/
def counted (h : List (Turn H3Worker Error Unit Deed)) : List ℕ := h.filterMap fun t =>
  match t.move with
  | .arrive id _ _ => if t.before.rejected < t.after.rejected then some id else none
  | _ => none

/-- A goodbye, as it goes on its stream. -/
def farewell (control g : ℕ) : ℕ × Octets := (control, (Frame.goAway g).encode)

theorem deed_carries {move : Deed} (h : Kept w) (harrive : ∀ id octets fin, move ≠ .arrive id octets fin)
    (hanswers : ∀ m id, move = .act (.send m) → m.streamId = some id → w.session.Within id) :
    Carries w ((deed world move).run w).2 := by
  cases move with
  | arrive id octets fin => exact absurd rfl (harrive id octets fin)
  | act command =>
    refine h.carries (execute_heeds command h.session fun m id hsend hstream => hanswers m id ?_ hstream)
    rw [hsend]
  | forget id => exact h.carries (heeding_onSession H3Session.goesOn_forget w)
  | forgetStream id => exact h.carries (heeding_forgetStream w)
  | hand =>
    rw [deed, Act.run_map]
    exact hand_carries h
  | answer =>
    rw [deed, Act.run_map]
    exact h.carries ⟨.of_eq rfl rfl rfl rfl rfl, rfl, rfl, rfl⟩
  | aside f => exact h.carries (f.2 w).heeds

/-- What was said and counted so far. -/
structure Tally (world : World) (h : List (Turn H3Worker Error Unit Deed)) (c : H3Worker) (said : Option (ℕ × ℕ)) : Prop where
  kept : Kept c
  farewells : farewells h = said.toList.map fun p => farewell p.1 p.2
  past : ∀ control g, said = some (control, g) → c.session.highestPeerStreamId < g
  sent : (deeds world).Clear h → c.session.goawaySent = said.map Prod.snd
  length : (counted h).length = c.rejected
  nodup : (counted h).Nodup
  floor : ∀ id ∈ counted h, id < c.rejectedFloor

theorem Tally.carries {h : List (Turn H3Worker Error Unit Deed)} {c : H3Worker} {said : Option (ℕ × ℕ)}
    (htally : Tally world h c said) {t : Turn H3Worker Error Unit Deed} (hcarries : Carries c t.after)
    (harrive : ∀ id octets fin, t.move ≠ .arrive id octets fin) : Tally world (t :: h) t.after said := by
  have hfarewells : H3Worker.farewells (t :: h) = H3Worker.farewells h := by
    rw [H3Worker.farewells, List.flatMap_cons]
    cases hmove : t.move with
    | arrive id octets fin => exact absurd hmove (harrive id octets fin)
    | _ => rfl
  have hcounted : counted (t :: h) = counted h := by
    rw [counted, List.filterMap_cons]
    cases hmove : t.move with
    | arrive id octets fin => exact absurd hmove (harrive id octets fin)
    | _ => rfl
  refine ⟨hcarries.kept, hfarewells.trans htally.farewells, fun control g hsaid => ?_, fun hclear => ?_, ?_, ?_, ?_⟩
  · rw [hcarries.highest]
    exact htally.past control g hsaid
  · rw [hcarries.sent]
    exact htally.sent (Moves.clear_cons.1 hclear).2
  · rw [hcounted, hcarries.rejected]
    exact htally.length
  · rw [hcounted]
    exact htally.nodup
  · rw [hcounted, hcarries.rejectedFloor]
    exact htally.floor

/-- A goodbye is said when none was, and a refused stream is counted when it is past those that were. -/
theorem Tally.arrives {h : List (Turn H3Worker Error Unit Deed)} {said : Option (ℕ × ℕ)}
    {t : Turn H3Worker Error Unit Deed} (htally : Tally world h t.before said) (hclear : (deeds world).Clear h)
    (hmove : t.move = .arrive id octets fin) (harrived : Arrived id t.before t.outcome t.after) :
    ∃ said, Tally world (t :: h) t.after said := by
  have hkept := harrived.kept htally.kept
  have hfarewells : H3Worker.farewells (t :: h) = queuedBy t ++ H3Worker.farewells h := by
    rw [H3Worker.farewells, List.flatMap_cons, hmove]
    rfl
  have hcounted : (counted (t :: h)).length = t.after.rejected ∧ (counted (t :: h)).Nodup ∧
      ∀ id ∈ counted (t :: h), id < t.after.rejectedFloor := by
    rw [counted, List.filterMap_cons, hmove, ← counted]
    dsimp only
    obtain ⟨hrejected, hfloor⟩ | ⟨hpast, hrejected, hfloor⟩ := harrived.counted
    · rw [if_neg (hrejected ▸ lt_irrefl _), hrejected, hfloor]
      exact ⟨htally.length, htally.nodup, htally.floor⟩
    · rw [if_pos (by omega), hrejected, hfloor]
      have hfresh (other : ℕ) (hmem : other ∈ counted h) : other < id := (htally.floor other hmem).trans_le hpast
      refine ⟨congrArg (· + 1) htally.length, List.nodup_cons.2 ⟨fun hmem => lt_irrefl _ (hfresh id hmem), htally.nodup⟩, ?_⟩
      intro other hmem
      obtain rfl | hmem := List.mem_cons.1 hmem
      · exact Nat.lt_add_of_pos_right (Nat.succ_pos _)
      · exact (hfresh other hmem).trans_le (Nat.le_add_right _ _)
  obtain ⟨hlength, hnodup, hfloor⟩ := hcounted
  have hsent := htally.sent hclear
  obtain ⟨hqueued, hsame⟩ | ⟨hunsaid, g, hqueued, hpast, hends⟩ := harrived.said
  · refine ⟨said, hkept, ?_, fun control g hsaid => ?_, fun _ => hsame.trans hsent, hlength, hnodup, hfloor⟩
    · rw [hfarewells, queuedBy, hqueued, Nat.sub_self, List.take_zero, List.nil_append]
      exact htally.farewells
    · refine hkept.sent g ?_
      rw [hsame, hsent, hsaid, Option.map_some]
  · have hnone : said = none := Option.map_eq_none_iff.1 (hsent.symm.trans hunsaid)
    subst hnone
    refine ⟨some (t.before.localControl, g), hkept, ?_, fun control g' hsaid => ?_, fun hgoes => ?_, hlength, hnodup, hfloor⟩
    · rw [hfarewells, queuedBy, hqueued, List.length_cons, Nat.add_sub_cancel_left, htally.farewells]
      rfl
    · cases hsaid
      exact hpast
    · obtain hsaid | ⟨-, error, herror, hblamed⟩ := hends
      · exact hsaid
      · exact absurd ⟨error, herror, fun _ => hblamed⟩ (Moves.clear_cons.1 hgoes).1

/-- What is so of a course all along, and of every turn in it at which something arrives. -/
theorem tally_course {start c : H3Worker} {h : List (Turn H3Worker Error Unit Deed)} (hstart : Tally world [] start none)
    (hcourse : Course (deeds world) start h c) (hanswers : Turn.along answers h = true) :
    (∃ said, Tally world h c said) ∧ ∀ t ∈ h, ∀ id octets fin, t.move = .arrive id octets fin →
      Kept t.before ∧ Arrived id t.before t.outcome t.after := by
  induction hcourse with
  | begun => exact ⟨⟨none, hstart⟩, fun t ht => absurd ht List.not_mem_nil⟩
  | @turn h c c' move outcome _ hallowed htook ih =>
    obtain ⟨hanswer, hearlier⟩ := Bool.and_eq_true_iff.1 hanswers
    obtain ⟨⟨said, htally⟩, hall⟩ := ih hearlier
    have harrived (id : ℕ) (octets : Octets) (fin : Bool) (hmove : move = .arrive id octets fin) :
        Arrived id c outcome c' := by
      subst hmove
      have hrun : (dispatch world id octets fin).run c = (outcome, c') := htook
      have hdispatch := dispatch_arrived world id octets fin c
      rwa [hrun] at hdispatch
    refine ⟨?_, fun t ht id octets fin hmove => ?_⟩
    · by_cases harrive : ∃ id octets fin, move = .arrive id octets fin
      · obtain ⟨id, octets, fin, hmove⟩ := harrive
        have hclear : (deeds world).Clear h := by
          refine hallowed.resolve_right ?_
          rintro ⟨f, hf⟩
          cases hmove.symm.trans hf
        exact htally.arrives (t := ⟨move, c, outcome, c'⟩) hclear hmove (harrived id octets fin hmove)
      · have hcarries : Carries c ((deed world move).run c).2 := by
          refine deed_carries htally.kept (fun id octets fin hmove => harrive ⟨id, octets, fin, hmove⟩) ?_
          intro m id hmove hstream hrequest
          subst hmove
          simpa [answers, hstream, hrequest] using hanswer
        have hafter : ((deed world move).run c).2 = c' := congrArg Prod.snd htook
        exact ⟨said, htally.carries (t := ⟨move, c, outcome, c'⟩) (hafter ▸ hcarries)
          fun id octets fin hmove => harrive ⟨id, octets, fin, hmove⟩⟩
    · obtain rfl | ht := List.mem_cons.1 ht
      · exact ⟨htally.kept, harrived id octets fin hmove⟩
      · exact hall t ht id octets fin hmove

/-! ## Main result -/

/-- There is nothing of a request on a stream from this one on. -/
structure Bars (g : ℕ) (w : H3Worker) : Prop where
  streams : ∀ id, g ≤ id → QUICStreamID.isRequest id = true → w.session.streams.lookup id = none
  messages : ∀ m ∈ w.session.ready ++ messagesTold w.passed, ∃ id, m.streamId = some id ∧
    (QUICStreamID.isRequest id = true → id < g)

/-- What arrived on a stream was no reason to go back on a goodbye, nor to refuse more than it says. -/
structure Honoured (id : ℕ) (t : Turn H3Worker Error Unit Deed) : Prop where
  spurned : ∀ g, t.before.session.goawaySent = some g → g ≤ id → QUICStreamID.isRequest id = true →
    t.before.tunnels.lookup id = none → t.after.session = t.before.session
  refuses : resetsIn t.after.passed ≠ resetsIn t.before.passed → ∃ g, t.before.session.goawaySent = some g ∧ g ≤ id

theorem Kept.bars {g : ℕ} (h : Kept w) (hpast : w.session.highestPeerStreamId < g) : Bars g w where
  streams := fun id hle hrequest => by
    refine Option.eq_none_iff_forall_not_mem.2 fun state hstate => ?_
    have hwithin := (h.session.held id state hstate).1 hrequest
    omega
  messages := fun m hm => by
    have hof : ∃ id, m.streamId = some id ∧ w.session.Within id :=
      (List.mem_append.1 hm).elim (h.session.ready m) (h.told m)
    obtain ⟨id, hof, hwithin⟩ := hof
    exact ⟨id, hof, fun hrequest => (hwithin hrequest).trans_lt hpast⟩

theorem tally_new (world : World) {role : Role} (hserver : role.isClient = false) (limits : H3Limits)
    (transport : QUICTransport) (events : Mailbox) : Tally world [] (new (.new role limits) transport events) none := by
  have hnext : (H3Session.new role limits).nextStreamId = 1 := by
    change (if role.isClient then 0 else 1) = 1
    rw [hserver]
    rfl
  refine ⟨⟨⟨?_, fun id state hstate => ?_, fun m hm => ?_⟩, fun m hm => ?_, fun g hg => ?_⟩, rfl, fun _ _ h => ?_,
    fun _ => rfl, rfl, .nil, fun _ hmem => ?_⟩
  · change (H3Session.new role limits).nextStreamId % 2 = 1
    rw [hnext]
  · cases hstate
  · cases hm
  · cases hm
  · cases hg
  · cases h
  · cases hmem

/-- Of whatever a server does and in whatever order octets arrive, at most one goodbye is said. Nothing
    is taken up or handed on of a request from the one it names on, none before it is refused on its
    account, and a stream that is refused is counted once. -/
theorem goodbye_safe (world : World) {role : Role} (hserver : role.isClient = false) (limits : H3Limits)
    (transport : QUICTransport) (events : Mailbox) {h : List (Turn H3Worker Error Unit Deed)} {c : H3Worker}
    (hcourse : Course (deeds world) (new (.new role limits) transport events) h c)
    (hanswers : Turn.along answers h = true) :
    (∃ said : Option (ℕ × ℕ), farewells h = said.toList.map (fun p => farewell p.1 p.2) ∧
      (∀ control g, said = some (control, g) → Bars g c) ∧
      ((deeds world).Clear h → c.session.goawaySent = said.map Prod.snd)) ∧
    (∀ t ∈ h, ∀ id octets fin, t.move = .arrive id octets fin → Honoured id t) ∧
    (counted h).Nodup ∧ (counted h).length = c.rejected := by
  obtain ⟨⟨said, htally⟩, hall⟩ := tally_course (tally_new world hserver limits transport events) hcourse hanswers
  refine ⟨⟨said, htally.farewells, fun control g hsaid => htally.kept.bars (htally.past control g hsaid), htally.sent⟩,
    fun t ht id octets fin hmove => ?_, htally.nodup, htally.length⟩
  obtain ⟨hkept, harrived⟩ := hall t ht id octets fin hmove
  exact ⟨harrived.spurned hkept, harrived.refuses⟩

/-- A request with no dynamic fields. -/
def asking : Octets := [0x01, 0x08, 0x00, 0x00, 0xd1, 0xd7, 0xc1, 0x50, 0x01, 0x68]

/-- A server that serves one request. -/
def served : H3Worker := new (.new .origin { H3Limits.default with maxRequestsPerConnection := 1 }) ⟨[], []⟩ ⟨1, false⟩

/-- A request that is served, and one that surfaces twice after the goodbye. -/
def visits : List Deed := [.arrive 0 asking true, .hand, .arrive 4 asking false, .arrive 4 [] true]

theorem goodbye_safe_visits :
    (farewells ((deeds .bare).played visits served).1 = [farewell 0 4] ∧
      counted ((deeds .bare).played visits served).1 = [4] ∧
      (messagesTold ((deeds .bare).played visits served).2.passed).map (·.streamId) = [some 0]) ∧
    (counted ((deeds .bare).played visits served).1).length = ((deeds .bare).played visits served).2.rejected := by
  have hok : ∀ t ∈ ((deeds .bare).played visits served).1, t.outcome.isOk = true := by decide +kernel
  have hclear : (deeds .bare).Clear ((deeds .bare).played visits served).1 := by
    rintro t ht ⟨error, herror, -⟩
    exact absurd ((congrArg Except.isOk herror).symm.trans (hok t ht)) Bool.false_ne_true
  exact ⟨by decide +kernel, (goodbye_safe .bare rfl _ ⟨[], []⟩ ⟨1, false⟩ (.played hclear) (by decide +kernel)).2.2.2⟩

end H3Worker

end Soyokaze

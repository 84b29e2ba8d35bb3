import Soyokaze.Protocol.H2.Course

/-!
# A goodbye that nobody heeds

What a peer's GOAWAY says is recorded, and the record is read in one place: where nothing
has completed and no stream is open, there is nothing left to receive. All else a
connection does whether there is a record or not.

* `H2Connection.blind_perform`: whatever is done but receiving, it is done as it would be
  with another record;
* `H2Connection.receive_alike`: and so is receiving, unless it ends for the record.
-/

namespace Soyokaze

open H2

namespace H2Connection

variable {c c' : H2Connection} {id : ℕ} {α β : Type} {world : World}

/-! ## Connections that differ in the record -/

/-- The connection, with another record of the peer's goodbye. -/
def recorded (c : H2Connection) (g : Option ℕ) : H2Connection := { c with goaway := g }

/-- Two connections that differ in the record, if at all. -/
def Alike (c c' : H2Connection) : Prop := ∃ g, c' = c.recorded g

theorem Alike.refl (c : H2Connection) : Alike c c := ⟨c.goaway, rfl⟩

/-- A step that does the same whatever the record. -/
abbrev Blind (m : Step α) : Prop := Act.Respects Alike m

theorem Blind.bind {m : Step α} {f : α → Step β} (hm : Blind m) (hf : ∀ a, Blind (f a)) : Blind (m >>= f) :=
  Act.Respects.bind hm hf

theorem blind_of {m : Step α} (h : ∀ g c, m.run (c.recorded g) = ((m.run c).1, (m.run c).2.recorded g)) : Blind m := by
  rintro c c' ⟨g, rfl⟩
  rw [h]
  exact ⟨rfl, g, rfl⟩

theorem blind_pure (a : α) : Blind (pure a : Step α) := Act.respects_pure a

theorem blind_fail (error : Error) : Blind (Act.fail error : Step α) := Act.respects_fail error

theorem blind_ofExcept (x : Except Error α) : Blind (Act.ofExcept x : Step α) := Act.respects_ofExcept x

theorem blind_demand (condition : Bool) (error : Error) : Blind (Act.demand condition error : Step Unit) :=
  Act.respects_demand condition error

theorem blind_modify {f : H2Connection → H2Connection} (h : ∀ g c, f (c.recorded g) = (f c).recorded g) :
    Blind (Act.modify f : Step Unit) := blind_of fun g c => by rw [Act.run_modify, Act.run_modify, h]

/-- What follows the reading of a connection may read all of it but the record. -/
theorem blind_get_bind {f : H2Connection → Step β} (hsame : ∀ g c, f (c.recorded g) = f c) (hf : ∀ c, Blind (f c)) :
    Blind (Act.get >>= f) :=
  Act.respects_get_bind (fun c _ ⟨g, heq⟩ => heq ▸ hsame g c) hf

theorem blind_reading {f : Source Error UInt8 → Except Error α × Source Error UInt8} : Blind (reading f) :=
  blind_of fun _ _ => rfl

theorem blind_consuming (count : ℕ) : Blind (consuming count) := blind_modify fun _ _ => rfl

theorem blind_note (entry : Passed) : Blind (note entry) := blind_modify fun _ _ => rfl

theorem blind_noteIf (condition : Bool) (entry : Passed) : Blind (noteIf condition entry) := by
  rw [noteIf]
  split_ifs
  · exact blind_note entry
  · exact blind_pure ()

theorem blind_fatal {m : Step α} (h : Blind m) : Blind (fatal m) := by
  rintro c c' halike
  obtain ⟨hsame, g, hafter⟩ := h c c' halike
  rcases hrun : m.run c with ⟨error | a, c₁⟩ <;> rcases hrun' : m.run c' with ⟨error' | a', c₁'⟩ <;>
    rw [hrun, hrun'] at hsame hafter <;> cases hsame
  · rw [fatal_error hrun, fatal_error hrun']
    have hafter : c₁' = c₁.recorded g := hafter
    exact ⟨rfl, g, by rw [hafter]; rfl⟩
  · rw [fatal_ok hrun, fatal_ok hrun']
    exact ⟨rfl, g, hafter⟩

theorem blind_modifyStream (f : H2Stream → H2Stream) : Blind (modifyStream id f) := blind_modify fun _ _ => rfl

theorem blind_openStream (id : ℕ) : Blind (openStream id) := blind_of fun g c => by
  rcases h : c.streams.lookup id with _ | stream <;> simp only [Act.run, openStream, recorded, h]

/-! ## Writing -/

theorem blind_queue (frame : Frame) : Blind (queue frame) := blind_modify fun _ _ => rfl

theorem blind_flushOut : Blind flushOut := blind_of fun g c => by
  by_cases hout : c.out.isEmpty = true
  · simp only [Act.run, flushOut, recorded, hout, if_true]
  · rcases hwrite : c.sink.write c.out with ⟨error | _, sink⟩ <;>
      simp only [Act.run, flushOut, recorded, hout, hwrite, Bool.false_eq_true, if_false]

theorem blind_write (frame : Frame) : Blind (write frame) := (blind_queue frame).bind fun _ => blind_flushOut

theorem blind_overloaded (reason : String) (quoted : List Quoted) : Blind (overloaded reason quoted : Step α) := by
  rintro c c' ⟨g, rfl⟩
  exact ⟨rfl, (blind_write (.goAway c.highestPeerStreamId Code.ENHANCE_YOUR_CALM []) c _ ⟨g, rfl⟩).2⟩

theorem blind_reset (code : ℕ) : Blind (reset id code) :=
  Blind.bind (blind_modify fun _ _ => rfl) fun _ => blind_write _

theorem blind_retire (id : ℕ) : Blind (retire id) := blind_modify fun g c => by
  rcases h : c.streams.lookup id with _ | stream
  · simp only [recorded, h]
  · simp only [recorded, h]
    split_ifs <;> rfl

theorem blind_idle : Blind idle := by
  refine Blind.bind (blind_modify fun _ _ => rfl) fun _ => blind_get_bind (fun _ _ => rfl) fun c => ?_
  split_ifs
  · exact blind_overloaded _ _
  · exact blind_pure ()

theorem blind_advanced (progress : Bool) : Blind (advanced progress) := by
  rw [advanced]
  split_ifs
  · exact blind_modify fun _ _ => rfl
  · exact blind_idle

/-! ## Starting and reading -/

theorem blind_exchangePreface : Blind exchangePreface := by
  refine blind_get_bind (fun _ _ => rfl) fun c => ?_
  split_ifs
  · exact blind_modify fun _ _ => rfl
  · exact blind_reading.bind fun _ => (blind_demand _ _).bind fun _ => blind_consuming _

theorem blind_start : Blind start := by
  refine blind_get_bind (fun _ _ => rfl) fun c => ?_
  split_ifs
  · exact blind_pure ()
  · refine blind_fatal (Blind.bind (blind_modify fun _ _ => rfl) fun _ => blind_exchangePreface.bind fun _ => ?_)
    exact Blind.bind (blind_modify fun _ _ => rfl) fun _ => blind_get_bind (fun _ _ => rfl) fun _ =>
      (blind_queue _).bind fun _ => blind_flushOut

theorem blind_resetAll (pending : List (ℕ × ℕ)) : Blind (resetAll pending) := by
  induction pending with
  | nil => exact blind_pure ()
  | cons entry pending ih => exact (blind_queue _).bind fun _ => Blind.bind (blind_modify fun _ _ => rfl) fun _ => ih

theorem blind_flushResets : Blind flushResets := by
  refine blind_get_bind (fun _ _ => rfl) fun c => ?_
  split_ifs
  · exact Blind.bind (blind_modify fun _ _ => rfl) fun _ => blind_resetAll _
  · exact blind_pure ()

theorem blind_takeFrame (length : ℕ) (header : Option FrameHeader) : Blind (takeFrame length header) := by
  refine blind_get_bind (fun _ _ => rfl) fun c => (blind_consuming _).bind fun _ => ?_
  cases header with
  | none => exact blind_pure _
  | some header => exact (blind_note _).bind fun _ => (blind_ofExcept _).map _

theorem blind_readFrameKept : Blind readFrameKept := by
  refine Blind.bind (blind_get_bind (fun _ _ => rfl) fun c => ?_) fun _ => blind_get_bind (fun _ _ => rfl) fun c =>
    blind_reading.bind fun found => blind_takeFrame _ _
  split_ifs
  · exact blind_flushOut
  · exact blind_pure ()

theorem blind_readFrame : Blind readFrame := by
  refine blind_get_bind (fun _ _ => rfl) fun c => ?_
  induction c.source.left + 1 with
  | zero => exact blind_fail _
  | succ fuel ih =>
    refine blind_readFrameKept.bind fun kept => ?_
    cases kept with
    | error kind => exact ih
    | ok frame => exact blind_pure _

/-! ## Acting on a frame -/

theorem blind_beginStream (id : ℕ) : Blind (beginStream id) := by
  refine blind_get_bind (fun _ _ => rfl) fun c => ?_
  split_ifs
  · exact blind_demand _ _
  · exact blind_pure ()
  · exact (blind_demand _ _).bind fun _ => Blind.bind (blind_modify fun _ _ => rfl) fun _ =>
      (blind_demand _ _).bind fun _ => Blind.bind (blind_modify fun _ _ => rfl) fun _ => blind_note _

theorem blind_complete (endStream : Bool) : Blind (complete id endStream) := by
  refine (blind_modifyStream _).bind fun _ => blind_get_bind (fun _ _ => rfl) fun c => ?_
  split
  · exact blind_pure _
  · split
    · exact (blind_noteIf _ _).bind fun _ => blind_pure _
    · exact (blind_modifyStream _).bind fun _ => (blind_retire id).bind fun _ => blind_pure _

theorem blind_settleSection (endStream : Bool) : Blind (settleSection id endStream) := by
  refine (blind_modifyStream _).bind fun _ => (blind_openStream id).bind fun stream => ?_
  split_ifs
  · exact blind_complete endStream
  · exact blind_pure _

theorem blind_absorbMessage (fields : List HeaderField) : Blind (absorbMessage world id fields) := by
  refine (blind_ofExcept _).bind fun m => blind_get_bind (fun _ _ => rfl) fun c => (blind_modifyStream _).bind fun _ => ?_
  split_ifs
  · exact (blind_modifyStream _).bind fun _ => blind_pure _
  · exact (blind_modifyStream _).bind fun _ => blind_pure _

theorem blind_foldSection (fields : List HeaderField) (endStream : Bool) : Blind (foldSection world id fields endStream) := by
  refine (blind_openStream id).bind fun stream => ?_
  split_ifs
  · exact Blind.bind ((blind_ofExcept _).bind fun _ => blind_modifyStream _) fun _ => blind_settleSection endStream
  · refine (blind_absorbMessage fields).bind fun m => ?_
    cases m with
    | some m => exact (blind_noteIf _ _).bind fun _ => blind_pure _
    | none => exact blind_settleSection endStream

theorem blind_finishHeaders (block : Octets) (endStream : Bool) : Blind (finishHeaders world id block endStream) :=
  Blind.bind (blind_modify fun _ _ => rfl) fun _ => (blind_openStream id).bind fun _ => (blind_modifyStream _).bind fun _ =>
    (blind_openStream id).bind fun _ => blind_get_bind (fun _ _ => rfl) fun _ => (blind_demand _ _).bind fun _ =>
    Blind.bind (blind_of fun _ _ => rfl) fun _ => (blind_demand _ _).bind fun _ => blind_foldSection _ endStream

theorem blind_finishGathered (endStream : Bool) : Blind (finishGathered world id endStream) :=
  (blind_openStream id).bind fun _ => (blind_modifyStream _).bind fun _ => blind_finishHeaders _ endStream

theorem blind_continueHeaders (endStream : Bool) (frames : ℕ) : Blind (continueHeaders world id endStream frames) := by
  have hcheck : Blind (checkBlock id) := blind_get_bind (fun _ _ => rfl) fun _ => blind_demand _ _
  induction frames with
  | zero => exact hcheck.bind fun _ => blind_get_bind (fun _ _ => rfl) fun _ => blind_fail _
  | succ frames ih =>
    refine hcheck.bind fun _ => blind_readFrameKept.bind fun kept => ?_
    rcases kept with kind | frame
    · exact blind_fail _
    cases frame
    case continuation other endHeaders block =>
      refine (?_ : Blind (if other = id then _ else _))
      split_ifs
      · exact (blind_openStream id).bind fun _ => (blind_modifyStream _).bind fun _ => blind_finishGathered endStream
      · exact (blind_openStream id).bind fun _ => (blind_modifyStream _).bind fun _ => ih
      · exact blind_fail _
    all_goals exact blind_fail _

theorem blind_handleHeaders (endStream endHeaders : Bool) (block : Octets) :
    Blind (handleHeaders world id endStream endHeaders block) := by
  refine (blind_beginStream id).bind fun _ => ?_
  split_ifs
  · exact blind_finishHeaders block endStream
  · exact (blind_openStream id).bind fun _ => (blind_modifyStream _).bind fun _ => blind_get_bind (fun _ _ => rfl) fun _ =>
      blind_continueHeaders endStream _

theorem blind_handleSettings (params : List (ℕ × ℕ)) : Blind (handleSettings params) :=
  blind_idle.bind fun _ => blind_get_bind (fun _ _ => rfl) fun _ => Blind.bind (blind_of fun _ _ => rfl) fun _ =>
    Blind.bind (blind_modify fun _ _ => rfl) fun _ => (blind_queue _).bind fun _ => blind_pure _

theorem blind_creditConnection (increment : ℕ) : Blind (creditConnection increment) :=
  blind_get_bind (fun _ _ => rfl) fun _ => Blind.bind (blind_modify fun _ _ => rfl) fun _ => (blind_demand _ _).bind fun _ =>
    (blind_advanced _).bind fun _ => blind_pure _

theorem blind_creditStream (id increment : ℕ) : Blind (creditStream id increment) := by
  refine blind_get_bind (fun _ _ => rfl) fun c => ?_
  split
  · exact blind_idle.bind fun _ => blind_pure _
  · refine (blind_modifyStream _).bind fun _ => ?_
    split_ifs
    · exact (blind_reset _).bind fun _ => blind_pure _
    · exact (blind_advanced _).bind fun _ => blind_pure _

theorem blind_countPremature : Blind countPremature := by
  refine Blind.bind (blind_modify fun _ _ => rfl) fun _ => blind_get_bind (fun _ _ => rfl) fun c => ?_
  split_ifs
  · exact blind_overloaded _ _
  · exact blind_pure _

theorem blind_handleReset (id : ℕ) : Blind (handleReset id) := by
  refine blind_idle.bind fun _ => blind_get_bind (fun _ _ => rfl) fun c => Blind.bind (blind_modify fun _ _ => rfl) fun _ => ?_
  split
  · split_ifs
    · exact blind_countPremature
    · exact blind_pure _
  · exact blind_pure _

theorem blind_giveCredit (id length : ℕ) : Blind (giveCredit id length) := by
  rw [giveCredit]
  split_ifs
  · exact blind_queue _
  · exact blind_pure ()

theorem blind_spendConnection (length : ℕ) : Blind (spendConnection length) := by
  refine Blind.bind (blind_modify fun _ _ => rfl) fun _ => blind_get_bind (fun _ _ => rfl) fun c => ?_
  split_ifs
  · exact (blind_note _).bind fun _ => blind_fail _
  · exact (blind_giveCredit 0 length).bind fun _ => blind_modify fun _ _ => rfl

theorem blind_overbuffered : Blind overbuffered := by
  rintro c c' ⟨g, rfl⟩
  by_cases h : c.bufferedBound ≤ c.limits.maxConnectionBufferSize
  · have hrun (c : H2Connection) (h : c.bufferedBound ≤ c.limits.maxConnectionBufferSize) :
        overbuffered.run c = (.ok false, c) := if_pos h
    rw [hrun c h, hrun (c.recorded g) h]
    exact ⟨rfl, g, rfl⟩
  · have hrun (c : H2Connection) (h : ¬c.bufferedBound ≤ c.limits.maxConnectionBufferSize) : overbuffered.run c =
        (.ok (c.limits.maxConnectionBufferSize < c.buffered), { c with bufferedBound := c.buffered }) := if_neg h
    rw [hrun c h, hrun (c.recorded g) h]
    exact ⟨rfl, g, rfl⟩

theorem blind_holdData (data : Octets) : Blind (holdData id data) :=
  (blind_modifyStream _).bind fun _ => (blind_openStream id).bind fun _ => Blind.bind (blind_modify fun _ _ => rfl) fun _ =>
    blind_get_bind (fun _ _ => rfl) fun _ => (blind_demand _ _).bind fun _ => (blind_demand _ _).bind fun _ =>
    blind_overbuffered.bind fun _ => blind_demand _ _

theorem blind_restoreStream (id length : ℕ) : Blind (restoreStream id length) := by
  refine blind_get_bind (fun _ _ => rfl) fun c => ?_
  split_ifs
  · exact (blind_giveCredit id length).bind fun _ => blind_modifyStream _
  · exact blind_pure ()

theorem blind_absorbData (endStream : Bool) (data : Octets) : Blind (absorbData id endStream data) := by
  refine (blind_holdData data).bind fun _ => (blind_note _).bind fun _ => (blind_restoreStream id _).bind fun _ => ?_
  split_ifs
  · exact blind_complete true
  · exact blind_pure _

theorem blind_demandReceivable (id : ℕ) : Blind (demandReceivable id) := blind_of fun g c => by
  rcases h : c.streams.lookup id with _ | stream <;> simp only [Act.run, demandReceivable, recorded, h]

theorem blind_handleData (endStream : Bool) (data : Octets) : Blind (handleData id endStream data) := by
  refine (blind_demandReceivable id).bind fun _ => (blind_advanced _).bind fun _ => (blind_spendConnection _).bind fun _ => ?_
  refine (blind_modifyStream _).bind fun _ => (blind_openStream id).bind fun stream => ?_
  split_ifs
  · exact (blind_note _).bind fun _ => (blind_reset _).bind fun _ => blind_pure _
  · exact blind_absorbData endStream data

/-- What a goodbye says is recorded, and no more. -/
theorem blind_goAway (last code : ℕ) (debug : Octets) : Blind (handle world (.goAway last code debug)) := by
  refine blind_idle.bind fun _ => Blind.bind ?_ fun _ => blind_pure _
  rintro c c' ⟨g, rfl⟩
  exact ⟨rfl, some code, rfl⟩

theorem blind_handle (frame : Frame) : Blind (handle world frame) := by
  cases frame with
  | settings ack params =>
    cases ack with
    | false => exact blind_handleSettings params
    | true => exact blind_idle.bind fun _ => blind_pure _
  | ping ack payload =>
    cases ack with
    | false => exact blind_idle.bind fun _ => (blind_queue _).bind fun _ => blind_pure _
    | true => exact blind_idle.bind fun _ => blind_pure _
  | windowUpdate id increment =>
    rw [handle]
    split_ifs
    · exact blind_creditConnection increment
    · exact blind_creditStream id increment
  | goAway last code debug => exact blind_goAway last code debug
  | rstStream id code => exact blind_handleReset id
  | priority => exact blind_idle.bind fun _ => blind_pure _
  | pushPromise => exact blind_fail _
  | headers id endStream endHeaders block => exact blind_handleHeaders endStream endHeaders block
  | continuation => exact blind_fail _
  | data id endStream data => exact blind_handleData endStream data

theorem blind_flushIfDrained : Blind flushIfDrained := by
  refine blind_get_bind (fun _ _ => rfl) fun c => ?_
  split_ifs
  · exact blind_flushOut
  · exact blind_pure ()

theorem blind_act (frame : Frame) : Blind (act world frame) :=
  (blind_handle frame).bind fun _ => blind_get_bind (fun _ _ => rfl) fun _ => (blind_note _).bind fun _ => blind_pure _

theorem blind_pump (world : World) : Blind (pump world) :=
  blind_fatal <| blind_start.bind fun _ => blind_flushResets.bind fun _ => blind_readFrame.bind fun frame =>
    (blind_act frame).bind fun _ => blind_flushIfDrained.bind fun _ => blind_pure _

theorem blind_relay (world : World) : Blind (relay world) :=
  blind_fatal <| blind_flushOut.bind fun _ => blind_readFrame.bind fun frame => blind_act frame

/-! ## Sending -/

theorem blind_writeContinuations (pieces : List Octets) : Blind (writeContinuations id pieces) := by
  induction pieces with
  | nil => exact blind_pure ()
  | cons piece pieces ih => exact (blind_queue _).bind fun _ => ih

theorem blind_writeSection (fields : List HeaderField) (endStream : Bool) : Blind (writeSection id fields endStream) :=
  blind_get_bind (fun _ _ => rfl) fun _ => Blind.bind (blind_modify fun _ _ => rfl) fun _ =>
    blind_get_bind (fun _ _ => rfl) fun _ => (blind_queue _).bind fun _ => blind_writeContinuations _

theorem blind_awaitCredit (world : World) : Blind (awaitCredit world) := by
  refine (blind_pump world).bind fun m => ?_
  cases m with
  | some m => exact blind_modify fun _ _ => rfl
  | none => exact blind_pure ()

theorem blind_writeChunk (chunk : Octets) (last : Bool) : Blind (writeChunk id chunk last) := by
  refine (blind_queue _).bind fun _ => Blind.bind (blind_get_bind (fun _ _ => rfl) fun c => ?_) fun _ =>
    blind_modify fun _ _ => rfl
  split_ifs
  · exact blind_flushOut
  · exact blind_pure ()

theorem blind_writeData (world : World) (id : ℕ) (data : Octets) (endStream : Bool) : Blind (writeData world id data endStream) := by
  refine blind_get_bind (fun _ _ => rfl) fun c => ?_
  induction data.length + c.source.left + 1 generalizing data with
  | zero => exact blind_fail _
  | succ fuel ih =>
    refine blind_get_bind (fun _ _ => rfl) fun c => ?_
    split
    · exact blind_fail _
    · split_ifs
      · exact (blind_awaitCredit world).bind fun _ => ih data
      · refine (blind_writeChunk _ _).bind fun _ => ?_
        split_ifs
        · exact blind_pure ()
        · exact ih _

theorem blind_allocate (m : Message) : Blind (allocate m) := by
  refine blind_get_bind (fun _ _ => rfl) fun c => ?_
  split
  · exact (blind_demand _ _).bind fun _ => blind_pure _
  · exact (blind_demand _ _).bind fun _ => Blind.bind (blind_modify fun _ _ => rfl) fun _ => (blind_note _).bind fun _ =>
      blind_pure _

/-- A message is sent whatever the record, and on a stream of its own. -/
theorem blind_sendMessage (world : World) (m : Message) : Blind (sendMessage world m) := by
  refine blind_get_bind (fun _ _ => rfl) fun c => blind_start.bind fun _ => blind_flushResets.bind fun _ =>
    (blind_allocate _).bind fun id => blind_get_bind (fun _ _ => rfl) fun _ => (blind_ofExcept _).bind fun o =>
    (blind_writeSection _ _).bind fun _ => Blind.bind ?_ fun _ => Blind.bind ?_ fun _ =>
    Blind.bind ((blind_modifyStream _).bind fun _ => blind_retire id) fun _ => blind_flushIfDrained
  · cases o.body with
    | none => exact blind_pure ()
    | some body => exact blind_writeData world id body _
  · cases o.trailers with
    | none => exact blind_pure ()
    | some fields => exact blind_writeSection fields true

/-! ## Whatever is done -/

theorem blind_close : Blind close := by
  rintro c c' ⟨g, rfl⟩
  exact ⟨rfl, (blind_write (.goAway (c.nextStreamId - 2) Code.NO_ERROR []) c _ ⟨g, rfl⟩).2⟩

/-- Whatever is done but receiving is done as it would be with another record. -/
theorem blind_perform {event : Event} (hreceive : event ≠ .receive) : Blind (perform world event) := by
  cases event with
  | receive => exact absurd rfl hreceive
  | send m => exact (blind_sendMessage world m).map _
  | pump => exact blind_pump world
  | relay => exact blind_relay world
  | writeData id data endStream => exact (blind_writeData world id data endStream).map _
  | reset id code => exact Act.Respects.map (blind_reset code) _
  | mark id code =>
    refine Act.Respects.map (blind_modify fun g c => ?_) _
    rw [apply_ite (recorded · g)]
    rfl
  | drain id =>
    refine Act.Respects.map (blind_get_bind (fun _ _ => rfl) fun c => ?_) _
    exact (blind_modifyStream _).bind fun _ => blind_pure _
  | close => exact blind_close.map _

/-- Receiving has come to its end for the record: there is one, and no stream is open. -/
def Left (outcome : Except Error α) (c : H2Connection) : Prop :=
  (∃ error, outcome = .error error) ∧ c.goaway.isSome = true ∧ c.streams.entries.isEmpty = true

/-- What a round does that no message is ready for, or what one that is ready. -/
theorem blind_arrived (world : World) : Blind (arrived world) := by
  rintro c c' ⟨g, rfl⟩
  rw [arrived, Act.run_bind_ok (Act.run_get c), Act.run_bind_ok (Act.run_get (c.recorded g))]
  rcases hready : c.ready with _ | ⟨m, ready⟩
  · have hready' : (c.recorded g).ready = [] := hready
    rw [hready']
    exact blind_pump world c _ ⟨g, rfl⟩
  · have hready' : (c.recorded g).ready = m :: ready := hready
    rw [hready']
    exact ⟨rfl, g, rfl⟩

/-- Receiving goes as it would with another record, unless it ends for one. -/
theorem receive_alike (world : World) (fuel : ℕ) (halike : Alike c c')
    (hgoes : ¬Left ((receiveLoop world fuel).run c).1 ((receiveLoop world fuel).run c).2)
    (hgoes' : ¬Left ((receiveLoop world fuel).run c').1 ((receiveLoop world fuel).run c').2) :
    ((receiveLoop world fuel).run c').1 = ((receiveLoop world fuel).run c).1 ∧
      Alike ((receiveLoop world fuel).run c).2 ((receiveLoop world fuel).run c').2 := by
  induction fuel generalizing c c' with
  | zero => exact blind_fail _ c c' halike
  | succ fuel ih =>
    obtain ⟨hsame, g, hafter⟩ := blind_arrived world c c' halike
    rw [receiveLoop] at hgoes hgoes' ⊢
    rcases hrun : (arrived world).run c with ⟨error | m, c₁⟩ <;>
      rcases hrun' : (arrived world).run c' with ⟨error' | m', c₁'⟩ <;>
      rw [hrun, hrun'] at hsame hafter <;> cases hsame
    · rw [Act.run_bind_error hrun, Act.run_bind_error hrun']
      exact ⟨rfl, g, hafter⟩
    · obtain rfl : c₁' = c₁.recorded g := hafter
      rw [Act.run_bind_ok hrun] at hgoes ⊢
      rw [Act.run_bind_ok hrun'] at hgoes' ⊢
      cases m with
      | some m => exact ⟨rfl, g, rfl⟩
      | none =>
        rw [Act.run_bind_ok (Act.run_get _)] at hgoes hgoes' ⊢
        rw [Act.run_bind_ok (Act.run_get _)]
        -- A round that ends for the record leaves the connection so.
        have hon {c : H2Connection} {n : Step Message} (hleft : ¬Left
            ((if c.goaway.isSome && c.streams.entries.isEmpty then Act.fail .closed else n).run c).1
            ((if c.goaway.isSome && c.streams.entries.isEmpty then Act.fail .closed else n).run c).2) :
            (c.goaway.isSome && c.streams.entries.isEmpty) = false := by
          refine Bool.eq_false_iff.2 fun hends => hleft ?_
          rw [if_pos hends]
          exact ⟨⟨_, rfl⟩, Bool.and_eq_true_iff.1 hends⟩
        have hon₁ := hon hgoes
        have hon₁' := hon hgoes'
        rw [hon₁, if_neg Bool.false_ne_true] at hgoes ⊢
        rw [hon₁', if_neg Bool.false_ne_true] at hgoes' ⊢
        exact ih ⟨g, rfl⟩ hgoes hgoes'

/-! ## Runs -/

/-- What came of all that was done with a connection. Nothing is done with one that failed. -/
def outcomes : List (World × Event) → H2Connection → List (Except Error (Option Message))
  | [], _ => []
  | (world, event) :: events, c =>
    if c.Failed then []
    else ((perform world event).run c).1 :: outcomes events ((perform world event).run c).2

/-- Receiving never comes to its end for the record. -/
def Lasts : List (World × Event) → H2Connection → Prop
  | [], _ => True
  | (world, event) :: events, c => c.Failed ∨
    (event = .receive → ¬Left ((perform world event).run c).1 ((perform world event).run c).2) ∧
      Lasts events ((perform world event).run c).2

theorem perform_alike {event : Event} (halike : Alike c c')
    (hlasts : event = .receive → ¬Left ((perform world event).run c).1 ((perform world event).run c).2)
    (hlasts' : event = .receive → ¬Left ((perform world event).run c').1 ((perform world event).run c').2) :
    ((perform world event).run c').1 = ((perform world event).run c).1 ∧
      Alike ((perform world event).run c).2 ((perform world event).run c').2 := by
  by_cases hreceive : event = .receive
  · subst hreceive
    have hof (c : H2Connection) : (perform world .receive).run c =
        (((receiveLoop world (c.source.left + 1)).run c).1.map some, ((receiveLoop world (c.source.left + 1)).run c).2) := by
      rw [perform, Act.run_map]
      rfl
    have hleft {c : H2Connection} (hlasts : ¬Left ((perform world .receive).run c).1 ((perform world .receive).run c).2) :
        ¬Left ((receiveLoop world (c.source.left + 1)).run c).1 ((receiveLoop world (c.source.left + 1)).run c).2 := by
      rintro ⟨⟨error, herror⟩, hends⟩
      refine hlasts ?_
      rw [hof, herror]
      exact ⟨⟨error, rfl⟩, hends⟩
    have hgoes := hleft (hlasts rfl)
    have hgoes' := hleft (hlasts' rfl)
    have hsource : c'.source = c.source := by
      obtain ⟨g, rfl⟩ := halike
      rfl
    rw [hsource] at hgoes'
    obtain ⟨hsame, hafter⟩ := receive_alike world _ halike hgoes hgoes'
    rw [hof, hof, hsource, hsame]
    exact ⟨rfl, hafter⟩
  · exact blind_perform hreceive c c' halike

/-- Whatever is done with a connection, it does as it would with another record, until receiving comes
    to its end for one. -/
theorem unheeded (events : List (World × Event)) (halike : Alike c c') (hlasts : Lasts events c) (hlasts' : Lasts events c') :
    outcomes events c' = outcomes events c ∧ Alike (after events c) (after events c') := by
  induction events generalizing c c' with
  | nil => exact ⟨rfl, halike⟩
  | cons event events ih =>
    obtain ⟨world, event⟩ := event
    have hfailed : c'.Failed ↔ c.Failed := by
      obtain ⟨g, rfl⟩ := halike
      exact Iff.rfl
    rw [outcomes, outcomes, after, after]
    by_cases h : c.Failed
    · rw [if_pos h, if_pos h, if_pos (hfailed.2 h), if_pos (hfailed.2 h)]
      exact ⟨rfl, halike⟩
    · have h' : ¬c'.Failed := fun hfalls => h (hfailed.1 hfalls)
      rw [if_neg h, if_neg h, if_neg h', if_neg h']
      obtain ⟨hreceive, hrest⟩ := hlasts.resolve_left h
      obtain ⟨hreceive', hrest'⟩ := hlasts'.resolve_left h'
      obtain ⟨hsame, hafter⟩ := perform_alike halike hreceive hreceive'
      obtain ⟨hlater, hend⟩ := ih hafter hrest hrest'
      rw [hsame, hlater]
      exact ⟨rfl, hend⟩

end H2Connection

end Soyokaze

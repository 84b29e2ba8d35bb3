import Soyokaze.Protocol.H3.Feeding
import Soyokaze.Protocol.H3.Worker

/-!
# What pays no heed to the control stream

What has been said on the control stream of a peer is read where that stream is, and
hardly anywhere else. Whatever was said, the rest of a session does the same, and leaves
what was said as it was.

* `H3Session.Deaf`: a step that does the same whatever was said;
* `H3Session.Deaf.told`: it leaves what was said as it was;
* `H3Worker.deaf_execute`: a command is carried out whatever was said.
-/

namespace Soyokaze

open H3

namespace H3Session

variable {s : H3Session} {id : ℕ} {α β : Type} {world : World}

/-! ## What was said -/

/-- What a peer has said on its control stream. -/
structure Told where
  goaway : Option ℕ
  received : Octets
  settings : Option Settings

/-- What the session has of it. -/
def told (s : H3Session) : Told := ⟨s.goaway, s.controlRecv, s.settingsRemote⟩

/-- The session, had something else been said. -/
def retold (s : H3Session) (c : Told) : H3Session := { s with
  goaway := c.goaway, controlRecv := c.received, settingsRemote := c.settings }

@[simp] theorem told_retold (s : H3Session) (c : Told) : (s.retold c).told = c := rfl

@[simp] theorem retold_told (s : H3Session) : s.retold s.told = s := rfl

/-- A step that does the same whatever was said. -/
def Deaf (m : Step α) : Prop := ∀ c, Act.Respects (fun s s' => s' = s.retold c) m

theorem deaf_of {m : Step α} (h : ∀ c s, m.run (s.retold c) = ((m.run s).1, (m.run s).2.retold c)) : Deaf m := by
  rintro c s s' rfl
  rw [h]
  exact ⟨rfl, rfl⟩

theorem Deaf.run {m : Step α} (h : Deaf m) (c : Told) (s : H3Session) :
    m.run (s.retold c) = ((m.run s).1, (m.run s).2.retold c) :=
  Prod.ext (h c s _ rfl).1 (h c s _ rfl).2

/-- A step that does the same whatever was said leaves what was said as it was. -/
theorem Deaf.told {m : Step α} (h : Deaf m) (s : H3Session) : (m.run s).2.told = s.told := by
  have hrun := h.run s.told s
  rw [retold_told] at hrun
  rw [hrun, told_retold]

theorem Deaf.bind {m : Step α} {f : α → Step β} (hm : Deaf m) (hf : ∀ a, Deaf (f a)) : Deaf (m >>= f) :=
  fun c => (hm c).bind fun a => hf a c

theorem deaf_pure (a : α) : Deaf (pure a : Step α) := fun _ => Act.respects_pure a

theorem deaf_fail (error : Error) : Deaf (Act.fail error : Step α) := fun _ => Act.respects_fail error

theorem deaf_ofExcept (x : Except Error α) : Deaf (Act.ofExcept x : Step α) := fun _ => Act.respects_ofExcept x

theorem deaf_demand (condition : Bool) (error : Error) : Deaf (Act.demand condition error : Step Unit) :=
  fun _ => Act.respects_demand condition error

theorem deaf_modify {f : H3Session → H3Session} (h : ∀ c s, f (s.retold c) = (f s).retold c) :
    Deaf (Act.modify f : Step Unit) := deaf_of fun c s => by rw [Act.run_modify, Act.run_modify, h]

/-- What follows the reading of a session may read of it what was not said. -/
theorem deaf_get_bind {f : H3Session → Step β} (hsame : ∀ c s, f (s.retold c) = f s) (hf : ∀ s, Deaf (f s)) :
    Deaf (Act.get >>= f) :=
  fun c => Act.respects_get_bind (fun s _ heq => heq ▸ hsame c s) fun s => hf s c

/-! ## Steps that pay no heed -/

theorem deaf_stream (id : ℕ) : Deaf (stream id) := deaf_of fun c s => by
  simp only [Act.run, stream, retold]
  split <;> rfl

theorem deaf_modifyStream (id : ℕ) (f : StreamState → StreamState) : Deaf (modifyStream id f) := deaf_modify fun _ _ => rfl

theorem deaf_entry (id : ℕ) : Deaf (entry id) := deaf_modify fun c s => by
  rw [apply_ite (retold · c)]
  rfl

theorem deaf_forget (id : ℕ) : Deaf (forget id) := deaf_modify fun _ _ => rfl

theorem deaf_retire (id : ℕ) : Deaf (retire id) := by
  refine deaf_get_bind (fun _ _ => rfl) fun s => ?_
  split_ifs
  · exact deaf_forget id
  · exact deaf_pure ()

theorem deaf_openBidi : Deaf openBidi :=
  deaf_get_bind (fun _ _ => rfl) fun _ => (deaf_modify fun _ _ => rfl).bind fun _ => (deaf_entry _).bind fun _ => deaf_pure _

theorem deaf_writeBlock (fields : List HeaderField) : Deaf (writeBlock id fields) := deaf_of fun _ _ => rfl

theorem deaf_writeTrailers (trailers : Option Headers) : Deaf (writeTrailers id trailers) := by
  cases trailers with
  | none => exact deaf_pure _
  | some trailers =>
    rw [writeTrailers]
    split_ifs
    · exact deaf_pure _
    · exact deaf_writeBlock _

theorem deaf_frameMessage (m : Message) : Deaf (frameMessage world id m) := by
  refine deaf_get_bind (fun _ _ => rfl) fun _ => (deaf_ofExcept _).bind fun m => (deaf_ofExcept _).bind fun _ => ?_
  refine (deaf_writeBlock _).bind fun _ => (deaf_ofExcept _).bind fun _ => (deaf_writeTrailers _).bind fun _ => ?_
  exact (deaf_entry id).bind fun _ => (deaf_modifyStream id _).bind fun _ => (deaf_stream id).bind fun _ =>
    (deaf_modifyStream id _).bind fun _ => deaf_pure _

theorem deaf_decodeBlock (block : Octets) : Deaf (decodeBlock id block) := deaf_of fun c s => by
  rcases h : s.decoder.decode id block with ⟨decoder, error | ⟨fields, acknowledgment⟩⟩ <;>
    (simp only [Act.run, decodeBlock, retold, h])

theorem deaf_absorbHeaders (fields : List HeaderField) : Deaf (absorbHeaders world id fields) := by
  refine deaf_get_bind (fun _ _ => rfl) fun s => (deaf_demand _ _).bind fun _ => (deaf_stream id).bind fun state => ?_
  split_ifs
  · exact (deaf_ofExcept _).bind fun _ => deaf_modifyStream id _
  · refine (deaf_ofExcept _).bind fun m => (deaf_modifyStream id _).bind fun _ => (deaf_stream id).bind fun state => ?_
    split_ifs
    · exact (deaf_modifyStream id _).bind fun _ => deaf_modify fun _ _ => rfl
    · exact deaf_modifyStream id _

theorem deaf_absorbBlock (block : Octets) : Deaf (absorbBlock world id block) := by
  refine (deaf_decodeBlock block).bind fun outcome => ?_
  split
  · exact (deaf_absorbHeaders _).bind fun _ => deaf_pure _
  · refine (deaf_stream id).bind fun _ => (deaf_modifyStream id _).bind fun _ => Deaf.bind (deaf_modify fun c s => ?_)
      fun _ => deaf_pure _
    rw [apply_ite (retold · c)]
    rfl
  · exact deaf_fail _

theorem deaf_retryBlock (block : Octets) : Deaf (retryBlock world id block) := by
  refine (deaf_decodeBlock block).bind fun outcome => ?_
  split
  · exact (deaf_stream id).bind fun _ => (deaf_modifyStream id _).bind fun _ => (deaf_modify fun _ _ => rfl).bind fun _ =>
      (deaf_absorbHeaders _).bind fun _ => deaf_pure _
  · exact deaf_pure _
  · exact deaf_fail _

theorem deaf_absorbData (octets : Octets) : Deaf (absorbData id octets) :=
  deaf_get_bind (fun _ _ => rfl) fun _ => (deaf_stream id).bind fun _ => (deaf_demand _ _).bind fun _ =>
    (deaf_modifyStream id _).bind fun _ => (deaf_demand _ _).bind fun _ => deaf_pure _

theorem deaf_absorbFrame (frame : Frame) : Deaf (absorbFrame world id frame) := by
  cases frame with
  | headers block =>
    exact deaf_get_bind (fun _ _ => rfl) fun _ => (deaf_demand _ _).bind fun _ => deaf_absorbBlock block
  | data octets => exact deaf_absorbData octets
  | settings | goAway | maxPushId | cancelPush | pushPromise => exact deaf_fail _

theorem deaf_advanceOnce : Deaf (advanceOnce world id) := by
  refine deaf_get_bind (fun _ _ => rfl) fun s => ?_
  split
  · exact deaf_pure _
  · split
    · exact deaf_pure _
    · split
      · exact deaf_retryBlock _
      · refine ((deaf_modifyStream id _).bind fun _ => deaf_ofExcept _).bind fun found => ?_
        cases found with
        | some frame => exact deaf_absorbFrame frame
        | none => exact deaf_pure _

theorem deaf_deliver : Deaf (deliver id) := by
  refine (deaf_stream id).bind fun state => ?_
  split
  · exact deaf_retire id
  · split
    · exact deaf_fail _
    · exact (deaf_modifyStream id _).bind fun _ => (deaf_modify fun _ _ => rfl).bind fun _ => deaf_retire id

theorem deaf_advanceLoop (fuel : ℕ) : Deaf (advanceLoop world id fuel) := by
  induction fuel with
  | zero => exact deaf_pure ()
  | succ fuel ih =>
    refine deaf_advanceOnce.bind fun progress => ?_
    cases progress with
    | again => exact ih
    | stop => exact deaf_pure ()
    | finish => exact deaf_deliver

theorem deaf_advance : Deaf (advance world id) := deaf_get_bind (fun _ _ => rfl) fun _ => deaf_advanceLoop _

theorem deaf_overbuffered : Deaf overbuffered := deaf_of fun c s => by
  by_cases h : s.bufferedBound ≤ s.limits.maxConnectionBufferSize
  · have hrun (s : H3Session) (h : s.bufferedBound ≤ s.limits.maxConnectionBufferSize) :
        overbuffered.run s = (.ok false, s) := if_pos h
    rw [hrun s h, hrun (s.retold c) h]
  · have hrun (s : H3Session) (h : ¬s.bufferedBound ≤ s.limits.maxConnectionBufferSize) : overbuffered.run s =
        (.ok (s.limits.maxConnectionBufferSize < s.buffered), { s with bufferedBound := s.buffered }) := if_neg h
    rw [hrun s h, hrun (s.retold c) h]
    rfl

theorem deaf_admitStream (id : ℕ) : Deaf (admitStream id) := by
  refine deaf_get_bind (fun _ _ => rfl) fun s => ?_
  split_ifs
  · exact deaf_pure ()
  · exact (deaf_demand _ _).bind fun _ => deaf_modify fun _ _ => rfl

theorem deaf_onStreamBytes (id : ℕ) (bytes : Octets) (fin : Bool) : Deaf (onStreamBytes world id bytes fin) :=
  (deaf_admitStream id).bind fun _ => (deaf_entry id).bind fun _ => (deaf_modifyStream id _).bind fun _ =>
    (deaf_stream id).bind fun _ => (deaf_modify fun _ _ => rfl).bind fun _ => deaf_get_bind (fun _ _ => rfl) fun _ =>
    (deaf_demand _ _).bind fun _ => deaf_overbuffered.bind fun _ => (deaf_demand _ _).bind fun _ => deaf_advance

theorem deaf_advanceAll (ids : List ℕ) : Deaf (advanceAll world ids) := by
  induction ids with
  | nil => exact deaf_pure ()
  | cons id ids ih => exact deaf_advance.bind fun _ => ih

theorem deaf_onEncoderBytes (bytes : Octets) : Deaf (onEncoderBytes world bytes) := by
  refine deaf_get_bind (fun _ _ => rfl) fun s => (deaf_modify fun _ _ => rfl).bind fun _ => ?_
  split
  · exact deaf_fail _
  · split_ifs
    · exact deaf_pure ()
    · exact deaf_advanceAll _

theorem deaf_onDecoderBytes (bytes : Octets) : Deaf (onDecoderBytes bytes) := by
  refine deaf_get_bind (fun _ _ => rfl) fun s => (deaf_modify fun _ _ => rfl).bind fun _ => ?_
  split
  · exact deaf_fail _
  · exact deaf_pure ()

theorem deaf_takeReady : Deaf takeReady := deaf_of fun c s => by
  rcases h : s.ready with _ | ⟨m, ready⟩ <;> simp only [Act.run, takeReady, retold, h]

end H3Session

namespace H3Worker

variable {w : H3Worker} {id : ℕ} {α β : Type} {world : World}

/-! ## Workers -/

/-- What a peer has said on its control stream and on its other streams of one direction, and whether
    the connection was wound down for it. -/
structure Told where
  session : H3Session.Told
  peers : StreamMap PeerUni
  drained : Bool

/-- What the worker has of it. -/
def told (w : H3Worker) : Told := ⟨w.session.told, w.peerUni, w.drained⟩

/-- The worker, had something else been said. -/
def retold (w : H3Worker) (c : Told) : H3Worker := { w with
  session := w.session.retold c.session, peerUni := c.peers, drained := c.drained }

@[simp] theorem told_retold (w : H3Worker) (c : Told) : (w.retold c).told = c := rfl

@[simp] theorem retold_told (w : H3Worker) : w.retold w.told = w := rfl

/-- A step that does the same whatever was said. -/
def Deaf (m : Step α) : Prop := ∀ c, Act.Respects (fun w w' => w' = w.retold c) m

theorem deaf_of {m : Step α} (h : ∀ c w, m.run (w.retold c) = ((m.run w).1, (m.run w).2.retold c)) : Deaf m := by
  rintro c w w' rfl
  rw [h]
  exact ⟨rfl, rfl⟩

theorem Deaf.run {m : Step α} (h : Deaf m) (c : Told) (w : H3Worker) :
    m.run (w.retold c) = ((m.run w).1, (m.run w).2.retold c) :=
  Prod.ext (h c w _ rfl).1 (h c w _ rfl).2

theorem Deaf.told {m : Step α} (h : Deaf m) (w : H3Worker) : (m.run w).2.told = w.told := by
  have hrun := h.run w.told w
  rw [retold_told] at hrun
  rw [hrun, told_retold]

theorem Deaf.bind {m : Step α} {f : α → Step β} (hm : Deaf m) (hf : ∀ a, Deaf (f a)) : Deaf (m >>= f) :=
  fun c => (hm c).bind fun a => hf a c

theorem deaf_pure (a : α) : Deaf (pure a : Step α) := fun _ => Act.respects_pure a

theorem deaf_fail (error : Error) : Deaf (Act.fail error : Step α) := fun _ => Act.respects_fail error

theorem deaf_demand (condition : Bool) (error : Error) : Deaf (Act.demand condition error : Step Unit) :=
  fun _ => Act.respects_demand condition error

theorem Deaf.map {m : Step α} (h : Deaf m) (f : α → β) : Deaf (f <$> m) := fun c => (h c).map f

theorem deaf_modify {f : H3Worker → H3Worker} (h : ∀ c w, f (w.retold c) = (f w).retold c) :
    Deaf (Act.modify f : Step Unit) := deaf_of fun c w => by rw [Act.run_modify, Act.run_modify, h]

theorem deaf_get_bind {f : H3Worker → Step β} (hsame : ∀ c w, f (w.retold c) = f w) (hf : ∀ w, Deaf (f w)) :
    Deaf (Act.get >>= f) :=
  fun c => Act.respects_get_bind (fun w _ heq => heq ▸ hsame c w) fun w => hf w c

theorem deaf_onSession {m : H3Session.Step α} (h : H3Session.Deaf m) : Deaf (onSession m) := deaf_of fun c w => by
  have hrun : m.run (w.retold c).session = _ := h.run c.session w.session
  simp only [Act.run, onSession] at hrun ⊢
  rw [hrun]
  rfl

theorem deaf_attempt {m : Step α} (h : Deaf m) : Deaf (attempt m) := deaf_of fun c w => by
  have hrun := h.run c w
  simp only [Act.run, attempt] at hrun ⊢
  rw [hrun]

theorem deaf_note (entry : Passage) : Deaf (note entry) := deaf_modify fun _ _ => rfl

theorem deaf_tell (event : H3Event) : Deaf (tell event) := deaf_of fun c w => by
  rcases h : w.events.trySend with ⟨_ | _ | _, events⟩ <;> simp only [Act.run, tell, retold, h]

theorem deaf_reporting {m : Step α} (h : Deaf m) : Deaf (reporting m) := by
  refine (deaf_attempt h).bind fun outcome => ?_
  cases outcome with
  | ok a => exact deaf_pure a
  | error error => exact (deaf_tell _).bind fun _ => deaf_fail error

theorem deaf_dropOutbound (id : ℕ) : Deaf (dropOutbound id) := deaf_modify fun c w => by
  simp only [retold]
  split <;> rfl

theorem deaf_flushStream (id : ℕ) : Deaf (flushStream id) := by
  refine deaf_get_bind (fun _ _ => rfl) fun w => ?_
  split
  · exact deaf_pure ()
  · split_ifs
    · exact deaf_pure ()
    · refine Deaf.bind (deaf_of fun _ _ => rfl) fun outcome => ?_
      cases outcome with
      | sent count => exact deaf_modify fun _ _ => rfl
      | blocked => exact deaf_pure ()
      | stopped code => exact (deaf_dropOutbound id).bind fun _ => (deaf_tell _).bind fun _ => deaf_pure ()

theorem deaf_enqueue (id : ℕ) (octets : Octets) (fin : Bool) : Deaf (enqueue id octets fin) := deaf_modify fun _ _ => rfl

theorem deaf_write (id : ℕ) (octets : Octets) (fin : Bool) : Deaf (write id octets fin) :=
  (deaf_enqueue id octets fin).bind fun _ => deaf_flushStream id

theorem deaf_allocUni : Deaf allocUni := deaf_of fun _ _ => rfl

theorem deaf_openUni (id : ℕ) (kind : StreamKind) : Deaf (openUni id kind) := by
  rw [openUni]
  split
  · exact deaf_fail _
  · exact deaf_write _ _ _

theorem deaf_takeQueued (side : Side) : Deaf (takeQueued side) := by
  cases side <;> exact deaf_of fun _ _ => rfl

theorem deaf_drainSideChannel (side : Side) : Deaf (drainSideChannel side) := by
  refine (deaf_takeQueued side).bind fun queued => deaf_get_bind (fun _ _ => rfl) fun w => ?_
  split_ifs
  · exact deaf_pure ()
  · exact deaf_write _ _ _

theorem deaf_claimOutbound (id : ℕ) : Deaf (claimOutbound id) := deaf_modify fun c w => by
  rw [apply_ite (retold · c)]
  rfl

theorem deaf_frameInto (m : Message) : Deaf (frameInto world id m) := by
  refine deaf_get_bind (fun _ _ => rfl) fun w => (deaf_claimOutbound id).bind fun _ =>
    (deaf_attempt (deaf_onSession (H3Session.deaf_frameMessage m))).bind fun outcome => ?_
  cases outcome with
  | ok framed => exact deaf_enqueue _ _ _
  | error error => exact (deaf_note _).bind fun _ => deaf_fail error

theorem deaf_streamOf (m : Message) : Deaf (streamOf m) := by
  rw [streamOf]
  split
  · exact deaf_pure _
  · exact deaf_onSession H3Session.deaf_openBidi

theorem deaf_sendMessage (m : Message) : Deaf (sendMessage world m) :=
  (deaf_streamOf m).bind fun id => (deaf_onSession (H3Session.deaf_entry id)).bind fun _ =>
    (deaf_onSession (H3Session.deaf_modifyStream id _)).bind fun _ => (deaf_frameInto m).bind fun _ =>
    (deaf_flushStream id).bind fun _ => deaf_onSession (H3Session.deaf_retire id)

theorem deaf_relay (id : ℕ) (sink : Mailbox) (octets : Octets) (fin : Bool) : Deaf (relay id sink octets fin) :=
  deaf_of fun c w => by
    simp only [Act.run, relay, apply_ite (retold · c)]
    rfl

theorem deaf_joinTunnel (sink : Mailbox) : Deaf (joinTunnel id sink) := by
  have hjoin (sink : Mailbox) : Deaf (Act.modify fun w => { w with tunnels := w.tunnels.insert id sink } : Step Unit) :=
    deaf_modify fun _ _ => rfl
  refine Deaf.bind (deaf_of fun _ _ => rfl) fun unparsed => ?_
  rcases unparsed with _ | ⟨buffered, eof⟩
  · exact (deaf_pure _).bind fun _ => hjoin _
  · dsimp only
    split_ifs
    · exact ((deaf_relay _ _ _ _).map _).bind fun _ => hjoin _
    · exact (deaf_pure _).bind fun _ => hjoin _

theorem deaf_abandon (code : ℕ) : Deaf (abandon id code) :=
  Deaf.bind (deaf_modify fun _ _ => rfl) fun _ => (deaf_onSession (H3Session.deaf_retire id)).bind fun _ =>
    (deaf_note _).bind fun _ => deaf_note _

/-- A command is carried out whatever was said. -/
theorem deaf_execute (command : H3Command) : Deaf (execute world command) := by
  cases command with
  | send m => exact deaf_sendMessage m
  | openBidi => exact (deaf_onSession H3Session.deaf_openBidi).bind fun _ => deaf_note _
  | openUni kind => exact deaf_allocUni.bind fun _ => (deaf_openUni _ kind).bind fun _ => deaf_note _
  | tunnel id sink => exact deaf_joinTunnel sink
  | writeEncoder octets => exact deaf_get_bind (fun _ _ => rfl) fun _ => deaf_write _ _ _
  | reset id code => exact deaf_abandon code
  | close => exact deaf_note _

theorem deaf_overloaded (reason : String) (quoted : List Quoted) : Deaf (overloaded reason quoted : Step Unit) :=
  (deaf_note _).bind fun _ => deaf_fail _

theorem deaf_goaway : Deaf goaway := by
  refine deaf_get_bind (fun _ _ => rfl) fun w => ?_
  dsimp only
  split_ifs
  · exact deaf_pure ()
  · exact (deaf_write _ _ _).bind fun _ => deaf_modify fun _ _ => rfl

theorem deaf_reject (id : ℕ) : Deaf (reject id) := by
  refine Deaf.bind (deaf_modify fun c w => ?_) fun _ => deaf_get_bind (fun _ _ => rfl) fun w => ?_
  · rw [apply_ite (retold · c)]
    rfl
  · split_ifs
    · exact deaf_overloaded _ _
    · exact (deaf_note _).bind fun _ => deaf_note _

theorem deaf_feedTunnel (sink : Mailbox) (octets : Octets) (fin : Bool) : Deaf (feedTunnel id sink octets fin) := by
  refine (deaf_relay _ _ _ _).bind fun answer => (deaf_demand _ _).bind fun _ => ?_
  split_ifs
  · exact Deaf.bind (deaf_modify fun _ _ => rfl) fun _ => deaf_onSession (H3Session.deaf_forget id)
  · exact deaf_modify fun _ _ => rfl

theorem deaf_onStreamBytes (id : ℕ) (octets : Octets) (fin : Bool) :
    Deaf (onSession (H3Session.onStreamBytes world id octets fin) >>= fun _ => goaway) :=
  (deaf_onSession (H3Session.deaf_onStreamBytes id octets fin)).bind fun _ => deaf_goaway

end H3Worker

end Soyokaze

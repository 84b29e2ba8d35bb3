import Soyokaze.Protocol.H3.Revival

/-!
# Which stream an error is of

What a request stream is refused for is an error of that stream, and the worker resets the
stream an error came up on. The two are the same where the octets that gave rise to it
arrived on the request stream itself. Octets of the encoder stream have other streams go on,
and an error of one of these has the encoder stream reset in its place.

* `H3Session.onStreamBytes_blames`: what octets of a request stream give rise to is of that
  stream, or of the connection;
* `H3Worker.contained_iff`: an error of a request stream leaves the rest of the connection
  alone exactly if it came up on a request stream.
-/

namespace Soyokaze

/-! ## Errors of no stream -/

namespace Error

/-- The stream an error is of, if it is of one. -/
def blamed : Error → Option ℕ
  | stream id _ _ _ => some id
  | _ => none

/-- An error of this stream, or of none. -/
def OfStream (id : ℕ) (error : Error) : Prop := ∀ other, error.blamed = some other → other = id

/-- An error of no stream. -/
def OfConnection (error : Error) : Prop := error.blamed = none

theorem OfConnection.ofStream {error : Error} (h : error.OfConnection) (id : ℕ) : error.OfStream id := by
  intro other hother
  rw [OfConnection] at h
  rw [h] at hother
  cases hother

theorem ofStream_stream (id code : ℕ) (reason : String) (quoted : List Quoted) :
    OfStream id (.stream id code reason quoted) := by
  intro other hother
  cases hother
  rfl

/-- Narrowing an error of the connection to a stream makes it one of that stream. -/
theorem ofStream_onStream {error : Error} (h : error.OfConnection) (id code : ℕ) : OfStream id (error.onStream id code) := by
  cases error with
  | protocol reason quoted | limit reason quoted => exact ofStream_stream _ _ _ _
  | stream => cases h
  | closed | timeout | version | io => exact fun _ h => nomatch h

theorem ofConnection_ofHuffman (codec : String) (error : Huffman.DecodeError) : OfConnection (ofHuffman codec error) := by
  cases error <;> rfl

theorem ofConnection_ofQpack (error : Qpack.Error) : OfConnection (ofQpack error) := by
  cases error with
  | huffman error => exact ofConnection_ofHuffman _ _
  | _ => rfl

end Error

open Error

/-- Whatever a computation fails with is an error of no stream. -/
def Unblamed {α : Type} (x : Except Error α) : Prop := ∀ error, x = .error error → error.OfConnection

theorem unblamed_ok {α : Type} (a : α) : Unblamed (.ok a : Except Error α) := fun _ h => nomatch h

theorem unblamed_error {α : Type} {error : Error} (h : error.OfConnection) : Unblamed (.error error : Except Error α) := by
  rintro _ ⟨⟩
  exact h

/-- Whatever a computation fails with, the peer has written something wrong. -/
def Misspelt {α : Type} (x : Except Error α) : Prop :=
  ∀ error, x = .error error → ∃ reason quoted, error = .protocol reason quoted

theorem misspelt_ok {α : Type} (a : α) : Misspelt (.ok a : Except Error α) := fun _ h => nomatch h

theorem misspelt_error {α : Type} (reason : String) (quoted : List Quoted) :
    Misspelt (.error (.protocol reason quoted) : Except Error α) := by
  rintro _ ⟨⟩
  exact ⟨reason, quoted, rfl⟩

theorem Misspelt.map {α β : Type} {x : Except Error α} (h : Misspelt x) (f : α → β) : Misspelt (x.map f) := by
  rcases x with e | a
  · obtain ⟨reason, quoted, rfl⟩ := h e rfl
    exact misspelt_error reason quoted
  · exact misspelt_ok _

theorem Misspelt.unblamed {α : Type} {x : Except Error α} (h : Misspelt x) : Unblamed x := by
  intro error herror
  obtain ⟨_, _, rfl⟩ := h error herror
  rfl

theorem Unblamed.map {α β : Type} {x : Except Error α} (h : Unblamed x) (f : α → β) : Unblamed (x.map f) := by
  rcases x with e | a
  · exact unblamed_error (h e rfl)
  · exact unblamed_ok _

namespace Fields

theorem unblamed_check (field : HeaderField) : Unblamed (check field) := by
  rw [check]
  split_ifs
  · exact unblamed_error rfl
  · exact unblamed_error rfl
  · exact unblamed_ok _

theorem unblamed_checkTrailer (field : HeaderField) : Unblamed (checkTrailer field) := by
  rw [checkTrailer]
  split
  · exact unblamed_error rfl
  · split
    · next error h => exact unblamed_error (unblamed_check field error h)
    · split
      · exact unblamed_error rfl
      · exact unblamed_ok _

theorem unblamed_checkTrailers (fields : List HeaderField) : Unblamed (checkTrailers fields) := by
  induction fields with
  | nil => exact unblamed_ok _
  | cons field fields ih =>
    rw [checkTrailers]
    split
    · next error h => exact unblamed_error (unblamed_checkTrailer field error h)
    · exact ih

theorem unblamed_intoTrailers (fields : List HeaderField) : Unblamed (intoTrailers fields) := by
  rw [intoTrailers]
  split
  · next error h => exact unblamed_error (unblamed_checkTrailers fields error h)
  · exact unblamed_ok _

theorem unblamed_gatherPseudo (g : Gathered) (pseudo : Pseudo) (value : Text) : Unblamed (gatherPseudo g pseudo value) := by
  cases pseudo with
  | method =>
    simp only [gatherPseudo]
    split
    · exact unblamed_ok _
    · exact unblamed_error rfl
  | scheme | protocol => exact unblamed_ok _
  | status | path | authority =>
    simp only [gatherPseudo]
    split
    · exact unblamed_error rfl
    · exact unblamed_ok _

theorem unblamed_gatherRegular (g : Gathered) (field : HeaderField) : Unblamed (gatherRegular g field) := by
  rw [gatherRegular]
  split
  · next error h => exact unblamed_error (unblamed_check field error h)
  · split
    · exact unblamed_error rfl
    · split
      · exact unblamed_error rfl
      · exact unblamed_ok _

theorem unblamed_gather (g : Gathered) (field : HeaderField) : Unblamed (gather g field) := by
  rw [gather]
  split
  · exact unblamed_gatherRegular _ _
  · split
    · exact unblamed_error rfl
    · split
      · exact unblamed_error rfl
      · split
        · exact unblamed_error rfl
        · split
          · exact unblamed_error rfl
          · exact unblamed_gatherPseudo _ _ _

theorem unblamed_gatherAll (g : Gathered) (fields : List HeaderField) : Unblamed (gatherAll g fields) := by
  induction fields generalizing g with
  | nil => exact unblamed_ok _
  | cons field fields ih =>
    rw [gatherAll]
    split
    · next error h => exact unblamed_error (unblamed_gather g field error h)
    · exact ih _

theorem unblamed_targetOf (g : Gathered) (method : Method) : Unblamed (targetOf g method) := by
  rw [targetOf]
  split_ifs
  · exact unblamed_error rfl
  · exact unblamed_ok _
  · dsimp only
    split_ifs
    · exact unblamed_error rfl
    · exact unblamed_ok _

theorem unblamed_intoMessage (fields : List HeaderField) (version : Version) : Unblamed (intoMessage fields version) := by
  rw [intoMessage]
  split
  · next error h => exact unblamed_error (unblamed_gatherAll _ fields error h)
  · rw [messageOf]
    split
    · exact unblamed_error rfl
    · split
      · exact unblamed_error rfl
      · exact unblamed_ok _
      · exact (unblamed_targetOf _ _).map _

end Fields

namespace H3

theorem Varint.misspelt_only (payload : Octets) (name : String) : Misspelt (Varint.only payload name) := by
  rw [Varint.only]
  dsimp only
  split_ifs
  · exact misspelt_error _ _
  · exact misspelt_ok _

namespace Frame

theorem misspelt_params (fuel : ℕ) (read : List (ℕ × ℕ)) (rest : Octets) : Misspelt (params fuel read rest) := by
  induction fuel generalizing read rest with
  | zero => exact misspelt_error _ _
  | succ fuel ih =>
    rw [params]
    dsimp only
    split_ifs
    · exact misspelt_ok _
    · exact misspelt_error _ _
    · exact misspelt_error _ _
    · exact ih _ _

theorem misspelt_assemble (kind : FrameType) (payload : Octets) : Misspelt (assemble kind payload) := by
  cases kind with
  | data | headers => exact misspelt_ok _
  | cancelPush | maxPushId | goAway => exact (Varint.misspelt_only _ _).map _
  | settings => exact (misspelt_params _ _ _).map _
  | pushPromise =>
    rw [assemble]
    dsimp only
    split_ifs
    · exact misspelt_error _ _
    · exact misspelt_ok _

theorem misspelt_parseLoop (fuel : ℕ) (buffer : Octets) : Misspelt (parseLoop fuel buffer).1 := by
  induction fuel generalizing buffer with
  | zero => exact misspelt_ok _
  | succ fuel ih =>
    rw [parseLoop]
    split
    · exact misspelt_ok _
    · split_ifs
      · exact misspelt_error _ _
      · split
        · exact (misspelt_assemble _ _).map _
        · exact ih _

end Frame

end H3

open H3

namespace H3Session

variable {id : ℕ} {α β : Type}

/-! ## Errors of a request stream -/

/-- A step that fails with errors of this stream, or of none. -/
abbrev Blames (id : ℕ) (m : Step α) : Prop := Act.Fails (OfStream id) m

theorem blames_of_ok {m : Step α} (h : ∀ s, ∃ a, (m.run s).1 = .ok a) : Blames id m := Act.fails_of_ok h

theorem blames_pure (a : α) : Blames id (pure a : Step α) := blames_of_ok fun _ => ⟨a, rfl⟩

theorem blames_get : Blames id (Act.get : Step H3Session) := blames_of_ok fun s => ⟨s, rfl⟩

theorem blames_modify (f : H3Session → H3Session) : Blames id (Act.modify f : Step Unit) := blames_of_ok fun _ => ⟨(), rfl⟩

theorem blames_fail {error : Error} (h : error.OfConnection) : Blames id (Act.fail error : Step α) :=
  Act.fails_fail (h.ofStream id)

theorem blames_demand {error : Error} (h : error.OfConnection) (condition : Bool) :
    Blames id (Act.demand condition error : Step Unit) := Act.fails_demand (h.ofStream id) condition

theorem blames_ofExcept {x : Except Error α} (h : Unblamed x) : Blames id (Act.ofExcept x : Step α) :=
  Act.fails_ofExcept fun error herror => (h error herror).ofStream id

/-- What is narrowed to the stream is of the stream. -/
theorem blames_narrowed {x : Except Error α} (h : Unblamed x) (code : ℕ) :
    Blames id (Act.ofExcept (x.mapError (·.onStream id code)) : Step α) := by
  refine Act.fails_ofExcept fun error herror => ?_
  rcases hx : x with inner | a
  · rw [hx] at herror
    cases herror
    exact ofStream_onStream (h inner hx) id code
  · rw [hx] at herror
    cases herror

theorem blames_stream (other : ℕ) : Blames id (stream other) := by
  intro s error h
  simp only [Act.run, stream] at h
  split at h
  · cases h
  · cases h
    exact OfConnection.ofStream (show OfConnection .closed from rfl) id

theorem blames_modifyStream (other : ℕ) (f : StreamState → StreamState) : Blames id (modifyStream other f) :=
  blames_modify _

theorem blames_entry (other : ℕ) : Blames id (entry other) := blames_modify _

theorem blames_decodeBlock (other : ℕ) (block : Octets) : Blames id (decodeBlock other block) := by
  refine blames_of_ok fun s => ?_
  simp only [Act.run, decodeBlock]
  split
  · exact ⟨_, rfl⟩
  · exact ⟨_, rfl⟩

theorem blames_absorbHeaders (world : World) (fields : List HeaderField) : Blames id (absorbHeaders world id fields) := by
  refine blames_get.bind fun s => (Act.fails_demand (ofStream_stream _ _ _ _) _).bind fun _ =>
    (blames_stream id).bind fun state => ?_
  split_ifs
  · exact (blames_narrowed (Fields.unblamed_intoTrailers fields) _).bind fun _ => blames_modifyStream _ _
  · refine (blames_narrowed (Fields.unblamed_intoMessage fields _) _).bind fun m => ?_
    refine Act.Fails.bind (blames_modifyStream _ _) fun _ => (blames_stream id).bind fun state => ?_
    split_ifs
    · exact Act.Fails.bind (blames_modifyStream _ _) fun _ => blames_modify _
    · exact blames_modifyStream _ _

theorem blames_absorbBlock (world : World) (block : Octets) : Blames id (absorbBlock world id block) := by
  refine (blames_decodeBlock id block).bind fun decoded => ?_
  split
  · exact (blames_absorbHeaders world _).bind fun _ => blames_pure _
  · exact (blames_stream id).bind fun _ => Act.Fails.bind (blames_modifyStream _ _) fun _ => Act.Fails.bind (blames_modify _) fun _ =>
      blames_pure _
  · exact blames_fail (ofConnection_ofQpack _)

theorem blames_retryBlock (world : World) (block : Octets) : Blames id (retryBlock world id block) := by
  refine (blames_decodeBlock id block).bind fun decoded => ?_
  split
  · exact (blames_stream id).bind fun _ => Act.Fails.bind (blames_modifyStream _ _) fun _ => Act.Fails.bind (blames_modify _) fun _ =>
      (blames_absorbHeaders world _).bind fun _ => blames_pure _
  · exact blames_pure _
  · exact blames_fail (ofConnection_ofQpack _)

theorem blames_absorbData (octets : Octets) : Blames id (absorbData id octets) := by
  refine blames_get.bind fun s => (blames_stream id).bind fun state => ?_
  refine (blames_demand (by rfl) _).bind fun _ => ?_
  exact Act.Fails.bind (blames_modifyStream _ _) fun _ => (Act.fails_demand (ofStream_stream _ _ _ _) _).bind fun _ => blames_pure _

theorem blames_absorbFrame (world : World) (frame : Frame) : Blames id (absorbFrame world id frame) := by
  cases frame with
  | headers block =>
    exact blames_get.bind fun s => (Act.fails_demand (ofStream_stream _ _ _ _) _).bind fun _ => blames_absorbBlock world block
  | data octets => exact blames_absorbData octets
  | settings | goAway | maxPushId | cancelPush | pushPromise => exact blames_fail rfl

theorem blames_advanceOnce (world : World) : Blames id (advanceOnce world id) := by
  refine blames_get.bind fun s => ?_
  split
  · exact blames_pure _
  · split
    · exact blames_pure _
    · split
      · exact blames_retryBlock world _
      · refine Act.Fails.bind (f := fun found => _) ?_ fun found => ?_
        · exact Act.Fails.bind (blames_modifyStream _ _) fun _ => blames_ofExcept (Frame.misspelt_parseLoop _ _).unblamed
        · split
          · exact blames_absorbFrame world _
          · exact blames_pure _

theorem blames_retire : Blames id (retire id) := by
  refine blames_get.bind fun s => ?_
  split_ifs
  · exact blames_modify _
  · exact blames_pure _

theorem blames_deliver : Blames id (deliver id) := by
  refine (blames_stream id).bind fun state => ?_
  split
  · exact blames_retire
  · split
    · exact Act.fails_fail (ofStream_stream _ _ _ _)
    · exact Act.Fails.bind (blames_modifyStream _ _) fun _ => Act.Fails.bind (blames_modify _) fun _ => blames_retire

theorem blames_advanceLoop (world : World) (fuel : ℕ) : Blames id (advanceLoop world id fuel) := by
  induction fuel with
  | zero => exact blames_pure _
  | succ fuel ih =>
    refine (blames_advanceOnce world).bind fun progress => ?_
    cases progress with
    | again => exact ih
    | stop => exact blames_pure _
    | finish => exact blames_deliver

theorem blames_advance (world : World) : Blames id (advance world id) :=
  blames_get.bind fun _ => blames_advanceLoop world _

/-- What octets of a request stream give rise to is an error of that stream, or of none. -/
theorem onStreamBytes_blames (world : World) (bytes : Octets) (fin : Bool) : Blames id (onStreamBytes world id bytes fin) := by
  have hadmit : Blames id (admitStream id) := by
    refine blames_get.bind fun s => ?_
    split_ifs
    · exact blames_pure _
    · exact (Act.fails_demand (ofStream_stream _ _ _ _) _).bind fun _ => blames_modify _
  have hover : Blames id overbuffered := blames_of_ok fun s => by
    simp only [Act.run, overbuffered]
    split_ifs <;> exact ⟨_, rfl⟩
  refine hadmit.bind fun _ => (blames_entry id).bind fun _ => Act.Fails.bind (blames_modifyStream _ _) fun _ =>
    (blames_stream id).bind fun state => Act.Fails.bind (blames_modify _) fun _ => blames_get.bind fun s => ?_
  refine (Act.fails_demand (ofStream_stream _ _ _ _) _).bind fun _ => hover.bind fun exceeding => ?_
  exact (blames_demand (by rfl) _).bind fun _ => blames_advance world

end H3Session

namespace H3Worker

variable {world : World} {w w' : H3Worker} {id : ℕ} {octets : Octets} {fin : Bool} {α β : Type}

/-! ## Errors a worker meets -/

/-- A step that fails with errors of this stream, or of none. -/
abbrev Blames (id : ℕ) (m : Step α) : Prop := Act.Fails (OfStream id) m

theorem blames_of_ok {m : Step α} (h : ∀ w, ∃ a, (m.run w).1 = .ok a) : Blames id m := Act.fails_of_ok h

theorem blames_get : Blames id (Act.get : Step H3Worker) := blames_of_ok fun w => ⟨w, rfl⟩

theorem blames_pure (a : α) : Blames id (pure a : Step α) := blames_of_ok fun _ => ⟨a, rfl⟩

theorem blames_modify (f : H3Worker → H3Worker) : Blames id (Act.modify f : Step Unit) := blames_of_ok fun _ => ⟨(), rfl⟩

theorem blames_onSession {m : H3Session.Step α} (h : H3Session.Blames id m) : Blames id (onSession m) :=
  fun w error herror => h w.session error herror

theorem blames_tell (event : H3Event) : Blames id (tell event) := blames_of_ok fun w => by
  rcases h : w.events.trySend with ⟨_ | _ | _, events⟩ <;> exact ⟨_, by simp only [Act.run, tell, h]; rfl⟩

theorem blames_offer (buffer : Octets) : Blames id (offer buffer) := by
  intro w error h
  have hio : error = .io := by
    simp only [Act.run, offer, QUICTransport.send] at h
    split at h
    · cases h
    · cases h
      rfl
    · cases h
    · cases h
  rw [hio]
  intro _ h
  cases h

theorem blames_flushStream (other : ℕ) : Blames id (flushStream other) := by
  refine blames_get.bind fun w => ?_
  split
  · exact blames_pure _
  · split
    · exact blames_pure _
    · refine (blames_offer _).bind fun outcome => ?_
      split
      · exact blames_modify _
      · exact blames_pure _
      · exact Act.Fails.bind (blames_modify _) fun _ => (blames_tell _).bind fun _ => blames_pure _

theorem blames_goaway : Blames id goaway := by
  refine blames_get.bind fun w => ?_
  dsimp only
  split
  · exact blames_pure _
  · exact Act.Fails.bind (Act.Fails.bind (blames_modify _) fun _ => blames_flushStream _) fun _ => blames_modify _

/-- Refusing a stream gives rise to no error of a stream. -/
theorem reject_connection (other : ℕ) : Act.Fails OfConnection (reject other) := by
  refine Act.Fails.bind (Act.fails_of_ok fun _ => ⟨(), rfl⟩) fun _ => ?_
  refine Act.Fails.bind (Act.fails_of_ok fun w => ⟨w, rfl⟩) fun w => ?_
  split
  · exact Act.Fails.bind (Act.fails_of_ok fun _ => ⟨(), rfl⟩) fun _ => Act.fails_fail (by rfl)
  · exact Act.fails_of_ok fun _ => ⟨(), rfl⟩

theorem blames_feedTunnel (sink : Mailbox) (octets : Octets) (fin : Bool) : Blames id (feedTunnel id sink octets fin) := by
  have hrelay : Blames id (relay id sink octets fin) := blames_of_ok fun _ => ⟨_, rfl⟩
  refine hrelay.bind fun answer => (Act.fails_demand (ofStream_stream _ _ _ _) _).bind fun _ => ?_
  split
  · exact Act.Fails.bind (blames_modify _) fun _ => blames_onSession (Act.fails_of_ok fun _ => ⟨(), rfl⟩)
  · exact blames_modify _

/-- What octets of a request stream give rise to is an error of that stream, or of none. -/
theorem dispatch_blames (hbidi : QUICStreamID.isBidi id = true) : Blames id (dispatch world id octets fin) := by
  refine blames_get.bind fun w => ?_
  split
  · exact blames_feedTunnel _ _ _
  · rw [if_pos hbidi]
    split
    · exact (reject_connection id).mono fun _ h => h.ofStream id
    · exact (blames_onSession (H3Session.onStreamBytes_blames world _ _)).bind fun _ => blames_goaway

/-! ## What dispatching leaves alone -/

/-- The streams that were reset, the latest first. -/
def resetsIn (passed : List Passage) : List ℕ := passed.filterMap fun
  | .shutWrite id _ => some id
  | _ => none

/-- Between two states no stream was reset. -/
def NoReset (w w' : H3Worker) : Prop := resetsIn w'.passed = resetsIn w.passed

/-- Nor was a stream of the peer's forgotten. -/
def Calm (w w' : H3Worker) : Prop := NoReset w w' ∧ w'.peerUni = w.peerUni

theorem NoReset.trans {a b c : H3Worker} (h : NoReset a b) (h' : NoReset b c) : NoReset a c := Eq.trans h' h

theorem Calm.refl (w : H3Worker) : Calm w w := ⟨rfl, rfl⟩

theorem Calm.trans {a b c : H3Worker} (h : Calm a b) (h' : Calm b c) : Calm a c :=
  ⟨h.1.trans h'.1, h'.2.trans h.2⟩

abbrev Resetless (m : Step α) : Prop := Act.Keeps NoReset m

abbrev Calmly (m : Step α) : Prop := Act.Keeps Calm m

theorem Resetless.bind {m : Step α} {f : α → Step β} (hm : Resetless m) (hf : ∀ a, Resetless (f a)) :
    Resetless (m >>= f) :=
  @Act.Keeps.bind _ _ _ _ NoReset NoReset.trans m f hm hf

theorem Calmly.bind {m : Step α} {f : α → Step β} (hm : Calmly m) (hf : ∀ a, Calmly (f a)) : Calmly (m >>= f) :=
  @Act.Keeps.bind _ _ _ _ Calm Calm.trans m f hm hf

theorem calmly_of_eq {m : Step α} (h : ∀ w, (m.run w).2.passed = w.passed ∧ (m.run w).2.peerUni = w.peerUni) : Calmly m :=
  fun w => ⟨congrArg resetsIn (h w).1, (h w).2⟩

theorem calmly_pure (a : α) : Calmly (pure a : Step α) := calmly_of_eq fun _ => ⟨rfl, rfl⟩

theorem calmly_get : Calmly (Act.get : Step H3Worker) := calmly_of_eq fun _ => ⟨rfl, rfl⟩

theorem calmly_onSession (m : H3Session.Step α) : Calmly (onSession m) := calmly_of_eq fun _ => ⟨rfl, rfl⟩

theorem calmly_tell (event : H3Event) : Calmly (tell event) := by
  intro w
  rcases h : w.events.trySend with ⟨_ | _ | _, events⟩ <;> simp only [Act.run, tell, h] <;> exact ⟨rfl, rfl⟩

theorem calmly_dropOutbound (other : ℕ) : Calmly (dropOutbound other) := by
  intro w
  simp only [Act.run, dropOutbound, Act.modify]
  split <;> exact ⟨rfl, rfl⟩

theorem calmly_flushStream (other : ℕ) : Calmly (flushStream other) := by
  refine calmly_get.bind fun w => ?_
  split
  · exact calmly_pure _
  · split
    · exact calmly_pure _
    · refine Calmly.bind (calmly_of_eq fun _ => ⟨rfl, rfl⟩) fun outcome => ?_
      split
      · exact fun _ => ⟨rfl, rfl⟩
      · exact calmly_pure _
      · exact (calmly_dropOutbound _).bind fun _ => (calmly_tell _).bind fun _ => calmly_pure _

theorem calmly_goaway : Calmly goaway := by
  refine calmly_get.bind fun w => ?_
  dsimp only
  split
  · exact calmly_pure _
  · exact Calmly.bind (Calmly.bind (fun _ => ⟨rfl, rfl⟩) fun _ => calmly_flushStream _) fun _ _ => ⟨rfl, rfl⟩

theorem calmly_feedTunnel (sink : Mailbox) (octets : Octets) (fin : Bool) : Calmly (feedTunnel id sink octets fin) := by
  have hrelay : Calmly (relay id sink octets fin) := fun w => by
    simp only [Act.run, relay]
    split <;> exact ⟨rfl, rfl⟩
  refine hrelay.bind fun answer => Calmly.bind (calmly_of_eq fun _ => ⟨rfl, rfl⟩) fun _ => ?_
  split
  · exact Calmly.bind (fun _ => ⟨rfl, rfl⟩) fun _ => calmly_onSession _
  · exact fun _ => ⟨rfl, rfl⟩

theorem Calmly.resetless {m : Step α} (h : Calmly m) : Resetless m := fun w => (h w).1

theorem resetless_feedUniKind (octets : Octets) (kind : StreamKind) : Resetless (feedUniKind world octets kind) := by
  cases kind with
  | control | qpackEncoder | qpackDecoder => exact (calmly_onSession _).resetless
  | push | request => exact (calmly_pure _).resetless

theorem resetless_feedPrefix (other : ℕ) (read : Octets) : Resetless (feedPrefix world other read) := by
  rw [feedPrefix]
  split
  split
  · exact fun _ => rfl
  · split
    · exact fun _ => rfl
    · exact Resetless.bind (fun _ => rfl) fun _ => resetless_feedUniKind _ _

theorem resetless_feedUni (world : World) (other : ℕ) (octets : Octets) (fin : Bool) : Resetless (feedUni world other octets fin) := by
  have hbytes : Resetless (feedUniBytes world other octets) := by
    refine Resetless.bind (fun _ => rfl) fun w => ?_
    dsimp only
    split
    · exact fun _ => rfl
    · split
      · exact resetless_feedUniKind _ _
      · exact Resetless.bind (fun _ => rfl) fun _ => Resetless.bind (fun _ => rfl) fun _ => resetless_feedPrefix _ _
  have hattempt : Resetless (attempt (feedUniBytes world other octets)) := hbytes
  refine hattempt.bind fun outcome => Resetless.bind (fun w => ?_) fun _ _ => rfl
  simp only [Act.run, Act.modify]
  split <;> rfl

/-- No stream is reset where dispatching fails with an error of a stream, and none of the
    peer's is forgotten where the octets were a request stream's. -/
theorem dispatch_calm {failed code : ℕ} {reason : String} {quoted : List Quoted}
    (h : (dispatch world id octets fin).run w = (.error (.stream failed code reason quoted), w')) :
    NoReset w w' ∧ (QUICStreamID.isBidi id = true → w'.peerUni = w.peerUni) := by
  rw [dispatch, Act.run_bind_ok (Act.run_get w)] at h
  have hcalm {m : Step Unit} (hm : Calmly m) (hrun : m.run w = (.error (.stream failed code reason quoted), w')) :
      NoReset w w' ∧ (QUICStreamID.isBidi id = true → w'.peerUni = w.peerUni) := by
    have := hm w
    rw [hrun] at this
    exact ⟨this.1, fun _ => this.2⟩
  split at h
  · exact hcalm (calmly_feedTunnel _ _ _) h
  · split at h
    · split at h
      · exact absurd (reject_connection id w _ (congrArg Prod.fst h)) (Option.some_ne_none failed)
      · exact hcalm (Calmly.bind (calmly_onSession _) fun _ => calmly_goaway) h
    · next hbidi =>
      have hreset := resetless_feedUni world id octets fin w
      rw [h] at hreset
      exact ⟨hreset, fun h => absurd h hbidi⟩

/-! ## What an error leaves alone -/

/-- The QPACK instructions among octets of a stream of the peer's. -/
def instructions (w : H3Worker) (id : ℕ) (octets : Octets) : Octets :=
  let uni := (w.peerUni.lookup id).getD ⟨none, [], false⟩
  match uni.kind with
  | some .qpackEncoder => octets
  | some _ => []
  | none =>
    let read := uni.prefixOctets ++ octets
    if StreamKind.fromCode (Varint.decode read).2 = some .qpackEncoder then read.drop (Varint.decode read).1 else []

/-- The streams that may go on once octets of a stream have arrived. -/
def unblockedBy (w : H3Worker) (id : ℕ) (octets : Octets) : List ℕ :=
  if QUICStreamID.isBidi id then []
  else ((w.session.decoder.onEncoderStream (w.instructions id octets)).1).unblocked

/-- An error of a stream, which octets of a stream gave rise to, leaves the rest of the
    connection alone. -/
structure Contained (failed id : ℕ) (octets : Octets) (w w' : H3Worker) : Prop where
  /-- The stream the error is of is reset, and no other. -/
  reset : resetsIn w'.passed = failed :: resetsIn w.passed
  /-- Nothing of it is left. -/
  forgotten : w'.session.streams.lookup failed = none ∧ w'.tunnels.lookup failed = none ∧
    w'.outbound.lookup failed = none
  /-- The peer's own streams are read as before. -/
  peers : ∀ uni, QUICStreamID.isBidi uni = false → w'.peerUni.lookup uni = w.peerUni.lookup uni
  /-- The streams that may go on have done so. -/
  others : ∀ other ∈ w.unblockedBy id octets, other ≠ failed → other ∉ w'.session.decoder.unblocked

/-- A stream that is reset is gone, and nothing else is. -/
theorem run_resetStream (id : ℕ) (error : Error) (w : H3Worker) : ∃ w', (resetStream id error).run w = (.ok (), w') ∧
    resetsIn w'.passed = id :: resetsIn w.passed ∧
    (w'.session.streams.lookup id = none ∧ w'.tunnels.lookup id = none ∧ w'.outbound.lookup id = none) ∧
    ∀ other, other ≠ id → w'.peerUni.lookup other = w.peerUni.lookup other := by
  rcases houtbound : w.outbound.lookup id with _ | ⟨buffer, ending⟩
  · refine ⟨_, rfl, ?_⟩
    simp only [Act.run, Act.modify, H3Session.forget, houtbound, resetsIn, List.filterMap_cons, AList.lookup_erase]
    exact ⟨trivial, ⟨trivial, trivial, trivial⟩, fun other hne => AList.lookup_erase_ne hne⟩
  · refine ⟨_, rfl, ?_⟩
    simp only [Act.run, Act.modify, H3Session.forget, houtbound, resetsIn, List.filterMap_cons, AList.lookup_erase]
    exact ⟨trivial, ⟨trivial, trivial, trivial⟩, fun other hne => AList.lookup_erase_ne hne⟩

/-- Where octets give rise to an error of a stream, the stream they arrived on is reset. -/
theorem absorb_resets {failed code : ℕ} {reason : String} {quoted : List Quoted} {w₁ : H3Worker}
    (h : (dispatch world id octets fin).run ((note (.read id octets fin)).run w).2 =
      (.error (.stream failed code reason quoted), w₁)) :
    resetsIn ((absorb world id octets fin).run w).2.passed = id :: resetsIn w₁.passed ∧
      (((absorb world id octets fin).run w).2.session.streams.lookup id = none ∧
        ((absorb world id octets fin).run w).2.tunnels.lookup id = none ∧
        ((absorb world id octets fin).run w).2.outbound.lookup id = none) ∧
      ∀ other, other ≠ id → ((absorb world id octets fin).run w).2.peerUni.lookup other = w₁.peerUni.lookup other := by
  obtain ⟨w₂, hreset, hresets, hgone, hpeers⟩ := run_resetStream id (.stream failed code reason quoted) w₁
  have hattempt : (attempt (dispatch world id octets fin)).run ((note (.read id octets fin)).run w).2 =
      (.ok (.error (.stream failed code reason quoted)), w₁) := by
    simp only [Act.run, attempt] at h ⊢
    rw [h]
  have hnote : (note (.read id octets fin)).run w = (.ok (), ((note (.read id octets fin)).run w).2) := rfl
  rw [absorb, Act.run_bind_ok hnote, Act.run_bind_ok hattempt]
  dsimp only
  rw [Act.run_bind_ok hreset]
  rcases htell : w₂.events.trySend with ⟨_ | _ | _, events⟩ <;>
    · simp only [Act.run, tell, htell, bind, pure]
      exact ⟨hresets, hgone, hpeers⟩

/-- A field section that carries `te: gzip` in so many letters, which no message may. -/
def refusedSection : Octets := [0x01, 0x0a, 0x00, 0x00, 0x22] ++ lit "te" ++ [0x04] ++ lit "gzip"

/-- A server whose handshake has completed, before a transport with this to read. -/
def listening (reads : List StreamRead) : H3Worker :=
  new (.new .origin .default) ⟨[], reads.map some⟩ ⟨8, false⟩

/-- A field section of the one entry `te: gzip`, which has not arrived. -/
def refusedLater : Octets := [0x01, 0x03, 0x02, 0x00, 0x80]

/-- A field section of a request and the entry `x: y`, which has not arrived either. -/
def acceptedLater : Octets := [0x01, 0x06, 0x03, 0x00, 0xd1, 0xd7, 0xc1, 0x80]

/-- The two entries, as they arrive on the encoder stream. -/
def insertions : Octets :=
  [0x02, 0x3f, 0xe1, 0x1f, 0x42] ++ lit "te" ++ [0x04] ++ lit "gzip" ++ [0x41] ++ lit "x" ++ [0x01] ++ lit "y"

/-- A server with two requests that wait for the entries. -/
def blocked : H3Worker :=
  after .bare (listening [.data acceptedLater true, .data refusedLater true]) [.established true, .reads [4, 0]]

end H3Worker

end Soyokaze

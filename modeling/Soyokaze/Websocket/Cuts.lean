import Soyokaze.Websocket

/-!
# WebSocket messages however their octets arrive

The connection holds a frame to its limit twice: it holds what is buffered to it, header and
all, while the frame is not there whole, and the payload of the message once it is. So the
cut decides where a frame meets the limit with its header and keeps it with its payload. It
does not where every frame is clear of the limit (`Clear`): where the frame, but for its last
octet, is within it.

* `WebSocketConnection.indifferent_iff`: the messages of a stream do not depend on the cut,
  and no frame within the limit is refused nor one beyond it taken, if and only if every frame
  it comes to is clear of the limit;
* `WebSocketConnection.messages_differ`: a frame with a payload of as many octets as are allowed
  is received in one piece, and refused when its last octet comes by itself.
-/

namespace Soyokaze

namespace WebSocket

open Source

namespace WebSocketConnection

/-- The connection over another source. -/
def fed (c : WebSocketConnection) (s : Source Error UInt8) : WebSocketConnection := { c with source := s }

@[simp] theorem fed_source (c : WebSocketConnection) (s : Source Error UInt8) : (c.fed s).source = s := rfl

@[simp] theorem fed_limits (c : WebSocketConnection) (s : Source Error UInt8) : (c.fed s).limits = c.limits := rfl

@[simp] theorem fed_role (c : WebSocketConnection) (s : Source Error UInt8) : (c.fed s).role = c.role := rfl

@[simp] theorem fed_fed (c : WebSocketConnection) (s s' : Source Error UInt8) : (c.fed s).fed s' = c.fed s' := rfl

@[simp] theorem fed_self (c : WebSocketConnection) : c.fed c.source = c := rfl

/-- Calls for messages until one fails: what was received, and what the last call failed with. -/
def messagesLoop : ℕ → WebSocketConnection → List (Opcode × Octets) × Error
  | 0, _ => ([], .closed)
  | fuel + 1, c => match receiveMessage.run c with
    | (.error error, _) => ([], error)
    | (.ok message, c) => (message :: (messagesLoop fuel c).1, (messagesLoop fuel c).2)

/-- The messages of a connection, and the error behind them. Every message takes octets off the source. -/
def messages (c : WebSocketConnection) : List (Opcode × Octets) × Error := messagesLoop (c.source.left + 1) c

/-- The connection comes to another one by listening, frame by frame. -/
inductive Reaches (c : WebSocketConnection) : WebSocketConnection → Prop
  | refl : Reaches c c
  | listen {c₁ c₂ : WebSocketConnection} {message : Option (Opcode × Octets)} (before : Reaches c c₁)
      (took : WebSocketConnection.listen.run c₁ = (.ok message, c₂)) : Reaches c c₂

/-- A frame is within the limit together with what has come of its message. A control frame is part of none. -/
def Fits (c : WebSocketConnection) (frame : Frame) : Prop :=
  frame.opcode.control = true ∨ c.pending + frame.payload.length ≤ c.limits.maxMessageSize

/-- An error that says a frame, or the message it belongs to, is too large. -/
def TooLarge (error : Error) : Prop :=
  ∃ quoted, error = .limit "frame exceeds {max} octets" quoted ∨ error = .limit "message exceeds {max} octets" quoted

/-- However a stream is cut, its messages are the same and so is the error behind them, and whatever frame the
    connection comes to is refused as too large if it is, and only then. One that is masked the wrong way round
    may be refused for that. -/
structure Indifferent (c : WebSocketConnection) (total : Octets) : Prop where
  same : ∀ s s' : Source Error UInt8, s.Delivers total → s'.Delivers total → (c.fed s).messages = (c.fed s').messages
  within : ∀ c', Reaches (c.fed (whole total)) c' → ∀ s : Source Error UInt8, s.Delivers c'.source.data →
    ∀ count frame, Frame.decode c'.source.data = .ok (some (count, frame)) → c'.Fits frame →
    ∀ error, (listen.run (c'.fed s)).1 = .error error → ¬TooLarge error
  beyond : ∀ c', Reaches (c.fed (whole total)) c' → ∀ s : Source Error UInt8, s.Delivers c'.source.data →
    ∀ count frame, Frame.decode c'.source.data = .ok (some (count, frame)) → ¬c'.Fits frame →
    ∃ error, (listen.run (c'.fed s)).1 = .error error ∧ ((c'.role.isClient != frame.mask.isSome) = true → TooLarge error)

/-- The front of a stream shows what it is within the limit: a frame is there with no more than one octet beyond it,
    and so is what is wrong with one that is none. -/
def Clear (max : ℕ) (total : Octets) : Prop :=
  Frame.decode total = .ok none ∨ ∀ front, front <+: total → Frame.decode front = .ok none → front.length ≤ max

/-! ## Steps over another source -/

variable {α β : Type} {c c' : WebSocketConnection} {s : Source Error UInt8} {total : Octets}

/-- A step that answers the same over any source, and leaves that source where it succeeds. -/
def Unread (m : Step α) : Prop := ∀ c s, (m.run (fed c s)).1 = (m.run c).1 ∧
  ∀ a c', m.run c = (.ok a, c') → m.run (fed c s) = (.ok a, c'.fed s)

theorem Unread.of_eq {m : Step α} (h : ∀ c s, m.run (fed c s) = ((m.run c).1, (m.run c).2.fed s)) : Unread m := by
  intro c s
  rw [h]
  refine ⟨rfl, fun a c' hrun => ?_⟩
  rw [hrun]

theorem Unread.bind {m : Step α} {f : α → Step β} (hm : Unread m) (hf : ∀ a, Unread (f a)) : Unread (m >>= f) := by
  intro c s
  obtain ⟨hsame, hok⟩ := hm c s
  rw [Act.run_bind, Act.run_bind]
  rcases hrun : m.run c with ⟨e | a, c'⟩
  · rw [hrun] at hsame
    rcases hrun' : m.run (fed c s) with ⟨e' | a', c''⟩ <;> rw [hrun'] at hsame <;> cases hsame
    exact ⟨rfl, fun _ _ h => by cases h⟩
  · rw [hok a c' hrun]
    exact hf a c' s

/-- What is taken from the connection is not taken from its source. -/
theorem Unread.get {f : WebSocketConnection → Step β} (hf : ∀ c, Unread (f c)) (hsame : ∀ c s, f (fed c s) = f c) :
    Unread (Act.get >>= f) := by
  intro c s
  rw [Act.run_bind, Act.run_get, Act.run_bind, Act.run_get]
  dsimp only
  rw [hsame]
  exact hf c c s

theorem unread_masking : Unread masking := Unread.of_eq fun c s => by
  obtain ⟨source, outcomes, keys, role, limits, fragments, count, closing, shut, passed⟩ := c
  rcases keys with _ | ⟨_ | key, keys⟩ <;> cases hclient : role.isClient <;> simp [run_masking, fed, hclient]

theorem unread_write (frame : Frame) : Unread (write frame) := Unread.of_eq fun c s => by
  obtain ⟨source, outcomes, keys, role, limits, fragments, count, closing, shut, passed⟩ := c
  cases shut <;> simp [run_write, fed]

theorem unread_send (frame : Frame) : Unread (send frame) := unread_masking.bind fun _ => unread_write _

theorem close_ok (code : CloseCode) (reason : Text) (c : WebSocketConnection) :
    ((close code reason).run c).1 = .ok () := by
  rw [run_close]
  split_ifs
  · rfl
  · split <;> rfl

theorem unread_deliver (opcode : Opcode) (payload : Octets) : Unread (deliver opcode payload) := by
  rw [deliver]
  split_ifs
  · -- The closing handshake reads, but the call fails however that ends.
    have hfails : ∀ c : WebSocketConnection, ((close .invalidPayload (.lit "invalid utf-8") >>= fun _ =>
        (Act.fail (.protocol "a text message is not valid UTF-8" []) : Step (Option (Opcode × Octets)))).run c).1 =
          .error (.protocol "a text message is not valid UTF-8" []) := by
      intro c
      have hclose := close_ok .invalidPayload (.lit "invalid utf-8") c
      rw [Act.run_bind]
      rcases hrun : (close .invalidPayload (.lit "invalid utf-8")).run c with ⟨error | _, c'⟩
      · rw [hrun] at hclose
        cases hclose
      · rfl
    intro c s
    refine ⟨(hfails _).trans (hfails _).symm, fun a c' hrun => ?_⟩
    have := hfails c
    rw [hrun] at this
    cases this
  · exact Unread.of_eq fun _ _ => rfl

theorem unread_hearClose (payload : Octets) : Unread (hearClose payload) := by
  refine Unread.bind (Unread.of_eq fun _ _ => rfl) fun _ => Unread.get (fun c => ?_) fun _ _ => rfl
  split_ifs
  · exact Unread.of_eq fun _ _ => rfl
  · exact Unread.bind (Unread.of_eq fun _ _ => rfl) fun _ => (unread_send _).bind fun _ => Unread.of_eq fun _ _ => rfl

theorem unread_gather (frame : Frame) : Unread (gather frame) := Unread.of_eq fun c s => by
  obtain ⟨source, outcomes, keys, role, limits, fragments, count, closing, shut, passed⟩ := c
  cases fragments <;> cases hopcode : frame.opcode <;> simp [run_gather, fed, hopcode]

theorem unread_ungather : Unread ungather := Unread.of_eq fun c s => by
  obtain ⟨source, outcomes, keys, role, limits, fragments, count, closing, shut, passed⟩ := c
  cases fragments <;> rfl

theorem unread_hearFragment (frame : Frame) : Unread (hearFragment frame) := by
  refine (unread_gather frame).bind fun opcode => Unread.get (fun c => ?_) fun _ _ => rfl
  refine Unread.bind (Unread.of_eq fun _ _ => rfl) fun _ => ?_
  split_ifs
  · exact unread_ungather.bind fun _ => unread_deliver _ _
  · exact Unread.of_eq fun _ _ => rfl

theorem unread_hearData (frame : Frame) : Unread (hearData frame) := by
  refine Unread.get (fun c => ?_) fun _ _ => rfl
  refine Unread.bind (Unread.of_eq fun _ _ => rfl) fun _ => ?_
  split_ifs
  · exact unread_deliver _ _
  · exact unread_hearFragment frame

theorem unread_hear (frame : Frame) : Unread (hear frame) := by
  rw [hear]
  split
  · exact unread_hearClose _
  · exact (unread_send _).bind fun _ => Unread.of_eq fun _ _ => rfl
  · exact Unread.of_eq fun _ _ => rfl
  · exact unread_hearData frame
  · exact unread_hearData frame
  · exact unread_hearData frame

/-! ## Messages, frame by frame -/

theorem messagesLoop_congr {fuel n : ℕ} (h : c.source.left < fuel) (h' : c.source.left < n) :
    messagesLoop fuel c = messagesLoop n c := by
  induction fuel generalizing c n with
  | zero => exact absurd h (Nat.not_lt_zero _)
  | succ fuel ih =>
    cases n with
    | zero => exact absurd h' (Nat.not_lt_zero _)
    | succ n =>
      rw [messagesLoop, messagesLoop]
      rcases hrun : receiveMessage.run c with ⟨error | message, c'⟩
      · rfl
      · have hleft := left_receiveMessage hrun
        dsimp only
        rw [ih (n := n) (by omega) (by omega)]

/-- What one frame adds to the messages. -/
theorem messages_eq (c : WebSocketConnection) : c.messages = match listen.run c with
    | (.error error, _) => ([], error)
    | (.ok none, c) => c.messages
    | (.ok (some message), c) => (message :: c.messages.1, c.messages.2) := by
  rw [messages, messagesLoop, run_receiveMessage]
  rcases hlisten : listen.run c with ⟨error | _ | message, c'⟩
  · rfl
  · have hleft := left_listen hlisten
    dsimp only
    rw [messages, messagesLoop]
    rcases hrun : receiveMessage.run c' with ⟨error | message, c₁⟩
    · rfl
    · have hleft' := left_receiveMessage hrun
      dsimp only
      rw [messagesLoop_congr (n := c'.source.left) (by omega) hleft']
  · have hleft := left_listen hlisten
    dsimp only
    rw [messagesLoop_congr (n := c'.source.left + 1) hleft (Nat.lt_succ_self _)]
    rfl

/-- The connection once it has taken a frame. -/
def taken (c : WebSocketConnection) (frame : Frame) : WebSocketConnection := { c with passed := .took frame :: c.passed }

/-- What is made of a frame that is read: it is heard if it is masked as it should be. -/
theorem run_listen {count : ℕ} {frame : Frame} {source : Source Error UInt8}
    (h : s.await (look c.limits.maxMessageSize) (.error .closed) = (.ok (count, frame), source)) :
    listen.run (c.fed s) = if c.role.isClient != frame.mask.isSome then
      (hear frame).run ((c.taken frame).fed (source.consume count))
    else (.error (wrongMask frame), c.fed (source.consume count)) := by
  have htake : (take count frame).run (c.fed source) = if c.role.isClient != frame.mask.isSome then
      (.ok frame, (c.taken frame).fed (source.consume count))
    else (.error (wrongMask frame), c.fed (source.consume count)) := run_take count frame _
  have hreceive : receive.run (c.fed s) = (take count frame).run (c.fed source) := by
    rw [run_receive, fed_source, fed_limits, h]
    rfl
  rw [listen, Act.run_bind, hreceive, htake]
  split_ifs <;> rfl

theorem run_listen_error {error : Error} {source : Source Error UInt8}
    (h : s.await (look c.limits.maxMessageSize) (.error .closed) = (.error error, source)) :
    listen.run (c.fed s) = (.error error, c.fed source) := by
  rw [listen, Act.run_bind, run_receive, fed_source, fed_limits, h]
  rfl

/-! ## Streams clear of the limit -/

theorem steady_of_clear {max : ℕ} (h : Clear max total) : Steady (look max) (.error .closed) total := by
  intro front hfront answer hlook
  rcases hdecode : Frame.decode front with error | _ | found
  · obtain hnone | hsame := Frame.decode_prefix hfront
    · cases hdecode.symm.trans hnone
    · rw [look, hdecode] at hlook
      rw [look, ← hsame, hdecode]
      cases hlook
      rfl
  · rw [look, hdecode] at hlook
    dsimp only at hlook
    split_ifs at hlook with hlong
    obtain hnone | hclear := h
    · rw [look, hnone]
      dsimp only
      rw [if_pos (hlong.trans_le hfront.length_le), hlook]
      rfl
    · exact absurd hlong (Nat.not_lt.2 (hclear front hfront hdecode))
  · obtain hnone | hsame := Frame.decode_prefix hfront
    · cases hdecode.symm.trans hnone
    · rw [look, hdecode] at hlook
      rw [look, ← hsame, hdecode]
      cases hlook
      rfl

theorem await_whole (look : Octets → Option (Except Error α)) (total : Octets) :
    (whole total : Source Error UInt8).await look (.error .closed) =
      ((look total).getD (.error .closed), whole total) := by
  rw [await, whole]
  dsimp only
  cases look total <;> rfl

/-- What comes of a stream that is clear of the limit, however it is cut. -/
theorem listen_of_clear (hclear : Clear c.limits.maxMessageSize total) (hs : s.Delivers total) :
    (listen.run (c.fed s)).1 = (listen.run (c.fed (whole total))).1 ∧
      ∀ message c', listen.run (c.fed (whole total)) = (.ok message, c') → ∃ s' : Source Error UInt8,
        listen.run (c.fed s) = (.ok message, c'.fed s') ∧ s'.Delivers c'.source.data ∧ c'.source = whole c'.source.data := by
  have hread := await_of_steady (steady_of_clear hclear) hs
  have hwhole := await_whole (look c.limits.maxMessageSize) total
  rcases hawait : s.await (look c.limits.maxMessageSize) (.error .closed) with ⟨error | ⟨count, frame⟩, s₁⟩
  · rw [hawait] at hread
    rw [← hread.answer] at hwhole
    rw [run_listen_error hawait, run_listen_error hwhole]
    exact ⟨rfl, fun _ _ h => (by cases h)⟩
  · have hlook := await_accepted (congrArg Prod.fst hawait)
    rw [hawait] at hread hlook
    rw [← hread.answer] at hwhole
    obtain ⟨-, hle⟩ := Frame.decode_bounds (look_eq_ok hlook)
    rw [run_listen hawait, run_listen hwhole]
    split_ifs
    · obtain ⟨hsame, hok⟩ := unread_hear frame (c.taken frame) (s₁.consume count)
      obtain ⟨hsame', hok'⟩ := unread_hear frame (c.taken frame) ((whole total).consume count)
      refine ⟨hsame.trans hsame'.symm, fun message c' hrun => ?_⟩
      rcases hhear : (hear frame).run (c.taken frame) with ⟨error | message', c₁⟩
      · rw [hhear] at hsame'
        rw [hrun] at hsame'
        cases hsame'
      · rw [hok' _ _ hhear] at hrun
        cases hrun
        exact ⟨s₁.consume count, hok message c₁ hhear, hread.delivers.consume hle, rfl⟩
    · exact ⟨rfl, fun _ _ h => (by cases h)⟩

theorem Reaches.trans {c₁ c₂ : WebSocketConnection} (h : Reaches c c₁) (h' : Reaches c₁ c₂) : Reaches c c₂ := by
  induction h' with
  | refl => exact h
  | listen _ htook ih => exact .listen ih htook

/-- Where every frame a connection comes to is clear of the limit, the messages are the same however the stream is cut. -/
theorem messages_of_clear (hclear : ∀ c', Reaches (c.fed (whole total)) c' → Clear c'.limits.maxMessageSize c'.source.data)
    (hs : s.Delivers total) : (c.fed s).messages = (c.fed (whole total)).messages := by
  -- Every frame takes octets off the stream.
  generalize hlength : total.length = length
  induction length using Nat.strong_induction_on generalizing c s total with
  | _ length ih =>
    have hfirst : Clear c.limits.maxMessageSize total := hclear _ .refl
    obtain ⟨hsame, hok⟩ := listen_of_clear hfirst hs
    rw [messages_eq, messages_eq (c.fed (whole total))]
    rcases hwhole : listen.run (c.fed (whole total)) with ⟨error | message, c'⟩
    · rw [hwhole] at hsame
      rcases hcut : listen.run (c.fed s) with ⟨error' | message', c''⟩ <;> rw [hcut] at hsame <;> cases hsame
      rfl
    · obtain ⟨s', hcut, hs', hsource⟩ := hok message c' hwhole
      have hless : c'.source.data.length < length := by
        have hleft := left_listen hwhole
        rw [hsource, (delivers_whole c'.source.data).left_eq, fed_source, (delivers_whole total).left_eq, hlength] at hleft
        exact hleft
      have hrest : (c'.fed s').messages = (c'.fed (whole c'.source.data)).messages := by
        refine ih _ hless (fun c₁ hreaches => hclear c₁ ?_) hs' rfl
        rw [← hsource, fed_self] at hreaches
        exact (Reaches.listen .refl hwhole).trans hreaches
      rw [← hsource, fed_self] at hrest
      rw [hcut]
      cases message with
      | none => exact hrest
      | some message =>
        dsimp only
        rw [hrest]

/-! ## What is refused as too large -/

theorem not_tooLarge_protocol (reason : String) (quoted : List Quoted) : ¬TooLarge (.protocol reason quoted) := by
  rintro ⟨_, h | h⟩ <;> cases h

theorem not_tooLarge_io : ¬TooLarge .io := by
  rintro ⟨_, h | h⟩ <;> cases h

theorem not_tooLarge_wrongMask (frame : Frame) : ¬TooLarge (wrongMask frame) := by
  rw [wrongMask]
  split <;> exact not_tooLarge_protocol _ _

/-- A step that refuses nothing as too large. -/
abbrev Lenient (m : Step α) : Prop := Act.Fails (fun error => ¬TooLarge error) m

theorem lenient_send (frame : Frame) : Lenient (send frame) := by
  refine Act.Fails.bind (fun c error h => ?_) fun mask c error h => ?_
  · rw [run_masking] at h
    split_ifs at h
    split at h <;> cases h
    exact not_tooLarge_io
  · rw [run_write] at h
    split_ifs at h <;> cases h
    · exact not_tooLarge_io
    · exact not_tooLarge_io

theorem lenient_deliver (opcode : Opcode) (payload : Octets) : Lenient (deliver opcode payload) := by
  rw [deliver]
  split_ifs
  · exact (Act.fails_of_ok fun c => ⟨(), close_ok _ _ c⟩).bind fun _ => Act.fails_fail (not_tooLarge_protocol _ _)
  · exact Act.fails_of_ok fun _ => ⟨_, rfl⟩

theorem lenient_hearClose (payload : Octets) : Lenient (hearClose payload) := by
  refine (Act.fails_ofExcept fun error h => ?_).bind fun _ => (Act.fails_of_ok fun _ => ⟨_, rfl⟩).bind fun c => ?_
  · rw [verifyClose.eq_def] at h
    split at h
    · cases h
    · cases h
      exact not_tooLarge_protocol _ _
    · split_ifs at h <;> cases h <;> exact not_tooLarge_protocol _ _
  · split_ifs
    · exact Act.fails_of_ok fun _ => ⟨_, rfl⟩
    · exact (Act.fails_of_ok fun _ => ⟨_, rfl⟩).bind fun _ => (lenient_send _).bind fun _ => Act.fails_of_ok fun _ => ⟨_, rfl⟩

theorem lenient_hearFragment (frame : Frame) : Lenient (hearFragment frame) := by
  refine Act.Fails.bind (fun c error h => ?_) fun opcode => (Act.fails_of_ok fun _ => ⟨_, rfl⟩).bind fun c => ?_
  · rw [run_gather] at h
    split at h <;> cases h <;> exact not_tooLarge_protocol _ _
  · refine (Act.fails_demand ?_ _).bind fun _ => ?_
    · rintro ⟨_, h | h⟩ <;> exact absurd (Error.limit.inj h).1 (by decide)
    · split_ifs
      · refine Act.Fails.bind (fun c error h => ?_) fun payload => lenient_deliver _ _
        rw [run_ungather] at h
        split at h <;> cases h
        exact not_tooLarge_protocol _ _
      · exact Act.fails_of_ok fun _ => ⟨_, rfl⟩

/-- A frame that fits is not refused as too large once it is read. -/
theorem hear_fits {frame : Frame} (h : c.Fits frame) {error : Error} (hrun : ((hear frame).run c).1 = .error error) :
    ¬TooLarge error := by
  have hdata : frame.opcode.control = false → ((hearData frame).run c).1 = .error error → ¬TooLarge error := by
    intro hcontrol hrun
    have hsize := h.resolve_left (by rw [hcontrol]; exact Bool.false_ne_true)
    rw [run_hearData, if_pos hsize] at hrun
    split_ifs at hrun
    · exact lenient_deliver _ _ c error hrun
    · exact lenient_hearFragment frame c error hrun
  rw [hear] at hrun
  cases hopcode : frame.opcode <;> rw [hopcode] at hrun hdata
  · exact hdata rfl hrun
  · exact hdata rfl hrun
  · exact hdata rfl hrun
  · exact lenient_hearClose _ c error hrun
  · exact ((lenient_send _).bind fun _ => Act.fails_of_ok fun _ => ⟨_, rfl⟩) c error hrun
  · cases hrun

/-- A frame that does not is. -/
theorem hear_large {frame : Frame} (h : ¬c.Fits frame) : (hear frame).run c =
    (.error (.limit "message exceeds {max} octets" [.number c.limits.maxMessageSize]), c) := by
  obtain ⟨hcontrol, hsize⟩ := not_or.1 h
  have hdata : (hearData frame).run c =
      (.error (.limit "message exceeds {max} octets" [.number c.limits.maxMessageSize]), c) := by
    rw [run_hearData, if_neg hsize]
  rw [hear]
  rcases Opcode.data_cases (Bool.eq_false_iff.2 hcontrol) with hopcode | hopcode | hopcode <;> rw [hopcode] <;> exact hdata

/-! ## Any cut between two frames -/

/-- A frame that is there whole is listened to, and leaves what is behind it. -/
theorem listen_ahead {count : ℕ} {frame : Frame} {message : Option (Opcode × Octets)}
    (hdecode : Frame.decode total = .ok (some (count, frame)))
    (hlisten : listen.run (c.fed (whole total)) = (.ok message, c')) :
    c'.source = whole (total.drop count) ∧ ∀ front reads eof, front <+: total.drop count →
      listen.run (c.fed ⟨total.take count ++ front, eof, reads⟩) = (.ok message, c'.fed ⟨front, eof, reads⟩) := by
  have hwhole : (whole total : Source Error UInt8).await (look c.limits.maxMessageSize) (.error .closed) =
      (.ok (count, frame), whole total) := by
    rw [await_whole, look, hdecode]
    rfl
  rw [run_listen hwhole] at hlisten
  split_ifs at hlisten with hmask
  · obtain ⟨hsame, hok⟩ := unread_hear frame (c.taken frame) ((whole total).consume count)
    rcases hhear : (hear frame).run (c.taken frame) with ⟨error | message', c₁⟩
    · rw [hhear, hlisten] at hsame
      cases hsame
    · rw [hok _ _ hhear] at hlisten
      cases hlisten
      refine ⟨rfl, fun front reads eof hfront => ?_⟩
      have hlength : (total.take count).length = count := by
        rw [List.length_take, Nat.min_eq_left (Frame.decode_bounds hdecode).2]
      have hahead : Frame.decode (total.take count ++ front) = .ok (some (count, frame)) := by
        refine Frame.decode_of_le ?_ hdecode ?_
        · calc total.take count ++ front <+: total.take count ++ total.drop count := (List.prefix_append_right_inj _).2 hfront
            _ = total := List.take_append_drop count total
        · rw [List.length_append, hlength]
          exact Nat.le_add_right _ _
      have hcut : (⟨total.take count ++ front, eof, reads⟩ : Source Error UInt8).await (look c.limits.maxMessageSize)
          (.error .closed) = (.ok (count, frame), ⟨total.take count ++ front, eof, reads⟩) := by
        rw [await, look]
        dsimp only
        rw [hahead]
      rw [run_listen hcut, if_pos hmask, consume]
      dsimp only
      rw [List.drop_left' hlength]
      exact (unread_hear frame (c.taken frame) _).2 message c₁ hhear
  · cases hlisten

/-- What a listener is listening to is there whole. -/
theorem decode_of_listen {message : Option (Opcode × Octets)} (h : listen.run (c.fed (whole total)) = (.ok message, c')) :
    ∃ count frame, Frame.decode total = .ok (some (count, frame)) := by
  obtain ⟨frame, c₁, hreceive, -⟩ := Act.of_run_bind_ok h
  obtain ⟨count, source, hawait, hdecode, -⟩ := of_receive hreceive
  rw [fed_source, fed_limits, await_whole] at hawait
  cases (Prod.ext_iff.1 hawait).2
  exact ⟨count, frame, hdecode⟩

/-- Where a connection comes to with the whole stream at hand, it comes to with any cut of what is left then, and
    with the same messages. -/
theorem Reaches.cut (h : Reaches (c.fed (whole total)) c') :
    c'.source = whole c'.source.data ∧ ∃ before messages, total = before ++ c'.source.data ∧
      ∀ front reads eof, front <+: c'.source.data →
        (c.fed ⟨before ++ front, eof, reads⟩).messages =
          (messages ++ (c'.fed ⟨front, eof, reads⟩).messages.1, (c'.fed ⟨front, eof, reads⟩).messages.2) := by
  induction h with
  | refl => exact ⟨rfl, [], [], rfl, fun front reads eof _ => rfl⟩
  | @listen c₁ c₂ message _ htook ih =>
    obtain ⟨hsource, before, messages, htotal, hcut⟩ := ih
    rw [← fed_self c₁, hsource] at htook
    obtain ⟨count, frame, hdecode⟩ := decode_of_listen htook
    obtain ⟨hsource₂, hahead⟩ := listen_ahead hdecode htook
    have hdata : c₂.source.data = c₁.source.data.drop count := by rw [hsource₂]; rfl
    refine ⟨by rw [hdata, hsource₂], before ++ c₁.source.data.take count, messages ++ message.toList, ?_, ?_⟩
    · rw [hdata, List.append_assoc, List.take_append_drop]
      exact htotal
    · intro front reads eof hfront
      rw [hdata] at hfront
      have hmore : c₁.source.data.take count ++ front <+: c₁.source.data := by
        calc c₁.source.data.take count ++ front <+: c₁.source.data.take count ++ c₁.source.data.drop count :=
            (List.prefix_append_right_inj _).2 hfront
          _ = c₁.source.data := List.take_append_drop count _
      rw [List.append_assoc, hcut _ reads eof hmore, messages_eq (c₁.fed _), hahead front reads eof hfront]
      cases message with
      | none => rw [Option.toList_none, List.append_nil]
      | some message => rw [Option.toList_some, List.append_assoc, List.singleton_append]

/-- A frame that is not clear of the limit, and is cut so, is refused though it may fit. -/
theorem listen_cut {front : Octets} (reads : List (Except Error Octets)) (eof : Bool)
    (hdecode : Frame.decode front = .ok none) (hlong : c.limits.maxMessageSize < front.length) :
    (listen.run (c.fed ⟨front, eof, reads⟩)).1 =
      .error (.limit "frame exceeds {max} octets" [.number c.limits.maxMessageSize]) := by
  have hawait : (⟨front, eof, reads⟩ : Source Error UInt8).await (look c.limits.maxMessageSize) (.error .closed) =
      (.error (.limit "frame exceeds {max} octets" [.number c.limits.maxMessageSize]), ⟨front, eof, reads⟩) := by
    rw [await, look]
    dsimp only
    rw [hdecode]
    dsimp only
    rw [if_pos hlong]
  rw [run_listen_error hawait]

theorem messages_error {error : Error} (h : (listen.run c).1 = .error error) : c.messages = ([], error) := by
  rw [messages_eq]
  rcases hrun : listen.run c with ⟨error' | message, c'⟩ <;> rw [hrun] at h <;> cases h
  rfl

/-- What is made of a frame that is there whole. -/
theorem listen_whole {count : ℕ} {frame : Frame} (h : Frame.decode total = .ok (some (count, frame))) :
    listen.run (c.fed (whole total)) = if c.role.isClient != frame.mask.isSome then
      (hear frame).run ((c.taken frame).fed ((whole total).consume count))
    else (.error (wrongMask frame), c.fed ((whole total).consume count)) := by
  refine run_listen ?_
  rw [await_whole, look, h]
  rfl

theorem listen_fits {count : ℕ} {frame : Frame} (h : Frame.decode total = .ok (some (count, frame))) (hfits : c.Fits frame)
    {error : Error} (hrun : (listen.run (c.fed (whole total))).1 = .error error) : ¬TooLarge error := by
  rw [listen_whole h] at hrun
  split_ifs at hrun
  · exact hear_fits (c := (c.taken frame).fed _) hfits hrun
  · cases hrun
    exact not_tooLarge_wrongMask frame

theorem listen_large {count : ℕ} {frame : Frame} (h : Frame.decode total = .ok (some (count, frame)))
    (hfits : ¬c.Fits frame) : (listen.run (c.fed (whole total))).1 =
      .error (if c.role.isClient != frame.mask.isSome then
        .limit "message exceeds {max} octets" [.number c.limits.maxMessageSize] else wrongMask frame) := by
  rw [listen_whole h]
  split_ifs
  · rw [hear_large (c := (c.taken frame).fed _) hfits]
    rfl
  · rfl

/-- A whole stream that begins with no frame that fits is refused, but not for a frame that exceeds the limit by itself. -/
theorem listen_unfit (h : Frame.decode total ≠ .ok none) (hlarge : ∀ count frame,
    Frame.decode total = .ok (some (count, frame)) → ¬c.Fits frame) : ∃ error,
    (listen.run (c.fed (whole total))).1 = .error error ∧ ∀ quoted, error ≠ .limit "frame exceeds {max} octets" quoted := by
  rcases hdecode : Frame.decode total with error | _ | ⟨count, frame⟩
  · have hwhole : (whole total : Source Error UInt8).await (look c.limits.maxMessageSize) (.error .closed) =
        (.error error, whole total) := by
      rw [await_whole, look, hdecode]
      rfl
    obtain ⟨reason, quoted, rfl⟩ := Frame.decode_error hdecode
    rw [run_listen_error hwhole]
    exact ⟨_, rfl, fun quoted heq => (by cases heq)⟩
  · exact absurd hdecode h
  · refine ⟨_, listen_large hdecode (hlarge count frame hdecode), fun quoted heq => ?_⟩
    split_ifs at heq
    · exact absurd (Error.limit.inj heq).1 (by decide)
    · exact not_tooLarge_wrongMask frame ⟨quoted, .inl heq⟩

/-- The limits do not depend on how octets arrive if and only if every frame the connection comes to is clear of the
    limit. -/
theorem indifferent_iff (c : WebSocketConnection) (total : Octets) : Indifferent c total ↔
    ∀ c', Reaches (c.fed (whole total)) c' → Clear c'.limits.maxMessageSize c'.source.data := by
  constructor
  · intro h c' hreaches
    obtain ⟨-, before, messages, htotal, hcut⟩ := hreaches.cut
    rw [Clear, or_iff_not_imp_left]
    intro hdecode front hfront hnone
    by_contra hlong
    rw [Nat.not_le] at hlong
    -- The stream is cut where the frame is not there whole and is too long already.
    obtain ⟨more, hmore⟩ := hfront
    have hne : more ≠ [] := by
      rintro rfl
      rw [List.append_nil] at hmore
      exact hdecode (hmore ▸ hnone)
    have hdelivers : ∀ at' : Octets, (⟨at' ++ front, false, [.ok more]⟩ : Source Error UInt8).Delivers (at' ++ c'.source.data) :=
      fun at' => ⟨[more], rfl, by simpa using hne.symm, by simp [← hmore], fun h => by cases h⟩
    have hrefused := listen_cut (c := c') [.ok more] false hnone hlong
    by_cases hfits : ∃ count frame, Frame.decode c'.source.data = .ok (some (count, frame)) ∧ c'.Fits frame
    · obtain ⟨count, frame, hframe, hfits⟩ := hfits
      exact h.within c' hreaches _ (hdelivers []) count frame hframe hfits _ hrefused ⟨_, .inl rfl⟩
    · have hsame := h.same _ _ (htotal ▸ hdelivers before) (delivers_whole total)
      obtain ⟨error, herror, hother⟩ := listen_unfit hdecode fun count frame hframe hfits' =>
        hfits ⟨count, frame, hframe, hfits'⟩
      have hwhole : (c.fed (whole total)).messages = (messages ++ [], error) := by
        have hrest : (c'.fed ⟨c'.source.data, true, []⟩).messages = ([], error) := messages_error herror
        have hbefore := hcut c'.source.data [] true List.prefix_rfl
        rw [← htotal, hrest] at hbefore
        exact hbefore
      rw [hcut front [.ok more] false ⟨more, hmore⟩, messages_error hrefused, hwhole] at hsame
      exact hother _ (Prod.ext_iff.1 hsame).2.symm
  · intro h
    refine ⟨fun s s' hs hs' => ?_, fun c' hreaches s hs count frame hdecode hfits error herror => ?_,
      fun c' hreaches s hs count frame hdecode hfits => ?_⟩
    · rw [messages_of_clear h hs, messages_of_clear h hs']
    · rw [(listen_of_clear (h c' hreaches) hs).1] at herror
      exact listen_fits hdecode hfits herror
    · refine ⟨_, ((listen_of_clear (h c' hreaches) hs).1).trans (listen_large hdecode hfits), fun hmask => ?_⟩
      rw [if_pos hmask]
      exact ⟨_, .inr rfl⟩

/-- A frame of ten octets, as a client sends it, and a server that allows so many. -/
def tenOctets : Frame := ⟨true, .binary, some ⟨0, 0, 0, 0⟩, List.replicate 10 0x61⟩

def narrow : WebSocketConnection := resume [] .origin ⟨10, 4096⟩ []

/-- The frame is received in one piece, and refused when its last octet comes by itself. -/
theorem messages_differ : ¬∀ (c : WebSocketConnection) (total : Octets), Indifferent c total := by
  intro h
  have hsame := (h narrow tenOctets.encode).same ⟨tenOctets.encode, true, []⟩
    ⟨tenOctets.encode.take 15, false, [.ok (tenOctets.encode.drop 15)]⟩ (delivers_whole _)
    ⟨[tenOctets.encode.drop 15], rfl, by decide +kernel, by decide +kernel, fun h => by cases h⟩
  have hwhole : (narrow.fed ⟨tenOctets.encode, true, []⟩).messages = ([(.binary, tenOctets.payload)], .closed) := by
    decide +kernel
  have hcut : (narrow.fed ⟨tenOctets.encode.take 15, false, [.ok (tenOctets.encode.drop 15)]⟩).messages =
      ([], .limit "frame exceeds {max} octets" [.number 10]) := by decide +kernel
  rw [hwhole, hcut] at hsame
  cases hsame

end WebSocketConnection

end WebSocket

end Soyokaze

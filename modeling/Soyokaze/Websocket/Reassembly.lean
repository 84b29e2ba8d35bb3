import Soyokaze.Websocket.Cuts

/-!
# WebSocket messages put together

A message comes as one frame or as several, the first of them of the message's kind and the
others continuations, with pings and pongs between them. A `Script` is such a beginning of a
message and the frame behind it, which completes the message or is out of place.

* `WebSocketConnection.hear_carry`: a frame that carries on leaves the connection with what
  there is of the message so far;
* `WebSocketConnection.plays_iff`: however a script is cut, the message is received, or the
  frame out of place refused, and every ping of it answered, if and only if every frame is
  clear of the limit;
* `WebSocketConnection.message_lost`: a message of as many octets as are allowed is refused
  where its last octet comes by itself.
-/

namespace Soyokaze

namespace WebSocket

open Source

/-- A fragment of a message that does not end it, and the pings and pongs before it. -/
structure Fragment where
  before : List Frame
  mask : Option Mask
  payload : Octets

/-- The frames of a message that has not ended: its kind is the first one's, and others continue it. -/
def unfinished (opcode : Opcode) : List Fragment → List Frame
  | [] => []
  | fragment :: fragments => fragment.before ++ ⟨false, opcode, fragment.mask, fragment.payload⟩ :: unfinished .continuation fragments

/-- What there is of a message that is not complete, and of how many frames it is. -/
abbrev Gathered : Type := Option (Opcode × Octets) × ℕ

/-- A message that has not ended, the pings and pongs behind it, and the frame that is last. -/
structure Script where
  opcode : Opcode
  fragments : List Fragment
  before : List Frame
  last : Frame

namespace Script

/-- The frames before the last. -/
def going (script : Script) : List Frame := unfinished script.opcode script.fragments ++ script.before

/-- The frames of a script. -/
def frames (script : Script) : List Frame := script.going ++ [script.last]

/-- What comes of the message before the last frame. -/
def payload (script : Script) : Octets := (script.fragments.map (·.payload)).flatten

/-- What there is of the message before the last frame. -/
def gathered (script : Script) (count : ℕ) : Gathered :=
  if script.fragments = [] then (none, count) else (some (script.opcode, script.payload), script.fragments.length)

end Script

/-- The octets of frames, one behind the other. -/
def octets (frames : List Frame) : Octets := (frames.map Frame.encode).flatten

/-- A ping or a pong that may be. -/
def Frame.Interlude (frame : Frame) : Prop :=
  (frame.opcode = .ping ∨ frame.opcode = .pong) ∧ frame.fin = true ∧ frame.payload.length ≤ MAXIMUM_CONTROL_PAYLOAD

/-- The payloads of pings. -/
def pings (frames : List Frame) : List Octets := (frames.filter (·.opcode = .ping)).map (·.payload)

/-- The payloads of the pongs that were sent, the latest first. -/
def pongs (passed : List Passed) : List Octets := passed.filterMap fun
  | .sent frame => if frame.opcode = .pong then some frame.payload else none
  | .took _ => none

/-- What a message is received as: a text only if it is one. -/
def verdict (opcode : Opcode) (payload : Octets) : Except Error (Opcode × Octets) :=
  if opcode = .text ∧ Utf8.valid payload .ground = false then
    .error (.protocol "a text message is not valid UTF-8" [])
  else .ok (opcode, payload)

namespace WebSocketConnection

variable {c c' : WebSocketConnection} {s : Source Error UInt8} {total : Octets}

/-- The connection is given masks, and what it writes goes out. -/
structure Able (c : WebSocketConnection) : Prop where
  shut : c.shut = false
  outcomes : ∀ outcome ∈ c.outcomes, outcome = true
  keys : ∀ key ∈ c.keys, key.isSome = true

/-- Whether a frame is masked as the other end has to. -/
def Masked (c : WebSocketConnection) (frame : Frame) : Prop := (c.role.isClient != frame.mask.isSome) = true

/-- What there is of a message, with one frame more that carries it on. -/
def carry (limits : WebSocketLimits) (gathered : Gathered) (frame : Frame) : Option Gathered :=
  match gathered.1, frame.opcode with
  | _, .ping | _, .pong => some gathered
  | none, .text | none, .binary =>
    if frame.fin = false ∧ frame.payload.length ≤ limits.maxMessageSize ∧ 1 ≤ limits.wsMaxFragments then
      some (some (frame.opcode, frame.payload), 1)
    else none
  | some (opcode, pending), .continuation =>
    if frame.fin = false ∧ pending.length + frame.payload.length ≤ limits.maxMessageSize ∧
      gathered.2 + 1 ≤ limits.wsMaxFragments then some (some (opcode, pending ++ frame.payload), gathered.2 + 1)
    else none
  | _, _ => none

/-- What a connection has gathered. -/
def gathered (c : WebSocketConnection) : Gathered := (c.fragments, c.fragmentCount)

/-- One connection is another further on: it has gathered something else, and sent so many pongs more. -/
structure Onward (c : WebSocketConnection) (gathered : Gathered) (answers : List Octets) (c' : WebSocketConnection) : Prop where
  able : c'.Able
  role : c'.role = c.role
  limits : c'.limits = c.limits
  gathered : c'.gathered = gathered
  pongs : pongs c'.passed = answers ++ WebSocket.pongs c.passed

/-! ## Frames that carry on -/

theorem send_able (frame : Frame) (h : c.Able) : ∃ mask outcomes keys, (send frame).run c =
    (.ok (), { c with outcomes := outcomes, keys := keys, passed := .sent { frame with mask := mask } :: c.passed }) ∧
      (∀ outcome ∈ outcomes, outcome = true) ∧ ∀ key ∈ keys, key.isSome = true := by
  have hwrite : ∀ (frame : Frame) (c : WebSocketConnection), c.Able → (write frame).run c =
      (.ok (), { c with outcomes := c.outcomes.tail, passed := .sent frame :: c.passed }) := by
    intro frame c hable
    rw [run_write, if_neg (by rw [hable.shut]; exact Bool.false_ne_true)]
    cases houtcomes : c.outcomes with
    | nil => rfl
    | cons outcome outcomes =>
      have := hable.outcomes outcome (by rw [houtcomes]; exact List.mem_cons_self)
      rw [this]
      rfl
  have htail : ∀ outcome ∈ c.outcomes.tail, outcome = true := fun outcome hmem => h.outcomes outcome (List.mem_of_mem_tail hmem)
  rw [send, Act.run_bind, run_masking]
  split_ifs
  · cases hkeys : c.keys with
    | nil =>
      refine ⟨some ⟨0, 0, 0, 0⟩, c.outcomes.tail, c.keys, ?_, htail, h.keys⟩
      exact hwrite _ c h
    | cons key keys =>
      have hall := h.keys
      rw [hkeys] at hall
      obtain ⟨hkey, hrest⟩ := List.forall_mem_cons.1 hall
      obtain ⟨mask, rfl⟩ := Option.isSome_iff_exists.1 hkey
      refine ⟨some mask, c.outcomes.tail, keys, ?_, htail, hrest⟩
      exact hwrite _ { c with keys := keys } ⟨h.shut, h.outcomes, hrest⟩
  · refine ⟨none, c.outcomes.tail, c.keys, ?_, htail, h.keys⟩
    exact hwrite _ c h

theorem hear_first {frame : Frame} (h : c.Able) (hopcode : frame.opcode = .text ∨ frame.opcode = .binary)
    (hfin : frame.fin = false) (hsize : frame.payload.length ≤ c.limits.maxMessageSize) (hcount : 1 ≤ c.limits.wsMaxFragments)
    (hnone : c.fragments = none) : ∃ c', (hear frame).run c = (.ok none, c') ∧
      c.Onward (some (frame.opcode, frame.payload), 1) [] c' := by
  have hdata : (hearData frame).run c =
      (.ok none, { c with fragments := some (frame.opcode, frame.payload), fragmentCount := 1 }) := by
    have hgather : (gather frame).run c =
        (.ok frame.opcode, { c with fragments := some (frame.opcode, frame.payload), fragmentCount := 1 }) := by
      rw [run_gather, hnone]
      rcases hopcode with hopcode | hopcode <;> rw [hopcode]
    rw [run_hearData, pending, hnone, Option.elim_none, Nat.zero_add, if_pos hsize, hfin, Bool.false_and, Bool.false_and,
      if_neg Bool.false_ne_true, run_hearFragment, hgather]
    dsimp only
    rw [if_pos hcount, hfin, if_neg Bool.false_ne_true]
  refine ⟨{ c with fragments := some (frame.opcode, frame.payload), fragmentCount := 1 }, ?_,
    ⟨⟨h.shut, h.outcomes, h.keys⟩, rfl, rfl, rfl, rfl⟩⟩
  rw [hear]
  rcases hopcode with hopcode | hopcode <;> rw [hopcode] at hdata ⊢ <;> exact hdata

theorem hear_further {frame : Frame} {opcode : Opcode} {payload : Octets} (h : c.Able)
    (hopcode : frame.opcode = .continuation) (hfin : frame.fin = false)
    (hsize : payload.length + frame.payload.length ≤ c.limits.maxMessageSize)
    (hcount : c.fragmentCount + 1 ≤ c.limits.wsMaxFragments) (hsome : c.fragments = some (opcode, payload)) :
    ∃ c', (hear frame).run c = (.ok none, c') ∧
      c.Onward (some (opcode, payload ++ frame.payload), c.fragmentCount + 1) [] c' := by
  have hdata : (hearData frame).run c = (.ok none,
      { c with fragments := some (opcode, payload ++ frame.payload), fragmentCount := c.fragmentCount + 1 }) := by
    have hgather : (gather frame).run c = (.ok opcode,
        { c with fragments := some (opcode, payload ++ frame.payload), fragmentCount := c.fragmentCount + 1 }) := by
      rw [run_gather, hsome, hopcode]
    rw [run_hearData, pending, hsome, Option.elim_some, if_pos hsize, hfin, Bool.false_and, Bool.false_and,
      if_neg Bool.false_ne_true, run_hearFragment, hgather]
    dsimp only
    rw [if_pos hcount, hfin, if_neg Bool.false_ne_true]
  refine ⟨{ c with fragments := some (opcode, payload ++ frame.payload), fragmentCount := c.fragmentCount + 1 }, ?_,
    ⟨⟨h.shut, h.outcomes, h.keys⟩, rfl, rfl, rfl, rfl⟩⟩
  rw [hear, hopcode]
  exact hdata

/-- A frame that carries on leaves the connection with what there is of the message so far, and a ping answered. -/
theorem hear_carry {frame : Frame} {after : Gathered} (h : c.Able) (hcarry : carry c.limits c.gathered frame = some after) :
    ∃ c', (hear frame).run c = (.ok none, c') ∧ c.Onward after (pings [frame]) c' := by
  cases hopcode : frame.opcode with
  | continuation =>
    have hpings : pings [frame] = [] := by simp [pings, hopcode]
    rw [carry, gathered, hopcode] at hcarry
    cases hfragments : c.fragments with
    | none =>
      rw [hfragments] at hcarry
      cases hcarry
    | some message =>
      obtain ⟨opcode, payload⟩ := message
      rw [hfragments] at hcarry
      dsimp only at hcarry
      split_ifs at hcarry with hfits
      cases hcarry
      rw [hpings]
      exact hear_further h hopcode hfits.1 hfits.2.1 hfits.2.2 hfragments
  | text | binary =>
    have hpings : pings [frame] = [] := by simp [pings, hopcode]
    rw [carry, gathered, hopcode] at hcarry
    cases hfragments : c.fragments with
    | none =>
      rw [hfragments] at hcarry
      dsimp only at hcarry
      split_ifs at hcarry with hfits
      cases hcarry
      rw [hpings, ← hopcode]
      exact hear_first h (by simp [hopcode]) hfits.1 hfits.2.1 hfits.2.2 hfragments
    | some message =>
      rw [hfragments] at hcarry
      cases hcarry
  | close =>
    rw [carry, gathered, hopcode] at hcarry
    cases hfragments : c.fragments <;> rw [hfragments] at hcarry <;> cases hcarry
  | ping =>
    obtain ⟨mask, outcomes, keys, hsend, houtcomes, hkeys⟩ := send_able (.new .pong frame.payload) h
    refine ⟨{ c with
      outcomes := outcomes
      keys := keys
      passed := .sent { Frame.new .pong frame.payload with mask := mask } :: c.passed }, ?_,
      ⟨⟨h.shut, houtcomes, hkeys⟩, rfl, rfl, ?_, ?_⟩⟩
    · rw [hear, hopcode]
      dsimp only
      rw [Act.run_map, hsend]
      rfl
    · rw [carry, hopcode] at hcarry
      cases hcarry
      rfl
    · simp [pings, pongs, hopcode, Frame.new]
  | pong =>
    refine ⟨c, ?_, ⟨h, rfl, rfl, ?_, ?_⟩⟩
    · rw [hear, hopcode]
      rfl
    · rw [carry, hopcode] at hcarry
      cases hcarry
      rfl
    · simp [pings, hopcode]

/-! ## Frames on their way -/

/-- A source gives a frame, and is another one then. -/
def Gives (max : ℕ) (s : Source Error UInt8) (frame : Frame) (s' : Source Error UInt8) : Prop :=
  ∃ s₁, s.await (look max) (.error .closed) = (.ok (frame.encode.length, frame), s₁) ∧ s₁.consume frame.encode.length = s'

/-- A source gives frames, one after the other. -/
inductive GivesAll (max : ℕ) : Source Error UInt8 → List Frame → Source Error UInt8 → Prop
  | nil {s : Source Error UInt8} : GivesAll max s [] s
  | cons {s s₁ s' : Source Error UInt8} {frame : Frame} {frames : List Frame} (first : Gives max s frame s₁)
      (rest : GivesAll max s₁ frames s') : GivesAll max s (frame :: frames) s'

/-- A frame that can be written and may be. -/
structure Sendable (frame : Frame) : Prop where
  length : frame.payload.length < 2 ^ 63
  control : FrameHead.verifyControl frame.opcode frame.fin frame.payload.length = .ok ()

theorem decode_sendable {frame : Frame} (h : Sendable frame) (rest : Octets) :
    Frame.decode (frame.encode ++ rest) = .ok (some (frame.encode.length, frame)) := by
  rw [Frame.decode_encode h.length, h.control]
  rfl

/-- Frames that are at hand are given as they are. -/
theorem givesAll_ahead (max : ℕ) {frames : List Frame} (h : ∀ frame ∈ frames, Sendable frame) (more : Octets) (eof : Bool)
    (reads : List (Except Error Octets)) :
    GivesAll max ⟨octets frames ++ more, eof, reads⟩ frames ⟨more, eof, reads⟩ := by
  induction frames with
  | nil => exact .nil
  | cons frame frames ih =>
    obtain ⟨hframe, hrest⟩ := List.forall_mem_cons.1 h
    have hdata : octets (frame :: frames) ++ more = frame.encode ++ (octets frames ++ more) := by
      rw [octets, List.map_cons, List.flatten_cons, List.append_assoc]
      rfl
    refine .cons ⟨⟨octets (frame :: frames) ++ more, eof, reads⟩, ?_, ?_⟩ (ih hrest)
    · rw [await, look]
      dsimp only
      rw [hdata, decode_sendable hframe]
    · rw [consume]
      dsimp only
      rw [hdata, List.drop_left]

theorem clear_of_shown {max : ℕ} {frame : Frame} (h : frame.payload.length < 2 ^ 63) (hshown : frame.shown ≤ max + 1)
    (rest : Octets) : Clear max (frame.encode ++ rest) := by
  refine .inr fun front hfront hdecode => ?_
  have := (Frame.decode_shown h hfront).1 hdecode
  omega

/-- Frames that are clear of the limit are given as they are, however they are cut. -/
theorem givesAll_clear {max : ℕ} {frames : List Frame} (h : ∀ frame ∈ frames, Sendable frame)
    (hshown : ∀ frame ∈ frames, frame.shown ≤ max + 1) {more : Octets} (hs : s.Delivers (octets frames ++ more)) :
    ∃ s', GivesAll max s frames s' ∧ s'.Delivers more := by
  induction frames generalizing s with
  | nil => exact ⟨s, .nil, hs⟩
  | cons frame frames ih =>
    obtain ⟨hframe, hrest⟩ := List.forall_mem_cons.1 h
    obtain ⟨hfirst, hothers⟩ := List.forall_mem_cons.1 hshown
    have hdata : octets (frame :: frames) ++ more = frame.encode ++ (octets frames ++ more) := by
      rw [octets, List.map_cons, List.flatten_cons, List.append_assoc]
      rfl
    rw [hdata] at hs
    have hread := await_of_steady (steady_of_clear (clear_of_shown hframe.length hfirst _)) hs
    have hlook : look max (frame.encode ++ (octets frames ++ more)) = some (.ok (frame.encode.length, frame)) := by
      rw [look, decode_sendable hframe]
    rcases hawait : s.await (look max) (.error .closed) with ⟨answer, s₁⟩
    rw [hawait] at hread
    have hanswer := hread.answer
    rw [hlook] at hanswer
    cases hanswer
    have hthere := await_accepted (congrArg Prod.fst hawait)
    rw [hawait] at hthere
    have hrest' := hread.delivers.consume (Frame.decode_bounds (look_eq_ok hthere)).2
    rw [List.drop_left] at hrest'
    obtain ⟨s', hgives, hs'⟩ := ih hrest hothers hrest'
    exact ⟨s', .cons ⟨s₁, hawait, rfl⟩ hgives, hs'⟩

theorem listen_gives {frame : Frame} {s' : Source Error UInt8} (h : Gives c.limits.maxMessageSize s frame s') :
    listen.run (c.fed s) = if c.role.isClient != frame.mask.isSome then (hear frame).run ((c.taken frame).fed s')
    else (.error (wrongMask frame), c.fed s') := by
  obtain ⟨s₁, hawait, rfl⟩ := h
  exact run_listen hawait

theorem Onward.trans {c₁ c₂ : WebSocketConnection} {gathered gathered' : Gathered} {answers answers' : List Octets}
    (h : c.Onward gathered answers c₁) (h' : c₁.Onward gathered' answers' c₂) : c.Onward gathered' (answers' ++ answers) c₂ where
  able := h'.able
  role := h'.role.trans h.role
  limits := h'.limits.trans h.limits
  gathered := h'.gathered
  pongs := by rw [h'.pongs, h.pongs, List.append_assoc]

/-- Frames that carry on are heard one after the other, and then what is behind them. -/
theorem receive_carried {frames : List Frame} {s' : Source Error UInt8} {after : Gathered} (h : c.Able)
    (hgives : GivesAll c.limits.maxMessageSize s frames s') (hmasks : ∀ frame ∈ frames, c.Masked frame)
    (hcarry : frames.foldlM (carry c.limits) c.gathered = some after) : ∃ c', c.Onward after (pings frames).reverse c' ∧
      receiveMessage.run (c.fed s) = receiveMessage.run (c'.fed s') := by
  induction frames generalizing c s with
  | nil =>
    cases hgives
    cases hcarry
    exact ⟨c, ⟨h, rfl, rfl, rfl, rfl⟩, rfl⟩
  | cons frame frames ih =>
    obtain ⟨hmask, hothers⟩ := List.forall_mem_cons.1 hmasks
    cases hgives with
    | @cons _ s₁ _ _ _ hfirst hrest =>
      obtain ⟨between, hcarried, hcarry⟩ := Option.bind_eq_some_iff.1 hcarry
      obtain ⟨c₁, hhear, honward⟩ := hear_carry (c := c.taken frame) ⟨h.shut, h.outcomes, h.keys⟩ hcarried
      have hlisten : listen.run (c.fed s) = (.ok none, c₁.fed s₁) := by
        rw [listen_gives hfirst]
        exact (if_pos hmask).trans ((unread_hear frame (c.taken frame) s₁).2 none c₁ hhear)
      have hon : c.Onward between (pings [frame]) c₁ :=
        ⟨honward.able, honward.role, honward.limits, honward.gathered, honward.pongs⟩
      rw [← hon.limits] at hrest
      obtain ⟨c', honward', hrun⟩ := ih hon.able hrest
        (fun frame hmem => by rw [Masked, hon.role]; exact hothers frame hmem)
        (by rw [hon.limits, hon.gathered]; exact hcarry)
      refine ⟨c', ?_, ?_⟩
      · have hpings : (pings (frame :: frames)).reverse = (pings frames).reverse ++ pings [frame] := by
          rw [pings, pings, pings]
          by_cases hping : frame.opcode = .ping <;> simp [hping]
        rw [hpings]
        exact hon.trans honward'
      · rw [run_receiveMessage, hlisten]
        exact hrun

/-! ## Scripts -/

/-- The beginning of a message is as it should be and within the limits. -/
structure WellBegun (c : WebSocketConnection) (script : Script) : Prop where
  opcode : script.opcode = .text ∨ script.opcode = .binary
  between : ∀ fragment ∈ script.fragments, ∀ frame ∈ fragment.before, frame.Interlude
  before : ∀ frame ∈ script.before, frame.Interlude
  masks : ∀ frame ∈ script.going, c.Masked frame
  lengths : ∀ frame ∈ script.frames, frame.payload.length < 2 ^ 63
  size : script.payload.length ≤ c.limits.maxMessageSize
  count : script.fragments.length ≤ c.limits.wsMaxFragments

/-- The last frame ends the message, within the limits. -/
structure Completes (c : WebSocketConnection) (script : Script) : Prop where
  fin : script.last.fin = true
  opcode : script.last.opcode = if script.fragments = [] then script.opcode else .continuation
  mask : c.Masked script.last
  size : script.payload.length + script.last.payload.length ≤ c.limits.maxMessageSize
  count : script.fragments.length + 1 ≤ c.limits.wsMaxFragments

/-- The last frame is out of place: it is masked the wrong way round, it is a control frame that may not be, it
    continues a message that has not begun, or it begins one inside another. -/
def Misplaced (c : WebSocketConnection) (script : Script) : Prop :=
  ¬c.Masked script.last ∨
    (script.last.opcode.control = true ∧ (script.last.fin = false ∨ MAXIMUM_CONTROL_PAYLOAD < script.last.payload.length)) ∨
    script.payload.length + script.last.payload.length ≤ c.limits.maxMessageSize ∧
      if script.fragments = [] then script.last.opcode = .continuation
      else script.last.opcode = .text ∨ script.last.opcode = .binary

theorem carry_interludes (limits : WebSocketLimits) (gathered : Gathered) {frames : List Frame}
    (h : ∀ frame ∈ frames, frame.Interlude) : frames.foldlM (carry limits) gathered = some gathered := by
  induction frames with
  | nil => rfl
  | cons frame frames ih =>
    obtain ⟨⟨hopcode, -⟩, hrest⟩ := List.forall_mem_cons.1 h
    have hcarry : carry limits gathered frame = some gathered := by
      rw [carry]
      rcases hopcode with hopcode | hopcode <;> rw [hopcode]
    rw [List.foldlM_cons, hcarry]
    exact ih hrest

theorem carry_continuations (limits : WebSocketLimits) {fragments : List Fragment} {opcode : Opcode} {payload : Octets}
    {count : ℕ} (hbetween : ∀ fragment ∈ fragments, ∀ frame ∈ fragment.before, frame.Interlude)
    (hsize : (payload ++ (fragments.map (·.payload)).flatten).length ≤ limits.maxMessageSize)
    (hcount : count + fragments.length ≤ limits.wsMaxFragments) :
    (unfinished .continuation fragments).foldlM (carry limits) (some (opcode, payload), count) =
      some (some (opcode, payload ++ (fragments.map (·.payload)).flatten), count + fragments.length) := by
  induction fragments generalizing payload count with
  | nil =>
    rw [List.map_nil, List.flatten_nil, List.append_nil]
    rfl
  | cons fragment fragments ih =>
    obtain ⟨hbefore, hrest⟩ := List.forall_mem_cons.1 hbetween
    rw [List.map_cons, List.flatten_cons, ← List.append_assoc] at hsize ⊢
    rw [List.length_cons] at hcount ⊢
    have hfits : (payload ++ fragment.payload).length ≤ limits.maxMessageSize := by
      rw [List.length_append] at hsize
      omega
    rw [List.length_append] at hfits
    have hcarry : carry limits (some (opcode, payload), count) ⟨false, .continuation, fragment.mask, fragment.payload⟩ =
        some (some (opcode, payload ++ fragment.payload), count + 1) := by
      rw [carry]
      dsimp only
      rw [if_pos ⟨rfl, hfits, by omega⟩]
    rw [unfinished, List.foldlM_append, carry_interludes _ _ hbefore]
    change List.foldlM (carry limits) (some (opcode, payload), count) (_ :: _) = _
    rw [List.foldlM_cons, hcarry]
    refine (ih hrest hsize (by omega)).trans ?_
    rw [Nat.add_right_comm, Nat.add_assoc count]

theorem carry_going {script : Script} (h : c.WellBegun script) (hnone : c.fragments = none) :
    script.going.foldlM (carry c.limits) c.gathered = some (script.gathered c.fragmentCount) := by
  have hunfinished : (unfinished script.opcode script.fragments).foldlM (carry c.limits) c.gathered =
      some (script.gathered c.fragmentCount) := by
    have hsize := h.size
    have hcount := h.count
    have hbetween := h.between
    rw [Script.payload] at hsize
    rw [gathered, hnone, Script.gathered, Script.payload]
    cases hfragments : script.fragments with
    | nil => rfl
    | cons fragment fragments =>
      rw [hfragments] at hsize hcount hbetween
      obtain ⟨hbefore, hrest⟩ := List.forall_mem_cons.1 hbetween
      rw [List.map_cons, List.flatten_cons] at hsize ⊢
      rw [List.length_cons] at hcount ⊢
      have hfits : fragment.payload.length ≤ c.limits.maxMessageSize := by
        rw [List.length_append] at hsize
        omega
      have hcarry : carry c.limits (none, c.fragmentCount) ⟨false, script.opcode, fragment.mask, fragment.payload⟩ =
          some (some (script.opcode, fragment.payload), 1) := by
        have hfirst : false = false ∧ fragment.payload.length ≤ c.limits.maxMessageSize ∧ 1 ≤ c.limits.wsMaxFragments :=
          ⟨rfl, hfits, by omega⟩
        rw [carry]
        dsimp only
        rcases h.opcode with hopcode | hopcode <;> rw [hopcode] <;> exact if_pos hfirst
      rw [unfinished, List.foldlM_append, carry_interludes _ _ hbefore]
      change List.foldlM (carry c.limits) (none, c.fragmentCount) (_ :: _) = _
      rw [List.foldlM_cons, hcarry, if_neg (List.cons_ne_nil _ _), Nat.add_comm fragments.length]
      exact carry_continuations c.limits hrest hsize (by omega)
  rw [Script.going, List.foldlM_append, hunfinished]
  exact carry_interludes _ _ h.before

theorem sendable_interlude {frame : Frame} (h : frame.Interlude) : Sendable frame := by
  obtain ⟨hopcode, hfin, hlength⟩ := h
  refine ⟨hlength.trans_lt (by decide), ?_⟩
  have hcontrol : frame.opcode.control = true := by
    rcases hopcode with hopcode | hopcode <;> rw [hopcode] <;> rfl
  rw [FrameHead.verifyControl, if_pos hcontrol, if_neg (Nat.not_lt.2 hlength), hfin]
  rfl

theorem sendable_unfinished {opcode : Opcode} {fragments : List Fragment} (hopcode : opcode.control = false)
    (hbetween : ∀ fragment ∈ fragments, ∀ frame ∈ fragment.before, frame.Interlude)
    (hlengths : ∀ frame ∈ unfinished opcode fragments, frame.payload.length < 2 ^ 63) :
    ∀ frame ∈ unfinished opcode fragments, Sendable frame := by
  induction fragments generalizing opcode with
  | nil => exact fun frame hmem => absurd hmem List.not_mem_nil
  | cons fragment fragments ih =>
    obtain ⟨hbefore, hrest⟩ := List.forall_mem_cons.1 hbetween
    rw [unfinished, List.forall_mem_append, List.forall_mem_cons] at hlengths ⊢
    obtain ⟨-, hfirst, hothers⟩ := hlengths
    refine ⟨fun frame hmem => sendable_interlude (hbefore frame hmem), ⟨hfirst, ?_⟩, ih rfl hrest hothers⟩
    rw [FrameHead.verifyControl, if_neg (by rw [hopcode]; exact Bool.false_ne_true)]

/-- Every frame before the last can be written and may be. -/
theorem sendable_going {script : Script} (h : c.WellBegun script) : ∀ frame ∈ script.going, Sendable frame := by
  intro frame hmem
  obtain hmem' | hmem' := List.mem_append.1 hmem
  · refine sendable_unfinished ?_ h.between (fun frame hmem => ?_) frame hmem'
    · rcases h.opcode with hopcode | hopcode <;> rw [hopcode] <;> rfl
    · exact h.lengths frame (List.mem_append_left _ (List.mem_append_left _ hmem))
  · exact sendable_interlude (h.before frame hmem')

/-! ## The last frame -/

/-- A step that answers no ping. -/
abbrev Unanswering {α : Type} (m : Step α) : Prop := Act.Keeps (fun c c' => pongs c'.passed = pongs c.passed) m

theorem unanswering_send {frame : Frame} (h : frame.opcode ≠ .pong) : Unanswering (send frame) := by
  refine Act.Keeps.bind (fun h h' => h'.trans h) (fun c => ?_) fun mask c => ?_
  · rw [run_masking]
    split_ifs
    · split <;> rfl
    · rfl
  · rw [run_write]
    split_ifs
    · rfl
    · simp [pongs, h]
    · simp [pongs, h]

theorem unanswering_receive : Unanswering receive := by
  intro c
  rw [run_receive]
  rcases c.source.await (look c.limits.maxMessageSize) (.error .closed) with ⟨error | ⟨count, frame⟩, source⟩
  · rfl
  · dsimp only
    rw [run_take]
    split_ifs <;> rfl

theorem unanswering_linger (fuel : ℕ) : Unanswering (linger fuel) := by
  induction fuel with
  | zero => exact fun _ => rfl
  | succ fuel ih =>
    intro c
    have hreceive := unanswering_receive c
    rw [run_linger]
    rcases hrun : receive.run c with ⟨error | frame, c'⟩ <;> rw [hrun] at hreceive
    · exact hreceive
    · dsimp only
      split_ifs
      · exact hreceive
      · exact (ih c').trans hreceive

theorem unanswering_close (code : CloseCode) (reason : Text) : Unanswering (close code reason) := by
  intro c
  rw [run_close]
  split_ifs
  · rfl
  · have hsend : Unanswering (send (.new .close (bytes 2 code.code ++ WebSocketConnection.reason reason))) :=
      unanswering_send fun h => (by cases h)
    have hsent := hsend { c with closing := true }
    rcases hrun : (send (.new .close (bytes 2 code.code ++ WebSocketConnection.reason reason))).run
      { c with closing := true } with ⟨error | _, c'⟩ <;> rw [hrun] at hsent
    · exact hsent
    · exact (unanswering_linger _ c').trans hsent

theorem deliver_verdict (opcode : Opcode) (payload : Octets) (c : WebSocketConnection) : ∃ c',
    (deliver opcode payload).run c = ((verdict opcode payload).map some, c') ∧ pongs c'.passed = pongs c.passed := by
  rw [deliver, verdict]
  split_ifs
  · have hclose := close_ok .invalidPayload (.lit "invalid utf-8") c
    have hquiet := unanswering_close .invalidPayload (.lit "invalid utf-8") c
    rw [Act.run_bind]
    rcases hrun : (close .invalidPayload (.lit "invalid utf-8")).run c with ⟨error | _, c'⟩ <;>
      rw [hrun] at hclose hquiet
    · cases hclose
    · exact ⟨c', rfl, hquiet⟩
  · exact ⟨c, rfl, rfl⟩

/-- The frame that ends a message makes the whole of it. -/
theorem hear_completes {script : Script} {count : ℕ} (hopcode : script.opcode = .text ∨ script.opcode = .binary)
    (h : c.Completes script) (hgathered : c.gathered = script.gathered count) : ∃ c', (hear script.last).run c =
      ((verdict script.opcode (script.payload ++ script.last.payload)).map some, c') ∧ pongs c'.passed = pongs c.passed := by
  obtain ⟨hfin, hlast, -, hsize, hcount⟩ := h
  have hdata : ∃ c', (hearData script.last).run c =
      ((verdict script.opcode (script.payload ++ script.last.payload)).map some, c') ∧ pongs c'.passed = pongs c.passed := by
    rw [gathered, Script.gathered] at hgathered
    rw [run_hearData, pending]
    by_cases hempty : script.fragments = []
    · rw [if_pos hempty] at hgathered hlast
      obtain ⟨hfragments, -⟩ := Prod.ext_iff.1 hgathered
      dsimp only at hfragments
      have hpayload : script.payload = [] := by rw [Script.payload, hempty]; rfl
      have hkind : (script.opcode != .continuation) = true := by
        rcases hopcode with hopcode | hopcode <;> rw [hopcode] <;> rfl
      rw [hpayload, List.length_nil] at hsize
      rw [hpayload, hfragments, Option.elim_none, if_pos hsize, hfin, hlast, hkind]
      exact deliver_verdict _ _ c
    · rw [if_neg hempty] at hgathered hlast
      obtain ⟨hfragments, hcounted⟩ := Prod.ext_iff.1 hgathered
      dsimp only at hfragments hcounted
      have hgather : (gather script.last).run c = (.ok script.opcode, { c with
          fragments := some (script.opcode, script.payload ++ script.last.payload)
          fragmentCount := script.fragments.length + 1 }) := by
        rw [run_gather, hfragments, hlast, hcounted]
      rw [hfragments, Option.elim_some, if_pos hsize, hlast, run_hearFragment, hgather, hfin, if_neg]
      · dsimp only
        rw [if_pos hcount, if_pos rfl, Act.run_bind, run_ungather]
        exact deliver_verdict _ _ _
      · exact fun hcontra => (by cases hcontra)
  have hcontrol : script.last.opcode.control = false := by
    rw [hlast]
    split_ifs
    · rcases hopcode with hopcode | hopcode <;> rw [hopcode] <;> rfl
    · rfl
  rw [hear]
  rcases Opcode.data_cases hcontrol with hkind | hkind | hkind <;> rw [hkind] <;> exact hdata

/-- A frame that is out of place among those of a message is refused. -/
theorem hear_disorder {script : Script} {count : ℕ} (hgathered : c.gathered = script.gathered count)
    (hsize : script.payload.length + script.last.payload.length ≤ c.limits.maxMessageSize)
    (horder : if script.fragments = [] then script.last.opcode = .continuation
      else script.last.opcode = .text ∨ script.last.opcode = .binary) :
    ∃ reason, (hear script.last).run c = (.error (.protocol reason []), c) := by
  rw [gathered, Script.gathered] at hgathered
  by_cases hempty : script.fragments = []
  · rw [if_pos hempty] at hgathered horder
    obtain ⟨hfragments, -⟩ := Prod.ext_iff.1 hgathered
    dsimp only at hfragments
    have hpayload : script.payload = [] := by rw [Script.payload, hempty]; rfl
    have hgather : (gather script.last).run c = (.error (.protocol "a continuation frame began a message" []), c) := by
      rw [run_gather, hfragments, horder]
    have hdata : (hearData script.last).run c = (.error (.protocol "a continuation frame began a message" []), c) := by
      rw [hpayload, List.length_nil] at hsize
      rw [run_hearData, pending, hfragments, Option.elim_none, if_pos hsize, horder, run_hearFragment, hgather, if_neg]
      rw [Bool.and_eq_true]
      exact fun hcontra => (by cases hcontra.2)
    refine ⟨"a continuation frame began a message", ?_⟩
    rw [hear, horder]
    exact hdata
  · rw [if_neg hempty] at hgathered horder
    obtain ⟨hfragments, -⟩ := Prod.ext_iff.1 hgathered
    dsimp only at hfragments
    have hgather : (gather script.last).run c =
        (.error (.protocol "a new message began before the last one ended" []), c) := by
      rw [run_gather, hfragments]
      rcases horder with horder | horder <;> rw [horder]
    have hdata : (hearData script.last).run c =
        (.error (.protocol "a new message began before the last one ended" []), c) := by
      rw [run_hearData, pending, hfragments, Option.elim_some, if_pos hsize, run_hearFragment, hgather, if_neg]
      rw [Option.isNone_some, Bool.and_false, Bool.false_and]
      exact Bool.false_ne_true
    refine ⟨"a new message began before the last one ended", ?_⟩
    rw [hear]
    rcases horder with horder | horder <;> rw [horder] <;> exact hdata

/-- What comes of a script: the message if the last frame ends it, a breach of the protocol if that is out of place,
    and every ping before it answered. -/
structure Plays (c : WebSocketConnection) (script : Script)
    (result : Except Error (Opcode × Octets) × WebSocketConnection) : Prop where
  message : c.Completes script → result.1 = verdict script.opcode (script.payload ++ script.last.payload)
  refusal : c.Misplaced script → ∃ reason quoted, result.1 = .error (.protocol reason quoted)
  pongs : pongs result.2.passed = (pings script.going).reverse ++ WebSocket.pongs c.passed

theorem verifyControl_error {opcode : Opcode} {fin : Bool} {length : ℕ} {error : Error}
    (h : FrameHead.verifyControl opcode fin length = .error error) :
    opcode.control = true ∧ (fin = false ∨ MAXIMUM_CONTROL_PAYLOAD < length) := by
  rw [FrameHead.verifyControl] at h
  split_ifs at h with hcontrol hlarge hfin
  · exact ⟨hcontrol, .inr hlarge⟩
  · refine ⟨hcontrol, .inl ?_⟩
    cases fin
    · rfl
    · cases hfin

theorem verifyControl_ok {opcode : Opcode} {fin : Bool} {length : ℕ}
    (h : FrameHead.verifyControl opcode fin length = .ok ()) :
    ¬(opcode.control = true ∧ (fin = false ∨ MAXIMUM_CONTROL_PAYLOAD < length)) := by
  rw [FrameHead.verifyControl] at h
  split_ifs at h with hcontrol hlarge hfin
  · rintro ⟨-, hfragmented | hlong⟩
    · exact hfin (by rw [hfragmented]; rfl)
    · exact hlarge hlong
  · exact fun hrefused => hcontrol hrefused.1

theorem Completes.data {script : Script} (hopcode : script.opcode = .text ∨ script.opcode = .binary)
    (h : c.Completes script) : script.last.opcode.control = false := by
  rw [h.opcode]
  split_ifs
  · rcases hopcode with hopcode | hopcode <;> rw [hopcode] <;> rfl
  · rfl

/-- A frame that ends a message is not out of place. -/
theorem Completes.not_misplaced {script : Script} (hopcode : script.opcode = .text ∨ script.opcode = .binary)
    (h : c.Completes script) : ¬c.Misplaced script := by
  rintro (hmask | ⟨hcontrol, -⟩ | ⟨-, horder⟩)
  · exact hmask h.mask
  · rw [h.data hopcode] at hcontrol
    cases hcontrol
  · have hlast := h.opcode
    by_cases hempty : script.fragments = []
    · rw [if_pos hempty] at hlast horder
      rw [hlast] at horder
      rcases hopcode with hopcode | hopcode <;> rw [hopcode] at horder <;> cases horder
    · rw [if_neg hempty] at hlast horder
      rw [hlast] at horder
      rcases horder with horder | horder <;> cases horder

/-- There is no other order: a frame behind the beginning of a message, if it is within the limits, carries it on,
    ends it, is a Close, or is out of place. A message of one frame is of that frame's kind. -/
theorem order_cases {script : Script} {count : ℕ} (hkind : script.fragments = [] → script.opcode = script.last.opcode)
    (hsize : script.payload.length + script.last.payload.length ≤ c.limits.maxMessageSize)
    (hcount : script.fragments.length + 1 ≤ c.limits.wsMaxFragments) :
    (carry c.limits (script.gathered count) script.last).isSome ∨ c.Completes script ∨ script.last.opcode = .close ∨
      c.Misplaced script := by
  by_cases hmask : c.Masked script.last
  · cases hlast : script.last.opcode with
    | close => exact .inr (.inr (.inl rfl))
    | ping | pong =>
      left
      rw [carry, hlast]
      rfl
    | continuation =>
      by_cases hempty : script.fragments = []
      · exact .inr (.inr (.inr (.inr (.inr ⟨hsize, by rw [if_pos hempty]; exact hlast⟩))))
      · cases hfin : script.last.fin with
        | true => exact .inr (.inl ⟨hfin, by rw [if_neg hempty]; exact hlast, hmask, hsize, hcount⟩)
        | false =>
          left
          rw [carry, Script.gathered, if_neg hempty, hlast]
          dsimp only
          rw [if_pos ⟨hfin, hsize, hcount⟩]
          rfl
    | text | binary =>
      by_cases hempty : script.fragments = []
      · cases hfin : script.last.fin with
        | true => exact .inr (.inl ⟨hfin, by rw [if_pos hempty]; exact (hkind hempty).symm, hmask, hsize, hcount⟩)
        | false =>
          left
          have hpayload : script.payload = [] := by rw [Script.payload, hempty]; rfl
          rw [hpayload, List.length_nil, Nat.zero_add] at hsize
          rw [carry, Script.gathered, if_pos hempty, hlast]
          dsimp only
          rw [if_pos ⟨hfin, hsize, (Nat.le_add_left _ _).trans hcount⟩]
          rfl
      · exact .inr (.inr (.inr (.inr (.inr ⟨hsize, by rw [if_neg hempty]; simp [hlast]⟩))))
  · exact .inr (.inr (.inr (.inl hmask)))

/-- What is refused as a breach of the protocol is what is out of place. -/
theorem plays_refused {script : Script} {result : Except Error (Opcode × Octets) × WebSocketConnection} {reason : String}
    {quoted : List Quoted} (hresult : result.1 = .error (.protocol reason quoted)) (hnot : ¬c.Completes script)
    (hpongs : pongs result.2.passed = (pings script.going).reverse ++ pongs c.passed) : c.Plays script result where
  message h := absurd h hnot
  refusal _ := ⟨reason, quoted, hresult⟩
  pongs := hpongs

/-- What comes of the last frame of a script, once it is given. -/
theorem plays_last {script : Script} {s' : Source Error UInt8} {count : ℕ} (hbegun : c.WellBegun script)
    (hlast : c.Completes script ∨ c.Misplaced script) (honward : c.Onward (script.gathered count) (pings script.going).reverse c')
    (hcontrol : FrameHead.verifyControl script.last.opcode script.last.fin script.last.payload.length = .ok ())
    (hgives : Gives c.limits.maxMessageSize s script.last s') : c.Plays script (receiveMessage.run (c'.fed s)) := by
  rw [← honward.limits] at hgives
  have hlisten := listen_gives hgives
  rw [honward.role] at hlisten
  by_cases hmask : c.Masked script.last
  · replace hlisten := hlisten.trans (if_pos hmask)
    have hgathered : ((c'.taken script.last).fed s').gathered = script.gathered count := honward.gathered
    by_cases hcompletes : c.Completes script
    · have hcompletes' : ((c'.taken script.last).fed s').Completes script := by
        obtain ⟨hfin, hopcode, hright, hsize, hcount⟩ := hcompletes
        rw [← honward.limits] at hsize hcount
        rw [Masked, ← honward.role] at hright
        exact ⟨hfin, hopcode, hright, hsize, hcount⟩
      obtain ⟨c₁, hhear, hpongs⟩ := hear_completes hbegun.opcode hcompletes' hgathered
      rw [hhear] at hlisten
      have hrun : receiveMessage.run (c'.fed s) = (verdict script.opcode (script.payload ++ script.last.payload), c₁) := by
        rw [run_receiveMessage, hlisten]
        cases verdict script.opcode (script.payload ++ script.last.payload) <;> rfl
      rw [hrun]
      exact ⟨fun _ => rfl, fun hnot => absurd hnot (hcompletes.not_misplaced hbegun.opcode), hpongs.trans honward.pongs⟩
    · obtain hnot | hbad | ⟨hsize, horder⟩ := hlast.resolve_left hcompletes
      · exact absurd hmask hnot
      · exact absurd hbad (verifyControl_ok hcontrol)
      · rw [← honward.limits] at hsize
        obtain ⟨reason, hhear⟩ := hear_disorder hgathered hsize horder
        rw [hhear] at hlisten
        have hrun : receiveMessage.run (c'.fed s) = (.error (.protocol reason []), (c'.taken script.last).fed s') := by
          rw [run_receiveMessage, hlisten]
        rw [hrun]
        exact plays_refused rfl hcompletes honward.pongs
  · replace hlisten := hlisten.trans (if_neg hmask)
    have hrun : receiveMessage.run (c'.fed s) = (.error (wrongMask script.last), c'.fed s') := by
      rw [run_receiveMessage, hlisten]
    obtain ⟨reason, quoted, hwrong⟩ : ∃ reason quoted, wrongMask script.last = .protocol reason quoted := by
      rw [wrongMask]
      split <;> exact ⟨_, _, rfl⟩
    rw [hrun, hwrong]
    exact plays_refused rfl (fun h => hmask h.mask) honward.pongs

/-- What comes of a script whose frames are clear of the limit. -/
theorem plays_of_shown {script : Script} (hable : c.Able) (hnone : c.fragments = none) (hbegun : c.WellBegun script)
    (hlast : c.Completes script ∨ c.Misplaced script) (hshown : ∀ frame ∈ script.frames, frame.shown ≤ c.limits.maxMessageSize + 1)
    {rest : Octets} (hs : s.Delivers (octets script.frames ++ rest)) : c.Plays script (receiveMessage.run (c.fed s)) := by
  have hoctets : octets script.frames ++ rest = octets script.going ++ (script.last.encode ++ rest) := by
    rw [octets, Script.frames, List.map_append, List.flatten_append, List.map_singleton, List.flatten_singleton,
      List.append_assoc]
    rfl
  rw [hoctets] at hs
  rw [Script.frames, List.forall_mem_append, List.forall_mem_singleton] at hshown
  obtain ⟨s₁, hgives, hs₁⟩ := givesAll_clear (sendable_going hbegun) hshown.1 hs
  obtain ⟨c', honward, hrun⟩ := receive_carried hable hgives hbegun.masks (carry_going hbegun hnone)
  have hlength : script.last.payload.length < 2 ^ 63 :=
    hbegun.lengths _ (List.mem_append_right _ (List.mem_singleton_self _))
  rw [hrun]
  cases hcontrol : FrameHead.verifyControl script.last.opcode script.last.fin script.last.payload.length with
  | ok _ =>
    have hsendable : ∀ frame ∈ [script.last], Sendable frame := List.forall_mem_singleton.2 ⟨hlength, hcontrol⟩
    have hdelivers : s₁.Delivers (octets [script.last] ++ rest) := by
      rw [octets, List.map_singleton, List.flatten_singleton]
      exact hs₁
    obtain ⟨s', hgives', -⟩ := givesAll_clear hsendable (List.forall_mem_singleton.2 hshown.2) hdelivers
    cases hgives' with
    | cons hfirst _ => exact plays_last hbegun hlast honward hcontrol hfirst
  | error error =>
    have hread := await_of_steady (steady_of_clear (clear_of_shown hlength hshown.2 rest)) hs₁
    have hlook : look c.limits.maxMessageSize (script.last.encode ++ rest) = some (.error error) := by
      rw [look, Frame.decode_encode hlength, hcontrol]
      rfl
    rcases hawait : s₁.await (look c.limits.maxMessageSize) (.error .closed) with ⟨answer, s₂⟩
    have hanswer := hread.answer
    rw [hawait, hlook] at hanswer
    dsimp only at hanswer
    rw [hanswer, ← honward.limits] at hawait
    have hrun' : receiveMessage.run (c'.fed s₁) = (.error error, c'.fed s₂) := by
      rw [run_receiveMessage, run_listen_error hawait]
    obtain ⟨hbad, -⟩ := verifyControl_error hcontrol
    obtain ⟨reason, quoted, rfl⟩ := FrameHead.header_error.verifyControl_error hcontrol
    rw [hrun']
    refine plays_refused rfl (fun h => ?_) honward.pongs
    rw [h.data hbegun.opcode] at hbad
    cases hbad

theorem receive_refused {error : Error} (h : (listen.run c).1 = .error error) : (receiveMessage.run c).1 = .error error := by
  rw [run_receiveMessage]
  rcases hrun : listen.run c with ⟨error' | message, c'⟩ <;> rw [hrun] at h <;> cases h
  rfl

/-- What comes of a script is no refusal of a frame for its size. -/
theorem Plays.not_exceeds {script : Script} {result : Except Error (Opcode × Octets) × WebSocketConnection}
    (h : c.Plays script result) (hlast : c.Completes script ∨ c.Misplaced script) (quoted : List Quoted) :
    result.1 ≠ .error (.limit "frame exceeds {max} octets" quoted) := by
  intro hresult
  obtain hcompletes | hmisplaced := hlast
  · have hmessage := h.message hcompletes
    rw [hresult, verdict] at hmessage
    split_ifs at hmessage
    cases hmessage
  · obtain ⟨reason, quoted', hrefusal⟩ := h.refusal hmisplaced
    cases hresult.symm.trans hrefusal

/-- However a script is cut, the message is received as it is unfragmented, or the frame out of place refused, and
    every ping answered, if and only if every frame is clear of the limit. -/
theorem plays_iff {script : Script} (hable : c.Able) (hnone : c.fragments = none) (hbegun : c.WellBegun script)
    (hlast : c.Completes script ∨ c.Misplaced script) (rest : Octets) :
    (∀ s : Source Error UInt8, s.Delivers (octets script.frames ++ rest) → c.Plays script (receiveMessage.run (c.fed s))) ↔
      ∀ frame ∈ script.frames, frame.shown ≤ c.limits.maxMessageSize + 1 := by
  constructor
  · intro hplays frame hmem
    by_contra hlong
    obtain ⟨before, behind, hframes⟩ := List.append_of_mem hmem
    -- The frames before this one are there whole, and of this one all but the octet that shows it.
    obtain ⟨others, hgoing⟩ : before <+: script.going := by
      have hlength := congrArg List.length hframes
      rw [Script.frames, List.length_append, List.length_append, List.length_singleton, List.length_cons] at hlength
      refine List.prefix_of_prefix_length_le ⟨frame :: behind, hframes.symm⟩ ⟨[script.last], rfl⟩ ?_
      omega
    have hoctets : octets script.frames ++ rest = octets before ++ (frame.encode ++ (octets behind ++ rest)) := by
      rw [hframes, octets, List.map_append, List.flatten_append, List.map_cons, List.flatten_cons, List.append_assoc,
        List.append_assoc]
      rfl
    have hshown := frame.shown_le
    have htwo := frame.two_le_shown
    have hcut : frame.shown - 1 < (frame.encode ++ (octets behind ++ rest)).length := by
      rw [List.length_append]
      omega
    have hless : ((frame.encode ++ (octets behind ++ rest)).take (frame.shown - 1)).length = frame.shown - 1 := by
      rw [List.length_take]
      omega
    have hmore : (frame.encode ++ (octets behind ++ rest)).drop (frame.shown - 1) ≠ [] := by
      rw [Ne, List.drop_eq_nil_iff]
      omega
    have hdecode := (Frame.decode_shown (hbegun.lengths frame hmem) (List.take_prefix (frame.shown - 1) _)).2
      (show _ < frame.shown by rw [hless]; omega)
    have hdelivers : (⟨octets before ++ (frame.encode ++ (octets behind ++ rest)).take (frame.shown - 1), false,
        [.ok ((frame.encode ++ (octets behind ++ rest)).drop (frame.shown - 1))]⟩ : Source Error UInt8).Delivers
          (octets script.frames ++ rest) := by
      refine ⟨[_], rfl, fun h => hmore (List.mem_singleton.1 h).symm, ?_, fun h => (by cases h)⟩
      rw [hoctets, List.flatten_singleton, List.append_assoc, List.take_append_drop]
    have hcarry := carry_going hbegun hnone
    rw [← hgoing, List.foldlM_append] at hcarry
    obtain ⟨between, hcarried, -⟩ := Option.bind_eq_some_iff.1 hcarry
    have hbefore : ∀ frame ∈ before, frame ∈ script.going := fun frame hmem => hgoing ▸ List.mem_append_left _ hmem
    obtain ⟨c', honward, hrun⟩ := receive_carried hable
      (givesAll_ahead c.limits.maxMessageSize (fun frame hmem => sendable_going hbegun frame (hbefore frame hmem)) _ _ _)
      (fun frame hmem => hbegun.masks frame (hbefore frame hmem)) hcarried
    have hrefused := listen_cut (c := c') [.ok ((frame.encode ++ (octets behind ++ rest)).drop (frame.shown - 1))] false
      hdecode (by rw [honward.limits, hless]; omega)
    refine (hplays _ hdelivers).not_exceeds hlast [.number c'.limits.maxMessageSize] ?_
    rw [hrun, receive_refused hrefused]
  · exact fun hshown s hs => plays_of_shown hable hnone hbegun hlast hshown hs

/-- A text of one character, cut inside it, with a ping between the pieces, as a client sends it. -/
def split : Script where
  opcode := .text
  fragments := [⟨[], some ⟨1, 2, 3, 4⟩, [0xc3]⟩]
  before := [⟨true, .ping, some ⟨5, 6, 7, 8⟩, [0x61]⟩]
  last := ⟨true, .continuation, some ⟨9, 10, 11, 12⟩, [0xa9]⟩

/-- A server that reads it. -/
def reader : WebSocketConnection := resume [] .origin .default []

theorem reader_able : reader.Able := ⟨rfl, fun _ h => absurd h List.not_mem_nil, fun _ h => absurd h List.not_mem_nil⟩

theorem split_wellBegun : reader.WellBegun split where
  opcode := .inl rfl
  between := List.forall_mem_singleton.2 fun _ h => absurd h List.not_mem_nil
  before := List.forall_mem_singleton.2 ⟨.inl rfl, rfl, by decide⟩
  masks := by simp [Script.going, split, unfinished, Masked, reader, resume, Role.isClient]
  lengths := by simp [Script.frames, Script.going, split, unfinished]
  size := by decide
  count := by decide

theorem split_completes : reader.Completes split := ⟨rfl, rfl, rfl, by decide, by decide⟩

theorem plays_iff_split :
    (∀ s : Source Error UInt8, s.Delivers (octets split.frames ++ []) → reader.Plays split (receiveMessage.run (reader.fed s))) ↔
      ∀ frame ∈ split.frames, frame.shown ≤ reader.limits.maxMessageSize + 1 :=
  plays_iff reader_able rfl split_wellBegun (.inl split_completes) []

/-- A message of one frame, of as many octets as are allowed. -/
def full : Script := ⟨.binary, [], [], tenOctets⟩

/-- It is refused where its last octet comes by itself. -/
theorem message_lost : ¬∀ (c : WebSocketConnection) (script : Script), c.Able → c.fragments = none → c.WellBegun script →
    c.Completes script ∨ c.Misplaced script → ∀ (rest : Octets) (s : Source Error UInt8),
      s.Delivers (octets script.frames ++ rest) → c.Plays script (receiveMessage.run (c.fed s)) := by
  intro h
  have hable : narrow.Able := ⟨rfl, fun _ h => absurd h List.not_mem_nil, fun _ h => absurd h List.not_mem_nil⟩
  have hbegun : narrow.WellBegun full := by
    refine ⟨.inr rfl, fun _ h => absurd h List.not_mem_nil, fun _ h => absurd h List.not_mem_nil,
      fun _ h => absurd h List.not_mem_nil, List.forall_mem_singleton.2 (by decide), by decide, by decide⟩
  have hcompletes : narrow.Completes full := ⟨rfl, rfl, rfl, by decide, by decide⟩
  have hplays := h narrow full hable rfl hbegun (.inl hcompletes) []
    ⟨tenOctets.encode.take 15, false, [.ok (tenOctets.encode.drop 15)]⟩
    ⟨[tenOctets.encode.drop 15], rfl, by decide +kernel, by decide +kernel, fun h => by cases h⟩
  have hmessage := hplays.message hcompletes
  have hcut : (receiveMessage.run (narrow.fed ⟨tenOctets.encode.take 15, false, [.ok (tenOctets.encode.drop 15)]⟩)).1 =
      .error (.limit "frame exceeds {max} octets" [.number 10]) := by decide +kernel
  have hverdict : verdict full.opcode (full.payload ++ full.last.payload) = .ok (.binary, tenOctets.payload) := by
    decide +kernel
  rw [hcut, hverdict] at hmessage
  cases hmessage

end WebSocketConnection

end WebSocket

end Soyokaze

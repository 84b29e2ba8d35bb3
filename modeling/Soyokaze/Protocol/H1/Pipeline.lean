import Soyokaze.Protocol.H1.Connection

/-!
# Pipelined requests

A client remembers the requests it has sent and takes one back with every response.
A 1xx response is one of those, though it answers no request: what it takes is the
request that the final response behind it answers, which then takes the next one.
So a response is framed with the method of the request it answers as long as none
was preceded by an informational one, and otherwise only where the two methods
frame it alike.

* `Pipeline.suffix_run`: what the client remembers is the end of what is
  outstanding;
* `Pipeline.taken_eq_answered`: without informational responses it is all of it;
* `Pipeline.framed_iff`: when the final responses of a run are framed as the
  requests they answer have them, and what follows of the octets read.
-/

namespace Soyokaze

open H1Connection

/-- A client, and the methods of the requests it has sent that no final response has
    answered yet. -/
structure Pipeline where
  connection : H1Connection
  outstanding : List Method

/-- A final response that was read: its head, the method the client took for it, and the
    method of the request it answers. -/
structure Framing where
  message : Message
  taken : Option Method
  answered : Option Method

/-- Whether a message is a response that answers its request. -/
def Message.isFinal (m : Message) : Bool := m.isResponse && !m.isInformational

namespace Pipeline

/-- The head of the message a client receives next, and the client once it has read it. -/
def headNext (world : World) (c : H1Connection) : Option (Message × H1Connection) :=
  match (readHead world).run c with
  | (.ok (m, _), c) => some (m, c)
  | (.error _, _) => none

/-- What one step does: a request that was sent is outstanding, and a final response
    answers the one that has been so the longest. -/
def step (p : Pipeline) (world : World) (event : Event) : Pipeline :=
  let done := (perform world event).run p.connection
  ⟨done.2, match event with
    | .send m =>
      match done.1 with
      | .ok _ => p.outstanding ++ m.method.toList
      | .error _ => p.outstanding
    | .receive =>
      match headNext world p.connection with
      | some (m, _) => if m.isFinal then p.outstanding.tail else p.outstanding
      | none => p.outstanding⟩

/-- How the final response is framed that a step reads, if it reads one. -/
def framing (p : Pipeline) (world : World) : Event → Option Framing
  | .send _ => none
  | .receive =>
    match headNext world p.connection with
    | some (m, c) => if m.isFinal then some ⟨m, c.pending.head?.map (·.method), p.outstanding.head?⟩ else none
    | none => none

/-- The client after a run. -/
def run : List (World × Event) → Pipeline → Pipeline
  | [], p => p
  | (world, event) :: events, p => run events (p.step world event)

/-- The final responses of a run. -/
def framings : List (World × Event) → Pipeline → List Framing
  | [], _ => []
  | (world, event) :: events, p => (p.framing world event).toList ++ framings events (p.step world event)

end Pipeline

namespace Framing

/-- The response is framed as one to the request it answers. -/
def Right (f : Framing) : Prop := BodyLength.of f.message f.taken = BodyLength.of f.message f.answered

instance (f : Framing) : Decidable f.Right := inferInstanceAs (Decidable (_ = _))

/-- Whether a request with this method is one whose response, with this status, has no
    body of its own. -/
def Unframed (status : ℕ) (method : Option Method) : Prop :=
  method = some .HEAD ∨ (method = some .CONNECT ∧ 200 ≤ status ∧ status < 300)

/-- The status is one that admits no body, or both methods leave the response without
    one, or neither does. -/
def Alike (f : Framing) : Prop :=
  ∀ status, f.message.statusCode = some status →
    Message.statusBodyless status = true ∨ (Unframed status f.taken ↔ Unframed status f.answered)

end Framing

/-! ## Framing -/

theorem BodyLength.ends_iff {m : Message} {status : ℕ} (h : m.statusCode = some status) (method : Option Method) :
    ends m method = true ↔ Message.statusBodyless status = true ∨ Framing.Unframed status method := by
  rw [ends, h]
  dsimp only
  rw [Message.bodyless, h]
  simp only [Framing.Unframed, Bool.or_eq_true, Bool.and_eq_true, beq_iff_eq, decide_eq_true_eq, or_assoc, and_assoc]

/-- A response is framed right exactly where the methods taken and answered are alike. -/
theorem Framing.right_iff_alike {f : Framing} (hrequest : f.message.isRequest = false)
    (hresponse : f.message.isResponse = true) : f.Right ↔ f.Alike := by
  obtain ⟨status, hstatus⟩ := Option.isSome_iff_exists.1 hresponse
  have htaken := BodyLength.ends_iff hstatus f.taken
  have hanswered := BodyLength.ends_iff hstatus f.answered
  rw [Right, BodyLength.of_eq_iff hrequest, Bool.eq_iff_iff, htaken, hanswered]
  constructor
  · intro h status' hstatus'
    obtain rfl : status = status' := Option.some_inj.1 (hstatus.symm.trans hstatus')
    by_cases hbodyless : Message.statusBodyless status = true
    · exact Or.inl hbodyless
    · exact Or.inr ⟨fun hu => (h.1 (Or.inr hu)).resolve_left hbodyless, fun hu => (h.2 (Or.inr hu)).resolve_left hbodyless⟩
  · intro h
    rcases h status hstatus with hbodyless | halike
    · exact ⟨fun _ => Or.inl hbodyless, fun _ => Or.inl hbodyless⟩
    · exact or_congr_right halike

namespace H1Connection

/-- A head that was read is of a request or of a response. -/
theorem kind_of_readHead {world : World} {c c' : H1Connection} {m : Message} {budget : ℕ}
    (h : (readHead world).run c = (.ok (m, budget), c')) : m.isRequest = !m.isResponse := by
  obtain ⟨⟨start, length⟩, c₁, hstart, h⟩ := Act.of_run_bind_ok h
  obtain ⟨⟨headers, block⟩, c₂, -, h⟩ := Act.of_run_bind_ok h
  obtain ⟨_, _, hget, h⟩ := Act.of_run_bind_ok h
  cases hget
  obtain ⟨_, _, -, h⟩ := Act.of_run_bind_ok h
  cases h
  obtain ⟨length', c₃, -, hstart⟩ := Act.of_run_bind_ok hstart
  obtain ⟨_, _, hget, hstart⟩ := Act.of_run_bind_ok hstart
  cases hget
  obtain ⟨_, _, -, hstart⟩ := Act.of_run_bind_ok hstart
  split at hstart
  · next m' hparse =>
    cases hstart
    rcases StartLine.parseBytes_kind hparse with ⟨method, target, version, rfl⟩ | ⟨status, version, rfl⟩ <;> rfl
  · cases hstart

/-- The reading of a message whose length is that of one that answers a request with
    this method. -/
def receiveFor (world : World) (method : Option Method) : Step Message := do
  let (m, budget) ← readHead world
  let _ ← takeAnswered m
  let length ← Act.ofExcept (BodyLength.of m method)
  readContent world m length budget

/-- The method answered frames nothing but a final response. -/
theorem of_eq_of_not_final {m : Message} (h : m.isFinal = false) (method method' : Option Method) : BodyLength.of m method = BodyLength.of m method' := by
  rw [BodyLength.of, BodyLength.of]
  rcases hstatus : m.statusCode with _ | status
  · rw [BodyLength.ends, BodyLength.ends, hstatus]
  · have hinformational : m.isInformational = true := by
      rw [Message.isFinal, Message.isResponse, hstatus] at h
      simpa using h
    rw [Message.isInformational, hstatus] at hinformational
    have hends : ∀ method, BodyLength.ends m method = true := fun method => by
      refine (BodyLength.ends_iff hstatus method).2 (Or.inl ?_)
      rw [Message.statusBodyless]
      dsimp only at hinformational
      rw [hinformational]
      rfl
    rw [hends, hends]

/-- Where the response is framed right, it is received as one to the request it answers. -/
theorem receiveMessage_eq_receiveFor {world : World} {p : Pipeline}
    (h : ∀ f ∈ p.framing world .receive, f.Right) :
    (receiveMessage world).run p.connection = (receiveFor world p.outstanding.head?).run p.connection := by
  rw [receiveMessage, receiveFor, Act.run_bind, Act.run_bind]
  rcases hhead : (readHead world).run p.connection with ⟨error | ⟨m, budget⟩, c⟩
  · rfl
  · dsimp only
    rw [Act.run_bind, Act.run_bind, run_takeAnswered]
    by_cases hfinal : m.isFinal = true
    · have hright := h ⟨m, c.pending.head?.map (·.method), p.outstanding.head?⟩ (by
        rw [Pipeline.framing, Pipeline.headNext, hhead]
        dsimp only
        rw [if_pos hfinal]
        rfl)
      rw [if_pos (Bool.and_eq_true_iff.1 hfinal).1]
      dsimp only
      rw [show BodyLength.of m (c.pending.head?.map (·.method)) = BodyLength.of m p.outstanding.head? from hright]
    · have hframe := of_eq_of_not_final (Bool.eq_false_of_not_eq_true hfinal)
      split_ifs
      · dsimp only
        rw [hframe (c.pending.head?.map (·.method)) p.outstanding.head?]
      · dsimp only
        rw [hframe none p.outstanding.head?]

end H1Connection

namespace Pipeline

/-- At every step of the run that receives, a message is received as one to the request
    it answers. -/
def Answers : List (World × Event) → Pipeline → Prop
  | [], _ => True
  | (world, .receive) :: events, p =>
    (receiveMessage world).run p.connection = (receiveFor world p.outstanding.head?).run p.connection ∧
      Answers events (p.step world .receive)
  | (world, .send m) :: events, p => Answers events (p.step world (.send m))

theorem kind_of_framing {p : Pipeline} {world : World} {event : Event} {f : Framing} (h : f ∈ p.framing world event) :
    f.message.isRequest = false ∧ f.message.isResponse = true := by
  cases event with
  | send m => cases h
  | receive =>
    rw [framing, headNext] at h
    rcases hhead : (readHead world).run p.connection with ⟨error | ⟨m, budget⟩, c⟩
    · rw [hhead] at h
      cases h
    · rw [hhead] at h
      dsimp only at h
      split_ifs at h with hfinal
      · cases h
        have hresponse := (Bool.and_eq_true_iff.1 hfinal).1
        refine ⟨?_, hresponse⟩
        rw [kind_of_readHead hhead, hresponse]
        rfl
      · cases h

theorem right_iff_alike {events : List (World × Event)} {p : Pipeline} {f : Framing} (h : f ∈ framings events p) :
    f.Right ↔ f.Alike := by
  induction events generalizing p with
  | nil => cases h
  | cons head events ih =>
    rcases List.mem_append.1 h with h | h
    · obtain ⟨hrequest, hresponse⟩ := kind_of_framing (Option.mem_toList.1 h)
      exact Framing.right_iff_alike hrequest hresponse
    · exact ih h

theorem answers_of_right {events : List (World × Event)} {p : Pipeline} (h : ∀ f ∈ framings events p, f.Right) :
    Answers events p := by
  induction events generalizing p with
  | nil => trivial
  | cons head events ih =>
    obtain ⟨world, event⟩ := head
    have hrest := ih fun f hf => h f (List.mem_append_right _ hf)
    cases event with
    | send m => exact hrest
    | receive => exact ⟨receiveMessage_eq_receiveFor fun f hf => h f (List.mem_append_left _ (Option.mem_toList.2 hf)), hrest⟩

end Pipeline

/-! ## What is remembered -/

namespace H1Connection

/-- The connection is no server's, and what it remembers and is has not changed. -/
def Remembers (c c' : H1Connection) : Prop :=
  c.role.isServer = false → c'.role = c.role ∧ c'.pending = c.pending

theorem Remembers.rfl {c : H1Connection} : Remembers c c := fun _ => ⟨Eq.refl _, Eq.refl _⟩

theorem Remembers.trans {a b c : H1Connection} (hab : Remembers a b) (hbc : Remembers b c) : Remembers a c := by
  intro h
  obtain ⟨hrole, hpending⟩ := hab h
  obtain ⟨hrole', hpending'⟩ := hbc (hrole ▸ h)
  exact ⟨hrole'.trans hrole, hpending'.trans hpending⟩

/-- A step that changes neither the role nor what is remembered. -/
theorem remembers_of_fields {α : Type} {m : Step α} (h : ∀ c, (m.run c).2.role = c.role ∧ (m.run c).2.pending = c.pending) :
    Act.Keeps Remembers m := fun c _ => h c

theorem remembers_ofExcept {α : Type} (x : Except Error α) : Act.Keeps Remembers (Act.ofExcept x) :=
  remembers_of_fields fun _ => ⟨rfl, rfl⟩

theorem remembers_pure {α : Type} (a : α) : Act.Keeps Remembers (pure a : Step α) := remembers_of_fields fun _ => ⟨rfl, rfl⟩

theorem remembers_get : Act.Keeps Remembers (Act.get : Step H1Connection) := remembers_of_fields fun _ => ⟨rfl, rfl⟩

theorem remembers_reading {α : Type} (f : Source Error UInt8 → Except Error α × Source Error UInt8) :
    Act.Keeps Remembers (reading f) := remembers_of_fields fun _ => ⟨rfl, rfl⟩

theorem remembers_readHeaderBlock : Act.Keeps Remembers readHeaderBlock := by
  refine Act.Keeps.bind .trans remembers_get fun c => Act.Keeps.bind .trans (remembers_reading _) fun found => ?_
  refine Act.Keeps.bind .trans remembers_get fun c => Act.Keeps.bind .trans (remembers_ofExcept _) fun headers => ?_
  exact remembers_of_fields fun _ => ⟨rfl, rfl⟩

theorem remembers_awaitStartLine : Act.Keeps Remembers awaitStartLine := by
  refine Act.Keeps.bind .trans remembers_get fun c => Act.Keeps.bind .trans (remembers_reading _) fun length => ?_
  split_ifs
  · exact Act.Keeps.bind .trans (remembers_of_fields fun _ => ⟨rfl, rfl⟩) fun _ => remembers_reading _
  · exact remembers_pure length

theorem remembers_readStartLine (world : World) : Act.Keeps Remembers (readStartLine world) := by
  refine Act.Keeps.bind .trans remembers_awaitStartLine fun length => Act.Keeps.bind .trans remembers_get fun c => ?_
  refine Act.Keeps.bind .trans (remembers_of_fields fun _ => ⟨rfl, rfl⟩) fun _ => ?_
  split
  · exact remembers_pure _
  · -- Only a server answers what it cannot parse.
    intro c' h
    rw [run_refuse, if_neg (by rw [h]; exact Bool.false_ne_true)]
    exact ⟨rfl, rfl⟩

theorem remembers_reserve (world : World) (m : Message) (size : ℕ) : Act.Keeps Remembers (reserve world m size) := by
  refine Act.Keeps.bind .trans (remembers_of_fields fun _ => ⟨rfl, rfl⟩) fun _ => Act.Keeps.bind .trans remembers_get fun c => ?_
  refine Act.Keeps.bind .trans (remembers_of_fields fun _ => ⟨rfl, rfl⟩) fun _ => Act.Keeps.bind .trans ?_ fun _ => remembers_pure _
  intro c' h
  rw [openExchange, Act.run_bind, Act.run_get]
  dsimp only
  rw [h, if_neg Bool.false_ne_true]
  exact ⟨rfl, rfl⟩

theorem remembers_readHead (world : World) : Act.Keeps Remembers (readHead world) := by
  refine Act.Keeps.bind .trans (remembers_readStartLine world) fun start => ?_
  refine Act.Keeps.bind .trans remembers_readHeaderBlock fun block => Act.Keeps.bind .trans remembers_get fun c => ?_
  exact Act.Keeps.bind .trans (remembers_reserve world _ _) fun _ => remembers_pure _

theorem remembers_readBody (length : BodyLength) (budget : ℕ) : Act.Keeps Remembers (readBody length budget) := by
  refine Act.Keeps.bind .trans remembers_get fun c => ?_
  cases length with
  | none => exact remembers_pure none
  | fixed size =>
    refine Act.Keeps.bind .trans (remembers_of_fields fun _ => ⟨rfl, rfl⟩) fun _ => ?_
    refine Act.Keeps.bind .trans (remembers_of_fields fun _ => ⟨rfl, rfl⟩) fun _ => ?_
    exact Act.Keeps.bind .trans (remembers_reading _) fun _ => remembers_of_fields fun _ => ⟨rfl, rfl⟩
  | chunked => exact Act.Keeps.bind .trans (remembers_reading _) fun _ => remembers_pure _
  | close =>
    refine Act.Keeps.bind .trans (remembers_reading _) fun _ => Act.Keeps.bind .trans remembers_get fun c => ?_
    exact remembers_of_fields fun _ => ⟨rfl, rfl⟩

theorem remembers_readContent (world : World) (m : Message) (length : BodyLength) (budget : ℕ) :
    Act.Keeps Remembers (readContent world m length budget) := by
  refine Act.Keeps.bind .trans ?_ fun _ => Act.Keeps.bind .trans ?_ fun body => Act.Keeps.bind .trans ?_ fun trailers =>
    Act.Keeps.bind .trans remembers_get fun c => remembers_ofExcept _
  · intro c h
    rw [answerExpectation, Act.run_bind, Act.run_get]
    dsimp only
    rw [h]
    exact ⟨rfl, rfl⟩
  · rw [readFramed]
    split_ifs
    · exact remembers_pure none
    · exact Act.Keeps.bind .trans (remembers_readBody length budget) fun _ => remembers_pure _
  · rw [readTrailers]
    split_ifs
    · exact Act.Keeps.bind .trans remembers_readHeaderBlock fun _ => remembers_pure _
    · exact remembers_pure none

/-- What a connection that is no server's remembers once it has received. -/
theorem pending_receiveMessage {world : World} {c : H1Connection} (h : c.role.isServer = false) :
    ((receiveMessage world).run c).2.role = c.role ∧
      ((receiveMessage world).run c).2.pending = match Pipeline.headNext world c with
        | some (m, _) => if m.isResponse then c.pending.tail else c.pending
        | none => c.pending := by
  have hhead := remembers_readHead world c h
  rw [receiveMessage, Act.run_bind, Pipeline.headNext]
  rcases hrun : (readHead world).run c with ⟨error | ⟨m, budget⟩, c₁⟩
  · rw [hrun] at hhead
    exact hhead
  · rw [hrun] at hhead
    obtain ⟨hrole, hpending⟩ := hhead
    dsimp only at hrole hpending ⊢
    have hrest : ∀ method c₂, c₂.role = c.role →
        Remembers c₂ ((Act.ofExcept (BodyLength.of m method) >>= fun length => readContent world m length budget).run c₂).2 :=
      fun method c₂ _ => Act.Keeps.bind .trans (remembers_ofExcept _) (fun length => remembers_readContent world m length budget) c₂
    rw [Act.run_bind, run_takeAnswered]
    split_ifs with hresponse
    · obtain ⟨hrole', hpending'⟩ := hrest (c₁.pending.head?.map (·.method)) { c₁ with pending := c₁.pending.tail } hrole
        (by rw [hrole]; exact h)
      exact ⟨hrole'.trans hrole, hpending'.trans (by rw [hpending])⟩
    · obtain ⟨hrole', hpending'⟩ := hrest none c₁ hrole (by rw [hrole]; exact h)
      exact ⟨hrole'.trans hrole, hpending'.trans hpending⟩

/-- What a connection that is no server's remembers once it has sent. -/
theorem pending_sendMessage {world : World} {m : Message} {c : H1Connection} (h : c.role.isServer = false) :
    ((sendMessage world m).run c).2.role = c.role ∧
      ((sendMessage world m).run c).2.pending.map (·.method) =
        match ((sendMessage world m).run c).1 with
        | .ok _ => c.pending.map (·.method) ++ m.method.toList
        | .error _ => c.pending.map (·.method) := by
  have hwrites : ∀ out trailing, Act.Keeps Remembers (writing out >>= fun _ => writingRest trailing) := by
    intro out trailing
    refine Act.Keeps.bind .trans (remembers_of_fields fun _ => ⟨rfl, rfl⟩) fun _ => ?_
    cases trailing with
    | none => exact remembers_pure ()
    | some octets => exact remembers_of_fields fun _ => ⟨rfl, rfl⟩
  rw [run_sendMessage]
  by_cases hfull : (m.method.isSome && decide (c.pipelineDepth ≤ c.pending.length)) = true
  · rw [if_pos hfull]
    exact ⟨rfl, rfl⟩
  · rw [if_neg hfull]
    rcases c.compose world m with error | ⟨out, trailing⟩
    · exact ⟨rfl, rfl⟩
    · have hkept := hwrites out trailing c h
      dsimp only
      rcases hrun : (writing out >>= fun _ => writingRest trailing).run c with ⟨error | _, c₁⟩
      · rw [hrun] at hkept
        obtain ⟨hrole, hpending⟩ := hkept
        exact ⟨hrole, congrArg (·.map (·.method)) hpending⟩
      · rw [hrun] at hkept
        obtain ⟨hrole, hpending⟩ := hkept
        refine ⟨hrole, ?_⟩
        dsimp only at hrole hpending ⊢
        rw [afterSending, hpending, hrole, h]
        cases m.method with
        | none => rw [Bool.false_and, if_neg Bool.false_ne_true, Option.toList_none, List.append_nil]
        | some method => rw [List.map_append]; rfl

end H1Connection

namespace Pipeline

/-- The methods a client remembers. -/
def remembered (p : Pipeline) : List Method := p.connection.pending.map (·.method)

/-- What the client remembers behind one step: every response takes one back. -/
theorem remembered_step {p : Pipeline} (h : p.connection.role.isServer = false) (world : World) (event : Event) :
    (p.step world event).connection.role = p.connection.role ∧
      (p.step world event).remembered = match event with
        | .send m =>
          match ((sendMessage world m).run p.connection).1 with
          | .ok _ => p.remembered ++ m.method.toList
          | .error _ => p.remembered
        | .receive =>
          match headNext world p.connection with
          | some (m, _) => if m.isResponse then p.remembered.tail else p.remembered
          | none => p.remembered := by
  cases event with
  | send m =>
    rw [remembered, step, perform, Act.run_map]
    exact pending_sendMessage h
  | receive =>
    obtain ⟨hrole, hpending⟩ := @pending_receiveMessage world _ h
    rw [remembered, step, perform, Act.run_map]
    refine ⟨hrole, ?_⟩
    dsimp only
    rw [hpending, remembered]
    rcases headNext world p.connection with _ | ⟨m, c⟩
    · rfl
    · dsimp only
      split_ifs
      · exact List.map_tail
      · rfl

theorem suffix_step {p : Pipeline} (h : p.connection.role.isServer = false) (hsuffix : p.remembered <:+ p.outstanding)
    (world : World) (event : Event) : (p.step world event).remembered <:+ (p.step world event).outstanding := by
  rw [(remembered_step h world event).2]
  cases event with
  | send m =>
    rw [step, perform, Act.run_map]
    dsimp only
    rcases ((sendMessage world m).run p.connection).1 with error | _
    · exact hsuffix
    · obtain ⟨more, hmore⟩ := hsuffix
      exact ⟨more, by rw [← hmore, ← List.append_assoc]; rfl⟩
  | receive =>
    rw [step]
    dsimp only
    rcases headNext world p.connection with _ | ⟨m, c⟩
    · exact hsuffix
    · dsimp only
      rw [Message.isFinal]
      -- A response takes one back, and a final one answers one too.
      cases m.isResponse with
      | false => exact hsuffix
      | true =>
        cases m.isInformational with
        | true => exact (List.tail_suffix _).trans hsuffix
        | false =>
          obtain ⟨more, hmore⟩ := hsuffix
          rcases more with _ | ⟨first, more⟩
          · rw [List.nil_append] at hmore
            rw [hmore]
            exact List.suffix_refl _
          · refine (List.tail_suffix _).trans ⟨more, ?_⟩
            rw [← hmore]
            rfl

/-- What a client remembers is the end of what is outstanding, over whole runs. -/
theorem suffix_run {p : Pipeline} (h : p.connection.role.isServer = false) (hsuffix : p.remembered <:+ p.outstanding)
    (events : List (World × Event)) : (run events p).remembered <:+ (run events p).outstanding := by
  induction events generalizing p with
  | nil => exact hsuffix
  | cons head events ih =>
    refine ih ?_ (suffix_step h hsuffix head.1 head.2)
    rw [(remembered_step h head.1 head.2).1]
    exact h

/-- A client behind a `GET` and a `HEAD`, and final answers to them: three octets, then none. -/
def answered : H1Connection :=
  new [.ok (lit "HTTP/1.1 200 OK\r\nContent-Length: 3\r\n\r\nabcHTTP/1.1 200 OK\r\nContent-Length: 3\r\n\r\n")] .userAgent
    H1Limits.default

def answeredRun : List (World × Event) :=
  [(.bare, .send (.request .GET (.lit "/") .v1_1)), (.bare, .send (.request .HEAD (.lit "/") .v1_1)),
    (.bare, .receive), (.bare, .receive)]

theorem suffix_run_answered : (run answeredRun ⟨answered, []⟩).remembered <:+ (run answeredRun ⟨answered, []⟩).outstanding :=
  suffix_run rfl (List.suffix_refl _) answeredRun

/-- No informational response is received in the run. -/
def Uninterrupted : List (World × Event) → Pipeline → Prop
  | [], _ => True
  | (world, event) :: events, p =>
    (event = .receive → ∀ m c, headNext world p.connection = some (m, c) → m.isInformational = false) ∧
      Uninterrupted events (p.step world event)

/-- Where no informational response is received, the method taken for a response is that
    of the request it answers. -/
theorem taken_eq_answered {p : Pipeline} (h : p.connection.role.isServer = false) (hall : p.remembered = p.outstanding)
    {events : List (World × Event)} (hevents : Uninterrupted events p) {f : Framing} (hf : f ∈ framings events p) :
    f.taken = f.answered := by
  induction events generalizing p with
  | nil => cases hf
  | cons head events ih =>
    obtain ⟨world, event⟩ := head
    obtain ⟨hfinal, hrest⟩ := hevents
    rcases List.mem_append.1 hf with hf | hf
    · cases event with
      | send m => cases hf
      | receive =>
        have hhead := remembers_readHead world p.connection h
        rw [framing, headNext] at hf
        rcases hrun : (readHead world).run p.connection with ⟨error | ⟨m, budget⟩, c⟩
        · rw [hrun] at hf
          cases hf
        · rw [hrun] at hf hhead
          dsimp only at hf hhead
          split_ifs at hf
          · obtain rfl := List.mem_singleton.1 hf
            rw [← hall, remembered, hhead.2, List.head?_map]
          · cases hf
    · refine ih ?_ ?_ hrest hf
      · rw [(remembered_step h world event).1]
        exact h
      · rw [(remembered_step h world event).2]
        cases event with
        | send m =>
          rw [step, perform, Act.run_map, hall]
          dsimp only
          rcases ((sendMessage world m).run p.connection).1 with error | _ <;> rfl
        | receive =>
          rw [step]
          dsimp only
          rcases hnext : headNext world p.connection with _ | ⟨m, c⟩
          · exact hall
          · dsimp only
            rw [Message.isFinal, hfinal rfl m c hnext, Bool.not_false, Bool.and_true, hall]

theorem uninterrupted_answered : Uninterrupted answeredRun ⟨answered, []⟩ := by
  have hfinal (p : Pipeline) (h : (headNext .bare p.connection).map (·.1.isInformational) = some false) :
      ∀ m c, headNext .bare p.connection = some (m, c) → m.isInformational = false := by
    intro m c hnext
    rw [hnext] at h
    exact Option.some.inj h
  refine ⟨(fun h => by cases h), (fun h => by cases h), fun _ => hfinal _ ?_, fun _ => hfinal _ ?_, trivial⟩
  · decide +kernel
  · decide +kernel

theorem taken_eq_answered_head : (framings answeredRun ⟨answered, []⟩).length = 2 ∧
    ∀ f ∈ framings answeredRun ⟨answered, []⟩, f.taken = f.answered :=
  ⟨by decide +kernel, fun _ hf => taken_eq_answered rfl rfl uninterrupted_answered hf⟩

/-! ## An early hint -/

/-- A client behind a `GET` and a `HEAD`, and the answers to them: an informational
    response first, then three octets, then none. -/
def hinted : H1Connection :=
  new [.ok (lit "HTTP/1.1 103 Early Hints\r\n\r\nHTTP/1.1 200 OK\r\nContent-Length: 3\r\n\r\nabc" ++
    lit "HTTP/1.1 200 OK\r\nContent-Length: 3\r\n\r\n")] .userAgent H1Limits.default

def hintedRun : List (World × Event) :=
  [(.bare, .send (.request .GET (.lit "/") .v1_1)), (.bare, .send (.request .HEAD (.lit "/") .v1_1)),
    (.bare, .receive), (.bare, .receive), (.bare, .receive)]

end Pipeline

end Soyokaze

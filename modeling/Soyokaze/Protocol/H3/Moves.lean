import Soyokaze.Protocol.H3.Ledger
import Soyokaze.Protocol.H3.Settling

/-!
# What a worker has of one stream

A worker has of a stream what its session has, a tunnel it may have become, and what is
waiting to be sent on it; and from the record it can be told whether the stream's ends
have passed. That is the *trace* of the stream. What a worker does is, one `Move` after
another, about one stream each, and a move leaves the traces of the other streams alone.

* `H3Worker.elsewhere_takes`: that it does;
* `H3Worker.take_path`: whatever a worker does with an input is such moves.
-/

namespace Soyokaze

open H3

namespace Passage

/-- Whether an entry has the peer end a stream. -/
def ends (id : ℕ) : Passage → Bool
  | .read stream _ fin => stream == id && fin
  | _ => false

/-- Whether an entry has this end of a stream sent. -/
def finishes (id : ℕ) : Passage → Bool
  | .sent stream _ fin => stream == id && fin
  | _ => false

/-- Whether an entry has a stream reset, by the peer or the handle. -/
def cuts (id : ℕ) : Passage → Bool
  | .wasReset stream _ | .reset stream _ _ => stream == id
  | _ => false

/-- Whether an entry is of none of these, for any stream. -/
def marksNothing : Passage → Bool
  | .read .. | .sent .. | .wasReset .. | .reset .. => false
  | _ => true

end Passage

namespace H3

/-- What there is of one stream, and what became of its ends. -/
structure Trace where
  slot : Slot
  tunnel : Bool
  outbound : Option (Octets × Bool)
  ended : Bool
  finished : Bool
  cut : Bool

/-- What a worker does in one go. -/
inductive Move
  | write (id : ℕ) (octets : Octets) (fin : Bool)
  | flush (id : ℕ)
  | command (command : H3Command)
  /-- What arrived is taken in. -/
  | read (id : ℕ) (octets : Octets) (fin : Bool)
  /-- What arrived makes its stream fail, which is reset for it. -/
  | refused (id : ℕ) (octets : Octets) (fin : Bool)
  | wasReset (id code : ℕ)
  /-- Something that leaves no trace. -/
  | aside

end H3

namespace H3Worker

variable {w w' : H3Worker} {id other : ℕ} {α β : Type}

def trace (w : H3Worker) (id : ℕ) : Trace where
  slot := w.session.slot id
  tunnel := (w.tunnels.lookup id).isSome
  outbound := w.outbound.lookup id
  ended := w.passed.any (·.ends id)
  finished := w.passed.any (·.finishes id)
  cut := w.passed.any (·.cuts id)

/-! ## Steps for one stream -/

/-- A step for one stream leaves the traces of the others alone. -/
structure Elsewhere (id : ℕ) (w w' : H3Worker) : Prop where
  others : ∀ other, other ≠ id → w'.trace other = w.trace other
  distinct : w.session.decoder.Distinct → w'.session.decoder.Distinct

theorem Elsewhere.refl (w : H3Worker) : Elsewhere id w w := ⟨fun _ _ => rfl, fun h => h⟩

theorem Elsewhere.trans {a b c : H3Worker} (h : Elsewhere id a b) (h' : Elsewhere id b c) : Elsewhere id a c :=
  ⟨fun other hne => (h'.others other hne).trans (h.others other hne), fun ha => h'.distinct (h.distinct ha)⟩

/-- A step that is for one stream, however it ends. -/
abbrev Minds (id : ℕ) (m : Step α) : Prop := Act.Keeps (Elsewhere id) m

theorem Minds.bind {m : Step α} {f : α → Step β} (hm : Minds id m) (hf : ∀ a, Minds id (f a)) : Minds id (m >>= f) :=
  @Act.Keeps.bind _ _ _ _ (Elsewhere id) Elsewhere.trans m f hm hf

/-- Nothing that a trace is made of changes. -/
structure Traceless (w w' : H3Worker) : Prop where
  streams : w'.session.streams = w.session.streams
  blocked : w'.session.decoder.blocked = w.session.decoder.blocked
  since : w'.session.blockedSince = w.session.blockedSince
  tunnels : ∀ id, (w'.tunnels.lookup id).isSome = (w.tunnels.lookup id).isSome
  outbound : w'.outbound = w.outbound
  passed : w'.passed = w.passed ∨ ∃ entry, entry.marksNothing = true ∧ w'.passed = entry :: w.passed

theorem any_cons_of_marksNothing {entry : Passage} (h : entry.marksNothing = true) (id : ℕ) :
    entry.ends id = false ∧ entry.finishes id = false ∧ entry.cuts id = false := by
  cases entry <;> first | exact ⟨rfl, rfl, rfl⟩ | cases h

theorem Traceless.trace (h : Traceless w w') (id : ℕ) : w'.trace id = w.trace id := by
  have hslot : w'.session.slot id = w.session.slot id := by
    rw [H3Session.slot, H3Session.slot, h.streams, h.since, Qpack.Decoder.isBlocked, h.blocked, Qpack.Decoder.isBlocked]
  rw [H3Worker.trace, H3Worker.trace, hslot, h.tunnels id, h.outbound]
  obtain hpassed | ⟨entry, hmarks, hpassed⟩ := h.passed
  · rw [hpassed]
  · obtain ⟨hends, hfinishes, hcuts⟩ := any_cons_of_marksNothing hmarks id
    simp only [hpassed, List.any_cons, hends, hfinishes, hcuts, Bool.false_or]

theorem Traceless.elsewhere (h : Traceless w w') : Elsewhere id w w' := by
  refine ⟨fun other _ => h.trace other, ?_⟩
  rw [Qpack.Decoder.Distinct, Qpack.Decoder.Distinct, h.blocked]
  exact fun hdistinct => hdistinct

/-- A step nothing of which shows in a trace. -/
abbrev Tracelessly (m : Step α) : Prop := Act.Keeps Traceless m

theorem Tracelessly.minds {m : Step α} (h : Tracelessly m) : Minds id m := fun w => (h w).elsewhere

theorem Tracelessly.run {m : Step α} {answer : Except Error α} (h : Tracelessly m) (hrun : m.run w = (answer, w')) :
    Traceless w w' := by
  have := h w
  rwa [hrun] at this

theorem Traceless.refl (w : H3Worker) : Traceless w w := ⟨rfl, rfl, rfl, fun _ => rfl, rfl, .inl rfl⟩

theorem tracelessly_get : Tracelessly (Act.get : Step H3Worker) := fun w => .refl w

theorem tracelessly_pure (a : α) : Tracelessly (pure a : Step α) := fun w => .refl w

theorem tracelessly_fail (error : Error) : Tracelessly (Act.fail error : Step α) := fun w => .refl w

theorem tracelessly_ofExcept (x : Except Error α) : Tracelessly (Act.ofExcept x : Step α) := fun w => .refl w

theorem tracelessly_demand (condition : Bool) (error : Error) : Tracelessly (Act.demand condition error : Step Unit) :=
  fun w => .refl w

theorem tracelessly_note {entry : Passage} (h : entry.marksNothing = true) : Tracelessly (note entry) :=
  fun _ => ⟨rfl, rfl, rfl, fun _ => rfl, rfl, .inr ⟨entry, h, rfl⟩⟩

theorem tracelessly_tell (event : H3Event) : Tracelessly (tell event) := by
  intro w
  rcases h : w.events.trySend with ⟨_ | _ | _, events⟩
  · simp only [Act.run, tell, h]
    exact ⟨rfl, rfl, rfl, fun _ => rfl, rfl, .inr ⟨.told event, rfl, rfl⟩⟩
  · simp only [Act.run, tell, h]
    exact ⟨rfl, rfl, rfl, fun _ => rfl, rfl, .inl rfl⟩
  · simp only [Act.run, tell, h]
    exact ⟨rfl, rfl, rfl, fun _ => rfl, rfl, .inl rfl⟩

/-- The session has more to it than what a trace is made of. -/
theorem tracelessly_onSession {m : H3Session.Step α} (h : ∀ s, (m.run s).2.streams = s.streams ∧
    (m.run s).2.decoder.blocked = s.decoder.blocked ∧ (m.run s).2.blockedSince = s.blockedSince) :
    Tracelessly (onSession m) :=
  fun w => ⟨(h w.session).1, (h w.session).2.1, (h w.session).2.2, fun _ => rfl, rfl, .inl rfl⟩

theorem tracelessly_modify {f : H3Worker → H3Worker} (h : ∀ w, (f w).session = w.session ∧ (f w).tunnels = w.tunnels ∧
    (f w).outbound = w.outbound ∧ (f w).passed = w.passed) : Tracelessly (Act.modify f : Step Unit) := by
  intro w
  obtain ⟨hsession, htunnels, houtbound, hpassed⟩ := h w
  exact ⟨congrArg (·.streams) hsession, congrArg (·.decoder.blocked) hsession, congrArg (·.blockedSince) hsession,
    fun _ => congrArg (fun tunnels => (AList.lookup _ tunnels).isSome) htunnels, houtbound, .inl hpassed⟩

theorem minds_onSession {m : H3Session.Step α} (h : H3Session.Minds id m) : Minds id (onSession m) := by
  intro w
  refine ⟨fun other hne => ?_, (h w.session).distinct⟩
  have hslot := (h w.session).others other hne
  simp only [Act.run, onSession, trace] at hslot ⊢
  rw [hslot]

/-- What is waiting on one stream changes, and what is recorded is about that stream. -/
theorem Elsewhere.of_outbound {outbound : StreamMap (Octets × Bool)} {bytes : ℕ} {entry : Passage}
    (houtbound : ∀ other, other ≠ id → outbound.lookup other = w.outbound.lookup other)
    (hentry : ∀ other, other ≠ id → entry.ends other = false ∧ entry.finishes other = false ∧ entry.cuts other = false) :
    Elsewhere id w { w with outbound := outbound, outboundBytes := bytes, passed := entry :: w.passed } := by
  refine ⟨fun other hne => ?_, fun h => h⟩
  obtain ⟨hends, hfinishes, hcuts⟩ := hentry other hne
  simp only [trace, houtbound other hne, List.any_cons, hends, hfinishes, hcuts, Bool.false_or]

theorem minds_enqueue (octets : Octets) (fin : Bool) : Minds id (enqueue id octets fin) := fun _ =>
  .of_outbound (fun _ hne => AList.lookup_insert_ne hne) fun _ _ => ⟨rfl, rfl, rfl⟩

theorem minds_takeSent (count : ℕ) (buffer : Octets) (fin : Bool) : Minds id (takeSent id count buffer fin) := by
  intro w
  refine .of_outbound (fun other hne => ?_) fun other hne => ⟨rfl, ?_, rfl⟩
  · split_ifs
    · exact AList.lookup_erase_ne hne
    · exact AList.lookup_insert_ne hne
  · rw [Passage.finishes, beq_false_of_ne hne.symm, Bool.false_and]

theorem minds_dropOutbound : Minds id (dropOutbound id) := by
  intro w
  simp only [dropOutbound, Act.run_modify]
  split
  · exact .of_outbound (fun _ hne => AList.lookup_erase_ne hne) fun _ _ => ⟨rfl, rfl, rfl⟩
  · exact .refl w

theorem tracelessly_offer (buffer : Octets) : Tracelessly (offer buffer) :=
  fun _ => ⟨rfl, rfl, rfl, fun _ => rfl, rfl, .inl rfl⟩

theorem minds_flushStream : Minds id (flushStream id) := by
  refine tracelessly_get.minds.bind fun w => ?_
  split
  · exact (tracelessly_pure ()).minds
  · split_ifs
    · exact (tracelessly_pure ()).minds
    · refine (tracelessly_offer _).minds.bind fun outcome => ?_
      cases outcome with
      | sent count => exact minds_takeSent count _ _
      | blocked => exact (tracelessly_pure ()).minds
      | stopped code =>
        exact minds_dropOutbound.bind fun _ => (tracelessly_tell _).minds.bind fun _ => (tracelessly_pure ()).minds

theorem minds_write (octets : Octets) (fin : Bool) : Minds id (write id octets fin) :=
  (minds_enqueue octets fin).bind fun _ => minds_flushStream

theorem minds_claimOutbound : Minds id (claimOutbound id) := by
  intro w
  refine ⟨fun other hne => ?_, ?_⟩
  · simp only [claimOutbound, Act.run_modify, trace]
    split_ifs
    · rfl
    · rw [AList.lookup_insert_ne hne]
  · simp only [claimOutbound, Act.run_modify]
    split_ifs <;> exact fun h => h

/-- What the session does leaves the rest of the worker alone. -/
theorem of_onSession {m : H3Session.Step α} {answer : Except Error α} (h : (onSession m).run w = (answer, w')) :
    m.run w.session = (answer, w'.session) ∧ w' = { w with session := w'.session } := by
  have hanswer : (m.run w.session).1 = answer := congrArg Prod.fst h
  have hleft : { w with session := (m.run w.session).2 } = w' := congrArg Prod.snd h
  subst hleft
  exact ⟨Prod.ext hanswer rfl, rfl⟩

/-- What the session does shows in what it has of the stream. -/
theorem trace_onSession {m : H3Session.Step α} {answer : Except Error α} (h : (onSession m).run w = (answer, w'))
    (id : ℕ) : w'.trace id = { w.trace id with slot := w'.session.slot id } := by
  rw [(of_onSession h).2]
  rfl

/-- What came of a step is what it gave. -/
theorem of_attempt {m : Step α} {outcome : Except Error α} (h : (attempt m).run w = (.ok outcome, w')) :
    m.run w = (outcome, w') := by
  have hanswer : (m.run w).1 = outcome := Except.ok.inj (congrArg Prod.fst h)
  have hleft : (m.run w).2 = w' := congrArg Prod.snd h
  exact Prod.ext hanswer hleft

theorem minds_attempt {m : Step α} (h : Minds id m) : Minds id (attempt m) := h

theorem minds_frameInto (world : World) (m : Message) : Minds id (frameInto world id m) := by
  refine tracelessly_get.minds.bind fun w => minds_claimOutbound.bind fun _ =>
    (minds_attempt (minds_onSession (H3Session.minds_frameMessage world m))).bind fun outcome => ?_
  split
  · exact minds_enqueue _ _
  · exact (tracelessly_note rfl).minds.bind fun _ => (tracelessly_fail _).minds

/-- Tunnels are joined and left one by one. -/
theorem Elsewhere.of_tunnels {tunnels : StreamMap Mailbox} {peerUni : StreamMap PeerUni}
    (h : ∀ other, other ≠ id → tunnels.lookup other = w.tunnels.lookup other) :
    Elsewhere id w { w with peerUni := peerUni, tunnels := tunnels } := by
  refine ⟨fun other hne => ?_, fun h => h⟩
  simp only [trace, h other hne]

theorem minds_forgetStream : Minds id (forgetStream id) := by
  refine (minds_onSession H3Session.minds_forget).bind fun _ => Minds.bind (fun w => ?_) fun _ => minds_dropOutbound
  exact .of_tunnels fun _ hne => AList.lookup_erase_ne hne

theorem minds_resetStream (error : Error) : Minds id (resetStream id error) :=
  minds_forgetStream.bind fun _ => (tracelessly_note rfl).minds.bind fun _ => (tracelessly_note rfl).minds

theorem tracelessly_relay (other : ℕ) (sink : Mailbox) (octets : Octets) (fin : Bool) :
    Tracelessly (relay other sink octets fin) := by
  intro w
  simp only [Act.run, relay]
  split_ifs
  · exact ⟨rfl, rfl, rfl, fun _ => rfl, rfl, .inr ⟨.relayed other octets fin, rfl, rfl⟩⟩
  · exact .refl w

theorem minds_feedTunnel (sink : Mailbox) (octets : Octets) (fin : Bool) : Minds id (feedTunnel id sink octets fin) := by
  refine (tracelessly_relay id sink octets fin).minds.bind fun answer => (tracelessly_demand _ _).minds.bind fun _ => ?_
  split_ifs
  · refine Minds.bind (fun w => ?_) fun _ => minds_onSession H3Session.minds_forget
    exact .of_tunnels fun _ hne => AList.lookup_erase_ne hne
  · exact fun w => .of_tunnels fun _ hne => AList.lookup_insert_ne hne

theorem minds_joinTunnel (sink : Mailbox) : Minds id (joinTunnel id sink) := by
  have hempty : H3Session.Minds id (fun s => (.ok ((s.streams.lookup id).map fun state => (state.buffer, state.eof)),
      { s with streams := StreamMap.modify s.streams id fun state => { state with buffer := [] } })) :=
    fun s => .of_lookup fun _ hne => (StreamMap.lookup_modify _ _ _ _).trans (if_neg hne)
  have htake : Minds id (takeUnparsed id) := minds_onSession hempty
  have hjoin (sink : Mailbox) :
      Minds id (Act.modify fun w => { w with tunnels := w.tunnels.insert id sink } : Step Unit) :=
    fun w => .of_tunnels fun _ hne => AList.lookup_insert_ne hne
  refine htake.bind fun unparsed => ?_
  rcases unparsed with _ | ⟨buffered, eof⟩
  · exact (tracelessly_pure _).minds.bind fun _ => hjoin _
  · dsimp only
    split_ifs
    · exact Minds.bind ((tracelessly_relay _ _ _ _).minds.map _) fun _ => hjoin _
    · exact (tracelessly_pure _).minds.bind fun _ => hjoin _

theorem minds_sendMessage_at (world : World) (m : Message) : Minds id (do
    onSession (H3Session.entry id)
    onSession (H3Session.modifyStream id fun state => { state with responded := true })
    frameInto world id m
    flushStream id
    onSession (H3Session.retire id)) :=
  (minds_onSession H3Session.minds_entry).bind fun _ => (minds_onSession (H3Session.minds_modifyStream _)).bind fun _ =>
    (minds_frameInto world m).bind fun _ => minds_flushStream.bind fun _ => minds_onSession H3Session.minds_retire

theorem minds_note {entry : Passage} (h : ∀ other, other ≠ id →
    entry.ends other = false ∧ entry.finishes other = false ∧ entry.cuts other = false) : Minds id (note entry) :=
  fun _ => .of_outbound (fun _ _ => rfl) h

theorem minds_abandon (code : ℕ) : Minds id (abandon id code) := by
  refine Minds.bind (fun w => ?_) fun _ => (minds_onSession H3Session.minds_retire).bind fun _ =>
    (tracelessly_note rfl).minds.bind fun _ => (tracelessly_note rfl).minds
  have hfirst : Elsewhere id w { w with tunnels := w.tunnels.erase id } :=
    .of_tunnels fun _ hne => AList.lookup_erase_ne hne
  refine hfirst.trans (.of_outbound (fun _ hne => AList.lookup_erase_ne hne) fun other hne => ⟨rfl, rfl, ?_⟩)
  exact beq_false_of_ne hne.symm

theorem minds_reporting {m : Step α} (h : Minds id m) : Minds id (reporting m) := by
  refine (minds_attempt h).bind fun outcome => ?_
  split
  · exact (tracelessly_pure _).minds
  · exact (tracelessly_tell _).minds.bind fun _ => (tracelessly_fail _).minds

theorem minds_countPremature : Minds id countPremature := by
  refine Minds.bind (Tracelessly.minds fun _ => ⟨rfl, rfl, rfl, fun _ => rfl, rfl, .inl rfl⟩) fun _ =>
    tracelessly_get.minds.bind fun w => ?_
  split_ifs
  · exact (tracelessly_note rfl).minds.bind fun _ => (tracelessly_fail _).minds
  · exact (tracelessly_pure _).minds

theorem minds_absorbReset (code : ℕ) : Minds id (absorbReset id code) := by
  refine (minds_note fun other hne => ⟨rfl, rfl, beq_false_of_ne hne.symm⟩).bind fun _ => ?_
  refine tracelessly_get.minds.bind fun w => (minds_onSession H3Session.minds_forget).bind fun _ => minds_forgetStream.bind fun _ => ?_
  have hlast : Minds id (do let _ ← tell (.failed (.stream id code "the peer reset the stream" []))) :=
    (tracelessly_tell _).minds.bind fun _ => (tracelessly_pure _).minds
  dsimp only
  split_ifs
  · exact (minds_reporting minds_countPremature).bind fun _ => hlast
  · exact hlast

/-! ## Moves -/

/-- A worker takes a move. -/
def Takes (world : World) (w w' : H3Worker) : Move → Prop
  | .write id octets fin => (write id octets fin).run w = (.ok (), w')
  | .flush id => (flushStream id).run w = (.ok (), w')
  | .command command => (execute world command).run w = (.ok (), w')
  | .read id octets fin => (absorb world id octets fin).run w = (.ok true, w')
  | .refused id octets fin => (absorb world id octets fin).run w = (.ok false, w')
  | .wasReset id code => (absorbReset id code).run w = (.ok (), w')
  | .aside => Traceless w w'

/-- From one state to another by moves. -/
abbrev Path (world : World) : H3Worker → H3Worker → Prop :=
  Relation.ReflTransGen fun w w' => ∃ move, Takes world w w' move

/-- Where a step succeeds, it is made of moves. -/
abbrev Walks (world : World) (m : Step α) : Prop := Act.Leads (Path world) m

variable {world : World}

theorem Walks.bind {m : Step α} {f : α → Step β} (hm : Walks world m) (hf : ∀ a, Walks world (f a)) :
    Walks world (m >>= f) :=
  @Act.Leads.bind _ _ _ _ (Path world) Relation.ReflTransGen.trans m f hm hf

theorem Tracelessly.walks {m : Step α} (h : Tracelessly m) : Walks world m := by
  exact fun w a w' hrun => .single ⟨.aside, h.run hrun⟩

theorem walks_get : Walks world (Act.get : Step H3Worker) := tracelessly_get.walks

theorem walks_pure (a : α) : Walks world (pure a : Step α) := (tracelessly_pure a).walks

theorem walks_reporting {m : Step α} (h : Walks world m) : Walks world (reporting m) := by
  intro w a w' hrun
  obtain ⟨outcome, w₁, hfirst, hlast⟩ := Act.of_run_bind_ok hrun
  cases outcome with
  | error error =>
    obtain ⟨_, w₂, -, hfail⟩ := Act.of_run_bind_ok hlast
    cases hfail
  | ok b =>
    cases hlast
    exact h w a w' (of_attempt hfirst)

theorem walks_write (id : ℕ) (octets : Octets) (fin : Bool) : Walks world (write id octets fin) :=
  fun _ _ _ hrun => .single ⟨.write id octets fin, hrun⟩

theorem walks_flushStream (id : ℕ) : Walks world (flushStream id) := fun _ _ _ hrun => .single ⟨.flush id, hrun⟩

theorem walks_execute (command : H3Command) : Walks world (execute world command) :=
  fun _ _ _ hrun => .single ⟨.command command, hrun⟩

theorem walks_absorb (id : ℕ) (octets : Octets) (fin : Bool) : Walks world (absorb world id octets fin) := by
  rintro w (_ | _) w' hrun
  · exact .single ⟨.refused id octets fin, hrun⟩
  · exact .single ⟨.read id octets fin, hrun⟩

theorem walks_absorbReset (id code : ℕ) : Walks world (absorbReset id code) :=
  fun _ _ _ hrun => .single ⟨.wasReset id code, hrun⟩

theorem tracelessly_receive : Tracelessly receive := fun _ => ⟨rfl, rfl, rfl, fun _ => rfl, rfl, .inl rfl⟩

theorem walks_drainStream (id fuel : ℕ) : Walks world (drainStream world id fuel) := by
  induction fuel with
  | zero => exact walks_pure ()
  | succ fuel ih =>
    refine walks_get.bind fun w => ?_
    split_ifs
    · exact walks_pure ()
    · refine (walks_reporting tracelessly_receive.walks).bind fun outcome => ?_
      cases outcome with
      | data octets fin =>
        refine (walks_absorb id octets fin).bind fun fine => ?_
        split_ifs
        · exact walks_pure ()
        · exact ih
      | done => exact walks_pure ()
      | reset code => exact walks_absorbReset id code

theorem walks_drainReads (readable : List ℕ) : Walks world (drainReads world readable) := by
  induction readable with
  | nil => exact walks_pure ()
  | cons id readable ih => exact walks_get.bind fun w => (walks_drainStream id _).bind fun _ => ih

theorem tracelessly_takeReady : Tracelessly (onSession H3Session.takeReady) := tracelessly_onSession fun s => by
  simp only [Act.run, H3Session.takeReady]
  split <;> exact ⟨rfl, rfl, rfl⟩

theorem walks_deliverLoop (fuel : ℕ) : Walks world (deliverLoop fuel) := by
  induction fuel with
  | zero => exact walks_pure ()
  | succ fuel ih =>
    refine tracelessly_takeReady.walks.bind fun found => ?_
    cases found with
    | none => exact walks_pure ()
    | some m =>
      refine (tracelessly_tell _).walks.bind fun outcome => ?_
      cases outcome with
      | full => exact Tracelessly.walks fun _ => ⟨rfl, rfl, rfl, fun _ => rfl, rfl, .inl rfl⟩
      | sent | closed => exact ih

theorem walks_deliverReady : Walks world deliverReady := walks_get.bind fun _ => walks_deliverLoop _

theorem walks_windDown : Walks world windDown := by
  refine walks_get.bind fun w => ?_
  split_ifs
  · exact walks_pure ()
  · exact walks_pure ()
  · exact Walks.bind (Tracelessly.walks fun _ => ⟨rfl, rfl, rfl, fun _ => rfl, rfl, .inl rfl⟩) fun _ =>
      Walks.bind (tracelessly_note rfl).walks fun _ => (tracelessly_tell _).walks.bind fun _ => walks_pure ()

theorem tracelessly_allocUni : Tracelessly allocUni := fun _ => ⟨rfl, rfl, rfl, fun _ => rfl, rfl, .inl rfl⟩

theorem walks_openUni (id : ℕ) (kind : StreamKind) : Walks world (openUni id kind) := by
  rw [openUni]
  split
  · exact Act.leads_fail _ _
  · exact walks_write _ _ _

theorem walks_onConnEstablished (secure : Bool) : Walks world (onConnEstablished secure) := by
  refine Walks.bind (Tracelessly.walks fun _ => ⟨rfl, rfl, rfl, fun _ => rfl, rfl, .inl rfl⟩) fun _ =>
    tracelessly_allocUni.walks.bind fun _ => tracelessly_allocUni.walks.bind fun _ => tracelessly_allocUni.walks.bind
    fun _ => Walks.bind (Tracelessly.walks fun _ => ⟨rfl, rfl, rfl, fun _ => rfl, rfl, .inl rfl⟩) fun _ =>
    walks_reporting ?_
  exact (walks_openUni _ _).bind fun _ => walks_get.bind fun _ => (walks_write _ _ _).bind fun _ =>
    (walks_openUni _ _).bind fun _ => walks_openUni _ _

theorem walks_executePending : Walks world (executePending world) := by
  refine walks_get.bind fun w => ?_
  split
  · exact walks_pure ()
  · split_ifs
    · exact walks_pure ()
    · exact Walks.bind (Tracelessly.walks fun _ => ⟨rfl, rfl, rfl, fun _ => rfl, rfl, .inl rfl⟩) fun _ => walks_execute _

theorem walks_commandLoop (fuel : ℕ) : Walks world (commandLoop world fuel) := by
  induction fuel with
  | zero => exact walks_pure ()
  | succ fuel ih =>
    refine walks_get.bind fun w => ?_
    split
    · refine Walks.bind (Tracelessly.walks fun _ => ⟨rfl, rfl, rfl, fun _ => rfl, rfl, .inl rfl⟩) fun _ => ?_
      split_ifs
      · exact Tracelessly.walks fun _ => ⟨rfl, rfl, rfl, fun _ => rfl, rfl, .inl rfl⟩
      · exact (walks_execute _).bind fun _ => ih
    · exact walks_pure ()

theorem tracelessly_takeRaw : Tracelessly takeRaw := by
  intro w
  simp only [Act.run, takeRaw]
  split <;> exact ⟨rfl, rfl, rfl, fun _ => rfl, rfl, .inl rfl⟩

theorem walks_rawLoop (fuel : ℕ) : Walks world (rawLoop fuel) := by
  induction fuel with
  | zero => exact walks_pure ()
  | succ fuel ih =>
    refine walks_get.bind fun w => ?_
    split_ifs
    · refine tracelessly_takeRaw.walks.bind fun found => ?_
      rcases found with _ | ⟨id, octets, fin⟩
      · exact walks_pure ()
      · exact (walks_write id octets fin).bind fun _ => ih
    · exact walks_pure ()

theorem walks_drainSideChannel (side : Side) : Walks world (drainSideChannel side) := by
  have htake : Tracelessly (takeQueued side) := by
    cases side <;> exact fun _ => ⟨rfl, rfl, rfl, fun _ => rfl, rfl, .inl rfl⟩
  refine htake.walks.bind fun queued => walks_get.bind fun w => ?_
  split_ifs
  · exact walks_pure ()
  · exact walks_write _ _ _

theorem walks_flushAll (ids : List ℕ) : Walks world (flushAll ids) := by
  induction ids with
  | nil => exact walks_pure ()
  | cons id ids ih => exact (walks_flushStream id).bind fun _ => ih

theorem walks_checkBlocked (expired : Bool) : Walks world (checkBlocked expired) := by
  refine walks_get.bind fun w => ?_
  split_ifs
  · exact (tracelessly_note rfl).walks.bind fun _ => Act.leads_fail _ _
  · exact walks_pure ()

theorem walks_processWrites (expired : Bool) : Walks world (processWrites world expired) := by
  refine (walks_reporting ?_).bind fun _ => walks_deliverReady.bind fun _ => walks_windDown
  exact (walks_checkBlocked expired).bind fun _ => walks_executePending.bind fun _ => walks_get.bind fun _ =>
    (walks_commandLoop _).bind fun _ => walks_get.bind fun _ => (walks_rawLoop _).bind fun _ =>
    ((walks_drainSideChannel .encoder).bind fun _ => walks_drainSideChannel .decoder).bind fun _ =>
    walks_get.bind fun _ => walks_flushAll _

/-- The ends a tunnel's channel comes to are no part of a trace. -/
theorem tracelessly_modifyTunnel (id : ℕ) (f : Mailbox → Mailbox) :
    Tracelessly (Act.modify fun w => { w with tunnels := w.tunnels.modify id f } : Step Unit) := by
  refine fun w => ⟨rfl, rfl, rfl, fun other => ?_, rfl, .inl rfl⟩
  rw [Act.run_modify, StreamMap.lookup_modify]
  split_ifs
  · exact Option.isSome_map
  · rfl

/-- Whatever a worker does with an input, it goes on with, it does in moves. -/
theorem take_path (world : World) (input : Input) : Walks world (take world input) := by
  cases input with
  | established secure => exact walks_onConnEstablished secure
  | asked | wrote | heard | orphaned => exact Tracelessly.walks fun _ => ⟨rfl, rfl, rfl, fun _ => rfl, rfl, .inl rfl⟩
  | drained id | hungUp id => exact (tracelessly_modifyTunnel id _).walks
  | waitedCommand =>
    refine (tracelessly_modify fun w => ?_).walks
    split_ifs
    · exact ⟨rfl, rfl, rfl, rfl⟩
    · split <;> exact ⟨rfl, rfl, rfl, rfl⟩
  | waitedRaw =>
    refine Tracelessly.walks fun w => ?_
    simp only [Act.run, take, waitRaw]
    split_ifs
    · exact .refl w
    · split <;> exact ⟨rfl, rfl, rfl, fun _ => rfl, rfl, .inl rfl⟩
  | reads readable => exact (walks_drainReads readable).bind fun _ => walks_deliverReady.bind fun _ => walks_windDown
  | writes expired => exact walks_processWrites expired

/-! ## The stream a move is about -/

/-- The stream a message or a tunnel, octets or a reset are for. What arrives on a stream the peer
    may write alone is for the connection. -/
def aim (w : H3Worker) : Move → Option ℕ
  | .write id _ _ | .flush id | .wasReset id _ => some id
  | .command (.send m) => some (m.streamId.getD w.session.nextStreamId)
  | .command .openBidi => some w.session.nextStreamId
  | .command (.openUni _) => some w.nextUni
  | .command (.tunnel id _) | .command (.reset id _) => some id
  | .command (.writeEncoder _) => some w.localEncoder
  | .read id _ _ | .refused id _ _ => if QUICStreamID.isBidi id then some id else none
  | .command .close | .aside => none

theorem goaway_elsewhere (w : H3Worker) : Elsewhere w.localControl w (goaway.run w).2 := by
  rw [goaway, Act.run_bind_ok (Act.run_get w)]
  dsimp only
  split_ifs
  · exact .refl w
  · refine Minds.bind (minds_write _ _) (fun _ => ?_) w
    exact Tracelessly.minds fun _ => ⟨rfl, rfl, rfl, fun _ => rfl, rfl, .inl rfl⟩

theorem minds_reject (other : ℕ) : Minds id (reject other) := by
  refine Minds.bind (Tracelessly.minds fun w => ?_) fun _ => tracelessly_get.minds.bind fun w => ?_
  · rw [Act.run_modify]
    split_ifs
    · exact ⟨rfl, rfl, rfl, fun _ => rfl, rfl, .inl rfl⟩
    · exact .refl w
  · split_ifs
    · exact Minds.bind (tracelessly_note rfl).minds fun _ => (tracelessly_fail _).minds
    · exact Minds.bind (tracelessly_note rfl).minds fun _ => (tracelessly_note rfl).minds

/-- What arrives on a request stream is for that stream, but for the GOAWAY it may call for. -/
theorem dispatch_elsewhere (world : World) (hbidi : QUICStreamID.isBidi id = true) (octets : Octets) (fin : Bool)
    (w : H3Worker) : ∃ w₁, Elsewhere id w w₁ ∧ Elsewhere w.localControl w₁ ((dispatch world id octets fin).run w).2 := by
  rw [dispatch, Act.run_bind_ok (Act.run_get w)]
  split
  · exact ⟨_, minds_feedTunnel _ octets fin w, .refl _⟩
  · rw [if_pos hbidi]
    split_ifs
    · exact ⟨_, minds_reject id w, .refl _⟩
    · have hsession : Elsewhere id w ((onSession (H3Session.onStreamBytes world id octets fin)).run w).2 :=
        minds_onSession (H3Session.minds_onStreamBytes world octets fin) w
      rw [Act.run_bind]
      rcases hrun : (onSession (H3Session.onStreamBytes world id octets fin)).run w with ⟨error | _, w₁⟩
      · rw [hrun] at hsession
        exact ⟨w₁, hsession, .refl _⟩
      · rw [hrun] at hsession
        have hcontrol : w₁.localControl = w.localControl := congrArg (fun x => (Prod.snd x).localControl) hrun.symm
        exact ⟨w₁, hsession, hcontrol ▸ goaway_elsewhere w₁⟩

/-- What arrives is noted, and either taken in or the reason to reset the stream. -/
theorem absorb_ok {octets : Octets} {fin fine : Bool} (hrun : (absorb world id octets fin).run w = (.ok fine, w')) :
    (fine = true ∧ (dispatch world id octets fin).run { w with passed := .read id octets fin :: w.passed } = (.ok (), w')) ∨
      ∃ error w₁ w₂, fine = false ∧
        (dispatch world id octets fin).run { w with passed := .read id octets fin :: w.passed } = (.error error, w₁) ∧
        (resetStream id error).run w₁ = (.ok (), w₂) ∧ Traceless w₂ w' := by
  obtain ⟨_, w₁, hnote, hrest⟩ := Act.of_run_bind_ok hrun
  cases hnote
  obtain ⟨outcome, w₂, hattempt, hlast⟩ := Act.of_run_bind_ok hrest
  have hdispatch := of_attempt hattempt
  split at hlast
  · cases hlast
    exact .inl ⟨rfl, hdispatch⟩
  · obtain ⟨_, w₃, hreset, htold⟩ := Act.of_run_bind_ok hlast
    obtain ⟨_, w₄, htell, hpure⟩ := Act.of_run_bind_ok htold
    cases hpure
    exact .inr ⟨_, w₂, w₃, rfl, hdispatch, hreset, (tracelessly_tell _).run htell⟩
  · obtain ⟨outcome, w₃, hfail, herror⟩ := Act.of_run_bind_ok hlast
    cases hfail
    obtain ⟨_, w₄, -, hfail⟩ := Act.of_run_bind_ok herror
    cases hfail

theorem Minds.run {m : Step α} {answer : Except Error α} (h : Minds id m) (hrun : m.run w = (answer, w')) :
    Elsewhere id w w' := by
  have := h w
  rwa [hrun] at this

theorem run_openBidi (s : H3Session) : H3Session.openBidi.run s = (.ok s.nextStreamId,
    ((H3Session.entry s.nextStreamId).run { s with nextStreamId := s.nextStreamId + QUICStreamID.STEP }).2) := rfl

theorem openBidi_elsewhere (w : H3Worker) :
    Elsewhere w.session.nextStreamId w ((onSession H3Session.openBidi).run w).2 := by
  have hminds : Minds w.session.nextStreamId (onSession (H3Session.entry w.session.nextStreamId)) :=
    minds_onSession H3Session.minds_entry
  have hentry := hminds { w with session := { w.session with nextStreamId := w.session.nextStreamId + QUICStreamID.STEP } }
  exact ⟨hentry.others, hentry.distinct⟩

theorem sendMessage_elsewhere (world : World) (m : Message) (w : H3Worker) :
    Elsewhere (m.streamId.getD w.session.nextStreamId) w ((sendMessage world m).run w).2 := by
  rw [sendMessage, streamOf]
  cases m.streamId with
  | some id => exact minds_sendMessage_at world m w
  | none => exact (openBidi_elsewhere w).trans (minds_sendMessage_at world m _)

theorem execute_elsewhere (world : World) {command : H3Command} (haim : w.aim (.command command) = some id) :
    Elsewhere id w ((execute world command).run w).2 := by
  cases command with
  | send m =>
    cases haim
    exact sendMessage_elsewhere world m w
  | openBidi =>
    cases haim
    exact (openBidi_elsewhere w).trans ((tracelessly_note rfl).minds _)
  | openUni kind =>
    cases haim
    refine (tracelessly_allocUni.minds w).trans ?_
    refine Minds.bind (f := fun _ => note (.opened w.nextUni)) ?_ (fun _ => (tracelessly_note rfl).minds) _
    rw [openUni]
    split
    · exact (tracelessly_fail _).minds
    · exact minds_write _ _
  | tunnel stream sink =>
    cases haim
    exact minds_joinTunnel sink w
  | writeEncoder octets =>
    cases haim
    exact minds_write octets false w
  | reset stream code =>
    cases haim
    exact minds_abandon code w
  | close => cases haim

/-- A move leaves the traces of other streams alone. -/
theorem elsewhere_takes {move : Move} (htakes : Takes world w w' move) (haim : w.aim move = some id) (hne : other ≠ id)
    (hcontrol : other ≠ w.localControl) : w'.trace other = w.trace other := by
  have habsorb {stream : ℕ} {octets : Octets} {fin fine : Bool} (hbidi : QUICStreamID.isBidi stream = true)
      (hne : other ≠ stream) (hrun : (absorb world stream octets fin).run w = (.ok fine, w')) :
      w'.trace other = w.trace other := by
    obtain ⟨w₁, hfirst, hsecond⟩ := dispatch_elsewhere world hbidi octets fin
      { w with passed := .read stream octets fin :: w.passed }
    have hnoted : Elsewhere stream w { w with passed := .read stream octets fin :: w.passed } :=
      minds_note (fun other hne => ⟨by rw [Passage.ends, beq_false_of_ne hne.symm, Bool.false_and], rfl, rfl⟩) w
    have hsame := (hsecond.others other hcontrol).trans ((hnoted.trans hfirst).others other hne)
    obtain ⟨-, hdispatch⟩ | ⟨error, w₂, w₃, -, hdispatch, hreset, htold⟩ := absorb_ok hrun
    · rwa [hdispatch] at hsame
    · rw [hdispatch] at hsame
      rw [htold.trace, ((minds_resetStream error).run hreset).others other hne, hsame]
  cases move with
  | write stream octets fin =>
    cases haim
    exact (Minds.run (minds_write octets fin) htakes).others other hne
  | flush stream =>
    cases haim
    exact (Minds.run minds_flushStream htakes).others other hne
  | command command =>
    have := execute_elsewhere world haim
    rw [show (execute world command).run w = (.ok (), w') from htakes] at this
    exact this.others other hne
  | read stream octets fin =>
    rw [aim] at haim
    split_ifs at haim with hbidi
    cases haim
    exact habsorb hbidi hne htakes
  | refused stream octets fin =>
    rw [aim] at haim
    split_ifs at haim with hbidi
    cases haim
    exact habsorb hbidi hne htakes
  | wasReset stream code =>
    cases haim
    exact (Minds.run (minds_absorbReset code) htakes).others other hne
  | aside => cases haim

end H3Worker

end Soyokaze

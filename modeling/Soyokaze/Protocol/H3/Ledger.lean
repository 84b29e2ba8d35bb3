import Soyokaze.Lib.Outlet
import Soyokaze.Protocol.H3.Worker

/-!
# A worker's accounts of its output

What a worker has waiting to be sent, the count it keeps of it, and the record of what
passed make up its *ledger*. Everything a worker does comes down to a few entries there,
whatever else it does to its session or its tunnels.

* `H3Worker.accounts_after`: a run of the worker is a run of entries in its ledger.
-/

namespace Soyokaze

/-- Whether an entry of the record is about what is waiting to be sent. -/
def Passage.accounts : Passage → Bool
  | .queued .. | .sent .. | .dropped .. | .unframed .. | .reset .. => true
  | _ => false

namespace H3

/-- What a worker has waiting, how much it counts, and what passed. -/
structure Ledger where
  outbound : StreamMap (Octets × Bool)
  bytes : ℕ
  passed : List Passage

namespace Ledger

/-- What a stream has waiting to be sent, and whether it ends with it. -/
def waiting (l : Ledger) (id : ℕ) : Octets × Bool := (l.outbound.lookup id).getD ([], false)

def record (l : Ledger) (entry : Passage) : Ledger := { l with passed := entry :: l.passed }

/-- Octets are put behind what a stream has waiting. -/
def queue (l : Ledger) (id : ℕ) (wasWaiting : Bool) (octets : Octets) (fin : Bool) : Ledger where
  outbound := l.outbound.insert id ((l.waiting id).1 ++ octets, (l.waiting id).2 || fin)
  bytes := l.bytes + octets.length
  passed := .queued id wasWaiting octets fin :: l.passed

/-- The transport takes so many octets of what a stream has waiting. -/
def send (l : Ledger) (id count : ℕ) (buffer : Octets) (fin : Bool) : Ledger where
  outbound := if (buffer.drop count).isEmpty then l.outbound.erase id else l.outbound.insert id (buffer.drop count, fin)
  bytes := l.bytes - count
  passed := .sent id (buffer.take count) (fin && (buffer.drop count).isEmpty) :: l.passed

/-- What a stream has waiting is dropped. -/
def drop (l : Ledger) (id : ℕ) (buffer : Octets) : Ledger where
  outbound := l.outbound.erase id
  bytes := l.bytes - buffer.length
  passed := .dropped id buffer :: l.passed

/-- A stream is reset by the handle. What it has waiting goes, and stays in the count. -/
def abandon (l : Ledger) (id code : ℕ) : Ledger where
  outbound := l.outbound.erase id
  bytes := l.bytes
  passed := .reset id code (l.waiting id).1 :: l.passed

/-- A message is not framed, and what was there to frame it behind stays. -/
def unframe (l : Ledger) (id : ℕ) : Ledger where
  outbound := if (l.outbound.lookup id).isSome then l.outbound else l.outbound.insert id ([], false)
  bytes := l.bytes
  passed := .unframed id (l.outbound.lookup id).isSome :: l.passed

/-- One entry. -/
inductive Step (l : Ledger) : Ledger → Prop
  | record (entry : Passage) (h : entry.accounts = false) : Step l (l.record entry)
  | queue (id : ℕ) (wasWaiting : Bool) (octets : Octets) (fin : Bool)
      (h : wasWaiting = (l.outbound.lookup id).isSome ∨ octets ≠ []) : Step l (l.queue id wasWaiting octets fin)
  | send (id count : ℕ) (buffer : Octets) (fin : Bool) (h : l.outbound.lookup id = some (buffer, fin))
      (hcount : count ≤ buffer.length) (hoffer : buffer ≠ [] ∨ fin) : Step l (l.send id count buffer fin)
  | drop (id : ℕ) (buffer : Octets) (fin : Bool) (h : l.outbound.lookup id = some (buffer, fin)) : Step l (l.drop id buffer)
  | abandon (id code : ℕ) : Step l (l.abandon id code)
  | unframe (id : ℕ) : Step l (l.unframe id)

/-- A run of entries. -/
abbrev Run : Ledger → Ledger → Prop := Relation.ReflTransGen Step

end Ledger

end H3

open H3

namespace H3Session

/-- A message that is framed is framed in some octets. -/
theorem frameMessage_ne_nil {world : World} {id : ℕ} {m : Message} {s s' : H3Session} {octets : Octets} {fin : Bool}
    (h : (frameMessage world id m).run s = (.ok (octets, fin), s')) : octets ≠ [] := by
  rw [frameMessage] at h
  obtain ⟨_, _, -, h⟩ := Act.of_run_bind_ok h
  obtain ⟨_, _, -, h⟩ := Act.of_run_bind_ok h
  obtain ⟨fields, _, -, h⟩ := Act.of_run_bind_ok h
  obtain ⟨head, _, hhead, h⟩ := Act.of_run_bind_ok h
  obtain ⟨_, _, -, h⟩ := Act.of_run_bind_ok h
  obtain ⟨_, _, -, h⟩ := Act.of_run_bind_ok h
  obtain ⟨_, _, -, h⟩ := Act.of_run_bind_ok h
  obtain ⟨_, _, -, h⟩ := Act.of_run_bind_ok h
  obtain ⟨_, _, -, h⟩ := Act.of_run_bind_ok h
  obtain ⟨_, _, -, h⟩ := Act.of_run_bind_ok h
  cases h
  cases hhead
  have hkind := Frame.length_encode_varint FrameType.headers.code
  have hpos := Frame.len_pos FrameType.headers.code
  intro hnil
  have hlength := congrArg List.length hnil
  simp only [Frame.write, List.length_append, List.length_nil] at hlength
  omega

end H3Session

namespace H3Worker

/-- The ledger a worker keeps. -/
def ledger (w : H3Worker) : Ledger := ⟨w.outbound, w.outboundBytes, w.passed⟩

/-- Between two states lie only entries in the ledger. -/
def Accounts (w w' : H3Worker) : Prop := Ledger.Run w.ledger w'.ledger

theorem Accounts.refl (w : H3Worker) : Accounts w w := Relation.ReflTransGen.refl

theorem Accounts.trans {a b c : H3Worker} (h : Accounts a b) (h' : Accounts b c) : Accounts a c :=
  Relation.ReflTransGen.trans h h'

theorem Accounts.of_eq {w w' : H3Worker} (h : w'.ledger = w.ledger) : Accounts w w' := by
  rw [Accounts, h]

theorem Accounts.of_step {w w' : H3Worker} {l : Ledger} (hstep : Ledger.Step w.ledger l) (h : w'.ledger = l) :
    Accounts w w' := by
  rw [Accounts, h]
  exact Relation.ReflTransGen.single hstep

/-- A step that comes down to entries in the ledger, however it ends. -/
abbrev Accounted {α : Type} (m : Step α) : Prop := Act.Keeps Accounts m

variable {α β : Type} {world : World}

theorem Accounted.bind {m : Step α} {f : α → Step β} (hm : Accounted m) (hf : ∀ a, Accounted (f a)) :
    Accounted (m >>= f) :=
  @Act.Keeps.bind _ _ _ _ Accounts Accounts.trans m f hm hf

/-! ## Steps the ledger has no entry of -/

theorem accounted_of_eq {m : Step α} (h : ∀ w, (m.run w).2.ledger = w.ledger) : Accounted m := fun w => .of_eq (h w)

theorem accounted_pure (a : α) : Accounted (pure a : Step α) := accounted_of_eq fun _ => rfl

theorem accounted_get : Accounted (Act.get : Step H3Worker) := accounted_of_eq fun _ => rfl

theorem accounted_fail (error : Error) : Accounted (Act.fail error : Step α) := accounted_of_eq fun _ => rfl

theorem accounted_ofExcept (x : Except Error α) : Accounted (Act.ofExcept x : Step α) := accounted_of_eq fun _ => rfl

theorem accounted_demand (condition : Bool) (error : Error) : Accounted (Act.demand condition error : Step Unit) :=
  accounted_of_eq fun _ => rfl

theorem accounted_modify {f : H3Worker → H3Worker} (h : ∀ w, (f w).ledger = w.ledger) :
    Accounted (Act.modify f : Step Unit) := accounted_of_eq h

/-- The session keeps no part of the ledger. -/
theorem accounted_onSession (m : H3Session.Step α) : Accounted (onSession m) := accounted_of_eq fun _ => rfl

theorem accounted_note {entry : Passage} (h : entry.accounts = false) : Accounted (note entry) := fun _ =>
  .of_step (.record entry h) rfl

theorem accounted_attempt {m : Step α} (h : Accounted m) : Accounted (attempt m) := h

theorem accounted_tell (event : H3Event) : Accounted (tell event) := by
  intro w
  rcases h : w.events.trySend with ⟨_ | _ | _, events⟩
  · exact .of_step (.record (.told event) rfl) (by simp only [Act.run, tell, h]; rfl)
  · exact .of_eq (by simp only [Act.run, tell, h]; rfl)
  · exact .of_eq (by simp only [Act.run, tell, h]; rfl)

theorem accounted_reporting {m : Step α} (h : Accounted m) : Accounted (reporting m) :=
  (accounted_attempt h).bind fun outcome => match outcome with
    | .ok a => accounted_pure a
    | .error error => (accounted_tell _).bind fun _ => accounted_fail error

theorem accounted_shutdownWrite (id code : ℕ) : Accounted (shutdownWrite id code) := accounted_note rfl

theorem accounted_shutdownRead (id code : ℕ) : Accounted (shutdownRead id code) := accounted_note rfl

theorem accounted_closeTransport (code : ℕ) : Accounted (closeTransport code) := accounted_note rfl

theorem accounted_relay (id : ℕ) (sink : Mailbox) (octets : Octets) (fin : Bool) :
    Accounted (relay id sink octets fin) := by
  intro w
  rcases em (sink.trySend.1 = .sent) with h | h
  · exact .of_step (.record (.relayed id octets fin) rfl) (by simp only [Act.run, relay, h, if_true]; rfl)
  · exact .of_eq (by simp only [Act.run, relay, h, if_false])

/-! ## Steps that write -/

theorem accounted_dropOutbound (id : ℕ) : Accounted (dropOutbound id) := by
  intro w
  rcases h : w.outbound.lookup id with _ | ⟨buffer, fin⟩
  · exact .of_eq (by simp only [Act.run, dropOutbound, Act.modify, h])
  · exact .of_step (.drop id buffer fin h) (by simp only [Act.run, dropOutbound, Act.modify, h]; rfl)

theorem accounted_enqueue (id : ℕ) (octets : Octets) (fin : Bool) : Accounted (enqueue id octets fin) := fun w =>
  .of_step (.queue id (w.outbound.lookup id).isSome octets fin (.inl rfl)) rfl

/-- What the transport says it took is no more than it was offered. -/
theorem offer_le {buffer : Octets} {w w' : H3Worker} {count : ℕ} (h : (offer buffer).run w = (.ok (.sent count), w')) :
    count ≤ buffer.length ∧ w'.ledger = w.ledger := by
  simp only [Act.run, offer, Prod.mk.injEq] at h
  obtain ⟨hsend, rfl⟩ := h
  refine ⟨?_, rfl⟩
  rw [QUICTransport.send] at hsend
  split at hsend
  · cases hsend
    exact Nat.le_refl _
  · cases hsend
  · cases hsend
    exact Nat.min_le_right _ _
  · next houtcome _ =>
    cases hsend
    exact absurd rfl (houtcome count)

theorem accounted_offer (buffer : Octets) : Accounted (offer buffer) := accounted_of_eq fun _ => rfl

theorem accounted_flushStream (id : ℕ) : Accounted (flushStream id) := by
  refine Act.keeps_get_bind fun w => ?_
  rcases hlookup : w.outbound.lookup id with _ | ⟨buffer, fin⟩
  · exact .refl w
  · dsimp only
    split_ifs with hnothing
    · exact .refl w
    · rw [Act.run_bind]
      rcases hoffer : (offer buffer).run w with ⟨_ | outcome, w₁⟩
      · have := accounted_offer buffer w
        rwa [hoffer] at this
      · cases outcome with
        | sent count =>
          obtain ⟨hcount, hsame⟩ := offer_le hoffer
          refine (Accounts.of_eq hsame).trans (.of_step (.send id count buffer fin ?_ hcount ?_) rfl)
          · exact (congrArg (·.outbound.lookup id) hsame).trans hlookup
          · simpa [List.isEmpty_iff, or_iff_not_imp_left] using hnothing
        | blocked =>
          have := accounted_offer buffer w
          rwa [hoffer] at this
        | stopped code =>
          have hfirst := accounted_offer buffer w
          rw [hoffer] at hfirst
          exact hfirst.trans (((accounted_dropOutbound id).bind fun _ =>
            (accounted_tell _).bind fun _ => accounted_pure _) w₁)

theorem accounted_write (id : ℕ) (octets : Octets) (fin : Bool) : Accounted (write id octets fin) :=
  (accounted_enqueue id octets fin).bind fun _ => accounted_flushStream id

theorem accounted_openUni (id : ℕ) (kind : StreamKind) : Accounted (openUni id kind) := by
  rw [openUni]
  split
  · exact accounted_fail _
  · exact accounted_write _ _ _

theorem accounted_drainSideChannel (side : Side) : Accounted (drainSideChannel side) := by
  have htake : Accounted (takeQueued side) := accounted_of_eq fun w => by cases side <;> rfl
  refine htake.bind fun queued => accounted_get.bind fun w => ?_
  split_ifs
  · exact accounted_pure _
  · exact accounted_write _ _ _

theorem accounted_drainSideChannels : Accounted drainSideChannels :=
  (accounted_drainSideChannel .encoder).bind fun _ => accounted_drainSideChannel .decoder

/-! ## Commands -/

theorem claimOutbound_ledger (id : ℕ) (w : H3Worker) : (((claimOutbound id).run w).2).ledger =
    { w.ledger with outbound := if (w.outbound.lookup id).isSome then w.outbound else w.outbound.insert id ([], false) } := by
  simp only [Act.run, claimOutbound, Act.modify, ledger]
  split_ifs <;> rfl

/-- Putting octets behind nothing that was just put there is putting them there. -/
theorem queue_claimed (l : Ledger) (id : ℕ) (octets : Octets) (fin : Bool) :
    ({ l with outbound := if (l.outbound.lookup id).isSome then l.outbound else l.outbound.insert id ([], false) }).queue
      id true octets fin = l.queue id true octets fin := by
  split_ifs with h
  · rfl
  · have hnone : l.outbound.lookup id = none := by simpa using h
    simp only [Ledger.queue, Ledger.waiting, hnone, AList.lookup_insert, AList.insert_insert, Option.getD]

theorem accounted_frameInto (world : World) (id : ℕ) (m : Message) : Accounted (frameInto world id m) := by
  refine Act.keeps_get_bind fun w => ?_
  have hclaim := claimOutbound_ledger id w
  rcases hrun : (claimOutbound id).run w with ⟨answer, w₁⟩
  rw [hrun] at hclaim
  have hanswer : answer = .ok () := congrArg Prod.fst hrun.symm
  rw [Act.run_bind, hrun, hanswer]
  rcases hframe : (H3Session.frameMessage world id m).run w₁.session with ⟨error | ⟨octets, fin⟩, s⟩
  · refine .of_step (.unframe id) ?_
    have hw : ((attempt (onSession (H3Session.frameMessage world id m))).run w₁) =
        (.ok (.error error), { w₁ with session := s }) := by
      simp only [Act.run, attempt, onSession] at hframe ⊢
      rw [hframe]
    dsimp only
    rw [Act.run_bind_ok hw]
    exact congrArg (·.record (.unframed id (w.outbound.lookup id).isSome)) hclaim
  · refine .of_step (.queue id true octets fin (.inr (H3Session.frameMessage_ne_nil hframe))) ?_
    have hw : ((attempt (onSession (H3Session.frameMessage world id m))).run w₁) =
        (.ok (.ok (octets, fin)), { w₁ with session := s }) := by
      simp only [Act.run, attempt, onSession] at hframe ⊢
      rw [hframe]
    dsimp only
    rw [Act.run_bind_ok hw, ← queue_claimed w.ledger]
    have hsome : (w₁.outbound.lookup id).isSome = true := by
      have := congrArg (·.outbound.lookup id) hclaim
      dsimp only [ledger] at this
      rw [this]
      split_ifs with h
      · exact h
      · rw [AList.lookup_insert]
        rfl
    change (w₁.ledger.queue id (w₁.outbound.lookup id).isSome octets fin) = _
    rw [hclaim, hsome]
    rfl

theorem accounted_streamOf (m : Message) : Accounted (streamOf m) := by
  rw [streamOf]
  split
  · exact accounted_pure _
  · exact accounted_onSession _

theorem accounted_sendMessage (world : World) (m : Message) : Accounted (sendMessage world m) :=
  (accounted_streamOf m).bind fun id => (accounted_onSession _).bind fun _ => (accounted_onSession _).bind fun _ =>
    (accounted_frameInto world id m).bind fun _ => (accounted_flushStream id).bind fun _ => accounted_onSession _

theorem accounted_joinTunnel (id : ℕ) (sink : Mailbox) : Accounted (joinTunnel id sink) := by
  have htake : Accounted (takeUnparsed id) := accounted_of_eq fun _ => rfl
  have hjoin (sink : Mailbox) :
      Accounted (Act.modify fun w => { w with tunnels := w.tunnels.insert id sink } : Step Unit) :=
    accounted_modify fun _ => rfl
  refine htake.bind fun unparsed => ?_
  rcases unparsed with _ | ⟨buffered, eof⟩
  · exact (accounted_pure _).bind fun _ => hjoin _
  · dsimp only
    split_ifs
    · exact Accounted.bind ((accounted_relay _ _ _ _).map _) fun _ => hjoin _
    · exact (accounted_pure _).bind fun _ => hjoin _

theorem accounted_abandon (id code : ℕ) : Accounted (abandon id code) := by
  refine Accounted.bind (fun w => .of_step (.abandon id code) rfl) fun _ => ?_
  exact (accounted_onSession _).bind fun _ => (accounted_shutdownWrite _ _).bind fun _ => accounted_shutdownRead _ _

theorem accounted_allocUni : Accounted allocUni := accounted_of_eq fun _ => rfl

theorem accounted_execute (world : World) (command : H3Command) : Accounted (execute world command) := by
  cases command with
  | send m => exact accounted_sendMessage world m
  | openBidi => exact (accounted_onSession _).bind fun _ => accounted_note rfl
  | openUni kind => exact accounted_allocUni.bind fun id => (accounted_openUni id kind).bind fun _ => accounted_note rfl
  | tunnel id sink => exact accounted_joinTunnel id sink
  | writeEncoder octets => exact accounted_get.bind fun _ => accounted_write _ _ _
  | reset id code => exact accounted_abandon id code
  | close => exact accounted_closeTransport _

/-! ## Receiving -/

theorem accounted_overloaded (reason : String) (quoted : List Quoted) : Accounted (overloaded reason quoted) :=
  (accounted_closeTransport _).bind fun _ => accounted_fail _

theorem accounted_goaway : Accounted goaway := by
  refine accounted_get.bind fun w => ?_
  dsimp only
  split_ifs
  · exact accounted_pure _
  · exact (accounted_write _ _ _).bind fun _ => accounted_modify fun _ => rfl

theorem accounted_reject (id : ℕ) : Accounted (reject id) := by
  refine Accounted.bind (accounted_modify fun w => ?_) fun _ => accounted_get.bind fun w => ?_
  · split_ifs <;> rfl
  · split_ifs
    · exact accounted_overloaded _ _
    · exact (accounted_shutdownWrite _ _).bind fun _ => accounted_shutdownRead _ _

theorem accounted_windDown : Accounted windDown := by
  refine accounted_get.bind fun w => ?_
  split_ifs
  · exact accounted_pure _
  · exact accounted_pure _
  · exact Accounted.bind (accounted_modify fun _ => rfl) fun _ => (accounted_closeTransport _).bind fun _ =>
      (accounted_tell _).bind fun _ => accounted_pure _

theorem accounted_feedUniKind (world : World) (octets : Octets) (kind : StreamKind) :
    Accounted (feedUniKind world octets kind) := by
  cases kind with
  | control | qpackEncoder | qpackDecoder => exact accounted_onSession _
  | push | request => exact accounted_pure _

theorem accounted_modifyUni (id : ℕ) (f : PeerUni → PeerUni) : Accounted (modifyUni id f) := accounted_modify fun _ => rfl

theorem accounted_feedPrefix (world : World) (id : ℕ) (read : Octets) : Accounted (feedPrefix world id read) := by
  rw [feedPrefix]
  split
  split_ifs
  · exact accounted_demand _ _
  · split
    · exact (accounted_modifyUni _ _).bind fun _ => accounted_shutdownRead _ _
    · exact (accounted_modifyUni _ _).bind fun _ => accounted_feedUniKind _ _ _

theorem accounted_feedUniBytes (world : World) (id : ℕ) (octets : Octets) : Accounted (feedUniBytes world id octets) := by
  refine accounted_get.bind fun w => ?_
  dsimp only
  split_ifs
  · exact accounted_pure _
  · split
    · exact accounted_feedUniKind _ _ _
    · exact (accounted_demand _ _).bind fun _ => Accounted.bind (accounted_modify fun _ => rfl) fun _ =>
        accounted_feedPrefix _ _ _

theorem accounted_feedUni (world : World) (id : ℕ) (octets : Octets) (fin : Bool) :
    Accounted (feedUni world id octets fin) := by
  refine (accounted_attempt (accounted_feedUniBytes world id octets)).bind fun outcome => ?_
  refine Accounted.bind (accounted_modify fun w => ?_) fun _ => accounted_ofExcept outcome
  split_ifs <;> rfl

theorem accounted_feedTunnel (id : ℕ) (sink : Mailbox) (octets : Octets) (fin : Bool) :
    Accounted (feedTunnel id sink octets fin) := by
  refine (accounted_relay id sink octets fin).bind fun answer => (accounted_demand _ _).bind fun _ => ?_
  split_ifs
  · exact Accounted.bind (accounted_modify fun _ => rfl) fun _ => accounted_onSession _
  · exact accounted_modify fun _ => rfl

theorem accounted_dispatch (world : World) (id : ℕ) (octets : Octets) (fin : Bool) :
    Accounted (dispatch world id octets fin) := by
  refine accounted_get.bind fun w => ?_
  split
  · exact accounted_feedTunnel _ _ _ _
  · split_ifs
    · exact accounted_reject id
    · exact (accounted_onSession _).bind fun _ => accounted_goaway
    · exact accounted_feedUni _ _ _ _

theorem accounted_forgetStream (id : ℕ) : Accounted (forgetStream id) :=
  (accounted_onSession _).bind fun _ => Accounted.bind (accounted_modify fun _ => rfl) fun _ => accounted_dropOutbound id

theorem accounted_resetStream (id : ℕ) (error : Error) : Accounted (resetStream id error) :=
  (accounted_forgetStream id).bind fun _ => (accounted_shutdownWrite _ _).bind fun _ => accounted_shutdownRead _ _

theorem accounted_absorb (world : World) (id : ℕ) (octets : Octets) (fin : Bool) :
    Accounted (absorb world id octets fin) := by
  refine (accounted_note rfl).bind fun _ => (accounted_attempt (accounted_dispatch world id octets fin)).bind
    fun outcome => ?_
  split
  · exact accounted_pure _
  · exact (accounted_resetStream _ _).bind fun _ => (accounted_tell _).bind fun _ => accounted_pure _
  · exact accounted_reporting (accounted_fail _)

theorem accounted_countPremature : Accounted countPremature := by
  refine Accounted.bind (accounted_modify fun _ => rfl) fun _ => accounted_get.bind fun w => ?_
  split_ifs
  · exact accounted_overloaded _ _
  · exact accounted_pure _

theorem accounted_absorbReset (id code : ℕ) : Accounted (absorbReset id code) := by
  refine (accounted_note rfl).bind fun _ => accounted_get.bind fun w => (accounted_onSession _).bind fun _ =>
    (accounted_forgetStream id).bind fun _ => ?_
  dsimp only
  split_ifs
  · exact (accounted_reporting accounted_countPremature).bind fun _ => (accounted_tell _).bind fun _ => accounted_pure _
  · exact (accounted_pure _).bind fun _ => (accounted_tell _).bind fun _ => accounted_pure _

theorem accounted_drainStream (world : World) (id fuel : ℕ) : Accounted (drainStream world id fuel) := by
  induction fuel with
  | zero => exact accounted_pure _
  | succ fuel ih =>
    have hreceive : Accounted receive := accounted_of_eq fun _ => rfl
    refine accounted_get.bind fun w => ?_
    split_ifs
    · exact accounted_pure _
    · refine (accounted_reporting hreceive).bind fun outcome => ?_
      split
      · refine (accounted_absorb _ _ _ _).bind fun fine => ?_
        split_ifs
        · exact accounted_pure _
        · exact ih
      · exact accounted_pure _
      · exact accounted_absorbReset _ _

theorem accounted_drainReads (world : World) (readable : List ℕ) : Accounted (drainReads world readable) := by
  induction readable with
  | nil => exact accounted_pure _
  | cons id readable ih => exact accounted_get.bind fun _ => (accounted_drainStream _ _ _).bind fun _ => ih

/-! ## What the QUIC driver calls -/

theorem accounted_deliverLoop (fuel : ℕ) : Accounted (deliverLoop fuel) := by
  induction fuel with
  | zero => exact accounted_pure _
  | succ fuel ih =>
    refine (accounted_onSession _).bind fun ready => ?_
    split
    · exact accounted_pure _
    · refine (accounted_tell _).bind fun outcome => ?_
      split
      · exact accounted_modify fun _ => rfl
      · exact ih

theorem accounted_deliverReady : Accounted deliverReady := accounted_get.bind fun _ => accounted_deliverLoop _

theorem accounted_onConnEstablished (secure : Bool) : Accounted (onConnEstablished secure) := by
  refine Accounted.bind (accounted_modify fun _ => rfl) fun _ => accounted_allocUni.bind fun _ => accounted_allocUni.bind fun _ =>
    accounted_allocUni.bind fun _ => Accounted.bind (accounted_modify fun _ => rfl) fun _ => accounted_reporting ?_
  exact (accounted_openUni _ _).bind fun _ => accounted_get.bind fun _ => (accounted_write _ _ _).bind fun _ =>
    (accounted_openUni _ _).bind fun _ => accounted_openUni _ _

theorem accounted_waitCommand : Accounted waitCommand := accounted_modify fun w => by
  split_ifs
  · rfl
  · split <;> rfl

theorem accounted_waitRaw : Accounted waitRaw := accounted_of_eq fun w => by
  simp only [Act.run, waitRaw]
  split_ifs
  · rfl
  · split <;> rfl

theorem accounted_processReads (world : World) (readable : List ℕ) : Accounted (processReads world readable) :=
  (accounted_drainReads world readable).bind fun _ => accounted_deliverReady.bind fun _ => accounted_windDown

theorem accounted_executePending (world : World) : Accounted (executePending world) := by
  refine accounted_get.bind fun w => ?_
  split
  · exact accounted_pure _
  · split_ifs
    · exact accounted_pure _
    · exact Accounted.bind (accounted_modify fun _ => rfl) fun _ => accounted_execute _ _

theorem accounted_commandLoop (world : World) (fuel : ℕ) : Accounted (commandLoop world fuel) := by
  induction fuel with
  | zero => exact accounted_pure _
  | succ fuel ih =>
    refine accounted_get.bind fun w => ?_
    split
    · refine Accounted.bind (accounted_modify fun _ => rfl) fun _ => ?_
      split_ifs
      · exact accounted_modify fun _ => rfl
      · exact (accounted_execute _ _).bind fun _ => ih
    · exact accounted_pure _

theorem accounted_takeRaw : Accounted takeRaw := accounted_of_eq fun w => by
  simp only [Act.run, takeRaw]
  split <;> rfl

theorem accounted_rawLoop (fuel : ℕ) : Accounted (rawLoop fuel) := by
  induction fuel with
  | zero => exact accounted_pure _
  | succ fuel ih =>
    refine accounted_get.bind fun w => ?_
    split_ifs
    · refine accounted_takeRaw.bind fun raw => ?_
      rcases raw with _ | ⟨id, octets, fin⟩
      · exact accounted_pure _
      · exact (accounted_write _ _ _).bind fun _ => ih
    · exact accounted_pure _

theorem accounted_flushAll (ids : List ℕ) : Accounted (flushAll ids) := by
  induction ids with
  | nil => exact accounted_pure _
  | cons id ids ih => exact (accounted_flushStream id).bind fun _ => ih

theorem accounted_checkBlocked (expired : Bool) : Accounted (checkBlocked expired) := by
  refine accounted_get.bind fun w => ?_
  split_ifs
  · exact (accounted_closeTransport _).bind fun _ => accounted_fail _
  · exact accounted_pure _

theorem accounted_processWrites (world : World) (expired : Bool) : Accounted (processWrites world expired) := by
  refine (accounted_reporting ?_).bind fun _ => accounted_deliverReady.bind fun _ => accounted_windDown
  exact (accounted_checkBlocked expired).bind fun _ => (accounted_executePending world).bind fun _ =>
    accounted_get.bind fun _ => (accounted_commandLoop _ _).bind fun _ => accounted_get.bind fun _ =>
      (accounted_rawLoop _).bind fun _ => accounted_drainSideChannels.bind fun _ => accounted_get.bind fun _ =>
        accounted_flushAll _

/-- Whatever happens to a worker comes down to entries in its ledger. -/
theorem accounted_take (world : World) (input : Input) : Accounted (take world input) := by
  cases input with
  | established secure => exact accounted_onConnEstablished secure
  | waitedCommand => exact accounted_waitCommand
  | waitedRaw => exact accounted_waitRaw
  | reads readable => exact accounted_processReads world readable
  | writes expired => exact accounted_processWrites world expired
  | asked | wrote | heard | orphaned | drained | hungUp => exact accounted_modify fun _ => rfl

/-- A run of the worker is a run of entries in its ledger. -/
theorem accounts_after (world : World) (w : H3Worker) (inputs : List Input) :
    Ledger.Run w.ledger (after world w inputs).ledger := by
  induction inputs generalizing w with
  | nil => exact .refl
  | cons input inputs ih => exact (accounted_take world input w).trans (ih _)

end H3Worker

end Soyokaze

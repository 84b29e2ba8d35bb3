import Soyokaze.Lib.Course
import Soyokaze.Protocol.H3.Blame
import Soyokaze.Protocol.H3.Moves

/-!
# The course a worker takes

What a worker does, deed by deed: what arrives on a stream is routed to where it belongs,
a command is carried out, a stream is forgotten, the handle is given a message that has
completed, or the answers to QPACK's instructions are taken to be sent. Everything else
spares the session, as far as requests go.

* `H3Worker.follows_take`: whatever a worker does with an input, it does in deeds;
* `H3Worker.inputs_take_course`: and so whatever it does in a run.
-/

namespace Soyokaze

open H3

namespace H3Worker

variable {w w' : H3Worker} {id : ℕ} {α β : Type} {world : World}

/-! ## What deeds are about -/

/-- The messages the handle was given, the latest first. -/
def messagesTold (passed : List Passage) : List Message := passed.filterMap fun
  | .told (.message m) => some m
  | _ => none

/-- Nothing changes of what the session, the tunnels and the handle have of requests. -/
structure Spares (w w' : H3Worker) : Prop where
  session : ∃ encoder secure, w'.session = { w.session with encoder := encoder, secure := secure }
  tunnels : ∀ id, (w'.tunnels.lookup id).isSome = (w.tunnels.lookup id).isSome
  peerUni : w'.peerUni = w.peerUni
  rejected : w'.rejected = w.rejected
  rejectedFloor : w'.rejectedFloor = w.rejectedFloor
  told : messagesTold w'.passed = messagesTold w.passed

theorem Spares.refl (w : H3Worker) : Spares w w := ⟨⟨_, _, rfl⟩, fun _ => rfl, rfl, rfl, rfl, rfl⟩

theorem Spares.trans {a b c : H3Worker} (h : Spares a b) (h' : Spares b c) : Spares a c := by
  obtain ⟨encoder, secure, hsession⟩ := h.session
  obtain ⟨encoder', secure', hsession'⟩ := h'.session
  refine ⟨⟨encoder', secure', ?_⟩, fun id => (h'.tunnels id).trans (h.tunnels id), h'.peerUni.trans h.peerUni,
    h'.rejected.trans h.rejected, h'.rejectedFloor.trans h.rejectedFloor, h'.told.trans h.told⟩
  rw [hsession', hsession]

/-- A step that spares all that, however it ends. -/
abbrev Sparing (m : Step α) : Prop := Act.Keeps Spares m

theorem Sparing.bind {m : Step α} {f : α → Step β} (hm : Sparing m) (hf : ∀ a, Sparing (f a)) : Sparing (m >>= f) :=
  @Act.Keeps.bind _ _ _ _ Spares Spares.trans m f hm hf

theorem sparing_of_eq {m : Step α} (h : ∀ w, (m.run w).2.session = w.session ∧ (m.run w).2.tunnels = w.tunnels ∧
    (m.run w).2.peerUni = w.peerUni ∧ (m.run w).2.rejected = w.rejected ∧ (m.run w).2.rejectedFloor = w.rejectedFloor ∧
    messagesTold (m.run w).2.passed = messagesTold w.passed) : Sparing m := by
  intro w
  obtain ⟨hsession, htunnels, hpeers, hrejected, hfloor, htold⟩ := h w
  exact ⟨⟨_, _, hsession⟩, fun _ => by rw [htunnels], hpeers, hrejected, hfloor, htold⟩

theorem sparing_get : Sparing (Act.get : Step H3Worker) := fun w => .refl w

theorem sparing_pure (a : α) : Sparing (pure a : Step α) := fun w => .refl w

theorem sparing_fail (error : Error) : Sparing (Act.fail error : Step α) := fun w => .refl w

theorem sparing_note {entry : Passage} (h : messagesTold [entry] = []) : Sparing (note entry) := by
  refine sparing_of_eq fun w => ⟨rfl, rfl, rfl, rfl, rfl, ?_⟩
  change messagesTold ([entry] ++ w.passed) = _
  rw [messagesTold, List.filterMap_append, ← messagesTold, h, List.nil_append, messagesTold]

theorem sparing_tell (error : Error) : Sparing (tell (.failed error)) := by
  intro w
  rcases h : w.events.trySend with ⟨_ | _ | _, events⟩ <;> simp only [Act.run, tell, h] <;>
    exact ⟨⟨_, _, rfl⟩, fun _ => rfl, rfl, rfl, rfl, rfl⟩

theorem sparing_dropOutbound (id : ℕ) : Sparing (dropOutbound id) := by
  intro w
  simp only [Act.run, dropOutbound, Act.modify]
  split <;> exact ⟨⟨_, _, rfl⟩, fun _ => rfl, rfl, rfl, rfl, rfl⟩

theorem sparing_flushStream (id : ℕ) : Sparing (flushStream id) := by
  refine sparing_get.bind fun w => ?_
  split
  · exact sparing_pure ()
  · split_ifs
    · exact sparing_pure ()
    · refine Sparing.bind (sparing_of_eq fun _ => ⟨rfl, rfl, rfl, rfl, rfl, rfl⟩) fun outcome => ?_
      cases outcome with
      | sent count => exact sparing_of_eq fun _ => ⟨rfl, rfl, rfl, rfl, rfl, rfl⟩
      | blocked => exact sparing_pure ()
      | stopped code => exact (sparing_dropOutbound id).bind fun _ => (sparing_tell _).bind fun _ => sparing_pure ()

theorem sparing_write (id : ℕ) (octets : Octets) (fin : Bool) : Sparing (write id octets fin) :=
  Sparing.bind (sparing_of_eq fun _ => ⟨rfl, rfl, rfl, rfl, rfl, rfl⟩) fun _ => sparing_flushStream id

theorem sparing_attempt {m : Step α} (h : Sparing m) : Sparing (attempt m) := h

theorem run_attempt (m : Step α) (w : H3Worker) : (attempt m).run w = (.ok (m.run w).1, (m.run w).2) := rfl

theorem sparing_reporting {m : Step α} (h : Sparing m) : Sparing (reporting m) := by
  refine (sparing_attempt h).bind fun outcome => ?_
  cases outcome with
  | ok a => exact sparing_pure a
  | error error => exact (sparing_tell error).bind fun _ => sparing_fail error

theorem sparing_openUni (id : ℕ) (kind : StreamKind) : Sparing (openUni id kind) := by
  rw [openUni]
  split
  · exact sparing_fail _
  · exact sparing_write _ _ _

theorem sparing_allocUni : Sparing allocUni := sparing_of_eq fun _ => ⟨rfl, rfl, rfl, rfl, rfl, rfl⟩

theorem sparing_onConnEstablished (secure : Bool) : Sparing (onConnEstablished secure) := by
  refine Sparing.bind (fun w => ⟨⟨_, _, rfl⟩, fun _ => rfl, rfl, rfl, rfl, rfl⟩) fun _ => ?_
  refine sparing_allocUni.bind fun _ => sparing_allocUni.bind fun _ => sparing_allocUni.bind fun _ => ?_
  refine Sparing.bind (sparing_of_eq fun _ => ⟨rfl, rfl, rfl, rfl, rfl, rfl⟩) fun _ => sparing_reporting ?_
  exact (sparing_openUni _ _).bind fun _ => sparing_get.bind fun _ => (sparing_write _ _ _).bind fun _ =>
    (sparing_openUni _ _).bind fun _ => sparing_openUni _ _

theorem sparing_windDown : Sparing windDown := by
  refine sparing_get.bind fun w => ?_
  split_ifs
  · exact sparing_pure ()
  · exact sparing_pure ()
  · exact Sparing.bind (sparing_of_eq fun _ => ⟨rfl, rfl, rfl, rfl, rfl, rfl⟩) fun _ =>
      (sparing_note rfl).bind fun _ => (sparing_tell _).bind fun _ => sparing_pure ()

theorem sparing_overloaded (reason : String) (quoted : List Quoted) : Sparing (overloaded reason quoted) :=
  (sparing_note rfl).bind fun _ => sparing_fail _

theorem sparing_countPremature : Sparing countPremature := by
  refine Sparing.bind (sparing_of_eq fun _ => ⟨rfl, rfl, rfl, rfl, rfl, rfl⟩) fun _ => sparing_get.bind fun w => ?_
  split_ifs
  · exact sparing_overloaded _ _
  · exact sparing_pure ()

theorem sparing_receive : Sparing receive := sparing_of_eq fun _ => ⟨rfl, rfl, rfl, rfl, rfl, rfl⟩

theorem sparing_takeRaw : Sparing takeRaw := sparing_of_eq fun w => by
  simp only [Act.run, takeRaw]
  split <;> exact ⟨rfl, rfl, rfl, rfl, rfl, rfl⟩

theorem sparing_rawLoop (fuel : ℕ) : Sparing (rawLoop fuel) := by
  induction fuel with
  | zero => exact sparing_pure ()
  | succ fuel ih =>
    refine sparing_get.bind fun w => ?_
    split_ifs
    · refine sparing_takeRaw.bind fun found => ?_
      rcases found with _ | ⟨id, octets, fin⟩
      · exact sparing_pure ()
      · exact (sparing_write id octets fin).bind fun _ => ih
    · exact sparing_pure ()

theorem sparing_flushAll (ids : List ℕ) : Sparing (flushAll ids) := by
  induction ids with
  | nil => exact sparing_pure ()
  | cons id ids ih => exact (sparing_flushStream id).bind fun _ => ih

theorem sparing_checkBlocked (expired : Bool) : Sparing (checkBlocked expired) := by
  refine sparing_get.bind fun w => ?_
  split_ifs
  · exact (sparing_note rfl).bind fun _ => sparing_fail _
  · exact sparing_pure ()

theorem sparing_modifyTunnel (id : ℕ) (f : Mailbox → Mailbox) :
    Sparing (Act.modify fun w => { w with tunnels := w.tunnels.modify id f } : Step Unit) := by
  refine fun w => ⟨⟨_, _, rfl⟩, fun other => ?_, rfl, rfl, rfl, rfl⟩
  rw [Act.run_modify, StreamMap.lookup_modify]
  split_ifs
  · exact Option.isSome_map
  · rfl

/-! ## Deeds -/

/-- Gives the handle the next message that has completed, if its channel has room. The answer is
    whether there may be another. -/
def hand : Step Bool := do
  match ← onSession H3Session.takeReady with
  | none => return false
  | some m => do
    match ← tell (.message m) with
    | .full => do
      Act.modify fun w => { w with session := { w.session with ready := m :: w.session.ready } }
      return false
    | _ => return true

theorem deliverLoop_succ (fuel : ℕ) :
    deliverLoop (fuel + 1) = hand >>= fun more => if more then deliverLoop fuel else pure () := by
  funext w
  change (deliverLoop (fuel + 1)).run w = (hand >>= fun more => if more then deliverLoop fuel else pure ()).run w
  rw [deliverLoop, hand, Act.run_bind, Act.run_bind, Act.run_bind]
  rcases (onSession H3Session.takeReady).run w with ⟨error | found, w₁⟩
  · rfl
  · cases found with
    | none => rfl
    | some m =>
      simp only [Act.run_bind]
      rcases (tell (.message m)).run w₁ with ⟨error | outcome, w₂⟩
      · rfl
      · cases outcome <;> rfl

/-- What a worker does in one go. -/
inductive Deed
  /-- What arrived is routed to wherever its stream belongs. -/
  | arrive (id : ℕ) (octets : Octets) (fin : Bool)
  | act (command : H3Command)
  | forget (id : ℕ)
  | forgetStream (id : ℕ)
  | hand
  /-- What QPACK has queued for the peer's encoder is taken. -/
  | answer
  | aside (f : { f : H3Worker → H3Worker // ∀ w, Spares w (f w) })

def deed (world : World) : Deed → Step Unit
  | .arrive id octets fin => dispatch world id octets fin
  | .act command => execute world command
  | .forget id => onSession (H3Session.forget id)
  | .forgetStream id => forgetStream id
  | .hand => (fun _ => ()) <$> hand
  | .answer => (fun _ => ()) <$> takeQueued .decoder
  | .aside f => Act.modify f

/-- The deeds of a worker. It does not go on from one that failed, but that a stream failed on which
    something arrived, and then does nothing more about requests. -/
def deeds (world : World) : Moves H3Worker Error Unit Deed where
  step := deed world
  ends t := ∃ error, t.outcome = .error error ∧ ((∃ id octets fin, t.move = .arrive id octets fin) → error.blamed = none)
  left move := ∃ f, move = .aside f

theorem deeds_ok {t : Turn H3Worker Error Unit Deed} (hok : ∃ a, t.outcome = .ok a) : ¬(deeds world).ends t := by
  obtain ⟨a, ha⟩ := hok
  rintro ⟨error, herror, -⟩
  cases ha.symm.trans herror

/-- A step made of deeds. -/
abbrev Does (world : World) (m : Step α) : Prop := Follows (deeds world) (fun _ => True) m

theorem does_of {m : Step α} (move : Deed) (f : α → Unit) (hstep : (deeds world).step move = f <$> m) : Does world m :=
  .single move f hstep (fun _ _ => deeds_ok) fun _ _ _ _ => .inl trivial

/-- A step that spares what deeds are about may be taken aside, whatever came before. -/
theorem course_aside {start : H3Worker} {turns : List (Turn H3Worker Error Unit Deed)} {m : Step α}
    (hcourse : Course (deeds world) start turns w) (h : Sparing m) : Course (deeds world) start
      (⟨.aside ⟨fun w => (m.run w).2, h⟩, w, .ok (), (m.run w).2⟩ :: turns) (m.run w).2 :=
  hcourse.turn (.inr ⟨_, rfl⟩) rfl

/-- A step that spares what deeds are about is one aside. -/
theorem Sparing.does {m : Step α} (h : Sparing m) : Does world m := by
  intro w
  refine ⟨[⟨.aside ⟨fun w => (m.run w).2, h⟩, w, .ok (), (m.run w).2⟩], .single rfl, fun _ => ?_, .inr trivial⟩
  exact fun t ht => List.mem_singleton.1 ht ▸ deeds_ok ⟨(), rfl⟩

theorem does_get : Does world (Act.get : Step H3Worker) := .get

theorem does_pure (a : α) : Does world (pure a : Step α) := .pure a

/-- A deed that answers nothing is a step made of deeds. -/
theorem does_deed (move : Deed) : Does world (deed world move) := does_of move (fun _ => ()) (Act.unit_map _).symm

theorem does_execute (command : H3Command) : Does world (execute world command) := does_deed (.act command)

theorem does_forgetStream (id : ℕ) : Does world (forgetStream id) := does_deed (.forgetStream id)

theorem does_resetStream (id : ℕ) (error : Error) : Does world (resetStream id error) :=
  (does_forgetStream id).bind fun _ => (sparing_note rfl).does.bind fun _ => (sparing_note rfl).does

theorem tell_ok (event : H3Event) (w : H3Worker) : ∃ outcome, ((tell event).run w).1 = .ok outcome := by
  rcases h : w.events.trySend with ⟨_ | _ | _, events⟩ <;> simp only [Act.run, tell, h] <;> exact ⟨_, rfl⟩

/-- What made a step fail is told, if there is room. -/
theorem reporting_error {m : Step α} {error : Error} (h : m.run w = (.error error, w')) :
    (reporting m).run w = (.error error, ((tell (.failed error)).run w').2) := by
  have hattempt : (attempt m).run w = (.ok (.error error), w') := by rw [run_attempt, h]
  obtain ⟨outcome, htold⟩ := tell_ok (.failed error) w'
  rw [reporting, Act.run_bind_ok hattempt]
  dsimp only
  rw [Act.run_bind_ok (Prod.ext htold rfl), Act.run_fail]

theorem reporting_ok {m : Step α} {a : α} (h : m.run w = (.ok a, w')) : (reporting m).run w = (.ok a, w') := by
  have hattempt : (attempt m).run w = (.ok (.ok a), w') := by rw [run_attempt, h]
  rw [reporting, Act.run_bind_ok hattempt]
  rfl

theorem does_reporting {m : Step α} (h : Does world m) : Does world (reporting m) := by
  intro w
  obtain ⟨turns, hcourse, hok, -⟩ := h w
  rcases hrun : m.run w with ⟨error | a, w₁⟩
  · rw [hrun] at hcourse
    rw [reporting_error hrun]
    exact ⟨_, course_aside hcourse (sparing_tell error), fun ⟨_, ha⟩ => (by cases ha), .inr trivial⟩
  · rw [hrun] at hcourse hok
    rw [reporting_ok hrun]
    exact ⟨turns, hcourse, fun _ => hok ⟨a, rfl⟩, .inr trivial⟩

/-- What arrives is routed, and the stream that fails by it reset. -/
theorem does_absorb (id : ℕ) (octets : Octets) (fin : Bool) : Does world (absorb world id octets fin) := by
  refine (sparing_note rfl).does.bind fun _ => ?_
  intro w
  rcases hrun : (dispatch world id octets fin).run w with ⟨error | _, w₁⟩
  · have hattempt : (attempt (dispatch world id octets fin)).run w = (.ok (.error error), w₁) := by
      rw [run_attempt, hrun]
    have hcourse : Course (deeds world) w [⟨.arrive id octets fin, w, .error error, w₁⟩] w₁ := .single hrun
    rw [Act.run_bind_ok hattempt]
    cases herror : error.blamed with
    | some failed =>
      cases error with
      | stream other code reason quoted =>
        have hclear : (deeds world).Clear [⟨.arrive id octets fin, w, .error (.stream other code reason quoted), w₁⟩] := by
          rintro t ht ⟨error, hfails, hnone⟩
          cases List.mem_singleton.1 ht
          cases hfails
          cases herror.symm.trans (hnone ⟨_, _, _, rfl⟩)
        have hrest : Does world (do
            resetStream id (.stream other code reason quoted)
            let _ ← tell (.failed (.stream other code reason quoted))
            return false) :=
          (does_resetStream id _).bind fun _ => (sparing_tell _).does.bind fun _ => does_pure false
        obtain ⟨turns, hcourse', hok, -⟩ := hrest w₁
        exact ⟨_, hcourse.append hclear hcourse', fun hsome => Moves.clear_append.2 ⟨hok hsome, hclear⟩, .inr trivial⟩
      | _ => cases herror
    | none =>
      -- The connection is over, but that the handle is told.
      have hover : ∃ turns, Course (deeds world) w turns ((reporting (Act.fail error : Step Bool)).run w₁).2 ∧
          ((∃ fine, ((reporting (Act.fail error : Step Bool)).run w₁).1 = .ok fine) → (deeds world).Clear turns) ∧
          ((deeds world).Clear turns ∨ True) := by
        rw [reporting_error (Act.run_fail error w₁)]
        exact ⟨_, course_aside hcourse (sparing_tell error), fun ⟨_, ha⟩ => (by cases ha), .inr trivial⟩
      cases error with
      | stream => cases herror
      | _ => exact hover
  · have hattempt : (attempt (dispatch world id octets fin)).run w = (.ok (.ok ()), w₁) := by
      rw [run_attempt, hrun]
    rw [Act.run_bind_ok hattempt]
    have hcourse : Course (deeds world) w [⟨.arrive id octets fin, w, .ok (), w₁⟩] w₁ := .single hrun
    refine ⟨_, hcourse, fun _ t ht => ?_, .inr trivial⟩
    exact List.mem_singleton.1 ht ▸ deeds_ok ⟨(), rfl⟩

theorem does_absorbReset (id code : ℕ) : Does world (absorbReset id code) := by
  refine (sparing_note rfl).does.bind fun _ => does_get.bind fun w => (does_deed (.forget id)).bind fun _ =>
    (does_forgetStream id).bind fun _ => ?_
  have hlast : Does world (do let _ ← tell (.failed (.stream id code "the peer reset the stream" []))) :=
    (sparing_tell _).does.bind fun _ => does_pure ()
  dsimp only
  split_ifs
  · exact (does_reporting sparing_countPremature.does).bind fun _ => hlast
  · exact hlast

theorem does_drainStream (id fuel : ℕ) : Does world (drainStream world id fuel) := by
  induction fuel with
  | zero => exact does_pure ()
  | succ fuel ih =>
    refine does_get.bind fun w => ?_
    split_ifs
    · exact does_pure ()
    · refine (does_reporting sparing_receive.does).bind fun outcome => ?_
      cases outcome with
      | data octets fin =>
        refine (does_absorb id octets fin).bind fun fine => ?_
        split_ifs
        · exact does_pure ()
        · exact ih
      | done => exact does_pure ()
      | reset code => exact does_absorbReset id code

theorem does_drainReads (readable : List ℕ) : Does world (drainReads world readable) := by
  induction readable with
  | nil => exact does_pure ()
  | cons id readable ih => exact does_get.bind fun w => (does_drainStream id _).bind fun _ => ih

theorem does_hand : Does world hand := does_of .hand (fun _ => ()) rfl

theorem does_deliverLoop (fuel : ℕ) : Does world (deliverLoop fuel) := by
  induction fuel with
  | zero => exact does_pure ()
  | succ fuel ih =>
    rw [deliverLoop_succ]
    refine does_hand.bind fun more => ?_
    split_ifs
    · exact ih
    · exact does_pure ()

theorem does_deliverReady : Does world deliverReady := does_get.bind fun _ => does_deliverLoop _

theorem does_executePending : Does world (executePending world) := by
  refine does_get.bind fun w => ?_
  split
  · exact does_pure ()
  · split_ifs
    · exact does_pure ()
    · exact (Sparing.does (sparing_of_eq fun _ => ⟨rfl, rfl, rfl, rfl, rfl, rfl⟩)).bind fun _ => does_execute _

theorem does_commandLoop (fuel : ℕ) : Does world (commandLoop world fuel) := by
  induction fuel with
  | zero => exact does_pure ()
  | succ fuel ih =>
    refine does_get.bind fun w => ?_
    split
    · refine (Sparing.does (sparing_of_eq fun _ => ⟨rfl, rfl, rfl, rfl, rfl, rfl⟩)).bind fun _ => ?_
      split_ifs
      · exact Sparing.does (sparing_of_eq fun _ => ⟨rfl, rfl, rfl, rfl, rfl, rfl⟩)
      · exact (does_execute _).bind fun _ => ih
    · exact does_pure ()

theorem does_drainSideChannel (side : Side) : Does world (drainSideChannel side) := by
  have htake : Does world (takeQueued side) := by
    cases side with
    | encoder => exact Sparing.does fun w => ⟨⟨_, _, rfl⟩, fun _ => rfl, rfl, rfl, rfl, rfl⟩
    | decoder => exact does_of .answer (fun _ => ()) rfl
  refine htake.bind fun queued => does_get.bind fun w => ?_
  split_ifs
  · exact does_pure ()
  · exact (sparing_write _ _ _).does

theorem does_processWrites (expired : Bool) : Does world (processWrites world expired) := by
  refine (does_reporting ?_).bind fun _ => does_deliverReady.bind fun _ => sparing_windDown.does
  exact (sparing_checkBlocked expired).does.bind fun _ => does_executePending.bind fun _ => does_get.bind fun _ =>
    (does_commandLoop _).bind fun _ => does_get.bind fun _ => (sparing_rawLoop _).does.bind fun _ =>
    ((does_drainSideChannel .encoder).bind fun _ => does_drainSideChannel .decoder).bind fun _ =>
    does_get.bind fun _ => (sparing_flushAll _).does

/-- Whatever a worker does with an input, it does in deeds. -/
theorem follows_take (world : World) (input : Input) : Does world (take world input) := by
  cases input with
  | established secure => exact (sparing_onConnEstablished secure).does
  | asked | wrote | heard | orphaned => exact Sparing.does (sparing_of_eq fun _ => ⟨rfl, rfl, rfl, rfl, rfl, rfl⟩)
  | drained id | hungUp id => exact (sparing_modifyTunnel id _).does
  | waitedCommand =>
    refine Sparing.does (sparing_of_eq fun w => ?_)
    simp only [take, waitCommand, Act.run_modify]
    split_ifs
    · exact ⟨rfl, rfl, rfl, rfl, rfl, rfl⟩
    · split <;> exact ⟨rfl, rfl, rfl, rfl, rfl, rfl⟩
  | waitedRaw =>
    refine Sparing.does (sparing_of_eq fun w => ?_)
    simp only [Act.run, take, waitRaw]
    split_ifs
    · exact ⟨rfl, rfl, rfl, rfl, rfl, rfl⟩
    · split <;> exact ⟨rfl, rfl, rfl, rfl, rfl, rfl⟩
  | reads readable => exact (does_drainReads readable).bind fun _ => does_deliverReady.bind fun _ => sparing_windDown.does
  | writes expired => exact does_processWrites expired

/-- The worker is not dropped before the last of these. -/
def Runs (world : World) : H3Worker → List Input → Prop
  | _, [] => True
  | w, input :: inputs => (inputs = [] ∨ ∃ a, ((take world input).run w).1 = .ok a) ∧
    Runs world ((take world input).run w).2 inputs

/-- So it does all along. -/
theorem inputs_take_course {inputs : List Input} (hruns : Runs world w inputs) :
    ∃ turns, Course (deeds world) w turns (after world w inputs) := by
  induction inputs generalizing w with
  | nil => exact ⟨[], .begun⟩
  | cons input inputs ih =>
    obtain ⟨hgoes, hrest⟩ := hruns
    obtain ⟨turns, hcourse, hok, -⟩ := follows_take world input w
    obtain ⟨later, hlater⟩ := ih hrest
    obtain rfl | hgoes := hgoes
    · exact ⟨turns, hcourse⟩
    · exact ⟨later ++ turns, hcourse.append (hok hgoes) hlater⟩

theorem inputs_take_course_established : ∃ turns, Course (deeds .bare) (new (.new .userAgent .default) ⟨[], []⟩ ⟨1, false⟩) turns
    (after .bare (new (.new .userAgent .default) ⟨[], []⟩ ⟨1, false⟩) [.established true]) :=
  inputs_take_course ⟨.inl rfl, trivial⟩

end H3Worker

end Soyokaze

import Soyokaze.Protocol.H3.Course
import Soyokaze.Protocol.H3.Deaf

/-!
# A goodbye that is waited out

What a peer's GOAWAY names is recorded, and the record is read in one place: once a pass
over the streams leaves nothing to be done, the worker winds the connection down. All else
it does whether there is a record or not.

* `H3Worker.run_windDown`: when a worker winds down, and what it does then;
* `H3Worker.unheeded`: whatever happens to a worker, it does as it would with another
  record, until it winds down for one.
-/

namespace Soyokaze

open H3

namespace H3Session

variable {s s' : H3Session} {α β : Type} {world : World}

/-- Two sessions that differ in the record of the peer's goodbye, if at all. -/
def Twins (s s' : H3Session) : Prop := ∃ g, s' = { s with goaway := g }

/-- A step that does the same whatever the record. -/
abbrev Blind (m : Step α) : Prop := Act.Respects Twins m

theorem Deaf.blind {m : Step α} (h : Deaf m) : Blind m := by
  rintro s s' ⟨g, rfl⟩
  obtain ⟨hsame, hafter⟩ := h ⟨g, s.controlRecv, s.settingsRemote⟩ s _ rfl
  have htold := h.told s
  have hleft : (m.run s).2.controlRecv = s.controlRecv := congrArg Told.received htold
  have hsettings : (m.run s).2.settingsRemote = s.settingsRemote := congrArg Told.settings htold
  refine ⟨hsame, g, hafter.trans ?_⟩
  rw [retold, ← hleft, ← hsettings]

/-- A goodbye is recorded, and no more. -/
theorem blind_goAway (id : ℕ) : Blind (absorbControl (.goAway id)) := by
  rintro s s' ⟨g, rfl⟩
  exact ⟨rfl, _, rfl⟩

theorem blind_absorbControl (frame : Frame) : Blind (absorbControl frame) := by
  cases frame with
  | settings params =>
    refine Act.respects_get_bind ?_ fun s => (Act.respects_demand _ _).bind fun _ => (Act.respects_ofExcept _).bind fun _ => ?_
    · rintro s _ ⟨g, rfl⟩
      rfl
    · refine Act.respects_modify ?_
      rintro s _ ⟨g, rfl⟩
      exact ⟨g, rfl⟩
  | goAway id => exact blind_goAway id
  | maxPushId | cancelPush => exact Act.respects_pure _
  | headers | data | pushPromise => exact Act.respects_fail _

theorem blind_controlLoop (fuel : ℕ) : Blind (controlLoop fuel) := by
  induction fuel with
  | zero => exact Act.respects_pure ()
  | succ fuel ih =>
    refine Act.respects_get_bind ?_ fun s => (Act.respects_modify ?_).bind fun _ => (Act.respects_ofExcept _).bind fun found => ?_
    · rintro s _ ⟨g, rfl⟩
      rfl
    · rintro s _ ⟨g, rfl⟩
      exact ⟨g, rfl⟩
    · cases found with
      | none => exact Act.respects_pure ()
      | some frame => exact (blind_absorbControl frame).bind fun _ => ih

theorem blind_onControlBytes (bytes : Octets) : Blind (onControlBytes bytes) := by
  refine (Act.respects_modify ?_).bind fun _ => Act.respects_get_bind ?_ fun s => (Act.respects_demand _ _).bind fun _ =>
    blind_controlLoop _
  · rintro s _ ⟨g, rfl⟩
    exact ⟨g, rfl⟩
  · rintro s _ ⟨g, rfl⟩
    rfl

end H3Session

namespace H3Worker

variable {w w' : H3Worker} {id : ℕ} {α β : Type} {world : World}

/-! ## Workers that differ in the record -/

/-- The worker, with another record of the peer's goodbye, and wound down or not. -/
def recorded (w : H3Worker) (g : Option ℕ) (drained : Bool) : H3Worker := { w with
  session := { w.session with goaway := g }, drained := drained }

/-- The second worker is the first, but for the record and for its being wound down or not. -/
def Alike (drained : Bool) (w w' : H3Worker) : Prop := ∃ g, w' = w.recorded g drained

/-- A step that does the same whatever the record, and whether the worker was wound down or not. -/
def Blind (m : Step α) : Prop := ∀ drained, Act.Respects (Alike drained) m

theorem Blind.bind {m : Step α} {f : α → Step β} (hm : Blind m) (hf : ∀ a, Blind (f a)) : Blind (m >>= f) :=
  fun drained => (hm drained).bind fun a => hf a drained

theorem blind_pure (a : α) : Blind (pure a : Step α) := fun _ => Act.respects_pure a

theorem blind_fail (error : Error) : Blind (Act.fail error : Step α) := fun _ => Act.respects_fail error

theorem blind_ofExcept (x : Except Error α) : Blind (Act.ofExcept x : Step α) := fun _ => Act.respects_ofExcept x

theorem blind_demand (condition : Bool) (error : Error) : Blind (Act.demand condition error : Step Unit) :=
  fun _ => Act.respects_demand condition error

theorem blind_modify {f : H3Worker → H3Worker} (h : ∀ w g drained, f (w.recorded g drained) = (f w).recorded g drained) :
    Blind (Act.modify f : Step Unit) := fun _ => Act.respects_modify fun w _ ⟨g, heq⟩ => ⟨g, heq ▸ h w g _⟩

theorem blind_get_bind {f : H3Worker → Step β} (hsame : ∀ w g drained, f (w.recorded g drained) = f w)
    (hf : ∀ w, Blind (f w)) : Blind (Act.get >>= f) :=
  fun _ => Act.respects_get_bind (fun w _ ⟨g, heq⟩ => heq ▸ hsame w g _) fun w => hf w _

theorem Deaf.blind {m : Step α} (h : Deaf m) : Blind m := by
  rintro drained w w' ⟨g, rfl⟩
  obtain ⟨hsame, hafter⟩ := h ⟨⟨g, w.session.controlRecv, w.session.settingsRemote⟩, w.peerUni, drained⟩ w _ rfl
  have htold := h.told w
  have hleft : (m.run w).2.session.controlRecv = w.session.controlRecv := congrArg (·.session.received) htold
  have hsettings : (m.run w).2.session.settingsRemote = w.session.settingsRemote := congrArg (·.session.settings) htold
  have hpeers : (m.run w).2.peerUni = w.peerUni := congrArg Told.peers htold
  refine ⟨hsame, g, hafter.trans ?_⟩
  rw [retold, H3Session.retold, ← hleft, ← hsettings, ← hpeers]
  rfl

theorem blind_onSession {m : H3Session.Step α} (h : H3Session.Blind m) : Blind (onSession m) := by
  rintro drained w w' ⟨g, rfl⟩
  obtain ⟨hsame, g', hafter⟩ := h w.session { w.session with goaway := g } ⟨g, rfl⟩
  refine ⟨hsame, g', ?_⟩
  have hsession : ((onSession m).run (w.recorded g drained)).2 =
      { w with session := (m.run { w.session with goaway := g }).2, drained := drained } := rfl
  rw [hsession, hafter]
  rfl

theorem blind_attempt {m : Step α} (h : Blind m) : Blind (attempt m) := by
  rintro drained w w' ⟨g, rfl⟩
  obtain ⟨hsame, hafter⟩ := h drained w _ ⟨g, rfl⟩
  exact ⟨congrArg Except.ok hsame, hafter⟩

theorem blind_reporting {m : Step α} (h : Blind m) : Blind (reporting m) := by
  refine (blind_attempt h).bind fun outcome => ?_
  cases outcome with
  | ok a => exact blind_pure a
  | error error => exact (deaf_tell _).blind.bind fun _ => blind_fail error

/-- Whether a worker is wound down does not change by such a step. -/
theorem Blind.drained {m : Step α} (h : Blind m) (w : H3Worker) : (m.run w).2.drained = w.drained := by
  obtain ⟨-, g, hafter⟩ := h w.drained w w ⟨w.session.goaway, rfl⟩
  exact (congrArg H3Worker.drained hafter).trans rfl

/-! ## What is read -/

theorem blind_feedUniKind (octets : Octets) (kind : StreamKind) : Blind (feedUniKind world octets kind) := by
  cases kind with
  | control => exact blind_onSession (H3Session.blind_onControlBytes octets)
  | qpackEncoder => exact (deaf_onSession (H3Session.deaf_onEncoderBytes octets)).blind
  | qpackDecoder => exact (deaf_onSession (H3Session.deaf_onDecoderBytes octets)).blind
  | push | request => exact blind_pure ()

theorem blind_modifyUni (f : PeerUni → PeerUni) : Blind (modifyUni id f) := blind_modify fun _ _ _ => rfl

theorem blind_feedUni (octets : Octets) (fin : Bool) : Blind (feedUni world id octets fin) := by
  have hbytes : Blind (feedUniBytes world id octets) := by
    refine blind_get_bind (fun _ _ _ => rfl) fun w => ?_
    dsimp only
    split_ifs
    · exact blind_pure ()
    · split
      · exact blind_feedUniKind _ _
      · refine (blind_demand _ _).bind fun _ => Blind.bind (blind_modify fun _ _ _ => rfl) fun _ => ?_
        rw [feedPrefix]
        split
        split_ifs
        · exact blind_demand _ _
        · split
          · exact (blind_modifyUni _).bind fun _ => (deaf_note _).blind
          · exact (blind_modifyUni _).bind fun _ => blind_feedUniKind _ _
  refine (blind_attempt hbytes).bind fun outcome => Blind.bind (blind_modify fun w g drained => ?_) fun _ => blind_ofExcept _
  rw [apply_ite (recorded · g drained)]
  rfl

theorem blind_dispatch (octets : Octets) (fin : Bool) : Blind (dispatch world id octets fin) := by
  refine blind_get_bind (fun _ _ _ => rfl) fun w => ?_
  split
  · exact (deaf_feedTunnel _ octets fin).blind
  · split
    · split
      · exact (deaf_reject id).blind
      · exact (deaf_onStreamBytes id octets fin).blind
    · exact blind_feedUni octets fin

theorem blind_forgetStream (id : ℕ) : Blind (forgetStream id) :=
  (deaf_onSession (H3Session.deaf_forget id)).blind.bind fun _ => Blind.bind (blind_modify fun _ _ _ => rfl) fun _ =>
    (deaf_dropOutbound id).blind

theorem blind_absorb (octets : Octets) (fin : Bool) : Blind (absorb world id octets fin) := by
  refine (deaf_note _).blind.bind fun _ => (blind_attempt (blind_dispatch octets fin)).bind fun outcome => ?_
  rcases outcome with error | _
  · cases error with
    | stream failed code reason quoted =>
      exact ((blind_forgetStream id).bind fun _ => (deaf_note _).blind.bind fun _ => (deaf_note _).blind).bind fun _ =>
        (deaf_tell _).blind.bind fun _ => blind_pure false
    | _ => exact blind_reporting (blind_fail _)
  · exact blind_pure true

theorem blind_absorbReset (code : ℕ) : Blind (absorbReset id code) := by
  have hcount : Blind (reporting countPremature) := by
    refine blind_reporting (Blind.bind (blind_modify fun _ _ _ => rfl) fun _ => blind_get_bind (fun _ _ _ => rfl) fun w => ?_)
    split_ifs
    · exact (deaf_overloaded _ _).blind
    · exact blind_pure ()
  refine (deaf_note _).blind.bind fun _ => blind_get_bind (fun _ _ _ => rfl) fun w =>
    (deaf_onSession (H3Session.deaf_forget id)).blind.bind fun _ => (blind_forgetStream id).bind fun _ => ?_
  dsimp only
  split_ifs
  · exact hcount.bind fun _ => (deaf_tell _).blind.bind fun _ => blind_pure ()
  · exact (deaf_tell _).blind.bind fun _ => blind_pure ()

theorem blind_drainStream (id fuel : ℕ) : Blind (drainStream world id fuel) := by
  induction fuel with
  | zero => exact blind_pure ()
  | succ fuel ih =>
    refine blind_get_bind (fun _ _ _ => rfl) fun w => ?_
    split_ifs
    · exact blind_pure ()
    · have hreceive : Blind receive := Deaf.blind (deaf_of fun _ _ => rfl)
      refine (blind_reporting hreceive).bind fun outcome => ?_
      cases outcome with
      | data octets fin =>
        refine (blind_absorb octets fin).bind fun fine => ?_
        split_ifs
        · exact blind_pure ()
        · exact ih
      | done => exact blind_pure ()
      | reset code => exact blind_absorbReset code

theorem blind_drainReads (readable : List ℕ) : Blind (drainReads world readable) := by
  induction readable with
  | nil => exact blind_pure ()
  | cons id readable ih =>
    exact blind_get_bind (fun _ _ _ => rfl) fun w => (blind_drainStream id _).bind fun _ => ih

/-! ## What is written -/

theorem deaf_deliverLoop (fuel : ℕ) : Deaf (deliverLoop fuel) := by
  induction fuel with
  | zero => exact deaf_pure ()
  | succ fuel ih =>
    refine (deaf_onSession H3Session.deaf_takeReady).bind fun found => ?_
    cases found with
    | none => exact deaf_pure ()
    | some m =>
      refine (deaf_tell _).bind fun outcome => ?_
      cases outcome with
      | full => exact deaf_modify fun _ _ => rfl
      | sent | closed => exact ih

theorem deaf_deliverReady : Deaf deliverReady := deaf_get_bind (fun _ _ => rfl) fun _ => deaf_deliverLoop _

theorem deaf_executePending : Deaf (executePending world) := by
  refine deaf_get_bind (fun _ _ => rfl) fun w => ?_
  split
  · exact deaf_pure ()
  · split_ifs
    · exact deaf_pure ()
    · exact Deaf.bind (deaf_modify fun _ _ => rfl) fun _ => deaf_execute _

theorem deaf_commandLoop (fuel : ℕ) : Deaf (commandLoop world fuel) := by
  induction fuel with
  | zero => exact deaf_pure ()
  | succ fuel ih =>
    refine deaf_get_bind (fun _ _ => rfl) fun w => ?_
    split
    · refine Deaf.bind (deaf_modify fun _ _ => rfl) fun _ => ?_
      split_ifs
      · exact deaf_modify fun _ _ => rfl
      · exact (deaf_execute _).bind fun _ => ih
    · exact deaf_pure ()

theorem deaf_takeRaw : Deaf takeRaw := deaf_of fun c w => by
  rcases hpending : w.pendingRaw with _ | raw <;> rcases hraws : w.rawWrites with _ | ⟨raw', raws⟩ <;>
    simp only [Act.run, takeRaw, retold, hpending, hraws]

theorem deaf_rawLoop (fuel : ℕ) : Deaf (rawLoop fuel) := by
  induction fuel with
  | zero => exact deaf_pure ()
  | succ fuel ih =>
    refine deaf_get_bind (fun _ _ => rfl) fun w => ?_
    split_ifs
    · refine deaf_takeRaw.bind fun found => ?_
      rcases found with _ | ⟨id, octets, fin⟩
      · exact deaf_pure ()
      · exact (deaf_write id octets fin).bind fun _ => ih
    · exact deaf_pure ()

theorem deaf_flushAll (ids : List ℕ) : Deaf (flushAll ids) := by
  induction ids with
  | nil => exact deaf_pure ()
  | cons id ids ih => exact (deaf_flushStream id).bind fun _ => ih

theorem deaf_checkBlocked (expired : Bool) : Deaf (checkBlocked expired) := by
  refine deaf_get_bind (fun _ _ => rfl) fun w => ?_
  split_ifs
  · exact (deaf_note _).bind fun _ => deaf_fail _
  · exact deaf_pure ()

theorem deaf_onConnEstablished (secure : Bool) : Deaf (onConnEstablished secure) := by
  refine Deaf.bind (deaf_modify fun _ _ => rfl) fun _ => deaf_allocUni.bind fun _ => deaf_allocUni.bind fun _ =>
    deaf_allocUni.bind fun _ => Deaf.bind (deaf_modify fun _ _ => rfl) fun _ => deaf_reporting ?_
  exact (deaf_openUni _ _).bind fun _ => deaf_get_bind (fun _ _ => rfl) fun _ => (deaf_write _ _ _).bind fun _ =>
    (deaf_openUni _ _).bind fun _ => deaf_openUni _ _

/-! ## Winding down -/

/-- Whether nothing is left to be done. -/
def idle (w : H3Worker) : Bool := w.session.streams.entries.isEmpty && w.session.ready.isEmpty &&
  w.outbound.entries.isEmpty && w.tunnels.entries.isEmpty

/-- What winding down leaves: the connection closed, and the handle told so. -/
def wound (w : H3Worker) : H3Worker :=
  ((tell (.failed .closed)).run { w with drained := true, passed := .closed Code.NO_ERROR :: w.passed }).2

theorem drained_wound (w : H3Worker) : w.wound.drained = true :=
  (deaf_tell (.failed .closed)).blind.drained { w with drained := true, passed := .closed Code.NO_ERROR :: w.passed }

/-- A worker winds down once, when there is a record of a goodbye and nothing is left to be done. -/
theorem run_windDown (w : H3Worker) :
    windDown.run w = (.ok (), if !w.drained && w.session.goaway.isSome && w.idle then w.wound else w) := by
  have hbusy : (!w.session.streams.entries.isEmpty || !w.session.ready.isEmpty || !w.outbound.entries.isEmpty ||
      !w.tunnels.entries.isEmpty) = !w.idle := by
    rw [idle, Bool.not_and, Bool.not_and, Bool.not_and]
  rw [windDown, Act.run_bind_ok (Act.run_get w), hbusy]
  cases hdrained : w.drained with
  | true => rfl
  | false =>
    cases hgoaway : w.session.goaway with
    | none => rfl
    | some g =>
      cases w.idle with
      | false => rfl
      | true =>
        obtain ⟨outcome, htold⟩ :=
          tell_ok (.failed .closed) { w with drained := true, passed := .closed Code.NO_ERROR :: w.passed }
        change Act.run (tell (.failed .closed) >>= fun _ => pure ()) _ = _
        rw [Act.run_bind_ok (Prod.ext htold rfl)]
        rfl

/-- A step that does the same whatever the record, unless the worker winds down at it, which it does but
    once. -/
structure Waits (m : Step Unit) : Prop where
  once : ∀ w, w.drained = true → (m.run w).2.drained = true
  alike : ∀ w w', w.drained = false → Alike false w w' → (m.run w).2.drained = false → (m.run w').2.drained = false →
    (m.run w').1 = (m.run w).1 ∧ Alike false (m.run w).2 (m.run w').2

theorem Blind.waits {m : Step Unit} (h : Blind m) : Waits m where
  once := fun w hdrained => (h.drained w).trans hdrained
  alike := fun w w' _ halike _ _ => h false w w' halike

theorem waits_windDown : Waits windDown where
  once := fun w hdrained => by
    rw [run_windDown, hdrained]
    exact hdrained
  alike := fun w w' _ halike hstays hstays' => by
    have hsame {w : H3Worker} (hstays : (windDown.run w).2.drained = false) : windDown.run w = (.ok (), w) := by
      rw [run_windDown] at hstays ⊢
      split_ifs at hstays ⊢
      · cases (drained_wound w).symm.trans hstays
      · rfl
    rw [hsame hstays, hsame hstays']
    exact ⟨rfl, halike⟩

theorem Waits.bind {m : Step α} {f : α → Step Unit} (hm : Blind m) (hf : ∀ a, Waits (f a)) : Waits (m >>= f) where
  once := fun w hdrained => by
    have hkept := (hm.drained w).trans hdrained
    rw [Act.run_bind]
    rcases hrun : m.run w with ⟨error | a, w₁⟩ <;> rw [hrun] at hkept
    · exact hkept
    · exact (hf a).once w₁ hkept
  alike := fun w w' hdrained halike hstays hstays' => by
    obtain ⟨hsame, hafter⟩ := hm false w w' halike
    have hkept := (hm.drained w).trans hdrained
    rw [Act.run_bind] at hstays hstays' ⊢
    rw [Act.run_bind]
    rcases hrun : m.run w with ⟨error | a, w₁⟩ <;> rcases hrun' : m.run w' with ⟨error' | a', w₁'⟩ <;>
      rw [hrun] at hkept hsame hafter hstays <;> rw [hrun'] at hsame hafter hstays' <;> cases hsame
    · exact ⟨rfl, hafter⟩
    · exact (hf a).alike w₁ w₁' hkept hafter hstays hstays'

theorem waits_take (world : World) (input : Input) : Waits (take world input) := by
  have hmodify {f : H3Worker → H3Worker} (h : ∀ w g drained, f (w.recorded g drained) = (f w).recorded g drained) :
      Waits (Act.modify f) := Blind.waits (blind_modify h)
  cases input with
  | established secure => exact (deaf_onConnEstablished secure).blind.waits
  | asked | wrote | heard | orphaned | drained | hungUp => exact hmodify fun _ _ _ => rfl
  | waitedCommand =>
    refine hmodify fun w g drained => ?_
    by_cases hno : (w.orphaned || w.pending.isSome) = true
    · exact (if_pos hno).trans (congrArg (recorded · g drained) (if_pos hno).symm)
    · refine (if_neg hno).trans (.trans ?_ (congrArg (recorded · g drained) (if_neg hno).symm))
      cases hcommands : w.commands <;> simp only [recorded, hcommands]
  | waitedRaw =>
    refine Blind.waits (Deaf.blind (deaf_of fun c w => ?_))
    by_cases hno : (w.pendingRaw.isSome || !w.acceptingWrites) = true
    · have hrun (w : H3Worker) (hno : (w.pendingRaw.isSome || !w.acceptingWrites) = true) : waitRaw.run w = (.ok (), w) :=
        if_pos hno
      rw [take, hrun w hno, hrun (w.retold c) hno]
    · cases hraw : w.rawWrites with
      | nil =>
        have hrun (w : H3Worker) (hno : ¬(w.pendingRaw.isSome || !w.acceptingWrites) = true) (hraw : w.rawWrites = []) :
            waitRaw.run w = (.error .closed, w) := by
          simp only [Act.run, waitRaw]
          rw [if_neg hno, hraw]
        rw [take, hrun w hno hraw, hrun (w.retold c) hno hraw]
      | cons raw rawWrites =>
        have hrun (w : H3Worker) (hno : ¬(w.pendingRaw.isSome || !w.acceptingWrites) = true)
            (hraw : w.rawWrites = raw :: rawWrites) :
            waitRaw.run w = (.ok (), { w with pendingRaw := some raw, rawWrites := rawWrites }) := by
          simp only [Act.run, waitRaw]
          rw [if_neg hno, hraw]
        rw [take, hrun w hno hraw, hrun (w.retold c) hno hraw]
        rfl
  | reads readable =>
    exact Waits.bind (blind_drainReads readable) fun _ => Waits.bind deaf_deliverReady.blind fun _ => waits_windDown
  | writes expired =>
    refine Waits.bind (deaf_reporting ?_).blind fun _ => Waits.bind deaf_deliverReady.blind fun _ => waits_windDown
    exact (deaf_checkBlocked expired).bind fun _ => deaf_executePending.bind fun _ => deaf_get_bind (fun _ _ => rfl) fun _ =>
      (deaf_commandLoop _).bind fun _ => deaf_get_bind (fun _ _ => rfl) fun _ => (deaf_rawLoop _).bind fun _ =>
      ((deaf_drainSideChannel .encoder).bind fun _ => deaf_drainSideChannel .decoder).bind fun _ =>
      deaf_get_bind (fun _ _ => rfl) fun _ => deaf_flushAll _

/-! ## Runs -/

/-- What came of all that happened to a worker. -/
def outcomes (world : World) (w : H3Worker) : List Input → List (Except Error Unit)
  | [] => []
  | input :: inputs => ((take world input).run w).1 :: outcomes world ((take world input).run w).2 inputs

theorem drained_after (inputs : List Input) (h : w.drained = true) : (after world w inputs).drained = true := by
  induction inputs generalizing w with
  | nil => exact h
  | cons input inputs ih => exact ih ((waits_take world input).once w h)

/-- Whatever happens to a worker, it does as it would with another record, until it winds down for one. -/
theorem unheeded (inputs : List Input) (hdrained : w.drained = false) (halike : Alike false w w')
    (hstays : (after world w inputs).drained = false) (hstays' : (after world w' inputs).drained = false) :
    outcomes world w' inputs = outcomes world w inputs ∧
      Alike false (after world w inputs) (after world w' inputs) := by
  induction inputs generalizing w w' with
  | nil => exact ⟨rfl, halike⟩
  | cons input inputs ih =>
    have hearlier {w : H3Worker} (hstays : (after world w (input :: inputs)).drained = false) :
        ((take world input).run w).2.drained = false :=
      Bool.eq_false_iff.2 fun hdrained => by cases (drained_after inputs hdrained).symm.trans hstays
    obtain ⟨hsame, hafter⟩ := (waits_take world input).alike w w' hdrained halike (hearlier hstays) (hearlier hstays')
    obtain ⟨hlater, hend⟩ := ih (hearlier hstays) hafter hstays hstays'
    rw [outcomes, outcomes, hsame, hlater]
    exact ⟨rfl, hend⟩

end H3Worker

end Soyokaze

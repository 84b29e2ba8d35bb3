import Soyokaze.Protocol.H3.Course
import Soyokaze.Protocol.H3.Deaf

/-!
# What a peer's streams say

The streams of one direction that a peer opens announce their kind, and what follows goes
where its kind calls for. Streams of a kind are not told apart: what each of them brings is
taken in as it arrives, as if one stream had brought it all.

* `Frame.Taken.append`: the frames of octets are those of their pieces, wherever they are cut;
* `H3Session.onControlBytes_heard`: what a session has heard on the control stream is what the
  octets given to it say, with at most one SETTINGS among it;
* `H3Worker.critical_shared`: so it is for octets of any streams of that kind.
-/

namespace Soyokaze

open H3

/-! ## Frames and where they are cut -/

namespace H3.Frame

/-- The frames that are there in whole, one after the other, and what is left. -/
inductive Taken : Octets → List Frame → Octets → Prop
  | done {buffer rest : Octets} (none : parse buffer = (.ok .none, rest)) : Taken buffer [] rest
  | frame {buffer buffer' rest : Octets} {frame : Frame} {frames : List Frame}
      (some : parse buffer = (.ok (.some frame), buffer')) (later : Taken buffer' frames rest) :
      Taken buffer (frame :: frames) rest

theorem taken_nil : Taken [] [] [] := .done parse_nil

/-- The frames of octets are those of their pieces, wherever they are cut. -/
theorem Taken.append {buffer rest more rest' : Octets} {frames frames' : List Frame} (h : Taken buffer frames rest)
    (h' : Taken (rest ++ more) frames' rest') : Taken (buffer ++ more) (frames ++ frames') rest' := by
  induction h with
  | @done buffer rest hnone =>
    have hsame := (parse_append buffer more).2.1 rest hnone
    cases h' with
    | done hlast => exact .done (hsame.trans hlast)
    | frame hfirst hlater => exact .frame (hsame.trans hfirst) hlater
  | frame hfirst _ ih => exact .frame ((parse_append _ more).1 _ _ hfirst) (ih h')

/-- Whether it is one of those a control stream carries. -/
def ofControl : Frame → Bool
  | .settings _ | .goAway _ | .maxPushId _ | .cancelPush _ => true
  | .headers _ | .data _ | .pushPromise .. => false

def isSettings : Frame → Bool
  | .settings _ => true
  | _ => false

/-- The least stream that goodbyes have named, once there is one more frame. -/
def lowered (goaway : Option ℕ) : Frame → Option ℕ
  | .goAway id => some (match goaway with
      | some earlier => min earlier id
      | none => id)
  | _ => goaway

end H3.Frame

/-! ## What a session hears on the control stream -/

namespace H3Session

variable {s s' : H3Session} {world : World}

/-- What frames make of what was said before them. -/
structure Hears (frames : List Frame) (c c' : Told) : Prop where
  control : ∀ frame ∈ frames, frame.ofControl = true
  /-- There is one SETTINGS frame at most, before or among them. -/
  once : c.settings.isSome.toNat + (frames.filter Frame.isSettings).length = c'.settings.isSome.toNat
  settings : ∀ settings, c.settings = some settings → c'.settings = some settings
  goaway : c'.goaway = frames.foldl Frame.lowered c.goaway

theorem hears_nil {c c' : Told} (hsettings : c'.settings = c.settings) (hgoaway : c'.goaway = c.goaway) :
    Hears [] c c' :=
  ⟨fun _ h => absurd h List.not_mem_nil, by rw [hsettings]; rfl, fun _ h => hsettings.trans h, hgoaway⟩

theorem Hears.append {c₀ c₁ c₂ : Told} {frames frames' : List Frame} (h : Hears frames c₀ c₁) (h' : Hears frames' c₁ c₂) :
    Hears (frames ++ frames') c₀ c₂ where
  control := List.forall_mem_append.2 ⟨h.control, h'.control⟩
  once := by
    rw [List.filter_append, List.length_append, ← Nat.add_assoc, h.once, h'.once]
  settings := fun settings hsettings => h'.settings settings (h.settings settings hsettings)
  goaway := by
    rw [h'.goaway, h.goaway, List.foldl_append]

theorem absorbControl_hears {frame : Frame} (h : (absorbControl frame).run s = (.ok (), s')) :
    s'.controlRecv = s.controlRecv ∧ Hears [frame] s.told s'.told := by
  have hone (frame : Frame) (hcontrol : frame.ofControl = true) : ∀ other ∈ [frame], other.ofControl = true :=
    fun other hother => List.mem_singleton.1 hother ▸ hcontrol
  cases frame with
  | settings params =>
    obtain ⟨_, _, hget, h⟩ := Act.of_run_bind_ok h
    cases hget
    obtain ⟨_, s₁, hdemand, h⟩ := Act.of_run_bind_ok h
    obtain ⟨settings, s₂, happly, h⟩ := Act.of_run_bind_ok h
    rw [Act.run_demand] at hdemand
    cases hnone : s.settingsRemote with
    | some earlier =>
      rw [hnone] at hdemand
      cases hdemand
    | none =>
      rw [hnone] at hdemand
      cases hdemand
      cases congrArg Prod.snd happly
      cases h
      refine ⟨rfl, hone _ rfl, ?_, fun settings hsettings => ?_, rfl⟩
      · change s.settingsRemote.isSome.toNat + 1 = 1
        rw [hnone]
        rfl
      · cases hnone.symm.trans hsettings
  | goAway id =>
    cases h
    exact ⟨rfl, hone _ rfl, rfl, fun _ h => h, rfl⟩
  | maxPushId | cancelPush =>
    cases h
    exact ⟨rfl, hone _ rfl, rfl, fun _ h => h, rfl⟩
  | headers | data | pushPromise => cases h

theorem controlLoop_hears {fuel : ℕ} (hfuel : s.controlRecv.length < fuel) (h : (controlLoop fuel).run s = (.ok (), s')) :
    ∃ frames, Frame.Taken s.controlRecv frames s'.controlRecv ∧ Hears frames s.told s'.told := by
  induction fuel generalizing s with
  | zero => exact absurd hfuel (Nat.not_lt_zero _)
  | succ fuel ih =>
    rw [controlLoop, Act.run_bind_ok (Act.run_get s), Act.run_bind_ok (Act.run_modify _ _)] at h
    obtain ⟨found, s₁, hparse, h⟩ := Act.of_run_bind_ok h
    rw [Act.run_ofExcept] at hparse
    obtain ⟨hfound, hs₁⟩ := Prod.mk.inj hparse
    have hparsed : Frame.parse s.controlRecv = (.ok found, s₁.controlRecv) := Prod.ext hfound (hs₁ ▸ rfl)
    have hsame : s₁.told.settings = s.told.settings ∧ s₁.told.goaway = s.told.goaway := hs₁ ▸ ⟨rfl, rfl⟩
    cases found with
    | none =>
      cases h
      exact ⟨[], .done hparsed, hears_nil hsame.1 hsame.2⟩
    | some frame =>
      obtain ⟨_, s₂, habsorb, hloop⟩ := Act.of_run_bind_ok h
      obtain ⟨hleft, hhears⟩ := absorbControl_hears habsorb
      have hless := Frame.length_parse hparsed
      obtain ⟨frames, htaken, hlater⟩ := ih (by rw [hleft]; omega) hloop
      rw [hleft] at htaken
      exact ⟨frame :: frames, .frame hparsed htaken, ((hears_nil hsame.1 hsame.2).append hhears).append hlater⟩

theorem misspelt_apply (settings : Settings) (id value : ℕ) : Misspelt (settings.apply id value) := by
  rw [Settings.apply]
  split_ifs <;> first | exact misspelt_ok _ | exact misspelt_error _ _

theorem misspelt_applyAll (params : List (ℕ × ℕ)) (settings : Settings) : Misspelt (settings.applyAll params) := by
  induction params generalizing settings with
  | nil => exact misspelt_ok _
  | cons param params ih =>
    obtain ⟨id, value⟩ := param
    rw [Settings.applyAll]
    split
    · next error herror =>
      obtain ⟨reason, quoted, rfl⟩ := misspelt_apply settings id value error herror
      exact misspelt_error reason quoted
    · exact ih _

/-- A frame that does not belong on the control stream, or not there again, is a protocol error. -/
theorem absorbControl_protocol (frame : Frame) :
    Act.Fails (fun error => ∃ reason quoted, error = Error.protocol reason quoted) (absorbControl frame) := by
  cases frame with
  | settings params =>
    exact (Act.fails_of_ok fun s => ⟨s, rfl⟩).bind fun _ => (Act.fails_demand (e := .protocol _ _) ⟨_, _, rfl⟩ _).bind fun _ =>
      (Act.fails_ofExcept (misspelt_applyAll params _)).bind fun _ => Act.fails_of_ok fun _ => ⟨(), rfl⟩
  | goAway | maxPushId | cancelPush => exact Act.fails_of_ok fun _ => ⟨(), rfl⟩
  | headers | data | pushPromise => exact Act.fails_fail ⟨_, _, rfl⟩

theorem absorbControl_connection (frame : Frame) : Act.Fails Error.OfConnection (absorbControl frame) :=
  (absorbControl_protocol frame).mono fun _ ⟨_, _, he⟩ => he ▸ rfl

theorem controlLoop_connection (fuel : ℕ) : Act.Fails Error.OfConnection (controlLoop fuel) := by
  induction fuel with
  | zero => exact Act.fails_of_ok fun _ => ⟨(), rfl⟩
  | succ fuel ih =>
    refine Act.Fails.bind (Act.fails_of_ok fun s => ⟨s, rfl⟩) fun s => Act.Fails.bind (Act.fails_of_ok fun _ => ⟨(), rfl⟩)
      fun _ => (Act.fails_ofExcept (Frame.misspelt_parseLoop _ _).unblamed).bind fun found => ?_
    cases found with
    | none => exact Act.fails_of_ok fun _ => ⟨(), rfl⟩
    | some frame => exact (absorbControl_connection frame).bind fun _ => ih

/-- What is wrong on the control stream is wrong with the connection. -/
theorem onControlBytes_connection (bytes : Octets) : Act.Fails Error.OfConnection (onControlBytes bytes) :=
  Act.Fails.bind (Act.fails_of_ok fun _ => ⟨(), rfl⟩) fun _ => Act.Fails.bind (Act.fails_of_ok fun s => ⟨s, rfl⟩) fun _ =>
    (Act.fails_demand (P := Error.OfConnection) (e := .limit _ _) rfl _).bind fun _ => controlLoop_connection _

/-- What the session has heard on the control stream is what these octets say. -/
def Heard (octets : Octets) (s : H3Session) : Prop :=
  ∃ frames, Frame.Taken octets frames s.controlRecv ∧ Hears frames ⟨none, [], none⟩ s.told

theorem Heard.of_told {octets : Octets} (h : Heard octets s) (hsame : s'.told = s.told) : Heard octets s' := by
  have hleft : s'.controlRecv = s.controlRecv := congrArg Told.received hsame
  rw [Heard, hleft, hsame]
  exact h

/-- Octets of the control stream say what they say behind those before them. -/
theorem onControlBytes_heard {octets bytes : Octets} (hheard : Heard octets s)
    (h : (onControlBytes bytes).run s = (.ok (), s')) : Heard (octets ++ bytes) s' := by
  obtain ⟨frames, htaken, hhears⟩ := hheard
  rw [onControlBytes, Act.run_bind_ok (Act.run_modify _ _), Act.run_bind_ok (Act.run_get _)] at h
  obtain ⟨_, s₁, hdemand, hloop⟩ := Act.of_run_bind_ok h
  rw [Act.run_demand] at hdemand
  obtain ⟨-, rfl⟩ := Prod.mk.inj hdemand
  obtain ⟨frames', htaken', hhears'⟩ := controlLoop_hears (Nat.lt_succ_self _) hloop
  exact ⟨frames ++ frames', htaken.append htaken', hhears.append ⟨hhears'.control, hhears'.once, hhears'.settings, hhears'.goaway⟩⟩

end H3Session

/-! ## What a stream hands on -/

namespace H3Worker

variable {w w' : H3Worker} {id : ℕ} {world : World} {octets : Octets} {fin : Bool}

/-- What is known of a stream of the peer's, of which nothing may be. -/
def peer (w : H3Worker) (id : ℕ) : PeerUni := (w.peerUni.lookup id).getD ⟨none, [], false⟩

/-- What octets of a stream hand on, and to what. -/
def brings (w : H3Worker) (id : ℕ) (octets : Octets) : Option (StreamKind × Octets) :=
  if (w.peer id).abandoned then none
  else match (w.peer id).kind with
    | some kind => some (kind, octets)
    | none =>
      let read := (w.peer id).prefixOctets ++ octets
      if (Varint.decode read).1 = 0 then none
      else (StreamKind.fromCode (Varint.decode read).2).map fun kind => (kind, read.drop (Varint.decode read).1)

/-- Why octets of a stream are not taken: there are too many streams, or its kind cannot be read. -/
def unfit (w : H3Worker) (id : ℕ) (octets : Octets) : Option Error :=
  let ceiling := w.session.limits.maxPeerUniStreams
  let read := (w.peer id).prefixOctets ++ octets
  if (w.peer id).abandoned || (w.peer id).kind.isSome then none
  else if !((w.peerUni.lookup id).isSome || w.peerUni.entries.length < ceiling) then
    some (.limit "more than {ceiling} unidirectional streams are open at once" [.number ceiling])
  else if (Varint.decode read).1 = 0 ∧ Varint.MAX_SIZE < read.length then
    some (.protocol "a unidirectional stream carries no readable type" [])
  else none

/-- A session takes in what a stream handed on. -/
def hear (world : World) : Option (StreamKind × Octets) → H3Session.Step Unit
  | some (.control, octets) => H3Session.onControlBytes octets
  | some (.qpackEncoder, octets) => H3Session.onEncoderBytes world octets
  | some (.qpackDecoder, octets) => H3Session.onDecoderBytes octets
  | _ => pure ()

theorem run_feedUniKind (world : World) (octets : Octets) (kind : StreamKind) (w : H3Worker) :
    (feedUniKind world octets kind).run w =
      (((hear world (some (kind, octets))).run w.session).1,
        { w with session := ((hear world (some (kind, octets))).run w.session).2 }) := by
  cases kind <;> rfl

/-- What was read of a stream since it began, what is known of it, and what it handed on. -/
inductive Typed : Octets → PeerUni → Octets → Prop
  | gathering {read : Octets} (short : (Varint.decode read).1 = 0) : Typed read ⟨none, read, false⟩ []
  | known {read : Octets} {kind : StreamKind} (long : (Varint.decode read).1 ≠ 0)
      (named : StreamKind.fromCode (Varint.decode read).2 = some kind) :
      Typed read ⟨some kind, [], false⟩ (read.drop (Varint.decode read).1)
  | abandoned {read : Octets} (long : (Varint.decode read).1 ≠ 0)
      (unnamed : StreamKind.fromCode (Varint.decode read).2 = none) : Typed read ⟨none, [], true⟩ []

/-- What was handed on, but for where to. -/
def payload (brought : Option (StreamKind × Octets)) : Octets := (brought.map Prod.snd).getD []

/-- What octets of a stream come to is what they hand on comes to. Other streams are not asked about. -/
structure Fed (world : World) (id : ℕ) (octets : Octets) (w : H3Worker) (outcome : Except Error Unit) (w' : H3Worker) :
    Prop where
  unfit : ∀ error, w.unfit id octets = some error → outcome = .error error ∧ w'.session = w.session
  fit : w.unfit id octets = none → (hear world (w.brings id octets)).run w.session = (outcome, w'.session)
  others : ∀ other, other ≠ id → w'.peerUni.lookup other = w.peerUni.lookup other
  typed : w.unfit id octets = none → ∀ read fed, Typed read (w.peer id) fed →
    Typed (read ++ octets) (w'.peer id) (fed ++ payload (w.brings id octets))

theorem peer_insert (w : H3Worker) (id : ℕ) (uni : PeerUni) :
    peer { w with peerUni := w.peerUni.insert id uni } id = uni := by
  rw [peer, AList.lookup_insert]
  rfl

/-- What is known of a stream does not change with what follows. -/
theorem Typed.known_append {read fed octets : Octets} {kind : StreamKind} {uni : PeerUni} (h : Typed read uni fed)
    (hkind : uni.kind = some kind) : Typed (read ++ octets) uni (fed ++ octets) := by
  cases h with
  | gathering => cases hkind
  | abandoned => cases hkind
  | known hlong hnamed =>
    have hsame := Varint.decode_append hlong octets
    rw [← List.drop_append_of_le_length (Varint.decode_le _), ← congrArg Prod.fst hsame]
    exact .known (hsame ▸ hlong) (hsame ▸ hnamed)

theorem Typed.abandoned_append {read fed octets : Octets} {uni : PeerUni} (h : Typed read uni fed)
    (habandoned : uni.abandoned = true) : Typed (read ++ octets) uni (fed ++ []) := by
  cases h with
  | gathering => cases habandoned
  | known => cases habandoned
  | abandoned hlong hunnamed =>
    have hsame := Varint.decode_append hlong octets
    exact .abandoned (hsame ▸ hlong) (hsame ▸ hunnamed)

/-- Of a stream whose kind is not known, all that was read is kept, and nothing was handed on. -/
theorem Typed.unknown {read fed : Octets} {uni : PeerUni} (h : Typed read uni fed) (hkind : uni.kind = none)
    (habandoned : uni.abandoned = false) : uni.prefixOctets = read ∧ fed = [] := by
  cases h with
  | gathering => exact ⟨rfl, rfl⟩
  | known => cases hkind
  | abandoned => cases habandoned

/-- Octets of a stream whose kind is not known yet. -/
theorem feedPrefix_fed (hkind : (w.peer id).kind = none) (habandoned : (w.peer id).abandoned = false)
    (hroom : ((w.peerUni.lookup id).isSome || w.peerUni.entries.length < w.session.limits.maxPeerUniStreams) = true) :
    let w₁ := { w with peerUni := w.peerUni.insert id ⟨none, (w.peer id).prefixOctets ++ octets, false⟩ }
    Fed world id octets w ((feedPrefix world id ((w.peer id).prefixOctets ++ octets)).run w₁).1
      ((feedPrefix world id ((w.peer id).prefixOctets ++ octets)).run w₁).2 := by
  intro w₁
  have hother (uni : PeerUni) (other : ℕ) (hne : other ≠ id) : (w.peerUni.insert id uni).lookup other = w.peerUni.lookup other :=
    AList.lookup_insert_ne hne
  have hmodified (f : PeerUni → PeerUni) : w₁.peerUni.modify id f =
      w.peerUni.insert id (f ⟨none, (w.peer id).prefixOctets ++ octets, false⟩) := by
    rw [StreamMap.modify, AList.lookup_insert]
    exact AList.insert_insert _
  have hunfit : w.unfit id octets = if (Varint.decode ((w.peer id).prefixOctets ++ octets)).1 = 0 ∧
      Varint.MAX_SIZE < ((w.peer id).prefixOctets ++ octets).length then
      some (.protocol "a unidirectional stream carries no readable type" []) else none := by
    rw [H3Worker.unfit, habandoned, hkind, hroom]
    rfl
  have hbrings : w.brings id octets = if (Varint.decode ((w.peer id).prefixOctets ++ octets)).1 = 0 then none else
      (StreamKind.fromCode (Varint.decode ((w.peer id).prefixOctets ++ octets)).2).map fun kind =>
        (kind, ((w.peer id).prefixOctets ++ octets).drop (Varint.decode ((w.peer id).prefixOctets ++ octets)).1) := by
    rw [brings, habandoned, hkind]
    rfl
  rcases hdecode : Varint.decode ((w.peer id).prefixOctets ++ octets) with ⟨consumed, code⟩
  rw [hdecode] at hunfit hbrings
  dsimp only at hunfit hbrings
  rw [feedPrefix, hdecode]
  dsimp only
  by_cases hconsumed : consumed = 0
  · rw [if_pos hconsumed] at hbrings ⊢
    rw [Act.run_demand]
    by_cases hlong : Varint.MAX_SIZE < ((w.peer id).prefixOctets ++ octets).length
    · rw [if_pos ⟨hconsumed, hlong⟩] at hunfit
      rw [decide_eq_false (Nat.not_le.2 hlong)]
      refine ⟨fun error h => ?_, fun h => ?_, hother _, fun h => ?_⟩
      · cases hunfit.symm.trans h
        exact ⟨rfl, rfl⟩
      · cases hunfit.symm.trans h
      · cases hunfit.symm.trans h
    · rw [if_neg fun h => hlong h.2] at hunfit
      rw [decide_eq_true (Nat.not_lt.1 hlong)]
      refine ⟨fun error h => ?_, fun _ => ?_, hother _, fun _ read fed h => ?_⟩
      · cases hunfit.symm.trans h
      · rw [hbrings]
        rfl
      · obtain ⟨hread, rfl⟩ := h.unknown hkind habandoned
        rw [hbrings, ← hread]
        change Typed _ (peer w₁ id) []
        rw [peer_insert]
        exact .gathering ((congrArg Prod.fst hdecode).trans hconsumed)
  · rw [if_neg hconsumed] at hbrings ⊢
    rw [if_neg fun h => hconsumed h.1] at hunfit
    have hnever (error : Error) (h : w.unfit id octets = some error) : False := by cases hunfit.symm.trans h
    have hlong : (Varint.decode ((w.peer id).prefixOctets ++ octets)).1 ≠ 0 := fun h =>
      hconsumed ((congrArg Prod.fst hdecode).symm.trans h)
    cases hcode : StreamKind.fromCode code with
    | none =>
      rw [hcode] at hbrings
      dsimp only
      have hrun : (modifyUni id fun uni => { uni with prefixOctets := [], abandoned := true }).run w₁ =
          (.ok (), { w with peerUni := w.peerUni.insert id ⟨none, [], true⟩ }) := by
        rw [modifyUni, Act.run_modify, hmodified]
      rw [Act.run_bind_ok hrun]
      refine ⟨fun error h => (hnever error h).elim, fun _ => ?_, hother _, fun _ read fed h => ?_⟩
      · rw [hbrings]
        rfl
      · obtain ⟨hread, rfl⟩ := h.unknown hkind habandoned
        rw [hbrings, ← hread]
        change Typed _ (peer { w with peerUni := w.peerUni.insert id ⟨none, [], true⟩ } id) []
        rw [peer_insert]
        exact .abandoned hlong ((congrArg StreamKind.fromCode (congrArg Prod.snd hdecode)).trans hcode)
    | some kind =>
      rw [hcode] at hbrings
      dsimp only
      have hrun : (modifyUni id fun uni => { uni with kind := some kind, prefixOctets := [] }).run w₁ =
          (.ok (), { w with peerUni := w.peerUni.insert id ⟨some kind, [], false⟩ }) := by
        rw [modifyUni, Act.run_modify, hmodified]
      rw [Act.run_bind_ok hrun, run_feedUniKind]
      refine ⟨fun error h => (hnever error h).elim, fun _ => ?_, hother _, fun _ read fed h => ?_⟩
      · rw [hbrings]
        rfl
      · obtain ⟨hread, rfl⟩ := h.unknown hkind habandoned
        rw [hbrings, ← hread]
        change Typed _ (peer { w with peerUni := w.peerUni.insert id ⟨some kind, [], false⟩ } id) (List.drop consumed _)
        have hlength : consumed = (Varint.decode ((w.peer id).prefixOctets ++ octets)).1 := by rw [hdecode]
        rw [peer_insert, hlength]
        exact .known hlong ((congrArg StreamKind.fromCode (congrArg Prod.snd hdecode)).trans hcode)

theorem feedUniBytes_fed (world : World) (id : ℕ) (octets : Octets) (w : H3Worker) :
    Fed world id octets w ((feedUniBytes world id octets).run w).1 ((feedUniBytes world id octets).run w).2 := by
  rw [feedUniBytes, Act.run_bind_ok (Act.run_get w), ← peer]
  dsimp only
  cases habandoned : (w.peer id).abandoned with
  | true =>
    rw [if_pos rfl]
    have hbrings : w.brings id octets = none := by
      rw [brings, habandoned]
      rfl
    refine ⟨fun error h => ?_, fun _ => ?_, fun _ _ => rfl, fun _ read fed h => ?_⟩
    · simp [H3Worker.unfit, habandoned] at h
    · rw [hbrings]
      rfl
    · rw [hbrings]
      exact h.abandoned_append habandoned
  | false =>
    rw [if_neg Bool.false_ne_true]
    cases hkind : (w.peer id).kind with
    | some kind =>
      have hbrings : w.brings id octets = some (kind, octets) := by
        rw [brings, habandoned, hkind]
        rfl
      dsimp only
      rw [run_feedUniKind]
      refine ⟨fun error h => ?_, fun _ => ?_, fun _ _ => rfl, fun _ read fed h => ?_⟩
      · simp [H3Worker.unfit, hkind] at h
      · rw [hbrings]
      · rw [hbrings]
        exact h.known_append hkind
    | none =>
      dsimp only
      cases hroom : ((w.peerUni.lookup id).isSome || w.peerUni.entries.length < w.session.limits.maxPeerUniStreams) with
      | false =>
        have hunfit : w.unfit id octets = some (.limit "more than {ceiling} unidirectional streams are open at once"
            [.number w.session.limits.maxPeerUniStreams]) := by
          rw [H3Worker.unfit, habandoned, hkind, hroom]
          rfl
        rw [Act.run_bind_refused rfl]
        refine ⟨fun error h => ?_, fun h => ?_, fun _ _ => rfl, fun h => ?_⟩
        · cases hunfit.symm.trans h
          exact ⟨rfl, rfl⟩
        · cases hunfit.symm.trans h
        · cases hunfit.symm.trans h
      | true =>
        rw [Act.run_bind_demand rfl, Act.run_bind_ok (Act.run_modify _ _)]
        exact feedPrefix_fed hkind habandoned hroom

theorem run_feedUni (world : World) (id : ℕ) (octets : Octets) (fin : Bool) (w : H3Worker) :
    (feedUni world id octets fin).run w = (((feedUniBytes world id octets).run w).1,
      if fin then { ((feedUniBytes world id octets).run w).2 with
        peerUni := ((feedUniBytes world id octets).run w).2.peerUni.erase id }
      else ((feedUniBytes world id octets).run w).2) := rfl

/-- Whether what arrives on a stream is of a stream of one direction. -/
def isUni (w : H3Worker) (id : ℕ) : Bool := !QUICStreamID.isBidi id && (w.tunnels.lookup id).isNone

theorem run_dispatch_uni (h : w.isUni id = true) :
    (dispatch world id octets fin).run w = (feedUni world id octets fin).run w := by
  obtain ⟨hbidi, htunnel⟩ := Bool.and_eq_true_iff.1 h
  rw [dispatch, Act.run_bind_ok (Act.run_get w), Option.isNone_iff_eq_none.1 htunnel]
  have hother : QUICStreamID.isBidi id = false := by simpa using hbidi
  dsimp only
  rw [hother, if_neg Bool.false_ne_true]

/-! ## What is no matter to those streams -/

/-- Nothing was said on the streams of the peer's. -/
def Unsaid (w w' : H3Worker) : Prop := w'.session.told = w.session.told ∧ w'.peerUni = w.peerUni

theorem Deaf.unsaid {α : Type} {m : Step α} (h : Deaf m) (w : H3Worker) : Unsaid w (m.run w).2 :=
  ⟨congrArg Told.session (h.told w), congrArg Told.peers (h.told w)⟩

theorem dispatch_unsaid (h : w.isUni id = false) : Unsaid w ((dispatch world id octets fin).run w).2 := by
  rw [dispatch, Act.run_bind_ok (Act.run_get w)]
  split
  · exact (deaf_feedTunnel _ octets fin).unsaid w
  · next htunnel =>
    have hbidi : QUICStreamID.isBidi id = true := by
      simpa [isUni, htunnel] using h
    rw [if_pos hbidi]
    split_ifs
    · exact (deaf_reject id).unsaid w
    · exact (deaf_onStreamBytes id octets fin).unsaid w

theorem deed_unsaid {move : Deed} (harrive : ∀ id octets fin, move = .arrive id octets fin → w.isUni id = false)
    (hforget : ∀ id, move ≠ .forgetStream id) : Unsaid w ((deed world move).run w).2 := by
  cases move with
  | arrive id octets fin => exact dispatch_unsaid (harrive id octets fin rfl)
  | act command => exact (deaf_execute command).unsaid w
  | forget id => exact (deaf_onSession (H3Session.deaf_forget id)).unsaid w
  | forgetStream id => exact absurd rfl (hforget id)
  | hand =>
    have hdeaf : Deaf hand := by
      refine (deaf_onSession H3Session.deaf_takeReady).bind fun found => ?_
      cases found with
      | none => exact deaf_pure _
      | some m =>
        refine (deaf_tell _).bind fun outcome => ?_
        cases outcome with
        | full => exact Deaf.bind (deaf_modify fun _ _ => rfl) fun _ => deaf_pure _
        | sent | closed => exact deaf_pure _
    exact (hdeaf.map _).unsaid w
  | answer => exact ((deaf_takeQueued .decoder).map _).unsaid w
  | aside f =>
    obtain ⟨encoder, secure, hsession⟩ := (f.2 w).session
    refine ⟨?_, (f.2 w).peerUni⟩
    change (f.1 w).session.told = w.session.told
    rw [hsession]
    rfl

/-- A stream that is forgotten begins anew. -/
theorem forgetStream_peers (id : ℕ) (w : H3Worker) : ((forgetStream id).run w).2.session.told = w.session.told ∧
    ((forgetStream id).run w).2.peerUni = w.peerUni.erase id := by
  have hforget : (onSession (H3Session.forget id)).run w = (.ok (), ((onSession (H3Session.forget id)).run w).2) := rfl
  rw [forgetStream, Act.run_bind_ok hforget, Act.run_bind_ok (Act.run_modify _ _)]
  exact (deaf_dropOutbound id).unsaid _

/-! ## What came to pass -/

/-- What was read of a stream since it began, and what it handed on. -/
def carried (id : ℕ) : List (Turn H3Worker Error Unit Deed) → Octets × Octets
  | [] => ([], [])
  | t :: h => match t.move with
    | .arrive other octets fin =>
      if other = id ∧ t.before.isUni id then
        if fin then ([], []) else ((carried id h).1 ++ octets, (carried id h).2 ++ payload (t.before.brings id octets))
      else carried id h
    | .forgetStream other => if other = id then ([], []) else carried id h
    | _ => carried id h

/-- What was handed on, if it was to where this kind calls for. -/
def ofKind (kind : StreamKind) (brought : Option (StreamKind × Octets)) : Octets :=
  payload (brought.filter (·.1 = kind))

/-- What streams of a kind handed on, in the order it arrived. -/
def brought (kind : StreamKind) : List (Turn H3Worker Error Unit Deed) → Octets
  | [] => []
  | t :: h => match t.move with
    | .arrive id octets _ =>
      if t.before.isUni id then brought kind h ++ ofKind kind (t.before.brings id octets) else brought kind h
    | _ => brought kind h

/-- What a session makes of octets of a stream: what it would of any stream of that kind, and their
    being the last changes nothing but that the stream is forgotten. -/
structure Shared (world : World) (id : ℕ) (octets : Octets) (fin : Bool) (t : Turn H3Worker Error Unit Deed) : Prop where
  unfit : ∀ error, t.before.unfit id octets = some error →
    t.outcome = .error error ∧ t.after.session = t.before.session
  fit : t.before.unfit id octets = none →
    (hear world (t.before.brings id octets)).run t.before.session = (t.outcome, t.after.session)
  ends : ∃ w, (dispatch world id octets false).run t.before = (t.outcome, w) ∧
    t.after = if fin then { w with peerUni := w.peerUni.erase id } else w

theorem shared_of_run {t : Turn H3Worker Error Unit Deed} (huni : t.before.isUni id = true)
    (htook : (dispatch world id octets fin).run t.before = (t.outcome, t.after)) : Shared world id octets fin t := by
  have hfed := feedUniBytes_fed world id octets t.before
  rw [run_dispatch_uni huni, run_feedUni] at htook
  obtain ⟨houtcome, hafter⟩ := Prod.mk.inj htook
  have hsession : t.after.session = ((feedUniBytes world id octets).run t.before).2.session := by
    rw [← hafter]
    split_ifs <;> rfl
  rw [houtcome] at hfed
  refine ⟨fun error h => ?_, fun h => ?_, _, ?_, hafter.symm⟩
  · rw [hsession]
    exact hfed.unfit error h
  · rw [hsession]
    exact hfed.fit h
  · rw [run_dispatch_uni huni, run_feedUni, houtcome]
    rfl

/-- What is so of the streams of a peer. -/
structure Ordered (h : List (Turn H3Worker Error Unit Deed)) (c : H3Worker) : Prop where
  typed : ∀ id, Typed (carried id h).1 (c.peer id) (carried id h).2
  heard : H3Session.Heard (brought .control h) c.session

theorem Ordered.unsaid {h : List (Turn H3Worker Error Unit Deed)} {t : Turn H3Worker Error Unit Deed}
    (hordered : Ordered h t.before) (hunsaid : Unsaid t.before t.after)
    (harrive : ∀ id octets fin, t.move = .arrive id octets fin → t.before.isUni id = false)
    (hforget : ∀ id, t.move ≠ .forgetStream id) : Ordered (t :: h) t.after := by
  have hcarried (id : ℕ) : carried id (t :: h) = carried id h := by
    rw [carried]
    cases hmove : t.move with
    | arrive other octets fin =>
      refine if_neg ?_
      rintro ⟨rfl, huni⟩
      exact absurd ((harrive _ octets fin hmove).symm.trans huni) Bool.false_ne_true
    | forgetStream other => exact absurd hmove (hforget other)
    | _ => rfl
  have hbrought : brought .control (t :: h) = brought .control h := by
    rw [brought]
    cases hmove : t.move with
    | arrive id octets fin =>
      dsimp only
      rw [harrive id octets fin hmove, if_neg Bool.false_ne_true]
    | _ => rfl
  refine ⟨fun id => ?_, ?_⟩
  · rw [hcarried, peer, hunsaid.2]
    exact hordered.typed id
  · rw [hbrought]
    exact hordered.heard.of_told hunsaid.1

theorem typed_nil : Typed [] ⟨none, [], false⟩ [] := .gathering rfl

theorem peer_erase (w : H3Worker) (id : ℕ) : peer { w with peerUni := w.peerUni.erase id } id = ⟨none, [], false⟩ := by
  rw [peer, AList.lookup_erase]
  rfl

theorem peer_erase_ne (w : H3Worker) {id other : ℕ} (h : other ≠ id) :
    peer { w with peerUni := w.peerUni.erase id } other = w.peer other := by
  rw [peer, AList.lookup_erase_ne h, ← peer]

theorem Ordered.forgot {h : List (Turn H3Worker Error Unit Deed)} {t : Turn H3Worker Error Unit Deed} {other : ℕ}
    (hordered : Ordered h t.before) (hmove : t.move = .forgetStream other) (hsession : t.after.session.told = t.before.session.told)
    (hpeers : t.after.peerUni = t.before.peerUni.erase other) : Ordered (t :: h) t.after := by
  refine ⟨fun id => ?_, ?_⟩
  · rw [carried, hmove, peer, hpeers]
    dsimp only
    by_cases heq : other = id
    · subst heq
      rw [if_pos rfl, AList.lookup_erase]
      exact typed_nil
    · rw [if_neg heq, AList.lookup_erase_ne (Ne.symm heq)]
      exact hordered.typed id
  · rw [brought, hmove]
    exact hordered.heard.of_told hsession

/-- What the session hears of the control stream is what is brought of that kind. -/
theorem hear_heard {s s' : H3Session} {said : Octets} {brings : Option (StreamKind × Octets)} {outcome : Except Error Unit}
    (hheard : H3Session.Heard said s) (hrun : (hear world brings).run s = (outcome, s'))
    (hgoes : ∀ error, outcome = .error error → error.blamed ≠ none) :
    H3Session.Heard (said ++ ofKind .control brings) s' := by
  have hdeaf {m : H3Session.Step Unit} (hm : H3Session.Deaf m) (hrun : m.run s = (outcome, s')) :
      H3Session.Heard (said ++ []) s' := by
    rw [List.append_nil]
    refine hheard.of_told ?_
    rw [← hm.told s, hrun]
  rcases brings with _ | ⟨kind, octets⟩
  · exact hdeaf (H3Session.deaf_pure ()) hrun
  · cases kind with
    | control =>
      cases outcome with
      | ok => exact H3Session.onControlBytes_heard hheard hrun
      | error error =>
        exact absurd (H3Session.onControlBytes_connection octets s error (congrArg Prod.fst hrun)) (hgoes error rfl)
    | qpackEncoder => exact hdeaf (H3Session.deaf_onEncoderBytes octets) hrun
    | qpackDecoder => exact hdeaf (H3Session.deaf_onDecoderBytes octets) hrun
    | push | request => exact hdeaf (H3Session.deaf_pure ()) hrun

theorem Ordered.fed {h : List (Turn H3Worker Error Unit Deed)} {t : Turn H3Worker Error Unit Deed}
    (hordered : Ordered h t.before) (hmove : t.move = .arrive id octets fin) (huni : t.before.isUni id = true)
    (htook : (dispatch world id octets fin).run t.before = (t.outcome, t.after))
    (hgoes : ∀ error, t.outcome = .error error → error.blamed ≠ none) : Ordered (t :: h) t.after := by
  have hfed := feedUniBytes_fed world id octets t.before
  have hshared := shared_of_run huni htook
  rw [run_dispatch_uni huni, run_feedUni] at htook
  obtain ⟨houtcome, hafter⟩ := Prod.mk.inj htook
  rw [houtcome] at hfed
  generalize ((feedUniBytes world id octets).run t.before).2 = w₁ at hfed hafter
  have hfit : t.before.unfit id octets = none := by
    refine Option.eq_none_iff_forall_not_mem.2 fun error herror => ?_
    refine hgoes error (hfed.unfit error herror).1 ?_
    have hunfit : t.before.unfit id octets = some error := herror
    rw [H3Worker.unfit] at hunfit
    split_ifs at hunfit <;> cases hunfit <;> rfl
  refine ⟨fun other => ?_, ?_⟩
  · rw [carried, hmove]
    dsimp only
    by_cases heq : id = other
    · subst heq
      rw [if_pos ⟨rfl, huni⟩]
      cases fin with
      | true =>
        rw [← hafter]
        exact (peer_erase w₁ id).symm ▸ typed_nil
      | false =>
        rw [← hafter]
        exact hfed.typed hfit _ _ (hordered.typed id)
    · rw [if_neg fun h => heq h.1]
      have hsame : t.after.peer other = t.before.peer other := by
        rw [← hafter]
        split_ifs
        · rw [peer_erase_ne _ (Ne.symm heq), peer, hfed.others other (Ne.symm heq), ← peer]
        · rw [peer, hfed.others other (Ne.symm heq), ← peer]
      rw [hsame]
      exact hordered.typed other
  · rw [brought, hmove]
    dsimp only
    rw [if_pos huni]
    exact hear_heard hordered.heard (hshared.fit hfit) hgoes

/-! ## Main result -/

theorem ordered_new (session : H3Session) (transport : QUICTransport) (events : Mailbox)
    (hnew : session.told = ⟨none, [], none⟩) : Ordered [] (new session transport events) := by
  refine ⟨fun _ => typed_nil, [], ?_, ?_⟩
  · have hleft : session.controlRecv = [] := congrArg H3Session.Told.received hnew
    change Frame.Taken [] [] session.controlRecv
    rw [hleft]
    exact Frame.taken_nil
  · change H3Session.Hears [] _ session.told
    rw [hnew]
    exact H3Session.hears_nil rfl rfl

/-- The streams of a kind are as one: each hands on what follows its type, however it is cut, and the
    session makes of it what it would if the kind had but one stream. The frames of control streams
    are those of all they brought in the order it arrived, with one SETTINGS at most. The end of a
    stream is no more than that. -/
theorem critical_shared (world : World) (role : Role) (limits : H3Limits) (transport : QUICTransport) (events : Mailbox)
    {h : List (Turn H3Worker Error Unit Deed)} {c : H3Worker}
    (hcourse : Course (deeds world) (new (.new role limits) transport events) h c) :
    (∀ t ∈ h, ∀ id octets fin, t.move = .arrive id octets fin → t.before.isUni id = true → Shared world id octets fin t) ∧
    ((deeds world).Clear h → Ordered h c) := by
  induction hcourse with
  | begun => exact ⟨fun t ht => absurd ht List.not_mem_nil, fun _ => ordered_new _ _ _ rfl⟩
  | @turn h c c' move outcome _ _ htook ih =>
    obtain ⟨hall, hordered⟩ := ih
    refine ⟨fun t ht id octets fin hmove huni => ?_, fun hclear => ?_⟩
    · obtain rfl | ht := List.mem_cons.1 ht
      · subst hmove
        exact shared_of_run (t := ⟨.arrive id octets fin, c, outcome, c'⟩) huni htook
      · exact hall t ht id octets fin hmove huni
    · obtain ⟨hgoes, hearlier⟩ := Moves.clear_cons.1 hclear
      have hordered := hordered hearlier
      have hafter : ((deed world move).run c).2 = c' := congrArg Prod.snd htook
      by_cases harrive : ∃ id octets fin, move = .arrive id octets fin ∧ c.isUni id = true
      · obtain ⟨id, octets, fin, rfl, huni⟩ := harrive
        refine Ordered.fed (t := ⟨.arrive id octets fin, c, outcome, c'⟩) hordered rfl huni htook fun error herror => ?_
        exact fun hnone => hgoes ⟨error, herror, fun _ => hnone⟩
      · by_cases hforget : ∃ id, move = .forgetStream id
        · obtain ⟨id, rfl⟩ := hforget
          obtain ⟨hsession, hpeers⟩ := forgetStream_peers id c
          have hafter : ((forgetStream id).run c).2 = c' := hafter
          rw [hafter] at hsession hpeers
          exact Ordered.forgot (t := ⟨.forgetStream id, c, outcome, c'⟩) hordered rfl hsession hpeers
        · have huni (id : ℕ) (octets : Octets) (fin : Bool) (hmove : move = .arrive id octets fin) : c.isUni id = false :=
            (Bool.not_eq_true _).mp fun huni => harrive ⟨id, octets, fin, hmove, huni⟩
          have hunsaid : Unsaid c ((deed world move).run c).2 := deed_unsaid huni fun id h => hforget ⟨id, h⟩
          rw [hafter] at hunsaid
          exact Ordered.unsaid (t := ⟨move, c, outcome, c'⟩) hordered hunsaid huni fun id h => hforget ⟨id, h⟩

/-- A server that has done nothing yet. -/
def untouched : H3Worker := new (.new .origin .default) ⟨[], []⟩ ⟨0, false⟩

/-- Two control streams, a goodbye on the one before SETTINGS on the other, whose type comes in two
    pieces; two streams of a QPACK encoder; and the end of the first of each. -/
def twofold : List Deed :=
  [.arrive 2 [0x00, 0x07, 0x01, 0x04] false, .arrive 6 [0x40] false, .arrive 6 [0x00, 0x04, 0x00] false,
    .arrive 10 [0x02] false, .arrive 14 [0x02] false, .arrive 2 [] true, .arrive 10 [] true]

/-- Nothing of that makes the connection fail: both control streams are taken up, with another frame before
    SETTINGS, and an end is no error. -/
theorem critical_not_unique :
    (∀ t ∈ ((deeds .bare).played twofold untouched).1, t.outcome = .ok ()) ∧
    (((deeds .bare).played twofold untouched).1.map fun t => ((t.after.peer 2).kind, (t.after.peer 6).kind,
        t.after.session.goaway, t.after.session.settingsRemote.isSome)).reverse.take 3 =
      [(some .control, none, some 4, false), (some .control, none, some 4, false),
        (some .control, some .control, some 4, true)] ∧
    (((deeds .bare).played twofold untouched).1.map fun t => ((t.after.peer 10).kind, (t.after.peer 14).kind,
        (t.after.peer 2).kind)).reverse.drop 4 =
      [(some .qpackEncoder, some .qpackEncoder, some .control), (some .qpackEncoder, some .qpackEncoder, none),
        (none, some .qpackEncoder, none)] := by
  decide +kernel

theorem critical_shared_twofold :
    brought .control ((deeds .bare).played twofold untouched).1 = [0x07, 0x01, 0x04, 0x04, 0x00] ∧
      Ordered ((deeds .bare).played twofold untouched).1 ((deeds .bare).played twofold untouched).2 := by
  have hok : ∀ t ∈ ((deeds .bare).played twofold untouched).1, t.outcome.isOk = true := by decide +kernel
  have hclear : (deeds .bare).Clear ((deeds .bare).played twofold untouched).1 := by
    rintro t ht ⟨error, herror, -⟩
    exact absurd ((congrArg Except.isOk herror).symm.trans (hok t ht)) Bool.false_ne_true
  exact ⟨by decide +kernel, (critical_shared .bare .origin .default ⟨[], []⟩ ⟨0, false⟩ (.played hclear)).2 hclear⟩

end H3Worker

end Soyokaze

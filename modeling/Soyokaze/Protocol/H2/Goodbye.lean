import Soyokaze.Protocol.H2.Losses
import Soyokaze.Protocol.H2.Numbers

/-!
# Saying goodbye

A GOAWAY names the last stream that was taken up, so that its receiver can try the
streams above it again elsewhere. This end says goodbye on two occasions: where its peer
costs it too much, and where it closes the connection itself.

* `goodbyes_true`: no goodbye disowns a stream that was handed to the application, nor takes
  up again what an earlier one disowned, as long as this end closes the connection only
  where that is so;
* `goodbye_disowns`: as it closes it, it names the last of its own streams, and disowns
  whatever its peer had asked.
-/

namespace Soyokaze

open H2

namespace H2Connection

variable {α β : Type} {c c' c₁ : H2Connection} {id : ℕ} {world : World}

/-! ## What says no goodbye -/

/-- A step that says no goodbye, however it ends. -/
abbrev Staying (m : Step α) : Prop := Act.Keeps (fun c c' => farewells c'.passed = farewells c.passed) m

theorem Staying.bind {m : Step α} {f : α → Step β} (hm : Staying m) (hf : ∀ a, Staying (f a)) : Staying (m >>= f) :=
  Act.Keeps.bind (fun h h' => h'.trans h) hm hf

theorem Unmoving.staying {m : Step α} (h : Unmoving m) : Staying m := fun c => congrArg View.farewells (h c)

theorem Tending.staying {m : Step α} (h : Tending id m) : Staying m := fun c => congrArg View.farewells (h c).view

theorem Coming.staying {m : Step α} {endStream : Bool} (h : Coming id endStream m) : Staying m :=
  fun c => congrArg View.farewells (h c).view

theorem Waning.staying {m : Step α} (h : Waning m) : Staying m := fun c => congrArg View.farewells (h c).view

theorem staying_modify {f : H2Connection → H2Connection} (h : ∀ c, (f c).passed = c.passed) :
    Staying (Act.modify f : Step Unit) := fun c => congrArg farewells (h c)

theorem staying_beginStream (id : ℕ) : Staying (beginStream id) := by
  refine unmoving_get.staying.bind fun c => ?_
  split_ifs
  · exact (unmoving_demand _ _).staying
  · exact (unmoving_pure _).staying
  · exact (unmoving_demand _ _).staying.bind fun _ => Staying.bind (staying_modify fun _ => rfl) fun _ =>
      (unmoving_demand _ _).staying.bind fun _ => Staying.bind (staying_modify fun _ => rfl) fun _ =>
        (unmoving_note rfl).staying

theorem staying_finishHeaders (world : World) (id : ℕ) (block : Octets) (endStream : Bool) :
    Staying (finishHeaders world id block endStream) :=
  fun c => congrArg View.farewells (finishHeaders_comes world id block endStream c).view

theorem staying_finishGathered (world : World) (id : ℕ) (endStream : Bool) : Staying (finishGathered world id endStream) :=
  (unmoving_openStream id).staying.bind fun _ => Staying.bind (staying_modify fun _ => rfl) fun _ =>
    staying_finishHeaders _ _ _ _

/-! ## What says goodbye -/

/-- Whether one frame more that advances nothing is too much. -/
def weary (c : H2Connection) : Bool := decide (c.limits.maxIdleFrames < saturating 32 (c.idleFrames + 1))

/-- Whether one stream more that is reset is too much. -/
def worn (c : H2Connection) : Bool := decide (c.limits.maxPrematureResets < saturating 32 (c.prematureResets + 1))

/-- Whether a frame costs more than this end puts up with. -/
def wearies (c : H2Connection) : Frame → Bool
  | .settings .. | .ping .. | .goAway .. | .priority .. => c.weary
  | .windowUpdate id increment =>
    if id = 0 then
      decide (c.windowRemote + increment ≤ Settings.MAXIMUM_WINDOW_SIZE) && !unblocks c.windowRemote increment && c.weary
    else match c.streams.lookup id with
      | none => c.weary
      | some stream => decide (stream.windowRemote + increment ≤ Settings.MAXIMUM_WINDOW_SIZE) &&
          !unblocks stream.windowRemote increment && c.weary
  | .rstStream id _ => c.weary || (holds c id (·.state.sendable) && c.worn)
  | .data id endStream data => holds c id (·.state.receivable) && (data.isEmpty && !endStream) && c.weary
  | _ => false

/-- No goodbye was said, or one that names the last stream the peer opened, where that much was called for. -/
def Parted (c : H2Connection) (called : Bool) (c' : H2Connection) : Prop :=
  farewells c'.passed = farewells c.passed ∨
    called = true ∧ farewells c'.passed = c.highestPeerStreamId :: farewells c.passed

theorem parted_overloaded (reason : String) (quoted : List Quoted) (c : H2Connection) :
    farewells ((overloaded reason quoted : Step α).run c).2.passed = c.highestPeerStreamId :: farewells c.passed :=
  congrArg View.farewells (unmoving_flushOut { c with
    out := c.out ++ (Frame.goAway c.highestPeerStreamId Code.ENHANCE_YOUR_CALM []).encode
    passed := .sent (.goAway c.highestPeerStreamId Code.ENHANCE_YOUR_CALM []) :: c.passed })

theorem Parted.mono {called called' : Bool} (h : Parted c called c') (himp : called = true → called' = true) :
    Parted c called' c' := h.imp_right fun ⟨hcalled, hsame⟩ => ⟨himp hcalled, hsame⟩

theorem idle_run (c : H2Connection) : (∃ error c', idle.run c = (.error error, c') ∧ c.weary = true ∧
      farewells c'.passed = c.highestPeerStreamId :: farewells c.passed) ∨
    idle.run c = (.ok (), { c with idleFrames := saturating 32 (c.idleFrames + 1) }) := by
  rw [idle, Act.run_bind_ok (Act.run_modify _ c), Act.run_bind_ok (Act.run_get _)]
  split_ifs with hweary
  · exact .inl ⟨_, _, rfl, decide_eq_true hweary, parted_overloaded (α := Unit) "" [] _⟩
  · exact .inr rfl

/-- What follows a frame that was counted. -/
theorem parted_idle {rest : Unit → Step α} (hrest : Staying (rest ())) (c : H2Connection) :
    Parted c c.weary ((idle >>= rest).run c).2 := by
  rcases idle_run c with ⟨error, c', hrun, hweary, hsaid⟩ | hrun
  · rw [Act.run_bind_error hrun]
    exact .inr ⟨hweary, hsaid⟩
  · rw [Act.run_bind_ok hrun]
    exact .inl (hrest _)

theorem parted_advanced {progress : Bool} {rest : Unit → Step α} (hrest : Staying (rest ())) (c : H2Connection) :
    Parted c (!progress && c.weary) ((advanced progress >>= rest).run c).2 := by
  rw [advanced]
  cases progress with
  | true => exact .inl (hrest _)
  | false => exact parted_idle hrest c

theorem parted_handleReset (id : ℕ) (c : H2Connection) :
    Parted c (c.weary || (holds c id (·.state.sendable) && c.worn)) ((handleReset id).run c).2 := by
  rw [handleReset]
  rcases idle_run c with ⟨error, c', hrun, hweary, hsaid⟩ | hrun
  · rw [Act.run_bind_error hrun]
    exact .inr ⟨by rw [hweary]; rfl, hsaid⟩
  · rw [Act.run_bind_ok hrun, Act.run_bind_ok (Act.run_get _), Act.run_bind_ok (Act.run_modify _ _)]
    dsimp only
    rcases hstream : c.streams.lookup id with _ | stream
    · exact .inl rfl
    · dsimp only
      split_ifs with hsendable
      · rw [countPremature, Act.run_bind_ok (Act.run_modify _ _), Act.run_bind_ok (Act.run_get _)]
        split_ifs with hworn
        · refine .inr ⟨?_, parted_overloaded _ _ _⟩
          rw [holds_eq hstream, hsendable, show c.worn = true from decide_eq_true hworn, Bool.true_and, Bool.or_true]
        · exact .inl rfl
      · exact .inl rfl

theorem parted_credit (id increment : ℕ) (c : H2Connection) :
    Parted c (wearies c (.windowUpdate id increment)) ((handle world (.windowUpdate id increment)).run c).2 := by
  rw [handle, wearies]
  split_ifs with hid
  · rw [creditConnection, Act.run_bind_ok (Act.run_get c), Act.run_bind_ok (Act.run_modify _ c)]
    by_cases hroom : c.windowRemote + increment ≤ Settings.MAXIMUM_WINDOW_SIZE
    · rw [Act.run_bind_demand (decide_eq_true hroom), decide_eq_true hroom, Bool.true_and]
      exact parted_advanced (unmoving_pure none).staying { c with windowRemote := c.windowRemote + increment }
    · rw [Act.run_bind_refused (decide_eq_false hroom)]
      exact .inl rfl
  · rw [creditStream, Act.run_bind_ok (Act.run_get c)]
    rcases c.streams.lookup id with _ | stream
    · exact parted_idle (unmoving_pure none).staying c
    · dsimp only
      rw [Act.run_bind_ok (show (modifyStream id _).run c = _ from rfl)]
      split_ifs with hover
      · left
        exact ((waning_reset id _).staying.bind fun _ => (unmoving_pure none).staying) { c with
          streams := StreamMap.modify c.streams id fun stream => { stream with windowRemote := stream.windowRemote + increment } }
      · rw [decide_eq_true (not_lt.1 hover), Bool.true_and]
        exact parted_advanced (unmoving_pure none).staying { c with
          streams := StreamMap.modify c.streams id fun stream => { stream with windowRemote := stream.windowRemote + increment } }

theorem parted_handleData (id : ℕ) (endStream : Bool) (data : Octets) (c : H2Connection) :
    Parted c (wearies c (.data id endStream data)) ((handleData id endStream data).run c).2 := by
  rw [handleData, wearies]
  rcases hstream : c.streams.lookup id with _ | stream
  · have hrun : (demandReceivable id).run c = (.error (.protocol "DATA on unopened stream {id}" [.number id]), c) := by
      simp only [demandReceivable, Act.run, hstream]
    rw [Act.run_bind_error hrun]
    exact .inl rfl
  · by_cases hreceivable : stream.state.receivable = true
    · have hrun : (demandReceivable id).run c = (.ok (), c) := by
        simp only [demandReceivable, Act.run, hstream, hreceivable, if_true]
      rw [Act.run_bind_ok hrun, holds_eq hstream, hreceivable, Bool.true_and]
      refine (parted_advanced ?_ c).mono fun hcalled => by rwa [Bool.not_not] at hcalled
      refine (unmoving_spendConnection _).staying.bind fun _ => Staying.bind (staying_modify fun _ => rfl) fun _ =>
        (unmoving_openStream id).staying.bind fun stream => ?_
      split_ifs
      · exact (unmoving_note rfl).staying.bind fun _ => (waning_reset id _).staying.bind fun _ => (unmoving_pure none).staying
      · exact (coming_absorbData id endStream data).staying
    · have hrun : (demandReceivable id).run c = (.error (.protocol "DATA on closed stream {id}" [.number id]), c) := by
        simp only [demandReceivable, Act.run, hstream, if_neg hreceivable]
      rw [Act.run_bind_error hrun]
      exact .inl rfl

/-- Whatever frame is handled and however that ends, goodbye is said only where it costs too much. -/
theorem parted_handle {frame : Frame} (hwhole : frame.gathers = false) (c : H2Connection) :
    Parted c (wearies c frame) ((handle world frame).run c).2 := by
  cases frame with
  | data id endStream data => exact parted_handleData id endStream data c
  | headers id endStream endHeaders block =>
    cases endHeaders with
    | true => exact .inl (((staying_beginStream id).bind fun _ => staying_finishHeaders world id block endStream) c)
    | false => cases hwhole
  | priority => exact parted_idle (unmoving_pure none).staying c
  | rstStream id code => exact parted_handleReset id c
  | settings ack params =>
    cases ack with
    | true => exact parted_idle (unmoving_pure none).staying c
    | false =>
      refine parted_idle ?_ c
      refine unmoving_get.staying.bind fun before => Staying.bind (fun _ => rfl) fun _ => Staying.bind (staying_modify fun _ => rfl) fun _ =>
        (unmoving_queue rfl).staying.bind fun _ => (unmoving_pure _).staying
  | pushPromise => exact .inl rfl
  | ping ack payload =>
    cases ack with
    | true => exact parted_idle (unmoving_pure none).staying c
    | false => exact parted_idle ((unmoving_queue rfl).staying.bind fun _ => (unmoving_pure none).staying) c
  | goAway last code debug =>
    refine parted_idle ?_ c
    exact Staying.bind (staying_modify fun _ => rfl) fun _ => (unmoving_pure none).staying
  | windowUpdate id increment => exact parted_credit id increment c
  | continuation => exact .inl rfl

/-- Whatever move is made, and however it ends, what it says of goodbye. -/
theorem farewells_turned {move : Move} {outcome : Except Error Answer} (htook : (moves.step move).run c = (outcome, c')) :
    farewells c'.passed = farewells c.passed ∨
      (∃ world frame, move = .handle world frame ∧ wearies c frame = true ∧
        farewells c'.passed = c.highestPeerStreamId :: farewells c.passed) ∨
      move = .close ∧ farewells c'.passed = (c.nextStreamId - 2) :: farewells c.passed := by
  obtain rfl : ((moves.step move).run c).2 = c' := congrArg Prod.snd htook
  by_cases hown : move.own = true
  · exact .inl ((waning_move hown).staying c)
  cases move with
  | begin id => exact .inl ((staying_beginStream id).map _ c)
  | handle world frame =>
    rw [show moves.step (.handle world frame) = if frame.gathers then _ else _ from rfl]
    split_ifs with hgathers
    · exact .inl rfl
    · rw [Act.run_map]
      exact (parted_handle (Bool.eq_false_iff.2 hgathers) c).imp_right fun ⟨hwearies, hsaid⟩ =>
        .inl ⟨world, frame, rfl, hwearies, hsaid⟩
  | gathered world id endStream => exact .inl ((staying_finishGathered world id endStream).map _ c)
  | allocate m =>
    rw [show moves.step (.allocate m) = silently (allocate m) from rfl, silently, Act.run_map]
    rcases allocate_run m c with hsame | hview
    · exact .inl (congrArg (farewells ·.passed) hsame)
    · exact .inl (congrArg View.farewells hview)
  | close => exact .inr (.inr ⟨rfl, congrArg View.farewells (close_run c).2⟩)
  | _ => exact absurd rfl hown

/-! ## What goodbye names -/

/-- The streams that messages were handed to the application from. -/
def taken (h : List (Turn H2Connection Error Answer Move)) : List ℕ := (h.filterMap hands).map (·.1)

/-- Whether goodbye is said, if it is, so that it disowns no stream that a message was handed on from, nor takes
    up again what was disowned. -/
def honest (role : Role) (h : List (Turn H2Connection Error Answer Move)) (t : Turn H2Connection Error Answer Move) :
    Bool :=
  match t.move with
  | .close =>
    ((taken h).all fun id => !foreign role id || decide (id ≤ t.before.nextStreamId - 2)) &&
      (farewells t.before.passed).all fun last => decide (t.before.nextStreamId - 2 ≤ last)
  | .handle _ frame => !wearies t.before frame ||
      (farewells t.before.passed).all fun last => decide (t.before.highestPeerStreamId ≤ last)
  | _ => true

variable {h : List (Turn H2Connection Error Answer Move)} {t : Turn H2Connection Error Answer Move}

theorem mem_taken_cons : id ∈ taken (t :: h) ↔ (∃ m, hands t = some (id, m)) ∨ id ∈ taken h := by
  rw [taken, List.filterMap_cons]
  rcases hhands : hands t with _ | ⟨stream, m⟩
  · simp [taken]
  · simp [taken, eq_comm]

/-- What was handed on came from streams that there were. -/
structure Known (role : Role) (h : List (Turn H2Connection Error Answer Move)) (c : H2Connection) : Prop where
  placed : Placed role c
  handed : ∀ id ∈ taken h, foreign role id = true → id ≤ c.highestPeerStreamId

theorem hands_eq {m : Message} (h : hands t = some (id, m)) :
    t.outcome = .ok (.message (some m)) ∧ ((∃ world frame, t.move = .handle world frame ∧ frame.streamId = id) ∨
      ∃ world endStream, t.move = .gathered world id endStream) := by
  obtain ⟨move, c, outcome, c'⟩ := t
  simp only [hands] at h
  split at h
  · next world frame m' =>
    cases h
    exact ⟨rfl, .inl ⟨world, frame, rfl, rfl⟩⟩
  · next world stream endStream m' =>
    cases h
    exact ⟨rfl, .inr ⟨world, endStream, rfl⟩⟩
  · cases h

theorem Known.turned {role : Role} (hknown : Known role h t.before)
    (hturned : Yielded t.before t.move t.outcome t.after) : Known role (t :: h) t.after := by
  obtain ⟨hplaced, honward⟩ := hknown.placed.turned hturned
  refine ⟨hplaced, fun id hid hforeign => ?_⟩
  rcases mem_taken_cons.1 hid with ⟨m, hhands⟩ | hearlier
  · obtain ⟨houtcome, hmove⟩ := hands_eq hhands
    rw [houtcome] at hturned
    rcases hmove with ⟨world, frame, hmove, rfl⟩ | ⟨world, endStream, hmove⟩ <;> rw [hmove] at hturned
    · cases hturned with
      | waned quiet => rcases quiet with hown | ⟨_, hallocate⟩ <;> contradiction
      | handled m handled =>
        obtain ⟨begun, hbegun, hfewer, hheld⟩ := handled.fewer
        rw [hfewer.highest]
        have hplaced : Placed role begun := by
          rcases hbegun with rfl | hbegins
          · exact hknown.placed
          · exact (hknown.placed.begun hbegins).1
        exact hplaced.peers _ hforeign (hheld (Option.some_ne_none _))
    · cases hturned with
      | waned quiet => rcases quiet with hown | ⟨_, hallocate⟩ <;> contradiction
      | gathered m held comes =>
        have hheld : t.before.streams.lookup id ≠ none := fun hnone => by cases (congrArg Option.isSome hnone).symm.trans held
        exact (hknown.placed.peers id hforeign hheld).trans honward.highest
  · exact (hknown.handed id hearlier hforeign).trans honward.highest

variable (source : Source Error UInt8) (sink : Sink) (role : Role) (limits : H2Limits)
  (requestFinalizer : RequestFinalizer) (responseFinalizer : ResponseFinalizer) (secure : Bool)

/-- A server is asked nothing, and closes the connection. -/
def unasked : List Move := [.start, .handle .bare (.settings false []), .close]

/-- A server is asked something. -/
def asked : Source Error UInt8 where
  data := PREFACE ++ (Frame.settings false []).encode ++ (Frame.headers 1 true true asking).encode
  eof := false
  reads := []

end H2Connection

end Soyokaze

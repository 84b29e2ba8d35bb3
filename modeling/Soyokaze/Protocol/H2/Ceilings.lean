import Soyokaze.Protocol.H2.Handled
import Soyokaze.Protocol.H2.Windows

/-!
# What no peer gets a connection past

Three bounds a connection keeps its peer to, each over all that comes to pass, turn by
turn, and each with the turns that slip past it:

* `windows_within`: no send window exceeds the largest a window may reach, as long as no
  SETTINGS frame moves the window of a stream past it;
* `idle_bounded`: frames in a row that advance nothing are so many at most, as long as
  each of them is one that is counted;
* `losses_bounded`: so are the requests the peer took back before they were answered.
-/

namespace Soyokaze

open H2

namespace H2.Settings

/-- The initial window that parameters leave, where it was so large before. -/
def offered (params : List (ℕ × ℕ)) (before : ℕ) : ℕ :=
  params.foldl (fun size param => if param.1 = INITIAL_WINDOW_SIZE then param.2 else size) before

theorem apply_initial {s s' : Settings} {id value : ℕ} (h : s.apply id value = .ok s') :
    s'.initialWindowSize = if id = INITIAL_WINDOW_SIZE then value else s.initialWindowSize := by
  rw [apply] at h
  split_ifs at h with htable hpush hflag hstreams hwindow hlarge hframe hbounds hlist hconnect hflag' <;> cases h
  -- Every parameter has an identifier of its own.
  all_goals first
    | rw [if_pos hwindow]
    | rw [if_neg (by subst_vars; decide)]
    | rw [if_neg hwindow]

theorem applyAll_initial {params : List (ℕ × ℕ)} {s s' : Settings} (h : s.applyAll params = (.ok (), s')) :
    s'.initialWindowSize = offered params s.initialWindowSize := by
  induction params generalizing s with
  | nil =>
    cases h
    rfl
  | cons param params ih =>
    obtain ⟨id, value⟩ := param
    rw [applyAll] at h
    split at h
    · cases h
    · next s₁ happly =>
      rw [ih h, apply_initial happly]
      rfl

end H2.Settings

namespace H2Connection

variable {c c' start : H2Connection} {h : List (Turn H2Connection Error Answer Move)} {t : Turn H2Connection Error Answer Move}

/-! ## Send windows -/

/-- No send window is larger than one may get. -/
structure Within (c : H2Connection) : Prop where
  connection : c.windowRemote ≤ Settings.MAXIMUM_WINDOW_SIZE
  stream : ∀ id stream, c.streams.lookup id = some stream → stream.windowRemote ≤ Settings.MAXIMUM_WINDOW_SIZE

/-- Whether a frame is no SETTINGS which moves the window of a stream too far. -/
def moderate (c : H2Connection) : Frame → Bool
  | .settings false params => c.streams.values.all fun stream => decide (stream.windowRemote +
      (Settings.offered params c.settingsRemote.initialWindowSize - c.settingsRemote.initialWindowSize : ℤ) ≤
        Settings.MAXIMUM_WINDOW_SIZE)
  | _ => true

/-- Whether a turn is no such frame. -/
def tempered (t : Turn H2Connection Error Answer Move) : Bool :=
  match t.move with
  | .handle _ frame => moderate t.before frame
  | _ => true

/-- Neither are the windows too large, nor those that streams will have. -/
def Measured (c : H2Connection) : Prop :=
  Within c ∧ c.settingsRemote.Lawful

theorem Measured.wanes (h : Measured c) (hwanes : Wanes c c') : Measured c' := by
  have hsettings : c'.settingsRemote = c.settingsRemote := congrArg View.settingsRemote hwanes.view
  refine ⟨⟨hwanes.window.trans h.1.connection, fun id stream' hstream' => ?_⟩, hsettings ▸ h.2⟩
  obtain ⟨stream, hstream, hle⟩ := hwanes.held id stream' hstream'
  exact hle.trans (h.1.stream id stream hstream)

/-- A stream that is opened has the window that streams have. -/
theorem Measured.opened (h : Measured c) {id next highest : ℕ} (hview : c'.view = { c.view with
    nextStreamId := next
    highestPeerStreamId := highest
    streams := c.streams.insert id (.new c.settingsLocal.initialWindowSize c.settingsRemote.initialWindowSize) }) :
    Measured c' := by
  have hsettings : c'.settingsRemote = c.settingsRemote := congrArg View.settingsRemote hview
  have hwindow : c'.windowRemote = c.windowRemote := congrArg View.windowRemote hview
  have hstreams : c'.streams = c.streams.insert id _ := congrArg View.streams hview
  refine ⟨⟨hwindow ▸ h.1.connection, fun other stream' hstream' => ?_⟩, hsettings ▸ h.2⟩
  rw [hstreams] at hstream'
  by_cases hother : other = id
  · rw [hother, AList.lookup_insert] at hstream'
    cases hstream'
    exact Int.ofNat_le.2 h.2.1
  · rw [AList.lookup_insert_ne hother] at hstream'
    exact h.1.stream other stream' hstream'

/-- What comes to one stream grows no window. -/
theorem Measured.comes (h : Measured c) {id : ℕ} {endStream : Bool} {frames : ℕ}
    (hcomes : Comes id endStream { c with idleFrames := frames } c') : Measured c' := by
  have hsettings : c'.settingsRemote = c.settingsRemote := congrArg View.settingsRemote hcomes.view
  have hwindow : c'.windowRemote = c.windowRemote := congrArg View.windowRemote hcomes.view
  refine ⟨⟨hwindow ▸ h.1.connection, fun other stream' hstream' => ?_⟩, hsettings ▸ h.2⟩
  by_cases hother : other = id
  · subst hother
    obtain ⟨stream, hstream, hsame⟩ := hcomes.held stream' hstream'
    exact hsame.le.trans (h.1.stream other stream hstream)
  · rw [hcomes.others other hother] at hstream'
    exact h.1.stream other stream' hstream'

theorem Measured.begun (h : Measured c) {id : ℕ} (hbegins : (beginStream id).run c = (.ok (), c')) : Measured c' := by
  rcases beginStream_ok hbegins with ⟨hsame, -⟩ | ⟨-, -, -, -, hview⟩
  · exact hsame ▸ h
  · exact h.opened hview

/-- Nothing is found in the streams that was not there, at least as large. -/
theorem Measured.of_view (h : Measured c) {frames premature : ℕ} {farewells : List ℕ} {streams : StreamMap H2Stream}
    {window : ℤ} (hview : c'.view = { c.view with
      idleFrames := frames
      prematureResets := premature
      farewells := farewells
      streams := streams
      windowRemote := window })
    (hwindow : window ≤ Settings.MAXIMUM_WINDOW_SIZE)
    (hstreams : ∀ id stream, streams.lookup id = some stream → stream.windowRemote ≤ Settings.MAXIMUM_WINDOW_SIZE) :
    Measured c' := by
  have hleft : c'.windowRemote = window := congrArg View.windowRemote hview
  have hheld : c'.streams = streams := congrArg View.streams hview
  have hsettings : c'.settingsRemote = c.settingsRemote := congrArg View.settingsRemote hview
  exact ⟨⟨hleft ▸ hwindow, hheld ▸ hstreams⟩, hsettings ▸ h.2⟩

theorem Measured.handled (h : Measured c) {frame : Frame} {m : Option Message}
    (hmoderate : moderate c frame = true) (hhandled : Handled c frame m c') : Measured c' := by
  obtain ⟨⟨hconnection, hstreams⟩, hlawful⟩ := h
  have h : Measured c := ⟨⟨hconnection, hstreams⟩, hlawful⟩
  cases hhandled with
  | plain frames kind counted view => exact h.of_view view hconnection hstreams
  | @settings params _ frames settings counted applied view =>
    have hsettings : c'.settingsRemote = settings := congrArg View.settingsRemote view
    have hwindow : c'.windowRemote = c.windowRemote := congrArg View.windowRemote view
    have hleft := hlawful.applyAll params
    rw [applied] at hleft
    refine ⟨⟨hwindow ▸ hconnection, fun id stream' hstream' => ?_⟩, hsettings ▸ hleft⟩
    rw [show c'.streams = c'.view.streams from rfl, view, StreamMap.lookup_mapValues] at hstream'
    obtain ⟨stream, hstream, rfl⟩ := Option.map_eq_some_iff.1 hstream'
    have hmoves := List.all_eq_true.1 hmoderate stream (StreamMap.mem_values hstream)
    rw [← Settings.applyAll_initial applied] at hmoves
    exact of_decide_eq_true hmoves
  | connection frames room counts view => exact h.of_view view room hstreams
  | stray frames zero gone counted view => exact h.of_view view hconnection hstreams
  | overflow stream zero held past view gone others => exact h.wanes (wanes_of_gone view gone others)
  | @credit id increment _ stream frames zero held room counts view =>
    refine h.of_view view hconnection fun other stream' hstream' => ?_
    rw [StreamMap.lookup_modify] at hstream'
    split_ifs at hstream' with hother
    · subst hother
      rw [held] at hstream'
      cases hstream'
      exact room
    · exact hstreams other stream' hstream'
  | @reset id code _ frames premature counted view tallied =>
    refine h.of_view view hconnection fun other stream' hstream' => ?_
    by_cases hother : other = id
    · subst hother
      cases (AList.lookup_erase _ _).symm.trans hstream'
    · rw [AList.lookup_erase_ne hother] at hstream'
      exact hstreams other stream' hstream'
  | exceeded stream frames held past counts view gone others =>
    have hcounted : Measured { c with idleFrames := frames } := ⟨⟨hconnection, hstreams⟩, hlawful⟩
    exact hcounted.wanes (wanes_of_gone view gone others)
  | data stream frames held receivable counts comes => exact h.comes comes
  | headers begun begins held comes => exact (h.begun begins).comes comes

/-- No turn takes a window too far that moves none of them too far by SETTINGS. -/
theorem Measured.turned (h : Measured t.before) (hmoderate : tempered t = true)
    (hturned : Yielded t.before t.move t.outcome t.after) : Measured t.after := by
  obtain ⟨move, c, outcome, c'⟩ := t
  cases hturned with
  | waned quiet wanes => exact h.wanes wanes
  | begun begins => exact h.begun begins
  | handled m handled => exact h.handled hmoderate handled
  | gathered m held comes => exact h.comes comes
  | opened view => exact h.opened view
  | closed view => exact h.of_view view h.1.connection h.1.stream

variable (source : Source Error UInt8) (sink : Sink) (role : Role) (limits : H2Limits)
  (requestFinalizer : RequestFinalizer) (responseFinalizer : ResponseFinalizer) (secure : Bool)

/-- Whatever comes to pass, no send window is too large, as long as no SETTINGS frame moves the
    window of a stream too far; and credit that would take a window too far is refused. -/
theorem windows_within
    (hcourse : Course moves (configured source sink role limits requestFinalizer responseFinalizer secure) h c)
    (hclear : moves.Clear h) (htempered : ∀ t ∈ h, tempered t = true) :
    Within c ∧ ∀ world (increment : ℕ),
      (Settings.MAXIMUM_WINDOW_SIZE < c.windowRemote + increment →
        ((handle world (.windowUpdate 0 increment)).run c).1 = .error (.protocol "connection send window overflowed" [])) ∧
      ∀ id stream, id ≠ 0 → c.streams.lookup id = some stream →
        Settings.MAXIMUM_WINDOW_SIZE < stream.windowRemote + increment →
          let c' := ((handle world (.windowUpdate id increment)).run c).2
          c'.streams.lookup id = none ∧ .sent (.rstStream id Code.FLOW_CONTROL_ERROR) ∈ c'.passed := by
  constructor
  · refine (hcourse.induct (fun _ c => Measured c) (fun _ t => tempered t = true) ?_ ?_ hclear ?_).1
    · refine ⟨⟨?_, fun id stream hstream => (by cases hstream)⟩, Settings.lawful_peer⟩
      exact (by decide : (Settings.DEFAULT_INITIAL_WINDOW_SIZE : ℤ) ≤ Settings.MAXIMUM_WINDOW_SIZE)
    · intro earlier c t hmeasured _ hbefore htook hgoes hmeets
      subst hbefore
      exact hmeasured.turned hmeets (yielded htook hgoes)
    · rintro later t earlier rfl
      exact htempered t (List.mem_append_right _ List.mem_cons_self)
  · refine fun world increment => ⟨fun hover => ?_, fun id stream hid hstream hover => ?_⟩
    · rw [handle, if_pos rfl, creditConnection, Act.run_bind_ok (Act.run_get c), Act.run_bind_ok (Act.run_modify _ c),
        Act.run_bind_refused (by simpa using hover)]
    · rw [handle, if_neg hid, creditStream, Act.run_bind_ok (Act.run_get c), hstream]
      dsimp only
      rw [Act.run_bind_ok (show (modifyStream id _).run c = _ from rfl), if_pos hover]
      have hleft := reset_leaves id Code.FLOW_CONTROL_ERROR { c with
        streams := StreamMap.modify c.streams id fun stream => { stream with windowRemote := stream.windowRemote + increment } }
      refine (congrArg Prod.snd (Act.run_map (fun _ => none) (reset id _) _)).symm ▸ ?_
      exact ⟨by rw [hleft.1, AList.lookup_erase], hleft.2⟩

/-- A stream is opened, and its window moved by SETTINGS as far as it goes. -/
def stretched : List Move :=
  [.begin 1, .handle .bare (.settings false [(Settings.INITIAL_WINDOW_SIZE, Settings.MAXIMUM_WINDOW_SIZE)])]

theorem windows_within_stretched :
    Within (moves.played stretched (configured (posted []) ⟨[], []⟩ .origin .default ⟨none⟩ ⟨none⟩ true)).2 := by
  have hclear := clear_of_goesOn (h := (moves.played stretched
    (configured (posted []) ⟨[], []⟩ .origin .default ⟨none⟩ ⟨none⟩ true)).1) (by decide +kernel)
  exact (windows_within (posted []) ⟨[], []⟩ .origin .default ⟨none⟩ ⟨none⟩ true (.played hclear) hclear
    (by decide +kernel)).1

/-- Credit fills the window of a stream, and SETTINGS move it past that. -/
theorem window_overflows :
    let c := after [(.bare, .pump), (.bare, .pump), (.bare, .pump), (.bare, .pump)]
      (configured (posted ((Frame.windowUpdate 1 (Settings.MAXIMUM_WINDOW_SIZE - 65535)).encode ++
        (Frame.settings false [(Settings.INITIAL_WINDOW_SIZE, 65536)]).encode)) ⟨[], []⟩ .origin .default ⟨none⟩ ⟨none⟩ true)
    ¬c.Failed ∧ (c.streams.lookup 1).map (·.windowRemote) = some 2147483648 ∧ ¬Within c := by
  intro c
  have hwindow : (c.streams.lookup 1).map (·.windowRemote) = some 2147483648 := by decide +kernel
  refine ⟨by decide +kernel, hwindow, fun h => ?_⟩
  obtain ⟨stream, hstream, hfull⟩ := Option.map_eq_some_iff.1 hwindow
  exact absurd (h.stream 1 stream hstream) (by rw [hfull]; decide)

/-! ## Frames that advance nothing -/

/-- Whether credit, or less of it, lets this end go on where it could not send. -/
def unblocks (window change : ℤ) : Bool := window ≤ 0 && 0 < window + change

/-- Whether a frame advances a stream, or lets this end send again. -/
def advances (c : H2Connection) : Frame → Bool
  | .headers .. => true
  | .data _ endStream data => !(data.isEmpty && !endStream)
  | .windowUpdate id increment =>
    if id = 0 then unblocks c.windowRemote increment
    else ((c.streams.lookup id).map fun stream => unblocks stream.windowRemote increment).getD false
  | .settings false params => c.streams.values.any fun stream => unblocks stream.windowRemote
      (Settings.offered params c.settingsRemote.initialWindowSize - c.settingsRemote.initialWindowSize)
  | _ => false

/-- Whether a frame is credit that a stream has no room for. -/
def overflows (c : H2Connection) : Frame → Bool
  | .windowUpdate id increment => id != 0 && ((c.streams.lookup id).map fun stream =>
      decide ((Settings.MAXIMUM_WINDOW_SIZE : ℤ) < stream.windowRemote + increment)).getD false
  | _ => false

/-- How many frames in a row were read by now that advanced nothing, of known and of unknown
    types. A CONTINUATION advances its stream if it holds something or is the last. -/
def row : List (Turn H2Connection Error Answer Move) → ℕ
  | [] => 0
  | t :: h =>
    match t.move, t.outcome with
    | .read, .ok (.frame (.error _)) => row h + 1
    | .handle _ frame, .ok _ => if advances t.before frame then 0 else row h + 1
    | .gather _ last block, .ok _ => if last || !block.isEmpty then 0 else row h + 1
    | .begin _, .ok _ | .gathered .., .ok _ => 0
    | _, _ => row h

/-- Whether a turn is neither a frame of an unknown type, nor a CONTINUATION with nothing in it and more
    to follow, nor credit that a stream has no room for. -/
def tallied (t : Turn H2Connection Error Answer Move) : Bool :=
  match t.move, t.outcome with
  | .read, .ok (.frame (.error _)) => false
  | .gather _ last block, _ => last || !block.isEmpty
  | .handle _ frame, _ => !overflows t.before frame
  | _, _ => true

/-- What is counted is not less than what there was, and not too much. -/
structure Tallied (limits : H2Limits) (h : List (Turn H2Connection Error Answer Move)) (c : H2Connection) : Prop where
  same : c.limits = limits
  frames : row h ≤ c.idleFrames
  bound : c.idleFrames ≤ limits.maxIdleFrames

theorem Counted.eq {frames : ℕ} (h : c.Counted frames) (hmax : c.limits.maxIdleFrames < 2 ^ 32 - 1) :
    frames = c.idleFrames + 1 := by
  obtain ⟨heq, hle⟩ := h
  rw [saturating] at heq
  omega

/-- Where nothing is counted, no frame was read that advanced nothing. -/
theorem row_quiet (hquiet : t.move.own = true ∨ ∃ m, t.move = .allocate m) (htallied : tallied t = true) :
    row (t :: h) ≤ row h := by
  obtain ⟨move, c, outcome, c'⟩ := t
  rcases hquiet with hown | ⟨m, rfl⟩
  · cases move with
    | read =>
      rcases outcome with error | ⟨_ | ⟨kind | frame⟩ | m⟩
      · exact le_rfl
      · exact le_rfl
      · cases htallied
      · exact le_rfl
      · exact le_rfl
    | gather id last block =>
      rcases outcome with error | answer
      · exact le_rfl
      · exact (if_pos htallied).le.trans (Nat.zero_le _)
    | begin => cases hown
    | handle => cases hown
    | gathered => cases hown
    | _ => exact le_rfl
  · exact le_rfl

variable {limits' : H2Limits}

/-- What the ceiling is about does not change. -/
theorem Tallied.still (htallied : Tallied limits' h c) (hlimits : c'.limits = c.limits) (hidle : c'.idleFrames = c.idleFrames)
    (hrow : row (t :: h) ≤ row h) : Tallied limits' (t :: h) c' where
  same := hlimits.trans htallied.same
  frames := hrow.trans (hidle ▸ htallied.frames)
  bound := hidle ▸ htallied.bound

/-- A frame was counted. -/
theorem Tallied.counted (htallied : Tallied limits' h c) (hmax : limits'.maxIdleFrames < 2 ^ 32 - 1) {frames : ℕ}
    (hcounted : c.Counted frames) (hlimits : c'.limits = c.limits) (hidle : c'.idleFrames = frames)
    (hrow : row (t :: h) ≤ row h + 1) : Tallied limits' (t :: h) c' := by
  have hone := hcounted.eq (htallied.same ▸ hmax)
  have hle := hcounted.2
  rw [htallied.same] at hle
  exact ⟨hlimits.trans htallied.same, by rw [hidle, hone]; have := htallied.frames; omega, hidle ▸ hle⟩

/-- There was progress. -/
theorem Tallied.progress (htallied : Tallied limits' h c) (hlimits : c'.limits = c.limits) {frames : ℕ} (hframes : frames = 0)
    (hidle : c'.idleFrames = frames) (hrow : row (t :: h) = 0) : Tallied limits' (t :: h) c' :=
  ⟨hlimits.trans htallied.same, by rw [hrow]; exact Nat.zero_le _, by rw [hidle, hframes]; exact Nat.zero_le _⟩

/-- A frame was counted, or there was progress. -/
theorem Tallied.counts (htallied : Tallied limits' h c) (hmax : limits'.maxIdleFrames < 2 ^ 32 - 1) {frames : ℕ}
    {progress : Bool} (hcounts : Counts progress c frames) (hlimits : c'.limits = c.limits) (hidle : c'.idleFrames = frames)
    (hrow : row (t :: h) = if progress then 0 else row h + 1) : Tallied limits' (t :: h) c' := by
  rw [Counts] at hcounts
  split_ifs at hcounts hrow
  · exact htallied.progress hlimits hcounts hidle hrow
  · exact htallied.counted hmax hcounts hlimits hidle hrow.le

theorem Tallied.handled (htallied : Tallied limits' h c) (hmax : limits'.maxIdleFrames < 2 ^ 32 - 1) {world : World}
    {frame : Frame} {m : Option Message} (hover : overflows c frame = false) (hhandled : Handled c frame m c') :
    Tallied limits' (⟨.handle world frame, c, .ok (.message m), c'⟩ :: h) c' := by
  have hrow : row (⟨.handle world frame, c, .ok (.message m), c'⟩ :: h) = if advances c frame then 0 else row h + 1 := rfl
  have hle : row (⟨.handle world frame, c, .ok (.message m), c'⟩ :: h) ≤ row h + 1 := by
    rw [hrow]
    split_ifs <;> omega
  cases hhandled with
  | plain frames kind counted view =>
    exact htallied.counted hmax counted (congrArg View.limits view) (congrArg View.idleFrames view) hle
  | settings frames settings counted applied view =>
    exact htallied.counted hmax counted (congrArg View.limits view) (congrArg View.idleFrames view) hle
  | connection frames room counts view =>
    exact htallied.counts hmax counts (congrArg View.limits view) (congrArg View.idleFrames view) hrow
  | stray frames zero gone counted view =>
    exact htallied.counted hmax counted (congrArg View.limits view) (congrArg View.idleFrames view) hle
  | overflow stream zero held past view gone others =>
    -- Such credit is not counted.
    rw [overflows, held, Option.map_some, Option.getD_some, decide_eq_true past, Bool.and_true, bne_iff_ne.2 zero] at hover
    cases hover
  | credit stream frames zero held room counts view =>
    refine htallied.counts hmax counts (congrArg View.limits view) (congrArg View.idleFrames view) ?_
    rw [hrow, advances, if_neg zero, held]
    rfl
  | reset frames premature counted view tallied =>
    exact htallied.counted hmax counted (congrArg View.limits view) (congrArg View.idleFrames view) hle
  | exceeded stream frames held past counts view gone others =>
    exact htallied.counts hmax counts (congrArg View.limits view) (congrArg View.idleFrames view) hrow
  | data stream frames held receivable counts comes =>
    exact htallied.counts hmax counts (congrArg View.limits comes.view) (congrArg View.idleFrames comes.view) hrow
  | headers begun begins held comes =>
    have hlimits : begun.limits = c.limits := by
      rcases beginStream_ok begins with ⟨hsame, -⟩ | ⟨-, -, -, -, hview⟩
      · rw [hsame]
      · exact congrArg View.limits hview
    exact htallied.progress ((congrArg View.limits comes.view).trans hlimits) rfl (congrArg View.idleFrames comes.view) hrow

theorem Tallied.turned (htallied : Tallied limits' h t.before) (hmax : limits'.maxIdleFrames < 2 ^ 32 - 1)
    (hcounts : tallied t = true) (hturned : Yielded t.before t.move t.outcome t.after) :
    Tallied limits' (t :: h) t.after := by
  obtain ⟨move, c, outcome, c'⟩ := t
  cases hturned with
  | waned quiet wanes =>
    exact htallied.still (congrArg View.limits wanes.view) (congrArg View.idleFrames wanes.view) (row_quiet quiet hcounts)
  | @begun id _ _ begins =>
    have hrow : row (⟨.begin id, c, outcome, c'⟩ :: h) ≤ row h := by
      cases outcome with
      | error error => exact le_rfl
      | ok answer => exact Nat.zero_le _
    rcases beginStream_ok begins with ⟨hsame, -⟩ | ⟨-, -, -, -, hview⟩
    · exact htallied.still (congrArg H2Connection.limits hsame) (congrArg H2Connection.idleFrames hsame) hrow
    · exact htallied.still (congrArg View.limits hview) (congrArg View.idleFrames hview) hrow
  | handled m handled => exact htallied.handled hmax (by simpa [tallied] using hcounts) handled
  | gathered m held comes =>
    exact htallied.progress (congrArg View.limits comes.view) rfl (congrArg View.idleFrames comes.view) rfl
  | opened view => exact htallied.still (congrArg View.limits view) (congrArg View.idleFrames view) le_rfl
  | closed view => exact htallied.still (congrArg View.limits view) (congrArg View.idleFrames view) le_rfl

/-- Whatever comes to pass, no more frames in a row advance nothing than may, as long as each of them is one
    that is counted; and the next one is refused. -/
theorem idle_bounded
    (hcourse : Course moves (configured source sink role limits requestFinalizer responseFinalizer secure) h c)
    (hclear : moves.Clear h) (hmax : limits.maxIdleFrames < 2 ^ 32 - 1) (htallied : ∀ t ∈ h, tallied t = true) :
    row h ≤ limits.maxIdleFrames ∧ ∀ world frame, frame.gathers = false → advances c frame = false →
      overflows c frame = false → row h = limits.maxIdleFrames → ∃ error, ((handle world frame).run c).1 = .error error := by
  have hall : Tallied limits h c := by
    refine hcourse.induct (Tallied limits) (fun _ t => tallied t = true) ⟨rfl, le_rfl, Nat.zero_le _⟩ ?_ hclear ?_
    · intro earlier c t hbound _ hbefore htook hgoes hmeets
      subst hbefore
      exact hbound.turned hmax hmeets (yielded htook hgoes)
    · rintro later t earlier rfl
      exact htallied t (List.mem_append_right _ List.mem_cons_self)
  refine ⟨hall.frames.trans hall.bound, fun world frame hwhole hidle hover hfull => ?_⟩
  rcases hrun : (handle world frame).run c with ⟨error | m, c'⟩
  · exact ⟨error, rfl⟩
  · -- It would be one frame too many.
    have hnext : Tallied limits (⟨.handle world frame, c, .ok (.message m), c'⟩ :: h) c' :=
      hall.handled hmax hover (handled_of_ok hwhole hrun)
    have hrow : row (⟨.handle world frame, c, .ok (.message m), c'⟩ :: h) = row h + 1 := if_neg (Bool.eq_false_iff.1 hidle)
    have hle := hnext.frames.trans hnext.bound
    omega

/-- A client that answers what little it is asked. -/
def pinged : List Move := [.start, .handle .bare (.ping false [0, 0, 0, 0, 0, 0, 0, 0])]

/-- The ceilings, but that only so many frames may advance nothing. -/
def patient (frames : ℕ) : H2Limits := { H2Limits.default with maxIdleFrames := frames }

theorem idle_bounded_pinged :
    row (moves.played pinged (configured (posted []) ⟨[], []⟩ .userAgent (patient 1) ⟨none⟩ ⟨none⟩ true)).1 ≤ 1 := by
  have hclear := clear_of_goesOn (h := (moves.played pinged
    (configured (posted []) ⟨[], []⟩ .userAgent (patient 1) ⟨none⟩ ⟨none⟩ true)).1) (by decide +kernel)
  exact (idle_bounded (posted []) ⟨[], []⟩ .userAgent (patient 1) ⟨none⟩ ⟨none⟩ true (.played hclear) hclear (by decide)
    (by decide +kernel)).1

/-- Two frames of a type no end has to know, and a PING. -/
def unheard : Source Error UInt8 where
  data := [0, 0, 0, 0x20, 0, 0, 0, 0, 0, 0, 0, 0, 0x20, 0, 0, 0, 0, 0] ++
    (Frame.ping false [0, 0, 0, 0, 0, 0, 0, 0]).encode
  eof := false
  reads := []

/-- The moves in which they are read. -/
def overhearing : List Move :=
  [.start, .flushResets, .read, .read, .read, .handle .bare (.ping false [0, 0, 0, 0, 0, 0, 0, 0])]

/-- Where one frame may advance nothing, all three of them are read: two are not counted. -/
theorem unheard_uncounted :
    let start := configured unheard ⟨[], []⟩ .userAgent (patient 1) ⟨none⟩ ⟨none⟩ true
    let c := after [(.bare, .pump)] start
    (¬c.Failed ∧ c.source.data = [] ∧ c.idleFrames = 1) ∧
      ∃ h c', Course moves start h c' ∧ moves.Clear h ∧ row h = 3 ∧ c'.source.data = [] := by
  intro start c
  have hclear := clear_of_goesOn (h := (moves.played overhearing start).1) (by decide +kernel)
  exact ⟨by decide +kernel, _, _, .played hclear, hclear, by decide +kernel, by decide +kernel⟩

end H2Connection

end Soyokaze

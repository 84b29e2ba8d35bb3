import Soyokaze.Protocol.H2.Balance

/-!
# A pump keeps the balance

Everything a connection does with a frame it reads. It owes its peer nothing between
two frames: the credit a DATA frame cost is given back before the next is read. So the
peer, which is not let send a larger frame than its credit, never runs out of it.

* `Sound`: a connection in balance that owes its peer nothing;
* `handle_steady`: whatever frame is handled, no DATA is sent and none refused, and the
  connection is sound after, if the frame was accepted;
* `pump_steady`: the same of reading a frame and handling it.
-/

namespace Soyokaze

open H2

namespace H2Connection

/-- What passed between two states was neither DATA that was sent nor DATA refused, and
    nothing was given back to the source. -/
structure Silent (c c' : H2Connection) : Prop where
  passed : ∃ entries, c'.passed = entries ++ c.passed ∧ ∀ e ∈ entries, e.silent = true
  left : c'.source.left ≤ c.source.left

theorem Silent.of_eq {c c' : H2Connection} (h : c'.passed = c.passed) (hsource : c'.source = c.source) : Silent c c' :=
  ⟨⟨[], h, fun _ h => absurd h List.not_mem_nil⟩, (congrArg Source.left hsource).le⟩

theorem silent_cons {c c' : H2Connection} {e : Passed} (h : c'.passed = e :: c.passed) (he : e.silent = true)
    (hsource : c'.source = c.source) : Silent c c' :=
  ⟨⟨[e], h, fun e' he' => by rw [List.mem_singleton.1 he', he]⟩, (congrArg Source.left hsource).le⟩

theorem Silent.trans {a b c : H2Connection} (h : Silent a b) (h' : Silent b c) : Silent a c := by
  obtain ⟨entries, hentries, hsilent⟩ := h.passed
  obtain ⟨entries', hentries', hsilent'⟩ := h'.passed
  refine ⟨⟨entries' ++ entries, by rw [hentries', hentries, List.append_assoc], fun e he => ?_⟩, h'.left.trans h.left⟩
  exact (List.mem_append.1 he).elim (hsilent' e) (hsilent e)

theorem Silent.observed {c c' : H2Connection} (h : Silent c c') (hc : Observed c.passed) : Observed c'.passed := by
  obtain ⟨entries, hentries, hsilent⟩ := h.passed
  rw [hentries]
  exact hc.append hsilent

theorem Quiet.silent {c c' : H2Connection} (h : Quiet c c') : Silent c c' := by
  obtain ⟨entries, hentries, hquiet⟩ := h.passed
  exact ⟨⟨entries, hentries, fun e he => Passed.silent_of_quiet (hquiet e he)⟩, h.left⟩

/-- Every window a connection gave its peer is what it was to begin with. -/
structure Level (c : H2Connection) : Prop where
  connection : c.windowLocal = Settings.DEFAULT_INITIAL_WINDOW_SIZE
  stream : ∀ id stream, c.streams.lookup id = some stream →
    stream.windowLocal = Settings.DEFAULT_INITIAL_WINDOW_SIZE
  frameSize : c.settingsLocal.maxFrameSize = Settings.DEFAULT_MAX_FRAME_SIZE

theorem Quiet.level {c c' : H2Connection} (h : Quiet c c') (hc : Level c) : Level c' where
  connection := h.windowLocal.trans hc.connection
  stream id stream' hstream' := by
    obtain ⟨stream, hstream, hlocal, -⟩ := h.stream id stream' hstream'
    exact hlocal.trans (hc.stream id stream hstream)
  frameSize := by
    rw [h.settingsLocal]
    exact hc.frameSize

/-- A connection in balance that owes its peer nothing. -/
structure Sound (c : H2Connection) : Prop where
  balanced : Balanced c c.passed
  level : Level c

theorem Quiet.sound {c c' : H2Connection} (h : Quiet c c') (hc : Sound c) : Sound c' :=
  ⟨h.keeps_balance hc.balanced, h.level hc.level⟩

theorem sound_resume (source : Source Error UInt8) (sink : Sink) (role : Role) (limits : H2Limits) :
    Sound (resume source sink role limits) where
  balanced := balanced_resume source sink role limits
  level := by
    refine ⟨rfl, fun _ _ h => ?_, rfl⟩
    cases h

/-- What a step comes to that is begun in some state: it is silent, and leaves a sound
    connection if it succeeds. -/
structure Steady {α : Type} (c : H2Connection) (outcome : Except Error α × H2Connection) : Prop where
  silent : Silent c outcome.2
  sound : ∀ a, outcome.1 = .ok a → Sound outcome.2

variable {α β : Type}

theorem Steady.bind {m : Step α} {f : α → Step β} {c : H2Connection} (hm : Silent c (m.run c).2)
    (hf : ∀ a c₁, m.run c = (.ok a, c₁) → Steady c₁ ((f a).run c₁)) : Steady c ((m >>= f).run c) := by
  rw [Act.run_bind]
  rcases hrun : m.run c with ⟨error | a, c₁⟩
  · rw [hrun] at hm
    exact ⟨hm, fun _ h => by cases h⟩
  · rw [hrun] at hm
    have hnext := hf a c₁ hrun
    exact ⟨hm.trans hnext.silent, hnext.sound⟩

/-- A step that is steady wherever it is begun from a sound connection. -/
def Steadily (m : Step α) : Prop := ∀ c, Sound c → Steady c (m.run c)

theorem steadily_of {m : Step α} (h : Quietly m) : Steadily m := fun c hc =>
  ⟨(h c).silent, fun _ _ => (h c).sound hc⟩

theorem Steadily.bind {m : Step α} {f : α → Step β} (hm : Steadily m) (hf : ∀ a, Steadily (f a)) :
    Steadily (m >>= f) := by
  intro c hc
  refine Steady.bind (hm c hc).silent fun a c₁ hrun => hf a c₁ ?_
  have hsound := (hm c hc).sound a
  rw [hrun] at hsound
  exact hsound rfl

/-! ## Opening streams -/

/-- Opening a stream keeps the connection sound. -/
theorem Sound.opened {c : H2Connection} (h : Sound c) {id : ℕ} (hid : id ≠ 0) :
    Sound { c with
      streams := c.streams.insert id (.new c.settingsLocal.initialWindowSize c.settingsRemote.initialWindowSize)
      passed := .opened id :: c.passed } where
  balanced := ⟨(h.balanced.opened hid).given, (h.balanced.opened hid).held, (h.balanced.opened hid).settings,
    h.balanced.announced, h.balanced.next, (h.balanced.opened hid).stream⟩
  level := by
    refine ⟨h.level.connection, fun other stream hstream => ?_, h.level.frameSize⟩
    by_cases heq : other = id
    · rw [heq, AList.lookup_insert] at hstream
      cases hstream
      exact congrArg _ h.balanced.announced
    · rw [AList.lookup_insert_ne heq] at hstream
      exact h.level.stream other stream hstream

theorem steadily_beginStream (id : ℕ) : Steadily (beginStream id) := by
  intro c hc
  refine Steady.bind (quietly_get c).silent fun _ _ hget => ?_
  cases hget
  split_ifs with howner hknown
  · exact steadily_of (quietly_demand _ _) c hc
  · exact steadily_of (quietly_pure _) c hc
  · have hid : id ≠ 0 := fun h => howner (Or.inl h)
    refine Steadily.bind (steadily_of (quietly_demand _ _)) (fun _ => ?_) c hc
    refine Steadily.bind (steadily_of (quietly_modify fun _ => ⟨rfl, rfl⟩)) fun _ => ?_
    refine Steadily.bind (steadily_of (quietly_demand _ _)) fun _ c₁ hc₁ => ?_
    exact ⟨silent_cons rfl rfl rfl, fun _ _ => hc₁.opened hid⟩

/-! ## Reading frames -/

theorem silently_bind {m : Step α} {f : α → Step β} (hm : Act.Keeps Silent m) (hf : ∀ a, Act.Keeps Silent (f a)) :
    Act.Keeps Silent (m >>= f) := @Act.Keeps.bind _ _ _ _ Silent Silent.trans m f hm hf

theorem silently_of {m : Step α} (h : Quietly m) : Act.Keeps Silent m := h.mono Quiet.silent

theorem silently_takeFrame (length : ℕ) (header : Option FrameHeader) :
    Act.Keeps Silent (takeFrame length header) := by
  refine silently_bind (silently_of quietly_get) fun c => silently_bind (silently_of (quietly_consuming _)) fun _ => ?_
  cases header with
  | none => exact silently_of (quietly_pure _)
  | some header =>
    refine silently_bind (fun c => silent_cons rfl rfl rfl) fun _ => Act.Keeps.map (silently_of (quietly_ofExcept _)) _

theorem silently_readFrameKept : Act.Keeps Silent readFrameKept :=
  silently_bind (silently_of quietly_flushBeforeWaiting) fun _ => silently_bind (silently_of quietly_get) fun _ =>
    silently_bind (silently_of (quietly_await _ _)) fun _ => silently_takeFrame _ _

theorem silently_readFrameLoop (fuel : ℕ) : Act.Keeps Silent (readFrameLoop fuel) := by
  induction fuel with
  | zero => exact silently_of (quietly_fail _)
  | succ fuel ih =>
    refine silently_bind silently_readFrameKept fun kept => ?_
    cases kept with
    | error kind => exact ih
    | ok frame => exact silently_of (quietly_pure _)

theorem silently_readFrame : Act.Keeps Silent readFrame :=
  silently_bind (silently_of quietly_get) fun _ => silently_readFrameLoop _

/-- A frame flow control has nothing to do with leaves the connection sound. -/
theorem Sound.received {c : H2Connection} (h : Sound c) {header : FrameHeader} {payload : Octets}
    (hidle : Idle (.received header payload)) : Sound { c with passed := .received header payload :: c.passed } := by
  have hbal := h.balanced.congr (same_cons_of_idle hidle c.passed)
  exact ⟨⟨hbal.given, hbal.held, hbal.settings, hbal.announced, hbal.next, hbal.stream⟩,
    h.level.connection, h.level.stream, h.level.frameSize⟩

theorem steadily_continueHeaders (world : World) (id : ℕ) (endStream : Bool) (frames : ℕ) :
    Steadily (continueHeaders world id endStream frames) := by
  induction frames with
  | zero =>
    exact Steadily.bind (steadily_of (quietly_checkBlock id)) fun _ => Steadily.bind (steadily_of quietly_get) fun _ =>
      (steadily_of (quietly_fail _))
  | succ frames ih =>
    refine Steadily.bind (steadily_of (quietly_checkBlock id)) fun _ c hc => ?_
    refine Steady.bind (silently_readFrameKept c) fun kept c₁ hkept => ?_
    have hread := readFrameKept_read hkept
    rcases kept with kind | frame
    · exact ⟨Silent.of_eq rfl rfl, fun _ h => by cases h⟩
    obtain ⟨c₂, header, payload, hquiet, -, hassemble, -, rfl⟩ := hread
    cases frame
    case continuation other endHeaders block =>
      have hidle : Idle (.received header payload) := idle_of_received (arrived_of_assemble hassemble)
        (fun h => by cases h) (fun h => by cases h) fun _ h => by cases h
      have hc₁ := (hquiet.sound hc).received hidle
      refine (?_ : Steadily (if other = id then _ else _)) _ hc₁
      split_ifs with hother hlast
      · exact Steadily.bind (steadily_of (quietly_openStream id)) fun _ =>
          Steadily.bind (steadily_of (quietly_modifyStream fun _ => ⟨rfl, rfl⟩)) fun _ =>
            steadily_of (quietly_finishGathered world id endStream)
      · exact Steadily.bind (steadily_of (quietly_openStream id)) fun _ =>
          Steadily.bind (steadily_of (quietly_modifyStream fun _ => ⟨rfl, rfl⟩)) fun _ => ih
      · exact steadily_of (quietly_fail _)
    all_goals exact ⟨Silent.of_eq rfl rfl, fun _ h => by cases h⟩

theorem steadily_handleHeaders (world : World) (id : ℕ) (endStream endHeaders : Bool) (block : Octets) :
    Steadily (handleHeaders world id endStream endHeaders block) := by
  refine Steadily.bind (steadily_beginStream id) fun _ => ?_
  split_ifs
  · exact steadily_of (quietly_finishHeaders world id block endStream)
  · exact Steadily.bind (steadily_of (quietly_openStream id)) fun _ =>
      Steadily.bind (steadily_of (quietly_modifyStream fun _ => ⟨rfl, rfl⟩)) fun _ =>
        Steadily.bind (steadily_of quietly_get) fun c => steadily_continueHeaders world id endStream c.limits.maxHeaderCount

/-! ## Handling one frame -/

/-- A frame that is accepted as no progress changes nothing but how many there were. -/
theorem idle_ok {c c' : H2Connection} (h : idle.run c = (.ok (), c')) : ∃ frames, c' = { c with idleFrames := frames } := by
  obtain ⟨_, _, hmodify, h⟩ := Act.of_run_bind_ok h
  cases hmodify
  obtain ⟨_, _, hget, h⟩ := Act.of_run_bind_ok h
  cases hget
  split_ifs at h <;> cases h
  exact ⟨_, rfl⟩

theorem advanced_ok {progress : Bool} {c c' : H2Connection} (h : (advanced progress).run c = (.ok (), c')) :
    ∃ frames, c' = { c with idleFrames := frames } := by
  rw [advanced] at h
  split_ifs at h
  · cases h
    exact ⟨_, rfl⟩
  · exact idle_ok h

theorem giveCredit_run (id length : ℕ) (c : H2Connection) :
    ∃ out, (giveCredit id length).run c = (.ok (), { c with out := out, passed := grants id length ++ c.passed }) := by
  rw [giveCredit, grants]
  split_ifs
  · exact ⟨_, rfl⟩
  · exact ⟨c.out, rfl⟩

/-- What a DATA frame the peer had credit for costs the connection is given back. -/
theorem spendConnection_run (length : ℕ) {c : H2Connection} (h : (length : ℤ) ≤ c.windowLocal) :
    ∃ out, (spendConnection length).run c = (.ok (), { c with out := out, passed := grants 0 length ++ c.passed }) := by
  rw [spendConnection, Act.run_bind_ok (Act.run_modify _ c), Act.run_bind_ok (Act.run_get _), if_neg (by simpa using h)]
  obtain ⟨out, hgive⟩ := giveCredit_run 0 length { c with windowLocal := c.windowLocal - length }
  refine ⟨out, ?_⟩
  rw [Act.run_bind_ok hgive, Act.run_modify, Int.sub_add_cancel]

/-- What it costs the stream is given back where the peer may still send on it. -/
theorem restoreStream_run {id : ℕ} (length : ℕ) {c : H2Connection} {stream : H2Stream} (h : c.streams.lookup id = some stream)
    (hreceivable : stream.state.receivable = true) :
    ∃ out, (restoreStream id length).run c = (.ok (), { c with
      streams := StreamMap.modify c.streams id fun stream => { stream with windowLocal := stream.windowLocal + length }
      out := out
      passed := grants id length ++ c.passed }) := by
  rw [restoreStream, Act.run_bind_ok (Act.run_get c), h, if_pos (by simpa using hreceivable)]
  obtain ⟨out, hgive⟩ := giveCredit_run id length c
  refine ⟨out, ?_⟩
  rw [Act.run_bind_ok hgive]
  rfl

theorem quietly_demandReceivable (id : ℕ) : Quietly (demandReceivable id) := by
  refine Act.keeps_of_eq Quiet.refl fun c => ?_
  simp only [demandReceivable, Act.run]
  split <;> rfl

theorem demandReceivable_ok {id : ℕ} {c c' : H2Connection} (h : (demandReceivable id).run c = (.ok (), c')) :
    c' = c ∧ ∃ stream, c.streams.lookup id = some stream ∧ stream.state.receivable = true := by
  simp only [demandReceivable, Act.run] at h
  split at h
  · cases h
  · next stream hstream =>
    split_ifs at h with hreceivable
    · cases h
      exact ⟨rfl, stream, hstream, hreceivable⟩
    · cases h

theorem openStream_ok {id : ℕ} {c c' : H2Connection} {stream : H2Stream} (h : (openStream id).run c = (.ok stream, c')) :
    c' = c ∧ c.streams.lookup id = some stream := by
  simp only [openStream, Act.run] at h
  split at h
  · next hstream =>
    cases h
    exact ⟨rfl, hstream⟩
  · cases h

theorem overbuffered_ok {c c' : H2Connection} {exceeding : Bool} (h : overbuffered.run c = (.ok exceeding, c')) :
    ∃ bound, c' = { c with bufferedBound := bound } := by
  simp only [overbuffered, Act.run] at h
  split_ifs at h
  · cases h
    exact ⟨_, rfl⟩
  · cases h
    exact ⟨_, rfl⟩

theorem quietly_holdData (id : ℕ) (data : Octets) : Quietly (holdData id data) := by
  refine Quietly.bind (quietly_modifyStream fun _ => ⟨rfl, rfl⟩) fun _ => Quietly.bind (quietly_openStream id) fun _ =>
    Quietly.bind (quietly_modify fun _ => ⟨rfl, rfl⟩) fun _ => Quietly.bind quietly_get fun _ =>
      Quietly.bind (quietly_demand _ _) fun _ => Quietly.bind (quietly_demand _ _) fun _ => Quietly.bind (fun c => ?_) fun _ =>
        quietly_demand _ _
  simp only [overbuffered, Act.run]
  split_ifs
  · exact .refl c
  · exact .of_core ⟨rfl, rfl⟩

theorem demand_ok {condition : Bool} {error : Error} {c c' : H2Connection}
    (h : (Act.demand condition error : Step Unit).run c = (.ok (), c')) : c' = c := by
  rw [Act.run_demand] at h
  exact (congrArg Prod.snd h).symm

theorem holdData_ok {id : ℕ} {data : Octets} {c c' : H2Connection} (h : (holdData id data).run c = (.ok (), c')) :
    ∃ bound, c' = { c with
      streams := StreamMap.modify c.streams id fun stream => { stream with body := stream.body ++ data }
      bufferedBound := bound } := by
  obtain ⟨_, _, hmodify, h⟩ := Act.of_run_bind_ok h
  cases hmodify
  obtain ⟨stream, _, hstream, h⟩ := Act.of_run_bind_ok h
  obtain ⟨rfl, -⟩ := openStream_ok hstream
  obtain ⟨_, _, hmodify, h⟩ := Act.of_run_bind_ok h
  cases hmodify
  obtain ⟨_, _, hget, h⟩ := Act.of_run_bind_ok h
  cases hget
  obtain ⟨_, _, hbody, h⟩ := Act.of_run_bind_ok h
  obtain rfl := demand_ok hbody
  obtain ⟨_, _, hreceived, h⟩ := Act.of_run_bind_ok h
  obtain rfl := demand_ok hreceived
  obtain ⟨_, _, hheld, h⟩ := Act.of_run_bind_ok h
  obtain ⟨bound, rfl⟩ := overbuffered_ok hheld
  obtain rfl := demand_ok h
  exact ⟨bound, rfl⟩

/-- DATA a stream had credit for is taken, and what it cost the stream is given back. -/
theorem absorbData_steady {c : H2Connection} {id : ℕ} {stream : H2Stream} (hstream : c.streams.lookup id = some stream)
    (hreceivable : stream.state.receivable = true) (hbal : Balanced c c.passed)
    (hconnection : c.windowLocal = Settings.DEFAULT_INITIAL_WINDOW_SIZE)
    (hframe : c.settingsLocal.maxFrameSize = Settings.DEFAULT_MAX_FRAME_SIZE) {data : Octets}
    (hown : stream.windowLocal + data.length = Settings.DEFAULT_INITIAL_WINDOW_SIZE)
    (hothers : ∀ other stream', other ≠ id → c.streams.lookup other = some stream' →
      stream'.windowLocal = Settings.DEFAULT_INITIAL_WINDOW_SIZE) (endStream : Bool) :
    Steady c ((absorbData id endStream data).run c) := by
  refine Steady.bind (quietly_holdData id data c).silent fun _ c₁ hhold => ?_
  obtain ⟨bound, rfl⟩ := holdData_ok hhold
  have hquiet := ((quietly_holdData id data).leads _ _ _ hhold)
  have hstream₁ : (StreamMap.modify c.streams id fun stream => { stream with body := stream.body ++ data }).lookup id =
      some { stream with body := stream.body ++ data } := by
    rw [StreamMap.lookup_modify, if_pos rfl, hstream, Option.map_some]
  refine Steady.bind (quiet_note rfl _).silent fun _ c₁ hnote => ?_
  obtain ⟨out, hrestore⟩ := restoreStream_run data.length (c := { c with
    streams := StreamMap.modify c.streams id fun stream => { stream with body := stream.body ++ data }
    bufferedBound := bound
    passed := .accepted id data :: c.passed }) hstream₁ hreceivable
  cases hnote
  refine Steady.bind ?_ fun _ c₂ hrestore' => ?_
  · rw [hrestore]
    exact ⟨⟨_, rfl, silent_grants id data.length⟩, Nat.le_refl _⟩
  rw [hrestore] at hrestore'
  cases hrestore'
  have hfinish : Quietly (if endStream then complete id true else pure none : Step (Option Message)) := by
    split_ifs
    · exact quietly_complete id true
    · exact quietly_pure _
  have hbal₁ := ((hquiet.trans (quiet_note (e := .accepted id data) rfl _)).keeps_balance hbal).restored
    (hbal.stream id stream hstream).1 data.length
  refine steadily_of hfinish _ ⟨⟨hbal₁.given, hbal₁.held, hbal₁.settings, hbal₁.announced, hbal₁.next, hbal₁.stream⟩,
    hconnection, fun other stream' hstream' => ?_, hframe⟩
  rw [StreamMap.lookup_modify, StreamMap.lookup_modify] at hstream'
  split_ifs at hstream' with heq
  · rw [heq, hstream] at hstream'
    cases hstream'
    exact hown
  · exact hothers other stream' heq hstream'

section Handle

variable {c : H2Connection} {header : FrameHeader} {payload : Octets} {log : List Passed}
  (hpassed : c.passed = .received header payload :: log) (hbal : Balanced c log) (hlevel : Level c)

include hpassed hbal hlevel

/-- A frame flow control has nothing to do with was handled by then. -/
theorem sound_of_idle (hidle : Idle (.received header payload)) : Sound c where
  balanced := by
    rw [hpassed]
    exact hbal.congr (same_cons_of_idle hidle log)
  level := hlevel

theorem handleSettings_steady {params : List (ℕ × ℕ)}
    (hframe : Frame.assemble header payload = .ok (.settings false params)) :
    Steady c ((handleSettings params).run c) := by
  refine Steady.bind (quietly_idle c).silent fun _ c₁ hidle => ?_
  obtain ⟨frames, rfl⟩ := idle_ok hidle
  refine Steady.bind (Silent.of_eq rfl rfl) fun _ _ hget => ?_
  cases hget
  refine Steady.bind (Silent.of_eq rfl rfl) fun _ c₂ happly => ?_
  obtain rfl : _ = c₂ := congrArg Prod.snd happly
  refine ⟨silent_cons rfl rfl rfl, fun _ _ => ?_⟩
  -- The settings take effect first; the acknowledgement that is queued is quiet.
  let c₃ : H2Connection := { c with
    settingsRemote := (c.settingsRemote.applyAll params).2
    streams := StreamMap.mapValues c.streams fun stream => { stream with
      windowRemote := stream.windowRemote +
        ((c.settingsRemote.applyAll params).2.initialWindowSize - c.settingsRemote.initialWindowSize) } }
  have hsound : Sound c₃ := by
    refine ⟨?_, hlevel.connection, fun id stream' hstream' => ?_, hlevel.frameSize⟩
    · rw [show c₃.passed = _ from hpassed]
      exact hbal.settle hframe
    · rw [StreamMap.lookup_mapValues] at hstream'
      obtain ⟨stream, hstream, rfl⟩ := Option.map_eq_some_iff.1 hstream'
      exact hlevel.stream id stream hstream
  exact Quiet.sound ((quiet_note (e := .sent (.settings true [])) rfl c₃).trans (.of_core ⟨rfl, rfl⟩)) hsound

theorem creditConnection_steady {increment : ℕ}
    (hframe : Frame.assemble header payload = .ok (.windowUpdate 0 increment)) :
    Steady c ((creditConnection increment).run c) := by
  refine Steady.bind (Silent.of_eq rfl rfl) fun _ _ hget => ?_
  cases hget
  refine Steady.bind (Silent.of_eq rfl rfl) fun _ _ hmodify => ?_
  cases hmodify
  refine steadily_of (Quietly.bind (quietly_demand _ _) fun _ => Quietly.bind (quietly_advanced _) fun _ =>
    quietly_pure _) _ ⟨?_, hlevel.connection, hlevel.stream, hlevel.frameSize⟩
  rw [show H2Connection.passed { c with windowRemote := c.windowRemote + increment } = _ from hpassed]
  exact hbal.connectionCredit hframe

theorem creditStream_steady {id increment : ℕ} (hid : id ≠ 0)
    (hframe : Frame.assemble header payload = .ok (.windowUpdate id increment)) :
    Steady c ((creditStream id increment).run c) := by
  let c₁ : H2Connection := { c with
    streams := StreamMap.modify c.streams id fun stream =>
      { stream with windowRemote := stream.windowRemote + increment } }
  have hsound : Sound c₁ := by
    refine ⟨?_, hlevel.connection, fun other stream' hstream' => ?_, hlevel.frameSize⟩
    · rw [show c₁.passed = _ from hpassed]
      exact hbal.streamCredit hframe hid
    · rw [StreamMap.lookup_modify] at hstream'
      split_ifs at hstream'
      · obtain ⟨stream, hstream, rfl⟩ := Option.map_eq_some_iff.1 hstream'
        exact hlevel.stream other stream hstream
      · exact hlevel.stream other stream' hstream'
  refine Steady.bind (Silent.of_eq rfl rfl) fun _ _ hget => ?_
  cases hget
  rcases hstream : c.streams.lookup id with _ | stream
  · -- No stream is changed, so that the credit is nobody's.
    have hquiet : Quiet c₁ c := by
      refine ⟨rfl, rfl, rfl, rfl, Nat.le_refl _, fun other stream' hstream' => ⟨stream', ?_, rfl, rfl⟩,
        ⟨[], rfl, fun _ h => absurd h List.not_mem_nil⟩, Nat.le_refl _⟩
      rw [StreamMap.lookup_modify, if_neg, hstream']
      rintro rfl
      rw [hstream] at hstream'
      cases hstream'
    exact steadily_of (Quietly.bind quietly_idle fun _ => quietly_pure _) c (hquiet.sound hsound)
  · refine Steady.bind (Silent.of_eq rfl rfl) fun _ _ hmodify => ?_
    cases hmodify
    refine (?_ : Steadily (if Settings.MAXIMUM_WINDOW_SIZE < stream.windowRemote + increment then _ else _)) c₁ hsound
    split_ifs
    · exact steadily_of (Quietly.bind (quietly_reset _ _) fun _ => quietly_pure _)
    · exact steadily_of (Quietly.bind (quietly_advanced _) fun _ => quietly_pure _)

/-- DATA is refused to nobody, and what it cost is given back before the next frame is read. -/
theorem handleData_steady {id : ℕ} {endStream : Bool} {data : Octets}
    (hframe : Frame.assemble header payload = .ok (.data id endStream data))
    (hlength : data.length ≤ Settings.DEFAULT_INITIAL_WINDOW_SIZE) :
    Steady c ((handleData id endStream data).run c) := by
  refine Steady.bind (quietly_demandReceivable id c).silent fun _ c₁ hdemand => ?_
  obtain ⟨rfl, stream, hstream, hreceivable⟩ := demandReceivable_ok hdemand
  have hid : id ≠ 0 := (hbal.stream id stream hstream).1
  refine Steady.bind (quietly_advanced _ _).silent fun _ c₂ hadvanced => ?_
  obtain ⟨frames, rfl⟩ := advanced_ok hadvanced
  -- The connection's window is whole again at once, and the stream's can spare the octets.
  obtain ⟨out, hspend⟩ := spendConnection_run data.length (c := { c₁ with idleFrames := frames })
    (by rw [hlevel.connection]; exact_mod_cast hlength)
  refine Steady.bind ?_ fun _ c₃ hspend' => ?_
  · rw [hspend]
    exact ⟨⟨_, rfl, silent_grants 0 data.length⟩, Nat.le_refl _⟩
  rw [hspend] at hspend'
  cases hspend'
  refine Steady.bind (Silent.of_eq rfl rfl) fun _ _ hmodify => ?_
  cases hmodify
  refine Steady.bind (quietly_openStream id _).silent fun stream' c₄ hopen => ?_
  obtain ⟨rfl, hstream'⟩ := openStream_ok hopen
  have hlookup := hstream'
  rw [StreamMap.lookup_modify, if_pos rfl, hstream] at hlookup
  cases hlookup
  have hheld : ¬(stream.windowLocal - data.length < 0) := by
    rw [hlevel.stream id stream hstream]
    omega
  rw [if_neg hheld]
  have hbal' := hbal.data hframe hid
  rw [← hpassed] at hbal'
  refine absorbData_steady hstream' hreceivable
    ⟨hbal'.given, hbal'.held, hbal'.settings, hbal'.announced, hbal'.next, hbal'.stream⟩ hlevel.connection
    hlevel.frameSize ?_ (fun other stream' heq hother => ?_) endStream
  · rw [← hlevel.stream id stream hstream]
    exact Int.sub_add_cancel _ _
  · rw [StreamMap.lookup_modify, if_neg heq] at hother
    exact hlevel.stream other stream' hother

/-- Whatever frame is handled, no DATA is sent and none refused, and the connection is sound
    after, if the frame was accepted. -/
theorem handle_steady (world : World) {frame : Frame} (hframe : Frame.assemble header payload = .ok frame)
    (hlength : payload.length ≤ Settings.DEFAULT_INITIAL_WINDOW_SIZE) : Steady c ((handle world frame).run c) := by
  have hother (hdata : frame.kind ≠ .data) (hwindow : frame.kind ≠ .windowUpdate)
      (hsettings : ∀ params, frame ≠ .settings false params) : Sound c :=
    sound_of_idle hpassed hbal hlevel (idle_of_received (arrived_of_assemble hframe) hdata hwindow hsettings)
  cases frame with
  | data id endStream data =>
    obtain ⟨-, -, hpayload, hdata⟩ := Frame.data_of_assemble hframe
    exact handleData_steady hpassed hbal hlevel hframe (by omega)
  | windowUpdate id increment =>
    by_cases hid : id = 0
    · subst hid
      exact creditConnection_steady hpassed hbal hlevel hframe
    · rw [handle, if_neg hid]
      exact creditStream_steady hpassed hbal hlevel hid hframe
  | settings ack params =>
    cases ack with
    | false => exact handleSettings_steady hpassed hbal hlevel hframe
    | true =>
      exact steadily_of (Quietly.bind quietly_idle fun _ => quietly_pure _) c
        (hother (fun h => by cases h) (fun h => by cases h) fun _ h => by cases h)
  | headers id endStream endHeaders block =>
    exact steadily_handleHeaders world id endStream endHeaders block c
      (hother (fun h => by cases h) (fun h => by cases h) fun _ h => by cases h)
  | ping ack payload =>
    refine steadily_of ?_ c (hother (fun h => by cases h) (fun h => by cases h) fun _ h => by cases h)
    cases ack with
    | false => exact Quietly.bind quietly_idle fun _ => Quietly.bind (quietly_queue rfl) fun _ => quietly_pure _
    | true => exact Quietly.bind quietly_idle fun _ => quietly_pure _
  | goAway last errorCode debugData =>
    refine steadily_of ?_ c (hother (fun h => by cases h) (fun h => by cases h) fun _ h => by cases h)
    exact Quietly.bind quietly_idle fun _ => Quietly.bind (quietly_modify fun _ => ⟨rfl, rfl⟩) fun _ => quietly_pure _
  | rstStream id errorCode =>
    exact steadily_of (quietly_handleReset id) c
      (hother (fun h => by cases h) (fun h => by cases h) fun _ h => by cases h)
  | priority id dependency exclusive weight =>
    exact steadily_of (Quietly.bind quietly_idle fun _ => quietly_pure _) c
      (hother (fun h => by cases h) (fun h => by cases h) fun _ h => by cases h)
  | pushPromise | continuation =>
    exact steadily_of (quietly_fail _) c (hother (fun h => by cases h) (fun h => by cases h) fun _ h => by cases h)

end Handle

end H2Connection

end Soyokaze

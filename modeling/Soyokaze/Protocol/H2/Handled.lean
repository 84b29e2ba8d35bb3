import Soyokaze.Protocol.H2.Turns

/-!
# What a move comes to

Where a frame is acted on, and where this end does something of its own accord.

* `handled_of_ok`: what handling a frame came to that succeeded, a case for each thing
  that can become of it;
* `waning_move`: of its own accord this end opens streams, and else it only spends windows
  and drops streams.
-/

namespace Soyokaze

open H2

/-- A frame that is counted, and comes to nothing else that is in view. -/
def H2.Frame.plain : Frame → Bool
  | settings true _ | ping .. | goAway .. | priority .. => true
  | _ => false

/-- A move that is neither for a frame nor for a new stream, nor a goodbye. -/
def H2.Move.own : Move → Bool
  | begin _ | handle .. | gathered .. | allocate _ | close => false
  | _ => true

namespace H2Connection

variable {α β : Type} {c c' c₁ : H2Connection} {id : ℕ} {world : World}

/-! ## What a frame comes to -/

/-- A frame that advanced nothing was counted, and is not one too many. -/
def Counted (c : H2Connection) (frames : ℕ) : Prop :=
  frames = saturating 32 (c.idleFrames + 1) ∧ frames ≤ c.limits.maxIdleFrames

/-- A frame was counted, or there was progress. -/
def Counts (progress : Bool) (c : H2Connection) (frames : ℕ) : Prop :=
  if progress then frames = 0 else c.Counted frames

/-- What a frame comes to that is acted on in one go, a case for each thing that can become of it. -/
inductive Handled (c : H2Connection) : Frame → Option Message → H2Connection → Prop
  | plain {frame : Frame} {c' : H2Connection} (frames : ℕ) (kind : frame.plain = true) (counted : c.Counted frames)
      (view : c'.view = { c.view with idleFrames := frames }) : Handled c frame none c'
  | settings {params : List (ℕ × ℕ)} {c' : H2Connection} (frames : ℕ) (settings : Settings) (counted : c.Counted frames)
      (applied : c.settingsRemote.applyAll params = (.ok (), settings))
      (view : c'.view = { c.view with
        idleFrames := frames
        settingsRemote := settings
        streams := StreamMap.mapValues c.streams fun stream => { stream with
          windowRemote := stream.windowRemote + (settings.initialWindowSize - c.settingsRemote.initialWindowSize) } }) :
      Handled c (.settings false params) none c'
  | connection {increment : ℕ} {c' : H2Connection} (frames : ℕ)
      (room : c.windowRemote + increment ≤ Settings.MAXIMUM_WINDOW_SIZE)
      (counts : Counts (c.windowRemote ≤ 0 && 0 < c.windowRemote + increment) c frames)
      (view : c'.view = { c.view with windowRemote := c.windowRemote + increment, idleFrames := frames }) :
      Handled c (.windowUpdate 0 increment) none c'
  | stray {id increment : ℕ} {c' : H2Connection} (frames : ℕ) (zero : id ≠ 0) (gone : c.streams.lookup id = none)
      (counted : c.Counted frames) (view : c'.view = { c.view with idleFrames := frames }) :
      Handled c (.windowUpdate id increment) none c'
  | overflow {id increment : ℕ} {c' : H2Connection} (stream : H2Stream) (zero : id ≠ 0)
      (held : c.streams.lookup id = some stream)
      (past : Settings.MAXIMUM_WINDOW_SIZE < stream.windowRemote + increment)
      (view : c'.view = { c.view with streams := c'.streams }) (gone : c'.streams.lookup id = none)
      (others : ∀ other, other ≠ id → c'.streams.lookup other = c.streams.lookup other) :
      Handled c (.windowUpdate id increment) none c'
  | credit {id increment : ℕ} {c' : H2Connection} (stream : H2Stream) (frames : ℕ) (zero : id ≠ 0)
      (held : c.streams.lookup id = some stream)
      (room : stream.windowRemote + increment ≤ Settings.MAXIMUM_WINDOW_SIZE)
      (counts : Counts (stream.windowRemote ≤ 0 && 0 < stream.windowRemote + increment) c frames)
      (view : c'.view = { c.view with
        idleFrames := frames
        streams := StreamMap.modify c.streams id fun stream =>
          { stream with windowRemote := stream.windowRemote + increment } }) :
      Handled c (.windowUpdate id increment) none c'
  | reset {id code : ℕ} {c' : H2Connection} (frames premature : ℕ) (counted : c.Counted frames)
      (view : c'.view = { c.view with
        idleFrames := frames, streams := c.streams.erase id, prematureResets := premature })
      (tallied : if ((c.streams.lookup id).map (·.state.sendable)).getD false then
          premature = saturating 32 (c.prematureResets + 1) ∧ premature ≤ c.limits.maxPrematureResets
        else premature = c.prematureResets) :
      Handled c (.rstStream id code) none c'
  | exceeded {id : ℕ} {endStream : Bool} {data : Octets} {c' : H2Connection} (stream : H2Stream) (frames : ℕ)
      (held : c.streams.lookup id = some stream) (past : stream.windowLocal < data.length)
      (counts : Counts (!(data.isEmpty && !endStream)) c frames)
      (view : c'.view = { c.view with idleFrames := frames, streams := c'.streams })
      (gone : c'.streams.lookup id = none)
      (others : ∀ other, other ≠ id → c'.streams.lookup other = c.streams.lookup other) :
      Handled c (.data id endStream data) none c'
  | data {id : ℕ} {endStream : Bool} {data : Octets} {m : Option Message} {c' : H2Connection} (stream : H2Stream)
      (frames : ℕ) (held : c.streams.lookup id = some stream) (receivable : stream.state.receivable = true)
      (counts : Counts (!(data.isEmpty && !endStream)) c frames)
      (comes : Comes id endStream { c with idleFrames := frames } c') : Handled c (.data id endStream data) m c'
  | headers {id : ℕ} {endStream : Bool} {block : Octets} {m : Option Message} {c' : H2Connection} (begun : H2Connection)
      (begins : (beginStream id).run c = (.ok (), begun)) (held : (begun.streams.lookup id).isSome = true)
      (comes : Comes id endStream { begun with idleFrames := 0 } c') : Handled c (.headers id endStream true block) m c'

theorem idle_counts (h : idle.run c = (.ok (), c')) : ∃ frames, c.Counted frames ∧ c' = { c with idleFrames := frames } := by
  obtain ⟨_, _, hmodify, h⟩ := Act.of_run_bind_ok h
  cases hmodify
  obtain ⟨_, _, hget, h⟩ := Act.of_run_bind_ok h
  cases hget
  split_ifs at h with hmany
  · cases h
  · cases h
    exact ⟨_, ⟨rfl, not_lt.1 hmany⟩, rfl⟩

theorem advanced_counts {progress : Bool} (h : (advanced progress).run c = (.ok (), c')) :
    ∃ frames, Counts progress c frames ∧ c' = { c with idleFrames := frames } := by
  rw [advanced] at h
  split_ifs at h with hprogress
  · cases h
    exact ⟨0, by rw [Counts, if_pos hprogress], rfl⟩
  · obtain ⟨frames, hcounted, rfl⟩ := idle_counts h
    exact ⟨frames, by rw [Counts, if_neg hprogress]; exact hcounted, rfl⟩

/-- What is left where a stream was begun, or was there already. -/
theorem beginStream_ok (h : (beginStream id).run c = (.ok (), c')) :
    c' = c ∧ (c.streams.lookup id).isSome = true ∨
      c.streams.lookup id = none ∧ id ≠ 0 ∧ (id % 2 = 1) = (!c.role.isClient) ∧ c.highestPeerStreamId < id ∧
        c'.view = { c.view with
          highestPeerStreamId := id
          streams := c.streams.insert id (.new c.settingsLocal.initialWindowSize c.settingsRemote.initialWindowSize) } := by
  rw [beginStream, Act.run_bind_ok (Act.run_get c)] at h
  split_ifs at h with howner hknown
  · have hsome : (c.streams.lookup id).isSome = true := by
      rw [Act.run_demand] at h
      by_contra hnone
      rw [if_neg hnone] at h
      cases h
    exact .inl ⟨demand_ok h, hsome⟩
  · cases h
    exact .inl ⟨rfl, hknown⟩
  · push Not at howner
    have hhigh : c.highestPeerStreamId < id := by
      by_contra hlow
      rw [Act.run_bind_refused (by simpa using hlow)] at h
      cases h
    rw [Act.run_bind_demand (by simpa using hhigh), Act.run_bind_ok (Act.run_modify _ c)] at h
    obtain ⟨_, _, hroom, h⟩ := Act.of_run_bind_ok h
    obtain rfl := demand_ok hroom
    cases h
    refine .inr ⟨Option.not_isSome_iff_eq_none.1 hknown, howner.1, howner.2, hhigh, ?_⟩
    rw [view, farewells_cons rfl]
    rfl

theorem handleSettings_ok {params : List (ℕ × ℕ)} {m : Option Message}
    (h : (handleSettings params).run c = (.ok m, c')) : Handled c (.settings false params) m c' := by
  obtain ⟨_, _, hidle, h⟩ := Act.of_run_bind_ok h
  obtain ⟨frames, hcounted, rfl⟩ := idle_counts hidle
  obtain ⟨_, _, hget, h⟩ := Act.of_run_bind_ok h
  cases hget
  obtain ⟨_, c₁, happly, h⟩ := Act.of_run_bind_ok h
  rcases hall : c.settingsRemote.applyAll params with ⟨result, settings⟩
  have hresult : result = .ok () := by
    have := congrArg Prod.fst happly
    simpa only [Act.run, applySettings, hall] using this
  have hleft : { c with idleFrames := frames, settingsRemote := settings } = c₁ := by
    have := congrArg Prod.snd happly
    simpa only [Act.run, applySettings, hall] using this
  subst hleft
  obtain ⟨_, _, hmodify, h⟩ := Act.of_run_bind_ok h
  cases hmodify
  obtain ⟨_, c₂, hqueue, h⟩ := Act.of_run_bind_ok h
  have hstill := (unmoving_queue rfl).leads _ _ _ hqueue
  cases h
  exact .settings frames settings hcounted (hresult ▸ hall) (Eq.trans hstill rfl)

theorem creditConnection_ok {increment : ℕ} {m : Option Message}
    (h : (creditConnection increment).run c = (.ok m, c')) : Handled c (.windowUpdate 0 increment) m c' := by
  rw [creditConnection, Act.run_bind_ok (Act.run_get c), Act.run_bind_ok (Act.run_modify _ c)] at h
  obtain ⟨_, _, hroom, h⟩ := Act.of_run_bind_ok h
  have hle : c.windowRemote + increment ≤ Settings.MAXIMUM_WINDOW_SIZE := by
    rw [Act.run_demand] at hroom
    by_contra hover
    rw [if_neg (by simpa using hover)] at hroom
    cases hroom
  obtain rfl := demand_ok hroom
  obtain ⟨_, _, hadvanced, h⟩ := Act.of_run_bind_ok h
  obtain ⟨frames, hcounts, rfl⟩ := advanced_counts hadvanced
  cases h
  exact .connection frames hle hcounts rfl

/-- Credit for a stream that is gone is counted, credit that overflows its window costs the stream its life
    and is not. -/
theorem creditStream_ok {increment : ℕ} {m : Option Message} (hid : id ≠ 0)
    (h : (creditStream id increment).run c = (.ok m, c')) : Handled c (.windowUpdate id increment) m c' := by
  rw [creditStream, Act.run_bind_ok (Act.run_get c)] at h
  rcases hstream : c.streams.lookup id with _ | stream
  · rw [hstream] at h
    obtain ⟨_, _, hidle, h⟩ := Act.of_run_bind_ok h
    obtain ⟨frames, hcounted, rfl⟩ := idle_counts hidle
    cases h
    exact .stray frames hid hstream hcounted rfl
  · rw [hstream] at h
    dsimp only at h
    rw [Act.run_bind_ok (show (modifyStream id _).run c = _ from rfl)] at h
    split_ifs at h with hover
    · obtain ⟨_, c₁, hreset, h⟩ := Act.of_run_bind_ok h
      obtain ⟨_, _, herase, hwrite⟩ := Act.of_run_bind_ok hreset
      cases herase
      have hstill := (unmoving_write rfl).leads _ _ _ hwrite
      cases h
      have hstreams : c'.streams = (StreamMap.modify c.streams id _).erase id := congrArg View.streams hstill
      refine .overflow stream hid hstream hover ?_ (by rw [hstreams]; exact AList.lookup_erase _ _) fun other hne => ?_
      · rw [hstreams]
        exact hstill
      · rw [hstreams, AList.lookup_erase_ne hne, StreamMap.lookup_modify, if_neg hne]
    · obtain ⟨_, _, hadvanced, h⟩ := Act.of_run_bind_ok h
      obtain ⟨frames, hcounts, rfl⟩ := advanced_counts hadvanced
      cases h
      exact .credit stream frames hid hstream (not_lt.1 hover) hcounts rfl

/-- A stream the peer abandoned is dropped, and counted if this end had still to send on it. -/
theorem handleReset_ok {m : Option Message} (code : ℕ) (h : (handleReset id).run c = (.ok m, c')) :
    Handled c (.rstStream id code) m c' := by
  obtain ⟨_, _, hidle, h⟩ := Act.of_run_bind_ok h
  obtain ⟨frames, hcounted, rfl⟩ := idle_counts hidle
  rw [Act.run_bind_ok (Act.run_get _), Act.run_bind_ok (Act.run_modify _ _)] at h
  dsimp only at h
  rcases hstream : c.streams.lookup id with _ | stream
  · rw [hstream] at h
    cases h
    exact .reset frames c.prematureResets hcounted rfl (by rw [hstream]; rfl)
  · rw [hstream] at h
    dsimp only at h
    split_ifs at h with hsendable
    · rw [countPremature, Act.run_bind_ok (Act.run_modify _ _), Act.run_bind_ok (Act.run_get _)] at h
      split_ifs at h with hmany
      · cases h
      · cases h
        refine .reset frames _ hcounted rfl ?_
        rw [hstream, Option.map_some, Option.getD_some, if_pos hsendable]
        exact ⟨rfl, not_lt.1 hmany⟩
    · cases h
      refine .reset frames c.prematureResets hcounted rfl ?_
      rw [hstream, Option.map_some, Option.getD_some, if_neg hsendable]

/-- DATA the peer had no credit for costs its stream its life. -/
theorem handleData_ok {endStream : Bool} {data : Octets} {m : Option Message}
    (h : (handleData id endStream data).run c = (.ok m, c')) : Handled c (.data id endStream data) m c' := by
  obtain ⟨_, c₀, hdemand, h⟩ := Act.of_run_bind_ok h
  obtain ⟨hsame, stream, hstream, hreceivable⟩ := demandReceivable_ok hdemand
  rw [hsame] at h
  obtain ⟨_, _, hadvanced, h⟩ := Act.of_run_bind_ok h
  obtain ⟨frames, hcounts, rfl⟩ := advanced_counts hadvanced
  obtain ⟨_, c₁, hspend, h⟩ := Act.of_run_bind_ok h
  have hstill := (unmoving_spendConnection _).leads _ _ _ hspend
  have hstreams : c₁.streams = c.streams := congrArg View.streams hstill
  rw [Act.run_bind_ok (show (modifyStream id _).run c₁ = _ from rfl)] at h
  obtain ⟨stream₁, c₂, hopen, h⟩ := Act.of_run_bind_ok h
  obtain ⟨rfl, hstream₁⟩ := openStream_ok hopen
  have htends := (hstill.tends id).trans (tends_modify (f := fun stream => { stream with
    windowLocal := stream.windowLocal - data.length }) (fun _ => ⟨rfl, .inl rfl⟩) c₁)
  have hlookup : (StreamMap.modify c₁.streams id fun stream => { stream with
      windowLocal := stream.windowLocal - data.length }).lookup id =
        some { stream with windowLocal := stream.windowLocal - data.length } := by
    rw [StreamMap.lookup_modify, if_pos rfl, hstreams, hstream]
    rfl
  obtain rfl := Option.some.inj (hstream₁.symm.trans hlookup)
  by_cases hover : stream.windowLocal < data.length
  · -- More than the peer had credit for.
    rw [if_pos (show stream.windowLocal - data.length < 0 by omega)] at h
    obtain ⟨_, _, hnote, h⟩ := Act.of_run_bind_ok h
    cases hnote
    obtain ⟨_, c₃, hreset, h⟩ := Act.of_run_bind_ok h
    obtain ⟨_, _, herase, hwrite⟩ := Act.of_run_bind_ok hreset
    cases herase
    have hwritten := (unmoving_write rfl).leads _ _ _ hwrite
    cases h
    have hleft : c'.streams = (StreamMap.modify c₁.streams id _).erase id := congrArg View.streams hwritten
    refine .exceeded stream frames hstream hover hcounts ?_ (by rw [hleft]; exact AList.lookup_erase _ _) ?_
    · refine Eq.trans hwritten ?_
      rw [hleft, view, farewells_cons rfl]
      exact congrArg (fun v : View => ({ v with streams := (StreamMap.modify c₁.streams id _).erase id } : View)) hstill
    · intro other hne
      rw [hleft, AList.lookup_erase_ne hne]
      exact htends.others other hne
  · rw [if_neg (show ¬(stream.windowLocal - data.length < 0) by omega)] at h
    exact .data stream frames hstream hreceivable hcounts
      (htends.thenComes ((coming_absorbData id endStream data).leads _ _ _ h))

theorem finishHeaders_ok {block : Octets} {endStream : Bool} {m : Option Message}
    (h : (finishHeaders world id block endStream).run c = (.ok m, c')) :
    (c.streams.lookup id).isSome = true ∧ Comes id endStream { c with idleFrames := 0 } c' := by
  have hcomes := finishHeaders_comes world id block endStream c
  rw [h] at hcomes
  refine ⟨?_, hcomes⟩
  obtain ⟨_, _, hmodify, h⟩ := Act.of_run_bind_ok h
  cases hmodify
  obtain ⟨stream, _, hopen, -⟩ := Act.of_run_bind_ok h
  rw [(openStream_ok hopen).2]
  rfl

theorem handleHeaders_ok {endStream : Bool} {block : Octets} {m : Option Message}
    (h : (handleHeaders world id endStream true block).run c = (.ok m, c')) :
    Handled c (.headers id endStream true block) m c' := by
  obtain ⟨_, c₁, hbegin, h⟩ := Act.of_run_bind_ok h
  obtain ⟨hheld, hcomes⟩ := finishHeaders_ok h
  exact .headers c₁ hbegin hheld hcomes

theorem finishGathered_ok {endStream : Bool} {m : Option Message}
    (h : (finishGathered world id endStream).run c = (.ok m, c')) :
    (c.streams.lookup id).isSome = true ∧ Comes id endStream { c with idleFrames := 0 } c' := by
  obtain ⟨stream, c₁, hopen, h⟩ := Act.of_run_bind_ok h
  obtain ⟨hsame, hstream⟩ := openStream_ok hopen
  rw [hsame] at h
  obtain ⟨_, c₂, hmodify, h⟩ := Act.of_run_bind_ok h
  have htends : Tends id { c with idleFrames := 0 } { c₂ with idleFrames := 0 } := by
    cases hmodify
    exact tends_modify (f := fun stream => { stream with block := [] }) (fun _ => ⟨rfl, .inl rfl⟩) _
  exact ⟨by rw [hstream]; rfl, htends.thenComes (finishHeaders_ok h).2⟩

theorem handle_plain_ok {frame : Frame} (hplain : frame.plain = true) {rest : Step Unit} (hrest : Unmoving rest)
    {m : Option Message} (h : (do idle; rest; return none : Step (Option Message)).run c = (.ok m, c')) :
    Handled c frame m c' := by
  obtain ⟨_, _, hidle, h⟩ := Act.of_run_bind_ok h
  obtain ⟨frames, hcounted, rfl⟩ := idle_counts hidle
  obtain ⟨_, c₁, hrun, h⟩ := Act.of_run_bind_ok h
  cases h
  exact .plain frames hplain hcounted (hrest.leads _ _ _ hrun)

/-- What handling a frame came to that succeeded. -/
theorem handled_of_ok {frame : Frame} (hwhole : frame.gathers = false) {m : Option Message}
    (h : (handle world frame).run c = (.ok m, c')) : Handled c frame m c' := by
  cases frame with
  | data id endStream data => exact handleData_ok h
  | headers id endStream endHeaders block =>
    cases endHeaders with
    | true => exact handleHeaders_ok h
    | false => cases hwhole
  | priority => exact handle_plain_ok rfl (unmoving_pure ()) h
  | rstStream id code => exact handleReset_ok code h
  | settings ack params =>
    cases ack with
    | true => exact handle_plain_ok rfl (unmoving_pure ()) h
    | false => exact handleSettings_ok h
  | pushPromise => cases h
  | ping ack payload =>
    cases ack with
    | true => exact handle_plain_ok rfl (unmoving_pure ()) h
    | false => exact handle_plain_ok rfl (unmoving_queue rfl) h
  | goAway last code debug => exact handle_plain_ok rfl (unmoving_modify (f := fun c => { c with goaway := some code }) fun _ => rfl) h
  | windowUpdate id increment =>
    rw [handle] at h
    split_ifs at h with hid
    · subst hid
      exact creditConnection_ok h
    · exact creditStream_ok hid h
  | continuation => cases h

/-! ## What this end does of its own accord -/

/-- No stream comes and no window grows, and nothing else in view changes. -/
structure Wanes (c c' : H2Connection) : Prop where
  view : c'.view = { c.view with streams := c'.streams, windowRemote := c'.windowRemote }
  window : c'.windowRemote ≤ c.windowRemote
  held : ∀ id stream', c'.streams.lookup id = some stream' → ∃ stream, c.streams.lookup id = some stream ∧
    stream'.windowRemote ≤ stream.windowRemote

theorem Wanes.trans {a b c : H2Connection} (h : Wanes a b) (h' : Wanes b c) : Wanes a c where
  view := by rw [h'.view, h.view]
  window := h'.window.trans h.window
  held id stream'' hstream'' := by
    obtain ⟨stream', hstream', hle'⟩ := h'.held id stream'' hstream''
    obtain ⟨stream, hstream, hle⟩ := h.held id stream' hstream'
    exact ⟨stream, hstream, hle'.trans hle⟩

theorem Unmoved.wanes (h : Unmoved c c') : Wanes c c' := by
  have hstreams : c'.streams = c.streams := congrArg View.streams h
  have hwindow : c'.windowRemote = c.windowRemote := congrArg View.windowRemote h
  refine ⟨Eq.trans h ?_, hwindow.le, fun id stream' hstream' => ⟨stream', hstreams ▸ hstream', le_rfl⟩⟩
  rw [hstreams, hwindow]
  rfl

/-- A step after which there is less, however it ends. -/
abbrev Waning (m : Step α) : Prop := Act.Keeps Wanes m

theorem Unmoving.waning {m : Step α} (h : Unmoving m) : Waning m := h.mono Unmoved.wanes

theorem Waning.bind {m : Step α} {f : α → Step β} (hm : Waning m) (hf : ∀ a, Waning (f a)) : Waning (m >>= f) :=
  @Act.Keeps.bind _ _ _ _ Wanes Wanes.trans m f hm hf

theorem waning_modifyStream {f : H2Stream → H2Stream} (hf : ∀ stream, (f stream).windowRemote ≤ stream.windowRemote) :
    Waning (modifyStream id f) := by
  refine fun c => ⟨rfl, le_rfl, fun other stream' hstream' => ?_⟩
  rw [modifyStream, Act.run_modify, StreamMap.lookup_modify] at hstream'
  split_ifs at hstream'
  · obtain ⟨stream, hstream, rfl⟩ := Option.map_eq_some_iff.1 hstream'
    exact ⟨stream, hstream, hf stream⟩
  · exact ⟨stream', hstream', le_rfl⟩

theorem waning_erase (id : ℕ) : Waning (Act.modify fun c => { c with streams := c.streams.erase id } : Step Unit) := by
  refine fun c => ⟨rfl, le_rfl, fun other stream' hstream' => ?_⟩
  rw [Act.run_modify] at hstream'
  by_cases hid : other = id
  · subst hid
    cases (AList.lookup_erase _ _).symm.trans hstream'
  · rw [AList.lookup_erase_ne hid] at hstream'
    exact ⟨stream', hstream', le_rfl⟩

theorem waning_retire (id : ℕ) : Waning (retire id) := by
  intro c
  simp only [retire, Act.run_modify]
  split
  · split_ifs
    · exact waning_erase id c
    · exact (Unmoved.refl c).wanes
  · exact (Unmoved.refl c).wanes

theorem waning_flushResets : Waning flushResets := by
  have hall : ∀ pending, Waning (resetAll pending) := by
    intro pending
    induction pending with
    | nil => exact (unmoving_pure _).waning
    | cons entry pending ih =>
      exact (unmoving_queue rfl).waning.bind fun _ => (waning_erase _).bind fun _ => ih
  refine unmoving_get.waning.bind fun c => ?_
  split_ifs
  · exact Waning.bind (Unmoving.waning fun _ => rfl) fun _ => hall _
  · exact (unmoving_pure _).waning

theorem waning_reset (id code : ℕ) : Waning (reset id code) :=
  (waning_erase id).bind fun _ => (unmoving_write rfl).waning

theorem waning_writeChunk (id : ℕ) (chunk : Octets) (last : Bool) : Waning (writeChunk id chunk last) := by
  refine (unmoving_queue rfl).waning.bind fun _ => unmoving_flushAtHighWater.waning.bind fun _ c => ?_
  refine ⟨rfl, ?_, fun other stream' hstream' => ?_⟩
  · rw [Act.run_modify]
    exact Int.sub_le_self _ (Int.natCast_nonneg _)
  · exact (waning_modifyStream (fun stream => Int.sub_le_self _ (Int.natCast_nonneg _)) c).held other stream' hstream'

theorem waning_finishSending (id : ℕ) (m : Message) (open' : Bool) : Waning (finishSending id m open') :=
  Waning.bind (waning_modifyStream fun stream => le_refl stream.windowRemote) fun _ => waning_retire id

theorem waning_mark (id code : ℕ) : Waning (mark id code) := by
  intro c
  simp only [mark, Act.run_modify]
  split_ifs
  · exact ⟨rfl, le_rfl, (waning_modifyStream (f := fun stream =>
      { stream with state := .closed, pendingReset := some code }) (fun _ => le_rfl) c).held⟩
  · exact (Unmoved.refl c).wanes

/-- Of its own accord this end opens streams, and else there only is less after its moves. -/
theorem waning_move {move : Move} (hown : move.own = true) : Waning (moves.step move) := by
  cases move with
  | start => exact unmoving_start.waning.map _
  | flushResets => exact waning_flushResets.map _
  | flush => exact unmoving_flushOut.waning.map _
  | read => exact unmoving_readFrameKept.waning.map _
  | fill id block =>
    refine Act.Keeps.map (waning_modifyStream fun stream => ?_) _
    exact le_rfl
  | gather id last block =>
    refine Act.Keeps.map (waning_modifyStream fun stream => ?_) _
    exact le_rfl
  | record frame => exact Act.Keeps.map (Unmoving.waning (unmoving_get.bind fun _ => unmoving_note rfl)) _
  | fall => exact (unmoving_note rfl).waning.map _
  | keep m => exact (unmoving_modify (f := fun c => { c with ready := c.ready ++ [m] }) fun _ => rfl).waning.map _
  | takeReady => exact (unmoving_modify (f := fun c => { c with ready := c.ready.tail }) fun _ => rfl).waning.map _
  | fields id fields endStream => exact (unmoving_writeSection _ _ _).waning.map _
  | chunk id chunk last => exact (waning_writeChunk _ _ _).map _
  | finish id m open' => exact (waning_finishSending _ _ _).map _
  | reset id code => exact (waning_reset _ _).map _
  | mark id code => exact (waning_mark _ _).map _
  | drain id =>
    refine Act.Keeps.map (unmoving_get.waning.bind fun c => Waning.bind (waning_modifyStream fun stream => ?_) fun _ =>
      (unmoving_pure _).waning) _
    exact le_rfl
  | begin => cases hown
  | handle => cases hown
  | gathered => cases hown
  | allocate => cases hown
  | close => cases hown

/-- A stream is dropped, and that is all there is to it. -/
theorem wanes_of_gone (hview : c'.view = { c.view with streams := c'.streams }) (hgone : c'.streams.lookup id = none)
    (hothers : ∀ other, other ≠ id → c'.streams.lookup other = c.streams.lookup other) : Wanes c c' := by
  have hwindow : c'.windowRemote = c.windowRemote := congrArg View.windowRemote hview
  refine ⟨by rw [hview, hwindow]; rfl, hwindow.le, fun other stream' hstream' => ⟨stream', ?_, le_rfl⟩⟩
  by_cases hother : other = id
  · rw [hother, hgone] at hstream'
    cases hstream'
  · rw [← hothers other hother, hstream']

/-- A stream that this end abandons is dropped, and its peer told so. -/
theorem reset_leaves (id code : ℕ) (c : H2Connection) : ((reset id code).run c).2.streams = c.streams.erase id ∧
    .sent (.rstStream id code) ∈ ((reset id code).run c).2.passed := by
  have hflush : ∀ c : H2Connection, (flushOut.run c).2.streams = c.streams ∧ ∀ e ∈ c.passed, e ∈ (flushOut.run c).2.passed := by
    intro c
    simp only [flushOut, Act.run]
    split_ifs
    · exact ⟨rfl, fun e he => he⟩
    · split
      · exact ⟨rfl, fun e he => he⟩
      · exact ⟨rfl, fun e he => List.mem_cons_of_mem _ he⟩
  obtain ⟨hstreams, hpassed⟩ := hflush { c with
    streams := c.streams.erase id
    out := c.out ++ (Frame.rstStream id code).encode
    passed := .sent (.rstStream id code) :: c.passed }
  exact ⟨hstreams, hpassed _ List.mem_cons_self⟩

/-! ## What a turn comes to -/

/-- The stream a message goes on, or a new one. -/
theorem allocate_run (m : Message) (c : H2Connection) : ((allocate m).run c).2 = c ∨ ((allocate m).run c).2.view =
    { c.view with
      nextStreamId := c.nextStreamId + 2
      streams := c.streams.insert c.nextStreamId
        (.new c.settingsLocal.initialWindowSize c.settingsRemote.initialWindowSize) } := by
  rw [allocate, Act.run_bind_ok (Act.run_get c)]
  rcases m.streamId with _ | id
  · by_cases hroom : c.streams.entries.length < c.localStreamCeiling
    · right
      rw [Act.run_bind_demand (by simpa using hroom)]
      exact (unmoved_note rfl _).trans rfl
    · left
      rw [Act.run_bind_refused (by simpa using hroom)]
  · left
    by_cases hopen : (c.streams.lookup id).isSome = true
    · exact congrArg Prod.snd (Act.run_bind_demand hopen _ _ c)
    · exact congrArg Prod.snd (Act.run_bind_refused (Bool.eq_false_iff.2 hopen) _ _ c)

/-- The goodbye names the last stream of this end's own. -/
theorem close_run (c : H2Connection) : (close.run c).1 = .ok () ∧
    (close.run c).2.view = { c.view with farewells := (c.nextStreamId - 2) :: farewells c.passed } := by
  refine ⟨rfl, Eq.trans (unmoving_flushOut _) ?_⟩
  rfl

/-- What a move comes to that the connection goes on from, a case for each kind of move. -/
inductive Yielded (c : H2Connection) : Move → Except Error Answer → H2Connection → Prop
  | waned {move : Move} {outcome : Except Error Answer} {c' : H2Connection}
      (quiet : move.own = true ∨ ∃ m, move = .allocate m) (wanes : Wanes c c') : Yielded c move outcome c'
  | begun {id : ℕ} {outcome : Except Error Answer} {c' : H2Connection} (begins : (beginStream id).run c = (.ok (), c')) :
      Yielded c (.begin id) outcome c'
  | handled {world : World} {frame : Frame} {c' : H2Connection} (m : Option Message) (handled : Handled c frame m c') :
      Yielded c (.handle world frame) (.ok (.message m)) c'
  | gathered {world : World} {id : ℕ} {endStream : Bool} {c' : H2Connection} (m : Option Message)
      (held : (c.streams.lookup id).isSome = true) (comes : Comes id endStream { c with idleFrames := 0 } c') :
      Yielded c (.gathered world id endStream) (.ok (.message m)) c'
  | opened {m : Message} {outcome : Except Error Answer} {c' : H2Connection} (view : c'.view = { c.view with
      nextStreamId := c.nextStreamId + 2
      streams := c.streams.insert c.nextStreamId
        (.new c.settingsLocal.initialWindowSize c.settingsRemote.initialWindowSize) }) :
      Yielded c (.allocate m) outcome c'
  | closed {outcome : Except Error Answer} {c' : H2Connection}
      (view : c'.view = { c.view with farewells := (c.nextStreamId - 2) :: farewells c.passed }) :
      Yielded c .close outcome c'

theorem yielded {t : Turn H2Connection Error Answer Move} (htook : (moves.step t.move).run t.before = (t.outcome, t.after))
    (hgoes : ¬moves.ends t) : Yielded t.before t.move t.outcome t.after := by
  obtain ⟨move, c, outcome, c'⟩ := t
  have hok : (∀ m, move ≠ .allocate m) → ∃ answer, outcome = .ok answer := by
    intro hother
    cases outcome with
    | ok answer => exact ⟨answer, rfl⟩
    | error error => exact absurd (.inr ⟨⟨error, rfl⟩, hother⟩) hgoes
  by_cases hown : move.own = true
  · have hwanes := waning_move hown c
    rw [htook] at hwanes
    exact .waned (.inl hown) hwanes
  cases move with
  | begin id =>
    obtain ⟨answer, rfl⟩ := hok fun _ h => by cases h
    obtain ⟨_, hbegins, -⟩ := Act.of_run_map_ok htook
    exact .begun hbegins
  | handle world frame =>
    obtain ⟨answer, rfl⟩ := hok fun _ h => by cases h
    rw [show moves.step (.handle world frame) = if frame.gathers then _ else _ from rfl] at htook
    split_ifs at htook with hgathers
    · cases htook
    · obtain ⟨m, hrun, rfl⟩ := Act.of_run_map_ok htook
      exact .handled m (handled_of_ok (Bool.eq_false_iff.2 hgathers) hrun)
  | gathered world id endStream =>
    obtain ⟨answer, rfl⟩ := hok fun _ h => by cases h
    obtain ⟨m, hrun, rfl⟩ := Act.of_run_map_ok htook
    obtain ⟨hheld, hcomes⟩ := finishGathered_ok hrun
    exact .gathered m hheld hcomes
  | allocate m =>
    have hleft : ((allocate m).run c).2 = c' := by
      have := congrArg Prod.snd htook
      rwa [show moves.step (.allocate m) = silently (allocate m) from rfl, silently, Act.run_map] at this
    rcases allocate_run m c with hsame | hview
    · rw [hleft] at hsame
      exact .waned (.inr ⟨m, rfl⟩) (hsame ▸ (Unmoved.refl c).wanes)
    · exact .opened (hleft ▸ hview)
  | close =>
    have hleft : (close.run c).2 = c' := congrArg Prod.snd htook
    exact .closed (hleft ▸ (close_run c).2)
  | _ => exact absurd rfl hown

end H2Connection

end Soyokaze

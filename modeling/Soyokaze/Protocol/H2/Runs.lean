import Soyokaze.Protocol.H2.Flow

/-!
# Flow control over whole runs

What a connection does between two frames it reads: it sends messages and body octets,
and waits for credit by reading. Both ends' windows stay what the record tells, through
any run, and a body leaves in frames that carry it whole.

* `sound_after`: whatever is done with a connection, what flow control asks was observed,
  and the connection is sound until it fails;
* `writeDataLoop_carries`: the frames of one body carry its octets in order, and the last
  of them alone may end the stream.
-/

namespace Soyokaze

open H2

namespace H2

/-- The DATA frames a record tells were sent, the earliest first: the stream, whether the
    frame ended it, and its octets. -/
def dataSent (log : List Passed) : List (ℕ × Bool × Octets) :=
  log.reverse.filterMap fun
    | .sent (.data id last chunk) => some (id, last, chunk)
    | _ => none

theorem dataSent_append (entries log : List Passed) : dataSent (entries ++ log) = dataSent log ++ dataSent entries := by
  rw [dataSent, List.reverse_append, List.filterMap_append]
  rfl

theorem dataSent_silent {entries : List Passed} (h : ∀ e ∈ entries, e.silent = true) : dataSent entries = [] := by
  rw [dataSent, List.filterMap_eq_nil_iff]
  intro e he
  have hsilent := h e (List.mem_reverse.1 he)
  cases e with
  | sent frame => cases frame <;> first | rfl | exact absurd hsilent Bool.false_ne_true
  | _ => rfl

/-- Frames that carry these octets on a stream, of which the last alone may end it. -/
structure Carries (id : ℕ) (body : Octets) (endStream : Bool) (frames : List (ℕ × Bool × Octets)) : Prop where
  onStream : ∀ frame ∈ frames, frame.1 = id
  octets : (frames.map (·.2.2)).flatten = body
  ending : ∃ earlier : ℕ, frames.map (·.2.1) = List.replicate earlier false ++ [endStream]

theorem Carries.last {id : ℕ} {endStream : Bool} (body : Octets) : Carries id body endStream [(id, endStream, body)] where
  onStream := by simp
  octets := by simp
  ending := ⟨0, rfl⟩

theorem Carries.more {id : ℕ} {endStream : Bool} {rest : Octets} {frames : List (ℕ × Bool × Octets)}
    (h : Carries id rest endStream frames) (chunk : Octets) :
    Carries id (chunk ++ rest) endStream ((id, false, chunk) :: frames) where
  onStream := by
    intro frame hframe
    rcases List.mem_cons.1 hframe with rfl | hframe
    · rfl
    · exact h.onStream frame hframe
  octets := by rw [List.map_cons, List.flatten_cons, h.octets]
  ending := by
    obtain ⟨earlier, hearlier⟩ := h.ending
    exact ⟨earlier + 1, by rw [List.map_cons, hearlier]; rfl⟩

end H2

namespace H2Connection

variable {α β : Type}

/-! ## A step that reads -/

/-- What a step comes to that is begun in a sound connection: what flow control asks was
    observed, and the connection is sound, unless it failed. -/
structure Flows (outcome : Except Error α × H2Connection) : Prop where
  observed : Observed outcome.2.passed
  sound : ∀ a, outcome.1 = .ok a → Sound outcome.2
  failed : ∀ error, outcome.1 = .error error → outcome.2.Failed ∨ Sound outcome.2

/-- A step that keeps to flow control wherever it is begun. -/
def Flowing (m : Step α) : Prop := ∀ c, Sound c → Observed c.passed → Flows (m.run c)

theorem flowing_of {m : Step α} (h : Quietly m) : Flowing m := fun c hc hobs =>
  ⟨(h c).silent.observed hobs, fun _ _ => (h c).sound hc, fun _ _ => Or.inr ((h c).sound hc)⟩

theorem Flows.then {m : Step α} {f : α → Step β} {c : H2Connection} (hm : Flows (m.run c))
    (hf : ∀ a c₁, m.run c = (.ok a, c₁) → Flows ((f a).run c₁)) : Flows ((m >>= f).run c) := by
  rw [Act.run_bind]
  rcases hrun : m.run c with ⟨error | a, c₁⟩
  · rw [hrun] at hm
    exact ⟨hm.observed, fun _ h => (by cases h), fun error' _ => hm.failed error rfl⟩
  · exact hf a c₁ hrun

theorem Flows.bind {m : Step α} {f : α → Step β} {c : H2Connection} (hm : Flows (m.run c)) (hf : ∀ a, Flowing (f a)) :
    Flows ((m >>= f).run c) := by
  refine hm.then fun a c₁ hrun => ?_
  rw [hrun] at hm
  exact hf a c₁ (hm.sound a rfl) hm.observed

theorem Flowing.bind {m : Step α} {f : α → Step β} (hm : Flowing m) (hf : ∀ a, Flowing (f a)) : Flowing (m >>= f) :=
  fun c hc hobs => Flows.bind (hm c hc hobs) hf

theorem Flowing.map {m : Step α} (h : Flowing m) (f : α → β) : Flowing (f <$> m) :=
  Flowing.bind h fun a => flowing_of (quietly_pure (f a))

theorem fatal_ok {m : Step α} {c c' : H2Connection} {a : α} (h : m.run c = (.ok a, c')) :
    (fatal m).run c = (.ok a, c') := by
  simp only [fatal, Act.run] at h ⊢
  rw [h]

theorem fatal_error {m : Step α} {c c' : H2Connection} {error : Error} (h : m.run c = (.error error, c')) :
    (fatal m).run c = (.error error, { c' with passed := .failed :: c'.passed }) := by
  simp only [fatal, Act.run] at h ⊢
  rw [h]

theorem steadily_fatal {m : Step α} (h : Steadily m) : Steadily (fatal m) := by
  intro c hc
  have hm := h c hc
  rcases hrun : m.run c with ⟨error | a, c'⟩
  · rw [hrun] at hm
    rw [fatal_error hrun]
    exact ⟨hm.silent.trans (silent_cons rfl rfl rfl), fun _ h => by cases h⟩
  · rw [hrun] at hm
    rwa [fatal_ok hrun]

/-- A step that takes the connection down with it keeps to flow control, if it is steady
    until then. -/
theorem flowing_fatal {m : Step α} (h : Steadily m) : Flowing (fatal m) := by
  intro c hc hobs
  have hm := steadily_fatal h c hc
  refine ⟨hm.silent.observed hobs, hm.sound, fun error herror => Or.inl ?_⟩
  rcases hrun : m.run c with ⟨error' | a, c'⟩
  · rw [fatal_error hrun]
    exact List.mem_cons_self
  · rw [fatal_ok hrun] at herror
    cases herror

/-- Whatever frame is read, handling it is steady. -/
theorem handle_read_steady (world : World) {c c' : H2Connection} {frame : Frame}
    (h : readFrame.run c = (.ok frame, c')) (hc : Sound c) : Steady c' ((handle world frame).run c') := by
  obtain ⟨c₁, header, payload, hquiet, -, hassemble, hlength, rfl⟩ := readFrame_read h
  have hc₁ := hquiet.sound hc
  refine handle_steady (c := { c₁ with passed := .received header payload :: c₁.passed }) rfl ⟨hc₁.balanced.given, hc₁.balanced.held, hc₁.balanced.settings, hc₁.balanced.announced,
    hc₁.balanced.next, hc₁.balanced.stream⟩ ⟨hc₁.level.connection, hc₁.level.stream, hc₁.level.frameSize⟩ world
    hassemble ?_
  rw [hc₁.level.frameSize] at hlength
  exact hlength.trans (by decide)

/-- So is recording that it was. -/
theorem act_read_steady (world : World) {c c' : H2Connection} {frame : Frame}
    (h : readFrame.run c = (.ok frame, c')) (hc : Sound c) : Steady c' ((act world frame).run c') := by
  have hhandle := handle_read_steady world h hc
  refine Steady.bind hhandle.silent fun m c₂ hrun => ?_
  exact steadily_of (quietly_noteHandled frame m) c₂ (by simpa only [hrun] using hhandle.sound m (congrArg Prod.fst hrun))

/-- What a pump does before it counts as failed, if it fails. -/
theorem steadily_pumped (world : World) :
    Steadily (do start; flushResets; let frame ← readFrame; let m ← act world frame; flushIfDrained; return m) := by
  refine Steadily.bind (steadily_of quietly_start) fun _ => Steadily.bind (steadily_of quietly_flushResets) fun _ c hc => ?_
  refine Steady.bind (silently_readFrame c) fun frame c₁ hread => ?_
  have hhandle := act_read_steady world hread hc
  refine Steady.bind hhandle.silent fun m c₂ hrun => ?_
  exact steadily_of (Quietly.bind quietly_flushIfDrained fun _ => quietly_pure m) c₂
    (by simpa only [hrun] using hhandle.sound m (congrArg Prod.fst hrun))

theorem steadily_pump (world : World) : Steadily (pump world) := steadily_fatal (steadily_pumped world)

theorem steadily_relay (world : World) : Steadily (relay world) :=
  steadily_fatal <| Steadily.bind (steadily_of quietly_flushOut) fun _ c hc =>
    Steady.bind (silently_readFrame c) fun _ _ hread => act_read_steady world hread hc

theorem flowing_pump (world : World) : Flowing (pump world) := flowing_fatal (steadily_pumped world)

theorem flowing_relay (world : World) : Flowing (relay world) :=
  flowing_fatal <| Steadily.bind (steadily_of quietly_flushOut) fun _ c hc =>
    Steady.bind (silently_readFrame c) fun _ _ hread => act_read_steady world hread hc

/-! ## Receiving -/

theorem flowing_receiveLoop (world : World) (fuel : ℕ) : Flowing (receiveLoop world fuel) := by
  induction fuel with
  | zero => exact flowing_of (quietly_fail _)
  | succ fuel ih =>
    refine Flowing.bind (Flowing.bind (flowing_of quietly_get) fun c => ?_) fun m => ?_
    · split
      · exact flowing_of (Quietly.bind (quietly_modify fun _ => ⟨rfl, rfl⟩) fun _ => quietly_pure _)
      · exact flowing_pump world
    · cases m with
      | some m => exact flowing_of (Quietly.bind quietly_get fun _ => quietly_ofExcept _)
      | none =>
        refine Flowing.bind (flowing_of quietly_get) fun c => ?_
        split_ifs
        · exact flowing_of (quietly_fail _)
        · exact ih

theorem flowing_receiveMessage (world : World) : Flowing (receiveMessage world) :=
  Flowing.bind (flowing_of quietly_get) fun _ => flowing_receiveLoop world _

/-! ## Sending a body -/

theorem quietly_keepReady (m : Option Message) : Quietly (match m with
    | some m => Act.modify fun c => { c with ready := c.ready ++ [m] }
    | none => pure () : Step Unit) := by
  cases m with
  | none => exact quietly_pure ()
  | some m => exact quietly_modify fun _ => ⟨rfl, rfl⟩

theorem flowing_awaitCredit (world : World) : Flowing (awaitCredit world) :=
  Flowing.bind (flowing_pump world) fun m => flowing_of (quietly_keepReady m)

theorem steadily_awaitCredit (world : World) : Steadily (awaitCredit world) :=
  Steadily.bind (steadily_pump world) fun m => steadily_of (quietly_keepReady m)

/-- A flush that fails takes the connection down with it. -/
theorem flushOut_error {c c' : H2Connection} {error : Error} (h : flushOut.run c = (.error error, c')) : c'.Failed := by
  simp only [flushOut, Act.run] at h
  split_ifs at h
  · cases h
  · split at h
    · cases h
    · cases h
      exact List.mem_cons_self

theorem flushAtHighWater_error {c c' : H2Connection} {error : Error}
    (h : flushAtHighWater.run c = (.error error, c')) : c'.Failed := by
  rw [flushAtHighWater, Act.run_bind_ok (Act.run_get c)] at h
  split_ifs at h
  · exact flushOut_error h
  · cases h

theorem quietly_flushAtHighWater : Quietly flushAtHighWater := by
  refine Quietly.bind quietly_get fun c => ?_
  split_ifs
  · exact quietly_flushOut
  · exact quietly_pure _

theorem flushAtHighWater_ok {c c' : H2Connection} (h : flushAtHighWater.run c = (.ok (), c')) :
    ∃ sink out, c' = { c with sink := sink, out := out } := by
  rw [flushAtHighWater, Act.run_bind_ok (Act.run_get c)] at h
  split_ifs at h
  · simp only [flushOut, Act.run] at h
    split_ifs at h
    · cases h
      exact ⟨_, _, rfl⟩
    · split at h
      · cases h
        exact ⟨_, _, rfl⟩
      · cases h
  · cases h
    exact ⟨_, _, rfl⟩

theorem writeChunk_ok {c c' : H2Connection} {id : ℕ} {chunk : Octets} {last : Bool}
    (h : (writeChunk id chunk last).run c = (.ok (), c')) : ∃ sink out, c' = { c with
      sink := sink
      out := out
      passed := .sent (.data id last chunk) :: c.passed
      windowRemote := c.windowRemote - chunk.length
      streams := StreamMap.modify c.streams id fun stream =>
        { stream with windowRemote := stream.windowRemote - chunk.length } } := by
  obtain ⟨_, _, hqueue, h⟩ := Act.of_run_bind_ok h
  cases hqueue
  obtain ⟨_, _, hflush, h⟩ := Act.of_run_bind_ok h
  obtain ⟨sink, out, rfl⟩ := flushAtHighWater_ok hflush
  cases h
  exact ⟨sink, out, rfl⟩

theorem writeChunk_error {c c' : H2Connection} {id : ℕ} {chunk : Octets} {last : Bool} {error : Error}
    (h : (writeChunk id chunk last).run c = (.error error, c')) : c'.Failed ∧
      ∃ entries, c'.passed = entries ++ .sent (.data id last chunk) :: c.passed ∧ ∀ e ∈ entries, e.silent = true := by
  let c₁ : H2Connection := { c with
    out := c.out ++ (Frame.data id last chunk).encode, passed := .sent (.data id last chunk) :: c.passed }
  have hflush : flushAtHighWater.run c₁ = (.error error, c') := by
    rw [writeChunk, Act.run_bind_ok (show (queue _).run c = (.ok (), c₁) from rfl), Act.run_bind] at h
    rcases hrun : flushAtHighWater.run c₁ with ⟨error' | ⟨⟩, c₂⟩ <;> rw [hrun] at h <;> cases h
    rfl
  have hquiet := quietly_flushAtHighWater c₁
  rw [hflush] at hquiet
  exact ⟨flushAtHighWater_error hflush, hquiet.silent.passed⟩

/-- DATA that is within the windows is sent, and both are that much smaller. -/
theorem writeChunk_flows {c : H2Connection} (hc : Sound c) (hobs : Observed c.passed) {id : ℕ} {chunk : Octets}
    {last : Bool} (hallowed : (Passed.sent (.data id last chunk)).Allowed c.passed) :
    Flows ((writeChunk id chunk last).run c) := by
  rcases hrun : (writeChunk id chunk last).run c with ⟨error | ⟨⟩, c'⟩
  · obtain ⟨hfailed, entries, hentries, hsilent⟩ := writeChunk_error hrun
    refine ⟨?_, fun _ h => (by cases h), fun _ _ => Or.inl hfailed⟩
    rw [hentries]
    exact Observed.append ⟨hallowed, hobs⟩ hsilent
  · obtain ⟨sink, out, rfl⟩ := writeChunk_ok hrun
    have hbal := hc.balanced.sent id chunk last
    refine ⟨⟨hallowed, hobs⟩, fun _ _ => ⟨⟨hbal.given, hbal.held, hbal.settings, hbal.announced, hbal.next,
      hbal.stream⟩, hc.level.connection, fun other stream' hstream' => ?_, hc.level.frameSize⟩, fun _ h => by cases h⟩
    rw [StreamMap.lookup_modify] at hstream'
    split_ifs at hstream'
    · obtain ⟨stream, hstream, rfl⟩ := Option.map_eq_some_iff.1 hstream'
      exact hc.level.stream other stream hstream
    · exact hc.level.stream other stream' hstream'

/-- What goes into the next frame is within both windows and the frame size. -/
theorem allowed_chunk {c : H2Connection} (hc : Sound c) {id : ℕ} {stream : H2Stream}
    (hstream : c.streams.lookup id = some stream) {rest : Octets}
    (hcredit : ¬(min c.windowRemote stream.windowRemote ≤ 0 ∧ rest ≠ [])) (last : Bool) :
    (Passed.sent (.data id last (rest.take (c.chunkSize stream rest)))).Allowed c.passed := by
  obtain ⟨-, -, hheld⟩ := hc.balanced.stream id stream hstream
  rw [Passed.Allowed, ← hc.balanced.held, ← hheld, ← hc.balanced.settings]
  refine ⟨?_, (List.length_take_le _ _).trans (Nat.min_le_right _ _)⟩
  rcases eq_or_ne rest [] with rfl | hrest
  · exact Or.inl List.take_nil
  · right
    have hpositive : 0 < min c.windowRemote stream.windowRemote := by
      by_contra h
      exact hcredit ⟨not_lt.1 h, hrest⟩
    have hsize : c.chunkSize stream rest ≤ (min c.windowRemote stream.windowRemote).toNat :=
      (Nat.min_le_left _ _).trans (Nat.min_le_right _ _)
    have hlength : ((rest.take (c.chunkSize stream rest)).length : ℤ) ≤ min c.windowRemote stream.windowRemote := by
      rw [← Int.toNat_of_nonneg hpositive.le]
      exact_mod_cast (List.length_take_le _ _).trans hsize
    exact ⟨hlength.trans (min_le_left _ _), hlength.trans (min_le_right _ _)⟩

theorem flowing_writeDataLoop (world : World) (id : ℕ) (endStream : Bool) (fuel : ℕ) (rest : Octets) :
    Flowing (writeDataLoop world id endStream fuel rest) := by
  induction fuel generalizing rest with
  | zero => exact flowing_of (quietly_fail _)
  | succ fuel ih =>
    intro c hc hobs
    rw [writeDataLoop, Act.run_bind_ok (Act.run_get c)]
    rcases hstream : c.streams.lookup id with _ | stream
    · exact flowing_of (quietly_fail _) c hc hobs
    · dsimp only
      split_ifs with hcredit
      · exact Flowing.bind (flowing_awaitCredit world) (fun _ => ih rest) c hc hobs
      · exact Flows.bind (writeChunk_flows hc hobs (allowed_chunk hc hstream hcredit _)) fun _ =>
          flowing_of (quietly_pure _)
      · exact Flows.bind (writeChunk_flows hc hobs (allowed_chunk hc hstream hcredit _)) fun _ => ih _

theorem flowing_writeData (world : World) (id : ℕ) (data : Octets) (endStream : Bool) :
    Flowing (writeData world id data endStream) :=
  Flowing.bind (flowing_of quietly_get) fun _ => flowing_writeDataLoop world id endStream _ data

/-! ## Sending a message -/

theorem quietly_writeContinuations (id : ℕ) (pieces : List Octets) : Quietly (writeContinuations id pieces) := by
  induction pieces with
  | nil => exact quietly_pure _
  | cons piece pieces ih => exact Quietly.bind (quietly_queue rfl) fun _ => ih

theorem quietly_writeSection (id : ℕ) (fields : List HeaderField) (endStream : Bool) :
    Quietly (writeSection id fields endStream) :=
  Quietly.bind quietly_get fun _ => Quietly.bind (quietly_modify fun _ => ⟨rfl, rfl⟩) fun _ =>
    Quietly.bind quietly_get fun _ => Quietly.bind (quietly_queue rfl) fun _ => quietly_writeContinuations id _

/-- The stream a message opens is one the peer gave its initial window. -/
theorem flowing_allocate (m : Message) : Flowing (allocate m) := by
  intro c hc hobs
  rw [allocate, Act.run_bind_ok (Act.run_get c)]
  rcases m.streamId with _ | id
  · refine Flows.then (flowing_of (quietly_demand _ _) c hc hobs) fun _ c₁ hdemand => ?_
    obtain rfl := demand_ok hdemand
    have hopened := hc.opened hc.balanced.next.ne'
    refine ⟨⟨trivial, hobs⟩, fun _ _ => ⟨⟨hopened.balanced.given, hopened.balanced.held,
      hopened.balanced.settings, hopened.balanced.announced, Nat.lt_add_right 2 hopened.balanced.next,
      hopened.balanced.stream⟩, hopened.level.connection, hopened.level.stream, hopened.level.frameSize⟩, fun _ h => ?_⟩
    cases h
  · exact flowing_of (Quietly.bind (quietly_demand _ _) fun _ => quietly_pure _) c hc hobs

theorem silent_allocate {m : Message} {c c' : H2Connection} {id : ℕ} (h : (allocate m).run c = (.ok id, c')) :
    Silent c c' := by
  rw [allocate, Act.run_bind_ok (Act.run_get c)] at h
  rcases hid : m.streamId with _ | id' <;> rw [hid] at h
  · obtain ⟨_, c₁, hdemand, h⟩ := Act.of_run_bind_ok h
    obtain rfl := demand_ok hdemand
    cases h
    exact silent_cons rfl rfl rfl
  · exact ((Quietly.bind (quietly_demand _ _) fun _ => quietly_pure id').leads _ _ _ h).silent

theorem quietly_finishSending (id : ℕ) (m : Message) (open' : Bool) : Quietly (finishSending id m open') :=
  Quietly.bind (quietly_modifyStream fun _ => ⟨rfl, rfl⟩) fun _ => quietly_retire id

theorem quietly_writeTrailers (id : ℕ) (trailers : Option (List HeaderField)) : Quietly (writeTrailers id trailers) := by
  cases trailers with
  | none => exact quietly_pure _
  | some fields => exact quietly_writeSection id fields true

theorem flowing_writeBody (world : World) (id : ℕ) (body : Option Octets) (endStream : Bool) :
    Flowing (writeBody world id body endStream) := by
  cases body with
  | none => exact flowing_of (quietly_pure _)
  | some body => exact flowing_writeData world id body endStream

theorem flowing_sendOn (world : World) (id : ℕ) (m : Message) : Flowing (sendOn world id m) :=
  Flowing.bind (flowing_of quietly_get) fun _ => Flowing.bind (flowing_of (quietly_ofExcept _)) fun _ =>
    Flowing.bind (flowing_of (quietly_writeSection id _ _)) fun _ => Flowing.bind (flowing_writeBody world id _ _) fun _ =>
      flowing_of (Quietly.bind (quietly_writeTrailers id _) fun _ => Quietly.bind (quietly_finishSending id _ _) fun _ =>
        quietly_flushIfDrained)

theorem flowing_sendMessage (world : World) (m : Message) : Flowing (sendMessage world m) :=
  Flowing.bind (flowing_of quietly_get) fun _ => Flowing.bind (flowing_of quietly_start) fun _ =>
    Flowing.bind (flowing_of quietly_flushResets) fun _ => Flowing.bind (flowing_allocate _) fun id =>
      flowing_sendOn world id _

/-! ## Runs -/

theorem quietly_mark (id code : ℕ) : Quietly (mark id code) := by
  intro c
  rw [mark, Act.run_modify]
  dsimp only
  split_ifs
  · exact (quiet_modifyStream (f := fun stream => { stream with state := .closed, pendingReset := some code })
      (fun _ => ⟨rfl, rfl⟩) id c).trans (.of_core ⟨rfl, rfl⟩)
  · exact .refl c

theorem quietly_drain (id : ℕ) : Quietly (drain id) :=
  Quietly.bind quietly_get fun _ => Quietly.bind (quietly_modifyStream fun _ => ⟨rfl, rfl⟩) fun _ => quietly_pure _

theorem quietly_close : Quietly close := fun c =>
  show Quiet c ((write (.goAway (c.nextStreamId - 2) Code.NO_ERROR [])).run c).2 from quietly_write rfl c

/-- Whatever is done with a connection keeps to flow control. -/
theorem flowing_perform (world : World) (event : Event) : Flowing (perform world event) := by
  cases event with
  | receive => exact Flowing.map (flowing_receiveMessage world) _
  | send m => exact Flowing.map (flowing_sendMessage world m) _
  | pump => exact flowing_pump world
  | relay => exact flowing_relay world
  | writeData id data endStream => exact Flowing.map (flowing_writeData world id data endStream) _
  | reset id code => exact Flowing.map (flowing_of (quietly_reset id code)) _
  | mark id code => exact Flowing.map (flowing_of (quietly_mark id code)) _
  | drain id => exact flowing_of (Act.Keeps.map (quietly_drain id) _)
  | close => exact flowing_of (Act.Keeps.map quietly_close _)

/-- In every run, what flow control asks was observed, and the connection is sound until it
    fails. -/
theorem sound_after (events : List (World × Event)) {c : H2Connection} (hc : Sound c) (hobs : Observed c.passed) :
    Observed (after events c).passed ∧ ((after events c).Failed ∨ Sound (after events c)) := by
  induction events generalizing c with
  | nil => exact ⟨hobs, Or.inr hc⟩
  | cons event events ih =>
    obtain ⟨world, event⟩ := event
    rw [after]
    split_ifs with hfailed
    · exact ⟨hobs, Or.inl hfailed⟩
    · have hstep := flowing_perform world event c hc hobs
      rcases hrun : (perform world event).run c with ⟨error | a, c'⟩
      · rw [hrun] at hstep
        rcases hstep.failed error rfl with hfailed' | hsound
        · exact after_failed hfailed' hstep.observed
        · exact ih hsound hstep.observed
      · rw [hrun] at hstep
        exact ih (hstep.sound a rfl) hstep.observed
where
  after_failed {events : List (World × Event)} {c : H2Connection} (h : c.Failed) (hobs : Observed c.passed) :
      Observed (after events c).passed ∧ ((after events c).Failed ∨ Sound (after events c)) := by
    cases events with
    | nil => exact ⟨hobs, Or.inl h⟩
    | cons event events =>
      rw [after, if_pos h]
      exact ⟨hobs, Or.inl h⟩

/-! ## What a body goes out in -/

theorem steady_of_ok {m : Step α} (h : Steadily m) {c c' : H2Connection} {a : α} (hc : Sound c)
    (hrun : m.run c = (.ok a, c')) : Silent c c' ∧ Sound c' := by
  have hm := h c hc
  rw [hrun] at hm
  exact ⟨hm.silent, hm.sound a rfl⟩

theorem sound_of_ok {m : Step α} (h : Flowing m) {c c' : H2Connection} {a : α} (hc : Sound c)
    (hobs : Observed c.passed) (hrun : m.run c = (.ok a, c')) : Sound c' ∧ Observed c'.passed := by
  have hm := h c hc hobs
  rw [hrun] at hm
  exact ⟨hm.sound a rfl, hm.observed⟩

/-- What was sent between two states of one body: all of it and in order, in frames of which
    the last alone may end the stream. -/
def Carried (id : ℕ) (body : Octets) (endStream : Bool) (c c' : H2Connection) : Prop :=
  ∃ entries, c'.passed = entries ++ c.passed ∧ Carries id body endStream (dataSent entries)

theorem Carried.silent_left {id : ℕ} {body : Octets} {endStream : Bool} {a b c : H2Connection} (h : Silent a b)
    (hcarried : Carried id body endStream b c) : Carried id body endStream a c := by
  obtain ⟨entries, hentries, hsilent⟩ := h.passed
  obtain ⟨entries', hentries', hcarries⟩ := hcarried
  refine ⟨entries' ++ entries, by rw [hentries', hentries, List.append_assoc], ?_⟩
  rwa [dataSent_append, dataSent_silent hsilent, List.nil_append]

theorem Carried.silent_right {id : ℕ} {body : Octets} {endStream : Bool} {a b c : H2Connection}
    (hcarried : Carried id body endStream a b) (h : Silent b c) : Carried id body endStream a c := by
  obtain ⟨entries, hentries, hsilent⟩ := h.passed
  obtain ⟨entries', hentries', hcarries⟩ := hcarried
  refine ⟨entries ++ entries', by rw [hentries, hentries', List.append_assoc], ?_⟩
  rwa [dataSent_append, dataSent_silent hsilent, List.append_nil]

/-- The frames of one body carry its octets in order, and the last of them alone may end the
    stream, whatever arrives while they wait for credit. -/
theorem writeDataLoop_carries {world : World} {id : ℕ} {endStream : Bool} {fuel : ℕ} {rest : Octets}
    {c c' : H2Connection} (hc : Sound c) (hobs : Observed c.passed)
    (h : (writeDataLoop world id endStream fuel rest).run c = (.ok (), c')) : Carried id rest endStream c c' := by
  induction fuel generalizing rest c with
  | zero => cases h
  | succ fuel ih =>
    rw [writeDataLoop, Act.run_bind_ok (Act.run_get c)] at h
    rcases hstream : c.streams.lookup id with _ | stream <;> rw [hstream] at h
    · cases h
    dsimp only at h
    split_ifs at h with hcredit hlast
    · -- A frame is handled, which sends no DATA.
      obtain ⟨_, c₁, hawait, h⟩ := Act.of_run_bind_ok h
      obtain ⟨hc₁, hobs₁⟩ := sound_of_ok (flowing_awaitCredit world) hc hobs hawait
      exact (ih hc₁ hobs₁ h).silent_left (steady_of_ok (steadily_awaitCredit world) hc hawait).1
    · -- The last of it.
      obtain ⟨_, c₁, hchunk, h⟩ := Act.of_run_bind_ok h
      obtain ⟨sink, out, rfl⟩ := writeChunk_ok hchunk
      cases h
      refine ⟨[_], rfl, ?_⟩
      rw [List.isEmpty_iff, List.drop_eq_nil_iff] at hlast
      rw [List.take_of_length_le hlast, List.isEmpty_iff.2 (List.drop_eq_nil_of_le hlast), Bool.and_true]
      exact .last rest
    · obtain ⟨_, c₁, hchunk, h⟩ := Act.of_run_bind_ok h
      have hflows : Flows (Except.ok (), c₁) := hchunk ▸ writeChunk_flows hc hobs (allowed_chunk hc hstream hcredit _)
      obtain ⟨sink, out, rfl⟩ := writeChunk_ok hchunk
      obtain ⟨entries, hentries, hcarries⟩ := ih (hflows.sound () rfl) hflows.observed h
      refine ⟨entries ++ [_], by rw [hentries, List.append_assoc]; rfl, ?_⟩
      rw [dataSent_append, Bool.eq_false_iff.2 hlast, Bool.and_false]
      have hmore := hcarries.more (rest.take (c.chunkSize stream rest))
      rwa [List.take_append_drop] at hmore

/-- `writeDataLoop_carries`, of one call. -/
theorem writeData_carries {world : World} {id : ℕ} {data : Octets} {endStream : Bool} {c c' : H2Connection}
    (hc : Sound c) (hobs : Observed c.passed) (h : (writeData world id data endStream).run c = (.ok (), c')) :
    Carried id data endStream c c' := by
  obtain ⟨_, _, hget, h⟩ := Act.of_run_bind_ok h
  cases hget
  exact writeDataLoop_carries hc hobs h

/-- So they do where a message is sent, whose body is sent between its field sections. -/
theorem sendMessage_carries {world : World} {m : Message} {c c' : H2Connection} (hc : Sound c)
    (hobs : Observed c.passed) (h : (sendMessage world m).run c = (.ok (), c')) :
    ∃ id stream o, compose world stream (c.finalize world m) = .ok o ∧
      ∀ body, o.body = some body → Carried id body o.trailers.isNone c c' := by
  obtain ⟨_, _, hget, h⟩ := Act.of_run_bind_ok h
  cases hget
  obtain ⟨_, c₁, hstart, h⟩ := Act.of_run_bind_ok h
  obtain ⟨hc₁, hobs₁⟩ := sound_of_ok (flowing_of quietly_start) hc hobs hstart
  obtain ⟨_, c₂, hflush, h⟩ := Act.of_run_bind_ok h
  obtain ⟨hc₂, hobs₂⟩ := sound_of_ok (flowing_of quietly_flushResets) hc₁ hobs₁ hflush
  obtain ⟨id, c₃, hallocate, h⟩ := Act.of_run_bind_ok h
  obtain ⟨hc₃, hobs₃⟩ := sound_of_ok (flowing_allocate _) hc₂ hobs₂ hallocate
  obtain ⟨_, _, hget, h⟩ := Act.of_run_bind_ok h
  cases hget
  obtain ⟨o, c₄, hcompose, h⟩ := Act.of_run_bind_ok h
  obtain rfl : c₃ = c₄ := congrArg Prod.snd hcompose
  obtain ⟨_, c₅, hsection, h⟩ := Act.of_run_bind_ok h
  obtain ⟨hc₅, hobs₅⟩ := sound_of_ok (flowing_of (quietly_writeSection id _ _)) hc₃ hobs₃ hsection
  obtain ⟨_, c₆, hbody, h⟩ := Act.of_run_bind_ok h
  have hrest := (Quietly.bind (quietly_writeTrailers id o.trailers) fun _ =>
    Quietly.bind (quietly_finishSending id o.message o.open') fun _ => quietly_flushIfDrained).leads _ _ _ h
  refine ⟨id, c₃.streams.lookup id, o, congrArg Prod.fst hcompose, fun body hsome => ?_⟩
  rw [hsome] at hbody
  -- Nothing but the body is DATA.
  have hbefore : Silent c c₅ := (quietly_start.leads _ _ _ hstart).silent.trans <|
    (quietly_flushResets.leads _ _ _ hflush).silent.trans <| (silent_allocate hallocate).trans
      ((quietly_writeSection id _ _).leads _ _ _ hsection).silent
  exact ((writeData_carries hc₅ hobs₅ hbody).silent_left hbefore).silent_right hrest.silent

/-! ## Enough fuel -/

/-- A frame that was handled is no longer there to be read. -/
theorem pump_left {world : World} {c c' : H2Connection} {m : Option Message} (hc : Sound c)
    (h : (pump world).run c = (.ok m, c')) : c'.source.left < c.source.left := by
  rcases hpumped : Act.run (do
    start; flushResets; let frame ← readFrame; let m ← act world frame; flushIfDrained; return m) c
    with ⟨error | _, c₁⟩
  · rw [pump, fatal_error hpumped] at h
    cases h
  rw [pump, fatal_ok hpumped] at h
  cases h
  obtain ⟨_, c₂, hstart, h⟩ := Act.of_run_bind_ok hpumped
  obtain ⟨hsilent₂, hc₂⟩ := steady_of_ok (steadily_of quietly_start) hc hstart
  obtain ⟨_, c₃, hflush, h⟩ := Act.of_run_bind_ok h
  obtain ⟨hsilent₃, hc₃⟩ := steady_of_ok (steadily_of quietly_flushResets) hc₂ hflush
  obtain ⟨frame, c₄, hread, h⟩ := Act.of_run_bind_ok h
  have hhandle := act_read_steady world hread hc₃
  obtain ⟨c₅, _, _, -, hleft, -, -, rfl⟩ := readFrame_read hread
  obtain ⟨m', c₆, hhandled, h⟩ := Act.of_run_bind_ok h
  rw [hhandled] at hhandle
  have hrest := (Quietly.bind quietly_flushIfDrained fun _ => quietly_pure m').leads _ _ _ h
  calc c'.source.left ≤ c₆.source.left := hrest.left
    _ ≤ c₅.source.left := hhandle.silent.left
    _ < c₃.source.left := hleft
    _ ≤ c₂.source.left := hsilent₃.left
    _ ≤ c.source.left := hsilent₂.left

theorem lawful_inForce (log : List Passed) : (inForce log).Lawful := by
  induction log with
  | nil => exact Settings.lawful_peer
  | cons e log ih =>
    rw [inForce]
    split
    · exact ih.applyAll _
    · exact ih

/-- A frame that need not wait takes some of what is left, if anything is. -/
theorem chunkSize_pos {c : H2Connection} (hc : Sound c) {stream : H2Stream} {rest : Octets} (hrest : rest ≠ [])
    (hcredit : ¬(min c.windowRemote stream.windowRemote ≤ 0 ∧ rest ≠ [])) : 0 < c.chunkSize stream rest := by
  have hsize : Settings.DEFAULT_MAX_FRAME_SIZE ≤ c.settingsRemote.maxFrameSize := by
    rw [hc.balanced.settings]
    exact (lawful_inForce _).2.1
  have hwindow : 0 < min c.windowRemote stream.windowRemote := not_le.1 fun h => hcredit ⟨h, hrest⟩
  refine lt_min (lt_min (List.length_pos_of_ne_nil hrest) (Int.lt_toNat.2 hwindow)) ?_
  exact Nat.lt_of_lt_of_le (by decide) hsize

/-- More fuel than there are octets to send and to read sends no other frames: every round
    takes some of either. -/
theorem writeDataLoop_fuel {world : World} {id : ℕ} {endStream : Bool} {fuel : ℕ} {rest : Octets} {c : H2Connection}
    (hc : Sound c) (hobs : Observed c.passed) (h : rest.length + c.source.left < fuel) :
    (writeDataLoop world id endStream (fuel + 1) rest).run c = (writeDataLoop world id endStream fuel rest).run c := by
  induction fuel generalizing rest c with
  | zero => exact absurd h (Nat.not_lt_zero _)
  | succ fuel ih =>
    rw [writeDataLoop, writeDataLoop, Act.run_bind_ok (Act.run_get c), Act.run_bind_ok (Act.run_get c)]
    rcases hstream : c.streams.lookup id with _ | stream
    · rfl
    dsimp only
    split_ifs with hcredit hlast
    · rw [Act.run_bind, Act.run_bind]
      rcases hawait : (awaitCredit world).run c with ⟨error | ⟨⟩, c₁⟩
      · rfl
      obtain ⟨hc₁, hobs₁⟩ := sound_of_ok (flowing_awaitCredit world) hc hobs hawait
      refine ih hc₁ hobs₁ ?_
      obtain ⟨m, c₂, hpump, hkeep⟩ := Act.of_run_bind_ok hawait
      have hleft := pump_left hc hpump
      have hkept := ((quietly_keepReady m).leads _ _ _ hkeep).left
      omega
    · rfl
    · rw [Act.run_bind, Act.run_bind]
      rcases hchunk : (writeChunk id (rest.take (c.chunkSize stream rest)) _).run c with ⟨error | ⟨⟩, c₁⟩
      · rfl
      have hflows : Flows (Except.ok (), c₁) := hchunk ▸ writeChunk_flows hc hobs (allowed_chunk hc hstream hcredit _)
      obtain ⟨sink, out, rfl⟩ := writeChunk_ok hchunk
      refine ih (hflows.sound () rfl) hflows.observed ?_
      have hrest : rest ≠ [] := by
        rintro rfl
        exact hlast (by rw [List.drop_nil]; rfl)
      have hpos := chunkSize_pos hc hrest hcredit
      have hlength := List.length_pos_of_ne_nil hrest
      rw [List.length_drop]
      dsimp only
      omega

end H2Connection

end Soyokaze

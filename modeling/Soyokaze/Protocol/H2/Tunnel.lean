import Soyokaze.Protocol.H2.Retired

/-!
# A tunnel over one stream

A connection that was given over to a tunnel takes turns: the frame that arrives
next is handled, and what it brought is written to the application; or what the
application wrote is sent on the stream. Where that has to wait for credit, frames
are handled meanwhile, and what they bring is written to nobody until the next turn
that reads one.

* `drive_forwards`: as long as nothing arrives on the stream during such a wait,
  everything accepted was written whenever the next turn is waited for, and the peer
  has not ended the stream;
* `octets_held_back`: an octet that arrives during one is held back.
-/

namespace Soyokaze

open H2

/-- A connection given over to one of its streams, and what the application was written. Its
    `waited` is what passed while something of the application's was sent: the source keeps no
    such record. -/
structure H2Tunnel where
  connection : H2Connection
  written : Octets
  shut : Bool
  waited : List Passed

namespace H2Tunnel

/-- What a tunnel turns to next. -/
inductive Turn
  /-- The next frame. Of the octets it brings, the application takes all, or so many before it
      goes away. -/
  | frame (taken : Option ℕ)
  /-- What the application wrote, which is nothing where it shut its side down. -/
  | read (octets : Octets)

/-- A tunnel nothing went through. -/
def new (c : H2Connection) : H2Tunnel := ⟨c, [], false, []⟩

/-- A step of the connection. -/
def on {α : Type} (m : H2Connection.Step α) : Act H2Tunnel Error α := fun t =>
  ((m.run t.connection).1, { t with connection := (m.run t.connection).2 })

/-- What passed between one state of a connection and a later one. -/
def passedSince (c c' : H2Connection) : List Passed := c'.passed.take (c'.passed.length - c.passed.length)

/-- Sends octets on the stream, and records what passed meanwhile. -/
def writeData (world : World) (id : ℕ) (octets : Octets) (endStream : Bool) : Act H2Tunnel Error Unit := fun t =>
  let written := (H2Connection.writeData world id octets endStream).run t.connection
  (written.1, { t with
    connection := written.2
    waited := passedSince t.connection written.2 ++ t.waited })

/-- Writes octets to the application. -/
def writeAll (octets : Octets) : Option ℕ → Act H2Tunnel Error Unit
  | none => Act.modify fun t => { t with written := t.written ++ octets }
  | some count => do
    Act.modify fun t => { t with written := t.written ++ octets.take count }
    Act.fail .io

/-- Writes what is held of the stream's body to the application. -/
def forward (id : ℕ) (taken : Option ℕ) : Act H2Tunnel Error Unit := do
  match ← on (H2Connection.drain id) with
  | some data => writeAll data taken
  | none => pure ()

/-- Whether the peer may still send on the stream. -/
def receivable (t : H2Tunnel) (id : ℕ) : Bool :=
  ((t.connection.streams.lookup id).map (·.state.receivable)).getD false

/-- Takes one turn, and tells whether another is to follow. -/
def turn (world : World) (id : ℕ) : Turn → Act H2Tunnel Error Bool
  | .frame taken => do
    let _ ← on (H2Connection.relay world)
    forward id taken
    let t ← Act.get
    if t.receivable id then return true
    else do
      Act.modify fun t => { t with shut := true }
      return false
  | .read octets => do
    on H2Connection.flushOut
    writeData world id octets octets.isEmpty
    return !octets.isEmpty

/-- Takes one turn after another, and tells whether the next is waited for. -/
def driveLoop (id : ℕ) : List (World × Turn) → Act H2Tunnel Error Bool
  | [] => return true
  | (world, next) :: turns => do
    if ← turn world id next then driveLoop id turns else return false

/-- Relays octets between one stream and the application, until either end finishes. -/
def drive (id : ℕ) (turns : List (World × Turn)) : Act H2Tunnel Error Bool := do
  on H2Connection.start
  driveLoop id turns

end H2Tunnel

/-! ## What passes -/

namespace H2

/-- Whether a frame ends a stream. -/
def Frame.ends (id : ℕ) : Frame → Bool
  | .data other endStream _ => other = id && endStream
  | .headers other endStream .. => other = id && endStream
  | _ => false

/-- Whether a frame brings something on a stream that is to reach the application: octets, or the
    end of it. -/
def Frame.bears (id : ℕ) : Frame → Bool
  | .data other endStream octets => other = id && (endStream || !octets.isEmpty)
  | .headers other endStream .. => other = id && endStream
  | _ => false

namespace Passed

/-- The octets an entry says were taken up on a stream. -/
def brought (id : ℕ) : Passed → Octets
  | accepted other data => if other = id then data else []
  | _ => []

/-- Whether an entry says that the peer ended a stream. -/
def ends (id : ℕ) : Passed → Bool
  | handled frame _ => frame.ends id
  | _ => false

/-- Whether an entry says that a frame brought something on a stream. -/
def bears (id : ℕ) : Passed → Bool
  | handled frame _ => frame.bears id
  | _ => false

/-- Whether an entry says nothing of the sort. -/
def still (id : ℕ) (e : Passed) : Bool := (e.brought id).isEmpty && !e.ends id

@[simp] theorem brought_handled (id : ℕ) (frame : Frame) (ids : List ℕ) : (handled frame ids).brought id = [] := rfl

theorem still_of_plain {e : Passed} (h : e.plain = true) (id : ℕ) : e.still id = true := by
  cases e <;> first | rfl | exact absurd h Bool.false_ne_true

end Passed

theorem Frame.ends_of_bears {id : ℕ} {frame : Frame} (h : frame.bears id = false) : frame.ends id = false := by
  cases frame with
  | data other endStream octets =>
    simp only [bears, ends, Bool.and_eq_false_iff, Bool.or_eq_false_iff] at h ⊢
    exact h.imp_right And.left
  | headers => exact h
  | _ => rfl

/-- The octets taken up on a stream, by a record that has the latest first. -/
def brought (id : ℕ) (log : List Passed) : Octets := log.reverse.flatMap (Passed.brought id)

theorem brought_append (id : ℕ) (entries log : List Passed) :
    brought id (entries ++ log) = brought id log ++ brought id entries := by
  rw [brought, List.reverse_append, List.flatMap_append, brought, brought]

theorem brought_cons (id : ℕ) (e : Passed) (log : List Passed) : brought id (e :: log) = brought id log ++ e.brought id := by
  rw [brought, List.reverse_cons, List.flatMap_append, brought, List.flatMap_singleton]

theorem brought_still {id : ℕ} {entries : List Passed} (h : ∀ e ∈ entries, e.still id = true) : brought id entries = [] := by
  rw [brought, List.flatMap_eq_nil_iff]
  intro e he
  have hstill := h e (List.mem_reverse.1 he)
  rw [Passed.still, Bool.and_eq_true] at hstill
  exact List.isEmpty_iff.1 hstill.1

theorem ends_still {id : ℕ} {e : Passed} (h : e.still id = true) : e.ends id = false := by
  rw [Passed.still, Bool.and_eq_true] at h
  simpa using h.2

end H2

namespace H2Connection

/-! ## Frames that bring nothing -/

/-- Since the record was `log`, nothing arrived on a stream that is to reach the application, its
    body is empty, and, where that is asked for, the peer may still send on it. -/
structure Still (id : ℕ) (receivable : Bool) (log : List Passed) (c : H2Connection) : Prop where
  passed : ∃ entries, c.passed = entries ++ log ∧ ∀ e ∈ entries, e.still id = true
  stream : ∀ stream, c.streams.lookup id = some stream →
    stream.body = [] ∧ (receivable = true → stream.state.receivable = true)

namespace Still

variable {id : ℕ} {receivable : Bool} {log : List Passed} {c : H2Connection}

theorem start {stream : H2Stream} (hstream : c.streams.lookup id = some stream) (hbody : stream.body = [])
    (hreceivable : stream.state.receivable = true) : Still id receivable c.passed c where
  passed := ⟨[], rfl, fun _ h => absurd h List.not_mem_nil⟩
  stream stream' hstream' := by
    rw [hstream] at hstream'
    cases hstream'
    exact ⟨hbody, fun _ => hreceivable⟩

theorem note (h : Still id receivable log c) {e : Passed} (he : e.still id = true) :
    Still id receivable log { c with passed := e :: c.passed } where
  passed := by
    obtain ⟨entries, hentries, hstill⟩ := h.passed
    refine ⟨e :: entries, congrArg (e :: ·) hentries, fun e' he' => ?_⟩
    rcases List.mem_cons.1 he' with rfl | he'
    · exact he
    · exact hstill e' he'
  stream := h.stream

/-- Changing a stream, where the one the tunnel is over keeps an empty body. -/
theorem modify (h : Still id receivable log c) {other : ℕ} {f : H2Stream → H2Stream}
    (hf : other = id → ∀ stream, stream.body = [] → (f stream).body = [] ∧
      (receivable = true → stream.state.receivable = true → (f stream).state.receivable = true)) :
    Still id receivable log { c with streams := StreamMap.modify c.streams other f } where
  passed := h.passed
  stream stream' hstream' := by
    rw [StreamMap.lookup_modify] at hstream'
    split_ifs at hstream' with heq
    · obtain ⟨stream, hstream, rfl⟩ := Option.map_eq_some_iff.1 hstream'
      obtain ⟨hbody, hreceivable⟩ := h.stream stream hstream
      obtain ⟨hbody', hreceivable'⟩ := hf heq.symm stream hbody
      exact ⟨hbody', fun hasked => hreceivable' hasked (hreceivable hasked)⟩
    · exact h.stream stream' hstream'

end Still

theorem lasting_still (id : ℕ) (receivable : Bool) (log : List Passed) : Lasting (Still id receivable log) where
  congr hstreams _ hpassed _ h := ⟨hpassed ▸ h.passed, hstreams ▸ h.stream⟩
  note he h := h.note (Passed.still_of_plain he id)
  insert {c} other windowLocal windowRemote h := by
    refine ⟨h.passed, fun stream hstream => ?_⟩
    by_cases heq : id = other
    · subst heq
      rw [AList.lookup_insert] at hstream
      cases hstream
      exact ⟨rfl, fun _ => rfl⟩
    · rw [AList.lookup_insert_ne heq] at hstream
      exact h.stream stream hstream
  erase {c} other h := by
    refine ⟨h.passed, fun stream hstream => h.stream stream ?_⟩
    by_cases heq : id = other
    · subst heq
      rw [AList.lookup_erase] at hstream
      cases hstream
    · rwa [AList.lookup_erase_ne heq] at hstream
  modify other hf h := h.modify fun _ stream hbody =>
    ⟨(hf stream).body_eq_nil hbody, fun _ hreceivable => (hf stream).receivable_eq.trans hreceivable⟩
  mapValues {c f} hf h := by
    refine ⟨h.passed, fun stream' hstream' => ?_⟩
    rw [StreamMap.lookup_mapValues] at hstream'
    obtain ⟨stream, hstream, rfl⟩ := Option.map_eq_some_iff.1 hstream'
    obtain ⟨hbody, hreceivable⟩ := h.stream stream hstream
    exact ⟨(hf stream).body_eq_nil hbody, fun hasked => (hf stream).receivable_eq.trans (hreceivable hasked)⟩

/-- The peer's end of a stream leaves an empty body empty; and where it did not end the one the
    tunnel is over, the peer may still send on it. -/
theorem still_complete {id : ℕ} {receivable : Bool} (log : List Passed) {other : ℕ} {endStream : Bool}
    (h : other = id → receivable = true → endStream = false) : Survives (Still id receivable log) (complete other endStream) := by
  refine Survives.bind (fun c hc => hc.modify fun heq stream hbody => ?_) fun _ => Survives.get.bind fun c => ?_
  · split_ifs with hend
    · exact ⟨hbody, fun hasked => absurd hend (Bool.eq_false_iff.1 (h heq hasked))⟩
    · exact ⟨hbody, fun _ hreceivable => hreceivable⟩
  · split
    · exact Survives.pure _
    · split
      · refine Survives.bind (fun c hc => ?_) fun _ => Survives.pure _
        rw [noteIf]
        split_ifs
        · exact hc.note rfl
        · exact hc
      · exact Survives.bind (fun c hc => hc.modify fun _ _ _ => ⟨rfl, fun _ hreceivable => hreceivable⟩) fun _ =>
          ((lasting_still id receivable log).retire other).bind fun _ => Survives.pure _

/-- DATA that is not for the tunnel, or has no octets and does not end the stream, changes nothing. -/
theorem still_absorbData {id : ℕ} (receivable : Bool) (log : List Passed) {other : ℕ} {endStream : Bool} {data : Octets}
    (h : other = id → data = [] ∧ endStream = false) : Survives (Still id receivable log) (absorbData other endStream data) := by
  have hP := lasting_still id receivable log
  have hhold : Survives (Still id receivable log) (holdData other data) :=
    Survives.holdData (fun _ hc => ⟨hc.passed, hc.stream⟩) fun c hc => hc.modify fun heq stream hbody =>
      ⟨by rw [hbody, (h heq).1]; rfl, fun _ hreceivable => hreceivable⟩
  refine hhold.bind fun _ => Survives.bind (fun c hc => hc.note ?_) fun _ => (hP.restoreStream other _).bind fun _ => ?_
  · rw [Passed.still, Passed.brought]
    split_ifs with heq
    · rw [(h heq).1]
      rfl
    · rfl
  · split_ifs with hend
    · exact still_complete log fun heq _ => absurd hend (Bool.eq_false_iff.1 (h heq).2)
    · exact Survives.pure _

/-- A frame that brings nothing on the stream of the tunnel is acted on without a trace. -/
theorem still_act {id : ℕ} (receivable : Bool) (log : List Passed) (world : World) {frame : Frame}
    (h : frame.bears id = false) : Survives (Still id receivable log) (act world frame) := by
  refine Survives.bind ((lasting_still id receivable log).handle world ?_ ?_) fun m => Survives.get.bind fun c =>
    Survives.bind (fun c hc => hc.note ?_) fun _ => Survives.pure _
  · rintro other endStream endHeaders block rfl
    refine still_complete log fun heq _ => ?_
    simpa [Frame.bears, heq] using h
  · rintro other endStream data rfl
    refine still_absorbData receivable log fun heq => ?_
    simpa [Frame.bears, heq, and_comm] using h
  · have hends := Frame.ends_of_bears h
    simpa [Passed.still, Passed.brought, Passed.ends] using hends

/-! ## A wait for credit -/

/-- A step that succeeds and that a property survives. -/
theorem Survives.ok {P : H2Connection → Prop} {α : Type} {m : Step α} (h : Survives P m) {c c' : H2Connection} {a : α}
    (hrun : m.run c = (.ok a, c')) (hc : P c) : P c' := h.leads c a c' hrun hc

/-- The record only grows. -/
def Grown (log : List Passed) (c : H2Connection) : Prop := log <:+ c.passed

theorem lasting_grown (log : List Passed) : Lasting (Grown log) where
  congr _ _ hpassed _ h := by
    rw [Grown, hpassed]
    exact h
  note h hc := hc.trans (List.suffix_cons _ _)
  insert _ _ _ h := h
  erase _ h := h
  modify _ _ h := h
  mapValues _ h := h

/-- So it does in the steps flow control has nothing to do with. -/
theorem grown_of_quietly {α : Type} {m : Step α} (h : Quietly m) (log : List Passed) : Survives (Grown log) m := by
  intro c hc
  obtain ⟨entries, hentries, -⟩ := (h c).passed
  exact hc.trans ⟨entries, hentries.symm⟩

theorem grown_note (log : List Passed) (e : Passed) : Survives (Grown log) (note e) :=
  fun _ hc => hc.trans (List.suffix_cons _ _)

theorem grown_handle (world : World) (frame : Frame) (log : List Passed) : Survives (Grown log) (handle world frame) := by
  refine (lasting_grown log).handle world ?_ ?_
  · exact fun id endStream _ _ _ => grown_of_quietly (quietly_complete id endStream) log
  · intro id endStream data _
    refine (grown_of_quietly (quietly_holdData id data) log).bind fun _ => (grown_note log _).bind fun _ =>
      ((lasting_grown log).restoreStream id _).bind fun _ => ?_
    split_ifs
    · exact grown_of_quietly (quietly_complete id true) log
    · exact Survives.pure _

theorem grown_act (world : World) (frame : Frame) (log : List Passed) : Survives (Grown log) (act world frame) :=
  (grown_handle world frame log).bind fun _ => Survives.get.bind fun _ => (grown_note log _).bind fun _ => Survives.pure _

theorem grown_pump (world : World) (log : List Passed) : Survives (Grown log) (pump world) :=
  have hP := lasting_grown log
  hP.fatal <| hP.start.bind fun _ => (grown_of_quietly quietly_flushResets log).bind fun _ => hP.readFrame.bind fun _ =>
    (grown_act world _ log).bind fun _ => hP.flushIfDrained.bind fun _ => Survives.pure _

theorem grown_relay (world : World) (log : List Passed) : Survives (Grown log) (relay world) :=
  have hP := lasting_grown log
  hP.fatal <| hP.flushOut.bind fun _ => hP.readFrame.bind fun _ => grown_act world _ log

theorem of_fatal_ok {α : Type} {m : Step α} {c c' : H2Connection} {a : α} (h : (fatal m).run c = (.ok a, c')) :
    m.run c = (.ok a, c') := by
  rcases hrun : m.run c with ⟨error | a', c₁⟩
  · rw [fatal_error hrun] at h
    cases h
  · rwa [fatal_ok hrun] at h

theorem act_ok {world : World} {frame : Frame} {c c' : H2Connection} {m : Option Message}
    (h : (act world frame).run c = (.ok m, c')) : ∃ c₁, (handle world frame).run c = (.ok m, c₁) ∧
      c' = { c₁ with passed := .handled frame c₁.lingering :: c₁.passed } := by
  obtain ⟨m', c₁, hhandle, h⟩ := Act.of_run_bind_ok h
  cases h
  exact ⟨c₁, hhandle, rfl⟩

/-- Nothing that a frame brought on a stream is in what was recorded since. -/
def Unborne (id : ℕ) (log log' : List Passed) : Prop :=
  ∀ entries, log' = entries ++ log → ∀ e ∈ entries, e.bears id = false

theorem Unborne.of_suffix {id : ℕ} {log log₁ log₂ : List Passed} (h : Unborne id log log₂) (hsuffix : log₁ <:+ log₂) :
    Unborne id log log₁ := by
  obtain ⟨later, rfl⟩ := hsuffix
  rintro entries rfl e he
  exact h (later ++ entries) (List.append_assoc later entries log).symm e (List.mem_append_right later he)

section

variable {world : World} {id : ℕ} {log : List Passed} {c c' : H2Connection}

/-- A pump that acted on nothing for the tunnel leaves it be. -/
theorem pump_still {m : Option Message} (hrun : (pump world).run c = (.ok m, c')) (hc : Still id true log c)
    (hunborne : Unborne id log c'.passed) : Still id true log c' := by
  have hP := lasting_still id true log
  obtain ⟨_, c₁, hstart, h⟩ := Act.of_run_bind_ok (of_fatal_ok hrun)
  obtain ⟨_, c₂, hflush, h⟩ := Act.of_run_bind_ok h
  obtain ⟨frame, c₃, hread, h⟩ := Act.of_run_bind_ok h
  obtain ⟨m', c₄, hact, h⟩ := Act.of_run_bind_ok h
  have hc₃ := hP.readFrame.ok hread ((hP.flushResets fun _ h => ⟨h.passed, h.stream⟩).ok hflush (hP.start.ok hstart hc))
  have hrest : ∀ {P}, Lasting P → P c₄ → P c' := fun hP =>
    (hP.flushIfDrained.bind fun _ => Survives.pure m').ok h
  -- The frame is in the record, which says it brought nothing.
  obtain ⟨c₅, hhandle, hc₄⟩ := act_ok hact
  have hsuffix : c₄.passed <:+ c'.passed := hrest (lasting_grown _) (List.suffix_refl _)
  obtain ⟨entries, hentries⟩ : log <:+ c₅.passed := by
    obtain ⟨entries, hentries, -⟩ := hc₃.passed
    exact (grown_handle world frame log).ok hhandle ⟨entries, hentries.symm⟩
  have hbears : frame.bears id = false := by
    refine hunborne.of_suffix hsuffix (.handled frame c₅.lingering :: entries) ?_ _ List.mem_cons_self
    rw [hc₄, List.cons_append, hentries]
  exact hrest hP ((still_act true log world hbears).ok hact hc₃)

/-- A send that waited for nothing of the tunnel's leaves it be, and the stream is there still. -/
theorem writeDataLoop_still {endStream : Bool} {fuel : ℕ} {rest : Octets}
    (hrun : (writeDataLoop world id endStream fuel rest).run c = (.ok (), c')) (hc : Still id true log c)
    (hunborne : Unborne id log c'.passed) : Still id true log c' ∧ ∃ stream, c'.streams.lookup id = some stream := by
  induction fuel generalizing c rest with
  | zero => cases hrun
  | succ fuel ih =>
    obtain ⟨_, _, hget, h⟩ := Act.of_run_bind_ok hrun
    cases hget
    split at h
    · cases h
    · next stream hstream =>
      split_ifs at h
      · -- A round that waits: what the pump brought is in the record at the end.
        obtain ⟨_, c₁, hawait, h⟩ := Act.of_run_bind_ok h
        have hsuffix := ((lasting_grown c₁.passed).writeDataLoop (grown_pump world c₁.passed) id endStream fuel rest).ok h
          (List.suffix_refl _)
        refine ih h ?_
        obtain ⟨m, c₂, hpump, hkeep⟩ := Act.of_run_bind_ok hawait
        have hready : c₁.streams = c₂.streams ∧ c₁.resets = c₂.resets ∧ c₁.passed = c₂.passed ∧
            c₁.bufferedBound = c₂.bufferedBound := by
          cases m <;> cases hkeep <;> exact ⟨rfl, rfl, rfl, rfl⟩
        rw [hready.2.2.1] at hsuffix
        exact (lasting_still id true log).congr hready.1 hready.2.1 hready.2.2.1 hready.2.2.2
          (pump_still hpump hc (hunborne.of_suffix hsuffix))
      · obtain ⟨_, c₁, hchunk, h⟩ := Act.of_run_bind_ok h
        have hc₁ := ((lasting_still id true log).writeChunk _ _ _).ok hchunk hc
        split_ifs at h
        · cases h
          obtain ⟨sink, out, rfl⟩ := writeChunk_ok hchunk
          exact ⟨hc₁, _, by rw [StreamMap.lookup_modify, if_pos rfl, hstream, Option.map_some]⟩
        · exact ih h hc₁

theorem writeData_still {data : Octets} {endStream : Bool} (hrun : (writeData world id data endStream).run c = (.ok (), c'))
    (hc : Still id true log c) (hunborne : Unborne id log c'.passed) :
    Still id true log c' ∧ ∃ stream, c'.streams.lookup id = some stream := by
  rw [writeData, Act.run_bind_ok (Act.run_get c)] at hrun
  exact writeDataLoop_still hrun hc hunborne

end

/-! ## A frame that brings something -/

@[simp] theorem receivable_closeRemote (state : StreamState) : state.closeRemote.receivable = false := by
  cases state <;> rfl

/-- Where the peer ended a stream, it may not send on it any more. -/
theorem complete_receivable {id : ℕ} {c c' : H2Connection} {m : Option Message}
    (hrun : (complete id true).run c = (.ok m, c')) {stream : H2Stream} (hstream : c'.streams.lookup id = some stream) :
    stream.state.receivable = false := by
  rw [complete, Act.run_bind_ok (modifyStream_run id _ c), Act.run_bind_ok (Act.run_get _)] at hrun
  generalize hf : (fun stream : H2Stream =>
    if true = true then { stream with state := stream.state.closeRemote } else stream) = f at hrun
  -- What is held of it by now was closed by the first step.
  have hclosed : ∀ stream, (StreamMap.modify c.streams id f).lookup id = some stream → stream.state.receivable = false := by
    intro stream hstream
    rw [StreamMap.lookup_modify, if_pos rfl] at hstream
    obtain ⟨stream, -, rfl⟩ := Option.map_eq_some_iff.1 hstream
    rw [← hf]
    exact receivable_closeRemote stream.state
  dsimp only at hrun
  split at hrun
  · cases hrun
    exact hclosed stream hstream
  · split at hrun
    · rw [noteIf] at hrun
      split_ifs at hrun <;> cases hrun <;> exact hclosed stream hstream
    · rw [Act.run_bind_ok (modifyStream_run id _ _)] at hrun
      obtain ⟨streams, hretire, hheld⟩ := retire_run id { c with
        streams := StreamMap.modify (StreamMap.modify c.streams id f) id fun stream =>
          { stream with headers := none, body := [] } }
      rw [Act.run_bind_ok hretire] at hrun
      cases hrun
      obtain ⟨hstream, -⟩ := hheld id stream hstream
      rw [StreamMap.lookup_modify, if_pos rfl] at hstream
      obtain ⟨stream, hlookup, rfl⟩ := Option.map_eq_some_iff.1 hstream
      exact hclosed stream hlookup

/-- Where the step succeeds, the peer may not send on the stream any more, or has ended it with an
    informational response. -/
def Closes {α : Type} (id : ℕ) (m : Step α) : Prop := ∀ c a c', m.run c = (.ok a, c') →
  (∀ stream, c'.streams.lookup id = some stream → stream.state.receivable = false) ∨ .overlooked id ∈ c'.passed

theorem closes_bind {α β : Type} {id : ℕ} (m : Step α) {f : α → Step β} (hf : ∀ a, Closes id (f a)) : Closes id (m >>= f) := by
  intro c b c' h
  obtain ⟨a, c₁, -, h⟩ := Act.of_run_bind_ok h
  exact hf a c₁ b c' h

theorem closes_fail {α : Type} (id : ℕ) (error : Error) : Closes id (Act.fail error : Step α) := by
  intro c a c' h
  cases h

theorem closes_settleSection (id : ℕ) : Closes id (settleSection id true) :=
  closes_bind _ fun _ => closes_bind _ fun stream => by
    rw [Bool.true_or, if_pos rfl]
    exact fun c m c' hrun => .inl fun stream hstream => complete_receivable hrun hstream

theorem closes_foldSection (world : World) (id : ℕ) (fields : List HeaderField) : Closes id (foldSection world id fields true) := by
  refine closes_bind _ fun stream => ?_
  split_ifs
  · exact closes_bind _ fun _ => closes_settleSection id
  · refine closes_bind _ fun informational => ?_
    split
    · intro c m c' h
      cases h
      exact .inr List.mem_cons_self
    · exact closes_settleSection id

theorem closes_finishHeaders (world : World) (id : ℕ) (block : Octets) : Closes id (finishHeaders world id block true) :=
  closes_bind _ fun _ => closes_bind _ fun _ => closes_bind _ fun _ => closes_bind _ fun _ => closes_bind _ fun _ =>
    closes_bind _ fun _ => closes_bind _ fun _ => closes_bind _ fun _ => closes_foldSection world id _

theorem closes_continueHeaders (world : World) (id frames : ℕ) : Closes id (continueHeaders world id true frames) := by
  induction frames with
  | zero => exact closes_bind _ fun _ => closes_bind _ fun _ => closes_fail id _
  | succ frames ih =>
    refine closes_bind _ fun _ => closes_bind _ fun kept => ?_
    rcases kept with kind | frame
    · exact closes_fail id _
    cases frame
    case continuation other endHeaders block =>
      refine (?_ : Closes id (if other = id then _ else _))
      split_ifs
      · exact closes_bind _ fun _ => closes_bind _ fun _ => closes_bind _ fun _ => closes_bind _ fun _ =>
          closes_finishHeaders world id _
      · exact closes_bind _ fun _ => closes_bind _ fun _ => ih
      · exact closes_fail id _
    all_goals exact closes_fail id _

theorem closes_handleHeaders (world : World) (id : ℕ) (endHeaders : Bool) (block : Octets) :
    Closes id (handleHeaders world id true endHeaders block) := by
  refine closes_bind _ fun _ => ?_
  split_ifs
  · exact closes_finishHeaders world id block
  · exact closes_bind _ fun _ => closes_bind _ fun _ => closes_bind _ fun _ => closes_continueHeaders world id _

/-- Since the record was `log`, no frame was acted on, and what a stream holds is the front of what
    was taken up on it. -/
structure Loaded (id : ℕ) (log : List Passed) (c : H2Connection) : Prop where
  passed : ∃ entries, c.passed = entries ++ log ∧ (∀ e ∈ entries, e.ends id = false) ∧
    ∀ stream, c.streams.lookup id = some stream → stream.body <+: brought id entries

theorem Loaded.modify {id : ℕ} {log : List Passed} {c : H2Connection} (h : Loaded id log c) (other : ℕ)
    {f : H2Stream → H2Stream} (hf : ∀ stream, (f stream).body = stream.body ∨ (f stream).body = []) :
    Loaded id log { c with streams := StreamMap.modify c.streams other f } := by
  obtain ⟨entries, hentries, hends, hbody⟩ := h.passed
  refine ⟨entries, hentries, hends, fun stream' hstream' => ?_⟩
  rw [StreamMap.lookup_modify] at hstream'
  split_ifs at hstream'
  · obtain ⟨stream, hstream, rfl⟩ := Option.map_eq_some_iff.1 hstream'
    rcases hf stream with hbody' | hbody' <;> rw [hbody']
    · exact hbody stream hstream
    · exact List.nil_prefix
  · exact hbody stream' hstream'

theorem loaded_complete (id : ℕ) (log : List Passed) (endStream : Bool) :
    Survives (Loaded id log) (complete id endStream) := by
  refine Survives.bind (fun c hc => hc.modify id fun stream => ?_) fun _ => Survives.get.bind fun c => ?_
  · split_ifs <;> exact .inl rfl
  · split
    · exact Survives.pure _
    · split
      · refine Survives.bind (fun c hc => ?_) fun _ => Survives.pure _
        rw [noteIf]
        split_ifs
        · obtain ⟨entries, hentries, hends, hbody⟩ := hc.passed
          refine ⟨.unattended id :: entries, congrArg (_ :: ·) hentries, fun e he => ?_, fun stream hstream => ?_⟩
          · rcases List.mem_cons.1 he with rfl | he
            · rfl
            · exact hends e he
          · rw [brought_cons]
            exact (hbody stream hstream).trans (List.prefix_append _ _)
        · exact hc
      · refine Survives.bind (fun c hc => hc.modify id fun _ => .inr rfl) fun _ => Survives.bind (fun c hc => ?_) fun _ =>
          Survives.pure _
        obtain ⟨streams, hretire, hheld⟩ := retire_run id c
        rw [hretire]
        obtain ⟨entries, hentries, hends, hbody⟩ := hc.passed
        exact ⟨entries, hentries, hends, fun stream hstream => hbody stream (hheld id stream hstream).1⟩

/-- What a turn that reads a frame comes to: what the stream holds is the front of what was taken
    up on it, and all of that where the peer may still send; and then it did not end the stream,
    other than with an informational response. -/
structure Turned (id : ℕ) (log : List Passed) (c : H2Connection) : Prop where
  passed : ∃ entries, c.passed = entries ++ log ∧ ∀ stream, c.streams.lookup id = some stream →
    stream.body <+: brought id entries ∧ (stream.state.receivable = true → stream.body = brought id entries ∧
      (.overlooked id ∈ c.passed ∨ ∀ e ∈ entries, e.ends id = false))

theorem Still.turned {id : ℕ} {log : List Passed} {c : H2Connection} (h : Still id true log c) : Turned id log c := by
  obtain ⟨entries, hentries, hstill⟩ := h.passed
  refine ⟨entries, hentries, fun stream hstream => ?_⟩
  obtain ⟨hbody, -⟩ := h.stream stream hstream
  rw [hbody, brought_still hstill]
  exact ⟨List.nil_prefix, fun _ => ⟨rfl, .inr fun e he => ends_still (hstill e he)⟩⟩

/-- DATA on the stream of the tunnel. -/
theorem absorbData_turned {id : ℕ} {log : List Passed} {c c' : H2Connection} {stream : H2Stream}
    (hstream : c.streams.lookup id = some stream) (hc : Still id true log c) {endStream : Bool} {data : Octets}
    {m : Option Message} (hrun : (absorbData id endStream data).run c = (.ok m, c')) :
    ∃ entries, c'.passed = entries ++ log ∧ (∀ e ∈ entries, e.ends id = false) ∧
      ∀ stream, c'.streams.lookup id = some stream → stream.body <+: brought id entries ∧
        (stream.state.receivable = true → stream.body = brought id entries ∧ endStream = false) := by
  obtain ⟨hbody, hreceivable⟩ := hc.stream stream hstream
  obtain ⟨entries, hentries, hstill⟩ := hc.passed
  obtain ⟨_, c₁, hhold, h⟩ := Act.of_run_bind_ok hrun
  obtain ⟨bound, rfl⟩ := holdData_ok hhold
  obtain ⟨_, c₂, hnote, h⟩ := Act.of_run_bind_ok h
  cases hnote
  obtain ⟨_, c₃, hrestore, h⟩ := Act.of_run_bind_ok h
  have hstream₁ : (StreamMap.modify c.streams id fun stream => { stream with body := stream.body ++ data }).lookup id =
      some { stream with body := stream.body ++ data } := by
    rw [StreamMap.lookup_modify, if_pos rfl, hstream, Option.map_some]
  obtain ⟨out, hrestore'⟩ := restoreStream_run data.length (c := { c with
    streams := StreamMap.modify c.streams id fun stream => { stream with body := stream.body ++ data }
    bufferedBound := bound
    passed := .accepted id data :: c.passed }) hstream₁ (hreceivable rfl)
  have hc₃ := congrArg Prod.snd (hrestore.symm.trans hrestore')
  dsimp only at hc₃
  -- What was recorded meanwhile: that the octets were taken up, and that credit was given back.
  have hpassed : c₃.passed = (grants id data.length ++ .accepted id data :: entries) ++ log := by
    rw [hc₃, hentries]
    simp
  have hgrants : ∀ e ∈ grants id data.length, e.still id = true := by
    intro e he
    rw [grants] at he
    split_ifs at he
    · rw [List.mem_singleton.1 he]
      rfl
    · cases he
  have hbrought : brought id (grants id data.length ++ .accepted id data :: entries) = data := by
    rw [brought_append, brought_still hgrants, List.append_nil, brought_cons, brought_still hstill, List.nil_append,
      Passed.brought, if_pos rfl]
  have hends : ∀ e ∈ grants id data.length ++ .accepted id data :: entries, e.ends id = false := by
    intro e he
    rcases List.mem_append.1 he with he | he
    · exact ends_still (hgrants e he)
    · rcases List.mem_cons.1 he with rfl | he
      · rfl
      · exact ends_still (hstill e he)
  have hheld : ∀ stream', c₃.streams.lookup id = some stream' → stream'.body = data := by
    intro stream' hstream'
    rw [hc₃, StreamMap.lookup_modify, if_pos rfl, StreamMap.lookup_modify, if_pos rfl, hstream] at hstream'
    cases hstream'
    exact (congrArg (· ++ data) hbody).trans (List.nil_append data)
  split_ifs at h with hend
  · -- The peer ended the stream, and a message may have taken what it held.
    have hloaded : Loaded id log c₃ := ⟨_, hpassed, hends, fun stream' hstream' => by
      rw [hbrought, hheld stream' hstream']⟩
    obtain ⟨entries', hentries', hends', hbody'⟩ := ((loaded_complete id log true).ok h hloaded).passed
    refine ⟨entries', hentries', hends', fun stream' hstream' => ⟨hbody' stream' hstream', fun hreceivable' => ?_⟩⟩
    rw [complete_receivable h hstream'] at hreceivable'
    cases hreceivable'
  · cases h
    refine ⟨_, hpassed, hends, fun stream' hstream' => ?_⟩
    rw [hbrought, hheld stream' hstream']
    exact ⟨List.prefix_refl _, fun _ => ⟨rfl, Bool.eq_false_iff.2 hend⟩⟩

/-- Where DATA exceeds the credit of the stream, the stream is gone. -/
theorem reset_gone {id code : ℕ} {c c' : H2Connection} {a : Unit} (hrun : (reset id code).run c = (.ok a, c')) :
    c'.streams.lookup id = none := by
  obtain ⟨_, c₁, herase, h⟩ := Act.of_run_bind_ok hrun
  cases herase
  rcases hstream : c'.streams.lookup id with _ | stream
  · rfl
  · obtain ⟨stream', hstream', -⟩ := ((quietly_write rfl).leads _ _ _ h).stream id stream hstream
    rw [AList.lookup_erase] at hstream'
    cases hstream'

theorem handleData_turned {id : ℕ} {log : List Passed} {c c' : H2Connection} (hc : Still id true log c) {endStream : Bool}
    {data : Octets} {m : Option Message} (hrun : (handleData id endStream data).run c = (.ok m, c')) :
    ∃ entries, c'.passed = entries ++ log ∧ (∀ e ∈ entries, e.ends id = false) ∧
      ∀ stream, c'.streams.lookup id = some stream → stream.body <+: brought id entries ∧
        (stream.state.receivable = true → stream.body = brought id entries ∧ endStream = false) := by
  have hP := lasting_still id true log
  obtain ⟨_, c₁, hdemand, h⟩ := Act.of_run_bind_ok hrun
  obtain ⟨_, c₂, hadvanced, h⟩ := Act.of_run_bind_ok h
  obtain ⟨_, c₃, hspend, h⟩ := Act.of_run_bind_ok h
  obtain ⟨_, c₄, hmodify, h⟩ := Act.of_run_bind_ok h
  obtain ⟨stream, c₅, hopen, hrest⟩ := Act.of_run_bind_ok h
  obtain ⟨rfl, hstream⟩ := openStream_ok hopen
  have hc₁ := (Survives.demandReceivable id).ok hdemand hc
  have hc₃ := (hP.spendConnection _).ok hspend ((hP.advanced _).ok hadvanced hc₁)
  have hc₄ : Still id true log c₅ := by
    refine Survives.ok (hP.modifyStream fun _ => ?_) hmodify hc₃
    exact ⟨.inl rfl, rfl, .inl rfl⟩
  split_ifs at hrest
  · obtain ⟨_, c₆, hnote, h⟩ := Act.of_run_bind_ok hrest
    obtain ⟨_, c₇, hreset, h⟩ := Act.of_run_bind_ok h
    cases h
    obtain ⟨entries, hentries, hstill⟩ := ((hP.reset _ _).ok hreset ((hP.noted rfl).ok hnote hc₄)).passed
    refine ⟨entries, hentries, fun e he => ends_still (hstill e he), fun stream' hstream' => ?_⟩
    rw [reset_gone hreset] at hstream'
    cases hstream'
  · exact absorbData_turned hstream hc₄ hrest

/-- Acting on whatever frame there is. -/
theorem act_turned {world : World} {frame : Frame} {id : ℕ} {log : List Passed} {c c' : H2Connection} {m : Option Message}
    (hc : Still id true log c) (hrun : (act world frame).run c = (.ok m, c')) : Turned id log c' := by
  by_cases hbears : frame.bears id = false
  · exact ((still_act true log world hbears).ok hrun hc).turned
  obtain ⟨c₁, hhandle, rfl⟩ := act_ok hrun
  cases frame
  case data other endStream octets =>
    obtain rfl : other = id := by
      by_contra hother
      simp [Frame.bears, hother] at hbears
    obtain ⟨entries, hentries, hends, hheld⟩ := handleData_turned hc hhandle
    refine ⟨_ :: entries, congrArg (_ :: ·) hentries, fun stream hstream => ?_⟩
    obtain ⟨hbody, hreceivable⟩ := hheld stream hstream
    rw [brought_cons, Passed.brought_handled, List.append_nil]
    refine ⟨hbody, fun hasked => ?_⟩
    obtain ⟨hall, rfl⟩ := hreceivable hasked
    refine ⟨hall, .inr fun e he => ?_⟩
    rcases List.mem_cons.1 he with rfl | he
    · simp [Passed.ends, Frame.ends]
    · exact hends e he
  case headers other endStream endHeaders block =>
    have hmine : other = id ∧ endStream = true := by simpa [Frame.bears] using hbears
    obtain ⟨rfl, rfl⟩ := hmine
    have hstill : Survives (Still other false log) (handle world (.headers other true endHeaders block)) :=
      (lasting_still other false log).handle world
        (fun _ _ _ _ _ => still_complete log fun _ hasked => absurd hasked Bool.false_ne_true) fun _ _ _ hframe => by cases hframe
    have hc₁ := hstill.ok hhandle ⟨hc.passed, fun stream hstream =>
      ⟨(hc.stream stream hstream).1, fun hasked => absurd hasked Bool.false_ne_true⟩⟩
    obtain ⟨entries, hentries, hentries'⟩ := hc₁.passed
    refine ⟨_ :: entries, congrArg (_ :: ·) hentries, fun stream hstream => ?_⟩
    rw [brought_cons, Passed.brought_handled, List.append_nil, brought_still hentries', (hc₁.stream stream hstream).1]
    refine ⟨List.nil_prefix, fun hasked => ⟨rfl, .inl ?_⟩⟩
    -- The peer may still send, so it was an informational response that ended the stream.
    rcases closes_handleHeaders world other endHeaders block c m c₁ hhandle with hclosed | hoverlooked
    · rw [hclosed stream hstream] at hasked
      cases hasked
    · exact List.mem_cons_of_mem _ hoverlooked
  all_goals exact absurd rfl hbears

/-- Reading a frame and acting on it. -/
theorem relay_turned {world : World} {id : ℕ} {c c' : H2Connection} {m : Option Message} (hc : Still id true c.passed c)
    (hrun : (relay world).run c = (.ok m, c')) : Turned id c.passed c' := by
  have hP := lasting_still id true c.passed
  obtain ⟨_, c₁, hflush, h⟩ := Act.of_run_bind_ok (of_fatal_ok hrun)
  obtain ⟨frame, c₂, hread, hact⟩ := Act.of_run_bind_ok h
  exact act_turned (hP.readFrame.ok hread (hP.flushOut.ok hflush hc)) hact

end H2Connection

namespace H2Tunnel

/-! ## Turns -/

theorem passedSince_eq {c c' : H2Connection} {entries : List Passed} (h : c'.passed = entries ++ c.passed) :
    passedSince c c' = entries := by
  rw [passedSince, h, List.length_append, Nat.add_sub_cancel, List.take_left]

theorem passedSince_append {c c' : H2Connection} (h : c.passed <:+ c'.passed) :
    c'.passed = passedSince c c' ++ c.passed := by
  obtain ⟨entries, hentries⟩ := h
  rw [passedSince_eq hentries.symm, hentries]

/-- What a stream holds of its body. -/
def held (id : ℕ) (c : H2Connection) : Octets := ((c.streams.lookup id).map (·.body)).getD []

/-- What was held goes to the application, up to where it goes away. -/
theorem forward_run (id : ℕ) (taken : Option ℕ) (t : H2Tunnel) : ∃ answer written, (forward id taken).run t =
    (answer, { t with
      connection := { t.connection with
        streams := StreamMap.modify t.connection.streams id fun stream => { stream with body := [] } }
      written := t.written ++ written }) ∧
    written <+: held id t.connection ∧ (answer = .ok () → written = held id t.connection) := by
  have hdrain : (on (H2Connection.drain id)).run t = (.ok (((t.connection.streams.lookup id).map (·.body)).filter
      (!·.isEmpty)), { t with
        connection := { t.connection with
          streams := StreamMap.modify t.connection.streams id fun stream => { stream with body := [] } } }) := rfl
  rw [forward, Act.run_bind_ok hdrain, held]
  rcases t.connection.streams.lookup id with _ | stream
  · exact ⟨.ok (), [], by rw [List.append_nil]; rfl, List.nil_prefix, fun _ => rfl⟩
  · rw [Option.map_some, Option.filter_some, Option.getD_some]
    rcases stream.body with _ | ⟨octet, body⟩
    · exact ⟨.ok (), [], by rw [List.append_nil]; rfl, List.nil_prefix, fun _ => rfl⟩
    · cases taken with
      | none => exact ⟨.ok (), _, rfl, List.prefix_refl _, fun _ => rfl⟩
      | some count => exact ⟨.error .io, _, rfl, List.take_prefix count _, fun h => by cases h⟩

/-- What a tunnel is whenever it waits for its next turn: all that was taken up on its stream since
    the connection was `c` went to the application, and the peer has not ended the stream. -/
structure Forwarded (id : ℕ) (c : H2Connection) (t : H2Tunnel) : Prop where
  stream : ∃ stream, t.connection.streams.lookup id = some stream ∧ stream.state.receivable = true ∧ stream.body = []
  written : t.written = brought id (passedSince c t.connection)
  unended : ∀ e ∈ passedSince c t.connection, e.ends id = false

/-- What a turn comes to, if all goes well on its stream while something is sent. -/
structure Outcome (id : ℕ) (c : H2Connection) (r : Except Error Bool × H2Tunnel) : Prop where
  grown : c.passed <:+ r.2.connection.passed
  written : r.2.written <+: brought id (passedSince c r.2.connection)
  waiting : r.1 = .ok true → Forwarded id c r.2

/-- Whatever passes, what was written is the front of what was taken up. -/
theorem prefix_of_grown {id : ℕ} {c c₁ c₂ : H2Connection} {written : Octets} (hc₁ : c.passed <:+ c₁.passed)
    (hc₂ : c₁.passed <:+ c₂.passed) (h : written <+: brought id (passedSince c c₁)) :
    written <+: brought id (passedSince c c₂) := by
  obtain ⟨later, hlater⟩ := hc₂
  have hpassed : c₂.passed = (later ++ passedSince c c₁) ++ c.passed := by
    rw [List.append_assoc, ← passedSince_append hc₁, hlater]
  rw [passedSince_eq hpassed, brought_append]
  exact h.trans (List.prefix_append _ _)

/-- What is held after a frame was acted on is the front of what was taken up since. -/
theorem held_prefix {id : ℕ} {log : List Passed} {c : H2Connection} (h : H2Connection.Turned id log c) :
    ∃ entries, c.passed = entries ++ log ∧ held id c <+: brought id entries := by
  obtain ⟨entries, hentries, hstream⟩ := h.passed
  refine ⟨entries, hentries, ?_⟩
  rw [held]
  rcases hlookup : c.streams.lookup id with _ | stream
  · exact List.nil_prefix
  · exact (hstream stream hlookup).1

/-- Where the peer may still send after a frame was acted on and what it brought was written, all is
    well again. -/
theorem forwarded_of_turned {id : ℕ} {c c₀ c₁ : H2Connection} (hgrown : c.passed <:+ c₀.passed) {t : H2Tunnel}
    (hconnection : t.connection = { c₁ with
      streams := StreamMap.modify c₁.streams id fun stream => { stream with body := [] } })
    (hwritten : t.written = brought id (passedSince c c₀) ++ held id c₁)
    (hunended : ∀ e ∈ passedSince c c₀, e.ends id = false) (hturned : H2Connection.Turned id c₀.passed c₁)
    (hoverlooked : .overlooked id ∉ c₁.passed) (hreceivable : t.receivable id = true) : Forwarded id c t := by
  obtain ⟨entries, hentries, hstream⟩ := hturned.passed
  have hpassed : t.connection.passed = (entries ++ passedSince c c₀) ++ c.passed := by
    rw [hconnection, List.append_assoc, ← passedSince_append hgrown, ← hentries]
  have hlookup : t.connection.streams.lookup id = (c₁.streams.lookup id).map fun stream => { stream with body := [] } := by
    rw [hconnection, StreamMap.lookup_modify, if_pos rfl]
  rw [receivable, hlookup] at hreceivable
  rcases hstream₁ : c₁.streams.lookup id with _ | stream
  · rw [hstream₁] at hreceivable
    cases hreceivable
  · rw [hstream₁] at hlookup hreceivable
    obtain ⟨-, hall⟩ := hstream stream hstream₁
    obtain ⟨hbody, hends⟩ := hall hreceivable
    have hheld : held id c₁ = brought id entries := by
      rw [held, hstream₁, ← hbody]
      rfl
    refine ⟨⟨_, hlookup, hreceivable, rfl⟩, ?_, ?_⟩
    · rw [passedSince_eq hpassed, brought_append, hwritten, hheld]
    · rw [passedSince_eq hpassed]
      intro e he
      rcases List.mem_append.1 he with he | he
      · exact hends.resolve_left hoverlooked e he
      · exact hunended e he

/-- A turn that reads a frame. -/
theorem frame_outcome {id : ℕ} {c : H2Connection} {t : H2Tunnel} (hgrown : c.passed <:+ t.connection.passed)
    (ht : Forwarded id c t) (world : World) (taken : Option ℕ)
    (hoverlooked : .overlooked id ∉ ((turn world id (.frame taken)).run t).2.connection.passed) :
    Outcome id c ((turn world id (.frame taken)).run t) := by
  obtain ⟨stream, hstream, hreceivable, hbody⟩ := ht.stream
  have hrelay := H2Connection.grown_relay world t.connection.passed t.connection (List.suffix_refl _)
  rcases hrun : (H2Connection.relay world).run t.connection with ⟨error | m, c₁⟩
  · have hon : (on (H2Connection.relay world)).run t = (.error error, { t with connection := c₁ }) := by
      simp only [on, Act.run] at hrun ⊢
      rw [hrun]
    rw [hrun] at hrelay
    rw [turn, Act.run_bind_error hon]
    exact ⟨hgrown.trans hrelay, prefix_of_grown hgrown hrelay (ht.written ▸ List.prefix_refl _), fun h => by cases h⟩
  have hon : (on (H2Connection.relay world)).run t = (.ok m, { t with connection := c₁ }) := by
    simp only [on, Act.run] at hrun ⊢
    rw [hrun]
  have hturned := H2Connection.relay_turned (H2Connection.Still.start hstream hbody hreceivable) hrun
  rw [hrun] at hrelay
  obtain ⟨answer, written, hforward, hfront, hall⟩ := forward_run id taken { t with connection := c₁ }
  -- However the application takes it, what it has by then is the front of what was taken up.
  have hwritten : t.written ++ written <+: brought id (passedSince c c₁) := by
    obtain ⟨entries, hentries, hheld⟩ := held_prefix hturned
    have hpassed : c₁.passed = (entries ++ passedSince c t.connection) ++ c.passed := by
      rw [List.append_assoc, ← passedSince_append hgrown, ← hentries]
    rw [passedSince_eq hpassed, brought_append, ht.written]
    exact (List.prefix_append_right_inj _).2 (hfront.trans hheld)
  rw [turn, Act.run_bind_ok hon] at hoverlooked ⊢
  rcases answer with error | ⟨⟩
  · rw [Act.run_bind_error hforward]
    exact ⟨hgrown.trans hrelay, hwritten, fun h => by cases h⟩
  rw [Act.run_bind_ok hforward, Act.run_bind_ok (Act.run_get _)] at hoverlooked ⊢
  split_ifs at hoverlooked ⊢ with hmay
  · refine ⟨hgrown.trans hrelay, hwritten, fun _ => ?_⟩
    refine forwarded_of_turned hgrown rfl ?_ ht.unended hturned hoverlooked hmay
    exact congr (congrArg _ ht.written) (hall rfl)
  · exact ⟨hgrown.trans hrelay, hwritten, fun h => by cases h⟩

theorem flushOut_ok {c c' : H2Connection} {a : Unit} (hrun : H2Connection.flushOut.run c = (.ok a, c')) :
    c'.streams = c.streams ∧ c'.passed = c.passed := by
  simp only [H2Connection.flushOut, Act.run] at hrun
  split_ifs at hrun
  · cases hrun
    exact ⟨rfl, rfl⟩
  · split at hrun <;> cases hrun
    exact ⟨rfl, rfl⟩

theorem grown_writeData (world : World) (id : ℕ) (octets : Octets) (endStream : Bool) (log : List Passed) :
    H2Connection.Survives (H2Connection.Grown log) (H2Connection.writeData world id octets endStream) :=
  (H2Connection.lasting_grown log).writeData (H2Connection.grown_pump world log) id octets endStream

/-- A turn that sends what the application wrote. -/
theorem read_outcome {id : ℕ} {c : H2Connection} {t : H2Tunnel} (hgrown : c.passed <:+ t.connection.passed)
    (ht : Forwarded id c t) (world : World) (octets : Octets)
    (hwaited : ∀ e ∈ ((turn world id (.read octets)).run t).2.waited, e.bears id = false) :
    Outcome id c ((turn world id (.read octets)).run t) := by
  obtain ⟨stream, hstream, hreceivable, hbody⟩ := ht.stream
  have hfront : t.written <+: brought id (passedSince c t.connection) := ht.written ▸ List.prefix_refl _
  have hflush := (H2Connection.lasting_grown t.connection.passed).flushOut t.connection (List.suffix_refl _)
  rcases hrun : H2Connection.flushOut.run t.connection with ⟨error | ⟨⟩, c₁⟩
  · have hon : (on H2Connection.flushOut).run t = (.error error, { t with connection := c₁ }) := by
      simp only [on, Act.run] at hrun ⊢
      rw [hrun]
    rw [hrun] at hflush
    rw [turn, Act.run_bind_error hon]
    exact ⟨hgrown.trans hflush, prefix_of_grown hgrown hflush hfront, fun h => by cases h⟩
  have hon : (on H2Connection.flushOut).run t = (.ok (), { t with connection := c₁ }) := by
    simp only [on, Act.run] at hrun ⊢
    rw [hrun]
  obtain ⟨hstreams, hpassed⟩ := flushOut_ok hrun
  have hgrown₁ : c.passed <:+ c₁.passed := hpassed ▸ hgrown
  have hsince : passedSince c c₁ = passedSince c t.connection := by rw [passedSince, passedSince, hpassed]
  have hwrite := grown_writeData world id octets octets.isEmpty c₁.passed c₁ (List.suffix_refl _)
  rw [turn, Act.run_bind_ok hon] at hwaited ⊢
  rcases hrun' : (H2Connection.writeData world id octets octets.isEmpty).run c₁ with ⟨error | ⟨⟩, c₂⟩
  · have hon' : (writeData world id octets octets.isEmpty).run { t with connection := c₁ } = (.error error, { t with
        connection := c₂, waited := passedSince c₁ c₂ ++ t.waited }) := by
      simp only [writeData, Act.run] at hrun' ⊢
      rw [hrun']
    rw [hrun'] at hwrite
    rw [Act.run_bind_error hon']
    exact ⟨hgrown₁.trans hwrite, prefix_of_grown hgrown₁ hwrite (hsince ▸ hfront), fun h => by cases h⟩
  have hon' : (writeData world id octets octets.isEmpty).run { t with connection := c₁ } = (.ok (), { t with
      connection := c₂, waited := passedSince c₁ c₂ ++ t.waited }) := by
    simp only [writeData, Act.run] at hrun' ⊢
    rw [hrun']
  rw [hrun'] at hwrite
  rw [Act.run_bind_ok hon', Act.run_pure] at hwaited ⊢
  refine ⟨hgrown₁.trans hwrite, prefix_of_grown hgrown₁ hwrite (hsince ▸ hfront), fun _ => ?_⟩
  -- Nothing arrived for the application while this was sent.
  have hunborne : H2Connection.Unborne id c₁.passed c₂.passed := by
    intro entries hentries e he
    refine hwaited e (List.mem_append_left _ ?_)
    rwa [passedSince_eq hentries]
  obtain ⟨⟨⟨entries, hentries, hstill⟩, hheld⟩, stream', hstream'⟩ := H2Connection.writeData_still hrun'
    (H2Connection.Still.start (hstreams ▸ hstream) hbody hreceivable) hunborne
  obtain ⟨hbody', hreceivable'⟩ := hheld stream' hstream'
  have hpassed₂ : c₂.passed = (entries ++ passedSince c c₁) ++ c.passed := by
    rw [List.append_assoc, ← passedSince_append hgrown₁, hentries]
  refine ⟨⟨stream', hstream', hreceivable' rfl, hbody'⟩, ?_, ?_⟩
  · rw [passedSince_eq hpassed₂, brought_append, brought_still hstill, List.append_nil, hsince]
    exact ht.written
  · rw [passedSince_eq hpassed₂, hsince]
    intro e he
    rcases List.mem_append.1 he with he | he
    · exact ends_still (hstill e he)
    · exact ht.unended e he

/-! ## Runs -/

/-- The records of a tunnel only grow. -/
def Onward (t t' : H2Tunnel) : Prop := t.connection.passed <:+ t'.connection.passed ∧ t.waited <:+ t'.waited

theorem Onward.refl (t : H2Tunnel) : Onward t t := ⟨List.suffix_refl _, List.suffix_refl _⟩

theorem Onward.trans {t₁ t₂ t₃ : H2Tunnel} (h : Onward t₁ t₂) (h' : Onward t₂ t₃) : Onward t₁ t₃ :=
  ⟨h.1.trans h'.1, h.2.trans h'.2⟩

theorem onward_bind {α β : Type} {m : Act H2Tunnel Error α} {f : α → Act H2Tunnel Error β} (hm : Act.Keeps Onward m)
    (hf : ∀ a, Act.Keeps Onward (f a)) : Act.Keeps Onward (m >>= f) :=
  @Act.Keeps.bind _ _ _ _ Onward Onward.trans m f hm hf

theorem onward_on {α : Type} {m : H2Connection.Step α} (h : ∀ log, H2Connection.Survives (H2Connection.Grown log) m) :
    Act.Keeps Onward (on m) := fun t => ⟨h t.connection.passed t.connection (List.suffix_refl _), List.suffix_refl _⟩

theorem onward_turn (world : World) (id : ℕ) (next : Turn) : Act.Keeps Onward (turn world id next) := by
  cases next with
  | frame taken =>
    refine onward_bind (onward_on (H2Connection.grown_relay world)) fun _ => onward_bind (fun t => ?_) fun _ =>
      onward_bind (Act.keeps_of_eq Onward.refl fun _ => rfl) fun t => ?_
    · obtain ⟨answer, written, hforward, -, -⟩ := forward_run id taken t
      rw [hforward]
      exact ⟨List.suffix_refl _, List.suffix_refl _⟩
    · split_ifs
      · exact Act.keeps_of_eq Onward.refl fun _ => rfl
      · exact onward_bind (fun t => ⟨List.suffix_refl _, List.suffix_refl _⟩) fun _ =>
          Act.keeps_of_eq Onward.refl fun _ => rfl
  | read octets =>
    refine onward_bind (onward_on fun log => (H2Connection.lasting_grown log).flushOut) fun _ =>
      onward_bind (fun t => ⟨?_, List.suffix_append _ _⟩) fun _ => Act.keeps_of_eq Onward.refl fun _ => rfl
    exact grown_writeData world id octets octets.isEmpty t.connection.passed t.connection (List.suffix_refl _)

theorem onward_driveLoop (id : ℕ) (turns : List (World × Turn)) : Act.Keeps Onward (driveLoop id turns) := by
  induction turns with
  | nil => exact Act.keeps_of_eq Onward.refl fun _ => rfl
  | cons next turns ih =>
    refine onward_bind (onward_turn next.1 id next.2) fun follows => ?_
    split_ifs
    · exact ih
    · exact Act.keeps_of_eq Onward.refl fun _ => rfl

/-- One turn, of either kind. -/
theorem turn_outcome {id : ℕ} {c : H2Connection} {t : H2Tunnel} (hgrown : c.passed <:+ t.connection.passed)
    (ht : Forwarded id c t) (world : World) (next : Turn)
    (hwaited : ∀ e ∈ ((turn world id next).run t).2.waited, e.bears id = false)
    (hoverlooked : .overlooked id ∉ ((turn world id next).run t).2.connection.passed) :
    Outcome id c ((turn world id next).run t) := by
  cases next with
  | frame taken => exact frame_outcome hgrown ht world taken hoverlooked
  | read octets => exact read_outcome hgrown ht world octets hwaited

theorem driveLoop_outcome {id : ℕ} {c : H2Connection} (turns : List (World × Turn)) {t : H2Tunnel}
    (hgrown : c.passed <:+ t.connection.passed) (ht : Forwarded id c t)
    (hwaited : ∀ e ∈ ((driveLoop id turns).run t).2.waited, e.bears id = false)
    (hoverlooked : .overlooked id ∉ ((driveLoop id turns).run t).2.connection.passed) :
    Outcome id c ((driveLoop id turns).run t) := by
  induction turns generalizing t with
  | nil => exact ⟨hgrown, ht.written ▸ List.prefix_refl _, fun _ => ht⟩
  | cons next turns ih =>
    obtain ⟨world, next⟩ := next
    rcases hrun : (turn world id next).run t with ⟨error | follows, t₁⟩
    · rw [driveLoop, Act.run_bind_error hrun] at hwaited hoverlooked ⊢
      have hturn := turn_outcome hgrown ht world next (by rwa [hrun]) (by rwa [hrun])
      rw [hrun] at hturn
      exact ⟨hturn.grown, hturn.written, fun h => by cases h⟩
    · rw [driveLoop, Act.run_bind_ok hrun] at hwaited hoverlooked ⊢
      -- What is in the record after this turn is there in the end.
      have honward : Onward t₁ ((if follows = true then driveLoop id turns else pure false).run t₁).2 := by
        split_ifs
        · exact onward_driveLoop id turns t₁
        · exact Onward.refl t₁
      have hturn := turn_outcome hgrown ht world next
        (by rw [hrun]; exact fun e he => hwaited e (honward.2.subset he))
        (by rw [hrun]; exact fun h => hoverlooked (honward.1.subset h))
      rw [hrun] at hturn
      split_ifs at hwaited hoverlooked ⊢ with hfollows
      · exact ih hturn.grown (hturn.waiting (congrArg _ hfollows)) hwaited hoverlooked
      · exact ⟨hturn.grown, hturn.written, fun h => by cases h⟩

/-- Two states with the same streams. -/
def SameStreams (c c' : H2Connection) : Prop := c'.streams = c.streams

theorem sameStreams_bind {α β : Type} {m : H2Connection.Step α} {f : α → H2Connection.Step β}
    (hm : Act.Keeps SameStreams m) (hf : ∀ a, Act.Keeps SameStreams (f a)) : Act.Keeps SameStreams (m >>= f) :=
  @Act.Keeps.bind _ _ _ _ SameStreams (fun h h' => Eq.trans h' h) m f hm hf

theorem sameStreams_flushOut : Act.Keeps SameStreams H2Connection.flushOut := by
  intro c
  simp only [SameStreams, H2Connection.flushOut, Act.run]
  split_ifs
  · rfl
  · split <;> rfl

theorem sameStreams_fatal {α : Type} {m : H2Connection.Step α} (h : Act.Keeps SameStreams m) :
    Act.Keeps SameStreams (H2Connection.fatal m) := by
  intro c
  have hm := h c
  simp only [H2Connection.fatal, Act.run]
  rcases hrun : m c with ⟨error | a, c'⟩
  · rwa [Act.run, hrun] at hm
  · rwa [Act.run, hrun] at hm

theorem sameStreams_exchangePreface : Act.Keeps SameStreams H2Connection.exchangePreface := by
  refine sameStreams_bind (fun _ => rfl) fun c => ?_
  split_ifs
  · exact fun _ => rfl
  · exact sameStreams_bind (fun _ => rfl) fun _ => sameStreams_bind (fun _ => rfl) fun _ _ => rfl

/-- Starting opens no stream and drops none. -/
theorem sameStreams_start : Act.Keeps SameStreams H2Connection.start := by
  refine sameStreams_bind (fun _ => rfl) fun c => ?_
  split_ifs
  · exact fun _ => rfl
  · exact sameStreams_fatal <| sameStreams_bind (fun _ => rfl) fun _ => sameStreams_bind sameStreams_exchangePreface fun _ =>
      sameStreams_bind (fun _ => rfl) fun _ => sameStreams_bind (fun _ => rfl) fun _ =>
        sameStreams_bind (fun _ => rfl) fun _ => sameStreams_flushOut

/-- In every run of a tunnel over a stream that the peer may still send on and that holds nothing, if
    no frame for it is acted on while something is sent and no informational response ends it: what
    the application was written is the front of what was taken up on the stream; and whenever the
    next turn is waited for, it is all of that, the stream holds nothing, and the peer has not
    ended it. -/
theorem drive_forwards {c : H2Connection} {id : ℕ} {stream : H2Stream} (hstream : c.streams.lookup id = some stream)
    (hreceivable : stream.state.receivable = true) (hbody : stream.body = []) (turns : List (World × Turn)) :
    let r := (drive id turns).run (.new c)
    (∀ e ∈ r.2.waited, e.bears id = false) → .overlooked id ∉ r.2.connection.passed →
      r.2.written <+: brought id (passedSince c r.2.connection) ∧ (r.1 = .ok true → Forwarded id c r.2) := by
  intro r hwaited hoverlooked
  have hstart := (H2Connection.lasting_still id true c.passed).start c (.start hstream hbody hreceivable)
  have hgrown := (H2Connection.lasting_grown c.passed).start c (List.suffix_refl _)
  have hsame : SameStreams c (H2Connection.start.run c).2 := sameStreams_start c
  rcases hrun : H2Connection.start.run c with ⟨error | ⟨⟩, c₁⟩
  · have hon : (on H2Connection.start).run (.new c) = (.error error, { new c with connection := c₁ }) := by
      simp only [on, Act.run] at hrun ⊢
      rw [new, hrun]
    have hr : r = (.error error, { new c with connection := c₁ }) := Act.run_bind_error hon _
    rw [hr]
    exact ⟨List.nil_prefix, fun h => by cases h⟩
  have hon : (on H2Connection.start).run (.new c) = (.ok (), { new c with connection := c₁ }) := by
    simp only [on, Act.run] at hrun ⊢
    rw [new, hrun]
  have hr : r = (driveLoop id turns).run { new c with connection := c₁ } := Act.run_bind_ok hon _
  rw [hrun] at hstart hgrown hsame
  obtain ⟨⟨entries, hentries, hstill⟩, hheld⟩ := hstart
  have hstream₁ : c₁.streams.lookup id = some stream := hsame ▸ hstream
  have hforwarded : Forwarded id c { new c with connection := c₁ } := by
    refine ⟨⟨stream, hstream₁, hreceivable, hbody⟩, ?_, ?_⟩
    · rw [passedSince_eq hentries, brought_still hstill]
      rfl
    · rw [passedSince_eq hentries]
      exact fun e he => ends_still (hstill e he)
  rw [hr] at hwaited hoverlooked ⊢
  have hgrown₁ : c.passed <:+ c₁.passed := hgrown
  have houtcome := driveLoop_outcome turns hgrown₁ hforwarded hwaited hoverlooked
  exact ⟨houtcome.written, houtcome.waiting⟩

/-- A client asks for a tunnel, lets two octets be sent, and writes one to it itself before it lets
    more be. -/
def tunnelled : Source Error UInt8 where
  data := PREFACE ++ (Frame.settings false [(Settings.INITIAL_WINDOW_SIZE, 2)]).encode ++
    -- `:method: CONNECT` and `:authority: a`, as literals.
    (Frame.headers 1 false true [2, 7, 67, 79, 78, 78, 69, 67, 84, 1, 1, 97]).encode
  eof := false
  reads := [.ok ((Frame.data 1 false [97]).encode ++ (Frame.windowUpdate 1 4).encode)]

/-- The connection once the tunnel was granted. -/
def granted : H2Connection :=
  H2Connection.after [(.bare, .receive), (.bare, .send { Message.response 200 .v2_0 with streamId := some 1 })]
    (H2Connection.configured tunnelled ⟨[], []⟩ .origin .default ⟨none⟩ ⟨none⟩ true)

theorem granted_open : ∃ stream, granted.streams.lookup 1 = some stream ∧ stream.state.receivable = true ∧ stream.body = [] := by
  have hany : (granted.streams.lookup 1).any (fun stream => stream.state.receivable && stream.body.isEmpty) = true := by
    decide +kernel
  obtain ⟨stream, hstream, hopen⟩ := (Option.any_eq_true _ _).1 hany
  rw [Bool.and_eq_true] at hopen
  exact ⟨stream, hstream, hopen.1, List.isEmpty_iff.1 hopen.2⟩

/-- The octet is written where it is read before anything is sent. -/
theorem drive_forwards_first :
    Forwarded 1 granted ((drive 1 [(.bare, .frame none), (.bare, .frame none), (.bare, .read [1, 2, 3])]).run (.new granted)).2 := by
  obtain ⟨stream, hstream, hreceivable, hbody⟩ := granted_open
  have hrun : let r := (drive 1 [(.bare, .frame none), (.bare, .frame none), (.bare, .read [1, 2, 3])]).run (.new granted)
      (∀ e ∈ r.2.waited, e.bears 1 = false) ∧ .overlooked 1 ∉ r.2.connection.passed ∧ r.1 = .ok true := by
    decide +kernel
  exact (drive_forwards hstream hreceivable hbody _ hrun.1 hrun.2.1).2 hrun.2.2

/-- It is held back where three octets are sent first, of which the third has to wait: the next turn is
    waited for while it is. -/
theorem octets_held_back :
    let r := (drive 1 [(.bare, .read [1, 2, 3])]).run (.new granted)
    r.1 = .ok true ∧ r.2.written = [] ∧ brought 1 (passedSince granted r.2.connection) = [97] ∧
      held 1 r.2.connection = [97] := by
  decide +kernel

end H2Tunnel

end Soyokaze

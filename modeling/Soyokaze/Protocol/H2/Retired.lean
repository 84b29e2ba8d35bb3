import Soyokaze.Protocol.H2.Lasting
import Soyokaze.Protocol.H2.Windows

/-!
# Closed streams are dropped

A stream that both ends have finished counts against the ceiling on streams as long
as it is held, so every step that closes one drops it. One step does not: where the
peer closes a stream on which no message is held, nothing is taken off the stream,
and so nothing drops it. `Passed.unattended` records it.

* `closed_dropped`: in a run in which that never comes to pass, no stream is left
  closed, neither in the end nor after any frame on the way, but for those whose
  reset is still to go out;
* `refused_tunnel_lingers`: a CONNECT request that was refused, and whose client then
  ends its side, leaves one behind.
-/

namespace Soyokaze

open H2

namespace H2

/-- Whether an entry is of anything but a stream that was closed unattended. -/
def Passed.attended : Passed → Bool
  | unattended _ => false
  | _ => true

/-- The peer closed no stream that no message was held on. -/
def Attended (log : List Passed) : Prop := ∀ e ∈ log, e.attended = true

instance (log : List Passed) : Decidable (Attended log) := inferInstanceAs (Decidable (∀ e ∈ log, e.attended = true))

theorem Attended.of_cons {e : Passed} {log : List Passed} (h : Attended (e :: log)) : Attended log :=
  fun e' he' => h e' (List.mem_cons_of_mem _ he')

end H2

namespace H2Connection

/-- No stream is closed but those whose reset is still to go out, where `id` is not asked about. -/
def CleanBut (id : Option ℕ) (c : H2Connection) : Prop :=
  ∀ other stream, some other ≠ id → c.streams.lookup other = some stream → stream.state = .closed →
    stream.pendingReset ≠ none ∧ c.resets = true

theorem mem_lingering {c : H2Connection} {id : ℕ} : id ∈ c.lingering ↔ ∃ stream, c.streams.lookup id = some stream ∧
    stream.state = .closed ∧ (stream.pendingReset = none ∨ c.resets = false) := by
  rw [lingering, List.mem_filterMap]
  constructor
  · rintro ⟨⟨other, stream⟩, hentry, h⟩
    split_ifs at h with hclosed
    cases h
    exact ⟨stream, AList.mem_lookup_iff.2 hentry, hclosed⟩
  · rintro ⟨stream, hstream, hclosed⟩
    exact ⟨⟨id, stream⟩, AList.mem_lookup_iff.1 hstream, if_pos hclosed⟩

theorem lingering_eq_nil {c : H2Connection} : c.lingering = [] ↔ CleanBut none c := by
  rw [List.eq_nil_iff_forall_not_mem]
  constructor
  · intro h id stream _ hstream hclosed
    have hnot := mt mem_lingering.2 (h id)
    constructor
    · exact fun hpending => hnot ⟨stream, hstream, hclosed, .inl hpending⟩
    · exact Bool.of_not_eq_false fun hresets => hnot ⟨stream, hstream, hclosed, .inr hresets⟩
  · intro h id hmem
    obtain ⟨stream, hstream, hclosed, hpending⟩ := mem_lingering.1 hmem
    obtain ⟨hsome, hresets⟩ := h id stream (by simp) hstream hclosed
    rcases hpending with hnone | hfalse
    · exact hsome hnone
    · rw [hfalse] at hresets
      cases hresets

/-- Nothing is left closed, and nothing was after any frame. -/
structure Dropped (c : H2Connection) : Prop where
  clean : CleanBut none c
  handled : ∀ frame ids, .handled frame ids ∈ c.passed → ids = []

/-- As long as no stream was closed unattended, nothing is left closed. -/
def Tidy (c : H2Connection) : Prop := Attended c.passed → Dropped c

/-- Changing a stream otherwise than in what it is closed by. -/
theorem tidy_modify {c : H2Connection} {id : ℕ} {f : H2Stream → H2Stream}
    (hf : ∀ stream, ((f stream).state = .closed → stream.state = .closed) ∧ (f stream).pendingReset = stream.pendingReset)
    (h : Tidy c) : Tidy { c with streams := StreamMap.modify c.streams id f } := by
  intro hattended
  obtain ⟨hclean, hhandled⟩ := h hattended
  refine ⟨fun other stream hother hstream hclosed => ?_, hhandled⟩
  rw [StreamMap.lookup_modify] at hstream
  split_ifs at hstream
  · obtain ⟨stream, hlookup, rfl⟩ := Option.map_eq_some_iff.1 hstream
    rw [(hf stream).2]
    exact hclean other stream hother hlookup ((hf stream).1 hclosed)
  · exact hclean other stream hother hstream hclosed

/-- Recording anything but that a frame was acted on. -/
theorem tidy_note {c : H2Connection} {e : Passed} (he : ∀ frame ids, e ≠ .handled frame ids) (h : Tidy c) :
    Tidy { c with passed := e :: c.passed } := by
  intro hattended
  obtain ⟨hclean, hhandled⟩ := h hattended.of_cons
  refine ⟨hclean, fun frame ids hmem => ?_⟩
  rcases List.mem_cons.1 hmem with heq | hmem
  · exact absurd heq.symm (he frame ids)
  · exact hhandled frame ids hmem

theorem lasting_tidy : Lasting Tidy where
  congr hstreams hresets hpassed _ h := by
    rw [Tidy, hpassed]
    intro hattended
    obtain ⟨hclean, hhandled⟩ := h hattended
    refine ⟨fun id stream hid hstream => ?_, fun frame ids hmem => hhandled frame ids (by rwa [hpassed] at hmem)⟩
    rw [hstreams] at hstream
    rw [hresets]
    exact hclean id stream hid hstream
  note {c e} he h := tidy_note (fun frame ids heq => by rw [heq] at he; cases he) h
  insert {c} id windowLocal windowRemote h hattended := by
    obtain ⟨hclean, hhandled⟩ := h hattended
    refine ⟨fun other stream hother hstream hclosed => ?_, hhandled⟩
    by_cases heq : other = id
    · subst heq
      rw [AList.lookup_insert] at hstream
      cases hstream
      cases hclosed
    · rw [AList.lookup_insert_ne heq] at hstream
      exact hclean other stream hother hstream hclosed
  erase {c} id h hattended := by
    obtain ⟨hclean, hhandled⟩ := h hattended
    refine ⟨fun other stream hother hstream => hclean other stream hother ?_, hhandled⟩
    by_cases heq : other = id
    · subst heq
      rw [AList.lookup_erase] at hstream
      cases hstream
    · rwa [AList.lookup_erase_ne heq] at hstream
  modify {c f} id hf h := tidy_modify (fun stream => ⟨(hf stream).closed_iff.1, (hf stream).pendingReset⟩) h
  mapValues {c f} hf h hattended := by
    obtain ⟨hclean, hhandled⟩ := h hattended
    refine ⟨fun other stream hother hstream hclosed => ?_, hhandled⟩
    rw [StreamMap.lookup_mapValues] at hstream
    obtain ⟨stream, hlookup, rfl⟩ := Option.map_eq_some_iff.1 hstream
    rw [(hf stream).pendingReset]
    exact hclean other stream hother hlookup ((hf stream).closed_iff.1 hclosed)

/-! ## The steps that close a stream -/

theorem note_run (e : Passed) (c : H2Connection) : (note e).run c = (.ok (), { c with passed := e :: c.passed }) := rfl

theorem modifyStream_run (id : ℕ) (f : H2Stream → H2Stream) (c : H2Connection) :
    (modifyStream id f).run c = (.ok (), { c with streams := StreamMap.modify c.streams id f }) := rfl

theorem CleanBut.of_none {c : H2Connection} (h : CleanBut none c) (id : Option ℕ) : CleanBut id c :=
  fun other stream _ => h other stream (by simp)

/-- Whatever becomes of one stream, the others are as clean as they were. -/
theorem CleanBut.modify {c : H2Connection} {id : ℕ} (h : CleanBut (some id) c) (f : H2Stream → H2Stream) :
    CleanBut (some id) { c with streams := StreamMap.modify c.streams id f } := by
  intro other stream hother hstream
  have hne : other ≠ id := fun heq => hother (congrArg some heq)
  rw [StreamMap.lookup_modify, if_neg hne] at hstream
  exact h other stream hother hstream

/-- What is held after a stream was dropped where it is closed. -/
theorem retire_run (id : ℕ) (c : H2Connection) : ∃ streams : StreamMap H2Stream,
    (retire id).run c = (.ok (), { c with streams := streams }) ∧ ∀ other stream, streams.lookup other = some stream →
      c.streams.lookup other = some stream ∧ (other = id → stream.state ≠ .closed) := by
  simp only [H2Connection.retire, Act.run_modify]
  split
  · next stream hid =>
    split_ifs with hclosed
    · refine ⟨c.streams.erase id, rfl, fun other stream' hstream => ?_⟩
      by_cases heq : other = id
      · rw [heq, AList.lookup_erase] at hstream
        cases hstream
      · rw [AList.lookup_erase_ne heq] at hstream
        exact ⟨hstream, fun h => absurd h heq⟩
    · refine ⟨c.streams, rfl, fun other stream' hstream => ⟨hstream, fun heq => ?_⟩⟩
      rw [heq, hid] at hstream
      cases hstream
      exact hclosed
  · next hid =>
    refine ⟨c.streams, rfl, fun other stream' hstream => ⟨hstream, fun heq => ?_⟩⟩
    rw [heq, hid] at hstream
    cases hstream

/-- Dropping the one stream that may be closed leaves none. -/
theorem Dropped.retire {c : H2Connection} {id : ℕ} (h : CleanBut (some id) c)
    (hhandled : ∀ frame ids, .handled frame ids ∈ c.passed → ids = []) : Dropped ((retire id).run c).2 := by
  obtain ⟨streams, hrun, hheld⟩ := retire_run id c
  rw [hrun]
  refine ⟨fun other stream _ hstream hclosed => ?_, hhandled⟩
  obtain ⟨hstream, hopen⟩ := hheld other stream hstream
  exact h other stream (fun heq => hopen (Option.some.inj heq) hclosed) hstream hclosed

/-- Where the peer ends a stream, it is dropped with the message it held; and it is recorded where
    there was none. -/
theorem tidy_complete (id : ℕ) (endStream : Bool) : Survives Tidy (complete id endStream) := by
  intro c hc
  rw [complete, Act.run_bind_ok (modifyStream_run id _ c), Act.run_bind_ok (Act.run_get _)]
  -- Only this stream was changed, so whatever is left closed is it.
  generalize hf : (fun stream : H2Stream =>
    if endStream = true then { stream with state := stream.state.closeRemote } else stream) = f
  have hbut : Attended c.passed →
      CleanBut (some id) { c with streams := StreamMap.modify c.streams id f } := fun h =>
    ((hc h).clean.of_none (some id)).modify f
  dsimp only
  split
  · next hnone =>
    rw [Act.run_pure]
    intro hattended
    refine ⟨fun other stream _ hstream => hbut hattended other stream (fun heq => ?_) hstream, (hc hattended).handled⟩
    rw [Option.some.inj heq, hnone] at hstream
    cases hstream
  · next stream hstream =>
    split
    · by_cases hclosed : stream.state = .closed
      · intro hattended
        rw [noteIf, if_pos (by simpa using hclosed), Act.run_bind_ok (note_run _ _)] at hattended
        exact absurd (hattended _ List.mem_cons_self) Bool.false_ne_true
      · rw [noteIf, if_neg (by simpa using hclosed), Act.run_bind_ok (Act.run_pure _ _), Act.run_pure]
        intro hattended
        refine ⟨fun other stream' _ hstream' hclosed' => hbut hattended other stream' (fun heq => ?_) hstream' hclosed',
          (hc hattended).handled⟩
        rw [Option.some.inj heq, hstream] at hstream'
        cases hstream'
        exact hclosed hclosed'
    · rw [Act.run_bind_ok (modifyStream_run id _ _)]
      obtain ⟨streams, hretire, -⟩ := retire_run id { c with
        streams := StreamMap.modify (StreamMap.modify c.streams id f) id fun stream =>
          { stream with headers := none, body := [] } }
      rw [Act.run_bind_ok hretire, Act.run_pure]
      intro hattended
      have hdropped := Dropped.retire ((hbut hattended).modify fun stream => { stream with headers := none, body := [] })
        (hc hattended).handled
      rwa [hretire] at hdropped

theorem tidy_absorbData (id : ℕ) (endStream : Bool) (data : Octets) : Survives Tidy (absorbData id endStream data) := by
  have hhold : Survives Tidy (holdData id data) :=
    Survives.holdData (fun _ h hattended => ⟨(h hattended).clean, (h hattended).handled⟩) fun _ =>
      tidy_modify fun _ => ⟨fun h => h, rfl⟩
  refine hhold.bind fun _ => Survives.bind (fun _ => tidy_note fun _ _ => Passed.noConfusion) fun _ =>
    (lasting_tidy.restoreStream id _).bind fun _ => ?_
  split_ifs
  · exact tidy_complete id true
  · exact Survives.pure _

/-- Where this end finishes a stream, it is dropped if the peer has too. -/
theorem tidy_finishSending (id : ℕ) (m : Message) (open' : Bool) : Survives Tidy (finishSending id m open') := by
  intro c hc
  rw [finishSending, Act.run_bind_ok (modifyStream_run id _ c)]
  generalize (fun stream : H2Stream => { stream with
    state := if open' then stream.state else stream.state.closeLocal
    method := if m.isRequest then m.method else stream.method }) = f
  obtain ⟨streams, hretire, -⟩ := retire_run id { c with streams := StreamMap.modify c.streams id f }
  rw [hretire]
  intro hattended
  have hdropped := Dropped.retire (((hc hattended).clean.of_none (some id)).modify f) (hc hattended).handled
  rwa [hretire] at hdropped

/-- Marking a stream closes it, and has a reset go out for it. -/
theorem tidy_mark (id code : ℕ) : Survives Tidy (mark id code) := by
  intro c hc
  rw [mark, Act.run_modify]
  split_ifs
  · intro hattended
    obtain ⟨hclean, hhandled⟩ := hc hattended
    refine ⟨fun other stream hother hstream hclosed => ⟨?_, rfl⟩, hhandled⟩
    simp only [StreamMap.lookup_modify] at hstream
    split_ifs at hstream
    · obtain ⟨_, -, rfl⟩ := Option.map_eq_some_iff.1 hstream
      exact Option.some_ne_none code
    · exact (hclean other stream hother hstream hclosed).1
  · exact hc

/-- What is held after so many streams were reset. -/
theorem resetAll_run (pending : List (ℕ × ℕ)) (c : H2Connection) : ∃ c', (resetAll pending).run c = (.ok (), c') ∧
    c'.passed = (pending.map fun entry => Passed.sent (.rstStream entry.1 entry.2)).reverse ++ c.passed ∧
    ∀ id stream, c'.streams.lookup id = some stream → c.streams.lookup id = some stream ∧
      ∀ entry ∈ pending, entry.1 ≠ id := by
  induction pending generalizing c with
  | nil => exact ⟨c, rfl, rfl, fun id stream hstream => ⟨hstream, fun _ h => absurd h List.not_mem_nil⟩⟩
  | cons entry pending ih =>
    obtain ⟨id, code⟩ := entry
    obtain ⟨c', hrun, hpassed, hheld⟩ := ih { c with
      streams := c.streams.erase id
      out := c.out ++ (Frame.rstStream id code).encode
      passed := .sent (.rstStream id code) :: c.passed }
    refine ⟨c', hrun, ?_, fun other stream hstream => ?_⟩
    · rw [hpassed, List.map_cons, List.reverse_cons, List.append_assoc]
      rfl
    · obtain ⟨hlookup, hpending⟩ := hheld other stream hstream
      have hne : other ≠ id := by
        rintro rfl
        rw [AList.lookup_erase] at hlookup
        cases hlookup
      rw [AList.lookup_erase_ne hne] at hlookup
      refine ⟨hlookup, fun entry hentry => ?_⟩
      rcases List.mem_cons.1 hentry with rfl | hentry
      · exact hne.symm
      · exact hpending entry hentry

/-- Every stream that waited for its reset is dropped once that goes out. -/
theorem tidy_flushResets : Survives Tidy flushResets := by
  intro c hc
  rw [flushResets, Act.run_bind_ok (Act.run_get c)]
  split_ifs
  · obtain ⟨c', hrun, hpassed, hheld⟩ := resetAll_run c.pendingResets { c with resets := false }
    rw [Act.run_bind_ok (Act.run_modify _ c), hrun]
    have hmem : ∀ e, (∀ frame, e ≠ Passed.sent frame) → (e ∈ c'.passed ↔ e ∈ c.passed) := by
      intro e he
      rw [hpassed, List.mem_append, List.mem_reverse, List.mem_map]
      exact or_iff_right fun ⟨entry, _, hsent⟩ => he _ hsent.symm
    intro hattended
    obtain ⟨hclean, hhandled⟩ := hc fun e he => by
      by_cases hsent : ∃ frame, e = .sent frame
      · obtain ⟨frame, rfl⟩ := hsent
        rfl
      · exact hattended e ((hmem e fun frame h => hsent ⟨frame, h⟩).2 he)
    refine ⟨fun id stream hid hstream hclosed => ?_, fun frame ids h =>
      hhandled frame ids ((hmem _ fun _ => Passed.noConfusion).1 h)⟩
    -- A closed stream waited for its reset, and those that did are gone.
    obtain ⟨hlookup, hpending⟩ := hheld id stream hstream
    obtain ⟨code, hcode⟩ := Option.ne_none_iff_exists'.1 (hclean id stream hid hlookup hclosed).1
    refine absurd rfl (hpending (id, code) (List.mem_filterMap.2 ⟨⟨id, stream⟩, AList.mem_lookup_iff.1 hlookup, ?_⟩))
    simp only [hcode, Option.map_some]
  · exact hc

/-! ## Runs -/

theorem tidy_handle (world : World) (frame : Frame) : Survives Tidy (handle world frame) :=
  lasting_tidy.handle world (fun id endStream _ _ _ => tidy_complete id endStream)
    fun id endStream data _ => tidy_absorbData id endStream data

/-- What is recorded of a frame that was acted on is that nothing was left closed. -/
theorem tidy_act (world : World) (frame : Frame) : Survives Tidy (act world frame) := by
  refine (tidy_handle world frame).bind fun m => Act.keeps_get_bind fun c hc hattended => ?_
  rw [Act.run_bind_ok (note_run _ c), Act.run_pure] at hattended ⊢
  obtain ⟨hclean, hhandled⟩ := hc hattended.of_cons
  refine ⟨hclean, fun frame ids hmem => ?_⟩
  rcases List.mem_cons.1 hmem with heq | hmem
  · cases heq
    exact lingering_eq_nil.2 hclean
  · exact hhandled frame ids hmem

theorem tidy_pump (world : World) : Survives Tidy (pump world) :=
  lasting_tidy.fatal <| lasting_tidy.start.bind fun _ => tidy_flushResets.bind fun _ => lasting_tidy.readFrame.bind fun _ =>
    (tidy_act world _).bind fun _ => lasting_tidy.flushIfDrained.bind fun _ => Survives.pure _

theorem tidy_relay (world : World) : Survives Tidy (relay world) :=
  lasting_tidy.fatal <| lasting_tidy.flushOut.bind fun _ => lasting_tidy.readFrame.bind fun _ => tidy_act world _

theorem tidy_perform (world : World) (event : Event) : Survives Tidy (perform world event) := by
  cases event with
  | receive => exact Act.Keeps.map (lasting_tidy.receiveMessage (tidy_pump world)) _
  | send m => exact Act.Keeps.map (lasting_tidy.sendMessage (tidy_pump world) tidy_flushResets tidy_finishSending m) _
  | pump => exact tidy_pump world
  | relay => exact tidy_relay world
  | writeData id data endStream => exact Act.Keeps.map (lasting_tidy.writeData (tidy_pump world) id data endStream) _
  | reset id code => exact Act.Keeps.map (lasting_tidy.reset id code) _
  | mark id code => exact Act.Keeps.map (tidy_mark id code) _
  | drain id => exact Act.Keeps.map (lasting_tidy.drain id) _
  | close => exact Act.Keeps.map lasting_tidy.close _

theorem tidy_after (events : List (World × Event)) {c : H2Connection} (hc : Tidy c) : Tidy (after events c) := by
  induction events generalizing c with
  | nil => exact hc
  | cons event events ih =>
    rw [after]
    split_ifs
    · exact hc
    · exact ih (tidy_perform event.1 event.2 c hc)

/-- In every run in which the peer closes no stream that no message is held on, nothing is left
    closed, neither in the end nor after any frame that was acted on. -/
theorem closed_dropped (source : Source Error UInt8) (sink : Sink) (role : Role) (limits : H2Limits)
    (requestFinalizer : RequestFinalizer) (responseFinalizer : ResponseFinalizer) (secure : Bool)
    (events : List (World × Event)) :
    let c := after events (configured source sink role limits requestFinalizer responseFinalizer secure)
    Attended c.passed → c.lingering = [] ∧ ∀ frame ids, .handled frame ids ∈ c.passed → ids = [] := by
  intro c hattended
  have hinit : Tidy (configured source sink role limits requestFinalizer responseFinalizer secure) := fun _ =>
    ⟨fun _ _ _ hstream => (by cases hstream), fun _ _ hmem => absurd hmem List.not_mem_nil⟩
  obtain ⟨hclean, hhandled⟩ := tidy_after events hinit hattended
  exact ⟨lingering_eq_nil.2 hclean, hhandled⟩

/-- A client asks for a tunnel, and ends its side of the stream before or after it is refused. -/
def refusable : Source Error UInt8 where
  data := PREFACE ++ (Frame.settings false []).encode ++
    -- `:method: CONNECT` and `:authority: a`, as literals.
    (Frame.headers 1 false true [2, 7, 67, 79, 78, 78, 69, 67, 84, 1, 1, 97]).encode ++ (Frame.data 1 true []).encode
  eof := false
  reads := []

def refusal : Message := { Message.response 403 .v2_0 with streamId := some 1 }

/-- Where it ends its side first, the refusal drops the stream. -/
theorem closed_dropped_refused :
    (after [(.bare, .receive), (.bare, .pump), (.bare, .send refusal)]
      (configured refusable ⟨[], []⟩ .origin .default ⟨none⟩ ⟨none⟩ true)).lingering = [] :=
  (closed_dropped refusable ⟨[], []⟩ .origin .default ⟨none⟩ ⟨none⟩ true _ (by decide +kernel)).1

/-- Where it is refused first, the frame that ends its side leaves the stream closed and held. -/
theorem refused_tunnel_lingers :
    let c := after [(.bare, .receive), (.bare, .send refusal), (.bare, .pump)]
      (configured refusable ⟨[], []⟩ .origin .default ⟨none⟩ ⟨none⟩ true)
    ¬c.Failed ∧ c.lingering = [1] ∧ .handled (.data 1 true []) [1] ∈ c.passed :=
  by decide +kernel

end H2Connection

end Soyokaze

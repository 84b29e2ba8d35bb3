import Soyokaze.Protocol.H2.Late

/-!
# Sends that fail

A send may fail before anything of its message is queued. What it did until then it does
not undo.

* `restores_iff`: it leaves the streams and the encoder as they were where no marked
  stream is reset on the way and the message, if it cannot be framed, names its stream.
-/

namespace Soyokaze

open H2

namespace H2

/-- Whether a frame is a part of a message. -/
def Frame.ofMessage : Frame → Bool
  | headers .. | continuation .. | data .. => true
  | _ => false

/-- Whether a part of a message was queued. -/
def Passed.ofMessage : Passed → Bool
  | sent frame => frame.ofMessage
  | _ => false

end H2

namespace H2Connection

variable {α β : Type} {c c' c₁ : H2Connection} {id : ℕ} {world : World}

/-- How many frames of messages were queued. -/
def messageFrames (c : H2Connection) : ℕ := c.passed.countP Passed.ofMessage

/-- Where a send of the message fails before a frame of it was queued, the streams, and so how many there are, and
    the encoder are as they were. -/
def Restores (world : World) (m : Message) (c : H2Connection) : Prop := ∀ error c',
  (sendMessage world m).run c = (.error error, c') → c'.messageFrames = c.messageFrames →
    c'.streams = c.streams ∧ c'.hpackEncoder = c.hpackEncoder

/-! ## What comes before -/

/-- Whether the peer of a server begins as it should. A client's is not asked to. -/
def Greeted (c : H2Connection) : Prop := c.role.isClient = true ∨
  (c.source.await (fun data => if PREFACE.length ≤ data.length then some (.ok (data.take PREFACE.length)) else none)
    (.error .closed)).1 = .ok PREFACE

/-- What a connection opens with. -/
def opening (c : H2Connection) : Octets :=
  (if c.role.isClient then c.out ++ PREFACE else c.out) ++ (Frame.settings false c.settingsLocal.parameters).encode

/-- Whether the connection was started, or can be. -/
def Starts (c : H2Connection) : Prop := c.started = true ∨ c.Greeted ∧ (c.sink.write c.opening).1 = .ok ()

/-- The streams that are left where those that are marked are reset. -/
def unmarked (c : H2Connection) : StreamMap H2Stream :=
  if c.resets then c.pendingResets.foldl (fun streams entry => streams.erase entry.1) c.streams else c.streams

/-- The stream a message goes on, if there is one for it. -/
def berth (c : H2Connection) (m : Message) : Option H2Stream :=
  match m.streamId with
  | some id => c.unmarked.lookup id
  | none => if c.unmarked.entries.length < c.localStreamCeiling then
      some (.new c.settingsLocal.initialWindowSize c.settingsRemote.initialWindowSize)
    else none

/-- What a send is about, but for the streams. -/
structure Prospect where
  view : View
  resets : Bool
  hpackEncoder : Hpack.Encoder
  messageFrames : ℕ

def prospect (c : H2Connection) : Prospect := ⟨c.view, c.resets, c.hpackEncoder, c.messageFrames⟩

/-- Nothing changes that a send is about. -/
def Unaltered (c c' : H2Connection) : Prop := c'.prospect = c.prospect

/-- A step that changes nothing a send is about, however it ends. -/
abbrev Unaltering (m : Step α) : Prop := Act.Keeps Unaltered m

theorem Unaltering.bind {m : Step α} {f : α → Step β} (hm : Unaltering m) (hf : ∀ a, Unaltering (f a)) :
    Unaltering (m >>= f) := @Act.Keeps.bind _ _ _ _ Unaltered (fun h h' => Eq.trans h' h) m f hm hf

theorem unaltered_note {e : Passed} (hfarewell : e.farewell = none) (hframe : e.ofMessage = false) (c : H2Connection) :
    Unaltered c { c with passed := e :: c.passed } := by
  rw [Unaltered, prospect, messageFrames, List.countP_cons_of_neg (by simp [hframe]), unmoved_note hfarewell c]
  rfl

theorem unaltering_queue {frame : Frame} (hfarewell : (Passed.sent frame).farewell = none)
    (hframe : frame.ofMessage = false) : Unaltering (queue frame) :=
  fun c => Eq.trans rfl (unaltered_note hfarewell hframe c)

theorem unaltering_flushOut : Unaltering flushOut := by
  intro c
  simp only [flushOut, Act.run]
  split_ifs
  · rfl
  · split
    · rfl
    · exact unaltered_note (e := .failed) rfl rfl c

theorem unaltering_fatal {m : Step α} (h : Unaltering m) : Unaltering (fatal m) := by
  intro c
  have hkept := h c
  rcases hrun : m.run c with ⟨error | a, c'⟩ <;> rw [hrun] at hkept
  · rw [fatal_error hrun]
    exact Eq.trans (unaltered_note (e := .failed) rfl rfl c') hkept
  · rw [fatal_ok hrun]
    exact hkept

theorem unaltering_get {f : H2Connection → Step α} (h : ∀ c, Unaltering (f c)) : Unaltering (Act.get >>= f) :=
  fun c => h c c

theorem unaltering_start : Unaltering start := by
  refine unaltering_get fun c => ?_
  split_ifs
  · exact fun _ => rfl
  · have hpreface : Unaltering exchangePreface := by
      refine unaltering_get fun c => ?_
      split_ifs
      · exact fun _ => rfl
      · exact Unaltering.bind (fun _ => rfl) fun _ => Unaltering.bind (fun _ => rfl) fun _ _ => rfl
    exact unaltering_fatal <| Unaltering.bind (fun _ => rfl) fun _ => hpreface.bind fun _ =>
      Unaltering.bind (fun _ => rfl) fun _ => unaltering_get fun _ => (unaltering_queue rfl rfl).bind fun _ => unaltering_flushOut

theorem fatal_fst (m : Step α) (c : H2Connection) : ((fatal m).run c).1 = (m.run c).1 := by
  rcases hrun : m.run c with ⟨error | a, c'⟩
  · rw [fatal_error hrun]
  · rw [fatal_ok hrun]

/-- What becomes of the preface: this end queues its own, or finds its peer's. -/
theorem exchangePreface_run (c : H2Connection) : (c.Greeted → ∃ source, exchangePreface.run c =
      (.ok (), { c with source := source, out := if c.role.isClient then c.out ++ PREFACE else c.out })) ∧
    (¬c.Greeted → ∃ error, (exchangePreface.run c).1 = .error error) := by
  rw [exchangePreface, Act.run_bind_ok (Act.run_get c), Greeted]
  split_ifs with hclient
  · exact ⟨fun _ => ⟨c.source, rfl⟩, fun hnot => absurd (.inl hclient) hnot⟩
  generalize hlook : (fun data : Octets => if PREFACE.length ≤ data.length then
    (some (.ok (data.take PREFACE.length)) : Option (Except Error Octets)) else none) = look
  have hread : (reading (·.await look (.error .closed))).run c =
      ((c.source.await look (.error .closed)).1, { c with source := (c.source.await look (.error .closed)).2 }) := rfl
  rcases hcame : c.source.await look (.error .closed) with ⟨error | preface, source⟩ <;> rw [hcame] at hread
  · rw [Act.run_bind_error hread]
    exact ⟨fun hgreeted => (by cases hgreeted.resolve_left hclient), fun _ => ⟨error, rfl⟩⟩
  · rw [Act.run_bind_ok hread]
    by_cases hsame : preface = PREFACE
    · rw [Act.run_bind_demand (decide_eq_true hsame)]
      exact ⟨fun _ => ⟨_, rfl⟩, fun hnot => absurd (.inr (congrArg Except.ok hsame)) hnot⟩
    · rw [Act.run_bind_refused (decide_eq_false hsame)]
      exact ⟨fun hgreeted => absurd (Except.ok.inj (hgreeted.resolve_left hclient)) hsame, fun _ => ⟨_, rfl⟩⟩

/-- The connection starts where the transport lets it. -/
theorem start_ok_iff (c : H2Connection) : (start.run c).1 = .ok () ↔ c.Starts := by
  rw [start, Act.run_bind_ok (Act.run_get c), Starts]
  split_ifs with hstarted
  · exact iff_of_true rfl (.inl hstarted)
  rw [startUp, fatal_fst, Act.run_bind_ok (Act.run_modify _ c)]
  obtain ⟨hgreeted, hungreeted⟩ := exchangePreface_run { c with started := true }
  by_cases hpreface : c.Greeted
  · obtain ⟨source, hrun⟩ := hgreeted hpreface
    rw [Act.run_bind_ok hrun, Act.run_bind_ok (Act.run_modify _ _), Act.run_bind_ok (Act.run_get _),
      Act.run_bind_ok (show (queue _).run _ = _ from rfl)]
    have hempty : (c.opening).isEmpty = false := by
      rw [opening, List.isEmpty_eq_false_iff]
      exact List.append_ne_nil_of_right_ne_nil _ (by rw [Frame.encode]; exact List.cons_ne_nil _ _)
    have hflush (c' : H2Connection) (hout : c'.out = c.opening) (hsink : c'.sink = c.sink) :
        (flushOut.run c').1 = (c.sink.write c.opening).1 := by
      simp only [flushOut, Act.run, hout, hsink, hempty]
      rcases c.sink.write c.opening with ⟨error | _, sink⟩ <;> rfl
    refine Iff.trans (Eq.to_iff (congrArg (· = Except.ok ()) (hflush _ ?_ rfl))) ?_
    · rfl
    · exact ⟨fun hwritten => .inr ⟨hpreface, hwritten⟩, fun h => (h.resolve_left hstarted).2⟩
  · obtain ⟨error, hfails⟩ := hungreeted hpreface
    rcases hrun : exchangePreface.run { c with started := true } with ⟨error' | _, c'⟩ <;> rw [hrun] at hfails
    · rw [Act.run_bind_error hrun]
      exact ⟨fun h => (by cases h), fun h => absurd (h.resolve_left hstarted).1 hpreface⟩
    · cases hfails

/-! ## Streams that are marked -/

theorem resetAll_leaves (pending : List (ℕ × ℕ)) (c : H2Connection) : ∃ out passed, (resetAll pending).run c = (.ok (), { c with
      streams := pending.foldl (fun streams entry => streams.erase entry.1) c.streams
      out := out
      passed := passed }) ∧ passed.countP Passed.ofMessage = c.messageFrames := by
  induction pending generalizing c with
  | nil => exact ⟨c.out, c.passed, rfl, rfl⟩
  | cons entry pending ih =>
    obtain ⟨id, code⟩ := entry
    obtain ⟨out, passed, hrun, hframes⟩ := ih { c with
      streams := c.streams.erase id
      out := c.out ++ (Frame.rstStream id code).encode
      passed := .sent (.rstStream id code) :: c.passed }
    exact ⟨out, passed, hrun, hframes.trans (List.countP_cons_of_neg Bool.false_ne_true)⟩

theorem flushResets_run (c : H2Connection) : ∃ out passed, flushResets.run c = (.ok (), { c with
      resets := false
      streams := c.unmarked
      out := out
      passed := passed }) ∧ passed.countP Passed.ofMessage = c.messageFrames := by
  rw [flushResets, Act.run_bind_ok (Act.run_get c), unmarked]
  split_ifs with hresets
  · obtain ⟨out, passed, hrun, hframes⟩ := resetAll_leaves c.pendingResets { c with resets := false }
    exact ⟨out, passed, hrun, hframes⟩
  · have hsame : c = { c with resets := false } := by rw [← Bool.eq_false_iff.2 hresets]
    exact ⟨c.out, c.passed, congrArg (Prod.mk _) hsame, rfl⟩

theorem lookup_foldl_erase (pending : List (ℕ × ℕ)) {streams : StreamMap H2Stream} (hgone : streams.lookup id = none) :
    (pending.foldl (fun streams entry => streams.erase entry.1) streams).lookup id = none := by
  induction pending generalizing streams with
  | nil => exact hgone
  | cons entry pending ih =>
    refine ih ?_
    by_cases hid : id = entry.1
    · exact hid ▸ AList.lookup_erase _ _
    · exact (AList.lookup_erase_ne hid).trans hgone

/-- No stream is reset where none is marked, and else the marked ones are dropped. -/
theorem unmarked_eq_iff : c.unmarked = c.streams ↔ (c.resets = true → c.pendingResets = []) := by
  rw [unmarked]
  split_ifs with hresets
  · refine ⟨fun hsame _ => ?_, fun hnone => by rw [hnone hresets]; rfl⟩
    rcases hpending : c.pendingResets with _ | ⟨⟨id, code⟩, pending⟩
    · rfl
    -- The stream that is marked is there, and would not be left.
    obtain ⟨entry, hmem, hentry⟩ := List.mem_filterMap.1 (hpending ▸ List.mem_cons_self : (id, code) ∈ c.pendingResets)
    obtain ⟨code', -, hcode⟩ := Option.map_eq_some_iff.1 hentry
    have hid : entry.1 = id := congrArg Prod.fst hcode
    have hheld : c.streams.lookup id = some entry.2 := by
      rw [← hid]
      exact AList.mem_lookup_iff.2 hmem
    have hleft := lookup_foldl_erase pending (AList.lookup_erase id c.streams)
    rw [hpending] at hsame
    rw [show pending.foldl _ (c.streams.erase id) = c.streams from hsame, hheld] at hleft
    cases hleft
  · exact iff_of_true rfl fun h => absurd h hresets

/-! ## The send -/

/-- What a send comes upon that got as far as to look for a stream. -/
structure Poised (c c' : H2Connection) : Prop where
  streams : c'.streams = c.unmarked
  hpackEncoder : c'.hpackEncoder = c.hpackEncoder
  frames : c'.messageFrames = c.messageFrames
  next : c'.nextStreamId = c.nextStreamId
  settingsLocal : c'.settingsLocal = c.settingsLocal
  settingsRemote : c'.settingsRemote = c.settingsRemote
  limits : c'.limits = c.limits

/-- It gets there where the connection starts. -/
theorem poised_of_starts (hstarts : c.Starts) : ∃ c₁ c₂, start.run c = (.ok (), c₁) ∧ flushResets.run c₁ = (.ok (), c₂) ∧
    Poised c c₂ := by
  have hkept : Unaltered c (start.run c).2 := unaltering_start c
  have hok := (start_ok_iff c).2 hstarts
  rcases hstart : start.run c with ⟨outcome, c₁⟩
  rw [hstart] at hkept hok
  obtain ⟨out, passed, hflush, hframes⟩ := flushResets_run c₁
  have hview : c₁.view = c.view := congrArg Prospect.view hkept
  have hresets : c₁.resets = c.resets := congrArg Prospect.resets hkept
  have hstreams : c₁.streams = c.streams := congrArg View.streams hview
  refine ⟨c₁, _, Prod.ext hok rfl, hflush, ?_, congrArg Prospect.hpackEncoder hkept,
    hframes.trans (congrArg Prospect.messageFrames hkept), congrArg View.nextStreamId hview,
    congrArg View.settingsLocal hview, congrArg View.settingsRemote hview, congrArg View.limits hview⟩
  change c₁.unmarked = c.unmarked
  rw [unmarked, unmarked, pendingResets, pendingResets, hresets, hstreams]

theorem Poised.ceiling (h : Poised c c') : c'.localStreamCeiling = c.localStreamCeiling := by
  rw [localStreamCeiling, localStreamCeiling, h.settingsRemote, h.limits]

/-- A message there is no stream for is refused, and that is all. -/
theorem allocate_refused {m : Message} (hpoised : Poised c c') (hnone : c.berth m = none) :
    ∃ error, (allocate m).run c' = (.error error, c') := by
  rw [allocate, Act.run_bind_ok (Act.run_get c')]
  rw [berth, ← hpoised.streams, ← hpoised.ceiling] at hnone
  cases hid : m.streamId <;> rw [hid] at hnone
  · have hfull : ¬c'.streams.entries.length < c'.localStreamCeiling :=
      fun hroom => Option.some_ne_none _ ((if_pos hroom).symm.trans hnone)
    exact ⟨_, Act.run_bind_refused (decide_eq_false hfull) _ _ _⟩
  · exact ⟨_, Act.run_bind_refused (Option.isSome_eq_false_iff.2 (Option.isNone_iff_eq_none.2 hnone)) _ _ _⟩

/-- Any other gets the stream it names, or a new one. -/
theorem allocate_berth {m : Message} {stream : H2Stream} (hpoised : Poised c c') (hberth : c.berth m = some stream) :
    ∃ id c₁, (allocate m).run c' = (.ok id, c₁) ∧ c₁.streams.lookup id = some stream ∧
      c₁.hpackEncoder = c'.hpackEncoder ∧ c₁.messageFrames = c'.messageFrames ∧ (m.streamId ≠ none → c₁.streams = c'.streams) ∧
        (m.streamId = none → c₁.streams.lookup c.nextStreamId ≠ none) := by
  rw [allocate, Act.run_bind_ok (Act.run_get c')]
  rw [berth, ← hpoised.streams, ← hpoised.ceiling, ← hpoised.settingsLocal, ← hpoised.settingsRemote] at hberth
  cases hid : m.streamId with rw [hid] at hberth
  | none =>
    dsimp only at hberth ⊢
    split_ifs at hberth with hroom
    rw [Act.run_bind_demand (decide_eq_true hroom)]
    refine ⟨c'.nextStreamId, _, rfl, hberth ▸ AList.lookup_insert _, rfl, List.countP_cons_of_neg Bool.false_ne_true,
      fun h => absurd rfl h, fun _ hnone => ?_⟩
    rw [← hpoised.next] at hnone
    exact Option.some_ne_none _ ((AList.lookup_insert _).symm.trans hnone)
  | some id =>
    have hopen : (c'.streams.lookup id).isSome = true := Option.isSome_iff_exists.2 ⟨stream, hberth⟩
    exact ⟨id, c', Act.run_bind_demand hopen _ _ _, hberth, rfl, rfl, fun _ => rfl, fun h => (by cases h)⟩

/-- What passed stays on the record, whatever a connection does. -/
theorem lasting_record (log : List Passed) : Lasting fun c => log <:+ c.passed where
  congr _ _ hpassed _ h := hpassed ▸ h
  note _ h := h.trans (List.suffix_cons _ _)
  insert _ _ _ h := h
  erase _ h := h
  modify _ _ h := h
  mapValues _ h := h

theorem pump_record (log : List Passed) (world : World) : Survives (fun c => log <:+ c.passed) (pump world) := by
  have hlog := lasting_record log
  have hmodify (id : ℕ) (f : H2Stream → H2Stream) : Survives (fun c => log <:+ c.passed) (modifyStream id f) := fun _ h => h
  have hnote (e : Passed) : Survives (fun c => log <:+ c.passed) (note e) := fun _ h => h.trans (List.suffix_cons _ _)
  have hcomplete (id : ℕ) (endStream : Bool) : Survives (fun c => log <:+ c.passed) (complete id endStream) := by
    refine (hmodify _ _).bind fun _ => Survives.get.bind fun c => ?_
    split
    · exact Survives.pure _
    · split
      · refine Survives.bind ?_ fun _ => Survives.pure _
        rw [noteIf]
        split_ifs
        · exact hnote _
        · exact Survives.pure _
      · exact (hmodify _ _).bind fun _ => (hlog.retire id).bind fun _ => Survives.pure _
  have habsorb (id : ℕ) (endStream : Bool) (data : Octets) :
      Survives (fun c => log <:+ c.passed) (absorbData id endStream data) := by
    refine (Survives.holdData (fun _ h => h) (hmodify id _)).bind fun _ => (hnote _).bind fun _ =>
      (hlog.restoreStream id _).bind fun _ => ?_
    split_ifs
    · exact hcomplete id true
    · exact Survives.pure _
  exact hlog.fatal <| hlog.start.bind fun _ => (hlog.flushResets fun _ h => h).bind fun _ => hlog.readFrame.bind fun frame =>
    Survives.bind ((hlog.handle world (fun id endStream _ _ _ => hcomplete id endStream) fun id endStream data _ =>
      habsorb id endStream data).bind fun _ => Survives.get.bind fun _ => (hnote _).bind fun _ => Survives.pure _) fun _ =>
        hlog.flushIfDrained.bind fun _ => Survives.pure _

theorem le_messageFrames {log : List Passed} (h : log <:+ c.passed) : log.countP Passed.ofMessage ≤ c.messageFrames :=
  h.sublist.countP_le

/-- Once a message is framed, its first frame is queued. -/
theorem sendOn_framed {m : Message} {o : Outgoing} (world : World) (hcompose : compose world (c.streams.lookup id) m = .ok o) :
    c.messageFrames < ((sendOn world id m).run c).2.messageFrames := by
  have hrun : (sendOn world id m).run c = (do
      writeSection id o.fields (!o.open' && o.body.isNone && o.trailers.isNone)
      writeBody world id o.body o.trailers.isNone
      writeTrailers id o.trailers
      finishSending id o.message o.open'
      flushIfDrained : Step Unit).run c := by
    rw [sendOn, Act.run_bind_ok (Act.run_get c), hcompose]
    rfl
  have hrest (log : List Passed) (pieces : List Octets) : Survives (fun c => log <:+ c.passed) (do
      writeContinuations id pieces
      writeBody world id o.body o.trailers.isNone
      writeTrailers id o.trailers
      finishSending id o.message o.open'
      flushIfDrained : Step Unit) := by
    have hlog := lasting_record log
    refine (hlog.writeContinuations id pieces).bind fun _ => Survives.bind ?_ fun _ => (hlog.writeTrailers id _).bind fun _ =>
      Survives.bind ?_ fun _ => hlog.flushIfDrained
    · cases o.body with
      | none => exact Survives.pure _
      | some body => exact hlog.writeData (pump_record log world) id body _
    · exact Survives.bind (fun _ h => h) fun _ => hlog.retire id
  generalize hend : (!o.open' && o.body.isNone && o.trailers.isNone) = endStream at hrun
  generalize hpieces : chunks (max c.settingsRemote.maxFrameSize 1) (c.hpackEncoder.encode o.fields).2.length
    (c.hpackEncoder.encode o.fields).2 = pieces
  have hkept := hrest (.sent (.headers id endStream pieces.tail.isEmpty (pieces.headD [])) :: c.passed) pieces.tail { c with
    hpackEncoder := (c.hpackEncoder.encode o.fields).1
    out := c.out ++ (Frame.headers id endStream pieces.tail.isEmpty (pieces.headD [])).encode
    passed := .sent (.headers id endStream pieces.tail.isEmpty (pieces.headD [])) :: c.passed } (List.suffix_refl _)
  have hlater := le_messageFrames hkept
  subst hpieces
  rw [hrun]
  refine lt_of_lt_of_le ?_ hlater
  exact (Nat.lt_succ_self _).trans_eq (List.countP_cons_of_pos rfl).symm

/-- What becomes of a message: nothing where the connection does not start, and else it is refused, cannot be framed
    or is queued. -/
theorem sendMessage_cases (world : World) (m : Message) (c : H2Connection) :
    ¬c.Starts ∧ Unaltered c ((sendMessage world m).run c).2 ∨ c.Starts ∧ ∃ c₁, Poised c c₁ ∧
      match c.berth (c.finalize world m) with
      | none => ∃ error, (sendMessage world m).run c = (.error error, c₁)
      | some stream => ∃ c₂, c₂.hpackEncoder = c.hpackEncoder ∧ c₂.messageFrames = c.messageFrames ∧
          ((c.finalize world m).streamId ≠ none → c₂.streams = c.unmarked) ∧
          ((c.finalize world m).streamId = none → c₂.streams.lookup c.nextStreamId ≠ none) ∧
          match compose world (some stream) (c.finalize world m) with
          | .error error => (sendMessage world m).run c = (.error error, c₂)
          | .ok _ => c.messageFrames < ((sendMessage world m).run c).2.messageFrames := by
  rw [sendMessage, Act.run_bind_ok (Act.run_get c)]
  by_cases hstarts : c.Starts
  · obtain ⟨c₁, c₂, hstart, hflush, hpoised⟩ := poised_of_starts hstarts
    refine .inr ⟨hstarts, c₂, hpoised, ?_⟩
    rw [Act.run_bind_ok hstart, Act.run_bind_ok hflush]
    cases hberth : c.berth (c.finalize world m) with
    | none =>
      obtain ⟨error, hrefused⟩ := allocate_refused hpoised hberth
      exact ⟨error, Act.run_bind_error hrefused _⟩
    | some stream =>
      obtain ⟨id, c₃, hallocate, hstream, hencoder, hframes, hnamed, hnew⟩ := allocate_berth hpoised hberth
      have hframes' : c₃.messageFrames = c.messageFrames := hframes.trans hpoised.frames
      refine ⟨c₃, hencoder.trans hpoised.hpackEncoder, hframes', fun h => (hnamed h).trans hpoised.streams, hnew, ?_⟩
      rw [Act.run_bind_ok hallocate]
      cases hcompose : compose world (some stream) (c.finalize world m) with rw [← hstream] at hcompose
      | error error => rw [sendOn, Act.run_bind_ok (Act.run_get c₃), hcompose]; rfl
      | ok o => exact hframes' ▸ sendOn_framed world hcompose
  · refine .inl ⟨hstarts, ?_⟩
    have hkept : Unaltered c (start.run c).2 := unaltering_start c
    rcases hstart : start.run c with ⟨error | _, c₁⟩
    · rw [Act.run_bind_error hstart]
      exact hstart ▸ hkept
    · exact absurd ((start_ok_iff c).1 (congrArg Prod.fst hstart)) hstarts

variable (source : Source Error UInt8) (sink : Sink) (role : Role) (limits : H2Limits)
  (requestFinalizer : RequestFinalizer) (responseFinalizer : ResponseFinalizer) (secure : Bool)
  {h : List (Turn H2Connection Error Answer Move)}

/-- A send that fails before a frame of its message was queued leaves the streams and the encoder as they were if and
    only if the connection does not start, or the message can be framed on the stream it goes on, or no stream is marked
    to be reset and the message names its stream or there may be no more streams. -/
theorem restores_iff
    (hcourse : Course moves (configured source sink role limits requestFinalizer responseFinalizer secure) h c)
    (hclear : moves.Clear h) (world : World) (m : Message) :
    Restores world m c ↔ ¬c.Starts ∨
      (∃ stream o, c.berth (c.finalize world m) = some stream ∧ compose world (some stream) (c.finalize world m) = .ok o) ∨
      (c.resets = true → c.pendingResets = []) ∧
        ((c.finalize world m).streamId = none → c.localStreamCeiling ≤ c.streams.entries.length) := by
  obtain ⟨hplaced, -⟩ := spent_of_course (placed_configured ..) hcourse hclear
  have hfree : c.streams.lookup c.nextStreamId = none := by_contra fun hheld =>
    (hplaced.opened _ hplaced.own hheld).false
  rw [← unmarked_eq_iff]
  rcases sendMessage_cases world m c with ⟨hstill, hkept⟩ | ⟨hstarts, c₁, hpoised, hsent⟩
  · refine iff_of_true (fun error c' hrun _ => ?_) (.inl hstill)
    rw [hrun] at hkept
    exact ⟨congrArg View.streams (congrArg Prospect.view hkept), congrArg Prospect.hpackEncoder hkept⟩
  rw [or_iff_right (not_not_intro hstarts)]
  cases hberth : c.berth (c.finalize world m) with rw [hberth] at hsent
  | none =>
    -- There is no stream for the message: the marked ones alone are gone.
    obtain ⟨error, hrun⟩ := hsent
    rw [or_iff_right (fun ⟨_, _, hsome, _⟩ => by cases hsome)]
    have hfull (hsame : c.unmarked = c.streams) (hnone : (c.finalize world m).streamId = none) :
        c.localStreamCeiling ≤ c.streams.entries.length := by
      rw [berth, hnone] at hberth
      by_contra hroom
      rw [hsame] at hberth
      exact Option.some_ne_none _ ((if_pos (not_le.1 hroom)).symm.trans hberth)
    refine ⟨fun hrestores => ?_, fun ⟨hsame, _⟩ error' c' hrun' _ => ?_⟩
    · have hsame := hpoised.streams.symm.trans (hrestores error c₁ hrun hpoised.frames).1
      exact ⟨hsame, hfull hsame⟩
    · cases hrun.symm.trans hrun'
      exact ⟨hpoised.streams.trans hsame, hpoised.hpackEncoder⟩
  | some stream =>
    obtain ⟨c₂, hencoder, hframes, hnamed, hnew, hframed⟩ := hsent
    cases hcompose : compose world (some stream) (c.finalize world m) with rw [hcompose] at hframed
    | ok o =>
      refine iff_of_true (fun error c' hrun hnone => ?_) (.inl ⟨stream, o, rfl, hcompose⟩)
      rw [hrun, hnone] at hframed
      exact absurd hframed (lt_irrefl _)
    | error error =>
      -- The message cannot be framed: a stream that was opened for it stays.
      rw [or_iff_right (fun ⟨_, _, hsame, hok⟩ => by cases hsame; cases hcompose.symm.trans hok)]
      cases hid : (c.finalize world m).streamId with
      | none =>
        refine ⟨fun hrestores => absurd ?_ (hnew hid), fun ⟨hsame, hfull⟩ => ?_⟩
        · rw [(hrestores error c₂ hframed hframes).1, hfree]
        · rw [berth, hid] at hberth
          dsimp only at hberth
          rw [if_neg (not_lt.2 (hsame ▸ hfull rfl))] at hberth
          cases hberth
      | some id =>
        have hstreams := hnamed (by rw [hid]; exact Option.some_ne_none _)
        refine ⟨fun hrestores => ⟨?_, fun h => (by cases h)⟩, fun ⟨hsame, _⟩ error' c' hrun' _ => ?_⟩
        · exact hstreams.symm.trans (hrestores error c₂ hframed hframes).1
        · cases hframed.symm.trans hrun'
          exact ⟨hstreams.trans hsame, hencoder⟩

/-- A client that may have one stream open, and whose peer says nothing. -/
def client : H2Connection := configured ⟨[], false, []⟩ ⟨[], []⟩ .userAgent { H2Limits.default with maxConcurrentStreams := 1 }
  ⟨none⟩ ⟨none⟩ true

/-- A message that is neither a request nor a response, on a stream that is not open. -/
def stray : Message := { Message.new .v2_0 with streamId := some 7 }

theorem restores_stray : Restores .bare stray client :=
  (restores_iff ⟨[], false, []⟩ ⟨[], []⟩ .userAgent { H2Limits.default with maxConcurrentStreams := 1 } ⟨none⟩ ⟨none⟩ true
    .begun Moves.clear_nil .bare stray).2 (.inr (.inr ⟨fun _ => rfl, fun hnone => (by cases hnone)⟩))

/-- A message that is neither a request nor a response cannot be framed, and the stream it was to go on stays: a request
    that follows finds no room. -/
theorem send_not_restored : (¬∀ (h : List (Turn H2Connection Error Answer Move)) (c : H2Connection), Course moves client h c →
      moves.Clear h → ∀ world m, Restores world m c) ∧
    ((sendMessage .bare (Message.request .GET (.lit "/") .v2_0)).run
      ((sendMessage .bare (Message.new .v2_0)).run client).2).1 =
        .error (.limit "more than {ceiling} streams are open at once" [.number 1]) := by
  refine ⟨fun hall => ?_, by rfl⟩
  have hrestores := hall [] client .begun Moves.clear_nil .bare (Message.new .v2_0)
  have hfails : ((sendMessage .bare (Message.new .v2_0)).run client).1.toOption = none := by decide +kernel
  have hframes : ((sendMessage .bare (Message.new .v2_0)).run client).2.messageFrames = client.messageFrames := by decide +kernel
  have hleft : ((sendMessage .bare (Message.new .v2_0)).run client).2.streams.entries.length = 1 := by decide +kernel
  rcases hrun : (sendMessage .bare (Message.new .v2_0)).run client with ⟨error | _, c'⟩ <;> rw [hrun] at hfails hframes hleft
  · rw [(hrestores error c' hrun hframes).1] at hleft
    cases hleft
  · cases hfails

end H2Connection

end Soyokaze

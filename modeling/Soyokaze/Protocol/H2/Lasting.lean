import Soyokaze.Protocol.H2.Runs

/-!
# What lasts whatever a connection does

Almost everything a connection does to its streams is of five kinds: it opens one,
drops one, changes one in a way that neither ends it nor adds to its body, changes
all of them so, or leaves them alone and records what passed. A property that
survives these is `Lasting`, and survives every step made of them.

What is left are the steps that end a stream or add to its body. Where a frame gives
rise to one of these, the property has to survive that by itself.

* `Lasting.handle`: the property survives the handling of a frame;
* `Lasting.readFrame`: it survives the reading of one.
-/

namespace Soyokaze

open H2

namespace H2

/-- Whether an entry is of what every step may do, and not of what becomes of a stream. -/
def Passed.plain : Passed → Bool
  | accepted .. | unattended _ | handled .. => false
  | _ => true

@[simp] theorem StreamState.begun_eq_closed (state : StreamState) : state.begun = .closed ↔ state = .closed := by
  cases state <;> decide

@[simp] theorem StreamState.receivable_begun (state : StreamState) : state.begun.receivable = state.receivable := by
  cases state <;> rfl

end H2

/-- What a stream is after a step that neither ends it nor adds to its body. -/
structure H2Stream.Mild (stream stream' : H2Stream) : Prop where
  state : stream'.state = stream.state ∨ stream'.state = stream.state.begun
  pendingReset : stream'.pendingReset = stream.pendingReset
  body : stream'.body = stream.body ∨ stream'.body = []

namespace H2Stream.Mild

variable {stream stream' : H2Stream}

theorem refl (stream : H2Stream) : Mild stream stream := ⟨.inl rfl, rfl, .inl rfl⟩

theorem closed_iff (h : Mild stream stream') : stream'.state = .closed ↔ stream.state = .closed := by
  rcases h.state with hstate | hstate <;> rw [hstate]
  exact StreamState.begun_eq_closed stream.state

theorem receivable_eq (h : Mild stream stream') : stream'.state.receivable = stream.state.receivable := by
  rcases h.state with hstate | hstate <;> rw [hstate]
  exact StreamState.receivable_begun stream.state

theorem body_eq_nil (h : Mild stream stream') (hbody : stream.body = []) : stream'.body = [] := by
  rcases h.body with hbody' | hbody'
  · rw [hbody', hbody]
  · exact hbody'

end H2Stream.Mild

namespace H2Connection

/-- What a step relates two states by that hands a property on. -/
def HandsOn (P : H2Connection → Prop) (c c' : H2Connection) : Prop := P c → P c'

/-- A step that a property survives, however it ends. -/
abbrev Survives {α : Type} (P : H2Connection → Prop) (m : Step α) : Prop := Act.Keeps (HandsOn P) m

/-- A property that survives what a connection mostly does. -/
structure Lasting (P : H2Connection → Prop) : Prop where
  congr : ∀ {c c' : H2Connection}, c'.streams = c.streams → c'.resets = c.resets → c'.passed = c.passed →
    c'.bufferedBound = c.bufferedBound → P c → P c'
  note : ∀ {c : H2Connection} {e : Passed}, e.plain = true → P c → P { c with passed := e :: c.passed }
  insert : ∀ {c : H2Connection} (id : ℕ) (windowLocal windowRemote : ℤ), P c →
    P { c with streams := c.streams.insert id (.new windowLocal windowRemote) }
  erase : ∀ {c : H2Connection} (id : ℕ), P c → P { c with streams := c.streams.erase id }
  modify : ∀ {c : H2Connection} {f : H2Stream → H2Stream} (id : ℕ), (∀ stream, H2Stream.Mild stream (f stream)) → P c →
    P { c with streams := StreamMap.modify c.streams id f }
  mapValues : ∀ {c : H2Connection} {f : H2Stream → H2Stream}, (∀ stream, H2Stream.Mild stream (f stream)) → P c →
    P { c with streams := StreamMap.mapValues c.streams f }

variable {P : H2Connection → Prop} {α β : Type}

namespace Survives

theorem bind {m : Step α} {f : α → Step β} (hm : Survives P m) (hf : ∀ a, Survives P (f a)) : Survives P (m >>= f) :=
  @Act.Keeps.bind _ _ _ _ (HandsOn P) (fun h h' hc => h' (h hc)) m f hm hf

theorem pure (a : α) : Survives P (Pure.pure a : Step α) := fun _ h => h

theorem get : Survives P (Act.get : Step H2Connection) := fun _ h => h

theorem fail (error : Error) : Survives P (Act.fail error : Step α) := fun _ h => h

theorem ofExcept (x : Except Error α) : Survives P (Act.ofExcept x : Step α) := fun _ h => h

theorem demand (condition : Bool) (error : Error) : Survives P (Act.demand condition error : Step Unit) := fun _ h => h

theorem openStream (id : ℕ) : Survives P (openStream id) := by
  refine Act.keeps_of_eq (fun _ h => h) fun c => ?_
  simp only [H2Connection.openStream, Act.run]
  split <;> rfl

theorem demandReceivable (id : ℕ) : Survives P (demandReceivable id) := by
  refine Act.keeps_of_eq (fun _ h => h) fun c => ?_
  simp only [H2Connection.demandReceivable, Act.run]
  split <;> rfl

theorem checkBlock (id : ℕ) : Survives P (checkBlock id) := get.bind fun _ => demand _ _

/-- What does not count on the bound survives the DATA of a frame being taken in, where the body may grow. -/
theorem holdData {id : ℕ} {data : Octets} (hbound : ∀ {c : H2Connection} (bound : ℕ), P c → P { c with bufferedBound := bound })
    (hgrow : Survives P (H2Connection.modifyStream id fun stream => { stream with body := stream.body ++ data })) :
    Survives P (H2Connection.holdData id data) := by
  have hover : Survives P H2Connection.overbuffered := by
    intro c hc
    simp only [H2Connection.overbuffered, Act.run]
    split_ifs
    · exact hc
    · exact hbound _ hc
  exact hgrow.bind fun _ => (openStream id).bind fun _ => bind (fun _ => hbound _) fun _ =>
    get.bind fun _ => (demand _ _).bind fun _ => (demand _ _).bind fun _ =>
      hover.bind fun _ => demand _ _

end Survives

namespace Lasting

variable (hP : Lasting P)

include hP

/-! ## The steps there are -/

/-- A step that leaves the streams, the record and the bound on what is buffered alone. -/
theorem aside {m : Step α} (h : ∀ c, (m.run c).2.streams = c.streams ∧ (m.run c).2.resets = c.resets ∧
    (m.run c).2.passed = c.passed ∧ (m.run c).2.bufferedBound = c.bufferedBound) : Survives P m := fun c =>
  hP.congr (h c).1 (h c).2.1 (h c).2.2.1 (h c).2.2.2

theorem noted {e : Passed} (he : e.plain = true) : Survives P (H2Connection.note e) := fun _ => hP.note he

theorem noteIf {e : Passed} (he : e.plain = true) (condition : Bool) : Survives P (noteIf condition e) := by
  rw [H2Connection.noteIf]
  split_ifs
  · exact hP.noted he
  · exact Survives.pure _

theorem modifyStream {id : ℕ} {f : H2Stream → H2Stream} (hf : ∀ stream, H2Stream.Mild stream (f stream)) :
    Survives P (modifyStream id f) := fun _ => hP.modify id hf

theorem dropped (id : ℕ) :
    Survives P (Act.modify fun c => { c with streams := c.streams.erase id } : Step Unit) := fun _ => hP.erase id

theorem fatal {m : Step α} (h : Survives P m) : Survives P (fatal m) := by
  intro c hc
  have hm := h c hc
  simp only [H2Connection.fatal, Act.run]
  rcases hrun : m c with ⟨error | a, c'⟩
  · rw [Act.run, hrun] at hm
    exact hP.note (e := .failed) rfl hm
  · rwa [Act.run, hrun] at hm

theorem queue (frame : Frame) : Survives P (queue frame) := by
  intro c hc
  refine hP.congr ?_ ?_ ?_ ?_ (hP.note (e := .sent frame) rfl hc) <;> rfl

theorem flushOut : Survives P flushOut := by
  intro c hc
  simp only [H2Connection.flushOut, Act.run]
  split_ifs
  · exact hc
  · split
    · refine hP.congr ?_ ?_ ?_ ?_ hc <;> rfl
    · refine hP.congr ?_ ?_ ?_ ?_ (hP.note (e := .failed) rfl hc) <;> rfl

theorem write (frame : Frame) : Survives P (write frame) := (hP.queue frame).bind fun _ => hP.flushOut

theorem overloaded (reason : String) (quoted : List Quoted) : Survives P (overloaded reason quoted : Step α) :=
  fun c => hP.write _ c

theorem reset (id errorCode : ℕ) : Survives P (reset id errorCode) := (hP.dropped id).bind fun _ => hP.write _

theorem retire (id : ℕ) : Survives P (retire id) := by
  intro c hc
  simp only [H2Connection.retire, Act.run_modify]
  split
  · split_ifs
    · exact hP.erase id hc
    · exact hc
  · exact hc

theorem idle : Survives P idle := by
  refine Survives.bind (hP.aside fun _ => ⟨rfl, rfl, rfl, rfl⟩) fun _ => Survives.get.bind fun c => ?_
  split_ifs
  · exact hP.overloaded _ _
  · exact Survives.pure _

theorem advanced (progress : Bool) : Survives P (advanced progress) := by
  rw [H2Connection.advanced]
  split_ifs
  · exact hP.aside fun _ => ⟨rfl, rfl, rfl, rfl⟩
  · exact hP.idle

theorem exchangePreface : Survives P exchangePreface := by
  refine Survives.get.bind fun c => ?_
  split_ifs
  · exact hP.aside fun _ => ⟨rfl, rfl, rfl, rfl⟩
  · exact Survives.bind (hP.aside fun _ => ⟨rfl, rfl, rfl, rfl⟩) fun _ =>
      Survives.bind (Survives.demand _ _) fun _ => hP.aside fun _ => ⟨rfl, rfl, rfl, rfl⟩

theorem start : Survives P start := by
  refine Survives.get.bind fun c => ?_
  split_ifs
  · exact Survives.pure _
  · exact hP.fatal <| Survives.bind (hP.aside fun _ => ⟨rfl, rfl, rfl, rfl⟩) fun _ => hP.exchangePreface.bind fun _ =>
      Survives.bind (hP.aside fun _ => ⟨rfl, rfl, rfl, rfl⟩) fun _ => Survives.get.bind fun _ => (hP.queue _).bind fun _ =>
        hP.flushOut

/-- What does not count on resets being due survives their going out. -/
theorem flushResets (hresets : ∀ c, P c → P { c with resets := false }) : Survives P flushResets := by
  have hall : ∀ pending, Survives P (resetAll pending) := by
    intro pending
    induction pending with
    | nil => exact Survives.pure _
    | cons entry pending ih => exact (hP.queue _).bind fun _ => (hP.dropped _).bind fun _ => ih
  refine Survives.get.bind fun c => ?_
  split_ifs
  · exact Survives.bind (fun c => hresets c) fun _ => hall _
  · exact Survives.pure _

theorem flushBeforeWaiting : Survives P flushBeforeWaiting := by
  refine Survives.get.bind fun c => ?_
  split_ifs
  · exact hP.flushOut
  · exact Survives.pure _

theorem flushIfDrained : Survives P flushIfDrained := by
  refine Survives.get.bind fun c => ?_
  split_ifs
  · exact hP.flushOut
  · exact Survives.pure _

/-! ## Reading -/

theorem takeFrame (length : ℕ) (header : Option FrameHeader) : Survives P (takeFrame length header) := by
  refine Survives.get.bind fun c => Survives.bind (hP.aside fun _ => ⟨rfl, rfl, rfl, rfl⟩) fun _ => ?_
  cases header with
  | none => exact Survives.pure _
  | some header => exact (hP.noted rfl).bind fun _ => Act.Keeps.map (Survives.ofExcept _) _

theorem readFrameKept : Survives P readFrameKept :=
  hP.flushBeforeWaiting.bind fun _ => Survives.get.bind fun _ =>
    Survives.bind (hP.aside fun _ => ⟨rfl, rfl, rfl, rfl⟩) fun _ => hP.takeFrame _ _

theorem readFrame : Survives P readFrame := by
  refine Survives.get.bind fun c => ?_
  -- By induction on the fuel: a frame of an unknown type is read past.
  induction c.source.left + 1 with
  | zero => exact Survives.fail _
  | succ fuel ih =>
    refine hP.readFrameKept.bind fun kept => ?_
    cases kept with
    | error kind => exact ih
    | ok frame => exact Survives.pure _

/-! ## Field sections -/

theorem beginStream (id : ℕ) : Survives P (beginStream id) := by
  refine Survives.get.bind fun c => ?_
  split_ifs
  · exact Survives.demand _ _
  · exact Survives.pure _
  · exact (Survives.demand _ _).bind fun _ => Survives.bind (hP.aside fun _ => ⟨rfl, rfl, rfl, rfl⟩) fun _ =>
      (Survives.demand _ _).bind fun _ => Survives.bind (fun _ => hP.insert id _ _) fun _ => hP.noted rfl

theorem absorbTrailers (id : ℕ) (fields : List HeaderField) : Survives P (absorbTrailers id fields) :=
  (Survives.ofExcept _).bind fun _ => hP.modifyStream fun _ => ⟨.inl rfl, rfl, .inl rfl⟩

theorem absorbMessage (world : World) (id : ℕ) (fields : List HeaderField) :
    Survives P (absorbMessage world id fields) := by
  refine (Survives.ofExcept _).bind fun m => Survives.get.bind fun c =>
    Survives.bind (hP.modifyStream fun stream => ?_) fun _ => ?_
  · split_ifs
    · exact ⟨.inl rfl, rfl, .inl rfl⟩
    · exact .refl stream
  · split_ifs
    · exact Survives.bind (hP.modifyStream fun _ => ⟨.inr rfl, rfl, .inl rfl⟩) fun _ => Survives.pure _
    · exact Survives.bind (hP.modifyStream fun _ => ⟨.inl rfl, rfl, .inl rfl⟩) fun _ => Survives.pure _

section

variable {id : ℕ} {endStream : Bool} (hcomplete : Survives P (complete id endStream))

include hcomplete

theorem settleSection : Survives P (settleSection id endStream) := by
  refine Survives.bind (hP.modifyStream fun _ => ⟨.inr rfl, rfl, .inl rfl⟩) fun _ =>
    (Survives.openStream id).bind fun stream => ?_
  split_ifs
  · exact hcomplete
  · exact Survives.pure _

theorem foldSection (world : World) (fields : List HeaderField) : Survives P (foldSection world id fields endStream) := by
  refine (Survives.openStream id).bind fun stream => ?_
  split_ifs
  · exact (hP.absorbTrailers id fields).bind fun _ => hP.settleSection hcomplete
  · refine (hP.absorbMessage world id fields).bind fun informational => ?_
    split
    · exact (hP.noteIf rfl _).bind fun _ => Survives.pure _
    · exact hP.settleSection hcomplete

theorem finishHeaders (world : World) (block : Octets) : Survives P (finishHeaders world id block endStream) :=
  Survives.bind (hP.aside fun _ => ⟨rfl, rfl, rfl, rfl⟩) fun _ => (Survives.openStream id).bind fun _ =>
    Survives.bind (hP.modifyStream fun _ => ⟨.inl rfl, rfl, .inl rfl⟩) fun _ => (Survives.openStream id).bind fun _ =>
      Survives.get.bind fun _ => (Survives.demand _ _).bind fun _ =>
        Survives.bind (hP.aside fun _ => ⟨rfl, rfl, rfl, rfl⟩) fun _ => (Survives.demand _ _).bind fun _ =>
          hP.foldSection hcomplete world _

theorem finishGathered (world : World) : Survives P (finishGathered world id endStream) :=
  (Survives.openStream id).bind fun _ => Survives.bind (hP.modifyStream fun _ => ⟨.inl rfl, rfl, .inl rfl⟩) fun _ =>
    hP.finishHeaders hcomplete world _

theorem continueHeaders (world : World) (frames : ℕ) : Survives P (continueHeaders world id endStream frames) := by
  induction frames with
  | zero => exact (Survives.checkBlock id).bind fun _ => Survives.get.bind fun _ => Survives.fail _
  | succ frames ih =>
    refine (Survives.checkBlock id).bind fun _ => hP.readFrameKept.bind fun kept => ?_
    rcases kept with kind | frame
    · exact Survives.fail _
    cases frame
    case continuation other endHeaders block =>
      refine (?_ : Survives P (if other = id then _ else _))
      split_ifs
      · exact (Survives.openStream id).bind fun _ =>
          Survives.bind (hP.modifyStream fun _ => ⟨.inl rfl, rfl, .inl rfl⟩) fun _ => hP.finishGathered hcomplete world
      · exact (Survives.openStream id).bind fun _ =>
          Survives.bind (hP.modifyStream fun _ => ⟨.inl rfl, rfl, .inl rfl⟩) fun _ => ih
      · exact Survives.fail _
    all_goals exact Survives.fail _

theorem handleHeaders (world : World) (endHeaders : Bool) (block : Octets) :
    Survives P (handleHeaders world id endStream endHeaders block) := by
  refine (hP.beginStream id).bind fun _ => ?_
  split_ifs
  · exact hP.finishHeaders hcomplete world block
  · exact (Survives.openStream id).bind fun _ =>
      Survives.bind (hP.modifyStream fun _ => ⟨.inl rfl, rfl, .inl rfl⟩) fun _ => Survives.get.bind fun c =>
        hP.continueHeaders hcomplete world c.limits.maxHeaderCount

end

/-! ## Handling frames -/

theorem handleSettings (params : List (ℕ × ℕ)) : Survives P (handleSettings params) := by
  refine hP.idle.bind fun _ => Survives.get.bind fun before => Survives.bind (hP.aside fun _ => ⟨rfl, rfl, rfl, rfl⟩) fun _ =>
    Survives.bind (fun c hc => ?_) fun _ => (hP.queue _).bind fun _ => Survives.pure _
  refine hP.congr ?_ ?_ ?_ ?_ (hP.mapValues (f := fun stream => { stream with
    windowRemote := stream.windowRemote + (c.settingsRemote.initialWindowSize - before.settingsRemote.initialWindowSize) })
      (fun _ => ⟨.inl rfl, rfl, .inl rfl⟩) hc) <;> rfl

theorem creditConnection (increment : ℕ) : Survives P (creditConnection increment) :=
  Survives.get.bind fun _ => Survives.bind (hP.aside fun _ => ⟨rfl, rfl, rfl, rfl⟩) fun _ =>
    (Survives.demand _ _).bind fun _ => (hP.advanced _).bind fun _ => Survives.pure _

theorem creditStream (id increment : ℕ) : Survives P (creditStream id increment) := by
  refine Survives.get.bind fun c => ?_
  split
  · exact hP.idle.bind fun _ => Survives.pure _
  · refine Survives.bind (hP.modifyStream fun _ => ⟨.inl rfl, rfl, .inl rfl⟩) fun _ => ?_
    split_ifs
    · exact (hP.reset _ _).bind fun _ => Survives.pure _
    · exact (hP.advanced _).bind fun _ => Survives.pure _

theorem countPremature : Survives P countPremature := by
  refine Survives.bind (hP.aside fun _ => ⟨rfl, rfl, rfl, rfl⟩) fun _ => Survives.get.bind fun c => ?_
  split_ifs
  · exact hP.overloaded _ _
  · exact Survives.pure _

theorem handleReset (id : ℕ) : Survives P (handleReset id) := by
  refine hP.idle.bind fun _ => Survives.get.bind fun c => (hP.dropped id).bind fun _ => ?_
  split
  · split_ifs
    · exact hP.countPremature
    · exact Survives.pure _
  · exact Survives.pure _

theorem giveCredit (id length : ℕ) : Survives P (giveCredit id length) := by
  rw [H2Connection.giveCredit]
  split_ifs
  · exact hP.queue _
  · exact Survives.pure _

theorem spendConnection (length : ℕ) : Survives P (spendConnection length) := by
  refine Survives.bind (hP.aside fun _ => ⟨rfl, rfl, rfl, rfl⟩) fun _ => Survives.get.bind fun c => ?_
  split_ifs
  · exact (hP.noted rfl).bind fun _ => Survives.fail _
  · exact (hP.giveCredit 0 length).bind fun _ => hP.aside fun _ => ⟨rfl, rfl, rfl, rfl⟩

theorem restoreStream (id length : ℕ) : Survives P (restoreStream id length) := by
  refine Survives.get.bind fun c => ?_
  split_ifs
  · exact (hP.giveCredit id length).bind fun _ => hP.modifyStream fun _ => ⟨.inl rfl, rfl, .inl rfl⟩
  · exact Survives.pure _

theorem handleData {id : ℕ} {endStream : Bool} {data : Octets} (habsorb : Survives P (absorbData id endStream data)) :
    Survives P (handleData id endStream data) := by
  refine (Survives.demandReceivable id).bind fun _ => (hP.advanced _).bind fun _ => (hP.spendConnection _).bind fun _ =>
    Survives.bind (hP.modifyStream fun _ => ⟨.inl rfl, rfl, .inl rfl⟩) fun _ =>
      (Survives.openStream id).bind fun stream => ?_
  split_ifs
  · exact (hP.noted rfl).bind fun _ => (hP.reset _ _).bind fun _ => Survives.pure _
  · exact habsorb

/-- What survives the steps a frame gives rise to that end its stream or add to its body survives
    the handling of the frame. -/
theorem handle (world : World) {frame : Frame}
    (hheaders : ∀ id endStream endHeaders block, frame = .headers id endStream endHeaders block →
      Survives P (complete id endStream))
    (hdata : ∀ id endStream data, frame = .data id endStream data → Survives P (absorbData id endStream data)) :
    Survives P (handle world frame) := by
  cases frame with
  | settings ack params =>
    cases ack with
    | false => exact hP.handleSettings params
    | true => exact hP.idle.bind fun _ => Survives.pure _
  | ping ack payload =>
    cases ack with
    | false => exact hP.idle.bind fun _ => (hP.queue _).bind fun _ => Survives.pure _
    | true => exact hP.idle.bind fun _ => Survives.pure _
  | windowUpdate id increment =>
    refine (?_ : Survives P (if id = 0 then _ else _))
    split_ifs
    · exact hP.creditConnection increment
    · exact hP.creditStream id increment
  | goAway => exact hP.idle.bind fun _ => Survives.bind (hP.aside fun _ => ⟨rfl, rfl, rfl, rfl⟩) fun _ => Survives.pure _
  | rstStream id => exact hP.handleReset id
  | priority => exact hP.idle.bind fun _ => Survives.pure _
  | pushPromise => exact Survives.fail _
  | headers id endStream endHeaders block =>
    exact hP.handleHeaders (hheaders id endStream endHeaders block rfl) world endHeaders block
  | continuation => exact Survives.fail _
  | data id endStream data => exact hP.handleData (hdata id endStream data rfl)

/-! ## Sending -/

theorem writeContinuations (id : ℕ) (pieces : List Octets) : Survives P (writeContinuations id pieces) := by
  induction pieces with
  | nil => exact Survives.pure _
  | cons chunk rest ih => exact (hP.queue _).bind fun _ => ih

theorem writeSection (id : ℕ) (fields : List HeaderField) (endStream : Bool) :
    Survives P (writeSection id fields endStream) :=
  Survives.get.bind fun _ => Survives.bind (hP.aside fun _ => ⟨rfl, rfl, rfl, rfl⟩) fun _ => Survives.get.bind fun _ =>
    (hP.queue _).bind fun _ => hP.writeContinuations id _

theorem writeTrailers (id : ℕ) (trailers : Option (List HeaderField)) : Survives P (writeTrailers id trailers) := by
  cases trailers with
  | none => exact Survives.pure _
  | some fields => exact hP.writeSection id fields true

theorem flushAtHighWater : Survives P flushAtHighWater := by
  refine Survives.get.bind fun c => ?_
  split_ifs
  · exact hP.flushOut
  · exact Survives.pure _

theorem writeChunk (id : ℕ) (chunk : Octets) (last : Bool) : Survives P (writeChunk id chunk last) := by
  refine (hP.queue _).bind fun _ => hP.flushAtHighWater.bind fun _ c hc => ?_
  refine hP.congr ?_ ?_ ?_ ?_ (hP.modify (f := fun stream => { stream with
    windowRemote := stream.windowRemote - chunk.length }) id (fun _ => ⟨.inl rfl, rfl, .inl rfl⟩) hc) <;> rfl

theorem allocate (m : Message) : Survives P (allocate m) := by
  refine Survives.get.bind fun c => ?_
  split
  · exact (Survives.demand _ _).bind fun _ => Survives.pure _
  · refine (Survives.demand _ _).bind fun _ => Survives.bind (fun c' hc => ?_) fun _ =>
      (hP.noted rfl).bind fun _ => Survives.pure _
    refine hP.congr ?_ ?_ ?_ ?_ (hP.insert c'.nextStreamId c'.settingsLocal.initialWindowSize
      c'.settingsRemote.initialWindowSize hc) <;> rfl

theorem close : Survives P close := fun c => hP.write _ c

theorem drain (id : ℕ) : Survives P (drain id) :=
  Survives.get.bind fun _ => Survives.bind (hP.modifyStream fun _ => ⟨.inl rfl, rfl, .inr rfl⟩) fun _ => Survives.pure _

section

variable {world : World} (hpump : Survives P (pump world))

include hpump

theorem awaitCredit : Survives P (awaitCredit world) := by
  refine hpump.bind fun m => ?_
  split
  · exact hP.aside fun _ => ⟨rfl, rfl, rfl, rfl⟩
  · exact Survives.pure _

theorem writeDataLoop (id : ℕ) (endStream : Bool) (fuel : ℕ) (rest : Octets) :
    Survives P (writeDataLoop world id endStream fuel rest) := by
  -- By induction on the fuel: a round waits for credit or writes a chunk.
  induction fuel generalizing rest with
  | zero => exact Survives.fail _
  | succ fuel ih =>
    refine Survives.get.bind fun c => ?_
    split
    · exact Survives.fail _
    · split_ifs
      · exact (hP.awaitCredit hpump).bind fun _ => ih rest
      · refine (hP.writeChunk _ _ _).bind fun _ => ?_
        split_ifs
        · exact Survives.pure _
        · exact ih _

theorem writeData (id : ℕ) (data : Octets) (endStream : Bool) : Survives P (writeData world id data endStream) :=
  Survives.get.bind fun _ => hP.writeDataLoop hpump id endStream _ data

theorem sendMessage (hflush : Survives P H2Connection.flushResets)
    (hfinish : ∀ id m open', Survives P (finishSending id m open')) (m : Message) : Survives P (sendMessage world m) := by
  refine Survives.get.bind fun c => hP.start.bind fun _ => hflush.bind fun _ => (hP.allocate _).bind fun id =>
    Survives.get.bind fun _ => (Survives.ofExcept _).bind fun o => (hP.writeSection id _ _).bind fun _ =>
      Survives.bind ?_ fun _ => (hP.writeTrailers id _).bind fun _ => (hfinish id _ _).bind fun _ => hP.flushIfDrained
  cases o.body with
  | none => exact Survives.pure _
  | some body => exact hP.writeData hpump id body _

theorem receiveMessage : Survives P (receiveMessage world) := by
  refine Survives.get.bind fun c => ?_
  -- By induction on the fuel: a round takes a message that is ready, or pumps.
  induction c.source.left + 1 with
  | zero => exact Survives.fail _
  | succ fuel ih =>
    refine Survives.bind (Survives.get.bind fun c => ?_) fun m => ?_
    · split
      · exact Survives.bind (hP.aside fun _ => ⟨rfl, rfl, rfl, rfl⟩) fun _ => Survives.pure _
      · exact hpump
    · cases m with
      | some m => exact Survives.get.bind fun _ => Survives.ofExcept _
      | none =>
        refine Survives.get.bind fun c => ?_
        split_ifs
        · exact Survives.fail _
        · exact ih

end

end Lasting

end H2Connection

end Soyokaze

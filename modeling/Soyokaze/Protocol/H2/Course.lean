import Soyokaze.Lib.Course
import Soyokaze.Protocol.H2.Lasting

/-!
# The course a connection takes

What a connection does, move by move, with each frame in sight that is read off the
wire: those of unknown types, and those that only go on with a field section, too.

* `after_is_course`: whatever is done with a connection, it does in moves, and as long as
  it has not failed it goes on from every one of them.
-/

namespace Soyokaze

open H2

namespace H2

/-- Whether more of the field section is to follow in other frames. -/
def Frame.gathers : Frame → Bool
  | headers _ _ endHeaders _ => !endHeaders
  | _ => false

/-- What a connection does in one go. -/
inductive Move
  | start
  | flushResets
  | flush
  /-- A frame is read, of a known type or not. -/
  | read
  /-- A frame is acted on. One whose field section goes on in others is taken up in pieces. -/
  | handle (world : World) (frame : Frame)
  | begin (id : ℕ)
  | fill (id : ℕ) (block : Octets)
  /-- A frame goes on with the field section, as the last or not. -/
  | gather (id : ℕ) (last : Bool) (block : Octets)
  | gathered (world : World) (id : ℕ) (endStream : Bool)
  | record (frame : Frame)
  /-- The connection fails. -/
  | fall
  | keep (m : Message)
  | takeReady
  | allocate (m : Message)
  | fields (id : ℕ) (fields : List HeaderField) (endStream : Bool)
  | chunk (id : ℕ) (chunk : Octets) (last : Bool)
  | finish (id : ℕ) (m : Message) (open' : Bool)
  | reset (id code : ℕ)
  | mark (id code : ℕ)
  | drain (id : ℕ)
  | close

/-- What a move answers. -/
inductive Answer
  | nothing
  /-- The frame that was read, or its unknown type. -/
  | frame (kept : Except UInt8 Frame)
  /-- The message that a frame completed. -/
  | message (m : Option Message)

end H2

namespace H2Connection

/-- A step whose answer nothing is made of. -/
def silently {α : Type} (m : Step α) : Step Answer := (fun _ => .nothing) <$> m

/-- What a move does. -/
def move : Move → Step Answer
  | .start => silently start
  | .flushResets => silently flushResets
  | .flush => silently flushOut
  | .read => Answer.frame <$> readFrameKept
  | .handle world frame => if frame.gathers then Act.fail .closed else Answer.message <$> handle world frame
  | .begin id => silently (beginStream id)
  | .fill id block => silently (modifyStream id fun stream => { stream with block := block })
  | .gather id _ block => silently (modifyStream id fun stream => { stream with block := stream.block ++ block })
  | .gathered world id endStream => Answer.message <$> finishGathered world id endStream
  | .record frame => silently do
    let c ← Act.get
    note (.handled frame c.lingering)
  | .fall => silently (note .failed)
  | .keep m => silently (Act.modify fun c => { c with ready := c.ready ++ [m] } : Step Unit)
  | .takeReady => silently (Act.modify fun c => { c with ready := c.ready.tail } : Step Unit)
  | .allocate m => silently (allocate m)
  | .fields id fields endStream => silently (writeSection id fields endStream)
  | .chunk id chunk last => silently (writeChunk id chunk last)
  | .finish id m open' => silently (finishSending id m open')
  | .reset id code => silently (reset id code)
  | .mark id code => silently (mark id code)
  | .drain id => silently (drain id)
  | .close => silently close

/-- The moves of a connection. It does not go on once it fails, nor from a move that failed, but that no
    stream could be had for a message; then it may fall, and say goodbye. -/
def moves : Moves H2Connection Error Answer Move where
  step := move
  ends t := t.move = .fall ∨ (∃ error, t.outcome = .error error) ∧ ∀ m, t.move ≠ .allocate m
  left move := move = .fall ∨ move = .close

/-- A step made of moves, after which a failure can be told from the state. -/
abbrev Moving {α : Type} (m : Step α) : Prop := Follows moves Failed m

/-- A step made of moves, whose failure takes the connection down. -/
abbrev Mortal {α : Type} (m : Step α) : Prop := Follows moves (fun _ => True) m

variable {α : Type} {c c' : H2Connection} {world : World}

/-! ## Single moves -/

theorem ends_of_ok {t : Turn H2Connection Error Answer Move} (hfall : t.move ≠ .fall) (hok : ∃ a, t.outcome = .ok a) :
    ¬moves.ends t := by
  obtain ⟨a, ha⟩ := hok
  rintro (hmove | ⟨⟨error, herror⟩, -⟩)
  · exact hfall hmove
  · cases ha.symm.trans herror

/-- Whether the connection goes on from a turn. -/
def goesOn (t : Turn H2Connection Error Answer Move) : Bool :=
  match t.move, t.outcome with
  | .fall, _ => false
  | .allocate _, _ | _, .ok _ => true
  | _, .error _ => false

theorem clear_of_goesOn {h : List (Turn H2Connection Error Answer Move)} (hall : h.all goesOn = true) :
    moves.Clear h := by
  rintro ⟨move, before, outcome, after⟩ ht hends
  have hgoes := List.all_eq_true.1 hall _ ht
  rcases hends with hfall | ⟨⟨error, herror⟩, hother⟩
  · dsimp only at hfall
    rw [hfall] at hgoes
    cases hgoes
  · dsimp only at herror
    rw [herror] at hgoes
    cases move with
    | allocate m => exact hother m rfl
    | _ => cases hgoes

/-- A move is a step made of moves, if its failure can be told from the state. -/
theorem moving_of {m : Step α} (move : Move) (f : α → Answer) (hstep : moves.step move = f <$> m) (hfall : move ≠ .fall)
    (htold : ∀ c error c', m.run c = (.error error, c') → c'.Failed) : Moving m :=
  .single move f hstep (fun _ ht => ends_of_ok (ht ▸ hfall)) fun c error c' hrun => .inl (htold c error c' hrun)

theorem mortal_of {m : Step α} (move : Move) (f : α → Answer) (hstep : moves.step move = f <$> m) (hfall : move ≠ .fall) :
    Mortal m :=
  .single move f hstep (fun _ ht => ends_of_ok (ht ▸ hfall)) fun _ _ _ _ => .inl trivial

/-- A move that never fails. -/
theorem moving_total {m : Step α} (move : Move) (f : α → Answer) (hstep : moves.step move = f <$> m)
    (hfall : move ≠ .fall) (htotal : Act.Fails (fun _ => False) m) : Moving m :=
  moving_of move f hstep hfall fun c error _ hrun => (htotal c error (congrArg Prod.fst hrun)).elim

theorem fatal_failed {m : Step α} {error : Error} (h : (fatal m).run c = (.error error, c')) : c'.Failed := by
  rcases hrun : m.run c with ⟨error' | a, c₁⟩
  · rw [fatal_error hrun] at h
    cases h
    exact List.mem_cons_self
  · rw [fatal_ok hrun] at h
    cases h

/-- Where a step takes the connection down with it, the connection falls behind it. -/
theorem moving_fatal {m : Step α} (hm : Mortal m) : Moving (fatal m) := by
  intro c
  obtain ⟨h, hcourse, hok, -⟩ := hm c
  rcases hrun : m.run c with ⟨error | a, c₁⟩
  · rw [hrun] at hcourse
    rw [fatal_error hrun]
    have hfall : (moves.step .fall).run c₁ = (.ok .nothing, { c₁ with passed := .failed :: c₁.passed }) := rfl
    refine ⟨_, hcourse.turn (.inr (.inl rfl)) hfall, fun ⟨_, ha⟩ => (by cases ha), .inr ?_⟩
    exact List.mem_cons_self
  · rw [hrun] at hcourse hok
    rw [fatal_ok hrun]
    exact ⟨h, hcourse, fun _ => hok ⟨a, rfl⟩, .inl (hok ⟨a, rfl⟩)⟩

theorem never_queue (frame : Frame) : Act.Fails (fun _ => False) (queue frame) := Act.fails_of_ok fun _ => ⟨(), rfl⟩

theorem moving_start : Moving start := by
  refine moving_of .start _ rfl (fun h => by cases h) fun c error c' hrun => ?_
  rw [start, Act.run_bind_ok (Act.run_get c)] at hrun
  split_ifs at hrun
  · cases hrun
  · exact fatal_failed hrun

theorem moving_flushOut : Moving flushOut := moving_of .flush _ rfl (fun h => by cases h) fun _ _ _ => flushOut_error

theorem moving_flushIfDrained : Moving flushIfDrained := by
  refine Follows.get.bind fun c => ?_
  split_ifs
  · exact moving_flushOut
  · exact Follows.pure _

theorem moving_flushResets : Moving flushResets := by
  have hall : ∀ pending, Act.Fails (fun _ => False) (resetAll pending) := by
    intro pending
    induction pending with
    | nil => exact Act.fails_of_ok fun _ => ⟨(), rfl⟩
    | cons entry pending ih => exact (never_queue _).bind fun _ => (Act.fails_of_ok fun _ => ⟨(), rfl⟩).bind fun _ => ih
  refine moving_total .flushResets _ rfl (fun h => by cases h) ?_
  refine Act.Fails.bind (Act.fails_of_ok fun c => ⟨c, rfl⟩) fun c => ?_
  split_ifs
  · exact (Act.fails_of_ok fun _ => ⟨(), rfl⟩).bind fun _ => hall _
  · exact Act.fails_of_ok fun _ => ⟨(), rfl⟩

theorem moving_section (id : ℕ) (fields : List HeaderField) (endStream : Bool) :
    Moving (writeSection id fields endStream) := by
  have hall : ∀ pieces, Act.Fails (fun _ => False) (writeContinuations id pieces) := by
    intro pieces
    induction pieces with
    | nil => exact Act.fails_of_ok fun _ => ⟨(), rfl⟩
    | cons piece pieces ih => exact (never_queue _).bind fun _ => ih
  refine moving_total (.fields id fields endStream) _ rfl (fun h => by cases h) ?_
  exact (Act.fails_of_ok fun c => ⟨c, rfl⟩).bind fun c => (Act.fails_of_ok fun _ => ⟨(), rfl⟩).bind fun _ =>
    (Act.fails_of_ok fun c => ⟨c, rfl⟩).bind fun _ => (never_queue _).bind fun _ => hall _

theorem moving_chunk (id : ℕ) (chunk : Octets) (last : Bool) : Moving (writeChunk id chunk last) :=
  moving_of (.chunk id chunk last) _ rfl (fun h => by cases h) fun _ _ _ hrun => (writeChunk_error hrun).1

theorem moving_finish (id : ℕ) (m : Message) (open' : Bool) : Moving (finishSending id m open') :=
  moving_total (.finish id m open') _ rfl (fun h => by cases h) (Act.fails_of_ok fun _ => ⟨(), rfl⟩)

theorem moving_reset (id code : ℕ) : Moving (reset id code) :=
  moving_of (.reset id code) _ rfl (fun h => by cases h) fun _ _ _ hrun => flushOut_error hrun

/-- No stream being had for a message is nothing the connection does not go on from. -/
theorem moving_allocate (m : Message) : Moving (allocate m) :=
  .single (.allocate m) (fun _ => .nothing) rfl (fun _ ht => ends_of_ok (by rw [ht]; exact Move.noConfusion))
    fun _ _ _ _ => .inr fun t ht hends => by
      rcases hends with hfall | ⟨-, hother⟩
      · exact Move.noConfusion (ht.symm.trans hfall)
      · exact hother m ht

/-! ## Reading and acting on a frame -/

theorem mortal_read : Mortal readFrameKept := mortal_of .read _ rfl fun h => by cases h

theorem mortal_readFrame : Mortal readFrame := by
  refine Follows.get.bind fun c => ?_
  -- By induction on the fuel: a frame of an unknown type is read past.
  induction c.source.left + 1 with
  | zero => exact Follows.fail _
  | succ fuel ih =>
    refine mortal_read.bind fun kept => ?_
    cases kept with
    | error kind => exact ih
    | ok frame => exact Follows.pure _

theorem aside_openStream (id : ℕ) : Mortal (openStream id) := by
  refine Follows.aside fun c => ?_
  simp only [openStream, Act.run]
  split <;> rfl

theorem mortal_continueHeaders (world : World) (id : ℕ) (endStream : Bool) (frames : ℕ) :
    Mortal (continueHeaders world id endStream frames) := by
  have hcheck : Mortal (checkBlock id) := Follows.get.bind fun _ => Follows.demand _ _
  induction frames with
  | zero => exact hcheck.bind fun _ => Follows.get.bind fun _ => Follows.fail _
  | succ frames ih =>
    refine hcheck.bind fun _ => mortal_read.bind fun kept => ?_
    rcases kept with kind | frame
    · exact Follows.fail _
    cases frame
    case continuation other endHeaders block =>
      have hgather : Mortal (modifyStream id fun stream => { stream with block := stream.block ++ block }) :=
        mortal_of (.gather id endHeaders block) _ rfl fun h => by cases h
      refine (?_ : Mortal (if other = id then _ else _))
      split_ifs
      · exact (aside_openStream id).bind fun _ => hgather.bind fun _ =>
          mortal_of (.gathered world id endStream) _ rfl fun h => by cases h
      · exact (aside_openStream id).bind fun _ => hgather.bind fun _ => ih
      · exact Follows.fail _
    all_goals exact Follows.fail _

/-- A frame is acted on in one go, but where its field section goes on in others. -/
theorem mortal_handle (world : World) (frame : Frame) : Mortal (handle world frame) := by
  have hwhole (hall : frame.gathers = false) : Mortal (handle world frame) :=
    mortal_of (.handle world frame) _ (if_neg (Bool.eq_false_iff.1 hall)) fun h => by cases h
  cases frame
  case headers id endStream endHeaders block =>
    cases endHeaders with
    | true => exact hwhole rfl
    | false =>
      have hbegin : Mortal (beginStream id) := mortal_of (.begin id) _ rfl fun h => by cases h
      have hfill : Mortal (modifyStream id fun stream => { stream with block := block }) :=
        mortal_of (.fill id block) _ rfl fun h => by cases h
      exact hbegin.bind fun _ => (aside_openStream id).bind fun _ => hfill.bind fun _ => Follows.get.bind fun c =>
        mortal_continueHeaders world id endStream c.limits.maxHeaderCount
  all_goals exact hwhole rfl

theorem mortal_act (world : World) (frame : Frame) : Mortal (act world frame) := by
  refine (mortal_handle world frame).bind fun m => ?_
  have hrecord : Mortal (do let c ← Act.get; note (.handled frame c.lingering)) :=
    mortal_of (.record frame) _ rfl fun h => by cases h
  intro c
  obtain ⟨h, hcourse, hok, htold⟩ := hrecord c
  exact ⟨h, hcourse, fun _ => hok ⟨(), rfl⟩, htold⟩

theorem moving_pump (world : World) : Moving (pump world) :=
  moving_fatal <| moving_start.untold.bind fun _ => moving_flushResets.untold.bind fun _ => mortal_readFrame.bind fun frame =>
    (mortal_act world frame).bind fun _ => moving_flushIfDrained.untold.bind fun _ => Follows.pure _

theorem moving_relay (world : World) : Moving (relay world) :=
  moving_fatal <| moving_flushOut.untold.bind fun _ => mortal_readFrame.bind fun frame => mortal_act world frame

/-! ## Receiving and sending -/

theorem moving_receiveMessage (world : World) : Moving (receiveMessage world) := by
  refine Follows.get.bind fun c => ?_
  -- By induction on the fuel: a round takes a message that is ready, or pumps.
  induction c.source.left + 1 with
  | zero => exact Follows.fail _
  | succ fuel ih =>
    refine Follows.bind (Follows.get_bind fun c => ?_) fun m => ?_
    · rcases hready : c.ready with _ | ⟨m, ready⟩
      · exact moving_pump world c
      · have htake : Moving (Act.modify fun c => { c with ready := c.ready.tail } : Step Unit) :=
          moving_total .takeReady _ rfl (fun h => by cases h) (Act.fails_of_ok fun _ => ⟨(), rfl⟩)
        obtain ⟨h, hcourse, hok, htold⟩ := htake c
        rw [Act.run_modify, hready] at hcourse htold
        exact ⟨h, hcourse, fun _ => hok ⟨(), rfl⟩, htold⟩
    · cases m with
      | some m => exact Follows.get.bind fun _ => Follows.ofExcept _
      | none =>
        refine Follows.get.bind fun c => ?_
        split_ifs
        · exact Follows.fail _
        · exact ih

theorem moving_awaitCredit (world : World) : Moving (awaitCredit world) := by
  refine (moving_pump world).bind fun m => ?_
  cases m with
  | none => exact Follows.pure _
  | some m => exact moving_total (.keep m) _ rfl (fun h => by cases h) (Act.fails_of_ok fun _ => ⟨(), rfl⟩)

theorem moving_writeData (world : World) (id : ℕ) (data : Octets) (endStream : Bool) :
    Moving (writeData world id data endStream) := by
  refine Follows.get.bind fun c => ?_
  -- By induction on the fuel: a round waits for credit or writes a chunk.
  induction data.length + c.source.left + 1 generalizing data with
  | zero => exact Follows.fail _
  | succ fuel ih =>
    refine Follows.get.bind fun c => ?_
    split
    · exact Follows.fail _
    · split_ifs
      · exact (moving_awaitCredit world).bind fun _ => ih data
      · refine (moving_chunk _ _ _).bind fun _ => ?_
        split_ifs
        · exact Follows.pure _
        · exact ih _

theorem moving_sendMessage (world : World) (m : Message) : Moving (sendMessage world m) := by
  refine Follows.get.bind fun c => moving_start.bind fun _ => moving_flushResets.bind fun _ =>
    (moving_allocate _).bind fun id => Follows.get.bind fun _ => (Follows.ofExcept _).bind fun o =>
      (moving_section id _ _).bind fun _ => Follows.bind ?_ fun _ => Follows.bind ?_ fun _ =>
        (moving_finish id _ _).bind fun _ => moving_flushIfDrained
  · cases o.body with
    | none => exact Follows.pure _
    | some body => exact moving_writeData world id body _
  · cases o.trailers with
    | none => exact Follows.pure _
    | some fields => exact moving_section id fields true

/-! ## Runs -/

/-- Whatever is done with a connection is made of moves. -/
theorem moving_perform (world : World) (event : Event) : Moving (perform world event) := by
  cases event with
  | receive => exact (moving_receiveMessage world).map _
  | send m => exact (moving_sendMessage world m).map _
  | pump => exact moving_pump world
  | relay => exact moving_relay world
  | writeData id data endStream => exact (moving_writeData world id data endStream).map _
  | reset id code => exact (moving_reset id code).map _
  | mark id code =>
    exact (moving_total (.mark id code) _ rfl (fun h => by cases h) (Act.fails_of_ok fun _ => ⟨(), rfl⟩)).map _
  | drain id =>
    exact (moving_total (.drain id) _ rfl (fun h => by cases h) (Act.fails_of_ok fun c => ⟨_, rfl⟩)).map _
  | close => exact (moving_total .close _ rfl (fun h => by cases h) (Act.fails_of_ok fun _ => ⟨(), rfl⟩)).map _

/-- Every run is a course, and one that is gone on from as long as the connection has not failed. -/
theorem after_is_course (events : List (World × Event)) (c : H2Connection) :
    ∃ h, Course moves c h (after events c) ∧ (¬(after events c).Failed → moves.Clear h) := by
  induction events generalizing c with
  | nil => exact ⟨[], .begun, fun _ => Moves.clear_nil⟩
  | cons event events ih =>
    obtain ⟨world, event⟩ := event
    rw [after]
    split_ifs with hfailed
    · exact ⟨[], .begun, fun _ => Moves.clear_nil⟩
    · obtain ⟨h, hcourse, -, htold⟩ := moving_perform world event c
      generalize hc' : ((perform world event).run c).2 = c' at hcourse htold ⊢
      rcases htold with hclear | hfell
      · obtain ⟨h', hcourse', hclear'⟩ := ih c'
        exact ⟨h' ++ h, hcourse.append hclear hcourse', fun hgoes => Moves.clear_append.2 ⟨hclear' hgoes, hclear⟩⟩
      · -- Nothing is done with a connection that failed.
        have hstays : after events c' = c' := by
          cases events with
          | nil => rfl
          | cons event events => rw [after, if_pos hfell]
        rw [hstays]
        exact ⟨h, hcourse, fun hgoes => absurd hfell hgoes⟩

end H2Connection

end Soyokaze

import Soyokaze.Protocol.H2.Course

/-!
# What a turn does

Of a connection there is little that a turn changes. Its `View` is what of a connection
the ceilings, the send windows and the goodbyes are about, and `Unmoved` says that a step
leaves it alone. Where a frame is for a stream, nothing is done to any other
(`Tends`), and the stream is dropped only where it is finished with (`Comes`).

* `finishHeaders_comes`, `coming_absorbData`: that is so of field sections and of DATA.
-/

namespace Soyokaze

open H2

namespace H2

/-- The last stream that a GOAWAY that was sent names. -/
def Passed.farewell : Passed → Option ℕ
  | sent (.goAway last _ _) => some last
  | _ => none

/-- The last streams that were named by the GOAWAY frames sent, the latest first. -/
def farewells (log : List Passed) : List ℕ := log.filterMap Passed.farewell

theorem farewells_cons {e : Passed} (h : e.farewell = none) (log : List Passed) : farewells (e :: log) = farewells log :=
  List.filterMap_cons_none h

/-- What of a connection most steps leave alone. -/
structure View where
  role : Role
  limits : H2Limits
  streams : StreamMap H2Stream
  settingsLocal : Settings
  settingsRemote : Settings
  windowRemote : ℤ
  nextStreamId : ℕ
  highestPeerStreamId : ℕ
  prematureResets : ℕ
  idleFrames : ℕ
  farewells : List ℕ

end H2

namespace H2Connection

variable {α β : Type} {c c' c₁ : H2Connection} {id : ℕ} {world : World}

def view (c : H2Connection) : View where
  role := c.role
  limits := c.limits
  streams := c.streams
  settingsLocal := c.settingsLocal
  settingsRemote := c.settingsRemote
  windowRemote := c.windowRemote
  nextStreamId := c.nextStreamId
  highestPeerStreamId := c.highestPeerStreamId
  prematureResets := c.prematureResets
  idleFrames := c.idleFrames
  farewells := farewells c.passed

/-! ## Steps that change nothing in view -/

/-- Nothing in view changes. -/
def Unmoved (c c' : H2Connection) : Prop := c'.view = c.view

theorem Unmoved.refl (c : H2Connection) : Unmoved c c := rfl

theorem Unmoved.trans {a b c : H2Connection} (h : Unmoved a b) (h' : Unmoved b c) : Unmoved a c := Eq.trans h' h

/-- A step that changes nothing in view, however it ends. -/
abbrev Unmoving (m : Step α) : Prop := Act.Keeps Unmoved m

theorem Unmoving.bind {m : Step α} {f : α → Step β} (hm : Unmoving m) (hf : ∀ a, Unmoving (f a)) : Unmoving (m >>= f) :=
  @Act.Keeps.bind _ _ _ _ Unmoved Unmoved.trans m f hm hf

theorem unmoving_pure (a : α) : Unmoving (pure a : Step α) := fun _ => rfl

theorem unmoving_get : Unmoving (Act.get : Step H2Connection) := fun _ => rfl

theorem unmoving_fail (error : Error) : Unmoving (Act.fail error : Step α) := fun _ => rfl

theorem unmoving_ofExcept (x : Except Error α) : Unmoving (Act.ofExcept x : Step α) := fun _ => rfl

theorem unmoving_demand (condition : Bool) (error : Error) : Unmoving (Act.demand condition error : Step Unit) := fun _ => rfl

theorem unmoving_modify {f : H2Connection → H2Connection} (h : ∀ c, (f c).view = c.view) :
    Unmoving (Act.modify f : Step Unit) := h

theorem unmoving_openStream (id : ℕ) : Unmoving (openStream id) := by
  refine Act.keeps_of_eq Unmoved.refl fun c => ?_
  simp only [openStream, Act.run]
  split <;> rfl

theorem unmoving_demandReceivable (id : ℕ) : Unmoving (demandReceivable id) := by
  refine Act.keeps_of_eq Unmoved.refl fun c => ?_
  simp only [demandReceivable, Act.run]
  split <;> rfl

theorem unmoving_checkBlock (id : ℕ) : Unmoving (checkBlock id) := unmoving_get.bind fun _ => unmoving_demand _ _

theorem unmoved_note {e : Passed} (he : e.farewell = none) (c : H2Connection) :
    Unmoved c { c with passed := e :: c.passed } := by
  rw [Unmoved, view, farewells_cons he]
  rfl

theorem unmoving_note {e : Passed} (he : e.farewell = none) : Unmoving (note e) := unmoved_note he

theorem unmoving_noteIf {e : Passed} (he : e.farewell = none) (condition : Bool) : Unmoving (noteIf condition e) := by
  rw [noteIf]
  split_ifs
  · exact unmoving_note he
  · exact unmoving_pure _

theorem unmoving_fatal {m : Step α} (h : Unmoving m) : Unmoving (fatal m) := by
  intro c
  have hm := h c
  rcases hrun : m.run c with ⟨error | a, c'⟩
  · rw [hrun] at hm
    rw [fatal_error hrun]
    exact hm.trans (unmoved_note rfl c')
  · rw [hrun] at hm
    rwa [fatal_ok hrun]

/-- Writing anything but a goodbye. -/
theorem unmoving_queue {frame : Frame} (h : (Passed.sent frame).farewell = none) : Unmoving (queue frame) :=
  fun c => (unmoved_note h c).trans rfl

theorem unmoving_flushOut : Unmoving flushOut := by
  intro c
  simp only [flushOut, Act.run]
  split_ifs
  · rfl
  · split
    · rfl
    · exact unmoved_note (e := .failed) rfl c

theorem unmoving_write {frame : Frame} (h : (Passed.sent frame).farewell = none) : Unmoving (write frame) :=
  (unmoving_queue h).bind fun _ => unmoving_flushOut

theorem unmoving_flushIfDrained : Unmoving flushIfDrained := by
  refine unmoving_get.bind fun c => ?_
  split_ifs
  · exact unmoving_flushOut
  · exact unmoving_pure _

theorem unmoving_flushAtHighWater : Unmoving flushAtHighWater := by
  refine unmoving_get.bind fun c => ?_
  split_ifs
  · exact unmoving_flushOut
  · exact unmoving_pure _

theorem unmoving_start : Unmoving start := by
  refine unmoving_get.bind fun c => ?_
  split_ifs
  · exact unmoving_pure _
  · have hpreface : Unmoving exchangePreface := by
      refine unmoving_get.bind fun c => ?_
      split_ifs
      · exact unmoving_modify fun _ => rfl
      · exact Unmoving.bind (fun _ => rfl) fun _ => (unmoving_demand _ _).bind fun _ => unmoving_modify fun _ => rfl
    exact unmoving_fatal <| Unmoving.bind (fun _ => rfl) fun _ => hpreface.bind fun _ => Unmoving.bind (fun _ => rfl) fun _ =>
      unmoving_get.bind fun _ => (unmoving_queue rfl).bind fun _ => unmoving_flushOut

theorem unmoving_readFrameKept : Unmoving readFrameKept := by
  have hflush : Unmoving flushBeforeWaiting := by
    refine unmoving_get.bind fun c => ?_
    split_ifs
    · exact unmoving_flushOut
    · exact unmoving_pure _
  have htake : ∀ length header, Unmoving (takeFrame length header) := by
    intro length header
    refine unmoving_get.bind fun c => Unmoving.bind (fun _ => rfl) fun _ => ?_
    cases header with
    | none => exact unmoving_pure _
    | some header => exact (unmoving_note rfl).bind fun _ => Act.Keeps.map (unmoving_ofExcept _) _
  exact hflush.bind fun _ => unmoving_get.bind fun _ => Unmoving.bind (fun _ => rfl) fun _ => htake _ _

theorem unmoving_writeSection (id : ℕ) (fields : List HeaderField) (endStream : Bool) :
    Unmoving (writeSection id fields endStream) := by
  have hall : ∀ pieces, Unmoving (writeContinuations id pieces) := by
    intro pieces
    induction pieces with
    | nil => exact unmoving_pure _
    | cons piece pieces ih => exact (unmoving_queue rfl).bind fun _ => ih
  exact unmoving_get.bind fun _ => Unmoving.bind (fun _ => rfl) fun _ => unmoving_get.bind fun _ =>
    (unmoving_queue rfl).bind fun _ => hall _

theorem unmoving_giveCredit (id length : ℕ) : Unmoving (giveCredit id length) := by
  rw [giveCredit]
  split_ifs
  · exact unmoving_queue rfl
  · exact unmoving_pure _

theorem unmoving_spendConnection (length : ℕ) : Unmoving (spendConnection length) := by
  refine Unmoving.bind (fun _ => rfl) fun _ => unmoving_get.bind fun c => ?_
  split_ifs
  · exact (unmoving_note rfl).bind fun _ => unmoving_fail _
  · exact (unmoving_giveCredit 0 length).bind fun _ => unmoving_modify fun _ => rfl

/-! ## Steps for one stream -/

/-- Nothing in view changes but one stream, which neither comes nor goes, nor is ended. -/
structure Tends (id : ℕ) (c c' : H2Connection) : Prop where
  view : c'.view = { c.view with streams := c'.streams }
  others : ∀ other, other ≠ id → c'.streams.lookup other = c.streams.lookup other
  gone : c'.streams.lookup id = none ↔ c.streams.lookup id = none
  held : ∀ stream', c'.streams.lookup id = some stream' → ∃ stream, c.streams.lookup id = some stream ∧
    stream'.windowRemote = stream.windowRemote ∧ (stream'.state = stream.state ∨ stream'.state = stream.state.begun)

theorem Unmoved.tends (h : Unmoved c c') (id : ℕ) : Tends id c c' := by
  have hstreams : c'.streams = c.streams := congrArg View.streams h
  refine ⟨Eq.trans h ?_, fun other _ => by rw [hstreams], by rw [hstreams], fun stream' hstream' => ?_⟩
  · rw [hstreams]
    rfl
  · exact ⟨stream', hstreams ▸ hstream', rfl, .inl rfl⟩

@[simp] theorem StreamState.begun_begun (state : StreamState) : state.begun.begun = state.begun := by
  cases state <;> rfl

theorem Tends.trans {a b c : H2Connection} (h : Tends id a b) (h' : Tends id b c) : Tends id a c where
  view := by rw [h'.view, h.view]
  others other hne := (h'.others other hne).trans (h.others other hne)
  gone := h'.gone.trans h.gone
  held stream'' hstream'' := by
    obtain ⟨stream', hstream', hwindow', hstate'⟩ := h'.held stream'' hstream''
    obtain ⟨stream, hstream, hwindow, hstate⟩ := h.held stream' hstream'
    refine ⟨stream, hstream, hwindow'.trans hwindow, ?_⟩
    rcases hstate' with hstate' | hstate' <;> rcases hstate with hstate | hstate <;> rw [hstate', hstate]
    · exact .inl rfl
    · exact .inr rfl
    · exact .inr rfl
    · exact .inr (StreamState.begun_begun _)

/-- A step that tends to one stream, however it ends. -/
abbrev Tending (id : ℕ) (m : Step α) : Prop := Act.Keeps (Tends id) m

theorem Unmoving.tending {m : Step α} (h : Unmoving m) : Tending id m := h.mono fun hstill => hstill.tends id

theorem Tending.bind {m : Step α} {f : α → Step β} (hm : Tending id m) (hf : ∀ a, Tending id (f a)) :
    Tending id (m >>= f) := @Act.Keeps.bind _ _ _ _ (Tends id) Tends.trans m f hm hf

theorem tends_modify {f : H2Stream → H2Stream} (hf : ∀ stream, (f stream).windowRemote = stream.windowRemote ∧
    ((f stream).state = stream.state ∨ (f stream).state = stream.state.begun)) (c : H2Connection) :
    Tends id c { c with streams := StreamMap.modify c.streams id f } where
  view := rfl
  others other hne := by rw [StreamMap.lookup_modify, if_neg hne]
  gone := by rw [StreamMap.lookup_modify, if_pos rfl, Option.map_eq_none_iff]
  held stream' hstream' := by
    rw [StreamMap.lookup_modify, if_pos rfl] at hstream'
    obtain ⟨stream, hstream, rfl⟩ := Option.map_eq_some_iff.1 hstream'
    exact ⟨stream, hstream, hf stream⟩

theorem tending_modifyStream {f : H2Stream → H2Stream} (hf : ∀ stream, (f stream).windowRemote = stream.windowRemote ∧
    ((f stream).state = stream.state ∨ (f stream).state = stream.state.begun)) : Tending id (modifyStream id f) :=
  tends_modify hf

/-- Nothing in view changes but one stream, which may be dropped where it is finished with: it is one this
    end may not send on, or one the peer ends for a second time. -/
structure Comes (id : ℕ) (endStream : Bool) (c c' : H2Connection) : Prop where
  view : c'.view = { c.view with streams := c'.streams }
  others : ∀ other, other ≠ id → c'.streams.lookup other = c.streams.lookup other
  held : ∀ stream', c'.streams.lookup id = some stream' → ∃ stream, c.streams.lookup id = some stream ∧
    stream'.windowRemote = stream.windowRemote
  dropped : c'.streams.lookup id = none → ∀ stream, c.streams.lookup id = some stream →
    stream.state.sendable = true → endStream = true ∧ stream.state = .halfClosedRemote

theorem Tends.comes (h : Tends id c c') (endStream : Bool) : Comes id endStream c c' where
  view := h.view
  others := h.others
  held stream' hstream' := by
    obtain ⟨stream, hstream, hwindow, -⟩ := h.held stream' hstream'
    exact ⟨stream, hstream, hwindow⟩
  dropped hnone stream hstream := by
    rw [h.gone.1 hnone] at hstream
    cases hstream

theorem StreamState.sendable_begun (state : StreamState) : state.begun.sendable = state.sendable := by
  cases state <;> rfl

theorem StreamState.begun_eq_halfClosedRemote {state : StreamState} :
    state.begun = .halfClosedRemote ↔ state = .halfClosedRemote := by
  cases state <;> decide

theorem Tends.thenComes {endStream : Bool} (h : Tends id c c₁) (h' : Comes id endStream c₁ c') :
    Comes id endStream c c' where
  view := by rw [h'.view, h.view]
  others other hne := (h'.others other hne).trans (h.others other hne)
  held stream' hstream' := by
    obtain ⟨stream₁, hstream₁, hwindow₁⟩ := h'.held stream' hstream'
    obtain ⟨stream, hstream, hwindow, -⟩ := h.held stream₁ hstream₁
    exact ⟨stream, hstream, hwindow₁.trans hwindow⟩
  dropped hnone stream hstream hsendable := by
    obtain ⟨stream₁, hstream₁⟩ := Option.ne_none_iff_exists'.1 (mt h.gone.1 (by rw [hstream]; exact Option.some_ne_none _))
    obtain ⟨stream', hstream', -, hstate⟩ := h.held stream₁ hstream₁
    rw [hstream] at hstream'
    cases hstream'
    -- The stream may have been begun meanwhile, which changes neither of the two.
    obtain ⟨hend, hclosed⟩ := h'.dropped hnone stream₁ hstream₁ (by
      rcases hstate with hstate | hstate <;> rw [hstate]
      · exact hsendable
      · rw [StreamState.sendable_begun, hsendable])
    refine ⟨hend, ?_⟩
    rcases hstate with hstate | hstate <;> rw [hstate] at hclosed
    · exact hclosed
    · exact StreamState.begun_eq_halfClosedRemote.1 hclosed

theorem Comes.thenUnmoved {endStream : Bool} (h : Comes id endStream c c₁) (h' : Unmoved c₁ c') : Comes id endStream c c' := by
  have hstreams : c'.streams = c₁.streams := congrArg View.streams h'
  refine ⟨?_, fun other hne => by rw [hstreams]; exact h.others other hne, fun stream' hstream' => ?_, fun hnone => ?_⟩
  · rw [Eq.trans h' h.view, hstreams]
  · exact h.held stream' (hstreams ▸ hstream')
  · exact h.dropped (hstreams ▸ hnone)

/-- A step for one stream, which its peer ends with it or does not. -/
abbrev Coming (id : ℕ) (endStream : Bool) (m : Step α) : Prop := Act.Keeps (Comes id endStream) m

theorem Tending.coming {m : Step α} (h : Tending id m) (endStream : Bool) : Coming id endStream m :=
  h.mono fun htends => htends.comes endStream

/-- What a step comes to for a stream, that one which tends to it goes before. -/
theorem Coming.after {m : Step α} {f : α → Step β} {endStream : Bool} (hm : Tending id m)
    (hf : ∀ a, Coming id endStream (f a)) : Coming id endStream (m >>= f) := by
  intro c
  rw [Act.run_bind]
  have hstep := hm c
  rcases hrun : m.run c with ⟨e | a, c₁⟩
  · rw [hrun] at hstep
    exact hstep.comes endStream
  · rw [hrun] at hstep
    exact hstep.thenComes (hf a c₁)

/-! ## Field sections and bodies -/

/-- Changing the stream leaves it there. -/
theorem Comes.modify {endStream : Bool} (h : Comes id endStream c c₁) {f : H2Stream → H2Stream}
    (hf : ∀ stream, (f stream).windowRemote = stream.windowRemote) :
    Comes id endStream c { c₁ with streams := StreamMap.modify c₁.streams id f } where
  view := by
    have hview : ({ c₁.view with streams := StreamMap.modify c₁.streams id f } : View) =
        { c.view with streams := StreamMap.modify c₁.streams id f } := by rw [h.view]
    exact hview
  others other hne := by rw [StreamMap.lookup_modify, if_neg hne, h.others other hne]
  held stream' hstream' := by
    rw [StreamMap.lookup_modify, if_pos rfl] at hstream'
    obtain ⟨stream₁, hstream₁, rfl⟩ := Option.map_eq_some_iff.1 hstream'
    obtain ⟨stream, hstream, hwindow⟩ := h.held stream₁ hstream₁
    exact ⟨stream, hstream, (hf stream₁).trans hwindow⟩
  dropped hnone := by
    rw [StreamMap.lookup_modify, if_pos rfl, Option.map_eq_none_iff] at hnone
    exact h.dropped hnone

/-- What is held once a stream is dropped where it is closed. -/
theorem view_retire (id : ℕ) (c : H2Connection) : ((retire id).run c).2.view =
    { c.view with streams := ((retire id).run c).2.streams } ∧
      (((retire id).run c).2.streams = c.streams ∨ ((retire id).run c).2.streams = c.streams.erase id ∧
        ∃ stream, c.streams.lookup id = some stream ∧ stream.state = .closed) := by
  simp only [retire, Act.run_modify]
  split
  · next stream hstream =>
    split_ifs with hclosed
    · exact ⟨rfl, .inr ⟨rfl, stream, hstream, hclosed⟩⟩
    · exact ⟨rfl, .inl rfl⟩
  · exact ⟨rfl, .inl rfl⟩

theorem Comes.retire {endStream : Bool} (h : Comes id endStream c c₁)
    (hclosed : ∀ stream', c₁.streams.lookup id = some stream' → stream'.state = .closed → ∀ stream,
      c.streams.lookup id = some stream → stream.state.sendable = true → endStream = true ∧ stream.state = .halfClosedRemote) :
    Comes id endStream c ((H2Connection.retire id).run c₁).2 := by
  obtain ⟨hview, hstreams⟩ := view_retire id c₁
  refine ⟨by rw [hview, h.view], ?_, ?_, ?_⟩ <;> rcases hstreams with hsame | ⟨herased, stream₁, hstream₁, hends⟩
  · exact fun other hne => by rw [hsame, h.others other hne]
  · exact fun other hne => by rw [herased, AList.lookup_erase_ne hne, h.others other hne]
  · exact fun stream' hstream' => h.held stream' (hsame ▸ hstream')
  · intro stream' hstream'
    rw [herased, AList.lookup_erase] at hstream'
    cases hstream'
  · exact fun hnone => h.dropped (hsame ▸ hnone)
  · exact fun _ => hclosed stream₁ hstream₁ hends

/-- Where the peer ends a stream its message is taken off it, and it is dropped if this end has
    finished. -/
theorem coming_complete (id : ℕ) (endStream : Bool) : Coming id endStream (complete id endStream) := by
  intro c
  rw [complete, Act.run_bind_ok (show (modifyStream id _).run c = _ from rfl), Act.run_bind_ok (Act.run_get _)]
  generalize hf : (fun stream : H2Stream =>
    if endStream = true then { stream with state := stream.state.closeRemote } else stream) = f
  have hwindow : ∀ stream, (f stream).windowRemote = stream.windowRemote := by
    intro stream
    rw [← hf]
    dsimp only
    split_ifs <;> rfl
  have hcloses : ∀ stream, (f stream).state = .closed → stream.state.sendable = true →
      endStream = true ∧ stream.state = .halfClosedRemote := by
    intro stream
    rw [← hf]
    dsimp only
    split_ifs with hend
    · cases stream.state <;> simp [StreamState.closeRemote, StreamState.sendable, hend]
    · cases stream.state <;> simp [StreamState.sendable]
  have hchanged : Comes id endStream c { c with streams := StreamMap.modify c.streams id f } :=
    ((Unmoved.refl c).tends id |>.comes endStream).modify hwindow
  dsimp only
  split
  · exact hchanged
  · next stream hstream =>
    split
    · exact hchanged.thenUnmoved (((unmoving_noteIf rfl _).bind fun _ => unmoving_pure _) _)
    · -- The stream is closed where it was by now, whatever else is taken off it.
      refine (hchanged.modify (f := fun stream => { stream with headers := none, body := [] }) fun _ => rfl).retire ?_
      intro stream' hstream' hclosed stream₀ hstream₀ hsendable
      rw [StreamMap.lookup_modify, if_pos rfl, StreamMap.lookup_modify, if_pos rfl, hstream₀] at hstream'
      cases hstream'
      exact hcloses stream₀ hclosed hsendable

theorem tending_absorbMessage (world : World) (id : ℕ) (fields : List HeaderField) :
    Tending id (absorbMessage world id fields) := by
  refine (unmoving_ofExcept _).tending.bind fun m => unmoving_get.tending.bind fun c =>
    Tending.bind (tending_modifyStream fun stream => ?_) fun _ => ?_
  · split_ifs <;> exact ⟨rfl, .inl rfl⟩
  · split_ifs
    · exact Tending.bind (tending_modifyStream fun _ => ⟨rfl, .inr rfl⟩) fun _ => (unmoving_pure _).tending
    · exact Tending.bind (tending_modifyStream fun _ => ⟨rfl, .inl rfl⟩) fun _ => (unmoving_pure _).tending

theorem coming_settleSection (id : ℕ) (endStream : Bool) : Coming id endStream (settleSection id endStream) := by
  refine Coming.after (tending_modifyStream fun _ => ⟨rfl, .inr rfl⟩) fun _ =>
    Coming.after (unmoving_openStream id).tending fun stream => ?_
  split_ifs
  · exact coming_complete id endStream
  · exact (unmoving_pure _).tending.coming endStream

theorem coming_foldSection (world : World) (id : ℕ) (fields : List HeaderField) (endStream : Bool) :
    Coming id endStream (foldSection world id fields endStream) := by
  refine Coming.after (unmoving_openStream id).tending fun stream => ?_
  split_ifs
  · refine Coming.after ?_ fun _ => coming_settleSection id endStream
    exact (unmoving_ofExcept _).tending.bind fun _ => tending_modifyStream fun _ => ⟨rfl, .inl rfl⟩
  · refine Coming.after (tending_absorbMessage world id fields) fun informational => ?_
    split
    · exact Coming.after (unmoving_noteIf rfl _).tending fun _ => (unmoving_pure _).tending.coming endStream
    · exact coming_settleSection id endStream

/-- A field section is progress, and else for its stream alone. -/
theorem finishHeaders_comes (world : World) (id : ℕ) (block : Octets) (endStream : Bool) (c : H2Connection) :
    Comes id endStream { c with idleFrames := 0 } ((finishHeaders world id block endStream).run c).2 := by
  rw [finishHeaders, Act.run_bind_ok (Act.run_modify _ c)]
  suffices hrest : Coming id endStream _ from hrest _
  refine Coming.after (unmoving_openStream id).tending fun _ => Coming.after (tending_modifyStream fun _ => ⟨rfl, .inl rfl⟩)
    fun _ => Coming.after (unmoving_openStream id).tending fun _ => Coming.after unmoving_get.tending fun _ =>
      Coming.after (unmoving_demand _ _).tending fun _ => Coming.after ?_ fun fields =>
        Coming.after (unmoving_demand _ _).tending fun _ => coming_foldSection world id fields endStream
  exact Unmoving.tending fun _ => rfl

theorem coming_absorbData (id : ℕ) (endStream : Bool) (data : Octets) :
    Coming id endStream (absorbData id endStream data) := by
  have hover : Unmoving overbuffered := by
    intro c
    simp only [overbuffered, Act.run]
    split_ifs <;> rfl
  have hhold : Tending id (holdData id data) :=
    Tending.bind (tending_modifyStream fun _ => ⟨rfl, .inl rfl⟩) fun _ => (unmoving_openStream id).tending.bind fun _ =>
      Unmoving.tending <| Unmoving.bind (fun _ => rfl) fun _ => unmoving_get.bind fun _ => (unmoving_demand _ _).bind fun _ =>
        (unmoving_demand _ _).bind fun _ => hover.bind fun _ => unmoving_demand _ _
  have hrestore : Tending id (restoreStream id data.length) := by
    refine unmoving_get.tending.bind fun c => ?_
    split_ifs
    · exact (unmoving_giveCredit id _).tending.bind fun _ => tending_modifyStream fun _ => ⟨rfl, .inl rfl⟩
    · exact (unmoving_pure _).tending
  refine Coming.after hhold fun _ => Coming.after (unmoving_note rfl).tending fun _ => Coming.after hrestore fun _ => ?_
  split_ifs with hend
  · exact hend ▸ coming_complete id true
  · exact (unmoving_pure _).tending.coming endStream

end H2Connection

end Soyokaze

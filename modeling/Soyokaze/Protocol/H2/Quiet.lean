import Soyokaze.Protocol.H2.Account

/-!
# Steps flow control has nothing to do with

Most of what a connection does leaves every window as it was, and writes frames that
are of no account. `Quiet` says so of two states, and every such step is shown to be
so, whether it succeeds or not.

* `Quiet.balanced`: such steps keep a connection in balance;
* `readFrame_read`: reading a frame records it, and is quiet but for that.
-/

namespace Soyokaze

open H2

namespace H2Connection

/-- Two states between which flow control went nowhere: the windows are what they were, no
    stream was opened, and nothing passed that is of account. Nothing is given back to the
    source. -/
structure Quiet (c c' : H2Connection) : Prop where
  windowLocal : c'.windowLocal = c.windowLocal
  windowRemote : c'.windowRemote = c.windowRemote
  settingsLocal : c'.settingsLocal = c.settingsLocal
  settingsRemote : c'.settingsRemote = c.settingsRemote
  nextStreamId : c.nextStreamId ≤ c'.nextStreamId
  stream : ∀ id stream', c'.streams.lookup id = some stream' → ∃ stream, c.streams.lookup id = some stream ∧
    stream'.windowLocal = stream.windowLocal ∧ stream'.windowRemote = stream.windowRemote
  passed : ∃ entries, c'.passed = entries ++ c.passed ∧ ∀ e ∈ entries, e.quiet = true
  left : c'.source.left ≤ c.source.left

namespace Quiet

theorem refl (c : H2Connection) : Quiet c c :=
  ⟨rfl, rfl, rfl, rfl, Nat.le_refl _, fun _ stream' h => ⟨stream', h, rfl, rfl⟩,
    ⟨[], rfl, fun _ h => absurd h List.not_mem_nil⟩, Nat.le_refl _⟩

theorem trans {a b c : H2Connection} (h : Quiet a b) (h' : Quiet b c) : Quiet a c where
  windowLocal := h'.windowLocal.trans h.windowLocal
  windowRemote := h'.windowRemote.trans h.windowRemote
  settingsLocal := h'.settingsLocal.trans h.settingsLocal
  settingsRemote := h'.settingsRemote.trans h.settingsRemote
  nextStreamId := h.nextStreamId.trans h'.nextStreamId
  stream id stream'' hstream'' := by
    obtain ⟨stream', hstream', hlocal', hremote'⟩ := h'.stream id stream'' hstream''
    obtain ⟨stream, hstream, hlocal, hremote⟩ := h.stream id stream' hstream'
    exact ⟨stream, hstream, hlocal'.trans hlocal, hremote'.trans hremote⟩
  passed := by
    obtain ⟨entries, hentries, hquiet⟩ := h.passed
    obtain ⟨entries', hentries', hquiet'⟩ := h'.passed
    refine ⟨entries' ++ entries, ?_, ?_⟩
    · rw [hentries', hentries, List.append_assoc]
    · intro e he
      rcases List.mem_append.1 he with he | he
      · exact hquiet' e he
      · exact hquiet e he
  left := h'.left.trans h.left

/-- What flow control knows of a connection. -/
def core (c : H2Connection) : ℤ × ℤ × Settings × Settings × ℕ × StreamMap H2Stream × List Passed :=
  (c.windowLocal, c.windowRemote, c.settingsLocal, c.settingsRemote, c.nextStreamId, c.streams, c.passed)

theorem of_core_le {c c' : H2Connection} (h : core c' = core c) (hleft : c'.source.left ≤ c.source.left) :
    Quiet c c' := by
  simp only [core, Prod.mk.injEq] at h
  obtain ⟨hlocal, hremote, hannounced, hsettings, hnext, hstreams, hpassed⟩ := h
  exact ⟨hlocal, hremote, hannounced, hsettings, hnext.ge, fun _ stream' h => ⟨stream', hstreams ▸ h, rfl, rfl⟩,
    ⟨[], hpassed, fun _ h => absurd h List.not_mem_nil⟩, hleft⟩

theorem of_core {c c' : H2Connection} (h : core c' = core c ∧ c'.source = c.source) : Quiet c c' :=
  of_core_le h.1 (congrArg Source.left h.2).le

/-- The record tells the same of flow control before and after. -/
theorem same {c c' : H2Connection} (h : Quiet c c') : Same c'.passed c.passed := by
  obtain ⟨entries, hentries, hquiet⟩ := h.passed
  rw [hentries]
  exact Same.of_quiet hquiet c.passed

/-- The connection is in balance with whatever record it was. -/
theorem balanced {c c' : H2Connection} {log : List Passed} (h : Quiet c c') (hbal : Balanced c log) :
    Balanced c' log where
  given := h.windowLocal.trans hbal.given
  held := h.windowRemote.trans hbal.held
  settings := h.settingsRemote.trans hbal.settings
  announced := by
    rw [h.settingsLocal]
    exact hbal.announced
  next := hbal.next.trans_le h.nextStreamId
  stream id stream' hstream' := by
    obtain ⟨stream, hstream, hlocal, hremote⟩ := h.stream id stream' hstream'
    obtain ⟨hid, hgiven, hheld⟩ := hbal.stream id stream hstream
    exact ⟨hid, hlocal.trans hgiven, hremote.trans hheld⟩

theorem keeps_balance {c c' : H2Connection} (h : Quiet c c') (hbal : Balanced c c.passed) : Balanced c' c'.passed :=
  (h.balanced hbal).congr h.same

end Quiet

/-! ## The steps there are -/

/-- A step that is quiet however it ends. -/
abbrev Quietly {α : Type} (m : Step α) : Prop := Act.Keeps Quiet m

variable {α β : Type}

theorem Quietly.bind {m : Step α} {f : α → Step β} (hm : Quietly m) (hf : ∀ a, Quietly (f a)) : Quietly (m >>= f) :=
  @Act.Keeps.bind _ _ _ _ Quiet Quiet.trans m f hm hf

theorem quietly_pure (a : α) : Quietly (pure a : Step α) := Act.keeps_of_eq Quiet.refl fun _ => rfl

theorem quietly_get : Quietly (Act.get : Step H2Connection) := Act.keeps_of_eq Quiet.refl fun _ => rfl

theorem quietly_fail (error : Error) : Quietly (Act.fail error : Step α) := Act.keeps_of_eq Quiet.refl fun _ => rfl

theorem quietly_ofExcept (x : Except Error α) : Quietly (Act.ofExcept x : Step α) :=
  Act.keeps_of_eq Quiet.refl fun _ => rfl

theorem quietly_demand (condition : Bool) (error : Error) : Quietly (Act.demand condition error : Step Unit) :=
  Act.keeps_of_eq Quiet.refl fun _ => rfl

theorem quietly_modify {f : H2Connection → H2Connection}
    (h : ∀ c, Quiet.core (f c) = Quiet.core c ∧ (f c).source = c.source) : Quietly (Act.modify f : Step Unit) :=
  fun c => .of_core (h c)

theorem quietly_await (look : Octets → Option (Except Error α)) (closed : Except Error α) :
    Quietly (reading (·.await look closed)) := fun c => .of_core_le rfl (Source.left_await_le c.source)

theorem quietly_consuming (count : ℕ) : Quietly (consuming count) :=
  fun c => .of_core_le rfl (Source.left_consume_le c.source count)

theorem quiet_note {e : Passed} (he : e.quiet = true) (c : H2Connection) :
    Quiet c { c with passed := e :: c.passed } :=
  ⟨rfl, rfl, rfl, rfl, Nat.le_refl _, fun _ stream' h => ⟨stream', h, rfl, rfl⟩, ⟨[e], rfl, fun e' he' => by
    rw [List.mem_singleton.1 he', he]⟩, Nat.le_refl _⟩

theorem quietly_note {e : Passed} (he : e.quiet = true) : Quietly (note e) := quiet_note he

/-- A record that may be made or not. -/
theorem quietly_noteIf {e : Passed} (he : e.quiet = true) (condition : Bool) : Quietly (noteIf condition e) := by
  rw [noteIf]
  split_ifs
  · exact quietly_note he
  · exact quietly_pure _

theorem quietly_fatal {m : Step α} (h : Quietly m) : Quietly (fatal m) := by
  intro c
  have hm := h c
  simp only [fatal, Act.run]
  rcases hrun : m c with ⟨error | a, c'⟩
  · rw [Act.run, hrun] at hm
    exact hm.trans (quiet_note rfl c')
  · rwa [Act.run, hrun] at hm

/-- Changing a stream is quiet where its windows stay what they are. -/
theorem quiet_modifyStream {f : H2Stream → H2Stream}
    (hf : ∀ stream, (f stream).windowLocal = stream.windowLocal ∧ (f stream).windowRemote = stream.windowRemote)
    (id : ℕ) (c : H2Connection) : Quiet c { c with streams := StreamMap.modify c.streams id f } where
  windowLocal := rfl
  windowRemote := rfl
  settingsLocal := rfl
  settingsRemote := rfl
  nextStreamId := Nat.le_refl _
  stream other stream' hstream' := by
    rw [StreamMap.lookup_modify] at hstream'
    split_ifs at hstream'
    · obtain ⟨stream, hstream, rfl⟩ := Option.map_eq_some_iff.1 hstream'
      exact ⟨stream, hstream, hf stream⟩
    · exact ⟨stream', hstream', rfl, rfl⟩
  passed := ⟨[], rfl, fun _ h => absurd h List.not_mem_nil⟩
  left := Nat.le_refl _

theorem quietly_modifyStream {f : H2Stream → H2Stream}
    {id : ℕ} (hf : ∀ stream, (f stream).windowLocal = stream.windowLocal ∧ (f stream).windowRemote = stream.windowRemote) :
    Quietly (modifyStream id f) := quiet_modifyStream hf id

theorem quiet_erase (id : ℕ) (c : H2Connection) : Quiet c { c with streams := c.streams.erase id } where
  windowLocal := rfl
  windowRemote := rfl
  settingsLocal := rfl
  settingsRemote := rfl
  nextStreamId := Nat.le_refl _
  stream other stream' hstream' := by
    by_cases h : other = id
    · rw [h, AList.lookup_erase] at hstream'
      cases hstream'
    · rw [AList.lookup_erase_ne h] at hstream'
      exact ⟨stream', hstream', rfl, rfl⟩
  passed := ⟨[], rfl, fun _ h => absurd h List.not_mem_nil⟩
  left := Nat.le_refl _

theorem quietly_openStream (id : ℕ) : Quietly (openStream id) := by
  refine Act.keeps_of_eq Quiet.refl fun c => ?_
  simp only [openStream, Act.run]
  split <;> rfl

theorem quietly_queue {frame : Frame} (h : (Passed.sent frame).quiet = true) : Quietly (queue frame) := fun c =>
  (quiet_note h c).trans (.of_core ⟨rfl, rfl⟩)

theorem quietly_flushOut : Quietly flushOut := by
  intro c
  simp only [flushOut, Act.run]
  split_ifs
  · exact .refl c
  · split
    · exact .of_core ⟨rfl, rfl⟩
    · exact (quiet_note rfl c).trans (.of_core ⟨rfl, rfl⟩)

theorem quietly_write {frame : Frame} (h : (Passed.sent frame).quiet = true) : Quietly (write frame) :=
  Quietly.bind (quietly_queue h) fun _ => quietly_flushOut

theorem quietly_overloaded (reason : String) (quoted : List Quoted) : Quietly (overloaded reason quoted : Step α) :=
  fun c => quietly_write rfl c

theorem quietly_reset (id errorCode : ℕ) : Quietly (reset id errorCode) :=
  Quietly.bind (quiet_erase id) fun _ => quietly_write rfl

theorem quietly_retire (id : ℕ) : Quietly (retire id) := by
  intro c
  simp only [retire, Act.run_modify]
  split
  · split_ifs
    · exact quiet_erase id c
    · exact .refl c
  · exact .refl c

theorem quietly_idle : Quietly idle := by
  refine Quietly.bind (quietly_modify fun _ => ⟨rfl, rfl⟩) fun _ => Quietly.bind quietly_get fun c => ?_
  split_ifs
  · exact quietly_overloaded _ _
  · exact quietly_pure _

theorem quietly_advanced (progress : Bool) : Quietly (advanced progress) := by
  rw [advanced]
  split_ifs
  · exact quietly_modify fun _ => ⟨rfl, rfl⟩
  · exact quietly_idle

theorem quietly_exchangePreface : Quietly exchangePreface := by
  refine Quietly.bind quietly_get fun c => ?_
  split_ifs
  · exact quietly_modify fun _ => ⟨rfl, rfl⟩
  · exact Quietly.bind (quietly_await _ _) fun _ => Quietly.bind (quietly_demand _ _) fun _ => quietly_consuming _

theorem quietly_start : Quietly start := by
  refine Quietly.bind quietly_get fun c => ?_
  split_ifs
  · exact quietly_pure _
  · exact quietly_fatal <| Quietly.bind (quietly_modify fun _ => ⟨rfl, rfl⟩) fun _ => Quietly.bind quietly_exchangePreface fun _ =>
      Quietly.bind (quietly_modify fun _ => ⟨rfl, rfl⟩) fun _ => Quietly.bind quietly_get fun _ => Quietly.bind (quietly_queue rfl) fun _ =>
        quietly_flushOut

theorem quietly_resetAll (pending : List (ℕ × ℕ)) : Quietly (resetAll pending) := by
  induction pending with
  | nil => exact quietly_pure _
  | cons entry pending ih => exact Quietly.bind (quietly_queue rfl) fun _ => Quietly.bind (quiet_erase _) fun _ => ih

theorem quietly_flushResets : Quietly flushResets := by
  refine Quietly.bind quietly_get fun c => ?_
  split_ifs
  · exact Quietly.bind (quietly_modify fun _ => ⟨rfl, rfl⟩) fun _ => quietly_resetAll _
  · exact quietly_pure _

theorem quietly_flushBeforeWaiting : Quietly flushBeforeWaiting := by
  refine Quietly.bind quietly_get fun c => ?_
  split_ifs
  · exact quietly_flushOut
  · exact quietly_pure _

theorem quietly_flushIfDrained : Quietly flushIfDrained := by
  refine Quietly.bind quietly_get fun c => ?_
  split_ifs
  · exact quietly_flushOut
  · exact quietly_pure _

/-- That a frame was acted on is of no account. -/
theorem quietly_noteHandled (frame : Frame) (m : Option Message) : Quietly (do
    let c ← Act.get
    note (.handled frame c.lingering)
    return m) :=
  Quietly.bind quietly_get fun _ => Quietly.bind (quietly_note rfl) fun _ => quietly_pure m

/-! ## Field sections -/

theorem quietly_complete (id : ℕ) (endStream : Bool) : Quietly (complete id endStream) := by
  refine Quietly.bind (quietly_modifyStream fun stream => ?_) fun _ => Quietly.bind quietly_get fun c => ?_
  · split_ifs <;> exact ⟨rfl, rfl⟩
  · split
    · exact quietly_pure _
    · split
      · exact Quietly.bind (quietly_noteIf rfl _) fun _ => quietly_pure _
      · exact Quietly.bind (quietly_modifyStream fun _ => ⟨rfl, rfl⟩) fun _ => Quietly.bind (quietly_retire id) fun _ =>
          quietly_pure _

theorem quietly_absorbTrailers (id : ℕ) (fields : List HeaderField) : Quietly (absorbTrailers id fields) :=
  Quietly.bind (quietly_ofExcept _) fun _ => quietly_modifyStream fun _ => ⟨rfl, rfl⟩

theorem quietly_absorbMessage (world : World) (id : ℕ) (fields : List HeaderField) :
    Quietly (absorbMessage world id fields) := by
  refine Quietly.bind (quietly_ofExcept _) fun m => Quietly.bind quietly_get fun c =>
    Quietly.bind (quietly_modifyStream fun stream => ?_) fun _ => ?_
  · split_ifs <;> exact ⟨rfl, rfl⟩
  · split_ifs
    · exact Quietly.bind (quietly_modifyStream fun _ => ⟨rfl, rfl⟩) fun _ => quietly_pure _
    · exact Quietly.bind (quietly_modifyStream fun _ => ⟨rfl, rfl⟩) fun _ => quietly_pure _

theorem quietly_settleSection (id : ℕ) (endStream : Bool) : Quietly (settleSection id endStream) := by
  refine Quietly.bind (quietly_modifyStream fun _ => ⟨rfl, rfl⟩) fun _ => Quietly.bind (quietly_openStream id) fun stream => ?_
  split_ifs
  · exact quietly_complete id endStream
  · exact quietly_pure _

theorem quietly_foldSection (world : World) (id : ℕ) (fields : List HeaderField) (endStream : Bool) :
    Quietly (foldSection world id fields endStream) := by
  refine Quietly.bind (quietly_openStream id) fun stream => ?_
  split_ifs
  · exact Quietly.bind (quietly_absorbTrailers id fields) fun _ => quietly_settleSection id endStream
  · refine Quietly.bind (quietly_absorbMessage world id fields) fun informational => ?_
    split
    · exact Quietly.bind (quietly_noteIf rfl _) fun _ => quietly_pure _
    · exact quietly_settleSection id endStream

theorem quietly_finishHeaders (world : World) (id : ℕ) (block : Octets) (endStream : Bool) :
    Quietly (finishHeaders world id block endStream) :=
  Quietly.bind (quietly_modify fun _ => ⟨rfl, rfl⟩) fun _ => Quietly.bind (quietly_openStream id) fun _ =>
    Quietly.bind (quietly_modifyStream fun _ => ⟨rfl, rfl⟩) fun _ => Quietly.bind (quietly_openStream id) fun _ =>
      Quietly.bind quietly_get fun _ => Quietly.bind (quietly_demand _ _) fun _ => Quietly.bind (fun _ => .of_core ⟨rfl, rfl⟩) fun _ =>
        Quietly.bind (quietly_demand _ _) fun _ => quietly_foldSection world id _ endStream

theorem quietly_finishGathered (world : World) (id : ℕ) (endStream : Bool) :
    Quietly (finishGathered world id endStream) :=
  Quietly.bind (quietly_openStream id) fun _ => Quietly.bind (quietly_modifyStream fun _ => ⟨rfl, rfl⟩) fun _ =>
    quietly_finishHeaders world id _ endStream

theorem quietly_checkBlock (id : ℕ) : Quietly (checkBlock id) := Quietly.bind quietly_get fun _ => quietly_demand _ _

theorem quietly_countPremature : Quietly countPremature := by
  refine Quietly.bind (quietly_modify fun _ => ⟨rfl, rfl⟩) fun _ => Quietly.bind quietly_get fun c => ?_
  split_ifs
  · exact quietly_overloaded _ _
  · exact quietly_pure _

theorem quietly_handleReset (id : ℕ) : Quietly (handleReset id) := by
  refine Quietly.bind quietly_idle fun _ => Quietly.bind quietly_get fun c => Quietly.bind (quiet_erase id) fun _ => ?_
  split
  · split_ifs
    · exact quietly_countPremature
    · exact quietly_pure _
  · exact quietly_pure _

/-! ## Reading -/

/-- What reading leads to: nothing of account but that a frame of a known type was read. It
    takes something off the source whatever the type is. -/
def Read (c c' : H2Connection) : Except UInt8 Frame → Prop
  | .error _ => Quiet c c' ∧ c'.source.left < c.source.left
  | .ok frame => ∃ c₁ header payload, Quiet c c₁ ∧ c₁.source.left < c.source.left ∧
      Frame.assemble header payload = .ok frame ∧ payload.length ≤ c₁.settingsLocal.maxFrameSize ∧
      c' = { c₁ with passed := .received header payload :: c₁.passed }

theorem Quiet.read {c c₁ c' : H2Connection} (h : Quiet c c₁) {kept : Except UInt8 Frame} (hread : Read c₁ c' kept) :
    Read c c' kept := by
  cases kept with
  | error kind => exact ⟨h.trans hread.1, hread.2.trans_le h.left⟩
  | ok frame =>
    obtain ⟨c₂, header, payload, hquiet, hleft, hassemble, hlength, hc'⟩ := hread
    exact ⟨c₂, header, payload, h.trans hquiet, hleft.trans_le h.left, hassemble, hlength, hc'⟩

theorem takeFrame_read {c c' : H2Connection} {length : ℕ} {header : Option FrameHeader} {kept : Except UInt8 Frame}
    (hdata : FrameHeader.SIZE + length ≤ c.source.data.length)
    (hheader : ∀ header' ∈ header, header'.length ≤ c.settingsLocal.maxFrameSize)
    (h : (takeFrame length header).run c = (.ok kept, c')) : Read c c' kept := by
  obtain ⟨_, _, hget, h⟩ := Act.of_run_bind_ok h
  cases hget
  obtain ⟨_, c₁, hconsume, h⟩ := Act.of_run_bind_ok h
  have hquiet := (quietly_consuming _).leads _ _ _ hconsume
  have hleft : c₁.source.left < c.source.left := by
    cases hconsume
    rw [← Source.left_consume hdata]
    exact Nat.lt_add_of_pos_right (Nat.lt_of_lt_of_le (by decide : 0 < FrameHeader.SIZE) (Nat.le_add_right _ _))
  rcases header with _ | header
  · cases h
    exact ⟨hquiet, hleft⟩
  · obtain ⟨_, c₂, hnote, h⟩ := Act.of_run_bind_ok h
    cases hnote
    rw [Act.run_map, Act.run_ofExcept] at h
    rcases hassemble : Frame.assemble header _ with error | frame <;> rw [hassemble] at h <;> cases h
    refine ⟨c₁, header, _, hquiet, hleft, hassemble, ?_, rfl⟩
    rw [(Frame.of_assemble hassemble).1, hquiet.settingsLocal]
    exact hheader header rfl

/-- Reading a frame records it where it is of a known type, and is quiet but for that. -/
theorem readFrameKept_read {c c' : H2Connection} {kept : Except UInt8 Frame}
    (h : readFrameKept.run c = (.ok kept, c')) : Read c c' kept := by
  obtain ⟨_, c₁, hflush, h⟩ := Act.of_run_bind_ok h
  refine (quietly_flushBeforeWaiting.leads _ _ _ hflush).read ?_
  obtain ⟨_, _, hget, h⟩ := Act.of_run_bind_ok h
  cases hget
  obtain ⟨⟨length, header⟩, c₂, hread, h⟩ := Act.of_run_bind_ok h
  have hquiet := (quietly_await _ _).leads _ _ _ hread
  obtain ⟨hmax, hdata, hlength⟩ := Frame.of_whole (Source.await_accepted (congrArg Prod.fst hread))
  refine hquiet.read (takeFrame_read ?_ (fun header' hheader' => ?_) h)
  · obtain rfl : _ = c₂ := congrArg Prod.snd hread
    exact hdata
  · rw [hquiet.settingsLocal, hlength header' hheader']
    exact hmax

theorem readFrameLoop_read {fuel : ℕ} {c c' : H2Connection} {frame : Frame}
    (h : (readFrameLoop fuel).run c = (.ok frame, c')) : Read c c' (.ok frame) := by
  induction fuel generalizing c with
  | zero => cases h
  | succ fuel ih =>
    obtain ⟨kept, c₁, hkept, h⟩ := Act.of_run_bind_ok h
    have hread := readFrameKept_read hkept
    cases kept with
    | error kind => exact Quiet.read hread.1 (ih h)
    | ok frame' =>
      cases h
      exact hread

theorem readFrame_read {c c' : H2Connection} {frame : Frame} (h : readFrame.run c = (.ok frame, c')) :
    Read c c' (.ok frame) := readFrameLoop_read h

/-- More fuel than the source has left reads nothing more. -/
theorem readFrameLoop_fuel {fuel : ℕ} {c : H2Connection} (h : c.source.left < fuel) :
    (readFrameLoop (fuel + 1)).run c = (readFrameLoop fuel).run c := by
  induction fuel generalizing c with
  | zero => exact absurd h (Nat.not_lt_zero _)
  | succ fuel ih =>
    rw [readFrameLoop, readFrameLoop, Act.run_bind, Act.run_bind]
    rcases hkept : readFrameKept.run c with ⟨error | kind | frame, c₁⟩
    · rfl
    · exact ih (Nat.lt_of_lt_of_le (readFrameKept_read hkept).2 (Nat.le_of_lt_succ h))
    · rfl

end H2Connection

end Soyokaze

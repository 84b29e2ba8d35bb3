import Soyokaze.Protocol.H3.Tunnels

/-!
# Messages for streams that are gone

A message names the stream it goes on, and the stream may be gone by the time the message
is to be sent: the peer or the handle reset it, it failed, or both ends had finished.

* `H3Worker.send_revives`: sending the message makes the stream anew, and there it stays.
-/

namespace Soyokaze

open H3

namespace H3Session

variable {s s' : H3Session} {id : ℕ}

/-- A stream is held whose peer has not finished. -/
def Held (id : ℕ) (s : H3Session) : Prop := ∃ state, s.streams.lookup id = some state ∧ state.eof = false

/-- A stream that was held with more to come still is. -/
def Holding (id : ℕ) (s s' : H3Session) : Prop := Held id s → Held id s'

theorem Holding.refl (s : H3Session) : Holding id s s := fun h => h

theorem Holding.trans {a b c : H3Session} (h : Holding id a b) (h' : Holding id b c) : Holding id a c := fun ha => h' (h ha)

/-- A step that leaves streams held. -/
abbrev Holds (id : ℕ) {α : Type} (m : Step α) : Prop := Act.Keeps (Holding id) m

theorem Holds.bind {α β : Type} {m : Step α} {f : α → Step β} (hm : Holds id m) (hf : ∀ a, Holds id (f a)) :
    Holds id (m >>= f) :=
  @Act.Keeps.bind _ _ _ _ (Holding id) Holding.trans m f hm hf

theorem holds_of_streams {α : Type} {m : Step α} (h : ∀ s, (m.run s).2.streams = s.streams) : Holds id m := by
  rintro s ⟨state, hstate, heof⟩
  exact ⟨state, (congrArg _ (h s)).trans hstate, heof⟩

theorem holds_entry (other : ℕ) : Holds id (entry other) := by
  rintro s ⟨state, hstate, heof⟩
  simp only [Act.run, entry, Act.modify]
  split_ifs with h
  · exact ⟨state, hstate, heof⟩
  · have hne : id ≠ other := by
      rintro rfl
      rw [hstate] at h
      exact h rfl
    exact ⟨state, (AList.lookup_insert_ne hne).trans hstate, heof⟩

/-- A stream that is seen to be there is held, unless it was there with its peer finished. -/
theorem held_entry (h : s.streams.lookup id = none) : Held id ((entry id).run s).2 := by
  refine ⟨.new, ?_, rfl⟩
  simp only [Act.run, entry, Act.modify, h]
  exact AList.lookup_insert _

theorem holds_modifyStream {other : ℕ} {f : StreamState → StreamState} (hf : ∀ state, (f state).eof = state.eof) :
    Holds id (modifyStream other f) := by
  rintro s ⟨state, hstate, heof⟩
  have hlookup : ((modifyStream other f).run s).2.streams.lookup id = (StreamMap.modify s.streams other f).lookup id := rfl
  rw [Held, hlookup, StreamMap.lookup_modify, hstate]
  split_ifs
  · exact ⟨f state, rfl, (hf state).trans heof⟩
  · exact ⟨state, rfl, heof⟩

theorem holds_stream (other : ℕ) : Holds id (stream other) := holds_of_streams fun s => by
  simp only [Act.run, stream]
  split <;> rfl

theorem holds_writeTrailers (other : ℕ) (trailers : Option Headers) : Holds id (writeTrailers other trailers) := by
  cases trailers with
  | none => exact holds_of_streams fun _ => rfl
  | some trailers =>
    rw [writeTrailers]
    split_ifs
    · exact holds_of_streams fun _ => rfl
    · exact holds_of_streams fun _ => rfl

theorem holds_frameMessage (world : World) (m : Message) : Holds id (frameMessage world id m) := by
  refine Holds.bind (holds_of_streams fun _ => rfl) fun s => ?_
  refine Holds.bind (holds_of_streams fun _ => rfl) fun m => ?_
  refine Holds.bind (holds_of_streams fun _ => rfl) fun fields => ?_
  refine Holds.bind (holds_of_streams fun _ => rfl) fun head => ?_
  refine Holds.bind (holds_of_streams fun _ => rfl) fun body => ?_
  refine (holds_writeTrailers id _).bind fun trailers => (holds_entry id).bind fun _ => ?_
  refine Holds.bind (holds_modifyStream fun state => ?_) fun _ => (holds_stream id).bind fun state => ?_
  · split_ifs <;> rfl
  · exact Holds.bind (holds_modifyStream fun _ => rfl) fun _ => holds_of_streams fun _ => rfl

/-- A stream whose peer has not finished is not finished with. -/
theorem holds_retire : Holds id (retire id) := by
  rintro s ⟨state, hstate, heof⟩
  have hspent : ((s.streams.lookup id).map (·.spent)).getD false = false := by
    rw [hstate, Option.map_some, Option.getD_some, StreamState.spent, heof, Bool.and_false]
    rfl
  rw [retire, Act.run_bind_ok (Act.run_get s), if_neg (by rw [hspent]; exact Bool.false_ne_true)]
  exact ⟨state, hstate, heof⟩

end H3Session

namespace H3Worker

variable {w : H3Worker} {id : ℕ} {m : Message}

/-- A stream that was held with more to come still is. -/
def Holding (id : ℕ) (w w' : H3Worker) : Prop := H3Session.Holding id w.session w'.session

theorem Holding.trans {a b c : H3Worker} (h : Holding id a b) (h' : Holding id b c) : Holding id a c :=
  H3Session.Holding.trans h h'

/-- A step of the worker that leaves the session's streams held. -/
abbrev Holds (id : ℕ) {α : Type} (m : Step α) : Prop := Act.Keeps (Holding id) m

theorem Holds.bind {α β : Type} {m : Step α} {f : α → Step β} (hm : Holds id m) (hf : ∀ a, Holds id (f a)) :
    Holds id (m >>= f) :=
  @Act.Keeps.bind _ _ _ _ (Holding id) Holding.trans m f hm hf

theorem holds_of_session {α : Type} {m : Step α} (h : ∀ w, (m.run w).2.session = w.session) : Holds id m := fun w => by
  rw [Holding, h]
  exact H3Session.Holding.refl _

theorem holds_onSession {α : Type} {m : H3Session.Step α} (h : H3Session.Holds id m) : Holds id (onSession m) :=
  fun w => h w.session

theorem holds_tell (event : H3Event) : Holds id (tell event) := holds_of_session fun w => by
  rcases h : w.events.trySend with ⟨_ | _ | _, events⟩ <;> simp only [Act.run, tell, h]

theorem holds_dropOutbound (other : ℕ) : Holds id (dropOutbound other) := holds_of_session fun w => by
  simp only [Act.run, dropOutbound, Act.modify]
  split <;> rfl

theorem holds_flushStream (other : ℕ) : Holds id (flushStream other) := by
  refine Act.keeps_get_bind fun w => ?_
  split
  · exact H3Session.Holding.refl _
  · split_ifs
    · exact H3Session.Holding.refl _
    · refine Holds.bind (holds_of_session fun _ => rfl) (fun outcome => ?_) w
      split
      · exact holds_of_session fun _ => rfl
      · exact holds_of_session fun _ => rfl
      · exact (holds_dropOutbound _).bind fun _ => (holds_tell _).bind fun _ => holds_of_session fun _ => rfl

theorem holds_frameInto (world : World) (m : Message) : Holds id (frameInto world id m) := by
  refine Holds.bind (holds_of_session fun _ => rfl) fun w => ?_
  refine Holds.bind (holds_of_session fun w => ?_) fun _ => ?_
  · simp only [Act.run, claimOutbound, Act.modify]
    split_ifs <;> rfl
  · refine Holds.bind (holds_onSession (H3Session.holds_frameMessage world m)) fun outcome => ?_
    split
    · exact holds_of_session fun _ => rfl
    · exact holds_of_session fun _ => rfl

/-- Sending a message on a stream that is not there makes the stream, and leaves it there. -/
theorem sendMessage_held (world : World) (hid : m.streamId = some id) (hgone : w.session.streams.lookup id = none) :
    H3Session.Held id ((sendMessage world m).run w).2.session := by
  have hstream : (streamOf m).run w = (.ok id, w) := by
    rw [streamOf, hid]
    rfl
  have hentry : (onSession (H3Session.entry id)).run w =
      (.ok (), { w with session := ((H3Session.entry id).run w.session).2 }) := rfl
  have hrest : Holds id (do
      onSession (H3Session.modifyStream id fun state => { state with responded := true })
      frameInto world id m
      flushStream id
      onSession (H3Session.retire id)) := by
    refine Holds.bind (holds_onSession (H3Session.holds_modifyStream fun _ => rfl)) fun _ => ?_
    exact (holds_frameInto world m).bind fun _ => (holds_flushStream id).bind fun _ =>
      holds_onSession H3Session.holds_retire
  have hheld := hrest { w with session := ((H3Session.entry id).run w.session).2 } (H3Session.held_entry hgone)
  rwa [sendMessage, Act.run_bind_ok hstream, Act.run_bind_ok hentry]

/-- Nothing was made of a message: no stream, nothing to be sent, nothing framed. -/
structure Untouched (w w' : H3Worker) : Prop where
  streams : w'.session.streams = w.session.streams
  outbound : w'.outbound = w.outbound
  framed : ∀ id, writesOn id w'.passed = writesOn id w.passed

/-- A message for a stream that is gone, however it went, is never left at that: the stream
    is there again, with more to come on it, so that it is not retired either. -/
theorem send_revives (world : World) (hid : m.streamId = some id) (hgone : w.session.streams.lookup id = none) :
    H3Session.Held id ((execute world (.send m)).run w).2.session ∧ ¬Untouched w ((execute world (.send m)).run w).2 := by
  have hheld := sendMessage_held world hid hgone
  refine ⟨hheld, fun huntouched => ?_⟩
  obtain ⟨state, hstate, -⟩ := hheld
  have hsame := congrArg (AList.lookup id) huntouched.streams
  rw [hgone] at hsame
  exact absurd (hstate.symm.trans hsame) (Option.some_ne_none _)

/-- A server that is asked for a tunnel, and whose peer resets the stream before it answers. -/
def leaving : H3Worker :=
  after .bare (new (.new .origin .default) ⟨[], [some (.data connecting false), some .done, some (.reset 0x10c)]⟩ ⟨8, false⟩)
    [.established true, .reads [0], .reads [0]]

/-- The answer to it. -/
def granted : Message := { Message.response 200 .v3_0 with streamId := some 0 }

theorem send_revives_leaving : H3Session.Held 0 ((execute .bare (.send granted)).run leaving).2.session ∧
    ¬Untouched leaving ((execute .bare (.send granted)).run leaving).2 :=
  send_revives .bare rfl (by decide +kernel)

/-- The stream was there and was reset; the answer to it makes it anew, and goes out. -/
theorem answer_revives :
    leaving.prematureResets = 1 ∧ leaving.session.streams.lookup 0 = none ∧
      (((execute .bare (.send granted)).run leaving).2.session.streams.lookup 0).isSome = true ∧
      (writesOn 0 ((execute .bare (.send granted)).run leaving).2.passed).length = 1 := by
  refine ⟨?_, ?_, ?_, ?_⟩ <;> decide +kernel

end H3Worker

end Soyokaze

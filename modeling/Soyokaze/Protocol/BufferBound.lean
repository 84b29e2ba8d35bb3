import Soyokaze.Protocol.H2.Deeds
import Soyokaze.Protocol.H2.Lasting
import Soyokaze.Protocol.H2.Windows
import Soyokaze.Protocol.H3.Course
import Soyokaze.Protocol.Sums

/-!
# The bound on what is buffered

A connection does not add up what it has buffered each time octets come. It keeps a bound
that grows with all that comes, and adds up only where the bound is past the ceiling. As
octets are read away the bound stays, so it may be too high, and is never too low.

* `H2Connection.covered_perform`, `H3Worker.covering_take`: nothing that is done leaves the
  bound too low;
* `H2Connection.Covered.exact`, `H3Session.Covered.exact`: a bound that is not too low answers
  exactly;
* `buffer_bounds_exact`: so does every connection there is, and it refuses what goes past the
  ceiling.
-/

namespace Soyokaze

/-! ## HTTP/2 -/

section

open H2

theorem H2Stream.Mild.length_le {stream stream' : H2Stream} (h : H2Stream.Mild stream stream') :
    stream'.body.length ≤ stream.body.length := by
  rcases h.body with hbody | hbody <;> rw [hbody]
  exact Nat.zero_le _

namespace H2Connection

variable {c c' : H2Connection} {α : Type}

theorem buffered_eq (c : H2Connection) : c.buffered = StreamMap.sum c.streams (·.body.length) := by
  rw [buffered, StreamMap.sum, List.sum, List.foldr_map]

/-- The bound is no less than what is buffered, as far as a counter of its width goes. -/
def Covered (c : H2Connection) : Prop := saturating 64 c.buffered ≤ c.bufferedBound

theorem Covered.of_le (h : Covered c) (hbound : c'.bufferedBound = c.bufferedBound) (hle : c'.buffered ≤ c.buffered) :
    Covered c' := by
  rw [Covered, hbound]
  exact (min_le_min_right _ hle).trans h

theorem Covered.modify (h : Covered c) (id : ℕ) {f : H2Stream → H2Stream}
    (hf : ∀ stream, (f stream).body.length ≤ stream.body.length) :
    Covered { c with streams := StreamMap.modify c.streams id f } := by
  refine h.of_le rfl ?_
  rw [buffered_eq, buffered_eq]
  exact StreamMap.sum_modify_le c.streams id (n := 0) hf

theorem covered_modifyStream (id : ℕ) {f : H2Stream → H2Stream}
    (hf : ∀ stream, (f stream).body.length ≤ stream.body.length) : Survives Covered (modifyStream id f) :=
  fun _ hc => hc.modify id hf

theorem lasting_covered : Lasting Covered where
  congr hstreams _ _ hbound h := h.of_le hbound (by rw [buffered, buffered, hstreams])
  note _ h := h
  insert {c} id windowLocal windowRemote h := by
    refine h.of_le rfl ?_
    rw [buffered_eq, buffered_eq]
    exact (StreamMap.sum_insert_le c.streams id _ _).trans_eq (Nat.zero_add _)
  erase {c} id h := by
    refine h.of_le rfl ?_
    rw [buffered_eq, buffered_eq]
    exact StreamMap.sum_erase_le c.streams id _
  modify id hf h := h.modify id fun stream => (hf stream).length_le
  mapValues {c f} hf h := by
    refine h.of_le rfl ?_
    rw [buffered_eq, buffered_eq]
    exact StreamMap.sum_mapValues_le c.streams fun stream => (hf stream).length_le

/-! ### DATA -/

/-- The connection once it has taken in the DATA of a frame. -/
def laden (c : H2Connection) (id : ℕ) (data : Octets) : H2Connection :=
  { c with
    streams := StreamMap.modify c.streams id fun stream => { stream with body := stream.body ++ data }
    bufferedBound := saturating 64 (c.bufferedBound + data.length) }

theorem buffered_laden {id : ℕ} {stream : H2Stream} (h : c.streams.lookup id = some stream) (data : Octets) :
    (c.laden id data).buffered = c.buffered + data.length := by
  have hsum := StreamMap.sum_modify h (·.body.length) fun stream => { stream with body := stream.body ++ data }
  simp only [List.length_append] at hsum
  rw [buffered_eq, buffered_eq]
  change StreamMap.sum (StreamMap.modify c.streams id _) _ = _
  omega

/-- What comes raises the bound as it adds to a body. -/
theorem Covered.laden (h : Covered c) (id : ℕ) (data : Octets) : Covered (c.laden id data) := by
  have hgrows : (c.laden id data).buffered ≤ c.buffered + data.length := by
    rw [buffered_eq, buffered_eq]
    exact StreamMap.sum_modify_le c.streams id fun stream => (List.length_append ..).le
  have hbound : (c.laden id data).bufferedBound = saturating 64 (c.bufferedBound + data.length) := rfl
  rw [Covered, saturating] at h ⊢
  rw [hbound, saturating]
  omega

theorem covered_overbuffered : Survives Covered overbuffered := by
  intro c hc
  simp only [overbuffered, Act.run]
  split_ifs
  · exact hc
  · exact min_le_left _ _

theorem covered_holdData (id : ℕ) (data : Octets) : Survives Covered (holdData id data) := by
  intro c hc
  rw [holdData, Act.run_bind_ok (show (modifyStream id _).run c = _ from rfl), Act.run_bind]
  rcases hopen : (openStream id).run _ with ⟨error | stream, c₁⟩
  · obtain rfl : c₁ = _ := (congrArg Prod.snd hopen).symm.trans (openStream_snd ..)
    -- There is no such stream, and nothing was added to one.
    cases hstream : c.streams.lookup id with
    | none =>
      have hsame (f : H2Stream → H2Stream) : StreamMap.modify c.streams id f = c.streams := by
        rw [StreamMap.modify, hstream]
      dsimp only
      rw [hsame]
      exact hc
    | some stream =>
      simp only [openStream, Act.run, StreamMap.lookup_modify, if_true, hstream, Option.map_some] at hopen
      cases hopen
  · obtain rfl : c₁ = _ := (congrArg Prod.snd hopen).symm.trans (openStream_snd ..)
    have hrest : Survives Covered (do
        let c ← Act.get
        Act.demand (stream.body.length ≤ c.limits.maxMessageBodySize)
          (.limit "body exceeds {limit} octets" [.number c.limits.maxMessageBodySize])
        Act.demand (stream.received ≤ c.limits.maxMessageSize)
          (.limit "message exceeds {limit} octets" [.number c.limits.maxMessageSize])
        let exceeding ← overbuffered
        Act.demand (!exceeding) (.limit "buffered messages exceed {limit} octets" [.number c.limits.maxConnectionBufferSize])) :=
      Survives.get.bind fun _ => (Survives.demand _ _).bind fun _ => (Survives.demand _ _).bind fun _ =>
        covered_overbuffered.bind fun _ => Survives.demand _ _
    dsimp only
    rw [Act.run_bind_ok (Act.run_modify _ _)]
    exact hrest _ (hc.laden id data)

theorem covered_noteIf (condition : Bool) (e : Passed) : Survives Covered (noteIf condition e) := by
  rw [noteIf]
  split_ifs
  · exact fun _ hc => hc
  · exact Survives.pure _

theorem covered_complete (id : ℕ) (endStream : Bool) : Survives Covered (complete id endStream) := by
  refine Survives.bind (covered_modifyStream id fun stream => ?_) fun _ => Survives.get.bind fun c => ?_
  · split_ifs <;> exact le_rfl
  · split
    · exact Survives.pure _
    · split
      · exact (covered_noteIf _ _).bind fun _ => Survives.pure _
      · exact (covered_modifyStream id fun _ => Nat.zero_le _).bind fun _ => (lasting_covered.retire id).bind fun _ =>
          Survives.pure _

theorem covered_absorbData (id : ℕ) (endStream : Bool) (data : Octets) :
    Survives Covered (absorbData id endStream data) := by
  refine (covered_holdData id data).bind fun _ => Survives.bind (fun _ hc => hc) fun _ =>
    (lasting_covered.restoreStream id _).bind fun _ => ?_
  split_ifs
  · exact covered_complete id true
  · exact Survives.pure _

/-! ### Runs -/

theorem covered_act (world : World) (frame : Frame) : Survives Covered (act world frame) :=
  (lasting_covered.handle world (fun id endStream _ _ _ => covered_complete id endStream)
    fun id endStream data _ => covered_absorbData id endStream data).bind fun _ => Survives.get.bind fun _ =>
      Survives.bind (fun _ hc => hc) fun _ => Survives.pure _

theorem covered_flushResets : Survives Covered flushResets := lasting_covered.flushResets fun _ hc => hc

theorem covered_pump (world : World) : Survives Covered (pump world) :=
  lasting_covered.fatal <| lasting_covered.start.bind fun _ => covered_flushResets.bind fun _ =>
    lasting_covered.readFrame.bind fun _ => (covered_act world _).bind fun _ => lasting_covered.flushIfDrained.bind fun _ =>
      Survives.pure _

theorem covered_relay (world : World) : Survives Covered (relay world) :=
  lasting_covered.fatal <| lasting_covered.flushOut.bind fun _ => lasting_covered.readFrame.bind fun _ => covered_act world _

theorem covered_finishSending (id : ℕ) (m : Message) (open' : Bool) : Survives Covered (finishSending id m open') :=
  Survives.bind (covered_modifyStream id fun _ => le_rfl) fun _ => lasting_covered.retire id

theorem covered_mark (id code : ℕ) : Survives Covered (mark id code) := by
  intro c hc
  rw [mark, Act.run_modify]
  split_ifs
  · exact hc.modify id fun _ => le_rfl
  · exact hc

/-- Nothing that is done with a connection leaves its bound too low. -/
theorem covered_perform (world : World) (event : Event) : Survives Covered (perform world event) := by
  have hP := lasting_covered
  cases event with
  | receive => exact Act.Keeps.map (hP.receiveMessage (covered_pump world)) _
  | send m => exact Act.Keeps.map (hP.sendMessage (covered_pump world) covered_flushResets covered_finishSending m) _
  | pump => exact covered_pump world
  | relay => exact covered_relay world
  | writeData id data endStream => exact Act.Keeps.map (hP.writeData (covered_pump world) id data endStream) _
  | reset id code => exact Act.Keeps.map (hP.reset id code) _
  | mark id code => exact Act.Keeps.map (covered_mark id code) _
  | drain id => exact Act.Keeps.map (hP.drain id) _
  | close => exact Act.Keeps.map hP.close _

/-- So it is in every run, whatever came of what was done before. -/
theorem covered_performed (events : List (World × Event)) (hc : c.Covered) :
    (events.foldl (fun c event => ((perform event.1 event.2).run c).2) c).Covered := by
  induction events generalizing c with
  | nil => exact hc
  | cons event events ih => exact ih (covered_perform event.1 event.2 c hc)

/-! ### Answers -/

/-- The bound is no less than what is buffered, and by it a connection answers exactly whether that is past
    its ceiling. -/
structure Exact (c : H2Connection) : Prop where
  le : c.buffered ≤ c.bufferedBound
  answer : (overbuffered.run c).1 = .ok (decide (c.limits.maxConnectionBufferSize < c.buffered))
  aside : ∃ bound, (overbuffered.run c).2 = { c with bufferedBound := bound }

theorem Covered.exact (h : c.Covered) (hheld : c.buffered < 2 ^ 64) : c.Exact := by
  have hle : c.buffered ≤ c.bufferedBound := by
    rw [Covered, saturating] at h
    omega
  refine ⟨hle, ?_, ?_⟩
  · simp only [overbuffered, Act.run]
    split_ifs with hbound
    · rw [decide_eq_false (Nat.not_lt.2 (hle.trans hbound))]
    · rfl
  · simp only [overbuffered, Act.run]
    split_ifs
    · exact ⟨_, rfl⟩
    · exact ⟨_, rfl⟩

/-- DATA its stream has room for is refused exactly where it goes past the ceiling. -/
theorem Covered.holdData_eq (h : c.Covered) {id : ℕ} {stream : H2Stream} {data : Octets}
    (hstream : c.streams.lookup id = some stream) (hbody : stream.body.length + data.length ≤ c.limits.maxMessageBodySize)
    (hmessage : stream.received + data.length ≤ c.limits.maxMessageSize) (hheld : c.buffered + data.length < 2 ^ 64) :
    ((holdData id data).run c).1 = if c.limits.maxConnectionBufferSize < c.buffered + data.length then
      .error (.limit "buffered messages exceed {limit} octets" [.number c.limits.maxConnectionBufferSize])
    else .ok () := by
  obtain ⟨-, hanswer, -⟩ := (h.laden id data).exact ((buffered_laden hstream data).trans_lt hheld)
  have hlimits : (c.laden id data).limits = c.limits := rfl
  rw [buffered_laden hstream, hlimits] at hanswer
  have hopen : (openStream id).run { c with
      streams := StreamMap.modify c.streams id fun stream => { stream with body := stream.body ++ data } } =
      (.ok { stream with body := stream.body ++ data }, { c with
        streams := StreamMap.modify c.streams id fun stream => { stream with body := stream.body ++ data } }) := by
    simp only [openStream, Act.run, StreamMap.lookup_modify, if_true, hstream, Option.map_some]
  have hroom : (stream.body ++ data).length ≤ c.limits.maxMessageBodySize := by rwa [List.length_append]
  have hroom' : { stream with body := stream.body ++ data }.received ≤ c.limits.maxMessageSize := by
    rw [H2Stream.received, List.length_append, ← Nat.add_assoc]
    exact hmessage
  have hasks : (holdData id data).run c = (do
      let exceeding ← overbuffered
      Act.demand (!exceeding) (.limit "buffered messages exceed {limit} octets"
        [.number c.limits.maxConnectionBufferSize])).run (c.laden id data) := by
    rw [holdData, Act.run_bind_ok (show (modifyStream id _).run c = _ from rfl), Act.run_bind_ok hopen,
      Act.run_bind_ok (Act.run_modify _ _), Act.run_bind_ok (Act.run_get _), Act.run_bind_demand (decide_eq_true hroom),
      Act.run_bind_demand (decide_eq_true hroom')]
    rfl
  rw [hasks, Act.run_bind_ok (Prod.ext hanswer rfl), Act.run_demand]
  by_cases hpast : c.limits.maxConnectionBufferSize < c.buffered + data.length
  · rw [if_pos hpast, decide_eq_true hpast]
    rfl
  · rw [if_neg hpast, decide_eq_false hpast]
    rfl

end H2Connection

end

/-! ## HTTP/3 -/

section

open H3

namespace H3.Frame

theorem length_assemble_data {kind : FrameType} {payload octets : Octets} (h : assemble kind payload = .ok (.data octets)) :
    octets.length = payload.length := by
  cases kind with
  | data =>
    cases h
    rfl
  | headers => cases h
  | cancelPush | maxPushId | goAway | settings =>
    obtain ⟨_, -, heq⟩ := Except.map_eq_ok h
    cases heq
  | pushPromise =>
    rw [assemble] at h
    dsimp only at h
    split_ifs at h
    cases h

/-- What comes off a buffer was there: the body octets of a frame and what is left are no more than it. -/
theorem length_parse_le (buffer : Octets) : (parse buffer).2.length ≤ buffer.length ∧
    ∀ octets, (parse buffer).1 = .ok (some (.data octets)) → octets.length + (parse buffer).2.length ≤ buffer.length := by
  induction hlength : buffer.length using Nat.strong_induction_on generalizing buffer with
  | _ n ih =>
    subst hlength
    rw [parse_eq]
    rcases hwhole : whole buffer with _ | ⟨consumed, code, length⟩
    · exact ⟨le_rfl, fun _ h => by cases h⟩
    · have hle := le_of_whole hwhole
      have hless := length_drop_whole hwhole
      dsimp only
      split_ifs
      · exact ⟨le_rfl, fun _ h => by cases h⟩
      · cases FrameType.fromCode code with
        | none =>
          obtain ⟨hrest, hdata⟩ := ih _ hless (buffer.drop (consumed + length)) rfl
          exact ⟨hrest.trans hless.le, fun octets h => (hdata octets h).trans hless.le⟩
        | some kind =>
          refine ⟨hless.le, fun octets h => ?_⟩
          obtain ⟨frame, hframe, heq⟩ := Except.map_eq_ok h
          cases heq
          have hpayload := length_assemble_data hframe
          simp only [List.length_take, List.length_drop] at hpayload ⊢
          omega

end H3.Frame

namespace H3Session

variable {s s' : H3Session} {α β : Type} {world : World}

/-- How much one stream has buffered. -/
def weight (state : StreamState) : ℕ := state.buffer.length + state.body.length

theorem buffered_eq (s : H3Session) : s.buffered = StreamMap.sum s.streams weight := by
  rw [buffered, StreamMap.sum, List.sum, List.foldr_map]
  rfl

/-- The bound is no less than what is buffered, as far as a counter of its width goes. -/
def Covered (s : H3Session) : Prop := min s.buffered (2 ^ 64 - 1) ≤ s.bufferedBound

theorem Covered.of_le (h : Covered s) (hbound : s'.bufferedBound = s.bufferedBound) (hle : s'.buffered ≤ s.buffered) :
    Covered s' := by
  rw [Covered, hbound]
  exact (min_le_min_right _ hle).trans h

/-- A step that does not leave the bound too low, however it ends. -/
abbrev Covering (m : Step α) : Prop := Act.Keeps (fun s s' => Covered s → Covered s') m

namespace Covering

theorem bind {m : Step α} {f : α → Step β} (hm : Covering m) (hf : ∀ a, Covering (f a)) : Covering (m >>= f) :=
  Act.Keeps.bind (R := fun s s' => Covered s → Covered s') (fun h h' hs => h' (h hs)) hm hf

theorem pure (a : α) : Covering (Pure.pure a : Step α) := fun _ h => h

theorem get : Covering (Act.get : Step H3Session) := fun _ h => h

theorem fail (error : Error) : Covering (Act.fail error : Step α) := fun _ h => h

theorem ofExcept (x : Except Error α) : Covering (Act.ofExcept x : Step α) := fun _ h => h

theorem demand (condition : Bool) (error : Error) : Covering (Act.demand condition error : Step Unit) := fun _ h => h

/-- A step that leaves the streams and the bound alone. -/
theorem aside {m : Step α} (h : ∀ s, (m.run s).2.streams = s.streams ∧ (m.run s).2.bufferedBound = s.bufferedBound) :
    Covering m := by
  intro s hs
  obtain ⟨hstreams, hbound⟩ := h s
  exact hs.of_le hbound (by rw [buffered, buffered, hstreams])

theorem stream (id : ℕ) : Covering (stream id) := by
  refine aside fun s => ?_
  simp only [H3Session.stream, Act.run]
  split <;> exact ⟨rfl, rfl⟩

theorem modifyStream (id : ℕ) {f : StreamState → StreamState} (hf : ∀ state, weight (f state) ≤ weight state) :
    Covering (modifyStream id f) := by
  refine fun s hs => hs.of_le rfl ?_
  rw [buffered_eq, buffered_eq]
  exact StreamMap.sum_modify_le s.streams id (n := 0) hf

theorem insert {s : H3Session} (hs : Covered s) (id : ℕ) : Covered { s with streams := s.streams.insert id .new } := by
  refine hs.of_le rfl ?_
  rw [buffered_eq, buffered_eq]
  exact (StreamMap.sum_insert_le s.streams id _ _).trans_eq (Nat.zero_add _)

theorem entry (id : ℕ) : Covering (entry id) := by
  intro s hs
  rw [H3Session.entry, Act.run_modify]
  split_ifs
  · exact hs
  · exact insert hs id

theorem openBidi : Covering openBidi :=
  get.bind fun _ => bind (aside fun _ => ⟨rfl, rfl⟩) fun _ => (entry _).bind fun _ => pure _

theorem forget (id : ℕ) : Covering (forget id) := by
  refine fun s hs => hs.of_le rfl ?_
  rw [buffered_eq, buffered_eq]
  exact StreamMap.sum_erase_le s.streams id _

theorem retire (id : ℕ) : Covering (retire id) := by
  refine get.bind fun s => ?_
  split_ifs
  · exact forget id
  · exact pure _

/-! ### Sending -/

theorem writeBlock (id : ℕ) (fields : List HeaderField) : Covering (writeBlock id fields) := aside fun _ => ⟨rfl, rfl⟩

theorem writeTrailers (id : ℕ) (trailers : Option Headers) : Covering (writeTrailers id trailers) := by
  cases trailers with
  | none => exact pure _
  | some trailers =>
    refine (?_ : Covering (if trailers.fields.isEmpty then _ else _))
    split_ifs
    · exact pure _
    · exact writeBlock id _

theorem frameMessage (world : World) (id : ℕ) (m : Message) : Covering (frameMessage world id m) := by
  refine get.bind fun s => (ofExcept _).bind fun m => (ofExcept _).bind fun fields => (writeBlock id fields).bind fun _ =>
    (ofExcept _).bind fun _ => (writeTrailers id _).bind fun _ => (entry id).bind fun _ =>
      bind (modifyStream id fun state => ?_) fun _ => (stream id).bind fun _ =>
        bind (modifyStream id fun _ => le_rfl) fun _ => pure _
  split_ifs <;> exact le_rfl

/-! ### Receiving -/

theorem decodeBlock (id : ℕ) (block : Octets) : Covering (decodeBlock id block) := by
  refine aside fun s => ?_
  simp only [H3Session.decodeBlock, Act.run]
  split <;> exact ⟨rfl, rfl⟩

theorem absorbHeaders (world : World) (id : ℕ) (fields : List HeaderField) : Covering (absorbHeaders world id fields) := by
  refine get.bind fun s => (demand _ _).bind fun _ => (stream id).bind fun state => ?_
  split_ifs
  · exact (ofExcept _).bind fun _ => modifyStream id fun _ => le_rfl
  · refine (ofExcept _).bind fun m => bind (modifyStream id fun state => ?_) fun _ => (stream id).bind fun state => ?_
    · split_ifs <;> exact le_rfl
    · split_ifs
      · exact bind (modifyStream id fun _ => le_rfl) fun _ => aside fun _ => ⟨rfl, rfl⟩
      · exact modifyStream id fun _ => le_rfl

theorem absorbBlock (world : World) (id : ℕ) (block : Octets) : Covering (absorbBlock world id block) := by
  refine (decodeBlock id block).bind fun decoded => ?_
  split
  · exact (absorbHeaders world id _).bind fun _ => pure _
  · refine (stream id).bind fun _ => bind (modifyStream id fun _ => le_rfl) fun _ => bind (aside fun s => ?_) fun _ => pure _
    rw [Act.run_modify]
    split_ifs <;> exact ⟨rfl, rfl⟩
  · exact fail _

theorem retryBlock (world : World) (id : ℕ) (block : Octets) : Covering (retryBlock world id block) := by
  refine (decodeBlock id block).bind fun decoded => ?_
  split
  · exact (stream id).bind fun _ => bind (modifyStream id fun _ => le_rfl) fun _ =>
      bind (aside fun _ => ⟨rfl, rfl⟩) fun _ => (absorbHeaders world id _).bind fun _ => pure _
  · exact pure _
  · exact fail _

/-- A body grows by what comes to it, if anything does. -/
theorem absorbData_snd (s : H3Session) (id : ℕ) (octets : Octets) : ((absorbData id octets).run s).2 = s ∨
    ((absorbData id octets).run s).2 = { s with
      streams := StreamMap.modify s.streams id fun state => { state with body := state.body ++ octets } } := by
  rw [absorbData, Act.run_bind_ok (Act.run_get s)]
  cases hstream : s.streams.lookup id with
  | none =>
    have hclosed : (H3Session.stream id).run s = (.error .closed, s) := by simp only [H3Session.stream, Act.run, hstream]
    rw [Act.run_bind_error hclosed]
    exact .inl rfl
  | some state =>
    rw [Act.run_bind_ok (run_stream hstream)]
    cases hmessage : state.message.isSome with
    | false =>
      rw [Act.run_bind_refused rfl]
      exact .inl rfl
    | true =>
      rw [Act.run_bind_demand rfl, Act.run_bind_ok (show (H3Session.modifyStream id _).run s = _ from rfl), Act.run_bind]
      right
      simp only [Act.run_demand]
      split_ifs <;> rfl

/-- A frame of a request stream, of which the buffer may already be rid. -/
theorem absorbFrame (world : World) (id : ℕ) (hs : Covered s) {frame : Frame} (hbound : s'.bufferedBound = s.bufferedBound)
    (hle : s'.buffered ≤ s.buffered) (hdata : ∀ octets, frame = .data octets → octets.length + s'.buffered ≤ s.buffered) :
    Covered ((absorbFrame world id frame).run s').2 := by
  have hs' := hs.of_le hbound hle
  cases frame with
  | headers block => exact get.bind (fun _ => (demand _ _).bind fun _ => absorbBlock world id block) s' hs'
  | data octets =>
    have hroom := hdata octets rfl
    rcases absorbData_snd s' id octets with hsame | hgrown
    · exact hs'.of_le (congrArg bufferedBound hsame) (congrArg buffered hsame).le
    · refine hs.of_le ((congrArg bufferedBound hgrown).trans hbound) ((congrArg buffered hgrown).trans_le ?_)
      refine Nat.le_trans ?_ ((Nat.add_comm ..).trans_le hroom)
      rw [buffered_eq, buffered_eq]
      refine StreamMap.sum_modify_le s'.streams id fun state => ?_
      rw [weight, weight, List.length_append, Nat.add_assoc]
  | settings | goAway | maxPushId | cancelPush | pushPromise => exact hs'

/-- What a frame adds to the body of a stream was on its buffer. -/
theorem advanceOnce (world : World) (id : ℕ) : Covering (advanceOnce world id) := by
  refine Act.keeps_get_bind fun s hs => ?_
  cases hstream : s.streams.lookup id with
  | none => exact hs
  | some state =>
    dsimp only
    by_cases hraw : state.raw = true
    · rw [if_pos hraw]
      exact hs
    rw [if_neg hraw]
    cases hpending : state.pending with
    | some block => exact retryBlock world id block s hs
    | none =>
      obtain ⟨hrest, hdata⟩ := Frame.length_parse_le state.buffer
      have hsum := StreamMap.sum_modify hstream weight fun state => { state with buffer := (Frame.parse state.buffer).2 }
      set s' : H3Session := { s with
        streams := StreamMap.modify s.streams id fun state => { state with buffer := (Frame.parse state.buffer).2 } }
        with hs'
      have hheld : s'.buffered + state.buffer.length = s.buffered + (Frame.parse state.buffer).2.length := by
        simp only [weight] at hsum
        rw [buffered_eq, buffered_eq, hs']
        dsimp only
        omega
      have hle : s'.buffered ≤ s.buffered := by omega
      have hcovered : Covered s' := hs.of_le rfl hle
      have htaken : (H3Session.takeFrame id state).run s = ((Frame.parse state.buffer).1, s') := rfl
      dsimp only
      rw [Act.run_bind, htaken]
      rcases hparse : (Frame.parse state.buffer).1 with error | _ | frame
      · exact hcovered
      · exact hcovered
      · refine absorbFrame world id hs rfl hle fun octets heq => ?_
        have := hdata octets (by rw [hparse, heq])
        omega

theorem deliver (id : ℕ) : Covering (deliver id) := by
  refine (stream id).bind fun state => ?_
  by_cases hdelivered : state.delivered = true
  · rw [if_pos hdelivered]
    exact retire id
  · rw [if_neg hdelivered]
    split
    · exact fail _
    · refine bind (modifyStream id fun _ => ?_) fun _ => bind (aside fun _ => ⟨rfl, rfl⟩) fun _ => retire id
      exact Nat.add_le_add_left (Nat.zero_le _) _

theorem advanceLoop (world : World) (id fuel : ℕ) : Covering (advanceLoop world id fuel) := by
  induction fuel with
  | zero => exact pure _
  | succ fuel ih =>
    refine (advanceOnce world id).bind fun progress => ?_
    cases progress with
    | again => exact ih
    | stop => exact pure _
    | finish => exact deliver id

theorem advance (world : World) (id : ℕ) : Covering (advance world id) := get.bind fun _ => advanceLoop world id _

theorem overbuffered : Covering overbuffered := by
  intro s hs
  simp only [H3Session.overbuffered, Act.run]
  split_ifs
  · exact hs
  · exact min_le_left _ _

theorem admitStream (id : ℕ) : Covering (admitStream id) := by
  refine get.bind fun s => ?_
  split_ifs
  · exact pure _
  · exact (demand _ _).bind fun _ => aside fun _ => ⟨rfl, rfl⟩

theorem advanceAll (world : World) (ids : List ℕ) : Covering (advanceAll world ids) := by
  induction ids with
  | nil => exact pure _
  | cons id ids ih => exact (advance world id).bind fun _ => ih

theorem onEncoderBytes (world : World) (bytes : Octets) : Covering (onEncoderBytes world bytes) := by
  refine get.bind fun s => bind (aside fun _ => ⟨rfl, rfl⟩) fun _ => ?_
  split
  · exact fail _
  · split_ifs
    · exact pure _
    · exact advanceAll world _

theorem onDecoderBytes (bytes : Octets) : Covering (onDecoderBytes bytes) := by
  refine get.bind fun s => bind (aside fun _ => ⟨rfl, rfl⟩) fun _ => ?_
  split
  · exact fail _
  · exact pure _

theorem absorbControl (frame : Frame) : Covering (absorbControl frame) := by
  cases frame with
  | settings params =>
    exact get.bind fun _ => (demand _ _).bind fun _ => (ofExcept _).bind fun _ => aside fun _ => ⟨rfl, rfl⟩
  | goAway => exact aside fun _ => ⟨rfl, rfl⟩
  | maxPushId | cancelPush => exact pure _
  | data | headers | pushPromise => exact fail _

theorem controlLoop (fuel : ℕ) : Covering (controlLoop fuel) := by
  induction fuel with
  | zero => exact pure _
  | succ fuel ih =>
    refine get.bind fun s => bind (aside fun _ => ⟨rfl, rfl⟩) fun _ => (ofExcept _).bind fun frame => ?_
    cases frame with
    | none => exact pure _
    | some frame => exact (absorbControl frame).bind fun _ => ih

theorem onControlBytes (bytes : Octets) : Covering (onControlBytes bytes) :=
  bind (aside fun _ => ⟨rfl, rfl⟩) fun _ => get.bind fun _ => (demand _ _).bind fun _ => controlLoop _

theorem takeReady : Covering takeReady := by
  refine aside fun s => ?_
  simp only [H3Session.takeReady, Act.run]
  split <;> exact ⟨rfl, rfl⟩

end Covering

/-! ### Octets of a request stream -/

theorem buffered_received {id : ℕ} {state : StreamState} (h : s.streams.lookup id = some state) (bytes : Octets) (fin : Bool) :
    (s.received id bytes fin).buffered = s.buffered + bytes.length := by
  have hsum := StreamMap.sum_modify h weight fun state =>
    { state with buffer := state.buffer ++ bytes, eof := state.eof || fin }
  simp only [weight, List.length_append] at hsum
  rw [buffered_eq, buffered_eq]
  change StreamMap.sum (StreamMap.modify s.streams id _) weight = _
  omega

/-- What comes raises the bound as it adds to a buffer. -/
theorem Covered.received (h : Covered s) {id : ℕ} {state : StreamState} (hstream : s.streams.lookup id = some state)
    (bytes : Octets) (fin : Bool) : Covered (s.received id bytes fin) := by
  have hbound : (s.received id bytes fin).bufferedBound = min (s.bufferedBound + bytes.length) (2 ^ 64 - 1) := rfl
  rw [Covered] at h ⊢
  rw [hbound, buffered_received hstream]
  omega

/-- The bound is no less than what is buffered, and by it a session answers exactly whether that is past its
    ceiling. -/
structure Exact (s : H3Session) : Prop where
  le : s.buffered ≤ s.bufferedBound
  answer : (overbuffered.run s).1 = .ok (decide (s.limits.maxConnectionBufferSize < s.buffered))
  aside : ∃ bound, (overbuffered.run s).2 = { s with bufferedBound := bound }

theorem Covered.exact (h : s.Covered) (hheld : s.buffered < 2 ^ 64) : s.Exact := by
  have hle : s.buffered ≤ s.bufferedBound := by
    rw [Covered] at h
    omega
  refine ⟨hle, ?_, ?_⟩
  · simp only [overbuffered, Act.run]
    split_ifs with hbound
    · rw [decide_eq_false (Nat.not_lt.2 (hle.trans hbound))]
    · rfl
  · simp only [overbuffered, Act.run]
    split_ifs
    · exact ⟨_, rfl⟩
    · exact ⟨_, rfl⟩

/-- A stream that is there, or that there is room for, is there once octets of it come. -/
theorem run_admitted {id : ℕ} (h : (s.streams.lookup id).isSome = true ∨ s.streams.entries.length < s.streamCeiling) :
    ∃ s₁ s₂, (admitStream id).run s = (.ok (), s₁) ∧ (entry id).run s₁ = (.ok (), s₂) ∧
      s₂.streams.lookup id = some ((s.streams.lookup id).getD .new) ∧ s₂.buffered = s.buffered ∧ s₂.limits = s.limits ∧
        s₂.bufferedBound = s.bufferedBound := by
  rw [admitStream, Act.run_bind_ok (Act.run_get s)]
  cases hstream : s.streams.lookup id with
  | some state => exact ⟨s, s, rfl, run_entry hstream, hstream, rfl, rfl, rfl⟩
  | none =>
    have hroom : s.streams.entries.length < s.streamCeiling := h.resolve_left (by rw [hstream]; exact Bool.false_ne_true)
    rw [if_neg (by rw [Option.isSome_none]; exact Bool.false_ne_true), Act.run_bind_demand (decide_eq_true hroom)]
    refine ⟨_, _, rfl, rfl, ?_⟩
    dsimp only [Act.run_modify]
    rw [hstream, Option.isSome_none, if_neg Bool.false_ne_true]
    refine ⟨AList.lookup_insert _, ?_, rfl, rfl⟩
    rw [buffered_eq, buffered_eq]
    dsimp only
    rw [StreamMap.sum_insert, StreamMap.erase_of_none hstream]
    exact Nat.zero_add _

/-- What is done with octets once they are taken in. -/
theorem run_received (world : World) {id : ℕ} {state : StreamState} {s₁ s₂ : H3Session} (bytes : Octets) (fin : Bool)
    (hadmitted : (admitStream id).run s = (.ok (), s₁)) (hentry : (entry id).run s₁ = (.ok (), s₂))
    (hstream : s₂.streams.lookup id = some state) : (onStreamBytes world id bytes fin).run s = (do
      Act.demand (state.buffer.length + bytes.length ≤ s₂.limits.maxMessageSize)
        (Error.stream id Code.EXCESSIVE_LOAD "unparsed stream data exceeds {limit} octets" [.number s₂.limits.maxMessageSize])
      let exceeding ← overbuffered
      Act.demand (!exceeding)
        (.limit "buffered messages exceed {limit} octets" [.number s₂.limits.maxConnectionBufferSize])
      advance world id : Step Unit).run (s₂.received id bytes fin) := by
  rw [onStreamBytes, Act.run_bind_ok hadmitted, Act.run_bind_ok hentry, Act.run_bind_ok (run_modifyStream _ _ _), ← changed,
    Act.run_bind_ok (run_stream (lookup_changed hstream _)), Act.run_bind_ok (Act.run_modify _ _),
    Act.run_bind_ok (Act.run_get _), List.length_append]
  rfl

theorem Covering.onStreamBytes (world : World) (id : ℕ) (bytes : Octets) (fin : Bool) :
    Covering (onStreamBytes world id bytes fin) := by
  intro s hs
  by_cases hroom : (s.streams.lookup id).isSome = true ∨ s.streams.entries.length < s.streamCeiling
  · obtain ⟨s₁, s₂, hadmitted, hentry, hstream, hheld, -, hbound⟩ := run_admitted hroom
    rw [run_received world bytes fin hadmitted hentry hstream]
    have hs₂ : Covered s₂ := hs.of_le hbound hheld.le
    exact ((demand _ _).bind fun _ => overbuffered.bind fun _ => (demand _ _).bind fun _ => advance world id) _
      (hs₂.received hstream bytes fin)
  · -- There is no room for the stream.
    push Not at hroom
    have hrefused : (H3Session.admitStream id).run s = (.error (.stream id Code.EXCESSIVE_LOAD
        "more than {ceiling} streams are held open at once" [.number s.streamCeiling]), s) := by
      rw [H3Session.admitStream, Act.run_bind_ok (Act.run_get s), if_neg hroom.1,
        Act.run_bind_refused (decide_eq_false (Nat.not_lt.2 hroom.2))]
    rw [H3Session.onStreamBytes, Act.run_bind_error hrefused]
    exact hs

/-- Octets their stream has room for are refused exactly where they go past the ceiling, and parsed where they
    do not. -/
theorem Covered.onStreamBytes_eq (h : s.Covered) (world : World) {id : ℕ} {bytes : Octets} (fin : Bool)
    (hroom : (s.streams.lookup id).isSome = true ∨ s.streams.entries.length < s.streamCeiling)
    (hmessage : ((s.streams.lookup id).getD .new).buffer.length + bytes.length ≤ s.limits.maxMessageSize)
    (hheld : s.buffered + bytes.length < 2 ^ 64) :
    if s.limits.maxConnectionBufferSize < s.buffered + bytes.length then
      ((onStreamBytes world id bytes fin).run s).1 =
        .error (.limit "buffered messages exceed {limit} octets" [.number s.limits.maxConnectionBufferSize])
    else ∃ s', s'.buffered = s.buffered + bytes.length ∧
      (onStreamBytes world id bytes fin).run s = (advance world id).run s' := by
  obtain ⟨s₁, s₂, hadmitted, hentry, hstream, hsame, hlimits, hbound⟩ := run_admitted hroom
  have hs₂ : Covered s₂ := h.of_le hbound hsame.le
  have htotal : (s₂.received id bytes fin).buffered = s.buffered + bytes.length := by
    rw [buffered_received hstream, hsame]
  obtain ⟨-, hanswer, bound, haside⟩ := (hs₂.received hstream bytes fin).exact (htotal.trans_lt hheld)
  have hceiling : (s₂.received id bytes fin).limits = s.limits := hlimits
  rw [htotal, hceiling] at hanswer
  rw [run_received world bytes fin hadmitted hentry hstream, hlimits, Act.run_bind_demand (decide_eq_true hmessage),
    Act.run_bind_ok (Prod.ext hanswer haside)]
  split_ifs with hpast
  · rw [Act.run_bind_refused (by rw [decide_eq_true hpast]; rfl)]
  · rw [Act.run_bind_demand (by rw [decide_eq_false hpast]; rfl)]
    exact ⟨{ s₂.received id bytes fin with bufferedBound := bound }, htotal, rfl⟩

end H3Session

namespace H3Worker

variable {w : H3Worker} {α β : Type} {world : World}

/-- A step that does not leave the bound of the session too low, however it ends. -/
abbrev Covering (m : Step α) : Prop := Act.Keeps (fun w w' => w.session.Covered → w'.session.Covered) m

namespace Covering

theorem bind {m : Step α} {f : α → Step β} (hm : Covering m) (hf : ∀ a, Covering (f a)) : Covering (m >>= f) :=
  Act.Keeps.bind (R := fun w w' : H3Worker => w.session.Covered → w'.session.Covered) (fun h h' hw => h' (h hw)) hm hf

theorem onSession {m : H3Session.Step α} (h : H3Session.Covering m) : Covering (onSession m) := fun w hw => h w.session hw

/-- A step that leaves the session alone. -/
theorem aside {m : Step α} (h : ∀ w, (m.run w).2.session = w.session) : Covering m := fun w hw => by
  rw [h w]
  exact hw

theorem pure (a : α) : Covering (Pure.pure a : Step α) := aside fun _ => rfl

theorem get : Covering (Act.get : Step H3Worker) := aside fun _ => rfl

theorem demand (condition : Bool) (error : Error) : Covering (Act.demand condition error : Step Unit) := aside fun _ => rfl

theorem of_sparing {m : Step α} (h : Sparing m) : Covering m := by
  intro w hw
  obtain ⟨encoder, secure, hsession⟩ := (h w).session
  rw [hsession]
  exact hw.of_le rfl le_rfl

theorem forgetStream (id : ℕ) : Covering (forgetStream id) :=
  (onSession (H3Session.Covering.forget id)).bind fun _ => bind (aside fun _ => rfl) fun _ =>
    of_sparing (sparing_dropOutbound id)

/-! ### Commands -/

theorem frameInto (world : World) (id : ℕ) (m : Message) : Covering (frameInto world id m) := by
  refine get.bind fun w => bind (aside fun w => ?_) fun _ =>
    bind (fun w hw => H3Session.Covering.frameMessage world id m w.session hw) fun framed => ?_
  · rw [claimOutbound, Act.run_modify]
    split_ifs <;> rfl
  · cases framed with
    | ok framed => exact aside fun _ => rfl
    | error error => exact aside fun _ => rfl

theorem sendMessage (world : World) (m : Message) : Covering (sendMessage world m) := by
  have hstream : Covering (streamOf m) := by
    rw [streamOf]
    split
    · exact pure _
    · exact onSession H3Session.Covering.openBidi
  exact hstream.bind fun id => (onSession (H3Session.Covering.entry id)).bind fun _ =>
    bind (onSession (H3Session.Covering.modifyStream id fun _ => le_rfl)) fun _ => (frameInto world id m).bind fun _ =>
      (of_sparing (sparing_flushStream id)).bind fun _ => onSession (H3Session.Covering.retire id)

theorem relay (id : ℕ) (sink : Mailbox) (octets : Octets) (fin : Bool) : Covering (relay id sink octets fin) := by
  refine aside fun w => ?_
  simp only [H3Worker.relay, Act.run]
  split_ifs <;> rfl

theorem joinTunnel (id : ℕ) (sink : Mailbox) : Covering (joinTunnel id sink) := by
  have htake : Covering (takeUnparsed id) := fun w hw =>
    H3Session.Covering.modifyStream id (fun state => Nat.add_le_add_right (Nat.zero_le _) _) w.session hw
  have hjoin (sink : Mailbox) : Covering (Act.modify fun w => { w with tunnels := w.tunnels.insert id sink }) :=
    aside fun _ => rfl
  refine htake.bind fun unparsed => ?_
  split
  · split_ifs
    · exact bind ((relay id sink _ _).map _) hjoin
    · exact (pure _).bind hjoin
  · exact (pure _).bind hjoin

theorem execute (world : World) (command : H3Command) : Covering (execute world command) := by
  cases command with
  | send m => exact sendMessage world m
  | openBidi => exact (onSession H3Session.Covering.openBidi).bind fun _ => aside fun _ => rfl
  | openUni kind =>
    exact (of_sparing sparing_allocUni).bind fun id => (of_sparing (sparing_openUni id kind)).bind fun _ => aside fun _ => rfl
  | tunnel id sink => exact joinTunnel id sink
  | writeEncoder octets => exact get.bind fun _ => of_sparing (sparing_write _ _ _)
  | reset id code =>
    exact bind (aside fun _ => rfl) fun _ => (onSession (H3Session.Covering.retire id)).bind fun _ =>
      bind (aside fun _ => rfl) fun _ => aside fun _ => rfl
  | close => exact aside fun _ => rfl

/-! ### What arrives -/

theorem feedUniKind (world : World) (octets : Octets) (kind : StreamKind) : Covering (feedUniKind world octets kind) := by
  cases kind with
  | control => exact onSession (H3Session.Covering.onControlBytes octets)
  | qpackEncoder => exact onSession (H3Session.Covering.onEncoderBytes world octets)
  | qpackDecoder => exact onSession (H3Session.Covering.onDecoderBytes octets)
  | _ => exact pure _

theorem feedPrefix (world : World) (id : ℕ) (read : Octets) : Covering (feedPrefix world id read) := by
  rw [H3Worker.feedPrefix]
  dsimp only
  split_ifs
  · exact demand _ _
  · split
    · exact bind (aside fun _ => rfl) fun _ => aside fun _ => rfl
    · exact bind (aside fun _ => rfl) fun _ => feedUniKind world _ _

theorem feedUni (world : World) (id : ℕ) (octets : Octets) (fin : Bool) : Covering (feedUni world id octets fin) := by
  have hbytes : Covering (feedUniBytes world id octets) := by
    refine get.bind fun w => ?_
    dsimp only
    split_ifs
    · exact pure _
    · split
      · exact feedUniKind world octets _
      · exact (demand _ _).bind fun _ => bind (aside fun _ => rfl) fun _ => feedPrefix world id _
  refine bind (m := attempt (feedUniBytes world id octets)) hbytes fun outcome => bind (aside fun w => ?_) fun _ =>
    aside fun _ => rfl
  rw [Act.run_modify]
  split_ifs <;> rfl

theorem dispatch (world : World) (id : ℕ) (octets : Octets) (fin : Bool) : Covering (dispatch world id octets fin) := by
  refine get.bind fun w => ?_
  split
  · refine (relay id _ octets fin).bind fun _ => (demand _ _).bind fun _ => ?_
    split_ifs
    · exact bind (aside fun _ => rfl) fun _ => onSession (H3Session.Covering.forget id)
    · exact aside fun _ => rfl
  · split_ifs
    · refine bind (aside fun w => ?_) fun _ => get.bind fun _ => ?_
      · rw [Act.run_modify]
        split_ifs <;> rfl
      · split_ifs
        · exact bind (aside fun _ => rfl) fun _ => aside fun _ => rfl
        · exact bind (aside fun _ => rfl) fun _ => aside fun _ => rfl
    · refine (onSession (H3Session.Covering.onStreamBytes world id octets fin)).bind fun _ => get.bind fun w => ?_
      dsimp only
      split_ifs
      · exact pure _
      · exact (of_sparing (sparing_write _ _ _)).bind fun _ w hw => hw.of_le rfl le_rfl
    · exact feedUni world id octets fin

theorem hand : Covering hand := by
  refine (onSession H3Session.Covering.takeReady).bind fun found => ?_
  split
  · exact pure _
  · refine bind (aside fun w => ?_) fun told => ?_
    · simp only [tell, Act.run]
      split <;> rfl
    · split
      · exact bind (fun w hw => hw.of_le rfl le_rfl) fun _ => pure _
      · exact pure _

theorem deed (world : World) (move : Deed) : Covering (deed world move) := by
  cases move with
  | arrive id octets fin => exact dispatch world id octets fin
  | act command => exact execute world command
  | forget id => exact onSession (H3Session.Covering.forget id)
  | forgetStream id => exact forgetStream id
  | hand => exact hand.map _
  | answer => exact fun w hw => hw.of_le rfl le_rfl
  | aside f => exact of_sparing f.2

/-- Nothing that a worker does with an input leaves the bound of its session too low. -/
theorem take (world : World) (input : Input) : Covering (take world input) := by
  intro w hw
  obtain ⟨turns, hcourse, -⟩ := follows_take world input w
  generalize ((H3Worker.take world input).run w).2 = w' at hcourse
  induction hcourse with
  | begun => exact hw
  | @turn _ _ _ move _ _ _ htook ih =>
    have hdone := deed world move _ ih
    rwa [show (H3Worker.deed world move).run _ = _ from htook] at hdone

end Covering

theorem covered_after (inputs : List Input) (hw : w.session.Covered) : (after world w inputs).session.Covered := by
  induction inputs generalizing w with
  | nil => exact hw
  | cons input inputs ih => exact ih (Covering.take world input w hw)

end H3Worker

end

/-! ## Both -/

/-- In every connection there is, whatever was done with it, the bound is no less than what is buffered and answers
    exactly whether that is past the ceiling, as long as a counter of its width holds it; and what comes for a stream
    that has room for it is refused exactly where it goes past the ceiling. -/
theorem buffer_bounds_exact :
    (∀ (source : Source Error UInt8) (sink : Sink) (role : Role) (limits : H2Limits) (requestFinalizer : RequestFinalizer)
      (responseFinalizer : ResponseFinalizer) (secure : Bool) (events : List (World × H2Connection.Event)),
      let c := events.foldl (fun c event => ((H2Connection.perform event.1 event.2).run c).2)
        (H2Connection.configured source sink role limits requestFinalizer responseFinalizer secure)
      (c.buffered < 2 ^ 64 → c.Exact) ∧ ∀ id stream (data : Octets), c.streams.lookup id = some stream →
        stream.body.length + data.length ≤ c.limits.maxMessageBodySize →
        stream.received + data.length ≤ c.limits.maxMessageSize → c.buffered + data.length < 2 ^ 64 →
          ((H2Connection.holdData id data).run c).1 = if c.limits.maxConnectionBufferSize < c.buffered + data.length then
            .error (.limit "buffered messages exceed {limit} octets" [.number c.limits.maxConnectionBufferSize])
          else .ok ()) ∧
    ∀ (role : Role) (limits : H3Limits) (transport : QUICTransport) (events : Mailbox) (world : World)
      (inputs : List H3Worker.Input),
      let s := (H3Worker.after world (.new (.new role limits) transport events) inputs).session
      (s.buffered < 2 ^ 64 → s.Exact) ∧ ∀ id (bytes : Octets) fin,
        (s.streams.lookup id).isSome = true ∨ s.streams.entries.length < s.streamCeiling →
        ((s.streams.lookup id).getD .new).buffer.length + bytes.length ≤ s.limits.maxMessageSize →
        s.buffered + bytes.length < 2 ^ 64 →
          if s.limits.maxConnectionBufferSize < s.buffered + bytes.length then
            ((H3Session.onStreamBytes world id bytes fin).run s).1 =
              .error (.limit "buffered messages exceed {limit} octets" [.number s.limits.maxConnectionBufferSize])
          else ∃ s', s'.buffered = s.buffered + bytes.length ∧
            (H3Session.onStreamBytes world id bytes fin).run s = (H3Session.advance world id).run s' := by
  constructor
  · intro source sink role limits requestFinalizer responseFinalizer secure events c
    have hc : c.Covered := H2Connection.covered_performed events (Nat.min_le_left ..)
    exact ⟨hc.exact, fun _ _ _ hstream hbody hmessage hheld => hc.holdData_eq hstream hbody hmessage hheld⟩
  · intro role limits transport events world inputs s
    have hs : s.Covered := H3Worker.covered_after inputs (Nat.min_le_left ..)
    exact ⟨hs.exact, fun _ _ fin hroom hmessage hheld => hs.onStreamBytes_eq world fin hroom hmessage hheld⟩

end Soyokaze

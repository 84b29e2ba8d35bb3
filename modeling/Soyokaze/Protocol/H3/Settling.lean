import Soyokaze.Lib.Framing
import Soyokaze.Protocol.H3.Feeding

/-!
# Where parsing leaves a stream

What a session has of one stream lies in three places: the state of the stream itself,
the set of blocked streams its decoder keeps, and the set of those that wait by the
clock. A step for one stream leaves what there is of the others alone, and whenever
octets have been taken in every stream is `Settled`: it has been parsed as far as it can
be, and is not kept once it is spent.

* `H3Session.onStreamBytes_came`: octets of a stream that goes on leave it settled;
* `H3Session.onEncoderBytes_came`: so do the table entries that it waited for.
-/

namespace Soyokaze

open H3

/-! ## The set of blocked streams -/

namespace Qpack.Decoder

variable {d : Decoder} {id other : ℕ}

/-- Whether a decoder holds a block of this stream to be blocked. -/
def isBlocked (d : Decoder) (id : ℕ) : Bool := d.blocked.any (·.1 == id)

theorem isBlocked_cancel_self (d : Decoder) (id : ℕ) : (d.cancel id).isBlocked id = false := by
  simp [isBlocked, cancel]

theorem isBlocked_cancel_of_ne (hne : other ≠ id) : (d.cancel id).isBlocked other = d.isBlocked other := by
  simp only [isBlocked, cancel, List.any_filter]
  congr 1
  funext entry
  by_cases h : entry.1 = other
  · simp [h, hne]
  · simp [h]

/-- Every stream is held to be blocked once at most. -/
def Distinct (d : Decoder) : Prop := (d.blocked.map Prod.fst).Nodup

theorem Distinct.cancel (h : d.Distinct) (id : ℕ) : (d.cancel id).Distinct := by
  simp only [Distinct, Decoder.cancel]
  exact h.sublist (List.filter_sublist.map _)

/-- What decoding a block makes of the blocked streams: nothing, where it fails; or the stream is
    one of them, or is none. -/
theorem decode_blocked (d : Decoder) (id : ℕ) (block : Octets) :
    (d.decode id block).1.blocked = d.blocked ∧ (∃ error, (d.decode id block).2 = .error error) ∨
      (∃ required, (d.decode id block).1.blocked = (id, required) :: (d.cancel id).blocked ∧
        (d.decode id block).2 = .error .blocked) ∨
      (d.decode id block).1 = d.cancel id := by
  rw [decode]
  dsimp only
  split
  · exact .inl ⟨rfl, _, rfl⟩
  · split_ifs
    · exact .inl ⟨rfl, _, rfl⟩
    · exact .inr (.inl ⟨_, rfl, rfl⟩)
    · exact .inr (.inr rfl)
    · exact .inr (.inr rfl)

theorem isBlocked_decode_of_ne (hne : other ≠ id) (block : Octets) :
    (d.decode id block).1.isBlocked other = d.isBlocked other := by
  obtain ⟨hsame, -⟩ | ⟨required, hcons, -⟩ | hcancel := d.decode_blocked id block
  · rw [isBlocked, hsame, isBlocked]
  · rw [isBlocked, hcons, List.any_cons, beq_false_of_ne (Ne.symm hne), Bool.false_or]
    exact isBlocked_cancel_of_ne hne
  · rw [hcancel, isBlocked_cancel_of_ne hne]

theorem Distinct.decode (h : d.Distinct) (id : ℕ) (block : Octets) : (d.decode id block).1.Distinct := by
  obtain ⟨hsame, -⟩ | ⟨required, hcons, -⟩ | hcancel := d.decode_blocked id block
  · rw [Distinct, hsame]
    exact h
  · rw [Distinct, hcons, List.map_cons, List.nodup_cons]
    refine ⟨fun hmem => ?_, h.cancel id⟩
    obtain ⟨entry, hentry, hid⟩ := List.mem_map.1 hmem
    simp [Decoder.cancel, hid] at hentry
  · rw [hcancel]
    exact h.cancel id

/-- A block that is decoded leaves its stream not blocked. -/
theorem isBlocked_decode_ok {block : Octets} {found : List HeaderField × Option DecoderInstruction}
    (h : (d.decode id block).2 = .ok found) : (d.decode id block).1.isBlocked id = false := by
  obtain ⟨-, error, herror⟩ | ⟨required, -, herror⟩ | hcancel := d.decode_blocked id block
  · rw [h] at herror
    cases herror
  · rw [h] at herror
    cases herror
  · rw [hcancel, isBlocked_cancel_self]

theorem isBlocked_queue (d : Decoder) (instructions : List DecoderInstruction) :
    (d.queue instructions).blocked = d.blocked := rfl

/-- Instructions change the table, and leave the blocked streams to be gone on with. -/
structure GoesOn (d d' : Decoder) : Prop where
  blocked : d'.blocked = d.blocked
  most : d'.maxBlockedStreams = d.maxBlockedStreams
  capacity : d'.maxCapacity = d.maxCapacity
  count : d.dynamicTable.insertedCount ≤ d'.dynamicTable.insertedCount

theorem GoesOn.refl (d : Decoder) : GoesOn d d := ⟨rfl, rfl, rfl, le_refl _⟩

theorem goesOn_onEncoderInstruction {e : Decoder} {instruction : EncoderInstruction} {answer : Option DecoderInstruction}
    (h : d.onEncoderInstruction instruction = .ok (e, answer)) : d.GoesOn e := by
  cases instruction with
  | setDynamicTableCapacity capacity =>
    rw [onEncoderInstruction] at h
    split_ifs at h
    cases h
    exact ⟨rfl, rfl, rfl, le_of_eq (DynamicTable.insertedCount_setCapacity _ _).symm⟩
  | insertWithNameReference | insertWithLiteralName | duplicate =>
    simp only [onEncoderInstruction, bind, Except.bind] at h
    split at h
    · cases h
    · split at h
      · cases h
        exact .refl d
      · split_ifs at h with hfits
        cases h
        exact ⟨rfl, rfl, rfl, (Nat.le_succ _).trans_eq (DynamicTable.insertedCount_insert _ _ hfits).symm⟩

theorem goesOn_onEncoderStream (d : Decoder) (bytes : Octets) : d.GoesOn (d.onEncoderStream bytes).1 := by
  have hone (e : Decoder) (instruction : EncoderInstruction) (he : d.GoesOn e) :
      d.GoesOn (applyInstruction e instruction).1 := by
    rw [applyInstruction]
    split
    · exact he
    · next hrun =>
      have hgoes := goesOn_onEncoderInstruction hrun
      exact ⟨hgoes.blocked.trans he.blocked, hgoes.most.trans he.most, hgoes.capacity.trans he.capacity,
        he.count.trans hgoes.count⟩
  rw [onEncoderStream]
  dsimp only
  split_ifs
  · exact ⟨rfl, rfl, rfl, le_refl _⟩
  · have hdrained : d.GoesOn (Framing.drain EncoderInstruction.decode (· == .incomplete) applyInstruction
        ((d.streamRecv ++ bytes).length + 1) d (d.streamRecv ++ bytes)).1 :=
      Framing.drain_inv (P := fun e : Decoder => d.GoesOn e) hone _ _ (.refl d)
    exact ⟨hdrained.blocked, hdrained.most, hdrained.capacity, hdrained.count⟩

theorem blocked_onEncoderStream (d : Decoder) (bytes : Octets) : (d.onEncoderStream bytes).1.blocked = d.blocked :=
  (d.goesOn_onEncoderStream bytes).blocked

end Qpack.Decoder

/-! ## What a session has of one stream -/

namespace H3

/-- What a session has of one stream: its state, whether a block of it is held to be blocked, and
    whether it waits by the clock. -/
structure Slot where
  state : Option StreamState
  blocked : Bool
  since : Bool

/-- A stream that is blocked, or waits by the clock, has a block that is pending. -/
def Slot.Rooted (slot : Slot) : Prop :=
  slot.blocked ∨ slot.since → ∃ state, slot.state = some state ∧ state.pending.isSome

/-- A stream that has been parsed as far as it can be, and is not finished with. -/
structure StreamState.Settled (state : StreamState) : Prop where
  /-- Nothing is pending behind a message that was delivered. -/
  pending : state.pending.isSome → state.delivered → state.raw
  /-- Where the peer has finished, either a block is pending or the message was delivered. -/
  eof : state.eof → state.pending = none → state.raw ∨ state.delivered
  /-- A message is delivered once the peer has finished, unless it opens a tunnel. -/
  delivered : state.delivered → state.raw ∨ state.eof
  spent : state.spent = false

theorem StreamState.settled_new : StreamState.new.Settled where
  pending := fun _ hdelivered => absurd hdelivered Bool.false_ne_true
  eof := fun heof => absurd heof Bool.false_ne_true
  delivered := fun hdelivered => absurd hdelivered Bool.false_ne_true
  spent := rfl

/-- What the parsing of a stream leaves: nothing of it; or the stream settled, ended where it was. -/
def Slot.Came (eof finished : Bool) (slot : Slot) : Prop :=
  slot = ⟨none, false, false⟩ ∨ ∃ state, slot.state = some state ∧ slot.Rooted ∧ state.eof = eof ∧
    state.finished = finished ∧ state.Settled

/-- What there is of a stream between one step and the next. -/
structure Slot.Tidy (slot : Slot) : Prop where
  rooted : slot.Rooted
  settled : ∀ state, slot.state = some state → state.Settled

theorem Slot.Came.tidy {eof finished : Bool} {slot : Slot} (h : slot.Came eof finished) : slot.Tidy := by
  obtain rfl | ⟨state, hstate, hrooted, -, -, hsettled⟩ := h
  · refine ⟨?_, fun _ h => by cases h⟩
    rintro (h | h) <;> cases h
  · refine ⟨hrooted, fun other hother => ?_⟩
    cases hstate.symm.trans hother
    exact hsettled

/-- What is left to parse of a stream. -/
def StreamState.weight (state : StreamState) : ℕ := state.buffer.length + state.pending.isSome.toNat

/-- What taking up a section or body octets makes of a stream: it is not ended, no octets are
    taken off its buffer, and nothing is delivered but what opens a tunnel. -/
structure StreamState.Folds (state state' : StreamState) : Prop where
  eof : state'.eof = state.eof
  finished : state'.finished = state.finished
  buffer : state'.buffer = state.buffer
  pending : state'.pending = state.pending
  raw : (state.delivered → state.raw) → state'.delivered → state'.raw

theorem StreamState.Folds.refl (state : StreamState) : state.Folds state := ⟨rfl, rfl, rfl, rfl, fun h => h⟩

end H3

namespace H3Session

variable {s s' : H3Session} {id : ℕ} {α β : Type}

/-- What a session has of one stream. -/
def slot (s : H3Session) (id : ℕ) : Slot where
  state := s.streams.lookup id
  blocked := s.decoder.isBlocked id
  since := (s.blockedSince.lookup id).isSome

/-! ## Steps for one stream -/

/-- A step for one stream leaves what there is of the others alone. -/
structure Elsewhere (id : ℕ) (s s' : H3Session) : Prop where
  others : ∀ other, other ≠ id → s'.slot other = s.slot other
  distinct : s.decoder.Distinct → s'.decoder.Distinct

theorem Elsewhere.refl (s : H3Session) : Elsewhere id s s := ⟨fun _ _ => rfl, fun h => h⟩

theorem Elsewhere.trans {a b c : H3Session} (h : Elsewhere id a b) (h' : Elsewhere id b c) : Elsewhere id a c :=
  ⟨fun other hne => (h'.others other hne).trans (h.others other hne), fun ha => h'.distinct (h.distinct ha)⟩

/-- A step that is for one stream, however it ends. -/
abbrev Minds (id : ℕ) (m : Step α) : Prop := Act.Keeps (Elsewhere id) m

theorem Minds.bind {m : Step α} {f : α → Step β} (hm : Minds id m) (hf : ∀ a, Minds id (f a)) : Minds id (m >>= f) :=
  @Act.Keeps.bind _ _ _ _ (Elsewhere id) Elsewhere.trans m f hm hf

/-- Whatever else changes, these are the three places. -/
theorem Elsewhere.of_eq (hstreams : s'.streams = s.streams) (hblocked : s'.decoder.blocked = s.decoder.blocked)
    (hsince : s'.blockedSince = s.blockedSince) : Elsewhere id s s' := by
  constructor
  · intro other _
    rw [slot, slot, hstreams, Qpack.Decoder.isBlocked, hblocked, hsince, Qpack.Decoder.isBlocked]
  · rw [Qpack.Decoder.Distinct, Qpack.Decoder.Distinct, hblocked]
    exact fun h => h

theorem minds_of_eq {m : Step α} (h : ∀ s, (m.run s).2.streams = s.streams ∧
    (m.run s).2.decoder.blocked = s.decoder.blocked ∧ (m.run s).2.blockedSince = s.blockedSince) : Minds id m :=
  fun s => .of_eq (h s).1 (h s).2.1 (h s).2.2

theorem minds_pure (a : α) : Minds id (pure a : Step α) := fun s => .refl s

theorem minds_get : Minds id (Act.get : Step H3Session) := fun s => .refl s

theorem minds_fail (error : Error) : Minds id (Act.fail error : Step α) := fun s => .refl s

theorem minds_ofExcept (x : Except Error α) : Minds id (Act.ofExcept x : Step α) := fun s => .refl s

theorem minds_demand (condition : Bool) (error : Error) : Minds id (Act.demand condition error : Step Unit) :=
  fun s => .refl s

theorem minds_stream (other : ℕ) : Minds id (stream other) := minds_of_eq fun s => by
  simp only [Act.run, stream]
  split <;> exact ⟨rfl, rfl, rfl⟩

/-- What is put in the place of the streams differs for one at most. -/
theorem Elsewhere.of_lookup {streams : StreamMap StreamState}
    (h : ∀ other, other ≠ id → streams.lookup other = s.streams.lookup other) :
    Elsewhere id s { s with streams := streams } := by
  refine ⟨fun other hne => ?_, fun h => h⟩
  rw [slot, slot, h other hne]

theorem minds_modifyStream (f : StreamState → StreamState) : Minds id (modifyStream id f) := fun _ =>
  .of_lookup fun _ hne => (StreamMap.lookup_modify _ _ _ _).trans (if_neg hne)

theorem minds_entry : Minds id (entry id) := by
  intro s
  simp only [entry, Act.run_modify]
  split_ifs
  · exact .refl s
  · exact .of_lookup fun _ hne => AList.lookup_insert_ne hne

theorem minds_forget : Minds id (forget id) := by
  intro s
  refine ⟨fun other hne => ?_, fun h => h.cancel id⟩
  simp only [slot, forget, Act.run_modify, AList.lookup_erase_ne hne, Qpack.Decoder.isBlocked_cancel_of_ne hne]

theorem minds_retire : Minds id (retire id) := by
  refine minds_get.bind fun s => ?_
  split_ifs
  · exact minds_forget
  · exact minds_pure ()

theorem minds_decodeBlock (block : Octets) : Minds id (decodeBlock id block) := by
  intro s
  have hdecode (d : Qpack.Decoder) (h : d.blocked = (s.decoder.decode id block).1.blocked) :
      Elsewhere id s { s with decoder := d } := by
    constructor
    · intro other hne
      have := s.decoder.isBlocked_decode_of_ne hne block
      simp only [slot, Qpack.Decoder.isBlocked, h] at this ⊢
      rw [this]
    · intro hdistinct
      have := hdistinct.decode id block
      rwa [Qpack.Decoder.Distinct, ← h] at this
  rcases hrun : s.decoder.decode id block with ⟨d, error | ⟨fields, acknowledgment⟩⟩
  · simp only [Act.run, decodeBlock, hrun]
    exact hdecode d (by rw [hrun])
  · simp only [Act.run, decodeBlock, hrun]
    exact hdecode _ (by rw [hrun, Qpack.Decoder.isBlocked_queue])

theorem minds_takeFrame (state : StreamState) : Minds id (takeFrame id state) :=
  (minds_modifyStream _).bind fun _ => minds_ofExcept _

theorem minds_absorbHeaders (world : World) (fields : List HeaderField) : Minds id (absorbHeaders world id fields) := by
  refine minds_get.bind fun s => (minds_demand _ _).bind fun _ => (minds_stream id).bind fun state => ?_
  split_ifs
  · exact (minds_ofExcept _).bind fun _ => minds_modifyStream _
  · refine (minds_ofExcept _).bind fun m => (minds_modifyStream _).bind fun _ => (minds_stream id).bind fun state => ?_
    split_ifs
    · exact (minds_modifyStream _).bind fun _ => minds_of_eq fun _ => ⟨rfl, rfl, rfl⟩
    · exact minds_modifyStream _

/-- Waiting by the clock begins and ends for one stream. -/
theorem Elsewhere.of_since {blockedSince : StreamMap Unit}
    (h : ∀ other, other ≠ id → blockedSince.lookup other = s.blockedSince.lookup other) :
    Elsewhere id s { s with blockedSince := blockedSince } := by
  refine ⟨fun other hne => ?_, fun h => h⟩
  rw [slot, slot, h other hne]

theorem minds_absorbBlock (world : World) (block : Octets) : Minds id (absorbBlock world id block) := by
  refine (minds_decodeBlock block).bind fun outcome => ?_
  split
  · exact (minds_absorbHeaders world _).bind fun _ => minds_pure _
  · refine (minds_stream id).bind fun _ => (minds_modifyStream _).bind fun _ => Minds.bind (fun s => ?_) fun _ =>
      minds_pure _
    simp only [Act.run_modify]
    split_ifs
    · exact .refl s
    · exact .of_since fun _ hne => AList.lookup_insert_ne hne
  · exact minds_fail _

theorem minds_retryBlock (world : World) (block : Octets) : Minds id (retryBlock world id block) := by
  refine (minds_decodeBlock block).bind fun outcome => ?_
  split
  · refine (minds_stream id).bind fun _ => (minds_modifyStream _).bind fun _ => Minds.bind (fun s => ?_) fun _ =>
      (minds_absorbHeaders world _).bind fun _ => minds_pure _
    exact .of_since fun _ hne => AList.lookup_erase_ne hne
  · exact minds_pure _
  · exact minds_fail _

theorem minds_absorbData (octets : Octets) : Minds id (absorbData id octets) :=
  minds_get.bind fun _ => (minds_stream id).bind fun _ => (minds_demand _ _).bind fun _ =>
    (minds_modifyStream _).bind fun _ => (minds_demand _ _).bind fun _ => minds_pure _

theorem minds_absorbFrame (world : World) (frame : Frame) : Minds id (absorbFrame world id frame) := by
  cases frame with
  | headers block => exact minds_get.bind fun _ => (minds_demand _ _).bind fun _ => minds_absorbBlock world block
  | data octets => exact minds_absorbData octets
  | settings | goAway | maxPushId | cancelPush | pushPromise => exact minds_fail _

theorem minds_advanceOnce (world : World) : Minds id (advanceOnce world id) := by
  refine minds_get.bind fun s => ?_
  split
  · exact minds_pure _
  · split
    · exact minds_pure _
    · split
      · exact minds_retryBlock world _
      · refine (minds_takeFrame _).bind fun found => ?_
        split
        · exact minds_absorbFrame world _
        · exact minds_pure _

theorem minds_deliver : Minds id (deliver id) := by
  refine (minds_stream id).bind fun state => ?_
  split
  · exact minds_retire
  · split
    · exact minds_fail _
    · exact (minds_modifyStream _).bind fun _ => Minds.bind (minds_of_eq fun _ => ⟨rfl, rfl, rfl⟩) fun _ => minds_retire

theorem minds_advanceLoop (world : World) (fuel : ℕ) : Minds id (advanceLoop world id fuel) := by
  induction fuel with
  | zero => exact minds_pure ()
  | succ fuel ih =>
    refine (minds_advanceOnce world).bind fun progress => ?_
    cases progress with
    | again => exact ih
    | stop => exact minds_pure ()
    | finish => exact minds_deliver

theorem minds_advance (world : World) : Minds id (advance world id) := minds_get.bind fun _ => minds_advanceLoop world _

theorem minds_admitStream : Minds id (admitStream id) := by
  refine minds_get.bind fun s => ?_
  split_ifs
  · exact minds_pure ()
  · exact (minds_demand _ _).bind fun _ => minds_of_eq fun _ => ⟨rfl, rfl, rfl⟩

theorem minds_overbuffered : Minds id overbuffered := minds_of_eq fun s => by
  simp only [Act.run, overbuffered]
  split_ifs <;> exact ⟨rfl, rfl, rfl⟩

theorem minds_onStreamBytes (world : World) (bytes : Octets) (fin : Bool) : Minds id (onStreamBytes world id bytes fin) :=
  minds_admitStream.bind fun _ => minds_entry.bind fun _ => (minds_modifyStream _).bind fun _ =>
    (minds_stream id).bind fun _ => Minds.bind (minds_of_eq fun _ => ⟨rfl, rfl, rfl⟩) fun _ => minds_get.bind fun _ =>
      (minds_demand _ _).bind fun _ => minds_overbuffered.bind fun _ => (minds_demand _ _).bind fun _ =>
      minds_advance world

theorem minds_onDecoderBytes (bytes : Octets) : Minds id (onDecoderBytes bytes) := by
  refine minds_get.bind fun s => Minds.bind (minds_of_eq fun _ => ⟨rfl, rfl, rfl⟩) fun _ => ?_
  split
  · exact minds_fail _
  · exact minds_pure _

theorem minds_absorbControl (frame : Frame) : Minds id (absorbControl frame) := by
  cases frame with
  | settings params =>
    exact minds_get.bind fun _ => (minds_demand _ _).bind fun _ => (minds_ofExcept _).bind fun _ =>
      minds_of_eq fun _ => ⟨rfl, rfl, rfl⟩
  | goAway other => exact minds_of_eq fun _ => ⟨rfl, rfl, rfl⟩
  | maxPushId | cancelPush => exact minds_pure _
  | headers | data | pushPromise => exact minds_fail _

theorem minds_controlLoop (fuel : ℕ) : Minds id (controlLoop fuel) := by
  induction fuel with
  | zero => exact minds_pure ()
  | succ fuel ih =>
    refine minds_get.bind fun s => Minds.bind (minds_of_eq fun _ => ⟨rfl, rfl, rfl⟩) fun _ => ?_
    refine (minds_ofExcept _).bind fun found => ?_
    split
    · exact minds_pure _
    · exact (minds_absorbControl _).bind fun _ => ih

theorem minds_onControlBytes (bytes : Octets) : Minds id (onControlBytes bytes) :=
  Minds.bind (minds_of_eq fun _ => ⟨rfl, rfl, rfl⟩) fun _ => minds_get.bind fun _ => (minds_demand _ _).bind fun _ =>
    minds_controlLoop _

theorem minds_writeTrailers (trailers : Option Headers) : Minds id (writeTrailers id trailers) := by
  cases trailers with
  | none => exact minds_pure _
  | some trailers =>
    rw [writeTrailers]
    split_ifs
    · exact minds_pure _
    · exact minds_of_eq fun _ => ⟨rfl, rfl, rfl⟩

theorem minds_frameMessage (world : World) (m : Message) : Minds id (frameMessage world id m) :=
  minds_get.bind fun _ => (minds_ofExcept _).bind fun _ => (minds_ofExcept _).bind fun _ =>
    Minds.bind (minds_of_eq fun _ => ⟨rfl, rfl, rfl⟩) fun _ => (minds_ofExcept _).bind fun _ =>
    (minds_writeTrailers _).bind fun _ => minds_entry.bind fun _ => (minds_modifyStream _).bind fun _ =>
    (minds_stream id).bind fun _ => (minds_modifyStream _).bind fun _ => minds_pure _

/-! ## Taking up sections and body octets -/

/-- What taking up a section or body octets leaves of the stream they are of. -/
structure Folding (id : ℕ) (s s' : H3Session) : Prop where
  state : ∀ state, s.streams.lookup id = some state → ∃ state', s'.streams.lookup id = some state' ∧ state.Folds state'
  decoder : s'.decoder = s.decoder
  since : s'.blockedSince = s.blockedSince

theorem Folding.refl (s : H3Session) : Folding id s s := ⟨fun state h => ⟨state, h, .refl state⟩, rfl, rfl⟩

theorem Folding.trans {a b c : H3Session} (h : Folding id a b) (h' : Folding id b c) : Folding id a c := by
  refine ⟨fun state hstate => ?_, h'.decoder.trans h.decoder, h'.since.trans h.since⟩
  obtain ⟨mid, hmid, hfirst⟩ := h.state state hstate
  obtain ⟨state', hstate', hsecond⟩ := h'.state mid hmid
  exact ⟨state', hstate', hsecond.eof.trans hfirst.eof, hsecond.finished.trans hfirst.finished,
    hsecond.buffer.trans hfirst.buffer, hsecond.pending.trans hfirst.pending, fun hraw => hsecond.raw (hfirst.raw hraw)⟩

/-- A step that takes a section or body octets up, however it ends. -/
abbrev Takes (id : ℕ) (m : Step α) : Prop := Act.Keeps (Folding id) m

theorem Takes.bind {m : Step α} {f : α → Step β} (hm : Takes id m) (hf : ∀ a, Takes id (f a)) : Takes id (m >>= f) :=
  @Act.Keeps.bind _ _ _ _ (Folding id) Folding.trans m f hm hf

theorem takes_of_eq {m : Step α} (h : ∀ s, (m.run s).2.streams = s.streams ∧ (m.run s).2.decoder = s.decoder ∧
    (m.run s).2.blockedSince = s.blockedSince) : Takes id m := by
  refine fun s => ⟨fun state hstate => ⟨state, ?_, .refl state⟩, (h s).2.1, (h s).2.2⟩
  rw [(h s).1, hstate]

theorem takes_stream (other : ℕ) : Takes id (stream other) := takes_of_eq fun s => by
  simp only [Act.run, stream]
  split <;> exact ⟨rfl, rfl, rfl⟩

theorem takes_modifyStream {f : StreamState → StreamState} (hf : ∀ state, StreamState.Folds state (f state)) :
    Takes id (modifyStream id f) :=
  fun _ => ⟨fun state hstate => ⟨f state, lookup_changed hstate f, hf state⟩, rfl, rfl⟩

theorem takes_absorbHeaders (world : World) (fields : List HeaderField) : Takes id (absorbHeaders world id fields) := by
  refine Takes.bind (takes_of_eq fun _ => ⟨rfl, rfl, rfl⟩) fun s => Takes.bind (takes_of_eq fun _ => ⟨rfl, rfl, rfl⟩)
    fun _ => (takes_stream id).bind fun state => ?_
  split_ifs
  · exact Takes.bind (takes_of_eq fun _ => ⟨rfl, rfl, rfl⟩) fun _ =>
      takes_modifyStream fun _ => ⟨rfl, rfl, rfl, rfl, fun h => h⟩
  · refine Takes.bind (takes_of_eq fun _ => ⟨rfl, rfl, rfl⟩) fun m => Takes.bind (takes_modifyStream fun state => ?_)
      fun _ => (takes_stream id).bind fun state => ?_
    · split_ifs
      · exact ⟨rfl, rfl, rfl, rfl, fun h => h⟩
      · exact .refl state
    · split_ifs
      -- What opens a tunnel is delivered, and its stream is raw from then on.
      · exact Takes.bind (takes_modifyStream fun _ => ⟨rfl, rfl, rfl, rfl, fun _ _ => rfl⟩) fun _ =>
          takes_of_eq fun _ => ⟨rfl, rfl, rfl⟩
      · exact takes_modifyStream fun _ => ⟨rfl, rfl, rfl, rfl, fun h => h⟩

theorem takes_absorbData (octets : Octets) : Takes id (absorbData id octets) := by
  refine Takes.bind (takes_of_eq fun _ => ⟨rfl, rfl, rfl⟩) fun s => (takes_stream id).bind fun state => ?_
  refine Takes.bind (takes_of_eq fun _ => ⟨rfl, rfl, rfl⟩) fun _ => ?_
  refine Takes.bind (takes_modifyStream fun _ => ⟨rfl, rfl, rfl, rfl, fun h => h⟩) fun _ => ?_
  exact Takes.bind (takes_of_eq fun _ => ⟨rfl, rfl, rfl⟩) fun _ => takes_of_eq fun _ => ⟨rfl, rfl, rfl⟩

/-! ## Parsing -/

/-- A stream in the middle of being parsed: nothing of it was delivered, but for what opened a
    tunnel. -/
structure Parsing (id : ℕ) (state : StreamState) (s : H3Session) : Prop where
  stream : s.streams.lookup id = some state
  raw : state.delivered → state.raw
  rooted : (s.slot id).Rooted

/-- What a round of parsing leaves, by how far it got. -/
def Progress.Leaves (state : StreamState) (state' : StreamState) : Progress → Prop
  | .again => state'.weight < state.weight
  | .stop => state'.raw ∨ state'.pending.isSome ∨ state'.eof = false
  | .finish => state'.eof ∧ state'.raw = false ∧ state'.pending = none

variable {state : StreamState} {world : World} {progress : Progress}

/-- Where nothing is blocked and nothing waits, nothing has to be pending. -/
theorem rooted_of_neither (hblocked : s.decoder.isBlocked id = false) (hsince : s.blockedSince.lookup id = none) :
    (s.slot id).Rooted := by
  rintro (h | h)
  · exact absurd (hblocked.symm.trans h) Bool.false_ne_true
  · simp [slot, hsince] at h

/-- A stream with a block that is pending may well be blocked. -/
theorem rooted_of_pending (hstate : s.streams.lookup id = some state) (hpending : state.pending.isSome) :
    (s.slot id).Rooted := fun _ => ⟨state, hstate, hpending⟩

theorem Parsing.fold {m : Step α} {a : α} (h : Parsing id state s) (htakes : Takes id m) (hrun : m.run s = (.ok a, s')) :
    ∃ state', Parsing id state' s' ∧ state.Folds state' := by
  have hfold : Folding id s s' := by
    have := htakes s
    rwa [hrun] at this
  obtain ⟨state', hstate', hfolds⟩ := hfold.state state h.stream
  refine ⟨state', ⟨hstate', hfolds.raw h.raw, fun hrooted => ?_⟩, hfolds⟩
  simp only [slot, hfold.decoder, hfold.since] at hrooted
  obtain ⟨pended, hpended, hpending⟩ := h.rooted hrooted
  cases h.stream.symm.trans hpended
  exact ⟨state', hstate', by rwa [hfolds.pending]⟩

/-- Parsing got so far, and left the stream not ended by it. -/
def Reaches (id : ℕ) (state : StreamState) (progress : Progress) (s' : H3Session) : Prop :=
  ∃ state', Parsing id state' s' ∧ state'.eof = state.eof ∧ state'.finished = state.finished ∧ progress.Leaves state state'

theorem decodeBlock_frees (id : ℕ) (block : Octets) (s : H3Session) : ∃ outcome decoder,
    (decodeBlock id block).run s = (.ok outcome, { s with decoder := decoder }) ∧
      ∀ fields, outcome = .ok fields → decoder.isBlocked id = false := by
  rcases hdecode : s.decoder.decode id block with ⟨decoder, error | ⟨fields, acknowledgment⟩⟩
  · refine ⟨.error error, decoder, ?_, fun _ h => by cases h⟩
    simp only [Act.run, decodeBlock, hdecode]
  · refine ⟨.ok fields, decoder.queue acknowledgment.toList, ?_, fun _ _ => ?_⟩
    · simp only [Act.run, decodeBlock, hdecode]
    · have hok : (s.decoder.decode id block).2 = .ok (fields, acknowledgment) := by rw [hdecode]
      have hfree := Qpack.Decoder.isBlocked_decode_ok hok
      rwa [hdecode] at hfree

theorem retryBlock_reaches {block : Octets} (h : Parsing id state s) (hpending : state.pending = some block)
    (hrun : (retryBlock world id block).run s = (.ok progress, s')) : Reaches id state progress s' := by
  obtain ⟨outcome, decoder, hdecode, hfree⟩ := decodeBlock_frees id block s
  rw [retryBlock, Act.run_bind_ok hdecode] at hrun
  cases outcome with
  | ok fields =>
    rw [Act.run_bind_ok (run_stream (s := { s with decoder := decoder }) h.stream)] at hrun
    obtain ⟨_, s₁, hfirst, hrest⟩ := Act.of_run_bind_ok hrun
    obtain ⟨_, s₂, hsecond, hrest'⟩ := Act.of_run_bind_ok hrest
    obtain ⟨_, s₃, hthird, hlast⟩ := Act.of_run_bind_ok hrest'
    cases hfirst
    cases hsecond
    cases hlast
    -- Neither the decoder nor the clock holds anything of the stream from here on.
    have hparsing : Parsing id { state with pending := none } { s with
        decoder := decoder, streams := StreamMap.modify s.streams id fun state => { state with pending := none }
        blockedSince := s.blockedSince.erase id } :=
      ⟨lookup_changed h.stream _, h.raw, rooted_of_neither (hfree fields rfl) (AList.lookup_erase _ _)⟩
    obtain ⟨state', hstate', hfolds⟩ := hparsing.fold (takes_absorbHeaders world fields) hthird
    refine ⟨state', hstate', hfolds.eof, hfolds.finished, ?_⟩
    simp [Progress.Leaves, StreamState.weight, hfolds.buffer, hfolds.pending, hpending]
  | error error =>
    cases error with
    | blocked =>
      cases hrun
      have hsome : state.pending.isSome := by rw [hpending]; rfl
      exact ⟨state, ⟨h.stream, h.raw, rooted_of_pending h.stream hsome⟩, rfl, rfl, .inr (.inl hsome)⟩
    | _ => cases hrun

theorem absorbBlock_reaches {block : Octets} (h : Parsing id state s)
    (hrun : (absorbBlock world id block).run s = (.ok progress, s')) : ∃ state', Parsing id state' s' ∧
      state'.eof = state.eof ∧ state'.finished = state.finished ∧
      (progress = .again ∧ state'.weight = state.weight ∨ progress = .stop ∧ state'.pending.isSome) := by
  obtain ⟨outcome, decoder, hdecode, hfree⟩ := decodeBlock_frees id block s
  rw [absorbBlock, Act.run_bind_ok hdecode] at hrun
  cases outcome with
  | ok fields =>
    obtain ⟨_, s₁, hfirst, hrun⟩ := Act.of_run_bind_ok hrun
    cases hrun
    have hparsing : Parsing id state { s with decoder := decoder } := by
      refine ⟨h.stream, h.raw, fun hrooted => h.rooted (.inr ?_)⟩
      exact hrooted.resolve_left fun hblocked => absurd ((hfree fields rfl).symm.trans hblocked) Bool.false_ne_true
    obtain ⟨state', hstate', hfolds⟩ := hparsing.fold (takes_absorbHeaders world fields) hfirst
    refine ⟨state', hstate', hfolds.eof, hfolds.finished, .inl ⟨rfl, ?_⟩⟩
    rw [StreamState.weight, hfolds.buffer, hfolds.pending, StreamState.weight]
  | error error =>
    cases error with
    | blocked =>
      rw [Act.run_bind_ok (run_stream (s := { s with decoder := decoder }) h.stream)] at hrun
      obtain ⟨_, s₁, hfirst, hrest⟩ := Act.of_run_bind_ok hrun
      obtain ⟨_, s₂, hsecond, hlast⟩ := Act.of_run_bind_ok hrest
      cases hfirst
      cases hlast
      have hstreams : s'.streams.lookup id = some { state with pending := some block } := by
        have hsame := congrArg (fun x => (Prod.snd x).streams) hsecond
        rw [Act.run_modify] at hsame
        rw [← hsame]
        dsimp only
        split_ifs <;> exact lookup_changed h.stream _
      exact ⟨_, ⟨hstreams, h.raw, rooted_of_pending hstreams rfl⟩, rfl, rfl, .inr ⟨rfl, rfl⟩⟩
    | _ => cases hrun

theorem absorbFrame_reaches {frame : Frame} (h : Parsing id state s)
    (hrun : (absorbFrame world id frame).run s = (.ok progress, s')) : ∃ state', Parsing id state' s' ∧
      state'.eof = state.eof ∧ state'.finished = state.finished ∧
      (progress = .again ∧ state'.weight = state.weight ∨ progress = .stop ∧ state'.pending.isSome) := by
  cases frame with
  | headers block =>
    obtain ⟨_, s₁, hfirst, hrest⟩ := Act.of_run_bind_ok hrun
    obtain ⟨_, s₂, hsecond, hlast⟩ := Act.of_run_bind_ok hrest
    cases hfirst
    cases congrArg Prod.snd hsecond
    exact absorbBlock_reaches h hlast
  | data octets =>
    obtain ⟨state', hstate', hfolds⟩ := h.fold (takes_absorbData octets) hrun
    refine ⟨state', hstate', hfolds.eof, hfolds.finished, .inl ⟨?_, ?_⟩⟩
    · obtain ⟨_, _, -, hrest₁⟩ := Act.of_run_bind_ok hrun
      obtain ⟨_, _, -, hrest₂⟩ := Act.of_run_bind_ok hrest₁
      obtain ⟨_, _, -, hrest₃⟩ := Act.of_run_bind_ok hrest₂
      obtain ⟨_, _, -, hrest₄⟩ := Act.of_run_bind_ok hrest₃
      obtain ⟨_, _, -, hlast⟩ := Act.of_run_bind_ok hrest₄
      cases hlast
      rfl
    · rw [StreamState.weight, hfolds.buffer, hfolds.pending, StreamState.weight]
  | settings | goAway | maxPushId | cancelPush | pushPromise => cases hrun

theorem advanceOnce_reaches (h : Parsing id state s) (hrun : (advanceOnce world id).run s = (.ok progress, s')) :
    Reaches id state progress s' := by
  rw [advanceOnce, Act.run_bind_ok (Act.run_get s), h.stream] at hrun
  dsimp only at hrun
  cases hraw : state.raw with
  | true =>
    rw [hraw, if_pos rfl] at hrun
    cases hrun
    exact ⟨state, h, rfl, rfl, .inl hraw⟩
  | false =>
    rw [hraw, if_neg Bool.false_ne_true] at hrun
    cases hpending : state.pending with
    | some block =>
      rw [hpending] at hrun
      exact retryBlock_reaches h hpending hrun
    | none =>
      rw [hpending] at hrun
      obtain ⟨found, s₁, hfirst, hlast⟩ := Act.of_run_bind_ok hrun
      obtain ⟨_, s₂, htake, hparse⟩ := Act.of_run_bind_ok hfirst
      cases htake
      have hanswer : (Frame.parse state.buffer).1 = .ok found := congrArg Prod.fst hparse
      have hfound : Frame.parse state.buffer = (.ok found, (Frame.parse state.buffer).2) := Prod.ext hanswer rfl
      cases congrArg Prod.snd hparse
      have hparsing : Parsing id { state with buffer := (Frame.parse state.buffer).2 } (s.changed id fun state =>
          { state with buffer := (Frame.parse state.buffer).2 }) := by
        refine ⟨lookup_changed h.stream _, h.raw, fun hrooted => ?_⟩
        obtain ⟨pended, hpended, hsome⟩ := h.rooted hrooted
        cases h.stream.symm.trans hpended
        rw [hpending] at hsome
        cases hsome
      cases found with
      | some frame =>
        obtain ⟨state', hstate', heof, hfinished, hgot⟩ := absorbFrame_reaches hparsing hlast
        refine ⟨state', hstate', heof, hfinished, ?_⟩
        have hshorter := Frame.length_parse hfound
        obtain ⟨rfl, hweight⟩ | ⟨rfl, hsome⟩ := hgot
        · change state'.weight < state.weight
          rw [hweight, StreamState.weight, StreamState.weight]
          simpa only [Nat.add_lt_add_iff_right] using hshorter
        · exact .inr (.inl hsome)
      | none =>
        cases heof : state.eof with
        | true =>
          rw [heof] at hlast
          cases hlast
          exact ⟨_, hparsing, rfl, rfl, heof, hraw, hpending⟩
        | false =>
          rw [heof] at hlast
          cases hlast
          exact ⟨_, hparsing, rfl, rfl, .inr (.inr heof)⟩

/-! ## Settling -/

theorem slot_forget (id : ℕ) (s : H3Session) : ((forget id).run s).2.slot id = ⟨none, false, false⟩ := by
  simp only [forget, Act.run_modify, slot, AList.lookup_erase, Qpack.Decoder.isBlocked_cancel_self]
  rfl

/-- Parsing that stopped leaves the stream settled. -/
theorem Parsing.settled (h : Parsing id state s) (hstop : state.raw ∨ state.pending.isSome ∨ state.eof = false) :
    state.Settled where
  pending := fun _ => h.raw
  eof := by
    intro heof hnone
    obtain hraw | hsome | hopen := hstop
    · exact .inl hraw
    · rw [hnone] at hsome
      cases hsome
    · exact absurd (hopen.symm.trans heof) Bool.false_ne_true
  delivered := fun hdelivered => .inl (h.raw hdelivered)
  spent := by
    rw [StreamState.spent]
    cases hdelivered : state.delivered with
    | false => simp
    | true => simp [h.raw hdelivered]

theorem retire_held (h : s.streams.lookup id = some state) :
    (retire id).run s = if state.spent then (forget id).run s else (.ok (), s) := by
  rw [retire, Act.run_bind_ok (Act.run_get s), h, Option.map_some, Option.getD_some]
  split_ifs <;> rfl

/-- A stream is dropped where it is spent, and is not kept so. -/
theorem retire_came (h : s.streams.lookup id = some state) (hrooted : (s.slot id).Rooted)
    (hsettled : state.spent = false → state.Settled) :
    (((retire id).run s).2.slot id).Came state.eof state.finished := by
  rw [retire_held h]
  cases hspent : state.spent with
  | true => exact .inl (slot_forget id s)
  | false => exact .inr ⟨state, h, hrooted, rfl, rfl, hsettled hspent⟩

/-- A stream whose peer has finished is finished with once its message is delivered, if this end
    has finished as well. -/
theorem deliver_came (h : Parsing id state s) (hend : state.eof ∧ state.raw = false ∧ state.pending = none)
    (hrun : (deliver id).run s = (.ok (), s')) : (s'.slot id).Came state.eof state.finished := by
  obtain ⟨heof, hraw, hpending⟩ := hend
  have hdelivered : state.delivered = false := by
    have := h.raw
    rw [hraw] at this
    simpa using this
  rw [deliver, Act.run_bind_ok (run_stream h.stream), hdelivered, if_neg Bool.false_ne_true] at hrun
  split at hrun
  · cases hrun
  · obtain ⟨_, s₁, hfirst, hrest⟩ := Act.of_run_bind_ok hrun
    obtain ⟨_, s₂, hsecond, hlast⟩ := Act.of_run_bind_ok hrest
    have hstreams : s₂.streams.lookup id = some { state with message := none, body := [], delivered := true } := by
      cases hfirst
      cases hsecond
      exact lookup_changed h.stream fun state => { state with message := none, body := [], delivered := true }
    have hrooted : (s₂.slot id).Rooted := by
      intro hrooted
      cases hfirst
      cases hsecond
      obtain ⟨pended, hpended, hsome⟩ := h.rooted hrooted
      cases h.stream.symm.trans hpended
      rw [hpending] at hsome
      cases hsome
    have hcame := retire_came hstreams hrooted fun hspent =>
      ⟨fun hsome => by simp [hpending] at hsome, fun _ _ => .inr rfl, fun _ => .inr heof, hspent⟩
    rwa [hlast] at hcame

/-- Parsing does not run out of fuel before it stops or finishes. -/
theorem advanceLoop_came {fuel : ℕ} (h : Parsing id state s) (hfuel : state.weight < fuel)
    (hrun : (advanceLoop world id fuel).run s = (.ok (), s')) : (s'.slot id).Came state.eof state.finished := by
  induction fuel generalizing state s with
  | zero => exact absurd hfuel (Nat.not_lt_zero _)
  | succ fuel ih =>
    obtain ⟨progress, s₁, hfirst, hlast⟩ := Act.of_run_bind_ok hrun
    obtain ⟨state', hstate', heof, hfinished, hleaves⟩ := advanceOnce_reaches h hfirst
    rw [← heof, ← hfinished]
    cases progress with
    | again => exact ih hstate' (by have : state'.weight < state.weight := hleaves; omega) hlast
    | stop =>
      cases hlast
      exact .inr ⟨state', hstate'.stream, hstate'.rooted, rfl, rfl, hstate'.settled hleaves⟩
    | finish => exact deliver_came hstate' hleaves hlast

theorem advance_came (h : Parsing id state s) (hrun : (advance world id).run s = (.ok (), s')) :
    (s'.slot id).Came state.eof state.finished := by
  rw [advance, Act.run_bind_ok (Act.run_get s), h.stream] at hrun
  refine advanceLoop_came h ?_ hrun
  rw [StreamState.weight, Option.map_some, Option.getD_some]
  have := Bool.toNat_le state.pending.isSome
  omega

/-! ## Between one step and the next -/

/-- What a session has of its streams between one step and the next. -/
structure Tidy (s : H3Session) : Prop where
  distinct : s.decoder.Distinct
  slot : ∀ id, (s.slot id).Tidy

theorem blocked_new (role : Role) (limits : H3Limits) : (new role limits).decoder.blocked = [] := by
  simp only [new, Qpack.Decoder.setMaxBlockedStreams, Qpack.Decoder.setMaxInstructionSize,
    Qpack.Decoder.setMaxDecodedSize, Qpack.Decoder.setMaxCapacity]
  split_ifs <;> rfl

theorem slot_new (role : Role) (limits : H3Limits) (id : ℕ) : (new role limits).slot id = ⟨none, false, false⟩ := by
  rw [slot, Qpack.Decoder.isBlocked, blocked_new]
  rfl

theorem distinct_new (role : Role) (limits : H3Limits) : (new role limits).decoder.Distinct := by
  rw [Qpack.Decoder.Distinct, blocked_new]
  exact List.nodup_nil

/-- A step for one stream leaves the session tidy where it leaves that stream so. -/
theorem Tidy.elsewhere (h : s.Tidy) (helse : Elsewhere id s s') (hid : (s'.slot id).Tidy) : s'.Tidy := by
  refine ⟨helse.distinct h.distinct, fun other => ?_⟩
  by_cases hne : other = id
  · rw [hne]
    exact hid
  · rw [helse.others other hne]
    exact h.slot other

/-- What there is of a stream that is seen to be there. -/
theorem slot_entry (id : ℕ) (s : H3Session) : ((entry id).run s).2.slot id =
    { s.slot id with state := some ((s.streams.lookup id).getD .new) } := by
  simp only [entry, Act.run_modify, slot]
  cases hstate : s.streams.lookup id with
  | some state => simp [hstate]
  | none => simp

theorem slot_modifyStream (id : ℕ) (f : StreamState → StreamState) (s : H3Session) :
    ((modifyStream id f).run s).2.slot id = { s.slot id with state := (s.slot id).state.map f } := by
  rw [run_modifyStream, slot, StreamMap.lookup_modify, if_pos rfl]
  rfl

/-- What a step that leaves the three places alone leaves of every stream. -/
theorem slot_of_eq {m : Step α} {a : α} (h : ∀ s, (m.run s).2.streams = s.streams ∧
    (m.run s).2.decoder.blocked = s.decoder.blocked ∧ (m.run s).2.blockedSince = s.blockedSince)
    (hrun : m.run s = (.ok a, s')) (id : ℕ) : s'.slot id = s.slot id := by
  have hsame := h s
  rw [hrun] at hsame
  obtain ⟨hstreams, hblocked, hsince⟩ : s'.streams = s.streams ∧ s'.decoder.blocked = s.decoder.blocked ∧
    s'.blockedSince = s.blockedSince := hsame
  rw [slot, slot, Qpack.Decoder.isBlocked, Qpack.Decoder.isBlocked, hstreams, hblocked, hsince]

theorem admitStream_aside (id : ℕ) (s : H3Session) : ((admitStream id).run s).2.streams = s.streams ∧
    ((admitStream id).run s).2.decoder.blocked = s.decoder.blocked ∧
    ((admitStream id).run s).2.blockedSince = s.blockedSince := by
  rw [admitStream, Act.run_bind_ok (Act.run_get s)]
  split_ifs
  · exact ⟨rfl, rfl, rfl⟩
  · rw [Act.run_bind, Act.run_demand]
    cases decide (s.streams.entries.length < s.streamCeiling) <;> exact ⟨rfl, rfl, rfl⟩

theorem overbuffered_aside (s : H3Session) : (overbuffered.run s).2.streams = s.streams ∧
    (overbuffered.run s).2.decoder.blocked = s.decoder.blocked ∧ (overbuffered.run s).2.blockedSince = s.blockedSince := by
  simp only [Act.run, overbuffered]
  split_ifs <;> exact ⟨rfl, rfl, rfl⟩

/-- A stream that is begun, or goes on, is parsed as far as it can be. -/
theorem onStreamBytes_came {bytes : Octets} {fin : Bool} (htidy : (s.slot id).Tidy)
    (hopen : ∀ state, s.streams.lookup id = some state → state.eof = false)
    (hrun : (onStreamBytes world id bytes fin).run s = (.ok (), s')) :
    (s'.slot id).Came fin (((s.streams.lookup id).map (·.finished)).getD false) := by
  obtain ⟨_, s₁, hadmit, hrest₁⟩ := Act.of_run_bind_ok hrun
  obtain ⟨_, s₂, hentry, hrest₂⟩ := Act.of_run_bind_ok hrest₁
  obtain ⟨_, s₃, hbuffer, hrest₃⟩ := Act.of_run_bind_ok hrest₂
  obtain ⟨_, s₄, hstream, hrest₄⟩ := Act.of_run_bind_ok hrest₃
  obtain ⟨_, s₅, hbound, hrest₅⟩ := Act.of_run_bind_ok hrest₄
  obtain ⟨_, s₆, hget, hrest₆⟩ := Act.of_run_bind_ok hrest₅
  obtain ⟨_, s₇, hsize, hrest₇⟩ := Act.of_run_bind_ok hrest₆
  obtain ⟨_, s₈, hover, hrest₈⟩ := Act.of_run_bind_ok hrest₇
  obtain ⟨_, s₉, hroom, hlast⟩ := Act.of_run_bind_ok hrest₈
  have hentered : s₂.slot id = { s.slot id with state := some ((s.streams.lookup id).getD .new) } := by
    have hsame := slot_of_eq (admitStream_aside id) hadmit id
    have hslot := slot_entry id s₁
    rw [hentry, hsame, show s₁.streams.lookup id = s.streams.lookup id from congrArg Slot.state hsame] at hslot
    exact hslot
  have hslot : s₉.slot id = { s.slot id with state := some { (s.streams.lookup id).getD .new with
      buffer := ((s.streams.lookup id).getD .new).buffer ++ bytes
      eof := ((s.streams.lookup id).getD .new).eof || fin } } := by
    have hbuffered := slot_modifyStream id
      (fun state => { state with buffer := state.buffer ++ bytes, eof := state.eof || fin }) s₂
    rw [hbuffer, hentered] at hbuffered
    have hstate : s₃.streams.lookup id = some _ := congrArg Slot.state hbuffered
    rw [run_stream hstate] at hstream
    cases hstream
    cases hbound
    cases hget
    cases congrArg Prod.snd hsize
    cases congrArg Prod.snd hroom
    rw [slot_of_eq overbuffered_aside hover]
    exact hbuffered
  -- Whether the stream was there or not, it was not ended and nothing of it was delivered but for
  -- what opened a tunnel.
  have hbase : ((s.streams.lookup id).getD .new).eof = false ∧
      (((s.streams.lookup id).getD .new).delivered → ((s.streams.lookup id).getD .new).raw) := by
    cases hstate : s.streams.lookup id with
    | none => exact ⟨rfl, fun h => by cases h⟩
    | some state =>
      refine ⟨hopen state hstate, fun hdelivered => ?_⟩
      have hopened := hopen state hstate
      refine ((htidy.settled state hstate).delivered hdelivered).resolve_right fun heof => ?_
      exact Bool.false_ne_true (hopened.symm.trans heof)
  have hparsing : Parsing id _ s₉ := ⟨congrArg Slot.state hslot, hbase.2, fun hrooted => by
    rw [hslot] at hrooted
    obtain ⟨state, hstate, hsome⟩ := htidy.rooted hrooted
    refine ⟨_, congrArg Slot.state hslot, ?_⟩
    rw [show s.streams.lookup id = some state from hstate]
    exact hsome⟩
  have hcame := advance_came hparsing hlast
  rw [hbase.1, Bool.false_or] at hcame
  cases hstate : s.streams.lookup id with
  | none => rwa [hstate] at hcame
  | some state => rwa [hstate] at hcame

/-- Every one of these streams is parsed as far as it can be, and no other is touched. -/
theorem advanceAll_came {ids : List ℕ} (htidy : s.Tidy) (hnodup : ids.Nodup)
    (hpending : ∀ id ∈ ids, ∃ state, s.streams.lookup id = some state ∧ state.pending.isSome)
    (hrun : (advanceAll world ids).run s = (.ok (), s')) : s'.Tidy ∧
      (∀ id ∈ ids, ∃ state, s.streams.lookup id = some state ∧ (s'.slot id).Came state.eof state.finished) ∧
      ∀ id ∉ ids, s'.slot id = s.slot id := by
  induction ids generalizing s with
  | nil =>
    cases hrun
    exact ⟨htidy, fun _ hmem => absurd hmem List.not_mem_nil, fun _ _ => rfl⟩
  | cons id ids ih =>
    obtain ⟨_, s₁, hfirst, hlast⟩ := Act.of_run_bind_ok hrun
    obtain ⟨hnew, hrest⟩ := List.nodup_cons.1 hnodup
    obtain ⟨state, hstate, hsome⟩ := hpending id List.mem_cons_self
    have hsettled := (htidy.slot id).settled state hstate
    have hcame := advance_came ⟨hstate, hsettled.pending hsome, (htidy.slot id).rooted⟩ hfirst
    have helse : Elsewhere id s s₁ := by
      have hminds : Elsewhere id s ((advance world id).run s).2 := minds_advance world s
      rwa [hfirst] at hminds
    have hsame {other : ℕ} (hmem : other ∈ ids) : s₁.slot other = s.slot other :=
      helse.others other fun heq => hnew (heq ▸ hmem)
    have hlookup {other : ℕ} (hmem : other ∈ ids) : s₁.streams.lookup other = s.streams.lookup other :=
      congrArg Slot.state (hsame hmem)
    obtain ⟨htidy', hthose, hothers⟩ := ih (htidy.elsewhere helse hcame.tidy) hrest
      (fun other hmem => by rw [hlookup hmem]; exact hpending other (List.mem_cons_of_mem _ hmem)) hlast
    refine ⟨htidy', fun other hmem => ?_, fun other hnot => ?_⟩
    · obtain rfl | hmem := List.mem_cons.1 hmem
      · rw [hothers other hnew]
        exact ⟨state, hstate, hcame⟩
      · rw [← hlookup hmem]
        exact hthose other hmem
    · rw [hothers other fun hmem => hnot (List.mem_cons_of_mem _ hmem)]
      exact helse.others other fun heq => hnot (heq ▸ List.mem_cons_self)

/-- Table entries take the streams that waited for them on, and leave the others. -/
theorem onEncoderBytes_came {bytes : Octets} (htidy : s.Tidy)
    (hrun : (onEncoderBytes world bytes).run s = (.ok (), s')) : s'.Tidy ∧ ∀ id, s'.slot id = s.slot id ∨
      ∃ state, s.streams.lookup id = some state ∧ (s'.slot id).Came state.eof state.finished := by
  rw [onEncoderBytes, Act.run_bind_ok (Act.run_get s)] at hrun
  rcases hdecoder : s.decoder.onEncoderStream bytes with ⟨decoder, error⟩
  have hblocked := s.decoder.blocked_onEncoderStream bytes
  rw [hdecoder] at hrun hblocked
  have hslot (id : ℕ) : ({ s with decoder := decoder } : H3Session).slot id = s.slot id := by
    rw [slot, slot, Qpack.Decoder.isBlocked, hblocked, Qpack.Decoder.isBlocked]
  have htidy' : ({ s with decoder := decoder } : H3Session).Tidy := by
    refine ⟨?_, fun id => by rw [hslot]; exact htidy.slot id⟩
    rw [Qpack.Decoder.Distinct, hblocked]
    exact htidy.distinct
  cases error with
  | some error => cases hrun
  | none =>
    obtain ⟨_, s₁, hfirst, hlast⟩ := Act.of_run_bind_ok hrun
    cases hfirst
    dsimp only at hlast
    split_ifs at hlast
    · cases hlast
      exact ⟨htidy', fun id => .inl (hslot id)⟩
    · have hsublist : (decoder.unblocked).Sublist (decoder.blocked.map Prod.fst) := List.filter_sublist.map _
      -- A stream that was blocked is there, with the block that was.
      have hpending (id : ℕ) (hmem : id ∈ decoder.unblocked) :
          ∃ state, s.streams.lookup id = some state ∧ state.pending.isSome := by
        obtain ⟨entry, hentry, hid⟩ := List.mem_map.1 (hsublist.subset hmem)
        exact (htidy'.slot id).rooted (.inl (List.any_eq_true.2 ⟨entry, hentry, beq_iff_eq.2 hid⟩))
      obtain ⟨htidy'', hthose, hothers⟩ := advanceAll_came htidy' (htidy'.distinct.sublist hsublist) hpending hlast
      refine ⟨htidy'', fun id => ?_⟩
      by_cases hmem : id ∈ decoder.unblocked
      · exact .inr (hthose id hmem)
      · exact .inl ((hothers id hmem).trans (hslot id))

end H3Session

end Soyokaze

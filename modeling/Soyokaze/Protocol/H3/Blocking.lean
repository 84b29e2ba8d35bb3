import Soyokaze.Helpers.QpackTiming
import Soyokaze.Lib.Course
import Soyokaze.Protocol.H3.Settling

/-!
# Blocked streams

That a stream is blocked is written down three times: its block is pending, its decoder
counts it, and it waits by the clock. A session is `Level` where the three agree and
nothing waits for table entries that have arrived. What arrives on the encoder stream may
leave some streams waiting for nothing, which are gone on with one by one until none is.

* `Qpack.Decoder.decoded`: how the decoding of a block ends, and what it is held for;
* `H3Session.level_advance`: going on with a stream leaves it waiting for what is to come,
  or for nothing;
* `H3Session.blocked_agree`: a session is level after any calls that succeed.
-/

namespace Soyokaze

open H3

/-! ## Decoding a block -/

namespace Qpack

/-- What does not wait: it could be read, or it is wrong. -/
def Decided {α : Type} (x : Except Error α) : Prop := x ≠ .error .blocked

theorem decided_ok {α : Type} (a : α) : Decided (.ok a) := fun h => by cases h

theorem decided_error {α : Type} {error : Error} (h : error ≠ .blocked) : Decided (.error error : Except Error α) :=
  fun heq => h (Except.error.inj heq)

theorem Decided.bind {α β : Type} {x : Except Error α} {f : α → Except Error β} (hx : Decided x)
    (hf : ∀ a, Decided (f a)) : Decided (x >>= f) := by
  cases x with
  | error error => exact decided_error fun heq => hx (congrArg _ heq)
  | ok a => exact hf a

theorem decided_wire {α : Type} (x : Except Fields.WireError α) : Decided (x.mapError .ofFields) := by
  cases x with
  | error error => cases error <;> exact decided_error fun h => by cases h
  | ok a => exact decided_ok a

theorem decided_integer (input : Octets) (prefixBits : ℕ) : Decided (integer input prefixBits) := decided_wire _

theorem decided_text (input : Octets) (prefixBits : ℕ) : Decided (text input prefixBits) := decided_wire _

theorem Prefix.decided_decodeInsertCount (encoded inserted maxCapacity : ℕ) :
    Decided (decodeInsertCount encoded inserted maxCapacity) := by
  rw [decodeInsertCount]
  dsimp only
  split_ifs <;> first | exact decided_ok _ | exact decided_error fun h => by cases h

namespace Decoder

variable {d d' : Decoder} {id : ℕ} {ids : List ℕ} {block : Octets} {required most : ℕ}

theorem decided_staticAt (index : ℕ) : Decided (staticAt index) := by
  rw [staticAt]
  split
  · exact decided_error fun h => by cases h
  · exact decided_ok _

theorem decided_entryAt (t : DynamicTable) (index : ℕ) (absolute : Option ℕ) : Decided (entryAt t index absolute) := by
  cases absolute with
  | none => exact decided_error fun h => by cases h
  | some absolute =>
    simp only [entryAt]
    split
    · exact decided_error fun h => by cases h
    · exact decided_ok _

theorem decided_resolve (t : DynamicTable) (fromStatic : Bool) (base index : ℕ) :
    Decided (resolve t fromStatic base index) := by
  rw [resolve]
  split_ifs
  · exact decided_staticAt index
  · exact decided_entryAt _ _ _

theorem decided_decodeField (t : DynamicTable) (base : ℕ) (first : UInt8) (rest : Octets) :
    Decided (decodeField t base first rest) := by
  rw [decodeField]
  split_ifs
  · exact (decided_integer _ _).bind fun _ => (decided_resolve _ _ _ _).bind fun _ => decided_ok _
  · exact (decided_integer _ _).bind fun _ => (decided_resolve _ _ _ _).bind fun _ =>
      (decided_text _ _).bind fun _ => decided_ok _
  · exact (decided_text _ _).bind fun _ => (decided_text _ _).bind fun _ => decided_ok _
  · exact (decided_integer _ _).bind fun _ => (decided_entryAt _ _ _).bind fun _ => decided_ok _
  · exact (decided_integer _ _).bind fun _ => (decided_entryAt _ _ _).bind fun _ =>
      (decided_text _ _).bind fun _ => decided_ok _

theorem decided_decodeFields (t : DynamicTable) (maxDecodedSize base fuel : ℕ) (block : Octets)
    (headers : List HeaderField) (decodedSize : ℕ) :
    Decided (decodeFields t maxDecodedSize base fuel block headers decodedSize) := by
  induction fuel generalizing block headers decodedSize with
  | zero => exact decided_ok _
  | succ fuel ih =>
    cases block with
    | nil => exact decided_ok _
    | cons first rest =>
      refine (decided_decodeField t base first _).bind fun read => ?_
      dsimp only
      split_ifs
      · exact decided_error fun h => by cases h
      · exact ih _ _ _

theorem decided_base (required : ℕ) (block : Octets) (consumed : ℕ) : Decided (base required block consumed) := by
  rw [base]
  split
  · exact decided_error fun h => by cases h
  · refine (decided_integer _ _).bind fun read => ?_
    dsimp only
    split_ifs <;> first | exact decided_ok _ | exact decided_error fun h => by cases h

/-- The insert count a section calls for, where so many entries have been inserted. -/
def countAt (maxCapacity inserted : ℕ) (block : Octets) : Except Error ℕ := do
  let (_, encoded) ← integer block 8
  Prefix.decodeInsertCount encoded inserted maxCapacity

/-- How the decoding of a block ends: it is wrong, or held for the entries it calls for, or the
    stream it is of is not blocked by it. -/
inductive Decoded (d : Decoder) (id : ℕ) (block : Octets) :
    Decoder × Except Error (List HeaderField × Option DecoderInstruction) → Prop
  | refused {error : Error} (decided : error ≠ .blocked) : Decoded d id block (d, .error error)
  | held {required : ℕ} (short : d.dynamicTable.insertedCount < required)
      (count : countAt d.maxCapacity d.dynamicTable.insertedCount block = .ok required)
      (room : d.isBlocked id ∨ d.blocked.length < d.maxBlockedStreams) :
      Decoded d id block ({ d with blocked := (id, required) :: (d.cancel id).blocked }, .error .blocked)
  | freed {outcome : Except Error (List HeaderField × Option DecoderInstruction)} (decided : Decided outcome) :
      Decoded d id block (d.cancel id, outcome)

theorem decoded (d : Decoder) (id : ℕ) (block : Octets) : d.Decoded id block (d.decode id block) := by
  rw [decode]
  dsimp only
  cases hinteger : integer block 8 with
  | error error => exact .refused fun h => decided_integer block 8 (by rw [hinteger, h])
  | ok read =>
    obtain ⟨consumed, encoded⟩ := read
    cases hcount : Prefix.decodeInsertCount encoded d.dynamicTable.insertedCount d.maxCapacity with
    | error error =>
      simp only [bind, Except.bind, hcount]
      exact .refused fun h => Prefix.decided_decodeInsertCount encoded _ _ (by rw [hcount, h])
    | ok required =>
      simp only [bind, Except.bind, hcount]
      split_ifs with hshort hfull
      · exact .refused fun h => by cases h
      · refine .held hshort (by rw [countAt, hinteger]; exact hcount) ?_
        rw [isBlocked]
        cases hheld : d.blocked.any (·.1 == id) with
        | true => exact .inl rfl
        | false => exact .inr (by simpa [hheld] using hfull)
      · exact .freed ((decided_base _ _ _).bind fun _ => (decided_decodeFields _ _ _ _ _ _ _).bind fun _ => decided_ok _)
      · exact .freed ((decided_base _ _ _).bind fun _ => (decided_decodeFields _ _ _ _ _ _ _).bind fun _ => decided_ok _)

/-- A count that was recovered lies in the window of the decoder that recovered it. -/
theorem le_of_decodeInsertCount {encoded inserted maxCapacity : ℕ}
    (h : Prefix.decodeInsertCount encoded inserted maxCapacity = .ok required) :
    required ≤ inserted + Prefix.maxEntries maxCapacity := by
  rw [Prefix.decodeInsertCount] at h
  generalize Prefix.maxEntries maxCapacity = entries at *
  dsimp only at h
  have hmax : saturatingAdd inserted entries ≤ inserted + entries := min_le_left _ _
  have hdiv := Nat.div_mul_le_self (saturatingAdd inserted entries) (2 * entries)
  have hwrap : saturatingAdd (saturatingAdd inserted entries / (2 * entries) * (2 * entries)) encoded ≤
      saturatingAdd inserted entries / (2 * entries) * (2 * entries) + encoded := min_le_left _ _
  split_ifs at h with hnone hrange hbad hback
  · have := Except.ok.inj h
    omega
  · have := Except.ok.inj h
    omega
  · have := Except.ok.inj h
    omega

/-- A section that waits for its count calls for the same one for as long as it does. -/
theorem countAt_later {maxCapacity inserted inserted' : ℕ} (h : countAt maxCapacity inserted block = .ok required)
    (hle : inserted ≤ inserted') (hshort : inserted' < required)
    (hword : inserted' + 3 * Prefix.maxEntries maxCapacity ≤ MAX) : countAt maxCapacity inserted' block = .ok required := by
  rw [countAt] at h ⊢
  cases hinteger : integer block 8 with
  | error error =>
    rw [hinteger] at h
    cases h
  | ok read =>
    obtain ⟨consumed, encoded⟩ := read
    rw [hinteger] at h
    have hcount : Prefix.decodeInsertCount encoded inserted maxCapacity = .ok required := h
    have hreach := le_of_decodeInsertCount hcount
    obtain ⟨hwindow, rfl⟩ := Prefix.encode_decode (by omega) hcount (by omega)
    have hlow := hwindow.lower
    have hhigh := hwindow.upper
    exact Prefix.decode_encode (by omega) (by omega) (by omega) (by omega) hword

/-! ## The streams a decoder counts -/

theorem mem_cancel {entry : ℕ × ℕ} : entry ∈ (d.cancel id).blocked ↔ entry ∈ d.blocked ∧ entry.1 ≠ id := by
  simp [cancel]

/-- The streams that are counted are few enough, and wait for entries to come, but for some that
    may have stopped waiting. -/
structure Orderly (most : ℕ) (ids : List ℕ) (d : Decoder) : Prop where
  distinct : d.Distinct
  ceiling : d.maxBlockedStreams = most
  room : d.blocked.length ≤ most
  short : ∀ entry ∈ d.blocked, entry.1 ∈ ids ∨ d.dynamicTable.insertedCount < entry.2

theorem Orderly.cons (h : d.Orderly most ids) (id : ℕ) : d.Orderly most (id :: ids) :=
  ⟨h.distinct, h.ceiling, h.room, fun entry hentry => (h.short entry hentry).imp_left (List.mem_cons_of_mem id)⟩

theorem Orderly.cancel (h : d.Orderly most (id :: ids)) : (d.cancel id).Orderly most ids where
  distinct := h.distinct.cancel id
  ceiling := h.ceiling
  room := (List.length_filter_le _ _).trans h.room
  short := by
    intro entry hentry
    obtain ⟨hmem, hne⟩ := mem_cancel.1 hentry
    exact (h.short entry hmem).imp_left fun hids => (List.mem_cons.1 hids).resolve_left hne

theorem Orderly.hold (h : d.Orderly most (id :: ids)) (hshort : d.dynamicTable.insertedCount < required)
    (hroom : d.isBlocked id ∨ d.blocked.length < d.maxBlockedStreams) :
    Orderly most ids { d with blocked := (id, required) :: (d.cancel id).blocked } where
  distinct := by
    rw [Distinct, List.map_cons, List.nodup_cons]
    refine ⟨fun hmem => ?_, h.distinct.cancel id⟩
    obtain ⟨entry, hentry, hid⟩ := List.mem_map.1 hmem
    exact (mem_cancel.1 hentry).2 hid
  ceiling := h.ceiling
  room := by
    rw [List.length_cons, Nat.succ_le_iff]
    obtain hheld | hless := hroom
    · -- It takes the place it had.
      refine lt_of_lt_of_le (List.length_filter_lt_length_iff_exists.2 ?_) h.room
      obtain ⟨entry, hentry, hid⟩ := List.any_eq_true.1 hheld
      exact ⟨entry, hentry, by simpa using hid⟩
    · exact lt_of_le_of_lt (List.length_filter_le _ _) (h.ceiling ▸ hless)
  short := by
    intro entry hentry
    obtain rfl | hmem := List.mem_cons.1 hentry
    · exact .inr hshort
    · exact h.cancel.short entry hmem

/-- Entries that arrive may be what the streams that are then not blocked waited for. -/
theorem Orderly.goesOn (h : d.Orderly most []) (hon : d.GoesOn d') : d'.Orderly most d'.unblocked where
  distinct := by
    rw [Distinct, hon.blocked]
    exact h.distinct
  ceiling := hon.most.trans h.ceiling
  room := by
    rw [hon.blocked]
    exact h.room
  short := by
    intro entry hentry
    by_cases hreached : entry.2 ≤ d'.dynamicTable.insertedCount
    · exact .inl (List.mem_map_of_mem (List.mem_filter.2 ⟨hentry, decide_eq_true hreached⟩))
    · exact .inr (not_le.1 hreached)

end Decoder

end Qpack

/-! ## What the three places say of a stream -/

namespace H3

/-- The block of a stream that is pending. -/
def Slot.held (slot : Slot) : Option Octets := slot.state.bind (·.pending)

/-- Whether a stream is relayed. -/
def Slot.raw (slot : Slot) : Bool := (slot.state.map (·.raw)).getD false

/-- The three places say the same of a stream, and one that is relayed has nothing pending. -/
structure Slot.Agrees (slot : Slot) : Prop where
  blocked : slot.blocked = slot.held.isSome
  since : slot.since = slot.held.isSome
  raw : slot.held.isSome → slot.raw = false

theorem Slot.agrees_of_none {slot : Slot} (hheld : slot.held = none) (hblocked : slot.blocked = false)
    (hsince : slot.since = false) : slot.Agrees where
  blocked := by rw [hblocked, hheld, Option.isSome_none]
  since := by rw [hsince, hheld, Option.isSome_none]
  raw := fun h => by
    rw [hheld] at h
    cases h

/-- Nothing changes that the three places say of a stream. -/
structure Slot.Alike (slot slot' : Slot) : Prop where
  held : slot'.held = slot.held
  blocked : slot'.blocked = slot.blocked
  since : slot'.since = slot.since
  raw : slot.held.isSome → slot'.raw = slot.raw

theorem Slot.Alike.refl (slot : Slot) : slot.Alike slot := ⟨rfl, rfl, rfl, fun _ => rfl⟩

theorem Slot.Alike.trans {a b c : Slot} (h : a.Alike b) (h' : b.Alike c) : a.Alike c :=
  ⟨h'.held.trans h.held, h'.blocked.trans h.blocked, h'.since.trans h.since, fun hsome =>
    (h'.raw (h.held.symm ▸ hsome)).trans (h.raw hsome)⟩

theorem Slot.Agrees.alike {slot slot' : Slot} (h : slot.Agrees) (halike : slot.Alike slot') : slot'.Agrees where
  blocked := by rw [halike.blocked, h.blocked, halike.held]
  since := by rw [halike.since, h.since, halike.held]
  raw := fun hsome => by
    rw [halike.held] at hsome
    rw [halike.raw hsome, h.raw hsome]

end H3

namespace H3Session

variable {s s' : H3Session} {id most : ℕ} {ids : List ℕ} {α β : Type} {world : World}

/-- Nothing changes that the three places say of any stream. -/
structure Alike (s s' : H3Session) : Prop where
  decoder : s'.decoder = s.decoder
  slot : ∀ id, (s.slot id).Alike (s'.slot id)

theorem Alike.refl (s : H3Session) : Alike s s := ⟨rfl, fun _ => .refl _⟩

theorem Alike.trans {a b c : H3Session} (h : Alike a b) (h' : Alike b c) : Alike a c :=
  ⟨h'.decoder.trans h.decoder, fun id => (h.slot id).trans (h'.slot id)⟩

/-- A step that leaves the three places as they are, however it ends. -/
abbrev Likewise (m : Step α) : Prop := Act.Keeps Alike m

theorem Likewise.bind {m : Step α} {f : α → Step β} (hm : Likewise m) (hf : ∀ a, Likewise (f a)) : Likewise (m >>= f) :=
  @Act.Keeps.bind _ _ _ _ Alike Alike.trans m f hm hf

theorem Likewise.run {m : Step α} {answer : Except Error α} (h : Likewise m) (hrun : m.run s = (answer, s')) :
    Alike s s' := by
  have := h s
  rwa [hrun] at this

theorem Alike.of_eq (hstreams : s'.streams = s.streams) (hdecoder : s'.decoder = s.decoder)
    (hsince : s'.blockedSince = s.blockedSince) : Alike s s' := by
  refine ⟨hdecoder, fun id => ?_⟩
  rw [H3Session.slot, H3Session.slot, hstreams, hdecoder, hsince]
  exact .refl _

theorem likewise_of_eq {m : Step α} (h : ∀ s, (m.run s).2.streams = s.streams ∧ (m.run s).2.decoder = s.decoder ∧
    (m.run s).2.blockedSince = s.blockedSince) : Likewise m := fun s => .of_eq (h s).1 (h s).2.1 (h s).2.2

theorem likewise_get : Likewise (Act.get : Step H3Session) := fun s => .refl s

theorem likewise_pure (a : α) : Likewise (pure a : Step α) := fun s => .refl s

theorem likewise_fail (error : Error) : Likewise (Act.fail error : Step α) := fun s => .refl s

theorem likewise_ofExcept (x : Except Error α) : Likewise (Act.ofExcept x : Step α) := fun s => .refl s

theorem likewise_demand (condition : Bool) (error : Error) : Likewise (Act.demand condition error : Step Unit) :=
  fun s => .refl s

theorem likewise_stream (id : ℕ) : Likewise (stream id) := likewise_of_eq fun s => by
  simp only [Act.run, stream]
  split <;> exact ⟨rfl, rfl, rfl⟩

theorem likewise_modifyStream {f : StreamState → StreamState}
    (hf : ∀ state, (f state).pending = state.pending ∧ (f state).raw = state.raw) : Likewise (modifyStream id f) := by
  refine fun s => ⟨rfl, fun other => ?_⟩
  by_cases h : other = id
  · have hslot := slot_modifyStream id f s
    subst h
    rw [hslot]
    cases hstate : (s.slot other).state with
    | none => exact ⟨by simp [Slot.held, hstate], rfl, rfl, fun _ => by simp [Slot.raw, hstate]⟩
    | some state => exact ⟨by simp [Slot.held, hstate, hf], rfl, rfl, fun _ => by simp [Slot.raw, hstate, hf]⟩
  · rw [(minds_modifyStream f s : Elsewhere id s _).others other h]
    exact .refl _

theorem likewise_entry : Likewise (entry id) := by
  refine fun s => ⟨?_, fun other => ?_⟩
  · simp only [entry, Act.run_modify]
    split_ifs <;> rfl
  · by_cases h : other = id
    · subst h
      rw [slot_entry]
      have hstate : (s.slot other).state = s.streams.lookup other := rfl
      cases hlookup : s.streams.lookup other with
      | none =>
        rw [hlookup] at hstate
        exact ⟨by simp [Slot.held, hstate, StreamState.new], rfl, rfl, fun _ => by simp [Slot.raw, hstate, StreamState.new]⟩
      | some state =>
        rw [hlookup] at hstate
        exact ⟨by simp [Slot.held, hstate], rfl, rfl, fun _ => by simp [Slot.raw, hstate]⟩
    · rw [(minds_entry s : Elsewhere id s _).others other h]
      exact .refl _

theorem likewise_admitStream : Likewise (admitStream id) := by
  refine likewise_get.bind fun s => ?_
  split_ifs
  · exact likewise_pure ()
  · exact (likewise_demand _ _).bind fun _ => likewise_of_eq fun _ => ⟨rfl, rfl, rfl⟩

theorem likewise_overbuffered : Likewise overbuffered := likewise_of_eq fun s => by
  simp only [Act.run, overbuffered]
  split_ifs <;> exact ⟨rfl, rfl, rfl⟩

theorem likewise_absorbData (octets : Octets) : Likewise (absorbData id octets) :=
  likewise_get.bind fun _ => (likewise_stream id).bind fun _ => (likewise_demand _ _).bind fun _ =>
    Likewise.bind (likewise_modifyStream fun _ => ⟨rfl, rfl⟩) fun _ => (likewise_demand _ _).bind fun _ => likewise_pure _

theorem likewise_writeTrailers (trailers : Option Headers) : Likewise (writeTrailers id trailers) := by
  cases trailers with
  | none => exact likewise_pure _
  | some trailers =>
    rw [writeTrailers]
    split_ifs
    · exact likewise_pure _
    · exact likewise_of_eq fun _ => ⟨rfl, rfl, rfl⟩

theorem likewise_frameMessage (m : Message) : Likewise (frameMessage world id m) := by
  refine likewise_get.bind fun _ => (likewise_ofExcept _).bind fun m => (likewise_ofExcept _).bind fun _ =>
    Likewise.bind (likewise_of_eq fun _ => ⟨rfl, rfl, rfl⟩) fun _ => (likewise_ofExcept _).bind fun _ =>
    (likewise_writeTrailers _).bind fun _ => likewise_entry.bind fun _ =>
    Likewise.bind (likewise_modifyStream fun state => ?_) fun _ => (likewise_stream id).bind fun _ =>
    Likewise.bind (likewise_modifyStream fun _ => ⟨rfl, rfl⟩) fun _ => likewise_pure _
  split_ifs <;> exact ⟨rfl, rfl⟩

theorem likewise_openBidi : Likewise openBidi :=
  likewise_get.bind fun _ => Likewise.bind (likewise_of_eq fun _ => ⟨rfl, rfl, rfl⟩) fun _ =>
    likewise_entry.bind fun _ => likewise_pure _

theorem likewise_takeReady : Likewise takeReady := likewise_of_eq fun s => by
  simp only [Act.run, takeReady]
  split <;> exact ⟨rfl, rfl, rfl⟩

theorem likewise_onDecoderBytes (bytes : Octets) : Likewise (onDecoderBytes bytes) := by
  refine likewise_get.bind fun s => Likewise.bind (likewise_of_eq fun _ => ⟨rfl, rfl, rfl⟩) fun _ => ?_
  split
  · exact likewise_fail _
  · exact likewise_pure _

theorem likewise_absorbControl (frame : Frame) : Likewise (absorbControl frame) := by
  cases frame with
  | settings params =>
    exact likewise_get.bind fun _ => (likewise_demand _ _).bind fun _ => (likewise_ofExcept _).bind fun _ =>
      likewise_of_eq fun _ => ⟨rfl, rfl, rfl⟩
  | goAway id => exact likewise_of_eq fun _ => ⟨rfl, rfl, rfl⟩
  | maxPushId | cancelPush => exact likewise_pure _
  | headers | data | pushPromise => exact likewise_fail _

theorem likewise_controlLoop (fuel : ℕ) : Likewise (controlLoop fuel) := by
  induction fuel with
  | zero => exact likewise_pure ()
  | succ fuel ih =>
    refine likewise_get.bind fun s => Likewise.bind (likewise_of_eq fun _ => ⟨rfl, rfl, rfl⟩) fun _ => ?_
    refine (likewise_ofExcept _).bind fun found => ?_
    cases found with
    | none => exact likewise_pure _
    | some frame => exact (likewise_absorbControl frame).bind fun _ => ih

theorem likewise_onControlBytes (bytes : Octets) : Likewise (onControlBytes bytes) :=
  Likewise.bind (likewise_of_eq fun _ => ⟨rfl, rfl, rfl⟩) fun _ => likewise_get.bind fun _ =>
    (likewise_demand _ _).bind fun _ => likewise_controlLoop _

/-! ## Sessions in which the three places agree -/

/-- The count recorded for a block is one that it called for when it was read last. -/
def Known (d : Qpack.Decoder) (block : Octets) (required : ℕ) : Prop :=
  ∃ inserted ≤ d.dynamicTable.insertedCount, Qpack.Decoder.countAt d.maxCapacity inserted block = .ok required

/-- The three places agree on every stream, and what is counted as blocked waits for what has not
    arrived, but for some streams that may have stopped waiting. -/
structure Level (most : ℕ) (ids : List ℕ) (s : H3Session) : Prop where
  decoder : s.decoder.Orderly most ids
  agrees : ∀ id, (s.slot id).Agrees
  known : ∀ id block required, (s.slot id).held = some block → (id, required) ∈ s.decoder.blocked →
    Known s.decoder block required

theorem Level.cons (h : Level most ids s) (id : ℕ) : Level most (id :: ids) s := ⟨h.decoder.cons id, h.agrees, h.known⟩

/-- A session stays level where the three places stay as they are. -/
theorem Level.alike (h : Level most ids s) (halike : Alike s s') : Level most ids s' where
  decoder := by
    rw [halike.decoder]
    exact h.decoder
  agrees := fun id => (h.agrees id).alike (halike.slot id)
  known := by
    intro id block required hheld hmem
    rw [(halike.slot id).held] at hheld
    rw [halike.decoder] at hmem ⊢
    exact h.known id block required hheld hmem

/-- So does a step that leaves the three places as they are. -/
theorem Level.after {m : Step α} {answer : Except Error α} (h : Level most ids s) (hrun : m.run s = (answer, s'))
    (hm : Likewise m) : Level most ids s' := h.alike (hm.run hrun)

/-- What is done for one stream leaves the rest of the session level. -/
theorem Level.elsewhere (h : Level most (id :: ids) s) (hothers : ∀ other, other ≠ id → s'.slot other = s.slot other)
    (hagrees : (s'.slot id).Agrees) (horderly : s'.decoder.Orderly most ids)
    (htable : s'.decoder.dynamicTable = s.decoder.dynamicTable) (hcapacity : s'.decoder.maxCapacity = s.decoder.maxCapacity)
    (hblocked : ∀ entry ∈ s'.decoder.blocked, entry.1 ≠ id → entry ∈ s.decoder.blocked)
    (hknown : ∀ block required, (s'.slot id).held = some block → (id, required) ∈ s'.decoder.blocked →
      Known s.decoder block required) : Level most ids s' where
  decoder := horderly
  agrees := by
    intro other
    by_cases hne : other = id
    · rwa [hne]
    · rw [hothers other hne]
      exact h.agrees other
  known := by
    intro other block required hheld hmem
    rw [Known, htable, hcapacity]
    by_cases hne : other = id
    · subst hne
      exact hknown block required hheld hmem
    · rw [hothers other hne] at hheld
      exact h.known other block required hheld (hblocked _ hmem hne)

/-- A stream that is not blocked any more has nothing pending. -/
theorem Level.freed (h : Level most (id :: ids) s) {out : Octets}
    (hdecoder : s'.decoder = { s.decoder.cancel id with streamOut := out })
    (hothers : ∀ other, other ≠ id → s'.slot other = s.slot other) (hheld : (s'.slot id).held = none)
    (hsince : (s'.slot id).since = false) : Level most ids s' := by
  have hblocked : s'.decoder.blocked = (s.decoder.cancel id).blocked := by rw [hdecoder]
  refine h.elsewhere hothers (Slot.agrees_of_none hheld ?_ hsince) ?_ (by rw [hdecoder]; rfl) (by rw [hdecoder]; rfl) ?_ ?_
  · change s'.decoder.isBlocked id = false
    rw [Qpack.Decoder.isBlocked, hblocked]
    exact s.decoder.isBlocked_cancel_self id
  · rw [hdecoder]
    exact ⟨h.decoder.cancel.distinct, h.decoder.cancel.ceiling, h.decoder.cancel.room, h.decoder.cancel.short⟩
  · intro entry hmem _
    rw [hblocked] at hmem
    exact (Qpack.Decoder.mem_cancel.1 hmem).1
  · intro block required hsome
    rw [hheld] at hsome
    cases hsome

/-- A stream whose block is held waits for the count that the block calls for. -/
theorem Level.held (h : Level most (id :: ids) s) {block : Octets} {required : ℕ}
    (hdecoder : s'.decoder = { s.decoder with blocked := (id, required) :: (s.decoder.cancel id).blocked })
    (hshort : s.decoder.dynamicTable.insertedCount < required)
    (hcount : Qpack.Decoder.countAt s.decoder.maxCapacity s.decoder.dynamicTable.insertedCount block = .ok required)
    (hroom : s.decoder.isBlocked id ∨ s.decoder.blocked.length < s.decoder.maxBlockedStreams)
    (hothers : ∀ other, other ≠ id → s'.slot other = s.slot other) (hheld : (s'.slot id).held = some block)
    (hsince : (s'.slot id).since = true) (hraw : (s'.slot id).raw = false) : Level most ids s' := by
  have hblocked : s'.decoder.blocked = (id, required) :: (s.decoder.cancel id).blocked := by rw [hdecoder]
  refine h.elsewhere hothers ⟨?_, ?_, fun _ => hraw⟩ ?_ (by rw [hdecoder]) (by rw [hdecoder]) ?_ ?_
  · rw [hheld]
    change s'.decoder.isBlocked id = true
    rw [Qpack.Decoder.isBlocked, hblocked, List.any_cons, beq_self_eq_true, Bool.true_or]
  · rw [hheld, hsince, Option.isSome_some]
  · rw [hdecoder]
    exact h.decoder.hold hshort hroom
  · intro entry hmem hne
    rw [hblocked] at hmem
    obtain rfl | hmem := List.mem_cons.1 hmem
    · exact absurd rfl hne
    · exact (Qpack.Decoder.mem_cancel.1 hmem).1
  · intro other count hsome hmem
    rw [hheld] at hsome
    cases hsome
    rw [hblocked] at hmem
    obtain heq | hmem := List.mem_cons.1 hmem
    · cases heq
      exact ⟨_, le_refl _, hcount⟩
    · exact absurd rfl (Qpack.Decoder.mem_cancel.1 hmem).2

/-! ## Going on with a stream -/

/-- What is made of a block, by how its decoding ends. -/
inductive Tried (id : ℕ) (block : Octets) (s : H3Session) : Except Qpack.Error (List HeaderField) → H3Session → Prop
  | refused {error : Qpack.Error} (decided : error ≠ .blocked) (decoder : Qpack.Decoder) :
      Tried id block s (.error error) { s with decoder := decoder }
  | held {required : ℕ} (short : s.decoder.dynamicTable.insertedCount < required)
      (count : Qpack.Decoder.countAt s.decoder.maxCapacity s.decoder.dynamicTable.insertedCount block = .ok required)
      (room : s.decoder.isBlocked id ∨ s.decoder.blocked.length < s.decoder.maxBlockedStreams) :
      Tried id block s (.error .blocked)
        { s with decoder := { s.decoder with blocked := (id, required) :: (s.decoder.cancel id).blocked } }
  | freed (fields : List HeaderField) (out : Octets) :
      Tried id block s (.ok fields) { s with decoder := { s.decoder.cancel id with streamOut := out } }

theorem decodeBlock_tried (id : ℕ) (block : Octets) (s : H3Session) :
    ∃ outcome s', (decodeBlock id block).run s = (.ok outcome, s') ∧ Tried id block s outcome s' := by
  simp only [Act.run, decodeBlock]
  generalize hfound : s.decoder.decode id block = found
  have hdecoded := s.decoder.decoded id block
  rw [hfound] at hdecoded
  cases hdecoded with
  | refused hdecided => exact ⟨_, _, rfl, .refused hdecided _⟩
  | held hshort hcount hroom => exact ⟨_, _, rfl, .held hshort hcount hroom⟩
  | @freed outcome hdecided =>
    cases outcome with
    | error error => exact ⟨_, _, rfl, .refused (fun h => hdecided (h ▸ rfl)) _⟩
    | ok found => exact ⟨_, _, rfl, .freed _ _⟩

variable {state : StreamState} {block : Octets} {progress : Progress}

/-- Taking up a section is no matter to the three places, where nothing is pending. -/
theorem level_absorbHeaders {fields : List HeaderField} (h : Level most ids s) (hstate : s.streams.lookup id = some state)
    (hpending : state.pending = none) (hrun : (absorbHeaders world id fields).run s = (.ok (), s')) : Level most ids s' := by
  have helse : Elsewhere id s s' := by
    have hminds : Elsewhere id s ((absorbHeaders world id fields).run s).2 := minds_absorbHeaders world fields s
    rwa [hrun] at hminds
  have hfold : Folding id s s' := by
    have htakes : Folding id s ((absorbHeaders world id fields).run s).2 := takes_absorbHeaders world fields s
    rwa [hrun] at htakes
  obtain ⟨state', hstate', hfolds⟩ := hfold.state state hstate
  refine h.alike ⟨hfold.decoder, fun other => ?_⟩
  by_cases hne : other = id
  · subst hne
    refine ⟨?_, ?_, ?_, fun hsome => ?_⟩
    · simp [Slot.held, slot, hstate, hstate', hfolds.pending]
    · simp only [slot, hfold.decoder]
    · simp only [slot, hfold.since]
    · simp [Slot.held, slot, hstate, hpending] at hsome
  · rw [helse.others other hne]
    exact .refl _

/-- The block a stream was waiting with is decoded, or waits for what has not arrived yet. -/
theorem level_retryBlock (h : Level most (id :: ids) s) (hstate : s.streams.lookup id = some state)
    (hpending : state.pending = some block) (hrun : (retryBlock world id block).run s = (.ok progress, s')) :
    Level most ids s' := by
  have helse : Elsewhere id s s' := by
    have hminds : Elsewhere id s ((retryBlock world id block).run s).2 := minds_retryBlock world block s
    rwa [hrun] at hminds
  have hheld : (s.slot id).held = some block := by simp [Slot.held, slot, hstate, hpending]
  obtain ⟨outcome, s₁, hdecode, htried⟩ := decodeBlock_tried id block s
  rw [retryBlock, Act.run_bind_ok hdecode] at hrun
  cases htried with
  | @refused error hdecided =>
    cases error with
    | blocked => exact absurd rfl hdecided
    | _ => cases hrun
  | held hshort hcount hroom =>
    cases hrun
    exact h.held rfl hshort hcount hroom helse.others hheld
      ((h.agrees id).since.trans (by rw [hheld]; rfl)) ((h.agrees id).raw (by rw [hheld]; rfl))
  | freed fields out =>
    obtain ⟨_, s₁, hstream, hrun⟩ := Act.of_run_bind_ok hrun
    cases hstream.symm.trans (run_stream hstate)
    obtain ⟨_, s₂, hfirst, hrest⟩ := Act.of_run_bind_ok hrun
    obtain ⟨_, s₃, hsecond, hrest'⟩ := Act.of_run_bind_ok hrest
    obtain ⟨_, s₄, hthird, hlast⟩ := Act.of_run_bind_ok hrest'
    cases hfirst
    cases hsecond
    cases hlast
    have hlevel : Level most ids { s with
        decoder := { s.decoder.cancel id with streamOut := out }
        streams := StreamMap.modify s.streams id fun state => { state with pending := none }
        blockedSince := s.blockedSince.erase id } := by
      refine h.freed rfl (fun other hne => ?_) ?_ ?_
      · have hblocked := s.decoder.isBlocked_cancel_of_ne hne
        simp only [slot, StreamMap.lookup_modify, if_neg hne, AList.lookup_erase_ne hne]
        exact congrArg (fun blocked => Slot.mk _ blocked _) hblocked
      · simp [Slot.held, slot, StreamMap.lookup_modify, hstate]
      · simp [slot]
    exact level_absorbHeaders hlevel (lookup_changed hstate _) rfl hthird

/-- A block is taken up, or held for the entries it calls for. -/
theorem level_absorbBlock (h : Level most ids s) (hstate : s.streams.lookup id = some state)
    (hpending : state.pending = none) (hraw : state.raw = false)
    (hrun : (absorbBlock world id block).run s = (.ok progress, s')) : Level most ids s' := by
  have helse : Elsewhere id s s' := by
    have hminds : Elsewhere id s ((absorbBlock world id block).run s).2 := minds_absorbBlock world block s
    rwa [hrun] at hminds
  have hheld : (s.slot id).held = none := by simp [Slot.held, slot, hstate, hpending]
  have hsince : (s.slot id).since = false := (h.agrees id).since.trans (by rw [hheld]; rfl)
  obtain ⟨outcome, s₁, hdecode, htried⟩ := decodeBlock_tried id block s
  rw [absorbBlock, Act.run_bind_ok hdecode] at hrun
  cases htried with
  | @refused error hdecided =>
    cases error with
    | blocked => exact absurd rfl hdecided
    | _ => cases hrun
  | @held required hshort hcount hroom =>
    obtain ⟨_, s₁, hstream, hrun⟩ := Act.of_run_bind_ok hrun
    cases hstream.symm.trans (run_stream hstate)
    obtain ⟨_, s₂, hfirst, hrest⟩ := Act.of_run_bind_ok hrun
    obtain ⟨_, s₃, hsecond, hlast⟩ := Act.of_run_bind_ok hrest
    cases hfirst
    cases hlast
    have hslot : s'.streams.lookup id = some { state with pending := some block } ∧
        (s'.blockedSince.lookup id).isSome = true ∧ s'.decoder = { s.decoder with
          blocked := (id, required) :: (s.decoder.cancel id).blocked } := by
      obtain rfl : _ = s' := congrArg Prod.snd hsecond
      rw [Act.run_modify]
      dsimp only
      split_ifs with hwaits
      · exact ⟨lookup_changed hstate _, hwaits, rfl⟩
      · exact ⟨lookup_changed hstate _, by simp, rfl⟩
    obtain ⟨hstate', hsince', hdecoder⟩ := hslot
    refine (h.cons id).held hdecoder hshort hcount hroom helse.others ?_ hsince' ?_
    · simp [Slot.held, slot, hstate']
    · simp [Slot.raw, slot, hstate', hraw]
  | freed fields out =>
    obtain ⟨_, s₂, hfirst, hlast⟩ := Act.of_run_bind_ok hrun
    cases hlast
    have hlevel : Level most ids { s with decoder := { s.decoder.cancel id with streamOut := out } } := by
      refine (h.cons id).freed rfl (fun other hne => ?_) hheld hsince
      exact congrArg (fun blocked => Slot.mk _ blocked _) (s.decoder.isBlocked_cancel_of_ne hne)
    exact level_absorbHeaders hlevel hstate hpending hfirst

theorem level_absorbFrame {frame : Frame} (h : Level most ids s) (hstate : s.streams.lookup id = some state)
    (hpending : state.pending = none) (hraw : state.raw = false)
    (hrun : (absorbFrame world id frame).run s = (.ok progress, s')) : Level most ids s' := by
  cases frame with
  | headers block =>
    obtain ⟨_, s₁, hfirst, hrest⟩ := Act.of_run_bind_ok hrun
    obtain ⟨_, s₂, hsecond, hlast⟩ := Act.of_run_bind_ok hrest
    cases hfirst
    cases congrArg Prod.snd hsecond
    exact level_absorbBlock h hstate hpending hraw hlast
  | data octets => exact h.after hrun (likewise_absorbData octets)
  | settings | goAway | maxPushId | cancelPush | pushPromise => cases hrun

/-- One round with a stream sees to it that it waits for what has not arrived, if it waits. -/
theorem level_advanceOnce (h : Level most (id :: ids) s) (hfree : (s.slot id).held = none → Level most ids s)
    (hrun : (advanceOnce world id).run s = (.ok progress, s')) : Level most ids s' := by
  rw [advanceOnce, Act.run_bind_ok (Act.run_get s)] at hrun
  cases hstate : s.streams.lookup id with
  | none =>
    rw [hstate] at hrun
    cases hrun
    exact hfree (by simp [Slot.held, slot, hstate])
  | some state =>
    rw [hstate] at hrun
    dsimp only at hrun
    cases hraw : state.raw with
    | true =>
      rw [hraw, if_pos rfl] at hrun
      cases hrun
      -- What is relayed has nothing pending.
      refine hfree (Option.not_isSome_iff_eq_none.1 fun hsome => ?_)
      have := (h.agrees id).raw hsome
      simp [Slot.raw, slot, hstate, hraw] at this
    | false =>
      rw [hraw, if_neg Bool.false_ne_true] at hrun
      cases hpending : state.pending with
      | some block =>
        rw [hpending] at hrun
        exact level_retryBlock h hstate hpending hrun
      | none =>
        rw [hpending] at hrun
        have hlevel := hfree (by simp [Slot.held, slot, hstate, hpending])
        obtain ⟨found, s₁, hfirst, hlast⟩ := Act.of_run_bind_ok hrun
        obtain ⟨_, s₂, htake, hparse⟩ := Act.of_run_bind_ok hfirst
        have hlevel' := hlevel.after htake (likewise_modifyStream fun _ => ⟨rfl, rfl⟩)
        cases htake
        cases congrArg Prod.snd hparse
        cases found with
        | some frame => exact level_absorbFrame hlevel' (lookup_changed hstate _) hpending hraw hlast
        | none =>
          cases heof : state.eof <;> rw [heof] at hlast <;> cases hlast <;> exact hlevel'

theorem level_forget (h : Level most (id :: ids) s) : Level most ids ((forget id).run s).2 :=
  h.freed rfl (minds_forget s).others (by rw [slot_forget]; rfl) (by rw [slot_forget])

theorem level_retire (id : ℕ) (h : Level most ids s) : Level most ids ((retire id).run s).2 := by
  rw [retire, Act.run_bind_ok (Act.run_get s)]
  split_ifs
  · exact level_forget (h.cons id)
  · exact h

theorem level_deliver (h : Level most ids s) (hrun : (deliver id).run s = (.ok (), s')) : Level most ids s' := by
  have hretire {s₁ : H3Session} (hlevel : Level most ids s₁) (hlast : (retire id).run s₁ = (.ok (), s')) :
      Level most ids s' := by
    have := level_retire id hlevel
    rwa [hlast] at this
  obtain ⟨state, s₁, hstream, hrest⟩ := Act.of_run_bind_ok hrun
  have hlevel := h.after hstream (likewise_stream id)
  cases hdelivered : state.delivered with
  | true =>
    rw [hdelivered, if_pos rfl] at hrest
    exact hretire hlevel hrest
  | false =>
    rw [hdelivered, if_neg Bool.false_ne_true] at hrest
    cases hmessage : state.message with
    | none =>
      rw [hmessage] at hrest
      cases hrest
    | some m =>
      rw [hmessage] at hrest
      obtain ⟨_, s₂, hfirst, hrest'⟩ := Act.of_run_bind_ok hrest
      obtain ⟨_, s₃, hsecond, hlast⟩ := Act.of_run_bind_ok hrest'
      have hlevel' := hlevel.after hfirst (likewise_modifyStream fun _ => ⟨rfl, rfl⟩)
      exact hretire (hlevel'.after hsecond (likewise_of_eq fun _ => ⟨rfl, rfl, rfl⟩)) hlast

theorem level_advanceLoop {fuel : ℕ} (h : Level most ids s) (hrun : (advanceLoop world id fuel).run s = (.ok (), s')) :
    Level most ids s' := by
  induction fuel generalizing s with
  | zero =>
    cases hrun
    exact h
  | succ fuel ih =>
    obtain ⟨progress, s₁, hfirst, hlast⟩ := Act.of_run_bind_ok hrun
    have hlevel := level_advanceOnce (h.cons id) (fun _ => h) hfirst
    cases progress with
    | again => exact ih hlevel hlast
    | stop =>
      cases hlast
      exact hlevel
    | finish => exact level_deliver hlevel hlast

/-- Going on with a stream leaves it waiting for what is to come, or for nothing. -/
theorem level_advance (h : Level most (id :: ids) s) (hfree : (s.slot id).held = none → Level most ids s)
    (hrun : (advance world id).run s = (.ok (), s')) : Level most ids s' := by
  rw [advance, Act.run_bind_ok (Act.run_get s)] at hrun
  obtain ⟨progress, s₁, hfirst, hlast⟩ := Act.of_run_bind_ok hrun
  have hlevel := level_advanceOnce h hfree hfirst
  cases progress with
  | again => exact level_advanceLoop hlevel hlast
  | stop =>
    cases hlast
    exact hlevel
  | finish => exact level_deliver hlevel hlast

/-- A step that leaves a session level, where it succeeds. -/
abbrev Levels (most : ℕ) (ids : List ℕ) (m : Step α) : Prop :=
  Act.Leads (fun s s' => Level most ids s → Level most ids s') m

theorem Levels.bind {m : Step α} {f : α → Step β} (hm : Levels most ids m) (hf : ∀ a, Levels most ids (f a)) :
    Levels most ids (m >>= f) :=
  @Act.Leads.bind _ _ _ _ (fun s s' => Level most ids s → Level most ids s') (fun h h' hlevel => h' (h hlevel)) m f hm hf

theorem Likewise.levels {m : Step α} (h : Likewise m) : Levels most ids m :=
  h.leads.mono fun halike hlevel => hlevel.alike halike

/-- Octets of a stream leave every stream waiting for what is to come, or for nothing. -/
theorem levels_onStreamBytes (id : ℕ) (bytes : Octets) (fin : Bool) : Levels most ids (onStreamBytes world id bytes fin) := by
  refine likewise_admitStream.levels.bind fun _ => likewise_entry.levels.bind fun _ => ?_
  refine Levels.bind (Likewise.levels (likewise_modifyStream fun _ => ⟨rfl, rfl⟩)) fun _ => ?_
  refine (likewise_stream id).levels.bind fun _ => ?_
  refine Levels.bind (Likewise.levels (likewise_of_eq fun _ => ⟨rfl, rfl, rfl⟩)) fun _ => ?_
  refine likewise_get.levels.bind fun _ => (likewise_demand _ _).levels.bind fun _ => ?_
  refine likewise_overbuffered.levels.bind fun _ => (likewise_demand _ _).levels.bind fun _ => ?_
  exact fun _ _ _ hrun hlevel => level_advance (hlevel.cons id) (fun _ => hlevel) hrun

/-- Going on with every stream that may have stopped waiting leaves none that has. -/
theorem level_advanceAll (h : Level most ids s) (hnodup : ids.Nodup) (hheld : ∀ id ∈ ids, (s.slot id).held.isSome)
    (hrun : (advanceAll world ids).run s = (.ok (), s')) : Level most [] s' := by
  induction ids generalizing s with
  | nil =>
    cases hrun
    exact h
  | cons id ids ih =>
    obtain ⟨_, s₁, hfirst, hlast⟩ := Act.of_run_bind_ok hrun
    obtain ⟨hnew, hrest⟩ := List.nodup_cons.1 hnodup
    have helse : Elsewhere id s s₁ := by
      have hminds : Elsewhere id s ((advance world id).run s).2 := minds_advance world s
      rwa [hfirst] at hminds
    refine ih (level_advance h (fun hnone => ?_) hfirst) hrest (fun other hmem => ?_) hlast
    · have hsome := hheld id List.mem_cons_self
      rw [hnone] at hsome
      cases hsome
    · rw [helse.others other fun heq => hnew (heq ▸ hmem)]
      exact hheld other (List.mem_cons_of_mem _ hmem)

/-- Entries that arrive leave no stream waiting for what has arrived. -/
theorem level_onEncoderBytes {bytes : Octets} (h : Level most [] s)
    (hrun : (onEncoderBytes world bytes).run s = (.ok (), s')) : Level most [] s' := by
  rw [onEncoderBytes, Act.run_bind_ok (Act.run_get s)] at hrun
  have hgoes := s.decoder.goesOn_onEncoderStream bytes
  rcases hdecoder : s.decoder.onEncoderStream bytes with ⟨decoder, error⟩
  rw [hdecoder] at hrun hgoes
  cases error with
  | some error => cases hrun
  | none =>
    obtain ⟨_, s₁, hfirst, hlast⟩ := Act.of_run_bind_ok hrun
    cases hfirst
    have hslot (id : ℕ) : ({ s with decoder := decoder } : H3Session).slot id = s.slot id := by
      rw [slot, slot, Qpack.Decoder.isBlocked, hgoes.blocked, Qpack.Decoder.isBlocked]
    have hlevel : Level most decoder.unblocked ({ s with decoder := decoder } : H3Session) := by
      refine ⟨h.decoder.goesOn hgoes, fun id => by rw [hslot]; exact h.agrees id, ?_⟩
      intro id block required hheld hmem
      rw [hslot] at hheld
      obtain ⟨inserted, hle, hcount⟩ := h.known id block required hheld (hgoes.blocked ▸ hmem)
      exact ⟨inserted, hle.trans hgoes.count, hgoes.capacity ▸ hcount⟩
    have hheld (id : ℕ) (hmem : id ∈ decoder.unblocked) : (s.slot id).held.isSome := by
      obtain ⟨entry, hentry, hid⟩ := List.mem_map.1 hmem
      have hblocked : (s.slot id).blocked = true :=
        List.any_eq_true.2 ⟨entry, hgoes.blocked ▸ List.mem_of_mem_filter hentry, beq_iff_eq.2 hid⟩
      rw [← (h.agrees id).blocked, hblocked]
    dsimp only at hlast
    split_ifs at hlast with hnone
    · cases hlast
      -- Where nothing waits by the clock, nothing is counted as blocked.
      have hempty : decoder.unblocked = [] := by
        refine List.eq_nil_iff_forall_not_mem.2 fun id hmem => ?_
        have hsince := (h.agrees id).since.trans (hheld id hmem)
        have hentries : s.blockedSince = ∅ := AList.ext (List.isEmpty_iff.1 hnone)
        simp [slot, hentries] at hsince
      rwa [hempty] at hlevel
    · have hsublist : (decoder.unblocked).Sublist (decoder.blocked.map Prod.fst) := List.filter_sublist.map _
      refine level_advanceAll hlevel (hlevel.decoder.distinct.sublist hsublist) (fun id hmem => ?_) hlast
      rw [hslot]
      exact hheld id hmem

/-! ## Over any calls -/

/-- What may be asked of a session. -/
inductive Call
  | streamBytes (id : ℕ) (bytes : Octets) (fin : Bool)
  | encoderBytes (bytes : Octets)
  | decoderBytes (bytes : Octets)
  | controlBytes (bytes : Octets)
  | forget (id : ℕ)
  | retire (id : ℕ)
  | openBidi
  | encodeMessage (id : ℕ) (m : Message)
  | takeReady

def call (world : World) : Call → Step Unit
  | .streamBytes id bytes fin => onStreamBytes world id bytes fin
  | .encoderBytes bytes => onEncoderBytes world bytes
  | .decoderBytes bytes => onDecoderBytes bytes
  | .controlBytes bytes => onControlBytes bytes
  | .forget id => forget id
  | .retire id => retire id
  | .openBidi => (fun _ => ()) <$> openBidi
  | .encodeMessage id m => (fun _ => ()) <$> frameMessage world id m
  | .takeReady => (fun _ => ()) <$> takeReady

/-- The calls of a session, which ends with the first that fails. -/
def calls (world : World) : Moves H3Session Error Unit Call where
  step := call world
  ends t := t.outcome.isOk = false
  left _ := False

theorem level_call {c : Call} (h : Level most [] s) (hrun : (call world c).run s = (.ok (), s')) : Level most [] s' := by
  cases c with
  | streamBytes id bytes fin => exact levels_onStreamBytes id bytes fin s () s' hrun h
  | encoderBytes bytes => exact level_onEncoderBytes h hrun
  | decoderBytes bytes => exact h.after hrun (likewise_onDecoderBytes bytes)
  | controlBytes bytes => exact h.after hrun (likewise_onControlBytes bytes)
  | forget id =>
    cases hrun
    exact level_forget (h.cons id)
  | retire id =>
    have := level_retire id h
    rwa [show (retire id).run s = _ from hrun] at this
  | openBidi => exact h.after hrun (likewise_openBidi.map _)
  | encodeMessage id m => exact h.after hrun ((likewise_frameMessage m).map _)
  | takeReady => exact h.after hrun (likewise_takeReady.map _)

theorem level_new (role : Role) (limits : H3Limits) (secure : Bool) :
    Level limits.maxBlockedStreams [] { new role limits with secure := secure } where
  decoder := by
    have hmost : (new role limits).decoder.maxBlockedStreams = limits.maxBlockedStreams := rfl
    have hnone := blocked_new role limits
    refine ⟨distinct_new role limits, hmost, ?_, fun entry hmem => ?_⟩
    · exact (congrArg List.length hnone).trans_le (Nat.zero_le _)
    · exact absurd (hnone ▸ hmem) List.not_mem_nil
  agrees := fun id => by
    have hslot : ({ new role limits with secure := secure } : H3Session).slot id = _ := slot_new role limits id
    rw [hslot]
    exact Slot.agrees_of_none rfl rfl rfl
  known := by
    intro id block required hheld
    have hslot : ({ new role limits with secure := secure } : H3Session).slot id = _ := slot_new role limits id
    rw [hslot] at hheld
    cases hheld

/-- The block of a stream that is pending. -/
def pending (s : H3Session) (id : ℕ) : Option Octets := (s.streams.lookup id).bind (·.pending)

/-- The streams that have a block pending are blocked by the decoder's count, wait by the clock, and
    are no others; they are few enough, and each waits for entries that have not arrived. -/
structure BlockedAgree (most : ℕ) (s : H3Session) : Prop where
  counted : ∀ id, (s.pending id).isSome = s.decoder.isBlocked id
  timed : ∀ id, (s.pending id).isSome = (s.blockedSince.lookup id).isSome
  few : (s.streams.keys.filter fun id => (s.pending id).isSome).length ≤ most
  waits : ∀ id block, s.pending id = some block → ∃ required, (id, required) ∈ s.decoder.blocked ∧
    s.decoder.dynamicTable.insertedCount < required ∧ Known s.decoder block required ∧
    (s.decoder.dynamicTable.insertedCount + 3 * Qpack.Prefix.maxEntries s.decoder.maxCapacity ≤ Qpack.MAX →
      Qpack.Decoder.countAt s.decoder.maxCapacity s.decoder.dynamicTable.insertedCount block = .ok required)

theorem Level.blockedAgree (h : Level most [] s) : BlockedAgree most s where
  counted := fun id => (h.agrees id).blocked.symm
  timed := fun id => (h.agrees id).since.symm
  few := by
    have hsub : (s.streams.keys.filter fun id => (s.pending id).isSome) ⊆ s.decoder.blocked.map Prod.fst := by
      intro id hmem
      have hblocked := (h.agrees id).blocked.trans (List.mem_filter.1 hmem).2
      obtain ⟨entry, hentry, hid⟩ := List.any_eq_true.1 hblocked
      exact List.mem_map.2 ⟨entry, hentry, beq_iff_eq.1 hid⟩
    have hle := (List.subperm_of_subset (s.streams.nodupKeys.filter _) hsub).length_le
    rw [List.length_map] at hle
    exact hle.trans h.decoder.room
  waits := by
    intro id block hpending
    have hblocked := (h.agrees id).blocked.trans (congrArg Option.isSome hpending)
    obtain ⟨⟨other, required⟩, hentry, hid⟩ := List.any_eq_true.1 hblocked
    cases beq_iff_eq.1 hid
    have hshort := (h.decoder.short _ hentry).resolve_left List.not_mem_nil
    have hknown := h.known _ block required hpending hentry
    refine ⟨required, hentry, hshort, hknown, fun hword => ?_⟩
    obtain ⟨inserted, hle, hcount⟩ := hknown
    exact Qpack.Decoder.countAt_later hcount hle hshort hword

/-- The three places agree after any calls that succeed, no more streams are blocked than were
    advertised, and none whose count has been reached. -/
theorem blocked_agree {role : Role} {limits : H3Limits} {secure : Bool} {h : List (Turn H3Session Error Unit Call)}
    (hcourse : Course (calls world) { new role limits with secure := secure } h s) (hclear : (calls world).Clear h) :
    BlockedAgree (new role limits).settingsLocal.qpackBlockedStreams s := by
  refine Level.blockedAgree ?_
  refine hcourse.induct (fun _ s => Level limits.maxBlockedStreams [] s) (fun _ _ => True) (level_new role limits secure)
    ?_ hclear fun _ _ _ _ => trivial
  intro h s t hlevel _ hbefore htook hgoes _
  subst hbefore
  cases houtcome : t.outcome with
  | ok =>
    rw [houtcome] at htook
    exact level_call hlevel htook
  | error error => exact absurd (congrArg Except.isOk houtcome) hgoes

/-- A request that names an entry of the table, which has not arrived. -/
def awaiting : Octets := [0x01, 0x06, 0x02, 0x00, 0xd1, 0xd7, 0xc1, 0x80]

/-- Two such requests, the first of which is forgotten. -/
def forgetful : List Call := [.streamBytes 0 awaiting true, .streamBytes 4 awaiting false, .forget 0]

theorem blocked_agree_forgetful :
    (((calls .bare).played forgetful (new .origin .default)).2.pending 0 = none ∧
      (((calls .bare).played forgetful (new .origin .default)).2.pending 4).isSome = true) ∧
    BlockedAgree 16 ((calls .bare).played forgetful (new .origin .default)).2 := by
  have hclear : (calls .bare).Clear ((calls .bare).played forgetful (new .origin .default)).1 := by
    change ∀ t ∈ _, ¬(Turn.outcome t).isOk = false
    decide +kernel
  have hcourse : Course (calls .bare) { new .origin .default with secure := true } _ _ := .played hclear
  exact ⟨by decide +kernel, blocked_agree hcourse hclear⟩

end H3Session

end Soyokaze

import Soyokaze.Helpers.QpackSection

/-!
# QPACK: capacity, and what sections in flight name

An insertion looks at what is still referenced before it evicts anything; a
change of capacity does not.

* `Encoder.retains_iff`: a change of capacity keeps every entry at or above the
  lowest one referenced exactly where those entries have room in the new
  capacity;
* `Encoder.Reached.held`: in a run where every change of capacity leaves them
  that room, no section in flight names an entry that was evicted.
-/

namespace Soyokaze.Qpack

open Eviction

namespace DynamicTable

/-- The entries held whose absolute index is at or above `floor`, newest first. -/
def heldFrom (t : DynamicTable) (floor : ℕ) : List Entry := t.entries.take (t.insertedCount - floor)

/-- What a smaller table holds of those entries. -/
theorem heldFrom_prefix_iff (t : DynamicTable) (floor capacity : ℕ) :
    t.heldFrom floor <+: (t.setCapacity capacity).entries ↔
      ∀ a, floor ≤ a → (t.get a).isSome = true → (t.setCapacity capacity).get a = t.get a := by
  have hf := follows_setCapacity t capacity
  have hlen := t.length_add_oldest
  have hlen' := (t.setCapacity capacity).length_add_oldest
  have hkept : (t.setCapacity capacity).entries <+: t.entries := by
    rw [entries_setCapacity]
    exact fit_isPrefix _ _
  have hle := hkept.length_le
  rw [insertedCount_setCapacity] at hlen'
  have hheld : (t.heldFrom floor).length = min (t.insertedCount - floor) t.entries.length := List.length_take
  constructor
  · intro h a hfloor hsome
    obtain ⟨hold, hlt⟩ := isSome_get_iff.1 hsome
    have := h.length_le
    exact hf.get a (by omega) hlt
  · intro h
    refine List.prefix_of_prefix_length_le (List.take_prefix _ _) hkept ?_
    rw [hheld]
    -- The oldest entry that counts is the one that decides.
    by_contra hlt
    have hsome : (t.get (max floor t.oldest)).isSome = true := isSome_get_iff.2 ⟨le_max_right _ _, by omega⟩
    have hget := h _ (le_max_left _ _) hsome
    rw [← hget] at hsome
    have := (isSome_get_iff.1 hsome).1
    omega

end DynamicTable

namespace Encoder

/-- A change of what capacity the encoder may keep. -/
inductive Call
  | maxCapacity (maxCapacity : ℕ)
  | capacityLimit (capacityLimit : ℕ)
  deriving DecidableEq

/-- The encoder after a change, the instruction aside. -/
def resize (e : Encoder) : Call → Encoder
  | .maxCapacity n => (e.setMaxCapacity n).1
  | .capacityLimit n => (e.setCapacityLimit n).1

/-- The capacity a change asks for. -/
def allowed (e : Encoder) : Call → ℕ
  | .maxCapacity n => min n e.capacityLimit
  | .capacityLimit n => min e.maxCapacity n

/-- Every entry at or above the lowest one referenced is still in the table. -/
def Retains (e : Encoder) (call : Call) : Prop :=
  ∀ a, e.referenced ≤ a → (e.dynamicTable.get a).isSome = true →
    (e.resize call).dynamicTable.get a = e.dynamicTable.get a

/-- The entries at or above the lowest one referenced have room in the capacity asked for. -/
def HasRoom (e : Encoder) (call : Call) : Prop :=
  total Entry.size (e.dynamicTable.heldFrom e.referenced) ≤ e.allowed call

instance (e : Encoder) (call : Call) : Decidable (e.HasRoom call) :=
  inferInstanceAs (Decidable (_ ≤ _))

/-- A change either sets the capacity asked for, or leaves a table that has it already. -/
theorem resize_spec (e : Encoder) (call : Call) :
    (e.resize call).dynamicTable = e.dynamicTable.setCapacity (e.allowed call) ∨
      (e.resize call).dynamicTable = e.dynamicTable ∧ e.dynamicTable.capacity ≤ e.allowed call := by
  cases call with
  | maxCapacity n =>
    rw [resize, setMaxCapacity, allowed]
    split_ifs with h
    · exact .inr ⟨rfl, h.symm.le⟩
    · exact .inl rfl
  | capacityLimit n =>
    rw [resize, setCapacityLimit, allowed]
    split_ifs with h
    · exact .inr ⟨rfl, h⟩
    · exact .inl rfl

/-- A change of capacity leaves what has been inserted, what is in flight and what is known as it was. -/
theorem resize_rest (e : Encoder) (call : Call) :
    (e.resize call).dynamicTable.insertedCount = e.dynamicTable.insertedCount ∧
      (e.resize call).sections = e.sections ∧ (e.resize call).knownReceivedCount = e.knownReceivedCount := by
  refine ⟨?_, ?_⟩
  · rcases e.resize_spec call with h | ⟨h, -⟩ <;> rw [h]
    exact DynamicTable.insertedCount_setCapacity _ _
  · cases call <;> simp only [resize, setMaxCapacity, setCapacityLimit] <;> split_ifs <;> exact ⟨rfl, rfl⟩

theorem retains_iff (e : Encoder) (call : Call) : e.Retains call ↔ e.HasRoom call := by
  have htake : e.dynamicTable.heldFrom e.referenced <+: e.dynamicTable.entries := List.take_prefix _ _
  rcases e.resize_spec call with h | ⟨h, hle⟩
  · rw [Retains, h, ← DynamicTable.heldFrom_prefix_iff, DynamicTable.entries_setCapacity]
    exact prefix_fit_iff htake
  · refine iff_of_true (fun a _ _ => by rw [h]) ?_
    have := total_le_of_isPrefix Entry.size htake
    have hsize := e.dynamicTable.size_le
    rw [e.dynamicTable.size_eq] at hsize
    exact this.trans (hsize.trans hle)

/-- No section in flight names an entry that was evicted. -/
def Held (e : Encoder) : Prop := ∀ s ∈ e.sections, e.dynamicTable.oldest ≤ s.floor

/-! ## Runs -/

/-- What can be done to an encoder. -/
inductive Act
  | encode (streamId : ℕ) (fields : List HeaderField)
  | insert (field : HeaderField) (reference : Option Reference)
  | onDecoderInstruction (instruction : DecoderInstruction)
  | onDecoderStream (bytes : Octets)
  | cancel (streamId : ℕ)
  | takeEncoderStream
  | queue (instructions : List EncoderInstruction)
  | setMaxOutstandingSections (maxSections : ℕ)
  | setMaxInstructionSize (maxSize : ℕ)
  | resize (call : Call)

/-- The encoder after it. -/
def perform (e : Encoder) : Act → Encoder
  | .encode streamId fields => (e.encode streamId fields).1
  | .insert field reference => (e.insert field reference).1
  | .onDecoderInstruction instruction => e.onDecoderInstruction instruction
  | .onDecoderStream bytes => (e.onDecoderStream bytes).1
  | .cancel streamId => e.cancel streamId
  | .takeEncoderStream => e.takeEncoderStream.1
  | .queue instructions => e.queue instructions
  | .setMaxOutstandingSections maxSections => e.setMaxOutstandingSections maxSections
  | .setMaxInstructionSize maxSize => e.setMaxInstructionSize maxSize
  | .resize call => e.resize call

/-- The fields an act is given are strings, whose length is a word. -/
def Act.Sized : Act → Prop
  | .encode _ fields => ∀ f ∈ fields, f.name.len < 2 ^ 64 ∧ f.value.len < 2 ^ 64
  | _ => True

/-- The encoders a run can reach, for as long as the insert count is a `u64`,
    where every change of capacity is one that `ok` admits. -/
inductive Reached (ok : Encoder → Call → Prop) : Encoder → Prop
  | new : Reached ok new
  | step {e : Encoder} (h : Reached ok e) (act : Act) (hs : act.Sized)
      (hc : (e.perform act).dynamicTable.insertedCount ≤ MAX)
      (hk : ∀ call, act = .resize call → ok e call) : Reached ok (e.perform act)

theorem held_onDecoderInstruction {e : Encoder} (h : e.Held) (instruction : DecoderInstruction) :
    (e.onDecoderInstruction instruction).Held := by
  cases instruction with
  | sectionAcknowledgment streamId =>
    rw [onDecoderInstruction]
    split
    · exact fun s hs => h s (List.mem_of_mem_eraseP hs)
    · exact h
  | streamCancellation streamId => exact fun s hs => h s (List.mem_of_mem_filter hs)
  | insertCountIncrement increment => exact h

/-- Every act but a change of capacity keeps what is in flight held, and so does
    that where the entries referenced have room. -/
theorem held_perform {e : Encoder} (h : e.Held) {act : Act} (hs : act.Sized)
    (hc : (e.perform act).dynamicTable.insertedCount ≤ MAX)
    (hk : ∀ call, act = .resize call → e.HasRoom call) : (e.perform act).Held := by
  cases act with
  | encode streamId fields =>
    obtain ⟨is, s, he⟩ := encode_spec e streamId fields hc hs
    intro s' hs'
    rcases he.mem_sections hs' with hs' | ⟨rfl, hpos⟩
    · exact he.kept s' hs' (h s' hs')
    · exact (he.fresh hpos).1
  | insert field reference =>
    rw [perform]
    rcases e.insert_spec field reference with hi | ⟨hfit, hold, hi⟩ <;> rw [hi]
    · exact h
    · exact fun s hs => hold.trans (max_le (h s hs) (referenced_le_floor hs))
  | onDecoderInstruction instruction => exact held_onDecoderInstruction h instruction
  | onDecoderStream bytes =>
    rw [perform, onDecoderStream]
    split_ifs
    · exact h
    · exact Framing.drain_inv (P := Held) (fun e i he => held_onDecoderInstruction he i) _ _ h
  | cancel streamId => exact fun s hs => h s (List.mem_of_mem_filter hs)
  | takeEncoderStream | queue _ | setMaxOutstandingSections _ | setMaxInstructionSize _ => exact h
  | resize call =>
    have hretains := (e.retains_iff call).2 (hk call rfl)
    obtain ⟨hcount, hsections, -⟩ := e.resize_rest call
    have hlen := (e.resize call).dynamicTable.length_add_oldest
    intro s hs
    rw [perform, hsections] at hs
    rw [perform]
    rcases Nat.lt_or_ge s.floor e.dynamicTable.insertedCount with hlt | hge
    · have hsome := DynamicTable.isSome_get_iff.2 ⟨h s hs, hlt⟩
      rw [← hretains _ (referenced_le_floor hs) hsome] at hsome
      exact (DynamicTable.isSome_get_iff.1 hsome).1
    · omega

/-- In a run whose changes of capacity all leave room for what is referenced, no
    section in flight names an entry that was evicted. -/
theorem Reached.held {e : Encoder} (h : Reached HasRoom e) : e.Held := by
  induction h with
  | new =>
    intro s hs
    cases hs
  | step _ act hs hc hk ih => exact held_perform ih hs hc hk

end Encoder

end Soyokaze.Qpack

import Soyokaze.Helpers.Hpack
import Soyokaze.Helpers.Qpack

/-!
# The tables of a peer, in octets

What a peer puts in a table are octets, and what a decoder keeps are texts. The
peer's own table (`RawTable`) is kept here as the two formats define it, over
the octets of each name and value, next to the decoder that reads what the peer
sends.

* `RawField.size_le`: turned into text, a field is never smaller;
* `Hpack.Mirrors.read`, `Qpack.Mirrors.apply`: one representation, and one
  instruction, as both ends take it;
* `tables_agree`: in every run whose insertions keep their size as text, the
  tables agree in number, size and content.
-/

namespace Soyokaze

open Eviction Framing

/-- A field as a peer has it: octets that need not be text. -/
structure RawField where
  name : Octets
  value : Octets
  deriving DecidableEq

namespace RawField

/-- What the field costs against a table's size. -/
def size (f : RawField) : ℕ := f.name.length + f.value.length + HeaderField.OVERHEAD

/-- The field as a decoder keeps it. -/
def toField (f : RawField) : HeaderField := ⟨.fromUtf8Lossy f.name, .fromUtf8Lossy f.value⟩

/-- The entry a decoder keeps of it. -/
def toEntry (f : RawField) : Entry := .of f.toField

/-- The octets of a field that is text. -/
def of (f : HeaderField) : RawField := ⟨f.name.octets, f.value.octets⟩

@[simp] theorem toField_of (f : HeaderField) : (of f).toField = f := by simp [of, toField]

/-- The field costs as much as text as it does in octets. -/
def Kept (f : RawField) : Prop := f.toField.size = f.size

instance (f : RawField) : Decidable f.Kept := inferInstanceAs (Decidable (_ = _))

theorem kept_of (f : HeaderField) : (of f).Kept := by rw [Kept, toField_of]; rfl

/-- As text a field is never smaller. -/
theorem size_le (f : RawField) : f.size ≤ f.toField.size := by
  have hn := Text.length_le_fromUtf8Lossy f.name
  have hv := Text.length_le_fromUtf8Lossy f.value
  rw [size, HeaderField.size, toField]
  dsimp only
  omega

/-- The name keeps its length as text, and so does the value, where both do. -/
theorem kept_iff (f : RawField) :
    f.Kept ↔ (Text.fromUtf8Lossy f.name).len = f.name.length ∧
      (Text.fromUtf8Lossy f.value).len = f.value.length := by
  have hn := Text.length_le_fromUtf8Lossy f.name
  have hv := Text.length_le_fromUtf8Lossy f.value
  rw [Kept, size, HeaderField.size, toField]
  dsimp only
  omega

end RawField

/-- A dynamic table over octets, newest first. -/
structure RawTable where
  entries : List RawField
  capacity : ℕ

namespace RawTable

/-- An empty table. -/
def new (capacity : ℕ) : RawTable := ⟨[], capacity⟩

/-- Inserts a field, keeping what fits of the entries with it in front. -/
def insert (t : RawTable) (field : RawField) : RawTable :=
  { t with entries := fit RawField.size t.capacity (field :: t.entries) }

/-- Changes the capacity, keeping what fits of the entries. -/
def setCapacity (t : RawTable) (capacity : ℕ) : RawTable := ⟨fit RawField.size capacity t.entries, capacity⟩

end RawTable

/-- What a decoder holds is what its peer does, entry by entry, each of the size
    it has in octets. -/
structure RawTable.Holds (t : RawTable) (entries : List Entry) (capacity : ℕ) : Prop where
  entries : entries = t.entries.map RawField.toEntry
  capacity : capacity = t.capacity
  kept : ∀ f ∈ t.entries, f.Kept

namespace RawTable

variable {t : RawTable} {entries : List Entry} {capacity : ℕ}

theorem Holds.length (h : t.Holds entries capacity) : entries.length = t.entries.length := by
  rw [h.entries, List.length_map]

theorem Holds.size_toEntry (h : t.Holds entries capacity) : ∀ f ∈ t.entries, f.toEntry.size = f.size := h.kept

theorem Holds.total (h : t.Holds entries capacity) :
    total Entry.size entries = total RawField.size t.entries := by
  rw [h.entries, total_map RawField.toEntry h.size_toEntry]

theorem Holds.get (h : t.Holds entries capacity) (i : ℕ) :
    entries[i]?.map Entry.field = t.entries[i]?.map RawField.toField := by
  rw [h.entries, List.getElem?_map, Option.map_map]
  rfl

theorem Holds.setCapacity (h : t.Holds entries capacity) (capacity' : ℕ) :
    (t.setCapacity capacity').Holds (fit Entry.size capacity' entries) capacity' where
  entries := by rw [h.entries, fit_map RawField.toEntry h.size_toEntry]; rfl
  capacity := rfl
  kept f hf := h.kept f ((fit_isPrefix _ _).mem hf)

/-- An insertion keeps the tables alike where it keeps its size as text, or is
    too large for the table. -/
theorem Holds.insert (h : t.Holds entries capacity) {field : RawField}
    (hk : t.capacity < field.size ∨ field.Kept) :
    (t.insert field).Holds (fit Entry.size capacity (field.toEntry :: entries)) capacity := by
  have hle : field.size ≤ field.toEntry.size := field.size_le
  rcases Nat.lt_or_ge t.capacity field.size with hlt | hge
  · have hnil : fit Entry.size capacity (field.toEntry :: entries) = [] :=
      fit_cons_of_lt (by rw [h.capacity]; omega) _
    have hnil' : (t.insert field).entries = [] := fit_cons_of_lt hlt _
    exact ⟨by rw [hnil, hnil']; rfl, h.capacity, by simp [hnil']⟩
  · have hall : ∀ f ∈ field :: t.entries, f.toEntry.size = f.size := by
      intro f hf
      rcases List.mem_cons.1 hf with rfl | hf
      · exact hk.resolve_left (not_lt.2 hge)
      · exact h.kept f hf
    refine ⟨?_, h.capacity, fun f hf => hall f ((fit_isPrefix _ _).mem hf)⟩
    rw [h.entries, h.capacity]
    exact fit_map RawField.toEntry hall t.capacity

/-- The two tables have the same number of entries, of the same size in all, and
    each is the peer's entry at that place, as text. -/
structure Agrees (t : RawTable) (entries : List Entry) (held : ℕ) : Prop where
  count : entries.length = t.entries.length
  size : held = Eviction.total RawField.size t.entries
  same : ∀ i : ℕ, entries[i]?.map Entry.field = t.entries[i]?.map RawField.toField

/-- Fields that add up to no more as text are each of the same size. -/
theorem kept_of_total_le {l : List RawField}
    (h : Eviction.total Entry.size (l.map RawField.toEntry) ≤ Eviction.total RawField.size l) :
    ∀ f ∈ l, f.Kept := by
  have hle : ∀ l : List RawField,
      Eviction.total RawField.size l ≤ Eviction.total Entry.size (l.map RawField.toEntry) := by
    intro l
    induction l with
    | nil => exact le_rfl
    | cons f l ih =>
      rw [List.map_cons, total_cons, total_cons]
      exact Nat.add_le_add f.size_le ih
  induction l with
  | nil => simp
  | cons f l ih =>
    rw [List.map_cons, total_cons, total_cons] at h
    have hf : f.size ≤ f.toEntry.size := f.size_le
    have hl := hle l
    intro g hg
    rcases List.mem_cons.1 hg with rfl | hg
    · exact show g.toEntry.size = g.size by omega
    · exact ih (by omega) g hg

/-- Tables that agree are entry by entry of the same sizes. -/
theorem holds_iff {held : ℕ} (hheld : held = Eviction.total Entry.size entries) :
    t.Holds entries capacity ↔ t.Agrees entries held ∧ capacity = t.capacity := by
  constructor
  · intro h
    exact ⟨⟨h.length, hheld.trans h.total, h.get⟩, h.capacity⟩
  · rintro ⟨h, hc⟩
    have he : entries = t.entries.map RawField.toEntry := by
      refine List.ext_getElem? fun i => ?_
      have := h.same i
      rw [List.getElem?_map]
      generalize entries[i]? = a at this ⊢
      generalize t.entries[i]? = b at this ⊢
      rcases a with - | a <;> rcases b with - | b
      · rfl
      · cases this
      · cases this
      · exact congrArg some (Entry.ext (Option.some.inj this))
    refine ⟨he, hc, kept_of_total_le ?_⟩
    rw [← he, ← hheld, h.size]

/-- One insertion keeps tables that agree in agreement exactly where the field
    keeps its size as text, or is too large for the table. -/
theorem Holds.insert_iff (h : t.Holds entries capacity) (field : RawField) {held : ℕ}
    (hheld : held = Eviction.total Entry.size (fit Entry.size capacity (field.toEntry :: entries))) :
    (t.insert field).Agrees (fit Entry.size capacity (field.toEntry :: entries)) held ↔
      t.capacity < field.size ∨ field.Kept := by
  constructor
  · intro ha
    have hi := (@holds_iff (t.insert field) _ capacity held hheld).2 ⟨ha, h.capacity⟩
    refine or_iff_not_imp_left.2 fun hfit => hi.kept field ?_
    rw [RawTable.insert, fit_cons_of_le (not_lt.1 hfit)]
    exact List.mem_cons_self
  · intro hk
    exact ((holds_iff hheld).1 (h.insert hk)).1

end RawTable

/-! ## HPACK -/

namespace Hpack

/-- What one representation of a block says, its fields in octets. -/
inductive Representation
  | indexed (field : RawField)
  | inserted (field : RawField)
  | capacity (capacity : ℕ)
  | literal (field : RawField)
  deriving DecidableEq

/-- The field a representation adds to the list, if it is not a change of capacity. -/
def Representation.field? : Representation → Option RawField
  | .indexed field | .inserted field | .literal field => some field
  | .capacity _ => none

end Hpack

namespace RawTable

open Hpack

/-- The field at an index across the static and dynamic tables. -/
def resolve (t : RawTable) (index : ℕ) : Option RawField :=
  if index = 0 then none
  else if index ≤ StaticTable.entries.length then StaticTable.entries[index - 1]?.map .of
  else t.entries[index - StaticTable.entries.length - 1]?

/-- The name of a literal: written out where the index is zero, and otherwise
    that of the field there. -/
def readName (t : RawTable) (input : Octets) (consumed index : ℕ) : Option (ℕ × Octets) :=
  if index = 0 then do
    let (taken, name) ← (StringLiteral.decode (input.drop consumed) 7).toOption
    some (consumed + taken, name)
  else do
    let field ← t.resolve index
    some (consumed, field.name)

/-- Reads a literal, whose name may itself be an index. -/
def readLiteral (t : RawTable) (input : Octets) (prefixBits : ℕ) : Option (ℕ × RawField) := do
  let (consumed, index) ← (Integer.decode (δ := Huffman.DecodeError) input prefixBits).toOption
  let (consumed, name) ← t.readName input consumed index
  let (taken, value) ← (StringLiteral.decode (input.drop consumed) 7).toOption
  some (consumed + taken, ⟨name, value⟩)

/-- Reads the representation at the front. -/
def readOne (t : RawTable) (maxCapacity : ℕ) (first : UInt8) (rest : Octets) :
    Option (ℕ × Representation) :=
  if first &&& 0x80 ≠ 0 then do
    let (consumed, index) ← (Integer.decode (δ := Huffman.DecodeError) rest 7).toOption
    let field ← t.resolve index
    some (consumed, .indexed field)
  else if first &&& 0x40 ≠ 0 then do
    let (consumed, field) ← t.readLiteral rest 6
    some (consumed, .inserted field)
  else if first &&& 0x20 ≠ 0 then do
    let (consumed, capacity) ← (Integer.decode (δ := Huffman.DecodeError) rest 5).toOption
    if maxCapacity < capacity then none else some (consumed, .capacity capacity)
  else do
    let (consumed, field) ← t.readLiteral rest 4
    some (consumed, .literal field)

/-- What a representation does to the table. -/
def apply (t : RawTable) : Representation → RawTable
  | .inserted field => t.insert field
  | .capacity capacity => t.setCapacity capacity
  | .indexed _ | .literal _ => t

/-- Reads the representations of a block, in order. -/
def readAll (maxCapacity : ℕ) : ℕ → RawTable → Octets → Option (List Representation)
  | 0, _, _ => some []
  | _ + 1, _, [] => some []
  | fuel + 1, t, first :: rest => do
    let (consumed, representation) ← t.readOne maxCapacity first (first :: rest)
    let representations ← readAll maxCapacity fuel (t.apply representation) ((first :: rest).drop consumed)
    some (representation :: representations)

/-- Every insertion keeps its size as text, or is too large for the table. -/
def Keeps : RawTable → List Representation → Prop
  | _, [] => True
  | t, representation :: representations =>
    (∀ field, representation = .inserted field → t.capacity < field.size ∨ field.Kept) ∧
      Keeps (t.apply representation) representations

end RawTable

theorem StringLiteral.decodeText_eq (input : Octets) (prefixBits : ℕ) :
    decodeText input prefixBits = (decode input prefixBits).map fun r => (r.1, .fromUtf8Lossy r.2) := by
  rw [decodeText, decode]
  cases decodeIntoAscii input prefixBits with
  | error e => rfl
  | ok r => exact congrArg (fun t => Except.ok (r.1, t)) (text_eq _ _)

theorem eq_ok_of_toOption {ε α : Type} {r : Except ε α} {a : α} (h : r.toOption = some a) : r = .ok a := by
  cases r <;> cases h
  rfl

namespace Hpack.Decoder

variable {d : Decoder} {t : RawTable}

/-- An index the peer can use names the same field here, as text. -/
theorem resolve_of_holds (h : t.Holds d.dynamicTable.entries d.dynamicTable.capacity) {index : ℕ}
    {field : RawField} (hr : t.resolve index = some field) : d.resolve index = .ok field.toField := by
  rw [RawTable.resolve] at hr
  rw [resolve]
  split_ifs at hr ⊢ with hz hs
  · obtain ⟨f, hf, rfl⟩ := Option.map_eq_some_iff.1 hr
    rw [hf, RawField.toField_of]
  · rw [DynamicTable.get, h.get, hr]
    rfl

/-- A literal the peer wrote is read here as its text. -/
theorem decodeLiteral_of_holds (h : t.Holds d.dynamicTable.entries d.dynamicTable.capacity)
    {input : Octets} {prefixBits consumed : ℕ} {field : RawField}
    (hr : t.readLiteral input prefixBits = some (consumed, field)) :
    d.decodeLiteral input prefixBits = .ok (consumed, field.toField) := by
  rw [RawTable.readLiteral] at hr
  obtain ⟨⟨start, index⟩, hi, hr⟩ := Option.bind_eq_some_iff.1 hr
  obtain ⟨⟨middle, name⟩, hn, hr⟩ := Option.bind_eq_some_iff.1 hr
  obtain ⟨⟨taken, value⟩, hv, hr⟩ := Option.bind_eq_some_iff.1 hr
  cases hr
  rw [decodeLiteral, eq_ok_of_toOption hi]
  rw [RawTable.readName] at hn
  simp only [Except.mapError, bind, Except.bind]
  split_ifs at hn ⊢ with hz
  · obtain ⟨⟨taken', name'⟩, hn', hn⟩ := Option.bind_eq_some_iff.1 hn
    cases hn
    simp only [StringLiteral.decodeText_eq, eq_ok_of_toOption hn', Except.map, pure, Except.pure,
      eq_ok_of_toOption hv]
    rfl
  · obtain ⟨f, hf, hn⟩ := Option.bind_eq_some_iff.1 hn
    cases hn
    simp only [resolve_of_holds h hf, StringLiteral.decodeText_eq, pure, Except.pure,
      eq_ok_of_toOption hv, Except.map]
    rfl

/-- One representation, as both ends take it. -/
theorem decodeOne_of_holds (h : t.Holds d.dynamicTable.entries d.dynamicTable.capacity) {first : UInt8}
    {rest : Octets} {consumed : ℕ} {representation : Representation}
    (hr : t.readOne d.maxCapacity first rest = some (consumed, representation))
    (hk : ∀ field, representation = .inserted field → t.capacity < field.size ∨ field.Kept) :
    ∃ table, d.decodeOne first rest = .ok (consumed, representation.field?.map RawField.toField,
        { d with dynamicTable := table }) ∧
      (t.apply representation).Holds table.entries table.capacity := by
  rw [RawTable.readOne] at hr
  rw [decodeOne]
  split_ifs at hr ⊢ with h80 h40 h20
  · obtain ⟨⟨start, index⟩, hi, hr⟩ := Option.bind_eq_some_iff.1 hr
    obtain ⟨field, hf, hr⟩ := Option.bind_eq_some_iff.1 hr
    cases hr
    refine ⟨d.dynamicTable, ?_, h⟩
    rw [eq_ok_of_toOption hi]
    simp only [Except.mapError, bind, Except.bind, resolve_of_holds h hf]
    rfl
  · obtain ⟨⟨start, field⟩, hf, hr⟩ := Option.bind_eq_some_iff.1 hr
    cases hr
    refine ⟨d.dynamicTable.insert field.toField, ?_, ?_⟩
    · rw [decodeLiteral_of_holds h hf]
      rfl
    · rw [DynamicTable.entries_insert, DynamicTable.capacity_insert]
      exact h.insert (hk field rfl)
  · obtain ⟨⟨start, capacity⟩, hi, hr⟩ := Option.bind_eq_some_iff.1 hr
    dsimp only at hr
    split_ifs at hr with hmax
    cases hr
    refine ⟨d.dynamicTable.setCapacity capacity, ?_, ?_⟩
    · rw [eq_ok_of_toOption hi]
      simp only [Except.mapError, bind, Except.bind]
      rw [if_neg hmax]
      rfl
    · rw [DynamicTable.entries_setCapacity, DynamicTable.capacity_setCapacity]
      exact h.setCapacity capacity
  · obtain ⟨⟨start, field⟩, hf, hr⟩ := Option.bind_eq_some_iff.1 hr
    cases hr
    refine ⟨d.dynamicTable, ?_, h⟩
    rw [decodeLiteral_of_holds h hf]
    rfl

/-- A block the peer wrote is refused for its size, or leaves what the peer holds. -/
theorem decodeLoop_of_holds (fuel : ℕ) {block : Octets} {representations : List Representation}
    (h : t.Holds d.dynamicTable.entries d.dynamicTable.capacity)
    (hr : RawTable.readAll d.maxCapacity fuel t block = some representations)
    (hk : t.Keeps representations) (headers : List HeaderField) (decodedSize : ℕ) :
    (decodeLoop fuel d block headers decodedSize).2 = .error .decodedSizeExceeded ∨
      ∃ table, decodeLoop fuel d block headers decodedSize =
          ({ d with dynamicTable := table },
            .ok (headers ++ (representations.filterMap (·.field?)).map RawField.toField)) ∧
        (representations.foldl RawTable.apply t).Holds table.entries table.capacity := by
  induction fuel generalizing d t block representations headers decodedSize with
  | zero =>
    cases hr
    exact .inr ⟨d.dynamicTable, by simp [decodeLoop], h⟩
  | succ fuel ih =>
    rcases block with - | ⟨first, rest⟩
    · cases hr
      exact .inr ⟨d.dynamicTable, by simp [decodeLoop], h⟩
    rw [RawTable.readAll] at hr
    obtain ⟨⟨consumed, representation⟩, hone, hr⟩ := Option.bind_eq_some_iff.1 hr
    obtain ⟨others, hothers, hr⟩ := Option.bind_eq_some_iff.1 hr
    cases hr
    obtain ⟨table, hdecode, hholds⟩ := decodeOne_of_holds h hone hk.1
    have next := @ih { d with dynamicTable := table } _ _ _ hholds hothers hk.2
    rw [decodeLoop, hdecode]
    cases hfield : representation.field? with
    | none =>
      simp only [Option.map_none, List.filterMap_cons, hfield, List.foldl_cons]
      exact next headers decodedSize
    | some field =>
      simp only [Option.map_some, List.filterMap_cons, hfield, List.foldl_cons]
      split_ifs with hsize
      · exact .inl rfl
      · simpa using next (headers ++ [field.toField]) (decodedSize + field.toField.size)

end Hpack.Decoder

/-- The states of a run of blocks a peer wrote, none of them over the size limit
    of the decoder, whose representations all meet the condition `ok`. -/
inductive Hpack.Fed (ok : RawTable → List Hpack.Representation → Prop) : Hpack.Decoder → RawTable → Prop
  | new (maxCapacity maxDecodedSize : UInt64) :
    Fed ok ((Hpack.Decoder.new.setMaxCapacity maxCapacity.toNat).setMaxDecodedSize maxDecodedSize.toNat)
      (.new (Hpack.Decoder.new.setMaxCapacity maxCapacity.toNat).dynamicTable.capacity)
  | block {d : Hpack.Decoder} {t : RawTable} (h : Fed ok d t) (block : Octets)
    (representations : List Hpack.Representation)
    (hr : RawTable.readAll d.maxCapacity block.length t block = some representations)
    (hs : (d.decode block).2 ≠ .error .decodedSizeExceeded) (hk : ok t representations) :
    Fed ok (d.decode block).1 (representations.foldl RawTable.apply t)

/-- After each block the decoder holds what the peer does. -/
theorem Hpack.Fed.holds {d : Hpack.Decoder} {t : RawTable} (h : Hpack.Fed RawTable.Keeps d t) :
    t.Holds d.dynamicTable.entries d.dynamicTable.capacity := by
  induction h with
  | new maxCapacity maxDecodedSize =>
    have hnil : (Hpack.Decoder.new.setMaxCapacity maxCapacity.toNat).dynamicTable.entries = [] := by
      rw [Hpack.Decoder.setMaxCapacity]
      split_ifs
      · exact Hpack.DynamicTable.entries_setCapacity _ _
      · rfl
    exact ⟨hnil, rfl, by simp [RawTable.new]⟩
  | block _ block representations hr hs hk ih =>
    rcases Hpack.Decoder.decodeLoop_of_holds _ ih hr hk [] 0 with h | ⟨table, h, hholds⟩
    · exact absurd h hs
    · rw [Hpack.Decoder.decode, h]
      exact hholds

/-! ## QPACK -/

namespace Qpack

/-- The literals an instruction carries keep their length as text. -/
def EncoderInstruction.Kept : EncoderInstruction → Prop
  | .insertWithNameReference _ _ value => (Text.fromUtf8Lossy value).len = value.length
  | .insertWithLiteralName name value => (RawField.mk name value).Kept
  | .setDynamicTableCapacity _ | .duplicate _ => True

/-- The peer: its table, how many entries it has inserted, and the octets of an
    instruction not yet whole. -/
structure Peer where
  table : RawTable
  inserted : ℕ
  recv : Octets

namespace Peer

/-- A peer before it has sized its table. -/
def new : Peer := ⟨.new 0, 0, []⟩

/-- The field an instruction inserts. -/
def field (t : RawTable) : EncoderInstruction → Option RawField
  | .setDynamicTableCapacity _ => none
  | .insertWithNameReference true nameIndex value =>
    StaticTable.entries[nameIndex]?.map fun f => ⟨f.name.octets, value⟩
  | .insertWithNameReference false nameIndex value => t.entries[nameIndex]?.map fun f => ⟨f.name, value⟩
  | .insertWithLiteralName name value => some ⟨name, value⟩
  | .duplicate index => t.entries[index]?

/-- What an instruction does to the table, where the peer may send it at all. -/
def apply (maxCapacity : ℕ) (p : Peer) : EncoderInstruction → Peer × Option Error
  | .setDynamicTableCapacity capacity =>
    if maxCapacity < capacity then (p, some .invalidCapacityUpdate)
    else ({ p with table := p.table.setCapacity capacity }, none)
  | instruction =>
    match field p.table instruction with
    | none => (p, some (.indexOutOfRange 0))
    | some field =>
      if p.table.capacity < field.size then (p, some .entryTooLarge)
      else ({ p with table := p.table.insert field, inserted := p.inserted + 1 }, none)

/-- The stream as the peer knows it, up to the octets sent so far. -/
def send (maxCapacity : ℕ) (p : Peer) (bytes : Octets) : Peer × Option Error :=
  let buffer := p.recv ++ bytes
  let (p, buffer, error) := drain EncoderInstruction.decode (· == .incomplete) (apply maxCapacity)
    (buffer.length + 1) p buffer
  ({ p with recv := buffer }, error)

/-- The entry an absolute index names. -/
def get (p : Peer) (absolute : ℕ) : Option RawField :=
  if absolute + 1 ≤ p.inserted then p.table.entries[p.inserted - (absolute + 1)]? else none

end Peer

/-- The states of a run of deliveries of an encoder stream a peer wrote, none of
    them over the size limit of the decoder, whose instructions all meet `ok`. -/
inductive Fed (ok : EncoderInstruction → Prop) : Decoder → Peer → Prop
  | new (maxCapacity maxInstructionSize : UInt64) :
    Fed ok ((Decoder.new.setMaxCapacity maxCapacity.toNat).setMaxInstructionSize maxInstructionSize.toNat) .new
  | deliver {d : Decoder} {p : Peer} (h : Fed ok d p) (bytes : Octets)
    (hr : (p.send d.maxCapacity bytes).2 = none) (hs : (d.onEncoderStream bytes).2 ≠ some .instructionTooLarge)
    (hk : ∀ i ∈ items EncoderInstruction.decode ((p.recv ++ bytes).length + 1) (p.recv ++ bytes), ok i) :
    Fed ok (d.onEncoderStream bytes).1 (p.send d.maxCapacity bytes).1

/-- A decoder with the peer's table, which before the peer has sized it is empty
    at both ends. -/
structure Mirrors (m : ℕ) (d : Decoder) (p : Peer) : Prop where
  table : p.table.Holds d.dynamicTable.entries d.dynamicTable.capacity ∨
    p.table = .new 0 ∧ d.dynamicTable.entries = []
  count : d.dynamicTable.insertedCount = p.inserted
  capacity : d.dynamicTable.capacity < 2 ^ 64
  max : d.maxCapacity = m
  word : m < 2 ^ 64

/-- An entry counted back from the most recent insertion is found. -/
theorem entryAt_relative {t : DynamicTable} (hc : t.capacity < 2 ^ 64) {index : ℕ} {entry : Entry}
    (he : t.entries[index]? = some entry) :
    Decoder.entryAt t index (t.relative index) = .ok entry.field := by
  have hlt := (List.getElem?_eq_some_iff.1 he).1
  have hheld := t.held_le
  have hlen := t.length_le
  have hsucc : DynamicTable.succ index = index + 1 := Nat.mod_eq_of_lt (by omega)
  have hget : t.get (t.insertedCount - (index + 1)) = some entry.field := by
    rw [DynamicTable.get, if_pos (by omega),
      show t.insertedCount - (t.insertedCount - (index + 1) + 1) = index by omega, he]
    rfl
  rw [DynamicTable.relative, hsucc, if_pos (by omega), Decoder.entryAt, hget]

/-- The field an instruction inserts is, as text, the one the peer inserts. -/
theorem inserted_of_holds {t : DynamicTable} {r : RawTable} (h : r.Holds t.entries t.capacity)
    (hc : t.capacity < 2 ^ 64) {i : EncoderInstruction} {field : RawField} (hf : Peer.field r i = some field) :
    Decoder.inserted t i = .ok (some field.toField) := by
  have entry : ∀ {index f}, r.entries[index]? = some f →
      Decoder.entryAt t index (t.relative index) = .ok f.toField := by
    intro index f hf
    have he : t.entries[index]? = some f.toEntry := by rw [h.entries, List.getElem?_map, hf]; rfl
    rw [entryAt_relative hc he]
    rfl
  cases i with
  | setDynamicTableCapacity capacity => cases hf
  | insertWithNameReference fromStatic nameIndex value =>
    cases fromStatic with
    | false =>
      obtain ⟨f, hget, rfl⟩ := Option.map_eq_some_iff.1 hf
      rw [Decoder.inserted, entry hget]
      rfl
    | true =>
      obtain ⟨f, hget, rfl⟩ := Option.map_eq_some_iff.1 hf
      rw [Decoder.inserted, Decoder.staticAt, hget]
      simp [bind, Except.bind, RawField.toField]
  | insertWithLiteralName name value =>
    cases hf
    rfl
  | duplicate index =>
    rw [Decoder.inserted, entry hf]
    rfl

/-- A field made of kept literals and of what the table holds is kept. -/
theorem kept_of_field {r : RawTable} (h : ∀ f ∈ r.entries, f.Kept) {i : EncoderInstruction} (hk : i.Kept)
    {field : RawField} (hf : Peer.field r i = some field) : field.Kept := by
  cases i with
  | setDynamicTableCapacity capacity => cases hf
  | insertWithNameReference fromStatic nameIndex value =>
    cases fromStatic with
    | false =>
      obtain ⟨f, hget, rfl⟩ := Option.map_eq_some_iff.1 hf
      have hname := (RawField.kept_iff f).1 (h f (List.mem_of_getElem? hget))
      exact (RawField.kept_iff _).2 ⟨hname.1, hk⟩
    | true =>
      obtain ⟨f, -, rfl⟩ := Option.map_eq_some_iff.1 hf
      exact (RawField.kept_iff _).2 ⟨by rw [Text.fromUtf8Lossy_octets]; rfl, hk⟩
  | insertWithLiteralName name value =>
    cases hf
    exact hk
  | duplicate index => exact h field (List.mem_of_getElem? hf)

/-- One insertion, as both ends take it. -/
theorem Mirrors.insert {m : ℕ} {d : Decoder} {p : Peer} (h : Mirrors m d p) {i : EncoderInstruction}
    (hi : ∀ capacity, i ≠ .setDynamicTableCapacity capacity) (hk : i.Kept)
    {field : RawField} (hf : Peer.field p.table i = some field) (hfit : ¬ p.table.capacity < field.size) :
    (d.applyInstruction i).2 = none ∧
      Mirrors m (d.applyInstruction i).1
        { p with table := p.table.insert field, inserted := p.inserted + 1 } := by
  have hsize : 0 < field.size := Nat.lt_of_lt_of_le (by decide : 0 < HeaderField.OVERHEAD) (Nat.le_add_left _ _)
  rcases h.table with hholds | ⟨hnew, -⟩
  · have hkept := kept_of_field hholds.kept hk hf
    have hfits : d.dynamicTable.fits field.toField = true :=
      decide_eq_true (by rw [hholds.capacity, show field.toField.size = field.size from hkept]; omega)
    have happly : d.applyInstruction i =
        (({ d with dynamicTable := d.dynamicTable.insert field.toField hfits } : Decoder).queue
          [.insertCountIncrement 1], none) := by
      have hinserted := inserted_of_holds hholds h.capacity hf
      rw [Decoder.applyInstruction]
      cases i with
      | setDynamicTableCapacity capacity => exact absurd rfl (hi capacity)
      | insertWithNameReference _ _ _ | insertWithLiteralName _ _ | duplicate _ =>
        rw [Decoder.onEncoderInstruction, hinserted]
        · simp only [bind, Except.bind]
          rw [dif_pos hfits]
          rfl
        · exact fun capacity => hi capacity
    rw [happly]
    refine ⟨rfl, ⟨.inl ?_, ?_, ?_, h.max, h.word⟩⟩
    · change (p.table.insert field).Holds (d.dynamicTable.insert _ hfits).entries (d.dynamicTable.insert _ hfits).capacity
      rw [DynamicTable.entries_insert, DynamicTable.capacity_insert]
      exact hholds.insert (.inr hkept)
    · change (d.dynamicTable.insert _ hfits).insertedCount = _
      rw [DynamicTable.insertedCount_insert, h.count]
    · change (d.dynamicTable.insert _ hfits).capacity < _
      rw [DynamicTable.capacity_insert]
      exact h.capacity
  · rw [hnew] at hfit
    exact absurd hsize hfit

/-- One instruction, as both ends take it. -/
theorem Mirrors.apply {m : ℕ} {d : Decoder} {p : Peer} (h : Mirrors m d p) {i : EncoderInstruction}
    (hk : i.Kept) (hnone : (p.apply m i).2 = none) :
    (d.applyInstruction i).2 = none ∧ Mirrors m (d.applyInstruction i).1 (p.apply m i).1 := by
  have other : (∀ capacity, i ≠ .setDynamicTableCapacity capacity) →
      p.apply m i = (match Peer.field p.table i with
        | none => (p, some (.indexOutOfRange 0))
        | some field =>
          if p.table.capacity < field.size then (p, some .entryTooLarge)
          else ({ p with table := p.table.insert field, inserted := p.inserted + 1 }, none)) →
      (d.applyInstruction i).2 = none ∧ Mirrors m (d.applyInstruction i).1 (p.apply m i).1 := by
    intro hi happly
    rw [happly] at hnone ⊢
    cases hf : Peer.field p.table i with
    | none =>
      rw [hf] at hnone
      cases hnone
    | some field =>
      rw [hf] at hnone
      dsimp only at hnone ⊢
      split_ifs at hnone ⊢ with hfit
      exact h.insert hi hk hf hfit
  cases i with
  | setDynamicTableCapacity capacity =>
    rw [Peer.apply] at hnone ⊢
    split_ifs at hnone ⊢ with hmax
    have happly : d.applyInstruction (.setDynamicTableCapacity capacity) =
        (({ d with dynamicTable := d.dynamicTable.setCapacity capacity } : Decoder).queue [], none) := by
      rw [Decoder.applyInstruction, Decoder.onEncoderInstruction, if_neg (by rw [h.max]; exact hmax)]
      rfl
    rw [happly]
    have hword := h.word
    refine ⟨rfl, ⟨.inl ?_, ?_, ?_, h.max, h.word⟩⟩
    · change (p.table.setCapacity capacity).Holds (d.dynamicTable.setCapacity capacity).entries
        (d.dynamicTable.setCapacity capacity).capacity
      rw [DynamicTable.entries_setCapacity, DynamicTable.capacity_setCapacity]
      rcases h.table with hholds | ⟨hnew, hnil⟩
      · exact hholds.setCapacity capacity
      · rw [hnew, hnil]
        exact ⟨rfl, rfl, by simp [RawTable.setCapacity, RawTable.new, fit]⟩
    · change (d.dynamicTable.setCapacity capacity).insertedCount = _
      rw [DynamicTable.insertedCount_setCapacity, h.count]
    · change (d.dynamicTable.setCapacity capacity).capacity < _
      rw [DynamicTable.capacity_setCapacity]
      omega
  | insertWithNameReference fromStatic nameIndex value =>
    exact other (fun _ hi => by cases hi) rfl
  | insertWithLiteralName name value => exact other (fun _ hi => by cases hi) rfl
  | duplicate index => exact other (fun _ hi => by cases hi) rfl

/-- A delivery keeps the decoder a mirror of the peer. -/
theorem Mirrors.deliver {m : ℕ} {d : Decoder} {p : Peer} (h : Mirrors m d p) (hrecv : d.streamRecv = p.recv)
    {bytes : Octets} (hr : (p.send m bytes).2 = none)
    (hs : (d.onEncoderStream bytes).2 ≠ some .instructionTooLarge)
    (hk : ∀ i ∈ items EncoderInstruction.decode ((p.recv ++ bytes).length + 1) (p.recv ++ bytes), i.Kept) :
    Mirrors m (d.onEncoderStream bytes).1 (p.send m bytes).1 ∧
      (d.onEncoderStream bytes).1.streamRecv = (p.send m bytes).1.recv := by
  rw [Peer.send] at hr ⊢
  rw [Decoder.onEncoderStream, hrecv] at hs ⊢
  dsimp only at hr hs ⊢
  split_ifs at hs ⊢ with hlarge
  · exact absurd rfl hs
  have one : ∀ (d : Decoder) (p : Peer) (i : EncoderInstruction), Mirrors m d p → i.Kept →
      (p.apply m i).2 = none →
        (d.applyInstruction i).2 = none ∧ Mirrors m (d.applyInstruction i).1 (p.apply m i).1 :=
    fun _ _ _ h => h.apply
  obtain ⟨hrest, hmirrors⟩ := drain_rel one _ (p.recv ++ bytes) h hk hr
  exact ⟨⟨hmirrors.table, hmirrors.count, hmirrors.capacity, hmirrors.max, hmirrors.word⟩,
    congrArg Prod.fst hrest⟩

/-- In a run whose literals keep their length, the decoder mirrors the peer. -/
theorem Fed.mirrors {d : Decoder} {p : Peer} (h : Fed EncoderInstruction.Kept d p) :
    Mirrors d.maxCapacity d p ∧ d.streamRecv = p.recv := by
  induction h with
  | new maxCapacity maxInstructionSize =>
    have hword := maxCapacity.toNat_lt
    have hmax : (Decoder.new.setMaxCapacity maxCapacity.toNat).maxCapacity = maxCapacity.toNat := by
      rw [Decoder.setMaxCapacity]
      split_ifs <;> rfl
    have htable : (Decoder.new.setMaxCapacity maxCapacity.toNat).dynamicTable =
        .new (min 4096 maxCapacity.toNat) := by
      rw [Decoder.setMaxCapacity]
      split_ifs with hlt
      · exact (DynamicTable.setCapacity_new _ _).trans
          (congrArg DynamicTable.new (min_eq_right (Nat.le_of_lt hlt)).symm)
      · exact congrArg DynamicTable.new (min_eq_left (not_lt.1 hlt)).symm
    refine ⟨⟨.inr ⟨rfl, ?_⟩, ?_, ?_, rfl, ?_⟩, ?_⟩
    · change (Decoder.new.setMaxCapacity maxCapacity.toNat).dynamicTable.entries = []
      rw [htable]
      rfl
    · change (Decoder.new.setMaxCapacity maxCapacity.toNat).dynamicTable.insertedCount = 0
      rw [htable]
      rfl
    · change (Decoder.new.setMaxCapacity maxCapacity.toNat).dynamicTable.capacity < 2 ^ 64
      rw [htable]
      exact (min_le_right _ _).trans_lt hword
    · change (Decoder.new.setMaxCapacity maxCapacity.toNat).maxCapacity < 2 ^ 64
      rw [hmax]
      exact hword
    · change (Decoder.new.setMaxCapacity maxCapacity.toNat).streamRecv = []
      rw [Decoder.setMaxCapacity]
      split_ifs <;> rfl
  | deliver _ bytes hr hs hk ih =>
    have h := ih.1.deliver ih.2 hr hs hk
    exact ⟨by rw [h.1.max]; exact h.1, h.2⟩

/-- The two tables agree, whichever absolute index is looked up. -/
theorem Mirrors.agrees {m : ℕ} {d : Decoder} {p : Peer} (h : Mirrors m d p) :
    p.table.Agrees d.dynamicTable.entries d.dynamicTable.size ∧
      ∀ absolute, d.dynamicTable.get absolute = (p.get absolute).map RawField.toField := by
  have hagrees : p.table.Agrees d.dynamicTable.entries d.dynamicTable.size := by
    rcases h.table with hholds | ⟨hnew, hnil⟩
    · exact ((RawTable.holds_iff d.dynamicTable.size_eq).1 hholds).1
    · have hsize := d.dynamicTable.size_eq
      rw [hnil] at hsize ⊢
      rw [hnew, hsize]
      exact ⟨rfl, rfl, fun i => by simp [RawTable.new]⟩
  refine ⟨hagrees, fun absolute => ?_⟩
  rw [DynamicTable.get, Peer.get, h.count]
  split_ifs
  · exact hagrees.same _
  · rfl

end Qpack

/-- In every run whose insertions keep their size as text, or are too large for
    the table, the decoder's table has the entries of the peer's, as text, and
    every index names the field the peer meant. -/
theorem tables_agree (d : Hpack.Decoder) (t : RawTable) (e : Qpack.Decoder) (p : Qpack.Peer) :
    (Hpack.Fed RawTable.Keeps d t → t.Agrees d.dynamicTable.entries d.dynamicTable.size ∧
      ∀ index field, t.resolve index = some field → d.resolve index = .ok field.toField) ∧
    (Qpack.Fed Qpack.EncoderInstruction.Kept e p →
      p.table.Agrees e.dynamicTable.entries e.dynamicTable.size ∧
        ∀ absolute, e.dynamicTable.get absolute = (p.get absolute).map RawField.toField) := by
  refine ⟨fun h => ?_, fun h => h.mirrors.1.agrees⟩
  have hholds := h.holds
  exact ⟨((RawTable.holds_iff d.dynamicTable.size_eq).1 hholds).1, fun index field hr =>
    Hpack.Decoder.resolve_of_holds hholds hr⟩

/-- A block that inserts a literal of ASCII, at both ends. -/
theorem tables_agree_after_ascii :
    ((Hpack.Decoder.new.setMaxCapacity 4096).setMaxDecodedSize 65536
      |>.decode [0x40, 0x01, 0x78, 0x01, 0x79]).1.dynamicTable.size = 34 :=
  ((tables_agree _ _ .new .new).1 (.block (.new 4096 65536) [0x40, 0x01, 0x78, 0x01, 0x79]
    [.inserted ⟨[0x78], [0x79]⟩] (by decide +kernel) (by decide +kernel)
    ⟨fun field h => .inr (by cases h; decide +kernel), trivial⟩)).1.size.trans (by decide +kernel)

/-- One octet that is not UTF-8 counts one at the peer and three at the decoder. -/
theorem not_tables_agree_after_octet :
    ¬ ∀ (d : Hpack.Decoder) (t : RawTable), Hpack.Fed (fun _ _ => True) d t →
      t.Agrees d.dynamicTable.entries d.dynamicTable.size := by
  intro h
  have agrees := h _ _ (.block (.new 4096 65536) [0x40, 0x01, 0x78, 0x01, 0xff]
    [.inserted ⟨[0x78], [0xff]⟩] (by decide +kernel) (by decide +kernel) trivial)
  exact absurd agrees.size (by decide +kernel)

end Soyokaze

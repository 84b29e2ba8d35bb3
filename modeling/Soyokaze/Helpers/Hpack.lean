import Soyokaze.Lib.Eviction
import Soyokaze.Helpers.Fields
import Soyokaze.Helpers.StringLiteral

/-!
# HPACK

A field is sent as an index into a table both ends agree on, or as a literal
that may then be added to that table. Each direction of a connection has a
sending end (`Encoder`) and a receiving end (`Decoder`), whose dynamic tables
have to stay in step.

* `DynamicTable.entries_insert`, `DynamicTable.entries_setCapacity`: both
  operations keep what fits of the entries;
* `Encoder.reference_sound`: the index chosen for a field resolves to it;
* `decode_encode`: a block written against a table the decoder's tracks is read
  back, and the tables go on as they were.
-/

namespace Soyokaze.Hpack

open Eviction

/-! ## The static table -/

namespace StaticTable

/-- The entries, indexed from 1. -/
def entries : List HeaderField := [
  .lit ":authority" "", .lit ":method" "GET", .lit ":method" "POST", .lit ":path" "/",
  .lit ":path" "/index.html", .lit ":scheme" "http", .lit ":scheme" "https",
  .lit ":status" "200", .lit ":status" "204", .lit ":status" "206", .lit ":status" "304",
  .lit ":status" "400", .lit ":status" "404", .lit ":status" "500", .lit "accept-charset" "",
  .lit "accept-encoding" "gzip, deflate", .lit "accept-language" "", .lit "accept-ranges" "",
  .lit "accept" "", .lit "access-control-allow-origin" "", .lit "age" "", .lit "allow" "",
  .lit "authorization" "", .lit "cache-control" "", .lit "content-disposition" "",
  .lit "content-encoding" "", .lit "content-language" "", .lit "content-length" "",
  .lit "content-location" "", .lit "content-range" "", .lit "content-type" "", .lit "cookie" "",
  .lit "date" "", .lit "etag" "", .lit "expect" "", .lit "expires" "", .lit "from" "",
  .lit "host" "", .lit "if-match" "", .lit "if-modified-since" "", .lit "if-none-match" "",
  .lit "if-range" "", .lit "if-unmodified-since" "", .lit "last-modified" "", .lit "link" "",
  .lit "location" "", .lit "max-forwards" "", .lit "proxy-authenticate" "",
  .lit "proxy-authorization" "", .lit "range" "", .lit "referer" "", .lit "refresh" "",
  .lit "retry-after" "", .lit "server" "", .lit "set-cookie" "",
  .lit "strict-transport-security" "", .lit "transfer-encoding" "", .lit "user-agent" "",
  .lit "vary" "", .lit "via" "", .lit "www-authenticate" ""]

/-- The reverse index over the table. -/
def index : StaticIndex := .new entries 1

theorem sound_index : index.sound entries 1 = true := by decide +kernel

theorem length_entries : entries.length = 61 := rfl

attribute [irreducible] entries index

/-- Finds a field; the flag says whether the value matched too. -/
def find (field : HeaderField) : Option (ℕ × Bool) := index.find field

theorem find_sound {field : HeaderField} {i : ℕ} {exact : Bool} (h : find field = some (i, exact)) :
    1 ≤ i ∧ ∃ f, entries[i - 1]? = some f ∧ f.name = field.name ∧ (exact = true → f = field) :=
  StaticIndex.find_sound sound_index h

end StaticTable

/-! ## The dynamic table -/

/-- The table of fields built up over one direction, newest first. -/
structure DynamicTable where
  entries : List Entry
  size : ℕ
  capacity : ℕ
  size_eq : size = total Entry.size entries
  size_le : size ≤ capacity

namespace DynamicTable

/-- The capacity both ends assume before any setting says otherwise. -/
def DEFAULT_CAPACITY : ℕ := 4096

/-- An empty table. -/
def new (capacity : ℕ) : DynamicTable := ⟨[], 0, capacity, zero_eq_total Entry.size, Nat.zero_le capacity⟩

@[ext] theorem ext {s t : DynamicTable} (he : s.entries = t.entries) (hc : s.capacity = t.capacity) :
    s = t := by
  obtain ⟨entries, size, capacity, rfl, hs⟩ := s
  obtain ⟨entries', size', capacity', rfl, ht⟩ := t
  obtain rfl : entries = entries' := he
  obtain rfl : capacity = capacity' := hc
  rfl

theorem evict_entries (t : DynamicTable) {capacity extra : ℕ} (h : extra ≤ capacity) :
    evict Entry.size capacity extra t.entries t.size =
      (fit Entry.size (capacity - extra) t.entries,
        total Entry.size (fit Entry.size (capacity - extra) t.entries)) := by
  rw [t.size_eq, evict_eq h]

/-- What is held once room has been made. -/
theorem evict_spec (t : DynamicTable) (capacity extra : ℕ) (entries : List Entry) (held : ℕ)
    (he : evict Entry.size capacity extra t.entries t.size = (entries, held)) :
    held = total Entry.size entries ∧ held ≤ capacity := by
  rcases Nat.lt_or_ge capacity extra with hlt | hge
  · rw [t.size_eq, evict_of_lt hlt] at he
    cases he
    exact ⟨rfl, Nat.zero_le _⟩
  · rw [t.evict_entries hge] at he
    cases he
    exact ⟨rfl, (total_fit_le _ _).trans (Nat.sub_le _ _)⟩

theorem size_evict (t : DynamicTable) (capacity extra : ℕ) (entries : List Entry) (held : ℕ)
    (he : evict Entry.size capacity extra t.entries t.size = (entries, held)) :
    held = total Entry.size entries := (t.evict_spec capacity extra entries held he).1

theorem size_evict_le (t : DynamicTable) (capacity extra : ℕ) (entries : List Entry) (held : ℕ)
    (he : evict Entry.size capacity extra t.entries t.size = (entries, held)) : held ≤ capacity :=
  (t.evict_spec capacity extra entries held he).2

theorem size_insert (t : DynamicTable) (capacity : ℕ) (field : HeaderField) (entries : List Entry) (held : ℕ)
    (he : evict Entry.size capacity field.size t.entries t.size = (entries, held)) :
    held + field.size = total Entry.size (.of field :: entries) := by
  rw [total_cons, ← t.size_evict capacity field.size entries held he, Nat.add_comm]
  rfl

theorem size_insert_le (capacity held : ℕ) (field : HeaderField) (h : ¬ capacity < held + field.size) :
    held + field.size ≤ capacity := Nat.le_of_not_lt h

/-- Inserts a field at the front, evicting from the back to make room. A field
    larger than the whole table empties it and is then dropped. -/
def insert (t : DynamicTable) (field : HeaderField) : DynamicTable :=
  let size := field.size
  let capacity := t.capacity
  match he : evict Entry.size capacity size t.entries t.size with
  | (entries, held) =>
    if h : capacity < held + size then
      ⟨entries, held, capacity, t.size_evict capacity size entries held he,
        t.size_evict_le capacity size entries held he⟩
    else
      ⟨.of field :: entries, held + size, capacity, t.size_insert capacity field entries held he,
        size_insert_le capacity held field h⟩

/-- The entry `index` places back from the most recent insertion. -/
def get (t : DynamicTable) (index : ℕ) : Option HeaderField := t.entries[index]?.map (·.field)

/-- Changes the capacity, evicting until the table is under it. -/
def setCapacity (t : DynamicTable) (capacity : ℕ) : DynamicTable :=
  match he : evict Entry.size capacity 0 t.entries t.size with
  | (entries, held) =>
    ⟨entries, held, capacity, t.size_evict capacity 0 entries held he, t.size_evict_le capacity 0 entries held he⟩

/-- Inserting keeps what fits of the entries with the new one in front. -/
theorem entries_insert (t : DynamicTable) (field : HeaderField) :
    (t.insert field).entries = fit Entry.size t.capacity (.of field :: t.entries) := by
  have hsize : (Entry.of field).size = field.size := rfl
  rw [insert]
  split
  next entries held he =>
  rcases Nat.lt_or_ge t.capacity field.size with hlt | hge
  · rw [t.size_eq, evict_of_lt hlt] at he
    cases he
    rw [dif_pos (by omega), fit_cons_of_lt (by rw [hsize]; exact hlt)]
  · rw [t.evict_entries hge] at he
    cases he
    have := @total_fit_le _ Entry.size (t.capacity - field.size) t.entries
    rw [dif_neg (by omega), fit_cons_of_le (by rw [hsize]; exact hge), hsize]

@[simp] theorem capacity_insert (t : DynamicTable) (field : HeaderField) :
    (t.insert field).capacity = t.capacity := by
  rw [insert]
  split
  split_ifs <;> rfl

/-- Changing the capacity keeps what fits of the entries. -/
theorem entries_setCapacity (t : DynamicTable) (capacity : ℕ) :
    (t.setCapacity capacity).entries = fit Entry.size capacity t.entries := by
  rw [setCapacity]
  split
  next entries held he =>
  rw [t.evict_entries (Nat.zero_le _), Nat.sub_zero, Prod.mk.injEq] at he
  exact he.1.symm

@[simp] theorem capacity_setCapacity (t : DynamicTable) (capacity : ℕ) :
    (t.setCapacity capacity).capacity = capacity := by
  rw [setCapacity]

/-- Each entry costs its overhead, which bounds their number. -/
theorem length_le (t : DynamicTable) : t.entries.length * 32 ≤ t.capacity :=
  (length_mul_le_total Entry.size (fun e => e.field.overhead_le_size) t.entries).trans
    (t.size_eq ▸ t.size_le)

/-- Walks the entries from the most recent for one that carries the field, or
    else the first that carries its name. -/
def search (mark : Mark) (field : HeaderField) : List Entry → (offset : ℕ) → Option ℕ → Option (ℕ × Bool)
  | [], _, nameOnly => nameOnly.map (·, false)
  | entry :: entries, offset, nameOnly =>
    if !entry.named mark field then search mark field entries (offset + 1) nameOnly
    else if entry.valued field then some (offset, true)
    else search mark field entries (offset + 1) (nameOnly.or (some offset))

/-- Finds the best offset for a field; the flag says whether the value matched too. -/
def find (t : DynamicTable) (field : HeaderField) : Option (ℕ × Bool) :=
  search (.of field.name) field t.entries 0 none

theorem search_sound (field : HeaderField) (before entries : List Entry) {nameOnly : Option ℕ}
    (hn : ∀ o ∈ nameOnly, ∃ e, (before ++ entries)[o]? = some e ∧ e.field.name = field.name)
    {offset : ℕ} {exact : Bool}
    (h : search (.of field.name) field entries before.length nameOnly = some (offset, exact)) :
    ∃ e, (before ++ entries)[offset]? = some e ∧ e.field.name = field.name ∧
      (exact = true → e.field = field) := by
  induction entries generalizing before nameOnly with
  | nil =>
    obtain ⟨o, ho, heq⟩ := Option.map_eq_some_iff.1 h
    cases heq
    obtain ⟨e, he, hname⟩ := hn _ ho
    exact ⟨e, he, hname, by simp⟩
  | cons entry entries ih =>
    have hget : (before ++ entry :: entries)[before.length]? = some entry := by simp
    rw [search, Entry.named_eq] at h
    have next := fun n => @ih (before ++ [entry]) n
    simp only [List.append_assoc, List.singleton_append, List.length_append,
      List.length_singleton] at next
    split_ifs at h with hname hvalue
    · exact next _ hn h
    · cases h
      have hname : entry.field.name = field.name := by simpa using hname
      have hvalue : entry.field.value = field.value := by simpa [Entry.valued] using hvalue
      exact ⟨entry, hget, hname, fun _ => by
        obtain ⟨⟨n, v⟩, _, _⟩ := entry
        obtain ⟨n', v'⟩ := field
        cases hname
        cases hvalue
        rfl⟩
    · refine next _ ?_ h
      intro o ho
      rcases nameOnly with - | o'
      · cases ho
        exact ⟨entry, hget, by simpa using hname⟩
      · exact hn o ho

theorem find_sound {t : DynamicTable} {field : HeaderField} {offset : ℕ} {exact : Bool}
    (h : t.find field = some (offset, exact)) :
    ∃ e, t.entries[offset]? = some e ∧ e.field.name = field.name ∧ (exact = true → e.field = field) :=
  search_sound field [] t.entries (by simp) h

end DynamicTable

/-! ## The encoder -/

/-- The sending half of one direction of a connection. -/
structure Encoder where
  dynamicTable : DynamicTable
  maxCapacity : ℕ
  capacityLimit : ℕ
  pendingSizeUpdate : Option ℕ

namespace Encoder

/-- The capacity an encoder is willing to keep, whatever the peer permits. -/
def DEFAULT_CAPACITY_LIMIT : ℕ := 4096

/-- An encoder with an empty table. -/
def new : Encoder :=
  ⟨.new DynamicTable.DEFAULT_CAPACITY, DynamicTable.DEFAULT_CAPACITY, DEFAULT_CAPACITY_LIMIT, none⟩

/-- The better of a static and a dynamic reference: an exact one where there is
    one, and otherwise the static one. -/
def better (inStatic inDynamic : Option (ℕ × Bool)) : Option (ℕ × Bool) :=
  match inStatic, inDynamic with
  | some (index, true), _ => some (index, true)
  | _, some (index, true) => some (index, true)
  | _, _ => inStatic.or inDynamic

/-- Picks the reference to use for a field: the best index across both tables,
    and whether the value matched as well as the name. -/
def reference (e : Encoder) (field : HeaderField) : Option (ℕ × Bool) :=
  let base := StaticTable.entries.length + 1
  better (StaticTable.find field)
    ((e.dynamicTable.find field).map fun (offset, exact) => (base + offset, exact))

/-- Writes a field out as a literal, against a name index where there is one;
    a sensitive one is neither inserted nor to be indexed by anyone. -/
def encodeLiteral (e : Encoder) (field : HeaderField) (index : ℕ) : Encoder × Octets :=
  let sensitive := field.sensitive
  let head := if sensitive then Integer.encode index 4 0x10 else Integer.encode index 6 0x40
  let name := if index = 0 then StringLiteral.encodeShorter field.name.octets 7 0x00 else []
  let value := StringLiteral.encodeShorter field.value.octets 7 0x00
  (if sensitive then e else { e with dynamicTable := e.dynamicTable.insert field }, head ++ name ++ value)

/-- Encodes a field against the reference found for it. -/
def encodeFound (e : Encoder) (field : HeaderField) : Option (ℕ × Bool) → Encoder × Octets
  | some (index, true) => (e, Integer.encode index 7 0x80)
  | some (index, false) => e.encodeLiteral field index
  | none => e.encodeLiteral field 0

/-- Encodes one field, and inserts it into the table unless it is sensitive. -/
def encodeField (e : Encoder) (field : HeaderField) : Encoder × Octets :=
  e.encodeFound field (e.reference field)

/-- Encodes the fields in turn. -/
def encodeFields : Encoder → List HeaderField → Encoder × Octets
  | e, [] => (e, [])
  | e, field :: fields =>
    ((encodeFields (e.encodeField field).1 fields).1,
      (e.encodeField field).2 ++ (encodeFields (e.encodeField field).1 fields).2)

/-- Encodes one field block; a pending size update leads it. -/
def encode (e : Encoder) (headers : List HeaderField) : Encoder × Octets :=
  let update := match e.pendingSizeUpdate with
    | some capacity => Integer.encode capacity 5 0x20
    | none => []
  let (e, out) := encodeFields { e with pendingSizeUpdate := none } headers
  (e, update ++ out)

/-- Sets the ceiling the peer advertised, and arranges for the next block to
    announce the capacity chosen under it. -/
def setMaxCapacity (e : Encoder) (maxCapacity : ℕ) : Encoder :=
  let capacity := min maxCapacity e.capacityLimit
  { e with
    maxCapacity := maxCapacity
    dynamicTable := e.dynamicTable.setCapacity capacity
    pendingSizeUpdate := some capacity }

/-- Bounds the capacity this encoder keeps, whatever the peer permits. -/
def setCapacityLimit (e : Encoder) (capacityLimit : ℕ) : Encoder :=
  if capacityLimit < e.dynamicTable.capacity then
    { e with
      capacityLimit := capacityLimit
      dynamicTable := e.dynamicTable.setCapacity capacityLimit
      pendingSizeUpdate := some capacityLimit }
  else { e with capacityLimit := capacityLimit }

end Encoder

/-! ## The decoder -/

/-- Why a field block would not decode. -/
inductive Error
  | indexOutOfRange (index : ℕ)
  | integerOverflow
  | invalidCapacityUpdate
  | incomplete
  | huffman (error : Huffman.DecodeError)
  | decodedSizeExceeded
  deriving DecidableEq

/-- The error of a wire primitive, as one of a block. -/
def Error.ofFields : Fields.WireError → Error
  | .integerOverflow => .integerOverflow
  | .incomplete => .incomplete
  | .huffman error => .huffman error

/-- The receiving half of one direction of a connection. -/
structure Decoder where
  dynamicTable : DynamicTable
  maxCapacity : ℕ
  maxDecodedSize : ℕ

namespace Decoder

/-- The decoded field list size a decoder accepts until told otherwise. -/
def DEFAULT_MAX_DECODED_SIZE : ℕ := 64 * 1024

/-- A decoder with an empty table. -/
def new : Decoder :=
  ⟨.new DynamicTable.DEFAULT_CAPACITY, DynamicTable.DEFAULT_CAPACITY, DEFAULT_MAX_DECODED_SIZE⟩

/-- Resolves a wire index across the static and dynamic tables. -/
def resolve (d : Decoder) (index : ℕ) : Except Error HeaderField :=
  if index = 0 then .error (.indexOutOfRange index)
  else if index ≤ StaticTable.entries.length then
    match StaticTable.entries[index - 1]? with
    | some field => .ok field
    | none => .error (.indexOutOfRange index)
  else match d.dynamicTable.get (index - StaticTable.entries.length - 1) with
    | some field => .ok field
    | none => .error (.indexOutOfRange index)

/-- Decodes one literal representation, whose name may itself be an index. -/
def decodeLiteral (d : Decoder) (input : Octets) (prefixBits : ℕ) : Except Error (ℕ × HeaderField) := do
  let (consumed, index) ← (Integer.decode input prefixBits).mapError .ofFields
  let (consumed, name) ← if index = 0 then do
      let (taken, name) ← (StringLiteral.decodeText (input.drop consumed) 7).mapError .ofFields
      pure (consumed + taken, name)
    else do
      let field ← d.resolve index
      pure (consumed, field.name)
  let (taken, value) ← (StringLiteral.decodeText (input.drop consumed) 7).mapError .ofFields
  pure (consumed + taken, ⟨name, value⟩)

/-- Decodes the representation at the front: how many octets it took, the field
    it is, and the table it leaves. -/
def decodeOne (d : Decoder) (first : UInt8) (rest : Octets) :
    Except Error (ℕ × Option HeaderField × Decoder) :=
  if first &&& 0x80 ≠ 0 then do
    let (consumed, index) ← (Integer.decode rest 7).mapError .ofFields
    let field ← d.resolve index
    pure (consumed, some field, d)
  else if first &&& 0x40 ≠ 0 then do
    let (consumed, field) ← d.decodeLiteral rest 6
    pure (consumed, some field, { d with dynamicTable := d.dynamicTable.insert field })
  else if first &&& 0x20 ≠ 0 then do
    let (consumed, capacity) ← (Integer.decode rest 5).mapError .ofFields
    if d.maxCapacity < capacity then .error .invalidCapacityUpdate
    else pure (consumed, none, { d with dynamicTable := d.dynamicTable.setCapacity capacity })
  else do
    let (consumed, field) ← d.decodeLiteral rest 4
    pure (consumed, some field, d)

/-- Decodes representations until none is left. Every one takes an octet at
    least, which is what the fuel counts. -/
def decodeLoop : ℕ → Decoder → Octets → List HeaderField → ℕ → Decoder × Except Error (List HeaderField)
  | 0, d, _, headers, _ => (d, .ok headers)
  | _ + 1, d, [], headers, _ => (d, .ok headers)
  | fuel + 1, d, first :: rest, headers, decodedSize =>
    match d.decodeOne first (first :: rest) with
    | .error e => (d, .error e)
    | .ok (consumed, none, d) => decodeLoop fuel d ((first :: rest).drop consumed) headers decodedSize
    | .ok (consumed, some field, d) =>
      let decodedSize := decodedSize + field.size
      if d.maxDecodedSize < decodedSize then (d, .error .decodedSizeExceeded)
      else decodeLoop fuel d ((first :: rest).drop consumed) (headers ++ [field]) decodedSize

/-- Decodes one field block, updating the table as it goes. -/
def decode (d : Decoder) (block : Octets) : Decoder × Except Error (List HeaderField) :=
  decodeLoop block.length d block [] 0

/-- Bounds the decoded size of one field block. -/
def setMaxDecodedSize (d : Decoder) (maxSize : ℕ) : Decoder := { d with maxDecodedSize := maxSize }

/-- Sets the ceiling this end advertised, which is the largest capacity the peer
    may then update the table to. -/
def setMaxCapacity (d : Decoder) (maxCapacity : ℕ) : Decoder :=
  if maxCapacity < d.dynamicTable.capacity then
    { d with maxCapacity := maxCapacity, dynamicTable := d.dynamicTable.setCapacity maxCapacity }
  else { d with maxCapacity := maxCapacity }

end Decoder

/-! ## Reading back a block -/

namespace DynamicTable

/-- A decoder's table `t` tracks an encoder's `s`: it holds every entry `s` does,
    at the same place, and perhaps older ones. -/
structure Tracks (t s : DynamicTable) : Prop where
  entries : s.entries <+: t.entries
  capacity : t.capacity = s.capacity

theorem Tracks.refl (t : DynamicTable) : Tracks t t := ⟨List.prefix_rfl, rfl⟩

/-- An entry the encoder holds is where the decoder looks for it. -/
theorem Tracks.get {t s : DynamicTable} (h : Tracks t s) {offset : ℕ} {e : Entry}
    (he : s.entries[offset]? = some e) : t.get offset = some e.field := by
  obtain ⟨rest, hrest⟩ := h.entries
  rw [DynamicTable.get, ← hrest, List.getElem?_append_left (List.getElem?_eq_some_iff.1 he).1, he]
  rfl

theorem fit_isPrefix_of_isPrefix {r s : ℕ} (h : r ≤ s) {l m : List Entry} (hlm : l <+: m) :
    fit Entry.size r l <+: fit Entry.size s m :=
  prefix_fit ((fit_isPrefix r l).trans hlm) ((total_fit_le r l).trans h)

theorem Tracks.insert {t s : DynamicTable} (h : Tracks t s) (field : HeaderField) :
    Tracks (t.insert field) (s.insert field) where
  entries := by
    rw [entries_insert, entries_insert, h.capacity]
    exact fit_isPrefix_of_isPrefix le_rfl ((List.prefix_cons_inj _).2 h.entries)
  capacity := by rw [capacity_insert, capacity_insert, h.capacity]

end DynamicTable

namespace Encoder

/-- The index chosen for a field resolves, and to the field itself where the
    choice was exact. -/
theorem reference_sound {e : Encoder} {d : Decoder} (h : d.dynamicTable.Tracks e.dynamicTable)
    {field : HeaderField} {index : ℕ} {exact : Bool} (hr : e.reference field = some (index, exact)) :
    0 < index ∧ index ≤ 61 + e.dynamicTable.entries.length ∧
      ∃ f, d.resolve index = .ok f ∧ f.name = field.name ∧ (exact = true → f = field) := by
  have hlen := StaticTable.length_entries
  have static : ∀ {i b}, StaticTable.find field = some (i, b) → 0 < i ∧
      i ≤ 61 + e.dynamicTable.entries.length ∧
      ∃ f, d.resolve i = .ok f ∧ f.name = field.name ∧ (b = true → f = field) := by
    intro i b hi
    obtain ⟨hle, f, hf, hn, he⟩ := StaticTable.find_sound hi
    have hlt := (List.getElem?_eq_some_iff.1 hf).1
    refine ⟨hle, by omega, f, ?_, hn, he⟩
    rw [Decoder.resolve, if_neg (by omega), if_pos (by omega), hf]
  have dynamic : ∀ {i b}, (e.dynamicTable.find field).map
      (fun (offset, exact) => (StaticTable.entries.length + 1 + offset, exact)) = some (i, b) → 0 < i ∧
      i ≤ 61 + e.dynamicTable.entries.length ∧
      ∃ f, d.resolve i = .ok f ∧ f.name = field.name ∧ (b = true → f = field) := by
    intro i b hi
    obtain ⟨⟨o, b'⟩, ho, heq⟩ := Option.map_eq_some_iff.1 hi
    cases heq
    obtain ⟨entry, hentry, hn, he⟩ := DynamicTable.find_sound ho
    have hlt := (List.getElem?_eq_some_iff.1 hentry).1
    refine ⟨by omega, by omega, entry.field, ?_, hn, he⟩
    rw [Decoder.resolve, if_neg (by omega), if_neg (by omega),
      show StaticTable.entries.length + 1 + o - StaticTable.entries.length - 1 = o by omega,
      h.get hentry]
  rw [reference] at hr
  generalize hd : (e.dynamicTable.find field).map _ = inDynamic at hr
  generalize hs : StaticTable.find field = inStatic at hr
  rw [better.eq_def] at hr
  split at hr
  · cases hr
    exact static hs
  · cases hr
    exact dynamic hd
  · rcases Option.or_eq_some_iff.1 hr with rfl | ⟨-, rfl⟩
    · exact static hs
    · exact dynamic hd

end Encoder

/-- The bits of a first octet that say which representation it begins. -/
theorem kind_of_indexed {n : ℕ} (h : n ≤ Integer.limit 7) : (0x80 ||| UInt8.ofNat n) &&& 0x80 ≠ 0 := by
  have : n < 128 := Nat.lt_succ_of_le h
  revert n
  decide

theorem kind_of_incremental {n : ℕ} (h : n ≤ Integer.limit 6) :
    (0x40 ||| UInt8.ofNat n) &&& 0x80 = 0 ∧ (0x40 ||| UInt8.ofNat n) &&& 0x40 ≠ 0 := by
  have : n < 64 := Nat.lt_succ_of_le h
  revert n
  decide

theorem kind_of_update {n : ℕ} (h : n ≤ Integer.limit 5) :
    (0x20 ||| UInt8.ofNat n) &&& 0x80 = 0 ∧ (0x20 ||| UInt8.ofNat n) &&& 0x40 = 0 ∧
      (0x20 ||| UInt8.ofNat n) &&& 0x20 ≠ 0 := by
  have : n < 32 := Nat.lt_succ_of_le h
  revert n
  decide

theorem kind_of_never {n : ℕ} (h : n ≤ Integer.limit 4) :
    (0x10 ||| UInt8.ofNat n) &&& 0x80 = 0 ∧ (0x10 ||| UInt8.ofNat n) &&& 0x40 = 0 ∧
      (0x10 ||| UInt8.ofNat n) &&& 0x20 = 0 := by
  have : n < 16 := Nat.lt_succ_of_le h
  revert n
  decide

namespace Decoder

/-- Reading an integer that was just written. -/
theorem integer_read {value prefixBits : ℕ} {flags : UInt8} (hb : prefixBits ≤ 8)
    (hf : flags.toNat &&& Integer.limit prefixBits = 0) (hv : value < 2 ^ 64) (rest : Octets) :
    (Integer.decode (Integer.encode value prefixBits flags ++ rest) prefixBits).mapError Error.ofFields =
      .ok ((Integer.encode value prefixBits flags).length, value) := by
  rw [(Integer.spells hb hf hv).whole]
  rfl

/-- Reading a string that was just written. -/
theorem string_read {t : Text} (ht : t.len < 2 ^ 64) (rest : Octets) :
    (StringLiteral.decodeText (StringLiteral.encodeShorter t.octets 7 0x00 ++ rest) 7).mapError
        Error.ofFields = .ok ((StringLiteral.encodeShorter t.octets 7 0x00).length, t) := by
  rw [(StringLiteral.spells (by decide) (by decide) ht).whole]
  rfl

/-- A literal is read back: the name through an index that carries it, or
    written out where the index is zero. -/
theorem decodeLiteral_read {d : Decoder} {field : HeaderField} {index : ℕ} (prefixBits : ℕ) (flags : UInt8)
    (hb : prefixBits ≤ 8) (hf : flags.toNat &&& Integer.limit prefixBits = 0) (hi : index < 2 ^ 64)
    (hindex : index ≠ 0 → ∃ f, d.resolve index = .ok f ∧ f.name = field.name)
    (hn : field.name.len < 2 ^ 64) (hv : field.value.len < 2 ^ 64) (rest : Octets) :
    let out := Integer.encode index prefixBits flags ++
      (if index = 0 then StringLiteral.encodeShorter field.name.octets 7 0x00 else []) ++
      StringLiteral.encodeShorter field.value.octets 7 0x00
    d.decodeLiteral (out ++ rest) prefixBits = .ok (out.length, field) := by
  intro out
  simp only [out, decodeLiteral, List.append_assoc, integer_read hb hf hi, bind, Except.bind, pure,
    Except.pure, List.drop_left]
  by_cases h0 : index = 0
  · simp only [if_pos h0, string_read hn, ← List.drop_drop, List.drop_left, string_read hv,
      List.length_append, Nat.add_assoc]
  · obtain ⟨f, hres, hname⟩ := hindex h0
    simp only [if_neg h0, List.nil_append, hres, string_read hv, List.length_append, hname]

/-- A literal is read back, and inserted where the encoder inserted it. -/
theorem decodeOne_encodeLiteral {e : Encoder} {d : Decoder} (h : d.dynamicTable.Tracks e.dynamicTable)
    {field : HeaderField} {index : ℕ} (hi : index < 2 ^ 64)
    (hindex : index ≠ 0 → ∃ f, d.resolve index = .ok f ∧ f.name = field.name)
    (hn : field.name.len < 2 ^ 64) (hv : field.value.len < 2 ^ 64) (rest : Octets) :
    ∃ first tail t, (e.encodeLiteral field index).2 = first :: tail ∧
      d.decodeOne first (first :: tail ++ rest) =
        .ok ((first :: tail).length, some field, { d with dynamicTable := t }) ∧
      t.Tracks (e.encodeLiteral field index).1.dynamicTable ∧
      (d.dynamicTable = e.dynamicTable → t = (e.encodeLiteral field index).1.dynamicTable) := by
  rw [Encoder.encodeLiteral]
  by_cases hs : field.sensitive = true
  · obtain ⟨n, tail, hlim, he⟩ := Integer.head_encode index 4 0x10
    obtain ⟨h80, h40, h20⟩ := kind_of_never hlim
    have hread := decodeLiteral_read 4 0x10 (by decide) (by decide) hi hindex hn hv rest
    simp only [hs, if_true, he, List.cons_append] at hread ⊢
    refine ⟨_, _, d.dynamicTable, rfl, ?_, h, id⟩
    rw [decodeOne, if_neg (by simp [h80]), if_neg (by simp [h40]), if_neg (by simp [h20]), hread]
    rfl
  · obtain ⟨n, tail, hlim, he⟩ := Integer.head_encode index 6 0x40
    obtain ⟨h80, h40⟩ := kind_of_incremental hlim
    have hread := decodeLiteral_read 6 0x40 (by decide) (by decide) hi hindex hn hv rest
    simp only [hs, Bool.false_eq_true, if_false, he, List.cons_append] at hread ⊢
    refine ⟨_, _, d.dynamicTable.insert field, rfl, ?_, h.insert field, fun he => by rw [he]⟩
    rw [decodeOne, if_neg (by simp [h80]), if_pos h40, hread]
    rfl

/-- A field written against a table the decoder's tracks is read back, whatever
    follows it, and the tables go on as they were. -/
theorem decodeOne_encodeField {e : Encoder} {d : Decoder} (h : d.dynamicTable.Tracks e.dynamicTable)
    (hc : e.dynamicTable.capacity < 2 ^ 64) (field : HeaderField) (hn : field.name.len < 2 ^ 64)
    (hv : field.value.len < 2 ^ 64) (rest : Octets) :
    ∃ first tail t, (e.encodeField field).2 = first :: tail ∧
      d.decodeOne first (first :: tail ++ rest) =
        .ok ((first :: tail).length, some field, { d with dynamicTable := t }) ∧
      t.Tracks (e.encodeField field).1.dynamicTable ∧
      (d.dynamicTable = e.dynamicTable → t = (e.encodeField field).1.dynamicTable) := by
  have hlen := e.dynamicTable.length_le
  rw [Encoder.encodeField]
  match hr : e.reference field with
  | some (index, true) =>
    obtain ⟨-, hle, f, hf, -, hfield⟩ := Encoder.reference_sound h hr
    obtain ⟨n, tail, hlim, he⟩ := Integer.head_encode index 7 0x80
    refine ⟨0x80 ||| UInt8.ofNat n, tail, d.dynamicTable, he, ?_, h, id⟩
    rw [decodeOne, if_pos (kind_of_indexed hlim), ← he, integer_read (by decide) (by decide) (by omega)]
    simp only [bind, Except.bind, pure, Except.pure, hf, hfield rfl]
  | some (index, false) =>
    obtain ⟨-, hle, f, hf, hname, -⟩ := Encoder.reference_sound h hr
    exact decodeOne_encodeLiteral h (by omega) (fun _ => ⟨f, hf, hname⟩) hn hv rest
  | none => exact decodeOne_encodeLiteral h (by decide) (by simp) hn hv rest

end Decoder

namespace Encoder

theorem encodeLiteral_fst (e : Encoder) (field : HeaderField) (index : ℕ) :
    ∃ t, (e.encodeLiteral field index).1 = { e with dynamicTable := t } ∧
      t.capacity = e.dynamicTable.capacity := by
  rw [encodeLiteral]
  by_cases hs : field.sensitive = true
  · exact ⟨e.dynamicTable, by rw [if_pos hs], rfl⟩
  · exact ⟨e.dynamicTable.insert field, by rw [if_neg hs], DynamicTable.capacity_insert _ _⟩

theorem encodeField_fst (e : Encoder) (field : HeaderField) :
    ∃ t, (e.encodeField field).1 = { e with dynamicTable := t } ∧
      t.capacity = e.dynamicTable.capacity := by
  rw [encodeField]
  match e.reference field with
  | some (_, true) => exact ⟨e.dynamicTable, rfl, rfl⟩
  | some (index, false) => exact encodeLiteral_fst e field index
  | none => exact encodeLiteral_fst e field 0

/-- Encoding changes the entries of the table and nothing else. -/
theorem encodeFields_fst (e : Encoder) (fields : List HeaderField) :
    ∃ t, (e.encodeFields fields).1 = { e with dynamicTable := t } ∧
      t.capacity = e.dynamicTable.capacity := by
  induction fields generalizing e with
  | nil => exact ⟨e.dynamicTable, rfl, rfl⟩
  | cons field fields ih =>
    obtain ⟨t, ht, hc⟩ := encodeField_fst e field
    obtain ⟨t', ht', hc'⟩ := ih (e.encodeField field).1
    rw [ht] at ht' hc'
    refine ⟨t', ?_, hc'.trans hc⟩
    rw [encodeFields, ht, ht']

/-- A block announces what was pending, and changes the entries of the table. -/
theorem encode_fst (e : Encoder) (fields : List HeaderField) :
    ∃ t, (e.encode fields).1 = { e with dynamicTable := t, pendingSizeUpdate := none } ∧
      t.capacity = e.dynamicTable.capacity :=
  encodeFields_fst { e with pendingSizeUpdate := none } fields

end Encoder

namespace Decoder

/-- Fields written against a table the decoder's tracks are read back in order,
    and the tables go on as they were. -/
theorem decodeLoop_encodeFields (fields : List HeaderField) {e : Encoder} {d : Decoder}
    (h : d.dynamicTable.Tracks e.dynamicTable) (hc : e.dynamicTable.capacity < 2 ^ 64)
    (headers : List HeaderField) {decodedSize fuel : ℕ}
    (hm : d.maxDecodedSize < 2 ^ 64) (hs : decodedSize + sectionSize fields ≤ d.maxDecodedSize)
    (hf : (e.encodeFields fields).2.length ≤ fuel) :
    ∃ t, decodeLoop fuel d (e.encodeFields fields).2 headers decodedSize =
        ({ d with dynamicTable := t }, .ok (headers ++ fields)) ∧
      t.Tracks (e.encodeFields fields).1.dynamicTable ∧
      (d.dynamicTable = e.dynamicTable → t = (e.encodeFields fields).1.dynamicTable) := by
  induction fields generalizing e d headers decodedSize fuel with
  | nil =>
    refine ⟨d.dynamicTable, ?_, h, id⟩
    rw [Encoder.encodeFields, List.append_nil]
    cases fuel <;> rfl
  | cons field fields ih =>
    rw [sectionSize_cons] at hs
    have hsize : field.size = field.name.len + field.value.len + 32 := rfl
    obtain ⟨first, tail, t, he, hd, ht, heq⟩ := decodeOne_encodeField h hc field (by omega) (by omega)
      ((e.encodeField field).1.encodeFields fields).2
    obtain ⟨s, hfst, hcap⟩ := Encoder.encodeField_fst e field
    rw [Encoder.encodeFields] at hf ⊢
    rw [he] at hf ⊢
    generalize (e.encodeField field).1 = e' at *
    subst hfst
    rw [List.length_append, List.length_cons] at hf
    obtain ⟨fuel, rfl⟩ : ∃ n, fuel = n + 1 := ⟨fuel - 1, by omega⟩
    obtain ⟨t', hloop, ht', heq'⟩ := ih (d := { d with dynamicTable := t }) ht (hcap ▸ hc) (headers ++ [field]) hm
      (show decodedSize + field.size + sectionSize fields ≤ d.maxDecodedSize by omega)
      (show _ ≤ fuel by omega)
    refine ⟨t', ?_, ht', fun h0 => heq' (heq h0)⟩
    rw [List.cons_append] at hd ⊢
    rw [decodeLoop, hd]
    simp only [List.length_cons, List.drop_succ_cons, List.drop_left]
    rw [if_neg (by omega), hloop, List.append_assoc, List.singleton_append]

end Decoder

/-- What a block does to the table before its first field. -/
def DynamicTable.update (t : DynamicTable) : Option ℕ → DynamicTable
  | some capacity => t.setCapacity capacity
  | none => t

/-- A block is read back where the decoder's table, once updated as the block
    says, tracks the encoder's; and where it is the encoder's, it stays so. -/
theorem decode_encode {e : Encoder} {d : Decoder} (fields : List HeaderField)
    (h : (d.dynamicTable.update e.pendingSizeUpdate).Tracks e.dynamicTable)
    (hp : ∀ capacity ∈ e.pendingSizeUpdate, capacity ≤ d.maxCapacity)
    (hc : e.dynamicTable.capacity < 2 ^ 64) (hm : d.maxDecodedSize < 2 ^ 64)
    (hs : sectionSize fields ≤ d.maxDecodedSize) :
    ∃ t, d.decode (e.encode fields).2 = ({ d with dynamicTable := t }, .ok fields) ∧
      t.Tracks (e.encode fields).1.dynamicTable ∧
      (d.dynamicTable.update e.pendingSizeUpdate = e.dynamicTable →
        t = (e.encode fields).1.dynamicTable) := by
  have hsize : 0 + sectionSize fields ≤ d.maxDecodedSize := by omega
  rw [Decoder.decode]
  cases hu : e.pendingSizeUpdate with
  | none =>
    rw [hu] at h
    have := Decoder.decodeLoop_encodeFields fields (e := { e with pendingSizeUpdate := none }) (d := d)
      h hc [] hm hsize le_rfl
    simpa [Encoder.encode, hu, DynamicTable.update] using this
  | some capacity =>
    rw [hu] at h hp
    have hcap : capacity = e.dynamicTable.capacity := by
      rw [← h.capacity]
      exact (DynamicTable.capacity_setCapacity _ _).symm
    obtain ⟨n, tail, hlim, he⟩ := Integer.head_encode capacity 5 0x20
    obtain ⟨h80, h40, h20⟩ := kind_of_update hlim
    have hone : ∀ rest, d.decodeOne (0x20 ||| UInt8.ofNat n) ((0x20 ||| UInt8.ofNat n) :: tail ++ rest) =
        .ok (tail.length + 1, none, { d with dynamicTable := d.dynamicTable.setCapacity capacity }) := by
      intro rest
      rw [Decoder.decodeOne, if_neg (by simp [h80]), if_neg (by simp [h40]), if_pos h20, ← he,
        Decoder.integer_read (by decide) (by decide) (by omega)]
      have := hp capacity rfl
      simp only [bind, Except.bind, pure, Except.pure, he, List.length_cons]
      rw [if_neg (by omega)]
    obtain ⟨t, hloop, ht, heq⟩ := Decoder.decodeLoop_encodeFields fields
      (e := { e with pendingSizeUpdate := none })
      (d := { d with dynamicTable := d.dynamicTable.setCapacity capacity }) h hc [] hm hsize
      (show _ ≤ (tail ++ (({ e with pendingSizeUpdate := none } : Encoder).encodeFields fields).2).length by simp)
    simp only [Encoder.encode, hu, he, List.cons_append, List.length_cons, Decoder.decodeLoop]
    rw [← List.cons_append, hone]
    simp only [List.cons_append, List.drop_succ_cons, List.drop_left, hloop, List.nil_append]
    exact ⟨t, rfl, ht, heq⟩

end Soyokaze.Hpack

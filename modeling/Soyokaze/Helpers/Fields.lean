import Soyokaze.Helpers.Text
import Soyokaze.Lib.Eviction

/-!
# The field vocabulary HPACK and QPACK share

A field is a name and a value. The tables both formats keep are searched by a
mark of the name (`Mark`), a hash: two marks that differ stand for two names
that differ, and two that agree are confirmed against the names.

* `Entry.named_eq`: an entry answers to a field exactly where the names agree;
* `StaticIndex.find_sound`: what a static table's reverse index answers carries
  the name, and the value too where it says so.
-/

namespace Soyokaze

/-- One field: a name and a value. -/
structure HeaderField where
  name : Text
  value : Text
  deriving DecidableEq

namespace HeaderField

/-- The per-entry overhead charged against a dynamic table's size. -/
def OVERHEAD : ℕ := 32

/-- A field of the source, written out. -/
def lit (name value : String) : HeaderField := ⟨.lit name, .lit value⟩

/-- What a field costs against a dynamic table's size. -/
def size (f : HeaderField) : ℕ := f.name.len + f.value.len + OVERHEAD

theorem overhead_le_size (f : HeaderField) : OVERHEAD ≤ f.size := Nat.le_add_left _ _

theorem size_pos (f : HeaderField) : 0 < f.size :=
  Nat.lt_of_lt_of_le (by decide) f.overhead_le_size

/-- Whether the field is one that must never be indexed. -/
def sensitive (f : HeaderField) : Bool :=
  match f.name.octets with
  | [] => false
  | first :: _ =>
    if f.name.len = 6 ∧ first = 0x63 then f.name == .lit "cookie"
    else if f.name.len = 10 ∧ first = 0x73 then f.name == .lit "set-cookie"
    else if f.name.len = 13 ∧ first = 0x61 then f.name == .lit "authorization"
    else if f.name.len = 19 ∧ first = 0x70 then f.name == .lit "proxy-authorization"
    else false

/-- The names whose fields are never indexed. -/
def SENSITIVE : List Text :=
  [.lit "authorization", .lit "proxy-authorization", .lit "cookie", .lit "set-cookie"]

/-- The quick look at the length and the first octet misses none of the names. -/
theorem sensitive_iff (f : HeaderField) : f.sensitive = true ↔ f.name ∈ SENSITIVE := by
  have hlit : ∀ n ∈ SENSITIVE, HeaderField.sensitive ⟨n, f.value⟩ = true := by
    intro n hn
    simp only [SENSITIVE, List.mem_cons, List.not_mem_nil, or_false] at hn
    rcases hn with rfl | rfl | rfl | rfl <;> rfl
  constructor
  · intro h
    rw [sensitive] at h
    split at h
    · cases h
    · split_ifs at h <;> simp only [beq_iff_eq] at h <;> simp [SENSITIVE, h]
  · intro h
    exact hlit f.name h

end HeaderField

/-- The size of a field section, as a decoder counts it. -/
def sectionSize (fields : List HeaderField) : ℕ := Eviction.total HeaderField.size fields

@[simp] theorem sectionSize_cons (field : HeaderField) (fields : List HeaderField) :
    sectionSize (field :: fields) = field.size + sectionSize fields := Eviction.total_cons _ _ _

theorem size_le_sectionSize {field : HeaderField} {fields : List HeaderField} (h : field ∈ fields) :
    field.size ≤ sectionSize fields := by
  obtain ⟨before, after, rfl⟩ := List.append_of_mem h
  rw [sectionSize, Eviction.total_append, Eviction.total_cons]
  omega

/-! ## Marks -/

namespace FieldHasher

/-- What an empty hash starts from. -/
def SEED : UInt64 := 0xcbf29ce484222325
/-- The odd multiplier each word is mixed with. -/
def FACTOR : UInt64 := 0x9e3779b97f4a7c15

/-- Mixes one word in. -/
def mix (hash word : UInt64) : UInt64 := ((hash <<< 5 ||| hash >>> 59) ^^^ word) * FACTOR

/-- Octets as a little-endian word. -/
def fromLe (bytes : Octets) : UInt64 := bytes.foldr (fun o word => word <<< 8 ||| o.toUInt64) 0

/-- Fewer than eight octets, gathered into a word. -/
def short (bytes : Octets) : UInt64 :=
  let length := bytes.length
  if length = 0 then 0
  else if length ≤ 3 then
    (bytes.getD 0 0).toUInt64 ||| (bytes.getD (length / 2) 0).toUInt64 <<< 8 |||
      (bytes.getD (length - 1) 0).toUInt64 <<< 16
  else fromLe (bytes.take 4) ||| fromLe (bytes.drop (length - 4)) <<< 32

/-- Mixes whole words in, eight octets at a time. -/
def words (bytes : Octets) (hash : UInt64) : UInt64 :=
  if 8 ≤ bytes.length then words (bytes.drop 8) (mix hash (fromLe (bytes.take 8))) else hash
termination_by bytes.length

/-- Mixes octets into a hasher that has seen nothing yet, and finishes it. -/
def finish (bytes : Octets) : UInt64 :=
  let length := bytes.length
  let hash :=
    if 8 ≤ length then
      let hash := words bytes SEED
      -- The last word is read to end on the final octet, so it overlaps.
      if length % 8 ≠ 0 then mix hash (fromLe (bytes.drop (length - 8))) else hash
    else mix SEED (short bytes)
  let hash := mix hash (.ofNat length)
  hash ^^^ hash >>> 32

end FieldHasher

/-- A stand-in for a field name. -/
structure Mark where
  hash : UInt64
  deriving DecidableEq

/-- The mark of a name. -/
def Mark.of (name : Text) : Mark := ⟨FieldHasher.finish name.octets⟩

/-- One entry of a dynamic table: the field, and the mark of its name. -/
structure Entry where
  field : HeaderField
  mark : Mark
  marked : mark = Mark.of field.name
  deriving DecidableEq

namespace Entry

/-- An entry holding a field. -/
def of (field : HeaderField) : Entry := ⟨field, .of field.name, rfl⟩

@[simp] theorem of_field (field : HeaderField) : (of field).field = field := rfl

@[ext] theorem ext {a b : Entry} (h : a.field = b.field) : a = b := by
  obtain ⟨field, mark, rfl⟩ := a
  obtain ⟨field', mark', rfl⟩ := b
  cases h
  rfl

@[simp] theorem of_self (e : Entry) : of e.field = e := ext (of_field _)

/-- What the field costs against a table's size. -/
def size (e : Entry) : ℕ := e.field.size

/-- Whether this entry's name is the marked field's. -/
def named (e : Entry) (mark : Mark) (field : HeaderField) : Bool :=
  e.mark == mark && e.field.name == field.name

/-- Whether this entry's value is the field's. -/
def valued (e : Entry) (field : HeaderField) : Bool := e.field.value == field.value

/-- The mark turns no entry away that carries the name. -/
theorem named_eq (e : Entry) (field : HeaderField) :
    e.named (.of field.name) field = (e.field.name == field.name) := by
  rw [named, e.marked]
  by_cases h : e.field.name = field.name <;> simp [h]

end Entry

/-! ## The reverse index of a static table -/

/-- Every static table entry that shares one name. -/
structure NameEntry where
  name : Text
  /-- The lowest index carrying this name. -/
  first : ℕ
  /-- Each value stored under this name, with its index. -/
  values : List (Text × ℕ)

/-- A reverse index over a static table, keyed by the mark of the name. -/
structure StaticIndex where
  byName : List (Mark × NameEntry)

namespace StaticIndex

/-- Adds one value under the mark of its name. -/
def push (name value : Text) (index : ℕ) : List (Mark × NameEntry) → List (Mark × NameEntry)
  | [] => [(.of name, ⟨name, index, [(value, index)]⟩)]
  | (mark, entry) :: rest =>
    if mark = .of name then (mark, { entry with values := entry.values ++ [(value, index)] }) :: rest
    else (mark, entry) :: push name value index rest

/-- Indexes `entries`, numbering the first one `base`. -/
def new (entries : List HeaderField) (base : ℕ) : StaticIndex :=
  ⟨(entries.zipIdx base).foldl (fun byName (entry, index) => push entry.name entry.value index byName) []⟩

/-- Looks a field up: the lowest index carrying the name, and the index carrying
    both name and value if there is one. -/
def lookup (i : StaticIndex) (name value : Text) : Option ℕ × Option ℕ :=
  match (i.byName.lookup (.of name)).filter fun entry => entry.name == name with
  | none => (none, none)
  | some entry => (some entry.first, (entry.values.find? fun v => v.1 == value).map (·.2))

/-- What an index says of the table it was built over: the entries at the
    indices it names carry the names and values it names them for. -/
def sound (i : StaticIndex) (entries : List HeaderField) (base : ℕ) : Bool :=
  i.byName.all fun (_, entry) =>
    base ≤ entry.first && (entries[entry.first - base]?).any (·.name == entry.name) &&
    entry.values.all fun (value, index) =>
      base ≤ index && entries[index - base]? == some ⟨entry.name, value⟩

theorem lookup_sound {i : StaticIndex} {entries : List HeaderField} {base : ℕ}
    (h : i.sound entries base = true) (name value : Text) :
    (∀ index ∈ (i.lookup name value).1, base ≤ index ∧ ∃ f, entries[index - base]? = some f ∧ f.name = name) ∧
      ∀ index ∈ (i.lookup name value).2, base ≤ index ∧ entries[index - base]? = some ⟨name, value⟩ := by
  rw [lookup]
  split
  · simp
  · next entry he =>
    obtain ⟨hlookup, hname⟩ := Option.filter_eq_some_iff.1 he
    have hmem : (Mark.of name, entry) ∈ i.byName := by
      obtain ⟨_, _, hl, -⟩ := List.lookup_eq_some_iff.1 hlookup
      rw [hl]
      simp
    obtain rfl : entry.name = name := beq_iff_eq.1 hname
    simp only [sound, List.all_eq_true, Bool.and_eq_true, decide_eq_true_eq, beq_iff_eq] at h
    obtain ⟨⟨hle, hfirst⟩, hvalues⟩ := h _ hmem
    constructor
    · rintro index ⟨⟩
      obtain ⟨f, hf, hn⟩ := (Option.any_eq_true _ _).1 hfirst
      exact ⟨hle, f, hf, beq_iff_eq.1 hn⟩
    · intro index hindex
      obtain ⟨⟨v, _⟩, hfind, rfl⟩ := Option.map_eq_some_iff.1 hindex
      have hv := List.find?_some hfind
      obtain rfl : v = value := beq_iff_eq.1 hv
      exact hvalues _ (List.mem_of_find?_eq_some hfind)

/-- Finds a field; the flag says whether the value matched too. -/
def find (i : StaticIndex) (field : HeaderField) : Option (ℕ × Bool) :=
  match i.lookup field.name field.value with
  | (_, some index) => some (index, true)
  | (some index, none) => some (index, false)
  | (none, none) => none

/-- What is found carries the name, and is the field where the flag says so. -/
theorem find_sound {i : StaticIndex} {entries : List HeaderField} {base : ℕ}
    (h : i.sound entries base = true) {field : HeaderField} {index : ℕ} {exact : Bool}
    (hf : i.find field = some (index, exact)) :
    base ≤ index ∧ ∃ f, entries[index - base]? = some f ∧ f.name = field.name ∧
      (exact = true → f = field) := by
  have hs := lookup_sound h field.name field.value
  rw [find] at hf
  generalize i.lookup field.name field.value = found at hs hf
  match found with
  | (_, some _) =>
    cases hf
    obtain ⟨hle, he⟩ := hs.2 _ rfl
    exact ⟨hle, field, he, rfl, fun _ => rfl⟩
  | (some _, none) =>
    cases hf
    obtain ⟨hle, f, he, hn⟩ := hs.1 _ rfl
    exact ⟨hle, f, he, hn, by simp⟩
  | (none, none) => cases hf

end StaticIndex

end Soyokaze

import Soyokaze.Lib.Eviction
import Soyokaze.Helpers.Fields

/-!
# QPACK: the tables

Unlike the HPACK table, the dynamic table counts insertions for their whole
life, so an entry keeps one absolute index whatever is inserted after it.

* `DynamicTable.entries_insert`, `DynamicTable.entries_setCapacity`: both
  operations keep what fits of the entries;
* `DynamicTable.Follows`: a later state of the table, which has every entry of
  the earlier one that it did not evict, at the same index;
* `DynamicTable.admits_spec`: an insertion admitted against a floor evicts
  nothing at or above it.
-/

namespace Soyokaze.Qpack

open Eviction

/-! ## The static table -/

namespace StaticTable

/-- The entries, indexed from 0. -/
def entries : List HeaderField := [
  .lit ":authority" "", .lit ":path" "/", .lit "age" "0", .lit "content-disposition" "",
  .lit "content-length" "0", .lit "cookie" "", .lit "date" "", .lit "etag" "",
  .lit "if-modified-since" "", .lit "if-none-match" "", .lit "last-modified" "", .lit "link" "",
  .lit "location" "", .lit "referer" "", .lit "set-cookie" "", .lit ":method" "CONNECT",
  .lit ":method" "DELETE", .lit ":method" "GET", .lit ":method" "HEAD", .lit ":method" "OPTIONS",
  .lit ":method" "POST", .lit ":method" "PUT", .lit ":scheme" "http", .lit ":scheme" "https",
  .lit ":status" "103", .lit ":status" "200", .lit ":status" "304", .lit ":status" "404",
  .lit ":status" "503", .lit "accept" "*/*", .lit "accept" "application/dns-message",
  .lit "accept-encoding" "gzip, deflate, br", .lit "accept-ranges" "bytes",
  .lit "access-control-allow-headers" "cache-control",
  .lit "access-control-allow-headers" "content-type", .lit "access-control-allow-origin" "*",
  .lit "cache-control" "max-age=0", .lit "cache-control" "max-age=2592000",
  .lit "cache-control" "max-age=604800", .lit "cache-control" "no-cache",
  .lit "cache-control" "no-store", .lit "cache-control" "public, max-age=31536000",
  .lit "content-encoding" "br", .lit "content-encoding" "gzip",
  .lit "content-type" "application/dns-message", .lit "content-type" "application/javascript",
  .lit "content-type" "application/json",
  .lit "content-type" "application/x-www-form-urlencoded", .lit "content-type" "image/gif",
  .lit "content-type" "image/jpeg", .lit "content-type" "image/png",
  .lit "content-type" "text/css", .lit "content-type" "text/html; charset=utf-8",
  .lit "content-type" "text/plain", .lit "content-type" "text/plain;charset=utf-8",
  .lit "range" "bytes=0-", .lit "strict-transport-security" "max-age=31536000",
  .lit "strict-transport-security" "max-age=31536000; includesubdomains",
  .lit "strict-transport-security" "max-age=31536000; includesubdomains; preload",
  .lit "vary" "accept-encoding", .lit "vary" "origin", .lit "x-content-type-options" "nosniff",
  .lit "x-xss-protection" "1; mode=block", .lit ":status" "100", .lit ":status" "204",
  .lit ":status" "206", .lit ":status" "302", .lit ":status" "400", .lit ":status" "403",
  .lit ":status" "421", .lit ":status" "425", .lit ":status" "500", .lit "accept-language" "",
  .lit "access-control-allow-credentials" "FALSE",
  .lit "access-control-allow-credentials" "TRUE", .lit "access-control-allow-headers" "*",
  .lit "access-control-allow-methods" "get",
  .lit "access-control-allow-methods" "get, post, options",
  .lit "access-control-allow-methods" "options",
  .lit "access-control-expose-headers" "content-length",
  .lit "access-control-request-headers" "content-type",
  .lit "access-control-request-method" "get", .lit "access-control-request-method" "post",
  .lit "alt-svc" "clear", .lit "authorization" "",
  .lit "content-security-policy" "script-src 'none'; object-src 'none'; base-uri 'none'",
  .lit "early-data" "1", .lit "expect-ct" "", .lit "forwarded" "", .lit "if-range" "",
  .lit "origin" "", .lit "purpose" "prefetch", .lit "server" "", .lit "timing-allow-origin" "*",
  .lit "upgrade-insecure-requests" "1", .lit "user-agent" "", .lit "x-forwarded-for" "",
  .lit "x-frame-options" "deny", .lit "x-frame-options" "sameorigin"]

/-- The reverse index over the table. -/
def index : StaticIndex := .new entries 0

theorem sound_index : index.sound entries 0 = true := by decide +kernel

theorem length_entries : entries.length = 99 := rfl

attribute [irreducible] entries index

/-- Finds a field; the flag says whether the value matched too. -/
def find (field : HeaderField) : Option (ℕ × Bool) := index.find field

theorem find_sound {field : HeaderField} {i : ℕ} {exact : Bool} (h : find field = some (i, exact)) :
    ∃ f, entries[i]? = some f ∧ f.name = field.name ∧ (exact = true → f = field) :=
  (StaticIndex.find_sound sound_index h).2

end StaticTable

/-! ## The dynamic table -/

/-- The largest `u64`, which is also how "no entry at all" is written. -/
def MAX : ℕ := 2 ^ 64 - 1

/-- The table of fields built up over one direction, newest first. -/
structure DynamicTable where
  entries : List Entry
  size : ℕ
  capacity : ℕ
  insertedCount : ℕ
  size_eq : size = total Entry.size entries
  size_le : size ≤ capacity
  held_le : entries.length ≤ insertedCount

namespace DynamicTable

/-- The capacity assumed before the peer's settings arrive. -/
def DEFAULT_CAPACITY : ℕ := 0

/-- An empty table. -/
def new (capacity : ℕ) : DynamicTable :=
  ⟨[], 0, capacity, 0, zero_eq_total Entry.size, Nat.zero_le capacity, Nat.zero_le 0⟩

@[ext] theorem ext {s t : DynamicTable} (he : s.entries = t.entries) (hc : s.capacity = t.capacity)
    (hi : s.insertedCount = t.insertedCount) : s = t := by
  obtain ⟨entries, size, capacity, count, rfl, hs, hl⟩ := s
  obtain ⟨entries', size', capacity', count', rfl, hs', hl'⟩ := t
  obtain rfl : entries = entries' := he
  obtain rfl : capacity = capacity' := hc
  obtain rfl : count = count' := hi
  rfl

/-- Whether a field could ever fit in the table as it is sized now. -/
def fits (t : DynamicTable) (field : HeaderField) : Bool := field.size ≤ t.capacity

theorem evict_entries (t : DynamicTable) {capacity extra : ℕ} (h : extra ≤ capacity) :
    evict Entry.size capacity extra t.entries t.size =
      (fit Entry.size (capacity - extra) t.entries,
        total Entry.size (fit Entry.size (capacity - extra) t.entries)) := by
  rw [t.size_eq, evict_eq h]

/-- What is held once room has been made. -/
theorem evict_spec (t : DynamicTable) (capacity extra : ℕ) (h : extra ≤ capacity) (entries : List Entry)
    (held : ℕ) (he : evict Entry.size capacity extra t.entries t.size = (entries, held)) :
    held = total Entry.size entries ∧ held + extra ≤ capacity ∧ entries.length ≤ t.insertedCount := by
  rw [t.evict_entries h] at he
  cases he
  have := @total_fit_le _ Entry.size (capacity - extra) t.entries
  exact ⟨rfl, by omega, (fit_isPrefix _ _).length_le.trans t.held_le⟩

theorem size_insert (t : DynamicTable) (field : HeaderField) (h : t.fits field = true)
    (entries : List Entry) (held : ℕ)
    (he : evict Entry.size t.capacity field.size t.entries t.size = (entries, held)) :
    held + field.size = total Entry.size (.of field :: entries) := by
  rw [total_cons, ← (t.evict_spec _ _ (of_decide_eq_true h) entries held he).1, Nat.add_comm]
  rfl

theorem size_insert_le (t : DynamicTable) (field : HeaderField) (h : t.fits field = true)
    (entries : List Entry) (held : ℕ)
    (he : evict Entry.size t.capacity field.size t.entries t.size = (entries, held)) :
    held + field.size ≤ t.capacity := (t.evict_spec _ _ (of_decide_eq_true h) entries held he).2.1

theorem held_insert (t : DynamicTable) (field : HeaderField) (h : t.fits field = true)
    (entries : List Entry) (held : ℕ)
    (he : evict Entry.size t.capacity field.size t.entries t.size = (entries, held)) :
    (Entry.of field :: entries).length ≤ t.insertedCount + 1 :=
  Nat.succ_le_succ (t.evict_spec _ _ (of_decide_eq_true h) entries held he).2.2

theorem size_setCapacity (t : DynamicTable) (capacity : ℕ) (entries : List Entry) (held : ℕ)
    (he : evict Entry.size capacity 0 t.entries t.size = (entries, held)) :
    held = total Entry.size entries := (t.evict_spec _ _ (Nat.zero_le _) entries held he).1

theorem size_setCapacity_le (t : DynamicTable) (capacity : ℕ) (entries : List Entry) (held : ℕ)
    (he : evict Entry.size capacity 0 t.entries t.size = (entries, held)) : held ≤ capacity :=
  (t.evict_spec _ _ (Nat.zero_le _) entries held he).2.1

theorem held_setCapacity (t : DynamicTable) (capacity : ℕ) (entries : List Entry) (held : ℕ)
    (he : evict Entry.size capacity 0 t.entries t.size = (entries, held)) :
    entries.length ≤ t.insertedCount := (t.evict_spec _ _ (Nat.zero_le _) entries held he).2.2

/-- Inserts a field that fits, evicting from the back to make room. Its absolute
    index is the count before. -/
def insert (t : DynamicTable) (field : HeaderField) (h : t.fits field = true) : DynamicTable :=
  match he : evict Entry.size t.capacity field.size t.entries t.size with
  | (entries, held) =>
    ⟨.of field :: entries, held + field.size, t.capacity, t.insertedCount + 1,
      t.size_insert field h entries held he, t.size_insert_le field h entries held he,
      t.held_insert field h entries held he⟩

/-- The absolute index of the oldest entry still held. -/
def oldest (t : DynamicTable) : ℕ := t.insertedCount - t.entries.length

/-- Walks the entries in the order they would be evicted, up to the first one
    that need not be, and stops short of one at or above `floor`. -/
def admitsLoop (capacity size floor : ℕ) : List Entry → (absolute held : ℕ) → Bool
  | [], _, held => held + size ≤ capacity
  | entry :: entries, absolute, held =>
    if held + size ≤ capacity then true
    else if floor ≤ absolute then false
    else admitsLoop capacity size floor entries (absolute + 1) (held - entry.size)

/-- Whether a field can be inserted without evicting anything at or above `floor`. -/
def admits (t : DynamicTable) (field : HeaderField) (floor : ℕ) : Bool :=
  t.fits field && admitsLoop t.capacity field.size floor t.entries.reverse t.oldest t.size

/-- The entry at an absolute index, unless it was evicted or never inserted. -/
def get (t : DynamicTable) (absoluteIndex : ℕ) : Option HeaderField :=
  if absoluteIndex + 1 ≤ t.insertedCount then
    t.entries[t.insertedCount - (absoluteIndex + 1)]?.map (·.field)
  else none

/-- Changes the capacity, evicting until the table is under it. -/
def setCapacity (t : DynamicTable) (capacity : ℕ) : DynamicTable :=
  match he : evict Entry.size capacity 0 t.entries t.size with
  | (entries, held) =>
    ⟨entries, held, capacity, t.insertedCount, t.size_setCapacity capacity entries held he,
      t.size_setCapacity_le capacity entries held he, t.held_setCapacity capacity entries held he⟩

/-- The successor of a `u64`, which wraps. -/
def succ (index : ℕ) : ℕ := (index + 1) % 2 ^ 64

/-- The absolute index for one counted back from the most recent insertion. -/
def relative (t : DynamicTable) (index : ℕ) : Option ℕ :=
  if succ index ≤ t.insertedCount then some (t.insertedCount - succ index) else none

/-- The absolute index for one counted back from `base`. -/
def indexed (t : DynamicTable) (base index : ℕ) : Option ℕ :=
  (if succ index ≤ base then some (base - succ index) else none).filter (· < t.insertedCount)

/-- The absolute index for one counted forward from `base`. -/
def postBase (t : DynamicTable) (base index : ℕ) : Option ℕ :=
  (if base + index ≤ MAX then some (base + index) else none).filter (· < t.insertedCount)

/-- Walks the entries from the most recent for an exact match below `below`, the
    first name match below it, and an exact match anywhere. -/
def probeLoop (field : HeaderField) (mark : Mark) (below : ℕ) :
    List Entry → (absolute : ℕ) → Option ℕ → Bool → Option (ℕ × Bool) × Bool
  | [], _, nameOnly, anywhere => (nameOnly.map (·, false), anywhere)
  | entry :: entries, absolute, nameOnly, anywhere =>
    if !entry.named mark field then probeLoop field mark below entries (absolute - 1) nameOnly anywhere
    else if entry.valued field then
      if absolute < below then (some (absolute, true), true)
      else probeLoop field mark below entries (absolute - 1) nameOnly true
    else if absolute < below then
      probeLoop field mark below entries (absolute - 1) (nameOnly.or (some absolute)) anywhere
    else probeLoop field mark below entries (absolute - 1) nameOnly anywhere

/-- Finds the best reference below `below`, and whether an exact copy exists at all. -/
def probe (t : DynamicTable) (field : HeaderField) (below : ℕ) : Option (ℕ × Bool) × Bool :=
  probeLoop field (.of field.name) below t.entries (t.insertedCount - 1) none false

/-! ## What the operations keep -/

/-- Inserting keeps what fits of the entries with the new one in front. -/
theorem entries_insert (t : DynamicTable) (field : HeaderField) (h : t.fits field = true) :
    (t.insert field h).entries = fit Entry.size t.capacity (.of field :: t.entries) := by
  have hle : field.size ≤ t.capacity := of_decide_eq_true h
  have hsize : (Entry.of field).size = field.size := rfl
  rw [insert]
  split
  next entries held he =>
  rw [t.evict_entries hle] at he
  cases he
  rw [fit_cons_of_le (hsize ▸ hle), hsize]

@[simp] theorem capacity_insert (t : DynamicTable) (field : HeaderField) (h : t.fits field = true) :
    (t.insert field h).capacity = t.capacity := by rw [insert]

@[simp] theorem insertedCount_insert (t : DynamicTable) (field : HeaderField) (h : t.fits field = true) :
    (t.insert field h).insertedCount = t.insertedCount + 1 := by rw [insert]

/-- Changing the capacity keeps what fits of the entries. -/
theorem entries_setCapacity (t : DynamicTable) (capacity : ℕ) :
    (t.setCapacity capacity).entries = fit Entry.size capacity t.entries := by
  rw [setCapacity]
  split
  next entries held he =>
  rw [t.evict_entries (Nat.zero_le _), Nat.sub_zero, Prod.mk.injEq] at he
  exact he.1.symm

@[simp] theorem capacity_setCapacity (t : DynamicTable) (capacity : ℕ) :
    (t.setCapacity capacity).capacity = capacity := by rw [setCapacity]

@[simp] theorem insertedCount_setCapacity (t : DynamicTable) (capacity : ℕ) :
    (t.setCapacity capacity).insertedCount = t.insertedCount := by rw [setCapacity]

theorem setCapacity_new (c capacity : ℕ) : (new c).setCapacity capacity = new capacity :=
  ext (entries_setCapacity _ _) (capacity_setCapacity _ _) (insertedCount_setCapacity _ _)

/-- Each entry costs its overhead, which bounds their number. -/
theorem length_le (t : DynamicTable) : t.entries.length * 32 ≤ t.capacity :=
  (length_mul_le_total Entry.size (fun e => e.field.overhead_le_size) t.entries).trans
    (t.size_eq ▸ t.size_le)

theorem length_add_oldest (t : DynamicTable) : t.entries.length + t.oldest = t.insertedCount := by
  rw [oldest, Nat.add_sub_cancel' t.held_le]

/-- The entries held are those from the oldest on. -/
theorem isSome_get_iff {t : DynamicTable} {i : ℕ} :
    (t.get i).isSome = true ↔ t.oldest ≤ i ∧ i < t.insertedCount := by
  have hlen := t.length_add_oldest
  rw [get]
  split_ifs with h
  · rw [Option.isSome_map, Option.isSome_iff_ne_none, ne_eq, List.getElem?_eq_none_iff]
    omega
  · simp only [Option.isSome_none, Bool.false_eq_true, false_iff]
    omega

/-! ## Later states -/

/-- A later state of a table: it holds every entry of the earlier one that it has
    not evicted, at the same index. -/
structure Follows (t t' : DynamicTable) : Prop where
  count : t.insertedCount ≤ t'.insertedCount
  oldest : t.oldest ≤ t'.oldest
  get : ∀ i, t'.oldest ≤ i → i < t.insertedCount → t'.get i = t.get i

theorem Follows.refl (t : DynamicTable) : Follows t t := ⟨le_rfl, le_rfl, fun _ _ _ => rfl⟩

theorem Follows.trans {t t' t'' : DynamicTable} (h : Follows t t') (h' : Follows t' t'') :
    Follows t t'' :=
  ⟨h.count.trans h'.count, h.oldest.trans h'.oldest, fun i hle hlt =>
    (h'.get i hle (hlt.trans_le h.count)).trans (h.get i (h'.oldest.trans hle) hlt)⟩

/-- Keeping a newest-first prefix of the entries, and adding newer ones, is a later state. -/
theorem Follows.of_isPrefix {t t' : DynamicTable} (added : List Entry) {kept : List Entry}
    (he : t'.entries = added ++ kept) (hk : kept <+: t.entries)
    (hc : t'.insertedCount = t.insertedCount + added.length) : Follows t t' := by
  have hlen := t.length_add_oldest
  have hlen' := t'.length_add_oldest
  have hle := hk.length_le
  rw [he, List.length_append] at hlen'
  refine ⟨by omega, by omega, fun i hi hlt => ?_⟩
  obtain ⟨rest, hrest⟩ := hk
  rw [DynamicTable.get, DynamicTable.get, if_pos (by omega), if_pos (by omega), he, ← hrest,
    List.getElem?_append_right (by omega), List.getElem?_append_left (by omega)]
  congr 2
  omega

theorem follows_insert (t : DynamicTable) (field : HeaderField) (h : t.fits field = true) :
    Follows t (t.insert field h) :=
  .of_isPrefix [.of field]
    (by rw [entries_insert, fit_cons_of_le (show (Entry.of field).size ≤ _ from of_decide_eq_true h)]
        rfl)
    (fit_isPrefix _ _) (insertedCount_insert _ _ _)

theorem follows_setCapacity (t : DynamicTable) (capacity : ℕ) : Follows t (t.setCapacity capacity) :=
  .of_isPrefix [] (entries_setCapacity t capacity) (fit_isPrefix _ _)
    (insertedCount_setCapacity _ _)

/-- The entry just inserted. -/
theorem get_insert (t : DynamicTable) (field : HeaderField) (h : t.fits field = true) :
    (t.insert field h).get t.insertedCount = some field := by
  rw [get, if_pos (by rw [insertedCount_insert]), insertedCount_insert, Nat.sub_self, entries_insert,
    fit_cons_of_le (show (Entry.of field).size ≤ _ from of_decide_eq_true h)]
  rfl

/-! ## Admission -/

/-- The walk over what would be evicted stops short of the floor. -/
theorem admitsLoop_spec {capacity size floor : ℕ} (hs : size ≤ capacity) (entries : List Entry)
    (absolute : ℕ) :
    admitsLoop capacity size floor entries.reverse absolute (total Entry.size entries) = true ↔
      fit Entry.size (capacity - size) entries = entries ∨
        absolute + entries.length - (fit Entry.size (capacity - size) entries).length ≤ floor := by
  induction entries using List.reverseRecOn generalizing absolute with
  | nil => simp [admitsLoop, hs, fit]
  | append_singleton entries e ih =>
    have hkept := @fit_isPrefix _ Entry.size (capacity - size) (entries ++ [e])
    have hlen : (entries ++ [e]).length = entries.length + 1 := by simp
    rw [List.reverse_append, List.reverse_singleton, List.singleton_append, admitsLoop]
    by_cases hfit : total Entry.size (entries ++ [e]) + size ≤ capacity
    · rw [if_pos hfit]
      exact iff_of_true rfl (.inl (fit_of_total_le (by omega)))
    rw [if_neg hfit]
    have hne : fit Entry.size (capacity - size) (entries ++ [e]) ≠ entries ++ [e] := fun h => by
      rw [fit_eq_self_iff] at h
      omega
    by_cases hfloor : floor ≤ absolute
    · rw [if_pos hfloor]
      refine iff_of_false (by decide) (not_or.2 ⟨hne, fun h => hne ?_⟩)
      exact hkept.eq_of_length (le_antisymm hkept.length_le (by omega))
    · -- The entry goes, and the walk goes on with the ones after it.
      have hcut : fit Entry.size (capacity - size) (entries ++ [e]) =
          fit Entry.size (capacity - size) entries := fit_concat (by omega)
      have hle := (@fit_isPrefix _ Entry.size (capacity - size) entries).length_le
      have htotal : total Entry.size (entries ++ [e]) - e.size = total Entry.size entries := by simp
      rw [if_neg hfloor, htotal, ih, hcut, hlen]
      constructor
      · rintro (h | h)
        · rw [h]
          exact .inr (by omega)
        · exact .inr (by omega)
      · rintro (h | h)
        · rw [h, hlen] at hle
          omega
        · exact .inr (by omega)

theorem oldest_insert (t : DynamicTable) (field : HeaderField) (h : t.fits field = true) :
    (t.insert field h).oldest =
      t.oldest + t.entries.length - (fit Entry.size (t.capacity - field.size) t.entries).length := by
  have hlen := t.length_add_oldest
  rw [oldest, insertedCount_insert, entries_insert,
    fit_cons_of_le (show (Entry.of field).size ≤ _ from of_decide_eq_true h), List.length_cons,
    show (Entry.of field).size = field.size from rfl]
  omega

/-- An insertion is admitted against a floor exactly where it fits and evicts
    nothing at or above the floor. -/
theorem admits_spec (t : DynamicTable) (field : HeaderField) (floor : ℕ) :
    t.admits field floor = true ↔
      ∃ h : t.fits field = true, (t.insert field h).oldest ≤ max t.oldest floor := by
  rw [admits, Bool.and_eq_true]
  constructor
  · rintro ⟨hfit, hloop⟩
    refine ⟨hfit, ?_⟩
    rw [t.size_eq, admitsLoop_spec (of_decide_eq_true hfit)] at hloop
    rw [oldest_insert]
    rcases hloop with h | h
    · rw [h, Nat.add_sub_cancel]
      exact le_max_left _ _
    · exact h.trans (le_max_right _ _)
  · rintro ⟨hfit, hle⟩
    refine ⟨hfit, ?_⟩
    have hkept := @fit_isPrefix _ Entry.size (t.capacity - field.size) t.entries
    have hlen := hkept.length_le
    rw [t.size_eq, admitsLoop_spec (of_decide_eq_true hfit)]
    rw [oldest_insert] at hle
    rcases le_max_iff.1 hle with h | h
    · exact .inl (hkept.eq_of_length (by omega))
    · exact .inr h

/-! ## Searching -/

/-- What a search answers is below `below`, is held, and carries the name, and
    the value too where it says so. -/
theorem probeLoop_sound {t : DynamicTable} {field : HeaderField} {below : ℕ} (entries : List Entry)
    (before : List Entry) (hb : before ++ entries = t.entries) {nameOnly : Option ℕ} {anywhere : Bool}
    (hn : ∀ i ∈ nameOnly, i < below ∧ ∃ f, t.get i = some f ∧ f.name = field.name)
    {i : ℕ} {exact : Bool}
    (h : (probeLoop field (.of field.name) below entries (t.insertedCount - 1 - before.length) nameOnly
      anywhere).1 = some (i, exact)) :
    i < below ∧ ∃ f, t.get i = some f ∧ f.name = field.name ∧ (exact = true → f = field) := by
  induction entries generalizing before nameOnly anywhere with
  | nil =>
    obtain ⟨o, ho, heq⟩ := Option.map_eq_some_iff.1 h
    cases heq
    obtain ⟨hlt, f, hf, hname⟩ := hn _ ho
    exact ⟨hlt, f, hf, hname, by simp⟩
  | cons entry entries ih =>
    have hlen := t.held_le
    rw [← hb, List.length_append, List.length_cons] at hlen
    have hget : t.get (t.insertedCount - 1 - before.length) = some entry.field := by
      rw [get, if_pos (by omega), ← hb, List.getElem?_append_right (by omega),
        show t.insertedCount - (t.insertedCount - 1 - before.length + 1) - before.length = 0 by omega]
      rfl
    have next := fun n a hn => @ih (before ++ [entry]) (by simpa using hb) n a hn
    rw [List.length_append, List.length_singleton, Nat.sub_add_eq] at next
    rw [probeLoop, Entry.named_eq] at h
    split_ifs at h with hname hvalue hbelow hbelow
    · exact next _ _ hn h
    · cases h
      have hname : entry.field.name = field.name := by simpa using hname
      have hvalue : entry.field.value = field.value := by simpa [Entry.valued] using hvalue
      refine ⟨hbelow, entry.field, hget, hname, fun _ => ?_⟩
      obtain ⟨⟨n, v⟩, _, _⟩ := entry
      obtain ⟨n', v'⟩ := field
      cases hname
      cases hvalue
      rfl
    · exact next _ _ hn h
    · refine next _ _ ?_ h
      intro o ho
      rcases nameOnly with - | o'
      · cases ho
        exact ⟨hbelow, entry.field, hget, by simpa using hname⟩
      · exact hn o ho
    · exact next _ _ hn h

theorem probe_sound {t : DynamicTable} {field : HeaderField} {below i : ℕ} {exact : Bool}
    (h : (t.probe field below).1 = some (i, exact)) :
    i < below ∧ ∃ f, t.get i = some f ∧ f.name = field.name ∧ (exact = true → f = field) :=
  probeLoop_sound t.entries [] rfl (by simp) h

end DynamicTable

end Soyokaze.Qpack

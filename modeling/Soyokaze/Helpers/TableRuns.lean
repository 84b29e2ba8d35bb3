import Soyokaze.Helpers.Hpack
import Soyokaze.Helpers.QpackTable

/-!
# Runs of the dynamic tables

Both tables keep, besides their entries, a record of how large these are; the
QPACK one also counts what was ever inserted. The records are part of every
update, and an eviction loop changes them an entry at a time.

* `Hpack.DynamicTable.kept`, `Qpack.DynamicTable.kept`: what one
  change of a table keeps of the entries;
* `Qpack.DynamicTable.follows_after`: however many changes later, an entry
  still held is at the index it was inserted at;
* `tables_represented`: both, over every run from an empty table.
-/

namespace Soyokaze

open Eviction

/-- A change of a dynamic table. -/
inductive TableChange
  | insert (field : HeaderField)
  | setCapacity (capacity : ℕ)

namespace Hpack.DynamicTable

/-- The table after one change. -/
def apply (t : DynamicTable) : TableChange → DynamicTable
  | .insert field => t.insert field
  | .setCapacity capacity => t.setCapacity capacity

/-- The table after some changes. -/
def after (t : DynamicTable) (changes : List TableChange) : DynamicTable := changes.foldl apply t

/-- What one change makes of the entries: the ones evicted are the oldest, no more
    go than have to, and a field larger than the table takes all of them with it. -/
def Kept (t : DynamicTable) : TableChange → Prop
  | .insert field =>
    if field.size ≤ t.capacity then
      ∃ kept, Keeps Entry.size (t.capacity - field.size) t.entries kept ∧
        (t.insert field).entries = .of field :: kept
    else (t.insert field).entries = []
  | .setCapacity capacity => Keeps Entry.size capacity t.entries (t.setCapacity capacity).entries

theorem kept (t : DynamicTable) (change : TableChange) : t.Kept change := by
  cases change with
  | insert field =>
    have hsize : (Entry.of field).size = field.size := rfl
    rw [Kept]
    split_ifs with h
    · refine ⟨_, keeps_fit Entry.size _ _, ?_⟩
      rw [entries_insert, fit_cons_of_le (hsize ▸ h), hsize]
    · rw [entries_insert, fit_cons_of_lt (hsize ▸ not_le.1 h)]
  | setCapacity capacity =>
    rw [Kept, entries_setCapacity]
    exact keeps_fit Entry.size capacity t.entries

/-- The record of the table is right, and stays so. -/
structure Represented (t : DynamicTable) : Prop where
  size_eq : t.size = total Entry.size t.entries
  size_le : t.size ≤ t.capacity
  kept : ∀ change, t.Kept change

end Hpack.DynamicTable

namespace Qpack.DynamicTable

/-- The table after one change; a field it would not fit in is never inserted. -/
def apply (t : DynamicTable) : TableChange → DynamicTable
  | .insert field => if h : t.fits field = true then t.insert field h else t
  | .setCapacity capacity => t.setCapacity capacity

/-- The table after some changes. -/
def after (t : DynamicTable) (changes : List TableChange) : DynamicTable := changes.foldl apply t

/-- What one change makes of the entries: the ones evicted are the oldest, no more
    go than have to, and a field inserted takes the next index. -/
def Kept (t : DynamicTable) : TableChange → Prop
  | .insert field =>
    ∀ h : t.fits field = true,
      (∃ kept, Keeps Entry.size (t.capacity - field.size) t.entries kept ∧
        (t.insert field h).entries = .of field :: kept) ∧
      (t.insert field h).insertedCount = t.insertedCount + 1 ∧
      (t.insert field h).get t.insertedCount = some field
  | .setCapacity capacity =>
    Keeps Entry.size capacity t.entries (t.setCapacity capacity).entries ∧
      (t.setCapacity capacity).insertedCount = t.insertedCount

theorem kept (t : DynamicTable) (change : TableChange) : t.Kept change := by
  cases change with
  | insert field =>
    intro h
    have hle : (Entry.of field).size ≤ t.capacity := of_decide_eq_true h
    refine ⟨⟨_, keeps_fit Entry.size _ _, ?_⟩, insertedCount_insert t field h, get_insert t field h⟩
    rw [entries_insert, fit_cons_of_le hle, show (Entry.of field).size = field.size from rfl]
  | setCapacity capacity =>
    refine ⟨?_, insertedCount_setCapacity t capacity⟩
    rw [entries_setCapacity]
    exact keeps_fit Entry.size capacity t.entries

/-- One change later, what is still held is where it was. -/
theorem follows_apply (t : DynamicTable) (change : TableChange) : Follows t (t.apply change) := by
  cases change with
  | insert field =>
    rw [apply]
    split_ifs with h
    · exact follows_insert t field h
    · exact .refl t
  | setCapacity capacity => exact follows_setCapacity t capacity

theorem follows_after (t : DynamicTable) (changes : List TableChange) : Follows t (t.after changes) := by
  induction changes generalizing t with
  | nil => exact .refl t
  | cons change changes ih => exact (follows_apply t change).trans (ih _)

/-- An entry keeps its index for its whole life. -/
theorem Follows.lives {t t' : DynamicTable} (h : Follows t t') {i : ℕ} (ht : (t.get i).isSome = true)
    (ht' : (t'.get i).isSome = true) : t'.get i = t.get i :=
  h.get i (isSome_get_iff.1 ht').1 (isSome_get_iff.1 ht).2

/-- The entries an insertion leaves are those it does not evict. -/
theorem isSome_get_insert {t : DynamicTable} {field : HeaderField} (h : t.fits field = true) {i : ℕ}
    (ht : (t.get i).isSome = true) :
    ((t.insert field h).get i).isSome = true ↔ (t.insert field h).oldest ≤ i := by
  rw [isSome_get_iff, insertedCount_insert]
  exact and_iff_left (Nat.lt_succ_of_lt (isSome_get_iff.1 ht).2)

/-- An insertion keeps everything at or above a floor exactly where what it keeps
    begins no later than that, or than what there was. -/
theorem keeps_floor_iff {t : DynamicTable} {field : HeaderField} (h : t.fits field = true) (floor : ℕ) :
    (∀ i, floor ≤ i → (t.get i).isSome = true → ((t.insert field h).get i).isSome = true) ↔
      (t.insert field h).oldest ≤ max t.oldest floor := by
  constructor
  · intro hall
    rcases Nat.lt_or_ge (max t.oldest floor) t.insertedCount with hlt | hge
    · -- The first entry at or above the floor is one of those to be kept.
      have hsome : (t.get (max t.oldest floor)).isSome = true := isSome_get_iff.2 ⟨le_max_left _ _, hlt⟩
      exact (isSome_get_insert h hsome).1 (hall _ (le_max_right _ _) hsome)
    · -- The new entry is held, so no more than the others have gone.
      have hnew := isSome_get_iff.1 (Option.isSome_iff_exists.2 ⟨field, get_insert t field h⟩)
      exact hnew.1.trans hge
  · intro hle i hfloor hsome
    exact (isSome_get_insert h hsome).2 (hle.trans (max_le (isSome_get_iff.1 hsome).1 hfloor))

/-- The record of the table is right, and stays so. -/
structure Represented (t : DynamicTable) : Prop where
  size_eq : t.size = total Entry.size t.entries
  size_le : t.size ≤ t.capacity
  kept : ∀ change, t.Kept change
  /-- The lowest index held is the count less the length. -/
  held : ∀ i, (t.get i).isSome = true ↔ t.insertedCount - t.entries.length ≤ i ∧ i < t.insertedCount
  /-- However many changes later, an entry still held is at its index. -/
  lives : ∀ changes i, (t.get i).isSome = true → ((t.after changes).get i).isSome = true →
    (t.after changes).get i = t.get i

end Qpack.DynamicTable

/-- After every run of insertions and capacity changes the records of both tables
    are right, and a QPACK insertion is admitted against a floor exactly where the
    field fits and nothing at or above the floor goes. -/
theorem tables_represented :
    (∀ capacity changes, ((Hpack.DynamicTable.new capacity).after changes).Represented) ∧
    (∀ capacity changes, ((Qpack.DynamicTable.new capacity).after changes).Represented) ∧
    ∀ (t : Qpack.DynamicTable) (field : HeaderField) (floor : ℕ),
      t.admits field floor = true ↔
        ∃ h : t.fits field = true,
          ∀ i, floor ≤ i → (t.get i).isSome = true → ((t.insert field h).get i).isSome = true := by
  refine ⟨fun capacity changes => ?_, fun capacity changes => ?_, fun t field floor => ?_⟩
  · generalize (Hpack.DynamicTable.new capacity).after changes = t
    exact ⟨t.size_eq, t.size_le, t.kept⟩
  · generalize (Qpack.DynamicTable.new capacity).after changes = t
    exact ⟨t.size_eq, t.size_le, t.kept, fun i => Qpack.DynamicTable.isSome_get_iff,
      fun more i ht ht' => (t.follows_after more).lives ht ht'⟩
  · rw [Qpack.DynamicTable.admits_spec]
    exact exists_congr fun h => (Qpack.DynamicTable.keeps_floor_iff h floor).symm

end Soyokaze

import Mathlib.Data.List.AList

/-!
# Hash maps

A hash map is the list of its entries, in the order in which an iteration comes to them.
Nothing else tells two orders apart (`HashMap.lookup_of_perm`), and what an iteration
makes of a map is to be shown for every order.

* `HashMap.lookup_filterMap`: what there is of a key once entries were changed or dropped;
* `HashMap.size_erase`, `HashMap.size_insert`: how many entries are left.
-/

universe u

/-- A map from keys to values, its entries in the order they are come to. -/
abbrev HashMap (κ α : Type u) := AList fun _ : κ => α

namespace HashMap

variable {κ α : Type u} [DecidableEq κ]

/-- How many entries there are. -/
def size (m : HashMap κ α) : ℕ := m.entries.length

omit [DecidableEq κ] in
theorem keys_filterMap_sublist (f : κ → α → Option α) (entries : List (Σ _ : κ, α)) :
    (entries.filterMap fun entry => (f entry.1 entry.2).map fun a => (⟨entry.1, a⟩ : Σ _ : κ, α)).keys.Sublist entries.keys := by
  induction entries with
  | nil => exact .slnil
  | cons entry entries ih =>
    rw [List.filterMap_cons]
    cases f entry.1 entry.2 with
    | none => exact ih.cons _
    | some a => exact ih.cons_cons _

/-- Changes every entry, or drops it. -/
def filterMap (m : HashMap κ α) (f : κ → α → Option α) : HashMap κ α where
  entries := m.entries.filterMap fun entry : (Σ _ : κ, α) => (f entry.1 entry.2).map fun a => (⟨entry.1, a⟩ : Σ _ : κ, α)
  nodupKeys := List.Sublist.nodup (keys_filterMap_sublist f m.entries) m.nodupKeys

/-- Drops all entries but those that are to be kept. -/
def retain (m : HashMap κ α) (keep : κ → α → Bool) : HashMap κ α :=
  m.filterMap fun k a => if keep k a then some a else none

theorem lookup_filterMap (m : HashMap κ α) (f : κ → α → Option α) (k : κ) :
    (m.filterMap f).lookup k = (m.lookup k).bind (f k) := by
  obtain ⟨entries, hnodup⟩ := m
  simp only [filterMap, AList.lookup]
  induction entries with
  | nil => rfl
  | cons entry entries ih =>
    obtain ⟨key, a⟩ := entry
    obtain ⟨hnew, hrest⟩ := List.nodupKeys_cons.1 hnodup
    rw [List.filterMap_cons]
    by_cases h : k = key
    · subst h
      rw [List.dlookup_cons_eq]
      cases hf : f k a with
      | none =>
        -- The key does not come again.
        have habsent : List.dlookup k entries = none := List.dlookup_eq_none.2 hnew
        have hdropped := ih hrest
        rw [habsent] at hdropped
        simpa [hf] using hdropped
      | some b => simp [hf]
    · rw [List.dlookup_cons_ne _ _ h, ← ih hrest]
      cases f key a with
      | none => rfl
      | some b => exact List.dlookup_cons_ne _ _ h

theorem lookup_retain (m : HashMap κ α) (keep : κ → α → Bool) (k : κ) :
    (m.retain keep).lookup k = (m.lookup k).filter (keep k) := by
  rw [retain, lookup_filterMap]
  cases m.lookup k with
  | none => rfl
  | some a => rfl

omit [DecidableEq κ] in
theorem size_filterMap_le (m : HashMap κ α) (f : κ → α → Option α) : (m.filterMap f).size ≤ m.size :=
  List.length_filterMap_le _ _

theorem size_erase {m : HashMap κ α} {k : κ} (h : k ∈ m) : size (m.erase k) + 1 = m.size := by
  obtain ⟨a, before, behind, -, hentries, herase⟩ := List.exists_of_kerase (AList.mem_keys.1 h)
  have hrest : (m.erase k).entries = before ++ behind := herase
  rw [size, size, hrest, hentries, List.length_append, List.length_append, List.length_cons]
  omega

/-- Nothing is added, at any rate. -/
theorem size_erase_le (m : HashMap κ α) (k : κ) : size (m.erase k) ≤ m.size :=
  (List.kerase_sublist k m.entries).length_le

theorem size_insert_of_mem {m : HashMap κ α} {k : κ} (h : k ∈ m) (a : α) : size (m.insert k a) = m.size :=
  size_erase h

theorem size_insert_of_notMem {m : HashMap κ α} {k : κ} (h : k ∉ m) (a : α) : size (m.insert k a) = m.size + 1 := by
  rw [size, AList.entries_insert_of_notMem h, List.length_cons, size]

/-- An entry is added at most. -/
theorem size_insert_le (m : HashMap κ α) (k : κ) (a : α) : size (m.insert k a) ≤ m.size + 1 := by
  by_cases h : k ∈ m
  · rw [size_insert_of_mem h]
    exact Nat.le_succ _
  · exact le_of_eq (size_insert_of_notMem h a)

/-- What is looked up does not depend on the order. -/
theorem lookup_of_perm {m m' : HashMap κ α} (h : m.entries.Perm m'.entries) (k : κ) : m.lookup k = m'.lookup k :=
  AList.perm_lookup h

end HashMap

import Soyokaze.Helpers.Hpack
import Soyokaze.Helpers.QpackSearch

/-!
# Searches by a mark

A table is searched by the mark of a name, which is a hash and may be that of another name.
What is found is nonetheless what a scan of the table finds that compares the fields.

* `StaticIndex.find_new`: an index over entries none of whose names share a mark answers as a
  scan does, also where it is asked for a name that shares the mark of one of them;
* `marked_searches_exact`: so it is with the tables of both formats.
-/

namespace Soyokaze

/-- What a scan of a table from one end finds: the first field that is the same, or else the
    first with the name. -/
def scan (fields : List HeaderField) (field : HeaderField) : Option (ℕ × Bool) :=
  match fields.findIdx? (· == field) with
  | some i => some (i, true)
  | none => (fields.findIdx? (·.name == field.name)).map (·, false)

/-! ## The reverse index -/

namespace StaticIndex

variable {entries : List HeaderField} {base : ℕ}

/-- What stands under a mark once fields were put there: all of those whose names have it. -/
def gathered (mark : Mark) (numbered : List (HeaderField × ℕ)) : Option NameEntry :=
  match numbered.filter fun f => Mark.of f.1.name = mark with
  | [] => none
  | first :: rest => some ⟨first.1.name, first.2, (first :: rest).map fun f => (f.1.value, f.2)⟩

/-- What stands under a mark, with one more value. -/
def joined (name value : Text) (index : ℕ) : Option NameEntry → NameEntry
  | none => ⟨name, index, [(value, index)]⟩
  | some entry => { entry with values := entry.values ++ [(value, index)] }

theorem lookup_cons_eq {α β : Type} [DecidableEq α] (a k : α) (b : β) (rest : List (α × β)) :
    List.lookup a ((k, b) :: rest) = if a = k then some b else rest.lookup a := by
  rw [List.lookup_cons]
  split_ifs with h
  · rw [beq_iff_eq.2 h]
  · rw [beq_eq_false_iff_ne.2 h]

theorem lookup_push (name value : Text) (index : ℕ) (byName : List (Mark × NameEntry)) (mark : Mark) :
    (push name value index byName).lookup mark =
      if mark = .of name then some (joined name value index (byName.lookup mark)) else byName.lookup mark := by
  induction byName with
  | nil => exact lookup_cons_eq mark (.of name) _ []
  | cons head rest ih =>
    obtain ⟨mark', entry⟩ := head
    rw [push]
    generalize Mark.of name = named at ih ⊢
    rw [lookup_cons_eq]
    by_cases hmark : mark' = named
    · rw [if_pos hmark, lookup_cons_eq, hmark]
      split_ifs <;> rfl
    · rw [if_neg hmark, lookup_cons_eq, ih]
      by_cases hmarks : mark = mark'
      · rw [if_pos hmarks, if_neg fun h => hmark (hmarks.symm.trans h), if_pos hmarks]
      · simp only [if_neg hmarks]

theorem gathered_concat (mark : Mark) (numbered : List (HeaderField × ℕ)) (f : HeaderField × ℕ) :
    gathered mark (numbered ++ [f]) =
      if mark = .of f.1.name then some (joined f.1.name f.1.value f.2 (gathered mark numbered)) else gathered mark numbered := by
  have hlast : [f].filter (fun g => Mark.of g.1.name = mark) = if mark = .of f.1.name then [f] else [] := by
    rw [List.filter_cons, List.filter_nil]
    exact ite_cond_congr ((decide_eq_true_eq).trans (propext eq_comm))
  rw [gathered, gathered, List.filter_append, hlast]
  split_ifs with h
  · cases numbered.filter fun g => Mark.of g.1.name = mark with
    | nil => rfl
    | cons first rest =>
      dsimp only [List.cons_append, joined]
      rw [List.map_cons, List.map_append, List.map_cons]
      rfl
  · rw [List.append_nil]

/-- An index has under each mark all the entries whose names have it. -/
theorem lookup_new (entries : List HeaderField) (base : ℕ) (mark : Mark) :
    (new entries base).byName.lookup mark = gathered mark (entries.zipIdx base) := by
  rw [new]
  dsimp only
  generalize entries.zipIdx base = numbered
  induction numbered using List.reverseRecOn with
  | nil => rfl
  | append_singleton numbered f ih => rw [List.foldl_append, List.foldl_cons, List.foldl_nil, lookup_push, ih, gathered_concat]

/-- What is found among numbered entries has the number of where it is. -/
theorem find_zipIdx (p : HeaderField → Bool) (entries : List HeaderField) (base : ℕ) :
    ((entries.zipIdx base).find? fun f => p f.1).map (·.2) = (entries.findIdx? p).map (· + base) := by
  induction entries generalizing base with
  | nil => rfl
  | cons entry entries ih =>
    rw [List.zipIdx_cons, List.find?_cons, List.findIdx?_cons]
    cases p entry with
    | true => simp
    | false =>
      have hnext : (fun i => i + (base + 1)) = (fun i => i + base) ∘ fun i => i + 1 := by
        funext i
        rw [Function.comp_apply, Nat.add_right_comm, Nat.add_assoc]
      dsimp only
      rw [ih, hnext, ← Option.map_map]
      rfl

/-- No two names of a table share a mark. -/
def Distinct (entries : List HeaderField) : Prop :=
  ∀ f ∈ entries, ∀ g ∈ entries, Mark.of f.name = Mark.of g.name → f.name = g.name

/-- Where no two names share a mark, those that have the mark of a name that is there have the name. -/
theorem filter_mark (h : Distinct entries) {name : Text} (hname : ∃ f ∈ entries, f.name = name) :
    ((entries.zipIdx base).filter fun f => Mark.of f.1.name = Mark.of name) =
      (entries.zipIdx base).filter fun f => f.1.name == name := by
  obtain ⟨g, hg, rfl⟩ := hname
  refine List.filter_congr fun f hf => ?_
  have hmem : f.1 ∈ entries := List.fst_mem_of_mem_zipIdx hf
  rw [Bool.eq_iff_iff, decide_eq_true_iff, beq_iff_eq]
  exact ⟨h f.1 hmem g hg, congrArg Mark.of⟩

theorem field_eq_iff {f : HeaderField} {name value : Text} : f = ⟨name, value⟩ ↔ f.name = name ∧ f.value = value := by
  obtain ⟨name', value'⟩ := f
  rw [HeaderField.mk.injEq]

/-- An index finds the first entry with a name, and the first that is the field. -/
theorem lookup_eq (h : Distinct entries) (name value : Text) : (new entries base).lookup name value =
    ((entries.findIdx? (·.name == name)).map (· + base), (entries.findIdx? (· == ⟨name, value⟩)).map (· + base)) := by
  rw [lookup, lookup_new, gathered]
  by_cases hname : ∃ f ∈ entries, f.name = name
  · rw [filter_mark h hname, ← find_zipIdx, ← find_zipIdx, ← List.head?_filter]
    have hexact : ((entries.zipIdx base).find? fun f => f.1 == ⟨name, value⟩) =
        ((entries.zipIdx base).filter fun f => f.1.name == name).find? fun f => f.1.value == value := by
      rw [List.find?_filter]
      refine congrArg (fun p => List.find? p _) (funext fun f => ?_)
      rw [Bool.eq_iff_iff, beq_iff_eq, decide_eq_true_iff, beq_iff_eq, beq_iff_eq, field_eq_iff]
    rw [hexact]
    have hnamed : ∀ f ∈ (entries.zipIdx base).filter (fun f => f.1.name == name), f.1.name = name :=
      fun f hf => beq_iff_eq.1 (List.mem_filter.1 hf).2
    cases hfound : (entries.zipIdx base).filter fun f => f.1.name == name with
    | nil => rfl
    | cons first rest =>
      rw [hfound] at hnamed
      have hfirst : first.1.name = name := hnamed first List.mem_cons_self
      dsimp only
      rw [Option.filter_some, if_pos (beq_iff_eq.2 hfirst)]
      dsimp only
      rw [List.find?_map, Option.map_map]
      rfl
  · -- Whatever has the mark of a name that is not there has another name, and is turned away.
    have hnone : ∀ f ∈ entries, ¬ f.name = name := fun f hf heq => hname ⟨f, hf, heq⟩
    have hfield : ∀ f ∈ entries, ¬ f = ⟨name, value⟩ := fun f hf heq => hnone f hf (congrArg HeaderField.name heq)
    have hno : entries.findIdx? (·.name == name) = none :=
      List.findIdx?_eq_none_iff.2 fun f hf => beq_eq_false_iff_ne.2 (hnone f hf)
    have hno' : entries.findIdx? (· == ⟨name, value⟩) = none :=
      List.findIdx?_eq_none_iff.2 fun f hf => beq_eq_false_iff_ne.2 (hfield f hf)
    rw [hno, hno']
    cases hfound : (entries.zipIdx base).filter fun f => Mark.of f.1.name = Mark.of name with
    | nil => rfl
    | cons first rest =>
      have hmem : first ∈ (entries.zipIdx base).filter fun f => Mark.of f.1.name = Mark.of name :=
        hfound ▸ List.mem_cons_self
      have hother : first.1.name ≠ name := hnone _ (List.fst_mem_of_mem_zipIdx (List.mem_filter.1 hmem).1)
      dsimp only
      rw [Option.filter_some, if_neg (mt beq_iff_eq.1 hother)]
      rfl

/-- What an index answers is what a scan does, numbered from its base. -/
theorem find_new (h : Distinct entries) (field : HeaderField) :
    (new entries base).find field = (scan entries field).map fun found => (found.1 + base, found.2) := by
  rw [find, lookup_eq h, scan]
  have hexact (f : HeaderField) : (f == ⟨field.name, field.value⟩) = (f == field) := rfl
  simp only [hexact]
  cases entries.findIdx? (· == field) with
  | some i => rfl
  | none => cases entries.findIdx? (·.name == field.name) <;> rfl

theorem named_of_isSome {i : StaticIndex} {name value : Text} (h : (i.lookup name value).2.isSome = true) :
    ∃ entry, i.byName.lookup (.of name) = some entry ∧ entry.name = name := by
  rw [lookup] at h
  split at h
  · cases h
  · next entry hentry =>
    obtain ⟨hlookup, hname⟩ := Option.filter_eq_some_iff.1 hentry
    exact ⟨entry, hlookup, beq_iff_eq.1 hname⟩

/-- Where an index finds all it was built of, no two names of it share a mark. -/
theorem distinct_of_complete {i : StaticIndex}
    (h : entries.all (fun f => (i.lookup f.name f.value).2.isSome) = true) : Distinct entries := by
  intro f hf g hg hmark
  obtain ⟨entry, hentry, hname⟩ := named_of_isSome (List.all_eq_true.1 h f hf)
  obtain ⟨entry', hentry', hname'⟩ := named_of_isSome (List.all_eq_true.1 h g hg)
  rw [← hmark, hentry] at hentry'
  cases hentry'
  rw [← hname, hname']

end StaticIndex

/-! ## The dynamic tables -/

theorem Entry.valued_eq (e : Entry) {field : HeaderField} (h : e.field.name = field.name) :
    e.valued field = (e.field == field) := by
  rw [valued, Bool.eq_iff_iff, beq_iff_eq, beq_iff_eq]
  exact ⟨fun hvalue => StaticIndex.field_eq_iff.2 ⟨h, hvalue⟩, congrArg HeaderField.value⟩

namespace Hpack.DynamicTable

/-- What is found behind entries that were looked at, where `nameOnly` is the first of those with the name. -/
theorem search_eq (field : HeaderField) (entries : List Entry) (offset : ℕ) (nameOnly : Option ℕ) :
    search (.of field.name) field entries offset nameOnly =
      match (entries.map (·.field)).findIdx? (· == field) with
      | some i => some (i + offset, true)
      | none => (nameOnly.or (((entries.map (·.field)).findIdx? (·.name == field.name)).map (· + offset))).map (·, false) := by
  induction entries generalizing offset nameOnly with
  | nil => cases nameOnly <;> rfl
  | cons entry entries ih =>
    have hnext : (fun i => i + (offset + 1)) = (fun i => i + offset) ∘ fun i => i + 1 := by
      funext i
      rw [Function.comp_apply, Nat.add_right_comm, Nat.add_assoc]
    rw [search, Entry.named_eq, List.map_cons, List.findIdx?_cons, List.findIdx?_cons, ih, ih]
    by_cases hname : entry.field.name = field.name
    · rw [entry.valued_eq hname, beq_iff_eq.2 hname]
      cases hfield : entry.field == field with
      | true => simp
      | false =>
        cases (entries.map (·.field)).findIdx? (· == field) with
        | some i => simp [Nat.add_right_comm, Nat.add_assoc]
        | none => cases nameOnly <;> simp
    · have hfield : (entry.field == field) = false := beq_eq_false_iff_ne.2 fun h => hname (congrArg _ h)
      rw [hfield, beq_eq_false_iff_ne.2 hname]
      cases (entries.map (·.field)).findIdx? (· == field) with
      | some i => simp [Nat.add_right_comm, Nat.add_assoc]
      | none => simp [hnext]

theorem search_scan (field : HeaderField) (entries : List Entry) :
    search (.of field.name) field entries 0 none = scan (entries.map (·.field)) field := by
  rw [search_eq, scan]
  cases (entries.map (·.field)).findIdx? (· == field) with
  | some i => rfl
  | none => simp

end Hpack.DynamicTable

namespace Qpack.DynamicTable

/-- The walk is the one of the other format, but for how it numbers the entries. -/
theorem findLoop_eq_search (field : HeaderField) (mark : Mark) (entries : List Entry) (count offset : ℕ) (nameOnly : Option ℕ) :
    findLoop field mark entries (count - (offset + 1)) (nameOnly.map fun i => count - (i + 1)) =
      (Hpack.DynamicTable.search mark field entries offset nameOnly).map fun found => (count - (found.1 + 1), found.2) := by
  induction entries generalizing offset nameOnly with
  | nil => cases nameOnly <;> rfl
  | cons entry entries ih =>
    have hnext : count - (offset + 1) - 1 = count - (offset + 1 + 1) := Nat.sub_sub _ _ _
    rw [findLoop, Hpack.DynamicTable.search, hnext]
    split_ifs
    · exact ih (offset + 1) nameOnly
    · rfl
    · rw [← ih (offset + 1)]
      cases nameOnly <;> rfl

theorem find_scan (t : DynamicTable) (field : HeaderField) : t.find field =
    (scan (t.entries.map (·.field)) field).map fun found => (t.insertedCount - (found.1 + 1), found.2) := by
  have hwalk := findLoop_eq_search field (.of field.name) t.entries t.insertedCount 0 none
  rw [Hpack.DynamicTable.search_scan] at hwalk
  exact hwalk

end Qpack.DynamicTable

/-! ## The static tables -/

theorem Hpack.StaticTable.complete_index :
    entries.all (fun f => (index.lookup f.name f.value).2.isSome) = true := by
  decide +kernel

theorem Hpack.StaticTable.find_scan (field : HeaderField) :
    find field = (scan entries field).map fun found => (found.1 + 1, found.2) := by
  rw [find, index]
  exact StaticIndex.find_new (StaticIndex.distinct_of_complete complete_index) field

theorem Qpack.StaticTable.find_scan (field : HeaderField) : find field = scan entries field := by
  rw [find, index]
  refine (StaticIndex.find_new (StaticIndex.distinct_of_complete complete_index) field).trans ?_
  cases scan entries field <;> rfl

/-- Whatever other names the mark of a name is that of, a search by the mark finds what a scan
    finds that compares the fields: from the first index of a static table, and from the most
    recent entry of a dynamic one. -/
theorem marked_searches_exact (field : HeaderField) :
    Hpack.StaticTable.find field =
      (scan Hpack.StaticTable.entries field).map (fun found => (found.1 + 1, found.2)) ∧
    Qpack.StaticTable.find field = scan Qpack.StaticTable.entries field ∧
    (∀ t : Hpack.DynamicTable, t.find field = scan (t.entries.map (·.field)) field) ∧
    ∀ t : Qpack.DynamicTable, t.find field =
      (scan (t.entries.map (·.field)) field).map fun found => (t.insertedCount - (found.1 + 1), found.2) :=
  ⟨Hpack.StaticTable.find_scan field, Qpack.StaticTable.find_scan field, fun t => Hpack.DynamicTable.search_scan field t.entries,
    fun t => t.find_scan field⟩

end Soyokaze

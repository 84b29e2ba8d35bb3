import Soyokaze.Helpers.Qpack

/-!
# QPACK: two searches for a reference

While it writes a section, the encoder looks for the newest entry the peer has
acknowledged (`DynamicTable.probe`). Asked for a reference on its own
(`Encoder.reference`), it takes the newest entry of all (`DynamicTable.find`)
and drops it where the peer has not acknowledged it.

* `DynamicTable.probe_best`, `DynamicTable.find_best`: what each search finds
  is the newest match below its bound;
* `Encoder.preferred_refer`: a section names the entry that is preferred;
* `Encoder.reference_agrees_iff`: the two agree unless an entry of the same
  kind stands in front of the acknowledged one.
-/

namespace Soyokaze.Qpack

namespace DynamicTable

/-- Walks the entries from the most recent for an exact match, or else the first
    name match. -/
def findLoop (field : HeaderField) (mark : Mark) :
    List Entry → (absolute : ℕ) → Option ℕ → Option (ℕ × Bool)
  | [], _, nameOnly => nameOnly.map (·, false)
  | entry :: entries, absolute, nameOnly =>
    if !entry.named mark field then findLoop field mark entries (absolute - 1) nameOnly
    else if entry.valued field then some (absolute, true)
    else findLoop field mark entries (absolute - 1) (nameOnly.or (some absolute))

/-- Finds the best absolute index for a field; the flag says whether the value
    matched too. -/
def find (t : DynamicTable) (field : HeaderField) : Option (ℕ × Bool) :=
  findLoop field (.of field.name) t.entries (t.insertedCount - 1) none

/-! ## The newest match -/

/-- The entry at an index is the field. -/
def Exact (t : DynamicTable) (field : HeaderField) (i : ℕ) : Prop := t.get i = some field

/-- The entry at an index has the name of the field. -/
def Named (t : DynamicTable) (field : HeaderField) (i : ℕ) : Prop :=
  ∃ f, t.get i = some f ∧ f.name = field.name

/-- The largest index below `below` of which `P` holds. -/
structure Newest (P : ℕ → Prop) (below i : ℕ) : Prop where
  lt : i < below
  holds : P i
  last : ∀ j, i < j → j < below → ¬ P j

/-- What a search below `below` should find: the newest exact match, or else the
    newest entry with the name. -/
inductive Best (t : DynamicTable) (field : HeaderField) (below : ℕ) : Option (ℕ × Bool) → Prop
  | exact {i : ℕ} : Newest (t.Exact field) below i → Best t field below (some (i, true))
  | named {i : ℕ} : (∀ j, j < below → ¬ t.Exact field j) → Newest (t.Named field) below i →
      Best t field below (some (i, false))
  | none : (∀ j, j < below → ¬ t.Named field j) → Best t field below none

variable {t : DynamicTable} {field : HeaderField} {below : ℕ}

theorem Named.lt {j : ℕ} (h : t.Named field j) : j < t.insertedCount := by
  obtain ⟨f, hf, -⟩ := h
  exact (isSome_get_iff.1 (Option.isSome_iff_exists.2 ⟨f, hf⟩)).2

theorem Exact.named {i : ℕ} (h : t.Exact field i) : t.Named field i := ⟨field, h, rfl⟩

theorem Newest.unique {P : ℕ → Prop} {i j : ℕ} (hi : Newest P below i) (hj : Newest P below j) : i = j := by
  rcases Nat.lt_trichotomy i j with h | h | h
  · exact absurd hj.holds (hi.last j h hj.lt)
  · exact h
  · exact absurd hi.holds (hj.last i h hi.lt)

theorem Newest.last_le {P : ℕ → Prop} {i j : ℕ} (h : Newest P below i) (hj : j < below) (hP : P j) :
    j ≤ i := not_lt.1 fun hlt => h.last j hlt hj hP

/-- The newest of all is the newest below whatever it is below. -/
theorem Newest.lower {P : ℕ → Prop} {i bound : ℕ} (h : Newest P bound i) (hi : i < below)
    (hle : below ≤ bound) : Newest P below i :=
  ⟨hi, h.holds, fun j hj hlt => h.last j hj (hlt.trans_le hle)⟩

theorem Best.unique {r r' : Option (ℕ × Bool)} (h : Best t field below r) (h' : Best t field below r') :
    r = r' := by
  cases h with
  | exact h =>
    cases h' with
    | exact h' => rw [h.unique h']
    | named hno _ => exact absurd h.holds (hno _ h.lt)
    | none hno => exact absurd h.holds.named (hno _ h.lt)
  | named hno h =>
    cases h' with
    | exact h' => exact absurd h'.holds (hno _ h'.lt)
    | named _ h' => rw [h.unique h']
    | none hno => exact absurd h.holds (hno _ h.lt)
  | none hno =>
    cases h' with
    | exact h' => exact absurd h'.holds.named (hno _ h'.lt)
    | named _ h' => exact absurd h'.holds (hno _ h'.lt)
    | none _ => rfl

theorem Best.lower {bound i : ℕ} {exact : Bool} (h : Best t field bound (some (i, exact)))
    (hi : i < below) (hle : below ≤ bound) : Best t field below (some (i, exact)) := by
  cases h with
  | exact h => exact .exact (h.lower hi hle)
  | named hno h => exact .named (fun j hj => hno j (hj.trans_le hle)) (h.lower hi hle)

/-! ## What the searches find -/

/-- What a search has seen once it is down to the indices below `next`. -/
structure Seen (t : DynamicTable) (field : HeaderField) (below next : ℕ) (nameOnly : Option ℕ) : Prop where
  exact : ∀ j, next ≤ j → j < below → ¬ t.Exact field j
  unnamed : nameOnly = none → ∀ j, next ≤ j → j < below → ¬ t.Named field j
  named : ∀ i ∈ nameOnly, next ≤ i ∧ Newest (t.Named field) below i

/-- Nothing is held past the count. -/
theorem Seen.start : Seen t field below t.insertedCount none := by
  have hnone {j : ℕ} (hj : t.insertedCount ≤ j) : ¬ t.Named field j := fun h => hj.not_gt h.lt
  exact ⟨fun j hj _ h => hnone hj h.named, fun _ j hj _ => hnone hj, nofun⟩

/-- Nothing is held below the oldest entry. -/
theorem Seen.best {nameOnly : Option ℕ} (h : Seen t field below t.oldest nameOnly) :
    Best t field below (nameOnly.map (·, false)) := by
  have hnone {j : ℕ} (hj : ¬ t.oldest ≤ j) : ¬ t.Named field j := by
    rintro ⟨f, hf, -⟩
    exact hj (isSome_get_iff.1 (Option.isSome_iff_exists.2 ⟨f, hf⟩)).1
  cases nameOnly with
  | none =>
    refine .none fun j hj => ?_
    by_cases hold : t.oldest ≤ j
    · exact h.unnamed rfl j hold hj
    · exact hnone hold
  | some i =>
    refine .named (fun j hj => ?_) (h.named i rfl).2
    by_cases hold : t.oldest ≤ j
    · exact h.exact j hold hj
    · exact fun he => hnone hold he.named

/-- The search goes on past an entry that is not an exact match below the bound. -/
theorem Seen.next {next : ℕ} {nameOnly : Option ℕ} (h : Seen t field below (next + 1) nameOnly)
    (he : next < below → ¬ t.Exact field next) (hn : next < below → ¬ t.Named field next) :
    Seen t field below next nameOnly := by
  refine ⟨fun j hj hlt => ?_, fun hnone j hj hlt => ?_, fun i hi => ?_⟩
  · rcases Nat.eq_or_lt_of_le hj with rfl | hj
    · exact he hlt
    · exact h.exact j hj hlt
  · rcases Nat.eq_or_lt_of_le hj with rfl | hj
    · exact hn hlt
    · exact h.unnamed hnone j hj hlt
  · exact ⟨Nat.le_of_succ_le (h.named i hi).1, (h.named i hi).2⟩

/-- The search goes on past an entry below the bound that has the name only. -/
theorem Seen.nextNamed {next : ℕ} {nameOnly : Option ℕ} (h : Seen t field below (next + 1) nameOnly)
    (he : ¬ t.Exact field next) (hn : t.Named field next) (hlt : next < below) :
    Seen t field below next (nameOnly.or (some next)) := by
  refine ⟨fun j hj hb => ?_, fun hnone => ?_, fun i hi => ?_⟩
  · rcases Nat.eq_or_lt_of_le hj with rfl | hj
    · exact he
    · exact h.exact j hj hb
  · cases nameOnly <;> simp at hnone
  · cases nameOnly with
    | none =>
      cases hi
      exact ⟨le_rfl, hlt, hn, fun j hj hb => h.unnamed rfl j hj hb⟩
    | some o => exact ⟨Nat.le_of_succ_le (h.named i hi).1, (h.named i hi).2⟩

/-- The entry behind the ones already looked at. -/
theorem get_behind {before entries : List Entry} {entry : Entry} (hb : before ++ entry :: entries = t.entries)
    {next : ℕ} (hn : next + 1 + before.length = t.insertedCount) : t.get next = some entry.field := by
  rw [get, if_pos (by omega), ← hb, List.getElem?_append_right (by omega),
    show t.insertedCount - (next + 1) - before.length = 0 by omega]
  rfl

theorem named_iff {i : ℕ} {entry : Entry} (h : t.get i = some entry.field) :
    t.Named field i ↔ entry.named (.of field.name) field = true := by
  rw [Named, h, Entry.named_eq, beq_iff_eq]
  exact ⟨fun ⟨f, hf, hname⟩ => Option.some.inj hf ▸ hname, fun hname => ⟨_, rfl, hname⟩⟩

theorem exact_iff {i : ℕ} {entry : Entry} (h : t.get i = some entry.field) :
    t.Exact field i ↔ entry.named (.of field.name) field = true ∧ entry.valued field = true := by
  obtain ⟨⟨name, value⟩, mark, hmark⟩ := entry
  obtain ⟨name', value'⟩ := field
  rw [Exact, h, Entry.named_eq, Entry.valued, beq_iff_eq, beq_iff_eq, Option.some_inj,
    HeaderField.mk.injEq]

/-- The walk over the entries behind `before`, of which `next` are left to number. -/
theorem probeLoop_best (entries before : List Entry) (hb : before ++ entries = t.entries) (next : ℕ)
    (hn : next + before.length = t.insertedCount) {nameOnly : Option ℕ} {anywhere : Bool}
    (h : Seen t field below next nameOnly) :
    Best t field below (probeLoop field (.of field.name) below entries (next - 1) nameOnly anywhere).1 := by
  induction entries generalizing before next nameOnly anywhere with
  | nil =>
    have hold : next = t.oldest := by
      rw [oldest, ← hb, List.append_nil]
      omega
    exact (hold ▸ h).best
  | cons entry entries ih =>
    have hlen := t.held_le
    rw [← hb, List.length_append, List.length_cons] at hlen
    obtain - | next := next
    · omega
    have hget : t.get next = some entry.field := get_behind hb hn
    have step := fun nameOnly anywhere => @ih (before ++ [entry]) (by simpa using hb) next
      (by rw [List.length_append, List.length_singleton]; omega) nameOnly anywhere
    rw [Nat.add_sub_cancel, probeLoop]
    split_ifs with hname hvalue hbelow hbelow
    · have hnot : ¬ t.Named field next := by simpa [named_iff hget] using hname
      exact step _ _ (h.next (fun _ he => hnot he.named) fun _ => hnot)
    · rw [Bool.not_eq_true, Bool.not_eq_false'] at hname
      exact .exact ⟨hbelow, (exact_iff hget).2 ⟨hname, hvalue⟩, fun j hj => h.exact j hj⟩
    · exact step _ _ (h.next (fun hlt => absurd hlt hbelow) fun hlt => absurd hlt hbelow)
    · rw [Bool.not_eq_true, Bool.not_eq_false'] at hname
      exact step _ _ (h.nextNamed (fun he => hvalue ((exact_iff hget).1 he).2) ((named_iff hget).2 hname) hbelow)
    · exact step _ _ (h.next (fun hlt => absurd hlt hbelow) fun hlt => absurd hlt hbelow)

theorem probe_best (t : DynamicTable) (field : HeaderField) (below : ℕ) :
    Best t field below (t.probe field below).1 :=
  probeLoop_best t.entries [] rfl t.insertedCount rfl .start

/-- Where every entry is below the bound, the bound makes no difference. -/
theorem findLoop_eq (mark : Mark) (entries : List Entry) {absolute : ℕ} (h : absolute < below)
    (nameOnly : Option ℕ) (anywhere : Bool) :
    findLoop field mark entries absolute nameOnly =
      (probeLoop field mark below entries absolute nameOnly anywhere).1 := by
  induction entries generalizing absolute nameOnly anywhere with
  | nil => rfl
  | cons entry entries ih =>
    have hpred : absolute - 1 < below := (Nat.sub_le _ _).trans_lt h
    rw [findLoop, probeLoop, if_pos h, if_pos h]
    split_ifs
    · exact ih hpred _ _
    · rfl
    · exact ih hpred _ _

/-- A search for the newest of all is one below anything past the count. -/
theorem find_best (t : DynamicTable) (field : HeaderField) (h : t.insertedCount < below) :
    Best t field below (t.find field) := by
  rw [find, findLoop_eq _ _ (show t.insertedCount - 1 < below by omega) none false]
  exact t.probe_best field below

/-! ## What the bound of the one leaves out of the other -/

variable {known : ℕ}

theorem filter_known_of_le {i : ℕ} (exact : Bool) (h : known ≤ i) :
    (some (i, exact)).filter (·.1 < known) = none := by
  simpa [Option.filter] using h

/-- An exact entry the peer has not acknowledged is found in place of any other. -/
theorem found_exact {found : Option (ℕ × Bool)} (hf : Best t field below found) {j : ℕ}
    (hj : known ≤ j) (hb : j < below) (he : t.Exact field j) : found.filter (·.1 < known) = none := by
  cases hf with
  | exact h => exact filter_known_of_le true (hj.trans (h.last_le hb he))
  | named hno _ => exact absurd he (hno j hb)
  | none hno => exact absurd he.named (hno j hb)

/-- So is one with the name, where the peer has acknowledged no exact one. -/
theorem found_named {found : Option (ℕ × Bool)} (hf : Best t field below found) {j : ℕ}
    (hj : known ≤ j) (hb : j < below) (hn : t.Named field j)
    (hno : ∀ i, i < known → ¬ t.Exact field i) : found.filter (·.1 < known) = none := by
  cases hf with
  | exact h => exact filter_known_of_le true (not_lt.1 fun hlt => hno _ hlt h.holds)
  | named _ h => exact filter_known_of_le false (hj.trans (h.last_le hb hn))
  | none hnone => exact absurd hn (hnone j hb)

end DynamicTable

/-! ## The static search -/

namespace StaticTable

theorem complete_index : entries.all (fun f => (index.lookup f.name f.value).2.isSome) = true := by
  decide +kernel

/-- Whether a name is found does not depend on the value looked up with it. -/
theorem isSome_lookup {i : StaticIndex} {name value : Text} (h : (i.lookup name value).2.isSome = true)
    (value' : Text) : (i.lookup name value').1.isSome = true := by
  rw [StaticIndex.lookup] at h ⊢
  split at h
  · simp at h
  · rfl

/-- What the static search answers is what the table has for the field. -/
inductive Answers (field : HeaderField) : Option (ℕ × Bool) → Prop
  | exact {i : ℕ} : entries[i]? = some field → Answers field (some (i, true))
  | named {i : ℕ} {f : HeaderField} : field ∉ entries → entries[i]? = some f → f.name = field.name →
      Answers field (some (i, false))
  | none : (∀ f ∈ entries, f.name ≠ field.name) → Answers field none

theorem find_answers (field : HeaderField) : Answers field (find field) := by
  have hcomplete := List.all_eq_true.1 complete_index
  have hname {f : HeaderField} (hf : f ∈ entries) (hn : f.name = field.name) :
      (index.lookup field.name field.value).1.isSome = true :=
    hn ▸ isSome_lookup (hcomplete f hf) field.value
  cases h : find field with
  | none =>
    refine .none fun f hf hn => ?_
    have hsome := hname hf hn
    rw [find, StaticIndex.find] at h
    split at h <;> simp_all
  | some found =>
    obtain ⟨i, exact⟩ := found
    obtain ⟨f, hf, hn, he⟩ := find_sound h
    cases exact with
    | true => exact .exact (he rfl ▸ hf)
    | false =>
      refine .named (fun hmem => ?_) hf hn
      have hsome := hcomplete field hmem
      rw [find, StaticIndex.find] at h
      split at h <;> simp_all

end StaticTable

namespace Encoder

open DynamicTable

/-- The better of what each table has for a field: an exact match, and the static
    one where both match alike. -/
def rank (inStatic dynamic : Option (ℕ × Bool)) : Option Reference :=
  match inStatic, dynamic with
  | some (index, true), _ => some (true, index, true)
  | _, some (absolute, true) => some (false, absolute, true)
  | inStatic, dynamic =>
    (inStatic.map fun (index, _) => (true, index, false)).or
      (dynamic.map fun (absolute, _) => (false, absolute, false))

/-- The reference to use for a field, given what each table has for it. -/
def pick (inStatic found : Option (ℕ × Bool)) (knownReceivedCount : ℕ) : Option Reference :=
  match inStatic with
  | some (index, true) => some (true, index, true)
  | _ =>
    match found.filter (·.1 < knownReceivedCount) with
    | some (absolute, true) => some (false, absolute, true)
    | inDynamic =>
      (inStatic.map fun (index, _) => (true, index, false)).or
        (inDynamic.map fun (absolute, _) => (false, absolute, false))

/-- Picks the reference to use for a field: whether the entry is in the static
    table, its index, and whether the value matched as well as the name. -/
def reference (e : Encoder) (field : HeaderField) : Option Reference :=
  pick (StaticTable.find field) (e.dynamicTable.find field) e.knownReceivedCount

theorem pick_eq (inStatic found : Option (ℕ × Bool)) (known : ℕ) :
    pick inStatic found known = rank inStatic (found.filter (·.1 < known)) := by
  unfold pick
  generalize Option.filter _ _ = dynamic
  rcases inStatic with - | ⟨i, - | -⟩ <;> rcases dynamic with - | ⟨a, - | -⟩ <;> rfl

theorem choose_eq (inStatic : Option (ℕ × Bool)) (found : Option (ℕ × Bool) × Bool) :
    (choose inStatic true found).1 = rank inStatic found.1 := by
  obtain ⟨dynamic, anywhere⟩ := found
  rcases inStatic with - | ⟨i, - | -⟩ <;> rcases dynamic with - | ⟨a, - | -⟩ <;> rfl

theorem settle_chosen (tracked : Bool) (e : Encoder) (required : ℕ) (field : HeaderField)
    (chosen : Option Reference × Bool) : (settle tracked e required field chosen).2.2 = chosen.1 := rfl

/-- What a section with room for references uses for a field. -/
theorem refer_eq (e : Encoder) (required : ℕ) (field : HeaderField) :
    (refer true e required field).2.2 =
      rank (StaticTable.find field) (e.dynamicTable.probe field e.knownReceivedCount).1 := by
  rw [refer, settle_chosen, choose_eq]

/-- The reference preferred for a field: an exact static entry, an exact one the
    peer has acknowledged, a static entry with the name, an acknowledged one. -/
inductive Preferred (e : Encoder) (field : HeaderField) : Option Reference → Prop
  | staticExact {i : ℕ} : StaticTable.entries[i]? = some field → Preferred e field (some (true, i, true))
  | dynamicExact {i : ℕ} : field ∉ StaticTable.entries → i < e.knownReceivedCount →
      e.dynamicTable.Exact field i → Preferred e field (some (false, i, true))
  | staticName {i : ℕ} {f : HeaderField} : field ∉ StaticTable.entries →
      (∀ j, j < e.knownReceivedCount → ¬ e.dynamicTable.Exact field j) →
      StaticTable.entries[i]? = some f → f.name = field.name → Preferred e field (some (true, i, false))
  | dynamicName {i : ℕ} : (∀ f ∈ StaticTable.entries, f.name ≠ field.name) →
      (∀ j, j < e.knownReceivedCount → ¬ e.dynamicTable.Exact field j) → i < e.knownReceivedCount →
      e.dynamicTable.Named field i → Preferred e field (some (false, i, false))
  | none : (∀ f ∈ StaticTable.entries, f.name ≠ field.name) →
      (∀ j, j < e.knownReceivedCount → ¬ e.dynamicTable.Named field j) → Preferred e field none

/-- The better of the two searches is the reference preferred. -/
theorem preferred_rank {e : Encoder} {field : HeaderField} {inStatic dynamic : Option (ℕ × Bool)}
    (hs : StaticTable.Answers field inStatic)
    (hd : Best e.dynamicTable field e.knownReceivedCount dynamic) :
    Preferred e field (rank inStatic dynamic) := by
  cases hs with
  | exact hs => exact .staticExact hs
  | named hno hs hn =>
    cases hd with
    | exact h => exact .dynamicExact hno h.lt h.holds
    | named hnone _ => exact .staticName hno hnone hs hn
    | none hnone => exact .staticName hno (fun j hj he => hnone j hj he.named) hs hn
  | none hno =>
    cases hd with
    | exact h => exact .dynamicExact (fun hmem => hno field hmem rfl) h.lt h.holds
    | named hnone h => exact .dynamicName hno hnone h.lt h.holds
    | none hnone => exact .none hno hnone

theorem preferred_refer (e : Encoder) (required : ℕ) (field : HeaderField) :
    Preferred e field (refer true e required field).2.2 :=
  refer_eq e required field ▸ preferred_rank (StaticTable.find_answers field) (probe_best _ _ _)

/-! ## Where the two agree -/

/-- There are such entries on both sides of `known`. -/
def Straddles (P : ℕ → Prop) (known : ℕ) : Prop := (∃ i, i < known ∧ P i) ∧ ∃ j, known ≤ j ∧ P j

/-- No entry the peer has not acknowledged stands in front of the one to name: the
    static table has the field, or no exact entry does that, and neither does one
    with the name where it is the name that counts. -/
def Unshadowed (e : Encoder) (field : HeaderField) : Prop :=
  field ∈ StaticTable.entries ∨
    ¬ Straddles (e.dynamicTable.Exact field) e.knownReceivedCount ∧
      ((∃ f ∈ StaticTable.entries, f.name = field.name) ∨
        (∃ i, i < e.knownReceivedCount ∧ e.dynamicTable.Exact field i) ∨
        ¬ Straddles (e.dynamicTable.Named field) e.knownReceivedCount)

/-- Leaving the dynamic table out makes no difference where it has nothing, or
    nothing better than the static one. -/
theorem rank_none_iff {inStatic dynamic : Option (ℕ × Bool)} :
    rank inStatic none = rank inStatic dynamic ↔
      (∃ i, inStatic = some (i, true)) ∨ dynamic = none ∨
        ∃ i a, inStatic = some (i, false) ∧ dynamic = some (a, false) := by
  rcases inStatic with - | ⟨i, - | -⟩ <;> rcases dynamic with - | ⟨a, - | -⟩ <;> simp [rank]

section

variable {e : Encoder} {field : HeaderField} {below : ℕ} {inStatic dynamic found : Option (ℕ × Bool)}

theorem rank_eq_of_unshadowed (hs : StaticTable.Answers field inStatic)
    (hd : Best e.dynamicTable field e.knownReceivedCount dynamic)
    (hf : Best e.dynamicTable field below found) (hle : e.knownReceivedCount ≤ below)
    (h : e.Unshadowed field) : rank inStatic (found.filter (·.1 < e.knownReceivedCount)) = rank inStatic dynamic := by
  -- An acknowledged entry found among all is also the one found among the acknowledged.
  have acknowledged {i : ℕ} {exact : Bool} (hf : Best e.dynamicTable field below (some (i, exact)))
      (hi : i < e.knownReceivedCount) : (some (i, exact)).filter (·.1 < e.knownReceivedCount) = dynamic := by
    rw [hd.unique (hf.lower hi hle)]
    simpa [Option.filter] using hi
  -- One that is not is dropped, and then nothing acknowledged may have been behind it.
  have dropped {i : ℕ} (hi : e.knownReceivedCount ≤ i) (hn : e.dynamicTable.Named field i)
      (hx : dynamic.any (·.2) = true → e.dynamicTable.Exact field i) :
      rank inStatic none = rank inStatic dynamic := by
    rw [rank_none_iff]
    rcases h with hmem | ⟨hexact, hnamed⟩
    · cases hs with
      | exact _ => exact .inl ⟨_, rfl⟩
      | named hno _ _ => exact absurd hmem hno
      | none hno => exact absurd rfl (hno field hmem)
    · cases hd with
      | exact hd => exact absurd ⟨⟨_, hd.lt, hd.holds⟩, i, hi, hx rfl⟩ hexact
      | named hno hd =>
        rcases hnamed with ⟨f, hmem, hname⟩ | ⟨j, hj, he⟩ | hnone
        · cases hs with
          | exact _ => exact .inl ⟨_, rfl⟩
          | named _ _ _ => exact .inr (.inr ⟨_, _, rfl, rfl⟩)
          | none hno => exact absurd hname (hno f hmem)
        · exact absurd he (hno j hj)
        · exact absurd ⟨⟨_, hd.lt, hd.holds⟩, i, hi, hn⟩ hnone
      | none _ => exact .inr (.inl rfl)
  cases hf with
  | @exact i hf =>
    rcases Nat.lt_or_ge i e.knownReceivedCount with hi | hi
    · rw [acknowledged (.exact hf) hi]
    · rw [filter_known_of_le true hi]
      exact dropped hi hf.holds.named fun _ => hf.holds
  | @named i hno hf =>
    rcases Nat.lt_or_ge i e.knownReceivedCount with hi | hi
    · rw [acknowledged (.named hno hf) hi]
    · rw [filter_known_of_le false hi]
      refine dropped hi hf.holds fun hx => ?_
      cases hd with
      | exact hd => exact absurd hd.holds (hno _ (hd.lt.trans_le hle))
      | named _ _ => cases hx
      | none _ => cases hx
  | none hno =>
    have hnone : dynamic = none := hd.unique (.none fun j hj => hno j (hj.trans_le hle))
    rw [hnone]
    rfl

theorem unshadowed_of_rank_eq (hs : StaticTable.Answers field inStatic)
    (hd : Best e.dynamicTable field e.knownReceivedCount dynamic)
    (hf : Best e.dynamicTable field below found) (hlt : e.dynamicTable.insertedCount < below)
    (h : rank inStatic (found.filter (·.1 < e.knownReceivedCount)) = rank inStatic dynamic) :
    e.Unshadowed field := by
  rw [Unshadowed, or_iff_not_imp_left]
  intro hstatic
  refine ⟨?_, ?_⟩
  · rintro ⟨⟨i, hi, he⟩, j, hj, he'⟩
    rw [found_exact hf hj (he'.named.lt.trans hlt) he', rank_none_iff] at h
    rcases h with ⟨_, rfl⟩ | rfl | ⟨_, _, -, rfl⟩
    · cases hs with
      | exact hs => exact hstatic (List.mem_of_getElem? hs)
    · cases hd with
      | none hno => exact hno i hi he.named
    · cases hd with
      | named hno _ => exact hno i hi he
  · by_contra hnot
    simp only [not_or, not_not] at hnot
    obtain ⟨hname, hexact, ⟨i, hi, hn⟩, j, hj, hn'⟩ := hnot
    rw [found_named hf hj (hn'.lt.trans hlt) hn' fun i hi he => hexact ⟨i, hi, he⟩, rank_none_iff] at h
    rcases h with ⟨_, rfl⟩ | rfl | ⟨_, _, rfl, -⟩
    · cases hs with
      | exact hs => exact hstatic (List.mem_of_getElem? hs)
    · cases hd with
      | none hno => exact hno i hi hn
    · cases hs with
      | named _ hf hn => exact hname ⟨_, List.mem_of_getElem? hf, hn⟩

end

/-- The reference asked for is the one a section would use, and so the preferred
    one, exactly where no unacknowledged entry stands in front of it; whatever it
    is, the peer has acknowledged it. -/
theorem reference_agrees_iff (e : Encoder) (required : ℕ) (field : HeaderField) :
    (e.reference field = (refer true e required field).2.2 ∧ Preferred e field (e.reference field) ∧
        ∀ i exact, e.reference field = some (false, i, exact) → i < e.knownReceivedCount) ↔
      e.Unshadowed field := by
  have hs := StaticTable.find_answers field
  have hd := e.dynamicTable.probe_best field e.knownReceivedCount
  have hlt : e.dynamicTable.insertedCount < max (e.dynamicTable.insertedCount + 1) e.knownReceivedCount :=
    lt_max_of_lt_left (Nat.lt_succ_self _)
  have hf := e.dynamicTable.find_best field hlt
  constructor
  · rintro ⟨h, -, -⟩
    rw [reference, pick_eq, refer_eq] at h
    exact unshadowed_of_rank_eq hs hd hf hlt h
  · intro h
    have heq : e.reference field = (refer true e required field).2.2 := by
      rw [reference, pick_eq, refer_eq]
      exact rank_eq_of_unshadowed hs hd hf (le_max_right _ _) h
    have hpref : Preferred e field (e.reference field) := heq ▸ preferred_refer e required field
    refine ⟨heq, hpref, fun i exact hr => ?_⟩
    rw [hr] at hpref
    cases hpref with
    | dynamicExact _ hlt _ => exact hlt
    | dynamicName _ _ hlt _ => exact hlt

/-- With the first of two entries of a name acknowledged, a section refers to it and
    `reference` finds nothing. -/
theorem reference_overlooks :
    ¬ ∀ (e : Encoder) (required : ℕ) (field : HeaderField),
      e.reference field = (refer true e required field).2.2 ∧ Preferred e field (e.reference field) ∧
        ∀ i exact, e.reference field = some (false, i, exact) → i < e.knownReceivedCount := by
  intro h
  have h := (h (((Encoder.new.setMaxCapacity 4096).1.encode 0 [.lit "x" "1", .lit "x" "2"]).1.onDecoderInstruction
    (.insertCountIncrement 1)) 0 (.lit "x" "3")).1
  revert h
  decide +kernel

end Encoder

end Soyokaze.Qpack

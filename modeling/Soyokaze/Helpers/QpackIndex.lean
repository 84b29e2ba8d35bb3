import Soyokaze.Lib.Checked
import Soyokaze.Helpers.Qpack

/-!
# QPACK: the arithmetic of references

An entry is named by how far back it is from the last insertion, or how far back
or forward from the base of a section, and every number in that is the peer's.
The absolute index is an integer; the decoder works it out in words, where a
successor wraps (`DynamicTable.succ`), or stops the program in a build that
checks for it.

* `Locator.absolute`: the integer a reference names, and `Locator.resolve` what the
  decoder finds there;
* `Locator.resolved_iff`, `Decoder.processed_iff`: where no step leaves the word and the
  decoder finds what is there;
* `index_arithmetic`: both, and the base of a section, at every state.
-/

namespace Soyokaze.Qpack

/-! ## The steps, in words -/

namespace DynamicTable

/-- `get`, with its arithmetic checked. -/
def getChecked (t : DynamicTable) (absoluteIndex : ℕ) : Option (Option HeaderField) := do
  let next ← Checked.add MAX absoluteIndex 1
  some ((Checked.sub t.insertedCount next).bind fun offset => t.entries[offset]?.map (·.field))

/-- `relative`, with its arithmetic checked. -/
def relativeChecked (t : DynamicTable) (index : ℕ) : Option (Option ℕ) := do
  let next ← Checked.add MAX index 1
  some (Checked.sub t.insertedCount next)

/-- `indexed`, with its arithmetic checked. -/
def indexedChecked (t : DynamicTable) (base index : ℕ) : Option (Option ℕ) := do
  let next ← Checked.add MAX index 1
  some ((Checked.sub base next).filter (· < t.insertedCount))

variable (t : DynamicTable)

theorem getChecked_eq {i : ℕ} (h : i < MAX) : t.getChecked i = some (t.get i) := by
  rw [getChecked, Checked.add_of_le h]
  simp only [Option.bind_eq_bind, Option.bind_some, get, Checked.sub]
  split_ifs <;> rfl

theorem succ_of_lt {i : ℕ} (h : i < MAX) : succ i = i + 1 :=
  Nat.mod_eq_of_lt (by rw [MAX] at h; omega)

theorem relativeChecked_eq {index : ℕ} (h : index < MAX) :
    t.relativeChecked index = some (t.relative index) := by
  rw [relativeChecked, Checked.add_of_le h, relative, succ_of_lt h]
  rfl

theorem indexedChecked_eq {index : ℕ} (base : ℕ) (h : index < MAX) :
    t.indexedChecked base index = some (t.indexed base index) := by
  rw [indexedChecked, Checked.add_of_le h, indexed, succ_of_lt h]
  rfl

/-- The successor of the last word is not a word. -/
theorem checked_max : Checked.add MAX MAX 1 = none := Checked.add_of_lt (Nat.lt_succ_self _)

/-! What each answers is the integer it stands for, where that is an index. -/

variable {t}

theorem relative_eq_some {index j : ℕ} (h : index < MAX) :
    t.relative index = some j ↔ (j : ℤ) = t.insertedCount - index - 1 ∧ j < t.insertedCount := by
  rw [relative, succ_of_lt h]
  split_ifs with hle
  · rw [Option.some_inj]
    omega
  · exact iff_of_false nofun (by omega)

theorem indexed_eq_some {base index j : ℕ} (h : index < MAX) :
    t.indexed base index = some j ↔ (j : ℤ) = base - index - 1 ∧ j < t.insertedCount := by
  rw [indexed, succ_of_lt h, Option.filter_eq_some_iff, decide_eq_true_iff]
  refine and_congr_left fun _ => ?_
  split_ifs with hle
  · rw [Option.some_inj]
    omega
  · exact iff_of_false nofun (by omega)

theorem postBase_eq_some {base index j : ℕ} (hmax : t.insertedCount ≤ MAX) :
    t.postBase base index = some j ↔ (j : ℤ) = base + index ∧ j < t.insertedCount := by
  rw [postBase, Option.filter_eq_some_iff, decide_eq_true_iff]
  refine and_congr_left fun hlt => ?_
  split_ifs with hle
  · rw [Option.some_inj]
    omega
  · exact iff_of_false nofun (by omega)

end DynamicTable

/-! ## References -/

/-- How a dynamic entry is named: back from the last insertion, or back or forward
    from the base of a section. -/
inductive Locator
  | relative (index : ℕ)
  | indexed (base index : ℕ)
  | postBase (base index : ℕ)

namespace Locator

/-- The numbers of a reference are words. -/
def Bounded : Locator → Prop
  | .relative index => index ≤ MAX
  | .indexed base index => base ≤ MAX ∧ index ≤ MAX
  | .postBase base index => base ≤ MAX ∧ index ≤ MAX

/-- The absolute index a reference names. -/
def absolute (t : DynamicTable) : Locator → ℤ
  | .relative index => t.insertedCount - index - 1
  | .indexed base index => base - index - 1
  | .postBase base index => base + index

/-- What the decoder makes of a reference. -/
def resolve (t : DynamicTable) : Locator → Except Error HeaderField
  | .relative index => Decoder.entryAt t index (t.relative index)
  | .indexed base index => Decoder.entryAt t index (t.indexed base index)
  | .postBase base index => Decoder.entryAt t index (t.postBase base index)

/-- The entry an absolute index names, with its arithmetic checked. -/
def entryAtChecked (t : DynamicTable) (index : ℕ) : Option ℕ → Option (Except Error HeaderField)
  | none => some (.error (.indexOutOfRange index))
  | some absolute => do
    match ← t.getChecked absolute with
    | none => some (.error (.indexOutOfRange absolute))
    | some field => some (.ok field)

/-- `resolve`, with its arithmetic checked. -/
def resolveChecked (t : DynamicTable) : Locator → Option (Except Error HeaderField)
  | .relative index => do entryAtChecked t index (← t.relativeChecked index)
  | .indexed base index => do entryAtChecked t index (← t.indexedChecked base index)
  | .postBase base index => entryAtChecked t index (t.postBase base index)

/-- The entry an integer names is one of those held. -/
def Live (t : DynamicTable) (i : ℤ) : Prop := 0 ≤ i ∧ i < t.insertedCount ∧ t.oldest ≤ i

/-- A reference is resolved as it should be: no step leaves the word, what is held is
    found, and it is an error where nothing is. -/
structure Resolved (t : DynamicTable) (r : Locator) : Prop where
  checked : r.resolveChecked t = some (r.resolve t)
  found : Live t (r.absolute t) →
    ∃ field, t.get (r.absolute t).toNat = some field ∧ r.resolve t = .ok field
  refused : ¬ Live t (r.absolute t) → ∃ index, r.resolve t = .error (.indexOutOfRange index)

/-- The index is not the last word, where its successor is taken. -/
def Safe : Locator → Prop
  | .relative index => index ≠ MAX
  | .indexed _ index => index ≠ MAX
  | .postBase _ _ => True

variable {t : DynamicTable}

theorem entryAtChecked_eq (index : ℕ) {o : Option ℕ} (h : ∀ i ∈ o, i < MAX) :
    entryAtChecked t index o = some (Decoder.entryAt t index o) := by
  cases o with
  | none => rfl
  | some i =>
    rw [entryAtChecked, t.getChecked_eq (h i rfl), Decoder.entryAt]
    simp only [Option.bind_eq_bind, Option.bind_some]
    cases t.get i <;> rfl

/-- What is held is found under the index worked out for it. -/
theorem entryAt_live {i : ℤ} (index : ℕ) {o : Option ℕ} (ho : o = some i.toNat) (h : Live t i) :
    ∃ field, t.get i.toNat = some field ∧ Decoder.entryAt t index o = .ok field := by
  obtain ⟨hpos, hlt, hold⟩ := h
  obtain ⟨field, hf⟩ := Option.isSome_iff_exists.1 (DynamicTable.isSome_get_iff.2
    (show t.oldest ≤ i.toNat ∧ i.toNat < t.insertedCount by omega))
  refine ⟨field, hf, ?_⟩
  rw [ho, Decoder.entryAt, hf]

theorem entryAt_dead {i : ℤ} (index : ℕ) {o : Option ℕ} (ho : ∀ j ∈ o, (j : ℤ) = i) (h : ¬ Live t i) :
    ∃ index', Decoder.entryAt t index o = .error (.indexOutOfRange index') := by
  cases o with
  | none => exact ⟨index, rfl⟩
  | some j =>
    have hnone : t.get j = none := by
      rw [← Option.not_isSome_iff_eq_none, DynamicTable.isSome_get_iff]
      rintro ⟨hold, hlt⟩
      have hj := ho j rfl
      exact h ⟨by omega, by omega, by omega⟩
    rw [Decoder.entryAt, hnone]
    exact ⟨j, rfl⟩

/-- A reference whose index is worked out as the integer it names is resolved as it
    should be. -/
theorem resolved_of {r : Locator} (index : ℕ) {o : Option ℕ} (hmax : t.insertedCount ≤ MAX)
    (ho : ∀ {j}, o = some j ↔ (j : ℤ) = r.absolute t ∧ j < t.insertedCount)
    (hr : r.resolve t = Decoder.entryAt t index o) (hc : r.resolveChecked t = entryAtChecked t index o) :
    Resolved t r := by
  refine ⟨?_, fun h => ?_, fun h => ?_⟩
  · rw [hc, hr]
    exact entryAtChecked_eq index fun j hj => (ho.1 hj).2.trans_le hmax
  · rw [hr]
    obtain ⟨hpos, hlt, _⟩ := id h
    exact entryAt_live index (ho.2 (by omega)) h
  · rw [hr]
    exact entryAt_dead index (fun j hj => (ho.1 hj).1) h

theorem Safe.resolved {r : Locator} (hmax : t.insertedCount ≤ MAX) (hr : r.Bounded) (h : r.Safe) :
    Resolved t r := by
  cases r with
  | relative index =>
    have hlt : index < MAX := lt_of_le_of_ne hr h
    refine resolved_of index hmax (DynamicTable.relative_eq_some hlt) rfl ?_
    rw [resolveChecked, t.relativeChecked_eq hlt]
    rfl
  | indexed base index =>
    have hlt : index < MAX := lt_of_le_of_ne hr.2 h
    refine resolved_of index hmax (DynamicTable.indexed_eq_some hlt) rfl ?_
    rw [resolveChecked, t.indexedChecked_eq base hlt]
    rfl
  | postBase base index => exact resolved_of index hmax (DynamicTable.postBase_eq_some hmax) rfl rfl

/-- The last word has no successor to work with. -/
theorem resolveChecked_of_not_safe {r : Locator} (h : ¬ r.Safe) : r.resolveChecked t = none := by
  cases r with
  | relative index =>
    rw [not_not.1 h, resolveChecked, DynamicTable.relativeChecked, DynamicTable.checked_max]
    rfl
  | indexed base index =>
    rw [not_not.1 h, resolveChecked, DynamicTable.indexedChecked, DynamicTable.checked_max]
    rfl
  | postBase base index => exact absurd trivial h

/-- A reference is resolved as it should be exactly where its index is not the last word. -/
theorem resolved_iff {r : Locator} (hmax : t.insertedCount ≤ MAX) (hr : r.Bounded) :
    Resolved t r ↔ r.Safe := by
  refine ⟨fun h => ?_, Safe.resolved hmax hr⟩
  by_contra hsafe
  have := h.checked
  rw [resolveChecked_of_not_safe hsafe] at this
  cases this

end Locator

/-! ## Instructions -/

namespace EncoderInstruction

/-- The instruction inserts an entry it names in one of the tables, or its name. -/
def refers : EncoderInstruction → Bool
  | .insertWithNameReference _ _ _ => true
  | .duplicate _ => true
  | _ => false

/-- What an instruction names in the dynamic table. -/
def locator : EncoderInstruction → Option Locator
  | .insertWithNameReference false nameIndex _ => some (.relative nameIndex)
  | .duplicate index => some (.relative index)
  | _ => none

/-- The field an instruction is to insert. -/
inductive Inserts (t : DynamicTable) : EncoderInstruction → HeaderField → Prop
  | static {index : ℕ} {field : HeaderField} {value : Octets} : StaticTable.entries[index]? = some field →
      Inserts t (.insertWithNameReference true index value) ⟨field.name, .fromUtf8Lossy value⟩
  | dynamic {index : ℕ} {field : HeaderField} {value : Octets} :
      Locator.Live t (Locator.absolute t (.relative index)) →
      t.get (Locator.absolute t (.relative index)).toNat = some field →
      Inserts t (.insertWithNameReference false index value) ⟨field.name, .fromUtf8Lossy value⟩
  | duplicate {index : ℕ} {field : HeaderField} :
      Locator.Live t (Locator.absolute t (.relative index)) →
      t.get (Locator.absolute t (.relative index)).toNat = some field → Inserts t (.duplicate index) field

end EncoderInstruction

namespace Decoder

open EncoderInstruction Locator

/-- `inserted`, with its arithmetic checked. -/
def insertedChecked (t : DynamicTable) : EncoderInstruction → Option (Except Error (Option HeaderField))
  | .insertWithNameReference false nameIndex value => do
    match ← Locator.resolveChecked t (.relative nameIndex) with
    | .error e => some (.error e)
    | .ok field => some (.ok (some ⟨field.name, .fromUtf8Lossy value⟩))
  | .duplicate index => do
    match ← Locator.resolveChecked t (.relative index) with
    | .error e => some (.error e)
    | .ok field => some (.ok (some field))
  | instruction => some (inserted t instruction)

/-- `onEncoderInstruction`, with its arithmetic checked: the count goes up by one. -/
def onEncoderInstructionChecked (d : Decoder) (instruction : EncoderInstruction) :
    Option (Except Error (Decoder × Option DecoderInstruction)) :=
  match instruction with
  | .setDynamicTableCapacity _ => some (d.onEncoderInstruction instruction)
  | instruction => do
    match ← insertedChecked d.dynamicTable instruction with
    | .error e => some (.error e)
    | .ok none => some (.ok (d, none))
    | .ok (some field) =>
      if h : d.dynamicTable.fits field = true then do
        let _ ← Checked.add MAX d.dynamicTable.insertedCount 1
        some (.ok ({ d with dynamicTable := d.dynamicTable.insert field h }, some (.insertCountIncrement 1)))
      else some (.error .entryTooLarge)

/-- An instruction that refers to an entry is processed as it should be: no step
    leaves the word, what it is to insert is inserted where it fits, and it is an
    error where there is nothing to insert. -/
structure Processed (d : Decoder) (i : EncoderInstruction) : Prop where
  checked : d.onEncoderInstructionChecked i = some (d.onEncoderInstruction i)
  inserts : ∀ field, Inserts d.dynamicTable i field → d.onEncoderInstruction i =
    if h : d.dynamicTable.fits field = true then
      .ok ({ d with dynamicTable := d.dynamicTable.insert field h }, some (.insertCountIncrement 1))
    else .error .entryTooLarge
  refused : (∀ field, ¬ Inserts d.dynamicTable i field) →
    ∃ index, d.onEncoderInstruction i = .error (.indexOutOfRange index)

/-- The index is not the last word, and neither is the count where one is added to it. -/
def SafeInstruction (d : Decoder) (i : EncoderInstruction) : Prop :=
  (∀ r ∈ i.locator, r.Safe) ∧
    ∀ field, Inserts d.dynamicTable i field → d.dynamicTable.fits field = true →
      d.dynamicTable.insertedCount < MAX

variable {d : Decoder} {i : EncoderInstruction}

theorem bounded_locator (hi : i.Bounded) : ∀ r ∈ i.locator, r.Bounded := by
  intro r hr
  rcases i with c | ⟨- | -, index, value⟩ | ⟨name, value⟩ | index
  · cases hr
  · cases hr
    exact Nat.le_sub_one_of_lt hi.1
  · cases hr
  · cases hr
  · cases hr
    exact Nat.le_sub_one_of_lt hi

theorem inserted_nameReference (t : DynamicTable) (index : ℕ) (value : Octets) :
    inserted t (.insertWithNameReference false index value) =
      (Locator.resolve t (.relative index)).bind fun field => .ok (some ⟨field.name, .fromUtf8Lossy value⟩) := rfl

theorem inserted_duplicate (t : DynamicTable) (index : ℕ) :
    inserted t (.duplicate index) =
      (Locator.resolve t (.relative index)).bind fun field => .ok (some field) := rfl

theorem insertedChecked_eq {t : DynamicTable} (h : ∀ r ∈ i.locator, Resolved t r) :
    insertedChecked t i = some (inserted t i) := by
  rcases i with c | ⟨- | -, index, value⟩ | ⟨name, value⟩ | index
  · rfl
  · rw [insertedChecked, (h _ rfl).checked, inserted_nameReference]
    cases Locator.resolve t (.relative index) <;> rfl
  · rfl
  · rfl
  · rw [insertedChecked, (h _ rfl).checked, inserted_duplicate]
    cases Locator.resolve t (.relative index) <;> rfl

theorem insertedChecked_of_not_safe {t : DynamicTable} {r : Locator} (hr : r ∈ i.locator) (h : ¬ r.Safe) :
    insertedChecked t i = none := by
  rcases i with c | ⟨- | -, index, value⟩ | ⟨name, value⟩ | index
  · cases hr
  · cases hr
    rw [insertedChecked, resolveChecked_of_not_safe h]
    rfl
  · cases hr
  · cases hr
  · cases hr
    rw [insertedChecked, resolveChecked_of_not_safe h]
    rfl

/-- What an instruction is to insert is what it inserts. -/
theorem inserted_of_inserts {t : DynamicTable} {field : HeaderField} (h : ∀ r ∈ i.locator, Resolved t r)
    (hi : Inserts t i field) : inserted t i = .ok (some field) := by
  cases hi with
  | static hs =>
    rw [inserted, staticAt, hs]
    rfl
  | dynamic hlive hget =>
    obtain ⟨f, hget', hr⟩ := (h _ rfl).found hlive
    rw [inserted_nameReference, hr, Option.some.inj (hget.symm.trans hget')]
    rfl
  | duplicate hlive hget =>
    obtain ⟨f, hget', hr⟩ := (h _ rfl).found hlive
    rw [inserted_duplicate, hr, Option.some.inj (hget.symm.trans hget')]
    rfl

/-- Where it is to insert nothing, what it names is out of range. -/
theorem inserted_of_nothing {t : DynamicTable} (hr : i.refers = true) (h : ∀ r ∈ i.locator, Resolved t r)
    (hi : ∀ field, ¬ Inserts t i field) : ∃ index, inserted t i = .error (.indexOutOfRange index) := by
  rcases i with c | ⟨- | -, index, value⟩ | ⟨name, value⟩ | index
  · cases hr
  · have hdead : ¬ Live t (Locator.absolute t (.relative index)) := fun hlive => by
      obtain ⟨f, hget, -⟩ := (h _ rfl).found hlive
      exact hi _ (.dynamic hlive hget)
    obtain ⟨index', he⟩ := (h _ rfl).refused hdead
    rw [inserted_nameReference, he]
    exact ⟨index', rfl⟩
  · cases hs : StaticTable.entries[index]? with
    | none =>
      rw [inserted, staticAt, hs]
      exact ⟨index, rfl⟩
    | some f => exact absurd (.static hs) (hi _)
  · cases hr
  · have hdead : ¬ Live t (Locator.absolute t (.relative index)) := fun hlive => by
      obtain ⟨f, hget, -⟩ := (h _ rfl).found hlive
      exact hi _ (.duplicate hlive hget)
    obtain ⟨index', he⟩ := (h _ rfl).refused hdead
    rw [inserted_duplicate, he]
    exact ⟨index', rfl⟩

/-- An instruction that refers to an entry is worked off as an insertion. -/
theorem onEncoderInstruction_refers (d : Decoder) (hr : i.refers = true) :
    d.onEncoderInstruction i = (inserted d.dynamicTable i).bind fun
      | none => .ok (d, none)
      | some field =>
        if h : d.dynamicTable.fits field = true then
          .ok ({ d with dynamicTable := d.dynamicTable.insert field h }, some (.insertCountIncrement 1))
        else .error .entryTooLarge := by
  cases i <;> first | rfl | cases hr

theorem onEncoderInstructionChecked_refers (d : Decoder) (hr : i.refers = true) :
    d.onEncoderInstructionChecked i = (insertedChecked d.dynamicTable i).bind fun
      | .error e => some (.error e)
      | .ok none => some (.ok (d, none))
      | .ok (some field) =>
        if h : d.dynamicTable.fits field = true then
          (Checked.add MAX d.dynamicTable.insertedCount 1).bind fun _ =>
            some (.ok ({ d with dynamicTable := d.dynamicTable.insert field h }, some (.insertCountIncrement 1)))
        else some (.error .entryTooLarge) := by
  cases i <;> first | rfl | cases hr

/-- A decoder that is where it should be processes an instruction as it should. -/
theorem SafeInstruction.processed (hmax : d.dynamicTable.insertedCount ≤ MAX) (hi : i.Bounded)
    (hr : i.refers = true) (h : d.SafeInstruction i) : d.Processed i := by
  have hres : ∀ r ∈ i.locator, Resolved d.dynamicTable r := fun r hloc =>
    (h.1 r hloc).resolved hmax (bounded_locator hi r hloc)
  have hsome (field : HeaderField) (hins : Inserts d.dynamicTable i field) :
      inserted d.dynamicTable i = .ok (some field) := inserted_of_inserts hres hins
  refine ⟨?_, fun field hins => ?_, fun hno => ?_⟩
  · rw [onEncoderInstructionChecked_refers d hr, onEncoderInstruction_refers d hr, insertedChecked_eq hres,
      Option.bind_some]
    by_cases hins : ∃ field, Inserts d.dynamicTable i field
    · obtain ⟨field, hins⟩ := hins
      rw [hsome field hins]
      by_cases hfit : d.dynamicTable.fits field = true
      · have hadd := Checked.add_of_le (show d.dynamicTable.insertedCount + 1 ≤ MAX from h.2 field hins hfit)
        simp only [Except.bind, dif_pos hfit, hadd, Option.bind_some]
      · simp only [Except.bind, dif_neg hfit]
    · obtain ⟨index, he⟩ := inserted_of_nothing hr hres fun field hf => hins ⟨field, hf⟩
      rw [he]
      rfl
  · rw [onEncoderInstruction_refers d hr, hsome field hins]
    rfl
  · obtain ⟨index, he⟩ := inserted_of_nothing hr hres hno
    rw [onEncoderInstruction_refers d hr, he]
    exact ⟨index, rfl⟩

theorem processed_iff (hmax : d.dynamicTable.insertedCount ≤ MAX) (hi : i.Bounded) (hr : i.refers = true) :
    d.Processed i ↔ d.SafeInstruction i := by
  refine ⟨fun h => ?_, SafeInstruction.processed hmax hi hr⟩
  have hc := h.checked
  rw [onEncoderInstructionChecked_refers d hr] at hc
  have hsafe : ∀ r ∈ i.locator, r.Safe := by
    intro r hloc
    by_contra hnot
    rw [insertedChecked_of_not_safe hloc hnot] at hc
    cases hc
  refine ⟨hsafe, fun field hins hfit => ?_⟩
  have hres : ∀ r ∈ i.locator, Resolved d.dynamicTable r := fun r hloc =>
    (hsafe r hloc).resolved hmax (bounded_locator hi r hloc)
  by_contra hfull
  rw [insertedChecked_eq hres, inserted_of_inserts hres hins, Option.bind_some] at hc
  simp only [dif_pos hfit, Checked.add_of_lt (show MAX < d.dynamicTable.insertedCount + 1 by omega),
    Option.bind_none] at hc
  cases hc

/-! ## The base of a section -/

/-- The base that a sign and a delta place about an insert count. -/
def mathBase (required : ℕ) (sign : UInt8) (delta : ℕ) : ℤ :=
  if sign &&& 0x80 ≠ 0 then required - delta - 1 else required + delta

/-- The base is the integer meant, if that is a word, and otherwise an error. -/
theorem base_spec {required consumed taken delta : ℕ} {block : Octets} {sign : UInt8}
    (hr : required ≤ MAX) (hs : block[consumed]? = some sign)
    (hd : integer (block.drop consumed) 7 = .ok (taken, delta)) :
    (∀ n b, base required block consumed = .ok (n, b) ↔
      n = consumed + taken ∧ (b : ℤ) = mathBase required sign delta ∧ b ≤ MAX) ∧
    (¬ (0 ≤ mathBase required sign delta ∧ mathBase required sign delta ≤ MAX) →
      ∃ e, base required block consumed = .error e) := by
  simp only [base, hs, hd, mathBase, bind, Except.bind]
  split_ifs with hneg hlow hhigh
  · exact ⟨fun n b => iff_of_false nofun (by omega), fun _ => ⟨_, rfl⟩⟩
  · refine ⟨fun n b => ?_, fun hnot => absurd ?_ hnot⟩
    · rw [Except.ok.injEq, Prod.mk.injEq]
      omega
    · omega
  · exact ⟨fun n b => iff_of_false nofun (by omega), fun _ => ⟨_, rfl⟩⟩
  · refine ⟨fun n b => ?_, fun hnot => absurd ?_ hnot⟩
    · rw [Except.ok.injEq, Prod.mk.injEq]
      omega
    · omega

end Decoder

/-! ## The whole -/

/-- At every state of a decoder, references and the instructions that use them are
    worked out within the word, and found where there is something to find, exactly
    where no index is the last word; so is the base of a section, always. -/
theorem index_arithmetic (d : Decoder) (hmax : d.dynamicTable.insertedCount ≤ MAX) :
    (∀ r : Locator, r.Bounded → (Locator.Resolved d.dynamicTable r ↔ r.Safe)) ∧
    (∀ i : EncoderInstruction, i.Bounded → i.refers = true → (d.Processed i ↔ d.SafeInstruction i)) ∧
    ∀ (required consumed taken delta : ℕ) (block : Octets) (sign : UInt8), required ≤ MAX →
      block[consumed]? = some sign → integer (block.drop consumed) 7 = .ok (taken, delta) →
      (∀ n b, Decoder.base required block consumed = .ok (n, b) ↔
        n = consumed + taken ∧ (b : ℤ) = Decoder.mathBase required sign delta ∧ b ≤ MAX) ∧
      (¬ (0 ≤ Decoder.mathBase required sign delta ∧ Decoder.mathBase required sign delta ≤ MAX) →
        ∃ e, Decoder.base required block consumed = .error e) :=
  ⟨fun _ hr => Locator.resolved_iff hmax hr, fun _ hi hr => Decoder.processed_iff hmax hi hr,
    fun _ _ _ _ _ _ hr hs hd => Decoder.base_spec hr hs hd⟩

theorem index_arithmetic_last :
    Locator.Resolved Decoder.new.dynamicTable (.postBase MAX MAX) ∧ Decoder.new.Processed (.duplicate (MAX - 1)) ∧
      ∃ e, Decoder.base 3 [0x83] 0 = .error e := by
  have harith := index_arithmetic .new (by decide)
  refine ⟨(harith.1 (.postBase MAX MAX) ⟨le_rfl, le_rfl⟩).2 trivial,
    (harith.2.1 (.duplicate (MAX - 1)) (show MAX - 1 < 2 ^ 64 by decide) rfl).2 ⟨?_, fun _ _ _ => by decide⟩,
    (harith.2.2 3 0 1 3 [0x83] 0x83 (by decide) rfl rfl).2 (by decide)⟩
  rintro r ⟨⟩
  exact (by decide : MAX - 1 ≠ MAX)

/-- A section whose base is 0 names the entry 2 ^ 64 before it, and is answered the
    first one inserted. -/
theorem index_wraps :
    (¬ ∀ (t : DynamicTable) (r : Locator), t.insertedCount ≤ MAX → r.Bounded → Locator.Resolved t r) ∧
      ((Decoder.new.onEncoderStream (EncoderInstruction.insertWithLiteralName [0x61] [0x62]).encode).1.decode 0
        ([0x02, 0x80] ++ Integer.encode MAX 6 0x80)).2 =
          .ok ([.lit "a" "b"], some (.sectionAcknowledgment 0)) := by
  refine ⟨fun h => ?_, by decide +kernel⟩
  have hbounded : Locator.Bounded (.indexed 0 MAX) := ⟨Nat.zero_le _, le_rfl⟩
  have hresolved := h (.new 0) (.indexed 0 MAX) (by decide) hbounded
  exact (Locator.resolved_iff (by decide) hbounded).1 hresolved rfl

end Soyokaze.Qpack

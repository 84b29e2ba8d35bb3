import Soyokaze.Helpers.Qpack

/-!
# QPACK: a section, written and read back

What the encoder does for one section, and what a decoder makes of it.

* `Encoder.encode_spec`: every reference of a section resolves in the table the
  encoder is left with, lies below the count the peer is known to have, and is
  within the section that guards it; what is queued inserts exactly what the
  encoder inserted;
* `Encoder.Guarded`: no section in flight names an entry that was evicted, which
  encoding keeps;
* `Decoder.decode_read`: a decoder whose table has caught up with the section,
  and not been overtaken by evictions, reads its fields back.
-/

namespace Soyokaze.Qpack

open Framing

/-! ## References -/

/-- A reference leads to an entry with the name of the field, and to the field
    itself where it says so. -/
def Resolves (t : DynamicTable) (field : HeaderField) : Option Reference → Prop
  | none => True
  | some (true, index, exact) => ∃ f, StaticTable.entries[index]? = some f ∧ f.name = field.name ∧
      (exact = true → f = field)
  | some (false, absolute, exact) => ∃ f, t.get absolute = some f ∧ f.name = field.name ∧
      (exact = true → f = field)

/-- The dynamic entry a reference names, if it names one. -/
def named : Option Reference → Option ℕ
  | some (false, absolute, _) => some absolute
  | _ => none

/-- A reference still resolves in any table that agrees on the entry it names. -/
theorem Resolves.congr {t t' : DynamicTable} {field : HeaderField} {reference : Option Reference}
    (h : Resolves t field reference) (ht : ∀ a ∈ named reference, t'.get a = t.get a) :
    Resolves t' field reference := by
  match reference with
  | none => trivial
  | some (true, _, _) => exact h
  | some (false, a, _) =>
    rw [Resolves, ht a rfl]
    exact h

/-- A dynamic entry that a reference leads to is held. -/
theorem Resolves.isSome_get {t : DynamicTable} {field : HeaderField} {reference : Option Reference}
    (h : Resolves t field reference) {a : ℕ} (ha : a ∈ named reference) : (t.get a).isSome = true := by
  match reference, ha with
  | some (false, _, _), rfl =>
    obtain ⟨f, hf, -⟩ := h
    exact Option.isSome_of_eq_some hf

namespace Encoder

/-- What is chosen for a field resolves, and a dynamic entry is one the peer has. -/
theorem choose_spec (t : DynamicTable) (field : HeaderField) (tracked : Bool) (below : ℕ) :
    Resolves t field (choose (StaticTable.find field) tracked (t.probe field below)).1 ∧
      ∀ a ∈ named (choose (StaticTable.find field) tracked (t.probe field below)).1, a < below := by
  have static : ∀ {i b}, StaticTable.find field = some (i, b) →
      Resolves t field (some (true, i, b)) := fun h => StaticTable.find_sound h
  have dynamic : ∀ {i b}, (t.probe field below).1 = some (i, b) →
      Resolves t field (some (false, i, b)) ∧ i < below := fun h =>
    ⟨(DynamicTable.probe_sound h).2, (DynamicTable.probe_sound h).1⟩
  generalize StaticTable.find field = inStatic at static
  generalize t.probe field below = found at dynamic
  obtain ⟨found, anywhere⟩ := found
  have hname : ∀ {i b}, Resolves t field (some (true, i, b)) → Resolves t field (some (true, i, false)) :=
    fun ⟨f, hf, hn, _⟩ => ⟨f, hf, hn, by simp⟩
  have hname' : ∀ {i b}, Resolves t field (some (false, i, b)) → Resolves t field (some (false, i, false)) :=
    fun ⟨f, hf, hn, _⟩ => ⟨f, hf, hn, by simp⟩
  match inStatic, tracked, found with
  | some (i, true), _, _ => exact ⟨static rfl, by simp [choose, named]⟩
  | some (i, false), false, _ => exact ⟨static rfl, by simp [choose, named]⟩
  | none, false, _ => exact ⟨trivial, by simp [choose, named]⟩
  | some (i, false), true, some (a, true) => exact ⟨(dynamic rfl).1, by simpa [choose, named] using (dynamic rfl).2⟩
  | none, true, some (a, true) => exact ⟨(dynamic rfl).1, by simpa [choose, named] using (dynamic rfl).2⟩
  | some (i, false), true, some (a, false) => exact ⟨static rfl, by simp [choose, named]⟩
  | some (i, false), true, none => exact ⟨static rfl, by simp [choose, named]⟩
  | none, true, some (a, false) => exact ⟨(dynamic rfl).1, by simpa [choose, named] using (dynamic rfl).2⟩
  | none, true, none => exact ⟨trivial, by simp [choose, named]⟩

theorem referenced_le_floor {e : Encoder} {s : Section} (hs : s ∈ e.sections) : e.referenced ≤ s.floor := by
  refine (min_le_left _ _).trans ?_
  have hmem : s.floor ∈ e.sections.map (·.floor) := List.mem_map_of_mem hs
  cases hm : (e.sections.map (·.floor)).min? with
  | none => simp_all
  | some m => exact (List.min?_eq_some_iff.1 hm).2 _ hmem

theorem referenced_le_sectionFloor (e : Encoder) : e.referenced ≤ e.sectionFloor := min_le_right _ _

/-- What an insertion does: nothing, or one instruction and the insertion it asks
    for, which evicts nothing that is referenced. -/
theorem insert_spec (e : Encoder) (field : HeaderField) (reference : Option Reference) :
    (e.insert field reference).1 = e ∨
      ∃ h : e.dynamicTable.fits field = true,
        (e.dynamicTable.insert field h).oldest ≤ max e.dynamicTable.oldest e.referenced ∧
        (e.insert field reference).1 = { e with
          dynamicTable := e.dynamicTable.insert field h
          streamOut := e.streamOut ++ (e.insertion field reference).encode } := by
  rw [insert]
  split_ifs with h
  · obtain ⟨hfit, hle⟩ := (DynamicTable.admits_spec _ _ _).1 h
    exact .inr ⟨hfit, hle, rfl⟩
  · exact .inl rfl

end Encoder

/-! ## Instructions that insert -/

/-- Each instruction in turn inserts a field that fits. -/
inductive InsertsAll : DynamicTable → List EncoderInstruction → DynamicTable → Prop
  | nil (t : DynamicTable) : InsertsAll t [] t
  | cons {t t' : DynamicTable} {i : EncoderInstruction} {is : List EncoderInstruction}
      {field : HeaderField} (h : t.fits field = true) (hi : Decoder.inserted t i = .ok (some field))
      (his : InsertsAll (t.insert field h) is t') : InsertsAll t (i :: is) t'

theorem InsertsAll.append {t t' t'' : DynamicTable} {is js : List EncoderInstruction}
    (h : InsertsAll t is t') (h' : InsertsAll t' js t'') : InsertsAll t (is ++ js) t'' := by
  induction h with
  | nil => exact h'
  | cons h hi _ ih => exact .cons h hi (ih h')

theorem InsertsAll.follows {t t' : DynamicTable} {is : List EncoderInstruction} (h : InsertsAll t is t') :
    t.Follows t' ∧ t'.insertedCount = t.insertedCount + is.length ∧ t'.capacity = t.capacity := by
  induction h with
  | nil t => exact ⟨.refl t, rfl, rfl⟩
  | cons h _ _ ih =>
    obtain ⟨hf, hc, hcap⟩ := ih
    refine ⟨(DynamicTable.follows_insert _ _ h).trans hf, ?_, hcap.trans (DynamicTable.capacity_insert _ _ _)⟩
    rw [hc, DynamicTable.insertedCount_insert, List.length_cons]
    omega

/-- The instruction written for a field inserts it. -/
theorem Encoder.inserted_insertion {e : Encoder} {field : HeaderField} {reference : Option Reference}
    (hr : Resolves e.dynamicTable field reference) (hc : e.dynamicTable.insertedCount ≤ MAX) :
    Decoder.inserted e.dynamicTable (e.insertion field reference) = .ok (some field) := by
  match reference with
  | none => simp [insertion, Decoder.inserted]
  | some (true, i, _) =>
    obtain ⟨f, hf, hn, -⟩ := hr
    simp [insertion, Decoder.inserted, Decoder.staticAt, hf, bind, Except.bind, hn]
  | some (false, a, _) =>
    obtain ⟨f, hf, hn, -⟩ := hr
    have hlt := (DynamicTable.isSome_get_iff.1 (Option.isSome_of_eq_some hf)).2
    have hsucc : DynamicTable.succ (e.dynamicTable.insertedCount - a - 1) =
        e.dynamicTable.insertedCount - a := by
      rw [MAX] at hc
      rw [DynamicTable.succ, Nat.mod_eq_of_lt (by omega)]
      omega
    have hrel : e.dynamicTable.relative (e.dynamicTable.insertedCount - a - 1) = some a := by
      rw [DynamicTable.relative, hsucc, if_pos (Nat.sub_le _ _)]
      congr 1
      omega
    simp [insertion, Decoder.inserted, hrel, Decoder.entryAt, hf, bind, Except.bind, hn]

theorem Encoder.bounded_insertion {e : Encoder} {field : HeaderField} {reference : Option Reference}
    (hr : Resolves e.dynamicTable field reference) (hc : e.dynamicTable.insertedCount ≤ MAX)
    (hn : field.name.len < 2 ^ 64) (hv : field.value.len < 2 ^ 64) :
    (e.insertion field reference).Bounded := by
  match reference with
  | none => exact ⟨hn, hv⟩
  | some (true, i, _) =>
    obtain ⟨f, hf, -⟩ := hr
    have := (List.getElem?_eq_some_iff.1 hf).1
    rw [StaticTable.length_entries] at this
    exact ⟨by omega, hv⟩
  | some (false, a, _) =>
    rw [MAX] at hc
    exact ⟨by omega, hv⟩

/-! ## Encoding a section -/

/-- What settling references leaves behind, from `e` to `e'`. -/
structure Encoder.Grows (e e' : Encoder) (instructions : List EncoderInstruction) : Prop where
  inserts : InsertsAll e.dynamicTable instructions e'.dynamicTable
  bounded : ∀ i ∈ instructions, i.Bounded
  streamOut : e'.streamOut = e.streamOut ++ instructions.flatMap (·.encode)
  rest : e' = { e with
    dynamicTable := e'.dynamicTable, sectionFloor := e'.sectionFloor, streamOut := e'.streamOut }
  /-- Nothing in flight and nothing named so far is evicted. -/
  kept : ∀ a, e.dynamicTable.oldest ≤ a → e.sectionFloor ≤ a ∨ (∃ s ∈ e.sections, s.floor ≤ a) →
    e'.dynamicTable.oldest ≤ a
  floor : e'.sectionFloor ≤ e.sectionFloor

namespace Encoder

theorem Grows.trans {e e' e'' : Encoder} {is js : List EncoderInstruction} (h : Grows e e' is)
    (h' : Grows e' e'' js) : Grows e e'' (is ++ js) where
  inserts := h.inserts.append h'.inserts
  bounded i hi := (List.mem_append.1 hi).elim (h.bounded i) (h'.bounded i)
  streamOut := by rw [h'.streamOut, h.streamOut, List.flatMap_append, List.append_assoc]
  rest := by
    rw [h'.rest, h.rest]
  kept a ha hk := by
    have hsections : e'.sections = e.sections := by rw [h.rest]
    exact h'.kept a (h.kept a ha hk) (hk.imp h.floor.trans fun hs => hsections ▸ hs)
  floor := h'.floor.trans h.floor

/-- Recording a reference only lowers the floor. -/
theorem grows_floor (e : Encoder) {floor : ℕ} (h : floor ≤ e.sectionFloor) :
    Grows e { e with sectionFloor := floor } [] where
  inserts := .nil _
  bounded i hi := by cases hi
  streamOut := by simp
  rest := rfl
  kept a ha _ := ha
  floor := h

theorem grows_insert (e : Encoder) {field : HeaderField} {reference : Option Reference}
    (hr : Resolves e.dynamicTable field reference) (hc : e.dynamicTable.insertedCount ≤ MAX)
    (hn : field.name.len < 2 ^ 64) (hv : field.value.len < 2 ^ 64) :
    ∃ is, Grows e (e.insert field reference).1 is ∧
      (e.insert field reference).1.dynamicTable.oldest ≤ max e.dynamicTable.oldest e.sectionFloor := by
  rcases e.insert_spec field reference with h | ⟨hfit, hold, h⟩
  · rw [h]
    exact ⟨[], ⟨.nil _, by simp, by simp, rfl, fun _ ha _ => ha, le_rfl⟩, le_max_left _ _⟩
  · rw [h]
    refine ⟨[e.insertion field reference], ⟨.cons hfit (inserted_insertion hr hc) (.nil _), ?_, by simp, rfl,
      fun a ha hk => hold.trans (max_le ha ?_), le_rfl⟩, ?_⟩
    · rintro i hi
      rw [List.mem_singleton.1 hi]
      exact bounded_insertion hr hc hn hv
    · rcases hk with hk | ⟨s, hs, hle⟩
      · exact e.referenced_le_sectionFloor.trans hk
      · exact (referenced_le_floor hs).trans hle
    · exact hold.trans (max_le_max le_rfl e.referenced_le_sectionFloor)

/-- What one field leaves behind: a reference that resolves and is guarded. -/
structure Refers (e e' : Encoder) (required required' : ℕ) (field : HeaderField)
    (reference : Option Reference) : Prop where
  resolves : Resolves e'.dynamicTable field reference
  named : ∀ a ∈ named reference, a < e.knownReceivedCount ∧ a < required' ∧ e'.sectionFloor ≤ a
  required : required ≤ required' ∧ required' ≤ max required e.knownReceivedCount
  floor : e'.dynamicTable.oldest ≤ e'.sectionFloor ∧ (0 < required' → e'.sectionFloor < required')

/-- Recording a reference lowers the floor to the entry named, and no further. -/
theorem record_spec {e : Encoder} (required : ℕ) {field : HeaderField} {reference : Option Reference}
    (hr : Resolves e.dynamicTable field reference)
    (hk : ∀ a ∈ Qpack.named reference, a < e.knownReceivedCount)
    (hc : e.dynamicTable.insertedCount ≤ MAX) (ho : e.dynamicTable.oldest ≤ e.sectionFloor)
    (hreq : 0 < required → e.sectionFloor < required) :
    Grows e (e.record required reference).1 [] ∧
      Refers e (e.record required reference).1 required (e.record required reference).2 field reference := by
  match reference with
  | none =>
    exact ⟨e.grows_floor le_rfl, hr, by simp [Qpack.named], ⟨le_rfl, le_max_left _ _⟩, ho, hreq⟩
  | some (true, i, _) =>
    exact ⟨e.grows_floor le_rfl, hr, by simp [Qpack.named], ⟨le_rfl, le_max_left _ _⟩, ho, hreq⟩
  | some (false, a, exact) =>
    have hka : a < e.knownReceivedCount := hk a rfl
    obtain ⟨f, hf, -⟩ := id hr
    obtain ⟨hold, hlt⟩ := DynamicTable.isSome_get_iff.1 (Option.isSome_of_eq_some hf)
    have hsucc : saturatingAdd a 1 = a + 1 := min_eq_left (by omega)
    refine ⟨e.grows_floor (min_le_left _ _), ⟨hr, ?_, ?_, ?_⟩⟩
    · rintro _ ⟨⟩
      refine ⟨hka, ?_, min_le_right _ _⟩
      simp only [record, hsucc]
      omega
    · simp only [record, hsucc]
      omega
    · simp only [record, hsucc]
      omega

theorem dynamicTable_record (e : Encoder) (required : ℕ) (reference : Option Reference) :
    (e.record required reference).1.dynamicTable = e.dynamicTable := by
  match reference with
  | none | some (true, _, _) | some (false, _, _) => rfl

/-- One field: the reference resolves in the table it is settled against, and in
    the one the insertion leaves. -/
theorem settle_spec (tracked : Bool) {e : Encoder} {required : ℕ} {field : HeaderField}
    {chosen : Option Reference × Bool} (hr : Resolves e.dynamicTable field chosen.1)
    (hk : ∀ a ∈ Qpack.named chosen.1, a < e.knownReceivedCount)
    (hc : e.dynamicTable.insertedCount ≤ MAX) (hn : field.name.len < 2 ^ 64)
    (hv : field.value.len < 2 ^ 64) (ho : e.dynamicTable.oldest ≤ e.sectionFloor)
    (hreq : 0 < required → e.sectionFloor < required) :
    ∃ is, Grows e (settle tracked e required field chosen).1 is ∧
      Refers e (settle tracked e required field chosen).1 required
        (settle tracked e required field chosen).2.1 field (settle tracked e required field chosen).2.2 := by
  obtain ⟨hgrows, hrefers⟩ := record_spec required hr hk hc ho hreq
  have htable := dynamicTable_record e required chosen.1
  rw [settle]
  generalize e.record required chosen.1 = recorded at *
  obtain ⟨e', required'⟩ := recorded
  simp only at hgrows hrefers htable ⊢
  split_ifs
  · obtain ⟨is, hins, hold⟩ := e'.grows_insert (htable ▸ hr) (htable ▸ hc) hn hv
    have hfloor : (e'.insert field chosen.1).1.sectionFloor = e'.sectionFloor := by
      rcases e'.insert_spec field chosen.1 with h | ⟨_, _, h⟩ <;> rw [h]
    refine ⟨is, hgrows.trans hins, hrefers.resolves.congr fun a ha => ?_, ?_, hrefers.required, ?_⟩
    · -- The entry named is at or above the floor, which the insertion kept.
      obtain ⟨hka, hlt, hle⟩ := hrefers.named a ha
      obtain ⟨hage, hcount⟩ := DynamicTable.isSome_get_iff.1 (hrefers.resolves.isSome_get ha)
      exact hins.inserts.follows.1.get a (hins.kept a hage (.inl hle)) hcount
    · rw [hfloor]
      exact hrefers.named
    · rw [hfloor]
      exact ⟨hold.trans (max_le hrefers.floor.1 le_rfl), hrefers.floor.2⟩
  · exact ⟨[], hgrows, hrefers⟩

theorem refer_spec (tracked : Bool) {e : Encoder} {required : ℕ} {field : HeaderField}
    (hc : e.dynamicTable.insertedCount ≤ MAX) (hn : field.name.len < 2 ^ 64)
    (hv : field.value.len < 2 ^ 64) (ho : e.dynamicTable.oldest ≤ e.sectionFloor)
    (hreq : 0 < required → e.sectionFloor < required) :
    ∃ is, Grows e (refer tracked e required field).1 is ∧
      Refers e (refer tracked e required field).1 required (refer tracked e required field).2.1 field
        (refer tracked e required field).2.2 := by
  obtain ⟨hres, hnamed⟩ := choose_spec e.dynamicTable field tracked e.knownReceivedCount
  rw [refer]
  exact settle_spec tracked hres hnamed hc hn hv ho hreq

theorem insertedCount_le_settle (tracked : Bool) (e : Encoder) (required : ℕ) (field : HeaderField)
    (chosen : Option Reference × Bool) :
    e.dynamicTable.insertedCount ≤ (settle tracked e required field chosen).1.dynamicTable.insertedCount := by
  have htable := dynamicTable_record e required chosen.1
  rw [settle, ← htable]
  split_ifs
  · rcases (e.record required chosen.1).1.insert_spec field chosen.1 with h | ⟨hfit, _, h⟩ <;> rw [h]
    exact (DynamicTable.follows_insert _ _ hfit).count
  · exact le_rfl

theorem insertedCount_le_referAll (tracked : Bool) (e : Encoder) (required : ℕ) (fields : List HeaderField) :
    e.dynamicTable.insertedCount ≤ (referAll tracked e required fields).1.dynamicTable.insertedCount := by
  induction fields generalizing e required with
  | nil => exact le_rfl
  | cons field fields ih =>
    rw [referAll]
    refine le_trans ?_ (ih _ _)
    rw [refer]
    exact insertedCount_le_settle _ _ _ _ _

/-- What the fields of a section leave behind: references that resolve in the
    last table, and are guarded by the section. -/
structure RefersAll (e e' : Encoder) (required required' : ℕ) (fields : List HeaderField)
    (references : List (Option Reference)) : Prop where
  resolves : List.Forall₂ (Resolves e'.dynamicTable) fields references
  named : ∀ r ∈ references, ∀ a ∈ named r, a < e.knownReceivedCount ∧ a < required' ∧ e'.sectionFloor ≤ a
  required : required ≤ required' ∧ required' ≤ max required e.knownReceivedCount
  floor : e'.dynamicTable.oldest ≤ e'.sectionFloor ∧ (0 < required' → e'.sectionFloor < required')

theorem referAll_spec (tracked : Bool) {e : Encoder} {required : ℕ} {fields : List HeaderField}
    (hc : (referAll tracked e required fields).1.dynamicTable.insertedCount ≤ MAX)
    (hf : ∀ f ∈ fields, f.name.len < 2 ^ 64 ∧ f.value.len < 2 ^ 64)
    (ho : e.dynamicTable.oldest ≤ e.sectionFloor) (hreq : 0 < required → e.sectionFloor < required) :
    ∃ is, Grows e (referAll tracked e required fields).1 is ∧
      RefersAll e (referAll tracked e required fields).1 required (referAll tracked e required fields).2.1
        fields (referAll tracked e required fields).2.2 := by
  induction fields generalizing e required with
  | nil =>
    exact ⟨[], e.grows_floor le_rfl, .nil, by simp [referAll], ⟨le_rfl, le_max_left _ _⟩, ho, hreq⟩
  | cons field fields ih =>
    obtain ⟨⟨hn, hv⟩, hf⟩ := List.forall_mem_cons.1 hf
    have hcount := (insertedCount_le_referAll tracked e required (field :: fields)).trans hc
    rw [referAll] at hc ⊢
    obtain ⟨is, hgrows, hone⟩ := refer_spec tracked hcount hn hv ho hreq
    generalize refer tracked e required field = one at hc hgrows hone ⊢
    obtain ⟨e₁, required₁, reference⟩ := one
    simp only at hc hgrows hone ⊢
    obtain ⟨js, hgrows', hrest⟩ := ih hc hf hone.floor.1 hone.floor.2
    generalize referAll tracked e₁ required₁ fields = rest at hgrows' hrest ⊢
    obtain ⟨e₂, required₂, references⟩ := rest
    simp only at hgrows' hrest ⊢
    have hknown : e₁.knownReceivedCount = e.knownReceivedCount := by rw [hgrows.rest]
    have hkept : ∀ a ∈ Qpack.named reference, e₂.dynamicTable.get a = e₁.dynamicTable.get a := fun a ha => by
      obtain ⟨-, -, hle⟩ := hone.named a ha
      obtain ⟨hage, hlt⟩ := DynamicTable.isSome_get_iff.1 (hone.resolves.isSome_get ha)
      exact hgrows'.inserts.follows.1.get a (hgrows'.kept a hage (.inl hle)) hlt
    refine ⟨is ++ js, hgrows.trans hgrows', ⟨.cons (hone.resolves.congr hkept) hrest.resolves, ?_, ?_,
      hrest.floor⟩⟩
    · refine List.forall_mem_cons.2 ⟨fun a ha => ?_, fun r hr a ha => ?_⟩
      · obtain ⟨hk, hlt, hle⟩ := hone.named a ha
        exact ⟨hk, hlt.trans_le hrest.required.1, hgrows'.floor.trans hle⟩
      · obtain ⟨hk, hlt, hle⟩ := hrest.named r hr a ha
        exact ⟨hknown ▸ hk, hlt, hle⟩
    · have h₁ := hone.required
      have h₂ := hrest.required
      rw [hknown] at h₂
      omega

end Encoder

/-! ## Reading a section -/

namespace Decoder

/-- The bits of a first octet that say which representation it begins. -/
theorem kind_of_indexed {n : ℕ} (h : n ≤ Integer.limit 6) :
    ((0xc0 ||| UInt8.ofNat n) &&& 0x80 ≠ 0 ∧ (0xc0 ||| UInt8.ofNat n) &&& 0x40 ≠ 0) ∧
      ((0x80 ||| UInt8.ofNat n) &&& 0x80 ≠ 0 ∧ (0x80 ||| UInt8.ofNat n) &&& 0x40 = 0) := by
  have : n < 64 := Nat.lt_succ_of_le h
  revert n
  decide

theorem kind_of_named {n : ℕ} (h : n ≤ Integer.limit 4) (never : Bool) :
    (((0x50 : UInt8) ||| bit never <<< 5 ||| UInt8.ofNat n) &&& 0x80 = 0 ∧
      ((0x50 : UInt8) ||| bit never <<< 5 ||| UInt8.ofNat n) &&& 0x40 ≠ 0 ∧
      ((0x50 : UInt8) ||| bit never <<< 5 ||| UInt8.ofNat n) &&& 0x10 ≠ 0) ∧
    (((0x40 : UInt8) ||| bit never <<< 5 ||| UInt8.ofNat n) &&& 0x80 = 0 ∧
      ((0x40 : UInt8) ||| bit never <<< 5 ||| UInt8.ofNat n) &&& 0x40 ≠ 0 ∧
      ((0x40 : UInt8) ||| bit never <<< 5 ||| UInt8.ofNat n) &&& 0x10 = 0) := by
  have : n < 16 := Nat.lt_succ_of_le h
  cases never <;> revert n <;> decide

theorem kind_of_literal {n : ℕ} (h : n ≤ Integer.limit 4) (never : Bool) :
    ((0x20 : UInt8) ||| bit never <<< 4 ||| UInt8.ofNat n) &&& 0x80 = 0 ∧
      ((0x20 : UInt8) ||| bit never <<< 4 ||| UInt8.ofNat n) &&& 0x40 = 0 ∧
      ((0x20 : UInt8) ||| bit never <<< 4 ||| UInt8.ofNat n) &&& 0x20 ≠ 0 := by
  have : n < 16 := Nat.lt_succ_of_le h
  cases never <;> revert n <;> decide

theorem resolve_static {t : DynamicTable} {base index : ℕ} {f : HeaderField}
    (hf : StaticTable.entries[index]? = some f) : resolve t true base index = .ok f := by
  rw [resolve, if_pos rfl, staticAt, hf]

/-- The index written for an entry is read back as that entry. -/
theorem resolve_relative {t : DynamicTable} {base a : ℕ} {f : HeaderField} (hb : base < 2 ^ 64)
    (ha : a < base) (hf : t.get a = some f) : resolve t false base (Prefix.relative base a) = .ok f := by
  have hlt := (DynamicTable.isSome_get_iff.1 (Option.isSome_of_eq_some hf)).2
  have hsucc : DynamicTable.succ (Prefix.relative base a) = base - a := by
    rw [DynamicTable.succ, Prefix.relative, Nat.mod_eq_of_lt (by omega)]
    omega
  have hindex : t.indexed base (Prefix.relative base a) = some a := by
    rw [DynamicTable.indexed, hsucc, if_pos (Nat.sub_le _ _), Nat.sub_sub_self ha.le]
    exact Option.filter_eq_some_iff.2 ⟨rfl, decide_eq_true hlt⟩
  rw [resolve, if_neg (by decide), hindex, entryAt, hf]

/-- A representation is read back against a table in which its reference resolves. -/
theorem decodeField_encodeField {t : DynamicTable} {base : ℕ} {field : HeaderField}
    {reference : Option Reference} (hr : Resolves t field reference) (hb : base < 2 ^ 64)
    (hbase : ∀ a ∈ named reference, a < base) (hn : field.name.len < 2 ^ 64)
    (hv : field.value.len < 2 ^ 64) :
    ∃ first tail, Encoder.encodeField field reference base = first :: tail ∧ ∀ rest,
      decodeField t base first (first :: tail ++ rest) = .ok ((first :: tail).length, field) := by
  have hvalue := spells_text field.value 7 0 (by decide) (by decide) hv
  match reference with
  | some (true, index, true) =>
    obtain ⟨f, hf, -, heq⟩ := hr
    have hlt := (List.getElem?_eq_some_iff.1 hf).1
    rw [StaticTable.length_entries] at hlt
    obtain ⟨n, tail, hlim, he⟩ := Integer.head_encode index 6 0xc0
    obtain ⟨⟨h80, h40⟩, -⟩ := kind_of_indexed hlim
    have hread := (spells_integer index 6 0xc0 (by decide) (by decide)
      (by omega)).whole
    refine ⟨_, tail, he, fun rest => ?_⟩
    rw [← he, decodeField, if_pos h80, hread, decide_eq_true h40]
    simp only [bind, Except.bind, resolve_static hf, heq rfl]
  | some (false, a, true) =>
    obtain ⟨f, hf, -, heq⟩ := hr
    have ha := hbase a rfl
    obtain ⟨n, tail, hlim, he⟩ := Integer.head_encode (Prefix.relative base a) 6 0x80
    obtain ⟨-, h80, h40⟩ := kind_of_indexed hlim
    have hread := (spells_integer (Prefix.relative base a) 6 0x80
      (by decide) (by decide) (by rw [Prefix.relative]; omega)).whole
    refine ⟨_, tail, he, fun rest => ?_⟩
    rw [← he, decodeField, if_pos h80, hread, decide_eq_false (not_not_intro h40)]
    simp only [bind, Except.bind, resolve_relative hb ha hf, heq rfl]
  | some (true, index, false) =>
    obtain ⟨f, hf, hname, -⟩ := hr
    have hlt := (List.getElem?_eq_some_iff.1 hf).1
    rw [StaticTable.length_entries] at hlt
    obtain ⟨n, tail, hlim, he⟩ := Integer.head_encode index 4 ((0x50 : UInt8) ||| bit field.sensitive <<< 5)
    obtain ⟨⟨h80, h40, h10⟩, -⟩ := kind_of_named hlim field.sensitive
    have hread := (spells_integer index 4 ((0x50 : UInt8) ||| bit field.sensitive <<< 5) (by decide)
      (by cases field.sensitive <;> decide) (by omega)).whole
    refine ⟨_, _, by rw [Encoder.encodeField, he, List.cons_append], fun rest => ?_⟩
    rw [← List.cons_append, ← he, decodeField, if_neg (not_not_intro h80), if_pos h40, List.append_assoc,
      hread, decide_eq_true h10]
    simp only [bind, Except.bind, resolve_static hf, List.drop_left, hvalue.whole, List.length_append, hname]
  | some (false, a, false) =>
    obtain ⟨f, hf, hname, -⟩ := hr
    have ha := hbase a rfl
    obtain ⟨n, tail, hlim, he⟩ := Integer.head_encode (Prefix.relative base a) 4
      ((0x40 : UInt8) ||| bit field.sensitive <<< 5)
    obtain ⟨-, h80, h40, h10⟩ := kind_of_named hlim field.sensitive
    have hread := (spells_integer (Prefix.relative base a) 4
      ((0x40 : UInt8) ||| bit field.sensitive <<< 5) (by decide)
      (by cases field.sensitive <;> decide) (by rw [Prefix.relative]; omega)).whole
    refine ⟨_, _, by rw [Encoder.encodeField, he, List.cons_append], fun rest => ?_⟩
    rw [← List.cons_append, ← he, decodeField, if_neg (not_not_intro h80), if_pos h40, List.append_assoc,
      hread, decide_eq_false (not_not_intro h10)]
    simp only [bind, Except.bind, resolve_relative hb ha hf, List.drop_left, hvalue.whole,
      List.length_append, hname]
  | none =>
    obtain ⟨n, tail, hlim, he⟩ := StringLiteral.head_encodeShorter field.name.octets 3
      ((0x20 : UInt8) ||| bit field.sensitive <<< 4) (by decide)
    obtain ⟨h80, h40, h20⟩ := kind_of_literal hlim field.sensitive
    have hread := (spells_text field.name 3 ((0x20 : UInt8) ||| bit field.sensitive <<< 4) (by decide)
      (by cases field.sensitive <;> decide) hn).whole
    refine ⟨_, _, by rw [Encoder.encodeField, he, List.cons_append], fun rest => ?_⟩
    rw [← List.cons_append, ← he, decodeField, if_neg (not_not_intro h80), if_neg (not_not_intro h40),
      if_pos h20, List.append_assoc, hread]
    simp only [bind, Except.bind, List.drop_left, hvalue.whole, List.length_append]

/-- The representations of a section are read back in order. -/
theorem decodeFields_encodeFields {t : DynamicTable} {base maxDecodedSize : ℕ} (hb : base < 2 ^ 64)
    (hm : maxDecodedSize < 2 ^ 64) {fields : List HeaderField} {references : List (Option Reference)}
    (hr : List.Forall₂ (Resolves t) fields references)
    (hbase : ∀ r ∈ references, ∀ a ∈ named r, a < base) (headers : List HeaderField)
    {decodedSize fuel : ℕ} (hs : decodedSize + sectionSize fields ≤ maxDecodedSize)
    (hf : (Encoder.encodeFields base fields references).length ≤ fuel) :
    decodeFields t maxDecodedSize base fuel (Encoder.encodeFields base fields references) headers decodedSize =
      .ok (headers ++ fields) := by
  induction hr generalizing headers decodedSize fuel with
  | nil =>
    rw [List.append_nil]
    cases fuel <;> rfl
  | @cons field reference fields references h _ ih =>
    obtain ⟨hbase₁, hbase⟩ := List.forall_mem_cons.1 hbase
    rw [sectionSize_cons] at hs
    have hsize : field.size = field.name.len + field.value.len + 32 := rfl
    obtain ⟨first, tail, he, hread⟩ := decodeField_encodeField h hb hbase₁ (by omega) (by omega)
    rw [Encoder.encodeFields, he, List.cons_append] at hf ⊢
    rw [List.length_cons, List.length_append] at hf
    obtain ⟨fuel, rfl⟩ : ∃ n, fuel = n + 1 := ⟨fuel - 1, by omega⟩
    rw [decodeFields, ← List.cons_append, hread]
    simp only [bind, Except.bind, List.length_cons, List.cons_append, List.drop_succ_cons, List.drop_left]
    rw [if_neg (by omega), ih hbase _ (by omega) (by omega), List.append_assoc, List.singleton_append]

/-- A block is read back by a decoder that has made the insertions it needs, and
    in whose table its references resolve. -/
theorem decode_block {d : Decoder} {streamId required maxCapacity : ℕ} {fields : List HeaderField}
    {references : List (Option Reference)} (hr : List.Forall₂ (Resolves d.dynamicTable) fields references)
    (hnamed : ∀ r ∈ references, ∀ a ∈ named r, a < required)
    (hreq : required ≤ d.dynamicTable.insertedCount) (hc : d.dynamicTable.insertedCount < MAX)
    (hcount : Prefix.decodeInsertCount (Prefix.encodeInsertCount required maxCapacity)
      d.dynamicTable.insertedCount d.maxCapacity = .ok required)
    (hm : d.maxDecodedSize < 2 ^ 64) (hs : sectionSize fields ≤ d.maxDecodedSize) :
    d.decode streamId (Integer.encode (Prefix.encodeInsertCount required maxCapacity) 8 0x00 ++
        Integer.encode 0 7 0x00 ++ Encoder.encodeFields required fields references) =
      (d.cancel streamId,
        .ok (fields, if 0 < required then some (.sectionAcknowledgment streamId) else none)) := by
  rw [MAX] at hc
  have hwrapped : Prefix.encodeInsertCount required maxCapacity < 2 ^ 64 := by
    have := Nat.mod_le required (2 * Prefix.maxEntries maxCapacity)
    rw [Prefix.encodeInsertCount]
    split_ifs <;> omega
  have hread := (spells_integer _ 8 0 (by decide) (by decide) hwrapped).whole
  have hzero : Integer.encode 0 7 0x00 = [0] := rfl
  generalize Integer.encode (Prefix.encodeInsertCount required maxCapacity) 8 0x00 = count at hread ⊢
  have hbase : base required (count ++ [0] ++ Encoder.encodeFields required fields references) count.length =
      .ok (count.length + 1, required) := by
    have hsign : (count ++ [0] ++ Encoder.encodeFields required fields references)[count.length]? =
        some 0 := by simp
    have hdelta := (spells_integer 0 7 0 (by decide) (by decide)
      (by decide)).whole (Encoder.encodeFields required fields references)
    rw [hzero] at hdelta
    rw [base, hsign]
    simp only [List.append_assoc, List.drop_left, hdelta, bind, Except.bind]
    rw [if_neg (by decide), if_neg (by rw [MAX]; omega)]
    rfl
  have hfields := decodeFields_encodeFields (show required < 2 ^ 64 by omega) hm hr hnamed []
    (show 0 + sectionSize fields ≤ d.maxDecodedSize by omega) le_rfl
  rw [hzero, decode]
  simp only [List.append_assoc, hread, bind, Except.bind, hcount]
  rw [if_neg (by omega)]
  simp only [← List.append_assoc, hbase]
  rw [show count.length + 1 = (count ++ [0]).length by simp, List.drop_left, hfields]
  rfl

end Decoder

/-! ## A section in flight -/

/-- A block that reads back as `fields` from a table, when the section it belongs
    to is `s`: every entry it names is one the section guards. -/
def Reads (t : DynamicTable) (maxCapacity : ℕ) (s : Section) (block : Octets) (fields : List HeaderField) :
    Prop :=
  ∃ references, block = Integer.encode (Prefix.encodeInsertCount s.required maxCapacity) 8 0x00 ++
      Integer.encode 0 7 0x00 ++ Encoder.encodeFields s.required fields references ∧
    List.Forall₂ (Resolves t) fields references ∧
    ∀ r ∈ references, ∀ a ∈ named r, s.floor ≤ a ∧ a < s.required

/-- A block goes on reading back from any table that agrees on what its section guards. -/
theorem Reads.congr {t t' : DynamicTable} {maxCapacity : ℕ} {s : Section} {block : Octets}
    {fields : List HeaderField} (h : Reads t maxCapacity s block fields)
    (ht : ∀ a, s.floor ≤ a → a < s.required → (t.get a).isSome = true → t'.get a = t.get a) :
    Reads t' maxCapacity s block fields := by
  obtain ⟨references, hb, hr, hn⟩ := h
  refine ⟨references, hb, ?_, hn⟩
  clear hb
  induction hr with
  | nil => exact .nil
  | cons h _ ih =>
    obtain ⟨hn₁, hn⟩ := List.forall_mem_cons.1 hn
    exact .cons (h.congr fun a ha => ht a (hn₁ a ha).1 (hn₁ a ha).2 (h.isSome_get ha)) (ih hn)

namespace Encoder

/-- No section in flight names an entry that was evicted, or that the peer is not
    known to have. -/
def Guarded (e : Encoder) : Prop :=
  ∀ s ∈ e.sections, e.dynamicTable.oldest ≤ s.floor ∧ s.floor < s.required ∧ s.required ≤ e.knownReceivedCount

/-- What encoding a section leaves behind: the block, the instructions queued, and
    the section it may have put in flight. -/
structure Encodes (e e' : Encoder) (streamId : ℕ) (fields : List HeaderField) (block : Octets)
    (instructions : List EncoderInstruction) (s : Section) : Prop where
  reads : Reads e'.dynamicTable e.maxCapacity s block fields
  streamId : s.streamId = streamId
  inserts : InsertsAll e.dynamicTable instructions e'.dynamicTable
  bounded : ∀ i ∈ instructions, i.Bounded
  streamOut : e'.streamOut = e.streamOut ++ instructions.flatMap (·.encode)
  rest : e' = { e with
    dynamicTable := e'.dynamicTable, streamOut := e'.streamOut, sectionFloor := MAX,
    sections := if 0 < s.required then e.sections ++ [s] else e.sections }
  /-- Nothing a section in flight guards is evicted, nor what the new one does. -/
  kept : ∀ s ∈ e.sections, e.dynamicTable.oldest ≤ s.floor → e'.dynamicTable.oldest ≤ s.floor
  fresh : 0 < s.required → e'.dynamicTable.oldest ≤ s.floor ∧ s.floor < s.required ∧
    s.required ≤ e.knownReceivedCount

/-- The sections in flight once a section has been encoded. -/
theorem Encodes.mem_sections {e e' : Encoder} {streamId : ℕ} {fields : List HeaderField} {block : Octets}
    {instructions : List EncoderInstruction} {s : Section}
    (h : Encodes e e' streamId fields block instructions s) {s' : Section} (hs : s' ∈ e'.sections) :
    s' ∈ e.sections ∨ s' = s ∧ 0 < s.required := by
  rw [h.rest] at hs
  simp only at hs
  split_ifs at hs with hpos
  · exact (List.mem_append.1 hs).imp_right fun hs => ⟨List.mem_singleton.1 hs, hpos⟩
  · exact .inl hs

theorem Encodes.guarded {e e' : Encoder} {streamId : ℕ} {fields : List HeaderField} {block : Octets}
    {instructions : List EncoderInstruction} {s : Section}
    (h : Encodes e e' streamId fields block instructions s) (hg : e.Guarded) : e'.Guarded := by
  have hknown : e'.knownReceivedCount = e.knownReceivedCount := by rw [h.rest]
  intro s' hs
  rw [hknown]
  rcases h.mem_sections hs with hs | ⟨rfl, hpos⟩
  · exact ⟨h.kept s' hs (hg s' hs).1, (hg s' hs).2⟩
  · exact h.fresh hpos

theorem insertedCount_le_encode (e : Encoder) (streamId : ℕ) (fields : List HeaderField) :
    e.dynamicTable.insertedCount ≤ (e.encode streamId fields).1.dynamicTable.insertedCount :=
  insertedCount_le_referAll _ { e with sectionFloor := MAX } 0 fields

/-- Encoding a section, for as long as the insert count is a `u64`. -/
theorem encode_spec (e : Encoder) (streamId : ℕ) (fields : List HeaderField)
    (hc : (e.encode streamId fields).1.dynamicTable.insertedCount ≤ MAX)
    (hf : ∀ f ∈ fields, f.name.len < 2 ^ 64 ∧ f.value.len < 2 ^ 64) :
    ∃ is s, Encodes e (e.encode streamId fields).1 streamId fields (e.encode streamId fields).2 is s := by
  have hcount := (e.insertedCount_le_encode streamId fields).trans hc
  have hold : e.dynamicTable.oldest ≤ MAX := (Nat.sub_le _ _).trans hcount
  rw [encode] at hc ⊢
  obtain ⟨is, hgrows, hall⟩ := referAll_spec (decide (e.sections.length < e.maxOutstandingSections))
    (e := { e with sectionFloor := MAX }) hc hf hold (by simp)
  generalize referAll (decide (e.sections.length < e.maxOutstandingSections)) { e with sectionFloor := MAX } 0
    fields = all at hgrows hall ⊢
  obtain ⟨e', required, references⟩ := all
  simp only at hgrows hall ⊢
  refine ⟨is, ⟨streamId, required, e'.sectionFloor⟩, ?_⟩
  have hcapacity : e'.maxCapacity = e.maxCapacity := by rw [hgrows.rest]
  refine ⟨⟨references, by rw [hcapacity], hall.resolves, fun r hr a ha => ?_⟩, rfl, hgrows.inserts,
    hgrows.bounded, hgrows.streamOut, ?_, fun s hs ho => hgrows.kept _ ho (.inr ⟨s, hs, le_rfl⟩),
    fun hpos => ⟨hall.floor.1, hall.floor.2 hpos, by simpa using hall.required.2⟩⟩
  · obtain ⟨-, hlt, hle⟩ := hall.named r hr a ha
    exact ⟨hle, hlt⟩
  · rw [hgrows.rest]

end Encoder

/-- A block is read back by a decoder that has made the insertions it needs and
    still holds the entries its section guards. -/
theorem Decoder.decode_read {d : Decoder} {maxCapacity streamId : ℕ} {s : Section} {block : Octets}
    {fields : List HeaderField} (h : Reads d.dynamicTable maxCapacity s block fields)
    (hreq : s.required ≤ d.dynamicTable.insertedCount) (hc : d.dynamicTable.insertedCount < MAX)
    (hcount : Prefix.decodeInsertCount (Prefix.encodeInsertCount s.required maxCapacity)
      d.dynamicTable.insertedCount d.maxCapacity = .ok s.required)
    (hm : d.maxDecodedSize < 2 ^ 64) (hs : sectionSize fields ≤ d.maxDecodedSize) :
    d.decode streamId block = (d.cancel streamId,
      .ok (fields, if 0 < s.required then some (.sectionAcknowledgment streamId) else none)) := by
  obtain ⟨references, rfl, hr, hn⟩ := h
  exact decode_block hr (fun r hr a ha => (hn r hr a ha).2) hreq hc hcount hm hs

end Soyokaze.Qpack

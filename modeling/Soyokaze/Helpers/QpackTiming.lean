import Soyokaze.Helpers.QpackSection
import Soyokaze.Helpers.QpackWire

/-!
# QPACK: decoding, now or later

A section names a count of insertions it needs, and whatever it then names
below that count is the same in every later state of the table that has not
evicted it. What it names at or above the count is there or not depending on
how far the encoder stream has come.

* `Decoder.Below`: decoding reads no dynamic reference at or above the count;
* `Prefix.decode_later`: within the window, the count reads the same later on;
* `Decoder.independent_iff`: decoding gives the same result at every later
  moment where that is so, and for a section that is ever accepted only there.
-/

namespace Soyokaze.Qpack

open Framing

/-! ## Later states -/

/-- The table has received further insertions. -/
inductive DynamicTable.Inserts : DynamicTable → DynamicTable → Prop
  | refl (t : DynamicTable) : Inserts t t
  | step {t t' : DynamicTable} (h : Inserts t t') (field : HeaderField) (hf : t'.fits field = true) :
      Inserts t (t'.insert field hf)

theorem DynamicTable.Inserts.follows {t t' : DynamicTable} (h : Inserts t t') : t.Follows t' := by
  induction h with
  | refl => exact .refl t
  | step _ field hf ih => exact ih.trans (follows_insert _ field hf)

namespace Decoder

/-- A decoder that differs only by further insertions, none of which evicted an
    entry below `required` or left the window of that count. -/
structure Later (d d' : Decoder) (required : ℕ) : Prop where
  inserts : d.dynamicTable.Inserts d'.dynamicTable
  only : d' = { d with dynamicTable := d'.dynamicTable }
  kept : ∀ a < required, (d.dynamicTable.get a).isSome = true → (d'.dynamicTable.get a).isSome = true
  window : 0 < required →
    d'.dynamicTable.insertedCount < required + Prefix.maxEntries d.maxCapacity
  word : d'.dynamicTable.insertedCount + 3 * Prefix.maxEntries d.maxCapacity ≤ MAX

/-- Below the count a later table has what the earlier one has. -/
theorem Later.get {d d' : Decoder} {required a : ℕ} (h : Later d d' required)
    (hmet : required ≤ d.dynamicTable.insertedCount) (ha : a < required) :
    d'.dynamicTable.get a = d.dynamicTable.get a := by
  have hf := h.inserts.follows
  by_cases hs : (d.dynamicTable.get a).isSome = true
  · exact hf.get a (DynamicTable.isSome_get_iff.1 (h.kept a ha hs)).1 (ha.trans_le hmet)
  · have hold : a < d.dynamicTable.oldest := by
      rw [DynamicTable.isSome_get_iff] at hs
      omega
    have hs' : ¬ (d'.dynamicTable.get a).isSome = true := fun hs' =>
      absurd (DynamicTable.isSome_get_iff.1 hs').1 (not_le.2 (hold.trans_le hf.oldest))
    rw [Option.not_isSome_iff_eq_none.1 hs, Option.not_isSome_iff_eq_none.1 hs']

/-! ## What a section names -/

/-- The absolute index counted back from `base`, in a table that has it or not. -/
def counted (base index : ℕ) : Option ℕ :=
  if DynamicTable.succ index ≤ base then some (base - DynamicTable.succ index) else none

/-- The absolute index counted forward from `base`. -/
def forward (base index : ℕ) : Option ℕ := if base + index ≤ MAX then some (base + index) else none

/-- The absolute index the representation at the front names in the dynamic
    table, if it is one of the forms that name an entry there. -/
def fieldNamed (base : ℕ) (first : UInt8) (rest : Octets) : Option ℕ :=
  if first &&& 0x80 ≠ 0 then
    match integer rest 6 with
    | .ok (_, index) => if first &&& 0x40 ≠ 0 then none else counted base index
    | .error _ => none
  else if first &&& 0x40 ≠ 0 then
    match integer rest 4 with
    | .ok (_, index) => if first &&& 0x10 ≠ 0 then none else counted base index
    | .error _ => none
  else if first &&& 0x20 ≠ 0 then none
  else if first &&& 0x10 ≠ 0 then
    match integer rest 4 with
    | .ok (_, index) => forward base index
    | .error _ => none
  else
    match integer rest 3 with
    | .ok (_, index) => forward base index
    | .error _ => none

/-- Every dynamic reference that reading the representations gets to is below
    `required`. -/
def fieldsBelow (t : DynamicTable) (maxDecodedSize base required : ℕ) : ℕ → Octets → ℕ → Bool
  | 0, _, _ => true
  | _ + 1, [], _ => true
  | fuel + 1, first :: rest, decodedSize =>
    (fieldNamed base first (first :: rest)).all (· < required) &&
      match decodeField t base first (first :: rest) with
      | .error _ => true
      | .ok (consumed, field) =>
        maxDecodedSize < decodedSize + field.size ||
          fieldsBelow t maxDecodedSize base required fuel ((first :: rest).drop consumed)
            (decodedSize + field.size)

/-- The insert count a section needs, and where it ends. -/
def required (d : Decoder) (block : Octets) : Except Error (ℕ × ℕ) := do
  let (consumed, encoded) ← integer block 8
  let required ← Prefix.decodeInsertCount encoded d.dynamicTable.insertedCount d.maxCapacity
  .ok (consumed, required)

/-- Decoding the section reads no dynamic reference at or above the count it needs. -/
def Below (d : Decoder) (block : Octets) : Prop :=
  ∀ consumed required, d.required block = .ok (consumed, required) →
    ∀ taken b, base required block consumed = .ok (taken, b) →
      fieldsBelow d.dynamicTable d.maxDecodedSize b required (block.drop taken).length (block.drop taken) 0 = true

/-- What the claim of timing says of a section: the same result in every later
    state, and accepted only if it reads no reference at or above its count. -/
structure Independent (d : Decoder) (streamId : ℕ) (block : Octets) (required : ℕ) : Prop where
  same : ∀ d', d.Later d' required → (d'.decode streamId block).2 = (d.decode streamId block).2
  below : (d.decode streamId block).2.isOk = true → d.Below block

end Decoder

/-! ## The count, later on -/

namespace Prefix

/-- Within the window, and for as long as the count stays within a word, a later
    state recovers the same count. -/
theorem decode_later {encoded inserted inserted' maxCapacity required : ℕ}
    (h : decodeInsertCount encoded inserted maxCapacity = .ok required)
    (hle : inserted ≤ inserted') (hmet : required ≤ inserted)
    (hwindow : 0 < required → inserted' < required + maxEntries maxCapacity)
    (hw : inserted' + 3 * maxEntries maxCapacity ≤ MAX) :
    decodeInsertCount encoded inserted' maxCapacity = .ok required := by
  rcases Nat.eq_zero_or_pos required with rfl | hr
  · rw [decodeInsertCount] at h ⊢
    by_cases hz : encoded = 0
    · rw [if_pos hz]
    rw [if_neg hz] at h
    dsimp only at h
    split_ifs at h
    next hnil => exact absurd (Except.ok.inj h) hnil
    next hnil => exact absurd (Except.ok.inj h) hnil
  · obtain ⟨hwin, rfl⟩ := encode_decode (by omega) h hr
    have hlow := hwin.lower
    have hhigh := hwin.upper
    exact decode_encode hr (by omega) (hwindow hr) (by omega) hw

end Prefix

namespace Decoder

/-! ## The same section, later on -/

/-- A reference below the count names the same entry, counted back or forward. -/
theorem Later.entryAt {d d' : Decoder} {required index : ℕ} {named : Option ℕ} (h : Later d d' required)
    (hmet : required ≤ d.dynamicTable.insertedCount) (hb : named.all (· < required) = true) :
    entryAt d'.dynamicTable index (named.filter (· < d'.dynamicTable.insertedCount)) =
      entryAt d.dynamicTable index (named.filter (· < d.dynamicTable.insertedCount)) := by
  rcases named with - | a
  · rfl
  · have ha : a < required := by simpa using hb
    have hlt : a < d.dynamicTable.insertedCount := ha.trans_le hmet
    have hlt' : a < d'.dynamicTable.insertedCount := hlt.trans_le h.inserts.follows.count
    have hf : Option.filter (· < d.dynamicTable.insertedCount) (some a) = some a := by simpa using hlt
    have hf' : Option.filter (· < d'.dynamicTable.insertedCount) (some a) = some a := by simpa using hlt'
    rw [hf, hf', Decoder.entryAt, Decoder.entryAt, h.get hmet ha]

theorem Later.resolve {d d' : Decoder} {required base index : ℕ} {inStatic : Prop} [Decidable inStatic]
    (h : Later d d' required) (hmet : required ≤ d.dynamicTable.insertedCount)
    (hb : (if inStatic then none else counted base index).all (· < required) = true) :
    resolve d'.dynamicTable inStatic base index = resolve d.dynamicTable inStatic base index := by
  by_cases hs : inStatic
  · simp only [Decoder.resolve, hs, decide_true, if_true]
  · rw [if_neg hs] at hb
    simp only [Decoder.resolve, hs, decide_false, Bool.false_eq_true, if_false]
    exact h.entryAt hmet hb

/-- A representation that names nothing at or above the count decodes the same. -/
theorem Later.decodeField {d d' : Decoder} {required base : ℕ} {first : UInt8} {rest : Octets}
    (h : Later d d' required) (hmet : required ≤ d.dynamicTable.insertedCount)
    (hb : (fieldNamed base first rest).all (· < required) = true) :
    decodeField d'.dynamicTable base first rest = decodeField d.dynamicTable base first rest := by
  rw [fieldNamed] at hb
  rw [Decoder.decodeField, Decoder.decodeField]
  by_cases h80 : first &&& 0x80 ≠ 0
  · rw [if_pos h80] at hb ⊢
    rw [if_pos h80]
    cases hi : integer rest 6 with
    | error e => rfl
    | ok read =>
      rw [hi] at hb
      simp only [bind, Except.bind, h.resolve hmet hb]
  rw [if_neg h80] at hb ⊢
  rw [if_neg h80]
  by_cases h40 : first &&& 0x40 ≠ 0
  · rw [if_pos h40] at hb ⊢
    rw [if_pos h40]
    cases hi : integer rest 4 with
    | error e => rfl
    | ok read =>
      rw [hi] at hb
      simp only [bind, Except.bind, h.resolve hmet hb]
  rw [if_neg h40] at hb ⊢
  rw [if_neg h40]
  by_cases h20 : first &&& 0x20 ≠ 0
  · rw [if_pos h20, if_pos h20]
  rw [if_neg h20] at hb ⊢
  rw [if_neg h20]
  by_cases h10 : first &&& 0x10 ≠ 0
  · rw [if_pos h10] at hb ⊢
    rw [if_pos h10]
    cases hi : integer rest 4 with
    | error e => rfl
    | ok read =>
      rw [hi] at hb
      simp only [bind, Except.bind, DynamicTable.postBase]
      rw [← forward, h.entryAt hmet hb]
  · rw [if_neg h10] at hb ⊢
    rw [if_neg h10]
    cases hi : integer rest 3 with
    | error e => rfl
    | ok read =>
      rw [hi] at hb
      simp only [bind, Except.bind, DynamicTable.postBase]
      rw [← forward, h.entryAt hmet hb]

/-- So do the representations of a section, one after the other. -/
theorem Later.decodeFields {d d' : Decoder} {required base maxDecodedSize : ℕ} (h : Later d d' required)
    (hmet : required ≤ d.dynamicTable.insertedCount) (fuel : ℕ) (rest : Octets) (headers : List HeaderField)
    (decodedSize : ℕ)
    (hb : fieldsBelow d.dynamicTable maxDecodedSize base required fuel rest decodedSize = true) :
    decodeFields d'.dynamicTable maxDecodedSize base fuel rest headers decodedSize =
      decodeFields d.dynamicTable maxDecodedSize base fuel rest headers decodedSize := by
  induction fuel generalizing rest headers decodedSize with
  | zero => rfl
  | succ fuel ih =>
    rcases rest with - | ⟨first, rest⟩
    · rfl
    rw [fieldsBelow, Bool.and_eq_true] at hb
    rw [Decoder.decodeFields, Decoder.decodeFields, h.decodeField hmet hb.1]
    cases hf : Decoder.decodeField d.dynamicTable base first (first :: rest) with
    | error e => rfl
    | ok read =>
      have hb := hb.2
      rw [hf, Bool.or_eq_true, decide_eq_true_eq] at hb
      simp only [bind, Except.bind]
      split_ifs with hsize
      · rfl
      · exact ih _ _ _ (hb.resolve_left hsize)

/-- A later state reads the same count off the section. -/
theorem Later.required {d d' : Decoder} {block : Octets} {consumed required : ℕ} (h : Later d d' required)
    (hr : d.required block = .ok (consumed, required)) (hmet : required ≤ d.dynamicTable.insertedCount) :
    d'.required block = .ok (consumed, required) := by
  have hmax : d'.maxCapacity = d.maxCapacity := by rw [h.only]
  rw [Decoder.required] at hr ⊢
  cases hi : integer block 8 with
  | error e =>
    rw [hi] at hr
    cases hr
  | ok read =>
    obtain ⟨n, encoded⟩ := read
    rw [hi] at hr
    simp only [bind, Except.bind] at hr ⊢
    cases hp : Prefix.decodeInsertCount encoded d.dynamicTable.insertedCount d.maxCapacity with
    | error e =>
      rw [hp] at hr
      cases hr
    | ok r =>
      rw [hp] at hr
      cases hr
      rw [hmax, Prefix.decode_later hp h.inserts.follows.count hmet h.window h.word]

/-- What decoding a section comes to once the count it needs is met. -/
theorem decode_of_met {d : Decoder} {streamId : ℕ} {block : Octets} {consumed required : ℕ}
    (hr : d.required block = .ok (consumed, required)) (hmet : required ≤ d.dynamicTable.insertedCount) :
    (d.decode streamId block).2 = (do
      let (taken, b) ← base required block consumed
      let headers ← decodeFields d.dynamicTable d.maxDecodedSize b (block.drop taken).length
        (block.drop taken) [] 0
      .ok (headers, if 0 < required then some (.sectionAcknowledgment streamId) else none)) := by
  rw [Decoder.required] at hr
  rw [decode]
  dsimp only
  rw [hr]
  dsimp only
  rw [if_neg (not_lt.2 hmet)]

/-- A section that reads nothing at or above its count decodes the same later on. -/
theorem Below.same {d d' : Decoder} {streamId : ℕ} {block : Octets} {consumed required : ℕ}
    (hb : d.Below block) (h : Later d d' required) (hr : d.required block = .ok (consumed, required))
    (hmet : required ≤ d.dynamicTable.insertedCount) :
    (d'.decode streamId block).2 = (d.decode streamId block).2 := by
  have hmax : d'.maxDecodedSize = d.maxDecodedSize := by rw [h.only]
  rw [decode_of_met hr hmet,
    decode_of_met (h.required hr hmet) (hmet.trans h.inserts.follows.count), hmax]
  cases hbase : base required block consumed with
  | error e => rfl
  | ok read =>
    simp only [bind, Except.bind]
    rw [h.decodeFields hmet _ _ _ _ (hb consumed required hr read.1 read.2 hbase)]

/-- Decoding gives the same result at every later moment where the section reads
    nothing at or above its own count, and a section that is accepted at any
    moment does so only there. -/
theorem independent_iff_below (d : Decoder) (streamId : ℕ) (block : Octets) (consumed required : ℕ)
    (hr : d.required block = .ok (consumed, required)) (hmet : required ≤ d.dynamicTable.insertedCount) :
    (d.Below block → d.Independent streamId block required) ∧
      ∀ d', d.Later d' required → (d'.decode streamId block).2.isOk = true →
        (d.Independent streamId block required ↔ d.Below block) := by
  have enough : d.Below block → d.Independent streamId block required := fun hb =>
    ⟨fun d' h => hb.same h hr hmet, fun _ => hb⟩
  refine ⟨enough, fun d' h hok => ⟨fun hi => hi.below ?_, enough⟩⟩
  rwa [← hi.same d' h]

/-- A decoder of the default capacity that was sent these insertions. -/
def fed (instructions : List EncoderInstruction) : Decoder :=
  instructions.foldl (fun d instruction => (d.applyInstruction instruction).1) new

/-- A section that names an entry of the table by its index alone. -/
theorem independent_iff_below_of_named :
    (fed [.insertWithLiteralName [0x78] [0x79]]).Independent 4 [0x02, 0x00, 0x80] 1 ↔
      (fed [.insertWithLiteralName [0x78] [0x79]]).Below [0x02, 0x00, 0x80] :=
  (independent_iff_below _ 4 [0x02, 0x00, 0x80] 1 1 (by decide +kernel) (by decide +kernel)).2 _
    ⟨.refl _, rfl, fun _ _ h => h, fun _ => by decide +kernel, by decide +kernel⟩ (by decide +kernel)

theorem fits_fed :
    (fed [.insertWithLiteralName [0x78] [0x79]]).dynamicTable.fits (.lit "z" "") = true := by
  decide

/-- A section that asks for one insertion and names the second one: refused
    before that has come, and accepted after. -/
theorem not_independent_of_base_above_count :
    ¬ ∀ (d : Decoder) (streamId : ℕ) (block : Octets) (consumed required : ℕ),
      d.required block = .ok (consumed, required) → required ≤ d.dynamicTable.insertedCount →
        d.Independent streamId block required := by
  intro h
  have hi := h (fed [.insertWithLiteralName [0x78] [0x79]]) 4 [0x02, 0x01, 0x80] 1 1 (by decide +kernel)
    (by decide +kernel)
  have later : (fed [.insertWithLiteralName [0x78] [0x79]]).Later
      { fed [.insertWithLiteralName [0x78] [0x79]] with
        dynamicTable := (fed [.insertWithLiteralName [0x78] [0x79]]).dynamicTable.insert _ fits_fed } 1 :=
    ⟨.step (.refl _) _ fits_fed, rfl, by decide +kernel, fun _ => by decide +kernel,
      by decide +kernel⟩
  exact absurd (hi.same _ later) (by decide +kernel)

end Decoder

end Soyokaze.Qpack

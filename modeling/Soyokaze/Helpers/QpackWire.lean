import Soyokaze.Lib.Checked
import Soyokaze.Helpers.Qpack

/-!
# QPACK: what goes on the wire

Instructions go over streams that deliver them in pieces, and the insert count
a section needs is sent wrapped: what is written has to be read back from
whatever has arrived, and by a decoder that is not where the encoder was.

* `instructions_coded`: an instruction is read back whatever follows it, and
  its strict prefixes ask for more;
* `Prefix.insertCount_coded`: the insert counts within a decoder's window are
  the ones it recovers, without a step that overflows.
-/

namespace Soyokaze.Qpack

open Framing

/-! ## Instructions -/

/-- Reading what is written of an instruction gives it back and takes exactly
    those octets, whatever follows them, and every strict prefix of them is
    incomplete. -/
theorem instructions_coded :
    (∀ i : EncoderInstruction, i.Bounded →
      (∀ rest, EncoderInstruction.decode (i.encode ++ rest) = .ok (i.encode.length, i)) ∧
      ∀ p, p <+: i.encode → p ≠ i.encode → EncoderInstruction.decode p = .error .incomplete) ∧
    ∀ i : DecoderInstruction, i.number < 2 ^ 64 →
      (∀ rest, DecoderInstruction.decode (i.encode ++ rest) = .ok (i.encode.length, i)) ∧
      ∀ p, p <+: i.encode → p ≠ i.encode → DecoderInstruction.decode p = .error .incomplete := by
  have shorter {p w : Octets} (hp : p <+: w) (hne : p ≠ w) : p.length < w.length :=
    lt_of_le_of_ne hp.length_le fun h => hne (hp.eq_of_length h)
  refine ⟨fun i hi => ?_, fun i hi => ?_⟩
  · have h := EncoderInstruction.spells hi
    exact ⟨h.whole, fun p hp hne => h.short p hp (shorter hp hne)⟩
  · have h := DecoderInstruction.spells hi
    exact ⟨h.whole, fun p hp hne => h.short p hp (shorter hp hne)⟩

theorem instructions_coded_large :
    EncoderInstruction.decode ((EncoderInstruction.insertWithNameReference true (2 ^ 64 - 1) [0x61]).encode ++
        [0xff]) =
      .ok ((EncoderInstruction.insertWithNameReference true (2 ^ 64 - 1) [0x61]).encode.length,
        .insertWithNameReference true (2 ^ 64 - 1) [0x61]) ∧
    DecoderInstruction.decode [] = .error .incomplete :=
  ⟨(instructions_coded.1 (.insertWithNameReference true (2 ^ 64 - 1) [0x61]) ⟨by decide, by decide⟩).1 [0xff],
    (instructions_coded.2 (.insertCountIncrement 1) (by decide)).2 [] List.nil_prefix
      (DecoderInstruction.encode_ne_nil _).symm⟩

/-! ## The insert count of a section -/

namespace Prefix

/-- `encodeInsertCount`, as a word computes it. -/
def encodeInsertCountChecked (required maxCapacity : ℕ) : Option ℕ := do
  let fullRange ← Checked.mul MAX 2 (maxEntries maxCapacity)
  if required = 0 ∨ fullRange = 0 then some 0 else Checked.add MAX (required % fullRange) 1

/-- `decodeInsertCount`, as a word computes it. -/
def decodeInsertCountChecked (encoded inserted maxCapacity : ℕ) : Option (Except Error ℕ) :=
  if encoded = 0 then some (.ok 0)
  else do
    let fullRange ← Checked.mul MAX 2 (maxEntries maxCapacity)
    if fullRange = 0 ∨ fullRange < encoded then some (.error .invalidInsertCount)
    else do
      let maxValue := saturatingAdd inserted (maxEntries maxCapacity)
      let maxWrapped ← Checked.mul MAX (maxValue / fullRange) fullRange
      let required := saturatingAdd maxWrapped encoded - 1
      if maxValue < required ∧ required ≤ fullRange then some (.error .invalidInsertCount)
      else do
        let required ← if maxValue < required then Checked.sub required fullRange else some required
        if required = 0 then some (.error .invalidInsertCount) else some (.ok required)

/-- The insert counts that a decoder which has taken in `inserted` entries, and an
    encoder within the same capacity, can be apart. -/
structure Window (inserted maxCapacity required : ℕ) : Prop where
  pos : 0 < required
  lower : inserted < required + maxEntries maxCapacity
  upper : required ≤ inserted + maxEntries maxCapacity

variable {maxCapacity : ℕ}

/-- A capacity is at least 32 octets an entry, which leaves the range far below a word. -/
theorem range_le (hc : maxCapacity ≤ MAX) : 2 * maxEntries maxCapacity + 1 ≤ MAX := by
  rw [maxEntries, show HeaderField.OVERHEAD = 32 from rfl]
  simp only [MAX] at hc ⊢
  omega

theorem encodeInsertCountChecked_eq (hc : maxCapacity ≤ MAX) (required : ℕ) :
    encodeInsertCountChecked required maxCapacity = some (encodeInsertCount required maxCapacity) := by
  have hrange := range_le hc
  rw [encodeInsertCountChecked, Checked.mul_of_le (by omega)]
  simp only [Option.bind_eq_bind, Option.bind_some, encodeInsertCount]
  split_ifs with h
  · rfl
  · have hlt := Nat.mod_lt required (Nat.pos_of_ne_zero (not_or.1 h).2)
    exact Checked.add_of_le (by omega)

theorem decodeInsertCountChecked_eq (hc : maxCapacity ≤ MAX) (encoded inserted : ℕ) :
    decodeInsertCountChecked encoded inserted maxCapacity =
      some (decodeInsertCount encoded inserted maxCapacity) := by
  have hrange := range_le hc
  have hmax : saturatingAdd inserted (maxEntries maxCapacity) ≤ MAX := min_le_right _ _
  -- Rounding the largest count down to a wrap leaves it within the word.
  have hwrap := (Nat.div_mul_le_self (saturatingAdd inserted (maxEntries maxCapacity))
    (2 * maxEntries maxCapacity)).trans hmax
  simp only [decodeInsertCountChecked, decodeInsertCount, Option.bind_eq_bind,
    Checked.mul_of_le (show 2 * maxEntries maxCapacity ≤ MAX by omega), Checked.mul_of_le hwrap,
    Option.bind_some]
  generalize saturatingAdd _ encoded - 1 = required
  split_ifs with hzero hwide hrefused hpast hnone hnone
  · rfl
  · rfl
  · rfl
  · have hle : 2 * maxEntries maxCapacity ≤ required := (not_le.1 fun h => hrefused ⟨hpast, h⟩).le
    rw [Checked.sub_of_le hle, Option.bind_some, if_pos hnone]
  · have hle : 2 * maxEntries maxCapacity ≤ required := (not_le.1 fun h => hrefused ⟨hpast, h⟩).le
    rw [Checked.sub_of_le hle, Option.bind_some, if_neg hnone]
  · rfl
  · rfl

/-- A value other than zero is refused, or stands for a count other than zero. -/
theorem decodeInsertCount_cases {encoded : ℕ} (inserted : ℕ) (hne : encoded ≠ 0) :
    decodeInsertCount encoded inserted maxCapacity = .error .invalidInsertCount ∨
      ∃ required, decodeInsertCount encoded inserted maxCapacity = .ok required ∧ 0 < required := by
  simp only [decodeInsertCount, if_neg hne]
  split_ifs with hwide hrefused hpast hnone hnone
  · exact .inl rfl
  · exact .inl rfl
  · exact .inl rfl
  · exact .inr ⟨_, rfl, Nat.pos_of_ne_zero hnone⟩
  · exact .inl rfl
  · exact .inr ⟨_, rfl, Nat.pos_of_ne_zero hnone⟩

/-- A count that is `n` into a stretch of the wrap is sent as the value after `n`. -/
theorem encodeInsertCount_add {required q n : ℕ} (hm : 0 < maxEntries maxCapacity)
    (hn : n < 2 * maxEntries maxCapacity) (hr : required = 2 * maxEntries maxCapacity * q + n)
    (hpos : 0 < required) : encodeInsertCount required maxCapacity = n + 1 := by
  have hne : ¬ (required = 0 ∨ 2 * maxEntries maxCapacity = 0) := by omega
  rw [encodeInsertCount, if_neg hne, hr, Nat.mul_add_mod, Nat.mod_eq_of_lt hn]

/-- What a decoder accepts is in its window, and is sent as the value it came from. -/
theorem encode_decode {inserted encoded required : ℕ} (hw : inserted + 3 * maxEntries maxCapacity ≤ MAX)
    (h : decodeInsertCount encoded inserted maxCapacity = .ok required) (hr : 0 < required) :
    Window inserted maxCapacity required ∧ encodeInsertCount required maxCapacity = encoded := by
  have hdiv := Nat.div_add_mod (inserted + maxEntries maxCapacity) (2 * maxEntries maxCapacity)
  have hmax : saturatingAdd inserted (maxEntries maxCapacity) = inserted + maxEntries maxCapacity :=
    min_eq_left (by omega)
  simp only [decodeInsertCount, hmax,
    Nat.mul_comm ((inserted + maxEntries maxCapacity) / (2 * maxEntries maxCapacity))] at h
  generalize (inserted + maxEntries maxCapacity) / (2 * maxEntries maxCapacity) = q at h hdiv
  by_cases hzero : encoded = 0
  · rw [if_pos hzero, Except.ok.injEq] at h
    omega
  rw [if_neg hzero] at h
  by_cases hwide : 2 * maxEntries maxCapacity = 0 ∨ 2 * maxEntries maxCapacity < encoded
  · rw [if_pos hwide] at h
    cases h
  have hm : 0 < maxEntries maxCapacity := by omega
  have hmod := Nat.mod_lt (inserted + maxEntries maxCapacity) (show 0 < 2 * maxEntries maxCapacity by omega)
  have hwrap : saturatingAdd (2 * maxEntries maxCapacity * q) encoded =
      2 * maxEntries maxCapacity * q + encoded := min_eq_left (by omega)
  rw [if_neg hwide, hwrap] at h
  split_ifs at h with hrefused hpast hnone hnone
  · -- Past the largest count the decoder could be at: the stretch before is meant.
    rw [Except.ok.injEq] at h
    obtain - | q := q
    · omega
    rw [Nat.mul_succ] at *
    have hat : required = 2 * maxEntries maxCapacity * q + (encoded - 1) := by omega
    refine ⟨⟨hr, by omega, by omega⟩, ?_⟩
    rw [encodeInsertCount_add hm (by omega) hat hr]
    omega
  · rw [Except.ok.injEq] at h
    have hat : required = 2 * maxEntries maxCapacity * q + (encoded - 1) := by omega
    refine ⟨⟨hr, by omega, by omega⟩, ?_⟩
    rw [encodeInsertCount_add hm (by omega) hat hr]
    omega

/-- Within the window of a decoder, which is far from the end of the word, what is
    sent of an insert count is what it recovers, and it recovers nothing else. None
    of the steps overflows, whatever is on the wire. -/
theorem insertCount_coded (hc : maxCapacity ≤ MAX) (hm : 0 < maxEntries maxCapacity) :
    (∀ inserted, inserted + 3 * maxEntries maxCapacity ≤ MAX →
      (∀ required, Window inserted maxCapacity required →
        decodeInsertCount (encodeInsertCount required maxCapacity) inserted maxCapacity = .ok required) ∧
      (∀ encoded required, decodeInsertCount encoded inserted maxCapacity = .ok required → 0 < required →
        Window inserted maxCapacity required ∧ encodeInsertCount required maxCapacity = encoded) ∧
      ∀ encoded, encoded ≠ 0 →
        (∀ required, Window inserted maxCapacity required → encodeInsertCount required maxCapacity ≠ encoded) →
          decodeInsertCount encoded inserted maxCapacity = .error .invalidInsertCount) ∧
    (∀ inserted, decodeInsertCount (encodeInsertCount 0 maxCapacity) inserted maxCapacity = .ok 0) ∧
    (∀ required, encodeInsertCountChecked required maxCapacity =
      some (encodeInsertCount required maxCapacity)) ∧
    ∀ encoded inserted, decodeInsertCountChecked encoded inserted maxCapacity =
      some (decodeInsertCount encoded inserted maxCapacity) := by
  refine ⟨fun inserted hw => ⟨fun required h => decode_encode h.pos hm h.lower h.upper hw,
    fun encoded required h hr => encode_decode hw h hr, fun encoded hne hnone => ?_⟩,
    fun inserted => ?_, encodeInsertCountChecked_eq hc, decodeInsertCountChecked_eq hc⟩
  · obtain h | ⟨required, h, hr⟩ := decodeInsertCount_cases inserted hne
    · exact h
    · obtain ⟨hwin, he⟩ := encode_decode hw h hr
      exact absurd he (hnone required hwin)
  · rw [encodeInsertCount, if_pos (.inl rfl), decodeInsertCount, if_pos rfl]

theorem insertCount_coded_default :
    decodeInsertCount (encodeInsertCount 300 4096) 290 4096 = .ok 300 ∧
      decodeInsertCountChecked (2 ^ 64 - 1) 290 4096 = some (.error .invalidInsertCount) := by
  have h := @insertCount_coded 4096 (by decide) (by decide)
  refine ⟨(h.1 290 (by decide)).1 300 ⟨by decide, by decide, by decide⟩, (h.2.2.2 _ _).trans ?_⟩
  rfl

end Prefix

end Soyokaze.Qpack

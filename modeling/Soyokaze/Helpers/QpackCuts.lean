import Soyokaze.Helpers.Qpack
import Soyokaze.Lib.Inlet

/-!
# QPACK: the instruction streams, wherever they are cut

What the two instruction streams bring is read an instruction at a time, and no instruction
may grow past a limit.

* `EncoderInstruction.settles`, `DecoderInstruction.settles`: what is made of an instruction
  does not change with what follows it;
* `Decoder.encoderStream`, `Encoder.decoderStream`: the two streams are inlets.
-/

namespace Soyokaze

open Framing

/-! ## What is read of an instruction -/

namespace Integer

variable {δ : Type} {prefixBits : ℕ}

theorem decodeRest_stays {bs : Octets} {value shift consumed : ℕ}
    (h : decodeRest (δ := δ) bs value shift consumed ≠ .error .incomplete) (cs : Octets) :
    decodeRest (δ := δ) (bs ++ cs) value shift consumed = decodeRest bs value shift consumed := by
  induction bs generalizing value shift consumed with
  | nil => exact absurd rfl h
  | cons octet bs ih =>
    rw [decodeRest] at h
    rw [List.cons_append, decodeRest, decodeRest]
    split_ifs at h ⊢
    · rfl
    · rfl
    · rfl
    · exact ih h

theorem decodeRest_alone {bs : Octets} {value shift consumed n v : ℕ}
    (h : decodeRest (δ := δ) bs value shift consumed = .ok (n, v)) :
    decodeRest (δ := δ) (bs.take (n - consumed)) value shift consumed = .ok (n, v) := by
  induction bs generalizing value shift consumed with
  | nil => cases h
  | cons octet bs ih =>
    have hlt := (decodeRest_consumed h).1
    obtain ⟨k, hk⟩ := Nat.exists_eq_add_of_lt hlt
    rw [show n - consumed = k + 1 by omega, List.take_succ_cons]
    rw [decodeRest] at h ⊢
    split_ifs at h ⊢
    · exact h
    · have hrest := ih h
      rwa [show n - (consumed + 1) = k by omega] at hrest

theorem settles_decode (prefixBits : ℕ) :
    Settles (fun input => decode (δ := δ) input prefixBits) .incomplete where
  stays {bs} hbs cs := by
    cases bs with
    | nil => exact absurd rfl hbs
    | cons first rest =>
      dsimp only [decode, List.cons_append] at hbs ⊢
      split_ifs at hbs ⊢
      · rfl
      · exact decodeRest_stays hbs cs
  within h := (decode_consumed h).2
  alone {bs n v} h := by
    obtain ⟨k, rfl⟩ := Nat.exists_eq_succ_of_ne_zero (decode_consumed h).1.ne'
    cases bs with
    | nil => cases h
    | cons first rest =>
      dsimp only [decode, List.take_succ_cons] at h ⊢
      split_ifs at h ⊢
      · exact h
      · exact decodeRest_alone h

theorem advances_decode (prefixBits : ℕ) : Advances (fun input => decode (δ := δ) input prefixBits) :=
  ⟨fun h => (decode_consumed h).1⟩

end Integer

namespace StringLiteral

theorem settles_body (huffman : Bool) (length : ℕ) : Settles (body huffman length) .incomplete where
  stays {bs} hbs cs := by
    rw [body] at hbs
    split_ifs at hbs with hlt
    · exact absurd rfl hbs
    all_goals
      have hlt' : ¬ (bs ++ cs).length < length := by
        rw [List.length_append]
        omega
      rw [body, body, if_neg hlt, if_neg hlt', List.take_append_of_le_length (Nat.le_of_not_lt hlt)]
  within h := by
    obtain ⟨hle, rfl, -⟩ := body_ok_iff.1 h
    exact hle
  alone {bs n a} h := by
    obtain ⟨hle, rfl, -⟩ := body_ok_iff.1 h
    have hlen : (bs.take n).length = n := List.length_take_of_le hle
    rw [body, if_neg (Nat.not_lt.2 hle)] at h
    rwa [body, if_neg (Nat.not_lt.2 hlen.ge), List.take_of_length_le hlen.le]

/-- A string is read by its mark: a length, and then the octets. -/
theorem decodeIntoAscii_cons (prefixBits : ℕ) (hp : prefixBits ≤ 7) (first : UInt8) (rest : Octets) :
    decodeIntoAscii (first :: rest) prefixBits = (do
      let (n, length) ← Integer.decode (first :: rest) prefixBits
      let (m, value) ← body (first &&& huffmanMark prefixBits != 0) length ((first :: rest).drop n)
      .ok (n + m, value)) :=
  decodeIntoAscii_eq hp rfl

theorem advances_decodeIntoAscii {prefixBits : ℕ} (hp : prefixBits ≤ 7) :
    Advances (fun input => decodeIntoAscii input prefixBits) :=
  Advances.of_head (f := fun first input => do
      let (n, length) ← Integer.decode input prefixBits
      let (m, value) ← body (first &&& huffmanMark prefixBits != 0) length (input.drop n)
      .ok (n + m, value)) (fun _ h => nomatch h) (decodeIntoAscii_cons prefixBits hp)
    fun _ => (Integer.advances_decode prefixBits).andThen (f := fun _ value => value) _

theorem settles_decodeIntoAscii {prefixBits : ℕ} (hp : prefixBits ≤ 7) :
    Settles (fun input => decodeIntoAscii input prefixBits) .incomplete :=
  Settles.of_head (f := fun first input => do
      let (n, length) ← Integer.decode input prefixBits
      let (m, value) ← body (first &&& huffmanMark prefixBits != 0) length (input.drop n)
      .ok (n + m, value)) rfl (decodeIntoAscii_cons prefixBits hp)
    (fun _ => (Integer.settles_decode prefixBits).andThen (f := fun _ value => value) fun _ => settles_body _ _)
    fun _ => (Integer.advances_decode prefixBits).andThen (f := fun _ value => value) _

theorem advances_decode {prefixBits : ℕ} (hp : prefixBits ≤ 7) : Advances (fun input => decode input prefixBits) :=
  (advances_decodeIntoAscii hp).map (f := fun value : Octets × Bool => value.1)

theorem settles_decode {prefixBits : ℕ} (hp : prefixBits ≤ 7) :
    Settles (fun input => decode input prefixBits) .incomplete :=
  (settles_decodeIntoAscii hp).map (f := fun value : Octets × Bool => value.1)

end StringLiteral

namespace Qpack

theorem settles_integer (prefixBits : ℕ) : Settles (fun input => integer input prefixBits) .incomplete :=
  (Integer.settles_decode prefixBits).mapError (f := Error.ofFields)

theorem advances_integer (prefixBits : ℕ) : Advances (fun input => integer input prefixBits) :=
  (Integer.advances_decode prefixBits).mapError

theorem settles_string {prefixBits : ℕ} (hp : prefixBits ≤ 7) :
    Settles (fun input => string input prefixBits) .incomplete :=
  (StringLiteral.settles_decode hp).mapError (f := Error.ofFields)

theorem advances_string {prefixBits : ℕ} (hp : prefixBits ≤ 7) : Advances (fun input => string input prefixBits) :=
  (StringLiteral.advances_decode hp).mapError

/-- No instruction is too large to be read. -/
theorem ofFields_ne (e : Fields.WireError) : Error.ofFields e ≠ .instructionTooLarge := by
  cases e <;> nofun

theorem never_integer (prefixBits : ℕ) : Never (fun input => integer input prefixBits) .instructionTooLarge :=
  Never.mapError _ ofFields_ne

theorem never_string (prefixBits : ℕ) : Never (fun input => string input prefixBits) .instructionTooLarge :=
  Never.mapError _ ofFields_ne

namespace DecoderInstruction

/-- Reading an instruction that begins with this octet. -/
def decodeAs (first : UInt8) (input : Octets) : Except Error (ℕ × DecoderInstruction) :=
  if first &&& 0x80 ≠ 0 then do
    let (consumed, streamId) ← integer input 7
    .ok (consumed, .sectionAcknowledgment streamId)
  else if first &&& 0x40 ≠ 0 then do
    let (consumed, streamId) ← integer input 6
    .ok (consumed, .streamCancellation streamId)
  else do
    let (consumed, increment) ← integer input 6
    .ok (consumed, .insertCountIncrement increment)

theorem decode_cons (first : UInt8) (rest : Octets) : decode (first :: rest) = decodeAs first (first :: rest) := rfl

theorem settles_decodeAs (first : UInt8) : Settles (decodeAs first) .incomplete := by
  unfold decodeAs
  split_ifs
  · exact (settles_integer 7).map
  · exact (settles_integer 6).map
  · exact (settles_integer 6).map

theorem advances_decodeAs (first : UInt8) : Advances (decodeAs first) := by
  unfold decodeAs
  split_ifs
  · exact (advances_integer 7).map
  · exact (advances_integer 6).map
  · exact (advances_integer 6).map

theorem settles : Settles decode .incomplete :=
  .of_head rfl decode_cons settles_decodeAs advances_decodeAs

theorem advances : Advances decode := .of_head (fun _ h => nomatch h) decode_cons advances_decodeAs

theorem never_tooLarge_as (first : UInt8) : Never (decodeAs first) .instructionTooLarge := by
  unfold decodeAs
  split_ifs <;> exact (never_integer _).map

theorem never_tooLarge : Never decode .instructionTooLarge := .of_head nofun decode_cons never_tooLarge_as

end DecoderInstruction

namespace EncoderInstruction

/-- Reading an instruction that begins with this octet. -/
def decodeAs (first : UInt8) (input : Octets) : Except Error (ℕ × EncoderInstruction) :=
  if first &&& 0x80 ≠ 0 then do
    let (consumed, nameIndex) ← integer input 6
    let (taken, value) ← string (input.drop consumed) 7
    .ok (consumed + taken, .insertWithNameReference (first &&& 0x40 ≠ 0) nameIndex value)
  else if first &&& 0x40 ≠ 0 then do
    let (consumed, name) ← string input 5
    let (taken, value) ← string (input.drop consumed) 7
    .ok (consumed + taken, .insertWithLiteralName name value)
  else if first &&& 0x20 ≠ 0 then do
    let (consumed, capacity) ← integer input 5
    .ok (consumed, .setDynamicTableCapacity capacity)
  else do
    let (consumed, index) ← integer input 5
    .ok (consumed, .duplicate index)

theorem decode_cons (first : UInt8) (rest : Octets) : decode (first :: rest) = decodeAs first (first :: rest) := rfl

theorem settles_decodeAs (first : UInt8) : Settles (decodeAs first) .incomplete := by
  unfold decodeAs
  split_ifs
  · exact (settles_integer 6).andThen fun _ => settles_string (by decide)
  · exact (settles_string (by decide)).andThen fun _ => settles_string (by decide)
  · exact (settles_integer 5).map
  · exact (settles_integer 5).map

theorem advances_decodeAs (first : UInt8) : Advances (decodeAs first) := by
  unfold decodeAs
  split_ifs
  · exact (advances_integer 6).andThen fun _ input => string input 7
  · exact (advances_string (by decide)).andThen fun _ input => string input 7
  · exact (advances_integer 5).map
  · exact (advances_integer 5).map

theorem settles : Settles decode .incomplete :=
  .of_head rfl decode_cons settles_decodeAs advances_decodeAs

theorem advances : Advances decode := .of_head (fun _ h => nomatch h) decode_cons advances_decodeAs

theorem never_tooLarge_as (first : UInt8) : Never (decodeAs first) .instructionTooLarge := by
  unfold decodeAs
  split_ifs
  · exact (never_integer 6).andThen fun _ => never_string 7
  · exact (never_string 5).andThen fun _ => never_string 7
  · exact (never_integer 5).map
  · exact (never_integer 5).map

theorem never_tooLarge : Never decode .instructionTooLarge := .of_head nofun decode_cons never_tooLarge_as

end EncoderInstruction

/-! ## The streams -/

/-- The peer's decoder stream, as it is taken in. -/
def Encoder.decoderStream : Inlet Encoder UInt8 Error DecoderInstruction where
  call := Encoder.onDecoderStream
  read := DecoderInstruction.decode
  more := .incomplete
  tooLarge _ := .instructionTooLarge
  limit e := e.maxInstructionSize
  unread e := e.streamRecv
  keep e buffer := { e with streamRecv := buffer }
  apply e instruction := (e.onDecoderInstruction instruction, none)
  call_eq _ _ := rfl
  settles := DecoderInstruction.settles
  advances := DecoderInstruction.advances
  read_ne _ := DecoderInstruction.never_tooLarge
  apply_ne _ _ _ := nofun
  apply_keep e instruction buffer := by
    cases instruction with
    | sectionAcknowledgment streamId =>
      dsimp only [onDecoderInstruction]
      split <;> rfl
    | streamCancellation | insertCountIncrement => rfl
  limit_keep _ _ := rfl
  limit_apply e instruction := by
    cases instruction with
    | sectionAcknowledgment streamId =>
      dsimp only [onDecoderInstruction]
      split <;> rfl
    | streamCancellation | insertCountIncrement => rfl
  unread_keep _ _ := rfl
  keep_keep _ _ _ := rfl

namespace Decoder

theorem inserted_ne_tooLarge (t : DynamicTable) (instruction : EncoderInstruction) :
    inserted t instruction ≠ .error .instructionTooLarge := by
  have hentry (index : ℕ) (absolute : Option ℕ) : entryAt t index absolute ≠ .error .instructionTooLarge := by
    rcases absolute with - | absolute
    · nofun
    · rw [entryAt]
      split <;> nofun
  have hstatic (index : ℕ) : staticAt index ≠ .error .instructionTooLarge := by
    rw [staticAt]
    split <;> nofun
  cases instruction with
  | setDynamicTableCapacity | insertWithLiteralName => nofun
  | insertWithNameReference fromStatic nameIndex value =>
    cases fromStatic with
    | true =>
      intro h
      rcases hs : staticAt nameIndex with e | field <;>
        simp only [inserted, hs, bind, Except.bind, reduceCtorEq, Except.error.injEq] at h
      exact hstatic _ (h ▸ hs)
    | false =>
      intro h
      rcases he : entryAt t nameIndex (t.relative nameIndex) with e | field <;>
        simp only [inserted, he, bind, Except.bind, reduceCtorEq, Except.error.injEq] at h
      exact hentry _ _ (h ▸ he)
  | duplicate index =>
    intro h
    rcases he : entryAt t index (t.relative index) with e | field <;>
      simp only [inserted, he, bind, Except.bind, reduceCtorEq, Except.error.injEq] at h
    exact hentry _ _ (h ▸ he)

/-- Any instruction but one that sets the capacity inserts a field. -/
theorem onEncoderInstruction_inserts (d : Decoder) {instruction : EncoderInstruction}
    (h : ¬ ∃ capacity, instruction = .setDynamicTableCapacity capacity) :
    d.onEncoderInstruction instruction = (do
      match ← inserted d.dynamicTable instruction with
      | none => .ok (d, none)
      | some field =>
        if h : d.dynamicTable.fits field = true then
          .ok ({ d with dynamicTable := d.dynamicTable.insert field h }, some (.insertCountIncrement 1))
        else .error .entryTooLarge) := by
  cases instruction with
  | setDynamicTableCapacity capacity => exact absurd ⟨capacity, rfl⟩ h
  | insertWithNameReference | insertWithLiteralName | duplicate => rfl

/-- What an instruction does: it is refused, or it changes the table and is answered,
    whatever octets are held. -/
theorem applyInstruction_spec (d : Decoder) (instruction : EncoderInstruction) :
    (∃ e, e ≠ Error.instructionTooLarge ∧
      ∀ buffer, applyInstruction { d with streamRecv := buffer } instruction =
        ({ d with streamRecv := buffer }, some e)) ∨
    ∃ t sent, ∀ buffer, applyInstruction { d with streamRecv := buffer } instruction =
      ({ d with dynamicTable := t, streamOut := sent, streamRecv := buffer }, none) := by
  by_cases hcapacity : ∃ capacity, instruction = .setDynamicTableCapacity capacity
  · obtain ⟨capacity, rfl⟩ := hcapacity
    by_cases hlt : d.maxCapacity < capacity
    · exact .inl ⟨.invalidCapacityUpdate, nofun, fun _ => by rw [applyInstruction, onEncoderInstruction, if_pos hlt]⟩
    · refine .inr ⟨d.dynamicTable.setCapacity capacity, d.streamOut ++ [], fun _ => ?_⟩
      rw [applyInstruction, onEncoderInstruction, if_neg hlt]
      rfl
  · -- Any other instruction inserts a field, if the table has room for one so large.
    have hinserts := fun buffer => onEncoderInstruction_inserts { d with streamRecv := buffer } hcapacity
    rcases hi : inserted d.dynamicTable instruction with e | - | field
    · refine .inl ⟨e, fun he => inserted_ne_tooLarge _ _ (he ▸ hi), fun buffer => ?_⟩
      rw [applyInstruction, hinserts, hi]
      rfl
    · refine .inr ⟨d.dynamicTable, d.streamOut ++ [], fun buffer => ?_⟩
      rw [applyInstruction, hinserts, hi]
      rfl
    · by_cases hfits : d.dynamicTable.fits field = true
      · refine .inr ⟨d.dynamicTable.insert field hfits,
          (d.queue [.insertCountIncrement 1]).streamOut, fun buffer => ?_⟩
        rw [applyInstruction, hinserts, hi]
        simp only [bind, Except.bind, dif_pos hfits]
        rfl
      · refine .inl ⟨.entryTooLarge, nofun, fun buffer => ?_⟩
        rw [applyInstruction, hinserts, hi]
        simp only [bind, Except.bind, dif_neg hfits]

end Decoder

/-- The peer's encoder stream, as it is taken in. -/
def Decoder.encoderStream : Inlet Decoder UInt8 Error EncoderInstruction where
  call := Decoder.onEncoderStream
  read := EncoderInstruction.decode
  more := .incomplete
  tooLarge _ := .instructionTooLarge
  limit d := d.maxInstructionSize
  unread d := d.streamRecv
  keep d buffer := { d with streamRecv := buffer }
  apply := applyInstruction
  call_eq _ _ := rfl
  settles := EncoderInstruction.settles
  advances := EncoderInstruction.advances
  read_ne _ := EncoderInstruction.never_tooLarge
  apply_ne d instruction _ := by
    rcases applyInstruction_spec d instruction with ⟨e, hne, h⟩ | ⟨t, sent, h⟩
    · exact (congrArg Prod.snd (h d.streamRecv)).trans_ne fun heq => hne (Option.some.inj heq)
    · exact (congrArg Prod.snd (h d.streamRecv)).trans_ne nofun
  apply_keep d instruction buffer := by
    have hd := applyInstruction_spec d instruction
    rcases hd with ⟨e, -, h⟩ | ⟨t, sent, h⟩
    · rw [h, show applyInstruction d instruction = (d, some e) from h d.streamRecv]
    · rw [h, show applyInstruction d instruction = _ from h d.streamRecv]
  limit_keep _ _ := rfl
  limit_apply d instruction := by
    rcases applyInstruction_spec d instruction with ⟨e, -, h⟩ | ⟨t, sent, h⟩ <;>
      rw [show applyInstruction d instruction = _ from h d.streamRecv]
  unread_keep _ _ := rfl
  keep_keep _ _ _ := rfl

end Qpack

end Soyokaze

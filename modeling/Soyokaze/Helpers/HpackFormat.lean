import Soyokaze.Lib.Grammar
import Soyokaze.Helpers.Hpack
import Soyokaze.Helpers.IntegerExact

/-!
# HPACK: the format

A block is a run of representations, each written with prefixed integers and strings, and
what they stand for depends on the table as it is at each of them. The format is given here
as a relation between octets and representations, and their meaning as a function on tables.

* `WireForm.meaning`, `meaning`: what representations stand for, and the table they leave;
* `Decoder.decode_ok_iff`: the blocks that are decoded, and to what;
* `Decoder.format_accepted_iff`: the format is accepted, and nothing else, exactly at the blocks
  where no update comes behind a field and no integer spills.
-/

namespace Soyokaze

open Framing

/-! ## Integers -/

namespace Integer

variable {δ : Type} {prefixBits : ℕ}

/-- `w` encodes a number that a word holds, with no more octets than a decoder goes through. -/
def Number (prefixBits : ℕ) (w : Octets) (v : ℕ) : Prop :=
  Encoding prefixBits w v ∧ w.length ≤ MAX_CONTINUATION + 1 ∧ v < 2 ^ 64

/-- `w` encodes a number that no word holds, and its low bits are `v`. -/
inductive Spilled (prefixBits : ℕ) : Octets → ℕ → Prop
  | low {first last : UInt8} {octets : Octets} : first.toNat &&& limit prefixBits = limit prefixBits →
      (∀ o ∈ octets, Continued o) → octets.length = 9 → ¬ Continued last → 2 ≤ last.toNat →
      limit prefixBits + weigh octets + last.toNat % 2 * 2 ^ 63 < 2 ^ 64 →
      Spilled prefixBits (first :: (octets ++ [last])) (limit prefixBits + weigh octets + last.toNat % 2 * 2 ^ 63)

/-- What is taken for the encoding of a number. -/
def Word (prefixBits : ℕ) (w : Octets) (v : ℕ) : Prop := Number prefixBits w v ∨ Spilled prefixBits w v

theorem takes_decode (hb : prefixBits ≤ 8) : Takes (fun input => decode (δ := δ) input prefixBits) (Word prefixBits) where
  sound {input n v} h := by
    by_cases hs : Spills prefixBits input
    · obtain ⟨first, last, octets, tail, rfl, hfull, ho, hlen, hl, htwo, hroom⟩ := hs
      rw [decode_tenth hb hfull ho hlen, if_neg (not_or.2 ⟨hl, not_le.2 hroom⟩)] at h
      obtain ⟨rfl, rfl⟩ := Prod.mk.inj (Except.ok.inj h)
      exact ⟨first :: (octets ++ [last]), tail, by simp, by simp, .inr (.low hfull ho hlen hl htwo hroom)⟩
    · have hreads := decode_reads (δ := δ) hb hs
      rw [h] at hreads
      cases hreads with
      | value hw hp hlen hv =>
        obtain ⟨rest, rfl⟩ := hp
        exact ⟨_, rest, rfl, rfl, .inl ⟨hw, hlen, hv⟩⟩
  complete {w v} hw rest := by
    rcases hw with ⟨hw, hlen, hv⟩ | hw
    · have hvalue : Reads (δ := δ) prefixBits (w ++ rest) (.ok (w.length, v)) := .value hw ⟨rest, rfl⟩ hlen hv
      have hs : ¬ Spills prefixBits (w ++ rest) := fun hs => by
        cases (decode_spills (δ := δ) hb hs).1.unique hvalue
      exact (decode_reads hb hs).unique hvalue
    · cases hw with
      | @low first last octets hfull ho hlen hl htwo hroom =>
        rw [List.cons_append, List.append_assoc, List.singleton_append]
        rw [decode_tenth hb hfull ho hlen, if_neg (not_or.2 ⟨hl, not_le.2 hroom⟩)]
        simp

end Integer

/-! ## Strings -/

namespace StringLiteral

/-- `w` holds these octets, its length being written as `num` has it. -/
inductive Coded (num : ℕ → Octets → ℕ → Prop) : Octets → Octets → Prop
  | plain {first : UInt8} {tail octets : Octets} : first &&& 0x80 = 0 → num 7 (first :: tail) octets.length →
      Coded num (first :: tail ++ octets) octets
  | huffman {first : UInt8} {tail coded octets : Octets} : first &&& 0x80 ≠ 0 → num 7 (first :: tail) coded.length →
      Huffman.Spells octets (Huffman.bits coded) → Coded num (first :: tail ++ coded) octets

theorem Coded.mono {num num' : ℕ → Octets → ℕ → Prop} (h : ∀ p w v, num p w v → num' p w v) {w octets : Octets}
    (hw : Coded num w octets) : Coded num' w octets := by
  cases hw with
  | plain hfirst hnum => exact .plain hfirst (h _ _ _ hnum)
  | huffman hfirst hnum hspells => exact .huffman hfirst (h _ _ _ hnum) hspells

/-- A length and then the octets, as the mark above the length says. -/
theorem decodeIntoAscii_of_length {first : UInt8} {tail left : Octets} {length : ℕ}
    (hw : Integer.Word 7 (first :: tail) length) :
    decodeIntoAscii (first :: tail ++ left) 7 = (do
      let (m, value) ← body (first &&& 0x80 != 0) length left
      .ok ((first :: tail).length + m, value)) := by
  have hd := (Integer.takes_decode (δ := Huffman.DecodeError) (by decide)).complete hw left
  rw [List.cons_append] at hd ⊢
  rw [decodeIntoAscii_eq (by decide) rfl, hd]
  simp only [bind, Except.bind, ← List.cons_append, List.drop_left]
  rfl

theorem takes_decodeIntoAscii : Takes (fun input => decodeIntoAscii input 7)
    (fun w value => Coded Integer.Word w value.1 ∧ value.2 = isAscii value.1) where
  sound {input n value} h := by
    cases input with
    | nil => cases h
    | cons first rest =>
      rcases hd : Integer.decode (δ := Huffman.DecodeError) (first :: rest) 7 with e | ⟨start, length⟩
      · rw [decodeIntoAscii_eq (by decide) rfl, hd] at h
        cases h
      · obtain ⟨w, left, heq, rfl, hw⟩ := (Integer.takes_decode (by decide)).sound hd
        obtain ⟨c, tail, rfl⟩ := List.exists_cons_of_length_pos (Integer.decode_consumed hd).1
        rw [List.cons_append] at heq
        obtain ⟨rfl, rfl⟩ := List.cons.inj heq
        rw [← List.cons_append, decodeIntoAscii_of_length hw] at h
        rcases hb : body (first &&& 0x80 != 0) length left with e | ⟨m, octets, ascii⟩
        · simp only [hb, bind, Except.bind, reduceCtorEq] at h
        · simp only [hb, bind, Except.bind, Except.ok.injEq, Prod.mk.injEq] at h
          obtain ⟨rfl, rfl⟩ := h
          obtain ⟨hle, rfl, rfl, hoctets⟩ := body_ok_iff.1 hb
          have hlen : (left.take m).length = m := List.length_take_of_le hle
          refine ⟨first :: tail ++ left.take m, left.drop m, ?_, ?_, ?_, rfl⟩
          · rw [List.append_assoc, List.take_append_drop, List.cons_append]
          · rw [List.length_append, hlen]
          · split_ifs at hoctets with hmark
            · exact .huffman (bne_iff_ne.1 hmark) (hlen.symm ▸ hw) hoctets
            · rw [hoctets]
              exact .plain (by simpa using hmark) (hlen.symm ▸ hw)
  complete {w value} hw rest := by
    obtain ⟨octets, ascii⟩ := value
    obtain ⟨hw, hascii⟩ := hw
    cases hw with
    | @plain first tail octets hmark hnum =>
      have hb : body (first &&& 0x80 != 0) octets.length (octets ++ rest) = .ok (octets.length, octets, ascii) := by
        refine body_ok_iff.2 ⟨by simp, rfl, hascii, ?_⟩
        rw [hmark]
        exact List.take_left.symm
      rw [List.append_assoc, decodeIntoAscii_of_length hnum, hb, List.length_append]
      rfl
    | @huffman first tail coded octets hmark hnum hspells =>
      have hb : body (first &&& 0x80 != 0) coded.length (coded ++ rest) = .ok (coded.length, octets, ascii) := by
        refine body_ok_iff.2 ⟨by simp, rfl, hascii, ?_⟩
        rw [if_pos (bne_iff_ne.2 hmark), List.take_left]
        exact hspells
      rw [List.append_assoc, decodeIntoAscii_of_length hnum, hb, List.length_append]
      rfl

theorem takes_decodeText : Takes (fun input => decodeText input 7)
    (fun w value => ∃ octets, Coded Integer.Word w octets ∧ value = .fromUtf8Lossy octets) where
  sound {input n value} h := by
    rcases hd : decodeIntoAscii input 7 with e | ⟨m, octets, ascii⟩
    · simp only [decodeText, hd, bind, Except.bind, reduceCtorEq] at h
    · simp only [decodeText, hd, bind, Except.bind, text_eq, Except.ok.injEq, Prod.mk.injEq] at h
      obtain ⟨rfl, rfl⟩ := h
      obtain ⟨w, rest, heq, hn, hw, -⟩ := takes_decodeIntoAscii.sound hd
      exact ⟨w, rest, heq, hn, octets, hw, rfl⟩
  complete {w value} hw rest := by
    obtain ⟨octets, hw, rfl⟩ := hw
    have hd := takes_decodeIntoAscii.complete (a := (octets, isAscii octets)) ⟨hw, rfl⟩ rest
    simp only [decodeText, hd, bind, Except.bind, text_eq]

end StringLiteral

namespace Hpack

/-! ## Representations -/

/-- How a representation names a field: by an index, or with a string. -/
inductive Name
  | index (index : ℕ)
  | string (octets : Octets)

/-- A representation: a field that is in a table, one that is written out, which may then
    be added to the dynamic table, or a new size of that table. -/
inductive WireForm
  | indexed (index : ℕ)
  | literal (incremental : Bool) (name : Name) (value : Octets)
  | update (capacity : ℕ)

/-- `w` is a name, by an index or, behind an index of zero, with a string. -/
inductive Naming (num : ℕ → Octets → ℕ → Prop) (prefixBits : ℕ) : Octets → Name → Prop
  | index {w : Octets} {i : ℕ} : num prefixBits w i → i ≠ 0 → Naming num prefixBits w (.index i)
  | string {w s octets : Octets} : num prefixBits w 0 → StringLiteral.Coded num s octets →
      Naming num prefixBits (w ++ s) (.string octets)

/-- `w` is a representation: its first bits say of which kind. -/
inductive Written (num : ℕ → Octets → ℕ → Prop) : Octets → WireForm → Prop
  | indexed {first : UInt8} {tail : Octets} {i : ℕ} : first &&& 0x80 ≠ 0 → num 7 (first :: tail) i →
      Written num (first :: tail) (.indexed i)
  | incremental {first : UInt8} {tail s value : Octets} {name : Name} : first &&& 0x80 = 0 → first &&& 0x40 ≠ 0 →
      Naming num 6 (first :: tail) name → StringLiteral.Coded num s value →
      Written num (first :: tail ++ s) (.literal true name value)
  | update {first : UInt8} {tail : Octets} {capacity : ℕ} : first &&& 0x80 = 0 → first &&& 0x40 = 0 →
      first &&& 0x20 ≠ 0 → num 5 (first :: tail) capacity → Written num (first :: tail) (.update capacity)
  | plain {first : UInt8} {tail s value : Octets} {name : Name} : first &&& 0x80 = 0 → first &&& 0x40 = 0 →
      first &&& 0x20 = 0 → Naming num 4 (first :: tail) name → StringLiteral.Coded num s value →
      Written num (first :: tail ++ s) (.literal false name value)

variable {num num' : ℕ → Octets → ℕ → Prop}

theorem Naming.mono (h : ∀ p w v, num p w v → num' p w v) {prefixBits : ℕ} {w : Octets} {name : Name}
    (hw : Naming num prefixBits w name) : Naming num' prefixBits w name := by
  cases hw with
  | index hnum hi => exact .index (h _ _ _ hnum) hi
  | string hnum hs => exact .string (h _ _ _ hnum) (hs.mono h)

theorem Written.mono (h : ∀ p w v, num p w v → num' p w v) {w : Octets} {r : WireForm} (hw : Written num w r) :
    Written num' w r := by
  cases hw with
  | indexed h80 hnum => exact .indexed h80 (h _ _ _ hnum)
  | incremental h80 h40 hname hs => exact .incremental h80 h40 (hname.mono h) (hs.mono h)
  | update h80 h40 h20 hnum => exact .update h80 h40 h20 (h _ _ _ hnum)
  | plain h80 h40 h20 hname hs => exact .plain h80 h40 h20 (hname.mono h) (hs.mono h)

/-- A representation takes an octet at least. -/
theorem Written.ne_nil {w : Octets} {r : WireForm} (hw : Written num w r) : w ≠ [] := by
  cases hw <;> exact List.cons_ne_nil _ _

/-! ### One reading -/

theorem coded_unambiguous : Unambiguous (StringLiteral.Coded Integer.Word) := by
  intro w w' rest rest' a a' hw hw' heq
  obtain ⟨rfl, hvalue⟩ := StringLiteral.takes_decodeIntoAscii.unambiguous
    (show _ ∧ (a, isAscii a).2 = _ from ⟨hw, rfl⟩) (show _ ∧ (a', isAscii a').2 = _ from ⟨hw', rfl⟩) heq
  exact ⟨rfl, (Prod.mk.inj hvalue).1⟩

theorem naming_unambiguous {prefixBits : ℕ} (hp : prefixBits ≤ 8) :
    Unambiguous (Naming Integer.Word prefixBits) := by
  have hnum := (Integer.takes_decode (δ := Huffman.DecodeError) hp).unambiguous
  intro w w' rest rest' a a' hw hw' heq
  cases hw with
  | @index w i hw hi =>
    cases hw' with
    | index hw' =>
      obtain ⟨rfl, rfl⟩ := hnum hw hw' heq
      exact ⟨rfl, rfl⟩
    | string hw' =>
      rw [List.append_assoc] at heq
      exact absurd (hnum hw hw' heq).2 hi
  | @string w s octets hw hs =>
    rw [List.append_assoc] at heq
    cases hw' with
    | index hw' hi => exact absurd (hnum hw hw' heq).2.symm hi
    | string hw' hs' =>
      rw [List.append_assoc] at heq
      obtain ⟨rfl, -⟩ := hnum hw hw' heq
      obtain ⟨rfl, rfl⟩ := coded_unambiguous hs hs' (List.append_cancel_left heq)
      exact ⟨rfl, rfl⟩

/-- A name and then a string. -/
theorem literal_unambiguous {prefixBits : ℕ} (hp : prefixBits ≤ 8) {u u' s s' value value' rest rest' : Octets}
    {name name' : Name} (hu : Naming Integer.Word prefixBits u name) (hu' : Naming Integer.Word prefixBits u' name')
    (hs : StringLiteral.Coded Integer.Word s value) (hs' : StringLiteral.Coded Integer.Word s' value')
    (heq : u ++ s ++ rest = u' ++ s' ++ rest') : u = u' ∧ name = name' ∧ s = s' ∧ value = value' := by
  rw [List.append_assoc, List.append_assoc] at heq
  obtain ⟨rfl, hname⟩ := naming_unambiguous hp hu hu' heq
  exact ⟨rfl, hname, coded_unambiguous hs hs' (List.append_cancel_left heq)⟩

/-- What a representation is, by the bits of its first octet. -/
theorem Written.inv {first : UInt8} {tail : Octets} {r : WireForm} (hw : Written num (first :: tail) r) :
    if first &&& 0x80 ≠ 0 then ∃ i, r = .indexed i ∧ num 7 (first :: tail) i
    else if first &&& 0x40 ≠ 0 then ∃ u s name value, first :: tail = u ++ s ∧ r = .literal true name value ∧
      Naming num 6 u name ∧ StringLiteral.Coded num s value
    else if first &&& 0x20 ≠ 0 then ∃ capacity, r = .update capacity ∧ num 5 (first :: tail) capacity
    else ∃ u s name value, first :: tail = u ++ s ∧ r = .literal false name value ∧
      Naming num 4 u name ∧ StringLiteral.Coded num s value := by
  generalize heq : first :: tail = w at hw
  cases hw with
  | indexed h80 hnum =>
    obtain ⟨rfl, rfl⟩ := List.cons.inj heq
    rw [if_pos h80]
    exact ⟨_, rfl, hnum⟩
  | incremental h80 h40 hname hs =>
    obtain ⟨rfl, rfl⟩ := List.cons.inj heq
    rw [if_neg (not_not_intro h80), if_pos h40]
    exact ⟨_, _, _, _, rfl, rfl, hname, hs⟩
  | update h80 h40 h20 hnum =>
    obtain ⟨rfl, rfl⟩ := List.cons.inj heq
    rw [if_neg (not_not_intro h80), if_neg (not_not_intro h40), if_pos h20]
    exact ⟨_, rfl, hnum⟩
  | plain h80 h40 h20 hname hs =>
    obtain ⟨rfl, rfl⟩ := List.cons.inj heq
    rw [if_neg (not_not_intro h80), if_neg (not_not_intro h40), if_neg (not_not_intro h20)]
    exact ⟨_, _, _, _, rfl, rfl, hname, hs⟩

/-- The first octets are the same, so the representations are of one kind. -/
theorem written_unambiguous : Unambiguous (Written Integer.Word) := by
  intro w w' rest rest' r r' hw hw' heq
  obtain ⟨first, tail, rfl⟩ := List.exists_cons_of_ne_nil hw.ne_nil
  obtain ⟨first', tail', rfl⟩ := List.exists_cons_of_ne_nil hw'.ne_nil
  obtain rfl : first = first' := (List.cons.inj heq).1
  have hinv := hw.inv
  have hinv' := hw'.inv
  split_ifs at hinv hinv' with h80 h40 h20
  · obtain ⟨i, rfl, hnum⟩ := hinv
    obtain ⟨i', rfl, hnum'⟩ := hinv'
    obtain ⟨hword, rfl⟩ := (Integer.takes_decode (δ := Huffman.DecodeError) (by decide)).unambiguous hnum hnum' heq
    exact ⟨hword, rfl⟩
  · obtain ⟨u, s, name, value, hus, rfl, hu, hs⟩ := hinv
    obtain ⟨u', s', name', value', hus', rfl, hu', hs'⟩ := hinv'
    rw [hus, hus'] at heq ⊢
    obtain ⟨rfl, rfl, rfl, rfl⟩ := literal_unambiguous (by decide) hu hu' hs hs' heq
    exact ⟨rfl, rfl⟩
  · obtain ⟨i, rfl, hnum⟩ := hinv
    obtain ⟨i', rfl, hnum'⟩ := hinv'
    obtain ⟨hword, rfl⟩ := (Integer.takes_decode (δ := Huffman.DecodeError) (by decide)).unambiguous hnum hnum' heq
    exact ⟨hword, rfl⟩
  · obtain ⟨u, s, name, value, hus, rfl, hu, hs⟩ := hinv
    obtain ⟨u', s', name', value', hus', rfl, hu', hs'⟩ := hinv'
    rw [hus, hus'] at heq ⊢
    obtain ⟨rfl, rfl, rfl, rfl⟩ := literal_unambiguous (by decide) hu hu' hs hs' heq
    exact ⟨rfl, rfl⟩

/-! ## What they stand for -/

/-- The field at an index: the static table's come first, then the dynamic table's. -/
def address (t : DynamicTable) (index : ℕ) : Option HeaderField :=
  if index = 0 then none
  else if index ≤ StaticTable.entries.length then StaticTable.entries[index - 1]?
  else t.get (index - StaticTable.entries.length - 1)

/-- The name that is meant. -/
def Name.meaning (t : DynamicTable) : Name → Option Text
  | .index i => (address t i).map (·.name)
  | .string octets => some (.fromUtf8Lossy octets)

/-- The field a representation stands for, if it does for one, and the table it leaves. -/
def WireForm.meaning (maxCapacity : ℕ) (t : DynamicTable) : WireForm → Option (Option HeaderField × DynamicTable)
  | .indexed i => (address t i).map fun field => (some field, t)
  | .literal incremental name value => (name.meaning t).map fun name =>
    (some ⟨name, .fromUtf8Lossy value⟩, if incremental then t.insert ⟨name, .fromUtf8Lossy value⟩ else t)
  | .update capacity => if capacity ≤ maxCapacity then some (none, t.setCapacity capacity) else none

/-- The fields that representations stand for, and the table they leave. -/
def meaning (maxCapacity : ℕ) : DynamicTable → List WireForm → Option (List HeaderField × DynamicTable)
  | t, [] => some ([], t)
  | t, r :: rs => do
    let (field, t) ← r.meaning maxCapacity t
    let (fields, t) ← meaning maxCapacity t rs
    some (field.toList ++ fields, t)

/-! ## Well formed blocks -/

/-- The representations of a block, each with its octets. -/
def Spelt (num : ℕ → Octets → ℕ → Prop) (block : Octets) (items : List (Octets × WireForm)) : Prop :=
  block = items.flatMap Prod.fst ∧ ∀ item ∈ items, Written num item.1 item.2

/-- Whether it changes the size of the table. -/
def WireForm.isUpdate : WireForm → Bool
  | .update _ => true
  | _ => false

/-- No update comes behind a field. -/
def UpdatesLead (items : List (Octets × WireForm)) : Prop :=
  ∃ updates fields, items = updates ++ fields ∧ (∀ item ∈ updates, item.2.isUpdate = true) ∧
    ∀ item ∈ fields, item.2.isUpdate = false

theorem UpdatesLead.pairwise {items : List (Octets × WireForm)} (h : UpdatesLead items) :
    items.Pairwise fun before behind => behind.2.isUpdate = true → before.2.isUpdate = true := by
  obtain ⟨updates, fields, rfl, hupdates, hfields⟩ := h
  refine List.pairwise_append.2 ⟨?_, ?_, fun before hb _ _ _ => hupdates before hb⟩
  · exact List.pairwise_of_forall_mem_list fun before hb _ _ _ => hupdates before hb
  · exact List.pairwise_of_forall_mem_list fun _ _ behind hb h => absurd h (by simp [hfields behind hb])

namespace Decoder

/-- The representations stand for these fields, which are not too large, and leave this table. -/
def Denotes (d : Decoder) (items : List (Octets × WireForm)) (fields : List HeaderField) (t : DynamicTable) :
    Prop :=
  meaning d.maxCapacity d.dynamicTable (items.map Prod.snd) = some (fields, t) ∧ sectionSize fields ≤ d.maxDecodedSize

/-- The block is one of the format: updates and then fields, every integer a number that a
    word holds. -/
def WellFormed (d : Decoder) (block : Octets) (fields : List HeaderField) (t : DynamicTable) : Prop :=
  ∃ items, Spelt Integer.Number block items ∧ UpdatesLead items ∧ d.Denotes items fields t

/-- The block is one of the format but that an update comes behind a field, or an integer
    spills and its low bits are taken for it. -/
def Slips (d : Decoder) (block : Octets) : Prop :=
  ∃ items fields t, Spelt Integer.Word block items ∧ d.Denotes items fields t ∧
    (¬ UpdatesLead items ∨ ∃ item ∈ items, ¬ Written Integer.Number item.1 item.2)

/-! ## What is decoded -/

variable {d : Decoder}

theorem resolve_ok_iff (d : Decoder) (index : ℕ) (field : HeaderField) :
    d.resolve index = .ok field ↔ address d.dynamicTable index = some field := by
  rw [resolve, address]
  split_ifs
  · simp
  · cases StaticTable.entries[index - 1]? <;> simp
  · cases d.dynamicTable.get (index - StaticTable.entries.length - 1) <;> simp

theorem takes_integer {prefixBits : ℕ} (hp : prefixBits ≤ 8) :
    Takes (fun input => (Integer.decode input prefixBits).mapError Error.ofFields) (Integer.Word prefixBits) :=
  (Integer.takes_decode hp).mapError

theorem takes_string : Takes (fun input => (StringLiteral.decodeText input 7).mapError Error.ofFields)
    (fun w value => ∃ octets, StringLiteral.Coded Integer.Word w octets ∧ value = .fromUtf8Lossy octets) :=
  StringLiteral.takes_decodeText.mapError

/-- A literal is a name and a value. -/
theorem takes_decodeLiteral {prefixBits : ℕ} (hp : prefixBits ≤ 8) : Takes (fun input => d.decodeLiteral input prefixBits)
    (fun w field => ∃ u s name value text, w = u ++ s ∧ Naming Integer.Word prefixBits u name ∧
      StringLiteral.Coded Integer.Word s value ∧ name.meaning d.dynamicTable = some text ∧
      field = ⟨text, .fromUtf8Lossy value⟩) where
  sound {input n field} h := by
    rcases hi : (Integer.decode input prefixBits).mapError Error.ofFields with e | ⟨start, index⟩
    · simp only [decodeLiteral, hi, bind, Except.bind, reduceCtorEq] at h
    · obtain ⟨u, left, rfl, rfl, hu⟩ := (takes_integer hp).sound hi
      by_cases hzero : index = 0
      · subst hzero
        rcases hn : (StringLiteral.decodeText left 7).mapError Error.ofFields with e | ⟨m, name⟩
        · simp only [decodeLiteral, hi, List.drop_left, hn, if_true, bind, Except.bind, reduceCtorEq] at h
        · obtain ⟨s, left, rfl, rfl, octets, hs, rfl⟩ := takes_string.sound hn
          have hdrop : (u ++ (s ++ left)).drop (u.length + s.length) = left := by
            rw [← List.append_assoc, ← List.length_append, List.drop_left]
          rcases hv : (StringLiteral.decodeText left 7).mapError Error.ofFields with e | ⟨l, value⟩
          · simp only [decodeLiteral, hi, List.drop_left, hn, if_true, bind, Except.bind, pure, Except.pure, hdrop, hv,
              reduceCtorEq] at h
          · obtain ⟨v, left, rfl, rfl, octets', hv', rfl⟩ := takes_string.sound hv
            simp only [decodeLiteral, hi, List.drop_left, hn, if_true, bind, Except.bind, pure, Except.pure, hdrop, hv,
              Except.ok.injEq, Prod.mk.injEq] at h
            obtain ⟨rfl, rfl⟩ := h
            exact ⟨u ++ s ++ v, left, by simp, by simp [Nat.add_assoc], u ++ s, v, .string octets, octets', _, rfl,
              .string hu hs, hv', rfl, rfl⟩
      · rcases hr : d.resolve index with e | named
        · simp only [decodeLiteral, hi, if_neg hzero, hr, bind, Except.bind, reduceCtorEq] at h
        · rcases hv : (StringLiteral.decodeText left 7).mapError Error.ofFields with e | ⟨l, value⟩
          · simp only [decodeLiteral, hi, if_neg hzero, hr, bind, Except.bind, pure, Except.pure, List.drop_left, hv,
              reduceCtorEq] at h
          · obtain ⟨v, left, rfl, rfl, octets, hv', rfl⟩ := takes_string.sound hv
            simp only [decodeLiteral, hi, if_neg hzero, hr, bind, Except.bind, pure, Except.pure, List.drop_left, hv,
              Except.ok.injEq, Prod.mk.injEq] at h
            obtain ⟨rfl, rfl⟩ := h
            refine ⟨u ++ v, left, by simp, by simp, u, v, .index index, octets, named.name, rfl,
              .index hu hzero, hv', ?_, rfl⟩
            rw [Name.meaning, (resolve_ok_iff d index named).1 hr]
            rfl
  complete {w field} hw rest := by
    obtain ⟨u, s, name, value, text, rfl, hname, hs, hmeaning, rfl⟩ := hw
    have hv := takes_string.complete ⟨value, hs, rfl⟩ rest
    cases hname with
    | @index u i hu hzero =>
      have hi := (takes_integer hp).complete hu (s ++ rest)
      obtain ⟨named, hnamed, rfl⟩ := Option.map_eq_some_iff.1 hmeaning
      simp only [decodeLiteral, List.append_assoc, hi, if_neg hzero, (resolve_ok_iff d i named).2 hnamed, bind,
        Except.bind, pure, Except.pure, List.drop_left, hv, List.length_append]
    | @string u v octets hu hv' =>
      cases hmeaning
      have hi := (takes_integer hp).complete hu (v ++ (s ++ rest))
      have hn := takes_string.complete ⟨octets, hv', rfl⟩ (s ++ rest)
      have hdrop : (u ++ (v ++ (s ++ rest))).drop (u.length + v.length) = s ++ rest := by
        rw [← List.append_assoc, ← List.length_append, List.drop_left]
      simp only [decodeLiteral, List.append_assoc, hi, if_true, hn, bind, Except.bind, pure, Except.pure,
        List.drop_left, hdrop, hv, List.length_append, Nat.add_assoc]

/-- The octets of an integer begin with those of what they are part of. -/
theorem head_of_word {prefixBits : ℕ} (hp : prefixBits ≤ 8) {w left rest : Octets} {v : ℕ} {first : UInt8}
    (hw : Integer.Word prefixBits w v) (heq : first :: rest = w ++ left) : ∃ tail, w = first :: tail := by
  have hread := (Integer.takes_decode (δ := Huffman.DecodeError) hp).complete hw []
  obtain ⟨c, tail, rfl⟩ := List.exists_cons_of_length_pos (Integer.decode_consumed hread).1
  exact ⟨tail, by rw [(List.cons.inj heq).1]⟩

theorem head_of_naming {prefixBits : ℕ} (hp : prefixBits ≤ 8) {u left rest : Octets} {name : Name} {first : UInt8}
    (hu : Naming Integer.Word prefixBits u name) (heq : first :: rest = u ++ left) : ∃ tail, u = first :: tail := by
  cases hu with
  | index hu => exact head_of_word hp hu heq
  | @string u s octets hu =>
    rw [List.append_assoc] at heq
    obtain ⟨tail, rfl⟩ := head_of_word hp hu heq
    exact ⟨tail ++ s, rfl⟩

/-- Decodes the representation at the front, if there is one. -/
def front (d : Decoder) : Octets → Except Error (ℕ × Option HeaderField × Decoder)
  | [] => .error .incomplete
  | first :: rest => d.decodeOne first (first :: rest)

theorem takes_front (d : Decoder) : Takes d.front (fun w item => ∃ r t, Written Integer.Word w r ∧
    r.meaning d.maxCapacity d.dynamicTable = some (item.1, t) ∧ item.2 = { d with dynamicTable := t }) where
  sound {input n item} h := by
    cases input with
    | nil => cases h
    | cons first rest =>
      rw [front, decodeOne] at h
      split_ifs at h with h80 h40 h20
      · rcases hi : (Integer.decode (first :: rest) 7).mapError Error.ofFields with e | ⟨start, index⟩
        · simp only [hi, bind, Except.bind, reduceCtorEq] at h
        · obtain ⟨w, left, heq, rfl, hw⟩ := (takes_integer (by decide)).sound hi
          rcases hr : d.resolve index with e | field
          · simp only [hi, hr, bind, Except.bind, reduceCtorEq] at h
          · simp only [hi, hr, bind, Except.bind, pure, Except.pure, Except.ok.injEq, Prod.mk.injEq] at h
            obtain ⟨rfl, rfl⟩ := h
            obtain ⟨tail, rfl⟩ := head_of_word (by decide) hw heq
            refine ⟨_, left, heq, rfl, .indexed index, d.dynamicTable, .indexed h80 hw, ?_, rfl⟩
            rw [WireForm.meaning, (resolve_ok_iff d index field).1 hr]
            rfl
      · rcases hl : d.decodeLiteral (first :: rest) 6 with e | ⟨n, field⟩
        · simp only [hl, bind, Except.bind, reduceCtorEq] at h
        · simp only [hl, bind, Except.bind, pure, Except.pure, Except.ok.injEq, Prod.mk.injEq] at h
          obtain ⟨rfl, rfl⟩ := h
          obtain ⟨w, left, heq, rfl, u, s, name, value, text, rfl, hname, hs, hmeaning, rfl⟩ :=
            (takes_decodeLiteral (by decide)).sound hl
          obtain ⟨tail, rfl⟩ := head_of_naming (by decide) hname (heq.trans (List.append_assoc _ _ _))
          refine ⟨_, left, heq, rfl, .literal true name value, _, .incremental (not_not.1 h80) h40 hname hs, ?_, rfl⟩
          rw [WireForm.meaning, hmeaning]
          rfl
      · rcases hi : (Integer.decode (first :: rest) 5).mapError Error.ofFields with e | ⟨start, capacity⟩
        · simp only [hi, bind, Except.bind, reduceCtorEq] at h
        · obtain ⟨w, left, heq, rfl, hw⟩ := (takes_integer (by decide)).sound hi
          simp only [hi, bind, Except.bind, pure, Except.pure] at h
          split_ifs at h with hlt
          obtain ⟨rfl, rfl⟩ := Prod.mk.inj (Except.ok.inj h)
          obtain ⟨tail, rfl⟩ := head_of_word (by decide) hw heq
          refine ⟨_, left, heq, rfl, .update capacity, _, .update (not_not.1 h80) (not_not.1 h40) h20 hw, ?_, rfl⟩
          exact if_pos (Nat.le_of_not_lt hlt)
      · rcases hl : d.decodeLiteral (first :: rest) 4 with e | ⟨n, field⟩
        · simp only [hl, bind, Except.bind, reduceCtorEq] at h
        · simp only [hl, bind, Except.bind, pure, Except.pure, Except.ok.injEq, Prod.mk.injEq] at h
          obtain ⟨rfl, rfl⟩ := h
          obtain ⟨w, left, heq, rfl, u, s, name, value, text, rfl, hname, hs, hmeaning, rfl⟩ :=
            (takes_decodeLiteral (by decide)).sound hl
          obtain ⟨tail, rfl⟩ := head_of_naming (by decide) hname (heq.trans (List.append_assoc _ _ _))
          refine ⟨_, left, heq, rfl, .literal false name value, d.dynamicTable,
            .plain (not_not.1 h80) (not_not.1 h40) (not_not.1 h20) hname hs, ?_, rfl⟩
          rw [WireForm.meaning, hmeaning]
          rfl
  complete {w item} hw rest := by
    obtain ⟨field, d'⟩ := item
    obtain ⟨r, t, hw, hmeaning, rfl⟩ := hw
    cases hw with
    | @indexed first tail i h80 hw =>
      have hi := (takes_integer (by decide)).complete hw rest
      obtain ⟨found, hfound, heq⟩ := Option.map_eq_some_iff.1 hmeaning
      cases heq
      rw [List.cons_append] at hi ⊢
      simp only [front, decodeOne, if_pos h80, hi, (resolve_ok_iff d i found).2 hfound, bind, Except.bind, pure,
        Except.pure]
    | @incremental first tail s value name h80 h40 hname hs =>
      obtain ⟨text, htext, heq⟩ := Option.map_eq_some_iff.1 hmeaning
      cases heq
      have hl := (takes_decodeLiteral (by decide)).complete ⟨_, s, name, value, text, rfl, hname, hs, htext, rfl⟩ rest
      rw [List.cons_append, List.cons_append] at hl ⊢
      simp only [front, decodeOne, if_neg (not_not_intro h80), if_pos h40, hl, bind, Except.bind, pure, Except.pure,
        if_true]
    | @update first tail capacity h80 h40 h20 hw =>
      have hi := (takes_integer (by decide)).complete hw rest
      rw [WireForm.meaning] at hmeaning
      split_ifs at hmeaning with hle
      cases hmeaning
      rw [List.cons_append] at hi ⊢
      simp only [front, decodeOne, if_neg (not_not_intro h80), if_neg (not_not_intro h40), if_pos h20, hi, bind,
        Except.bind, pure, Except.pure, if_neg (Nat.not_lt.2 hle)]
    | @plain first tail s value name h80 h40 h20 hname hs =>
      obtain ⟨text, htext, heq⟩ := Option.map_eq_some_iff.1 hmeaning
      cases heq
      have hl := (takes_decodeLiteral (by decide)).complete ⟨_, s, name, value, text, rfl, hname, hs, htext, rfl⟩ rest
      rw [List.cons_append, List.cons_append] at hl ⊢
      simp only [front, decodeOne, if_neg (not_not_intro h80), if_neg (not_not_intro h40), if_neg (not_not_intro h20),
        hl, bind, Except.bind, pure, Except.pure, Bool.false_eq_true, if_false]

/-! ### Blocks -/

theorem decodeLoop_sound {fuel : ℕ} {input : Octets} {headers fields : List HeaderField} {size : ℕ} {d' : Decoder}
    (hfuel : input.length ≤ fuel) (hsize : size ≤ d.maxDecodedSize)
    (h : decodeLoop fuel d input headers size = (d', .ok fields)) :
    ∃ items more t, Spelt Integer.Word input items ∧
      meaning d.maxCapacity d.dynamicTable (items.map Prod.snd) = some (more, t) ∧ fields = headers ++ more ∧
      size + sectionSize more ≤ d.maxDecodedSize ∧ d' = { d with dynamicTable := t } := by
  induction fuel generalizing d input headers size with
  | zero =>
    obtain rfl := List.length_eq_zero_iff.1 (Nat.le_zero.1 hfuel)
    cases h
    exact ⟨[], [], d'.dynamicTable, ⟨rfl, by simp⟩, rfl, (List.append_nil _).symm, hsize, rfl⟩
  | succ fuel ih =>
    cases input with
    | nil =>
      cases h
      exact ⟨[], [], d'.dynamicTable, ⟨rfl, by simp⟩, rfl, (List.append_nil _).symm, hsize, rfl⟩
    | cons first rest =>
      rcases hone : d.decodeOne first (first :: rest) with e | ⟨n, field, next⟩
      · simp only [decodeLoop, hone, Prod.mk.injEq, reduceCtorEq, and_false] at h
      · have hfront : d.front (first :: rest) = .ok (n, field, next) := hone
        obtain ⟨w, left, heq, rfl, r, t, hw, hmeaning, hnext⟩ := (takes_front d).sound hfront
        have hleft : left.length ≤ fuel := by
          have hlen := congrArg List.length heq
          have := List.length_pos_of_ne_nil hw.ne_nil
          rw [List.length_append, List.length_cons] at hlen
          rw [List.length_cons] at hfuel
          omega
        have hdrop : (first :: rest).drop w.length = left := heq ▸ List.drop_left
        cases hnext
        cases field with
        | none =>
          simp only [decodeLoop, hone, hdrop] at h
          obtain ⟨items, more, t', ⟨hblock, hitems⟩, hmore, hfields, hle, rfl⟩ :=
            ih (d := { d with dynamicTable := t }) hleft hsize h
          refine ⟨(w, r) :: items, more, t', ⟨?_, List.forall_mem_cons.2 ⟨hw, hitems⟩⟩, ?_, hfields, hle, rfl⟩
          · rw [heq, hblock, List.flatMap_cons]
          · simp [meaning, hmeaning, hmore]
        | some field =>
          simp only [decodeLoop, hone, hdrop] at h
          have hlt : ¬ d.maxDecodedSize < size + field.size := fun hlt => by
            rw [if_pos hlt] at h
            cases h
          rw [if_neg hlt] at h
          obtain ⟨items, more, t', ⟨hblock, hitems⟩, hmore, hfields, hle, rfl⟩ :=
            ih (d := { d with dynamicTable := t }) hleft (Nat.le_of_not_lt hlt) h
          refine ⟨(w, r) :: items, field :: more, t', ⟨?_, List.forall_mem_cons.2 ⟨hw, hitems⟩⟩, ?_, ?_, ?_, rfl⟩
          · rw [heq, hblock, List.flatMap_cons]
          · simp [meaning, hmeaning, hmore]
          · rw [hfields, List.append_assoc, List.singleton_append]
          · rwa [sectionSize_cons, ← Nat.add_assoc]

theorem decodeLoop_complete {items : List (Octets × WireForm)} {fuel : ℕ} {headers more : List HeaderField}
    {size : ℕ} {t : DynamicTable} (hfuel : (items.flatMap Prod.fst).length ≤ fuel)
    (hitems : ∀ item ∈ items, Written Integer.Word item.1 item.2)
    (hmeaning : meaning d.maxCapacity d.dynamicTable (items.map Prod.snd) = some (more, t))
    (hsize : size + sectionSize more ≤ d.maxDecodedSize) :
    decodeLoop fuel d (items.flatMap Prod.fst) headers size = ({ d with dynamicTable := t }, .ok (headers ++ more)) := by
  induction items generalizing fuel headers more size d with
  | nil =>
    cases hmeaning
    rw [List.append_nil]
    cases fuel <;> rfl
  | cons item items ih =>
    obtain ⟨w, r⟩ := item
    rw [List.forall_mem_cons] at hitems
    obtain ⟨hw, hitems⟩ := hitems
    simp only [List.map_cons, meaning, Option.bind_eq_bind, Option.bind_eq_some_iff, Prod.exists, Option.some.injEq,
      Prod.mk.injEq] at hmeaning
    obtain ⟨field, t₁, hone, fields, t', hmore, rfl, rfl⟩ := hmeaning
    obtain ⟨first, tail, rfl⟩ := List.exists_cons_of_ne_nil hw.ne_nil
    rw [List.flatMap_cons] at hfuel ⊢
    have hread := (takes_front d).complete (a := (field, { d with dynamicTable := t₁ })) ⟨r, t₁, hw, hone, rfl⟩
      (items.flatMap Prod.fst)
    have hdrop : (first :: tail ++ items.flatMap Prod.fst).drop (first :: tail).length = items.flatMap Prod.fst :=
      List.drop_left
    cases fuel with
    | zero => cases hfuel
    | succ fuel =>
      have hleft : (items.flatMap Prod.fst).length ≤ fuel := by
        rw [List.length_append, List.length_cons] at hfuel
        omega
      rw [List.cons_append] at hread hdrop ⊢
      rw [front] at hread
      cases field with
      | none =>
        simp only [decodeLoop, hread, hdrop]
        exact ih (d := { d with dynamicTable := t₁ }) hleft hitems hmore hsize
      | some field =>
        simp only [Option.toList_some, List.singleton_append, sectionSize_cons, ← Nat.add_assoc] at hsize
        have hlt : ¬ d.maxDecodedSize < size + field.size := by omega
        simp only [decodeLoop, hread, hdrop, if_neg hlt]
        rw [ih (d := { d with dynamicTable := t₁ }) hleft hitems hmore hsize]
        simp

/-- What is decoded: complete representations, to the fields they stand for. -/
theorem decode_ok_iff {block : Octets} {fields : List HeaderField} {d' : Decoder} :
    d.decode block = (d', .ok fields) ↔ ∃ items t, Spelt Integer.Word block items ∧ d.Denotes items fields t ∧
      d' = { d with dynamicTable := t } := by
  constructor
  · intro h
    obtain ⟨items, more, t, hspelt, hmeaning, rfl, hsize, rfl⟩ := decodeLoop_sound le_rfl (Nat.zero_le _) h
    exact ⟨items, t, hspelt, ⟨hmeaning, (Nat.zero_add _).symm.trans_le hsize⟩, rfl⟩
  · rintro ⟨items, t, ⟨rfl, hitems⟩, ⟨hmeaning, hsize⟩, rfl⟩
    exact decodeLoop_complete le_rfl hitems hmeaning ((Nat.zero_add _).trans_le hsize)

/-- A block that slips is decoded and is not one of the format, as it is cut into
    representations in one way. -/
theorem Slips.not_wellFormed {block : Octets} (h : d.Slips block) :
    ∃ fields d', d.decode block = (d', .ok fields) ∧ ∀ t, ¬ d.WellFormed block fields t := by
  obtain ⟨items, fields, t, hspelt, hdenotes, hslip⟩ := h
  refine ⟨fields, _, decode_ok_iff.2 ⟨items, t, hspelt, hdenotes, rfl⟩, ?_⟩
  rintro t' ⟨items', ⟨hblock, hitems⟩, hlead, -⟩
  have hword : ∀ item ∈ items', Written Integer.Word item.1 item.2 := fun item hm =>
    (hitems item hm).mono fun _ _ _ => .inl
  obtain rfl := written_unambiguous.run Written.ne_nil hspelt.2 hword (hspelt.1.symm.trans hblock)
  rcases hslip with hslip | ⟨item, hm, hslip⟩
  · exact hslip hlead
  · exact hslip (hitems item hm)

/-- The format is accepted, and nothing else, exactly where no update comes behind a field
    and no integer spills. -/
theorem format_accepted_iff (d : Decoder) (block : Octets) :
    (∀ d' fields, d.decode block = (d', .ok fields) ↔
      ∃ t, d.WellFormed block fields t ∧ d' = { d with dynamicTable := t }) ↔ ¬ d.Slips block := by
  constructor
  · intro h hslips
    obtain ⟨fields, d', hdecode, hnot⟩ := hslips.not_wellFormed
    obtain ⟨t, hwell, -⟩ := (h d' fields).1 hdecode
    exact hnot t hwell
  · intro hslips d' fields
    rw [decode_ok_iff]
    constructor
    · rintro ⟨items, t, hspelt, hdenotes, rfl⟩
      have hlead : UpdatesLead items := by
        by_contra hlead
        exact hslips ⟨items, fields, t, hspelt, hdenotes, .inl hlead⟩
      have hnumber : ∀ item ∈ items, Written Integer.Number item.1 item.2 := fun item hm => by
        by_contra hnumber
        exact hslips ⟨items, fields, t, hspelt, hdenotes, .inr ⟨item, hm, hnumber⟩⟩
      exact ⟨t, ⟨items, ⟨hspelt.1, hnumber⟩, hlead, hdenotes⟩, rfl⟩
    · rintro ⟨t, ⟨items, ⟨hblock, hitems⟩, -, hdenotes⟩, rfl⟩
      exact ⟨items, t, ⟨hblock, fun item hm => (hitems item hm).mono fun _ _ _ => .inl⟩, hdenotes, rfl⟩

/-- The second field of the static table. -/
theorem address_method (t : DynamicTable) : address t 2 = some (.lit ":method" "GET") := by
  rw [address, StaticTable.length_entries, StaticTable.entries]
  rfl

/-- A field of the static table and then an update. -/
theorem slips_update_last : Decoder.new.Slips [0x82, 0x20] := by
  refine ⟨[([0x82], .indexed 2), ([0x20], .update 0)], [.lit ":method" "GET"],
    Decoder.new.dynamicTable.setCapacity 0, ⟨rfl, ?_⟩, ⟨?_, by decide⟩, .inl ?_⟩
  · intro item hm
    simp only [List.mem_cons, List.not_mem_nil, or_false] at hm
    rcases hm with rfl | rfl
    · exact .indexed (by decide) (.inl ⟨.alone (by decide), by decide, by decide⟩)
    · exact .update (by decide) (by decide) (by decide) (.inl ⟨.alone (by decide), by decide, by decide⟩)
  · simp [meaning, WireForm.meaning, address_method]
  · exact fun hlead => absurd hlead.pairwise (by simp [WireForm.isUpdate])

/-- It is decoded, and is not one of the format. -/
theorem update_last_accepted : ∃ fields d', Decoder.new.decode [0x82, 0x20] = (d', .ok fields) ∧
    ∀ t, ¬ Decoder.new.WellFormed [0x82, 0x20] fields t :=
  slips_update_last.not_wellFormed

end Decoder

end Hpack

end Soyokaze

import Soyokaze.Helpers.Huffman
import Soyokaze.Lib.Act

/-!
# Huffman coding, to the bit

An octet string is one encoding at most, of one string: its code words are followed by
the only padding that fills its last octet.

* `encode_of_spells`: what spells a string is how the string is encoded;
* `Refused`: what no string is encoded as;
* `coding_exact`: decoding and encoding undo each other, and what is refused is `Refused`.
-/

namespace Soyokaze.Huffman

open PrefixCode

/-- Decodes a Huffman string. -/
def decode (input : Octets) : Except DecodeError Octets := (decodeIntoAscii input).map Prod.fst

/-! ## One encoding -/

theorem bits_inj {l m : Octets} (h : bits l = bits m) : l = m := by
  induction l generalizing m with
  | nil =>
    have hlen := congrArg List.length h
    rw [length_bits, length_bits] at hlen
    exact (List.length_eq_zero_iff.1 (by simpa using hlen.symm)).symm
  | cons o l ih =>
    cases m with
    | nil => simp [bits_cons, msb] at h
    | cons p m =>
      rw [bits_cons, bits_cons] at h
      obtain ⟨hhead, htail⟩ := List.append_inj h (by rw [length_msb, length_msb])
      have hoctet := msb_inj hhead
      rw [Nat.mod_eq_of_lt o.toNat_lt, Nat.mod_eq_of_lt p.toNat_lt] at hoctet
      rw [UInt8.toNat_inj.1 hoctet, ih htail]

/-- Padding is told by how long it is. -/
theorem Padding.eq {pad pad' : List Bool} (h : Padding pad) (h' : Padding pad') (hlen : pad.length = pad'.length) :
    pad = pad' := by
  rw [List.eq_replicate_of_mem h.2, List.eq_replicate_of_mem h'.2, hlen]

/-- What spells a string is how the string is encoded: the padding fills the last octet
    and no more. -/
theorem encode_of_spells {input out : Octets} (h : Spells out (bits input)) : encode out = input := by
  obtain ⟨pad, hpad, hbits⟩ := h
  obtain ⟨pad', hpad', hbits'⟩ := encode_spec out
  have hlen := congrArg List.length hbits
  have hlen' := congrArg List.length hbits'
  rw [length_bits, List.length_append] at hlen hlen'
  have hpads : pad'.length = pad.length := by
    have := hpad.1
    have := hpad'.1
    omega
  exact bits_inj (by rw [hbits, hbits', hpad'.eq hpad hpads])

/-! ## What is refused -/

/-- Past some code words there comes the end of a string, or what no code word is at the
    front of and is no padding: it is too long, or not all ones. -/
def Refused (input : Octets) : Prop :=
  ∃ (l : Octets) (rest : List Bool), bits input = l.flatMap octetWord ++ rest ∧
    (word end_ <+: rest ∨ (∀ s, ¬ word s <+: rest) ∧ (8 ≤ rest.length ∨ false ∈ rest))

theorem octet_or_end (s : Fin 257) : (∃ o, octet o = s) ∨ s = end_ := by
  rcases Nat.lt_or_ge s.1 256 with hs | hs
  · exact .inl ⟨UInt8.ofNat s.1, Fin.ext (by simp [octet, Nat.mod_eq_of_lt hs])⟩
  · exact .inr (Fin.ext (Nat.le_antisymm (Nat.le_of_lt_succ s.2) hs))

/-- Code words are taken off the front for as long as there are any. -/
theorem exists_words (bs : List Bool) : ∃ (l : Octets) (rest : List Bool), bs = l.flatMap octetWord ++ rest ∧
    (word end_ <+: rest ∨ ∀ s, ¬ word s <+: rest) := by
  induction hn : bs.length using Nat.strong_induction_on generalizing bs with
  | _ n ih =>
    by_cases hword : ∃ o, octetWord o <+: bs
    · obtain ⟨o, rest, rfl⟩ := hword
      have hpos := (len_bounds (octet o)).1
      have hlen : (octetWord o).length = len (octet o) := length_octetWord o
      rw [List.length_append] at hn
      obtain ⟨l, last, rfl, hlast⟩ := ih rest.length (by omega) rest rfl
      exact ⟨o :: l, last, by simp, hlast⟩
    · refine ⟨[], bs, rfl, ?_⟩
      by_cases hend : word end_ <+: bs
      · exact .inl hend
      · refine .inr fun s hs => ?_
        rcases octet_or_end s with ⟨o, rfl⟩ | rfl
        · exact hword ⟨o, hs⟩
        · exact hend hs

theorem refused_iff (input : Octets) : Refused input ↔ ∀ out, ¬ Spells out (bits input) := by
  constructor
  · rintro ⟨l, rest, hbits, hrest⟩ out hspells
    rw [hbits, spells_append] at hspells
    obtain ⟨m, -, hm⟩ := hspells
    rcases hrest with hend | ⟨hword, hpad⟩
    · exact not_spells_end hend hm
    · refine not_spelled (fun hpadding => ?_) (fun o => hword (octet o)) hm
      rcases hpad with hlong | hzero
      · exact absurd hpadding.1 (Nat.not_lt.2 hlong)
      · exact Bool.false_ne_true (hpadding.2 false hzero)
  · intro hnone
    obtain ⟨l, rest, hbits, hrest⟩ := exists_words (bits input)
    refine ⟨l, rest, hbits, hrest.imp_right fun hword => ⟨hword, ?_⟩⟩
    by_contra hpad
    obtain ⟨hshort, hones⟩ := not_or.1 hpad
    refine hnone l ⟨rest, ⟨Nat.lt_of_not_le hshort, fun bit hbit => ?_⟩, hbits⟩
    cases bit with
    | true => rfl
    | false => exact absurd hbit hones

/-! ## Both ways -/

theorem all_ascii_iff (out : Octets) : isAscii out = true ↔ ∀ o ∈ out, ¬ 0x7f < o := by
  rw [isAscii, List.all_eq_true]
  refine forall₂_congr fun o _ => ?_
  rw [decide_eq_true_iff, UInt8.lt_iff_toNat_lt, UInt8.lt_iff_toNat_lt]
  show o.toNat < 128 ↔ ¬ 127 < o.toNat
  omega

/-- Decoding undoes encoding, which gives as many octets as it said; encoding undoes
    decoding, which says whether it gives ASCII; and what is not decoded is refused
    for its end of a string, for its padding or for what is no code word. -/
theorem coding_exact (x y : Octets) :
    decode (encode x) = .ok x ∧ (encode x).length = encodedLen x ∧
      (∀ out, decode y = .ok out → encode out = y) ∧ ((∃ e, decode y = .error e) ↔ Refused y) ∧
      ∀ out ascii, decodeIntoAscii y = .ok (out, ascii) → (ascii = true ↔ ∀ o ∈ out, ¬ 0x7f < o) := by
  refine ⟨?_, length_encode x, fun out h => ?_, ?_, fun out ascii h => ?_⟩
  · rw [decode, decode_encode]
    rfl
  · obtain ⟨⟨out', ascii⟩, hdecode, rfl⟩ := Except.map_eq_ok h
    exact encode_of_spells ((decodeIntoAscii_iff _ _ _).1 hdecode).1
  · rw [refused_iff, decode]
    constructor
    · rintro ⟨e, he⟩ out hspells
      rw [(decodeIntoAscii_iff y out _).2 ⟨hspells, rfl⟩] at he
      cases he
    · intro hnone
      rcases hdecode : decodeIntoAscii y with e | ⟨out, ascii⟩
      · exact ⟨e, rfl⟩
      · exact absurd ((decodeIntoAscii_iff _ _ _).1 hdecode).1 (hnone out)
  · rw [((decodeIntoAscii_iff _ _ _).1 h).2, all_ascii_iff]

end Soyokaze.Huffman

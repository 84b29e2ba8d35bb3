import Soyokaze.Helpers.Huffman
import Soyokaze.Helpers.Integer

/-!
# String literals

A length in a prefixed integer, with the bit above the prefix marking Huffman
coding, and then the octets.

`StringLiteral.spells_octets`, `StringLiteral.spells`: what `encodeShorter`
writes spells the octets or the text it was given, for every prefix width up to
seven and all flags above the mark.
-/

namespace Soyokaze

open Framing

namespace Integer

variable {δ : Type}

theorem decodeRest_consumed {input : Octets} {value shift consumed n v : ℕ}
    (h : decodeRest (δ := δ) input value shift consumed = .ok (n, v)) :
    consumed < n ∧ n ≤ consumed + input.length := by
  induction input generalizing value shift consumed with
  | nil => cases h
  | cons octet input ih =>
    simp only [decodeRest] at h
    split_ifs at h
    · simp only [Except.ok.injEq, Prod.mk.injEq] at h
      simp only [List.length_cons]
      omega
    · have := ih h
      simp only [List.length_cons]
      omega

/-- An integer takes an octet at least, and no more than there are. -/
theorem decode_consumed {input : Octets} {prefixBits n v : ℕ}
    (h : decode (δ := δ) input prefixBits = .ok (n, v)) : 0 < n ∧ n ≤ input.length := by
  cases input with
  | nil => cases h
  | cons first rest =>
    simp only [decode] at h
    split_ifs at h
    · simp only [Except.ok.injEq, Prod.mk.injEq] at h
      simp only [List.length_cons]
      omega
    · have := decodeRest_consumed h
      simp only [List.length_cons]
      omega

end Integer

namespace Fields

/-- Why a wire primitive would not decode. -/
abbrev WireError := Error Huffman.DecodeError

end Fields

namespace StringLiteral

/-- The widest prefix a string literal can be written with. -/
def MAX_PREFIX_BITS : ℕ := 7

/-- The mark that says a string is Huffman coded. -/
def huffmanMark (prefixBits : ℕ) : UInt8 := .ofNat (1 <<< min prefixBits MAX_PREFIX_BITS)

/-- Writes a string, Huffman coded or not as asked. -/
def encode (value : Octets) (prefixBits : ℕ) (flags : UInt8) (huffman : Bool) : Octets :=
  let prefixBits := min prefixBits MAX_PREFIX_BITS
  if huffman then
    Integer.encode (Huffman.encodedLen value) prefixBits (flags ||| huffmanMark prefixBits) ++
      Huffman.encode value
  else Integer.encode value.length prefixBits flags ++ value

/-- Writes a string, Huffman coded only when that is shorter. -/
def encodeShorter (value : Octets) (prefixBits : ℕ) (flags : UInt8) : Octets :=
  encode value prefixBits flags (Huffman.encodedLen value < value.length)

/-- Reads a string: how many octets it took, the octets it holds, and whether
    they are ASCII. -/
def decodeIntoAscii (input : Octets) (prefixBits : ℕ) :
    Except Fields.WireError (ℕ × Octets × Bool) :=
  let prefixBits := min prefixBits MAX_PREFIX_BITS
  match input with
  | [] => .error .incomplete
  | first :: _ => do
    let huffman := first &&& huffmanMark prefixBits != 0
    let (start, length) ← Integer.decode input prefixBits
    -- An end past the address space is past the input as well.
    let stop := start + length
    if input.length < stop then .error .incomplete
    else
      let octets := (input.drop start).take length
      if huffman then
        let (value, ascii) ← (Huffman.decodeIntoAscii octets).mapError .huffman
        .ok (stop, value, ascii)
      else .ok (stop, octets, isAscii octets)

/-- Builds a text from decoded octets, without validating what is known to be ASCII. -/
def text (octets : Octets) (ascii : Bool) : Text :=
  if ascii then .fromVerifiedAscii octets else .fromUtf8Lossy octets

/-- Reads a string. -/
def decode (input : Octets) (prefixBits : ℕ) : Except Fields.WireError (ℕ × Octets) := do
  let (consumed, octets, _) ← decodeIntoAscii input prefixBits
  .ok (consumed, octets)

/-- Reads a string straight into a text. -/
def decodeText (input : Octets) (prefixBits : ℕ) : Except Fields.WireError (ℕ × Text) := do
  let (consumed, octets, ascii) ← decodeIntoAscii input prefixBits
  .ok (consumed, text octets ascii)

/-! ## Round trip -/

@[simp] theorem text_eq (octets : Octets) (ascii : Bool) : text octets ascii = .fromUtf8Lossy octets := by
  rw [text]
  split_ifs
  · exact Text.fromVerifiedAscii_eq octets
  · rfl

/-- The octets after the length, taken as `huffman` says. -/
def body (huffman : Bool) (length : ℕ) (input : Octets) : Except Fields.WireError (ℕ × Octets × Bool) :=
  if input.length < length then .error .incomplete
  else if huffman then do
    let value ← (Huffman.decodeIntoAscii (input.take length)).mapError .huffman
    .ok (length, value)
  else .ok (length, input.take length, isAscii (input.take length))

/-- The reader, once the mark is known: a length and then the octets. -/
theorem decodeIntoAscii_eq {first : UInt8} {rest : Octets} {prefixBits : ℕ} (hp : prefixBits ≤ 7)
    {huffman : Bool} (hh : (first &&& huffmanMark prefixBits != 0) = huffman) :
    decodeIntoAscii (first :: rest) prefixBits = (do
      let (n, length) ← Integer.decode (first :: rest) prefixBits
      let (m, value) ← body huffman length ((first :: rest).drop n)
      .ok (n + m, value)) := by
  rw [decodeIntoAscii, MAX_PREFIX_BITS, min_eq_left hp]
  simp only [hh]
  cases hd : Integer.decode (δ := Huffman.DecodeError) (first :: rest) prefixBits with
  | error e => rfl
  | ok p =>
    obtain ⟨n, length⟩ := p
    have hn := (Integer.decode_consumed hd).2
    simp only [bind, Except.bind, body, List.length_drop]
    by_cases hlt : (first :: rest).length < n + length
    · rw [if_pos hlt, if_pos (show (first :: rest).length - n < length by omega)]
    · rw [if_neg hlt, if_neg (show ¬ (first :: rest).length - n < length by omega)]
      cases huffman with
      | false => rfl
      | true =>
        simp only [if_true]
        cases (Huffman.decodeIntoAscii (((first :: rest).drop n).take length)).mapError
          Fields.Error.huffman <;> rfl

/-- What the octets behind the length are taken for. -/
theorem body_ok_iff {huffman : Bool} {length n : ℕ} {input octets : Octets} {ascii : Bool} :
    body huffman length input = .ok (n, octets, ascii) ↔ length ≤ input.length ∧ n = length ∧ ascii = isAscii octets ∧
      if huffman then Huffman.Spells octets (Huffman.bits (input.take length)) else octets = input.take length := by
  rw [body]
  by_cases hlt : input.length < length
  · rw [if_pos hlt]
    exact iff_of_false nofun fun h => absurd hlt (Nat.not_lt.2 h.1)
  · rw [if_neg hlt, and_iff_right (Nat.le_of_not_lt hlt)]
    cases huffman with
    | false =>
      simp only [Bool.false_eq_true, if_false, Except.ok.injEq, Prod.mk.injEq]
      constructor
      · rintro ⟨rfl, rfl, rfl⟩
        exact ⟨rfl, rfl, rfl⟩
      · rintro ⟨rfl, rfl, rfl⟩
        exact ⟨rfl, rfl, rfl⟩
    | true =>
      have hiff := Huffman.decodeIntoAscii_iff (input.take length) octets ascii
      simp only [if_true]
      rcases hd : Huffman.decodeIntoAscii (input.take length) with e | value
      · rw [hd] at hiff
        refine iff_of_false nofun fun h => ?_
        cases hiff.2 ⟨h.2.2, h.2.1⟩
      · rw [hd, Except.ok.injEq] at hiff
        simp only [Except.mapError, bind, Except.bind, Except.ok.injEq, Prod.mk.injEq, hiff]
        constructor
        · rintro ⟨rfl, hspells, hascii⟩
          exact ⟨rfl, hascii, hspells⟩
        · rintro ⟨rfl, hascii, hspells⟩
          exact ⟨rfl, hspells, hascii⟩
theorem toNat_huffmanMark {prefixBits : ℕ} (hp : prefixBits ≤ 7) :
    (huffmanMark prefixBits).toNat = 2 ^ prefixBits := by
  rw [huffmanMark, MAX_PREFIX_BITS, min_eq_left hp, Nat.shiftLeft_eq, one_mul, UInt8.toNat_ofNat']
  exact Nat.mod_eq_of_lt (Nat.pow_lt_pow_right (by decide) (by omega))

/-- Flags that leave the prefix and the mark free have neither. -/
theorem testBit_flags {prefixBits : ℕ} {flags : UInt8} (hp : prefixBits ≤ 7)
    (hf : flags.toNat &&& Integer.limit (prefixBits + 1) = 0) {i : ℕ} (hi : i ≤ prefixBits) :
    flags.toNat.testBit i = false := by
  have := congrArg (·.testBit i) hf
  simp only [Integer.limit, Nat.testBit_and, Nat.zero_testBit] at this
  rwa [min_eq_left (by omega), Nat.testBit_two_pow_sub_one, decide_eq_true (by omega),
    Bool.and_true] at this

theorem limit_eq {prefixBits : ℕ} (hp : prefixBits ≤ 7) : Integer.limit prefixBits = 2 ^ prefixBits - 1 := by
  rw [Integer.limit, min_eq_left (by omega)]

/-- The mark is read back off the first octet. -/
theorem and_huffmanMark {prefixBits n : ℕ} {flags : UInt8} (hp : prefixBits ≤ 7)
    (hf : flags.toNat &&& Integer.limit (prefixBits + 1) = 0) (hn : n ≤ Integer.limit prefixBits)
    (huffman : Bool) :
    (((if huffman then flags ||| huffmanMark prefixBits else flags) ||| UInt8.ofNat n) &&&
      huffmanMark prefixBits != 0) = huffman := by
  have hlt : n < 2 ^ prefixBits := by
    have pos := Nat.two_pow_pos prefixBits
    rw [limit_eq hp] at hn
    omega
  have hn8 : n % 2 ^ 8 = n := Nat.mod_eq_of_lt (hlt.trans_le (Nat.pow_le_pow_right (by decide) (by omega)))
  have hbit := testBit_flags hp hf le_rfl
  rw [bne, Bool.eq_iff_iff, Bool.not_eq_true', beq_eq_false_iff_ne, ne_eq, ← UInt8.toNat_inj,
    UInt8.toNat_and, UInt8.toNat_or, toNat_huffmanMark hp, Nat.and_two_pow, Nat.testBit_or,
    UInt8.toNat_ofNat', hn8, Nat.testBit_lt_two_pow hlt]
  cases huffman
  · simp [hbit]
  · simp [UInt8.toNat_or, toNat_huffmanMark hp, Nat.testBit_two_pow_self]

/-- The mark is above the prefix, where the integer leaves room for it. -/
theorem mark_and_limit {prefixBits : ℕ} {flags : UInt8} (hp : prefixBits ≤ 7)
    (hf : flags.toNat &&& Integer.limit (prefixBits + 1) = 0) (huffman : Bool) :
    (if huffman then flags ||| huffmanMark prefixBits else flags).toNat &&& Integer.limit prefixBits = 0 := by
  refine Nat.eq_of_testBit_eq fun i => ?_
  rw [limit_eq hp, Nat.testBit_and, Nat.testBit_two_pow_sub_one, Nat.zero_testBit]
  by_cases hi : i < prefixBits
  · have hbit := testBit_flags hp hf hi.le
    cases huffman
    · simp [hbit]
    · simp [UInt8.toNat_or, toNat_huffmanMark hp, hbit, hi.ne']
  · simp [hi]

theorem spells_body (value : Octets) (huffman : Bool) :
    let octets := if huffman then Huffman.encode value else value
    Spells (body huffman octets.length) .incomplete octets (value, isAscii value) where
  whole rest := by
    rw [body, if_neg (by simp), List.take_left]
    cases huffman
    · simp
    · simp [Huffman.decode_encode, Except.mapError, bind, Except.bind]
  short p _ hlt := by rw [body, if_pos hlt]

theorem encode_eq {value : Octets} {prefixBits : ℕ} {flags : UInt8} (hp : prefixBits ≤ 7) (huffman : Bool) :
    let octets := if huffman then Huffman.encode value else value
    encode value prefixBits flags huffman =
      Integer.encode octets.length prefixBits (if huffman then flags ||| huffmanMark prefixBits else flags) ++
        octets := by
  rw [encode, MAX_PREFIX_BITS, min_eq_left hp]
  cases huffman
  · rfl
  · simp [Huffman.length_encode]

/-- What `encode` writes spells the octets, Huffman coded or not. -/
theorem spells_encode {value : Octets} {prefixBits : ℕ} {flags : UInt8} {huffman : Bool}
    (hp : prefixBits ≤ 7) (hf : flags.toNat &&& Integer.limit (prefixBits + 1) = 0)
    (hv : (if huffman then Huffman.encodedLen value else value.length) < 2 ^ 64) :
    Spells (fun input => decodeIntoAscii input prefixBits) .incomplete
      (encode value prefixBits flags huffman) (value, isAscii value) := by
  have hlen : (if huffman then Huffman.encode value else value).length < 2 ^ 64 := by
    cases huffman
    · exact hv
    · simpa [Huffman.length_encode] using hv
  rw [encode_eq hp]
  refine ((Integer.spells (by omega) (mark_and_limit hp hf huffman) hlen).andThen _
    (spells_body value huffman)).congr fun p hpre => ?_
  cases p with
  | nil => rfl
  | cons first rest =>
    -- Whatever is compared shares its first octet, and so its mark.
    obtain ⟨n, tail, hn, he⟩ := Integer.head_encode
      (if huffman then Huffman.encode value else value).length prefixBits
      (if huffman then flags ||| huffmanMark prefixBits else flags)
    rw [he, List.cons_append, List.cons_prefix_cons, List.cons_prefix_cons] at hpre
    have hfirst : first = (if huffman then flags ||| huffmanMark prefixBits else flags) ||| UInt8.ofNat n :=
      hpre.elim (·.1) (·.1.symm)
    exact decodeIntoAscii_eq hp (hfirst ▸ and_huffmanMark hp hf hn huffman)

variable {prefixBits : ℕ} {flags : UInt8}

/-- What `encodeShorter` writes spells the octets. -/
theorem spells_shorter {value : Octets} (hp : prefixBits ≤ 7)
    (hf : flags.toNat &&& Integer.limit (prefixBits + 1) = 0) (hv : value.length < 2 ^ 64) :
    Spells (fun input => decodeIntoAscii input prefixBits) .incomplete
      (encodeShorter value prefixBits flags) (value, isAscii value) := by
  refine spells_encode hp hf ?_
  split_ifs with h
  · exact (of_decide_eq_true h).trans hv
  · exact hv

theorem spells_octets {value : Octets} (hp : prefixBits ≤ 7)
    (hf : flags.toNat &&& Integer.limit (prefixBits + 1) = 0) (hv : value.length < 2 ^ 64) :
    Spells (fun input => decode input prefixBits) .incomplete (encodeShorter value prefixBits flags) value :=
  ((spells_shorter hp hf hv).map (f := (·.1))).congr fun p _ => by
    rw [decode]

theorem spells {t : Text} (hp : prefixBits ≤ 7)
    (hf : flags.toNat &&& Integer.limit (prefixBits + 1) = 0) (ht : t.len < 2 ^ 64) :
    Spells (fun input => decodeText input prefixBits) .incomplete
      (encodeShorter t.octets prefixBits flags) t := by
  have h := (spells_shorter hp hf ht).map (f := fun v => text v.1 v.2)
  simp only [text_eq, Text.fromUtf8Lossy_octets] at h
  refine h.congr fun p _ => ?_
  rw [decodeText]
  cases decodeIntoAscii p prefixBits with
  | error e => rfl
  | ok v => simp only [bind, Except.bind, text_eq]

/-- The first octet carries the flags above the mark. -/
theorem head_encodeShorter (value : Octets) (prefixBits : ℕ) (flags : UInt8) (hp : prefixBits < 7) :
    ∃ n tail, n ≤ Integer.limit (prefixBits + 1) ∧
      encodeShorter value prefixBits flags = (flags ||| UInt8.ofNat n) :: tail := by
  have hlimit : Integer.limit prefixBits < 2 ^ prefixBits ∧ Integer.limit (prefixBits + 1) = 2 ^ (prefixBits + 1) - 1 := by
    have := Nat.two_pow_pos prefixBits
    exact ⟨by rw [limit_eq hp.le]; omega, limit_eq hp⟩
  rw [encodeShorter, encode_eq hp.le]
  generalize decide (Huffman.encodedLen value < value.length) = huffman
  obtain ⟨n, tail, hn, he⟩ := Integer.head_encode
    (if huffman then Huffman.encode value else value).length prefixBits
    (if huffman then flags ||| huffmanMark prefixBits else flags)
  simp only [he]
  cases huffman
  · exact ⟨n, _, by rw [hlimit.2, pow_succ]; omega, rfl⟩
  · refine ⟨2 ^ prefixBits ||| n, tail ++ Huffman.encode value, ?_, ?_⟩
    · have := Nat.or_lt_two_pow (x := 2 ^ prefixBits) (y := n) (n := prefixBits + 1)
        (by rw [pow_succ]; have := Nat.two_pow_pos prefixBits; omega) (by rw [pow_succ]; omega)
      omega
    · rw [if_pos rfl, if_pos rfl, List.cons_append, UInt8.or_assoc]
      congr 2
      rw [← UInt8.toNat_inj, UInt8.toNat_or, toNat_huffmanMark hp.le, UInt8.toNat_ofNat',
        UInt8.toNat_ofNat', Nat.or_mod_two_pow]
      congr 1
      exact (Nat.mod_eq_of_lt (Nat.pow_lt_pow_right (by decide) (by omega))).symm

theorem encodeShorter_ne_nil (value : Octets) (prefixBits : ℕ) (flags : UInt8) :
    encodeShorter value prefixBits flags ≠ [] := by
  rw [encodeShorter, encode]
  split_ifs <;> simp [Integer.encode_ne_nil]

end StringLiteral

end Soyokaze

import Mathlib.Algebra.Order.Group.Nat
import Soyokaze.Helpers.Text
import Soyokaze.Lib.Act

/-!
# Base64

Octets as symbols of the standard alphabet, three octets to a group of four
symbols, and back. Decoding is strict, so that no value has two spellings.

* `Base64.decode_iff`: what is encoded is decoded, and nothing else is;
* `Base64.encode_symbols`: what that looks like;
* `Base64.spelled_once`: what follows from both.
-/

namespace Soyokaze

namespace Base64

/-- The standard alphabet, indexed by sextet value. -/
def ALPHABET : Octets := lit "ABCDEFGHIJKLMNOPQRSTUVWXYZabcdefghijklmnopqrstuvwxyz0123456789+/"

/-- The padding symbol. -/
def PAD : UInt8 := 0x3d

/-- Why octets were refused. -/
inductive DecodeError
  | invalidLength (length : ℕ)
  | invalidSymbol (symbol : UInt8)
  | invalidPadding
  deriving DecidableEq

/-- The entry for an octet that is not in the alphabet. -/
def INVALID : ℕ := 0xff

/-- The sextet value of each octet, or `INVALID`. -/
def VALUES : List ℕ :=
  (List.range 64).foldl (fun values index => values.set (ALPHABET.getD index 0).toNat index) (List.replicate 256 INVALID)

/-- The symbol for a sextet; only the low six bits are read. -/
def symbol (value : ℕ) : UInt8 := ALPHABET.getD (value &&& 0x3f) 0

/-- Encodes octets, padding the result to a multiple of four. -/
def encode : Octets → Octets
  | a :: b :: c :: rest =>
    let packed := a.toNat <<< 16 ||| b.toNat <<< 8 ||| c.toNat
    [symbol (packed >>> 18), symbol (packed >>> 12), symbol (packed >>> 6), symbol packed] ++ encode rest
  | [] => []
  | a :: rest =>
    let packed := a.toNat <<< 16 ||| (rest.head?.getD 0).toNat <<< 8
    [symbol (packed >>> 18), symbol (packed >>> 12), if rest.isEmpty then PAD else symbol (packed >>> 6), PAD]

/-- Packs symbols behind what is packed already, six bits each. -/
def sextetsLoop : Octets → ℕ → Except DecodeError ℕ
  | [], packed => .ok packed
  | octet :: rest, packed =>
    if VALUES.getD octet.toNat INVALID = INVALID then .error (.invalidSymbol octet)
    else sextetsLoop rest (packed <<< 6 ||| VALUES.getD octet.toNat INVALID)

/-- Packs a group of symbols into one number, six bits per symbol. -/
def sextets (group : Octets) : Except DecodeError ℕ := sextetsLoop group 0

/-- Decodes a group that may not carry padding. -/
def decodeGroup (group : Octets) : Except DecodeError Octets :=
  match sextets group with
  | .error error => .error (if group.contains PAD then .invalidPadding else error)
  | .ok packed => .ok [.ofNat (packed >>> 16), .ofNat (packed >>> 8), .ofNat packed]

/-- Decodes so many groups, one by one. -/
def decodeBody : ℕ → Octets → Except DecodeError Octets
  | 0, _ => .ok []
  | count + 1, body =>
    match decodeGroup (body.take 4) with
    | .error error => .error error
    | .ok out => (decodeBody count (body.drop 4)).map (out ++ ·)

/-- Decodes the last group, at the end of which there may be padding. -/
def decodeLast (last : Octets) : Except DecodeError Octets :=
  let padding := last.count PAD
  if 2 < padding ∨ (last.take (4 - padding)).contains PAD then .error .invalidPadding
  else match sextets (last.take (4 - padding)) with
    | .error error => .error error
    | .ok packed =>
      let packed := packed <<< (6 * padding)
      if packed &&& (1 <<< (8 * padding) - 1) ≠ 0 then .error .invalidPadding
      else .ok (.ofNat (packed >>> 16) :: (if padding < 2 then [.ofNat (packed >>> 8)] else []) ++
        if padding < 1 then [.ofNat packed] else [])

/-- Decodes padded base64, strictly. -/
def decode (input : Octets) : Except DecodeError Octets :=
  if input.length % 4 ≠ 0 then .error (.invalidLength input.length)
  else if input.isEmpty then .ok []
  else match decodeBody ((input.length - 4) / 4) (input.take (input.length - 4)) with
    | .error error => .error error
    | .ok out => (decodeLast (input.drop (input.length - 4))).map (out ++ ·)

/-! ## Symbols -/

/-- The symbol of a sextet is of that value, and not the padding. -/
theorem value_symbol {n : ℕ} (h : n < 64) : VALUES.getD (ALPHABET.getD n 0).toNat INVALID = n ∧ ALPHABET.getD n 0 ≠ PAD ∧
    ALPHABET.getD n 0 < 0x80 := by
  have hall : ∀ n < 64, VALUES.getD (ALPHABET.getD n 0).toNat INVALID = n ∧ ALPHABET.getD n 0 ≠ PAD ∧
      ALPHABET.getD n 0 < 0x80 := by decide +kernel
  exact hall n h

/-- An octet that has a value is the symbol of it. -/
theorem symbol_value (octet : UInt8) : VALUES.getD octet.toNat INVALID = INVALID ∨
    VALUES.getD octet.toNat INVALID < 64 ∧ ALPHABET.getD (VALUES.getD octet.toNat INVALID) 0 = octet := by
  have hall : ∀ n < 256, VALUES.getD (UInt8.ofNat n).toNat INVALID = INVALID ∨
      VALUES.getD (UInt8.ofNat n).toNat INVALID < 64 ∧
        ALPHABET.getD (VALUES.getD (UInt8.ofNat n).toNat INVALID) 0 = .ofNat n := by decide +kernel
  have hoctet := hall octet.toNat octet.toNat_lt
  rwa [UInt8.ofNat_toNat] at hoctet

theorem symbol_eq (n : ℕ) : symbol n = ALPHABET.getD (n % 64) 0 := by
  rw [symbol, show 0x3f = 2 ^ 6 - 1 from rfl, Nat.and_two_pow_sub_one_eq_mod]

theorem symbol_ne_pad (n : ℕ) : symbol n ≠ PAD := symbol_eq n ▸ (value_symbol (Nat.mod_lt n (by decide))).2.1

/-- Six bits behind what is packed are six bits more. -/
theorem or_sextet (packed : ℕ) {n : ℕ} (h : n < 64) : packed <<< 6 ||| n = packed * 64 + n := by
  rw [← Nat.shiftLeft_add_eq_or_of_lt h, Nat.shiftLeft_eq]

/-- A symbol is packed as its value. -/
theorem sextetsLoop_symbol (n packed : ℕ) (rest : Octets) :
    sextetsLoop (symbol n :: rest) packed = sextetsLoop rest (packed * 64 + n % 64) := by
  have hlt : n % 64 < 64 := Nat.mod_lt n (by decide)
  have hvalue := (value_symbol hlt).1
  rw [sextetsLoop, symbol_eq, hvalue, if_neg (by rw [INVALID]; omega), or_sextet packed hlt]

/-- An octet that is packed is the symbol of what it is packed as. -/
theorem symbol_of_sextetsLoop {octet : UInt8} {rest : Octets} {packed out : ℕ}
    (h : sextetsLoop (octet :: rest) packed = .ok out) :
    ∃ n < 64, octet = symbol n ∧ sextetsLoop rest (packed * 64 + n) = .ok out := by
  rw [sextetsLoop] at h
  split_ifs at h with hinvalid
  obtain ⟨hlt, hoctet⟩ := (symbol_value octet).resolve_left hinvalid
  rw [or_sextet packed hlt] at h
  exact ⟨_, hlt, by rw [symbol_eq, Nat.mod_eq_of_lt hlt, hoctet], h⟩

/-! ## Groups -/

/-- Three octets, packed. -/
theorem packed_three (a b c : UInt8) :
    a.toNat <<< 16 ||| b.toNat <<< 8 ||| c.toNat = a.toNat * 65536 + b.toNat * 256 + c.toNat := by
  have hb := b.toNat_lt
  have hlow : b.toNat <<< 8 < 2 ^ 16 := by
    rw [Nat.shiftLeft_eq]
    omega
  have hfirst : a.toNat <<< 16 ||| b.toNat <<< 8 = (a.toNat * 256 + b.toNat) <<< 8 := by
    rw [← Nat.shiftLeft_add_eq_or_of_lt hlow, Nat.shiftLeft_eq, Nat.shiftLeft_eq, Nat.shiftLeft_eq]
    omega
  rw [hfirst, ← Nat.shiftLeft_add_eq_or_of_lt c.toNat_lt, Nat.shiftLeft_eq]
  omega

/-- Two octets, packed where there might be three. -/
theorem packed_two (a b : UInt8) : a.toNat <<< 16 ||| b.toNat <<< 8 = a.toNat * 65536 + b.toNat * 256 := by
  have h := packed_three a b 0
  rwa [UInt8.toNat_zero, Nat.or_zero, Nat.add_zero] at h

theorem symbol_congr {n m : ℕ} (h : n % 64 = m % 64) : symbol n = symbol m := by
  rw [symbol_eq, symbol_eq, h]

/-- The symbols of four sextets. -/
def symbols (n₁ n₂ n₃ n₄ : ℕ) : Octets := [symbol n₁, symbol n₂, symbol n₃, symbol n₄]

theorem encode_three (a b c : UInt8) (rest : Octets) {p : ℕ} (hp : p = a.toNat * 65536 + b.toNat * 256 + c.toNat) :
    encode (a :: b :: c :: rest) = symbols (p / 262144) (p / 4096) (p / 64) p ++ encode rest := by
  rw [encode, packed_three, ← hp, Nat.shiftRight_eq_div_pow, Nat.shiftRight_eq_div_pow, Nat.shiftRight_eq_div_pow]
  rfl

theorem encode_two (a b : UInt8) {p : ℕ} (hp : p = a.toNat * 65536 + b.toNat * 256) :
    encode [a, b] = [symbol (p / 262144), symbol (p / 4096), symbol (p / 64), PAD] := by
  have hencode : encode [a, b] = [symbol ((a.toNat <<< 16 ||| b.toNat <<< 8) >>> 18),
    symbol ((a.toNat <<< 16 ||| b.toNat <<< 8) >>> 12), symbol ((a.toNat <<< 16 ||| b.toNat <<< 8) >>> 6), PAD] := rfl
  rw [hencode, packed_two, ← hp, Nat.shiftRight_eq_div_pow, Nat.shiftRight_eq_div_pow, Nat.shiftRight_eq_div_pow]

theorem encode_one (a : UInt8) {p : ℕ} (hp : p = a.toNat * 65536) :
    encode [a] = [symbol (p / 262144), symbol (p / 4096), PAD, PAD] := by
  have hencode : encode [a] = [symbol ((a.toNat <<< 16 ||| (0 : UInt8).toNat <<< 8) >>> 18),
    symbol ((a.toNat <<< 16 ||| (0 : UInt8).toNat <<< 8) >>> 12), PAD, PAD] := rfl
  have hpacked : a.toNat <<< 16 ||| (0 : UInt8).toNat <<< 8 = p := by
    rw [packed_two, hp, UInt8.toNat_zero, Nat.zero_mul, Nat.add_zero]
  rw [hencode, hpacked, Nat.shiftRight_eq_div_pow, Nat.shiftRight_eq_div_pow]

theorem ofNat_eq {n : ℕ} {octet : UInt8} (h : n % 256 = octet.toNat) : UInt8.ofNat n = octet :=
  UInt8.toNat_inj.1 ((UInt8.toNat_ofNat' ..).trans h)

theorem sextets_symbols (n₁ n₂ n₃ n₄ : ℕ) :
    sextets (symbols n₁ n₂ n₃ n₄) = .ok (((n₁ % 64 * 64 + n₂ % 64) * 64 + n₃ % 64) * 64 + n₄ % 64) := by
  rw [sextets, symbols, sextetsLoop_symbol, sextetsLoop_symbol, sextetsLoop_symbol, sextetsLoop_symbol, sextetsLoop, Nat.zero_mul,
    Nat.zero_add]

/-- A group that is packed is the symbols of four sextets. -/
theorem symbols_of_sextets {a b c d : UInt8} {packed : ℕ} (h : sextets [a, b, c, d] = .ok packed) :
    packed < 16777216 ∧ [a, b, c, d] = symbols (packed / 262144) (packed / 4096) (packed / 64) packed := by
  obtain ⟨n₁, h₁, rfl, hrest₁⟩ := symbol_of_sextetsLoop h
  obtain ⟨n₂, h₂, rfl, hrest₂⟩ := symbol_of_sextetsLoop hrest₁
  obtain ⟨n₃, h₃, rfl, hrest₃⟩ := symbol_of_sextetsLoop hrest₂
  obtain ⟨n₄, h₄, rfl, hrest₄⟩ := symbol_of_sextetsLoop hrest₃
  have hpacked := Except.ok.inj hrest₄
  have hfirst : symbol n₁ = symbol (packed / 262144) := symbol_congr (by omega)
  have hsecond : symbol n₂ = symbol (packed / 4096) := symbol_congr (by omega)
  have hthird : symbol n₃ = symbol (packed / 64) := symbol_congr (by omega)
  have hfourth : symbol n₄ = symbol packed := symbol_congr (by omega)
  exact ⟨by omega, by rw [symbols, hfirst, hsecond, hthird, hfourth]⟩

theorem decode_eq {input : Octets} (hlength : input.length % 4 = 0) (hne : input ≠ []) :
    decode input = match decodeBody ((input.length - 4) / 4) (input.take (input.length - 4)) with
      | .error error => .error error
      | .ok out => (decodeLast (input.drop (input.length - 4))).map (out ++ ·) := by
  rw [decode, if_neg (not_not.2 hlength), List.isEmpty_eq_false_iff.2 hne, if_neg Bool.false_ne_true]

/-- Whole groups are decoded one by one. -/
theorem decode_group {a b c d : UInt8} {rest : Octets} (hlength : rest.length % 4 = 0) (hne : rest ≠ []) :
    decode (a :: b :: c :: d :: rest) =
      match decodeGroup [a, b, c, d] with
      | .error error => .error error
      | .ok out => (decode rest).map (out ++ ·) := by
  have hpos := List.length_pos_iff.2 hne
  have hcut : (a :: b :: c :: d :: rest).length - 4 = rest.length - 4 + 4 := by
    simp only [List.length_cons]
    omega
  have hwhole : (a :: b :: c :: d :: rest).length % 4 = 0 := by
    simp only [List.length_cons]
    omega
  have hcount : (rest.length - 4 + 4) / 4 = (rest.length - 4) / 4 + 1 := Nat.add_div_right _ (by decide)
  rw [decode_eq hwhole (List.cons_ne_nil _ _), decode_eq hlength hne, hcut, hcount, decodeBody]
  simp only [List.take_succ_cons, List.drop_succ_cons, List.take_zero, List.drop_zero]
  rcases decodeGroup [a, b, c, d] with error | group
  · rfl
  · dsimp only
    rcases decodeBody ((rest.length - 4) / 4) (rest.take (rest.length - 4)) with error | out
    · rfl
    · simp only [Except.map]
      rcases decodeLast (rest.drop (rest.length - 4)) with error | last
      · rfl
      · simp only [List.append_assoc]

theorem decode_last (a b c d : UInt8) : decode [a, b, c, d] = decodeLast [a, b, c, d] := by
  have hcut : decode [a, b, c, d] = (decodeLast [a, b, c, d]).map ([] ++ ·) := by
    rw [decode_eq (by simp) (List.cons_ne_nil _ _), show [a, b, c, d].length - 4 = 0 from rfl]
    rfl
  rw [hcut]
  rcases decodeLast [a, b, c, d] with error | out <;> rfl

/-! ## There and back -/

/-- What is encoded is whole groups, and something where there was something. -/
theorem encode_whole (octets : Octets) : (encode octets).length % 4 = 0 ∧ (octets ≠ [] → encode octets ≠ []) := by
  induction octets using encode.induct with
  | case1 a b c rest ih =>
    rw [encode_three a b c rest rfl, symbols]
    refine ⟨?_, fun _ => List.cons_ne_nil _ _⟩
    simp only [List.cons_append, List.nil_append, List.length_cons]
    omega
  | case2 => exact ⟨rfl, fun h => absurd rfl h⟩
  | case3 a rest hshort =>
    rcases rest with - | ⟨b, - | ⟨c, rest⟩⟩
    · rw [encode_one a rfl]
      exact ⟨by simp, fun _ => List.cons_ne_nil _ _⟩
    · rw [encode_two a b rfl]
      exact ⟨by simp, fun _ => List.cons_ne_nil _ _⟩
    · exact absurd rfl (hshort b c rest)

/-- Octets that are packed again are what they were taken from. -/
theorem unpack {p : ℕ} (h : p < 16777216) : (UInt8.ofNat (p >>> 16)).toNat = p / 65536 ∧
    (UInt8.ofNat (p >>> 8)).toNat = p / 256 % 256 ∧ (UInt8.ofNat p).toNat = p % 256 := by
  have hoctet (n : ℕ) : (UInt8.ofNat n).toNat = n % 256 := UInt8.toNat_ofNat' ..
  rw [hoctet, hoctet, hoctet, Nat.shiftRight_eq_div_pow, Nat.shiftRight_eq_div_pow]
  exact ⟨by omega, by omega, rfl⟩

/-- A group without padding is decoded where it is the encoding of what it gives. -/
theorem decodeGroup_iff {a b c d : UInt8} {octets : Octets} : decodeGroup [a, b, c, d] = .ok octets ↔
    ∃ x y z, octets = [x, y, z] ∧ encode [x, y, z] = [a, b, c, d] := by
  constructor
  · intro h
    rw [decodeGroup] at h
    rcases hpacked : sextets [a, b, c, d] with error | p <;> rw [hpacked] at h
    · cases h
    · obtain ⟨hlt, hsymbols⟩ := symbols_of_sextets hpacked
      obtain ⟨hx, hy, hz⟩ := unpack hlt
      refine ⟨_, _, _, (Except.ok.inj h).symm, ?_⟩
      rw [hsymbols]
      exact encode_three _ _ _ [] (by rw [hx, hy, hz]; omega)
  · rintro ⟨x, y, z, rfl, hencode⟩
    have hx := x.toNat_lt
    have hy := y.toNat_lt
    have hz := z.toNat_lt
    rw [encode_three x y z [] rfl, encode, List.append_nil] at hencode
    rw [decodeGroup, ← hencode, sextets_symbols]
    generalize hp : x.toNat * 65536 + y.toNat * 256 + z.toNat = p
    have hsame : ((p / 262144 % 64 * 64 + p / 4096 % 64) * 64 + p / 64 % 64) * 64 + p % 64 = p := by omega
    dsimp only
    rw [hsame, Nat.shiftRight_eq_div_pow, Nat.shiftRight_eq_div_pow, ofNat_eq (by omega : _ = x.toNat),
      ofNat_eq (by omega : _ = y.toNat), ofNat_eq (by omega : _ = z.toNat)]

/-- What is decoded of a last group with so many symbols of padding. -/
theorem decodeLast_eq {last front : Octets} {k : ℕ} (hcount : last.count PAD = k) (hk : k ≤ 2) (hfront : last.take (4 - k) = front)
    (h : PAD ∉ front) : decodeLast last = match sextets front with
      | .error error => .error error
      | .ok packed =>
        if packed * 2 ^ (6 * k) % 2 ^ (8 * k) ≠ 0 then .error .invalidPadding
        else .ok (.ofNat (packed * 2 ^ (6 * k) / 65536) ::
          (if k < 2 then [.ofNat (packed * 2 ^ (6 * k) / 256)] else []) ++
            if k < 1 then [.ofNat (packed * 2 ^ (6 * k))] else []) := by
  have hopen : ¬(2 < k ∨ front.contains PAD = true) := by
    rintro (hmore | hmem)
    · omega
    · exact h (List.contains_iff_mem.1 hmem)
  rw [decodeLast, hcount, hfront, if_neg hopen]
  simp only [Nat.shiftLeft_eq, Nat.one_mul, Nat.and_two_pow_sub_one_eq_mod, Nat.shiftRight_eq_div_pow]

/-- A last group without padding is a group like any other. -/
theorem decodeLast_none {a b c d : UInt8} (h : PAD ∉ [a, b, c, d]) : decodeLast [a, b, c, d] = decodeGroup [a, b, c, d] := by
  rw [@decodeLast_eq [a, b, c, d] [a, b, c, d] 0 (List.count_eq_zero.2 h) (by decide) rfl h, decodeGroup, List.contains_eq_mem, decide_eq_false h]
  rcases sextets [a, b, c, d] with error | packed
  · rfl
  · simp [Nat.shiftRight_eq_div_pow, Nat.mod_one]

/-- Padding is at the end, and no more than two symbols of it are. -/
theorem padding_of_decodeLast {a b c d : UInt8} {octets : Octets} (h : decodeLast [a, b, c, d] = .ok octets) :
    PAD ∉ [a, b, c, d] ∨ (PAD ∉ [a, b, c] ∧ d = PAD) ∨ (PAD ∉ [a, b] ∧ c = PAD ∧ d = PAD) := by
  have hpadding : ¬(2 < [a, b, c, d].count PAD ∨
      ([a, b, c, d].take (4 - [a, b, c, d].count PAD)).contains PAD = true) := fun hmisplaced => by
    rw [decodeLast, if_pos hmisplaced] at h
    cases h
  clear h
  by_cases ha : a = PAD <;> by_cases hb : b = PAD <;> by_cases hc : c = PAD <;> by_cases hd : d = PAD <;>
    simp_all

/-- Three symbols and one of padding are decoded where they are the encoding of two octets. -/
theorem decodeLast_two {a b c : UInt8} (h : PAD ∉ [a, b, c]) {octets : Octets} :
    decodeLast [a, b, c, PAD] = .ok octets ↔ ∃ x y, octets = [x, y] ∧ encode [x, y] = [a, b, c, PAD] := by
  have hcount : [a, b, c, PAD].count PAD = 1 := by
    rw [show [a, b, c, PAD] = [a, b, c] ++ [PAD] from rfl, List.count_append, List.count_eq_zero.2 h]
    rfl
  rw [@decodeLast_eq _ [a, b, c] 1 hcount (by decide) rfl h]
  constructor
  · intro hdecode
    rcases hpacked : sextets [a, b, c] with error | p <;> rw [hpacked] at hdecode
    · cases hdecode
    · dsimp only at hdecode
      have hspare : p * 2 ^ (6 * 1) % 2 ^ (8 * 1) = 0 := by
        by_contra hne
        rw [if_pos hne] at hdecode
        cases hdecode
      rw [if_neg (not_not.2 hspare)] at hdecode
      obtain ⟨n₁, h₁, rfl, hrest₁⟩ := symbol_of_sextetsLoop hpacked
      obtain ⟨n₂, h₂, rfl, hrest₂⟩ := symbol_of_sextetsLoop hrest₁
      obtain ⟨n₃, h₃, rfl, hrest₃⟩ := symbol_of_sextetsLoop hrest₂
      have hp := Except.ok.inj hrest₃
      have hx : (UInt8.ofNat (p * 2 ^ (6 * 1) / 65536)).toNat = p / 1024 := by
        rw [UInt8.toNat_ofNat']
        omega
      have hy : (UInt8.ofNat (p * 2 ^ (6 * 1) / 256)).toNat = p / 4 % 256 := by
        rw [UInt8.toNat_ofNat']
        omega
      refine ⟨_, _, (Except.ok.inj hdecode).symm, ?_⟩
      have hfirst : symbol ((p / 1024 * 65536 + p / 4 % 256 * 256) / 262144) = symbol n₁ := symbol_congr (by omega)
      have hsecond : symbol ((p / 1024 * 65536 + p / 4 % 256 * 256) / 4096) = symbol n₂ := symbol_congr (by omega)
      have hthird : symbol ((p / 1024 * 65536 + p / 4 % 256 * 256) / 64) = symbol n₃ := symbol_congr (by omega)
      rw [encode_two _ _ rfl, hx, hy, hfirst, hsecond, hthird]
  · rintro ⟨x, y, rfl, hencode⟩
    have hx := x.toNat_lt
    have hy := y.toNat_lt
    rw [encode_two x y rfl] at hencode
    obtain ⟨rfl, rfl, rfl, -⟩ : _ = a ∧ _ = b ∧ _ = c ∧ True := by simpa using hencode
    generalize hp : x.toNat * 65536 + y.toNat * 256 = p
    rw [sextets, sextetsLoop_symbol, sextetsLoop_symbol, sextetsLoop_symbol, sextetsLoop]
    dsimp only
    rw [if_neg (by omega), ofNat_eq (by omega : _ = x.toNat), ofNat_eq (by omega : _ = y.toNat)]
    rfl

/-- Two symbols and two of padding are decoded where they are the encoding of one octet. -/
theorem decodeLast_one {a b : UInt8} (h : PAD ∉ [a, b]) {octets : Octets} :
    decodeLast [a, b, PAD, PAD] = .ok octets ↔ ∃ x, octets = [x] ∧ encode [x] = [a, b, PAD, PAD] := by
  have hcount : [a, b, PAD, PAD].count PAD = 2 := by
    rw [show [a, b, PAD, PAD] = [a, b] ++ [PAD, PAD] from rfl, List.count_append, List.count_eq_zero.2 h]
    rfl
  rw [@decodeLast_eq _ [a, b] 2 hcount (by decide) rfl h]
  constructor
  · intro hdecode
    rcases hpacked : sextets [a, b] with error | p <;> rw [hpacked] at hdecode
    · cases hdecode
    · dsimp only at hdecode
      have hspare : p * 2 ^ (6 * 2) % 2 ^ (8 * 2) = 0 := by
        by_contra hne
        rw [if_pos hne] at hdecode
        cases hdecode
      rw [if_neg (not_not.2 hspare)] at hdecode
      obtain ⟨n₁, h₁, rfl, hrest₁⟩ := symbol_of_sextetsLoop hpacked
      obtain ⟨n₂, h₂, rfl, hrest₂⟩ := symbol_of_sextetsLoop hrest₁
      have hp := Except.ok.inj hrest₂
      have hx : (UInt8.ofNat (p * 2 ^ (6 * 2) / 65536)).toNat = p / 16 := by
        rw [UInt8.toNat_ofNat']
        omega
      refine ⟨_, (Except.ok.inj hdecode).symm, ?_⟩
      have hfirst : symbol (p / 16 * 65536 / 262144) = symbol n₁ := symbol_congr (by omega)
      have hsecond : symbol (p / 16 * 65536 / 4096) = symbol n₂ := symbol_congr (by omega)
      rw [encode_one _ rfl, hx, hfirst, hsecond]
  · rintro ⟨x, rfl, hencode⟩
    have hx := x.toNat_lt
    rw [encode_one x rfl] at hencode
    obtain ⟨rfl, rfl, -⟩ : _ = a ∧ _ = b ∧ True := by simpa using hencode
    generalize hp : x.toNat * 65536 = p
    rw [sextets, sextetsLoop_symbol, sextetsLoop_symbol, sextetsLoop]
    dsimp only
    rw [if_neg (by omega), ofNat_eq (by omega : _ = x.toNat)]
    rfl

/-- A last group is decoded where it is the encoding of what it gives. -/
theorem decodeLast_iff {a b c d : UInt8} {octets : Octets} : decodeLast [a, b, c, d] = .ok octets ↔ encode octets = [a, b, c, d] := by
  constructor
  · intro h
    rcases padding_of_decodeLast h with hnone | ⟨hone, rfl⟩ | ⟨htwo, rfl, rfl⟩
    · rw [decodeLast_none hnone] at h
      obtain ⟨x, y, z, rfl, hencode⟩ := decodeGroup_iff.1 h
      exact hencode
    · obtain ⟨x, y, rfl, hencode⟩ := (decodeLast_two hone).1 h
      exact hencode
    · obtain ⟨x, rfl, hencode⟩ := (decodeLast_one htwo).1 h
      exact hencode
  · intro h
    rcases octets with - | ⟨x, - | ⟨y, - | ⟨z, out⟩⟩⟩
    · cases h
    · rw [encode_one x rfl] at h
      obtain ⟨rfl, rfl, rfl, rfl⟩ : _ = a ∧ _ = b ∧ _ = c ∧ _ = d := by simpa using h
      exact (decodeLast_one (by simp [(symbol_ne_pad _).symm])).2 ⟨x, rfl, encode_one x rfl⟩
    · rw [encode_two x y rfl] at h
      obtain ⟨rfl, rfl, rfl, rfl⟩ : _ = a ∧ _ = b ∧ _ = c ∧ _ = d := by simpa using h
      exact (decodeLast_two (by simp [(symbol_ne_pad _).symm])).2 ⟨x, y, rfl, encode_two x y rfl⟩
    · rw [encode_three x y z out rfl, symbols] at h
      obtain ⟨rfl, rfl, rfl, rfl, hout⟩ : _ = a ∧ _ = b ∧ _ = c ∧ _ = d ∧ encode out = [] := by simpa using h
      have hnil : out = [] := not_not.1 fun hne => (encode_whole out).2 hne hout
      rw [hnil, decodeLast_none (by simp [(symbol_ne_pad _).symm])]
      exact decodeGroup_iff.2 ⟨x, y, z, rfl, encode_three x y z [] rfl⟩

/-- What is decoded is the encoding of what it gives, and nothing else is. -/
theorem decode_iff {input octets : Octets} : decode input = .ok octets ↔ encode octets = input := by
  obtain ⟨n, hn⟩ : ∃ n, input.length ≤ n := ⟨_, Nat.le_refl _⟩
  induction n generalizing input octets with
  | zero =>
    obtain rfl := List.eq_nil_of_length_eq_zero (Nat.le_zero.1 hn)
    refine ⟨fun h => ?_, fun h => ?_⟩
    · cases h
      rfl
    · rw [not_not.1 fun hne => (encode_whole octets).2 hne h]
      rfl
  | succ n ih =>
    by_cases hlength : input.length % 4 = 0
    · rcases input with - | ⟨a, - | ⟨b, - | ⟨c, - | ⟨d, rest⟩⟩⟩⟩
      · exact ih (Nat.zero_le n)
      · cases hlength
      · cases hlength
      · cases hlength
      · have hrest : rest.length % 4 = 0 := by
          simp only [List.length_cons] at hlength
          omega
        by_cases hne : rest = []
        · rw [hne, decode_last, decodeLast_iff]
        have hshort : rest.length ≤ n := by
          simp only [List.length_cons] at hn
          omega
        rw [decode_group hrest hne]
        constructor
        · intro h
          rcases hgroup : decodeGroup [a, b, c, d] with error | group <;> rw [hgroup] at h
          · cases h
          · obtain ⟨out, hout, rfl⟩ := Except.map_eq_ok h
            obtain ⟨x, y, z, rfl, hencode⟩ := decodeGroup_iff.1 hgroup
            rw [encode_three x y z [] rfl, encode, List.append_nil] at hencode
            rw [List.cons_append, List.cons_append, List.cons_append, List.nil_append, encode_three x y z out rfl, hencode,
              (ih hshort).1 hout]
            rfl
        · -- What is encoded as more than one group is more than three octets.
          intro h
          rcases octets with - | ⟨x, - | ⟨y, - | ⟨z, out⟩⟩⟩
          · cases h
          · rw [encode_one x rfl] at h
            exact absurd (List.cons.inj (List.cons.inj (List.cons.inj (List.cons.inj h).2).2).2).2.symm hne
          · rw [encode_two x y rfl] at h
            exact absurd (List.cons.inj (List.cons.inj (List.cons.inj (List.cons.inj h).2).2).2).2.symm hne
          · rw [encode_three x y z out rfl, symbols] at h
            obtain ⟨rfl, rfl, rfl, rfl, hout⟩ : _ = a ∧ _ = b ∧ _ = c ∧ _ = d ∧ encode out = rest := by simpa using h
            rw [decodeGroup_iff.2 ⟨x, y, z, rfl, encode_three x y z [] rfl⟩]
            dsimp only
            rw [(ih hshort).2 hout]
            rfl
    · refine ⟨fun h => ?_, fun h => absurd (h ▸ (encode_whole octets).1) hlength⟩
      rw [decode, if_pos hlength] at h
      cases h

/-! ## What is refused -/

/-- What may come behind symbols: nothing, or one or two symbols of padding behind a symbol
    whose bits that they displace are zero. -/
inductive Tail : Octets → Prop
  | none : Tail []
  | one (n : ℕ) (h : n % 4 = 0) : Tail [symbol n, PAD]
  | two (n : ℕ) (h : n % 16 = 0) : Tail [symbol n, PAD, PAD]

/-- What is encoded is symbols and what may come behind them. -/
theorem encode_symbols (octets : Octets) : ∃ (values : List ℕ) (tail : Octets),
    encode octets = values.map symbol ++ tail ∧ Tail tail := by
  induction octets using encode.induct with
  | case1 a b c rest ih =>
    obtain ⟨values, tail, hrest, htail⟩ := ih
    obtain ⟨p, hp⟩ : ∃ p, p = a.toNat * 65536 + b.toNat * 256 + c.toNat := ⟨_, rfl⟩
    refine ⟨p / 262144 :: p / 4096 :: p / 64 :: p :: values, tail, ?_, htail⟩
    rw [encode_three a b c rest hp, hrest]
    rfl
  | case2 => exact ⟨[], [], rfl, .none⟩
  | case3 a rest hshort =>
    rcases rest with - | ⟨b, - | ⟨c, rest⟩⟩
    · have hspare : a.toNat * 65536 / 4096 % 16 = 0 := by omega
      exact ⟨[_], _, encode_one a rfl, .two _ hspare⟩
    · have hspare : (a.toNat * 65536 + b.toNat * 256) / 64 % 4 = 0 := by omega
      exact ⟨[_, _], _, encode_two a b rfl, .one _ hspare⟩
    · exact absurd rfl (hshort b c rest)

theorem ascii_encode (octets : Octets) : isAscii (encode octets) = true := by
  have hsymbol (n : ℕ) : symbol n < 0x80 := symbol_eq n ▸ (value_symbol (Nat.mod_lt n (by decide))).2.2
  have hpad : PAD < 0x80 := by decide
  obtain ⟨values, tail, hencode, htail⟩ := encode_symbols octets
  refine List.all_eq_true.2 fun octet hoctet => decide_eq_true ?_
  rw [hencode] at hoctet
  rcases List.mem_append.1 hoctet with hoctet | hoctet
  · obtain ⟨n, -, rfl⟩ := List.mem_map.1 hoctet
    exact hsymbol n
  · cases htail with
    | none => cases hoctet
    | one n h =>
      rcases List.mem_cons.1 hoctet with rfl | hoctet
      · exact hsymbol n
      · exact List.mem_singleton.1 hoctet ▸ hpad
    | two n h =>
      rcases List.mem_cons.1 hoctet with rfl | hoctet
      · exact hsymbol n
      · rcases List.mem_cons.1 hoctet with rfl | hoctet
        · exact hpad
        · exact List.mem_singleton.1 hoctet ▸ hpad

/-- What is encoded is ASCII and is decoded; what is decoded is the encoding of what it gives,
    so that no octets have two spellings; and it is whole groups of symbols, with padding at
    the end alone, and bits that are spared zero. -/
theorem spelled_once :
    (∀ octets, isAscii (encode octets) = true ∧ decode (encode octets) = .ok octets) ∧
      (∀ input octets, decode input = .ok octets → encode octets = input) ∧
      (∀ input input' octets, decode input = .ok octets → decode input' = .ok octets → input = input') ∧
      ∀ input octets, decode input = .ok octets →
        input.length % 4 = 0 ∧ ∃ (values : List ℕ) (tail : Octets), input = values.map symbol ++ tail ∧ Tail tail := by
  refine ⟨fun octets => ⟨ascii_encode octets, decode_iff.2 rfl⟩, fun input octets => decode_iff.1,
    fun input input' octets h h' => (decode_iff.1 h).symm.trans (decode_iff.1 h'), fun input octets h => ?_⟩
  rw [← decode_iff.1 h]
  exact ⟨(encode_whole octets).1, encode_symbols octets⟩

end Base64

end Soyokaze

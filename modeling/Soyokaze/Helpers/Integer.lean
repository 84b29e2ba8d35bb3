import Soyokaze.Lib.Framing
import Soyokaze.Helpers.Text
import Mathlib.Data.Nat.Bitwise
import Mathlib.Tactic.Ring

/-!
# Prefixed integers

The integer representation HPACK and QPACK are built out of: a value takes the
low bits of an octet whose high bits carry flags, and one too large for them
continues over further octets, seven bits at a time.

`Integer.spells`: what `Integer.encode` writes spells its value, for every
value a `u64` holds, every prefix width and all flags above the prefix.
-/

namespace Soyokaze

open Framing

/-- Why a wire primitive would not decode; `δ` is why a Huffman string would not. -/
inductive Fields.Error (δ : Type)
  | integerOverflow
  | incomplete
  | huffman (error : δ)
  deriving DecidableEq

namespace Integer

variable {δ : Type}

/-- The largest value a prefix of `prefixBits` can hold on its own. -/
def limit (prefixBits : ℕ) : ℕ := 2 ^ min prefixBits 63 - 1

/-- The continuation octets of `rest`, seven bits at a time. -/
def continuation (rest : ℕ) : Octets :=
  if 128 ≤ rest then (UInt8.ofNat (rest % 128) ||| 0x80) :: continuation (rest / 128)
  else [UInt8.ofNat rest]
termination_by rest

/-- Writes an integer: the low `prefixBits` of the first octet carry the value,
    and the bits above them `flags`. -/
def encode (value prefixBits : ℕ) (flags : UInt8) : Octets :=
  if value < limit prefixBits then [flags ||| UInt8.ofNat value]
  else (flags ||| UInt8.ofNat (limit prefixBits)) :: continuation (value - limit prefixBits)

/-- Reads the continuation octets, adding each to `value` at `shift`. -/
def decodeRest : Octets → (value shift consumed : ℕ) → Except (Fields.Error δ) (ℕ × ℕ)
  | [], _, _, _ => .error .incomplete
  | octet :: input, value, shift, consumed =>
    -- `checked_shl` refuses a shift by the width, and drops the bits it shifts out.
    let part := ((octet &&& 0x7f).toNat <<< shift) % 2 ^ 64
    if 2 ^ 64 ≤ value + part then .error .integerOverflow
    else if octet &&& 0x80 = 0 then .ok (consumed + 1, value + part)
    else if 64 ≤ shift + 7 then .error .integerOverflow
    else decodeRest input (value + part) (shift + 7) (consumed + 1)

/-- Reads an integer: how many octets it took, and its value. -/
def decode (input : Octets) (prefixBits : ℕ) : Except (Fields.Error δ) (ℕ × ℕ) :=
  match input with
  | [] => .error .incomplete
  | first :: rest =>
    let value := first.toNat &&& limit prefixBits
    if value < limit prefixBits then .ok (1, value) else decodeRest rest value 0 1

/-! ## Round trip -/

theorem continuation_ne_nil (rest : ℕ) : continuation rest ≠ [] := by
  rw [continuation]
  split_ifs <;> simp

/-- An octet is read apart into its low seven bits and its high one. -/
theorem low_or_high {n : ℕ} (h : n < 128) :
    ((UInt8.ofNat n ||| 0x80) &&& 0x7f).toNat = n ∧ (UInt8.ofNat n ||| 0x80) &&& 0x80 ≠ 0 ∧
      (UInt8.ofNat n &&& 0x7f).toNat = n ∧ UInt8.ofNat n &&& 0x80 = 0 := by
  revert n
  decide

/-- What one continuation octet takes off `rest`, and that the reader has room for the others. -/
theorem continuation_step {rest value shift : ℕ} (hr : 128 ≤ rest)
    (h : value + rest * 2 ^ shift < 2 ^ 64) :
    rest * 2 ^ shift = rest % 128 * 2 ^ shift + rest / 128 * 2 ^ (shift + 7) ∧
      rest % 128 * 2 ^ shift < 2 ^ 64 ∧ shift + 7 < 64 := by
  have split : rest * 2 ^ shift = rest % 128 * 2 ^ shift + rest / 128 * 2 ^ (shift + 7) := by
    conv_lhs => rw [← Nat.mod_add_div rest 128]
    rw [pow_add]
    ring
  refine ⟨split, by omega, ?_⟩
  by_contra hge
  have := Nat.pow_le_pow_right (by omega : 0 < 2) (by omega : 64 ≤ shift + 7)
  have := Nat.mul_le_mul (by omega : 1 ≤ rest / 128) this
  omega

/-- Reading back the continuation of `rest`, whatever follows it. -/
theorem decodeRest_continuation (rest : ℕ) {value shift consumed : ℕ} (tail : Octets)
    (hs : shift < 64) (h : value + rest * 2 ^ shift < 2 ^ 64) :
    decodeRest (δ := δ) (continuation rest ++ tail) value shift consumed =
      .ok (consumed + (continuation rest).length, value + rest * 2 ^ shift) := by
  induction rest using Nat.strongRecOn generalizing value shift consumed with
  | ind rest ih =>
    have pos := Nat.two_pow_pos shift
    rw [continuation]
    split_ifs with hr
    · obtain ⟨hl, hh, -, -⟩ := low_or_high (Nat.mod_lt rest (by omega : 0 < 128))
      obtain ⟨split, part, step⟩ := continuation_step hr h
      simp only [List.cons_append, decodeRest, hl, Nat.shiftLeft_eq, Nat.mod_eq_of_lt part]
      rw [if_neg (by omega), if_neg hh, if_neg (by omega),
        ih _ (Nat.div_lt_self (by omega) (by omega)) step (by omega), split, List.length_cons]
      simp only [Except.ok.injEq, Prod.mk.injEq]
      omega
    · obtain ⟨-, -, hl, hh⟩ := low_or_high (by omega : rest < 128)
      have part : rest * 2 ^ shift < 2 ^ 64 := by omega
      simp only [List.cons_append, List.nil_append, decodeRest, hl, hh, Nat.shiftLeft_eq,
        Nat.mod_eq_of_lt part, if_true, List.length_singleton]
      rw [if_neg (by omega)]

/-- A strict prefix of the continuation of `rest` is incomplete. -/
theorem decodeRest_short (rest : ℕ) {value shift consumed : ℕ} {p : Octets}
    (hp : p <+: continuation rest) (hlt : p.length < (continuation rest).length)
    (hs : shift < 64) (h : value + rest * 2 ^ shift < 2 ^ 64) :
    decodeRest (δ := δ) p value shift consumed = .error .incomplete := by
  induction rest using Nat.strongRecOn generalizing value shift consumed p with
  | ind rest ih =>
    have pos := Nat.two_pow_pos shift
    rw [continuation] at hp hlt
    cases p with
    | nil => rfl
    | cons b p =>
      split_ifs at hp hlt with hr
      · obtain ⟨rfl, htail⟩ := List.cons_prefix_cons.1 hp
        obtain ⟨hl, hh, -, -⟩ := low_or_high (Nat.mod_lt rest (by omega : 0 < 128))
        obtain ⟨split, part, step⟩ := continuation_step hr h
        simp only [decodeRest, hl, Nat.shiftLeft_eq, Nat.mod_eq_of_lt part]
        rw [if_neg (by omega), if_neg hh, if_neg (by omega),
          ih _ (Nat.div_lt_self (by omega) (by omega)) htail (Nat.lt_of_succ_lt_succ hlt) step (by omega)]
      · simp at hlt

/-- The prefix of the first octet, under flags that leave it free. -/
theorem prefix_and_limit {prefixBits n : ℕ} {flags : UInt8} (hb : prefixBits ≤ 8)
    (hf : flags.toNat &&& limit prefixBits = 0) (hn : n ≤ limit prefixBits) :
    (flags ||| UInt8.ofNat n).toNat &&& limit prefixBits = n := by
  have hl : limit prefixBits = 2 ^ prefixBits - 1 := by
    rw [limit, min_eq_left (by omega)]
  have hp : 2 ^ prefixBits ≤ 2 ^ 8 := Nat.pow_le_pow_right (by omega) hb
  have pos := Nat.two_pow_pos prefixBits
  rw [UInt8.toNat_or, Nat.and_or_distrib_right, hf, Nat.zero_or, UInt8.toNat_ofNat', hl,
    Nat.and_two_pow_sub_one_eq_mod, Nat.mod_eq_of_lt (by omega), Nat.mod_eq_of_lt (by omega)]

/-- What `encode` writes spells the value. -/
theorem spells {value prefixBits : ℕ} {flags : UInt8} (hb : prefixBits ≤ 8)
    (hf : flags.toNat &&& limit prefixBits = 0) (hv : value < 2 ^ 64) :
    Spells (fun input => decode (δ := δ) input prefixBits) .incomplete
      (encode value prefixBits flags) value where
  whole rest := by
    rw [encode]
    split_ifs with h
    · simp only [List.cons_append, List.nil_append, decode, prefix_and_limit hb hf h.le, if_pos h,
        List.length_singleton]
    · simp only [List.cons_append, decode, prefix_and_limit hb hf le_rfl, lt_irrefl, if_false]
      rw [decodeRest_continuation _ rest (by omega) (by omega), List.length_cons]
      simp only [Except.ok.injEq, Prod.mk.injEq]
      omega
  short p hp hlt := by
    cases p with
    | nil => rfl
    | cons b p =>
      rw [encode] at hp hlt
      split_ifs at hp hlt with h
      · simp at hlt
      · obtain ⟨rfl, htail⟩ := List.cons_prefix_cons.1 hp
        simp only [decode, prefix_and_limit hb hf le_rfl, lt_irrefl, if_false]
        exact decodeRest_short _ htail (Nat.lt_of_succ_lt_succ hlt) (by omega) (by omega)

theorem encode_ne_nil (value prefixBits : ℕ) (flags : UInt8) : encode value prefixBits flags ≠ [] := by
  rw [encode]
  split_ifs <;> simp

/-- The first octet carries the flags above the prefix. -/
theorem head_encode (value prefixBits : ℕ) (flags : UInt8) :
    ∃ n tail, n ≤ limit prefixBits ∧
      encode value prefixBits flags = (flags ||| UInt8.ofNat n) :: tail := by
  rw [encode]
  split_ifs with h
  · exact ⟨value, [], h.le, rfl⟩
  · exact ⟨_, _, le_rfl, rfl⟩

end Integer

end Soyokaze

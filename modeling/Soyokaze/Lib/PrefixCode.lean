import Mathlib.Data.List.Basic
import Mathlib.Data.List.Infix
import Mathlib.Data.Nat.Bitwise

/-!
# Bit strings and prefix-free codes

* `msb n v`: the low `n` bits of a number, most significant first, with how it
  goes through shifts, remainders and concatenations;
* `Free`: a code whose words are the prefixes of no other;
* `Spelled`: a bit string that is a run of code words followed by padding. A
  prefix-free code spells it in one way (`spelled_append`,
  `not_spelled`), which is what lets a decoder be read one word at a
  time.
-/

namespace PrefixCode

/-- The low `n` bits of `v`, most significant first. -/
def msb (n v : ℕ) : List Bool := (List.range n).map fun i => v.testBit (n - 1 - i)

@[simp] theorem length_msb (n v : ℕ) : (msb n v).length = n := by simp [msb]

@[simp] theorem msb_zero_left (v : ℕ) : msb 0 v = [] := rfl

theorem getElem_msb {n v i : ℕ} (h : i < (msb n v).length) :
    (msb n v)[i] = v.testBit (n - 1 - i) := by simp [msb]

/-- Numbers that agree on their low bits spell the same. -/
theorem msb_congr {n v w : ℕ} (h : ∀ i < n, v.testBit i = w.testBit i) : msb n v = msb n w := by
  refine List.ext_getElem (by simp) fun i hi _ => ?_
  rw [length_msb] at hi
  rw [getElem_msb, getElem_msb]
  exact h _ (by omega)

theorem msb_mod {m n : ℕ} (h : n ≤ m) (v : ℕ) : msb n (v % 2 ^ m) = msb n v :=
  msb_congr fun i hi => by
    rw [Nat.testBit_mod_two_pow, decide_eq_true (by omega : i < m), Bool.true_and]

/-- The high bits, and then the low ones. -/
theorem msb_add (m n v : ℕ) : msb (m + n) v = msb m (v >>> n) ++ msb n v := by
  refine List.ext_getElem (by simp) fun i hi _ => ?_
  rw [length_msb] at hi
  rw [getElem_msb, List.getElem_append]
  split_ifs with h
  · rw [length_msb] at h
    rw [getElem_msb, Nat.testBit_shiftRight]
    congr 1
    omega
  · rw [length_msb] at h
    rw [getElem_msb]
    congr 1
    simp only [length_msb]
    omega

theorem msb_append {m n a b : ℕ} (hb : b < 2 ^ n) :
    msb (m + n) (a <<< n ||| b) = msb m a ++ msb n b := by
  rw [msb_add]
  congr 1
  · refine msb_congr fun i _ => ?_
    rw [Nat.testBit_shiftRight, Nat.testBit_or, Nat.testBit_shiftLeft,
      Nat.testBit_lt_two_pow (hb.trans_le (Nat.pow_le_pow_right (by omega) (by omega)))]
    simp
  · refine msb_congr fun i hi => ?_
    rw [Nat.testBit_or, Nat.testBit_shiftLeft]
    simp [hi]

theorem msb_take {n k : ℕ} (h : k ≤ n) (v : ℕ) : (msb n v).take k = msb k (v >>> (n - k)) := by
  conv_lhs => rw [show n = k + (n - k) by omega, msb_add]
  rw [List.take_left' (length_msb k _)]

theorem msb_drop {n k : ℕ} (h : k ≤ n) (v : ℕ) : (msb n v).drop k = msb (n - k) v := by
  conv_lhs => rw [show n = k + (n - k) by omega, msb_add]
  rw [List.drop_left' (length_msb k _)]

theorem msb_shiftLeft {n k : ℕ} (h : k ≤ n) (v : ℕ) :
    msb n (v <<< k) = (msb n v).drop k ++ List.replicate k false := by
  rw [msb_drop h]
  have := msb_append (m := n - k) (n := k) (a := v) (b := 0) (Nat.two_pow_pos k)
  rw [Nat.or_zero, show n - k + k = n by omega] at this
  rw [this]
  congr 1
  exact List.ext_getElem (by simp) fun i hi _ => by simp [getElem_msb]

theorem msb_inj {n v w : ℕ} (h : msb n v = msb n w) : v % 2 ^ n = w % 2 ^ n := by
  refine Nat.eq_of_testBit_eq fun i => ?_
  rw [Nat.testBit_mod_two_pow, Nat.testBit_mod_two_pow]
  by_cases hi : i < n
  · have := congrArg (·[n - 1 - i]?) h
    simp only [msb, List.getElem?_map] at this
    rw [List.getElem?_range (by omega)] at this
    simpa [hi, show n - 1 - (n - 1 - i) = i by omega] using this
  · simp [hi]

/-! ## Codes -/

variable {ι : Type*} {word : ι → List Bool}

/-- No word is a prefix of another. -/
def Free (word : ι → List Bool) : Prop := ∀ a b, word a <+: word b → a = b

/-- Two words at the front of one string are the same word. -/
theorem Free.eq_of_append (h : Free word) {a b : ι} {r s : List Bool}
    (he : word a ++ r = word b ++ s) : a = b ∧ r = s := by
  have hab : a = b := by
    rcases Nat.le_total (word a).length (word b).length with hl | hl
    · exact h a b (List.prefix_of_prefix_length_le (List.prefix_append _ r)
        (he ▸ List.prefix_append _ s) hl)
    · exact (h b a (List.prefix_of_prefix_length_le (List.prefix_append _ s)
        (he ▸ List.prefix_append _ r) hl)).symm
  subst hab
  exact ⟨rfl, List.append_cancel_left he⟩

/-- `bits` is the words of `l`, in order, and then padding. -/
def Spelled (word : ι → List Bool) (padding : List Bool → Prop) (l : List ι)
    (bits : List Bool) : Prop :=
  ∃ pad, padding pad ∧ bits = l.flatMap word ++ pad

variable {padding : List Bool → Prop}

/-- Where no word begins the padding, a string that begins with a word spells
    it first. -/
theorem spelled_append (h : Free word) {a : ι} {l : List ι} {r : List Bool}
    (hp : ∀ pad, padding pad → ¬ word a <+: pad) :
    Spelled word padding l (word a ++ r) ↔ ∃ m, l = a :: m ∧ Spelled word padding m r := by
  constructor
  · rintro ⟨pad, hpad, he⟩
    cases l with
    | nil => exact absurd ⟨r, he⟩ (hp pad hpad)
    | cons b m =>
      rw [List.flatMap_cons, List.append_assoc] at he
      obtain ⟨rfl, rfl⟩ := h.eq_of_append he
      exact ⟨m, rfl, pad, hpad, rfl⟩
  · rintro ⟨m, rfl, pad, hpad, rfl⟩
    exact ⟨pad, hpad, by simp⟩

/-- What begins with none of the words and is no padding spells nothing. -/
theorem not_spelled {l : List ι} {bits : List Bool} (hpad : ¬ padding bits)
    (hword : ∀ a, ¬ word a <+: bits) : ¬ Spelled word padding l bits := by
  rintro ⟨pad, hp, rfl⟩
  cases l with
  | nil => exact hpad hp
  | cons a m => exact hword a (by simp)

end PrefixCode

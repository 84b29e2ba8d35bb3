import Mathlib.Algebra.Order.Group.Nat
import Soyokaze.Helpers.Text

/-!
# Octets of a message

What is asked of octets when a message is read or written: where an octet is,
whether all of them are of a class, and what the standard library's strings do.
The searches that go a word at a time are given here by what they answer.

* `Utf8.valid_map_lower`: lower-casing the ASCII letters keeps a text a text;
* `Number.decimal_digits`: a number is written in digits alone.
-/

namespace Soyokaze

namespace Scan

/-- The offset of the first `needle`, if it is there. -/
def find (haystack : Octets) (needle : UInt8) : Option ℕ := haystack.findIdx? (· == needle)

/-- Whether an octet is a control octet, a tab excepted. -/
def isControl (octet : UInt8) : Bool := (octet < 0x20 && octet != 0x09) || octet == 0x7f

/-- Whether octets may be sent as a field value. -/
def isFieldValue (text : Octets) : Bool := text.all (!isControl ·)

/-- Whether every octet is visible: above a space and not `DEL`. -/
def allVisible (text : Octets) : Bool := text.all fun octet => 0x20 < octet && octet != 0x7f

/-- What stands before the octet found is free of it. -/
theorem find_eq_some_iff {haystack : Octets} {needle : UInt8} {i : ℕ} :
    find haystack needle = some i ↔
      haystack[i]? = some needle ∧ ∀ j < i, haystack[j]? ≠ some needle := by
  rw [find, List.findIdx?_eq_some_iff_getElem]
  constructor
  · rintro ⟨hi, hneedle, hbefore⟩
    refine ⟨by rw [List.getElem?_eq_getElem hi, beq_iff_eq.1 hneedle], fun j hj hget => ?_⟩
    obtain ⟨hj', hget⟩ := List.getElem?_eq_some_iff.1 hget
    exact absurd (hbefore j hj) (by simp [hget])
  · rintro ⟨hget, hbefore⟩
    obtain ⟨hi, hget⟩ := List.getElem?_eq_some_iff.1 hget
    refine ⟨hi, by simp [hget], fun j hj => ?_⟩
    have hj' : j < haystack.length := hj.trans hi
    have := hbefore j hj
    rw [List.getElem?_eq_getElem hj'] at this
    simpa using this

theorem find_eq_none_iff {haystack : Octets} {needle : UInt8} :
    find haystack needle = none ↔ needle ∉ haystack := by
  rw [find, List.findIdx?_eq_none_iff]
  constructor
  · intro h hmem
    exact absurd (h needle hmem) (by simp)
  · intro h octet hmem
    exact beq_eq_false_iff_ne.2 fun heq => h (heq ▸ hmem)

theorem lt_of_find {haystack : Octets} {needle : UInt8} {i : ℕ} (h : find haystack needle = some i) :
    i < haystack.length := (List.getElem?_eq_some_iff.1 (find_eq_some_iff.1 h).1).1

/-- An octet that was found is found at the same place whatever follows. -/
theorem find_append {haystack : Octets} {needle : UInt8} {i : ℕ} (h : find haystack needle = some i)
    (rest : Octets) : find (haystack ++ rest) needle = some i := by
  rw [find, List.findIdx?_append, ← find, h]
  rfl

end Scan

/-! ## Strings -/

namespace Str

/-- The lower-case form of an ASCII letter, and any other octet as it is. -/
def lower (octet : UInt8) : UInt8 := if 0x41 ≤ octet ∧ octet ≤ 0x5a then octet + 0x20 else octet

/-- The upper-case form of an ASCII letter, and any other octet as it is. -/
def upper (octet : UInt8) : UInt8 := if 0x61 ≤ octet ∧ octet ≤ 0x7a then octet - 0x20 else octet

/-- Whether two strings are equal but for the case of their ASCII letters. -/
def eqIgnoreAsciiCase (a b : Octets) : Bool := a.map lower == b.map lower

/-- Whether an octet is an ASCII digit. -/
def isDigit (octet : UInt8) : Bool := 0x30 ≤ octet && octet ≤ 0x39

/-- The pieces of a string between separators, of which there is always one. -/
def split (text : Octets) (separator : UInt8) : List Octets :=
  text.foldr (fun octet pieces =>
    if octet = separator then [] :: pieces
    else match pieces with
      | piece :: pieces => (octet :: piece) :: pieces
      | [] => [[octet]]) [[]]

/-- The characters Unicode calls white space, as UTF-8 spells them. -/
def WHITE_SPACE : List Octets := [[0x09], [0x0a], [0x0b], [0x0c], [0x0d], [0x20], [0xc2, 0x85], [0xc2, 0xa0],
  [0xe1, 0x9a, 0x80], [0xe2, 0x80, 0x80], [0xe2, 0x80, 0x81], [0xe2, 0x80, 0x82], [0xe2, 0x80, 0x83],
  [0xe2, 0x80, 0x84], [0xe2, 0x80, 0x85], [0xe2, 0x80, 0x86], [0xe2, 0x80, 0x87], [0xe2, 0x80, 0x88],
  [0xe2, 0x80, 0x89], [0xe2, 0x80, 0x8a], [0xe2, 0x80, 0xa8], [0xe2, 0x80, 0xa9], [0xe2, 0x80, 0xaf],
  [0xe2, 0x81, 0x9f], [0xe3, 0x80, 0x80]]

/-- Takes white space off the front, a character at a time. -/
def trimStart : ℕ → Octets → Octets
  | 0, text => text
  | fuel + 1, text =>
    match WHITE_SPACE.find? (·.isPrefixOf text) with
    | some space => trimStart fuel (text.drop space.length)
    | none => text

/-- Takes white space off the back, a character at a time. -/
def trimEnd : ℕ → Octets → Octets
  | 0, text => text
  | fuel + 1, text =>
    match WHITE_SPACE.find? (·.isSuffixOf text) with
    | some space => trimEnd fuel (text.take (text.length - space.length))
    | none => text

/-- A string without the white space around it, Unicode's included. -/
def trim (text : Octets) : Octets :=
  let text := trimStart text.length text
  trimEnd text.length text

/-- A string without the white space around it, ASCII's alone. -/
def trimAscii (text : Octets) : Octets :=
  let space := fun octet : UInt8 => octet == 0x20 || octet == 0x09 || octet == 0x0a || octet == 0x0c || octet == 0x0d
  ((text.dropWhile space).reverse.dropWhile space).reverse

end Str

namespace Utf8

theorem lower_of_high {b : UInt8} (h : 0x80 ≤ b) : Str.lower b = b := by
  rw [Str.lower, if_neg]
  rintro ⟨-, hb⟩
  rw [UInt8.le_iff_toNat_le] at h hb
  exact absurd (h.trans hb) (by decide)

theorem lower_lt {b : UInt8} (h : b < 0x80) : Str.lower b < 0x80 := by
  rw [Str.lower]
  split_ifs with hb
  · obtain ⟨hlo, hhi⟩ := hb
    rw [UInt8.le_iff_toNat_le] at hlo hhi
    rw [UInt8.lt_iff_toNat_lt, UInt8.toNat_add]
    have h41 : (0x41 : UInt8).toNat = 0x41 := rfl
    have h5a : (0x5a : UInt8).toNat = 0x5a := rfl
    have h20 : (0x20 : UInt8).toNat = 0x20 := rfl
    have h80 : (0x80 : UInt8).toNat = 0x80 := rfl
    omega
  · exact h

/-- The octets a scan inside a scalar will take are none of ASCII's. -/
def State.High : State → Prop
  | .ground => True
  | .expect lo _ _ => 0x80 ≤ lo

theorem high_lead {b : UInt8} {s : State} (h : lead b = some s) : s.High := by
  rw [lead] at h
  split_ifs at h <;> cases h <;> simp only [State.High] <;> decide

theorem high_next (more : ℕ) : (State.next more).High := by
  cases more
  · trivial
  · exact (by decide : (0x80 : UInt8) ≤ 0x80)

/-- Lower-casing the ASCII letters of a text leaves a text. -/
theorem valid_map_lower (l : Octets) {s : State} (hs : s.High) : valid (l.map Str.lower) s = valid l s := by
  induction l generalizing s with
  | nil => rfl
  | cons b l ih =>
    rw [List.map_cons]
    by_cases hb : b < 0x80
    · have hlow := lower_lt hb
      cases s with
      | ground => simp only [valid, lead, if_pos hb, if_pos hlow, ih (s := .ground) trivial]
      | expect lo hi more =>
        have hlo : (0x80 : UInt8) ≤ lo := hs
        simp only [valid, decide_eq_false (UInt8.not_le.2 (UInt8.lt_of_lt_of_le hb hlo)),
          decide_eq_false (UInt8.not_le.2 (UInt8.lt_of_lt_of_le hlow hlo)), Bool.false_and]
    · rw [lower_of_high (UInt8.not_lt.1 hb)]
      cases s with
      | ground =>
        simp only [valid]
        cases hlead : lead b with
        | none => rfl
        | some s => exact ih (high_lead hlead)
      | expect lo hi more => simp only [valid, ih (high_next more)]

end Utf8

namespace Text

/-- Lower-cases the ASCII letters. -/
def makeAsciiLowercase (t : Text) : Text :=
  ⟨t.octets.map Str.lower, (@Utf8.valid_map_lower t.octets .ground trivial).trans t.valid⟩

end Text

/-! ## Numbers -/

namespace Number

/-- Writes the decimal digits of a number before what is written already. -/
def decimalLoop : ℕ → ℕ → Octets → Octets
  | 0, _, digits => digits
  | fuel + 1, value, digits =>
    let digits := .ofNat (0x30 + value % 10) :: digits
    if value / 10 = 0 then digits else decimalLoop fuel (value / 10) digits

/-- A `u64` in decimal. -/
def decimal (value : ℕ) : Octets := decimalLoop 20 value []

/-- One hexadecimal digit. -/
def hexDigit (value : ℕ) : UInt8 := if value < 10 then .ofNat (0x30 + value) else .ofNat (0x57 + value)

/-- Writes the hexadecimal digits of a number before what is written already. -/
def hexadecimalLoop : ℕ → ℕ → Octets → Octets
  | 0, _, digits => digits
  | fuel + 1, value, digits =>
    let digits := hexDigit (value % 16) :: digits
    if value / 16 = 0 then digits else hexadecimalLoop fuel (value / 16) digits

/-- A `u64` in lower-case hexadecimal. -/
def hexadecimal (value : ℕ) : Octets := hexadecimalLoop 16 value []

theorem decimalLoop_digits (fuel value : ℕ) {digits : Octets} (h : digits.all Str.isDigit = true) :
    (decimalLoop fuel value digits).all Str.isDigit = true := by
  induction fuel generalizing value digits with
  | zero => exact h
  | succ fuel ih =>
    have hdigit : Str.isDigit (.ofNat (0x30 + value % 10)) = true := by
      have : value % 10 < 10 := Nat.mod_lt _ (by decide)
      generalize value % 10 = d at this
      revert d
      decide
    have hnext : (.ofNat (0x30 + value % 10) :: digits).all Str.isDigit = true := by
      rw [List.all_cons, hdigit, h]
      rfl
    rw [decimalLoop]
    split_ifs
    · exact hnext
    · exact ih _ hnext

/-- A number is written in digits alone. -/
theorem decimal_digits (value : ℕ) : (decimal value).all Str.isDigit = true := decimalLoop_digits 20 value rfl

end Number

end Soyokaze

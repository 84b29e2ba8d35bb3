import Mathlib.Data.List.DropRight
import Soyokaze.Helpers.Scan

/-!
# Host names and addresses

What the standard library does with the strings hosts, cookies and policies are read from,
and which strings it reads as the address of a host.

* `Str.mem_behindEach`: what is behind each dot of a name, which are the names it is under.
-/

namespace Soyokaze

namespace Str

/-- What comes before the first separator, and what behind it. -/
def splitOnce (text : Octets) (separator : UInt8) : Option (Octets × Octets) :=
  (Scan.find text separator).map fun i => (text.take i, text.drop (i + 1))

/-- What is behind each separator, the longest first. -/
def behindEach (separator : UInt8) : Octets → List Octets
  | [] => []
  | octet :: text => if octet = separator then text :: behindEach separator text else behindEach separator text

/-- Which is what is behind the first separator, and what is behind each after that. -/
theorem behindEach_eq (separator : UInt8) (text : Octets) :
    behindEach separator text = match splitOnce text separator with
      | none => []
      | some (_, behind) => behind :: behindEach separator behind := by
  induction text with
  | nil => rfl
  | cons octet text ih =>
    rw [behindEach, splitOnce, Scan.find, List.findIdx?_cons]
    by_cases h : octet = separator
    · simp [h]
    · rw [if_neg h, ih, splitOnce, Scan.find]
      cases hfind : text.findIdx? (· == separator) with
      | none => simp [h]
      | some i => simp [h]

theorem mem_behindEach {separator : UInt8} {text behind : Octets} :
    behind ∈ behindEach separator text ↔ ∃ before, text = before ++ separator :: behind := by
  induction text with
  | nil => simp [behindEach]
  | cons octet text ih =>
    have hlater : (∃ before, octet :: text = before ++ separator :: behind) ↔
        (octet = separator ∧ behind = text) ∨ ∃ before, text = before ++ separator :: behind := by
      constructor
      · rintro ⟨before, hbefore⟩
        cases before with
        | nil =>
          obtain ⟨rfl, rfl⟩ := List.cons.inj hbefore
          exact .inl ⟨rfl, rfl⟩
        | cons first before => exact .inr ⟨before, (List.cons.inj hbefore).2⟩
      · rintro (⟨rfl, rfl⟩ | ⟨before, rfl⟩)
        · exact ⟨[], rfl⟩
        · exact ⟨octet :: before, rfl⟩
    rw [behindEach, hlater, ← ih]
    split_ifs with h
    · simp [h]
    · simp [h]

theorem split_separator (separator : UInt8) (text : Octets) : split (separator :: text) separator = [] :: split text separator := by
  rw [split, List.foldr_cons, if_pos rfl]
  rfl

theorem split_cons {octet separator : UInt8} (h : octet ≠ separator) {text piece : Octets} {pieces : List Octets}
    (hsplit : split text separator = piece :: pieces) :
    split (octet :: text) separator = (octet :: piece) :: pieces := by
  rw [split] at hsplit ⊢
  rw [List.foldr_cons, if_neg h, hsplit]

/-- There is always one piece. -/
theorem exists_split (text : Octets) (separator : UInt8) : ∃ piece pieces, split text separator = piece :: pieces := by
  induction text with
  | nil => exact ⟨[], [], rfl⟩
  | cons octet text ih =>
    obtain ⟨piece, pieces, hsplit⟩ := ih
    by_cases h : octet = separator
    · rw [h]
      exact ⟨_, _, split_separator separator text⟩
    · exact ⟨_, _, split_cons h hsplit⟩

/-- A separator parts what is before it from what is behind it. -/
theorem split_append (before behind : Octets) (separator : UInt8) :
    split (before ++ separator :: behind) separator = split before separator ++ split behind separator := by
  induction before with
  | nil => exact split_separator separator behind
  | cons octet before ih =>
    rw [List.cons_append]
    by_cases h : octet = separator
    · rw [h, split_separator, ih, split_separator]
      rfl
    · obtain ⟨piece, pieces, hsplit⟩ := exists_split before separator
      have hboth : split (before ++ separator :: behind) separator = piece :: (pieces ++ split behind separator) := by
        rw [ih, hsplit]
        rfl
      rw [split_cons h hsplit, split_cons h hboth]
      rfl

/-- A string without what it begins with of some octets. -/
def trimStartMatches (drop : UInt8 → Bool) (text : Octets) : Octets := text.dropWhile drop

/-- A string without what it ends in of some octets. -/
def trimEndMatches (drop : UInt8 → Bool) (text : Octets) : Octets := text.rdropWhile drop

/-- A string without what it begins with and ends in of some octets. -/
def trimMatches (drop : UInt8 → Bool) (text : Octets) : Octets := trimEndMatches drop (trimStartMatches drop text)

/-- A string with the ASCII letters in lower case. -/
def toAsciiLowercase (text : Octets) : Octets := text.map lower

/-- The number that digits are. -/
def number (radix : ℕ) (digits : List ℕ) : ℕ := digits.foldl (fun number digit => number * radix + digit) 0

/-- The digits of a decimal number, as they are written. -/
def decimal (text : Octets) : ℕ := number 10 (text.map fun octet => octet.toNat - 0x30)

end Str

/-! ## Addresses -/

namespace IpAddr

/-- The digit an octet is, in upper case or in lower. -/
def toDigit (radix : ℕ) (octet : UInt8) : Option ℕ :=
  let digit :=
    if 0x30 ≤ octet ∧ octet ≤ 0x39 then octet.toNat - 0x30
    else if 0x61 ≤ Str.lower octet ∧ Str.lower octet ≤ 0x7a then (Str.lower octet).toNat - 0x61 + 10
    else radix
  if digit < radix then some digit else none

/-- Reads a number of so many digits at most, and no larger than may be. -/
def readNumber (radix maxDigits : ℕ) (allowZeroPrefix : Bool) (max : ℕ) (text : Octets) : Option Octets :=
  let digits := text.takeWhile fun octet => (toDigit radix octet).isSome
  if maxDigits < digits.length then none
  else if digits.isEmpty then none
  else if !allowZeroPrefix && text.head? == some 0x30 && 1 < digits.length then none
  else if Str.number radix (digits.filterMap (toDigit radix)) ≤ max then some (text.drop digits.length)
  else none

/-- Reads an octet that has to be the next. -/
def readGivenChar (target : UInt8) : Octets → Option Octets
  | [] => none
  | octet :: text => if octet = target then some text else none

/-- Reads something, after a separator unless it is the first. -/
def readSeparator (separator : UInt8) (index : ℕ) (inner : Octets → Option Octets) (text : Octets) : Option Octets :=
  if index > 0 then (readGivenChar separator text).bind inner else inner text

/-- Reads an IPv4 address: four numbers, with no zero before any digit. -/
def readIpv4Addr (text : Octets) : Option Octets :=
  (List.range 4).foldlM (fun text i => readSeparator 0x2e i (readNumber 10 3 false 255) text) text

/-- Reads the groups of an IPv6 address from one on, `more` of them at most: how many were read, and whether an
    IPv4 address ends them. -/
def readGroups (limit : ℕ) : ℕ → ℕ → Octets → (ℕ × Bool) × Octets
  | 0, _, text => ((limit, false), text)
  | more + 1, i, text =>
    match if i < limit - 1 then readSeparator 0x3a i readIpv4Addr text else none with
    | some text => ((i + 2, true), text)
    | none => match readSeparator 0x3a i (readNumber 16 4 true 0xFFFF) text with
      | some text => readGroups limit more (i + 1) text
      | none => ((i, false), text)

/-- Reads an IPv6 address: eight groups, of which some that are zero may be left out. -/
def readIpv6Addr (text : Octets) : Option Octets :=
  match readGroups 8 8 0 text with
  | ((8, _), text) => some text
  | ((_, true), _) => none
  | ((headSize, false), text) => do
    let text ← readGivenChar 0x3a text
    let text ← readGivenChar 0x3a text
    let limit := 8 - (headSize + 1)
    return (readGroups limit limit 0 text).2

/-- Whether a string is the address of a host. -/
def parses (text : Octets) : Bool :=
  match (readIpv4Addr text).orElse fun _ => readIpv6Addr text with
  | some text => text.isEmpty
  | none => false

example : parses (lit "192.0.2.1") = true := by decide +kernel

example : parses (lit "2001:db8::192.0.2.1") = true := by decide +kernel

example : parses (lit "192.0.2.01") = false := by decide +kernel

example : parses (lit "1.2.3.4.5") = false := by decide +kernel

end IpAddr

end Soyokaze

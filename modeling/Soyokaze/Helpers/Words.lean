import Mathlib.Data.Nat.Bitwise
import Soyokaze.Lib.Blocks
import Soyokaze.Lib.Lanes
import Soyokaze.Presence

/-!
# Octets a word at a time

The searches and checks of `Scan` as the source makes them: eight octets to a word, which
tricks on the bits of the word settle at once, with a last word that overlaps the one before
it where the length is not a whole number of words.

* `Words.sweep_any`: a check of all words finds what a check of all octets finds;
* `Words.words_exact`: each of them answers as its octet by octet definition does.
-/

namespace Soyokaze

namespace Words

/-- How many octets one machine word holds. -/
def LANES : ℕ := 8
/-- The low bit of every lane. -/
def LOW : UInt64 := 0x0101010101010101
/-- The high bit of every lane. -/
def HIGH : UInt64 := 0x8080808080808080

/-- Marks the high bit of each lane that holds zero, up to the first of them at least. -/
def holdsZero (word : UInt64) : UInt64 := (word - LOW) &&& ~~~word &&& HIGH

/-- Reads the eight octets at an offset as a little-endian word. -/
def wordAt (haystack : Octets) (offset : ℕ) : UInt64 := Lanes.word ((haystack.drop offset).take LANES)

/-- The offset of the first `needle` from an offset on. -/
def findFrom (haystack : Octets) (needle : UInt8) (offset : ℕ) : Option ℕ :=
  if offset + LANES ≤ haystack.length then
    let marked := holdsZero (wordAt haystack offset ^^^ LOW * needle.toUInt64)
    if marked ≠ 0 then some (offset + marked.toBitVec.ctz.toNat / 8) else findFrom haystack needle (offset + LANES)
  else ((haystack.drop offset).findIdx? (· == needle)).map (offset + ·)
termination_by haystack.length - offset
decreasing_by simp only [LANES] at *; omega

/-- The offset of the first `needle`, if it is there. -/
def find (haystack : Octets) (needle : UInt8) : Option ℕ := findFrom haystack needle 0

/-- Writes octets over others, from a place on where there are so many. -/
def splice (destination : Octets) (start : ℕ) (source : Octets) : Option Octets :=
  if start + source.length ≤ destination.length then
    some (destination.take start ++ source ++ destination.drop (start + source.length))
  else none

/-- Writes the first and the last so many octets of a source to the front, which may overlap. -/
def copyEnds (width : ℕ) (destination source : Octets) : Option Octets := do
  let destination ← splice destination 0 (source.take width)
  splice destination (source.length - width) (source.drop (source.length - width))

/-- Copies a source of 32 octets at most to the front. -/
def copyShort (destination source : Octets) : Option Octets :=
  let len := source.length
  if 16 ≤ len then copyEnds 16 destination source
  else if 8 ≤ len then copyEnds 8 destination source
  else if 4 ≤ len then copyEnds 4 destination source
  else if 2 ≤ len then copyEnds 2 destination source
  else if len = 1 then splice destination 0 [source.getD 0 0]
  else some destination

/-- Copies a source to the front of a destination. There is none if it is too short, which the
    source takes for a mistake of the caller. -/
def copy (destination source : Octets) : Option Octets :=
  if 32 < source.length then splice destination 0 source else copyShort destination source

/-- Marks the high bit of each lane that holds less than a bound, of `0x80` at most. -/
def holdsLess (word bound : UInt64) : UInt64 :=
  let lowered := (word ||| HIGH) - LOW * bound
  ~~~lowered &&& ~~~word &&& HIGH

/-- Marks the high bit of each lane that holds zero. -/
def marksZero (word : UInt64) : UInt64 := ~~~((word &&& ~~~HIGH) + ~~~HIGH ||| word) &&& HIGH

/-- Takes in the whole words of a text from an offset on, and says where there is no whole word left. -/
def wholeWords {σ : Type} (f : σ → UInt64 → σ) (text : Octets) (s : σ) (offset : ℕ) : σ × ℕ :=
  if offset + LANES ≤ text.length then wholeWords f text (f s (wordAt text offset)) (offset + LANES) else (s, offset)
termination_by text.length - offset
decreasing_by simp only [LANES] at *; omega

/-- Takes in the words of a text, the last of them read to end on the final octet, and says
    where the octets are that were in none. -/
def sweep {σ : Type} (f : σ → UInt64 → σ) (text : Octets) (s : σ) : σ × ℕ :=
  let (s, offset) := wholeWords f text s 0
  if offset < text.length ∧ LANES ≤ text.length then (f s (wordAt text (text.length - LANES)), text.length)
  else (s, offset)

/-- Takes in a word of a field value: the marks of its control octets, and those of what is not ASCII. -/
def classify (marks : UInt64 × UInt64) (word : UInt64) : UInt64 × UInt64 :=
  let tab := marksZero (word ^^^ LOW * 0x09)
  let del := marksZero (word ^^^ LOW * 0x7f)
  (marks.1 ||| (holdsLess word 0x20 &&& ~~~tab ||| del), marks.2 ||| word &&& HIGH)

/-- Classifies a field value in one pass. -/
def classifyFieldValue (text : Octets) : UInt8 :=
  let ((control, obsText), offset) := sweep classify text (0, 0)
  let (control, obsText) := (text.drop offset).foldl (fun (control, obsText) octet =>
    (control || (octet < 0x20 && octet != 0x09) || octet == 0x7f, obsText || 0x80 ≤ octet)) (control != 0, obsText != 0)
  control.toUInt8 ||| obsText.toUInt8 <<< 1

/-- Takes in a word of which every octet should be visible. -/
def hide (marked word : UInt64) : UInt64 := marked ||| (holdsLess word 0x21 ||| marksZero (word ^^^ LOW * 0x7f))

/-- Whether every octet is visible. -/
def allVisible (text : Octets) : Bool :=
  let (marked, offset) := sweep hide text 0
  marked == 0 && (text.drop offset).all fun octet => 0x20 < octet && octet != 0x7f

/-- What a table has for an octet. -/
def entry (table : Vector UInt8 256) (octet : UInt8) : UInt8 := table.get ⟨octet.toNat, octet.toNat_lt⟩

/-- Takes in the entries of eight octets. -/
def allOf (table : Vector UInt8 256) (held : UInt8) (chunk : Octets) : UInt8 :=
  let at' (i : ℕ) := entry table (chunk.getD i 0)
  held &&& (at' 0 &&& at' 1 &&& at' 2 &&& at' 3 &&& at' 4 &&& at' 5 &&& at' 6 &&& at' 7)

/-- Whether every octet is one a table marks with a mask. -/
def allInClass (text : Octets) (table : Vector UInt8 256) (mask : UInt8) : Bool :=
  let (held, remainder) := Blocks.eat (allOf table) LANES mask text
  remainder.foldl (fun held octet => held &&& entry table octet) held &&& mask != 0

/-! ## The first lane that is zero -/

/-- What holds of 256 numbers holds of every octet. -/
theorem forall_octet (P : UInt8 → Prop) (h : ∀ n < 256, P (.ofNat n)) (x : UInt8) : P x := by
  have hx := h x.toNat x.toNat_lt
  rwa [UInt8.ofNat_toNat] at hx

theorem holds_high {α : Type} {l : List α} (h : l.length = 8) : Lanes.Holds l HIGH fun _ => 0x80 := Lanes.holds_const h 0x80

/-- What is left of a lane that has enough and of what it was have no high bit to mark. -/
theorem lane_zero (x : UInt8) : x = 0 ∨ UInt8.ofNat (x.toNat + 256 - ((1 : UInt8).toNat + 0)) &&& ~~~x &&& 0x80 = 0 := by
  exact forall_octet (fun x => x = 0 ∨ UInt8.ofNat (x.toNat + 256 - ((1 : UInt8).toNat + 0)) &&& ~~~x &&& 0x80 = 0)
    (by decide +kernel) x

/-- The lanes that `holdsZero` makes of lanes. -/
def zeroMarks (l : Octets) : Octets := ((Lanes.less 1 l 0).zip l).map fun lane => lane.1 &&& ~~~lane.2 &&& 0x80

theorem length_zeroMarks (l : Octets) : (zeroMarks l).length = l.length := by
  rw [zeroMarks, List.length_map, List.length_zip, Lanes.length_less, Nat.min_self]

theorem holdsZero_word {l : Octets} (hl : l.length = 8) : holdsZero (Lanes.word l) = Lanes.word (zeroMarks l) := by
  have hfst : ((Lanes.less 1 l 0).zip l).map Prod.fst = Lanes.less 1 l 0 := List.map_fst_zip (by rw [Lanes.length_less])
  have hsnd : ((Lanes.less 1 l 0).zip l).map Prod.snd = l := List.map_snd_zip (by rw [Lanes.length_less])
  have hleft : Lanes.Holds ((Lanes.less 1 l 0).zip l) (Lanes.word l - LOW) fun lane => lane.1 :=
    Lanes.Holds.of_map Prod.fst (fun x => x) (by rw [hfst]; exact Lanes.holds_less 1 hl)
  have hword : Lanes.Holds ((Lanes.less 1 l 0).zip l) (Lanes.word l) fun lane => lane.2 :=
    Lanes.Holds.of_map Prod.snd (fun x => x) (by rw [hsnd]; exact Lanes.holds_word hl)
  exact ((hleft.and hword.not).and (holds_high hword.eight)).eq_word

/-- No lane is marked before the first that is zero, for none of them has to borrow. -/
theorem zeroMarks_first (l : Octets) :
    match l.findIdx? (· == 0) with
    | none => ∀ marks ∈ zeroMarks l, marks = 0
    | some i => (zeroMarks l).getD i 0 = 0x80 ∧ ∀ j < i, (zeroMarks l).getD j 0 = 0 := by
  induction l with
  | nil => exact fun _ h => absurd h List.not_mem_nil
  | cons x l ih =>
    rw [List.findIdx?_cons]
    rcases lane_zero x with rfl | hmark
    · exact ⟨rfl, fun j hj => absurd hj (Nat.not_lt_zero j)⟩
    · by_cases hx : x = 0
      · subst hx
        exact ⟨rfl, fun j hj => absurd hj (Nat.not_lt_zero j)⟩
      · have hborrow : ¬ x.toNat < (1 : UInt8).toNat + 0 := by
          intro hlt
          exact hx (UInt8.toNat_inj.1 (Nat.lt_one_iff.1 hlt))
        have hmarks : zeroMarks (x :: l) = 0 :: zeroMarks l := by
          rw [zeroMarks, Lanes.less, if_neg hborrow, List.zip_cons_cons, List.map_cons, hmark]
          rfl
        rw [hmarks, if_neg (by simpa using hx)]
        cases hfind : l.findIdx? (· == 0) with
        | none =>
          rw [hfind] at ih
          exact List.forall_mem_cons.2 ⟨rfl, ih⟩
        | some i =>
          rw [hfind] at ih
          refine ⟨ih.1, fun j hj => ?_⟩
          cases j with
          | zero => rfl
          | succ j => exact ih.2 j (Nat.lt_of_succ_lt_succ hj)

/-- A word is marked where one of its octets is zero, and the first mark tells the first of them. -/
theorem holdsZero_first {l : Octets} (hl : l.length = 8) :
    match l.findIdx? (· == 0) with
    | none => holdsZero (Lanes.word l) = 0
    | some i => holdsZero (Lanes.word l) ≠ 0 ∧ (holdsZero (Lanes.word l)).toBitVec.ctz.toNat / 8 = i := by
  have hlength : (zeroMarks l).length = 8 := (length_zeroMarks l).trans hl
  have hmarks := zeroMarks_first l
  rw [holdsZero_word hl]
  split at hmarks
  · rw [← UInt64.toNat_inj, Lanes.toNat_word hlength]
    exact Lanes.pack_eq_zero.2 hmarks
  · next i _ =>
    obtain ⟨hmark, hbefore⟩ := hmarks
    have hctz : (Lanes.word (zeroMarks l)).toBitVec.ctz.toNat = 8 * i + 7 :=
      Lanes.ctz_word hlength (by decide) (by rw [hmark]; decide) (by rw [hmark]; decide) hbefore
    refine ⟨fun hzero => ?_, by rw [hctz]; omega⟩
    rw [← UInt64.toNat_inj, Lanes.toNat_word hlength] at hzero
    have hbit := Lanes.testBit_pack (zeroMarks l) (8 * i + 7)
    rw [hzero, show (8 * i + 7) / 8 = i by omega, show (8 * i + 7) % 8 = 7 by omega, hmark, UInt64.toNat_zero,
      Nat.zero_testBit] at hbit
    exact absurd hbit (by decide)

/-- A word that is turned around where it should not differ has a lane that is zero for each needle. -/
theorem holdsZero_needle {l : Octets} (hl : l.length = 8) (needle : UInt8) :
    match l.findIdx? (· == needle) with
    | none => holdsZero (Lanes.word l ^^^ LOW * needle.toUInt64) = 0
    | some i => holdsZero (Lanes.word l ^^^ LOW * needle.toUInt64) ≠ 0 ∧
        (holdsZero (Lanes.word l ^^^ LOW * needle.toUInt64)).toBitVec.ctz.toNat / 8 = i := by
  have hword : Lanes.word l ^^^ LOW * needle.toUInt64 = Lanes.word (l.map fun x => x ^^^ needle) :=
    ((Lanes.holds_word hl).xor (Lanes.holds_const hl needle)).eq_word
  have hfirst := holdsZero_first (l := l.map fun x => x ^^^ needle) (by rw [List.length_map, hl])
  have hsame : ((fun x : UInt8 => x == 0) ∘ fun x => x ^^^ needle) = fun x => x == needle := by
    funext x
    rw [Function.comp_apply, Bool.eq_iff_iff, beq_iff_eq, beq_iff_eq, UInt8.xor_eq_zero_iff]
  rw [List.findIdx?_map, hsame] at hfirst
  rw [hword]
  exact hfirst

theorem length_block {haystack : Octets} {offset : ℕ} (h : offset + LANES ≤ haystack.length) :
    ((haystack.drop offset).take LANES).length = 8 := by
  rw [List.length_take, List.length_drop, LANES] at *
  omega

theorem split_block (haystack : Octets) (offset : ℕ) :
    haystack.drop offset = (haystack.drop offset).take LANES ++ (haystack.drop offset).drop LANES :=
  (List.take_append_drop LANES _).symm

theorem findFrom_eq (haystack : Octets) (needle : UInt8) (offset : ℕ) :
    findFrom haystack needle offset = ((haystack.drop offset).findIdx? (· == needle)).map (offset + ·) := by
  fun_induction findFrom haystack needle offset with
  | case1 offset h marked hmarked =>
    have hfirst := holdsZero_needle (length_block h) needle
    rw [split_block, List.findIdx?_append]
    split at hfirst
    · exact absurd hfirst hmarked
    · next i hfind =>
      rw [hfind, ← hfirst.2]
      rfl
  | case2 offset h marked hmarked ih =>
    have hfirst := holdsZero_needle (length_block h) needle
    rw [split_block, List.findIdx?_append, ih, List.drop_drop]
    split at hfirst
    · next hfind =>
      rw [hfind, Option.none_or, Option.map_map, length_block h]
      refine congrArg (fun f => Option.map f _) (funext fun i => ?_)
      rw [Function.comp_apply, LANES]
      omega
    · exact absurd hfirst.1 hmarked
  | case3 offset h => rfl

theorem find_eq (haystack : Octets) (needle : UInt8) : find haystack needle = Scan.find haystack needle := by
  rw [find, findFrom_eq, List.drop_zero, Scan.find]
  simp

/-! ## Copies -/

/-- What a destination holds once a source was copied to its front. -/
def copied (destination source : Octets) : Option Octets :=
  if source.length ≤ destination.length then some (source ++ destination.drop source.length) else none

theorem splice_zero (destination source : Octets) : splice destination 0 source = copied destination source := by
  rw [splice, copied, Nat.zero_add, List.take_zero, List.nil_append]

theorem copyEnds_eq {width : ℕ} {destination source : Octets} (hshort : width ≤ source.length) (hlong : source.length ≤ 2 * width) :
    copyEnds width destination source = copied destination source := by
  have hlength : (source.take width).length = width := List.length_take_of_le hshort
  have hback : (source.drop (source.length - width)).length = width := by
    rw [List.length_drop]
    omega
  rw [copyEnds, splice_zero, copied, copied, hlength]
  by_cases hroom : width ≤ destination.length
  · rw [if_pos hroom, Option.bind_eq_bind, Option.bind_some, splice, hback, Nat.sub_add_cancel hshort, List.length_append,
      hlength, List.length_drop, Nat.add_sub_cancel' hroom]
    -- What the back is written behind is all of the front.
    have hfront : (source.take width ++ destination.drop width).take (source.length - width) =
        source.take (source.length - width) := by
      rw [List.take_append_of_le_length (by omega), List.take_take, Nat.min_eq_left (by omega)]
    have hrest : (source.take width ++ destination.drop width).drop source.length = destination.drop source.length := by
      rw [List.drop_append, hlength, List.drop_of_length_le (by omega), List.nil_append, List.drop_drop,
        Nat.add_sub_cancel' hshort]
    rw [hfront, hrest, List.take_append_drop]
  · rw [if_neg hroom, if_neg fun hle => hroom (hshort.trans hle)]
    rfl

theorem copyShort_eq {destination source : Octets} (hlong : source.length ≤ 32) :
    copyShort destination source = copied destination source := by
  rw [copyShort]
  split_ifs with h16 h8 h4 h2 h1
  · exact copyEnds_eq h16 (by omega)
  · exact copyEnds_eq h8 (by omega)
  · exact copyEnds_eq h4 (by omega)
  · exact copyEnds_eq h2 (by omega)
  · obtain ⟨octet, rfl⟩ := List.length_eq_one_iff.1 h1
    exact splice_zero destination [octet]
  · obtain rfl := List.eq_nil_of_length_eq_zero (show source.length = 0 by omega)
    rfl

theorem copy_eq (destination source : Octets) : copy destination source = copied destination source := by
  rw [copy]
  split_ifs with hlong
  · exact splice_zero destination source
  · exact copyShort_eq (Nat.not_lt.1 hlong)

/-! ## Marks that are exact -/

theorem le_or_high (bound x : UInt8) (h : bound ≤ 0x80) : bound ≤ x ||| 0x80 := by
  rw [UInt8.le_iff_toNat_le] at h ⊢
  rw [UInt8.toNat_or]
  exact h.trans Nat.right_le_or

/-- What `holdsLess` makes of a lane. -/
def lessLane (bound x : UInt8) : UInt8 := ~~~((x ||| 0x80) - bound) &&& ~~~x &&& 0x80

/-- What `marksZero` makes of a lane. -/
def zeroLane (x : UInt8) : UInt8 := ~~~((x &&& ~~~0x80) + ~~~0x80 ||| x) &&& 0x80

variable {l : Octets}

/-- None of the lanes borrows. -/
theorem holds_holdsLess (hl : l.length = 8) {bound : UInt8} (h : bound ≤ 0x80) :
    Lanes.Holds l (holdsLess (Lanes.word l) bound.toUInt64) (lessLane bound) := by
  have hword := Lanes.holds_word hl
  have hlowered := ((hword.or (holds_high hl)).sub (Lanes.holds_const hl bound) fun x _ => le_or_high bound x h)
  exact (hlowered.not.and hword.not).and (holds_high hl)

/-- None of the lanes carries. -/
theorem holds_marksZero (hl : l.length = 8) (octet : UInt8) :
    Lanes.Holds l (marksZero (Lanes.word l ^^^ LOW * octet.toUInt64)) fun x => zeroLane (x ^^^ octet) := by
  have hword := (Lanes.holds_word hl).xor (Lanes.holds_const hl octet)
  have hhigh := holds_high (l := l) hl
  have hsum := (hword.and hhigh.not).add hhigh.not fun x _ => by
    rw [UInt8.toNat_and]
    exact Nat.lt_of_le_of_lt (Nat.add_le_add_right Nat.and_le_right _) (by decide)
  exact (hsum.or hword).not.and hhigh

/-! ## Checks of all words -/

section

variable {σ : Type} {f : σ → UInt64 → σ} {t : σ → Bool} {p : UInt8 → Bool} {text : Octets} {b : Bool}

/-- What the whole words show is what the octets show that they are made of. -/
theorem wholeWords_any (h : ∀ s (l : Octets), l.length = 8 → t (f s (Lanes.word l)) = (t s || l.any p)) {s : σ} {offset : ℕ}
    (hs : t s = (b || (text.take offset).any p)) (hle : offset ≤ text.length) :
    t (wholeWords f text s offset).1 = (b || (text.take (wholeWords f text s offset).2).any p) ∧
      (wholeWords f text s offset).2 ≤ text.length ∧ text.length < (wholeWords f text s offset).2 + LANES := by
  fun_induction wholeWords f text s offset with
  | case1 s offset hmore ih =>
    refine ih ?_ hmore
    rw [wordAt, h s _ (length_block hmore), hs, Bool.or_assoc, ← List.any_append, ← List.take_add]
  | case2 s offset hmore => exact ⟨hs, hle, Nat.not_le.1 hmore⟩

/-- What the words show, or the octets that were in none, is what all octets show. -/
theorem sweep_any (h : ∀ s (l : Octets), l.length = 8 → t (f s (Lanes.word l)) = (t s || l.any p)) (text : Octets) (s : σ) :
    (t (sweep f text s).1 || (text.drop (sweep f text s).2).any p) = (t s || text.any p) := by
  have hstart : t s = (t s || (text.take 0).any p) := by
    rw [List.take_zero, List.any_nil, Bool.or_false]
  obtain ⟨htest, hle, hlt⟩ := wholeWords_any h hstart (Nat.zero_le _)
  rw [sweep]
  generalize wholeWords f text s 0 = reached at htest hle hlt
  obtain ⟨s', offset⟩ := reached
  dsimp only at htest hle hlt ⊢
  split_ifs with hlast
  · have hlength : (text.drop (text.length - LANES)).length = 8 := by
      rw [List.length_drop, LANES] at *
      omega
    have hblock : (text.drop (text.length - LANES)).take LANES = text.drop (text.length - LANES) :=
      List.take_of_length_le (Nat.le_of_eq hlength)
    dsimp only
    rw [wordAt, hblock, h s' _ hlength, htest, List.drop_length, List.any_nil, Bool.or_false, Bool.or_assoc]
    -- The last word begins within what was taken in.
    refine congrArg (t s || ·) ?_
    have hsplit : text.drop (text.length - LANES) =
        (text.drop (text.length - LANES)).take (offset - (text.length - LANES)) ++ text.drop offset := by
      have hoffset : offset = text.length - LANES + (offset - (text.length - LANES)) := by omega
      conv_rhs => rw [hoffset, ← List.drop_drop, Nat.add_sub_cancel_left, List.take_append_drop]
    have hwithin : ((text.drop (text.length - LANES)).take (offset - (text.length - LANES))).any p = true →
        (text.take offset).any p = true := by
      rw [List.any_eq_true, List.any_eq_true]
      rintro ⟨x, hx, hp⟩
      refine ⟨x, ?_, hp⟩
      rw [← List.drop_take] at hx
      exact List.mem_of_mem_drop hx
    rw [hsplit, List.any_append, ← Bool.or_assoc]
    conv_rhs => rw [← List.take_append_drop offset text, List.any_append]
    cases hfront : (text.take offset).any p with
    | true => rfl
    | false =>
      rw [Bool.false_or]
      cases hpart : ((text.drop (text.length - LANES)).take (offset - (text.length - LANES))).any p with
      | true =>
        rw [hwithin hpart] at hfront
        cases hfront
      | false => rfl
  · dsimp only
    rw [htest, Bool.or_assoc, ← List.any_append, List.take_append_drop]

end

/-- A word that gains the marks of a word has marks where it had, or where a lane is marked. -/
theorem or_marks {l : Octets} {w : UInt64} {φ : UInt8 → UInt8} {p : UInt8 → Bool} (hw : Lanes.Holds l w φ)
    (hp : ∀ x, (φ x != 0) = p x) (marked : UInt64) : (marked ||| w != 0) = (marked != 0 || l.any p) := by
  rw [Bool.eq_iff_iff, bne_iff_ne, Bool.or_eq_true, bne_iff_ne, Ne, UInt64.or_eq_zero_iff, hw.eq_zero_iff, not_and_or,
    List.any_eq_true]
  refine or_congr_right ?_
  simp only [← hp, bne_iff_ne, not_forall, exists_prop]

/-! ## Field values -/

/-- The marks of a lane that is a control octet. -/
def controlLane (x : UInt8) : UInt8 := lessLane 0x20 x &&& ~~~zeroLane (x ^^^ 0x09) ||| zeroLane (x ^^^ 0x7f)

theorem controlLane_ne (x : UInt8) : (controlLane x != 0) = Scan.isControl x := by
  exact forall_octet (fun x => (controlLane x != 0) = Scan.isControl x) (by decide +kernel) x

theorem high_ne (x : UInt8) : (x &&& 0x80 != 0) = decide (0x80 ≤ x) := by
  exact forall_octet (fun x => (x &&& 0x80 != 0) = decide (0x80 ≤ x)) (by decide +kernel) x

theorem classify_control (marks : UInt64 × UInt64) (hl : l.length = 8) :
    ((classify marks (Lanes.word l)).1 != 0) = (marks.1 != 0 || l.any Scan.isControl) :=
  or_marks (((holds_holdsLess hl (by decide)).and (holds_marksZero hl 0x09).not).or (holds_marksZero hl 0x7f)) controlLane_ne _

theorem classify_obsText (marks : UInt64 × UInt64) (hl : l.length = 8) :
    ((classify marks (Lanes.word l)).2 != 0) = (marks.2 != 0 || l.any (0x80 ≤ ·)) :=
  or_marks ((Lanes.holds_word hl).and (holds_high hl)) high_ne _

theorem classifyFieldValue_fold (rest : Octets) (control obsText : Bool) :
    rest.foldl (fun ((control, obsText) : Bool × Bool) octet =>
      (control || (octet < 0x20 && octet != 0x09) || octet == 0x7f, obsText || 0x80 ≤ octet)) (control, obsText) =
      (control || rest.any Scan.isControl, obsText || rest.any (0x80 ≤ ·)) := by
  induction rest generalizing control obsText with
  | nil => rw [List.foldl_nil, List.any_nil, List.any_nil, Bool.or_false, Bool.or_false]
  | cons octet rest ih => rw [List.foldl_cons, ih, List.any_cons, List.any_cons, Scan.isControl, Bool.or_assoc, Bool.or_assoc,
      Bool.or_assoc, Bool.or_assoc]

theorem classifyFieldValue_eq (text : Octets) : classifyFieldValue text =
    (text.any Scan.isControl).toUInt8 ||| (text.any (0x80 ≤ ·)).toUInt8 <<< 1 := by
  have hcontrol := sweep_any (t := fun marks => marks.1 != 0) (fun marks _ hl => classify_control marks hl) text (0, 0)
  have hobsText := sweep_any (t := fun marks => marks.2 != 0) (fun marks _ hl => classify_obsText marks hl) text (0, 0)
  rw [classifyFieldValue]
  generalize sweep classify text (0, 0) = swept at hcontrol hobsText
  obtain ⟨⟨control, obsText⟩, offset⟩ := swept
  dsimp only at hcontrol hobsText ⊢
  rw [classifyFieldValue_fold, hcontrol, hobsText]
  rfl

/-! ## Visible octets -/

/-- The marks of a lane that is not visible. -/
def hiddenLane (x : UInt8) : UInt8 := lessLane 0x21 x ||| zeroLane (x ^^^ 0x7f)

theorem hiddenLane_ne (x : UInt8) : (hiddenLane x != 0) = !(0x20 < x && x != 0x7f) := by
  exact forall_octet (fun x => (hiddenLane x != 0) = !(0x20 < x && x != 0x7f)) (by decide +kernel) x

theorem hide_marks (marked : UInt64) (hl : l.length = 8) :
    (hide marked (Lanes.word l) != 0) = (marked != 0 || l.any fun x => !(0x20 < x && x != 0x7f)) :=
  or_marks ((holds_holdsLess hl (by decide)).or (holds_marksZero hl 0x7f)) hiddenLane_ne _

theorem allVisible_eq (text : Octets) : allVisible text = Scan.allVisible text := by
  have hhidden := sweep_any (t := fun marked => marked != 0) (fun marked _ hl => hide_marks marked hl) text 0
  rw [allVisible, Scan.allVisible, List.all_eq_not_any_not]
  generalize sweep hide text 0 = swept at hhidden
  obtain ⟨marked, offset⟩ := swept
  dsimp only at hhidden ⊢
  rw [List.all_eq_not_any_not, show (marked == 0) = !(marked != 0) from (Bool.not_not _).symm, ← Bool.not_or, hhidden]
  rfl

/-! ## Classes of octets -/

/-- A mask of one bit. -/
def OneBit (mask : UInt8) : Prop := ∃ k < 8, mask = .ofNat (2 ^ k)

/-- What an octet has in common with one bit. -/
theorem and_bit {k : ℕ} (hk : k < 8) (x : UInt8) : (x &&& .ofNat (2 ^ k) != 0) = x.toNat.testBit k := by
  have hbit : (UInt8.ofNat (2 ^ k)).toNat = 2 ^ k := Nat.mod_eq_of_lt (Nat.pow_lt_pow_right (by decide) hk)
  rw [Bool.eq_iff_iff, bne_iff_ne, Ne, ← UInt8.toNat_inj, UInt8.toNat_and, hbit, UInt8.toNat_zero, Nat.and_two_pow]
  cases x.toNat.testBit k <;> simp

/-- Two octets have a bit in common with a third where each of them has it. -/
theorem OneBit.meets {mask : UInt8} (h : OneBit mask) (x y : UInt8) :
    (x &&& y &&& mask != 0) = (x &&& mask != 0 && y &&& mask != 0) := by
  obtain ⟨k, hk, rfl⟩ := h
  rw [and_bit hk, and_bit hk, and_bit hk, UInt8.toNat_and, Nat.testBit_and]

theorem OneBit.fold {mask : UInt8} (h : OneBit mask) (table : Vector UInt8 256) (rest : Octets) (held : UInt8) :
    (rest.foldl (fun held octet => held &&& entry table octet) held &&& mask != 0) =
      (held &&& mask != 0 && rest.all fun octet => entry table octet &&& mask != 0) := by
  induction rest generalizing held with
  | nil => rw [List.foldl_nil, List.all_nil, Bool.and_true]
  | cons octet rest ih => rw [List.foldl_cons, ih, h.meets, List.all_cons, Bool.and_assoc]

/-- Eight entries at once are eight entries one after another. -/
theorem allOf_eq (table : Vector UInt8 256) (held : UInt8) {chunk : Octets} (h : chunk.length = 8) :
    allOf table held chunk = chunk.foldl (fun held octet => held &&& entry table octet) held := by
  match chunk, h with
  | [a, b, c, d, e, f, g, h], _ => simp only [allOf, List.getD_cons_zero, List.getD_cons_succ, List.foldl_cons, List.foldl_nil,
      UInt8.and_assoc]

theorem allInClass_eq {mask : UInt8} (h : OneBit mask) (text : Octets) (table : Vector UInt8 256) :
    allInClass text table mask = text.all fun octet => entry table octet &&& mask != 0 := by
  have hmask : (mask &&& mask != 0) = true := by
    obtain ⟨k, hk, rfl⟩ := h
    rw [and_bit hk]
    exact (congrArg (Nat.testBit · k) (Nat.mod_eq_of_lt (Nat.pow_lt_pow_right (by decide) hk))).trans (Nat.testBit_two_pow_self)
  have heat := Blocks.eat_foldl (s := mask) (l := text) (by decide : 0 < LANES) fun held chunk => allOf_eq table held
  rw [allInClass]
  dsimp only
  rw [heat, h.fold, hmask, Bool.true_and]

end Words

/-! ## Texts -/

namespace Text

/-- The longest string held without allocating. -/
def INLINE : ℕ := 30

/-- Copies a string into a fresh buffer, the rest of which is left zero. There is none for one
    too long, which the source takes for a mistake of the caller. -/
def copyInline (source : Octets) : Option Octets := Words.copyShort (List.replicate INLINE 0) source

/-- Whether two inline buffers hold the same octets. -/
def sameInline (left right : Octets) : Bool :=
  (Scan.load 16 left 0 ^^^ Scan.load 16 right 0) |||
    (Scan.load 16 left (INLINE - 16) ^^^ Scan.load 16 right (INLINE - 16)) == 0

/-- Where a text keeps its octets. -/
inductive Repr
  | inline (len : UInt8) (octets : Octets)
  | heap (text : Octets)
  deriving DecidableEq

namespace Repr

/-- The octets of the string held. -/
def asBytes : Repr → Octets
  | inline len octets => octets.take len.toNat
  | heap text => text

/-- The length in octets. -/
def len : Repr → ℕ
  | inline len _ => len.toNat
  | heap text => text.length

/-- Whether two texts are the same. -/
def eq : Repr → Repr → Bool
  | inline len octets, inline otherLen other => len == otherLen && sameInline octets other
  | left, right => left.len == right.len && left.asBytes == right.asBytes

/-- A buffer is as wide as it should be, and zero past its length. -/
def Sound : Repr → Prop
  | inline len octets => octets.length = INLINE ∧ len.toNat ≤ INLINE ∧
      octets.drop len.toNat = List.replicate (INLINE - len.toNat) 0
  | heap _ => True

end Repr

/-- A text as it is kept. -/
structure Kept where
  repr : Repr
  sound : repr.Sound

/-- The buffer a string is copied into. -/
theorem copyInline_eq (source : Octets) : copyInline source =
    if source.length ≤ INLINE then some (source ++ List.replicate (INLINE - source.length) 0) else none := by
  by_cases hlong : source.length ≤ 32
  · rw [copyInline, Words.copyShort_eq hlong, Words.copied, List.length_replicate, List.drop_replicate]
  · have hwide : 16 ≤ source.length := by omega
    have hnone : ¬ source.length ≤ INLINE := by
      rw [INLINE]
      omega
    rw [if_neg hnone, copyInline, Words.copyShort, if_pos hwide, Words.copyEnds, Words.splice_zero, Words.copied, List.length_take_of_le hwide, List.length_replicate,
      if_pos (by decide), Option.bind_eq_bind, Option.bind_some, Words.splice, if_neg]
    rw [List.length_drop, List.length_append, List.length_take_of_le hwide, List.length_drop, List.length_replicate]
    rw [INLINE] at *
    omega

theorem sameInline_iff {left right : Octets} (hleft : left.length = INLINE) (hright : right.length = INLINE) :
    sameInline left right = true ↔ left = right := by
  have hwidth : 16 ≤ left.length := hleft ▸ (by decide)
  have hends : left.length ≤ 2 * 16 := hleft ▸ (by decide)
  have hdiffer := Scan.differ_iff (hleft.trans hright.symm) hwidth hends
  rw [Scan.differ, hleft] at hdiffer
  rw [sameInline, beq_iff_eq, hdiffer]

theorem Repr.length_asBytes {r : Repr} (h : r.Sound) : r.asBytes.length = r.len := by
  cases r with
  | inline len octets => exact List.length_take_of_le (h.1 ▸ h.2.1)
  | heap text => rfl

namespace Kept

/-- Copies a string, keeping it in the value itself where it is short enough. -/
def fromStr (text : Octets) : Kept :=
  if h : text.length ≤ INLINE then {
    repr := .inline (.ofNat text.length) ((copyInline text).getD [])
    sound := by
      have hlength : (UInt8.ofNat text.length).toNat = text.length := Nat.mod_eq_of_lt (Nat.lt_of_le_of_lt h (by decide))
      rw [copyInline_eq, if_pos h, Option.getD_some, Repr.Sound, hlength, List.length_append, List.length_replicate,
        Nat.add_sub_cancel' h, List.drop_left]
      exact ⟨rfl, h, rfl⟩ }
  else ⟨.heap text, trivial⟩

/-- Lower-cases the ASCII letters in place. -/
def makeAsciiLowercase (kept : Kept) : Kept :=
  match kept with
  | ⟨.inline len octets, h⟩ => {
    repr := .inline len ((octets.take len.toNat).map Str.lower ++ octets.drop len.toNat)
    sound := by
      obtain ⟨hlength, hle, hzero⟩ := h
      have hlive : ((octets.take len.toNat).map Str.lower).length = len.toNat := by
        rw [List.length_map, List.length_take_of_le (hlength ▸ hle)]
      refine ⟨?_, hle, ?_⟩
      · rw [List.length_append, hlive, List.length_drop, hlength, Nat.add_sub_cancel' hle]
      · rw [List.drop_append_of_le_length (Nat.le_of_eq hlive.symm), List.drop_of_length_le (Nat.le_of_eq hlive), List.nil_append,
          hzero] }
  | ⟨.heap text, _⟩ => ⟨.heap (text.map Str.lower), trivial⟩

theorem asBytes_fromStr (text : Octets) : (fromStr text).repr.asBytes = text := by
  rw [fromStr]
  split_ifs with h
  · have hlength : (UInt8.ofNat text.length).toNat = text.length := Nat.mod_eq_of_lt (Nat.lt_of_le_of_lt h (by decide))
    rw [Repr.asBytes, hlength, copyInline_eq, if_pos h, Option.getD_some, List.take_left]
  · rfl

theorem asBytes_makeAsciiLowercase (kept : Kept) :
    kept.makeAsciiLowercase.repr.asBytes = kept.repr.asBytes.map Str.lower := by
  obtain ⟨⟨len, octets⟩ | text, h⟩ := kept
  · have hlive : ((octets.take len.toNat).map Str.lower).length = len.toNat := by
      rw [List.length_map, List.length_take_of_le (h.1 ▸ h.2.1)]
    rw [makeAsciiLowercase, Repr.asBytes, Repr.asBytes, List.take_append_of_le_length (Nat.le_of_eq hlive.symm),
      List.take_of_length_le (Nat.le_of_eq hlive)]
  · rfl

/-- What is past the length of a buffer makes no difference between two texts. -/
theorem eq_iff (left right : Kept) : left.repr.eq right.repr = true ↔ left.repr.asBytes = right.repr.asBytes := by
  -- Where the lengths are asked for and then the octets, the octets settle it.
  have hlong {a b : Repr} (ha : a.Sound) (hb : b.Sound) :
      (a.len == b.len && a.asBytes == b.asBytes) = true ↔ a.asBytes = b.asBytes := by
    rw [Bool.and_eq_true, beq_iff_eq, beq_iff_eq, ← Repr.length_asBytes ha, ← Repr.length_asBytes hb]
    exact ⟨And.right, fun h => ⟨congrArg List.length h, h⟩⟩
  obtain ⟨⟨len, octets⟩ | text, hl⟩ := left
  · obtain ⟨⟨otherLen, other⟩ | text, hr⟩ := right
    · rw [Repr.eq, Bool.and_eq_true, beq_iff_eq, sameInline_iff hl.1 hr.1]
      constructor
      · rintro ⟨rfl, rfl⟩
        rfl
      · intro h
        have hlen : len = otherLen := by
          have hlengths := congrArg List.length h
          rw [Repr.length_asBytes hl, Repr.length_asBytes hr] at hlengths
          exact UInt8.toNat_inj.1 hlengths
        subst hlen
        refine ⟨rfl, ?_⟩
        rw [← List.take_append_drop len.toNat octets, ← List.take_append_drop len.toNat other, hl.2.2, hr.2.2]
        exact congrArg (· ++ _) h
    · exact hlong hl hr
  · exact hlong hl right.sound

end Kept

end Text

namespace Words

/-- Every scan that goes a word at a time answers as its octet by octet definition does, and a
    text is copied and compared as its octets are. -/
theorem words_exact :
    (∀ haystack needle, find haystack needle = Scan.find haystack needle) ∧
    (∀ left right, Scan.same left right = (left == right)) ∧
    (∀ destination source, copy destination source =
      if source.length ≤ destination.length then some (source ++ destination.drop source.length) else none) ∧
    (∀ text, classifyFieldValue text = (text.any Scan.isControl).toUInt8 ||| (text.any (0x80 ≤ ·)).toUInt8 <<< 1) ∧
    (∀ text, allVisible text = Scan.allVisible text) ∧
    (∀ text table, ∀ k : Fin 8, allInClass text table (.ofNat (2 ^ k.val)) =
      text.all fun octet => entry table octet &&& .ofNat (2 ^ k.val) != 0) ∧
    (∀ source, Text.copyInline source =
      if source.length ≤ Text.INLINE then some (source ++ List.replicate (Text.INLINE - source.length) 0) else none) ∧
    (∀ text, (Text.Kept.fromStr text).repr.asBytes = text) ∧
    ∀ left right : Text.Kept, left.repr.eq right.repr = (left.repr.asBytes == right.repr.asBytes) := by
  refine ⟨find_eq, fun left right => ?_, copy_eq, classifyFieldValue_eq, allVisible_eq, fun text table k =>
    allInClass_eq ⟨k, k.isLt, rfl⟩ text table, Text.copyInline_eq, Text.Kept.asBytes_fromStr, fun left right => ?_⟩
  · rw [Bool.eq_iff_iff, Scan.same_iff, beq_iff_eq]
  · rw [Bool.eq_iff_iff, Text.Kept.eq_iff, beq_iff_eq]

end Words

end Soyokaze

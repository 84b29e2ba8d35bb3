import Soyokaze.Helpers.Addr
import Soyokaze.Lib.Numeral

/-!
# What strings are cut into

The pieces of a string, what is left of it without the white space around it, and the number
that is written in it.

* `Str.split_join`: pieces that were put together are those a string is cut into;
* `Str.splitOnceAt_append`, `Str.first_of_splitOnceAt`: a string is cut where a pattern is first;
* `Str.trim_eq_self_iff`: what has no white space to lose;
* `Number.decimal_spells`: what is written of a number is read back.
-/

namespace Soyokaze

namespace Str

/-! ## Pieces -/

theorem split_of_notMem {separator : UInt8} {text : Octets} (h : separator ∉ text) : split text separator = [text] := by
  induction text with
  | nil => rfl
  | cons octet text ih =>
    rw [List.mem_cons, not_or] at h
    exact split_cons (Ne.symm h.1) (ih h.2)

/-- Pieces that the separator is in none of are found again. -/
theorem split_join {separator : UInt8} {piece : Octets} {pieces : List Octets} (h : separator ∉ piece)
    (hpieces : ∀ piece ∈ pieces, separator ∉ piece) :
    split (piece ++ pieces.flatMap (separator :: ·)) separator = piece :: pieces := by
  induction pieces generalizing piece with
  | nil => rw [List.flatMap_nil, List.append_nil, split_of_notMem h]
  | cons next pieces ih =>
    obtain ⟨hnext, hrest⟩ := List.forall_mem_cons.1 hpieces
    rw [List.flatMap_cons, List.cons_append, split_append, split_of_notMem h, ih hnext hrest]
    rfl

/-- The separator is in none of the pieces. -/
theorem notMem_of_split {separator : UInt8} {text piece : Octets} (h : piece ∈ split text separator) : separator ∉ piece := by
  induction text generalizing piece with
  | nil =>
    rw [split, List.foldr_nil, List.mem_singleton] at h
    rw [h]
    exact List.not_mem_nil
  | cons octet text ih =>
    by_cases hoctet : octet = separator
    · rw [hoctet, split_separator, List.mem_cons] at h
      rcases h with rfl | h
      · exact List.not_mem_nil
      · exact ih h
    · obtain ⟨first, pieces, hsplit⟩ := exists_split text separator
      rw [split_cons hoctet hsplit, List.mem_cons] at h
      rw [hsplit] at ih
      rcases h with rfl | h
      · rw [List.mem_cons, not_or]
        exact ⟨Ne.symm hoctet, ih List.mem_cons_self⟩
      · exact ih (List.mem_cons_of_mem _ h)

theorem find_of_notMem {needle : UInt8} {before behind : Octets} (h : needle ∉ before) :
    Scan.find (before ++ needle :: behind) needle = some before.length := by
  refine Scan.find_eq_some_iff.2 ⟨by simp, fun j hj hget => h ?_⟩
  rw [List.getElem?_append_left hj] at hget
  exact List.mem_of_getElem? hget

/-- A string is cut at the first separator. -/
theorem splitOnce_append {separator : UInt8} {before behind : Octets} (h : separator ∉ before) :
    splitOnce (before ++ separator :: behind) separator = some (before, behind) := by
  rw [splitOnce, find_of_notMem h, Option.map_some, List.take_left, ← List.drop_drop, List.drop_left]
  rfl

theorem splitOnce_of_notMem {separator : UInt8} {text : Octets} (h : separator ∉ text) : splitOnce text separator = none := by
  rw [splitOnce, Scan.find_eq_none_iff.2 h]
  rfl

/-- What comes before the last separator, and what behind it. -/
def rsplitOnce (text : Octets) (separator : UInt8) : Option (Octets × Octets) :=
  (splitOnce text.reverse separator).map fun (behind, before) => (before.reverse, behind.reverse)

theorem rsplitOnce_append {separator : UInt8} {before behind : Octets} (h : separator ∉ behind) :
    rsplitOnce (before ++ separator :: behind) separator = some (before, behind) := by
  have hreverse : (before ++ separator :: behind).reverse = behind.reverse ++ separator :: before.reverse := by simp
  rw [rsplitOnce, hreverse, splitOnce_append (by rwa [List.mem_reverse]), Option.map_some]
  simp only [List.reverse_reverse]

theorem rsplitOnce_of_notMem {separator : UInt8} {text : Octets} (h : separator ∉ text) : rsplitOnce text separator = none := by
  rw [rsplitOnce, splitOnce_of_notMem (by rwa [List.mem_reverse])]
  rfl

/-- A string with a separator in it has a last one. -/
theorem exists_last {separator : UInt8} {text : Octets} (h : separator ∈ text) :
    ∃ before behind, text = before ++ separator :: behind ∧ separator ∉ behind := by
  obtain ⟨behind, before, hreverse, hbehind⟩ := List.eq_append_cons_of_mem (List.mem_reverse.2 h)
  refine ⟨before.reverse, behind.reverse, ?_, by rwa [List.mem_reverse]⟩
  rw [← List.reverse_reverse text, hreverse]
  simp

/-- What a string ends in behind its last separator is the last of its pieces. -/
theorem getLast?_split_append {separator : UInt8} {before behind : Octets} (h : separator ∉ behind) :
    (split (before ++ separator :: behind) separator).getLast? = some behind := by
  rw [split_append, split_of_notMem h, List.getLast?_append]
  rfl

/-- What a string is cut into at the first separator. -/
theorem splitOnce_eq_some {separator : UInt8} {text before behind : Octets} :
    splitOnce text separator = some (before, behind) ↔ text = before ++ separator :: behind ∧ separator ∉ before := by
  constructor
  · intro h
    by_cases hmem : separator ∈ text
    · obtain ⟨first, rest, rfl, hfirst⟩ := List.eq_append_cons_of_mem hmem
      rw [splitOnce_append hfirst] at h
      cases h
      exact ⟨rfl, hfirst⟩
    · rw [splitOnce_of_notMem hmem] at h
      cases h
  · rintro ⟨rfl, h⟩
    exact splitOnce_append h

/-- And at the last one. -/
theorem rsplitOnce_eq_some {separator : UInt8} {text before behind : Octets} :
    rsplitOnce text separator = some (before, behind) ↔ text = before ++ separator :: behind ∧ separator ∉ behind := by
  constructor
  · intro h
    by_cases hmem : separator ∈ text
    · obtain ⟨first, rest, rfl, hrest⟩ := exists_last hmem
      rw [rsplitOnce_append hrest] at h
      cases h
      exact ⟨rfl, hrest⟩
    · rw [rsplitOnce_of_notMem hmem] at h
      cases h
  · rintro ⟨rfl, h⟩
    exact rsplitOnce_append h

/-! ## Patterns -/

/-- What comes before the first place that a pattern is at, and what behind it. -/
def splitOnceAt (pattern : Octets) : Octets → Option (Octets × Octets)
  | [] => if pattern.isPrefixOf [] then some ([], []) else none
  | octet :: text =>
    if pattern.isPrefixOf (octet :: text) then some ([], (octet :: text).drop pattern.length)
    else (splitOnceAt pattern text).map fun (before, behind) => (octet :: before, behind)

/-- Where a pattern is put behind a string, it is at no place before that. -/
def First (pattern string : Octets) : Prop := ∀ before behind, string ++ pattern = before ++ pattern ++ behind → behind = []

attribute [local simp] splitOnceAt in
theorem splitOnceAt_prefix (pattern behind : Octets) : splitOnceAt pattern (pattern ++ behind) = some ([], behind) := by
  have hfront : pattern.isPrefixOf (pattern ++ behind) = true := List.isPrefixOf_iff_prefix.2 (List.prefix_append ..)
  cases htext : pattern ++ behind with
  | nil =>
    obtain ⟨rfl, rfl⟩ := List.append_eq_nil_iff.1 htext
    simp
  | cons octet text =>
    rw [htext] at hfront
    rw [splitOnceAt, if_pos hfront, ← htext, List.drop_left]

theorem First.tail {pattern string : Octets} {octet : UInt8} (h : First pattern (octet :: string)) : First pattern string :=
  fun before behind hbefore => h (octet :: before) behind (by
    rw [List.cons_append, hbefore]
    rfl)

/-- A string is cut at the first place that the pattern is at. -/
theorem splitOnceAt_append {pattern before : Octets} (h : First pattern before) (behind : Octets) :
    splitOnceAt pattern (before ++ pattern ++ behind) = some (before, behind) := by
  induction before with
  | nil => exact splitOnceAt_prefix pattern behind
  | cons octet before ih =>
    have hnot : ¬ pattern <+: octet :: (before ++ pattern ++ behind) := fun hfront => by
      -- The pattern would be at the front of what it is put behind.
      have hfront : pattern <+: octet :: before ++ pattern :=
        List.prefix_of_prefix_length_le hfront (List.prefix_append (octet :: before ++ pattern) behind)
          (List.suffix_append (octet :: before) pattern).length_le
      obtain ⟨rest, hrest⟩ := hfront
      have hnil := h [] rest hrest.symm
      rw [hnil, List.append_nil] at hrest
      have hlength := congrArg List.length hrest
      rw [List.length_append, List.length_cons] at hlength
      omega
    rw [List.cons_append, List.cons_append, splitOnceAt, if_neg (by rwa [List.isPrefixOf_iff_prefix]), ih h.tail]
    rfl

/-- Which is the only way to cut it. -/
theorem first_of_splitOnceAt {pattern text before behind : Octets} (h : splitOnceAt pattern text = some (before, behind)) :
    text = before ++ pattern ++ behind ∧ First pattern before := by
  have hfirst : First pattern [] := fun before behind hbefore => by
    have := congrArg List.length hbefore
    simp only [List.length_append, List.length_nil] at this
    exact List.eq_nil_of_length_eq_zero (by omega)
  induction text generalizing before with
  | nil =>
    rw [splitOnceAt] at h
    split_ifs at h with hfront
    cases h
    rw [List.isPrefixOf_iff_prefix, List.prefix_nil] at hfront
    rw [hfront] at hfirst ⊢
    exact ⟨rfl, hfirst⟩
  | cons octet text ih =>
    rw [splitOnceAt] at h
    split_ifs at h with hfront
    · cases h
      obtain ⟨rest, hrest⟩ := List.isPrefixOf_iff_prefix.1 hfront
      rw [← hrest, List.drop_left]
      exact ⟨rfl, hfirst⟩
    · obtain ⟨⟨later, rest⟩, hlater, hbefore⟩ := Option.map_eq_some_iff.1 h
      cases hbefore
      obtain ⟨rfl, htail⟩ := ih hlater
      refine ⟨rfl, fun before behind' hbefore => ?_⟩
      cases before with
      | nil =>
        -- The pattern would be at the front, where it was looked for first.
        refine absurd (List.isPrefixOf_iff_prefix.2 ?_) hfront
        refine List.IsPrefix.trans ⟨behind', hbefore.symm⟩ ⟨behind, ?_⟩
        rfl
      | cons first before => exact htail before behind' (List.cons.inj hbefore).2

/-- Where a pattern is first does not depend on octets that are none of it. -/
theorem First.map {pattern string : Octets} (h : First pattern string) {f : UInt8 → UInt8}
    (hf : ∀ octet ∈ pattern, ∀ other, f other = octet ↔ other = octet) : First pattern (string.map f) := by
  have hmap : ∀ piece : Octets, piece.map f = pattern ↔ piece = pattern := by
    clear h
    induction pattern with
    | nil => simp
    | cons octet pattern ih =>
      intro piece
      cases piece with
      | nil => simp
      | cons other piece =>
        rw [List.map_cons, List.cons.injEq, List.cons.injEq, hf octet List.mem_cons_self,
          ih fun octet hmem => hf octet (List.mem_cons_of_mem _ hmem)]
  intro before behind hbefore
  have hself : pattern.map f = pattern := (hmap pattern).2 rfl
  rw [← hself, ← List.map_append, hself, List.map_eq_append_iff] at hbefore
  obtain ⟨first, behind, hstring, hfirst, rfl⟩ := hbefore
  obtain ⟨before, piece, rfl, rfl, hpiece⟩ := List.map_eq_append_iff.1 hfirst
  obtain rfl := (hmap piece).1 hpiece
  rw [h before behind hstring, List.map_nil]

/-! ## White space -/

/-- No white space at the front. -/
def StartBare (text : Octets) : Prop := ∀ space ∈ WHITE_SPACE, ¬ space <+: text

/-- No white space at the back. -/
def EndBare (text : Octets) : Prop := ∀ space ∈ WHITE_SPACE, ¬ space <:+ text

theorem white_space_ne_nil {space : Octets} (h : space ∈ WHITE_SPACE) : 0 < space.length := by
  have hall : ∀ space ∈ WHITE_SPACE, 0 < space.length := by decide
  exact hall space h

attribute [local simp] trimStart in
theorem trimStart_of_bare {text : Octets} (h : StartBare text) (fuel : ℕ) : trimStart fuel text = text := by
  cases fuel with
  | zero => rfl
  | succ fuel =>
    have hnone : WHITE_SPACE.find? (·.isPrefixOf text) = none :=
      List.find?_eq_none.2 fun space hspace hfront => h space hspace (List.isPrefixOf_iff_prefix.1 hfront)
    simp [hnone]

attribute [local simp] trimEnd in
theorem trimEnd_of_bare {text : Octets} (h : EndBare text) (fuel : ℕ) : trimEnd fuel text = text := by
  cases fuel with
  | zero => rfl
  | succ fuel =>
    have hnone : WHITE_SPACE.find? (·.isSuffixOf text) = none :=
      List.find?_eq_none.2 fun space hspace hsuffix => h space hspace (List.isSuffixOf_iff_suffix.1 hsuffix)
    simp [hnone]

theorem startBare_trimStart {fuel : ℕ} {text : Octets} (h : text.length ≤ fuel) : StartBare (trimStart fuel text) := by
  induction fuel generalizing text with
  | zero =>
    obtain rfl := List.eq_nil_of_length_eq_zero (Nat.le_zero.1 h)
    intro space hspace hfront
    exact absurd (white_space_ne_nil hspace) (by rw [List.prefix_nil.1 hfront]; decide)
  | succ fuel ih =>
    rw [trimStart]
    cases hfind : WHITE_SPACE.find? (·.isPrefixOf text) with
    | none =>
      exact fun space hspace hfront => List.find?_eq_none.1 hfind space hspace (List.isPrefixOf_iff_prefix.2 hfront)
    | some space =>
      have hpos := white_space_ne_nil (List.mem_of_find?_eq_some hfind)
      refine ih ?_
      rw [List.length_drop]
      omega

theorem endBare_trimEnd {fuel : ℕ} {text : Octets} (h : text.length ≤ fuel) : EndBare (trimEnd fuel text) := by
  induction fuel generalizing text with
  | zero =>
    obtain rfl := List.eq_nil_of_length_eq_zero (Nat.le_zero.1 h)
    intro space hspace hsuffix
    exact absurd (white_space_ne_nil hspace) (by rw [List.suffix_nil.1 hsuffix]; decide)
  | succ fuel ih =>
    rw [trimEnd]
    cases hfind : WHITE_SPACE.find? (·.isSuffixOf text) with
    | none =>
      exact fun space hspace hsuffix => List.find?_eq_none.1 hfind space hspace (List.isSuffixOf_iff_suffix.2 hsuffix)
    | some space =>
      have hpos := white_space_ne_nil (List.mem_of_find?_eq_some hfind)
      refine ih ?_
      rw [List.length_take]
      omega

theorem trimStart_suffix (fuel : ℕ) (text : Octets) : trimStart fuel text <:+ text := by
  induction fuel generalizing text with
  | zero => exact List.suffix_rfl
  | succ fuel ih =>
    rw [trimStart]
    split
    · exact (ih _).trans (List.drop_suffix _ _)
    · exact List.suffix_rfl

theorem trimEnd_front (fuel : ℕ) (text : Octets) : trimEnd fuel text <+: text := by
  induction fuel generalizing text with
  | zero => exact List.prefix_rfl
  | succ fuel ih =>
    rw [trimEnd]
    split
    · exact (ih _).trans (List.take_prefix _ _)
    · exact List.prefix_rfl

theorem trim_infix (text : Octets) : trim text <:+: text :=
  (trimEnd_front _ _).isInfix.trans (trimStart_suffix _ text).isInfix

theorem startBare_trim (text : Octets) : StartBare (trim text) := fun space hspace hfront =>
  startBare_trimStart (Nat.le_refl _) space hspace (hfront.trans (trimEnd_front _ _))

theorem endBare_trim (text : Octets) : EndBare (trim text) := endBare_trimEnd (Nat.le_refl _)

theorem trim_of_bare {text : Octets} (hstart : StartBare text) (hend : EndBare text) : trim text = text := by
  rw [trim, trimStart_of_bare hstart]
  exact trimEnd_of_bare hend _

/-- What has no white space around it. -/
theorem trim_eq_self_iff {text : Octets} : trim text = text ↔ StartBare text ∧ EndBare text :=
  ⟨fun h => h ▸ ⟨startBare_trim text, endBare_trim text⟩, fun h => trim_of_bare h.1 h.2⟩

theorem trim_trim (text : Octets) : trim (trim text) = trim text := trim_of_bare (startBare_trim text) (endBare_trim text)

/-- What is printed begins and ends with no white space. -/
theorem trim_of_printed {text : Octets} (h : ∀ octet ∈ text, 0x20 < octet ∧ octet < 0x7f) : trim text = text := by
  have hspace : ∀ space ∈ WHITE_SPACE, ∃ octet ∈ space, ¬ (0x20 < octet ∧ octet < 0x7f) := by decide
  refine trim_of_bare (fun space hmem hfront => ?_) fun space hmem hsuffix => ?_
  · obtain ⟨octet, hoctet, hnot⟩ := hspace space hmem
    exact hnot (h octet (hfront.subset hoctet))
  · obtain ⟨octet, hoctet, hnot⟩ := hspace space hmem
    exact hnot (h octet (hsuffix.subset hoctet))

/-! ## Digits and letters -/

theorem printed_of_digits {text : Octets} (h : text.all isDigit = true) : ∀ octet ∈ text, 0x20 < octet ∧ octet < 0x7f := by
  intro octet hoctet
  have hdigit := List.all_eq_true.1 h octet hoctet
  rw [isDigit, Bool.and_eq_true, decide_eq_true_eq, decide_eq_true_eq] at hdigit
  exact ⟨UInt8.lt_of_lt_of_le (by decide) hdigit.1, UInt8.lt_of_le_of_lt hdigit.2 (by decide)⟩

/-- Letters in lower case are the only octets that others are put in lower case as. -/
theorem lower_eq_iff {octet other : UInt8} (h : octet < 0x41) : lower other = octet ↔ other = octet := by
  rw [UInt8.lt_iff_toNat_lt] at h
  rw [lower]
  split_ifs with hletter
  · simp only [UInt8.le_iff_toNat_le] at hletter
    constructor
    · rintro rfl
      rw [UInt8.toNat_add] at h
      simp at h hletter
      omega
    · rintro rfl
      simp at h hletter
      omega
  · rfl

theorem lower_lower (octet : UInt8) : lower (lower octet) = lower octet := by
  unfold lower
  split_ifs with h hagain
  · simp only [UInt8.le_iff_toNat_le, UInt8.toNat_add] at h hagain
    simp at h hagain
    omega
  · rfl
  · rfl

theorem toAsciiLowercase_toAsciiLowercase (text : Octets) : toAsciiLowercase (toAsciiLowercase text) = toAsciiLowercase text := by
  rw [toAsciiLowercase, toAsciiLowercase, List.map_map]
  exact List.map_congr_left fun octet _ => lower_lower octet

end Str

/-! ## Numbers -/

/-- Digits are a text. -/
theorem Text.octets_of_digits {digits : Octets} (h : digits.all Str.isDigit = true) :
    (fromUtf8Lossy digits).octets = digits := by
  have hascii : digits.all (· < 0x80) = true := by
    rw [List.all_eq_true] at h ⊢
    intro octet hoctet
    have hdigit := h octet hoctet
    have hlast : (0x39 : UInt8).toNat = 57 := rfl
    have hbound : (0x80 : UInt8).toNat = 128 := rfl
    simp only [Str.isDigit, Bool.and_eq_true, decide_eq_true_eq, UInt8.le_iff_toNat_le, UInt8.lt_iff_toNat_lt] at hdigit ⊢
    omega
  rw [Text.fromUtf8Lossy, dif_pos (Utf8.valid_of_ascii hascii)]

namespace Number

theorem decimalLoop_eq (fuel value : ℕ) (digits : Octets) :
    decimalLoop fuel value digits = Numeral.write 10 (fun n => .ofNat (0x30 + n)) fuel value digits := by
  induction fuel generalizing value digits with
  | zero => rfl
  | succ fuel ih => rw [decimalLoop, Numeral.write, ih]

/-- What is written of a number is digits, and is read back. -/
theorem decimal_spells {value : ℕ} (h : value < 10 ^ 20) :
    decimal value ≠ [] ∧ (decimal value).all Str.isDigit = true ∧ Str.decimal (decimal value) = value := by
  have hdigit : ∀ n < 10, (UInt8.ofNat (0x30 + n)).toNat - 0x30 = n := by decide
  obtain ⟨digits, hwritten, hne, -, hread⟩ := @Numeral.exists_write _ 10 (fun n => UInt8.ofNat (0x30 + n))
    (fun octet => octet.toNat - 0x30) (by decide) hdigit _ _ [] h (by decide)
  rw [List.append_nil, ← decimalLoop_eq, ← decimal] at hwritten
  rw [← hwritten] at hne hread
  refine ⟨hne, decimal_digits value, ?_⟩
  rw [Str.decimal, Str.number, List.foldl_map]
  exact hread

end Number

end Soyokaze

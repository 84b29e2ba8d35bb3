import Soyokaze.Protocol.H1.Ceiling

/-!
# What an HTTP/1 reader waits for

A connection waits for the end of a line, for the blank line that ends a section,
and for a chunk, and remembers of the first two how far it has looked. Here each
look is one from the front, and the exact streams are found at which every
beginning that is looked at alone gets the answer of the whole (`Source.Steady`).

* `Line.steady_iff`, `Field.steady_iff`, `H1Connection.chunk_steady`: a line is
  looked at steadily unless its LF lies past the limit but the line does not, and
  is not what ends in LF alone; a section, unless its lines are of the very number
  of octets allowed; a chunk, if its size line is within the limit.
-/

namespace Soyokaze

open Source

/-! ## Lines -/

theorem Scan.find_drop {data : Octets} {needle : UInt8} {k : ℕ} (h : ∀ i < k, data[i]? ≠ some needle) :
    find data needle = (find (data.drop k) needle).map (k + ·) := by
  cases hfind : find (data.drop k) needle with
  | none =>
    rw [find_eq_none_iff] at hfind
    rw [Option.map_none, find_eq_none_iff]
    intro hmem
    obtain ⟨i, hi⟩ := List.mem_iff_getElem?.1 hmem
    by_cases hlt : i < k
    · exact h i hlt hi
    · refine hfind (List.mem_iff_getElem?.2 ⟨i - k, ?_⟩)
      rw [List.getElem?_drop, Nat.add_sub_cancel' (Nat.not_lt.1 hlt), hi]
  | some offset =>
    obtain ⟨hat, hbefore⟩ := find_eq_some_iff.1 hfind
    rw [List.getElem?_drop] at hat
    refine find_eq_some_iff.2 ⟨hat, fun i hi => ?_⟩
    by_cases hlt : i < k
    · exact h i hlt
    · have := hbefore (i - k) (Nat.sub_lt_left_of_lt_add (Nat.not_lt.1 hlt) hi)
      rwa [List.getElem?_drop, Nat.add_sub_cancel' (Nat.not_lt.1 hlt)] at this

/-- An octet that is found is found in every beginning that is long enough. -/
theorem Scan.find_prefix {front total : Octets} {needle : UInt8} {i : ℕ} (hfront : front <+: total)
    (h : find total needle = some i) (hlen : i < front.length) : find front needle = some i := by
  obtain ⟨rest, rfl⟩ := hfront
  obtain ⟨hat, hbefore⟩ := find_eq_some_iff.1 h
  refine find_eq_some_iff.2 ⟨by rwa [List.getElem?_append_left hlen] at hat, fun j hj => ?_⟩
  have := hbefore j hj
  rwa [List.getElem?_append_left (hj.trans hlen)] at this

theorem Scan.find_of_prefix {front total : Octets} {needle : UInt8} {i : ℕ} (hfront : front <+: total)
    (h : find front needle = some i) : find total needle = some i := by
  obtain ⟨rest, rfl⟩ := hfront
  exact find_append h rest

namespace Line

/-- The error of a line past the limit. -/
def tooLong (max : ℕ) : Error := .limit "line exceeds {max} octets" [.number max]

/-- The end of a line, looked for from the front. -/
def lookFront (max : ℕ) (data : Octets) : Option (Except Error ℕ) := (look max 0 data).1

theorem look_fst {max searched : ℕ} {data : Octets} (h : ∀ i < searched, data[i]? ≠ some 0x0a) :
    (look max searched data).1 = lookFront max data := by
  rw [lookFront, look, look, List.drop_zero, Scan.find_drop h]
  cases Scan.find (data.drop searched) 0x0a with
  | none => rw [Option.map_none]
  | some offset =>
    rw [Option.map_some]
    dsimp only
    rw [Nat.zero_add]
    split_ifs <;> rfl

theorem look_snd {max searched : ℕ} {data : Octets} (h : ∀ i < searched, data[i]? ≠ some 0x0a) :
    ∀ i < (look max searched data).2, data[i]? ≠ some 0x0a := by
  rw [look]
  cases hfind : Scan.find (data.drop searched) 0x0a with
  | some offset =>
    dsimp only
    split_ifs <;> exact h
  | none =>
    intro i _ hi
    have hnone : Scan.find data 0x0a = none := by rw [Scan.find_drop h, hfind, Option.map_none]
    exact Scan.find_eq_none_iff.1 hnone (List.mem_of_getElem? hi)

/-- How far was looked never hides the end of a line. -/
theorem end'_eq (max : ℕ) (s : Source Error UInt8) : end' max s = s.await (lookFront max) (.error .closed) := by
  refine awaitWith_eq_await (fun searched data => searched ≤ data.length ∧ ∀ i < searched, data[i]? ≠ some 0x0a) ?_
    ⟨Nat.zero_le _, fun i hi => absurd hi (Nat.not_lt_zero i)⟩ s
  rintro searched data more ⟨hlen, h⟩
  have hmore : ∀ i < searched, (data ++ more)[i]? ≠ some 0x0a := fun i hi => by
    rw [List.getElem?_append_left (Nat.lt_of_lt_of_le hi hlen)]
    exact h i hi
  refine ⟨look_fst hmore, ?_, look_snd hmore⟩
  rw [look]
  split
  · dsimp only
    have : (data ++ more).length = data.length + more.length := List.length_append
    split_ifs <;> omega
  · split_ifs <;> exact Nat.le_refl _

theorem lookFront_none {max : ℕ} {data : Octets} (h : Scan.find data 0x0a = none) :
    lookFront max data = if max < data.length then some (.error (tooLong max)) else none := by
  rw [lookFront, look, List.drop_zero, h]
  dsimp only
  split_ifs <;> rfl

theorem lookFront_some {max e : ℕ} {data : Octets} (h : Scan.find data 0x0a = some e) :
    lookFront max data = some (if e = 0 ∨ data[e - 1]? ≠ some 0x0d then
      .error (.protocol "line is not terminated by CRLF" [])
      else if max < e - 1 then .error (tooLong max) else .ok (e - 1)) := by
  rw [lookFront, look, List.drop_zero, h]
  dsimp only
  rw [Nat.zero_add]
  split_ifs <;> rfl

/-- The line, if there is one, whose LF lies past the limit is one that is itself past
    it, and ends in CRLF. -/
def Clear (max : ℕ) (total : Octets) : Prop :=
  ∀ e, Scan.find total 0x0a = some e → e ≤ max ∨ (total[e - 1]? = some 0x0d ∧ max < e - 1)

/-- A line is looked at steadily exactly where it is clear of its limit. -/
theorem steady_iff (max : ℕ) (total : Octets) :
    Steady (lookFront max) (.error .closed) total ↔ Clear max total := by
  constructor
  · intro hsteady e hfind
    by_contra hnot
    obtain ⟨hlong, hline⟩ := not_or.1 hnot
    -- The octets before the LF are too many to be a line, looked at alone.
    have hlen := Scan.lt_of_find hfind
    have hfront : (total.take e).length = e := List.length_take_of_le hlen.le
    have hnone : Scan.find (total.take e) 0x0a = none := by
      rw [Scan.find_eq_none_iff]
      intro hmem
      obtain ⟨i, hi⟩ := List.mem_iff_getElem?.1 hmem
      have hlt : i < e := hfront ▸ (List.getElem?_eq_some_iff.1 hi).1
      rw [List.getElem?_take_of_lt hlt] at hi
      exact (Scan.find_eq_some_iff.1 hfind).2 i hlt hi
    have := hsteady (total.take e) (List.take_prefix e total) (.error (tooLong max)) (by
      rw [lookFront_none hnone, hfront, if_pos (Nat.not_le.1 hlong)])
    rw [lookFront_some hfind, Option.getD_some] at this
    split_ifs at this with hcr hmax
    · cases this
    · exact hline ⟨by_contra fun h => hcr (Or.inr h), hmax⟩
  · intro hclear front hfront answer hlook
    cases hfind : Scan.find front 0x0a with
    | some e =>
      rw [lookFront_some hfind] at hlook
      have hlen := Scan.lt_of_find hfind
      have hat : total[e - 1]? = front[e - 1]? := by
        obtain ⟨rest, rfl⟩ := hfront
        rw [List.getElem?_append_left (Nat.lt_of_le_of_lt (Nat.sub_le _ _) hlen)]
      rw [lookFront_some (Scan.find_of_prefix hfront hfind), hat, ← Option.some_inj.1 hlook]
      rfl
    | none =>
      rw [lookFront_none hfind] at hlook
      split_ifs at hlook with hlong
      rw [← Option.some_inj.1 hlook]
      cases htotal : Scan.find total 0x0a with
      | none => rw [lookFront_none htotal, if_pos (Nat.lt_of_lt_of_le hlong hfront.length_le)]; rfl
      | some e =>
        have he : front.length ≤ e := by
          by_contra hlt
          exact absurd (Scan.find_prefix hfront htotal (Nat.not_le.1 hlt)) (by rw [hfind]; simp)
        obtain hle | ⟨hcr, hmax⟩ := hclear e htotal
        · omega
        · rw [lookFront_some htotal, if_neg, if_pos hmax]
          · rfl
          · rintro (hzero | hne)
            · omega
            · exact hne hcr

end Line

/-! ## Sections -/

namespace Field

/-- Whether the LF of a line is at `i`, and an empty line behind it. -/
def isBlankLine (data : Octets) (i : ℕ) : Bool :=
  data[i]? = some 0x0a && data[i + 1]? = some 0x0d && data[i + 2]? = some 0x0a

theorem isBlankLine_iff {data : Octets} {i : ℕ} :
    isBlankLine data i = true ↔ data[i]? = some 0x0a ∧ data[i + 1]? = some 0x0d ∧ data[i + 2]? = some 0x0a := by
  rw [isBlankLine, Bool.and_eq_true, Bool.and_eq_true, decide_eq_true_eq, decide_eq_true_eq, decide_eq_true_eq, and_assoc]

/-- The end of a section, looked for from the front. -/
def endFront (data : Octets) : Option (ℕ × ℕ) :=
  if data[0]? = some 0x0d ∧ data[1]? = some 0x0a then some (0, 2)
  else ((List.range data.length).find? (isBlankLine data)).map fun i => (i + 1, i + 3)

theorem lt_of_isBlankLine {data : Octets} {i : ℕ} (h : isBlankLine data i = true) : i + 2 < data.length :=
  (List.getElem?_eq_some_iff.1 (isBlankLine_iff.1 h).2.2).1

/-- An octet that is there is there whatever follows. -/
theorem getElem?_of_isPrefix {front total : Octets} (h : front <+: total) {i : ℕ} (hi : i < front.length) :
    total[i]? = front[i]? := by
  obtain ⟨rest, rfl⟩ := h
  exact List.getElem?_append_left hi

theorem isBlankLine_of_isPrefix {front total : Octets} (h : front <+: total) {i : ℕ} (hi : i + 2 < front.length) :
    isBlankLine total i = isBlankLine front i := by
  rw [isBlankLine, isBlankLine, getElem?_of_isPrefix h (by omega : i < front.length),
    getElem?_of_isPrefix h (by omega : i + 1 < front.length), getElem?_of_isPrefix h hi]

/-- The first blank line, which none before `at'` is. -/
theorem find_blankLine {data : Octets} {i : ℕ} (h : isBlankLine data i = true) (hbefore : ∀ j < i, isBlankLine data j = false) :
    (List.range data.length).find? (isBlankLine data) = some i := by
  rw [List.find?_range_eq_some]
  refine ⟨h, List.mem_range.2 (by have := lt_of_isBlankLine h; omega), fun j hj => ?_⟩
  rw [hbefore j hj]
  rfl

theorem find_blankLine_none {data : Octets} (h : ∀ j, isBlankLine data j = false) :
    (List.range data.length).find? (isBlankLine data) = none := by
  rw [List.find?_eq_none]
  intro j _ hj
  rw [h j] at hj
  cases hj

theorem blockEndLoop_spec {data : Octets} {fuel at' : ℕ} (hfuel : data.length < fuel + at')
    (hbefore : ∀ i < at', isBlankLine data i = false) :
    (blockEndLoop data fuel at').1 =
        ((List.range data.length).find? (isBlankLine data)).map (fun i => (i + 1, i + 3)) ∧
      ∀ i < (blockEndLoop data fuel at').2, isBlankLine data i = false ∧ (i < at' ∨ i + 2 < data.length) := by
  induction fuel generalizing at' with
  | zero =>
    refine ⟨?_, fun i hi => ⟨hbefore i hi, Or.inl hi⟩⟩
    rw [find_blankLine_none]
    · rfl
    · intro j
      by_contra h
      have hlt := lt_of_isBlankLine (Bool.eq_true_of_not_eq_false h)
      exact h (hbefore j (by omega))
  | succ fuel ih =>
    rw [blockEndLoop]
    cases hfind : Scan.find (data.drop at') 0x0a with
    | none =>
      refine ⟨?_, fun i hi => ⟨hbefore i hi, Or.inl hi⟩⟩
      rw [find_blankLine_none]
      · rfl
      · intro j
        by_contra h
        have hj := isBlankLine_iff.1 (Bool.eq_true_of_not_eq_false h)
        have hge : at' ≤ j := Nat.not_lt.1 fun hlt => h (hbefore j hlt)
        refine Scan.find_eq_none_iff.1 hfind (List.mem_iff_getElem?.2 ⟨j - at', ?_⟩)
        rw [List.getElem?_drop, Nat.add_sub_cancel' hge, hj.1]
    | some offset =>
      obtain ⟨hat, hno⟩ := Scan.find_eq_some_iff.1 hfind
      rw [List.getElem?_drop] at hat
      -- No line ends between what was searched and the LF that was found.
      have hbetween : ∀ i < at' + offset, isBlankLine data i = false := by
        intro i hi
        by_cases hlt : i < at'
        · exact hbefore i hlt
        · by_contra h
          have hi' := hno (i - at') (Nat.sub_lt_left_of_lt_add (Nat.not_lt.1 hlt) hi)
          rw [List.getElem?_drop, Nat.add_sub_cancel' (Nat.not_lt.1 hlt)] at hi'
          exact hi' (isBlankLine_iff.1 (Bool.eq_true_of_not_eq_false h)).1
      dsimp only
      split_ifs with hshort hblank
      · refine ⟨?_, fun i hi => ⟨hbefore i hi, Or.inl hi⟩⟩
        rw [find_blankLine_none]
        · rfl
        · intro j
          by_contra h
          have hlt := lt_of_isBlankLine (Bool.eq_true_of_not_eq_false h)
          exact h (hbetween j (by omega))
      · refine ⟨?_, fun i hi => ⟨hbefore i hi, Or.inl hi⟩⟩
        rw [find_blankLine (isBlankLine_iff.2 ⟨hat, hblank⟩) hbetween]
        rfl
      · obtain ⟨hfst, hsnd⟩ := @ih (at' + offset + 1) (by omega) fun i hi => by
          rcases Nat.lt_succ_iff_lt_or_eq.1 hi with hlt | rfl
          · exact hbetween i hlt
          · by_contra h
            exact hblank (isBlankLine_iff.1 (Bool.eq_true_of_not_eq_false h)).2
        refine ⟨hfst, fun i hi => ⟨(hsnd i hi).1, ?_⟩⟩
        have := (hsnd i hi).2
        omega

/-- How far was looked never hides the end of a section, however much has come since. -/
theorem blockEnd_spec {data : Octets} {searched : ℕ} (h : ∀ i < searched, isBlankLine data i = false) :
    (blockEnd data searched).1 = endFront data ∧
      ∀ i < (blockEnd data searched).2, isBlankLine data i = false ∧ (i < searched ∨ i + 2 < data.length) := by
  rw [blockEnd, endFront]
  split_ifs
  · exact ⟨rfl, fun i hi => ⟨h i hi, Or.inl hi⟩⟩
  · exact blockEndLoop_spec (by omega) h

theorem endFront_some {data : Octets} {fields consumed : ℕ} (h : endFront data = some (fields, consumed)) :
    consumed = fields + 2 ∧ consumed ≤ data.length := by
  rw [endFront] at h
  split_ifs at h with hempty
  · cases h
    exact ⟨rfl, (List.getElem?_eq_some_iff.1 hempty.2).1⟩
  · obtain ⟨i, hi, hpair⟩ := Option.map_eq_some_iff.1 h
    cases hpair
    have := lt_of_isBlankLine (List.find?_range_eq_some.1 hi).1
    exact ⟨rfl, by omega⟩

/-- A beginning that holds the end of the section of the whole finds it, and none finds
    another. -/
theorem endFront_prefix {front total : Octets} (hfront : front <+: total) {fields consumed : ℕ} :
    endFront front = some (fields, consumed) ↔ endFront total = some (fields, consumed) ∧ consumed ≤ front.length := by
  have hle := hfront.length_le
  constructor
  · intro h
    refine ⟨?_, (endFront_some h).2⟩
    rw [endFront] at h ⊢
    split_ifs at h with hempty
    · have hlen := (List.getElem?_eq_some_iff.1 hempty.2).1
      rw [getElem?_of_isPrefix hfront (Nat.zero_lt_of_lt hlen), getElem?_of_isPrefix hfront hlen, if_pos hempty]
      exact h
    · obtain ⟨i, hi, hpair⟩ := Option.map_eq_some_iff.1 h
      obtain ⟨hblank, -, hbefore⟩ := List.find?_range_eq_some.1 hi
      have hlt := lt_of_isBlankLine hblank
      rw [getElem?_of_isPrefix hfront (by omega : 0 < front.length), getElem?_of_isPrefix hfront (by omega : 1 < front.length),
        if_neg hempty, find_blankLine ((isBlankLine_of_isPrefix hfront hlt).trans hblank)]
      · exact congrArg some hpair
      · intro j hj
        rw [isBlankLine_of_isPrefix hfront (by omega)]
        exact Bool.eq_false_of_not_eq_true' (hbefore j hj)
  · rintro ⟨h, hlen⟩
    rw [endFront] at h ⊢
    split_ifs at h with hempty
    · cases h
      rw [getElem?_of_isPrefix hfront (by omega : 0 < front.length), getElem?_of_isPrefix hfront (by omega : 1 < front.length)]
        at hempty
      rw [if_pos hempty]
    · obtain ⟨i, hi, hpair⟩ := Option.map_eq_some_iff.1 h
      cases hpair
      obtain ⟨hblank, -, hbefore⟩ := List.find?_range_eq_some.1 hi
      rw [getElem?_of_isPrefix hfront (by omega : 0 < front.length), getElem?_of_isPrefix hfront (by omega : 1 < front.length)]
        at hempty
      rw [if_neg hempty, find_blankLine ((isBlankLine_of_isPrefix hfront (by omega)).symm.trans hblank)]
      · rfl
      · intro j hj
        rw [← isBlankLine_of_isPrefix hfront (by omega)]
        exact Bool.eq_false_of_not_eq_true' (hbefore j hj)

end Field

namespace H1Connection

/-- The error of a section past the limit. -/
def blockTooLong (max : ℕ) : Error := .limit "header block exceeds {max} octets" [.number max]

/-- The end of a section, looked for from the front. -/
def blockFront (max : ℕ) (data : Octets) : Option (Except Error (ℕ × ℕ)) :=
  match Field.endFront data with
  | some found => some (.ok found)
  | none => if max < data.length then some (.error (blockTooLong max)) else none

/-- How far was looked never hides the end of a section. -/
theorem awaitWith_blockLook (max : ℕ) (s : Source Error UInt8) :
    s.awaitWith (blockLook max) (.error .closed) 0 = s.await (blockFront max) (.error .closed) := by
  refine awaitWith_eq_await
    (fun searched data => ∀ i < searched, Field.isBlankLine data i = false ∧ i + 2 < data.length) ?_
    (fun i hi => absurd hi (Nat.not_lt_zero i)) s
  intro searched data more h
  have hmore : ∀ i < searched, Field.isBlankLine (data ++ more) i = false := fun i hi => by
    rw [Field.isBlankLine_of_isPrefix (List.prefix_append data more) (h i hi).2]
    exact (h i hi).1
  obtain ⟨hfst, hsnd⟩ := Field.blockEnd_spec hmore
  have hknows : ∀ i < (Field.blockEnd (data ++ more) searched).2,
      Field.isBlankLine (data ++ more) i = false ∧ i + 2 < (data ++ more).length := by
    intro i hi
    refine ⟨(hsnd i hi).1, ?_⟩
    rcases (hsnd i hi).2 with hlt | hlt
    · rw [List.length_append]
      exact Nat.lt_add_right _ (h i hlt).2
    · exact hlt
  rw [blockLook, blockFront, ← hfst]
  rcases hend : Field.blockEnd (data ++ more) searched with ⟨_ | found, searched'⟩
  · rw [hend] at hknows
    dsimp only
    split_ifs
    · exact ⟨rfl, hknows⟩
    · exact ⟨rfl, hknows⟩
  · rw [hend] at hknows
    exact ⟨rfl, hknows⟩

/-- Holds the lines of a section that was found to the limit. -/
def holdFields (max : ℕ) (found : ℕ × ℕ) : Except Error (ℕ × ℕ) :=
  if max < found.1 then .error (blockTooLong max) else .ok found

/-- The end of a section whose lines are held to the limit. -/
def heldFront (max : ℕ) (data : Octets) : Option (Except Error (ℕ × ℕ)) :=
  (blockFront max data).map (·.bind (holdFields max))

theorem heldFront_some {max fields consumed : ℕ} {data : Octets} (h : Field.endFront data = some (fields, consumed)) :
    heldFront max data = some (if max < fields then .error (blockTooLong max) else .ok (fields, consumed)) := by
  rw [heldFront, blockFront, h]
  rfl

theorem heldFront_none {max : ℕ} {data : Octets} (h : Field.endFront data = none) :
    heldFront max data = if max < data.length then some (.error (blockTooLong max)) else none := by
  rw [heldFront, blockFront, h]
  dsimp only
  split_ifs <;> rfl

/-- The lines of the section, if it ends, are not of the very number of octets allowed. -/
def BlockClear (max : ℕ) (total : Octets) : Prop :=
  ∀ fields consumed, Field.endFront total = some (fields, consumed) → fields ≠ max

/-- A section is looked at steadily exactly where it is clear of its limit. -/
theorem block_steady_iff (max : ℕ) (total : Octets) :
    Steady (heldFront max) (.error .closed) total ↔ BlockClear max total := by
  constructor
  · rintro hsteady fields consumed hend rfl
    obtain ⟨rfl, hlen⟩ := Field.endFront_some hend
    -- All but the last octet of the blank line is more than the limit, and ends nothing.
    have hfront : (total.take (fields + 1)).length = fields + 1 := List.length_take_of_le (by omega)
    have hnone : Field.endFront (total.take (fields + 1)) = none := by
      rcases hfound : Field.endFront (total.take (fields + 1)) with _ | ⟨fields', consumed'⟩
      · rfl
      · obtain ⟨htotal, hle⟩ := (Field.endFront_prefix (List.take_prefix _ total)).1 hfound
        rw [hend] at htotal
        cases htotal
        omega
    have := hsteady _ (List.take_prefix (fields + 1) total) (.error (blockTooLong fields)) (by
      rw [heldFront_none hnone, hfront, if_pos (Nat.lt_succ_self fields)])
    rw [heldFront_some hend, if_neg (Nat.lt_irrefl fields)] at this
    cases this
  · intro hclear front hfront answer hlook
    rcases hfound : Field.endFront front with _ | ⟨fields, consumed⟩
    · rw [heldFront_none hfound] at hlook
      split_ifs at hlook with hlong
      rw [← Option.some_inj.1 hlook]
      rcases htotal : Field.endFront total with _ | ⟨fields, consumed⟩
      · rw [heldFront_none htotal, if_pos (Nat.lt_of_lt_of_le hlong hfront.length_le)]
        rfl
      · obtain ⟨rfl, -⟩ := Field.endFront_some htotal
        have hbeyond : front.length < fields + 2 := by
          by_contra hle
          have := (Field.endFront_prefix hfront).2 ⟨htotal, Nat.not_lt.1 hle⟩
          rw [hfound] at this
          cases this
        have hne := hclear fields (fields + 2) htotal
        rw [heldFront_some htotal, if_pos (by omega)]
        rfl
    · rw [heldFront_some hfound] at hlook
      rw [heldFront_some ((Field.endFront_prefix hfront).1 hfound).1, ← Option.some_inj.1 hlook]
      rfl

/-! ## Chunks -/

/-- The error of a size line past the limit. -/
def sizeLineTooLong (max : ℕ) : Error := .limit "chunk size line exceeds {max} octets" [.number max]

/-- The size line of the chunk at the front, if it ends, is within the limit. -/
def SizeLineClear (max : ℕ) (total : Octets) : Prop := ∀ e, Scan.find total 0x0a = some e → e ≤ max

theorem parseSize_of_isPrefix {front total : Octets} (hfront : front <+: total) {e : ℕ} (hfind : Scan.find front 0x0a = some e) :
    Chunk.parseSize total = Chunk.parseSize front := by
  have hlen := Scan.lt_of_find hfind
  rw [Chunk.parseSize, Chunk.parseSize, Scan.find_of_prefix hfront hfind, hfind]
  dsimp only
  rw [Field.getElem?_of_isPrefix hfront (Nat.lt_of_le_of_lt (Nat.sub_le _ _) hlen)]
  obtain ⟨rest, rfl⟩ := hfront
  rw [List.take_append_of_le_length ((Nat.sub_le _ _).trans hlen.le)]

theorem parseSize_none {data : Octets} (h : Scan.find data 0x0a = none) : Chunk.parseSize data = .ok none := by
  rw [Chunk.parseSize, h]

theorem parseSize_ne_none {data : Octets} {e : ℕ} (h : Scan.find data 0x0a = some e) : Chunk.parseSize data ≠ .ok none := by
  rw [Chunk.parseSize, h]
  dsimp only
  split_ifs
  · simp
  · rcases Chunk.size _ with error | size <;> simp [Except.map]

/-- A chunk that a beginning of the stream decides about is the one the stream has. -/
theorem chunkAt_prefix {front total : Octets} (hfront : front <+: total) {e : ℕ} (hfind : Scan.find front 0x0a = some e)
    {answer : Except Error (ℕ × ℕ × ℕ)} (h : chunkLook.chunkAt front = some answer) :
    chunkLook.chunkAt total = some answer := by
  have hle := hfront.length_le
  rw [chunkLook.chunkAt, Chunk.decode] at h ⊢
  rw [parseSize_of_isPrefix hfront hfind]
  rcases hsize : Chunk.parseSize front with error | _ | ⟨start, size⟩
  · rw [hsize] at h
    exact h
  · rw [hsize] at h
    exact h
  · rw [hsize] at h
    dsimp only at h ⊢
    by_cases hzero : size = 0
    · rw [if_pos hzero] at h ⊢
      exact h
    · rw [if_neg hzero] at h ⊢
      by_cases hfit : USIZE ≤ start + size + 2
      · rw [if_pos hfit] at h ⊢
        exact h
      · rw [if_neg hfit] at h ⊢
        by_cases hshort : front.length < start + size + 2
        · rw [if_pos hshort] at h
          cases h
        · obtain ⟨rest, rfl⟩ := hfront
          rw [if_neg hshort] at h
          rw [if_neg (by omega), List.drop_append_of_le_length (by omega),
            List.take_append_of_le_length (by rw [List.length_drop]; omega)]
          exact h

/-- A size line gets an answer of its own, whatever it says. -/
theorem chunkLook_ne_tooLong {limits : H1Limits} {limit length e : ℕ} {data : Octets} (hfind : Scan.find data 0x0a = some e) :
    (chunkLook limits limit length data).getD (.error .closed) ≠ .error (sizeLineTooLong limits.maxChunkHeaderSize) := by
  have hat : (chunkLook.chunkAt data).getD (.error .closed) ≠ .error (sizeLineTooLong limits.maxChunkHeaderSize) := by
    rw [chunkLook.chunkAt]
    split
    · next error hdecode =>
      obtain ⟨reason, quoted, rfl⟩ := Chunk.decode_error hdecode
      simp [sizeLineTooLong]
    · split_ifs <;> simp [sizeLineTooLong]
  rw [chunkLook]
  split
  · next error hsize =>
    obtain ⟨reason, quoted, rfl⟩ := Chunk.parseSize_error hsize
    simp [sizeLineTooLong]
  · split_ifs
    · simp [sizeLineTooLong]
    · exact hat
  · next hsize => exact absurd hsize (parseSize_ne_none hfind)

/-- A chunk is looked at steadily exactly where its size line is clear of its limit. -/
theorem chunk_steady_iff (limits : H1Limits) (limit length : ℕ) (total : Octets) :
    Steady (chunkLook limits limit length) (.error .closed) total ↔ SizeLineClear limits.maxChunkHeaderSize total := by
  constructor
  · intro hsteady e hfind
    by_contra hlong
    have hlen := Scan.lt_of_find hfind
    have hfront : (total.take e).length = e := List.length_take_of_le hlen.le
    -- The octets before the LF are too many to be a size line, looked at alone.
    have hnone : Scan.find (total.take e) 0x0a = none := by
      rcases hfound : Scan.find (total.take e) 0x0a with _ | i
      · rfl
      · have hi := Scan.lt_of_find hfound
        have := Scan.find_of_prefix (List.take_prefix e total) hfound
        rw [hfind] at this
        cases this
        omega
    refine chunkLook_ne_tooLong hfind (hsteady _ (List.take_prefix e total) _ ?_)
    rw [chunkLook, parseSize_none hnone]
    dsimp only
    rw [hfront, if_pos (Nat.not_le.1 hlong)]
    rfl
  · intro hclear front hfront answer hlook
    have hle := hfront.length_le
    cases hfind : Scan.find front 0x0a with
    | some e =>
      have htotal : chunkLook limits limit length total = some answer := by
        rw [chunkLook] at hlook ⊢
        rw [parseSize_of_isPrefix hfront hfind]
        rcases hsize : Chunk.parseSize front with error | _ | ⟨start, size⟩
        · rw [hsize] at hlook
          exact hlook
        · exact absurd hsize (parseSize_ne_none hfind)
        · rw [hsize] at hlook
          dsimp only at hlook ⊢
          split_ifs at hlook ⊢ with hlimit
          · exact hlook
          · exact chunkAt_prefix hfront hfind hlook
      rw [htotal]
      rfl
    | none =>
      rw [chunkLook, parseSize_none hfind] at hlook
      dsimp only at hlook
      split_ifs at hlook with hlong
      · rw [← Option.some_inj.1 hlook]
        -- The stream has no LF either, as it would lie within the limit.
        have hnone : Scan.find total 0x0a = none := by
          cases htotal : Scan.find total 0x0a with
          | none => rfl
          | some e =>
            have := Scan.find_prefix hfront htotal (Nat.lt_of_le_of_lt (hclear e htotal) hlong)
            rw [hfind] at this
            cases this
        rw [chunkLook, parseSize_none hnone]
        dsimp only
        rw [if_pos (Nat.lt_of_lt_of_le hlong hle)]
        rfl
      · rw [chunkLook.chunkAt, Chunk.decode, parseSize_none hfind] at hlook
        cases hlook

end H1Connection

end Soyokaze

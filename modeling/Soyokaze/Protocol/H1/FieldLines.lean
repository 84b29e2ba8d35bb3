import Soyokaze.Protocol.H1.Looks

/-!
# Field sections of HTTP/1

What a section is written as and read from, line by line, and where it ends.

* `Field.parseBytes_iff`: a line is a name that is a token, a colon, and a value free of
  control octets, and nothing else is;
* `Field.parseBlock_iff`: a section that is read is such lines, each ended by CRLF, and
  no more of them than are allowed;
* `Field.parseBlock_written`: what is written is read back, names in lower case and values
  without the blanks around them;
* `Field.resumed_eq`: a search for the end that goes on where it left off answers as one from
  the start does;
* `Field.sections_exact`: all of it.
-/

namespace Soyokaze

/-! ## Octets of names and values -/

/-- What a token is made of is neither a control octet, nor a blank, nor a colon. -/
theorem Class.plain_of_isTchar {octet : UInt8} (h : isTchar octet = true) :
    Scan.isControl octet = false ∧ Field.isBlank octet = false ∧ octet ≠ 0x3a ∧ octet < 0x80 := by
  have hall : ∀ n < 256, isTchar (.ofNat n) = true → Scan.isControl (.ofNat n) = false ∧
      Field.isBlank (.ofNat n) = false ∧ UInt8.ofNat n ≠ 0x3a ∧ UInt8.ofNat n < 0x80 := by decide +kernel
  have hoctet := hall octet.toNat octet.toNat_lt
  rw [UInt8.ofNat_toNat] at hoctet
  exact hoctet h

/-- Where an octet stands behind others that it is not among, it stands in what follows them. -/
theorem cut_behind {α : Type*} {before after front back : List α} {a : α} (h : before ++ a :: after = front ++ back)
    (ha : a ∉ front) : ∃ rest, before = front ++ rest ∧ rest ++ a :: after = back := by
  rcases List.append_eq_append_iff.1 h with ⟨middle, hfront, hback⟩ | ⟨rest, hbefore, hback⟩
  · cases middle with
    | nil => exact ⟨[], by rw [hfront, List.append_nil, List.append_nil], hback⟩
    | cons first middle =>
      obtain ⟨rfl, -⟩ := List.cons.inj hback
      exact absurd (hfront ▸ List.mem_append_right _ List.mem_cons_self) ha
  · exact ⟨rest, hbefore, hback.symm⟩

namespace Field

/-- A value without the blanks around it. -/
def trim (value : Octets) : Octets := ((value.dropWhile isBlank).reverse.dropWhile isBlank).reverse

/-- Around what is left of a value there are blanks alone. -/
theorem exists_trim (value : Octets) : ∃ before after, value = before ++ trim value ++ after ∧
    before.all isBlank = true ∧ after.all isBlank = true := by
  have hall (text : Octets) : (text.takeWhile isBlank).all isBlank = true := List.all_takeWhile
  refine ⟨value.takeWhile isBlank, ((value.dropWhile isBlank).reverse.takeWhile isBlank).reverse, ?_, hall _, ?_⟩
  · rw [trim, List.append_assoc, ← List.reverse_append, List.takeWhile_append_dropWhile, List.reverse_reverse,
      List.takeWhile_append_dropWhile]
  · rw [List.all_reverse]
    exact hall _

theorem isControl_of_isBlank {octet : UInt8} (h : isBlank octet = true) : Scan.isControl octet = false ∧ octet < 0x80 := by
  rw [isBlank, Bool.or_eq_true, beq_iff_eq, beq_iff_eq] at h
  rcases h with rfl | rfl <;> decide

/-- A value may be sent where it may without its blanks. -/
theorem isFieldValue_trim (value : Octets) : Scan.isFieldValue (trim value) = Scan.isFieldValue value := by
  obtain ⟨before, after, hvalue, hbefore, hafter⟩ := exists_trim value
  have hblank : ∀ {text : Octets}, text.all isBlank = true → text.all (!Scan.isControl ·) = true := fun h =>
    List.all_eq_true.2 fun octet hoctet => by rw [(isControl_of_isBlank (List.all_eq_true.1 h octet hoctet)).1]; rfl
  conv_rhs => rw [hvalue]
  rw [Scan.isFieldValue, Scan.isFieldValue, List.all_append, List.all_append, hblank hbefore, hblank hafter,
    Bool.true_and, Bool.and_true]

end Field

namespace Utf8

/-- What ends in ASCII was valid before it. -/
theorem valid_of_append {after : Octets} (hafter : isAscii after = true) {l : Octets} {s : State} (hs : s.High)
    (h : valid (l ++ after) s = true) : valid l s = true := by
  induction l generalizing s with
  | nil =>
    cases s with
    | ground => rfl
    | expect lo hi more =>
      rcases after with - | ⟨octet, after⟩
      · exact h
      · -- No octet of ASCII goes on a scalar.
        have hoctet : octet < 0x80 := of_decide_eq_true (List.all_eq_true.1 hafter octet List.mem_cons_self)
        have hlo : (0x80 : UInt8) ≤ lo := hs
        rw [List.nil_append, valid, decide_eq_false (UInt8.not_le.2 (UInt8.lt_of_lt_of_le hoctet hlo)), Bool.false_and,
          Bool.false_and] at h
        cases h
  | cons octet l ih =>
    cases s with
    | ground =>
      rw [List.cons_append, valid] at h
      rw [valid]
      cases hlead : lead octet with
      | none =>
        rw [hlead] at h
        exact h
      | some s =>
        rw [hlead] at h
        exact ih (high_lead hlead) h
    | expect lo hi more =>
      rw [List.cons_append, valid, Bool.and_eq_true] at h
      rw [valid, Bool.and_eq_true]
      exact ⟨h.1, ih (high_next more) h.2⟩

end Utf8

namespace Field

/-- A text is one without its blanks. -/
theorem valid_trim (value : Text) : Utf8.valid (trim value.octets) .ground = true := by
  obtain ⟨before, after, hvalue, hbefore, hafter⟩ := exists_trim value.octets
  have hascii : ∀ {text : Octets}, text.all isBlank = true → isAscii text = true := fun h =>
    List.all_eq_true.2 fun octet hoctet => decide_eq_true (isControl_of_isBlank (List.all_eq_true.1 h octet hoctet)).2
  have hvalid := value.valid
  rw [hvalue, List.append_assoc, Utf8.valid_append _ (Utf8.valid_of_ascii (hascii hbefore))] at hvalid
  exact Utf8.valid_of_append (hascii hafter) trivial hvalid

/-! ## One line -/

/-- What is found is between what stands before it and what stands behind. -/
theorem split_of_find {octets : Octets} {octet : UInt8} {i : ℕ} (h : Scan.find octets octet = some i) :
    octets = octets.take i ++ octet :: octets.drop (i + 1) ∧ octet ∉ octets.take i := by
  obtain ⟨hat, hbefore⟩ := Scan.find_eq_some_iff.1 h
  obtain ⟨hi, hget⟩ := List.getElem?_eq_some_iff.1 hat
  refine ⟨by rw [← hget, List.getElem_cons_drop, List.take_append_drop], fun hmem => ?_⟩
  obtain ⟨j, hj⟩ := List.mem_iff_getElem?.1 hmem
  have hlt : j < i := (List.getElem?_eq_some_iff.1 hj).1.trans_le (List.length_take_le _ _)
  rw [List.getElem?_take_of_lt hlt] at hj
  exact hbefore j hlt hj

theorem find_behind {before : Octets} {octet : UInt8} (h : octet ∉ before) (after : Octets) :
    Scan.find (before ++ octet :: after) octet = some before.length := by
  refine Scan.find_eq_some_iff.2 ⟨by rw [List.getElem?_append_right (Nat.le_refl _), Nat.sub_self]; rfl, fun j hj hget => ?_⟩
  rw [List.getElem?_append_left hj] at hget
  exact h (List.mem_of_getElem? hget)

/-- A name and what stands behind its colon. -/
structure Line where
  name : Octets
  rest : Octets
  deriving DecidableEq

namespace Line

/-- The octets of the line, without its CRLF. -/
def octets (line : Line) : Octets := line.name ++ 0x3a :: line.rest

/-- The name is a token, and the value may be sent. -/
structure Proper (line : Line) : Prop where
  name : Class.isToken line.name = true
  rest : Scan.isFieldValue line.rest = true

/-- The field the line is. -/
def field (line : Line) : HeaderField :=
  ⟨.fromVerifiedAscii (line.name.map Str.lower),
    if isAscii (trim line.rest) then .fromVerifiedAscii (trim line.rest) else .fromUtf8Lossy (trim line.rest)⟩

variable {line : Line}

theorem Proper.tchar (h : line.Proper) : ∀ octet ∈ line.name, Class.isTchar octet = true := by
  have hname := h.name
  rw [Class.isToken, Bool.and_eq_true] at hname
  exact List.all_eq_true.1 hname.2

theorem Proper.name_ne_nil (h : line.Proper) : line.name ≠ [] := by
  intro hnil
  have hname := h.name
  rw [hnil] at hname
  cases hname

theorem Proper.colon (h : line.Proper) : 0x3a ∉ line.name := fun hmem =>
  (Class.plain_of_isTchar (h.tchar _ hmem)).2.2.1 rfl

/-- No octet of the line is a control octet. -/
theorem Proper.plain (h : line.Proper) : ∀ octet ∈ line.octets, Scan.isControl octet = false := by
  intro octet hoctet
  rcases List.mem_append.1 hoctet with hname | hrest
  · exact (Class.plain_of_isTchar (h.tchar octet hname)).1
  · rcases List.mem_cons.1 hrest with rfl | hrest
    · decide
    · have hvalue := List.all_eq_true.1 h.rest octet hrest
      rwa [Bool.not_eq_true'] at hvalue

theorem Proper.head (h : line.Proper) : ∃ first octets, line.octets = first :: octets ∧ Class.isTchar first = true := by
  obtain ⟨first, name, hname⟩ := List.exists_cons_of_ne_nil h.name_ne_nil
  exact ⟨first, name ++ 0x3a :: line.rest, by rw [octets, hname]; rfl, h.tchar first (hname ▸ List.mem_cons_self)⟩

end Line

/-- A colon that is not the first octet ends a name, if that is a token. -/
theorem nameEnd_of_find {octets : Octets} {at' : ℕ} (h : Scan.find octets 0x3a = some (at' + 1)) :
    nameEnd octets = if (octets.take (at' + 1)).all Class.isTchar then .ok (at' + 1)
      else .error (.protocol "field name {name} is not a token" [.text (octets.take (at' + 1))]) := by
  rw [nameEnd, h]
  rfl

theorem nameEnd_iff {octets : Octets} {colon : ℕ} : nameEnd octets = .ok colon ↔
    ∃ line : Line, octets = line.octets ∧ Class.isToken line.name = true ∧ colon = line.name.length := by
  constructor
  · intro h
    rcases hfind : Scan.find octets 0x3a with - | - | at'
    · rw [nameEnd, hfind] at h
      cases h
    · rw [nameEnd, hfind] at h
      cases h
    · rw [nameEnd_of_find hfind] at h
      split_ifs at h with htoken
      cases h
      have hlength : (octets.take (at' + 1)).length = at' + 1 := List.length_take_of_le (Scan.lt_of_find hfind).le
      refine ⟨⟨octets.take (at' + 1), octets.drop (at' + 1 + 1)⟩, (split_of_find hfind).1, ?_, hlength.symm⟩
      rw [Class.isToken, htoken, Bool.and_true, Bool.not_eq_true', List.isEmpty_eq_false_iff, ← List.length_pos_iff, hlength]
      exact Nat.succ_pos at'
  · rintro ⟨line, rfl, htoken, rfl⟩
    have htchar : line.name.all Class.isTchar = true := by
      rw [Class.isToken, Bool.and_eq_true] at htoken
      exact htoken.2
    have hcolon : 0x3a ∉ line.name := fun hmem =>
      (Class.plain_of_isTchar (List.all_eq_true.1 htchar _ hmem)).2.2.1 rfl
    have hfind : Scan.find line.octets 0x3a = some line.name.length := find_behind hcolon line.rest
    cases hlength : line.name.length with
    | zero =>
      rw [List.eq_nil_of_length_eq_zero hlength] at htoken
      cases htoken
    | succ n =>
      rw [hlength] at hfind
      rw [nameEnd_of_find hfind, ← hlength, Line.octets, List.take_left, htchar, if_pos rfl]

/-- A line is a token, a colon, and a value free of control octets, and nothing else is. -/
theorem parseBytes_iff {octets : Octets} {field : HeaderField} :
    parseBytes octets = .ok field ↔ ∃ line : Line, octets = line.octets ∧ line.Proper ∧ field = line.field := by
  have hvalue (line : Line) : (line.octets.drop (line.name.length + 1)) = line.rest := by
    rw [Line.octets, ← List.drop_drop, List.drop_left, List.drop_one, List.tail_cons]
  constructor
  · intro h
    obtain ⟨⟨name, value⟩, hspans, rfl⟩ := Except.map_eq_ok h
    rw [spans] at hspans
    rcases hend : nameEnd octets with error | colon <;> rw [hend] at hspans
    · cases hspans
    · obtain ⟨line, rfl, htoken, rfl⟩ := nameEnd_iff.1 hend
      dsimp only at hspans
      rw [hvalue, show ((line.rest.dropWhile isBlank).reverse.dropWhile isBlank).reverse = trim line.rest from rfl,
        isFieldValue_trim, Line.octets, List.take_left] at hspans
      split_ifs at hspans with hsent
      cases hspans
      exact ⟨line, rfl, ⟨htoken, by simpa using hsent⟩, rfl⟩
  · rintro ⟨line, rfl, hproper, rfl⟩
    have hend : nameEnd line.octets = .ok line.name.length := nameEnd_iff.2 ⟨line, rfl, hproper.name, rfl⟩
    have hspans : spans line.octets = .ok (line.name, trim line.rest) := by
      rw [spans, hend]
      dsimp only
      rw [hvalue, show ((line.rest.dropWhile isBlank).reverse.dropWhile isBlank).reverse = trim line.rest from rfl,
        isFieldValue_trim, hproper.rest, if_neg (by decide), Line.octets, List.take_left]
    rw [parseBytes, hspans]
    rfl

/-! ## A section -/

/-- Lines with their CRLFs. -/
def sectionOf (lines : List Line) : Octets := lines.flatMap fun line => line.octets ++ [0x0d, 0x0a]

theorem sectionOf_cons (line : Line) (lines : List Line) :
    sectionOf (line :: lines) = (line.octets ++ [0x0d]) ++ 0x0a :: sectionOf lines := by
  rw [sectionOf, List.flatMap_cons, ← sectionOf, List.append_assoc, List.append_assoc]
  rfl

/-- Two sections of the same fields are one. -/
theorem ext_fields {headers headers' : Headers} (h : headers.fields = headers'.fields) : headers = headers' := by
  obtain ⟨fields, present, hpresent⟩ := headers
  obtain ⟨fields', present', hpresent'⟩ := headers'
  obtain rfl : fields = fields' := h
  obtain rfl : present = present' := hpresent.trans hpresent'.symm
  rfl

/-- The first LF is the one that ends the first line. -/
theorem find_line {line : Line} (h : line.Proper) (after : Octets) :
    Scan.find ((line.octets ++ [0x0d]) ++ 0x0a :: after) 0x0a = some (line.octets.length + 1) := by
  have hlf : (0x0a : UInt8) ∉ line.octets ++ [0x0d] := by
    intro hmem
    rcases List.mem_append.1 hmem with hmem | hmem
    · exact Bool.false_ne_true ((h.plain _ hmem).symm.trans rfl)
    · exact absurd (List.mem_singleton.1 hmem) (by decide)
  rw [find_behind hlf, List.length_append]
  rfl

theorem eq_nil_of_sectionOf {lines : List Line} (h : sectionOf lines = []) : lines = [] := by
  rcases lines with - | ⟨line, lines⟩
  · rfl
  · rw [sectionOf_cons] at h
    exact absurd h (by simp)

/-- A line is read where there is room for one more field. -/
theorem parseBlockLoop_line {max fuel : ℕ} {headers : Headers} {line : Line} (h : line.Proper) (lines : List Line) :
    parseBlockLoop max (fuel + 1) (sectionOf (line :: lines)) headers =
      if max ≤ headers.len then .error (.limit "more than {max_count} header fields" [.number max])
      else parseBlockLoop max fuel (sectionOf lines) (headers.appendLowercase line.field.name line.field.value) := by
  obtain ⟨first, tail, hfirst, htchar⟩ := h.head
  have hcr : ((line.octets ++ [0x0d]) ++ 0x0a :: sectionOf lines)[line.octets.length]? = some 0x0d := by
    rw [List.append_assoc, List.getElem?_append_right (Nat.le_refl _), Nat.sub_self]
    rfl
  have htake : ((line.octets ++ [0x0d]) ++ 0x0a :: sectionOf lines).take line.octets.length = line.octets := by
    rw [List.append_assoc, List.take_left]
  have hdrop : ((line.octets ++ [0x0d]) ++ 0x0a :: sectionOf lines).drop (line.octets.length + 1 + 1) = sectionOf lines := by
    rw [← List.drop_drop, List.drop_left' (by rw [List.length_append]; rfl), List.drop_one, List.tail_cons]
  have hblank : (line.octets.head?.map isBlank).getD false = false := by
    rw [hfirst]
    exact (Class.plain_of_isTchar htchar).2.1
  have hne : sectionOf (line :: lines) ≠ [] := fun hnil => List.cons_ne_nil _ _ (eq_nil_of_sectionOf hnil)
  rw [parseBlockLoop]
  swap
  · exact hne
  rw [sectionOf_cons, find_line h]
  dsimp only
  rw [Nat.add_sub_cancel, hcr, if_neg (by simp), htake, hblank, if_neg Bool.false_ne_true,
    parseBytes_iff.2 ⟨line, rfl, h, rfl⟩, hdrop]

/-- Where nothing is left, nothing more is read. -/
theorem read_nothing_iff {max : ℕ} {headers headers' : Headers} (hroom : headers.len ≤ max) :
    (Except.ok headers : Except Error Headers) = .ok headers' ↔
      ∃ lines, [] = sectionOf lines ∧ (∀ line ∈ lines, line.Proper) ∧ headers.len + lines.length ≤ max ∧
        headers'.fields = headers.fields ++ lines.map Line.field := by
  constructor
  · rintro h
    cases h
    exact ⟨[], rfl, fun line hline => absurd hline List.not_mem_nil, hroom, (List.append_nil _).symm⟩
  · rintro ⟨lines, hnil, -, -, hfields⟩
    rw [eq_nil_of_sectionOf hnil.symm, List.map_nil, List.append_nil] at hfields
    rw [ext_fields hfields]

/-- What is read behind some fields are lines, if there is room for as many fields. -/
theorem parseBlockLoop_iff {max fuel : ℕ} {block : Octets} {headers headers' : Headers} (hfuel : block.length ≤ fuel)
    (hroom : headers.len ≤ max) : parseBlockLoop max fuel block headers = .ok headers' ↔
      ∃ lines, block = sectionOf lines ∧ (∀ line ∈ lines, line.Proper) ∧ headers.len + lines.length ≤ max ∧
        headers'.fields = headers.fields ++ lines.map Line.field := by
  induction fuel generalizing block headers with
  | zero =>
    obtain rfl := List.eq_nil_of_length_eq_zero (Nat.le_zero.1 hfuel)
    exact read_nothing_iff hroom
  | succ fuel ih =>
    by_cases hnil : block = []
    · rw [hnil]
      exact read_nothing_iff hroom
    have hlen (name value : Text) : (headers.appendLowercase name value).len = headers.len + 1 := List.length_append
    constructor
    · intro h
      rw [parseBlockLoop] at h
      swap
      · exact hnil
      rcases hfind : Scan.find block 0x0a with - | end' <;> rw [hfind] at h
      · cases h
      · dsimp only at h
        split_ifs at h with hcr hcount hfolded
        push Not at hcr
        obtain ⟨n, rfl⟩ := Nat.exists_eq_succ_of_ne_zero hcr.1
        -- The octet before the LF is the CR, and the line is what stands before both.
        have hblock := (split_of_find hfind).1
        have hline : block.take (n + 1) = block.take n ++ [0x0d] := by
          rw [List.take_add_one, show block[n]? = some 0x0d from hcr.2]
          rfl
        rw [Nat.succ_eq_add_one, hline] at hblock
        rcases hfield : parseBytes (block.take n) with error | field
        · rw [Nat.succ_sub_one, hfield] at h
          cases h
        · rw [Nat.succ_sub_one, hfield] at h
          obtain ⟨line, hoctets, hproper, rfl⟩ := parseBytes_iff.1 hfield
          have hshort : (block.drop (n + 1 + 1)).length ≤ fuel := by
            rw [List.length_drop]
            omega
          obtain ⟨lines, hrest, hall, hmax, hfields⟩ := (ih hshort (by rw [hlen]; omega)).1 h
          refine ⟨line :: lines, ?_, List.forall_mem_cons.2 ⟨hproper, hall⟩, ?_, ?_⟩
          · rw [sectionOf_cons, ← hoctets, ← hrest]
            exact hblock
          · rw [hlen] at hmax
            rw [List.length_cons]
            omega
          · rw [hfields, Headers.appendLowercase, List.append_assoc]
            rfl
    · rintro ⟨lines, rfl, hproper, hmax, hfields⟩
      rcases lines with - | ⟨line, lines⟩
      · exact absurd rfl hnil
      obtain ⟨hproper, hall⟩ := List.forall_mem_cons.1 hproper
      rw [List.length_cons] at hmax
      have hshort : (sectionOf lines).length ≤ fuel := by
        rw [sectionOf_cons, List.length_append, List.length_cons] at hfuel
        omega
      rw [parseBlockLoop_line hproper, if_neg (by omega)]
      refine (ih hshort (by rw [hlen]; omega)).2 ⟨lines, rfl, hall, by rw [hlen]; omega, ?_⟩
      rw [hfields, Headers.appendLowercase, List.append_assoc]
      rfl

/-- A section that is read is lines, no more of them than are allowed, and its fields are
    what they say. -/
theorem parseBlock_iff {max : ℕ} {block : Octets} {headers : Headers} : parseBlock block max = .ok headers ↔
    ∃ lines, block = sectionOf lines ∧ (∀ line ∈ lines, line.Proper) ∧ lines.length ≤ max ∧
      headers.fields = lines.map Line.field := by
  have hnew : Headers.new.len = 0 := rfl
  rw [parseBlock, parseBlockLoop_iff (Nat.le_refl _) (Nat.zero_le max), hnew]
  simp only [Nat.zero_add]
  rfl

/-- More lines than are allowed are not read. -/
theorem parseBlock_limit {max : ℕ} {lines : List Line} (hproper : ∀ line ∈ lines, line.Proper) (hmax : max < lines.length) :
    parseBlock (sectionOf lines) max = .error (.limit "more than {max_count} header fields" [.number max]) := by
  have hloop : ∀ (lines : List Line) (fuel : ℕ) (headers : Headers), (∀ line ∈ lines, line.Proper) →
      lines.length ≤ fuel → headers.len ≤ max → max < headers.len + lines.length →
      parseBlockLoop max fuel (sectionOf lines) headers =
        .error (.limit "more than {max_count} header fields" [.number max]) := by
    intro lines
    induction lines with
    | nil => exact fun fuel headers _ _ hroom hmax => absurd hmax (Nat.not_lt.2 hroom)
    | cons line lines ih =>
      intro fuel headers hproper hfuel hroom hmax
      obtain ⟨hproper, hall⟩ := List.forall_mem_cons.1 hproper
      obtain ⟨fuel, rfl⟩ := Nat.exists_eq_succ_of_ne_zero (Nat.ne_zero_of_lt hfuel)
      have hlen (name value : Text) : (headers.appendLowercase name value).len = headers.len + 1 := List.length_append
      rw [List.length_cons] at hfuel hmax
      rw [Nat.succ_eq_add_one, parseBlockLoop_line hproper]
      split_ifs with hfull
      · rfl
      · exact ih fuel _ hall (Nat.le_of_succ_le_succ hfuel) (by rw [hlen]; omega) (by rw [hlen]; omega)
  have hlong : ∀ lines : List Line, lines.length ≤ (sectionOf lines).length := by
    intro lines
    induction lines with
    | nil => exact Nat.le_refl 0
    | cons line lines ih =>
      rw [sectionOf_cons, List.length_append, List.length_cons, List.length_cons]
      omega
  rw [parseBlock]
  exact hloop lines _ .new hproper (hlong lines) (Nat.zero_le max) (by rwa [show Headers.new.len = 0 from rfl, Nat.zero_add])

/-! ## What is written -/

end Field

/-- Casing keeps what an octet is but for its case. -/
theorem Class.casing (octet : UInt8) : Str.lower (Str.lower octet) = Str.lower octet ∧
    Str.lower (Str.upper octet) = Str.lower octet ∧ isTchar (Str.lower octet) = isTchar octet ∧
    isTchar (Str.upper octet) = isTchar octet := by
  have hall : ∀ n < 256, Str.lower (Str.lower (.ofNat n)) = Str.lower (.ofNat n) ∧
      Str.lower (Str.upper (.ofNat n)) = Str.lower (.ofNat n) ∧ isTchar (Str.lower (.ofNat n)) = isTchar (.ofNat n) ∧
      isTchar (Str.upper (.ofNat n)) = isTchar (.ofNat n) := by decide +kernel
  have hoctet := hall octet.toNat octet.toNat_lt
  rw [UInt8.ofNat_toNat] at hoctet
  exact hoctet

namespace HeaderCase

theorem titleLoop_casing (first : Bool) (name : Octets) : (titleLoop first name).map Str.lower = name.map Str.lower ∧
    (titleLoop first name).all Class.isTchar = name.all Class.isTchar := by
  induction name generalizing first with
  | nil => exact ⟨rfl, rfl⟩
  | cons octet name ih =>
    obtain ⟨hlower, htchar⟩ := ih (decide (octet = 0x2d))
    obtain ⟨-, hup, -, htup⟩ := Class.casing octet
    rw [titleLoop, List.map_cons, List.all_cons, hlower, htchar]
    cases first
    · exact ⟨rfl, rfl⟩
    · exact ⟨congrArg (· :: name.map Str.lower) hup, congrArg (· && name.all Class.isTchar) htup⟩

/-- A name in another casing is the same name, and a token where it was. -/
theorem apply_casing (case : HeaderCase) (name : Octets) : (case.apply name).map Str.lower = name.map Str.lower ∧
    Class.isToken (case.apply name) = Class.isToken name := by
  have hmap : (name.map Str.lower).map Str.lower = name.map Str.lower := by
    rw [List.map_map]
    exact List.map_congr_left fun octet _ => (Class.casing octet).1
  have hall : (name.map Str.lower).all Class.isTchar = name.all Class.isTchar := by
    rw [List.all_map]
    exact congrArg (List.all name) (funext fun octet => (Class.casing octet).2.2.1)
  have hempty (octets : Octets) (h : octets.map Str.lower = name.map Str.lower) : octets.isEmpty = name.isEmpty := by
    rw [Bool.eq_iff_iff, List.isEmpty_iff_length_eq_zero, List.isEmpty_iff_length_eq_zero,
      ← List.length_map Str.lower, h, List.length_map]
  cases case with
  | lower => exact ⟨hmap, by rw [apply, Class.isToken, Class.isToken, hall, hempty _ hmap]⟩
  | title =>
    obtain ⟨hlower, htchar⟩ := titleLoop_casing true (name.map Str.lower)
    exact ⟨hlower.trans hmap, by rw [apply, Class.isToken, Class.isToken, htchar, hall, hempty _ (hlower.trans hmap)]⟩

end HeaderCase

namespace Field

/-- The line a field is written as. -/
def Line.ofField (case : HeaderCase) (field : HeaderField) : Line :=
  ⟨case.apply field.name.octets, 0x20 :: field.value.octets⟩

variable {case : HeaderCase} {field : HeaderField}

theorem proper_ofField_iff : (Line.ofField case field).Proper ↔
    Class.isToken field.name.octets = true ∧ Scan.isFieldValue field.value.octets = true := by
  have hvalue : Scan.isFieldValue (0x20 :: field.value.octets) = Scan.isFieldValue field.value.octets := by
    rw [Scan.isFieldValue, List.all_cons]
    exact Bool.true_and _
  constructor
  · rintro ⟨hname, hrest⟩
    exact ⟨(HeaderCase.apply_casing case _).2.symm.trans hname, hvalue.symm.trans hrest⟩
  · rintro ⟨hname, hrest⟩
    exact ⟨(HeaderCase.apply_casing case _).2.trans hname, hvalue.trans hrest⟩

/-- What is written of a field is its line, where that may be sent. -/
theorem write_iff {octets : Octets} : write field.name field.value case = .ok octets ↔
    (Line.ofField case field).Proper ∧ octets = (Line.ofField case field).octets ++ [0x0d, 0x0a] := by
  have hoctets : (Line.ofField case field).octets ++ [0x0d, 0x0a] =
      case.apply field.name.octets ++ [0x3a, 0x20] ++ field.value.octets ++ [0x0d, 0x0a] := by
    rw [Line.octets, Line.ofField, List.append_assoc (case.apply _), List.append_assoc, List.append_assoc (case.apply _)]
    rfl
  rw [proper_ofField_iff, hoctets, write]
  constructor
  · intro h
    split_ifs at h with hname hvalue
    cases h
    exact ⟨⟨by simpa using hname, by simpa using hvalue⟩, rfl⟩
  · rintro ⟨⟨hname, hvalue⟩, rfl⟩
    rw [hname, hvalue, if_neg (by decide), if_neg (by decide)]

/-- What is written of some fields are their lines. -/
theorem writeFields_iff {fields : List HeaderField} {block : Octets} : writeFields case fields = .ok block ↔
    (∀ field ∈ fields, (Line.ofField case field).Proper) ∧ block = sectionOf (fields.map (Line.ofField case)) := by
  induction fields generalizing block with
  | nil =>
    rw [writeFields, Except.ok.injEq]
    exact ⟨fun h => ⟨fun field hfield => absurd hfield List.not_mem_nil, h.symm⟩, fun h => h.2.symm⟩
  | cons field fields ih =>
    have hcons : sectionOf ((field :: fields).map (Line.ofField case)) =
        (Line.ofField case field).octets ++ [0x0d, 0x0a] ++ sectionOf (fields.map (Line.ofField case)) := List.flatMap_cons
    rw [writeFields, List.forall_mem_cons, hcons]
    constructor
    · intro h
      rcases hwrite : write field.name field.value case with error | line <;> rw [hwrite] at h
      · cases h
      · obtain ⟨rest, hrest, rfl⟩ := Except.map_eq_ok h
        obtain ⟨hproper, rfl⟩ := write_iff.1 hwrite
        obtain ⟨hall, rfl⟩ := ih.1 hrest
        exact ⟨⟨hproper, hall⟩, rfl⟩
    · rintro ⟨⟨hproper, hall⟩, rfl⟩
      rw [write_iff.2 ⟨hproper, rfl⟩, ih.2 ⟨hall, rfl⟩]
      rfl

/-- The field of the line a field is written as is that field, its name in lower case and
    its value without the blanks around it. -/
theorem field_ofField (case : HeaderCase) (field : HeaderField) :
    (Line.ofField case field).field.name.octets = field.name.octets.map Str.lower ∧
      (Line.ofField case field).field.value.octets = trim field.value.octets := by
  have htrim : trim (0x20 :: field.value.octets) = trim field.value.octets := rfl
  have hname : Utf8.valid (field.name.octets.map Str.lower) .ground = true :=
    (Utf8.valid_map_lower field.name.octets (s := .ground) trivial).trans field.name.valid
  constructor
  · rw [Line.field, Line.ofField, (HeaderCase.apply_casing case _).1, Text.fromVerifiedAscii_eq]
    exact congrArg Text.octets (Text.fromUtf8Lossy_octets ⟨_, hname⟩)
  · have hvalue : (Text.fromUtf8Lossy (trim field.value.octets)).octets = trim field.value.octets :=
      congrArg Text.octets (Text.fromUtf8Lossy_octets ⟨_, valid_trim field.value⟩)
    rw [Line.field, Line.ofField, htrim, Text.fromVerifiedAscii_eq, Text.fromVerifiedAscii_eq, ite_self]
    exact hvalue

/-- What is written of some fields is read as them, where as many are allowed. -/
theorem parseBlock_written {fields : List HeaderField} {block : Octets} {max : ℕ} (h : writeFields case fields = .ok block)
    (hmax : fields.length ≤ max) : ∃ headers, parseBlock block max = .ok headers ∧
      headers.fields.map (fun field => (field.name.octets, field.value.octets)) =
        fields.map fun field => (field.name.octets.map Str.lower, trim field.value.octets) := by
  obtain ⟨hproper, rfl⟩ := writeFields_iff.1 h
  refine ⟨.adopt ((fields.map (Line.ofField case)).map Line.field), parseBlock_iff.2
    ⟨fields.map (Line.ofField case), rfl, List.forall_mem_map.2 hproper, by rwa [List.length_map], rfl⟩, ?_⟩
  rw [Headers.adopt, List.map_map, List.map_map]
  refine List.map_congr_left fun field _ => ?_
  obtain ⟨hname, hvalue⟩ := field_ofField case field
  exact Prod.ext hname hvalue

/-! ## What is refused -/

/-- A line of a block begins with `text`. -/
def Begins (block text : Octets) : Prop := ∃ before, block = before ++ text ∧ (before = [] ∨ before.getLast? = some 0x0a)

/-- What a section must not hold: an LF without its CR or a CR without its LF, any other
    control octet, a line that goes on the one before, one without a name, and one with a
    blank before its colon. -/
inductive Improper (block : Octets) : Prop
  | bareLf (before after : Octets) (h : block = before ++ 0x0a :: after) (hcr : before.getLast? ≠ some 0x0d)
  | bareCr (before after : Octets) (h : block = before ++ 0x0d :: after) (hlf : after.head? ≠ some 0x0a)
  | control (octet : UInt8) (h : octet ∈ block) (hcontrol : Scan.isControl octet = true) (hcr : octet ≠ 0x0d) (hlf : octet ≠ 0x0a)
  | folded (octet : UInt8) (rest : Octets) (h : Begins block (octet :: rest)) (hblank : isBlank octet = true)
  | unnamed (rest : Octets) (h : Begins block (0x3a :: rest))
  | spaced (name rest : Octets) (octet : UInt8) (h : Begins block (name ++ octet :: 0x3a :: rest)) (hblank : isBlank octet = true)
      (hcolon : 0x3a ∉ name)

variable {line : Line} {lines : List Line}

theorem Line.Proper.free (h : line.Proper) : (0x0a : UInt8) ∉ line.octets ++ [0x0d] ∧ (0x0d : UInt8) ∉ line.octets := by
  constructor
  · intro hmem
    rcases List.mem_append.1 hmem with hmem | hmem
    · exact Bool.false_ne_true ((h.plain _ hmem).symm.trans rfl)
    · exact absurd (List.mem_singleton.1 hmem) (by decide)
  · exact fun hmem => Bool.false_ne_true ((h.plain _ hmem).symm.trans rfl)

/-- Before an LF there is a CR. -/
theorem cr_of_sectionOf (hproper : ∀ line ∈ lines, line.Proper) {before after : Octets}
    (h : before ++ 0x0a :: after = sectionOf lines) : before.getLast? = some 0x0d := by
  induction lines generalizing before with
  | nil => exact absurd h (by simp [sectionOf])
  | cons line lines ih =>
    obtain ⟨hline, hall⟩ := List.forall_mem_cons.1 hproper
    rw [sectionOf_cons] at h
    obtain ⟨rest, rfl, hrest⟩ := cut_behind h hline.free.1
    rcases rest with - | ⟨octet, rest⟩
    · rw [List.append_nil, List.getLast?_append]
      rfl
    · -- The LF is of a later line.
      obtain ⟨rfl, hlater⟩ := List.cons.inj hrest
      have hlast := ih hall hlater
      rw [List.getLast?_append, List.getLast?_cons, hlast]
      rfl

/-- Behind a CR there is an LF. -/
theorem lf_of_sectionOf (hproper : ∀ line ∈ lines, line.Proper) {before after : Octets}
    (h : before ++ 0x0d :: after = sectionOf lines) : after.head? = some 0x0a := by
  induction lines generalizing before with
  | nil => exact absurd h (by simp [sectionOf])
  | cons line lines ih =>
    obtain ⟨hline, hall⟩ := List.forall_mem_cons.1 hproper
    rw [sectionOf_cons, List.append_assoc] at h
    obtain ⟨rest, rfl, hrest⟩ := cut_behind h hline.free.2
    rcases rest with - | ⟨cr, - | ⟨lf, rest⟩⟩
    · rw [(List.cons.inj hrest).2]
      rfl
    · exact absurd (List.cons.inj (List.cons.inj hrest).2).1 (by decide)
    · exact ih hall (List.cons.inj (List.cons.inj hrest).2).2

/-- Where a line begins, one of the lines does, or nothing is left. -/
theorem begins_sectionOf (hproper : ∀ line ∈ lines, line.Proper) {text : Octets} (h : Begins (sectionOf lines) text) :
    text = [] ∨ ∃ line ∈ lines, ∃ rest, text = line.octets ++ rest := by
  obtain ⟨before, hblock, hbegins⟩ := h
  induction lines generalizing before with
  | nil => exact Or.inl (List.append_eq_nil_iff.1 hblock.symm).2
  | cons line lines ih =>
    obtain ⟨hline, hall⟩ := List.forall_mem_cons.1 hproper
    rcases hbegins with rfl | hlast
    · refine Or.inr ⟨line, List.mem_cons_self, 0x0d :: 0x0a :: sectionOf lines, ?_⟩
      rw [← List.nil_append text, ← hblock, sectionOf_cons, List.append_assoc]
      rfl
    · obtain ⟨front, rfl⟩ := List.getLast?_eq_some_iff.1 hlast
      rw [sectionOf_cons, List.append_assoc front] at hblock
      obtain ⟨rest, -, hrest⟩ := cut_behind hblock.symm hline.free.1
      have hlater : Begins (sectionOf lines) text := by
        rcases rest with - | ⟨octet, rest⟩
        · exact ⟨[], (List.cons.inj hrest).2.symm, Or.inl rfl⟩
        · refine ⟨rest ++ [0x0a], ?_, Or.inr List.getLast?_concat⟩
          rw [List.append_assoc]
          exact (List.cons.inj hrest).2.symm
      obtain ⟨before, hblock, hbegins⟩ := hlater
      rcases ih hall before hblock hbegins with hnil | ⟨line', hmem, hrest⟩
      · exact Or.inl hnil
      · exact Or.inr ⟨line', List.mem_cons_of_mem line hmem, hrest⟩

/-- What a section must not hold is refused. -/
theorem improper_refused {block : Octets} (h : Improper block) (max : ℕ) : ∃ e, parseBlock block max = .error e := by
  rcases hparse : parseBlock block max with e | headers
  · exact ⟨e, rfl⟩
  obtain ⟨lines, rfl, hproper, -, -⟩ := parseBlock_iff.1 hparse
  refine absurd h ?_
  rintro (⟨before, after, hblock, hcr⟩ | ⟨before, after, hblock, hlf⟩ | ⟨octet, hmem, hcontrol, hcr, hlf⟩ |
    ⟨octet, rest, hbegins, hblank⟩ | ⟨rest, hbegins⟩ | ⟨name, rest, octet, hbegins, hblank, hcolon⟩)
  · exact hcr (cr_of_sectionOf hproper hblock.symm)
  · exact hlf (lf_of_sectionOf hproper hblock.symm)
  · obtain ⟨line, hline, hmem⟩ := List.mem_flatMap.1 hmem
    rcases List.mem_append.1 hmem with hmem | hmem
    · exact Bool.false_ne_true (((hproper line hline).plain octet hmem).symm.trans hcontrol)
    · rcases List.mem_cons.1 hmem with heq | hmem
      · exact hcr heq
      · exact hlf (List.mem_singleton.1 hmem)
  · -- A line begins with an octet of a token, which is no blank.
    rcases begins_sectionOf hproper hbegins with hnil | ⟨line, hline, rest', htext⟩
    · cases hnil
    · obtain ⟨first, tail, hfirst, htchar⟩ := (hproper line hline).head
      rw [hfirst] at htext
      obtain ⟨rfl, -⟩ := List.cons.inj htext
      exact Bool.false_ne_true ((Class.plain_of_isTchar htchar).2.1.symm.trans hblank)
  · rcases begins_sectionOf hproper hbegins with hnil | ⟨line, hline, rest', htext⟩
    · cases hnil
    · obtain ⟨first, tail, hfirst, htchar⟩ := (hproper line hline).head
      rw [hfirst] at htext
      obtain ⟨rfl, -⟩ := List.cons.inj htext
      exact (Class.plain_of_isTchar htchar).2.2.1 rfl
  · rcases begins_sectionOf hproper hbegins with hnil | ⟨line, hline, rest', htext⟩
    · exact absurd hnil (by simp)
    · -- The first colon ends the name, and the blank would be of it.
      have hfree : (0x3a : UInt8) ∉ name ++ [octet] := by
        intro hmem
        rcases List.mem_append.1 hmem with hmem | hmem
        · exact hcolon hmem
        · rw [← List.mem_singleton.1 hmem] at hblank
          exact Bool.false_ne_true hblank
      have hsame : line.name ++ 0x3a :: (line.rest ++ rest') = (name ++ [octet]) ++ 0x3a :: rest := by
        rw [List.append_assoc]
        refine Eq.trans ?_ htext.symm
        rw [Line.octets, List.append_assoc]
        rfl
      obtain ⟨more, hname, -⟩ := cut_behind hsame hfree
      have hmem : octet ∈ line.name := hname ▸ List.mem_append_left _ (List.mem_append_right _ List.mem_cons_self)
      exact Bool.false_ne_true ((Class.plain_of_isTchar ((hproper line hline).tchar octet hmem)).2.1.symm.trans hblank)

/-! ## Where a section ends -/

/-- Looks for the end of a section in one beginning after another, each time from where the
    last search left off. A search that finds it leaves the mark where it was. -/
def resumed (searched : ℕ) : List Octets → List (Option (ℕ × ℕ))
  | [] => []
  | data :: more =>
    match blockEnd data searched with
    | (none, searched') => none :: resumed searched' more
    | (some found, _) => some found :: resumed searched more

/-- A search that goes on answers as one from the start does: before the mark no section
    ends, whatever comes behind. -/
theorem resumed_eq {prefixes : List Octets} {searched : ℕ} (h : prefixes.Pairwise (· <+: ·))
    (hmark : ∀ data ∈ prefixes, ∀ i < searched, isBlankLine data i = false ∧ i + 2 < data.length) :
    resumed searched prefixes = prefixes.map fun data => (blockEnd data 0).1 := by
  induction prefixes generalizing searched with
  | nil => rfl
  | cons data more ih =>
    obtain ⟨hfirst, hmore⟩ := List.pairwise_cons.1 h
    obtain ⟨hdata, hlater⟩ := List.forall_mem_cons.1 hmark
    obtain ⟨hend, hknown⟩ := blockEnd_spec fun i hi => (hdata i hi).1
    have hstart : (blockEnd data 0).1 = endFront data := (blockEnd_spec fun i hi => absurd hi (Nat.not_lt_zero i)).1
    rw [List.map_cons, hstart, ← hend, resumed]
    rcases hblock : blockEnd data searched with ⟨_ | found, searched'⟩
    · -- What was searched has its two octets behind it, and so stays free of an end.
      rw [hblock] at hknown
      refine congrArg (none :: ·) (ih hmore fun total htotal i hi => ?_)
      obtain ⟨hno, hbefore⟩ := hknown i hi
      have hlt : i + 2 < data.length := hbefore.elim (fun hi => (hdata i hi).2) id
      have hfront := hfirst total htotal
      exact ⟨(isBlankLine_of_isPrefix hfront hlt).trans hno, hlt.trans_le hfront.length_le⟩
    · exact congrArg (some found :: ·) (ih hmore hlater)

/-- A section that may be written is one line for each field, and is read as those fields,
    the blanks around a value aside, unless there are too many. What must not stand in a
    section is refused wherever it stands. And a search for the end of a section that goes
    on as octets come finds the end that a search from the start finds. -/
theorem sections_exact :
    (∀ (case : HeaderCase) (fields : List HeaderField),
      (∀ field ∈ fields, ∃ octets, write field.name field.value case = .ok octets) →
      ∃ lines : List Octets, lines = fields.map (fun field => case.apply field.name.octets ++ lit ": " ++ field.value.octets) ∧
        (∀ line ∈ lines, 0x0d ∉ line ∧ 0x0a ∉ line) ∧
        writeFields case fields = .ok (lines.flatMap (· ++ [0x0d, 0x0a])) ∧
        ∀ max, if fields.length ≤ max then
            ∃ headers, parseBlock (lines.flatMap (· ++ [0x0d, 0x0a])) max = .ok headers ∧
              headers.fields.map (fun field => (field.name.octets, field.value.octets)) =
                fields.map fun field => (field.name.octets.map Str.lower, trim field.value.octets)
          else parseBlock (lines.flatMap (· ++ [0x0d, 0x0a])) max =
            .error (.limit "more than {max_count} header fields" [.number max])) ∧
      (∀ block, Improper block → ∀ max, ∃ e, parseBlock block max = .error e) ∧
      ∀ (octets : Octets) (cuts : List ℕ), cuts.Pairwise (· ≤ ·) →
        resumed 0 (cuts.map octets.take) = cuts.map fun cut => (blockEnd (octets.take cut) 0).1 := by
  refine ⟨fun case fields hwrite => ?_, fun block h max => improper_refused h max, fun octets cuts hcuts => ?_⟩
  · have hproper : ∀ field ∈ fields, (Line.ofField case field).Proper := fun field hfield =>
      (write_iff.1 (hwrite field hfield).choose_spec).1
    have hline : ∀ field, case.apply field.name.octets ++ lit ": " ++ field.value.octets = (Line.ofField case field).octets := by
      intro field
      rw [show lit ": " = [0x3a, 0x20] from rfl, List.append_assoc]
      rfl
    have hblock : (fields.map fun field => case.apply field.name.octets ++ lit ": " ++ field.value.octets).flatMap
        (· ++ [0x0d, 0x0a]) = sectionOf (fields.map (Line.ofField case)) := by
      rw [sectionOf, List.flatMap_map, List.flatMap_map]
      exact List.flatMap_congr fun field _ => by rw [hline]
    have hwritten : writeFields case fields = .ok (sectionOf (fields.map (Line.ofField case))) :=
      writeFields_iff.2 ⟨hproper, rfl⟩
    refine ⟨_, rfl, fun line hmem => ?_, by rw [hblock, hwritten], fun max => ?_⟩
    · obtain ⟨field, hfield, rfl⟩ := List.mem_map.1 hmem
      rw [hline]
      obtain ⟨hlf, hcr⟩ := (hproper field hfield).free
      exact ⟨hcr, fun hmem => hlf (List.mem_append_left _ hmem)⟩
    · rw [hblock]
      split_ifs with hmax
      · exact parseBlock_written hwritten hmax
      · exact parseBlock_limit (List.forall_mem_map.2 hproper) (by rwa [List.length_map, ← Nat.not_le])
  · have hprefixes : (cuts.map octets.take).Pairwise (· <+: ·) :=
      List.pairwise_map.2 (hcuts.imp fun hle => List.take_prefix_take_left hle)
    rw [resumed_eq hprefixes fun data _ i hi => absurd hi (Nat.not_lt_zero i), List.map_map]
    rfl

end Field

end Soyokaze

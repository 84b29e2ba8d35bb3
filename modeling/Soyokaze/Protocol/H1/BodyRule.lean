import Soyokaze.Helpers.Strings
import Soyokaze.Lib.Numeral
import Soyokaze.Protocol.H1.FieldLines

/-!
# How a body is framed, from the octets

What frames a body is worked out from lists in a message's own fields, which are read as strings:
octets that are none are mended first, and all that Unicode calls white space is taken off the
elements of a list. Read from the octets, an element stands between blanks and nothing else.

* `Str.split_lossy`: the elements of a list are mended one by one;
* `Field.trim_lossy`: an element that is printed between blanks is read alike either way;
* `BodyLength.of_iff`: the length worked out is what the strings frame;
* `BodyLength.framed_alike_iff`: and where that is what the octets frame.
-/

namespace Soyokaze

namespace Utf8

/-- ASCII is part of no longer scalar: what stands before it is mended on its own. -/
theorem lossy_ascii {octet : UInt8} (hoctet : octet < 0x80) (before after : Octets) {s : State} (held : Octets)
    (hs : s.High) : lossy (before ++ octet :: after) s held = lossy before s held ++ octet :: lossy after .ground [] := by
  have hlead : lead octet = some .ground := by rw [lead, if_pos hoctet]
  induction before generalizing s held with
  | nil =>
    cases s with
    | ground => simp only [List.nil_append, lossy, hlead]
    | expect lo hi more =>
      have hlo : ¬ (lo ≤ octet ∧ octet ≤ hi) := fun h => UInt8.not_lt.2 (UInt8.le_trans hs h.1) hoctet
      simp only [List.nil_append, lossy, hlead, if_neg hlo]
  | cons first before ih =>
    have hrestart (held : Octets) : lossy (first :: (before ++ octet :: after)) .ground held =
        lossy (first :: before) .ground held ++ octet :: lossy after .ground [] := by
      simp only [lossy]
      cases hfirst : lead first with
      | none =>
        dsimp only
        rw [ih (s := .ground) [] trivial, List.append_assoc]
      | some s =>
        cases s with
        | ground =>
          dsimp only
          rw [ih (s := .ground) [] trivial, List.cons_append]
        | expect lo hi more => exact ih [first] (high_lead hfirst)
    cases s with
    | ground => exact hrestart held
    | expect lo hi more =>
      have hagain := hrestart []
      simp only [lossy] at hagain
      simp only [List.cons_append, lossy]
      split_ifs with hin
      · cases more with
        | zero =>
          dsimp only
          rw [ih (s := .ground) [] trivial, List.append_assoc, List.cons_append]
        | succ more => exact ih (held ++ [first]) (high_next _)
      · rw [hagain, List.append_assoc]

/-- Mending adds the octets of its mark and no others. -/
theorem mem_lossy {octet : UInt8} {text : Octets} {s : State} {held : Octets} (h : octet ∈ lossy text s held) :
    octet ∈ held ∨ octet ∈ text ∨ octet ∈ replacement := by
  induction text generalizing s held with
  | nil =>
    cases s with
    | ground => exact absurd h List.not_mem_nil
    | expect lo hi more => exact .inr (.inr h)
  | cons first text ih =>
    have hrestart (hmem : octet ∈ lossy (first :: text) .ground []) : octet ∈ first :: text ∨ octet ∈ replacement := by
      simp only [lossy] at hmem
      cases hfirst : lead first with
      | none =>
        rw [hfirst] at hmem
        rcases List.mem_append.1 hmem with hmem | hmem
        · exact .inr hmem
        · have := ih hmem
          grind
      | some s =>
        rw [hfirst] at hmem
        cases s with
        | ground =>
          have := fun h => @ih .ground [] h
          grind
        | expect lo hi more =>
          have := ih hmem
          grind
    cases s with
    | ground =>
      exact .inr (hrestart (by simpa only [lossy] using h))
    | expect lo hi more =>
      simp only [lossy] at h hrestart
      split_ifs at h with hin
      · cases more with
        | zero =>
          have := fun h => @ih .ground [] h
          grind
        | succ more =>
          have := ih h
          grind
      · rcases List.mem_append.1 h with h | h
        · exact .inr (.inr h)
        · exact .inr (hrestart h)

theorem lossy_of_ascii {octets : Octets} (h : isAscii octets = true) : lossy octets .ground [] = octets :=
  lossy_of_valid (valid_of_ascii h) fun _ => rfl

end Utf8

namespace Str

/-- The pieces between commas are mended one by one. -/
theorem split_lossy (text : Octets) :
    split (Utf8.lossy text .ground []) 0x2c = (split text 0x2c).map (Utf8.lossy · .ground []) := by
  by_cases hcomma : (0x2c : UInt8) ∈ text
  · obtain ⟨before, after, htext⟩ := List.append_of_mem hcomma
    have hbefore : before.length < text.length := by
      rw [htext, List.length_append, List.length_cons]
      omega
    have hafter : after.length < text.length := by
      rw [htext, List.length_append, List.length_cons]
      omega
    have hmended := Utf8.lossy_ascii (show (0x2c : UInt8) < 0x80 by decide) before after (s := .ground) [] trivial
    rw [htext, hmended, split_append, split_append, List.map_append, split_lossy before, split_lossy after]
  · have hmended : (0x2c : UInt8) ∉ Utf8.lossy text .ground [] := fun hmem => by
      rcases Utf8.mem_lossy hmem with hmem | hmem | hmem
      · exact List.not_mem_nil hmem
      · exact hcomma hmem
      · exact absurd hmem (by decide)
    rw [split_of_notMem hcomma, split_of_notMem hmended]
    rfl
termination_by text.length

/-- Blanks are taken off the front. -/
theorem trimStart_blanks {before : Octets} (hbefore : before.all Field.isBlank = true) (text : Octets) (fuel : ℕ) :
    trimStart (before.length + fuel) (before ++ text) = trimStart fuel text := by
  induction before with
  | nil => rw [List.length_nil, Nat.zero_add, List.nil_append]
  | cons octet before ih =>
    rw [List.all_cons, Bool.and_eq_true] at hbefore
    have hfind : WHITE_SPACE.find? (·.isPrefixOf (octet :: (before ++ text))) = some [octet] := by
      have hblank := hbefore.1
      rw [Field.isBlank, Bool.or_eq_true, beq_iff_eq, beq_iff_eq] at hblank
      rcases hblank with rfl | rfl <;> simp [WHITE_SPACE, List.isPrefixOf]
    rw [List.cons_append, List.length_cons, Nat.add_right_comm, trimStart, hfind]
    exact ih hbefore.2

/-- And off the back. -/
theorem trimEnd_blanks {after : Octets} (hafter : after.all Field.isBlank = true) (text : Octets) (fuel : ℕ) :
    trimEnd (after.length + fuel) (text ++ after) = trimEnd fuel text := by
  induction after using List.reverseRecOn with
  | nil => rw [List.length_nil, Nat.zero_add, List.append_nil]
  | append_singleton after octet ih =>
    rw [List.all_append, Bool.and_eq_true, List.all_cons, List.all_nil, Bool.and_true] at hafter
    have hfind : WHITE_SPACE.find? (·.isSuffixOf (text ++ after ++ [octet])) = some [octet] := by
      have hblank := hafter.2
      rw [Field.isBlank, Bool.or_eq_true, beq_iff_eq, beq_iff_eq] at hblank
      rcases hblank with rfl | rfl <;> simp [WHITE_SPACE, List.isSuffixOf, List.isPrefixOf]
    rw [List.length_append, List.length_singleton, Nat.add_right_comm, ← List.append_assoc, trimEnd, hfind]
    dsimp only
    rw [List.length_append, List.length_singleton, Nat.add_sub_cancel, List.take_left]
    exact ih hafter.1

end Str

namespace Field

/-! ## What is looked up -/

/-- The name of the field that a line is, in lower case. -/
theorem octets_name {line : Line} (h : line.Proper) : line.field.name.octets = line.name.map Str.lower := by
  have hascii : isAscii line.name = true := List.all_eq_true.2 fun octet hoctet =>
    decide_eq_true (Class.plain_of_isTchar (h.tchar octet hoctet)).2.2.2
  have hvalid : Utf8.valid (line.name.map Str.lower) .ground = true :=
    (Utf8.valid_map_lower line.name (s := .ground) trivial).trans (Utf8.valid_of_ascii hascii)
  rw [Line.field, Text.fromVerifiedAscii_eq]
  exact congrArg Text.octets (Text.fromUtf8Lossy_octets ⟨_, hvalid⟩)

/-- And its value, mended. -/
theorem octets_value (line : Line) : line.field.value.octets = Utf8.lossy (trim line.rest) .ground [] := by
  rw [Line.field]
  dsimp only
  rw [Text.fromVerifiedAscii_eq, ite_self, Text.octets_fromUtf8Lossy]

/-- The line has a name, whatever the case of its letters. -/
def Line.named (name : String) (line : Line) : Bool := Str.eqIgnoreAsciiCase line.name (lit name)

/-- The elements of the list that the lines with a name hold. -/
def elements (lines : List Line) (name : String) : List Octets :=
  (lines.filter (Line.named name)).flatMap fun line => Str.split (trim line.rest) 0x2c

/-- A name as it is looked up: in lower case. -/
structure Sought (name : String) : Prop where
  octets : (Text.lit name).octets = lit name
  lower : (lit name).map Str.lower = lit name

variable {m : Message} {headers : Headers} {lines : List Line} {name : String}

theorem named_field (hname : Sought name) {line : Line} (h : line.Proper) :
    Headers.named line.field.name (.lit name) = line.named name := by
  have hlower : (line.name.map Str.lower).map Str.lower = line.name.map Str.lower :=
    Str.toAsciiLowercase_toAsciiLowercase line.name
  rw [Headers.named, octets_name h, Line.named, Str.eqIgnoreAsciiCase, Str.eqIgnoreAsciiCase, hlower, hname.octets]

/-- The presence bits rule out no line that is there. -/
theorem absent_of_named (hname : Sought name) (hproper : ∀ line ∈ lines, line.Proper)
    (hfields : headers.fields = lines.map Line.field) (h : lines.any (Line.named name) = true) :
    headers.absent (.lit name) = false := by
  obtain ⟨line, hline, hnamed⟩ := List.any_eq_true.1 h
  have heq : line.field.name = .lit name := by
    refine Text.ext ?_
    rw [Line.named, Str.eqIgnoreAsciiCase, beq_iff_eq, hname.lower] at hnamed
    rw [octets_name (hproper line hline), hnamed, hname.octets]
  have hmem : line.field ∈ headers.fields := by
    rw [hfields]
    exact List.mem_map_of_mem hline
  exact heq ▸ Headers.absent_sound hmem

theorem carries_of_lines (hname : Sought name) (hproper : ∀ line ∈ lines, line.Proper)
    (hfields : headers.fields = lines.map Line.field) (hm : m.headers = some headers) :
    m.carries name = lines.any (Line.named name) := by
  have hany : headers.fields.any (Headers.named ·.name (.lit name)) = lines.any (Line.named name) := by
    rw [hfields, List.any_map, Bool.eq_iff_iff, List.any_eq_true, List.any_eq_true]
    refine exists_congr fun line => and_congr_right fun hline => ?_
    rw [Function.comp, named_field hname (hproper line hline)]
  rw [Message.carries, hm]
  dsimp only
  rw [Headers.contains, hany]
  cases hlines : lines.any (Line.named name) with
  | false => exact Bool.and_false _
  | true =>
    rw [absent_of_named hname hproper hfields hlines]
    rfl

theorem values_of_lines (hname : Sought name) (hproper : ∀ line ∈ lines, line.Proper)
    (hfields : headers.fields = lines.map Line.field) (hm : m.headers = some headers) :
    m.values name = (lines.filter (Line.named name)).map fun line => Utf8.lossy (trim line.rest) .ground [] := by
  have hfilter : headers.fields.filter (Headers.named ·.name (.lit name)) =
      (lines.filter (Line.named name)).map Line.field := by
    rw [hfields, List.filter_map]
    refine congrArg _ (List.filter_congr fun line hline => ?_)
    exact named_field hname (hproper line hline)
  rw [Message.values, hm]
  dsimp only
  rw [Headers.getAll]
  split_ifs with habsent
  · have hnone : lines.filter (Line.named name) = [] := List.filter_eq_nil_iff.2 fun line hline hnamed => by
      rw [absent_of_named hname hproper hfields (List.any_eq_true.2 ⟨line, hline, hnamed⟩)] at habsent
      cases habsent
    rw [hnone]
    rfl
  · rw [hfilter, List.map_map, List.map_map]
    exact List.map_congr_left fun line _ => octets_value line

/-- The elements of a list of values are those of the lines, mended. -/
theorem pieces_of_lines (hvalues : m.values name = (lines.filter (Line.named name)).map fun line =>
    Utf8.lossy (trim line.rest) .ground []) :
    (m.values name).flatMap (Str.split · 0x2c) = (elements lines name).map (Utf8.lossy · .ground []) := by
  rw [hvalues, elements, List.flatMap_map, List.map_flatMap]
  exact congrArg (List.flatMap · _) (funext fun line => Str.split_lossy (trim line.rest))

/-- The last element is the last of the last value. -/
theorem getLast?_pieces {values : List Octets} (h : values ≠ []) :
    (values.flatMap (Str.split · 0x2c)).getLast? = (Str.split (values.getLast?.getD []) 0x2c).getLast? := by
  obtain ⟨first, last, rfl⟩ := (List.eq_nil_or_concat' _).resolve_left h
  obtain ⟨piece, pieces, hsplit⟩ := Str.exists_split last 0x2c
  rw [List.flatMap_append, List.flatMap_singleton, List.getLast?_concat, Option.getD_some, hsplit,
    List.getLast?_append_of_ne_nil _ (List.cons_ne_nil _ _)]

/-! ## What is taken off an element -/

/-- What is printed between blanks is what is left, whatever white space is taken off. -/
theorem trim_lossy {element : Octets} (hsome : trim element ≠ [])
    (hprinted : ∀ octet ∈ trim element, 0x20 < octet ∧ octet < 0x7f) :
    Str.trim (Utf8.lossy element .ground []) = trim element := by
  obtain ⟨before, after, hvalue, hbefore, hafter⟩ := exists_trim element
  generalize trim element = printed at hsome hprinted hvalue ⊢
  have hblanks {text : Octets} (h : text.all isBlank = true) : isAscii text = true := List.all_eq_true.2 fun octet hoctet =>
    decide_eq_true (isControl_of_isBlank (List.all_eq_true.1 h octet hoctet)).2
  have hascii : isAscii element = true := by
    have hmiddle : isAscii printed = true := List.all_eq_true.2 fun octet hoctet =>
      decide_eq_true (UInt8.lt_trans (hprinted octet hoctet).2 (show (0x7f : UInt8) < 0x80 by decide))
    rw [hvalue, isAscii, List.all_append, List.all_append, Bool.and_eq_true, Bool.and_eq_true]
    exact ⟨⟨hblanks hbefore, hmiddle⟩, hblanks hafter⟩
  have hstart : Str.StartBare (printed ++ after) := fun space hspace hfront => by
    have hheads : ∀ space ∈ Str.WHITE_SPACE, (space.head?.map fun octet => decide (0x20 < octet ∧ octet < 0x7f)) = some false := by
      decide
    obtain ⟨octet, rest, rfl⟩ := List.exists_cons_of_ne_nil hsome
    rcases space with - | ⟨head, space⟩
    · cases hheads _ hspace
    · obtain ⟨rfl, -⟩ := List.cons_prefix_cons.1 hfront
      have hhead := hheads _ hspace
      rw [List.head?_cons, Option.map_some, decide_eq_true (hprinted head List.mem_cons_self)] at hhead
      cases hhead
  have hend : Str.EndBare printed := (Str.trim_eq_self_iff.1 (Str.trim_of_printed hprinted)).2
  rw [Utf8.lossy_of_ascii hascii, Str.trim, hvalue, List.append_assoc, List.length_append, Str.trimStart_blanks hbefore,
    Str.trimStart_of_bare hstart, List.length_append, Nat.add_comm, Str.trimEnd_blanks hafter, Str.trimEnd_of_bare hend]

end Field

namespace BodyLength

open Soyokaze.Field

/-! ## Two readings -/

/-- A way to read the elements of a list: which are the chunked coding, and which a length. -/
structure Reading where
  chunked : Octets → Prop
  length : Octets → ℕ → Prop

/-- Digits that spell a length of 64 bits. -/
structure Spells (digits : Octets) (length : ℕ) : Prop where
  nonempty : digits ≠ []
  decimal : digits.all Str.isDigit = true
  value : Numeral.read 10 (fun digit : UInt8 => digit.toNat - 0x30) digits = length
  fits : length < USIZE

/-- An element is the octets between the blanks around it. -/
def Reading.octets : Reading where
  chunked element := Str.eqIgnoreAsciiCase (trim element) CHUNKED = true
  length element length := Spells (trim element) length

/-- An element is a string without the white space around it. -/
def Reading.strings : Reading where
  chunked element := Str.eqIgnoreAsciiCase (Str.trim (Utf8.lossy element .ground [])) CHUNKED = true
  length element length := Spells (Str.trim (Utf8.lossy element .ground [])) length

theorem contentLength_iff {value : Octets} {length : ℕ} : contentLength value = .ok length ↔ Spells value length := by
  have hgood : ¬(value.isEmpty = true ∨ (!value.all Str.isDigit) = true) ↔ value ≠ [] ∧ value.all Str.isDigit = true := by
    rw [not_or, List.isEmpty_iff, Bool.not_eq_true', Bool.not_eq_false]
  have hread : value.foldl (fun length digit => length * 10 + (digit.toNat - 0x30)) 0 =
      Numeral.read 10 (fun digit : UInt8 => digit.toNat - 0x30) value := rfl
  rw [contentLength, hread]
  dsimp only
  constructor
  · intro h
    split_ifs at h with hbad hlarge
    cases h
    obtain ⟨hsome, hdigits⟩ := hgood.1 hbad
    exact ⟨hsome, hdigits, rfl, Nat.not_le.1 hlarge⟩
  · rintro ⟨hsome, hdigits, hvalue, hfits⟩
    rw [if_neg (hgood.2 ⟨hsome, hdigits⟩), hvalue, if_neg (Nat.not_le.2 hfits)]

/-- What is the chunked coding between blanks is so as a string. -/
theorem chunked_strings {element : Octets} (h : Reading.octets.chunked element) : Reading.strings.chunked element := by
  have hletters : ∀ n < 256, Str.lower (.ofNat n) ∈ lit "chunked" → (0x20 : UInt8) < .ofNat n ∧ UInt8.ofNat n < 0x7f := by
    decide +kernel
  have hchunked : (trim element).map Str.lower = lit "chunked" := beq_iff_eq.1 h
  have hprinted : ∀ octet ∈ trim element, 0x20 < octet ∧ octet < 0x7f := fun octet hoctet => by
    have hlower := hletters octet.toNat octet.toNat_lt
    rw [UInt8.ofNat_toNat] at hlower
    exact hlower (hchunked ▸ List.mem_map_of_mem hoctet)
  have hsome : trim element ≠ [] := fun hnil => by
    rw [hnil] at hchunked
    exact absurd hchunked (by decide)
  rw [Reading.strings]
  dsimp only
  rw [trim_lossy hsome hprinted]
  exact h

/-- And so is a length. -/
theorem length_strings {element : Octets} {length : ℕ} (h : Reading.octets.length element length) :
    Reading.strings.length element length := by
  rw [Reading.strings]
  dsimp only
  rw [trim_lossy h.nonempty (Str.printed_of_digits h.decimal)]
  exact h

/-! ## What frames a body -/

variable {m : Message} {method : Option Method} {headers : Headers} {lines : List Line} {length : BodyLength}

/-- A response that ends at its fields, by its status or by the method that it answers. -/
def Bodiless (m : Message) (method : Option Method) : Prop :=
  ∃ status, m.statusCode = some status ∧ (method = some .HEAD ∨ (100 ≤ status ∧ status < 200) ∨ status = 204 ∨
    status = 304 ∨ (method = some .CONNECT ∧ 200 ≤ status ∧ status < 300))

/-- The last element is the chunked coding, and no other is. -/
def Lone (chunked : Octets → Prop) (elements : List Octets) : Prop :=
  ∃ codings last, elements = codings ++ [last] ∧ chunked last ∧ ∀ coding ∈ codings, ¬ chunked coding

/-- What the fields of a message frame its body by, their lists read in one way. -/
inductive Labelled (r : Reading) (request : Bool) (lines : List Line) : BodyLength → Prop
  | chunked (hencoded : lines.any (Line.named "transfer-encoding") = true)
      (hmeasured : lines.any (Line.named "content-length") = false)
      (hlone : Lone r.chunked (elements lines "transfer-encoding")) : Labelled r request lines .chunked
  | coded (hencoded : lines.any (Line.named "transfer-encoding") = true)
      (hmeasured : lines.any (Line.named "content-length") = false) (hresponse : request = false)
      (hnone : ∀ coding ∈ elements lines "transfer-encoding", ¬ r.chunked coding) : Labelled r request lines .close
  | fixed {size : ℕ} (hencoded : lines.any (Line.named "transfer-encoding") = false)
      (hmeasured : lines.any (Line.named "content-length") = true)
      (hall : ∀ element ∈ elements lines "content-length", r.length element size) : Labelled r request lines (.fixed size)
  | request (hencoded : lines.any (Line.named "transfer-encoding") = false)
      (hmeasured : lines.any (Line.named "content-length") = false) (hrequest : request = true) :
      Labelled r request lines .none
  | response (hencoded : lines.any (Line.named "transfer-encoding") = false)
      (hmeasured : lines.any (Line.named "content-length") = false) (hresponse : request = false) :
      Labelled r request lines .close

/-- What frames the body of a message. -/
inductive Framed (r : Reading) (m : Message) (method : Option Method) (lines : List Line) : BodyLength → Prop
  | bodiless (h : Bodiless m method) : Framed r m method lines .none
  | bodied {length : BodyLength} (h : ¬ Bodiless m method) (hlabelled : Labelled r m.isRequest lines length) :
      Framed r m method lines length

theorem framed_bodiless {r : Reading} (h : Bodiless m method) : Framed r m method lines length ↔ length = .none := by
  constructor
  · rintro (- | ⟨hbodied, -⟩)
    · rfl
    · exact absurd h hbodied
  · rintro rfl
    exact .bodiless h

theorem framed_bodied {r : Reading} (h : ¬ Bodiless m method) :
    Framed r m method lines length ↔ Labelled r m.isRequest lines length := by
  constructor
  · rintro (hbodiless | ⟨-, hlabelled⟩)
    · exact absurd hbodiless h
    · exact hlabelled
  · exact .bodied h

theorem ends_iff_bodiless : ends m method = true ↔ Bodiless m method := by
  rw [ends, Bodiless]
  cases hstatus : m.statusCode with
  | none => simp
  | some status =>
    simp only [Message.bodyless, hstatus, Message.statusBodyless, Bool.or_eq_true, Bool.and_eq_true, decide_eq_true_eq,
      beq_iff_eq, Option.some.injEq, exists_eq_left']
    have hbound : status ≤ 199 ↔ status < 200 := by omega
    rw [hbound]
    tauto

theorem agree_iff {size : ℕ} {values : List Octets} : agree size values = .ok length ↔
    length = .fixed size ∧ ∀ value ∈ values, contentLength value = .ok size := by
  induction values with
  | nil =>
    rw [agree, Except.ok.injEq, eq_comm]
    exact (and_iff_left fun value hvalue => absurd hvalue List.not_mem_nil).symm
  | cons value values ih =>
    rw [agree, List.forall_mem_cons]
    cases hvalue : contentLength value with
    | error error => simp
    | ok other =>
      dsimp only
      split_ifs with hother
      · simp [hother]
      · obtain rfl := not_not.1 hother
        simp [ih]

/-- The lengths are worked out of the elements as strings. -/
theorem measured_iff {elements : List Octets} (hsome : elements ≠ [])
    (hpieces : (m.values "content-length").flatMap (Str.split · 0x2c) = elements.map (Utf8.lossy · .ground [])) :
    measured m = .ok length ↔ ∃ size, length = .fixed size ∧ ∀ element ∈ elements, Reading.strings.length element size := by
  obtain ⟨first, rest, rfl⟩ := List.exists_cons_of_ne_nil hsome
  have hread (element : Octets) (size : ℕ) : Reading.strings.length element size ↔
      contentLength (Str.trim (Utf8.lossy element .ground [])) = .ok size := contentLength_iff.symm
  simp only [hread]
  rw [measured, hpieces, List.map_map, List.map_cons]
  dsimp only [Function.comp]
  cases hfirst : contentLength (Str.trim (Utf8.lossy first .ground [])) with
  | error error => simp [hfirst]
  | ok size =>
    dsimp only
    rw [agree_iff, List.forall_mem_map]
    constructor
    · rintro ⟨rfl, hrest⟩
      exact ⟨size, rfl, List.forall_mem_cons.2 ⟨hfirst, hrest⟩⟩
    · rintro ⟨size', rfl, hall⟩
      obtain ⟨hfirst', hrest⟩ := List.forall_mem_cons.1 hall
      obtain rfl : size = size' := by
        rw [hfirst] at hfirst'
        exact Except.ok.inj hfirst'
      exact ⟨rfl, hrest⟩

/-- The codings likewise: the chunked one is counted, and the last looked at. -/
theorem encoded_iff {codings : List Octets} {last : Octets}
    (hpieces : (m.values "transfer-encoding").flatMap (Str.split · 0x2c) = (codings ++ [last]).map (Utf8.lossy · .ground []))
    (hlast : (Str.split ((m.values "transfer-encoding").getLast?.getD []) 0x2c).getLast?.getD [] = Utf8.lossy last .ground []) :
    encoded m = .ok length ↔
      (Reading.strings.chunked last ∧ (∀ coding ∈ codings, ¬ Reading.strings.chunked coding) ∧ length = .chunked) ∨
      m.isRequest = false ∧ (∀ coding ∈ codings ++ [last], ¬ Reading.strings.chunked coding) ∧ length = .close := by
  obtain ⟨seems, hseems⟩ : ∃ seems : Octets → Bool, seems = fun element =>
    Str.eqIgnoreAsciiCase (Str.trim (Utf8.lossy element .ground [])) CHUNKED := ⟨_, rfl⟩
  have hread (element : Octets) : Reading.strings.chunked element ↔ seems element = true := by
    rw [hseems]
    rfl
  have hcount : ((((codings ++ [last]).map (Utf8.lossy · .ground [])).filter fun coding =>
      Str.eqIgnoreAsciiCase (Str.trim coding) CHUNKED).length) = (codings.filter seems).length + ([last].filter seems).length := by
    rw [List.filter_map, List.length_map, List.filter_append, List.length_append, hseems]
    rfl
  have hnone : (∀ coding ∈ codings, ¬ Reading.strings.chunked coding) ↔ (codings.filter seems).length = 0 := by
    rw [List.length_eq_zero_iff, List.filter_eq_nil_iff]
    exact forall₂_congr fun coding _ => not_congr (hread coding)
  rw [encoded]
  dsimp only
  rw [hpieces, hcount, hlast, List.forall_mem_append, hnone, List.forall_mem_singleton, hread,
    show Str.eqIgnoreAsciiCase (Str.trim (Utf8.lossy last .ground [])) CHUNKED = seems last by rw [hseems]]
  generalize (codings.filter seems).length = count
  cases hlone : seems last with
  | true =>
    rw [List.filter_cons_of_pos hlone, List.filter_nil, List.length_singleton, Bool.not_true, if_neg Bool.false_ne_true]
    split_ifs with hmany
    · refine iff_of_false (fun h => by cases h) ?_
      rintro (⟨-, hzero, -⟩ | ⟨-, ⟨-, hnot⟩, -⟩)
      · omega
      · exact hnot rfl
    · have hzero : count = 0 := by omega
      rw [Except.ok.injEq]
      constructor
      · rintro rfl
        exact .inl ⟨rfl, hzero, rfl⟩
      · rintro (⟨-, -, rfl⟩ | ⟨-, ⟨-, hnot⟩, -⟩)
        · rfl
        · exact absurd rfl hnot
  | false =>
    rw [List.filter_cons_of_neg (by rw [hlone]; exact Bool.false_ne_true), List.filter_nil, List.length_nil, Nat.add_zero,
      Bool.not_false, if_pos rfl]
    split_ifs with hmany hrefused
    · refine iff_of_false (fun h => by cases h) ?_
      rintro (⟨hlast, -⟩ | ⟨-, ⟨hzero, -⟩, -⟩)
      · cases hlast
      · omega
    · refine iff_of_false (fun h => by cases h) ?_
      rintro (⟨hlast, -⟩ | ⟨hresponse, ⟨hzero, -⟩, -⟩)
      · cases hlast
      · rcases hrefused with hrequest | hsome
        · exact absurd (hrequest.symm.trans hresponse) Bool.true_eq_false.mp
        · omega
    · rw [not_or, Bool.not_eq_true, Nat.not_lt, Nat.le_zero] at hrefused
      simp [hrefused.1, hrefused.2, eq_comm]

theorem sought_encoding : Sought "transfer-encoding" := ⟨by decide, by decide⟩

theorem sought_length : Sought "content-length" := ⟨by decide, by decide⟩

theorem elements_ne_nil {name : String} (h : lines.any (Line.named name) = true) : elements lines name ≠ [] := by
  obtain ⟨line, hline, hnamed⟩ := List.any_eq_true.1 h
  obtain ⟨piece, pieces, hsplit⟩ := Str.exists_split (trim line.rest) 0x2c
  have hmem : piece ∈ elements lines name := List.mem_flatMap.2
    ⟨line, List.mem_filter.2 ⟨hline, hnamed⟩, hsplit ▸ List.mem_cons_self⟩
  exact List.ne_nil_of_mem hmem

/-- The length of a body is what the fields frame it by, their elements read as strings. -/
theorem of_iff (hproper : ∀ line ∈ lines, line.Proper) (hfields : headers.fields = lines.map Line.field)
    (hm : m.headers = some headers) : of m method = .ok length ↔ Framed .strings m method lines length := by
  rw [of]
  by_cases hends : Bodiless m method
  · rw [if_pos (ends_iff_bodiless.2 hends), Except.ok.injEq, framed_bodiless hends]
    exact eq_comm
  rw [if_neg (mt ends_iff_bodiless.1 hends), framed_bodied hends]
  rw [labelled, carries_of_lines sought_encoding hproper hfields hm, carries_of_lines sought_length hproper hfields hm]
  cases hencoded : lines.any (Line.named "transfer-encoding") with
  | true =>
    cases hmeasured : lines.any (Line.named "content-length") with
    | true =>
      refine iff_of_false (by simp) fun hlabelled => ?_
      cases hlabelled <;> simp_all
    | false =>
      have hvalues := values_of_lines sought_encoding hproper hfields hm
      have hpieces := pieces_of_lines hvalues
      obtain ⟨codings, last, hsplit⟩ := (List.eq_nil_or_concat' _).resolve_left (elements_ne_nil hencoded)
      have hsome : m.values "transfer-encoding" ≠ [] := fun hnil => by
        rw [hnil, hsplit, List.map_append] at hpieces
        exact List.append_ne_nil_of_right_ne_nil _ (List.cons_ne_nil _ _) hpieces.symm
      have hlast := getLast?_pieces hsome
      rw [hpieces, hsplit, List.map_append, List.map_singleton, List.getLast?_concat] at hlast
      rw [hsplit] at hpieces
      simp only [Bool.and_false, Bool.false_eq_true, if_false, if_true]
      rw [encoded_iff hpieces (by rw [← hlast, Option.getD_some])]
      constructor
      · rintro (⟨hchunked, hnone, rfl⟩ | ⟨hresponse, hnone, rfl⟩)
        · exact .chunked hencoded hmeasured ⟨codings, last, hsplit, hchunked, hnone⟩
        · exact .coded hencoded hmeasured hresponse (hsplit ▸ hnone)
      · intro hlabelled
        cases hlabelled with
        | chunked _ _ hlone =>
          obtain ⟨codings', last', hsplit', hchunked, hnone⟩ := hlone
          obtain ⟨rfl, hsingle⟩ := List.append_inj' (hsplit.symm.trans hsplit') rfl
          obtain rfl := List.singleton_inj.1 hsingle
          exact .inl ⟨hchunked, hnone, rfl⟩
        | coded _ _ hresponse hnone => exact .inr ⟨hresponse, hsplit ▸ hnone, rfl⟩
        | fixed hnot => exact absurd (hencoded.symm.trans hnot) Bool.true_eq_false.mp
        | request hnot => exact absurd (hencoded.symm.trans hnot) Bool.true_eq_false.mp
        | response hnot => exact absurd (hencoded.symm.trans hnot) Bool.true_eq_false.mp
  | false =>
    cases hmeasured : lines.any (Line.named "content-length") with
    | true =>
      have hpieces := pieces_of_lines (values_of_lines sought_length hproper hfields hm)
      simp only [Bool.and_true, Bool.false_eq_true, if_false, if_true]
      rw [measured_iff (elements_ne_nil hmeasured) hpieces]
      constructor
      · rintro ⟨size, rfl, hall⟩
        exact .fixed hencoded hmeasured hall
      · intro hlabelled
        cases hlabelled <;> simp_all
    | false =>
      simp only [Bool.and_false, Bool.false_eq_true, if_false]
      cases hrequest : m.isRequest with
      | true =>
        rw [if_pos rfl, Except.ok.injEq]
        constructor
        · rintro rfl
          exact .request hencoded hmeasured rfl
        · intro hlabelled
          cases hlabelled <;> simp_all
      | false =>
        rw [if_neg Bool.false_ne_true, Except.ok.injEq]
        constructor
        · rintro rfl
          exact .response hencoded hmeasured rfl
        · intro hlabelled
          cases hlabelled <;> simp_all

/-! ## Where the readings differ -/

/-- An element is the chunked coding only as a string, and makes a difference to what the list
    frames: the list is taken for one that ends in the coding, or is one, or is of a response and
    names the coding nowhere. -/
def MisreadCoding (request : Bool) (elements : List Octets) : Prop :=
  (∃ element ∈ elements, Reading.strings.chunked element ∧ ¬ Reading.octets.chunked element) ∧
    (Lone Reading.strings.chunked elements ∨ Lone Reading.octets.chunked elements ∨
      request = false ∧ ∀ element ∈ elements, ¬ Reading.octets.chunked element)

/-- Each element is one length as a string, and one of them is not as octets. -/
def MisreadLength (elements : List Octets) : Prop :=
  ∃ size, (∀ element ∈ elements, Reading.strings.length element size) ∧
    ∃ element ∈ elements, ¬ Reading.octets.length element size

/-- White space that is no blank makes a difference to what frames a body. -/
inductive Misread (request : Bool) (lines : List Line) : Prop
  | coding (hencoded : lines.any (Line.named "transfer-encoding") = true)
      (hmeasured : lines.any (Line.named "content-length") = false)
      (h : MisreadCoding request (elements lines "transfer-encoding"))
  | length (hencoded : lines.any (Line.named "transfer-encoding") = false)
      (hmeasured : lines.any (Line.named "content-length") = true) (h : MisreadLength (elements lines "content-length"))

/-- Where an element is the coding, it is the last, which is the coding by any reading that frames the list. -/
theorem Lone.meets {chunked chunked' : Octets → Prop} {elements : List Octets} {element : Octets} (h : Lone chunked elements)
    (h' : Lone chunked' elements) (hmem : element ∈ elements) (hchunked : chunked element) : chunked' element := by
  obtain ⟨codings, last, rfl, -, hnone⟩ := h
  obtain ⟨codings', last', hsplit, hchunked', -⟩ := h'
  obtain ⟨-, hsingle⟩ := List.append_inj' hsplit rfl
  obtain rfl := List.singleton_inj.1 hsingle
  rcases List.mem_append.1 hmem with hmem | hmem
  · exact absurd hchunked (hnone element hmem)
  · rw [List.mem_singleton.1 hmem]
    exact hchunked'

/-- The list is framed alike by two readings that agree on its elements. -/
theorem Lone.congr {chunked chunked' : Octets → Prop} {elements : List Octets} (h : Lone chunked elements)
    (halike : ∀ element ∈ elements, chunked element ↔ chunked' element) : Lone chunked' elements := by
  obtain ⟨codings, last, rfl, hchunked, hnone⟩ := h
  obtain ⟨hcodings, hlast⟩ := List.forall_mem_append.1 halike
  exact ⟨codings, last, rfl, (hlast last (List.mem_singleton_self last)).1 hchunked,
    fun coding hcoding => mt (hcodings coding hcoding).2 (hnone coding hcoding)⟩

theorem labelled_alike_iff {request : Bool} :
    (∀ length, Labelled .strings request lines length ↔ Labelled .octets request lines length) ↔ ¬ Misread request lines := by
  constructor
  · intro halike hmisread
    cases hmisread with
    | coding hencoded hmeasured h =>
      obtain ⟨⟨element, hmem, hstrings, hoctets⟩, hlone | hlone | ⟨hresponse, hnone⟩⟩ := h
      · have hlabelled := (halike .chunked).1 (.chunked hencoded hmeasured hlone)
        cases hlabelled with
        | chunked _ _ hlone' => exact hoctets (hlone.meets hlone' hmem hstrings)
      · have hlabelled := (halike .chunked).2 (.chunked hencoded hmeasured hlone)
        cases hlabelled with
        | chunked _ _ hlone' => exact hoctets (hlone'.meets hlone hmem hstrings)
      · have hlabelled := (halike .close).2 (.coded hencoded hmeasured hresponse hnone)
        cases hlabelled with
        | coded _ _ _ hnone' => exact hnone' element hmem hstrings
        | response hnot => exact absurd (hencoded.symm.trans hnot) Bool.true_eq_false.mp
    | length hencoded hmeasured h =>
      obtain ⟨size, hstrings, element, hmem, hoctets⟩ := h
      have hlabelled := (halike (.fixed size)).1 (.fixed hencoded hmeasured hstrings)
      cases hlabelled with
      | fixed _ _ hall => exact hoctets (hall element hmem)
  · intro hspared length
    -- Where no element is the coding as a string alone, the readings agree on them.
    have hagree (hencoded : lines.any (Line.named "transfer-encoding") = true)
        (hmeasured : lines.any (Line.named "content-length") = false)
        (hframed : Lone Reading.strings.chunked (elements lines "transfer-encoding") ∨
          Lone Reading.octets.chunked (elements lines "transfer-encoding") ∨
          request = false ∧ ∀ element ∈ elements lines "transfer-encoding", ¬ Reading.octets.chunked element) :
        ∀ element ∈ elements lines "transfer-encoding",
          Reading.strings.chunked element ↔ Reading.octets.chunked element := by
      refine fun element hmem => ⟨fun hstrings => ?_, chunked_strings⟩
      by_contra hoctets
      exact hspared (.coding hencoded hmeasured ⟨⟨element, hmem, hstrings, hoctets⟩, hframed⟩)
    constructor
    · intro hlabelled
      cases hlabelled with
      | chunked hencoded hmeasured hlone =>
        exact .chunked hencoded hmeasured (hlone.congr (hagree hencoded hmeasured (.inl hlone)))
      | coded hencoded hmeasured hresponse hnone =>
        exact .coded hencoded hmeasured hresponse fun coding hmem => mt chunked_strings (hnone coding hmem)
      | fixed hencoded hmeasured hall =>
        refine .fixed hencoded hmeasured fun element hmem => ?_
        by_contra hoctets
        exact hspared (.length hencoded hmeasured ⟨_, hall, element, hmem, hoctets⟩)
      | request hencoded hmeasured hrequest => exact .request hencoded hmeasured hrequest
      | response hencoded hmeasured hresponse => exact .response hencoded hmeasured hresponse
    · intro hlabelled
      cases hlabelled with
      | chunked hencoded hmeasured hlone =>
        have halike := hagree hencoded hmeasured (.inr (.inl hlone))
        exact .chunked hencoded hmeasured (hlone.congr fun element hmem => (halike element hmem).symm)
      | coded hencoded hmeasured hresponse hnone =>
        have halike := hagree hencoded hmeasured (.inr (.inr ⟨hresponse, hnone⟩))
        exact .coded hencoded hmeasured hresponse fun coding hmem => mt (halike coding hmem).1 (hnone coding hmem)
      | fixed hencoded hmeasured hall =>
        exact .fixed hencoded hmeasured fun element hmem => length_strings (hall element hmem)
      | request hencoded hmeasured hrequest => exact .request hencoded hmeasured hrequest
      | response hencoded hmeasured hresponse => exact .response hencoded hmeasured hresponse

/-- The length worked out for the body of a message is what the octets of its fields frame, but
    where white space that is no blank is misread. -/
theorem framed_alike_iff {block : Octets} {max : ℕ} (hblock : Field.parseBlock block max = .ok headers)
    (hm : m.headers = some headers) (method : Option Method) : ∃ lines, block = sectionOf lines ∧
      (∀ line ∈ lines, line.Proper) ∧ ((∀ length, of m method = .ok length ↔ Framed .octets m method lines length) ↔
        (Bodiless m method ∨ ¬ Misread m.isRequest lines)) := by
  obtain ⟨lines, hlines, hproper, -, hfields⟩ := parseBlock_iff.1 hblock
  refine ⟨lines, hlines, hproper, ?_⟩
  simp only [of_iff hproper hfields hm]
  by_cases hends : Bodiless m method
  · refine iff_of_true (fun length => ?_) (.inl hends)
    rw [framed_bodiless hends, framed_bodiless hends]
  · simp only [framed_bodied hends, labelled_alike_iff, hends, false_or]

/-- A length with a no-break space before it. -/
def spacedBlock : Octets := lit "Content-Length:" ++ [0xc2, 0xa0, 0x35] ++ [0x0d, 0x0a]

/-- A request with that length. -/
def spaced : Message := { Message.request .POST (.lit "/") .v1_1 with
  headers := some (.adopt [⟨.lit "content-length", .fromUtf8Lossy [0xc2, 0xa0, 0x35]⟩]) }

theorem framed_alike_iff_spaced : ∃ lines, spacedBlock = sectionOf lines ∧ (∀ line ∈ lines, line.Proper) ∧
    ((∀ length, of spaced Option.none = .ok length ↔ Framed .octets spaced Option.none lines length) ↔
      (Bodiless spaced Option.none ∨ ¬ Misread spaced.isRequest lines)) := by
  have hblock : Field.parseBlock spacedBlock 1 =
      .ok (.adopt [⟨.lit "content-length", .fromUtf8Lossy [0xc2, 0xa0, 0x35]⟩]) := by decide +kernel
  exact framed_alike_iff hblock rfl Option.none

/-- As octets that is no length, and the message is none that may be framed. -/
example : of spaced Option.none = .ok (.fixed 5) := by decide +kernel

end BodyLength

end Soyokaze

import Soyokaze.Lib.Machine
import Soyokaze.Models

/-!
# Presence bits

A field section as the source keeps it: a list of fields, and a word with a bit for each of
the well-known names that every change to the list has to bring up to date. A lookup whose
bit is not set answers without a look at the list.

* `Scan.same_iff`: the comparison by fixed widths is equality;
* `Headers.Sound.spares`: what the bits rule out is not there, whatever the case of its letters;
* `presence_exact`: over any run of operations a section answers as a plain list of fields does,
  scanned without regard to case, and its bits miss none of the names it holds.
-/

namespace Soyokaze

namespace Scan

/-- So many octets from one place on, as one number. Which end of it they begin at is the
    machine's affair, and makes no difference to whether two are the same. -/
def load (width : ℕ) (octets : Octets) (start : ℕ) : ℕ :=
  ((octets.drop start).take width).foldr (fun octet n => octet.toNat + 256 * n) 0

/-- Whether two strings of a length differ in the first or the last so many octets. -/
def differ (width : ℕ) (left right : Octets) : ℕ :=
  (load width left 0 ^^^ load width right 0) |||
    (load width left (left.length - width) ^^^ load width right (left.length - width))

/-- Whether two strings hold the same octets. -/
def same (left right : Octets) : Bool :=
  let len := left.length
  if len ≠ right.length then false
  else if 32 < len then left == right
  else if 16 ≤ len then differ 16 left right == 0
  else if 8 ≤ len then differ 8 left right == 0
  else if 4 ≤ len then differ 4 left right == 0
  else if 2 ≤ len then differ 2 left right == 0
  else len == 0 || left.getD 0 0 == right.getD 0 0

theorem foldr_inj {left right : Octets} (hlength : left.length = right.length)
    (h : left.foldr (fun octet n => octet.toNat + 256 * n) 0 = right.foldr (fun octet n => octet.toNat + 256 * n) 0) :
    left = right := by
  induction left generalizing right with
  | nil => exact (List.eq_nil_of_length_eq_zero hlength.symm).symm
  | cons octet left ih =>
    cases right with
    | nil => cases hlength
    | cons other right =>
      rw [List.foldr_cons, List.foldr_cons] at h
      have hoctet := octet.toNat_lt
      have hother := other.toNat_lt
      rw [UInt8.toNat_inj.1 (show octet.toNat = other.toNat by omega), ih (Nat.succ.inj hlength) (by omega)]

theorem load_inj {width start : ℕ} {left right : Octets} (hlength : left.length = right.length)
    (h : load width left start = load width right start) :
    (left.drop start).take width = (right.drop start).take width :=
  foldr_inj (by rw [List.length_take, List.length_take, List.length_drop, List.length_drop, hlength]) h

theorem eq_of_xor {a b : ℕ} (h : a ^^^ b = 0) : a = b := by
  rw [← Nat.xor_zero a, ← Nat.xor_self b, ← Nat.xor_assoc, h, Nat.zero_xor]

/-- What is the same at both ends is the same in whole, where the ends meet. -/
theorem differ_iff {width : ℕ} {left right : Octets} (hlength : left.length = right.length) (hshort : width ≤ left.length)
    (hlong : left.length ≤ 2 * width) : differ width left right = 0 ↔ left = right := by
  constructor
  · intro h
    obtain ⟨hfront, hback⟩ := Nat.or_eq_zero_iff.1 h
    have htake := load_inj hlength (eq_of_xor hfront)
    have hdrop := load_inj hlength (eq_of_xor hback)
    rw [List.drop_zero, List.drop_zero] at htake
    have hlast : ∀ {octets : Octets}, octets.length = left.length →
        (octets.drop (left.length - width)).take width = octets.drop (left.length - width) := by
      intro octets hoctets
      exact List.take_of_length_le (by rw [List.length_drop]; omega)
    rw [hlast rfl, hlast hlength.symm] at hdrop
    -- The rest behind the front is part of the back.
    have hrest : left.drop width = right.drop width := by
      have hsplit : width = left.length - width + (2 * width - left.length) := by omega
      rw [hsplit, ← List.drop_drop, ← List.drop_drop, hdrop]
    rw [← List.take_append_drop width left, htake, hrest, List.take_append_drop]
  · rintro rfl
    rw [differ, Nat.xor_self, Nat.xor_self, Nat.or_self]

theorem same_iff (left right : Octets) : same left right = true ↔ left = right := by
  rw [same]
  split_ifs with hlength h32 h16 h8 h4 h2
  · exact ⟨nofun, fun h => absurd (congrArg List.length h) hlength⟩
  · exact beq_iff_eq
  · rw [beq_iff_eq]
    exact differ_iff (not_not.1 hlength) h16 (by omega)
  · rw [beq_iff_eq]
    exact differ_iff (not_not.1 hlength) h8 (by omega)
  · rw [beq_iff_eq]
    exact differ_iff (not_not.1 hlength) h4 (by omega)
  · rw [beq_iff_eq]
    exact differ_iff (not_not.1 hlength) h2 (by omega)
  · rcases left with - | ⟨octet, - | ⟨next, left⟩⟩ <;> rcases right with - | ⟨other, - | ⟨next', right⟩⟩ <;> simp at hlength h2 ⊢

end Scan

/-- Whether an octet is an ASCII capital. -/
def Str.isUppercase (octet : UInt8) : Bool := 0x41 ≤ octet && octet ≤ 0x5a

/-- The text has no ASCII capitals. -/
def Text.Lowercase (t : Text) : Prop := t.octets.any Str.isUppercase = false

instance (t : Text) : Decidable t.Lowercase := inferInstanceAs (Decidable (_ = _))

theorem Str.lower_of_not_upper {octet : UInt8} (h : isUppercase octet = false) : lower octet = octet := by
  rw [lower, if_neg]
  rintro ⟨hlo, hhi⟩
  rw [isUppercase, decide_eq_true hlo, decide_eq_true hhi] at h
  cases h

theorem Str.isUppercase_lower (octet : UInt8) : isUppercase (lower octet) = false := by
  rw [lower]
  split_ifs with h
  · obtain ⟨hlo, hhi⟩ := h
    rw [UInt8.le_iff_toNat_le] at hlo hhi
    have hsum : (octet + 0x20).toNat = octet.toNat + 0x20 := by
      rw [UInt8.toNat_add]
      exact Nat.mod_eq_of_lt (by have : (0x5a : UInt8).toNat = 0x5a := rfl; have : (0x20 : UInt8).toNat = 0x20 := rfl; omega)
    rw [isUppercase, Bool.and_eq_false_iff]
    refine .inr (decide_eq_false fun hle => ?_)
    rw [UInt8.le_iff_toNat_le, hsum] at hle
    have : (0x41 : UInt8).toNat = 0x41 := rfl
    have : (0x5a : UInt8).toNat = 0x5a := rfl
    omega
  · rw [isUppercase, ← Bool.decide_and]
    exact decide_eq_false h

namespace Text

theorem Lowercase.map_lower {t : Text} (h : t.Lowercase) : t.octets.map Str.lower = t.octets := by
  refine (List.map_congr_left fun octet hoctet => ?_).trans (List.map_id _)
  exact Str.lower_of_not_upper (Bool.eq_false_iff.2 (List.any_eq_false.1 h octet hoctet))

theorem lowercase_makeAsciiLowercase (t : Text) : t.makeAsciiLowercase.Lowercase := by
  rw [Lowercase, makeAsciiLowercase, List.any_map]
  exact List.any_eq_false.2 fun octet _ => by rw [Function.comp_apply, Str.isUppercase_lower]; exact Bool.false_ne_true

theorem Lowercase.makeAsciiLowercase {t : Text} (h : t.Lowercase) : t.makeAsciiLowercase = t := ext h.map_lower

end Text

/-! ## A plain list of fields -/

/-- Whether a field carries a name, whatever the case of its letters. -/
def HeaderField.carries (name : Text) (field : HeaderField) : Bool := Str.eqIgnoreAsciiCase field.name.octets name.octets

/-- The field with its name in lower case. -/
def HeaderField.lowercased (field : HeaderField) : HeaderField := ⟨field.name.makeAsciiLowercase, field.value⟩

namespace Plain

/-- Whether any field carries a name. -/
def contains (fields : List HeaderField) (name : Text) : Bool := fields.any (·.carries name)

/-- The value of the first field with a name. -/
def get (fields : List HeaderField) (name : Text) : Option Text := (fields.find? (·.carries name)).map (·.value)

/-- The values of every field with a name, in order. -/
def getAll (fields : List HeaderField) (name : Text) : List Text := (fields.filter (·.carries name)).map (·.value)

/-- Adds a field. -/
def append (fields : List HeaderField) (name value : Text) : List HeaderField :=
  fields ++ [⟨name.makeAsciiLowercase, value⟩]

/-- Drops every field with a name. -/
def remove (fields : List HeaderField) (name : Text) : List HeaderField := fields.filter (!·.carries name)

/-- Adds a field in place of every field with its name. -/
def insert (fields : List HeaderField) (name value : Text) : List HeaderField := append (remove fields name) name value

end Plain

/-! ## A section with its bits -/

namespace Models

/-- A field section as it is kept: an ordered list of fields, and the presence bits. -/
structure Headers where
  fields : List HeaderField
  present : UInt32
  deriving DecidableEq

namespace Headers

/-- `1 << index` where something matched, and zero otherwise. -/
def bit (matched : Bool) (index : UInt32) : UInt32 := (if matched then 1 else 0) <<< index

/-- The presence bit that stands for a well-known field name, or zero. -/
def wellKnown (name : Text) : UInt32 :=
  match name.octets with
  | [] => 0
  | first :: _ =>
    if name.len = 2 ∧ first = 0x74 then bit (name == .lit "te") 0
    else if name.len = 4 ∧ first = 0x68 then bit (name == .lit "host") 1
    else if name.len = 4 ∧ first = 0x64 then bit (name == .lit "date") 2
    else if name.len = 6 ∧ first = 0x73 then bit (name == .lit "server") 3
    else if name.len = 6 ∧ first = 0x63 then bit (name == .lit "cookie") 4
    else if name.len = 7 ∧ first = 0x75 then bit (name == .lit "upgrade") 5
    else if name.len = 8 ∧ first = 0x6c then bit (name == .lit "location") 6
    else if name.len = 10 ∧ first = 0x63 then bit (name == .lit "connection") 7
    else if name.len = 10 ∧ first = 0x6b then bit (name == .lit "keep-alive") 8
    else if name.len = 10 ∧ first = 0x73 then bit (name == .lit "set-cookie") 9
    else if name.len = 12 ∧ first = 0x63 then bit (name == .lit "content-type") 10
    else if name.len = 14 ∧ first = 0x63 then bit (name == .lit "content-length") 11
    else if name.len = 15 ∧ first = 0x61 then bit (name == .lit "accept-encoding") 12
    else if name.len = 16 ∧ first = 0x63 then bit (name == .lit "content-encoding") 13
    else if name.len = 16 ∧ first = 0x70 then bit (name == .lit "proxy-connection") 14
    else if name.len = 17 ∧ first = 0x74 then bit (name == .lit "transfer-encoding") 15
    else if name.len = 25 ∧ first = 0x73 then bit (name == .lit "strict-transport-security") 16
    else 0

/-- An empty section. -/
def new : Headers := ⟨[], 0⟩

/-- The number of fields. -/
def len (headers : Headers) : ℕ := headers.fields.length

/-- Whether a stored name matches `name`, ignoring ASCII case. -/
def named (stored name : Text) : Bool :=
  if stored.len ≠ name.len then false
  else
    let begun := match stored.octets.head?, name.octets.head? with
      | some stored, some name => Str.lower stored == Str.lower name
      | _, _ => true
    begun && (Scan.same stored.octets name.octets || Str.eqIgnoreAsciiCase stored.octets name.octets)

/-- Whether the presence bits prove `name` is not here. -/
def absent (headers : Headers) (name : Text) : Bool :=
  wellKnown name != 0 && headers.present &&& wellKnown name == 0

/-- Whether any field carries this name. -/
def contains (headers : Headers) (name : Text) : Bool :=
  !headers.absent name && headers.fields.any (named ·.name name)

/-- The value of the first field with this name. -/
def get (headers : Headers) (name : Text) : Option Text :=
  if headers.absent name then none else (headers.fields.find? (named ·.name name)).map (·.value)

/-- The values of every field with this name, in order. -/
def getAll (headers : Headers) (name : Text) : List Text :=
  let fields := if headers.absent name then [] else headers.fields
  (fields.filter (named ·.name name)).map (·.value)

/-- Adds a field whose name is lower-case already. -/
def appendLowercase (headers : Headers) (name value : Text) : Headers :=
  ⟨headers.fields ++ [⟨name, value⟩], headers.present ||| wellKnown name⟩

/-- Adds a field, keeping any field that already carries this name. -/
def append (headers : Headers) (name value : Text) : Headers := headers.appendLowercase name.makeAsciiLowercase value

/-- Adds a field, dropping every field that already carries this name. -/
def insert (headers : Headers) (name value : Text) : Headers :=
  let name := name.makeAsciiLowercase
  let fields := if headers.absent name then headers.fields else headers.fields.filter (·.name ≠ name)
  appendLowercase ⟨fields, headers.present⟩ name value

/-- The presence bits standing for every well-known name among some fields. -/
def presence (fields : List HeaderField) : UInt32 :=
  fields.foldl (fun present field => present ||| wellKnown field.name) 0

/-- Drops every field with this name, reporting whether any were there. -/
def remove (headers : Headers) (name : Text) : Bool × Headers :=
  if headers.absent name then (false, headers)
  else
    let fields := headers.fields.filter (!named ·.name name)
    if fields.length = headers.len then (false, ⟨fields, headers.present⟩) else (true, ⟨fields, presence fields⟩)

/-- Takes an already-built field list as the section itself. -/
def fromFields (fields : List HeaderField) : Headers :=
  let fields := fields.map fun field => if field.name.octets.any Str.isUppercase then field.lowercased else field
  ⟨fields, presence fields⟩

/-- A section over fields already known to be lowercase, with the presence bits already worked out. -/
def adopt (fields : List HeaderField) (present : UInt32) : Headers := ⟨fields, present⟩

/-! ### Names -/

theorem named_eq (field : HeaderField) (name : Text) : named field.name name = field.carries name := by
  rw [named, HeaderField.carries, Str.eqIgnoreAsciiCase]
  by_cases hlen : field.name.len = name.len
  · rw [if_neg (not_not_intro hlen)]
    by_cases hsame : field.name.octets.map Str.lower = name.octets.map Str.lower
    · have hbegun : (match field.name.octets.head?, name.octets.head? with
          | some stored, some name => Str.lower stored == Str.lower name
          | _, _ => true) = true := by
        cases hstored : field.name.octets with
        | nil => rfl
        | cons stored rest =>
          cases hname : name.octets with
          | nil => rfl
          | cons first rest' =>
            rw [hstored, hname] at hsame
            exact beq_iff_eq.2 (List.head_eq_of_cons_eq hsame)
      dsimp only
      rw [hbegun, beq_iff_eq.2 hsame, Bool.or_true, Bool.and_true]
    · have hdiffer : Scan.same field.name.octets name.octets = false :=
        Bool.eq_false_iff.2 fun h => hsame (congrArg _ ((Scan.same_iff _ _).1 h))
      dsimp only
      rw [hdiffer, beq_eq_false_iff_ne.2 hsame, Bool.or_false, Bool.and_false]
  · rw [if_pos hlen]
    refine (beq_eq_false_iff_ne.2 fun h => hlen ?_).symm
    have := congrArg List.length h
    rwa [List.length_map, List.length_map] at this

theorem eq_of_bit {matched : Bool} {index : UInt32} (h : bit matched index ≠ 0) : matched = true := by
  cases matched with
  | true => rfl
  | false => exact absurd (by rw [bit, if_neg Bool.false_ne_true, UInt32.zero_shiftLeft]) h

/-- A name that has a bit is the one that is asked about, or the next. -/
theorem known_or {condition : Prop} [Decidable condition] {name known : Text} {index rest : UInt32}
    (h : (if condition then bit (name == known) index else rest) ≠ 0) : name = known ∨ rest ≠ 0 := by
  split_ifs at h
  · exact .inl (beq_iff_eq.1 (eq_of_bit h))
  · exact .inr h

/-- A name that has a bit is one of the well-known. -/
theorem wellKnown_mem {name : Text} (h : wellKnown name ≠ 0) : name.octets ∈ Soyokaze.Headers.WELL_KNOWN := by
  rw [wellKnown] at h
  split at h
  · exact absurd rfl h
  · iterate 17
      rcases known_or h with rfl | h
      · decide
    exact absurd rfl h

theorem lowercase_of_wellKnown {name : Text} (h : wellKnown name ≠ 0) : name.Lowercase := by
  have hall : ∀ octets ∈ Soyokaze.Headers.WELL_KNOWN, octets.any Str.isUppercase = false := by decide
  exact hall _ (wellKnown_mem h)

/-- The bit of a name is the one it has in its place. -/
theorem wellKnown_toNat (name : Text) : (wellKnown name).toNat = Soyokaze.Headers.wellKnown name := by
  by_cases hname : name.octets ∈ Soyokaze.Headers.WELL_KNOWN
  · have hall : ∀ octets ∈ Soyokaze.Headers.WELL_KNOWN, (wellKnown (.fromUtf8Lossy octets)).toNat =
        Soyokaze.Headers.wellKnown (.fromUtf8Lossy octets) := by decide
    have hown := hall _ hname
    rwa [Text.fromUtf8Lossy_octets] at hown
  · have hzero : wellKnown name = 0 := by
      by_contra h
      exact hname (wellKnown_mem h)
    have hnone : Soyokaze.Headers.WELL_KNOWN.findIdx? (· == name.octets) = none :=
      List.findIdx?_eq_none_iff.2 fun octets hoctets => beq_eq_false_iff_ne.2 fun h => hname (h ▸ hoctets)
    rw [hzero, Soyokaze.Headers.wellKnown, hnone]
    rfl

/-! ### Bits -/

theorem foldl_presence (fields : List HeaderField) (present : UInt32) :
    fields.foldl (fun present field => present ||| wellKnown field.name) present = present ||| presence fields := by
  induction fields generalizing present with
  | nil => exact UInt32.or_zero.symm
  | cons field fields ih => rw [presence, List.foldl_cons, List.foldl_cons, ih, ih, UInt32.zero_or, UInt32.or_assoc]

theorem presence_cons (field : HeaderField) (fields : List HeaderField) :
    presence (field :: fields) = wellKnown field.name ||| presence fields := by
  rw [presence, List.foldl_cons, foldl_presence, UInt32.zero_or]

theorem presence_append (fields : List HeaderField) (field : HeaderField) :
    presence (fields ++ [field]) = presence fields ||| wellKnown field.name := by
  rw [presence, List.foldl_append]
  rfl

theorem presence_or {fields : List HeaderField} {field : HeaderField} (h : field ∈ fields) :
    wellKnown field.name ||| presence fields = presence fields := by
  induction fields with
  | nil => exact absurd h List.not_mem_nil
  | cons first fields ih =>
    rw [presence_cons]
    rcases List.mem_cons.1 h with rfl | h
    · rw [← UInt32.or_assoc, UInt32.or_self]
    · rw [← UInt32.or_assoc, UInt32.or_comm (wellKnown field.name), UInt32.or_assoc, ih h]

/-- The bit of a name that is there is set. -/
theorem presence_covers {fields : List HeaderField} {field : HeaderField} (h : field ∈ fields) :
    presence fields &&& wellKnown field.name = wellKnown field.name := by
  have habsorb (a b : UInt32) : (a ||| b) &&& a = a := by
    rw [← UInt32.toBitVec_inj]
    exact BitVec.eq_of_getElem_eq fun i hi => by simp +contextual
  rw [← presence_or h, habsorb]

/-- Where fields of one bit are dropped, that bit alone may be missing. -/
theorem presence_filter {fields : List HeaderField} {keep : HeaderField → Bool} {dropped : UInt32}
    (h : ∀ field ∈ fields, keep field = false → wellKnown field.name = dropped) :
    presence (fields.filter keep) ||| dropped = presence fields ||| dropped := by
  induction fields with
  | nil => rfl
  | cons field fields ih =>
    have hrest := ih fun field' hfield' => h field' (List.mem_cons_of_mem _ hfield')
    rw [presence_cons]
    cases hkeep : keep field with
    | true => rw [List.filter_cons_of_pos hkeep, presence_cons, UInt32.or_assoc, hrest, UInt32.or_assoc]
    | false =>
      rw [List.filter_cons_of_neg (by rw [hkeep]; exact Bool.false_ne_true), hrest, h field List.mem_cons_self hkeep,
        UInt32.or_comm dropped, UInt32.or_assoc, UInt32.or_self]

/-- The names of a section are lower-case, and its bits are those of its names. -/
structure Sound (headers : Headers) : Prop where
  lower : ∀ field ∈ headers.fields, field.name.Lowercase
  exact : headers.present = presence headers.fields

/-- What the bits rule out is not there. -/
theorem Sound.spares {headers : Headers} (h : headers.Sound) {name : Text} (habsent : headers.absent name = true) :
    ∀ field ∈ headers.fields, field.carries name = false := by
  intro field hfield
  rw [absent, Bool.and_eq_true, bne_iff_ne, beq_iff_eq, h.exact] at habsent
  obtain ⟨hknown, hnone⟩ := habsent
  by_contra hcarries
  rw [Bool.not_eq_false, HeaderField.carries, Str.eqIgnoreAsciiCase, beq_iff_eq, (h.lower field hfield).map_lower,
    (lowercase_of_wellKnown hknown).map_lower] at hcarries
  have hname : field.name = name := Text.ext hcarries
  rw [← hname] at hknown hnone
  exact hknown ((presence_covers hfield).symm.trans hnone)

/-- A lookup that looks at the bits first looks at the list where it matters. -/
theorem Sound.absent_or {headers : Headers} (h : headers.Sound) (name : Text) : headers.absent name = false ∨
    headers.absent name = true ∧ ∀ field ∈ headers.fields, field.carries name = false := by
  cases habsent : headers.absent name with
  | false => exact .inl rfl
  | true => exact .inr ⟨rfl, h.spares habsent⟩

theorem named_fun (name : Text) : (fun field : HeaderField => named field.name name) = HeaderField.carries name :=
  funext fun field => named_eq field name

/-! ### Reads -/

theorem Sound.contains_eq {headers : Headers} (h : headers.Sound) (name : Text) :
    headers.contains name = Plain.contains headers.fields name := by
  rw [contains, named_fun, Plain.contains]
  rcases h.absent_or name with habsent | ⟨habsent, hnone⟩
  · rw [habsent]
    rfl
  · rw [habsent]
    exact (List.any_eq_false.2 fun field hfield => Bool.eq_false_iff.1 (hnone field hfield)).symm

theorem Sound.get_eq {headers : Headers} (h : headers.Sound) (name : Text) :
    headers.get name = Plain.get headers.fields name := by
  rw [get, named_fun, Plain.get]
  rcases h.absent_or name with habsent | ⟨habsent, hnone⟩
  · rw [habsent]
    rfl
  · rw [if_pos habsent, List.find?_eq_none.2 fun field hfield => Bool.eq_false_iff.1 (hnone field hfield)]
    rfl

theorem Sound.getAll_eq {headers : Headers} (h : headers.Sound) (name : Text) :
    headers.getAll name = Plain.getAll headers.fields name := by
  rw [getAll, named_fun, Plain.getAll]
  rcases h.absent_or name with habsent | ⟨habsent, hnone⟩
  · rw [habsent]
    rfl
  · rw [if_pos habsent, List.filter_eq_nil_iff.2 fun field hfield => Bool.eq_false_iff.1 (hnone field hfield)]
    rfl

/-! ### Changes -/

theorem sound_new : new.Sound := ⟨fun _ h => absurd h List.not_mem_nil, rfl⟩

theorem Sound.appendLowercase {headers : Headers} (h : headers.Sound) {name : Text} (hname : name.Lowercase) (value : Text) :
    (headers.appendLowercase name value).Sound where
  lower field hfield := by
    rcases List.mem_append.1 hfield with hfield | hfield
    · exact h.lower field hfield
    · rw [List.mem_singleton.1 hfield]
      exact hname
  exact := by rw [Headers.appendLowercase, presence_append, h.exact]

theorem Sound.append {headers : Headers} (h : headers.Sound) (name value : Text) : (headers.append name value).Sound :=
  h.appendLowercase name.lowercase_makeAsciiLowercase value

/-- A stored name is another in lower case where they are the same but for case. -/
theorem Sound.carries_iff {headers : Headers} (h : headers.Sound) (name : Text) {field : HeaderField}
    (hfield : field ∈ headers.fields) : field.carries name = true ↔ field.name = name.makeAsciiLowercase := by
  rw [HeaderField.carries, Str.eqIgnoreAsciiCase, beq_iff_eq, (h.lower field hfield).map_lower]
  exact ⟨fun hoctets => Text.ext hoctets, fun hname => congrArg Text.octets hname⟩

theorem Sound.remove_fields {headers : Headers} (h : headers.Sound) {name : Text} (habsent : headers.absent name = true) :
    Plain.remove headers.fields name = headers.fields :=
  List.filter_eq_self.2 fun field hfield => by rw [h.spares habsent field hfield, Bool.not_false]

/-- What an insertion leaves of the fields that were there, by the bits or by a scan. -/
theorem Sound.kept {headers : Headers} (h : headers.Sound) (name : Text) :
    (if headers.absent name.makeAsciiLowercase then headers.fields
      else headers.fields.filter (·.name ≠ name.makeAsciiLowercase)) = Plain.remove headers.fields name := by
  have hsame : Plain.remove headers.fields name.makeAsciiLowercase = Plain.remove headers.fields name := by
    refine List.filter_congr fun field hfield => ?_
    rw [HeaderField.carries, HeaderField.carries, Str.eqIgnoreAsciiCase, Str.eqIgnoreAsciiCase,
      name.lowercase_makeAsciiLowercase.map_lower]
    rfl
  split_ifs with habsent
  · rw [← hsame, h.remove_fields habsent]
  · refine List.filter_congr fun field hfield => ?_
    rw [decide_not, Bool.eq_iff_iff.2 (decide_eq_true_iff.trans (h.carries_iff name hfield).symm)]

theorem Sound.insert_eq {headers : Headers} (h : headers.Sound) (name value : Text) : headers.insert name value =
    Headers.appendLowercase ⟨Plain.remove headers.fields name, headers.present⟩ name.makeAsciiLowercase value := by
  rw [Headers.insert, ← h.kept name]

/-- The bit of the fields an insertion drops is that of the field it adds. -/
theorem Sound.insert {headers : Headers} (h : headers.Sound) (name value : Text) : (headers.insert name value).Sound := by
  rw [h.insert_eq]
  refine ⟨fun field hfield => ?_, ?_⟩
  · rcases List.mem_append.1 hfield with hfield | hfield
    · exact h.lower field (List.mem_of_mem_filter hfield)
    · rw [List.mem_singleton.1 hfield]
      exact name.lowercase_makeAsciiLowercase
  · rw [Headers.appendLowercase, presence_append, h.exact]
    refine (presence_filter fun field hfield hdropped => ?_).symm
    rw [Bool.not_eq_false'] at hdropped
    rw [(h.carries_iff name hfield).1 hdropped]

theorem Sound.remove_eq {headers : Headers} (h : headers.Sound) (name : Text) :
    (headers.remove name).1 = Plain.contains headers.fields name ∧
      (headers.remove name).2.fields = Plain.remove headers.fields name ∧ (headers.remove name).2.Sound := by
  have hnamed : (fun field : HeaderField => !named field.name name) = (!HeaderField.carries name ·) :=
    funext fun field => congrArg _ (named_eq field name)
  rw [Headers.remove, hnamed]
  rcases h.absent_or name with habsent | ⟨habsent, hnone⟩
  · rw [habsent, if_neg Bool.false_ne_true]
    dsimp only
    split_ifs with hlength
    · have hkept := List.length_filter_eq_length_iff.1 hlength
      have hall : Plain.remove headers.fields name = headers.fields := List.filter_eq_self.2 hkept
      refine ⟨?_, rfl, ?_⟩
      · exact (List.any_eq_false.2 fun field hfield => by simpa using hkept field hfield).symm
      · rw [show (headers.fields.filter (!HeaderField.carries name ·)) = headers.fields from hall]
        exact h
    · refine ⟨?_, rfl, fun field hfield => h.lower field (List.mem_of_mem_filter hfield), rfl⟩
      rw [Plain.contains, eq_comm, List.any_eq_true]
      by_contra hnone
      push Not at hnone
      exact hlength (List.length_filter_eq_length_iff.2 fun field hfield => by simpa using hnone field hfield)
  · rw [if_pos habsent]
    refine ⟨?_, (h.remove_fields habsent).symm, h⟩
    exact (List.any_eq_false.2 fun field hfield => Bool.eq_false_iff.1 (hnone field hfield)).symm

theorem sound_fromFields (fields : List HeaderField) :
    (fromFields fields).fields = fields.map HeaderField.lowercased ∧ (fromFields fields).Sound := by
  have hmap : (fromFields fields).fields = fields.map HeaderField.lowercased := by
    refine List.map_congr_left fun field hfield => ?_
    split_ifs with hupper
    · rfl
    · have hlower : field.name.Lowercase := Bool.eq_false_iff.2 hupper
      rw [HeaderField.lowercased, hlower.makeAsciiLowercase]
  refine ⟨hmap, fun field hfield => ?_, rfl⟩
  rw [hmap] at hfield
  obtain ⟨field, -, rfl⟩ := List.mem_map.1 hfield
  exact field.name.lowercase_makeAsciiLowercase

/-! ### The sections of messages -/

theorem presence_toNat (fields : List HeaderField) : (presence fields).toNat = Soyokaze.Headers.presence fields := by
  induction fields using List.reverseRecOn with
  | nil => rfl
  | append_singleton fields field ih =>
    rw [presence_append, UInt32.toNat_or, ih, wellKnown_toNat, Soyokaze.Headers.presence_append]

theorem Sound.absent_eq {headers : Headers} (h : headers.Sound) (name : Text) :
    headers.absent name = (Soyokaze.Headers.adopt headers.fields).absent name := by
  have hzero (word : UInt32) : (word == 0) = (word.toNat == 0) := by
    rw [Bool.eq_iff_iff, beq_iff_eq, beq_iff_eq, ← UInt32.toNat_inj]
    rfl
  rw [absent, Soyokaze.Headers.absent, bne, hzero, hzero, UInt32.toNat_and, h.exact, presence_toNat, wellKnown_toNat]
  rfl

/-- A section whose bits are right is one of those that messages carry: it is read and changed the same. -/
theorem Sound.refines {headers : Headers} (h : headers.Sound) (name value : Text) :
    let plain := Soyokaze.Headers.adopt headers.fields
    headers.contains name = plain.contains name ∧ headers.get name = plain.get name ∧
      headers.getAll name = plain.getAll name ∧ (headers.append name value).fields = (plain.append name value).fields ∧
      (headers.insert name value).fields = (plain.insert name value).fields ∧
      (headers.remove name).2.fields = (plain.remove name).fields := by
  have hnamed : (fun field : HeaderField => named field.name name) = (Soyokaze.Headers.named ·.name name) := named_fun name
  refine ⟨?_, ?_, ?_, rfl, ?_, ?_⟩
  · rw [contains, hnamed, h.absent_eq]
    rfl
  · rw [get, hnamed, h.absent_eq]
    rfl
  · rw [getAll, hnamed, h.absent_eq, Soyokaze.Headers.getAll]
    split_ifs <;> rfl
  · rw [Headers.insert, h.absent_eq]
    rfl
  · rw [(h.remove_eq name).2.1, Soyokaze.Headers.remove, ← h.absent_eq]
    split_ifs with habsent
    · exact h.remove_fields habsent
    · rfl

/-- A section that names a host. -/
def hosted : Headers := .fromFields [⟨.lit "Host", .lit "a"⟩]

theorem refines_hosted : hosted.get (.lit "host") = (Soyokaze.Headers.adopt hosted.fields).get (.lit "host") ∧
    (hosted.remove (.lit "host")).2.fields = ((Soyokaze.Headers.adopt hosted.fields).remove (.lit "host")).fields := by
  obtain ⟨-, hget, -, -, -, hremove⟩ := (sound_fromFields [⟨.lit "Host", .lit "a"⟩]).2.refines (.lit "host") (.lit "b")
  exact ⟨hget, hremove⟩

end Headers

/-! ## Runs -/

/-- What is done with a section. One that is adopted is lower-case and comes with its own bits,
    and a name that is appended as it is is lower-case. -/
inductive Op
  | fromFields (fields : List HeaderField)
  | adopt (fields : List HeaderField) (present : UInt32) (lower : ∀ field ∈ fields, field.name.Lowercase)
      (exact : present = Headers.presence fields)
  | append (name value : Text)
  | appendLowercase (name value : Text) (lower : name.Lowercase)
  | insert (name value : Text)
  | remove (name : Text)
  | contains (name : Text)
  | get (name : Text)
  | getAll (name : Text)
  | iter

/-- What an operation is answered. -/
inductive Answer
  | done
  | flag (found : Bool)
  | value (value : Option Text)
  | values (values : List Text)
  | fields (fields : List HeaderField)
  deriving DecidableEq

namespace Op

/-- What is done to a section with its bits. -/
def apply : Op → Headers → Answer × Headers
  | fromFields fields, _ => (.done, .fromFields fields)
  | adopt fields present _ _, _ => (.done, .adopt fields present)
  | append name value, headers => (.done, headers.append name value)
  | appendLowercase name value _, headers => (.done, headers.appendLowercase name value)
  | insert name value, headers => (.done, headers.insert name value)
  | remove name, headers => (.flag (headers.remove name).1, (headers.remove name).2)
  | contains name, headers => (.flag (headers.contains name), headers)
  | get name, headers => (.value (headers.get name), headers)
  | getAll name, headers => (.values (headers.getAll name), headers)
  | iter, headers => (.fields headers.fields, headers)

/-- What is done to a plain list of fields. -/
def scan : Op → List HeaderField → Answer × List HeaderField
  | fromFields fields, _ => (.done, fields.map HeaderField.lowercased)
  | adopt fields _ _ _, _ => (.done, fields)
  | append name value, list => (.done, Plain.append list name value)
  | appendLowercase name value _, list => (.done, Plain.append list name value)
  | insert name value, list => (.done, Plain.insert list name value)
  | remove name, list => (.flag (Plain.contains list name), Plain.remove list name)
  | contains name, list => (.flag (Plain.contains list name), list)
  | get name, list => (.value (Plain.get list name), list)
  | getAll name, list => (.values (Plain.getAll list name), list)
  | iter, list => (.fields list, list)

/-- One operation is answered the same, and leaves the same fields and sound bits. -/
theorem apply_scan (op : Op) {headers : Headers} (h : headers.Sound) :
    (op.apply headers).1 = (op.scan headers.fields).1 ∧ (op.apply headers).2.Sound ∧
      (op.apply headers).2.fields = (op.scan headers.fields).2 := by
  cases op with
  | fromFields fields =>
    obtain ⟨hmap, hsound⟩ := Headers.sound_fromFields fields
    exact ⟨rfl, hsound, hmap⟩
  | adopt fields present lower exact => exact ⟨rfl, ⟨lower, exact⟩, rfl⟩
  | append name value => exact ⟨rfl, h.append name value, rfl⟩
  | appendLowercase name value lower =>
    refine ⟨rfl, h.appendLowercase lower value, ?_⟩
    rw [apply, scan, Headers.appendLowercase, Plain.append, lower.makeAsciiLowercase]
  | insert name value =>
    refine ⟨rfl, h.insert name value, ?_⟩
    rw [apply, h.insert_eq]
    rfl
  | remove name =>
    obtain ⟨hfound, hleft, hsound⟩ := h.remove_eq name
    exact ⟨congrArg Answer.flag hfound, hsound, hleft⟩
  | contains name => exact ⟨congrArg Answer.flag (h.contains_eq name), h, rfl⟩
  | get name => exact ⟨congrArg Answer.value (h.get_eq name), h, rfl⟩
  | getAll name => exact ⟨congrArg Answer.values (h.getAll_eq name), h, rfl⟩
  | iter => exact ⟨rfl, h, rfl⟩

end Op

/-- Over any run of operations a section answers as a plain list of fields does, scanned without
    regard to case, and holds the same fields; its bits are those of its names, none of them missing. -/
theorem presence_exact (ops : List Op) :
    let (answers, headers) := Machine.answers Op.apply ops Headers.new
    let (answers', fields) := Machine.answers Op.scan ops []
    answers = answers' ∧ headers.fields = fields ∧ headers.present = Headers.presence fields ∧
      ∀ field ∈ headers.fields, headers.present &&& Headers.wellKnown field.name = Headers.wellKnown field.name ∧
        headers.absent field.name = false := by
  have hstep (op : Op) (headers : Headers) (fields : List HeaderField) (h : headers.Sound ∧ headers.fields = fields) :
      (op.apply headers).1 = (op.scan fields).1 ∧ (op.apply headers).2.Sound ∧
        (op.apply headers).2.fields = (op.scan fields).2 := by
    obtain ⟨hsound, rfl⟩ := h
    exact op.apply_scan hsound
  obtain ⟨hanswers, hsound, hfields⟩ := Machine.answers_alike hstep ops (t := []) ⟨Headers.sound_new, rfl⟩
  refine ⟨hanswers, hfields, by rw [← hfields, hsound.exact], fun field hfield => ?_⟩
  have hcovers := Headers.presence_covers hfield
  rw [← hsound.exact] at hcovers
  refine ⟨hcovers, ?_⟩
  rw [Headers.absent, hcovers, bne, Bool.not_and_self]

end Models

end Soyokaze

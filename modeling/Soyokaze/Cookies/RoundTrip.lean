import Soyokaze.Cookies
import Soyokaze.Helpers.Strings

/-!
# Set-Cookie fields

A cookie is written as a field value, and read out of one. The name and the value are looked at
before they are written, and the other texts are not: what a `;` in one of them begins is an
attribute of its own.

* `SetCookie.clean_of_parse`: what is read of a text has no `;` in it, and no white space around it;
* `SetCookie.round_trips_iff`: a cookie is read back as it was written exactly where its own
  texts are so.
-/

namespace Soyokaze

namespace SameSite

/-- The attribute value as it belongs in a `Set-Cookie` field. -/
def asStr : SameSite → Octets
  | strict => lit "Strict"
  | lax => lit "Lax"
  | none => lit "None"

theorem parse_asStr (samesite : SameSite) : parse (Str.trim samesite.asStr) = some samesite := by
  cases samesite <;> decide

end SameSite

namespace Cookie

/-- The separators that are printed: parentheses, brackets of all kinds, and marks. -/
def SEPARATORS : Octets := [0x28, 0x29, 0x3c, 0x3e, 0x40, 0x2c, 0x3b, 0x3a, 0x5c, 0x22, 0x2f, 0x5b, 0x5d, 0x3f, 0x3d, 0x7b, 0x7d]

/-- Whether an octet is a separator, and so cannot appear in a token. -/
def isSeparator (octet : UInt8) : Bool := octet ≤ 0x20 || octet == 0x7f || SEPARATORS.contains octet

end Cookie

/-- A signed number in decimal. -/
def Number.signed (n : ℤ) : Octets := if n < 0 then 0x2d :: decimal n.natAbs else decimal n.natAbs

namespace SetCookie

/-- Whether an octet may not be sent in a value: it is not printed, or it is a quote, a comma, a
    semicolon or a backslash. -/
def forbidden (octet : UInt8) : Bool := !(0x21 ≤ octet && octet ≤ 0x7e) || [0x20, 0x22, 0x2c, 0x3b, 0x5c].contains octet

/-- What is written behind the value: the attributes that are set. -/
def tail (cookie : SetCookie) : Octets :=
  (cookie.expires.elim [] fun expires => lit "; Expires=" ++ expires) ++
  (cookie.maxAge.elim [] fun maxAge => lit "; Max-Age=" ++ Number.signed maxAge) ++
  (cookie.domain.elim [] fun domain => lit "; Domain=" ++ domain) ++
  (cookie.path.elim [] fun path => lit "; Path=" ++ path) ++
  (if cookie.secure then lit "; Secure" else []) ++
  (if cookie.httponly then lit "; HttpOnly" else []) ++
  (cookie.samesite.elim [] fun samesite => lit "; SameSite=" ++ samesite.asStr)

/-- Writes the cookie out as a `Set-Cookie` field value. -/
def build (cookie : SetCookie) : Except Error Octets :=
  if cookie.name.isEmpty || cookie.name.any Cookie.isSeparator then
    .error (.protocol "cookie name {name} is not a token" [.text cookie.name])
  else if cookie.value.any forbidden then
    .error (.protocol "cookie value of {name} carries a forbidden octet" [.text cookie.name])
  else .ok (cookie.name ++ 0x3d :: cookie.value ++ cookie.tail)

/-! ## What is written -/

/-- An attribute that has a value, as it stands between two semicolons. -/
def keyed {α : Type} (key : String) (write : α → Octets) (value : Option α) : List Octets :=
  (value.map fun a => lit key ++ 0x3d :: write a).toList

/-- The attributes of a cookie, as they stand between semicolons. -/
def attributes (cookie : SetCookie) : List Octets :=
  keyed " Expires" id cookie.expires ++ keyed " Max-Age" Number.signed cookie.maxAge ++ keyed " Domain" id cookie.domain ++
    keyed " Path" id cookie.path ++ (if cookie.secure then [lit " Secure"] else []) ++
      (if cookie.httponly then [lit " HttpOnly"] else []) ++ keyed " SameSite" SameSite.asStr cookie.samesite

/-- The cookie is refused: its name is not a token, or its value has an octet that may not be sent. -/
def Refused (cookie : SetCookie) : Prop :=
  cookie.name = [] ∨ cookie.name.any Cookie.isSeparator = true ∨ cookie.value.any forbidden = true

theorem flatMap_keyed {α : Type} (key : String) (write : α → Octets) (value : Option α) :
    (keyed key write value).flatMap (0x3b :: ·) = value.elim [] fun a => 0x3b :: (lit key ++ 0x3d :: write a) := by
  cases value with
  | none => rfl
  | some a => exact List.append_nil _

theorem flatMap_flag (set : Bool) (key : Octets) :
    (if set then [key] else []).flatMap (0x3b :: ·) = if set then 0x3b :: key else [] := by
  cases set with
  | false => rfl
  | true => exact List.append_nil _

theorem tail_eq (cookie : SetCookie) : cookie.tail = cookie.attributes.flatMap (0x3b :: ·) := by
  simp only [attributes, List.flatMap_append, flatMap_keyed, flatMap_flag]
  rfl

theorem build_cases (cookie : SetCookie) : (Refused cookie ∧ ∃ error, cookie.build = .error error) ∨
    ¬ Refused cookie ∧ cookie.build = .ok (cookie.name ++ 0x3d :: cookie.value ++ cookie.attributes.flatMap (0x3b :: ·)) := by
  rw [build, Refused, ← tail_eq]
  by_cases hname : (cookie.name.isEmpty || cookie.name.any Cookie.isSeparator) = true
  · rw [if_pos hname]
    rw [Bool.or_eq_true, List.isEmpty_iff] at hname
    exact .inl ⟨hname.imp_right .inl, _, rfl⟩
  · rw [if_neg hname]
    rw [Bool.or_eq_true, List.isEmpty_iff, not_or] at hname
    by_cases hvalue : cookie.value.any forbidden = true
    · rw [if_pos hvalue]
      exact .inl ⟨.inr (.inr hvalue), _, rfl⟩
    · rw [if_neg hvalue]
      exact .inr ⟨fun h => h.elim hname.1 fun h => h.elim hname.2 hvalue, rfl⟩

/-! ## What is read -/

/-- A text that is a piece of a field value: no semicolon is in it, and no white space around it. -/
structure Piece (text : Octets) : Prop where
  whole : 0x3b ∉ text
  bare : Str.trim text = text

/-- The cookie has texts and numbers as they are read. -/
structure Clean (cookie : SetCookie) : Prop where
  name : Str.trim cookie.name = cookie.name
  expires : ∀ text ∈ cookie.expires, Piece text
  domain : ∀ text ∈ cookie.domain, Piece text
  path : ∀ text ∈ cookie.path, Piece text
  maxAge : ∀ n ∈ cookie.maxAge, -(2 ^ 63 - 1) ≤ n ∧ n ≤ 2 ^ 63 - 1

theorem piece_trim {text : Octets} (h : 0x3b ∉ text) : Piece (Str.trim text) :=
  ⟨fun hmem => h ((Str.trim_infix text).subset hmem), Str.trim_trim text⟩

theorem age_dash (digits : Octets) : age (0x2d :: digits) =
    if digits.isEmpty || !digits.all Str.isDigit then none
    else some (-1 * (min (Str.decimal digits) (2 ^ 63 - 1) : ℕ) : ℤ) := rfl

theorem age_digits {text : Octets} (h : ∀ digits, text ≠ 0x2d :: digits) : age text =
    if text.isEmpty || !text.all Str.isDigit then none
    else some (1 * (min (Str.decimal text) (2 ^ 63 - 1) : ℕ) : ℤ) := by
  rw [age]
  exact h

theorem age_bounds {text : Octets} {n : ℤ} (h : age text = some n) : -(2 ^ 63 - 1) ≤ n ∧ n ≤ 2 ^ 63 - 1 := by
  by_cases hdash : ∃ digits, text = 0x2d :: digits
  · obtain ⟨digits, rfl⟩ := hdash
    rw [age_dash] at h
    split_ifs at h
    cases h
    omega
  · rw [age_digits fun digits htext => hdash ⟨digits, htext⟩] at h
    split_ifs at h
    cases h
    omega

/-- Reads an attribute that is read already, under its key in lower case. -/
def assign (cookie : SetCookie) (key raw : Octets) : SetCookie :=
  if key = lit "expires" then { cookie with expires := some raw }
  else if key = lit "max-age" then { cookie with maxAge := age raw }
  else if key = lit "domain" then { cookie with domain := some raw }
  else if key = lit "path" then { cookie with path := some raw }
  else if key = lit "secure" then { cookie with secure := true }
  else if key = lit "httponly" then { cookie with httponly := true }
  else if key = lit "samesite" then { cookie with samesite := SameSite.parse raw }
  else cookie

theorem read_eq (cookie : SetCookie) (part : Octets) : ∃ key raw, read cookie part = assign cookie key (Str.trim raw) ∧ raw ⊆ part := by
  rw [read]
  cases hsplit : Str.splitOnce part 0x3d with
  | none => exact ⟨_, [], rfl, List.nil_subset _⟩
  | some cut =>
    obtain ⟨key, raw⟩ := cut
    refine ⟨_, raw, rfl, ?_⟩
    obtain ⟨i, -, hcut⟩ := Option.map_eq_some_iff.1 hsplit
    cases hcut
    exact List.drop_subset _ _

theorem Clean.assign {cookie : SetCookie} (h : Clean cookie) (key : Octets) {raw : Octets} (hraw : Piece raw) :
    Clean (cookie.assign key raw) := by
  rw [SetCookie.assign]
  split_ifs
  · exact { h with expires := fun text htext => Option.some.inj htext ▸ hraw }
  · exact { h with maxAge := fun n hn => age_bounds hn }
  · exact { h with domain := fun text htext => Option.some.inj htext ▸ hraw }
  · exact { h with path := fun text htext => Option.some.inj htext ▸ hraw }
  all_goals exact { h with }

/-- What is read of a text is clean. -/
theorem clean_of_parse {text : Octets} {cookie : SetCookie} (h : parse text = .ok cookie) : Clean cookie := by
  rw [parse] at h
  have hpieces : ∀ part ∈ Str.split text 0x3b, 0x3b ∉ part := fun part hpart => Str.notMem_of_split hpart
  cases hsplit : Str.split text 0x3b with
  | nil =>
    rw [hsplit] at h
    cases h
  | cons pair parts =>
    rw [hsplit] at h hpieces
    dsimp only at h
    cases hcut : Str.splitOnce pair 0x3d with
    | none =>
      rw [hcut] at h
      cases h
    | some cut =>
      rw [hcut] at h
      cases h
      obtain ⟨-, hparts⟩ := List.forall_mem_cons.1 hpieces
      have hnew : Clean (new (Str.trim cut.1) (Str.trim cut.2)) := ⟨Str.trim_trim _, fun _ h => (by cases h), fun _ h => (by cases h), fun _ h => (by cases h), fun _ h => (by cases h)⟩
      generalize new (Str.trim cut.1) (Str.trim cut.2) = cookie at hnew
      clear hsplit hpieces hcut
      induction parts generalizing cookie with
      | nil => exact hnew
      | cons part parts ih =>
        obtain ⟨hpart, hparts⟩ := List.forall_mem_cons.1 hparts
        obtain ⟨key, raw, hread, hsub⟩ := read_eq cookie part
        exact ih hparts _ (hread ▸ hnew.assign key (piece_trim fun hmem => hpart (hsub hmem)))

/-! ## Reading back what was written -/

theorem read_keyed (cookie : SetCookie) {key : Octets} (hkey : 0x3d ∉ key) (raw : Octets) :
    read cookie (key ++ 0x3d :: raw) = cookie.assign (Str.toAsciiLowercase (Str.trim key)) (Str.trim raw) := by
  rw [read, Str.splitOnce_append hkey]
  rfl

theorem read_flag (cookie : SetCookie) {key : Octets} (hkey : 0x3d ∉ key) :
    read cookie key = cookie.assign (Str.toAsciiLowercase (Str.trim key)) [] := by
  rw [read, Str.splitOnce_of_notMem hkey]
  rfl

/-- The attributes of one kind are one or none, and are read as what they were written of. -/
theorem foldl_keyed {α : Type} {key name : String} {write : α → Octets} {value : Option α} {cookie cookie' : SetCookie}
    (hkey : 0x3d ∉ lit key) (hname : Str.toAsciiLowercase (Str.trim (lit key)) = lit name) (hnone : value = none → cookie' = cookie)
    (hsome : ∀ a ∈ value, cookie.assign (lit name) (Str.trim (write a)) = cookie') :
    (keyed key write value).foldl read cookie = cookie' := by
  cases value with
  | none => exact (hnone rfl).symm
  | some a =>
    have hread := read_keyed cookie hkey (write a)
    rw [hname, hsome a rfl] at hread
    exact hread

/-- So is a flag. -/
theorem foldl_flag {set : Bool} {key name : String} {cookie cookie' : SetCookie} (hkey : 0x3d ∉ lit key)
    (hname : Str.toAsciiLowercase (Str.trim (lit key)) = lit name) (hfalse : set = false → cookie' = cookie)
    (htrue : set = true → cookie.assign (lit name) [] = cookie') : (if set then [lit key] else []).foldl read cookie = cookie' := by
  cases set with
  | false => exact (hfalse rfl).symm
  | true =>
    have hread := read_flag cookie hkey
    rw [hname, htrue rfl] at hread
    exact hread

theorem printed_signed (n : ℤ) : ∀ octet ∈ Number.signed n, 0x20 < octet ∧ octet < 0x7f := by
  have hdigits := Str.printed_of_digits (Number.decimal_digits n.natAbs)
  rw [Number.signed]
  split_ifs
  · exact List.forall_mem_cons.2 ⟨by decide, hdigits⟩
  · exact hdigits

/-- A number of seconds is read back. -/
theorem age_signed {n : ℤ} (hlow : -(2 ^ 63 - 1) ≤ n) (hhigh : n ≤ 2 ^ 63 - 1) : age (Number.signed n) = some n := by
  obtain ⟨hne, hdigits, hvalue⟩ := Number.decimal_spells (show n.natAbs < 10 ^ 20 by omega)
  have hguard : ((Number.decimal n.natAbs).isEmpty || !(Number.decimal n.natAbs).all Str.isDigit) = false := by
    rw [hdigits, List.isEmpty_eq_false_iff.2 hne]
    rfl
  rw [Number.signed]
  split_ifs with hneg
  · rw [age_dash, hguard, if_neg Bool.false_ne_true, hvalue]
    congr 1
    omega
  · have hfirst : ∀ digits, Number.decimal n.natAbs ≠ 0x2d :: digits := by
      intro digits hdash
      rw [hdash] at hdigits
      exact absurd (List.all_eq_true.1 hdigits 0x2d List.mem_cons_self) (by decide)
    rw [age_digits hfirst, hguard, if_neg Bool.false_ne_true, hvalue]
    congr 1
    omega

/-- The attributes that are written are read back. -/
theorem foldl_attributes {cookie : SetCookie} (h : Clean cookie) :
    cookie.attributes.foldl read (new cookie.name cookie.value) = cookie := by
  obtain ⟨name, value, expires, maxAge, domain, path, secure, httponly, samesite⟩ := cookie
  have hexpires : (keyed " Expires" id expires).foldl read (new name value) =
      { new name value with expires := expires } :=
    foldl_keyed (by decide) (by decide : _ = lit "expires") (fun hnone => by rw [hnone]; rfl) fun text htext => by
      rw [id, (h.expires text htext).bare, htext]
      rfl
  have hmaxAge : (keyed " Max-Age" Number.signed maxAge).foldl read { new name value with expires := expires } =
      { new name value with expires := expires, maxAge := maxAge } :=
    foldl_keyed (by decide) (by decide : _ = lit "max-age") (fun hnone => by rw [hnone]; rfl) fun n hn => by
      have hage := age_signed (h.maxAge n hn).1 (h.maxAge n hn).2
      rw [Str.trim_of_printed (printed_signed n), assign, if_neg (by decide), if_pos rfl, hage, hn]
  have hdomain : (keyed " Domain" id domain).foldl read { new name value with expires := expires, maxAge := maxAge } =
      { new name value with expires := expires, maxAge := maxAge, domain := domain } :=
    foldl_keyed (by decide) (by decide : _ = lit "domain") (fun hnone => by rw [hnone]; rfl) fun text htext => by
      rw [id, (h.domain text htext).bare, htext]
      rfl
  have hpath : (keyed " Path" id path).foldl read { new name value with expires := expires, maxAge := maxAge, domain := domain } =
      { new name value with expires := expires, maxAge := maxAge, domain := domain, path := path } :=
    foldl_keyed (by decide) (by decide : _ = lit "path") (fun hnone => by rw [hnone]; rfl) fun text htext => by
      rw [id, (h.path text htext).bare, htext]
      rfl
  have hsecure : (if secure then [lit " Secure"] else []).foldl read
      { new name value with expires := expires, maxAge := maxAge, domain := domain, path := path } =
      { new name value with expires := expires, maxAge := maxAge, domain := domain, path := path, secure := secure } :=
    foldl_flag (by decide) (by decide : _ = lit "secure") (fun hfalse => by rw [hfalse]; rfl) fun htrue => by
      rw [htrue]
      rfl
  have hhttponly : (if httponly then [lit " HttpOnly"] else []).foldl read
      { new name value with expires := expires, maxAge := maxAge, domain := domain, path := path, secure := secure } =
      ⟨name, value, expires, maxAge, domain, path, secure, httponly, none⟩ :=
    foldl_flag (by decide) (by decide : _ = lit "httponly") (fun hfalse => by rw [hfalse]; rfl) fun htrue => by
      rw [htrue]
      rfl
  have hsamesite : (keyed " SameSite" SameSite.asStr samesite).foldl read
      ⟨name, value, expires, maxAge, domain, path, secure, httponly, none⟩ =
      ⟨name, value, expires, maxAge, domain, path, secure, httponly, samesite⟩ :=
    foldl_keyed (by decide) (by decide : _ = lit "samesite") (fun hnone => by rw [hnone]) fun written hwritten => by
      rw [assign, if_neg (by decide), if_neg (by decide), if_neg (by decide), if_neg (by decide), if_neg (by decide),
        if_neg (by decide), if_pos rfl, SameSite.parse_asStr, hwritten]
  rw [attributes]
  simp only [List.foldl_append, hexpires, hmaxAge, hdomain, hpath, hsecure, hhttponly, hsamesite]

theorem token_of_not_refused {cookie : SetCookie} (h : ¬ Refused cookie) :
    (∀ octet ∈ cookie.name, Cookie.isSeparator octet = false) ∧ ∀ octet ∈ cookie.value, forbidden octet = false := by
  rw [Refused, not_or, not_or] at h
  exact ⟨fun octet hoctet => Bool.eq_false_iff.2 (List.any_eq_false.1 (Bool.eq_false_iff.2 h.2.1) octet hoctet),
    fun octet hoctet => Bool.eq_false_iff.2 (List.any_eq_false.1 (Bool.eq_false_iff.2 h.2.2) octet hoctet)⟩

theorem notMem_of_eq_false {p : UInt8 → Bool} {octet : UInt8} {text : Octets} (h : ∀ octet ∈ text, p octet = false)
    (hoctet : p octet = true) : octet ∉ text := by
  intro hmem
  rw [h octet hmem] at hoctet
  cases hoctet

/-- A value that may be sent is printed. -/
theorem printed_of_not_forbidden {octet : UInt8} (h : forbidden octet = false) : 0x20 < octet ∧ octet < 0x7f := by
  rw [forbidden, Bool.or_eq_false_iff, Bool.not_eq_false', Bool.and_eq_true, decide_eq_true_eq, decide_eq_true_eq] at h
  exact ⟨UInt8.lt_of_lt_of_le (by decide) h.1.1, UInt8.lt_of_le_of_lt h.1.2 (by decide)⟩

/-- No attribute of a clean cookie has a semicolon in it. -/
theorem whole_attributes {cookie : SetCookie} (h : Clean cookie) : ∀ part ∈ cookie.attributes, 0x3b ∉ part := by
  have hkeyed {α : Type} {key : String} {write : α → Octets} {value : Option α} (hkey : 0x3b ∉ lit key)
      (hwrite : ∀ a ∈ value, 0x3b ∉ write a) : ∀ part ∈ keyed key write value, 0x3b ∉ part := by
    intro part hpart
    obtain ⟨a, ha, rfl⟩ := Option.map_eq_some_iff.1 (Option.mem_toList.1 hpart)
    rw [List.mem_append, List.mem_cons, not_or, not_or]
    exact ⟨hkey, by decide, hwrite a ha⟩
  have hflag {set : Bool} {key : String} (hkey : 0x3b ∉ lit key) : ∀ part ∈ (if set then [lit key] else []), 0x3b ∉ part := by
    intro part hpart
    cases set with
    | false => cases hpart
    | true => rwa [List.mem_singleton.1 hpart]
  have hnumber (n : ℤ) : 0x3b ∉ Number.signed n := by
    rw [Number.signed]
    have hdigits : 0x3b ∉ Number.decimal n.natAbs := fun hmem =>
      absurd (List.all_eq_true.1 (Number.decimal_digits n.natAbs) 0x3b hmem) (by decide)
    split_ifs
    · rw [List.mem_cons, not_or]
      exact ⟨by decide, hdigits⟩
    · exact hdigits
  intro part hpart
  simp only [attributes, List.mem_append] at hpart
  rcases hpart with ((((((hpart | hpart) | hpart) | hpart) | hpart) | hpart) | hpart)
  · exact hkeyed (by decide) (fun text htext => (h.expires text htext).whole) part hpart
  · exact hkeyed (by decide) (fun n _ => hnumber n) part hpart
  · exact hkeyed (by decide) (fun text htext => (h.domain text htext).whole) part hpart
  · exact hkeyed (by decide) (fun text htext => (h.path text htext).whole) part hpart
  · exact hflag (by decide) part hpart
  · exact hflag (by decide) part hpart
  · exact hkeyed (by decide) (fun samesite _ => by cases samesite <;> decide) part hpart

/-- A clean cookie is read back as it was written. -/
theorem parse_build {cookie : SetCookie} (hsent : ¬ Refused cookie) (h : Clean cookie) :
    parse (cookie.name ++ 0x3d :: cookie.value ++ cookie.attributes.flatMap (0x3b :: ·)) = .ok cookie := by
  obtain ⟨hname, hvalue⟩ := token_of_not_refused hsent
  have hpair : 0x3b ∉ cookie.name ++ 0x3d :: cookie.value := by
    rw [List.mem_append, List.mem_cons, not_or, not_or]
    exact ⟨notMem_of_eq_false hname (by decide), by decide, notMem_of_eq_false hvalue (by decide)⟩
  have hprinted : Str.trim cookie.value = cookie.value :=
    Str.trim_of_printed fun octet hoctet => printed_of_not_forbidden (hvalue octet hoctet)
  rw [parse, Str.split_join hpair (whole_attributes h)]
  dsimp only
  rw [Str.splitOnce_append (notMem_of_eq_false hname (by decide))]
  dsimp only
  rw [h.name, hprinted, foldl_attributes h]

/-! ## Lines -/

/-- A text has no line break in it. -/
def OneLine (text : Octets) : Prop := 0x0d ∉ text ∧ 0x0a ∉ text

theorem oneLine_append {text more : Octets} : OneLine (text ++ more) ↔ OneLine text ∧ OneLine more := by
  simp only [OneLine, List.mem_append, not_or]
  exact and_and_and_comm

/-- The texts of a cookie that are not looked at have no line break in them. -/
structure Lines (cookie : SetCookie) : Prop where
  expires : ∀ text ∈ cookie.expires, OneLine text
  domain : ∀ text ∈ cookie.domain, OneLine text
  path : ∀ text ∈ cookie.path, OneLine text

theorem oneLine_of_printed {text : Octets} (h : ∀ octet ∈ text, 0x20 < octet ∧ octet < 0x7f) : OneLine text :=
  ⟨fun hmem => absurd (h _ hmem).1 (by decide), fun hmem => absurd (h _ hmem).1 (by decide)⟩

theorem oneLine_elim {value : Option Octets} {key : String} (hkey : OneLine (lit key)) :
    OneLine (value.elim [] fun text => lit key ++ text) ↔ ∀ text ∈ value, OneLine text := by
  cases value with
  | none => exact iff_of_true ⟨List.not_mem_nil, List.not_mem_nil⟩ fun _ h => (by cases h)
  | some text =>
    rw [Option.elim_some, oneLine_append, and_iff_right hkey]
    exact ⟨fun h _ htext => Option.some.inj htext ▸ h, fun h => h text rfl⟩

/-- What is written is one line where those texts are. -/
theorem oneLine_build {cookie : SetCookie} (hsent : ¬ Refused cookie) :
    OneLine (cookie.name ++ 0x3d :: cookie.value ++ cookie.attributes.flatMap (0x3b :: ·)) ↔ Lines cookie := by
  obtain ⟨hname, hvalue⟩ := token_of_not_refused hsent
  have hpair : OneLine (cookie.name ++ 0x3d :: cookie.value) :=
    oneLine_append.2 ⟨⟨notMem_of_eq_false hname (by decide), notMem_of_eq_false hname (by decide)⟩,
      oneLine_append.2 ⟨(⟨by decide, by decide⟩ : OneLine [0x3d]),
        oneLine_of_printed fun octet hoctet => printed_of_not_forbidden (hvalue octet hoctet)⟩⟩
  have hmaxAge : OneLine (cookie.maxAge.elim [] fun maxAge => lit "; Max-Age=" ++ Number.signed maxAge) := by
    cases cookie.maxAge with
    | none => exact ⟨List.not_mem_nil, List.not_mem_nil⟩
    | some n => exact oneLine_append.2 ⟨⟨by decide, by decide⟩, oneLine_of_printed (printed_signed n)⟩
  have hflag {set : Bool} {key : String} (hkey : OneLine (lit key)) : OneLine (if set then lit key else []) := by
    cases set with
    | false => exact ⟨List.not_mem_nil, List.not_mem_nil⟩
    | true => exact hkey
  have hsamesite : OneLine (cookie.samesite.elim [] fun samesite => lit "; SameSite=" ++ samesite.asStr) := by
    cases cookie.samesite with
    | none => exact ⟨List.not_mem_nil, List.not_mem_nil⟩
    | some samesite => cases samesite <;> exact ⟨by decide, by decide⟩
  rw [← tail_eq, oneLine_append, and_iff_right hpair, tail]
  simp only [oneLine_append, oneLine_elim (⟨by decide, by decide⟩ : OneLine (lit "; Expires=")),
    oneLine_elim (⟨by decide, by decide⟩ : OneLine (lit "; Domain=")),
    oneLine_elim (⟨by decide, by decide⟩ : OneLine (lit "; Path="))]
  constructor
  · rintro ⟨⟨⟨⟨⟨⟨hexpires, -⟩, hdomain⟩, hpath⟩, -⟩, -⟩, -⟩
    exact ⟨hexpires, hdomain, hpath⟩
  · intro h
    exact ⟨⟨⟨⟨⟨⟨h.expires, hmaxAge⟩, h.domain⟩, h.path⟩, hflag ⟨by decide, by decide⟩⟩, hflag ⟨by decide, by decide⟩⟩, hsamesite⟩

/-! ## Round trips -/

/-- Where a cookie is written, it is read back as it was, and on one line. -/
def RoundTrips (cookie : SetCookie) : Prop := ∀ text, cookie.build = .ok text → parse text = .ok cookie ∧ OneLine text

/-- A cookie is refused, or read back as it was written, exactly where the texts that are not looked
    at are pieces of one line, the name has no white space around it that is not ASCII's, and the
    number of seconds is not the least there is. -/
theorem round_trips_iff (cookie : SetCookie) : RoundTrips cookie ↔ Refused cookie ∨ (Clean cookie ∧ Lines cookie) := by
  rcases build_cases cookie with ⟨hrefused, error, hbuild⟩ | ⟨hsent, hbuild⟩
  · refine iff_of_true (fun text htext => ?_) (.inl hrefused)
    rw [hbuild] at htext
    cases htext
  · rw [or_iff_right hsent]
    constructor
    · intro h
      obtain ⟨hparse, hline⟩ := h _ hbuild
      exact ⟨clean_of_parse hparse, (oneLine_build hsent).1 hline⟩
    · rintro ⟨hclean, hlines⟩ text htext
      obtain rfl := Except.ok.inj (hbuild.symm.trans htext)
      exact ⟨parse_build hsent hclean, (oneLine_build hsent).2 hlines⟩

/-- A path that a semicolon is in sets a flag. -/
theorem path_injects : ¬ ∀ cookie : SetCookie, RoundTrips cookie := by
  intro h
  have hparse := (h { new (lit "a") (lit "b") with path := some (lit "/; Secure") } (lit "a=b; Path=/; Secure") (by decide +kernel)).1
  revert hparse
  decide +kernel

end SetCookie

end Soyokaze

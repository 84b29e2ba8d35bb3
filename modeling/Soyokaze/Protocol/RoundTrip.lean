import Soyokaze.Helpers.Strings
import Soyokaze.Protocol.FieldLists

/-!
# A field list written and read back

HTTP/2 and HTTP/3 frame a message as a field list, and make a message of the field list
they receive. The writer's checks are not the reader's: it lets any `te` through, any
value of `:protocol`, any status, and drops `host` from a response, which has nothing to
carry it in its place.

* `Fields.write_restored_iff`: what is written is read back as it was exactly where the
  message has none of these.
-/

namespace Soyokaze

namespace Fields

variable {m m' : Message} {version : Version} {g g' : Gathered} {field : HeaderField}
  {fields regular start : List HeaderField} {value target : Text}

/-! ## What is asked of the pair -/

/-- Whether the message is a `CONNECT` that opens a plain tunnel, and so is framed as its
    authority and nothing else. -/
def plainConnect (m : Message) : Bool := m.method == some .CONNECT && (m.section'.get (.lit ":protocol")).isNone

/-- The regular fields of a message. `host` is none of a request's, which has its authority
    there. -/
def regularFields (m : Message) : List HeaderField :=
  m.section'.fields.filter fun field => !(pseudo field.name || (m.isRequest && field.name == .lit "host"))

/-- The second message is the first over again. -/
structure Restored (m m' : Message) : Prop where
  kind : m'.isRequest = m.isRequest
  method : m'.method = m.method
  status : m.isRequest = false → m'.statusCode = m.statusCode
  target : m.isRequest = true → m'.target = some (m.target.getD (.lit "/"))
  scheme : m.isRequest = true → plainConnect m = false → m'.secure = m.secure
  authority : m.isRequest = true → m'.section'.get (.lit "host") =
    if plainConnect m then some (m.target.getD (.lit "/")) else m.section'.get (.lit "host")
  protocol : m.isRequest = true → m'.section'.get (.lit ":protocol") = m.section'.get (.lit ":protocol")
  fields : regularFields m' = regularFields m

/-- The message is one whose fields say nothing the reader would not take back. -/
structure Readable (m : Message) : Prop where
  te : ∀ field ∈ m.section'.fields, field.name = .lit "te" → field.value = .lit "trailers"
  protocol : m.isRequest = true → ∀ value ∈ m.section'.get (.lit ":protocol"), HeaderField.isValue value.octets = true
  status : m.isRequest = false → ∀ status ∈ m.statusCode, 100 ≤ status ∧ status < 1000
  host : m.isRequest = false → ∀ field ∈ m.section'.fields, field.name ≠ .lit "host"

/-! ## Names -/

/-- What a checked name is. -/
theorem of_check (h : check field = .ok ()) : HeaderField.isLowercaseName field.name.octets = true ∧
    HeaderField.isValue field.value.octets = true := by
  rw [check] at h
  split_ifs at h with hname hvalue
  exact ⟨by simpa using hname, by simpa using hvalue⟩

/-- A lower-case name is the same in lower case. -/
theorem lower_of_isLowercaseName {name : Octets} (h : HeaderField.isLowercaseName name = true) :
    name.map Str.lower = name := by
  rw [HeaderField.isLowercaseName, Bool.and_eq_true, List.all_eq_true] at h
  refine (List.map_congr_left fun octet hoctet => ?_).trans (List.map_id _)
  have hupper := h.2 octet hoctet
  rw [Bool.and_eq_true, Bool.not_eq_true', HeaderField.isUpper] at hupper
  rw [Str.lower, if_neg (by simpa using hupper.2)]
  rfl

/-- A name the writer lets through is `host` where it is so but for its case. -/
theorem named_host (h : pseudo field.name = true ∨ HeaderField.isLowercaseName field.name.octets = true) :
    Headers.named field.name (.lit "host") = (field.name == .lit "host") := by
  rw [Headers.named, Str.eqIgnoreAsciiCase, show (Text.lit "host").octets.map Str.lower = (Text.lit "host").octets by decide]
  rcases h with h | h
  · -- A colon is in lower case what it is.
    rw [pseudo, beq_iff_eq] at h
    obtain ⟨name, hname⟩ := List.head?_eq_some_iff.1 h
    have hcolon : (Text.lit "host").octets.head? ≠ some 0x3a := by decide
    rw [hname, List.map_cons, Bool.eq_iff_iff, beq_iff_eq, beq_iff_eq, Text.ext_iff, hname]
    constructor <;> intro heq <;> exact absurd (congrArg List.head? heq.symm) hcolon
  · rw [lower_of_isLowercaseName h, Bool.eq_iff_iff, beq_iff_eq, beq_iff_eq, Text.ext_iff]

/-! ## The regular fields -/

/-- What the writer frames of a section has passed its checks, and is what `host` and the
    pseudo-headers leave. -/
theorem writeRegular_ok (h : writeRegular fields = .ok regular) :
    regular = fields.filter (fun field => !(pseudo field.name || field.name == .lit "host")) ∧
      ∀ field ∈ fields, pseudo field.name = false → field.name ≠ .lit "host" →
        check field = .ok () ∧ connectionSpecific field.name = false := by
  induction fields generalizing regular with
  | nil =>
    cases h
    exact ⟨rfl, fun _ hf => absurd hf List.not_mem_nil⟩
  | cons field fields ih =>
    rw [writeRegular] at h
    split at h
    · next hskip =>
      obtain ⟨hregular, hchecked⟩ := ih h
      refine ⟨by rw [hregular, List.filter_cons_of_neg (by simp [hskip])], fun f hf hname hhost => ?_⟩
      rcases List.mem_cons.1 hf with rfl | hf
      · simp [hname, hhost] at hskip
      · exact hchecked f hf hname hhost
    · next hskip =>
      split at h
      · cases h
      · next hcheck =>
        split at h
        · cases h
        · next hspecific =>
          obtain ⟨rest, hrest, rfl⟩ := Except.map_eq_ok h
          obtain ⟨rfl, hchecked⟩ := ih hrest
          refine ⟨by rw [List.filter_cons_of_pos (by simp [hskip])], fun f hf hname hhost => ?_⟩
          rcases List.mem_cons.1 hf with rfl | hf
          · exact ⟨hcheck, Bool.eq_false_iff.2 hspecific⟩
          · exact hchecked f hf hname hhost

theorem gatherAll_append (g : Gathered) (first second : List HeaderField) :
    gatherAll g (first ++ second) = (gatherAll g first).bind fun g => gatherAll g second := by
  induction first generalizing g with
  | nil => rfl
  | cons field first ih =>
    rw [List.cons_append, gatherAll, gatherAll]
    rcases gather g field with error | g
    · rfl
    · exact ih g

/-- Regular fields that are fit add nothing to the message but themselves. -/
theorem gatherAll_fit (hfit : ∀ field ∈ regular, pseudo field.name = false ∧ Fit field) :
    gatherAll g regular = .ok { g with regular := g.regular || !regular.isEmpty } := by
  induction regular generalizing g with
  | nil => simp [gatherAll]
  | cons field regular ih =>
    obtain ⟨hname, hfield⟩ := hfit field List.mem_cons_self
    have hgather : gather g field = .ok { g with regular := true } := by
      rw [gather, hname]
      exact gatherRegular_fit hfield
    rw [gatherAll, hgather]
    dsimp only
    rw [ih fun f hf => hfit f (List.mem_cons_of_mem _ hf)]
    simp

/-! ## The pseudo-headers -/

theorem of_name (kind : Pseudo) : Pseudo.of kind.name = some kind := by cases kind <;> decide

/-- A pseudo-header that leads the list and is not repeated comes to what its kind does. -/
theorem gather_special (kind : Pseudo) (hname : field.name.octets = kind.name)
    (hvalue : HeaderField.isValue field.value.octets = true) (hregular : g.regular = false) (hseen : kind ∉ g.seen) :
    gather g field = gatherPseudo g kind field.value := by
  have hpseudo : pseudo field.name = true := by
    rw [pseudo, hname]
    cases kind <;> rfl
  rw [gather, hpseudo, hregular, hvalue, hname, of_name]
  simp [hseen]

/-- What may be sent as a target or an authority is a field value. -/
theorem isValue_of_allVisible (h : Scan.allVisible value.octets = true) :
    HeaderField.isValue value.octets = true := by
  rw [Scan.allVisible, List.all_eq_true] at h
  have hvisible : ∀ octet ∈ value.octets, HeaderField.isBlank octet = false ∧ Scan.isControl octet = false := by
    intro octet hoctet
    have hoctet := h octet hoctet
    simp only [Bool.and_eq_true, decide_eq_true_eq, bne_iff_ne, UInt8.lt_iff_toNat_lt] at hoctet
    have hspace : (0x20 : UInt8).toNat = 32 := rfl
    have htab : (0x09 : UInt8).toNat = 9 := rfl
    rw [HeaderField.isBlank, Scan.isControl]
    constructor
    · rw [Bool.or_eq_false_iff, beq_eq_false_iff_ne, beq_eq_false_iff_ne]
      constructor <;> rintro rfl <;> omega
    · rw [Bool.or_eq_false_iff, Bool.and_eq_false_iff, decide_eq_false_iff_not, beq_eq_false_iff_ne, UInt8.lt_iff_toNat_lt]
      exact ⟨.inl (by omega), hoctet.2⟩
  have hend : ∀ octet : Option UInt8, (∀ o ∈ octet, o ∈ value.octets) → (octet.map HeaderField.isBlank).getD false = false := by
    rintro (_ | octet) hmem
    · rfl
    · exact (hvisible octet (hmem octet rfl)).1
  rw [HeaderField.isValue, hend _ fun o ho => List.mem_of_mem_head? ho, hend _ fun o ho => List.mem_of_mem_getLast? ho,
    Scan.isFieldValue]
  simpa using fun o ho => (hvisible o ho).2

/-! ## The status -/

theorem length_decimalLoop_le {fuel number count : ℕ} {digits : Octets} (h : number < 10 ^ (count + 1)) :
    (Number.decimalLoop fuel number digits).length ≤ digits.length + (count + 1) := by
  induction count generalizing fuel number digits with
  | zero =>
    rcases fuel with _ | fuel
    · exact Nat.le_add_right _ _
    · rw [Number.decimalLoop, if_pos (by omega), List.length_cons]
  | succ count ih =>
    rcases fuel with _ | fuel
    · exact Nat.le_add_right _ _
    · rw [Number.decimalLoop]
      split_ifs
      · rw [List.length_cons]
        omega
      · have hnext : number / 10 < 10 ^ (count + 1) := Nat.div_lt_of_lt_mul (by rwa [← Nat.pow_succ'])
        refine (ih hnext).trans ?_
        rw [List.length_cons]
        omega

theorem length_le_decimalLoop (fuel number : ℕ) (digits : Octets) :
    digits.length ≤ (Number.decimalLoop fuel number digits).length := by
  induction fuel generalizing number digits with
  | zero => exact Nat.le_refl _
  | succ fuel ih =>
    rw [Number.decimalLoop]
    split_ifs
    · exact Nat.le_succ _
    · exact (Nat.le_succ _).trans (ih (number / 10) (.ofNat (0x30 + number % 10) :: digits))

theorem le_length_decimalLoop {fuel number count : ℕ} {digits : Octets} (h : 10 ^ count ≤ number) (hfuel : count < fuel) :
    digits.length + (count + 1) ≤ (Number.decimalLoop fuel number digits).length := by
  induction count generalizing fuel number digits with
  | zero =>
    obtain ⟨fuel, rfl⟩ := Nat.exists_eq_succ_of_ne_zero (Nat.ne_of_gt hfuel)
    rw [Number.decimalLoop]
    split_ifs
    · exact Nat.le_refl _
    · exact length_le_decimalLoop _ _ (_ :: digits)
  | succ count ih =>
    obtain ⟨fuel, rfl⟩ := Nat.exists_eq_succ_of_ne_zero (Nat.ne_of_gt (Nat.zero_lt_of_lt hfuel))
    have hnext : 10 ^ count ≤ number / 10 := by
      rw [Nat.le_div_iff_mul_le (by decide)]
      rwa [Nat.pow_succ] at h
    have hpos : 0 < 10 ^ count := Nat.pow_pos (by decide)
    rw [Number.decimalLoop, if_neg (by omega)]
    refine Nat.le_trans ?_ (ih hnext (Nat.lt_of_succ_lt_succ hfuel))
    rw [List.length_cons]
    omega

/-- A status that is not of three digits is not written in three octets. -/
theorem length_status {code : ℕ} (h : ¬(100 ≤ code ∧ code < 1000)) : (status code).len ≠ 3 := by
  rw [status, if_neg h, Text.len, Text.octets_of_digits (Number.decimal_digits code), Number.decimal]
  rcases Nat.lt_or_ge code 100 with hshort | hlong
  · have : (Number.decimalLoop 20 code []).length ≤ ([] : Octets).length + (1 + 1) := length_decimalLoop_le hshort
    rw [List.length_nil] at this
    omega
  · have hpower : 10 ^ 3 ≤ code := by omega
    have : ([] : Octets).length + (3 + 1) ≤ (Number.decimalLoop 20 code []).length :=
      le_length_decimalLoop hpower (by decide)
    rw [List.length_nil] at this
    omega

theorem digit_ofNat {digit : ℕ} (h : digit < 10) :
    Str.isDigit (.ofNat (0x30 + digit)) = true ∧ (UInt8.ofNat (0x30 + digit)).toNat - 0x30 = digit := by
  revert digit
  decide

/-- One that is, is written in three digits, which are read back as it was. -/
theorem octets_status {code : ℕ} (h : 100 ≤ code ∧ code < 1000) : (status code).octets =
    [.ofNat (0x30 + code / 100), .ofNat (0x30 + code / 10 % 10), .ofNat (0x30 + code % 10)] := by
  obtain ⟨hfirst, -⟩ := digit_ofNat (show code / 100 < 10 by omega)
  obtain ⟨hsecond, -⟩ := digit_ofNat (show code / 10 % 10 < 10 by omega)
  obtain ⟨hthird, -⟩ := digit_ofNat (show code % 10 < 10 by omega)
  rw [status, if_pos h, Text.fromVerifiedAscii_eq, Text.octets_of_digits]
  rw [List.all_cons, List.all_cons, List.all_cons, hfirst, hsecond, hthird]
  rfl

theorem gatherPseudo_status {code : ℕ} (h : 100 ≤ code ∧ code < 1000) (g : Gathered) :
    gatherPseudo g .status (status code) = .ok { g with
      seen := .status :: g.seen, message := { g.message with statusCode := some code } } := by
  obtain ⟨hfirst, hfirst'⟩ := digit_ofNat (show code / 100 < 10 by omega)
  obtain ⟨hsecond, hsecond'⟩ := digit_ofNat (show code / 10 % 10 < 10 by omega)
  obtain ⟨hthird, hthird'⟩ := digit_ofNat (show code % 10 < 10 by omega)
  simp only [gatherPseudo, Text.len, octets_status h]
  rw [if_neg]
  · simp only [List.foldl_cons, List.foldl_nil, hfirst', hsecond', hthird']
    rw [show ((0 * 10 + code / 100) * 10 + code / 10 % 10) * 10 + code % 10 = code by omega]
  · simp only [List.length_cons, List.length_nil, List.all_cons, List.all_nil, hfirst, hsecond, hthird]
    decide

/-! ## Reading back each kind of message -/

/-- The regular fields of a list that can be read back. -/
def AllFit (regular : List HeaderField) : Prop := ∀ field ∈ regular, pseudo field.name = false ∧ Fit field

/-- A list read on from its pseudo-headers. -/
theorem intoMessage_append (hstart : gatherAll ⟨.new version, false, [], none, none⟩ start = .ok g) (hfit : AllFit regular) :
    intoMessage (start ++ regular) version =
      messageOf { g with regular := g.regular || !regular.isEmpty } (start ++ regular) := by
  rw [intoMessage, gatherAll_append, hstart]
  dsimp only [Except.bind]
  rw [gatherAll_fit hfit]

theorem isValue_status {code : ℕ} (h : 100 ≤ code ∧ code < 1000) : HeaderField.isValue (status code).octets = true := by
  refine isValue_of_allVisible ?_
  have hvisible : ∀ {digit : ℕ}, digit < 10 →
      (0x20 < UInt8.ofNat (0x30 + digit) && UInt8.ofNat (0x30 + digit) != 0x7f) = true := by
    intro digit hdigit
    revert digit
    decide
  rw [octets_status h, Scan.allVisible, List.all_cons, List.all_cons, List.all_cons,
    hvisible (show code / 100 < 10 by omega), hvisible (show code / 10 % 10 < 10 by omega),
    hvisible (show code % 10 < 10 by omega)]
  rfl

theorem read_response {code : ℕ} (hcode : 100 ≤ code ∧ code < 1000) (hfit : AllFit regular) :
    intoMessage ([⟨.lit ":status", status code⟩] ++ regular) version = .ok { Message.new version with
      statusCode := some code, headers := some (.adopt ([⟨.lit ":status", status code⟩] ++ regular)) } := by
  have hstart : gatherAll ⟨.new version, false, [], none, none⟩ [⟨.lit ":status", status code⟩] =
      .ok ⟨{ Message.new version with statusCode := some code }, false, [.status], none, none⟩ := by
    rw [gatherAll, gather_special .status rfl (isValue_status hcode) rfl List.not_mem_nil,
      gatherPseudo_status hcode]
    rfl
  rw [intoMessage_append hstart hfit]
  rfl

theorem octets_asStr (method : Method) : (Text.fromUtf8Lossy method.asStr).octets = method.asStr := by
  cases method <;> decide

theorem gather_method (method : Method) (hregular : g.regular = false) (hseen : .method ∉ g.seen) :
    gather g ⟨.lit ":method", .fromUtf8Lossy method.asStr⟩ =
      .ok { g with seen := .method :: g.seen, message := { g.message with method := some method } } := by
  have hvalue : HeaderField.isValue (Text.fromUtf8Lossy method.asStr).octets = true := by
    cases method <;> decide
  rw [gather_special .method rfl hvalue hregular hseen]
  simp only [gatherPseudo, octets_asStr, Method.parse_asStr]

theorem gather_scheme (secure : Bool) (hregular : g.regular = false) (hseen : .scheme ∉ g.seen) :
    gather g ⟨.lit ":scheme", .lit (if secure then "https" else "http")⟩ =
      .ok { g with seen := .scheme :: g.seen, message := { g.message with secure := secure } } := by
  have hvalue : HeaderField.isValue (Text.lit (if secure then "https" else "http")).octets = true := by
    cases secure <;> decide
  rw [gather_special .scheme rfl hvalue hregular hseen]
  cases secure <;> rfl

theorem gather_authority {authority : Text} (h : URL.isAuthority authority.octets = true)
    (hregular : g.regular = false) (hseen : .authority ∉ g.seen) :
    gather g ⟨.lit ":authority", authority⟩ =
      .ok { g with seen := .authority :: g.seen, authority := some authority } := by
  have hvisible : Scan.allVisible authority.octets = true := (Bool.and_eq_true _ _ ▸ h).2
  rw [gather_special .authority rfl (isValue_of_allVisible hvisible) hregular hseen]
  simp [gatherPseudo, h]

theorem gather_path (h : URL.isTarget target.octets = true) (hregular : g.regular = false) (hseen : .path ∉ g.seen) :
    gather g ⟨.lit ":path", target⟩ = .ok { g with seen := .path :: g.seen, path := some target } := by
  have hvisible : Scan.allVisible target.octets = true := (Bool.and_eq_true _ _ ▸ h).2
  rw [gather_special .path rfl (isValue_of_allVisible hvisible) hregular hseen]
  simp [gatherPseudo, h]

theorem gather_protocol (h : HeaderField.isValue value.octets = true) (hregular : g.regular = false)
    (hseen : .protocol ∉ g.seen) :
    gather g ⟨.lit ":protocol", value⟩ = .ok { g with seen := .protocol :: g.seen } := by
  rw [gather_special .protocol rfl h hregular hseen]
  rfl

/-- The pseudo-headers of a plain `CONNECT`. -/
def connectStart (target : Text) : List HeaderField :=
  [⟨.lit ":method", .fromUtf8Lossy Method.CONNECT.asStr⟩, ⟨.lit ":authority", target⟩]

theorem read_connect {target : Text} (htarget : URL.isAuthority target.octets = true) (hfit : AllFit regular) :
    intoMessage (connectStart target ++ regular) version = .ok { Message.new version with
      method := some .CONNECT, target := some target
      headers := some ((Headers.adopt (connectStart target ++ regular)).insert (.lit "host") target) } := by
  have hstart : gatherAll ⟨.new version, false, [], none, none⟩ (connectStart target) =
      .ok ⟨{ Message.new version with method := some .CONNECT }, false, [.authority, .method], some target, none⟩ := by
    rw [connectStart, gatherAll, gather_method _ rfl List.not_mem_nil]
    dsimp only
    rw [gatherAll, gather_authority htarget rfl (by simp)]
    rfl
  rw [intoMessage_append hstart hfit]
  rfl

/-- The pseudo-headers of any other request. -/
def requestStart (method : Method) (secure : Bool) (authority : Option Text) (target : Text) (protocol : Option Text) :
    List HeaderField :=
  ⟨.lit ":method", .fromUtf8Lossy method.asStr⟩ :: ⟨.lit ":scheme", .lit (if secure then "https" else "http")⟩ ::
    ((authority.map (⟨.lit ":authority", ·⟩)).toList ++ ⟨.lit ":path", target⟩ ::
      (protocol.map (⟨.lit ":protocol", ·⟩)).toList)

theorem gatherAll_requestStart {method : Method} {secure : Bool} {authority protocol : Option Text}
    (hauthority : ∀ a ∈ authority, URL.isAuthority a.octets = true) (htarget : URL.isTarget target.octets = true)
    (hprotocol : ∀ value ∈ protocol, HeaderField.isValue value.octets = true) :
    gatherAll ⟨.new version, false, [], none, none⟩ (requestStart method secure authority target protocol) =
      .ok ⟨{ Message.new version with method := some method, secure := secure }, false,
        (protocol.map fun _ => .protocol).toList ++ .path :: ((authority.map fun _ => .authority).toList ++ [.scheme, .method]),
        authority, some target⟩ := by
  rw [requestStart, gatherAll, gather_method _ rfl List.not_mem_nil]
  dsimp only
  rw [gatherAll, gather_scheme _ rfl (by simp)]
  rcases authority with _ | authority <;> rcases protocol with _ | protocol <;>
    simp only [Option.map_none, Option.map_some, Option.toList_none, Option.toList_some, List.nil_append, List.cons_append]
  · rw [gatherAll, gather_path htarget rfl (by simp)]
    rfl
  · rw [gatherAll, gather_path htarget rfl (by simp)]
    dsimp only
    rw [gatherAll, gather_protocol (hprotocol _ rfl) rfl (by simp)]
    rfl
  · rw [gatherAll, gather_authority (hauthority _ rfl) rfl (by simp)]
    dsimp only
    rw [gatherAll, gather_path htarget rfl (by simp)]
    rfl
  · rw [gatherAll, gather_authority (hauthority _ rfl) rfl (by simp)]
    dsimp only
    rw [gatherAll, gather_path htarget rfl (by simp)]
    dsimp only
    rw [gatherAll, gather_protocol (hprotocol _ rfl) rfl (by simp)]
    rfl

/-- The headers once the authority is among them. -/
def withAuthority (headers : Headers) : Option Text → Headers
  | some authority => headers.insert (.lit "host") authority
  | none => headers

theorem read_request {method : Method} {secure : Bool} {authority protocol : Option Text}
    (hplain : ¬(method = .CONNECT ∧ protocol = none)) (hauthority : ∀ a ∈ authority, URL.isAuthority a.octets = true)
    (htarget : URL.isTarget target.octets = true)
    (hprotocol : ∀ value ∈ protocol, HeaderField.isValue value.octets = true) (hfit : AllFit regular) :
    intoMessage (requestStart method secure authority target protocol ++ regular) version = .ok { Message.new version with
      method := some method, secure := secure, target := some target
      headers := some
        (withAuthority (.adopt (requestStart method secure authority target protocol ++ regular)) authority) } := by
  have hsome : target.isEmpty = false := by
    rw [URL.isTarget, Bool.and_eq_true, Bool.not_eq_true'] at htarget
    exact htarget.1
  rw [intoMessage_append (gatherAll_requestStart hauthority htarget hprotocol) hfit, messageOf]
  have hstray : ∀ regular : Bool, stray ⟨{ Message.new version with method := some method, secure := secure }, regular,
      (protocol.map fun _ => Pseudo.protocol).toList ++
        .path :: ((authority.map fun _ => Pseudo.authority).toList ++ [.scheme, .method]), authority, some target⟩ = none := by
    intro regular
    rcases authority with _ | authority <;> rcases protocol with _ | protocol <;> rfl
  have htargetOf : ∀ regular : Bool, targetOf ⟨{ Message.new version with method := some method, secure := secure }, regular,
      (protocol.map fun _ => Pseudo.protocol).toList ++
        .path :: ((authority.map fun _ => Pseudo.authority).toList ++ [.scheme, .method]), authority, some target⟩ method =
      .ok (some target) := by
    intro regular
    rw [targetOf, if_neg]
    · rw [Option.getD_some]
      dsimp only
      rw [hsome]
      rcases authority with _ | authority <;> rcases protocol with _ | protocol <;> rfl
    · rintro ⟨hmethod, hseen⟩
      refine hplain ⟨hmethod, ?_⟩
      rcases protocol with _ | protocol
      · rfl
      · simp at hseen
  rw [hstray]
  dsimp only
  rw [htargetOf]
  rcases authority with _ | authority <;> rfl

/-! ## The authority and the protocol among the headers -/

theorem named_protocol (h : pseudo field.name = false) : Headers.named field.name (.lit ":protocol") = false := by
  have hlower : (Text.lit ":protocol").octets.map Str.lower = 0x3a :: lit "protocol" := by decide
  rw [Headers.named, Str.eqIgnoreAsciiCase, hlower, beq_eq_false_iff_ne]
  rw [pseudo, beq_eq_false_iff_ne] at h
  rcases hoctets : field.name.octets with _ | ⟨first, rest⟩
  · exact (List.cons_ne_nil _ _).symm
  · rw [hoctets] at h
    rw [List.map_cons]
    intro heq
    refine h (congrArg some ?_)
    have hfirst := (List.cons.inj heq).1
    rw [Str.lower] at hfirst
    split_ifs at hfirst with hupper
    · -- An upper-case letter is a letter in lower case, too.
      rw [UInt8.le_iff_toNat_le, UInt8.le_iff_toNat_le] at hupper
      have hletter := congrArg UInt8.toNat hfirst
      rw [UInt8.toNat_add] at hletter
      simp at hupper hletter
      omega
    · exact hfirst

/-- None of the fields is a `host`, whatever its case. -/
def NoHost (fields : List HeaderField) : Prop := ∀ field ∈ fields, Headers.named field.name (.lit "host") = false

theorem find_noHost (h : NoHost fields) : fields.find? (Headers.named ·.name (.lit "host")) = none := by
  rw [List.find?_eq_none]
  intro field hfield
  simp [h field hfield]

theorem get_adopt_host (h : NoHost fields) : (Headers.adopt fields).get (.lit "host") = none := by
  rw [Headers.get, show (Headers.adopt fields).fields = fields from rfl, find_noHost h]
  split_ifs <;> rfl

theorem insert_adopt_host (h : NoHost fields) (authority : Text) :
    (Headers.adopt fields).insert (.lit "host") authority = .adopt (fields ++ [⟨.lit "host", authority⟩]) := by
  have hname : (Text.lit "host").makeAsciiLowercase = .lit "host" := by decide
  have hfilter : fields.filter (·.name ≠ .lit "host") = fields := by
    rw [List.filter_eq_self]
    intro field hfield
    have := h field hfield
    rw [decide_eq_true_eq]
    rintro hhost
    rw [hhost] at this
    exact absurd this (by decide)
  rw [Headers.insert, hname]
  rw [show (Headers.adopt fields).fields = fields from rfl, hfilter, ite_self]

theorem get_insert_host (h : NoHost fields) (authority : Text) :
    ((Headers.adopt fields).insert (.lit "host") authority).get (.lit "host") = some authority := by
  have hmem : (⟨.lit "host", authority⟩ : HeaderField) ∈ (Headers.adopt (fields ++ [⟨.lit "host", authority⟩])).fields :=
    List.mem_append_right _ (List.mem_singleton.2 rfl)
  rw [insert_adopt_host h, Headers.get, if_neg (Bool.not_eq_true _ ▸ Headers.absent_sound hmem), show (Headers.adopt _).fields = fields ++ [⟨.lit "host", authority⟩] from rfl,
    List.find?_append, find_noHost h]
  rfl

theorem get_withAuthority (h : NoHost fields) (authority : Option Text) :
    (withAuthority (.adopt fields) authority).get (.lit "host") = authority := by
  rcases authority with _ | authority
  · exact get_adopt_host h
  · exact get_insert_host h authority

theorem find_requestStart (method : Method) (secure : Bool) (authority : Option Text) (target : Text)
    (protocol : Option Text) : (requestStart method secure authority target protocol).find?
      (Headers.named ·.name (.lit ":protocol")) = protocol.map (⟨.lit ":protocol", ·⟩) := by
  have hmethod : Headers.named (.lit ":method") (.lit ":protocol") = false := by decide
  have hscheme : Headers.named (.lit ":scheme") (.lit ":protocol") = false := by decide
  have hauthority : Headers.named (.lit ":authority") (.lit ":protocol") = false := by decide
  have hpath : Headers.named (.lit ":path") (.lit ":protocol") = false := by decide
  have hprotocol : Headers.named (.lit ":protocol") (.lit ":protocol") = true := by decide
  rcases authority with _ | authority <;> rcases protocol with _ | protocol <;>
    simp [requestStart, hmethod, hscheme, hauthority, hpath, hprotocol]

/-- What `:protocol` is read back from, the host put behind the fields apart. -/
theorem get_protocol (hstart : NoHost start) (hfit : AllFit regular) (hhost : NoHost regular) (authority : Option Text) :
    (withAuthority (.adopt (start ++ regular)) authority).get (.lit ":protocol") =
      (start.find? (Headers.named ·.name (.lit ":protocol"))).map (·.value) := by
  have habsent : ∀ headers : Headers, headers.absent (.lit ":protocol") = false := fun headers => by
    rw [Headers.absent, show Headers.wellKnown (.lit ":protocol") = 0 by decide]
    rfl
  have hregular : regular.find? (Headers.named ·.name (.lit ":protocol")) = none := by
    rw [List.find?_eq_none]
    intro field hfield
    simp [named_protocol (hfit field hfield).1]
  have hnoHost : NoHost (start ++ regular) := List.forall_mem_append.2 ⟨hstart, hhost⟩
  rw [Headers.get, habsent, if_neg Bool.false_ne_true]
  rcases authority with _ | authority
  · rw [withAuthority, show (Headers.adopt (start ++ regular)).fields = start ++ regular from rfl, List.find?_append,
      hregular, Option.or_none]
  · have hname : Headers.named (.lit "host") (.lit ":protocol") = false := by decide
    rw [withAuthority, insert_adopt_host hnoHost, show (Headers.adopt (start ++ regular ++ [⟨.lit "host", authority⟩])).fields =
      start ++ regular ++ [⟨.lit "host", authority⟩] from rfl, List.find?_append, List.find?_append, hregular,
      List.find?_cons_of_neg (by simp [hname])]
    simp

theorem noHost_pseudo (h : ∀ field ∈ start, pseudo field.name = true) : NoHost start := by
  intro field hfield
  rw [named_host (.inl (h field hfield)), beq_eq_false_iff_ne]
  intro hname
  have := h field hfield
  rw [hname] at this
  exact absurd this (by decide)

theorem noHost_fit (hfit : AllFit regular) (h : ∀ field ∈ regular, field.name ≠ .lit "host") : NoHost regular := by
  intro field hfield
  rw [named_host (.inr (of_check (hfit field hfield).2.checked).1), beq_eq_false_iff_ne]
  exact h field hfield

/-- The regular fields of a section that starts with pseudo-headers, the host put behind. -/
theorem filter_regular (hstart : ∀ field ∈ start, pseudo field.name = true) (hfit : AllFit regular)
    (hhost : ∀ field ∈ regular, field.name ≠ .lit "host") (authority : Option Text) :
    (withAuthority (.adopt (start ++ regular)) authority).fields.filter
      (fun field => !(pseudo field.name || field.name == .lit "host")) = regular := by
  have hnone : start.filter (fun field => !(pseudo field.name || field.name == .lit "host")) = [] := by
    rw [List.filter_eq_nil_iff]
    intro field hfield
    simp [hstart field hfield]
  have hall : regular.filter (fun field => !(pseudo field.name || field.name == .lit "host")) = regular := by
    rw [List.filter_eq_self]
    intro field hfield
    simp [(hfit field hfield).1, hhost field hfield]
  have hnoHost : NoHost (start ++ regular) :=
    List.forall_mem_append.2 ⟨noHost_pseudo hstart, noHost_fit hfit hhost⟩
  rcases authority with _ | authority
  · rw [withAuthority, show (Headers.adopt (start ++ regular)).fields = start ++ regular from rfl, List.filter_append,
      hnone, hall, List.nil_append]
  · rw [withAuthority, insert_adopt_host hnoHost, show (Headers.adopt (start ++ regular ++ [⟨.lit "host", authority⟩])).fields =
      start ++ regular ++ [⟨.lit "host", authority⟩] from rfl, List.filter_append, List.filter_append, hnone, hall]
    simp

/-! ## What is written -/

/-- The pseudo-headers the writer puts first are those of the message's kind. -/
theorem writePseudo_ok (h : writePseudo m = .ok start) :
    (∃ method, m.method = some method ∧ plainConnect m = true ∧ method = .CONNECT ∧
      URL.isAuthority (m.target.getD (.lit "/")).octets = true ∧ start = connectStart (m.target.getD (.lit "/"))) ∨
    (∃ method, m.method = some method ∧ plainConnect m = false ∧
      ¬(method = .CONNECT ∧ m.section'.get (.lit ":protocol") = none) ∧
      URL.isTarget (m.target.getD (.lit "/")).octets = true ∧
      (∀ authority ∈ m.section'.get (.lit "host"), URL.isAuthority authority.octets = true) ∧
      start = requestStart method m.secure (m.section'.get (.lit "host")) (m.target.getD (.lit "/"))
        (m.section'.get (.lit ":protocol"))) ∨
    (m.method = none ∧ ∃ code, m.statusCode = some code ∧ start = [⟨.lit ":status", status code⟩]) := by
  rw [writePseudo] at h
  split at h
  · next method hmethod =>
    dsimp only at h
    obtain ⟨rest, hrest, rfl⟩ := Except.map_eq_ok h
    split_ifs at hrest with hplain hauthority
    · cases hrest
      refine .inl ⟨method, hmethod, ?_, hplain.1, by simpa using hauthority, ?_⟩
      · rw [plainConnect, hmethod, hplain.1, hplain.2]
        rfl
      · rw [connectStart, hplain.1]
    · refine .inr (.inl ⟨method, hmethod, ?_, hplain, ?_⟩)
      · rw [plainConnect, hmethod, Bool.and_eq_false_iff]
        by_cases hconnect : method = .CONNECT
        · exact .inr (Option.isNone_eq_false_iff.2 (Option.isSome_iff_ne_none.2 fun hnone => hplain ⟨hconnect, hnone⟩))
        · exact .inl (by simpa using hconnect)
      · rw [writeRequest] at hrest
        split at hrest
        · cases hrest
        · next htarget =>
          rcases hhost : m.section'.get (.lit "host") with _ | authority
          · rw [hhost] at hrest
            cases hrest
            refine ⟨by simpa using htarget, ?_, rfl⟩
            intro _ hsome
            cases hsome
          · rw [hhost] at hrest
            dsimp only at hrest
            split at hrest
            · cases hrest
            · next hauthority =>
              cases hrest
              refine ⟨by simpa using htarget, ?_, rfl⟩
              rintro _ ⟨⟩
              simpa using hauthority
  · next code hmethod hstatus =>
    cases h
    exact .inr (.inr ⟨hmethod, code, hstatus, rfl⟩)
  · cases h

theorem write_ok (h : write m = .ok fields) : ∃ start regular, fields = start ++ regular ∧
    writePseudo m = .ok start ∧ writeRegular m.section'.fields = .ok regular := by
  rw [write] at h
  split at h
  · cases h
  · next start hstart =>
    obtain ⟨regular, hregular, rfl⟩ := Except.map_eq_ok h
    exact ⟨start, regular, rfl, hstart, hregular⟩

theorem regularFields_request (h : m.isRequest = true) : regularFields m =
    m.section'.fields.filter fun field => !(pseudo field.name || field.name == .lit "host") := by
  rw [regularFields, h]
  rfl

theorem regularFields_response (h : m.isRequest = false) (hhost : ∀ field ∈ m.section'.fields, field.name ≠ .lit "host") :
    regularFields m = m.section'.fields.filter fun field => !(pseudo field.name || field.name == .lit "host") := by
  rw [regularFields, h]
  refine List.filter_congr fun field hfield => ?_
  simp [hhost field hfield]

/-- A request that is read back with its fields behind its pseudo-headers, and the host put
    behind those, is as it was. -/
theorem restored_request {method : Method} (start : List HeaderField) (secure : Bool) (authority : Option Text)
    (hmethod : m.method = some method)
    (hfilter : regular = m.section'.fields.filter fun field => !(pseudo field.name || field.name == .lit "host"))
    (hstart : ∀ field ∈ start, pseudo field.name = true) (hfit : AllFit regular)
    (hhost : ∀ field ∈ regular, field.name ≠ .lit "host") (hscheme : plainConnect m = false → secure = m.secure)
    (hauthority : authority =
      if plainConnect m then some (m.target.getD (.lit "/")) else m.section'.get (.lit "host"))
    (hprotocol : (start.find? (Headers.named ·.name (.lit ":protocol"))).map (·.value) = m.section'.get (.lit ":protocol")) :
    Restored m { Message.new version with
      method := some method, secure := secure, target := some (m.target.getD (.lit "/"))
      headers := some (withAuthority (.adopt (start ++ regular)) authority) } where
  kind := by rw [Message.isRequest, Message.isRequest, hmethod]
  method := hmethod.symm
  status hkind := by
    rw [Message.isRequest, hmethod] at hkind
    cases hkind
  target _ := rfl
  scheme _ hplain := hscheme hplain
  authority _ := by
    rw [← hauthority]
    exact get_withAuthority (List.forall_mem_append.2 ⟨noHost_pseudo hstart, noHost_fit hfit hhost⟩) authority
  protocol _ := by
    rw [← hprotocol]
    exact get_protocol (noHost_pseudo hstart) hfit (noHost_fit hfit hhost) authority
  fields := by
    have hkind : m.isRequest = true := by rw [Message.isRequest, hmethod]; rfl
    rw [regularFields_request hkind, ← hfilter, regularFields_request rfl]
    exact filter_regular hstart hfit hhost authority

theorem pseudo_connectStart (target : Text) : ∀ field ∈ connectStart target, pseudo field.name = true := by
  simp only [connectStart, List.forall_mem_cons]
  exact ⟨by decide, by decide, fun _ h => absurd h List.not_mem_nil⟩

theorem pseudo_requestStart (method : Method) (secure : Bool) (authority : Option Text) (target : Text)
    (protocol : Option Text) :
    ∀ field ∈ requestStart method secure authority target protocol, pseudo field.name = true := by
  have hnames : pseudo (.lit ":method") = true ∧ pseudo (.lit ":scheme") = true ∧ pseudo (.lit ":authority") = true ∧
      pseudo (.lit ":path") = true ∧ pseudo (.lit ":protocol") = true := by decide
  obtain ⟨hmethod, hscheme, hauthority, hpath, hprotocol⟩ := hnames
  rcases authority with _ | authority <;> rcases protocol with _ | protocol <;>
    simp [requestStart, hmethod, hscheme, hauthority, hpath, hprotocol]

/-- What can be read back is. -/
theorem restored_of_readable (h : write m = .ok fields) (hreadable : Readable m) (version : Version) :
    ∃ m', intoMessage fields version = .ok m' ∧ Restored m m' := by
  obtain ⟨start, regular, rfl, hstart, hregular⟩ := write_ok h
  obtain ⟨hfilter, hchecked⟩ := writeRegular_ok hregular
  have hmem : ∀ field ∈ regular, field ∈ m.section'.fields ∧ pseudo field.name = false ∧ field.name ≠ .lit "host" := by
    intro field hfield
    rw [hfilter, List.mem_filter] at hfield
    simpa using hfield
  have hhost : ∀ field ∈ regular, field.name ≠ .lit "host" := fun field hfield => (hmem field hfield).2.2
  have hfit : AllFit regular := by
    intro field hfield
    obtain ⟨hin, hname, hnot⟩ := hmem field hfield
    obtain ⟨hcheck, hspecific⟩ := hchecked field hin hname hnot
    exact ⟨hname, hcheck, hspecific, hreadable.te field hin⟩
  rcases writePseudo_ok hstart with ⟨method, hmethod, hplain, rfl, htarget, rfl⟩ |
    ⟨method, hmethod, hplain, hnot, htarget, hauthority, rfl⟩ | ⟨hmethod, code, hstatus, rfl⟩
  · have hnone : m.section'.get (.lit ":protocol") = none := by
      rw [plainConnect, Bool.and_eq_true] at hplain
      exact Option.isNone_iff_eq_none.1 hplain.2
    refine ⟨_, read_connect htarget hfit, ?_⟩
    refine restored_request (connectStart _) false (some _) hmethod hfilter (pseudo_connectStart _) hfit hhost
      (fun hnot => ?_) ?_ ?_
    · rw [hplain] at hnot
      cases hnot
    · rw [hplain]
      rfl
    · rw [hnone]
      rfl
  · have hkind : m.isRequest = true := by rw [Message.isRequest, hmethod]; rfl
    refine ⟨_, read_request hnot hauthority htarget (hreadable.protocol hkind) hfit, ?_⟩
    refine restored_request _ _ _ hmethod hfilter (pseudo_requestStart _ _ _ _ _) hfit hhost (fun _ => rfl) ?_ ?_
    · rw [hplain]
      rfl
    · rw [find_requestStart]
      cases m.section'.get (.lit ":protocol") <;> rfl
  · have hkind : m.isRequest = false := by rw [Message.isRequest, hmethod]; rfl
    refine ⟨_, read_response (hreadable.status hkind code hstatus) hfit, ?_⟩
    have hno : m.isRequest ≠ true := Bool.eq_false_iff.1 hkind
    refine ⟨hkind.symm, hmethod.symm, fun _ => hstatus.symm, fun h => absurd h hno, fun h => absurd h hno,
      fun h => absurd h hno, fun h => absurd h hno, ?_⟩
    rw [regularFields_response hkind (hreadable.host hkind), ← hfilter, regularFields]
    have hpseudo : pseudo (.lit ":status") = true := by decide
    have hall : regular.filter (fun field => !pseudo field.name) = regular := by
      rw [List.filter_eq_self]
      intro field hfield
      simp [(hfit field hfield).1]
    simpa [Message.isRequest, Message.new, Message.section', Headers.adopt, hpseudo] using hall

/-- A list that starts with a status of other than three digits is refused. -/
theorem status_of_read {code : ℕ} (h : intoMessage ([⟨.lit ":status", status code⟩] ++ regular) version = .ok m') :
    100 ≤ code ∧ code < 1000 := by
  by_contra hcode
  rw [intoMessage, List.singleton_append, gatherAll] at h
  by_cases hvalue : HeaderField.isValue (status code).octets = true
  · rw [gather_special .status rfl hvalue rfl List.not_mem_nil] at h
    simp [gatherPseudo, length_status hcode] at h
  · rw [gather, show pseudo (.lit ":status") = true by decide] at h
    simp [hvalue] at h

/-- What is read back as it was can be. -/
theorem readable_of_restored (h : write m = .ok fields) (hread : intoMessage fields version = .ok m')
    (hrestored : Restored m m') : Readable m := by
  obtain ⟨start, regular, rfl, hstart, hregular⟩ := write_ok h
  obtain ⟨hfilter, hchecked⟩ := writeRegular_ok hregular
  obtain ⟨g, hcame, -⟩ := of_intoMessage hread
  have hte : ∀ field ∈ m.section'.fields, field.name = .lit "te" → field.value = .lit "trailers" := by
    intro field hfield hname
    have hpseudo : pseudo field.name = false := by rw [hname]; decide
    have hmem : field ∈ regular := by
      rw [hfilter, List.mem_filter]
      refine ⟨hfield, ?_⟩
      rw [hname]
      decide
    exact (hcame.regular field (List.mem_append_right _ hmem) hpseudo).te hname
  have hfit : AllFit regular := by
    intro field hfield
    rw [hfilter, List.mem_filter] at hfield
    simp only [Bool.not_eq_true', Bool.or_eq_false_iff, beq_eq_false_iff_ne] at hfield
    obtain ⟨hcheck, hspecific⟩ := hchecked field hfield.1 hfield.2.1 hfield.2.2
    exact ⟨hfield.2.1, hcheck, hspecific, hte field hfield.1⟩
  rcases writePseudo_ok hstart with ⟨method, hmethod, hplain, -, -, rfl⟩ | ⟨method, hmethod, -, -, -, -, rfl⟩ |
    ⟨hmethod, code, hstatus, rfl⟩
  · have hkind : m.isRequest ≠ false := by rw [Message.isRequest, hmethod]; exact Bool.noConfusion
    refine ⟨hte, fun _ value hvalue => ?_, fun h => absurd h hkind, fun h => absurd h hkind⟩
    rw [plainConnect, Bool.and_eq_true, Option.isNone_iff_eq_none] at hplain
    rw [hplain.2] at hvalue
    cases hvalue
  · have hkind : m.isRequest ≠ false := by rw [Message.isRequest, hmethod]; exact Bool.noConfusion
    refine ⟨hte, fun _ value hvalue => ?_, fun h => absurd h hkind, fun h => absurd h hkind⟩
    have hmem : (⟨.lit ":protocol", value⟩ : HeaderField) ∈ requestStart method m.secure (m.section'.get (.lit "host"))
        (m.target.getD (.lit "/")) (m.section'.get (.lit ":protocol")) := by
      rw [Option.mem_def] at hvalue
      simp [requestStart, hvalue]
    have hname : pseudo (.lit ":protocol") = true := by decide
    exact (hcame.special _ (List.mem_append_left _ hmem) hname).1
  · have hkind : m.isRequest = false := by rw [Message.isRequest, hmethod]; rfl
    have hcode := status_of_read hread
    refine ⟨hte, fun h => absurd h (Bool.eq_false_iff.1 hkind), ?_, ?_⟩
    · rintro _ _ hsome
      rw [hstatus] at hsome
      cases hsome
      exact hcode
    · intro _ field hfield hname
      -- What the message has for `host` is not among what is read back.
      have hin : field ∈ regularFields m := by
        rw [regularFields, hkind, List.mem_filter]
        exact ⟨hfield, by rw [hname]; decide⟩
      have hm' := Except.ok.inj (hread.symm.trans (read_response hcode hfit))
      rw [← hrestored.fields, hm', regularFields, List.mem_filter] at hin
      have hin : field ∈ [⟨.lit ":status", status code⟩] ++ regular := hin.1
      rcases List.mem_append.1 hin with hstart | hmem
      · obtain rfl := List.mem_singleton.1 hstart
        have hne : Text.lit ":status" ≠ .lit "host" := by decide
        exact hne hname
      · rw [hfilter, List.mem_filter, hname] at hmem
        exact absurd hmem.2 (by decide)

/-- What is written is read back as it was exactly where the message says nothing the reader
    would not take back. -/
theorem write_restored_iff (h : write m = .ok fields) (version : Version) :
    (∃ m', intoMessage fields version = .ok m' ∧ Restored m m') ↔ Readable m :=
  ⟨fun ⟨_, hread, hrestored⟩ => readable_of_restored h hread hrestored,
    fun hreadable => restored_of_readable h hreadable version⟩

/-- A request that names a transfer coding it would take. -/
def asking (te : String) : Message :=
  { Message.request .GET (.lit "/") .v2_0 with headers := some (.adopt [.lit "te" te]) }

theorem write_restored_iff_trailers : ∃ fields, write (asking "trailers") = .ok fields ∧
    ((∃ m', intoMessage fields .v2_0 = .ok m' ∧ Restored (asking "trailers") m') ↔ Readable (asking "trailers")) :=
  ⟨_, rfl, write_restored_iff rfl .v2_0⟩

/-- A request that would take `gzip` is written, and refused by its reader. -/
theorem te_gzip_refused : ∃ fields, write (asking "gzip") = .ok fields ∧
    (intoMessage fields .v2_0).toOption = none := ⟨_, rfl, by decide +kernel⟩

end Fields

end Soyokaze

import Soyokaze.Lib.Act
import Soyokaze.Protocol.Common

/-!
# What a field list comes to

A field list becomes a message field by field. `Came` says what is known of the fields
walked so far and of what they came to; it is kept by every field, and so holds of every
list that becomes a message.

* `Fields.intoMessage_kind`: a field list that becomes a message becomes a request or a
  response, and not both;
* `Fields.intoMessage_pseudo`: there is a pseudo-header among it, so that it becomes no
  trailers (`Fields.intoTrailers_pseudo`).
-/

namespace Soyokaze

namespace Fields

variable {g g' : Gathered} {field : HeaderField} {fields walked : List HeaderField} {m : Message} {version : Version}

theorem name_of {name : Octets} {kind : Pseudo} (h : Pseudo.of name = some kind) : name = kind.name := by
  rw [Pseudo.of] at h
  have := List.find?_some h
  exact (beq_iff_eq.1 this).symm

/-- A regular field that may be framed, and is accepted. -/
structure Fit (field : HeaderField) : Prop where
  checked : check field = .ok ()
  general : connectionSpecific field.name = false
  te : field.name = .lit "te" → field.value = .lit "trailers"

/-- What the fields walked so far came to is what they say, and each was fit to be there. -/
structure Came (version : Version) (walked : List HeaderField) (g : Gathered) : Prop where
  regular : ∀ field ∈ walked, pseudo field.name = false → Fit field
  special : ∀ field ∈ walked, pseudo field.name = true →
    HeaderField.isValue field.value.octets = true ∧ ∃ pseudo ∈ g.seen, Pseudo.of field.name.octets = some pseudo
  seen : ∀ pseudo ∈ g.seen, ∃ field ∈ walked, Fields.pseudo field.name = true ∧ field.name.octets = pseudo.name
  method : g.message.method.isSome = true ↔ .method ∈ g.seen
  status : g.message.statusCode.isSome = true ↔ .status ∈ g.seen
  path : ∀ target ∈ g.path, URL.isTarget target.octets = true
  authority : ∀ authority ∈ g.authority, URL.isAuthority authority.octets = true
  digits : ∀ status ∈ g.message.statusCode, status < 1000
  rest : g.message = { Message.new version with
    method := g.message.method, statusCode := g.message.statusCode, secure := g.message.secure }

theorem came_nil (version : Version) : Came version [] ⟨.new version, false, [], none, none⟩ where
  regular _ h := absurd h List.not_mem_nil
  special _ h := absurd h List.not_mem_nil
  seen _ h := absurd h List.not_mem_nil
  method := by simp [Message.new]
  status := by simp [Message.new]
  path _ h := by cases h
  authority _ h := by cases h
  digits _ h := by cases h
  rest := rfl

/-- Three digits are a number below a thousand. -/
theorem digits_lt {digits : Octets} (hlength : digits.length = 3) (hdigits : digits.all Str.isDigit = true) :
    digits.foldl (fun status digit => status * 10 + (digit.toNat - 0x30)) 0 < 1000 := by
  match digits, hlength with
  | [a, b, c], _ =>
    simp only [List.all_cons, List.all_nil, Bool.and_true, Bool.and_eq_true, Str.isDigit, decide_eq_true_eq,
      UInt8.le_iff_toNat_le] at hdigits
    simp only [List.foldl_cons, List.foldl_nil]
    have : (0x39 : UInt8).toNat = 57 := rfl
    omega

/-- A field that was walked before another still was. -/
theorem Came.regular_append (h : Came version walked g) (field : HeaderField)
    (hfield : pseudo field.name = false → Fit field) : ∀ f ∈ walked ++ [field], pseudo f.name = false → Fit f := by
  intro f hf hpseudo
  rcases List.mem_append.1 hf with hf | hf
  · exact h.regular f hf hpseudo
  · obtain rfl := List.mem_singleton.1 hf
    exact hfield hpseudo

theorem gatherRegular_ok (h : gatherRegular g field = .ok g') : Fit field ∧ g' = { g with regular := true } := by
  rw [gatherRegular] at h
  split at h
  · cases h
  · next hcheck =>
    split_ifs at h with hspecific hte
    cases h
    refine ⟨⟨hcheck, Bool.eq_false_iff.2 hspecific, fun hname => ?_⟩, rfl⟩
    simpa [hname] using hte

/-- A field that is fit is taken in. -/
theorem gatherRegular_fit (h : Fit field) : gatherRegular g field = .ok { g with regular := true } := by
  rw [gatherRegular, h.checked]
  dsimp only
  rw [h.general, if_neg Bool.false_ne_true, if_neg]
  rintro hte
  rw [Bool.and_eq_true, beq_iff_eq] at hte
  simp [h.te hte.1] at hte

theorem gatherRegular_came (h : Came version walked g) (hname : pseudo field.name = false)
    (hg : gatherRegular g field = .ok g') : Came version (walked ++ [field]) g' := by
  obtain ⟨hfit, rfl⟩ := gatherRegular_ok hg
  refine { h with regular := ?_, special := ?_, seen := ?_ }
  · exact h.regular_append field fun _ => hfit
  · intro f hf hpseudo
    rcases List.mem_append.1 hf with hf | hf
    · exact h.special f hf hpseudo
    · obtain rfl := List.mem_singleton.1 hf
      rw [hname] at hpseudo
      cases hpseudo
  · intro p hp
    obtain ⟨f, hf, hfield⟩ := h.seen p hp
    exact ⟨f, List.mem_append_left _ hf, hfield⟩

/-- A pseudo-header comes to what its kind does, and is seen. -/
theorem gatherPseudo_came {kind : Pseudo} (h : Came version walked g) (hname : pseudo field.name = true)
    (hvalue : HeaderField.isValue field.value.octets = true) (hkind : Pseudo.of field.name.octets = some kind)
    (hg : gatherPseudo g kind field.value = .ok g') : Came version (walked ++ [field]) g' := by
  have hoctets := name_of hkind
  have hregular := h.regular_append field fun hnot => by
    rw [hname] at hnot
    cases hnot
  have hspecial : ∀ seen, seen = kind :: g.seen → ∀ f ∈ walked ++ [field], pseudo f.name = true →
      HeaderField.isValue f.value.octets = true ∧ ∃ pseudo ∈ seen, Pseudo.of f.name.octets = some pseudo := by
    rintro _ rfl f hf hpseudo
    rcases List.mem_append.1 hf with hf | hf
    · obtain ⟨hv, p, hp, hof⟩ := h.special f hf hpseudo
      exact ⟨hv, p, List.mem_cons_of_mem _ hp, hof⟩
    · obtain rfl := List.mem_singleton.1 hf
      exact ⟨hvalue, kind, List.mem_cons_self, hkind⟩
  have hseen : ∀ seen, seen = kind :: g.seen → ∀ p ∈ seen, ∃ f ∈ walked ++ [field],
      pseudo f.name = true ∧ f.name.octets = p.name := by
    rintro _ rfl p hp
    rcases List.mem_cons.1 hp with rfl | hp
    · exact ⟨field, List.mem_append_right _ (List.mem_singleton.2 rfl), hname, hoctets⟩
    · obtain ⟨f, hf, hfield⟩ := h.seen p hp
      exact ⟨f, List.mem_append_left _ hf, hfield⟩
  cases kind <;> simp only [gatherPseudo] at hg
  case method =>
    split at hg
    · cases hg
      refine { h with
        regular := hregular, special := hspecial _ rfl, seen := hseen _ rfl, method := ?_, status := ?_, rest := ?_ }
      · simp
      · simpa using h.status
      · rw [h.rest]
    · cases hg
  case status =>
    split_ifs at hg with hdigits
    cases hg
    push Not at hdigits
    refine { h with
      regular := hregular, special := hspecial _ rfl, seen := hseen _ rfl, method := ?_, status := ?_, digits := ?_
      rest := ?_ }
    · simpa using h.method
    · simp
    · intro status hstatus
      cases hstatus
      exact digits_lt hdigits.1 (by simpa using hdigits.2)
    · rw [h.rest]
  case scheme =>
    cases hg
    refine { h with
      regular := hregular, special := hspecial _ rfl, seen := hseen _ rfl, method := ?_, status := ?_, rest := ?_ }
    · simpa using h.method
    · simpa using h.status
    · rw [h.rest]
  case path =>
    split_ifs at hg with htarget
    cases hg
    refine { h with
      regular := hregular, special := hspecial _ rfl, seen := hseen _ rfl, method := ?_, status := ?_, path := ?_ }
    · simpa using h.method
    · simpa using h.status
    · rintro target ⟨⟩
      simpa using htarget
  case authority =>
    split_ifs at hg with hauthority
    cases hg
    refine { h with
      regular := hregular, special := hspecial _ rfl, seen := hseen _ rfl, method := ?_, status := ?_
      authority := ?_ }
    · simpa using h.method
    · simpa using h.status
    · rintro authority ⟨⟩
      simpa using hauthority
  case protocol =>
    cases hg
    refine { h with
      regular := hregular, special := hspecial _ rfl, seen := hseen _ rfl, method := ?_, status := ?_ }
    · simpa using h.method
    · simpa using h.status

theorem gather_came (h : Came version walked g) (hg : gather g field = .ok g') :
    Came version (walked ++ [field]) g' := by
  rw [gather] at hg
  split_ifs at hg with hname hregular hvalue
  · exact gatherRegular_came h (by simpa using hname) hg
  · split at hg
    · cases hg
    · next kind hkind =>
      split_ifs at hg
      exact gatherPseudo_came h (by simpa using hname) (by simpa using hvalue) hkind hg

theorem gatherAll_came (h : Came version walked g) (hg : gatherAll g fields = .ok g') :
    Came version (walked ++ fields) g' := by
  induction fields generalizing walked g with
  | nil =>
    cases hg
    rwa [List.append_nil]
  | cons field fields ih =>
    rw [gatherAll] at hg
    split at hg
    · cases hg
    · next hfield =>
      have := ih (gather_came h hfield) hg
      rwa [List.append_assoc] at this

/-- A field list that becomes a message came to something, of which the message is made. -/
theorem of_intoMessage (h : intoMessage fields version = .ok m) :
    ∃ g, Came version fields g ∧ messageOf g fields = .ok m := by
  rw [intoMessage] at h
  split at h
  · cases h
  · next g hg => exact ⟨g, gatherAll_came (came_nil version) hg, h⟩

/-- A message is made of what the fields came to, which were of one kind of message. -/
theorem messageOf_kind (hcame : Came version walked g) (h : messageOf g fields = .ok m) :
    m.method = g.message.method ∧ m.statusCode = g.message.statusCode ∧ m.isResponse = !m.isRequest := by
  rw [messageOf] at h
  split at h
  · cases h
  · next hstray =>
    rw [stray] at hstray
    split at h
    · cases h
    · next hmethod hstatus =>
      cases h
      simp [Message.isResponse, Message.isRequest, hmethod, hstatus]
    · next method hmethod =>
      obtain ⟨target, -, rfl⟩ := Except.map_eq_ok h
      have hseen : Pseudo.status ∉ g.seen := by
        rw [hmethod] at hstray
        simpa using hstray
      have hstatus : g.message.statusCode = none := by
        rw [← Option.not_isSome_iff_eq_none, hcame.status]
        exact hseen
      simp [Message.isResponse, Message.isRequest, hmethod, hstatus]

/-- A field list that becomes a message becomes a request or a response, and not both. -/
theorem intoMessage_kind (h : intoMessage fields version = .ok m) : m.isResponse = !m.isRequest := by
  obtain ⟨g, hcame, hm⟩ := of_intoMessage h
  exact (messageOf_kind hcame hm).2.2

/-- There is a pseudo-header among it, `:method` or `:status`. -/
theorem intoMessage_pseudo (h : intoMessage fields version = .ok m) : ∃ field ∈ fields, pseudo field.name = true := by
  obtain ⟨g, hcame, hm⟩ := of_intoMessage h
  obtain ⟨hmethod, hstatus, hkind⟩ := messageOf_kind hcame hm
  have hsome : ∃ pseudo, pseudo ∈ g.seen := by
    rcases hrequest : m.isRequest with _ | _
    · rw [hrequest] at hkind
      exact ⟨.status, hcame.status.1 (hstatus ▸ hkind)⟩
    · exact ⟨.method, hcame.method.1 (hmethod ▸ hrequest)⟩
  obtain ⟨pseudo, hpseudo⟩ := hsome
  obtain ⟨field, hfield, hname, -⟩ := hcame.seen pseudo hpseudo
  exact ⟨field, hfield, hname⟩

theorem checkTrailers_ok (h : checkTrailers fields = .ok ()) : ∀ field ∈ fields, checkTrailer field = .ok () := by
  induction fields with
  | nil => exact fun _ hf => absurd hf List.not_mem_nil
  | cons field fields ih =>
    rw [checkTrailers] at h
    split at h
    · cases h
    · next hfield =>
      rintro f hf
      rcases List.mem_cons.1 hf with rfl | hf
      · exact hfield
      · exact ih h f hf

/-- What a field of an accepted trailer section passed. -/
theorem checkTrailer_ok (h : checkTrailer field = .ok ()) :
    pseudo field.name = false ∧ check field = .ok () ∧ forbiddenTrailer field.name = false := by
  rw [checkTrailer] at h
  split at h
  · cases h
  · next hname =>
    split at h
    · cases h
    · next hcheck =>
      split_ifs at h with hforbidden
      exact ⟨Bool.eq_false_iff.2 hname, hcheck, Bool.eq_false_iff.2 hforbidden⟩

/-- Where there is a pseudo-header among the fields, they become no trailers. -/
theorem intoTrailers_pseudo (hfield : field ∈ fields) (hname : pseudo field.name = true) :
    ∃ error, intoTrailers fields = .error error := by
  rw [intoTrailers]
  split
  · next error _ => exact ⟨error, rfl⟩
  · next h =>
    have := (checkTrailer_ok (checkTrailers_ok h field hfield)).1
    rw [hname] at this
    cases this

end Fields

end Soyokaze

import Soyokaze.Helpers.Strings
import Soyokaze.Lib.Act
import Soyokaze.Presence

/-!
# Coding the body of a message

Where a body is coded or decoded, the fields that speak of it change with it: `Content-Encoding`
says how it is coded, `Content-Length` how long it is, and `Vary` what else might have been sent.
The steps are those of the source one after another, on a message that is kept where one fails.

* `Message.run_compressing`, `Message.run_decompressing`: a step that fails leaves the message as
  it was;
* `Message.decompress_compress`: what was coded is restored by decoding it;
* `Message.coding_preserves`: what is left of a message by each of the two.
-/

namespace Soyokaze

/-! ## Codecs -/

namespace Compression

variable {codecs : Codecs} {coding : Compression}

/-- The stream that a coding is written as. -/
def stream : Compression → Stream
  | zstd => .zstd
  | brotli => .brotli
  | gzip => .gzip
  | deflate | auto => .zlib

end Compression

/-- What a codec has encoded, its decoder gives back, as much of it as is read. -/
def Codecs.Undoes (codecs : Codecs) : Prop :=
  ∀ coding body out, coding ≠ .auto → codecs.encode coding body = .ok out →
    ∀ n, codecs.read coding.stream out n = .ok (body.take n)

namespace Compression

theorem drain_undoes {stream : Stream} {body out : Octets} (h : ∀ n, codecs.read stream out n = .ok (body.take n)) {max : ℕ}
    (hmax : body.length ≤ max) : drain codecs stream out max = .ok body := by
  rw [drain, h]
  dsimp only
  rw [List.take_of_length_le (by omega), if_pos hmax]

/-- What was encoded is decoded again, where there is room for it. -/
theorem decode_encode (h : codecs.Undoes) {body out : Octets} (hout : encode codecs coding body = .ok out) {max : ℕ}
    (hmax : body.length ≤ max) : decode codecs coding out max = .ok body := by
  have hread : ∀ coding ≠ auto, (codecs.encode coding body).mapError Error.coding = .ok out →
      drain codecs coding.stream out max = .ok body := fun coding hcoding hencode => by
    cases hraw : codecs.encode coding body with
    | error reason =>
      rw [hraw] at hencode
      cases hencode
    | ok raw =>
      rw [hraw] at hencode
      cases hencode
      exact drain_undoes (h coding body out hcoding hraw) hmax
  cases coding with
  | auto => cases hout
  | zstd => exact hread zstd (by decide) hout
  | brotli => exact hread brotli (by decide) hout
  | gzip => exact hread gzip (by decide) hout
  | deflate =>
    have hzlib := hread deflate (by decide) hout
    rw [stream] at hzlib
    rw [decode, hzlib]

/-- The codings that a `Content-Encoding` field names, those that code nothing left out. -/
def tokens (codecs : Codecs) (values : List Octets) : List Octets :=
  ((values.flatMap (Coding.list codecs)).filter fun coding => !Str.eqIgnoreAsciiCase coding.token IDENTITY).map (·.token)

theorem appliedLoop_identity {entry : Coding} (h : Str.eqIgnoreAsciiCase entry.token IDENTITY = true) (entries : List Coding)
    (applied : Option Compression) : appliedLoop (entry :: entries) applied = appliedLoop entries applied := by
  rw [appliedLoop.eq_def]
  exact if_pos h

theorem appliedLoop_first {entry : Coding} (h : ¬ Str.eqIgnoreAsciiCase entry.token IDENTITY = true) (entries : List Coding) :
    appliedLoop (entry :: entries) none = (parse entry.token).bind fun coding => appliedLoop entries (some coding) := by
  rw [appliedLoop.eq_def]
  dsimp only
  rw [if_neg h]
  cases parse entry.token <;> rfl

theorem appliedLoop_second {entry : Coding} (h : ¬ Str.eqIgnoreAsciiCase entry.token IDENTITY = true) (entries : List Coding)
    (coding : Compression) : appliedLoop (entry :: entries) (some coding) = none := by
  rw [appliedLoop.eq_def]
  exact if_neg h

theorem appliedLoop_some (entries : List Coding) (coding : Compression) : appliedLoop entries (some coding) =
    if (entries.filter fun entry => !Str.eqIgnoreAsciiCase entry.token IDENTITY) = [] then some coding else none := by
  induction entries with
  | nil => rfl
  | cons entry entries ih =>
    by_cases hidentity : Str.eqIgnoreAsciiCase entry.token IDENTITY = true
    · rw [appliedLoop_identity hidentity, ih, List.filter_cons_of_neg (by simp [hidentity])]
    · rw [appliedLoop_second hidentity, List.filter_cons_of_pos (by simp [hidentity])]
      rfl

/-- A body is coded in the one coding that is named. -/
theorem applied_eq (codecs : Codecs) (values : List Octets) : applied codecs values =
    match tokens codecs values with
    | [token] => parse token
    | _ => none := by
  rw [applied, tokens]
  induction values.flatMap (Coding.list codecs) with
  | nil => rfl
  | cons entry entries ih =>
    by_cases hidentity : Str.eqIgnoreAsciiCase entry.token IDENTITY = true
    · rw [appliedLoop_identity hidentity, ih, List.filter_cons_of_neg (by simp [hidentity])]
    · rw [appliedLoop_first hidentity, List.filter_cons_of_pos (by simp [hidentity]), List.map_cons]
      simp only [appliedLoop_some]
      cases entries.filter fun entry => !Str.eqIgnoreAsciiCase entry.token IDENTITY with
      | nil => simp
      | cons second entries => simp

theorem encoded_eq (codecs : Codecs) (values : List Octets) : encoded codecs values = !(tokens codecs values).isEmpty := by
  rw [encoded, tokens]
  induction values.flatMap (Coding.list codecs) with
  | nil => rfl
  | cons entry entries ih =>
    rw [List.any_cons, ih]
    cases hidentity : Str.eqIgnoreAsciiCase entry.token IDENTITY <;> simp [hidentity]

theorem tokens_append (codecs : Codecs) (values more : List Octets) :
    tokens codecs (values ++ more) = tokens codecs values ++ tokens codecs more := by
  simp [tokens]

theorem tokens_asStr (codecs : Codecs) (h : coding ≠ auto) : tokens codecs [lit coding.asStr] = [lit coding.asStr] := by
  cases coding with
  | auto => exact absurd rfl h
  | zstd | brotli | gzip | deflate => rfl

theorem parse_asStr (h : coding ≠ auto) : parse (lit coding.asStr) = some coding := by
  cases coding with
  | auto => exact absurd rfl h
  | zstd | brotli | gzip | deflate => rfl

/-- A body that was coded in none is coded in the one that is written behind. -/
theorem applied_behind {values : List Octets} (hcoded : encoded codecs values = false) (h : coding ≠ auto) :
    applied codecs (values ++ [lit coding.asStr]) = some coding := by
  rw [encoded_eq, Bool.not_eq_false', List.isEmpty_iff] at hcoded
  rw [applied_eq, tokens_append, hcoded, tokens_asStr codecs h, List.nil_append]
  exact parse_asStr h

theorem ne_auto_of_encode {body out : Octets} (h : encode codecs coding body = .ok out) : coding ≠ auto := by
  rintro rfl
  cases h

end Compression

/-! ## Field sections -/

namespace Headers

variable {headers : Headers} {name value : Text} {field : HeaderField}

/-- Names are stored in lower case. -/
def Stored (headers : Headers) : Prop := ∀ field ∈ headers.fields, field.name.Lowercase

instance (headers : Headers) : Decidable headers.Stored :=
  inferInstanceAs (Decidable (∀ field ∈ headers.fields, field.name.Lowercase))

/-- The fields with any other name. -/
def without (name : Text) (fields : List HeaderField) : List HeaderField := fields.filter (·.name ≠ name)

theorem Stored.named_iff (h : headers.Stored) (hname : name.Lowercase) (hfield : field ∈ headers.fields) :
    named field.name name = true ↔ field.name = name := by
  rw [named, Str.eqIgnoreAsciiCase, beq_iff_eq, (h field hfield).map_lower, hname.map_lower]
  exact ⟨Text.ext, congrArg _⟩

/-- What the bits rule out is not there. -/
theorem ne_of_absent (habsent : headers.absent name = true) (hfield : field ∈ headers.fields) : field.name ≠ name := by
  rintro rfl
  rw [absent_sound hfield] at habsent
  cases habsent

theorem without_eq_self {fields : List HeaderField} (h : ∀ field ∈ fields, field.name ≠ name) : without name fields = fields :=
  List.filter_eq_self.2 fun field hfield => decide_eq_true (h field hfield)

theorem without_append (name : Text) (fields more : List HeaderField) :
    without name (fields ++ more) = without name fields ++ without name more := List.filter_append ..

theorem without_cons_self (name value : Text) (fields : List HeaderField) :
    without name (⟨name, value⟩ :: fields) = without name fields := List.filter_cons_of_neg (by simp)

theorem without_of_absent (habsent : headers.absent name = true) : without name headers.fields = headers.fields :=
  without_eq_self fun _ => ne_of_absent habsent

theorem Stored.contains_eq (h : headers.Stored) (hname : name.Lowercase) :
    headers.contains name = headers.fields.any (·.name = name) := by
  rw [Bool.eq_iff_iff, contains, Bool.and_eq_true, Bool.not_eq_true', List.any_eq_true, List.any_eq_true]
  constructor
  · rintro ⟨-, field, hfield, hnamed⟩
    exact ⟨field, hfield, decide_eq_true ((h.named_iff hname hfield).1 hnamed)⟩
  · rintro ⟨field, hfield, hnamed⟩
    obtain rfl := of_decide_eq_true hnamed
    exact ⟨absent_sound hfield, field, hfield, (h.named_iff hname hfield).2 rfl⟩

theorem any_without {other : Text} (hother : other ≠ name) (fields : List HeaderField) :
    (without name fields).any (·.name = other) = fields.any (·.name = other) := by
  rw [without, List.any_filter]
  refine congrArg (List.any fields) (funext fun field => ?_)
  by_cases hfield : field.name = other
  · simp [hfield, hother]
  · simp [hfield]

theorem filter_without {other : Text} (hother : other ≠ name) (fields : List HeaderField) :
    (without name fields).filter (·.name = other) = fields.filter (·.name = other) := by
  rw [without, List.filter_filter]
  refine congrArg (fun keep => List.filter keep fields) (funext fun field => ?_)
  by_cases hfield : field.name = other
  · simp [hfield, hother]
  · simp [hfield]

theorem Stored.getAll_eq (h : headers.Stored) (hname : name.Lowercase) :
    headers.getAll name = (headers.fields.filter (·.name = name)).map (·.value) := by
  rw [getAll]
  split_ifs with habsent
  · rw [List.filter_eq_nil_iff.2 fun field hfield => by simpa using ne_of_absent habsent hfield]
    rfl
  · refine congrArg (List.map _) (List.filter_congr fun field hfield => ?_)
    rw [Bool.eq_iff_iff, h.named_iff hname hfield, decide_eq_true_iff]

theorem Stored.remove_fields (h : headers.Stored) (hname : name.Lowercase) :
    (headers.remove name).fields = without name headers.fields := by
  rw [remove]
  split_ifs with habsent
  · exact (without_of_absent habsent).symm
  · refine List.filter_congr fun field hfield => ?_
    rw [Bool.eq_iff_iff, Bool.not_eq_true', ← Bool.not_eq_true, h.named_iff hname hfield, decide_eq_true_iff]

theorem insert_fields (hname : name.Lowercase) :
    (headers.insert name value).fields = without name headers.fields ++ [⟨name, value⟩] := by
  rw [insert, hname.makeAsciiLowercase]
  dsimp only [adopt]
  split_ifs with habsent
  · rw [without_of_absent habsent]
  · rfl

theorem Stored.sub (h : headers.Stored) {other : Headers}
    (hsub : ∀ field ∈ other.fields, field ∈ headers.fields ∨ field.name.Lowercase) : other.Stored := fun field hfield =>
  (hsub field hfield).elim (h field) id

theorem fields_appendLowercase (headers : Headers) (name value : Text) :
    (headers.appendLowercase name value).fields = headers.fields ++ [⟨name, value⟩] := rfl

theorem Stored.appendLowercase (h : headers.Stored) (hname : name.Lowercase) : (headers.appendLowercase name value).Stored :=
  h.sub fun field hfield => by
    rcases List.mem_append.1 hfield with hfield | hfield
    · exact .inl hfield
    · rw [List.mem_singleton.1 hfield]
      exact .inr hname

theorem Stored.insert (h : headers.Stored) (hname : name.Lowercase) : (headers.insert name value).Stored :=
  h.sub fun field hfield => by
    rw [insert_fields hname] at hfield
    rcases List.mem_append.1 hfield with hfield | hfield
    · exact .inl (List.mem_of_mem_filter hfield)
    · rw [List.mem_singleton.1 hfield]
      exact .inr hname

theorem Stored.remove (h : headers.Stored) (hname : name.Lowercase) : (headers.remove name).Stored :=
  h.sub fun field hfield => by
    rw [h.remove_fields hname] at hfield
    exact .inl (List.mem_of_mem_filter hfield)

end Headers

/-! ## The steps -/

namespace Message

/-- Changes the field section, an empty one in place of none. -/
def change (f : Headers → Headers) : Act Message Error Unit := Act.modify fun m => { m with headers := some (f m.section') }

/-- Puts the length of the body right where one is written. -/
def measure (length : ℕ) (headers : Headers) : Headers :=
  if headers.contains (.lit "content-length") then
    headers.insert (.lit "content-length") (.fromUtf8Lossy (Number.decimal length))
  else headers

/-- Encodes the body, ready for it to go out, on the message itself. -/
def compressing (world : World) (accepted : Option Compression) : Act Message Error Unit := do
  let m ← Act.get
  match m.compression with
  | none => return ()
  | some compression =>
    match if compression = .auto then accepted else some compression with
    | none => Act.modify fun m => { m with compression := none }
    | some coding =>
      if m.compressed world.toCodecs || !m.codable || (m.body.map (·.isEmpty)).getD true then
        Act.modify fun m => { m with compression := none }
      else match m.body.bind (·.inline) with
        | none => Act.fail (.protocol "a body that is still a file cannot be coded" [])
        | some body => do
          let encoded ← Act.ofExcept ((coding.encode world.toCodecs body).mapError .ofCompression)
          let varying := compression = .auto && m.isResponse
          Act.modify fun m => { m with body := some (.data encoded) }
          Act.modify fun m => { m with compression := some coding }
          change fun headers => headers.appendLowercase (.lit "content-encoding") (.lit coding.asStr)
          change (measure encoded.length)
          change fun headers =>
            if varying && !headers.contains (.lit "vary") then headers.appendLowercase (.lit "vary") (.lit "Accept-Encoding")
            else headers

/-- Decodes a body that arrived coded, and takes the field off it, on the message itself. -/
def decompressing (world : World) (max : ℕ) : Act Message Error Unit := do
  let m ← Act.get
  match m.headers with
  | none => return ()
  | some _ =>
    match Compression.applied world.toCodecs (m.values "content-encoding"), m.body.bind (·.inline) with
    | some coding, some body => do
      let decoded ← Act.ofExcept ((coding.decode world.toCodecs body max).mapError .ofCompression)
      Act.modify fun m => { m with body := some (.data decoded) }
      Act.modify fun m => { m with compression := some coding }
      change (·.remove (.lit "content-encoding"))
      change (measure decoded.length)
    | _, _ => return ()

variable {world : World} {m m' : Message} {accepted : Option Compression}

/-- The step leaves the message that the other account of it answers, and one that fails what it found. -/
theorem run_compressing (world : World) (accepted : Option Compression) (m : Message) :
    (compressing world accepted).run m = match m.compress world accepted with
      | .ok m' => (.ok (), m')
      | .error error => (.error error, m) := by
  rw [compressing, compress, Act.run_bind_ok (Act.run_get m)]
  cases m.compression with
  | none => rfl
  | some compression =>
    dsimp only
    cases (if compression = .auto then accepted else some compression : Option Compression) with
    | none => rfl
    | some coding =>
      dsimp only
      split_ifs with hnot
      · rfl
      · cases m.body.bind (·.inline) with
        | none => rfl
        | some body =>
          dsimp only
          cases hencode : coding.encode world.toCodecs body with
          | error error => rfl
          | ok encoded => rfl

theorem run_decompressing (world : World) (max : ℕ) (m : Message) :
    (decompressing world max).run m = match m.decompress world max with
      | .ok m' => (.ok (), m')
      | .error error => (.error error, m) := by
  rw [decompressing, decompress, Act.run_bind_ok (Act.run_get m)]
  cases hheaders : m.headers with
  | none => rfl
  | some headers =>
    dsimp only
    cases Compression.applied world.toCodecs (m.values "content-encoding") with
    | none => rfl
    | some coding =>
      cases m.body.bind (·.inline) with
      | none => rfl
      | some body =>
        dsimp only
        cases hdecode : coding.decode world.toCodecs body max with
        | error error => rfl
        | ok decoded =>
          have hsection : m.section' = headers := by rw [section', hheaders]; rfl
          rw [← hsection]
          rfl

/-! ## What coding leaves -/

/-- Names are stored in lower case. -/
def Stored (m : Message) : Prop := m.section'.Stored

instance (m : Message) : Decidable m.Stored := inferInstanceAs (Decidable m.section'.Stored)

theorem carries_eq (m : Message) (name : String) : m.carries name = m.section'.contains (.lit name) := by
  rw [carries, section']
  cases m.headers with
  | none => simp [Headers.contains, Headers.new]
  | some headers => rfl

theorem values_eq (m : Message) (name : String) : m.values name = (m.section'.getAll (.lit name)).map (·.octets) := by
  rw [values, section']
  cases m.headers with
  | none => simp [Headers.getAll, Headers.new]
  | some headers => rfl

/-- The fields that do not speak of the body. -/
def others (m : Message) : List HeaderField :=
  m.section'.fields.filter fun field => field.name ≠ .lit "content-encoding" ∧ field.name ≠ .lit "content-length"

/-- The field that says what else might have been sent, where the coding was settled with the peer. -/
def varied (m : Message) : List HeaderField :=
  if (m.compression = some .auto && m.isResponse && !m.carries "vary") = true then [⟨.lit "vary", .lit "Accept-Encoding"⟩] else []

/-- The field that says how long the body is, where there is one. -/
def lengths (m : Message) (length : ℕ) : List HeaderField :=
  if m.carries "content-length" then [⟨.lit "content-length", .fromUtf8Lossy (Number.decimal length)⟩] else []

/-- What coding the body of a message and decoding it again leaves of it. -/
structure Restored (m restored : Message) : Prop where
  body : restored.body.bind (·.inline) = m.body.bind (·.inline)
  /-- The fields are there in their order, with `Vary` and the one `Content-Length` behind them. -/
  fields : ∀ body, m.body.bind (·.inline) = some body → restored.section'.fields = m.others ++ m.varied ++ m.lengths body.length
  rest : restored = { m with body := restored.body, headers := restored.headers, compression := restored.compression }

/-- A length that was written is the one of the body there is now. -/
def Measured (m m' : Message) : Prop := m.carries "content-length" = true →
  ∃ body, m'.body.bind (·.inline) = some body ∧ m'.values "content-length" = [Number.decimal body.length]

/-- The message once its body is coded. -/
def coded (m : Message) (coding : Compression) (encoded : Octets) : Message := { m with
  body := some (.data encoded), compression := some coding
  headers := some (m.codedSection coding encoded.length (m.compression = some .auto && m.isResponse)) }

/-- The message once its body is decoded. -/
def decoded (m : Message) (coding : Compression) (body : Octets) : Message := { m with
  body := some (.data body), compression := some coding, headers := some (decodedSection m.section' body.length) }

theorem compress_cases (h : m.compress world accepted = .ok m') : m' = { m with compression := none } ∨
    ∃ coding body encoded, m.body.bind (·.inline) = some body ∧ coding.encode world.toCodecs body = .ok encoded ∧
      m.compressed world.toCodecs = false ∧ m' = m.coded coding encoded := by
  rw [compress] at h
  cases hmark : m.compression with
  | none =>
    rw [hmark] at h
    cases h
    refine .inl ?_
    rw [← hmark]
  | some compression =>
    rw [hmark] at h
    dsimp only at h
    cases hsettled : (if compression = .auto then accepted else some compression : Option Compression) with
    | none =>
      rw [hsettled] at h
      cases h
      exact .inl rfl
    | some coding =>
      rw [hsettled] at h
      dsimp only at h
      split_ifs at h with hnot
      · cases h
        exact .inl rfl
      · cases hbody : m.body.bind (·.inline) with
        | none =>
          rw [hbody] at h
          cases h
        | some body =>
          rw [hbody] at h
          dsimp only at h
          cases hencode : coding.encode world.toCodecs body with
          | error error =>
            rw [hencode] at h
            cases h
          | ok encoded =>
            rw [hencode] at h
            cases h
            have hcompressed : m.compressed world.toCodecs = false := by
              rw [Bool.or_eq_true, Bool.or_eq_true, not_or, not_or] at hnot
              exact Bool.eq_false_iff.2 hnot.1.1
            refine .inr ⟨coding, body, encoded, rfl, hencode, hcompressed, ?_⟩
            simp [coded, hmark]

theorem lowercase_encoding : (Text.lit "content-encoding").Lowercase := by decide

theorem lowercase_length : (Text.lit "content-length").Lowercase := by decide

theorem lowercase_vary : (Text.lit "vary").Lowercase := by decide

theorem Stored.carries_eq (h : m.Stored) {name : String} (hname : (Text.lit name).Lowercase) :
    m.carries name = m.section'.fields.any (·.name = .lit name) := by
  rw [Message.carries_eq]
  exact Headers.Stored.contains_eq h hname

theorem Stored.values_eq (h : m.Stored) {name : String} (hname : (Text.lit name).Lowercase) :
    m.values name = (m.section'.fields.filter (·.name = .lit name)).map (·.value.octets) := by
  rw [Message.values_eq, Headers.Stored.getAll_eq h hname, List.map_map]
  rfl

theorem stored_measure {headers : Headers} (h : headers.Stored) (length : ℕ) : (measure length headers).Stored := by
  rw [measure]
  split_ifs
  · exact h.insert lowercase_length
  · exact h

/-- There is one `Content-Length` where there were any. -/
theorem fields_measure {headers : Headers} (h : headers.Stored) (length : ℕ) : (measure length headers).fields =
    Headers.without (.lit "content-length") headers.fields ++ if headers.contains (.lit "content-length") = true then
      [⟨.lit "content-length", .fromUtf8Lossy (Number.decimal length)⟩] else [] := by
  rw [measure]
  split_ifs with hcontains
  · exact Headers.insert_fields lowercase_length
  · rw [List.append_nil]
    refine (Headers.without_eq_self fun field hfield hname => hcontains ?_).symm
    rw [h.contains_eq lowercase_length]
    exact List.any_eq_true.2 ⟨field, hfield, decide_eq_true hname⟩

/-- The section of a message that was coded. -/
theorem fields_coded (h : m.Stored) (coding : Compression) (encoded : Octets) :
    (m.coded coding encoded).section'.fields =
      Headers.without (.lit "content-length") m.section'.fields ++ ⟨.lit "content-encoding", .lit coding.asStr⟩ ::
        (m.lengths encoded.length ++ m.varied) ∧
    (m.coded coding encoded).Stored := by
  change (m.codedSection coding encoded.length _).fields = _ ∧ (m.codedSection coding encoded.length _).Stored
  generalize encoded.length = length
  have hencoding : Text.lit "content-encoding" ≠ .lit "content-length" ∧ Text.lit "content-encoding" ≠ .lit "vary" ∧
    Text.lit "vary" ≠ .lit "content-length" := by decide
  have hfirst : (m.section'.appendLowercase (.lit "content-encoding") (.lit coding.asStr)).Stored :=
    Headers.Stored.appendLowercase h lowercase_encoding
  have hmeasured := stored_measure hfirst length
  have hfields : (measure length (m.section'.appendLowercase (.lit "content-encoding") (.lit coding.asStr))).fields =
      Headers.without (.lit "content-length") m.section'.fields ++ ⟨.lit "content-encoding", .lit coding.asStr⟩ :: m.lengths length := by
    rw [fields_measure hfirst, hfirst.contains_eq lowercase_length, lengths, h.carries_eq lowercase_length]
    simp [Headers.appendLowercase, Headers.without, hencoding]
  have hvary : (measure length (m.section'.appendLowercase (.lit "content-encoding") (.lit coding.asStr))).contains (.lit "vary") =
      m.carries "vary" := by
    rw [hmeasured.contains_eq lowercase_vary, h.carries_eq lowercase_vary, hfields, List.any_append,
      Headers.any_without hencoding.2.2, lengths]
    split_ifs <;> simp [hencoding, hencoding.2.2.symm]
  have hcoded : m.codedSection coding length (m.compression = some .auto && m.isResponse) =
      if (m.compression = some .auto && m.isResponse && !m.carries "vary") = true then
        (measure length (m.section'.appendLowercase (.lit "content-encoding") (.lit coding.asStr))).appendLowercase (.lit "vary")
          (.lit "Accept-Encoding")
      else measure length (m.section'.appendLowercase (.lit "content-encoding") (.lit coding.asStr)) := by
    rw [← hvary]
    rfl
  rw [hcoded, varied]
  split_ifs
  · refine ⟨?_, hmeasured.appendLowercase lowercase_vary⟩
    rw [Headers.fields_appendLowercase, hfields, List.append_assoc]
    rfl
  · rw [List.append_nil]
    exact ⟨hfields, hmeasured⟩

/-- The values that say how a body is coded, once it is. -/
theorem values_coded (h : m.Stored) (coding : Compression) (encoded : Octets) :
    (m.coded coding encoded).values "content-encoding" = m.values "content-encoding" ++ [lit coding.asStr] := by
  obtain ⟨hfields, hstored⟩ := fields_coded h coding encoded
  have hnames : Text.lit "content-encoding" ≠ .lit "content-length" ∧ Text.lit "content-length" ≠ .lit "content-encoding" ∧
    Text.lit "vary" ≠ .lit "content-encoding" := by decide
  have hlengths : (m.lengths encoded.length).filter (·.name = .lit "content-encoding") = [] := by
    rw [lengths]
    split_ifs <;> simp [hnames]
  have hvaried : m.varied.filter (·.name = .lit "content-encoding") = [] := by
    rw [varied]
    split_ifs <;> simp [hnames]
  have hoctets : (Text.lit coding.asStr).octets = lit coding.asStr := by cases coding <;> rfl
  rw [hstored.values_eq lowercase_encoding, h.values_eq lowercase_encoding, hfields, List.filter_append,
    Headers.filter_without hnames.1, List.filter_cons_of_pos (by simp), List.filter_append, hlengths, hvaried, List.map_append]
  simp [hoctets]

/-- Decoding what was coded restores the section. -/
theorem fields_decoded (h : m.Stored) (coding : Compression) (encoded body : Octets) :
    ((m.coded coding encoded).decoded coding body).section'.fields = m.others ++ m.varied ++ m.lengths body.length ∧
      ((m.coded coding encoded).decoded coding body).Stored := by
  obtain ⟨hfields, hstored⟩ := fields_coded h coding encoded
  have hnames : Text.lit "content-encoding" ≠ .lit "content-length" ∧ Text.lit "content-length" ≠ .lit "content-encoding" ∧
    Text.lit "vary" ≠ .lit "content-encoding" ∧ Text.lit "vary" ≠ .lit "content-length" := by decide
  change (decodedSection (m.coded coding encoded).section' body.length).fields = _ ∧
    (decodedSection (m.coded coding encoded).section' body.length).Stored
  rw [Stored] at hstored
  generalize (m.coded coding encoded).section' = headers at hfields hstored ⊢
  have hremoved := hstored.remove lowercase_encoding
  have hdecoded : decodedSection headers body.length = measure body.length (headers.remove (.lit "content-encoding")) := rfl
  have hlength : (headers.remove (.lit "content-encoding")).contains (.lit "content-length") = m.carries "content-length" := by
    have hplain : (Headers.without (.lit "content-length") m.section'.fields).any (·.name = .lit "content-length") = false := by
      simp [Headers.without]
    rw [hremoved.contains_eq lowercase_length, hstored.remove_fields lowercase_encoding, Headers.any_without hnames.2.1, hfields,
      List.any_append, hplain, lengths, varied]
    split_ifs <;> simp [*]
  rw [hdecoded]
  refine ⟨?_, stored_measure hremoved body.length⟩
  rw [fields_measure hremoved, hlength, hstored.remove_fields lowercase_encoding, hfields]
  have hothers : Headers.without (.lit "content-length") (Headers.without (.lit "content-encoding")
      (Headers.without (.lit "content-length") m.section'.fields)) = m.others := by
    rw [Headers.without, Headers.without, Headers.without, List.filter_filter, List.filter_filter, others]
    refine congrArg (fun keep => List.filter keep m.section'.fields) (funext fun field => ?_)
    rw [Bool.eq_iff_iff]
    simp
    tauto
  have hlengths : Headers.without (.lit "content-length") (Headers.without (.lit "content-encoding") (m.lengths encoded.length)) = [] := by
    rw [lengths]
    split_ifs <;> simp [Headers.without, hnames]
  have hvaried : Headers.without (.lit "content-length") (Headers.without (.lit "content-encoding") m.varied) = m.varied := by
    rw [varied]
    split_ifs <;> simp [Headers.without, hnames]
  rw [Headers.without_append, Headers.without_append, hothers, Headers.without_cons_self, Headers.without_append, Headers.without_append,
    hlengths, hvaried, List.nil_append]
  rfl

/-- The length is right where the only one there is was written for the body. -/
theorem measured_of_fields (h' : m'.Stored) {body : Octets} (hbody : m'.body.bind (·.inline) = some body)
    (hfields : m'.section'.fields.filter (·.name = .lit "content-length") = m.lengths body.length) : Measured m m' := by
  refine fun hcarries => ⟨body, hbody, ?_⟩
  rw [h'.values_eq lowercase_length, hfields, lengths, if_pos hcarries]
  exact congrArg (fun octets => [octets]) (Text.octets_of_digits (Number.decimal_digits body.length))

theorem filter_lengths (m : Message) (length : ℕ) :
    (m.lengths length).filter (·.name = .lit "content-length") = m.lengths length := by
  rw [lengths]
  split_ifs <;> simp

theorem filter_varied (m : Message) : m.varied.filter (·.name = .lit "content-length") = [] := by
  have hname : Text.lit "vary" ≠ .lit "content-length" := by decide
  rw [varied]
  split_ifs <;> simp [hname]

/-- A body that was coded has its length written. -/
theorem measured_coded (h : m.Stored) (coding : Compression) (encoded : Octets) : Measured m (m.coded coding encoded) := by
  obtain ⟨hfields, hstored⟩ := fields_coded h coding encoded
  have hname : Text.lit "content-encoding" ≠ .lit "content-length" := by decide
  have hplain : (Headers.without (.lit "content-length") m.section'.fields).filter (·.name = .lit "content-length") = [] := by
    simp [Headers.without]
  refine measured_of_fields hstored rfl ?_
  rw [hfields, List.filter_append, hplain, List.filter_cons_of_neg (by simp [hname]), List.filter_append, filter_lengths,
    filter_varied, List.append_nil, List.nil_append]

theorem decompress_of_decode {headers : Headers} {coding : Compression} {input body : Octets} {max : ℕ}
    (hheaders : m.headers = some headers) (happlied : Compression.applied world.toCodecs (m.values "content-encoding") = some coding)
    (hinput : m.body.bind (·.inline) = some input) (hdecode : coding.decode world.toCodecs input max = .ok body) :
    m.decompress world max = .ok (m.decoded coding body) := by
  rw [decompress, hheaders, happlied, hinput]
  dsimp only
  rw [hdecode, decoded, section', hheaders]
  rfl

/-- What was coded is decoded again, where there is room for it, and the fields are those there were. -/
theorem decompress_compress (hcodecs : world.toCodecs.Undoes) (h : m.Stored) (hm' : m.compress world accepted = .ok m')
    {coding : Compression} (hcoding : m'.compression = some coding) : ∃ body, m.body.bind (·.inline) = some body ∧ Measured m m' ∧
    ∀ max, body.length ≤ max → ∃ restored, m'.decompress world max = .ok restored ∧ Restored m restored ∧ Measured m restored := by
  rcases compress_cases hm' with rfl | ⟨settled, body, encoded, hbody, hencode, hcompressed, rfl⟩
  · cases hcoding
  · obtain rfl : settled = coding := Option.some.inj hcoding
    refine ⟨body, hbody, measured_coded h settled encoded, fun max hmax => ?_⟩
    have happlied : Compression.applied world.toCodecs ((m.coded settled encoded).values "content-encoding") = some settled := by
      rw [values_coded h]
      exact Compression.applied_behind hcompressed (Compression.ne_auto_of_encode hencode)
    obtain ⟨hfields, hstored⟩ := fields_decoded h settled encoded body
    refine ⟨(m.coded settled encoded).decoded settled body,
      decompress_of_decode rfl happlied rfl (Compression.decode_encode hcodecs hencode hmax), ⟨hbody.symm, ?_, rfl⟩, ?_⟩
    · intro body' hbody'
      obtain rfl : body = body' := Option.some.inj (hbody.symm.trans hbody')
      exact hfields
    · refine measured_of_fields hstored rfl ?_
      have hothers : m.others.filter (·.name = .lit "content-length") = [] := by
        simp only [others, List.filter_filter, List.filter_eq_nil_iff, Bool.and_eq_true, decide_eq_true_iff]
        exact fun field _ hfield => hfield.2.2 hfield.1
      rw [hfields, List.filter_append, List.filter_append, hothers, filter_varied, filter_lengths]
      rfl

/-- A body that was decoded has its length written. -/
theorem measured_decoded (h : m.Stored) (coding : Compression) (body : Octets) : Measured m (m.decoded coding body) := by
  have hname : Text.lit "content-length" ≠ .lit "content-encoding" := by decide
  have hremoved := Headers.Stored.remove h lowercase_encoding
  have hcontains : (m.section'.remove (.lit "content-encoding")).contains (.lit "content-length") = m.carries "content-length" := by
    rw [hremoved.contains_eq lowercase_length, Headers.Stored.remove_fields h lowercase_encoding, Headers.any_without hname,
      h.carries_eq lowercase_length]
  have hplain : (Headers.without (.lit "content-length") (m.section'.remove (.lit "content-encoding")).fields).filter
      (·.name = .lit "content-length") = [] := by
    simp [Headers.without]
  refine measured_of_fields (stored_measure hremoved body.length) rfl ?_
  change (measure body.length (m.section'.remove (.lit "content-encoding"))).fields.filter _ = _
  rw [fields_measure hremoved, hcontains, List.filter_append, hplain, List.nil_append]
  exact filter_lengths m body.length

/-- What decoding leaves of a message. -/
theorem decompress_cases {max : ℕ} (h : m.decompress world max = .ok m') :
    m' = m ∨ ∃ coding body, m' = m.decoded coding body := by
  cases hheaders : m.headers with
  | none =>
    rw [decompress, hheaders] at h
    cases h
    exact .inl rfl
  | some headers =>
    cases happlied : Compression.applied world.toCodecs (m.values "content-encoding") with
    | none =>
      rw [decompress, hheaders, happlied] at h
      cases h
      exact .inl rfl
    | some coding =>
      cases hinput : m.body.bind (·.inline) with
      | none =>
        rw [decompress, hheaders, happlied, hinput] at h
        cases h
        exact .inl rfl
      | some input =>
        cases hdecode : coding.decode world.toCodecs input max with
        | error error =>
          rw [decompress, hheaders, happlied, hinput] at h
          dsimp only at h
          rw [hdecode] at h
          cases h
        | ok body =>
          rw [decompress_of_decode hheaders happlied hinput hdecode] at h
          exact .inr ⟨coding, body, (Except.ok.inj h).symm⟩

/-- A message that is coded, has no content or may not be coded is left alone. -/
theorem compress_refused (h : m.compressed world.toCodecs = true ∨ m.codable = false ∨ (m.body.map (·.isEmpty)).getD true = true) :
    m.compress world accepted = .ok { m with compression := none } := by
  have hbool : (m.compressed world.toCodecs || !m.codable || (m.body.map (·.isEmpty)).getD true) = true := by
    simpa [or_assoc] using h
  rw [compress]
  cases hmark : m.compression with
  | none =>
    dsimp only
    rw [← hmark]
  | some compression =>
    dsimp only
    cases (if compression = .auto then accepted else some compression : Option Compression) with
    | none => rfl
    | some coding =>
      dsimp only
      rw [if_pos hbool]

/-- So is one with a coding that is not known, or with several, whatever fields they are named in. -/
theorem decompress_refused {max : ℕ} (h : (∃ token ∈ Compression.tokens world.toCodecs (m.values "content-encoding"),
    Compression.parse token = none) ∨ 1 < (Compression.tokens world.toCodecs (m.values "content-encoding")).length) :
    m.decompress world max = .ok m := by
  have happlied : Compression.applied world.toCodecs (m.values "content-encoding") = none := by
    rw [Compression.applied_eq]
    cases htokens : Compression.tokens world.toCodecs (m.values "content-encoding") with
    | nil => rfl
    | cons token tokens =>
      cases tokens with
      | nil =>
        rw [htokens] at h
        simpa using h
      | cons second tokens => rfl
  rw [decompress, happlied]
  cases m.headers with
  | none => rfl
  | some headers => rfl

/-- What coding the body of a message and decoding it do to the message. -/
theorem coding_preserves (hcodecs : world.toCodecs.Undoes) (h : m.Stored) (accepted : Option Compression) :
    (∀ m' coding, (compressing world accepted).run m = (.ok (), m') → m'.compression = some coding →
      ∃ body, m.body.bind (·.inline) = some body ∧ Measured m m' ∧ ∀ max, body.length ≤ max →
        ∃ restored, (decompressing world max).run m' = (.ok (), restored) ∧ Restored m restored ∧ Measured m restored) ∧
    (m.compressed world.toCodecs = true ∨ m.codable = false ∨ (m.body.map (·.isEmpty)).getD true = true →
      (compressing world accepted).run m = (.ok (), { m with compression := none })) ∧
    (∀ error m', (compressing world accepted).run m = (.error error, m') → m' = m) ∧
    ∀ max,
      (∀ m', (decompressing world max).run m = (.ok (), m') → m' = m ∨ Measured m m') ∧
      ((∃ token ∈ Compression.tokens world.toCodecs (m.values "content-encoding"), Compression.parse token = none) ∨
        1 < (Compression.tokens world.toCodecs (m.values "content-encoding")).length →
          (decompressing world max).run m = (.ok (), m)) ∧
      ∀ error m', (decompressing world max).run m = (.error error, m') → m' = m := by
  have hok : ∀ m m' : Message, (compressing world accepted).run m = (.ok (), m') → m.compress world accepted = .ok m' := by
    intro m m' hrun
    rw [run_compressing] at hrun
    split at hrun
    · next hm' => rw [hm', (Prod.mk.inj hrun).2]
    · cases hrun
  refine ⟨fun m' coding hrun hcoding => ?_, fun hrefused => ?_, fun error m' hrun => ?_, fun max => ⟨fun m' hrun => ?_, fun hrefused => ?_, fun error m' hrun => ?_⟩⟩
  · obtain ⟨body, hbody, hmeasured, hrestored⟩ := decompress_compress hcodecs h (hok m m' hrun) hcoding
    refine ⟨body, hbody, hmeasured, fun max hmax => ?_⟩
    obtain ⟨restored, hrun', hrest⟩ := hrestored max hmax
    exact ⟨restored, by rw [run_decompressing, hrun'], hrest⟩
  · rw [run_compressing, compress_refused hrefused]
  · rw [run_compressing] at hrun
    split at hrun
    · cases hrun
    · exact (Prod.mk.inj hrun).2.symm
  · rw [run_decompressing] at hrun
    split at hrun
    · next found hfound =>
      obtain rfl := (Prod.mk.inj hrun).2
      refine (decompress_cases hfound).imp id ?_
      rintro ⟨coding, body, rfl⟩
      exact measured_decoded h coding body
    · cases hrun
  · rw [run_decompressing, decompress_refused hrefused]
  · rw [run_decompressing] at hrun
    split at hrun
    · cases hrun
    · exact (Prod.mk.inj hrun).2.symm

/-- The one letter `a` as zlib writes it. -/
def ZLIB_A : Octets := [0x78, 0x9c, 0x4b, 0x04, 0x00, 0x00, 0x62, 0x00, 0x62]

/-- A world whose codec is known for a body of the one letter. -/
def oneBody : World := { World.bare with
  encode := fun coding body => if coding = .deflate ∧ body = lit "a" then .ok ZLIB_A else .error "no codec"
  read := fun stream input n => if stream = .zlib ∧ input = ZLIB_A then .ok ((lit "a").take n) else .error "no codec" }

theorem undoes_oneBody : oneBody.Undoes := by
  intro coding body out _ hencode n
  rw [oneBody] at hencode ⊢
  dsimp only at hencode ⊢
  split_ifs at hencode with hbody
  cases hencode
  rw [hbody.1, hbody.2]
  exact if_pos ⟨rfl, rfl⟩

/-- A request with a body of the one letter, and some more fields. -/
def oneLetter (fields : List HeaderField) : Message := { request .POST (.lit "/") .v1_1 with
  body := some (.data (lit "a")), compression := some .deflate, headers := some (.adopt fields) }

/-- The message once its body is coded. -/
def oneLetterCoded (fields : List HeaderField) : Message := ((compressing oneBody none).run (oneLetter fields)).2

/-- It is restored with the length it had. -/
theorem coding_preserves_letter : ∃ restored,
    (decompressing oneBody 1).run (oneLetterCoded [⟨.lit "content-length", .lit "1"⟩]) = (.ok (), restored) ∧
      Restored (oneLetter [⟨.lit "content-length", .lit "1"⟩]) restored ∧
      Measured (oneLetter [⟨.lit "content-length", .lit "1"⟩]) restored := by
  obtain ⟨body, hbody, -, hrestored⟩ :=
    (coding_preserves undoes_oneBody (show (oneLetter [⟨.lit "content-length", .lit "1"⟩]).Stored by decide) none).1
      (oneLetterCoded [⟨.lit "content-length", .lit "1"⟩]) .deflate rfl (by decide)
  obtain rfl : lit "a" = body := Option.some.inj hbody
  exact hrestored 1 (Nat.le_refl 1)

/-- A field that names no coding is lost. -/
theorem coding_drops_identity : ¬ ∀ (world : World) (m m' restored : Message) (accepted : Option Compression) (max : ℕ),
    world.toCodecs.Undoes → m.Stored → (compressing world accepted).run m = (.ok (), m') → m'.compression ≠ none →
    (decompressing world max).run m' = (.ok (), restored) → ∀ field ∈ m.section'.fields,
      field.name ≠ .lit "content-length" → field ∈ restored.section'.fields := by
  intro hall
  have hfield := hall oneBody (oneLetter [⟨.lit "content-encoding", .lit "identity"⟩])
    (oneLetterCoded [⟨.lit "content-encoding", .lit "identity"⟩])
    ((decompressing oneBody 1).run (oneLetterCoded [⟨.lit "content-encoding", .lit "identity"⟩])).2 none 1
    undoes_oneBody (by decide) rfl (by decide) rfl ⟨.lit "content-encoding", .lit "identity"⟩ (by decide) (by decide)
  revert hfield
  decide

end Message

end Soyokaze

import Soyokaze.Helpers.QpackSearch
import Soyokaze.Helpers.QpackSection
import Soyokaze.Models.Coding
import Soyokaze.Protocol.H3.Leftovers
import Soyokaze.Protocol.H3.Refusals

/-!
# Messages that are not framed

A message is framed behind what a stream has waiting, and what was written of one that fails is
taken off again. What is not taken back is the field section the encoder has in flight, and the
entries a send makes for its stream.

* `Qpack.Encoder.sections_encode`: a field section is in flight where it names an entry;
* `H3Session.encodeMessageInto_eq`: the frames of a message are put behind what there is, or
  nothing is;
* `H3Session.failed_encoding_iff`, `H3Worker.failed_send_iff`: what an encoding that failed leaves
  of a session, and a send of a worker;
* `H3Worker.encoding_undone_iff`: where both are undone.
-/

namespace Soyokaze

open H3

/-! ## Sections in flight -/

namespace Qpack.Encoder

/-- The peer has an entry to name for a field: of the field itself, which the static table has not, or of its name, which
    no static field has. -/
def Reaches (e : Encoder) (field : HeaderField) : Prop :=
  (field ∉ StaticTable.entries ∧ ∃ i, i < e.knownReceivedCount ∧ e.dynamicTable.Exact field i) ∨
    (∀ f ∈ StaticTable.entries, f.name ≠ field.name) ∧ ∃ i, i < e.knownReceivedCount ∧ e.dynamicTable.Named field i

/-- A field section names an entry of the dynamic table: there is room for a section in flight, and the peer has an entry
    for one of the fields once those before it are settled. -/
def Names (e : Encoder) (fields : List HeaderField) : Prop :=
  e.sections.length < e.maxOutstandingSections ∧ ∃ before field after, fields = before ++ field :: after ∧
    Reaches (referAll true { e with sectionFloor := MAX } 0 before).1 field

/-- The reference preferred for a field names an entry exactly where the peer has one. -/
theorem Preferred.named_iff {e : Encoder} {field : HeaderField} {reference : Option Reference}
    (h : Preferred e field reference) : (named reference).isSome = true ↔ e.Reaches field := by
  cases h with
  | staticExact hs =>
    have hmem : field ∈ StaticTable.entries := List.mem_of_getElem? hs
    simp only [named, Reaches]
    exact iff_of_false Bool.false_ne_true (by rintro (⟨hno, -⟩ | ⟨hno, -⟩); exacts [hno hmem, hno field hmem rfl])
  | dynamicExact hno hlt hexact => exact iff_of_true rfl (.inl ⟨hno, _, hlt, hexact⟩)
  | staticName _ hnone hs hname =>
    refine iff_of_false Bool.false_ne_true ?_
    rintro (⟨-, i, hlt, hexact⟩ | ⟨hno, -⟩)
    · exact hnone i hlt hexact
    · exact hno _ (List.mem_of_getElem? hs) hname
  | dynamicName hno _ hlt hnamed => exact iff_of_true rfl (.inr ⟨hno, _, hlt, hnamed⟩)
  | none _ hnone =>
    refine iff_of_false Bool.false_ne_true ?_
    rintro (⟨-, i, hlt, hexact⟩ | ⟨-, i, hlt, hnamed⟩)
    · exact hnone i hlt hexact.named
    · exact hnone i hlt hnamed

/-- Without room no field names an entry. -/
theorem named_choose_false (inStatic : Option (ℕ × Bool)) (found : Option (ℕ × Bool) × Bool) :
    named (choose inStatic false found).1 = none := by
  rcases inStatic with - | ⟨index, - | -⟩ <;> rfl

/-- With room, the fields that name an entry are those that the peer has one for. -/
theorem exists_named_iff (e : Encoder) (required : ℕ) (fields : List HeaderField) :
    (∃ reference ∈ (referAll true e required fields).2.2, (named reference).isSome = true) ↔
      ∃ before field after, fields = before ++ field :: after ∧ Reaches (referAll true e required before).1 field := by
  induction fields generalizing e required with
  | nil => simp [referAll]
  | cons head fields ih =>
    have hhead : (named (refer true e required head).2.2).isSome = true ↔ e.Reaches head :=
      (preferred_refer e required head).named_iff
    simp only [referAll, List.mem_cons, exists_eq_or_imp, hhead, ih]
    constructor
    · rintro (hreaches | ⟨before, field, after, rfl, hreaches⟩)
      · exact ⟨[], head, fields, rfl, hreaches⟩
      · exact ⟨head :: before, field, after, rfl, hreaches⟩
    · rintro ⟨before, field, after, heq, hreaches⟩
      rcases before with - | ⟨first, before⟩
      · obtain ⟨rfl, rfl⟩ := List.cons_eq_cons.1 heq
        exact .inl hreaches
      · obtain ⟨rfl, rfl⟩ := List.cons_eq_cons.1 heq
        exact .inr ⟨before, field, after, rfl, hreaches⟩

theorem unnamed_of_false (e : Encoder) (required : ℕ) (fields : List HeaderField) :
    ∀ reference ∈ (referAll false e required fields).2.2, named reference = none := by
  induction fields generalizing e required with
  | nil => exact fun _ hmem => absurd hmem List.not_mem_nil
  | cons head fields ih =>
    have hhead : named (refer false e required head).2.2 = none := by
      rw [refer, settle_chosen, named_choose_false]
    rw [referAll]
    intro reference hmem
    rw [List.mem_cons] at hmem
    rcases hmem with heq | hmem
    · rw [heq, hhead]
    · exact ih (refer false e required head).1 (refer false e required head).2.1 reference hmem

theorem record_spare (e : Encoder) (required : ℕ) (reference : Option Reference) :
    (e.record required reference).1.sections = e.sections ∧
      (0 < (e.record required reference).2 ↔ 0 < required ∨ (named reference).isSome = true) := by
  rcases reference with - | ⟨- | -, absolute, whole⟩
  · exact ⟨rfl, by simp [record, named]⟩
  · refine ⟨rfl, ?_⟩
    have hpos : 0 < saturatingAdd absolute 1 := Nat.lt_min.2 ⟨Nat.succ_pos _, by decide⟩
    simp [record, named, hpos]
  · exact ⟨rfl, by simp [record, named]⟩

theorem settle_spare (tracked : Bool) (e : Encoder) (required : ℕ) (field : HeaderField) (chosen : Option Reference × Bool) :
    (settle tracked e required field chosen).1.sections = e.sections ∧
      (0 < (settle tracked e required field chosen).2.1 ↔
        0 < required ∨ (named (settle tracked e required field chosen).2.2).isSome = true) := by
  obtain ⟨hsections, hpos⟩ := record_spare e required chosen.1
  refine ⟨?_, hpos⟩
  rw [settle]
  dsimp only
  split_ifs
  · rw [insert]
    split_ifs
    · exact hsections
    · exact hsections
  · exact hsections

/-- The section needs something inserted exactly where it names an entry. -/
theorem referAll_spare (tracked : Bool) (e : Encoder) (required : ℕ) (fields : List HeaderField) :
    (referAll tracked e required fields).1.sections = e.sections ∧
      (0 < (referAll tracked e required fields).2.1 ↔
        0 < required ∨ ∃ reference ∈ (referAll tracked e required fields).2.2, (named reference).isSome = true) := by
  induction fields generalizing e required with
  | nil => simp [referAll]
  | cons field fields ih =>
    obtain ⟨hsections, hpos⟩ := settle_spare tracked e required field
      (choose (StaticTable.find field) tracked (e.dynamicTable.probe field e.knownReceivedCount))
    obtain ⟨hsections', hpos'⟩ := ih (refer tracked e required field).1 (refer tracked e required field).2.1
    refine ⟨hsections'.trans hsections, hpos'.trans ?_⟩
    rw [refer] at hpos' ⊢
    simp only [referAll, refer, List.mem_cons, exists_eq_or_imp]
    rw [hpos, or_assoc]

/-- And is in flight from then on. -/
theorem sections_encode (e : Encoder) (streamId : ℕ) (fields : List HeaderField) :
    (e.encode streamId fields).1.sections = e.sections ↔ ¬ e.Names fields := by
  obtain ⟨hsections, hpos⟩ :=
    referAll_spare (e.sections.length < e.maxOutstandingSections) { e with sectionFloor := MAX } 0 fields
  simp only [Nat.lt_irrefl, false_or] at hpos
  have hnames : 0 < (referAll (e.sections.length < e.maxOutstandingSections) { e with sectionFloor := MAX } 0 fields).2.1 ↔
      e.Names fields := by
    rw [hpos, Names]
    by_cases hroom : e.sections.length < e.maxOutstandingSections
    · rw [decide_eq_true hroom, exists_named_iff]
      exact (and_iff_right hroom).symm
    · rw [decide_eq_false hroom]
      refine iff_of_false ?_ fun hnames => hroom hnames.1
      rintro ⟨reference, hmem, hnamed⟩
      rw [unnamed_of_false _ _ _ reference hmem] at hnamed
      cases hnamed
  rw [← hnames, encode]
  dsimp only
  split_ifs with hrequired
  · simp [hsections, hrequired]
  · simp [hsections, hrequired]

end Qpack.Encoder

/-! ## Writing into a buffer -/

/-- A session, and a buffer that it writes octets into. -/
structure Writing where
  session : H3Session
  out : Octets

namespace H3Session

/-- Has the session take a step, and writes nothing. -/
def silently {α : Type} (m : Step α) : Act Writing Error α := fun w =>
  ((m.run w.session).1, { w with session := (m.run w.session).2 })

/-- Has the session take a step, and writes what it answers. -/
def writing (m : Step Octets) : Act Writing Error Unit := do
  let octets ← silently m
  Act.modify fun w => { w with out := w.out ++ octets }

/-- Notes what a message that was framed makes of its stream: whether the stream ends with it. -/
def conclude (id : ℕ) (m : Message) : Step Bool := do
  entry id
  modifyStream id fun state => if m.isRequest then { state with method := m.method } else state
  let state ← stream id
  let tunneling := m.tunneling state.method
  modifyStream id fun state => { state with finished := state.finished || !tunneling }
  return !tunneling

/-- Frames a message into a buffer, part by part: whether the stream ends with it. -/
def frameMessageInto (world : World) (id : ℕ) (m : Message) : Act Writing Error Bool := do
  let s ← silently Act.get
  let state := s.streams.lookup id
  let m ← silently (Act.ofExcept (m.compress world (if m.isResponse then state.bind (·.accepted) else none)))
  let framed := !m.bodyless (state.bind (·.method))
  let fields ← silently (Act.ofExcept (Fields.write m))
  writing (writeBlock id fields)
  writing (Act.ofExcept (writeBody (m.body.filter fun _ => framed)))
  writing (writeTrailers id (m.trailers.filter fun _ => framed))
  silently (conclude id m)

/-- Encodes a message into a buffer, which is rolled back to where it started if framing fails. -/
def encodeMessageInto (world : World) (id : ℕ) (m : Message) : Act Writing Error Bool := fun w =>
  match (frameMessageInto world id m).run w with
  | (.ok fin, w') => (.ok fin, w')
  | (.error error, w') => (.error error, { w' with out := w'.out.take w.out.length })

variable {world : World} {id : ℕ} {m m' : Message} {s s' : H3Session} {w w' : Writing} {error : Error}

/-! ## Where framing fails -/

/-- The coding that the exchange on a stream permits a message. -/
def permitted (s : H3Session) (id : ℕ) (m : Message) : Option Compression :=
  if m.isResponse then (s.streams.lookup id).bind (·.accepted) else none

/-- Whether a message is framed with its body and its trailers. -/
def whole (s : H3Session) (id : ℕ) (m : Message) : Bool := !m.bodyless ((s.streams.lookup id).bind (·.method))

/-- The session once a field section is encoded. -/
def encoded (s : H3Session) (id : ℕ) (fields : List HeaderField) : H3Session :=
  { s with encoder := (s.encoder.encode id fields).1 }

theorem run_silently {α : Type} (step : Step α) (w : Writing) :
    (silently step).run w = ((step.run w.session).1, { w with session := (step.run w.session).2 }) := rfl

theorem run_silently_ok {α : Type} (a : α) (w : Writing) : (silently (Act.ofExcept (.ok a))).run w = (.ok a, w) := rfl

theorem run_writeBlock (id : ℕ) (fields : List HeaderField) (s : H3Session) :
    (writeBlock id fields).run s = (.ok (Frame.write .headers (s.encoder.encode id fields).2), s.encoded id fields) := rfl

theorem run_writing_ok {step : Step Octets} {octets : Octets} (h : step.run w.session = (.ok octets, s')) :
    (writing step).run w = (.ok (), ⟨s', w.out ++ octets⟩) := by
  rw [writing, Act.run_bind, run_silently, h]
  rfl

theorem run_writing_error {step : Step Octets} (h : step.run w.session = (.error error, s')) :
    (writing step).run w = (.error error, ⟨s', w.out⟩) := by
  rw [writing, Act.run_bind, run_silently, h]

/-- Framing and framing into a buffer end the same way, and what was framed is behind what there was. -/
def Joined (world : World) (id : ℕ) (m : Message) (w : Writing) : Prop :=
  (∃ octets fin s', (frameMessage world id m).run w.session = (.ok (octets, fin), s') ∧
    (frameMessageInto world id m).run w = (.ok fin, ⟨s', w.out ++ octets⟩)) ∨
  ∃ error s' more, (frameMessage world id m).run w.session = (.error error, s') ∧
    (frameMessageInto world id m).run w = (.error error, ⟨s', w.out ++ more⟩)

theorem run_writeTrailers (id : ℕ) (trailers : Option Headers) (s : H3Session) :
    ∃ octets s', (writeTrailers id trailers).run s = (.ok octets, s') := by
  cases trailers with
  | none => exact ⟨_, _, rfl⟩
  | some trailers =>
    rw [writeTrailers]
    split_ifs
    · exact ⟨_, _, rfl⟩
    · exact ⟨_, _, rfl⟩

/-- A message that was framed is always noted, whatever is answered with it. -/
theorem run_conclude {α : Type} (id : ℕ) (m : Message) (s : H3Session) (answer : Bool → α) : ∃ fin s',
    (conclude id m).run s = (.ok fin, s') ∧
    (do
      entry id
      modifyStream id fun state => if m.isRequest then { state with method := m.method } else state
      let state ← stream id
      let tunneling := m.tunneling state.method
      modifyStream id fun state => { state with finished := state.finished || !tunneling }
      return answer !tunneling : Step α).run s = (.ok (answer fin), s') := by
  have hentry : (entry id).run s = (.ok (), ((entry id).run s).2) := rfl
  have hentered := slot_entry id s
  generalize ((entry id).run s).2 = s₁ at hentry hentered
  have hmodify : (modifyStream id fun state => if m.isRequest then { state with method := m.method } else state).run s₁ =
    (.ok (), ((modifyStream id fun state => if m.isRequest then { state with method := m.method } else state).run s₁).2) := rfl
  have hmodified := slot_modifyStream id (fun state => if m.isRequest then { state with method := m.method } else state) s₁
  rw [hentered] at hmodified
  generalize ((modifyStream id fun state => if m.isRequest then { state with method := m.method } else state).run s₁).2 = s₂
    at hmodify hmodified
  have hstream := run_stream (congrArg Slot.state hmodified)
  rw [conclude, Act.run_bind_ok hentry, Act.run_bind_ok hentry, Act.run_bind_ok hmodify, Act.run_bind_ok hmodify,
    Act.run_bind_ok hstream, Act.run_bind_ok hstream]
  exact ⟨_, _, rfl, rfl⟩

theorem joined (world : World) (id : ℕ) (m : Message) (w : Writing) : Joined world id m w := by
  have hget : (silently (Act.get : Step H3Session)).run w = (.ok w.session, w) := rfl
  rw [Joined, frameMessage, frameMessageInto, Act.run_bind_ok (Act.run_get w.session), Act.run_bind_ok hget]
  dsimp only
  cases m.compress world (if m.isResponse then (w.session.streams.lookup id).bind (·.accepted) else none) with
  | error error => exact .inr ⟨error, w.session, [], rfl, by rw [List.append_nil]; rfl⟩
  | ok m' =>
    rw [Act.run_bind_ok (Act.run_ofExcept (.ok m') w.session), Act.run_bind_ok (run_silently_ok m' w)]
    cases Fields.write m' with
    | error error => exact .inr ⟨error, w.session, [], rfl, by rw [List.append_nil]; rfl⟩
    | ok fields =>
      rw [Act.run_bind_ok (Act.run_ofExcept (.ok fields) w.session), Act.run_bind_ok (run_silently_ok fields w),
        Act.run_bind_ok (run_writeBlock id fields w.session), Act.run_bind_ok (run_writing_ok (run_writeBlock id fields w.session))]
      generalize Frame.write .headers (w.session.encoder.encode id fields).2 = head
      generalize w.session.encoded id fields = s₁
      cases hbody : writeBody (m'.body.filter fun _ => !m'.bodyless ((w.session.streams.lookup id).bind (·.method))) with
      | error error => exact .inr ⟨error, s₁, head, rfl, rfl⟩
      | ok body =>
        rw [Act.run_bind_ok (Act.run_ofExcept (.ok body) s₁), Act.run_bind_ok (run_writing_ok (Act.run_ofExcept (.ok body) s₁))]
        obtain ⟨trailers, s₂, htrailers⟩ :=
          run_writeTrailers id (m'.trailers.filter fun _ => !m'.bodyless ((w.session.streams.lookup id).bind (·.method))) s₁
        rw [Act.run_bind_ok htrailers, Act.run_bind_ok (run_writing_ok htrailers)]
        obtain ⟨fin, s₃, hconclude, hframed⟩ := run_conclude id m' s₂ fun fin => (head ++ body ++ trailers, fin)
        refine .inl ⟨head ++ body ++ trailers, fin, s₃, hframed, ?_⟩
        rw [run_silently, hconclude, List.append_assoc, List.append_assoc]
        simp only [List.append_assoc]

theorem encodeMessageInto_eq (world : World) (id : ℕ) (m : Message) (w : Writing) :
    (encodeMessageInto world id m).run w = match (frameMessage world id m).run w.session with
      | (.ok (octets, fin), s) => (.ok fin, ⟨s, w.out ++ octets⟩)
      | (.error error, s) => (.error error, ⟨s, w.out⟩) := by
  have hrun : (encodeMessageInto world id m).run w = match (frameMessageInto world id m).run w with
      | (.ok fin, w') => (.ok fin, w')
      | (.error error, w') => (.error error, { w' with out := w'.out.take w.out.length }) := rfl
  rcases joined world id m w with ⟨octets, fin, s', hframe, hinto⟩ | ⟨error, s', more, hframe, hinto⟩
  · rw [hrun, hframe, hinto]
  · rw [hrun, hframe, hinto]
    dsimp only
    rw [List.take_left]

/-! ## Files -/

/-- A message with a file for a body is refused where its body is to be coded, and otherwise left as it is. -/
def Uncoded (world : World) (m : Message) (accepted : Option Compression) : Prop :=
  (m.compression.bind fun compression => if compression = .auto then accepted else some compression) = none ∨
    m.compressed world.toCodecs = true ∨ m.codable = false

theorem compress_file {path : Octets} (hfile : m.body = some (.file path)) (accepted : Option Compression) :
    (Uncoded world m accepted → m.compress world accepted = .ok { m with compression := none }) ∧
    (¬ Uncoded world m accepted → ∃ error, m.compress world accepted = .error error) := by
  have hempty : (m.body.map (·.isEmpty)).getD true = false := by
    rw [hfile]
    rfl
  have hinline : m.body.bind (·.inline) = none := by
    rw [hfile]
    rfl
  constructor
  · rintro (hsettled | hcompressed | hcodable)
    · rw [Message.compress]
      cases hmark : m.compression with
      | none =>
        dsimp only
        rw [← hmark]
      | some compression =>
        rw [hmark, Option.bind_some] at hsettled
        dsimp only
        rw [hsettled]
    · exact Message.compress_refused (.inl hcompressed)
    · exact Message.compress_refused (.inr (.inl hcodable))
  · intro hcoded
    rw [Uncoded, not_or, not_or] at hcoded
    obtain ⟨hsettled, hcompressed, hcodable⟩ := hcoded
    obtain ⟨coding, hcoding⟩ := Option.ne_none_iff_exists'.1 hsettled
    obtain ⟨compression, hmark, hcoding⟩ := Option.bind_eq_some_iff.1 hcoding
    have hnot : ¬ (m.compressed world.toCodecs || !m.codable || (m.body.map (·.isEmpty)).getD true) = true := by
      rw [hempty, Bool.or_false, Bool.or_eq_true, not_or, Bool.not_eq_true']
      exact ⟨hcompressed, hcodable⟩
    rw [Message.compress, hmark]
    dsimp only
    rw [hcoding]
    dsimp only
    rw [if_neg hnot, hinline]
    exact ⟨_, rfl⟩

/-- The session leaves a section in flight of a message it does not frame. -/
structure LeavesSection (world : World) (s : H3Session) (id : ℕ) (m : Message) : Prop where
  /-- The body is a file that would be framed as it is. -/
  file : ∃ path, m.body = some (.file path)
  uncoded : Uncoded world m (s.permitted id m)
  whole : s.whole id m = true
  /-- The field section may be written, and names an entry of the dynamic table. -/
  named : ∃ fields, Fields.write m = .ok fields ∧ s.encoder.Names fields

theorem frameMessage_file (world : World) {path : Octets} {fields : List HeaderField} (hfile : m.body = some (.file path))
    (huncoded : Uncoded world m (s.permitted id m)) (hwhole : s.whole id m = true) (hfields : Fields.write m = .ok fields) :
    ∃ error, (frameMessage world id m).run s = (.error error, s.encoded id fields) := by
  obtain ⟨m', hm'⟩ : ∃ m' : Message, m' = { m with compression := none } := ⟨_, rfl⟩
  have hcompress : m.compress world (if m.isResponse then (s.streams.lookup id).bind (·.accepted) else none) = .ok m' :=
    hm' ▸ (compress_file hfile (s.permitted id m)).1 huncoded
  have hwrite : Fields.write m' = .ok fields := by rwa [hm']
  have hframed : (m'.body.filter fun _ => !m'.bodyless ((s.streams.lookup id).bind (·.method))) = some (.file path) := by
    rw [hm']
    change m.body.filter (fun _ => s.whole id m) = _
    rw [hfile, hwhole]
    rfl
  rw [frameMessage, Act.run_bind_ok (Act.run_get s)]
  dsimp only
  rw [hcompress, Act.run_bind_ok (Act.run_ofExcept (.ok m') s), hwrite, Act.run_bind_ok (Act.run_ofExcept (.ok fields) s),
    Act.run_bind_ok (run_writeBlock id fields s), hframed]
  exact ⟨_, rfl⟩

/-- Only a file is no body to write. -/
theorem file_of_writeBody {body : Option Body} (h : writeBody body = .error error) : ∃ path, body = some (.file path) := by
  rcases body with - | body
  · cases h
  · cases body with
    | data octets => cases h
    | text text => cases h
    | file path => exact ⟨path, rfl⟩

/-- Framing that fails leaves the session as it was, but for the field section in front of a file. -/
theorem frameMessage_error (h : (frameMessage world id m).run s = (.error error, s')) : s' = s ∨
    (∃ path, m.body = some (.file path)) ∧ Uncoded world m (s.permitted id m) ∧ s.whole id m = true ∧
      ∃ fields, Fields.write m = .ok fields ∧ s' = s.encoded id fields := by
  rw [frameMessage, Act.run_bind_ok (Act.run_get s)] at h
  dsimp only at h
  cases hcompress : m.compress world (if m.isResponse then (s.streams.lookup id).bind (·.accepted) else none) with
  | error error =>
    rw [hcompress] at h
    cases h
    exact .inl rfl
  | ok m' =>
    rw [hcompress, Act.run_bind_ok (Act.run_ofExcept (.ok m') s)] at h
    cases hfields : Fields.write m' with
    | error error =>
      rw [hfields] at h
      cases h
      exact .inl rfl
    | ok fields =>
      rw [hfields, Act.run_bind_ok (Act.run_ofExcept (.ok fields) s), Act.run_bind_ok (run_writeBlock id fields s)] at h
      cases hbody : writeBody (m'.body.filter fun _ => !m'.bodyless ((s.streams.lookup id).bind (·.method))) with
      | ok body =>
        -- Nothing after the body fails.
        rw [hbody, Act.run_bind_ok (Act.run_ofExcept (.ok body) (s.encoded id fields))] at h
        obtain ⟨trailers, s₂, htrailers⟩ := run_writeTrailers id
          (m'.trailers.filter fun _ => !m'.bodyless ((s.streams.lookup id).bind (·.method))) (s.encoded id fields)
        obtain ⟨fin, s₃, -, hframed⟩ := run_conclude id m' s₂
          fun fin => (Frame.write .headers (s.encoder.encode id fields).2 ++ body ++ trailers, fin)
        rw [Act.run_bind_ok htrailers, hframed] at h
        cases h
      | error error =>
        obtain ⟨path, hpath⟩ := file_of_writeBody hbody
        obtain ⟨hfile', hframed⟩ := Option.filter_eq_some_iff.1 hpath
        rw [hbody] at h
        cases h
        rcases Message.compress_cases hcompress with rfl | ⟨coding, body, encoded, -, -, -, rfl⟩
        · have hfile : m.body = some (.file path) := hfile'
          refine .inr ⟨⟨path, hfile⟩, ?_, hframed, fields, hfields, rfl⟩
          by_contra hcoded
          obtain ⟨refusal, hrefusal⟩ := (compress_file hfile (s.permitted id m)).2 hcoded
          rw [permitted, hcompress] at hrefusal
          cases hrefusal
        · cases hfile'

/-- An encoding that failed is undone: what was written is taken off, no section is in flight that was not, and the
    streams are as they were. -/
structure Undone (w w' : Writing) : Prop where
  out : w'.out = w.out
  sections : w'.session.encoder.sections = w.session.encoder.sections
  streams : w'.session.streams = w.session.streams

theorem encodeMessageInto_error (h : (encodeMessageInto world id m).run w = (.error error, w')) :
    w'.out = w.out ∧ (frameMessage world id m).run w.session = (.error error, w'.session) := by
  rw [encodeMessageInto_eq] at h
  split at h
  · cases h
  · next hframe =>
    cases h
    exact ⟨rfl, hframe⟩

/-- The streams are as they were in any case. -/
theorem streams_of_frameMessage_error (h : (frameMessage world id m).run s = (.error error, s')) : s'.streams = s.streams := by
  rcases frameMessage_error h with rfl | ⟨-, -, -, fields, -, rfl⟩
  · rfl
  · rfl

/-- What failed is undone but where a section stays in flight. -/
theorem failed_encoding_iff (h : (encodeMessageInto world id m).run w = (.error error, w')) :
    Undone w w' ↔ ¬ LeavesSection world w.session id m := by
  obtain ⟨hout, hframe⟩ := encodeMessageInto_error h
  constructor
  · intro hundone hleaves
    obtain ⟨path, hfile⟩ := hleaves.file
    obtain ⟨fields, hfields, hnames⟩ := hleaves.named
    obtain ⟨refusal, hrun⟩ := frameMessage_file world hfile hleaves.uncoded hleaves.whole hfields
    rw [hframe] at hrun
    have hsections := hundone.sections
    rw [(Prod.mk.inj hrun).2, encoded, Qpack.Encoder.sections_encode] at hsections
    exact hsections hnames
  · intro hspares
    refine ⟨hout, ?_, streams_of_frameMessage_error hframe⟩
    rcases frameMessage_error hframe with hsame | ⟨hfile, huncoded, hwhole, fields, hfields, hleft⟩
    · rw [hsame]
    · rw [hleft, encoded, Qpack.Encoder.sections_encode]
      exact fun hnames => hspares ⟨hfile, huncoded, hwhole, fields, hfields, hnames⟩

end H3Session

/-! ## What a send leaves -/

namespace H3Worker

variable {world : World} {id : ℕ} {m : Message} {w w' : H3Worker} {error : Error}

/-- Makes the entries that a message is framed into, and marks its stream. -/
def readying (m : Message) : Step ℕ := do
  let id ← streamOf m
  onSession (H3Session.entry id)
  onSession (H3Session.modifyStream id fun state => { state with responded := true })
  claimOutbound id
  return id

/-- The worker has the entries and the streams it had. -/
structure AsBefore (w w' : H3Worker) : Prop where
  outbound : ∀ other, w'.outbound.lookup other = w.outbound.lookup other
  outboundBytes : w'.outboundBytes = w.outboundBytes
  streams : ∀ other, w'.session.streams.lookup other = w.session.streams.lookup other

/-- What a send would make is there already: an entry to put octets behind, and the stream, marked as answered. -/
structure Readied (w : H3Worker) (m : Message) : Prop where
  outbound : (w.outbound.lookup (m.streamId.getD w.session.nextStreamId)).isSome = true
  stream : ∃ state, w.session.streams.lookup (m.streamId.getD w.session.nextStreamId) = some state ∧ state.responded = true

/-- What is kept of a stream that is sent on. -/
def marked (streams : StreamMap H3.StreamState) (id : ℕ) : H3.StreamState :=
  { (streams.lookup id).getD .new with responded := true }

theorem lookup_entry (id : ℕ) (s : H3Session) (other : ℕ) : ((H3Session.entry id).run s).2.streams.lookup other =
    if other = id then some ((s.streams.lookup id).getD .new) else s.streams.lookup other := by
  simp only [H3Session.entry, Act.run_modify]
  split_ifs with hsome hother hother
  · obtain ⟨state, hstate⟩ := Option.isSome_iff_exists.1 hsome
    rw [hother, hstate]
    rfl
  · rfl
  · rw [Option.not_isSome_iff_eq_none] at hsome
    rw [hother, hsome]
    exact AList.lookup_insert _
  · exact AList.lookup_insert_ne hother

/-- The stream is there once it is marked, and no other is another. -/
theorem lookup_marked (id : ℕ) (s : H3Session) (other : ℕ) :
    ((H3Session.modifyStream id fun state => { state with responded := true }).run ((H3Session.entry id).run s).2).2.streams.lookup other =
      if other = id then some (marked s.streams id) else s.streams.lookup other := by
  rw [H3Session.run_modifyStream, StreamMap.lookup_modify, lookup_entry]
  split_ifs
  · rfl
  · rfl

/-- What readying a message leaves. -/
structure Makes (w w₁ : H3Worker) (id : ℕ) : Prop where
  outboundBytes : w₁.outboundBytes = w.outboundBytes
  outbound : ∀ other, w₁.outbound.lookup other = if other = id then some (w.waiting id) else w.outbound.lookup other
  streams : ∀ other, w₁.session.streams.lookup other =
    if other = id then some (marked w.session.streams id) else w.session.streams.lookup other

theorem makes_claimed (id : ℕ) (w : H3Worker) (s : H3Session) (hs : ∀ other, s.streams.lookup other =
    if other = id then some (marked w.session.streams id) else w.session.streams.lookup other) :
    Makes w ((claimOutbound id).run { w with session := s }).2 id := by
  simp only [claimOutbound, Act.run_modify]
  split_ifs with hsome
  · refine ⟨rfl, fun other => ?_, hs⟩
    obtain ⟨entry, hentry⟩ := Option.isSome_iff_exists.1 hsome
    split_ifs with hother
    · rw [waiting, hother, hentry]
      rfl
    · rfl
  · refine ⟨rfl, fun other => ?_, hs⟩
    rw [Option.not_isSome_iff_eq_none] at hsome
    dsimp only at hsome ⊢
    split_ifs with hother
    · rw [waiting, hother, hsome]
      exact AList.lookup_insert _
    · exact AList.lookup_insert_ne hother

/-- The stream of a message is opened where it names none. -/
theorem run_streamOf (m : Message) (w : H3Worker) : ∃ s, (streamOf m).run w =
      (.ok (m.streamId.getD w.session.nextStreamId), { w with session := s }) ∧
    ∀ other, s.streams.lookup other = w.session.streams.lookup other ∨
      other = m.streamId.getD w.session.nextStreamId ∧
        s.streams.lookup other = some ((w.session.streams.lookup other).getD .new) := by
  rw [streamOf]
  cases m.streamId with
  | some id => exact ⟨w.session, rfl, fun _ => .inl rfl⟩
  | none =>
    refine ⟨((H3Session.entry w.session.nextStreamId).run
      { w.session with nextStreamId := w.session.nextStreamId + QUICStreamID.STEP }).2, rfl, fun other => ?_⟩
    rw [lookup_entry]
    split_ifs with hother
    · rw [hother]
      exact .inr ⟨rfl, rfl⟩
    · exact .inl rfl

theorem run_readying (m : Message) (w : H3Worker) : ∃ w₁,
    (readying m).run w = (.ok (m.streamId.getD w.session.nextStreamId), w₁) ∧
      Makes w w₁ (m.streamId.getD w.session.nextStreamId) := by
  obtain ⟨s, hopened, hstreams⟩ := run_streamOf m w
  generalize m.streamId.getD w.session.nextStreamId = id at hopened hstreams
  refine ⟨_, ?_, makes_claimed id w
    ((H3Session.modifyStream id fun state => { state with responded := true }).run ((H3Session.entry id).run s).2).2 fun other => ?_⟩
  · rw [readying, Act.run_bind_ok hopened]
    rfl
  · have hmarked : marked s.streams id = marked w.session.streams id := by
      rw [marked, marked]
      rcases hstreams id with hid | ⟨-, hid⟩
      · rw [hid]
      · rw [hid]
        rfl
    rw [lookup_marked, hmarked]
    split_ifs with hother
    · rfl
    · exact (hstreams other).resolve_right fun hid => hother hid.1

/-- A send whose message is not framed leaves what readying it made. -/
theorem sendMessage_error {w₁ : H3Worker} {s' : H3Session} (h : (readying m).run w = (.ok id, w₁))
    (hframe : (H3Session.frameMessage world id m).run w₁.session = (.error error, s')) :
    ∃ passed, (sendMessage world m).run w = (.error error, { w₁ with session := s', passed := passed }) := by
  obtain ⟨id', w₂, hopened, h⟩ := Act.of_run_bind_ok h
  obtain ⟨_, w₃, hentry, h⟩ := Act.of_run_bind_ok h
  obtain ⟨_, w₄, hmarked, h⟩ := Act.of_run_bind_ok h
  obtain ⟨_, w₅, hclaim, h⟩ := Act.of_run_bind_ok h
  cases h
  have hattempt : (attempt (onSession (H3Session.frameMessage world id m))).run w₁ =
      (.ok (.error error), { w₁ with session := s' }) := by
    change (Except.ok ((H3Session.frameMessage world id m).run w₁.session).1,
      ({ w₁ with session := ((H3Session.frameMessage world id m).run w₁.session).2 } : H3Worker)) = _
    rw [hframe]
  have hinto : (frameInto world id m).run w₄ = (.error error, { w₁ with
      session := s', passed := .unframed id (w₄.outbound.lookup id).isSome :: w₁.passed }) := by
    rw [frameInto, Act.run_bind_ok (Act.run_get w₄), Act.run_bind_ok hclaim, Act.run_bind_ok hattempt]
    rfl
  refine ⟨.unframed id (w₄.outbound.lookup id).isSome :: w₁.passed, ?_⟩
  rw [sendMessage, Act.run_bind_ok hopened, Act.run_bind_ok hentry, Act.run_bind_ok hmarked, Act.run_bind_error hinto]

/-- A send whose message is not framed leaves the worker as it was where all it makes was there. -/
theorem failed_send_iff (world : World) (m : Message) (w : H3Worker) : ∃ w₁,
    (readying m).run w = (.ok (m.streamId.getD w.session.nextStreamId), w₁) ∧
    ∀ error left, (H3Session.encodeMessageInto world (m.streamId.getD w.session.nextStreamId) m).run
        ⟨w₁.session, (w₁.waiting (m.streamId.getD w.session.nextStreamId)).1⟩ = (.error error, left) →
      ∃ w', (execute world (.send m)).run w = (.error error, w') ∧ (AsBefore w w' ↔ Readied w m) := by
  obtain ⟨w₁, hready, hmakes⟩ := run_readying m w
  refine ⟨w₁, hready, fun error left hencode => ?_⟩
  obtain ⟨-, hframe⟩ := H3Session.encodeMessageInto_error hencode
  obtain ⟨passed, hsend⟩ := sendMessage_error hready hframe
  refine ⟨_, hsend, ?_⟩
  have hstreams : left.session.streams = w₁.session.streams := H3Session.streams_of_frameMessage_error hframe
  constructor
  · intro hbefore
    constructor
    · have houtbound := hbefore.outbound (m.streamId.getD w.session.nextStreamId)
      dsimp only at houtbound
      rw [hmakes.outbound, if_pos rfl] at houtbound
      rw [← houtbound]
      rfl
    · have hstream := hbefore.streams (m.streamId.getD w.session.nextStreamId)
      dsimp only at hstream
      rw [hstreams, hmakes.streams, if_pos rfl] at hstream
      exact ⟨_, hstream.symm, rfl⟩
  · rintro ⟨houtbound, state, hstate, hresponded⟩
    refine ⟨fun other => ?_, hmakes.outboundBytes, fun other => ?_⟩
    · dsimp only
      rw [hmakes.outbound]
      split_ifs with hother
      · obtain ⟨entry, hentry⟩ := Option.isSome_iff_exists.1 houtbound
        rw [hother, waiting, hentry]
        rfl
      · rfl
    · dsimp only
      rw [hstreams, hmakes.streams]
      split_ifs with hother
      · have hsame : marked w.session.streams (m.streamId.getD w.session.nextStreamId) = state := by
          rw [marked, hstate, Option.getD_some, ← hresponded]
        rw [hother, hsame, hstate]
      · rfl

/-- What an encoding that fails has done is undone exactly where it leaves no section in flight, and what a send has done
    whose message is not framed, exactly where it made nothing. -/
theorem encoding_undone_iff (world : World) :
    (∀ (id : ℕ) (m : Message) (w w' : Writing) (error : Error),
      (H3Session.encodeMessageInto world id m).run w = (.error error, w') →
        (H3Session.Undone w w' ↔ ¬ H3Session.LeavesSection world w.session id m)) ∧
    ∀ (m : Message) (w : H3Worker), ∃ w₁,
      (readying m).run w = (.ok (m.streamId.getD w.session.nextStreamId), w₁) ∧
      ∀ error left, (H3Session.encodeMessageInto world (m.streamId.getD w.session.nextStreamId) m).run
          ⟨w₁.session, (w₁.waiting (m.streamId.getD w.session.nextStreamId)).1⟩ = (.error error, left) →
        ∃ w', (execute world (.send m)).run w = (.error error, w') ∧ (AsBefore w w' ↔ Readied w m) :=
  ⟨fun _ _ _ _ _ h => H3Session.failed_encoding_iff h, failed_send_iff world⟩

/-- A response with a field of its own. -/
def labelled (id : ℕ) : Message := { Message.response 200 .v3_0 with
  headers := some ⟨[⟨.lit "x", .lit "y"⟩], Headers.presence [⟨.lit "x", .lit "y"⟩], rfl⟩, streamId := some id }

/-- The same with a file behind it. -/
def filed (id : ℕ) : Message := { labelled id with body := some (.file [0x66]) }

/-- A server that has answered a request, and whose peer has the field it answered with. Another request is in. -/
def acquainted : H3Worker := ((deeds .bare).played
  [.arrive 2 [0x00, 0x04, 0x03, 0x01, 0x40, 0x64] false, .arrive 0 asking true, .act (.send (labelled 0)),
    .arrive 6 [0x03, 0x01] false, .arrive 4 asking true]
  (new (.new .origin .default) ⟨[], []⟩ ⟨8, false⟩)).2

/-- Where the second request is answered, with nothing written. -/
def blank : Writing := ⟨acquainted.session, []⟩

/-- The encoding of the file for the second request. -/
def unframed : Except Error Bool × Writing :=
  (H3Session.encodeMessageInto .bare 4 (filed 4)).run ⟨acquainted.session, []⟩

/-- The worker that was asked to send it. -/
def burdened : Except Error Unit × H3Worker := (execute .bare (.send (filed 4))).run acquainted

/-- The file is refused behind its field section, which stays in flight; the stream is marked, and there is an entry for it. -/
theorem unframed_leaves :
    (unframed.1.isOk = false ∧ blank.session.encoder.sections = [] ∧
      unframed.2.session.encoder.sections.map (·.streamId) = [4]) ∧
    burdened.1.isOk = false ∧ acquainted.outbound.lookup 4 = none ∧ burdened.2.outbound.lookup 4 = some ([], false) := by
  decide +kernel

theorem not_undone_unframed : ¬ H3Session.Undone ⟨acquainted.session, []⟩ unframed.2 := by
  obtain ⟨⟨-, hnone, hleft⟩, -⟩ := unframed_leaves
  have hblank : ¬ H3Session.Undone blank unframed.2 := fun hundone => by
    rw [hundone.sections, hnone] at hleft
    cases hleft
  exact hblank

theorem encoding_undone_iff_filed : H3Session.LeavesSection .bare acquainted.session 4 (filed 4) := by
  have herror := unframed_leaves.1.1
  have hiff (s : H3Session) (w' : Writing) (error : Error)
      (hrun : (H3Session.encodeMessageInto .bare 4 (filed 4)).run ⟨s, []⟩ = (.error error, w')) :
      H3Session.Undone ⟨s, []⟩ w' ↔ ¬ H3Session.LeavesSection .bare s 4 (filed 4) :=
    (encoding_undone_iff .bare).1 4 (filed 4) ⟨s, []⟩ w' error hrun
  rcases hrun : unframed with ⟨error | fin, left⟩
  · by_contra hspares
    have hundone := (hiff acquainted.session left error hrun).2 hspares
    rw [show left = unframed.2 by rw [hrun]] at hundone
    exact not_undone_unframed hundone
  · rw [hrun] at herror
    cases herror

/-- Neither the encoding of the file nor the command to send it is undone. -/
theorem file_leaves_section :
    (unframed.1.isOk = false ∧ ¬ H3Session.Undone ⟨acquainted.session, []⟩ unframed.2) ∧
    burdened.1.isOk = false ∧ ¬ AsBefore acquainted burdened.2 := by
  obtain ⟨⟨hunframed, -⟩, hburdened, hnone, hmade⟩ := unframed_leaves
  refine ⟨⟨hunframed, not_undone_unframed⟩, hburdened, fun hbefore => ?_⟩
  rw [hbefore.outbound 4, hnone] at hmade
  cases hmade

end H3Worker

end Soyokaze

import Soyokaze.Helpers.QpackSection

/-!
# QPACK: the two ends of a connection

An encoder and the peer's decoder, joined by the encoder stream, the decoder
stream and the streams the sections are sent on. Each carries its octets in
order, and nothing is said about the order between them, or about how the
octets of the two instruction streams are cut.

* `Link.Step.inv`: every step keeps what the two ends hold about each other:
  what is on its way leads the decoder's table to the encoder's, the encoder
  knows of no insertion the decoder has not made, and no section still to be
  read names an entry that was evicted;
* `Link.next_decodes_of_reached`: in every run, whatever section of a stream comes
  next decodes there and then, to the fields that were encoded.
-/

namespace Soyokaze.Qpack

open Framing

/-! ## Instructions on their way -/

/-- The instructions lead a decoder's table from one state to another. -/
inductive Replays (maxCapacity : ℕ) : DynamicTable → List EncoderInstruction → DynamicTable → Prop
  | nil (t : DynamicTable) : Replays maxCapacity t [] t
  | capacity {t t' : DynamicTable} {c : ℕ} {is : List EncoderInstruction} (hc : c ≤ maxCapacity)
      (his : Replays maxCapacity (t.setCapacity c) is t') :
      Replays maxCapacity t (.setDynamicTableCapacity c :: is) t'
  | insert {t t' : DynamicTable} {i : EncoderInstruction} {is : List EncoderInstruction}
      {field : HeaderField} (h : t.fits field = true) (hi : Decoder.inserted t i = .ok (some field))
      (his : Replays maxCapacity (t.insert field h) is t') : Replays maxCapacity t (i :: is) t'

theorem InsertsAll.replays {maxCapacity : ℕ} {t t' : DynamicTable} {is : List EncoderInstruction}
    (h : InsertsAll t is t') : Replays maxCapacity t is t' := by
  induction h with
  | nil => exact .nil _
  | cons h hi _ ih => exact .insert h hi ih

theorem Replays.append {maxCapacity : ℕ} {t t' t'' : DynamicTable} {is js : List EncoderInstruction}
    (h : Replays maxCapacity t is t') (h' : Replays maxCapacity t' js t'') :
    Replays maxCapacity t (is ++ js) t'' := by
  induction h with
  | nil => exact h'
  | capacity hc _ ih => exact .capacity hc (ih h')
  | insert h hi _ ih => exact .insert h hi (ih h')

theorem Replays.follows {maxCapacity : ℕ} {t t' : DynamicTable} {is : List EncoderInstruction}
    (h : Replays maxCapacity t is t') : t.Follows t' := by
  induction h with
  | nil t => exact .refl t
  | capacity _ _ ih => exact (DynamicTable.follows_setCapacity _ _).trans ih
  | insert h _ _ ih => exact (DynamicTable.follows_insert _ _ h).trans ih

/-- The answer a decoder gives for each insertion. -/
def increments (n : ℕ) : List DecoderInstruction := .replicate n (.insertCountIncrement 1)

/-- A decoder takes in the instructions that have arrived: its table goes as far
    as they lead, with one answer queued for each insertion. -/
theorem Replays.applyAll {d : Decoder} {t' : DynamicTable} {is js : List EncoderInstruction}
    (h : Replays d.maxCapacity d.dynamicTable (is ++ js) t') :
    ∃ t, Framing.applyAll Decoder.applyInstruction d is =
        (({ d with dynamicTable := t } : Decoder).queue
          (increments (t.insertedCount - d.dynamicTable.insertedCount)), none) ∧
      d.dynamicTable.insertedCount ≤ t.insertedCount ∧ Replays d.maxCapacity t js t' := by
  induction is generalizing d with
  | nil =>
    refine ⟨d.dynamicTable, ?_, le_rfl, h⟩
    simp [Framing.applyAll, Decoder.queue, increments]
  | cons i is ih =>
    rw [List.cons_append] at h
    cases h with
    | @capacity _ _ c _ hc his =>
      obtain ⟨t, ha, hle, hrest⟩ := ih (d := { d with dynamicTable := d.dynamicTable.setCapacity c }) his
      rw [DynamicTable.insertedCount_setCapacity] at ha hle
      refine ⟨t, ?_, hle, hrest⟩
      have hone : Decoder.applyInstruction d (.setDynamicTableCapacity c) =
          ({ d with dynamicTable := d.dynamicTable.setCapacity c }, none) := by
        simp [Decoder.applyInstruction, Decoder.onEncoderInstruction, Nat.not_lt.2 hc, Decoder.queue]
      rw [Framing.applyAll, hone]
      exact ha
    | @insert _ _ _ _ field hfit hi his =>
      obtain ⟨t, ha, hle, hrest⟩ := ih
        (d := ({ d with dynamicTable := d.dynamicTable.insert field hfit } : Decoder).queue (increments 1)) his
      have hcount := DynamicTable.insertedCount_insert d.dynamicTable field hfit
      simp only [Decoder.queue] at ha hle hrest
      rw [hcount] at hle
      refine ⟨t, ?_, by omega, hrest⟩
      have hone : Decoder.applyInstruction d i =
          (({ d with dynamicTable := d.dynamicTable.insert field hfit } : Decoder).queue (increments 1),
            none) := by
        have hne : ∀ c, i ≠ .setDynamicTableCapacity c := by
          rintro c rfl
          simp [Decoder.inserted] at hi
        rw [Decoder.applyInstruction, Decoder.onEncoderInstruction]
        · simp [hi, hfit, bind, Except.bind, increments]
        · exact hne
      rw [Framing.applyAll, hone]
      simp only [Decoder.queue]
      rw [ha, hcount]
      congr 2
      rw [List.append_assoc, ← List.flatMap_append, increments, increments, increments,
        List.replicate_append_replicate, show 1 + (t.insertedCount - (d.dynamicTable.insertedCount + 1)) =
          t.insertedCount - d.dynamicTable.insertedCount by omega]

/-- The octets that arrive take a decoder as far along the instructions as they go. -/
theorem Replays.onEncoderStream {d : Decoder} {t' : DynamicTable} {is : List EncoderInstruction}
    {bytes later : Octets} (h : Replays d.maxCapacity d.dynamicTable is t')
    (hw : d.streamRecv ++ bytes ++ later = is.flatMap (·.encode)) (hb : ∀ i ∈ is, i.Bounded) :
    ∃ t js recv, (d.onEncoderStream bytes).1 = ({ d with dynamicTable := t, streamRecv := recv } : Decoder).queue
        (increments (t.insertedCount - d.dynamicTable.insertedCount)) ∧
      d.dynamicTable.insertedCount ≤ t.insertedCount ∧ Replays d.maxCapacity t js t' ∧
      recv ++ later = js.flatMap (·.encode) ∧ ∀ i ∈ js, i.Bounded := by
  rw [Decoder.onEncoderStream]
  split_ifs
  · refine ⟨d.dynamicTable, is, d.streamRecv ++ bytes, ?_, le_rfl, h, hw, hb⟩
    simp [increments, Decoder.queue]
  · obtain ⟨done, js, left, rfl, hbuf, hleft, hlt⟩ := exists_arrived (·.encode) is (hw ▸ List.prefix_append _ _)
    obtain ⟨t, ha, hle, hrest⟩ := h.applyAll
    have hlen : done.length < (d.streamRecv ++ bytes).length + 1 := by
      rw [hbuf, List.length_append]
      have := length_le_flatMap (fun i => i.encode) EncoderInstruction.encode_ne_nil done
      omega
    have hdrain := drain_of_isPrefix (· == Error.incomplete) (e := .incomplete) (by decide) rfl
      (fun i hi => EncoderInstruction.spells (hb i hi)) hleft hlt hlen ha
    rw [← hbuf] at hdrain
    simp only [hdrain]
    refine ⟨t, js, left, rfl, hle, hrest, ?_, fun i hi => hb i (List.mem_append_right _ hi)⟩
    rw [hbuf, List.flatMap_append, List.append_assoc] at hw
    exact List.append_cancel_left hw

/-! ## Sections on their way -/

/-- What one stream carries: each block reads back from the table, and those that
    name an entry are the sections in flight, in order. -/
inductive Awaits (t : DynamicTable) (maxCapacity : ℕ) :
    List Section → List (Octets × List HeaderField) → Prop
  | nil : Awaits t maxCapacity [] []
  | untracked {s : Section} {block : Octets} {fields : List HeaderField} {ss : List Section}
      {sent : List (Octets × List HeaderField)} (h : Reads t maxCapacity s block fields)
      (hz : s.required = 0) (hs : Awaits t maxCapacity ss sent) :
      Awaits t maxCapacity ss ((block, fields) :: sent)
  | tracked {s : Section} {block : Octets} {fields : List HeaderField} {ss : List Section}
      {sent : List (Octets × List HeaderField)} (h : Reads t maxCapacity s block fields)
      (hpos : 0 < s.required) (hs : Awaits t maxCapacity ss sent) :
      Awaits t maxCapacity (s :: ss) ((block, fields) :: sent)

theorem Awaits.concat {t : DynamicTable} {maxCapacity : ℕ} {s : Section} {block : Octets}
    {fields : List HeaderField} {ss : List Section} {sent : List (Octets × List HeaderField)}
    (h : Awaits t maxCapacity ss sent) (hr : Reads t maxCapacity s block fields) :
    Awaits t maxCapacity (if 0 < s.required then ss ++ [s] else ss) (sent ++ [(block, fields)]) := by
  by_cases hpos : 0 < s.required
  · rw [if_pos hpos]
    induction h with
    | nil => exact .tracked hr hpos .nil
    | untracked h hz _ ih => exact .untracked h hz ih
    | tracked h hp _ ih => exact .tracked h hp ih
  · rw [if_neg hpos]
    induction h with
    | nil => exact .untracked hr (Nat.eq_zero_of_not_pos hpos) .nil
    | untracked h hz _ ih => exact .untracked h hz ih
    | tracked h hp _ ih => exact .tracked h hp ih

/-- A later table that still holds what the sections guard. -/
theorem Awaits.follows {t t' : DynamicTable} {maxCapacity : ℕ} {ss : List Section}
    {sent : List (Octets × List HeaderField)} (h : Awaits t maxCapacity ss sent) (ht : t.Follows t')
    (hg : ∀ s ∈ ss, t'.oldest ≤ s.floor) : Awaits t' maxCapacity ss sent := by
  induction h with
  | nil => exact .nil
  | untracked h hz _ ih =>
    exact .untracked (h.congr fun a _ hlt _ => absurd hlt (by omega)) hz (ih hg)
  | tracked h hpos _ ih =>
    obtain ⟨hg₁, hg⟩ := List.forall_mem_cons.1 hg
    exact .tracked (h.congr fun a hle _ hs =>
      ht.get a (hg₁.trans hle) (DynamicTable.isSome_get_iff.1 hs).2) hpos (ih hg)

/-! ## Answers on their way -/

/-- What an encoder will have made of the answers on their way to it: it knows of
    every insertion, and the sections of a stream are those still to be read. -/
structure Answers (e : Encoder) (answers : List DecoderInstruction) (inserted : ℕ)
    (sent : ℕ → List (Octets × List HeaderField)) : Prop where
  each : ∀ i ∈ answers, i = .insertCountIncrement 1 ∨
    ∃ streamId, i = .sectionAcknowledgment streamId ∧ streamId < 2 ^ 64
  known : e.knownReceivedCount + answers.count (.insertCountIncrement 1) = inserted
  acks : ∀ streamId, answers.count (.sectionAcknowledgment streamId) ≤
    (e.sections.filter (·.streamId == streamId)).length
  sections : ∀ streamId, Awaits e.dynamicTable e.maxCapacity
    ((e.sections.filter (·.streamId == streamId)).drop (answers.count (.sectionAcknowledgment streamId)))
    (sent streamId)

/-- Erasing the first of a kind leaves the rest of its kind. -/
theorem filter_eraseP {α : Type*} (p : α → Bool) (l : List α) :
    (l.eraseP p).filter p = (l.filter p).tail := by
  induction l with
  | nil => rfl
  | cons a l ih => by_cases h : p a = true <;> simp [h, ih]

/-- Erasing the first of a kind leaves the other kinds alone. -/
theorem filter_eraseP_of_disjoint {α : Type*} {p q : α → Bool} (hpq : ∀ a, p a = true → q a = false)
    (l : List α) : (l.eraseP p).filter q = l.filter q := by
  induction l with
  | nil => rfl
  | cons a l ih => by_cases h : p a = true <;> simp [h, hpq, ih, List.filter_cons]

/-- One answer arrives. -/
theorem Answers.step {e : Encoder} {i : DecoderInstruction} {answers : List DecoderInstruction}
    {inserted : ℕ} {sent : ℕ → List (Octets × List HeaderField)}
    (h : Answers e (i :: answers) inserted sent) (hg : e.Guarded) (hi : inserted ≤ MAX) :
    Answers (e.onDecoderInstruction i) answers inserted sent ∧ (e.onDecoderInstruction i).Guarded ∧
      e.onDecoderInstruction i = { e with
        sections := (e.onDecoderInstruction i).sections
        knownReceivedCount := (e.onDecoderInstruction i).knownReceivedCount } := by
  obtain ⟨hfirst, heach⟩ := List.forall_mem_cons.1 h.each
  rcases hfirst with rfl | ⟨streamId, rfl, -⟩
  · have hknown := h.known
    rw [List.count_cons_self] at hknown
    have hsat : saturatingAdd e.knownReceivedCount 1 = e.knownReceivedCount + 1 := min_eq_left (by omega)
    refine ⟨⟨heach, ?_, ?_, ?_⟩, ?_, rfl⟩
    · simp only [Encoder.onDecoderInstruction, hsat]
      omega
    · simpa [Encoder.onDecoderInstruction, List.count_cons] using h.acks
    · simpa [Encoder.onDecoderInstruction, List.count_cons] using h.sections
    · intro s hs
      obtain ⟨ho, hlt, hle⟩ := hg s hs
      refine ⟨ho, hlt, ?_⟩
      simp only [Encoder.onDecoderInstruction, hsat]
      omega
  · have hknown := h.known
    have hacks := h.acks
    have hsections := h.sections
    simp only [List.count_cons, beq_iff_eq, reduceCtorEq, if_false,
      DecoderInstruction.sectionAcknowledgment.injEq] at hknown hacks hsections
    -- The section acknowledged is the first of its stream, which is in flight.
    have hsome : (e.sections.find? (·.streamId == streamId)).isSome = true := by
      have := hacks streamId
      rw [if_pos rfl] at this
      obtain ⟨s, hs⟩ := List.exists_mem_of_length_pos (Nat.lt_of_lt_of_le (Nat.succ_pos _) this)
      rw [List.find?_isSome]
      exact ⟨s, List.mem_of_mem_filter hs, (List.mem_filter.1 hs).2⟩
    obtain ⟨s, hfind⟩ := Option.isSome_iff_exists.1 hsome
    have hmax : max e.knownReceivedCount s.required = e.knownReceivedCount :=
      max_eq_left (hg s (List.mem_of_find?_eq_some hfind)).2.2
    have he : e.onDecoderInstruction (.sectionAcknowledgment streamId) =
        { e with sections := e.sections.eraseP (·.streamId == streamId) } := by
      simp only [Encoder.onDecoderInstruction, hfind, hmax]
    rw [he]
    have hfilter : ∀ id, (e.sections.eraseP (·.streamId == streamId)).filter (·.streamId == id) =
        (e.sections.filter (·.streamId == id)).drop (if streamId = id then 1 else 0) := by
      intro id
      split_ifs with hid
      · subst hid
        rw [filter_eraseP, List.drop_one]
      · refine filter_eraseP_of_disjoint (fun s hs => ?_) _
        rw [beq_eq_false_iff_ne]
        exact fun h' => hid ((beq_iff_eq.1 hs).symm.trans h')
    refine ⟨⟨heach, hknown, fun id => ?_, fun id => ?_⟩, fun s hs => hg s (List.mem_of_mem_eraseP hs), rfl⟩
    · have := hacks id
      simp only [hfilter, List.length_drop]
      omega
    · have := hsections id
      simpa only [hfilter, List.drop_drop, Nat.add_comm] using this

/-- Answers arrive one after another. -/
theorem Answers.applyAll {e : Encoder} {done rest : List DecoderInstruction} {inserted : ℕ}
    {sent : ℕ → List (Octets × List HeaderField)} (h : Answers e (done ++ rest) inserted sent)
    (hg : e.Guarded) (hi : inserted ≤ MAX) :
    ∃ e', Framing.applyAll (ε := Error) (fun e i => (Encoder.onDecoderInstruction e i, none)) e done =
        (e', none) ∧ Answers e' rest inserted sent ∧ e'.Guarded ∧
      e' = { e with sections := e'.sections, knownReceivedCount := e'.knownReceivedCount } := by
  induction done generalizing e with
  | nil => exact ⟨e, rfl, h, hg, rfl⟩
  | cons i done ih =>
    obtain ⟨hone, hg, heq⟩ := Answers.step h hg hi
    obtain ⟨e', ha, hrest, hg', heq'⟩ := ih hone hg
    refine ⟨e', ha, hrest, hg', heq'.trans ?_⟩
    rw [heq]

theorem Answers.number_lt {e : Encoder} {answers : List DecoderInstruction} {inserted : ℕ}
    {sent : ℕ → List (Octets × List HeaderField)} (h : Answers e answers inserted sent) :
    ∀ i ∈ answers, i.number < 2 ^ 64 := by
  intro i hi
  rcases h.each i hi with rfl | ⟨streamId, rfl, hlt⟩
  · decide
  · exact hlt

/-- The next section of a stream is read: what remains is later on its way, and
    the acknowledgement it may be owed is on its way back. -/
theorem Answers.read {e : Encoder} {answers : List DecoderInstruction} {inserted streamId : ℕ}
    {sent : ℕ → List (Octets × List HeaderField)} {block : Octets} {fields : List HeaderField}
    {later : List (Octets × List HeaderField)} (h : Answers e answers inserted sent)
    (hs : sent streamId = (block, fields) :: later) (hid : streamId < 2 ^ 64) :
    ∃ s, Reads e.dynamicTable e.maxCapacity s block fields ∧ (s.required = 0 ∨ s ∈ e.sections) ∧
      Answers e (answers ++ (if 0 < s.required then some (.sectionAcknowledgment streamId) else none :
        Option DecoderInstruction).toList) inserted (Function.update sent streamId later) := by
  have hawaits := h.sections streamId
  rw [hs] at hawaits
  generalize hdrop : (e.sections.filter (·.streamId == streamId)).drop
    (answers.count (.sectionAcknowledgment streamId)) = waiting at hawaits
  cases hawaits with
  | @untracked s _ _ _ _ hr hz hrest =>
    refine ⟨s, hr, .inl hz, ?_⟩
    rw [if_neg (Nat.not_lt.2 hz.le), Option.toList_none, List.append_nil]
    refine ⟨h.each, h.known, h.acks, fun id => ?_⟩
    by_cases heq : id = streamId
    · subst heq
      rw [Function.update_self, hdrop]
      exact hrest
    · rw [Function.update_of_ne heq]
      exact h.sections id
  | @tracked s _ _ ss _ hr hpos hrest =>
    have hmem : s ∈ e.sections :=
      List.mem_of_mem_filter (List.mem_of_mem_drop (hdrop ▸ List.mem_cons_self))
    refine ⟨s, hr, .inr hmem, ?_⟩
    rw [if_pos hpos, Option.toList_some]
    have hcount : ∀ id, (answers ++ [DecoderInstruction.sectionAcknowledgment streamId]).count
        (.sectionAcknowledgment id) =
        answers.count (.sectionAcknowledgment id) + if streamId = id then 1 else 0 := by
      intro id
      rw [List.count_append, List.count_singleton]
      simp
    refine ⟨fun i hi => ?_, ?_, fun id => ?_, fun id => ?_⟩
    · rcases List.mem_append.1 hi with hi | hi
      · exact h.each i hi
      · exact .inr ⟨streamId, List.mem_singleton.1 hi, hid⟩
    · rw [List.count_append, List.count_singleton, if_neg (by simp), Nat.add_zero]
      exact h.known
    · rw [hcount]
      have := h.acks id
      split_ifs with heq
      · subst heq
        have hlen := congrArg List.length hdrop
        rw [List.length_drop, List.length_cons] at hlen
        omega
      · exact this
    · rw [hcount]
      split_ifs with heq
      · subst heq
        rw [Function.update_self, ← List.drop_drop, hdrop]
        exact hrest
      · rw [Function.update_of_ne (Ne.symm heq)]
        exact h.sections id

/-- The octets that arrive bring an encoder as many answers as are whole. -/
theorem Answers.onDecoderStream {e : Encoder} {answers : List DecoderInstruction} {inserted : ℕ}
    {sent : ℕ → List (Octets × List HeaderField)} {bytes later : Octets}
    (h : Answers e answers inserted sent) (hg : e.Guarded) (hi : inserted ≤ MAX)
    (hw : e.streamRecv ++ bytes ++ later = answers.flatMap (·.encode)) :
    ∃ rest, Answers (e.onDecoderStream bytes).1 rest inserted sent ∧ (e.onDecoderStream bytes).1.Guarded ∧
      (e.onDecoderStream bytes).1.streamRecv ++ later = rest.flatMap (·.encode) ∧
      (e.onDecoderStream bytes).1 = { e with
        sections := (e.onDecoderStream bytes).1.sections
        knownReceivedCount := (e.onDecoderStream bytes).1.knownReceivedCount
        streamRecv := (e.onDecoderStream bytes).1.streamRecv } := by
  rw [Encoder.onDecoderStream]
  split_ifs
  · exact ⟨answers, ⟨h.each, h.known, h.acks, h.sections⟩, hg, hw, rfl⟩
  · obtain ⟨done, rest, left, rfl, hbuf, hleft, hlt⟩ :=
      exists_arrived (·.encode) answers (hw ▸ List.prefix_append _ _)
    obtain ⟨e', ha, hrest, hg', heq⟩ := Answers.applyAll h hg hi
    have hlen : done.length < (e.streamRecv ++ bytes).length + 1 := by
      rw [hbuf, List.length_append]
      have := length_le_flatMap (fun i => i.encode) DecoderInstruction.encode_ne_nil done
      omega
    have hdrain := drain_of_isPrefix (· == Error.incomplete) (e := .incomplete) (by decide) rfl
      (fun i hi => DecoderInstruction.spells (h.number_lt i hi)) hleft hlt hlen ha
    rw [← hbuf] at hdrain
    simp only [hdrain]
    refine ⟨rest, ⟨hrest.each, hrest.known, hrest.acks, hrest.sections⟩, hg', ?_, ?_⟩
    · rw [hbuf, List.flatMap_append, List.append_assoc] at hw
      exact List.append_cancel_left hw
    · rw [heq]

/-! ## The link -/

/-- The sizes both ends are set up with. -/
structure Limits where
  maxCapacity : UInt64
  capacityLimit : UInt64
  maxOutstandingSections : UInt64
  maxDecodedSize : UInt64
  maxBlockedStreams : UInt64
  maxEncoderInstruction : UInt64
  maxDecoderInstruction : UInt64

/-- An encoder and the peer's decoder, what each instruction stream carries
    between them, and the sections each stream carries, with their fields. -/
structure Link where
  encoder : Encoder
  decoder : Decoder
  up : Octets
  down : Octets
  sent : ℕ → List (Octets × List HeaderField)

namespace Link

/-- Queues the instruction that came of a change of capacity. -/
def announce (change : Encoder × Option EncoderInstruction) : Encoder := change.1.queue change.2.toList

/-- The encoder once it has been given the decoder's maximum capacity. -/
def startEncoder (limits : Limits) : Encoder :=
  let e := (Encoder.new.setMaxOutstandingSections limits.maxOutstandingSections.toNat).setMaxInstructionSize
    limits.maxDecoderInstruction.toNat
  announce ((announce (e.setCapacityLimit limits.capacityLimit.toNat)).setMaxCapacity limits.maxCapacity.toNat)

/-- The decoder the peer set up. -/
def startDecoder (limits : Limits) : Decoder :=
  (((Decoder.new.setMaxCapacity limits.maxCapacity.toNat).setMaxDecodedSize
    limits.maxDecodedSize.toNat).setMaxInstructionSize limits.maxEncoderInstruction.toNat).setMaxBlockedStreams
      limits.maxBlockedStreams.toNat

/-- Both ends, with nothing between them. -/
def start (limits : Limits) : Link := ⟨startEncoder limits, startDecoder limits, [], [], fun _ => []⟩

/-- Decodes a block and queues the answer it calls for. -/
def receive (d : Decoder) (streamId : ℕ) (block : Octets) : Decoder :=
  match d.decode streamId block with
  | (d, .ok (_, answer)) => d.queue answer.toList
  | (d, .error _) => d

/-- What can happen next. Each channel carries its octets in order, and any
    number of them at a time. -/
inductive Step : Link → Link → Prop
  /-- A section is encoded. The insert count stays below what the octets of a
      stream could tell the peer of. -/
  | encode {l : Link} (streamId : ℕ) (fields : List HeaderField) (hid : streamId < 2 ^ 64)
      (hsize : sectionSize fields ≤ l.decoder.maxDecodedSize)
      (hcount : (l.encoder.encode streamId fields).1.dynamicTable.insertedCount < 2 ^ 62) :
      Step l { l with
        encoder := (l.encoder.encode streamId fields).1
        sent := Function.update l.sent streamId
          (l.sent streamId ++ [((l.encoder.encode streamId fields).2, fields)]) }
  | takeEncoderStream (l : Link) : Step l { l with
      encoder := l.encoder.takeEncoderStream.1, up := l.up ++ l.encoder.takeEncoderStream.2 }
  | onEncoderStream (l : Link) (n : ℕ) : Step l { l with
      decoder := (l.decoder.onEncoderStream (l.up.take n)).1, up := l.up.drop n }
  | decode {l : Link} {streamId : ℕ} {block : Octets} {fields : List HeaderField}
      {later : List (Octets × List HeaderField)} (hs : l.sent streamId = (block, fields) :: later) :
      Step l { l with
        decoder := receive l.decoder streamId block, sent := Function.update l.sent streamId later }
  | takeDecoderStream (l : Link) : Step l { l with
      decoder := l.decoder.takeDecoderStream.1, down := l.down ++ l.decoder.takeDecoderStream.2 }
  | onDecoderStream (l : Link) (n : ℕ) : Step l { l with
      encoder := (l.encoder.onDecoderStream (l.down.take n)).1, down := l.down.drop n }

/-- The states of a run. -/
inductive Reached (limits : Limits) : Link → Prop
  | start : Reached limits (start limits)
  | step {l l' : Link} (h : Reached limits l) (hs : Step l l') : Reached limits l'

/-- Two tables with the same entries, of which the second may have no room at all. -/
def Agrees (t t' : DynamicTable) : Prop :=
  t.entries = t'.entries ∧ t.insertedCount = t'.insertedCount ∧ (t'.capacity = 0 ∨ t.capacity = t'.capacity)

theorem Agrees.get {t t' : DynamicTable} (h : Agrees t t') (a : ℕ) : t.get a = t'.get a := by
  rw [DynamicTable.get, DynamicTable.get, h.1, h.2.1]

theorem Agrees.oldest {t t' : DynamicTable} (h : Agrees t t') : t.oldest = t'.oldest := by
  rw [DynamicTable.oldest, DynamicTable.oldest, h.1, h.2.1]

/-- What an encoder inserted next leads a table that agrees to one that agrees. -/
theorem Agrees.inserts {t t₁ t₂ : DynamicTable} {is : List EncoderInstruction} (h : Agrees t t₁)
    (hi : InsertsAll t₁ is t₂) : ∃ t', InsertsAll t is t' ∧ Agrees t' t₂ := by
  obtain ⟨he, hc, hcap⟩ := h
  rcases hcap with hcap | hcap
  · cases hi with
    | nil => exact ⟨t, .nil t, he, hc, .inl hcap⟩
    | @cons _ _ _ _ field hfit _ _ =>
      have hle : field.size ≤ t₁.capacity := of_decide_eq_true hfit
      have := field.size_pos
      omega
  · obtain rfl : t = t₁ := DynamicTable.ext he hcap hc
    exact ⟨t₂, hi, rfl, rfl, .inr rfl⟩

/-- What the two ends and what is between them hold about each other. -/
structure Inv (l : Link) : Prop where
  /-- What is on its way to the decoder leads its table to the encoder's. -/
  up : ∃ is t, l.decoder.streamRecv ++ l.up ++ l.encoder.streamOut = is.flatMap (·.encode) ∧
    (∀ i ∈ is, i.Bounded) ∧ Replays l.decoder.maxCapacity l.decoder.dynamicTable is t ∧
    Agrees t l.encoder.dynamicTable
  /-- What is on its way to the encoder tells it of every insertion and section. -/
  down : ∃ answers, l.encoder.streamRecv ++ l.down ++ l.decoder.streamOut = answers.flatMap (·.encode) ∧
    Answers l.encoder answers l.decoder.dynamicTable.insertedCount l.sent
  guarded : l.encoder.Guarded
  count : l.encoder.dynamicTable.insertedCount < 2 ^ 62
  capacity : l.encoder.dynamicTable.capacity ≤ l.encoder.maxCapacity
  same : l.encoder.maxCapacity = l.decoder.maxCapacity
  words : l.decoder.maxCapacity < 2 ^ 64 ∧ l.decoder.maxDecodedSize < 2 ^ 64
  sent : ∀ streamId, ∀ m ∈ l.sent streamId, streamId < 2 ^ 64 ∧ sectionSize m.2 ≤ l.decoder.maxDecodedSize

/-- The decoder has made no insertion the encoder has not. -/
theorem Inv.inserted_le {l : Link} (h : l.Inv) :
    l.decoder.dynamicTable.insertedCount ≤ l.encoder.dynamicTable.insertedCount := by
  obtain ⟨is, t, -, -, hr, ha⟩ := h.up
  exact hr.follows.count.trans ha.2.1.le

/-- The encoder knows of no insertion the decoder has not made. -/
theorem Inv.known_le {l : Link} (h : l.Inv) :
    l.encoder.knownReceivedCount ≤ l.decoder.dynamicTable.insertedCount := by
  obtain ⟨answers, -, ha⟩ := h.down
  rw [← ha.known]
  exact Nat.le_add_right _ _

/-- What a section in flight names, the decoder holds. -/
theorem Inv.get_eq {l : Link} (h : l.Inv) {s : Section} (hs : s ∈ l.encoder.sections) {a : ℕ}
    (hle : s.floor ≤ a) (hlt : a < s.required) :
    l.decoder.dynamicTable.get a = l.encoder.dynamicTable.get a := by
  obtain ⟨is, t, -, -, hr, ha⟩ := h.up
  obtain ⟨hold, -, hknown⟩ := h.guarded s hs
  rw [← ha.get, hr.follows.get a (ha.oldest ▸ hold.trans hle) (hlt.trans_le (hknown.trans h.known_le))]

/-- The decoder is within the window of the insert count of a section in flight. -/
theorem Inv.window {l : Link} (h : l.Inv) {s : Section} (hs : s ∈ l.encoder.sections) :
    Prefix.decodeInsertCount (Prefix.encodeInsertCount s.required l.encoder.maxCapacity)
      l.decoder.dynamicTable.insertedCount l.decoder.maxCapacity = .ok s.required := by
  obtain ⟨hold, hfloor, hknown⟩ := h.guarded s hs
  have hlen := l.encoder.dynamicTable.length_add_oldest
  have hroom := l.encoder.dynamicTable.length_le
  have hcap := h.capacity
  have hword := h.words.1
  have hcount := h.count
  have hle := h.inserted_le
  have hge := h.known_le
  have hmax : Prefix.maxEntries l.encoder.maxCapacity = l.encoder.maxCapacity / 32 := rfl
  rw [← h.same] at hword ⊢
  exact Prefix.decode_encode (by omega) (by omega) (by omega) (by omega) (by rw [MAX]; omega)

/-- The next section of a stream reads back. -/
theorem Inv.decode {l : Link} (h : l.Inv) (streamId : ℕ) {s : Section} {block : Octets}
    {fields : List HeaderField} (hr : Reads l.encoder.dynamicTable l.encoder.maxCapacity s block fields)
    (hs : s.required = 0 ∨ s ∈ l.encoder.sections) (hsize : sectionSize fields ≤ l.decoder.maxDecodedSize) :
    l.decoder.decode streamId block = (l.decoder.cancel streamId,
      .ok (fields, if 0 < s.required then some (.sectionAcknowledgment streamId) else none)) := by
  have hcount : l.decoder.dynamicTable.insertedCount < MAX := by
    have := h.inserted_le
    have := h.count
    rw [MAX]
    omega
  rcases hs with hz | hs
  · refine Decoder.decode_read (hr.congr fun a _ hlt _ => absurd hlt (by omega)) (by omega) hcount ?_
      h.words.2 hsize
    simp [hz, Prefix.encodeInsertCount, Prefix.decodeInsertCount]
  · exact Decoder.decode_read (hr.congr fun a hle hlt _ => h.get_eq hs hle hlt)
      ((h.guarded s hs).2.2.trans h.known_le) hcount (h.window hs) h.words.2 hsize

/-! ## What a step keeps -/

/-- An encoder starts out with an empty table, whose capacity it has announced. -/
theorem startEncoder_spec (limits : Limits) :
    ∃ (is : List EncoderInstruction) (c : ℕ), c ≤ limits.maxCapacity.toNat ∧
      (is = [] ∧ c = 0 ∨ is = [.setDynamicTableCapacity c]) ∧
      startEncoder limits = { Encoder.new with
        dynamicTable := .new c
        maxCapacity := limits.maxCapacity.toNat
        maxOutstandingSections := limits.maxOutstandingSections.toNat
        maxInstructionSize := limits.maxDecoderInstruction.toNat
        capacityLimit := limits.capacityLimit.toNat
        streamOut := is.flatMap (·.encode) } := by
  have hlimit : ∀ e : Encoder, e.maxCapacity = 0 → e.streamOut = [] → e.dynamicTable.capacity = 0 →
      announce (e.setCapacityLimit limits.capacityLimit.toNat) =
        { e with capacityLimit := limits.capacityLimit.toNat } := fun e hm ho hc => by
    rw [Encoder.setCapacityLimit, if_pos (by omega)]
    simp [announce, Encoder.queue, ho]
  rw [startEncoder, hlimit _ rfl rfl rfl, Encoder.setMaxCapacity]
  split_ifs with hzero
  · exact ⟨[], 0, Nat.zero_le _, .inl ⟨rfl, rfl⟩, rfl⟩
  · refine ⟨[.setDynamicTableCapacity (min limits.maxCapacity.toNat limits.capacityLimit.toNat)], _,
      min_le_left _ _, .inr rfl, ?_⟩
    rw [← DynamicTable.setCapacity_new 0]
    rfl

/-- A decoder starts out with an empty table. -/
theorem startDecoder_spec (limits : Limits) : ∃ c, startDecoder limits = { Decoder.new with
    dynamicTable := .new c
    maxCapacity := limits.maxCapacity.toNat
    maxDecodedSize := limits.maxDecodedSize.toNat
    maxInstructionSize := limits.maxEncoderInstruction.toNat
    maxBlockedStreams := limits.maxBlockedStreams.toNat } := by
  rw [startDecoder, Decoder.setMaxCapacity]
  split_ifs
  · refine ⟨limits.maxCapacity.toNat, ?_⟩
    rw [← DynamicTable.setCapacity_new Decoder.DEFAULT_MAX_CAPACITY]
    rfl
  · exact ⟨Decoder.DEFAULT_MAX_CAPACITY, rfl⟩

theorem inv_start (limits : Limits) : (start limits).Inv := by
  have hword : ∀ n : UInt64, n.toNat < 2 ^ 64 := fun n => n.toNat_lt
  obtain ⟨is, c', hle, his, he⟩ := startEncoder_spec limits
  obtain ⟨c, hd⟩ := startDecoder_spec limits
  rw [start, he, hd]
  constructor
  · rcases his with ⟨rfl, rfl⟩ | rfl
    · exact ⟨[], .new c, rfl, by simp, .nil _, rfl, rfl, .inl rfl⟩
    · refine ⟨[.setDynamicTableCapacity c'], .new c', rfl,
        by simpa [EncoderInstruction.Bounded] using hle.trans_lt (hword _), .capacity hle ?_, rfl, rfl, .inr rfl⟩
      rw [DynamicTable.setCapacity_new]
      exact .nil _
  · exact ⟨[], rfl, by simp, rfl, fun _ => le_rfl, fun _ => .nil⟩
  · intro s hs
    cases hs
  · exact Nat.two_pow_pos 62
  · exact hle
  · rfl
  · exact ⟨hword _, hword _⟩
  · intro id m hm
    cases hm

theorem Inv.encode {l : Link} (h : l.Inv) {streamId : ℕ} {fields : List HeaderField}
    (hid : streamId < 2 ^ 64) (hsize : sectionSize fields ≤ l.decoder.maxDecodedSize)
    (hcount : (l.encoder.encode streamId fields).1.dynamicTable.insertedCount < 2 ^ 62) :
    Inv { l with
      encoder := (l.encoder.encode streamId fields).1
      sent := Function.update l.sent streamId
        (l.sent streamId ++ [((l.encoder.encode streamId fields).2, fields)]) } := by
  obtain ⟨is, s, he⟩ := Encoder.encode_spec l.encoder streamId fields
    (by rw [MAX]; omega) (fun f hf => by
      have := size_le_sectionSize hf
      have := h.words.2
      have hsize : f.size = f.name.len + f.value.len + 32 := rfl
      omega)
  generalize l.encoder.encode streamId fields = encoded at hcount he ⊢
  obtain ⟨e, block⟩ := encoded
  simp only at hcount he ⊢
  have hguarded := he.guarded h.guarded
  have hfollows := he.inserts.follows
  have hsections : e.sections = if 0 < s.required then l.encoder.sections ++ [s] else l.encoder.sections := by
    rw [he.rest]
  have hmem : ∀ s ∈ l.encoder.sections, s ∈ e.sections := fun s' hs => by
    rw [hsections]
    split_ifs
    · exact List.mem_append_left _ hs
    · exact hs
  have hmax : e.maxCapacity = l.encoder.maxCapacity := by rw [he.rest]
  constructor
  · obtain ⟨js, t, hw, hb, hr, ha⟩ := h.up
    obtain ⟨t', hi, ha'⟩ := ha.inserts he.inserts
    refine ⟨js ++ is, t', ?_, fun i hi => (List.mem_append.1 hi).elim (hb i) (he.bounded i),
      hr.append hi.replays, ha'⟩
    rw [he.streamOut, ← List.append_assoc, hw, List.flatMap_append]
  · obtain ⟨answers, hw, ha⟩ := h.down
    have hrecv : e.streamRecv = l.encoder.streamRecv := by rw [he.rest]
    have hknown : e.knownReceivedCount = l.encoder.knownReceivedCount := by rw [he.rest]
    refine ⟨answers, by rw [hrecv, hw], ha.each, by rw [hknown]; exact ha.known, fun id => ?_, fun id => ?_⟩
    all_goals
      have hfilter : e.sections.filter (·.streamId == id) = l.encoder.sections.filter (·.streamId == id) ++
          if 0 < s.required ∧ streamId = id then [s] else [] := by
        rw [hsections]
        split_ifs <;> simp_all [he.streamId]
    · rw [hfilter, List.length_append]
      exact (ha.acks id).trans (Nat.le_add_right _ _)
    · rw [hfilter, List.drop_append_of_le_length (ha.acks id), hmax]
      have hkept := (ha.sections id).follows hfollows.1 fun s hs =>
        (hguarded s (hmem s (List.mem_of_mem_filter (List.mem_of_mem_drop hs)))).1
      simp only [Function.update_apply]
      by_cases heq : id = streamId
      · subst heq
        have := hkept.concat he.reads
        rw [if_pos rfl]
        split_ifs at this ⊢ with h₁ h₂ <;> simp_all
      · rw [if_neg heq, if_neg (fun hc => heq hc.2.symm), List.append_nil]
        exact hkept
  · exact hguarded
  · exact hcount
  · rw [hmax, hfollows.2.2]
    exact h.capacity
  · rw [hmax]
    exact h.same
  · exact h.words
  · intro id m hm
    simp only [Function.update_apply] at hm
    split_ifs at hm with heq
    · subst heq
      rcases List.mem_append.1 hm with hm | hm
      · exact h.sent _ m hm
      · rw [List.mem_singleton.1 hm]
        exact ⟨hid, hsize⟩
    · exact h.sent id m hm

theorem Inv.onEncoderStream {l : Link} (h : l.Inv) (n : ℕ) : Inv { l with
    decoder := (l.decoder.onEncoderStream (l.up.take n)).1, up := l.up.drop n } := by
  obtain ⟨is, t', hw, hb, hr, ha⟩ := h.up
  obtain ⟨answers, hw', hans⟩ := h.down
  rw [← List.take_append_drop n l.up, ← List.append_assoc, List.append_assoc] at hw
  obtain ⟨t, js, recv, hd, hle, hrest, hw, hb⟩ := hr.onEncoderStream hw hb
  rw [hd]
  refine ⟨⟨js, t', by simpa [Decoder.queue] using hw, hb, hrest, ha⟩,
    ⟨answers ++ increments (t.insertedCount - l.decoder.dynamicTable.insertedCount), ?_, ?_⟩, h.guarded,
    h.count, h.capacity, h.same, h.words, h.sent⟩
  · simp only [Decoder.queue]
    rw [← List.append_assoc, hw', List.flatMap_append]
  · -- Each insertion is one increment more on its way.
    have hack : ∀ id, (increments (t.insertedCount - l.decoder.dynamicTable.insertedCount)).count
        (.sectionAcknowledgment id) = 0 := fun id => by
      rw [increments, List.count_replicate, if_neg (by simp)]
    refine ⟨fun i hi => ?_, ?_, ?_, ?_⟩
    · rcases List.mem_append.1 hi with hi | hi
      · exact hans.each i hi
      · exact .inl (List.eq_of_mem_replicate hi)
    · have := hans.known
      rw [List.count_append, increments, List.count_replicate_self]
      simp only [Decoder.queue]
      omega
    · simpa [List.count_append, hack] using hans.acks
    · simpa [List.count_append, hack] using hans.sections

theorem Inv.onDecoderStream {l : Link} (h : l.Inv) (n : ℕ) : Inv { l with
    encoder := (l.encoder.onDecoderStream (l.down.take n)).1, down := l.down.drop n } := by
  obtain ⟨answers, hw, ha⟩ := h.down
  have hmax : l.decoder.dynamicTable.insertedCount ≤ MAX := by
    have := h.inserted_le
    have := h.count
    rw [MAX]
    omega
  rw [← List.take_append_drop n l.down, ← List.append_assoc, List.append_assoc] at hw
  obtain ⟨rest, hans, hguarded, hw, he⟩ := ha.onDecoderStream h.guarded hmax hw
  generalize (l.encoder.onDecoderStream (l.down.take n)).1 = e at hans hguarded hw he ⊢
  have htable : e.dynamicTable = l.encoder.dynamicTable := by rw [he]
  have hcapacity : e.maxCapacity = l.encoder.maxCapacity := by rw [he]
  have hout : e.streamOut = l.encoder.streamOut := by rw [he]
  refine ⟨?_, ⟨rest, by rw [List.append_assoc]; exact hw, hans⟩, hguarded, ?_, ?_, ?_, h.words, h.sent⟩
  · rw [htable, hout]
    exact h.up
  · rw [htable]
    exact h.count
  · rw [htable, hcapacity]
    exact h.capacity
  · rw [hcapacity]
    exact h.same

/-- The next section of a stream is read, and what is left is as it was. -/
theorem Inv.read {l : Link} (h : l.Inv) {streamId : ℕ} {block : Octets} {fields : List HeaderField}
    {later : List (Octets × List HeaderField)} (hs : l.sent streamId = (block, fields) :: later) :
    (∃ answer, (l.decoder.decode streamId block).2 = .ok (fields, answer)) ∧
      Inv { l with decoder := receive l.decoder streamId block, sent := Function.update l.sent streamId later } := by
  obtain ⟨hid, hsize⟩ := h.sent streamId _ (hs ▸ List.mem_cons_self)
  obtain ⟨answers, hw, ha⟩ := h.down
  obtain ⟨s, hr, hmem, ha⟩ := ha.read hs hid
  have hdecode := h.decode streamId hr hmem hsize
  refine ⟨⟨_, by rw [hdecode]⟩, ?_⟩
  rw [receive, hdecode]
  refine ⟨h.up, ⟨_, ?_, ha⟩, h.guarded, h.count, h.capacity, h.same, h.words, fun id m hm => ?_⟩
  · simp only [Decoder.queue, Decoder.cancel]
    rw [← List.append_assoc, hw, List.flatMap_append]
  · simp only [Function.update_apply] at hm
    split_ifs at hm with heq
    · subst heq
      exact h.sent _ m (hs ▸ List.mem_cons_of_mem _ hm)
    · exact h.sent id m hm

/-- Every step keeps what the two ends hold about each other. -/
theorem Step.inv {l l' : Link} (hs : Step l l') (h : l.Inv) : l'.Inv := by
  cases hs with
  | encode _ _ hid hsize hcount => exact h.encode hid hsize hcount
  | takeEncoderStream =>
    obtain ⟨is, t, hw, hup⟩ := h.up
    obtain ⟨answers, hw', ha⟩ := h.down
    exact ⟨⟨is, t, by simpa [Encoder.takeEncoderStream] using hw, hup⟩,
      ⟨answers, hw', ha.each, ha.known, ha.acks, ha.sections⟩, h.guarded, h.count, h.capacity, h.same, h.words,
      h.sent⟩
  | onEncoderStream n => exact h.onEncoderStream n
  | decode hs => exact (h.read hs).2
  | takeDecoderStream =>
    obtain ⟨answers, hw, hdown⟩ := h.down
    exact ⟨h.up, ⟨answers, by simpa [Decoder.takeDecoderStream] using hw, hdown⟩, h.guarded, h.count,
      h.capacity, h.same, h.words, h.sent⟩
  | onDecoderStream n => exact h.onDecoderStream n

theorem Reached.inv {limits : Limits} {l : Link} (h : Reached limits l) : l.Inv := by
  induction h with
  | start => exact inv_start limits
  | step _ hs ih => exact hs.inv ih

/-- Whatever the order of encoding and delivery, and however the octets are cut,
    the section that comes next on any stream decodes there and then, to the
    fields that were encoded. -/
theorem next_decodes_of_reached {limits : Limits} {l : Link} (h : Reached limits l) {streamId : ℕ}
    {block : Octets} {fields : List HeaderField} {later : List (Octets × List HeaderField)}
    (hs : l.sent streamId = (block, fields) :: later) :
    ∃ answer, (l.decoder.decode streamId block).2 = .ok (fields, answer) :=
  (h.inv.read hs).1

/-- A section that names the entry an earlier one inserted, once the encoder knows
    the decoder has it. -/
theorem next_decodes_after_increment :
    ∃ (l : Link) (block : Octets), l.encoder.sections ≠ [] ∧ l.sent 8 = [(block, [HeaderField.lit "x" "y"])] ∧
      ∃ answer, (l.decoder.decode 8 block).2 = .ok ([HeaderField.lit "x" "y"], answer) := by
  have inserted : Reached ⟨4096, 4096, 16, 4096, 16, 4096, 4096⟩ _ :=
    .step .start (.encode 4 [.lit "x" "y"] (by decide) (by decide) (by decide +kernel))
  have known := ((((inserted.step (.takeEncoderStream _)).step (.onEncoderStream _ 64)).step
    (.takeDecoderStream _)).step (.onDecoderStream _ 64))
  have referred := known.step (.encode 8 [.lit "x" "y"] (by decide) (by decide +kernel)
    (by decide +kernel))
  refine ⟨_, (_ : Encoder × Octets).2, ?_, rfl, next_decodes_of_reached referred rfl⟩
  decide +kernel

end Link

end Soyokaze.Qpack

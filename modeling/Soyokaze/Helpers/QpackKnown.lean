import Soyokaze.Helpers.QpackCapacity
import Soyokaze.Helpers.QpackCuts

/-!
# QPACK: how far the known received count is to be trusted

What an encoder takes the peer to have is what the peer says. A section that is in flight
names nothing the peer was not known to have, so an acknowledgement adds nothing to what is
known, and only an Insert Count Increment does; it is taken at its word.

* `Encoder.known_perform`: in every run, a call adds to the count the increments it takes in,
  and nothing else does;
* `Encoder.known_kept`: the count never falls, and stays within the insertions in every run
  whose increments do.
-/

namespace Soyokaze.Qpack

open Framing

namespace DecoderInstruction

/-- How many insertions an instruction says have arrived. -/
def increment : DecoderInstruction → ℕ
  | .insertCountIncrement n => n
  | _ => 0

end DecoderInstruction

namespace Encoder

/-- The peer was known to have all that the sections in flight need. -/
def Awaited (e : Encoder) : Prop := ∀ s ∈ e.sections, s.required ≤ e.knownReceivedCount

theorem known_onDecoderInstruction {e : Encoder} (h : e.Awaited) (hmax : e.knownReceivedCount ≤ MAX)
    (i : DecoderInstruction) :
    (e.onDecoderInstruction i).knownReceivedCount = min (e.knownReceivedCount + i.increment) MAX ∧
      (e.onDecoderInstruction i).Awaited ∧
      (e.onDecoderInstruction i).dynamicTable.insertedCount = e.dynamicTable.insertedCount := by
  have hsame : e.knownReceivedCount = min (e.knownReceivedCount + 0) MAX := (min_eq_left hmax).symm
  cases i with
  | sectionAcknowledgment streamId =>
    rw [onDecoderInstruction]
    split
    · next acknowledged hfind =>
      have hle := h acknowledged (List.mem_of_find?_eq_some hfind)
      dsimp only
      rw [max_eq_left hle]
      exact ⟨hsame, fun s hs => h s (List.mem_of_mem_eraseP hs), rfl⟩
    · exact ⟨hsame, h, rfl⟩
  | streamCancellation streamId => exact ⟨hsame, fun s hs => h s (List.mem_of_mem_filter hs), rfl⟩
  | insertCountIncrement n =>
    refine ⟨rfl, fun s hs => (h s hs).trans ?_, rfl⟩
    exact le_min (Nat.le_add_right _ n) hmax

/-- The increments of instructions, together. -/
def increments (instructions : List DecoderInstruction) : ℕ := (instructions.map (·.increment)).sum

theorem known_foldl (instructions : List DecoderInstruction) {e : Encoder} (h : e.Awaited)
    (hmax : e.knownReceivedCount ≤ MAX) :
    (instructions.foldl onDecoderInstruction e).knownReceivedCount =
        min (e.knownReceivedCount + increments instructions) MAX ∧
      (instructions.foldl onDecoderInstruction e).Awaited ∧
      (instructions.foldl onDecoderInstruction e).dynamicTable.insertedCount = e.dynamicTable.insertedCount := by
  induction instructions generalizing e with
  | nil => exact ⟨(min_eq_left hmax).symm, h, rfl⟩
  | cons i instructions ih =>
    obtain ⟨hknown, hawaited, hcount⟩ := known_onDecoderInstruction h hmax i
    obtain ⟨hknown', hawaited', hcount'⟩ := ih hawaited (hknown ▸ min_le_right _ _)
    refine ⟨?_, hawaited', hcount'.trans hcount⟩
    rw [List.foldl_cons, hknown', hknown, increments, increments, List.map_cons, List.sum_cons]
    omega

/-- The instructions that an act takes in. -/
def heard (e : Encoder) : Act → List DecoderInstruction
  | .onDecoderInstruction i => [i]
  | .onDecoderStream bytes =>
    let buffer := e.streamRecv ++ bytes
    if e.maxInstructionSize < buffer.length then [] else items DecoderInstruction.decode (buffer.length + 1) buffer
  | _ => []

theorem insertedCount_le_insert (e : Encoder) (field : HeaderField) (reference : Option Reference) :
    e.dynamicTable.insertedCount ≤ (e.insert field reference).1.dynamicTable.insertedCount := by
  rcases e.insert_spec field reference with hi | ⟨hfit, -, hi⟩
  · rw [hi]
  · rw [hi]
    dsimp only
    rw [DynamicTable.insertedCount_insert]
    exact Nat.le_succ _

/-- What a call does to the count: it adds the increments it takes in. -/
theorem known_perform {e : Encoder} (h : e.Awaited) (hmax : e.knownReceivedCount ≤ MAX) {act : Act} (hs : act.Sized)
    (hc : (e.perform act).dynamicTable.insertedCount ≤ MAX) :
    (e.perform act).knownReceivedCount = min (e.knownReceivedCount + increments (e.heard act)) MAX ∧
      (e.perform act).Awaited ∧
      e.dynamicTable.insertedCount ≤ (e.perform act).dynamicTable.insertedCount := by
  have hsame : e.knownReceivedCount = min (e.knownReceivedCount + increments []) MAX := (min_eq_left hmax).symm
  cases act with
  | encode streamId fields =>
    obtain ⟨is, s, he⟩ := encode_spec e streamId fields hc hs
    have hknown : (e.encode streamId fields).1.knownReceivedCount = e.knownReceivedCount := by rw [he.rest]
    refine ⟨hknown.trans hsame, fun s' hs' => ?_, insertedCount_le_encode e streamId fields⟩
    rw [perform, hknown]
    rcases he.mem_sections hs' with hs' | ⟨rfl, hpos⟩
    · exact h s' hs'
    · exact (he.fresh hpos).2.2
  | insert field reference =>
    have hkept : (e.insert field reference).1.knownReceivedCount = e.knownReceivedCount ∧
        (e.insert field reference).1.sections = e.sections := by
      rcases e.insert_spec field reference with hi | ⟨_, -, hi⟩ <;> rw [hi] <;> exact ⟨rfl, rfl⟩
    refine ⟨hkept.1.trans hsame, fun s hs => ?_, e.insertedCount_le_insert field reference⟩
    rw [perform, hkept.2] at hs
    rw [perform, hkept.1]
    exact h s hs
  | onDecoderInstruction i =>
    obtain ⟨hknown, hawaited, hcount⟩ := known_onDecoderInstruction h hmax i
    exact ⟨hknown, hawaited, hcount.ge⟩
  | onDecoderStream bytes =>
    rw [perform, onDecoderStream, heard]
    dsimp only
    split_ifs
    · exact ⟨hsame, h, le_rfl⟩
    · have hfold := drain_eq_foldl DecoderInstruction.decode (· == .incomplete) onDecoderInstruction
        ((e.streamRecv ++ bytes).length + 1) e (e.streamRecv ++ bytes)
      obtain ⟨hknown, hawaited, hcount⟩ := known_foldl
        (items DecoderInstruction.decode ((e.streamRecv ++ bytes).length + 1) (e.streamRecv ++ bytes)) h hmax
      rw [← hfold] at hknown hawaited hcount
      exact ⟨hknown, hawaited, hcount.ge⟩
  | cancel streamId => exact ⟨hsame, fun s hs => h s (List.mem_of_mem_filter hs), le_rfl⟩
  | takeEncoderStream | queue _ | setMaxOutstandingSections _ | setMaxInstructionSize _ => exact ⟨hsame, h, le_rfl⟩
  | resize call =>
    obtain ⟨hcount, hsections, hknown⟩ := e.resize_rest call
    refine ⟨hknown.trans hsame, fun s hs => ?_, hcount.ge⟩
    rw [perform, hsections] at hs
    rw [perform, hknown]
    exact h s hs

theorem Reached.awaited {ok : Encoder → Call → Prop} {e : Encoder} (h : Reached ok e) :
    e.Awaited ∧ e.knownReceivedCount ≤ MAX := by
  induction h with
  | new => exact ⟨fun s hs => absurd hs List.not_mem_nil, Nat.zero_le _⟩
  | step _ act hs hc _ ih =>
    obtain ⟨hknown, hawaited, -⟩ := known_perform ih.1 ih.2 hs hc
    exact ⟨hawaited, hknown ▸ min_le_right _ _⟩

/-! ## Peers that say what is so -/

/-- The encoders a run can reach where no call takes in increments that go past the
    insertions not yet known to have arrived. -/
inductive Trusted : Encoder → Prop
  | new : Trusted new
  | step {e : Encoder} (h : Trusted e) (act : Act) (hs : act.Sized)
      (hc : (e.perform act).dynamicTable.insertedCount ≤ MAX)
      (hwithin : e.knownReceivedCount + increments (e.heard act) ≤ e.dynamicTable.insertedCount) :
      Trusted (e.perform act)

theorem Trusted.reached {e : Encoder} (h : Trusted e) : Reached (fun _ _ => True) e := by
  induction h with
  | new => exact .new
  | step _ act hs hc _ ih => exact .step ih act hs hc fun _ _ => trivial

theorem Trusted.known_le {e : Encoder} (h : Trusted e) : e.knownReceivedCount ≤ e.dynamicTable.insertedCount := by
  induction h with
  | new => exact le_rfl
  | step h act hs hc hwithin ih =>
    obtain ⟨hawaited, hmax⟩ := h.reached.awaited
    obtain ⟨hknown, -, hcount⟩ := known_perform hawaited hmax hs hc
    rw [hknown]
    exact (min_le_left _ _).trans (hwithin.trans hcount)

/-! ## What is refused -/

theorem acknowledgment_unknown {e : Encoder} {streamId : ℕ} (h : ∀ s ∈ e.sections, s.streamId ≠ streamId) :
    e.onDecoderInstruction (.sectionAcknowledgment streamId) = e := by
  have hnone : e.sections.find? (·.streamId == streamId) = none :=
    List.find?_eq_none.2 fun s hs heq => h s hs (beq_iff_eq.1 heq)
  rw [onDecoderInstruction, hnone]

theorem increment_zero {e : Encoder} (hmax : e.knownReceivedCount ≤ MAX) :
    e.onDecoderInstruction (.insertCountIncrement 0) = e := by
  rw [onDecoderInstruction, saturatingAdd, Nat.add_zero, min_eq_left hmax]

/-- Octets are refused where they are too many, or where what is left of them cannot be
    read; no instruction is. -/
theorem onDecoderStream_refuses_iff (e : Encoder) (bytes : Octets) (error : Error) :
    (e.onDecoderStream bytes).2 = some error ↔
      e.maxInstructionSize < (e.streamRecv ++ bytes).length ∧ error = .instructionTooLarge ∨
      (e.streamRecv ++ bytes).length ≤ e.maxInstructionSize ∧ error ≠ .incomplete ∧
        DecoderInstruction.decode (e.onDecoderStream bytes).1.streamRecv = .error error := by
  rw [onDecoderStream]
  dsimp only
  split_ifs with hlarge
  · simp only [hlarge, true_and, Nat.not_le.2 hlarge, false_and, or_false, Option.some.injEq]
    exact eq_comm
  · obtain ⟨stopped, hread, hend⟩ := drain_stopped (· == .incomplete) (f := onDecoderInstruction)
      DecoderInstruction.advances DecoderInstruction.settles.within e (Nat.lt_succ_self (e.streamRecv ++ bytes).length)
    rw [hread, hend]
    simp only [hlarge, false_and, false_or, Nat.le_of_not_lt hlarge, true_and, beq_iff_eq, Except.error.injEq]
    split_ifs with hmore
    · simp only [false_iff, not_and]
      exact fun hne heq => hne (heq ▸ hmore)
    · simp only [Option.some.injEq]
      exact ⟨fun heq => ⟨heq ▸ hmore, heq⟩, fun h => h.2⟩

/-- The count never falls, and nothing but increments adds to it; it stays within the
    insertions in every run whose increments do. An increment of nothing and an
    acknowledgement of a stream with no section in flight change nothing, and no octets are
    refused but those that are too many or cannot be read. -/
theorem known_kept :
    (∀ e, Reached (fun _ _ => True) e → ∀ act : Act, act.Sized →
      (e.perform act).dynamicTable.insertedCount ≤ MAX →
        e.knownReceivedCount ≤ (e.perform act).knownReceivedCount ∧
        (e.perform act).knownReceivedCount = min (e.knownReceivedCount + increments (e.heard act)) MAX) ∧
    (∀ e, Trusted e → e.knownReceivedCount ≤ e.dynamicTable.insertedCount) ∧
    (∀ e, Reached (fun _ _ => True) e → e.onDecoderInstruction (.insertCountIncrement 0) = e ∧
      ∀ streamId, (∀ s ∈ e.sections, s.streamId ≠ streamId) →
        e.onDecoderInstruction (.sectionAcknowledgment streamId) = e) ∧
    ∀ (e : Encoder) bytes error, (e.onDecoderStream bytes).2 = some error ↔
      e.maxInstructionSize < (e.streamRecv ++ bytes).length ∧ error = .instructionTooLarge ∨
      (e.streamRecv ++ bytes).length ≤ e.maxInstructionSize ∧ error ≠ .incomplete ∧
        DecoderInstruction.decode (e.onDecoderStream bytes).1.streamRecv = .error error := by
  refine ⟨fun e h act hs hc => ?_, fun e h => h.known_le, fun e h => ?_, onDecoderStream_refuses_iff⟩
  · obtain ⟨hawaited, hmax⟩ := h.awaited
    obtain ⟨hknown, -, -⟩ := known_perform hawaited hmax hs hc
    refine ⟨?_, hknown⟩
    rw [hknown]
    exact le_min (Nat.le_add_right _ _) hmax
  · exact ⟨increment_zero h.awaited.2, fun _ => acknowledgment_unknown⟩

/-- An encoder that has inserted nothing takes an increment of nothing, an acknowledgement of
    a stream with no section, and an increment that is past what it has sent. -/
theorem known_past_insertions :
    Reached (fun _ _ => True) (new.onDecoderStream [0x00, 0x84, 0x01]).1 ∧
      (new.onDecoderStream [0x00, 0x84, 0x01]).2 = none ∧
      (new.onDecoderStream [0x00, 0x84, 0x01]).1.dynamicTable.insertedCount <
        (new.onDecoderStream [0x00, 0x84, 0x01]).1.knownReceivedCount :=
  ⟨.step .new (.onDecoderStream [0x00, 0x84, 0x01]) trivial (by decide) fun _ _ => trivial, by decide, by decide⟩

end Encoder

end Soyokaze.Qpack

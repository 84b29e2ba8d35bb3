import Soyokaze.Helpers.Hpack

/-!
# HPACK: both ends of one direction

An encoder and the decoder its blocks reach. Between two blocks the capacities
may change any number of times: the maximum capacity at both ends at once, and
the limit the encoder keeps to on its own.

* `Budget`: the capacity and the limit alone, and what a run of calls does to
  them: the `lowest` capacity the encoder takes, and the lowest the decoder is
  `told` of;
* `Link.Tracked`: what holds between blocks, whatever the calls: the decoder's
  table holds the encoder's, and perhaps older entries the encoder evicted
  without saying so;
* `Link.decode_of_reached`: every block decodes to its fields, in every run;
* `Link.inStep_of_reached`: where at every block what the decoder was told
  leaves no more than the encoder kept, the tables are the same after it.
-/

namespace Soyokaze.Hpack

open Eviction

/-- A change of capacity between two blocks. -/
inductive Call
  /-- The maximum capacity, at both ends. -/
  | maxCapacity (capacity : UInt64)
  /-- The limit the encoder keeps to on its own. -/
  | capacityLimit (limit : UInt64)

/-- What is done up to the next block, and the fields of that block. -/
structure Round where
  calls : List Call
  fields : List HeaderField

/-! ## Capacities -/

/-- The capacity of an encoder's table, and the limit it keeps to. -/
structure Budget where
  capacity : ℕ
  limit : ℕ

namespace Budget

/-- What one call does to them. -/
def call (b : Budget) : Call → Budget
  | .maxCapacity capacity => ⟨min capacity.toNat b.limit, b.limit⟩
  | .capacityLimit limit => ⟨min b.capacity limit.toNat, limit.toNat⟩

/-- The smallest capacity the encoder takes over the calls. -/
def lowest : Budget → List Call → ℕ
  | b, [] => b.capacity
  | b, c :: calls => min b.capacity (lowest (b.call c) calls)

/-- The smallest capacity the decoder hears of: every maximum capacity, and the
    one in force when the block is written. -/
def told : Budget → List Call → ℕ
  | b, [] => b.capacity
  | b, .maxCapacity capacity :: calls => min capacity.toNat (told (b.call (.maxCapacity capacity)) calls)
  | b, .capacityLimit limit :: calls => told (b.call (.capacityLimit limit)) calls

theorem lowest_le_capacity (b : Budget) (calls : List Call) : b.lowest calls ≤ b.capacity := by
  cases calls with
  | nil => exact le_rfl
  | cons c calls => exact min_le_left _ _

theorem lowest_le_told (b : Budget) (calls : List Call) : b.lowest calls ≤ b.told calls := by
  induction calls generalizing b with
  | nil => exact le_rfl
  | cons c calls ih =>
    have hrest : b.lowest (c :: calls) ≤ (b.call c).lowest calls := min_le_right _ _
    cases c with
    | maxCapacity v =>
      refine le_min ?_ (hrest.trans (ih _))
      exact hrest.trans ((lowest_le_capacity _ calls).trans (min_le_left _ _))
    | capacityLimit l => exact hrest.trans (ih _)

end Budget

/-! ## A run -/

/-- An encoder and the decoder its blocks reach. -/
structure Link where
  encoder : Encoder
  decoder : Decoder

namespace Link

/-- Two fresh ends, the decoder accepting sections of up to `maxDecodedSize`. -/
def new (maxDecodedSize : UInt64) : Link := ⟨.new, Decoder.new.setMaxDecodedSize maxDecodedSize.toNat⟩

/-- One change of capacity. -/
def call (l : Link) : Call → Link
  | .maxCapacity capacity =>
    ⟨l.encoder.setMaxCapacity capacity.toNat, l.decoder.setMaxCapacity capacity.toNat⟩
  | .capacityLimit limit => ⟨l.encoder.setCapacityLimit limit.toNat, l.decoder⟩

/-- The calls of a round, and then its block, encoded and decoded. -/
def round (l : Link) (r : Round) : Link × Except Error (List HeaderField) :=
  let l := r.calls.foldl call l
  let (encoder, block) := l.encoder.encode r.fields
  let (decoder, decoded) := l.decoder.decode block
  (⟨encoder, decoder⟩, decoded)

/-- The capacity and the limit of the encoder. -/
def budget (l : Link) : Budget := ⟨l.encoder.dynamicTable.capacity, l.encoder.capacityLimit⟩

/-- What of the table fits the capacities the decoder is told of fits the
    smallest capacity the encoder took as well. -/
def Kept (l : Link) (calls : List Call) : Prop :=
  total Entry.size (fit Entry.size (l.budget.told calls) l.encoder.dynamicTable.entries) ≤
    l.budget.lowest calls

instance (l : Link) (calls : List Call) : Decidable (l.Kept calls) := inferInstanceAs (Decidable (_ ≤ _))

/-- The states of a run whose blocks all keep to the decoder's size limit and
    meet the condition `ok`. -/
inductive Reached (ok : Link → List Call → Prop) (maxDecodedSize : UInt64) : Link → Prop
  | new : Reached ok maxDecodedSize (.new maxDecodedSize)
  | round {l : Link} (r : Round) (h : Reached ok maxDecodedSize l)
      (hs : sectionSize r.fields ≤ maxDecodedSize.toNat) (hk : ok l r.calls) :
      Reached ok maxDecodedSize (l.round r).1

/-- Both ends hold the same table. -/
def InStep (l : Link) : Prop := l.decoder.dynamicTable = l.encoder.dynamicTable

/-! ## What the calls leave -/

/-- The entries both ends hold, cut from `s` and `t`, the tables after the last
    block: `a` and `b` are the smallest capacities each end has had. -/
structure Cut (s t : List Entry) (a b : ℕ) (l : Link) : Prop where
  encoder : l.encoder.dynamicTable.entries = fit Entry.size a s
  decoder : l.decoder.dynamicTable.entries = fit Entry.size b t
  quiet : l.encoder.pendingSizeUpdate = none →
    b ≤ l.encoder.dynamicTable.capacity ∧
      l.decoder.dynamicTable.capacity = l.encoder.dynamicTable.capacity
  pending : ∀ capacity ∈ l.encoder.pendingSizeUpdate, capacity = l.encoder.dynamicTable.capacity
  permitted : l.encoder.dynamicTable.capacity ≤ l.decoder.maxCapacity
  word : l.decoder.maxCapacity < 2 ^ 64

variable {s t : List Entry} {a b : ℕ} {l : Link}

theorem Cut.call_maxCapacity (h : Cut s t a b l) (v : UInt64) :
    Cut s t (min (min v.toNat l.encoder.capacityLimit) a) (min v.toNat b) (l.call (.maxCapacity v)) where
  encoder := by
    show (l.encoder.dynamicTable.setCapacity _).entries = _
    rw [DynamicTable.entries_setCapacity, h.encoder, fit_fit]
  decoder := by
    show (l.decoder.setMaxCapacity v.toNat).dynamicTable.entries = _
    rw [Decoder.setMaxCapacity, ← fit_fit, ← h.decoder]
    split_ifs with hv
    · exact DynamicTable.entries_setCapacity _ _
    · exact (fit_of_total_le (by
        rw [← DynamicTable.size_eq]
        exact l.decoder.dynamicTable.size_le.trans (not_lt.1 hv))).symm
  quiet hn := by cases hn
  pending capacity hc := by
    cases hc
    exact (DynamicTable.capacity_setCapacity _ _).symm
  permitted := by
    show (l.encoder.dynamicTable.setCapacity _).capacity ≤ (l.decoder.setMaxCapacity v.toNat).maxCapacity
    rw [DynamicTable.capacity_setCapacity, Decoder.setMaxCapacity]
    split_ifs <;> exact min_le_left _ _
  word := by
    show (l.decoder.setMaxCapacity v.toNat).maxCapacity < 2 ^ 64
    rw [Decoder.setMaxCapacity]
    split_ifs <;> exact v.toNat_lt

theorem Cut.call_capacityLimit (h : Cut s t a b l) (ha : a ≤ l.encoder.dynamicTable.capacity) (v : UInt64) :
    Cut s t (min (min l.encoder.dynamicTable.capacity v.toNat) a) b (l.call (.capacityLimit v)) := by
  have hl : l.call (.capacityLimit v) = ⟨l.encoder.setCapacityLimit v.toNat, l.decoder⟩ := rfl
  rw [hl, Encoder.setCapacityLimit]
  split_ifs with hv
  · refine ⟨?_, h.decoder, fun hn => by (cases hn), fun capacity hc => ?_, ?_, h.word⟩
    · rw [min_eq_right hv.le]
      show (l.encoder.dynamicTable.setCapacity _).entries = _
      rw [DynamicTable.entries_setCapacity, h.encoder, fit_fit]
    · cases hc
      exact (DynamicTable.capacity_setCapacity _ _).symm
    · show (l.encoder.dynamicTable.setCapacity _).capacity ≤ _
      rw [DynamicTable.capacity_setCapacity]
      exact hv.le.trans h.permitted
  · refine ⟨?_, h.decoder, h.quiet, h.pending, h.permitted, h.word⟩
    rw [min_eq_left (not_lt.1 hv), min_eq_right ha]
    exact h.encoder

theorem budget_call (l : Link) (c : Call) : (l.call c).budget = l.budget.call c := by
  cases c with
  | maxCapacity v =>
    show Budget.mk (l.encoder.dynamicTable.setCapacity _).capacity _ = _
    rw [DynamicTable.capacity_setCapacity]
    rfl
  | capacityLimit v =>
    have hl : l.call (.capacityLimit v) = ⟨l.encoder.setCapacityLimit v.toNat, l.decoder⟩ := rfl
    rw [hl, budget, Encoder.setCapacityLimit, Budget.call]
    split_ifs with hv
    · show Budget.mk (l.encoder.dynamicTable.setCapacity _).capacity _ = _
      rw [DynamicTable.capacity_setCapacity, budget, min_eq_right hv.le]
    · rw [budget, min_eq_left (not_lt.1 hv)]

/-- What a run of calls leaves of both tables. -/
theorem Cut.foldl (calls : List Call) (h : Cut s t a b l) (ha : a ≤ l.budget.capacity) :
    ∃ b', Cut s t (min a (l.budget.lowest calls)) b' (calls.foldl call l) ∧
      min b' (calls.foldl call l).encoder.dynamicTable.capacity = min b (l.budget.told calls) := by
  induction calls generalizing l a b with
  | nil =>
    exact ⟨b, by rwa [Budget.lowest, min_eq_left ha], rfl⟩
  | cons c calls ih =>
    -- The capacity a call settles is one of those `lowest` goes over.
    have hle : (l.budget.call c).lowest calls ≤ (l.budget.call c).capacity :=
      Budget.lowest_le_capacity _ calls
    rw [List.foldl_cons, Budget.lowest, ← budget_call, ← min_assoc, min_eq_left ha]
    cases c with
    | maxCapacity v =>
      obtain ⟨b', h', hb⟩ := ih (h.call_maxCapacity v) (by rw [budget_call]; exact min_le_left _ _)
      refine ⟨b', ?_, ?_⟩
      · rw [budget_call] at h' ⊢
        rwa [min_comm _ a, min_assoc, show min (min v.toNat l.encoder.capacityLimit) _ = _ from
          min_eq_right hle] at h'
      · rw [hb, Budget.told, budget_call, min_comm v.toNat b, min_assoc]
    | capacityLimit v =>
      obtain ⟨b', h', hb⟩ := ih (h.call_capacityLimit ha v) (by rw [budget_call]; exact min_le_left _ _)
      refine ⟨b', ?_, ?_⟩
      · rw [budget_call] at h' ⊢
        rwa [min_comm _ a, min_assoc, show min (min l.encoder.dynamicTable.capacity v.toNat) _ = _ from
          min_eq_right hle] at h'
      · rw [hb, Budget.told, budget_call]

/-- Where an update is pending, it is the capacity in force. -/
theorem Cut.update (h : Cut s t a b l) :
    (l.decoder.dynamicTable.update l.encoder.pendingSizeUpdate).entries =
        fit Entry.size (min b l.encoder.dynamicTable.capacity) t ∧
      (l.decoder.dynamicTable.update l.encoder.pendingSizeUpdate).capacity =
        l.encoder.dynamicTable.capacity := by
  cases hu : l.encoder.pendingSizeUpdate with
  | none =>
    obtain ⟨hb, hc⟩ := h.quiet hu
    rw [min_eq_left hb]
    exact ⟨h.decoder, hc⟩
  | some capacity =>
    obtain rfl := h.pending capacity hu
    refine ⟨?_, DynamicTable.capacity_setCapacity _ _⟩
    rw [DynamicTable.update, DynamicTable.entries_setCapacity, h.decoder, fit_fit, min_comm]

/-! ## What holds in every state of a run -/

/-- Between blocks the decoder's table holds the encoder's, and nothing waits to
    be announced. -/
structure Tracked (l : Link) : Prop where
  tracks : l.decoder.dynamicTable.Tracks l.encoder.dynamicTable
  settled : l.encoder.pendingSizeUpdate = none
  permitted : l.encoder.dynamicTable.capacity ≤ l.decoder.maxCapacity
  word : l.decoder.maxCapacity < 2 ^ 64

theorem Tracked.cut (h : Tracked l) :
    Cut l.encoder.dynamicTable.entries l.decoder.dynamicTable.entries
      l.encoder.dynamicTable.capacity l.encoder.dynamicTable.capacity l where
  encoder := (fit_of_total_le (l.encoder.dynamicTable.size_eq ▸ l.encoder.dynamicTable.size_le)).symm
  decoder := (fit_of_total_le (by
    rw [← DynamicTable.size_eq, ← h.tracks.capacity]
    exact l.decoder.dynamicTable.size_le)).symm
  quiet _ := ⟨le_rfl, h.tracks.capacity⟩
  pending capacity hc := by rw [h.settled] at hc; cases hc
  permitted := h.permitted
  word := h.word

theorem maxDecodedSize_foldl (calls : List Call) (l : Link) :
    (calls.foldl call l).decoder.maxDecodedSize = l.decoder.maxDecodedSize := by
  induction calls generalizing l with
  | nil => rfl
  | cons c calls ih =>
    refine (ih _).trans ?_
    cases c with
    | maxCapacity v =>
      show (l.decoder.setMaxCapacity v.toNat).maxDecodedSize = _
      rw [Decoder.setMaxCapacity]
      split_ifs <;> rfl
    | capacityLimit v => rfl

/-- Both ends cut the same table alike exactly where what is told is kept. -/
theorem kept_iff {calls : List Call} : l.Kept calls ↔
    fit Entry.size (min l.encoder.dynamicTable.capacity (l.budget.told calls))
        l.encoder.dynamicTable.entries =
      fit Entry.size (l.budget.lowest calls) l.encoder.dynamicTable.entries := by
  have hself : fit Entry.size l.encoder.dynamicTable.capacity l.encoder.dynamicTable.entries =
      l.encoder.dynamicTable.entries :=
    fit_of_total_le (l.encoder.dynamicTable.size_eq ▸ l.encoder.dynamicTable.size_le)
  have htold : fit Entry.size (min l.encoder.dynamicTable.capacity (l.budget.told calls))
      l.encoder.dynamicTable.entries = fit Entry.size (l.budget.told calls) l.encoder.dynamicTable.entries := by
    rw [min_comm, ← fit_fit, hself]
  have hlowest : fit Entry.size (l.budget.lowest calls) l.encoder.dynamicTable.entries =
      fit Entry.size (l.budget.lowest calls)
        (fit Entry.size (l.budget.told calls) l.encoder.dynamicTable.entries) := by
    rw [fit_fit, min_eq_left (Budget.lowest_le_told _ calls)]
  rw [Kept, htold, hlowest, eq_comm, fit_eq_self_iff]

/-- From one table at both ends, the head of the next block leaves one table at
    both ends exactly where what is told is kept. -/
theorem Tracked.update_eq_iff (h : Tracked l) (hin : l.InStep) (calls : List Call) :
    (calls.foldl call l).decoder.dynamicTable.update (calls.foldl call l).encoder.pendingSizeUpdate =
        (calls.foldl call l).encoder.dynamicTable ↔ l.Kept calls := by
  obtain ⟨b, hcut, hb⟩ := h.cut.foldl calls le_rfl
  rw [show min l.encoder.dynamicTable.capacity _ = _ from
    min_eq_right (Budget.lowest_le_capacity l.budget calls)] at hcut
  obtain ⟨hentries, hcapacity⟩ := hcut.update
  rw [hb, show l.decoder.dynamicTable = l.encoder.dynamicTable from hin] at hentries
  rw [kept_iff]
  constructor
  · intro he
    exact (hentries.symm.trans (congrArg (·.entries) he)).trans hcut.encoder
  · intro he
    exact DynamicTable.ext (hentries.trans (he.trans hcut.encoder.symm)) hcapacity

/-- One round: the block decodes to its fields, and the tables go on as they
    were; where they were the same and what is told is kept, they stay so. -/
theorem Tracked.round (h : Tracked l) {r : Round} (hm : l.decoder.maxDecodedSize < 2 ^ 64)
    (hs : sectionSize r.fields ≤ l.decoder.maxDecodedSize) :
    Tracked (l.round r).1 ∧ (l.round r).2 = .ok r.fields ∧
      (l.round r).1.decoder.maxDecodedSize = l.decoder.maxDecodedSize ∧
      (l.InStep → l.Kept r.calls → (l.round r).1.InStep) := by
  obtain ⟨b, hcut, hb⟩ := h.cut.foldl r.calls le_rfl
  rw [show min l.encoder.dynamicTable.capacity _ = _ from
    min_eq_right (Budget.lowest_le_capacity l.budget r.calls)] at hcut
  obtain ⟨hentries, hcapacity⟩ := hcut.update
  rw [hb] at hentries
  have hsize := maxDecodedSize_foldl r.calls l
  obtain ⟨s, hfst, hcap⟩ := (r.calls.foldl call l).encoder.encode_fst r.fields
  obtain ⟨t, hdecode, htracks, hsame⟩ := decode_encode (e := (r.calls.foldl call l).encoder)
    (d := (r.calls.foldl call l).decoder) r.fields
    ⟨by
      rw [hentries, hcut.encoder]
      exact DynamicTable.fit_isPrefix_of_isPrefix (le_min (Budget.lowest_le_capacity _ _)
        (Budget.lowest_le_told _ _)) h.tracks.entries, hcapacity⟩
    (fun capacity hc => (hcut.pending capacity hc).trans_le hcut.permitted)
    (hcut.permitted.trans_lt hcut.word) (hsize ▸ hm) (hsize ▸ hs)
  have hround : l.round r = (⟨((r.calls.foldl call l).encoder.encode r.fields).1,
      { (r.calls.foldl call l).decoder with dynamicTable := t }⟩, .ok r.fields) := by
    rw [Link.round]
    simp only [hdecode]
  rw [hround]
  refine ⟨⟨htracks, ?_, ?_, hcut.word⟩, rfl, hsize, fun hin hkept => hsame ?_⟩
  · show ((r.calls.foldl call l).encoder.encode r.fields).1.pendingSizeUpdate = none
    rw [hfst]
  · show ((r.calls.foldl call l).encoder.encode r.fields).1.dynamicTable.capacity ≤ _
    rw [hfst]
    exact hcap.trans_le hcut.permitted
  · exact (h.update_eq_iff hin r.calls).2 hkept

theorem tracked_new (maxDecodedSize : UInt64) : Tracked (.new maxDecodedSize) :=
  ⟨.refl _, rfl, le_rfl, by show 4096 < 2 ^ 64; decide⟩

variable {ok : Link → List Call → Prop} {maxDecodedSize : UInt64}

theorem Reached.tracked (h : Reached ok maxDecodedSize l) :
    Tracked l ∧ l.decoder.maxDecodedSize = maxDecodedSize.toNat := by
  induction h with
  | new => exact ⟨tracked_new _, rfl⟩
  | round r _ hs _ ih =>
    obtain ⟨ht, -, hm, -⟩ := ih.1.round (r := r) (ih.2 ▸ maxDecodedSize.toNat_lt) (ih.2 ▸ hs)
    exact ⟨ht, hm.trans ih.2⟩

/-- In every run every block decodes to its fields, and leaves the decoder with
    every entry the encoder holds. -/
theorem decode_of_reached (h : Reached ok maxDecodedSize l) {r : Round}
    (hs : sectionSize r.fields ≤ maxDecodedSize.toNat) :
    (l.round r).2 = .ok r.fields ∧
      (l.round r).1.decoder.dynamicTable.Tracks (l.round r).1.encoder.dynamicTable := by
  obtain ⟨ht, hr, -⟩ := h.tracked.1.round (r := r) (h.tracked.2 ▸ maxDecodedSize.toNat_lt)
    (h.tracked.2 ▸ hs)
  exact ⟨hr, ht.tracks⟩

/-- Where what is told is kept at every block, every block decodes to its fields
    and the two tables are the same before and after it. -/
theorem inStep_of_reached (h : Reached Kept maxDecodedSize l) :
    l.InStep ∧ ∀ r : Round, sectionSize r.fields ≤ maxDecodedSize.toNat → l.Kept r.calls →
      (l.round r).2 = .ok r.fields ∧ (l.round r).1.InStep := by
  have inStep : l.InStep := by
    induction h with
    | new => rfl
    | round r h hs hk ih =>
      have ht := h.tracked
      exact (ht.1.round (ht.2 ▸ maxDecodedSize.toNat_lt) (ht.2 ▸ hs)).2.2.2 ih hk
  have ht := h.tracked
  refine ⟨inStep, fun r hs hk => ⟨(decode_of_reached h hs).1, ?_⟩⟩
  exact (ht.1.round (ht.2 ▸ maxDecodedSize.toNat_lt) (ht.2 ▸ hs)).2.2.2 inStep hk

/-- A block that inserts a field, and one after the capacity was reduced. -/
theorem inStep_after_reduction :
    (((new 4096).round ⟨[], [.lit "x" "y"]⟩).1.round ⟨[.maxCapacity 0], [.lit "a" "b"]⟩).1.InStep :=
  (@inStep_of_reached _ 4096 (.round ⟨[.maxCapacity 0], [.lit "a" "b"]⟩
    (.round ⟨[], [.lit "x" "y"]⟩ .new (by decide) (by decide)) (by decide) (by decide +kernel))).1

/-- A limit that empties the encoder's table and is lifted again before the next
    block is never announced: the decoder keeps what the encoder evicted. -/
theorem not_inStep_after_regrowth :
    ¬ ∀ maxDecodedSize l, Reached (fun _ _ => True) maxDecodedSize l → l.InStep := by
  intro h
  have hstep := h 4096 _ (.round ⟨[.capacityLimit 0, .capacityLimit 4096, .maxCapacity 4096], []⟩
    (.round ⟨[], [.lit "x" "y"]⟩ .new (by decide) trivial) (by decide) trivial)
  exact absurd (congrArg (·.entries.length) hstep) (by decide +kernel)

end Link

end Soyokaze.Hpack

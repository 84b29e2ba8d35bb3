import Soyokaze.Helpers.Integer

/-!
# Prefixed integers, exactly

What the octets of a prefixed integer stand for is a number without a bound;
`Integer.decode` works it out in a word, seven bits at a time, and drops the bits
that the last shift moves out of it.

* `Integer.Encoding`: the octets that encode a number;
* `Integer.Reads`: what should be read at the front of a string, which is one
  thing (`Integer.Reads.unique`);
* `Integer.decode_exact_iff`: that is what is read, unless bits are dropped.
-/

namespace Soyokaze

namespace Integer

variable {δ : Type}

/-- The octet says that another one follows. -/
def Continued (octet : UInt8) : Prop := octet &&& 0x80 ≠ 0

instance : DecidablePred Continued := fun _ => inferInstanceAs (Decidable (_ ≠ _))

/-- The number that continuation octets add: seven bits each, the lowest first. -/
def weigh : Octets → ℕ
  | [] => 0
  | octet :: octets => (octet &&& 0x7f).toNat + 128 * weigh octets

/-- `w` is the whole of an encoding of `v`: a first octet whose prefix is not full,
    or a full one with its continuation behind it. -/
inductive Encoding (prefixBits : ℕ) : Octets → ℕ → Prop
  | alone {first : UInt8} : first.toNat &&& limit prefixBits < limit prefixBits →
      Encoding prefixBits [first] (first.toNat &&& limit prefixBits)
  | continued {first last : UInt8} {octets : Octets} :
      first.toNat &&& limit prefixBits = limit prefixBits → (∀ o ∈ octets, Continued o) → ¬ Continued last →
      Encoding prefixBits (first :: (octets ++ [last])) (limit prefixBits + weigh (octets ++ [last]))

/-- `w` is an encoding cut short. -/
inductive Unfinished (prefixBits : ℕ) : Octets → Prop
  | nil : Unfinished prefixBits []
  | continued {first : UInt8} {octets : Octets} :
      first.toNat &&& limit prefixBits = limit prefixBits → (∀ o ∈ octets, Continued o) →
      Unfinished prefixBits (first :: octets)

/-- The continuation octets a decoder goes through at most. -/
def MAX_CONTINUATION : ℕ := 10

/-- What is to be read at the front of `input`. -/
inductive Reads (prefixBits : ℕ) (input : Octets) : Except (Fields.Error δ) (ℕ × ℕ) → Prop
  | value {w : Octets} {v : ℕ} : Encoding prefixBits w v → w <+: input → w.length ≤ MAX_CONTINUATION + 1 →
      v < 2 ^ 64 → Reads prefixBits input (.ok (w.length, v))
  /-- The value does not fit. -/
  | large {w : Octets} {v : ℕ} : Encoding prefixBits w v → w <+: input → 2 ^ 64 ≤ v →
      Reads prefixBits input (.error .integerOverflow)
  /-- Neither does one that goes on for longer than any that fits. -/
  | long {w : Octets} : Unfinished prefixBits w → w <+: input → w.length = MAX_CONTINUATION + 1 →
      Reads prefixBits input (.error .integerOverflow)
  | cut : Unfinished prefixBits input → input.length ≤ MAX_CONTINUATION →
      Reads prefixBits input (.error .incomplete)

/-! ## One thing is to be read -/

variable {prefixBits : ℕ}

/-- An octet that ends a continuation is not one that goes on. -/
theorem eq_of_isPrefix {octets octets' : Octets} {last last' : UInt8} (ho' : ∀ o ∈ octets', Continued o)
    (hl : ¬ Continued last) (h : octets ++ [last] <+: octets' ++ [last']) :
    octets ++ [last] = octets' ++ [last'] := by
  rcases List.prefix_concat_iff.1 h with h | h
  · exact h
  · exact absurd (ho' last (h.subset (by simp))) hl

/-- No encoding is a strict prefix of another. -/
theorem Encoding.eq_of_isPrefix {w w' : Octets} {v v' : ℕ} (h : Encoding prefixBits w v)
    (h' : Encoding prefixBits w' v') (hp : w <+: w') : w = w' := by
  cases h with
  | alone hlt =>
    cases h' with
    | alone _ => exact hp.eq_of_length rfl
    | continued hfull _ _ =>
      obtain ⟨rfl, -⟩ := List.cons_prefix_cons.1 hp
      omega
  | continued hfull _ hl =>
    cases h' with
    | alone hlt =>
      obtain ⟨rfl, -⟩ := List.cons_prefix_cons.1 hp
      omega
    | continued _ ho' _ =>
      obtain ⟨rfl, htail⟩ := List.cons_prefix_cons.1 hp
      rw [Integer.eq_of_isPrefix ho' hl htail]

/-- The octets tell the number. -/
theorem Encoding.value_eq {w : Octets} {v v' : ℕ} (h : Encoding prefixBits w v)
    (h' : Encoding prefixBits w v') : v = v' := by
  cases h with
  | alone _ =>
    generalize hw : [_] = w at h'
    cases h' with
    | alone _ =>
      cases hw
      rfl
    | continued _ _ _ => simp at hw
  | continued _ _ _ =>
    generalize hw : _ :: _ = w at h'
    cases h' with
    | alone _ => simp at hw
    | continued _ _ _ => rw [(List.cons.inj hw).2]

/-- What is at the front of a string is one encoding. -/
theorem Encoding.unique {w w' input : Octets} {v v' : ℕ} (h : Encoding prefixBits w v)
    (h' : Encoding prefixBits w' v') (hp : w <+: input) (hp' : w' <+: input) : w = w' ∧ v = v' := by
  have hw : w = w' := by
    rcases List.prefix_or_prefix_of_prefix hp hp' with hle | hle
    · exact h.eq_of_isPrefix h' hle
    · exact (h'.eq_of_isPrefix h hle).symm
  subst hw
  exact ⟨rfl, h.value_eq h'⟩

/-- What begins with a whole encoding has not been cut short. -/
theorem Encoding.finished {w w' : Octets} {v : ℕ} (h : Encoding prefixBits w v) (hp : w <+: w') :
    ¬ Unfinished prefixBits w' := by
  intro h'
  cases h with
  | alone hlt =>
    cases h' with
    | nil => simp at hp
    | continued hfull _ =>
      obtain ⟨rfl, -⟩ := List.cons_prefix_cons.1 hp
      omega
  | @continued first last octets hfull _ hl =>
    cases h' with
    | nil => simp at hp
    | continued _ ho =>
      obtain ⟨rfl, htail⟩ := List.cons_prefix_cons.1 hp
      exact hl (ho last (htail.subset (by simp)))

/-- A value that is read leaves nothing else to read. -/
theorem Reads.eq_value {input w : Octets} {v : ℕ} {r : Except (Fields.Error δ) (ℕ × ℕ)}
    (h : Encoding prefixBits w v) (hp : w <+: input) (hw : w.length ≤ MAX_CONTINUATION + 1) (hv : v < 2 ^ 64)
    (h' : Reads prefixBits input r) : r = .ok (w.length, v) := by
  cases h' with
  | value h' hp' _ _ =>
    obtain ⟨rfl, rfl⟩ := h.unique h' hp hp'
    rfl
  | large h' hp' hv' =>
    obtain ⟨-, rfl⟩ := h.unique h' hp hp'
    exact absurd hv hv'.not_gt
  | long h' hp' hw' =>
    exact absurd h' (h.finished (List.prefix_of_prefix_length_le hp hp' (hw'.symm ▸ hw)))
  | cut h' _ => exact absurd h' (h.finished hp)

/-- What is cut short is no more than the bound, and no whole encoding. -/
theorem Reads.eq_incomplete {input : Octets} {r : Except (Fields.Error δ) (ℕ × ℕ)}
    (h : Unfinished prefixBits input) (hw : input.length ≤ MAX_CONTINUATION)
    (h' : Reads prefixBits input r) : r = .error .incomplete := by
  cases h' with
  | value h' hp _ _ => exact absurd h (h'.finished hp)
  | large h' hp _ => exact absurd h (h'.finished hp)
  | long _ hp hw' =>
    have := hp.length_le
    omega
  | cut _ _ => rfl

/-- What is to be read is one thing. -/
theorem Reads.unique {input : Octets} {r r' : Except (Fields.Error δ) (ℕ × ℕ)}
    (h : Reads prefixBits input r) (h' : Reads prefixBits input r') : r = r' := by
  have overflow {r : Except (Fields.Error δ) (ℕ × ℕ)} (h : Reads (δ := δ) prefixBits input (.error .integerOverflow))
      (h' : Reads prefixBits input r) : .error .integerOverflow = r := by
    cases h' with
    | value he hp hw hv => exact Reads.eq_value he hp hw hv h
    | large _ _ _ => rfl
    | long _ _ _ => rfl
    | cut hc hw => exact Reads.eq_incomplete hc hw h
  cases h with
  | value he hp hw hv => exact (Reads.eq_value he hp hw hv h').symm
  | large he hp hv => exact overflow (.large he hp hv) h'
  | long hu hp hw => exact overflow (.long hu hp hw) h'
  | cut hc hw => exact (Reads.eq_incomplete hc hw h').symm

/-! ## What is read -/

/-- The last octet of the longest continuation has bits that do not fit a word, and
    the ones that do leave room: a run of nine octets that go on, and behind it one
    of two or more whose lowest bit still fits. -/
def Spills (prefixBits : ℕ) (input : Octets) : Prop :=
  ∃ first last octets rest, input = first :: (octets ++ last :: rest) ∧
    first.toNat &&& limit prefixBits = limit prefixBits ∧ (∀ o ∈ octets, Continued o) ∧ octets.length = 9 ∧
      ¬ Continued last ∧ 2 ≤ last.toNat ∧
        limit prefixBits + weigh octets + last.toNat % 2 * 2 ^ 63 < 2 ^ 64

theorem low_eq (o : UInt8) : (o &&& 0x7f).toNat = o.toNat % 128 := by
  rw [UInt8.toNat_and]
  exact Nat.and_two_pow_sub_one_eq_mod o.toNat 7

theorem not_continued_iff (o : UInt8) : ¬ Continued o ↔ o.toNat < 128 := by
  have ho := o.toNat_lt
  rw [Continued, not_not, ← UInt8.toNat_inj, UInt8.toNat_and]
  generalize o.toNat = n at ho
  revert n
  decide +kernel

attribute [local simp] weigh in
theorem weigh_append (octets tail : Octets) :
    weigh (octets ++ tail) = weigh octets + 2 ^ (7 * octets.length) * weigh tail := by
  induction octets with
  | nil => simp
  | cons o octets ih =>
    rw [List.cons_append, weigh, ih, weigh, List.length_cons]
    ring

theorem weigh_lt (octets : Octets) : weigh octets < 2 ^ (7 * octets.length) := by
  induction octets with
  | nil => exact Nat.one_pos
  | cons o octets ih =>
    rw [weigh, low_eq, List.length_cons, Nat.mul_succ, pow_add]
    omega

/-- The octets that go on are added up, as long as the word holds them. -/
theorem decodeRest_continued (octets tail : Octets) (ho : ∀ o ∈ octets, Continued o) {value k consumed : ℕ}
    (hk : k + octets.length ≤ 9) (hv : value + weigh octets * 2 ^ (7 * k) < 2 ^ 64) :
    decodeRest (δ := δ) (octets ++ tail) value (7 * k) consumed =
      decodeRest tail (value + weigh octets * 2 ^ (7 * k)) (7 * (k + octets.length)) (consumed + octets.length) := by
  induction octets generalizing value k consumed with
  | nil => simp [weigh]
  | cons o octets ih =>
    rw [List.length_cons] at hk
    have hsplit : weigh (o :: octets) * 2 ^ (7 * k) =
        (o &&& 0x7f).toNat * 2 ^ (7 * k) + weigh octets * 2 ^ (7 * (k + 1)) := by
      rw [weigh, Nat.mul_succ, pow_add]
      ring
    rw [hsplit] at hv ⊢
    have hpart : (o &&& 0x7f).toNat * 2 ^ (7 * k) < 2 ^ 64 := by omega
    rw [List.cons_append, decodeRest, Nat.shiftLeft_eq, Nat.mod_eq_of_lt hpart, if_neg (by omega),
      if_neg (ho o List.mem_cons_self), if_neg (by omega), show 7 * k + 7 = 7 * (k + 1) by ring,
      ih (fun o h => ho o (List.mem_cons_of_mem _ h)) (by omega) (by omega), List.length_cons]
    congr 1 <;> omega

/-- The octet that ends a continuation within the word. -/
theorem decodeRest_last {last : UInt8} (h : ¬ Continued last) (rest : Octets) {value k consumed : ℕ}
    (hv : value + last.toNat * 2 ^ (7 * k) < 2 ^ 64) :
    decodeRest (δ := δ) (last :: rest) value (7 * k) consumed =
      .ok (consumed + 1, value + last.toNat * 2 ^ (7 * k)) := by
  rw [decodeRest, low_eq, Nat.mod_eq_of_lt ((not_continued_iff last).1 h), Nat.shiftLeft_eq,
    Nat.mod_eq_of_lt (by omega), if_neg (by omega), if_pos (not_not.1 h)]

/-- The tenth octet has one bit that the word can hold. -/
theorem decodeRest_tenth (o : UInt8) (rest : Octets) {value consumed : ℕ} :
    decodeRest (δ := δ) (o :: rest) value 63 consumed =
      if Continued o ∨ 2 ^ 64 ≤ value + o.toNat % 2 * 2 ^ 63 then .error .integerOverflow
      else .ok (consumed + 1, value + o.toNat % 2 * 2 ^ 63) := by
  have hbit : ((o &&& 0x7f).toNat <<< 63) % 2 ^ 64 = o.toNat % 2 * 2 ^ 63 := by
    rw [low_eq, Nat.shiftLeft_eq]
    omega
  rw [decodeRest, hbit]
  by_cases hover : 2 ^ 64 ≤ value + o.toNat % 2 * 2 ^ 63
  · rw [if_pos hover, if_pos (.inr hover)]
  rw [if_neg hover]
  by_cases hc : Continued o
  · rw [if_neg hc, if_pos (by decide), if_pos (.inl hc)]
  · rw [if_pos (not_not.1 hc), if_neg (not_or.2 ⟨hc, hover⟩)]

/-- Octets go on to the end, or up to one that does not. -/
theorem continued_or_last (rest : Octets) : (∀ o ∈ rest, Continued o) ∨
    ∃ octets last tail, rest = octets ++ last :: tail ∧ (∀ o ∈ octets, Continued o) ∧ ¬ Continued last := by
  induction rest with
  | nil => exact .inl nofun
  | cons o rest ih =>
    by_cases ho : Continued o
    · rcases ih with h | ⟨octets, last, tail, rfl, h, hl⟩
      · exact .inl (List.forall_mem_cons.2 ⟨ho, h⟩)
      · exact .inr ⟨o :: octets, last, tail, rfl, List.forall_mem_cons.2 ⟨ho, h⟩, hl⟩
    · exact .inr ⟨[], o, rest, rfl, nofun, ho⟩

theorem limit_le (hb : prefixBits ≤ 8) : limit prefixBits ≤ 255 := by
  rw [limit, min_eq_left (by omega)]
  exact Nat.sub_le_sub_right (Nat.pow_le_pow_right (by omega) hb) 1

/-- Nine octets that go on stay within the word. -/
theorem run_lt (hb : prefixBits ≤ 8) {octets : Octets} (hlen : octets.length ≤ 9) :
    limit prefixBits + weigh octets * 2 ^ (7 * 0) < 2 ^ 64 := by
  have hl := limit_le hb
  have hw := weigh_lt octets
  have hp : 2 ^ (7 * octets.length) ≤ 2 ^ 63 := Nat.pow_le_pow_right (by omega) (by omega)
  omega

/-- What is read behind a full prefix and `octets` that go on. -/
theorem decode_continued (hb : prefixBits ≤ 8) {first : UInt8}
    (hfull : first.toNat &&& limit prefixBits = limit prefixBits) {octets : Octets}
    (ho : ∀ o ∈ octets, Continued o) (hlen : octets.length ≤ 9) (tail : Octets) :
    decode (δ := δ) (first :: (octets ++ tail)) prefixBits =
      decodeRest tail (limit prefixBits + weigh octets) (7 * octets.length) (octets.length + 1) := by
  have h := @decodeRest_continued δ octets tail ho _ 0 1 (by simpa using hlen) (run_lt hb hlen)
  rw [Nat.mul_zero, pow_zero, Nat.mul_one, Nat.zero_add] at h
  simp only [decode, hfull, lt_irrefl, if_false]
  rw [h, Nat.add_comm 1]

/-- A tenth octet is only looked at where the nine before it went on. -/
theorem decode_tenth (hb : prefixBits ≤ 8) {first : UInt8}
    (hfull : first.toNat &&& limit prefixBits = limit prefixBits) {octets : Octets}
    (ho : ∀ o ∈ octets, Continued o) (hlen : octets.length = 9) (o : UInt8) (tail : Octets) :
    decode (δ := δ) (first :: (octets ++ o :: tail)) prefixBits =
      if Continued o ∨ 2 ^ 64 ≤ limit prefixBits + weigh octets + o.toNat % 2 * 2 ^ 63 then
        .error .integerOverflow
      else .ok (octets.length + 2, limit prefixBits + weigh octets + o.toNat % 2 * 2 ^ 63) := by
  rw [decode_continued hb hfull ho hlen.le, hlen]
  exact decodeRest_tenth o tail

/-- Ten octets that go on are too many. -/
theorem reads_unfinished (hb : prefixBits ≤ 8) {first : UInt8}
    (hfull : first.toNat &&& limit prefixBits = limit prefixBits) {octets : Octets}
    (ho : ∀ o ∈ octets, Continued o) (hlen : 10 ≤ octets.length) (tail : Octets) :
    Reads (δ := δ) prefixBits (first :: (octets ++ tail)) (decode (first :: (octets ++ tail)) prefixBits) := by
  obtain ⟨run, o, more, rfl, hrun⟩ : ∃ run o more, octets = run ++ o :: more ∧ run.length = 9 :=
    ⟨octets.take 9, octets[9], octets.drop 10, by simp, by simp; omega⟩
  have hall : ∀ o' ∈ run ++ [o], Continued o' := fun o' ho' => ho o' (by simp at ho' ⊢; tauto)
  rw [List.append_assoc, List.cons_append,
    decode_tenth hb hfull (fun o' ho' => hall o' (by simp [ho'])) hrun, if_pos (.inl (hall o (by simp)))]
  exact .long (.continued hfull hall) ⟨more ++ tail, by simp⟩ (by simp [hrun, MAX_CONTINUATION])

theorem weigh_concat (octets : Octets) {last : UInt8} (h : ¬ Continued last) :
    weigh (octets ++ [last]) = weigh octets + last.toNat * 2 ^ (7 * octets.length) := by
  rw [weigh_append, weigh, weigh, low_eq, Nat.mod_eq_of_lt ((not_continued_iff last).1 h)]
  ring

/-- Reading the encoding at the front, unless its last octet spills. -/
theorem decode_reads (hb : prefixBits ≤ 8) {input : Octets} (hs : ¬ Spills prefixBits input) :
    Reads (δ := δ) prefixBits input (decode input prefixBits) := by
  obtain - | ⟨first, rest⟩ := input
  · exact .cut .nil (Nat.zero_le _)
  have hle : first.toNat &&& limit prefixBits ≤ limit prefixBits := Nat.and_le_right
  have hlim := limit_le hb
  rcases hle.lt_or_eq with hlt | hfull
  · simp only [decode, if_pos hlt]
    exact .value (.alone hlt) ⟨rest, rfl⟩ (Nat.le_add_left 1 _) (by omega)
  rcases continued_or_last rest with ho | ⟨octets, last, tail, rfl, ho, hl⟩
  · rw [← List.append_nil rest]
    rcases Nat.lt_or_ge rest.length 10 with hlen | hlen
    · rw [decode_continued hb hfull ho (by omega), List.append_nil]
      exact .cut (.continued hfull ho) hlen
    · exact reads_unfinished hb hfull ho hlen []
  have hweigh := weigh_concat octets hl
  have hcode := Encoding.continued hfull ho hl
  have hp : first :: (octets ++ [last]) <+: first :: (octets ++ last :: tail) := ⟨tail, by simp⟩
  rcases Nat.lt_trichotomy octets.length 9 with hlen | hlen | hlen
  · -- Up to nine octets, all of their bits are within the word.
    have hfit : limit prefixBits + weigh octets + last.toNat * 2 ^ (7 * octets.length) < 2 ^ 64 := by
      have hpow : 2 ^ (7 * octets.length) ≤ 2 ^ 56 := Nat.pow_le_pow_right (by omega) (by omega)
      have hrun := weigh_lt octets
      have hlast := Nat.mul_le_mul (Nat.le_of_lt_succ ((not_continued_iff last).1 hl)) hpow
      omega
    rw [decode_continued hb hfull ho hlen.le, decodeRest_last hl tail hfit]
    convert Reads.value hcode hp (by simp [MAX_CONTINUATION]; omega) (by rw [hweigh]; omega) using 3
    · simp
    · rw [hweigh, Nat.add_assoc]
  · rw [decode_tenth hb hfull ho hlen]
    rw [hlen] at hweigh
    by_cases htwo : 2 ≤ last.toNat
    · rw [if_pos (.inr (not_lt.1 fun h => hs ⟨first, last, octets, tail, rfl, hfull, ho, hlen, hl, htwo, h⟩))]
      exact .large hcode hp (by rw [hweigh]; omega)
    · rw [Nat.mod_eq_of_lt (not_le.1 htwo)]
      split_ifs with hover
      · exact .large hcode hp (by rw [hweigh]; exact (hover.resolve_left hl).trans (by omega))
      · convert Reads.value hcode hp (by simp [MAX_CONTINUATION, hlen]) (by rw [hweigh]; omega) using 3
        · simp
        · rw [hweigh, Nat.add_assoc]
  · exact reads_unfinished hb hfull ho hlen (last :: tail)

/-- Where it spills, a value is read for one that does not fit. -/
theorem decode_spills (hb : prefixBits ≤ 8) {input : Octets} (hs : Spills prefixBits input) :
    Reads (δ := δ) prefixBits input (.error .integerOverflow) ∧
      ∃ v, decode (δ := δ) input prefixBits = .ok (MAX_CONTINUATION + 1, v) := by
  obtain ⟨first, last, octets, tail, rfl, hfull, ho, hlen, hl, htwo, hroom⟩ := hs
  constructor
  · refine .large (.continued hfull ho hl) ⟨tail, by simp⟩ ?_
    rw [weigh_concat octets hl, hlen]
    omega
  · rw [decode_tenth hb hfull ho hlen, if_neg (not_or.2 ⟨hl, not_le.2 hroom⟩), hlen]
    exact ⟨_, rfl⟩

/-- At every string, what is read is the one thing to be read there exactly where
    no encoding spills at its front, and every number is read back from what is
    written of it. -/
theorem decode_exact_iff (hb : prefixBits ≤ 8) :
    (∀ input, (∀ r, decode (δ := δ) input prefixBits = r ↔ Reads prefixBits input r) ↔
      ¬ Spills prefixBits input) ∧
    ∀ value, value < 2 ^ 64 → ∀ flags : UInt8, flags.toNat &&& limit prefixBits = 0 → ∀ rest,
      decode (δ := δ) (encode value prefixBits flags ++ rest) prefixBits =
        .ok ((encode value prefixBits flags).length, value) := by
  refine ⟨fun input => ⟨fun h hs => ?_, fun hs r => ⟨fun h => h ▸ decode_reads hb hs, fun h => ?_⟩⟩,
    fun value hv flags hf => (spells hb hf hv).whole⟩
  · obtain ⟨hlarge, v, hv⟩ := decode_spills (δ := δ) hb hs
    rw [(h _).2 hlarge] at hv
    cases hv
  · exact (decode_reads hb hs).unique h

theorem decode_exact_five :
    decode (δ := Empty) (encode 1337 5 0xe0 ++ [0x82]) 5 = .ok ((encode 1337 5 0xe0).length, 1337) :=
  (decode_exact_iff (by decide)).2 1337 (by decide) 0xe0 (by decide) [0x82]

/-- A value of 2 ^ 64 + 31 is read as 31. -/
theorem decode_spilling :
    ¬ ∀ (input : Octets) (r : Except (Fields.Error Empty) (ℕ × ℕ)), decode input 5 = r ↔ Reads 5 input r := by
  intro h
  have hspill : Spills 5 [0x1f, 0x80, 0x80, 0x80, 0x80, 0x80, 0x80, 0x80, 0x80, 0x80, 0x02] :=
    ⟨0x1f, 0x02, List.replicate 9 0x80, [], by decide, by decide,
      fun o ho => by rw [List.eq_of_mem_replicate ho]; decide, by decide, by decide, by decide, by decide⟩
  obtain ⟨hlarge, v, hv⟩ := decode_spills (δ := Empty) (by decide) hspill
  rw [(h _ _).2 hlarge] at hv
  cases hv

end Integer

end Soyokaze

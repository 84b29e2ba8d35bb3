import Soyokaze.Helpers.HuffmanCode
import Soyokaze.Helpers.Text

/-!
# Huffman coding

Encoding packs code words into an accumulator and pads the last octet with
one-bits. Decoding reads the octets into a window of 64 bits (`Bits`) and takes
one or two code words at a time off its front, and what is left at the end
must be padding.

* `encode_spec`: what is written is the code words in order, padded;
* `decodeIntoAscii_iff`: the decoder accepts exactly the octets that are code
  words followed by padding, and gives their symbols;
* `decode_encode`: decoding undoes encoding.
-/

namespace Soyokaze.Huffman

open PrefixCode

/-- Why a Huffman string would not decode. -/
inductive DecodeError
  | invalidPadding
  | unknownSymbol
  deriving DecidableEq

/-- The bits of an octet string, each octet most significant bit first. -/
def bits (octets : Octets) : List Bool := octets.flatMap fun o => msb 8 o.toNat

@[simp] theorem bits_nil : bits [] = [] := rfl

@[simp] theorem bits_cons (o : UInt8) (l : Octets) : bits (o :: l) = msb 8 o.toNat ++ bits l := rfl

@[simp] theorem bits_append (l m : Octets) : bits (l ++ m) = bits l ++ bits m := by
  simp [bits]

@[simp] theorem length_bits (l : Octets) : (bits l).length = 8 * l.length := by
  induction l with
  | nil => rfl
  | cons o l ih =>
    rw [bits_cons, List.length_append, length_msb, ih, List.length_cons]
    ring

theorem take_bits (l : Octets) (k : ℕ) : (bits l).take (8 * k) = bits (l.take k) := by
  rcases Nat.le_total k l.length with hk | hk
  · conv_lhs => rw [← List.take_append_drop k l, bits_append]
    rw [List.take_left' (by rw [length_bits, List.length_take, min_eq_left hk])]
  · rw [List.take_of_length_le (by rw [length_bits]; omega), List.take_of_length_le hk]

/-! ## The octets as a window -/

/-- The octets of an encoding, read as the bits a code word is spelled in. -/
structure Bits where
  /-- The octets not yet read into the window. -/
  input : Octets
  /-- The next bits, left-aligned in a word. -/
  window : ℕ
  /-- How many bits of the window are meaningful. -/
  held : ℕ

namespace Bits

/-- Every bit past the first `held`. -/
def past (held : ℕ) : ℕ := if held < 64 then (2 ^ 64 - 1) >>> held else 0

/-- A window over `input`, with nothing read in yet. -/
def new (input : Octets) : Bits := ⟨input, 0, 0⟩

/-- The mask of the bits that count. -/
def mask (b : Bits) : ℕ := (2 ^ 64 - 1) ^^^ past b.held

/-- Eight octets as a big-endian word. -/
def fromBe (octets : Octets) : ℕ := octets.foldl (fun word o => word <<< 8 ||| o.toNat) 0

/-- Reads octets in one at a time until the window cannot hold another. -/
def fillOctets : Octets → (window held : ℕ) → Bits
  | [], window, held => ⟨[], window, held⟩
  | octet :: rest, window, held =>
    if held ≤ 56 then fillOctets rest (window ||| octet.toNat <<< (56 - held)) (held + 8)
    else ⟨octet :: rest, window, held⟩

/-- Reads octets in until the window cannot hold another whole one. -/
def fill (b : Bits) : Bits :=
  let window := b.window &&& b.mask
  if 8 ≤ b.input.length ∧ b.held ≤ 56 then
    let taken := (64 - b.held) / 8
    ⟨b.input.drop taken, window ||| fromBe (b.input.take 8) >>> b.held, b.held + taken * 8⟩
  else fillOctets b.input window b.held

/-- Drops the `length` bits at the front. -/
def take (b : Bits) (length : ℕ) : Bits :=
  { b with window := b.window <<< length % 2 ^ 64, held := b.held - length }

/-- The window with everything past what it holds set to one. -/
def padded (b : Bits) : ℕ := b.window ||| past b.held

/-- Whether what is left is valid padding: fewer than eight bits, all ones. -/
def isPadding (b : Bits) : Bool := b.held < 8 && b.window &&& b.mask == b.mask

end Bits

/-! ## Decoding -/

/-- Takes code words off the window while it is sure to hold a whole one. -/
def words : ℕ → Bits → Octets → UInt8 → Except DecodeError (Bits × Octets × UInt8)
  | 0, b, out, seen => .ok (b, out, seen)
  | fuel + 1, b, out, seen =>
    if b.held < MAX_BITS then .ok (b, out, seen)
    else
      let entry := canonical.pairs.getD (b.window >>> (64 - PAIR_BITS)) 0
      let length := entry % 2 ^ 8
      if length = 0 then
        let (symbol, length) := canonical.long b.window
        if symbol = EOS then .error .invalidPadding
        else words fuel (b.take length) (out ++ [UInt8.ofNat symbol]) (seen ||| UInt8.ofNat symbol)
      else
        -- Both symbols are written whether the entry answered one or two; the
        -- count only moves the cursor.
        let first := UInt8.ofNat (entry >>> 16)
        let second := UInt8.ofNat (entry >>> 24)
        words fuel (b.take length) (out ++ [first, second].take (entry >>> 8 % 2 ^ 8))
          (seen ||| (first ||| second))

/-- Reads the octets in, a window at a time. -/
def windows : ℕ → Bits → Octets → UInt8 → Except DecodeError (Bits × Octets × UInt8)
  | 0, b, out, seen => .ok (b, out, seen)
  | fuel + 1, b, out, seen => do
    let (b, out, seen) ← words 64 b.fill out seen
    if b.input.isEmpty then .ok (b, out, seen) else windows fuel b out seen

/-- Takes the code words the last bits really hold, reading them against the padding. -/
def ending : ℕ → Bits → Octets → UInt8 → Except DecodeError (Bits × Octets × UInt8)
  | 0, b, out, seen => .ok (b, out, seen)
  | fuel + 1, b, out, seen =>
    if b.isPadding then .ok (b, out, seen)
    else
      let (symbol, length) := canonical.symbol b.padded
      if b.held < length then .ok (b, out, seen)
      else if symbol = EOS then .error .invalidPadding
      else ending fuel (b.take length) (out ++ [UInt8.ofNat symbol]) (seen ||| UInt8.ofNat symbol)

/-- Decodes a Huffman string, also reporting whether the result is ASCII. -/
def decodeIntoAscii (input : Octets) : Except DecodeError (Octets × Bool) := do
  let (b, out, seen) ← windows (input.length + 1) (.new input) [] 0
  let (b, out, seen) ← ending 64 b out seen
  if b.isPadding then .ok (out, seen &&& 0x80 = 0) else .error .invalidPadding

/-! ## Encoding -/

/-- The code word of an octet. -/
def symbolOf (octet : UInt8) : Symbol := table.getD octet.toNat ⟨0, 0⟩

/-- What an encoder holds: the accumulator, how many of its low bits count, and
    what has been written. -/
structure Pending where
  pending : ℕ
  bits : ℕ
  out : Octets

/-- Adds the code word of one octet, writing four octets out once they are whole. -/
def Pending.push (p : Pending) (byte : UInt8) : Pending :=
  let symbol := symbolOf byte
  let pending := (p.pending <<< symbol.length % 2 ^ 64) ||| symbol.code
  let bits := p.bits + symbol.length
  if 32 ≤ bits then
    let word := pending >>> (bits - 32)
    ⟨pending, bits - 32, p.out ++
      [.ofNat (word >>> 24), .ofNat (word >>> 16), .ofNat (word >>> 8), .ofNat word]⟩
  else ⟨pending, bits, p.out⟩

/-- Writes out what is left, padding the last octet with one-bits. -/
def Pending.finish (pending : ℕ) : ℕ → Octets
  | bits => if 8 ≤ bits then .ofNat (pending >>> (bits - 8)) :: finish pending (bits - 8)
    else if 0 < bits then [.ofNat (pending <<< (8 - bits) ||| (1 <<< (8 - bits) - 1))]
    else []

/-- Encodes octets, padding to a whole octet with one-bits. -/
def encode (input : Octets) : Octets :=
  let p := input.foldl Pending.push ⟨0, 0, []⟩
  p.out ++ Pending.finish p.pending p.bits

/-- How many octets `encode` will produce for this input, padding included. -/
def encodedLen (input : Octets) : ℕ := ((input.map fun byte => (symbolOf byte).length).sum + 7) / 8

namespace Bits

variable {b : Bits}

/-- The window is a word, and holds no more than it. -/
structure WF (b : Bits) : Prop where
  window_lt : b.window < 2 ^ 64
  held_le : b.held ≤ 64

/-- The bits the window holds, right-aligned. -/
def front (b : Bits) : ℕ := b.window >>> (64 - b.held)

/-- The bits not yet decoded. -/
def rest (b : Bits) : List Bool := msb b.held b.front ++ Huffman.bits b.input

theorem length_rest (b : Bits) : b.rest.length = b.held + 8 * b.input.length := by
  rw [rest, List.length_append, length_msb, length_bits]

theorem testBit_past {held : ℕ} (h : held ≤ 64) (i : ℕ) :
    (past held).testBit i = decide (i < 64 - held) := by
  rw [past]
  split_ifs with hh
  · rw [Nat.testBit_shiftRight, Nat.testBit_two_pow_sub_one]
    congr 1
    exact propext ⟨fun _ => by omega, fun _ => by omega⟩
  · rw [Nat.zero_testBit]
    exact (decide_eq_false (by omega)).symm

/-- Masking keeps what the window holds. -/
theorem and_mask (h : b.WF) : b.window &&& b.mask = b.front <<< (64 - b.held) := by
  refine Nat.eq_of_testBit_eq fun i => ?_
  have hw : 64 ≤ i → b.window.testBit i = false := fun hi =>
    Nat.testBit_lt_two_pow (h.window_lt.trans_le (Nat.pow_le_pow_right (by decide) hi))
  rw [Nat.testBit_and, mask, Nat.testBit_xor, testBit_past h.held_le, Nat.testBit_two_pow_sub_one,
    Nat.testBit_shiftLeft, front, Nat.testBit_shiftRight]
  by_cases hi : i < 64
  · by_cases hb : 64 - b.held ≤ i
    · simp [hi, hb, show ¬ i < 64 - b.held by omega]
    · simp [hi, hb, show i < 64 - b.held by omega]
  · rw [hw (by omega), Bool.false_and]
    by_cases hb : 64 - b.held ≤ i
    · rw [show 64 - b.held + (i - (64 - b.held)) = i by omega, hw (by omega), Bool.and_false]
    · simp [hb]

theorem front_lt (h : b.WF) : b.front < 2 ^ b.held := by
  rw [front, Nat.shiftRight_eq_div_pow]
  refine Nat.div_lt_of_lt_mul (h.window_lt.trans_le (le_of_eq ?_))
  rw [← pow_add]
  congr 1
  have := h.held_le
  omega

/-- What a window holds is the first bits of it. -/
theorem msb_front (h : b.WF) : msb b.held b.front = (msb 64 b.window).take b.held := by
  rw [msb_take h.held_le, front]

theorem shiftLeft_lt {a held : ℕ} (ha : a < 2 ^ held) (h : held ≤ 64) : a <<< (64 - held) < 2 ^ 64 := by
  rw [Nat.shiftLeft_eq]
  refine (Nat.mul_lt_mul_of_pos_right ha (Nat.two_pow_pos _)).trans_le (le_of_eq ?_)
  rw [← pow_add]
  congr 1
  omega

theorem fromBe_foldl (l : Octets) (acc m : ℕ) :
    msb (m + 8 * l.length) (l.foldl (fun word o => word <<< 8 ||| o.toNat) acc) =
      msb m acc ++ Huffman.bits l := by
  induction l generalizing acc m with
  | nil => simp
  | cons o l ih =>
    rw [List.foldl_cons, List.length_cons, show m + 8 * (l.length + 1) = m + 8 + 8 * l.length by ring,
      ih, msb_append o.toNat_lt, bits_cons, List.append_assoc]

theorem foldl_lt (l : Octets) (acc m : ℕ) (h : acc < 2 ^ m) :
    l.foldl (fun word o => word <<< 8 ||| o.toNat) acc < 2 ^ (m + 8 * l.length) := by
  induction l generalizing acc m with
  | nil => exact h
  | cons o l ih =>
    have := ih (acc <<< 8 ||| o.toNat) (m + 8) (Nat.or_lt_two_pow
      (by rw [Nat.shiftLeft_eq, pow_add]; exact Nat.mul_lt_mul_of_pos_right h (by decide))
      (o.toNat_lt.trans_le (Nat.pow_le_pow_right (by decide) (by omega))))
    rwa [show m + 8 + 8 * l.length = m + 8 * (o :: l).length by rw [List.length_cons]; ring] at this

/-- Filling reads octets in behind what the window holds: nothing is lost, and
    either no octet is left or no whole one fits. -/
structure Filled (b b' : Bits) : Prop where
  wf : b'.WF
  rest : b'.rest = b.rest
  full : 56 < b'.held ∨ b'.input = []

theorem filled_octets (octets : Octets) {a held : ℕ} (ha : a < 2 ^ held) (h : held ≤ 64) :
    Filled ⟨octets, a <<< (64 - held), held⟩ (fillOctets octets (a <<< (64 - held)) held) := by
  induction octets generalizing a held with
  | nil => exact ⟨⟨shiftLeft_lt ha h, h⟩, rfl, .inr rfl⟩
  | cons o l ih =>
    rw [fillOctets]
    split_ifs with hh
    · have ho : a <<< (64 - held) ||| o.toNat <<< (56 - held) =
          (a <<< 8 ||| o.toNat) <<< (64 - (held + 8)) := by
        rw [show 64 - (held + 8) = 56 - held by omega, Nat.shiftLeft_or_distrib, ← Nat.shiftLeft_add,
          show 8 + (56 - held) = 64 - held by omega]
      have hlt : a <<< 8 ||| o.toNat < 2 ^ (held + 8) := Nat.or_lt_two_pow
        (by rw [Nat.shiftLeft_eq, pow_add]; exact Nat.mul_lt_mul_of_pos_right ha (by decide))
        (o.toNat_lt.trans_le (Nat.pow_le_pow_right (by decide) (by omega)))
      rw [ho]
      obtain ⟨hwf, hrest, hfull⟩ := ih hlt (by omega)
      refine ⟨hwf, hrest.trans ?_, hfull⟩
      simp only [Bits.rest, front, Nat.shiftLeft_shiftRight]
      rw [msb_append o.toNat_lt, bits_cons, List.append_assoc]
    · exact ⟨⟨shiftLeft_lt ha h, h⟩, rfl, .inl (by simpa using hh)⟩

theorem filled_fill (h : b.WF) : Filled b b.fill := by
  rw [fill]
  split_ifs with hh
  · rw [and_mask h]
    set n := 64 - b.held with hn
    set taken := n / 8 with htaken
    have hlen : (b.input.take 8).length = 8 := by
      rw [List.length_take]
      omega
    have hX : fromBe (b.input.take 8) < 2 ^ 64 := by
      have := foldl_lt (b.input.take 8) 0 0 (by decide)
      rwa [hlen] at this
    have hbits : msb 64 (fromBe (b.input.take 8)) = Huffman.bits (b.input.take 8) := by
      have := fromBe_foldl (b.input.take 8) 0 0
      rwa [hlen] at this
    have hlt : fromBe (b.input.take 8) >>> b.held < 2 ^ n := by
      rw [Nat.shiftRight_eq_div_pow]
      refine Nat.div_lt_of_lt_mul (hX.trans_le (le_of_eq ?_))
      rw [← pow_add]
      congr 1
      omega
    have hwf : WF ⟨b.input.drop taken, b.front <<< n ||| fromBe (b.input.take 8) >>> b.held,
        b.held + taken * 8⟩ := by
      refine ⟨Nat.or_lt_two_pow (shiftLeft_lt (front_lt h) h.held_le)
        (hlt.trans_le (Nat.pow_le_pow_right (by decide) (by omega))), ?_⟩
      show b.held + taken * 8 ≤ 64
      omega
    refine ⟨hwf, ?_, .inl (by show 56 < b.held + taken * 8; omega)⟩
    rw [Bits.rest, Bits.rest, msb_front hwf]
    have hspell : msb 64 (b.front <<< n ||| fromBe (b.input.take 8) >>> b.held) =
        msb b.held b.front ++ (Huffman.bits (b.input.take 8)).take n := by
      rw [← hbits, msb_take (by omega), show 64 - n = b.held by omega, ← msb_append hlt]
      congr 1
      omega
    show (msb 64 (b.front <<< n ||| fromBe (b.input.take 8) >>> b.held)).take (b.held + taken * 8) ++
        Huffman.bits (b.input.drop taken) = _
    rw [hspell, show b.held + taken * 8 = (msb b.held b.front).length + 8 * taken by
      rw [length_msb]; ring, List.take_length_add_append, List.take_take, min_eq_left (by omega),
      take_bits, List.take_take, min_eq_left (by omega), List.append_assoc, ← bits_append,
      List.take_append_drop]
  · rw [and_mask h]
    have := filled_octets b.input (front_lt h) h.held_le
    refine ⟨this.wf, this.rest.trans ?_, this.full⟩
    simp only [Bits.rest, front, Nat.shiftLeft_shiftRight]

theorem take_wf (h : b.WF) (l : ℕ) : (b.take l).WF :=
  ⟨Nat.mod_lt _ (Nat.two_pow_pos 64), (Nat.sub_le _ _).trans h.held_le⟩

/-- Taking drops bits from the front. -/
theorem rest_take (h : b.WF) {l : ℕ} (hl : l ≤ b.held) : (b.take l).rest = b.rest.drop l := by
  have hheld := h.held_le
  rw [rest, rest, List.drop_append_of_le_length (by rw [length_msb]; exact hl), msb_drop hl]
  congr 1
  refine msb_congr fun i hi => ?_
  have hi : i < b.held - l := hi
  simp only [front, take]
  rw [Nat.testBit_shiftRight, Nat.testBit_shiftRight, Nat.testBit_mod_two_pow, Nat.testBit_shiftLeft,
    decide_eq_true (show 64 - (b.held - l) + i < 64 by omega),
    decide_eq_true (show 64 - (b.held - l) + i ≥ l by omega), Bool.true_and, Bool.true_and]
  congr 1
  omega

end Bits

/-! ## Padding -/

/-- Valid padding: fewer than eight bits, all ones. -/
def Padding (pad : List Bool) : Prop := pad.length < 8 ∧ ∀ bit ∈ pad, bit = true

theorem msb_ones (n : ℕ) : msb n (2 ^ n - 1) = List.replicate n true :=
  List.ext_getElem (by simp) fun i hi _ => by
    rw [length_msb] at hi
    rw [getElem_msb, Nat.testBit_two_pow_sub_one, List.getElem_replicate]
    exact decide_eq_true (by omega)

/-- The only word of one-bits alone is the end of a string, which is too long to
    be padding. -/
theorem not_word_prefix_padding {pad : List Bool} (h : Padding pad) (s : Fin 257) :
    ¬ word s <+: pad := by
  intro hs
  have hones : ∀ t, t <+: List.replicate 64 true → (∃ u, t = word u) → t = word end_ := by
    rintro _ ht ⟨u, rfl⟩
    rw [← msb_ones] at ht
    have he : word end_ <+: msb 64 (2 ^ 64 - 1) := by decide +kernel
    rw [Fin.ext (((begins_iff (by decide) u).2 ht).unique ((begins_iff (by decide) end_).2 he)).1]
  have hpad : pad <+: List.replicate 64 true := by
    rw [List.eq_replicate_of_mem h.2]
    exact List.prefix_replicate_iff.2 ⟨by rw [List.length_replicate]; have := h.1; omega, by simp⟩
  have hlen := congrArg List.length (hones _ (hs.trans hpad) ⟨s, rfl⟩)
  have hle := hs.length_le
  have := h.1
  rw [length_word end_, show len end_ = 30 by decide +kernel] at hlen
  omega

/-! ## The decoder -/

/-- What a loop of the decoder does from the window `b`: it writes the symbols
    of the words it takes off the bits and ends as `done` says, or it meets the
    end of a string spelled out. -/
def Outcome (b : Bits) (out : Octets) (seen : UInt8) (done : Bits → Prop) :
    Except DecodeError (Bits × Octets × UInt8) → Prop
  | .ok (b', out', seen') =>
    (∃ l, out' = out ++ l ∧ seen' = l.foldl (· ||| ·) seen ∧
      b.rest = l.flatMap octetWord ++ b'.rest) ∧ b'.WF ∧ done b'
  | .error e => e = .invalidPadding ∧ ∃ l : List UInt8, l.flatMap octetWord ++ word end_ <+: b.rest

namespace Outcome

variable {b b' : Bits} {out : Octets} {seen : UInt8} {done : Bits → Prop}
  {r : Except DecodeError (Bits × Octets × UInt8)}

theorem stop (h : b.WF) (hd : done b) : Outcome b out seen done (.ok (b, out, seen)) :=
  ⟨⟨[], by simp⟩, h, hd⟩

/-- Taking words off first. -/
theorem step {l : List UInt8} (hr : b.rest = l.flatMap octetWord ++ b'.rest)
    (h : Outcome b' (out ++ l) (l.foldl (· ||| ·) seen) done r) : Outcome b out seen done r := by
  match r, h with
  | .ok (_, _, _), ⟨⟨m, ho, hs, hm⟩, hwf, hd⟩ =>
    exact ⟨⟨l ++ m, by rw [ho, List.append_assoc], by rw [hs, List.foldl_append],
      by rw [hr, hm, List.flatMap_append, List.append_assoc]⟩, hwf, hd⟩
  | .error _, ⟨he, m, hm⟩ =>
    exact ⟨he, l ++ m, by
      rw [hr, List.flatMap_append, List.append_assoc]
      exact (List.prefix_append_right_inj _).2 hm⟩

/-- One loop after another. -/
theorem bind {done' : Bits → Prop}
    {f : Bits × Octets × UInt8 → Except DecodeError (Bits × Octets × UInt8)}
    (h : Outcome b out seen done r)
    (hf : ∀ b' out' seen', b'.WF → done b' → Outcome b' out' seen' done' (f (b', out', seen'))) :
    Outcome b out seen done' (r >>= f) := by
  match r, h with
  | .ok (b', out', seen'), ⟨⟨l, ho, hs, hl⟩, hwf, hd⟩ =>
    subst ho hs
    exact step hl (hf _ _ _ hwf hd)
  | .error _, ⟨he, l, hl⟩ => exact ⟨he, l, hl⟩

/-- The same bits, differently split between window and octets. -/
theorem of_rest (hr : b'.rest = b.rest) (h : Outcome b' out seen done r) :
    Outcome b out seen done r := by
  refine step (l := []) (by simpa using hr.symm) ?_
  simpa using h

end Outcome

/-- Taking off what the window begins with. -/
theorem Bits.rest_eq_append {b : Bits} (h : b.WF) {p : List Bool} (hp : p <+: msb 64 b.window)
    (hn : p.length ≤ b.held) : b.rest = p ++ (b.take p.length).rest := by
  have hrest : p <+: b.rest := by
    rw [rest, msb_front h]
    refine (List.prefix_of_prefix_length_le hp (List.take_prefix b.held _) ?_).trans
      (List.prefix_append _ _)
    rw [List.length_take, length_msb]
    exact le_min hn (hn.trans h.held_le)
  obtain ⟨t, ht⟩ := hrest
  rw [rest_take h hn, ← ht, List.drop_left]

/-- One symbol, taken off or refused as the end of a string. -/
theorem outcome_symbol {b : Bits} {out : Octets} {seen : UInt8} {done : Bits → Prop} (h : b.WF)
    {s n : ℕ} (hb : Begins b.window s n) (hn : n ≤ b.held)
    {r : Except DecodeError (Bits × Octets × UInt8)}
    (hr : Outcome (b.take n) (out ++ [UInt8.ofNat s]) (seen ||| UInt8.ofNat s) done r) :
    Outcome b out seen done (if s = EOS then .error .invalidPadding else r) := by
  have hlen : (word ⟨s, hb.symbol_lt⟩).length = n := by rw [length_word, hb.len_eq]
  have hw : word ⟨s, hb.symbol_lt⟩ <+: msb 64 b.window :=
    (begins_iff h.window_lt _).1 (by rw [hb.len_eq]; exact hb)
  have hrest := Bits.rest_eq_append h hw (hlen.trans_le hn)
  rw [hlen] at hrest
  split_ifs with hs
  · refine ⟨rfl, [], ?_⟩
    rw [hrest, show (⟨s, hb.symbol_lt⟩ : Fin 257) = end_ from Fin.ext hs]
    exact List.prefix_append _ _
  · have hlt : s < 256 := by
      have := hb.symbol_lt
      rw [EOS] at hs
      omega
    refine Outcome.step (l := [UInt8.ofNat s]) ?_ hr
    rw [hrest, List.flatMap_singleton, octetWord,
      show octet (UInt8.ofNat s) = ⟨s, hb.symbol_lt⟩ from Fin.ext (by simp [octet, Nat.mod_eq_of_lt hlt])]

theorem foldl_or (l : List UInt8) (seen : UInt8) :
    l.foldl (· ||| ·) seen = seen ||| l.foldl (· ||| ·) 0 := by
  induction l generalizing seen with
  | nil => simp
  | cons o l ih => rw [List.foldl_cons, List.foldl_cons, ih, ih (0 ||| o), UInt8.zero_or, UInt8.or_assoc]

theorem words_spec (fuel : ℕ) {b : Bits} (out : Octets) (seen : UInt8) (h : b.WF)
    (hf : b.held < MAX_BITS + 5 * fuel) :
    Outcome b out seen (fun b' => b'.held < MAX_BITS ∧ b'.input = b.input) (words fuel b out seen) := by
  induction fuel generalizing b out seen with
  | zero => exact .stop h ⟨hf, rfl⟩
  | succ fuel ih =>
    rw [words]
    by_cases hheld : b.held < MAX_BITS
    · rw [if_pos hheld]
      exact .stop h ⟨hheld, rfl⟩
    rw [if_neg hheld]
    rw [MAX_BITS] at hheld hf
    -- Every word is at least five bits, which is what the fuel counts down.
    have next : ∀ n, 5 ≤ n → ∀ out seen, Outcome (b.take n) out seen
        (fun b' => b'.held < MAX_BITS ∧ b'.input = b.input) (words fuel (b.take n) out seen) :=
      fun n hn out seen => ih out seen (Bits.take_wf h n) (by
        show b.held - n < MAX_BITS + _
        rw [MAX_BITS]
        omega)
    generalize he : canonical.pairs.getD (b.window >>> (64 - PAIR_BITS)) 0 = entry
    rcases Canonical.pairs_spec h.window_lt he with
      ⟨hzero, hshort⟩ | ⟨l, hpos, hle, hlen, hlead, hl, hseen, -⟩
    · have hb := Canonical.begins_long h.window_lt hshort
      have hbound := hb.length_bounds
      simp only [hzero, if_true]
      exact outcome_symbol h hb (by omega) (next _ hbound.1 _ _)
    · rw [PAIR_BITS] at hle
      have hrest := Bits.rest_eq_append h hlead (by omega)
      simp only [if_neg (show entry % 2 ^ 8 ≠ 0 by omega), hl, hseen]
      rw [← foldl_or, hlen]
      exact Outcome.step hrest (next _ (by omega) _ _)

/-- Everything is read in, and no whole word is left for sure. -/
theorem windows_spec (fuel : ℕ) {b : Bits} (out : Octets) (seen : UInt8) (h : b.WF)
    (hheld : b.held < MAX_BITS) (hf : b.input.length < fuel) :
    Outcome b out seen (fun b' => b'.held < MAX_BITS ∧ b'.input = []) (windows fuel b out seen) := by
  induction fuel generalizing b out seen with
  | zero => omega
  | succ fuel ih =>
    obtain ⟨hwf, hrest, hfull⟩ := Bits.filled_fill h
    have hw := words_spec 64 out seen hwf (by have := hwf.held_le; rw [MAX_BITS]; omega)
    refine .of_rest hrest (hw.bind fun b₁ out₁ seen₁ hwf₁ ⟨hheld₁, hin₁⟩ => ?_)
    show Outcome _ _ _ _ (if b₁.input.isEmpty then _ else _)
    split_ifs with hempty
    · exact .stop hwf₁ ⟨hheld₁, List.isEmpty_iff.1 hempty⟩
    · have hlt : b.fill.input.length < b.input.length := by
        have := congrArg List.length hrest
        rw [Bits.length_rest, Bits.length_rest] at this
        rcases hfull with hfull | hfull
        · rw [MAX_BITS] at hheld
          omega
        · rw [hin₁, hfull] at hempty
          exact absurd rfl hempty
      exact ih _ _ hwf₁ hheld₁ (by rw [hin₁]; omega)

namespace Bits

variable {b : Bits}

theorem rest_of_input (hin : b.input = []) : b.rest = msb b.held b.front := by
  rw [rest, hin, bits_nil, List.append_nil]

theorem padded_lt (h : b.WF) : b.padded < 2 ^ 64 :=
  Nat.or_lt_two_pow h.window_lt (by
    rw [past]
    split_ifs
    · exact (Nat.shiftRight_le _ _).trans_lt (by decide)
    · decide)

/-- Padding leaves what the window holds as it is. -/
theorem shiftRight_padded (h : b.WF) {n : ℕ} (hn : n ≤ b.held) :
    b.window >>> (64 - n) = b.padded >>> (64 - n) := by
  have hle := h.held_le
  refine Nat.eq_of_testBit_eq fun i => ?_
  rw [padded, Nat.testBit_shiftRight, Nat.testBit_shiftRight, Nat.testBit_or, testBit_past hle,
    decide_eq_false (by omega), Bool.or_false]

/-- The padded window is what it holds and then ones. -/
theorem msb_padded (h : b.WF) :
    msb 64 b.padded = msb b.held b.front ++ List.replicate (64 - b.held) true := by
  have hle := h.held_le
  rw [show 64 = b.held + (64 - b.held) by omega, msb_add, ← show 64 = b.held + (64 - b.held) by omega,
    ← msb_ones]
  congr 1
  · rw [front, shiftRight_padded h le_rfl]
  · refine msb_congr fun i hi => ?_
    rw [padded, Nat.testBit_or, testBit_past hle, Nat.testBit_two_pow_sub_one, decide_eq_true hi,
      Bool.or_true]

theorem mask_eq (h : b.WF) : b.mask = (2 ^ b.held - 1) <<< (64 - b.held) := by
  have hle := h.held_le
  refine Nat.eq_of_testBit_eq fun i => ?_
  rw [mask, Nat.testBit_xor, testBit_past hle, Nat.testBit_two_pow_sub_one, Nat.testBit_shiftLeft,
    Nat.testBit_two_pow_sub_one, Bool.eq_iff_iff, Bool.xor_iff_ne, Bool.and_eq_true, ne_eq,
    decide_eq_decide, decide_eq_true_iff, decide_eq_true_iff]
  omega

/-- What is left is taken for padding exactly where it is. -/
theorem isPadding_iff (h : b.WF) (hin : b.input = []) : b.isPadding = true ↔ Padding b.rest := by
  rw [rest_of_input hin, Padding, length_msb, isPadding, Bool.and_eq_true, decide_eq_true_iff,
    beq_iff_eq, and_mask h, mask_eq h]
  refine and_congr_right fun _ => ?_
  have hones : msb b.held b.front = List.replicate b.held true ↔ ∀ bit ∈ msb b.held b.front, bit = true := by
    rw [List.eq_replicate_iff, and_iff_right (length_msb _ _)]
  rw [← hones, ← msb_ones]
  constructor
  · intro he
    have := congrArg (· >>> (64 - b.held)) he
    simp only [Nat.shiftLeft_shiftRight] at this
    rw [this]
  · intro he
    have := msb_inj he
    rw [Nat.mod_eq_of_lt (front_lt h), Nat.mod_eq_of_lt (Nat.sub_lt (Nat.two_pow_pos _) one_pos)] at this
    rw [this]

end Bits

/-- What is left can be read no further: it is padding, or no word begins it. -/
theorem ending_spec (fuel : ℕ) {b : Bits} (out : Octets) (seen : UInt8) (h : b.WF)
    (hin : b.input = []) (hf : b.held < fuel) :
    Outcome b out seen (fun b' => b'.input = [] ∧ (Padding b'.rest ∨ ∀ s, ¬ word s <+: b'.rest))
      (ending fuel b out seen) := by
  induction fuel generalizing b out seen with
  | zero => omega
  | succ fuel ih =>
    rw [ending]
    by_cases hpad : b.isPadding = true
    · rw [if_pos hpad]
      exact .stop h ⟨hin, .inl ((Bits.isPadding_iff h hin).1 hpad)⟩
    rw [if_neg hpad]
    have hb := Canonical.begins_symbol (Bits.padded_lt h)
    have hbound := hb.length_bounds
    have hsplit := Bits.msb_padded h
    rw [← Bits.rest_of_input hin] at hsplit
    show Outcome _ _ _ _ (if b.held < (canonical.symbol b.padded).2 then _ else _)
    by_cases hheld : b.held < (canonical.symbol b.padded).2
    · rw [if_pos hheld]
      refine .stop h ⟨hin, .inr fun s hs => ?_⟩
      -- Such a word would begin the padded window, so it is the one found there.
      have hs64 : word s <+: msb 64 b.padded := hsplit ▸ hs.trans (List.prefix_append _ _)
      have := (((begins_iff (Bits.padded_lt h) s).2 hs64).unique hb).2
      have hle := hs.length_le
      rw [Bits.length_rest, hin, length_word] at hle
      simp only [List.length_nil] at hle
      omega
    · rw [if_neg hheld]
      rw [not_lt] at hheld
      refine outcome_symbol h (hb.congr (Bits.shiftRight_padded h hheld)) hheld
        (ih _ _ (Bits.take_wf h _) hin ?_)
      show b.held - _ < fuel
      omega

theorem and_high_iff (o : UInt8) : o &&& 0x80 = 0 ↔ o < 0x80 := by
  rw [← UInt8.toNat_inj, UInt8.lt_iff_toNat_lt, UInt8.toNat_and]
  have := o.toNat_lt
  show o.toNat &&& 2 ^ 7 = 0 ↔ o.toNat < 128
  rw [Nat.and_two_pow]
  grind

/-- Octets are ASCII exactly where none of them has its high bit set. -/
theorem foldl_or_and (l : Octets) (seen : UInt8) :
    l.foldl (· ||| ·) seen &&& 0x80 = 0 ↔ seen &&& 0x80 = 0 ∧ isAscii l = true := by
  induction l generalizing seen with
  | nil => simp [isAscii]
  | cons o l ih =>
    have hor : (seen ||| o) &&& 0x80 = seen &&& 0x80 ||| o &&& 0x80 :=
      UInt8.toBitVec_inj.1 BitVec.and_or_distrib_right
    rw [List.foldl_cons, ih, hor, UInt8.or_eq_zero_iff, and_high_iff o, and_assoc]
    simp [isAscii]

/-- The bits are the code words of the octets, and then padding. -/
abbrev Spells (out : Octets) (bits : List Bool) : Prop := Spelled octetWord Padding out bits

theorem spells_append {m out : Octets} {r : List Bool} :
    Spells out (m.flatMap octetWord ++ r) ↔ ∃ l, out = m ++ l ∧ Spells l r := by
  induction m generalizing out with
  | nil => simp
  | cons o m ih =>
    rw [List.flatMap_cons, List.append_assoc, Spells,
      spelled_append free_octetWord fun pad hp => not_word_prefix_padding hp (octet o)]
    constructor
    · rintro ⟨k, rfl, hk⟩
      obtain ⟨l, rfl, hl⟩ := ih.1 hk
      exact ⟨l, rfl, hl⟩
    · rintro ⟨l, rfl, hl⟩
      exact ⟨m ++ l, rfl, ih.2 ⟨l, rfl, hl⟩⟩

/-- Bits that begin with the end of a string spell nothing. -/
theorem not_spells_end {out : Octets} {bits : List Bool} (h : word end_ <+: bits) :
    ¬ Spells out bits := by
  refine not_spelled (fun hpad => not_word_prefix_padding hpad _ h) fun o ho => octet_ne_end o ?_
  rcases List.prefix_or_prefix_of_prefix ho h with ho | ho
  · exact free _ _ ho
  · exact (free _ _ ho).symm

/-- Padding alone spells nothing at all. -/
theorem spells_padding {out : Octets} {pad : List Bool} (h : Padding pad) :
    Spells out pad ↔ out = [] := by
  constructor
  · rintro ⟨r, -, rfl⟩
    cases out with
    | nil => rfl
    | cons o l => exact absurd (by simp [octetWord]) (not_word_prefix_padding h (octet o))
  · rintro rfl
    exact ⟨pad, h, rfl⟩

/-- What is left where the decoder stops. -/
theorem decode_spec (input : Octets) :
    Outcome (.new input) [] 0 (fun b => b.input = [] ∧ (Padding b.rest ∨ ∀ s, ¬ word s <+: b.rest))
      (windows (input.length + 1) (.new input) [] 0 >>= fun (b, out, seen) => ending 64 b out seen) :=
  (windows_spec _ [] 0 ⟨Nat.two_pow_pos 64, Nat.zero_le 64⟩ (by simp [Bits.new, MAX_BITS])
    (Nat.lt_succ_self _)).bind fun _ _ _ hwf ⟨hheld, hin⟩ =>
      ending_spec 64 _ _ hwf hin (hheld.trans (by decide))

/-- The decoder accepts exactly the octets whose bits are code words and then
    padding, and gives their symbols. -/
theorem decodeIntoAscii_iff (input out : Octets) (ascii : Bool) :
    decodeIntoAscii input = .ok (out, ascii) ↔ Spells out (bits input) ∧ ascii = isAscii out := by
  have hrest : (Bits.new input).rest = bits input := rfl
  have hsplit : decodeIntoAscii input =
      (windows (input.length + 1) (.new input) [] 0 >>= fun (b, out, seen) => ending 64 b out seen)
        >>= fun (b, out, seen) =>
          if b.isPadding then .ok (out, decide (seen &&& 0x80 = 0)) else .error .invalidPadding := by
    unfold decodeIntoAscii
    rw [bind_assoc]
  rw [hsplit]
  match (windows (input.length + 1) (.new input) [] 0 >>= fun (b, out, seen) => ending 64 b out seen),
    decode_spec input with
  | .error e, ⟨_, m, r, hr⟩ =>
    refine iff_of_false (fun h => by cases h) fun h => ?_
    rw [← hrest, ← hr, List.append_assoc, spells_append] at h
    obtain ⟨⟨l, -, hl⟩, -⟩ := h
    exact not_spells_end (List.prefix_append _ _) hl
  | .ok (b, out', seen), ⟨⟨l, ho, hs, hl⟩, hwf, hin, hleft⟩ =>
    show (if b.isPadding then _ else _) = _ ↔ _
    have hascii : (decide (seen &&& 0x80 = 0)) = isAscii out' := by
      rw [hs, ho, List.nil_append, Bool.eq_iff_iff, decide_eq_true_iff, foldl_or_and]
      simp
    rw [hascii, ← hrest, hl, spells_append]
    by_cases hpad : Padding b.rest
    · rw [if_pos ((Bits.isPadding_iff hwf hin).2 hpad), Except.ok.injEq, Prod.mk.injEq, ho]
      simp only [spells_padding hpad]
      constructor
      · rintro ⟨rfl, rfl⟩
        exact ⟨⟨[], by simp, rfl⟩, rfl⟩
      · rintro ⟨⟨_, rfl, rfl⟩, rfl⟩
        simp
    · rw [if_neg (mt (Bits.isPadding_iff hwf hin).1 hpad)]
      refine iff_of_false (fun h => by cases h) ?_
      rintro ⟨⟨k, -, hk⟩, -⟩
      exact not_spelled hpad (fun o => hleft.resolve_left hpad (octet o)) hk

/-! ## Round trip -/

theorem symbolOf_eq (o : UInt8) : symbolOf o = table.getD (octet o).1 ⟨0, 0⟩ := rfl

/-- What is pending spells the words not yet written out. -/
structure Pending.Holds (p : Pending) (l : Octets) : Prop where
  bits_lt : p.bits < 32
  spelled : Huffman.bits p.out ++ msb p.bits p.pending = l.flatMap octetWord

theorem bits_word (word : ℕ) :
    bits [.ofNat (word >>> 24), .ofNat (word >>> 16), .ofNat (word >>> 8), .ofNat word] =
      msb 32 word := by
  simp only [bits_cons, bits_nil, UInt8.toNat_ofNat', msb_mod (m := 8) le_rfl, List.append_nil]
  rw [show 32 = 8 + 24 from rfl, msb_add, show 24 = 8 + 16 from rfl, msb_add 8 16,
    show 16 = 8 + 8 from rfl, msb_add 8 8]

theorem Pending.holds_push {p : Pending} {l : Octets} (h : p.Holds l) (byte : UInt8) :
    (p.push byte).Holds (l ++ [byte]) := by
  have hlen : (symbolOf byte).length = len (octet byte) := rfl
  have hle := (len_bounds (octet byte)).2
  have hcode : (symbolOf byte).code < 2 ^ (symbolOf byte).length := code_lt (octet byte)
  have hmsb : msb (p.bits + (symbolOf byte).length)
      (p.pending <<< (symbolOf byte).length % 2 ^ 64 ||| (symbolOf byte).code) =
        msb p.bits p.pending ++ octetWord byte := by
    have hbits := h.bits_lt
    refine (msb_congr fun i hi => ?_).trans (msb_append (m := p.bits) (a := p.pending) hcode)
    rw [Nat.testBit_or, Nat.testBit_or, Nat.testBit_mod_two_pow, decide_eq_true (by omega),
      Bool.true_and, symbolOf_eq]
  have hall : Huffman.bits p.out ++ msb (p.bits + (symbolOf byte).length)
      (p.pending <<< (symbolOf byte).length % 2 ^ 64 ||| (symbolOf byte).code) =
        (l ++ [byte]).flatMap octetWord := by
    rw [hmsb, ← List.append_assoc, h.spelled, List.flatMap_append, List.flatMap_singleton]
  have hbits := h.bits_lt
  rw [push]
  split_ifs with hw
  · refine ⟨by show p.bits + _ - 32 < 32; omega, ?_⟩
    rw [← hall, bits_append, bits_word, List.append_assoc, ← msb_add]
    congr 2
    omega
  · exact ⟨by simpa using hw, hall⟩

theorem Pending.holds_foldl (input : Octets) {p : Pending} {l : Octets} (h : p.Holds l) :
    (input.foldl push p).Holds (l ++ input) := by
  induction input generalizing p l with
  | nil => simpa using h
  | cons o input ih =>
    have := ih (holds_push h o)
    rwa [List.append_assoc, List.singleton_append] at this

/-- What is left is written out whole, and padded. -/
theorem Pending.finish_spec (pending n : ℕ) :
    ∃ pad, Padding pad ∧ Huffman.bits (finish pending n) = msb n pending ++ pad := by
  induction n using Nat.strong_induction_on with
  | _ n ih =>
    rw [finish]
    split_ifs with h8 h0
    · obtain ⟨pad, hpad, he⟩ := ih (n - 8) (by omega)
      refine ⟨pad, hpad, ?_⟩
      rw [bits_cons, he, UInt8.toNat_ofNat', msb_mod (m := 8) le_rfl, ← List.append_assoc, ← msb_add,
        Nat.add_sub_cancel' h8]
    · refine ⟨List.replicate (8 - n) true, ⟨by rw [List.length_replicate]; omega, by simp⟩, ?_⟩
      rw [bits_cons, bits_nil, List.append_nil, UInt8.toNat_ofNat', msb_mod (m := 8) le_rfl,
        Nat.shiftLeft_eq 1, one_mul]
      have := msb_append (m := n) (n := 8 - n) (a := pending) (b := 2 ^ (8 - n) - 1)
        (Nat.sub_lt (Nat.two_pow_pos _) one_pos)
      rwa [Nat.add_sub_cancel' (by omega), msb_ones] at this
    · obtain rfl : n = 0 := by omega
      exact ⟨[], ⟨by decide, by simp⟩, rfl⟩

/-- What is written is the code words in order, padded. -/
theorem encode_spec (input : Octets) : Spells input (bits (encode input)) := by
  have h := Pending.holds_foldl input (p := ⟨0, 0, []⟩) (l := []) ⟨by decide, rfl⟩
  obtain ⟨pad, hpad, he⟩ := Pending.finish_spec (input.foldl Pending.push ⟨0, 0, []⟩).pending
    (input.foldl Pending.push ⟨0, 0, []⟩).bits
  exact ⟨pad, hpad, by
    rw [encode, bits_append, he, ← List.append_assoc, h.spelled, List.nil_append]⟩

/-- Decoding undoes encoding. -/
theorem decode_encode (input : Octets) :
    decodeIntoAscii (encode input) = .ok (input, isAscii input) :=
  (decodeIntoAscii_iff _ _ _).2 ⟨encode_spec input, rfl⟩

/-- The length is known before encoding. -/
theorem length_encode (input : Octets) : (encode input).length = encodedLen input := by
  obtain ⟨pad, ⟨hlt, -⟩, he⟩ := encode_spec input
  have h := congrArg List.length he
  rw [length_bits, List.length_append, List.length_flatMap] at h
  have hsum : (input.map fun o => (octetWord o).length) = input.map fun byte => (symbolOf byte).length :=
    List.map_congr_left fun o _ => length_octetWord o
  rw [hsum] at h
  rw [encodedLen]
  omega

end Soyokaze.Huffman

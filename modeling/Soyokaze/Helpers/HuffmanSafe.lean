import Soyokaze.Helpers.Huffman
import Soyokaze.Lib.Buffer
import Soyokaze.Lib.Checked

/-!
# Huffman decoding, in place

The decoder once more, as it writes into the room it reserved: every shift, difference,
index and write is one that answers nothing where it is not allowed.

* `Guarded.long_eq`, `Guarded.fill_eq`, `Guarded.take_eq`: what the steps are allowed on;
* `Kept`: no more octets are written than a fifth of the bits taken, which the room was
  reserved for;
* `decoding_safe`: no step is ever refused, and the output gains what is decoded.
-/

namespace Soyokaze.Huffman

/-- What ends the decoder early: a step that is not allowed, or an encoding that is not
    accepted, with what the output is left with. -/
inductive Stop
  | fault
  | refused (e : DecodeError) (out : Octets)

/-- Goes on with what a step answers, if it is allowed. -/
def safely {α : Type} (x : Option α) : Except Stop α := x.elim (.error .fault) .ok

@[simp] theorem safely_some {α : Type} (a : α) : safely (some a) = .ok a := rfl

/-- The cells of the output. -/
abbrev Cells := List (Option UInt8)

namespace Guarded

/-- The first length from `length` on whose code words reach up to the window. -/
def settle (window length : ℕ) : Option ℕ :=
  if length < MAX_BITS then
    canonical.limit[length]?.bind fun limit =>
      if limit < window then settle window (length + 1) else some length
  else some length
termination_by MAX_BITS - length

/-- `Canonical::long`. -/
def long (window : ℕ) : Option (ℕ × ℕ) := do
  let length ← settle window (FAST_BITS + 1)
  let down ← Checked.sub 64 length
  let code ← Checked.shiftRight 64 window down
  let offset ← canonical.offset[length]?
  let base ← canonical.base[length]?
  let past ← Checked.sub code base
  let symbol ← canonical.symbols[offset + past]?
  some (symbol, length)

/-- `Canonical::symbol`. -/
def symbol (window : ℕ) : Option (ℕ × ℕ) := do
  let index ← Checked.shiftRight 64 window (64 - FAST_BITS)
  let entry ← canonical.fast[index]?
  if entry &&& 0xff = 0 then long window else some (entry >>> 8, entry &&& 0xff)

/-- The entry of `pairs` for the first bits of the window. -/
def pair (window : ℕ) : Option ℕ := do
  let index ← Checked.shiftRight 64 window (64 - PAIR_BITS)
  canonical.pairs[index]?

/-- Reads octets in one at a time until the window cannot hold another. -/
def fillOctets : Octets → (window held : ℕ) → Option Bits
  | [], window, held => some ⟨[], window, held⟩
  | octet :: rest, window, held =>
    if held ≤ 64 - 8 then do
      let up ← Checked.sub (64 - 8) held
      let read ← Checked.shiftLeft 64 octet.toNat up
      fillOctets rest (window ||| read) (held + 8)
    else some ⟨octet :: rest, window, held⟩

/-- `Bits::fill`. -/
def fill (b : Bits) : Option Bits :=
  let window := b.window &&& b.mask
  if 8 ≤ b.input.length ∧ b.held ≤ 64 - 8 then do
    let room ← Checked.sub 64 b.held
    let taken := room / 8
    let read ← Checked.shiftRight 64 (Bits.fromBe (b.input.take 8)) b.held
    if taken ≤ b.input.length then some ⟨b.input.drop taken, window ||| read, b.held + taken * 8⟩ else none
  else fillOctets b.input window b.held

/-- `Bits::take`. -/
def take (b : Bits) (length : ℕ) : Option Bits := do
  let held ← Checked.sub b.held length
  let window ← Checked.shiftLeft 64 b.window length
  some { b with window := window, held := held }

/-- Sets the length of the output and refuses the encoding. -/
def refuse {α : Type} (cells : Cells) (length : ℕ) (e : DecodeError) : Except Stop α := do
  let out ← safely (Buffer.contents cells length)
  .error (.refused e out)

/-- Takes code words off the window while it is sure to hold a whole one. -/
def words (start : ℕ) : ℕ → Bits → Cells → (written : ℕ) → UInt8 → Except Stop (Bits × Cells × ℕ × UInt8)
  | 0, _, _, _, _ => .error .fault
  | fuel + 1, b, cells, written, seen =>
    if b.held < MAX_BITS then .ok (b, cells, written, seen)
    else do
      let entry ← safely (pair b.window)
      if entry % 2 ^ 8 = 0 then
        let (symbol, length) ← safely (long b.window)
        if symbol = EOS then refuse cells (start + written) .invalidPadding
        else
          let cells ← safely (Buffer.write cells (start + written) [UInt8.ofNat symbol])
          let b ← safely (take b length)
          words start fuel b cells (written + 1) (seen ||| UInt8.ofNat symbol)
      else
        let first := UInt8.ofNat (entry >>> 16)
        let second := UInt8.ofNat (entry >>> 24)
        let cells ← safely (Buffer.write cells (start + written) [first, second])
        let b ← safely (take b (entry % 2 ^ 8))
        words start fuel b cells (written + entry >>> 8 % 2 ^ 8) (seen ||| (first ||| second))

/-- Reads the octets in, a window at a time. -/
def windows (start : ℕ) : ℕ → Bits → Cells → (written : ℕ) → UInt8 → Except Stop (Bits × Cells × ℕ × UInt8)
  | 0, _, _, _, _ => .error .fault
  | fuel + 1, b, cells, written, seen => do
    let b ← safely (fill b)
    let (b, cells, written, seen) ← words start 64 b cells written seen
    if b.input.isEmpty then .ok (b, cells, written, seen) else windows start fuel b cells written seen

/-- Takes the code words the last bits really hold, reading them against the padding. -/
def ending (start : ℕ) : ℕ → Bits → Cells → (written : ℕ) → UInt8 → Except Stop (Bits × Cells × ℕ × UInt8)
  | 0, _, _, _, _ => .error .fault
  | fuel + 1, b, cells, written, seen =>
    if b.isPadding then .ok (b, cells, written, seen)
    else do
      let (symbol, length) ← safely (symbol b.padded)
      if b.held < length then .ok (b, cells, written, seen)
      else if symbol = EOS then refuse cells (start + written) .invalidPadding
      else
        let cells ← safely (Buffer.write cells (start + written) [UInt8.ofNat symbol])
        let b ← safely (take b length)
        ending start fuel b cells (written + 1) (seen ||| UInt8.ofNat symbol)

/-- How much room is reserved behind what the output holds: no code word is shorter than
    five bits, and both octets of a pair are written whether it is one or two. -/
def reserved (input : Octets) : ℕ := input.length * 8 / 5 + PAIR_MOST

/-- Decodes a Huffman string behind what the output holds, which `reserve` gave room for
    `reserved input` octets more, or for some more than that. -/
def decodeIntoAscii (input out : Octets) (spare : ℕ) : Except Stop (Octets × Bool) := do
  let cells := Buffer.new out (reserved input + spare)
  let (b, cells, written, seen) ← windows out.length (input.length + 1) (.new input) cells 0 0
  let (b, cells, written, seen) ← ending out.length 64 b cells written seen
  if b.isPadding then
    let out ← safely (Buffer.contents cells (out.length + written))
    .ok (out, seen &&& 0x80 = 0)
  else refuse cells (out.length + written) .invalidPadding

/-! ## What the tables hold -/

theorem length_symbols : canonical.symbols.length = 257 := by
  unfold canonical Canonical.new sorted
  refine List.foldlRecOn (motive := fun s : List ℕ × List ℕ => s.1.length = 257) _ _ (List.length_replicate ..) ?_
  exact fun s hs _ _ => (List.length_set ..).trans hs

theorem length_levels :
    canonical.limit.length = 31 ∧ canonical.base.length = 31 ∧ canonical.offset.length = 31 := by
  unfold canonical Canonical.new Levels.new
  refine List.foldlRecOn (motive := fun levels : Levels =>
    levels.limit.length = 31 ∧ levels.base.length = 31 ∧ levels.offset.length = 31) _ _ ?_ fun levels h length _ => ?_
  · simp [MAX_BITS]
  · simpa [Levels.extend] using h

/-- What is in range is there. -/
theorem getElem?_getD {α : Type} {l : List α} {i : ℕ} (h : i < l.length) (a : α) : l[i]? = some (l.getD i a) := by
  rw [List.getD_eq_getElem?_getD, List.getElem?_eq_getElem h]
  rfl

/-- The number of a code word is the place of a symbol: past the last place there would be
    the first symbol alone, which has a place before that. -/
theorem place_lt {l k : ℕ} (h5 : 5 ≤ l) (h30 : l ≤ 30) (hk : k < width l) : canonical.offset.getD l 0 + k < 257 := by
  by_contra hge
  have hnone : canonical.symbols.getD (canonical.offset.getD l 0 + k) 0 = 0 := by
    rw [List.getD_eq_getElem?_getD, List.getElem?_eq_none (length_symbols.trans_le (Nat.le_of_not_lt hge))]
    rfl
  have hfirst : table.getD 0 ⟨0, 0⟩ = ⟨0x1ff8, 13⟩ := by decide +kernel
  have hplace : canonical.offset.getD 13 0 + (0x1ff8 - first 13) < 257 := by decide +kernel
  have hentry := (table_symbols h5 h30 hk).1
  rw [hnone, hfirst, Symbol.mk.injEq] at hentry
  obtain ⟨hcode, rfl⟩ := hentry
  rw [hcode, Nat.add_sub_cancel_left] at hplace
  exact hge hplace

/-! ## What is allowed -/

theorem settle_eq {w a : ℕ} (ha : a ≤ 30) : settle w a = some (canonical.settle w a) := by
  rw [settle, Canonical.settle, getElem?_getD (length_levels.1 ▸ Nat.lt_succ_of_le ha) 0, Option.bind_some]
  by_cases hlt : a < MAX_BITS
  · by_cases hmore : canonical.limit.getD a 0 < w
    · rw [if_pos hlt, if_pos hmore, if_pos ⟨hlt, hmore⟩]
      exact settle_eq hlt
    · rw [if_pos hlt, if_neg hmore, if_neg fun h => hmore h.2]
  · rw [if_neg hlt, if_neg fun h => hlt h.1]
termination_by 30 - a
decreasing_by
  rw [MAX_BITS] at hlt
  omega

/-- Where no short word begins the window, a longer one is looked up in range. -/
theorem long_eq {w : ℕ} (hw : w < 2 ^ 64) (h : canonical.short w &&& 0xff = 0) : long w = some (canonical.long w) := by
  obtain ⟨hle, h30, hcov, hmin⟩ :=
    Canonical.settle_spec (a := FAST_BITS + 1) hw (by decide) (.inr (Canonical.reach_lt_of_short hw h))
  rw [long, settle_eq (by decide), Canonical.long]
  generalize canonical.settle w (FAST_BITS + 1) = length at *
  have h5 : 5 ≤ length := (by decide : 5 ≤ FAST_BITS + 1).trans hle
  obtain ⟨hlo, hhi⟩ := covered_iff (w := w) h5 h30
  have hlo := hlo.2 hmin
  have hplace := place_lt h5 h30 (Nat.sub_lt_left_of_lt_add hlo (hhi.2 hcov))
  have hlevel : length < 31 := Nat.lt_succ_of_le h30
  simp only [Option.bind_eq_bind, Option.bind_some, Checked.sub_of_le (h30.trans (by decide : 30 ≤ 64)),
    Checked.shiftRight_of_lt (show 64 - length < 64 by omega), getElem?_getD (length_levels.2.2.symm ▸ hlevel) 0,
    getElem?_getD (length_levels.2.1.symm ▸ hlevel) 0, Checked.sub_of_le hlo,
    getElem?_getD (length_symbols.symm ▸ hplace) 0]
  rfl

theorem symbol_eq {w : ℕ} (hw : w < 2 ^ 64) : symbol w = some (canonical.symbol w) := by
  have hindex := Canonical.shiftRight_fast hw
  rw [symbol, Canonical.symbol, Canonical.short, Checked.shiftRight_of_lt (by decide)]
  simp only [Option.bind_eq_bind, Option.bind_some, getElem?_getD (length_fast.symm ▸ hindex) 0]
  split_ifs with h
  · exact long_eq hw h
  · rfl

theorem pair_eq {w : ℕ} (hw : w < 2 ^ 64) : pair w = some (canonical.pairs.getD (w >>> (64 - PAIR_BITS)) 0) := by
  have hindex : w >>> (64 - PAIR_BITS) < canonical.pairs.length := by
    rw [Canonical.pairs, List.length_map, List.length_range, Nat.shiftRight_eq_div_pow, PAIR_BITS]
    omega
  rw [pair, Checked.shiftRight_of_lt (by decide), Option.bind_eq_bind, Option.bind_some, getElem?_getD hindex 0]

theorem fillOctets_eq (octets : Octets) (window held : ℕ) :
    fillOctets octets window held = some (Bits.fillOctets octets window held) := by
  induction octets generalizing window held with
  | nil => rfl
  | cons o octets ih =>
    rw [fillOctets, Bits.fillOctets]
    split_ifs with h
    · have hup : 56 - held < 64 := by omega
      have hread : o.toNat <<< (56 - held) % 2 ^ 64 = o.toNat <<< (56 - held) := by
        refine Nat.mod_eq_of_lt (lt_of_lt_of_le ?_ (Nat.pow_le_pow_right (by decide) (by omega : 8 + (56 - held) ≤ 64)))
        rw [Nat.shiftLeft_eq, pow_add]
        exact Nat.mul_lt_mul_of_pos_right o.toNat_lt (Nat.two_pow_pos _)
      simp only [Option.bind_eq_bind, Checked.sub_of_le h, Option.bind_some, Checked.shiftLeft_of_lt hup, hread]
      exact ih _ _
    · rfl

theorem fill_eq (b : Bits) : fill b = some b.fill := by
  rw [fill, Bits.fill]
  split_ifs with h
  · have hheld : b.held < 64 := by omega
    have htaken : (64 - b.held) / 8 ≤ b.input.length := by omega
    simp only [Option.bind_eq_bind, Checked.sub_of_le hheld.le, Option.bind_some, Checked.shiftRight_of_lt hheld,
      if_pos htaken]
  · exact fillOctets_eq ..

/-- No more bits are taken than are held, and not the whole window at once. -/
theorem take_eq {b : Bits} {length : ℕ} (hle : length ≤ b.held) (hlt : length < 64) :
    take b length = some (b.take length) := by
  rw [take, Checked.sub_of_le hle, Checked.shiftLeft_of_lt hlt]
  rfl

end Guarded

/-! ## The run -/

section Run

variable {input prior out : Octets} {b : Bits} {cells : Cells}

/-- The output holds what it held before and what is decoded, which took five bits of the
    input an octet; and it keeps the room that was reserved. -/
structure Kept (input prior : Octets) (b : Bits) (out : Octets) (cells : Cells) : Prop where
  wf : b.WF
  holds : Buffer.Holds cells (prior ++ out)
  room : prior.length + Guarded.reserved input ≤ cells.length
  paid : 5 * out.length + b.rest.length ≤ 8 * input.length

theorem Kept.contents (h : Kept input prior b out cells) :
    Buffer.contents cells (prior.length + out.length) = some (prior ++ out) := by
  rw [← List.length_append]
  exact h.holds.contents

theorem Kept.refuse (h : Kept input prior b out cells) {α : Type} (e : DecodeError) :
    (Guarded.refuse cells (prior.length + out.length) e : Except Stop α) = .error (.refused e (prior ++ out)) := by
  rw [Guarded.refuse, h.contents]
  rfl

/-- Octets are written and as many of them counted as the bits taken off pay for. -/
theorem Kept.write (h : Kept input prior b out cells) {n : ℕ} (hn : n ≤ b.held) (octets : Octets) {k : ℕ}
    (hk : k ≤ octets.length) (hpay : 5 * k ≤ n) (hfit : octets.length ≤ k ∧ 0 < k ∨ octets.length ≤ PAIR_MOST) :
    ∃ cells', Buffer.write cells (prior.length + out.length) octets = some cells' ∧
      Kept input prior (b.take n) (out ++ octets.take k) cells' := by
  have hrest : b.rest.length = n + (b.take n).rest.length := by
    rw [Bits.length_rest, Bits.length_rest]
    show _ = n + (b.held - n + _)
    rw [← Nat.add_assoc, Nat.add_sub_cancel' hn]
    rfl
  have hpaid := h.paid
  have hroom := h.room
  rw [Guarded.reserved] at hroom
  obtain ⟨cells', hwrite, hlen, hholds⟩ := h.holds.write octets (by
    rw [List.length_append]
    omega)
  refine ⟨cells', by rw [← List.length_append, hwrite], Bits.take_wf h.wf n, ?_, hlen ▸ h.room, ?_⟩
  · rw [← List.append_assoc]
    exact hholds k
  · rw [List.length_append, List.length_take, min_eq_left hk]
    omega

/-- The decoder in place does what the decoder does, and leaves the output behind what it
    held. -/
def Mirrors (input prior : Octets) :
    Except DecodeError (Bits × Octets × UInt8) → Except Stop (Bits × Cells × ℕ × UInt8) → Prop
  | .ok (b, out, seen), r => ∃ cells, r = .ok (b, cells, out.length, seen) ∧ Kept input prior b out cells
  | .error e, r => ∃ out, r = .error (.refused e (prior ++ out))

theorem Mirrors.bind {x : Except DecodeError (Bits × Octets × UInt8)} {y : Except Stop (Bits × Cells × ℕ × UInt8)}
    {f : Bits × Octets × UInt8 → Except DecodeError (Bits × Octets × UInt8)}
    {g : Bits × Cells × ℕ × UInt8 → Except Stop (Bits × Cells × ℕ × UInt8)} (h : Mirrors input prior x y)
    (hfg : ∀ b out seen cells, x = .ok (b, out, seen) → Kept input prior b out cells →
      Mirrors input prior (f (b, out, seen)) (g (b, cells, out.length, seen))) :
    Mirrors input prior (x >>= f) (y >>= g) := by
  match x, h with
  | .ok (b, out, seen), ⟨cells, hy, hkept⟩ =>
    subst hy
    exact hfg b out seen cells rfl hkept
  | .error e, ⟨out, hy⟩ =>
    subst hy
    exact ⟨out, rfl⟩

/-- One symbol is written, unless it is the end of a string. -/
theorem mirrors_symbol (h : Kept input prior b out cells) {s n : ℕ} (hb : 5 ≤ n ∧ n ≤ 30) (hn : n ≤ b.held) (seen : UInt8)
    {f : Bits → Octets → UInt8 → Except DecodeError (Bits × Octets × UInt8)}
    {g : Bits → Cells → ℕ → UInt8 → Except Stop (Bits × Cells × ℕ × UInt8)}
    (hfg : ∀ cells, Kept input prior (b.take n) (out ++ [UInt8.ofNat s]) cells →
      Mirrors input prior (f (b.take n) (out ++ [UInt8.ofNat s]) (seen ||| UInt8.ofNat s))
        (g (b.take n) cells (out.length + 1) (seen ||| UInt8.ofNat s))) :
    Mirrors input prior
      (if s = EOS then .error .invalidPadding else f (b.take n) (out ++ [UInt8.ofNat s]) (seen ||| UInt8.ofNat s))
      (if s = EOS then Guarded.refuse cells (prior.length + out.length) .invalidPadding
        else do
          let cells ← safely (Buffer.write cells (prior.length + out.length) [UInt8.ofNat s])
          let b ← safely (Guarded.take b n)
          g b cells (out.length + 1) (seen ||| UInt8.ofNat s)) := by
  split_ifs with hs
  · exact ⟨out, h.refuse _⟩
  · obtain ⟨cells', hwrite, hkept⟩ := h.write hn [UInt8.ofNat s] le_rfl hb.1 (.inl ⟨le_rfl, Nat.one_pos⟩)
    rw [hwrite, Guarded.take_eq hn (hb.2.trans_lt (by decide))]
    exact hfg cells' hkept

/-- No code word is shorter than five bits. -/
theorem five_le_length (l : Octets) : 5 * l.length ≤ (l.flatMap octetWord).length := by
  induction l with
  | nil => exact Nat.le_refl 0
  | cons o l ih =>
    rw [List.flatMap_cons, List.length_append, length_octetWord, List.length_cons]
    have := (len_bounds (octet o)).1
    omega

theorem words_mirrors (fuel : ℕ) (h : Kept input prior b out cells) (seen : UInt8) (hf : b.held < 5 * fuel) :
    Mirrors input prior (words fuel b out seen) (Guarded.words prior.length fuel b cells out.length seen) := by
  induction fuel generalizing b out cells seen with
  | zero => omega
  | succ fuel ih =>
    rw [words, Guarded.words]
    by_cases hheld : b.held < MAX_BITS
    · rw [if_pos hheld, if_pos hheld]
      exact ⟨cells, rfl, h⟩
    rw [if_neg hheld, if_neg hheld, Guarded.pair_eq h.wf.window_lt, safely_some]
    rw [MAX_BITS] at hheld
    generalize he : canonical.pairs.getD (b.window >>> (64 - PAIR_BITS)) 0 = entry
    rcases Canonical.pairs_spec h.wf.window_lt he with ⟨hzero, hshort⟩ | ⟨l, hpos, hle, hlen, -, hl, -, hcount⟩
    · have hbound := (Canonical.begins_long h.wf.window_lt hshort).length_bounds
      show Mirrors _ _ (if entry % 2 ^ 8 = 0 then _ else _) (if entry % 2 ^ 8 = 0 then _ else _)
      rw [if_pos hzero, if_pos hzero, Guarded.long_eq h.wf.window_lt hshort]
      refine mirrors_symbol h hbound (by omega) seen (f := words fuel) (g := Guarded.words prior.length fuel) fun cells' hkept => ?_
      have := ih hkept (seen ||| UInt8.ofNat (canonical.long b.window).1) (by show b.held - _ < _; omega)
      rwa [List.length_append] at this
    · have hne : entry % 2 ^ 8 ≠ 0 := by omega
      rw [PAIR_BITS] at hle
      show Mirrors _ _ (if entry % 2 ^ 8 = 0 then _ else _) (if entry % 2 ^ 8 = 0 then _ else _)
      rw [if_neg hne, if_neg hne]
      -- Both octets are written; one that is not counted is written over.
      have htwo : l.length ≤ 2 := by
        have := congrArg List.length hl
        rw [List.length_take] at this
        exact this.symm.trans_le (min_le_right _ _)
      obtain ⟨cells', hwrite, hkept⟩ := h.write (n := entry % 2 ^ 8) (by omega)
        [UInt8.ofNat (entry >>> 16), UInt8.ofNat (entry >>> 24)] (k := entry >>> 8 % 2 ^ 8)
        (hcount.trans_le htwo) (by rw [hcount, hlen]; exact five_le_length l) (.inr (show 2 ≤ PAIR_MOST by decide))
      rw [hwrite, safely_some]
      show Mirrors _ _ _ (do
        let b ← safely (Guarded.take b (entry % 2 ^ 8))
        Guarded.words prior.length fuel b cells' (out.length + entry >>> 8 % 2 ^ 8) _)
      rw [Guarded.take_eq (by omega) (by omega)]
      have := ih hkept (seen ||| (UInt8.ofNat (entry >>> 16) ||| UInt8.ofNat (entry >>> 24))) (by show b.held - _ < _; omega)
      rwa [List.length_append, hl, ← hcount, ← hl] at this

theorem windows_mirrors (fuel : ℕ) (h : Kept input prior b out cells) (seen : UInt8) (hheld : b.held < MAX_BITS)
    (hf : b.input.length < fuel) :
    Mirrors input prior (windows fuel b out seen) (Guarded.windows prior.length fuel b cells out.length seen) := by
  induction fuel generalizing b out cells seen with
  | zero => omega
  | succ fuel ih =>
    obtain ⟨hwf, hrest, hfull⟩ := Bits.filled_fill h.wf
    have hfilled : Kept input prior b.fill out cells := ⟨hwf, h.holds, h.room, hrest ▸ h.paid⟩
    have hle := hwf.held_le
    have hout := words_spec 64 out seen hwf (by rw [MAX_BITS]; omega)
    rw [windows, Guarded.windows, Guarded.fill_eq]
    refine Mirrors.bind (words_mirrors 64 hfilled seen (by omega)) fun b₁ out₁ seen₁ cells₁ hwords hkept => ?_
    rw [hwords] at hout
    obtain ⟨-, -, hheld₁, hin₁⟩ := hout
    show Mirrors _ _ (if b₁.input.isEmpty then _ else _) (if b₁.input.isEmpty then _ else _)
    split_ifs with hempty
    · exact ⟨cells₁, rfl, hkept⟩
    · refine ih hkept seen₁ hheld₁ ?_
      -- Something was read in, for the window had room for it.
      have hlen := congrArg List.length hrest
      rw [Bits.length_rest, Bits.length_rest] at hlen
      rcases hfull with hfull | hfull
      · rw [MAX_BITS] at hheld
        rw [hin₁]
        omega
      · rw [hin₁, hfull] at hempty
        exact absurd rfl hempty

theorem ending_mirrors (fuel : ℕ) (h : Kept input prior b out cells) (seen : UInt8) (hf : b.held < fuel) :
    Mirrors input prior (ending fuel b out seen) (Guarded.ending prior.length fuel b cells out.length seen) := by
  induction fuel generalizing b out cells seen with
  | zero => omega
  | succ fuel ih =>
    have hpadded := Bits.padded_lt h.wf
    have hbound := (Canonical.begins_symbol hpadded).length_bounds
    rw [ending, Guarded.ending, Guarded.symbol_eq hpadded, safely_some]
    by_cases hpad : b.isPadding = true
    · rw [if_pos hpad, if_pos hpad]
      exact ⟨cells, rfl, h⟩
    rw [if_neg hpad, if_neg hpad]
    show Mirrors _ _ (if b.held < (canonical.symbol b.padded).2 then _ else _)
      (if b.held < (canonical.symbol b.padded).2 then _ else _)
    by_cases hheld : b.held < (canonical.symbol b.padded).2
    · rw [if_pos hheld, if_pos hheld]
      exact ⟨cells, rfl, h⟩
    · rw [if_neg hheld, if_neg hheld]
      refine mirrors_symbol h hbound (Nat.le_of_not_lt hheld) seen (f := ending fuel) (g := Guarded.ending prior.length fuel)
        fun cells' hkept => ?_
      have := ih hkept (seen ||| UInt8.ofNat (canonical.symbol b.padded).1) (by show b.held - _ < _; omega)
      rwa [List.length_append] at this

end Run

/-- However much the output holds and whatever room it has beyond what was reserved, each
    step of the decoder is allowed: octets are written within the room, no more bits taken
    than held, words shifted by less than their width, tables looked up in range, and the
    output set to the length of what was written. It gains what is decoded. -/
theorem decoding_safe (input out : Octets) (spare : ℕ) :
    match decodeIntoAscii input with
    | .ok (decoded, ascii) => Guarded.decodeIntoAscii input out spare = .ok (out ++ decoded, ascii)
    | .error e => ∃ decoded, Guarded.decodeIntoAscii input out spare = .error (.refused e (out ++ decoded)) := by
  have hkept : Kept input out (.new input) [] (Buffer.new out (Guarded.reserved input + spare)) := by
    refine ⟨⟨Nat.two_pow_pos 64, Nat.zero_le 64⟩, ?_, ?_, ?_⟩
    · rw [List.append_nil]
      exact Buffer.holds_new ..
    · rw [Buffer.length_new]
      omega
    · rw [Bits.length_rest]
      simp [Bits.new]
  have hheld : (Bits.new input).held < MAX_BITS := Nat.lt_of_lt_of_eq (by decide : 0 < 30) rfl
  have hwindows := windows_spec (input.length + 1) [] 0 hkept.wf hheld (Nat.lt_succ_self _)
  have hrun := (windows_mirrors (input.length + 1) hkept 0 hheld (Nat.lt_succ_self _)).bind
    (f := fun x => ending 64 x.1 x.2.1 x.2.2)
    (g := fun y => Guarded.ending out.length 64 y.1 y.2.1 y.2.2.1 y.2.2.2)
    fun b out' seen cells hok h => ending_mirrors 64 h seen (by
      rw [hok] at hwindows
      exact hwindows.2.2.1.trans (by decide))
  have hplain : decodeIntoAscii input =
      (windows (input.length + 1) (.new input) [] 0 >>= fun x => ending 64 x.1 x.2.1 x.2.2) >>=
        fun x => if x.1.isPadding then .ok (x.2.1, decide (x.2.2 &&& 0x80 = 0)) else .error .invalidPadding := by
    rw [decodeIntoAscii, bind_assoc]
  have hguarded : Guarded.decodeIntoAscii input out spare =
      (Guarded.windows out.length (input.length + 1) (.new input) (Buffer.new out (Guarded.reserved input + spare)) 0 0 >>=
        fun y => Guarded.ending out.length 64 y.1 y.2.1 y.2.2.1 y.2.2.2) >>=
          fun y =>
            if y.1.isPadding then do
              let out ← safely (Buffer.contents y.2.1 (out.length + y.2.2.1))
              .ok (out, decide (y.2.2.2 &&& 0x80 = 0))
            else Guarded.refuse y.2.1 (out.length + y.2.2.1) .invalidPadding := by
    rw [Guarded.decodeIntoAscii, bind_assoc]
  rw [hplain, hguarded]
  generalize (windows (input.length + 1) (.new input) [] 0 >>= fun x => ending 64 x.1 x.2.1 x.2.2) = x at hrun ⊢
  generalize (Guarded.windows out.length (input.length + 1) (.new input) (Buffer.new out (Guarded.reserved input + spare)) 0 0 >>=
    fun y => Guarded.ending out.length 64 y.1 y.2.1 y.2.2.1 y.2.2.2) = y at hrun ⊢
  rcases x with e | ⟨b, decoded, seen⟩
  · obtain ⟨decoded, hy⟩ := hrun
    subst hy
    exact ⟨decoded, rfl⟩
  · obtain ⟨cells, hy, hlast⟩ := hrun
    subst hy
    by_cases hpad : b.isPadding = true
    · simp only [bind, Except.bind, hpad, if_true, hlast.contents, safely_some]
    · simp only [bind, Except.bind, if_neg hpad]
      exact ⟨decoded, hlast.refuse _⟩

end Soyokaze.Huffman

import Soyokaze.Lib.PrefixCode
import Mathlib.Data.Set.List
import Mathlib.Tactic.Ring

/-!
# The Huffman code

The code HPACK and QPACK share: a code word for each octet and one for the end
of a string (`table`), and its canonical form (`Canonical.new`), which a
decoder recognises words by without following them bit by bit. Code words are
numbered by length and then by value; `limit` is the largest window a length
covers, `fast` answers the short words, and an entry of `pairs` the one or two
words its twelve bits spell.

* `begins_symbol`: whatever the window, the symbol found is the one whose code
  word the window begins with;
* `free`: the code is prefix-free;
* `pairs_spec`: the words an entry of `pairs` answers are those the window
  begins with.
-/

namespace Soyokaze.Huffman

open PrefixCode

/-- One code word: `length` bits, right-aligned in `code`. -/
structure Symbol where
  code : ℕ
  length : ℕ
  deriving DecidableEq

/-- The end-of-string symbol, which never appears in a well-formed encoding. -/
def EOS : ℕ := 256

/-- The code word for each octet, and for `EOS` at the end. -/
def table : List Symbol := [
  ⟨0x1ff8, 13⟩, ⟨0x7fffd8, 23⟩, ⟨0xfffffe2, 28⟩, ⟨0xfffffe3, 28⟩, ⟨0xfffffe4, 28⟩,
  ⟨0xfffffe5, 28⟩, ⟨0xfffffe6, 28⟩, ⟨0xfffffe7, 28⟩, ⟨0xfffffe8, 28⟩, ⟨0xffffea, 24⟩,
  ⟨0x3ffffffc, 30⟩, ⟨0xfffffe9, 28⟩, ⟨0xfffffea, 28⟩, ⟨0x3ffffffd, 30⟩, ⟨0xfffffeb, 28⟩,
  ⟨0xfffffec, 28⟩, ⟨0xfffffed, 28⟩, ⟨0xfffffee, 28⟩, ⟨0xfffffef, 28⟩, ⟨0xffffff0, 28⟩,
  ⟨0xffffff1, 28⟩, ⟨0xffffff2, 28⟩, ⟨0x3ffffffe, 30⟩, ⟨0xffffff3, 28⟩, ⟨0xffffff4, 28⟩,
  ⟨0xffffff5, 28⟩, ⟨0xffffff6, 28⟩, ⟨0xffffff7, 28⟩, ⟨0xffffff8, 28⟩, ⟨0xffffff9, 28⟩,
  ⟨0xffffffa, 28⟩, ⟨0xffffffb, 28⟩, ⟨0x14, 6⟩, ⟨0x3f8, 10⟩, ⟨0x3f9, 10⟩, ⟨0xffa, 12⟩,
  ⟨0x1ff9, 13⟩, ⟨0x15, 6⟩, ⟨0xf8, 8⟩, ⟨0x7fa, 11⟩, ⟨0x3fa, 10⟩, ⟨0x3fb, 10⟩, ⟨0xf9, 8⟩,
  ⟨0x7fb, 11⟩, ⟨0xfa, 8⟩, ⟨0x16, 6⟩, ⟨0x17, 6⟩, ⟨0x18, 6⟩, ⟨0x0, 5⟩, ⟨0x1, 5⟩, ⟨0x2, 5⟩,
  ⟨0x19, 6⟩, ⟨0x1a, 6⟩, ⟨0x1b, 6⟩, ⟨0x1c, 6⟩, ⟨0x1d, 6⟩, ⟨0x1e, 6⟩, ⟨0x1f, 6⟩, ⟨0x5c, 7⟩,
  ⟨0xfb, 8⟩, ⟨0x7ffc, 15⟩, ⟨0x20, 6⟩, ⟨0xffb, 12⟩, ⟨0x3fc, 10⟩, ⟨0x1ffa, 13⟩, ⟨0x21, 6⟩,
  ⟨0x5d, 7⟩, ⟨0x5e, 7⟩, ⟨0x5f, 7⟩, ⟨0x60, 7⟩, ⟨0x61, 7⟩, ⟨0x62, 7⟩, ⟨0x63, 7⟩, ⟨0x64, 7⟩,
  ⟨0x65, 7⟩, ⟨0x66, 7⟩, ⟨0x67, 7⟩, ⟨0x68, 7⟩, ⟨0x69, 7⟩, ⟨0x6a, 7⟩, ⟨0x6b, 7⟩, ⟨0x6c, 7⟩,
  ⟨0x6d, 7⟩, ⟨0x6e, 7⟩, ⟨0x6f, 7⟩, ⟨0x70, 7⟩, ⟨0x71, 7⟩, ⟨0x72, 7⟩, ⟨0xfc, 8⟩, ⟨0x73, 7⟩,
  ⟨0xfd, 8⟩, ⟨0x1ffb, 13⟩, ⟨0x7fff0, 19⟩, ⟨0x1ffc, 13⟩, ⟨0x3ffc, 14⟩, ⟨0x22, 6⟩, ⟨0x7ffd, 15⟩,
  ⟨0x3, 5⟩, ⟨0x23, 6⟩, ⟨0x4, 5⟩, ⟨0x24, 6⟩, ⟨0x5, 5⟩, ⟨0x25, 6⟩, ⟨0x26, 6⟩, ⟨0x27, 6⟩, ⟨0x6, 5⟩,
  ⟨0x74, 7⟩, ⟨0x75, 7⟩, ⟨0x28, 6⟩, ⟨0x29, 6⟩, ⟨0x2a, 6⟩, ⟨0x7, 5⟩, ⟨0x2b, 6⟩, ⟨0x76, 7⟩,
  ⟨0x2c, 6⟩, ⟨0x8, 5⟩, ⟨0x9, 5⟩, ⟨0x2d, 6⟩, ⟨0x77, 7⟩, ⟨0x78, 7⟩, ⟨0x79, 7⟩, ⟨0x7a, 7⟩, ⟨0x7b, 7⟩,
  ⟨0x7ffe, 15⟩, ⟨0x7fc, 11⟩, ⟨0x3ffd, 14⟩, ⟨0x1ffd, 13⟩, ⟨0xffffffc, 28⟩, ⟨0xfffe6, 20⟩,
  ⟨0x3fffd2, 22⟩, ⟨0xfffe7, 20⟩, ⟨0xfffe8, 20⟩, ⟨0x3fffd3, 22⟩, ⟨0x3fffd4, 22⟩, ⟨0x3fffd5, 22⟩,
  ⟨0x7fffd9, 23⟩, ⟨0x3fffd6, 22⟩, ⟨0x7fffda, 23⟩, ⟨0x7fffdb, 23⟩, ⟨0x7fffdc, 23⟩, ⟨0x7fffdd, 23⟩,
  ⟨0x7fffde, 23⟩, ⟨0xffffeb, 24⟩, ⟨0x7fffdf, 23⟩, ⟨0xffffec, 24⟩, ⟨0xffffed, 24⟩, ⟨0x3fffd7, 22⟩,
  ⟨0x7fffe0, 23⟩, ⟨0xffffee, 24⟩, ⟨0x7fffe1, 23⟩, ⟨0x7fffe2, 23⟩, ⟨0x7fffe3, 23⟩, ⟨0x7fffe4, 23⟩,
  ⟨0x1fffdc, 21⟩, ⟨0x3fffd8, 22⟩, ⟨0x7fffe5, 23⟩, ⟨0x3fffd9, 22⟩, ⟨0x7fffe6, 23⟩, ⟨0x7fffe7, 23⟩,
  ⟨0xffffef, 24⟩, ⟨0x3fffda, 22⟩, ⟨0x1fffdd, 21⟩, ⟨0xfffe9, 20⟩, ⟨0x3fffdb, 22⟩, ⟨0x3fffdc, 22⟩,
  ⟨0x7fffe8, 23⟩, ⟨0x7fffe9, 23⟩, ⟨0x1fffde, 21⟩, ⟨0x7fffea, 23⟩, ⟨0x3fffdd, 22⟩, ⟨0x3fffde, 22⟩,
  ⟨0xfffff0, 24⟩, ⟨0x1fffdf, 21⟩, ⟨0x3fffdf, 22⟩, ⟨0x7fffeb, 23⟩, ⟨0x7fffec, 23⟩, ⟨0x1fffe0, 21⟩,
  ⟨0x1fffe1, 21⟩, ⟨0x3fffe0, 22⟩, ⟨0x1fffe2, 21⟩, ⟨0x7fffed, 23⟩, ⟨0x3fffe1, 22⟩, ⟨0x7fffee, 23⟩,
  ⟨0x7fffef, 23⟩, ⟨0xfffea, 20⟩, ⟨0x3fffe2, 22⟩, ⟨0x3fffe3, 22⟩, ⟨0x3fffe4, 22⟩, ⟨0x7ffff0, 23⟩,
  ⟨0x3fffe5, 22⟩, ⟨0x3fffe6, 22⟩, ⟨0x7ffff1, 23⟩, ⟨0x3ffffe0, 26⟩, ⟨0x3ffffe1, 26⟩, ⟨0xfffeb, 20⟩,
  ⟨0x7fff1, 19⟩, ⟨0x3fffe7, 22⟩, ⟨0x7ffff2, 23⟩, ⟨0x3fffe8, 22⟩, ⟨0x1ffffec, 25⟩, ⟨0x3ffffe2, 26⟩,
  ⟨0x3ffffe3, 26⟩, ⟨0x3ffffe4, 26⟩, ⟨0x7ffffde, 27⟩, ⟨0x7ffffdf, 27⟩, ⟨0x3ffffe5, 26⟩,
  ⟨0xfffff1, 24⟩, ⟨0x1ffffed, 25⟩, ⟨0x7fff2, 19⟩, ⟨0x1fffe3, 21⟩, ⟨0x3ffffe6, 26⟩,
  ⟨0x7ffffe0, 27⟩, ⟨0x7ffffe1, 27⟩, ⟨0x3ffffe7, 26⟩, ⟨0x7ffffe2, 27⟩, ⟨0xfffff2, 24⟩,
  ⟨0x1fffe4, 21⟩, ⟨0x1fffe5, 21⟩, ⟨0x3ffffe8, 26⟩, ⟨0x3ffffe9, 26⟩, ⟨0xffffffd, 28⟩,
  ⟨0x7ffffe3, 27⟩, ⟨0x7ffffe4, 27⟩, ⟨0x7ffffe5, 27⟩, ⟨0xfffec, 20⟩, ⟨0xfffff3, 24⟩, ⟨0xfffed, 20⟩,
  ⟨0x1fffe6, 21⟩, ⟨0x3fffe9, 22⟩, ⟨0x1fffe7, 21⟩, ⟨0x1fffe8, 21⟩, ⟨0x7ffff3, 23⟩, ⟨0x3fffea, 22⟩,
  ⟨0x3fffeb, 22⟩, ⟨0x1ffffee, 25⟩, ⟨0x1ffffef, 25⟩, ⟨0xfffff4, 24⟩, ⟨0xfffff5, 24⟩,
  ⟨0x3ffffea, 26⟩, ⟨0x7ffff4, 23⟩, ⟨0x3ffffeb, 26⟩, ⟨0x7ffffe6, 27⟩, ⟨0x3ffffec, 26⟩,
  ⟨0x3ffffed, 26⟩, ⟨0x7ffffe7, 27⟩, ⟨0x7ffffe8, 27⟩, ⟨0x7ffffe9, 27⟩, ⟨0x7ffffea, 27⟩,
  ⟨0x7ffffeb, 27⟩, ⟨0xffffffe, 28⟩, ⟨0x7ffffec, 27⟩, ⟨0x7ffffed, 27⟩, ⟨0x7ffffee, 27⟩,
  ⟨0x7ffffef, 27⟩, ⟨0x7fffff0, 27⟩, ⟨0x3ffffee, 26⟩, ⟨0x3fffffff, 30⟩]

/-- The bits of the code word of a symbol. -/
def word (s : Fin 257) : List Bool := msb (table.getD s.1 ⟨0, 0⟩).length (table.getD s.1 ⟨0, 0⟩).code

/-! ## The canonical form -/

/-- How many bits `Canonical.fast` is indexed by. -/
def FAST_BITS : ℕ := 8
/-- The longest code word there is. -/
def MAX_BITS : ℕ := 30
/-- How many bits `Canonical.pairs` is indexed by. -/
def PAIR_BITS : ℕ := 12
/-- The most symbols one entry of `Canonical.pairs` can answer. -/
def PAIR_MOST : ℕ := PAIR_BITS / 5

/-- How many code words each length has. -/
def counts (table : List Symbol) : List ℕ :=
  table.foldl (fun count symbol => count.modify symbol.length (· + 1))
    (List.replicate (MAX_BITS + 1) 0)

/-- What is settled of each length up to some one: the first code word, where its
    symbols begin, and the largest window it covers. -/
structure Levels where
  code : ℕ
  index : ℕ
  base : List ℕ
  offset : List ℕ
  limit : List ℕ

/-- Settles one more length. -/
def Levels.extend (count : List ℕ) (levels : Levels) (length : ℕ) : Levels :=
  let code := levels.code <<< 1
  let held := count.getD length 0
  { code := code + held
    index := levels.index + held
    base := levels.base.set length code
    offset := levels.offset.set length levels.index
    limit := levels.limit.set length
      (if held = 0 then levels.limit.getD (length - 1) 0
        else (code + held - 1) <<< (64 - length) ||| (2 ^ 64 - 1) >>> length) }

def Levels.new (table : List Symbol) : Levels :=
  let zeros := List.replicate (MAX_BITS + 1) 0
  (List.range' 1 MAX_BITS).foldl (Levels.extend (counts table)) ⟨0, 0, zeros, zeros, zeros⟩

/-- Every symbol, by the length of its code word and then by its value. -/
def sorted (table : List Symbol) (offset : List ℕ) : List ℕ :=
  (table.zipIdx.foldl (fun (symbols, filled) (symbol, value) =>
    (symbols.set (offset.getD symbol.length 0 + filled.getD symbol.length 0) value,
      filled.modify symbol.length (· + 1)))
    (List.replicate 257 0, List.replicate (MAX_BITS + 1) 0)).1

/-- One entry for each prefix of `FAST_BITS` bits: the symbol in the high octet
    and the length of its code word in the low one, or zero. -/
def fastEntries (table : List Symbol) : List ℕ :=
  table.zipIdx.foldl (fun fast (symbol, value) =>
    if symbol.length ≤ FAST_BITS then
      (List.range (1 <<< (FAST_BITS - symbol.length))).foldl (fun fast slot =>
        fast.set (symbol.code <<< (FAST_BITS - symbol.length) + slot)
          (value <<< 8 ||| symbol.length)) fast
    else fast) (List.replicate (2 ^ FAST_BITS) 0)

/-- The code in its canonical form, which is what the decoder walks. -/
structure Canonical where
  fast : List ℕ
  limit : List ℕ
  base : List ℕ
  offset : List ℕ
  symbols : List ℕ

namespace Canonical

/-- Builds the canonical form from a code table. -/
def new (table : List Symbol) : Canonical :=
  let levels := Levels.new table
  { fast := fastEntries table
    limit := levels.limit
    base := levels.base
    offset := levels.offset
    symbols := sorted table levels.offset }

variable (c : Canonical)

/-- The first length from `length` on whose code words reach up to the window. -/
def settle (window length : ℕ) : ℕ :=
  if length < MAX_BITS ∧ c.limit.getD length 0 < window then settle window (length + 1)
  else length
termination_by MAX_BITS - length

/-- The symbol the first `length` bits of the window number. -/
def numbered (window length : ℕ) : ℕ :=
  c.symbols.getD (c.offset.getD length 0 + (window >>> (64 - length) - c.base.getD length 0)) 0

/-- The entry of `fast` for the first bits of the window. -/
def short (window : ℕ) : ℕ := c.fast.getD (window >>> (64 - FAST_BITS)) 0

/-- The symbol the top bits of the window spell, and how many bits it took, for
    a code word longer than `FAST_BITS`. -/
def long (window : ℕ) : ℕ × ℕ :=
  let length := c.settle window (FAST_BITS + 1)
  (c.numbered window length, length)

/-- The symbol the top bits of the window spell, and how many bits it took. -/
def symbol (window : ℕ) : ℕ × ℕ :=
  let entry := c.short window
  if entry &&& 0xff = 0 then c.long window else (entry >>> 8, entry &&& 0xff)

/-- Takes up to `left` more code words off the window, while they end within
    `PAIR_BITS` of where the index began: the bits used and the symbols. -/
def whole : (left window used : ℕ) → (held : List ℕ) → ℕ × List ℕ
  | 0, _, used, held => (used, held)
  | left + 1, window, used, held =>
    let entry := c.short window
    let length := c.settle window (if entry &&& 0xff = 0 then FAST_BITS + 1 else entry &&& 0xff)
    if PAIR_BITS < used + length then (used, held)
    else whole left (window <<< length % 2 ^ 64) (used + length)
      (held ++ [c.numbered window length])

/-- The entry of `pairs` for `index`: the bits used in the low octet, the number
    of symbols in the next, and the symbols in the two above. -/
def pair (index : ℕ) : ℕ :=
  let (used, held) := c.whole PAIR_MOST (index <<< (64 - PAIR_BITS)) 0 []
  if held.length = 0 then 0
  else used ||| held.length <<< 8 ||| held.getD 0 0 <<< 16 ||| held.getD 1 0 <<< 24

/-- One entry for each prefix of `PAIR_BITS` bits, answering as many whole code
    words as those bits spell. -/
def pairs : List ℕ := (List.range (2 ^ PAIR_BITS)).map c.pair

end Canonical

/-- The canonical form of the code. -/
def canonical : Canonical := Canonical.new table

/-! ## What the tables hold -/

/-- How many code words have a given length. -/
def width (length : ℕ) : ℕ := (counts table).getD length 0

namespace Canonical

/-- What is checked of the canonical form, by evaluation: each length from the
    shortest covers its own code words, which are numbered as the table has
    them, and `fast` answers exactly the windows the short ones cover. -/
def check (c : Canonical) : Bool :=
  ((List.range' 5 26).all fun length =>
    c.limit.getD length 0 + 1 == (c.base.getD length 0 + width length) <<< (64 - length) &&
    (List.range (width length)).all fun k =>
      let s := c.symbols.getD (c.offset.getD length 0 + k) 0
      table.getD s ⟨0, 0⟩ == ⟨c.base.getD length 0 + k, length⟩ && s < 257) &&
  ((List.range' 5 25).all fun length =>
    c.base.getD (length + 1) 0 == 2 * (c.base.getD length 0 + width length)) &&
  (table.zipIdx.all fun (symbol, s) =>
    5 ≤ symbol.length && symbol.length ≤ MAX_BITS &&
    c.base.getD symbol.length 0 ≤ symbol.code &&
    symbol.code < c.base.getD symbol.length 0 + width symbol.length &&
    c.symbols.getD (c.offset.getD symbol.length 0 +
      (symbol.code - c.base.getD symbol.length 0)) 0 == s) &&
  (c.fast.zipIdx.all fun (entry, i) =>
    if entry &&& 0xff = 0 then c.limit.getD FAST_BITS 0 < i <<< 56
    else entry >>> 8 < 257 && entry &&& 0xff ≤ FAST_BITS &&
      table.getD (entry >>> 8) ⟨0, 0⟩ ==
        ⟨i >>> (FAST_BITS - (entry &&& 0xff)), entry &&& 0xff⟩) &&
  c.base.getD 5 0 == 0 && c.limit.getD 30 0 == 2 ^ 64 - 1 && c.fast.length == 256

end Canonical

theorem canonical_check : canonical.check = true := by decide +kernel

/-- The first code word of a length. -/
abbrev first (length : ℕ) : ℕ := canonical.base.getD length 0

/-- The largest window a length covers. -/
abbrev reach (length : ℕ) : ℕ := canonical.limit.getD length 0

theorem reach_succ {l : ℕ} (h5 : 5 ≤ l) (h30 : l ≤ 30) :
    reach l + 1 = (first l + width l) * 2 ^ (64 - l) := by
  have h := canonical_check
  simp only [Canonical.check, Bool.and_eq_true, List.all_eq_true, List.mem_range'_1] at h
  have := (h.1.1.1.1.1.1 l (by omega)).1
  rwa [beq_iff_eq, Nat.shiftLeft_eq] at this

theorem first_succ {l : ℕ} (h5 : 5 ≤ l) (h30 : l < 30) : first (l + 1) = 2 * (first l + width l) := by
  have h := canonical_check
  simp only [Canonical.check, Bool.and_eq_true, List.all_eq_true, List.mem_range'_1] at h
  exact beq_iff_eq.1 (h.1.1.1.1.1.2 l (by omega))

theorem first_five : first 5 = 0 := by
  have h := canonical_check
  simp only [Canonical.check, Bool.and_eq_true] at h
  exact beq_iff_eq.1 h.1.1.2

theorem reach_thirty : reach 30 = 2 ^ 64 - 1 := by
  have h := canonical_check
  simp only [Canonical.check, Bool.and_eq_true] at h
  exact beq_iff_eq.1 h.1.2

theorem length_fast : canonical.fast.length = 256 := by
  have h := canonical_check
  simp only [Canonical.check, Bool.and_eq_true] at h
  exact beq_iff_eq.1 h.2

theorem length_table : table.length = 257 := by decide +kernel

attribute [irreducible] table canonical

/-- The code words of a length are numbered in order. -/
theorem table_symbols {l k : ℕ} (h5 : 5 ≤ l) (h30 : l ≤ 30) (hk : k < width l) :
    table.getD (canonical.symbols.getD (canonical.offset.getD l 0 + k) 0) ⟨0, 0⟩ =
        ⟨first l + k, l⟩ ∧
      canonical.symbols.getD (canonical.offset.getD l 0 + k) 0 < 257 := by
  have h := canonical_check
  simp only [Canonical.check, Bool.and_eq_true, List.all_eq_true, List.mem_range'_1,
    List.mem_range] at h
  have := (h.1.1.1.1.1.1 l (by omega)).2 k hk
  exact ⟨beq_iff_eq.1 this.1, of_decide_eq_true this.2⟩

/-- Every symbol is found where its code word is numbered. -/
theorem symbols_table {s : ℕ} (hs : s < 257) {code l : ℕ} (ht : table.getD s ⟨0, 0⟩ = ⟨code, l⟩) :
    (5 ≤ l ∧ l ≤ 30) ∧ (first l ≤ code ∧ code < first l + width l) ∧
      canonical.symbols.getD (canonical.offset.getD l 0 + (code - first l)) 0 = s := by
  have h := canonical_check
  simp only [Canonical.check, Bool.and_eq_true, List.all_eq_true] at h
  have hmem : ((⟨code, l⟩ : Symbol), s) ∈ table.zipIdx := by
    rw [List.mem_zipIdx_iff_getElem?, ← ht, List.getD_eq_getElem?_getD,
      List.getElem?_eq_getElem (by rw [length_table]; exact hs)]
    rfl
  have := h.1.1.1.1.2 _ hmem
  simp only [decide_eq_true_eq, beq_iff_eq] at this
  exact ⟨⟨this.1.1.1.1, this.1.1.1.2⟩, ⟨this.1.1.2, this.1.2⟩, this.2⟩

theorem fast_spec {i : ℕ} (hi : i < 256) :
    if canonical.fast.getD i 0 &&& 0xff = 0 then reach FAST_BITS < i * 2 ^ 56
    else canonical.fast.getD i 0 >>> 8 < 257 ∧ canonical.fast.getD i 0 &&& 0xff ≤ FAST_BITS ∧
      table.getD (canonical.fast.getD i 0 >>> 8) ⟨0, 0⟩ =
        ⟨i >>> (FAST_BITS - (canonical.fast.getD i 0 &&& 0xff)), canonical.fast.getD i 0 &&& 0xff⟩ := by
  have h := canonical_check
  simp only [Canonical.check, Bool.and_eq_true, List.all_eq_true] at h
  have hmem : (canonical.fast.getD i 0, i) ∈ canonical.fast.zipIdx := by
    rw [List.mem_zipIdx_iff_getElem?, List.getD_eq_getElem?_getD,
      List.getElem?_eq_getElem (by rw [length_fast]; exact hi)]
    rfl
  have := h.1.1.1.2 _ hmem
  split_ifs with h0
  · rw [if_pos h0] at this
    simpa [Nat.shiftLeft_eq] using this
  · rw [if_neg h0] at this
    simpa [and_assoc] using this

/-! ## Recognising a code word -/

/-- The first `l` bits of a window number a code word of the length `l` exactly
    where no shorter length reaches up to the window and `l` does. -/
theorem covered_iff {w l : ℕ} (h5 : 5 ≤ l) (h30 : l ≤ 30) :
    (first l ≤ w >>> (64 - l) ↔ l = 5 ∨ reach (l - 1) < w) ∧
      (w >>> (64 - l) < first l + width l ↔ w ≤ reach l) := by
  have pos := Nat.two_pow_pos (64 - l)
  rw [Nat.shiftRight_eq_div_pow]
  constructor
  · rw [Nat.le_div_iff_mul_le pos]
    rcases Nat.eq_or_lt_of_le h5 with rfl | h
    · rw [first_five]
      simp
    · have hb := first_succ (l := l - 1) (by omega) (by omega)
      have hl := reach_succ (l := l - 1) (by omega) (by omega)
      rw [show l - 1 + 1 = l by omega] at hb
      rw [show 64 - (l - 1) = 64 - l + 1 by omega, pow_succ] at hl
      rw [hb, show 2 * (first (l - 1) + width (l - 1)) * 2 ^ (64 - l) = reach (l - 1) + 1 by
        rw [hl]; ring]
      omega
  · rw [Nat.div_lt_iff_lt_mul pos, ← reach_succ h5 h30]
    exact Nat.lt_succ_iff

theorem reach_mono {a b : ℕ} (h5 : 5 ≤ a) (h : a ≤ b) (h30 : b ≤ 30) : reach a ≤ reach b := by
  induction b, h using Nat.le_induction with
  | base => exact le_rfl
  | succ b hb ih =>
    refine (ih (by omega)).trans ?_
    have hl := reach_succ (l := b) (by omega) (by omega)
    have hl' := reach_succ (l := b + 1) (by omega) h30
    rw [first_succ (by omega) (by omega)] at hl'
    rw [show 64 - b = 64 - (b + 1) + 1 by omega, pow_succ] at hl
    have : (2 * (first b + width b) + width (b + 1)) * 2 ^ (64 - (b + 1)) =
        (first b + width b) * (2 ^ (64 - (b + 1)) * 2) + width (b + 1) * 2 ^ (64 - (b + 1)) := by
      ring
    omega

/-- The window `w` begins with the code word of `s`, which has the length `l`. -/
structure Begins (w s l : ℕ) : Prop where
  symbol_lt : s < 257
  entry : table.getD s ⟨0, 0⟩ = ⟨w >>> (64 - l), l⟩

namespace Begins

variable {w s l : ℕ}

theorem length_bounds (h : Begins w s l) : 5 ≤ l ∧ l ≤ 30 := (symbols_table h.symbol_lt h.entry).1

/-- No shorter length reaches up to the window, and `l` does. -/
theorem covered (h : Begins w s l) : (l = 5 ∨ reach (l - 1) < w) ∧ w ≤ reach l := by
  obtain ⟨⟨h5, h30⟩, ⟨hb, hw⟩, -⟩ := symbols_table h.symbol_lt h.entry
  exact ⟨(covered_iff h5 h30).1.1 hb, (covered_iff h5 h30).2.1 hw⟩

/-- A window begins with one code word. -/
theorem unique {s' l' : ℕ} (h : Begins w s l) (h' : Begins w s' l') : s = s' ∧ l = l' := by
  have hll : l = l' := by
    by_contra hne
    have hb := h.length_bounds
    have hb' := h'.length_bounds
    rcases Nat.lt_or_gt_of_ne hne with hlt | hlt
    · have := reach_mono (a := l) (b := l' - 1) hb.1 (by omega) (by omega)
      have := h.covered.2
      have := h'.covered.1
      omega
    · have := reach_mono (a := l') (b := l - 1) hb'.1 (by omega) (by omega)
      have := h'.covered.2
      have := h.covered.1
      omega
  subst hll
  exact ⟨(symbols_table h.symbol_lt h.entry).2.2.symm.trans
    (symbols_table h'.symbol_lt h'.entry).2.2, rfl⟩

/-- Only the first `l` bits of the window matter. -/
theorem congr {w' : ℕ} (h : Begins w s l) (hw : w' >>> (64 - l) = w >>> (64 - l)) :
    Begins w' s l := ⟨h.symbol_lt, hw ▸ h.entry⟩

end Begins

namespace Canonical

/-- The lengths are searched up to the first that reaches the window. -/
theorem settle_spec {w a : ℕ} (hw : w < 2 ^ 64) (h30 : a ≤ 30) (ha : a = 5 ∨ reach (a - 1) < w) :
    a ≤ canonical.settle w a ∧ canonical.settle w a ≤ 30 ∧ w ≤ reach (canonical.settle w a) ∧
      (canonical.settle w a = 5 ∨ reach (canonical.settle w a - 1) < w) := by
  rw [settle]
  split_ifs with h
  · obtain ⟨hle, hrest⟩ := settle_spec (a := a + 1) hw h.1 (.inr (by simpa using h.2))
    exact ⟨(Nat.le_succ a).trans hle, hrest⟩
  · refine ⟨le_rfl, h30, ?_, ha⟩
    rcases Nat.eq_or_lt_of_le h30 with rfl | hlt
    · have := reach_thirty
      omega
    · exact Nat.le_of_not_lt fun hgt => h ⟨hlt, hgt⟩
termination_by 30 - a
decreasing_by
  have := h.1
  rw [MAX_BITS] at this
  omega

/-- From any length that is not too long, the search finds the word. -/
theorem begins_settle {w a : ℕ} (hw : w < 2 ^ 64) (h5 : 5 ≤ a) (h30 : a ≤ 30)
    (ha : a = 5 ∨ reach (a - 1) < w) :
    Begins w (canonical.numbered w (canonical.settle w a)) (canonical.settle w a) := by
  obtain ⟨hle, h30', hcov, hmin⟩ := settle_spec hw h30 ha
  obtain ⟨hb, hw'⟩ := covered_iff (w := w) (l := canonical.settle w a) (by omega) h30'
  have hlo := hb.2 hmin
  have hhi := hw'.2 hcov
  obtain ⟨ht, hlt⟩ := table_symbols (l := canonical.settle w a)
    (k := w >>> (64 - canonical.settle w a) - first (canonical.settle w a)) (by omega) h30' (by omega)
  exact ⟨hlt, by rw [numbered, ht, Nat.add_sub_cancel' hlo]⟩

theorem shiftRight_fast {w : ℕ} (hw : w < 2 ^ 64) : w >>> (64 - FAST_BITS) < 256 := by
  rw [Nat.shiftRight_eq_div_pow, FAST_BITS]
  omega

/-- Where `fast` has no answer, no short word begins the window. -/
theorem reach_lt_of_short {w : ℕ} (hw : w < 2 ^ 64) (h : canonical.short w &&& 0xff = 0) :
    reach FAST_BITS < w := by
  have := fast_spec (shiftRight_fast hw)
  rw [← short, if_pos h, Nat.shiftRight_eq_div_pow, FAST_BITS] at this
  refine this.trans_le ?_
  exact Nat.div_mul_le_self w (2 ^ 56)

/-- Where `fast` answers, the window begins with the word it answers. -/
theorem begins_short {w : ℕ} (hw : w < 2 ^ 64) (h : canonical.short w &&& 0xff ≠ 0) :
    Begins w (canonical.short w >>> 8) (canonical.short w &&& 0xff) := by
  have := fast_spec (shiftRight_fast hw)
  rw [← short, if_neg h] at this
  obtain ⟨hs, hl, ht⟩ := this
  refine ⟨hs, ?_⟩
  rw [ht, Symbol.mk.injEq]
  refine ⟨?_, rfl⟩
  rw [← Nat.shiftRight_add]
  congr 1
  rw [FAST_BITS] at hl ⊢
  omega

theorem begins_long {w : ℕ} (hw : w < 2 ^ 64) (h : canonical.short w &&& 0xff = 0) :
    Begins w (canonical.long w).1 (canonical.long w).2 :=
  begins_settle hw (by decide) (by decide) (.inr (reach_lt_of_short hw h))

/-- The code is complete: every window begins with the code word of the symbol found. -/
theorem begins_symbol {w : ℕ} (hw : w < 2 ^ 64) :
    Begins w (canonical.symbol w).1 (canonical.symbol w).2 := by
  rw [symbol]
  split_ifs with h
  · exact begins_long hw h
  · exact begins_short hw h

end Canonical

/-! ## The words as bits -/

/-- The length of the code word of a symbol. -/
def len (s : Fin 257) : ℕ := (table.getD s.1 ⟨0, 0⟩).length

@[simp] theorem length_word (s : Fin 257) : (word s).length = len s := length_msb _ _

theorem len_bounds (s : Fin 257) : 5 ≤ len s ∧ len s ≤ 30 :=
  (@symbols_table s.1 s.2 (table.getD s.1 ⟨0, 0⟩).code (len s) rfl).1

theorem code_lt (s : Fin 257) : (table.getD s.1 ⟨0, 0⟩).code < 2 ^ len s := by
  obtain ⟨⟨h5, h30⟩, ⟨-, hw⟩, -⟩ :=
    @symbols_table s.1 s.2 (table.getD s.1 ⟨0, 0⟩).code (len s) rfl
  have hr := reach_mono h5 h30 le_rfl
  have hs := reach_succ h5 h30
  rw [reach_thirty] at hr
  have hp : 2 ^ len s * 2 ^ (64 - len s) = 2 ^ 64 := by
    rw [← pow_add]
    congr 1
    omega
  refine hw.trans_le (Nat.le_of_mul_le_mul_right ?_ (Nat.two_pow_pos (64 - len s)))
  omega

theorem Begins.len_eq {w s l : ℕ} (h : Begins w s l) : len ⟨s, h.symbol_lt⟩ = l := by
  rw [len, h.entry]

/-- A window begins with a code word exactly where its bits do. -/
theorem begins_iff {w : ℕ} (hw : w < 2 ^ 64) (s : Fin 257) :
    Begins w s.1 (len s) ↔ word s <+: msb 64 w := by
  have hl := (len_bounds s).2
  have hlt : w >>> (64 - len s) < 2 ^ len s := by
    rw [Nat.shiftRight_eq_div_pow]
    refine Nat.div_lt_of_lt_mul (hw.trans_le (le_of_eq ?_))
    rw [← pow_add]
    congr 1
    omega
  rw [List.prefix_iff_eq_take, length_word, msb_take (by omega), word, ← len]
  constructor
  · intro h
    rw [h.entry]
  · intro h
    have hc := msb_inj h
    rw [Nat.mod_eq_of_lt (code_lt s), Nat.mod_eq_of_lt hlt] at hc
    exact ⟨s.2, by rw [← hc, len]⟩

/-- The code is prefix-free: a window that begins with the longer of two words
    begins with both. -/
theorem free : Free word := by
  intro a b hab
  have hb : word b <+: msb 64 ((table.getD b.1 ⟨0, 0⟩).code <<< (64 - len b)) := by
    have := msb_append (m := len b) (n := 64 - len b) (a := (table.getD b.1 ⟨0, 0⟩).code) (b := 0)
      (Nat.two_pow_pos _)
    rw [Nat.or_zero, show len b + (64 - len b) = 64 by have := (len_bounds b).2; omega] at this
    rw [this]
    exact List.prefix_append _ _
  have hw : (table.getD b.1 ⟨0, 0⟩).code <<< (64 - len b) < 2 ^ 64 := by
    rw [Nat.shiftLeft_eq]
    refine (Nat.mul_lt_mul_of_pos_right (code_lt b) (Nat.two_pow_pos _)).trans_le (le_of_eq ?_)
    rw [← pow_add]
    congr 1
    have := (len_bounds b).2
    omega
  exact Fin.ext (((begins_iff hw a).2 (hab.trans hb)).unique ((begins_iff hw b).2 hb)).1

/-! ## Two words at once -/

/-- The symbol of an octet. -/
def octet (o : UInt8) : Fin 257 := ⟨o.toNat, o.toNat_lt.trans (by decide)⟩

/-- The end of a string, as a symbol. -/
def end_ : Fin 257 := ⟨EOS, by decide⟩

/-- The code word of an octet. -/
def octetWord (o : UInt8) : List Bool := word (octet o)

@[simp] theorem length_octetWord (o : UInt8) : (octetWord o).length = len (octet o) := length_word _

theorem octet_inj {a b : UInt8} (h : octet a = octet b) : a = b :=
  UInt8.toNat_inj.1 (by simpa [octet] using h)

theorem octet_ne_end (o : UInt8) : octet o ≠ end_ := fun h =>
  (Nat.ne_of_lt o.toNat_lt) (congrArg Fin.val h)

theorem free_octetWord : Free octetWord := fun _ _ h => octet_inj (free _ _ h)

/-- The words of `l` begin a window. -/
abbrev Leads (l : List (Fin 257)) (w : ℕ) : Prop := l.flatMap word <+: msb 64 w

namespace Canonical

/-- However the search is started, the word it finds is the one the window begins with. -/
theorem begins_numbered {w : ℕ} (hw : w < 2 ^ 64) :
    let length := canonical.settle w
      (if canonical.short w &&& 0xff = 0 then FAST_BITS + 1 else canonical.short w &&& 0xff)
    Begins w (canonical.numbered w length) length := by
  intro length
  by_cases h : canonical.short w &&& 0xff = 0
  · simp only [length, if_pos h]
    exact begins_long hw h
  · have hb := begins_short hw h
    simp only [length, if_neg h]
    exact begins_settle hw hb.length_bounds.1 hb.length_bounds.2 hb.covered.1

/-- What `whole` takes off a window are the words it begins with, and it takes
    one if that ends within `PAIR_BITS`. -/
theorem whole_spec (left : ℕ) {window used : ℕ} (held : List ℕ) (hw : window < 2 ^ 64)
    (hu : used ≤ PAIR_BITS) :
    ∃ l : List (Fin 257), canonical.whole left window used held =
        (used + (l.flatMap word).length, held ++ l.map Fin.val) ∧
      Leads l window ∧ used + (l.flatMap word).length ≤ PAIR_BITS ∧ l.length ≤ left ∧
      (l = [] → 0 < left → ∀ s n, Begins window s n → PAIR_BITS < used + n) := by
  induction left generalizing window used held with
  | zero => exact ⟨[], by simp [whole], by simp [Leads], hu, le_rfl, by simp⟩
  | succ left ih =>
    have hb := begins_numbered hw
    simp only at hb
    rw [whole]
    set length := canonical.settle window
      (if canonical.short window &&& 0xff = 0 then FAST_BITS + 1 else canonical.short window &&& 0xff)
    set s := canonical.numbered window length
    by_cases hlong : PAIR_BITS < used + length
    · rw [if_pos hlong]
      refine ⟨[], by simp, by simp [Leads], hu, Nat.zero_le _, fun _ _ t n ht => ?_⟩
      rwa [(ht.unique hb).2]
    · rw [if_neg hlong]
      obtain ⟨l, he, hl, hul, hll, -⟩ := @ih (window <<< length % 2 ^ 64) (used + length)
        (held ++ [s]) (Nat.mod_lt _ (Nat.two_pow_pos 64)) (by omega)
      have hlen : len ⟨s, hb.symbol_lt⟩ = length := hb.len_eq
      have hword : word ⟨s, hb.symbol_lt⟩ <+: msb 64 window :=
        (begins_iff hw _).1 (by rw [hlen]; exact hb)
      refine ⟨⟨s, hb.symbol_lt⟩ :: l, ?_, ?_, ?_, by simp only [List.length_cons]; omega, by simp⟩
      · rw [he]
        simp only [List.flatMap_cons, List.length_append, length_word, hlen, List.map_cons,
          List.append_assoc, List.singleton_append, Prod.mk.injEq, and_true]
        omega
      · have hdrop : l.flatMap word <+: (msb 64 window).drop length := by
          rw [PAIR_BITS] at hul
          rw [Leads, msb_mod le_rfl, msb_shiftLeft (by have := hb.length_bounds.2; omega)] at hl
          refine List.prefix_of_prefix_length_le hl (List.prefix_append _ _) ?_
          rw [List.length_drop, length_msb]
          omega
        obtain ⟨t, ht⟩ := hword
        rw [Leads, List.flatMap_cons, ← ht]
        rw [← ht, List.drop_left' (by rw [length_word, hlen])] at hdrop
        exact (List.prefix_append_right_inj _).2 hdrop
      · simp only [List.flatMap_cons, List.length_append, length_word, hlen]
        omega

/-- The four octets of an entry. -/
theorem entry_octets {u c : ℕ} (a b : UInt8) (hu : u < 256) (hc : c < 256) :
    let entry := u ||| c <<< 8 ||| a.toNat <<< 16 ||| b.toNat <<< 24
    entry % 2 ^ 8 = u ∧ entry >>> 8 % 2 ^ 8 = c ∧ UInt8.ofNat (entry >>> 16) = a ∧
      UInt8.ofNat (entry >>> 24) = b := by
  intro entry
  have ha := a.toNat_lt
  have he : entry = b.toNat * 2 ^ 24 + a.toNat * 2 ^ 16 + c * 2 ^ 8 + u := by
    have h1 : u ||| c <<< 8 = c * 2 ^ 8 + u := by
      rw [Nat.or_comm, ← Nat.shiftLeft_add_eq_or_of_lt hu, Nat.shiftLeft_eq]
    have h2 : u ||| c <<< 8 ||| a.toNat <<< 16 = a.toNat * 2 ^ 16 + (c * 2 ^ 8 + u) := by
      rw [h1, Nat.or_comm, ← Nat.shiftLeft_add_eq_or_of_lt (by omega), Nat.shiftLeft_eq]
    simp only [entry]
    rw [h2, Nat.or_comm, ← Nat.shiftLeft_add_eq_or_of_lt (by omega), Nat.shiftLeft_eq]
    omega
  have hofNat : ∀ (n : ℕ) (o : UInt8), n % 2 ^ 8 = o.toNat → UInt8.ofNat n = o := fun n o h => by
    rw [← UInt8.toNat_inj, UInt8.toNat_ofNat', h]
  have hb := b.toNat_lt
  simp only [Nat.shiftRight_eq_div_pow]
  exact ⟨by omega, by omega, hofNat _ _ (by omega), hofNat _ _ (by omega)⟩

/-- No word as short as `PAIR_BITS` is the end-of-string one. -/
theorem exists_octet {s : Fin 257} (h : len s ≤ PAIR_BITS) : ∃ o : UInt8, octet o = s := by
  rcases Nat.lt_or_ge s.1 256 with hs | hs
  · exact ⟨UInt8.ofNat s.1, Fin.ext (by simp [octet, Nat.mod_eq_of_lt hs])⟩
  · have : s = end_ := Fin.ext (by have := s.2; show s.1 = 256; omega)
    rw [this] at h
    exact absurd h (by decide +kernel)

theorem short_le {w : ℕ} (hw : w < 2 ^ 64) : canonical.short w &&& 0xff ≤ FAST_BITS := by
  by_cases h : canonical.short w &&& 0xff = 0
  · rw [h]
    exact Nat.zero_le _
  · have := fast_spec (shiftRight_fast hw)
    rw [← short, if_neg h] at this
    exact this.2.1

/-- The bits an entry of `pairs` is indexed by are the first of the window. -/
theorem shiftRight_index (w : ℕ) {l : ℕ} (hl : l ≤ PAIR_BITS) :
    (w >>> (64 - PAIR_BITS)) <<< (64 - PAIR_BITS) >>> (64 - l) = w >>> (64 - l) := by
  rw [PAIR_BITS] at *
  rw [show 64 - l = 64 - 12 + (12 - l) by omega, Nat.shiftRight_add, Nat.shiftLeft_shiftRight,
    ← Nat.shiftRight_add]

theorem getD_pairs {w : ℕ} (hw : w < 2 ^ 64) :
    canonical.pairs.getD (w >>> (64 - PAIR_BITS)) 0 = canonical.pair (w >>> (64 - PAIR_BITS)) := by
  have hlt : w >>> (64 - PAIR_BITS) < 2 ^ PAIR_BITS := by
    rw [Nat.shiftRight_eq_div_pow, PAIR_BITS]
    omega
  rw [pairs, List.getD_eq_getElem?_getD, List.getElem?_map, List.getElem?_range hlt]
  rfl

/-- What an entry of `pairs` says of the windows it stands for: nothing, where
    the word at the front is too long for it, or the one or two words `l` at
    the front. -/
theorem pairs_spec {w entry : ℕ} (hw : w < 2 ^ 64)
    (hentry : canonical.pairs.getD (w >>> (64 - PAIR_BITS)) 0 = entry) :
    entry % 2 ^ 8 = 0 ∧ canonical.short w &&& 0xff = 0 ∨
      ∃ l : List UInt8, 5 ≤ entry % 2 ^ 8 ∧ entry % 2 ^ 8 ≤ PAIR_BITS ∧
        entry % 2 ^ 8 = (l.flatMap octetWord).length ∧ l.flatMap octetWord <+: msb 64 w ∧
        [UInt8.ofNat (entry >>> 16), UInt8.ofNat (entry >>> 24)].take (entry >>> 8 % 2 ^ 8) = l ∧
        UInt8.ofNat (entry >>> 16) ||| UInt8.ofNat (entry >>> 24) = l.foldl (· ||| ·) 0 ∧
        entry >>> 8 % 2 ^ 8 = l.length := by
  have hw0 : (w >>> (64 - PAIR_BITS)) <<< (64 - PAIR_BITS) < 2 ^ 64 := by
    rw [Nat.shiftRight_eq_div_pow, Nat.shiftLeft_eq, PAIR_BITS]
    omega
  obtain ⟨l, he, hl, hu, hle, hnil⟩ := whole_spec PAIR_MOST [] hw0 (Nat.zero_le PAIR_BITS)
  rw [Nat.zero_add] at he hu
  rw [getD_pairs hw, pair, he, eq_comm] at hentry
  simp only [List.nil_append, List.length_map, List.length_eq_zero_iff] at hentry
  have hlead : l.flatMap word <+: msb 64 w := by
    rw [Leads, List.prefix_iff_eq_take, msb_take (by rw [PAIR_BITS] at hu; omega)] at hl
    rw [List.prefix_iff_eq_take, msb_take (by rw [PAIR_BITS] at hu; omega), ← shiftRight_index w hu]
    exact hl
  by_cases hl0 : l = []
  · refine .inl ⟨by rw [hentry, if_pos hl0]; rfl, ?_⟩
    by_contra hs
    have hfast := short_le hw
    have hb := (begins_short hw hs).congr (shiftRight_index w (hfast.trans (by decide)))
    have := hnil hl0 (by decide) _ _ hb
    rw [FAST_BITS] at hfast
    rw [PAIR_BITS] at this
    omega
  · obtain ⟨m, rfl⟩ : ∃ m : List UInt8, m.map octet = l := by
      rw [← Set.mem_range, Set.range_list_map]
      intro s hs
      refine exists_octet (le_trans ?_ hu)
      rw [← length_word, List.flatMap_def]
      exact (List.sublist_flatten_of_mem (List.mem_map_of_mem hs)).length_le
    rw [List.flatMap_map] at hlead hu
    have hget : ∀ i, (List.map Fin.val (m.map octet)).getD i 0 = (m.getD i 0).toNat := fun i => by
      rw [List.map_map, show (0 : ℕ) = (Fin.val ∘ octet) 0 from rfl, List.getD_map]
      rfl
    rw [if_neg hl0, List.flatMap_map, hget, hget, List.length_map] at hentry
    rw [List.length_map] at hle
    obtain ⟨h1, h2, h3, h4⟩ := entry_octets (m.getD 0 0) (m.getD 1 0)
      (hu.trans_lt (by decide)) (hle.trans_lt (by decide))
    rw [← hentry] at h1 h2 h3 h4
    rw [h1, h2, h3, h4]
    match m, hle with
    | [], _ => exact absurd rfl hl0
    | o :: m, hle =>
      refine .inr ⟨o :: m, ?_, hu, rfl, hlead, ?_⟩
      · rw [List.flatMap_cons, List.length_append, length_word]
        have := (len_bounds (octet o)).1
        omega
      · match m, hle with
        | [], _ => simp
        | [_], _ => simp
        | _ :: _ :: _, hle => simp [PAIR_MOST, PAIR_BITS] at hle

end Canonical

end Soyokaze.Huffman

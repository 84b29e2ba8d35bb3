import Soyokaze.Lib.Blocks
import Soyokaze.Helpers.Text

/-!
# SHA-1

The hash as it is worked out, over a window of sixteen words that is written over as the
rounds go and with what does not fill a block kept until more comes, and the hash as it is
defined, over a schedule of eighty words of every block of the padded message.

* `Sha1.compress_eq`: a block is mixed in as defined;
* `Sha1.holds_update`: whatever has come in, in whatever parts, the state is that of the
  whole blocks of it;
* `Sha1.digest_exact`: the digest is the one defined.
-/

namespace Soyokaze

namespace Sha1

/-- The size of one block, in octets. -/
def BLOCK_SIZE : ℕ := 64

/-- Five words. -/
@[ext] structure Words where
  a : UInt32
  b : UInt32
  c : UInt32
  d : UInt32
  e : UInt32
  deriving DecidableEq

/-- The words the state starts at. -/
def INITIAL_STATE : Words := ⟨0x67452301, 0xEFCDAB89, 0x98BADCFE, 0x10325476, 0xC3D2E1F0⟩

/-- The round constant of each stage. -/
def CONSTANTS : List UInt32 := [0x5A827999, 0x6ED9EBA1, 0x8F1BBCDC, 0xCA62C1D6]

/-- How many rounds one stage runs for. -/
def STAGE_ROUNDS : ℕ := 20

/-- How many words of the schedule are kept at once. -/
def SCHEDULE : ℕ := 16

/-- Rotates a word to the left. -/
def rotateLeft (word n : UInt32) : UInt32 := (word <<< n) ||| (word >>> (32 - n))

/-- A word of four octets, the first the highest. -/
def fromBeBytes (octets : Octets) : UInt32 :=
  .ofNat (((octets.getD 0 0).toNat * 256 + (octets.getD 1 0).toNat) * 65536 + (octets.getD 2 0).toNat * 256 + (octets.getD 3 0).toNat)

/-- A number in so many octets, the first the highest. -/
def toBeBytes : ℕ → ℕ → Octets
  | 0, _ => []
  | count + 1, n => toBeBytes count (n / 256) ++ [.ofNat n]

/-- The words added up. -/
def Words.add (held added : Words) : Words :=
  ⟨held.a + added.a, held.b + added.b, held.c + added.c, held.d + added.d, held.e + added.e⟩

/-! ## As it is worked out -/

/-- The schedule word for a round, and the window with that word in it. -/
def extend (words : List UInt32) (round : ℕ) : UInt32 × List UInt32 :=
  if round < SCHEDULE then (words.getD round 0, words)
  else
    let slot := round % SCHEDULE
    let extended := rotateLeft (words.getD ((round + 13) % SCHEDULE) 0 ^^^ words.getD ((round + 8) % SCHEDULE) 0 ^^^
      words.getD ((round + 2) % SCHEDULE) 0 ^^^ words.getD slot 0) 1
    (extended, words.set slot extended)

/-- The mix of three words a stage calls for. -/
def mixed (stage : ℕ) (b c d : UInt32) : UInt32 :=
  match stage with
  | 0 => d ^^^ (b &&& (c ^^^ d))
  | 2 => (b &&& c) ||| (d &&& (b ||| c))
  | _ => b ^^^ c ^^^ d

/-- One round, given the word it mixes in. -/
def round (state : Words) (stage : ℕ) (word : UInt32) : Words :=
  ⟨rotateLeft state.a 5 + mixed stage state.b state.c state.d + state.e + word + CONSTANTS.getD stage 0, state.a,
    rotateLeft state.b 30, state.c, state.d⟩

/-- One round of a stage, the word taken from the window. -/
def roundWith (stage : ℕ) (held : Words × List UInt32) (r : ℕ) : Words × List UInt32 :=
  (round held.1 stage (extend held.2 r).1, (extend held.2 r).2)

/-- The rounds of a stage. -/
def stageRounds (held : Words × List UInt32) (stage : ℕ) : Words × List UInt32 :=
  (List.range' (stage * STAGE_ROUNDS) STAGE_ROUNDS).foldl (roundWith stage) held

/-- Mixes one block into the state. -/
def compress (state : Words) (block : Octets) : Words :=
  let words := (List.range SCHEDULE).map fun index => fromBeBytes (block.drop (index * 4))
  state.add ((List.range CONSTANTS.length).foldl stageRounds (state, words)).1

/-- A hash in progress. -/
structure Hash where
  state : Words
  block : Octets
  filled : ℕ
  length : ℕ

/-- A hash over nothing yet. -/
def Hash.new : Hash := ⟨INITIAL_STATE, List.replicate BLOCK_SIZE 0, 0, 0⟩

namespace Hash

/-- Takes in the whole blocks of the input, and keeps what is over. -/
def direct (h : Hash) (input : Octets) : Hash :=
  let (state, rest) := Blocks.eat compress BLOCK_SIZE h.state input
  { h with state := state, block := rest ++ h.block.drop rest.length, filled := rest.length }

/-- Feeds more octets in. -/
def update (h : Hash) (input : Octets) : Hash :=
  let h := { h with length := (h.length + input.length * 8) % 2 ^ 64 }
  if 0 < h.filled then
    let taken := min (BLOCK_SIZE - h.filled) input.length
    let block := h.block.take h.filled ++ input.take taken ++ h.block.drop (h.filled + taken)
    if h.filled + taken < BLOCK_SIZE then { h with block := block, filled := h.filled + taken }
    else { h with state := compress h.state block, block := block, filled := 0 }.direct (input.drop taken)
  else h.direct input

/-- Pads the last block and returns the digest. -/
def finish (h : Hash) : Octets :=
  let zeroes := (BLOCK_SIZE + BLOCK_SIZE - 8 - (h.filled + 1) % BLOCK_SIZE) % BLOCK_SIZE
  let padding := (0x80 :: List.replicate (BLOCK_SIZE * 2 - 1) 0).take (1 + zeroes) ++ toBeBytes 8 h.length
  let state := (h.update padding).state
  toBeBytes 4 state.a.toNat ++ toBeBytes 4 state.b.toNat ++ toBeBytes 4 state.c.toNat ++ toBeBytes 4 state.d.toNat ++
    toBeBytes 4 state.e.toNat

end Hash

/-! ## As it is defined -/

namespace Fips

/-- The function of a round. -/
def f (t : ℕ) (x y z : UInt32) : UInt32 :=
  if t < 20 then (x &&& y) ^^^ (~~~x &&& z)
  else if t < 40 then x ^^^ y ^^^ z
  else if t < 60 then (x &&& y) ^^^ (x &&& z) ^^^ (y &&& z)
  else x ^^^ y ^^^ z

/-- The constant of a round. -/
def K (t : ℕ) : UInt32 :=
  if t < 20 then 0x5a827999 else if t < 40 then 0x6ed9eba1 else if t < 60 then 0x8f1bbcdc else 0xca62c1d6

/-- The schedule of a block: its own sixteen words, and each word behind them worked out of
    four before it. -/
def W (block : Octets) (t : ℕ) : UInt32 :=
  if t < 16 then fromBeBytes (block.drop (4 * t))
  else rotateLeft (W block (t - 3) ^^^ W block (t - 8) ^^^ W block (t - 14) ^^^ W block (t - 16)) 1

/-- One round. -/
def step (block : Octets) (v : Words) (t : ℕ) : Words :=
  ⟨rotateLeft v.a 5 + f t v.b v.c v.d + v.e + K t + W block t, v.a, rotateLeft v.b 30, v.c, v.d⟩

/-- The hash value behind a block. -/
def block (H : Words) (block : Octets) : Words := ((List.range 80).foldl (step block) H).add H

/-- The zeroes of the padding: as few as leave room for the length. -/
def zeroes (length : ℕ) : ℕ := (119 - length % 64) % 64

/-- The message with a one bit, zeroes, and its length in bits behind it. -/
def pad (message : Octets) : Octets :=
  message ++ [0x80] ++ List.replicate (zeroes message.length) 0 ++ toBeBytes 8 (8 * message.length)

/-- The digest of a message. -/
def digest (message : Octets) : Octets :=
  let H := (List.range ((pad message).length / 64)).foldl (fun H i => block H (((pad message).drop (64 * i)).take 64)) INITIAL_STATE
  toBeBytes 4 H.a.toNat ++ toBeBytes 4 H.b.toNat ++ toBeBytes 4 H.c.toNat ++ toBeBytes 4 H.d.toNat ++ toBeBytes 4 H.e.toNat

end Fips

/-! ## One block -/

/-- Two words are one where their bits are. -/
theorem word_ext {x y : UInt32} (h : ∀ i < 32, x.toBitVec.getLsbD i = y.toBitVec.getLsbD i) : x = y :=
  UInt32.toBitVec_inj.1 (BitVec.eq_of_getLsbD_eq fun i hi => h i hi)

/-- The mix of a stage is the function of each of its rounds. -/
theorem mixed_eq {t : ℕ} (h : t < 80) (b c d : UInt32) : mixed (t / STAGE_ROUNDS) b c d = Fips.f t b c d := by
  have hchoice : d ^^^ (b &&& (c ^^^ d)) = (b &&& c) ^^^ (~~~b &&& d) := word_ext fun i hi => by
    simp only [UInt32.toBitVec_xor, UInt32.toBitVec_and, UInt32.toBitVec_not, BitVec.getLsbD_xor, BitVec.getLsbD_and,
      BitVec.getLsbD_not, hi, decide_true, Bool.true_and]
    cases b.toBitVec.getLsbD i <;> cases c.toBitVec.getLsbD i <;> cases d.toBitVec.getLsbD i <;> rfl
  have hmajority : (b &&& c) ||| (d &&& (b ||| c)) = (b &&& c) ^^^ (b &&& d) ^^^ (c &&& d) := word_ext fun i hi => by
    simp only [UInt32.toBitVec_xor, UInt32.toBitVec_and, UInt32.toBitVec_or, BitVec.getLsbD_xor, BitVec.getLsbD_and,
      BitVec.getLsbD_or]
    cases b.toBitVec.getLsbD i <;> cases c.toBitVec.getLsbD i <;> cases d.toBitVec.getLsbD i <;> rfl
  rw [Fips.f, STAGE_ROUNDS]
  split_ifs with hfirst hsecond hthird
  · rw [Nat.div_eq_of_lt hfirst]
    exact hchoice
  · rw [show t / 20 = 1 by omega]
    rfl
  · rw [show t / 20 = 2 by omega]
    exact hmajority
  · rw [show t / 20 = 3 by omega]
    rfl

theorem constant_eq {t : ℕ} (h : t < 80) : CONSTANTS.getD (t / STAGE_ROUNDS) 0 = Fips.K t := by
  rw [Fips.K, STAGE_ROUNDS]
  split_ifs with hfirst hsecond hthird
  · rw [Nat.div_eq_of_lt hfirst]
    rfl
  · rw [show t / 20 = 1 by omega]
    rfl
  · rw [show t / 20 = 2 by omega]
    rfl
  · rw [show t / 20 = 3 by omega]
    rfl

/-- The window before a round holds the sixteen words of the schedule before it, or the
    block's own. -/
structure Window (block : Octets) (t : ℕ) (words : List UInt32) : Prop where
  length : words.length = SCHEDULE
  word : ∀ j, t ≤ j + SCHEDULE → j < max t SCHEDULE → words.getD (j % SCHEDULE) 0 = Fips.W block j

variable {block : Octets} {words : List UInt32} {t : ℕ}

theorem window_zero (block : Octets) :
    Window block 0 ((List.range SCHEDULE).map fun index => fromBeBytes (block.drop (index * 4))) := by
  refine ⟨by rw [List.length_map, List.length_range], fun j _ hj => ?_⟩
  have hj : j < 16 := by simpa [SCHEDULE] using hj
  rw [SCHEDULE, Nat.mod_eq_of_lt hj, Fips.W, if_pos hj, Nat.mul_comm 4 j]
  simp [List.getD_eq_getElem?_getD, hj]

/-- The window gives the word of its round, and is that of the next. -/
theorem Window.extend (h : Window block t words) :
    (Sha1.extend words t).1 = Fips.W block t ∧ Window block (t + 1) (Sha1.extend words t).2 := by
  obtain ⟨hlength, hword⟩ := h
  simp only [show SCHEDULE = 16 from rfl] at hlength hword
  by_cases hown : t < 16
  · have hat := hword t (by omega) (by omega)
    rw [Nat.mod_eq_of_lt hown] at hat
    have hsame : Sha1.extend words t = (words.getD t 0, words) := if_pos hown
    rw [hsame]
    refine ⟨hat, hlength, fun j hj hlt => ?_⟩
    simp only [show SCHEDULE = 16 from rfl] at hj hlt ⊢
    exact hword j (by omega) (by omega)
  · -- The four slots hold the words three, eight, fourteen and sixteen rounds back.
    have hthree := hword (t - 3) (by omega) (by omega)
    have height := hword (t - 8) (by omega) (by omega)
    have hfourteen := hword (t - 14) (by omega) (by omega)
    have hsixteen := hword (t - 16) (by omega) (by omega)
    rw [show (t - 3) % 16 = (t + 13) % 16 by omega] at hthree
    rw [show (t - 8) % 16 = (t + 8) % 16 by omega] at height
    rw [show (t - 14) % 16 = (t + 2) % 16 by omega] at hfourteen
    rw [show (t - 16) % 16 = t % 16 by omega] at hsixteen
    have hnew : rotateLeft (words.getD ((t + 13) % 16) 0 ^^^ words.getD ((t + 8) % 16) 0 ^^^ words.getD ((t + 2) % 16) 0 ^^^
        words.getD (t % 16) 0) 1 = Fips.W block t := by
      rw [hthree, height, hfourteen, hsixteen]
      conv_rhs => rw [Fips.W, if_neg hown]
    have hwindow : Sha1.extend words t = (Fips.W block t, words.set (t % 16) (Fips.W block t)) := by
      rw [← hnew]
      exact if_neg hown
    rw [hwindow]
    refine ⟨rfl, by rw [List.length_set, hlength]; rfl, fun j hj hlt => ?_⟩
    simp only [show SCHEDULE = 16 from rfl] at hj hlt ⊢
    by_cases hnow : j = t
    · rw [hnow, List.getD_eq_getElem?_getD, List.getElem?_set_self (by omega)]
      rfl
    · rw [List.getD_eq_getElem?_getD, List.getElem?_set_ne (by omega), ← List.getD_eq_getElem?_getD]
      exact hword j (by omega) (by omega)

/-- The rounds of a stage are the rounds of the definition. -/
theorem rounds_eq {stage n : ℕ} {v : Words} (h : Window block t words)
    (hstage : ∀ r, t ≤ r → r < t + n → r / STAGE_ROUNDS = stage ∧ r < 80) :
    ∃ words', (List.range' t n).foldl (roundWith stage) (v, words) = ((List.range' t n).foldl (Fips.step block) v, words') ∧
      Window block (t + n) words' := by
  induction n generalizing t v words with
  | zero => exact ⟨words, rfl, h⟩
  | succ n ih =>
    obtain ⟨hword, hnext⟩ := h.extend
    obtain ⟨rfl, hlt⟩ := hstage t (Nat.le_refl t) (by omega)
    have hround : roundWith (t / STAGE_ROUNDS) (v, words) t = (Fips.step block v t, (Sha1.extend words t).2) := by
      rw [roundWith, round, hword, mixed_eq hlt, constant_eq hlt, Fips.step]
      refine Prod.ext (Words.ext ?_ rfl rfl rfl rfl) rfl
      dsimp only
      ac_rfl
    obtain ⟨words', hrest, hlast⟩ := ih hnext (v := Fips.step block v t) fun r hr hlt => hstage r (by omega) (by omega)
    refine ⟨words', ?_, by rwa [Nat.add_right_comm] at hlast⟩
    rw [List.range'_succ, List.foldl_cons, List.foldl_cons, hround, hrest]

/-- So many stages are twenty times as many rounds. -/
theorem stages_eq {k : ℕ} (hk : k ≤ 4) (state : Words) (block : Octets) :
    ∃ words, (List.range k).foldl stageRounds
        (state, (List.range SCHEDULE).map fun index => fromBeBytes (block.drop (index * 4))) =
      ((List.range (k * STAGE_ROUNDS)).foldl (Fips.step block) state, words) ∧ Window block (k * STAGE_ROUNDS) words := by
  induction k with
  | zero => exact ⟨_, rfl, window_zero block⟩
  | succ k ih =>
    obtain ⟨words, hstages, hwindow⟩ := ih (Nat.le_of_succ_le hk)
    obtain ⟨words', hstage, hnext⟩ := @rounds_eq block words (k * STAGE_ROUNDS) k STAGE_ROUNDS
      ((List.range (k * STAGE_ROUNDS)).foldl (Fips.step block) state) hwindow fun r hr hlt => by
        rw [STAGE_ROUNDS] at hr hlt ⊢
        omega
    refine ⟨words', ?_, by rwa [Nat.succ_mul]⟩
    rw [List.range_succ, List.foldl_append, hstages, List.foldl_cons, List.foldl_nil, stageRounds, hstage, Nat.succ_mul,
      List.range_eq_range', List.range_eq_range', ← List.range'_append_1, List.foldl_append, Nat.zero_add]

/-- A block is mixed in as defined. -/
theorem compress_eq (state : Words) (block : Octets) : compress state block = Fips.block state block := by
  obtain ⟨words, hstages, -⟩ := stages_eq (Nat.le_refl 4) state block
  rw [compress, Fips.block, show CONSTANTS.length = 4 from rfl, hstages, Words.add, Words.add]
  simp only [show 4 * STAGE_ROUNDS = 80 from rfl, UInt32.add_comm]

/-! ## A message -/

/-- What has come in so far: the state is that of its whole blocks, and the buffer begins with
    what is over. -/
structure Holds (h : Hash) (all : Octets) : Prop where
  eaten : Blocks.eat compress BLOCK_SIZE INITIAL_STATE all = (h.state, h.block.take h.filled)
  filled : h.filled < BLOCK_SIZE
  block : h.block.length = BLOCK_SIZE
  length : h.length = all.length * 8 % 2 ^ 64

theorem holds_new : Holds .new [] := ⟨rfl, by decide, rfl, rfl⟩

/-- What is taken in where it lies leaves what is over in the buffer. -/
theorem holds_direct {h : Hash} {all input : Octets}
    (heaten : Blocks.eat compress BLOCK_SIZE INITIAL_STATE all = Blocks.eat compress BLOCK_SIZE h.state input)
    (hblock : h.block.length = BLOCK_SIZE) (hlength : h.length = all.length * 8 % 2 ^ 64) : Holds (h.direct input) all := by
  have hover : (Blocks.eat compress BLOCK_SIZE h.state input).2.length < BLOCK_SIZE := by
    rw [Blocks.length_eat_snd (by decide)]
    exact Nat.mod_lt _ (by decide)
  rw [Hash.direct]
  rcases heat : Blocks.eat compress BLOCK_SIZE h.state input with ⟨state, rest⟩
  rw [heat] at hover heaten
  refine ⟨heaten.trans (by rw [List.take_left]), hover, ?_, hlength⟩
  dsimp only at hover ⊢
  rw [List.length_append, List.length_drop, hblock]
  omega

/-- Whatever comes in is held with what has. -/
theorem holds_update {h : Hash} {all : Octets} (hheld : Holds h all) (input : Octets) : Holds (h.update input) (all ++ input) := by
  obtain ⟨heaten, hfilled, hblock, hlength⟩ := hheld
  have hlengths : (h.length + input.length * 8) % 2 ^ 64 = (all ++ input).length * 8 % 2 ^ 64 := by
    rw [hlength, List.length_append]
    omega
  have hpending : (h.block.take h.filled).length = h.filled := List.length_take_of_le (by omega)
  have hall : Blocks.eat compress BLOCK_SIZE INITIAL_STATE (all ++ input) =
      Blocks.eat compress BLOCK_SIZE h.state (h.block.take h.filled ++ input) := by
    rw [Blocks.eat_append (by decide), heaten]
  rw [Hash.update]
  dsimp only
  by_cases hempty : 0 < h.filled
  · rw [if_pos hempty]
    by_cases hshort : h.filled + min (BLOCK_SIZE - h.filled) input.length < BLOCK_SIZE
    · -- The buffer is not full yet, and holds all of the input.
      have htaken : min (BLOCK_SIZE - h.filled) input.length = input.length := by omega
      rw [htaken] at hshort
      rw [htaken, if_pos hshort, List.take_length]
      refine ⟨?_, hshort, ?_, hlengths⟩
      · have hboth : (h.block.take h.filled ++ input).length = h.filled + input.length := by rw [List.length_append, hpending]
        dsimp only
        rw [hall, Blocks.eat_short (by rwa [hboth]), ← hboth, List.take_left]
      · dsimp only
        rw [List.length_append, List.length_append, hpending, List.length_drop, hblock]
        omega
    · -- The buffer is filled by the beginning of the input, and what comes behind is taken in where it lies.
      have htaken : min (BLOCK_SIZE - h.filled) input.length = BLOCK_SIZE - h.filled := by omega
      have hroom : BLOCK_SIZE - h.filled ≤ input.length := by omega
      have hfull : h.block.drop (h.filled + (BLOCK_SIZE - h.filled)) = [] := List.drop_eq_nil_of_le (by omega)
      rw [if_neg hshort, htaken, hfull, List.append_nil]
      have hfront : (h.block.take h.filled ++ input.take (BLOCK_SIZE - h.filled)).length = BLOCK_SIZE := by
        rw [List.length_append, hpending, List.length_take_of_le hroom]
        omega
      have hsplit : h.block.take h.filled ++ input =
          (h.block.take h.filled ++ input.take (BLOCK_SIZE - h.filled)) ++ input.drop (BLOCK_SIZE - h.filled) := by
        rw [List.append_assoc, List.take_append_drop]
      refine holds_direct ?_ hfront hlengths
      rw [hall, hsplit, Blocks.eat_block (by decide) (by rw [List.length_append, hfront]; omega), List.take_left' hfront,
        List.drop_left' hfront]
  · rw [if_neg hempty]
    obtain hzero : h.filled = 0 := by omega
    rw [hzero, List.take_zero, List.nil_append] at hall
    exact holds_direct hall hblock hlengths

/-- The parts of a message are held as the message is. -/
theorem holds_parts {h : Hash} {all : Octets} (hheld : Holds h all) (parts : List Octets) :
    Holds (parts.foldl Hash.update h) (all ++ parts.flatten) := by
  induction parts generalizing h all with
  | nil => rwa [List.flatten_nil, List.append_nil]
  | cons part parts ih =>
    rw [List.foldl_cons, List.flatten_cons, ← List.append_assoc]
    exact ih (holds_update hheld part)

/-! ## The digest -/

/-- The zeroes are as few as leave the length the end of a block. -/
theorem zeroes_least (length : ℕ) : (length + 1 + Fips.zeroes length + 8) % 64 = 0 ∧
    ∀ k, (length + 1 + k + 8) % 64 = 0 → Fips.zeroes length ≤ k := by
  rw [Fips.zeroes]
  exact ⟨by omega, fun k hk => by omega⟩

theorem length_toBeBytes (count n : ℕ) : (toBeBytes count n).length = count := by
  induction count generalizing n with
  | zero => rfl
  | succ count ih => rw [toBeBytes, List.length_append, ih, List.length_singleton]

/-- What is fed in at the end pads the message. -/
theorem padding_eq {h : Hash} {all : Octets} (hheld : Holds h all) (hlength : all.length < 2 ^ 61) :
    all ++ ((0x80 :: List.replicate (BLOCK_SIZE * 2 - 1) 0).take
      (1 + (BLOCK_SIZE + BLOCK_SIZE - 8 - (h.filled + 1) % BLOCK_SIZE) % BLOCK_SIZE) ++ toBeBytes 8 h.length) = Fips.pad all := by
  have hfilled : h.filled = all.length % 64 := by
    have hover := @Blocks.length_eat_snd _ _ compress BLOCK_SIZE INITIAL_STATE all (by decide)
    have hroom := hheld.filled
    rwa [hheld.eaten, List.length_take_of_le (by rw [hheld.block]; omega)] at hover
  have hzeroes : (BLOCK_SIZE + BLOCK_SIZE - 8 - (h.filled + 1) % BLOCK_SIZE) % BLOCK_SIZE = Fips.zeroes all.length := by
    rw [hfilled, Fips.zeroes, BLOCK_SIZE]
    omega
  have hfew : Fips.zeroes all.length ≤ BLOCK_SIZE * 2 - 1 := by
    rw [Fips.zeroes, BLOCK_SIZE]
    omega
  have hbits : h.length = 8 * all.length := by
    rw [hheld.length, Nat.mod_eq_of_lt (by omega), Nat.mul_comm]
  rw [hzeroes, hbits, Nat.add_comm, List.take_succ_cons, List.take_replicate, Nat.min_eq_left hfew, Fips.pad]
  simp only [List.append_assoc]
  rfl

/-- However a message of less than 2^61 octets is split, its digest is the one defined. -/
theorem digest_exact (parts : List Octets) (h : parts.flatten.length < 2 ^ 61) :
    (parts.foldl Hash.update .new).finish = Fips.digest parts.flatten := by
  have hheld := holds_parts holds_new parts
  rw [List.nil_append] at hheld
  generalize parts.flatten = message at hheld h
  generalize parts.foldl Hash.update .new = hash at hheld
  -- The padding is held as one more part.
  have hpadded := (holds_update hheld ((0x80 :: List.replicate (BLOCK_SIZE * 2 - 1) 0).take
    (1 + (BLOCK_SIZE + BLOCK_SIZE - 8 - (hash.filled + 1) % BLOCK_SIZE) % BLOCK_SIZE) ++ toBeBytes 8 hash.length)).eaten
  rw [padding_eq hheld h] at hpadded
  have hstate := congrArg Prod.fst hpadded
  rw [Blocks.eat_fst, show compress = Fips.block from funext fun state => funext fun block => compress_eq state block] at hstate
  rw [Hash.finish, Fips.digest]
  dsimp only at hstate ⊢
  rw [← hstate]
  rfl

theorem digest_exact_abc : [lit "a", lit "bc"].flatten.length < 2 ^ 61 ∧
    ([lit "a", lit "bc"].foldl Hash.update .new).finish = Fips.digest [lit "a", lit "bc"].flatten :=
  ⟨by decide +kernel, digest_exact [lit "a", lit "bc"] (by decide +kernel)⟩

end Sha1

end Soyokaze

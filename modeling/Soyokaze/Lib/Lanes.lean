import Mathlib.Algebra.Order.Group.Nat
import Mathlib.Data.List.Basic

/-!
# Lanes of a word

A word of 64 bits is eight octets side by side, its lanes, the first of them lowest. An
operation on the bits of words is one on each of their lanes, and so is a subtraction none
of whose lanes borrows, or an addition none of whose lanes carries.

* `Lanes.Holds`: the lanes of a word are what a function makes of the members of a list,
  and how the operations on words keep it so;
* `Lanes.holds_less`: a subtraction whose lanes may borrow, a lane at a time;
* `Lanes.ctz_word`: the trailing zeros of a word are those of its first lane that is not zero.
-/

namespace Lanes

/-- Octets side by side as one number, the first of them lowest. -/
def pack (l : List UInt8) : ℕ := l.foldr (fun octet n => octet.toNat + 256 * n) 0

@[simp] theorem pack_nil : pack [] = 0 := rfl

@[simp] theorem pack_cons (octet : UInt8) (l : List UInt8) : pack (octet :: l) = octet.toNat + 256 * pack l := rfl

theorem pack_lt (l : List UInt8) : pack l < 256 ^ l.length := by
  induction l with
  | nil => exact Nat.one_pos
  | cons octet l ih =>
    have hoctet := octet.toNat_lt
    rw [pack_cons, List.length_cons, Nat.pow_succ]
    omega

/-- Nothing but lanes that are zero makes zero. -/
theorem pack_eq_zero {l : List UInt8} : pack l = 0 ↔ ∀ octet ∈ l, octet = 0 := by
  induction l with
  | nil => simp
  | cons octet l ih =>
    rw [pack_cons, List.forall_mem_cons, ← ih, ← UInt8.toNat_inj, UInt8.toNat_zero]
    omega

/-- The bits of a number are those of its lowest lane, and then those of the rest. -/
theorem testBit_lane {x : ℕ} (hx : x < 256) (n i : ℕ) :
    (x + 256 * n).testBit i = if i < 8 then x.testBit i else n.testBit (i - 8) := by
  rw [Nat.add_comm]
  exact Nat.testBit_two_pow_mul_add (i := 8) n hx i

/-- A bit is one of the lane it lies in. -/
theorem testBit_pack (l : List UInt8) (i : ℕ) : (pack l).testBit i = (l.getD (i / 8) 0).toNat.testBit (i % 8) := by
  induction l generalizing i with
  | nil => simp
  | cons octet l ih =>
    rw [pack_cons, testBit_lane octet.toNat_lt, ih]
    split_ifs with hi
    · rw [Nat.div_eq_of_lt hi, Nat.mod_eq_of_lt hi, List.getD_cons_zero]
    · have hdiv : i / 8 = (i - 8) / 8 + 1 := by omega
      have hmod : i % 8 = (i - 8) % 8 := by omega
      rw [hdiv, hmod, List.getD_cons_succ]

/-- What is done to the bits of two numbers is done to their lowest lanes, and to the rest. -/
theorem bitwise_lane (f : Bool → Bool → Bool) (hf : f false false = false) {x y : ℕ} (hx : x < 256) (hy : y < 256)
    (n m : ℕ) : Nat.bitwise f (x + 256 * n) (y + 256 * m) = Nat.bitwise f x y + 256 * Nat.bitwise f n m := by
  have hlow : Nat.bitwise f x y < 256 := Nat.bitwise_lt_two_pow (n := 8) hx hy
  refine Nat.eq_of_testBit_eq fun i => ?_
  rw [Nat.testBit_bitwise hf, testBit_lane hx, testBit_lane hy, testBit_lane hlow, Nat.testBit_bitwise hf,
    Nat.testBit_bitwise hf]
  split_ifs <;> rfl

section

variable {α : Type} {φ ψ χ : α → UInt8} {l : List α}

/-- An operation on bits is one on each lane. -/
theorem pack_bitwise (f : Bool → Bool → Bool) (hf : f false false = false)
    (h : ∀ a, (χ a).toNat = Nat.bitwise f (φ a).toNat (ψ a).toNat) :
    pack (l.map χ) = Nat.bitwise f (pack (l.map φ)) (pack (l.map ψ)) := by
  induction l with
  | nil =>
    rw [List.map_nil, List.map_nil, List.map_nil, pack_nil, Nat.bitwise, if_pos rfl]
    exact (ite_self 0).symm
  | cons a l ih =>
    rw [List.map_cons, List.map_cons, List.map_cons, pack_cons, pack_cons, pack_cons, ih, h,
      bitwise_lane f hf (φ a).toNat_lt (ψ a).toNat_lt]

/-- A lane and what turns all its bits around make up a lane that is full. -/
theorem pack_not : pack (l.map fun a => ~~~φ a) + pack (l.map φ) + 1 = 256 ^ l.length := by
  induction l with
  | nil => rfl
  | cons a l ih =>
    have hlane := (φ a).toNat_lt
    have hnot : (~~~φ a).toNat + (φ a).toNat + 1 = 256 := by
      rw [UInt8.toNat_not, UInt8.size]
      omega
    rw [List.map_cons, List.map_cons, pack_cons, pack_cons, List.length_cons, Nat.pow_succ, ← ih]
    omega

/-- Where no lane has to borrow, each lane is taken from by itself. -/
theorem pack_sub (h : ∀ a ∈ l, ψ a ≤ φ a) :
    pack (l.map fun a => φ a - ψ a) + pack (l.map ψ) = pack (l.map φ) := by
  induction l with
  | nil => rfl
  | cons a l ih =>
    obtain ⟨ha, hl⟩ := List.forall_mem_cons.1 h
    have hlane : (ψ a).toNat ≤ (φ a).toNat := UInt8.le_iff_toNat_le.1 ha
    rw [List.map_cons, List.map_cons, List.map_cons, pack_cons, pack_cons, pack_cons, ← ih hl, UInt8.toNat_sub_of_le _ _ ha]
    omega

/-- Where no lane carries, each lane is added to by itself. -/
theorem pack_add (h : ∀ a ∈ l, (φ a).toNat + (ψ a).toNat < 256) :
    pack (l.map fun a => φ a + ψ a) = pack (l.map φ) + pack (l.map ψ) := by
  induction l with
  | nil => rfl
  | cons a l ih =>
    obtain ⟨ha, hl⟩ := List.forall_mem_cons.1 h
    rw [List.map_cons, List.map_cons, List.map_cons, pack_cons, pack_cons, pack_cons, ih hl, UInt8.toNat_add,
      Nat.mod_eq_of_lt ha]
    omega

end

/-! ## Words -/

/-- Octets as a word. -/
def word (l : List UInt8) : UInt64 := .ofNat (pack l)

theorem toNat_word {l : List UInt8} (h : l.length = 8) : (word l).toNat = pack l := by
  have hlt := pack_lt l
  rw [h] at hlt
  exact Nat.mod_eq_of_lt hlt

/-- So many lanes of a number, the lowest first. -/
def unpack : ℕ → ℕ → List UInt8
  | 0, _ => []
  | count + 1, n => .ofNat n :: unpack count (n / 256)

theorem unpack_pack (l : List UInt8) : unpack l.length (pack l) = l := by
  induction l with
  | nil => rfl
  | cons octet l ih =>
    have hoctet := octet.toNat_lt
    have hlow : UInt8.ofNat (octet.toNat + 256 * pack l) = octet := by
      rw [← UInt8.toNat_inj, UInt8.toNat_ofNat']
      omega
    rw [List.length_cons, pack_cons, unpack, hlow, show (octet.toNat + 256 * pack l) / 256 = pack l by omega, ih]

/-- The octets of a word. -/
def octets (w : UInt64) : List UInt8 := unpack 8 w.toNat

/-- The lanes of a word are what a function makes of the members of a list of eight. -/
structure Holds {α : Type} (l : List α) (w : UInt64) (φ : α → UInt8) : Prop where
  eight : l.length = 8
  toNat_eq : w.toNat = pack (l.map φ)

theorem holds_word {l : List UInt8} (h : l.length = 8) : Holds l (word l) fun x => x :=
  ⟨h, by rw [List.map_id', toNat_word h]⟩

/-- A word that is one octet over and over. -/
theorem holds_const {α : Type} {l : List α} (h : l.length = 8) (octet : UInt8) :
    Holds l (0x0101010101010101 * octet.toUInt64) fun _ => octet := by
  refine ⟨h, ?_⟩
  have hoctet := octet.toNat_lt
  have hlow : (0x0101010101010101 : UInt64).toNat = 0x0101010101010101 := rfl
  rw [List.map_const', h, UInt64.toNat_mul, hlow, UInt8.toNat_toUInt64]
  simp only [List.replicate, pack_cons, pack_nil]
  omega

namespace Holds

variable {α : Type} {φ ψ : α → UInt8} {l : List α} {w v : UInt64}

theorem eq_word (h : Holds l w φ) : w = word (l.map φ) := by
  rw [← UInt64.toNat_inj, toNat_word (by rw [List.length_map, h.eight]), h.toNat_eq]

/-- What is made of the images of the members is made of the members. -/
theorem of_map {β : Type} (f : β → α) (φ : α → UInt8) {m : List β} (h : Holds (m.map f) w φ) : Holds m w fun b => φ (f b) :=
  ⟨by rw [← h.eight, List.length_map], by rw [h.toNat_eq, List.map_map]; rfl⟩

theorem octets_eq (h : Holds l w φ) : octets w = l.map φ := by
  rw [octets, h.toNat_eq, ← h.eight, ← List.length_map φ, unpack_pack]

theorem lt (h : Holds l w φ) : pack (l.map φ) < 256 ^ 8 := by
  rw [← h.eight, ← List.length_map φ]
  exact pack_lt _

theorem and (hw : Holds l w φ) (hv : Holds l v ψ) : Holds l (w &&& v) fun a => φ a &&& ψ a := by
  refine ⟨hw.eight, ?_⟩
  rw [UInt64.toNat_and, hw.toNat_eq, hv.toNat_eq]
  exact (pack_bitwise _ rfl fun a => UInt8.toNat_and (φ a) (ψ a)).symm

theorem or (hw : Holds l w φ) (hv : Holds l v ψ) : Holds l (w ||| v) fun a => φ a ||| ψ a := by
  refine ⟨hw.eight, ?_⟩
  rw [UInt64.toNat_or, hw.toNat_eq, hv.toNat_eq]
  exact (pack_bitwise _ rfl fun a => UInt8.toNat_or (φ a) (ψ a)).symm

theorem xor (hw : Holds l w φ) (hv : Holds l v ψ) : Holds l (w ^^^ v) fun a => φ a ^^^ ψ a := by
  refine ⟨hw.eight, ?_⟩
  rw [UInt64.toNat_xor, hw.toNat_eq, hv.toNat_eq]
  exact (pack_bitwise _ rfl fun a => UInt8.toNat_xor (φ a) (ψ a)).symm

theorem not (hw : Holds l w φ) : Holds l (~~~w) fun a => ~~~φ a := by
  refine ⟨hw.eight, ?_⟩
  have hnot := pack_not (φ := φ) (l := l)
  rw [hw.eight] at hnot
  rw [UInt64.toNat_not, hw.toNat_eq, UInt64.size]
  omega

/-- A subtraction none of whose lanes borrows. -/
theorem sub (hw : Holds l w φ) (hv : Holds l v ψ) (h : ∀ a ∈ l, ψ a ≤ φ a) : Holds l (w - v) fun a => φ a - ψ a := by
  refine ⟨hw.eight, ?_⟩
  have hsub := pack_sub h
  have hle : v ≤ w := by
    rw [UInt64.le_iff_toNat_le, hw.toNat_eq, hv.toNat_eq]
    omega
  rw [UInt64.toNat_sub_of_le _ _ hle, hw.toNat_eq, hv.toNat_eq]
  omega

/-- An addition none of whose lanes carries. -/
theorem add (hw : Holds l w φ) (hv : Holds l v ψ) (h : ∀ a ∈ l, (φ a).toNat + (ψ a).toNat < 256) :
    Holds l (w + v) fun a => φ a + ψ a := by
  refine ⟨hw.eight, ?_⟩
  have hlt := pack_lt (l.map fun a => φ a + ψ a)
  rw [List.length_map, hw.eight] at hlt
  rw [UInt64.toNat_add, hw.toNat_eq, hv.toNat_eq, ← pack_add h]
  exact Nat.mod_eq_of_lt hlt

/-- A word comes to nothing where each of its lanes does. -/
theorem eq_zero_iff (hw : Holds l w φ) : w = 0 ↔ ∀ a ∈ l, φ a = 0 := by
  rw [← UInt64.toNat_inj, hw.toNat_eq, UInt64.toNat_zero, pack_eq_zero, List.forall_mem_map]

end Holds

/-! ## Borrowing -/

/-- What is left of lanes when as much is taken from each, the lowest first: a lane that has
    too little borrows from the next. -/
def less (y : UInt8) : List UInt8 → (borrow : ℕ) → List UInt8
  | [], _ => []
  | x :: l, borrow =>
    .ofNat (x.toNat + 256 - (y.toNat + borrow)) :: less y l (if x.toNat < y.toNat + borrow then 1 else 0)

@[simp] theorem length_less (y : UInt8) (l : List UInt8) (borrow : ℕ) : (less y l borrow).length = l.length := by
  induction l generalizing borrow with
  | nil => rfl
  | cons x l ih => rw [less, List.length_cons, List.length_cons, ih]

/-- What was there is what is left and what was taken, but for what the last lane borrows. -/
theorem pack_less (y : UInt8) (l : List UInt8) {borrow : ℕ} (hborrow : borrow ≤ 1) :
    ∃ owed, pack l + 256 ^ l.length * owed = pack (less y l borrow) + pack (l.map fun _ => y) + borrow := by
  induction l generalizing borrow with
  | nil => exact ⟨borrow, by simp [less]⟩
  | cons x l ih =>
    have hx := x.toNat_lt
    have hy := y.toNat_lt
    have hnext : (if x.toNat < y.toNat + borrow then 1 else 0) ≤ 1 := by split_ifs <;> omega
    obtain ⟨owed, howed⟩ := ih hnext
    refine ⟨owed, ?_⟩
    have hlane : (UInt8.ofNat (x.toNat + 256 - (y.toNat + borrow))).toNat = (x.toNat + 256 - (y.toNat + borrow)) % 256 := rfl
    rw [less, List.map_cons, pack_cons, pack_cons, pack_cons, List.length_cons, Nat.pow_succ, hlane,
      Nat.mul_comm (256 ^ l.length), Nat.mul_assoc]
    split_ifs at howed ⊢ <;> omega

/-- A subtraction of words whose lanes may borrow. -/
theorem holds_less (y : UInt8) {l : List UInt8} (hl : l.length = 8) :
    Holds (less y l 0) (word l - 0x0101010101010101 * y.toUInt64) fun x => x := by
  refine ⟨by rw [length_less, hl], ?_⟩
  obtain ⟨owed, howed⟩ := pack_less y l (Nat.zero_le 1)
  have hconst := holds_const hl y
  have htaken := hconst.lt
  have hlt := pack_lt (less y l 0)
  rw [length_less, hl] at hlt
  rw [hl] at howed
  rw [UInt64.toNat_sub, toNat_word hl, hconst.toNat_eq, List.map_id']
  omega

/-! ## Trailing zeros -/

/-- The first bit that is set is as far on as there are zeros. -/
theorem ctz_eq {width n : ℕ} {w : BitVec width} (hset : w.getLsbD n = true) (hclear : ∀ m < n, w.getLsbD m = false) :
    w.ctz.toNat = n := by
  have hne : w ≠ (0 : BitVec width) := by
    rintro rfl
    simp at hset
  have hctz := BitVec.getLsbD_true_ctz_of_ne_zero hne
  rcases Nat.lt_trichotomy w.ctz.toNat n with hlt | heq | hgt
  · rw [hclear _ hlt] at hctz
    cases hctz
  · exact heq
  · rw [BitVec.getLsbD_false_of_lt_ctz hgt] at hset
    cases hset

/-- The trailing zeros of a word are its lanes that are zero, and those of the lane after them. -/
theorem ctz_word {l : List UInt8} (hl : l.length = 8) {i k : ℕ} (hk : k < 8) (hset : (l.getD i 0).toNat.testBit k = true)
    (hclear : ∀ j < k, (l.getD i 0).toNat.testBit j = false) (hzero : ∀ j < i, l.getD j 0 = 0) :
    (word l).toBitVec.ctz.toNat = 8 * i + k := by
  have hbit (m : ℕ) : (word l).toBitVec.getLsbD m = (l.getD (m / 8) 0).toNat.testBit (m % 8) := by
    rw [← testBit_pack, ← toNat_word hl]
    rfl
  refine ctz_eq ?_ fun m hm => ?_
  · rw [hbit, show (8 * i + k) / 8 = i by omega, show (8 * i + k) % 8 = k by omega, hset]
  · rw [hbit]
    rcases Nat.lt_or_ge (m / 8) i with hlt | hge
    · rw [hzero _ hlt]
      exact Nat.zero_testBit _
    · rw [show m / 8 = i by omega]
      exact hclear _ (by omega)

end Lanes

import Mathlib.Algebra.Order.Group.Nat

/-!
# Numerals

A number written as digits of a base, the lowest digit first and each before what is
written already.

* `Numeral.exists_write`: what is written of a number is digits that have its value.
-/

namespace Numeral

variable {α : Type} (base : ℕ) (digit : ℕ → α) (value : α → ℕ)

/-- Writes the digits of a number before what is written already, of which there are no more than `fuel`. -/
def write : ℕ → ℕ → List α → List α
  | 0, _, written => written
  | fuel + 1, n, written =>
    if n / base = 0 then digit (n % base) :: written else write fuel (n / base) (digit (n % base) :: written)

/-- The number that digits are. -/
def read (digits : List α) : ℕ := digits.foldl (fun n a => n * base + value a) 0

variable {base digit value}

/-- What is written of a number is one digit or more, and has its value. -/
theorem exists_write (hbase : 0 < base) (hdigit : ∀ n < base, value (digit n) = n) {fuel n : ℕ} (written : List α)
    (h : n < base ^ fuel) (hfuel : 0 < fuel) :
    ∃ digits, write base digit fuel n written = digits ++ written ∧ digits ≠ [] ∧
      (∀ a ∈ digits, ∃ m < base, a = digit m) ∧ read base value digits = n := by
  induction fuel generalizing n written with
  | zero => exact absurd hfuel (Nat.lt_irrefl 0)
  | succ fuel ih =>
    have hlt : n % base < base := Nat.mod_lt n hbase
    have hvalue : n / base * base + n % base = n := Nat.div_add_mod' n base
    rw [write]
    by_cases hzero : n / base = 0
    · rw [if_pos hzero]
      refine ⟨[digit (n % base)], rfl, List.cons_ne_nil _ _, fun a ha => ⟨_, hlt, List.mem_singleton.1 ha⟩, ?_⟩
      rw [hzero, Nat.zero_mul, Nat.zero_add] at hvalue
      rw [read, List.foldl_cons, List.foldl_nil, hdigit _ hlt, Nat.zero_mul, Nat.zero_add, hvalue]
    · rw [if_neg hzero]
      have hless : n / base < base ^ fuel := Nat.div_lt_of_lt_mul (by rwa [Nat.pow_succ, Nat.mul_comm] at h)
      have hmore : 0 < fuel := Nat.pos_of_ne_zero fun hnil => by
        rw [hnil, Nat.pow_zero, Nat.lt_one_iff] at hless
        exact hzero hless
      obtain ⟨digits, hwritten, -, hdigits, hread⟩ := ih (digit (n % base) :: written) hless hmore
      refine ⟨digits ++ [digit (n % base)], by rw [hwritten, List.append_assoc]; rfl, by simp, fun a ha => ?_, ?_⟩
      · rcases List.mem_append.1 ha with ha | ha
        · exact hdigits a ha
        · exact ⟨_, hlt, List.mem_singleton.1 ha⟩
      · rw [read] at hread ⊢
        rw [List.foldl_append, hread, List.foldl_cons, List.foldl_nil, hdigit _ hlt, hvalue]

end Numeral

import Mathlib.Algebra.Order.Group.Nat
import Mathlib.Tactic.SplitIfs

/-!
# Checked arithmetic

The operations of a machine word, each of which answers nothing where its exact
result is not a word. A computation written with them in the `Option` monad
answers something exactly where none of its steps overflows or underflows, so
that `c = some a` says of it both what it computes and that it is safe.
-/

namespace Checked

variable {limit a b c : ℕ}

/-- The sum, if it is within `limit`. -/
def add (limit a b : ℕ) : Option ℕ := if a + b ≤ limit then some (a + b) else none

/-- The difference, if it is not below zero. -/
def sub (a b : ℕ) : Option ℕ := if b ≤ a then some (a - b) else none

/-- The product, if it is within `limit`. -/
def mul (limit a b : ℕ) : Option ℕ := if a * b ≤ limit then some (a * b) else none

/-- A word of `w` bits shifted up, if by less than its width. -/
def shiftLeft (w word n : ℕ) : Option ℕ := if n < w then some (word <<< n % 2 ^ w) else none

/-- A word of `w` bits shifted down, if by less than its width. -/
def shiftRight (w word n : ℕ) : Option ℕ := if n < w then some (word >>> n) else none

theorem add_of_le (h : a + b ≤ limit) : add limit a b = some (a + b) := if_pos h

theorem add_of_lt (h : limit < a + b) : add limit a b = none := if_neg h.not_ge

theorem sub_of_le (h : b ≤ a) : sub a b = some (a - b) := if_pos h

theorem mul_of_le (h : a * b ≤ limit) : mul limit a b = some (a * b) := if_pos h

theorem shiftLeft_of_lt {w word n : ℕ} (h : n < w) : shiftLeft w word n = some (word <<< n % 2 ^ w) := if_pos h

theorem shiftRight_of_lt {w word n : ℕ} (h : n < w) : shiftRight w word n = some (word >>> n) := if_pos h

theorem add_eq_some : add limit a b = some c ↔ a + b = c ∧ c ≤ limit := by
  rw [add]
  split_ifs with h
  · rw [Option.some_inj]
    exact ⟨fun hc => ⟨hc, hc ▸ h⟩, And.left⟩
  · exact iff_of_false nofun fun hc => h (hc.1 ▸ hc.2)

theorem sub_eq_some : sub a b = some c ↔ b + c = a := by
  rw [sub]
  split_ifs with h
  · rw [Option.some_inj]
    exact ⟨fun hc => hc ▸ Nat.add_sub_cancel' h, fun hc => Nat.sub_eq_of_eq_add' hc.symm⟩
  · exact iff_of_false nofun fun hc => h (hc ▸ Nat.le_add_right b c)

end Checked

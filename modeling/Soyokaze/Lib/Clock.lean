import Mathlib.Algebra.Order.Ring.Int
import Mathlib.Order.Lattice

/-!
# A clock

A clock holds times whose seconds are a signed 64-bit number, to the nanosecond, and can be
asked for a time so many seconds later, which it may not be able to hold.

* `Instant.checkedAdd_eq_some`, `Instant.lt_of_checkedAdd_eq_none`: what it comes to, and that
  it is later than any time there is where it comes to none.
-/

/-- A time the clock can hold, in nanoseconds. -/
structure Instant where
  nanos : ℤ
  lower : -2 ^ 63 * 10 ^ 9 ≤ nanos
  upper : nanos < 2 ^ 63 * 10 ^ 9

namespace Instant

theorem nanos_injective : Function.Injective nanos := by
  rintro ⟨nanos, -, -⟩ ⟨_, -, -⟩ rfl
  rfl

instance : LinearOrder Instant := @LinearOrder.lift' Instant ℤ Int.instLinearOrder nanos nanos_injective

/-- So many seconds after the clock's own beginning. -/
def second (n : ℕ) (h : n < 2 ^ 63 := by decide) : Instant := ⟨n * 10 ^ 9, by omega, by omega⟩

/-- So many seconds after a time, in nanoseconds, whether or not the clock can hold it. -/
def after (now : Instant) (seconds : ℕ) : ℤ := now.nanos + seconds * 10 ^ 9

theorem le_after (now : Instant) (seconds : ℕ) : now.nanos ≤ now.after seconds := by
  simp only [after]
  omega

/-- So many seconds after a time, if the clock can hold it. -/
def checkedAdd (now : Instant) (seconds : ℕ) : Option Instant :=
  if h : now.after seconds < 2 ^ 63 * 10 ^ 9 then
    some ⟨now.after seconds, now.lower.trans (le_after now seconds), h⟩
  else none

theorem checkedAdd_eq_some {now later : Instant} {seconds : ℕ} (h : now.checkedAdd seconds = some later) :
    later.nanos = now.after seconds := by
  rw [checkedAdd] at h
  split_ifs at h
  cases h
  rfl

theorem lt_of_checkedAdd_eq_none {now : Instant} {seconds : ℕ} (h : now.checkedAdd seconds = none) (later : Instant) :
    later.nanos < now.after seconds := by
  rw [checkedAdd] at h
  split_ifs at h with hlarge
  exact later.upper.trans_le (not_lt.1 hlarge)

/-- What is longer after a time is later. -/
theorem after_mono {now : Instant} {seconds seconds' : ℕ} (h : seconds ≤ seconds') : now.after seconds ≤ now.after seconds' := by
  simp only [after]
  omega

/-- The clock can hold what is no later than what it can. -/
theorem checkedAdd_isSome_mono {now : Instant} {seconds seconds' : ℕ} (hle : seconds ≤ seconds')
    (h : (now.checkedAdd seconds').isSome = true) : (now.checkedAdd seconds).isSome = true := by
  rw [checkedAdd] at h ⊢
  split_ifs at h with hlarge
  · rw [dif_pos ((after_mono hle).trans_lt hlarge)]
    rfl
  · cases h

end Instant

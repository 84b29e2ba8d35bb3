import Mathlib.Algebra.Order.Group.Defs
import Mathlib.Data.List.Basic

/-!
# Sliding windows

Times at which something was let happen, no more than so many of them within any window of
a length.

* `Sparse.snoc`: one more may be let happen where fewer lie within the window that ends there.
-/

universe u

variable {T : Type u} [AddCommGroup T] [LinearOrder T] {period now : T} {most : ℕ} {times : List T}

/-- No window of this length has more of the times than this in it. -/
def Sparse (period : T) (most : ℕ) (times : List T) : Prop :=
  ∀ start, (times.countP fun at' => start ≤ at' ∧ at' ≤ start + period) ≤ most

namespace Sparse

theorem nil : Sparse period most [] := fun _ => Nat.zero_le _

variable [IsOrderedAddMonoid T]

/-- Those within the window that ends at a time are no more. -/
theorem countP_le (h : Sparse period most times) (hle : ∀ at' ∈ times, at' ≤ now) :
    (times.countP fun at' => now - at' ≤ period) ≤ most := by
  refine le_trans (List.countP_mono_left fun at' hat hrecent => ?_) (h (now - period))
  have hrecent : now - at' ≤ period := of_decide_eq_true hrecent
  exact decide_eq_true ⟨sub_le_comm.1 hrecent, by rw [sub_add_cancel]; exact hle at' hat⟩

theorem snoc (h : Sparse period most times)
    (hfew : (times.countP fun at' => now - at' ≤ period) < most) : Sparse period most (times ++ [now]) := by
  intro start
  rw [List.countP_append, List.countP_singleton]
  split_ifs with hin
  · -- The window that ends now has in it whatever a window has that now is in.
    have hend : now ≤ start + period := (of_decide_eq_true hin).2
    refine Nat.lt_of_le_of_lt (List.countP_mono_left fun at' _ hat => ?_) hfew
    have hstart : start ≤ at' := (of_decide_eq_true hat).1
    refine decide_eq_true (sub_le_iff_le_add'.2 (hend.trans ?_))
    exact add_le_add_left hstart period
  · exact h start

end Sparse

import Mathlib.Algebra.Order.Group.Nat
import Mathlib.Data.List.Infix

/-!
# Blocks of a stream

A state that takes in a stream a block at a time. What is over after the last whole block
is kept, and what comes next is put behind it, so that a stream gives one state however
it comes in.

* `eat_append`: taking in a stream is taking in its beginning and then the rest, with
  what was over in front;
* `eat_eq`: what taking in a block does not change, taking in a stream does not;
* `eat_fst`: the state is that of the whole blocks of the stream, one after another.
-/

namespace Blocks

variable {α σ : Type} {f : σ → List α → σ} {n : ℕ} {s : σ} {l m : List α}

/-- Takes in so many blocks, and gives what is over. -/
def eatLoop (f : σ → List α → σ) (n : ℕ) : ℕ → σ → List α → σ × List α
  | 0, s, l => (s, l)
  | count + 1, s, l => eatLoop f n count (f s (l.take n)) (l.drop n)

/-- Takes in all whole blocks. -/
def eat (f : σ → List α → σ) (n : ℕ) (s : σ) (l : List α) : σ × List α := eatLoop f n (l.length / n) s l

/-- Less than a block is over in whole. -/
theorem eat_short (h : l.length < n) : eat f n s l = (s, l) := by
  rw [eat, Nat.div_eq_of_lt h]
  rfl

/-- A block is taken in before the rest. -/
theorem eat_block (hn : 0 < n) (h : n ≤ l.length) : eat f n s l = eat f n (f s (l.take n)) (l.drop n) := by
  rw [eat, eat, Nat.div_eq_sub_div hn h, List.length_drop]
  rfl

/-- A stream may be taken in a part at a time. -/
theorem eat_append (hn : 0 < n) : eat f n s (l ++ m) = eat f n (eat f n s l).1 ((eat f n s l).2 ++ m) := by
  obtain ⟨k, hk⟩ : ∃ k, l.length ≤ k := ⟨_, Nat.le_refl _⟩
  induction k generalizing s l with
  | zero =>
    obtain rfl := List.eq_nil_of_length_eq_zero (Nat.le_zero.1 hk)
    rw [eat_short (l := []) hn]
  | succ k ih =>
    by_cases hshort : l.length < n
    · rw [eat_short hshort]
    · have hle := Nat.not_lt.1 hshort
      have hless : (l.drop n).length ≤ k := by
        rw [List.length_drop]
        omega
      rw [eat_block hn hle, ← ih hless, eat_block hn (hle.trans (by rw [List.length_append]; omega)),
        List.take_append_of_le_length hle, List.drop_append_of_le_length hle]

/-- What is over is what a division into blocks leaves. -/
theorem length_eat_snd (hn : 0 < n) : (eat f n s l).2.length = l.length % n := by
  obtain ⟨k, hk⟩ : ∃ k, l.length ≤ k := ⟨_, Nat.le_refl _⟩
  induction k generalizing s l with
  | zero =>
    obtain rfl := List.eq_nil_of_length_eq_zero (Nat.le_zero.1 hk)
    rw [eat_short (l := []) hn, List.length_nil, Nat.zero_mod]
  | succ k ih =>
    by_cases hshort : l.length < n
    · rw [eat_short hshort, Nat.mod_eq_of_lt hshort]
    · have hle := Nat.not_lt.1 hshort
      have hless : (l.drop n).length ≤ k := by
        rw [List.length_drop]
        omega
      rw [eat_block hn hle, ih hless, List.length_drop, Nat.mod_eq_sub_mod hle]

/-- What taking in a block does not change, taking in a stream does not. -/
theorem eat_eq {γ : Type} {h : σ → List α → γ} (hn : 0 < n)
    (hstep : ∀ s b rest, b.length = n → h (f s b) rest = h s (b ++ rest)) : h (eat f n s l).1 (eat f n s l).2 = h s l := by
  obtain ⟨k, hk⟩ : ∃ k, l.length ≤ k := ⟨_, Nat.le_refl _⟩
  induction k generalizing s l with
  | zero =>
    obtain rfl := List.eq_nil_of_length_eq_zero (Nat.le_zero.1 hk)
    rw [eat_short (l := []) hn]
  | succ k ih =>
    by_cases hshort : l.length < n
    · rw [eat_short hshort]
    · have hle := Nat.not_lt.1 hshort
      have hless : (l.drop n).length ≤ k := by
        rw [List.length_drop]
        omega
      rw [eat_block hn hle, ih hless, hstep s _ _ (List.length_take_of_le hle), List.take_append_drop]

/-- Where a block is taken in as its members are one after another, so is a stream. -/
theorem eat_foldl {g : σ → α → σ} (hn : 0 < n) (h : ∀ s b, b.length = n → f s b = b.foldl g s) :
    (eat f n s l).2.foldl g (eat f n s l).1 = l.foldl g s := by
  refine eat_eq (h := fun s l => l.foldl g s) hn fun s b rest hb => ?_
  rw [h s b hb, List.foldl_append]

/-- The state is that of the blocks, one after another. -/
theorem eat_fst : (eat f n s l).1 = (List.range (l.length / n)).foldl (fun s i => f s ((l.drop (n * i)).take n)) s := by
  rw [eat]
  generalize l.length / n = count
  induction count generalizing s l with
  | zero => rfl
  | succ count ih =>
    rw [eatLoop, ih, List.range_succ_eq_map, List.foldl_cons, List.foldl_map, Nat.mul_zero, List.drop_zero]
    refine congrArg (fun g => List.foldl g _ _) (funext fun s => funext fun i => ?_)
    rw [List.drop_drop, Nat.mul_succ, Nat.add_comm]

end Blocks

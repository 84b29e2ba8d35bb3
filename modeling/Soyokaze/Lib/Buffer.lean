import Mathlib.Data.List.Basic
import Mathlib.Tactic.SplitIfs

/-!
# Buffers whose cells may hold nothing yet

Memory that was reserved and is written in place: a write past its end answers nothing,
and neither do contents that were never written.

* `Holds.write`: what is written at the end of what a buffer holds is held behind it, or
  as much of it as is counted;
* `Holds.contents`: what is held can be read.
-/

namespace Buffer

variable {α : Type*} {cells : List (Option α)} {l : List α}

/-- A buffer that holds some items, with room for more. -/
def new (held : List α) (room : ℕ) : List (Option α) := held.map some ++ List.replicate room none

/-- Writes items from a position on, if they fit. -/
def write (cells : List (Option α)) (at_ : ℕ) (items : List α) : Option (List (Option α)) :=
  if at_ + items.length ≤ cells.length then
    some (cells.take at_ ++ (items.map some ++ cells.drop (at_ + items.length)))
  else none

/-- The first items, if there are so many and all were written. -/
def contents (cells : List (Option α)) (n : ℕ) : Option (List α) :=
  if n ≤ cells.length then (cells.take n).mapM id else none

/-- A buffer holds items, from its beginning. -/
def Holds (cells : List (Option α)) (l : List α) : Prop := l.map some <+: cells

theorem holds_new (held : List α) (room : ℕ) : Holds (new held room) held := List.prefix_append ..

theorem length_new (held : List α) (room : ℕ) : (new held room).length = held.length + room := by
  rw [new, List.length_append, List.length_map, List.length_replicate]

theorem Holds.write (h : Holds cells l) (items : List α) (hfit : l.length + items.length ≤ cells.length) :
    ∃ cells', Buffer.write cells l.length items = some cells' ∧ cells'.length = cells.length ∧
      ∀ k, Holds cells' (l ++ items.take k) := by
  obtain ⟨rest, rfl⟩ := h
  have hl : (l.map some).length = l.length := List.length_map ..
  refine ⟨_, if_pos hfit, ?_, fun k => ?_⟩
  · rw [List.take_left' hl]
    simp only [List.length_append, List.length_map, List.length_drop] at hfit ⊢
    omega
  · rw [Holds, List.take_left' hl, List.map_append]
    refine (List.prefix_append_right_inj _).2 (List.IsPrefix.trans ?_ (List.prefix_append _ _))
    exact (List.take_prefix k items).map some

theorem mapM_some (l : List α) : (l.map some).mapM id = some l := by
  induction l with
  | nil => rfl
  | cons a l ih => simp [ih]

theorem Holds.contents (h : Holds cells l) : Buffer.contents cells l.length = some l := by
  obtain ⟨rest, rfl⟩ := h
  have hl : (l.map some).length = l.length := List.length_map ..
  rw [Buffer.contents, if_pos (by simp), List.take_left' hl, mapM_some]

end Buffer

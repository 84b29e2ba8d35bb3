import Mathlib.Data.List.Basic
import Mathlib.Logic.Relation

/-!
# Outlets

A writer in front of a transport that may take only part of what it is offered. What the
transport has not taken is held, and offered again. The last write ends the stream, and
the transport takes the end with the last symbols it is offered.

* `Outlet.run_conserves`: whatever the transport takes and when, what it took and what is
  held are what was written, in order;
* `Outlet.run_ends`: where only the last write ends the stream, so does only the last
  thing taken, and the end is taken or held exactly if it was written.
-/

/-- Pieces of a stream, each with whether the stream ends with it. -/
abbrev Pieces (α : Type*) := List (List α × Bool)

namespace Pieces

variable {α : Type*}

/-- The symbols of all pieces. -/
def contents (pieces : Pieces α) : List α := pieces.flatMap Prod.fst

/-- Whether a piece ends the stream. -/
def ended (pieces : Pieces α) : Bool := pieces.any Prod.snd

/-- No piece but the last ends the stream. -/
def EndsLast (pieces : Pieces α) : Prop := ∀ piece ∈ pieces.dropLast, piece.2 = false

instance [DecidableEq α] (pieces : Pieces α) : Decidable pieces.EndsLast :=
  inferInstanceAs (Decidable (∀ piece ∈ pieces.dropLast, piece.2 = false))

@[simp] theorem contents_nil : contents ([] : Pieces α) = [] := rfl

@[simp] theorem ended_nil : ended ([] : Pieces α) = false := rfl

@[simp] theorem contents_concat (pieces : Pieces α) (piece : List α × Bool) :
    contents (pieces ++ [piece]) = contents pieces ++ piece.1 := by
  simp [contents]

@[simp] theorem ended_concat (pieces : Pieces α) (piece : List α × Bool) :
    ended (pieces ++ [piece]) = (ended pieces || piece.2) := by
  simp [ended]

theorem endsLast_nil : EndsLast ([] : Pieces α) := fun _ h => nomatch h

/-- A piece behind others is the last, and so none of the others may end the stream. -/
theorem endsLast_concat {pieces : Pieces α} {piece : List α × Bool} :
    EndsLast (pieces ++ [piece]) ↔ ended pieces = false := by
  rw [EndsLast, List.dropLast_concat, ended, List.any_eq_false]
  exact forall₂_congr fun _ _ => by simp

theorem EndsLast.of_concat {pieces : Pieces α} {piece : List α × Bool} (h : EndsLast (pieces ++ [piece])) :
    EndsLast pieces := by
  rw [endsLast_concat, ended, List.any_eq_false] at h
  exact fun other hother => by simpa using h other (List.dropLast_subset _ hother)

end Pieces

open Pieces

/-- What was written to a stream, what of it the transport took, and what is held. -/
structure Outlet (α : Type*) where
  written : Pieces α
  taken : Pieces α
  held : List α
  ending : Bool

namespace Outlet

variable {α : Type*} {o o' : Outlet α}

/-- An outlet nothing was written to. -/
def empty : Outlet α := ⟨[], [], [], false⟩

/-- Writes behind what is held. -/
def push (o : Outlet α) (symbols : List α) (fin : Bool) : Outlet α :=
  ⟨o.written ++ [(symbols, fin)], o.taken, o.held ++ symbols, o.ending || fin⟩

/-- The transport takes so many symbols, and the end with the last of them. -/
def pull (o : Outlet α) (count : ℕ) : Outlet α :=
  ⟨o.written, o.taken ++ [(o.held.take count, o.ending && (o.held.drop count).isEmpty)], o.held.drop count,
    o.ending && !(o.held.drop count).isEmpty⟩

/-- A write, or an offer of what is held. Nothing is offered where nothing is. -/
inductive Step (o : Outlet α) : Outlet α → Prop
  | push (symbols : List α) (fin : Bool) : Step o (o.push symbols fin)
  | pull (count : ℕ) (h : o.held ≠ [] ∨ o.ending) : Step o (o.pull count)

/-- A run of writes and offers. -/
abbrev Run : Outlet α → Outlet α → Prop := Relation.ReflTransGen Step

/-- What was taken and what is held are what was written. -/
def Conserves (o : Outlet α) : Prop := contents o.taken ++ o.held = contents o.written

theorem step_conserves (h : Conserves o) (hstep : Step o o') : Conserves o' := by
  cases hstep with
  | push symbols fin =>
    rw [Conserves, push, contents_concat, ← List.append_assoc]
    exact congrArg (· ++ symbols) h
  | pull count hpull =>
    rw [Conserves, pull, contents_concat, List.append_assoc, List.take_append_drop]
    exact h

/-- Whatever the transport takes and when, nothing is lost, repeated or put out of order. -/
theorem run_conserves (hrun : Run empty o) : Conserves o := by
  induction hrun with
  | refl => rfl
  | tail _ hstep ih => exact step_conserves ih hstep

/-- Only the last thing taken ends the stream, and nothing is held then; the end that was
    written was taken or is held. -/
structure Ends (o : Outlet α) : Prop where
  last : EndsLast o.taken
  written : ended o.written = (ended o.taken || o.ending)
  done : ended o.taken = true → o.held = [] ∧ o.ending = false

theorem step_ends (h : Ends o) (hstep : Step o o') (hlast : EndsLast o'.written) : Ends o' := by
  cases hstep with
  | push symbols fin =>
    rw [push, endsLast_concat] at hlast
    obtain ⟨htaken, hending⟩ := Bool.or_eq_false_iff.1 (h.written.symm.trans hlast)
    refine ⟨h.last, ?_, fun hended => ?_⟩
    · rw [push, ended_concat, h.written, Bool.or_assoc]
    · rw [push, htaken] at hended
      cases hended
  | pull count hpull =>
    -- What was taken before did not end the stream: there would be nothing to offer.
    have hbefore : ended o.taken = false := by
      by_contra hended
      obtain ⟨hheld, hending⟩ := h.done (by simpa using hended)
      rcases hpull with hpull | hpull
      · exact hpull hheld
      · rw [hending] at hpull
        cases hpull
    have hwritten := h.written
    rw [hbefore, Bool.false_or] at hwritten
    refine ⟨endsLast_concat.2 hbefore, ?_, fun hended => ?_⟩
    · rw [pull, ended_concat, hbefore, Bool.false_or, ← Bool.and_or_distrib_left, Bool.or_not_self, Bool.and_true]
      exact hwritten
    · rw [pull, ended_concat, hbefore, Bool.false_or, Bool.and_eq_true, List.isEmpty_iff] at hended
      exact ⟨hended.2, by rw [pull, hended.2]; simp⟩

theorem EndsLast.of_step (hstep : Step o o') (hlast : EndsLast o'.written) : EndsLast o.written := by
  cases hstep with
  | push => exact hlast.of_concat
  | pull => exact hlast

/-- Where only the last write ends the stream, the end is taken once and behind everything
    else. -/
theorem run_ends (hrun : Run empty o) (hlast : EndsLast o.written) : Ends o := by
  induction hrun with
  | refl => exact ⟨endsLast_nil, rfl, fun h => nomatch h⟩
  | tail _ hstep ih => exact step_ends (ih (EndsLast.of_step hstep hlast)) hstep hlast

end Outlet

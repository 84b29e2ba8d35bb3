import Soyokaze.Lib.Framing

/-!
# Grammars

What a format allows is a relation between words and items, and a reader of the format
takes a word of it off the front of its input.

* `Framing.Unambiguous`: there is one word at the front of an input at most, and one item
  it stands for;
* `Framing.Unambiguous.run`: so a run of words is cut into them in one way;
* `Framing.Takes`: a reader that takes the words of a relation, all of them and nothing
  else, which is then unambiguous.
-/

namespace Framing

variable {β ε α : Type*}

/-- What is at the front of an input is one word at most, and stands for one item. -/
def Unambiguous (R : List β → α → Prop) : Prop :=
  ∀ ⦃w w' rest rest' : List β⦄ ⦃a a' : α⦄, R w a → R w' a' → w ++ rest = w' ++ rest' → w = w' ∧ a = a'

/-- A run of words that are not empty is cut into words in one way. -/
theorem Unambiguous.run {R : List β → α → Prop} (h : Unambiguous R) (hne : ∀ {w a}, R w a → w ≠ [])
    {items items' : List (List β × α)} (hi : ∀ item ∈ items, R item.1 item.2)
    (hi' : ∀ item ∈ items', R item.1 item.2) (heq : items.flatMap Prod.fst = items'.flatMap Prod.fst) :
    items = items' := by
  induction items generalizing items' with
  | nil =>
    cases items' with
    | nil => rfl
    | cons item' items' =>
      have hnil : item'.1 = [] := (List.append_eq_nil_iff.1 heq.symm).1
      exact absurd hnil (hne (hi' _ List.mem_cons_self))
  | cons item items ih =>
    cases items' with
    | nil =>
      have hnil : item.1 = [] := (List.append_eq_nil_iff.1 heq).1
      exact absurd hnil (hne (hi _ List.mem_cons_self))
    | cons item' items' =>
      rw [List.flatMap_cons, List.flatMap_cons] at heq
      obtain ⟨hw, ha⟩ := h (hi _ List.mem_cons_self) (hi' _ List.mem_cons_self) heq
      rw [hw, List.append_cancel_left_eq] at heq
      rw [Prod.ext hw ha, ih (fun _ hm => hi _ (List.mem_cons_of_mem _ hm))
        (fun _ hm => hi' _ (List.mem_cons_of_mem _ hm)) heq]

/-- The reader takes exactly the words of the relation. -/
structure Takes (read : Reader β ε α) (R : List β → α → Prop) : Prop where
  sound : ∀ {input n a}, read input = .ok (n, a) → ∃ w rest, input = w ++ rest ∧ n = w.length ∧ R w a
  complete : ∀ {w a}, R w a → ∀ rest, read (w ++ rest) = .ok (w.length, a)

namespace Takes

variable {read : Reader β ε α} {R : List β → α → Prop}

/-- What a reader takes is unambiguous. -/
theorem unambiguous (h : Takes read R) : Unambiguous R := by
  intro w w' rest rest' a a' hw hw' heq
  have hread := (h.complete hw rest).symm.trans ((congrArg read heq).trans (h.complete hw' rest'))
  obtain ⟨hlength, ha⟩ := Prod.mk.inj (Except.ok.inj hread)
  exact ⟨(List.append_inj heq hlength).1, ha⟩

/-- Reading a word under other names for the errors. -/
theorem mapError {ε' : Type*} {f : ε → ε'} (h : Takes read R) : Takes (fun input => (read input).mapError f) R where
  sound {input n a} hr := by
    rcases hread : read input with e | item <;> rw [hread] at hr
    · cases hr
    · exact h.sound (hread.trans (congrArg _ (Except.ok.inj hr)))
  complete hw rest := by
    rw [h.complete hw rest]
    rfl

end Takes

end Framing

import Mathlib.Logic.Relation
import Soyokaze.Lib.Act

/-!
# Steps made of deeds

What a step does to the state is a chain of deeds, of which there are a few kinds. A deed
that is `whole` may be any step's, and others are of steps that fail alone.

* `Act.Chains.bind`: where every step of a sequence is a chain of deeds, the sequence is;
* `Act.Chains.keeps`: what every deed hands on, a step made of deeds does;
* `Act.Chains.leads`: and where it succeeds, what those hands on that are whole.
-/

namespace Act

variable {σ ε α β : Type}

/-- The deeds of a kind of system. What a step may do that succeeds, one may that fails. -/
structure Deeds (σ : Type) where
  deed : Bool → σ → σ → Prop
  weaken : ∀ {s s' : σ}, deed true s s' → deed false s s'

namespace Deeds

variable (D : Deeds σ)

/-- One deed after the other. -/
def Done (whole : Bool) : σ → σ → Prop := Relation.ReflTransGen (D.deed whole)

variable {D}

theorem Done.of_whole {s s' : σ} (h : D.Done true s s') (whole : Bool) : D.Done whole s s' := by
  cases whole with
  | true => exact h
  | false => exact Relation.ReflTransGen.mono (fun _ _ => D.weaken) _ _ h

theorem Done.any {s s' : σ} {whole : Bool} (h : D.Done whole s s') : D.Done false s s' := by
  cases whole with
  | true => exact h.of_whole false
  | false => exact h

/-- What every deed hands on, a chain of them does. -/
theorem Done.hands {whole : Bool} {P : σ → Prop} (hP : ∀ s s', D.deed whole s s' → P s → P s') {s s' : σ}
    (h : D.Done whole s s') (hs : P s) : P s' := by
  induction h with
  | refl => exact hs
  | tail _ hdeed ih => exact hP _ _ hdeed ih

end Deeds

variable {D : Deeds σ}

/-- A step that is a chain of deeds, of whole ones where it succeeds. -/
def Chains (D : Deeds σ) (m : Act σ ε α) : Prop := ∀ s, D.Done (m.run s).1.isOk s (m.run s).2

namespace Chains

/-- What a sequence does that is begun with a chain of deeds. -/
theorem bind_from {m : Act σ ε α} {f : α → Act σ ε β} {s : σ} (hm : D.Done (m.run s).1.isOk s (m.run s).2)
    (hf : ∀ a, Chains D (f a)) : D.Done ((m >>= f).run s).1.isOk s ((m >>= f).run s).2 := by
  rw [run_bind]
  rcases hrun : m.run s with ⟨e | a, s₁⟩ <;> rw [hrun] at hm
  · exact hm
  · exact (Deeds.Done.of_whole hm _).trans (hf a s₁)

theorem bind_ok {m : Act σ ε α} {f : α → Act σ ε β} {s s₁ : σ} {a : α} (hrun : m.run s = (.ok a, s₁))
    (hm : D.Done true s s₁) (hf : D.Done ((f a).run s₁).1.isOk s₁ ((f a).run s₁).2) :
    D.Done ((m >>= f).run s).1.isOk s ((m >>= f).run s).2 := by
  rw [run_bind_ok hrun]
  exact (hm.of_whole _).trans hf

theorem bind {m : Act σ ε α} {f : α → Act σ ε β} (hm : Chains D m) (hf : ∀ a, Chains D (f a)) : Chains D (m >>= f) :=
  fun s => bind_from (hm s) hf

/-- A step that leaves the state alone does nothing. -/
theorem aside {m : Act σ ε α} (h : ∀ s, (m.run s).2 = s) : Chains D m := fun s => by
  rw [h]
  exact .refl

theorem pure (a : α) : Chains D (Pure.pure a : Act σ ε α) := aside fun _ => rfl

theorem fail (e : ε) : Chains D (Act.fail e : Act σ ε α) := aside fun _ => rfl

theorem ofExcept (x : Except ε α) : Chains D (Act.ofExcept x : Act σ ε α) := aside fun _ => rfl

theorem demand (condition : Bool) (e : ε) : Chains D (Act.demand condition e : Act σ ε Unit) := aside fun _ => rfl

theorem get : Chains D (Act.get : Act σ ε σ) := aside fun _ => rfl

theorem map {m : Act σ ε α} (h : Chains D m) (f : α → β) : Chains D (f <$> m) := by
  intro s
  have hm := h s
  rw [run_map]
  rcases hrun : m.run s with ⟨e | a, s'⟩ <;> rwa [hrun] at hm

/-- What follows the reading of the state may count on what the state is. -/
theorem get_bind {f : σ → Act σ ε β} (h : ∀ s, D.Done ((f s).run s).1.isOk s ((f s).run s).2) :
    Chains D (Act.get >>= f) := h

/-- A step that is one deed, whether it succeeds or not. -/
theorem single {m : Act σ ε α} (h : ∀ s, D.deed true s (m.run s).2) : Chains D m := fun s =>
  Deeds.Done.of_whole (.single (h s)) _

/-- What every deed hands on, a step made of deeds does. -/
theorem keeps {m : Act σ ε α} (h : Chains D m) {P : σ → Prop} (hP : ∀ s s', D.deed false s s' → P s → P s') :
    Keeps (fun s s' => P s → P s') m := by
  exact fun s hs => (h s).any.hands hP hs

/-- A step that succeeds hands on what the deeds do that are whole. -/
theorem leads {m : Act σ ε α} (h : Chains D m) {P : σ → Prop} (hP : ∀ s s', D.deed true s s' → P s → P s') :
    Leads (fun s s' => P s → P s') m := by
  intro s a s' hrun hs
  have hm := h s
  rw [hrun] at hm
  exact hm.hands hP hs

end Chains

end Act

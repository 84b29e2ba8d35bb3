import Mathlib.Tactic.TypeStar

/-!
# Steps that may fail

A step of a program that works on a state and may fail leaves a state behind
either way. `Act` is the type of such steps, and their monad runs one after
another until one fails.

* `Act.run_bind_ok`, `Act.run_bind_error`: what is done after a step that
  succeeded, and that nothing is after one that failed;
* `Act.of_run_bind_ok`: where two steps in a row succeeded, both did;
* `Act.Keeps.bind`: what every step of a sequence keeps of the state, the sequence
  does;
* `Act.Leads.bind`: and so where only those that succeed are asked to;
* `Act.Fails.bind`: what is said of the errors of every step holds of the sequence's;
* `Act.Respects.bind`: steps that tell no two like states apart are a sequence that tells
  none apart.
-/

/-- The value a mapped result came from. -/
theorem Except.map_eq_ok {ε α β : Type*} {f : α → β} {x : Except ε α} {b : β} (h : x.map f = .ok b) :
    ∃ a, x = .ok a ∧ f a = b := by
  rcases x with e | a
  · cases h
  · cases h
    exact ⟨a, rfl, rfl⟩

/-- A step on a state: what it answers, and the state it leaves. -/
def Act (σ ε α : Type) : Type := σ → Except ε α × σ

namespace Act

variable {σ ε α β : Type}

/-- Runs a step. -/
def run (m : Act σ ε α) (s : σ) : Except ε α × σ := m s

instance : Monad (Act σ ε) where
  pure a := fun s => (.ok a, s)
  bind m f := fun s => match m s with
    | (.ok a, s) => f a s
    | (.error e, s) => (.error e, s)

/-- Fails. -/
def fail (e : ε) : Act σ ε α := fun s => (.error e, s)

/-- Goes on only where a condition holds. -/
def demand (condition : Bool) (e : ε) : Act σ ε Unit := fun s => (if condition then .ok () else .error e, s)

/-- Goes on with what a computation gave, if it gave anything. -/
def ofExcept (x : Except ε α) : Act σ ε α := fun s => (x, s)

/-- Reads the state. -/
def get : Act σ ε σ := fun s => (.ok s, s)

/-- Changes the state. -/
def modify (f : σ → σ) : Act σ ε Unit := fun s => (.ok (), f s)

@[simp] theorem run_pure (a : α) (s : σ) : (pure a : Act σ ε α).run s = (.ok a, s) := rfl

@[simp] theorem run_fail (e : ε) (s : σ) : (fail e : Act σ ε α).run s = (.error e, s) := rfl

@[simp] theorem run_demand (condition : Bool) (e : ε) (s : σ) :
    (demand condition e).run s = (if condition then .ok () else .error e, s) := rfl

@[simp] theorem run_ofExcept (x : Except ε α) (s : σ) : (ofExcept x : Act σ ε α).run s = (x, s) := rfl

@[simp] theorem run_get (s : σ) : (get : Act σ ε σ).run s = (.ok s, s) := rfl

@[simp] theorem run_modify (f : σ → σ) (s : σ) : (modify f : Act σ ε Unit).run s = (.ok (), f s) := rfl

theorem run_bind (m : Act σ ε α) (f : α → Act σ ε β) (s : σ) :
    (m >>= f).run s = match m.run s with
      | (.ok a, s) => (f a).run s
      | (.error e, s) => (.error e, s) := rfl

theorem run_map (f : α → β) (m : Act σ ε α) (s : σ) : (f <$> m).run s = ((m.run s).1.map f, (m.run s).2) := by
  rw [map_eq_pure_bind' f m, run_bind]
  rcases m.run s with ⟨e | a, s'⟩ <;> rfl
where
  map_eq_pure_bind' (f : α → β) (m : Act σ ε α) : f <$> m = m >>= fun a => pure (f a) := rfl

/-- Nothing is made of an answer that is nothing. -/
theorem unit_map (m : Act σ ε Unit) : (fun _ => ()) <$> m = m := by
  funext s
  change ((fun _ => ()) <$> m).run s = m.run s
  rw [run_map]
  rcases m.run s with ⟨e | _, s'⟩ <;> rfl

/-- A step that succeeds hands on to the next. -/
theorem run_bind_ok {m : Act σ ε α} {s s' : σ} {a : α} (h : m.run s = (.ok a, s')) (f : α → Act σ ε β) :
    (m >>= f).run s = (f a).run s' := by
  rw [run_bind, h]

/-- A step that fails is the last. -/
theorem run_bind_error {m : Act σ ε α} {s s' : σ} {e : ε} (h : m.run s = (.error e, s')) (f : α → Act σ ε β) :
    (m >>= f).run s = (.error e, s') := by
  rw [run_bind, h]

/-- A demand that is met is no hindrance. -/
theorem run_bind_demand {condition : Bool} (h : condition = true) (e : ε) (f : Unit → Act σ ε β) (s : σ) :
    (demand condition e >>= f).run s = (f ()).run s := by
  rw [h]
  rfl

/-- A demand that is not met is the end. -/
theorem run_bind_refused {condition : Bool} (h : condition = false) (e : ε) (f : Unit → Act σ ε β) (s : σ) :
    (demand condition e >>= f).run s = (.error e, s) := by
  rw [h]
  rfl

/-- Both steps of a pair that succeeded did. -/
theorem of_run_bind_ok {m : Act σ ε α} {f : α → Act σ ε β} {s s' : σ} {b : β}
    (h : (m >>= f).run s = (.ok b, s')) : ∃ a s₁, m.run s = (.ok a, s₁) ∧ (f a).run s₁ = (.ok b, s') := by
  rw [run_bind] at h
  rcases hm : m.run s with ⟨e | a, s₁⟩
  · rw [hm] at h
    cases h
  · rw [hm] at h
    exact ⟨a, s₁, rfl, h⟩

/-- What a step answered, whose answer was made something of. -/
theorem of_run_map_ok {m : Act σ ε α} {f : α → β} {s s' : σ} {b : β} (h : (f <$> m).run s = (.ok b, s')) :
    ∃ a, m.run s = (.ok a, s') ∧ f a = b := by
  rw [run_map] at h
  rcases hm : m.run s with ⟨e | a, s₁⟩
  · rw [hm] at h
    cases h
  · rw [hm] at h
    cases h
    exact ⟨a, rfl, rfl⟩

/-- Whatever the step answers, it relates the state it leaves to the one it began in. -/
def Keeps (R : σ → σ → Prop) (m : Act σ ε α) : Prop := ∀ s, R s (m.run s).2

/-- What every step of a sequence keeps, the sequence does. -/
theorem Keeps.bind {R : σ → σ → Prop} (htrans : ∀ {a b c}, R a b → R b c → R a c) {m : Act σ ε α}
    {f : α → Act σ ε β} (hm : Keeps R m) (hf : ∀ a, Keeps R (f a)) : Keeps R (m >>= f) := by
  intro s
  rw [run_bind]
  have hstep := hm s
  rcases hrun : m.run s with ⟨e | a, s₁⟩
  · rw [hrun] at hstep
    exact hstep
  · rw [hrun] at hstep
    exact htrans hstep (hf a s₁)

/-- Where a step succeeds, it relates the state it leaves to the one it began in. -/
def Leads (R : σ → σ → Prop) (m : Act σ ε α) : Prop := ∀ s a s', m.run s = (.ok a, s') → R s s'

theorem Keeps.leads {R : σ → σ → Prop} {m : Act σ ε α} (h : Keeps R m) : Leads R m := by
  intro s a s' hrun
  have := h s
  rwa [hrun] at this

/-- Where a sequence succeeds, every step of it did. -/
theorem Leads.bind {R : σ → σ → Prop} (htrans : ∀ {a b c}, R a b → R b c → R a c) {m : Act σ ε α}
    {f : α → Act σ ε β} (hm : Leads R m) (hf : ∀ a, Leads R (f a)) : Leads R (m >>= f) := by
  intro s b s' hrun
  obtain ⟨a, s₁, hfirst, hsecond⟩ := of_run_bind_ok hrun
  exact htrans (hm s a s₁ hfirst) (hf a s₁ b s' hsecond)

theorem Keeps.mono {R R' : σ → σ → Prop} (hR : ∀ {a b}, R a b → R' a b) {m : Act σ ε α} (h : Keeps R m) :
    Keeps R' m := fun s => hR (h s)

theorem Leads.mono {R R' : σ → σ → Prop} (hR : ∀ {a b}, R a b → R' a b) {m : Act σ ε α} (h : Leads R m) :
    Leads R' m := fun s a s' hrun => hR (h s a s' hrun)

theorem Keeps.map {R : σ → σ → Prop} {m : Act σ ε α} (h : Keeps R m) (f : α → β) : Keeps R (f <$> m) := by
  intro s
  rw [run_map]
  exact h s

/-- What follows the reading of the state may count on what the state is. -/
theorem keeps_get_bind {R : σ → σ → Prop} {f : σ → Act σ ε β} (h : ∀ s, R s ((f s).run s).2) : Keeps R (get >>= f) := h

theorem leads_fail (R : σ → σ → Prop) (e : ε) : Leads R (fail e : Act σ ε α) := by
  intro s a s' hrun
  cases hrun

/-- Whatever a step fails with is of a kind. -/
def Fails (P : ε → Prop) (m : Act σ ε α) : Prop := ∀ s e, (m.run s).1 = .error e → P e

/-- A sequence fails with what one of its steps fails with. -/
theorem Fails.bind {P : ε → Prop} {m : Act σ ε α} {f : α → Act σ ε β} (hm : Fails P m) (hf : ∀ a, Fails P (f a)) :
    Fails P (m >>= f) := by
  intro s e h
  rw [run_bind] at h
  rcases hrun : m.run s with ⟨e' | a, s₁⟩
  · rw [hrun] at h
    cases h
    exact hm s e (congrArg Prod.fst hrun)
  · rw [hrun] at h
    exact hf a s₁ e h

theorem Fails.mono {P P' : ε → Prop} (hP : ∀ e, P e → P' e) {m : Act σ ε α} (h : Fails P m) : Fails P' m :=
  fun s e hrun => hP e (h s e hrun)

/-- A step that never fails does so with whatever is asked for. -/
theorem fails_of_ok {P : ε → Prop} {m : Act σ ε α} (h : ∀ s, ∃ a, (m.run s).1 = .ok a) : Fails P m := by
  intro s e hrun
  obtain ⟨a, ha⟩ := h s
  rw [ha] at hrun
  cases hrun

theorem fails_demand {P : ε → Prop} {e : ε} (h : P e) (condition : Bool) : Fails P (demand condition e : Act σ ε Unit) := by
  intro s e' hrun
  rw [run_demand] at hrun
  cases condition with
  | false =>
    cases hrun
    exact h
  | true => cases hrun

theorem fails_fail {P : ε → Prop} {e : ε} (h : P e) : Fails P (fail e : Act σ ε α) := by
  intro s e' hrun
  cases hrun
  exact h

theorem fails_ofExcept {P : ε → Prop} {x : Except ε α} (h : ∀ e, x = .error e → P e) :
    Fails P (ofExcept x : Act σ ε α) := fun _ e hrun => h e hrun

/-- A step that leaves the state alone keeps what every state keeps of itself. -/
theorem keeps_of_eq {R : σ → σ → Prop} (hrefl : ∀ a, R a a) {m : Act σ ε α} (h : ∀ s, (m.run s).2 = s) : Keeps R m :=
  fun s => by
    rw [h]
    exact hrefl s

/-! ## Like states -/

/-- The step answers the same in like states, and leaves like states. -/
def Respects (R : σ → σ → Prop) (m : Act σ ε α) : Prop :=
  ∀ s s', R s s' → (m.run s').1 = (m.run s).1 ∧ R (m.run s).2 (m.run s').2

section Respects

variable {R : σ → σ → Prop}

/-- Steps that tell no like states apart are a sequence that does not. -/
theorem Respects.bind {m : Act σ ε α} {f : α → Act σ ε β} (hm : Respects R m) (hf : ∀ a, Respects R (f a)) :
    Respects R (m >>= f) := by
  intro s s' hR
  obtain ⟨hsame, hlike⟩ := hm s s' hR
  rw [run_bind, run_bind]
  rcases hrun : m.run s with ⟨e | a, s₁⟩ <;> rcases hrun' : m.run s' with ⟨e' | a', s₁'⟩ <;>
    rw [hrun, hrun'] at hsame hlike <;> cases hsame
  · exact ⟨rfl, hlike⟩
  · exact hf a s₁ s₁' hlike

theorem respects_pure (a : α) : Respects R (pure a : Act σ ε α) := fun _ _ hR => ⟨rfl, hR⟩

theorem respects_fail (e : ε) : Respects R (fail e : Act σ ε α) := fun _ _ hR => ⟨rfl, hR⟩

theorem respects_ofExcept (x : Except ε α) : Respects R (ofExcept x : Act σ ε α) := fun _ _ hR => ⟨rfl, hR⟩

theorem respects_demand (condition : Bool) (e : ε) : Respects R (demand condition e : Act σ ε Unit) :=
  fun _ _ hR => ⟨rfl, hR⟩

theorem respects_modify {f : σ → σ} (h : ∀ s s', R s s' → R (f s) (f s')) : Respects R (modify f : Act σ ε Unit) :=
  fun s s' hR => ⟨rfl, h s s' hR⟩

/-- What follows the reading of the state may read it in ways that tell no like states apart. -/
theorem respects_get_bind {f : σ → Act σ ε β} (hsame : ∀ s s', R s s' → f s' = f s) (hf : ∀ s, Respects R (f s)) :
    Respects R (get >>= f) := by
  intro s s' hR
  change ((f s').run s').1 = ((f s).run s).1 ∧ R ((f s).run s).2 ((f s').run s').2
  rw [hsame s s' hR]
  exact hf s s s' hR

theorem Respects.map {m : Act σ ε α} (h : Respects R m) (f : α → β) : Respects R (f <$> m) := by
  intro s s' hR
  obtain ⟨hsame, hlike⟩ := h s s' hR
  rw [run_map, run_map, hsame]
  exact ⟨rfl, hlike⟩

end Respects

end Act

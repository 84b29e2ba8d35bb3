import Mathlib.Data.List.Basic

/-!
# Machines that answer alike

A machine takes one operation after another and answers each, and goes on in the state that
the operation leaves. Two machines that answer the same in related states, and stay related,
answer every run of operations the same (`Machine.answers_alike`).
-/

namespace Machine

variable {ω α σ τ : Type*}

/-- What some operations are answered one after another, and the state they leave. -/
def answers (step : ω → σ → α × σ) : List ω → σ → List α × σ
  | [], s => ([], s)
  | op :: ops, s =>
    let (answer, s) := step op s
    let (later, s) := answers step ops s
    (answer :: later, s)

variable {step : ω → σ → α × σ} {step' : ω → τ → α × τ}

@[simp] theorem answers_nil (s : σ) : answers step [] s = ([], s) := rfl

theorem answers_cons (op : ω) (ops : List ω) (s : σ) : answers step (op :: ops) s =
    ((step op s).1 :: (answers step ops (step op s).2).1, (answers step ops (step op s).2).2) := rfl

/-- The relation between two machines is kept by every run, and tells no answers apart. -/
theorem answers_alike {R : σ → τ → Prop}
    (hstep : ∀ op s t, R s t → (step op s).1 = (step' op t).1 ∧ R (step op s).2 (step' op t).2) (ops : List ω) {s : σ} {t : τ}
    (h : R s t) : (answers step ops s).1 = (answers step' ops t).1 ∧ R (answers step ops s).2 (answers step' ops t).2 := by
  induction ops generalizing s t with
  | nil => exact ⟨rfl, h⟩
  | cons op ops ih =>
    obtain ⟨hanswer, hnext⟩ := hstep op s t h
    obtain ⟨hlater, hleft⟩ := ih hnext
    rw [answers_cons, answers_cons]
    exact ⟨by rw [hanswer, hlater], hleft⟩

end Machine

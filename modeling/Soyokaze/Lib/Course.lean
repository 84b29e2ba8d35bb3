import Soyokaze.Lib.Act

/-!
# The course a system takes

What is done with a system is made of moves, each a step that may fail. A `Course` is
what came to pass, a turn for each move, the latest first. Some turns a system does not
go on from: once there was one, only a few moves are left to it.

* `Course.append`: one course goes on from where another has come to;
* `Follows.bind`: where each step of a sequence is made of moves, the sequence is;
* `Course.induct`: what every turn hands on, and the system begins with, holds all along;
* `Course.played`: moves made one after the other are a course.
-/

universe u

/-- One move of a system: the state before it, what it answered, and the state after. -/
structure Turn (σ ε α : Type) (μ : Type u) where
  move : μ
  before : σ
  outcome : Except ε α
  after : σ

/-- The moves a system has: what each of them does, the turns it does not go on from, and the
    moves that are left to it then. -/
structure Moves (σ ε α : Type) (μ : Type u) where
  step : μ → Act σ ε α
  ends : Turn σ ε α μ → Prop
  left : μ → Prop

variable {σ ε α β γ : Type} {μ : Type u} {moves : Moves σ ε α μ} {start c c' c'' : σ}
  {h h' : List (Turn σ ε α μ)}

namespace Moves

/-- The system goes on from every turn so far. -/
def Clear (moves : Moves σ ε α μ) (h : List (Turn σ ε α μ)) : Prop := ∀ t ∈ h, ¬moves.ends t

theorem clear_nil : moves.Clear [] := fun _ ht => absurd ht List.not_mem_nil

theorem clear_cons {t : Turn σ ε α μ} : moves.Clear (t :: h) ↔ ¬moves.ends t ∧ moves.Clear h :=
  List.forall_mem_cons

theorem clear_append : moves.Clear (h' ++ h) ↔ moves.Clear h' ∧ moves.Clear h := List.forall_mem_append

end Moves

open Moves

/-- What came to pass between two states. -/
inductive Course (moves : Moves σ ε α μ) (start : σ) : List (Turn σ ε α μ) → σ → Prop
  | begun : Course moves start [] start
  | turn {h : List (Turn σ ε α μ)} {c c' : σ} {move : μ} {outcome : Except ε α} (before : Course moves start h c)
      (allowed : moves.Clear h ∨ moves.left move) (took : (moves.step move).run c = (outcome, c')) :
      Course moves start (⟨move, c, outcome, c'⟩ :: h) c'

namespace Course

theorem append (hfirst : Course moves start h c) (hclear : moves.Clear h) (hsecond : Course moves c h' c') :
    Course moves start (h' ++ h) c' := by
  induction hsecond with
  | begun => exact hfirst
  | turn _ hallowed htook ih => exact .turn ih (hallowed.imp_left fun hback => clear_append.2 ⟨hback, hclear⟩) htook

theorem single {move : μ} {outcome : Except ε α} (htook : (moves.step move).run c = (outcome, c')) :
    Course moves c [⟨move, c, outcome, c'⟩] c' := .turn .begun (.inl clear_nil) htook

/-- What the system begins with and every turn hands on holds as long as it goes on, where every turn
    is such as is asked for. -/
theorem induct (P : List (Turn σ ε α μ) → σ → Prop) (Meets : List (Turn σ ε α μ) → Turn σ ε α μ → Prop)
    (hstart : P [] start)
    (hturn : ∀ h c t, P h c → moves.Clear h → t.before = c → (moves.step t.move).run c = (t.outcome, t.after) →
      ¬moves.ends t → Meets h t → P (t :: h) t.after)
    (hcourse : Course moves start h c) (hclear : moves.Clear h)
    (hmeets : ∀ later t earlier, h = later ++ t :: earlier → Meets earlier t) : P h c := by
  induction hcourse with
  | begun => exact hstart
  | @turn h c c' move outcome _ _ htook ih =>
    obtain ⟨hends, hback⟩ := clear_cons.1 hclear
    have hP := ih hback fun later t earlier heq => hmeets (_ :: later) t earlier (by rw [heq, List.cons_append])
    exact hturn h c ⟨move, c, outcome, c'⟩ hP hback rfl htook hends (hmeets [] _ h rfl)

end Course

/-- Whether every turn is such as is asked for, given those before it. -/
def Turn.along (p : List (Turn σ ε α μ) → Turn σ ε α μ → Bool) : List (Turn σ ε α μ) → Bool
  | [] => true
  | t :: h => p h t && Turn.along p h

theorem Turn.of_along {p : List (Turn σ ε α μ) → Turn σ ε α μ → Bool} (hall : Turn.along p h = true)
    {later earlier : List (Turn σ ε α μ)} {t : Turn σ ε α μ} (heq : h = later ++ t :: earlier) : p earlier t = true := by
  induction later generalizing h with
  | nil =>
    rw [heq] at hall
    exact (Bool.and_eq_true_iff.1 hall).1
  | cons t' later ih =>
    rw [heq] at hall
    exact ih (Bool.and_eq_true_iff.1 hall).2 rfl

/-- What comes to pass as these moves are made one after the other, and what it comes to. -/
def Moves.played (moves : Moves σ ε α μ) : List μ → σ → List (Turn σ ε α μ) × σ
  | [], c => ([], c)
  | move :: rest, c =>
    let (outcome, c') := (moves.step move).run c
    let (h, c'') := moves.played rest c'
    (h ++ [⟨move, c, outcome, c'⟩], c'')

/-- It is a course, if the system goes on from all of it. -/
theorem Course.played {all : List μ} (hclear : moves.Clear (moves.played all start).1) :
    Course moves start (moves.played all start).1 (moves.played all start).2 := by
  induction all generalizing start with
  | nil => exact .begun
  | cons move rest ih =>
    obtain ⟨hrest, hfirst⟩ := clear_append.1 hclear
    exact (Course.single rfl).append hfirst (ih hrest)

/-! ## Steps made of moves -/

/-- Whatever state a step is begun in, it comes to the one it leaves by moves. The system goes on from
    them if the step succeeds, and if it fails, unless that can be told from the state. -/
def Follows (moves : Moves σ ε α μ) (Told : σ → Prop) (m : Act σ ε β) : Prop :=
  ∀ c, ∃ h, Course moves c h (m.run c).2 ∧
    ((∃ b, (m.run c).1 = .ok b) → moves.Clear h) ∧ (moves.Clear h ∨ Told (m.run c).2)

namespace Follows

variable {Told : σ → Prop}

/-- A step that leaves the state alone makes no move. -/
theorem aside {m : Act σ ε β} (h : ∀ c, (m.run c).2 = c) : Follows moves Told m := by
  intro c
  rw [h]
  exact ⟨[], .begun, fun _ => clear_nil, .inl clear_nil⟩

theorem pure (b : β) : Follows moves Told (Pure.pure b : Act σ ε β) := aside fun _ => rfl

theorem get : Follows moves Told (Act.get : Act σ ε σ) := aside fun _ => rfl

theorem fail (e : ε) : Follows moves Told (Act.fail e : Act σ ε β) := aside fun _ => rfl

theorem demand (condition : Bool) (e : ε) : Follows moves Told (Act.demand condition e : Act σ ε Unit) :=
  aside fun _ => rfl

theorem ofExcept (x : Except ε β) : Follows moves Told (Act.ofExcept x : Act σ ε β) := aside fun _ => rfl

theorem bind {m : Act σ ε β} {f : β → Act σ ε γ} (hm : Follows moves Told m) (hf : ∀ b, Follows moves Told (f b)) :
    Follows moves Told (m >>= f) := by
  intro c
  obtain ⟨h, hcourse, hok, htold⟩ := hm c
  rw [Act.run_bind]
  rcases hrun : m.run c with ⟨e | b, c₁⟩
  · rw [hrun] at hcourse htold
    exact ⟨h, hcourse, fun ⟨_, hb⟩ => (by cases hb), htold⟩
  · rw [hrun] at hcourse hok
    obtain ⟨h', hcourse', hok', htold'⟩ := hf b c₁
    have hclear := hok ⟨b, rfl⟩
    exact ⟨h' ++ h, hcourse.append hclear hcourse', fun hsome => clear_append.2 ⟨hok' hsome, hclear⟩,
      htold'.imp_left fun hclear' => clear_append.2 ⟨hclear', hclear⟩⟩

theorem map {m : Act σ ε β} (hm : Follows moves Told m) (f : β → γ) : Follows moves Told (f <$> m) :=
  hm.bind fun b => pure (f b)

/-- What follows the reading of the state may count on what the state is. -/
theorem get_bind {f : σ → Act σ ε γ} (h : ∀ c, ∃ h, Course moves c h ((f c).run c).2 ∧
    ((∃ b, ((f c).run c).1 = .ok b) → moves.Clear h) ∧ (moves.Clear h ∨ Told ((f c).run c).2)) :
    Follows moves Told (Act.get >>= f) := h

/-- A step that is a move, but for what it answers. -/
theorem single {m : Act σ ε β} (move : μ) (f : β → α) (hstep : moves.step move = f <$> m)
    (hends : ∀ t, t.move = move → (∃ a, t.outcome = .ok a) → ¬moves.ends t)
    (htold : ∀ c e c', m.run c = (.error e, c') → Told c' ∨ ∀ t, t.move = move → ¬moves.ends t) :
    Follows moves Told m := by
  intro c
  have htook : (moves.step move).run c = ((m.run c).1.map f, (m.run c).2) := by rw [hstep, Act.run_map]
  have hclear : (∃ b, (m.run c).1 = .ok b) → moves.Clear [⟨move, c, (m.run c).1.map f, (m.run c).2⟩] := by
    rintro ⟨b, hb⟩ t ht
    rw [List.mem_singleton.1 ht]
    exact hends _ rfl ⟨f b, by rw [hb]; rfl⟩
  refine ⟨_, .single htook, hclear, ?_⟩
  rcases hrun : m.run c with ⟨e | b, c'⟩
  · refine (htold c e c' hrun).symm.imp_left fun hnever t ht => ?_
    rw [List.mem_singleton.1 ht]
    exact hnever _ rfl
  · rw [hrun] at hclear
    exact .inl (hclear ⟨b, rfl⟩)

/-- What is told of any failure is told of none that could be. -/
theorem untold {m : Act σ ε β} (hm : Follows moves Told m) : Follows moves (fun _ => True) m := by
  intro c
  obtain ⟨h, hcourse, hok, -⟩ := hm c
  exact ⟨h, hcourse, hok, .inr trivial⟩

end Follows

import Mathlib.Data.List.Basic
import Mathlib.Data.List.Infix

/-!
# Framing

Items spelled one after another on a stream that may be cut anywhere. A
*reader* looks at what has arrived and answers the first item and how many
symbols it took, or says why it cannot: one of its errors, `more`, means that
the item has not fully arrived.

* `Spells`: a word spells an item when the reader reads it back whatever
  follows, and answers `more` on each of its strict prefixes. Words that spell
  are composed by `Spells.andThen`, so a format made of smaller ones needs no
  argument about cuts of its own.
* `drain`: the loop that takes items off the front of a buffer for as long as
  they are whole, folding each into a state.
* `drain_of_isPrefix`: whatever the cut, the loop takes exactly the items that
  have fully arrived, and leaves a prefix of the words that follow.
-/

namespace Framing

universe u

variable {β ε σ : Type*} {α γ : Type u}

/-- A reader answers the item at the front and how many symbols it took. -/
abbrev Reader (β ε α : Type*) := List β → Except ε (ℕ × α)

/-- `bs` spells `a`: it is read back whatever follows it, and each of its
    strict prefixes asks for more. -/
structure Spells (read : Reader β ε α) (more : ε) (bs : List β) (a : α) : Prop where
  whole : ∀ rest, read (bs ++ rest) = .ok (bs.length, a)
  short : ∀ p, p <+: bs → p.length < bs.length → read p = .error more

namespace Spells

variable {read : Reader β ε α} {more : ε} {bs cs : List β} {a : α} {c : γ}

theorem self (h : Spells read more bs a) : read bs = .ok (bs.length, a) := by
  simpa using h.whole []

/-- A strict prefix of two words in a row ends in the first or in the second. -/
theorem prefix_append {p : List β} (hp : p <+: bs ++ cs) (hlt : p.length < (bs ++ cs).length) :
    (p <+: bs ∧ p.length < bs.length) ∨
      ∃ q, p = bs ++ q ∧ q <+: cs ∧ q.length < cs.length := by
  rcases Nat.lt_or_ge p.length bs.length with h | h
  · exact .inl ⟨List.prefix_of_prefix_length_le hp (List.prefix_append _ _) h.le, h⟩
  · obtain ⟨q, rfl⟩ := List.prefix_of_prefix_length_le (List.prefix_append bs cs) hp h
    rw [List.length_append, List.length_append] at hlt
    exact .inr ⟨q, rfl, (List.prefix_append_right_inj _).1 hp, by omega⟩

/-- Reading one item and then another, which may depend on the first. -/
theorem andThen (h : Spells read more bs a) (next : α → Reader β ε γ)
    (h' : Spells (next a) more cs c) :
    Spells (fun input => do
      let (n, x) ← read input
      let (m, y) ← next x (input.drop n)
      .ok (n + m, y)) more (bs ++ cs) c where
  whole rest := by
    simp only [List.append_assoc, h.whole, bind, Except.bind, List.drop_left, h'.whole,
      List.length_append]
  short p hp hlt := by
    rcases prefix_append hp hlt with ⟨hp, hlt⟩ | ⟨q, rfl, hq, hlt⟩
    · simp only [h.short p hp hlt, bind, Except.bind]
    · simp only [h.whole, bind, Except.bind, List.drop_left, h'.short q hq hlt]

/-- Reading an item and dressing it. -/
theorem map {f : α → γ} (h : Spells read more bs a) :
    Spells (fun input => do
      let (n, x) ← read input
      .ok (n, f x)) more bs (f a) where
  whole rest := by simp only [h.whole, bind, Except.bind]
  short p hp hlt := by simp only [h.short p hp hlt, bind, Except.bind]

/-- Reading an item under other names for the errors. -/
theorem mapError {ε' : Type*} {f : ε → ε'} (h : Spells read more bs a) :
    Spells (fun input => (read input).mapError f) (f more) bs a where
  whole rest := by simp only [h.whole, Except.mapError]
  short p hp hlt := by simp only [h.short p hp hlt, Except.mapError]

/-- Two readers that agree on what begins like `bs` spell it alike. -/
theorem congr {read' : Reader β ε α} (h : Spells read more bs a)
    (hr : ∀ p, p <+: bs ∨ bs <+: p → read' p = read p) : Spells read' more bs a where
  whole rest := by rw [hr _ (.inr (List.prefix_append _ _)), h.whole]
  short p hp hlt := by rw [hr _ (.inl hp), h.short p hp hlt]

/-- Two readers that agree on what begins with the first symbol of a word spell it alike. -/
theorem congr_head {b : β} {read' : Reader β ε α} (h : Spells read more (b :: bs) a)
    (hnil : read' [] = read []) (hcons : ∀ rest, read' (b :: rest) = read (b :: rest)) :
    Spells read' more (b :: bs) a :=
  h.congr fun p hp => by
    cases p with
    | nil => exact hnil
    | cons c p =>
      obtain rfl : c = b := hp.elim (fun hp => (List.cons_prefix_cons.1 hp).1)
        fun hp => (List.cons_prefix_cons.1 hp).1.symm
      exact hcons p

end Spells

/-! ## Taking items off a buffer -/

/-- Folds each item in turn, stopping at the first that is refused. -/
def applyAll (apply : σ → α → σ × Option ε) : σ → List α → σ × Option ε
  | s, [] => (s, none)
  | s, a :: as => match apply s a with
    | (s', none) => applyAll apply s' as
    | (s', some e) => (s', some e)

/-- Takes items off the front of the buffer for as long as they are whole,
    folding each into the state: the state, what is left of the buffer, and
    the error that stopped the loop, if one did. -/
def drain (read : Reader β ε α) (more : ε → Bool) (apply : σ → α → σ × Option ε) :
    ℕ → σ → List β → σ × List β × Option ε
  | 0, s, buffer => (s, buffer, none)
  | fuel + 1, s, buffer => match read buffer with
    | .ok (n, a) => match apply s a with
      | (s', none) => drain read more apply fuel s' (buffer.drop n)
      | (s', some e) => (s', buffer.drop n, some e)
    | .error e => (s, buffer, if more e then none else some e)

/-- Whatever the buffer holds, the loop keeps what taking in an item keeps. -/
theorem drain_inv {read : Reader β ε α} {more : ε → Bool} {apply : σ → α → σ × Option ε} {P : σ → Prop}
    (hP : ∀ s a, P s → P (apply s a).1) (fuel : ℕ) {s : σ} (buffer : List β) (h : P s) :
    P (drain read more apply fuel s buffer).1 := by
  induction fuel generalizing s buffer with
  | zero => exact h
  | succ fuel ih =>
    rw [drain]
    cases read buffer with
    | error e => exact h
    | ok item =>
      have hone := hP s item.2 h
      dsimp only
      generalize apply s item.2 = applied at hone
      obtain ⟨s', - | e⟩ := applied
      · exact ih _ hone
      · exact hone

/-- The items at the front of the buffer, one after the other. -/
def items (read : Reader β ε α) : ℕ → List β → List α
  | 0, _ => []
  | fuel + 1, buffer => match read buffer with
    | .ok (n, a) => a :: items read fuel (buffer.drop n)
    | .error _ => []

/-- Where no item is refused, the loop folds all of them. -/
theorem drain_eq_foldl (read : Reader β ε α) (more : ε → Bool) (f : σ → α → σ) (fuel : ℕ) (s : σ) (buffer : List β) :
    (drain read more (fun s a => (f s a, none)) fuel s buffer).1 = (items read fuel buffer).foldl f s := by
  induction fuel generalizing s buffer with
  | zero => rfl
  | succ fuel ih =>
    rw [drain, items]
    rcases read buffer with e | ⟨n, a⟩
    · rfl
    · exact ih _ _

/-- Two loops over the same buffer stay related where taking in each of its items
    keeps the relation and is refused by the one only where it is by the other. -/
theorem drain_rel {τ : Type*} {read : Reader β ε α} {more : ε → Bool} {apply : σ → α → σ × Option ε}
    {apply' : τ → α → τ × Option ε} {R : σ → τ → Prop} {ok : α → Prop}
    (hR : ∀ s t a, R s t → ok a → (apply' t a).2 = none →
      (apply s a).2 = none ∧ R (apply s a).1 (apply' t a).1)
    (fuel : ℕ) {s : σ} {t : τ} (buffer : List β) (h : R s t) (hok : ∀ a ∈ items read fuel buffer, ok a)
    (hnone : (drain read more apply' fuel t buffer).2.2 = none) :
    (drain read more apply fuel s buffer).2 = (drain read more apply' fuel t buffer).2 ∧
      R (drain read more apply fuel s buffer).1 (drain read more apply' fuel t buffer).1 := by
  induction fuel generalizing s t buffer with
  | zero => exact ⟨rfl, h⟩
  | succ fuel ih =>
    rw [drain] at hnone ⊢
    rw [drain]
    rw [items] at hok
    cases hr : read buffer with
    | error e => exact ⟨rfl, h⟩
    | ok item =>
      rw [hr] at hnone hok
      dsimp only at hnone hok ⊢
      have hone := hR s t item.2 h (hok _ List.mem_cons_self)
      generalize apply s item.2 = applied at hone ⊢
      generalize apply' t item.2 = applied' at hone hnone ⊢
      obtain ⟨t', - | e⟩ := applied'
      · obtain ⟨s', e⟩ := applied
        obtain ⟨rfl, hone⟩ := hone rfl
        exact ih _ hone (fun a ha => hok a (List.mem_cons_of_mem _ ha)) hnone
      · cases hnone

/-- A buffer that is a prefix of the words of `as`: the words that have fully
    arrived, and a strict prefix of the next one. -/
theorem exists_arrived (word : α → List β) :
    ∀ (as : List α) {buffer : List β}, buffer <+: as.flatMap word →
      ∃ done rest left, as = done ++ rest ∧ buffer = done.flatMap word ++ left ∧
        left <+: rest.flatMap word ∧ ∀ a ∈ rest.head?, left.length < (word a).length
  | [], buffer, h => ⟨[], [], [], rfl, by simpa using h, List.prefix_rfl, by simp⟩
  | a :: as, buffer, h => by
    rcases Nat.lt_or_ge buffer.length (word a).length with hlt | hge
    · exact ⟨[], a :: as, buffer, rfl, rfl, h, by simpa using hlt⟩
    · obtain ⟨q, rfl⟩ := List.prefix_of_prefix_length_le
        (List.prefix_append (word a) (as.flatMap word)) h hge
      obtain ⟨done, rest, left, rfl, rfl, hl, hlt⟩ :=
        exists_arrived word as ((List.prefix_append_right_inj _).1 h)
      exact ⟨a :: done, rest, left, rfl, by simp, hl, hlt⟩

/-- Words that are never empty are no fewer than their symbols. -/
theorem length_le_flatMap (word : α → List β) (hw : ∀ a, word a ≠ []) (as : List α) :
    as.length ≤ (as.flatMap word).length := by
  induction as with
  | nil => exact le_rfl
  | cons a as ih =>
    rw [List.flatMap_cons, List.length_append, List.length_cons, Nat.add_comm]
    exact Nat.add_le_add (List.length_pos_iff.2 (hw a)) ih

/-- Whatever the cut, the loop takes exactly the items that have fully
    arrived, and keeps a prefix of the words that follow. -/
theorem drain_of_isPrefix {read : Reader β ε α} (more : ε → Bool) {e : ε} {word : α → List β}
    {apply : σ → α → σ × Option ε} (he : more e = true) (hnil : read [] = .error e) :
    ∀ {done rest : List α} {left : List β} {s s' : σ} {fuel : ℕ},
      (∀ a ∈ done ++ rest, Spells read e (word a) a) → left <+: rest.flatMap word →
      (∀ a ∈ rest.head?, left.length < (word a).length) → done.length < fuel →
      applyAll apply s done = (s', none) →
      drain read more apply fuel s (done.flatMap word ++ left) = (s', left, none)
  | [], rest, left, s, s', fuel, hs, hl, hlt, hf, ha => by
    obtain ⟨fuel, rfl⟩ := Nat.exists_eq_succ_of_ne_zero (Nat.ne_of_gt hf)
    have hr : read left = .error e := by
      cases rest with
      | nil => rw [show left = [] by simpa using hl, hnil]
      | cons a as =>
        have hlt := hlt a (by simp)
        exact (hs a (by simp)).short left
          (List.prefix_of_prefix_length_le hl (List.prefix_append _ _) hlt.le) hlt
    obtain rfl : s = s' := by simpa [applyAll] using ha
    simp [drain, hr, he]
  | a :: done, rest, left, s, s', fuel, hs, hl, hlt, hf, ha => by
    obtain ⟨fuel, rfl⟩ := Nat.exists_eq_succ_of_ne_zero (Nat.ne_of_gt (Nat.zero_lt_of_lt hf))
    cases h : apply s a with
    | mk t o =>
      cases o with
      | some e' => simp [applyAll, h] at ha
      | none =>
        rw [applyAll, h] at ha
        simp only [drain, List.flatMap_cons, List.append_assoc, (hs a (by simp)).whole, h,
          List.drop_left]
        exact drain_of_isPrefix more he hnil (fun b hb => hs b (by simp_all)) hl hlt
          (by simpa using hf) ha

end Framing

import Soyokaze.Lib.Framing

/-!
# Inlets

A stream that arrives in pieces and is read an item at a time. What is not a whole item
yet is held until the next piece, and no item may grow past a limit.

* `Framing.Settles.andThen`: readers that never go back on an answer are composed into
  another;
* `Framing.fed_eq`: however a buffer is filled, the same items are taken from it;
* `Inlet.outcome_eq_whole`: where every call finds no more than the limit allows, or one
  item that is larger by itself, the calls come to what reading the stream in one go does;
* `Inlet.agree_iff`: two ways of cutting a stream come to the same, with no item blamed
  that is not too large, exactly if both are of that kind.
-/

namespace Framing

universe u

variable {β ε σ : Type*} {α γ δ : Type u}

/-- A reader that never goes back on an answer, and looks no further than the item. -/
structure Settles (read : Reader β ε α) (more : ε) : Prop where
  stays : ∀ {bs}, read bs ≠ .error more → ∀ cs, read (bs ++ cs) = read bs
  within : ∀ {bs n a}, read bs = .ok (n, a) → n ≤ bs.length
  alone : ∀ {bs n a}, read bs = .ok (n, a) → read (bs.take n) = .ok (n, a)

namespace Settles

variable {read : Reader β ε α} {more : ε}

theorem stays_ok (h : Settles read more) {bs : List β} {item : ℕ × α} (hr : read bs = .ok item) (cs : List β) :
    read (bs ++ cs) = .ok item := by
  rw [h.stays (by rw [hr]; nofun), hr]

/-- Reading one item and then another, which may depend on the first. -/
theorem andThen {f : α → γ → δ} (h : Settles read more) {next : α → Reader β ε γ} (h' : ∀ a, Settles (next a) more) :
    Settles (fun input => do
      let (n, x) ← read input
      let (m, y) ← next x (input.drop n)
      .ok (n + m, f x y)) more where
  stays {bs} hbs cs := by
    rcases hr : read bs with e | ⟨n, x⟩
    · have hne : read bs ≠ .error more := fun heq => hbs (by simp only [heq, bind, Except.bind])
      simp only [h.stays hne, hr, bind, Except.bind]
    · have hne : next x (bs.drop n) ≠ .error more := fun heq =>
        hbs (by simp only [hr, heq, bind, Except.bind])
      simp only [h.stays_ok hr, bind, Except.bind, List.drop_append_of_le_length (h.within hr), (h' x).stays hne]
  within {bs k c} hk := by
    rcases hr : read bs with e | ⟨n, x⟩
    · simp only [hr, bind, Except.bind, reduceCtorEq] at hk
    · rcases hn : next x (bs.drop n) with e | ⟨m, y⟩
      · simp only [hr, hn, bind, Except.bind, reduceCtorEq] at hk
      · simp only [hr, hn, bind, Except.bind, Except.ok.injEq, Prod.mk.injEq] at hk
        have hle := (h' x).within hn
        rw [List.length_drop] at hle
        have := h.within hr
        omega
  alone {bs k c} hk := by
    rcases hr : read bs with e | ⟨n, x⟩
    · simp only [hr, bind, Except.bind, reduceCtorEq] at hk
    · rcases hn : next x (bs.drop n) with e | ⟨m, y⟩
      · simp only [hr, hn, bind, Except.bind, reduceCtorEq] at hk
      · simp only [hr, hn, bind, Except.bind, Except.ok.injEq, Prod.mk.injEq] at hk
        obtain ⟨rfl, rfl⟩ := hk
        have hlen : (bs.take n).length = n := List.length_take_of_le (h.within hr)
        have hdrop : (bs.take n ++ (bs.drop n).take m).drop n = (bs.drop n).take m := List.drop_left' hlen
        simp only [List.take_add, h.stays_ok (h.alone hr), bind, Except.bind, hdrop, (h' x).alone hn]

/-- Reading an item and dressing it. -/
theorem map {f : α → γ} (h : Settles read more) :
    Settles (fun input => do
      let (n, x) ← read input
      .ok (n, f x)) more where
  stays {bs} hbs cs := by
    have hne : read bs ≠ .error more := fun heq => hbs (by simp only [heq, bind, Except.bind])
    simp only [h.stays hne]
  within {bs k c} hk := by
    rcases hr : read bs with e | ⟨n, x⟩
    · simp only [hr, bind, Except.bind, reduceCtorEq] at hk
    · simp only [hr, bind, Except.bind, Except.ok.injEq, Prod.mk.injEq] at hk
      exact hk.1 ▸ h.within hr
  alone {bs k c} hk := by
    rcases hr : read bs with e | ⟨n, x⟩
    · simp only [hr, bind, Except.bind, reduceCtorEq] at hk
    · simp only [hr, bind, Except.bind, Except.ok.injEq, Prod.mk.injEq] at hk
      obtain ⟨rfl, rfl⟩ := hk
      simp only [h.alone hr, bind, Except.bind]

/-- Reading an item under other names for the errors. -/
theorem mapError {ε' : Type*} {f : ε → ε'} (h : Settles read more) :
    Settles (fun input => (read input).mapError f) (f more) where
  stays {bs} hbs cs := by
    have hne : read bs ≠ .error more := fun heq => hbs (by simp only [heq, Except.mapError])
    simp only [h.stays hne]
  within {bs k c} hk := by
    rcases hr : read bs with e | item <;> simp only [hr, Except.mapError, reduceCtorEq, Except.ok.injEq] at hk
    exact h.within (hr.trans (congrArg _ hk))
  alone {bs k c} hk := by
    rcases hr : read bs with e | item <;> simp only [hr, Except.mapError, reduceCtorEq, Except.ok.injEq] at hk
    simp only [h.alone (hr.trans (congrArg _ hk)), Except.mapError]

end Settles

/-- A reader that takes something whenever it takes an item. -/
structure Advances (read : Reader β ε α) : Prop where
  pos : ∀ {bs n a}, read bs = .ok (n, a) → 0 < n

namespace Advances

variable {read : Reader β ε α}

theorem andThen {f : α → γ → δ} (h : Advances read) (next : α → Reader β ε γ) :
    Advances (fun input => do
      let (n, x) ← read input
      let (m, y) ← next x (input.drop n)
      .ok (n + m, f x y)) where
  pos {bs k c} hk := by
    rcases hr : read bs with e | ⟨n, x⟩
    · simp only [hr, bind, Except.bind, reduceCtorEq] at hk
    · rcases hn : next x (bs.drop n) with e | ⟨m, y⟩
      · simp only [hr, hn, bind, Except.bind, reduceCtorEq] at hk
      · simp only [hr, hn, bind, Except.bind, Except.ok.injEq, Prod.mk.injEq] at hk
        exact hk.1 ▸ Nat.add_pos_left (h.pos hr) m

theorem map {f : α → γ} (h : Advances read) :
    Advances (fun input => do
      let (n, x) ← read input
      .ok (n, f x)) where
  pos {bs k c} hk := by
    rcases hr : read bs with e | ⟨n, x⟩
    · simp only [hr, bind, Except.bind, reduceCtorEq] at hk
    · simp only [hr, bind, Except.bind, Except.ok.injEq, Prod.mk.injEq] at hk
      exact hk.1 ▸ h.pos hr

theorem mapError {ε' : Type*} {f : ε → ε'} (h : Advances read) : Advances (fun input => (read input).mapError f) where
  pos {bs k c} hk := by
    rcases hr : read bs with e | item <;> simp only [hr, Except.mapError, reduceCtorEq, Except.ok.injEq] at hk
    exact h.pos (hr.trans (congrArg _ hk))

/-- A reader that is one or the other of these, by the first symbol. -/
theorem of_head {f : β → Reader β ε α} (hnil : ∀ item, read [] ≠ .ok item)
    (hcons : ∀ b rest, read (b :: rest) = f b (b :: rest)) (h : ∀ b, Advances (f b)) : Advances read where
  pos {bs n a} hr := by
    cases bs with
    | nil => exact absurd hr (hnil _)
    | cons b rest => exact (h b).pos ((hcons b rest).symm.trans hr)

end Advances

/-- A reader that never answers this error. -/
def Never (read : Reader β ε α) (e : ε) : Prop := ∀ bs, read bs ≠ .error e

namespace Never

variable {read : Reader β ε α} {e : ε}

theorem andThen {f : α → γ → δ} (h : Never read e) {next : α → Reader β ε γ} (h' : ∀ a, Never (next a) e) :
    Never (fun input => do
      let (n, x) ← read input
      let (m, y) ← next x (input.drop n)
      .ok (n + m, f x y)) e := by
  intro bs hbs
  rcases hr : read bs with e' | ⟨n, x⟩
  · simp only [hr, bind, Except.bind, Except.error.injEq] at hbs
    exact h bs (hbs ▸ hr)
  · rcases hn : next x (bs.drop n) with e' | ⟨m, y⟩
    · simp only [hr, hn, bind, Except.bind, Except.error.injEq] at hbs
      exact h' x _ (hbs ▸ hn)
    · simp only [hr, hn, bind, Except.bind, reduceCtorEq] at hbs

theorem map {f : α → γ} (h : Never read e) :
    Never (fun input => do
      let (n, x) ← read input
      .ok (n, f x)) e := by
  intro bs hbs
  rcases hr : read bs with e' | ⟨n, x⟩
  · simp only [hr, bind, Except.bind, Except.error.injEq] at hbs
    exact h bs (hbs ▸ hr)
  · simp only [hr, bind, Except.bind, reduceCtorEq] at hbs

/-- No error goes by a name that none is given. -/
theorem mapError {ε' : Type*} {f : ε' → ε} (read : Reader β ε' α) (hf : ∀ e', f e' ≠ e) :
    Never (fun input => (read input).mapError f) e := by
  intro bs hbs
  rcases hr : read bs with e' | item <;> simp only [hr, Except.mapError, reduceCtorEq, Except.error.injEq] at hbs
  exact hf e' hbs

/-- A reader that is one or the other of these, by the first symbol. -/
theorem of_head {f : β → Reader β ε α} (hnil : read [] ≠ .error e)
    (hcons : ∀ b rest, read (b :: rest) = f b (b :: rest)) (h : ∀ b, Never (f b) e) : Never read e := by
  intro bs hbs
  cases bs with
  | nil => exact hnil hbs
  | cons b rest => exact h b _ ((hcons b rest).symm.trans hbs)

end Never

/-- A reader that is one or the other of these, by the first symbol. -/
theorem Settles.of_head {read : Reader β ε α} {more : ε} {f : β → Reader β ε α} (hnil : read [] = .error more)
    (hcons : ∀ b rest, read (b :: rest) = f b (b :: rest)) (h : ∀ b, Settles (f b) more)
    (hadvances : ∀ b, Advances (f b)) : Settles read more where
  stays {bs} hbs cs := by
    cases bs with
    | nil => exact absurd hnil hbs
    | cons b rest =>
      rw [hcons] at hbs ⊢
      exact (hcons _ _).trans ((h b).stays hbs cs)
  within {bs n a} hr := by
    cases bs with
    | nil => exact absurd (hnil.symm.trans hr) nofun
    | cons b rest => exact (h b).within ((hcons b rest).symm.trans hr)
  alone {bs n a} hr := by
    cases bs with
    | nil => exact absurd (hnil.symm.trans hr) nofun
    | cons b rest =>
      rw [hcons] at hr
      -- The first symbol is among those of the item, which has one.
      obtain ⟨n, rfl⟩ := Nat.exists_eq_succ_of_ne_zero ((hadvances b).pos hr).ne'
      have halone := (h b).alone hr
      rw [List.take_succ_cons] at halone ⊢
      exact (hcons _ _).trans halone

/-! ## Taking items off a buffer, wherever it ends -/

section Drain

variable {read read' : Reader β ε α} {more : ε → Bool} {apply : σ → α → σ × Option ε}

/-- Fuel beyond what the buffer needs changes nothing. -/
theorem drain_fuel (hadvances : Advances read) (hwithin : ∀ {bs n a}, read bs = .ok (n, a) → n ≤ bs.length)
    {fuel fuel' : ℕ} (s : σ) {bs : List β} (h : bs.length < fuel) (h' : bs.length < fuel') :
    drain read more apply fuel s bs = drain read more apply fuel' s bs := by
  induction fuel generalizing fuel' s bs with
  | zero => exact absurd h (Nat.not_lt_zero _)
  | succ fuel ih =>
    obtain ⟨fuel', rfl⟩ := Nat.exists_eq_succ_of_ne_zero (Nat.ne_zero_of_lt h')
    rw [drain, drain]
    rcases hr : read bs with e | ⟨n, a⟩
    · rfl
    · have hpos := hadvances.pos hr
      have hle := hwithin hr
      have hlen : (bs.drop n).length = bs.length - n := List.length_drop
      dsimp only
      rcases apply s a with ⟨t, - | e⟩
      · exact ih t (by omega) (by omega)
      · rfl

/-- Going on after an item. -/
theorem drain_next (hadvances : Advances read) (hwithin : ∀ {bs n a}, read bs = .ok (n, a) → n ≤ bs.length)
    {s t : σ} {bs : List β} {n : ℕ} {a : α} (hread : read bs = .ok (n, a)) (happly : apply s a = (t, none)) :
    drain read more apply (bs.length + 1) s bs =
      drain read more apply ((bs.drop n).length + 1) t (bs.drop n) := by
  have hpos := hadvances.pos hread
  have hle := hwithin hread
  have hlen : (bs.drop n).length = bs.length - n := List.length_drop
  rw [drain, hread]
  dsimp only
  rw [happly]
  exact drain_fuel hadvances hwithin t (by omega) (Nat.lt_succ_self _)

/-- An item that is refused is the last. -/
theorem drain_refused {fuel : ℕ} {s t : σ} {bs : List β} {n : ℕ} {a : α} {e : ε} (hread : read bs = .ok (n, a))
    (happly : apply s a = (t, some e)) : drain read more apply (fuel + 1) s bs = (t, bs.drop n, some e) := by
  rw [drain, hread]
  dsimp only
  rw [happly]

/-- Where no item can be read, nothing is taken. -/
theorem drain_error {fuel : ℕ} {bs : List β} {e : ε} (hread : read bs = .error e) (s : σ) :
    drain read more apply (fuel + 1) s bs = (s, bs, if more e then none else some e) := by
  rw [drain, hread]

/-- What is left without an error is no whole item. -/
theorem drain_left [DecidableEq ε] {m : ε} (hadvances : Advances read)
    (hwithin : ∀ {bs n a}, read bs = .ok (n, a) → n ≤ bs.length) {fuel : ℕ} (s : σ) {bs : List β}
    (hfuel : bs.length < fuel) (hnone : (drain read (· == m) apply fuel s bs).2.2 = none) :
    read (drain read (· == m) apply fuel s bs).2.1 = .error m ∧
      (drain read (· == m) apply fuel s bs).2.1.length ≤ bs.length := by
  induction fuel generalizing s bs with
  | zero => exact absurd hfuel (Nat.not_lt_zero _)
  | succ fuel ih =>
    rcases hread : read bs with e | ⟨n, a⟩
    · rw [drain_error hread] at hnone ⊢
      dsimp only at hnone
      split_ifs at hnone with he
      exact ⟨hread.trans (congrArg _ (beq_iff_eq.1 he)), le_rfl⟩
    · have hpos := hadvances.pos hread
      have hle := hwithin hread
      have hlen : (bs.drop n).length = bs.length - n := List.length_drop
      rw [drain, hread] at hnone ⊢
      dsimp only at hnone ⊢
      rcases happly : apply s a with ⟨t, - | e⟩
      · rw [happly] at hnone
        obtain ⟨hmore, hless⟩ := ih t (by omega) hnone
        exact ⟨hmore, hless.trans (by omega)⟩
      · rw [happly] at hnone
        cases hnone

/-- Where no item is refused, it is the reader that ends the loop. -/
theorem drain_stopped (more : ε → Bool) {f : σ → α → σ} (hadvances : Advances read)
    (hwithin : ∀ {bs n a}, read bs = .ok (n, a) → n ≤ bs.length) {fuel : ℕ} (s : σ) {bs : List β}
    (hfuel : bs.length < fuel) :
    ∃ e, read (drain read more (fun s a => (f s a, none)) fuel s bs).2.1 = .error e ∧
      (drain read more (fun s a => (f s a, none)) fuel s bs).2.2 = if more e then none else some e := by
  induction fuel generalizing s bs with
  | zero => exact absurd hfuel (Nat.not_lt_zero _)
  | succ fuel ih =>
    rcases hread : read bs with e | ⟨n, a⟩
    · rw [drain_error hread]
      exact ⟨e, hread, rfl⟩
    · have hpos := hadvances.pos hread
      have hle := hwithin hread
      have hlen : (bs.drop n).length = bs.length - n := List.length_drop
      rw [drain, hread]
      exact ih (f s a) (by omega)

/-- Readers that agree on the buffer, and on all that is left of it, take the same. -/
theorem drain_congr {P : List β → Prop} (hdrop : ∀ bs n, P bs → P (bs.drop n)) (hread : ∀ bs, P bs → read' bs = read bs)
    (fuel : ℕ) (s : σ) {bs : List β} (h : P bs) :
    drain read' more apply fuel s bs = drain read more apply fuel s bs := by
  induction fuel generalizing s bs with
  | zero => rfl
  | succ fuel ih =>
    rw [drain, drain, hread bs h]
    rcases read bs with e | ⟨n, a⟩
    · rfl
    · dsimp only
      rcases apply s a with ⟨t, - | e⟩
      · exact ih t (hdrop _ _ h)
      · rfl

/-- What taking in an item passes over, taking in all of them does. -/
theorem drain_map {f : σ → σ} (hf : ∀ s a, apply (f s) a = (f (apply s a).1, (apply s a).2)) (fuel : ℕ) (s : σ)
    (bs : List β) :
    drain read more apply fuel (f s) bs =
      (f (drain read more apply fuel s bs).1, (drain read more apply fuel s bs).2) := by
  induction fuel generalizing s bs with
  | zero => rfl
  | succ fuel ih =>
    rw [drain, drain]
    rcases read bs with e | ⟨n, a⟩
    · rfl
    · dsimp only
      rw [hf]
      rcases apply s a with ⟨t, - | e⟩
      · exact ih t _
      · rfl

end Drain

/-! ## A buffer that is filled in pieces -/

section Fed

variable {read : Reader β ε α} {more : ε}

/-- The items at the front of a buffer, one after the other, and what is left of it. -/
def pulled (read : Reader β ε α) : ℕ → List β → List α × List β
  | 0, bs => ([], bs)
  | fuel + 1, bs => match read bs with
    | .ok (n, a) =>
      let (items, left) := pulled read fuel (bs.drop n)
      (a :: items, left)
    | .error _ => ([], bs)

/-- All of them. -/
abbrev pulledAll (read : Reader β ε α) (bs : List β) : List α × List β := pulled read (bs.length + 1) bs

/-- What is taken where the buffer is filled piece by piece, and all there is taken each time. -/
def fed (read : Reader β ε α) : List β → List (List β) → List α × List β
  | bs, [] => pulledAll read bs
  | bs, piece :: pieces =>
    let (items, left) := pulledAll read bs
    let (items', left) := fed read (left ++ piece) pieces
    (items ++ items', left)

theorem pulled_fuel (hadvances : Advances read) (hwithin : ∀ {bs n a}, read bs = .ok (n, a) → n ≤ bs.length)
    {fuel m : ℕ} {bs : List β} (h : bs.length < fuel) (h' : bs.length < m) :
    pulled read fuel bs = pulled read m bs := by
  induction fuel generalizing m bs with
  | zero => exact absurd h (Nat.not_lt_zero _)
  | succ fuel ih =>
    obtain ⟨m, rfl⟩ := Nat.exists_eq_succ_of_ne_zero (Nat.ne_zero_of_lt h')
    rw [pulled, pulled]
    rcases hr : read bs with e | ⟨n, a⟩
    · rfl
    · have hpos := hadvances.pos hr
      have hle := hwithin hr
      have hlen : (bs.drop n).length = bs.length - n := List.length_drop
      dsimp only
      rw [ih (m := m) (by omega) (by omega)]

theorem pulledAll_item (hadvances : Advances read) (hwithin : ∀ {bs n a}, read bs = .ok (n, a) → n ≤ bs.length)
    {bs : List β} {n : ℕ} {a : α} (hread : read bs = .ok (n, a)) :
    pulledAll read bs = (a :: (pulledAll read (bs.drop n)).1, (pulledAll read (bs.drop n)).2) := by
  have hpos := hadvances.pos hread
  have hle := hwithin hread
  have hlen : (bs.drop n).length = bs.length - n := List.length_drop
  rw [pulledAll, pulled, hread]
  dsimp only
  rw [pulled_fuel hadvances hwithin (m := (bs.drop n).length + 1) (by omega) (by omega)]

theorem pulledAll_error {bs : List β} {e : ε} (hread : read bs = .error e) : pulledAll read bs = ([], bs) := by
  rw [pulledAll, pulled, hread]

/-- What is left has no item at its front. -/
theorem pulledAll_left (hadvances : Advances read) (hwithin : ∀ {bs n a}, read bs = .ok (n, a) → n ≤ bs.length)
    (bs : List β) : ∃ e, read (pulledAll read bs).2 = .error e := by
  induction hlen : bs.length using Nat.strong_induction_on generalizing bs with
  | _ k ih =>
    rcases hr : read bs with e | ⟨n, a⟩
    · exact ⟨e, by rw [pulledAll_error hr, hr]⟩
    · have hpos := hadvances.pos hr
      have hle := hwithin hr
      rw [pulledAll_item hadvances hwithin hr]
      exact ih _ (by rw [List.length_drop]; omega) _ rfl

/-- What can be taken is taken whether or not more has arrived. -/
theorem pulledAll_append (hsettles : Settles read more) (hadvances : Advances read) (bs cs : List β) :
    pulledAll read (bs ++ cs) = ((pulledAll read bs).1 ++ (pulledAll read ((pulledAll read bs).2 ++ cs)).1,
      (pulledAll read ((pulledAll read bs).2 ++ cs)).2) := by
  induction hlen : bs.length using Nat.strong_induction_on generalizing bs with
  | _ k ih =>
    rcases hr : read bs with e | ⟨n, a⟩
    · rw [pulledAll_error hr]
      rfl
    · have hpos := hadvances.pos hr
      have hle := hsettles.within hr
      have hless : (bs.drop n).length < k := by
        rw [List.length_drop]
        omega
      rw [pulledAll_item hadvances hsettles.within (hsettles.stays_ok hr cs), pulledAll_item hadvances hsettles.within hr,
        List.drop_append_of_le_length hle, ih _ hless _ rfl]
      rfl

/-- However a buffer is filled, the same is taken, and the same left. -/
theorem fed_eq (hsettles : Settles read more) (hadvances : Advances read) (bs : List β) (pieces : List (List β)) :
    fed read bs pieces = pulledAll read (bs ++ pieces.flatten) := by
  induction pieces generalizing bs with
  | nil => rw [List.flatten_nil, List.append_nil, fed]
  | cons piece pieces ih =>
    rw [fed, List.flatten_cons, pulledAll_append hsettles hadvances]
    simp only [ih, List.append_assoc]

end Fed

end Framing

/-- A stream that is taken in piece by piece: the call that takes a piece in, and what it
    is made of. Taking in an item neither looks at what is held nor changes the limit. -/
structure Inlet (σ β ε α : Type*) [DecidableEq ε] where
  call : σ → List β → σ × Option ε
  read : Framing.Reader β ε α
  /-- The error that asks for more. -/
  more : ε
  tooLarge : ℕ → ε
  limit : σ → ℕ
  /-- What has arrived and is not read yet. -/
  unread : σ → List β
  keep : σ → List β → σ
  apply : σ → α → σ × Option ε
  call_eq : ∀ s piece, call s piece =
    if limit s < (unread s ++ piece).length then (keep s (unread s ++ piece), some (tooLarge (limit s)))
    else
      let taken := Framing.drain read (· == more) apply ((unread s ++ piece).length + 1) s (unread s ++ piece)
      (keep taken.1 taken.2.1, taken.2.2)
  settles : Framing.Settles read more
  advances : Framing.Advances read
  read_ne : ∀ n, Framing.Never read (tooLarge n)
  apply_ne : ∀ s a n, (apply s a).2 ≠ some (tooLarge n)
  apply_keep : ∀ s a bs, apply (keep s bs) a = (keep (apply s a).1 bs, (apply s a).2)
  limit_keep : ∀ s bs, limit (keep s bs) = limit s
  limit_apply : ∀ s a, limit (apply s a).1 = limit s
  unread_keep : ∀ s bs, unread (keep s bs) = bs
  keep_keep : ∀ s bs cs, keep (keep s bs) cs = keep s cs

namespace Inlet

open Framing

variable {σ β ε α : Type*} [DecidableEq ε] (I : Inlet σ β ε α)

/-- A call for each piece in turn, up to the first that fails: where they end, the error,
    and the pieces that no call was made for. -/
def calls : σ → List (List β) → σ × Option ε × List (List β)
  | s, [] => (s, none, [])
  | s, piece :: pieces => match I.call s piece with
    | (t, none) => calls t pieces
    | (t, some e) => (t, some e, pieces)

/-- What they come to: the state, with all that has not been read, and the error. -/
def outcome (s : σ) (pieces : List (List β)) : σ × Option ε :=
  let ended := I.calls s pieces
  (I.keep ended.1 (I.unread ended.1 ++ ended.2.2.flatten), ended.2.1)

/-- The first item takes more than the limit. -/
def Oversized (limit : ℕ) (bs : List β) : Prop := limit < bs.length ∧ I.read (bs.take limit) = .error I.more

/-- The items before it are taken in, and the next takes more than the limit. -/
inductive Reaches : σ → List β → Prop
  | here {s : σ} {bs : List β} (h : I.Oversized (I.limit s) bs) : Reaches s bs
  | next {s t : σ} {bs : List β} {n : ℕ} {a : α} (hread : I.read bs = .ok (n, a)) (hn : n ≤ I.limit s)
      (happly : I.apply s a = (t, none)) (h : Reaches t (bs.drop n)) : Reaches s bs

/-- Every call finds no more than the limit, or one item that is larger by itself. -/
def Fits : σ → List (List β) → Prop
  | _, [] => True
  | s, piece :: pieces =>
    (I.limit s < (I.unread s ++ piece).length → I.Oversized (I.limit s) (I.unread s ++ piece)) ∧
      ∀ t, I.call s piece = (t, none) → Fits t pieces

/-- What is held is not a whole item, nor too large for one. So it is before the first
    call, and after one that does not fail. -/
def Settled (s : σ) : Prop := I.read (I.unread s) = .error I.more ∧ (I.unread s).length ≤ I.limit s

/-- An item is blamed for its size exactly where one is too large, and it is that one. -/
structure Exact (s : σ) (pieces : List (List β)) : Prop where
  reached : (I.outcome s pieces).2 = some (I.tooLarge (I.limit s)) ↔ I.Reaches s (I.unread s ++ pieces.flatten)
  first : (I.outcome s pieces).2 = some (I.tooLarge (I.limit s)) →
    I.Oversized (I.limit s) (I.unread (I.outcome s pieces).1)

/-- Both ways of cutting a stream come to the same, and blame an item only where one is too large. -/
structure Agree (s : σ) (pieces pieces' : List (List β)) : Prop where
  same : I.outcome s pieces = I.outcome s pieces'
  exact_left : I.Exact s pieces
  exact_right : I.Exact s pieces'

/-! ## In one go -/

/-- Reads an item that takes no more than the limit. -/
def readWithin (limit : ℕ) : Reader β ε α := fun bs => match I.read (bs.take limit) with
  | .ok item => .ok item
  | .error e => .error (if e = I.more ∧ limit < bs.length then I.tooLarge limit else e)

/-- All of the stream, an item at a time. -/
def whole (s : σ) (bs : List β) : σ × Option ε :=
  let taken := drain (I.readWithin (I.limit s)) (· == I.more) I.apply (bs.length + 1) s bs
  (I.keep taken.1 taken.2.1, taken.2.2)

variable {I} {limit n : ℕ} {bs : List β} {a : α} {s t : σ}

theorem readWithin_ok_iff : I.readWithin limit bs = .ok (n, a) ↔ I.read bs = .ok (n, a) ∧ n ≤ limit := by
  have hread : I.readWithin limit bs = .ok (n, a) ↔ I.read (bs.take limit) = .ok (n, a) := by
    rw [readWithin]
    split <;> simp_all
  rw [hread]
  constructor
  · intro h
    refine ⟨?_, (I.settles.within h).trans (List.length_take_le _ _)⟩
    rw [← List.take_append_drop limit bs]
    exact I.settles.stays_ok h _
  · rintro ⟨h, hn⟩
    -- The item is among the first octets, which are more than its own.
    obtain ⟨k, rfl⟩ := Nat.exists_eq_add_of_le hn
    rw [List.take_add]
    exact I.settles.stays_ok (I.settles.alone h) _

theorem readWithin_of_oversized (h : I.Oversized limit bs) : I.readWithin limit bs = .error (I.tooLarge limit) := by
  rw [readWithin, h.2]
  exact congrArg _ (if_pos ⟨rfl, h.1⟩)

/-- Within the limit nothing is different. -/
theorem readWithin_eq_read (h : bs.length ≤ limit) : I.readWithin limit bs = I.read bs := by
  rw [readWithin, List.take_of_length_le h]
  rcases I.read bs with e | item
  · dsimp only
    rw [if_neg fun hlt => absurd hlt.2 (Nat.not_lt.2 h)]
  · rfl

/-- Only an item that is too large is said to be. -/
theorem oversized_of_readWithin {m : ℕ} (h : I.readWithin limit bs = .error (I.tooLarge m)) : I.Oversized limit bs := by
  rw [readWithin] at h
  rcases hr : I.read (bs.take limit) with e | item
  · rw [hr] at h
    dsimp only at h
    split_ifs at h with hlt
    · exact ⟨hlt.2, hr.trans (congrArg _ hlt.1)⟩
    · exact absurd (hr.trans h) (I.read_ne m _)
  · rw [hr] at h
    cases h

/-- More of the stream does not change what is made of an item. -/
theorem readWithin_stays (h : I.readWithin limit bs ≠ .error I.more) (cs : List β) :
    I.readWithin limit (bs ++ cs) = I.readWithin limit bs := by
  rcases Nat.lt_or_ge limit bs.length with hlt | hge
  · have htake : (bs ++ cs).take limit = bs.take limit := List.take_append_of_le_length hlt.le
    have hlt' : limit < (bs ++ cs).length := by
      rw [List.length_append]
      omega
    rw [readWithin, readWithin, htake]
    simp only [hlt, hlt']
  · rw [readWithin_eq_read hge] at h ⊢
    have htake : (bs ++ cs).take limit = bs ++ cs.take (limit - bs.length) := by
      rw [List.take_append, List.take_of_length_le hge]
    rw [readWithin, htake, I.settles.stays h]
    rcases hr : I.read bs with e | item
    · dsimp only
      rw [if_neg fun hmore => h (hr.trans (congrArg _ hmore.1))]
    · rfl

theorem within_of_readWithin (h : I.readWithin limit bs = .ok (n, a)) : n ≤ bs.length :=
  I.settles.within (readWithin_ok_iff.1 h).1

theorem advances_readWithin : Advances (I.readWithin limit) :=
  ⟨fun h => I.advances.pos (readWithin_ok_iff.1 h).1⟩

theorem keep_self (s : σ) (bs cs : List β) : I.keep (I.keep s bs) (I.unread (I.keep s bs) ++ cs) = I.keep s (bs ++ cs) := by
  rw [I.unread_keep, I.keep_keep]

/-- What was held before does not matter. -/
theorem whole_keep (s : σ) (cs bs : List β) : I.whole (I.keep s cs) bs = I.whole s bs := by
  rw [whole, I.limit_keep, drain_map (f := fun s => I.keep s cs) fun s a => I.apply_keep s a cs]
  exact Prod.ext (I.keep_keep _ _ _) rfl

/-- Reading on after an item. -/
theorem whole_next (hread : I.readWithin (I.limit s) bs = .ok (n, a)) (happly : I.apply s a = (t, none)) :
    I.whole s bs = I.whole t (bs.drop n) := by
  have hlimit : I.limit t = I.limit s := by rw [← I.limit_apply s a, happly]
  rw [whole, whole, drain_next advances_readWithin within_of_readWithin hread happly, hlimit]

theorem whole_refused {e : ε} (hread : I.readWithin (I.limit s) bs = .ok (n, a)) (happly : I.apply s a = (t, some e)) :
    I.whole s bs = (I.keep t (bs.drop n), some e) := by
  rw [whole, drain_refused hread happly]

theorem whole_error {e : ε} (hread : I.readWithin (I.limit s) bs = .error e) :
    I.whole s bs = (I.keep s bs, if e = I.more then none else some e) := by
  rw [whole, drain_error hread]
  simp only [beq_iff_eq]

/-- A stream of which the beginning has been read: an error stays, and reading is gone on with. -/
theorem whole_append (cs : List β) : ∀ {s : σ} {bs : List β}, I.whole s (bs ++ cs) = match I.whole s bs with
    | (t, none) => I.whole t (I.unread t ++ cs)
    | (t, some e) => (I.keep t (I.unread t ++ cs), some e) := by
  intro s bs
  induction hlen : bs.length using Nat.strong_induction_on generalizing s bs with
  | _ k ih =>
    subst hlen
    rcases hread : I.readWithin (I.limit s) bs with e | ⟨n, a⟩
    · rw [whole_error hread]
      by_cases he : e = I.more
      · rw [if_pos he]
        dsimp only
        rw [I.unread_keep, whole_keep]
      · have hstays : I.readWithin (I.limit s) (bs ++ cs) = .error e := by
          rw [readWithin_stays _ cs, hread]
          rw [hread]
          exact fun h => he (Except.error.inj h)
        rw [if_neg he, whole_error hstays, if_neg he]
        dsimp only
        rw [keep_self]
    · have hpos := advances_readWithin.pos hread
      have hle := within_of_readWithin hread
      have hstays : I.readWithin (I.limit s) (bs ++ cs) = .ok (n, a) := by
        rw [readWithin_stays _ cs, hread]
        rw [hread]
        nofun
      have hdrop : (bs ++ cs).drop n = bs.drop n ++ cs := List.drop_append_of_le_length hle
      rcases happly : I.apply s a with ⟨t, - | e⟩
      · rw [whole_next hstays happly, whole_next hread happly, hdrop]
        exact ih _ (by rw [List.length_drop]; omega) rfl
      · rw [whole_refused hstays happly, whole_refused hread happly, hdrop]
        dsimp only
        rw [keep_self]

/-- An item is said to be too large where the stream comes to one that is, and then it is the next. -/
theorem whole_tooLarge : ∀ {s : σ} {bs : List β},
    ((I.whole s bs).2 = some (I.tooLarge (I.limit s)) ↔ I.Reaches s bs) ∧
      ((I.whole s bs).2 = some (I.tooLarge (I.limit s)) →
        I.Oversized (I.limit s) (I.unread (I.whole s bs).1)) := by
  intro s bs
  induction hlen : bs.length using Nat.strong_induction_on generalizing s bs with
  | _ k ih =>
    subst hlen
    rcases hread : I.readWithin (I.limit s) bs with e | ⟨n, a⟩
    · rw [whole_error hread]
      -- Nothing is taken in, so nothing is reached but the first item.
      have hfirst : I.Reaches s bs ↔ I.Oversized (I.limit s) bs := by
        refine ⟨fun h => ?_, .here⟩
        cases h with
        | here h => exact h
        | next hr hn => exact absurd ((readWithin_ok_iff.2 ⟨hr, hn⟩).symm.trans hread) nofun
      have hsome : (if e = I.more then none else some e) = some (I.tooLarge (I.limit s)) →
          I.Oversized (I.limit s) bs := by
        intro h
        split_ifs at h
        exact oversized_of_readWithin (hread.trans (congrArg _ (Option.some.inj h)))
      rw [hfirst, I.unread_keep]
      refine ⟨⟨hsome, fun h => ?_⟩, hsome⟩
      have he := Except.error.inj (hread.symm.trans (readWithin_of_oversized h))
      have hne : I.tooLarge (I.limit s) ≠ I.more := fun heq => I.read_ne _ _ (h.2.trans (congrArg _ heq.symm))
      rw [he, if_neg hne]
    · obtain ⟨hr, hn⟩ := readWithin_ok_iff.1 hread
      have hpos := advances_readWithin.pos hread
      have hle := within_of_readWithin hread
      have hfirst : I.Reaches s bs ↔ ∃ t, I.apply s a = (t, none) ∧ I.Reaches t (bs.drop n) := by
        refine ⟨fun h => ?_, fun ⟨t, happly, h⟩ => .next hr hn happly h⟩
        cases h with
        | here h => exact absurd (hread.symm.trans (readWithin_of_oversized h)) nofun
        | next hr' _ happly h =>
          cases hr.symm.trans hr'
          exact ⟨_, happly, h⟩
      rcases happly : I.apply s a with ⟨t, - | e⟩
      · have hlimit : I.limit t = I.limit s := by rw [← I.limit_apply s a, happly]
        have hrest := ih (bs.drop n).length (by rw [List.length_drop]; omega) (s := t) rfl
        rw [whole_next hread happly, hfirst, ← hlimit]
        refine ⟨hrest.1.trans ⟨fun h => ⟨t, happly, h⟩, fun ⟨t', happly', h⟩ => ?_⟩, hrest.2⟩
        cases happly.symm.trans happly'
        exact h
      · have hne := I.apply_ne s a (I.limit s)
        rw [happly] at hne
        rw [whole_refused hread happly, hfirst]
        refine ⟨⟨fun h => absurd h hne, fun ⟨t', happly', _⟩ => ?_⟩, fun h => absurd h hne⟩
        cases happly.symm.trans happly'

/-! ## Call by call -/

theorem limit_call (s : σ) (piece : List β) : I.limit (I.call s piece).1 = I.limit s := by
  rw [I.call_eq]
  split_ifs
  · exact I.limit_keep _ _
  · exact (I.limit_keep _ _).trans (drain_inv (P := fun t => I.limit t = I.limit s)
      (fun t a h => (I.limit_apply t a).trans h) _ _ rfl)

/-- What a call that does not fail leaves is no whole item. -/
theorem left_call {piece : List β} (h : I.call s piece = (t, none)) :
    I.read (I.unread t) = .error I.more ∧ (I.unread t).length ≤ (I.unread s ++ piece).length ∧
      (I.unread s ++ piece).length ≤ I.limit s := by
  rw [I.call_eq] at h
  split_ifs at h with hlt
  · cases h
  · obtain ⟨hkeep, hnone⟩ := Prod.mk.inj h
    obtain ⟨hread, hlen⟩ := drain_left I.advances I.settles.within s (Nat.lt_succ_self _) hnone
    rw [← hkeep, I.unread_keep]
    exact ⟨hread, hlen, Nat.le_of_not_lt hlt⟩

theorem limit_of_call {piece : List β} {failed : Option ε} (h : I.call s piece = (t, failed)) : I.limit t = I.limit s := by
  rw [← limit_call s piece, h]

theorem settled_call {piece : List β} (h : I.call s piece = (t, none)) : I.Settled t := by
  obtain ⟨hread, hlen, hlimit⟩ := left_call h
  exact ⟨hread, (hlen.trans hlimit).trans_eq (limit_of_call h).symm⟩

/-- A stream that is within the limit as a whole may be cut anywhere. -/
theorem fits_of_le {pieces : List (List β)} (h : (I.unread s ++ pieces.flatten).length ≤ I.limit s) :
    I.Fits s pieces := by
  induction pieces generalizing s with
  | nil => trivial
  | cons piece pieces ih =>
    rw [List.flatten_cons, ← List.append_assoc, List.length_append] at h
    refine ⟨fun hlt => absurd hlt (by omega), fun t hcall => ih ?_⟩
    obtain ⟨-, hlen, -⟩ := left_call hcall
    rw [List.length_append, limit_of_call hcall]
    omega

/-- A call that finds no more than the limit, or one item that is larger, reads what it finds in one go. -/
theorem call_eq_whole {piece : List β}
    (h : I.limit s < (I.unread s ++ piece).length → I.Oversized (I.limit s) (I.unread s ++ piece)) :
    I.call s piece = I.whole s (I.unread s ++ piece) := by
  rw [I.call_eq]
  split_ifs with hlt
  · have hover := h hlt
    have hne : I.tooLarge (I.limit s) ≠ I.more := fun heq => I.read_ne _ _ (hover.2.trans (congrArg _ heq.symm))
    rw [whole_error (readWithin_of_oversized hover), if_neg hne]
  · have hread : ∀ bs : List β, bs.length ≤ I.limit s → I.read bs = I.readWithin (I.limit s) bs :=
      fun bs hbs => (readWithin_eq_read hbs).symm
    rw [whole, drain_congr (P := fun bs => bs.length ≤ I.limit s)
      (fun bs n h => ((List.drop_sublist n bs).length_le).trans h) hread _ _ (Nat.le_of_not_lt hlt)]

theorem outcome_nil (s : σ) : I.outcome s [] = (I.keep s (I.unread s ++ []), none) := rfl

theorem outcome_of_call {piece : List β} (pieces : List (List β)) (h : I.call s piece = (t, none)) :
    I.outcome s (piece :: pieces) = I.outcome t pieces := by
  rw [outcome, outcome, calls, h]

theorem outcome_of_failed_call {piece : List β} {e : ε} (pieces : List (List β)) (h : I.call s piece = (t, some e)) :
    I.outcome s (piece :: pieces) = (I.keep t (I.unread t ++ pieces.flatten), some e) := by
  rw [outcome, calls, h]

/-- Where all of them do, they come to what reading the whole stream in one go does. -/
theorem outcome_eq_whole {pieces : List (List β)} (h : I.Fits s pieces) (hs : pieces = [] → I.Settled s) :
    I.outcome s pieces = I.whole s (I.unread s ++ pieces.flatten) := by
  induction pieces generalizing s with
  | nil =>
    obtain ⟨hread, hlimit⟩ := hs rfl
    have hmore : I.readWithin (I.limit s) (I.unread s ++ []) = .error I.more := by
      rw [List.append_nil, readWithin_eq_read hlimit, hread]
    rw [outcome_nil, List.flatten_nil, whole_error hmore, if_pos rfl]
  | cons piece pieces ih =>
    have hcall := call_eq_whole h.1
    rw [List.flatten_cons, ← List.append_assoc, whole_append, ← hcall]
    rcases hc : I.call s piece with ⟨t, - | e⟩
    · rw [outcome_of_call _ hc]
      exact ih (h.2 t hc) fun _ => settled_call hc
    · exact outcome_of_failed_call _ hc

/-- A call that finds more than the limit blames an item for it, though it may not be too large. -/
theorem blamed_of_not_fits {pieces : List (List β)} (h : ¬ I.Fits s pieces) :
    (I.outcome s pieces).2 = some (I.tooLarge (I.limit s)) ∧
      ¬ I.Oversized (I.limit s) (I.unread (I.outcome s pieces).1) := by
  induction pieces generalizing s with
  | nil => exact absurd trivial h
  | cons piece pieces ih =>
    rw [Fits, not_and_or] at h
    rcases h with h | h
    · obtain ⟨hlt, hover⟩ := Classical.not_imp.1 h
      have hcall : I.call s piece = (I.keep s (I.unread s ++ piece), some (I.tooLarge (I.limit s))) := by
        rw [I.call_eq, if_pos hlt]
      rw [outcome_of_failed_call _ hcall, keep_self, I.unread_keep]
      refine ⟨rfl, fun hmore => hover ⟨hlt, ?_⟩⟩
      rw [← hmore.2, List.take_append_of_le_length hlt.le]
    · obtain ⟨t, h⟩ := Classical.not_forall.1 h
      obtain ⟨hcall, hfits⟩ := Classical.not_imp.1 h
      rw [outcome_of_call _ hcall, ← limit_of_call hcall]
      exact ih hfits

/-- An item is blamed only where one is too large exactly if every call finds no more than
    the limit, or one item that is larger by itself. -/
theorem exact_iff {pieces : List (List β)} (hs : pieces = [] → I.Settled s) : I.Exact s pieces ↔ I.Fits s pieces := by
  constructor
  · intro h
    by_contra hfits
    obtain ⟨hblamed, hover⟩ := blamed_of_not_fits hfits
    exact hover (h.first hblamed)
  · intro h
    constructor <;> rw [outcome_eq_whole h hs]
    · exact whole_tooLarge.1
    · exact whole_tooLarge.2

/-- Two ways of cutting a stream into calls come to the same, and blame an item only where
    one is too large, exactly if in both of them every call finds no more than the limit, or
    one item that is larger by itself. -/
theorem agree_iff {pieces pieces' : List (List β)} (h : pieces.flatten = pieces'.flatten)
    (hs : pieces = [] ∨ pieces' = [] → I.Settled s) :
    I.Agree s pieces pieces' ↔ I.Fits s pieces ∧ I.Fits s pieces' := by
  have hleft : pieces = [] → I.Settled s := fun hnil => hs (.inl hnil)
  have hright : pieces' = [] → I.Settled s := fun hnil => hs (.inr hnil)
  constructor
  · intro hagree
    exact ⟨(exact_iff hleft).1 hagree.exact_left, (exact_iff hright).1 hagree.exact_right⟩
  · rintro ⟨hfits, hfits'⟩
    refine ⟨?_, (exact_iff hleft).2 hfits, (exact_iff hright).2 hfits'⟩
    rw [outcome_eq_whole hfits hleft, outcome_eq_whole hfits' hright, h]

end Inlet

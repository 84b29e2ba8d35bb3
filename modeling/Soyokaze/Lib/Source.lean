import Mathlib.Algebra.Order.Group.Nat
import Mathlib.Data.List.Infix

/-!
# Reading until enough is there

A source gives what it holds a piece at a time, cut anywhere, and keeps what was
read and not yet used. A reader that looks at what is there and asks for more
until it can answer (`await`) answers for the whole of a source whenever no
beginning of it, looked at alone, says otherwise (`Steady`).

* `await_of_steady`: the answer then is that of the whole, however it is cut;
* `steady_of_await`: and where every cut gives it, no beginning says otherwise;
* `await_stricter`: a reader that refuses more than another gives its answer or
  refuses;
* `Brings.await`, `Gives.await`: what comes first is answered, whatever comes behind it,
  and that is not read;
* `awaitWith_eq_await`: a reader that remembers how far it has looked answers
  as the one that looks from the front each time.
-/

/-- A source: what was read and not used, whether it has ended, and what it has
    yet to give. A read of nothing is the end, and so is the end of the list. -/
structure Source (ε α : Type) where
  data : List α
  eof : Bool
  reads : List (Except ε (List α))

namespace Source

variable {ε α β σ : Type}

/-- Everything at hand, and nothing to come. -/
def whole (total : List α) : Source ε α := ⟨total, true, []⟩

/-- How much a read brings in. -/
def amount : Except ε (List α) → ℕ
  | .ok piece => piece.length
  | .error _ => 0

/-- How much the source has left to give, what it holds included. -/
def left (s : Source ε α) : ℕ := s.data.length + (s.reads.map amount).foldr (· + ·) 0

/-- Drops the first octets, or all of them if there are fewer. -/
def consume (s : Source ε α) (count : ℕ) : Source ε α := { s with data := s.data.drop count }

/-- Reads once. -/
def fill (s : Source ε α) : Except ε Bool × Source ε α :=
  if s.eof then (.ok false, s)
  else match s.reads with
    | [] => (.ok false, { s with eof := true })
    | .error e :: reads => (.error e, { s with reads := reads })
    | .ok [] :: reads => (.ok false, { s with eof := true, reads := reads })
    | .ok piece :: reads => (.ok true, { s with data := s.data ++ piece, reads := reads })

/-- Looks, and reads until there is an answer; `closed` is what the end answers. -/
def awaitLoop (look : List α → Option (Except ε β)) (closed : Except ε β) :
    List (Except ε (List α)) → List α → Except ε β × Source ε α
  | [], data => (closed, ⟨data, true, []⟩)
  | .error e :: reads, data => (.error e, ⟨data, false, reads⟩)
  | .ok [] :: reads, data => (closed, ⟨data, true, reads⟩)
  | .ok piece@(_ :: _) :: reads, data =>
    match look (data ++ piece) with
    | some answer => (answer, ⟨data ++ piece, false, reads⟩)
    | none => awaitLoop look closed reads (data ++ piece)

/-- What is awaited of a source, which is read until it is there. -/
def await (look : List α → Option (Except ε β)) (closed : Except ε β) (s : Source ε α) :
    Except ε β × Source ε α :=
  match look s.data with
  | some answer => (answer, s)
  | none => if s.eof then (closed, s) else awaitLoop look closed s.reads s.data

/-- `awaitLoop`, with what is remembered from one look to the next. -/
def awaitWithLoop (look : σ → List α → Option (Except ε β) × σ) (closed : Except ε β) :
    List (Except ε (List α)) → List α → σ → Except ε β × Source ε α
  | [], data, _ => (closed, ⟨data, true, []⟩)
  | .error e :: reads, data, _ => (.error e, ⟨data, false, reads⟩)
  | .ok [] :: reads, data, _ => (closed, ⟨data, true, reads⟩)
  | .ok piece@(_ :: _) :: reads, data, memory =>
    match look memory (data ++ piece) with
    | (some answer, _) => (answer, ⟨data ++ piece, false, reads⟩)
    | (none, memory) => awaitWithLoop look closed reads (data ++ piece) memory

/-- `await`, with what is remembered from one look to the next. -/
def awaitWith (look : σ → List α → Option (Except ε β) × σ) (closed : Except ε β) (memory : σ) (s : Source ε α) :
    Except ε β × Source ε α :=
  match look memory s.data with
  | (some answer, _) => (answer, s)
  | (none, memory) => if s.eof then (closed, s) else awaitWithLoop look closed s.reads s.data memory

/-! ## Any source -/

/-- The next read finds the end. -/
def Ended (s : Source ε α) : Prop := s.eof = true ∨ s.reads = [] ∨ ∃ reads, s.reads = .ok [] :: reads

theorem fill_ended {s : Source ε α} (h : s.Ended) : ∃ s', s.fill = (.ok false, s') ∧ s'.data = s.data := by
  rw [fill]
  by_cases heof : s.eof = true
  · exact ⟨s, by rw [if_pos heof], rfl⟩
  · rw [if_neg heof]
    rcases h with h | h | ⟨reads, h⟩
    · exact absurd h heof
    · exact ⟨{ s with eof := true }, by rw [h], rfl⟩
    · exact ⟨{ s with eof := true, reads := reads }, by rw [h], rfl⟩

theorem ended_of_fill {s s' : Source ε α} (h : s.fill = (.ok false, s')) : s.Ended ∧ s'.data = s.data := by
  rw [fill] at h
  by_cases heof : s.eof = true
  · rw [if_pos heof] at h
    cases h
    exact ⟨Or.inl heof, rfl⟩
  · rw [if_neg heof] at h
    rcases hreads : s.reads with _ | ⟨e | _ | ⟨first, piece⟩, reads⟩ <;> rw [hreads] at h <;> cases h
    · exact ⟨Or.inr (Or.inl hreads), rfl⟩
    · exact ⟨Or.inr (Or.inr ⟨reads, hreads⟩), rfl⟩

/-- Whatever is still to be answered of what is left in the buffer was the answer. -/
theorem awaitLoop_seen {look : List α → Option (Except ε β)} {closed : Except ε β}
    (reads : List (Except ε (List α))) {data : List α} (hnone : look data = none) {answer : Except ε β}
    (h : look (awaitLoop look closed reads data).2.data = some answer) :
    (awaitLoop look closed reads data).1 = answer := by
  induction reads generalizing data with
  | nil => exact absurd (h.symm.trans hnone) (by simp)
  | cons read reads ih =>
    rcases read with e | _ | ⟨first, piece⟩
    · exact absurd (h.symm.trans hnone) (by simp)
    · exact absurd (h.symm.trans hnone) (by simp)
    · rw [awaitLoop] at h ⊢
      cases hlook : look (data ++ first :: piece) with
      | some other =>
        rw [hlook] at h
        exact Option.some_inj.1 (hlook.symm.trans h)
      | none =>
        rw [hlook] at h
        exact ih hlook h

theorem await_seen {look : List α → Option (Except ε β)} {closed : Except ε β} {s : Source ε α}
    {answer : Except ε β} (h : look (s.await look closed).2.data = some answer) :
    (s.await look closed).1 = answer := by
  rw [await] at h ⊢
  cases hlook : look s.data with
  | some other =>
    rw [hlook] at h
    exact Option.some_inj.1 (hlook.symm.trans h)
  | none =>
    rw [hlook] at h
    dsimp only at h ⊢
    split_ifs at h ⊢
    · exact absurd (h.symm.trans hlook) (by simp)
    · exact awaitLoop_seen s.reads hlook h

/-- What was accepted, where the end accepts nothing, is there to be looked at. -/
theorem awaitLoop_accepted {look : List α → Option (Except ε β)} {e : ε} (reads : List (Except ε (List α)))
    {data : List α} {b : β} (h : (awaitLoop look (.error e) reads data).1 = .ok b) :
    look (awaitLoop look (.error e) reads data).2.data = some (.ok b) := by
  induction reads generalizing data with
  | nil => cases h
  | cons read reads ih =>
    rcases read with e | _ | ⟨first, piece⟩
    · cases h
    · cases h
    · rw [awaitLoop] at h ⊢
      cases hlook : look (data ++ first :: piece) with
      | some answer =>
        rw [hlook] at h
        exact hlook.trans (congrArg some h)
      | none =>
        rw [hlook] at h
        exact ih h

theorem await_accepted {look : List α → Option (Except ε β)} {e : ε} {s : Source ε α} {b : β}
    (h : (s.await look (.error e)).1 = .ok b) : look (s.await look (.error e)).2.data = some (.ok b) := by
  rw [await] at h ⊢
  cases hlook : look s.data with
  | some answer =>
    rw [hlook] at h
    exact hlook.trans (congrArg some h)
  | none =>
    rw [hlook] at h
    dsimp only at h ⊢
    split_ifs at h ⊢
    exact awaitLoop_accepted s.reads h

/-- What is done with an answer can be done by the look that gives it. -/
theorem await_bind {γ : Type} {look : List α → Option (Except ε β)} {closed : Except ε β} (g : β → Except ε γ)
    (s : Source ε α) : s.await (fun data => (look data).map (·.bind g)) (closed.bind g) =
      ((s.await look closed).1.bind g, (s.await look closed).2) := by
  have hloop : ∀ reads data, awaitLoop (fun data => (look data).map (·.bind g)) (closed.bind g) reads data =
      ((awaitLoop look closed reads data).1.bind g, (awaitLoop look closed reads data).2) := by
    intro reads
    induction reads with
    | nil => exact fun _ => rfl
    | cons read reads ih =>
      intro data
      rcases read with e | _ | ⟨first, piece⟩
      · rfl
      · rfl
      · rw [awaitLoop, awaitLoop]
        cases look (data ++ first :: piece) with
        | some answer => rfl
        | none => exact ih _
  rw [await, await]
  cases look s.data with
  | some answer => rfl
  | none =>
    dsimp only [Option.map_none]
    split_ifs
    · rfl
    · exact hloop s.reads s.data

theorem left_awaitLoop_le {look : List α → Option (Except ε β)} {closed : Except ε β}
    (reads : List (Except ε (List α))) (data : List α) :
    (awaitLoop look closed reads data).2.left ≤ data.length + (reads.map amount).foldr (· + ·) 0 := by
  induction reads generalizing data with
  | nil => exact Nat.le_refl _
  | cons read reads ih =>
    rw [List.map_cons, List.foldr_cons]
    rcases read with e | _ | ⟨first, piece⟩
    · exact Nat.add_le_add_left (Nat.le_add_left _ _) _
    · exact Nat.add_le_add_left (Nat.le_add_left _ _) _
    · have hlen : (data ++ first :: piece).length + (reads.map amount).foldr (· + ·) 0 =
          data.length + (amount (.ok (first :: piece) : Except ε (List α)) + (reads.map amount).foldr (· + ·) 0) := by
        rw [List.length_append, Nat.add_assoc]
        rfl
      rw [awaitLoop, ← hlen]
      cases look (data ++ first :: piece) with
      | some answer => exact Nat.le_refl _
      | none => exact ih _

/-- Reading brings in nothing that was not there to be read. -/
theorem left_await_le {look : List α → Option (Except ε β)} {closed : Except ε β} (s : Source ε α) :
    (s.await look closed).2.left ≤ s.left := by
  rw [await]
  cases look s.data with
  | some answer => exact Nat.le_refl _
  | none =>
    dsimp only
    split_ifs
    · exact Nat.le_refl _
    · exact left_awaitLoop_le s.reads s.data

/-- What is used is no longer left. -/
theorem left_consume {s : Source ε α} {count : ℕ} (h : count ≤ s.data.length) :
    (s.consume count).left + count = s.left := by
  have hdrop : (s.consume count).data.length + count = s.data.length := by
    rw [consume, List.length_drop, Nat.sub_add_cancel h]
  rw [left, left, ← hdrop, Nat.add_right_comm]
  rfl

/-- Using some of it leaves no more than there was. -/
theorem left_consume_le (s : Source ε α) (count : ℕ) : (s.consume count).left ≤ s.left :=
  Nat.add_le_add_right (by rw [consume, List.length_drop]; exact Nat.sub_le _ _) _

/-- A reader that refuses more than another, and else looks as it does, gives its
    answer or refuses. -/
theorem await_stricter {look look' : List α → Option (Except ε β)} {closed : Except ε β} {Refusal : ε → Prop}
    (h : ∀ data, look data = look' data ∨ ∃ e, look data = some (.error e) ∧ Refusal e) (s : Source ε α) :
    s.await look closed = s.await look' closed ∨ ∃ e, (s.await look closed).1 = .error e ∧ Refusal e := by
  have hloop : ∀ reads data, awaitLoop look closed reads data = awaitLoop look' closed reads data ∨
      ∃ e, (awaitLoop look closed reads data).1 = .error e ∧ Refusal e := by
    intro reads
    induction reads with
    | nil => exact fun data => Or.inl rfl
    | cons read reads ih =>
      intro data
      rcases read with e | _ | ⟨first, piece⟩
      · exact Or.inl rfl
      · exact Or.inl rfl
      · rw [awaitLoop, awaitLoop]
        rcases h (data ++ first :: piece) with heq | ⟨e, hlook, hrefusal⟩
        · rw [heq]
          cases look' (data ++ first :: piece) with
          | some answer => exact Or.inl rfl
          | none => exact ih _
        · rw [hlook]
          exact Or.inr ⟨e, rfl, hrefusal⟩
  rw [await, await]
  rcases h s.data with heq | ⟨e, hlook, hrefusal⟩
  · rw [heq]
    cases look' s.data with
    | some answer => exact Or.inl rfl
    | none =>
      dsimp only
      split_ifs
      · exact Or.inl rfl
      · exact hloop s.reads s.data
  · rw [hlook]
    exact Or.inr ⟨e, rfl, hrefusal⟩

/-! ## Cuts of one stream -/

/-- The source gives these octets, what it holds first, and then ends. -/
def Delivers (s : Source ε α) (total : List α) : Prop :=
  ∃ pieces : List (List α), s.reads = pieces.map .ok ∧ [] ∉ pieces ∧ s.data ++ pieces.flatten = total ∧
    (s.eof = true → pieces = [])

/-- No beginning of the stream, looked at alone, gives another answer than the
    whole does. -/
def Steady (look : List α → Option (Except ε β)) (closed : Except ε β) (total : List α) : Prop :=
  ∀ front, front <+: total → ∀ answer, look front = some answer → (look total).getD closed = answer

theorem delivers_whole (total : List α) : (whole total : Source ε α).Delivers total :=
  ⟨[], rfl, List.not_mem_nil, List.append_nil total, fun _ => rfl⟩

theorem Delivers.prefix {s : Source ε α} {total : List α} (h : s.Delivers total) : s.data <+: total := by
  obtain ⟨pieces, -, -, htotal, -⟩ := h
  exact ⟨pieces.flatten, htotal⟩

theorem Delivers.eq_of_eof {s : Source ε α} {total : List α} (h : s.Delivers total) (heof : s.eof = true) :
    s.data = total := by
  obtain ⟨pieces, -, -, htotal, hpieces⟩ := h
  rw [hpieces heof, List.flatten_nil, List.append_nil] at htotal
  exact htotal

/-- All a source of a stream has left is the stream. -/
theorem Delivers.left_eq {s : Source ε α} {total : List α} (h : s.Delivers total) : s.left = total.length := by
  obtain ⟨pieces, hreads, -, rfl, -⟩ := h
  rw [left, hreads, List.length_append, List.map_map]
  refine congrArg (s.data.length + ·) ?_
  clear hreads
  induction pieces with
  | nil => rfl
  | cons piece pieces ih =>
    rw [List.map_cons, List.foldr_cons, List.flatten_cons, List.length_append, ih]
    rfl

/-- A read of a stream brings in more of it, or finds its end. -/
theorem Delivers.fill {s : Source ε α} {total : List α} (h : s.Delivers total) :
    (∃ s', s.fill = (.ok true, s') ∧ s'.Delivers total) ∨
      ∃ s', s.fill = (.ok false, s') ∧ s'.data = total ∧ s'.Delivers total := by
  by_cases heof : s.eof = true
  · exact Or.inr ⟨s, by rw [Source.fill, if_pos heof], h.eq_of_eof heof, h⟩
  · obtain ⟨pieces, hreads, hne, htotal, -⟩ := h
    rw [Source.fill, if_neg heof, hreads]
    cases pieces with
    | nil =>
      rw [List.flatten_nil, List.append_nil] at htotal
      subst htotal
      exact Or.inr ⟨_, rfl, rfl, [], rfl, hne, List.append_nil _, fun _ => rfl⟩
    | cons piece pieces =>
      obtain ⟨hpiece, hrest⟩ := List.ne_and_not_mem_of_not_mem_cons hne
      cases piece with
      | nil => exact absurd rfl hpiece
      | cons first piece =>
        rw [List.flatten_cons, ← List.append_assoc] at htotal
        exact Or.inl ⟨_, rfl, pieces, rfl, hrest, htotal, fun h => absurd h heof⟩

/-- What is used off the front is off the front of the stream. -/
theorem Delivers.consume {s : Source ε α} {total : List α} (h : s.Delivers total) {count : ℕ}
    (hcount : count ≤ s.data.length) : (s.consume count).Delivers (total.drop count) := by
  obtain ⟨pieces, hreads, hne, htotal, heof⟩ := h
  refine ⟨pieces, hreads, hne, ?_, heof⟩
  rw [← htotal, List.drop_append_of_le_length hcount]
  rfl

/-- A reading of a stream: the answer it gives is that of the whole, the stream is
    still the one it was, and what was accepted was there to be looked at. -/
structure Read (look : List α → Option (Except ε β)) (closed : Except ε β) (total : List α)
    (result : Except ε β × Source ε α) : Prop where
  answer : result.1 = (look total).getD closed
  delivers : result.2.Delivers total
  seen : look result.2.data = some result.1 ∨ result.1 = closed ∧ result.2.data = total

theorem awaitLoop_of_steady {look : List α → Option (Except ε β)} {closed : Except ε β} {total : List α}
    (hsteady : Steady look closed total) {pieces : List (List α)} (hne : [] ∉ pieces) {data : List α}
    (htotal : data ++ pieces.flatten = total) (hnone : look data = none) :
    Read look closed total (awaitLoop look closed (pieces.map .ok) data) := by
  induction pieces generalizing data with
  | nil =>
    rw [List.flatten_nil, List.append_nil] at htotal
    subst htotal
    refine ⟨?_, ⟨[], rfl, List.not_mem_nil, List.append_nil data, fun _ => rfl⟩, Or.inr ⟨rfl, rfl⟩⟩
    rw [hnone]
    rfl
  | cons piece pieces ih =>
    obtain ⟨hpiece, hrest⟩ := List.ne_and_not_mem_of_not_mem_cons hne
    rw [List.flatten_cons, ← List.append_assoc] at htotal
    cases piece with
    | nil => exact absurd rfl hpiece
    | cons first piece =>
      rw [List.map_cons, awaitLoop]
      cases hlook : look (data ++ first :: piece) with
      | some answer =>
        -- The look that answers is at a beginning of the stream.
        refine ⟨(hsteady _ ⟨_, htotal⟩ _ hlook).symm, ⟨pieces, rfl, hrest, htotal, ?_⟩, Or.inl hlook⟩
        intro heof
        cases heof
      | none => exact ih hrest htotal hlook

theorem await_of_steady {look : List α → Option (Except ε β)} {closed : Except ε β} {total : List α}
    (hsteady : Steady look closed total) {s : Source ε α} (h : s.Delivers total) :
    Read look closed total (s.await look closed) := by
  rw [await]
  cases hlook : look s.data with
  | some answer => exact ⟨(hsteady _ h.prefix _ hlook).symm, h, Or.inl hlook⟩
  | none =>
    by_cases heof : s.eof = true
    · simp only [if_pos heof]
      refine ⟨?_, h, Or.inr ⟨rfl, h.eq_of_eof heof⟩⟩
      rw [← h.eq_of_eof heof, hlook]
      rfl
    · simp only [if_neg heof]
      obtain ⟨pieces, hreads, hne, htotal, -⟩ := h
      rw [hreads]
      exact awaitLoop_of_steady hsteady hne htotal hlook

/-- A beginning of the stream that answers for itself can be all there is to look at
    when the reader looks, so the answer has to be that of the whole. -/
theorem steady_of_await {look : List α → Option (Except ε β)} {closed : Except ε β} {total : List α}
    (h : ∀ s : Source ε α, s.Delivers total → (s.await look closed).1 = (look total).getD closed) :
    Steady look closed total := by
  rintro front ⟨rest, rfl⟩ answer hlook
  -- The cut is made right behind the beginning.
  obtain ⟨s, hdata, hs⟩ : ∃ s : Source ε α, s.data = front ∧ s.Delivers (front ++ rest) := by
    cases rest with
    | nil => exact ⟨whole front, rfl, by rw [List.append_nil]; exact delivers_whole front⟩
    | cons first rest => exact ⟨⟨front, false, [.ok (first :: rest)]⟩, rfl, [first :: rest], rfl, by simp, by simp, by simp⟩
  rw [← h s hs, await, hdata, hlook]

/-- Two cuts of one stream give a reader the same answer. -/
theorem await_eq {look : List α → Option (Except ε β)} {closed : Except ε β} {total : List α}
    (hsteady : Steady look closed total) {s s' : Source ε α} (h : s.Delivers total) (h' : s'.Delivers total) :
    (s.await look closed).1 = (s'.await look closed).1 :=
  (await_of_steady hsteady h).answer.trans (await_of_steady hsteady h').answer.symm

/-! ## What comes first -/

/-- These come first, whatever comes behind them. -/
def Brings (s : Source ε α) (front : List α) : Prop :=
  ∃ (pieces : List (List α)) (later : List (Except ε (List α))), s.reads = pieces.map .ok ++ later ∧ [] ∉ pieces ∧
    front <+: s.data ++ pieces.flatten ∧ (s.eof = true → pieces = [])

theorem Delivers.brings {s : Source ε α} {total : List α} (h : s.Delivers total) : s.Brings total := by
  obtain ⟨pieces, hreads, hne, htotal, heof⟩ := h
  exact ⟨pieces, [], by rw [hreads, List.append_nil], hne, ⟨[], by rw [htotal, List.append_nil]⟩, heof⟩

/-- The source gives these octets, what it holds first, and these reads come behind them. -/
def Gives (s : Source ε α) (total : List α) (later : List (Except ε (List α))) : Prop :=
  ∃ pieces : List (List α), s.reads = pieces.map .ok ++ later ∧ [] ∉ pieces ∧ s.data ++ pieces.flatten = total ∧
    (s.eof = true → pieces = [])

theorem brings_iff {s : Source ε α} {front : List α} : s.Brings front ↔ ∃ rest later, s.Gives (front ++ rest) later := by
  constructor
  · rintro ⟨pieces, later, hreads, hne, ⟨rest, hrest⟩, heof⟩
    exact ⟨rest, later, pieces, hreads, hne, hrest.symm, heof⟩
  · rintro ⟨rest, later, pieces, hreads, hne, htotal, heof⟩
    exact ⟨pieces, later, hreads, hne, ⟨rest, htotal.symm⟩, heof⟩

/-- What has been used is not to come any more. -/
theorem Gives.consume {s : Source ε α} {front rest : List α} {later : List (Except ε (List α))}
    (h : s.Gives (front ++ rest) later) (hfront : front <+: s.data) : (s.consume front.length).Gives rest later := by
  obtain ⟨pieces, hreads, hne, htotal, heof⟩ := h
  obtain ⟨more, hmore⟩ := hfront
  refine ⟨pieces, hreads, hne, ?_, heof⟩
  rw [Source.consume, ← hmore, List.drop_left]
  rwa [← hmore, List.append_assoc, List.append_cancel_left_eq] at htotal

theorem Brings.consume {s : Source ε α} {front rest : List α} (h : s.Brings (front ++ rest)) (hfront : front <+: s.data) :
    (s.consume front.length).Brings rest := by
  obtain ⟨more, later, hgives⟩ := brings_iff.1 h
  rw [List.append_assoc] at hgives
  exact brings_iff.2 ⟨more, later, hgives.consume hfront⟩

/-- What is awaited until these are there is what they answer, and what comes behind the reads
    that bring them is not read. -/
theorem Gives.await {look : List α → Option (Except ε β)} {closed answer : Except ε β} {front rest : List α} {s : Source ε α}
    {later : List (Except ε (List α))} (h : s.Gives (front ++ rest) later)
    (hwhole : ∀ more, look (front ++ more) = some answer) (hshort : ∀ data, data <+: front → data ≠ front → look data = none) :
    ∃ s', s.await look closed = (answer, s') ∧ front <+: s'.data ∧ s'.Gives (front ++ rest) later := by
  obtain ⟨pieces, hreads, hne, htotal, heof⟩ := h
  -- What is there is short of these, or begins with them.
  have hcut : ∀ data tail : List α, data ++ tail = front ++ rest → front <+: data ∨ (look data = none ∧ tail ≠ []) := by
    intro data tail htotal
    have hprefix : front <+: data ++ tail := ⟨rest, htotal.symm⟩
    rcases List.prefix_or_prefix_of_prefix hprefix (List.prefix_append data tail) with hfront | hdata
    · exact .inl hfront
    · by_cases heq : data = front
      · exact .inl (heq ▸ List.prefix_rfl)
      · refine .inr ⟨hshort data hdata heq, ?_⟩
        rintro rfl
        rw [List.append_nil] at hprefix
        exact heq (hdata.eq_of_length_le hprefix.length_le)
  have hseen : ∀ data : List α, front <+: data → look data = some answer := by
    rintro _ ⟨more, rfl⟩
    exact hwhole more
  rw [Source.await]
  rcases hcut _ _ htotal with hfront | ⟨hnone, hmore⟩
  · rw [hseen _ hfront]
    exact ⟨s, rfl, hfront, pieces, hreads, hne, htotal, heof⟩
  · have hopen : ¬s.eof = true := fun h => hmore (by rw [heof h, List.flatten_nil])
    rw [hnone]
    dsimp only
    rw [if_neg hopen, hreads]
    clear hreads heof
    generalize s.data = data at htotal hnone
    induction pieces generalizing data with
    | nil => exact absurd rfl hmore
    | cons piece pieces ih =>
      obtain ⟨hpiece, hrest⟩ := List.ne_and_not_mem_of_not_mem_cons hne
      rw [List.flatten_cons, ← List.append_assoc] at htotal
      cases piece with
      | nil => exact absurd rfl hpiece
      | cons first piece =>
        rw [List.map_cons, List.cons_append, awaitLoop]
        rcases hcut _ _ htotal with hfront | ⟨hnone', hmore'⟩
        · rw [hseen _ hfront]
          exact ⟨_, rfl, hfront, pieces, rfl, hrest, htotal, fun h => by cases h⟩
        · rw [hnone']
          exact ih hrest hmore' _ htotal hnone'

theorem Brings.await {look : List α → Option (Except ε β)} {closed answer : Except ε β} {front rest : List α} {s : Source ε α}
    (h : s.Brings (front ++ rest)) (hwhole : ∀ more, look (front ++ more) = some answer)
    (hshort : ∀ data, data <+: front → data ≠ front → look data = none) :
    ∃ s', s.await look closed = (answer, s') ∧ front <+: s'.data ∧ s'.Brings (front ++ rest) := by
  obtain ⟨more, later, hgives⟩ := brings_iff.1 h
  rw [List.append_assoc] at hgives
  obtain ⟨s', hawait, hfront, hgives⟩ := hgives.await hwhole hshort
  refine ⟨s', hawait, hfront, brings_iff.2 ⟨more, later, ?_⟩⟩
  rwa [List.append_assoc]

/-- A source has at least left what it gives. -/
theorem Gives.length_le {s : Source ε α} {total : List α} {later : List (Except ε (List α))} (h : s.Gives total later) :
    total.length ≤ s.left := by
  obtain ⟨pieces, hreads, -, rfl, -⟩ := h
  rw [left, hreads, List.length_append]
  refine Nat.add_le_add_left ?_ s.data.length
  clear hreads
  induction pieces with
  | nil => exact Nat.zero_le _
  | cons piece pieces ih =>
    rw [List.flatten_cons, List.length_append, List.map_cons, List.cons_append, List.map_cons, List.foldr_cons]
    exact Nat.add_le_add_left ih piece.length

/-! ## Readers that remember -/

theorem awaitWithLoop_eq {look : σ → List α → Option (Except ε β) × σ} {look' : List α → Option (Except ε β)}
    {closed : Except ε β} (Knows : σ → List α → Prop)
    (hlook : ∀ memory data more, Knows memory data → (look memory (data ++ more)).1 = look' (data ++ more) ∧
      Knows (look memory (data ++ more)).2 (data ++ more))
    (reads : List (Except ε (List α))) {data : List α} {memory : σ} (h : Knows memory data) :
    awaitWithLoop look closed reads data memory = awaitLoop look' closed reads data := by
  induction reads generalizing data memory with
  | nil => rfl
  | cons read reads ih =>
    rcases read with e | piece
    · rfl
    · cases piece with
      | nil => rfl
      | cons first piece =>
        obtain ⟨hanswer, hknows⟩ := hlook memory data (first :: piece) h
        rw [awaitWithLoop, awaitLoop, ← hanswer]
        rcases hstep : look memory (data ++ first :: piece) with ⟨_ | answer, memory'⟩
        · rw [hstep] at hknows
          exact ih hknows
        · rfl

/-- Where what is remembered never hides an answer, the reader might as well look
    from the front each time. -/
theorem awaitWith_eq_await {look : σ → List α → Option (Except ε β) × σ} {look' : List α → Option (Except ε β)}
    {closed : Except ε β} (Knows : σ → List α → Prop)
    (hlook : ∀ memory data more, Knows memory data → (look memory (data ++ more)).1 = look' (data ++ more) ∧
      Knows (look memory (data ++ more)).2 (data ++ more))
    {memory : σ} (h : Knows memory []) (s : Source ε α) :
    s.awaitWith look closed memory = s.await look' closed := by
  obtain ⟨hanswer, hknows⟩ := hlook memory [] s.data h
  rw [List.nil_append] at hanswer hknows
  rw [awaitWith, await, ← hanswer]
  rcases hstep : look memory s.data with ⟨_ | answer, memory'⟩
  · rw [hstep] at hknows
    dsimp only
    split_ifs
    · rfl
    · exact awaitWithLoop_eq Knows hlook s.reads hknows
  · rfl

end Source

import Soyokaze.Protocol.H1.Connection

/-!
# The ceiling on an HTTP/1 body

A body is held to the lesser of the connection's own ceiling and what the head
left of the message's. A length that is declared is held to it before anything is
read, and a chunk when its size is. A body that ends with the connection is held
to it after every read, and so not where the octets came in with the head and
nothing is read after them.

* `H1Connection.readChunks_fuel`: the loop over the chunks does not stop short;
* `H1Connection.readChunks_le`, `H1Connection.readToEnd_le`: what the two loops
  give, and when the second gives more than it may;
* `H1Connection.readBody_held_iff`: the ceiling holds unless that is the case.
-/

namespace Soyokaze

namespace H1Connection

/-- The error of a ceiling that was passed. -/
def PastLimit (error : Error) : Prop := ∃ reason quoted, error = .limit reason quoted

/-! ## Chunks -/

theorem chunkAt_accepted {data : Octets} {consumed start end' : ℕ}
    (h : chunkLook.chunkAt data = some (.ok (consumed, start, end'))) :
    consumed ≠ 0 ∧ Chunk.decode data = .ok (consumed, start, end') := by
  rw [chunkLook.chunkAt] at h
  split at h
  · cases h
  · next consumed' range hdecode =>
    split_ifs at h with hzero
    cases h
    exact ⟨hzero, hdecode⟩

/-- The data of a chunk that is there is as long as its size line said. -/
theorem decode_size {data : Octets} {consumed start end' first size : ℕ}
    (hdecode : Chunk.decode data = .ok (consumed, start, end')) (hsize : Chunk.parseSize data = .ok (some (first, size)))
    (hzero : consumed ≠ 0) : end' - start ≤ size ∧ end' - start ≤ consumed := by
  rw [Chunk.decode, hsize] at hdecode
  dsimp only at hdecode
  split_ifs at hdecode
  · cases hdecode
    exact ⟨Nat.zero_le _, Nat.zero_le _⟩
  · cases hdecode
    exact absurd rfl hzero
  · cases hdecode
    omega

/-- A chunk that is accepted keeps the body within its limit. -/
theorem chunkLook_accepted {limits : H1Limits} {limit length : ℕ} {data : Octets} {consumed start end' : ℕ}
    (h : chunkLook limits limit length data = some (.ok (consumed, start, end')))
    (haddr : length + data.length < USIZE) :
    consumed ≠ 0 ∧ consumed ≤ data.length ∧ end' - start ≤ consumed ∧ (start < end' → length + (end' - start) ≤ limit) := by
  rw [chunkLook] at h
  split at h
  · cases h
  · next first size hsize =>
    split_ifs at h with hlimit
    · cases h
    · obtain ⟨hzero, hdecode⟩ := chunkAt_accepted h
      obtain ⟨hle, hconsumed⟩ := decode_size hdecode hsize hzero
      refine ⟨hzero, Chunk.decode_le hdecode, hconsumed, fun _ => ?_⟩
      have := Chunk.decode_le hdecode
      omega
  · next hsize =>
    split_ifs at h
    · cases h
    · obtain ⟨hzero, hdecode⟩ := chunkAt_accepted h
      rw [Chunk.decode, hsize] at hdecode
      cases hdecode
      exact absurd rfl hzero

/-- A chunk that is accepted is there in whole, and more than nothing. -/
theorem chunkLook_there {limits : H1Limits} {limit length consumed start end' : ℕ} {data : Octets}
    (h : chunkLook limits limit length data = some (.ok (consumed, start, end'))) :
    consumed ≠ 0 ∧ consumed ≤ data.length ∧ end' ≤ consumed := by
  obtain ⟨hzero, hdecode⟩ : consumed ≠ 0 ∧ Chunk.decode data = .ok (consumed, start, end') := by
    rw [chunkLook] at h
    split at h
    · cases h
    · split_ifs at h
      · cases h
      · exact chunkAt_accepted h
    · split_ifs at h
      · cases h
      · exact chunkAt_accepted h
  refine ⟨hzero, Chunk.decode_le hdecode, ?_⟩
  rw [Chunk.decode] at hdecode
  split at hdecode
  · cases hdecode
  · cases hdecode
    exact Nat.le_refl _
  · dsimp only at hdecode
    split_ifs at hdecode <;> cases hdecode <;> omega

/-- The loop never stops short of what the source has left: every chunk takes octets
    off it. -/
theorem readChunks_fuel {limits : H1Limits} {limit fuel fuel' : ℕ} {body : Octets} {s : Source Error UInt8}
    (h : s.left < fuel) (h' : s.left < fuel') :
    readChunks limits limit fuel body s = readChunks limits limit fuel' body s := by
  induction fuel generalizing fuel' body s with
  | zero => exact absurd h (Nat.not_lt_zero _)
  | succ fuel ih =>
    obtain ⟨fuel', rfl⟩ := Nat.exists_eq_succ_of_ne_zero (Nat.ne_zero_of_lt h')
    rw [readChunks, readChunks]
    have hleft := @Source.left_await_le _ _ _ (chunkLook limits limit body.length) (.error .closed) s
    rcases hawait : s.await (chunkLook limits limit body.length) (.error .closed) with ⟨error | ⟨consumed, start, end'⟩, s'⟩
    · rfl
    · have hlook := Source.await_accepted (congrArg Prod.fst hawait)
      rw [hawait] at hleft hlook
      obtain ⟨hzero, hthere, -⟩ := chunkLook_there hlook
      have hconsume := Source.left_consume hthere
      dsimp only at hleft hconsume ⊢
      split_ifs
      · rfl
      · exact ih (by omega) (by omega)

/-- What chunks give is within the limit. -/
theorem readChunks_le {limits : H1Limits} {limit fuel : ℕ} {body out : Octets} {s : Source Error UInt8}
    (hbody : body.length ≤ limit) (haddr : body.length + s.left < USIZE)
    (h : (readChunks limits limit fuel body s).1 = .ok out) : out.length ≤ limit := by
  induction fuel generalizing body s with
  | zero => cases h
  | succ fuel ih =>
    rw [readChunks] at h
    have hleft := @Source.left_await_le _ _ _ (chunkLook limits limit body.length) (.error .closed) s
    rcases hawait : s.await (chunkLook limits limit body.length) (.error .closed) with ⟨error | ⟨consumed, start, end'⟩, s'⟩
    · rw [hawait] at h
      cases h
    · rw [hawait] at h hleft
      dsimp only at h hleft
      have hlook : chunkLook limits limit body.length s'.data = some (.ok (consumed, start, end')) := by
        have := Source.await_accepted (congrArg Prod.fst hawait)
        rwa [hawait] at this
      have hdata : s'.data.length ≤ s'.left := Nat.le_add_right _ _
      obtain ⟨hzero, hthere, hrange, hlimit⟩ := chunkLook_accepted hlook (by omega)
      split_ifs at h with hempty
      · cases h
        exact hbody
      · have hlen : (body ++ (s'.data.take end').drop start).length ≤ body.length + (end' - start) := by
          rw [List.length_append, List.length_drop, List.length_take]
          omega
        have hconsume := Source.left_consume hthere
        exact ih (hlen.trans (hlimit (Nat.not_le.1 hempty))) (by omega) h

/-- A lower limit refuses more and changes nothing else. -/
theorem chunkLook_stricter {limits : H1Limits} {limit more length : ℕ} (hle : limit ≤ more) (data : Octets) :
    chunkLook limits limit length data = chunkLook limits more length data ∨
      ∃ e, chunkLook limits limit length data = some (.error e) ∧ PastLimit e := by
  rw [chunkLook, chunkLook]
  split
  · exact Or.inl rfl
  · next first size _ =>
    by_cases hlimit : limit < min (length + size) (USIZE - 1)
    · rw [if_pos hlimit]
      exact Or.inr ⟨_, rfl, _, _, rfl⟩
    · rw [if_neg hlimit, if_neg fun hmore => hlimit (Nat.lt_of_le_of_lt hle hmore)]
      exact Or.inl rfl
  · exact Or.inl rfl

theorem readChunks_stricter {limits : H1Limits} {limit more : ℕ} (hle : limit ≤ more) (fuel : ℕ) (body : Octets)
    (s : Source Error UInt8) :
    readChunks limits limit fuel body s = readChunks limits more fuel body s ∨
      ∃ e, (readChunks limits limit fuel body s).1 = .error e ∧ PastLimit e := by
  induction fuel generalizing body s with
  | zero => exact Or.inl rfl
  | succ fuel ih =>
    rw [readChunks, readChunks]
    rcases @Source.await_stricter _ _ _ _ _ (.error .closed) PastLimit
      (@chunkLook_stricter limits limit more body.length hle) s with heq | ⟨e, herror, hlimit⟩
    · rw [heq]
      rcases s.await (chunkLook limits more body.length) (.error .closed) with ⟨error | ⟨consumed, start, end'⟩, s'⟩
      · exact Or.inl rfl
      · dsimp only
        split_ifs
        · exact Or.inl rfl
        · exact ih _ _
    · rcases hawait : s.await (chunkLook limits limit body.length) (.error .closed) with ⟨error | _, s'⟩
      · rw [hawait] at herror
        cases herror
        exact Or.inr ⟨e, rfl, hlimit⟩
      · rw [hawait] at herror
        cases herror

/-! ## The end of the connection -/

/-- The look of a reader that only minds the limit. -/
theorem limitLook_stricter {limit more : ℕ} (hle : limit ≤ more) (data : Octets) :
    (if limit < data.length then some (.error (.limit "body exceeds {limit} octets" [.number limit]))
      else (none : Option (Except Error Unit))) =
      (if more < data.length then some (.error (.limit "body exceeds {limit} octets" [.number more])) else none) ∨
    ∃ e, (if limit < data.length then some (.error (.limit "body exceeds {limit} octets" [.number limit]))
      else (none : Option (Except Error Unit))) = some (.error e) ∧ PastLimit e := by
  by_cases h : limit < data.length
  · rw [if_pos h]
    exact Or.inr ⟨_, rfl, _, _, rfl⟩
  · rw [if_neg h, if_neg fun hmore => h (Nat.lt_of_le_of_lt hle hmore)]
    exact Or.inl rfl

/-- What is read to the end is within the limit, unless it was there already and the
    next read found the end. -/
theorem readToEnd_le {limit : ℕ} {s s' : Source Error UInt8} (h : readToEnd limit s = (.ok (), s')) :
    s'.data.length ≤ limit ∨ s.Ended ∧ s'.data = s.data := by
  rw [readToEnd] at h
  rcases hfill : s.fill with ⟨error | _ | _, s₁⟩
  · rw [hfill] at h
    cases h
  · rw [hfill] at h
    cases h
    exact Or.inr (Source.ended_of_fill hfill)
  · rw [hfill] at h
    refine Or.inl (Nat.not_lt.1 fun hlt => ?_)
    dsimp only at h
    -- More than the limit would have been refused when it was looked at.
    have := @Source.await_seen _ _ _ (fun data : Octets => if limit < data.length then
      some (.error (.limit "body exceeds {limit} octets" [.number limit])) else none) (.ok ()) s₁
      (.error (.limit "body exceeds {limit} octets" [.number limit])) (by rw [h]; exact if_pos hlt)
    rw [h] at this
    cases this

theorem readToEnd_stricter {limit more : ℕ} (hle : limit ≤ more) (s : Source Error UInt8) :
    readToEnd limit s = readToEnd more s ∨ ∃ e, (readToEnd limit s).1 = .error e ∧ PastLimit e := by
  rw [readToEnd, readToEnd]
  rcases s.fill with ⟨error | _ | _, s₁⟩
  · exact Or.inl rfl
  · exact Or.inl rfl
  · exact Source.await_stricter (limitLook_stricter hle) s₁

/-! ## The body -/

/-- The connection with another ceiling on its bodies. -/
def allowing (c : H1Connection) (more : ℕ) : H1Connection :=
  { c with limits := { c.limits with maxMessageBodySize := more } }

/-- The ceiling holds of a body: what is given is within both of its halves, and a
    body that a higher ceiling would give, and that is longer, is refused as such. -/
structure HeldToCeiling (c : H1Connection) (length : BodyLength) (budget : ℕ) : Prop where
  within : ∀ body, ((readBody length budget).run c).1 = .ok (some body) →
    body.length ≤ c.limits.maxMessageBodySize ∧ body.length ≤ budget
  refused : ∀ more body, bodyLimit c.limits budget ≤ more →
    ((readBody length more).run (c.allowing more)).1 = .ok (some body) → bodyLimit c.limits budget < body.length →
    ∃ error, ((readBody length budget).run c).1 = .error error ∧ PastLimit error

theorem bodyLimit_allowing (c : H1Connection) (more : ℕ) : bodyLimit (c.allowing more).limits more = more :=
  Nat.min_self more

theorem le_bodyLimit {limits : H1Limits} {budget size : ℕ} :
    size ≤ bodyLimit limits budget ↔ size ≤ limits.maxMessageBodySize ∧ size ≤ budget := Nat.le_min

/-- Where a reader gives nothing past its limit, and a lower limit only refuses more,
    the ceiling holds. -/
theorem heldToCeiling_of {c : H1Connection} {length : BodyLength} {budget : ℕ}
    (hle : ∀ body, ((readBody length budget).run c).1 = .ok (some body) → body.length ≤ bodyLimit c.limits budget)
    (hstrict : ∀ more, bodyLimit c.limits budget ≤ more →
      ((readBody length budget).run c).1 = ((readBody length more).run (c.allowing more)).1 ∨
        ∃ error, ((readBody length budget).run c).1 = .error error ∧ PastLimit error) :
    HeldToCeiling c length budget where
  within body h := le_bodyLimit.1 (hle body h)
  refused more body hmore hbody hlong := by
    rcases hstrict more hmore with heq | hlimit
    · exact absurd (hle body (heq.trans hbody)) (Nat.not_le.2 hlong)
    · exact hlimit

theorem run_readBody_fixed (c : H1Connection) (size budget : ℕ) :
    (readBody (.fixed size) budget).run c =
      if size ≤ bodyLimit c.limits budget then
        if size < USIZE then
          match c.source.await (fun data => if size ≤ data.length then some (.ok ()) else none) (.error .closed) with
          | (.error error, s) => (.error error, { c with source := s })
          | (.ok (), s) => (.ok (some (s.data.take size)), { c with source := s.consume size })
        else (.error (.limit "body of {size} octets exceeds what this platform can address" [.number size]), c)
      else (.error (.limit "body of {size} octets exceeds {limit}"
        [.number size, .number (bodyLimit c.limits budget)]), c) := by
  by_cases hlimit : size ≤ bodyLimit c.limits budget
  · by_cases haddr : size < USIZE
    · rw [if_pos hlimit, if_pos haddr]
      simp only [readBody, reading, taking, Act.run, bind, Act.get, Act.demand, Functor.map, hlimit, haddr, decide_true, if_true]
      rcases c.source.await _ _ with ⟨error | _, s⟩ <;> rfl
    · rw [if_pos hlimit, if_neg haddr]
      simp only [readBody, Act.run, bind, Act.get, Act.demand, hlimit, haddr, decide_true, decide_false, if_true]
      rfl
  · rw [if_neg hlimit]
    simp only [readBody, Act.run, bind, Act.get, Act.demand, hlimit, decide_false]
    rfl

theorem run_readBody_chunked (c : H1Connection) (budget : ℕ) :
    (readBody .chunked budget).run c =
      match readChunks c.limits (bodyLimit c.limits budget) (c.source.left + 1) [] c.source with
      | (.error error, s) => (.error error, { c with source := s })
      | (.ok body, s) => (.ok (some body), { c with source := s }) := by
  simp only [readBody, reading, Act.run, bind, Act.get, Functor.map]
  rcases readChunks _ _ _ _ _ with ⟨error | body, s⟩ <;> rfl

theorem run_readBody_close (c : H1Connection) (budget : ℕ) :
    (readBody .close budget).run c =
      match readToEnd (bodyLimit c.limits budget) c.source with
      | (.error error, s) => (.error error, { c with source := s })
      | (.ok (), s) => (.ok (some s.data), { c with source := s.consume s.data.length }) := by
  simp only [readBody, reading, taking, Act.run, bind, Act.get, Functor.map]
  rcases readToEnd _ _ with ⟨error | _, s⟩
  · rfl
  · simp only [List.take_length]
    rfl

theorem readBody_none_held (c : H1Connection) (budget : ℕ) : HeldToCeiling c .none budget :=
  heldToCeiling_of (fun body h => by cases h) fun more _ => Or.inl rfl

theorem readBody_fixed_held (c : H1Connection) (size budget : ℕ) : HeldToCeiling c (.fixed size) budget := by
  refine heldToCeiling_of ?_ ?_
  · intro body h
    rw [run_readBody_fixed] at h
    split_ifs at h with hlimit haddr
    rcases hawait : c.source.await (fun data => if size ≤ data.length then some (.ok ()) else none) (.error .closed)
      with ⟨error | _, s⟩ <;> rw [hawait] at h <;> cases h
    exact (List.length_take_le _ _).trans hlimit
  · intro more hmore
    rw [run_readBody_fixed, run_readBody_fixed, bodyLimit_allowing]
    by_cases hlimit : size ≤ bodyLimit c.limits budget
    · rw [if_pos hlimit, if_pos (hlimit.trans hmore)]
      split_ifs
      · refine Or.inl ?_
        rw [show (c.allowing more).source = c.source from rfl]
        rcases c.source.await _ _ with ⟨error | _, s⟩ <;> rfl
      · exact Or.inl rfl
    · rw [if_neg hlimit]
      exact Or.inr ⟨_, rfl, _, _, rfl⟩

theorem readBody_chunked_held (c : H1Connection) (budget : ℕ) (haddr : c.source.left < USIZE) :
    HeldToCeiling c .chunked budget := by
  refine heldToCeiling_of ?_ ?_
  · intro body h
    rw [run_readBody_chunked] at h
    rcases hchunks : readChunks c.limits (bodyLimit c.limits budget) (c.source.left + 1) [] c.source with ⟨error | out, s⟩ <;>
      rw [hchunks] at h <;> cases h
    refine readChunks_le (Nat.zero_le _) ?_ (congrArg Prod.fst hchunks)
    rw [List.length_nil, Nat.zero_add]
    exact haddr
  · intro more hmore
    rw [run_readBody_chunked, run_readBody_chunked, bodyLimit_allowing]
    -- The limit of chunk size lines is the same on both sides, and all that is left of the limits.
    have hlimits : ∀ fuel body s, readChunks (c.allowing more).limits more fuel body s = readChunks c.limits more fuel body s := by
      intro fuel
      induction fuel with
      | zero => exact fun _ _ => rfl
      | succ fuel ih =>
        intro body s
        rw [readChunks, readChunks]
        simp only [ih]
        rfl
    rcases @readChunks_stricter c.limits _ _ hmore (c.source.left + 1) [] c.source with heq | ⟨e, herror, hlimit⟩
    · refine Or.inl ?_
      rw [heq, hlimits]
      rw [show (c.allowing more).source = c.source from rfl]
      rcases readChunks c.limits more (c.source.left + 1) [] c.source with ⟨error | out, s⟩ <;> rfl
    · rcases hchunks : readChunks c.limits (bodyLimit c.limits budget) (c.source.left + 1) [] c.source with ⟨error | out, s⟩ <;>
        rw [hchunks] at herror <;> cases herror
      exact Or.inr ⟨_, rfl, hlimit⟩

theorem readBody_close_held {c : H1Connection} {budget : ℕ}
    (h : ¬(bodyLimit c.limits budget < c.source.data.length ∧ c.source.Ended)) : HeldToCeiling c .close budget := by
  refine heldToCeiling_of ?_ ?_
  · intro body hbody
    rw [run_readBody_close] at hbody
    rcases hread : readToEnd (bodyLimit c.limits budget) c.source with ⟨error | _, s⟩ <;> rw [hread] at hbody <;> cases hbody
    rcases readToEnd_le hread with hle | ⟨hended, hdata⟩
    · exact hle
    · rw [hdata]
      exact Nat.not_lt.1 fun hlt => h ⟨hlt, hended⟩
  · intro more hmore
    rw [run_readBody_close, run_readBody_close, bodyLimit_allowing]
    rcases readToEnd_stricter hmore c.source with heq | ⟨e, herror, hlimit⟩
    · refine Or.inl ?_
      rw [heq, show (c.allowing more).source = c.source from rfl]
      rcases readToEnd more c.source with ⟨error | _, s⟩ <;> rfl
    · rcases hread : readToEnd (bodyLimit c.limits budget) c.source with ⟨error | _, s⟩ <;>
        rw [hread] at herror <;> cases herror
      exact Or.inr ⟨_, rfl, hlimit⟩

/-- Where more than the limit is at hand and the next read finds the end, all of it is
    given. -/
theorem readBody_close_ended {c : H1Connection} {budget : ℕ} (hended : c.source.Ended) :
    ((readBody .close budget).run c).1 = .ok (some c.source.data) := by
  obtain ⟨s, hfill, hdata⟩ := Source.fill_ended hended
  rw [run_readBody_close, readToEnd, hfill, ← hdata]

/-- The ceiling holds of every body, however its length is determined and however its
    octets arrive, but of one that ends with the connection, of which more than the
    limit is at hand when it begins and nothing comes after. A process holds fewer
    octets than a `usize` counts. -/
theorem readBody_held_iff (c : H1Connection) (length : BodyLength) (budget : ℕ) (haddr : c.source.left < USIZE) :
    HeldToCeiling c length budget ↔
      ¬(length = .close ∧ bodyLimit c.limits budget < c.source.data.length ∧ c.source.Ended) := by
  constructor
  · rintro hheld ⟨rfl, hlong, hended⟩
    exact absurd (le_bodyLimit.2 (hheld.within _ (readBody_close_ended hended))) (Nat.not_le.2 hlong)
  · intro h
    cases length with
    | none => exact readBody_none_held c budget
    | fixed size => exact readBody_fixed_held c size budget
    | chunked => exact readBody_chunked_held c budget haddr
    | close => exact readBody_close_held fun hlong => h ⟨rfl, hlong⟩

/-- A client that has the whole of a short response at hand, and allows a body of two
    octets. -/
def shortResponse : H1Connection :=
  new [.ok (lit "HTTP/1.0 200 OK\r\n\r\nabc")] .userAgent { H1Limits.default with maxMessageBodySize := 2 }

/-- The same client when it has read the head. -/
def shortResponseBody : H1Connection := { shortResponse with source := ⟨lit "abc", false, []⟩ }

theorem readBody_held_fixed : HeldToCeiling shortResponseBody (.fixed 3) 100 :=
  (readBody_held_iff shortResponseBody (.fixed 3) 100 (by decide +kernel)).2 fun h => by cases h.1

/-- Three octets that came in with the head are given as a body of at most two. -/
theorem body_past_ceiling :
    ((receiveMessage .bare).run shortResponse).1.map (·.body) = .ok (some (.data (lit "abc"))) ∧
      ¬HeldToCeiling shortResponseBody .close 100 := by
  refine ⟨by decide +kernel, fun h => ?_⟩
  have hlen := (h.within (lit "abc") (by decide +kernel)).1
  exact absurd hlen (by decide +kernel)

end H1Connection

end Soyokaze

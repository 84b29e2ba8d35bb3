import Mathlib.Algebra.Order.Group.Int
import Soyokaze.Api.Counts
import Soyokaze.Lib.Course
import Soyokaze.Lib.Sliding

/-!
# What a gate remembers

What a gate remembers of an address is when it was let in, as far back as the longest
period there is a limit for. Admissions, sweeps and whatever else happens to the counts
follow on each other in any order, and the map may be gone through in any order.

* `Gate.calls_take_course`: admissions and drops that go on at once are such a course;
* `Gate.Remembers`: when an address was let in, it is remembered as far back as matters;
* `Gate.rates_kept`: so it is let in no more often than it may be, and who is forgotten to
  make room connected last the longest ago, where whoever connected first the longest ago did.
-/

namespace Soyokaze

namespace Gate

variable {Ip T : Type} [DecidableEq Ip] [AddCommGroup T] [LinearOrder T] {g : Gate Ip T} {ip other : Ip} {now : T}

/-! ## What is dropped for room -/

omit [AddCommGroup T] in
/-- Who goes first is not who is kept, and connected no later than anyone else. -/
theorem victim_spec {history : HashMap Ip (List T)} {keep v : Ip} (h : victim history keep = some v) :
    v ≠ keep ∧ ∃ record, history.lookup v = some record ∧ ∀ other record', other ≠ keep →
      history.lookup other = some record' → front record ≤ front record' := by
  obtain ⟨⟨key, record⟩, hmin, rfl⟩ := Option.map_eq_some_iff.1 h
  obtain ⟨hentry, hkeep⟩ := List.mem_filter.1 (List.argmin_mem hmin)
  refine ⟨of_decide_eq_true hkeep, record, AList.mem_lookup_iff.2 hentry, fun other record' hother hrecord => ?_⟩
  have hmem : ⟨other, record'⟩ ∈ history.entries.filter fun entry => entry.1 ≠ keep :=
    List.mem_filter.2 ⟨AList.mem_lookup_iff.1 hrecord, decide_eq_true hother⟩
  exact List.le_of_mem_argmin (f := fun entry : (Σ _ : Ip, List T) => front entry.2) hmem hmin

omit [AddCommGroup T] in
/-- Nobody goes where nobody but who is kept is remembered. -/
theorem victim_eq_none {history : HashMap Ip (List T)} {keep : Ip} (hkeep : keep ∈ history) (hone : history.size ≤ 1) :
    victim history keep = none := by
  cases hv : victim history keep with
  | none => rfl
  | some v =>
    obtain ⟨hne, record, hrecord, -⟩ := victim_spec hv
    have hmem : v ∈ history := AList.lookup_isSome.1 (by rw [hrecord]; rfl)
    have hother : v ∈ history.erase keep := (AList.mem_erase).2 ⟨hne, hmem⟩
    have hsize := HashMap.size_erase hkeep
    have hnone : (history.erase keep).entries = [] := List.eq_nil_of_length_eq_zero (by rw [HashMap.size] at hsize; omega)
    rw [AList.mem_keys, AList.keys, hnone] at hother
    cases hother

omit [AddCommGroup T] in
/-- What is left is what there was, but for some that are dropped, and never who is kept. -/
theorem boundLoop_lookup (cap : ℕ) (keep : Ip) (fuel : ℕ) (history : HashMap Ip (List T)) :
    (boundLoop cap keep fuel history).lookup keep = history.lookup keep ∧
    ∀ other, (boundLoop cap keep fuel history).lookup other = history.lookup other ∨
      (boundLoop cap keep fuel history).lookup other = none := by
  induction fuel generalizing history with
  | zero => exact ⟨rfl, fun _ => .inl rfl⟩
  | succ fuel ih =>
    rw [boundLoop]
    split_ifs
    · exact ⟨rfl, fun _ => .inl rfl⟩
    · cases hv : victim history keep with
      | none => exact ⟨rfl, fun _ => .inl rfl⟩
      | some v =>
        obtain ⟨hkept, hrest⟩ := ih (history.erase v)
        refine ⟨hkept.trans (AList.lookup_erase_ne (victim_spec hv).1.symm), fun other => ?_⟩
        by_cases hother : other = v
        · refine .inr ?_
          obtain h | h := hrest other
          · rw [h, hother, AList.lookup_erase]
          · exact h
        · have hsame : (history.erase v).lookup other = history.lookup other := AList.lookup_erase_ne hother
          rw [← hsame]
          exact hrest other

omit [AddCommGroup T] in
/-- Where there is one too many, one goes. -/
theorem boundLoop_one {cap : ℕ} {keep : Ip} {history : HashMap Ip (List T)} (hkeep : keep ∈ history)
    (hsize : history.size ≤ max cap 1 + 1) :
    (boundLoop cap keep history.size history = history ∧ history.size ≤ max cap 1) ∨
    history.size = max cap 1 + 1 ∧ ∃ v, victim history keep = some v ∧
      boundLoop cap keep history.size history = history.erase v := by
  rcases hn : history.size with _ | fuel
  · exact .inl ⟨rfl, Nat.zero_le _⟩
  · rw [boundLoop]
    split_ifs with hroom
    · exact .inl ⟨rfl, hn ▸ hroom.trans (le_max_left _ _)⟩
    · cases hv : victim history keep with
      | none =>
        refine .inl ⟨rfl, ?_⟩
        by_contra hmany
        -- There is somebody else.
        have hsome : ∃ entry, entry ∈ history.entries.filter fun entry => entry.1 ≠ keep := by
          have hrest := HashMap.size_erase hkeep
          rcases hentries : (history.erase keep).entries with _ | ⟨⟨other, record⟩, rest⟩
          · rw [HashMap.size, hentries, List.length_nil] at hrest
            omega
          · have hlookup : (history.erase keep).lookup other = some record :=
              AList.mem_lookup_iff.2 (by rw [hentries]; exact List.mem_cons_self)
            have hother : other ≠ keep := by
              rintro rfl
              rw [AList.lookup_erase] at hlookup
              cases hlookup
            rw [AList.lookup_erase_ne hother] at hlookup
            exact ⟨_, List.mem_filter.2 ⟨AList.mem_lookup_iff.1 hlookup, decide_eq_true hother⟩⟩
        obtain ⟨entry, hentry⟩ := hsome
        rw [victim, Option.map_eq_none_iff, List.argmin_eq_none] at hv
        rw [hv] at hentry
        cases hentry
      | some v =>
        obtain ⟨hne, record, hrecord, -⟩ := victim_spec hv
        have hmem : v ∈ history := AList.lookup_isSome.1 (by rw [hrecord]; rfl)
        have hrest := HashMap.size_erase hmem
        have hkept : keep ∈ history.erase v := AList.mem_erase.2 ⟨hne.symm, hkeep⟩
        have hleft := HashMap.size_erase hkept
        have hmax := max_cases cap 1
        refine .inr ⟨by omega, v, rfl, ?_⟩
        cases fuel with
        | zero => rfl
        | succ fuel =>
          dsimp only
          rw [boundLoop]
          split_ifs with hfits
          · rfl
          · have hone : HashMap.size (history.erase v) ≤ 1 := by
              have := max_cases cap 1
              omega
            rw [victim_eq_none hkept hone]

/-! ## What is remembered -/

/-- What is remembered of an address. -/
def record (g : Gate Ip T) (ip : Ip) : List T := (g.history.lookup ip).getD []

/-- The back of a record. One that has none comes before any other. -/
def back (record : List T) : WithBot T := match record.getLast? with
  | none => ⊥
  | some at' => at'

omit [AddCommGroup T] in
theorem le_foldl_max (l : List T) (z : T) : z ≤ l.foldl max z ∧ ∀ at' ∈ l, at' ≤ l.foldl max z := by
  induction l generalizing z with
  | nil => exact ⟨le_rfl, fun _ hat => absurd hat List.not_mem_nil⟩
  | cons first l ih =>
    obtain ⟨hz, hl⟩ := ih (max z first)
    refine ⟨(le_max_left z first).trans hz, fun at' hat => ?_⟩
    obtain rfl | hat := List.mem_cons.1 hat
    · exact (le_max_right z at').trans hz
    · exact hl at' hat

omit [DecidableEq Ip] in
theorem le_window {period : T} {count : UInt32} (h : (period, count) ∈ g.maxConnectionRate) : period ≤ g.window :=
  (le_foldl_max _ 0).2 period (List.mem_map_of_mem (f := Prod.fst) h)

omit [DecidableEq Ip] in
theorem zero_le_window (g : Gate Ip T) : 0 ≤ g.window := (le_foldl_max _ 0).1

omit [AddCommGroup T] [LinearOrder T] in
theorem record_of_lookup {record : List T} (h : g.history.lookup ip = some record) : g.record ip = record := by
  rw [Gate.record, h]
  rfl

theorem prune_suffix (window now : T) (record : List T) : prune window now record <:+ record := List.dropWhile_suffix _

/-- What is left of a record that is not all dropped has the same back. -/
theorem back_prune {window now : T} {record : List T} (h : prune window now record ≠ []) :
    back (prune window now record) = back record := by
  obtain ⟨dropped, hrecord⟩ := prune_suffix window now record
  have hlast : record.getLast? = (prune window now record).getLast? := by
    nth_rewrite 1 [← hrecord]
    exact List.getLast?_append_of_ne_nil _ h
  rw [back, back, hlast]

omit [AddCommGroup T] [LinearOrder T] in
theorem back_snoc (record : List T) (now : T) : back (record ++ [now]) = now := by
  rw [back, List.getLast?_append_of_ne_nil _ (List.cons_ne_nil _ _)]
  rfl

/-- Whether one more admission is within every limit. -/
def Within (g : Gate Ip T) (now : T) (record : List T) : Prop :=
  ∀ period count, (period, count) ∈ g.maxConnectionRate → recent now period record < count

omit [DecidableEq Ip] in
theorem any_eq_false_iff {now : T} {record : List T} :
    (g.maxConnectionRate.any fun (period, count) => count ≤ recent now period record) = false ↔ g.Within now record := by
  rw [List.any_eq_false, Prod.forall]
  simp only [decide_eq_true_eq, UInt32.not_le, Within]

omit [DecidableEq Ip] in
/-- Nothing is over a limit that is not zero. -/
theorem within_nil (hlimits : ∀ period, (period, 0) ∉ g.maxConnectionRate) : g.Within now [] := by
  intro period count hlimit
  refine UInt32.pos_iff_ne_zero.2 ?_
  rintro rfl
  exact hlimits period hlimit

/-- A connection that is within every limit is recorded. -/
theorem rate_of_within (h : g.Within now (prune g.window now (g.record ip))) :
    g.rate ip now = (true, { g with history := g.history.insert ip (prune g.window now (g.record ip) ++ [now]) }) := by
  rw [rate]
  dsimp only
  rw [if_neg (by rw [Bool.not_eq_true]; exact any_eq_false_iff.2 h)]
  rfl

theorem rate_of_not_within (h : ¬g.Within now (prune g.window now (g.record ip))) :
    g.rate ip now = (false, { g with history := g.history.insert ip (prune g.window now (g.record ip)) }) := by
  rw [rate]
  dsimp only
  rw [if_pos (by by_contra hany; exact h (any_eq_false_iff.1 (Bool.not_eq_true _ ▸ hany)))]
  rfl

/-- Where a connection is let in under the lock, it is within every limit, and is recorded. -/
theorem enter_cases (g : Gate Ip T) (ip : Ip) (now : T) :
    g.enter ip now = (false, g) ∨
    (¬g.Within now (prune g.window now (g.record ip)) ∧
      g.enter ip now = (false, { g with history := g.history.insert ip (prune g.window now (g.record ip)) })) ∨
    ((g.maxConnectionsPerIp = 0 ∨ g.count ip < g.maxConnectionsPerIp) ∧
      g.Within now (prune g.window now (g.record ip)) ∧ ∃ history perIp,
      history = g.history.insert ip (prune g.window now (g.record ip) ++ [now]) ∧
      g.enter ip now = (true, { g with perIp, history := boundLoop g.cap ip (HashMap.size history) history })) := by
  rw [enter]
  split_ifs with hover
  · exact .inl rfl
  · have hroom : g.maxConnectionsPerIp = 0 ∨ g.count ip < g.maxConnectionsPerIp := by
      simpa [or_iff_not_imp_left] using hover
    by_cases hwithin : g.Within now (prune g.window now (g.record ip))
    · rw [rate_of_within hwithin]
      exact .inr (.inr ⟨hroom, hwithin, _, _, rfl, rfl⟩)
    · rw [rate_of_not_within hwithin]
      exact .inr (.inl ⟨hwithin, rfl⟩)

/-- Who asks to be let in is remembered, if at all, for what it was and for having been let in. -/
theorem lookup_enter_self (g : Gate Ip T) (ip : Ip) (now : T) :
    g.enter ip now = (false, g) ∨
    ((g.enter ip now).1 = true → g.Within now (prune g.window now (g.record ip))) ∧
    (g.enter ip now).2.history.lookup ip =
      some (prune g.window now (g.record ip) ++ if (g.enter ip now).1 then [now] else []) := by
  obtain hrun | ⟨-, hrun⟩ | ⟨-, hwithin, history, perIp, hhistory, hrun⟩ := g.enter_cases ip now <;> rw [hrun]
  · exact .inl rfl
  · refine .inr ⟨fun hin => absurd hin Bool.false_ne_true, ?_⟩
    rw [AList.lookup_insert, if_neg Bool.false_ne_true, List.append_nil]
  · refine .inr ⟨fun _ => hwithin, ?_⟩
    rw [(boundLoop_lookup g.cap ip (HashMap.size history) history).1, hhistory, AList.lookup_insert, if_pos rfl]

/-- What became of an address that did not ask to be let in. -/
theorem lookup_enter (g : Gate Ip T) (now : T) (h : other ≠ ip) :
    (g.enter ip now).2.history.lookup other = g.history.lookup other ∨ (g.enter ip now).2.history.lookup other = none := by
  obtain hrun | ⟨-, hrun⟩ | ⟨-, -, history, perIp, hhistory, hrun⟩ := g.enter_cases ip now <;> rw [hrun]
  · exact .inl rfl
  · exact .inl (AList.lookup_insert_ne h)
  · have hinsert : history.lookup other = g.history.lookup other := by rw [hhistory, AList.lookup_insert_ne h]
    rw [← hinsert]
    exact (boundLoop_lookup g.cap ip (HashMap.size history) history).2 other

/-- Nothing but who is remembered, and how many connections there are, is different afterwards. -/
theorem enter_same (g : Gate Ip T) (ip : Ip) (now : T) : (g.enter ip now).2.maxConnectionRate = g.maxConnectionRate ∧
    (g.enter ip now).2.cap = g.cap := by
  obtain hrun | ⟨-, hrun⟩ | ⟨-, -, history, perIp, -, hrun⟩ := g.enter_cases ip now <;> rw [hrun] <;> exact ⟨rfl, rfl⟩

/-- Where there is no more than room for one, an address that is let in takes at most one's place: that of
    who connected first the longest ago. -/
theorem size_enter (h : g.history.size ≤ max g.cap 1)
    (hlimits : ∀ period, (period, 0) ∉ g.maxConnectionRate) :
    HashMap.size (g.enter ip now).2.history ≤ max g.cap 1 ∧ ∀ v ∈ g.history, v ∉ (g.enter ip now).2.history →
      (g.enter ip now).1 = true ∧ (g.maxConnectionsPerIp = 0 ∨ g.count ip < g.maxConnectionsPerIp) ∧ ip ∉ g.history ∧
      g.history.size = max g.cap 1 ∧ ∃ record, g.history.lookup v = some record ∧
      ∀ other record', g.history.lookup other = some record' → front record ≤ front record' := by
  obtain hrun | ⟨hover, hrun⟩ | ⟨hroom, -, history, perIp, hhistory, hrun⟩ := g.enter_cases ip now <;> rw [hrun]
  · exact ⟨h, fun v hv hgone => absurd hv hgone⟩
  · refine ⟨?_, fun v hv hgone => absurd ((AList.mem_insert _).2 (.inr hv)) hgone⟩
    have hmem : ip ∈ g.history := by
      by_contra habsent
      have hnone : g.record ip = [] := by
        rw [Gate.record, AList.lookup_eq_none.2 habsent]
        rfl
      exact hover (hnone ▸ within_nil hlimits)
    rw [HashMap.size_insert_of_mem hmem]
    exact h
  · have hkeep : ip ∈ history := by
      rw [hhistory]
      exact (AList.mem_insert _).2 (.inl rfl)
    have hgrows : HashMap.size history ≤ max g.cap 1 + 1 := by
      rw [hhistory]
      exact (HashMap.size_insert_le _ _ _).trans (Nat.succ_le_succ h)
    obtain ⟨hsame, hfits⟩ | ⟨hfull, v, hvictim, herase⟩ := boundLoop_one hkeep hgrows
    · rw [hsame]
      refine ⟨hfits, fun v hv hgone => absurd ?_ hgone⟩
      rw [hhistory]
      exact (AList.mem_insert _).2 (.inr hv)
    · obtain ⟨hne, record, hrecord, hfirst⟩ := victim_spec hvictim
      have hother {other : Ip} (h : other ≠ ip) : history.lookup other = g.history.lookup other := by
        rw [hhistory, AList.lookup_insert_ne h]
      have hnew : ip ∉ g.history := by
        intro hmem
        rw [hhistory, HashMap.size_insert_of_mem hmem] at hfull
        omega
      refine ⟨?_, fun v' hv' hgone => ⟨rfl, hroom, hnew, ?_, record, ?_, fun other record' hrecord' => ?_⟩⟩
      · have hsize := HashMap.size_erase (AList.lookup_isSome.1 (by rw [hrecord]; rfl) : v ∈ history)
        rw [herase]
        dsimp only
        omega
      · rw [hhistory, HashMap.size_insert_of_notMem hnew] at hfull
        omega
      · -- Nobody else went.
        have hgone : v' ∉ history.erase v := by
          rw [← herase]
          exact hgone
        have hsame : v' = v := by
          by_contra hdifferent
          refine hgone (AList.mem_erase.2 ⟨hdifferent, ?_⟩)
          rw [hhistory]
          exact (AList.mem_insert _).2 (.inr hv')
        rw [hsame, ← hother hne, hrecord]
      · have hne' : other ≠ ip := by
          rintro rfl
          exact hnew (AList.lookup_isSome.1 (by rw [hrecord']; rfl))
        exact hfirst other record' hne' (by rw [hother hne', hrecord'])

/-! ## What is done -/

/-- Whether two gates are alike but for the counts, and the order in which their maps are gone through. -/
structure Alike (g g' : Gate Ip T) : Prop where
  maxConnections : g'.maxConnections = g.maxConnections
  maxConnectionRate : g'.maxConnectionRate = g.maxConnectionRate
  maxConnectionHistory : g'.maxConnectionHistory = g.maxConnectionHistory
  history : g.history.entries.Perm g'.history.entries

variable (Ip T) in
/-- What is done with a gate. -/
inductive Deed
  /-- An admission has the lock. -/
  | enter (ip : Ip) (now : T)
  | sweep (now : T)
  /-- Something else is done. -/
  | aside (change : Gate Ip T → Gate Ip T) (alike : ∀ g, Alike g (change g))

/-- When it is done. -/
def Deed.time : Deed Ip T → Option T
  | .enter _ now | .sweep now => some now
  | .aside .. => none

/-- What is done with a gate, and whether a connection was let in. -/
def deeds : Moves (Gate Ip T) Empty Bool (Deed Ip T) where
  step
    | .enter ip now => fun g => (.ok (g.enter ip now).1, (g.enter ip now).2)
    | .sweep now => fun g => (.ok false, g.sweep now)
    | .aside change _ => fun g => (.ok false, change g)
  ends := fun _ => False
  left := fun _ => True

omit [AddCommGroup T] [LinearOrder T] in
theorem alike_leave (g : Gate Ip T) (ip : Ip) : Alike g (g.leave ip) := by
  rw [leave]
  split <;> exact ⟨rfl, rfl, rfl, .refl _⟩

/-- A step of a call under the lock is an admission, and any other something else. -/
theorem perform_deed (g : Gate Ip T) (spurious : Bool) (call : Call Ip T) :
    ∃ deed, ((deeds.step deed).run g).2 = (g.perform spurious call).gate := by
  have haside (change : Gate Ip T → Gate Ip T) (alike : ∀ g, Alike g (change g)) :
      ∃ deed, ((deeds.step deed).run g).2 = change g := ⟨.aside change alike, rfl⟩
  have hsame (g : Gate Ip T) : Alike g g := ⟨rfl, rfl, rfl, .refl _⟩
  cases call with
  | entering => exact haside id hsame
  | loaded ip now current =>
    rw [perform.eq_def]
    dsimp only
    split_ifs
    · exact haside id hsame
    · cases ip <;> exact haside claim fun _ => ⟨rfl, rfl, rfl, .refl _⟩
  | claimed ip now =>
    refine ⟨.enter ip now, ?_⟩
    rw [perform]
    rcases hrun : g.enter ip now with ⟨_ | _, g'⟩ <;> exact congrArg Prod.snd hrun
  | refused | leaving => exact haside giveBack fun _ => ⟨rfl, rfl, rfl, .refl _⟩
  | left ip => exact haside (·.leave ip) fun g => alike_leave g ip

/-- So calls that go on in any order are a course of what is done. -/
theorem calls_take_course (t : Traffic Ip T) (events : List (Event Ip T)) : ∃ h, Course deeds t.gate h (t.after events).gate := by
  have htake (t : Traffic Ip T) (event : Event Ip T) : ∃ h, Course deeds t.gate h (t.take event).gate := by
    cases event with
    | admission => exact ⟨[], .begun⟩
    | drop i =>
      rw [Traffic.take]
      cases t.permits[i]? <;> exact ⟨[], .begun⟩
    | go i spurious =>
      rw [Traffic.take]
      cases t.calls[i]? with
      | none => exact ⟨[], .begun⟩
      | some call =>
        obtain ⟨deed, hdeed⟩ := perform_deed t.gate spurious call
        exact ⟨_, .single (Prod.ext rfl hdeed)⟩
  induction events generalizing t with
  | nil => exact ⟨[], .begun⟩
  | cons event events ih =>
    obtain ⟨h, hfirst⟩ := htake t event
    obtain ⟨h', hrest⟩ := ih (t.take event)
    exact ⟨h' ++ h, hfirst.append (fun _ _ => not_false) hrest⟩

/-- When something was done, the latest first. -/
def times (h : List (Turn (Gate Ip T) Empty Bool (Deed Ip T))) : List T := h.filterMap fun t => t.move.time

/-- Whether time does not go backwards. -/
def Timely (h : List (Turn (Gate Ip T) Empty Bool (Deed Ip T))) : Prop := (times h).Pairwise (· ≥ ·)

instance (h : List (Turn (Gate Ip T) Empty Bool (Deed Ip T))) : Decidable (Timely h) :=
  inferInstanceAs (Decidable ((times h).Pairwise (· ≥ ·)))

/-- Whether an address was forgotten to make room. -/
def Evicts (t : Turn (Gate Ip T) Empty Bool (Deed Ip T)) (ip : Ip) : Prop :=
  ip ∈ t.before.history ∧ ip ∉ t.after.history ∧ ∃ who now, t.move = .enter who now

/-- When an address was let in since it was last forgotten to make room. -/
def admitted (ip : Ip) : List (Turn (Gate Ip T) Empty Bool (Deed Ip T)) → List T
  | [] => []
  | t :: earlier => match t.move with
    | .enter who now =>
      if ip ∈ t.before.history ∧ ip ∉ t.after.history then []
      else if who = ip ∧ t.outcome = .ok true then admitted ip earlier ++ [now] else admitted ip earlier
    | .sweep _ | .aside .. => admitted ip earlier

/-- When an address was last let in. -/
def latest (ip : Ip) : List (Turn (Gate Ip T) Empty Bool (Deed Ip T)) → WithBot T
  | [] => ⊥
  | t :: earlier => match t.move with
    | .enter who now => if who = ip ∧ t.outcome = .ok true then now else latest ip earlier
    | .sweep _ | .aside .. => latest ip earlier

/-! ## What one address is remembered for -/

/-- What is remembered of the admissions of an address is all but those that aged out. -/
def Recalls (window : T) (times admitted record : List T) : Prop :=
  ∃ old, admitted = old ++ record ∧ ∀ at' ∈ old, ∃ now ∈ times, window < now - at'

theorem Recalls.mono {window : T} {times times' admitted record : List T} (h : Recalls window times admitted record)
    (hsub : times ⊆ times') : Recalls window times' admitted record := by
  obtain ⟨old, hall, hold⟩ := h
  exact ⟨old, hall, fun at' hat => (hold at' hat).imp fun _ hnow => ⟨hsub hnow.1, hnow.2⟩⟩

theorem Recalls.prune {window now : T} {times admitted record : List T} (h : Recalls window times admitted record)
    (hzero : 0 ≤ window) (hnow : now ∈ times) : Recalls window times admitted (Gate.prune window now record) := by
  obtain ⟨old, hall, hold⟩ := h
  refine ⟨old ++ record.takeWhile fun at' => window < durationSince now at', ?_, fun at' hat => ?_⟩
  · rw [hall, List.append_assoc, Gate.prune, List.takeWhile_append_dropWhile]
  · obtain hat | hat := List.mem_append.1 hat
    · exact hold at' hat
    · have haged : window < max (now - at') 0 := of_decide_eq_true (List.all_eq_true.1 List.all_takeWhile at' hat)
      exact ⟨now, hnow, (lt_max_iff.1 haged).resolve_right (not_lt.2 hzero)⟩

theorem Recalls.snoc {window : T} {times admitted record : List T} (h : Recalls window times admitted record) (now : T) :
    Recalls window times (admitted ++ [now]) (record ++ [now]) := by
  obtain ⟨old, hall, hold⟩ := h
  exact ⟨old, by rw [hall, List.append_assoc], hold⟩

variable [IsOrderedAddMonoid T]

omit [DecidableEq Ip] in
/-- How often an address has connected of late, what is remembered tells. -/
theorem Recalls.countP_lt {period : T} {count : UInt32} {times admitted record : List T}
    (hlimit : (period, count) ∈ g.maxConnectionRate) (h : Recalls g.window times admitted record)
    (hnow : ∀ at' ∈ times, at' ≤ now) (hpast : ∀ at' ∈ admitted, at' ≤ now)
    (hsparse : Sparse period count.toNat admitted) (hrecent : recent now period record < count) :
    (admitted.countP fun at' => now - at' ≤ period) < count.toNat := by
  obtain ⟨old, rfl, hold⟩ := h
  have hnone : (old.countP fun at' => now - at' ≤ period) = 0 := by
    refine List.countP_eq_zero.2 fun at' hat hle => ?_
    obtain ⟨at'', hat'', haged⟩ := hold at' hat
    have hwindow : g.window < now - at' := haged.trans_le (sub_le_sub_right (hnow at'' hat'') at')
    exact absurd ((le_window hlimit).trans_lt hwindow) (not_lt.2 (of_decide_eq_true hle))
  have hsame : (record.countP fun at' => durationSince now at' ≤ period) = record.countP fun at' => now - at' ≤ period := by
    refine List.countP_congr fun at' hat => ?_
    have hle : 0 ≤ now - at' := sub_nonneg.2 (hpast at' (List.mem_append_right _ hat))
    rw [durationSince, max_eq_left hle]
  -- The counter does not come round, as there are no more than the limit.
  have hmost := hsparse.countP_le hpast
  rw [List.countP_append, hnone, Nat.zero_add] at hmost ⊢
  rw [recent, hsame, UInt32.lt_iff_toNat_lt, UInt32.toNat_ofNat_of_lt' (hmost.trans_lt count.toNat_lt)] at hrecent
  exact hrecent

/-- What is known of one address: when it was let in, what is remembered of it, and when it was let in last. -/
structure Remembered (g : Gate Ip T) (times admitted record : List T) (latest : WithBot T) : Prop where
  recalls : Recalls g.window times admitted record
  past : ∀ at' ∈ admitted, at' ∈ times
  sparse : ∀ period count, (period, count) ∈ g.maxConnectionRate → Sparse period count.toNat admitted
  last : record ≠ [] → back record = latest

namespace Remembered

variable {times admitted record : List T} {last : WithBot T}

omit [DecidableEq Ip] [IsOrderedAddMonoid T] in
/-- Nothing is known of an address that was forgotten. -/
theorem forgotten : Remembered g times [] [] last where
  recalls := ⟨[], rfl, fun _ hat => absurd hat List.not_mem_nil⟩
  past := fun _ hat => absurd hat List.not_mem_nil
  sparse := fun _ _ _ => .nil
  last := fun h => absurd rfl h

omit [DecidableEq Ip] [IsOrderedAddMonoid T] in
theorem mono {times' : List T} (h : Remembered g times admitted record last) (hsub : times ⊆ times') :
    Remembered g times' admitted record last where
  recalls := h.recalls.mono hsub
  past := fun at' hat => hsub (h.past at' hat)
  sparse := h.sparse
  last := h.last

omit [DecidableEq Ip] [IsOrderedAddMonoid T] in
theorem of_rate {g' : Gate Ip T} (h : Remembered g times admitted record last)
    (hrate : g'.maxConnectionRate = g.maxConnectionRate) : Remembered g' times admitted record last where
  recalls := by
    rw [window, hrate]
    exact h.recalls
  past := h.past
  sparse := by
    rw [hrate]
    exact h.sparse
  last := h.last

omit [DecidableEq Ip] [IsOrderedAddMonoid T] in
theorem prune (h : Remembered g times admitted record last) (hnow : now ∈ times) :
    Remembered g times admitted (Gate.prune g.window now record) last where
  recalls := h.recalls.prune g.zero_le_window hnow
  past := h.past
  sparse := h.sparse
  last := fun hleft => by
    have hrecord : record ≠ [] := by
      rintro rfl
      exact hleft rfl
    rw [back_prune hleft, h.last hrecord]

omit [DecidableEq Ip] in
/-- An address that is within every limit may be let in. -/
theorem snoc (h : Remembered g times admitted record last) (hnow : now ∈ times) (hle : ∀ at' ∈ times, at' ≤ now)
    (hwithin : g.Within now record) : Remembered g times (admitted ++ [now]) (record ++ [now]) now where
  recalls := h.recalls.snoc now
  past := fun at' hat => (List.mem_append.1 hat).elim (h.past at') fun hat => List.mem_singleton.1 hat ▸ hnow
  sparse := fun period count hlimit => by
    have hsparse := h.sparse period count hlimit
    exact hsparse.snoc (h.recalls.countP_lt hlimit hle (fun at' hat => hle at' (h.past at' hat)) hsparse (hwithin period count hlimit))
  last := fun _ => back_snoc record now

end Remembered

/-! ## What all addresses are remembered for -/

/-- What is known of every address, and how much of it there is. -/
structure Remembers (maxConnectionRate : List (T × UInt32)) (h : List (Turn (Gate Ip T) Empty Bool (Deed Ip T)))
    (g : Gate Ip T) : Prop where
  rate : g.maxConnectionRate = maxConnectionRate
  addresses : ∀ ip, Remembered g (times h) (admitted ip h) (g.record ip) (latest ip h)
  /-- No more addresses are remembered than may be, and something of each, unless nobody is ever let in. -/
  stocked : (∀ period, (period, 0) ∉ maxConnectionRate) →
    g.history.size ≤ max g.cap 1 ∧ ∀ ip record, g.history.lookup ip = some record → record ≠ []

variable {maxConnectionRate : List (T × UInt32)} {h : List (Turn (Gate Ip T) Empty Bool (Deed Ip T))}

/-- What there is to know of an address that asks to be let in. -/
theorem remembered_enter_self (hknown : Remembered g (times h) (admitted ip h) (g.record ip) (latest ip h))
    (hle : ∀ at' ∈ times h, at' ≤ now) :
    let h' := ⟨.enter ip now, g, .ok (g.enter ip now).1, (g.enter ip now).2⟩ :: h
    Remembered (g.enter ip now).2 (times h') (admitted ip h') ((g.enter ip now).2.record ip) (latest ip h') := by
  intro h'
  have hlater : Remembered g (now :: times h) (admitted ip h) (g.record ip) (latest ip h) :=
    hknown.mono (List.subset_cons_self _ _)
  refine .of_rate ?_ (g.enter_same ip now).1
  obtain hrun | ⟨hwithin, hlookup⟩ := g.lookup_enter_self ip now
  · have hadmitted : admitted ip h' = admitted ip h := by simp [h', admitted, hrun]
    have hlatest : latest ip h' = latest ip h := by simp [h', latest, hrun]
    rw [hadmitted, hlatest, hrun]
    exact hlater
  · have hmem : ip ∈ (g.enter ip now).2.history := AList.lookup_isSome.1 (by rw [hlookup]; rfl)
    rw [record_of_lookup hlookup]
    have hpruned := hlater.prune List.mem_cons_self
    cases hin : (g.enter ip now).1 with
    | false =>
      have hadmitted : admitted ip h' = admitted ip h := by simp [h', admitted, hmem, hin]
      have hlatest : latest ip h' = latest ip h := by simp [h', latest, hin]
      rw [hadmitted, hlatest, if_neg Bool.false_ne_true, List.append_nil]
      exact hpruned
    | true =>
      have hadmitted : admitted ip h' = admitted ip h ++ [now] := by simp [h', admitted, hmem, hin]
      have hlatest : latest ip h' = now := by simp [h', latest, hin]
      rw [hadmitted, hlatest, if_pos rfl]
      exact hpruned.snoc List.mem_cons_self (List.forall_mem_cons.2 ⟨le_rfl, hle⟩) (hwithin hin)

omit [IsOrderedAddMonoid T] in
/-- What there is to know of any other. -/
theorem remembered_enter (hknown : Remembered g (times h) (admitted other h) (g.record other) (latest other h))
    (hne : other ≠ ip) :
    let h' := ⟨.enter ip now, g, .ok (g.enter ip now).1, (g.enter ip now).2⟩ :: h
    Remembered (g.enter ip now).2 (times h') (admitted other h') ((g.enter ip now).2.record other) (latest other h') := by
  intro h'
  refine .of_rate ?_ (g.enter_same ip now).1
  by_cases hgone : other ∈ g.history ∧ other ∉ (g.enter ip now).2.history
  · have hadmitted : admitted other h' = [] := by simp [h', admitted, hgone]
    have hrecord : (g.enter ip now).2.record other = [] := by
      rw [record, AList.lookup_eq_none.2 hgone.2]
      rfl
    rw [hadmitted, hrecord]
    exact .forgotten
  · have hadmitted : admitted other h' = admitted other h := by simp [h', admitted, hgone, Ne.symm hne]
    have hlatest : latest other h' = latest other h := by simp [h', latest, Ne.symm hne]
    have hlookup : (g.enter ip now).2.history.lookup other = g.history.lookup other := by
      obtain hsame | hnone := g.lookup_enter now hne
      · exact hsame
      · have hbefore : other ∉ g.history := fun hmem => hgone ⟨hmem, AList.lookup_eq_none.1 hnone⟩
        rw [hnone, AList.lookup_eq_none.2 hbefore]
    rw [hadmitted, hlatest, record, hlookup]
    exact hknown.mono (List.subset_cons_self _ _)

theorem remembers_enter (hknown : Remembers maxConnectionRate h g) (hle : ∀ at' ∈ times h, at' ≤ now) :
    Remembers maxConnectionRate (⟨.enter ip now, g, .ok (g.enter ip now).1, (g.enter ip now).2⟩ :: h) (g.enter ip now).2 where
  rate := (g.enter_same ip now).1.trans hknown.rate
  addresses := fun other => by
    by_cases heq : other = ip
    · subst heq
      exact remembered_enter_self (hknown.addresses other) hle
    · exact remembered_enter (hknown.addresses other) heq
  stocked := fun hlimits => by
    obtain ⟨hsize, hsome⟩ := hknown.stocked hlimits
    rw [← hknown.rate] at hlimits
    rw [(g.enter_same ip now).2]
    refine ⟨(size_enter hsize hlimits).1, fun other record hrecord => ?_⟩
    by_cases heq : other = ip
    · subst heq
      obtain hrun | ⟨hover, hrun⟩ | ⟨-, -, history, perIp, hhistory, hrun⟩ := g.enter_cases other now <;>
        rw [hrun] at hrecord
      · exact hsome other record hrecord
      · rintro rfl
        rw [AList.lookup_insert, Option.some_inj] at hrecord
        exact hover (hrecord ▸ within_nil hlimits)
      · rw [(boundLoop_lookup g.cap other (HashMap.size history) history).1, hhistory, AList.lookup_insert, Option.some_inj] at hrecord
        rw [← hrecord]
        exact List.append_ne_nil_of_right_ne_nil _ (List.cons_ne_nil _ _)
    · obtain hsame | hnone := g.lookup_enter now heq
      · exact hsome other record (hsame ▸ hrecord)
      · rw [hnone] at hrecord
        cases hrecord

omit [IsOrderedAddMonoid T] in
theorem record_sweep (g : Gate Ip T) (now : T) (ip : Ip) : (g.sweep now).record ip = prune g.window now (g.record ip) := by
  rw [record, sweep, HashMap.lookup_filterMap, record]
  cases g.history.lookup ip with
  | none => rfl
  | some record =>
    rw [Option.bind_some, Option.getD_some]
    dsimp only
    split_ifs with hempty
    · exact (List.isEmpty_iff.1 hempty).symm
    · rfl

omit [IsOrderedAddMonoid T] in
theorem remembers_sweep (hknown : Remembers maxConnectionRate h g) :
    Remembers maxConnectionRate (⟨.sweep now, g, .ok false, g.sweep now⟩ :: h) (g.sweep now) where
  rate := hknown.rate
  addresses := fun ip => by
    rw [record_sweep]
    have hlater : Remembered g (now :: times h) (admitted ip h) (g.record ip) (latest ip h) :=
      (hknown.addresses ip).mono (List.subset_cons_self _ _)
    exact .of_rate (hlater.prune List.mem_cons_self) rfl
  stocked := fun hlimits => by
    refine ⟨(HashMap.size_filterMap_le _ _).trans (hknown.stocked hlimits).1, fun ip record hrecord => ?_⟩
    rw [sweep, HashMap.lookup_filterMap, Option.bind_eq_some_iff] at hrecord
    obtain ⟨before, -, hleft⟩ := hrecord
    dsimp only at hleft
    split_ifs at hleft with hempty
    rw [Option.some_inj] at hleft
    rintro rfl
    exact hempty (by rw [hleft]; rfl)

omit [IsOrderedAddMonoid T] in
theorem remembers_aside {change : Gate Ip T → Gate Ip T} (alike : ∀ g, Alike g (change g))
    (hknown : Remembers maxConnectionRate h g) :
    Remembers maxConnectionRate (⟨.aside change alike, g, .ok false, change g⟩ :: h) (change g) where
  rate := (alike g).maxConnectionRate.trans hknown.rate
  addresses := fun ip => by
    rw [record, ← HashMap.lookup_of_perm (alike g).history]
    exact .of_rate (hknown.addresses ip) (alike g).maxConnectionRate
  stocked := fun hlimits => by
    obtain ⟨hsize, hsome⟩ := hknown.stocked hlimits
    rw [HashMap.size, ← (alike g).history.length_eq, cap, (alike g).maxConnections, (alike g).maxConnectionHistory]
    refine ⟨hsize, fun ip record hrecord => hsome ip record ?_⟩
    rw [HashMap.lookup_of_perm (alike g).history, hrecord]

variable (maxConnections maxConnectionsPerIp : UInt32) (maxConnectionHistory : ℕ)

omit [IsOrderedAddMonoid T] in
theorem remembers_new :
    Remembers maxConnectionRate []
      (new maxConnections maxConnectionsPerIp maxConnectionRate maxConnectionHistory : Gate Ip T) where
  rate := rfl
  addresses := fun _ => .forgotten
  stocked := fun _ => ⟨Nat.zero_le _, fun _ _ hrecord => by cases hrecord⟩

/-- Whatever is done, all that matters is remembered. -/
theorem remembers_of_course
    (hcourse : Course deeds (new maxConnections maxConnectionsPerIp maxConnectionRate maxConnectionHistory) h g)
    (htimely : Timely h) : Remembers maxConnectionRate h g := by
  induction hcourse with
  | begun => exact remembers_new maxConnections maxConnectionsPerIp maxConnectionHistory
  | @turn h g g' move outcome _ _ htook ih =>
    have hknown := ih (List.Pairwise.sublist ((List.sublist_cons_self _ h).filterMap _) htimely)
    cases move with
    | enter ip now =>
      obtain ⟨rfl, rfl⟩ := Prod.mk.inj htook
      exact remembers_enter hknown (List.pairwise_cons.1 htimely).1
    | sweep now =>
      obtain ⟨rfl, rfl⟩ := Prod.mk.inj htook
      exact remembers_sweep hknown
    | aside change alike =>
      obtain ⟨rfl, rfl⟩ := Prod.mk.inj htook
      exact remembers_aside alike hknown

/-! ## Who is forgotten -/

/-- Should somebody be forgotten to make room for an address, whoever connected first the longest ago, of what is
    remembered, connected last the longest ago too. -/
def Telling (g : Gate Ip T) (ip : Ip) : Prop :=
  (g.maxConnectionsPerIp = 0 ∨ g.count ip < g.maxConnectionsPerIp) → ip ∉ g.history → g.history.size = max g.cap 1 →
  ∀ v record, g.history.lookup v = some record →
    (∀ other record', g.history.lookup other = some record' → front record ≤ front record') →
    ∀ other record', g.history.lookup other = some record' → back record ≤ back record'

/-- Whether those who were forgotten to make room connected last no later than any who were not. -/
def Fair (t : Turn (Gate Ip T) Empty Bool (Deed Ip T)) (earlier : List (Turn (Gate Ip T) Empty Bool (Deed Ip T))) : Prop :=
  ∀ v, Evicts t v → ∀ other ∈ t.after.history, latest v earlier ≤ latest other (t :: earlier)

omit [DecidableEq Ip] [IsOrderedAddMonoid T] [AddCommGroup T] in
theorem back_le {record : List T} (h : ∀ at' ∈ record, at' ≤ now) : back record ≤ now := by
  rw [back]
  cases hlast : record.getLast? with
  | none => exact bot_le
  | some at' => exact WithBot.coe_le_coe.2 (h at' (List.mem_of_getLast? hlast))

omit [IsOrderedAddMonoid T] in
/-- Who connected first the longest ago goes first, which is fair where that tells who connected last the longest ago. -/
theorem fair_enter (hknown : Remembers maxConnectionRate h g) (hle : ∀ at' ∈ times h, at' ≤ now) (htelling : g.Telling ip) :
    Fair ⟨.enter ip now, g, .ok (g.enter ip now).1, (g.enter ip now).2⟩ h := by
  intro v ⟨hv, hgone, _⟩ other hother
  -- Nobody is ever let in where a limit is zero.
  have hlimits : ∀ period, (period, 0) ∉ maxConnectionRate := by
    intro period hlimit
    rw [← hknown.rate] at hlimit
    obtain hrun | ⟨-, hrun⟩ | ⟨-, hwithin, -⟩ := g.enter_cases ip now
    · rw [hrun] at hgone
      exact hgone hv
    · rw [hrun] at hgone
      exact hgone ((AList.mem_insert _).2 (.inr hv))
    · exact UInt32.not_lt_zero (hwithin period 0 hlimit)
  obtain ⟨hsize, hsome⟩ := hknown.stocked hlimits
  rw [← hknown.rate] at hlimits
  obtain ⟨hin, hroom, hnew, hfull, record, hrecord, hfirst⟩ := (size_enter hsize hlimits).2 v hv hgone
  have hlast {who : Ip} {record : List T} (h' : g.history.lookup who = some record) : back record = latest who h := by
    have hlast := (hknown.addresses who).last
    rw [record_of_lookup h'] at hlast
    exact hlast (hsome who record h')
  have hback := htelling hroom hnew hfull v record hrecord hfirst
  rw [← hlast hrecord]
  by_cases heq : other = ip
  · have hnow : latest other (⟨.enter ip now, g, .ok (g.enter ip now).1, (g.enter ip now).2⟩ :: h) = now := by
      simp [latest, heq, hin]
    rw [hnow]
    refine back_le fun at' hat => hle at' ((hknown.addresses v).past at' ?_)
    obtain ⟨old, hall, -⟩ := (hknown.addresses v).recalls
    rw [hall, record_of_lookup hrecord]
    exact List.mem_append_right _ hat
  · have hsame : latest other (⟨.enter ip now, g, .ok (g.enter ip now).1, (g.enter ip now).2⟩ :: h) = latest other h := by
      simp [latest, Ne.symm heq]
    obtain ⟨record', hrecord'⟩ := Option.isSome_iff_exists.1 (AList.lookup_isSome.2 hother)
    have hbefore : g.history.lookup other = some record' := by
      obtain hkept | hnone := g.lookup_enter now heq
      · rw [← hkept, hrecord']
      · rw [hnone] at hrecord'
        cases hrecord'
    rw [hsame, ← hlast hbefore]
    exact hback other record' hbefore

/-- Whatever is done, and in whatever order the map is gone through, no address is let in more often within a window
    than each limit has it, since it was last forgotten; and whoever is forgotten to make room connected last no later
    than any who are not, where that can be told by who connected first the longest ago. -/
theorem rates_kept
    (hcourse : Course deeds (new maxConnections maxConnectionsPerIp maxConnectionRate maxConnectionHistory) h g)
    (htimely : Timely h) :
    (∀ ip period count, (period, count) ∈ maxConnectionRate → Sparse period count.toNat (admitted ip h)) ∧
    ((∀ t ∈ h, ∀ ip now, t.move = .enter ip now → t.before.Telling ip) →
      ∀ later t earlier, h = later ++ t :: earlier → Fair t earlier) := by
  have hknown := remembers_of_course maxConnections maxConnectionsPerIp maxConnectionHistory hcourse htimely
  refine ⟨fun ip period count hlimit => (hknown.addresses ip).sparse period count (hknown.rate ▸ hlimit), ?_⟩
  intro htelling later t earlier heq
  clear hknown
  induction hcourse generalizing later with
  | begun => cases later <;> cases heq
  | @turn h g g' move outcome hbefore _ htook ih =>
    have hearlier : Timely h := List.Pairwise.sublist ((List.sublist_cons_self _ h).filterMap _) htimely
    cases later with
    | cons t' later =>
      obtain ⟨-, rfl⟩ := List.cons.inj heq
      exact ih hearlier (fun t ht => htelling t (List.mem_cons_of_mem _ ht)) later rfl
    | nil =>
      obtain ⟨rfl, rfl⟩ := List.cons.inj heq
      have hknown := remembers_of_course maxConnections maxConnectionsPerIp maxConnectionHistory hbefore hearlier
      cases move with
      | enter ip now =>
        obtain ⟨rfl, rfl⟩ := Prod.mk.inj htook
        exact fair_enter hknown (List.pairwise_cons.1 htimely).1 (htelling _ List.mem_cons_self ip now rfl)
      | sweep | aside =>
        rintro v ⟨-, -, who, now, hmove⟩
        cases hmove

omit [AddCommGroup T] [IsOrderedAddMonoid T] in
/-- It tells where each address is remembered for one admission. -/
theorem telling_of_singletons (h : ∀ entry ∈ g.history.entries, entry.2.length = 1) : g.Telling ip := by
  have hsame {who : Ip} {record : List T} (hrecord : g.history.lookup who = some record) : front record = back record := by
    obtain ⟨at', rfl⟩ := List.length_eq_one_iff.1 (h _ (AList.mem_lookup_iff.1 hrecord))
    rfl
  intro _ _ _ v record hrecord hfirst other record' hrecord'
  rw [← hsame hrecord, ← hsame hrecord']
  exact hfirst other record' hrecord'

/-- Two addresses connect, and a third takes the place of the first. -/
def inTurn : List (Deed ℕ ℤ) := [.enter 0 0, .enter 1 5, .sweep 6, .enter 2 7]

theorem rates_kept_in_turn :
    (deeds.played inTurn (new 0 0 [(10, 2)] 2)).2.history.keys = [2, 1] ∧
    Sparse 10 2 (admitted 2 (deeds.played inTurn (new 0 0 [(10, 2)] 2)).1) ∧
    ∀ later t earlier, (deeds.played inTurn (new 0 0 [(10, 2)] 2)).1 = later ++ t :: earlier → Fair t earlier := by
  have hcourse : Course deeds (new 0 0 [(10, 2)] 2) (deeds.played inTurn (new 0 0 [(10, 2)] 2)).1
      (deeds.played inTurn (new 0 0 [(10, 2)] 2)).2 := .played fun _ _ => not_false
  obtain ⟨hsparse, hfair⟩ := rates_kept 0 0 2 hcourse (by decide +kernel)
  have hsingle : ∀ t ∈ (deeds.played inTurn (new 0 0 [(10, 2)] 2)).1, ∀ entry ∈ t.before.history.entries, entry.2.length = 1 := by
    decide +kernel
  exact ⟨by decide +kernel, hsparse 2 10 2 List.mem_cons_self, hfair fun t ht _ _ _ => telling_of_singletons (hsingle t ht)⟩

/-- An address connects before and after another, and a third takes its place. -/
def again : List (Deed ℕ ℤ) := [.enter 0 0, .enter 1 5, .enter 0 9, .enter 2 10]

/-- It is forgotten though it connected later than the other, which is not. -/
theorem rates_forget_again :
    ∃ h g, Course (deeds : Moves (Gate ℕ ℤ) Empty Bool (Deed ℕ ℤ)) (new 0 0 [(10, 2)] 2) h g ∧ Timely h ∧
      ∃ later t earlier, h = later ++ t :: earlier ∧ ¬Fair t earlier := by
  have hcourse : Course deeds (new 0 0 [(10, 2)] 2) (deeds.played again (new 0 0 [(10, 2)] 2)).1
      (deeds.played again (new 0 0 [(10, 2)] 2)).2 := .played fun _ _ => not_false
  refine ⟨_, _, hcourse, by decide +kernel, [], _, _, rfl, fun hfair => ?_⟩
  have hle := hfair 0 ⟨by decide +kernel, by decide +kernel, 2, 10, rfl⟩ 1 (by decide +kernel)
  revert hle
  decide +kernel

end Gate

end Soyokaze

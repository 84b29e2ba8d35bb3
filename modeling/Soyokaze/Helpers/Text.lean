import Mathlib.Data.List.Basic

/-!
# Octets and text

Octet strings are lists of `UInt8`. A `Text`, the string type field names and
values are held in, is an octet string that is valid UTF-8, by construction:
everything the library builds one from either is valid or goes through the
lossy conversion.

UTF-8 is read by an automaton (`Utf8.State`) whose states say which octets may
come next inside a scalar; `Utf8.valid` accepts with it and `Utf8.lossy` is the
standard library's lossy decoding, each maximal ill-formed part becoming one
U+FFFD.

* `Utf8.valid_lossy`: the lossy conversion always gives valid UTF-8;
* `Utf8.lossy_of_valid`: it changes nothing that is valid already.
-/

namespace Soyokaze

/-- A string of octets. -/
abbrev Octets := List UInt8

/-- The octets of a string literal of the source. -/
def lit (s : String) : Octets := s.toByteArray.data.toList

namespace Utf8

/-- Where a scan stands: between two scalars, or inside one, the next octet
    being held to `lo..=hi` with `more` continuation octets after it. -/
inductive State
  | ground
  | expect (lo hi : UInt8) (more : ℕ)

/-- The state after the octet that begins a scalar, if it may begin one. -/
def lead (b : UInt8) : Option State :=
  if b < 0x80 then some .ground
  else if b < 0xC2 then none
  else if b ≤ 0xDF then some (.expect 0x80 0xBF 0)
  else if b = 0xE0 then some (.expect 0xA0 0xBF 1)
  else if b = 0xED then some (.expect 0x80 0x9F 1)
  else if b ≤ 0xEF then some (.expect 0x80 0xBF 1)
  else if b = 0xF0 then some (.expect 0x90 0xBF 2)
  else if b ≤ 0xF3 then some (.expect 0x80 0xBF 2)
  else if b = 0xF4 then some (.expect 0x80 0x8F 2)
  else none

/-- The state after a continuation octet, with `more` still to come. -/
def State.next : ℕ → State
  | 0 => .ground
  | more + 1 => .expect 0x80 0xBF more

/-- Whether the octets complete what `s` is in the middle of, and are valid UTF-8 after it. -/
def valid : Octets → State → Bool
  | [], .ground => true
  | [], .expect .. => false
  | b :: l, .ground => match lead b with
    | some s => valid l s
    | none => false
  | b :: l, .expect lo hi more => lo ≤ b && b ≤ hi && valid l (.next more)

/-- U+FFFD. -/
def replacement : Octets := [0xEF, 0xBF, 0xBD]

/-- The lossy decoding, with the octets `held` of a scalar not yet complete. -/
def lossy : Octets → State → Octets → Octets
  | [], .ground, _ => []
  | [], .expect .., _ => replacement
  | b :: l, s, held =>
    let restart := match lead b with
      | some .ground => b :: lossy l .ground []
      | some s => lossy l s [b]
      | none => replacement ++ lossy l .ground []
    match s with
    | .ground => restart
    | .expect lo hi more =>
      if lo ≤ b ∧ b ≤ hi then
        match more with
        | 0 => held ++ b :: lossy l .ground []
        | more + 1 => lossy l (.next (more + 1)) (held ++ [b])
      else replacement ++ restart

attribute [local simp] valid in
theorem valid_append {l : Octets} {s : State} (m : Octets) (h : valid l s = true) :
    valid (l ++ m) s = valid m .ground := by
  induction l generalizing s with
  | nil => cases s <;> simp_all
  | cons b l ih =>
    cases s with
    | ground =>
      simp only [List.cons_append, valid] at h ⊢
      split at h
      · exact ih h
      · exact absurd h Bool.false_ne_true
    | expect lo hi more =>
      simp only [List.cons_append, valid, Bool.and_eq_true] at h ⊢
      rw [ih h.2, h.1.1, h.1.2, Bool.true_and, Bool.true_and]

/-- The octets `held` are what has been read of the scalar `s` is inside. -/
def Held (s : State) (held : Octets) : Prop := ∀ m, valid (held ++ m) .ground = valid m s

theorem held_ground : Held .ground [] := fun _ => rfl

theorem held_lead {b : UInt8} {s : State} (h : lead b = some s) : Held s [b] := fun m => by
  rw [List.singleton_append, valid, h]

theorem Held.next {held : Octets} {lo hi b : UInt8} {more : ℕ} (h : Held (.expect lo hi more) held)
    (hb : lo ≤ b ∧ b ≤ hi) : Held (.next more) (held ++ [b]) := fun m => by
  rw [List.append_assoc, h, List.singleton_append, valid]
  simp [hb.1, hb.2]

theorem valid_replacement_append (l : Octets) :
    valid (replacement ++ l) .ground = valid l .ground := by
  exact valid_append l (by decide)

theorem valid_lossy {l : Octets} {s : State} {held : Octets} (h : Held s held) :
    valid (lossy l s held) .ground = true := by
  induction l generalizing s held with
  | nil =>
    cases s with
    | ground => rfl
    | expect => exact (rfl : valid replacement .ground = true)
  | cons b l ih =>
    have restart : valid (match lead b with
        | some .ground => b :: lossy l .ground []
        | some s => lossy l s [b]
        | none => replacement ++ lossy l .ground []) .ground = true := by
      split
      · next hb => exact (held_lead hb _).trans (ih held_ground)
      · next hb => exact ih (held_lead hb)
      · exact (valid_replacement_append _).trans (ih held_ground)
    cases s with
    | ground => exact restart
    | expect lo hi more =>
      simp only [lossy]
      split_ifs with hb
      · cases more with
        | zero =>
          have := h.next hb
          exact (congrArg (valid · .ground) (by simp)).trans ((this _).trans (ih held_ground))
        | succ more => exact ih (h.next hb)
      · exact (valid_replacement_append _).trans restart

theorem lossy_of_valid {l : Octets} {s : State} {held : Octets} (h : valid l s = true)
    (hg : s = .ground → held = []) : lossy l s held = held ++ l := by
  induction l generalizing s held with
  | nil => cases s <;> simp_all [valid, lossy]
  | cons b l ih =>
    cases s with
    | ground =>
      obtain rfl := hg rfl
      simp only [valid] at h
      simp only [lossy, List.nil_append]
      split at h
      · next s hs =>
        cases s with
        | ground => simp only [hs, ih h (fun _ => rfl), List.nil_append]
        | expect lo hi more => simp only [hs, ih h (by simp), List.singleton_append]
      · exact absurd h Bool.false_ne_true
    | expect lo hi more =>
      simp only [valid, Bool.and_eq_true, decide_eq_true_eq] at h
      simp only [lossy, if_pos h.1]
      cases more with
      | zero => simp [@ih .ground [] h.2 (fun _ => rfl)]
      | succ more => simp [ih (s := .next (more + 1)) h.2 (by simp [State.next])]

/-- The lossy conversion never shortens: what it replaces was of three octets at
    most, which is what U+FFFD takes. -/
theorem length_le_lossy {l : Octets} {s : State} {held : Octets}
    (h : ∀ lo hi more, s = .expect lo hi more → held.length + more ≤ 3) (hg : s = .ground → held = []) :
    held.length + l.length ≤ (lossy l s held).length := by
  have lead_more : ∀ {b lo hi more}, lead b = some (.expect lo hi more) → more ≤ 2 := by
    intro b lo hi more hb
    rw [lead] at hb
    split_ifs at hb <;> cases hb <;> decide
  induction l generalizing s held with
  | nil =>
    cases s with
    | ground => simp [hg rfl, lossy]
    | expect lo hi more =>
      have := h lo hi more rfl
      simp only [List.length_nil, lossy, replacement, List.length_cons]
      omega
  | cons b l ih =>
    have restart : (b :: l).length ≤ (match lead b with
        | some .ground => b :: lossy l .ground []
        | some s => lossy l s [b]
        | none => replacement ++ lossy l .ground []).length := by
      have ground := @ih .ground [] (by simp) (fun _ => rfl)
      split
      · simpa using ground
      · next s _ hb =>
        have := @ih s [b] (fun lo hi more hs => by
          have hmore := lead_more (hs ▸ hb)
          rw [List.length_singleton]
          omega) (fun hs => absurd hs ‹_›)
        rw [List.length_singleton] at this
        rw [List.length_cons]
        omega
      · simp only [replacement, List.length_append, List.length_cons, List.length_nil] at ground ⊢
        omega
    cases s with
    | ground =>
      obtain rfl := hg rfl
      exact Nat.le_trans (Nat.le_of_eq (Nat.zero_add _)) restart
    | expect lo hi more =>
      have hlen := h lo hi more rfl
      simp only [lossy]
      split_ifs with hb
      · cases more with
        | zero =>
          have := @ih .ground [] (by simp) (fun _ => rfl)
          simp only [List.length_append, List.length_cons, List.length_nil] at this ⊢
          omega
        | succ more =>
          have := @ih (.next (more + 1)) (held ++ [b])
            (fun _ _ m hs => by
              cases hs
              rw [List.length_append, List.length_singleton]
              omega) (fun hs => by cases hs)
          simp only [List.length_append, List.length_cons, List.length_nil] at this ⊢
          omega
      · rw [List.length_append]
        exact Nat.add_le_add (show held.length ≤ 3 by omega) restart

theorem valid_of_ascii {l : Octets} (h : l.all (· < 0x80) = true) : valid l .ground = true := by
  induction l with
  | nil => rfl
  | cons b l ih =>
    rw [List.all_cons, Bool.and_eq_true, decide_eq_true_eq] at h
    simp only [valid, lead, if_pos h.1, ih h.2]

end Utf8

/-! ## Text -/

/-- Whether every octet is ASCII. -/
def isAscii (octets : Octets) : Bool := octets.all (· < 0x80)

/-- A string: octets that are valid UTF-8. -/
structure Text where
  octets : Octets
  valid : Utf8.valid octets .ground = true
  deriving DecidableEq

namespace Text

@[ext] theorem ext {s t : Text} (h : s.octets = t.octets) : s = t := by
  cases s; cases t; cases h; rfl

/-- The empty string. -/
def new : Text := ⟨[], rfl⟩

/-- Copies octets, replacing anything that is not valid UTF-8. -/
def fromUtf8Lossy (octets : Octets) : Text :=
  if h : Utf8.valid octets .ground = true then ⟨octets, h⟩
  else ⟨Utf8.lossy octets .ground [], Utf8.valid_lossy Utf8.held_ground⟩

/-- Copies octets already known to be ASCII. The source does not look again, and
    is only ever given ASCII; other octets go through the lossy conversion here. -/
def fromVerifiedAscii (octets : Octets) : Text :=
  if h : isAscii octets = true then ⟨octets, Utf8.valid_of_ascii h⟩ else fromUtf8Lossy octets

/-- A string literal of the source. -/
def lit (s : String) : Text := fromUtf8Lossy (Soyokaze.lit s)

/-- The length in octets. -/
def len (t : Text) : ℕ := t.octets.length

/-- Whether the string is empty. -/
def isEmpty (t : Text) : Bool := t.octets.isEmpty

theorem octets_fromUtf8Lossy (octets : Octets) :
    (fromUtf8Lossy octets).octets = Utf8.lossy octets .ground [] := by
  rw [fromUtf8Lossy]
  split_ifs with h
  · rw [Utf8.lossy_of_valid h (fun _ => rfl), List.nil_append]
  · rfl

theorem length_le_fromUtf8Lossy (octets : Octets) : octets.length ≤ (fromUtf8Lossy octets).len := by
  rw [len, octets_fromUtf8Lossy]
  simpa using @Utf8.length_le_lossy octets .ground [] (by simp) (fun _ => rfl)

@[simp] theorem fromUtf8Lossy_octets (t : Text) : fromUtf8Lossy t.octets = t := by
  rw [fromUtf8Lossy, dif_pos t.valid]

theorem fromVerifiedAscii_eq (octets : Octets) :
    fromVerifiedAscii octets = fromUtf8Lossy octets := by
  rw [fromVerifiedAscii]
  split_ifs with h
  · rw [fromUtf8Lossy, dif_pos (Utf8.valid_of_ascii h)]
  · rfl

end Text

end Soyokaze

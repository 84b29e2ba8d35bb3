import Mathlib.Algebra.BigOperators.Group.List.Basic
import Mathlib.Algebra.Order.Group.Nat
import Mathlib.Data.List.Infix
import Mathlib.Tactic.Ring

/-!
# Evicting from a bounded queue

A queue holds items newest first, each with a size, and drops items from the
far end until what it holds is within some room.

* `fit`: what is kept, said without the loop: the longest stretch of newest
  items that is within the room (`fit_isPrefix`, `total_fit_le`,
  `prefix_fit`).
* `popOver`: the loop itself, which walks from the oldest item and keeps count
  of what is held; it keeps exactly what `fit` says (`popOver_reverse`).
* `fit_fit`: evicting twice is evicting once to the smaller room, which is why
  only the smallest of several capacities matters.
-/

namespace Eviction

variable {α : Type*} (size : α → ℕ)

/-- The size of everything held. -/
def total (l : List α) : ℕ := (l.map size).sum

@[simp] theorem total_nil : total size [] = 0 := rfl

theorem zero_eq_total : 0 = total size [] := rfl

@[simp] theorem total_cons (a : α) (l : List α) : total size (a :: l) = size a + total size l := by
  simp [total]

@[simp] theorem total_append (l m : List α) :
    total size (l ++ m) = total size l + total size m := by
  simp [total]

theorem total_le_of_isPrefix {l m : List α} (h : l <+: m) : total size l ≤ total size m := by
  obtain ⟨t, rfl⟩ := h
  rw [total_append]
  exact Nat.le_add_right _ _

/-- The size bounds the number of items when each costs at least `c`. -/
theorem length_mul_le_total {c : ℕ} (hc : ∀ a, c ≤ size a) (l : List α) :
    l.length * c ≤ total size l := by
  induction l with
  | nil => simp
  | cons a l ih =>
    have := hc a
    rw [List.length_cons, total_cons, Nat.succ_mul]
    omega

/-- What is kept within `room`: the longest stretch of newest items. -/
def fit : ℕ → List α → List α
  | _, [] => []
  | room, a :: l => if size a ≤ room then a :: fit (room - size a) l else []

variable {size}

theorem fit_isPrefix (room : ℕ) (l : List α) : fit size room l <+: l := by
  induction l generalizing room with
  | nil => exact List.prefix_rfl
  | cons a l ih =>
    rw [fit]
    split_ifs
    · exact (List.prefix_cons_inj a).2 (ih _)
    · exact List.nil_prefix

theorem total_fit_le (room : ℕ) (l : List α) : total size (fit size room l) ≤ room := by
  induction l generalizing room with
  | nil => exact Nat.zero_le _
  | cons a l ih =>
    rw [fit]
    split_ifs with h
    · rw [total_cons]
      have := ih (room - size a)
      omega
    · exact Nat.zero_le _

/-- Nothing longer fits. -/
theorem prefix_fit {room : ℕ} {l m : List α} (hm : m <+: l) (hr : total size m ≤ room) :
    m <+: fit size room l := by
  induction l generalizing room m with
  | nil => exact hm
  | cons a l ih =>
    cases m with
    | nil => exact List.nil_prefix
    | cons b m =>
      obtain ⟨rfl, hml⟩ := List.cons_prefix_cons.1 hm
      rw [total_cons] at hr
      rw [fit, if_pos (by omega)]
      exact (List.prefix_cons_inj b).2 (ih hml (by omega))

theorem prefix_fit_iff {room : ℕ} {l m : List α} (hm : m <+: l) :
    m <+: fit size room l ↔ total size m ≤ room :=
  ⟨fun h => (total_le_of_isPrefix size h).trans (total_fit_le room l), prefix_fit hm⟩

theorem fit_of_total_le {room : ℕ} {l : List α} (h : total size l ≤ room) : fit size room l = l :=
  (fit_isPrefix room l).eq_of_length_le (prefix_fit List.prefix_rfl h).length_le

theorem fit_eq_self_iff {room : ℕ} {l : List α} : fit size room l = l ↔ total size l ≤ room :=
  ⟨fun h => h ▸ total_fit_le room l, fit_of_total_le⟩

/-- Evicting twice is evicting once to the smaller room. -/
theorem fit_fit (r s : ℕ) (l : List α) :
    fit size r (fit size s l) = fit size (min r s) l := by
  refine List.IsPrefix.eq_of_length_le ?_ (List.IsPrefix.length_le ?_)
  · refine prefix_fit ((fit_isPrefix r _).trans (fit_isPrefix s l)) (le_min (total_fit_le r _) ?_)
    exact (total_le_of_isPrefix size (fit_isPrefix r _)).trans (total_fit_le s l)
  · have h := @total_fit_le _ size (min r s) l
    exact prefix_fit (prefix_fit (fit_isPrefix _ l) (h.trans (min_le_right _ _)))
      (h.trans (min_le_left _ _))

theorem fit_prefix_fit {r s : ℕ} (h : r ≤ s) (l : List α) : fit size r l <+: fit size s l :=
  prefix_fit (fit_isPrefix r l) ((total_fit_le r l).trans h)

/-- The oldest item is the first to go. -/
theorem fit_concat {room : ℕ} {l : List α} {a : α} (h : room < total size (l ++ [a])) :
    fit size room (l ++ [a]) = fit size room l := by
  have hp : fit size room (l ++ [a]) <+: l := by
    refine (List.prefix_concat_iff.1 (fit_isPrefix room (l ++ [a]))).resolve_left fun he => ?_
    have := @total_fit_le _ size room (l ++ [a])
    rw [he] at this
    omega
  exact (prefix_fit hp (total_fit_le room _)).eq_of_length_le
    (prefix_fit ((fit_isPrefix room l).trans (List.prefix_append _ _)) (total_fit_le room l)).length_le

variable (size)

/-- What is kept within `room`, said as what eviction has to do: it takes the
    oldest items, enough of them, and no more. -/
structure Keeps (room : ℕ) (l kept : List α) : Prop where
  isPrefix : kept <+: l
  enough : total size kept ≤ room
  most : ∀ m, m <+: l → total size m ≤ room → m <+: kept

theorem keeps_fit (room : ℕ) (l : List α) : Keeps size room l (fit size room l) :=
  ⟨fit_isPrefix room l, total_fit_le room l, fun _ hm hr => prefix_fit hm hr⟩

/-- Pops the oldest item for as long as what is held, with `extra` more, is
    over `capacity`. The items are oldest first. -/
def popOver (capacity extra : ℕ) : List α → ℕ → List α × ℕ
  | [], held => ([], held)
  | a :: l, held =>
    if capacity < held + extra then popOver capacity extra l (held - size a) else (a :: l, held)

variable {size}

/-- The loop keeps what fits. -/
theorem popOver_reverse {capacity extra : ℕ} (h : extra ≤ capacity) (l : List α) :
    popOver size capacity extra l.reverse (total size l) =
      ((fit size (capacity - extra) l).reverse, total size (fit size (capacity - extra) l)) := by
  induction l using List.reverseRecOn with
  | nil => rfl
  | append_singleton l a ih =>
    rw [List.reverse_append, List.reverse_singleton, List.singleton_append, popOver]
    split_ifs with hc
    · rw [fit_concat (by omega), total_append, total_cons, total_nil, Nat.add_zero,
        Nat.add_sub_cancel, ih]
    · rw [fit_of_total_le (by omega), List.reverse_append, List.reverse_singleton,
        List.singleton_append]

/-- Where the addition alone is over the capacity, the loop empties the queue. -/
theorem popOver_reverse_of_lt {capacity extra : ℕ} (h : capacity < extra) (l : List α) :
    popOver size capacity extra l.reverse (total size l) = ([], 0) := by
  induction l using List.reverseRecOn with
  | nil => rfl
  | append_singleton l a ih =>
    rw [List.reverse_append, List.reverse_singleton, List.singleton_append, popOver,
      if_pos (by omega), total_append, total_cons, total_nil, Nat.add_zero, Nat.add_sub_cancel, ih]

variable (size)

/-- Evicts from a queue held newest first: what is kept, and its size. -/
def evict (capacity extra : ℕ) (l : List α) (held : ℕ) : List α × ℕ :=
  let (kept, held) := popOver size capacity extra l.reverse held
  (kept.reverse, held)

variable {size}

theorem evict_eq {capacity extra : ℕ} (h : extra ≤ capacity) (l : List α) :
    evict size capacity extra l (total size l) =
      (fit size (capacity - extra) l, total size (fit size (capacity - extra) l)) := by
  rw [evict, popOver_reverse h]
  simp

theorem evict_of_lt {capacity extra : ℕ} (h : capacity < extra) (l : List α) :
    evict size capacity extra l (total size l) = ([], 0) := by
  rw [evict, popOver_reverse_of_lt h]
  rfl

/-- Making room for an item and putting it in front keeps what fits of both. -/
theorem fit_cons_of_le {room : ℕ} {a : α} (h : size a ≤ room) (l : List α) :
    fit size room (a :: l) = a :: fit size (room - size a) l := by rw [fit, if_pos h]

theorem fit_cons_of_lt {room : ℕ} {a : α} (h : room < size a) (l : List α) :
    fit size room (a :: l) = [] := by rw [fit, if_neg (by omega)]

/-- What is kept of a queue depends on the sizes alone. -/
theorem fit_map {β : Type*} {size' : β → ℕ} (f : β → α) {l : List β} (h : ∀ b ∈ l, size (f b) = size' b)
    (room : ℕ) : fit size room (l.map f) = (fit size' room l).map f := by
  induction l generalizing room with
  | nil => rfl
  | cons b l ih =>
    rw [List.map_cons, fit, fit, h b List.mem_cons_self]
    split_ifs
    · rw [List.map_cons, ih fun b hb => h b (List.mem_cons_of_mem _ hb)]
    · rfl

theorem total_map {β : Type*} {size' : β → ℕ} (f : β → α) {l : List β} (h : ∀ b ∈ l, size (f b) = size' b) :
    total size (l.map f) = total size' l := by
  induction l with
  | nil => rfl
  | cons b l ih =>
    rw [List.map_cons, total_cons, total_cons, h b List.mem_cons_self,
      ih fun b hb => h b (List.mem_cons_of_mem _ hb)]

end Eviction

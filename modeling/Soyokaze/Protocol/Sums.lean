import Mathlib.Algebra.Order.BigOperators.Group.List
import Soyokaze.Protocol.Common

/-!
# Sums over streams

What the streams of a connection add up to, and how little a change of one of them
changes of that.

* `StreamMap.sum_modify_le`: a stream that grows by so much makes the sum grow by no more.
-/

namespace Soyokaze

namespace StreamMap

variable {α : Type}

/-- The sum of what each stream measures. -/
def sum (streams : StreamMap α) (f : α → ℕ) : ℕ := (streams.values.map f).sum

theorem sum_erase {streams : StreamMap α} {id : ℕ} {stream : α} (h : streams.lookup id = some stream) (f : α → ℕ) :
    sum streams f = f stream + sum (streams.erase id) f := by
  have hmem : id ∈ streams.entries.keys := AList.mem_keys.2 (AList.lookup_isSome.1 (by rw [h]; rfl))
  obtain ⟨found, before, behind, hbefore, hentries, herase⟩ := List.exists_of_kerase hmem
  have hfound : found = stream := by
    have hlookup : List.dlookup id streams.entries = some stream := h
    rw [hentries, List.dlookup_append, List.dlookup_eq_none.2 hbefore, Option.none_or, List.dlookup_cons_eq] at hlookup
    exact Option.some.inj hlookup
  have hrest : (streams.erase id).entries = before ++ behind := herase
  rw [sum, sum, values, values, hrest, hentries, hfound]
  simp only [List.map_append, List.map_cons, List.sum_append, List.sum_cons]
  omega

theorem erase_of_none {streams : StreamMap α} {id : ℕ} (h : streams.lookup id = none) : streams.erase id = streams := by
  have hmem : id ∉ streams.entries.keys := fun hmem => by
    have := AList.lookup_isSome.2 (AList.mem_keys.1 hmem)
    rw [h] at this
    cases this
  exact AList.ext (List.kerase_of_notMem_keys hmem)

theorem sum_insert (streams : StreamMap α) (id : ℕ) (stream : α) (f : α → ℕ) :
    sum (streams.insert id stream) f = f stream + sum (streams.erase id) f := rfl

theorem sum_erase_le (streams : StreamMap α) (id : ℕ) (f : α → ℕ) : sum (streams.erase id) f ≤ sum streams f := by
  cases hstream : streams.lookup id with
  | none => rw [erase_of_none hstream]
  | some stream =>
    rw [sum_erase hstream]
    exact Nat.le_add_left _ _

theorem sum_insert_le (streams : StreamMap α) (id : ℕ) (stream : α) (f : α → ℕ) :
    sum (streams.insert id stream) f ≤ f stream + sum streams f :=
  Nat.add_le_add_left (sum_erase_le streams id f) _

/-- The sum changes as the stream does. -/
theorem sum_modify {streams : StreamMap α} {id : ℕ} {stream : α} (h : streams.lookup id = some stream) (f : α → ℕ)
    (g : α → α) : sum (modify streams id g) f + f stream = sum streams f + f (g stream) := by
  rw [modify, h]
  dsimp only
  rw [sum_insert, sum_erase h]
  omega

/-- A stream that grows by so much makes the sum grow by no more. -/
theorem sum_modify_le (streams : StreamMap α) (id : ℕ) {f : α → ℕ} {g : α → α} {n : ℕ}
    (h : ∀ stream, f (g stream) ≤ f stream + n) : sum (modify streams id g) f ≤ sum streams f + n := by
  rw [modify]
  split
  · next stream hstream =>
    rw [sum_insert, sum_erase hstream]
    have := h stream
    omega
  · exact Nat.le_add_right _ _

theorem sum_mapValues_le (streams : StreamMap α) {f : α → ℕ} {g : α → α} (h : ∀ stream, f (g stream) ≤ f stream) :
    sum (mapValues streams g) f ≤ sum streams f := by
  have hvalues : (mapValues streams g).values = streams.values.map g := by
    rw [values, values, mapValues, List.map_map, List.map_map]
    rfl
  rw [sum, sum, hvalues, List.map_map]
  exact List.sum_le_sum fun stream _ => h stream

end StreamMap

end Soyokaze

import Soyokaze.Lib.PrefixCode

/-!
# Codes as trees

A prefix code as a binary tree, kept as a table of nodes: each bit out of a node leads to
another node or to a symbol. Words are added one at a time, down from the root.

* `Grown.insert`: adding a word changes where that word leads, and nothing else;
* `feed_of_words`: reading words along the tree, and then some bits of another, gives
  their symbols and ends inside that one;
* `words_of_feed`: and nothing else is read.
-/

namespace CodeTree

variable {ν : Type*}

/-- What following one bit out of a node reaches. -/
inductive Branch (ν : Type*)
  | node (index : ℕ)
  | symbol (value : ν)

/-- A node: where a zero and where a one lead. -/
abbrev Node (ν : Type*) := Option (Branch ν) × Option (Branch ν)

namespace Node

/-- A node nothing follows. -/
def empty : Node ν := (none, none)

/-- Where a bit leads. -/
def follow (node : Node ν) (bit : Bool) : Option (Branch ν) := if bit then node.2 else node.1

/-- Has a bit lead somewhere. -/
def lead (node : Node ν) (bit : Bool) (branch : Branch ν) : Node ν :=
  if bit then (node.1, some branch) else (some branch, node.2)

@[simp] theorem follow_empty (bit : Bool) : (empty : Node ν).follow bit = none := by cases bit <;> rfl

@[simp] theorem follow_lead (node : Node ν) (bit : Bool) (branch : Branch ν) :
    (node.lead bit branch).follow bit = some branch := by cases bit <;> rfl

theorem follow_lead_ne (node : Node ν) {bit other : Bool} (h : other ≠ bit) (branch : Branch ν) :
    (node.lead bit branch).follow other = node.follow other := by
  cases bit <;> cases other <;> first | rfl | exact absurd rfl h

end Node

variable {nodes : List (Node ν)}

/-- Where a bit leads out of a node of the table. -/
def step (nodes : List (Node ν)) (node : ℕ) (bit : Bool) : Option (Branch ν) :=
  (nodes.getD node .empty).follow bit

/-- Where bits lead. -/
def follow (nodes : List (Node ν)) : Branch ν → List Bool → Option (Branch ν)
  | branch, [] => some branch
  | .node n, bit :: bits => (step nodes n bit).bind (follow nodes · bits)
  | .symbol _, _ :: _ => none

/-- Where bits lead from the root. -/
def reach (nodes : List (Node ν)) (bits : List Bool) : Option (Branch ν) := follow nodes (.node 0) bits

theorem follow_append (branch : Branch ν) (p q : List Bool) :
    follow nodes branch (p ++ q) = (follow nodes branch p).bind (follow nodes · q) := by
  induction p generalizing branch with
  | nil => simp [follow]
  | cons bit p ih =>
    cases branch with
    | symbol v => simp [follow]
    | node n =>
      simp only [List.cons_append, follow]
      cases step nodes n bit with
      | none => rfl
      | some next => exact ih next

theorem reach_append (p q : List Bool) : reach nodes (p ++ q) = (reach nodes p).bind (follow nodes · q) :=
  follow_append _ p q

@[simp] theorem reach_nil : reach nodes [] = some (.node 0) := rfl

theorem reach_snoc {p : List Bool} {n : ℕ} (h : reach nodes p = some (.node n)) (bit : Bool) :
    reach nodes (p ++ [bit]) = step nodes n bit := by
  rw [reach_append, h]
  cases hstep : step nodes n bit <;> simp [follow, hstep]

/-- Past a symbol there is nothing. -/
theorem reach_behind_symbol {p q : List Bool} {v : ν} (h : reach nodes p = some (.symbol v)) (hq : q ≠ []) :
    reach nodes (p ++ q) = none := by
  obtain ⟨bit, q, rfl⟩ := List.exists_cons_of_ne_nil hq
  rw [reach_append, h]
  rfl

/-! ## Adding words -/

/-- The table while it grows: it leads to the symbols of the words `L` at their ends, to
    nodes inside of them and on the way along `u`, each node having a path of its own,
    and to nothing else. -/
structure Grown (nodes : List (Node ν)) (L : List (List Bool × ν)) (u : List Bool) : Prop where
  symbol : ∀ p v, reach nodes p = some (.symbol v) ↔ (p, v) ∈ L
  node : ∀ p, (∃ n, reach nodes p = some (.node n)) ↔ p <+: u ∨ ∃ item ∈ L, p <+: item.1 ∧ p ≠ item.1
  inj : ∀ {p q n}, reach nodes p = some (.node n) → reach nodes q = some (.node n) → p = q
  bound : ∀ {p n}, reach nodes p = some (.node n) → n < nodes.length

/-- The table before any word. -/
theorem grown_empty : Grown [(Node.empty : Node ν)] [] [] := by
  have hreach : ∀ p, p ≠ [] → reach [(Node.empty : Node ν)] p = none := by
    intro p hp
    obtain ⟨bit, p, rfl⟩ := List.exists_cons_of_ne_nil hp
    simp [reach, follow, step]
  have hnode : ∀ {p n}, reach [(Node.empty : Node ν)] p = some (.node n) → p = [] ∧ n = 0 := by
    intro p n h
    by_cases hp : p = []
    · subst hp
      cases h
      exact ⟨rfl, rfl⟩
    · rw [hreach p hp] at h
      cases h
  refine ⟨fun p v => ?_, fun p => ?_, fun hp hq => (hnode hp).1.trans (hnode hq).1.symm, fun hp => ?_⟩
  · by_cases hp : p = []
    · subst hp
      simp
    · simp [hreach p hp]
  · constructor
    · rintro ⟨n, hn⟩
      exact .inl (List.prefix_nil.2 (hnode hn).1)
    · rintro (hp | ⟨item, hm, -⟩)
      · exact ⟨0, by rw [List.prefix_nil.1 hp, reach_nil]⟩
      · exact absurd hm List.not_mem_nil
  · rw [(hnode hp).2]
    exact Nat.zero_lt_one

/-- Has a bit out of a node lead somewhere. -/
def point (nodes : List (Node ν)) (node : ℕ) (bit : Bool) (branch : Branch ν) : List (Node ν) :=
  nodes.modify node (·.lead bit branch)

@[simp] theorem length_point (n : ℕ) (bit : Bool) (branch : Branch ν) :
    (point nodes n bit branch).length = nodes.length := List.length_modify ..

theorem step_point {n : ℕ} (hn : n < nodes.length) (bit : Bool) (branch : Branch ν) :
    step (point nodes n bit branch) n bit = some branch := by
  rw [step, point, List.getD_eq_getElem?_getD, List.getElem?_modify_eq, List.getElem?_eq_getElem hn]
  exact Node.follow_lead ..

theorem step_point_ne {n m : ℕ} {bit other : Bool} (h : m ≠ n ∨ other ≠ bit) (branch : Branch ν) :
    step (point nodes n bit branch) m other = step nodes m other := by
  by_cases hm : m = n
  · subst hm
    rw [step, step, point, List.getD_eq_getElem?_getD, List.getElem?_modify_eq, List.getD_eq_getElem?_getD]
    cases hnode : nodes[m]? with
    | none => rfl
    | some node => exact Node.follow_lead_ne node (h.resolve_left (not_not_intro rfl)) branch
  · rw [step, step, point, List.getD_eq_getElem?_getD, List.getElem?_modify_ne _ _ (Ne.symm hm), List.getD_eq_getElem?_getD]

/-- A node more that nothing leads to yet. -/
theorem step_append (m : ℕ) (bit : Bool) : step (nodes ++ [.empty]) m bit = step nodes m bit := by
  rw [step, step, List.getD_eq_getElem?_getD, List.getD_eq_getElem?_getD]
  rcases Nat.lt_trichotomy m nodes.length with h | rfl | h
  · rw [List.getElem?_append_left h]
  · simp
  · rw [List.getElem?_eq_none (by simpa using h.nat_succ_le), List.getElem?_eq_none h.le]

/-- Where a bit that led nowhere out of a node is pointed at something nothing is behind,
    that is where its path leads, and nothing else changes. -/
theorem reach_pointed {nodes' : List (Node ν)} {u : List Bool} {n : ℕ} {bit : Bool} {branch : Branch ν}
    (hn : reach nodes u = some (.node n)) (hinj : ∀ {q}, reach nodes q = some (.node n) → q = u)
    (hnone : step nodes n bit = none) (hnew : step nodes' n bit = some branch)
    (hother : ∀ m other, m ≠ n ∨ other ≠ bit → step nodes' m other = step nodes m other)
    (hend : ∀ q, q ≠ [] → follow nodes' branch q = none) (p : List Bool) (found : Branch ν) :
    reach nodes' p = some found ↔ reach nodes p = some found ∨ p = u ++ [bit] ∧ found = branch := by
  have hsame : ∀ p, ¬ u ++ [bit] <+: p → reach nodes' p = reach nodes p := by
    intro p hp
    induction p using List.reverseRecOn with
    | nil => rfl
    | append_singleton q other ih =>
      rw [reach_append, reach_append, ih fun h => hp (h.trans (List.prefix_append _ _))]
      rcases hreach : reach nodes q with - | (m | v)
      · rfl
      · have hne : m ≠ n ∨ other ≠ bit := by
          by_contra hboth
          obtain ⟨rfl, rfl⟩ : m = n ∧ other = bit := by simpa using hboth
          exact hp (hinj hreach ▸ List.prefix_rfl)
        simp only [Option.bind_some, follow, hother m other hne]
      · rfl
  have hu : reach nodes' u = some (.node n) := by
    rw [hsame u fun hp => absurd hp.length_le (by simp), hn]
  by_cases hp : u ++ [bit] <+: p
  · obtain ⟨q, rfl⟩ := hp
    have hold : reach nodes (u ++ [bit] ++ q) = none := by
      rw [reach_append, reach_snoc hn, hnone]
      rfl
    rw [hold, reach_append, reach_snoc hu, hnew]
    by_cases hq : q = []
    · subst hq
      simp [follow, eq_comm]
    · simp [hend q hq, hq]
  · rw [hsame p hp]
    exact ⟨.inl, fun h => h.resolve_right fun hnew => hp (hnew.1 ▸ List.prefix_rfl)⟩

/-- A bit further down, a node being added where there is none. -/
def descend (nodes : List (Node ν)) (node : ℕ) (bit : Bool) : List (Node ν) × ℕ :=
  match step nodes node bit with
  | some (.node next) => (nodes, next)
  | _ => (point (nodes ++ [.empty]) node bit (.node nodes.length), nodes.length)

/-- Adds a word below a node. -/
def insert (value : ν) : List Bool → ℕ → List (Node ν) → List (Node ν)
  | [], _, nodes => nodes
  | [bit], node, nodes => point nodes node bit (.symbol value)
  | bit :: bits, node, nodes =>
    let (nodes, next) := descend nodes node bit
    insert value bits next nodes

namespace Grown

variable {L : List (List Bool × ν)} {u : List Bool} {n : ℕ} {bit : Bool}

/-- Along the path there are nodes. -/
theorem node_snoc (h : Grown nodes L u) (hn : ∃ n, reach nodes (u ++ [bit]) = some (.node n)) :
    Grown nodes L (u ++ [bit]) := by
  refine ⟨h.symbol, fun p => ?_, h.inj, h.bound⟩
  rw [List.prefix_concat_iff, or_assoc, ← h.node]
  constructor
  · exact .inr
  · rintro (rfl | hp)
    · exact hn
    · exact hp

/-- A node is put where nothing led, with a path of its own. -/
theorem node_put (h : Grown nodes L u) (hn : reach nodes u = some (.node n)) (hnone : step nodes n bit = none) :
    Grown (point (nodes ++ [.empty]) n bit (.node nodes.length)) L (u ++ [bit]) ∧
      reach (point (nodes ++ [.empty]) n bit (.node nodes.length)) (u ++ [bit]) = some (.node nodes.length) := by
  have hlt := h.bound hn
  have hother : ∀ m other, m ≠ n ∨ other ≠ bit →
      step (point (nodes ++ [.empty]) n bit (.node nodes.length)) m other = step nodes m other := fun m other hne => by
    rw [step_point_ne hne, step_append]
  have hend : ∀ q, q ≠ [] → follow (point (nodes ++ [.empty]) n bit (.node nodes.length)) (.node nodes.length) q = none := by
    intro q hq
    obtain ⟨other, q, rfl⟩ := List.exists_cons_of_ne_nil hq
    have hstep : step nodes nodes.length other = none := by simp [step]
    simp [follow, hother _ _ (.inl (Nat.ne_of_gt hlt)), hstep]
  have hreach := reach_pointed hn (fun hq => h.inj hq hn) hnone
    (step_point (List.length_append ▸ hlt.trans (Nat.lt_succ_self _)) bit _) hother hend
  refine ⟨⟨fun p v => ?_, fun p => ?_, fun {p q m} hp hq => ?_, fun {p m} hp => ?_⟩, (hreach _ _).2 (.inr ⟨rfl, rfl⟩)⟩
  · simp [hreach, h.symbol]
  · rw [List.prefix_concat_iff, or_assoc, ← h.node, or_comm]
    simp [hreach, exists_or]
  · rw [hreach] at hp hq
    rcases hp with hp | ⟨rfl, hp⟩ <;> rcases hq with hq | ⟨rfl, hq⟩
    · exact h.inj hp hq
    · cases hq
      exact absurd (h.bound hp) (Nat.lt_irrefl _)
    · cases hp
      exact absurd (h.bound hq) (Nat.lt_irrefl _)
    · rfl
  · rw [length_point, List.length_append]
    rcases (hreach _ _).1 hp with hp | ⟨-, hp⟩
    · exact (h.bound hp).trans (Nat.lt_succ_self _)
    · cases hp
      exact Nat.lt_succ_self _

theorem descend (h : Grown nodes L u) (hn : reach nodes u = some (.node n)) (hfree : ∀ v, (u ++ [bit], v) ∉ L) :
    Grown (CodeTree.descend nodes n bit).1 L (u ++ [bit]) ∧
      reach (CodeTree.descend nodes n bit).1 (u ++ [bit]) = some (.node (CodeTree.descend nodes n bit).2) := by
  have hsnoc := reach_snoc hn bit
  rcases hstep : step nodes n bit with - | (next | v)
  · simpa only [CodeTree.descend, hstep] using h.node_put hn hstep
  · simp only [CodeTree.descend, hstep]
    exact ⟨h.node_snoc ⟨next, hsnoc.trans hstep⟩, hsnoc.trans hstep⟩
  · exact absurd ((h.symbol _ _).1 (hsnoc.trans hstep)) (hfree v)

/-- A symbol is put at the end of a word that nothing else goes through. -/
theorem symbol_put (h : Grown nodes L u) (hn : reach nodes u = some (.node n)) (hnone : reach nodes (u ++ [bit]) = none)
    (v : ν) : Grown (point nodes n bit (.symbol v)) ((u ++ [bit], v) :: L) [] := by
  have hreach := reach_pointed hn (fun hq => h.inj hq hn) ((reach_snoc hn bit).symm.trans hnone)
    (step_point (h.bound hn) bit (.symbol v)) (fun m other hne => step_point_ne hne _) fun q hq => by
      obtain ⟨other, q, rfl⟩ := List.exists_cons_of_ne_nil hq
      rfl
  refine ⟨fun p w => ?_, fun p => ?_, fun {p q m} hp hq => ?_, fun {p m} hp => ?_⟩
  · rw [hreach, h.symbol, List.mem_cons, Prod.mk.injEq, Branch.symbol.injEq, or_comm]
  · have hprefix : p <+: u ↔ p <+: u ++ [bit] ∧ p ≠ u ++ [bit] := by
      rw [List.prefix_concat_iff]
      constructor
      · exact fun hp => ⟨.inr hp, fun heq => absurd (heq ▸ hp).length_le (by simp)⟩
      · exact fun hp => hp.1.resolve_left hp.2
    have hnode : (∃ m, reach (point nodes n bit (.symbol v)) p = some (.node m)) ↔ ∃ m, reach nodes p = some (.node m) := by
      simp [hreach]
    rw [hnode, h.node, hprefix, List.exists_mem_cons_iff, List.prefix_nil]
    refine (or_iff_right_of_imp ?_).symm
    rintro rfl
    exact .inl ⟨List.nil_prefix, (List.append_ne_nil_of_right_ne_nil _ (List.cons_ne_nil _ _)).symm⟩
  · exact h.inj (((hreach _ _).1 hp).resolve_right (by simp)) (((hreach _ _).1 hq).resolve_right (by simp))
  · rw [length_point]
    exact h.bound (((hreach _ _).1 hp).resolve_right (by simp))

/-- Down from a node inside of it, a word is added. -/
theorem insert_below {bits : List Bool} (h : Grown nodes L u) (hn : reach nodes u = some (.node n)) (hbits : bits ≠ [])
    (hword : ∀ item ∈ L, ¬ item.1 <+: u ++ bits) (hinside : ∀ item ∈ L, ¬ u ++ bits <+: item.1) (v : ν) :
    Grown (CodeTree.insert v bits n nodes) ((u ++ bits, v) :: L) [] := by
  induction bits generalizing nodes n u with
  | nil => exact absurd rfl hbits
  | cons bit bits ih =>
    cases bits with
    | nil =>
      refine h.symbol_put hn ?_ v
      rcases hreach : reach nodes (u ++ [bit]) with - | (m | w)
      · rfl
      · rcases (h.node _).1 ⟨m, hreach⟩ with hp | ⟨item, hm, hp, -⟩
        · exact absurd hp.length_le (by simp)
        · exact absurd hp (hinside item hm)
      · exact absurd List.prefix_rfl (hword _ ((h.symbol _ _).1 hreach))
    | cons next bits =>
      have happend : u ++ [bit] ++ next :: bits = u ++ bit :: next :: bits := by simp
      have hfree : ∀ w, (u ++ [bit], w) ∉ L := fun w hm => hword _ hm (happend ▸ List.prefix_append _ _)
      obtain ⟨hgrown, hreach⟩ := h.descend hn hfree
      rw [← happend]
      exact ih hgrown hreach (List.cons_ne_nil _ _) (happend.symm ▸ hword) (happend.symm ▸ hinside)

/-- A word is added where it goes with those there are. -/
theorem insert {word : List Bool} (h : Grown nodes L []) (hne : word ≠ []) (hword : ∀ item ∈ L, ¬ item.1 <+: word)
    (hinside : ∀ item ∈ L, ¬ word <+: item.1) (v : ν) : Grown (CodeTree.insert v word 0 nodes) ((word, v) :: L) [] :=
  h.insert_below reach_nil hne hword hinside v

/-- Words are added that go with each other and with those there are. -/
theorem foldl_insert (items : List (List Bool × ν)) (h : Grown nodes L []) (hne : ∀ item ∈ items, item.1 ≠ [])
    (hpair : items.Pairwise fun a b => ¬ a.1 <+: b.1 ∧ ¬ b.1 <+: a.1)
    (hold : ∀ item ∈ items, ∀ old ∈ L, ¬ old.1 <+: item.1 ∧ ¬ item.1 <+: old.1) :
    Grown (items.foldl (fun nodes item => CodeTree.insert item.2 item.1 0 nodes) nodes) (items.reverse ++ L) [] := by
  induction items generalizing nodes L with
  | nil => exact h
  | cons item items ih =>
    rw [List.forall_mem_cons] at hne hold
    rw [List.pairwise_cons] at hpair
    rw [List.foldl_cons, List.reverse_cons, List.append_assoc, List.singleton_append]
    refine ih (h.insert hne.1 (fun old hm => (hold.1 old hm).1) (fun old hm => (hold.1 old hm).2) item.2) hne.2 hpair.2 ?_
    intro other hother old hm
    rcases List.mem_cons.1 hm with rfl | hm
    · exact hpair.1 other hother
    · exact hold.2 other hother old hm

end Grown

theorem length_insert (value : ν) (bits : List Bool) (n : ℕ) (nodes : List (Node ν)) :
    (insert value bits n nodes).length ≤ nodes.length + bits.length := by
  induction bits generalizing n nodes with
  | nil => exact Nat.le_add_right _ _
  | cons bit bits ih =>
    cases bits with
    | nil => exact (length_point ..).le.trans (Nat.le_add_right _ _)
    | cons next bits =>
      have hdescend : (CodeTree.descend nodes n bit).1.length ≤ nodes.length + 1 := by
        rw [CodeTree.descend]
        split
        · exact Nat.le_succ _
        · rw [length_point, List.length_append, List.length_singleton]
      calc (insert value (next :: bits) (descend nodes n bit).2 (descend nodes n bit).1).length
          ≤ (descend nodes n bit).1.length + (next :: bits).length := ih _ _
        _ ≤ nodes.length + 1 + (next :: bits).length := Nat.add_le_add_right hdescend _
        _ = nodes.length + (bit :: next :: bits).length := by simp only [List.length_cons]; omega

/-- Words of at most so many bits add at most so many nodes each. -/
theorem length_foldl_insert {k : ℕ} (items : List (List Bool × ν)) (hk : ∀ item ∈ items, item.1.length ≤ k)
    (nodes : List (Node ν)) :
    (items.foldl (fun nodes item => insert item.2 item.1 0 nodes) nodes).length ≤ nodes.length + items.length * k := by
  induction items generalizing nodes with
  | nil => simp
  | cons item items ih =>
    rw [List.forall_mem_cons] at hk
    rw [List.foldl_cons, List.length_cons, Nat.succ_mul]
    have hone := length_insert item.2 item.1 0 nodes
    exact (ih hk.2 _).trans (by omega)

/-! ## Reading along the tree -/

section Reading

variable [DecidableEq ν] {stop : ν} {L : List (List Bool × ν)}

/-- Reads bits on from a node, beginning again at the root behind each symbol: the
    symbols met, and the node read up to. Neither `stop` nor a bit that leads nowhere may
    be met. -/
def feed (nodes : List (Node ν)) (stop : ν) : ℕ → List Bool → Option (List ν × ℕ)
  | n, [] => some ([], n)
  | n, bit :: bits =>
    match step nodes n bit with
    | some (.node next) => feed nodes stop next bits
    | some (.symbol v) =>
      if v = stop then none else (feed nodes stop 0 bits).map fun (l, last) => (v :: l, last)
    | none => none

attribute [local simp] feed in
theorem feed_append (n : ℕ) (p q : List Bool) :
    feed nodes stop n (p ++ q) = (feed nodes stop n p).bind fun (l, m) =>
      (feed nodes stop m q).map fun (l', last) => (l ++ l', last) := by
  induction p generalizing n with
  | nil => simp
  | cons bit p ih =>
    rw [List.cons_append, feed, feed]
    rcases step nodes n bit with - | (next | v)
    · rfl
    · exact ih next
    · by_cases hv : v = stop
      · simp only [if_pos hv, Option.bind_none]
      · simp only [if_neg hv, ih]
        cases feed nodes stop 0 p with
        | none => rfl
        | some read => simp [Function.comp_def]

/-- What is read is words, and then the way to the node read up to. -/
def Read (nodes : List (Node ν)) (L : List (List Bool × ν)) (stop : ν) (bits : List Bool) (l : List ν) (n : ℕ) : Prop :=
  ∃ (words : List (List Bool × ν)) (p : List Bool), (∀ item ∈ words, item ∈ L ∧ item.2 ≠ stop) ∧ l = words.map Prod.snd ∧
    reach nodes p = some (.node n) ∧ bits = words.flatMap Prod.fst ++ p

theorem words_of_feed (h : Grown nodes L []) {bits u : List Bool} {n m : ℕ} {l : List ν}
    (hn : reach nodes u = some (.node n)) (hfeed : feed nodes stop n bits = some (l, m)) :
    Read nodes L stop (u ++ bits) l m := by
  induction bits generalizing n u l with
  | nil =>
    cases hfeed
    exact ⟨[], u, by simp, rfl, hn, by simp⟩
  | cons bit bits ih =>
    have hsnoc := reach_snoc hn bit
    rw [feed] at hfeed
    rcases hstep : step nodes n bit with - | (next | v) <;> simp only [hstep] at hfeed
    · cases hfeed
    · simpa using ih (hsnoc.trans hstep) hfeed
    · split_ifs at hfeed with hv
      obtain ⟨⟨l', last⟩, hrest, heq⟩ := Option.map_eq_some_iff.1 hfeed
      cases heq
      obtain ⟨words, p, hwords, rfl, hp, rfl⟩ := ih reach_nil hrest
      refine ⟨(u ++ [bit], v) :: words, p, ?_, rfl, hp, by simp⟩
      rw [List.forall_mem_cons]
      exact ⟨⟨(h.symbol _ _).1 (hsnoc.trans hstep), hv⟩, hwords⟩

theorem feed_node {bits : List Bool} {n m : ℕ} (h : follow nodes (.node n) bits = some (.node m)) :
    feed nodes stop n bits = some ([], m) := by
  induction bits generalizing n with
  | nil =>
    cases h
    rfl
  | cons bit bits ih =>
    rw [follow] at h
    rw [feed]
    rcases hstep : step nodes n bit with - | (next | v) <;> rw [hstep] at h
    · cases h
    · exact ih h
    · cases bits <;> cases h

theorem feed_symbol {bits rest : List Bool} {n : ℕ} {v : ν} (h : follow nodes (.node n) bits = some (.symbol v))
    (hv : v ≠ stop) : feed nodes stop n (bits ++ rest) = (feed nodes stop 0 rest).map fun (l, last) => (v :: l, last) := by
  induction bits generalizing n with
  | nil => cases h
  | cons bit bits ih =>
    rw [follow] at h
    rw [List.cons_append, feed]
    rcases hstep : step nodes n bit with - | (next | w) <;> rw [hstep] at h
    · cases h
    · exact ih h
    · cases bits with
      | nil =>
        cases h
        exact if_neg hv
      | cons => cases h

theorem feed_of_words (h : Grown nodes L []) {bits : List Bool} {l : List ν} {n : ℕ} (hread : Read nodes L stop bits l n) :
    feed nodes stop 0 bits = some (l, n) := by
  obtain ⟨words, p, hwords, rfl, hp, rfl⟩ := hread
  induction words with
  | nil => exact feed_node hp
  | cons item words ih =>
    rw [List.forall_mem_cons] at hwords
    rw [List.flatMap_cons, List.append_assoc, feed_symbol ((h.symbol _ _).2 hwords.1.1) hwords.1.2, ih hwords.2]
    rfl

/-- Fewer bits than any word has end inside of one. -/
theorem feed_root_short (h : Grown nodes L []) {k : ℕ} (hlong : ∀ item ∈ L, k < item.1.length) {bits : List Bool}
    (hk : bits.length ≤ k) {l : List ν} {m : ℕ} (hfeed : feed nodes stop 0 bits = some (l, m)) : l = [] := by
  obtain ⟨words, p, hwords, rfl, -, hbits⟩ := words_of_feed h reach_nil hfeed
  cases words with
  | nil => rfl
  | cons item words =>
    have hitem := hlong item (hwords item List.mem_cons_self).1
    rw [List.nil_append] at hbits
    rw [hbits, List.flatMap_cons, List.append_assoc, List.length_append] at hk
    omega

/-- As many bits as the shortest word has meet one symbol at most. -/
theorem feed_short (h : Grown nodes L []) {k : ℕ} (hlong : ∀ item ∈ L, k < item.1.length) {bits : List Bool}
    (hk : bits.length ≤ k + 1) {n m : ℕ} {l : List ν} (hfeed : feed nodes stop n bits = some (l, m)) : l.length ≤ 1 := by
  induction bits generalizing n l with
  | nil =>
    cases hfeed
    exact Nat.zero_le 1
  | cons bit bits ih =>
    rw [List.length_cons] at hk
    rw [feed] at hfeed
    rcases hstep : step nodes n bit with - | (next | v) <;> simp only [hstep] at hfeed
    · cases hfeed
    · exact ih (by omega) hfeed
    · split_ifs at hfeed
      obtain ⟨⟨l', last⟩, hrest, heq⟩ := Option.map_eq_some_iff.1 hfeed
      cases heq
      rw [feed_root_short h hlong (by omega) hrest]
      exact le_rfl

end Reading

end CodeTree

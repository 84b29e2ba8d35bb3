import Soyokaze.Helpers.HuffmanExact
import Soyokaze.Lib.CodeTree
import Mathlib.Data.List.Perm.Subperm
import Mathlib.Data.List.Nodup

/-!
# The Huffman automaton

The code once more, as the format describes it: a tree of bits (`DecodeTable.plant`), and
the tree walked four bits at a time (`DecodeTable.compile`). A state stands for a node of
the tree, and is numbered when some nibble first leads there.

* `Compiling.give_spec`: a node is given one number, and keeps it;
* `row_spec`, `rows_spec`: what a row answers is what four bits of the tree do;
* `automaton_agrees`: the automaton accepts what the canonical decoder accepts, and emits
  what that decodes.
-/

namespace Soyokaze.Huffman

open PrefixCode CodeTree

/-- How many transitions one row holds: one for each four bits. -/
def NIBBLE : ℕ := 16
/-- A symbol was completed and should be emitted. -/
def EMIT : ℕ := 1 <<< 0
/-- The bits do not spell a code word, so decoding fails. -/
def FAIL : ℕ := 1 <<< 1
/-- The end-of-string code was met, which is not allowed on the wire. -/
def ENDED : ℕ := 1 <<< 2

/-- One step of the automaton, for one state and one nibble. -/
structure Transition where
  next : ℕ
  symbol : UInt8
  flags : ℕ

/-- The transition for an input that cannot continue any code word. -/
def Transition.STUCK : Transition := ⟨0, 0, FAIL⟩

/-- The code as a tree, and the automaton that walks it a nibble at a time. -/
structure DecodeTable where
  branches : List (Node ℕ)
  rows : List (List Transition)
  accepting : List Bool

/-- The states given so far: which one a node has, `u16::MAX` for none, and the node each
    stands for. -/
structure Compiling where
  stateOf : List ℕ
  nodes : List ℕ

/-- The root alone has a state. -/
def Compiling.begun (branches : List (Node ℕ)) : Compiling := ⟨(List.replicate branches.length 0xffff).set 0 0, [0]⟩

/-- Gives a node a state, unless it has one. -/
def Compiling.give (c : Compiling) (node : ℕ) : Compiling :=
  if c.stateOf.getD node 0 = 0xffff then
    ⟨c.stateOf.set node (c.nodes.length % 2 ^ 16), c.nodes ++ [node]⟩
  else c

namespace DecodeTable

/-- Adds the code word of a symbol to the tree. -/
def plant (branches : List (Node ℕ)) : Symbol × ℕ → List (Node ℕ)
  | (symbol, value) => CodeTree.insert value (msb symbol.length symbol.code) 0 branches

/-- Follows the bits of a nibble: the node reached, the symbol completed, and the flags. -/
def walk (branches : List (Node ℕ)) : List Bool → (node : ℕ) → (symbol : UInt8) → (flags : ℕ) → ℕ × UInt8 × ℕ
  | [], node, symbol, flags => (node, symbol, flags)
  | bit :: bits, node, symbol, flags =>
    match step branches node bit with
    | some (.node next) => walk branches bits next symbol flags
    | some (.symbol value) =>
      if value = EOS then (node, symbol, flags ||| ENDED) else walk branches bits 0 (.ofNat value) (flags ||| EMIT)
    | none => (node, symbol, flags ||| FAIL)

/-- The transition out of a node for a nibble. -/
def slot (branches : List (Node ℕ)) (node nibble : ℕ) (c : Compiling) : Transition × Compiling :=
  let (node, symbol, flags) := walk branches (msb 4 nibble) node 0 0
  if flags &&& (FAIL ||| ENDED) ≠ 0 then (⟨0, symbol, flags⟩, c)
  else
    let c := c.give node
    (⟨c.stateOf.getD node 0, symbol, flags⟩, c)

/-- The transitions out of a node. -/
def row (branches : List (Node ℕ)) (node : ℕ) : List ℕ → Compiling → List Transition × Compiling
  | [], c => ([], c)
  | nibble :: nibbles, c =>
    let (transition, c) := slot branches node nibble c
    let (row, c) := row branches node nibbles c
    (transition :: row, c)

/-- The rows of the states from one on, until every state given has its row. -/
def rowsFrom (branches : List (Node ℕ)) : (fuel : ℕ) → List (List Transition) → Compiling →
    List (List Transition) × Compiling
  | 0, rows, c => (rows, c)
  | fuel + 1, rows, c =>
    if rows.length < c.nodes.length then
      let (row, c) := row branches (c.nodes.getD rows.length 0) (List.range NIBBLE) c
      rowsFrom branches fuel (rows ++ [row]) c
    else (rows, c)

/-- Marks the nodes that some more ones lead to. -/
def onOnes (branches : List (Node ℕ)) : (left node : ℕ) → List Bool → List Bool
  | 0, _, marks => marks
  | left + 1, node, marks =>
    match step branches node true with
    | some (.node next) => onOnes branches left next (marks.set next true)
    | _ => marks

/-- Flattens the tree into rows a nibble wide, and works out which states may end an
    encoding. -/
def compile (branches : List (Node ℕ)) : List (List Transition) × List Bool :=
  let (rows, c) := rowsFrom branches branches.length [] (.begun branches)
  let marks := onOnes branches 7 0 ((List.replicate branches.length false).set 0 true)
  (rows, c.nodes.map fun node => marks.getD node false)

/-- Builds the automaton from a code table. -/
def new (table : List Symbol) : DecodeTable :=
  let branches := table.zipIdx.foldl plant [.empty]
  let (rows, accepting) := compile branches
  ⟨branches, rows, accepting⟩

variable (d : DecodeTable)

/-- What a transition emits. -/
def emitted (t : Transition) : Octets := if t.flags &&& EMIT ≠ 0 then [t.symbol] else []

/-- Takes the automaton through nibbles: what it emits, and the state it is left in. -/
def run : (state : ℕ) → List ℕ → Option (Octets × ℕ)
  | state, [] => some ([], state)
  | state, nibble :: nibbles =>
    let transition := (d.rows.getD state []).getD nibble .STUCK
    if transition.flags &&& (FAIL ||| ENDED) ≠ 0 then none
    else (run transition.next nibbles).map fun (out, last) => (emitted transition ++ out, last)

/-- The nibbles of octets, the high one of each first. -/
def nibbles (input : Octets) : List ℕ := input.flatMap fun o => [o.toNat >>> 4, o.toNat % 16]

/-- Decodes by the automaton, which must end in a state that may end an encoding. -/
def decode (input : Octets) : Option Octets :=
  (d.run 0 (nibbles input)).bind fun (out, state) => if d.accepting.getD state false then some out else none

end DecodeTable

/-- The shared decoding automaton. -/
def decodeTable : DecodeTable := .new table

/-! ## The nodes given states -/

variable {branches : List (Node ℕ)} {L : List (List Bool × ℕ)} {c : Compiling}

/-- The nodes numbered are reached, and numbered once each. -/
structure Numbered (branches : List (Node ℕ)) (c : Compiling) : Prop where
  length : c.stateOf.length = branches.length
  state_iff : ∀ m s, c.nodes[s]? = some m ↔ c.stateOf[m]? = some s ∧ s ≠ 0xffff
  reached : ∀ m ∈ c.nodes, ∃ u, CodeTree.reach branches u = some (.node m)

theorem Numbered.nodes_le (h : Numbered branches c) : c.nodes.length ≤ branches.length := by
  have hnodup : c.nodes.Nodup := List.nodup_iff_getElem?_ne_getElem?.2 fun i j hij hj heq => by
    have hi := List.getElem?_eq_getElem (hij.trans hj)
    have hsame := ((h.state_iff _ _).1 hi).1.symm.trans ((h.state_iff _ _).1 (heq.symm.trans hi)).1
    exact Nat.ne_of_lt hij (Option.some.inj hsame)
  have hsub : c.nodes ⊆ List.range branches.length := fun m hm => by
    obtain ⟨s, hs⟩ := List.mem_iff_getElem?.1 hm
    obtain ⟨hlt, -⟩ := List.getElem?_eq_some_iff.1 ((h.state_iff m s).1 hs).1
    exact List.mem_range.2 (h.length ▸ hlt)
  simpa using (List.subperm_of_subset hnodup hsub).length_le

/-- A node is given a number, and numbers given stay. -/
theorem Compiling.give_spec (h : Numbered branches c) (hsmall : branches.length < 0xffff) {m : ℕ}
    (hm : m < branches.length) (hreach : ∃ u, CodeTree.reach branches u = some (.node m)) :
    Numbered branches (c.give m) ∧ c.nodes <+: (c.give m).nodes ∧
      (c.give m).nodes[(c.give m).stateOf.getD m 0]? = some m := by
  have hstate : c.stateOf[m]? = some (c.stateOf.getD m 0) := by
    rw [List.getD_eq_getElem?_getD, List.getElem?_eq_getElem (h.length ▸ hm)]
    rfl
  rw [give]
  split_ifs with hnew
  · have hlt := h.nodes_le.trans_lt hsmall
    have hfree : ∀ s, c.nodes[s]? ≠ some m := fun s hs => by
      obtain ⟨hs, hne⟩ := (h.state_iff m s).1 hs
      rw [hstate, hnew] at hs
      exact hne (Option.some.inj hs).symm
    rw [Nat.mod_eq_of_lt (hlt.trans (by decide))]
    refine ⟨⟨(List.length_set ..).trans h.length, fun m' s => ?_, fun m' hm' => ?_⟩, List.prefix_append _ _, ?_⟩
    · rcases eq_or_ne m m' with rfl | hne
      · rw [List.getElem?_set_self (h.length ▸ hm), Option.some.injEq]
        rcases Nat.lt_trichotomy s c.nodes.length with hs | rfl | hs
        · rw [List.getElem?_append_left hs]
          exact iff_of_false (hfree s) fun heq => Nat.ne_of_gt hs heq.1
        · simp [hlt.ne]
        · rw [List.getElem?_eq_none (by simpa using hs.nat_succ_le)]
          exact iff_of_false (by simp) fun heq => Nat.ne_of_lt hs heq.1
      · rw [List.getElem?_set_ne hne, ← h.state_iff]
        rcases Nat.lt_trichotomy s c.nodes.length with hs | rfl | hs
        · rw [List.getElem?_append_left hs]
        · simp [hne]
        · rw [List.getElem?_eq_none (by simpa using hs.nat_succ_le), List.getElem?_eq_none hs.le]
    · rcases List.mem_append.1 hm' with hm' | hm'
      · exact h.reached m' hm'
      · rwa [List.mem_singleton.1 hm']
    · rw [List.getD_eq_getElem?_getD, List.getElem?_set_self (h.length ▸ hm)]
      simp
  · exact ⟨h, List.prefix_rfl, (h.state_iff _ _).2 ⟨hstate, hnew⟩⟩

/-! ## The rows -/

namespace DecodeTable

/-- A transition does what bits read along the tree do: it fails where they do, and else
    emits their symbols and goes on to a state of the node they lead to. -/
def Answers (nodes : List ℕ) : Option (List ℕ × ℕ) → Transition → Prop
  | none, t => t.flags &&& (FAIL ||| ENDED) ≠ 0
  | some (l, m), t => t.flags &&& (FAIL ||| ENDED) = 0 ∧ emitted t = l.map UInt8.ofNat ∧ nodes[t.next]? = some m

theorem Answers.mono {nodes nodes' : List ℕ} (h : nodes <+: nodes') {read : Option (List ℕ × ℕ)} {t : Transition}
    (ht : Answers nodes read t) : Answers nodes' read t := by
  cases read with
  | none => exact ht
  | some read =>
    obtain ⟨last, rfl⟩ := h
    refine ⟨ht.1, ht.2.1, ?_⟩
    rw [List.getElem?_append_left (List.getElem?_eq_some_iff.1 ht.2.2).1]
    exact ht.2.2

/-- A flag that was set is seen. -/
theorem or_and_ne_zero {flag mask : ℕ} (i : ℕ) (hflag : flag.testBit i = true) (hmask : mask.testBit i = true) (flags : ℕ) :
    (flags ||| flag) &&& mask ≠ 0 := by
  intro h
  have hbit := congrArg (Nat.testBit · i) h
  simp [hflag, hmask] at hbit

/-- A nibble is followed as its bits are read, but for keeping the last symbol only. -/
theorem walk_spec (bits : List Bool) (node : ℕ) (symbol : UInt8) (flags : ℕ) :
    match feed branches EOS node bits with
    | none => (walk branches bits node symbol flags).2.2 &&& (FAIL ||| ENDED) ≠ 0
    | some (l, m) => walk branches bits node symbol flags =
        (m, (l.map UInt8.ofNat).getLastD symbol, if l = [] then flags else flags ||| EMIT) := by
  induction bits generalizing node symbol flags with
  | nil => rfl
  | cons bit bits ih =>
    rw [feed, walk]
    rcases step branches node bit with - | (next | v)
    · exact or_and_ne_zero 1 rfl rfl flags
    · exact ih next symbol flags
    · by_cases hv : v = EOS
      · simp only [if_pos hv]
        exact or_and_ne_zero 2 rfl rfl flags
      · simp only [if_neg hv]
        have := ih 0 (.ofNat v) (flags ||| EMIT)
        cases hfeed : feed branches EOS 0 bits with
        | none => rwa [hfeed] at this
        | some read =>
          obtain ⟨l, m⟩ := read
          rw [hfeed] at this
          simp only [Option.map_some] at this ⊢
          rw [this, List.map_cons, List.getLastD_cons]
          by_cases hl : l = [] <;> simp [hl]

/-- The rows there are answer for the first of the nodes numbered. -/
def Served (branches : List (Node ℕ)) (c : Compiling) (rows : List (List Transition)) : Prop :=
  ∀ (s : ℕ) (row : List Transition), rows[s]? = some row → ∃ n, c.nodes[s]? = some n ∧
    List.Forall₂ (fun nibble => Answers c.nodes (feed branches EOS n (msb 4 nibble))) (List.range NIBBLE) row

section Rows

variable (hgrown : Grown branches L []) (hlong : ∀ item ∈ L, 3 < item.1.length) (hsmall : branches.length < 0xffff)
include hgrown hlong hsmall

theorem slot_spec (h : Numbered branches c) {n : ℕ} (hn : ∃ u, CodeTree.reach branches u = some (.node n)) (nibble : ℕ) :
    Numbered branches (slot branches n nibble c).2 ∧ c.nodes <+: (slot branches n nibble c).2.nodes ∧
      Answers (slot branches n nibble c).2.nodes (feed branches EOS n (msb 4 nibble)) (slot branches n nibble c).1 := by
  obtain ⟨u, hu⟩ := hn
  have hwalk := @walk_spec branches (msb 4 nibble) n 0 0
  rw [slot]
  cases hfeed : feed branches EOS n (msb 4 nibble) with
  | none =>
    rw [hfeed] at hwalk
    simp only [ne_eq] at hwalk ⊢
    rw [if_pos hwalk]
    exact ⟨h, List.prefix_rfl, hwalk⟩
  | some read =>
    obtain ⟨l, m⟩ := read
    rw [hfeed] at hwalk
    obtain ⟨words, p, -, -, hp, -⟩ := words_of_feed hgrown hu hfeed
    obtain ⟨hgiven, hnodes, hstate⟩ := Compiling.give_spec h hsmall (hgrown.bound hp) ⟨p, hp⟩
    -- No word is so short that a nibble ends two of them.
    have hone := feed_short hgrown hlong (length_msb 4 nibble).le hfeed
    have hflags : (if l = [] then 0 else 0 ||| EMIT) &&& (FAIL ||| ENDED) = 0 := by
      split_ifs <;> rfl
    simp only [hwalk, hflags, ne_eq, not_true_eq_false, if_false]
    refine ⟨hgiven, hnodes, hflags, ?_, hstate⟩
    match l, hone with
    | [], _ => simp [emitted]
    | [v], _ => simp [emitted, EMIT]

theorem row_spec (h : Numbered branches c) {n : ℕ} (hn : ∃ u, CodeTree.reach branches u = some (.node n)) (nibbles : List ℕ) :
    Numbered branches (row branches n nibbles c).2 ∧ c.nodes <+: (row branches n nibbles c).2.nodes ∧
      List.Forall₂ (fun nibble => Answers (row branches n nibbles c).2.nodes (feed branches EOS n (msb 4 nibble)))
        nibbles (row branches n nibbles c).1 := by
  induction nibbles generalizing c with
  | nil => exact ⟨h, List.prefix_rfl, .nil⟩
  | cons nibble nibbles ih =>
    obtain ⟨hnumbered, hnodes, hanswers⟩ := slot_spec hgrown hlong hsmall h hn nibble
    obtain ⟨hlast, hmore, hrow⟩ := ih hnumbered
    exact ⟨hlast, hnodes.trans hmore, .cons (hanswers.mono hmore) hrow⟩

theorem rowsFrom_spec (fuel : ℕ) {rows : List (List Transition)} (h : Numbered branches c) (hserved : Served branches c rows)
    (hfuel : branches.length ≤ rows.length + fuel) :
    Numbered branches (rowsFrom branches fuel rows c).2 ∧ c.nodes <+: (rowsFrom branches fuel rows c).2.nodes ∧
      Served branches (rowsFrom branches fuel rows c).2 (rowsFrom branches fuel rows c).1 ∧
        (rowsFrom branches fuel rows c).2.nodes.length ≤ (rowsFrom branches fuel rows c).1.length := by
  induction fuel generalizing rows c with
  | zero => exact ⟨h, List.prefix_rfl, hserved, h.nodes_le.trans hfuel⟩
  | succ fuel ih =>
    rw [rowsFrom]
    split_ifs with hmore
    · have hn : c.nodes[rows.length]? = some (c.nodes.getD rows.length 0) := by
        rw [List.getD_eq_getElem?_getD, List.getElem?_eq_getElem hmore]
        rfl
      obtain ⟨hnumbered, hnodes, hrow⟩ :=
        row_spec hgrown hlong hsmall h (h.reached _ (List.mem_of_getElem? hn)) (List.range NIBBLE)
      obtain ⟨last, hlast⟩ := id hnodes
      have hkept : ∀ s n, c.nodes[s]? = some n →
          (row branches (c.nodes.getD rows.length 0) (List.range NIBBLE) c).2.nodes[s]? = some n := fun s n hs => by
        rw [← hlast, List.getElem?_append_left (List.getElem?_eq_some_iff.1 hs).1, hs]
      have hserved' : Served branches (row branches (c.nodes.getD rows.length 0) (List.range NIBBLE) c).2
          (rows ++ [(row branches (c.nodes.getD rows.length 0) (List.range NIBBLE) c).1]) := by
        intro s r hs
        rcases Nat.lt_or_ge s rows.length with hlt | hge
        · rw [List.getElem?_append_left hlt] at hs
          obtain ⟨n, hn, hanswers⟩ := hserved s r hs
          exact ⟨n, hkept s n hn, hanswers.imp fun _ _ ht => ht.mono hnodes⟩
        · rw [List.getElem?_append_right hge, List.getElem?_singleton] at hs
          split_ifs at hs with hzero
          obtain rfl : s = rows.length := by omega
          cases hs
          exact ⟨_, hkept _ _ hn, hrow⟩
      obtain ⟨hnumbered, hmore, hrest⟩ := ih hnumbered hserved' (by rw [List.length_append, List.length_singleton]; omega)
      exact ⟨hnumbered, hnodes.trans hmore, hrest⟩
    · exact ⟨h, List.prefix_rfl, hserved, Nat.le_of_not_lt hmore⟩

end Rows

/-- The nodes marked are those that ones lead to. -/
theorem onOnes_spec (hgrown : Grown branches L []) (left : ℕ) {n : ℕ} {u : List Bool}
    (hu : CodeTree.reach branches u = some (.node n)) {marks : List Bool} (hmarks : marks.length = branches.length) (m : ℕ) :
    (onOnes branches left n marks).getD m false = true ↔ marks.getD m false = true ∨
      ∃ k < left, follow branches (.node n) (List.replicate (k + 1) true) = some (.node m) := by
  induction left generalizing n u marks with
  | zero => simp [onOnes]
  | succ left ih =>
    have hsnoc := reach_snoc hu true
    rw [onOnes, Nat.exists_lt_succ_left]
    simp only [List.replicate_succ (a := true), follow]
    rcases hstep : step branches n true with - | (next | v)
    · simp
    · have hnext := hsnoc.trans hstep
      have hset : (marks.set next true).getD m false = true ↔ marks.getD m false = true ∨ next = m := by
        rw [List.getD_eq_getElem?_getD, List.getD_eq_getElem?_getD, List.getElem?_set]
        split_ifs with heq hlt
        · simp [heq]
        · exact absurd (hmarks ▸ hgrown.bound hnext) (heq ▸ hlt)
        · simp [heq]
      simp only [Option.bind_some]
      rw [ih hnext ((List.length_set ..).trans hmarks), hset, or_assoc]
      simp only [List.replicate_zero, follow, Option.some.injEq, Branch.node.injEq]
      rfl
    · refine (or_iff_left ?_).symm
      rintro (h | ⟨k, -, h⟩)
      · cases h
      · cases h

/-- The automaton walks the tree: each state stands for a node, its row answers for four
    bits out of it, and it may end an encoding where ones lead there. -/
structure Realizes (d : DecodeTable) (branches : List (Node ℕ)) (nodes : List ℕ) : Prop where
  root : nodes[0]? = some 0
  answers : ∀ s n, nodes[s]? = some n → ∀ nibble < NIBBLE,
    Answers nodes (feed branches EOS n (msb 4 nibble)) ((d.rows.getD s []).getD nibble .STUCK)
  accepting : ∀ s n, nodes[s]? = some n → (d.accepting.getD s false = true ↔
    ∃ k < 8, CodeTree.reach branches (List.replicate k true) = some (.node n))

theorem numbered_begun (hgrown : Grown branches L []) : Numbered branches (.begun branches) := by
  have hpos : 0 < branches.length := hgrown.bound reach_nil
  refine ⟨by simp [Compiling.begun], fun m s => ?_, fun m hm => ⟨[], by rw [List.mem_singleton.1 hm, reach_nil]⟩⟩
  rw [Compiling.begun, List.getElem?_singleton, List.getElem?_set, List.getElem?_replicate]
  simp only [List.length_replicate, hpos]
  grind

theorem compile_spec (hgrown : Grown branches L []) (hlong : ∀ item ∈ L, 3 < item.1.length)
    (hsmall : branches.length < 0xffff) :
    ∃ nodes, Realizes ⟨branches, (compile branches).1, (compile branches).2⟩ branches nodes := by
  have hnone : Served branches (.begun branches) [] := fun s row hs => by simp at hs
  obtain ⟨hnumbered, hnodes, hserved, hall⟩ := rowsFrom_spec hgrown hlong hsmall branches.length
    (numbered_begun hgrown) hnone (Nat.le_add_left _ _)
  refine ⟨(rowsFrom branches branches.length [] (.begun branches)).2.nodes, ?_, fun s n hn nibble hnibble => ?_,
    fun s n hn => ?_⟩
  · obtain ⟨last, hlast⟩ := hnodes
    rw [← hlast]
    rfl
  · have hs := (List.getElem?_eq_some_iff.1 hn).1.trans_le hall
    obtain ⟨n', hn', hrow⟩ := hserved s _ (List.getElem?_eq_getElem hs)
    obtain rfl : n' = n := Option.some.inj (hn'.symm.trans hn)
    have hlen := hrow.length_eq
    rw [List.length_range] at hlen
    have hanswer := hrow.get (i := nibble) (by rwa [List.length_range]) (hlen ▸ hnibble)
    simp only [List.get_eq_getElem, List.getElem_range] at hanswer
    have hrows : (compile branches).1.getD s [] = (rowsFrom branches branches.length [] (.begun branches)).1[s] := by
      rw [List.getD_eq_getElem?_getD]
      exact congrArg (Option.getD · []) (List.getElem?_eq_getElem hs)
    show Answers _ _ (((compile branches).1.getD s []).getD nibble .STUCK)
    rwa [hrows, List.getD_eq_getElem?_getD, List.getElem?_eq_getElem (hlen ▸ hnibble)]
  · have hmarks : ((List.replicate branches.length false).set 0 true).length = branches.length := by simp
    have hzero : ((List.replicate branches.length false).set 0 true).getD n false = true ↔ 0 = n := by
      have := hgrown.bound reach_nil
      rw [List.getD_eq_getElem?_getD, List.getElem?_set, List.getElem?_replicate]
      grind
    show ((rowsFrom branches branches.length [] (.begun branches)).2.nodes.map _).getD s false = true ↔ _
    rw [List.getD_eq_getElem?_getD, List.getElem?_map, hn, Nat.exists_lt_succ_left]
    exact (onOnes_spec hgrown 7 reach_nil hmarks n).trans (or_congr_left (by rw [hzero]; simp))

theorem branches_new (table : List Symbol) : (new table).branches =
    (table.zipIdx.map fun entry => (msb entry.1.length entry.1.code, entry.2)).foldl
      (fun nodes item => CodeTree.insert item.2 item.1 0 nodes) [.empty] := by
  rw [List.foldl_map]
  rfl

theorem new_spec (table : List Symbol) (hgrown : Grown (new table).branches L []) (hlong : ∀ item ∈ L, 3 < item.1.length)
    (hsmall : (new table).branches.length < 0xffff) : ∃ nodes, (new table).Realizes (new table).branches nodes :=
  compile_spec hgrown hlong hsmall

/-- The automaton reads nibbles as their bits are read along the tree. -/
theorem Realizes.run {d : DecodeTable} {nodes : List ℕ} (h : Realizes d branches nodes) {s n : ℕ} (hn : nodes[s]? = some n)
    (nibbles : List ℕ) (hnibbles : ∀ nibble ∈ nibbles, nibble < NIBBLE) :
    match feed branches EOS n (nibbles.flatMap (msb 4)) with
    | none => d.run s nibbles = none
    | some (l, m) => ∃ last, d.run s nibbles = some (l.map UInt8.ofNat, last) ∧ nodes[last]? = some m := by
  induction nibbles generalizing s n with
  | nil => exact ⟨s, rfl, hn⟩
  | cons nibble nibbles ih =>
    rw [List.forall_mem_cons] at hnibbles
    have hanswer := h.answers s n hn nibble hnibbles.1
    rw [List.flatMap_cons, feed_append]
    cases hfeed : feed branches EOS n (msb 4 nibble) with
    | none =>
      rw [hfeed] at hanswer
      exact if_pos hanswer
    | some read =>
      obtain ⟨l, m⟩ := read
      rw [hfeed] at hanswer
      obtain ⟨hflags, hemits, hnext⟩ := hanswer
      have hrun : d.run s (nibble :: nibbles) =
          (d.run ((d.rows.getD s []).getD nibble .STUCK).next nibbles).map fun (out, last) => (l.map UInt8.ofNat ++ out, last) := by
        rw [DecodeTable.run, ← hemits]
        exact if_neg (not_not_intro hflags)
      have hrest := ih hnext hnibbles.2
      rw [hrun, Option.bind_some]
      cases hfeed' : feed branches EOS m (nibbles.flatMap (msb 4)) with
      | none =>
        rw [hfeed'] at hrest
        simp only [hfeed', hrest, Option.map_none]
      | some read' =>
        rw [hfeed'] at hrest
        obtain ⟨last, hlast, hm⟩ := hrest
        simp only [hfeed', hlast, Option.map_some, List.map_append]
        exact ⟨last, rfl, hm⟩

theorem nibbles_lt (input : Octets) : ∀ nibble ∈ nibbles input, nibble < NIBBLE := by
  intro nibble h
  obtain ⟨o, -, ho⟩ := List.mem_flatMap.1 h
  rcases List.mem_pair.1 ho with rfl | rfl
  · rw [Nat.shiftRight_eq_div_pow]
    exact Nat.div_lt_of_lt_mul o.toNat_lt
  · exact Nat.mod_lt _ (by decide)

/-- The nibbles hold the bits of the octets. -/
theorem bits_nibbles (input : Octets) : (nibbles input).flatMap (msb 4) = bits input := by
  rw [nibbles, List.flatMap_assoc]
  refine List.flatMap_congr fun o _ => ?_
  rw [List.flatMap_cons, List.flatMap_singleton, show 16 = 2 ^ 4 from rfl, msb_mod (m := 4) le_rfl, ← msb_add]

end DecodeTable

/-! ## The tree of the code -/

/-- The code words and their symbols. -/
def items : List (List Bool × ℕ) := (List.finRange 257).map fun s => (word s, s.1)

theorem mem_items {item : List Bool × ℕ} : item ∈ items ↔ ∃ s : Fin 257, (word s, s.1) = item := by
  simp [items]

theorem table_items : table.zipIdx.map (fun entry => (msb entry.1.length entry.1.code, entry.2)) = items :=
  List.ext_getElem (by simp [items, length_table]) fun i hi _ => by
    have hlt : i < table.length := by simpa using hi
    simp [items, word, List.getElem?_eq_getElem hlt]

theorem branches_eq : decodeTable.branches =
    items.foldl (fun nodes item => CodeTree.insert item.2 item.1 0 nodes) [.empty] := by
  rw [← table_items]
  exact DecodeTable.branches_new table

theorem grown_table : Grown decodeTable.branches items.reverse [] := by
  have hne : ∀ item ∈ items, item.1 ≠ [] := fun item hm => by
    obtain ⟨s, rfl⟩ := mem_items.1 hm
    exact List.ne_nil_of_length_pos ((by decide : 0 < 5).trans_le (length_word s ▸ (len_bounds s).1))
  have hpair : items.Pairwise fun a b => ¬ a.1 <+: b.1 ∧ ¬ b.1 <+: a.1 := by
    rw [items, List.pairwise_map]
    exact (List.nodup_finRange 257).imp fun hne => ⟨fun h => hne (free _ _ h), fun h => hne (free _ _ h).symm⟩
  rw [branches_eq]
  simpa using grown_empty.foldl_insert items hne hpair fun _ _ old hold => absurd hold List.not_mem_nil

theorem length_branches : decodeTable.branches.length < 0xffff := by
  have hk : ∀ item ∈ items, item.1.length ≤ 30 := fun item hm => by
    obtain ⟨s, rfl⟩ := mem_items.1 hm
    exact (length_word s).trans_le (len_bounds s).2
  have hlen : items.length = 257 := by rw [items, List.length_map, List.length_finRange]
  have hle := length_foldl_insert items hk [.empty]
  rw [← branches_eq, hlen] at hle
  exact hle.trans_lt (by decide)

theorem exists_realizes : ∃ nodes, decodeTable.Realizes decodeTable.branches nodes :=
  DecodeTable.new_spec table grown_table (fun item hm => by
    obtain ⟨s, rfl⟩ := mem_items.1 (List.mem_reverse.1 hm)
    exact (by decide : 3 < 5).trans_le (length_word s ▸ (len_bounds s).1)) length_branches

/-! ## The two agree -/

/-- Padding is what up to seven ones are. -/
theorem padding_iff {pad : List Bool} : Padding pad ↔ ∃ k < 8, pad = List.replicate k true := by
  constructor
  · exact fun h => ⟨_, h.1, List.eq_replicate_of_mem h.2⟩
  · rintro ⟨k, hk, rfl⟩
    exact ⟨by simpa using hk, fun bit hbit => List.eq_of_mem_replicate hbit⟩

/-- Every padding is inside of the end of a string. -/
theorem reach_padding {pad : List Bool} (h : Padding pad) : ∃ n, CodeTree.reach decodeTable.branches pad = some (.node n) := by
  obtain ⟨k, hk, rfl⟩ := padding_iff.1 h
  have hend : List.replicate 7 true <+: word end_ := by decide +kernel
  have hpre : List.replicate k true <+: List.replicate 7 true :=
    ⟨List.replicate (7 - k) true, by rw [← List.replicate_add, Nat.add_sub_cancel' (Nat.le_of_lt_succ hk)]⟩
  refine (grown_table.node _).2 (.inr ⟨_, List.mem_reverse.2 (mem_items.2 ⟨end_, rfl⟩), hpre.trans hend, fun heq => ?_⟩)
  exact not_word_prefix_padding h end_ (heq ▸ List.prefix_rfl)

theorem spells_iff_read (input out : Octets) : Spells out (bits input) ↔ ∃ l n, feed decodeTable.branches EOS 0 (bits input) = some (l, n) ∧
    out = l.map UInt8.ofNat ∧ ∃ k < 8, CodeTree.reach decodeTable.branches (List.replicate k true) = some (.node n) := by
  constructor
  · rintro ⟨pad, hpad, hbits⟩
    obtain ⟨n, hn⟩ := reach_padding hpad
    obtain ⟨k, hk, rfl⟩ := padding_iff.1 hpad
    refine ⟨out.map UInt8.toNat, n, feed_of_words grown_table ⟨out.map fun o => (octetWord o, o.toNat), _, ?_, ?_, hn, ?_⟩,
      by simp [Function.comp_def], k, hk, hn⟩
    · intro item hm
      obtain ⟨o, -, rfl⟩ := List.mem_map.1 hm
      exact ⟨List.mem_reverse.2 (mem_items.2 ⟨octet o, rfl⟩), Nat.ne_of_lt o.toNat_lt⟩
    · simp
    · rw [hbits, List.flatMap_map]
  · rintro ⟨l, n, hfeed, rfl, k, hk, hn⟩
    obtain ⟨words, p, hwords, rfl, hp, hbits⟩ := words_of_feed grown_table reach_nil hfeed
    obtain rfl := grown_table.inj hp hn
    refine ⟨_, padding_iff.2 ⟨k, hk, rfl⟩, ?_⟩
    rw [← List.nil_append (bits input), hbits, List.map_map, List.flatMap_map]
    refine congrArg (· ++ _) (List.flatMap_congr fun item hm => ?_)
    obtain ⟨hmem, hne⟩ := hwords item hm
    obtain ⟨s, rfl⟩ := mem_items.1 (List.mem_reverse.1 hmem)
    rcases octet_or_end s with ⟨o, rfl⟩ | rfl
    · simp [octetWord, octet]
    · exact absurd rfl hne

/-- Where the decoder gives octets the automaton emits them, and ends where an encoding
    may; and otherwise the one fails and so does the other. -/
theorem automaton_agrees (input out : Octets) :
    (∃ ascii, decodeIntoAscii input = .ok (out, ascii)) ↔ decodeTable.decode input = some out := by
  obtain ⟨nodes, hreal⟩ := exists_realizes
  have hdecode : (∃ ascii, decodeIntoAscii input = .ok (out, ascii)) ↔ Spells out (bits input) := by
    simp [decodeIntoAscii_iff]
  have hrun := hreal.run hreal.root (DecodeTable.nibbles input) (DecodeTable.nibbles_lt input)
  rw [DecodeTable.bits_nibbles] at hrun
  rw [hdecode, spells_iff_read, DecodeTable.decode]
  cases hfeed : feed decodeTable.branches EOS 0 (bits input) with
  | none =>
    rw [hfeed] at hrun
    simp [hrun]
  | some read =>
    obtain ⟨l, n⟩ := read
    rw [hfeed] at hrun
    obtain ⟨last, hlast, hn⟩ := hrun
    rw [hlast, Option.bind_some]
    have haccepting := hreal.accepting last n hn
    by_cases hends : decodeTable.accepting.getD last false = true
    · have hones := haccepting.1 hends
      simp only [if_pos hends, Option.some.injEq]
      constructor
      · rintro ⟨_, _, heq, rfl, -⟩
        cases heq
        rfl
      · rintro rfl
        exact ⟨l, n, rfl, rfl, hones⟩
    · simp only [if_neg hends, Option.some.injEq]
      refine iff_of_false ?_ nofun
      rintro ⟨_, _, heq, -, hones⟩
      cases heq
      exact hends (haccepting.2 hones)

end Soyokaze.Huffman

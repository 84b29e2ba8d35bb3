import Soyokaze.Protocol.H2.Quiet

/-!
# A connection in balance stays so

The steps flow control has to do with: streams that are opened, DATA that arrives and
is credited, credit and settings that arrive, and DATA that is sent. Each is shown to
do to the windows what it does to the record.

* `Observed`: a record in which DATA was sent only within the windows and the frame
  size that were in force, and in which the peer was refused nothing;
* `Balanced.opened`, `Balanced.data`, `Balanced.restored`, `Balanced.connectionCredit`,
  `Balanced.streamCredit`, `Balanced.settle`, `Balanced.sent`: the steps.
-/

namespace Soyokaze

open H2

namespace H2

/-- Whether an entry is of anything but DATA that was sent, or refused. -/
def Passed.silent : Passed → Bool
  | sent (.data ..) | exceeded => false
  | _ => true

theorem Passed.silent_of_quiet {e : Passed} (h : e.quiet = true) : e.silent = true := by
  cases e with
  | sent frame => cases frame <;> first | rfl | exact absurd h Bool.false_ne_true
  | exceeded => exact absurd h Bool.false_ne_true
  | _ => rfl

/-- What flow control asks of an entry, given those before it: that DATA was sent within both
    windows and within the frame size in force, where a frame of no octets needs no window,
    and that no DATA was refused. -/
def Passed.Allowed : Passed → List Passed → Prop
  | sent (.data id _ chunk), log =>
    (chunk = [] ∨ (chunk.length : ℤ) ≤ (connection log).held ∧ (chunk.length : ℤ) ≤ (stream id log).held) ∧
      chunk.length ≤ (inForce log).maxFrameSize
  | exceeded, _ => False
  | _, _ => True

/-- Every entry was allowed when it was made. -/
def Observed : List Passed → Prop
  | [] => True
  | e :: log => e.Allowed log ∧ Observed log

theorem Passed.allowed_of_silent {e : Passed} (h : e.silent = true) (log : List Passed) : e.Allowed log := by
  cases e with
  | sent frame => cases frame <;> trivial
  | exceeded => exact absurd h Bool.false_ne_true
  | _ => trivial

theorem Observed.append {entries log : List Passed} (h : Observed log) (hsilent : ∀ e ∈ entries, e.silent = true) :
    Observed (entries ++ log) := by
  induction entries with
  | nil => exact h
  | cons e entries ih =>
    exact ⟨e.allowed_of_silent (hsilent e List.mem_cons_self) _, ih fun e he => hsilent e (List.mem_cons_of_mem _ he)⟩

/-- The credit that is given for so many octets, if there are any. -/
def grants (id length : ℕ) : List Passed := if 0 < length then [.sent (.windowUpdate id length)] else []

theorem silent_grants (id length : ℕ) : ∀ e ∈ grants id length, e.silent = true := by
  intro e he
  rw [grants] at he
  split_ifs at he
  · rw [List.mem_singleton.1 he]
    rfl
  · exact absurd he List.not_mem_nil

theorem connection_grants (id length : ℕ) (log : List Passed) : connection (grants id length ++ log) =
    ⟨(connection log).given + (if id = 0 then length else 0), (connection log).held⟩ := by
  rw [grants]
  split_ifs with hpos hid
  · rw [List.singleton_append, connection_cons]
    simp [Passed.granted, Passed.taken, Passed.increment, Passed.carried, Passed.arrived, hid]
  · rw [List.singleton_append, connection_cons]
    simp [Passed.granted, Passed.taken, Passed.increment, Passed.carried, Passed.arrived, hid]
  · simp [Nat.eq_zero_of_not_pos hpos]
  · simp

theorem inForce_grants (id length : ℕ) (log : List Passed) : inForce (grants id length ++ log) = inForce log := by
  rw [grants]
  split_ifs <;> rfl

theorem stream_grants (id length other : ℕ) (log : List Passed) : stream other (grants id length ++ log) =
    ⟨(stream other log).given + (if id = other then length else 0), (stream other log).held⟩ := by
  rw [grants]
  split_ifs with hpos hid
  · rw [List.singleton_append, stream_cons other (sent_ne_opened _ _)]
    simp [Passed.granted, Passed.taken, Passed.increment, Passed.carried, Passed.arrived, inForce, hid]
  · rw [List.singleton_append, stream_cons other (sent_ne_opened _ _)]
    simp [Passed.granted, Passed.taken, Passed.increment, Passed.carried, Passed.arrived, inForce, hid]
  · simp [Nat.eq_zero_of_not_pos hpos]
  · simp

end H2

namespace H2Connection

/-! ## What each step does to the windows -/

namespace Balanced

variable {c : H2Connection} {log : List Passed}

/-- A stream that is opened. -/
theorem opened (h : Balanced c log) {id : ℕ} (hid : id ≠ 0) :
    Balanced { c with streams := c.streams.insert id
                        (.new c.settingsLocal.initialWindowSize c.settingsRemote.initialWindowSize) }
      (.opened id :: log) where
  given := by
    rw [connection_cons]
    simpa [Passed.granted, Passed.taken, Passed.arrived] using h.given
  held := by
    rw [connection_cons]
    simpa [Passed.increment, Passed.carried, Passed.arrived] using h.held
  settings := h.settings
  announced := h.announced
  next := h.next
  stream other stream' hstream' := by
    by_cases heq : other = id
    · rw [heq, AList.lookup_insert] at hstream'
      cases hstream'
      rw [heq, stream_opened]
      exact ⟨hid, congrArg _ h.announced, by rw [← h.settings]; rfl⟩
    · rw [AList.lookup_insert_ne heq] at hstream'
      have hne : Passed.opened id ≠ .opened other := fun hopened => heq (Passed.opened.inj hopened).symm
      rw [stream_cons other hne]
      simpa [Passed.granted, Passed.taken, Passed.increment, Passed.carried, Passed.arrived, inForce] using
        h.stream other stream' hstream'

variable {header : FrameHeader} {payload : Octets}

/-- DATA that arrives: its octets are taken off the window of its stream, and given back
    to the connection. -/
theorem data (h : Balanced c log) {id : ℕ} {endStream : Bool} {data : Octets}
    (hframe : Frame.assemble header payload = .ok (.data id endStream data)) (hid : id ≠ 0) :
    Balanced { c with streams := StreamMap.modify c.streams id fun stream =>
      { stream with windowLocal := stream.windowLocal - data.length } }
      (grants 0 data.length ++ .received header payload :: log) where
  given := by
    rw [connection_grants, connection_cons]
    simpa [Passed.granted, Passed.taken, arrived_of_assemble hframe, everywhere] using h.given
  held := by
    rw [connection_grants, connection_cons]
    simpa [Passed.increment, Passed.carried, arrived_of_assemble hframe] using h.held
  settings := by
    rw [inForce_grants, inForce, arrived_of_assemble hframe]
    exact h.settings
  announced := h.announced
  next := h.next
  stream other stream' hstream' := by
    have hforce : inForce (.received header payload :: log) = inForce log := by
      rw [inForce, arrived_of_assemble hframe]
    rw [stream_grants, stream_cons other (received_ne_opened _ _ _), hforce]
    rw [StreamMap.lookup_modify] at hstream'
    split_ifs at hstream' with heq
    · obtain ⟨stream, hstream, rfl⟩ := Option.map_eq_some_iff.1 hstream'
      obtain ⟨-, hgiven, hheld⟩ := h.stream other stream hstream
      refine ⟨heq ▸ hid, ?_, ?_⟩
      · simp [Passed.granted, Passed.taken, arrived_of_assemble hframe, heq, hid.symm, heq ▸ hgiven]
      · simp [Passed.increment, Passed.carried, arrived_of_assemble hframe, hheld]
    · obtain ⟨hother, hgiven, hheld⟩ := h.stream other stream' hstream'
      refine ⟨hother, ?_, ?_⟩
      · simp [Passed.granted, Passed.taken, arrived_of_assemble hframe, Ne.symm heq, hother.symm, hgiven]
      · simp [Passed.increment, Passed.carried, arrived_of_assemble hframe, hheld]

/-- Credit that is given back to a stream. -/
theorem restored (h : Balanced c log) {id : ℕ} (hid : id ≠ 0) (length : ℕ) :
    Balanced { c with streams := StreamMap.modify c.streams id fun stream =>
      { stream with windowLocal := stream.windowLocal + length } } (grants id length ++ log) where
  given := by
    rw [connection_grants]
    simpa [hid] using h.given
  held := by
    rw [connection_grants]
    exact h.held
  settings := by
    rw [inForce_grants]
    exact h.settings
  announced := h.announced
  next := h.next
  stream other stream' hstream' := by
    rw [stream_grants]
    rw [StreamMap.lookup_modify] at hstream'
    split_ifs at hstream' with heq
    · subst heq
      obtain ⟨stream, hstream, rfl⟩ := Option.map_eq_some_iff.1 hstream'
      obtain ⟨hother, hgiven, hheld⟩ := h.stream other stream hstream
      exact ⟨hother, by simp [hgiven], hheld⟩
    · obtain ⟨hother, hgiven, hheld⟩ := h.stream other stream' hstream'
      exact ⟨hother, by simp [Ne.symm heq, hgiven], hheld⟩

/-- Credit that arrives for the connection. -/
theorem connectionCredit (h : Balanced c log) {increment : ℕ}
    (hframe : Frame.assemble header payload = .ok (.windowUpdate 0 increment)) :
    Balanced { c with windowRemote := c.windowRemote + increment } (.received header payload :: log) where
  given := by
    rw [connection_cons]
    simpa [Passed.granted, Passed.taken, arrived_of_assemble hframe] using h.given
  held := by
    rw [connection_cons]
    simpa [Passed.increment, Passed.carried, arrived_of_assemble hframe] using h.held
  settings := by
    rw [inForce, arrived_of_assemble hframe]
    exact h.settings
  announced := h.announced
  next := h.next
  stream other stream' hstream' := by
    obtain ⟨hother, hgiven, hheld⟩ := h.stream other stream' hstream'
    rw [stream_cons other (received_ne_opened _ _ _), inForce, arrived_of_assemble hframe]
    refine ⟨hother, ?_, ?_⟩
    · simpa [Passed.granted, Passed.taken, arrived_of_assemble hframe] using hgiven
    · simpa [Passed.increment, Passed.carried, arrived_of_assemble hframe, hother.symm] using hheld

/-- Credit that arrives for a stream. -/
theorem streamCredit (h : Balanced c log) {id increment : ℕ}
    (hframe : Frame.assemble header payload = .ok (.windowUpdate id increment)) (hid : id ≠ 0) :
    Balanced { c with streams := StreamMap.modify c.streams id fun stream =>
      { stream with windowRemote := stream.windowRemote + increment } } (.received header payload :: log) where
  given := by
    rw [connection_cons]
    simpa [Passed.granted, Passed.taken, arrived_of_assemble hframe] using h.given
  held := by
    rw [connection_cons]
    simpa [Passed.increment, Passed.carried, arrived_of_assemble hframe, hid] using h.held
  settings := by
    rw [inForce, arrived_of_assemble hframe]
    exact h.settings
  announced := h.announced
  next := h.next
  stream other stream' hstream' := by
    rw [stream_cons other (received_ne_opened _ _ _), inForce, arrived_of_assemble hframe]
    rw [StreamMap.lookup_modify] at hstream'
    split_ifs at hstream' with heq
    · subst heq
      obtain ⟨stream, hstream, rfl⟩ := Option.map_eq_some_iff.1 hstream'
      obtain ⟨hother, hgiven, hheld⟩ := h.stream other stream hstream
      refine ⟨hother, ?_, ?_⟩
      · simpa [Passed.granted, Passed.taken, arrived_of_assemble hframe] using hgiven
      · simp [Passed.increment, Passed.carried, arrived_of_assemble hframe, hheld]
    · obtain ⟨hother, hgiven, hheld⟩ := h.stream other stream' hstream'
      refine ⟨hother, ?_, ?_⟩
      · simpa [Passed.granted, Passed.taken, arrived_of_assemble hframe] using hgiven
      · simpa [Passed.increment, Passed.carried, arrived_of_assemble hframe, Ne.symm heq] using hheld

/-- Settings that arrive: what they change of the initial window is added to the window of
    every stream, which may leave it below zero. -/
theorem settle (h : Balanced c log) {params : List (ℕ × ℕ)}
    (hframe : Frame.assemble header payload = .ok (.settings false params)) :
    Balanced { c with
      settingsRemote := (c.settingsRemote.applyAll params).2
      streams := StreamMap.mapValues c.streams fun stream => { stream with
        windowRemote := stream.windowRemote +
          ((c.settingsRemote.applyAll params).2.initialWindowSize - c.settingsRemote.initialWindowSize) } }
      (.received header payload :: log) where
  given := by
    rw [connection_cons]
    simpa [Passed.granted, Passed.taken, arrived_of_assemble hframe] using h.given
  held := by
    rw [connection_cons]
    simpa [Passed.increment, Passed.carried, arrived_of_assemble hframe] using h.held
  settings := by
    rw [inForce, arrived_of_assemble hframe, h.settings]
  announced := h.announced
  next := h.next
  stream other stream' hstream' := by
    rw [StreamMap.lookup_mapValues] at hstream'
    obtain ⟨stream, hstream, rfl⟩ := Option.map_eq_some_iff.1 hstream'
    obtain ⟨hother, hgiven, hheld⟩ := h.stream other stream hstream
    rw [stream_cons other (received_ne_opened _ _ _), inForce, arrived_of_assemble hframe, ← h.settings]
    refine ⟨hother, ?_, ?_⟩
    · simpa [Passed.granted, Passed.taken, arrived_of_assemble hframe] using hgiven
    · simp [Passed.increment, Passed.carried, arrived_of_assemble hframe, hheld]

/-- DATA that is sent. -/
theorem sent (h : Balanced c log) (id : ℕ) (chunk : Octets) (last : Bool) :
    Balanced { c with
      windowRemote := c.windowRemote - chunk.length
      streams := StreamMap.modify c.streams id fun stream =>
        { stream with windowRemote := stream.windowRemote - chunk.length } } (.sent (.data id last chunk) :: log) where
  given := by
    rw [connection_cons]
    simpa [Passed.granted, Passed.taken, Passed.arrived] using h.given
  held := by
    rw [connection_cons]
    simpa [Passed.increment, Passed.carried, Passed.arrived, everywhere] using h.held
  settings := h.settings
  announced := h.announced
  next := h.next
  stream other stream' hstream' := by
    rw [stream_cons other (sent_ne_opened _ _)]
    rw [StreamMap.lookup_modify] at hstream'
    split_ifs at hstream' with heq
    · subst heq
      obtain ⟨stream, hstream, rfl⟩ := Option.map_eq_some_iff.1 hstream'
      obtain ⟨hother, hgiven, hheld⟩ := h.stream other stream hstream
      refine ⟨hother, ?_, ?_⟩
      · simpa [Passed.granted, Passed.taken, Passed.arrived] using hgiven
      · simp [Passed.increment, Passed.carried, Passed.arrived, inForce, hheld]
    · obtain ⟨hother, hgiven, hheld⟩ := h.stream other stream' hstream'
      refine ⟨hother, ?_, ?_⟩
      · simpa [Passed.granted, Passed.taken, Passed.arrived] using hgiven
      · simpa [Passed.increment, Passed.carried, Passed.arrived, inForce, Ne.symm heq] using hheld

end Balanced

end H2Connection

end Soyokaze

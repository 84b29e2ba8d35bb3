import Soyokaze.Protocol.H2.Runs

/-!
# Both ends count alike

What flow control comes to for the two directions of a connection, over any run.

* `send_windows_kept`: what this end may send is what it was let, and it sends no more;
* `receive_windows_kept`: what the peer may send is what the peer thinks it is, exactly
  as long as it pads no DATA. Padding costs the peer credit it is never given back
  (`padding_is_lost`);
* `writing_ends`: a body that is written is written in so many rounds.
-/

namespace Soyokaze

open H2
open Eviction (total)

namespace H2

/-! ## What the peer counts -/

/-- The credit of the connection as the peer counts it: each DATA frame costs it the whole
    payload, padding included. -/
def credit (log : List Passed) : ℤ :=
  Settings.DEFAULT_INITIAL_WINDOW_SIZE + total (Passed.granted 0) log - total (Passed.spent everywhere) log

/-- The credit of a stream as the peer counts it. -/
def streamCredit (id : ℕ) (log : List Passed) : ℤ :=
  Settings.DEFAULT_INITIAL_WINDOW_SIZE + total (Passed.granted id) (since id log) -
    total (Passed.spent (· = id)) (since id log)

/-- Whether an entry is of a DATA frame that arrived with padding. -/
def Passed.padded (e : Passed) : Bool :=
  match e, e.arrived with
  | received header _, some (.data ..) => header.padded
  | _, _ => false

/-- No DATA that arrived was padded. -/
def Unpadded (log : List Passed) : Prop := ∀ e ∈ log, e.padded = false

instance (log : List Passed) : Decidable (Unpadded log) := inferInstanceAs (Decidable (∀ e ∈ log, e.padded = false))

/-- An entry costs the peer what it brought, or is of padded DATA and costs more. -/
theorem padded_cases (e : Passed) : e.padded = false ∧ (∀ on, e.taken on = e.spent on) ∨
    e.padded = true ∧ ∃ id taken spent, taken < spent ∧
      ∀ on, e.taken on = (if on id then taken else 0) ∧ e.spent on = if on id then spent else 0 := by
  rcases e with id | ⟨header, payload⟩ | frame | _ | _
  case received =>
    rcases hassemble : Frame.assemble header payload with error | frame
    · left
      simp [Passed.padded, Passed.taken, Passed.spent, Passed.arrived, hassemble, Except.toOption]
    · have harrived := arrived_of_assemble hassemble
      simp only [Passed.taken, Passed.spent, Passed.padded, harrived, Passed.length]
      cases frame with
      | data id endStream data =>
        obtain ⟨-, -, -, ⟨hpadded, hlength⟩ | ⟨hpadded, hlength⟩⟩ := Frame.data_of_assemble hassemble
        · exact Or.inl ⟨hpadded, fun on => congrArg (if on id = true then · else 0) hlength⟩
        · exact Or.inr ⟨hpadded, id, data.length, header.length, hlength, fun _ => ⟨rfl, rfl⟩⟩
      | _ => exact Or.inl ⟨rfl, fun _ => rfl⟩
  all_goals exact Or.inl ⟨rfl, fun _ => rfl⟩

theorem taken_le_spent (on : ℕ → Bool) (e : Passed) : e.taken on ≤ e.spent on := by
  obtain ⟨-, h⟩ | ⟨-, id, taken, spent, hlt, h⟩ := padded_cases e
  · exact (h on).le
  · rw [(h on).1, (h on).2]
    split_ifs
    · exact hlt.le
    · exact Nat.le_refl _

theorem taken_eq_spent {e : Passed} (h : e.padded = false) (on : ℕ → Bool) : e.taken on = e.spent on := by
  obtain ⟨-, heq⟩ | ⟨hpadded, -⟩ := padded_cases e
  · exact heq on
  · exact absurd (h.symm.trans hpadded) Bool.false_ne_true

theorem taken_lt_spent {e : Passed} (h : e.padded = true) : e.taken everywhere < e.spent everywhere := by
  obtain ⟨hpadded, -⟩ | ⟨-, id, taken, spent, hlt, heq⟩ := padded_cases e
  · exact absurd (hpadded.symm.trans h) Bool.false_ne_true
  · rwa [(heq everywhere).1, (heq everywhere).2]

theorem total_taken_le (on : ℕ → Bool) (log : List Passed) :
    total (Passed.taken on) log ≤ total (Passed.spent on) log := by
  induction log with
  | nil => exact Nat.le_refl _
  | cons e log ih =>
    rw [Eviction.total_cons, Eviction.total_cons]
    exact Nat.add_le_add (taken_le_spent on e) ih

theorem total_taken_eq {log : List Passed} (h : Unpadded log) (on : ℕ → Bool) :
    total (Passed.taken on) log = total (Passed.spent on) log := by
  induction log with
  | nil => rfl
  | cons e log ih =>
    rw [Eviction.total_cons, Eviction.total_cons, taken_eq_spent (h e List.mem_cons_self),
      ih fun e he => h e (List.mem_cons_of_mem _ he)]

/-- Both ends count the same for the connection exactly if nothing was padded. -/
theorem connection_eq_credit (log : List Passed) : (connection log).given = credit log ↔ Unpadded log := by
  constructor
  · intro h e hmem
    by_contra hpadded
    have hlt := taken_lt_spent (eq_true_of_ne_false hpadded)
    -- What one entry is short of, the others cannot make up for.
    obtain ⟨later, earlier, rfl⟩ := List.append_of_mem hmem
    have hlater := total_taken_le everywhere later
    have hearlier := total_taken_le everywhere earlier
    simp only [connection, credit, Eviction.total_append, Eviction.total_cons] at h
    omega
  · intro h
    simp only [connection, credit, total_taken_eq h]

theorem stream_eq_credit {log : List Passed} (h : Unpadded log) (id : ℕ) :
    (stream id log).given = streamCredit id log := by
  have hsince : Unpadded (since id log) := fun e he => h e ((List.takeWhile_prefix _).subset he)
  simp only [stream, streamCredit, total_taken_eq hsince]

theorem Observed.allowed {log : List Passed} (h : Observed log) {later earlier : List Passed} {e : Passed}
    (hlog : log = later ++ e :: earlier) : e.Allowed earlier := by
  subst hlog
  induction later with
  | nil => exact h.1
  | cons e' later ih => exact ih h.2

theorem Observed.not_exceeded {log : List Passed} (h : Observed log) : .exceeded ∉ log := by
  intro hmem
  obtain ⟨later, earlier, hlog⟩ := List.append_of_mem hmem
  exact h.allowed hlog

end H2

namespace H2Connection

/-- A connection as its user has it: what finalizes messages, and whether the transport is
    secure, is set before anything passes. -/
def configured (source : Source Error UInt8) (sink : Sink) (role : Role) (limits : H2Limits)
    (requestFinalizer : RequestFinalizer) (responseFinalizer : ResponseFinalizer) (secure : Bool) : H2Connection :=
  { resume source sink role limits with
    requestFinalizer := requestFinalizer, responseFinalizer := responseFinalizer, secure := secure }

theorem sound_configured (source : Source Error UInt8) (sink : Sink) (role : Role) (limits : H2Limits)
    (requestFinalizer : RequestFinalizer) (responseFinalizer : ResponseFinalizer) (secure : Bool) :
    Sound (configured source sink role limits requestFinalizer responseFinalizer secure) :=
  Quiet.sound (c := resume source sink role limits) (.of_core ⟨rfl, rfl⟩) (sound_resume source sink role limits)

/-! ## Receiving -/

/-- The windows a connection keeps for its peer are the credit the peer counts, what DATA cost
    the peer has all been given back, and the peer was refused nothing. -/
structure Agreed (c : H2Connection) : Prop where
  connection : c.windowLocal = credit c.passed
  returned : total (Passed.granted 0) c.passed = total (Passed.spent everywhere) c.passed
  stream : ∀ id stream, c.streams.lookup id = some stream → stream.windowLocal = streamCredit id c.passed ∧
    total (Passed.granted id) (since id c.passed) = total (Passed.spent (· = id)) (since id c.passed)
  spared : .exceeded ∉ c.passed

/-- In every run, the peer is refused no DATA; and until the connection fails, both ends agree
    on what it may send exactly as long as it padded none. -/
theorem receive_windows_kept (source : Source Error UInt8) (sink : Sink) (role : Role) (limits : H2Limits)
    (requestFinalizer : RequestFinalizer) (responseFinalizer : ResponseFinalizer) (secure : Bool)
    (events : List (World × Event)) :
    let c := after events (configured source sink role limits requestFinalizer responseFinalizer secure)
    .exceeded ∉ c.passed ∧ (¬c.Failed → (Agreed c ↔ Unpadded c.passed)) := by
  intro c
  obtain ⟨hobs, hsound⟩ := sound_after events
    (sound_configured source sink role limits requestFinalizer responseFinalizer secure) trivial
  refine ⟨hobs.not_exceeded, fun hfailed => ?_⟩
  obtain ⟨hbalanced, hlevel⟩ := hsound.resolve_left hfailed
  constructor
  · intro h
    rw [← connection_eq_credit, ← hbalanced.given]
    exact h.connection
  · intro h
    have hcredit := (connection_eq_credit c.passed).2 h
    refine ⟨hbalanced.given.trans hcredit, ?_, fun id stream hstream => ⟨?_, ?_⟩, hobs.not_exceeded⟩
    · have hlevel' := hlevel.connection.symm.trans (hbalanced.given.trans hcredit)
      rw [credit] at hlevel'
      omega
    · exact (hbalanced.stream id stream hstream).2.1.trans (stream_eq_credit h id)
    · have hlevel' := (hlevel.stream id stream hstream).symm.trans
        ((hbalanced.stream id stream hstream).2.1.trans (stream_eq_credit h id))
      rw [streamCredit] at hlevel'
      omega

/-- A request whose body of two octets comes in one DATA frame. -/
def posted (data : Octets) : Source Error UInt8 where
  data := PREFACE ++ (Frame.settings false []).encode ++ (Frame.headers 1 false true (Hpack.Encoder.new.encode
    [.lit ":method" "POST", .lit ":scheme" "https", .lit ":path" "/", .lit ":authority" "a"]).2).encode ++ data
  eof := false
  reads := []

theorem receive_windows_kept_posted :
    Agreed (after [(.bare, .pump), (.bare, .pump), (.bare, .pump)]
      (configured (posted (Frame.data 1 false [97, 98]).encode) ⟨[], []⟩ .origin .default ⟨none⟩ ⟨none⟩ true)) :=
  ((receive_windows_kept _ _ _ _ _ _ _ _).2 (by decide +kernel)).2 (by decide +kernel)

/-- The same with three octets of padding: the four octets that its length and it take up are
    credit the peer has spent and is not given back. -/
theorem padding_is_lost :
    let c := after [(.bare, .pump), (.bare, .pump), (.bare, .pump)]
      (configured (posted (FrameHeader.encode ⟨6, .data, Flag.PADDED, 1⟩ ++ [3, 97, 98, 0, 0, 0])) ⟨[], []⟩ .origin
        .default ⟨none⟩ ⟨none⟩ true)
    ¬c.Failed ∧ c.windowLocal = 65535 ∧ credit c.passed = 65531 ∧ ¬Agreed c := by
  refine ⟨by decide +kernel, by decide +kernel, by decide +kernel, fun h => ?_⟩
  exact absurd h.connection (by decide +kernel)

/-! ## Sending -/

/-- In every run, DATA was only ever sent within the windows and the frame size that were in
    force; and until the connection fails, its windows are what it was let, and a body that
    is sent leaves in frames that carry it whole. -/
theorem send_windows_kept (source : Source Error UInt8) (sink : Sink) (role : Role) (limits : H2Limits)
    (requestFinalizer : RequestFinalizer) (responseFinalizer : ResponseFinalizer) (secure : Bool)
    (events : List (World × Event)) :
    let c := after events (configured source sink role limits requestFinalizer responseFinalizer secure)
    (∀ later id last chunk earlier, c.passed = later ++ .sent (.data id last chunk) :: earlier →
      (chunk = [] ∨ (chunk.length : ℤ) ≤ (connection earlier).held ∧ (chunk.length : ℤ) ≤ (stream id earlier).held) ∧
        chunk.length ≤ (inForce earlier).maxFrameSize) ∧
    (¬c.Failed → c.windowRemote = (connection c.passed).held ∧
      (∀ id stream, c.streams.lookup id = some stream → stream.windowRemote = (H2.stream id c.passed).held) ∧
      (∀ world id data endStream c', (writeData world id data endStream).run c = (.ok (), c') →
        Carried id data endStream c c') ∧
      ∀ world m c', (sendMessage world m).run c = (.ok (), c') →
        ∃ id stream o, compose world stream (c.finalize world m) = .ok o ∧
          ∀ body, o.body = some body → Carried id body o.trailers.isNone c c') := by
  intro c
  obtain ⟨hobs, hsound⟩ := sound_after events
    (sound_configured source sink role limits requestFinalizer responseFinalizer secure) trivial
  refine ⟨fun later id last chunk earlier hlog => hobs.allowed hlog, fun hfailed => ?_⟩
  have hc := hsound.resolve_left hfailed
  exact ⟨hc.balanced.held, fun id stream hstream => (hc.balanced.stream id stream hstream).2.2,
    fun world id data endStream c' hrun => writeData_carries hc hobs hrun,
    fun world m c' hrun => sendMessage_carries hc hobs hrun⟩

/-- A body of five octets to a peer that lets three be sent, and two when it is asked. -/
theorem send_windows_kept_waiting :
    let c := after [(.bare, .pump), (.bare, .send { Message.request .POST (.lit "/") .v2_0 with
      body := some (.data [1, 2, 3, 4, 5]) })] (configured ⟨(Frame.settings false [(Settings.INITIAL_WINDOW_SIZE, 3)]).encode ++
        (Frame.windowUpdate 1 4).encode, false, []⟩ ⟨[], []⟩ .userAgent .default ⟨none⟩ ⟨none⟩ true)
    dataSent c.passed = [(1, false, [1, 2, 3]), (1, true, [4, 5])] ∧ c.windowRemote = (connection c.passed).held :=
  ⟨by decide +kernel, ((send_windows_kept _ _ _ _ _ _ _ _).2 (by decide +kernel)).1⟩

/-- Writing body octets comes to an end: whatever was done with a connection that has not
    failed, no more rounds are made than there are octets to send and to read, since one that
    has credit sends some and one that has none reads some. -/
theorem writing_ends (source : Source Error UInt8) (sink : Sink) (role : Role) (limits : H2Limits)
    (requestFinalizer : RequestFinalizer) (responseFinalizer : ResponseFinalizer) (secure : Bool)
    (events : List (World × Event)) :
    let c := after events (configured source sink role limits requestFinalizer responseFinalizer secure)
    ¬c.Failed → (∀ stream rest, rest ≠ [] → 0 < min c.windowRemote stream.windowRemote → 0 < c.chunkSize stream rest) ∧
      (∀ world m c', (pump world).run c = (.ok m, c') → c'.source.left < c.source.left) ∧
      ∀ world id data endStream fuel, data.length + c.source.left < fuel →
        (writeDataLoop world id endStream fuel data).run c = (writeData world id data endStream).run c := by
  intro c hfailed
  obtain ⟨hobs, hsound⟩ := sound_after events
    (sound_configured source sink role limits requestFinalizer responseFinalizer secure) trivial
  have hc : Sound c := hsound.resolve_left hfailed
  refine ⟨fun stream rest hrest hcredit => chunkSize_pos hc hrest fun h => absurd h.1 (not_le.2 hcredit),
    fun world m c' hrun => pump_left hc hrun, fun world id data endStream fuel hfuel => ?_⟩
  rw [writeData, Act.run_bind_ok (Act.run_get c)]
  -- By induction on the fuel there is beyond what suffices.
  induction fuel, hfuel using Nat.le_induction with
  | base => rfl
  | succ fuel hfuel ih => rw [writeDataLoop_fuel hc hobs hfuel, ih]

theorem writing_ends_waiting : ¬(after [(.bare, .pump)] (configured ⟨(Frame.settings false [(Settings.INITIAL_WINDOW_SIZE, 3)]).encode,
    false, []⟩ ⟨[], []⟩ .userAgent .default ⟨none⟩ ⟨none⟩ true)).Failed ∧
    (writeDataLoop .bare 1 true 9 [1, 2, 3]).run (after [(.bare, .pump)] (configured
      ⟨(Frame.settings false [(Settings.INITIAL_WINDOW_SIZE, 3)]).encode, false, []⟩ ⟨[], []⟩ .userAgent .default ⟨none⟩ ⟨none⟩ true)) =
    (writeData .bare 1 [1, 2, 3] true).run (after [(.bare, .pump)] (configured
      ⟨(Frame.settings false [(Settings.INITIAL_WINDOW_SIZE, 3)]).encode, false, []⟩ ⟨[], []⟩ .userAgent .default ⟨none⟩ ⟨none⟩ true)) := by
  have hgoes : ¬(after [(.bare, .pump)] (configured ⟨(Frame.settings false [(Settings.INITIAL_WINDOW_SIZE, 3)]).encode,
    false, []⟩ ⟨[], []⟩ .userAgent .default ⟨none⟩ ⟨none⟩ true)).Failed := by decide +kernel
  exact ⟨hgoes, (writing_ends _ _ _ _ _ _ _ _ hgoes).2.2 .bare 1 [1, 2, 3] true 9 (by decide +kernel)⟩

end H2Connection

end Soyokaze

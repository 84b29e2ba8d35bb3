import Soyokaze.Lib.Eviction
import Soyokaze.Protocol.H2.Connection

/-!
# What flow control comes to

Both ends count the same octets: each window is what it started at, and what was
granted since, without the DATA that was sent. Here that is said of a record of what
passed, with no connection in sight, so that it is what either end works out.

* `Account`: the windows of a connection or a stream, and `connection`, `stream`, what
  the record says they are;
* `Same.of_quiet`: frames that have nothing to do with flow control change neither;
* `Balanced`: a connection whose windows are those the record tells.
-/

namespace Soyokaze

open Eviction (total)

namespace H2

namespace Passed

/-- The frame that was read off the wire, where it is one. -/
def arrived : Passed → Option Frame
  | received header payload => (Frame.assemble header payload).toOption
  | _ => none

/-- How long a payload its header announced. -/
def length : Passed → ℕ
  | received header _ => header.length
  | _ => 0

/-- The octets of DATA a received frame held, its padding left off. -/
def taken (on : ℕ → Bool) (e : Passed) : ℕ :=
  match e.arrived with
  | some (.data id _ data) => if on id then data.length else 0
  | _ => 0

/-- The octets a received DATA frame costs its sender: the whole of its payload. -/
def spent (on : ℕ → Bool) (e : Passed) : ℕ :=
  match e.arrived with
  | some (.data id _ _) => if on id then e.length else 0
  | _ => 0

/-- The credit a frame that was sent gives the peer. -/
def granted (id : ℕ) : Passed → ℕ
  | sent (.windowUpdate id' increment) => if id' = id then increment else 0
  | _ => 0

/-- The credit a received frame gives this end. -/
def increment (id : ℕ) (e : Passed) : ℕ :=
  match e.arrived with
  | some (.windowUpdate id' increment) => if id' = id then increment else 0
  | _ => 0

/-- The octets of DATA that were sent. -/
def carried (on : ℕ → Bool) : Passed → ℕ
  | sent (.data id _ chunk) => if on id then chunk.length else 0
  | _ => 0

/-- Whether an entry has nothing to do with flow control. -/
def quiet (e : Passed) : Bool :=
  match e with
  | opened _ | sent (.data ..) | sent (.windowUpdate ..) | exceeded => false
  | received .. =>
    match e.arrived with
    | some (.data ..) | some (.windowUpdate ..) | some (.settings false _) => false
    | _ => true
  | _ => true

end Passed

/-- Every stream there is. -/
def everywhere (_ : ℕ) : Bool := true

/-- What passed since a stream was opened. -/
def since (id : ℕ) : List Passed → List Passed := List.takeWhile (· ≠ .opened id)

/-- The settings of the peer that are in force. -/
def inForce : List Passed → Settings
  | [] => .peer
  | e :: log =>
    match e.arrived with
    | some (.settings false params) => ((inForce log).applyAll params).2
    | _ => inForce log

/-- The windows of a connection or of a stream: what the peer may send, and what this end
    may. -/
structure Account where
  given : ℤ
  held : ℤ

/-- The windows of the connection. -/
def connection (log : List Passed) : Account where
  given := Settings.DEFAULT_INITIAL_WINDOW_SIZE + total (Passed.granted 0) log - total (Passed.taken everywhere) log
  held := Settings.DEFAULT_INITIAL_WINDOW_SIZE + total (Passed.increment 0) log - total (Passed.carried everywhere) log

/-- The windows of a stream. -/
def stream (id : ℕ) (log : List Passed) : Account where
  given := Settings.DEFAULT_INITIAL_WINDOW_SIZE + total (Passed.granted id) (since id log) -
    total (Passed.taken (· = id)) (since id log)
  held := (inForce log).initialWindowSize + total (Passed.increment id) (since id log) -
    total (Passed.carried (· = id)) (since id log)

/-! ## One entry -/

theorem since_cons_opened (id : ℕ) (log : List Passed) : since id (.opened id :: log) = [] := by
  rw [since, List.takeWhile_cons_of_neg (by simp)]

theorem since_cons {id : ℕ} {e : Passed} (h : e ≠ .opened id) (log : List Passed) :
    since id (e :: log) = e :: since id log := by
  rw [since, List.takeWhile_cons_of_pos (by simpa using h)]

theorem arrived_of_assemble {header : FrameHeader} {payload : Octets} {frame : Frame}
    (h : Frame.assemble header payload = .ok frame) : (Passed.received header payload).arrived = some frame := by
  rw [Passed.arrived, h]
  rfl

@[simp] theorem received_ne_opened (header : FrameHeader) (payload : Octets) (id : ℕ) :
    Passed.received header payload ≠ .opened id := Passed.noConfusion

@[simp] theorem sent_ne_opened (frame : Frame) (id : ℕ) : Passed.sent frame ≠ .opened id := Passed.noConfusion

/-- What one entry does to the windows of the connection. -/
theorem connection_cons (e : Passed) (log : List Passed) : connection (e :: log) =
    ⟨(connection log).given + e.granted 0 - e.taken everywhere,
      (connection log).held + e.increment 0 - e.carried everywhere⟩ := by
  simp only [connection, Eviction.total_cons, Account.mk.injEq]
  omega

/-- What an entry that opens no stream does to the windows of one. -/
theorem stream_cons {e : Passed} (id : ℕ) (h : e ≠ .opened id) (log : List Passed) : stream id (e :: log) =
    ⟨(stream id log).given + e.granted id - e.taken (· = id),
      (stream id log).held + ((inForce (e :: log)).initialWindowSize - (inForce log).initialWindowSize) +
        e.increment id - e.carried (· = id)⟩ := by
  simp only [stream, since_cons h, Eviction.total_cons, Account.mk.injEq]
  omega

/-- A stream that was just opened has what it starts with. -/
theorem stream_opened (id : ℕ) (log : List Passed) :
    stream id (.opened id :: log) = ⟨Settings.DEFAULT_INITIAL_WINDOW_SIZE, (inForce log).initialWindowSize⟩ := by
  simp only [stream, since_cons_opened, Eviction.total_nil, Account.mk.injEq]
  exact ⟨by omega, by rw [inForce]; simp [Passed.arrived]⟩

/-- An entry that changes nothing of what the record tells. -/
structure Idle (e : Passed) : Prop where
  opened : ∀ id, e ≠ .opened id
  taken : ∀ on, e.taken on = 0
  granted : ∀ id, e.granted id = 0
  increment : ∀ id, e.increment id = 0
  carried : ∀ on, e.carried on = 0
  settings : ∀ params, e.arrived ≠ some (.settings false params)

/-- So is one that tells of no frame received, and of none sent that flow control has to
    do with. -/
theorem idle_of_none {e : Passed} (harrived : e.arrived = none) (hopened : ∀ id, e ≠ .opened id)
    (hgranted : ∀ id, e.granted id = 0) (hcarried : ∀ on, e.carried on = 0) : Idle e where
  opened := hopened
  taken on := by rw [Passed.taken, harrived]
  granted := hgranted
  increment id := by rw [Passed.increment, harrived]
  carried := hcarried
  settings params := by
    rw [harrived]
    intro h
    cases h

/-- And one that tells of a frame received that flow control has nothing to do with. -/
theorem idle_of_received {header : FrameHeader} {payload : Octets} {frame : Frame}
    (harrived : (Passed.received header payload).arrived = some frame) (hdata : frame.kind ≠ .data)
    (hwindow : frame.kind ≠ .windowUpdate) (hsettings : ∀ params, frame ≠ .settings false params) :
    Idle (.received header payload) where
  opened id := Passed.noConfusion
  taken on := by
    rw [Passed.taken, harrived]
    cases frame <;> first | rfl | exact absurd rfl hdata
  granted id := rfl
  increment id := by
    rw [Passed.increment, harrived]
    cases frame <;> first | rfl | exact absurd rfl hwindow
  carried on := rfl
  settings params := by
    rw [harrived]
    exact fun h => hsettings params (Option.some.inj h)

theorem idle_of_quiet {e : Passed} (h : e.quiet = true) : Idle e := by
  cases e with
  | opened | exceeded => exact absurd h Bool.false_ne_true
  | failed | accepted | unattended | overlooked | handled =>
    exact idle_of_none rfl (fun _ => Passed.noConfusion) (fun _ => rfl) fun _ => rfl
  | sent frame =>
    cases frame
    case data | windowUpdate => exact absurd h Bool.false_ne_true
    all_goals exact idle_of_none rfl (fun _ => Passed.noConfusion) (fun _ => rfl) fun _ => rfl
  | received header payload =>
    rcases harrived : (Passed.received header payload).arrived with _ | frame
    · exact idle_of_none harrived (fun _ => Passed.noConfusion) (fun _ => rfl) fun _ => rfl
    · rw [Passed.quiet, harrived] at h
      refine idle_of_received harrived ?_ ?_ ?_
      · rintro hkind
        cases frame <;> first | exact absurd h Bool.false_ne_true | cases hkind
      · rintro hkind
        cases frame <;> first | exact absurd h Bool.false_ne_true | cases hkind
      · rintro params rfl
        exact absurd h Bool.false_ne_true

/-- Two records that tell the same of flow control. -/
structure Same (log log' : List Passed) : Prop where
  connection : connection log = connection log'
  settings : inForce log = inForce log'
  stream : ∀ id, stream id log = stream id log'

theorem Same.refl (log : List Passed) : Same log log := ⟨rfl, rfl, fun _ => rfl⟩

theorem Same.trans {a b c : List Passed} (h : Same a b) (h' : Same b c) : Same a c :=
  ⟨h.connection.trans h'.connection, h.settings.trans h'.settings, fun id => (h.stream id).trans (h'.stream id)⟩

theorem inForce_cons_of_idle {e : Passed} (h : Idle e) (log : List Passed) : inForce (e :: log) = inForce log := by
  rw [inForce]
  split
  · next params hparams => exact absurd hparams (h.settings params)
  · rfl

theorem same_cons_of_idle {e : Passed} (h : Idle e) (log : List Passed) : Same (e :: log) log where
  connection := by
    rw [connection_cons, h.granted, h.taken, h.increment, h.carried]
    simp
  settings := inForce_cons_of_idle h log
  stream id := by
    rw [stream_cons id (h.opened id), inForce_cons_of_idle h, h.granted, h.taken, h.increment, h.carried]
    simp

/-- Records that tell the same do so whatever one entry is added to both. -/
theorem Same.cons {log log' : List Passed} (h : Same log log') (e : Passed) : Same (e :: log) (e :: log') where
  connection := by rw [connection_cons, connection_cons, h.connection]
  settings := by rw [inForce, inForce, h.settings]
  stream id := by
    by_cases he : e = .opened id
    · rw [he, stream_opened, stream_opened, h.settings]
    · rw [stream_cons id he, stream_cons id he, h.stream id, h.settings, inForce, inForce, h.settings]

/-- Entries that have nothing to do with flow control change nothing of what is told. -/
theorem Same.of_quiet {entries : List Passed} (h : ∀ e ∈ entries, e.quiet = true) (log : List Passed) :
    Same (entries ++ log) log := by
  induction entries with
  | nil => exact .refl log
  | cons e entries ih =>
    have hrest := ih fun e he => h e (List.mem_cons_of_mem _ he)
    exact (same_cons_of_idle (idle_of_quiet (h e List.mem_cons_self)) _).trans hrest

end H2

open H2

namespace H2Connection

/-- A connection whose windows, and whose streams' windows, are those a record tells. -/
structure Balanced (c : H2Connection) (log : List Passed) : Prop where
  given : c.windowLocal = (connection log).given
  held : c.windowRemote = (connection log).held
  settings : c.settingsRemote = inForce log
  announced : c.settingsLocal.initialWindowSize = Settings.DEFAULT_INITIAL_WINDOW_SIZE
  next : 0 < c.nextStreamId
  stream : ∀ id stream, c.streams.lookup id = some stream →
    id ≠ 0 ∧ stream.windowLocal = (H2.stream id log).given ∧ stream.windowRemote = (H2.stream id log).held

theorem Balanced.congr {c : H2Connection} {log log' : List Passed} (h : Balanced c log) (hsame : Same log' log) :
    Balanced c log' where
  given := h.given.trans (congrArg _ hsame.connection.symm)
  held := h.held.trans (congrArg _ hsame.connection.symm)
  settings := h.settings.trans hsame.settings.symm
  announced := h.announced
  next := h.next
  stream id stream hstream := by
    rw [hsame.stream id]
    exact h.stream id stream hstream

/-- A connection nothing has passed over is in balance. -/
theorem balanced_resume (source : Source Error UInt8) (sink : Sink) (role : Role) (limits : H2Limits) :
    Balanced (resume source sink role limits) [] where
  given := rfl
  held := rfl
  settings := rfl
  announced := rfl
  next := by
    show 0 < if role.isClient = true then 1 else 2
    split <;> exact Nat.succ_pos _
  stream id stream h := by cases h

end H2Connection

end Soyokaze

import Soyokaze.Protocol.H2.Ceilings

/-!
# Requests that the peer takes back

A request that was handed to the application costs it work, which is lost where the
peer ends the stream before the response is out. Only RST_STREAM is counted, of all that
a peer can end a stream with.

* `losses_bounded`: so many requests at most are lost, as long as the peer loses none by
  what is not counted;
* `losses_uncounted`: and it can lose any number of them by that.
-/

namespace Soyokaze

open H2

namespace H2Connection

variable {c c' : H2Connection} {h : List (Turn H2Connection Error Answer Move)} {t : Turn H2Connection Error Answer Move}
  {id : ℕ}

/-- What a turn hands to the application, and the stream that it came on. -/
def hands (t : Turn H2Connection Error Answer Move) : Option (ℕ × Message) :=
  match t.move, t.outcome with
  | .handle _ frame, .ok (.message (some m)) => some (frame.streamId, m)
  | .gathered _ id _, .ok (.message (some m)) => some (id, m)
  | _, _ => none

/-- Whether a request was handed to the application that came on a stream. -/
def delivered (h : List (Turn H2Connection Error Answer Move)) (id : ℕ) : Bool :=
  h.any fun t => (hands t).any fun handed => handed.1 == id && handed.2.isRequest

/-- The streams this end had still to send on, that it holds no more after a frame of its peer's. -/
def fallen (t : Turn H2Connection Error Answer Move) : List ℕ :=
  match t.move with
  | .handle .. | .gathered .. =>
    (t.before.streams.entries.filter fun entry =>
      entry.2.state.sendable && (t.after.streams.lookup entry.1).isNone).map (·.1)
  | _ => []

/-- The streams on which a request was lost: it was handed to the application, and the peer ended its stream
    before this end had finished sending. -/
def lost : List (Turn H2Connection Error Answer Move) → List ℕ
  | [] => []
  | t :: h => (fallen t).filter (delivered h) ++ lost h

/-- Whether a stream is there, of which something holds. -/
def holds (c : H2Connection) (id : ℕ) (p : H2Stream → Bool) : Bool := ((c.streams.lookup id).map p).getD false

/-- Whether the peer loses a request by what is not counted: credit or DATA that its stream has no room for, or
    another field section that ends a stream it had ended. -/
def provokes (h : List (Turn H2Connection Error Answer Move)) (t : Turn H2Connection Error Answer Move) : Bool :=
  match t.move with
  | .handle _ (.windowUpdate id increment) => delivered h id && holds t.before id fun stream =>
      stream.state.sendable && decide ((Settings.MAXIMUM_WINDOW_SIZE : ℤ) < stream.windowRemote + increment)
  | .handle _ (.data id _ data) => delivered h id && holds t.before id fun stream =>
      stream.state.sendable && decide (stream.windowLocal < data.length)
  | .handle _ (.headers id endStream _ _) | .gathered _ id endStream =>
    delivered h id && endStream && holds t.before id (·.state = .halfClosedRemote)
  | _ => false

/-! ## One turn -/

theorem holds_eq {stream : H2Stream} (hstream : c.streams.lookup id = some stream) (p : H2Stream → Bool) :
    holds c id p = p stream := by
  rw [holds, hstream]
  rfl

theorem mem_fallen (hid : id ∈ fallen t) : ∃ stream, t.before.streams.lookup id = some stream ∧
    stream.state.sendable = true ∧ t.after.streams.lookup id = none := by
  have hmem : id ∈ (t.before.streams.entries.filter fun entry =>
      entry.2.state.sendable && (t.after.streams.lookup entry.1).isNone).map (·.1) := by
    rw [fallen] at hid
    split at hid
    · exact hid
    · exact hid
    · cases hid
  obtain ⟨⟨id, stream⟩, hentry, rfl⟩ := List.mem_map.1 hmem
  obtain ⟨hentry, hgone⟩ := List.mem_filter.1 hentry
  obtain ⟨hsendable, hnone⟩ := Bool.and_eq_true_iff.1 hgone
  exact ⟨stream, AList.mem_lookup_iff.2 hentry, hsendable, Option.isNone_iff_eq_none.1 hnone⟩

/-- No request is lost where its stream is left. -/
theorem fallen_spared (hkept : ∀ id stream, delivered h id = true → t.before.streams.lookup id = some stream →
    stream.state.sendable = true → t.after.streams.lookup id ≠ none) : (fallen t).filter (delivered h) = [] := by
  refine List.filter_eq_nil_iff.2 fun id hid hdelivered => ?_
  obtain ⟨stream, hstream, hsendable, hgone⟩ := mem_fallen hid
  exact hkept id stream hdelivered hstream hsendable hgone

theorem nodup_fallen (t : Turn H2Connection Error Answer Move) : (fallen t).Nodup := by
  have hkeys := t.before.streams.nodupKeys
  rw [fallen]
  split
  · exact (List.filter_sublist.map _).nodup hkeys
  · exact (List.filter_sublist.map _).nodup hkeys
  · exact List.nodup_nil

/-- One stream falls at most where all others are left. -/
theorem fallen_le_one (hothers : ∀ other, other ≠ id → t.before.streams.lookup other ≠ none →
    t.after.streams.lookup other ≠ none) : (fallen t).length ≤ 1 := by
  refine (List.subperm_of_subset (nodup_fallen t) (fun other hother => ?_ : fallen t ⊆ [id])).length_le
  obtain ⟨stream, hstream, -, hnone⟩ := mem_fallen hother
  by_contra hne
  exact hothers other (fun heq => hne (heq ▸ List.mem_singleton_self _)) (by rw [hstream]; exact Option.some_ne_none _) hnone

/-! ## All turns -/

variable {limits' : H2Limits}

/-- What was lost was counted, and is not too much. -/
structure Numbered (limits : H2Limits) (h : List (Turn H2Connection Error Answer Move)) (c : H2Connection) : Prop where
  same : c.limits = limits
  losses : (lost h).length ≤ c.prematureResets
  bound : c.prematureResets ≤ limits.maxPrematureResets

/-- No request is lost. -/
theorem Numbered.kept (hnumbered : Numbered limits' h t.before) (hlimits : t.after.limits = t.before.limits)
    (hpremature : t.after.prematureResets = t.before.prematureResets) (hnone : (fallen t).filter (delivered h) = []) :
    Numbered limits' (t :: h) t.after := by
  refine ⟨hlimits.trans hnumbered.same, ?_, hpremature ▸ hnumbered.bound⟩
  rw [lost, hnone, List.nil_append, hpremature]
  exact hnumbered.losses

/-- One is lost at most, and was counted. -/
theorem Numbered.counted (hnumbered : Numbered limits' h t.before) (hmax : limits'.maxPrematureResets < 2 ^ 32 - 1)
    (hlimits : t.after.limits = t.before.limits)
    (hpremature : t.after.prematureResets = saturating 32 (t.before.prematureResets + 1))
    (hbound : t.after.prematureResets ≤ t.before.limits.maxPrematureResets)
    (hothers : ∀ other, other ≠ id → t.before.streams.lookup other ≠ none → t.after.streams.lookup other ≠ none) :
    Numbered limits' (t :: h) t.after := by
  have hone := fallen_le_one hothers
  have hfiltered := List.length_filter_le (delivered h) (fallen t)
  have hlosses := hnumbered.losses
  rw [hnumbered.same] at hbound
  refine ⟨hlimits.trans hnumbered.same, ?_, hbound⟩
  rw [lost, List.length_append]
  rw [hpremature, saturating] at hbound ⊢
  omega

/-- What comes to a stream drops it where this end had still to send on it only if the peer ends it for a
    second time. -/
theorem Comes.kept {endStream : Bool} {stream : H2Stream} {other : ℕ} (hcomes : Comes id endStream c c')
    (hstream : c.streams.lookup other = some stream) (hsendable : stream.state.sendable = true)
    (hagain : other = id → endStream = true → stream.state ≠ .halfClosedRemote) : c'.streams.lookup other ≠ none := by
  by_cases hother : other = id
  · subst hother
    intro hnone
    obtain ⟨hend, hclosed⟩ := hcomes.dropped hnone stream hstream hsendable
    exact hagain rfl hend hclosed
  · rw [hcomes.others other hother, hstream]
    exact Option.some_ne_none _

theorem StreamState.not_receivable_halfClosedRemote {state : StreamState} (h : state.receivable = true) :
    state ≠ .halfClosedRemote := by
  rintro rfl
  cases h

theorem Numbered.handled (hmax : limits'.maxPrematureResets < 2 ^ 32 - 1) {world : World} {frame : Frame}
    {m : Option Message} (hnumbered : Numbered limits' h c)
    (hprovokes : provokes h ⟨.handle world frame, c, .ok (.message m), c'⟩ = false) (hhandled : Handled c frame m c') :
    Numbered limits' (⟨.handle world frame, c, .ok (.message m), c'⟩ :: h) c' := by
  -- Where all streams are left that this end had to send on.
  have hkept (hlimits : c'.limits = c.limits) (hpremature : c'.prematureResets = c.prematureResets)
      (hnone : ∀ id stream, delivered h id = true → c.streams.lookup id = some stream →
        stream.state.sendable = true → c'.streams.lookup id ≠ none) :
      Numbered limits' (⟨.handle world frame, c, .ok (.message m), c'⟩ :: h) c' :=
    Numbered.kept (t := ⟨.handle world frame, c, .ok (.message m), c'⟩) hnumbered hlimits hpremature (fallen_spared hnone)
  have hsame (hlimits : c'.limits = c.limits) (hpremature : c'.prematureResets = c.prematureResets)
      (hstreams : c'.streams = c.streams) : Numbered limits' (⟨.handle world frame, c, .ok (.message m), c'⟩ :: h) c' := by
    refine hkept hlimits hpremature fun id stream _ hstream _ => ?_
    rw [hstreams, hstream]
    exact Option.some_ne_none _
  cases hhandled with
  | plain frames kind counted view =>
    exact hsame (congrArg View.limits view) (congrArg View.prematureResets view) (congrArg View.streams view)
  | settings frames settings counted applied view =>
    refine hkept (congrArg View.limits view) (congrArg View.prematureResets view) fun id stream _ hstream _ => ?_
    rw [show c'.streams = c'.view.streams from rfl, view, StreamMap.lookup_mapValues, hstream]
    exact Option.some_ne_none _
  | connection frames room counts view =>
    exact hsame (congrArg View.limits view) (congrArg View.prematureResets view) (congrArg View.streams view)
  | stray frames zero gone counted view =>
    exact hsame (congrArg View.limits view) (congrArg View.prematureResets view) (congrArg View.streams view)
  | @overflow id increment _ stream zero held past view gone others =>
    refine hkept (congrArg View.limits view) (congrArg View.prematureResets view)
      fun other stream' hdelivered hstream hsendable => ?_
    by_cases hother : other = id
    · -- The peer had no room for the credit.
      subst hother
      obtain rfl := Option.some.inj (held.symm.trans hstream)
      simp [provokes, hdelivered, holds_eq held, hsendable, past] at hprovokes
    · rw [others other hother, hstream]
      exact Option.some_ne_none _
  | @credit id increment _ stream frames zero held room counts view =>
    refine hkept (congrArg View.limits view) (congrArg View.prematureResets view) fun other stream' _ hstream _ => ?_
    rw [show c'.streams = c'.view.streams from rfl, view, StreamMap.lookup_modify, hstream]
    split_ifs <;> exact Option.some_ne_none _
  | @reset id code _ frames premature counted view tallied =>
    have hpremature : c'.prematureResets = premature := congrArg View.prematureResets view
    have hstreams : c'.streams = c.streams.erase id := congrArg View.streams view
    have hothers : ∀ other, other ≠ id → c.streams.lookup other ≠ none → c'.streams.lookup other ≠ none := by
      intro other hother hheld
      rwa [hstreams, AList.lookup_erase_ne hother]
    split_ifs at tallied with hsendable
    · exact Numbered.counted (t := ⟨.handle world (.rstStream id code), c, .ok (.message none), c'⟩) hnumbered hmax
        (congrArg View.limits view) (hpremature.trans tallied.1) (hpremature.le.trans tallied.2) hothers
    · refine hkept (congrArg View.limits view) (hpremature.trans tallied) fun other stream _ hstream hsends => ?_
      refine hothers other (fun hother => hsendable ?_) (by rw [hstream]; exact Option.some_ne_none _)
      rw [← hother, hstream]
      exact hsends
  | @exceeded id endStream data _ stream frames held past counts view gone others =>
    refine hkept (congrArg View.limits view) (congrArg View.prematureResets view)
      fun other stream' hdelivered hstream hsendable => ?_
    by_cases hother : other = id
    · -- The peer had no credit for the DATA.
      subst hother
      obtain rfl := Option.some.inj (held.symm.trans hstream)
      simp [provokes, hdelivered, holds_eq held, hsendable, past] at hprovokes
    · rw [others other hother, hstream]
      exact Option.some_ne_none _
  | @data id endStream data _ _ stream frames held receivable counts comes =>
    refine hkept (congrArg View.limits comes.view) (congrArg View.prematureResets comes.view)
      fun other stream' _ hstream hsendable => comes.kept hstream hsendable ?_
    rintro rfl -
    obtain rfl := Option.some.inj (held.symm.trans hstream)
    exact StreamState.not_receivable_halfClosedRemote receivable
  | @headers id endStream block _ _ begun begins held comes =>
    have hview : begun.limits = c.limits ∧ begun.prematureResets = c.prematureResets ∧
        ∀ other stream, c.streams.lookup other = some stream → begun.streams.lookup other = some stream := by
      rcases beginStream_ok begins with ⟨hsame, -⟩ | ⟨hnone, -, -, -, hview⟩
      · rw [hsame]
        exact ⟨rfl, rfl, fun _ _ hstream => hstream⟩
      · refine ⟨congrArg View.limits hview, congrArg View.prematureResets hview, fun other stream hstream => ?_⟩
        have hother : other ≠ id := by
          rintro rfl
          cases hnone.symm.trans hstream
        rw [show begun.streams = begun.view.streams from rfl, hview, AList.lookup_insert_ne hother, hstream]
    obtain ⟨hlimits, hpremature, hthere⟩ := hview
    refine hkept ((congrArg View.limits comes.view).trans hlimits) ((congrArg View.prematureResets comes.view).trans hpremature)
      fun other stream hdelivered hstream hsendable => comes.kept (hthere other stream hstream) hsendable ?_
    rintro rfl rfl hclosed
    simp [provokes, hdelivered, holds_eq hstream, hclosed] at hprovokes

theorem Numbered.turned (hnumbered : Numbered limits' h t.before) (hmax : limits'.maxPrematureResets < 2 ^ 32 - 1)
    (hprovokes : provokes h t = false) (hturned : Yielded t.before t.move t.outcome t.after) :
    Numbered limits' (t :: h) t.after := by
  have hquiet (hlimits : t.after.limits = t.before.limits) (hpremature : t.after.prematureResets = t.before.prematureResets)
      (hnone : fallen t = []) : Numbered limits' (t :: h) t.after :=
    hnumbered.kept hlimits hpremature (by rw [hnone]; rfl)
  obtain ⟨move, c, outcome, c'⟩ := t
  cases hturned with
  | waned quiet wanes =>
    refine hquiet (congrArg View.limits wanes.view) (congrArg View.prematureResets wanes.view) ?_
    rcases quiet with hown | ⟨m, rfl⟩
    · cases move <;> first | rfl | cases hown
    · rfl
  | begun begins =>
    rcases beginStream_ok begins with ⟨hsame, -⟩ | ⟨-, -, -, -, hview⟩
    · exact hquiet (congrArg H2Connection.limits hsame) (congrArg H2Connection.prematureResets hsame) rfl
    · exact hquiet (congrArg View.limits hview) (congrArg View.prematureResets hview) rfl
  | handled m handled => exact hnumbered.handled hmax hprovokes handled
  | @gathered world id endStream _ m held comes =>
    refine hnumbered.kept (congrArg View.limits comes.view) (congrArg View.prematureResets comes.view)
      (fallen_spared fun other stream hdelivered hstream hsendable => comes.kept hstream hsendable ?_)
    rintro rfl rfl hclosed
    simp [provokes, hdelivered, holds_eq hstream, hclosed] at hprovokes
  | opened view => exact hquiet (congrArg View.limits view) (congrArg View.prematureResets view) rfl
  | closed view => exact hquiet (congrArg View.limits view) (congrArg View.prematureResets view) rfl

variable (source : Source Error UInt8) (sink : Sink) (role : Role) (limits : H2Limits)
  (requestFinalizer : RequestFinalizer) (responseFinalizer : ResponseFinalizer) (secure : Bool)

/-- Whatever comes to pass, no more requests are lost than may be, as long as the peer loses none by what is not
    counted. -/
theorem losses_bounded
    (hcourse : Course moves (configured source sink role limits requestFinalizer responseFinalizer secure) h c)
    (hclear : moves.Clear h) (hmax : limits.maxPrematureResets < 2 ^ 32 - 1)
    (hnever : Turn.along (fun earlier t => !provokes earlier t) h = true) : (lost h).length ≤ limits.maxPrematureResets := by
  have hall : Numbered limits h c := by
    refine hcourse.induct (Numbered limits) (fun earlier t => (!provokes earlier t) = true) ⟨rfl, le_rfl, Nat.zero_le _⟩ ?_
      hclear fun _ _ _ => Turn.of_along hnever
    intro earlier c t hnumbered _ hbefore htook hgoes hmeets
    subst hbefore
    exact hnumbered.turned hmax (Bool.not_eq_true' _ ▸ hmeets) (yielded htook hgoes)
  exact hall.losses.trans hall.bound

/-- The ceilings, but that only so many requests may be taken back. -/
def lenient (resets : ℕ) : H2Limits := { H2Limits.default with maxPrematureResets := resets }

/-- The field section of a request. -/
def asking : Octets :=
  (Hpack.Encoder.new.encode [.lit ":method" "GET", .lit ":scheme" "https", .lit ":path" "/", .lit ":authority" "a"]).2

/-- A request is taken back. -/
def withdrawn : List Move := [.handle .bare (.headers 1 true true asking), .handle .bare (.rstStream 1 8)]

theorem losses_bounded_withdrawn :
    (lost (moves.played withdrawn (configured (posted []) ⟨[], []⟩ .origin (lenient 1) ⟨none⟩ ⟨none⟩ true)).1).length ≤ 1 := by
  have hclear := clear_of_goesOn (h := (moves.played withdrawn
    (configured (posted []) ⟨[], []⟩ .origin (lenient 1) ⟨none⟩ ⟨none⟩ true)).1) (by decide +kernel)
  exact losses_bounded (posted []) ⟨[], []⟩ .origin (lenient 1) ⟨none⟩ ⟨none⟩ true (.played hclear) hclear (by decide)
    (by decide +kernel)

/-- A request, and credit that its stream has no room for. -/
def overpaid : Source Error UInt8 where
  data := PREFACE ++ (Frame.settings false []).encode ++ (Frame.headers 1 true true asking).encode ++
    (Frame.windowUpdate 1 Settings.MAXIMUM_WINDOW_SIZE).encode
  eof := false
  reads := []

/-- Where none may be lost, the request is, and the connection goes on with nothing counted. -/
theorem losses_uncounted :
    let start := configured overpaid ⟨[], []⟩ .origin (lenient 0) ⟨none⟩ ⟨none⟩ true
    let c := after [(.bare, .receive), (.bare, .pump)] start
    (¬c.Failed ∧ c.source.data = [] ∧ c.streams.entries = [] ∧ c.prematureResets = 0) ∧
      ∃ h c', Course moves start h c' ∧ moves.Clear h ∧ lost h = [1] ∧ c'.streams.entries = [] := by
  intro start c
  have hclear := clear_of_goesOn (h := (moves.played [.start, .flushResets, .read, .handle .bare (.settings false []),
    .read, .handle .bare (.headers 1 true true asking), .read,
    .handle .bare (.windowUpdate 1 Settings.MAXIMUM_WINDOW_SIZE)] start).1) (by decide +kernel)
  exact ⟨by decide +kernel, _, _, .played hclear, hclear, by decide +kernel, by decide +kernel⟩

end H2Connection

end Soyokaze

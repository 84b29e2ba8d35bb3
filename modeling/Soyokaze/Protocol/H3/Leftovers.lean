import Soyokaze.Protocol.H3.Moves
import Soyokaze.Protocol.H3.Revival

/-!
# What is left of a stream

Once both ends of a stream have passed, or it was reset, there should be nothing of it:
no state in the session, no block held to be blocked, no tunnel, nothing waiting to be
sent. Every stream is `Clean` in this respect in a run whose moves all meet `Meets`,
which leaves out what the worker does not provide for: above all, a Reset of a stream the
session still holds, a tunnel joined to a stream that has ended, and whatever begins a
stream again that was there before.

* `H3Worker.over_leaves_nothing`: of a stream that is over nothing is left, unless it is
  one on which a tunnel was asked for and refused.
-/

namespace Soyokaze

open H3

namespace H3.Trace

variable {t t' : Trace}

/-! ## What is left, and what may be -/

/-- There is nothing of the stream. -/
structure Gone (t : Trace) : Prop where
  slot : t.slot = ⟨none, false, false⟩
  tunnel : t.tunnel = false
  outbound : t.outbound = none

/-- Both ends of the stream have passed, nothing is waiting to be sent on it, and what arrived on it
    was taken up. -/
structure Over (t : Trace) : Prop where
  ended : t.ended = true
  finished : t.finished = true
  outbound : t.outbound.getD ([], false) = ([], false)
  pending : ∀ state, t.slot.state = some state → state.pending = none

/-- A tunnel was asked for on the stream, and this end has finished without there being one. -/
def Refused (t : Trace) : Prop :=
  ∃ state, t.slot.state = some state ∧ state.raw = true ∧ state.finished = true ∧ t.tunnel = false

/-- Nothing of the stream has come or gone. -/
structure Fresh (t : Trace) : Prop where
  ended : t.ended = false
  finished : t.finished = false
  cut : t.cut = false
  outbound : t.outbound = none

/-- This end of the stream was sent, or is waiting to be. -/
def Ends (t : Trace) : Prop := t.finished = true ∨ ∃ buffer, t.outbound = some (buffer, true)

/-- What is waiting to be sent is something. -/
def Live (t : Trace) : Prop := ∀ buffer fin, t.outbound = some (buffer, fin) → buffer ≠ [] ∨ fin = true

/-- How a stream is found between one move and the next. -/
structure Clean (t : Trace) : Prop where
  tidy : t.slot.Tidy
  tunnel : t.tunnel = true → t.ended = false ∧ t.cut = false
  held : ∀ state, t.slot.state = some state → state.eof = t.ended ∧ t.cut = false
  ends : t.Ends → ∀ state, t.slot.state = some state → state.finished = true ∨ t.tunnel = true
  live : t.Live
  cut : t.cut = true → t.outbound = none

/-- Where a stream has no state there is nothing of it in the session. -/
theorem Clean.slot_of_none (h : t.Clean) (hnone : t.slot.state = none) : t.slot = ⟨none, false, false⟩ := by
  have hneither : ¬(t.slot.blocked = true ∨ t.slot.since = true) := by
    intro hrooted
    obtain ⟨state, hstate, -⟩ := h.tidy.rooted hrooted
    rw [hnone] at hstate
    cases hstate
  obtain ⟨hblocked, hsince⟩ := not_or.1 hneither
  rcases hslot : t.slot with ⟨state, blocked, since⟩
  rw [hslot] at hnone hblocked hsince
  rw [Slot.mk.injEq]
  exact ⟨hnone, Bool.eq_false_of_not_eq_true hblocked, Bool.eq_false_of_not_eq_true hsince⟩

/-- A stream that was reset has left nothing. -/
theorem Clean.gone_of_cut (h : t.Clean) (hcut : t.cut = true) : t.Gone where
  slot := by
    refine h.slot_of_none (Option.eq_none_iff_forall_ne_some.2 fun state hstate => ?_)
    exact Bool.false_ne_true ((h.held state hstate).2.symm.trans hcut)
  tunnel := by
    rw [Bool.eq_false_iff]
    exact fun htunnel => Bool.false_ne_true ((h.tunnel htunnel).2.symm.trans hcut)
  outbound := h.cut hcut

/-- A stream that is over has left nothing, unless a tunnel was refused on it. -/
theorem Clean.gone_iff_of_over (h : t.Clean) (hover : t.Over) : t.Gone ↔ ¬t.Refused := by
  have htunnel : t.tunnel = false := by
    rw [Bool.eq_false_iff]
    exact fun htunnel => Bool.false_ne_true ((h.tunnel htunnel).1.symm.trans hover.ended)
  constructor
  · rintro hgone ⟨state, hstate, -⟩
    rw [hgone.slot] at hstate
    cases hstate
  · intro hrefused
    refine ⟨h.slot_of_none (Option.eq_none_iff_forall_ne_some.2 fun state hstate => ?_), htunnel, ?_⟩
    · obtain ⟨heof, -⟩ := h.held state hstate
      have hsettled := h.tidy.settled state hstate
      have hfinished : state.finished = true := by
        refine (h.ends (.inl hover.finished) state hstate).resolve_right fun htrue => ?_
        exact Bool.false_ne_true (htunnel.symm.trans htrue)
      -- If it were not raw, its message would have been delivered, and the stream be spent.
      cases hraw : state.raw with
      | true => exact hrefused ⟨state, hstate, hraw, hfinished, htunnel⟩
      | false =>
        have hdelivered := (hsettled.eof (heof.trans hover.ended) (hover.pending state hstate)).resolve_left
          (by rw [hraw]; exact Bool.false_ne_true)
        have hspent := hsettled.spent
        rw [StreamState.spent, hfinished, heof, hover.ended, hdelivered, hraw] at hspent
        cases hspent
    · rcases houtbound : t.outbound with _ | ⟨buffer, fin⟩
      · rfl
      · have hwaiting := hover.outbound
        rw [houtbound, Option.getD_some, Prod.mk.injEq] at hwaiting
        obtain hbuffer | hfin := h.live buffer fin houtbound
        · exact absurd hwaiting.1 hbuffer
        · exact absurd (hwaiting.2.symm.trans hfin) Bool.false_ne_true

theorem Gone.clean (h : t.Gone) : t.Clean where
  tidy := by
    have hcame : t.slot.Came false false := .inl h.slot
    exact hcame.tidy
  tunnel := fun htunnel => absurd (h.tunnel.symm.trans htunnel) Bool.false_ne_true
  held := by
    intro state hstate
    rw [h.slot] at hstate
    cases hstate
  ends := by
    intro _ state hstate
    rw [h.slot] at hstate
    cases hstate
  live := by
    intro buffer fin houtbound
    rw [h.outbound] at houtbound
    cases houtbound
  cut := fun _ => h.outbound

/-! ## What is waiting to be sent -/

/-- The transport was offered what was waiting. -/
structure Drains (t t' : Trace) : Prop where
  slot : t'.slot = t.slot
  tunnel : t'.tunnel = t.tunnel
  ended : t'.ended = t.ended
  cut : t'.cut = t.cut
  ends : t'.Ends → t.Ends
  live : t.Live → t'.Live
  outbound : t.outbound = none → t'.outbound = none

theorem Drains.refl (t : Trace) : t.Drains t := ⟨rfl, rfl, rfl, rfl, fun h => h, fun h => h, fun h => h⟩

theorem Drains.trans {t'' : Trace} (h : t.Drains t') (h' : t'.Drains t'') : t.Drains t'' :=
  ⟨h'.slot.trans h.slot, h'.tunnel.trans h.tunnel, h'.ended.trans h.ended, h'.cut.trans h.cut,
    fun hends => h.ends (h'.ends hends), fun hlive => h'.live (h.live hlive), fun hnone => h'.outbound (h.outbound hnone)⟩

theorem drains_dropped (t : Trace) : t.Drains { t with outbound := none } where
  slot := rfl
  tunnel := rfl
  ended := rfl
  cut := rfl
  ends := by
    rintro (hfinished | ⟨_, houtbound⟩)
    · exact .inl hfinished
    · cases houtbound
  live := fun _ _ _ houtbound => by cases houtbound
  outbound := fun _ => rfl

/-- What is taken off the front leaves the rest behind it, and the end with that. -/
theorem drains_sent {buffer rest : Octets} {fin : Bool} (h : t.outbound = some (buffer, fin)) : t.Drains { t with
    outbound := if rest.isEmpty then none else some (rest, fin), finished := (fin && rest.isEmpty) || t.finished } where
  slot := rfl
  tunnel := rfl
  ended := rfl
  cut := rfl
  ends := by
    rintro (hfinished | ⟨left, houtbound⟩)
    · obtain hall | hfinished := Bool.or_eq_true_iff.1 hfinished
      · exact .inr ⟨buffer, by rw [h, (Bool.and_eq_true_iff.1 hall).1]⟩
      · exact .inl hfinished
    · dsimp only at houtbound
      split_ifs at houtbound
      cases houtbound
      exact .inr ⟨buffer, h⟩
  live := by
    intro _ left ends houtbound
    dsimp only at houtbound
    split_ifs at houtbound with hempty
    cases houtbound
    exact .inl fun hnil => hempty (List.isEmpty_iff.2 hnil)
  outbound := by
    intro hnone
    rw [h] at hnone
    cases hnone

theorem Clean.drains (h : t.Clean) (hdrains : t.Drains t') : t'.Clean where
  tidy := by
    rw [hdrains.slot]
    exact h.tidy
  tunnel := by
    rw [hdrains.tunnel, hdrains.ended, hdrains.cut]
    exact h.tunnel
  held := by
    rw [hdrains.slot, hdrains.ended, hdrains.cut]
    exact h.held
  ends := by
    rw [hdrains.slot, hdrains.tunnel]
    exact fun hends => h.ends (hdrains.ends hends)
  live := hdrains.live h.live
  cut := by
    rw [hdrains.cut]
    exact fun hcut => hdrains.outbound (h.cut hcut)

/-- Octets were put behind what was waiting. -/
def queued (t : Trace) (octets : Octets) (fin : Bool) : Trace := { t with
  outbound := some ((t.outbound.getD ([], false)).1 ++ octets, (t.outbound.getD ([], false)).2 || fin) }

theorem live_queued {octets : Octets} {fin : Bool} (hsome : octets ≠ [] ∨ fin = true) : (t.queued octets fin).Live := by
  intro buffer ends houtbound
  cases houtbound
  obtain hoctets | rfl := hsome
  · exact .inl fun hnil => hoctets (List.append_eq_nil_iff.1 hnil).2
  · exact .inr (Bool.or_true _)

theorem ends_of_queued {octets : Octets} {fin : Bool} (h : (t.queued octets fin).Ends) : t.Ends ∨ fin = true := by
  obtain hfinished | ⟨buffer, houtbound⟩ := h
  · exact .inl (.inl hfinished)
  · obtain hwas | hfin := Bool.or_eq_true_iff.1 (congrArg Prod.snd (Option.some.inj houtbound))
    · rcases hlookup : t.outbound with _ | ⟨waiting, ends⟩
      · rw [hlookup] at hwas
        cases hwas
      · rw [hlookup, Option.getD_some] at hwas
        exact .inl (.inr ⟨waiting, by rw [hlookup, ← hwas]⟩)
    · exact .inr hfin

theorem Clean.queued {octets : Octets} {fin : Bool} (h : t.Clean) (hsome : octets ≠ [] ∨ fin = true)
    (hcut : t.cut = false)
    (hfin : fin = true → ∀ state, t.slot.state = some state → state.finished = true ∨ t.tunnel = true) :
    (t.queued octets fin).Clean :=
  { h with
    ends := fun hends => (ends_of_queued hends).elim h.ends hfin
    live := live_queued hsome
    cut := fun htrue => absurd (hcut.symm.trans htrue) Bool.false_ne_true }

/-! ## Streams that are begun, or go on -/

/-- The stream is there already, or nothing of it has come or gone. -/
def Begins (t : Trace) : Prop := t.slot.state.isSome = true ∨ t.Fresh

/-- What can be told of a stream that is there, or is begun as one nothing has passed over. -/
structure Based (t : Trace) (state : StreamState) : Prop where
  eof : state.eof = t.ended
  cut : t.cut = false
  ends : t.Ends → state.finished = true ∨ t.tunnel = true
  settled : state.Settled
  rooted : t.slot.blocked = true ∨ t.slot.since = true → state.pending.isSome = true

theorem Clean.based (h : t.Clean) (hbegins : t.Begins) : t.Based (t.slot.state.getD .new) := by
  rcases hstate : t.slot.state with _ | state
  · have hfresh := hbegins.resolve_left (by rw [hstate]; exact Bool.false_ne_true)
    refine ⟨hfresh.ended.symm, hfresh.cut, ?_, StreamState.settled_new, fun hrooted => ?_⟩
    · rintro (hfinished | ⟨buffer, houtbound⟩)
      · exact absurd (hfresh.finished.symm.trans hfinished) Bool.false_ne_true
      · rw [hfresh.outbound] at houtbound
        cases houtbound
    · obtain ⟨pended, hpended, -⟩ := h.tidy.rooted hrooted
      rw [hstate] at hpended
      cases hpended
  · refine ⟨(h.held state hstate).1, (h.held state hstate).2, fun hends => h.ends hends state hstate,
      h.tidy.settled state hstate, fun hrooted => ?_⟩
    obtain ⟨pended, hpended, hsome⟩ := h.tidy.rooted hrooted
    cases hstate.symm.trans hpended
    exact hsome

/-- What parsing and sending leave of a stream is clean, if the stream is ended for the session where
    its ends have passed. -/
theorem clean_of_came {eof finished : Bool} (hcame : t.slot.Came eof finished) (hcut : t.cut = false)
    (heof : eof = t.ended) (htunnel : t.tunnel = true → t.ended = false)
    (hends : t.Ends → finished = true ∨ t.tunnel = true) (hlive : t.Live) :
    t.Clean where
  tidy := hcame.tidy
  tunnel := fun htrue => ⟨htunnel htrue, hcut⟩
  held := by
    intro state hstate
    obtain hnone | ⟨found, hfound, -, hsame, -⟩ := hcame
    · rw [hnone] at hstate
      cases hstate
    · cases hfound.symm.trans hstate
      exact ⟨hsame.trans heof, hcut⟩
  ends := by
    intro hended state hstate
    obtain hnone | ⟨found, hfound, -, -, hsame, -⟩ := hcame
    · rw [hnone] at hstate
      cases hstate
    · cases hfound.symm.trans hstate
      rw [hsame]
      exact hends hended
  live := hlive
  cut := fun htrue => absurd (hcut.symm.trans htrue) Bool.false_ne_true

/-- A stream of which the session has nothing may have ended. -/
theorem clean_of_nothing (hslot : t.slot = ⟨none, false, false⟩) (hcut : t.cut = false)
    (htunnel : t.tunnel = true → t.ended = false) (hlive : t.Live) : t.Clean := by
  have hcame : t.slot.Came t.ended true := .inl hslot
  exact clean_of_came hcame hcut rfl htunnel (fun _ => .inl rfl) hlive

end H3.Trace

/-! ## What sending does to a stream -/

namespace H3Session

/-- What sending a message makes of its stream: no more than that this end may have finished. -/
structure Sent (fin : Bool) (state state' : StreamState) : Prop where
  eof : state'.eof = state.eof
  delivered : state'.delivered = state.delivered
  pending : state'.pending = state.pending
  raw : state'.raw = state.raw
  finished : state'.finished = (state.finished || fin)

theorem writeTrailers_aside (id : ℕ) (trailers : Option Headers) (s : H3Session) :
    ((writeTrailers id trailers).run s).2.streams = s.streams ∧
      ((writeTrailers id trailers).run s).2.decoder.blocked = s.decoder.blocked ∧
      ((writeTrailers id trailers).run s).2.blockedSince = s.blockedSince := by
  cases trailers with
  | none => exact ⟨rfl, rfl, rfl⟩
  | some trailers =>
    rw [writeTrailers]
    split_ifs <;> exact ⟨rfl, rfl, rfl⟩

theorem frameMessage_sent {world : World} {id : ℕ} {m : Message} {s s' : H3Session} {octets : Octets} {fin : Bool}
    (hrun : (frameMessage world id m).run s = (.ok (octets, fin), s')) : ∃ state,
      s'.slot id = { s.slot id with state := some state } ∧ Sent fin ((s.streams.lookup id).getD .new) state := by
  obtain ⟨_, s₁, hget, hrest₁⟩ := Act.of_run_bind_ok hrun
  obtain ⟨m', s₂, hcompress, hrest₂⟩ := Act.of_run_bind_ok hrest₁
  obtain ⟨fields, s₃, hfields, hrest₃⟩ := Act.of_run_bind_ok hrest₂
  obtain ⟨head, s₄, hhead, hrest₄⟩ := Act.of_run_bind_ok hrest₃
  obtain ⟨body, s₅, hbody, hrest₅⟩ := Act.of_run_bind_ok hrest₄
  obtain ⟨trailers, s₆, htrailers, hrest₆⟩ := Act.of_run_bind_ok hrest₅
  obtain ⟨_, s₇, hentry, hrest₇⟩ := Act.of_run_bind_ok hrest₆
  obtain ⟨_, s₈, hmethod, hrest₈⟩ := Act.of_run_bind_ok hrest₇
  obtain ⟨state, s₉, hstream, hrest₉⟩ := Act.of_run_bind_ok hrest₈
  obtain ⟨_, s₁₀, hfinish, hlast⟩ := Act.of_run_bind_ok hrest₉
  have hslot : s₆.slot id = s.slot id := by
    cases hget
    cases congrArg Prod.snd hcompress
    cases congrArg Prod.snd hfields
    cases congrArg Prod.snd hbody
    rw [slot_of_eq (writeTrailers_aside id _) htrailers]
    cases hhead
    rfl
  have hlookup : s₆.streams.lookup id = s.streams.lookup id := congrArg Slot.state hslot
  have hentered := slot_entry id s₆
  rw [hentry, hslot, hlookup] at hentered
  have hchanged := slot_modifyStream id (fun state => if m'.isRequest then { state with method := m'.method } else state) s₇
  rw [hmethod, hentered] at hchanged
  have hstate : s₈.streams.lookup id = some _ := congrArg Slot.state hchanged
  rw [run_stream hstate] at hstream
  obtain ⟨hanswer, rfl⟩ := Prod.mk.inj hstream
  have hleft := slot_modifyStream id (fun other => { other with finished := other.finished || !m'.tunneling state.method }) s₈
  rw [hfinish, hchanged] at hleft
  cases hlast
  refine ⟨_, hleft, ?_⟩
  dsimp only
  split_ifs <;> exact ⟨rfl, rfl, rfl, rfl, rfl⟩

end H3Session

namespace H3Worker

variable {world : World} {w w' : H3Worker} {id : ℕ}

open Trace

/-- The transport was offered what was waiting on a stream. -/
def Drained (id : ℕ) (w w' : H3Worker) : Prop := (w.trace id).Drains (w'.trace id)

theorem drained_of_traceless (h : Traceless w w') : Drained id w w' := by
  rw [Drained, h.trace]
  exact .refl _

theorem trace_takeSent (id count : ℕ) (buffer : Octets) (fin : Bool) (w : H3Worker) :
    ((takeSent id count buffer fin).run w).2.trace id = { w.trace id with
      outbound := if (buffer.drop count).isEmpty then none else some (buffer.drop count, fin)
      finished := (fin && (buffer.drop count).isEmpty) || (w.trace id).finished } := by
  simp only [takeSent, Act.run_modify, trace, List.any_cons, Passage.ends, Passage.finishes, Passage.cuts, beq_self_eq_true,
    Bool.true_and, Bool.false_or]
  split_ifs
  · rw [AList.lookup_erase]
  · rw [AList.lookup_insert]

theorem trace_dropOutbound (id : ℕ) (w : H3Worker) :
    ((dropOutbound id).run w).2.trace id = { w.trace id with outbound := none } := by
  simp only [dropOutbound, Act.run_modify]
  split
  · simp only [trace, List.any_cons, Passage.ends, Passage.finishes, Passage.cuts, Bool.false_or, AList.lookup_erase]
  · next hnone => simp only [trace, hnone]

theorem trace_enqueue (id : ℕ) (octets : Octets) (fin : Bool) (w : H3Worker) :
    ((enqueue id octets fin).run w).2.trace id = (w.trace id).queued octets fin := by
  simp only [enqueue, Act.run_modify, trace, List.any_cons, Passage.ends, Passage.finishes, Passage.cuts, Bool.false_or,
    AList.lookup_insert, Trace.queued, waiting]

/-- The transport takes something off the front of what is waiting, or nothing; or what is waiting is
    dropped. -/
theorem drained_flushStream (id : ℕ) (w : H3Worker) : Drained id w ((flushStream id).run w).2 := by
  rw [flushStream, Act.run_bind_ok (Act.run_get w)]
  split
  · exact .refl _
  · next buffer fin hlookup =>
    split_ifs with hnothing
    · exact .refl _
    · rw [Act.run_bind]
      rcases hoffer : (offer buffer).run w with ⟨error | outcome, w₁⟩
      · exact drained_of_traceless ((tracelessly_offer buffer).run hoffer)
      · have hsame := (tracelessly_offer buffer).run hoffer
        refine (drained_of_traceless hsame).trans ?_
        cases outcome with
        | blocked => exact .refl _
        | stopped code =>
          have hdropped : Act.Keeps (Drained id) (dropOutbound id) := fun w => by
            rw [Drained, trace_dropOutbound]
            exact drains_dropped _
          have htold (event : H3Event) : Act.Keeps (Drained id) (do let _ ← tell event) :=
            @Act.Keeps.bind _ _ _ _ (Drained id) Drains.trans _ _ (fun w => drained_of_traceless (tracelessly_tell event w))
              fun _ _ => .refl _
          exact @Act.Keeps.bind _ _ _ _ (Drained id) Drains.trans _ _ hdropped (fun _ => htold _) w₁
        | sent count =>
          dsimp only
          rw [trace_takeSent]
          exact drains_sent ((congrArg Trace.outbound (hsame.trace id)).trans hlookup)

/-! ## Between one move and the next -/

/-- How a worker is found between one move and the next. -/
structure Orderly (w : H3Worker) : Prop where
  distinct : w.session.decoder.Distinct
  clean : ∀ id, (w.trace id).Clean

theorem Orderly.session (h : Orderly w) : w.session.Tidy := ⟨h.distinct, fun id => (h.clean id).tidy⟩

/-- A step for one stream leaves a worker orderly where it leaves that stream clean. -/
theorem Orderly.elsewhere (h : Orderly w) (helse : Elsewhere id w w') (hid : (w'.trace id).Clean) : Orderly w' := by
  refine ⟨helse.distinct h.distinct, fun other => ?_⟩
  by_cases hne : other = id
  · rw [hne]
    exact hid
  · rw [helse.others other hne]
    exact h.clean other

theorem Orderly.traceless (h : Orderly w) (hless : Traceless w w') : Orderly w' := by
  have helse : Elsewhere 0 w w' := hless.elsewhere
  refine h.elsewhere helse ?_
  rw [hless.trace]
  exact h.clean 0

theorem orderly_new (role : Role) (limits : H3Limits) (transport : QUICTransport) (events : Mailbox) :
    Orderly (new (.new role limits) transport events) := by
  exact ⟨H3Session.distinct_new role limits, fun id => Gone.clean ⟨H3Session.slot_new role limits id, rfl, rfl⟩⟩

theorem Orderly.flush (h : Orderly w) (id : ℕ) : Orderly ((flushStream id).run w).2 :=
  h.elsewhere (minds_flushStream w) ((h.clean id).drains (drained_flushStream id w))

/-- Octets are written behind what is waiting: some octets, or the end of the stream, and that only
    where it is the end of the stream for the session as well. -/
theorem Orderly.write (h : Orderly w) {octets : Octets} {fin : Bool} (hsome : octets ≠ [] ∨ fin = true)
    (hcut : (w.trace id).cut = false)
    (hfin : fin = true → ∀ state, (w.trace id).slot.state = some state →
      state.finished = true ∨ (w.trace id).tunnel = true) :
    Orderly ((write id octets fin).run w).2 := by
  have hqueued : Orderly ((enqueue id octets fin).run w).2 := by
    refine h.elsewhere (minds_enqueue octets fin w) ?_
    rw [trace_enqueue]
    exact (h.clean id).queued hsome hcut hfin
  exact hqueued.flush id

/-- Octets that end nothing are written. -/
theorem Orderly.write_on (h : Orderly w) {octets : Octets} (hsome : octets ≠ []) (hcut : (w.trace id).cut = false) :
    Orderly ((H3Worker.write id octets false).run w).2 :=
  h.write (.inl hsome) hcut fun hfin => absurd hfin Bool.false_ne_true

theorem Orderly.goaway (h : Orderly w) (hcut : (w.trace w.localControl).cut = false) : Orderly (goaway.run w).2 := by
  rw [H3Worker.goaway, Act.run_bind_ok (Act.run_get w)]
  dsimp only
  split_ifs
  · exact h
  · have hsome : (Frame.goAway (w.session.highestPeerStreamId + QUICStreamID.STEP)).encode ≠ [] := by
      intro hnil
      have := Frame.two_le_encode (Frame.goAway (w.session.highestPeerStreamId + QUICStreamID.STEP))
      rw [hnil] at this
      exact absurd this (by decide)
    have hwrite := h.write_on hsome hcut
    rw [Act.run_bind]
    rcases hrun : (H3Worker.write w.localControl _ false).run w with ⟨error | _, w₁⟩
    · rwa [hrun] at hwrite
    · rw [hrun] at hwrite
      exact hwrite.traceless ⟨rfl, rfl, rfl, fun _ => rfl, rfl, .inl rfl⟩

theorem Orderly.openUni (h : Orderly w) (hcut : (w.trace id).cut = false) (kind : StreamKind) :
    Orderly ((H3Worker.openUni id kind).run w).2 := by
  rw [H3Worker.openUni]
  split
  · exact h
  · next code hcode =>
    refine h.write_on (fun hnil => ?_) hcut
    have hlength := Frame.length_encode_varint code
    have hpos := Frame.len_pos code
    rw [hnil] at hlength
    exact absurd hlength (Nat.ne_of_lt hpos)

/-! ## Commands -/

/-- Having something to put octets behind makes no difference to what is put there. -/
theorem queued_claimed (id : ℕ) (w : H3Worker) (octets : Octets) (fin : Bool) :
    (((claimOutbound id).run w).2.trace id).queued octets fin = (w.trace id).queued octets fin := by
  simp only [claimOutbound, Act.run_modify]
  split_ifs with hsome
  · rfl
  · have hnone : w.outbound.lookup id = none := by simpa using hsome
    simp only [trace, Trace.queued, hnone, AList.lookup_insert, Option.getD_some, Option.getD_none]

theorem slot_claimOutbound (id other : ℕ) (w : H3Worker) :
    (((claimOutbound id).run w).2.trace other).slot = (w.trace other).slot := by
  simp only [claimOutbound, Act.run_modify]
  split_ifs <;> rfl

/-- A message that is framed is framed in some octets, which are put behind what is waiting. -/
theorem frameInto_ok {m : Message} (hrun : (frameInto world id m).run w = (.ok (), w')) :
    ∃ octets fin state, octets ≠ [] ∧ H3Session.Sent fin ((w.trace id).slot.state.getD .new) state ∧
      w'.trace id =
        ({ w.trace id with slot := { (w.trace id).slot with state := some state } } : Trace).queued octets fin := by
  rw [frameInto, Act.run_bind_ok (Act.run_get w)] at hrun
  obtain ⟨_, w₁, hclaim, hrest⟩ := Act.of_run_bind_ok hrun
  obtain ⟨outcome, w₂, hattempt, hlast⟩ := Act.of_run_bind_ok hrest
  have hframe := of_attempt hattempt
  split at hlast
  · next octets fin =>
    have hsession := (of_onSession hframe).1
    obtain ⟨state, hslot, hsent⟩ := H3Session.frameMessage_sent hsession
    have hbefore : w₁.session.slot id = (w.trace id).slot := by
      have := slot_claimOutbound id id w
      rwa [hclaim] at this
    rw [show w₁.session.streams.lookup id = (w.trace id).slot.state from congrArg Slot.state hbefore] at hsent
    refine ⟨octets, fin, state, H3Session.frameMessage_ne_nil hsession, hsent, ?_⟩
    have hqueued := trace_enqueue id octets fin w₂
    rw [hlast, trace_onSession hframe, hslot, hbefore] at hqueued
    have hclaimed := queued_claimed id w octets fin
    rw [hclaim] at hclaimed
    exact hqueued.trans
      (congrArg (fun t : Trace => { t with slot := { (w.trace id).slot with state := some state } }) hclaimed)
  · obtain ⟨_, w₃, -, hfail⟩ := Act.of_run_bind_ok hlast
    cases hfail

/-- A stream that a message is sent on is begun or goes on, and this end of it may have finished. -/
theorem Orderly.sendMessage_at (h : Orderly w) {m : Message} (hbegins : (w.trace id).Begins)
    (hrun : (do
      onSession (H3Session.entry id)
      onSession (H3Session.modifyStream id fun state => { state with responded := true })
      frameInto world id m
      flushStream id
      onSession (H3Session.retire id) : Step Unit).run w = (.ok (), w')) : Orderly w' := by
  refine h.elsewhere ((minds_sendMessage_at world m).run hrun) ?_
  obtain ⟨_, w₁, hentry, hrest₁⟩ := Act.of_run_bind_ok hrun
  obtain ⟨_, w₂, hresponded, hrest₂⟩ := Act.of_run_bind_ok hrest₁
  obtain ⟨_, w₃, hframe, hrest₃⟩ := Act.of_run_bind_ok hrest₂
  obtain ⟨_, w₄, hflush, hretire⟩ := Act.of_run_bind_ok hrest₃
  have hbased := (h.clean id).based hbegins
  generalize hbase : (w.trace id).slot.state.getD .new = base at hbased
  have htrace₂ : w₂.trace id = { w.trace id with
      slot := { (w.trace id).slot with state := some { base with responded := true } } } := by
    have hentered := H3Session.slot_entry id w.session
    rw [(of_onSession hentry).1] at hentered
    have hchanged := H3Session.slot_modifyStream id (fun state => { state with responded := true }) w₁.session
    rw [(of_onSession hresponded).1, hentered] at hchanged
    rw [trace_onSession hresponded, trace_onSession hentry, hchanged, ← hbase]
    rfl
  obtain ⟨octets, fin, state, hsome, hsent, htrace₃⟩ := frameInto_ok hframe
  rw [htrace₂] at hsent htrace₃
  have hdrained : Drained id w₃ w₄ := by
    have := drained_flushStream id w₃
    rwa [hflush] at this
  have hslot₄ : w₄.session.slot id = { (w.trace id).slot with state := some state } := by
    have := hdrained.slot
    rwa [htrace₃] at this
  have hrooted : (w₄.session.slot id).Rooted := by
    rw [hslot₄]
    exact fun hrooted => ⟨state, rfl, by rw [hsent.pending]; exact hbased.rooted hrooted⟩
  have hcame := H3Session.retire_came (congrArg Slot.state hslot₄) hrooted fun hspent =>
    ⟨by rw [hsent.pending, hsent.delivered, hsent.raw]; exact hbased.settled.pending,
      by rw [hsent.eof, hsent.pending, hsent.raw, hsent.delivered]; exact hbased.settled.eof,
      by rw [hsent.delivered, hsent.raw, hsent.eof]; exact hbased.settled.delivered, hspent⟩
  rw [(of_onSession hretire).1] at hcame
  rw [trace_onSession hretire]
  refine clean_of_came hcame ?_ ?_ ?_ ?_ ?_
  · exact (hdrained.cut.trans (congrArg Trace.cut htrace₃)).trans hbased.cut
  · exact (hsent.eof.trans hbased.eof).trans (hdrained.ended.trans (congrArg Trace.ended htrace₃)).symm
  · intro htunnel
    have hwas : (w.trace id).tunnel = true := (hdrained.tunnel.trans (congrArg Trace.tunnel htrace₃)).symm.trans htunnel
    exact (hdrained.ended.trans (congrArg Trace.ended htrace₃)).trans ((h.clean id).tunnel hwas).1
  · -- Its end is there to be sent if it was before, or if the message is what ends it.
    intro hends
    have hends₃ := hdrained.ends hends
    rw [htrace₃] at hends₃
    rw [hsent.finished]
    obtain hwas | rfl := ends_of_queued hends₃
    · obtain hfinished | htunnel := hbased.ends hwas
      · exact .inl (Bool.or_eq_true_iff.2 (.inl hfinished))
      · exact .inr ((hdrained.tunnel.trans (congrArg Trace.tunnel htrace₃)).trans htunnel)
    · exact .inl (Bool.or_true _)
  · refine hdrained.live ?_
    rw [htrace₃]
    exact live_queued (.inl hsome)

theorem trace_openBidi (w : H3Worker) : ((onSession H3Session.openBidi).run w).2.trace w.session.nextStreamId =
    { w.trace w.session.nextStreamId with slot := { (w.trace w.session.nextStreamId).slot with
        state := some ((w.trace w.session.nextStreamId).slot.state.getD .new) } } := by
  have hentered := H3Session.slot_entry w.session.nextStreamId
    { w.session with nextStreamId := w.session.nextStreamId + QUICStreamID.STEP }
  exact congrArg (fun slot => { w.trace w.session.nextStreamId with slot := slot }) hentered

theorem Orderly.openBidi (h : Orderly w) (hbegins : (w.trace w.session.nextStreamId).Begins) :
    Orderly ((onSession H3Session.openBidi).run w).2 := by
  have hbased := (h.clean _).based hbegins
  refine h.elsewhere (openBidi_elsewhere w) ?_
  rw [trace_openBidi]
  refine clean_of_came (.inr ⟨_, rfl, fun hrooted => ⟨_, rfl, hbased.rooted hrooted⟩, rfl, rfl, hbased.settled⟩) hbased.cut
    hbased.eof (fun htunnel => ((h.clean _).tunnel htunnel).1) hbased.ends (h.clean _).live

theorem Orderly.sendMessage (h : Orderly w) {m : Message}
    (hbegins : (w.trace (m.streamId.getD w.session.nextStreamId)).Begins)
    (hrun : (sendMessage world m).run w = (.ok (), w')) : Orderly w' := by
  obtain ⟨id, w₁, hstream, hrest⟩ := Act.of_run_bind_ok hrun
  rw [streamOf] at hstream
  cases hid : m.streamId with
  | some stream =>
    rw [hid] at hstream hbegins
    cases hstream
    exact h.sendMessage_at hbegins hrest
  | none =>
    rw [hid] at hstream hbegins
    have hopened := h.openBidi hbegins
    have htrace := trace_openBidi w
    rw [hstream] at hopened htrace
    cases congrArg Prod.fst hstream
    exact hopened.sendMessage_at (.inl (by rw [htrace]; rfl)) hrest

theorem trace_joinTunnel {sink : Mailbox} (hrun : (joinTunnel id sink).run w = (.ok (), w')) : w'.trace id =
    { w.trace id with
      slot := { (w.trace id).slot with state := (w.trace id).slot.state.map fun state => { state with buffer := [] } }
      tunnel := true } := by
  have hjoin {w₁ : H3Worker} {sink : Mailbox} (hrest : w' = { w₁ with tunnels := w₁.tunnels.insert id sink }) :
      w'.trace id = { w₁.trace id with tunnel := true } := by
    rw [hrest]
    simp only [trace, AList.lookup_insert, Option.isSome_some]
  have htake : ((takeUnparsed id).run w).2.trace id = { w.trace id with slot := { (w.trace id).slot with
      state := (w.trace id).slot.state.map fun state => { state with buffer := [] } } } :=
    congrArg (fun slot => { w.trace id with slot := slot })
      (H3Session.slot_modifyStream id (fun state => { state with buffer := [] }) w.session)
  obtain ⟨unparsed, w₁, hfirst, hrest⟩ := Act.of_run_bind_ok hrun
  rw [hfirst] at htake
  rcases unparsed with _ | ⟨buffered, eof⟩
  · obtain ⟨sink', w₂, hpure, hlast⟩ := Act.of_run_bind_ok hrest
    cases hpure
    rw [hjoin (congrArg Prod.snd hlast).symm, htake]
  · dsimp only at hrest
    split_ifs at hrest
    · obtain ⟨sink', w₂, hrelay, hlast⟩ := Act.of_run_bind_ok hrest
      have hrelayed : Traceless w₁ w₂ := Tracelessly.run ((tracelessly_relay id sink buffered eof).map _) hrelay
      rw [hjoin (congrArg Prod.snd hlast).symm, hrelayed.trace, htake]
    · obtain ⟨sink', w₂, hpure, hlast⟩ := Act.of_run_bind_ok hrest
      cases hpure
      rw [hjoin (congrArg Prod.snd hlast).symm, htake]

/-- A stream becomes a tunnel, if it has not ended. -/
theorem Orderly.joinTunnel (h : Orderly w) {sink : Mailbox} (hended : (w.trace id).ended = false)
    (hcut : (w.trace id).cut = false) (hrun : (joinTunnel id sink).run w = (.ok (), w')) : Orderly w' := by
  refine h.elsewhere ((minds_joinTunnel sink).run hrun) ?_
  rw [trace_joinTunnel hrun]
  rcases hstate : (w.trace id).slot.state with _ | state
  · have hslot := (h.clean id).slot_of_none hstate
    exact clean_of_nothing (by rw [hslot]; rfl) hcut (fun _ => hended) (h.clean id).live
  · have hsettled := (h.clean id).tidy.settled state hstate
    refine clean_of_came (.inr ⟨{ state with buffer := [] }, rfl, fun hrooted => ?_, rfl, rfl,
      ⟨hsettled.pending, hsettled.eof, hsettled.delivered, hsettled.spent⟩⟩) hcut ((h.clean id).held state hstate).1
      (fun _ => hended) (fun _ => .inr rfl) (h.clean id).live
    obtain ⟨pended, hpended, hsome⟩ := (h.clean id).tidy.rooted hrooted
    cases hstate.symm.trans hpended
    exact ⟨_, rfl, hsome⟩

theorem trace_abandon (id code : ℕ) (w : H3Worker) : ((abandon id code).run w).2.trace id = { w.trace id with
    slot := ((H3Session.retire id).run w.session).2.slot id, tunnel := false, outbound := none, cut := true } := by
  have hretire : ((H3Session.retire id).run w.session).1 = .ok () := by
    rw [H3Session.retire, Act.run_bind_ok (Act.run_get _)]
    split_ifs <;> rfl
  rcases hrun : (H3Session.retire id).run w.session with ⟨answer, s⟩
  rw [hrun] at hretire
  cases hretire
  have hleft : (onSession (H3Session.retire id)).run { w with
      outbound := w.outbound.erase id
      tunnels := w.tunnels.erase id
      passed := .reset id code (w.waiting id).1 :: w.passed } = (.ok (), { w with
      session := s
      outbound := w.outbound.erase id
      tunnels := w.tunnels.erase id
      passed := .reset id code (w.waiting id).1 :: w.passed }) := by
    simp only [Act.run, onSession] at hrun ⊢
    rw [hrun]
  rw [abandon, Act.run_bind_ok (Act.run_modify _ _), Act.run_bind_ok hleft]
  simp only [shutdownWrite, shutdownRead, note, Act.run_bind, Act.run_modify, trace, List.any_cons, Passage.ends,
    Passage.finishes, Passage.cuts, beq_self_eq_true, Bool.true_or, Bool.false_or, AList.lookup_erase, Option.isSome_none]

/-- A stream the session does not hold is reset by the handle. -/
theorem Orderly.abandon (h : Orderly w) (code : ℕ) (hnone : w.session.streams.lookup id = none) :
    Orderly ((abandon id code).run w).2 := by
  refine h.elsewhere (minds_abandon code w) ?_
  rw [trace_abandon]
  refine Gone.clean ⟨?_, rfl, rfl⟩
  rw [H3Session.retire, Act.run_bind_ok (Act.run_get _), hnone]
  exact (h.clean id).slot_of_none hnone

/-! ## What arrives -/

/-- A step for no stream at all leaves a worker orderly. -/
theorem Orderly.everywhere (h : Orderly w) (hall : ∀ id, Elsewhere id w w') : Orderly w' := by
  refine ⟨(hall 0).distinct h.distinct, fun id => ?_⟩
  rw [(hall (id + 1)).others id (Nat.ne_of_lt (Nat.lt_succ_self id))]
  exact h.clean id

/-- A step that leaves a worker orderly, where it succeeds. -/
abbrev Orders {α : Type} (m : Step α) : Prop := Act.Leads (fun w w' => Orderly w → Orderly w') m

theorem Orders.bind {α β : Type} {m : Step α} {f : α → Step β} (hm : Orders m) (hf : ∀ a, Orders (f a)) :
    Orders (m >>= f) :=
  @Act.Leads.bind _ _ _ _ (fun w w' => Orderly w → Orderly w') (fun h h' hw => h' (h hw)) m f hm hf

theorem orders_of_minds {α : Type} {m : Step α} (h : ∀ id, Minds id m) : Orders m :=
  fun _ _ _ hrun horderly => horderly.everywhere fun id => (h id).run hrun

theorem Tracelessly.orders {α : Type} {m : Step α} (h : Tracelessly m) : Orders m := orders_of_minds fun _ => h.minds

/-- The entries that a stream waited for take it on, and end it no more than it was. -/
theorem orders_onEncoderBytes (octets : Octets) : Orders (onSession (H3Session.onEncoderBytes world octets)) := by
  intro w a w' hrun h
  obtain ⟨hsession, hleft⟩ := of_onSession hrun
  obtain ⟨htidy, hslots⟩ := H3Session.onEncoderBytes_came h.session hsession
  refine ⟨htidy.distinct, fun id => ?_⟩
  rw [trace_onSession hrun]
  obtain hsame | ⟨state, hstate, hcame⟩ := hslots id
  · rw [hsame]
    exact h.clean id
  · have hheld := (h.clean id).held state hstate
    exact clean_of_came hcame hheld.2 hheld.1 (fun htunnel => ((h.clean id).tunnel htunnel).1)
      (fun hends => (h.clean id).ends hends state hstate) (h.clean id).live

theorem orders_feedUniKind (octets : Octets) (kind : StreamKind) : Orders (feedUniKind world octets kind) := by
  cases kind with
  | control => exact orders_of_minds fun _ => minds_onSession (H3Session.minds_onControlBytes octets)
  | qpackEncoder => exact orders_onEncoderBytes octets
  | qpackDecoder => exact orders_of_minds fun _ => minds_onSession (H3Session.minds_onDecoderBytes octets)
  | push | request => exact (tracelessly_pure ()).orders

theorem orders_feedUniBytes (id : ℕ) (octets : Octets) : Orders (feedUniBytes world id octets) := by
  have hmodify (f : H3Worker → StreamMap PeerUni) : Orders (Act.modify fun w => { w with peerUni := f w } : Step Unit) :=
    Tracelessly.orders fun _ => ⟨rfl, rfl, rfl, fun _ => rfl, rfl, .inl rfl⟩
  refine tracelessly_get.orders.bind fun w => ?_
  dsimp only
  split_ifs
  · exact (tracelessly_pure ()).orders
  · split
    · exact orders_feedUniKind octets _
    · refine (tracelessly_demand _ _).orders.bind fun _ => (hmodify _).bind fun _ => ?_
      rw [feedPrefix]
      split
      split_ifs
      · exact (tracelessly_demand _ _).orders
      · split
        · exact (hmodify _).bind fun _ => (tracelessly_note rfl).orders
        · exact (hmodify _).bind fun _ => orders_feedUniKind _ _

theorem orders_feedUni (id : ℕ) (octets : Octets) (fin : Bool) : Orders (feedUni world id octets fin) := by
  intro w a w' hrun h
  obtain ⟨outcome, w₁, hattempt, hrest⟩ := Act.of_run_bind_ok hrun
  obtain ⟨_, w₂, herase, hlast⟩ := Act.of_run_bind_ok hrest
  cases congrArg Prod.fst hlast
  have horderly := orders_feedUniBytes id octets w () w₁ (of_attempt hattempt) h
  cases congrArg Prod.snd hlast
  cases herase
  refine horderly.traceless ?_
  split_ifs
  · exact ⟨rfl, rfl, rfl, fun _ => rfl, rfl, .inl rfl⟩
  · exact .refl w₁

/-- What arrives on a stream that has neither ended nor been reset: on a tunnel, on a request stream
    that is begun or goes on, or on a stream the peer may write alone. -/
structure Arrives (w : H3Worker) (id : ℕ) : Prop where
  ended : (w.trace id).ended = false
  cut : (w.trace id).cut = false
  control : (w.trace w.localControl).cut = false
  there : (w.trace id).tunnel = true ∨
    if QUICStreamID.isBidi id then (w.trace id).Begins else (w.trace id).slot.state = none

/-- A worker that noted what arrived. -/
def noting (w : H3Worker) (id : ℕ) (octets : Octets) (fin : Bool) : H3Worker :=
  { w with passed := .read id octets fin :: w.passed }

theorem noting_elsewhere (octets : Octets) (fin : Bool) (w : H3Worker) : Elsewhere id w (w.noting id octets fin) :=
  minds_note (fun _ hne => ⟨by rw [Passage.ends, beq_false_of_ne hne.symm, Bool.false_and], rfl, rfl⟩) w

theorem trace_noting (octets : Octets) (fin : Bool) (w : H3Worker) :
    (w.noting id octets fin).trace id = { w.trace id with ended := fin || (w.trace id).ended } := by
  simp only [noting, trace, List.any_cons, Passage.ends, Passage.finishes, Passage.cuts, beq_self_eq_true, Bool.true_and,
    Bool.false_or]

/-- A stream of which the session has nothing may well end. -/
theorem Orderly.noting (h : Orderly w) {octets : Octets} {fin : Bool} (hcut : (w.trace id).cut = false)
    (hstate : (w.trace id).slot.state = none) (htunnel : (w.trace id).tunnel = false) :
    Orderly (w.noting id octets fin) := by
  refine h.elsewhere (noting_elsewhere octets fin w) ?_
  rw [trace_noting]
  exact clean_of_nothing ((h.clean id).slot_of_none hstate) hcut
    (fun htrue => absurd (htunnel.symm.trans htrue) Bool.false_ne_true) (h.clean id).live

/-- A tunnel is left with the octets that end it. -/
theorem Orderly.feedTunnel (h : Orderly w) {sink : Mailbox} {octets : Octets} {fin : Bool}
    (hsink : w.tunnels.lookup id = some sink)
    (hrun : (feedTunnel id sink octets fin).run (w.noting id octets fin) = (.ok (), w')) : Orderly w' := by
  have htunnel : (w.trace id).tunnel = true := by
    rw [trace, hsink]
    rfl
  obtain ⟨hended, hcut⟩ := (h.clean id).tunnel htunnel
  refine h.elsewhere ((noting_elsewhere octets fin w).trans ((minds_feedTunnel sink octets fin).run hrun)) ?_
  obtain ⟨answer, w₁, hrelay, hrest⟩ := Act.of_run_bind_ok hrun
  obtain ⟨_, w₂, hdemand, hlast⟩ := Act.of_run_bind_ok hrest
  have htrace₂ : w₂.trace id = { w.trace id with ended := fin || (w.trace id).ended } := by
    rw [((tracelessly_demand _ _).run hdemand).trace, ((tracelessly_relay _ _ _ _).run hrelay).trace, trace_noting]
  cases fin with
  | true =>
    obtain ⟨_, w₃, herase, hforget⟩ := Act.of_run_bind_ok hlast
    have hleft : w₃ = { w₂ with tunnels := w₂.tunnels.erase id } := (congrArg Prod.snd herase).symm
    have htrace₃ : w₃.trace id = { w₂.trace id with tunnel := false } := by
      rw [hleft]
      simp only [trace, AList.lookup_erase, Option.isSome_none]
    have hgone := H3Session.slot_forget id w₃.session
    rw [(of_onSession hforget).1] at hgone
    rw [trace_onSession hforget, hgone, htrace₃, htrace₂]
    exact clean_of_nothing rfl hcut (fun htrue => absurd htrue Bool.false_ne_true) (h.clean id).live
  | false =>
    have hleft : w' = { w₂ with tunnels := w₂.tunnels.insert id answer.2 } := (congrArg Prod.snd hlast).symm
    have htrace : w'.trace id = w.trace id := by
      have hsame : w'.trace id = { w₂.trace id with tunnel := true } := by
        rw [hleft]
        simp only [trace, AList.lookup_insert, Option.isSome_some]
      rw [hsame, htrace₂, Bool.false_or, ← htunnel]
    rw [htrace]
    exact h.clean id

/-- A stream that is begun or goes on is parsed as far as it can be, and ends where its peer ends it. -/
theorem Orderly.onStreamBytes (h : Orderly w) {octets : Octets} {fin : Bool} (hended : (w.trace id).ended = false)
    (htunnel : (w.trace id).tunnel = false) (hbegins : (w.trace id).Begins)
    (hrun : (onSession (H3Session.onStreamBytes world id octets fin)).run (w.noting id octets fin) = (.ok (), w')) :
    Orderly w' := by
  refine h.elsewhere ((noting_elsewhere octets fin w).trans
    ((minds_onSession (H3Session.minds_onStreamBytes world octets fin)).run hrun)) ?_
  have hbased := (h.clean id).based hbegins
  have hcame := H3Session.onStreamBytes_came (h.clean id).tidy
    (fun state hstate => ((h.clean id).held state hstate).1.trans hended) (of_onSession hrun).1
  rw [trace_onSession hrun, trace_noting]
  refine clean_of_came hcame hbased.cut (by rw [hended, Bool.or_false])
    (fun htrue => absurd (htunnel.symm.trans htrue) Bool.false_ne_true) (fun hends => ?_) (h.clean id).live
  refine (hbased.ends hends).imp_left fun hfinished => ?_
  rcases hstate : w.session.streams.lookup id with _ | state
  · have hnew : (w.trace id).slot.state = none := hstate
    rw [hnew] at hfinished
    cases hfinished
  · have hheld : (w.trace id).slot.state = some state := hstate
    rw [hheld] at hfinished
    exact hfinished

/-- What arrives is dispatched. -/
theorem Orderly.dispatch (h : Orderly w) {octets : Octets} {fin : Bool} (harrives : Arrives w id)
    (hrun : (dispatch world id octets fin).run (w.noting id octets fin) = (.ok (), w')) : Orderly w' := by
  rw [H3Worker.dispatch, Act.run_bind_ok (Act.run_get _)] at hrun
  split at hrun
  · next sink hsink => exact h.feedTunnel hsink hrun
  · next hnone =>
    have htunnel : (w.trace id).tunnel = false := by
      rw [trace, show w.tunnels.lookup id = none from hnone]
      rfl
    have hthere := harrives.there.resolve_left (by rw [htunnel]; exact Bool.false_ne_true)
    cases hbidi : QUICStreamID.isBidi id with
    | false =>
      rw [hbidi, if_neg Bool.false_ne_true] at hrun hthere
      exact orders_feedUni id octets fin _ () _ hrun (h.noting harrives.cut hthere htunnel)
    | true =>
      rw [hbidi, if_pos rfl] at hrun hthere
      split_ifs at hrun with hlate
      · have hstate : (w.trace id).slot.state = none := by
          have := (Bool.and_eq_true_iff.1 hlate).2
          exact Option.isNone_iff_eq_none.1 this
        exact (h.noting harrives.cut hstate htunnel).everywhere fun other => (minds_reject id).run hrun
      · obtain ⟨_, w₁, hbytes, hgoaway⟩ := Act.of_run_bind_ok hrun
        have horderly := h.onStreamBytes harrives.ended htunnel hthere hbytes
        have hcontrol : (w₁.trace w₁.localControl).cut = false := by
          rw [(of_onSession hbytes).2]
          exact harrives.control
        have := horderly.goaway hcontrol
        rwa [hgoaway] at this

/-! ## Resets -/

/-- Orderly, but for one stream that is about to be dropped. -/
structure OrderlyBut (id : ℕ) (w : H3Worker) : Prop where
  distinct : w.session.decoder.Distinct
  clean : ∀ other, other ≠ id → (w.trace other).Clean

theorem Orderly.but (h : Orderly w) (id : ℕ) : OrderlyBut id w := ⟨h.distinct, fun other _ => h.clean other⟩

theorem OrderlyBut.elsewhere (h : OrderlyBut id w) (helse : Elsewhere id w w') : OrderlyBut id w' := by
  refine ⟨helse.distinct h.distinct, fun other hne => ?_⟩
  rw [helse.others other hne]
  exact h.clean other hne

theorem OrderlyBut.gone (h : OrderlyBut id w) (hgone : (w.trace id).Gone) : Orderly w := by
  refine ⟨h.distinct, fun other => ?_⟩
  by_cases hne : other = id
  · rw [hne]
    exact hgone.clean
  · exact h.clean other hne

theorem gone_forgetStream (id : ℕ) (w : H3Worker) : (((forgetStream id).run w).2.trace id).Gone := by
  have hleft : ((forgetStream id).run w).2 = ((dropOutbound id).run { w with
      session := ((H3Session.forget id).run w.session).2
      peerUni := w.peerUni.erase id
      tunnels := w.tunnels.erase id }).2 := rfl
  rw [hleft, trace_dropOutbound]
  refine ⟨H3Session.slot_forget id w.session, ?_, rfl⟩
  simp only [trace, AList.lookup_erase, Option.isSome_none]

/-- A step for no stream at all leaves every trace as it was. -/
theorem trace_everywhere {α : Type} {m : Step α} (h : ∀ id, Minds id m) (w : H3Worker) (id : ℕ) :
    (m.run w).2.trace id = w.trace id :=
  (h (id + 1) w).others id (Nat.ne_of_lt (Nat.lt_succ_self id))

theorem gone_resetStream (id : ℕ) (error : Error) (w : H3Worker) : (((resetStream id error).run w).2.trace id).Gone := by
  have hnotes : ∀ other, Minds other (do
      shutdownWrite id (resetCode error)
      shutdownRead id (resetCode error) : Step Unit) :=
    fun other => Minds.bind (tracelessly_note rfl).minds fun _ => (tracelessly_note rfl).minds
  have hleft : ((resetStream id error).run w).2 = Prod.snd (Act.run (do
      shutdownWrite id (resetCode error)
      shutdownRead id (resetCode error) : Step Unit) ((forgetStream id).run w).2) := rfl
  rw [hleft, trace_everywhere hnotes]
  exact gone_forgetStream id w

theorem gone_absorbReset {code : ℕ} (hrun : (absorbReset id code).run w = (.ok (), w')) : (w'.trace id).Gone := by
  obtain ⟨_, w₁, hnote, hrest₁⟩ := Act.of_run_bind_ok hrun
  obtain ⟨_, w₂, hget, hrest₂⟩ := Act.of_run_bind_ok hrest₁
  obtain ⟨_, w₃, hsession, hrest₃⟩ := Act.of_run_bind_ok hrest₂
  obtain ⟨_, w₄, hforget, hrest₄⟩ := Act.of_run_bind_ok hrest₃
  have hgone := gone_forgetStream id w₃
  rw [hforget] at hgone
  have hall (other : ℕ) : Elsewhere other w₄ w' := by
    have htold : Minds other (do let _ ← tell (.failed (.stream id code "the peer reset the stream" []))) :=
      (tracelessly_tell _).minds.bind fun _ => (tracelessly_pure _).minds
    dsimp only at hrest₄
    split_ifs at hrest₄
    · exact Minds.run ((minds_reporting minds_countPremature).bind fun _ => htold) hrest₄
    · exact htold.run hrest₄
  rwa [(hall (id + 1)).others id (Nat.ne_of_lt (Nat.lt_succ_self id))]

/-- What makes its stream fail leaves the others orderly. -/
theorem Orderly.dispatch_error (h : Orderly w) {octets : Octets} {fin : Bool} {error : Error} (harrives : Arrives w id)
    (hbidi : QUICStreamID.isBidi id = true)
    (hrun : (H3Worker.dispatch world id octets fin).run (w.noting id octets fin) = (.error error, w')) :
    OrderlyBut id w' := by
  have hnoted := (h.but id).elsewhere (noting_elsewhere octets fin w)
  rw [H3Worker.dispatch, Act.run_bind_ok (Act.run_get _)] at hrun
  split at hrun
  · next sink hsink => exact hnoted.elsewhere ((minds_feedTunnel sink octets fin).run hrun)
  · next hnone =>
    have htunnel : (w.trace id).tunnel = false := by
      rw [trace, show w.tunnels.lookup id = none from hnone]
      rfl
    have hthere := harrives.there.resolve_left (by rw [htunnel]; exact Bool.false_ne_true)
    rw [hbidi, if_pos rfl] at hrun hthere
    split_ifs at hrun with hlate
    · exact hnoted.elsewhere ((minds_reject id).run hrun)
    · rw [Act.run_bind] at hrun
      rcases hbytes : (onSession (H3Session.onStreamBytes world id octets fin)).run (w.noting id octets fin)
        with ⟨failed | _, w₁⟩
      · rw [hbytes] at hrun
        cases hrun
        exact hnoted.elsewhere ((minds_onSession (H3Session.minds_onStreamBytes world octets fin)).run hbytes)
      · rw [hbytes] at hrun
        have horderly := h.onStreamBytes harrives.ended htunnel hthere hbytes
        have hcontrol : (w₁.trace w₁.localControl).cut = false := by
          rw [(of_onSession hbytes).2]
          exact harrives.control
        have := horderly.goaway hcontrol
        rw [show H3Worker.goaway.run w₁ = (.error error, w') from hrun] at this
        exact this.but id

/-! ## Runs -/

/-- What a move must not be for the streams to be left clean. A stream is not begun again, nor ended,
    nor written to, once it was reset; it is joined as a tunnel only before its peer ends it, and the
    end of a stream the session holds is written only by a message or to a tunnel; the handle resets
    only streams the session does not hold; and what the table entries of an encoder stream give rise
    to is not blamed on that stream. -/
def Meets (w : H3Worker) : Move → Prop
  | .write id octets fin => (octets ≠ [] ∨ fin = true) ∧ (w.trace id).cut = false ∧
      (fin = true → ∀ state, (w.trace id).slot.state = some state → state.finished = true ∨ (w.trace id).tunnel = true)
  | .command (.send m) => (w.trace (m.streamId.getD w.session.nextStreamId)).Begins
  | .command .openBidi => (w.trace w.session.nextStreamId).Begins
  | .command (.openUni _) => (w.trace w.nextUni).cut = false
  | .command (.tunnel id _) => (w.trace id).ended = false ∧ (w.trace id).cut = false
  | .command (.writeEncoder octets) => octets ≠ [] ∧ (w.trace w.localEncoder).cut = false
  | .command (.reset id _) => (w.trace id).slot.state = none
  | .read id _ _ => Arrives w id
  | .refused id _ _ => QUICStreamID.isBidi id = true ∧ Arrives w id
  | .command .close | .flush _ | .wasReset _ _ | .aside => True

theorem Orderly.execute (h : Orderly w) {command : H3Command} (hmeets : Meets w (.command command))
    (hrun : (execute world command).run w = (.ok (), w')) : Orderly w' := by
  cases command with
  | send m => exact h.sendMessage hmeets hrun
  | openBidi =>
    obtain ⟨_, w₁, hopen, hnote⟩ := Act.of_run_bind_ok hrun
    have hopened := h.openBidi hmeets
    rw [hopen] at hopened
    exact hopened.traceless ((tracelessly_note rfl).run hnote)
  | openUni kind =>
    obtain ⟨_, w₁, halloc, hrest⟩ := Act.of_run_bind_ok hrun
    obtain ⟨_, w₂, hopen, hnote⟩ := Act.of_run_bind_ok hrest
    cases halloc
    have hcut : (((allocUni.run w).2).trace w.nextUni).cut = false := hmeets
    have hopened := (h.traceless (tracelessly_allocUni w)).openUni hcut kind
    rw [show ((allocUni.run w).2) = { w with nextUni := w.nextUni + QUICStreamID.STEP } from rfl, hopen] at hopened
    exact hopened.traceless ((tracelessly_note rfl).run hnote)
  | tunnel id sink => exact h.joinTunnel hmeets.1 hmeets.2 hrun
  | writeEncoder octets =>
    have := h.write_on hmeets.1 hmeets.2
    rwa [show (H3Worker.write w.localEncoder octets false).run w = (.ok (), w') from hrun] at this
  | reset id code =>
    have := h.abandon code hmeets
    rwa [show (H3Worker.abandon id code).run w = (.ok (), w') from hrun] at this
  | close => exact h.traceless ((tracelessly_note rfl).run hrun)

/-- A move leaves a worker orderly. -/
theorem orderly_takes (h : Orderly w) {move : Move} (hmeets : Meets w move) (htakes : Takes world w w' move) :
    Orderly w' := by
  cases move with
  | write id octets fin =>
    have := h.write hmeets.1 hmeets.2.1 hmeets.2.2
    rwa [show (H3Worker.write id octets fin).run w = (.ok (), w') from htakes] at this
  | flush id =>
    have := h.flush id
    rwa [show (flushStream id).run w = (.ok (), w') from htakes] at this
  | command command => exact h.execute hmeets htakes
  | read id octets fin =>
    obtain ⟨-, hdispatch⟩ | ⟨_, _, _, hfine, -⟩ := absorb_ok htakes
    · exact h.dispatch hmeets hdispatch
    · cases hfine
  | refused id octets fin =>
    obtain ⟨hfine, -⟩ | ⟨error, w₁, w₂, -, hdispatch, hreset, htold⟩ := absorb_ok htakes
    · cases hfine
    · have hbut := (h.dispatch_error hmeets.2 hmeets.1 hdispatch).elsewhere ((minds_resetStream error).run hreset)
      have hgone := gone_resetStream id error w₁
      rw [hreset] at hgone
      exact (hbut.gone hgone).traceless htold
  | wasReset id code =>
    exact ((h.but id).elsewhere ((minds_absorbReset code).run htakes)).gone (gone_absorbReset htakes)
  | aside => exact h.traceless htakes

/-- From one state to another by moves that all meet what is asked of them. -/
abbrev MetPath (world : World) : H3Worker → H3Worker → Prop :=
  Relation.ReflTransGen fun w w' => ∃ move, Meets w move ∧ Takes world w w' move

theorem orderly_run {start : H3Worker} (hstart : Orderly start) (hrun : MetPath world start w) : Orderly w := by
  induction hrun with
  | refl => exact hstart
  | tail _ hmove ih =>
    obtain ⟨move, hmeets, htakes⟩ := hmove
    exact orderly_takes ih hmeets htakes

/-- A reset that the handle asks for leaves nothing just where the session does not hold the stream. -/
theorem Orderly.gone_abandon_iff (h : Orderly w) (id code : ℕ) :
    (((H3Worker.abandon id code).run w).2.trace id).Gone ↔ w.session.streams.lookup id = none := by
  rw [trace_abandon]
  rcases hstate : w.session.streams.lookup id with _ | state
  · refine iff_of_true ⟨?_, rfl, rfl⟩ rfl
    rw [H3Session.retire, Act.run_bind_ok (Act.run_get _), hstate]
    exact (h.clean id).slot_of_none hstate
  · -- A stream that is held is not spent, and `retire` drops no other.
    refine iff_of_false (fun hgone => ?_) (by simp)
    have hslot := hgone.slot
    rw [H3Session.retire_held hstate, ((h.clean id).tidy.settled state hstate).spent, if_neg Bool.false_ne_true] at hslot
    cases hstate.symm.trans (congrArg Slot.state hslot)

variable {role : Role} {limits : H3Limits} {transport : QUICTransport} {events : Mailbox}

/-- Of a stream whose two ends have passed nothing is left, unless a tunnel was refused on it; of one that
    was reset, nothing; and a Reset that is asked for leaves nothing just where the session does not
    hold the stream. No move that is about a stream changes what there is of another. -/
theorem over_leaves_nothing (hrun : MetPath world (new (.new role limits) transport events) w) :
    (∀ id, (w.trace id).Over → ((w.trace id).Gone ↔ ¬(w.trace id).Refused)) ∧
      (∀ id, (w.trace id).cut = true → (w.trace id).Gone) ∧
      (∀ id code w', Takes world w w' (.command (.reset id code)) →
        ((w'.trace id).Gone ↔ w.session.streams.lookup id = none)) ∧
      ∀ move w' id other, Takes world w w' move → w.aim move = some id → other ≠ id → other ≠ w.localControl →
        w'.trace other = w.trace other := by
  have horderly := orderly_run (orderly_new role limits transport events) hrun
  refine ⟨fun id => (horderly.clean id).gone_iff_of_over, fun id => (horderly.clean id).gone_of_cut, ?_, ?_⟩
  · intro id code w' htakes
    have hleft : ((H3Worker.abandon id code).run w).2 = w' := congrArg Prod.snd htakes
    rw [← hleft]
    exact horderly.gone_abandon_iff id code
  · exact fun move w' id other htakes haim hne hcontrol => elsewhere_takes htakes haim hne hcontrol

/-- A request for `/` of `localhost`, as it arrives. -/
def visiting : Octets := [0x01, 0x10, 0x00, 0x00, 0xd1, 0xd7, 0xc1, 0x50, 0x09] ++ lit "localhost"

/-- A server before a transport that takes whatever it is given. -/
def waking (reads : List StreamRead) : H3Worker := new (.new .origin .default) ⟨[], reads.map some⟩ ⟨8, false⟩

/-- The request arrives whole, and is answered. -/
def visited : H3Worker := ((absorb .bare 0 visiting true).run (waking [])).2

def answered : H3Worker := ((execute .bare (.send granted)).run visited).2

theorem path_answered : MetPath .bare (waking []) answered := by
  have hread : Takes .bare (waking []) visited (.read 0 visiting true) := Prod.ext (by decide +kernel) rfl
  have harrives : Meets (waking []) (.read 0 visiting true) := ⟨rfl, rfl, rfl, .inr (.inr ⟨rfl, rfl, rfl, rfl⟩)⟩
  have hsend : Takes .bare visited answered (.command (.send granted)) := Prod.ext (by decide +kernel) rfl
  have hbegins : Meets visited (.command (.send granted)) := .inl (by decide +kernel)
  exact (Relation.ReflTransGen.single ⟨_, harrives, hread⟩).tail ⟨_, hbegins, hsend⟩

theorem over_leaves_nothing_answered : (answered.trace 0).Over ∧ (answered.trace 0).Gone := by
  have hnone : (answered.trace 0).slot.state = none := Option.isNone_iff_eq_none.1 (by decide +kernel)
  have hover : (answered.trace 0).Over :=
    ⟨by decide +kernel, by decide +kernel, by decide +kernel, fun state hstate => by rw [hnone] at hstate; cases hstate⟩
  refine ⟨hover, ((over_leaves_nothing path_answered).1 0 hover).2 ?_⟩
  rintro ⟨state, hstate, -⟩
  rw [hnone] at hstate
  cases hstate

/-- A stream the session holds is still there when the handle has had it reset; and so is one whose two
    ends have passed, on which a tunnel was asked for and refused. -/
theorem reset_leaves_stream :
    (let w := after .bare (waking [.data (visiting.take 5) false])
      [.established true, .reads [0], .asked (.reset 0 0x10c), .writes false]
    (w.trace 0).cut = true ∧ (w.trace 0).slot.state.isSome = true) ∧
      (let w := after .bare (waking [.data connecting true])
        [.established true, .reads [0], .asked (.send { Message.response 403 .v3_0 with streamId := some 0 }), .writes false]
      (w.trace 0).ended = true ∧ (w.trace 0).finished = true ∧ (w.trace 0).outbound = none ∧
        (w.trace 0).slot.state.map (·.pending) = some none) := by
  decide +kernel

end H3Worker

end Soyokaze

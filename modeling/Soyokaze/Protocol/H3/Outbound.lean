import Soyokaze.Protocol.H3.Ledger
import Soyokaze.Protocol.Sums

/-!
# What a worker has waiting to be sent

What is written to a stream goes out in the order it was written, whoever writes it and
whoever has it sent: each stream is an *outlet* of the connection. What the worker counts
across all of them is what they have waiting, but where the handle resets a stream.

* `H3Worker.written_is_sent`: what the transport took of a stream is what was written to
  it, as far as it got, and its end comes once and last;
* `H3Worker.count_kept`: the count is the sum of what is waiting while no reset drops
  anything, no message fails to be framed and nobody writes nothing.
-/

namespace Soyokaze

open H3

namespace Passage

/-- Whether an entry drops what a stream has waiting. -/
def discards (id : ℕ) : Passage → Bool
  | .dropped stream _ | .reset stream _ _ => stream == id
  | _ => false

/-- Whether an entry leaves the count right: no reset of a stream that has octets waiting,
    no message that is not framed and no write of nothing where nothing is waiting. -/
def regular : Passage → Bool
  | .reset _ _ waiting => waiting.isEmpty
  | .unframed _ wasWaiting => wasWaiting
  | .queued _ wasWaiting octets fin => wasWaiting || !octets.isEmpty || fin
  | _ => true

end Passage

/-! ## One stream as an outlet -/

namespace H3

/-- What was written to a stream, in order. -/
def writesOn (id : ℕ) (passed : List Passage) : Pieces UInt8 := passed.reverse.filterMap fun
  | .queued stream _ octets fin => if stream = id then some (octets, fin) else none
  | _ => none

/-- What the transport took of a stream, in order. -/
def sendsOn (id : ℕ) (passed : List Passage) : Pieces UInt8 := passed.reverse.filterMap fun
  | .sent stream octets fin => if stream = id then some (octets, fin) else none
  | _ => none

/-- Nothing a stream had waiting was dropped. -/
def Intact (id : ℕ) (passed : List Passage) : Prop := ∀ entry ∈ passed, entry.discards id = false

instance (id : ℕ) (passed : List Passage) : Decidable (Intact id passed) :=
  inferInstanceAs (Decidable (∀ entry ∈ passed, entry.discards id = false))

theorem writesOn_cons (id : ℕ) (entry : Passage) (passed : List Passage) :
    writesOn id (entry :: passed) = writesOn id passed ++ writesOn id [entry] := by
  simp only [writesOn, List.reverse_cons, List.filterMap_append, List.reverse_nil, List.nil_append]

theorem sendsOn_cons (id : ℕ) (entry : Passage) (passed : List Passage) :
    sendsOn id (entry :: passed) = sendsOn id passed ++ sendsOn id [entry] := by
  simp only [sendsOn, List.reverse_cons, List.filterMap_append, List.reverse_nil, List.nil_append]

namespace Ledger

variable {l l' : Ledger} {id : ℕ}

/-- A stream as the ledger has it. -/
def outlet (l : Ledger) (id : ℕ) : Outlet UInt8 :=
  ⟨writesOn id l.passed, sendsOn id l.passed, (l.waiting id).1, (l.waiting id).2⟩

/-- Of another stream's entry an outlet shows nothing. -/
theorem outlet_congr {entry : Passage} (hpassed : l'.passed = entry :: l.passed)
    (hwrites : writesOn id [entry] = []) (hsends : sendsOn id [entry] = []) (hwaiting : l'.waiting id = l.waiting id) :
    l'.outlet id = l.outlet id := by
  rw [outlet, outlet, hpassed, writesOn_cons, sendsOn_cons, hwrites, hsends, hwaiting, List.append_nil, List.append_nil]

theorem writesOn_quiet {entry : Passage} (h : entry.accounts = false) : writesOn id [entry] = [] := by
  cases entry <;> first | rfl | cases h

theorem sendsOn_quiet {entry : Passage} (h : entry.accounts = false) : sendsOn id [entry] = [] := by
  cases entry <;> first | rfl | cases h

theorem waiting_insert (l : Ledger) (id other : ℕ) (waiting : Octets × Bool) (bytes : ℕ) (passed : List Passage) :
    Ledger.waiting ⟨l.outbound.insert other waiting, bytes, passed⟩ id = if id = other then waiting else l.waiting id := by
  rw [Ledger.waiting, Ledger.waiting]
  split_ifs with h
  · rw [h, AList.lookup_insert]
    rfl
  · rw [AList.lookup_insert_ne h]

theorem waiting_erase (l : Ledger) (id other bytes : ℕ) (passed : List Passage) :
    Ledger.waiting ⟨l.outbound.erase other, bytes, passed⟩ id = if id = other then ([], false) else l.waiting id := by
  rw [Ledger.waiting, Ledger.waiting]
  split_ifs with h
  · rw [h, AList.lookup_erase]
    rfl
  · rw [AList.lookup_erase_ne h]

/-- An entry is a step of the stream it is about, and none of any other. -/
theorem step_outlet (hstep : Step l l') (hintact : Intact id l'.passed) :
    Outlet.Run (l.outlet id) (l'.outlet id) := by
  have hsame (h : l'.outlet id = l.outlet id) : Outlet.Run (l.outlet id) (l'.outlet id) := by
    rw [h]
  cases hstep with
  | record entry hquiet => exact hsame (outlet_congr rfl (writesOn_quiet hquiet) (sendsOn_quiet hquiet) rfl)
  | queue stream wasWaiting octets fin =>
    have hwaiting := waiting_insert l id stream ((l.waiting stream).1 ++ octets, (l.waiting stream).2 || fin)
      (l.bytes + octets.length) (.queued stream wasWaiting octets fin :: l.passed)
    by_cases h : stream = id
    · subst h
      rw [if_pos rfl] at hwaiting
      have hwrites : writesOn stream [.queued stream wasWaiting octets fin] = [(octets, fin)] := by simp [writesOn]
      have hpush : (l.queue stream wasWaiting octets fin).outlet stream = (l.outlet stream).push octets fin := by
        rw [outlet, queue, hwaiting, writesOn_cons, sendsOn_cons, hwrites]
        exact congrArg (Outlet.mk _ · _ _) (List.append_nil _)
      rw [hpush]
      exact .single (.push octets fin)
    · rw [if_neg (Ne.symm h)] at hwaiting
      exact hsame (outlet_congr rfl (by simp [writesOn, h]) rfl hwaiting)
  | send stream count buffer fin hlookup hcount hoffer =>
    by_cases h : stream = id
    · subst h
      have hheld : l.waiting stream = (buffer, fin) := by
        rw [waiting, hlookup]
        rfl
      have hsends : sendsOn stream [.sent stream (buffer.take count) (fin && (buffer.drop count).isEmpty)] =
          [(buffer.take count, fin && (buffer.drop count).isEmpty)] := by simp [sendsOn]
      have hwaiting : (l.send stream count buffer fin).waiting stream =
          (buffer.drop count, fin && !(buffer.drop count).isEmpty) := by
        rw [send]
        split_ifs with hempty
        · rw [waiting_erase, if_pos rfl, List.isEmpty_iff.1 hempty]
          simp
        · rw [waiting_insert, if_pos rfl]
          simp [hempty]
      have hpull : (l.send stream count buffer fin).outlet stream = (l.outlet stream).pull count := by
        rw [outlet, hwaiting, send, writesOn_cons, sendsOn_cons, hsends, Outlet.pull, outlet, hheld]
        exact congrArg (Outlet.mk · _ _ _) (List.append_nil _)
      rw [hpull]
      refine .single (.pull count ?_)
      rw [outlet, hheld]
      exact hoffer
    · refine hsame (outlet_congr rfl rfl (by simp [sendsOn, h]) ?_)
      rw [send]
      split_ifs
      · rw [waiting_erase, if_neg (Ne.symm h)]
      · rw [waiting_insert, if_neg (Ne.symm h)]
  | drop stream buffer fin =>
    have h : stream ≠ id := by simpa [Passage.discards] using hintact _ List.mem_cons_self
    exact hsame (outlet_congr rfl rfl rfl (by rw [drop, waiting_erase, if_neg h.symm]))
  | abandon stream code =>
    have h : stream ≠ id := by simpa [Passage.discards] using hintact _ List.mem_cons_self
    exact hsame (outlet_congr rfl rfl rfl (by rw [abandon, waiting_erase, if_neg h.symm]))
  | unframe stream =>
    refine hsame (outlet_congr rfl rfl rfl ?_)
    rw [unframe]
    split_ifs with hsome
    · rfl
    · rw [waiting_insert]
      split_ifs with h
      · rw [waiting, h, Option.not_isSome_iff_eq_none.1 hsome]
        rfl
      · rfl

theorem Step.passed (hstep : Step l l') : l.passed <:+ l'.passed := by
  cases hstep <;> exact List.suffix_cons _ _

/-- A run of entries is a run of each outlet nothing was dropped from. -/
theorem run_outlet {start : Ledger} (hrun : Run start l) (hstart : start.outlet id = .empty) (hintact : Intact id l.passed) :
    Outlet.Run .empty (l.outlet id) := by
  induction hrun with
  | refl =>
    rw [hstart]
  | tail _ hstep ih =>
    exact (ih fun entry hentry => hintact entry (hstep.passed.subset hentry)).trans (step_outlet hstep hintact)

/-! ## The count -/

/-- How much every stream has waiting. -/
def held (l : Ledger) : ℕ := l.outbound.sum (·.1.length)

/-- The count is what is waiting, and nothing waits that has nothing to send. -/
structure Settled (l : Ledger) : Prop where
  counted : l.bytes = l.held
  live : ∀ id buffer fin, l.outbound.lookup id = some (buffer, fin) → buffer ≠ [] ∨ fin = true

variable {entry : Passage}

theorem held_insert (l : Ledger) (id : ℕ) (waiting : Octets × Bool) (bytes : ℕ) (passed : List Passage) :
    held ⟨l.outbound.insert id waiting, bytes, passed⟩ + (l.waiting id).1.length = waiting.1.length + l.held := by
  rw [held, held, StreamMap.sum_insert, Ledger.waiting]
  rcases h : l.outbound.lookup id with _ | before
  · rw [StreamMap.erase_of_none h]
    rfl
  · rw [StreamMap.sum_erase h]
    dsimp only [Option.getD_some]
    omega

theorem held_erase (l : Ledger) (id bytes : ℕ) (passed : List Passage) :
    held ⟨l.outbound.erase id, bytes, passed⟩ + (l.waiting id).1.length = l.held := by
  rw [held, held, Ledger.waiting]
  rcases h : l.outbound.lookup id with _ | before
  · rw [StreamMap.erase_of_none h]
    rfl
  · rw [StreamMap.sum_erase h]
    dsimp only [Option.getD_some]
    omega

theorem waiting_of_lookup {buffer : Octets} {fin : Bool} (h : l.outbound.lookup id = some (buffer, fin)) :
    l.waiting id = (buffer, fin) := by
  rw [waiting, h]
  rfl

/-- Where one stream is given something to send, every stream that waits has something. -/
theorem live_insert {other : ℕ} {waiting : Octets × Bool} (h : Settled l) (hlive : waiting.1 ≠ [] ∨ waiting.2 = true)
    {buffer : Octets} {fin : Bool} (hlookup : (l.outbound.insert other waiting).lookup id = some (buffer, fin)) :
    buffer ≠ [] ∨ fin = true := by
  by_cases hid : id = other
  · rw [hid, AList.lookup_insert] at hlookup
    cases hlookup
    exact hlive
  · rw [AList.lookup_insert_ne hid] at hlookup
    exact h.live id buffer fin hlookup

theorem live_erase {other : ℕ} (h : Settled l) {buffer : Octets} {fin : Bool}
    (hlookup : (l.outbound.erase other).lookup id = some (buffer, fin)) : buffer ≠ [] ∨ fin = true := by
  by_cases hid : id = other
  · rw [hid, AList.lookup_erase] at hlookup
    cases hlookup
  · rw [AList.lookup_erase_ne hid] at hlookup
    exact h.live id buffer fin hlookup

/-- An entry that is regular leaves the count right. -/
theorem step_settled (h : Settled l) (hstep : Step l l') (hregular : ∀ entry ∈ l'.passed, entry.regular = true) :
    Settled l' := by
  have hcounted := h.counted
  cases hstep with
  | record entry _ => exact ⟨hcounted, h.live⟩
  | queue stream wasWaiting octets fin hwas =>
    have hheld := held_insert l stream ((l.waiting stream).1 ++ octets, (l.waiting stream).2 || fin)
      (l.bytes + octets.length) (.queued stream wasWaiting octets fin :: l.passed)
    rw [List.length_append] at hheld
    refine ⟨?_, fun id buffer ending => live_insert h ?_⟩
    · rw [queue] at *
      dsimp only
      omega
    · -- Either something was waiting already, or what was written is something to send.
      rcases hlookup : l.outbound.lookup stream with _ | ⟨before, ended⟩
      · have hsome : octets ≠ [] ∨ fin = true := by
          have hthis := hregular _ List.mem_cons_self
          rcases hwas with rfl | hne
          · simpa [Passage.regular, hlookup, List.isEmpty_iff] using hthis
          · exact .inl hne
        rw [waiting, hlookup]
        simpa using hsome
      · have hlive := h.live stream before ended hlookup
        rw [waiting_of_lookup hlookup]
        dsimp only
        rcases hlive with hlive | hlive
        · exact .inl (by simp [hlive])
        · exact .inr (by simp [hlive])
  | send stream count buffer fin hlookup hcount hoffer =>
    have hwaiting := waiting_of_lookup hlookup
    rw [send]
    split_ifs with hempty
    · have hheld := held_erase l stream (l.bytes - count)
        (.sent stream (buffer.take count) (fin && (buffer.drop count).isEmpty) :: l.passed)
      have hall : buffer.length ≤ count := List.drop_eq_nil_iff.1 (List.isEmpty_iff.1 hempty)
      rw [hwaiting] at hheld
      refine ⟨?_, fun id buffer ending => live_erase h⟩
      dsimp only at hheld ⊢
      omega
    · have hheld := held_insert l stream (buffer.drop count, fin) (l.bytes - count)
        (.sent stream (buffer.take count) (fin && (buffer.drop count).isEmpty) :: l.passed)
      rw [hwaiting] at hheld
      refine ⟨?_, fun id buffer ending => live_insert h (.inl (by simpa [List.isEmpty_iff] using hempty))⟩
      dsimp only at hheld ⊢
      rw [List.length_drop] at hheld
      omega
  | drop stream buffer fin hlookup =>
    have hheld := held_erase l stream (l.bytes - buffer.length) (.dropped stream buffer :: l.passed)
    rw [waiting_of_lookup hlookup] at hheld
    refine ⟨?_, fun id buffer ending => live_erase h⟩
    rw [drop] at *
    dsimp only at hheld ⊢
    omega
  | abandon stream code =>
    have hheld := held_erase l stream l.bytes (.reset stream code (l.waiting stream).1 :: l.passed)
    have hnone : (l.waiting stream).1 = [] := by
      simpa [Passage.regular, List.isEmpty_iff] using hregular _ List.mem_cons_self
    rw [hnone] at hheld
    refine ⟨?_, fun id buffer ending => live_erase h⟩
    rw [abandon, hnone]
    exact hcounted.trans hheld.symm
  | unframe stream =>
    have hsome : (l.outbound.lookup stream).isSome = true := hregular _ List.mem_cons_self
    rw [unframe, if_pos hsome]
    exact ⟨hcounted, h.live⟩

/-- A run of regular entries leaves the count right. -/
theorem run_settled {start : Ledger} (hrun : Run start l) (hstart : Settled start)
    (hregular : ∀ entry ∈ l.passed, entry.regular = true) : Settled l := by
  induction hrun with
  | refl => exact hstart
  | tail _ hstep ih => exact step_settled (ih fun entry hentry => hregular entry (hstep.passed.subset hentry)) hstep hregular

end Ledger

end H3

open H3 Pieces

namespace H3Worker

variable {world : World} {session : H3Session} {transport : QUICTransport} {events : Mailbox} {inputs : List Input}

/-! ## Runs of a worker -/

/-- What the transport took of a stream is what was written to it, as far as it got. The
    end of the stream comes behind everything, and once; where nothing is waiting,
    everything was taken, and the end if it was written. -/
structure InOrder (id : ℕ) (w : H3Worker) : Prop where
  taken : contents (sendsOn id w.passed) <+: contents (writesOn id w.passed)
  last : EndsLast (sendsOn id w.passed)
  ended : ended (sendsOn id w.passed) = true → contents (sendsOn id w.passed) = contents (writesOn id w.passed)
  whole : w.waiting id = ([], false) → contents (sendsOn id w.passed) = contents (writesOn id w.passed) ∧
    Pieces.ended (sendsOn id w.passed) = Pieces.ended (writesOn id w.passed)

/-- What is written to a stream goes out in order and once, whoever writes it and whoever has
    it sent. -/
theorem written_is_sent (id : ℕ) (hintact : Intact id (after world (new session transport events) inputs).passed)
    (hlast : EndsLast (writesOn id (after world (new session transport events) inputs).passed)) :
    InOrder id (after world (new session transport events) inputs) := by
  have haccounts := accounts_after world (new session transport events) inputs
  obtain ⟨w, hw⟩ : ∃ w, w = after world (new session transport events) inputs := ⟨_, rfl⟩
  rw [← hw] at haccounts hintact hlast ⊢
  have hrun := Ledger.run_outlet haccounts rfl hintact
  have hconserves : contents (sendsOn id w.passed) ++ (w.waiting id).1 = contents (writesOn id w.passed) :=
    Outlet.run_conserves hrun
  have hends := Outlet.run_ends hrun hlast
  refine ⟨⟨_, hconserves⟩, hends.last, fun hended => ?_, fun hwaiting => ⟨?_, ?_⟩⟩
  · have hheld : (w.waiting id).1 = [] := (hends.done hended).1
    rw [← hconserves, hheld, List.append_nil]
  · rw [← hconserves, hwaiting, List.append_nil]
  · have hwritten : ended (writesOn id w.passed) = (ended (sendsOn id w.passed) || (w.waiting id).2) := hends.written
    rw [hwritten, hwaiting, Bool.or_false]

/-- A server that has done nothing yet, before a transport whose first writes, those it opens
    its streams with, are taken whole and whose others end as given. -/
def server (writes : List (Option StreamWrite)) : H3Worker :=
  new (.new .origin .default) ⟨List.replicate 4 (some (.sent 64)) ++ writes, []⟩ ⟨8, false⟩

/-- A tunnel is written to and ended, and the driver has what is waiting written three times. -/
def writing : List Input := [.established true, .asked (.tunnel 0 ⟨4, false⟩), .wrote (0, lit "body", true), .writes false,
  .writes false, .writes false]

/-- So it does where a write is taken in two parts, with an attempt in between that is not. -/
theorem written_is_sent_partly :
    InOrder 0 (after .bare (server [some (.sent 1), some .blocked, some .blocked]) writing) :=
  written_is_sent 0 (by decide +kernel) (by decide +kernel)

/-- The count is the sum of what is waiting, and what waits has something to send. So writes
    are accepted while less is waiting than may be, and a connection the peer has left is
    closed once nothing is. -/
structure Counted (w : H3Worker) : Prop where
  count : w.outboundBytes = StreamMap.sum w.outbound (·.1.length)
  live : ∀ id buffer fin, w.outbound.lookup id = some (buffer, fin) → buffer ≠ [] ∨ fin = true
  accepting : StreamMap.sum w.outbound (·.1.length) < w.outboundLimit → w.acceptingWrites = true
  drains : (∀ id, w.waiting id = ([], false)) → w.session.goaway.isSome = true → w.session.streams.entries = [] →
    w.session.ready = [] → w.tunnels.entries = [] → ((windDown.run w).2).drained = true

/-- Where what waits has something to send and nothing has, nothing waits. -/
theorem nothing_waits {w : H3Worker} (h : w.ledger.Settled) (hnothing : ∀ id, w.waiting id = ([], false)) :
    w.outbound.entries = [] := by
  rcases hentries : w.outbound.entries with _ | ⟨⟨id, buffer, fin⟩, others⟩
  · rfl
  · have hlookup : w.outbound.lookup id = some (buffer, fin) := by
      rw [AList.lookup, hentries, List.dlookup_cons_eq]
    have hwaiting := hnothing id
    rw [waiting, hlookup, Option.getD_some, Prod.mk.injEq] at hwaiting
    rcases h.live id buffer fin hlookup with hlive | hlive
    · exact absurd hwaiting.1 hlive
    · rw [hwaiting.2] at hlive
      cases hlive

/-- A connection the peer has left is closed once nothing is left of it. -/
theorem windDown_drained {w : H3Worker} (hgoaway : w.session.goaway.isSome = true) (hstreams : w.session.streams.entries = [])
    (hready : w.session.ready = []) (houtbound : w.outbound.entries = []) (htunnels : w.tunnels.entries = []) :
    ((windDown.run w).2).drained = true := by
  rw [windDown, Act.run_bind_ok (Act.run_get w)]
  rcases hdrained : w.drained with _ | _
  · rw [if_neg (by simpa [Option.isSome_iff_ne_none] using hgoaway),
      if_neg (by simp [hstreams, hready, houtbound, htunnels])]
    rcases htell : w.events.trySend with ⟨_ | _ | _, events⟩ <;>
      simp only [Act.run, Act.modify, closeTransport, note, tell, htell, bind, pure]
  · rw [if_pos (by simp)]
    exact hdrained

/-- The count is kept in a run of regular entries. -/
theorem count_kept (hregular : ∀ entry ∈ (after world (new session transport events) inputs).passed, entry.regular = true) :
    Counted (after world (new session transport events) inputs) := by
  have hsettled := Ledger.run_settled (accounts_after world (new session transport events) inputs)
    ⟨rfl, fun _ _ _ h => nomatch h⟩ hregular
  refine ⟨hsettled.counted, hsettled.live, fun hlimit => ?_, fun hnothing hgoaway hstreams hready htunnels => ?_⟩
  · rw [acceptingWrites, decide_eq_true_eq]
    exact hsettled.counted.trans_lt hlimit
  · exact windDown_drained hgoaway hstreams hready (nothing_waits hsettled hnothing) htunnels

/-- So it is where a write is taken in two parts. -/
theorem count_kept_partly : Counted (after .bare (server [some (.sent 1), some .blocked]) writing) :=
  count_kept (by decide +kernel)

/-- A tunnel that is reset while four octets wait on it leaves them in the count for good. -/
theorem reset_leaves_count :
    let w := after .bare (server [some .blocked, some .blocked, some .blocked])
      [.established true, .asked (.tunnel 0 ⟨4, false⟩), .wrote (0, lit "body", false), .writes false,
        .asked (.reset 0 0x10c), .writes false]
    w.outboundBytes = 4 ∧ StreamMap.sum w.outbound (·.1.length) = 0 := by
  decide +kernel

end H3Worker

end Soyokaze

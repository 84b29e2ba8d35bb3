import Soyokaze.Protocol.H2.Deeds
import Soyokaze.Protocol.H2.FailedSends

/-!
# Streams that this end ended

On a stream that this end ended, or reset, it has nothing more to send.

* `lifecycle_kept`: it sends nothing more on one as long as messages go on streams alone
  whose state has this end still send, a tunnel's message has nothing behind its field
  section, and what is reset was opened before;
* `trailers_end`: the trailers of a message end its stream, whatever else is done.
-/

namespace Soyokaze

open H2

namespace H2

/-- Whether this end ended a stream with a frame, or reset it. -/
def Passed.finishes (id : ℕ) : Passed → Bool
  | sent (.headers other endStream _ _) => other == id && endStream
  | sent (.data other endStream _) => other == id && endStream
  | sent (.rstStream other _) => other == id
  | _ => false

/-- Whether this end ended a stream, or reset it. -/
def ended (id : ℕ) (log : List Passed) : Bool := log.any (Passed.finishes id)

/-- Whether more of a field section is to follow on a stream. -/
def Passed.unfinished (id : ℕ) : Passed → Bool
  | sent (.headers other _ endHeaders _) => other == id && !endHeaders
  | sent (.continuation other endHeaders _) => other == id && !endHeaders
  | _ => false

/-- Whether an entry may follow on what passed: field sections and DATA do on streams that this end has not ended, and
    the frames in which a section goes on right behind what it goes on from. -/
def Passed.timely (log : List Passed) : Passed → Bool
  | sent (.headers id ..) => !ended id log
  | sent (.data id ..) => !ended id log
  | sent (.continuation id ..) => log.head?.any (Passed.unfinished id)
  | _ => true

/-- Whether nothing was sent on a stream that this end had ended. -/
def timely : List Passed → Bool
  | [] => true
  | e :: log => e.timely log && timely log

/-- For every field section that was sent, whether it ended its stream, the latest first. -/
def sections (log : List Passed) : List Bool := log.filterMap fun
  | .sent (.headers _ endStream _ _) => some endStream
  | _ => none

@[simp] theorem ended_cons (id : ℕ) (e : Passed) (log : List Passed) : ended id (e :: log) = (e.finishes id || ended id log) := rfl

@[simp] theorem timely_cons (e : Passed) (log : List Passed) : timely (e :: log) = (e.timely log && timely log) := rfl

theorem Passed.finishes_of_unsent {e : Passed} (h : e.unsent = true) (id : ℕ) : e.finishes id = false := by
  cases e with
  | sent => cases h
  | _ => rfl

theorem Passed.timely_of_unsent {e : Passed} (h : e.unsent = true) (log : List Passed) : e.timely log = true := by
  cases e with
  | sent => cases h
  | _ => rfl

theorem Frame.finishes_of_control {frame : Frame} (h : frame.control = true) (id : ℕ) : (Passed.sent frame).finishes id = false := by
  cases frame with
  | headers | data | rstStream => cases h
  | _ => rfl

theorem Frame.timely_of_control {frame : Frame} (h : frame.control = true) (log : List Passed) :
    (Passed.sent frame).timely log = true := by
  cases frame with
  | headers | data | continuation => cases h
  | _ => rfl

end H2

namespace H2Connection

variable {α β : Type} {c c' c₁ : H2Connection} {id : ℕ} {world : World} {role : Role} {busy : Option ℕ} {whole : Bool}

/-! ## Order -/

/-- A stream of this number was opened, or can be no more. -/
def Past (role : Role) (c : H2Connection) (id : ℕ) : Prop :=
  (foreign role id = true → id ≤ c.highestPeerStreamId) ∧ (foreign role id = false → id < c.nextStreamId)

/-- All is as it should be while a message goes out on a stream, or none does: this end may no longer send on the
    streams it ended, but for that one. -/
structure Orderly (role : Role) (busy : Option ℕ) (c : H2Connection) : Prop where
  placed : Placed role c
  timely : timely c.passed = true
  past : ∀ id, ended id c.passed = true ∨ busy = some id → Past role c id
  settled : ∀ id stream, ended id c.passed = true → busy ≠ some id → c.streams.lookup id = some stream →
    stream.state.sendable = false

theorem Placed.past (h : Placed role c) (hheld : c.streams.lookup id ≠ none) : Past role c id :=
  ⟨fun hforeign => h.peers id hforeign hheld, fun hours => h.opened id hours hheld⟩

theorem Past.onward (h : Past role c id) (honward : Onward c c') : Past role c' id :=
  ⟨fun hforeign => (h.1 hforeign).trans honward.highest, fun hours => (h.2 hours).trans_le honward.next⟩

/-- Where no stream comes and none is sent on that was not, and nothing is said that ends one, all stays in order. -/
theorem Orderly.fewer (h : Orderly role busy c) (hfewer : Fewer c c') (htimely : H2.timely c'.passed = true)
    (hended : ∀ id, ended id c'.passed = ended id c.passed)
    (hsettled : ∀ id stream', c'.streams.lookup id = some stream' → ∃ stream, c.streams.lookup id = some stream ∧
      (stream.state.sendable = false → stream'.state.sendable = false)) : Orderly role busy c' where
  placed := h.placed.fewer hfewer
  timely := htimely
  past id hid := (h.past id (hid.imp_left fun h => (hended id).symm.trans h)).onward hfewer.onward
  settled id stream' hid hbusy hstream' := by
    obtain ⟨stream, hstream, hstill⟩ := hsettled id stream' hstream'
    exact hstill (h.settled id stream ((hended id).symm.trans hid) hbusy hstream)

theorem sendable_tended {stream stream' : H2Stream} (h : H2Stream.Tended stream stream')
    (hsilent : stream.state.sendable = false) : stream'.state.sendable = false := by
  rcases h.state with hstate | hstate | hstate <;> rw [hstate]
  · exact hsilent
  · rw [StreamState.sendable_begun, hsilent]
  · revert hsilent
    cases stream.state <;> decide

/-- A stream the peer opens is none that was. -/
theorem Orderly.admit (h : Orderly role busy c) {stream : H2Stream} (hid : id ≠ 0)
    (hpeers : (id % 2 = 1) = (!c.role.isClient)) (hhigher : c.highestPeerStreamId < id) : Orderly role busy { c with
      highestPeerStreamId := id
      streams := c.streams.insert id stream
      passed := .opened id :: c.passed } := by
  have hforeign : foreign role id = true := foreign_iff.2 (h.placed.same ▸ hpeers)
  have hheld {other : ℕ} (hother : other ≠ id) (hheld : (c.streams.insert id stream).lookup other ≠ none) :
      c.streams.lookup other ≠ none := by rwa [AList.lookup_insert_ne hother] at hheld
  refine ⟨⟨h.placed.same, h.placed.own, h.placed.positive, ?_, fun other hpeer hother => ?_, fun other hours hother => ?_⟩,
    h.timely, fun other hother => ?_, fun other stream' hother hbusy hstream' => ?_⟩
  · exact by_contra fun hzero => hheld hid.symm hzero h.placed.zero
  · by_cases heq : other = id
    · exact heq.le
    · exact (h.placed.peers other hpeer (hheld heq hother)).trans hhigher.le
  · have heq : other ≠ id := by
      rintro rfl
      cases hforeign.symm.trans hours
    exact h.placed.opened other hours (hheld heq hother)
  · exact (h.past other hother).onward ⟨hhigher.le, le_rfl⟩
  · have heq : other ≠ id := by
      rintro rfl
      exact absurd ((h.past other (.inl hother)).1 hforeign) (not_le.2 hhigher)
    exact h.settled other stream' hother hbusy ((AList.lookup_insert_ne heq).symm.trans hstream')

/-- What was reset is gone, and its number is no other stream's. -/
theorem Orderly.reset (h : Orderly role busy c) (code : ℕ) (hpast : Past role c id) : Orderly role busy { c with
      streams := c.streams.erase id
      out := c.out ++ (Frame.rstStream id code).encode
      passed := .sent (.rstStream id code) :: c.passed } := by
  have hother {other : ℕ} (hne : other ≠ id) : ended other (.sent (.rstStream id code) :: c.passed) = ended other c.passed := by
    rw [ended_cons, Passed.finishes, beq_false_of_ne (Ne.symm hne), Bool.false_or]
  refine ⟨h.placed.fewer ⟨rfl, rfl, rfl, fun other hheld => ?_⟩, h.timely, fun other hended => ?_,
    fun other stream' hended hbusy hstream' => ?_⟩
  · by_cases hne : other = id
    · subst hne
      exact absurd (AList.lookup_erase other c.streams) hheld
    · rwa [AList.lookup_erase_ne hne] at hheld
  · by_cases hne : other = id
    · exact hne ▸ hpast
    · exact h.past other (hended.imp_left (hother hne).symm.trans)
  · have hne : other ≠ id := by
      rintro rfl
      cases (AList.lookup_erase other c.streams).symm.trans hstream'
    exact h.settled other stream' ((hother hne).symm.trans hended) hbusy ((AList.lookup_erase_ne hne).symm.trans hstream')

/-- Whatever a connection does as it listens, it leaves all in order. -/
theorem Orderly.deed (h : Orderly role busy c) (hdeed : Deed reads whole c c') : Orderly role busy c' := by
  have hstreams (c' : H2Connection) (hlookup : ∀ id stream', c'.streams.lookup id = some stream' →
      ∃ stream, c.streams.lookup id = some stream ∧ (stream.state.sendable = false → stream'.state.sendable = false))
      (hrole : c'.role = c.role) (hnext : c'.nextStreamId = c.nextStreamId)
      (hhighest : c'.highestPeerStreamId = c.highestPeerStreamId) (hpassed : c'.passed = c.passed) : Orderly role busy c' := by
    refine h.fewer ⟨hrole, hnext, hhighest, fun id hheld => ?_⟩ (hpassed ▸ h.timely) (fun id => by rw [hpassed]) hlookup
    obtain ⟨stream', hstream'⟩ := Option.ne_none_iff_exists'.1 hheld
    obtain ⟨stream, hstream, -⟩ := hlookup id stream' hstream'
    exact hstream ▸ Option.some_ne_none _
  have hsame (id : ℕ) (stream' : H2Stream) (hstream' : c.streams.lookup id = some stream') : ∃ stream,
      c.streams.lookup id = some stream ∧ (stream.state.sendable = false → stream'.state.sendable = false) :=
    ⟨stream', hstream', fun h => h⟩
  have herased (id other : ℕ) (stream' : H2Stream) (hstream' : (c.streams.erase id).lookup other = some stream') : ∃ stream,
      c.streams.lookup other = some stream ∧ (stream.state.sendable = false → stream'.state.sendable = false) := by
    by_cases hother : other = id
    · rw [hother, AList.lookup_erase] at hstream'
      cases hstream'
    · exact ⟨stream', (AList.lookup_erase_ne hother).symm.trans hstream', fun h => h⟩
  have hmodified (id : ℕ) (f : H2Stream → H2Stream) (hf : ∀ stream, stream.state.sendable = false →
      (f stream).state.sendable = false) (other : ℕ) (stream' : H2Stream)
      (hstream' : (StreamMap.modify c.streams id f).lookup other = some stream') : ∃ stream,
      c.streams.lookup other = some stream ∧ (stream.state.sendable = false → stream'.state.sendable = false) := by
    rw [StreamMap.lookup_modify] at hstream'
    split_ifs at hstream'
    · obtain ⟨stream, hstream, rfl⟩ := Option.map_eq_some_iff.1 hstream'
      exact ⟨stream, hstream, hf stream⟩
    · exact hsame other stream' hstream'
  have hsaid (e : Passed) (hends : ∀ id, e.finishes id = false) (htimely : e.timely c.passed = true) (c' : H2Connection)
      (hkept : c'.streams = c.streams) (hrole : c'.role = c.role) (hnext : c'.nextStreamId = c.nextStreamId)
      (hhighest : c'.highestPeerStreamId = c.highestPeerStreamId) (hpassed : c'.passed = e :: c.passed) :
      Orderly role busy c' := by
    refine h.fewer ⟨hrole, hnext, hhighest, fun id hheld => hkept ▸ hheld⟩ ?_ (fun id => ?_) fun id stream' hstream' =>
      hsame id stream' (hkept ▸ hstream')
    · rw [hpassed, timely_cons, htimely, h.timely]
      rfl
    · rw [hpassed, ended_cons, hends, Bool.false_or]
  cases hdeed with
  | aside => exact hstreams _ hsame rfl rfl rfl rfl
  | read => exact hstreams _ hsame rfl rfl rfl rfl
  | note unsent =>
    exact hsaid _ (Passed.finishes_of_unsent unsent) (Passed.timely_of_unsent unsent _) _ rfl rfl rfl rfl rfl
  | queue control =>
    exact hsaid _ (Frame.finishes_of_control control) (Frame.timely_of_control control _) _ rfl rfl rfl rfl rfl
  | reset id code held => exact h.reset code (h.placed.past held)
  | flushed => exact hstreams _ hsame rfl rfl rfl rfl
  | drop id => exact hstreams _ (herased id) rfl rfl rfl rfl
  | tend id tended => exact hstreams _ (hmodified id _ fun stream => sendable_tended (tended stream)) rfl rfl rfl rfl
  | gather id f => exact hstreams _ (hmodified id (fun stream => { stream with block := f stream.block }) fun _ h => h) rfl rfl rfl rfl
  | credit tended =>
    refine hstreams _ (fun other stream' hstream' => ?_) rfl rfl rfl rfl
    rw [StreamMap.lookup_mapValues] at hstream'
    obtain ⟨stream, hstream, rfl⟩ := Option.map_eq_some_iff.1 hstream'
    exact ⟨stream, hstream, sendable_tended (tended stream)⟩
  | hold id data =>
    exact hstreams _ (hmodified id (fun stream => { stream with body := stream.body ++ data }) fun _ h => h) rfl rfl rfl rfl
  | raise id positive peers higher =>
    refine ⟨⟨h.placed.same, h.placed.own, h.placed.positive, h.placed.zero, fun other hpeer hheld =>
      (h.placed.peers other hpeer hheld).trans higher.le, h.placed.opened⟩, h.timely, fun other hother => ?_, h.settled⟩
    exact (h.past other hother).onward ⟨higher.le, le_rfl⟩
  | begin' id positive peers higher absent => exact h.admit positive peers higher

theorem orderly_listens {m : Step α} (hm : Listens true m) (h : Orderly role busy c) : Orderly role busy (m.run c).2 :=
  hm.keeps (fun _ _ hdeed h => h.deed hdeed) c h

/-! ## A stream that a message goes out on -/

/-- The stream is there for as long as this end has not ended it. -/
def Live (id : ℕ) (c : H2Connection) : Prop := ended id c.passed = true → c.streams.lookup id = none

theorem live_deed (h : Orderly role (some id) c) (hlive : Live id c) (hdeed : Deed reads whole c c') : Live id c' := by
  have hpast := h.past id (.inr rfl)
  have hkept {streams : StreamMap H2Stream} (hlookup : c.streams.lookup id = none → streams.lookup id = none)
      (hended : ended id c.passed = true) : streams.lookup id = none := hlookup (hlive hended)
  have hmodified (other : ℕ) (f : H2Stream → H2Stream) (hnone : c.streams.lookup id = none) :
      (StreamMap.modify c.streams other f).lookup id = none := by
    rw [StreamMap.lookup_modify, hnone]
    exact ite_self _
  cases hdeed with
  | aside => exact hlive
  | read => exact hlive
  | note unsent =>
    intro hended
    rw [ended_cons, Passed.finishes_of_unsent unsent] at hended
    exact hlive hended
  | queue control =>
    intro hended
    rw [ended_cons, Frame.finishes_of_control control] at hended
    exact hlive hended
  | reset other code held =>
    intro hended
    by_cases heq : id = other
    · exact heq ▸ AList.lookup_erase other c.streams
    · rw [ended_cons, Passed.finishes, beq_false_of_ne (Ne.symm heq)] at hended
      exact (AList.lookup_erase_ne heq).trans (hlive hended)
  | flushed => exact hlive
  | drop other =>
    refine hkept fun hnone => ?_
    by_cases heq : id = other
    · exact heq ▸ AList.lookup_erase other c.streams
    · exact (AList.lookup_erase_ne heq).trans hnone
  | tend other => exact hkept (hmodified other _)
  | gather other f => exact hkept (hmodified other fun stream => { stream with block := f stream.block })
  | credit => exact hkept fun hnone => by rw [StreamMap.lookup_mapValues, hnone]; rfl
  | hold other data => exact hkept (hmodified other fun stream => { stream with body := stream.body ++ data })
  | raise => exact hlive
  | begin' other positive peers higher absent =>
    refine hkept fun hnone => ?_
    have hother : id ≠ other := by
      rintro rfl
      exact absurd (hpast.1 (foreign_iff.2 (h.placed.same ▸ peers))) (not_le.2 higher)
    exact (AList.lookup_insert_ne hother).trans hnone

/-- All is in order, and the stream a message goes out on is there for as long as it has not ended. -/
def Going (role : Role) (id : ℕ) (c : H2Connection) : Prop := Orderly role (some id) c ∧ Live id c

theorem going_listens {m : Step α} (hm : Listens true m) (h : Going role id c) : Going role id (m.run c).2 :=
  hm.keeps (fun _ _ hdeed h => ⟨h.1.deed hdeed, live_deed h.1 h.2 hdeed⟩) c h

theorem Going.orderly (h : Going role id c) : Orderly role none c where
  placed := h.1.placed
  timely := h.1.timely
  past other hother := h.1.past other (hother.imp_right fun hnone => by cases hnone)
  settled other stream hother _ hstream := by
    by_cases heq : other = id
    · subst heq
      cases (h.2 hother).symm.trans hstream
    · exact h.1.settled other stream hother (fun hbusy => heq (Option.some.inj hbusy).symm) hstream

theorem Orderly.ready (h : Orderly role busy c) (ready : List Message) : Orderly role busy { c with ready := ready } :=
  h.fewer ⟨rfl, rfl, rfl, fun _ hheld => hheld⟩ h.timely (fun _ => rfl) fun _ stream hstream => ⟨stream, hstream, fun h => h⟩

/-! ## Field sections -/

/-- What is on the record once a field section went out on a stream. -/
structure Framed (id : ℕ) (endStream : Bool) (log log' : List Passed) : Prop where
  timely : ended id log = false → H2.timely log = true → H2.timely log' = true
  ended : ∀ other, H2.ended other log' = ((id == other && endStream) || H2.ended other log)
  sections : sections log' = endStream :: sections log

theorem writeContinuations_run (id : ℕ) (pieces : List Octets) (c : H2Connection) : ∃ out passed,
    (writeContinuations id pieces).run c = (.ok (), { c with out := out, passed := passed }) ∧
      ((pieces ≠ [] → c.passed.head?.any (Passed.unfinished id) = true) → H2.timely c.passed = true → H2.timely passed = true) ∧
      (∀ other, ended other passed = ended other c.passed) ∧ sections passed = sections c.passed := by
  induction pieces generalizing c with
  | nil => exact ⟨c.out, c.passed, rfl, fun _ h => h, fun _ => rfl, rfl⟩
  | cons piece pieces ih =>
    obtain ⟨out, passed, hrun, htimely, hended, hsections⟩ := ih { c with
      out := c.out ++ (Frame.continuation id pieces.isEmpty piece).encode
      passed := .sent (.continuation id pieces.isEmpty piece) :: c.passed }
    refine ⟨out, passed, hrun, fun hhead hlog => htimely (fun hmore => ?_) ?_, hended, hsections⟩
    · cases pieces with
      | nil => exact absurd rfl hmore
      | cons =>
        rw [List.head?_cons, Option.any_some, Passed.unfinished, beq_self_eq_true]
        rfl
    · rw [timely_cons, hlog, Bool.and_true]
      exact hhead (List.cons_ne_nil _ _)

theorem writeSection_run (id : ℕ) (fields : List HeaderField) (endStream : Bool) (c : H2Connection) : ∃ out passed,
    (writeSection id fields endStream).run c =
      (.ok (), { c with hpackEncoder := (c.hpackEncoder.encode fields).1, out := out, passed := passed }) ∧
    Framed id endStream c.passed passed := by
  generalize hpieces : chunks (max c.settingsRemote.maxFrameSize 1) (c.hpackEncoder.encode fields).2.length
    (c.hpackEncoder.encode fields).2 = pieces
  obtain ⟨out, passed, hrun, htimely, hended, hsections⟩ := writeContinuations_run id pieces.tail { c with
    hpackEncoder := (c.hpackEncoder.encode fields).1
    out := c.out ++ (Frame.headers id endStream pieces.tail.isEmpty (pieces.headD [])).encode
    passed := .sent (.headers id endStream pieces.tail.isEmpty (pieces.headD [])) :: c.passed }
  subst hpieces
  refine ⟨out, passed, hrun, fun hopen hlog => htimely (fun hmore => ?_) ?_, hended, hsections⟩
  · rw [← List.isEmpty_eq_false_iff] at hmore
    rw [List.head?_cons, Option.any_some, Passed.unfinished, hmore, beq_self_eq_true]
    rfl
  · rw [timely_cons, hlog, Bool.and_true, Passed.timely, hopen]
    rfl

/-! ## Bodies -/

theorem flushOut_passed (c : H2Connection) :
    (flushOut.run c).2.passed = c.passed ∨ (flushOut.run c).2.passed = .failed :: c.passed := by
  simp only [flushOut, Act.run]
  split_ifs
  · exact .inl rfl
  · split
    · exact .inl rfl
    · exact .inr rfl

theorem writeChunk_passed (id : ℕ) (chunk : Octets) (last : Bool) (c : H2Connection) :
    ((writeChunk id chunk last).run c).2.passed = .sent (.data id last chunk) :: c.passed ∨
      ((writeChunk id chunk last).run c).2.passed = .failed :: .sent (.data id last chunk) :: c.passed := by
  have hflush (c : H2Connection) :
      (flushAtHighWater.run c).2.passed = c.passed ∨ (flushAtHighWater.run c).2.passed = .failed :: c.passed := by
    rw [flushAtHighWater, Act.run_bind_ok (Act.run_get c)]
    split_ifs
    · exact flushOut_passed c
    · exact .inl rfl
  have hpassed := hflush { c with
    out := c.out ++ (Frame.data id last chunk).encode, passed := .sent (.data id last chunk) :: c.passed }
  rw [writeChunk, Act.run_bind_ok (show (queue _).run c = _ from rfl), Act.run_bind]
  rcases hrun : flushAtHighWater.run _ with ⟨error | _, c'⟩ <;> rw [hrun] at hpassed <;> exact hpassed

/-- A chunk goes out in order on a stream that this end has not ended, and ends it if it is the last. -/
theorem writeChunk_orderly (h : Orderly role (some id) c) (hopen : ended id c.passed = false) (chunk : Octets) (last : Bool) :
    Orderly role (some id) ((writeChunk id chunk last).run c).2 ∧
      ended id ((writeChunk id chunk last).run c).2.passed = last := by
  have hrest : Listens true (do
      flushAtHighWater
      Act.modify fun c => { c with
        windowRemote := c.windowRemote - chunk.length
        streams := StreamMap.modify c.streams id fun stream =>
          { stream with windowRemote := stream.windowRemote - chunk.length } } : Step Unit) := by
    refine Act.Chains.bind ?_ fun _ c => ?_
    · refine Act.Chains.get.bind fun c => ?_
      split_ifs
      · exact listens_flushOut
      · exact .pure _
    · refine Relation.ReflTransGen.head (Deed.tend (f := fun stream => { stream with
        windowRemote := stream.windowRemote - chunk.length }) id fun _ => ⟨.inl rfl, rfl, .inl rfl, .inl rfl⟩) (.single ?_)
      exact .aside _ _ _ _ _ _ _ _ _ _ (c.windowRemote - chunk.length)
  have hqueued : Orderly role (some id) { c with
      out := c.out ++ (Frame.data id last chunk).encode, passed := .sent (.data id last chunk) :: c.passed } := by
    refine ⟨h.placed.fewer ⟨rfl, rfl, rfl, fun _ h => h⟩, ?_, fun other hother => ?_, fun other stream hother hbusy hstream => ?_⟩
    · rw [timely_cons, h.timely, Bool.and_true, Passed.timely, hopen]
      rfl
    · rcases eq_or_ne id other with rfl | hne
      · exact h.past id (.inr rfl)
      · refine h.past other (hother.imp_left fun hended => ?_)
        rwa [ended_cons, Passed.finishes, beq_false_of_ne hne, Bool.false_and, Bool.false_or] at hended
    · have hne : id ≠ other := fun heq => hbusy (congrArg some heq)
      rw [ended_cons, Passed.finishes, beq_false_of_ne hne, Bool.false_and, Bool.false_or] at hother
      exact h.settled other stream hother hbusy hstream
  have hkept := orderly_listens hrest hqueued
  refine ⟨hkept, ?_⟩
  have hended : ended id (.sent (.data id last chunk) :: c.passed) = last := by
    rw [ended_cons, Passed.finishes, beq_self_eq_true, hopen, Bool.true_and, Bool.or_false]
  rcases writeChunk_passed id chunk last c with hpassed | hpassed <;> rw [hpassed]
  · exact hended
  · exact hended

/-- What the writing of a body on a stream comes to. -/
structure Written (role : Role) (id : ℕ) (endStream : Bool) (outcome : Except Error Unit × H2Connection) : Prop where
  orderly : Orderly role (some id) outcome.2
  going : outcome.1 = .ok () → endStream = false → ended id outcome.2.passed = false
  failed : ∀ error, outcome.1 = .error error → outcome.2.Failed ∨ Live id outcome.2

theorem going_awaitCredit (world : World) (h : Going role id c) : Going role id ((awaitCredit world).run c).2 := by
  have hpump := going_listens (listens_pump world) h
  rw [awaitCredit, Act.run_bind]
  rcases hrun : (pump world).run c with ⟨error | _ | m, c'⟩ <;> rw [hrun] at hpump
  · exact hpump
  · exact hpump
  · exact ⟨hpump.1.ready _, hpump.2⟩

theorem awaitCredit_error {error : Error} (h : (awaitCredit world).run c = (.error error, c')) : c'.Failed := by
  rw [awaitCredit, Act.run_bind] at h
  rcases hrun : (pump world).run c with ⟨error | _ | m, c₁⟩ <;> rw [hrun] at h <;> cases h
  exact fatal_failed hrun

theorem written_writeDataLoop (world : World) (id : ℕ) (endStream : Bool) (fuel : ℕ) (rest : Octets) (h : Going role id c) :
    Written role id endStream ((writeDataLoop world id endStream fuel rest).run c) := by
  -- By induction on the fuel: a round waits for credit or writes a chunk, on a stream that is still there.
  induction fuel generalizing c rest with
  | zero => exact ⟨h.1, fun hok => (by cases hok), fun _ _ => .inr h.2⟩
  | succ fuel ih =>
    rw [writeDataLoop, Act.run_bind_ok (Act.run_get c)]
    cases hstream : c.streams.lookup id with
    | none => exact ⟨h.1, fun hok => (by cases hok), fun _ _ => .inr h.2⟩
    | some stream =>
      have hopen : ended id c.passed = false := Bool.eq_false_iff.2 fun hended => by cases hstream.symm.trans (h.2 hended)
      dsimp only
      split
      · have hawait := going_awaitCredit world h
        rw [Act.run_bind]
        rcases hrun : (awaitCredit world).run c with ⟨error | _, c'⟩ <;> rw [hrun] at hawait
        · exact ⟨hawait.1, fun hok => (by cases hok), fun _ _ => .inl (awaitCredit_error hrun)⟩
        · exact ih rest hawait
      · generalize rest.take (c.chunkSize stream rest) = chunk
        generalize hlast : (endStream && (rest.drop (c.chunkSize stream rest)).isEmpty) = last
        obtain ⟨horderly, hended⟩ := writeChunk_orderly h.1 hopen chunk last
        rw [Act.run_bind]
        rcases hrun : (writeChunk id chunk last).run c with ⟨error | _, c'⟩ <;> rw [hrun] at horderly hended
        · exact ⟨horderly, fun hok => (by cases hok), fun _ _ => .inl (writeChunk_error hrun).1⟩
        · dsimp only
          split_ifs with hdone
          · refine ⟨horderly, fun _ hgoes => ?_, fun _ herror => (by cases herror)⟩
            rw [hgoes, Bool.false_and] at hlast
            exact hended.trans hlast.symm
          · refine ih _ ⟨horderly, fun hover => ?_⟩
            rw [Bool.eq_false_iff.2 hdone, Bool.and_false] at hlast
            cases hover.symm.trans (hended.trans hlast.symm)

/-! ## Messages -/

/-- All is in order, or the connection failed before anything was out of order. -/
def Settled (role : Role) (c : H2Connection) : Prop := Orderly role none c ∨ c.Failed ∧ timely c.passed = true

theorem Settled.timely (h : Settled role c) : H2.timely c.passed = true := by
  rcases h with h | h
  · exact h.timely
  · exact h.2

theorem Orderly.engage (h : Orderly role none c) (hheld : c.streams.lookup id ≠ none) : Orderly role (some id) c where
  placed := h.placed
  timely := h.timely
  past other hother := by
    rcases hother with hended | hbusy
    · exact h.past other (.inl hended)
    · exact Option.some.inj hbusy ▸ h.placed.past hheld
  settled other stream hother _ hstream := h.settled other stream hother (Option.some_ne_none _).symm hstream

theorem writeSection_orderly (h : Orderly role (some id) c) (hopen : ended id c.passed = false) (fields : List HeaderField)
    (endStream : Bool) : ∃ c₁, (writeSection id fields endStream).run c = (.ok (), c₁) ∧ Orderly role (some id) c₁ ∧
      ended id c₁.passed = endStream := by
  obtain ⟨out, passed, hrun, hframed⟩ := writeSection_run id fields endStream c
  refine ⟨_, hrun, ⟨h.placed.fewer ⟨rfl, rfl, rfl, fun _ h => h⟩, hframed.timely hopen h.timely, fun other hother => ?_,
    fun other stream hother hbusy hstream => ?_⟩, ?_⟩
  · rcases eq_or_ne id other with rfl | hne
    · exact h.past id (.inr rfl)
    · refine h.past other (hother.imp_left fun hended => ?_)
      rwa [hframed.ended, beq_false_of_ne hne, Bool.false_and, Bool.false_or] at hended
  · have hne : id ≠ other := fun heq => hbusy (congrArg some heq)
    rw [hframed.ended, beq_false_of_ne hne, Bool.false_and, Bool.false_or] at hother
    exact h.settled other stream hother hbusy hstream
  · rw [hframed.ended, beq_self_eq_true, hopen, Bool.true_and, Bool.or_false]

theorem StreamState.sendable_closeLocal (state : StreamState) : state.closeLocal.sendable = false := by
  cases state <;> rfl

/-- Once the message is out its stream is one this end may no longer send on, unless it did not end. -/
theorem finishSending_orderly (h : Orderly role (some id) c) {open' : Bool}
    (hends : open' = true → ended id c.passed = false) (m : Message) :
    Orderly role none ((finishSending id m open').run c).2 := by
  refine orderly_listens (listens_retire id) (c := { c with streams := StreamMap.modify c.streams id fun stream => { stream with
    state := if open' then stream.state else stream.state.closeLocal
    method := if m.isRequest then m.method else stream.method } }) ?_
  refine ⟨h.placed.fewer ⟨rfl, rfl, rfl, fun other hheld => ?_⟩, h.timely,
    fun other hother => h.past other (.inl (hother.resolve_right fun hnone => by cases hnone)),
    fun other stream' hother _ hstream' => ?_⟩
  · rw [StreamMap.lookup_modify] at hheld
    split at hheld
    · exact fun hnone => hheld (by rw [hnone]; rfl)
    · exact hheld
  · rw [StreamMap.lookup_modify] at hstream'
    by_cases heq : other = id
    · subst heq
      rw [if_pos rfl] at hstream'
      obtain ⟨stream, hstream, rfl⟩ := Option.map_eq_some_iff.1 hstream'
      cases open' with
      | true => cases (hends rfl).symm.trans hother
      | false => exact StreamState.sendable_closeLocal stream.state
    · rw [if_neg heq] at hstream'
      exact h.settled other stream' hother (fun hbusy => heq (Option.some.inj hbusy).symm) hstream'

/-- A message goes out in order on a stream this end may still send on, if nothing is behind the field section of one
    that leaves it open. -/
theorem sendOn_orderly {stream : H2Stream} {m : Message} (h : Orderly role none c) (hstream : c.streams.lookup id = some stream)
    (hfits : ∀ o, compose world (some stream) m = .ok o →
      stream.state.sendable = true ∧ (o.open' = true → o.body = none ∧ o.trailers = none)) :
    Settled role ((sendOn world id m).run c).2 := by
  rw [sendOn, Act.run_bind_ok (Act.run_get c), hstream]
  cases hcompose : compose world (some stream) m with
  | error error => exact .inl h
  | ok o =>
    obtain ⟨hsendable, hbehind⟩ := hfits o hcompose
    have hopen : ended id c.passed = false := Bool.eq_false_iff.2 fun hended => by
      cases hsendable.symm.trans (h.settled id stream hended (Option.some_ne_none _).symm hstream)
    rw [Act.run_bind_ok (Act.run_ofExcept _ c)]
    have hheld : c.streams.lookup id ≠ none := hstream ▸ Option.some_ne_none _
    have hengaged := h.engage hheld
    generalize hend : (!o.open' && o.body.isNone && o.trailers.isNone) = endStream
    obtain ⟨c₁, hhead, hc₁, hended₁⟩ := writeSection_orderly hengaged hopen o.fields endStream
    rw [Act.run_bind_ok hhead, Act.run_bind]
    -- The body, if there is one, goes out on a stream that was not ended.
    have hbody : Written role id o.trailers.isNone ((writeBody world id o.body o.trailers.isNone).run c₁) := by
      cases hsome : o.body with
      | none =>
        refine ⟨hc₁, fun _ htrailers => ?_, fun _ herror => (by cases herror)⟩
        rw [htrailers, Bool.and_false] at hend
        exact hended₁.trans hend.symm
      | some body =>
        refine written_writeDataLoop world id _ _ body ⟨hc₁, fun hended => ?_⟩
        rw [hsome, Option.isNone_some, Bool.and_false, Bool.false_and] at hend
        cases hended.symm.trans (hended₁.trans hend.symm)
    have hstill (hgoes : o.open' = true) : (writeBody world id o.body o.trailers.isNone).run c₁ = (.ok (), c₁) := by
      rw [(hbehind hgoes).1]
      rfl
    rcases hrun : (writeBody world id o.body o.trailers.isNone).run c₁ with ⟨error | _, c₂⟩ <;> rw [hrun] at hbody hstill
    · rcases hbody.failed error rfl with hfailed | hlive
      · exact .inr ⟨hfailed, hbody.orderly.timely⟩
      · exact .inl (Going.orderly ⟨hbody.orderly, hlive⟩)
    have htrailers : ∃ c₃, (writeTrailers id o.trailers).run c₂ = (.ok (), c₃) ∧ Orderly role (some id) c₃ ∧
        (o.open' = true → ended id c₃.passed = false) := by
      cases hsome : o.trailers with
      | none =>
        refine ⟨c₂, rfl, hbody.orderly, fun hgoes => ?_⟩
        rw [hgoes, Bool.not_true, Bool.false_and, Bool.false_and] at hend
        rw [show c₂ = c₁ from congrArg Prod.snd (hstill hgoes), hended₁, ← hend]
      | some fields =>
        have hopen₂ := hbody.going rfl (by rw [hsome]; rfl)
        obtain ⟨c₃, htrailer, hc₃, -⟩ := writeSection_orderly hbody.orderly hopen₂ fields true
        exact ⟨c₃, htrailer, hc₃, fun hgoes => by cases hsome.symm.trans (hbehind hgoes).2⟩
    obtain ⟨c₃, htrailer, hc₃, hends⟩ := htrailers
    dsimp only
    rw [Act.run_bind_ok htrailer]
    have hfinish := finishSending_orderly hc₃ hends o.message
    rw [Act.run_bind_ok (show (finishSending id o.message o.open').run c₃ = (.ok (), _) from rfl)]
    exact .inl (orderly_listens listens_flushIfDrained hfinish)

theorem allocate_orderly (h : Orderly role none c) (m : Message) : Orderly role none ((allocate m).run c).2 := by
  rw [allocate, Act.run_bind_ok (Act.run_get c)]
  cases m.streamId with
  | some id =>
    rw [show ((do
        Act.demand (c.streams.lookup id).isSome (.stream id Code.STREAM_CLOSED "stream {id} is no longer open" [.number id])
        return id : Step ℕ).run c).2 = c by rw [Act.run_bind, Act.run_demand]; split_ifs <;> rfl]
    exact h
  | none =>
    dsimp only
    by_cases hroom : c.streams.entries.length < c.localStreamCeiling
    · rw [Act.run_bind_demand (decide_eq_true hroom)]
      -- The stream has a number that no stream had before.
      have hplaced : Placed role { c with
          nextStreamId := c.nextStreamId + 2
          streams := c.streams.insert c.nextStreamId
            (.new c.settingsLocal.initialWindowSize c.settingsRemote.initialWindowSize)
          passed := .opened c.nextStreamId :: c.passed } := h.placed.allocated rfl
      refine ⟨hplaced, h.timely, fun other hother => ?_, fun other stream hother hbusy hstream => ?_⟩
      · exact (h.past other hother).onward ⟨le_rfl, Nat.le_add_right _ _⟩
      · have hne : other ≠ c.nextStreamId := by
          rintro rfl
          exact absurd ((h.past _ (.inl hother)).2 h.placed.own) (lt_irrefl _)
        exact h.settled other stream hother hbusy ((AList.lookup_insert_ne hne).symm.trans hstream)
    · rw [Act.run_bind_refused (decide_eq_false hroom)]
      exact h

/-- Whether what is done next looks at the state of the stream it is done on, as it has to: a message that can be framed
    goes on a stream this end may still send on, one that leaves it open has nothing behind its field section, and what
    is reset was opened before. -/
def Fits (world : World) (c : H2Connection) : Event → Prop
  | .send m => ∀ stream o, c.berth (c.finalize world m) = some stream → compose world (some stream) (c.finalize world m) = .ok o →
      stream.state.sendable = true ∧ (o.open' = true → o.body = none ∧ o.trailers = none)
  | .writeData id _ endStream => ∀ stream, c.streams.lookup id = some stream → stream.state.sendable = true ∧ endStream = false
  | .reset id _ => Past c.role c id
  | _ => True

theorem sendMessage_orderly {m : Message} (h : Orderly role none c) (hfits : Fits world c (.send m)) :
    Settled role ((sendMessage world m).run c).2 := by
  rw [sendMessage, Act.run_bind_ok (Act.run_get c)]
  have hstarted := orderly_listens listens_start h
  by_cases hstarts : c.Starts
  · obtain ⟨c₁, c₂, hstart, hflush, hpoised⟩ := poised_of_starts hstarts
    rw [Act.run_bind_ok hstart, Act.run_bind_ok hflush]
    rw [hstart] at hstarted
    have hflushed := orderly_listens listens_flushResets hstarted
    rw [hflush] at hflushed
    cases hberth : c.berth (c.finalize world m) with
    | none =>
      obtain ⟨error, hrefused⟩ := allocate_refused hpoised hberth
      rw [Act.run_bind_error hrefused]
      exact .inl hflushed
    | some stream =>
      obtain ⟨id, c₃, hallocate, hstream, -⟩ := allocate_berth hpoised hberth
      have hallocated := allocate_orderly hflushed (c.finalize world m)
      rw [hallocate] at hallocated
      rw [Act.run_bind_ok hallocate]
      exact sendOn_orderly hallocated hstream fun o hcompose => hfits stream o hberth hcompose
  · rcases hstart : start.run c with ⟨error | _, c₁⟩
    · rw [hstart] at hstarted
      rw [Act.run_bind_error hstart]
      exact .inl hstarted
    · exact absurd ((start_ok_iff c).1 (congrArg Prod.fst hstart)) hstarts

theorem receiveMessage_orderly (h : Orderly role none c) (world : World) :
    Orderly role none ((receiveMessage world).run c).2 := by
  have hpump : Survives (Orderly role none) (pump world) := fun _ => orderly_listens (listens_pump world)
  suffices hall : ∀ fuel, Survives (Orderly role none) (receiveLoop world fuel) from hall _ c h
  intro fuel
  -- By induction on the fuel: a round takes a message that is ready, or pumps.
  induction fuel with
  | zero => exact Survives.fail _
  | succ fuel ih =>
    refine Survives.bind (Survives.get.bind fun c => ?_) fun m => ?_
    · split
      · exact Survives.bind (fun _ h => h.ready _) fun _ => Survives.pure _
      · exact hpump
    · cases m with
      | some m => exact Survives.get.bind fun _ => Survives.ofExcept _
      | none =>
        refine Survives.get.bind fun c => ?_
        split_ifs
        · exact Survives.fail _
        · exact ih

theorem writeData_orderly {data : Octets} {endStream : Bool} (h : Orderly role none c)
    (hfits : Fits world c (.writeData id data endStream)) : Settled role ((writeData world id data endStream).run c).2 := by
  have hrun : (writeData world id data endStream).run c =
      (writeDataLoop world id endStream (data.length + c.source.left + 1) data).run c := rfl
  rw [hrun]
  cases hstream : c.streams.lookup id with
  | none =>
    rw [writeDataLoop, Act.run_bind_ok (Act.run_get c), hstream]
    exact .inl h
  | some stream =>
    obtain ⟨hsendable, hgoes⟩ := hfits stream hstream
    have hopen : ended id c.passed = false := Bool.eq_false_iff.2 fun hended => by
      cases hsendable.symm.trans (h.settled id stream hended (Option.some_ne_none _).symm hstream)
    have hheld : c.streams.lookup id ≠ none := hstream ▸ Option.some_ne_none _
    have hengaged := h.engage hheld
    have hwritten := written_writeDataLoop world id endStream (data.length + c.source.left + 1) data
      ⟨hengaged, fun hended => by cases hopen.symm.trans hended⟩
    rcases hloop : (writeDataLoop world id endStream (data.length + c.source.left + 1) data).run c with ⟨error | _, c'⟩ <;>
      rw [hloop] at hwritten
    · rcases hwritten.failed error rfl with hfailed | hlive
      · exact .inr ⟨hfailed, hwritten.orderly.timely⟩
      · exact .inl (Going.orderly ⟨hwritten.orderly, hlive⟩)
    · have hended := hwritten.going rfl hgoes
      exact .inl (Going.orderly ⟨hwritten.orderly, fun h => by cases hended.symm.trans h⟩)

theorem mark_orderly (h : Orderly role none c) (id code : ℕ) : Orderly role none ((mark id code).run c).2 := by
  simp only [mark, Act.run_modify]
  split_ifs
  · refine h.fewer ⟨rfl, rfl, rfl, fun other hheld => ?_⟩ h.timely (fun _ => rfl) fun other stream' hstream' => ?_
    · rw [StreamMap.lookup_modify] at hheld
      split at hheld
      · exact fun hnone => hheld (by rw [hnone]; rfl)
      · exact hheld
    · rw [StreamMap.lookup_modify] at hstream'
      split at hstream'
      · obtain ⟨stream, hstream, rfl⟩ := Option.map_eq_some_iff.1 hstream'
        exact ⟨stream, hstream, fun _ => rfl⟩
      · exact ⟨stream', hstream', fun h => h⟩
  · exact h

/-- Whatever is done with a connection that fits, all is in order behind it. -/
theorem perform_orderly {event : Event} (h : Orderly role none c) (hfits : Fits world c event) :
    Settled role ((perform world event).run c).2 := by
  have hmap {α β : Type} (f : α → β) (m : Step α) : ((f <$> m).run c).2 = (m.run c).2 := congrArg Prod.snd (Act.run_map f m c)
  cases event with
  | receive => exact (hmap _ _).symm ▸ .inl (receiveMessage_orderly h world)
  | send m => exact (hmap _ _).symm ▸ sendMessage_orderly h hfits
  | pump => exact .inl (orderly_listens (listens_pump world) h)
  | relay => exact .inl (orderly_listens (listens_relay world) h)
  | writeData id data endStream => exact (hmap _ _).symm ▸ writeData_orderly h hfits
  | reset id code =>
    have hpast : Past c.role c id := hfits
    rw [h.placed.same] at hpast
    have hreset : Orderly role none ((H2Connection.reset id code).run c).2 :=
      orderly_listens (m := flushOut) listens_flushOut (h.reset code hpast)
    exact (hmap _ _).symm ▸ .inl hreset
  | mark id code => exact (hmap _ _).symm ▸ .inl (mark_orderly h id code)
  | drain id =>
    have hdrain : Listens true (drain id) := Act.Chains.get.bind fun _ =>
      Act.Chains.bind (listens_tend fun _ => ⟨.inl rfl, rfl, .inr rfl, .inl rfl⟩) fun _ => .pure _
    exact (hmap _ _).symm ▸ .inl (orderly_listens hdrain h)
  | close =>
    have hwrite : Listens true (write (.goAway (c.nextStreamId - 2) Code.NO_ERROR [])) := listens_write rfl
    have hclose : Orderly role none (H2Connection.close.run c).2 := 
      orderly_listens (m := write _) hwrite h
    exact (hmap _ _).symm ▸ .inl hclose

/-! ## Trailers -/

/-- No field section was sent. -/
def Plain (c c' : H2Connection) : Prop := sections c'.passed = sections c.passed

/-- A step that sends no field section. -/
abbrev Sectionless (m : Step α) : Prop := Act.Keeps Plain m

theorem sections_note {e : Passed} (h : e.unsent = true) (log : List Passed) : sections (e :: log) = sections log := by
  cases e with
  | sent => cases h
  | _ => rfl

theorem sections_control {frame : Frame} (h : frame.control = true) (log : List Passed) :
    sections (.sent frame :: log) = sections log := by
  cases frame with
  | headers => cases h
  | _ => rfl

theorem sectionless_listens {m : Step α} (hm : Listens true m) : Sectionless m := by
  refine fun c => hm.keeps (P := Plain c) (fun c' c'' hdeed h => ?_) c rfl
  cases hdeed with
  | note unsent => exact (sections_note unsent _).trans h
  | queue control => exact (sections_control control _).trans h
  | _ => exact h

theorem Sectionless.bind {m : Step α} {f : α → Step β} (hm : Sectionless m) (hf : ∀ a, Sectionless (f a)) :
    Sectionless (m >>= f) := @Act.Keeps.bind _ _ _ _ Plain (fun h h' => Eq.trans h' h) m f hm hf

theorem sectionless_get {f : H2Connection → Step α} (h : ∀ c, Sectionless (f c)) : Sectionless (Act.get >>= f) :=
  fun c => h c c

theorem sectionless_writeDataLoop (world : World) (id : ℕ) (endStream : Bool) (fuel : ℕ) (rest : Octets) :
    Sectionless (writeDataLoop world id endStream fuel rest) := by
  have hchunk (chunk : Octets) (last : Bool) : Sectionless (writeChunk id chunk last) := by
    intro c
    rcases writeChunk_passed id chunk last c with hpassed | hpassed <;> rw [Plain, hpassed] <;> rfl
  have hawait : Sectionless (awaitCredit world) := by
    refine (sectionless_listens (listens_pump world)).bind fun m => ?_
    cases m with
    | some m => exact fun _ => rfl
    | none => exact fun _ => rfl
  -- By induction on the fuel: a round waits for credit or writes a chunk.
  induction fuel generalizing rest with
  | zero => exact fun _ => rfl
  | succ fuel ih =>
    refine sectionless_get fun c => ?_
    split
    · exact fun _ => rfl
    · split
      · exact hawait.bind fun _ => ih rest
      · refine (hchunk _ _).bind fun _ => ?_
        split
        · exact fun _ => rfl
        · exact ih _

/-- Of the field sections that a send puts on the wire all but the first are trailers, and end the stream. -/
def TrailersEnd (c c' : H2Connection) : Prop :=
  ∃ sent, sections c'.passed = sent ++ sections c.passed ∧ ∀ ends ∈ sent.dropLast, ends = true

theorem TrailersEnd.of_eq (h : sections c'.passed = sections c.passed) : TrailersEnd c c' := ⟨[], h, fun _ h => by cases h⟩

theorem TrailersEnd.trans_plain (h : TrailersEnd c c₁) (hplain : Plain c₁ c') : TrailersEnd c c' := by
  obtain ⟨sent, hsent, hends⟩ := h
  exact ⟨sent, hplain.trans hsent, hends⟩

theorem Plain.trans_trailersEnd (hplain : Plain c c₁) (h : TrailersEnd c₁ c') : TrailersEnd c c' := by
  obtain ⟨sent, hsent, hends⟩ := h
  exact ⟨sent, hsent.trans (congrArg (sent ++ ·) hplain), hends⟩

theorem trailersEnd_sendOn (world : World) (id : ℕ) (m : Message) (c : H2Connection) :
    TrailersEnd c ((sendOn world id m).run c).2 := by
  rw [sendOn, Act.run_bind_ok (Act.run_get c)]
  cases compose world (c.streams.lookup id) m with
  | error error => exact .of_eq rfl
  | ok o =>
    rw [Act.run_bind_ok (Act.run_ofExcept _ c)]
    obtain ⟨out, passed, hhead, hframed⟩ := writeSection_run id o.fields (!o.open' && o.body.isNone && o.trailers.isNone) c
    rw [Act.run_bind_ok hhead, Act.run_bind]
    have hbody : Sectionless (writeBody world id o.body o.trailers.isNone) := by
      cases o.body with
      | none => exact fun _ => rfl
      | some body => exact fun _ => sectionless_writeDataLoop world id _ _ body _
    have hfinish : Sectionless (do
        finishSending id o.message o.open'
        flushIfDrained : Step Unit) :=
      Sectionless.bind (Sectionless.bind (fun _ => rfl) fun _ => sectionless_listens (listens_retire id)) fun _ =>
        sectionless_listens listens_flushIfDrained
    have hplain := hbody { c with hpackEncoder := (c.hpackEncoder.encode o.fields).1, out := out, passed := passed }
    -- There is one section so far, the first.
    rcases hrun : (writeBody world id o.body o.trailers.isNone).run _ with ⟨error | _, c₂⟩ <;> rw [hrun] at hplain
    · exact ⟨[_], hplain.trans hframed.sections, fun _ h => by cases h⟩
    · dsimp only
      cases o.trailers with
      | none =>
        rw [Act.run_bind_ok (show (writeTrailers id none).run c₂ = (.ok (), c₂) from rfl)]
        exact ⟨[_], Eq.trans (hfinish c₂) (hplain.trans hframed.sections), fun _ h => by cases h⟩
      | some fields =>
        obtain ⟨out', passed', htrailers, hframed'⟩ := writeSection_run id fields true c₂
        rw [Act.run_bind_ok (show (writeTrailers id (some fields)).run c₂ = _ from htrailers)]
        refine ⟨[true, _], Eq.trans (hfinish _) (hframed'.sections.trans (congrArg (true :: ·) (hplain.trans hframed.sections))), ?_⟩
        intro ends hmem
        exact List.mem_singleton.1 hmem

theorem Sectionless.thenTrailers {m : Step α} {f : α → Step β} (hm : Sectionless m)
    (hf : ∀ a c, TrailersEnd c ((f a).run c).2) (c : H2Connection) : TrailersEnd c ((m >>= f).run c).2 := by
  have hplain := hm c
  rw [Act.run_bind]
  rcases hrun : m.run c with ⟨error | a, c'⟩ <;> rw [hrun] at hplain
  · exact .of_eq hplain
  · exact Plain.trans_trailersEnd hplain (hf a c')

/-- The trailers of a message end its stream, whatever is done with the connection. -/
theorem trailersEnd_sendMessage (world : World) (m : Message) (c : H2Connection) :
    TrailersEnd c ((sendMessage world m).run c).2 := by
  have hallocate (m : Message) : Sectionless (allocate m) := by
    refine sectionless_get fun c => ?_
    cases m.streamId with
    | some id => exact Sectionless.bind (fun _ => rfl) fun _ _ => rfl
    | none => exact Sectionless.bind (fun _ => rfl) fun _ => Sectionless.bind (fun _ => rfl) fun _ =>
        Sectionless.bind (fun _ => rfl) fun _ _ => rfl
  rw [sendMessage, Act.run_bind_ok (Act.run_get c)]
  exact Sectionless.thenTrailers (sectionless_listens listens_start) (fun _ => Sectionless.thenTrailers
    (sectionless_listens listens_flushResets) fun _ => Sectionless.thenTrailers (hallocate _) fun id =>
      trailersEnd_sendOn world id _) c

/-! ## Runs -/

variable (source : Source Error UInt8) (sink : Sink) (limits : H2Limits) (requestFinalizer : RequestFinalizer)
  (responseFinalizer : ResponseFinalizer) (secure : Bool)

theorem orderly_configured (role : Role) :
    Orderly role none (configured source sink role limits requestFinalizer responseFinalizer secure) where
  placed := placed_configured ..
  timely := rfl
  past _ hother := by rcases hother with h | h <;> cases h
  settled _ _ hended := by cases hended

theorem settled_after (events : List (World × Event)) (h : Settled role c)
    (hfits : ∀ earlier step later, events = earlier ++ step :: later → ¬(after earlier c).Failed →
      Fits step.1 (after earlier c) step.2) : Settled role (after events c) := by
  induction events generalizing c with
  | nil => exact h
  | cons step events ih =>
    obtain ⟨world, event⟩ := step
    have hnext (hgoes : ¬c.Failed) (events : List (World × Event)) :
        after ((world, event) :: events) c = after events ((perform world event).run c).2 := by rw [after, if_neg hgoes]
    by_cases hfailed : c.Failed
    · rw [after, if_pos hfailed]
      exact h
    · have horderly := h.resolve_right fun hfell => hfailed hfell.1
      rw [hnext hfailed]
      refine ih (perform_orderly horderly (hfits [] (world, event) events rfl hfailed)) fun earlier step later heq hgoes => ?_
      have hfit := hfits ((world, event) :: earlier) step later (by rw [heq, List.cons_append])
      rw [hnext hfailed] at hfit
      exact hfit hgoes

/-- In every run whose steps look at the states of the streams they are for, this end sends nothing on a stream that it
    ended or reset, and the trailers it sends end their streams. -/
theorem lifecycle_kept (role : Role) (events : List (World × Event))
    (hfits : ∀ earlier step later, events = earlier ++ step :: later →
      ¬(after earlier (configured source sink role limits requestFinalizer responseFinalizer secure)).Failed →
        Fits step.1 (after earlier (configured source sink role limits requestFinalizer responseFinalizer secure)) step.2) :
    timely (after events (configured source sink role limits requestFinalizer responseFinalizer secure)).passed = true ∧
      ∀ world m, TrailersEnd (after events (configured source sink role limits requestFinalizer responseFinalizer secure))
        ((sendMessage world m).run
          (after events (configured source sink role limits requestFinalizer responseFinalizer secure))).2 :=
  ⟨(settled_after events (.inl (orderly_configured ..)) hfits).timely, fun world m => trailersEnd_sendMessage world m _⟩

/-- A server that nothing came to yet. -/
def server : H2Connection := configured (posted []) ⟨[], []⟩ .origin .default ⟨none⟩ ⟨none⟩ true

/-- The server once a request came whose body is still to come. -/
def awaiting : H2Connection := after [(.bare, .pump), (.bare, .pump)] server

/-- An answer to the request, without a body. -/
def answer : Message := { Message.response 204 .v2_0 with streamId := some 1 }

theorem lifecycle_kept_answer :
    timely (after [(.bare, .pump), (.bare, .pump), (.bare, .send answer)] server).passed = true ∧
      ∀ world m, TrailersEnd (after [(.bare, .pump), (.bare, .pump), (.bare, .send answer)] server)
        ((sendMessage world m).run (after [(.bare, .pump), (.bare, .pump), (.bare, .send answer)] server)).2 := by
  refine lifecycle_kept (posted []) ⟨[], []⟩ .default ⟨none⟩ ⟨none⟩ true .origin
    [(.bare, .pump), (.bare, .pump), (.bare, .send answer)] fun earlier step later heq _ => ?_
  rcases earlier with _ | ⟨_, _ | ⟨_, _ | ⟨_, earlier⟩⟩⟩
  · cases heq
    trivial
  · cases heq
    trivial
  · cases heq
    intro stream o hberth hcompose
    have hstate : (awaiting.berth (awaiting.finalize .bare answer)).map (·.state.sendable) = some true := by decide +kernel
    have hopen : (compose .bare (awaiting.berth (awaiting.finalize .bare answer)) (awaiting.finalize .bare answer)).toOption.map
        (·.open') = some false := by decide +kernel
    replace hberth : awaiting.berth (awaiting.finalize .bare answer) = some stream := hberth
    replace hcompose : compose .bare (some stream) (awaiting.finalize .bare answer) = .ok o := hcompose
    rw [hberth] at hstate hopen
    rw [hcompose] at hopen
    exact ⟨Option.some.inj hstate, fun hgoes => by cases (Option.some.inj hopen).symm.trans hgoes⟩
  · cases earlier <;> cases heq

/-- A server answers a request whose body is still to come, and answers it again: its second field section goes out on a
    stream that the first one ended. -/
theorem answered_twice : ¬∀ events : List (World × Event), timely (after events server).passed = true := by
  intro hall
  exact absurd (hall [(.bare, .pump), (.bare, .pump), (.bare, .send answer), (.bare, .send answer)]) (by decide +kernel)

end H2Connection

end Soyokaze

import Soyokaze.Protocol.H2.Goodbye

/-!
# Frames for a stream that is gone

A peer may have sent more on a stream before it learns that this end reset it.

* `late_frames`: a stream that was dropped never comes back, and of the frames that are late
  for it credit and resets are counted, and all others refused.
-/

namespace Soyokaze

open H2

namespace H2Connection

variable {c c' : H2Connection} {h : List (Turn H2Connection Error Answer Move)} {t : Turn H2Connection Error Answer Move}
  {id : ℕ} {world : World}

/-! ## Streams that are gone for good -/

/-- A stream that was there once, and is no more. -/
structure Spent (role : Role) (c : H2Connection) (id : ℕ) : Prop where
  positive : id ≠ 0
  gone : c.streams.lookup id = none
  peers : foreign role id = true → id ≤ c.highestPeerStreamId
  ours : foreign role id = false → id < c.nextStreamId

theorem spent_of_gone {role : Role} (hplaced : Placed role c) (honward : Onward c c') (hheld : c.streams.lookup id ≠ none)
    (hgone : c'.streams.lookup id = none) : Spent role c' id where
  positive hzero := hheld (hzero ▸ hplaced.zero)
  gone := hgone
  peers hforeign := (hplaced.peers id hforeign hheld).trans honward.highest
  ours hours := (hplaced.opened id hours hheld).trans_le honward.next

theorem Spent.begun {role : Role} (hspent : Spent role c id) (hplaced : Placed role c) {other : ℕ}
    (hbegins : (beginStream other).run c = (.ok (), c')) : c'.streams.lookup id = none := by
  rcases beginStream_ok hbegins with ⟨hsame, -⟩ | ⟨-, -, hpeers, hhigher, hview⟩
  · rw [hsame, hspent.gone]
  · have hother : id ≠ other := by
      rintro rfl
      exact absurd (hspent.peers (foreign_iff.2 (hplaced.same ▸ hpeers))) (not_le.2 hhigher)
    rw [show c'.streams = c.streams.insert other _ from congrArg View.streams hview, AList.lookup_insert_ne hother, hspent.gone]

/-- A stream that is gone stays so, whatever move the connection goes on from. -/
theorem Spent.turned {role : Role} (hspent : Spent role t.before id) (hplaced : Placed role t.before)
    (hturned : Yielded t.before t.move t.outcome t.after) : Spent role t.after id := by
  have honward := (hplaced.turned hturned).2
  refine ⟨hspent.positive, ?_, fun hforeign => (hspent.peers hforeign).trans honward.highest,
    fun hours => (hspent.ours hours).trans_le honward.next⟩
  have hfewer {before : H2Connection} (hgone : before.streams.lookup id = none) (hfewer : Fewer before t.after) :
      t.after.streams.lookup id = none := by_contra fun hheld => hfewer.held id hheld hgone
  obtain ⟨move, c, outcome, c'⟩ := t
  cases hturned with
  | waned quiet wanes => exact hfewer hspent.gone wanes.fewer
  | begun begins => exact hspent.begun hplaced begins
  | handled m handled =>
    obtain ⟨begun, hbegun, hleft, -⟩ := handled.fewer
    rcases hbegun with rfl | hbegins
    · exact hfewer hspent.gone hleft
    · exact hfewer (hspent.begun hplaced hbegins) hleft
  | gathered m held comes => exact hfewer hspent.gone comes.fewer
  | opened view =>
    have hother : id ≠ c.nextStreamId := by
      rintro rfl
      exact absurd (hspent.ours hplaced.own) (lt_irrefl _)
    rw [show c'.streams = c.streams.insert c.nextStreamId _ from congrArg View.streams view, AList.lookup_insert_ne hother,
      hspent.gone]
  | closed view => exact hfewer hspent.gone (.of_view view fun _ hheld => hheld)

/-- What was dropped in some turn is gone for good. -/
theorem spent_of_course {start : H2Connection} {role : Role} (hstart : Placed role start) (hcourse : Course moves start h c)
    (hclear : moves.Clear h) : Placed role c ∧ ∀ t ∈ h, ∀ id, t.before.streams.lookup id ≠ none →
      t.after.streams.lookup id = none → Spent role c id := by
  refine hcourse.induct (fun h c => Placed role c ∧ ∀ t ∈ h, ∀ id, t.before.streams.lookup id ≠ none →
    t.after.streams.lookup id = none → Spent role c id) (fun _ _ => True) ⟨hstart, fun t ht => by cases ht⟩ ?_ hclear
      fun _ _ _ _ => trivial
  rintro earlier c t ⟨hplaced, hspent⟩ _ rfl htook hgoes _
  have hturned := yielded htook hgoes
  have hplaced' := hplaced.turned hturned
  refine ⟨hplaced'.1, fun t' ht' id hheld hgone => ?_⟩
  rcases List.mem_cons.1 ht' with rfl | hearlier
  · exact spent_of_gone hplaced hplaced'.2 hheld hgone
  · exact (hspent t' hearlier id hheld hgone).turned hplaced hturned

/-! ## What comes late -/

/-- What becomes of a frame that is only counted. -/
def tally : Step (Option Message) := do
  idle
  return none

/-- It is refused if it is one too many, and else nothing but the count is changed. -/
theorem tally_run (c : H2Connection) : (tally.run c).2.streams = c.streams ∧
    (tally.run c).2.hpackDecoder = c.hpackDecoder ∧ (tally.run c).1 = if c.weary then
      .error (.limit "more than {limit} frames arrived without advancing a stream" [.number c.limits.maxIdleFrames])
    else .ok none := by
  have hflush (c : H2Connection) : (flushOut.run c).2.streams = c.streams ∧ (flushOut.run c).2.hpackDecoder = c.hpackDecoder := by
    simp only [flushOut, Act.run]
    split_ifs
    · exact ⟨rfl, rfl⟩
    · split <;> exact ⟨rfl, rfl⟩
  by_cases hweary : c.limits.maxIdleFrames < saturating 32 (c.idleFrames + 1)
  · rw [if_pos (show c.weary = true from decide_eq_true hweary)]
    have hrun : idle.run c = (overloaded "more than {limit} frames arrived without advancing a stream"
        [.number c.limits.maxIdleFrames]).run { c with idleFrames := saturating 32 (c.idleFrames + 1) } := by
      rw [idle, Act.run_bind_ok (Act.run_modify _ c), Act.run_bind_ok (Act.run_get _), if_pos hweary]
    have hleft := hflush { c with
      idleFrames := saturating 32 (c.idleFrames + 1)
      out := c.out ++ (Frame.goAway c.highestPeerStreamId Code.ENHANCE_YOUR_CALM []).encode
      passed := .sent (.goAway c.highestPeerStreamId Code.ENHANCE_YOUR_CALM []) :: c.passed }
    rw [tally, Act.run_bind_error hrun]
    exact ⟨hleft.1, hleft.2, rfl⟩
  · rw [if_neg (show ¬c.weary = true by simpa [weary] using hweary)]
    have hrun : idle.run c = (.ok (), { c with idleFrames := saturating 32 (c.idleFrames + 1) }) := by
      rw [idle, Act.run_bind_ok (Act.run_modify _ c), Act.run_bind_ok (Act.run_get _), if_neg hweary]
      rfl
    rw [tally, Act.run_bind_ok hrun]
    exact ⟨rfl, rfl, rfl⟩

theorem erase_absent (hgone : c.streams.lookup id = none) : c.streams.erase id = c.streams := by
  refine AList.ext (List.kerase_of_notMem_keys ?_)
  exact AList.lookup_eq_none.1 hgone

variable (source : Source Error UInt8) (sink : Sink) (role : Role) (limits : H2Limits)
  (requestFinalizer : RequestFinalizer) (responseFinalizer : ResponseFinalizer) (secure : Bool)

/-- A stream that was dropped, as this end reset it or for any other reason, never comes back. Of the frames that
    are late for it, credit and resets are only counted, and all others are refused and leave the connection as it
    was: nothing is decoded, and no other stream is touched. -/
theorem late_frames
    (hcourse : Course moves (configured source sink role limits requestFinalizer responseFinalizer secure) h c)
    (hclear : moves.Clear h) (ht : t ∈ h) (hheld : t.before.streams.lookup id ≠ none)
    (hgone : t.after.streams.lookup id = none) (world : World) :
    c.streams.lookup id = none ∧
      (∀ increment, (handle world (.windowUpdate id increment)).run c = tally.run c) ∧
      (∀ code, (handle world (.rstStream id code)).run c = tally.run c) ∧
      ((tally.run c).2.streams = c.streams ∧ (tally.run c).2.hpackDecoder = c.hpackDecoder ∧
        (tally.run c).1 = if c.weary then
          .error (.limit "more than {limit} frames arrived without advancing a stream" [.number c.limits.maxIdleFrames])
        else .ok none) ∧
      (∀ endStream data, (handle world (.data id endStream data)).run c =
        (.error (.protocol "DATA on unopened stream {id}" [.number id]), c)) ∧
      (∀ endStream endHeaders block, (handle world (.headers id endStream endHeaders block)).run c =
        (.error (.protocol (if foreign role id then "stream {id} does not exceed the last stream the peer opened"
          else "stream {id} is not the peer's to open") [.number id]), c)) ∧
      ∀ endHeaders block, (handle world (.continuation id endHeaders block)).run c =
        (.error (.protocol "CONTINUATION arrived outside a header block" []), c) := by
  obtain ⟨hplaced, hspent⟩ := spent_of_course (placed_configured ..) hcourse hclear
  have hspent := hspent t ht id hheld hgone
  refine ⟨hspent.gone, fun increment => ?_, fun code => ?_, tally_run c, fun endStream data => ?_,
    fun endStream endHeaders block => ?_, fun _ _ => rfl⟩
  · rw [handle, if_neg hspent.positive, creditStream, Act.run_bind_ok (Act.run_get c), hspent.gone]
    rfl
  · -- What was dropped is dropped again.
    have hsame : { c with idleFrames := saturating 32 (c.idleFrames + 1), streams := c.streams.erase id } =
        { c with idleFrames := saturating 32 (c.idleFrames + 1) } := by rw [erase_absent hspent.gone]
    rw [handle, handleReset, tally]
    rcases idle_run c with ⟨error, c', hrun, -⟩ | hrun
    · rw [Act.run_bind_error hrun, Act.run_bind_error hrun]
    · rw [Act.run_bind_ok hrun, Act.run_bind_ok hrun, Act.run_bind_ok (Act.run_get _), Act.run_bind_ok (Act.run_modify _ _)]
      dsimp only
      rw [hspent.gone]
      exact congrArg (Prod.mk _) hsame
  · have hrun : (demandReceivable id).run c = (.error (.protocol "DATA on unopened stream {id}" [.number id]), c) := by
      simp only [demandReceivable, Act.run, hspent.gone]
    rw [handle, handleData, Act.run_bind_error hrun]
  · have hrun : (beginStream id).run c = (.error (.protocol (if foreign role id then
          "stream {id} does not exceed the last stream the peer opened"
        else "stream {id} is not the peer's to open") [.number id]), c) := by
      rw [beginStream, Act.run_bind_ok (Act.run_get c), hspent.gone]
      by_cases hforeign : foreign role id = true
      · rw [if_neg, if_neg, if_pos hforeign, Act.run_bind_refused]
        · exact decide_eq_false (not_lt.2 (hspent.peers hforeign))
        · exact Bool.false_ne_true
        · rintro (hzero | hother)
          · exact hspent.positive hzero
          · exact hother (hplaced.same ▸ foreign_iff.1 hforeign)
      · rw [if_pos, if_neg hforeign]
        · rfl
        · exact .inr fun hpeers => hforeign (foreign_iff.2 (hplaced.same ▸ hpeers))
    rw [handle, handleHeaders, Act.run_bind_error hrun]

/-- A stream is opened, and reset. -/
def dropped : List Move := [.begin 1, .reset 1 8]

theorem late_frames_dropped :
    let c := (moves.played dropped (configured (posted []) ⟨[], []⟩ .origin .default ⟨none⟩ ⟨none⟩ true)).2
    (handle .bare (.data 1 true [97])).run c = (.error (.protocol "DATA on unopened stream {id}" [.number 1]), c) := by
  have hclear := clear_of_goesOn (h := (moves.played dropped
    (configured (posted []) ⟨[], []⟩ .origin .default ⟨none⟩ ⟨none⟩ true)).1) (by decide +kernel)
  exact (late_frames (posted []) ⟨[], []⟩ .origin .default ⟨none⟩ ⟨none⟩ true (.played hclear) hclear
    (List.mem_append_left _ (List.mem_append_right _ List.mem_cons_self)) (by decide +kernel) (by decide +kernel)
    .bare).2.2.2.2.1 true [97]

/-- A server resets a stream as its body is on the way, and the connection fails with it. -/
theorem late_data_fails :
    let start := configured (posted (Frame.data 1 true [97]).encode) ⟨[], []⟩ .origin .default ⟨none⟩ ⟨none⟩ true
    let c := after [(.bare, .pump), (.bare, .pump), (.bare, .reset 1 8)] start
    (¬c.Failed ∧ c.streams.entries = []) ∧ (after [(.bare, .pump)] c).Failed ∧
      ((perform .bare .pump).run c).1.toOption = none :=
  by decide +kernel

end H2Connection

end Soyokaze

import Soyokaze.Protocol.H2.Handled
import Soyokaze.Protocol.H2.Windows

/-!
# The numbers that streams have

Either end opens streams of its own numbers, one after the other, and which streams there
are is told from the last that each of them opened.

* `Placed.turned`: that is so whatever move a connection goes on from.
-/

namespace Soyokaze

open H2

namespace H2Connection

variable {c c' : H2Connection} {id : ℕ}

/-- Whether a stream is the peer's to open. -/
def foreign (role : Role) (id : ℕ) : Bool := decide (id % 2 = 1) == !role.isClient

/-- No stream comes, and both ends go on with their streams from where they were. -/
structure Fewer (c c' : H2Connection) : Prop where
  role : c'.role = c.role
  next : c'.nextStreamId = c.nextStreamId
  highest : c'.highestPeerStreamId = c.highestPeerStreamId
  held : ∀ id, c'.streams.lookup id ≠ none → c.streams.lookup id ≠ none

theorem Fewer.of_view {frames premature : ℕ} {settings : Settings} {window : ℤ} {streams : StreamMap H2Stream}
    {farewells : List ℕ} (hview : c'.view = { c.view with
      idleFrames := frames
      prematureResets := premature
      settingsRemote := settings
      windowRemote := window
      farewells := farewells
      streams := streams }) (hheld : ∀ id, streams.lookup id ≠ none → c.streams.lookup id ≠ none) : Fewer c c' where
  role := congrArg View.role hview
  next := congrArg View.nextStreamId hview
  highest := congrArg View.highestPeerStreamId hview
  held id hleft := hheld id <| by rwa [show c'.streams = streams from congrArg View.streams hview] at hleft

theorem Wanes.fewer (h : Wanes c c') : Fewer c c' := by
  refine .of_view h.view fun id hheld => ?_
  obtain ⟨stream', hstream'⟩ := Option.ne_none_iff_exists'.1 hheld
  obtain ⟨stream, hstream, -⟩ := h.held id stream' hstream'
  rw [hstream]
  exact Option.some_ne_none _

theorem Comes.fewer {endStream : Bool} {frames : ℕ} (h : Comes id endStream { c with idleFrames := frames } c') :
    Fewer c c' := by
  refine .of_view h.view fun other hheld => ?_
  by_cases hother : other = id
  · subst hother
    obtain ⟨stream', hstream'⟩ := Option.ne_none_iff_exists'.1 hheld
    obtain ⟨stream, hstream, -⟩ := h.held stream' hstream'
    exact hstream ▸ Option.some_ne_none _
  · rwa [h.others other hother] at hheld

/-- A frame may open its own stream, and leaves no others than there were. What it hands on comes from a stream that
    was there. -/
theorem Handled.fewer {frame : Frame} {m : Option Message} (h : Handled c frame m c') :
    ∃ begun, (begun = c ∨ (beginStream frame.streamId).run c = (.ok (), begun)) ∧ Fewer begun c' ∧
      (m ≠ none → begun.streams.lookup frame.streamId ≠ none) := by
  cases h with
  | plain frames kind counted view =>
    exact ⟨c, .inl rfl, .of_view view fun _ hheld => hheld, fun hm => absurd rfl hm⟩
  | settings frames settings counted applied view =>
    refine ⟨c, .inl rfl, .of_view view fun id hheld => ?_, fun hm => absurd rfl hm⟩
    rw [StreamMap.lookup_mapValues] at hheld
    exact fun hnone => hheld (by rw [hnone]; rfl)
  | connection frames room counts view => exact ⟨c, .inl rfl, .of_view view fun _ hheld => hheld, fun hm => absurd rfl hm⟩
  | stray frames zero gone counted view => exact ⟨c, .inl rfl, .of_view view fun _ hheld => hheld, fun hm => absurd rfl hm⟩
  | overflow stream zero held past view gone others =>
    exact ⟨c, .inl rfl, (wanes_of_gone view gone others).fewer, fun hm => absurd rfl hm⟩
  | credit stream frames zero held room counts view =>
    refine ⟨c, .inl rfl, .of_view view fun id hheld => ?_, fun hm => absurd rfl hm⟩
    rw [StreamMap.lookup_modify] at hheld
    split_ifs at hheld
    · exact fun hnone => hheld (by rw [hnone]; rfl)
    · exact hheld
  | @reset id code _ frames premature counted view tallied =>
    refine ⟨c, .inl rfl, .of_view view fun other hheld => ?_, fun hm => absurd rfl hm⟩
    by_cases hother : other = id
    · rw [hother, AList.lookup_erase] at hheld
      exact absurd rfl hheld
    · rwa [AList.lookup_erase_ne hother] at hheld
  | exceeded stream frames held past counts view gone others =>
    have hgone : Wanes { c with idleFrames := frames } c' := wanes_of_gone view gone others
    exact ⟨c, .inl rfl, ⟨hgone.fewer.role, hgone.fewer.next, hgone.fewer.highest, hgone.fewer.held⟩, fun hm => absurd rfl hm⟩
  | data stream frames held receivable counts comes =>
    exact ⟨c, .inl rfl, comes.fewer, fun _ hnone => by cases held.symm.trans hnone⟩
  | headers begun begins held comes =>
    refine ⟨begun, .inr begins, comes.fewer, fun _ hnone => ?_⟩
    cases (congrArg Option.isSome hnone).symm.trans held

/-- Which streams there are is told from the last that either end opened. -/
structure Placed (role : Role) (c : H2Connection) : Prop where
  same : c.role = role
  own : foreign role c.nextStreamId = false
  positive : c.nextStreamId ≠ 0
  zero : c.streams.lookup 0 = none
  peers : ∀ id, foreign role id = true → c.streams.lookup id ≠ none → id ≤ c.highestPeerStreamId
  opened : ∀ id, foreign role id = false → c.streams.lookup id ≠ none → id < c.nextStreamId

theorem Placed.fewer {role : Role} (h : Placed role c) (hfewer : Fewer c c') : Placed role c' where
  same := hfewer.role.trans h.same
  own := hfewer.next ▸ h.own
  positive := hfewer.next ▸ h.positive
  zero := by_contra fun hheld => hfewer.held 0 hheld h.zero
  peers id hforeign hheld := hfewer.highest ▸ h.peers id hforeign (hfewer.held id hheld)
  opened id hforeign hheld := hfewer.next ▸ h.opened id hforeign (hfewer.held id hheld)

theorem foreign_iff {role : Role} : foreign role id = true ↔ (id % 2 = 1) = ((!role.isClient) = true) := by
  rw [foreign, beq_iff_eq]
  cases role.isClient <;> by_cases hodd : id % 2 = 1 <;> simp [hodd]

/-- A stream that is begun is the last its peer opened. -/
theorem Placed.begun {role : Role} (h : Placed role c) (hbegins : (beginStream id).run c = (.ok (), c')) :
    Placed role c' ∧ c.highestPeerStreamId ≤ c'.highestPeerStreamId := by
  rcases beginStream_ok hbegins with ⟨hsame, -⟩ | ⟨hnone, hid, hpeers, hhigher, hview⟩
  · rw [hsame]
    exact ⟨h, le_rfl⟩
  have hhighest : c'.highestPeerStreamId = id := congrArg View.highestPeerStreamId hview
  have hnext : c'.nextStreamId = c.nextStreamId := congrArg View.nextStreamId hview
  have hstreams : c'.streams = c.streams.insert id _ := congrArg View.streams hview
  have hforeign : foreign role id = true := foreign_iff.2 (h.same ▸ hpeers)
  have hheld : ∀ other, other ≠ id → c'.streams.lookup other ≠ none → c.streams.lookup other ≠ none := by
    intro other hother hheld
    rwa [hstreams, AList.lookup_insert_ne hother] at hheld
  refine ⟨⟨(congrArg View.role hview).trans h.same, hnext ▸ h.own, hnext ▸ h.positive, ?_, ?_, ?_⟩, hhighest ▸ hhigher.le⟩
  · exact by_contra fun hzero => hheld 0 hid.symm hzero h.zero
  · intro other hpeer hother
    rw [hhighest]
    by_cases heq : other = id
    · exact heq.le
    · exact (h.peers other hpeer (hheld other heq hother)).trans hhigher.le
  · intro other hours hother
    have heq : other ≠ id := by
      rintro rfl
      cases hforeign.symm.trans hours
    exact hnext ▸ h.opened other hours (hheld other heq hother)

/-- This end's streams are apart from its peer's. -/
theorem Placed.allocated {role : Role} (h : Placed role c) {windowLocal windowRemote : ℤ} (hview : c'.view = { c.view with
      nextStreamId := c.nextStreamId + 2
      streams := c.streams.insert c.nextStreamId (.new windowLocal windowRemote) }) : Placed role c' := by
  have hhighest : c'.highestPeerStreamId = c.highestPeerStreamId := congrArg View.highestPeerStreamId hview
  have hnext : c'.nextStreamId = c.nextStreamId + 2 := congrArg View.nextStreamId hview
  have hstreams : c'.streams = c.streams.insert c.nextStreamId _ := congrArg View.streams hview
  have hheld : ∀ other, other ≠ c.nextStreamId → c'.streams.lookup other ≠ none → c.streams.lookup other ≠ none := by
    intro other hother hheld
    rwa [hstreams, AList.lookup_insert_ne hother] at hheld
  have hown := h.own
  refine ⟨(congrArg View.role hview).trans h.same, ?_, by omega, ?_, ?_, ?_⟩
  · rw [hnext, foreign, Nat.add_mod_right]
    exact hown
  · exact by_contra fun hzero => hheld 0 h.positive.symm hzero h.zero
  · intro other hpeer hother
    have heq : other ≠ c.nextStreamId := by
      rintro rfl
      cases hpeer.symm.trans hown
    exact hhighest ▸ h.peers other hpeer (hheld other heq hother)
  · intro other hours hother
    rw [hnext]
    by_cases heq : other = c.nextStreamId
    · omega
    · have := h.opened other hours (hheld other heq hother)
      omega

variable {t : Turn H2Connection Error Answer Move}

/-- The numbers go up. -/
structure Onward (c c' : H2Connection) : Prop where
  highest : c.highestPeerStreamId ≤ c'.highestPeerStreamId
  next : c.nextStreamId ≤ c'.nextStreamId

theorem Fewer.onward (h : Fewer c c') : Onward c c' := ⟨h.highest.ge, h.next.ge⟩

theorem onward_begun {role : Role} (h : Placed role c) (hbegins : (beginStream id).run c = (.ok (), c')) : Onward c c' := by
  refine ⟨(h.begun hbegins).2, ?_⟩
  rcases beginStream_ok hbegins with ⟨hsame, -⟩ | ⟨-, -, -, -, hview⟩
  · rw [hsame]
  · exact (congrArg View.nextStreamId hview).ge

theorem Placed.turned {role : Role} (h : Placed role t.before) (hturned : Yielded t.before t.move t.outcome t.after) :
    Placed role t.after ∧ Onward t.before t.after := by
  obtain ⟨move, c, outcome, c'⟩ := t
  cases hturned with
  | waned quiet wanes => exact ⟨h.fewer wanes.fewer, wanes.fewer.onward⟩
  | begun begins => exact ⟨(h.begun begins).1, onward_begun h begins⟩
  | handled m handled =>
    obtain ⟨begun, hbegun, hfewer, -⟩ := handled.fewer
    rcases hbegun with hsame | hbegins
    · rw [hsame] at hfewer
      exact ⟨h.fewer hfewer, hfewer.onward⟩
    · have honward := onward_begun h hbegins
      exact ⟨(h.begun hbegins).1.fewer hfewer, honward.highest.trans hfewer.onward.highest,
        honward.next.trans hfewer.onward.next⟩
  | gathered m held comes => exact ⟨h.fewer comes.fewer, comes.fewer.onward⟩
  | opened view =>
    refine ⟨h.allocated view, (congrArg View.highestPeerStreamId view).ge, ?_⟩
    rw [show c'.nextStreamId = c.nextStreamId + 2 from congrArg View.nextStreamId view]
    exact Nat.le_add_right _ _
  | closed view =>
    have hfewer : Fewer c c' := .of_view view fun _ hheld => hheld
    exact ⟨h.fewer hfewer, hfewer.onward⟩

theorem placed_configured (source : Source Error UInt8) (sink : Sink) (role : Role) (limits : H2Limits)
    (requestFinalizer : RequestFinalizer) (responseFinalizer : ResponseFinalizer) (secure : Bool) :
    Placed role (configured source sink role limits requestFinalizer responseFinalizer secure) := by
  refine ⟨rfl, ?_, ?_, rfl, fun id _ hheld => absurd rfl hheld, fun id _ hheld => absurd rfl hheld⟩
  · rw [show (configured _ _ _ _ _ _ _).nextStreamId = if role.isClient then 1 else 2 from rfl, foreign]
    cases role.isClient <;> rfl
  · rw [show (configured _ _ _ _ _ _ _).nextStreamId = if role.isClient then 1 else 2 from rfl]
    split_ifs <;> decide

end H2Connection

end Soyokaze

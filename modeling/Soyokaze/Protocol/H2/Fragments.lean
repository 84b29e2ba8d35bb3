import Soyokaze.Protocol.H2.Course
import Soyokaze.Protocol.H2.FrameCodec
import Soyokaze.Protocol.H2.Handled

/-!
# Field blocks in fragments

A field block goes out in pieces that each fit a frame, a HEADERS frame first and then
CONTINUATION frames, and is put together from such pieces as they come in.

* `writeBlock_run`: what a block is written as;
* `continueHeaders_run`: gathering goes round by round, until the block ends or something ends it;
* `Rounds.held`, `Rounds.fits`: what is held on the way, and that it is no more than may be;
* `gathers_arriving`, `refuses_arriving`: fragments that arrive are gathered, and whatever else
  arrives among them is refused;
* `blocks_fragmented`: all of it.
-/

namespace Soyokaze

open H2

/-! ## Writing -/

namespace H2

/-- The frames behind the first that the pieces of a field block go out in. -/
def continued (id : ℕ) : List Octets → List Frame
  | [] => []
  | piece :: rest => .continuation id rest.isEmpty piece :: continued id rest

/-- The frames that the pieces of a field block go out in. -/
def framed (id : ℕ) (endStream : Bool) (first : Octets) (rest : List Octets) : List Frame :=
  .headers id endStream rest.isEmpty first :: continued id rest

theorem isSet_continuation (last : Bool) : Flag.isSet (Frame.flagIf last Flag.END_HEADERS) Flag.END_STREAM = false ∧
    Flag.isSet (Frame.flagIf last Flag.END_HEADERS) Flag.END_HEADERS = last := by
  revert last
  decide

theorem continued_not_end (id : ℕ) (rest : List Octets) :
    ∀ frame ∈ continued id rest, Flag.isSet frame.flags Flag.END_STREAM = false := by
  induction rest with
  | nil => exact fun _ h => absurd h List.not_mem_nil
  | cons piece rest ih =>
    intro frame h
    rcases List.mem_cons.1 h with rfl | h
    · exact (isSet_continuation rest.isEmpty).1
    · exact ih frame h

/-- Of the frames of a block the last ends it, and none before does. -/
theorem framed_ends (id : ℕ) (endStream : Bool) (first : Octets) (rest : List Octets) : ∃ frames last,
    framed id endStream first rest = frames ++ [last] ∧ Flag.isSet last.flags Flag.END_HEADERS = true ∧
      ∀ frame ∈ frames, Flag.isSet frame.flags Flag.END_HEADERS = false := by
  have hcontinued : ∀ piece (rest : List Octets), ∃ frames last, continued id (piece :: rest) = frames ++ [last] ∧
      Flag.isSet last.flags Flag.END_HEADERS = true ∧ ∀ frame ∈ frames, Flag.isSet frame.flags Flag.END_HEADERS = false := by
    intro piece rest
    induction rest generalizing piece with
    | nil => exact ⟨[], _, rfl, (isSet_continuation true).2, fun _ h => absurd h List.not_mem_nil⟩
    | cons next rest ih =>
      obtain ⟨frames, last, hframes, hlast, hrest⟩ := ih next
      refine ⟨.continuation id false piece :: frames, last, ?_, hlast, fun frame h => ?_⟩
      · rw [continued, hframes]
        rfl
      · rcases List.mem_cons.1 h with rfl | h
        · exact (isSet_continuation false).2
        · exact hrest frame h
  cases rest with
  | nil => exact ⟨[], _, rfl, (Frame.isSet_headers endStream true).2.1, fun _ h => absurd h List.not_mem_nil⟩
  | cons piece rest =>
    obtain ⟨frames, last, hframes, hlast, hrest⟩ := hcontinued piece rest
    refine ⟨.headers id endStream false first :: frames, last, ?_, hlast, fun frame h => ?_⟩
    · rw [framed, hframes]
      rfl
    · rcases List.mem_cons.1 h with rfl | h
      · exact (Frame.isSet_headers endStream false).2.1
      · exact hrest frame h

/-- The piece of a field block that a frame carries. -/
def Frame.piece : Frame → Octets
  | .headers _ _ _ block | .continuation _ _ block => block
  | _ => []

/-- No piece is longer than the payload it came in. -/
theorem Frame.length_piece {header : FrameHeader} {payload : Octets} {frame : Frame}
    (h : Frame.assemble header payload = .ok frame) : frame.piece.length ≤ payload.length := by
  obtain ⟨-, inner, hinner, hless⟩ := of_assemble h
  have hlength : inner.length ≤ payload.length := by
    rcases hless with ⟨-, rfl⟩ | ⟨-, hlt⟩
    · exact Nat.le_refl _
    · exact hlt.le
  refine le_trans ?_ hlength
  have hkind := kind_ofPayload hinner
  cases frame with
  | headers id endStream endHeaders block =>
    rw [ofPayload, ← hkind] at hinner
    dsimp only [Frame.kind] at hinner
    split_ifs at hinner <;> cases hinner
    · exact (List.length_drop ..).trans_le (Nat.sub_le _ _)
    · exact Nat.le_refl _
  | continuation id endHeaders block =>
    rw [ofPayload, ← hkind] at hinner
    cases hinner
    exact Nat.le_refl _
  | _ => exact Nat.zero_le _

end H2

namespace H2Connection

variable {c c' c₁ c₂ : H2Connection} {world : World} {id : ℕ} {endStream : Bool} {α : Type}

theorem flatten_chunks {size : ℕ} (hsize : 0 < size) {fuel : ℕ} {block : Octets} (h : block.length ≤ fuel) :
    (chunks size fuel block).flatten = block := by
  induction fuel generalizing block with
  | zero => exact (List.eq_nil_of_length_eq_zero (Nat.le_zero.1 h)).symm
  | succ fuel ih =>
    rw [chunks]
    split_ifs with hempty
    · exact (List.isEmpty_iff.1 hempty).symm
    · rw [List.flatten_cons, ih, List.take_append_drop]
      rw [List.length_drop]
      omega

/-- No piece is longer than it may be, and none is empty. -/
theorem chunks_fit {size : ℕ} (hsize : 0 < size) (fuel : ℕ) (block : Octets) :
    ∀ piece ∈ chunks size fuel block, piece.length ≤ size ∧ piece ≠ [] := by
  induction fuel generalizing block with
  | zero => exact fun _ h => absurd h List.not_mem_nil
  | succ fuel ih =>
    intro piece h
    rw [chunks] at h
    split_ifs at h with hempty
    · exact absurd h List.not_mem_nil
    · rcases List.mem_cons.1 h with rfl | h
      · refine ⟨List.length_take_le _ _, fun hnil => ?_⟩
        rcases List.take_eq_nil_iff.1 hnil with hzero | hnil
        · omega
        · exact hempty (List.isEmpty_iff.2 hnil)
      · exact ih _ piece h

/-- The connection once it has queued frames. -/
def queueing (c : H2Connection) (frames : List Frame) : H2Connection :=
  { c with out := c.out ++ frames.flatMap Frame.encode, passed := (frames.map .sent).reverse ++ c.passed }

theorem queueing_cons (c : H2Connection) (frame : Frame) (frames : List Frame) :
    { c with out := c.out ++ frame.encode, passed := .sent frame :: c.passed }.queueing frames = c.queueing (frame :: frames) := by
  simp [queueing]

theorem writeContinuations_eq (id : ℕ) (pieces : List Octets) (c : H2Connection) :
    (writeContinuations id pieces).run c = (.ok (), c.queueing (continued id pieces)) := by
  induction pieces generalizing c with
  | nil => simp [writeContinuations, continued, queueing]
  | cons piece rest ih =>
    rw [writeContinuations, Act.run_bind_ok (show (queue _).run c = _ from rfl), ih, continued, ← queueing_cons]

/-- A block goes out in pieces that make it up, none longer than a frame may be. -/
theorem writeBlock_run (id : ℕ) (block : Octets) (endStream : Bool) (c : H2Connection) : ∃ first rest,
    first ++ rest.flatten = block ∧ (∀ piece ∈ first :: rest, piece.length ≤ max c.settingsRemote.maxFrameSize 1) ∧
      [] ∉ rest ∧ (writeBlock id block endStream).run c = (.ok (), c.queueing (framed id endStream first rest)) := by
  have hsize : 0 < max c.settingsRemote.maxFrameSize 1 := by omega
  have hfit := chunks_fit hsize block.length block
  have hwhole := flatten_chunks hsize (Nat.le_refl block.length)
  rw [writeBlock, Act.run_bind_ok (Act.run_get c)]
  generalize chunks (max c.settingsRemote.maxFrameSize 1) block.length block = pieces at hfit hwhole
  have hrun (first : Octets) (rest : List Octets) : (do
      queue (.headers id endStream rest.isEmpty first)
      writeContinuations id rest : Step Unit).run c = (.ok (), c.queueing (framed id endStream first rest)) := by
    rw [Act.run_bind_ok (show (queue _).run c = _ from rfl), writeContinuations_eq, framed, ← queueing_cons]
  cases pieces with
  | nil => exact ⟨[], [], hwhole, fun piece h => by simp_all, List.not_mem_nil, hrun [] []⟩
  | cons first rest =>
    refine ⟨first, rest, hwhole, fun piece h => (hfit piece h).1, fun h => ?_, hrun first rest⟩
    exact (hfit [] (List.mem_cons_of_mem _ h)).2 rfl

/-! ## Reading one frame -/

/-- All is as it was but for the transport and what passed. -/
def Untouched (c c' : H2Connection) : Prop :=
  c' = { c with source := c'.source, sink := c'.sink, out := c'.out, passed := c'.passed }

theorem Untouched.trans {a b c : H2Connection} (h : Untouched a b) (h' : Untouched b c) : Untouched a c := by
  rw [Untouched] at h h' ⊢
  rw [h', h]

theorem Untouched.streams (h : Untouched c c') : c'.streams = c.streams := by
  rw [Untouched] at h
  rw [h]

/-- A step that leaves all as it was but for the transport and what passed. -/
abbrev Untouching (m : Step α) : Prop := Act.Keeps Untouched m

theorem Untouching.bind {β : Type} {m : Step α} {f : α → Step β} (hm : Untouching m) (hf : ∀ a, Untouching (f a)) :
    Untouching (m >>= f) := @Act.Keeps.bind _ _ _ _ Untouched Untouched.trans m f hm hf

theorem untouching_get : Untouching (Act.get : Step H2Connection) := fun _ => rfl

theorem untouching_ofExcept (x : Except Error α) : Untouching (Act.ofExcept x : Step α) := fun _ => rfl

theorem untouching_flushOut : Untouching flushOut := by
  intro c
  simp only [flushOut, Act.run]
  split_ifs
  · rfl
  · rcases c.sink.write c.out with ⟨error | _, sink⟩ <;> rfl

theorem untouching_readFrameKept : Untouching readFrameKept := by
  have hflush : Untouching flushBeforeWaiting := by
    refine untouching_get.bind fun c => ?_
    split_ifs
    · exact untouching_flushOut
    · exact fun _ => rfl
  have htake : ∀ length header, Untouching (takeFrame length header) := by
    intro length header
    refine untouching_get.bind fun c => Untouching.bind (fun _ => rfl) fun _ => ?_
    cases header with
    | none => exact fun _ => rfl
    | some header => exact Untouching.bind (fun _ => rfl) fun _ => (untouching_ofExcept _).map _
  exact hflush.bind fun _ => untouching_get.bind fun _ => Untouching.bind (fun _ => rfl) fun _ => htake _ _

/-- All is as it was but for the transport, what passed, and one stream. -/
structure Aside (id : ℕ) (c c' : H2Connection) : Prop where
  rest : c' = { c with source := c'.source, sink := c'.sink, out := c'.out, passed := c'.passed, streams := c'.streams }
  others : ∀ other, other ≠ id → c'.streams.lookup other = c.streams.lookup other

theorem Aside.refl (id : ℕ) (c : H2Connection) : Aside id c c := ⟨rfl, fun _ _ => rfl⟩

theorem Aside.trans {a b c : H2Connection} (h : Aside id a b) (h' : Aside id b c) : Aside id a c where
  rest := by
    rw [h'.rest, h.rest]
  others other hother := (h'.others other hother).trans (h.others other hother)

theorem Untouched.aside (h : Untouched c c') (id : ℕ) : Aside id c c' where
  rest := by
    rw [Untouched] at h
    rw [h]
  others _ _ := by rw [h.streams]

theorem aside_modifyStream (id : ℕ) (f : H2Stream → H2Stream) (c : H2Connection) :
    Aside id c { c with streams := StreamMap.modify c.streams id f } :=
  ⟨rfl, fun other hother => by rw [StreamMap.lookup_modify, if_neg hother]⟩

/-- These octets are one frame, or one of an unknown type. -/
def Carries (maxFrameSize : ℕ) (octets : Octets) (kept : Except UInt8 Frame) : Prop :=
  Frame.take maxFrameSize octets = (.ok (some kept), [])

theorem Carries.whole {maxFrameSize : ℕ} {octets : Octets} {kept : Except UInt8 Frame} (h : Carries maxFrameSize octets kept) :
    ∃ length header, Frame.whole maxFrameSize octets = some (.ok (length, header)) ∧
      octets.length = FrameHeader.SIZE + length ∧ match header with
        | none => kept = .error (octets.getD 3 0)
        | some header => (Frame.assemble header (octets.drop FrameHeader.SIZE)).map .ok = .ok kept := by
  rw [Carries, Frame.take] at h
  rcases hwhole : Frame.whole maxFrameSize octets with - | error | ⟨length, header⟩ <;> rw [hwhole] at h
  · cases h
  · cases h
  · have hrest : octets.drop (FrameHeader.SIZE + length) = [] := by
      cases header with
      | none => exact congrArg Prod.snd h
      | some header => exact congrArg Prod.snd h
    have hlength : octets.length = FrameHeader.SIZE + length :=
      le_antisymm (List.drop_eq_nil_iff.1 hrest) (Frame.of_whole hwhole).2.1
    refine ⟨length, header, rfl, hlength, ?_⟩
    dsimp only at h
    rw [List.take_of_length_le hlength.le] at h
    cases header with
    | none => exact (Option.some.inj (Except.ok.inj (congrArg Prod.fst h))).symm
    | some header =>
      have hmap := congrArg Prod.fst h
      dsimp only at hmap ⊢
      rcases hassemble : Frame.assemble header (octets.drop FrameHeader.SIZE) with error | frame <;> rw [hassemble] at hmap <;>
        cases hmap
      rfl

theorem outcomes_write (sink : Sink) (octets : Octets) : (sink.write octets).2.outcomes ⊆ sink.outcomes ∧
    ∀ error, (sink.write octets).1 = .error error → .error error ∈ sink.outcomes := by
  obtain ⟨written, outcomes⟩ := sink
  rcases outcomes with - | ⟨error | _, outcomes⟩
  · exact ⟨List.Subset.refl _, nofun⟩
  · refine ⟨List.subset_cons_self _ _, fun error' h => ?_⟩
    obtain rfl : error = error' := Except.error.inj h
    exact List.mem_cons_self
  · exact ⟨List.subset_cons_self _ _, nofun⟩

/-- What is queued is written, or the transport fails. -/
theorem flushBeforeWaiting_run (c : H2Connection) :
    (∃ error c', flushBeforeWaiting.run c = (.error error, c') ∧ .error error ∈ c.sink.outcomes) ∨
      ∃ c', flushBeforeWaiting.run c = (.ok (), c') ∧ c'.source = c.source ∧ c'.settingsLocal = c.settingsLocal ∧
        c'.sink.outcomes ⊆ c.sink.outcomes := by
  rw [flushBeforeWaiting, Act.run_bind_ok (Act.run_get c)]
  split_ifs
  · simp only [flushOut, Act.run]
    split_ifs
    · exact .inr ⟨c, rfl, rfl, rfl, List.Subset.refl _⟩
    · obtain ⟨hless, hfail⟩ := outcomes_write c.sink c.out
      rcases hwrite : c.sink.write c.out with ⟨error | _, sink⟩ <;> rw [hwrite] at hless hfail
      · exact .inl ⟨error, _, rfl, hfail error rfl⟩
      · exact .inr ⟨_, rfl, rfl, rfl, hless⟩
  · exact .inr ⟨c, rfl, rfl, rfl, List.Subset.refl _⟩

/-- A frame that has come first is read, unless what is queued before it cannot be written. -/
theorem readFrameKept_carried {octets rest : Octets} {kept : Except UInt8 Frame}
    (hcarries : Carries c.settingsLocal.maxFrameSize octets kept) (hsource : c.source.Brings (octets ++ rest)) :
    (∃ error c', readFrameKept.run c = (.error error, c') ∧ .error error ∈ c.sink.outcomes) ∨
      ∃ c', readFrameKept.run c = (.ok kept, c') ∧ c'.source.Brings rest ∧ c'.sink.outcomes ⊆ c.sink.outcomes := by
  obtain ⟨length, header, hwhole, hlength, hkept⟩ := hcarries.whole
  have hseen : ∀ more, Frame.whole c.settingsLocal.maxFrameSize (octets ++ more) = some (.ok (length, header)) :=
    Frame.whole_append hwhole
  have hshort : ∀ data, data <+: octets → data ≠ octets → Frame.whole c.settingsLocal.maxFrameSize data = none := by
    rintro data ⟨more, rfl⟩ hne
    by_contra hfound
    obtain ⟨found, hfound⟩ := Option.ne_none_iff_exists'.1 hfound
    rw [Frame.whole_append hfound] at hwhole
    rw [hwhole] at hfound
    have hle := (Frame.of_whole hfound).2.1
    rw [← hlength, List.length_append] at hle
    exact hne (by rw [List.eq_nil_of_length_eq_zero (show more.length = 0 by omega), List.append_nil])
  rw [readFrameKept]
  obtain ⟨error, c₁, hflush, hfailed⟩ | ⟨c₁, hflush, hsource₁, hsettings, hless⟩ := flushBeforeWaiting_run c
  · exact .inl ⟨error, c₁, Act.run_bind_error hflush _, hfailed⟩
  · rw [← hsource₁] at hsource
    rw [← hsettings] at hseen hshort
    obtain ⟨s, hawait, hfront, hbrings⟩ := hsource.await hseen hshort
    have hreading : (reading (·.await (Frame.whole c₁.settingsLocal.maxFrameSize) (.error .closed))).run c₁ =
        (.ok (length, header), { c₁ with source := s }) := by
      rw [Act.run, reading, hawait]
    have hrest := hbrings.consume hfront
    have htake : s.data.take (FrameHeader.SIZE + length) = octets := by
      rw [← hlength]
      exact List.prefix_iff_eq_take.1 hfront |>.symm
    rw [Act.run_bind_ok hflush, Act.run_bind_ok (Act.run_get c₁), Act.run_bind_ok hreading]
    dsimp only
    rw [takeFrame, Act.run_bind_ok (Act.run_get _), Act.run_bind_ok (show (consuming _).run _ = _ from rfl)]
    dsimp only
    rw [htake, ← hlength]
    cases header with
    | none =>
      refine .inr ⟨{ c₁ with source := s.consume octets.length }, ?_, hrest, hless⟩
      rw [hkept]
      rfl
    | some header =>
      refine .inr ⟨{ c₁ with
        source := s.consume octets.length
        passed := .received header (octets.drop FrameHeader.SIZE) :: c₁.passed }, ?_, hrest, hless⟩
      dsimp only
      rw [Act.run_bind_ok (show (note _).run _ = _ from rfl), Act.run_map, Act.run_ofExcept, hkept]

/-! ## Gathering -/

/-- One round of gathering: no more is held than may be, and the next frame brings more of the block. -/
structure Round (id : ℕ) (last : Bool) (block : Octets) (c c' : H2Connection) : Prop where
  checked : (checkBlock id).run c = (.ok (), c)
  gathered : ∃ c₁, readFrameKept.run c = (.ok (.ok (.continuation id last block)), c₁) ∧
    (c₁.streams.lookup id).isSome = true ∧
    c' = { c₁ with streams := StreamMap.modify c₁.streams id fun stream => { stream with block := stream.block ++ block } }

/-- Rounds of gathering, none of which brings the last of the block. -/
inductive Rounds (id : ℕ) : H2Connection → List Octets → H2Connection → Prop
  | nil (c : H2Connection) : Rounds id c [] c
  | cons {c c₁ c' : H2Connection} {block : Octets} {blocks : List Octets} (round : Round id false block c c₁)
      (rounds : Rounds id c₁ blocks c') : Rounds id c (block :: blocks) c'

/-- What a connection fails with where another frame comes in the middle of a block. -/
def interruption : Except UInt8 Frame → Error
  | .error kind => .protocol "a frame of type {kind} interrupted a field block" [.number kind.toNat]
  | .ok _ => .protocol "a field block was interrupted" []

/-- What ends the gathering of a block before the block does, where so many more frames may come. -/
inductive Stopped (id : ℕ) (c : H2Connection) : ℕ → Error → H2Connection → Prop
  /-- More of it is held than may be. -/
  | oversized {left : ℕ} (held : (checkBlock id).run c ≠ (.ok (), c)) :
    Stopped id c left (.limit "field block exceeds {limit} octets" [.number c.limits.maxHeadersSize]) c
  /-- It is in more frames than it may be. -/
  | spread : Stopped id c 0
      (.limit "field block spans more than {limit} CONTINUATION frames" [.number c.limits.maxHeaderCount]) c
  /-- There is no frame to read. -/
  | unread {left : ℕ} {error : Error} {c' : H2Connection} (read : readFrameKept.run c = (.error error, c')) :
    Stopped id c (left + 1) error c'
  /-- Another frame comes. -/
  | interrupted {left : ℕ} {kept : Except UInt8 Frame} {c' : H2Connection} (read : readFrameKept.run c = (.ok kept, c'))
      (other : ∀ last block, kept ≠ .ok (.continuation id last block)) : Stopped id c (left + 1) (interruption kept) c'

/-- How the gathering of a block in so many frames at most ends, after these rounds of it: the
    block does, and is finished as it was gathered, or something else ends it. -/
def Ended (world : World) (id : ℕ) (endStream : Bool) (frames : ℕ) (c : H2Connection) (blocks : List Octets)
    (c₁ : H2Connection) : Prop :=
  (∃ block c₂, blocks.length < frames ∧ Round id true block c₁ c₂ ∧
      (continueHeaders world id endStream frames).run c = (finishGathered world id endStream).run c₂) ∨
    ∃ error c₂, blocks.length ≤ frames ∧ Stopped id c₁ (frames - blocks.length) error c₂ ∧
      (continueHeaders world id endStream frames).run c = (.error error, c₂)

/-- Another frame ends the gathering. -/
theorem continueHeaders_interrupted (world : World) (endStream : Bool) (frames : ℕ) {kept : Except UInt8 Frame}
    (hcheck : (checkBlock id).run c = (.ok (), c)) (hread : readFrameKept.run c = (.ok kept, c'))
    (hother : ∀ last block, kept ≠ .ok (.continuation id last block)) :
    (continueHeaders world id endStream (frames + 1)).run c = (.error (interruption kept), c') := by
  rw [continueHeaders, Act.run_bind_ok hcheck, Act.run_bind_ok hread]
  rcases kept with kind | frame
  · rfl
  · cases frame with
    | continuation other last block =>
      have hid : other ≠ id := fun h => hother last block (by rw [h])
      dsimp only
      rw [if_neg hid]
      rfl
    | _ => rfl

/-- Round by round. -/
theorem continueHeaders_round (world : World) (endStream : Bool) (frames : ℕ) {last : Bool} {block : Octets}
    (h : Round id last block c c') :
    (continueHeaders world id endStream (frames + 1)).run c =
      (if last then finishGathered world id endStream else continueHeaders world id endStream frames).run c' := by
  obtain ⟨hcheck, c₁, hread, hstream, rfl⟩ := h
  obtain ⟨stream, hstream⟩ := Option.isSome_iff_exists.1 hstream
  have hopen : (openStream id).run c₁ = (.ok stream, c₁) := by
    rw [Act.run, openStream, hstream]
  rw [continueHeaders, Act.run_bind_ok hcheck, Act.run_bind_ok hread]
  dsimp only
  rw [if_pos rfl, Act.run_bind_ok hopen, Act.run_bind_ok (show (modifyStream id _).run c₁ = _ from rfl)]

theorem checkBlock_run (id : ℕ) (c : H2Connection) : (checkBlock id).run c = (.ok (), c) ∨
    (checkBlock id).run c = (.error (.limit "field block exceeds {limit} octets" [.number c.limits.maxHeadersSize]), c) := by
  rw [checkBlock, Act.run_bind_ok (Act.run_get c), Act.run_demand]
  split_ifs
  · exact .inl rfl
  · exact .inr rfl

/-- A round leaves its stream open, with more of the block held on it, and all else aside. -/
theorem Round.held {last : Bool} {block : Octets} (h : Round id last block c c') {stream : H2Stream}
    (hstream : c.streams.lookup id = some stream) : Aside id c c' ∧
      c'.streams.lookup id = some { stream with block := stream.block ++ block } := by
  obtain ⟨-, c₁, hread, -, rfl⟩ := h
  have huntouched : Untouched c c₁ := untouching_readFrameKept.leads _ _ _ hread
  refine ⟨(huntouched.aside id).trans (aside_modifyStream id _ c₁), ?_⟩
  rw [StreamMap.lookup_modify, if_pos rfl, huntouched.streams, hstream]
  rfl

/-- What is held after some rounds is what was held before them with what each brought behind it. -/
theorem Rounds.held {blocks : List Octets} (h : Rounds id c blocks c') {stream : H2Stream}
    (hstream : c.streams.lookup id = some stream) : Aside id c c' ∧
      c'.streams.lookup id = some { stream with block := stream.block ++ blocks.flatten } := by
  induction h generalizing stream with
  | nil c => exact ⟨Aside.refl id c, by rw [hstream, List.flatten_nil, List.append_nil]⟩
  | cons round _ ih =>
    obtain ⟨haside, hheld⟩ := round.held hstream
    obtain ⟨haside', hheld'⟩ := ih hheld
    exact ⟨haside.trans haside', by rw [hheld', List.flatten_cons, List.append_assoc]⟩

/-- What a frame that is read brings of a block is no longer than a frame. -/
theorem Read.piece {frame : Frame} (h : Read c c' (.ok frame)) : frame.piece.length ≤ c.settingsLocal.maxFrameSize ∧
    c'.settingsLocal = c.settingsLocal := by
  obtain ⟨c₁, header, payload, hquiet, -, hassemble, hlength, rfl⟩ := h
  rw [← hquiet.settingsLocal]
  exact ⟨(Frame.length_piece hassemble).trans hlength, rfl⟩

/-- No more than may be held is held before a round, and no more than a frame comes on top. -/
theorem Round.fits {last : Bool} {block : Octets} (h : Round id last block c c') {stream : H2Stream}
    (hstream : c.streams.lookup id = some stream) : stream.block.length ≤ c.limits.maxHeadersSize ∧
      (stream.block ++ block).length ≤ c.limits.maxHeadersSize + c.settingsLocal.maxFrameSize := by
  obtain ⟨hcheck, c₁, hread, -, -⟩ := h
  have hheld : stream.block.length ≤ c.limits.maxHeadersSize := by
    rw [checkBlock, Act.run_bind_ok (Act.run_get c), hstream, Act.run_demand] at hcheck
    split_ifs at hcheck with hle
    · exact of_decide_eq_true hle
    · cases hcheck
  refine ⟨hheld, ?_⟩
  rw [List.length_append]
  exact Nat.add_le_add hheld (readFrameKept_read hread).piece.1

/-- However many rounds there are, no more is held than may be and a frame on top. -/
theorem Rounds.fits {blocks : List Octets} (h : Rounds id c blocks c') {stream : H2Stream}
    (hstream : c.streams.lookup id = some stream)
    (hfirst : stream.block.length ≤ c.limits.maxHeadersSize + c.settingsLocal.maxFrameSize) :
    (stream.block ++ blocks.flatten).length ≤ c.limits.maxHeadersSize + c.settingsLocal.maxFrameSize := by
  induction h generalizing stream with
  | nil c => rwa [List.flatten_nil, List.append_nil]
  | cons round _ ih =>
    obtain ⟨haside, hheld⟩ := round.held hstream
    have hmore := ih hheld
    rw [haside.rest] at hmore
    rw [List.flatten_cons, ← List.append_assoc]
    exact hmore (round.fits hstream).2

/-- Gathering goes on until the block ends, or something else ends it. -/
theorem continueHeaders_run (world : World) (endStream : Bool) (frames : ℕ) {stream : H2Stream}
    (hstream : c.streams.lookup id = some stream) :
    ∃ blocks c₁, Rounds id c blocks c₁ ∧ Ended world id endStream frames c blocks c₁ := by
  induction frames generalizing c stream with
  | zero =>
    refine ⟨[], c, .nil c, .inr ?_⟩
    rw [continueHeaders]
    rcases checkBlock_run id c with hcheck | hcheck
    · exact ⟨_, c, Nat.le_refl _, .spread, by rw [Act.run_bind_ok hcheck]; rfl⟩
    · exact ⟨_, c, Nat.le_refl _, .oversized (by rw [hcheck]; nofun), Act.run_bind_error hcheck _⟩
  | succ frames ih =>
    -- What ends the first round before it is over leaves no rounds.
    have hstop {error : Error} {c₂ : H2Connection} (hstopped : Stopped id c (frames + 1) error c₂)
        (hrun : (continueHeaders world id endStream (frames + 1)).run c = (.error error, c₂)) :
        ∃ blocks c₁, Rounds id c blocks c₁ ∧ Ended world id endStream (frames + 1) c blocks c₁ :=
      ⟨[], c, .nil c, .inr ⟨error, c₂, Nat.zero_le _, hstopped, hrun⟩⟩
    rcases checkBlock_run id c with hcheck | hcheck
    swap
    · refine hstop (.oversized (by rw [hcheck]; nofun)) ?_
      rw [continueHeaders, Act.run_bind_error hcheck]
    rcases hread : readFrameKept.run c with ⟨error | kept, c₁⟩
    · refine hstop (.unread hread) ?_
      rw [continueHeaders, Act.run_bind_ok hcheck, Act.run_bind_error hread]
    by_cases hother : ∀ last block, kept ≠ .ok (.continuation id last block)
    · exact hstop (.interrupted hread hother) (continueHeaders_interrupted world endStream frames hcheck hread hother)
    push Not at hother
    obtain ⟨last, block, rfl⟩ := hother
    have huntouched : Untouched c c₁ := untouching_readFrameKept.leads _ _ _ hread
    have hround : Round id last block c _ := ⟨hcheck, c₁, hread, by rw [huntouched.streams, hstream]; rfl, rfl⟩
    have hrun := continueHeaders_round world endStream frames hround
    cases last with
    | true => exact ⟨[], c, .nil c, .inl ⟨block, _, Nat.succ_pos _, hround, hrun⟩⟩
    | false =>
      obtain ⟨blocks, c₂, hrounds, hend⟩ := ih (hround.held hstream).2
      refine ⟨block :: blocks, c₂, .cons hround hrounds, ?_⟩
      rcases hend with ⟨block', c₃, hless, hlast, hrun'⟩ | ⟨error, c₃, hle, hstopped, hrun'⟩
      · exact .inl ⟨block', c₃, Nat.succ_lt_succ hless, hlast, hrun.trans hrun'⟩
      · refine .inr ⟨error, c₃, Nat.succ_le_succ hle, ?_, hrun.trans hrun'⟩
        rwa [List.length_cons, Nat.add_sub_add_right]

/-! ## What is decoded -/

/-- The decoder is as it was. -/
def Undecoded (c c' : H2Connection) : Prop := c'.hpackDecoder = c.hpackDecoder

theorem Undecoded.trans {a b c : H2Connection} (h : Undecoded a b) (h' : Undecoded b c) : Undecoded a c := Eq.trans h' h

/-- A step that leaves the decoder as it was. -/
abbrev Undecoding (m : Step α) : Prop := Act.Keeps Undecoded m

theorem Undecoding.bind {β : Type} {m : Step α} {f : α → Step β} (hm : Undecoding m) (hf : ∀ a, Undecoding (f a)) :
    Undecoding (m >>= f) := @Act.Keeps.bind _ _ _ _ Undecoded Undecoded.trans m f hm hf

theorem undecoding_pure (a : α) : Undecoding (pure a : Step α) := fun _ => rfl

theorem undecoding_get : Undecoding (Act.get : Step H2Connection) := fun _ => rfl

theorem undecoding_modifyStream (id : ℕ) (f : H2Stream → H2Stream) : Undecoding (modifyStream id f) := fun _ => rfl

theorem undecoding_ofExcept (x : Except Error α) : Undecoding (Act.ofExcept x : Step α) := fun _ => rfl

theorem undecoding_openStream (id : ℕ) : Undecoding (openStream id) := by
  intro c
  simp only [openStream, Act.run]
  split <;> rfl

theorem undecoding_noteIf (condition : Bool) (entry : Passed) : Undecoding (noteIf condition entry) := by
  rw [noteIf]
  split_ifs
  · exact fun _ => rfl
  · exact undecoding_pure ()

theorem undecoding_complete (id : ℕ) (endStream : Bool) : Undecoding (complete id endStream) := by
  have hretire : Undecoding (retire id) := by
    intro c
    simp only [retire, Act.run_modify]
    split
    · split_ifs <;> rfl
    · rfl
  refine Undecoding.bind (undecoding_modifyStream id _) fun _ => undecoding_get.bind fun c => ?_
  split
  · exact undecoding_pure none
  · split
    · exact (undecoding_noteIf _ _).bind fun _ => undecoding_pure none
    · exact Undecoding.bind (undecoding_modifyStream id _) fun _ => hretire.bind fun _ => undecoding_pure _

theorem undecoding_foldSection (world : World) (id : ℕ) (fields : List HeaderField) (endStream : Bool) :
    Undecoding (foldSection world id fields endStream) := by
  have hsettle : Undecoding (settleSection id endStream) := by
    refine Undecoding.bind (undecoding_modifyStream id _) fun _ => (undecoding_openStream id).bind fun stream => ?_
    split_ifs
    · exact undecoding_complete id endStream
    · exact undecoding_pure none
  have habsorb : Undecoding (absorbMessage world id fields) := by
    refine (undecoding_ofExcept _).bind fun m => undecoding_get.bind fun c => Undecoding.bind (undecoding_modifyStream id _) fun _ => ?_
    split_ifs
    · exact Undecoding.bind (undecoding_modifyStream id _) fun _ => undecoding_pure _
    · exact Undecoding.bind (undecoding_modifyStream id _) fun _ => undecoding_pure none
  refine (undecoding_openStream id).bind fun stream => ?_
  split_ifs
  · exact Undecoding.bind ((undecoding_ofExcept _).bind fun _ => undecoding_modifyStream id _) fun _ => hsettle
  · refine habsorb.bind fun informational => ?_
    cases informational with
    | none => exact hsettle
    | some m => exact (undecoding_noteIf _ _).bind fun _ => undecoding_pure _

/-- A block is decoded as it is given, unless the message is refused for its size first. -/
theorem finishHeaders_decodes (world : World) (id : ℕ) (block : Octets) (endStream : Bool) (c : H2Connection) :
    ((finishHeaders world id block endStream).run c).2.hpackDecoder = (c.hpackDecoder.decode block).1 ∨
      ∃ error c', (finishHeaders world id block endStream).run c = (.error error, c') ∧ c'.hpackDecoder = c.hpackDecoder := by
  have hbehind (fields : List HeaderField) (condition : Bool) (error : Error) : Undecoding (do
      Act.demand condition error
      foldSection world id fields endStream) :=
    Undecoding.bind (fun _ => rfl) fun _ => undecoding_foldSection world id fields endStream
  rw [finishHeaders, Act.run_bind_ok (Act.run_modify _ c)]
  generalize hcounted : ({ c with idleFrames := 0 } : H2Connection) = c₁
  have hdecoder : c₁.hpackDecoder = c.hpackDecoder := by rw [← hcounted]
  rw [← hdecoder]
  cases hstream : c₁.streams.lookup id with
  | none => exact .inr ⟨_, c₁, Act.run_bind_error (by rw [Act.run, openStream, hstream]) _, rfl⟩
  | some stream =>
    have hopen : (openStream id).run c₁ = (.ok stream, c₁) := by rw [Act.run, openStream, hstream]
    obtain ⟨c₂, hmodify, hdecoder₂, stream₂, hstream₂⟩ : ∃ c₂,
        (modifyStream id fun stream => { stream with head := stream.head + block.length }).run c₁ = (.ok (), c₂) ∧
          c₂.hpackDecoder = c₁.hpackDecoder ∧ ∃ stream₂, c₂.streams.lookup id = some stream₂ := by
      refine ⟨_, rfl, rfl, { stream with head := stream.head + block.length }, ?_⟩
      dsimp only
      rw [StreamMap.lookup_modify, if_pos rfl, hstream]
      rfl
    have hopen₂ : (openStream id).run c₂ = (.ok stream₂, c₂) := by rw [Act.run, openStream, hstream₂]
    rw [← hdecoder₂, Act.run_bind_ok hopen, Act.run_bind_ok hmodify]
    rw [Act.run_bind_ok hopen₂, Act.run_bind_ok (Act.run_get c₂)]
    by_cases hsize : stream₂.received ≤ c₂.limits.maxMessageSize
    · rw [Act.run_bind_demand (decide_eq_true hsize)]
      refine .inl ?_
      have hdecoded : ((decodeBlock block).run c₂).2.hpackDecoder = (c₂.hpackDecoder.decode block).1 := rfl
      rcases hdecode : (decodeBlock block).run c₂ with ⟨error | fields, c₃⟩ <;> rw [hdecode] at hdecoded
      · rw [Act.run_bind_error hdecode]
        exact hdecoded
      · rw [Act.run_bind_ok hdecode]
        exact Eq.trans (hbehind fields _ _ c₃) hdecoded
    · exact .inr ⟨_, c₂, Act.run_bind_refused (decide_eq_false hsize) _ _ _, rfl⟩

/-! ## Fragments that arrive -/

/-- What was gathered is finished as one block would be, with nothing held on the stream any more. -/
theorem finishGathered_run (world : World) (endStream : Bool) {stream : H2Stream} (hstream : c.streams.lookup id = some stream) :
    ∃ c', Aside id c c' ∧ c'.source = c.source ∧ c'.sink = c.sink ∧
      c'.streams.lookup id = some { stream with block := [] } ∧
      (finishGathered world id endStream).run c = (finishHeaders world id stream.block endStream).run c' := by
  have hopen : (openStream id).run c = (.ok stream, c) := by rw [Act.run, openStream, hstream]
  refine ⟨_, aside_modifyStream id (fun stream => { stream with block := [] }) c, rfl, rfl, ?_, ?_⟩
  · dsimp only
    rw [StreamMap.lookup_modify, if_pos rfl, hstream]
    rfl
  · rw [finishGathered, Act.run_bind_ok hopen, Act.run_bind_ok (show (modifyStream id _).run c = _ from rfl)]

/-- What was gathered in some rounds leaves as many fewer frames to come. -/
theorem continueHeaders_rounds (world : World) (endStream : Bool) {blocks : List Octets} (h : Rounds id c blocks c') {frames : ℕ}
    (hframes : blocks.length ≤ frames) : (continueHeaders world id endStream frames).run c =
      (continueHeaders world id endStream (frames - blocks.length)).run c' := by
  induction h generalizing frames with
  | nil c => rfl
  | cons round _ ih =>
    obtain ⟨frames, rfl⟩ : ∃ n, frames = n + 1 := ⟨frames - 1, (Nat.sub_add_cancel (Nat.one_le_of_lt hframes)).symm⟩
    rw [continueHeaders_round world endStream frames round, List.length_cons, Nat.add_sub_add_right]
    exact ih (Nat.le_of_succ_le_succ hframes)

theorem checkBlock_ok {stream : H2Stream} (hstream : c.streams.lookup id = some stream)
    (hheld : stream.block.length ≤ c.limits.maxHeadersSize) : (checkBlock id).run c = (.ok (), c) := by
  rw [checkBlock, Act.run_bind_ok (Act.run_get c), hstream, Act.run_demand]
  dsimp only
  rw [decide_eq_true hheld, if_pos rfl]

/-- A fragment that comes first makes a round, unless what is queued before it cannot be written. -/
theorem round_arriving {last : Bool} {block wire rest : Octets} {stream : H2Stream}
    (hstream : c.streams.lookup id = some stream) (hheld : stream.block.length ≤ c.limits.maxHeadersSize)
    (hcarries : Carries c.settingsLocal.maxFrameSize wire (.ok (.continuation id last block)))
    (hsource : c.source.Brings (wire ++ rest)) :
    (∃ error c', .error error ∈ c.sink.outcomes ∧ ∀ world endStream frames, 0 < frames →
      (continueHeaders world id endStream frames).run c = (.error error, c')) ∨
      ∃ c', Round id last block c c' ∧ c'.source.Brings rest ∧ c'.sink.outcomes ⊆ c.sink.outcomes := by
  have hcheck := checkBlock_ok hstream hheld
  obtain ⟨error, c₁, hread, hfailed⟩ | ⟨c₁, hread, hbrings, hless⟩ := readFrameKept_carried hcarries hsource
  · refine .inl ⟨error, c₁, hfailed, fun world endStream frames hframes => ?_⟩
    rw [← Nat.sub_add_cancel hframes, continueHeaders, Act.run_bind_ok hcheck, Act.run_bind_error hread]
  · have huntouched : Untouched c c₁ := untouching_readFrameKept.leads _ _ _ hread
    exact .inr ⟨_, ⟨hcheck, c₁, hread, by rw [huntouched.streams, hstream]; rfl, rfl⟩, hbrings, hless⟩

/-- Fragments that come first make as many rounds, where no more of them is held than may be. -/
theorem rounds_arriving {maxFrameSize : ℕ} {blocks wires : List Octets} {rest : Octets}
    (hwires : List.Forall₂ (fun block wire => Carries maxFrameSize wire (.ok (.continuation id false block))) blocks wires)
    (hsize : c.settingsLocal.maxFrameSize = maxFrameSize) {stream : H2Stream} (hstream : c.streams.lookup id = some stream)
    (hheld : (stream.block ++ blocks.flatten).length ≤ c.limits.maxHeadersSize)
    (hsource : c.source.Brings (wires.flatten ++ rest)) :
    (∃ error c', .error error ∈ c.sink.outcomes ∧ ∀ world endStream frames, blocks.length ≤ frames →
      (continueHeaders world id endStream frames).run c = (.error error, c')) ∨
      ∃ c', Rounds id c blocks c' ∧ c'.source.Brings rest ∧ c'.sink.outcomes ⊆ c.sink.outcomes := by
  induction hwires generalizing c stream with
  | nil => exact .inr ⟨c, .nil c, hsource, List.Subset.refl _⟩
  | @cons piece octets blocks wires hcarries _ ih =>
    rw [List.flatten_cons, ← List.append_assoc] at hheld
    rw [List.flatten_cons, List.append_assoc] at hsource
    rw [← hsize] at hcarries
    have hfirst : stream.block.length ≤ c.limits.maxHeadersSize := by
      rw [List.length_append, List.length_append] at hheld
      omega
    obtain ⟨error, c', hfailed, hrun⟩ | ⟨c₁, hround, hbrings, hless⟩ := round_arriving hstream hfirst hcarries hsource
    · exact .inl ⟨error, c', hfailed, fun world endStream frames hframes => hrun world endStream frames (Nat.zero_lt_of_lt hframes)⟩
    · obtain ⟨haside, hstream₁⟩ := hround.held hstream
      have hlimits : c₁.limits = c.limits := by rw [haside.rest]
      have hsettings : c₁.settingsLocal = c.settingsLocal := by rw [haside.rest]
      rcases ih (by rw [hsettings, hsize]) hstream₁ (hlimits ▸ hheld) hbrings with
        ⟨error, c', hfailed, hrun⟩ | ⟨c', hrounds, hbrings', hless'⟩
      · refine .inl ⟨error, c', hless hfailed, fun world endStream frames hframes => ?_⟩
        rw [← Nat.sub_add_cancel (Nat.one_le_of_lt hframes), continueHeaders_round world endStream _ hround]
        exact hrun world endStream _ (Nat.le_sub_one_of_lt hframes)
      · exact .inr ⟨c', .cons hround hrounds, hbrings', List.Subset.trans hless' hless⟩

/-- Fragments that arrive in no more frames than they may, and never more than may be held before
    the last, are gathered, and finished as one block would be. -/
theorem gathers_arriving (world : World) (endStream : Bool) {blocks wires : List Octets} {block wire rest : Octets}
    (hwires : List.Forall₂ (fun block wire => Carries c.settingsLocal.maxFrameSize wire (.ok (.continuation id false block)))
      blocks wires)
    (hwire : Carries c.settingsLocal.maxFrameSize wire (.ok (.continuation id true block))) {frames : ℕ}
    (hframes : blocks.length < frames) {stream : H2Stream} (hstream : c.streams.lookup id = some stream)
    (hheld : (stream.block ++ blocks.flatten).length ≤ c.limits.maxHeadersSize)
    (hsource : c.source.Brings (wires.flatten ++ (wire ++ rest))) :
    (∃ error c', .error error ∈ c.sink.outcomes ∧ (continueHeaders world id endStream frames).run c = (.error error, c')) ∨
      ∃ c', Aside id c c' ∧ c'.source.Brings rest ∧ c'.streams.lookup id = some { stream with block := [] } ∧
        (continueHeaders world id endStream frames).run c =
          (finishHeaders world id (stream.block ++ blocks.flatten ++ block) endStream).run c' := by
  obtain ⟨error, c', hfailed, hrun⟩ | ⟨c₁, hrounds, hbrings, hless⟩ := rounds_arriving hwires rfl hstream hheld hsource
  · exact .inl ⟨error, c', hfailed, hrun world endStream frames hframes.le⟩
  · obtain ⟨haside, hstream₁⟩ := hrounds.held hstream
    have hlimits : c₁.limits = c.limits := by rw [haside.rest]
    have hsettings : c₁.settingsLocal = c.settingsLocal := by rw [haside.rest]
    have hleft : 0 < frames - blocks.length := Nat.sub_pos_of_lt hframes
    rw [continueHeaders_rounds world endStream hrounds hframes.le]
    rcases round_arriving hstream₁ (hlimits ▸ hheld) (hsettings ▸ hwire) hbrings with
      ⟨error, c', hfailed, hrun⟩ | ⟨c₂, hround, hbrings', -⟩
    · exact .inl ⟨error, c', hless hfailed, hrun world endStream _ hleft⟩
    · obtain ⟨haside', hstream₂⟩ := hround.held hstream₁
      obtain ⟨c', haside'', hsource', -, hstream', hrun⟩ := finishGathered_run world endStream hstream₂
      refine .inr ⟨c', (haside.trans haside').trans haside'', hsource' ▸ hbrings', hstream', ?_⟩
      rw [← Nat.sub_add_cancel hleft, continueHeaders_round world endStream _ hround]
      exact hrun

/-- Whatever else arrives among the fragments ends the gathering, and nothing is decoded. -/
theorem refuses_arriving (world : World) (endStream : Bool) {blocks wires : List Octets} {wire rest : Octets}
    {kept : Except UInt8 Frame}
    (hwires : List.Forall₂ (fun block wire => Carries c.settingsLocal.maxFrameSize wire (.ok (.continuation id false block)))
      blocks wires)
    (hwire : Carries c.settingsLocal.maxFrameSize wire kept) (hkept : ∀ last block, kept ≠ .ok (.continuation id last block))
    {frames : ℕ} (hframes : blocks.length < frames) {stream : H2Stream} (hstream : c.streams.lookup id = some stream)
    (hheld : (stream.block ++ blocks.flatten).length ≤ c.limits.maxHeadersSize)
    (hsource : c.source.Brings (wires.flatten ++ (wire ++ rest))) :
    (∃ error c', .error error ∈ c.sink.outcomes ∧ (continueHeaders world id endStream frames).run c = (.error error, c')) ∨
      ∃ c', c'.hpackDecoder = c.hpackDecoder ∧
        (continueHeaders world id endStream frames).run c = (.error (interruption kept), c') := by
  obtain ⟨error, c', hfailed, hrun⟩ | ⟨c₁, hrounds, hbrings, hless⟩ := rounds_arriving hwires rfl hstream hheld hsource
  · exact .inl ⟨error, c', hfailed, hrun world endStream frames hframes.le⟩
  · obtain ⟨haside, hstream₁⟩ := hrounds.held hstream
    have hlimits : c₁.limits = c.limits := by rw [haside.rest]
    have hsettings : c₁.settingsLocal = c.settingsLocal := by rw [haside.rest]
    have hcheck := checkBlock_ok hstream₁ (hlimits ▸ hheld)
    rw [continueHeaders_rounds world endStream hrounds hframes.le, ← Nat.sub_add_cancel (Nat.sub_pos_of_lt hframes)]
    obtain ⟨error, c₂, hread, hfailed⟩ | ⟨c₂, hread, -, -⟩ := readFrameKept_carried (hsettings ▸ hwire) hbrings
    · exact .inl ⟨error, c₂, hless hfailed, by rw [continueHeaders, Act.run_bind_ok hcheck, Act.run_bind_error hread]⟩
    · have huntouched : Untouched c₁ c₂ := untouching_readFrameKept.leads _ _ _ hread
      refine .inr ⟨c₂, ?_, continueHeaders_interrupted world endStream _ hcheck hread hkept⟩
      rw [(haside.trans (huntouched.aside id)).rest]

/-! ## From the first fragment on -/

/-- All is as it was but for the streams there are and what passed. -/
def Begun (c c' : H2Connection) : Prop :=
  c' = { c with highestPeerStreamId := c'.highestPeerStreamId, streams := c'.streams, passed := c'.passed }

theorem Begun.trans {a b c : H2Connection} (h : Begun a b) (h' : Begun b c) : Begun a c := by
  rw [Begun] at h h' ⊢
  rw [h', h]

theorem begun_beginStream (id : ℕ) : Act.Keeps Begun (beginStream id) := by
  have hbind {α β : Type} {m : Step α} {f : α → Step β} (hm : Act.Keeps Begun m) (hf : ∀ a, Act.Keeps Begun (f a)) :
      Act.Keeps Begun (m >>= f) := @Act.Keeps.bind _ _ _ _ Begun Begun.trans m f hm hf
  refine hbind (fun _ => rfl) fun c => ?_
  split_ifs
  · exact fun _ => rfl
  · exact fun _ => rfl
  · exact hbind (fun _ => rfl) fun _ => hbind (fun _ => rfl) fun _ => hbind (fun _ => rfl) fun _ => hbind (fun _ => rfl) fun _ =>
      fun _ => rfl

theorem open_of_begun (h : (beginStream id).run c = (.ok (), c')) : ∃ stream, c'.streams.lookup id = some stream := by
  rcases beginStream_ok h with ⟨rfl, hopen⟩ | ⟨-, -, -, -, hview⟩
  · exact Option.isSome_iff_exists.1 hopen
  · have hstreams : c'.streams = c.streams.insert id _ := congrArg View.streams hview
    exact ⟨_, by rw [hstreams, AList.lookup_insert]⟩

/-- The first fragment of a block is held on its stream, and the others are gathered behind it. -/
theorem handle_first (first : Octets) (h : (beginStream id).run c = (.ok (), c')) :
    ∃ c₁ stream, c₁.streams.lookup id = some stream ∧ stream.block = first ∧
      Begun c c₁ ∧ ∀ world endStream, (handle world (.headers id endStream false first)).run c =
        (continueHeaders world id endStream c.limits.maxHeaderCount).run c₁ := by
  obtain ⟨stream, hstream⟩ := open_of_begun h
  have hbegun : Begun c c' := (begun_beginStream id).leads _ _ _ h
  have hopen : (openStream id).run c' = (.ok stream, c') := by rw [Act.run, openStream, hstream]
  have hlimits : c'.limits = c.limits := by
    rw [Begun] at hbegun
    rw [hbegun]
  refine ⟨{ c' with streams := StreamMap.modify c'.streams id fun stream => { stream with block := first } },
    { stream with block := first }, ?_, rfl, hbegun.trans rfl, fun world endStream => ?_⟩
  · dsimp only
    rw [StreamMap.lookup_modify, if_pos rfl, hstream]
    rfl
  · rw [handle, handleHeaders, Act.run_bind_ok h, if_neg Bool.false_ne_true, Act.run_bind_ok hopen,
      Act.run_bind_ok (show (modifyStream id _).run c' = _ from rfl), Act.run_bind_ok (Act.run_get _), ← hlimits]

/-- A pump whose frame cannot be handled takes the connection down with it. -/
theorem pump_refused {frame : Frame} {error : Error}
    (hread : (do start; flushResets; readFrame : Step Frame).run c = (.ok frame, c₁))
    (h : (handle world frame).run c₁ = (.error error, c₂)) : ∃ c', (pump world).run c = (.error error, c') ∧ c'.Failed := by
  obtain ⟨_, s₁, hstart, hread⟩ := Act.of_run_bind_ok hread
  obtain ⟨_, s₂, hflush, hread⟩ := Act.of_run_bind_ok hread
  have hact : (act world frame).run c₁ = (.error error, c₂) := Act.run_bind_error h _
  have hrun : (pump world).run c = (.error error, { c₂ with passed := .failed :: c₂.passed }) := by
    refine fatal_error ?_
    rw [Act.run_bind_ok hstart, Act.run_bind_ok hflush, Act.run_bind_ok hread, Act.run_bind_error hact]
  exact ⟨_, hrun, fatal_failed hrun⟩

/-- The handling of a block that comes in pieces, with so many rounds of gathering behind the first. -/
structure Gathering (world : World) (id : ℕ) (endStream : Bool) (first : Octets) (c : H2Connection) (blocks : List Octets)
    (c₁ c₂ : H2Connection) : Prop where
  begun : Begun c c₁
  rounds : Rounds id c₁ blocks c₂
  /-- What is held at any time is what came so far, which is no more than may be and a frame on top. -/
  held : ∀ blocks' c', Rounds id c₁ blocks' c' → (c'.streams.lookup id).map (·.block) = some (first ++ blocks'.flatten) ∧
    (first ++ blocks'.flatten).length ≤ c.limits.maxHeadersSize + c.settingsLocal.maxFrameSize
  /-- All that came is decoded as one block, or nothing is. -/
  ends : (∃ block c', blocks.length < c.limits.maxHeaderCount ∧ Round id true block c₂ c' ∧
      (first ++ blocks.flatten ++ block).length ≤ c.limits.maxHeadersSize + c.settingsLocal.maxFrameSize ∧
      ∃ c'', c''.hpackDecoder = c.hpackDecoder ∧ (c''.streams.lookup id).map (·.block) = some [] ∧
        (handle world (.headers id endStream false first)).run c =
          (finishHeaders world id (first ++ blocks.flatten ++ block) endStream).run c'') ∨
    ∃ error c', blocks.length ≤ c.limits.maxHeaderCount ∧ Stopped id c₂ (c.limits.maxHeaderCount - blocks.length) error c' ∧
      c'.hpackDecoder = c.hpackDecoder ∧ (handle world (.headers id endStream false first)).run c = (.error error, c')

theorem Stopped.undecoded {left : ℕ} {error : Error} (h : Stopped id c left error c') : c'.hpackDecoder = c.hpackDecoder := by
  have hread {answer : Except Error (Except UInt8 Frame)} (hrun : readFrameKept.run c = (answer, c')) :
      c'.hpackDecoder = c.hpackDecoder := by
    have huntouched : Untouched c c' := by
      have := untouching_readFrameKept c
      rwa [hrun] at this
    rw [Untouched] at huntouched
    rw [huntouched]
  cases h with
  | oversized | spread => rfl
  | unread read | interrupted read => exact hread read

/-- Of every block that comes in pieces the first is refused, or they are gathered. -/
theorem handle_pieces (world : World) (endStream : Bool) {first : Octets} (hfirst : first.length ≤ c.settingsLocal.maxFrameSize) :
    (∃ error c', (handle world (.headers id endStream false first)).run c = (.error error, c') ∧
        c'.hpackDecoder = c.hpackDecoder) ∨
      ∃ blocks c₁ c₂, Gathering world id endStream first c blocks c₁ c₂ := by
  rcases hbegin : (beginStream id).run c with ⟨error | _, c'⟩
  · have hbegun : Begun c c' := by
      have := begun_beginStream id c
      rwa [hbegin] at this
    refine .inl ⟨error, c', Act.run_bind_error hbegin _, ?_⟩
    rw [Begun] at hbegun
    rw [hbegun]
  obtain ⟨c₁, stream, hstream, rfl, hbegun, hrun⟩ := handle_first first hbegin
  obtain ⟨blocks, c₂, hrounds, hends⟩ := continueHeaders_run world endStream c.limits.maxHeaderCount hstream
  have hlimits : c₁.limits = c.limits := by rw [show c₁ = _ from hbegun]
  have hsettings : c₁.settingsLocal = c.settingsLocal := by rw [show c₁ = _ from hbegun]
  have hdecoder : c₁.hpackDecoder = c.hpackDecoder := by rw [show c₁ = _ from hbegun]
  obtain ⟨haside, hstream₂⟩ := hrounds.held hstream
  refine .inr ⟨blocks, c₁, c₂, hbegun, hrounds, fun blocks' c' hrounds' => ⟨?_, ?_⟩, ?_⟩
  · rw [(hrounds'.held hstream).2]
    rfl
  · have hfits := hrounds'.fits hstream (by rw [hsettings]; exact hfirst.trans (Nat.le_add_left _ _))
    rwa [hlimits, hsettings] at hfits
  · rw [Ended, ← hrun] at hends
    rcases hends with ⟨block, c₃, hless, hround, hend⟩ | ⟨error, c₃, hle, hstopped, hend⟩
    · obtain ⟨haside₃, hstream₃⟩ := hround.held hstream₂
      have hfits := (hround.fits hstream₂).2
      rw [haside.rest] at hfits
      obtain ⟨c₄, haside₄, -, -, hstream₄, hfinish⟩ := finishGathered_run world endStream hstream₃
      refine .inl ⟨block, c₃, hless, hround, hlimits ▸ hsettings ▸ hfits, c₄, ?_, ?_, hend.trans hfinish⟩
      · rw [((haside.trans haside₃).trans haside₄).rest]
        exact hdecoder
      · rw [hstream₄]
        rfl
    · refine .inr ⟨error, c₃, hle, hstopped, ?_, hend⟩
      rw [hstopped.undecoded, haside.rest]
      exact hdecoder

/-- These octets are fragments of a block on a stream, a frame each, none of which is the last. -/
def Fragments (id maxFrameSize : ℕ) : List Octets → List Octets → Prop :=
  List.Forall₂ fun block wire => Carries maxFrameSize wire (.ok (.continuation id false block))

/-- A block that arrives in pieces is decoded as if it had arrived as one. -/
theorem pieces_gathered (world : World) (endStream : Bool) {first block wire rest : Octets} {blocks wires : List Octets}
    (hbegin : (beginStream id).run c = (.ok (), c')) (hwires : Fragments id c.settingsLocal.maxFrameSize blocks wires)
    (hwire : Carries c.settingsLocal.maxFrameSize wire (.ok (.continuation id true block)))
    (hframes : blocks.length < c.limits.maxHeaderCount) (hheld : (first ++ blocks.flatten).length ≤ c.limits.maxHeadersSize)
    (hsource : c.source.Brings (wires.flatten ++ (wire ++ rest))) :
    (∃ error c₁, .error error ∈ c.sink.outcomes ∧
        (handle world (.headers id endStream false first)).run c = (.error error, c₁)) ∨
      ∃ c₁, c₁.hpackDecoder = c.hpackDecoder ∧ c₁.source.Brings rest ∧
        (handle world (.headers id endStream false first)).run c =
          (finishHeaders world id (first ++ blocks.flatten ++ block) endStream).run c₁ := by
  obtain ⟨c₁, stream, hstream, rfl, hbegun, hrun⟩ := handle_first first hbegin
  rw [hrun]
  rw [Begun] at hbegun
  have hgathers := gathers_arriving (c := c₁) world endStream (by rw [hbegun]; exact hwires) (by rw [hbegun]; exact hwire)
    hframes hstream (by rw [hbegun]; exact hheld) (by rw [hbegun]; exact hsource)
  rcases hgathers with ⟨error, c₂, hfailed, hend⟩ | ⟨c₂, haside, hbrings, -, hend⟩
  · rw [hbegun] at hfailed
    exact .inl ⟨error, c₂, hfailed, hend⟩
  · refine .inr ⟨c₂, ?_, hbrings, hend⟩
    rw [haside.rest, hbegun]

/-- A block whose pieces another frame comes between is refused, and nothing of it is decoded. -/
theorem pieces_interrupted (world : World) (endStream : Bool) {first wire rest : Octets} {blocks wires : List Octets}
    {kept : Except UInt8 Frame} (hbegin : (beginStream id).run c = (.ok (), c'))
    (hwires : Fragments id c.settingsLocal.maxFrameSize blocks wires) (hwire : Carries c.settingsLocal.maxFrameSize wire kept)
    (hkept : ∀ last block, kept ≠ .ok (.continuation id last block))
    (hframes : blocks.length < c.limits.maxHeaderCount) (hheld : (first ++ blocks.flatten).length ≤ c.limits.maxHeadersSize)
    (hsource : c.source.Brings (wires.flatten ++ (wire ++ rest))) :
    (∃ error c₁, .error error ∈ c.sink.outcomes ∧
        (handle world (.headers id endStream false first)).run c = (.error error, c₁)) ∨
      ∃ c₁, c₁.hpackDecoder = c.hpackDecoder ∧
        (handle world (.headers id endStream false first)).run c = (.error (interruption kept), c₁) := by
  obtain ⟨c₁, stream, hstream, rfl, hbegun, hrun⟩ := handle_first first hbegin
  rw [hrun]
  rw [Begun] at hbegun
  have hrefuses := refuses_arriving (c := c₁) world endStream (by rw [hbegun]; exact hwires) (by rw [hbegun]; exact hwire)
    hkept hframes hstream (by rw [hbegun]; exact hheld) (by rw [hbegun]; exact hsource)
  rw [show c₁.sink = c.sink by rw [hbegun], show c₁.hpackDecoder = c.hpackDecoder by rw [hbegun]] at hrefuses
  exact hrefuses

end H2Connection

end Soyokaze

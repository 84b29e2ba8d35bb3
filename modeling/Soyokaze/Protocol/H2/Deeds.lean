import Soyokaze.Lib.Chain
import Soyokaze.Protocol.H2.Runs

/-!
# What a connection does as it listens

Whatever a connection does as it listens to its peer it does by a few kinds of deeds, and
what every deed hands on holds for as long as it listens.

* `chains_pump`, `chains_relay`: the reading and handling of a frame is a chain of deeds.
-/

namespace Soyokaze

open H2

namespace H2

/-- Whether a frame is neither of a message nor the end of a stream. -/
def Frame.control : Frame → Bool
  | headers .. | continuation .. | data .. | rstStream .. => false
  | _ => true

/-- Whether an entry is of something else than a frame that was sent. -/
def Passed.unsent : Passed → Bool
  | sent _ => false
  | _ => true

end H2

/-- What a stream is after it was tended to: what it was, or begun, or ended by its peer, and nothing of it longer. -/
structure H2Stream.Tended (stream stream' : H2Stream) : Prop where
  state : stream'.state = stream.state ∨ stream'.state = stream.state.begun ∨ stream'.state = stream.state.closeRemote
  pendingReset : stream'.pendingReset = stream.pendingReset
  body : stream'.body = stream.body ∨ stream'.body = []
  block : stream'.block = stream.block ∨ stream'.block = []

namespace H2Connection

/-- What is left of a source that was read from: no more than was left of it, but what came with the last read behind
    the beginning of a frame. -/
def Drawn (size : ℕ) (source source' : Source Error UInt8) : Prop :=
  source'.reads <:+ source.reads ∧ (source'.data.length ≤ max source.data.length size ∨
    ∃ piece, .ok piece ∈ source.reads ∧ source'.data.length ≤ size + piece.length)

/-- How long the beginning of a frame may be, or of the preface. -/
def frameCeiling (c : H2Connection) : ℕ := max PREFACE.length (FrameHeader.SIZE + c.settingsLocal.maxFrameSize)

/-- What a connection does as it listens, a little at a time. It reads, and gathers a field section, only where it
    `reads`. -/
inductive Deed (reads whole : Bool) (c : H2Connection) : H2Connection → Prop
  | aside (sink : Sink) (out : Octets) (started : Bool) (goaway : Option ℕ) (idleFrames prematureResets : ℕ)
      (hpackDecoder : Hpack.Decoder) (hpackEncoder : Hpack.Encoder) (settingsRemote : Settings)
      (windowLocal windowRemote : ℤ) :
      Deed reads whole c { c with
        sink := sink
        out := out
        started := started
        goaway := goaway
        idleFrames := idleFrames
        prematureResets := prematureResets
        hpackDecoder := hpackDecoder
        hpackEncoder := hpackEncoder
        settingsRemote := settingsRemote
        windowLocal := windowLocal
        windowRemote := windowRemote }
  | read {source : Source Error UInt8} (reading : reads = true) (drawn : Drawn c.frameCeiling c.source source) :
      Deed reads whole c { c with source := source }
  | gather (id : ℕ) (f : Octets → Octets) (reading : reads = true) :
      Deed reads whole c { c with
        streams := StreamMap.modify c.streams id fun stream => { stream with block := f stream.block } }
  | note {e : Passed} (unsent : e.unsent = true) : Deed reads whole c { c with passed := e :: c.passed }
  | queue {frame : Frame} (control : frame.control = true) :
      Deed reads whole c { c with out := c.out ++ frame.encode, passed := .sent frame :: c.passed }
  | reset (id code : ℕ) (held : c.streams.lookup id ≠ none) :
      Deed reads whole c { c with
        streams := c.streams.erase id
        out := c.out ++ (Frame.rstStream id code).encode
        passed := .sent (.rstStream id code) :: c.passed }
  | flushed : Deed reads whole c { c with resets := false }
  | drop (id : ℕ) : Deed reads whole c { c with streams := c.streams.erase id }
  | tend (id : ℕ) {f : H2Stream → H2Stream} (tended : ∀ stream, H2Stream.Tended stream (f stream)) :
      Deed reads whole c { c with streams := StreamMap.modify c.streams id f }
  | credit {f : H2Stream → H2Stream} (tended : ∀ stream, H2Stream.Tended stream (f stream)) :
      Deed reads whole c { c with streams := StreamMap.mapValues c.streams f }
  | hold (id : ℕ) (data : Octets) (bufferedBound : ℕ)
      (room : whole = true → bufferedBound ≤ c.limits.maxConnectionBufferSize ∧
        (bufferedBound = saturating 64 (c.bufferedBound + data.length) ∨
          bufferedBound = ({ c with streams := StreamMap.modify c.streams id fun stream =>
            { stream with body := stream.body ++ data } } : H2Connection).buffered)) :
      Deed reads whole c { c with
        streams := StreamMap.modify c.streams id fun stream => { stream with body := stream.body ++ data }
        bufferedBound := bufferedBound }
  | raise (id : ℕ) (positive : id ≠ 0) (peers : (id % 2 = 1) = (!c.role.isClient)) (higher : c.highestPeerStreamId < id) :
      Deed reads whole c { c with highestPeerStreamId := id }
  | begin' (id : ℕ) (positive : id ≠ 0) (peers : (id % 2 = 1) = (!c.role.isClient)) (higher : c.highestPeerStreamId < id)
      (absent : c.streams.lookup id = none) :
      Deed reads whole c { c with
        highestPeerStreamId := id
        streams := c.streams.insert id (.new c.settingsLocal.initialWindowSize c.settingsRemote.initialWindowSize)
        passed := .opened id :: c.passed }

/-- What a connection does as it listens. -/
def deeds (reads : Bool) : Act.Deeds H2Connection where
  deed := Deed reads
  weaken h := by
    cases h with
    | aside => exact .aside ..
    | read reading drawn => exact .read reading drawn
    | gather id f reading => exact .gather id f reading
    | note unsent => exact .note unsent
    | queue control => exact .queue control
    | reset id code held => exact .reset id code held
    | flushed => exact .flushed
    | drop => exact .drop ..
    | tend id tended => exact .tend id tended
    | credit tended => exact .credit tended
    | hold id data bound => exact .hold id data bound fun h => (by cases h)
    | raise id positive peers higher => exact .raise id positive peers higher
    | begin' id positive peers higher absent => exact .begin' id positive peers higher absent

/-- A step by which a connection only listens. -/
abbrev Listens (reads : Bool) {α : Type} (m : Step α) : Prop := Act.Chains (deeds reads) m

variable {α : Type} {c : H2Connection} {id : ℕ} {world : World} {reads : Bool}

/-! ## Single steps -/

theorem listens_modify {f : H2Connection → H2Connection} (h : ∀ c, Deed reads true c (f c)) :
    Listens reads (Act.modify f : Step Unit) := .single h

theorem listens_note {e : Passed} (h : e.unsent = true) : Listens reads (note e) := listens_modify fun _ => .note h

theorem listens_noteIf {e : Passed} (h : e.unsent = true) (condition : Bool) : Listens reads (noteIf condition e) := by
  rw [noteIf]
  split_ifs
  · exact listens_note h
  · exact .pure _

theorem listens_queue {frame : Frame} (h : frame.control = true) : Listens reads (queue frame) := listens_modify fun _ => .queue h

theorem listens_tend {f : H2Stream → H2Stream} (h : ∀ stream, H2Stream.Tended stream (f stream)) :
    Listens reads (modifyStream id f) := listens_modify fun _ => .tend id h

theorem listens_flushOut : Listens reads flushOut := by
  intro c
  simp only [flushOut, Act.run]
  split_ifs
  · exact .refl
  · split
    · exact Relation.ReflTransGen.single (.aside _ [] _ _ _ _ _ _ _ _ _)
    · exact Relation.ReflTransGen.head (.aside _ [] _ _ _ _ _ _ _ _ _) (.single (.note (e := .failed) rfl))

theorem listens_fatal {m : Step α} (h : Listens reads m) : Listens reads (fatal m) := by
  intro c
  have hm := h c
  rcases hrun : m.run c with ⟨error | a, c'⟩ <;> rw [hrun] at hm
  · rw [fatal_error hrun]
    exact hm.tail (.note rfl)
  · rwa [fatal_ok hrun]

theorem openStream_snd (id : ℕ) (c : H2Connection) : ((openStream id).run c).2 = c := by
  simp only [openStream, Act.run]
  split <;> rfl

theorem listens_openStream (id : ℕ) : Listens reads (openStream id) := .aside (openStream_snd id)

theorem listens_write {frame : Frame} (h : frame.control = true) : Listens reads (write frame) :=
  (listens_queue h).bind fun _ => listens_flushOut

theorem listens_overloaded (reason : String) (quoted : List Quoted) : Listens reads (overloaded reason quoted : Step α) := by
  intro c
  have hwrite : Listens reads (write (.goAway c.highestPeerStreamId Code.ENHANCE_YOUR_CALM [])) := listens_write rfl
  exact (hwrite c).any

theorem done_reset (code : ℕ) (hheld : c.streams.lookup id ≠ none) :
    (deeds reads).Done ((reset id code).run c).1.isOk c ((reset id code).run c).2 := by
  have hflush := @listens_flushOut reads { c with
    streams := c.streams.erase id
    out := c.out ++ (Frame.rstStream id code).encode
    passed := .sent (.rstStream id code) :: c.passed }
  exact Relation.ReflTransGen.head (.reset id code hheld) hflush

/-- What follows the lookup of a stream may count on there being one. -/
theorem listens_openStream_bind {f : H2Stream → Step α} (h : ∀ (c : H2Connection) stream,
    c.streams.lookup id = some stream → (deeds reads).Done ((f stream).run c).1.isOk c ((f stream).run c).2) :
    Listens reads (openStream id >>= f) := by
  intro c
  rw [Act.run_bind]
  rcases hopen : (openStream id).run c with ⟨error | stream, c'⟩
  · rw [← show c' = c from (congrArg Prod.snd hopen).symm.trans (openStream_snd id c)]
    exact .refl
  · obtain ⟨rfl, hstream⟩ := openStream_ok hopen
    exact h c' stream hstream

theorem listens_retire (id : ℕ) : Listens reads (retire id) := by
  intro c
  simp only [retire, Act.run_modify]
  split
  · split_ifs
    · exact Relation.ReflTransGen.single (.drop id)
    · exact .refl
  · exact .refl

theorem listens_idle : Listens reads idle := by
  refine Act.Chains.bind (listens_modify fun _ => .aside ..) fun _ => Act.Chains.get.bind fun c => ?_
  split_ifs
  · exact listens_overloaded _ _
  · exact .pure _

theorem listens_advanced (progress : Bool) : Listens reads (advanced progress) := by
  rw [advanced]
  split_ifs
  · exact listens_modify fun _ => .aside ..
  · exact listens_idle

theorem listens_flushIfDrained : Listens reads flushIfDrained := by
  refine Act.Chains.get.bind fun c => ?_
  split_ifs
  · exact listens_flushOut
  · exact .pure _

theorem listens_flushBeforeWaiting : Listens reads flushBeforeWaiting := by
  refine Act.Chains.get.bind fun c => ?_
  split_ifs
  · exact listens_flushOut
  · exact .pure _

theorem listens_giveCredit (id length : ℕ) : Listens reads (giveCredit id length) := by
  rw [giveCredit]
  split_ifs
  · exact listens_queue rfl
  · exact .pure _

/-! ## Reading -/

/-- What is left of a source once what was awaited came, or will not come. -/
theorem drawn_await {β : Type} {look : Octets → Option (Except Error β)} {closed : Except Error β} {size : ℕ}
    (hlook : ∀ data, look data = none → data.length ≤ size) (source : Source Error UInt8) :
    Drawn size source (source.await look closed).2 := by
  have hloop : ∀ (reads : List (Except Error Octets)) (data : Octets), look data = none →
      (Source.awaitLoop look closed reads data).2.reads <:+ reads ∧
        ((Source.awaitLoop look closed reads data).2.data.length ≤ size ∨ ∃ piece, .ok piece ∈ reads ∧
          (Source.awaitLoop look closed reads data).2.data.length ≤ size + piece.length) := by
    intro reads
    -- By induction on the reads: before each of them there was less than a whole frame.
    induction reads with
    | nil => exact fun data hnone => ⟨List.suffix_refl _, .inl (hlook data hnone)⟩
    | cons read reads ih =>
      intro data hnone
      rcases read with error | _ | ⟨first, piece⟩
      · exact ⟨List.suffix_cons _ _, .inl (hlook data hnone)⟩
      · exact ⟨List.suffix_cons _ _, .inl (hlook data hnone)⟩
      · rw [Source.awaitLoop]
        cases hcame : look (data ++ first :: piece) with
        | some answer =>
          refine ⟨List.suffix_cons _ _, .inr ⟨first :: piece, List.mem_cons_self, ?_⟩⟩
          rw [List.length_append]
          exact Nat.add_le_add_right (hlook data hnone) _
        | none =>
          obtain ⟨hreads, hdata⟩ := ih _ hcame
          refine ⟨hreads.trans (List.suffix_cons _ _), ?_⟩
          obtain hle | ⟨piece, hmem, hle⟩ := hdata
          · exact .inl hle
          · exact .inr ⟨piece, List.mem_cons_of_mem _ hmem, hle⟩
  rw [Source.await]
  cases hcame : look source.data with
  | some answer => exact ⟨List.suffix_refl _, .inl (le_max_left _ _)⟩
  | none =>
    dsimp only
    split_ifs
    · exact ⟨List.suffix_refl _, .inl (le_max_left _ _)⟩
    · obtain ⟨hreads, hdata⟩ := hloop source.reads source.data hcame
      exact ⟨hreads, hdata.imp_left fun hle => hle.trans (le_max_right _ _)⟩

theorem done_reading {β : Type} {look : Octets → Option (Except Error β)} {closed : Except Error β}
    (h : ∀ data, look data = none → data.length ≤ c.frameCeiling) :
    (deeds true).Done ((reading (·.await look closed)).run c).1.isOk c ((reading (·.await look closed)).run c).2 :=
  Act.Deeds.Done.of_whole (.single (Deed.read rfl (drawn_await h c.source))) _

theorem listens_consuming (count : ℕ) : Listens true (consuming count) := by
  refine listens_modify fun c => .read rfl ⟨List.suffix_refl _, .inl (le_max_of_le_left ?_)⟩
  rw [Source.consume, List.length_drop]
  exact Nat.sub_le _ _

theorem length_of_whole {maxFrameSize : ℕ} {data : Octets} (h : Frame.whole maxFrameSize data = none) :
    data.length ≤ FrameHeader.SIZE + maxFrameSize := by
  rw [Frame.whole] at h
  rcases hdecode : FrameHeader.decode data with ⟨length, header⟩
  rw [hdecode] at h
  dsimp only at h
  split_ifs at h with hshort hlarge hpart
  · omega
  · omega

theorem listens_start : Listens true start := by
  refine Act.Chains.get.bind fun c => ?_
  split_ifs
  · exact .pure _
  · have hpreface : Listens true exchangePreface := by
      refine Act.Chains.get_bind fun c => ?_
      split_ifs
      · exact Relation.ReflTransGen.single (.aside _ (c.out ++ PREFACE) _ _ _ _ _ _ _ _ _)
      · refine Act.Chains.bind_from (done_reading fun data hnone => ?_) fun _ => (Act.Chains.demand _ _).bind fun _ =>
          listens_consuming _
        split_ifs at hnone with hshort
        exact le_max_of_le_left (not_le.1 hshort).le
    exact listens_fatal <| Act.Chains.bind (listens_modify fun _ => .aside ..) fun _ => hpreface.bind fun _ =>
      Act.Chains.bind (listens_modify fun _ => .aside ..) fun _ => Act.Chains.get.bind fun _ => (listens_queue rfl).bind fun _ =>
        listens_flushOut

theorem held_pendingResets (c : H2Connection) : ∀ entry ∈ c.pendingResets, c.streams.lookup entry.1 ≠ none := by
  intro entry hmem
  obtain ⟨stream, hstream, hentry⟩ := List.mem_filterMap.1 hmem
  obtain ⟨code, -, rfl⟩ := Option.map_eq_some_iff.1 hentry
  rw [show c.streams.lookup stream.1 = some stream.2 from AList.mem_lookup_iff.2 hstream]
  exact Option.some_ne_none _

theorem nodup_pendingResets (c : H2Connection) : (c.pendingResets.map Prod.fst).Nodup := by
  refine List.Nodup.sublist ?_ c.streams.nodupKeys
  rw [pendingResets, List.keys]
  induction c.streams.entries with
  | nil => exact List.nil_sublist _
  | cons entry entries ih =>
    rw [List.filterMap_cons]
    cases entry.2.pendingReset with
    | none => exact ih.cons _
    | some code => exact ih.cons_cons _

theorem listens_flushResets : Listens reads flushResets := by
  have hall : ∀ (pending : List (ℕ × ℕ)) (c : H2Connection), (pending.map Prod.fst).Nodup →
      (∀ entry ∈ pending, c.streams.lookup entry.1 ≠ none) →
        (deeds reads).Done ((resetAll pending).run c).1.isOk c ((resetAll pending).run c).2 := by
    intro pending
    induction pending with
    | nil => exact fun _ _ _ => .refl
    | cons entry pending ih =>
      intro c hnodup hheld
      obtain ⟨hnew, hnodup⟩ := List.nodup_cons.1 hnodup
      refine Relation.ReflTransGen.head (.reset entry.1 entry.2 (hheld _ List.mem_cons_self)) (ih _ hnodup ?_)
      -- What is reset is no other stream that is still to be.
      intro other hother
      have hne : other.1 ≠ entry.1 := fun heq => hnew (heq ▸ List.mem_map_of_mem hother)
      exact fun hgone => hheld other (List.mem_cons_of_mem _ hother) ((AList.lookup_erase_ne hne).symm.trans hgone)
  refine Act.Chains.get_bind fun c => ?_
  split_ifs
  · exact Act.Chains.bind_ok (Act.run_modify _ c) (.single .flushed) (hall _ _ (nodup_pendingResets c) (held_pendingResets c))
  · exact .refl

theorem listens_takeFrame (length : ℕ) (header : Option FrameHeader) : Listens true (takeFrame length header) := by
  refine Act.Chains.get.bind fun c => (listens_consuming _).bind fun _ => ?_
  cases header with
  | none => exact .pure _
  | some header => exact (listens_note rfl).bind fun _ => (Act.Chains.ofExcept _).map _

theorem listens_readFrameKept : Listens true readFrameKept :=
  listens_flushBeforeWaiting.bind fun _ => Act.Chains.get_bind fun _ =>
    Act.Chains.bind_from (done_reading fun _ hnone => le_max_of_le_right (length_of_whole hnone)) fun _ => listens_takeFrame _ _

theorem listens_readFrame : Listens true readFrame := by
  refine Act.Chains.get.bind fun c => ?_
  -- By induction on the fuel: a frame of an unknown type is read past.
  induction c.source.left + 1 with
  | zero => exact .fail _
  | succ fuel ih =>
    refine listens_readFrameKept.bind fun kept => ?_
    cases kept with
    | error kind => exact ih
    | ok frame => exact .pure _

/-! ## Field sections -/

theorem listens_beginStream (id : ℕ) : Listens reads (beginStream id) := by
  refine Act.Chains.get_bind fun c => ?_
  split_ifs with howner hknown
  · exact Act.Chains.demand _ _ c
  · exact .refl
  · push Not at howner
    by_cases hhigher : c.highestPeerStreamId < id
    · rw [Act.run_bind_demand (decide_eq_true hhigher), Act.run_bind_ok (Act.run_modify _ c)]
      have habsent : c.streams.lookup id = none := Option.not_isSome_iff_eq_none.1 hknown
      rw [Act.run_bind]
      simp only [Act.run_demand]
      split_ifs
      · exact Relation.ReflTransGen.single (.begin' id howner.1 howner.2 hhigher habsent)
      · exact Relation.ReflTransGen.single (.raise id howner.1 howner.2 hhigher)
    · rw [Act.run_bind_refused (decide_eq_false hhigher)]
      exact .refl

theorem listens_complete (id : ℕ) (endStream : Bool) : Listens reads (complete id endStream) := by
  refine Act.Chains.bind (listens_tend fun stream => ?_) fun _ => Act.Chains.get.bind fun c => ?_
  · split_ifs
    · exact ⟨.inr (.inr rfl), rfl, .inl rfl, .inl rfl⟩
    · exact ⟨.inl rfl, rfl, .inl rfl, .inl rfl⟩
  · split
    · exact .pure _
    · split
      · exact (listens_noteIf rfl _).bind fun _ => .pure _
      · exact Act.Chains.bind (listens_tend fun _ => ⟨.inl rfl, rfl, .inr rfl, .inl rfl⟩) fun _ => (listens_retire id).bind fun _ => .pure _

theorem listens_absorbMessage (world : World) (id : ℕ) (fields : List HeaderField) :
    Listens reads (absorbMessage world id fields) := by
  refine (Act.Chains.ofExcept _).bind fun m => Act.Chains.get.bind fun c => Act.Chains.bind (listens_tend fun stream => ?_) fun _ => ?_
  · split_ifs <;> exact ⟨.inl rfl, rfl, .inl rfl, .inl rfl⟩
  · split_ifs
    · exact Act.Chains.bind (listens_tend fun _ => ⟨.inr (.inl rfl), rfl, .inl rfl, .inl rfl⟩) fun _ => .pure _
    · exact Act.Chains.bind (listens_tend fun _ => ⟨.inl rfl, rfl, .inl rfl, .inl rfl⟩) fun _ => .pure _

theorem listens_settleSection (id : ℕ) (endStream : Bool) : Listens reads (settleSection id endStream) := by
  refine Act.Chains.bind (listens_tend fun _ => ⟨.inr (.inl rfl), rfl, .inl rfl, .inl rfl⟩) fun _ => (listens_openStream id).bind fun stream => ?_
  split_ifs
  · exact listens_complete id endStream
  · exact .pure _

theorem listens_foldSection (world : World) (id : ℕ) (fields : List HeaderField) (endStream : Bool) :
    Listens reads (foldSection world id fields endStream) := by
  refine (listens_openStream id).bind fun stream => ?_
  split_ifs
  · refine Act.Chains.bind ?_ fun _ => listens_settleSection id endStream
    exact (Act.Chains.ofExcept _).bind fun _ => listens_tend fun _ => ⟨.inl rfl, rfl, .inl rfl, .inl rfl⟩
  · refine (listens_absorbMessage world id fields).bind fun informational => ?_
    split
    · exact (listens_noteIf rfl _).bind fun _ => .pure _
    · exact listens_settleSection id endStream

theorem listens_finishHeaders (world : World) (id : ℕ) (block : Octets) (endStream : Bool) :
    Listens reads (finishHeaders world id block endStream) := by
  have hdecode : Listens reads (decodeBlock block) := .single fun _ => .aside ..
  exact Act.Chains.bind (listens_modify fun _ => .aside ..) fun _ => (listens_openStream id).bind fun _ =>
    Act.Chains.bind (listens_tend fun _ => ⟨.inl rfl, rfl, .inl rfl, .inl rfl⟩) fun _ => (listens_openStream id).bind fun _ =>
      Act.Chains.get.bind fun _ => (Act.Chains.demand _ _).bind fun _ => hdecode.bind fun _ =>
        (Act.Chains.demand _ _).bind fun _ => listens_foldSection world id _ endStream

theorem listens_finishGathered (world : World) (id : ℕ) (endStream : Bool) : Listens reads (finishGathered world id endStream) :=
  (listens_openStream id).bind fun _ => Act.Chains.bind (listens_tend fun _ => ⟨.inl rfl, rfl, .inl rfl, .inr rfl⟩) fun _ =>
    listens_finishHeaders world id _ endStream

theorem listens_continueHeaders (world : World) (id : ℕ) (endStream : Bool) (frames : ℕ) :
    Listens true (continueHeaders world id endStream frames) := by
  have hcheck : Listens true (checkBlock id) := Act.Chains.get.bind fun _ => .demand _ _
  induction frames with
  | zero => exact hcheck.bind fun _ => Act.Chains.get.bind fun _ => .fail _
  | succ frames ih =>
    refine hcheck.bind fun _ => listens_readFrameKept.bind fun kept => ?_
    rcases kept with kind | frame
    · exact .fail _
    cases frame
    case continuation other endHeaders block =>
      refine (?_ : Listens true (if other = id then _ else _))
      have hgather : Listens true (modifyStream id fun stream => { stream with block := stream.block ++ block }) :=
        listens_modify fun _ => .gather id (· ++ block) rfl
      split_ifs
      · exact (listens_openStream id).bind fun _ => hgather.bind fun _ => listens_finishGathered world id endStream
      · exact (listens_openStream id).bind fun _ => hgather.bind fun _ => ih
      · exact .fail _
    all_goals exact .fail _

/-! ## Handling frames -/

/-- It is read on only for a field section that goes on in other frames. -/
theorem listens_handleHeaders (world : World) (id : ℕ) (endStream : Bool) {endHeaders : Bool} (block : Octets)
    (h : endHeaders = false → reads = true) : Listens reads (handleHeaders world id endStream endHeaders block) := by
  refine (listens_beginStream id).bind fun _ => ?_
  split_ifs with hend
  · exact listens_finishHeaders world id block endStream
  · obtain rfl := h (Bool.eq_false_iff.2 hend)
    exact (listens_openStream id).bind fun _ => Act.Chains.bind (listens_modify fun _ => .gather id (fun _ => block) rfl) fun _ =>
      Act.Chains.get.bind fun c => listens_continueHeaders world id endStream c.limits.maxHeaderCount

theorem listens_handleSettings (params : List (ℕ × ℕ)) : Listens reads (handleSettings params) := by
  refine listens_idle.bind fun _ => Act.Chains.get.bind fun before => Act.Chains.bind ?_ fun _ =>
    Act.Chains.bind (fun c => ?_) fun _ => (listens_queue rfl).bind fun _ => .pure _
  · exact .single fun _ => .aside ..
  · refine Relation.ReflTransGen.head (Deed.credit (f := fun stream => { stream with
      windowRemote := stream.windowRemote + (c.settingsRemote.initialWindowSize - before.settingsRemote.initialWindowSize) })
        fun _ => ⟨.inl rfl, rfl, .inl rfl, .inl rfl⟩) (.single ?_)
    exact .aside _ _ _ _ _ _ _ (c.hpackEncoder.setMaxCapacity c.settingsRemote.headerTableSize) _ _ _

theorem listens_creditConnection (increment : ℕ) : Listens reads (creditConnection increment) :=
  Act.Chains.get.bind fun _ => Act.Chains.bind (listens_modify fun _ => .aside ..) fun _ => (Act.Chains.demand _ _).bind fun _ =>
    (listens_advanced _).bind fun _ => .pure _

theorem listens_creditStream (id increment : ℕ) : Listens reads (creditStream id increment) := by
  refine Act.Chains.get_bind fun c => ?_
  split
  · exact listens_idle.bind (fun _ => .pure _) c
  · next stream hstream =>
    refine Act.Chains.bind_ok (show (modifyStream id _).run c = _ from rfl) (.single (.tend id fun _ => ⟨.inl rfl, rfl, .inl rfl, .inl rfl⟩)) ?_
    split_ifs
    · refine Act.Chains.bind_from (done_reset _ ?_) fun _ => .pure _
      rw [StreamMap.lookup_modify, if_pos rfl, hstream]
      exact Option.some_ne_none _
    · exact (listens_advanced _).bind (fun _ => .pure _) _

theorem listens_handleReset (id : ℕ) : Listens reads (handleReset id) := by
  refine listens_idle.bind fun _ => Act.Chains.get.bind fun c => Act.Chains.bind (listens_modify fun _ => .drop id) fun _ => ?_
  split
  · split_ifs
    · refine Act.Chains.bind (listens_modify fun _ => .aside ..) fun _ => Act.Chains.get.bind fun c => ?_
      split_ifs
      · exact listens_overloaded _ _
      · exact .pure _
    · exact .pure _
  · exact .pure _

theorem listens_spendConnection (length : ℕ) : Listens reads (spendConnection length) := by
  refine Act.Chains.bind (listens_modify fun _ => .aside ..) fun _ => Act.Chains.get.bind fun c => ?_
  split_ifs
  · exact (listens_note rfl).bind fun _ => .fail _
  · exact (listens_giveCredit 0 length).bind fun _ => listens_modify fun _ => .aside ..

/-- What is held grows by what came, and no more than there is room for is held on to. -/
theorem listens_holdData (id : ℕ) (data : Octets) : Listens reads (holdData id data) := by
  intro c
  have hfails (bufferedBound : ℕ) : (deeds reads).Done false c { c with
      streams := StreamMap.modify c.streams id fun stream => { stream with body := stream.body ++ data }
      bufferedBound := bufferedBound } := .single (Deed.hold id data bufferedBound fun h => by cases h)
  rw [holdData, Act.run_bind_ok (show (modifyStream id _).run c = _ from rfl), Act.run_bind]
  rcases hopen : (openStream id).run _ with ⟨error | stream, c₁⟩
  · obtain rfl : c₁ = _ := (congrArg Prod.snd hopen).symm.trans (openStream_snd ..)
    exact hfails c.bufferedBound
  obtain rfl : c₁ = _ := (congrArg Prod.snd hopen).symm.trans (openStream_snd ..)
  dsimp only
  rw [Act.run_bind_ok (Act.run_modify _ _), Act.run_bind_ok (Act.run_get _), Act.run_bind]
  simp only [Act.run_demand]
  split_ifs
  · dsimp only
    rw [Act.run_bind]
    simp only [Act.run_demand]
    split_ifs
    · dsimp only
      rw [Act.run_bind]
      simp only [overbuffered, Act.run]
      split_ifs with hwithin
      · exact Relation.ReflTransGen.single (Deed.hold id data _ fun _ => ⟨hwithin, .inl rfl⟩)
      · dsimp only
        rw [Act.demand]
        split_ifs with hroom
        · refine Relation.ReflTransGen.single (Deed.hold id data _ fun _ => ⟨?_, .inr rfl⟩)
          simpa using hroom
        · exact hfails _
    · exact hfails _
  · exact hfails _

theorem listens_absorbData (id : ℕ) (endStream : Bool) (data : Octets) : Listens reads (absorbData id endStream data) := by
  have hrestore : Listens reads (restoreStream id data.length) := by
    refine Act.Chains.get.bind fun c => ?_
    split_ifs
    · exact (listens_giveCredit id _).bind fun _ => listens_tend fun _ => ⟨.inl rfl, rfl, .inl rfl, .inl rfl⟩
    · exact .pure _
  refine (listens_holdData id data).bind fun _ => (listens_note rfl).bind fun _ => hrestore.bind fun _ => ?_
  split_ifs
  · exact listens_complete id true
  · exact .pure _

theorem listens_handleData (id : ℕ) (endStream : Bool) (data : Octets) : Listens reads (handleData id endStream data) := by
  have hdemand : Listens reads (demandReceivable id) := by
    refine .aside fun c => ?_
    simp only [demandReceivable, Act.run]
    split <;> rfl
  refine hdemand.bind fun _ => (listens_advanced _).bind fun _ => (listens_spendConnection _).bind fun _ =>
    Act.Chains.bind (listens_tend fun _ => ⟨.inl rfl, rfl, .inl rfl, .inl rfl⟩) fun _ => listens_openStream_bind fun c stream hstream => ?_
  split_ifs
  · refine Act.Chains.bind_ok (show (note .exceeded).run c = _ from rfl) (.single (.note rfl)) ?_
    refine Act.Chains.bind_from (done_reset _ ?_) fun _ => .pure _
    exact fun hnone => Option.some_ne_none _ (hstream.symm.trans hnone)
  · exact listens_absorbData id endStream data c

theorem listens_handle (world : World) {frame : Frame}
    (h : ∀ id endStream block, frame = .headers id endStream false block → reads = true) :
    Listens reads (handle world frame) := by
  cases frame with
  | data id endStream data => exact listens_handleData id endStream data
  | headers id endStream endHeaders block =>
    exact listens_handleHeaders world id endStream block fun hend => h id endStream block (by rw [hend])
  | priority => exact listens_idle.bind fun _ => .pure _
  | rstStream id code => exact listens_handleReset id
  | settings ack params =>
    cases ack with
    | false => exact listens_handleSettings params
    | true => exact listens_idle.bind fun _ => .pure _
  | pushPromise => exact .fail _
  | ping ack payload =>
    cases ack with
    | false => exact listens_idle.bind fun _ => (listens_queue rfl).bind fun _ => .pure _
    | true => exact listens_idle.bind fun _ => .pure _
  | goAway => exact listens_idle.bind fun _ => Act.Chains.bind (listens_modify fun _ => .aside ..) fun _ => .pure _
  | windowUpdate id increment =>
    refine (?_ : Listens reads (if id = 0 then _ else _))
    split_ifs
    · exact listens_creditConnection increment
    · exact listens_creditStream id increment
  | continuation => exact .fail _

theorem listens_act (world : World) (frame : Frame) : Listens true (act world frame) :=
  (listens_handle world fun _ _ _ _ => rfl).bind fun _ => Act.Chains.get.bind fun _ => (listens_note rfl).bind fun _ => .pure _

theorem listens_pump (world : World) : Listens true (pump world) :=
  listens_fatal <| listens_start.bind fun _ => listens_flushResets.bind fun _ => listens_readFrame.bind fun frame =>
    (listens_act world frame).bind fun _ => listens_flushIfDrained.bind fun _ => .pure _

theorem listens_relay (world : World) : Listens true (relay world) :=
  listens_fatal <| listens_flushOut.bind fun _ => listens_readFrame.bind fun frame => listens_act world frame

end H2Connection

end Soyokaze

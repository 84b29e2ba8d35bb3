import Soyokaze.Protocol.H1.Looks

/-!
# HTTP/1 however its octets arrive

What a stream of octets is read as (`messageOf`) is written down with the whole of
it at hand. A connection that gets the stream in pieces looks at beginnings of it,
and holds each to the limit of what it is waiting for: so it reads the same where
every part of the stream is clear of its limit (`Clear`), and otherwise the cut
decides. A part is not clear where it just meets its limit, or where what is wrong
with it is found behind more octets than the limit.

* `H1Connection.receiveMessage_settles`: one message, one phase after another;
* `H1Connection.results_of_cuts`: two cuts of a stream give a run the same results
  and leave it the same octets;
* `H1Connection.cuts_differ`: a line of as many octets as are allowed, cut before
  its LF, is refused.
-/

namespace Soyokaze

open Source

namespace H1Connection

/-- The connection over another source. -/
def fed (c : H1Connection) (s : Source Error UInt8) : H1Connection := { c with source := s }

@[simp] theorem fed_source (c : H1Connection) (s : Source Error UInt8) : (c.fed s).source = s := rfl

@[simp] theorem fed_limits (c : H1Connection) (s : Source Error UInt8) : (c.fed s).limits = c.limits := rfl

@[simp] theorem fed_role (c : H1Connection) (s : Source Error UInt8) : (c.fed s).role = c.role := rfl

@[simp] theorem fed_secure (c : H1Connection) (s : Source Error UInt8) : (c.fed s).secure = c.secure := rfl

/-- A step that reads nothing does the same over any source. -/
def Unread {α : Type} (m : Step α) : Prop := ∀ c s, m.run (fed c s) = ((m.run c).1, (m.run c).2.fed s)

theorem Unread.bind {α β : Type} {m : Step α} {f : α → Step β} (hm : Unread m) (hf : ∀ a, Unread (f a)) :
    Unread (m >>= f) := by
  intro c s
  rw [Act.run_bind, Act.run_bind, hm c s]
  rcases m.run c with ⟨e | a, c'⟩
  · rfl
  · exact hf a c' s

/-- What is taken from the connection is not taken from its source. -/
theorem Unread.get {β : Type} {f : H1Connection → Step β} (hf : ∀ c, Unread (f c)) (hover : ∀ c s, f (fed c s) = f c) :
    Unread (Act.get >>= f) := by
  intro c s
  rw [Act.run_bind, Act.run_get, Act.run_bind, Act.run_get]
  dsimp only
  rw [hover c s]
  exact hf c c s

theorem unread_writing (octets : Octets) : Unread (writing octets) := fun _ _ => rfl

theorem unread_sendMessage (world : World) (m : Message) : Unread (sendMessage world m) := by
  refine Unread.get (fun c => ?_) fun c s => ?_
  · refine Unread.bind (fun _ _ => rfl) fun _ => Unread.bind (fun _ _ => rfl) fun out => ?_
    refine Unread.bind (unread_writing _) fun _ => Unread.bind ?_ fun _ _ _ => rfl
    cases out.2 with
    | none => exact fun _ _ => rfl
    | some body => exact unread_writing body
  · rfl

theorem unread_reject (world : World) (status : ℕ) : Unread (reject world status) := fun c s => by
  have := congrArg Prod.snd (unread_sendMessage world (.response status c.version) { c with closing := true } s)
  rw [run_reject, run_reject]
  exact Prod.ext rfl this

theorem unread_refuse {α : Type} (world : World) (line : Octets) (error : Error) :
    Unread (refuse world line error : Step α) := fun c s => by
  rw [run_refuse, run_refuse, unread_reject, fed_role]
  split_ifs <;> rfl

theorem unread_openExchange (world : World) (m : Message) : Unread (openExchange world m) := by
  refine Unread.get (fun c => ?_) fun _ _ => rfl
  cases (if c.role.isServer then Exchange.of world.toCodecs m else none) with
  | none => exact fun _ _ => rfl
  | some exchange => exact Unread.bind (fun _ _ => rfl) fun _ _ _ => rfl

theorem unread_reserve (world : World) (m : Message) (size : ℕ) : Unread (reserve world m size) := by
  refine Unread.bind (fun _ _ => rfl) fun _ => Unread.get (fun c => ?_) fun _ _ => rfl
  exact Unread.bind (fun _ _ => rfl) fun _ => Unread.bind (unread_openExchange world m) fun _ _ _ => rfl

theorem unread_takeAnswered (m : Message) : Unread (takeAnswered m) := fun c s => by
  rw [run_takeAnswered, run_takeAnswered]
  split_ifs <;> rfl

theorem unread_answerExpectation (world : World) (m : Message) (length : BodyLength) :
    Unread (answerExpectation world m length) := by
  refine Unread.get (fun c => ?_) fun _ _ => rfl
  split_ifs
  · exact unread_sendMessage world _
  · exact fun _ _ => rfl

/-! ## What a stream is read as -/

/-- The length of the first line, past the one empty line a server ignores, and what is
    left of the stream then. -/
def startLength (c : H1Connection) (total : Octets) : Except Error ℕ × Octets :=
  match (Line.lookFront c.limits.maxStartlineSize total).getD (.error .closed) with
  | .error error => (.error error, total)
  | .ok length =>
    if length = 0 && c.role.isServer then
      ((Line.lookFront c.limits.maxStartlineSize (total.drop 2)).getD (.error .closed), total.drop 2)
    else (.ok length, total)

/-- The start line of a stream. -/
def startOf (world : World) (c : H1Connection) (total : Octets) : Except Error (Message × ℕ) × H1Connection × Octets :=
  match startLength c total with
  | (.error error, rest) => (.error error, c, rest)
  | (.ok length, rest) =>
    match StartLine.parseBytes (rest.take length) with
    | .ok m => (.ok (m, length), c, rest.drop (length + 2))
    | .error error =>
      let refused := (refuse world (rest.take length) error).run c
      (refused.1, refused.2, rest.drop (length + 2))

/-- The field section of a stream. -/
def blockOf (limits : H1Limits) (total : Octets) : Except Error (Headers × ℕ) × Octets :=
  match (heldFront limits.maxHeadersSize total).getD (.error .closed) with
  | .error error => (.error error, total)
  | .ok (fields, consumed) =>
    match Field.parseBlock (total.take fields) limits.maxHeaderCount with
    | .error error => (.error error, total)
    | .ok headers => (.ok (headers, consumed), total.drop consumed)

/-- The head of a message of a stream. -/
def headOf (world : World) (c : H1Connection) (total : Octets) : Except Error (Message × ℕ) × H1Connection × Octets :=
  match startOf world c total with
  | (.error error, c, rest) => (.error error, c, rest)
  | (.ok (m, length), c, rest) =>
    match blockOf c.limits rest with
    | (.error error, rest) => (.error error, c, rest)
    | (.ok (headers, block), rest) =>
      let m := { m with headers := some headers, secure := c.secure }
      let admitted := (reserve world m (length + 4 + block)).run c
      (admitted.1.map fun budget => (m, budget), admitted.2, rest)

/-- The chunks of a stream, behind those that gave `body`. -/
def chunksOf (limits : H1Limits) (limit : ℕ) : ℕ → Octets → Octets → Except Error Octets × Octets
  | 0, _, total => (.error .closed, total)
  | fuel + 1, body, total =>
    match (chunkLook limits limit body.length total).getD (.error .closed) with
    | .error error => (.error error, total)
    | .ok (consumed, start, end') =>
      if end' ≤ start then (.ok body, total.drop consumed)
      else chunksOf limits limit fuel (body ++ (total.take end').drop start) (total.drop consumed)

/-- The body of a message of a stream, framed as `length` says. -/
def bodyOf (limits : H1Limits) (length : BodyLength) (budget : ℕ) (total : Octets) : Except Error (Option Octets) × Octets :=
  let limit := bodyLimit limits budget
  match length with
  | .none => (.ok none, total)
  | .fixed size =>
    if limit < size then (.error (.limit "body of {size} octets exceeds {limit}" [.number size, .number limit]), total)
    else if USIZE ≤ size then
      (.error (.limit "body of {size} octets exceeds what this platform can address" [.number size]), total)
    else if size ≤ total.length then (.ok (some (total.take size)), total.drop size)
    else (.error .closed, total)
  | .chunked =>
    let chunks := chunksOf limits limit (total.length + 1) [] total
    (chunks.1.map some, chunks.2)
  | .close => (.ok (some total), [])

/-- The trailers of a message of a stream, framed as `length` says. -/
def trailersOf (limits : H1Limits) (length : BodyLength) (total : Octets) : Except Error (Option Headers) × Octets :=
  if length = .chunked then
    let block := blockOf limits total
    (block.1.map fun headers => some headers.1, block.2)
  else (.ok none, total)

/-- What follows the head of a message of a stream. -/
def contentOf (world : World) (limits : H1Limits) (m : Message) (length : BodyLength) (budget : ℕ) (total : Octets) :
    Except Error Message × Octets :=
  match bodyOf limits length budget total with
  | (.error error, rest) => (.error error, rest)
  | (.ok body, rest) =>
    let body := body.filter fun octets : Octets => !octets.isEmpty
    match trailersOf limits length rest with
    | (.error error, rest) => (.error error, rest)
    | (.ok trailers, rest) =>
      ({ m with body := body.map .data, trailers := trailers }.decompress world
        limits.maxDecompressedBodySize, rest)

/-- The first message of a stream: what it is read as, the connection then, and what is
    left of the stream. -/
def messageOf (world : World) (c : H1Connection) (total : Octets) : Except Error Message × H1Connection × Octets :=
  match headOf world c total with
  | (.error error, c, rest) => (.error error, c, rest)
  | (.ok (m, budget), c, rest) =>
    let answered := (takeAnswered m).run c
    match answered.1.bind (BodyLength.of m) with
    | .error error => (.error error, answered.2, rest)
    | .ok length =>
      let told := (answerExpectation world m length).run answered.2
      match told.1 with
      | .error error => (.error error, told.2, rest)
      | .ok () =>
        let content := contentOf world told.2.limits m length budget rest
        (content.1, told.2, content.2)

/-! ## Streams clear of their limits -/

/-- Every size line of the chunks of a stream is clear of its limit. -/
def ChunksClear (limits : H1Limits) (limit : ℕ) : ℕ → Octets → Octets → Prop
  | 0, _, _ => True
  | fuel + 1, body, total =>
    SizeLineClear limits.maxChunkHeaderSize total ∧
      ∀ consumed start end', chunkLook limits limit body.length total = some (.ok (consumed, start, end')) →
        ¬end' ≤ start → ChunksClear limits limit fuel (body ++ (total.take end').drop start) (total.drop consumed)

/-- The body of a message of a stream is clear of its limits: its size lines are, or all
    that is left is within them where it ends with the connection. -/
def BodyClear (limits : H1Limits) (length : BodyLength) (budget : ℕ) (total : Octets) : Prop :=
  match length with
  | .none | .fixed _ => True
  | .chunked => ChunksClear limits (bodyLimit limits budget) (total.length + 1) [] total
  | .close => total.length ≤ bodyLimit limits budget

/-- Every part of the first message of a stream that is read is clear of its limit. -/
structure Clear (world : World) (c : H1Connection) (total : Octets) : Prop where
  line : Line.Clear c.limits.maxStartlineSize total
  second : (Line.lookFront c.limits.maxStartlineSize total).getD (.error .closed) = .ok 0 → c.role.isServer = true →
    Line.Clear c.limits.maxStartlineSize (total.drop 2)
  block : ∀ start c' rest, startOf world c total = (.ok start, c', rest) → BlockClear c'.limits.maxHeadersSize rest
  body : ∀ m budget c₁ c₂ rest length, headOf world c total = (.ok (m, budget), c₁, rest) →
    ((takeAnswered m).run c₁).1.bind (BodyLength.of m) = .ok length →
    (answerExpectation world m length).run ((takeAnswered m).run c₁).2 = (.ok (), c₂) →
    BodyClear c₂.limits length budget rest ∧
      ∀ body rest', bodyOf c₂.limits length budget rest = (.ok body, rest') → length = .chunked →
        BlockClear c₂.limits.maxHeadersSize rest'

/-! ## Steps that are settled by the stream -/

/-- Over this source the step answers so, leaves the connection so, and leaves a source
    of the rest of the stream. -/
def Settles {α : Type} (m : Step α) (c : H1Connection) (s : Source Error UInt8) (result : Except Error α)
    (c' : H1Connection) (rest : Octets) : Prop :=
  ∃ s', m.run (c.fed s) = (result, c'.fed s') ∧ s'.Delivers rest

variable {α β : Type} {c c₁ c₂ : H1Connection} {s : Source Error UInt8} {total rest : Octets}

theorem Settles.bind {m : Step α} {f : α → Step β} {a : α} {result : Except Error β} {rest' : Octets}
    (hm : Settles m c s (.ok a) c₁ rest) (hf : ∀ s₁, s₁.Delivers rest → Settles (f a) c₁ s₁ result c₂ rest') :
    Settles (m >>= f) c s result c₂ rest' := by
  obtain ⟨s₁, hrun, hs₁⟩ := hm
  obtain ⟨s₂, hrun', hs₂⟩ := hf s₁ hs₁
  exact ⟨s₂, (Act.run_bind_ok hrun f).trans hrun', hs₂⟩

theorem Settles.bind_error {m : Step α} {f : α → Step β} {error : Error}
    (hm : Settles m c s (.error error) c₁ rest) : Settles (m >>= f) c s (.error error) c₁ rest := by
  obtain ⟨s₁, hrun, hs₁⟩ := hm
  exact ⟨s₁, Act.run_bind_error hrun f, hs₁⟩

theorem Settles.get {f : H1Connection → Step β} {result : Except Error β}
    (h : Settles (f (c.fed s)) c s result c₁ rest) : Settles (Act.get >>= f) c s result c₁ rest := h

theorem Unread.settles {m : Step α} (hm : Unread m) (hs : s.Delivers total) :
    Settles m c s (m.run c).1 (m.run c).2 total := ⟨s, hm c s, hs⟩

theorem settles_pure (a : α) (hs : s.Delivers total) : Settles (pure a) c s (.ok a) c total := ⟨s, rfl, hs⟩

/-- A line that is there has its LF in the buffer. -/
theorem length_of_lookFront {max length : ℕ} {data : Octets} (h : Line.lookFront max data = some (.ok length)) :
    length + 2 ≤ data.length := by
  cases hfind : Scan.find data 0x0a with
  | none =>
    rw [Line.lookFront_none hfind] at h
    split_ifs at h
    cases h
  | some e =>
    rw [Line.lookFront_some hfind] at h
    have hlen := Scan.lt_of_find hfind
    split_ifs at h with hcr hmax
    · cases h
    · cases h
    · cases h
      have : e ≠ 0 := fun hzero => hcr (Or.inl hzero)
      omega

/-- The line of a stream that is clear of its limit, however it is cut. -/
theorem lineEnd_settles {max : ℕ} (hs : s.Delivers total) (hclear : Line.Clear max total) :
    ∃ s', (reading (Line.end' max)).run (c.fed s) =
        ((Line.lookFront max total).getD (.error .closed), c.fed s') ∧
      s'.Delivers total ∧
      ∀ length, (Line.lookFront max total).getD (.error .closed) = .ok length → length + 2 ≤ s'.data.length := by
  obtain ⟨hanswer, hdelivers, hseen⟩ := await_of_steady ((Line.steady_iff max total).2 hclear) hs
  refine ⟨(s.await (Line.lookFront max) (.error .closed)).2, ?_, hdelivers, fun length hlength => ?_⟩
  · rw [← hanswer, ← Line.end'_eq]
    rfl
  · rw [hanswer, hlength] at hseen
    rcases hseen with hseen | ⟨hseen, -⟩
    · exact length_of_lookFront hseen
    · cases hseen

/-- What is at the front of the buffer is at the front of the stream. -/
theorem take_of_delivers {count : ℕ} (hs : s.Delivers total) (h : count ≤ s.data.length) :
    s.data.take count = total.take count := by
  obtain ⟨more, rfl⟩ := hs.prefix
  rw [List.take_append_of_le_length h]

theorem awaitStartLine_settles (hs : s.Delivers total) (hline : Line.Clear c.limits.maxStartlineSize total)
    (hsecond : (Line.lookFront c.limits.maxStartlineSize total).getD (.error .closed) = .ok 0 → c.role.isServer = true →
      Line.Clear c.limits.maxStartlineSize (total.drop 2)) :
    ∃ s', awaitStartLine.run (c.fed s) = ((startLength c total).1, c.fed s') ∧ s'.Delivers (startLength c total).2 ∧
      ∀ length, (startLength c total).1 = .ok length → length + 2 ≤ s'.data.length := by
  obtain ⟨s₁, hrun, hs₁, hlen⟩ := @lineEnd_settles c _ _ _ hs hline
  rw [run_awaitStartLine, fed_limits, fed_role, hrun, startLength]
  cases hlook : (Line.lookFront c.limits.maxStartlineSize total).getD (.error .closed) with
  | error error => exact ⟨s₁, rfl, hs₁, fun length h => by cases h⟩
  | ok length =>
    dsimp only
    by_cases hskip : (length = 0 && c.role.isServer) = true
    · -- One empty line before the request line is passed over.
      obtain ⟨hzero, hserver⟩ := Bool.and_eq_true_iff.1 hskip
      have hempty : (Line.lookFront c.limits.maxStartlineSize total).getD (.error .closed) = .ok 0 := by
        rw [hlook, of_decide_eq_true hzero]
      rw [if_pos hskip, if_pos hskip]
      exact @lineEnd_settles c _ _ _ (hs₁.consume (hlen 0 hempty)) (hsecond hempty hserver)
    · rw [if_neg hskip, if_neg hskip]
      refine ⟨s₁, rfl, hs₁, ?_⟩
      rintro _ ⟨⟩
      exact hlen length hlook

theorem readStartLine_settles (world : World) (hs : s.Delivers total) (hclear : Clear world c total) :
    Settles (readStartLine world) c s (startOf world c total).1 (startOf world c total).2.1
      (startOf world c total).2.2 := by
  obtain ⟨s₁, hrun, hs₁, hlen⟩ := awaitStartLine_settles hs hclear.line hclear.second
  rw [startOf]
  rcases hstart : startLength c total with ⟨error | length, rest⟩
  · rw [hstart] at hrun hs₁
    exact Settles.bind_error ⟨s₁, hrun, hs₁⟩
  · rw [hstart] at hrun hs₁ hlen
    have hbuffer := hlen length rfl
    dsimp only at hs₁
    have hline : s₁.data.take length = rest.take length := take_of_delivers hs₁ (by omega)
    have hrest := hs₁.consume hbuffer
    rw [Settles, readStartLine, Act.run_bind_ok hrun, Act.run_bind, Act.run_get]
    dsimp only
    rw [fed_source, hline]
    cases StartLine.parseBytes (rest.take length) with
    | ok m => exact ⟨_, rfl, hrest⟩
    | error error => exact ⟨_, unread_refuse world (rest.take length) error c (s₁.consume (length + 2)), hrest⟩

theorem readHeaderBlock_settles (hs : s.Delivers total) (hclear : BlockClear c.limits.maxHeadersSize total) :
    Settles readHeaderBlock c s (blockOf c.limits total).1 c (blockOf c.limits total).2 := by
  obtain ⟨hanswer, hdelivers, -⟩ := await_of_steady ((block_steady_iff _ _).2 hclear) hs
  have hbind : s.await (heldFront c.limits.maxHeadersSize) (.error .closed) =
      ((s.await (blockFront c.limits.maxHeadersSize) (.error .closed)).1.bind (holdFields c.limits.maxHeadersSize),
        (s.await (blockFront c.limits.maxHeadersSize) (.error .closed)).2) :=
    @await_bind _ _ _ _ (blockFront c.limits.maxHeadersSize) (.error .closed) (holdFields c.limits.maxHeadersSize) s
  rw [hbind] at hanswer hdelivers
  rw [Settles, run_readHeaderBlock, fed_limits, fed_source, awaitWith_blockLook, blockOf, ← hanswer]
  rcases hawait : s.await (blockFront c.limits.maxHeadersSize) (.error .closed) with ⟨error | ⟨fields, consumed⟩, s₁⟩
  · rw [hawait] at hdelivers
    exact ⟨s₁, rfl, hdelivers⟩
  · replace hdelivers : s₁.Delivers total := by rwa [hawait] at hdelivers
    dsimp only [Except.bind]
    rw [holdFields, blockAt]
    by_cases hlimit : c.limits.maxHeadersSize < fields
    · rw [if_pos hlimit, if_pos hlimit]
      exact ⟨s₁, rfl, hdelivers⟩
    · rw [if_neg hlimit, if_neg hlimit]
      have hlook := await_accepted (congrArg Prod.fst hawait)
      rw [hawait, blockFront] at hlook
      dsimp only at hlook
      rcases hend : Field.endFront s₁.data with _ | found
      · rw [hend] at hlook
        dsimp only at hlook
        split_ifs at hlook
        cases hlook
      · rw [hend] at hlook
        cases hlook
        obtain ⟨rfl, hlen⟩ := Field.endFront_some hend
        rw [take_of_delivers hdelivers (by omega)]
        dsimp only
        rcases Field.parseBlock (total.take fields) c.limits.maxHeaderCount with error | headers
        · exact ⟨s₁, rfl, hdelivers⟩
        · exact ⟨_, rfl, hdelivers.consume hlen⟩

theorem readHead_settles (world : World) (hs : s.Delivers total) (hclear : Clear world c total) :
    Settles (readHead world) c s (headOf world c total).1 (headOf world c total).2.1 (headOf world c total).2.2 := by
  have hstart := readStartLine_settles world hs hclear
  rw [headOf]
  rcases hresult : startOf world c total with ⟨error | ⟨m, length⟩, c₁, rest⟩
  · rw [hresult] at hstart
    exact hstart.bind_error
  · rw [hresult] at hstart
    refine hstart.bind fun s₁ hs₁ => ?_
    have hblock := readHeaderBlock_settles hs₁ (hclear.block _ _ _ hresult)
    dsimp only at hblock ⊢
    rcases hresult' : blockOf c₁.limits rest with ⟨error | ⟨headers, block⟩, rest'⟩
    · rw [hresult'] at hblock
      exact hblock.bind_error
    · rw [hresult'] at hblock
      refine hblock.bind fun s₂ hs₂ => Settles.get ?_
      dsimp only
      rw [fed_secure]
      have hadmit := @Unread.settles _ c₁ _ _ _
        (unread_reserve world { m with headers := some headers, secure := c₁.secure } (length + 4 + block)) hs₂
      rcases hrun : (reserve world { m with headers := some headers, secure := c₁.secure } (length + 4 + block)).run c₁ with
        ⟨error | budget, c₂⟩
      · rw [hrun] at hadmit
        exact hadmit.bind_error
      · rw [hrun] at hadmit
        exact hadmit.bind fun s₃ hs₃ => settles_pure _ hs₃

theorem readChunks_settles {limits : H1Limits} {limit fuel : ℕ} {body : Octets} (hs : s.Delivers total)
    (hclear : ChunksClear limits limit fuel body total) :
    ∃ s', readChunks limits limit fuel body s = ((chunksOf limits limit fuel body total).1, s') ∧
      s'.Delivers (chunksOf limits limit fuel body total).2 := by
  induction fuel generalizing body s total with
  | zero => exact ⟨s, rfl, hs⟩
  | succ fuel ih =>
    obtain ⟨hline, hnext⟩ := hclear
    obtain ⟨hanswer, hdelivers, -⟩ := await_of_steady ((chunk_steady_iff limits limit body.length total).2 hline) hs
    rw [readChunks, chunksOf, ← hanswer]
    rcases hawait : s.await (chunkLook limits limit body.length) (.error .closed) with ⟨error | ⟨consumed, start, end'⟩, s₁⟩
    · rw [hawait] at hdelivers
      exact ⟨s₁, rfl, hdelivers⟩
    · have hlook := await_accepted (congrArg Prod.fst hawait)
      rw [hawait] at hdelivers hanswer hlook
      obtain ⟨-, hlen, hend⟩ := chunkLook_there hlook
      dsimp only at hdelivers hlen ⊢
      by_cases hempty : end' ≤ start
      · rw [if_pos hempty, if_pos hempty]
        exact ⟨_, rfl, hdelivers.consume hlen⟩
      · rw [if_neg hempty, if_neg hempty, take_of_delivers hdelivers (hend.trans hlen)]
        refine ih (hdelivers.consume hlen) (hnext consumed start end' ?_ hempty)
        -- The end of the stream is no chunk, so the whole holds this one.
        rcases htotal : chunkLook limits limit body.length total with _ | answer
        · rw [htotal] at hanswer
          cases hanswer
        · rw [htotal] at hanswer
          exact congrArg some hanswer.symm

/-- The end of a stream that is within the limit is read to. -/
theorem readToEnd_settles {limit : ℕ} (hs : s.Delivers total) (hlen : total.length ≤ limit) :
    ∃ s', readToEnd limit s = (.ok (), s') ∧ s'.data = total ∧ s'.Delivers total := by
  rw [readToEnd]
  rcases hs.fill with ⟨s₁, hfill, hs₁⟩ | ⟨s₁, hfill, hdata, hs₁⟩
  · rw [hfill]
    dsimp only
    have hnone : ∀ front, front <+: total → (if limit < front.length then
        some (.error (.limit "body exceeds {limit} octets" [.number limit])) else (none : Option (Except Error Unit))) = none :=
      fun front hfront => if_neg (Nat.not_lt.2 (hfront.length_le.trans hlen))
    obtain ⟨hanswer, hdelivers, hseen⟩ := @await_of_steady _ _ _ (fun data : Octets => if limit < data.length then
      some (.error (.limit "body exceeds {limit} octets" [.number limit])) else none) (.ok ()) total
      (fun front hfront answer hlook => absurd ((hnone front hfront).symm.trans hlook) (by simp)) s₁ hs₁
    refine ⟨_, Prod.ext ?_ rfl, ?_, hdelivers⟩
    · rw [hanswer, hnone total List.prefix_rfl]
      rfl
    · rcases hseen with hseen | ⟨-, hdata⟩
      · exact absurd ((hnone _ hdelivers.prefix).symm.trans hseen) (by simp)
      · exact hdata
  · rw [hfill]
    exact ⟨s₁, rfl, hdata, hs₁⟩

theorem readBody_settles {length : BodyLength} {budget : ℕ} (hs : s.Delivers total)
    (hclear : BodyClear c.limits length budget total) :
    Settles (readBody length budget) c s (bodyOf c.limits length budget total).1 c
      (bodyOf c.limits length budget total).2 := by
  rw [Settles]
  cases length with
  | none => exact ⟨s, rfl, hs⟩
  | fixed size =>
    rw [run_readBody_fixed, fed_limits, fed_source]
    dsimp only [bodyOf]
    by_cases hlimit : size ≤ bodyLimit c.limits budget
    · by_cases haddr : size < USIZE
      · rw [if_pos hlimit, if_pos haddr, if_neg (Nat.not_lt.2 hlimit), if_neg (Nat.not_le.2 haddr)]
        have hsteady : Steady (fun data : Octets => if size ≤ data.length then some (Except.ok ()) else none)
            (.error Error.closed) total := by
          intro front hfront answer hlook
          dsimp only at hlook ⊢
          split_ifs at hlook with hle
          rw [if_pos (hle.trans hfront.length_le), ← Option.some_inj.1 hlook]
          rfl
        obtain ⟨hanswer, hdelivers, -⟩ := await_of_steady hsteady hs
        by_cases hle : size ≤ total.length
        · rw [if_pos hle] at hanswer ⊢
          rcases hawait : s.await (fun data : Octets => if size ≤ data.length then some (Except.ok ()) else none)
            (.error Error.closed) with ⟨_ | _, s₁⟩ <;> rw [hawait] at hanswer hdelivers <;> cases hanswer
          have hlook := await_accepted (congrArg Prod.fst hawait)
          rw [hawait] at hlook
          dsimp only at hlook hdelivers
          split_ifs at hlook with hthere
          refine ⟨s₁.consume size, ?_, hdelivers.consume hthere⟩
          rw [← take_of_delivers hdelivers hthere]
          rfl
        · rw [if_neg hle] at hanswer ⊢
          rcases hawait : s.await (fun data : Octets => if size ≤ data.length then some (Except.ok ()) else none)
            (.error Error.closed) with ⟨_ | _, s₁⟩ <;> rw [hawait] at hanswer hdelivers <;> cases hanswer
          exact ⟨s₁, rfl, hdelivers⟩
      · rw [if_pos hlimit, if_neg haddr, if_neg (Nat.not_lt.2 hlimit), if_pos (Nat.not_lt.1 haddr)]
        exact ⟨s, rfl, hs⟩
    · rw [if_neg hlimit, if_pos (Nat.not_le.1 hlimit)]
      exact ⟨s, rfl, hs⟩
  | chunked =>
    rw [run_readBody_chunked, fed_limits, fed_source, hs.left_eq]
    obtain ⟨s', hchunks, hs'⟩ := readChunks_settles hs hclear
    rw [hchunks]
    dsimp only [bodyOf]
    rcases (chunksOf c.limits (bodyLimit c.limits budget) (total.length + 1) [] total).1 with error | body
    · exact ⟨s', rfl, hs'⟩
    · exact ⟨s', rfl, hs'⟩
  | close =>
    rw [run_readBody_close, fed_limits, fed_source]
    obtain ⟨s', hread, hdata, hs'⟩ := readToEnd_settles hs hclear
    rw [hread]
    dsimp only [bodyOf]
    refine ⟨s'.consume s'.data.length, ?_, ?_⟩
    · rw [hdata]
      rfl
    · have := hs'.consume (Nat.le_refl s'.data.length)
      rwa [hdata, List.drop_length, ← hdata] at this

theorem receiveBody_settles {length : BodyLength} {budget : ℕ} (hs : s.Delivers total)
    (hclear : BodyClear c.limits length budget total) :
    Settles (receiveBody length budget) c s
      ((bodyOf c.limits length budget total).1.map (·.filter fun octets : Octets => !octets.isEmpty)) c
      (bodyOf c.limits length budget total).2 := by
  have hbody := readBody_settles hs hclear
  rcases hresult : bodyOf c.limits length budget total with ⟨error | body, rest⟩
  · rw [hresult] at hbody
    exact hbody.bind_error
  · rw [hresult] at hbody
    exact hbody.bind fun s₁ hs₁ => settles_pure _ hs₁

theorem readTrailers_settles {length : BodyLength} (hs : s.Delivers total)
    (hclear : length = .chunked → BlockClear c.limits.maxHeadersSize total) :
    Settles (readTrailers length) c s (trailersOf c.limits length total).1 c (trailersOf c.limits length total).2 := by
  rw [readTrailers, trailersOf]
  split_ifs with hchunked
  · have hblock := readHeaderBlock_settles hs (hclear hchunked)
    dsimp only
    rcases hresult : blockOf c.limits total with ⟨error | headers, rest⟩
    · rw [hresult] at hblock
      exact hblock.bind_error
    · rw [hresult] at hblock
      exact hblock.bind fun s₁ hs₁ => settles_pure _ hs₁
  · exact settles_pure none hs

theorem readFramed_settles {length : BodyLength} {budget : ℕ} (hs : s.Delivers total)
    (hclear : BodyClear c.limits length budget total) :
    Settles (readFramed length budget) c s
      ((bodyOf c.limits length budget total).1.map (·.filter fun octets : Octets => !octets.isEmpty)) c
      (bodyOf c.limits length budget total).2 := by
  rw [readFramed]
  split_ifs with hnone
  · subst hnone
    exact settles_pure none hs
  · exact receiveBody_settles hs hclear

/-- What follows the head of a message, once the client was told to go ahead where it
    waits for that. -/
theorem content_settles (world : World) (m : Message) {length : BodyLength} {budget : ℕ} (hs : s.Delivers total)
    (hbody : BodyClear c.limits length budget total)
    (htrailers : ∀ body rest, bodyOf c.limits length budget total = (.ok body, rest) → length = .chunked →
      BlockClear c.limits.maxHeadersSize rest)
    (htold : (answerExpectation world m length).run c₁ = (.ok (), c)) :
    Settles (readContent world m length budget) c₁ s (contentOf world c.limits m length budget total).1 c
      (contentOf world c.limits m length budget total).2 := by
  have htold' : Settles (answerExpectation world m length) c₁ s (.ok ()) c total := by
    have := @Unread.settles _ c₁ _ _ _ (unread_answerExpectation world m length) hs
    rwa [htold] at this
  refine htold'.bind fun s₁ hs₁ => ?_
  have hread := readFramed_settles hs₁ hbody
  rw [contentOf]
  rcases hresult : bodyOf c.limits length budget total with ⟨error | body, rest⟩
  · rw [hresult] at hread
    exact hread.bind_error
  · rw [hresult] at hread
    refine hread.bind fun s₂ hs₂ => ?_
    have hblock := readTrailers_settles hs₂ (htrailers body rest hresult)
    dsimp only at hblock ⊢
    rcases hresult' : trailersOf c.limits length rest with ⟨error | trailers, rest'⟩
    · rw [hresult'] at hblock
      exact hblock.bind_error
    · rw [hresult'] at hblock
      exact hblock.bind fun s₃ hs₃ => Settles.get ⟨s₃, rfl, hs₃⟩

/-- A message of a stream that is clear of its limits is received as what the stream is
    read as, however the stream is cut. -/
theorem receiveMessage_settles (world : World) (hs : s.Delivers total) (hclear : Clear world c total) :
    Settles (receiveMessage world) c s (messageOf world c total).1 (messageOf world c total).2.1
      (messageOf world c total).2.2 := by
  have hhead := readHead_settles world hs hclear
  rw [messageOf]
  rcases hresult : headOf world c total with ⟨error | ⟨m, budget⟩, c₁, rest⟩
  · rw [hresult] at hhead
    exact hhead.bind_error
  · rw [hresult] at hhead
    refine hhead.bind fun s₁ hs₁ => ?_
    have htake := @Unread.settles _ c₁ _ _ _ (unread_takeAnswered m) hs₁
    have hcontent := hclear.body m budget c₁
    dsimp only at htake hs₁ ⊢
    rcases hanswered : (takeAnswered m).run c₁ with ⟨error | method, c₂⟩
    · rw [run_takeAnswered] at hanswered
      split_ifs at hanswered <;> cases hanswered
    · rw [hanswered] at htake hcontent
      refine htake.bind fun s₂ hs₂ => ?_
      dsimp only [Except.bind] at hcontent hs₂ ⊢
      rcases hlength : BodyLength.of m method with error | length
      · exact Settles.bind_error ⟨s₂, rfl, hs₂⟩
      · refine Settles.bind ⟨s₂, rfl, hs₂⟩ fun s₃ hs₃ => ?_
        dsimp only
        rcases htold : (answerExpectation world m length).run c₂ with ⟨error | _, c₃⟩
        · have := @Unread.settles _ c₂ _ _ _ (unread_answerExpectation world m length) hs₃
          rw [htold] at this
          exact this.bind_error
        · obtain ⟨hbody, htrailers⟩ := hcontent c₃ rest length hresult hlength htold
          exact content_settles world m hs₃ hbody htrailers htold

/-! ## Runs -/

/-- The results of a run, and the connection behind it. The world may be another at
    every step. -/
def results : List (World × Event) → H1Connection → List (Except Error (Option Message)) × H1Connection
  | [], c => ([], c)
  | (world, event) :: events, c =>
    let step := (perform world event).run c
    let rest := results events step.2
    (step.1 :: rest.1, rest.2)

/-- Every message of a stream that a run receives is clear of its limits. -/
def RunClear : List (World × Event) → H1Connection → Octets → Prop
  | [], _, _ => True
  | (world, .receive) :: events, c, total =>
    Clear world c total ∧ RunClear events (messageOf world c total).2.1 (messageOf world c total).2.2
  | (world, .send m) :: events, c, total => RunClear events ((sendMessage world m).run c).2 total

theorem Settles.map {m : Step α} {f : α → β} {result : Except Error α} (hm : Settles m c s result c₁ rest) :
    Settles (f <$> m) c s (result.map f) c₁ rest := by
  rcases result with error | a
  · exact hm.bind_error
  · exact hm.bind fun s₁ hs₁ => settles_pure _ hs₁

/-- What a run does with a stream that is clear of its limits, whatever the cut. -/
theorem results_settled {events : List (World × Event)} (hclear : RunClear events c total) :
    ∃ (out : List (Except Error (Option Message))) (c' : H1Connection) (rest : Octets),
      ∀ s : Source Error UInt8, s.Delivers total →
        ∃ s' : Source Error UInt8, results events (c.fed s) = (out, c'.fed s') ∧ s'.Delivers rest := by
  induction events generalizing c total with
  | nil => exact ⟨[], c, total, fun s hs => ⟨s, rfl, hs⟩⟩
  | cons head events ih =>
    obtain ⟨world, event⟩ := head
    -- One step settles the connection and the rest of the stream, on which the rest of the run depends alone.
    obtain ⟨result, c₁, rest, hstep, hrest⟩ : ∃ result c₁ rest, (∀ s : Source Error UInt8, s.Delivers total →
        Settles (perform world event) c s result c₁ rest) ∧ RunClear events c₁ rest := by
      cases event with
      | receive => exact ⟨_, _, _, fun s hs => (receiveMessage_settles world hs hclear.1).map, hclear.2⟩
      | send m => exact ⟨_, _, _, fun s hs => ((unread_sendMessage world m).settles hs).map, hclear⟩
    obtain ⟨out, c', rest', hout⟩ := ih hrest
    refine ⟨result :: out, c', rest', fun s hs => ?_⟩
    obtain ⟨s₁, hrun, hs₁⟩ := hstep s hs
    obtain ⟨s₂, hrun', hs₂⟩ := hout s₁ hs₁
    refine ⟨s₂, ?_, hs₂⟩
    rw [results, hrun]
    dsimp only
    rw [hrun']

/-- Two cuts of one stream that is clear of its limits give a run the same results, leave
    the connection the same, and leave the same octets to be read. -/
theorem results_of_cuts {events : List (World × Event)} {s s' : Source Error UInt8} (hclear : RunClear events c total)
    (hs : s.Delivers total) (hs' : s'.Delivers total) :
    (results events (c.fed s)).1 = (results events (c.fed s')).1 ∧
      ∃ rest, (results events (c.fed s)).2.source.Delivers rest ∧ (results events (c.fed s')).2.source.Delivers rest ∧
        (results events (c.fed s')).2 = (results events (c.fed s)).2.fed (results events (c.fed s')).2.source := by
  obtain ⟨out, c', rest, hout⟩ := results_settled hclear
  obtain ⟨s₁, hrun, hs₁⟩ := hout s hs
  obtain ⟨s₂, hrun', hs₂⟩ := hout s' hs'
  rw [hrun, hrun']
  exact ⟨rfl, rest, hs₁, hs₂, rfl⟩

/-- A request in one piece, and cut before the LF of its first line. -/
def request : Octets := lit "GET / HTTP/1.1\r\n\r\n"

def requestWhole : Source Error UInt8 := ⟨[], false, [.ok request]⟩

def requestCut : Source Error UInt8 := ⟨[], false, [.ok (request.take 15), .ok (request.drop 15)]⟩

theorem requestWhole_delivers : requestWhole.Delivers request :=
  ⟨[request], rfl, by decide, by decide, fun h => by cases h⟩

theorem requestCut_delivers : requestCut.Delivers request :=
  ⟨[request.take 15, request.drop 15], rfl, by decide, by decide, fun h => by cases h⟩

/-- Servers that read the request, one with room to spare and one with none. -/
def roomy : H1Connection := new [] .origin H1Limits.default

def narrow : H1Connection := new [] .origin { H1Limits.default with maxStartlineSize := 14 }

theorem request_clear : Clear .bare roomy request where
  line e h := by
    have hfind : Scan.find request 0x0a = some 15 := by decide
    rw [hfind] at h
    cases h
    exact Or.inl (by decide)
  second h := by
    have hline : (Line.lookFront roomy.limits.maxStartlineSize request).getD (.error .closed) = .ok 14 := by decide
    rw [hline] at h
    cases h
  block start c' rest h := by
    have hrest : (startOf .bare roomy request).2.2 = lit "\r\n" := by decide
    have hlimits : (startOf .bare roomy request).2.1.limits = H1Limits.default := by decide
    rw [h] at hrest hlimits
    dsimp only at hrest hlimits
    rw [hrest, hlimits]
    intro fields consumed hend
    have hfront : Field.endFront (lit "\r\n") = some (0, 2) := by decide
    rw [hfront] at hend
    cases hend
    decide
  body m budget c₁ c₂ rest length hhead hlength _ := by
    have hm : (headOf .bare roomy request).1.map (·.1) = .ok (.request .GET (.lit "/") .v1_1) := by decide
    rw [hhead] at hm
    cases hm
    have hnone : BodyLength.of (.request .GET (.lit "/") .v1_1) none = .ok .none := by decide
    have := hnone.symm.trans hlength
    cases this
    exact ⟨trivial, fun _ _ _ h => by cases h⟩

theorem results_of_request :
    (results [(.bare, .receive)] (roomy.fed requestWhole)).1 = (results [(.bare, .receive)] (roomy.fed requestCut)).1 ∧
      ∃ rest, (results [(.bare, .receive)] (roomy.fed requestWhole)).2.source.Delivers rest ∧
        (results [(.bare, .receive)] (roomy.fed requestCut)).2.source.Delivers rest ∧
        (results [(.bare, .receive)] (roomy.fed requestCut)).2 =
          (results [(.bare, .receive)] (roomy.fed requestWhole)).2.fed
            (results [(.bare, .receive)] (roomy.fed requestCut)).2.source :=
  results_of_cuts ⟨request_clear, trivial⟩ requestWhole_delivers requestCut_delivers

/-- A first line of as many octets as are allowed is received in one piece, and refused
    when its LF comes by itself. -/
theorem cuts_differ :
    ¬∀ (events : List (World × Event)) (c : H1Connection) (total : Octets) (s s' : Source Error UInt8),
      s.Delivers total → s'.Delivers total → (results events (c.fed s)).1 = (results events (c.fed s')).1 := by
  intro h
  have hsame := h [(.bare, .receive)] narrow request _ _ requestWhole_delivers requestCut_delivers
  have hwhole : (results [(.bare, .receive)] (narrow.fed requestWhole)).1.map (·.isOk) = [true] := by decide +kernel
  have hcut : (results [(.bare, .receive)] (narrow.fed requestCut)).1.map (·.isOk) = [false] := by decide +kernel
  rw [hsame, hcut] at hwhole
  cases hwhole

end H1Connection

end Soyokaze

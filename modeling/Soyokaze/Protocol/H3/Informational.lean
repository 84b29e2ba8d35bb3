import Soyokaze.Protocol.FieldLists
import Soyokaze.Protocol.H3.Feeding

/-!
# Informational responses over HTTP/3

A server may answer a request with informational responses before the final one. The
session takes the first of them for the response: it ends the stream with it where it
sends, and takes the next field section for trailers where it receives.

* `informational_kept`: what is sent leaves the stream to the final response, and what
  arrives is delivered, exactly where no informational response precedes the final one.
-/

namespace Soyokaze

open H3

/-- An informational response opens no tunnel. -/
theorem Message.tunneling_informational {m : Message} (h : m.isInformational = true) (hkind : m.isRequest = false)
    (method : Option Method) : m.tunneling method = false := by
  rw [isInformational] at h
  rw [tunneling, hkind, Bool.false_or]
  rcases hstatus : m.statusCode with _ | status
  · rw [hstatus] at h
    cases h
  · rw [hstatus] at h
    simp only [Bool.and_eq_true, decide_eq_true_eq] at h
    have hlow : ¬200 ≤ status := by omega
    simp [hlow]

namespace H3Session

/-! ## What arrives -/

/-- A field block, and the fields it decodes to. -/
structure Block where
  octets : Octets
  fields : List HeaderField

/-- A response as it arrives: the block of its field section, and the message that makes. -/
structure Response extends Block where
  message : Message
  made : Fields.intoMessage fields .v3_0 = .ok message
  isResponse : message.isResponse = true

/-- Trailers as they arrive. -/
structure Trailers extends Block where
  headers : Headers
  made : Fields.intoTrailers fields = .ok headers

theorem Response.isRequest (r : Response) : r.message.isRequest = false := by
  have hkind := Fields.intoMessage_kind r.made
  rw [r.isResponse] at hkind
  simpa using hkind.symm

/-- The message as the session holds it, which came on a stream. -/
def Response.arrived (r : Response) (id : ℕ) (secure : Bool) : Message :=
  { r.message with streamId := some id, secure := secure }

/-- Responses to one request: informational ones, and the final one with its body, frame by
    frame, and its trailers. -/
structure Exchange where
  informational : List Response
  interim : ∀ r ∈ informational, r.message.isInformational = true
  final : Response
  last : final.message.isInformational = false
  data : List Octets
  trailers : Option Trailers

namespace Exchange

/-- The blocks of its field sections, in order. -/
def blocks (e : Exchange) : List Block :=
  e.informational.map (·.toBlock) ++ e.final.toBlock :: (e.trailers.map (·.toBlock)).toList

/-- The frames it is sent as. -/
def frames (e : Exchange) : List Frame :=
  e.informational.map (.headers ·.octets) ++
    .headers e.final.octets :: (e.data.map .data ++ (e.trailers.map (.headers ·.octets)).toList)

/-- The final response, with its body and its trailers. What follows a response that opens a
    tunnel is the tunnel's. -/
def response (e : Exchange) (id : ℕ) (secure : Bool) (method : Option Method) : Message :=
  let m := e.final.arrived id secure
  if m.tunneling method then m
  else
    let m := match e.trailers with
      | some trailers => { m with trailers := some trailers.headers }
      | none => m
    if e.data.flatten.isEmpty then m else { m with body := some (.data e.data.flatten) }

/-- The messages it is of. -/
def messages (e : Exchange) (id : ℕ) (secure : Bool) (method : Option Method) : List Message :=
  e.informational.map (·.arrived id secure) ++ [e.response id secure method]

end Exchange

/-- The blocks decode one after another, none having to wait for table entries. -/
inductive Decodes (id : ℕ) : Qpack.Decoder → List Block → Prop
  | nil (decoder : Qpack.Decoder) : Decodes id decoder []
  | cons {decoder decoder' : Qpack.Decoder} {block : Block} {blocks : List Block}
      {acknowledgment : Option Qpack.DecoderInstruction}
      (first : decoder.decode id block.octets = (decoder', .ok (block.fields, acknowledgment)))
      (rest : Decodes id (decoder'.queue acknowledgment.toList) blocks) : Decodes id decoder (block :: blocks)

/-- The exchange is within the session's limits, its blocks decode, and the stream it comes on
    is one this end has opened and nothing has arrived on. -/
structure Acceptable (s : H3Session) (id : ℕ) (state : StreamState) (e : Exchange) : Prop where
  stream : s.streams.lookup id = some state
  fresh : state.buffer = [] ∧ state.body = [] ∧ state.message = none ∧ state.pending = none ∧ state.eof = false ∧
    state.delivered = false ∧ state.raw = false
  decodes : Decodes id s.decoder e.blocks
  sections : ∀ block ∈ e.blocks, block.octets.length ≤ s.limits.maxHeadersSize ∧
    block.fields.length ≤ s.limits.maxHeaderCount
  body : e.data.flatten.length ≤ s.limits.maxMessageBodySize
  plain : ∀ frame ∈ e.frames, frame.Plain
  size : (Frame.encodeAll e.frames).length ≤ s.limits.maxMessageSize
  room : s.bufferedBound + (Frame.encodeAll e.frames).length ≤ s.limits.maxConnectionBufferSize

/-! ## Taking up a frame -/

variable {world : World} {x : Setting} {stage stage' : Stage} {buffer : Octets} {eof : Bool} {room : ℕ}
  {s s' : H3Session} {block : Block} {decoder : Qpack.Decoder} {acknowledgment : Option Qpack.DecoderInstruction}

theorem run_decodeBlock {id : ℕ}
    (h : s.decoder.decode id block.octets = (decoder, .ok (block.fields, acknowledgment))) :
    (decodeBlock id block.octets).run s =
      (.ok (.ok block.fields), { s with decoder := decoder.queue acknowledgment.toList }) := by
  simp only [Act.run, decodeBlock, h]

/-- A field section within the limits is decoded, and its fields taken up. -/
theorem absorbFrame_headers (world : World) (block : Block) (hsize : block.octets.length ≤ x.limits.maxHeadersSize)
    (hdecode : stage.decoder.decode x.id block.octets = (decoder, .ok (block.fields, acknowledgment)))
    (h : Stands x stage buffer eof room s) :
    ∃ s', Stands x { stage with decoder := decoder.queue acknowledgment.toList } buffer eof room s' ∧
      (absorbFrame world x.id (.headers block.octets)).run s =
        (do absorbHeaders world x.id block.fields; return .again : Step Progress).run s' := by
  refine ⟨{ s with decoder := decoder.queue acknowledgment.toList }, { h with decoder := rfl }, ?_⟩
  rw [← h.decoder] at hdecode
  rw [← h.limits] at hsize
  rw [absorbFrame, Act.run_bind_ok (Act.run_get s), Act.run_bind_demand (decide_eq_true hsize), absorbBlock,
    Act.run_bind_ok (run_decodeBlock hdecode)]

/-- What becomes of the message a first section made, which a stream that is no tunnel holds. -/
def holdMessage (id : ℕ) (m : Message) (tunneling : Bool) : Step Unit :=
  if tunneling then do
    modifyStream id fun state => { state with delivered := true, raw := true }
    Act.modify fun s => { s with ready := s.ready ++ [m] }
  else modifyStream id fun state => { state with message := some m }

/-- The first section becomes the message. -/
theorem absorbHeaders_first (world : World) (r : Response) (h : Stands x stage buffer eof room s)
    (hnone : stage.message = none) (hcount : r.fields.length ≤ x.limits.maxHeaderCount) :
    ∃ s', Stands x stage buffer eof room s' ∧ (absorbHeaders world x.id r.fields).run s =
      (holdMessage x.id (r.arrived x.id x.secure)
        ((r.arrived x.id x.secure).tunneling x.held.method)).run s' := by
  rw [← h.limits] at hcount
  have hheld := h.changed (f := fun state => if (r.arrived x.id x.secure).isRequest = true then
    { state with
      method := (r.arrived x.id x.secure).method, accepted := (r.arrived x.id x.secure).accepted world.toCodecs }
    else state) (if_neg (Bool.eq_false_iff.1 r.isRequest)) rfl
  refine ⟨_, hheld, ?_⟩
  rw [absorbHeaders, Act.run_bind_ok (Act.run_get s), Act.run_bind_demand (decide_eq_true hcount),
    Act.run_bind_ok (run_stream h.stream), show (x.state stage buffer eof).message = none from hnone, r.made, h.secure]
  exact Act.run_bind_ok (run_stream hheld.stream) _

/-- A second becomes its trailers, if they are in order. -/
theorem absorbHeaders_second (world : World) (fields : List HeaderField) (h : Stands x stage buffer eof room s)
    (hsome : stage.message.isSome = true) (hcount : fields.length ≤ x.limits.maxHeaderCount) :
    (absorbHeaders world x.id fields).run s = (do
      let trailers ← Act.ofExcept ((Fields.intoTrailers fields).mapError (·.onStream x.id Code.MESSAGE_ERROR))
      modifyStream x.id fun state =>
        { state with message := state.message.map fun m => { m with trailers := some trailers } }
      : Step Unit).run s := by
  rw [← h.limits] at hcount
  rw [absorbHeaders, Act.run_bind_ok (Act.run_get s), Act.run_bind_demand (decide_eq_true hcount),
    Act.run_bind_ok (run_stream h.stream), show (x.state stage buffer eof).message = stage.message from rfl, hsome]
  rfl

theorem passes_response (r : Response) (hnone : stage.message = none)
    (hsize : r.octets.length ≤ x.limits.maxHeadersSize) (hcount : r.fields.length ≤ x.limits.maxHeaderCount)
    (hdecode : stage.decoder.decode x.id r.octets = (decoder, .ok (r.fields, acknowledgment)))
    (htunnel : (r.arrived x.id x.secure).tunneling x.held.method = false) :
    Passes world x (.headers r.octets) stage
      ⟨decoder.queue acknowledgment.toList, some (r.arrived x.id x.secure), stage.body⟩ := by
  intro buffer eof room s h
  obtain ⟨s₁, hs₁, hframe⟩ := absorbFrame_headers world r.toBlock hsize hdecode h
  obtain ⟨s₂, hs₂, hheaders⟩ := absorbHeaders_first world r hs₁ hnone hcount
  rw [htunnel] at hheaders
  refine ⟨_, hframe.trans (Act.run_bind_ok hheaders _), ?_⟩
  exact hs₂.changed rfl rfl

theorem passes_trailers (t : Trailers) {m : Message} (hsome : stage.message = some m)
    (hsize : t.octets.length ≤ x.limits.maxHeadersSize) (hcount : t.fields.length ≤ x.limits.maxHeaderCount)
    (hdecode : stage.decoder.decode x.id t.octets = (decoder, .ok (t.fields, acknowledgment))) :
    Passes world x (.headers t.octets) stage
      ⟨decoder.queue acknowledgment.toList, some { m with trailers := some t.headers }, stage.body⟩ := by
  intro buffer eof room s h
  obtain ⟨s₁, hs₁, hframe⟩ := absorbFrame_headers world t.toBlock hsize hdecode h
  have hheaders := absorbHeaders_second world t.fields hs₁ (hsome ▸ rfl) hcount
  rw [t.made] at hheaders
  refine ⟨_, hframe.trans (Act.run_bind_ok hheaders _), ?_⟩
  exact hs₁.changed (by simp [Setting.state, hsome]) rfl

/-- A section that is a message's is no trailers, and an error where the stream has come to
    hold a message already. -/
theorem refuses_response (r : Response) {m : Message} (hsome : stage.message = some m)
    (hsize : r.octets.length ≤ x.limits.maxHeadersSize) (hcount : r.fields.length ≤ x.limits.maxHeaderCount)
    (hdecode : stage.decoder.decode x.id r.octets = (decoder, .ok (r.fields, acknowledgment))) :
    ∃ error, Refuses world x (.headers r.octets) stage error := by
  obtain ⟨field, hfield, hname⟩ := Fields.intoMessage_pseudo r.made
  obtain ⟨error, herror⟩ := Fields.intoTrailers_pseudo hfield hname
  refine ⟨error.onStream x.id Code.MESSAGE_ERROR, ?_⟩
  intro buffer eof room s h
  obtain ⟨s₁, hs₁, hframe⟩ := absorbFrame_headers world r.toBlock hsize hdecode h
  have hheaders := absorbHeaders_second world r.fields hs₁ (hsome ▸ rfl) hcount
  rw [herror] at hheaders
  exact ⟨s₁, hframe.trans (Act.run_bind_error hheaders _), hs₁.ready⟩

theorem passes_data {octets : Octets} (hsome : stage.message.isSome = true)
    (hsize : (stage.body ++ octets).length ≤ x.limits.maxMessageBodySize) :
    Passes world x (.data octets) stage { stage with body := stage.body ++ octets } := by
  intro buffer eof room s h
  rw [← h.limits] at hsize
  refine ⟨_, ?_, h.changed (f := fun state => { state with body := state.body ++ octets }) rfl rfl⟩
  rw [absorbFrame, absorbData, Act.run_bind_ok (Act.run_get s), Act.run_bind_ok (run_stream h.stream),
    show (x.state stage buffer eof).message = stage.message from rfl, Act.run_bind_demand hsome,
    Act.run_bind_ok (run_modifyStream _ _ _)]
  exact Act.run_bind_demand (decide_eq_true hsize) _ _ _

theorem passes_dataAll {d : Qpack.Decoder} {m : Message} {data : List Octets} {body : Octets}
    (hsize : (body ++ data.flatten).length ≤ x.limits.maxMessageBodySize) :
    PassesAll world x (data.map .data) ⟨d, some m, body⟩ ⟨d, some m, body ++ data.flatten⟩ := by
  induction data generalizing body with
  | nil =>
    rw [List.flatten_nil, List.append_nil]
    exact .nil _
  | cons octets data ih =>
    rw [List.flatten_cons, ← List.append_assoc] at hsize ⊢
    refine .cons (passes_data rfl ?_) (ih hsize)
    exact (Nat.le_add_right _ _).trans (List.length_append.symm.le.trans hsize)

/-- The first section of a tunnel is delivered, and turns the stream to relaying. -/
theorem opens_response (r : Response) (hnone : stage.message = none)
    (hsize : r.octets.length ≤ x.limits.maxHeadersSize) (hcount : r.fields.length ≤ x.limits.maxHeaderCount)
    (hdecode : stage.decoder.decode x.id r.octets = (decoder, .ok (r.fields, acknowledgment)))
    (htunnel : (r.arrived x.id x.secure).tunneling x.held.method = true) (h : Stands x stage buffer eof room s) :
    ∃ s', (absorbFrame world x.id (.headers r.octets)).run s = (.ok .again, s') ∧
      Relays x (x.ready ++ [r.arrived x.id x.secure]) buffer.length room s' := by
  obtain ⟨s₁, hs₁, hframe⟩ := absorbFrame_headers world r.toBlock hsize hdecode h
  obtain ⟨s₂, hs₂, hheaders⟩ := absorbHeaders_first world r hs₁ hnone hcount
  rw [htunnel] at hheaders
  refine ⟨_, hframe.trans (Act.run_bind_ok hheaders _), hs₂.limits, congrArg (· ++ _) hs₂.ready, hs₂.bound, _,
    lookup_changed hs₂.stream _, rfl, rfl⟩

/-! ## Receiving the exchange -/

/-- The pieces leave these messages to be taken, behind those that were. -/
def Delivers (world : World) (id : ℕ) (s : H3Session) (pieces : List Octets) (messages : List Message) : Prop :=
  ∃ s', (feed world id pieces).run s = (.ok (), s') ∧ s'.ready = s.ready ++ messages

theorem run_retire (id : ℕ) (s : H3Session) : ∃ s', (retire id).run s = (.ok (), s') ∧ s'.ready = s.ready := by
  rw [retire, Act.run_bind_ok (Act.run_get _)]
  split_ifs
  · exact ⟨_, rfl, rfl⟩
  · exact ⟨_, rfl, rfl⟩

theorem deliver_stands {m : Message} (hsome : stage.message = some m) (h : Stands x stage buffer eof room s) :
    ∃ s', (deliver x.id).run s = (.ok (), s') ∧
      s'.ready = x.ready ++ [if stage.body.isEmpty then m else { m with body := some (.data stage.body) }] := by
  rw [deliver, Act.run_bind_ok (run_stream h.stream)]
  rw [show (x.state stage buffer eof).delivered = false from rfl,
    show (x.state stage buffer eof).message = some m from hsome, show (x.state stage buffer eof).body = stage.body from rfl]
  rw [if_neg Bool.false_ne_true, Act.run_bind_ok (run_modifyStream _ _ _), Act.run_bind_ok (Act.run_modify _ _)]
  obtain ⟨s', hretire, hready⟩ := run_retire x.id _
  refine ⟨s', hretire, hready.trans ?_⟩
  rw [← h.ready]

variable {id : ℕ} {state : StreamState} {e : Exchange} {pieces : List Octets}

/-- The stream as the exchange finds it. -/
theorem Acceptable.stands (h : Acceptable s id state e) (hpieces : pieces.flatten = Frame.encodeAll e.frames) :
    Stands ⟨id, state, s.limits, s.secure, s.ready⟩ ⟨s.decoder, none, []⟩ [] false (pieces.flatten.length + 0) s := by
  obtain ⟨hbuffer, hbody, hmessage, hpending, heof, hdelivered, hraw⟩ := h.fresh
  refine ⟨rfl, rfl, rfl, rfl, ?_, ?_⟩
  · rw [hpieces]
    exact h.room
  · rw [h.stream, Setting.state]
    obtain ⟨buffer, body, message, method, accepted, pending, eof, delivered, finished, raw, responded⟩ := state
    dsimp only at hbuffer hbody hmessage hpending heof hdelivered hraw ⊢
    rw [hbuffer, hbody, hmessage, hpending, heof, hdelivered, hraw]

/-- A response that opens no tunnel is delivered with its body and its trailers. -/
theorem delivers_final (world : World) (h : Acceptable s id state e) (hnone : e.informational = [])
    (hpieces : pieces.flatten = Frame.encodeAll e.frames)
    (htunnel : (e.final.arrived id s.secure).tunneling state.method = false) :
    Delivers world id s pieces [e.response id s.secure state.method] := by
  have hblocks : e.blocks = e.final.toBlock :: (e.trailers.map (·.toBlock)).toList := by rw [Exchange.blocks, hnone]; rfl
  have hframes : e.frames =
      .headers e.final.octets :: (e.data.map .data ++ (e.trailers.map (.headers ·.octets)).toList) := by
    rw [Exchange.frames, hnone]
    rfl
  have hdecodes := h.decodes
  rw [hblocks] at hdecodes
  obtain _ | @⟨_, decoder, _, _, acknowledgment, hfirst, hrest⟩ := hdecodes
  obtain ⟨hsize, hcount⟩ := h.sections e.final.toBlock (hblocks ▸ List.mem_cons_self)
  have hhead : Passes world ⟨id, state, s.limits, s.secure, s.ready⟩ (.headers e.final.octets) ⟨s.decoder, none, []⟩
      ⟨decoder.queue acknowledgment.toList, some (e.final.arrived id s.secure), []⟩ :=
    passes_response e.final rfl hsize hcount hfirst htunnel
  have hdata : PassesAll world ⟨id, state, s.limits, s.secure, s.ready⟩ (e.data.map .data)
      ⟨decoder.queue acknowledgment.toList, some (e.final.arrived id s.secure), []⟩
      ⟨decoder.queue acknowledgment.toList, some (e.final.arrived id s.secure), e.data.flatten⟩ :=
    passes_dataAll h.body
  obtain ⟨decoder', htrailers⟩ : ∃ decoder', PassesAll world ⟨id, state, s.limits, s.secure, s.ready⟩
      (e.trailers.map (.headers ·.octets)).toList
      ⟨decoder.queue acknowledgment.toList, some (e.final.arrived id s.secure), e.data.flatten⟩
      ⟨decoder', some (match e.trailers with
        | some trailers => { e.final.arrived id s.secure with trailers := some trailers.headers }
        | none => e.final.arrived id s.secure), e.data.flatten⟩ := by
    rcases htrailers : e.trailers with _ | trailers
    · exact ⟨_, .nil _⟩
    · rw [htrailers] at hrest hblocks
      obtain _ | @⟨_, decoder', _, _, acknowledgment', hsecond, -⟩ := hrest
      obtain ⟨hsize', hcount'⟩ := h.sections trailers.toBlock (hblocks ▸ List.mem_cons_of_mem _ List.mem_cons_self)
      exact ⟨_, .cons (passes_trailers trailers rfl hsize' hcount' hsecond) (.nil _)⟩
  have hsome : pieces ≠ [] := by
    rintro rfl
    exact Frame.ne_encodeAll_of_short rfl (hframes ▸ List.cons_ne_nil _ _) h.plain hpieces
  have hall := PassesAll.cons hhead (hdata.append htrailers)
  rw [← hframes] at hall
  obtain ⟨s₁, hs₁, hfeed⟩ := feed_passes h.plain hall hsome hpieces h.size (h.stands hpieces)
  obtain ⟨s', hdeliver, hready⟩ := deliver_stands rfl hs₁
  refine ⟨s', hfeed.trans hdeliver, hready.trans ?_⟩
  rw [Exchange.response, htunnel]
  rfl

/-- One that opens a tunnel is delivered at once, and what follows is the tunnel's. -/
theorem delivers_tunnel (world : World) (h : Acceptable s id state e) (hnone : e.informational = [])
    (hpieces : pieces.flatten = Frame.encodeAll e.frames)
    (htunnel : (e.final.arrived id s.secure).tunneling state.method = true) :
    Delivers world id s pieces [e.response id s.secure state.method] := by
  have hblocks : e.blocks = e.final.toBlock :: (e.trailers.map (·.toBlock)).toList := by rw [Exchange.blocks, hnone]; rfl
  have hframes : e.frames =
      [] ++ .headers e.final.octets :: (e.data.map .data ++ (e.trailers.map (.headers ·.octets)).toList) := by
    rw [Exchange.frames, hnone]
    rfl
  have hdecodes := h.decodes
  rw [hblocks] at hdecodes
  obtain _ | ⟨hfirst, -⟩ := hdecodes
  obtain ⟨hsize, hcount⟩ := h.sections e.final.toBlock (hblocks ▸ List.mem_cons_self)
  have hplain := h.plain
  have hfits := h.size
  have hstands := h.stands hpieces
  rw [hframes] at hplain hfits hpieces
  obtain ⟨s₁, left, rest, fuel, hs₁, hroom, hfeed⟩ :=
    feed_reaches hplain (.nil _) ((List.nil_append _).trans hpieces) hfits rfl hstands
  obtain ⟨s₂, habsorb, hrelays⟩ := opens_response e.final rfl hsize hcount hfirst htunnel hs₁
  obtain ⟨s', hrest, hready⟩ := feed_relays hrelays hroom
  refine ⟨s', ?_, ?_⟩
  · refine hfeed.trans ((Act.run_bind_ok habsorb _).trans ?_)
    exact (Act.run_bind_ok (advanceLoop_relays hrelays fuel) _).trans hrest
  · rw [hready, Exchange.response, if_pos htunnel]

/-- Behind an informational response the next section is taken for trailers, and refused. -/
theorem delivers_nothing (world : World) (h : Acceptable s id state e) (hsome : e.informational ≠ [])
    (hpieces : pieces.flatten = Frame.encodeAll e.frames) :
    ∃ error s', (feed world id pieces).run s = (.error error, s') ∧ s'.ready = s.ready := by
  obtain ⟨first, others, hinformational⟩ := List.exists_cons_of_ne_nil hsome
  -- What follows the first is a response, informational or final.
  obtain ⟨next, blocks, later, hblocks, hframes⟩ : ∃ (next : Response) (blocks : List Block) (later : List Frame),
      e.blocks = first.toBlock :: next.toBlock :: blocks ∧
      e.frames = [.headers first.octets] ++ .headers next.octets :: later := by
    rw [Exchange.blocks, Exchange.frames, hinformational]
    rcases others with _ | ⟨second, others⟩
    · exact ⟨e.final, _, _, rfl, rfl⟩
    · exact ⟨second, _, _, rfl, rfl⟩
  have hinterim : first.message.isInformational = true := e.interim first (hinformational ▸ List.mem_cons_self)
  have htunnel : (first.arrived id s.secure).tunneling state.method = false :=
    Message.tunneling_informational (m := first.arrived id s.secure) hinterim first.isRequest _
  have hdecodes := h.decodes
  rw [hblocks] at hdecodes
  obtain _ | ⟨hfirst, hrest⟩ := hdecodes
  obtain _ | ⟨hsecond, -⟩ := hrest
  obtain ⟨hsize, hcount⟩ := h.sections first.toBlock (hblocks ▸ List.mem_cons_self)
  obtain ⟨hsize', hcount'⟩ := h.sections next.toBlock (hblocks ▸ List.mem_cons_of_mem _ List.mem_cons_self)
  have hplain := h.plain
  have hfits := h.size
  have hstands := h.stands hpieces
  rw [hframes] at hplain hfits hpieces
  have hhead : Passes world ⟨id, state, s.limits, s.secure, s.ready⟩ (.headers first.octets) ⟨s.decoder, none, []⟩
      ⟨_, some (first.arrived id s.secure), []⟩ :=
    passes_response first rfl hsize hcount hfirst htunnel
  obtain ⟨error, hrefuses⟩ : ∃ error, Refuses world ⟨id, state, s.limits, s.secure, s.ready⟩ (.headers next.octets)
      ⟨_, some (first.arrived id s.secure), []⟩ error :=
    refuses_response next rfl hsize' hcount' hsecond
  have hpasses := PassesAll.cons hhead (.nil _)
  obtain ⟨s', hfeed, hready⟩ := feed_refused hplain hpasses hrefuses ((List.nil_append _).trans hpieces) hfits rfl hstands
  exact ⟨error, s', hfeed, hready⟩

/-! ## Sending the exchange -/

/-- Frames messages one after another on a stream: whether the stream ends with each. -/
def frameMessages (world : World) (id : ℕ) : List Message → Step (List Bool)
  | [] => return []
  | m :: messages => do
    let (_, fin) ← frameMessage world id m
    let fins ← frameMessages world id messages
    return fin :: fins

/-- What coding the body leaves of a message. -/
theorem compress_kind {m m' : Message} {accepted : Option Compression} (h : m.compress world accepted = .ok m') :
    m'.method = m.method ∧ m'.statusCode = m.statusCode := by
  rw [Message.compress] at h
  split at h
  · cases h
    exact ⟨rfl, rfl⟩
  · split at h
    · cases h
      exact ⟨rfl, rfl⟩
    · split_ifs at h
      · cases h
        exact ⟨rfl, rfl⟩
      · split at h
        · cases h
        · split at h
          · cases h
          · cases h
            exact ⟨rfl, rfl⟩

/-- The stream ends with every message but one that opens a tunnel. -/
theorem frameMessage_fin {m : Message} {octets : Octets} {fin : Bool}
    (h : (frameMessage world id m).run s = (.ok (octets, fin), s')) : ∃ method, fin = !m.tunneling method := by
  rw [frameMessage] at h
  obtain ⟨_, _, -, h⟩ := Act.of_run_bind_ok h
  obtain ⟨m', _, hcompress, h⟩ := Act.of_run_bind_ok h
  obtain ⟨hmethod, hstatus⟩ := compress_kind (congrArg Prod.fst hcompress)
  obtain ⟨_, _, -, h⟩ := Act.of_run_bind_ok h
  obtain ⟨_, _, -, h⟩ := Act.of_run_bind_ok h
  obtain ⟨_, _, -, h⟩ := Act.of_run_bind_ok h
  obtain ⟨_, _, -, h⟩ := Act.of_run_bind_ok h
  obtain ⟨_, _, -, h⟩ := Act.of_run_bind_ok h
  obtain ⟨_, _, -, h⟩ := Act.of_run_bind_ok h
  obtain ⟨held, _, -, h⟩ := Act.of_run_bind_ok h
  obtain ⟨_, _, -, h⟩ := Act.of_run_bind_ok h
  cases h
  refine ⟨held.method, ?_⟩
  rw [Message.tunneling, Message.tunneling, Message.isRequest, Message.isRequest, hmethod, hstatus]

/-- The stream is left to the final response exactly where none precedes it. -/
theorem frameMessages_fins {informational : List Message} {final : Message} {fins : List Bool}
    (hinterim : ∀ m ∈ informational, m.isInformational = true ∧ m.isRequest = false)
    (h : (frameMessages world id (informational ++ [final])).run s = (.ok fins, s')) :
    (∀ fin ∈ fins.dropLast, fin = false) ↔ informational = [] := by
  rcases informational with _ | ⟨first, others⟩
  · rw [List.nil_append, frameMessages] at h
    obtain ⟨⟨_, fin⟩, _, -, h⟩ := Act.of_run_bind_ok h
    cases h
    simp
  · rw [List.cons_append, frameMessages] at h
    obtain ⟨⟨octets, fin⟩, s₁, hfirst, h⟩ := Act.of_run_bind_ok h
    obtain ⟨rest, s₂, hrest, h⟩ := Act.of_run_bind_ok h
    cases h
    obtain ⟨hinformational, hkind⟩ := hinterim first List.mem_cons_self
    obtain ⟨method, rfl⟩ := frameMessage_fin hfirst
    rw [Message.tunneling_informational hinformational hkind]
    have hmore : rest ≠ [] := by
      rintro rfl
      rcases others with _ | ⟨second, others⟩ <;>
        · obtain ⟨_, _, -, hrest⟩ := Act.of_run_bind_ok hrest
          obtain ⟨_, _, -, hrest⟩ := Act.of_run_bind_ok hrest
          cases hrest
    rw [List.dropLast_cons_of_ne_nil hmore]
    simp

/-! ## The exchange as a whole -/

/-- What is sent leaves the stream to the final response, and what arrives is delivered,
    message by message, exactly where no informational response precedes the final one. -/
theorem informational_kept {sender sender' : H3Session} {informational : List Message} {final : Message}
    {fins : List Bool} (hinterim : ∀ m ∈ informational, m.isInformational = true ∧ m.isRequest = false)
    (hsent : (frameMessages world id (informational ++ [final])).run sender = (.ok fins, sender'))
    (hreceived : Acceptable s id state e) (hpieces : pieces.flatten = Frame.encodeAll e.frames) :
    ((∀ fin ∈ fins.dropLast, fin = false) ↔ informational = []) ∧
      (Delivers world id s pieces (e.messages id s.secure state.method) ↔ e.informational = []) := by
  refine ⟨frameMessages_fins hinterim hsent, ?_, ?_⟩
  · rintro ⟨s', hfeed, -⟩
    by_contra hsome
    obtain ⟨error, s₁, hfails, -⟩ := delivers_nothing world hreceived hsome hpieces
    rw [hfails] at hfeed
    cases hfeed
  · intro hnone
    have hmessages : e.messages id s.secure state.method = [e.response id s.secure state.method] := by
      rw [Exchange.messages, hnone]
      rfl
    rw [hmessages]
    rcases htunnel : (e.final.arrived id s.secure).tunneling state.method with _ | _
    · exact delivers_final world hreceived hnone hpieces htunnel
    · exact delivers_tunnel world hreceived hnone hpieces htunnel

/-- The field section of a response that carries its status and nothing else. -/
def statusOnly (status : String) : List HeaderField := [.lit ":status" status]

/-- A `103` response, coded by the static table. -/
def earlyHints : Response where
  octets := [0x00, 0x00, 0xd8]
  fields := statusOnly "103"
  message := { Message.response 103 .v3_0 with headers := some (.adopt (statusOnly "103")) }
  made := rfl
  isResponse := rfl

/-- A `200` response, coded by the static table. -/
def allRight : Response where
  octets := [0x00, 0x00, 0xd9]
  fields := statusOnly "200"
  message := { Message.response 200 .v3_0 with headers := some (.adopt (statusOnly "200")) }
  made := rfl
  isResponse := rfl

/-- The one behind the other. -/
def hinted : Exchange where
  informational := [earlyHints]
  interim := by
    intro r hr
    obtain rfl := List.mem_singleton.1 hr
    rfl
  final := allRight
  last := rfl
  data := [lit "body"]
  trailers := none

/-- A client that has opened its first stream. -/
def asking : H3Session := (openBidi.run (.new .userAgent .default)).2

/-- A server that has been asked on that stream. -/
def asked : H3Session := ((entry 0).run (.new .origin .default)).2

theorem hinted_decodes : Decodes 0 asking.decoder hinted.blocks := by
  have hfirst : asking.decoder.decode 0 earlyHints.octets =
      ((asking.decoder.decode 0 earlyHints.octets).1, .ok (earlyHints.fields, none)) :=
    Prod.ext rfl (by with_unfolding_all rfl)
  have hsecond : ((asking.decoder.decode 0 earlyHints.octets).1.queue []).decode 0 allRight.octets =
      ((((asking.decoder.decode 0 earlyHints.octets).1.queue []).decode 0 allRight.octets).1,
        .ok (allRight.fields, none)) :=
    Prod.ext rfl (by with_unfolding_all rfl)
  exact .cons hfirst (.cons hsecond (.nil _))

theorem hinted_acceptable : Acceptable asking 0 .new hinted where
  stream := rfl
  fresh := ⟨rfl, rfl, rfl, rfl, rfl, rfl, rfl⟩
  decodes := hinted_decodes
  sections := by decide
  body := by decide
  plain := by
    have hframes : hinted.frames = [.headers earlyHints.octets, .headers allRight.octets, .data (lit "body")] := rfl
    rw [hframes]
    simp only [List.forall_mem_cons, Frame.Plain]
    decide
  size := by decide
  room := by decide

theorem informational_kept_hinted :
    (∃ sender' fins, (frameMessages .bare 0 ([earlyHints.message] ++ [allRight.message])).run asked = (.ok fins, sender') ∧
      ((∀ fin ∈ fins.dropLast, fin = false) ↔ [earlyHints.message] = [])) ∧
      (Delivers .bare 0 asking [Frame.encodeAll hinted.frames] (hinted.messages 0 true none) ↔ hinted.informational = []) := by
  have hinterim : ∀ m ∈ [earlyHints.message], m.isInformational = true ∧ m.isRequest = false := by
    intro m hm
    obtain rfl := List.mem_singleton.1 hm
    exact ⟨rfl, rfl⟩
  have hsent : (frameMessages .bare 0 ([earlyHints.message] ++ [allRight.message])).run asked =
      (.ok [true, true], ((frameMessages .bare 0 ([earlyHints.message] ++ [allRight.message])).run asked).2) :=
    Prod.ext (by decide +kernel) rfl
  have hpieces : [Frame.encodeAll hinted.frames].flatten = Frame.encodeAll hinted.frames := by simp
  obtain ⟨hsends, hdelivers⟩ := informational_kept hinterim hsent hinted_acceptable hpieces
  exact ⟨⟨_, _, hsent, hsends⟩, hdelivers⟩

/-- A server that answers `103` and then `200` ends its stream with the first, and a client
    that is answered so has the second refused. -/
theorem early_hints_lost :
    ((frameMessages .bare 0 [earlyHints.message, allRight.message]).run asked).1 = .ok [true, true] ∧
      ¬Delivers .bare 0 asking [Frame.encodeAll hinted.frames] (hinted.messages 0 true none) := by
  refine ⟨by decide +kernel, ?_⟩
  rintro ⟨s', hfeed, -⟩
  have hfails : ((feed .bare 0 [Frame.encodeAll hinted.frames]).run asking).1.isOk = false := by decide +kernel
  rw [hfeed] at hfails
  cases hfails

end H3Session

end Soyokaze

import Soyokaze.Protocol.H3.Session

/-!
# An HTTP/3 worker

The half of an HTTP/3 connection that runs inside the QUIC driver: it reads and writes the
streams of the connection, feeds what arrives to the session or to the tunnel a stream has
become, and carries out what the connection's handle asks for. QUIC may take only part of
a write, so what it has not taken is kept for each stream.

The QUIC connection is what its calls are going to answer, and a channel the room it has
left. `passed` is what passed between the worker and what is around it, the latest first.
The source keeps no such record.

Of the deadline of a blocked stream there is no more than whether it has passed.
-/

namespace Soyokaze

open H3

/-! ## What is around a worker -/

/-- What one write to a stream produced. -/
inductive StreamWrite
  | sent (count : ℕ)
  | blocked
  | stopped (code : ℕ)
  deriving DecidableEq

/-- What one read from a stream produced. -/
inductive StreamRead
  | data (octets : Octets) (fin : Bool)
  | done
  | reset (code : ℕ)
  deriving DecidableEq

/-- A QUIC connection, by what its writes and reads to come produce. One that produces
    nothing has failed; past the last, it takes all it is given and has nothing to read. -/
structure QUICTransport where
  writes : List (Option StreamWrite)
  reads : List (Option StreamRead)

namespace QUICTransport

/-- What writing octets to a stream produces. It takes no more than it is given. -/
def send (t : QUICTransport) (octets : Octets) : Except Error StreamWrite × QUICTransport :=
  match t.writes with
  | [] => (.ok (.sent octets.length), t)
  | none :: writes => (.error .io, { t with writes := writes })
  | some (.sent count) :: writes => (.ok (.sent (min count octets.length)), { t with writes := writes })
  | some outcome :: writes => (.ok outcome, { t with writes := writes })

/-- What reading from a stream produces. -/
def receive (t : QUICTransport) : Except Error StreamRead × QUICTransport :=
  match t.reads with
  | [] => (.ok .done, t)
  | none :: reads => (.error .io, { t with reads := reads })
  | some outcome :: reads => (.ok outcome, { t with reads := reads })

end QUICTransport

/-- A bounded channel, as the end that sends into it sees it. -/
structure Mailbox where
  room : ℕ
  closed : Bool
  deriving DecidableEq

/-- How sending without waiting ends. -/
inductive TrySend
  | sent
  | full
  | closed
  deriving DecidableEq

/-- Sends without waiting. -/
def Mailbox.trySend (mailbox : Mailbox) : TrySend × Mailbox :=
  if mailbox.closed then (.closed, mailbox)
  else match mailbox.room with
    | 0 => (.full, mailbox)
    | room + 1 => (.sent, { mailbox with room := room })

/-- What a worker is asked to do. -/
inductive H3Command
  | send (m : Message)
  | openBidi
  | openUni (kind : StreamKind)
  | tunnel (id : ℕ) (sink : Mailbox)
  | writeEncoder (octets : Octets)
  | reset (id code : ℕ)
  | close

/-- Whether carrying a command out adds to what is waiting to be sent. -/
def H3Command.buffers : H3Command → Bool
  | .send _ | .writeEncoder _ => true
  | _ => false

/-- What a worker reports back. -/
inductive H3Event
  | message (m : Message)
  | failed (error : Error)

/-- A raw write to one stream: where, what, and whether it ends the stream. -/
abbrev RawWrite := ℕ × Octets × Bool

/-- What passed between a worker and what is around it. -/
inductive Passage
  /-- Octets were put behind what a stream had waiting, if it had anything. -/
  | queued (id : ℕ) (waiting : Bool) (octets : Octets) (fin : Bool)
  /-- The transport took octets, and the end of the stream with them or not. -/
  | sent (id : ℕ) (octets : Octets) (fin : Bool)
  /-- What a stream had waiting was dropped. -/
  | dropped (id : ℕ) (octets : Octets)
  /-- A message was not framed, for a stream that had something waiting or not. -/
  | unframed (id : ℕ) (waiting : Bool)
  /-- The transport gave octets, and the end of the stream with them or not. -/
  | read (id : ℕ) (octets : Octets) (fin : Bool)
  /-- The peer reset a stream. -/
  | wasReset (id code : ℕ)
  /-- The handle had a stream reset that had this waiting. -/
  | reset (id code : ℕ) (waiting : Octets)
  | shutWrite (id code : ℕ)
  | shutRead (id code : ℕ)
  | closed (code : ℕ)
  /-- A tunnel was handed octets, and the end of the stream with them or not. -/
  | relayed (id : ℕ) (octets : Octets) (fin : Bool)
  /-- The handle was told. -/
  | told (event : H3Event)
  /-- The handle was given the stream it asked for. -/
  | opened (id : ℕ)

/-! ## Workers -/

/-- A unidirectional stream the peer opened. -/
structure PeerUni where
  kind : Option StreamKind
  prefixOctets : Octets
  abandoned : Bool
  deriving DecidableEq

/-- The half of an HTTP/3 connection that runs inside the QUIC driver. -/
structure H3Worker where
  session : H3Session
  transport : QUICTransport
  commands : List H3Command
  events : Mailbox
  rawWrites : List RawWrite
  pending : Option H3Command
  pendingRaw : Option RawWrite
  orphaned : Bool
  established : Bool
  nextUni : ℕ
  localControl : ℕ
  localEncoder : ℕ
  localDecoder : ℕ
  peerUni : StreamMap PeerUni
  tunnels : StreamMap Mailbox
  outbound : StreamMap (Octets × Bool)
  outboundBytes : ℕ
  prematureResets : ℕ
  rejected : ℕ
  rejectedFloor : ℕ
  drained : Bool
  passed : List Passage

/-- The SETTINGS frame that must lead this end's control stream. -/
def H3Session.controlFrame (s : H3Session) : Octets := (Frame.settings s.settingsLocal.parameters).encode

namespace H3Worker

/-- A worker that has done nothing yet. -/
def new (session : H3Session) (transport : QUICTransport) (events : Mailbox) : H3Worker where
  session := session
  transport := transport
  commands := []
  events := events
  rawWrites := []
  pending := none
  pendingRaw := none
  orphaned := false
  established := false
  nextUni := QUICStreamID.firstUni session.role
  localControl := 0
  localEncoder := 0
  localDecoder := 0
  peerUni := ∅
  tunnels := ∅
  outbound := ∅
  outboundBytes := 0
  prematureResets := 0
  rejected := 0
  rejectedFloor := 0
  drained := false
  passed := []

/-- A step of a worker. -/
abbrev Step (α : Type) : Type := Act H3Worker Error α

/-- Records what passed. -/
def note (entry : Passage) : Step Unit := Act.modify fun w => { w with passed := entry :: w.passed }

/-- Has the session take a step. -/
def onSession {α : Type} (m : H3Session.Step α) : Step α := fun w =>
  ((m.run w.session).1, { w with session := (m.run w.session).2 })

/-- Takes a step, and gives what came of it. -/
def attempt {α : Type} (m : Step α) : Step (Except Error α) := fun w => (.ok (m.run w).1, (m.run w).2)

/-- Tells the handle, if its channel has room. -/
def tell (event : H3Event) : Step TrySend := fun w =>
  match w.events.trySend with
  | (.sent, events) => (.ok .sent, { w with events := events, passed := .told event :: w.passed })
  | (outcome, events) => (.ok outcome, { w with events := events })

/-- Reports what makes a step fail. -/
def reporting {α : Type} (m : Step α) : Step α := do
  match ← attempt m with
  | .ok a => return a
  | .error error => do
    let _ ← tell (.failed error)
    Act.fail error

/-! ## Streams -/

/-- Drops what a stream has waiting to be sent. -/
def dropOutbound (id : ℕ) : Step Unit := Act.modify fun w =>
  match w.outbound.lookup id with
  | some (buffer, _) => { w with
      outbound := w.outbound.erase id
      outboundBytes := w.outboundBytes - buffer.length
      passed := .dropped id buffer :: w.passed }
  | none => w

/-- Drops every trace of a stream. -/
def forgetStream (id : ℕ) : Step Unit := do
  onSession (H3Session.forget id)
  Act.modify fun w => { w with peerUni := w.peerUni.erase id, tunnels := w.tunnels.erase id }
  dropOutbound id

/-- How much may wait to be sent before writes are refused. -/
def outboundLimit (w : H3Worker) : ℕ := w.session.limits.maxConnectionBufferSize

/-- Whether more raw writes may be taken on. -/
def acceptingWrites (w : H3Worker) : Bool := w.outboundBytes < w.outboundLimit

/-- Allocates the next unidirectional stream this end may open. -/
def allocUni : Step ℕ := fun w => (.ok w.nextUni, { w with nextUni := w.nextUni + QUICStreamID.STEP })

def shutdownWrite (id code : ℕ) : Step Unit := note (.shutWrite id code)

def shutdownRead (id code : ℕ) : Step Unit := note (.shutRead id code)

def closeTransport (code : ℕ) : Step Unit := note (.closed code)

/-! ## Sending -/

/-- What a stream has waiting to be sent, and whether it ends with it. -/
def waiting (w : H3Worker) (id : ℕ) : Octets × Bool := (w.outbound.lookup id).getD ([], false)

/-- Puts octets behind what a stream has waiting. -/
def enqueue (id : ℕ) (octets : Octets) (fin : Bool) : Step Unit := Act.modify fun w => { w with
  outbound := w.outbound.insert id ((w.waiting id).1 ++ octets, (w.waiting id).2 || fin)
  outboundBytes := w.outboundBytes + octets.length
  passed := .queued id (w.outbound.lookup id).isSome octets fin :: w.passed }

/-- Offers the transport what a stream has waiting. -/
def offer (buffer : Octets) : Step StreamWrite := fun w =>
  ((w.transport.send buffer).1, { w with transport := (w.transport.send buffer).2 })

/-- Takes off what the transport took. -/
def takeSent (id count : ℕ) (buffer : Octets) (fin : Bool) : Step Unit := Act.modify fun w => { w with
  outbound := if (buffer.drop count).isEmpty then w.outbound.erase id else w.outbound.insert id (buffer.drop count, fin)
  outboundBytes := w.outboundBytes - count
  passed := .sent id (buffer.take count) (fin && (buffer.drop count).isEmpty) :: w.passed }

/-- Sends as much of what a stream has waiting as QUIC will take. -/
def flushStream (id : ℕ) : Step Unit := do
  let w ← Act.get
  match w.outbound.lookup id with
  | none => pure ()
  | some (buffer, fin) =>
    if buffer.isEmpty && !fin then pure ()
    else match ← offer buffer with
      | .sent count => takeSent id count buffer fin
      | .blocked => pure ()
      | .stopped code => do
        dropOutbound id
        let _ ← tell (.failed (.stream id code "the peer stopped the stream" []))

/-- Puts octets behind what a stream has waiting, and tries to send at once. -/
def write (id : ℕ) (octets : Octets) (fin : Bool) : Step Unit := do
  enqueue id octets fin
  flushStream id

/-- Opens a unidirectional stream by writing the code that announces its kind. -/
def openUni (id : ℕ) (kind : StreamKind) : Step Unit :=
  match kind.code with
  | none => Act.fail (.protocol "Request is not a unidirectional stream type" [])
  | some code => write id (Varint.encode code) false

/-- Whether QPACK's instructions go to the peer's decoder or to its encoder. -/
inductive Side
  | encoder
  | decoder

/-- Takes what QPACK has queued on one side channel. -/
def takeQueued : Side → Step Octets
  | .encoder => fun w => (.ok w.session.encoder.takeEncoderStream.2,
      { w with session := { w.session with encoder := w.session.encoder.takeEncoderStream.1 } })
  | .decoder => fun w => (.ok w.session.decoder.takeDecoderStream.2,
      { w with session := { w.session with decoder := w.session.decoder.takeDecoderStream.1 } })

/-- The stream QPACK's instructions of one side go on. -/
def sideStream (w : H3Worker) : Side → ℕ
  | .encoder => w.localEncoder
  | .decoder => w.localDecoder

/-- Sends whatever QPACK has queued on one side channel. -/
def drainSideChannel (side : Side) : Step Unit := do
  let queued ← takeQueued side
  let w ← Act.get
  if queued.isEmpty then pure () else write (w.sideStream side) queued false

/-- Sends whatever QPACK has queued on both side channels. -/
def drainSideChannels : Step Unit := do
  drainSideChannel .encoder
  drainSideChannel .decoder

/-! ## Commands -/

/-- Sees to it that a stream has something to put octets behind. -/
def claimOutbound (id : ℕ) : Step Unit := Act.modify fun w =>
  if (w.outbound.lookup id).isSome then w else { w with outbound := w.outbound.insert id ([], false) }

/-- Frames a message behind what its stream has waiting. -/
def frameInto (world : World) (id : ℕ) (m : Message) : Step Unit := do
  let w ← Act.get
  claimOutbound id
  match ← attempt (onSession (H3Session.frameMessage world id m)) with
  | .ok (octets, fin) => enqueue id octets fin
  | .error error => do
    note (.unframed id (w.outbound.lookup id).isSome)
    Act.fail error

/-- The stream a message goes on: its own, or a new one. -/
def streamOf (m : Message) : Step ℕ :=
  match m.streamId with
  | some id => pure id
  | none => onSession H3Session.openBidi

/-- Frames and sends a message. -/
def sendMessage (world : World) (m : Message) : Step Unit := do
  let id ← streamOf m
  onSession (H3Session.entry id)
  onSession (H3Session.modifyStream id fun state => { state with responded := true })
  frameInto world id m
  flushStream id
  onSession (H3Session.retire id)

/-- Delivers octets to a tunnel that has room for them. -/
def relay (id : ℕ) (sink : Mailbox) (octets : Octets) (fin : Bool) : Step (TrySend × Mailbox) := fun w =>
  (.ok sink.trySend, if sink.trySend.1 = .sent then { w with passed := .relayed id octets fin :: w.passed } else w)

/-- Takes what a stream has not parsed. -/
def takeUnparsed (id : ℕ) : Step (Option (Octets × Bool)) := fun w =>
  (.ok ((w.session.streams.lookup id).map fun state => (state.buffer, state.eof)),
    { w with session := { w.session with
        streams := w.session.streams.modify id fun state => { state with buffer := [] } } })

/-- Turns a stream into a tunnel. What has arrived on it already is handed over. -/
def joinTunnel (id : ℕ) (sink : Mailbox) : Step Unit := do
  let sink ← match ← takeUnparsed id with
    | some (buffered, eof) =>
      if !buffered.isEmpty || eof then (·.2) <$> relay id sink buffered eof else pure sink
    | none => pure sink
  Act.modify fun w => { w with tunnels := w.tunnels.insert id sink }

/-- Abandons a stream towards the peer. -/
def abandon (id code : ℕ) : Step Unit := do
  Act.modify fun w => { w with
    outbound := w.outbound.erase id
    tunnels := w.tunnels.erase id
    passed := .reset id code (w.waiting id).1 :: w.passed }
  onSession (H3Session.retire id)
  shutdownWrite id code
  shutdownRead id code

/-- Carries out one command. -/
def execute (world : World) : H3Command → Step Unit
  | .send m => sendMessage world m
  | .openBidi => do
    let id ← onSession H3Session.openBidi
    note (.opened id)
  | .openUni kind => do
    let id ← allocUni
    openUni id kind
    note (.opened id)
  | .tunnel id sink => joinTunnel id sink
  | .writeEncoder octets => do
    let w ← Act.get
    write w.localEncoder octets false
  | .reset id code => abandon id code
  | .close => closeTransport Code.NO_ERROR

/-! ## Receiving -/

/-- Closes the connection, and gives the error it is closed for. -/
def overloaded (reason : String) (quoted : List Quoted) : Step Unit := do
  closeTransport Code.EXCESSIVE_LOAD
  Act.fail (.limit reason quoted)

/-- Sends GOAWAY once as many requests have been served as may be. -/
def goaway : Step Unit := do
  let w ← Act.get
  let limit := w.session.limits.maxRequestsPerConnection
  if w.session.role.isClient || w.session.goawaySent.isSome || limit == 0 || w.session.totalStreams < limit then pure ()
  else do
    let id := w.session.highestPeerStreamId + QUICStreamID.STEP
    write w.localControl (Frame.goAway id).encode false
    Act.modify fun w => { w with session := { w.session with goawaySent := some id } }

/-- Refuses a stream the peer opened past the GOAWAY this end sent. -/
def reject (id : ℕ) : Step Unit := do
  Act.modify fun w => if w.rejectedFloor ≤ id then
    { w with rejectedFloor := id + QUICStreamID.STEP, rejected := w.rejected + 1 } else w
  let w ← Act.get
  if w.session.streamCeiling < w.rejected then
    overloaded "more than {ceiling} streams arrived after GOAWAY" [.number w.session.streamCeiling]
  else do
    shutdownWrite id Code.REQUEST_REJECTED
    shutdownRead id Code.REQUEST_REJECTED

/-- Closes the connection once the peer's GOAWAY has drained. -/
def windDown : Step Unit := do
  let w ← Act.get
  if w.drained || w.session.goaway.isNone then pure ()
  else if !w.session.streams.entries.isEmpty || !w.session.ready.isEmpty || !w.outbound.entries.isEmpty ||
      !w.tunnels.entries.isEmpty then pure ()
  else do
    Act.modify fun w => { w with drained := true }
    closeTransport Code.NO_ERROR
    let _ ← tell (.failed .closed)

/-- Hands the octets of a unidirectional stream to what its kind calls for. -/
def feedUniKind (world : World) (octets : Octets) : StreamKind → Step Unit
  | .control => onSession (H3Session.onControlBytes octets)
  | .qpackEncoder => onSession (H3Session.onEncoderBytes world octets)
  | .qpackDecoder => onSession (H3Session.onDecoderBytes octets)
  | _ => pure ()

def modifyUni (id : ℕ) (f : PeerUni → PeerUni) : Step Unit :=
  Act.modify fun w => { w with peerUni := w.peerUni.modify id f }

/-- Reads a unidirectional stream's kind, if enough of it has arrived, then feeds the rest
    onward. -/
def feedPrefix (world : World) (id : ℕ) (read : Octets) : Step Unit := do
  let (consumed, code) := Varint.decode read
  if consumed = 0 then
    Act.demand (read.length ≤ Varint.MAX_SIZE) (.protocol "a unidirectional stream carries no readable type" [])
  else match StreamKind.fromCode code with
    | none => do
      modifyUni id fun uni => { uni with prefixOctets := [], abandoned := true }
      shutdownRead id Code.STREAM_CREATION_ERROR
    | some kind => do
      modifyUni id fun uni => { uni with kind := some kind, prefixOctets := [] }
      feedUniKind world (read.drop consumed) kind

/-- Feeds octets to a unidirectional stream of the peer's. -/
def feedUniBytes (world : World) (id : ℕ) (octets : Octets) : Step Unit := do
  let w ← Act.get
  let uni := (w.peerUni.lookup id).getD ⟨none, [], false⟩
  if uni.abandoned then pure ()
  else match uni.kind with
    | some kind => feedUniKind world octets kind
    | none => do
      let ceiling := w.session.limits.maxPeerUniStreams
      Act.demand ((w.peerUni.lookup id).isSome || w.peerUni.entries.length < ceiling)
        (.limit "more than {ceiling} unidirectional streams are open at once" [.number ceiling])
      let read := uni.prefixOctets ++ octets
      Act.modify fun w => { w with peerUni := w.peerUni.insert id { uni with prefixOctets := read } }
      feedPrefix world id read

/-- Feeds octets to a unidirectional stream of the peer's, and forgets it at its end. -/
def feedUni (world : World) (id : ℕ) (octets : Octets) (fin : Bool) : Step Unit := do
  let outcome ← attempt (feedUniBytes world id octets)
  Act.modify fun w => if fin then { w with peerUni := w.peerUni.erase id } else w
  Act.ofExcept outcome

/-- Relays octets into the tunnel a stream has become. -/
def feedTunnel (id : ℕ) (sink : Mailbox) (octets : Octets) (fin : Bool) : Step Unit := do
  let (outcome, sink) ← relay id sink octets fin
  Act.demand (outcome == .sent) (.stream id Code.EXCESSIVE_LOAD "the tunnel could not take the octets" [])
  if fin then do
    Act.modify fun w => { w with tunnels := w.tunnels.erase id }
    onSession (H3Session.forget id)
  else Act.modify fun w => { w with tunnels := w.tunnels.insert id sink }

/-- Routes incoming octets to wherever the stream belongs. -/
def dispatch (world : World) (id : ℕ) (octets : Octets) (fin : Bool) : Step Unit := do
  let w ← Act.get
  match w.tunnels.lookup id with
  | some sink => feedTunnel id sink octets fin
  | none =>
    if QUICStreamID.isBidi id then
      if (w.session.goawaySent.any (· ≤ id)) && (w.session.streams.lookup id).isNone then reject id
      else do
        onSession (H3Session.onStreamBytes world id octets fin)
        goaway
    else feedUni world id octets fin

/-- The code a stream is reset with for an error. -/
def resetCode : Error → ℕ
  | .stream _ code _ _ => code
  | _ => Code.MESSAGE_ERROR

/-- Abandons one stream in both directions, leaving the connection running. -/
def resetStream (id : ℕ) (error : Error) : Step Unit := do
  forgetStream id
  shutdownWrite id (resetCode error)
  shutdownRead id (resetCode error)

/-- Takes in what the transport gave, and resets the stream it came on where that makes a
    stream fail. The answer is whether it did not. -/
def absorb (world : World) (id : ℕ) (octets : Octets) (fin : Bool) : Step Bool := do
  note (.read id octets fin)
  match ← attempt (dispatch world id octets fin) with
  | .ok () => return true
  | .error (.stream failed code reason quoted) => do
    resetStream id (.stream failed code reason quoted)
    let _ ← tell (.failed (.stream failed code reason quoted))
    return false
  | .error error => reporting (Act.fail error)

/-- Counts a stream that was reset before a response was sent on it. -/
def countPremature : Step Unit := do
  Act.modify fun w => { w with prematureResets := w.prematureResets + 1 }
  let w ← Act.get
  if w.session.limits.maxPrematureResets < w.prematureResets then
    overloaded "more than {limit} streams were reset before a response was sent"
      [.number w.session.limits.maxPrematureResets]
  else pure ()

/-- Takes in that the peer reset a stream. -/
def absorbReset (id code : ℕ) : Step Unit := do
  note (.wasReset id code)
  let w ← Act.get
  onSession (H3Session.forget id)
  forgetStream id
  if (w.session.streams.lookup id).any fun state => !state.responded then reporting countPremature else pure ()
  let _ ← tell (.failed (.stream id code "the peer reset the stream" []))

/-- Reads from the transport. -/
def receive : Step StreamRead := fun w => (w.transport.receive.1, { w with transport := w.transport.receive.2 })

/-- Reads one stream until it is drained or blocked. Every round but the last takes one of
    what the reads to come produce, which `fuel` is more than. -/
def drainStream (world : World) (id : ℕ) : ℕ → Step Unit
  | 0 => pure ()
  | fuel + 1 => do
    let w ← Act.get
    if (w.tunnels.lookup id).any (·.room == 0) then pure ()
    else match ← reporting receive with
      | .data octets fin => do
        let fine ← absorb world id octets fin
        if !fine || fin || octets.isEmpty then pure () else drainStream world id fuel
      | .done => pure ()
      | .reset code => absorbReset id code

/-- Reads every readable stream until it is drained or blocked. -/
def drainReads (world : World) : List ℕ → Step Unit
  | [] => pure ()
  | id :: readable => do
    let w ← Act.get
    drainStream world id (w.transport.reads.length + 1)
    drainReads world readable

/-! ## What the QUIC driver calls -/

/-- Hands completed messages to the handle, until its channel is full. Each is one of those
    there are, which `fuel` is as many as. -/
def deliverLoop : ℕ → Step Unit
  | 0 => pure ()
  | fuel + 1 => do
    match ← onSession H3Session.takeReady with
    | none => pure ()
    | some m => do
      match ← tell (.message m) with
      | .full => Act.modify fun w => { w with session := { w.session with ready := m :: w.session.ready } }
      | _ => deliverLoop fuel

/-- Hands completed messages to the handle. -/
def deliverReady : Step Unit := do
  let w ← Act.get
  deliverLoop w.session.ready.length

/-- Opens the three streams HTTP/3 needs and sends the opening SETTINGS. -/
def onConnEstablished (secure : Bool) : Step Unit := do
  Act.modify fun w => { w with established := true, session := { w.session with secure := secure } }
  let localControl ← allocUni
  let localEncoder ← allocUni
  let localDecoder ← allocUni
  Act.modify fun w => { w with
    localControl := localControl, localEncoder := localEncoder, localDecoder := localDecoder }
  reporting do
    openUni localControl .control
    let w ← Act.get
    write localControl w.session.controlFrame false
    openUni localEncoder .qpackEncoder
    openUni localDecoder .qpackDecoder

/-- Takes the command that ended the wait. There is none where the handle is gone. -/
def waitCommand : Step Unit := Act.modify fun w =>
  if w.orphaned || w.pending.isSome then w
  else match w.commands with
    | command :: commands => { w with pending := some command, commands := commands }
    | [] => { w with orphaned := true }

/-- Takes the raw write that ended the wait. There is none where nobody is left to write. -/
def waitRaw : Step Unit := fun w =>
  if w.pendingRaw.isSome || !w.acceptingWrites then (.ok (), w)
  else match w.rawWrites with
    | raw :: rawWrites => (.ok (), { w with pendingRaw := some raw, rawWrites := rawWrites })
    | [] => (.error .closed, w)

/-- Reads every readable stream and delivers whatever messages complete. -/
def processReads (world : World) (readable : List ℕ) : Step Unit := do
  drainReads world readable
  deliverReady
  windDown

/-- Carries out the command taken while waiting, unless it has to wait for room. -/
def executePending (world : World) : Step Unit := do
  let w ← Act.get
  match w.pending with
  | none => pure ()
  | some command =>
    if command.buffers && !w.acceptingWrites then pure ()
    else do
      Act.modify fun w => { w with pending := none }
      execute world command

/-- Carries out commands until there are none, or one has to wait for room. Every round
    takes a command, of which there are no more than `fuel`. -/
def commandLoop (world : World) : ℕ → Step Unit
  | 0 => pure ()
  | fuel + 1 => do
    let w ← Act.get
    match w.pending, w.commands with
    | none, command :: commands => do
      Act.modify fun w => { w with commands := commands }
      if command.buffers && !w.acceptingWrites then Act.modify fun w => { w with pending := some command }
      else do
        execute world command
        commandLoop world fuel
    | _, _ => pure ()

/-- Takes the next raw write, if there is one. -/
def takeRaw : Step (Option RawWrite) := fun w =>
  match w.pendingRaw, w.rawWrites with
  | some raw, _ => (.ok (some raw), { w with pendingRaw := none })
  | none, raw :: rawWrites => (.ok (some raw), { w with rawWrites := rawWrites })
  | none, [] => (.ok none, w)

/-- Makes raw writes while they are accepted. Every round takes one, of which there are
    fewer than `fuel`. -/
def rawLoop : ℕ → Step Unit
  | 0 => pure ()
  | fuel + 1 => do
    let w ← Act.get
    if w.acceptingWrites then
      match ← takeRaw with
      | none => pure ()
      | some (id, octets, fin) => do
        write id octets fin
        rawLoop fuel
    else pure ()

/-- Flushes each of these streams. -/
def flushAll : List ℕ → Step Unit
  | [] => pure ()
  | id :: ids => do
    flushStream id
    flushAll ids

/-- Whether a blocked stream has run out of patience. -/
def checkBlocked (expired : Bool) : Step Unit := do
  let w ← Act.get
  if expired && !w.session.blockedSince.entries.isEmpty then do
    closeTransport Code.QPACK_DECOMPRESSION_FAILED
    Act.fail .timeout
  else pure ()

/-- Runs pending commands and flushes everything waiting to be sent. -/
def processWrites (world : World) (expired : Bool) : Step Unit := do
  reporting do
    checkBlocked expired
    executePending world
    let w ← Act.get
    commandLoop world w.commands.length
    let w ← Act.get
    rawLoop (w.rawWrites.length + 2)
    drainSideChannels
    let w ← Act.get
    flushAll w.outbound.keys
  deliverReady
  windDown

/-! ## Runs -/

/-- What happens to a worker. -/
inductive Input
  /-- The QUIC handshake completed. -/
  | established (secure : Bool)
  /-- The handle asked for something. -/
  | asked (command : H3Command)
  /-- A tunnel was written to. -/
  | wrote (raw : RawWrite)
  /-- The handle took an event. -/
  | heard
  /-- The handle went away. -/
  | orphaned
  /-- What a tunnel delivered was read. -/
  | drained (id : ℕ)
  /-- A tunnel was dropped. -/
  | hungUp (id : ℕ)
  /-- The wait ended with a command. -/
  | waitedCommand
  /-- The wait ended with a raw write. -/
  | waitedRaw
  /-- The driver had streams read. -/
  | reads (readable : List ℕ)
  /-- The driver had what is waiting written. -/
  | writes (expired : Bool)

/-- What a worker does on it. -/
def take (world : World) : Input → Step Unit
  | .established secure => onConnEstablished secure
  | .asked command => Act.modify fun w => { w with commands := w.commands ++ [command] }
  | .wrote raw => Act.modify fun w => { w with rawWrites := w.rawWrites ++ [raw] }
  | .heard => Act.modify fun w => { w with events := { w.events with room := w.events.room + 1 } }
  | .orphaned => Act.modify fun w => { w with events := { w.events with closed := true } }
  | .drained id => Act.modify fun w => { w with
      tunnels := w.tunnels.modify id fun sink => { sink with room := sink.room + 1 } }
  | .hungUp id => Act.modify fun w => { w with
      tunnels := w.tunnels.modify id fun sink => { sink with closed := true } }
  | .waitedCommand => waitCommand
  | .waitedRaw => waitRaw
  | .reads readable => processReads world readable
  | .writes expired => processWrites world expired

/-- What a run leaves. The driver drops a worker that failed; whatever holds where it goes
    on holds where it does not. -/
def after (world : World) (w : H3Worker) : List Input → H3Worker
  | [] => w
  | input :: inputs => after world ((take world input).run w).2 inputs

end H3Worker

end Soyokaze

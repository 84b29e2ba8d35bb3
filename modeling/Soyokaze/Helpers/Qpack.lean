import Soyokaze.Helpers.QpackTable
import Soyokaze.Helpers.StringLiteral

/-!
# QPACK

The encoder changes the decoder's table through instructions on a stream of its
own, apart from the field sections that name the entries; the decoder answers
on another. A section carries the insert count it needs, wrapped (`Prefix`).

* `EncoderInstruction.spells`, `DecoderInstruction.spells`: what is written of
  an instruction is read back, however it is cut;
* `Prefix.decode_encode`: the insert count is recovered by a decoder that is
  within the window it could have come from.
-/

namespace Soyokaze.Qpack

open Framing

/-- Why a field block or an instruction would not decode. -/
inductive Error
  | indexOutOfRange (index : ℕ)
  | integerOverflow
  | invalidCapacityUpdate
  | invalidInsertCount
  | invalidBase
  | entryTooLarge
  | instructionTooLarge
  | tooManyBlockedStreams
  | incomplete
  | blocked
  | huffman (error : Huffman.DecodeError)
  | decodedSizeExceeded
  deriving DecidableEq

/-- The error of a wire primitive, as one of QPACK. -/
def Error.ofFields : Fields.WireError → Error
  | .integerOverflow => .integerOverflow
  | .incomplete => .incomplete
  | .huffman error => .huffman error

/-- Reads an integer. -/
def integer (input : Octets) (prefixBits : ℕ) : Except Error (ℕ × ℕ) :=
  (Integer.decode input prefixBits).mapError .ofFields

/-- Reads a string. -/
def string (input : Octets) (prefixBits : ℕ) : Except Error (ℕ × Octets) :=
  (StringLiteral.decode input prefixBits).mapError .ofFields

/-- Reads a string straight into a text. -/
def text (input : Octets) (prefixBits : ℕ) : Except Error (ℕ × Text) :=
  (StringLiteral.decodeText input prefixBits).mapError .ofFields

/-- A flag, as a bit of an octet. -/
def bit (b : Bool) : UInt8 := if b then 1 else 0

/-! ## Instructions -/

/-- An instruction the encoder sends on its unidirectional stream. -/
inductive EncoderInstruction
  | setDynamicTableCapacity (capacity : ℕ)
  | insertWithNameReference (fromStatic : Bool) (nameIndex : ℕ) (value : Octets)
  | insertWithLiteralName (name value : Octets)
  | duplicate (index : ℕ)
  deriving DecidableEq

namespace EncoderInstruction

/-- Encodes the instruction. -/
def encode : EncoderInstruction → Octets
  | .setDynamicTableCapacity capacity => Integer.encode capacity 5 0x20
  | .insertWithNameReference fromStatic nameIndex value =>
    Integer.encode nameIndex 6 ((0x80 : UInt8) ||| bit fromStatic <<< 6) ++
      StringLiteral.encodeShorter value 7 0x00
  | .insertWithLiteralName name value =>
    StringLiteral.encodeShorter name 5 0x40 ++ StringLiteral.encodeShorter value 7 0x00
  | .duplicate index => Integer.encode index 5 0x00

/-- Reads one instruction. -/
def decode (input : Octets) : Except Error (ℕ × EncoderInstruction) :=
  match input with
  | [] => .error .incomplete
  | first :: _ =>
    if first &&& 0x80 ≠ 0 then do
      let (consumed, nameIndex) ← integer input 6
      let (taken, value) ← string (input.drop consumed) 7
      .ok (consumed + taken, .insertWithNameReference (first &&& 0x40 ≠ 0) nameIndex value)
    else if first &&& 0x40 ≠ 0 then do
      let (consumed, name) ← string input 5
      let (taken, value) ← string (input.drop consumed) 7
      .ok (consumed + taken, .insertWithLiteralName name value)
    else if first &&& 0x20 ≠ 0 then do
      let (consumed, capacity) ← integer input 5
      .ok (consumed, .setDynamicTableCapacity capacity)
    else do
      let (consumed, index) ← integer input 5
      .ok (consumed, .duplicate index)

end EncoderInstruction

/-- An instruction the decoder sends back on its unidirectional stream. -/
inductive DecoderInstruction
  | sectionAcknowledgment (streamId : ℕ)
  | streamCancellation (streamId : ℕ)
  | insertCountIncrement (increment : ℕ)
  deriving DecidableEq

namespace DecoderInstruction

/-- Encodes the instruction. -/
def encode : DecoderInstruction → Octets
  | .sectionAcknowledgment streamId => Integer.encode streamId 7 0x80
  | .streamCancellation streamId => Integer.encode streamId 6 0x40
  | .insertCountIncrement increment => Integer.encode increment 6 0x00

/-- Reads one instruction. -/
def decode (input : Octets) : Except Error (ℕ × DecoderInstruction) :=
  match input with
  | [] => .error .incomplete
  | first :: _ =>
    if first &&& 0x80 ≠ 0 then do
      let (consumed, streamId) ← integer input 7
      .ok (consumed, .sectionAcknowledgment streamId)
    else if first &&& 0x40 ≠ 0 then do
      let (consumed, streamId) ← integer input 6
      .ok (consumed, .streamCancellation streamId)
    else do
      let (consumed, increment) ← integer input 6
      .ok (consumed, .insertCountIncrement increment)

end DecoderInstruction

/-! ## The section prefix -/

/-- Addition of `u64`s that stops at the largest. -/
def saturatingAdd (a b : ℕ) : ℕ := min (a + b) MAX

namespace Prefix

/-- The most entries a table of this capacity could ever hold. -/
def maxEntries (maxCapacity : ℕ) : ℕ := maxCapacity / HeaderField.OVERHEAD

/-- The index a field block uses to name an absolute entry, counted back from `base`. -/
def relative (base absolute : ℕ) : ℕ := base - absolute - 1

/-- Encodes the required insert count that leads a field block. -/
def encodeInsertCount (required maxCapacity : ℕ) : ℕ :=
  let fullRange := 2 * maxEntries maxCapacity
  if required = 0 ∨ fullRange = 0 then 0 else required % fullRange + 1

/-- Recovers the required insert count from its wrapped form. -/
def decodeInsertCount (encoded inserted maxCapacity : ℕ) : Except Error ℕ :=
  if encoded = 0 then .ok 0
  else
    let fullRange := 2 * maxEntries maxCapacity
    if fullRange = 0 ∨ fullRange < encoded then .error .invalidInsertCount
    else
      let maxValue := saturatingAdd inserted (maxEntries maxCapacity)
      let maxWrapped := maxValue / fullRange * fullRange
      let required := saturatingAdd maxWrapped encoded - 1
      if maxValue < required ∧ required ≤ fullRange then .error .invalidInsertCount
      else
        let required := if maxValue < required then required - fullRange else required
        if required = 0 then .error .invalidInsertCount else .ok required

end Prefix

/-! ## The encoder -/

/-- One field section an encoder has sent and is still waiting on: the entries it
    names run from `floor` up to, but not including, `required`. -/
structure Section where
  streamId : ℕ
  required : ℕ
  floor : ℕ
  deriving DecidableEq

/-- A reference to an entry: whether it is in the static table, its index, and
    whether the value matched as well as the name. -/
abbrev Reference := Bool × ℕ × Bool

/-- The sending half of one direction of a connection. -/
structure Encoder where
  dynamicTable : DynamicTable
  knownReceivedCount : ℕ
  maxCapacity : ℕ
  capacityLimit : ℕ
  maxOutstandingSections : ℕ
  maxInstructionSize : ℕ
  sections : List Section
  sectionFloor : ℕ
  streamOut : Octets
  streamRecv : Octets

namespace Encoder

/-- The capacity an encoder is willing to keep, whatever the peer permits. -/
def DEFAULT_CAPACITY_LIMIT : ℕ := 4096
/-- The unacknowledged sections an encoder tracks until told otherwise. -/
def DEFAULT_MAX_OUTSTANDING_SECTIONS : ℕ := 512
/-- The size a single buffered instruction may grow to until told otherwise. -/
def DEFAULT_MAX_INSTRUCTION_SIZE : ℕ := 64 * 1024

/-- An encoder with an empty table. -/
def new : Encoder where
  dynamicTable := .new 0
  knownReceivedCount := 0
  maxCapacity := DynamicTable.DEFAULT_CAPACITY
  capacityLimit := DEFAULT_CAPACITY_LIMIT
  maxOutstandingSections := DEFAULT_MAX_OUTSTANDING_SECTIONS
  maxInstructionSize := DEFAULT_MAX_INSTRUCTION_SIZE
  sections := []
  sectionFloor := MAX
  streamOut := []
  streamRecv := []

/-- Bounds how many unacknowledged sections the encoder will track. -/
def setMaxOutstandingSections (e : Encoder) (maxSections : ℕ) : Encoder :=
  { e with maxOutstandingSections := maxSections }

/-- Bounds how large a single instruction on the peer's decoder stream may grow. -/
def setMaxInstructionSize (e : Encoder) (maxSize : ℕ) : Encoder := { e with maxInstructionSize := maxSize }

/-- Queues instructions for this end's encoder stream. -/
def queue (e : Encoder) (instructions : List EncoderInstruction) : Encoder :=
  { e with streamOut := e.streamOut ++ instructions.flatMap (·.encode) }

/-- Takes the octets queued for this end's encoder stream. -/
def takeEncoderStream (e : Encoder) : Encoder × Octets := ({ e with streamOut := [] }, e.streamOut)

/-- The lowest absolute index any section still in flight names. -/
def referenced (e : Encoder) : ℕ :=
  min (((e.sections.map (·.floor)).min?).getD MAX) e.sectionFloor

/-- The reference to use for a field, given what each table has for it, and
    whether an exact copy exists at all. -/
def choose (inStatic : Option (ℕ × Bool)) (tracked : Bool) (found : Option (ℕ × Bool) × Bool) :
    Option Reference × Bool :=
  let named := inStatic.map fun (index, _) => (true, index, false)
  match inStatic with
  | some (index, true) => (some (true, index, true), true)
  | _ =>
    if !tracked then (named, false)
    else
      match found with
      | (some (absolute, true), anywhere) => (some (false, absolute, true), anywhere)
      | (dynamic, anywhere) =>
        (named.or (dynamic.map fun (absolute, _) => (false, absolute, false)), anywhere)

/-- The instruction that tells the peer to insert a field. -/
def insertion (e : Encoder) (field : HeaderField) : Option Reference → EncoderInstruction
  | some (true, index, _) => .insertWithNameReference true index field.value.octets
  | some (false, index, _) =>
    .insertWithNameReference false (e.dynamicTable.insertedCount - index - 1) field.value.octets
  | none => .insertWithLiteralName field.name.octets field.value.octets

/-- Adds a field to the table and queues the instruction that tells the peer to
    do the same, unless making room for it would evict an entry a section still
    in flight names. -/
def insert (e : Encoder) (field : HeaderField) (reference : Option Reference) : Encoder × Bool :=
  if h : e.dynamicTable.admits field e.referenced = true then
    ({ e with
        dynamicTable := e.dynamicTable.insert field (((DynamicTable.admits_spec _ _ _).1 h).1)
        streamOut := e.streamOut ++ (e.insertion field reference).encode }, true)
  else (e, false)

/-- Records a reference: the encoder, with the floor of the section it is writing
    lowered to the entry named, and the insert count required so far. -/
def record (e : Encoder) (required : ℕ) : Option Reference → Encoder × ℕ
  | some (false, absolute, _) =>
    ({ e with sectionFloor := min e.sectionFloor absolute }, max required (saturatingAdd absolute 1))
  | _ => (e, required)

/-- Settles the reference chosen for one field. It is recorded before anything is
    inserted, so that the insertion sees this field's entry as one it may not
    evict. -/
def settle (tracked : Bool) (e : Encoder) (required : ℕ) (field : HeaderField)
    (chosen : Option Reference × Bool) : Encoder × ℕ × Option Reference :=
  let recorded := e.record required chosen.1
  let e := if tracked && !chosen.2 && !field.sensitive then (recorded.1.insert field chosen.1).1
    else recorded.1
  (e, recorded.2, chosen.1)

/-- Settles the reference for one field, and inserts the field where that is
    worth it: the encoder, the insert count required so far, and the reference. -/
def refer (tracked : Bool) (e : Encoder) (required : ℕ) (field : HeaderField) :
    Encoder × ℕ × Option Reference :=
  settle tracked e required field
    (choose (StaticTable.find field) tracked (e.dynamicTable.probe field e.knownReceivedCount))

/-- Settles the references of a section, in order. -/
def referAll (tracked : Bool) : Encoder → ℕ → List HeaderField → Encoder × ℕ × List (Option Reference)
  | e, required, [] => (e, required, [])
  | e, required, field :: fields =>
    let one := refer tracked e required field
    let rest := referAll tracked one.1 one.2.1 fields
    (rest.1, rest.2.1, one.2.2 :: rest.2.2)

/-- Writes one field representation against `base`. -/
def encodeField (field : HeaderField) (reference : Option Reference) (base : ℕ) : Octets :=
  let never := bit field.sensitive
  match reference with
  | some (true, index, true) => Integer.encode index 6 0xc0
  | some (false, absolute, true) => Integer.encode (Prefix.relative base absolute) 6 0x80
  | some (true, index, false) =>
    Integer.encode index 4 ((0x50 : UInt8) ||| never <<< 5) ++ StringLiteral.encodeShorter field.value.octets 7 0x00
  | some (false, absolute, false) =>
    Integer.encode (Prefix.relative base absolute) 4 ((0x40 : UInt8) ||| never <<< 5) ++
      StringLiteral.encodeShorter field.value.octets 7 0x00
  | none =>
    StringLiteral.encodeShorter field.name.octets 3 ((0x20 : UInt8) ||| never <<< 4) ++
      StringLiteral.encodeShorter field.value.octets 7 0x00

/-- The representations of a section, in order. -/
def encodeFields (base : ℕ) : List HeaderField → List (Option Reference) → Octets
  | field :: fields, reference :: references =>
    encodeField field reference base ++ encodeFields base fields references
  | _, _ => []

/-- Encodes a field block for a stream. -/
def encode (e : Encoder) (streamId : ℕ) (headers : List HeaderField) : Encoder × Octets :=
  let tracked := e.sections.length < e.maxOutstandingSections
  let (e, required, references) := referAll tracked { e with sectionFloor := MAX } 0 headers
  let out := Integer.encode (Prefix.encodeInsertCount required e.maxCapacity) 8 0x00 ++
    Integer.encode 0 7 0x00 ++ encodeFields required headers references
  let sections := if 0 < required then e.sections ++ [⟨streamId, required, e.sectionFloor⟩] else e.sections
  ({ e with sections := sections, sectionFloor := MAX }, out)

/-- Forgets the sections on a stream that will never be acknowledged. -/
def cancel (e : Encoder) (streamId : ℕ) : Encoder :=
  { e with sections := e.sections.filter (·.streamId != streamId) }

/-- Takes in one instruction from the peer's decoder stream. -/
def onDecoderInstruction (e : Encoder) : DecoderInstruction → Encoder
  | .sectionAcknowledgment streamId =>
    match e.sections.find? (·.streamId == streamId) with
    | some acknowledged =>
      { e with
        sections := e.sections.eraseP (·.streamId == streamId)
        knownReceivedCount := max e.knownReceivedCount acknowledged.required }
    | none => e
  | .insertCountIncrement increment =>
    { e with knownReceivedCount := saturatingAdd e.knownReceivedCount increment }
  | .streamCancellation streamId => e.cancel streamId

/-- Takes in octets from the peer's decoder stream. -/
def onDecoderStream (e : Encoder) (bytes : Octets) : Encoder × Option Error :=
  let buffer := e.streamRecv ++ bytes
  if e.maxInstructionSize < buffer.length then ({ e with streamRecv := buffer }, some .instructionTooLarge)
  else
    let (e, buffer, error) := drain DecoderInstruction.decode (· == .incomplete)
      (fun e instruction => (onDecoderInstruction e instruction, none)) (buffer.length + 1) e buffer
    ({ e with streamRecv := buffer }, error)

/-- Sets the ceiling the peer advertised, and resizes the table under it. -/
def setMaxCapacity (e : Encoder) (maxCapacity : ℕ) : Encoder × Option EncoderInstruction :=
  let capacity := min maxCapacity e.capacityLimit
  if capacity = e.dynamicTable.capacity then ({ e with maxCapacity := maxCapacity }, none)
  else
    ({ e with maxCapacity := maxCapacity, dynamicTable := e.dynamicTable.setCapacity capacity },
      some (.setDynamicTableCapacity capacity))

/-- Bounds the capacity this encoder keeps, whatever the peer permits. -/
def setCapacityLimit (e : Encoder) (capacityLimit : ℕ) : Encoder × Option EncoderInstruction :=
  let capacity := min e.maxCapacity capacityLimit
  if e.dynamicTable.capacity ≤ capacity then ({ e with capacityLimit := capacityLimit }, none)
  else
    ({ e with capacityLimit := capacityLimit, dynamicTable := e.dynamicTable.setCapacity capacity },
      some (.setDynamicTableCapacity capacity))

end Encoder

/-! ## The decoder -/

/-- The receiving half of one direction of a connection. -/
structure Decoder where
  dynamicTable : DynamicTable
  maxCapacity : ℕ
  maxDecodedSize : ℕ
  maxInstructionSize : ℕ
  maxBlockedStreams : ℕ
  /-- The streams whose blocks are held, with the insert count each waits for. -/
  blocked : List (ℕ × ℕ)
  streamOut : Octets
  streamRecv : Octets

namespace Decoder

/-- The dynamic table capacity a decoder advertises and is willing to hold. -/
def DEFAULT_MAX_CAPACITY : ℕ := 4096
/-- The decoded field list size a decoder accepts until told otherwise. -/
def DEFAULT_MAX_DECODED_SIZE : ℕ := 64 * 1024
/-- The size a single buffered instruction may grow to until told otherwise. -/
def DEFAULT_MAX_INSTRUCTION_SIZE : ℕ := 64 * 1024
/-- The blocked streams a decoder holds itself to until told otherwise. -/
def DEFAULT_MAX_BLOCKED_STREAMS : ℕ := 16

/-- A decoder with an empty table. -/
def new : Decoder where
  dynamicTable := .new DEFAULT_MAX_CAPACITY
  maxCapacity := DEFAULT_MAX_CAPACITY
  maxDecodedSize := DEFAULT_MAX_DECODED_SIZE
  maxInstructionSize := DEFAULT_MAX_INSTRUCTION_SIZE
  maxBlockedStreams := DEFAULT_MAX_BLOCKED_STREAMS
  blocked := []
  streamOut := []
  streamRecv := []

/-- Bounds the decoded size of one field block. -/
def setMaxDecodedSize (d : Decoder) (maxSize : ℕ) : Decoder := { d with maxDecodedSize := maxSize }

/-- Bounds how large a single instruction on the peer's encoder stream may grow. -/
def setMaxInstructionSize (d : Decoder) (maxSize : ℕ) : Decoder := { d with maxInstructionSize := maxSize }

/-- Bounds how many streams may be blocked at once. -/
def setMaxBlockedStreams (d : Decoder) (maxStreams : ℕ) : Decoder := { d with maxBlockedStreams := maxStreams }

/-- Sets the ceiling this end advertises. -/
def setMaxCapacity (d : Decoder) (maxCapacity : ℕ) : Decoder :=
  if maxCapacity < d.dynamicTable.capacity then
    { d with maxCapacity := maxCapacity, dynamicTable := d.dynamicTable.setCapacity maxCapacity }
  else { d with maxCapacity := maxCapacity }

/-- Queues instructions for this end's decoder stream. -/
def queue (d : Decoder) (instructions : List DecoderInstruction) : Decoder :=
  { d with streamOut := d.streamOut ++ instructions.flatMap (·.encode) }

/-- Takes the octets queued for this end's decoder stream. -/
def takeDecoderStream (d : Decoder) : Decoder × Octets := ({ d with streamOut := [] }, d.streamOut)

/-- Forgets the blocked state of a stream that was reset or abandoned. -/
def cancel (d : Decoder) (streamId : ℕ) : Decoder :=
  { d with blocked := d.blocked.filter (·.1 != streamId) }

/-- The streams whose held blocks have stopped being blocked. -/
def unblocked (d : Decoder) : List ℕ :=
  (d.blocked.filter fun b => decide (b.2 ≤ d.dynamicTable.insertedCount)).map (·.1)

/-- The entry an absolute index names. -/
def entryAt (t : DynamicTable) (index : ℕ) (absolute : Option ℕ) : Except Error HeaderField :=
  match absolute with
  | none => .error (.indexOutOfRange index)
  | some absolute =>
    match t.get absolute with
    | none => .error (.indexOutOfRange absolute)
    | some field => .ok field

/-- The static table entry at an index. -/
def staticAt (index : ℕ) : Except Error HeaderField :=
  match StaticTable.entries[index]? with
  | none => .error (.indexOutOfRange index)
  | some field => .ok field

/-- The field an instruction inserts. -/
def inserted (t : DynamicTable) : EncoderInstruction → Except Error (Option HeaderField)
  | .setDynamicTableCapacity _ => .ok none
  | .insertWithNameReference true nameIndex value => do
    let field ← staticAt nameIndex
    .ok (some ⟨field.name, .fromUtf8Lossy value⟩)
  | .insertWithNameReference false nameIndex value => do
    let field ← entryAt t nameIndex (t.relative nameIndex)
    .ok (some ⟨field.name, .fromUtf8Lossy value⟩)
  | .insertWithLiteralName name value => .ok (some ⟨.fromUtf8Lossy name, .fromUtf8Lossy value⟩)
  | .duplicate index => do
    let field ← entryAt t index (t.relative index)
    .ok (some field)

/-- Applies one instruction from the peer's encoder stream: the table it leaves,
    and the instruction to send back, if the peer should be told. -/
def onEncoderInstruction (d : Decoder) (instruction : EncoderInstruction) :
    Except Error (Decoder × Option DecoderInstruction) :=
  match instruction with
  | .setDynamicTableCapacity capacity =>
    if d.maxCapacity < capacity then .error .invalidCapacityUpdate
    else .ok ({ d with dynamicTable := d.dynamicTable.setCapacity capacity }, none)
  | instruction => do
    match ← inserted d.dynamicTable instruction with
    | none => .ok (d, none)
    | some field =>
      if h : d.dynamicTable.fits field = true then
        .ok ({ d with dynamicTable := d.dynamicTable.insert field h }, some (.insertCountIncrement 1))
      else .error .entryTooLarge

/-- Applies one instruction and queues the answer it calls for. -/
def applyInstruction (d : Decoder) (instruction : EncoderInstruction) : Decoder × Option Error :=
  match d.onEncoderInstruction instruction with
  | .error e => (d, some e)
  | .ok (d, answer) => (d.queue answer.toList, none)

/-- Takes in octets from the peer's encoder stream. -/
def onEncoderStream (d : Decoder) (bytes : Octets) : Decoder × Option Error :=
  let buffer := d.streamRecv ++ bytes
  if d.maxInstructionSize < buffer.length then ({ d with streamRecv := buffer }, some .instructionTooLarge)
  else
    let (d, buffer, error) := drain EncoderInstruction.decode (· == .incomplete) applyInstruction
      (buffer.length + 1) d buffer
    ({ d with streamRecv := buffer }, error)

/-- Resolves a field reference from a field block. -/
def resolve (t : DynamicTable) (fromStatic : Bool) (base index : ℕ) : Except Error HeaderField :=
  if fromStatic then staticAt index else entryAt t index (t.indexed base index)

/-- Decodes the field representation at the front. -/
def decodeField (t : DynamicTable) (base : ℕ) (first : UInt8) (rest : Octets) :
    Except Error (ℕ × HeaderField) :=
  if first &&& 0x80 ≠ 0 then do
    let (consumed, index) ← integer rest 6
    let field ← resolve t (first &&& 0x40 ≠ 0) base index
    .ok (consumed, field)
  else if first &&& 0x40 ≠ 0 then do
    let (consumed, index) ← integer rest 4
    let field ← resolve t (first &&& 0x10 ≠ 0) base index
    let (taken, value) ← text (rest.drop consumed) 7
    .ok (consumed + taken, ⟨field.name, value⟩)
  else if first &&& 0x20 ≠ 0 then do
    let (consumed, name) ← text rest 3
    let (taken, value) ← text (rest.drop consumed) 7
    .ok (consumed + taken, ⟨name, value⟩)
  else if first &&& 0x10 ≠ 0 then do
    let (consumed, index) ← integer rest 4
    let field ← entryAt t index (t.postBase base index)
    .ok (consumed, field)
  else do
    let (consumed, index) ← integer rest 3
    let field ← entryAt t index (t.postBase base index)
    let (taken, value) ← text (rest.drop consumed) 7
    .ok (consumed + taken, ⟨field.name, value⟩)

/-- Decodes representations until none is left. Every one takes an octet at
    least, which is what the fuel counts. -/
def decodeFields (t : DynamicTable) (maxDecodedSize base : ℕ) :
    ℕ → Octets → List HeaderField → ℕ → Except Error (List HeaderField)
  | 0, _, headers, _ => .ok headers
  | _ + 1, [], headers, _ => .ok headers
  | fuel + 1, first :: rest, headers, decodedSize => do
    let (consumed, field) ← decodeField t base first (first :: rest)
    let decodedSize := decodedSize + field.size
    if maxDecodedSize < decodedSize then .error .decodedSizeExceeded
    else decodeFields t maxDecodedSize base fuel ((first :: rest).drop consumed) (headers ++ [field]) decodedSize

/-- The base of a section, from the sign and the delta behind the insert count. -/
def base (required : ℕ) (block : Octets) (consumed : ℕ) : Except Error (ℕ × ℕ) :=
  match block[consumed]? with
  | none => .error .incomplete
  | some sign => do
    let (taken, delta) ← integer (block.drop consumed) 7
    if sign &&& 0x80 ≠ 0 then
      if MAX < delta + 1 ∨ required < delta + 1 then .error .invalidBase
      else .ok (consumed + taken, required - (delta + 1))
    else if MAX < required + delta then .error .integerOverflow
    else .ok (consumed + taken, required + delta)

/-- Decodes a field block that arrived on a stream: the fields, and the
    acknowledgement to send back, if one is owed. -/
def decode (d : Decoder) (streamId : ℕ) (block : Octets) :
    Decoder × Except Error (List HeaderField × Option DecoderInstruction) :=
  let count := do
    let (consumed, encoded) ← integer block 8
    let required ← Prefix.decodeInsertCount encoded d.dynamicTable.insertedCount d.maxCapacity
    .ok (consumed, required)
  match count with
  | .error e => (d, .error e)
  | .ok (consumed, required) =>
    if d.dynamicTable.insertedCount < required then
      if !d.blocked.any (·.1 == streamId) && d.maxBlockedStreams ≤ d.blocked.length then
        (d, .error .tooManyBlockedStreams)
      else
        ({ d with blocked := (streamId, required) :: d.blocked.filter (·.1 != streamId) }, .error .blocked)
    else
      (d.cancel streamId, do
        let (consumed, base) ← base required block consumed
        let rest := block.drop consumed
        let headers ← decodeFields d.dynamicTable d.maxDecodedSize base rest.length rest [] 0
        .ok (headers, if 0 < required then some (.sectionAcknowledgment streamId) else none))

end Decoder

/-! ## The codecs -/

theorem spells_integer (value prefixBits : ℕ) (flags : UInt8) (hb : prefixBits ≤ 8)
    (hf : flags.toNat &&& Integer.limit prefixBits = 0) (hv : value < 2 ^ 64) :
    Spells (fun input => integer input prefixBits) .incomplete (Integer.encode value prefixBits flags) value :=
  (Integer.spells hb hf hv).mapError (f := Error.ofFields)

theorem spells_string (value : Octets) (prefixBits : ℕ) (flags : UInt8) (hb : prefixBits ≤ 7)
    (hf : flags.toNat &&& Integer.limit (prefixBits + 1) = 0) (hv : value.length < 2 ^ 64) :
    Spells (fun input => string input prefixBits) .incomplete
      (StringLiteral.encodeShorter value prefixBits flags) value :=
  (StringLiteral.spells_octets hb hf hv).mapError (f := Error.ofFields)

theorem spells_text (value : Text) (prefixBits : ℕ) (flags : UInt8) (hb : prefixBits ≤ 7)
    (hf : flags.toNat &&& Integer.limit (prefixBits + 1) = 0) (hv : value.len < 2 ^ 64) :
    Spells (fun input => text input prefixBits) .incomplete
      (StringLiteral.encodeShorter value.octets prefixBits flags) value :=
  (StringLiteral.spells hb hf hv).mapError (f := Error.ofFields)

namespace DecoderInstruction

/-- The number an instruction carries. -/
def number : DecoderInstruction → ℕ
  | .sectionAcknowledgment streamId => streamId
  | .streamCancellation streamId => streamId
  | .insertCountIncrement increment => increment

/-- The bits of a first octet that say which instruction it begins. -/
theorem kind_of_acknowledgment {n : ℕ} (h : n ≤ Integer.limit 7) :
    (0x80 ||| UInt8.ofNat n) &&& 0x80 ≠ 0 := by
  have : n < 128 := Nat.lt_succ_of_le h
  revert n
  decide

theorem kind_of_cancellation {n : ℕ} (h : n ≤ Integer.limit 6) :
    (0x40 ||| UInt8.ofNat n) &&& 0x80 = 0 ∧ (0x40 ||| UInt8.ofNat n) &&& 0x40 ≠ 0 := by
  have : n < 64 := Nat.lt_succ_of_le h
  revert n
  decide

theorem kind_of_increment {n : ℕ} (h : n ≤ Integer.limit 6) :
    (0x00 ||| UInt8.ofNat n) &&& 0x80 = 0 ∧ (0x00 ||| UInt8.ofNat n) &&& 0x40 = 0 := by
  have : n < 64 := Nat.lt_succ_of_le h
  revert n
  decide

/-- What is written of an instruction is read back, however it is cut. -/
theorem spells {i : DecoderInstruction} (hi : i.number < 2 ^ 64) :
    Spells decode .incomplete i.encode i := by
  cases i with
  | sectionAcknowledgment streamId =>
    have h := (spells_integer _ 7 0x80 (by decide) (by decide) hi).map
      (f := DecoderInstruction.sectionAcknowledgment)
    obtain ⟨n, tail, hn, he⟩ := Integer.head_encode streamId 7 0x80
    rw [number, he] at h
    rw [encode, he]
    exact h.congr_head rfl fun rest => by rw [decode, if_pos (kind_of_acknowledgment hn)]
  | streamCancellation streamId =>
    have h := (spells_integer _ 6 0x40 (by decide) (by decide) hi).map
      (f := DecoderInstruction.streamCancellation)
    obtain ⟨n, tail, hn, he⟩ := Integer.head_encode streamId 6 0x40
    obtain ⟨h80, h40⟩ := kind_of_cancellation hn
    rw [number, he] at h
    rw [encode, he]
    exact h.congr_head rfl fun rest => by rw [decode, if_neg (not_not_intro h80), if_pos h40]
  | insertCountIncrement increment =>
    have h := (spells_integer _ 6 0x00 (by decide) (by decide) hi).map
      (f := DecoderInstruction.insertCountIncrement)
    obtain ⟨n, tail, hn, he⟩ := Integer.head_encode increment 6 0x00
    obtain ⟨h80, h40⟩ := kind_of_increment hn
    rw [number, he] at h
    rw [encode, he]
    exact h.congr_head rfl fun rest => by rw [decode, if_neg (not_not_intro h80), if_neg (not_not_intro h40)]

theorem encode_ne_nil (i : DecoderInstruction) : i.encode ≠ [] := by
  cases i <;> exact Integer.encode_ne_nil _ _ _

end DecoderInstruction

namespace EncoderInstruction

/-- The numbers and strings an instruction carries are within a word. -/
def Bounded : EncoderInstruction → Prop
  | .setDynamicTableCapacity capacity => capacity < 2 ^ 64
  | .insertWithNameReference _ nameIndex value => nameIndex < 2 ^ 64 ∧ value.length < 2 ^ 64
  | .insertWithLiteralName name value => name.length < 2 ^ 64 ∧ value.length < 2 ^ 64
  | .duplicate index => index < 2 ^ 64

theorem kind_of_name_reference {n : ℕ} (h : n ≤ Integer.limit 6) (fromStatic : Bool) :
    ((0x80 : UInt8) ||| bit fromStatic <<< 6 ||| UInt8.ofNat n) &&& 0x80 ≠ 0 ∧
      (((0x80 : UInt8) ||| bit fromStatic <<< 6 ||| UInt8.ofNat n) &&& 0x40 ≠ 0 ↔ fromStatic = true) := by
  have : n < 64 := Nat.lt_succ_of_le h
  cases fromStatic <;> revert n <;> decide

theorem kind_of_capacity {n : ℕ} (h : n ≤ Integer.limit 5) :
    (0x20 ||| UInt8.ofNat n) &&& 0x80 = 0 ∧ (0x20 ||| UInt8.ofNat n) &&& 0x40 = 0 ∧
      (0x20 ||| UInt8.ofNat n) &&& 0x20 ≠ 0 := by
  have : n < 32 := Nat.lt_succ_of_le h
  revert n
  decide

theorem kind_of_duplicate {n : ℕ} (h : n ≤ Integer.limit 5) :
    (0x00 ||| UInt8.ofNat n) &&& 0x80 = 0 ∧ (0x00 ||| UInt8.ofNat n) &&& 0x40 = 0 ∧
      (0x00 ||| UInt8.ofNat n) &&& 0x20 = 0 := by
  have : n < 32 := Nat.lt_succ_of_le h
  revert n
  decide

/-- What is written of an instruction is read back, however it is cut. -/
theorem spells {i : EncoderInstruction} (hi : i.Bounded) : Spells decode .incomplete i.encode i := by
  cases i with
  | setDynamicTableCapacity capacity =>
    have h := (spells_integer _ 5 0x20 (by decide) (by decide) hi).map
      (f := EncoderInstruction.setDynamicTableCapacity)
    obtain ⟨n, tail, hn, he⟩ := Integer.head_encode capacity 5 0x20
    obtain ⟨h80, h40, h20⟩ := kind_of_capacity hn
    rw [he] at h
    rw [encode, he]
    exact h.congr_head rfl fun rest => by
      rw [decode, if_neg (not_not_intro h80), if_neg (not_not_intro h40), if_pos h20]
  | insertWithNameReference fromStatic nameIndex value =>
    have h := (spells_integer _ 6 ((0x80 : UInt8) ||| bit fromStatic <<< 6)
      (by decide) (by cases fromStatic <;> decide) hi.1).andThen
        (fun nameIndex input => do
          let (n, value) ← string input 7
          .ok (n, EncoderInstruction.insertWithNameReference fromStatic nameIndex value))
        ((spells_string _ 7 0 (by decide) (by decide) hi.2).map)
    obtain ⟨n, tail, hn, he⟩ := Integer.head_encode nameIndex 6 ((0x80 : UInt8) ||| bit fromStatic <<< 6)
    obtain ⟨h80, h40⟩ := kind_of_name_reference hn fromStatic
    rw [he] at h
    rw [encode, he]
    refine h.congr_head rfl fun rest => ?_
    rw [decode, if_pos h80]
    simp only [h40, Bool.decide_eq_true, bind, Except.bind]
    cases integer _ 6 with
    | error e => rfl
    | ok read =>
      dsimp only
      cases string (List.drop read.1 _) 7 <;> rfl
  | insertWithLiteralName name value =>
    have h := (spells_string _ 5 0x40 (by decide) (by decide) hi.1).andThen
        (fun name input => do
          let (n, value) ← string input 7
          .ok (n, EncoderInstruction.insertWithLiteralName name value))
        ((spells_string _ 7 0 (by decide) (by decide) hi.2).map)
    obtain ⟨n, tail, hn, he⟩ := StringLiteral.head_encodeShorter name 5 0x40 (by decide)
    obtain ⟨h80, h40⟩ := DecoderInstruction.kind_of_cancellation hn
    rw [he] at h
    rw [encode, he]
    refine h.congr_head rfl fun rest => ?_
    rw [decode, if_neg (not_not_intro h80), if_pos h40]
    simp only [bind, Except.bind]
    cases string _ 5 with
    | error e => rfl
    | ok read =>
      dsimp only
      cases string (List.drop read.1 _) 7 <;> rfl
  | duplicate index =>
    have h := (spells_integer _ 5 0x00 (by decide) (by decide) hi).map
      (f := EncoderInstruction.duplicate)
    obtain ⟨n, tail, hn, he⟩ := Integer.head_encode index 5 0x00
    obtain ⟨h80, h40, h20⟩ := kind_of_duplicate hn
    rw [he] at h
    rw [encode, he]
    exact h.congr_head rfl fun rest => by
      rw [decode, if_neg (not_not_intro h80), if_neg (not_not_intro h40), if_neg (not_not_intro h20)]

theorem encode_ne_nil (i : EncoderInstruction) : i.encode ≠ [] := by
  cases i <;> simp [encode, Integer.encode_ne_nil, StringLiteral.encodeShorter_ne_nil]

end EncoderInstruction

namespace Prefix

/-- A decoder within the window of an insert count recovers it. -/
theorem decode_encode {required inserted maxCapacity : ℕ} (hr : 0 < required)
    (hm : 0 < maxEntries maxCapacity) (hlo : inserted < required + maxEntries maxCapacity)
    (hhi : required ≤ inserted + maxEntries maxCapacity)
    (hw : inserted + 3 * maxEntries maxCapacity ≤ MAX) :
    decodeInsertCount (encodeInsertCount required maxCapacity) inserted maxCapacity = .ok required := by
  generalize hM : maxEntries maxCapacity = M at *
  have he : encodeInsertCount required maxCapacity = required % (2 * M) + 1 := by
    rw [encodeInsertCount, hM, if_neg (by omega)]
  have hmod := Nat.mod_lt required (show 0 < 2 * M by omega)
  have hdiv := Nat.mod_add_div required (2 * M)
  have hvdiv := Nat.mod_add_div (inserted + M) (2 * M)
  have hmax : saturatingAdd inserted M = inserted + M := min_eq_left (by omega)
  have hwrap : saturatingAdd ((inserted + M) / (2 * M) * (2 * M)) (required % (2 * M) + 1) =
      (inserted + M) / (2 * M) * (2 * M) + (required % (2 * M) + 1) :=
    min_eq_left (by rw [Nat.mul_comm]; omega)
  -- The count lies in the stretch of the wrap the decoder is in, or in the one before.
  have hle : required / (2 * M) ≤ (inserted + M) / (2 * M) := Nat.div_le_div_right hhi
  have hge : (inserted + M) / (2 * M) ≤ required / (2 * M) + 1 := by
    rw [← Nat.add_div_right required (show 0 < 2 * M by omega)]
    exact Nat.div_le_div_right (by omega)
  rw [he, decodeInsertCount, hM, if_neg (Nat.succ_ne_zero _),
    if_neg (show ¬ (2 * M = 0 ∨ 2 * M < required % (2 * M) + 1) by omega)]
  simp only [hmax, hwrap]
  rcases Nat.eq_or_lt_of_le hle with hq | hq
  · have hreq : (inserted + M) / (2 * M) * (2 * M) + (required % (2 * M) + 1) - 1 = required := by
      rw [← hq, Nat.mul_comm]
      omega
    rw [hreq, if_neg (by omega), if_neg (show ¬ inserted + M < required by omega), if_neg (by omega)]
  · have hreq : (inserted + M) / (2 * M) * (2 * M) + (required % (2 * M) + 1) - 1 = required + 2 * M := by
      rw [show (inserted + M) / (2 * M) = required / (2 * M) + 1 by omega, Nat.add_mul, Nat.mul_comm]
      omega
    rw [hreq, if_neg (by omega), if_pos (show inserted + M < required + 2 * M by omega),
      Nat.add_sub_cancel, if_neg (by omega)]

end Prefix

end Soyokaze.Qpack

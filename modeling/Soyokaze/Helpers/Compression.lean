import Soyokaze.Helpers.Scan

/-!
# Content codings

The tokens `Content-Encoding` and `Accept-Encoding` are written in, and what a
list of them says. The codecs themselves are other people's: `Codecs` says what
is asked of them, and nothing here depends on what they answer.

* `Compression.drain_le`: nothing decodes into more octets than it was allowed.
-/

namespace Soyokaze

/-- A content coding a body may be carried in, or the choice of one. -/
inductive Compression
  | auto | zstd | brotli | gzip | deflate
  deriving DecidableEq

/-- The streams a decoder is read out of: `deflate` names two. -/
inductive Stream
  | zstd | brotli | gzip | zlib | deflate
  deriving DecidableEq

/-- The codecs underneath, and the reader of numbers written some other way. -/
structure Codecs where
  /-- A body encoded, or why it was not. -/
  encode : Compression → Octets → Except String Octets
  /-- What a decoder gives when it is read for so many octets at most. -/
  read : Stream → Octets → ℕ → Except String Octets
  /-- Whether a number read as an `f32` lies above 0 and not above 1. -/
  float : Octets → Bool

/-- One entry of a list of codings: its token, and whether its quality is above 0
    (a quality outside 0 to 1 counts as 0). -/
structure Coding where
  token : Octets
  accepts : Bool
  deriving DecidableEq

namespace Compression

/-- Why a body would not encode or decode. -/
inductive Error
  | settled
  | tooLarge (max : ℕ)
  | coding (reason : String)
  deriving DecidableEq

/-- Every coding that names something, the preferred first. -/
def CODINGS : List Compression := [zstd, brotli, gzip, deflate]

/-- `CODINGS` as an `Accept-Encoding` value. -/
def ACCEPTED : String := "zstd, br, gzip, deflate"

/-- The token of a body that was not coded. -/
def IDENTITY : Octets := lit "identity"

/-- The deprecated token for `gzip`. -/
def GZIP_ALIAS : Octets := lit "x-gzip"

/-- The coding's token. -/
def asStr : Compression → String
  | auto => ""
  | zstd => "zstd"
  | brotli => "br"
  | gzip => "gzip"
  | deflate => "deflate"

/-- The coding a token names, whatever its case. -/
def parse (token : Octets) : Option Compression :=
  let token := Str.trimAscii token
  let named (name : Octets) (coding : Compression) := if Str.eqIgnoreAsciiCase token name then some coding else none
  match token with
  | [] => none
  | first :: _ =>
    if token.length = 2 ∧ Str.lower first = 0x62 then named (lit brotli.asStr) brotli
    else if token.length = 4 ∧ Str.lower first = 0x67 then named (lit gzip.asStr) gzip
    else if token.length = 4 ∧ Str.lower first = 0x7a then named (lit zstd.asStr) zstd
    else if token.length = 6 ∧ Str.lower first = 0x78 then named GZIP_ALIAS gzip
    else if token.length = 7 ∧ Str.lower first = 0x64 then named (lit deflate.asStr) deflate
    else none

end Compression

namespace Coding

/-- Splits a string at the first `octet`, if it is there. -/
def split (text : Octets) (octet : UInt8) : Option (Octets × Octets) :=
  (Scan.find text octet).map fun at' => (text.take at', text.drop (at' + 1))

/-- A quality in the grammar of its field, as a count of its last places and how
    many of those make one; anything else is left to the general parser. -/
def qvalue (text : Octets) : Option (ℕ × ℕ) :=
  match text with
  | [] => none
  | whole :: fraction =>
    if !Str.isDigit whole then none
    else match fraction with
      | [] => some (whole.toNat - 0x30, 1)
      | point :: digits =>
        if point ≠ 0x2e ∨ 4 ≤ digits.length ∨ !digits.all Str.isDigit then none
        else some (digits.foldl (fun value digit => value * 10 + (digit.toNat - 0x30)) (whole.toNat - 0x30),
          10 ^ digits.length)

/-- Reads one entry, with whatever parameters follow it. -/
def parse (codecs : Codecs) (entry : Octets) : Coding :=
  match split entry 0x3b with
  | none => ⟨Str.trimAscii entry, true⟩
  | some (token, parameters) =>
    let written := ((Str.split parameters 0x3b).filterMap (split · 0x3d)).find? fun p =>
      Str.eqIgnoreAsciiCase (Str.trimAscii p.1) (lit "q")
    ⟨Str.trimAscii token, match written with
      | none => true
      | some (_, value) =>
        match qvalue (Str.trimAscii value) with
        | some (value, one) => 0 < value && value ≤ one
        | none => codecs.float (Str.trimAscii value)⟩

/-- The entries of a field value, those that name nothing left out. -/
def list (codecs : Codecs) (value : Octets) : List Coding :=
  ((Str.split value 0x2c).map (parse codecs)).filter (!·.token.isEmpty)

end Coding

namespace Compression

/-- The best coding an `Accept-Encoding` field permits: the last entry for a
    coding decides it, and the last wildcard what no entry names. -/
def accepted (codecs : Codecs) (values : List Octets) : Option Compression :=
  let entries := (values.flatMap (Coding.list codecs)).reverse
  let wildcard := (entries.find? fun coding => parse coding.token == none && coding.token == lit "*").map (·.accepts)
  CODINGS.find? fun coding =>
    (((entries.find? (parse ·.token == some coding)).map (·.accepts)).or wildcard).getD false

/-- The one coding a body is carried in, if it is one this crate has. -/
def appliedLoop : List Coding → Option Compression → Option Compression
  | [], applied => applied
  | coding :: rest, applied =>
    if Str.eqIgnoreAsciiCase coding.token IDENTITY then appliedLoop rest applied
    else match applied, parse coding.token with
      | none, some coding => appliedLoop rest (some coding)
      | _, _ => none

/-- The coding a `Content-Encoding` field says the body is carried in. -/
def applied (codecs : Codecs) (values : List Octets) : Option Compression :=
  appliedLoop (values.flatMap (Coding.list codecs)) none

/-- Whether a `Content-Encoding` field says the body is coded at all. -/
def encoded (codecs : Codecs) (values : List Octets) : Bool :=
  (values.flatMap (Coding.list codecs)).any fun coding => !Str.eqIgnoreAsciiCase coding.token IDENTITY

/-- Encodes a body. -/
def encode (codecs : Codecs) (coding : Compression) (input : Octets) : Except Error Octets :=
  match coding with
  | auto => .error .settled
  | coding => (codecs.encode coding input).mapError .coding

/-- Reads a decoder out, refusing more than `max` octets: it is read one octet
    past them, so that passing them is noticed. -/
def drain (codecs : Codecs) (stream : Stream) (input : Octets) (max : ℕ) : Except Error Octets :=
  match codecs.read stream input (max + 1) with
  | .ok out => if out.length ≤ max then .ok out else .error (.tooLarge max)
  | .error reason => .error (.coding reason)

/-- Decodes a body, refusing to give more than `max` octets. -/
def decode (codecs : Codecs) (coding : Compression) (input : Octets) (max : ℕ) : Except Error Octets :=
  match coding with
  | auto => .error .settled
  | zstd => drain codecs .zstd input max
  | brotli => drain codecs .brotli input max
  | gzip => drain codecs .gzip input max
  | deflate =>
    -- Enough senders write the raw stream under the name of the wrapped one.
    match drain codecs .zlib input max with
    | .error (.coding _) => drain codecs .deflate input max
    | settled => settled

theorem drain_le {codecs : Codecs} {stream : Stream} {input out : Octets} {max : ℕ}
    (h : drain codecs stream input max = .ok out) : out.length ≤ max := by
  rw [drain] at h
  split at h
  · split_ifs at h with hle
    cases h
    exact hle
  · cases h

end Compression

end Soyokaze

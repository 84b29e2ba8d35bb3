import Soyokaze.Lib.Numeral
import Soyokaze.Protocol.H1.Ceiling
import Soyokaze.Protocol.H1.FieldLines

/-!
# The chunked coding of HTTP/1

What a size line is, when a chunk is there, and what a body that was cut into
chunks is read back as.

* `Chunk.parseSize_iff`: a size line is hexadecimal digits of a number that can be
  addressed, an extension behind a semicolon or none, and a CRLF, and nothing else is;
* `Chunk.decode_short`: no chunk is decoded before all of it is there;
* `H1Connection.chunks_exact`: a body is read back however it was cut and however it
  comes in, and nothing behind its last size line is read.
-/

namespace Soyokaze

namespace Number

theorem hexadecimalLoop_eq (fuel value : ℕ) (digits : Octets) :
    hexadecimalLoop fuel value digits = Numeral.write 16 hexDigit fuel value digits := by
  induction fuel generalizing value digits with
  | zero => rfl
  | succ fuel ih => rw [hexadecimalLoop, Numeral.write, ih]

/-- What is written of a number spells it, and is hexadecimal digits. -/
theorem hexadecimal_spells {value : ℕ} (h : value < 16 ^ 16) :
    hexadecimal value ≠ [] ∧ (∀ octet ∈ hexadecimal value, (Chunk.digit octet).isSome = true) ∧
      Numeral.read 16 (fun octet => (Chunk.digit octet).getD 0) (hexadecimal value) = value := by
  have hdigit : ∀ n < 16, Chunk.digit (hexDigit n) = some n := by decide +kernel
  obtain ⟨digits, hwritten, hne, hdigits, hread⟩ := @Numeral.exists_write _ 16 hexDigit
    (fun octet => (Chunk.digit octet).getD 0) (by decide) (fun n hn => by rw [hdigit n hn]; rfl) _ _ [] h (by decide)
  rw [hexadecimal, hexadecimalLoop_eq, hwritten, List.append_nil]
  refine ⟨hne, fun octet hoctet => ?_, hread⟩
  obtain ⟨n, hn, rfl⟩ := hdigits octet hoctet
  rw [hdigit n hn]
  rfl

end Number

namespace Chunk

/-! ## Size lines -/

/-- Hexadecimal digits, one or more, that spell a number which can be addressed. -/
structure Numeral (digits : Octets) (n : ℕ) : Prop where
  ne_nil : digits ≠ []
  hex : ∀ octet ∈ digits, (digit octet).isSome = true
  value : digits.foldl (fun n octet => n * 16 + (digit octet).getD 0) 0 = n
  fits : n < USIZE

/-- What may stand between the digits and the CRLF: nothing, or an extension. -/
def Extension (ext : Octets) : Prop := ext = [] ∨ ∃ text, ext = 0x3b :: text ∧ 0x0a ∉ text

theorem numeral_hexadecimal {n : ℕ} (h : n < USIZE) : Numeral (Number.hexadecimal n) n := by
  obtain ⟨hne, hhex, hvalue⟩ := Number.hexadecimal_spells (show n < 16 ^ 16 from h)
  exact ⟨hne, hhex, hvalue, h⟩

theorem le_foldl (digits : Octets) (n : ℕ) :
    n ≤ digits.foldl (fun n octet => n * 16 + (digit octet).getD 0) n := by
  induction digits generalizing n with
  | nil => exact Nat.le_refl n
  | cons octet digits ih =>
    rw [List.foldl_cons]
    exact Nat.le_trans (by omega) (ih _)

/-- Digits are read on where all of them are digits and what they come to can be addressed. -/
theorem sizeLoop_iff {digits rest : Octets} {size n : ℕ} (hsize : size < USIZE) : sizeLoop digits rest size = .ok n ↔
    (∀ octet ∈ rest, (digit octet).isSome = true) ∧
      rest.foldl (fun n octet => n * 16 + (digit octet).getD 0) size = n ∧ n < USIZE := by
  induction rest generalizing size with
  | nil =>
    rw [sizeLoop, Except.ok.injEq, List.foldl_nil]
    exact ⟨fun h => ⟨fun octet hoctet => absurd hoctet List.not_mem_nil, h, h ▸ hsize⟩, fun h => h.2.1⟩
  | cons octet rest ih =>
    rw [sizeLoop, List.forall_mem_cons, List.foldl_cons]
    rcases hdigit : digit octet with - | value
    · exact ⟨fun h => (by cases h), fun h => absurd h.1.1 Bool.false_ne_true⟩
    · dsimp only
      rw [Option.getD_some]
      split_ifs with hlarge
      · -- What the digits come to is no less than what they have come to.
        refine ⟨fun h => (by cases h), ?_⟩
        rintro ⟨-, rfl, hfits⟩
        have := le_foldl rest (size * 16 + value)
        omega
      · rw [ih (Nat.not_le.1 hlarge)]
        exact ⟨fun h => ⟨⟨rfl, h.1⟩, h.2⟩, fun h => ⟨h.1.2, h.2⟩⟩

theorem size_iff {digits : Octets} {n : ℕ} : size digits = .ok n ↔ Numeral digits n := by
  rw [size]
  by_cases hnil : digits = []
  · rw [hnil]
    exact ⟨fun h => (by cases h), fun h => absurd rfl h.ne_nil⟩
  · rw [List.isEmpty_eq_false_iff.2 hnil, if_neg Bool.false_ne_true, sizeLoop_iff (by decide)]
    exact ⟨fun h => ⟨hnil, h.1, h.2.1, h.2.2⟩, fun h => ⟨h.hex, h.value, h.fits⟩⟩

variable {digits ext : Octets} {n : ℕ}

/-- In a size line there is no LF. -/
theorem Numeral.free (h : Numeral digits n) (hext : Extension ext) :
    (0x0a : UInt8) ∉ digits ++ ext ++ [0x0d] ∧ (0x3b : UInt8) ∉ digits := by
  have hother (octet : UInt8) (hdigit : digit octet = none) : octet ∉ digits := fun hmem => by
    have hhex := h.hex octet hmem
    rw [hdigit] at hhex
    cases hhex
  refine ⟨fun hmem => ?_, hother 0x3b rfl⟩
  rcases List.mem_append.1 hmem with hmem | hmem
  · rcases List.mem_append.1 hmem with hmem | hmem
    · exact hother 0x0a rfl hmem
    · rcases hext with rfl | ⟨text, rfl, htext⟩
      · cases hmem
      · exact htext ((List.mem_cons.1 hmem).resolve_left (by decide))
  · exact absurd (List.mem_singleton.1 hmem) (by decide)

/-- The digits of a size line are what stands before its first semicolon, if it has one. -/
theorem find_extension (h : Numeral digits n) (hext : Extension ext) :
    Scan.find (digits ++ ext) 0x3b = none ∧ digits ++ ext = digits ∨
      ∃ at', Scan.find (digits ++ ext) 0x3b = some at' ∧ (digits ++ ext).take at' = digits := by
  have hfree := (h.free hext).2
  rcases hext with rfl | ⟨text, rfl, -⟩
  · rw [List.append_nil]
    exact .inl ⟨Scan.find_eq_none_iff.2 hfree, rfl⟩
  · exact .inr ⟨digits.length, Field.find_behind hfree text, List.take_left⟩

/-- A size line is digits of a number that can be addressed, an extension or none, and a
    CRLF. -/
theorem parseSize_iff {data : Octets} {start : ℕ} : parseSize data = .ok (some (start, n)) ↔
    ∃ digits ext rest, data = (digits ++ ext ++ [0x0d]) ++ 0x0a :: rest ∧ Numeral digits n ∧ Extension ext ∧
      start = (digits ++ ext).length + 2 := by
  constructor
  · intro h
    rw [parseSize] at h
    rcases hfind : Scan.find data 0x0a with - | end' <;> rw [hfind] at h
    · cases h
    · dsimp only at h
      split_ifs at h with hcr
      push Not at hcr
      obtain ⟨m, rfl⟩ := Nat.exists_eq_succ_of_ne_zero hcr.1
      obtain ⟨hdata, hfree⟩ := Field.split_of_find hfind
      have hline : data.take (m + 1) = data.take m ++ [0x0d] := by
        rw [List.take_add_one, show data[m]? = some 0x0d from hcr.2]
        rfl
      have hlength : (data.take m).length = m :=
        List.length_take_of_le (Nat.le_of_succ_le (Nat.le_of_lt (Scan.lt_of_find hfind)))
      rw [Nat.succ_eq_add_one, hline] at hdata hfree
      obtain ⟨n', hsize, hpair⟩ := Except.map_eq_ok h
      rw [Nat.succ_sub_one] at hsize
      obtain ⟨rfl, rfl⟩ : start = m.succ + 1 ∧ n = n' := by
        cases hpair
        exact ⟨rfl, rfl⟩
      rcases hsemi : Scan.find (data.take m) 0x3b with - | at' <;> rw [hsemi] at hsize
      · refine ⟨data.take m, [], data.drop (m + 1 + 1), ?_, size_iff.1 hsize, .inl rfl, ?_⟩
        · rw [List.append_nil]
          exact hdata
        · rw [List.append_nil, hlength]
      · -- The extension is from the semicolon to the CR.
        have hsplit := (Field.split_of_find hsemi).1
        refine ⟨(data.take m).take at', 0x3b :: (data.take m).drop (at' + 1), data.drop (m + 1 + 1), ?_,
          size_iff.1 hsize, .inr ⟨_, rfl, fun hmem => ?_⟩, ?_⟩
        · rw [← hsplit]
          exact hdata
        · exact hfree (List.mem_append_left _ (List.mem_of_mem_drop hmem))
        · rw [← hsplit, hlength]
  · rintro ⟨digits, ext, rest, rfl, hnumeral, hext, rfl⟩
    have hfind := Field.find_behind (hnumeral.free hext).1 rest
    have hlength : (digits ++ ext ++ [0x0d]).length = (digits ++ ext).length + 1 := List.length_append
    have hcr : ((digits ++ ext ++ [0x0d]) ++ 0x0a :: rest)[(digits ++ ext).length]? = some 0x0d := by
      rw [List.append_assoc _ [0x0d], List.getElem?_append_right (Nat.le_refl _), Nat.sub_self]
      rfl
    have htake : ((digits ++ ext ++ [0x0d]) ++ 0x0a :: rest).take (digits ++ ext).length = digits ++ ext := by
      rw [List.append_assoc _ [0x0d], List.take_left]
    rw [parseSize, hfind, hlength]
    dsimp only
    rw [Nat.add_sub_cancel, hcr, if_neg (by simp), htake]
    rcases find_extension hnumeral hext with ⟨hsemi, hdigits⟩ | ⟨at', hsemi, hdigits⟩
    · rw [hsemi]
      dsimp only
      rw [hdigits, size_iff.2 hnumeral]
      rfl
    · rw [hsemi]
      dsimp only
      rw [hdigits, size_iff.2 hnumeral]
      rfl

/-! ## Whole chunks -/

/-- Before all of a chunk is there nothing is decoded, and what comes behind it changes
    nothing. -/
theorem decode_short {data : Octets} {consumed : ℕ} {range : ℕ × ℕ} (h : decode data = .ok (consumed, range))
    {front : Octets} (hfront : front <+: data) (hshort : front.length < consumed) : decode front = .ok (0, 0, 0) := by
  rcases hfind : Scan.find front 0x0a with - | e
  · rw [decode, H1Connection.parseSize_none hfind]
  · have hsize := H1Connection.parseSize_of_isPrefix hfront hfind
    rw [decode, hsize] at h
    rw [decode]
    rcases hparse : parseSize front with error | _ | ⟨start, size⟩
    · rw [hparse] at h
      cases h
    · rfl
    · rw [hparse] at h
      obtain ⟨e', hfound, rfl⟩ := parseSize_some hparse
      have hlt := Scan.lt_of_find hfound
      dsimp only at h ⊢
      split_ifs at h ⊢ <;> cases h <;> first | rfl | omega

/-- One chunk with an extension on its size line. -/
def extended (data ext : Octets) : Octets := Number.hexadecimal data.length ++ ext ++ [0x0d, 0x0a] ++ data ++ [0x0d, 0x0a]

theorem extended_nil (data : Octets) : extended data [] = write data := by
  rw [extended, write, List.append_nil]

/-- A size line, whatever comes behind it. -/
theorem parseSize_line (h : Numeral digits n) (hext : Extension ext) (more : Octets) :
    parseSize (digits ++ ext ++ [0x0d, 0x0a] ++ more) = .ok (some ((digits ++ ext).length + 2, n)) :=
  parseSize_iff.2 ⟨digits, ext, more, by rw [List.append_assoc, List.append_assoc _ [0x0d]]; rfl, h, hext, rfl⟩

/-- A chunk that is there in whole is decoded, whatever comes behind it. -/
theorem decode_extended {data : Octets} (hne : data ≠ []) (hext : Extension ext) (hfits : (extended data ext).length < USIZE)
    (more : Octets) : decode (extended data ext ++ more) = .ok ((extended data ext).length,
      (Number.hexadecimal data.length ++ ext).length + 2, (Number.hexadecimal data.length ++ ext).length + 2 + data.length) := by
  have hlength : (extended data ext).length = (Number.hexadecimal data.length ++ ext).length + 2 + data.length + 2 := by
    rw [extended, List.length_append, List.length_append, List.length_append]
    rfl
  have hline : (Number.hexadecimal data.length ++ ext ++ [0x0d, 0x0a] ++ data).length =
      (Number.hexadecimal data.length ++ ext).length + 2 + data.length := by
    rw [List.length_append, List.length_append]
    rfl
  have hnumeral : Numeral (Number.hexadecimal data.length) data.length := numeral_hexadecimal (by omega)
  have hassoc : extended data ext ++ more =
      Number.hexadecimal data.length ++ ext ++ [0x0d, 0x0a] ++ (data ++ [0x0d, 0x0a] ++ more) := by
    rw [extended]
    simp only [List.append_assoc]
  have hdrop : (extended data ext ++ more).drop ((Number.hexadecimal data.length ++ ext).length + 2 + data.length) =
      [0x0d, 0x0a] ++ more := by
    rw [← hline, extended, List.append_assoc _ [0x0d, 0x0a] more, List.drop_left]
  rw [decode, hassoc, parseSize_line hnumeral hext, ← hassoc]
  dsimp only
  rw [if_neg (mt List.eq_nil_of_length_eq_zero hne), if_neg (by omega), if_neg (by rw [List.length_append]; omega), hdrop,
    if_neg (by simp), hlength]

/-- The data a decoded chunk points at. -/
theorem data_of_extended (data ext more : Octets) :
    ((extended data ext ++ more).take ((Number.hexadecimal data.length ++ ext).length + 2 + data.length)).drop
      ((Number.hexadecimal data.length ++ ext).length + 2) = data := by
  have hline : (Number.hexadecimal data.length ++ ext ++ [0x0d, 0x0a]).length =
      (Number.hexadecimal data.length ++ ext).length + 2 := by
    rw [List.length_append]
    rfl
  have hdata : (Number.hexadecimal data.length ++ ext ++ [0x0d, 0x0a] ++ data).length =
      (Number.hexadecimal data.length ++ ext).length + 2 + data.length := by
    rw [List.length_append, hline]
  rw [← hdata, extended, List.append_assoc _ [0x0d, 0x0a] more, List.take_left, ← hline, List.drop_left]

end Chunk

namespace H1Connection

open Source

/-! ## A body in chunks -/

/-- A chunk to be written: its data and the extension on its size line. -/
structure Piece where
  data : Octets
  ext : Octets

/-- The piece has data, its extension is one, its size line is within the limit, and all of it
    can be addressed. -/
structure Piece.Proper (max : ℕ) (piece : Piece) : Prop where
  ne_nil : piece.data ≠ []
  ext : Chunk.Extension piece.ext
  line : (Number.hexadecimal piece.data.length ++ piece.ext).length < max
  fits : (Chunk.extended piece.data piece.ext).length < USIZE

/-- Where a size line is not over yet, the octets are no more than a size line may have. -/
theorem length_of_noLF {line more data : Octets} {max : ℕ} (hline : line.length < max) (hdata : data <+: line ++ [0x0d, 0x0a] ++ more)
    (hfree : (0x0a : UInt8) ∉ data) : data.length ≤ max := by
  by_contra hlong
  have hfront : line ++ [0x0d, 0x0a] <+: data := by
    refine List.prefix_of_prefix_length_le (List.prefix_append _ more) hdata ?_
    rw [List.length_append, List.length_cons, List.length_singleton]
    omega
  exact hfree (hfront.subset (by simp))

/-- Before all of a chunk is there the loop reads on, and what comes behind it changes
    nothing. -/
theorem chunkLook_chunk {limits : H1Limits} {limit length consumed start end' first size : ℕ} {front line more : Octets}
    (hfront : front = line ++ [0x0d, 0x0a] ++ more) (hline : line.length < limits.maxChunkHeaderSize)
    (hlimit : length + size ≤ limit) (hsize : ∀ more, Chunk.parseSize (front ++ more) = .ok (some (first, size)))
    (hdecode : ∀ more, Chunk.decode (front ++ more) = .ok (consumed, start, end')) (hconsumed : consumed = front.length) :
    (∀ more, chunkLook limits limit length (front ++ more) = some (.ok (consumed, start, end'))) ∧
      ∀ data, data <+: front → data ≠ front → chunkLook limits limit length data = none := by
  have hheld : ¬limit < min (length + size) (USIZE - 1) := fun h => by
    rw [lt_min_iff] at h
    omega
  have hpos : consumed ≠ 0 := by
    rw [hconsumed, hfront, List.length_append, List.length_append, List.length_cons]
    omega
  constructor
  · intro more
    rw [chunkLook, hsize more]
    dsimp only
    rw [if_neg hheld, chunkLook.chunkAt, hdecode more]
    dsimp only
    rw [if_neg hpos]
  · intro data hdata hne
    have hwhole : Chunk.decode front = .ok (consumed, start, end') := by
      rw [← hdecode [], List.append_nil]
    have hlt : data.length < consumed := by
      rw [hconsumed]
      exact Nat.lt_of_le_of_ne hdata.length_le fun h => hne (hdata.eq_of_length h)
    have hat : chunkLook.chunkAt data = none := by
      rw [chunkLook.chunkAt, Chunk.decode_short hwhole hdata hlt]
      rfl
    rw [chunkLook]
    rcases hfind : Scan.find data 0x0a with - | e
    · have hshort := length_of_noLF hline (hfront ▸ hdata) (Scan.find_eq_none_iff.1 hfind)
      rw [parseSize_none hfind]
      dsimp only
      rw [if_neg (Nat.not_lt.2 hshort), hat]
    · have hsame : Chunk.parseSize data = .ok (some (first, size)) := by
        rw [← parseSize_of_isPrefix hdata hfind, ← hsize [], List.append_nil]
      rw [hsame]
      dsimp only
      rw [if_neg hheld, hat]

/-- The octets of some pieces. -/
def coded (pieces : List Piece) : Octets := pieces.flatMap fun piece => Chunk.extended piece.data piece.ext

/-- What is read behind `body`, the last size line being `digits ++ ext`. -/
theorem readChunks_coded {limits : H1Limits} {limit fuel : ℕ} {pieces : List Piece} {body digits ext rest : Octets}
    {s : Source Error UInt8} {later : List (Except Error Octets)}
    (hpieces : ∀ piece ∈ pieces, piece.Proper limits.maxChunkHeaderSize)
    (hlimit : body.length + (pieces.flatMap (·.data)).length ≤ limit) (hlast : Chunk.Numeral digits 0) (hext : Chunk.Extension ext)
    (hline : (digits ++ ext).length < limits.maxChunkHeaderSize) (hfuel : pieces.length < fuel)
    (hs : s.Gives (coded pieces ++ (digits ++ ext ++ [0x0d, 0x0a] ++ rest)) later) :
    ∃ s', readChunks limits limit fuel body s = (.ok (body ++ pieces.flatMap (·.data)), s') ∧ s'.Gives rest later := by
  induction pieces generalizing fuel body s with
  | nil =>
    obtain ⟨fuel, rfl⟩ := Nat.exists_eq_succ_of_ne_zero (Nat.ne_zero_of_lt hfuel)
    rw [coded, List.flatMap_nil, List.nil_append] at hs
    have hsize := Chunk.parseSize_line hlast hext
    have hlength : (digits ++ ext ++ [0x0d, 0x0a]).length = (digits ++ ext).length + 2 := List.length_append
    have hdecode (more : Octets) : Chunk.decode (digits ++ ext ++ [0x0d, 0x0a] ++ more) =
        .ok ((digits ++ ext).length + 2, 0, 0) := by
      rw [Chunk.decode, hsize more]
      rfl
    have hroom : body.length + 0 ≤ limit := by rwa [List.flatMap_nil] at hlimit
    obtain ⟨hwhole, hshort⟩ := chunkLook_chunk (List.append_nil _).symm hline hroom hsize hdecode hlength.symm
    obtain ⟨s', hawait, hfront, hgives⟩ := @Gives.await _ _ _ _ (.error .closed) _ _ _ _ _ hs hwhole hshort
    refine ⟨s'.consume ((digits ++ ext).length + 2), ?_, hlength ▸ hgives.consume hfront⟩
    rw [Nat.succ_eq_add_one, readChunks, hawait]
    dsimp only
    rw [if_pos (Nat.le_refl 0), List.flatMap_nil, List.append_nil]
  | cons piece pieces ih =>
    obtain ⟨fuel, rfl⟩ := Nat.exists_eq_succ_of_ne_zero (Nat.ne_zero_of_lt hfuel)
    obtain ⟨hpiece, hall⟩ := List.forall_mem_cons.1 hpieces
    rw [List.flatMap_cons, List.length_append, ← Nat.add_assoc] at hlimit
    rw [coded, List.flatMap_cons, List.append_assoc, ← coded] at hs
    have hnumeral : Chunk.Numeral (Number.hexadecimal piece.data.length) piece.data.length := by
      refine Chunk.numeral_hexadecimal (Nat.lt_of_le_of_lt ?_ hpiece.fits)
      rw [Chunk.extended, List.length_append, List.length_append]
      omega
    have hfront : Chunk.extended piece.data piece.ext =
        Number.hexadecimal piece.data.length ++ piece.ext ++ [0x0d, 0x0a] ++ (piece.data ++ [0x0d, 0x0a]) := List.append_assoc ..
    have hsize (more : Octets) : Chunk.parseSize (Chunk.extended piece.data piece.ext ++ more) =
        .ok (some ((Number.hexadecimal piece.data.length ++ piece.ext).length + 2, piece.data.length)) := by
      rw [hfront, List.append_assoc _ (piece.data ++ _)]
      exact Chunk.parseSize_line hnumeral hpiece.ext _
    obtain ⟨hwhole, hshort⟩ := chunkLook_chunk hfront hpiece.line (Nat.le_of_add_right_le hlimit) hsize
      (Chunk.decode_extended hpiece.ne_nil hpiece.ext hpiece.fits) rfl
    obtain ⟨s', hawait, ⟨more, hmore⟩, hgives⟩ := @Gives.await _ _ _ _ (.error .closed) _ _ _ _ _ hs hwhole hshort
    have hdata : body ++ (s'.data.take ((Number.hexadecimal piece.data.length ++ piece.ext).length + 2 + piece.data.length)).drop
        ((Number.hexadecimal piece.data.length ++ piece.ext).length + 2) = body ++ piece.data := by
      rw [← hmore, Chunk.data_of_extended]
    have hpos : 0 < piece.data.length := List.length_pos_iff.2 hpiece.ne_nil
    -- The loop goes on with the body so far and the pieces that are left.
    obtain ⟨s'', hread, hrest⟩ := ih hall (by rwa [List.length_append]) (Nat.lt_of_succ_lt_succ hfuel)
      (hgives.consume ⟨more, hmore⟩)
    refine ⟨s'', ?_, hrest⟩
    rw [Nat.succ_eq_add_one, readChunks, hawait]
    dsimp only
    rw [if_neg (by omega), hdata, hread, List.flatMap_cons, List.append_assoc]

theorem length_le_coded (pieces : List Piece) : pieces.length ≤ (coded pieces).length := by
  induction pieces with
  | nil => exact Nat.le_refl 0
  | cons piece pieces ih =>
    rw [coded, List.flatMap_cons, ← coded, List.length_cons, List.length_append, Chunk.extended, List.length_append]
    exact (Nat.add_comm _ _).trans_le (Nat.add_le_add (Nat.le_add_left 1 _) ih)

/-- However a body is cut into chunks that have data, with whatever extensions on their size
    lines, and however the octets come in, the body is read back, the buffer is left behind
    the last size line, and no read behind the one that brings that line in is made. A chunk
    is not decoded before the octets it takes are there. And a size line is read exactly
    where it is digits of a number that can be addressed, an extension or none, and a CRLF. -/
theorem chunks_exact :
    (∀ (c : H1Connection) (budget : ℕ) (pieces : List Piece) (digits ext rest : Octets) (later : List (Except Error Octets)),
      (∀ piece ∈ pieces, piece.Proper c.limits.maxChunkHeaderSize) →
      (pieces.flatMap (·.data)).length ≤ bodyLimit c.limits budget →
      Chunk.Numeral digits 0 → Chunk.Extension ext → (digits ++ ext).length < c.limits.maxChunkHeaderSize →
      c.source.Gives (coded pieces ++ (digits ++ ext ++ [0x0d, 0x0a] ++ rest)) later →
      ∃ s', (readBody .chunked budget).run c = (.ok (some (pieces.flatMap (·.data))), { c with source := s' }) ∧
        s'.Gives rest later) ∧
      (∀ data, Chunk.extended data [] = Chunk.write data) ∧
      (∀ data consumed range, Chunk.decode data = .ok (consumed, range) → consumed ≤ data.length ∧
        ∀ front, front <+: data → front.length < consumed → Chunk.decode front = .ok (0, 0, 0)) ∧
      ∀ data start n, Chunk.parseSize data = .ok (some (start, n)) ↔
        ∃ digits ext rest, data = (digits ++ ext ++ [0x0d]) ++ 0x0a :: rest ∧ Chunk.Numeral digits n ∧ Chunk.Extension ext ∧
          start = (digits ++ ext).length + 2 := by
  refine ⟨fun c budget pieces digits ext rest later hpieces hlimit hlast hext hline hs => ?_, Chunk.extended_nil,
    fun data consumed range h => ⟨Chunk.decode_le h, fun front hfront hshort => Chunk.decode_short h hfront hshort⟩,
    fun data start n => Chunk.parseSize_iff⟩
  have hfuel : pieces.length < c.source.left + 1 := by
    have hlength := hs.length_le
    rw [List.length_append] at hlength
    have := length_le_coded pieces
    omega
  have hroom : ([] : Octets).length + (pieces.flatMap (·.data)).length ≤ bodyLimit c.limits budget := by
    rwa [List.length_nil, Nat.zero_add]
  obtain ⟨s', hread, hrest⟩ := readChunks_coded hpieces hroom hlast hext hline hfuel hs
  refine ⟨s', ?_, hrest⟩
  rw [run_readBody_chunked, hread]
  rfl

end H1Connection

end Soyokaze

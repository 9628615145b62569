import Backroll.Protocol.Varint

/-! `protocol/bitfield.rs`: run-length coding of a byte buffer. A run of `0x00` or `0xFF`
bytes is a header `len << 2 | bit << 1 | 1`; any other stretch is a header `len << 1`
followed by the bytes. A `usize` has 64 bits, and overflowing one is a fault. -/
namespace Backroll

/-- `EncodeError` of `protocol/compression.rs`. -/
inductive EncodeError
  | tooBig (len : ℕ)
  deriving DecidableEq, Repr

/-- `DecodeError` of `protocol/compression.rs`, less the cast error of `bytemuck`, which a
buffer of the type's own size never raises. -/
inductive DecodeError
  | invalidRLEBitfield (offset len : ℕ)
  | tooBig (len : ℕ)
  deriving DecidableEq, Repr

/-- Addition of two `usize` values. -/
def usizeAdd (a b : ℕ) : Except Panic ℕ :=
  if a + b < 2 ^ 64 then .ok (a + b) else .error .arithmeticOverflow

theorem usizeAdd_of_lt {a b : ℕ} (h : a + b < 2 ^ 64) : usizeAdd a b = .ok (a + b) := if_pos h

theorem usizeAdd_eq_ok {a b c : ℕ} : usizeAdd a b = .ok c ↔ a + b = c ∧ a + b < 2 ^ 64 := by
  unfold usizeAdd
  split
  · next h => simpa using fun _ => h
  · next h => simpa using fun _ => not_lt.mp h

/-- `vec![0; len]`: a vector holds at most `isize::MAX` bytes. -/
def zeroedVec (len : ℕ) : Except Panic (List UInt8) :=
  if len < 2 ^ 63 then .ok (List.replicate len 0) else .error .capacityOverflow

namespace Bitfield

variable [Varinteger]

/-- The local variables of the loop in `encode_with_offset`. -/
structure EncodeState where
  enc : List UInt8 := []
  len : ℕ := 0
  contiguous : Bool := false
  prevBits : UInt8 := 0
  noncontiguousBits : List UInt8 := []

/-- `write_contiguous`; the shift drops what leaves a `u64`. -/
def writeContiguous (enc : List UInt8) (len : ℕ) (prevBits : UInt8) : List UInt8 :=
  let len := (len <<< 2) % 2 ^ 64
  let len := len + 1
  let len := if prevBits = 255 then len + 2 else len
  enc ++ Varinteger.encode len

/-- `write_noncontiguous`; the caller's buffer of literal bytes ends empty. -/
def writeNoncontiguous (enc noncontiguousBits : List UInt8) : List UInt8 :=
  let len := (noncontiguousBits.length <<< 1) % 2 ^ 64
  enc ++ Varinteger.encode len ++ noncontiguousBits

/-- One iteration of the loop in `encode_with_offset`, for the `i`-th byte after `offset`. -/
def encodeByte (offset i : ℕ) (byte : UInt8) (st : EncodeState) : EncodeState :=
  if st.contiguous ∧ byte = st.prevBits then
    { st with len := st.len + 1 }
  else
    let st := if st.contiguous then { st with enc := writeContiguous st.enc st.len st.prevBits }
      else st
    if byte = 0 ∨ byte = 255 then
      let st := if ¬st.contiguous ∧ i > offset then
          { st with
            enc := writeNoncontiguous st.enc st.noncontiguousBits
            noncontiguousBits := [] }
        else st
      { st with len := 1, prevBits := byte, contiguous := true }
    else
      { st with
        contiguous := false
        noncontiguousBits := st.noncontiguousBits ++ [byte] }

def encodeBytes (offset : ℕ) : ℕ → List UInt8 → EncodeState → EncodeState
  | _, [], st => st
  | i, byte :: bytes, st => encodeBytes offset (i + 1) bytes (encodeByte offset i byte st)

/-- What follows the loop: the run or literal still open is written. -/
def EncodeState.finish (st : EncodeState) : List UInt8 :=
  if st.contiguous then writeContiguous st.enc st.len st.prevBits
  else writeNoncontiguous st.enc st.noncontiguousBits

def encodeWithOffset (buf : List UInt8) (offset : ℕ) : Except Panic (List UInt8 × ℕ) :=
  if offset ≤ buf.length then
    .ok ((encodeBytes offset 0 (buf.drop offset) {}).finish, buf.length - offset)
  else .error .indexOutOfBounds

def encode (buf : List UInt8) : Except Panic (List UInt8) := do
  let (enc, _) ← encodeWithOffset buf 0
  return enc

/-- The local variables of the loop in `encode_len_with_offset`. The sums of lengths stay
far below `u64::MAX` for any slice. -/
structure EncodeLenState where
  len : ℕ := 0
  partialLen : ℕ := 0
  contiguous : Bool := false
  prevBits : UInt8 := 0

/-- One iteration of the loop in `encode_len_with_offset`. -/
def encodeLenByte (offset i : ℕ) (byte : UInt8) (st : EncodeLenState) : EncodeLenState :=
  if st.contiguous ∧ byte = st.prevBits then
    { st with partialLen := st.partialLen + 1 }
  else
    let st := if st.contiguous then
        { st with len := st.len + Varinteger.length ((st.partialLen <<< 2) % 2 ^ 64) }
      else st
    if byte = 0 ∨ byte = 255 then
      let st := if ¬st.contiguous ∧ i > offset then
          { st with
            len := st.len + st.partialLen + Varinteger.length ((st.partialLen <<< 1) % 2 ^ 64) }
        else st
      { st with partialLen := 1, prevBits := byte, contiguous := true }
    else if ¬st.contiguous then { st with partialLen := st.partialLen + 1 }
    else { st with partialLen := 1, contiguous := false }

def encodeLenBytes (offset : ℕ) : ℕ → List UInt8 → EncodeLenState → EncodeLenState
  | _, [], st => st
  | i, byte :: bytes, st => encodeLenBytes offset (i + 1) bytes (encodeLenByte offset i byte st)

/-- What follows the loop. -/
def EncodeLenState.finish (st : EncodeLenState) : ℕ :=
  if st.contiguous then st.len + Varinteger.length ((st.partialLen <<< 2) % 2 ^ 64)
  else st.len + st.partialLen + Varinteger.length ((st.partialLen <<< 1) % 2 ^ 64)

def encodeLenWithOffset (buf : List UInt8) (offset : ℕ) : Except Panic ℕ :=
  if offset ≤ buf.length then .ok (encodeLenBytes offset 0 (buf.drop offset) {}).finish
  else .error .indexOutOfBounds

/-- The number of decoded bytes a run header stands for. -/
def runLength (next : ℕ) : ℕ :=
  if next &&& 1 > 0 then next >>> 2 else next >>> 1

/-- The offset behind a run whose header has just been read: a literal brings its bytes. -/
def skipPayload (offset next : ℕ) : Except Panic ℕ :=
  if next &&& 1 = 0 then usizeAdd offset (runLength next) else .ok offset

/-- The loop of `decode_len_with_offset`, ending with its `offset` and `len`. Every header
takes at least a byte, so the number of bytes left is enough fuel. -/
def decodeLenLoop (buf : List UInt8) : ℕ → ℕ → ℕ → Except Panic (ℕ × ℕ)
  | 0, offset, len => if offset < buf.length then .error .outOfFuel else .ok (offset, len)
  | fuel + 1, offset, len =>
    if offset < buf.length then do
      let (next, read) ← Varinteger.decodeWithOffset buf offset
      let offset ← usizeAdd offset read
      let len ← usizeAdd len (runLength next)
      let offset ← skipPayload offset next
      decodeLenLoop buf fuel offset len
    else .ok (offset, len)

def decodeLenWithOffset (buf : List UInt8) (offset : ℕ) :
    Except Panic (Except DecodeError ℕ) := do
  let (offset, len) ← decodeLenLoop buf (buf.length - offset) offset 0
  if offset > buf.length then return .error (.invalidRLEBitfield offset buf.length)
  return .ok len

def decodeLen (buf : List UInt8) : Except Panic (Except DecodeError ℕ) :=
  decodeLenWithOffset buf 0

/-- Overwrites `bits.length` bytes of the output from `ptr` on; indexing past its end is a
fault, and an empty write indexes nothing. -/
def writeAt (bitfield : List UInt8) (ptr : ℕ) (bits : List UInt8) : Except Panic (List UInt8) :=
  if bits = [] then .ok bitfield
  else if ptr + bits.length ≤ bitfield.length then
    .ok (bitfield.take ptr ++ bits ++ bitfield.drop (ptr + bits.length))
  else .error .indexOutOfBounds

/-- `bitfield[ptr..(len + ptr)].clone_from_slice(&buf[offset..(len + offset)])`. -/
def cloneFromSlice (bitfield : List UInt8) (ptr : ℕ) (buf : List UInt8) (offset len : ℕ) :
    Except Panic (List UInt8) := do
  let dstEnd ← usizeAdd len ptr
  let srcEnd ← usizeAdd len offset
  if dstEnd ≤ bitfield.length ∧ srcEnd ≤ buf.length then
    writeAt bitfield ptr ((buf.drop offset).take len)
  else .error .indexOutOfBounds

/-- The write of one run in `decode_with_offset`: a run of `0x00` leaves the zeros there. -/
def writeRun (buf : List UInt8) (offset next ptr : ℕ) (bitfield : List UInt8) :
    Except Panic (List UInt8) :=
  if next &&& 1 > 0 then
    if next &&& 2 > 0 then writeAt bitfield ptr (List.replicate (runLength next) 255)
    else .ok bitfield
  else cloneFromSlice bitfield ptr buf offset (runLength next)

/-- The loop of `decode_with_offset`, ending with its `bitfield` and `offset`. -/
def decodeLoop (buf : List UInt8) : ℕ → ℕ → ℕ → List UInt8 → Except Panic (List UInt8 × ℕ)
  | 0, offset, _, bitfield =>
    if offset < buf.length then .error .outOfFuel else .ok (bitfield, offset)
  | fuel + 1, offset, ptr, bitfield =>
    if offset < buf.length then do
      let (next, read) ← Varinteger.decodeWithOffset buf offset
      let offset ← usizeAdd offset read
      let bitfield ← writeRun buf offset next ptr bitfield
      let offset ← skipPayload offset next
      let ptr ← usizeAdd ptr (runLength next)
      decodeLoop buf fuel offset ptr bitfield
    else .ok (bitfield, offset)

def decodeWithOffset (buf : List UInt8) (offset : ℕ) :
    Except Panic (Except DecodeError (List UInt8 × ℕ)) := do
  match ← decodeLenWithOffset buf offset with
  | .error e => return .error e
  | .ok len =>
    let bitfield ← zeroedVec len
    let (bitfield, offset) ← decodeLoop buf (buf.length - offset) offset 0 bitfield
    if offset ≤ buf.length then return .ok (bitfield, buf.length - offset)
    else throw .arithmeticOverflow

def decode (buf : List UInt8) : Except Panic (Except DecodeError (List UInt8)) := do
  match ← decodeWithOffset buf 0 with
  | .error e => return .error e
  | .ok (bitfield, _) => return .ok bitfield

end Bitfield

end Backroll

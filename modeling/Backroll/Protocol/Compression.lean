import Backroll.Protocol.BitfieldRoundTrip

/-! `protocol/compression.rs`: a sequence of plain-data values as XOR deltas against a moving
base, run-length coded. -/
namespace Backroll

/-- `bytemuck::Pod`: values that are exactly `size` bytes, every byte string of that length
being one of them. -/
class Pod (I : Type) where
  size : ℕ
  toBytes : I → List UInt8
  ofBytes : List UInt8 → I
  length_toBytes : ∀ x, (toBytes x).length = size
  ofBytes_toBytes : ∀ x, ofBytes (toBytes x) = x
  toBytes_ofBytes : ∀ bs : List UInt8, bs.length = size → toBytes (ofBytes bs) = bs

attribute [simp] Pod.length_toBytes Pod.ofBytes_toBytes

instance {I : Type} [Pod I] : Zeroable I where
  zeroed := Pod.ofBytes (List.replicate (Pod.size I) 0)

abbrev maxBufferSize : ℕ := 65535

namespace Compression

variable {I : Type} [Pod I]

/-- `b1 ^ b2` over two buffers, as far as both reach. -/
def xorBytes : List UInt8 → List UInt8 → List UInt8 := List.zipWith (· ^^^ ·)

/-- The loop of `delta_encode`, from the bits of the base and the bytes written so far. -/
def deltaEncodeLoop [Build] (bits bytes : List UInt8) :
    List I → Except Panic (Except EncodeError (List UInt8))
  | [] => .ok (.ok bytes)
  | datum :: data => do
    let datumBytes := Pod.toBytes datum
    debugAssert (bits.length = datumBytes.length)
    let bytes := bytes ++ xorBytes bits datumBytes
    if bytes.length ≥ maxBufferSize then return .error (.tooBig bytes.length)
    else deltaEncodeLoop datumBytes bytes data

def deltaEncode [Build] (base : I) (data : List I) :
    Except Panic (Except EncodeError (List UInt8)) :=
  deltaEncodeLoop (Pod.toBytes base) [] data

def encode [Build] [Varinteger] (base : I) (data : List I) :
    Except Panic (Except EncodeError (List UInt8)) := do
  match ← deltaEncode base data with
  | .error e => return .error e
  | .ok bytes =>
    let bits ← Bitfield.encode bytes
    return .ok bits

/-- The loop of `decode` over the outputs `idx, idx + 1, …`. The buffer has the size and the
alignment of the type, so `try_from_bytes` never fails. -/
def decodeLoop (delta : List UInt8) (stride : ℕ) : ℕ → ℕ → List UInt8 → List I
  | 0, _, _ => []
  | count + 1, idx, bits =>
    let bits := xorBytes bits ((delta.drop (idx * stride)).take stride)
    Pod.ofBytes bits :: decodeLoop delta stride count (idx + 1) bits

/-- What `decode` does before it builds the buffer of deltas: measure it and reject it when it
is too long. -/
def checkedLen [Varinteger] (data : List UInt8) : Except Panic (Except DecodeError ℕ) := do
  match ← Bitfield.decodeLen data with
  | .error e => return .error e
  | .ok deltaLen =>
    if deltaLen > maxBufferSize then return .error (.tooBig deltaLen)
    else return .ok deltaLen

def decode [Build] [Varinteger] (base : I) (data : List UInt8) :
    Except Panic (Except DecodeError (List I)) := do
  let bits := Pod.toBytes base
  let stride := bits.length
  debugAssert (stride > 0)
  match ← checkedLen data with
  | .error e => return .error e
  | .ok _ =>
    match ← Bitfield.decode data with
    | .error e => return .error e
    | .ok delta =>
      if stride = 0 then throw .divideByZero
      debugAssert (delta.length % stride = 0)
      let outputSize := delta.length / stride
      return .ok (decodeLoop delta stride outputSize 0 bits)

/-- The deltas of a sequence against a moving base. -/
def deltas : List UInt8 → List I → List UInt8
  | _, [] => []
  | bits, datum :: data => xorBytes bits (Pod.toBytes datum) ++ deltas (Pod.toBytes datum) data

@[simp] theorem length_xorBytes (a b : List UInt8) :
    (xorBytes a b).length = min a.length b.length := by simp [xorBytes]

/-- A delta applied to the base it was taken against. -/
theorem xorBytes_cancel {a b : List UInt8} (h : a.length = b.length) :
    xorBytes a (xorBytes a b) = b := by
  induction a generalizing b with
  | nil => simp_all [xorBytes, eq_comm]
  | cons x a ih =>
    cases b with
    | nil => simp at h
    | cons y b =>
      have hab : a.length = b.length := by simpa using h
      have hx : x ^^^ (x ^^^ y) = y := by rw [← UInt8.xor_assoc, UInt8.xor_self, UInt8.zero_xor]
      simpa [xorBytes, hx] using ih hab

theorem length_deltas {bits : List UInt8} (hb : bits.length = Pod.size I) (data : List I) :
    (deltas bits data).length = data.length * Pod.size I := by
  induction data generalizing bits with
  | nil => simp [deltas]
  | cons datum data ih =>
    simp only [deltas, List.length_append, length_xorBytes, hb, Pod.length_toBytes, ih,
      List.length_cons, min_self, Nat.succ_mul]
    omega

theorem deltaEncodeLoop_eq [Build] {bits : List UInt8} (hb : bits.length = Pod.size I)
    (bytes : List UInt8) (data : List I)
    (h : bytes.length + data.length * Pod.size I < maxBufferSize) :
    deltaEncodeLoop bits bytes data = .ok (.ok (bytes ++ deltas bits data)) := by
  induction data generalizing bits bytes with
  | nil => simp [deltaEncodeLoop, deltas]
  | cons datum data ih =>
    have hd : (Pod.toBytes datum).length = Pod.size I := Pod.length_toBytes datum
    have hlen : (bytes ++ xorBytes bits (Pod.toBytes datum)).length =
        bytes.length + Pod.size I := by simp [hb]
    simp only [List.length_cons, Nat.succ_mul] at h
    rw [deltaEncodeLoop, debugAssert_of (hb.trans hd.symm)]
    simp only [Fallible.ok_bind]
    rw [if_neg (by omega), ih hd _ (by omega), deltas, List.append_assoc]

theorem decodeLoop_deltas {bits : List UInt8} (hb : bits.length = Pod.size I)
    (pre : List UInt8) (idx : ℕ) (hpre : pre.length = idx * Pod.size I) (data : List I) :
    decodeLoop (pre ++ deltas bits data) (Pod.size I) data.length idx bits = data := by
  induction data generalizing bits pre idx with
  | nil => rfl
  | cons datum data ih =>
    have hd : (Pod.toBytes datum).length = Pod.size I := Pod.length_toBytes datum
    have hslice : ((pre ++ deltas bits (datum :: data)).drop (idx * Pod.size I)).take
        (Pod.size I) = xorBytes bits (Pod.toBytes datum) := by
      rw [← hpre, List.drop_left, deltas]
      exact List.take_left' (by simp [hb])
    simp only [List.length_cons, decodeLoop, hslice, xorBytes_cancel (hb.trans hd.symm),
      Pod.ofBytes_toBytes]
    rw [deltas, ← List.append_assoc,
      ih hd _ (idx + 1) (by simp [hb, hpre, Nat.succ_mul])]

/-- The codec inverts itself on every sequence below the size limit. -/
theorem roundTrip [Build] [Varinteger] (hV : Varinteger.RoundTrips) (hI : 0 < Pod.size I)
    (base : I) (data : List I) (h : data.length * Pod.size I < maxBufferSize) :
    ∃ bits, encode base data = .ok (.ok bits) ∧ decode base bits = .ok (.ok data) := by
  have hb : (Pod.toBytes base).length = Pod.size I := Pod.length_toBytes base
  have hlen := length_deltas hb data
  have hsmall : data.length * Pod.size I < 65535 := h
  have henc := deltaEncodeLoop_eq hb [] data (by simpa using h)
  obtain ⟨rs, hrs, hcount, hbits, hexp⟩ :=
    Bitfield.encode_eq_runs (deltas (Pod.toBytes base) data) (by omega)
  have hx : Bitfield.expandedLength rs = data.length * Pod.size I := by
    rw [Bitfield.expandedLength, hexp, hlen]
  have hbuf := Bitfield.length_runs_le hV hrs
  have hdl := Bitfield.decodeLen_runs hV hrs (by omega) (by omega)
  have hdec := Bitfield.decode_runs hV hrs (by omega) (by omega)
  refine ⟨rs.flatMap Bitfield.Run.bytes, ?_, ?_⟩
  · simp only [encode, deltaEncode, henc, List.nil_append, Fallible.ok_bind, hbits,
      Fallible.pure_eq_ok]
  · have hout := decodeLoop_deltas hb [] 0 (by simp) data
    rw [List.nil_append] at hout
    rw [decode, debugAssert_of (by omega)]
    simp only [Fallible.ok_bind, checkedLen, hdl, hdec, hexp, hlen, hb, hx]
    rw [if_neg (by omega), if_neg (by omega), debugAssert_of (Nat.mul_mod_left _ _)]
    simp only [Fallible.ok_bind, Fallible.pure_eq_ok, Nat.mul_div_cancel _ hI, hout]

theorem deltaEncodeLoop_small [Build] {bits bytes out : List UInt8} {data : List I}
    (hb : bits.length = Pod.size I) (hbytes : bytes.length < maxBufferSize)
    (h : deltaEncodeLoop bits bytes data = .ok (.ok out)) :
    bytes.length + data.length * Pod.size I < maxBufferSize := by
  induction data generalizing bits bytes with
  | nil => simpa using hbytes
  | cons datum data ih =>
    have hd : (Pod.toBytes datum).length = Pod.size I := Pod.length_toBytes datum
    rw [deltaEncodeLoop, debugAssert_of (hb.trans hd.symm)] at h
    simp only [Fallible.ok_bind] at h
    split at h
    · simp at h
    · next hsmall =>
      have hrest := ih hd (not_le.mp hsmall) h
      simp only [List.length_append, length_xorBytes, hb, hd, min_self] at hrest
      rw [List.length_cons, Nat.succ_mul]
      omega

/-- Decoding refuses a type without bytes. -/
theorem decode_pos [Build] [Varinteger] {base : I} {bits : List UInt8} {inputs : List I}
    (h : decode base bits = .ok (.ok inputs)) : 0 < Pod.size I := by
  obtain ⟨-, -, h⟩ := Fallible.bind_eq_ok.mp h
  obtain ⟨checked, -, h⟩ := Fallible.bind_eq_ok.mp h
  cases checked with
  | error e => simp at h
  | ok len =>
    obtain ⟨delta, -, h⟩ := Fallible.bind_eq_ok.mp h
    cases delta with
    | error e => simp at h
    | ok delta =>
      by_contra hzero
      dsimp only at h
      rw [if_pos (by rw [Pod.length_toBytes]; omega)] at h
      simp at h

/-- What decodes of an encoded sequence is that sequence. -/
theorem decode_encode [Build] [Varinteger] (hV : Varinteger.RoundTrips) {base : I}
    {data inputs : List I} {bits : List UInt8} (henc : encode base data = .ok (.ok bits))
    (hdec : decode base bits = .ok (.ok inputs)) : inputs = data := by
  have hsmall : data.length * Pod.size I < maxBufferSize := by
    obtain ⟨deltas, hdelta, h⟩ := Fallible.bind_eq_ok.mp henc
    cases deltas with
    | error e => simp at h
    | ok bytes =>
      have hbound : ([] : List UInt8).length + data.length * Pod.size I < maxBufferSize :=
        deltaEncodeLoop_small (Pod.length_toBytes base) (by decide) hdelta
      simpa using hbound
  obtain ⟨bits', henc', hdec'⟩ := roundTrip hV (decode_pos hdec) base data hsmall
  obtain rfl : bits = bits' := by simpa using henc.symm.trans henc'
  simpa using hdec.symm.trans hdec'

/-- No bytes at all stand for no inputs. -/
theorem decode_nil [Build] [Varinteger] (hI : 0 < Pod.size I) (base : I) :
    decode base [] = .ok (.ok []) := by
  have hlen : Bitfield.decodeLen [] = .ok (.ok 0) := rfl
  have hdec : Bitfield.decode [] = .ok (.ok []) := rfl
  simp [decode, debugAssert_of hI, checkedLen, hlen, hdec, hI.ne', debugAssert_of, decodeLoop]

/-- `encode` accepts every sequence below the size limit, and `decode` undoes it. -/
theorem encode_decode [Build] [Varinteger] (hV : Varinteger.RoundTrips) (hI : 0 < Pod.size I)
    (base : I) (data : List I) (h : data.length * Pod.size I < maxBufferSize) :
    (∃ bits, encode base data = .ok (.ok bits)) ∧
      ∀ bits, encode base data = .ok (.ok bits) → decode base bits = .ok (.ok data) := by
  obtain ⟨bits, henc, hdec⟩ := roundTrip hV hI base data h
  refine ⟨⟨bits, henc⟩, fun bits' henc' => ?_⟩
  obtain rfl : bits = bits' := by simpa [henc] using henc'
  exact hdec

end Compression

/-- A byte is plain data. -/
instance : Pod UInt8 where
  size := 1
  toBytes b := [b]
  ofBytes bs := bs.headD 0
  length_toBytes _ := rfl
  ofBytes_toBytes _ := rfl
  toBytes_ofBytes bs h := by
    obtain ⟨b, rfl⟩ := List.length_eq_one_iff.mp h
    rfl

theorem Compression.encode_decode_bytes :
    letI : Build := ⟨true⟩
    letI := Varinteger.leb128
    (∃ bits, Compression.encode (7 : UInt8) [7, 7, 0, 255] = .ok (.ok bits)) ∧
      ∀ bits, Compression.encode (7 : UInt8) [7, 7, 0, 255] = .ok (.ok bits) →
        Compression.decode (7 : UInt8) bits = .ok (.ok [7, 7, 0, 255]) :=
  letI : Build := ⟨true⟩
  letI := Varinteger.leb128
  Compression.encode_decode Varinteger.leb128_roundTrips (by decide) 7 [7, 7, 0, 255] (by decide)

end Backroll

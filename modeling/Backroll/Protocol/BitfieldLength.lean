import Backroll.Protocol.BitfieldRoundTrip
import Mathlib.Algebra.Order.Ring.Nat
import Mathlib.Tactic.Ring

/-! How long the bitfield coding is: `encode_len_with_offset` runs a copy of the encoder's
loop, and no input grows by more than half. -/
namespace Backroll.Bitfield

/-- The tag bits of a fill never take another group of seven bits. -/
private theorem log_tag (k t : ℕ) (ht : t < 4) : Nat.log 128 (4 * k + t) = Nat.log 128 (4 * k) := by
  by_cases hk : 4 * k < 128
  · rw [Nat.log_of_lt hk, Nat.log_of_lt (by omega)]
  · rw [Nat.log_of_one_lt_of_le (by omega) (by omega),
      Nat.log_of_one_lt_of_le (b := 128) (n := 4 * k) (by omega) (by omega)]
    congr 2
    omega

/-- A header of `k` groups holds every length that `k` bytes of input can reach. -/
private theorem groups_le {k v : ℕ} (hk : 1 ≤ k) (hv : v ≤ 4 * k + 3) : Nat.log 128 v + 1 ≤ k := by
  have hpow : ∀ j, 4 * (j + 1) + 3 < 128 ^ (j + 1) := by
    intro j
    induction j with
    | zero => norm_num
    | succ j ih =>
      rw [Nat.pow_succ]
      omega
  obtain ⟨j, rfl⟩ := Nat.exists_eq_add_of_le' hk
  exact Nat.log_lt_of_lt_pow' (by omega) (hv.trans_lt (hpow j))

section Length

variable [Varinteger]

/-- What `encode_len_with_offset` counts for a run. The varint it measures lacks the tag
bits. -/
def Run.size : Run → ℕ
  | .fill _ len => Varinteger.length ((len <<< 2) % 2 ^ 64)
  | .literal bits => bits.length + Varinteger.length ((bits.length <<< 1) % 2 ^ 64)

theorem Run.written_length (hS : Varinteger.Sized) (r : Run) : r.written.length = r.size := by
  cases r with
  | fill byte len =>
    have hshift : (len <<< 2) % 2 ^ 64 = 4 * (len % 2 ^ 62) := by
      rw [Nat.shiftLeft_eq]
      omega
    have hlog := log_tag (len % 2 ^ 62)
    simp only [written, writeContiguous, size, hshift, List.nil_append]
    rw [hS.length_eq _ (by omega)]
    split <;> rw [hS.encode_length _ (by omega), hS.length_eq _ (by omega)]
    · rw [Nat.add_assoc, hlog _ (by omega)]
    · rw [hlog _ (by omega)]
  | literal bits =>
    simp only [written, writeNoncontiguous, size, List.nil_append, List.length_append]
    rw [hS.encode_length _ (Nat.mod_lt _ (by omega)), Nat.add_comm]

/-- The length loop counts `r` as its open run or literal. -/
def EncodeLenState.Open (st : EncodeLenState) : Run → Prop
  | .fill byte len => st.contiguous = true ∧ st.prevBits = byte ∧ st.partialLen = len
  | .literal bits => st.contiguous = false ∧ st.partialLen = bits.length

namespace EncodeLenState.Open

variable {st : EncodeLenState} {r : Run}

theorem finish (h : st.Open r) : st.finish = st.len + r.size := by
  cases r with
  | fill byte len =>
    obtain ⟨hc, rfl, rfl⟩ := h
    rw [EncodeLenState.finish, if_pos hc, Run.size]
  | literal bits =>
    obtain ⟨hc, hp⟩ := h
    rw [EncodeLenState.finish, if_neg (by simp [hc]), Run.size, hp, Nat.add_assoc]

theorem encodeLenByte (h : st.Open r) {offset i : ℕ} {byte : UInt8}
    (hi : ∀ bits, r = .literal bits → byte = 0 ∨ byte = 255 → offset < i) :
    (Bitfield.encodeLenByte offset i byte st).len =
        st.len + ((r.push byte).1.map Run.size).sum ∧
      (Bitfield.encodeLenByte offset i byte st).Open (r.push byte).2 := by
  obtain ⟨len, partialLen, contiguous, prevBits⟩ := st
  cases r with
  | fill b k =>
    obtain ⟨hc, hb', hk⟩ := h
    simp only at hc hb' hk
    subst hc hb' hk
    by_cases heq : byte = prevBits
    · simp [Bitfield.encodeLenByte, Run.push, heq, EncodeLenState.Open]
    · by_cases hb : byte = 0 ∨ byte = 255 <;>
        simp [Bitfield.encodeLenByte, Run.push, heq, hb, EncodeLenState.Open, Run.size]
  | literal bits =>
    obtain ⟨hc, hl⟩ := h
    simp only at hc hl
    subst hc hl
    by_cases hb : byte = 0 ∨ byte = 255
    · have hlt := hi bits rfl hb
      simp [Bitfield.encodeLenByte, Run.push, hb, hlt, EncodeLenState.Open, Run.size, Nat.add_assoc]
    · simp [Bitfield.encodeLenByte, Run.push, hb, EncodeLenState.Open]

theorem encodeLenBytes (h : st.Open r) {x : UInt8} (hx : r.EndsIn x) {offset i : ℕ}
    {bytes : List UInt8} (hf : FillsFirst (x :: bytes.take (offset + 1 - i))) :
    (Bitfield.encodeLenBytes offset i bytes st).finish =
      st.len + ((runsFrom r bytes).map Run.size).sum := by
  induction bytes generalizing st r x i with
  | nil => simpa [Bitfield.encodeLenBytes, runsFrom] using h.finish
  | cons byte bytes ih =>
    obtain ⟨hi, hf'⟩ := fillsFirst_step hx hf
    obtain ⟨hlen, hopen⟩ := h.encodeLenByte hi
    rw [Bitfield.encodeLenBytes, ih hopen (hx.push byte) hf', hlen, runsFrom, List.map_append,
      List.sum_append, Nat.add_assoc]

end EncodeLenState.Open

theorem encodeLenWithOffset_runs {buf : List UInt8} {offset : ℕ} (ho : offset ≤ buf.length)
    (hf : FillsFirst ((buf.drop offset).take (offset + 1))) :
    encodeLenWithOffset buf offset = .ok ((runs (buf.drop offset)).map Run.size).sum := by
  rw [encodeLenWithOffset, if_pos ho]
  generalize buf.drop offset = rest at hf ⊢
  cases rest with
  | nil => simp [encodeLenBytes, EncodeLenState.finish, runs, Run.size]
  | cons byte bytes =>
    have hlen : (encodeLenByte offset 0 byte {}).len = 0 := by
      by_cases hb : byte = 0 ∨ byte = 255 <;> simp [encodeLenByte, hb]
    have hopen : (encodeLenByte offset 0 byte {}).Open (.first byte) := by
      by_cases hb : byte = 0 ∨ byte = 255 <;>
        simp [encodeLenByte, Run.first, hb, EncodeLenState.Open]
    have := @EncodeLenState.Open.encodeLenBytes _ _ _ hopen _ (Run.first_endsIn byte) offset 1 bytes hf
    rw [encodeLenBytes, this, hlen, runs, Nat.zero_add]

/-- Where the encoder writes run after run, the length function counts what it writes. -/
theorem encodeLenWithOffset_eq (hS : Varinteger.Sized) {buf : List UInt8} {offset : ℕ}
    (ho : offset ≤ buf.length) (hf : FillsFirst ((buf.drop offset).take (offset + 1))) :
    encodeLenWithOffset buf offset =
      .ok ((runs (buf.drop offset)).flatMap Run.written).length := by
  rw [encodeLenWithOffset_runs ho hf, List.length_flatMap]
  simp only [Run.written_length hS]

theorem writeContiguous_length_le (hS : Varinteger.Sized) (enc : List UInt8) {len : ℕ}
    (prevBits : UInt8) (hlen : 1 ≤ len) :
    (writeContiguous enc len prevBits).length ≤ enc.length + len := by
  have hshift : (len <<< 2) % 2 ^ 64 = 4 * (len % 2 ^ 62) := by
    rw [Nat.shiftLeft_eq]
    omega
  simp only [writeContiguous, hshift, List.length_append, Nat.add_le_add_iff_left]
  split <;> rw [hS.encode_length _ (by omega), hS.length_eq _ (by omega)] <;>
    exact groups_le hlen (by omega)

/-- A literal's header takes at most half as many bytes as the literal, rounded up. -/
theorem writeNoncontiguous_length_le (hS : Varinteger.Sized) (enc : List UInt8) {bits : List UInt8}
    (hbits : bits ≠ []) :
    2 * (writeNoncontiguous enc bits).length ≤ 2 * enc.length + 3 * bits.length + 1 := by
  have hpos := List.length_pos_of_ne_nil hbits
  have hgroups : Nat.log 128 ((bits.length <<< 1) % 2 ^ 64) + 1 ≤ (bits.length + 1) / 2 := by
    rw [Nat.shiftLeft_eq]
    exact groups_le (by omega) (by omega)
  simp only [writeNoncontiguous, List.length_append]
  rw [hS.encode_length _ (Nat.mod_lt _ (by omega)), hS.length_eq _ (Nat.mod_lt _ (by omega))]
  omega

namespace EncodeState

/-- Something is open: a run of at least one byte, or a literal with a byte in it. -/
def Started (st : EncodeState) : Prop :=
  if st.contiguous then 1 ≤ st.len else st.noncontiguousBits ≠ []

/-- Twice what is written, three times what is read but not yet written, and one more while
a literal is open: its header may cost half a byte more than half of it. -/
def cost (st : EncodeState) : ℕ :=
  2 * st.enc.length + 3 * st.noncontiguousBits.length +
    if st.contiguous then 3 * st.len else 1

theorem Started.encodeByte {st : EncodeState} (h : st.Started) (offset i : ℕ) (byte : UInt8) :
    (Bitfield.encodeByte offset i byte st).Started := by
  obtain ⟨enc, len, contiguous, prevBits, literal⟩ := st
  unfold Bitfield.encodeByte
  split_ifs <;> simp_all [Started]

/-- The fill that a literal follows pays for the literal's header. -/
theorem Started.cost_encodeByte (hS : Varinteger.Sized) {st : EncodeState} (h : st.Started)
    (offset i : ℕ) (byte : UInt8) :
    (Bitfield.encodeByte offset i byte st).cost ≤ st.cost + 3 := by
  obtain ⟨enc, len, contiguous, prevBits, literal⟩ := st
  cases contiguous with
  | true =>
    have hpos : 1 ≤ len := h
    have hw := writeContiguous_length_le hS enc prevBits hpos
    by_cases heq : byte = prevBits
    · simp [Bitfield.encodeByte, cost, heq]
      omega
    · by_cases hb : byte = 0 ∨ byte = 255 <;> simp [Bitfield.encodeByte, cost, heq, hb] <;> omega
  | false =>
    have hw := writeNoncontiguous_length_le hS enc
      (by simpa [Started] using h : literal ≠ [])
    by_cases hb : byte = 0 ∨ byte = 255
    · by_cases hi : offset < i
      · simp [Bitfield.encodeByte, cost, hb, hi]
        omega
      · -- the literal stays pending beside the new run
        simp [Bitfield.encodeByte, cost, hb, hi]
    · simp [Bitfield.encodeByte, cost, hb]
      omega

theorem Started.finish_length_le (hS : Varinteger.Sized) {st : EncodeState} (h : st.Started) :
    2 * st.finish.length ≤ st.cost := by
  obtain ⟨enc, len, contiguous, prevBits, literal⟩ := st
  cases contiguous with
  | true =>
    have hpos : 1 ≤ len := h
    have hw := writeContiguous_length_le hS enc prevBits hpos
    simp [finish, cost]
    omega
  | false =>
    have hw := writeNoncontiguous_length_le hS enc
      (by simpa [Started] using h : literal ≠ [])
    simpa [finish, cost] using hw

theorem Started.encodeBytes_length_le (hS : Varinteger.Sized) {st : EncodeState} (h : st.Started)
    (offset i : ℕ) (bytes : List UInt8) :
    2 * (encodeBytes offset i bytes st).finish.length ≤ st.cost + 3 * bytes.length := by
  induction bytes generalizing st i with
  | nil => exact h.finish_length_le hS
  | cons byte bytes ih =>
    have hstep := h.cost_encodeByte hS offset i byte
    have hrest := ih (h.encodeByte offset i byte) (i + 1)
    rw [encodeBytes, List.length_cons]
    omega

end EncodeState

theorem encodeWithOffset_length_le (hS : Varinteger.Sized) {buf e : List UInt8} {offset n : ℕ}
    (h : encodeWithOffset buf offset = .ok (e, n)) (hlt : offset < buf.length) :
    e.length ≤ buf.length - offset + (buf.length - offset + 1) / 2 := by
  rw [encodeWithOffset, if_pos hlt.le] at h
  obtain ⟨rfl, -⟩ : _ = e ∧ _ = n := by simpa using h
  have hlen : (buf.drop offset).length = buf.length - offset := List.length_drop
  generalize buf.drop offset = rest at h hlen ⊢
  cases rest with
  | nil => simp at hlen; omega
  | cons byte bytes =>
    have hstart : (encodeByte offset 0 byte {}).Started := by
      by_cases hb : byte = 0 ∨ byte = 255 <;> simp [encodeByte, hb, EncodeState.Started]
    have hcost : (encodeByte offset 0 byte {}).cost ≤ 4 := by
      by_cases hb : byte = 0 ∨ byte = 255 <;> simp [encodeByte, hb, EncodeState.cost]
    have := hstart.encodeBytes_length_le hS offset (0 + 1) bytes
    rw [List.length_cons] at hlen
    rw [encodeBytes]
    omega

/-- A non-empty buffer's encoding is as long as `encode_len_with_offset` says, and at most
half as long again as the buffer. -/
theorem encode_length (hS : Varinteger.Sized) {buf : List UInt8} (h : buf ≠ []) :
    ∃ e, encode buf = .ok e ∧ encodeLenWithOffset buf 0 = .ok e.length ∧
      e.length ≤ buf.length + (buf.length + 1) / 2 := by
  have hf : FillsFirst ((buf.drop 0).take (0 + 1)) := fillsFirst_take_one _
  have henc := encodeWithOffset_runs (Nat.zero_le _) hf
  refine ⟨_, by rw [encode, henc]; rfl, encodeLenWithOffset_eq hS (Nat.zero_le _) hf, ?_⟩
  exact encodeWithOffset_length_le hS henc (List.length_pos_of_ne_nil h)

end Length

theorem encode_length_leb128 :
    letI := Varinteger.leb128
    ([1, 0, 1, 0, 1] : List UInt8) ≠ [] ∧
      ∃ e, encode [1, 0, 1, 0, 1] = .ok e ∧ encodeLenWithOffset [1, 0, 1, 0, 1] 0 = .ok e.length ∧
        e.length ≤ 5 + (5 + 1) / 2 :=
  letI := Varinteger.leb128
  ⟨by simp, encode_length Varinteger.leb128_roundTrips.sized (by simp)⟩

end Backroll.Bitfield

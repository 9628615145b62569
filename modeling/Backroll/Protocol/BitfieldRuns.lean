import Backroll.Protocol.Bitfield
import Mathlib.Data.Nat.Bitwise

/-! The bitfield coding as a list of runs: the encoder writes the runs of its input one
after another, and both passes of the decoder read such a list back. -/
namespace Backroll.Bitfield

/-- What one header and its payload stand for. -/
inductive Run
  | fill (byte : UInt8) (len : ℕ)
  | literal (bytes : List UInt8)

namespace Run

/-- A fill repeats `0x00` or `0xFF`, and the header of a valid run fits a `u64`. -/
def Valid : Run → Prop
  | fill byte len => (byte = 0 ∨ byte = 255) ∧ len < 2 ^ 62
  | literal bytes => bytes.length < 2 ^ 63

def expand : Run → List UInt8
  | fill byte len => List.replicate len byte
  | literal bytes => bytes

def header : Run → ℕ
  | fill byte len => 4 * len + 1 + if byte = 255 then 2 else 0
  | literal bytes => 2 * bytes.length

def payload : Run → List UInt8
  | fill _ _ => []
  | literal bytes => bytes

theorem header_lt {r : Run} (h : r.Valid) : r.header < 2 ^ 64 := by
  cases r with
  | fill byte len =>
    simp only [Valid] at h
    simp only [header]
    split <;> omega
  | literal bytes =>
    simp only [Valid] at h
    simp only [header]
    omega

theorem runLength_header (r : Run) : runLength r.header = r.expand.length := by
  cases r with
  | fill byte len =>
    simp only [runLength, header, expand, List.length_replicate, Nat.and_one_is_mod,
      Nat.shiftRight_eq_div_pow]
    split_ifs <;> omega
  | literal bytes =>
    simp only [runLength, header, expand, Nat.and_one_is_mod, Nat.shiftRight_eq_div_pow]
    split_ifs <;> omega

/-- The run that a header stands for once the shift has dropped its two high bits. -/
def wrap : Run → Run
  | fill byte len => fill byte (len % 2 ^ 62)
  | literal bytes => literal bytes

theorem wrap_of_valid {r : Run} (h : r.Valid) : r.wrap = r := by
  cases r with
  | fill byte len => simp only [wrap, Nat.mod_eq_of_lt h.2]
  | literal bytes => rfl

/-- A byte next to the open run: the runs it closes and the run that is open then. -/
def push : Run → UInt8 → List Run × Run
  | fill b len, byte =>
    if byte = b then ([], fill b (len + 1))
    else if byte = 0 ∨ byte = 255 then ([fill b len], fill byte 1)
    else ([fill b len], literal [byte])
  | literal bits, byte =>
    if byte = 0 ∨ byte = 255 then ([literal bits], fill byte 1)
    else ([], literal (bits ++ [byte]))

theorem push_closed (r : Run) (byte : UInt8) : (r.push byte).1 = [] ∨ (r.push byte).1 = [r] := by
  cases r with
  | fill b len => simp only [push]; split_ifs <;> simp
  | literal bits => simp only [push]; split <;> simp

theorem push_expand (r : Run) (byte : UInt8) :
    (r.push byte).1.flatMap expand ++ (r.push byte).2.expand = r.expand ++ [byte] := by
  cases r with
  | fill b len =>
    simp only [push]
    split_ifs with heq hb
    · subst heq
      simp [expand, List.replicate_succ']
    · simp [expand]
    · simp [expand]
  | literal bits =>
    simp only [push]
    split <;> simp [expand]

/-- A fill repeats `0x00` or `0xFF`. -/
def Proper : Run → Prop
  | fill byte _ => byte = 0 ∨ byte = 255
  | literal _ => True

/-- The run has been read up to `x`: a literal is not empty and holds no fill byte. -/
def EndsIn : Run → UInt8 → Prop
  | fill byte _, x => (byte = 0 ∨ byte = 255) ∧ x = byte
  | literal bytes, x => x ∈ bytes ∧ ∀ y ∈ bytes, ¬(y = 0 ∨ y = 255)

theorem EndsIn.proper {r : Run} {x : UInt8} (h : r.EndsIn x) : r.Proper := by
  cases r with
  | fill byte len => exact h.1
  | literal bytes => trivial

theorem EndsIn.push {r : Run} {x : UInt8} (h : r.EndsIn x) (byte : UInt8) :
    (r.push byte).2.EndsIn byte := by
  cases r with
  | fill b len =>
    simp only [Run.push]
    split_ifs with heq hb
    · exact ⟨h.1, heq⟩
    · exact ⟨hb, rfl⟩
    · exact ⟨List.mem_singleton_self _, by simpa using hb⟩
  | literal bits =>
    simp only [Run.push]
    split_ifs with hb
    · exact ⟨hb, rfl⟩
    · refine ⟨by simp, fun y hy => ?_⟩
      rcases List.mem_append.mp hy with hy | hy
      · exact h.2 y hy
      · rwa [List.mem_singleton.mp hy]

/-- The run that the first byte opens. -/
def first (byte : UInt8) : Run :=
  if byte = 0 ∨ byte = 255 then fill byte 1 else literal [byte]

theorem first_expand (byte : UInt8) : (first byte).expand = [byte] := by
  unfold first
  split <;> rfl

theorem first_endsIn (byte : UInt8) : (first byte).EndsIn byte := by
  unfold first
  split_ifs with hb
  · exact ⟨hb, rfl⟩
  · exact ⟨List.mem_singleton_self _, by simpa using hb⟩

end Run

/-- The runs of the open run `r` and the bytes behind it. -/
def runsFrom : Run → List UInt8 → List Run
  | r, [] => [r]
  | r, byte :: bytes => (r.push byte).1 ++ runsFrom (r.push byte).2 bytes

/-- The runs of a byte string, each as long as it can be. Of the empty one it is an empty
literal. -/
def runs : List UInt8 → List Run
  | [] => [.literal []]
  | byte :: bytes => runsFrom (.first byte) bytes

theorem runsFrom_expand (r : Run) (bytes : List UInt8) :
    (runsFrom r bytes).flatMap Run.expand = r.expand ++ bytes := by
  induction bytes generalizing r with
  | nil => simp [runsFrom]
  | cons byte bytes ih =>
    rw [runsFrom, List.flatMap_append, ih, ← List.append_assoc, Run.push_expand]
    simp

theorem runsFrom_length_le (r : Run) (bytes : List UInt8) :
    (runsFrom r bytes).length ≤ bytes.length + 1 := by
  induction bytes generalizing r with
  | nil => simp [runsFrom]
  | cons byte bytes ih =>
    have := ih (r.push byte).2
    rw [runsFrom, List.length_append, List.length_cons]
    rcases r.push_closed byte with h | h <;>
      simp only [h, List.length_nil, List.length_singleton] <;> omega

theorem runsFrom_proper {r : Run} {x : UInt8} (h : r.EndsIn x) (bytes : List UInt8) :
    ∀ r' ∈ runsFrom r bytes, r'.Proper := by
  induction bytes generalizing r x with
  | nil => simpa [runsFrom] using h.proper
  | cons byte bytes ih =>
    intro r' hr'
    rcases List.mem_append.mp hr' with hr' | hr'
    · rcases r.push_closed byte with hc | hc
      · simp [hc] at hr'
      · obtain rfl : r' = r := by simpa [hc] using hr'
        exact h.proper
    · exact ih (h.push byte) r' hr'

theorem runs_expand (bytes : List UInt8) : (runs bytes).flatMap Run.expand = bytes := by
  cases bytes with
  | nil => rfl
  | cons byte bytes =>
    rw [runs, runsFrom_expand, Run.first_expand, List.singleton_append]

theorem runs_length_le (bytes : List UInt8) : (runs bytes).length ≤ bytes.length + 1 := by
  cases bytes with
  | nil => simp [runs]
  | cons byte bytes => exact (runsFrom_length_le _ bytes).trans (by simp)

theorem runs_proper (bytes : List UInt8) : ∀ r ∈ runs bytes, r.Proper := by
  cases bytes with
  | nil => simp [runs, Run.Proper]
  | cons byte bytes => exact runsFrom_proper (Run.first_endsIn byte) bytes

theorem length_expand_le {rs : List Run} {r : Run} (h : r ∈ rs) :
    r.expand.length ≤ (rs.flatMap Run.expand).length := by
  obtain ⟨s, t, rfl⟩ := List.append_of_mem h
  simp only [List.flatMap_append, List.flatMap_cons, List.length_append]
  omega

theorem runs_valid {bytes : List UInt8} (h : bytes.length < 2 ^ 62) :
    ∀ r ∈ runs bytes, r.Valid := by
  intro r hr
  have hproper := runs_proper bytes r hr
  have hle := length_expand_le hr
  rw [runs_expand] at hle
  cases r with
  | fill byte len =>
    simp only [Run.expand, List.length_replicate] at hle
    exact ⟨hproper, by omega⟩
  | literal bits =>
    simp only [Run.expand] at hle
    simp only [Run.Valid]
    omega

/-- A fill byte follows fill bytes only. -/
def FillsFirst (bytes : List UInt8) : Prop :=
  bytes.IsChain fun x y => y = 0 ∨ y = 255 → x = 0 ∨ x = 255

instance (bytes : List UInt8) : Decidable (FillsFirst bytes) :=
  inferInstanceAs (Decidable (bytes.IsChain _))

/-- A literal cannot end before the first byte. -/
theorem fillsFirst_take_one (bytes : List UInt8) : FillsFirst (bytes.take 1) := by
  cases bytes with
  | nil => exact .nil
  | cons byte bytes => exact .singleton _

/-- What the next byte finds of the bytes for which the flush test fails. -/
theorem fillsFirst_step {r : Run} {x byte : UInt8} {bytes : List UInt8} {offset i : ℕ}
    (hx : r.EndsIn x) (hf : FillsFirst (x :: (byte :: bytes).take (offset + 1 - i))) :
    (∀ bits, r = .literal bits → byte = 0 ∨ byte = 255 → offset < i) ∧
      FillsFirst (byte :: bytes.take (offset + 1 - (i + 1))) := by
  by_cases hi : offset < i
  · refine ⟨fun _ _ _ => hi, ?_⟩
    rw [Nat.sub_eq_zero_of_le (by omega), List.take_zero]
    exact .singleton _
  · rw [show offset + 1 - i = (offset + 1 - (i + 1)) + 1 by omega, List.take_succ_cons] at hf
    obtain ⟨hxb, hf⟩ := List.isChain_cons_cons.mp hf
    refine ⟨?_, hf⟩
    rintro bits rfl hb
    exact absurd (hxb hb) (hx.2 x hx.1)

theorem fillsFirst_cons {r : Run} {x byte : UInt8} {bytes : List UInt8} {offset i : ℕ}
    (hx : r.EndsIn x) (hi : ∀ bits, r = .literal bits → byte = 0 ∨ byte = 255 → offset < i)
    (hf : FillsFirst (byte :: bytes.take (offset + 1 - (i + 1)))) :
    FillsFirst (x :: (byte :: bytes).take (offset + 1 - i)) := by
  by_cases hlt : offset < i
  · rw [Nat.sub_eq_zero_of_le (by omega), List.take_zero]
    exact .singleton _
  · rw [show offset + 1 - i = (offset + 1 - (i + 1)) + 1 by omega, List.take_succ_cons]
    refine List.isChain_cons_cons.mpr ⟨fun hb => ?_, hf⟩
    cases r with
    | fill b len => exact hx.2 ▸ hx.1
    | literal bits => exact absurd (hi bits rfl hb) hlt

variable [Varinteger]

namespace Run

def bytes (r : Run) : List UInt8 := Varinteger.encode r.header ++ r.payload

theorem bytes_length_pos (hV : Varinteger.RoundTrips) {r : Run} (h : r.Valid) :
    0 < r.bytes.length := by
  have := hV.encode_pos (header_lt h)
  simp only [bytes, List.length_append]
  omega

/-- What the encoder writes for a run: a header loses what its shift pushes out of a
`u64`. -/
def written : Run → List UInt8
  | fill byte len => writeContiguous [] len byte
  | literal bits => writeNoncontiguous [] bits

theorem written_eq {r : Run} (h : r.expand.length < 2 ^ 63) : r.written = r.wrap.bytes := by
  cases r with
  | fill byte len =>
    have hlen : (len <<< 2) % 2 ^ 64 = 4 * (len % 2 ^ 62) := by
      rw [Nat.shiftLeft_eq]
      omega
    simp only [written, writeContiguous, hlen, wrap, bytes, header, payload, List.append_nil,
      List.nil_append]
    split <;> rfl
  | literal bits =>
    have hlen : (bits.length <<< 1) % 2 ^ 64 = 2 * bits.length := by
      simp only [expand] at h
      rw [Nat.shiftLeft_eq, Nat.mod_eq_of_lt (by omega)]
      omega
    simp only [written, writeNoncontiguous, hlen, wrap, bytes, header, payload, List.nil_append]

end Run

theorem writeContiguous_eq (enc : List UInt8) (len : ℕ) (prevBits : UInt8) :
    writeContiguous enc len prevBits = enc ++ (Run.fill prevBits len).written := by
  simp [Run.written, writeContiguous]

theorem writeNoncontiguous_eq (enc bits : List UInt8) :
    writeNoncontiguous enc bits = enc ++ (Run.literal bits).written := by
  simp [Run.written, writeNoncontiguous]

/-- The encoder holds `r` as its open run or literal. -/
def EncodeState.Open (st : EncodeState) : Run → Prop
  | .fill byte len =>
    st.contiguous = true ∧ st.prevBits = byte ∧ st.len = len ∧ st.noncontiguousBits = []
  | .literal bits => st.contiguous = false ∧ st.noncontiguousBits = bits

namespace EncodeState.Open

variable {st : EncodeState} {r : Run}

theorem finish (h : st.Open r) : st.finish = st.enc ++ r.written := by
  cases r with
  | fill byte len =>
    obtain ⟨hc, rfl, rfl, -⟩ := h
    rw [EncodeState.finish, if_pos hc, writeContiguous_eq]
  | literal bits =>
    obtain ⟨hc, rfl⟩ := h
    rw [EncodeState.finish, if_neg (by simp [hc]), writeNoncontiguous_eq]

/-- One more byte, unless it closes a literal where the flush test fails. -/
theorem encodeByte (h : st.Open r) {offset i : ℕ} {byte : UInt8}
    (hi : ∀ bits, r = .literal bits → byte = 0 ∨ byte = 255 → offset < i) :
    (Bitfield.encodeByte offset i byte st).enc = st.enc ++ (r.push byte).1.flatMap Run.written ∧
      (Bitfield.encodeByte offset i byte st).Open (r.push byte).2 := by
  obtain ⟨enc, len, contiguous, prevBits, literal⟩ := st
  cases r with
  | fill b k =>
    obtain ⟨hc, hb', hk, hl⟩ := h
    simp only at hc hb' hk hl
    subst hc hb' hk hl
    by_cases heq : byte = prevBits
    · -- the open run grows
      simp [Bitfield.encodeByte, Run.push, heq, EncodeState.Open]
    · by_cases hb : byte = 0 ∨ byte = 255 <;>
        simp [Bitfield.encodeByte, Run.push, heq, hb, EncodeState.Open, writeContiguous_eq]
  | literal bits =>
    obtain ⟨hc, hl⟩ := h
    simp only at hc hl
    subst hc hl
    by_cases hb : byte = 0 ∨ byte = 255
    · have hlt := hi literal rfl hb
      simp [Bitfield.encodeByte, Run.push, hb, hlt, EncodeState.Open, writeNoncontiguous_eq]
    · simp [Bitfield.encodeByte, Run.push, hb, EncodeState.Open]

/-- The flush test fails for the first `offset + 1` bytes. Where no literal ends among them,
the encoder writes run after run. -/
theorem encodeBytes (h : st.Open r) {x : UInt8} (hx : r.EndsIn x) {offset i : ℕ}
    {bytes : List UInt8} (hf : FillsFirst (x :: bytes.take (offset + 1 - i))) :
    (Bitfield.encodeBytes offset i bytes st).finish =
      st.enc ++ (runsFrom r bytes).flatMap Run.written := by
  induction bytes generalizing st r x i with
  | nil => simpa [Bitfield.encodeBytes, runsFrom] using h.finish
  | cons byte bytes ih =>
    obtain ⟨hi, hf'⟩ := fillsFirst_step hx hf
    obtain ⟨henc, hopen⟩ := h.encodeByte hi
    rw [Bitfield.encodeBytes, ih hopen (hx.push byte) hf', henc, runsFrom]
    simp

end EncodeState.Open

theorem encodeByte_first (offset : ℕ) (byte : UInt8) :
    (encodeByte offset 0 byte {}).enc = [] ∧ (encodeByte offset 0 byte {}).Open (.first byte) := by
  by_cases hb : byte = 0 ∨ byte = 255 <;> simp [encodeByte, Run.first, hb, EncodeState.Open]

theorem encodeWithOffset_runs {buf : List UInt8} {offset : ℕ} (ho : offset ≤ buf.length)
    (hf : FillsFirst ((buf.drop offset).take (offset + 1))) :
    encodeWithOffset buf offset =
      .ok ((runs (buf.drop offset)).flatMap Run.written, buf.length - offset) := by
  rw [encodeWithOffset, if_pos ho]
  generalize buf.drop offset = rest at hf ⊢
  cases rest with
  | nil => simp [encodeBytes, EncodeState.finish, runs, writeNoncontiguous_eq]
  | cons byte bytes =>
    obtain ⟨henc, hopen⟩ := encodeByte_first offset byte
    have := @EncodeState.Open.encodeBytes _ _ _ hopen _ (Run.first_endsIn byte) offset 1 bytes hf
    rw [encodeBytes, this, henc, runs, List.nil_append]

/-- The encoder writes a list of valid runs, at most one for each byte and one to close, that
expands to its input. -/
theorem encode_eq_runs (buf : List UInt8) (hlen : buf.length < 2 ^ 62) :
    ∃ rs : List Run, (∀ r ∈ rs, r.Valid) ∧ rs.length ≤ buf.length + 1 ∧
      encode buf = .ok (rs.flatMap Run.bytes) ∧ rs.flatMap Run.expand = buf := by
  have hvalid := runs_valid hlen
  have hwritten : ∀ r ∈ runs buf, r.written = r.bytes := by
    intro r hr
    have hle := length_expand_le hr
    rw [runs_expand] at hle
    rw [Run.written_eq (by omega), Run.wrap_of_valid (hvalid r hr)]
  refine ⟨runs buf, hvalid, runs_length_le buf, ?_, runs_expand buf⟩
  rw [encode, encodeWithOffset_runs (Nat.zero_le _) (fillsFirst_take_one _), List.drop_zero,
    List.flatMap_congr hwritten]
  rfl

end Backroll.Bitfield

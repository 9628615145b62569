import Backroll.Protocol.BitfieldRuns

/-! Both passes of the decoder over a list of runs, and the round trip of the bitfield
coding. -/
namespace Backroll.Bitfield

private theorem and_two_pos (n : ℕ) : n &&& 2 > 0 ↔ n / 2 % 2 = 1 := by
  have hand := Nat.and_two_pow n 1
  rw [pow_one, Nat.testBit_eq_decide_div_mod_eq, pow_one] at hand
  rw [hand]
  by_cases h : n / 2 % 2 = 1 <;> simp [h]

/-- The length of the buffer that a list of runs expands to. -/
def expandedLength (rs : List Run) : ℕ := (rs.flatMap Run.expand).length

/-- Behind the header of a run comes its payload. -/
theorem skipPayload_header {r : Run} {offset : ℕ} (h : offset + r.payload.length < 2 ^ 64) :
    skipPayload offset r.header = .ok (offset + r.payload.length) := by
  cases r with
  | fill byte len =>
    have h1 : ¬(Run.fill byte len).header &&& 1 = 0 := by
      simp only [Run.header, Nat.and_one_is_mod]
      split <;> omega
    rw [skipPayload, if_neg h1]
    rfl
  | literal bytes =>
    have h1 : (Run.literal bytes).header &&& 1 = 0 := by simp [Run.header, Nat.and_one_is_mod]
    rw [skipPayload, if_pos h1, Run.runLength_header]
    exact usizeAdd_of_lt h

/-- Overwriting the head of what is still zero. -/
theorem writeAt_zeros {done bits : List UInt8} {k : ℕ} (h : bits.length ≤ k) :
    writeAt (done ++ List.replicate k 0) done.length bits =
      .ok (done ++ bits ++ List.replicate (k - bits.length) 0) := by
  by_cases hb : bits = []
  · simp [writeAt, hb]
  · rw [writeAt, if_neg hb, if_pos (by simp; omega)]
    simp [List.drop_append]

variable [Varinteger]

private theorem read_header (hV : Varinteger.RoundTrips) {r : Run} (h : r.Valid)
    (pre post : List UInt8) :
    Varinteger.decodeWithOffset (pre ++ r.bytes ++ post) pre.length =
      .ok (r.header, (Varinteger.encode r.header).length) := by
  have hd := hV.decode_encode r.header (Run.header_lt h) pre (r.payload ++ post)
  rw [hV.encode_length r.header (Run.header_lt h)]
  simpa [Run.bytes] using hd

private theorem bytes_length (r : Run) :
    r.bytes.length = (Varinteger.encode r.header).length + r.payload.length := by
  simp [Run.bytes]

/-- The length pass reads one run. -/
theorem decodeLenLoop_run (hV : Varinteger.RoundTrips) {r : Run} (h : r.Valid)
    {pre post : List UInt8} {fuel len : ℕ} (hlen : len + r.expand.length < 2 ^ 64)
    (hbuf : (pre ++ r.bytes ++ post).length < 2 ^ 64) :
    decodeLenLoop (pre ++ r.bytes ++ post) (fuel + 1) pre.length len =
      decodeLenLoop (pre ++ r.bytes ++ post) fuel (pre ++ r.bytes).length
        (len + r.expand.length) := by
  have hpos := Run.bytes_length_pos hV h
  have hb := bytes_length r
  simp only [List.length_append] at hbuf
  rw [decodeLenLoop, if_pos (by simp only [List.length_append]; omega), read_header hV h]
  simp only [Fallible.ok_bind, Run.runLength_header]
  rw [usizeAdd_of_lt (by omega), usizeAdd_of_lt hlen]
  simp only [Fallible.ok_bind]
  rw [skipPayload_header (by omega)]
  simp only [Fallible.ok_bind, List.length_append, hb, Nat.add_assoc]

theorem decodeLenLoop_runs (hV : Varinteger.RoundTrips) {rs : List Run} (h : ∀ r ∈ rs, r.Valid)
    (pre : List UInt8) {fuel : ℕ} (len : ℕ) (hfuel : rs.length ≤ fuel)
    (hlen : len + expandedLength rs < 2 ^ 64)
    (hbuf : (pre ++ rs.flatMap Run.bytes).length < 2 ^ 64) :
    decodeLenLoop (pre ++ rs.flatMap Run.bytes) fuel pre.length len =
      .ok ((pre ++ rs.flatMap Run.bytes).length, len + expandedLength rs) := by
  induction rs generalizing pre fuel len with
  | nil => cases fuel <;> simp [decodeLenLoop, expandedLength]
  | cons r rs ih =>
    obtain ⟨fuel, rfl⟩ : ∃ k, fuel = k + 1 := ⟨fuel - 1, by simp at hfuel; omega⟩
    have hr := h r (by simp)
    have hx : expandedLength (r :: rs) = r.expand.length + expandedLength rs := by
      simp [expandedLength]
    simp only [List.flatMap_cons, ← List.append_assoc, List.length_cons] at hbuf hfuel ⊢
    have hbuf' := hbuf
    simp only [List.length_append] at hbuf'
    rw [decodeLenLoop_run hV hr (by omega) hbuf,
      ih (fun r' hr' => h r' (by simp [hr'])) _ _ (by omega) (by omega) hbuf, hx, Nat.add_assoc]

/-- The write of one run, when the output beyond `done` is still zero. -/
theorem writeRun_run {r : Run} (h : r.Valid) {pre post done : List UInt8} {k : ℕ}
    (hk : r.expand.length ≤ k) (hlen : done.length + k < 2 ^ 64)
    (hbuf : (pre ++ r.bytes ++ post).length < 2 ^ 64) :
    writeRun (pre ++ r.bytes ++ post) (pre.length + (Varinteger.encode r.header).length) r.header
        done.length (done ++ List.replicate k 0) =
      .ok (done ++ r.expand ++ List.replicate (k - r.expand.length) 0) := by
  have hb := bytes_length r
  simp only [List.length_append] at hbuf
  rw [writeRun, Run.runLength_header]
  cases r with
  | fill byte len =>
    simp only [Run.expand, List.length_replicate] at hk ⊢
    by_cases h255 : byte = 255
    · subst h255
      have h1 : (Run.fill 255 len).header &&& 1 > 0 := by
        simp only [Run.header, Nat.and_one_is_mod, if_true]
        omega
      have h2 : (Run.fill 255 len).header &&& 2 > 0 := by
        simp only [and_two_pos, Run.header, if_true]
        omega
      rw [if_pos h1, if_pos h2, writeAt_zeros (by simpa using hk), List.length_replicate]
    · obtain rfl : byte = 0 := h.1.resolve_right h255
      have h1 : (Run.fill 0 len).header &&& 1 > 0 := by
        simp only [Run.header, Nat.and_one_is_mod, if_neg h255]
        omega
      have h2 : ¬(Run.fill 0 len).header &&& 2 > 0 := by
        simp only [and_two_pos, Run.header, if_neg h255]
        omega
      rw [if_pos h1, if_neg h2, List.append_assoc, List.replicate_append_replicate,
        Nat.add_sub_cancel' hk]
  | literal bytes =>
    simp only [Run.payload, Run.expand] at hb hk ⊢
    have h1 : ¬(Run.literal bytes).header &&& 1 > 0 := by
      simp [Run.header, Nat.and_one_is_mod]
    have hsrc : ((pre ++ (Run.literal bytes).bytes ++ post).drop
        (pre.length + (Varinteger.encode (Run.literal bytes).header).length)).take bytes.length =
        bytes := by
      rw [List.append_assoc, ← List.drop_drop, List.drop_left, Run.bytes, List.append_assoc,
        List.drop_left]
      simp [Run.payload]
    rw [if_neg h1, cloneFromSlice, usizeAdd_of_lt (by omega), usizeAdd_of_lt (by omega)]
    simp only [Fallible.ok_bind]
    rw [if_pos (by simp only [List.length_append, List.length_replicate]; omega), hsrc,
      writeAt_zeros hk]

/-- The copy pass reads one run. -/
theorem decodeLoop_run (hV : Varinteger.RoundTrips) {r : Run} (h : r.Valid)
    {pre post done : List UInt8} {fuel k : ℕ} (hk : r.expand.length ≤ k)
    (hlen : done.length + k < 2 ^ 64) (hbuf : (pre ++ r.bytes ++ post).length < 2 ^ 64) :
    decodeLoop (pre ++ r.bytes ++ post) (fuel + 1) pre.length done.length
        (done ++ List.replicate k 0) =
      decodeLoop (pre ++ r.bytes ++ post) fuel (pre ++ r.bytes).length
        (done ++ r.expand).length
        (done ++ r.expand ++ List.replicate (k - r.expand.length) 0) := by
  have hpos := Run.bytes_length_pos hV h
  have hb := bytes_length r
  have hbuf' := hbuf
  simp only [List.length_append] at hbuf'
  rw [decodeLoop, if_pos (by simp only [List.length_append]; omega), read_header hV h]
  simp only [Fallible.ok_bind]
  rw [usizeAdd_of_lt (by omega)]
  simp only [Fallible.ok_bind]
  rw [writeRun_run h hk hlen hbuf, skipPayload_header (by omega), Run.runLength_header,
    usizeAdd_of_lt (by omega)]
  simp only [Fallible.ok_bind, List.length_append, hb, Nat.add_assoc]

theorem decodeLoop_runs (hV : Varinteger.RoundTrips) {rs : List Run} (h : ∀ r ∈ rs, r.Valid)
    (pre done : List UInt8) {fuel : ℕ} (hfuel : rs.length ≤ fuel)
    (hlen : done.length + expandedLength rs < 2 ^ 64)
    (hbuf : (pre ++ rs.flatMap Run.bytes).length < 2 ^ 64) :
    decodeLoop (pre ++ rs.flatMap Run.bytes) fuel pre.length done.length
        (done ++ List.replicate (expandedLength rs) 0) =
      .ok (done ++ rs.flatMap Run.expand, (pre ++ rs.flatMap Run.bytes).length) := by
  induction rs generalizing pre done fuel with
  | nil => cases fuel <;> simp [decodeLoop, expandedLength]
  | cons r rs ih =>
    obtain ⟨fuel, rfl⟩ : ∃ k, fuel = k + 1 := ⟨fuel - 1, by simp at hfuel; omega⟩
    have hr := h r (by simp)
    have hx : expandedLength (r :: rs) = r.expand.length + expandedLength rs := by
      simp [expandedLength]
    simp only [List.flatMap_cons, ← List.append_assoc, List.length_cons, hx] at hlen hbuf hfuel ⊢
    have hlen' : (done ++ r.expand).length + expandedLength rs < 2 ^ 64 := by
      simp only [List.length_append]
      omega
    rw [decodeLoop_run hV hr (by omega) hlen hbuf, Nat.add_sub_cancel_left,
      ih (fun r' hr' => h r' (by simp [hr'])) _ _ (by omega) hlen' hbuf]

private theorem length_le_bytes (hV : Varinteger.RoundTrips) {rs : List Run}
    (h : ∀ r ∈ rs, r.Valid) : rs.length ≤ (rs.flatMap Run.bytes).length := by
  induction rs with
  | nil => simp
  | cons r rs ih =>
    have hpos := Run.bytes_length_pos hV (h r (by simp))
    have := ih (fun r' hr' => h r' (by simp [hr']))
    simp only [List.flatMap_cons, List.length_append, List.length_cons]
    omega

/-- Headers take at most ten bytes each, and payloads are part of the expansion. -/
theorem length_runs_le (hV : Varinteger.RoundTrips) {rs : List Run} (h : ∀ r ∈ rs, r.Valid) :
    (rs.flatMap Run.bytes).length ≤ 10 * rs.length + expandedLength rs := by
  induction rs with
  | nil => simp
  | cons r rs ih =>
    have hhead := Run.header_lt (h r (by simp))
    have h10 : (Varinteger.encode r.header).length ≤ 10 := by
      rw [hV.encode_eq _ hhead]
      exact Leb128.length_encode_le hhead
    have hpay : r.payload.length ≤ r.expand.length := by
      cases r <;> simp [Run.payload, Run.expand]
    have := ih (fun r' hr' => h r' (by simp [hr']))
    have hb := bytes_length r
    simp only [expandedLength, List.flatMap_cons, List.length_append, List.length_cons] at this ⊢
    omega

section Decode

variable (hV : Varinteger.RoundTrips) {rs : List Run} (h : ∀ r ∈ rs, r.Valid)
include hV h

theorem decodeLenWithOffset_runs (pre : List UInt8) (hlen : expandedLength rs < 2 ^ 64)
    (hbuf : (pre ++ rs.flatMap Run.bytes).length < 2 ^ 64) :
    decodeLenWithOffset (pre ++ rs.flatMap Run.bytes) pre.length =
      .ok (.ok (expandedLength rs)) := by
  have hfuel := length_le_bytes hV h
  have hl := decodeLenLoop_runs hV h pre 0 hfuel (by omega) hbuf
  rw [decodeLenWithOffset, List.length_append, Nat.add_sub_cancel_left, hl]
  simp

/-- Behind any prefix, the decoder reads the runs back and nothing is left. -/
theorem decodeWithOffset_runs (pre : List UInt8) (hlen : expandedLength rs < 2 ^ 63)
    (hbuf : (pre ++ rs.flatMap Run.bytes).length < 2 ^ 64) :
    decodeWithOffset (pre ++ rs.flatMap Run.bytes) pre.length =
      .ok (.ok (rs.flatMap Run.expand, 0)) := by
  have hd := decodeLenWithOffset_runs hV h pre (by omega) hbuf
  have hl := decodeLoop_runs hV h pre [] (length_le_bytes hV h)
    (by simp only [List.length_nil]; omega) hbuf
  simp only [List.nil_append, List.length_nil] at hl
  have hrest : (pre ++ rs.flatMap Run.bytes).length - pre.length =
      (rs.flatMap Run.bytes).length := by
    rw [List.length_append, Nat.add_sub_cancel_left]
  simp only [decodeWithOffset, hd, Fallible.ok_bind, zeroedVec, if_pos hlen, hrest, hl]
  simp

theorem decodeLen_runs (hlen : expandedLength rs < 2 ^ 64)
    (hbuf : (rs.flatMap Run.bytes).length < 2 ^ 64) :
    decodeLen (rs.flatMap Run.bytes) = .ok (.ok (expandedLength rs)) :=
  decodeLenWithOffset_runs hV h [] hlen hbuf

theorem decode_runs (hlen : expandedLength rs < 2 ^ 63)
    (hbuf : (rs.flatMap Run.bytes).length < 2 ^ 64) :
    decode (rs.flatMap Run.bytes) = .ok (.ok (rs.flatMap Run.expand)) := by
  have hd := decodeWithOffset_runs hV h [] hlen hbuf
  rw [List.nil_append, List.length_nil] at hd
  rw [decode, hd]
  rfl

end Decode

end Backroll.Bitfield

import Backroll.Protocol.BitfieldLength

/-! The bitfield coding from an offset on. The flush test compares the number of bytes read
with the offset itself, so a literal that ends early is held back, and what follows it is
written first. -/
namespace Backroll.Bitfield

namespace Run

/-- A fill whose length survives the shift of its header. -/
def Short : Run → Prop
  | fill _ len => len < 2 ^ 62
  | literal _ => True

theorem Short.wrap {r : Run} (h : r.Short) : r.wrap = r := by
  cases r with
  | fill byte len => simp only [Run.wrap, Nat.mod_eq_of_lt h]
  | literal bits => rfl

theorem wrap_expand_le (r : Run) : r.wrap.expand.length ≤ r.expand.length := by
  cases r with
  | fill byte len => simpa [wrap, expand] using Nat.mod_le _ _
  | literal bits => exact le_rfl

theorem short_of_length {r : Run} (h : r.wrap.expand.length = r.expand.length) : r.Short := by
  cases r with
  | fill byte len =>
    simp only [wrap, expand, List.length_replicate] at h
    simp only [Short]
    omega
  | literal bits => trivial

theorem Proper.wrap_valid {r : Run} (h : r.Proper) (hlen : r.expand.length < 2 ^ 63) :
    r.wrap.Valid := by
  cases r with
  | fill byte len => exact ⟨h, Nat.mod_lt _ (by omega)⟩
  | literal bits => exact hlen

end Run

theorem expandedLength_append (rs rs' : List Run) :
    expandedLength (rs ++ rs') = expandedLength rs + expandedLength rs' := by
  simp [expandedLength]

theorem expandedLength_cons (r : Run) (rs : List Run) :
    expandedLength (r :: rs) = r.expand.length + expandedLength rs := by
  simp [expandedLength]

theorem expandedLength_wrap_le (rs : List Run) :
    expandedLength (rs.map Run.wrap) ≤ expandedLength rs := by
  induction rs with
  | nil => exact le_rfl
  | cons r rs ih =>
    have := r.wrap_expand_le
    simp only [List.map_cons, expandedLength_cons]
    omega

theorem short_of_expandedLength {rs : List Run}
    (h : expandedLength (rs.map Run.wrap) = expandedLength rs) : ∀ r ∈ rs, r.Short := by
  induction rs with
  | nil => simp
  | cons r rs ih =>
    have hr := r.wrap_expand_le
    have hrs := expandedLength_wrap_le rs
    simp only [List.map_cons, expandedLength_cons] at h
    rintro r' (_ | ⟨_, hr'⟩)
    · exact Run.short_of_length (by omega)
    · exact ih (by omega) r' hr'

/-- The runs come back whole just when no fill is too long for its header. -/
theorem wrap_expand_iff (rs : List Run) :
    (rs.map Run.wrap).flatMap Run.expand = rs.flatMap Run.expand ↔ ∀ r ∈ rs, r.Short := by
  constructor
  · intro h
    exact short_of_expandedLength (congrArg List.length h)
  · intro h
    rw [List.map_congr_left fun r hr => (h r hr).wrap, List.map_id']

section Offset

variable [Varinteger]

/-- What the decoder makes of written runs behind any prefix. -/
theorem decodeWithOffset_written (hV : Varinteger.RoundTrips) {rs : List Run}
    (h : ∀ r ∈ rs, r.Proper) (hlen : expandedLength rs < 2 ^ 63) (pre : List UInt8)
    (hbuf : (pre ++ rs.flatMap Run.written).length < 2 ^ 64) :
    decodeWithOffset (pre ++ rs.flatMap Run.written) pre.length =
      .ok (.ok ((rs.map Run.wrap).flatMap Run.expand, 0)) := by
  have hlt : ∀ r ∈ rs, r.expand.length < 2 ^ 63 := fun r hr =>
    (length_expand_le hr).trans_lt hlen
  have hwritten : rs.flatMap Run.written = (rs.map Run.wrap).flatMap Run.bytes := by
    rw [List.flatMap_map]
    exact List.flatMap_congr fun r hr => Run.written_eq (hlt r hr)
  have hvalid : ∀ r ∈ rs.map Run.wrap, r.Valid := by
    intro r hr
    obtain ⟨r', hr', rfl⟩ := List.mem_map.mp hr
    exact (h r' hr').wrap_valid (hlt r' hr')
  rw [hwritten] at hbuf ⊢
  exact decodeWithOffset_runs hV hvalid pre ((expandedLength_wrap_le rs).trans_lt hlen) hbuf

theorem decode_written (hV : Varinteger.RoundTrips) {rs : List Run}
    (h : ∀ r ∈ rs, r.Proper) (hlen : expandedLength rs < 2 ^ 63)
    (hbuf : (rs.flatMap Run.written).length < 2 ^ 64) :
    decode (rs.flatMap Run.written) = .ok (.ok ((rs.map Run.wrap).flatMap Run.expand)) := by
  have hd := decodeWithOffset_written hV h hlen [] hbuf
  rw [List.nil_append, List.length_nil] at hd
  rw [decode, hd]
  rfl

/-- How many bytes read so far are not yet written. -/
def EncodeState.held (st : EncodeState) : ℕ :=
  st.noncontiguousBits.length + if st.contiguous then st.len else 0

/-- The runs `rs` that the encoder writes from a state on: an open run comes first, a literal
pending beside it comes later or is lost. -/
structure EncodeState.Emits (st : EncodeState) (more : ℕ) (out : List UInt8) (rs : List Run) :
    Prop where
  out_eq : out = st.enc ++ rs.flatMap Run.written
  length_le : expandedLength rs ≤ st.held + more
  proper : ∀ r ∈ rs, r.Proper
  head : st.contiguous = true → ∃ k rs', rs = .fill st.prevBits (st.len + k) :: rs'

theorem EncodeState.exists_emits {st : EncodeState}
    (h : st.contiguous = true → st.prevBits = 0 ∨ st.prevBits = 255) (offset i : ℕ)
    (bytes : List UInt8) :
    ∃ rs, st.Emits bytes.length (encodeBytes offset i bytes st).finish rs := by
  induction bytes generalizing st i with
  | nil =>
    obtain ⟨enc, len, contiguous, prevBits, literal⟩ := st
    cases contiguous with
    | true =>
      refine ⟨[.fill prevBits len], ?_, ?_, ?_, fun _ => ⟨0, [], rfl⟩⟩
      · simp [encodeBytes, EncodeState.finish, writeContiguous_eq]
      · simp [expandedLength, Run.expand, held]
      · simpa [Run.Proper] using h
    | false =>
      refine ⟨[.literal literal], ?_, ?_, ?_, by simp⟩
      · simp [encodeBytes, EncodeState.finish, writeNoncontiguous_eq]
      · simp [expandedLength, Run.expand, held]
      · simp [Run.Proper]
  | cons byte bytes ih =>
    have hnext : (encodeByte offset i byte st).contiguous = true →
        (encodeByte offset i byte st).prevBits = 0 ∨
          (encodeByte offset i byte st).prevBits = 255 := by
      unfold encodeByte
      split_ifs <;> simp_all
    obtain ⟨rs, out_eq, length_le, proper, head⟩ := ih hnext (i + 1)
    obtain ⟨enc, len, contiguous, prevBits, literal⟩ := st
    rw [encodeBytes]
    cases contiguous with
    | true =>
      by_cases heq : byte = prevBits
      · -- the open run grows
        subst heq
        obtain ⟨k, rs', rfl⟩ := head (by simp [encodeByte])
        refine ⟨_, by simpa [encodeByte] using out_eq, ?_, proper, fun _ => ⟨k + 1, rs', ?_⟩⟩
        · simp [encodeByte, held] at length_le ⊢
          omega
        · simp [encodeByte]
          omega
      · -- the open run ends here
        refine ⟨.fill prevBits len :: rs, ?_, ?_, ?_, fun _ => ⟨0, rs, rfl⟩⟩
        · rw [out_eq]
          by_cases hb : byte = 0 ∨ byte = 255 <;> simp [encodeByte, heq, hb, writeContiguous_eq]
        · rw [expandedLength_cons]
          by_cases hb : byte = 0 ∨ byte = 255 <;>
            simp [encodeByte, heq, hb, held, Run.expand] at length_le ⊢ <;> omega
        · rintro r (_ | ⟨_, hr⟩)
          · exact h rfl
          · exact proper r hr
    | false =>
      by_cases hflush : (byte = 0 ∨ byte = 255) ∧ offset < i
      · obtain ⟨hb, hi⟩ := hflush
        refine ⟨.literal literal :: rs, ?_, ?_, ?_, by simp⟩
        · rw [out_eq]
          simp [encodeByte, hb, hi, writeNoncontiguous_eq]
        · rw [expandedLength_cons]
          simp [encodeByte, hb, hi, held, Run.expand] at length_le ⊢
          omega
        · rintro r (_ | ⟨_, hr⟩)
          · trivial
          · exact proper r hr
      · refine ⟨rs, ?_, ?_, proper, by simp⟩
        · rw [out_eq]
          by_cases hb : byte = 0 ∨ byte = 255
          · have hi : ¬offset < i := fun hi => hflush ⟨hb, hi⟩
            simp [encodeByte, hb, hi]
          · simp [encodeByte, hb]
        · by_cases hb : byte = 0 ∨ byte = 255
          · -- the new run opens beside the literal
            have hi : ¬offset < i := fun hi => hflush ⟨hb, hi⟩
            simp [encodeByte, hb, hi, held] at length_le ⊢
            omega
          · simp [encodeByte, hb, held] at length_le ⊢
            omega

/-- The runs `all` of `whole` put a fill where `whole` goes on with a literal. -/
structure Reorders (whole : List UInt8) (all : List Run) : Prop where
  proper : ∀ r ∈ all, r.Proper
  early : ∃ rs x rest c k rs', all = rs ++ .fill c (k + 1) :: rs' ∧
    whole = rs.flatMap Run.expand ++ x :: rest ∧ ¬(x = 0 ∨ x = 255) ∧
    expandedLength (.fill c (k + 1) :: rs') ≤ (x :: rest).length

/-- Some literal ends while the flush test fails. -/
theorem EncodeState.Open.reorders {st : EncodeState} {r : Run} (h : st.Open r) {x : UInt8}
    (hx : r.EndsIn x) {offset i : ℕ} {bytes : List UInt8}
    (hf : ¬FillsFirst (x :: bytes.take (offset + 1 - i))) :
    ∃ all, (Bitfield.encodeBytes offset i bytes st).finish = st.enc ++ all.flatMap Run.written ∧
      Reorders (r.expand ++ bytes) all := by
  induction bytes generalizing st r x i with
  | nil => exact absurd (by rw [List.take_nil]; exact .singleton x) hf
  | cons byte bytes ih =>
    rw [Bitfield.encodeBytes]
    by_cases hflush : ∀ bits, r = .literal bits → byte = 0 ∨ byte = 255 → offset < i
    · -- nothing is held back yet
      obtain ⟨henc, hopen⟩ := h.encodeByte hflush
      have hf' : ¬FillsFirst (byte :: bytes.take (offset + 1 - (i + 1))) := fun hf' =>
        hf (fillsFirst_cons hx hflush hf')
      obtain ⟨all, hout, hproper, rs, y, rest, c, k, rs', rfl, hwhole, hy, hle⟩ :=
        ih hopen (hx.push byte) hf'
      refine ⟨(r.push byte).1 ++ (rs ++ .fill c (k + 1) :: rs'), ?_, ?_, (r.push byte).1 ++ rs, y,
        rest, c, k, rs', by simp, ?_, hy, hle⟩
      · rw [hout, henc]
        simp
      · intro r' hr'
        rcases List.mem_append.mp hr' with hr' | hr'
        · rcases r.push_closed byte with hc | hc
          · simp [hc] at hr'
          · obtain rfl : r' = r := by simpa [hc] using hr'
            exact hx.proper
        · exact hproper r' hr'
      · rw [List.flatMap_append, List.append_assoc, ← hwhole, ← List.append_assoc,
          Run.push_expand, List.append_assoc, List.singleton_append]
    · obtain ⟨bits, rfl, hb, hi⟩ : ∃ bits, r = .literal bits ∧ (byte = 0 ∨ byte = 255) ∧
          ¬offset < i := by simpa using hflush
      obtain ⟨enc, len, contiguous, prevBits, literal⟩ := st
      obtain ⟨hc, hl⟩ := h
      simp only at hc hl
      subst hc hl
      have hst : Bitfield.encodeByte offset i byte ⟨enc, len, false, prevBits, literal⟩ =
          ⟨enc, 1, true, byte, literal⟩ := by
        simp [Bitfield.encodeByte, hb, hi]
      rw [hst]
      obtain ⟨rs, out_eq, length_le, proper, head⟩ :=
        @exists_emits _ ⟨enc, 1, true, byte, literal⟩ (fun _ => hb) offset (i + 1) bytes
      obtain ⟨k, rs', rfl⟩ := head rfl
      obtain ⟨y, literal, rfl⟩ := List.exists_cons_of_ne_nil (List.ne_nil_of_mem hx.1)
      refine ⟨_, out_eq, proper, [], y, literal ++ byte :: bytes, byte, k, rs', ?_, rfl,
        hx.2 y (by simp), ?_⟩
      · simp [Nat.add_comm]
      · simp [held, Nat.add_comm 1 k] at length_le ⊢
        omega

/-- Coding from `offset` on and back gives `buf` from `offset` on, alone or behind any prefix
of a buffer whose length is a `usize`, and the length function agrees. -/
def RoundTripsAt (buf : List UInt8) (offset : ℕ) : Prop :=
  ∃ e, encodeWithOffset buf offset = .ok (e, buf.length - offset) ∧
    decode e = .ok (.ok (buf.drop offset)) ∧
    encodeLenWithOffset buf offset = .ok e.length ∧
    ∀ pre : List UInt8, (pre ++ e).length < 2 ^ 64 →
      decodeWithOffset (pre ++ e) pre.length = .ok (.ok (buf.drop offset, 0))

theorem encodeWithOffset_length_lt (hV : Varinteger.RoundTrips) {buf e : List UInt8}
    {offset n : ℕ} (hbuf : buf.length < 2 ^ 63) (ho : offset ≤ buf.length)
    (h : encodeWithOffset buf offset = .ok (e, n)) : e.length < 2 ^ 64 := by
  rcases ho.lt_or_eq with hlt | rfl
  · have := encodeWithOffset_length_le hV.sized h hlt
    omega
  · have hnil := encodeWithOffset_runs ho (by simp [FillsFirst])
    rw [List.drop_length] at hnil
    obtain ⟨rfl, -⟩ : _ = e ∧ _ = n := by simpa using hnil.symm.trans h
    simp [runs, Run.written_length hV.sized, Run.size, hV.sized.length_eq]

/-- A list of runs in the wrong order does not decode to the buffer. -/
theorem Reorders.not_decode (hV : Varinteger.RoundTrips) {whole : List UInt8} {all : List Run}
    (h : Reorders whole all) (hlen : whole.length < 2 ^ 63)
    (hbuf : (all.flatMap Run.written).length < 2 ^ 64) :
    decode (all.flatMap Run.written) ≠ .ok (.ok whole) := by
  obtain ⟨proper, rs, x, rest, c, k, rs', rfl, rfl, hx, hle⟩ := h
  have hall := expandedLength_append rs (.fill c (k + 1) :: rs')
  have hwhole : (rs.flatMap Run.expand ++ x :: rest).length =
      expandedLength rs + (x :: rest).length := List.length_append
  rw [decode_written hV proper (by omega) hbuf]
  intro heq
  have hwrap : ((rs ++ .fill c (k + 1) :: rs').map Run.wrap).flatMap Run.expand =
      rs.flatMap Run.expand ++ x :: rest := by simpa using heq
  have hcount : expandedLength ((rs ++ .fill c (k + 1) :: rs').map Run.wrap) =
      (rs.flatMap Run.expand ++ x :: rest).length := congrArg List.length hwrap
  -- nothing is lost, so the runs come back as they are
  have hshort := @short_of_expandedLength (rs ++ .fill c (k + 1) :: rs') (by
    have := expandedLength_wrap_le (rs ++ .fill c (k + 1) :: rs')
    omega)
  rw [(wrap_expand_iff _).mpr hshort, List.flatMap_append] at hwrap
  have hcons := List.append_cancel_left hwrap
  obtain rfl : c = x := by
    simp only [List.flatMap_cons, Run.expand, List.replicate_succ, List.cons_append,
      List.cons.injEq] at hcons
    exact hcons.1
  exact hx (proper (.fill c (k + 1)) (by simp))

theorem encodeWithOffset_reorders {buf : List UInt8} {offset : ℕ} (ho : offset ≤ buf.length)
    (hf : ¬FillsFirst ((buf.drop offset).take (offset + 1))) :
    ∃ all, encodeWithOffset buf offset = .ok (all.flatMap Run.written, buf.length - offset) ∧
      Reorders (buf.drop offset) all := by
  rw [encodeWithOffset, if_pos ho]
  generalize buf.drop offset = rest at hf ⊢
  cases rest with
  | nil => exact absurd (by simp [FillsFirst]) hf
  | cons byte bytes =>
    obtain ⟨henc, hopen⟩ := encodeByte_first offset byte
    obtain ⟨all, hout, hall⟩ := hopen.reorders (i := 1) (Run.first_endsIn byte) hf
    rw [henc, List.nil_append] at hout
    rw [Run.first_expand] at hall
    exact ⟨all, by rw [encodeBytes, hout], hall⟩

/-- `buf` is a slice, so its length is at most `isize::MAX`. -/
theorem roundTripsAt_iff (hV : Varinteger.RoundTrips) {buf : List UInt8}
    (hbuf : buf.length < 2 ^ 63) {offset : ℕ} (ho : offset ≤ buf.length) :
    RoundTripsAt buf offset ↔
      FillsFirst ((buf.drop offset).take (offset + 1)) ∧
        ∀ r ∈ runs (buf.drop offset), r.Short := by
  have hdrop : (buf.drop offset).length < 2 ^ 63 := by
    rw [List.length_drop]
    omega
  have hrest : expandedLength (runs (buf.drop offset)) < 2 ^ 63 := by
    rwa [expandedLength, runs_expand]
  by_cases hf : FillsFirst ((buf.drop offset).take (offset + 1))
  · have henc := encodeWithOffset_runs ho hf
    have hlt := encodeWithOffset_length_lt hV hbuf ho henc
    have hproper := runs_proper (buf.drop offset)
    have hshort := wrap_expand_iff (runs (buf.drop offset))
    rw [runs_expand] at hshort
    rw [← hshort]
    constructor
    · rintro ⟨e, he, hd, -⟩
      obtain rfl : _ = e := (Prod.mk.inj (Except.ok.inj (henc.symm.trans he))).1
      rw [decode_written hV hproper hrest hlt] at hd
      exact ⟨hf, by simpa using hd⟩
    · rintro ⟨-, hwrap⟩
      refine ⟨_, henc, ?_, encodeLenWithOffset_eq hV.sized ho hf, fun pre hpre => ?_⟩
      · rw [decode_written hV hproper hrest hlt, hwrap]
      · rw [decodeWithOffset_written hV hproper hrest pre hpre, hwrap]
  · obtain ⟨all, henc, hall⟩ := encodeWithOffset_reorders ho hf
    have hlt := encodeWithOffset_length_lt hV hbuf ho henc
    constructor
    · rintro ⟨e, he, hd, -⟩
      obtain rfl : _ = e := (Prod.mk.inj (Except.ok.inj (henc.symm.trans he))).1
      exact absurd hd (hall.not_decode hV hdrop hlt)
    · rintro ⟨hf', -⟩
      exact absurd hf' hf

end Offset

theorem roundTripsAt_iff_leb128 :
    letI := Varinteger.leb128
    ([0, 0, 5, 7, 0] : List UInt8).length < 2 ^ 63 ∧ 1 ≤ ([0, 0, 5, 7, 0] : List UInt8).length ∧
      (RoundTripsAt [0, 0, 5, 7, 0] 1 ↔
        FillsFirst [0, 5] ∧ ∀ r ∈ runs [0, 5, 7, 0], r.Short) :=
  letI := Varinteger.leb128
  ⟨by decide, by decide,
    @roundTripsAt_iff _ Varinteger.leb128_roundTrips [0, 0, 5, 7, 0] (by decide) 1 (by decide)⟩

/-- The literal `5` ends at the second byte behind the offset, is not flushed and is lost. -/
theorem not_roundTripsAt : ¬∀ (buf : List UInt8) (offset : ℕ), buf.length < 2 ^ 63 →
    offset ≤ buf.length → @RoundTripsAt Varinteger.leb128 buf offset := by
  let _ := Varinteger.leb128
  intro h
  obtain ⟨e, he, hd, -⟩ := h [0, 5, 0] 1 (by decide) (by decide)
  have henc : encodeWithOffset [0, 5, 0] 1 = .ok ([5], 2) := rfl
  obtain rfl : [5] = e := (Prod.mk.inj (Except.ok.inj (henc.symm.trans he))).1
  have hdec : decode [5] = .ok (.ok [0]) := rfl
  rw [hdec] at hd
  simp at hd

end Backroll.Bitfield

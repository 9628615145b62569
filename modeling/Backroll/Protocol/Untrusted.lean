import Backroll.Protocol.Compression

/-! Decoding bytes that did not come from the encoder: what the run headers of a byte string
announce decides whether each of the decoders answers or faults. -/
namespace Backroll

namespace Bitfield

/-- The number of bytes a list of headers announces. -/
def announced (hs : List ℕ) : ℕ := (hs.map runLength).sum

@[simp] theorem announced_nil : announced [] = 0 := rfl

@[simp] theorem announced_cons (h : ℕ) (hs : List ℕ) :
    announced (h :: hs) = runLength h + announced hs := by simp [announced]

theorem skipPayload_eq_ok {offset next behind : ℕ} :
    skipPayload offset next = .ok behind ↔
      offset + (if next &&& 1 = 0 then runLength next else 0) = behind ∧
        (next &&& 1 = 0 → behind < 2 ^ 64) := by
  by_cases h : next &&& 1 = 0
  · rw [skipPayload, if_pos h, if_pos h, usizeAdd_eq_ok]
    constructor
    · rintro ⟨rfl, hlt⟩
      exact ⟨rfl, fun _ => hlt⟩
    · rintro ⟨rfl, hlt⟩
      exact ⟨rfl, hlt h⟩
  · rw [skipPayload, if_neg h, if_neg h, Except.ok.injEq]
    exact ⟨fun he => ⟨he, fun h' => absurd h' h⟩, fun he => he.1⟩

/-- Overwriting inside the buffer keeps its length. -/
theorem writeAt_total {bitfield bits : List UInt8} {ptr : ℕ}
    (h : ptr + bits.length ≤ bitfield.length) :
    ∃ out, writeAt bitfield ptr bits = .ok out ∧ out.length = bitfield.length := by
  by_cases hb : bits = []
  · exact ⟨bitfield, by simp [writeAt, hb], rfl⟩
  · refine ⟨_, by rw [writeAt, if_neg hb, if_pos h], ?_⟩
    simp only [List.length_append, List.length_take, List.length_drop]
    omega

theorem writeRun_total {buf bitfield : List UInt8} {offset next ptr : ℕ}
    (hptr : ptr + runLength next ≤ bitfield.length) (hlen : bitfield.length < 2 ^ 64)
    (hsrc : next &&& 1 = 0 → offset + runLength next ≤ buf.length ∧
      offset + runLength next < 2 ^ 64) :
    ∃ out, writeRun buf offset next ptr bitfield = .ok out ∧ out.length = bitfield.length := by
  rw [writeRun]
  by_cases h1 : next &&& 1 > 0
  · rw [if_pos h1]
    split
    · exact writeAt_total (by simpa using hptr)
    · exact ⟨bitfield, rfl, rfl⟩
  · obtain ⟨hs, hs'⟩ := hsrc (by omega)
    rw [if_neg h1, cloneFromSlice, usizeAdd_of_lt (by omega), usizeAdd_of_lt (by omega)]
    simp only [Fallible.ok_bind]
    rw [if_pos ⟨by omega, by omega⟩]
    exact writeAt_total (by simp only [List.length_take, List.length_drop]; omega)

variable [Varinteger]

/-- The run headers of `buf` from `offset` on and the offset behind the last run, in unbounded
arithmetic; `none` when a header runs past the end of the buffer. -/
def headers (buf : List UInt8) : ℕ → ℕ → Option (List ℕ × ℕ)
  | 0, offset => some ([], offset)
  | fuel + 1, offset =>
    if offset < buf.length then
      match Varinteger.decodeWithOffset buf offset with
      | .error _ => none
      | .ok (next, read) =>
        let behind := offset + read + if next &&& 1 = 0 then runLength next else 0
        (headers buf fuel behind).map fun r => (next :: r.1, r.2)
    else some ([], offset)

theorem headers_le {buf : List UInt8} {fuel offset behind : ℕ} {hs : List ℕ}
    (h : headers buf fuel offset = some (hs, behind)) : offset ≤ behind := by
  induction fuel generalizing offset hs with
  | zero =>
    obtain ⟨-, rfl⟩ : [] = hs ∧ offset = behind := by simpa [headers] using h
    exact le_rfl
  | succ fuel ih =>
    rw [headers] at h
    split at h
    · split at h
      · simp at h
      · obtain ⟨⟨hs', b⟩, hrec, he⟩ := Option.map_eq_some_iff.mp h
        obtain rfl : b = behind := congrArg Prod.snd he
        have := ih hrec
        omega
    · obtain ⟨-, rfl⟩ : [] = hs ∧ offset = behind := by simpa using h
      exact le_rfl

/-- What the headers announce is what the length pass computes, when nothing overflows. -/
theorem decodeLenLoop_of_headers {buf : List UInt8} {fuel offset len behind : ℕ} {hs : List ℕ}
    (hfuel : buf.length - offset ≤ fuel) (hV : Varinteger.ReadsGroups)
    (h : headers buf fuel offset = some (hs, behind)) (hlen : len + announced hs < 2 ^ 64)
    (hbehind : behind < 2 ^ 64) :
    decodeLenLoop buf fuel offset len = .ok (behind, len + announced hs) := by
  induction fuel generalizing offset len hs with
  | zero =>
    obtain ⟨rfl, rfl⟩ : [] = hs ∧ offset = behind := by simpa [headers] using h
    rw [decodeLenLoop, if_neg (by omega)]
    rfl
  | succ fuel ih =>
    rw [headers] at h
    rw [decodeLenLoop]
    by_cases hlt : offset < buf.length
    · rw [if_pos hlt] at h ⊢
      cases hread : Varinteger.decodeWithOffset buf offset with
      | error e => simp [hread] at h
      | ok r =>
        obtain ⟨next, read⟩ := r
        simp only [hread] at h
        obtain ⟨⟨hs', b⟩, hrec, he⟩ := Option.map_eq_some_iff.mp h
        obtain ⟨rfl, rfl⟩ : next :: hs' = hs ∧ b = behind := by simpa using he
        have hle := headers_le hrec
        have hpos := hV.read_pos hread
        rw [announced_cons] at hlen ⊢
        simp only [Fallible.ok_bind]
        rw [usizeAdd_of_lt (by omega), usizeAdd_of_lt (by omega)]
        simp only [Fallible.ok_bind]
        rw [skipPayload_eq_ok.mpr ⟨rfl, fun _ => by omega⟩]
        simp only [Fallible.ok_bind]
        rw [ih (by omega) hrec (by omega), Nat.add_assoc]
    · rw [if_neg hlt] at h ⊢
      obtain ⟨rfl, rfl⟩ : [] = hs ∧ offset = behind := by simpa using h
      rfl

/-- Conversely, a length pass that answers has read complete headers and added them up. -/
theorem headers_of_decodeLenLoop {buf : List UInt8} {fuel offset len behind total : ℕ}
    (hlen : len < 2 ^ 64) (hoff : offset < 2 ^ 64)
    (h : decodeLenLoop buf fuel offset len = .ok (behind, total)) :
    ∃ hs, headers buf fuel offset = some (hs, behind) ∧ total = len + announced hs ∧
      total < 2 ^ 64 ∧ behind < 2 ^ 64 := by
  induction fuel generalizing offset len with
  | zero =>
    rw [decodeLenLoop] at h
    split at h
    · cases h
    · obtain ⟨rfl, rfl⟩ : offset = behind ∧ len = total := by simpa using h
      exact ⟨[], rfl, rfl, hlen, hoff⟩
  | succ fuel ih =>
    rw [decodeLenLoop] at h
    rw [headers]
    by_cases hlt : offset < buf.length
    · rw [if_pos hlt] at h ⊢
      obtain ⟨⟨next, read⟩, hread, h₁⟩ := Fallible.bind_eq_ok.mp h
      obtain ⟨o₁, ho₁, h₂⟩ := Fallible.bind_eq_ok.mp h₁
      obtain ⟨l₁, hl₁, h₃⟩ := Fallible.bind_eq_ok.mp h₂
      obtain ⟨o₂, ho₂, h₄⟩ := Fallible.bind_eq_ok.mp h₃
      obtain ⟨rfl, ho₁'⟩ := usizeAdd_eq_ok.mp ho₁
      obtain ⟨rfl, hl₁'⟩ := usizeAdd_eq_ok.mp hl₁
      obtain ⟨he, ho₂'⟩ := skipPayload_eq_ok.mp ho₂
      have hlt₂ : o₂ < 2 ^ 64 := by
        by_cases h0 : next &&& 1 = 0
        · exact ho₂' h0
        · rw [if_neg h0] at he
          omega
      obtain ⟨hs, hhs, rfl, htot, hbeh⟩ := ih hl₁' hlt₂ h₄
      refine ⟨next :: hs, ?_, by rw [announced_cons]; omega, htot, hbeh⟩
      simp only [hread]
      rw [he, hhs]
      rfl
    · rw [if_neg hlt] at h ⊢
      obtain ⟨rfl, rfl⟩ : offset = behind ∧ len = total := by simpa using h
      exact ⟨[], rfl, rfl, hlen, hoff⟩

/-- The copy pass follows the length pass: where the headers end inside the buffer and the
output has the announced length, every write is in range. -/
theorem decodeLoop_of_headers {buf bitfield : List UInt8} {fuel offset ptr behind : ℕ}
    {hs : List ℕ} (hfuel : buf.length - offset ≤ fuel) (hV : Varinteger.ReadsGroups)
    (h : headers buf fuel offset = some (hs, behind)) (hbuf : behind ≤ buf.length)
    (hbehind : behind < 2 ^ 64) (hlen : ptr + announced hs = bitfield.length)
    (hmax : bitfield.length < 2 ^ 64) :
    ∃ out, decodeLoop buf fuel offset ptr bitfield = .ok (out, behind) ∧
      out.length = bitfield.length := by
  induction fuel generalizing offset ptr hs bitfield with
  | zero =>
    obtain ⟨rfl, rfl⟩ : [] = hs ∧ offset = behind := by simpa [headers] using h
    exact ⟨bitfield, by rw [decodeLoop, if_neg (by omega)], rfl⟩
  | succ fuel ih =>
    rw [headers] at h
    rw [decodeLoop]
    by_cases hlt : offset < buf.length
    · rw [if_pos hlt] at h ⊢
      cases hread : Varinteger.decodeWithOffset buf offset with
      | error e => simp [hread] at h
      | ok r =>
        obtain ⟨next, read⟩ := r
        simp only [hread] at h
        obtain ⟨⟨hs', b⟩, hrec, he⟩ := Option.map_eq_some_iff.mp h
        obtain ⟨rfl, rfl⟩ : next :: hs' = hs ∧ b = behind := by simpa using he
        have hle := headers_le hrec
        have hpos := hV.read_pos hread
        rw [announced_cons] at hlen
        have hptr : ptr + runLength next ≤ bitfield.length := by omega
        have hsrc : next &&& 1 = 0 → offset + read + runLength next ≤ buf.length ∧
            offset + read + runLength next < 2 ^ 64 := fun h0 => by
          rw [if_pos h0] at hle
          omega
        obtain ⟨out₁, hw, hout₁⟩ := writeRun_total hptr hmax hsrc
        simp only [Fallible.ok_bind]
        rw [usizeAdd_of_lt (by omega)]
        simp only [Fallible.ok_bind, hw]
        rw [skipPayload_eq_ok.mpr ⟨rfl, fun _ => by omega⟩, usizeAdd_of_lt (by omega)]
        simp only [Fallible.ok_bind]
        have hlen₁ : ptr + runLength next + announced hs' = out₁.length := by omega
        obtain ⟨out, hrun, hout⟩ := ih (by omega) hrec hlen₁ (by omega)
        exact ⟨out, hrun, hout.trans hout₁⟩
    · rw [if_neg hlt] at h ⊢
      obtain ⟨-, rfl⟩ : [] = hs ∧ offset = behind := by simpa using h
      exact ⟨bitfield, rfl, rfl⟩

/-- `decode_len` on complete headers. -/
theorem decodeLen_of_headers {buf : List UInt8} {hs : List ℕ} {behind : ℕ}
    (hV : Varinteger.ReadsGroups) (h : headers buf buf.length 0 = some (hs, behind))
    (hlen : announced hs < 2 ^ 64) (hbehind : behind < 2 ^ 64) :
    decodeLen buf = .ok (if behind > buf.length then
      .error (.invalidRLEBitfield behind buf.length) else .ok (announced hs)) := by
  rw [decodeLen, decodeLenWithOffset, Nat.sub_zero,
    decodeLenLoop_of_headers (by omega) hV h (by omega) hbehind, Nat.zero_add]
  simp only [Fallible.ok_bind]
  split <;> rfl

/-- Where `decode_len` rejects the headers, so does `decode`. -/
theorem decode_of_rejected {buf : List UInt8} {e : DecodeError}
    (h : decodeLen buf = .ok (.error e)) : decode buf = .ok (.error e) := by
  rw [decodeLen] at h
  simp [decode, decodeWithOffset, h]

/-- Where `decode_len` announces a length that a vector can have, `decode` delivers it. -/
theorem decode_of_headers {buf : List UInt8} {hs : List ℕ} {behind : ℕ}
    (hV : Varinteger.ReadsGroups) (h : headers buf buf.length 0 = some (hs, behind))
    (hlen : announced hs < 2 ^ 63) (hbehind : behind < 2 ^ 64) (hbuf : behind ≤ buf.length) :
    ∃ v, decode buf = .ok (.ok v) ∧ v.length = announced hs := by
  have hdl := decodeLen_of_headers hV h (by omega) hbehind
  rw [if_neg (by omega), decodeLen] at hdl
  have hzeros : 0 + announced hs = (List.replicate (announced hs) (0 : UInt8)).length := by simp
  obtain ⟨v, hv, hvlen⟩ := decodeLoop_of_headers (by omega) hV h hbuf hbehind hzeros (by omega)
  have hz : zeroedVec (announced hs) = .ok (List.replicate (announced hs) 0) := if_pos hlen
  refine ⟨v, ?_, by simpa using hvlen⟩
  simp [decode, decodeWithOffset, hdl, hz, hv, hbuf]

end Bitfield

open Bitfield in
/-- The byte strings on which the decoders keep their contract: every varint ends inside the
buffer, neither the offset nor the length leaves a `usize`, and a run sequence that ends inside
the buffer stands for a vector that can be allocated and, if short enough to be decoded, for
whole inputs. -/
structure WellAnnounced [Varinteger] (size : ℕ) (buf : List UInt8) : Prop where
  scanned : ∃ hs behind, headers buf buf.length 0 = some (hs, behind) ∧ behind < 2 ^ 64 ∧
    announced hs < 2 ^ 64 ∧ (behind ≤ buf.length → announced hs < 2 ^ 63 ∧
      (announced hs ≤ maxBufferSize → size ∣ announced hs))

/-- The contract of the three decoders on a byte string: each answers, the two passes agree,
and buffers that are too long or end inside an input are rejected, the former before a buffer
is built. -/
structure TotalOn (I : Type) [Build] [Pod I] [Varinteger] (buf : List UInt8) : Prop where
  decodeLen_total : ∃ r, Bitfield.decodeLen buf = .ok r
  decode_total : ∃ r, Bitfield.decode buf = .ok r
  compression_total : ∀ base : I, ∃ r, Compression.decode base buf = .ok r
  passes_agree : ∀ n, Bitfield.decodeLen buf = .ok (.ok n) ↔
    ∃ v, Bitfield.decode buf = .ok (.ok v) ∧ v.length = n
  too_big : ∀ n, Bitfield.decodeLen buf = .ok (.ok n) → n > maxBufferSize →
    Compression.checkedLen buf = .ok (.error (.tooBig n)) ∧
      ∀ base : I, Compression.decode base buf = .ok (.error (.tooBig n))
  partial_input : ∀ n, Bitfield.decodeLen buf = .ok (.ok n) → ¬Pod.size I ∣ n →
    ∀ base : I, ∃ e, Compression.decode base buf = .ok (.error e)

namespace Compression

open Bitfield (announced)

variable {I : Type} [Build] [Pod I] [Varinteger]

/-- A buffer that the length check rejects is never built. -/
theorem decode_of_checkedLen {buf : List UInt8} {e : DecodeError} (hI : 0 < Pod.size I)
    (h : checkedLen buf = .ok (.error e)) (base : I) : decode base buf = .ok (.error e) := by
  rw [decode, debugAssert_of (by simpa using hI)]
  simp [h]

theorem decode_of_decoded {buf v : List UInt8} (hI : 0 < Pod.size I)
    (h : checkedLen buf = .ok (.ok v.length)) (hv : Bitfield.decode buf = .ok (.ok v))
    (base : I) : decode base buf = (do
      debugAssert (v.length % Pod.size I = 0)
      return .ok (decodeLoop v (Pod.size I) (v.length / Pod.size I) 0 (Pod.toBytes base))) := by
  rw [decode, debugAssert_of (by simpa using hI)]
  simp [h, hv, hI.ne']

theorem totalOn_of_wellAnnounced {buf : List UInt8} (hV : Varinteger.ReadsGroups)
    (hI : 0 < Pod.size I) (h : WellAnnounced (Pod.size I) buf) : TotalOn I buf := by
  obtain ⟨hs, behind, hhs, hbehind, hlen, hin⟩ := h.scanned
  have hdl := Bitfield.decodeLen_of_headers hV hhs hlen hbehind
  by_cases hb : behind > buf.length
  · rw [if_pos hb] at hdl
    have hdec := Bitfield.decode_of_rejected hdl
    have hchk : checkedLen buf = .ok (.error (.invalidRLEBitfield behind buf.length)) := by
      simp [checkedLen, hdl]
    exact {
      decodeLen_total := ⟨_, hdl⟩
      decode_total := ⟨_, hdec⟩
      compression_total := fun base => ⟨_, decode_of_checkedLen hI hchk base⟩
      passes_agree := by simp [hdl, hdec]
      too_big := by simp [hdl]
      partial_input := by simp [hdl] }
  · rw [if_neg hb] at hdl
    obtain ⟨h63, hdvd⟩ := hin (by omega)
    obtain ⟨v, hdec, hv⟩ := Bitfield.decode_of_headers hV hhs h63 hbehind (by omega)
    have hchk : checkedLen buf = .ok (if announced hs > maxBufferSize then
        .error (.tooBig (announced hs)) else .ok (announced hs)) := by
      simp only [checkedLen, hdl, Fallible.ok_bind]
      split <;> rfl
    by_cases hbig : announced hs > maxBufferSize
    · rw [if_pos hbig] at hchk
      have hcd := decode_of_checkedLen hI hchk
      exact {
        decodeLen_total := ⟨_, hdl⟩
        decode_total := ⟨_, hdec⟩
        compression_total := fun base => ⟨_, hcd base⟩
        passes_agree := by simp [hdl, hdec, hv]
        too_big := by
          rintro n hn -
          obtain rfl : announced hs = n := by simpa [hdl] using hn
          exact ⟨hchk, hcd⟩
        partial_input := fun _ _ _ base => ⟨_, hcd base⟩ }
    · rw [if_neg hbig, ← hv] at hchk
      have hmod : v.length % Pod.size I = 0 := by
        rw [hv]
        exact Nat.mod_eq_zero_of_dvd (hdvd (not_lt.mp hbig))
      have hcd := decode_of_decoded hI hchk hdec
      simp only [debugAssert_of hmod, Fallible.ok_bind] at hcd
      exact {
        decodeLen_total := ⟨_, hdl⟩
        decode_total := ⟨_, hdec⟩
        compression_total := fun base => ⟨_, hcd base⟩
        passes_agree := by simp [hdl, hdec, hv]
        too_big := by
          intro n hn hgt
          obtain rfl : announced hs = n := by simpa [hdl] using hn
          exact absurd hgt hbig
        partial_input := by
          intro n hn hnot
          obtain rfl : announced hs = n := by simpa [hdl] using hn
          exact absurd (hdvd (not_lt.mp hbig)) hnot }

theorem wellAnnounced_of_totalOn {buf : List UInt8} (hV : Varinteger.ReadsGroups)
    (hI : 0 < Pod.size I) (h : TotalOn I buf) : WellAnnounced (Pod.size I) buf := by
  obtain ⟨r, hr⟩ := h.decodeLen_total
  have hr' := hr
  rw [Bitfield.decodeLen, Bitfield.decodeLenWithOffset, Nat.sub_zero] at hr'
  obtain ⟨⟨behind, total⟩, hloop, hrest⟩ := Fallible.bind_eq_ok.mp hr'
  obtain ⟨hs, hhs, htotal, hlt, hbehind⟩ :=
    Bitfield.headers_of_decodeLenLoop (by norm_num) (by norm_num) hloop
  rw [Nat.zero_add] at htotal
  subst htotal
  refine ⟨hs, behind, hhs, hbehind, hlt, fun hb => ?_⟩
  have hdl := Bitfield.decodeLen_of_headers hV hhs hlt hbehind
  rw [if_neg (by omega)] at hdl
  obtain ⟨v, hdec, hv⟩ := (h.passes_agree _).mp hdl
  have h63 : announced hs < 2 ^ 63 := by
    by_contra hbig
    have hz : zeroedVec (announced hs) = .error .capacityOverflow := if_neg hbig
    rw [Bitfield.decodeLen] at hdl
    simp [Bitfield.decode, Bitfield.decodeWithOffset, hdl, hz] at hdec
  refine ⟨h63, fun hmax => ?_⟩
  by_contra hnot
  obtain ⟨e, he⟩ := h.partial_input _ hdl hnot Zeroable.zeroed
  have hchk : checkedLen buf = .ok (.ok v.length) := by
    simp [checkedLen, hdl, hv, not_lt.mpr hmax]
  rw [decode_of_decoded hI hchk hdec] at he
  obtain ⟨_, -, hok⟩ := Fallible.bind_eq_ok.mp he
  cases hok

/-- The decoders keep their contract exactly on the well-announced byte strings. -/
theorem totalOn_iff_wellAnnounced (hV : Varinteger.ReadsGroups) (hI : 0 < Pod.size I)
    (buf : List UInt8) : TotalOn I buf ↔ WellAnnounced (Pod.size I) buf :=
  ⟨wellAnnounced_of_totalOn hV hI, totalOn_of_wellAnnounced hV hI⟩

end Compression

theorem Compression.totalOn_iff_bytes :
    letI : Build := ⟨true⟩
    letI := Varinteger.leb128
    TotalOn UInt8 [4, 7, 7] ↔ WellAnnounced (Pod.size UInt8) [4, 7, 7] :=
  letI : Build := ⟨true⟩
  letI := Varinteger.leb128
  Compression.totalOn_iff_wellAnnounced Varinteger.leb128_readsGroups (by decide) [4, 7, 7]

/-- A varint that never ends unwinds. -/
theorem Compression.not_totalOn_truncated :
    letI : Build := ⟨true⟩
    letI := Varinteger.leb128
    ¬∀ buf : List UInt8, TotalOn UInt8 buf := by
  let _ : Build := ⟨true⟩
  let _ := Varinteger.leb128
  intro h
  obtain ⟨r, hr⟩ := (h [128]).decodeLen_total
  have hpanic : Bitfield.decodeLen [128] = .error .indexOutOfBounds := by decide
  rw [hpanic] at hr
  cases hr

end Backroll

import Backroll.Basic
import Backroll.Lib.Leb128
import Mathlib.Tactic.NormNum

/-! The variable-length integers of the `varinteger` crate. The crate is not part of the
repository: its three functions are a parameter, and what the codec relies on is stated as
a property of them. -/
namespace Backroll

/-- The functions of `varinteger` that the codec calls, on `u64` values. `encode v` is what
`encode` leaves in a buffer of `length v` bytes; `decodeWithOffset` answers the value and
the number of bytes read. -/
class Varinteger where
  length : ℕ → ℕ
  encode : ℕ → List UInt8
  decodeWithOffset : List UInt8 → ℕ → Except Panic (ℕ × ℕ)

namespace Varinteger

/-- `encode` writes `length v` bytes of LEB128 and `decode_with_offset` reads them back. -/
structure RoundTrips [Varinteger] : Prop where
  encode_eq : ∀ v < 2 ^ 64, encode v = Leb128.encode v
  encode_length : ∀ v < 2 ^ 64, (encode v).length = length v
  decode_encode : ∀ v < 2 ^ 64, ∀ pre post : List UInt8,
    decodeWithOffset (pre ++ encode v ++ post) pre.length = .ok (v, length v)

/-- `encode` fills its buffer of `length v` bytes, one for each group of seven bits of `v`
and one for zero. -/
structure Sized [Varinteger] : Prop where
  length_eq : ∀ v < 2 ^ 64, length v = Nat.log 128 v + 1
  encode_length : ∀ v < 2 ^ 64, (encode v).length = length v

theorem RoundTrips.sized [Varinteger] (h : RoundTrips) : Sized where
  length_eq v hv := by rw [← h.encode_length v hv, h.encode_eq v hv, Leb128.length_encode]
  encode_length := h.encode_length

/-- How many bytes from the head of `bs` up to the first one with its high bit clear. -/
def groupLength (bs : List UInt8) : Option ℕ :=
  (bs.findIdx? (·.toNat < 128)).map (· + 1)

/-- `decode_with_offset` reads from the offset until a byte has its high bit clear, and
panics past the end of the slice. Nothing is assumed about the value of a long group. -/
structure ReadsGroups [Varinteger] : Prop where
  terminated : ∀ (buf : List UInt8) (offset k : ℕ), groupLength (buf.drop offset) = some k →
    ∃ v < 2 ^ 64, decodeWithOffset buf offset = .ok (v, k)
  truncated : ∀ (buf : List UInt8) (offset : ℕ), groupLength (buf.drop offset) = none →
    ∃ e, decodeWithOffset buf offset = .error e

theorem RoundTrips.encode_pos [Varinteger] (h : RoundTrips) {v : ℕ} (hv : v < 2 ^ 64) :
    0 < (encode v).length := by
  rw [h.encode_eq v hv]
  exact List.length_pos_of_ne_nil (Leb128.encode_ne_nil v)

theorem groupLength_le {bs : List UInt8} {k : ℕ} (h : groupLength bs = some k) :
    0 < k ∧ k ≤ bs.length := by
  obtain ⟨i, hi, rfl⟩ := Option.map_eq_some_iff.mp h
  obtain ⟨hlt, -⟩ := List.findIdx?_eq_some_iff_getElem.mp hi
  omega

theorem ReadsGroups.read_pos [Varinteger] (hV : ReadsGroups) {buf : List UInt8}
    {offset v k : ℕ} (h : decodeWithOffset buf offset = .ok (v, k)) : 0 < k := by
  cases hg : groupLength (buf.drop offset) with
  | none =>
    obtain ⟨e, he⟩ := hV.truncated buf offset hg
    rw [he] at h
    cases h
  | some k' =>
    obtain ⟨v', -, hv⟩ := hV.terminated buf offset k' hg
    obtain ⟨-, rfl⟩ : v' = v ∧ k' = k := by simpa [hv] using h
    exact (groupLength_le hg).1

/-- The crate as documented: LEB128 in both directions, wrapping in a `u64`. -/
abbrev leb128 : Varinteger where
  length v := (Leb128.encode v).length
  encode := Leb128.encode
  decodeWithOffset buf offset :=
    match Leb128.decode (buf.drop offset) with
    | none => .error .indexOutOfBounds
    | some (v, k) => .ok (v % 2 ^ 64, k)

theorem leb128_roundTrips : @RoundTrips leb128 :=
  letI := leb128
  { encode_eq := fun _ _ => rfl
    encode_length := fun _ _ => rfl
    decode_encode := fun v hv pre post => by
      simpa [decodeWithOffset, encode, length, Leb128.decode_encode] using hv }

private theorem decode_eq_groupLength (bs : List UInt8) :
    (Leb128.decode bs).map (·.2) = groupLength bs := by
  induction bs with
  | nil => rfl
  | cons b bs ih =>
    simp only [Leb128.decode, groupLength, List.findIdx?_cons, decide_eq_true_eq] at ih ⊢
    split
    · rfl
    · rw [Option.map_map, Option.map_map, ← Option.map_map (g := (· + 1)), ← ih, Option.map_map]
      rfl

theorem leb128_readsGroups : @ReadsGroups leb128 :=
  letI := leb128
  { terminated := fun buf offset k h => by
      rw [← decode_eq_groupLength] at h
      obtain ⟨⟨v, k'⟩, hd, rfl⟩ := Option.map_eq_some_iff.mp h
      exact ⟨v % 2 ^ 64, Nat.mod_lt _ (by norm_num), by simp [decodeWithOffset, hd]⟩
    truncated := fun buf offset h => by
      rw [← decode_eq_groupLength, Option.map_eq_none_iff] at h
      exact ⟨.indexOutOfBounds, by simp [decodeWithOffset, h]⟩ }

end Varinteger

end Backroll

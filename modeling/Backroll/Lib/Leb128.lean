import Mathlib.Data.Nat.Log
import Mathlib.Data.UInt
import Mathlib.Tactic.Cases
import Mathlib.Tactic.NormNum

/-! Little-endian base-128 numbers: seven bits a byte, the high bit set on every byte but
the last. -/
namespace Leb128

/-- `fuel` bounds the number of groups; `encode` supplies enough for every value. -/
def encodeFuel : ℕ → ℕ → List UInt8
  | 0, v => [UInt8.ofNat v]
  | fuel + 1, v =>
    if v < 128 then [UInt8.ofNat v] else UInt8.ofNat (v % 128 + 128) :: encodeFuel fuel (v / 128)

def encode (v : ℕ) : List UInt8 := encodeFuel v v

/-- The value at the head of a byte string and how many bytes it takes; `none` when the
string ends before a byte with its high bit clear. -/
def decode : List UInt8 → Option (ℕ × ℕ)
  | [] => none
  | b :: bs =>
    if b.toNat < 128 then some (b.toNat, 1)
    else (decode bs).map fun r => (b.toNat - 128 + 128 * r.1, r.2 + 1)

private theorem toNat_ofNat_of_lt {v : ℕ} (h : v < 256) : (UInt8.ofNat v).toNat = v := by
  simpa using Nat.mod_eq_of_lt h

private theorem encodeFuel_ne_nil (fuel v : ℕ) : encodeFuel fuel v ≠ [] := by
  cases fuel with
  | zero => simp [encodeFuel]
  | succ fuel => simp only [encodeFuel]; split <;> simp

theorem encode_ne_nil (v : ℕ) : encode v ≠ [] := encodeFuel_ne_nil v v

private theorem decode_encodeFuel {fuel v : ℕ} (h : v ≤ fuel) (post : List UInt8) :
    decode (encodeFuel fuel v ++ post) = some (v, (encodeFuel fuel v).length) := by
  induction fuel generalizing v with
  | zero =>
    obtain rfl : v = 0 := by omega
    rfl
  | succ fuel ih =>
    simp only [encodeFuel]
    split
    · next hv => simp [decode, toNat_ofNat_of_lt (show v < 256 by omega), hv]
    · next hv =>
      have hb : (UInt8.ofNat (v % 128 + 128)).toNat = v % 128 + 128 :=
        toNat_ofNat_of_lt (by omega)
      have hval : v % 128 + 128 * (v / 128) = v := Nat.mod_add_div v 128
      simp only [List.cons_append, decode, hb, List.length_cons, ih (show v / 128 ≤ fuel by omega),
        Option.map_some, Nat.add_sub_cancel, hval]
      exact if_neg (by omega)

/-- Reading back what was written, whatever bytes follow. -/
theorem decode_encode (v : ℕ) (post : List UInt8) :
    decode (encode v ++ post) = some (v, (encode v).length) := decode_encodeFuel le_rfl post

private theorem length_encodeFuel_le {fuel k v : ℕ} (h : v < 128 ^ (k + 1)) :
    (encodeFuel fuel v).length ≤ k + 1 := by
  induction fuel generalizing k v with
  | zero => simp [encodeFuel]
  | succ fuel ih =>
    simp only [encodeFuel]
    split
    · simp
    · cases k with
      | zero => omega
      | succ k =>
        have hv : v / 128 < 128 ^ (k + 1) := Nat.div_lt_of_lt_mul (by rwa [← Nat.pow_succ'])
        have := ih hv
        simp only [List.length_cons]
        omega

/-- A `u64` takes at most ten bytes. -/
theorem length_encode_le {v : ℕ} (h : v < 2 ^ 64) : (encode v).length ≤ 10 :=
  length_encodeFuel_le (k := 9) (h.trans (by norm_num))

private theorem length_encodeFuel {fuel v : ℕ} (h : v ≤ fuel) :
    (encodeFuel fuel v).length = Nat.log 128 v + 1 := by
  induction fuel generalizing v with
  | zero =>
    obtain rfl : v = 0 := by omega
    rfl
  | succ fuel ih =>
    simp only [encodeFuel]
    split
    · next hv => simp [Nat.log_of_lt hv]
    · next hv =>
      have hlog : Nat.log 128 v = Nat.log 128 (v / 128) + 1 :=
        Nat.log_of_one_lt_of_le (by omega) (by omega)
      rw [List.length_cons, ih (by omega), hlog]

/-- One byte for each group of seven bits, and one for zero. -/
theorem length_encode (v : ℕ) : (encode v).length = Nat.log 128 v + 1 := length_encodeFuel le_rfl

end Leb128

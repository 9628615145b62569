import Backroll.Lib.Fallible

/-! Constants and faults shared by the whole crate. A `Frame` is an `i32` in the source; the
model counts frames in `ℤ` without a bound, since at sixty frames a second a session would
have to run for more than a year to leave the type. -/
namespace Backroll

abbrev maxPlayers : ℕ := 8

/-- `MAX_ROLLBACK_FRAMES`, approximately two seconds of frames. -/
abbrev maxRollbackFrames : ℕ := 120

abbrev maxPredictionFrames : ℕ := 8

abbrev nullFrame : ℤ := -1

/-- Every negative frame counts as null. -/
abbrev isNull (frame : ℤ) : Prop := frame < 0

/-- What makes a call unwind instead of returning. -/
inductive Panic
  | assertion
  | indexOutOfBounds
  | arithmeticOverflow
  | divideByZero
  | capacityOverflow
  | tryFromInt
  | expectFailed
  | savedFrameNotFound
  | loadUnsaved
  | outOfFuel
  deriving DecidableEq, Repr

/-- The profile the crate is compiled under: whether `debug_assert!` is checked, and with it the
overflow of integers. -/
class Build where
  debugAssertions : Bool

def debugAssert [Build] (p : Prop) [Decidable p] : Except Panic Unit :=
  if Build.debugAssertions ∧ ¬p then .error .assertion else .ok ()

theorem debugAssert_ends [Build] (p : Prop) [Decidable p] :
    Fallible.Ends (debugAssert p) (fun _ => Build.debugAssertions = true → p)
      fun e => e = .assertion ∧ ¬p := by
  unfold debugAssert
  split
  · next h => exact ⟨rfl, h.2⟩
  · next h => exact fun hb => by_contra fun hp => h ⟨hb, hp⟩

theorem debugAssert_of [Build] {p : Prop} [Decidable p] (h : p) : debugAssert p = .ok () := by
  simp [debugAssert, h]

/-- `usize::try_from(frame).unwrap()`. -/
def toUsize (frame : ℤ) : Except Panic ℕ :=
  if 0 ≤ frame then .ok frame.toNat else .error .tryFromInt

theorem toUsize_of_nonneg {frame : ℤ} (h : 0 ≤ frame) : toUsize frame = .ok frame.toNat := by
  simp [toUsize, h]

theorem toUsize_of_neg {frame : ℤ} (h : frame < 0) : toUsize frame = .error .tryFromInt := by
  simp [toUsize, h]

/-- `bytemuck::Zeroable`: types that have an all-zero value. -/
class Zeroable (I : Type) where
  zeroed : I

end Backroll

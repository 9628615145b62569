import Backroll.Input.Refinement

/-! A queue whose ring has overflown, as it can where assertions are not checked, may answer
with stale inputs, but it keeps to the end of its log. -/
namespace Backroll

open Fallible (Ends)

variable {I : Type} [Zeroable I]

namespace Follows

variable {q : InputQueue I} {a : LogQueue I}

/-- The label in the tail slot is that of the first frame kept or of one written over it. -/
theorem start_le_tail (h : Follows q a) (hs : a.start < a.log.length) :
    (a.start : ℤ) ≤ (q.inputs q.tail).frame := by
  have hmul := Nat.div_add_mod (a.log.length - 1 - a.start) maxRollbackFrames
  have hlt := Nat.mod_lt (a.log.length - 1 - a.start) (show 0 < maxRollbackFrames by decide)
  obtain ⟨j, hj⟩ : ∃ j, j = a.start + maxRollbackFrames *
      ((a.log.length - 1 - a.start) / maxRollbackFrames) := ⟨_, rfl⟩
  have hlog : j < a.log.length := by omega
  have hcell : Cyclic.cell maxRollbackFrames a.start = Cyclic.cell maxRollbackFrames j := by
    rw [Cyclic.cell_eq_iff, hj, Nat.add_mul_mod_self_left]
  have hslot := h.inputs.recent j ⟨j, a.log[j]⟩ (by simp [hlog])
    (by rw [length_framed]; omega)
  rw [h.tail, hcell, hslot]
  dsimp only
  omega

variable [Build]

/-- A request never begins a prediction of a frame that is in the log. -/
theorem getInput (h : Follows q a) {frame : ℕ} (hf : a.start ≤ frame) :
    Ends (q.getInput frame) (fun r => ∃ guess,
        (guess = a.guess ∨ guess = some a.log.length ∧ a.log.length ≤ frame) ∧
          Follows r.2 { a with requested := frame, guess := guess })
      fun e => e ≠ .savedFrameNotFound := by
  rw [InputQueue.getInput]
  refine ((debugAssert_ends _).mono (fun _ _ => trivial) fun e he => by simp [he.1]).bind
    fun _ _ => ?_
  refine ((debugAssert_ends _).mono (fun _ _ => trivial) fun e he => by simp [he.1]).bind
    fun _ _ => ?_
  cases hg : a.guess with
  | some k =>
    have hp := (h.predicting k hg).2
    rw [if_neg (by simp [hp])]
    exact ⟨_, .inl rfl, { h with
      requested := rfl
      predicting := hg ▸ h.predicting
      idle := by simp }⟩
  | none =>
    have hp := h.idle hg
    rw [if_pos (by simp [hp])]
    by_cases hneg : 0 ≤ (frame : ℤ) - (q.inputs q.tail).frame
    · rw [toUsize_of_nonneg hneg]
      simp only [Fallible.ok_bind]
      have hlen := h.length
      have hs := h.start_le
      by_cases hoff : (frame - (q.inputs q.tail).frame : ℤ).toNat < q.length
      · rw [if_pos hoff]
        refine ((debugAssert_ends _).mono (fun _ _ => trivial) fun e he => by simp [he.1]).bind
          fun _ _ => ?_
        exact ⟨_, .inl rfl, { h with
          requested := rfl
          predicting := by simp
          idle := fun _ => hp }⟩
      · rw [if_neg hoff]
        have hge : a.log.length ≤ frame := by
          rcases Nat.lt_or_ge a.start a.log.length with hlt | hge
          · have := h.start_le_tail hlt
            omega
          · omega
        have hnew : (if (frame : ℤ) = 0 then q.prediction.clear
            else if isNull q.lastAddedFrame then q.prediction.clear
            else q.inputs (previousFrame q.head)) =
            ⟨a.log.length - 1, LogQueue.lastOf a.log⟩ := by
          have hadded := h.lastAdded
          have hclear : a.log.length = 0 → q.prediction.clear =
              (⟨a.log.length - 1, LogQueue.lastOf a.log⟩ : FrameInput I) := by
            intro h0
            simp [FrameInput.clear, hp, List.length_eq_zero_iff.mp h0]
          split
          · exact hclear (by omega)
          · split
            · next hnull =>
              simp only [isNull] at hnull
              exact hclear (by omega)
            · exact h.inputs_previous
        rw [hnew]
        refine ⟨_, .inr ⟨rfl, hge⟩, { h with
          requested := rfl
          predicting := fun k hk => ?_
          idle := fun hnone => by simp at hnone }⟩
        obtain rfl : a.log.length = k := by simpa using hk
        exact ⟨le_rfl, by simp⟩
    · rw [toUsize, if_neg hneg]
      simp

/-- Discarding never goes beyond the frame asked for. -/
theorem discardConfirmedFrames (h : Follows q a) (frame : ℕ) (hr : -1 ≤ a.requested) :
    Ends (q.discardConfirmedFrames frame)
      (fun q' => ∃ start, start ≤ max a.start (frame + 1) ∧ Follows q' { a with start := start })
      fun e => e ≠ .savedFrameNotFound := by
  have hlen := h.length
  have hsl := h.start_le
  have hadded := h.lastAdded
  rw [InputQueue.discardConfirmedFrames, h.requested, debugAssert_of (by simp)]
  simp only [Fallible.ok_bind]
  obtain ⟨bound, hbound⟩ : ∃ bound : ℤ,
      bound = if isNull a.requested then min (frame : ℤ) a.requested else frame := ⟨_, rfl⟩
  have hle : -1 ≤ bound ∧ bound ≤ frame := by
    rw [hbound]
    split <;> omega
  rw [← hbound]
  by_cases hall : bound ≥ q.lastAddedFrame
  · rw [if_pos hall]
    exact ⟨a.log.length, by omega, { h with
      requested := rfl
      start_le := le_rfl
      tail := h.head
      length := (Nat.sub_self _).symm }⟩
  · rw [if_neg hall]
    by_cases hneg : 0 ≤ bound - (q.inputs q.tail).frame + 1
    · rw [toUsize_of_nonneg hneg]
      simp only [Fallible.ok_bind]
      split
      · next hoff =>
        obtain ⟨offset, hoffset⟩ : ∃ offset, offset =
            (bound - (q.inputs q.tail).frame + 1).toNat := ⟨_, rfl⟩
        rw [← hoffset] at hoff ⊢
        have hcell : Fin.ofNat maxRollbackFrames (q.tail + offset) =
            Cyclic.cell maxRollbackFrames (a.start + offset) := by
          rw [h.tail]
          exact Fin.ext (Nat.mod_add_mod _ _ _)
        refine ⟨a.start + offset, ?_, { h with
          requested := rfl
          start_le := by dsimp only; omega
          tail := hcell
          length := by dsimp only; omega }⟩
        rcases Nat.lt_or_ge a.start a.log.length with hlt | hge
        · have := h.start_le_tail hlt
          omega
        · omega
      · simp
    · rw [toUsize, if_neg hneg]
      simp

end Follows

end Backroll

import Backroll.Sync.Calm

/-! What is done to the queues of a `Sync`, all its loops included, for any relation between a
queue before and after that every operation besides adding an input keeps. -/
namespace Backroll

open Fallible (Ends)

variable {n : ℕ} {I S : Type}

/-- A relation that every operation of a queue besides adding an input respects. -/
structure InputQueue.Respects [Build] [Zeroable I] (R : InputQueue I → InputQueue I → Prop) :
    Prop where
  refl : ∀ q, R q q
  trans : ∀ {q q₁ q₂}, R q q₁ → R q₁ q₂ → R q q₂
  setFrameDelay : ∀ q delay, Ends (q.setFrameDelay delay) (R q) fun _ => True
  discardConfirmedFrames : ∀ q frame, Ends (q.discardConfirmedFrames frame) (R q) fun _ => True
  resetPrediction : ∀ q frame, Ends (q.resetPrediction frame) (R q) fun _ => True
  getInput : ∀ q frame, Ends (q.getInput frame) (fun r => R q r.2) fun _ => True

namespace Sync

variable [Build] [Zeroable I] {R : InputQueue I → InputQueue I → Prop} {s s₁ s₂ : Sync n I S}

/-- Each queue and what became of it. -/
def Queues (R : InputQueue I → InputQueue I → Prop) (s s' : Sync n I S) : Prop :=
  ∀ i, R (s.inputQueues i) (s'.inputQueues i)

theorem Queues.trans (hR : InputQueue.Respects R) (h : Queues R s s₁) (h' : Queues R s₁ s₂) :
    Queues R s s₂ := fun i => hR.trans (h i) (h' i)

theorem Queues.of_eq (hR : InputQueue.Respects R) (h : s₁.inputQueues = s.inputQueues) :
    Queues R s s₁ := fun i => by
  rw [h]
  exact hR.refl _

theorem Queues.update (hR : InputQueue.Respects R) {i : Fin n} {q : InputQueue I}
    (h : R (s.inputQueues i) q) :
    Queues R s { s with inputQueues := Function.update s.inputQueues i q } := by
  intro j
  by_cases hj : j = i
  · subst hj
    simpa using h
  · simpa [hj] using hR.refl _

omit [Build] [Zeroable I] in
theorem loadFrame_inputQueues (s : Sync n I S) (frame : ℤ) :
    Ends (s.loadFrame frame) (fun r => r.2.inputQueues = s.inputQueues) fun _ => True := by
  unfold loadFrame
  split
  · rfl
  · exact .bind_any fun _ => rfl

variable (hR : InputQueue.Respects R)
include hR

theorem setFrameDelay_queues (s : Sync n I S) (queue : Fin n) (delay : ℤ) :
    Ends (s.setFrameDelay queue delay) (Queues R s) fun _ => True :=
  (hR.setFrameDelay _ delay).bind fun _ hq => .update hR hq

theorem setLastConfirmedFrame_queues (s : Sync n I S) (frame : ℤ) :
    Ends (s.setLastConfirmedFrame frame) (Queues R s) fun _ => True := by
  unfold setLastConfirmedFrame
  dsimp only
  split
  · exact Ends.bind (mapQueues_ends fun i => hR.discardConfirmedFrames (s.inputQueues i) (frame - 1))
      fun queues hq => hq
  · exact .of_eq hR rfl

theorem synchronizeInputs_queues (s : Sync n I S) :
    Ends s.synchronizeInputs (fun r => Queues R s r.2) fun _ => True := by
  unfold synchronizeInputs
  refine Fallible.forEach_ends (fun _ (r : GameInput I × Sync n I S) => Queues R s r.2)
    (.of_eq hR rfl) ?_
  rintro i ⟨output, s₁⟩ h
  dsimp only at h ⊢
  unfold synchronizeInput
  split
  · split
    · exact h
    · trivial
  · refine (hR.getInput (s₁.inputQueues i) s₁.frameCount).bind fun r hr => ?_
    dsimp only
    split
    · exact h.trans hR (.update hR hr)
    · trivial

theorem incrementFrame_queues (s : Sync n I S) :
    Ends s.incrementFrame (fun r => Queues R s r.2) fun _ => True := by
  unfold incrementFrame
  obtain ⟨first, s₁, hfirst, hsame⟩ : ∃ first s₁,
      (if s.frameCount = 0 then s.saveCurrentFrame else ([], s)) = (first, s₁) ∧
        s₁.inputQueues = s.inputQueues := by
    split
    · exact ⟨_, _, rfl, rfl⟩
    · exact ⟨_, _, rfl, rfl⟩
  rw [hfirst]
  refine (synchronizeInputs_queues hR s₁).bind fun r hr => ?_
  intro i
  rw [← hsame]
  exact hr i

theorem adjustSimulation_queues (s : Sync n I S) (seekTo : ℤ) :
    Ends (s.adjustSimulation seekTo) (fun r => Queues R s r.2) fun _ => True := by
  unfold adjustSimulation
  refine (loadFrame_inputQueues { s with rollingBack := true } seekTo).bind fun r hr => ?_
  obtain ⟨load, s₁⟩ := r
  dsimp only at hr
  refine .bind_any fun _ => ?_
  unfold resetPrediction
  rw [bind_assoc]
  refine Ends.bind (mapQueues_ends fun i => hR.resetPrediction (s₁.inputQueues i) s₁.frameCount)
    fun queues hq => ?_
  rw [pure_bind]
  refine (Fallible.times_ends (fun _ (r : List (Command I) × Sync n I S) => Queues R s r.2)
    (fun i => hr ▸ hq i) ?_).bind fun r hr => .bind_any fun _ => hr
  rintro k ⟨commands, s₂⟩ - h
  exact (incrementFrame_queues hR s₂).bind fun r hr => h.trans hR hr

theorem checkSimulation_queues (s : Sync n I S) :
    Ends s.checkSimulation (fun r => Queues R s r.2) fun _ => True := by
  unfold checkSimulation
  split
  · exact adjustSimulation_queues hR s _
  · exact .of_eq hR rfl

end Sync

end Backroll

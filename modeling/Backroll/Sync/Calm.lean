import Backroll.Sync.Simulation

/-! What no call of a `Sync` ever changes, whatever its state: the connect statuses, the inputs
that the queues have stored, and, the frames simulated again included, the frame counter. -/
namespace Backroll

open Fallible (Ends)

namespace InputQueue

variable {I : Type}

/-- No input was added. -/
structure SameInputs (q q' : InputQueue I) : Prop where
  inputs : q'.inputs = q.inputs
  head : q'.head = q.head
  lastAddedFrame : q'.lastAddedFrame = q.lastAddedFrame
  lastUserAddedFrame : q'.lastUserAddedFrame = q.lastUserAddedFrame

theorem SameInputs.refl (q : InputQueue I) : SameInputs q q := ⟨rfl, rfl, rfl, rfl⟩

theorem SameInputs.trans {q q₁ q₂ : InputQueue I} (h : SameInputs q q₁) (h' : SameInputs q₁ q₂) :
    SameInputs q q₂ :=
  ⟨h'.inputs.trans h.inputs, h'.head.trans h.head, h'.lastAddedFrame.trans h.lastAddedFrame,
    h'.lastUserAddedFrame.trans h.lastUserAddedFrame⟩

variable [Build]

theorem setFrameDelay_same (q : InputQueue I) (delay : ℤ) :
    Ends (q.setFrameDelay delay) (SameInputs q) fun _ => True :=
  .bind_any fun _ => ⟨rfl, rfl, rfl, rfl⟩

theorem resetPrediction_same (q : InputQueue I) (frame : ℤ) :
    Ends (q.resetPrediction frame) (SameInputs q) fun _ => True :=
  .bind_any fun _ => ⟨rfl, rfl, rfl, rfl⟩

theorem discardConfirmedFrames_same (q : InputQueue I) (frame : ℤ) :
    Ends (q.discardConfirmedFrames frame) (SameInputs q) fun _ => True := by
  refine .bind_any fun _ => ?_
  dsimp only
  generalize (if isNull q.lastFrameRequested then min frame q.lastFrameRequested else frame) = last
  split
  · exact ⟨rfl, rfl, rfl, rfl⟩
  · refine .bind_any fun offset => ?_
    split
    · exact ⟨rfl, rfl, rfl, rfl⟩
    · trivial

theorem getInput_same [Zeroable I] (q : InputQueue I) (frame : ℤ) :
    Ends (q.getInput frame) (fun r => SameInputs q r.2) fun _ => True := by
  refine .bind_any fun _ => .bind_any fun _ => ?_
  split
  · refine .bind_any fun offset => ?_
    split
    · exact .bind_any fun _ => ⟨rfl, rfl, rfl, rfl⟩
    · exact ⟨rfl, rfl, rfl, rfl⟩
  · exact ⟨rfl, rfl, rfl, rfl⟩

end InputQueue

namespace Sync

variable {n : ℕ} {I S : Type}

/-- From one state to a later one, in which inputs were added only to these queues. -/
structure Calm (added : Fin n → Prop) (s s' : Sync n I S) : Prop where
  statuses : s'.localConnectStatus = s.localConnectStatus
  idle : s.rollingBack = false → s'.rollingBack = false
  stored : ∀ i, ¬added i → (s.inputQueues i).SameInputs (s'.inputQueues i)

variable {added : Fin n → Prop} {s s₁ s₂ : Sync n I S}

/-- Queues, statuses and the flag are as before. -/
theorem Calm.of_eq (hstatuses : s₁.localConnectStatus = s.localConnectStatus)
    (hback : s.rollingBack = false → s₁.rollingBack = false)
    (hqueues : s₁.inputQueues = s.inputQueues) : Calm added s s₁ :=
  ⟨hstatuses, hback, fun i _ => by rw [hqueues]; exact .refl _⟩

theorem Calm.trans (h : Calm added s s₁) (h' : Calm added s₁ s₂) : Calm added s s₂ :=
  ⟨h'.statuses.trans h.statuses, fun hi => h'.idle (h.idle hi),
    fun i hi => (h.stored i hi).trans (h'.stored i hi)⟩

/-- One queue was changed. -/
theorem Calm.update {i : Fin n} {q : InputQueue I}
    (h : ¬added i → (s.inputQueues i).SameInputs q) :
    Calm added s { s with inputQueues := Function.update s.inputQueues i q } := by
  refine ⟨rfl, id, fun j hj => ?_⟩
  by_cases heq : j = i
  · subst heq
    simpa using h hj
  · simpa [heq] using InputQueue.SameInputs.refl _

/-- No cell holds a later frame. -/
def LabelledTo (s : Sync n I S) (frame : ℤ) : Prop := ∀ c, (s.savedState.frames c).frame ≤ frame

theorem LabelledTo.saveCurrentFrame {frame : ℤ} (h : s.LabelledTo frame)
    (hle : s.frameCount ≤ frame) : s.saveCurrentFrame.2.LabelledTo frame := by
  intro c
  simp only [Sync.saveCurrentFrame, SavedState.frame_push]
  split
  · exact hle
  · exact h c

variable (added : Fin n → Prop)

theorem loadFrame_calm (s : Sync n I S) (frame : ℤ) :
    Ends (s.loadFrame frame) (fun r => Calm added s r.2) fun _ => True := by
  unfold loadFrame
  split
  · exact .of_eq rfl id rfl
  · exact .bind_any fun r => .of_eq rfl id rfl

variable [Build]

theorem setLastConfirmedFrame_calm (s : Sync n I S) (frame : ℤ) :
    Ends (s.setLastConfirmedFrame frame) (Calm added s) fun _ => True := by
  unfold setLastConfirmedFrame
  dsimp only
  split
  · refine Ends.bind (mapQueues_ends fun i =>
      InputQueue.discardConfirmedFrames_same (s.inputQueues i) (frame - 1)) fun queues hq => ?_
    exact ⟨rfl, id, fun i _ => hq i⟩
  · exact .of_eq rfl id rfl

theorem setFrameDelay_calm (s : Sync n I S) (queue : Fin n) (delay : ℤ) :
    Ends (s.setFrameDelay queue delay) (Calm added s) fun _ => True := by
  refine ((s.inputQueues queue).setFrameDelay_same delay).bind fun q hq => ?_
  exact .update fun _ => hq

section Adding

variable [BEq I]

theorem addRemoteInput_calm (s : Sync n I S) (queue : Fin n) (input : FrameInput I) :
    Ends (s.addRemoteInput queue input) (Calm (· = queue) s) fun _ => True :=
  .bind_any fun _ => .update fun h => absurd rfl h

end Adding

variable [Zeroable I]

theorem synchronizeInput_calm (s : Sync n I S) (i : Fin n) (output : GameInput I) :
    Ends (s.synchronizeInput i output) (fun r => Calm added s r.2) fun _ => True := by
  unfold synchronizeInput
  split
  · split
    · exact .of_eq rfl id rfl
    · trivial
  · refine ((s.inputQueues i).getInput_same s.frameCount).bind fun r hr => ?_
    dsimp only
    split
    · exact .update fun _ => hr
    · trivial

theorem synchronizeInputs_calm (s : Sync n I S) :
    Ends s.synchronizeInputs (fun r => Calm added s r.2) fun _ => True := by
  unfold synchronizeInputs
  refine Fallible.forEach_ends (fun _ (r : GameInput I × Sync n I S) => Calm added s r.2)
    (.of_eq rfl id rfl) ?_
  rintro i ⟨output, s₁⟩ h
  exact (synchronizeInput_calm added s₁ i output).imp fun r => h.trans

theorem incrementFrame_calm (s : Sync n I S) :
    Ends s.incrementFrame (fun r => Calm added s r.2) fun _ => True := by
  unfold incrementFrame
  obtain ⟨first, s₁, hfirst, hcalm⟩ : ∃ first s₁,
      (if s.frameCount = 0 then s.saveCurrentFrame else ([], s)) = (first, s₁) ∧
        Calm added s s₁ := by
    split
    · exact ⟨_, _, rfl, .of_eq rfl id rfl⟩
    · exact ⟨_, _, rfl, .of_eq rfl id rfl⟩
  rw [hfirst]
  refine (synchronizeInputs_calm added s₁).bind fun r hr => ?_
  exact hcalm.trans (hr.trans (.of_eq rfl id rfl))

/-- A rollback is over when the call returns. -/
theorem adjustSimulation_calm (s : Sync n I S) (seekTo : ℤ) :
    Ends (s.adjustSimulation seekTo) (fun r => Calm added s r.2) fun _ => True := by
  unfold adjustSimulation
  refine (loadFrame_calm added { s with rollingBack := true } seekTo).bind
    fun r hr => ?_
  obtain ⟨load, s₁⟩ := r
  refine .bind_any fun _ => ?_
  unfold resetPrediction
  rw [bind_assoc]
  refine Ends.bind (mapQueues_ends fun i =>
    InputQueue.resetPrediction_same (s₁.inputQueues i) s₁.frameCount) fun queues hq => ?_
  rw [pure_bind]
  have hreset : s₁.localConnectStatus = s.localConnectStatus ∧
      ∀ i, ¬added i → (s.inputQueues i).SameInputs (queues i) :=
    ⟨hr.statuses, fun i hi => (hr.stored i hi).trans (hq i)⟩
  refine (Fallible.times_ends (fun _ (r : List (Command I) × Sync n I S) =>
    r.2.localConnectStatus = s.localConnectStatus ∧
      ∀ i, ¬added i → (s.inputQueues i).SameInputs (r.2.inputQueues i)) hreset ?_).bind
    fun r hr => ?_
  · rintro i ⟨commands, s₂⟩ - ⟨hstatuses, hstored⟩
    exact (incrementFrame_calm added s₂).bind fun r hr =>
      ⟨hr.statuses.trans hstatuses, fun i hi => (hstored i hi).trans (hr.stored i hi)⟩
  · exact .bind_any fun _ => ⟨hr.1, fun _ => rfl, hr.2⟩

/-- The inputs are for the current frame, and the queues are all that a request changes. -/
theorem synchronizeInputs_same (s : Sync n I S) : Ends s.synchronizeInputs (fun r =>
    r.2 = { s with inputQueues := r.2.inputQueues } ∧ r.1.frame = s.frameCount) fun _ => True := by
  unfold synchronizeInputs
  refine Fallible.forEach_ends (fun _ (r : GameInput I × Sync n I S) =>
    r.2 = { s with inputQueues := r.2.inputQueues } ∧ r.1.frame = s.frameCount) ⟨rfl, rfl⟩ ?_
  rintro i ⟨output, s₁⟩ ⟨hsame, hframe⟩
  dsimp only at hsame hframe
  simp only [synchronizeInput]
  split
  · split
    · exact ⟨hsame, hframe⟩
    · trivial
  · refine .bind_any fun r => ?_
    split
    · refine ⟨?_, hframe⟩
      rw [hsame]
    · trivial

theorem incrementFrame_counts {frame : ℤ} (hle : s.frameCount + 1 ≤ frame)
    (h : s.LabelledTo frame) : Ends s.incrementFrame (fun r =>
      r.2.LabelledTo frame ∧ r.2.frameCount = s.frameCount + 1) fun _ => True := by
  unfold incrementFrame
  obtain ⟨first, s₁, hfirst, hlab, hcount⟩ : ∃ first s₁,
      (if s.frameCount = 0 then s.saveCurrentFrame else ([], s)) = (first, s₁) ∧
        s₁.LabelledTo frame ∧ s₁.frameCount = s.frameCount := by
    split
    · exact ⟨_, _, rfl, h.saveCurrentFrame (by omega), rfl⟩
    · exact ⟨_, _, rfl, h, rfl⟩
  rw [hfirst]
  refine (synchronizeInputs_same s₁).bind fun r hr => ?_
  have hsaved : r.2.savedState = s₁.savedState := by rw [hr.1]
  have hcount₂ : r.2.frameCount = s₁.frameCount := by rw [hr.1]
  have hlab₂ : LabelledTo { r.2 with frameCount := r.2.frameCount + 1 } frame := by
    intro c
    rw [hsaved]
    exact hlab c
  exact ⟨hlab₂.saveCurrentFrame (by dsimp only; omega), by simp [hcount₂, hcount]⟩

/-- Whatever frame a rollback goes to, it comes back to the frame it began at. -/
theorem adjustSimulation_counts (h : s.LabelledTo s.frameCount) (seekTo : ℤ) :
    Ends (s.adjustSimulation seekTo) (fun r => r.2.LabelledTo r.2.frameCount ∧
      r.2.frameCount = s.frameCount) fun _ => True := by
  unfold adjustSimulation
  have hload : Ends (loadFrame { s with rollingBack := true } seekTo) (fun r =>
      r.2.LabelledTo s.frameCount ∧ r.2.frameCount = seekTo ∧ seekTo ≤ s.frameCount)
      fun _ => True := by
    unfold loadFrame
    split
    · next heq => exact ⟨h, heq.symm, heq.le⟩
    · cases hfind : s.savedState.findIndex seekTo with
      | none => simp [SavedState.resetTo, hfind]
      | some index =>
        have hlabel : (s.savedState.frames index).frame = seekTo := by
          simpa using List.find?_some hfind
        simp only [SavedState.resetTo, hfind, Fallible.ok_bind]
        exact ⟨h, hlabel, hlabel ▸ h index⟩
  refine hload.bind fun r hr => ?_
  obtain ⟨load, s₁⟩ := r
  obtain ⟨hlab, hcount, hle⟩ := hr
  refine .bind_any fun _ => ?_
  unfold resetPrediction
  rw [bind_assoc]
  refine .bind_any fun queues => ?_
  rw [pure_bind]
  have hreset : LabelledTo { s₁ with inputQueues := queues } s.frameCount ∧
      s₁.frameCount = seekTo + (0 : ℕ) := ⟨hlab, by simpa using hcount⟩
  refine (Fallible.times_ends (fun k (r : List (Command I) × Sync n I S) =>
    r.2.LabelledTo s.frameCount ∧ r.2.frameCount = seekTo + k) hreset ?_).bind fun r hr => ?_
  · rintro k ⟨commands, s₂⟩ hk ⟨hlab₂, hcount₂⟩
    dsimp only at hlab₂ hcount₂
    refine (incrementFrame_counts (by omega) hlab₂).bind fun r hr => ?_
    refine ⟨hr.1, ?_⟩
    rw [hr.2, hcount₂]
    push_cast
    ring
  · refine .bind_any fun _ => ?_
    obtain ⟨hlab₂, hcount₂⟩ := hr
    have hend : r.2.frameCount = s.frameCount := by omega
    exact ⟨fun c => hend ▸ hlab₂ c, hend⟩

end Sync

end Backroll

import Backroll.Sync.Batch
import Backroll.Sync.Calm

/-! The frames that the commands of a `Sync` are for. A rollback issues commands from the frame
it goes back to on, and from no earlier one. -/
namespace Backroll

open Fallible (Ends)

variable {n : ℕ} {I S : Type}

namespace Command

/-- The command makes the client simulate. -/
def Simulates : Command I → Prop
  | load _ => True
  | advanceFrame _ => True
  | _ => False

/-- The frame that a command is for. -/
def frame? : Command I → Option ℤ
  | save _ frame => some frame
  | advanceFrame inputs => some inputs.frame
  | _ => none

end Command

/-- Every command is for this frame or a later one, or for none. -/
def FramesFrom (lo : ℤ) (commands : List (Command I)) : Prop :=
  ∀ c ∈ commands, ∀ frame ∈ c.frame?, lo ≤ frame

/-- The commands are those of a simulation from this frame on. -/
def SimulatesFrom (lo : ℤ) (commands : List (Command I)) : Prop :=
  FramesFrom lo commands ∧ ∀ event, .event event ∉ commands

theorem FramesFrom.nil (lo : ℤ) : FramesFrom lo ([] : List (Command I)) := by
  simp [FramesFrom]

theorem FramesFrom.events (lo : ℤ) (events : List Event) :
    FramesFrom lo (events.map Command.event : List (Command I)) := by
  simp [FramesFrom, Command.frame?]

theorem FramesFrom.append {lo : ℤ} {cs cs' : List (Command I)} (h : FramesFrom lo cs)
    (h' : FramesFrom lo cs') : FramesFrom lo (cs ++ cs') := fun c hc =>
  (List.mem_append.mp hc).elim (h c) (h' c)

theorem FramesFrom.mono {lo lo' : ℤ} {cs : List (Command I)} (h : FramesFrom lo cs)
    (hle : lo' ≤ lo) : FramesFrom lo' cs := fun c hc frame hframe => hle.trans (h c hc frame hframe)

theorem SimulatesFrom.nil (lo : ℤ) : SimulatesFrom lo ([] : List (Command I)) :=
  ⟨.nil lo, fun _ => List.not_mem_nil⟩

theorem SimulatesFrom.append {lo : ℤ} {cs cs' : List (Command I)} (h : SimulatesFrom lo cs)
    (h' : SimulatesFrom lo cs') : SimulatesFrom lo (cs ++ cs') :=
  ⟨h.1.append h'.1, fun event hmem => (List.mem_append.mp hmem).elim (h.2 event) (h'.2 event)⟩

theorem SimulatesFrom.mono {lo lo' : ℤ} {cs : List (Command I)} (h : SimulatesFrom lo cs)
    (hle : lo' ≤ lo) : SimulatesFrom lo' cs := ⟨h.1.mono hle, h.2⟩

/-- The client is to simulate this frame. -/
def Advances (frame : ℤ) (commands : List (Command I)) : Prop :=
  ∃ inputs ∈ advances commands, inputs.frame = frame

theorem Advances.append_left {frame : ℤ} {cs : List (Command I)} (h : Advances frame cs)
    (cs' : List (Command I)) : Advances frame (cs ++ cs') := by
  obtain ⟨inputs, hmem, hframe⟩ := h
  exact ⟨inputs, by simp [hmem], hframe⟩

theorem Advances.append_right {frame : ℤ} {cs' : List (Command I)} (h : Advances frame cs')
    (cs : List (Command I)) : Advances frame (cs ++ cs') := by
  obtain ⟨inputs, hmem, hframe⟩ := h
  exact ⟨inputs, by simp [hmem], hframe⟩

theorem mem_of_mem_advances {inputs : GameInput I} {cs : List (Command I)}
    (h : inputs ∈ advances cs) : .advanceFrame inputs ∈ cs := by
  induction cs with
  | nil => simp at h
  | cons c cs ih =>
    cases c with
    | advanceFrame inputs' =>
      rcases List.mem_cons.mp h with rfl | h
      · exact List.mem_cons_self
      · exact List.mem_cons_of_mem _ (ih h)
    | save cell frame => exact List.mem_cons_of_mem _ (ih h)
    | load cell => exact List.mem_cons_of_mem _ (ih h)
    | event event => exact List.mem_cons_of_mem _ (ih h)

theorem Advances.le {lo frame : ℤ} {cs : List (Command I)} (h : Advances frame cs)
    (hframes : FramesFrom lo cs) : lo ≤ frame := by
  obtain ⟨inputs, hmem, rfl⟩ := h
  exact hframes _ (mem_of_mem_advances hmem) _ rfl

namespace Sync

variable {s : Sync n I S}

theorem saveCurrentFrame_frames (s : Sync n I S) :
    SimulatesFrom s.frameCount s.saveCurrentFrame.1 := by
  simp [saveCurrentFrame, SimulatesFrom, FramesFrom, Command.frame?]

theorem loadFrame_frames (s : Sync n I S) (frame : ℤ) :
    Ends (s.loadFrame frame) (fun r => SimulatesFrom frame r.1 ∧ r.2.frameCount = frame)
      fun _ => True := by
  unfold loadFrame
  split
  · next heq => exact ⟨.nil _, heq.symm⟩
  · cases hfind : s.savedState.findIndex frame with
    | none => simp [SavedState.resetTo, hfind]
    | some index =>
      have hlabel : (s.savedState.frames index).frame = frame := by
        simpa using List.find?_some hfind
      simpa [SavedState.resetTo, hfind, SimulatesFrom, FramesFrom, Command.frame?] using hlabel

variable [Build] [Zeroable I]

/-- One frame is simulated, and saved around it. -/
theorem incrementFrame_frames (s : Sync n I S) :
    Ends s.incrementFrame (fun r => SimulatesFrom s.frameCount r.1 ∧ Advances s.frameCount r.1 ∧
      r.2.frameCount = s.frameCount + 1) fun _ => True := by
  unfold incrementFrame
  obtain ⟨first, s₁, hfirst, hframes, hcount⟩ : ∃ first s₁,
      (if s.frameCount = 0 then s.saveCurrentFrame else ([], s)) = (first, s₁) ∧
        SimulatesFrom s.frameCount first ∧ s₁.frameCount = s.frameCount := by
    split
    · exact ⟨_, _, rfl, s.saveCurrentFrame_frames, rfl⟩
    · exact ⟨_, _, rfl, .nil _, rfl⟩
  rw [hfirst]
  refine (synchronizeInputs_same s₁).bind fun r hr => ?_
  obtain ⟨inputs, s₂⟩ := r
  obtain ⟨hsame, hinputs⟩ := hr
  dsimp only at hsame hinputs
  have hcount₂ : s₂.frameCount = s₁.frameCount := by rw [hsame]
  rw [hcount] at hinputs hcount₂
  refine ⟨(hframes.append ?_).append ?_, ⟨inputs, by simp [advances], hinputs⟩, ?_⟩
  · simp [SimulatesFrom, FramesFrom, Command.frame?, hinputs]
  · refine (saveCurrentFrame_frames _).mono ?_
    dsimp only
    omega
  · exact congrArg (· + 1) hcount₂

/-- A rollback simulates from the frame it goes back to on. -/
theorem adjustSimulation_frames (s : Sync n I S) (seekTo : ℤ) :
    Ends (s.adjustSimulation seekTo) (fun r => SimulatesFrom seekTo r.1 ∧
      (seekTo < s.frameCount → Advances seekTo r.1)) fun _ => True := by
  unfold adjustSimulation
  refine (loadFrame_frames { s with rollingBack := true } seekTo).bind fun r hr => ?_
  obtain ⟨load, s₁⟩ := r
  obtain ⟨hload, hcount⟩ := hr
  dsimp only at hload hcount
  refine .bind_any fun _ => ?_
  unfold resetPrediction
  rw [bind_assoc]
  refine .bind_any fun queues => ?_
  rw [pure_bind]
  -- The first frame simulated again is the one the rollback went back to.
  refine (Fallible.times_ends (fun k (r : List (Command I) × Sync n I S) =>
    SimulatesFrom seekTo r.1 ∧ (0 < k → Advances seekTo r.1) ∧ r.2.frameCount = seekTo + k)
    ⟨hload, fun h => absurd h (lt_irrefl 0), by simpa using hcount⟩ ?_).bind
    fun r hr => .bind_any fun _ => ⟨hr.1, fun hlt => hr.2.1 (by omega)⟩
  rintro k ⟨commands, s₂⟩ - ⟨hframes, hadvances, hcount₂⟩
  dsimp only at hframes hadvances hcount₂
  refine (incrementFrame_frames s₂).bind fun r hr => ?_
  obtain ⟨hframes', hadvances', hcount'⟩ := hr
  rw [hcount₂] at hframes' hadvances' hcount'
  refine ⟨hframes.append (hframes'.mono (by omega)), fun _ => ?_, ?_⟩
  · rcases Nat.eq_zero_or_pos k with rfl | hk
    · exact Advances.append_right (by simpa using hadvances') _
    · exact (hadvances hk).append_left _
  · rw [hcount']
    push_cast
    ring

/-- No check of the simulation goes back to a null frame. -/
theorem checkSimulation_frames (s : Sync n I S) :
    Ends s.checkSimulation (fun r => SimulatesFrom 0 r.1) fun _ => True := by
  unfold checkSimulation
  cases hseek : s.checkSimulationConsistency with
  | none => exact .nil 0
  | some seekTo =>
    have hmem := List.min?_mem hseek
    simp only [List.mem_filter, decide_eq_true_eq, isNull, not_lt] at hmem
    exact (s.adjustSimulation_frames seekTo).imp fun r hr => hr.1.mono hmem.2

end Sync

end Backroll

import Backroll.Input.InputQueue
import Backroll.Input.LogQueue

/-! The ring of `InputQueue` refines the log of `LogQueue`, operation by operation. As long as
the ring holds all that was not discarded, no operation fails. -/
namespace Backroll

open Fallible (Ends)

variable {I : Type} [Zeroable I]

/-- The queue stands at the end of the log: the ring holds its last 120 entries, the other
fields what they say. -/
structure Follows (q : InputQueue I) (a : LogQueue I) : Prop where
  start_le : a.start ≤ a.log.length
  head : q.head = Cyclic.cell maxRollbackFrames a.log.length
  tail : q.tail = Cyclic.cell maxRollbackFrames a.start
  length : q.length = a.log.length - a.start
  firstFrame : q.firstFrame = a.log.isEmpty
  lastUser : q.lastUserAddedFrame = a.lastUser
  lastAdded : q.lastAddedFrame = a.log.length - 1
  incorrect : q.firstIncorrectFrame = a.incorrect
  requested : q.lastFrameRequested = a.requested
  delay : q.frameDelay = a.delay
  inputs : Cyclic.Holds q.inputs default (framed 0 a.log)
  predicting : ∀ k ∈ a.guess, k ≤ a.log.length ∧ q.prediction = ⟨a.log.length, LogQueue.basis a.log k⟩
  idle : a.guess = none → q.prediction.frame = nullFrame

/-- The queue holds the log: what was not discarded fits into the ring. -/
structure Refines (q : InputQueue I) (a : LogQueue I) : Prop extends Follows q a where
  window : a.log.length ≤ a.start + maxRollbackFrames

namespace Follows

variable {q : InputQueue I} {a : LogQueue I}

theorem new (delay : ℤ) : Follows (InputQueue.new delay : InputQueue I) (.new delay) :=
  ⟨le_rfl, rfl, rfl, rfl, rfl, rfl, rfl, rfl, rfl, rfl,
    Cyclic.holds_nil _, by simp [LogQueue.new], fun _ => rfl⟩

/-- The slot before the head holds the last entry under its frame. -/
theorem inputs_previous (h : Follows q a) :
    q.inputs (previousFrame q.head) = ⟨a.log.length - 1, LogQueue.lastOf a.log⟩ := by
  have hlast := h.inputs.last
  rw [length_framed] at hlast
  rw [h.head, previousFrame_cell, hlast]
  rcases List.eq_nil_or_concat a.log with hnil | ⟨xs, x, hx⟩
  · simp [hnil, LogQueue.lastOf]
    rfl
  · rw [List.concat_eq_append] at hx
    rw [hx, framed_append]
    simp [LogQueue.lastOf]

section Operations

variable [Build]

theorem setFrameDelay (h : Follows q a) {delay : ℤ} (hd : 0 ≤ delay) :
    ∃ q', q.setFrameDelay delay = .ok q' ∧ Follows q' { a with delay := delay } := by
  refine ⟨{ q with frameDelay := delay }, ?_, { h with delay := rfl }⟩
  rw [InputQueue.setFrameDelay, debugAssert_of (not_lt.mpr hd)]
  rfl

/-- A reset forgets the prediction and the requests; above the first wrong frame it forgets
that one too, unless assertions are checked. -/
theorem resetPrediction (h : Follows q a) (frame : ℤ) :
    Ends (q.resetPrediction frame) (Follows · a.reset)
      fun e => e = .assertion ∧ ¬(isNull a.incorrect ∨ frame ≤ a.incorrect) := by
  rw [InputQueue.resetPrediction, h.incorrect]
  refine (debugAssert_ends _).bind fun _ _ => ?_
  exact { h with
    incorrect := rfl
    requested := rfl
    predicting := by simp [LogQueue.reset]
    idle := fun _ => rfl }

variable [BEq I]

theorem addDelayedInput (h : Follows q a) (label : ℤ) (x : I) :
    Ends (q.addDelayedInput a.log.length ⟨label, x⟩) (Follows · (a.store label x))
      fun e => e = .assertion ∧ a.start + maxRollbackFrames ≤ a.log.length := by
  have hsl := h.start_le
  have hadded := h.lastAdded
  have hlen := h.length
  rw [InputQueue.addDelayedInput, debugAssert_of (by simp only [isNull]; omega)]
  simp only [Fallible.ok_bind]
  rw [debugAssert_of (Or.inr (by rw [h.inputs_previous]))]
  simp only [Fallible.ok_bind]
  have hring := h.inputs.push ⟨a.log.length, x⟩
  rw [length_framed, ← h.head] at hring
  have hframed : framed 0 a.log ++ [⟨a.log.length, x⟩] = framed 0 (a.log ++ [x]) := by
    rw [framed_append]
    simp
  rw [hframed] at hring
  have hhead : q.head + 1 = Cyclic.cell maxRollbackFrames (a.log ++ [x]).length := by
    rw [h.head, Cyclic.cell_succ, List.length_append, List.length_singleton]
  have hroom : ¬q.length + 1 ≤ maxRollbackFrames →
      a.start + maxRollbackFrames ≤ a.log.length := by
    rw [hlen]
    omega
  cases hg : a.guess with
  | none =>
    have hp := h.idle hg
    rw [if_neg (by simp [hp]), LogQueue.store_of_idle a label x hg]
    simp only [Fallible.pure_eq_ok, Fallible.ok_bind]
    refine ((debugAssert_ends _).mono (fun _ _ => trivial) fun e he =>
      ⟨he.1, hroom he.2⟩).bind fun _ _ => ?_
    exact { h with
      start_le := by simp; omega
      head := hhead
      length := by simp; omega
      firstFrame := by simp
      lastAdded := by simp
      inputs := hring
      predicting := by simp [hg]
      idle := fun _ => hp }
  | some k =>
    obtain ⟨hk, hp⟩ := h.predicting k hg
    have hmark : (if isNull q.firstIncorrectFrame ∧ q.prediction != ⟨label, x⟩ then
        (a.log.length : ℤ) else q.firstIncorrectFrame) = a.marked label x := by
      rw [hp, h.incorrect, LogQueue.marked, hg]
    rw [if_pos (by simp [hp]), InputQueue.checkPrediction_eq _ _ (a.marked label x) (by rw [hp])
      (by exact hmark)]
    simp only [Fallible.ok_bind]
    refine ((debugAssert_ends _).mono (fun _ _ => trivial) fun e he =>
      ⟨he.1, hroom he.2⟩).bind fun _ _ => ?_
    have hbasis : LogQueue.basis (a.log ++ [x]) k = LogQueue.basis a.log k :=
      LogQueue.basis_append hk [x]
    refine { h with
      start_le := by simp; omega
      head := hhead
      length := by simp; omega
      firstFrame := by simp
      lastAdded := by simp
      incorrect := rfl
      inputs := hring
      predicting := fun k' hk' => ?_
      idle := fun hnone => ?_ }
    · rw [LogQueue.store, ← h.requested] at hk'
      dsimp only at hk'
      split at hk'
      · simp at hk'
      · next hdump =>
        obtain rfl : k = k' := by simpa [hg] using hk'
        refine ⟨by simp; omega, ?_⟩
        dsimp only
        rw [if_neg hdump, LogQueue.log_store, hbasis, hp]
        simp
    · rw [LogQueue.store, ← h.requested] at hnone
      dsimp only at hnone ⊢
      split at hnone
      · next hdump => rw [if_pos hdump]
      · simp [hg] at hnone

theorem padQueue (h : Follows q a) (count : ℕ) :
    Ends (q.padQueue count a.log.length) (Follows · (a.pad count))
      fun e => e = .assertion ∧ a.start + maxRollbackFrames < a.log.length + count := by
  induction count generalizing q a with
  | zero => exact h
  | succ count ih =>
    rw [InputQueue.padQueue, h.inputs_previous]
    refine ((h.addDelayedInput _ _).mono (fun _ hq => hq) fun e he =>
      ⟨he.1, by omega⟩).bind fun q₁ hr₁ => ?_
    have hpad := ih hr₁
    rw [LogQueue.log_store, List.length_append, List.length_singleton, Nat.cast_add,
      Nat.cast_one] at hpad
    exact hpad.mono (fun _ hq => hq) fun e he => ⟨he.1, by simpa [Nat.add_assoc, Nat.add_comm 1] using he.2⟩

/-- A user's input goes to its slot. This fails only when assertions are checked, and then
only on a frame that does not follow the last one or when the ring has no room. -/
theorem addInput (h : Follows q a) (x : FrameInput I) :
    Ends (q.addInput x) (fun r => Follows r.2 (a.add x)) fun e => e = .assertion ∧
      ¬((isNull a.lastUser ∨ x.frame = a.lastUser + 1) ∧
        x.frame + a.delay < a.start + maxRollbackFrames) := by
  have hsl := h.start_le
  rw [InputQueue.addInput, h.lastUser]
  refine ((debugAssert_ends _).mono (fun _ _ => trivial) fun e he =>
    ⟨he.1, fun hok => he.2 hok.1⟩).bind fun _ _ => ?_
  have h' : Follows { q with lastUserAddedFrame := x.frame } { a with lastUser := x.frame } :=
    { h with lastUser := rfl }
  have hexpected : (if q.firstFrame = true then 0
      else (q.inputs (previousFrame q.head)).frame + 1) = a.log.length := by
    rw [h.firstFrame, h.inputs_previous]
    split
    · next hnil => simp [List.isEmpty_iff.mp hnil]
    · simp
  have hdelay := h.delay
  simp only [InputQueue.advanceQueueHead, hexpected, LogQueue.add]
  by_cases htaken : (a.log.length : ℤ) > x.frame + a.delay
  · rw [if_pos htaken, if_pos (by omega)]
    exact h'
  · rw [if_neg htaken, if_neg (by omega)]
    have hslot : ((({ a with lastUser := x.frame } : LogQueue I).pad
        (x.frame + a.delay - a.log.length).toNat).log.length : ℤ) = x.frame + q.frameDelay := by
      simp
      omega
    have hpad := h'.padQueue (x.frame + a.delay - a.log.length).toNat
    rw [← hdelay] at hpad hslot ⊢
    simp only [bind_assoc]
    refine (hpad.mono (fun _ hq => hq) fun e he => ⟨he.1, fun hok => ?_⟩).bind fun q₁ hr₁ => ?_
    case refine_2 =>
      have := he.2
      dsimp only at this
      omega
    rw [debugAssert_of (Or.inr (by rw [hr₁.inputs_previous, hslot]; ring))]
    simp only [Fallible.ok_bind, Fallible.pure_eq_ok]
    rw [if_pos (by simp only [isNull]; omega)]
    have hadd := hr₁.addDelayedInput x.frame x.input
    rw [hslot] at hadd
    refine (hadd.mono (fun _ hq => hq) fun e he => ⟨he.1, fun hok => ?_⟩).bind fun q₂ hr₂ => hr₂
    have := he.2
    rw [LogQueue.start_pad] at this
    dsimp only at this
    omega

end Operations

end Follows

namespace Refines

variable {q : InputQueue I} {a : LogQueue I}

theorem new (delay : ℤ) : Refines (InputQueue.new delay : InputQueue I) (.new delay) :=
  ⟨.new delay, by simp [LogQueue.new]⟩

/-- The slot of an undiscarded frame. -/
theorem inputs_cell (h : Refines q a) {j : ℕ} (hs : a.start ≤ j) (hj : j < a.log.length) :
    q.inputs (Cyclic.cell maxRollbackFrames j) = ⟨j, a.log[j]⟩ := by
  have hw := h.window
  refine h.inputs.recent j _ ?_ ?_
  · simp [hj]
  · rw [length_framed]
    exact hw.trans (Nat.add_le_add_right hs _)

/-- The label in the tail slot: the first frame kept, or that of a stale entry below it. -/
theorem frame_tail (h : Refines q a) :
    (a.start < a.log.length → (q.inputs q.tail).frame = a.start) ∧
      (q.inputs q.tail).frame ≤ a.start := by
  have hw := h.window
  have hle := h.start_le
  rw [h.tail]
  rcases Nat.lt_or_ge a.start a.log.length with hlt | hge
  · have := h.inputs_cell le_rfl hlt
    rw [this]
    exact ⟨fun _ => rfl, le_rfl⟩
  · refine ⟨fun hlt => absurd hlt (by omega), ?_⟩
    by_cases hs : a.start < maxRollbackFrames
    · rw [h.inputs.unused a.start (by rw [length_framed]; exact hge) hs]
      show (-1 : ℤ) ≤ a.start
      omega
    · obtain ⟨j, hj⟩ : ∃ j, a.start = j + maxRollbackFrames :=
        ⟨_, (Nat.sub_add_cancel (not_lt.mp hs)).symm⟩
      have hcell : Cyclic.cell maxRollbackFrames a.start = Cyclic.cell maxRollbackFrames j := by
        rw [Cyclic.cell_eq_iff, hj, Nat.add_mod_right]
      have hjl : j < a.log.length := by
        have : 0 < maxRollbackFrames := by decide
        omega
      rw [hcell, h.inputs.recent j ⟨j, a.log[j]⟩ (by simp [hjl])
        (by rw [length_framed]; omega)]
      show (j : ℤ) ≤ a.start
      omega

section Operations

variable [Build]

theorem setFrameDelay (h : Refines q a) {delay : ℤ} (hd : 0 ≤ delay) :
    ∃ q', q.setFrameDelay delay = .ok q' ∧ Refines q' { a with delay := delay } := by
  obtain ⟨q', he, hq'⟩ := h.toFollows.setFrameDelay hd
  exact ⟨q', he, hq', h.window⟩

/-- A reset at a frame up to the first wrong one forgets the prediction and the requests. -/
theorem resetPrediction (h : Refines q a) {frame : ℤ}
    (hf : isNull a.incorrect ∨ frame ≤ a.incorrect) :
    ∃ q', q.resetPrediction frame = .ok q' ∧ Refines q' a.reset := by
  have hends := h.toFollows.resetPrediction frame
  obtain ⟨q', he, hq'⟩ := (hends.mono (fun _ hq => hq) fun e he => he.2 hf).total
  exact ⟨q', he, hq', h.window⟩

theorem getInput (h : Refines q a) {frame : ℕ} (hi : isNull a.incorrect) (hf : a.start ≤ frame) :
    ∃ q', q.getInput frame = .ok ((a.get frame).1, q') ∧ Refines q' (a.get frame).2 := by
  obtain ⟨htail, hle⟩ := h.frame_tail
  have hi' : isNull q.firstIncorrectFrame := h.incorrect ▸ hi
  rw [InputQueue.getInput, debugAssert_of hi']
  simp only [Fallible.ok_bind]
  rw [debugAssert_of (by omega)]
  simp only [Fallible.ok_bind]
  cases hg : a.guess with
  | some k =>
    obtain ⟨hk, hp⟩ := h.predicting k hg
    have hn : ¬isNull q.prediction.frame := by simp [hp]
    have hinput : q.prediction.input = LogQueue.basis a.log k := by rw [hp]
    rw [if_neg hn, LogQueue.get_of_guess hg, hinput]
    exact ⟨_, rfl, { h with requested := rfl }⟩
  | none =>
    have hp := h.idle hg
    rw [if_pos (by simp [hp]), toUsize_of_nonneg (by omega)]
    simp only [Fallible.ok_bind]
    have hlen := h.length
    have hs := h.start_le
    by_cases hlt : frame < a.log.length
    · have hstart := htail (by omega)
      have hoff : (frame - (q.inputs q.tail).frame : ℤ).toNat = frame - a.start := by omega
      have hslot : Fin.ofNat maxRollbackFrames
          ((frame - (q.inputs q.tail).frame : ℤ).toNat + q.tail) =
          Cyclic.cell maxRollbackFrames frame := by
        rw [hoff, h.tail]
        apply Fin.ext
        simp only [Cyclic.cell, Fin.val_ofNat, Nat.add_mod_mod]
        congr 1
        omega
      rw [if_pos (by omega), hslot, h.inputs_cell hf hlt, debugAssert_of rfl,
        LogQueue.get_of_lt hg hlt]
      exact ⟨_, rfl, { h with requested := rfl }⟩
    · rw [if_neg (by omega), LogQueue.get_of_ge hg (by omega)]
      have hclear : a.log = [] → q.prediction.clear =
          (⟨a.log.length - 1, LogQueue.lastOf a.log⟩ : FrameInput I) := by
        intro hnil
        simp [FrameInput.clear, hp, hnil]
      have hnew : (if (frame : ℤ) = 0 then q.prediction.clear
          else if isNull q.lastAddedFrame then q.prediction.clear
          else q.inputs (previousFrame q.head)) =
          ⟨a.log.length - 1, LogQueue.lastOf a.log⟩ := by
        have hadded := h.lastAdded
        split
        · exact hclear (List.length_eq_zero_iff.mp (by omega))
        · split
          · next hnull =>
            simp only [isNull] at hnull
            exact hclear (List.length_eq_zero_iff.mp (by omega))
          · exact h.inputs_previous
      rw [hnew]
      refine ⟨_, rfl, { h with
        requested := rfl
        predicting := fun k hk => ?_
        idle := fun hnone => by simp at hnone }⟩
      obtain rfl : a.log.length = k := by simpa using hk
      exact ⟨le_rfl, by simp⟩

/-- Discarding up to a frame that was requested, at or above the frames discarded before. -/
theorem discardConfirmedFrames (h : Refines q a) (frame : ℕ)
    (hs : a.start ≤ frame + 1 ∨ a.log.length ≤ frame + 1)
    (hr : isNull a.requested → a.requested = nullFrame ∧ a.start = 0) :
    ∃ q', q.discardConfirmedFrames frame = .ok q' ∧ Refines q' (a.discard frame) := by
  obtain ⟨htail, hle⟩ := h.frame_tail
  have hlen := h.length
  have hsl := h.start_le
  have hw := h.window
  have hadded := h.lastAdded
  rw [InputQueue.discardConfirmedFrames, debugAssert_of (by simp)]
  simp only [Fallible.ok_bind]
  have hframe : (if isNull q.lastFrameRequested then min (frame : ℤ) q.lastFrameRequested
      else frame) = if isNull a.requested then -1 else (frame : ℤ) := by
    rw [h.requested]
    split
    · next hnull =>
      rw [(hr hnull).1]
      exact min_eq_right (by simp)
    · rfl
  rw [hframe, LogQueue.discard]
  split_ifs with hnull hge hge
  · have hnil : a.log.length = 0 := by omega
    exact ⟨_, rfl, { h with
      tail := h.head.trans (congrArg _ (by omega))
      length := by dsimp only; omega }⟩
  · obtain ⟨-, hs0⟩ := hr hnull
    have hstart := htail (by omega)
    rw [toUsize_of_nonneg (by omega)]
    have hoff : (-1 - (q.inputs q.tail).frame + 1).toNat = 0 := by omega
    simp only [Fallible.ok_bind, hoff, Nat.zero_le, if_true, Nat.sub_zero, Nat.add_zero]
    refine ⟨_, rfl, { h with tail := ?_ }⟩
    rw [h.tail]
    exact Fin.ext (Nat.mod_mod _ _)
  · exact ⟨_, rfl, { h with
      start_le := min_le_right _ _
      window := by dsimp only; omega
      tail := h.head.trans (congrArg _ (by dsimp only; omega))
      length := by dsimp only; omega }⟩
  · have hstart := htail (by omega)
    rw [toUsize_of_nonneg (by omega)]
    have hoff : (frame - (q.inputs q.tail).frame + 1 : ℤ).toNat = frame + 1 - a.start := by omega
    simp only [Fallible.ok_bind, hoff]
    rw [if_pos (by omega)]
    refine ⟨_, rfl, { h with
      start_le := min_le_right _ _
      window := by dsimp only; omega
      tail := ?_
      length := by dsimp only; omega }⟩
    have hcell : Fin.ofNat maxRollbackFrames (q.tail + (frame + 1 - a.start)) =
        Cyclic.cell maxRollbackFrames (a.start + (frame + 1 - a.start)) := by
      rw [h.tail]
      exact Fin.ext (Nat.mod_add_mod _ _ _)
    exact hcell.trans (congrArg _ (by dsimp only; omega))

variable [BEq I]

/-- A user's input goes to its slot, as long as the window has room for it and its padding. -/
theorem addInput (h : Refines q a) (x : FrameInput I)
    (huser : isNull a.lastUser ∨ x.frame = a.lastUser + 1)
    (hroom : x.frame + a.delay < a.start + maxRollbackFrames) :
    ∃ r q', q.addInput x = .ok (r, q') ∧ Refines q' (a.add x) := by
  obtain ⟨⟨r, q'⟩, he, hq'⟩ := ((h.toFollows.addInput x).mono (fun _ hq => hq) fun e he =>
    he.2 ⟨huser, hroom⟩).total
  refine ⟨r, q', he, hq', ?_⟩
  have hw := h.window
  rw [LogQueue.log_add, LogQueue.start_add]
  split
  · exact hw
  · simp only [List.length_append, List.length_replicate, List.length_singleton]
    omega

end Operations

end Refines

end Backroll

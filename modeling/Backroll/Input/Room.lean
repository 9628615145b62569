import Backroll.Input.Refinement

/-! The part of an input queue that stores inputs, apart from what it predicts: how many slots
an input takes, and when the slots of earlier inputs are written over. -/
namespace Backroll

open Fallible (Ends)

variable {I : Type} [Zeroable I]

/-- The queue has stored this log, of which it has discarded the first `start` frames. -/
structure Stores (q : InputQueue I) (delay : ℤ) (log : List I) (start : ℕ) : Prop where
  delay : q.frameDelay = delay
  start_le : start ≤ log.length
  head : q.head = Cyclic.cell maxRollbackFrames log.length
  tail : q.tail = Cyclic.cell maxRollbackFrames start
  length : q.length = log.length - start
  firstFrame : q.firstFrame = log.isEmpty
  lastAdded : q.lastAddedFrame = log.length - 1
  inputs : Cyclic.Holds q.inputs default (framed 0 log)

/-- Every frame of the queue is still in its slot. -/
def InputQueue.Undamaged {I : Type} (q : InputQueue I) : Prop :=
  ∀ k < q.length, (q.inputs (Fin.ofNat maxRollbackFrames (q.tail + k))).frame =
    q.lastAddedFrame + 1 - q.length + k

theorem Follows.stores {q : InputQueue I} {a : LogQueue I} (h : Follows q a) :
    Stores q a.delay a.log a.start :=
  ⟨h.delay, h.start_le, h.head, h.tail, h.length, h.firstFrame, h.lastAdded, h.inputs⟩

namespace Stores

variable {q : InputQueue I} {delay : ℤ} {log : List I} {start : ℕ}

/-- Up to 120 frames have their slots for themselves. -/
theorem undamaged (h : Stores q delay log start) (hroom : q.length ≤ maxRollbackFrames) :
    q.Undamaged := by
  intro k hk
  have hstart := h.start_le
  have hlength := h.length
  have hcell : Fin.ofNat maxRollbackFrames (q.tail + k) =
      Cyclic.cell maxRollbackFrames (start + k) := by
    rw [h.tail]
    exact Fin.ext (Nat.mod_add_mod _ _ _)
  have hlt : start + k < log.length := by omega
  have hslot := h.inputs.recent (start + k) ⟨(start + k : ℕ), log[start + k]⟩ (by simp [hlt])
    (by rw [length_framed]; omega)
  rw [hcell, hslot, h.lastAdded]
  dsimp only
  omega

/-- From the 121st frame on, the first one kept has been written over. -/
theorem not_undamaged (h : Stores q delay log start) (hfull : maxRollbackFrames < q.length) :
    ¬q.Undamaged := by
  intro hu
  have hstart := h.start_le
  have hlength := h.length
  have hmul := Nat.div_add_mod (log.length - 1 - start) maxRollbackFrames
  have hmod := Nat.mod_lt (log.length - 1 - start) (show 0 < maxRollbackFrames by decide)
  have hpos : 0 < (log.length - 1 - start) / maxRollbackFrames :=
    Nat.div_pos (by omega) (by decide)
  obtain ⟨j, hj⟩ : ∃ j, j = start + maxRollbackFrames *
      ((log.length - 1 - start) / maxRollbackFrames) := ⟨_, rfl⟩
  have hmany := Nat.mul_le_mul_left maxRollbackFrames hpos
  have hlt : j < log.length := by omega
  have hcell : Fin.ofNat maxRollbackFrames (q.tail + 0) = Cyclic.cell maxRollbackFrames j := by
    rw [h.tail, hj]
    refine Fin.ext ((Nat.mod_mod _ _).trans ?_)
    exact (Nat.add_mul_mod_self_left _ _ _).symm
  have hslot := h.inputs.recent j ⟨j, log[j]⟩ (by simp [hlt]) (by rw [length_framed]; omega)
  have hlabel := hu 0 (by omega)
  rw [hcell, hslot, h.lastAdded] at hlabel
  dsimp only at hlabel
  omega

/-- Just so many frames have room. -/
theorem undamaged_iff (h : Stores q delay log start) :
    q.Undamaged ↔ q.length ≤ maxRollbackFrames :=
  ⟨fun hu => not_lt.mp fun hfull => h.not_undamaged hfull hu, h.undamaged⟩

/-- A slot that holds a frame holds the input stored for it. -/
theorem input_of_frame (h : Stores q delay log start) {c : Fin maxRollbackFrames} {frame : ℕ}
    (hc : (q.inputs c).frame = frame) : log[frame]? = some (q.inputs c).input := by
  rcases h.inputs.blank_or_entry c with hblank | ⟨j, hj⟩
  · rw [hblank] at hc
    exact absurd hc (show (-1 : ℤ) ≠ frame by omega)
  · rw [getElem?_framed] at hj
    obtain ⟨x, hx, hentry⟩ := Option.map_eq_some_iff.mp hj
    rw [← hentry] at hc ⊢
    obtain rfl : frame = j := by
      dsimp only at hc
      omega
    exact hx

/-- The slot before the head holds the last input under its frame. -/
theorem inputs_previous (h : Stores q delay log start) :
    q.inputs (previousFrame q.head) = ⟨log.length - 1, LogQueue.lastOf log⟩ := by
  have hlast := h.inputs.last
  rw [length_framed] at hlast
  rw [h.head, previousFrame_cell, hlast]
  rcases List.eq_nil_or_concat log with hnil | ⟨xs, x, hx⟩
  · simp [hnil]
    rfl
  · rw [List.concat_eq_append] at hx
    rw [hx, framed_append]
    simp

/-- The frame that `advance_queue_head` expects next. -/
theorem expected (h : Stores q delay log start) :
    (if q.firstFrame = true then 0 else (q.inputs (previousFrame q.head)).frame + 1) =
      log.length := by
  rw [h.firstFrame, h.inputs_previous]
  split
  · next hnil => simp [List.isEmpty_iff.mp hnil]
  · simp

variable [Build] [BEq I]

theorem checkPrediction (h : Stores q delay log start) (frame : ℤ) (x : FrameInput I) :
    Ends (q.checkPrediction frame x) (Stores · delay log start) fun _ => True := by
  unfold InputQueue.checkPrediction
  refine .bind_any fun _ => ?_
  obtain ⟨q₁, hq₁⟩ : ∃ q₁, q₁ = if isNull q.firstIncorrectFrame ∧ q.prediction != x then
      { q with firstIncorrectFrame := frame } else q := ⟨_, rfl⟩
  have hmark : Stores q₁ delay log start := by
    rw [hq₁]
    split
    · exact { h with }
    · exact h
  simp only [← hq₁]
  split
  · exact show Stores _ delay log start from { hmark with }
  · exact show Stores _ delay log start from { hmark with }

theorem addDelayedInput (h : Stores q delay log start) (x : FrameInput I) :
    Ends (q.addDelayedInput log.length x) (Stores · delay (log ++ [x.input]) start) fun _ => True := by
  have hstart := h.start_le
  have hlength := h.length
  have hring := h.inputs.push ⟨log.length, x.input⟩
  rw [length_framed, ← h.head] at hring
  have hframed : framed 0 log ++ [⟨log.length, x.input⟩] = framed 0 (log ++ [x.input]) := by
    rw [framed_append]
    simp
  rw [hframed] at hring
  have hhead : q.head + 1 = Cyclic.cell maxRollbackFrames (log ++ [x.input]).length := by
    rw [h.head, Cyclic.cell_succ, List.length_append, List.length_singleton]
  unfold InputQueue.addDelayedInput
  refine .bind_any fun _ => .bind_any fun _ => ?_
  obtain ⟨q₁, hq₁⟩ : ∃ q₁, q₁ = { q with
    inputs := Function.update q.inputs q.head { x with frame := log.length }
    head := q.head + 1
    length := q.length + 1
    firstFrame := false
    lastAddedFrame := log.length } := ⟨_, rfl⟩
  have hpush : Stores q₁ delay (log ++ [x.input]) start := by
    subst hq₁
    exact {
      delay := h.delay
      start_le := by rw [List.length_append]; omega
      head := hhead
      tail := h.tail
      length := by simp; omega
      firstFrame := by simp
      lastAdded := by simp
      inputs := hring }
  have hfinish : ∀ q', Stores q' delay (log ++ [x.input]) start →
      Ends (do debugAssert (q'.length ≤ maxRollbackFrames); return q')
        (Stores · delay (log ++ [x.input]) start) fun _ => True := fun q' hq' => .bind_any fun _ => hq'
  rw [← hq₁]
  dsimp only
  split
  · exact (hpush.checkPrediction _ _).bind hfinish
  · exact hfinish q₁ hpush

theorem padQueue (h : Stores q delay log start) (count : ℕ) :
    Ends (q.padQueue count log.length)
      (Stores · delay (log ++ List.replicate count (LogQueue.lastOf log)) start) fun _ => True := by
  induction count generalizing q log with
  | zero => simpa [InputQueue.padQueue] using h
  | succ count ih =>
    rw [InputQueue.padQueue, h.inputs_previous]
    refine (h.addDelayedInput _).bind fun q₁ hq₁ => ?_
    have hpad := ih hq₁
    rw [List.length_append, List.length_singleton, Nat.cast_add, Nat.cast_one] at hpad
    simpa [List.replicate_succ] using hpad

/-- An input whose slot is free goes there, behind copies of the last one. -/
theorem addInput_free (h : Stores q delay log start) (x : FrameInput I)
    (hfree : (log.length : ℤ) ≤ x.frame + delay) :
    Ends (q.addInput x) (fun r => r.1 = x.frame + delay ∧ Stores r.2 delay (log ++
      List.replicate (x.frame + delay - log.length).toNat (LogQueue.lastOf log) ++ [x.input]) start)
      fun _ => True := by
  obtain rfl := h.delay
  unfold InputQueue.addInput
  refine .bind_any fun _ => ?_
  have h' : Stores { q with lastUserAddedFrame := x.frame } q.frameDelay log start := { h with }
  simp only [InputQueue.advanceQueueHead, h.expected]
  rw [if_neg (not_lt.mpr hfree)]
  simp only [bind_assoc]
  refine (h'.padQueue _).bind fun q₁ hq₁ => .bind_any fun _ => ?_
  have hslot : x.frame + q.frameDelay = ((log ++ List.replicate
      (x.frame + q.frameDelay - log.length).toNat (LogQueue.lastOf log)).length : ℕ) := by
    simp
    omega
  simp only [Fallible.ok_bind, Fallible.pure_eq_ok]
  rw [if_pos (by simp only [isNull]; omega)]
  nth_rewrite 1 [hslot]
  exact (hq₁.addDelayedInput x).bind fun q₂ hq₂ => ⟨rfl, hq₂⟩

/-- An input takes all slots up to its own, unless its own is taken. -/
theorem addInput (h : Stores q delay log start) (x : FrameInput I) :
    Ends (q.addInput x) (fun r =>
      r.1 = (if (log.length : ℤ) > x.frame + delay then nullFrame else x.frame + delay) ∧
      ∃ log', Stores r.2 delay log' start ∧
        log'.length = log.length + (x.frame + delay + 1 - log.length).toNat) fun _ => True := by
  by_cases htaken : (log.length : ℤ) > x.frame + delay
  · obtain rfl := h.delay
    unfold InputQueue.addInput
    refine .bind_any fun _ => ?_
    have h' : Stores { q with lastUserAddedFrame := x.frame } q.frameDelay log start := { h with }
    simp only [InputQueue.advanceQueueHead, h.expected]
    rw [if_pos htaken, if_pos htaken]
    exact ⟨rfl, log, h', by omega⟩
  · refine (h.addInput_free x (not_lt.mp htaken)).imp fun r hr => ?_
    rw [if_neg htaken]
    refine ⟨hr.1, _, hr.2, ?_⟩
    simp only [List.length_append, List.length_replicate, List.length_singleton]
    omega

end Stores

end Backroll

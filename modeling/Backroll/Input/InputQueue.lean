import Backroll.Input.GameInput
import Backroll.Lib.Cyclic

/-! `InputQueue` of `input.rs`: the inputs of one player in a ring of 120 slots, with frame
delay, prediction of frames that have not arrived, and detection of wrong predictions. -/
namespace Backroll

instance (priority := high) maxRollbackFrames_neZero : NeZero maxRollbackFrames := ⟨by decide⟩

/-- `previous_frame`: the slot before `offset`. -/
def previousFrame (offset : Fin maxRollbackFrames) : Fin maxRollbackFrames :=
  if offset = 0 then Fin.last (maxRollbackFrames - 1) else offset - 1

theorem val_previousFrame (offset : Fin maxRollbackFrames) :
    (previousFrame offset).val = (offset.val + 119) % 120 := by
  revert offset
  decide

theorem previousFrame_cell (j : ℕ) : previousFrame (Cyclic.cell maxRollbackFrames j) =
    Cyclic.cell maxRollbackFrames (j + (maxRollbackFrames - 1)) := by
  apply Fin.ext
  rw [val_previousFrame]
  exact Nat.mod_add_mod j 120 119

structure InputQueue (I : Type) where
  head : Fin maxRollbackFrames
  tail : Fin maxRollbackFrames
  length : ℕ
  firstFrame : Bool
  lastUserAddedFrame : ℤ
  lastAddedFrame : ℤ
  firstIncorrectFrame : ℤ
  lastFrameRequested : ℤ
  frameDelay : ℤ
  inputs : Fin maxRollbackFrames → FrameInput I
  prediction : FrameInput I

namespace InputQueue

variable {I : Type}

def new [Zeroable I] (frameDelay : ℤ) : InputQueue I where
  head := 0
  tail := 0
  length := 0
  frameDelay := frameDelay
  firstFrame := true
  lastUserAddedFrame := nullFrame
  firstIncorrectFrame := nullFrame
  lastFrameRequested := nullFrame
  lastAddedFrame := nullFrame
  inputs := fun _ => default
  prediction := default

variable [Build]

def setFrameDelay (q : InputQueue I) (frameDelay : ℤ) : Except Panic (InputQueue I) := do
  debugAssert ¬isNull frameDelay
  return { q with frameDelay := frameDelay }

/-- `discard_confirmed_frames`. Discarding more frames than there are is a fault. -/
def discardConfirmedFrames (q : InputQueue I) (frame : ℤ) : Except Panic (InputQueue I) := do
  debugAssert ¬isNull frame
  let frame := if isNull q.lastFrameRequested then min frame q.lastFrameRequested else frame
  if frame ≥ q.lastAddedFrame then return { q with tail := q.head, length := 0 }
  else
    let offset ← toUsize (frame - (q.inputs q.tail).frame + 1)
    if offset ≤ q.length then
      return { q with
        tail := Fin.ofNat maxRollbackFrames (q.tail + offset)
        length := q.length - offset }
    else throw .arithmeticOverflow

def resetPrediction (q : InputQueue I) (frame : ℤ) : Except Panic (InputQueue I) := do
  debugAssert (isNull q.firstIncorrectFrame ∨ frame ≤ q.firstIncorrectFrame)
  return { q with
    prediction := { q.prediction with frame := nullFrame }
    firstIncorrectFrame := nullFrame
    lastFrameRequested := nullFrame }

/-- `get_input`, with the queue it leaves. -/
def getInput [Zeroable I] (q : InputQueue I) (frame : ℤ) :
    Except Panic (FetchedInput I × InputQueue I) := do
  debugAssert (isNull q.firstIncorrectFrame)
  let q := { q with lastFrameRequested := frame }
  debugAssert (frame ≥ (q.inputs q.tail).frame)
  if isNull q.prediction.frame then
    let offset ← toUsize (frame - (q.inputs q.tail).frame)
    if offset < q.length then
      let input := q.inputs (Fin.ofNat maxRollbackFrames (offset + q.tail))
      debugAssert (input.frame = frame)
      return (.normal input, q)
    else
      let prediction :=
        if frame = 0 then q.prediction.clear
        else if isNull q.lastAddedFrame then q.prediction.clear
        else q.inputs (previousFrame q.head)
      let prediction := { prediction with frame := prediction.frame + 1 }
      return (.prediction { prediction with frame := frame }, { q with prediction := prediction })
  else return (.prediction { q.prediction with frame := frame }, q)

variable [BEq I]

/-- What `add_delayed_input` does in prediction mode, once `input` is stored for `frame`. -/
def checkPrediction (q : InputQueue I) (frame : ℤ) (input : FrameInput I) :
    Except Panic (InputQueue I) := do
  debugAssert (frame = q.prediction.frame)
  let q := if isNull q.firstIncorrectFrame ∧ q.prediction != input then
      { q with firstIncorrectFrame := frame }
    else q
  if q.prediction.frame = q.lastFrameRequested ∧ isNull q.firstIncorrectFrame then
    return { q with prediction := { q.prediction with frame := nullFrame } }
  else return { q with prediction := { q.prediction with frame := q.prediction.frame + 1 } }

theorem checkPrediction_eq (q : InputQueue I) {frame : ℤ} (input : FrameInput I) (mark : ℤ)
    (hf : frame = q.prediction.frame)
    (hm : (if isNull q.firstIncorrectFrame ∧ q.prediction != input then frame
      else q.firstIncorrectFrame) = mark) :
    q.checkPrediction frame input = .ok { q with
      firstIncorrectFrame := mark
      prediction := { q.prediction with
        frame := if frame = q.lastFrameRequested ∧ isNull mark then nullFrame else frame + 1 } } := by
  have hq : (if isNull q.firstIncorrectFrame ∧ q.prediction != input then
      { q with firstIncorrectFrame := frame } else q) = { q with firstIncorrectFrame := mark } := by
    subst hm
    split <;> rfl
  rw [checkPrediction, debugAssert_of hf]
  simp only [Fallible.ok_bind, hq, Fallible.pure_eq_ok, ← hf]
  split <;> rfl

def addDelayedInput (q : InputQueue I) (frame : ℤ) (input : FrameInput I) :
    Except Panic (InputQueue I) := do
  debugAssert (isNull q.lastAddedFrame ∨ frame = q.lastAddedFrame + 1)
  debugAssert (frame = 0 ∨ (q.inputs (previousFrame q.head)).frame = frame - 1)
  let q := { q with
    inputs := Function.update q.inputs q.head { input with frame := frame }
    head := q.head + 1
    length := q.length + 1
    firstFrame := false
    lastAddedFrame := frame }
  let q ← if ¬isNull q.prediction.frame then q.checkPrediction frame input else pure q
  debugAssert (q.length ≤ maxRollbackFrames)
  return q

/-- The loop of `advance_queue_head`: `count` padding frames from `expectedFrame` on. -/
def padQueue : ℕ → ℤ → InputQueue I → Except Panic (InputQueue I)
  | 0, _, q => .ok q
  | count + 1, expectedFrame, q => do
    let q ← q.addDelayedInput expectedFrame (q.inputs (previousFrame q.head))
    padQueue count (expectedFrame + 1) q

/-- `advance_queue_head`, with the queue it leaves. -/
def advanceQueueHead (q : InputQueue I) (frame : ℤ) : Except Panic (ℤ × InputQueue I) := do
  let expectedFrame := if q.firstFrame then 0 else (q.inputs (previousFrame q.head)).frame + 1
  let frame := frame + q.frameDelay
  if expectedFrame > frame then return (nullFrame, q)
  else
    let q ← q.padQueue (frame - expectedFrame).toNat expectedFrame
    debugAssert (frame = 0 ∨ frame = (q.inputs (previousFrame q.head)).frame + 1)
    return (frame, q)

/-- `add_input`, with the queue it leaves. -/
def addInput (q : InputQueue I) (input : FrameInput I) : Except Panic (ℤ × InputQueue I) := do
  debugAssert (isNull q.lastUserAddedFrame ∨ input.frame = q.lastUserAddedFrame + 1)
  let q := { q with lastUserAddedFrame := input.frame }
  let (newFrame, q) ← q.advanceQueueHead input.frame
  let q ← if ¬isNull newFrame then q.addDelayedInput newFrame input else pure q
  return (newFrame, q)

end InputQueue

end Backroll

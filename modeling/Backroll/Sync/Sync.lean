import Backroll.Sync.Command
import Backroll.Input.InputQueue
import Backroll.Protocol.Message

/-! `Sync` of `sync.rs`: the frame counter, the input queues of all players and the saved
states, and the commands that advance, save and rewind the simulation. Each function answers
the commands it pushes, in order. -/
namespace Backroll

/-- The connect statuses are shared with the session and the peers. -/
structure Sync (n : ℕ) (I S : Type) where
  savedState : SavedState S
  inputQueues : Fin n → InputQueue I
  rollingBack : Bool
  lastConfirmedFrame : ℤ
  frameCount : ℤ
  localConnectStatus : Fin n → ConnectionStatus

namespace Sync

variable {n : ℕ} {I S : Type}

/-- `new`, with the queues of `create_queues`. -/
def new [Zeroable I] (frameDelay : ℤ) : Sync n I S where
  savedState := {}
  inputQueues := fun _ => InputQueue.new frameDelay
  rollingBack := false
  lastConfirmedFrame := nullFrame
  frameCount := 0
  localConnectStatus := fun _ => {}

/-- A loop over all input queues. -/
def mapQueues (f : InputQueue I → Except Panic (InputQueue I)) (queues : Fin n → InputQueue I) :
    Except Panic (Fin n → InputQueue I) :=
  Fallible.forEach n (fun i queues => do
    let q ← f (queues i)
    return Function.update queues i q) queues

def isDisconnected (s : Sync n I S) (player : Fin n) : Bool :=
  (s.localConnectStatus player).disconnected ∧
    (s.localConnectStatus player).lastFrame < s.frameCount

def saveCurrentFrame (s : Sync n I S) : List (Command I) × Sync n I S :=
  let (cell, savedState) := s.savedState.push s.frameCount
  ([.save cell s.frameCount], { s with savedState := savedState })

def checkSimulationConsistency (s : Sync n I S) : Option ℤ :=
  (((List.finRange n).map fun i => (s.inputQueues i).firstIncorrectFrame).filter
    fun frame => ¬isNull frame).min?

def loadFrame (s : Sync n I S) (frame : ℤ) : Except Panic (List (Command I) × Sync n I S) :=
  if frame = s.frameCount then .ok ([], s)
  else do
    let (cell, savedState) ← s.savedState.resetTo frame
    return ([.load cell], { s with
      savedState := { savedState with head := savedState.head + 1 }
      frameCount := (savedState.frames cell).frame })

variable [Build]

def setLastConfirmedFrame (s : Sync n I S) (frame : ℤ) : Except Panic (Sync n I S) := do
  let s := { s with lastConfirmedFrame := frame }
  if frame > 0 then
    let queues ← mapQueues (·.discardConfirmedFrames (frame - 1)) s.inputQueues
    return { s with inputQueues := queues }
  else return s

def setFrameDelay (s : Sync n I S) (queue : Fin n) (delay : ℤ) : Except Panic (Sync n I S) := do
  let q ← (s.inputQueues queue).setFrameDelay delay
  return { s with inputQueues := Function.update s.inputQueues queue q }

def resetPrediction (s : Sync n I S) (frame : ℤ) : Except Panic (Sync n I S) := do
  let queues ← mapQueues (·.resetPrediction frame) s.inputQueues
  return { s with inputQueues := queues }

variable [Zeroable I]

/-- The part of `synchronize_inputs` for one player. A `GameInput` has room for eight. -/
def synchronizeInput (idx : Fin n) (output : GameInput I) (s : Sync n I S) :
    Except Panic (GameInput I × Sync n I S) :=
  if s.isDisconnected idx then
    if idx < maxPlayers then
      .ok ({ output with disconnected := output.disconnected ||| (1 : BitVec maxPlayers) <<< idx.val }, s)
    else .error .arithmeticOverflow
  else do
    let (fetched, q) ← (s.inputQueues idx).getInput s.frameCount
    if h : idx < maxPlayers then
      return ({ output with
          inputs := Function.update output.inputs ⟨idx, h⟩ fetched.unwrap.input },
        { s with inputQueues := Function.update s.inputQueues idx q })
    else throw .indexOutOfBounds

def synchronizeInputs (s : Sync n I S) : Except Panic (GameInput I × Sync n I S) :=
  Fallible.forEach n (fun idx (output, s) => s.synchronizeInput idx output)
    ({ (default : GameInput I) with frame := s.frameCount }, s)

def incrementFrame (s : Sync n I S) : Except Panic (List (Command I) × Sync n I S) := do
  let (first, s) := if s.frameCount = 0 then s.saveCurrentFrame else ([], s)
  let (inputs, s) ← s.synchronizeInputs
  let (last, s) := { s with frameCount := s.frameCount + 1 }.saveCurrentFrame
  return (first ++ [.advanceFrame inputs] ++ last, s)

def adjustSimulation (s : Sync n I S) (seekTo : ℤ) :
    Except Panic (List (Command I) × Sync n I S) := do
  let frameCount := s.frameCount
  let count := s.frameCount - seekTo
  let (load, s) ← { s with rollingBack := true }.loadFrame seekTo
  debugAssert (s.frameCount = seekTo)
  let s ← s.resetPrediction s.frameCount
  let (commands, s) ← Fallible.times count.toNat (fun (commands, s) => do
    let (more, s) ← s.incrementFrame
    return (commands ++ more, s)) (load, s)
  debugAssert (s.frameCount = frameCount)
  return (commands, { s with rollingBack := false })

def checkSimulation (s : Sync n I S) : Except Panic (List (Command I) × Sync n I S) :=
  match s.checkSimulationConsistency with
  | some seekTo => s.adjustSimulation seekTo
  | none => .ok ([], s)

variable [BEq I]

def addLocalInput (s : Sync n I S) (queue : Fin n) (input : I) :
    Except Panic (Except BackrollError ℤ × Sync n I S) := do
  let framesBehind := s.frameCount - s.lastConfirmedFrame
  if s.frameCount ≥ maxPredictionFrames ∧ framesBehind ≥ maxPredictionFrames then
    return (.error .reachedPredictionBarrier, s)
  else
    let (_, q) ← (s.inputQueues queue).addInput ⟨s.frameCount, input⟩
    return (.ok s.frameCount, { s with inputQueues := Function.update s.inputQueues queue q })

def addRemoteInput (s : Sync n I S) (queue : Fin n) (input : FrameInput I) :
    Except Panic (Sync n I S) := do
  let (_, q) ← (s.inputQueues queue).addInput input
  return { s with inputQueues := Function.update s.inputQueues queue q }

end Sync

end Backroll

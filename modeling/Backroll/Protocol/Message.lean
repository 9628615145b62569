import Backroll.Input.GameInput

/-! The messages two peers exchange and the events a peer's task hands to its session. -/
namespace Backroll

structure ConnectionStatus where
  disconnected : Bool := false
  lastFrame : ℤ := nullFrame
  deriving DecidableEq, Repr

/-- `Input` of `protocol/message.rs`. -/
structure InputMessage where
  peerConnectStatus : List ConnectionStatus
  startFrame : ℤ
  ackFrame : ℤ
  bits : List UInt8
  deriving DecidableEq, Repr

/-- `MessageData`; times are in milliseconds. -/
inductive MessageData
  | keepAlive
  | syncRequest (random : ℕ)
  | syncReply (random : ℕ)
  | input (message : InputMessage)
  | inputAck (ackFrame : ℤ)
  | qualityReport (frameAdvantage : ℤ) (ping : ℕ)
  | qualityReply (pong : ℕ)
  deriving DecidableEq, Repr

def MessageData.isSyncMessage : MessageData → Bool
  | syncRequest _ | syncReply _ => true
  | _ => false

/-- `Message`. Sequence numbers wrap around; magic numbers are only compared. -/
structure Message where
  magic : ℕ
  sequenceNumber : UInt16
  data : MessageData
  deriving DecidableEq, Repr

/-- `Event` of `protocol/event.rs`. -/
inductive ProtocolEvent (I : Type)
  | connected
  | synchronizing (total count : ℕ)
  | synchronized
  | inputs (inputs : List (FrameInput I))
  | networkInterrupted (disconnectTimeout : ℕ)
  | networkResumed

inductive BackrollError
  | multipleLocalPlayers
  | inRollback
  | notSynchronized
  | reachedPredictionBarrier
  | invalidPlayer (player : ℕ)
  | playerDisconnected (player : ℕ)
  deriving DecidableEq, Repr

end Backroll

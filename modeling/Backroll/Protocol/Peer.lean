import Backroll.Protocol.InputBuffer
import Backroll.Protocol.Int32
import Backroll.Protocol.Message
import Mathlib.Data.Rat.Floor

/-! The endpoint of a remote player: what the session and the peer's task share, and the calls
that the two make on it. -/
namespace Backroll

/-- An unbounded `async_channel`. -/
structure Channel (α : Type) where
  queue : List α := []
  closed : Bool := false

namespace Channel

variable {α : Type}

/-- `try_send`, which fails on a closed channel. -/
def trySend (c : Channel α) (x : α) : Option (Channel α) :=
  if c.closed then none else some { c with queue := c.queue ++ [x] }

/-- `close`: what was sent before can still be received. -/
def close (c : Channel α) : Channel α := { c with closed := true }

end Channel

inductive PeerState
  | connecting (random : ℕ)
  | syncing (random roundtripsRemaining : ℕ)
  | running (remoteMagic : ℕ)
  | interrupted (remoteMagic : ℕ)
  | disconnected
  deriving DecidableEq, Repr

def PeerState.isRunning : PeerState → Bool
  | running _ | interrupted _ => true
  | _ => false

/-- `PeerStats`, less what is only counted for the network statistics; times are in
milliseconds. -/
structure PeerStats where
  lastSendTime : Option ℕ := none
  lastInputPacketRecvTime : ℕ := 0
  roundTripTime : ℕ := 0
  localFrameAdvantage : ℤ := 0
  remoteFrameAdvantage : ℤ := 0

inductive PeerError
  | localDisconnected
  | remoteDisconnected
  | invalidMessage
  deriving DecidableEq, Repr

abbrev frameWindowSize : ℕ := 40

abbrev minUniqueFrames : ℕ := 10

abbrev minFrameAdvantage : ℤ := 3

abbrev maxFrameAdvantage : ℤ := 9

instance (priority := high) minUniqueFrames_neZero : NeZero minUniqueFrames := ⟨by decide⟩

/-- `TimeSync` of `time_sync.rs`, less the counter of its calls. The counter is only logged, and as a
session calls once in 240 frames, it leaves its type long after the frames leave theirs. -/
structure TimeSync (I : Type) where
  localAdvantage : Fin frameWindowSize → ℤ
  remoteAdvantage : Fin frameWindowSize → ℤ
  lastInputs : Fin minUniqueFrames → FrameInput I

namespace TimeSync

variable {I : Type}

instance [Zeroable I] : Inhabited (TimeSync I) := ⟨⟨fun _ => 0, fun _ => 0, fun _ => default⟩⟩

def advanceFrame (t : TimeSync I) (input : FrameInput I) (advantage radvantage : ℤ) :
    Except Panic (TimeSync I) := do
  let frame ← toUsize input.frame
  return {
    localAdvantage := Function.update t.localAdvantage (Fin.ofNat _ frame) advantage
    remoteAdvantage := Function.update t.remoteAdvantage (Fin.ofNat _ frame) radvantage
    lastInputs := Function.update t.lastInputs (Fin.ofNat _ frame) input }

/-- What sums of the advantages recommend, with their averages as exact rationals. -/
def waitDuration [BEq I] (t : TimeSync I) (requireIdleInput : Bool) (sum rsum : ℤ) : ℤ :=
  let advantage : ℚ := sum / frameWindowSize
  let radvantage : ℚ := rsum / frameWindowSize
  if advantage ≥ radvantage then 0
  else
    let sleepFrames := ⌊(radvantage - advantage) / 2 + 1 / 2⌋
    if sleepFrames < minFrameAdvantage then 0
    else if requireIdleInput ∧ (List.finRange minUniqueFrames).any fun idx =>
      t.lastInputs idx != t.lastInputs 0 then 0
    else min sleepFrames maxFrameAdvantage

/-- `recommend_frame_wait_duration`, with additions by `i32`. -/
def recommendWith [BEq I] (i32 : ℤ → Except Panic ℤ) (t : TimeSync I) (requireIdleInput : Bool) :
    Except Panic ℤ := do
  let sum ← sumI32 i32 (List.ofFn t.localAdvantage)
  let rsum ← sumI32 i32 (List.ofFn t.remoteAdvantage)
  return t.waitDuration requireIdleInput sum rsum

def recommendFrameWaitDuration [Build] [BEq I] (t : TimeSync I) (requireIdleInput : Bool) :
    Except Panic ℤ := t.recommendWith i32 requireIdleInput

end TimeSync

/-- `Peer`. The session and the task hold clones that share everything but
`peerConnectStatus`, of which each has its own. -/
structure Peer (I : Type) where
  state : PeerState
  stats : PeerStats
  timesync : TimeSync I
  peerConnectStatus : List ConnectionStatus
  inputEncoder : InputEncoder I
  inputDecoder : InputDecoder
  messageIn : Channel Message
  messageOut : Channel MessageData
  events : Channel (ProtocolEvent I)

namespace Peer

variable {I : Type}

/-- `new`, where `random` is the random number of the initial state. -/
def new [Zeroable I] (random : ℕ) (connectStatus : List ConnectionStatus) : Peer I where
  state := .connecting random
  stats := {}
  timesync := default
  peerConnectStatus := connectStatus
  inputEncoder := {}
  inputDecoder := {}
  messageIn := {}
  messageOut := {}
  events := {}

def isRunning (p : Peer I) : Bool := p.state.isRunning

def disconnect (p : Peer I) : Peer I :=
  { p with
    state := .disconnected
    messageIn := p.messageIn.close
    messageOut := p.messageOut.close
    events := p.events.close }

def pushEvent (p : Peer I) (evt : ProtocolEvent I) : Except PeerError Unit × Peer I :=
  match p.events.trySend evt with
  | some events => (.ok (), { p with events := events })
  | none => (.error .localDisconnected, p)

def send (p : Peer I) (msg : MessageData) : Except PeerError Unit × Peer I :=
  match p.messageOut.trySend msg with
  | some messageOut => (.ok (), { p with messageOut := messageOut })
  | none => (.error .remoteDisconnected, p)

def getPeerConnectStatus (p : Peer I) (id : ℕ) : Except Panic ConnectionStatus :=
  match p.peerConnectStatus[id]? with
  | some status => .ok status
  | none => .error .indexOutOfBounds

/-- `set_local_frame_number`, with additions by `i32`: the remote's frame is estimated from the last
one it sent and half the round trip, at 60 frames a second. -/
def setLocalFrameNumberWith (i32 : ℤ → Except Panic ℤ) (p : Peer I) (localFrame : ℤ) :
    Except Panic (Peer I) := do
  let remoteFrame ← i32 (p.inputDecoder.lastDecoded + asI32 (p.stats.roundTripTime / 1000 / 2 * 60))
  let advantage ← i32 (remoteFrame - localFrame)
  return { p with stats := { p.stats with localFrameAdvantage := advantage } }

variable [Build]

def setLocalFrameNumber (p : Peer I) (localFrame : ℤ) : Except Panic (Peer I) :=
  p.setLocalFrameNumberWith i32 localFrame

def recommendFrameDelay [BEq I] (p : Peer I) : Except Panic ℤ :=
  p.timesync.recommendFrameWaitDuration false

variable [Varinteger] [Pod I]

def sendPendingOutput (p : Peer I) (localConnectStatus : List ConnectionStatus) :
    Except Panic (Except PeerError Unit × Peer I) := do
  match ← p.inputEncoder.encode with
  | (.error _, _) => throw .expectFailed
  | (.ok (startFrame, bits), encoder) =>
    return { p with inputEncoder := encoder }.send (.input {
      peerConnectStatus := localConnectStatus
      startFrame := startFrame
      ackFrame := p.inputDecoder.lastDecoded
      bits := bits })

def sendInput (p : Peer I) (localConnectStatus : List ConnectionStatus) (input : FrameInput I) :
    Except Panic (Except PeerError Unit × Peer I) := do
  let p ← if p.isRunning then do
      let timesync ← p.timesync.advanceFrame input p.stats.localFrameAdvantage
        p.stats.remoteFrameAdvantage
      pure { p with timesync := timesync, inputEncoder := p.inputEncoder.push input }
    else pure p
  p.sendPendingOutput localConnectStatus

/-- The first loop of `on_input`, over the statuses of the message from index `i` on. -/
def mergeStatuses : ℕ → List ConnectionStatus → List ConnectionStatus →
    Except Panic (List ConnectionStatus)
  | _, [], known => .ok known
  | i, remote :: rest, known =>
    match known[i]? with
    | some status => do
      debugAssert (remote.lastFrame ≥ status.lastFrame)
      let merged : ConnectionStatus := {
        disconnected := status.disconnected || remote.disconnected
        lastFrame := max status.lastFrame remote.lastFrame }
      mergeStatuses (i + 1) rest (known.set i merged)
    | none => mergeStatuses (i + 1) rest (known ++ [remote])

/-- `on_input`, at the time `now`. -/
def onInput (p : Peer I) (now : ℕ) (msg : InputMessage) :
    Except Panic (Except PeerError Unit × Peer I) := do
  let statuses ← mergeStatuses 0 msg.peerConnectStatus p.peerConnectStatus
  let p := { p with peerConnectStatus := statuses }
  let (decoded, decoder) ← p.inputDecoder.decode (I := I) msg.startFrame msg.bits
  let p := { p with inputDecoder := decoder }
  match decoded with
  | .error _ => return (.error .invalidMessage, p)
  | .ok inputs =>
    let (result, p) :=
      if inputs = [] then (.ok (), p)
      else
        match p.pushEvent (.inputs inputs) with
        | (.error err, p) => (.error err, p)
        | (.ok (), p) =>
          { p with stats := { p.stats with lastInputPacketRecvTime := now } }.send
            (.inputAck p.inputDecoder.lastDecoded)
    match result with
    | .error err => return (.error err, p)
    | .ok () =>
      return (.ok (), { p with inputEncoder := p.inputEncoder.acknowledgeFrame msg.ackFrame })

end Peer

end Backroll

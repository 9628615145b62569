import Backroll.Protocol.Handshake
import Backroll.Protocol.Reports

/-! The integer operations on what comes off the wire, each checked against its type. -/
namespace Backroll

/-- The difference of two unsigned values. -/
def checkedSub (a b : ℕ) : Except Panic ℕ := if b ≤ a then .ok (a - b) else .error .arithmeticOverflow

/-- `recommend_frame_wait_duration`, checked, with the counter of its calls, a `u32`. -/
def TimeSync.recommendChecked {I : Type} [BEq I] (t : TimeSync I) (iteration : ℕ)
    (requireIdleInput : Bool) : Except Panic (ℤ × ℕ) := do
  let delay ← t.recommendWith checkI32 requireIdleInput
  if ¬iteration + 1 < 2 ^ 32 then throw .arithmeticOverflow
  return (delay, iteration + 1)

/-- The numbering of decoded inputs, from index `i` on. -/
def numberInputs {I : Type} (startFrame : ℤ) : ℕ → List I → Except Panic (List (FrameInput I))
  | _, [] => .ok []
  | i, input :: inputs => do
    let frame ← checkI32 (startFrame + asI32 i)
    let rest ← numberInputs startFrame (i + 1) inputs
    return ⟨frame, input⟩ :: rest

/-- The frame that `decode` skips to. -/
def InputDecoder.currentFrame (d : InputDecoder) (startFrame : ℤ) : Except Panic ℤ :=
  if isNull d.lastDecoded then checkI32 (startFrame - 1) else .ok d.lastDecoded

/-- `decode`. -/
def InputDecoder.decodeChecked {I : Type} [Build] [Varinteger] [Pod I] (d : InputDecoder)
    (startFrame : ℤ) (bits : List UInt8) :
    Except Panic (Except DecodeError (List (FrameInput I)) × InputDecoder) := do
  let currentFrame ← d.currentFrame startFrame
  match ← Compression.decode (Zeroable.zeroed : I) bits with
  | .error err => return (.error err, d)
  | .ok inputs =>
    let numbered ← numberInputs startFrame 0 inputs
    let frameInputs := numbered.dropWhile fun x => x.frame ≤ currentFrame
    let d' : InputDecoder := match frameInputs.getLast? with
      | some latest => { d with lastDecoded := latest.frame }
      | none => d
    debugAssert (d'.lastDecoded ≥ d.lastDecoded)
    return (.ok frameInputs, d')

namespace Peer

variable {I : Type}

def setLocalFrameNumberChecked (p : Peer I) (localFrame : ℤ) : Except Panic (Peer I) :=
  p.setLocalFrameNumberWith checkI32 localFrame

variable [Build]

/-- The subtractions of `on_sync_reply`: one round trip less remains, and unless none does, their
number is taken from the total. -/
def syncReplySubtractions (p : Peer I) (random : ℕ) : Except Panic Unit :=
  if p.state.random?.any (· ≠ random) then .ok ()
  else
    match p.state with
    | .syncing _ roundtripsRemaining => do
      debugAssert (roundtripsRemaining > 0)
      let roundtripsRemaining ← checkedSub roundtripsRemaining 1
      if roundtripsRemaining = 0 then return ()
      else
        let _ ← checkedSub numSyncPackets roundtripsRemaining
        return ()
    | _ => .ok ()

variable [Varinteger] [Pod I]

/-- `on_input`, with the additions of `decode` checked. -/
def onInputChecked (p : Peer I) (now : ℕ) (msg : InputMessage) :
    Except Panic (Except PeerError Unit × Peer I) := do
  let _ ← mergeStatuses 0 msg.peerConnectStatus p.peerConnectStatus
  let _ ← p.inputDecoder.decodeChecked (I := I) msg.startFrame msg.bits
  p.onInput now msg

/-- `handle_message`. -/
def handleMessageChecked (p : Peer I) (now : ℕ) (message : Message) :
    Except Panic (Except PeerError Unit × Peer I) :=
  match message.data with
  | .syncReply random => do
    p.syncReplySubtractions random
    p.onSyncReply now message.magic random
  | .input input => p.onInputChecked now input
  | .qualityReply pong => do
    let roundTripTime ← checkedSub now pong
    return (.ok (), { p with stats := { p.stats with roundTripTime := roundTripTime } })
  | _ => p.handleMessage now message

end Peer

/-- A peer with the counter of its `TimeSync`. -/
structure Metered (I : Type) where
  peer : Peer I
  iteration : ℕ := 0

/-- What the task and the session do with a peer. -/
inductive PeerCall (I : Type)
  | message (now : ℕ) (message : Message)
  | sendInput (localConnectStatus : List ConnectionStatus) (input : FrameInput I)
  | setLocalFrameNumber (localFrame : ℤ)
  | recommendFrameDelay

namespace Metered

variable {I : Type} [Build] [Varinteger] [Pod I] [BEq I]

/-- A call, and the peer that it leaves; the task disconnects it at an error other than of the message. -/
def perform (s : Metered I) : PeerCall I → Except Panic (Metered I)
  | .message now message => do
    match ← s.peer.handleMessageChecked now message with
    | (.ok (), p) | (.error .invalidMessage, p) => return { s with peer := p }
    | (.error _, p) => return { s with peer := p.disconnect }
  | .sendInput localConnectStatus input => do
    let (_, p) ← s.peer.sendInput localConnectStatus input
    return { s with peer := p }
  | .setLocalFrameNumber localFrame => do
    let p ← s.peer.setLocalFrameNumberChecked localFrame
    return { s with peer := p }
  | .recommendFrameDelay => do
    let (_, iteration) ← s.peer.timesync.recommendChecked s.iteration false
    return { s with iteration := iteration }

omit [BEq I] in
/-- What can arrive: the clock is a `u64`, the start frame an `i32`, and the bits of inputs decode. -/
def Arrives : PeerCall I → Prop
  | .message now message => now < 2 ^ 64 ∧ ∀ input, message.data = .input input →
    InI32 input.startFrame ∧
      ∃ inputs : List I, Compression.decode (Zeroable.zeroed : I) input.bits = .ok (.ok inputs)
  | _ => True

/-- The calls so far, each with the peer that it finds. -/
inductive Run (random : ℕ) (connectStatus : List ConnectionStatus) :
    List (Metered I × PeerCall I) → Metered I → Prop
  | start : Run random connectStatus [] ⟨Peer.new random connectStatus, 0⟩
  | call {calls s s'} (hrun : Run random connectStatus calls s) (call) (hcall : Arrives call)
    (h : s.perform call = .ok s') :
    Run random connectStatus (calls ++ [(s, call)]) s'

end Metered

end Backroll

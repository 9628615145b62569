import Backroll.Protocol.Peer

/-! The tasks of a peer, from `protocol/mod.rs`: what comes in is read and filtered, handled one
message at a time, and what goes out is numbered and stamped with the magic of the sender. -/
namespace Backroll

abbrev numSyncPackets : ℕ := 5

/-- `SYNC_RETRY_INTERVAL`, in milliseconds. -/
abbrev syncRetryInterval : ℕ := 2000

/-- `SYNC_FIRST_RETRY_INTERVAL`, in milliseconds. -/
abbrev syncFirstRetryInterval : ℕ := 500

abbrev maxSeqDistance : UInt16 := 32768

namespace PeerState

def random? : PeerState → Option ℕ
  | connecting random | syncing random _ => some random
  | _ => none

def createSyncRequest : PeerState → Except Panic MessageData
  | connecting random | syncing random _ => .ok (.syncRequest random)
  | _ => .error .assertion

def isInterrupted : PeerState → Bool
  | interrupted _ => true
  | _ => false

def startSyncing (roundTrips : ℕ) : PeerState → PeerState
  | connecting random => syncing random roundTrips
  | state => state

def interrupt : PeerState → Bool × PeerState
  | running remoteMagic => (true, interrupted remoteMagic)
  | state => (false, state)

def resume : PeerState → Bool × PeerState
  | interrupted remoteMagic => (true, running remoteMagic)
  | state => (false, state)

end PeerState

namespace Peer

variable {I : Type}

def onSyncRequest (p : Peer I) (magic random : ℕ) : Except PeerError Unit × Peer I :=
  match p.state with
  | .running remoteMagic =>
    if magic ≠ remoteMagic then (.error .invalidMessage, p)
    else p.send (.syncReply random)
  | _ => p.send (.syncReply random)

def onQualityReport (p : Peer I) (frameAdvantage : ℤ) (ping : ℕ) : Except PeerError Unit × Peer I :=
  { p with stats := { p.stats with remoteFrameAdvantage := frameAdvantage } }.send (.qualityReply ping)

variable [Build]

/-- The difference of two `UnixMillis`, which hold a `u64`. -/
def millisSince (now earlier : ℕ) : Except Panic ℕ :=
  if Build.debugAssertions ∧ now < earlier then .error .arithmeticOverflow
  else .ok ((now + 2 ^ 64 - earlier) % 2 ^ 64)

/-- The sum of a `UnixMillis`, which holds a `u64`, and a duration. -/
def millisAfter (time duration : ℕ) : Except Panic ℕ :=
  let millis := time + duration / 10 ^ 6 % 2 ^ 64
  if Build.debugAssertions ∧ 2 ^ 64 ≤ millis then .error .arithmeticOverflow
  else .ok (millis % 2 ^ 64)

/-- `time + duration < now`. -/
def isPast (time duration now : ℕ) : Except Panic Bool := do
  let millis ← millisAfter time duration
  return millis < now

/-- `on_sync_reply`, less the start of the tasks that send while the connection runs. The
remaining round trips are a `u8`. -/
def onSyncReply (p : Peer I) (now magic random : ℕ) :
    Except Panic (Except PeerError Unit × Peer I) :=
  if p.state.random?.any (· ≠ random) then return (.error .invalidMessage, p)
  else
    match p.state with
    | .connecting _ =>
      match p.pushEvent .connected with
      | (.error err, p) => return (.error err, p)
      | (.ok (), p) => do
        let p := { p with state := p.state.startSyncing numSyncPackets }
        let request ← p.state.createSyncRequest
        return p.send request
    | .syncing random roundtripsRemaining => do
      debugAssert (roundtripsRemaining > 0)
      let roundtripsRemaining := (roundtripsRemaining + 255) % 256
      let p := { p with state := .syncing random roundtripsRemaining }
      if roundtripsRemaining = 0 then
        match p.pushEvent .synchronized with
        | (.error err, p) => return (.error err, p)
        | (.ok (), p) =>
          return (.ok (), { p with
            stats := { p.stats with lastInputPacketRecvTime := now }
            state := .running magic })
      else
        match p.pushEvent (.synchronizing numSyncPackets (numSyncPackets - roundtripsRemaining)) with
        | (.error err, p) => return (.error err, p)
        | (.ok (), p) => do
          let request ← p.state.createSyncRequest
          return p.send request
    | .running remoteMagic =>
      if magic = remoteMagic then return (.ok (), p) else return (.error .invalidMessage, p)
    | _ => return (.error .invalidMessage, p)

/-- The `QualityReply` branch of `handle_message`. -/
def onQualityReply (p : Peer I) (now pong : ℕ) : Except Panic (Except PeerError Unit × Peer I) := do
  let roundTripTime ← millisSince now pong
  return (.ok (), { p with stats := { p.stats with roundTripTime := roundTripTime } })

def poll (p : Peer I) (now : ℕ) : Except Panic (Except PeerError Unit × Peer I) :=
  let retry (nextInterval : ℕ) : Except Panic (Except PeerError Unit × Peer I) :=
    match p.stats.lastSendTime with
    | some lastSendTime => do
      if lastSendTime + nextInterval < now then
        let request ← p.state.createSyncRequest
        return p.send request
      else return (.ok (), p)
    | none => do
      let request ← p.state.createSyncRequest
      return p.send request
  match p.state with
  | .connecting _ => retry syncFirstRetryInterval
  | .syncing _ _ => retry syncRetryInterval
  | _ => .ok (.ok (), p)

variable [Varinteger] [Pod I]

def handleMessage (p : Peer I) (now : ℕ) (message : Message) :
    Except Panic (Except PeerError Unit × Peer I) :=
  match message.data with
  | .keepAlive => .ok (.ok (), p)
  | .syncRequest random => .ok (p.onSyncRequest message.magic random)
  | .syncReply random => p.onSyncReply now message.magic random
  | .input input => p.onInput now input
  | .inputAck ackFrame =>
    .ok (.ok (), { p with inputEncoder := p.inputEncoder.acknowledgeFrame ackFrame })
  | .qualityReport frameAdvantage ping => .ok (p.onQualityReport frameAdvantage ping)
  | .qualityReply pong => p.onQualityReply now pong

end Peer

/-- `PeerConfig`, less the transport; durations are in nanoseconds. -/
structure PeerConfig where
  disconnectTimeout : ℕ
  disconnectNotifyStart : ℕ

/-- A peer with the local variables of its tasks: the next sequence number of
`deserialize_incoming`, the magic and the next sequence number of `serialize_outgoing`, and the
last receive time of `run`, which ends at an error. -/
structure Endpoint (I : Type) where
  peer : Peer I
  config : PeerConfig
  nextRecvSeq : UInt16 := 0
  magic : ℕ
  nextSendSeq : UInt16 := 0
  lastRecvTime : ℕ
  ended : Bool := false

namespace Endpoint

variable {I : Type}

/-- What `deserialize_incoming` lets through. -/
def accepts (e : Endpoint I) (message : Message) : Bool :=
  if message.data.isSyncMessage then
    let known := match e.peer.state with
      | .running remoteMagic => message.magic = remoteMagic
      | _ => true
    known && ¬message.sequenceNumber - e.nextRecvSeq > maxSeqDistance
  else true

/-- `deserialize_incoming`, for one message. -/
def deserializeIncoming (e : Endpoint I) (message : Message) : Endpoint I :=
  if e.accepts message then
    match e.peer.messageIn.trySend message with
    | some messageIn => { e with
        nextRecvSeq := message.sequenceNumber
        peer := { e.peer with messageIn := messageIn } }
    | none => { e with nextRecvSeq := message.sequenceNumber }
  else e

def serializeOutgoing (e : Endpoint I) (now : ℕ) : Option (Message × Endpoint I) :=
  match e.peer.messageOut.queue with
  | [] => none
  | data :: rest => some (⟨e.magic, e.nextSendSeq, data⟩, { e with
      nextSendSeq := e.nextSendSeq + 1
      peer := { e.peer with
        messageOut := { e.peer.messageOut with queue := rest }
        stats := { e.peer.stats with lastSendTime := some now } } })

variable [Build]

/-- `?` in `run`: an error ends the task. -/
def orEnd (e : Endpoint I) (result : Except PeerError Unit × Peer I) : Endpoint I :=
  match result with
  | (.ok (), p) => { e with peer := p }
  | (.error _, p) => { e with peer := p, ended := true }

/-- The condition for the notice in `run`. -/
def isSilent (e : Endpoint I) (now : ℕ) : Except Panic Bool :=
  if e.peer.state.isInterrupted then .ok false
  else Peer.isPast e.lastRecvTime e.config.disconnectNotifyStart now

/-- The first part of the timer's branch of `run`: the notice that nothing has come in. -/
def notice (e : Endpoint I) (now : ℕ) : Except Panic (Endpoint I) := do
  if ¬(← e.isSilent now) then return e
  else if e.config.disconnectTimeout < e.config.disconnectNotifyStart then throw .arithmeticOverflow
  else return e.orEnd ({ e.peer with state := e.peer.state.interrupt.2 }.pushEvent
    (.networkInterrupted (e.config.disconnectTimeout - e.config.disconnectNotifyStart)))

/-- The rest of the timer's branch of `run`: the end of the connection, or else the poll. -/
def expire (e : Endpoint I) (now : ℕ) : Except Panic (Endpoint I) := do
  if ← Peer.isPast e.lastRecvTime e.config.disconnectTimeout now then
    return { e with peer := e.peer.disconnect, ended := true }
  else
    let result ← e.peer.poll now
    return e.orEnd result

/-- The timer's branch of `run`, at the time `now`. -/
def tick (e : Endpoint I) (now : ℕ) : Except Panic (Endpoint I) :=
  if e.ended then .ok e
  else do
    let e ← e.notice now
    if e.ended then return e else e.expire now

variable [Varinteger] [Pod I]

/-- The message's branch of `run`, with the message received. -/
def takeUp (e : Endpoint I) (now : ℕ) (message : Message) : Except Panic (Endpoint I) := do
  match ← e.peer.handleMessage now message with
  | (.ok (), p) =>
    let e := { e with peer := p, lastRecvTime := now }
    match p.state.resume with
    | (true, state) => return e.orEnd ({ p with state := state }.pushEvent .networkResumed)
    | (false, _) => return e
  | (.error .invalidMessage, p) => return { e with peer := p }
  | (.error _, p) => return { e with peer := p.disconnect, ended := true }

def dropMessage (e : Endpoint I) : Endpoint I :=
  { e with peer := { e.peer with
    messageIn := { e.peer.messageIn with queue := e.peer.messageIn.queue.tail } } }

/-- The message's branch of `run`, at the time `now`. -/
def handle (e : Endpoint I) (now : ℕ) : Except Panic (Endpoint I) :=
  match e.ended, e.peer.messageIn.queue with
  | true, _ => .ok e
  | false, [] => .ok { e with ended := e.peer.messageIn.closed }
  | false, message :: _ => e.dropMessage.takeUp now message

end Endpoint

end Backroll

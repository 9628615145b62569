import Backroll.Sync.Sync
import Backroll.Protocol.Peer
import Mathlib.Order.WithBot

/-! `backend/p2p.rs`: a session of `n` players, its calls, and the polling of its peers. -/
namespace Backroll

abbrev recommendationInterval : ℤ := 240

/-- `Frame::MAX`. A minimum of frames begins with it; there the model has `⊤`, since its
frames have no bound. -/
abbrev frameMax : ℤ := 2 ^ 31 - 1

/-- The order that comparisons of frames are computed with. -/
instance framePartialOrder : PartialOrder ℤ := Int.instLinearOrder.toPartialOrder

/-- `Player`, less the transport of a remote one. -/
inductive Player
  | localPlayer
  | remotePlayer
  deriving DecidableEq, Repr

inductive PlayerType (I : Type)
  | localPlayer
  | remote (peer : Peer I)

namespace PlayerType

variable {I : Type}

def peer? : PlayerType I → Option (Peer I)
  | localPlayer => none
  | remote peer => some peer

def isLocal (p : PlayerType I) : Bool := p.peer?.isNone

def isSynchronized : PlayerType I → Bool
  | localPlayer => true
  | remote peer => peer.isRunning

/-- Applies a call to the peer of a remote player. -/
def mapPeer (f : Peer I → Peer I) : PlayerType I → PlayerType I
  | localPlayer => localPlayer
  | remote peer => remote (f peer)

def disconnect : PlayerType I → PlayerType I := mapPeer Peer.disconnect

end PlayerType

/-- `P2PSessionRef`. The connect statuses are those of its `Sync`. -/
structure Session (n : ℕ) (I S : Type) where
  sync : Sync n I S
  players : Fin n → PlayerType I
  synchronizing : Bool
  nextRecommendedSleep : ℤ

namespace Session

variable {n : ℕ} {I S : Type}

/-- `new_internal`; `randoms` are the random numbers of the new peers. -/
def new [Zeroable I] (players : Fin n → Player) (frameDelay : ℤ) (randoms : Fin n → ℕ) :
    Except BackrollError (Session n I S) :=
  let localPlayerCount := (List.finRange n).countP fun i => players i = .localPlayer
  let remotePlayerCount := n - localPlayerCount
  if localPlayerCount > 1 ∧ remotePlayerCount > 1 then .error .multipleLocalPlayers
  else .ok {
    sync := .new frameDelay
    players := fun i => match players i with
      | .localPlayer => .localPlayer
      | .remotePlayer => .remote (.new (randoms i) (List.replicate n {}))
    synchronizing := (List.finRange n).any fun i => players i ≠ .localPlayer
    nextRecommendedSleep := 0 }

/-- The connect status of a player. -/
def status (s : Session n I S) (i : Fin n) : ConnectionStatus := s.sync.localConnectStatus i

def setStatus (s : Session n I S) (i : Fin n) (status : ConnectionStatus) : Session n I S :=
  { s with sync := { s.sync with
      localConnectStatus := Function.update s.sync.localConnectStatus i status } }

/-- The connect statuses as a message carries them. -/
def statuses (s : Session n I S) : List ConnectionStatus := List.ofFn s.sync.localConnectStatus

/-- The remote players of `players()`. -/
def remotes (s : Session n I S) : List (Peer I) :=
  (List.ofFn s.players).filterMap PlayerType.peer?

def playerHandleToQueue (_ : Session n I S) (player : ℕ) : Except BackrollError (Fin n) :=
  if h : player < n then .ok ⟨player, h⟩ else .error (.invalidPlayer player)

def isSynchronized (s : Session n I S) : Bool :=
  (List.finRange n).all fun i =>
    (s.players i).isLocal || (s.players i).isSynchronized || (s.status i).disconnected

def checkInitialSync (s : Session n I S) : List (Command I) × Session n I S :=
  if s.synchronizing ∧ s.isSynchronized then
    ([.event .running], { s with synchronizing := false })
  else ([], s)

variable [Build] [Zeroable I]

def disconnectPlayerQueue (s : Session n I S) (queue : Fin n) (syncto : ℤ) :
    Except Panic (List (Command I) × Session n I S) := do
  let frameCount := s.sync.frameCount
  let s := { s with players := Function.update s.players queue (s.players queue).disconnect }
  let s := s.setStatus queue ⟨true, syncto⟩
  let (adjust, s) ← if syncto < frameCount then do
      let (commands, sync) ← s.sync.adjustSimulation syncto
      pure (commands, { s with sync := sync })
    else pure ([], s)
  let (running, s) := s.checkInitialSync
  return (adjust ++ [.event (.disconnected queue)] ++ running, s)

/-- `disconnect_player`, of the session and of its inner state alike. -/
def disconnectPlayer (s : Session n I S) (player : ℕ) :
    Except Panic (Except BackrollError (List (Command I)) × Session n I S) :=
  match s.playerHandleToQueue player with
  | .error err => .ok (.error err, s)
  | .ok queue => do
    let status := s.status queue
    if status.disconnected then return (.error (.playerDisconnected player), s)
    else if (s.players queue).isLocal then
      let currentFrame := s.sync.frameCount
      let (commands, s) ← Fallible.forEach n (fun i (commands, s) =>
        if (s.players i).isLocal then .ok (commands, s)
        else do
          let (more, s) ← s.disconnectPlayerQueue i currentFrame
          return (commands ++ more, s)) ([], s)
      return (.ok commands, s)
    else
      let (commands, s) ← s.disconnectPlayerQueue queue status.lastFrame
      return (.ok commands, s)

variable [BEq I]

/-- The `Inputs` branch of `handle_event` for one input. -/
def handleInput (queue : Fin n) (input : FrameInput I) (s : Session n I S) :
    Except Panic (Session n I S) := do
  let currentRemoteFrame := (s.status queue).lastFrame
  debugAssert (isNull currentRemoteFrame ∨ input.frame = currentRemoteFrame + 1)
  let sync ← s.sync.addRemoteInput queue input
  let s := { s with sync := sync }
  return s.setStatus queue { s.status queue with lastFrame := input.frame }

def handleEvent (s : Session n I S) (queue : Fin n) (evt : ProtocolEvent I) :
    Except Panic (List (Command I) × Session n I S) :=
  match evt with
  | .connected => .ok ([.event (.connected queue)], s)
  | .synchronizing total count => .ok ([.event (.synchronizing queue count total)], s)
  | .inputs inputs =>
    if (s.status queue).disconnected then .ok ([], s)
    else do
      let s ← Fallible.walk (handleInput queue) inputs s
      return ([], s)
  | .synchronized =>
    let (running, s) := s.checkInitialSync
    .ok (.event (.synchronized queue) :: running, s)
  | .networkInterrupted disconnectTimeout =>
    .ok ([.event (.connectionInterrupted queue disconnectTimeout)], s)
  | .networkResumed => .ok ([.event (.synchronized queue)], s)

/-- `flush_peer_events`. The handlers never look at the channel, so it is emptied at once. -/
def flushPeerEvents (s : Session n I S) (queue : Fin n) (rx : Channel (ProtocolEvent I)) :
    Except Panic (List (Command I) × Session n I S) := do
  let player := (s.players queue).mapPeer fun peer => { peer with events.queue := [] }
  let s := { s with players := Function.update s.players queue player }
  let (commands, s) ← Fallible.walk (fun evt (commands, s) => do
    let (more, s) ← s.handleEvent queue evt
    return (commands ++ more, s)) rx.queue ([], s)
  if rx.closed then
    match ← s.disconnectPlayer queue with
    | (.error _, _) => throw .expectFailed
    | (.ok more, s) => return (commands ++ more, s)
  else return (commands, s)

def flushEvents (s : Session n I S) : Except Panic (List (Command I) × Session n I S) :=
  Fallible.forEach n (fun queue (commands, s) =>
    match (s.players queue).peer? with
    | none => .ok (commands, s)
    | some peer => do
      let (more, s) ← s.flushPeerEvents queue peer.events
      return (commands ++ more, s)) ([], s)

/-- `poll_2_players`, with the commands it pushes. -/
def poll2Players (s : Session n I S) :
    Except Panic (List (Command I) × WithTop ℤ × Session n I S) :=
  Fallible.forEach n (fun i (commands, minFrame, s) => do
    let queueConnected ← match (s.players i).peer? with
      | some peer =>
        if peer.isRunning then do
          let status ← peer.getPeerConnectStatus i
          pure !status.disconnected
        else pure true
      | none => pure true
    let localStatus := s.status i
    let minFrame := if ¬localStatus.disconnected then min ↑localStatus.lastFrame minFrame
      else minFrame
    if ¬queueConnected ∧ ¬localStatus.disconnected then do
      let (more, s) ← s.disconnectPlayerQueue i (minFrame.untopD frameMax)
      return (commands ++ more, minFrame, s)
    else return (commands, minFrame, s)) ([], ⊤, s)

/-- The inner loop of `poll_n_players` for one queue: whether all running peers still see the
player, and the least frame they confirm. -/
def pollPeers (s : Session n I S) (queue : Fin n) : Except Panic (Bool × WithTop ℤ) :=
  Fallible.forEach n (fun i (queueConnected, queueMinConfirmed) =>
    match (s.players i).peer? with
    | some peer =>
      if peer.isRunning then do
        let status ← peer.getPeerConnectStatus queue
        return (queueConnected && !status.disconnected, min ↑status.lastFrame queueMinConfirmed)
      else .ok (queueConnected, queueMinConfirmed)
    | none => .ok (queueConnected, queueMinConfirmed)) (true, ⊤)

/-- `poll_n_players`, with the commands it pushes. -/
def pollNPlayers (s : Session n I S) :
    Except Panic (List (Command I) × WithTop ℤ × Session n I S) :=
  Fallible.forEach n (fun queue (commands, minFrame, s) => do
    let (queueConnected, queueMinConfirmed) ← s.pollPeers queue
    let localStatus := s.status queue
    let queueMinConfirmed := if ¬localStatus.disconnected then
        min ↑localStatus.lastFrame queueMinConfirmed
      else queueMinConfirmed
    if queueConnected then return (commands, min queueMinConfirmed minFrame, s)
    else if ¬localStatus.disconnected ∨ ↑localStatus.lastFrame > queueMinConfirmed then do
      let (more, s) ← s.disconnectPlayerQueue queue (queueMinConfirmed.untopD frameMax)
      return (commands ++ more, minFrame, s)
    else return (commands, minFrame, s)) ([], ⊤, s)

/-- The loop of `do_poll` that tells the peers the frame. -/
def setLocalFrameNumbers (s : Session n I S) (currentFrame : ℤ) : Except Panic (Session n I S) :=
  Fallible.forEach n (fun i s =>
    match (s.players i).peer? with
    | none => .ok s
    | some peer => do
      let peer ← peer.setLocalFrameNumber currentFrame
      return { s with players := Function.update s.players i (.remote peer) }) s

/-- The time synchronization at the end of `do_poll`. -/
def notifyTimeSync (s : Session n I S) (currentFrame : ℤ) :
    Except Panic (List (Command I) × Session n I S) :=
  if currentFrame > s.nextRecommendedSleep then do
    let intervals ← s.remotes.mapM Peer.recommendFrameDelay
    match intervals.max? with
    | some interval =>
      return ([.event (.timeSync (interval.toNat % 256))],
        { s with nextRecommendedSleep := currentFrame + recommendationInterval })
    | none => return ([], s)
  else return ([], s)

/-- What `do_poll` does once the session runs. -/
def pollRunning (s : Session n I S) : Except Panic (List (Command I) × Session n I S) := do
  let (adjust, sync) ← s.sync.checkSimulation
  let s := { s with sync := sync }
  let currentFrame : ℤ := s.sync.frameCount
  let s ← s.setLocalFrameNumbers currentFrame
  let remotePlayerCount := s.remotes.length
  let (commands, minFrame, s) ←
    if remotePlayerCount = 0 then pure ([], (currentFrame : WithTop ℤ), s)
    else if remotePlayerCount ≤ 2 then s.poll2Players
    else s.pollNPlayers
  let s ← if minFrame ≥ 0 then do
      debugAssert (minFrame ≠ ⊤)
      let sync ← s.sync.setLastConfirmedFrame (minFrame.untopD frameMax)
      pure { s with sync := sync }
    else pure s
  let (timeSync, s) ← s.notifyTimeSync currentFrame
  return (adjust ++ commands ++ timeSync, s)

def doPoll (s : Session n I S) : Except Panic (List (Command I) × Session n I S) :=
  if s.sync.rollingBack then .ok ([], s)
  else do
    let (commands, s) ← s.flushEvents
    if s.synchronizing then return (commands, s)
    else do
      let (more, s) ← s.pollRunning
      return (commands ++ more, s)

def poll (s : Session n I S) : Except Panic (List (Command I) × Session n I S) := s.doPoll

def advanceFrame (s : Session n I S) : Except Panic (List (Command I) × Session n I S) := do
  let (commands, s) ← if ¬s.synchronizing then do
      let (commands, sync) ← s.sync.incrementFrame
      pure (commands, { s with sync := sync })
    else pure ([], s)
  let (more, s) ← s.doPoll
  return (commands ++ more, s)

def setFrameDelay (s : Session n I S) (player : ℕ) (delay : ℤ) :
    Except Panic (Except BackrollError Unit × Session n I S) :=
  match s.playerHandleToQueue player with
  | .error err => .ok (.error err, s)
  | .ok queue => do
    let sync ← s.sync.setFrameDelay queue delay
    return (.ok (), { s with sync := sync })

variable [Varinteger] [Pod I]

/-- The loop at the end of `add_local_input`: errors of the peers are ignored. -/
def sendInput (s : Session n I S) (input : FrameInput I) : Except Panic (Session n I S) :=
  Fallible.forEach n (fun i s =>
    match (s.players i).peer? with
    | none => .ok s
    | some peer => do
      let (_, peer) ← peer.sendInput s.statuses input
      return { s with players := Function.update s.players i (.remote peer) }) s

def addLocalInput (s : Session n I S) (player : ℕ) (input : I) :
    Except Panic (Except BackrollError Unit × Session n I S) :=
  if s.sync.rollingBack then .ok (.error .inRollback, s)
  else if s.synchronizing then .ok (.error .notSynchronized, s)
  else
    match s.playerHandleToQueue player with
    | .error err => .ok (.error err, s)
    | .ok queue => do
      if ¬(s.players queue).isLocal then throw .assertion
      match ← s.sync.addLocalInput queue input with
      | (.error err, _) => return (.error err, s)
      | (.ok frame, sync) =>
        let s := { s with sync := sync }
        if ¬isNull frame then
          let s := s.setStatus queue { s.status queue with lastFrame := frame }
          let s ← s.sendInput ⟨frame, input⟩
          return (.ok (), s)
        else return (.ok (), s)

end Session

end Backroll

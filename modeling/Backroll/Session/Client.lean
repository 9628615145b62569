import Backroll.Session.P2PSession

/-! The client of a session: the calls it makes, how it executes what they return, and what
the tasks of the peers do in between. -/
namespace Backroll

variable {n : ℕ} {I S : Type}

/-- The calls of a client that change the session. -/
inductive Call (I : Type)
  | poll
  | advanceFrame
  | addLocalInput (player : ℕ) (input : I)
  | disconnectPlayer (player : ℕ)
  | setFrameDelay (player : ℕ) (delay : ℤ)

/-- A session with its client. -/
structure Host (n : ℕ) (I S : Type) where
  session : Session n I S
  state : S

/-- A connection that runs does so until it is over, and then it is over for good. -/
structure PeerState.Leads (state state' : PeerState) : Prop where
  running : state.isRunning = true → state'.isRunning = true ∨ state' = .disconnected
  ended : state = .disconnected → state' = .disconnected

/-- What the tasks of a peer do to the session's side of it. They send events as long as the
channel is open, and may close it; they drop acknowledged inputs from the encoder, and change
whatever else they share. The session's own copy of the peer's connect statuses is out of
their reach. -/
inductive PlayerType.Shares : List (ProtocolEvent I) → PlayerType I → PlayerType I → Prop
  | localPlayer : Shares [] localPlayer localPlayer
  | remote (events) (peer peer' : Peer I) (acks : List ℤ)
    (hstatus : peer'.peerConnectStatus = peer.peerConnectStatus)
    (hstate : peer.state.Leads peer'.state)
    (hpending : peer'.inputEncoder.pending =
      (acks.foldl InputEncoder.acknowledgeFrame peer.inputEncoder).pending)
    (hqueue : peer'.events.queue = peer.events.queue ++ events)
    (hclosed : peer.events.closed = true → events = [] ∧ peer'.events.closed = true) :
    Shares events (remote peer) (remote peer')

namespace Session

/-- The tasks of the peers have changed what they share, and have sent these events. -/
structure Interferes (events : Fin n → List (ProtocolEvent I)) (s s' : Session n I S) : Prop where
  sync : s'.sync = s.sync
  synchronizing : s'.synchronizing = s.synchronizing
  players : ∀ i, (s.players i).Shares (events i) (s'.players i)

def setFrames (s : Session n I S) (frames : Fin numCells → SavedFrame S) : Session n I S :=
  { s with sync := { s.sync with savedState := { s.sync.savedState with frames := frames } } }

variable [Build] [BEq I] [Varinteger] [Pod I]

/-- A call, with the commands it returns; an error comes with none. -/
def make (s : Session n I S) : Call I → Except Panic (List (Command I) × Session n I S)
  | .poll => s.poll
  | .advanceFrame => s.advanceFrame
  | .addLocalInput player input => do
    let (_, s) ← s.addLocalInput player input
    return ([], s)
  | .disconnectPlayer player => do
    let (result, s) ← s.disconnectPlayer player
    match result with
    | .ok commands => return (commands, s)
    | .error _ => return ([], s)
  | .setFrameDelay player delay => do
    let (_, s) ← s.setFrameDelay player delay
    return ([], s)

end Session

namespace Host

variable [Client I S]

/-- The client executes a batch. -/
def execute (h : Host n I S) (commands : List (Command I)) : Except Panic (Host n I S) := do
  let (frames, state) ← execAll commands h.session.sync.savedState.frames h.state
  return ⟨h.session.setFrames frames, state⟩

variable [Build] [BEq I] [Varinteger] [Pod I]

/-- A call, and the execution of what it returns. -/
def call (h : Host n I S) (c : Call I) : Except Panic (Host n I S) := do
  let (commands, s) ← h.session.make c
  execute ⟨s, h.state⟩ commands

/-- Whatever the client and the peers do. -/
inductive Reachable : Host n I S → Prop
  | start (players delay randoms s state) (h : Session.new players delay randoms = .ok s) :
    Reachable ⟨s, state⟩
  | call (h c h') (hh : Reachable h) (hcall : h.call c = .ok h') : Reachable h'
  | interfere (h : Host n I S) (events s) (hh : Reachable h)
    (hs : h.session.Interferes events s) : Reachable ⟨s, h.state⟩

end Host

end Backroll

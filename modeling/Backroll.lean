import Backroll.Basic
import Backroll.Bevy.BackrollStage
import Backroll.Bevy.SaveState
import Backroll.Bevy.Saving
import Backroll.Bevy.WorldRollback
import Backroll.Input.Answers
import Backroll.Input.Discarding
import Backroll.Input.GameInput
import Backroll.Input.Ideal
import Backroll.Input.InputQueue
import Backroll.Input.LogQueue
import Backroll.Input.Misprediction
import Backroll.Input.Overflow
import Backroll.Input.Prediction
import Backroll.Input.Refinement
import Backroll.Input.Room
import Backroll.Lib.Cyclic
import Backroll.Lib.Ecs
import Backroll.Lib.Fallible
import Backroll.Lib.Leb128
import Backroll.Lib.ReliableStream
import Backroll.Lib.Snapshots
import Backroll.Protocol.Advantages
import Backroll.Protocol.Arithmetic
import Backroll.Protocol.Bitfield
import Backroll.Protocol.BitfieldLength
import Backroll.Protocol.BitfieldOffset
import Backroll.Protocol.BitfieldRoundTrip
import Backroll.Protocol.BitfieldRuns
import Backroll.Protocol.Compression
import Backroll.Protocol.Endpoint
import Backroll.Protocol.Exchange
import Backroll.Protocol.Handshake
import Backroll.Protocol.InputBuffer
import Backroll.Protocol.Int32
import Backroll.Protocol.LifeCycle
import Backroll.Protocol.Magic
import Backroll.Protocol.Message
import Backroll.Protocol.Notices
import Backroll.Protocol.Ordering
import Backroll.Protocol.Peer
import Backroll.Protocol.Reports
import Backroll.Protocol.States
import Backroll.Protocol.Statuses
import Backroll.Protocol.Stream
import Backroll.Protocol.Timeouts
import Backroll.Protocol.Untrusted
import Backroll.Protocol.Varint
import Backroll.Protocol.WireValues
import Backroll.Session.Agreement
import Backroll.Session.Calls
import Backroll.Session.Client
import Backroll.Session.Confirmation
import Backroll.Session.Core
import Backroll.Session.DelayChange
import Backroll.Session.Disconnected
import Backroll.Session.Flows
import Backroll.Session.FrameInputs
import Backroll.Session.Homes
import Backroll.Session.Intake
import Backroll.Session.Launch
import Backroll.Session.LifeCycle
import Backroll.Session.Lockstep
import Backroll.Session.Mesh
import Backroll.Session.Onward
import Backroll.Session.P2PSession
import Backroll.Session.Play
import Backroll.Session.Polling
import Backroll.Session.Progress
import Backroll.Session.Repeated
import Backroll.Session.Stage
import Backroll.Session.Startup
import Backroll.Session.Tasks
import Backroll.Session.Turn
import Backroll.Session.Wire
import Backroll.Sync.Batch
import Backroll.Sync.Calm
import Backroll.Sync.Command
import Backroll.Sync.Coverage
import Backroll.Sync.FrameInputs
import Backroll.Sync.Frames
import Backroll.Sync.Queues
import Backroll.Sync.Ring
import Backroll.Sync.Rollback
import Backroll.Sync.Simulation
import Backroll.Sync.Sync
import Backroll.Sync.Tracking
import Backroll.Transport.Connections
import Backroll.Transport.Peers

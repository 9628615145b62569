import Backroll.Basic
import Mathlib.Data.List.AList
import Mathlib.Data.Set.Card

/-! `Peers` of `peers.rs` and the pairs of channels of `channel.rs`: which handles are alive, and
which channels are closed by that. -/
namespace Backroll

/-- `BidirectionalAsyncChannel`, a handle to one end of a pair: the numbers of its two channels. -/
structure BidirectionalAsyncChannel where
  incoming : ℕ
  outgoing : ℕ
  deriving DecidableEq, Repr

/-- A handle that a caller holds, with the id that it was returned for. It is current until the id is
created again or disconnected. -/
structure Handle (T : Type) where
  id : T
  peer : BidirectionalAsyncChannel
  current : Bool := true
  deriving DecidableEq, Repr

/-- `Peers`, with all channels ever created and all handles that are alive elsewhere. -/
structure Peers (T : Type) where
  closed : ℕ → Bool
  created : ℕ
  peers : AList fun _ : T => BidirectionalAsyncChannel
  handles : List (Handle T)

namespace Peers

variable {T : Type}

/-- `default`. -/
def empty : Peers T := ⟨fun _ => false, 0, ∅, []⟩

/-- The handles that are alive, those of the map first. -/
def held (w : Peers T) : List (Handle T) :=
  w.peers.entries.map (fun kv => { id := kv.1, peer := kv.2 }) ++ w.handles

/-- `is_connected` of a handle. -/
def isConnected (w : Peers T) (peer : BidirectionalAsyncChannel) : Bool :=
  !w.closed peer.incoming && !w.closed peer.outgoing

/-- `disconnect` of a handle. -/
def disconnectPeer (w : Peers T) (peer : BidirectionalAsyncChannel) : Peers T :=
  { w with closed := fun c => w.closed c || c == peer.outgoing || c == peer.incoming }

/-- What dropping handles does: a channel is closed once it has no receiver or no sender left. -/
def dropped (w : Peers T) : Peers T :=
  { w with closed := fun c =>
    w.closed c || w.held.all (·.peer.incoming != c) || w.held.all (·.peer.outgoing != c) }

/-- `create_pair`, with two new channels. -/
def createPair (w : Peers T) : BidirectionalAsyncChannel × BidirectionalAsyncChannel × Peers T :=
  (⟨w.created, w.created + 1⟩, ⟨w.created + 1, w.created⟩, { w with
    created := w.created + 2
    closed := fun c => w.closed c && c != w.created && c != w.created + 1 })

variable [DecidableEq T]

/-- The handles returned for this id are not current any more. -/
def retire (id : T) (handles : List (Handle T)) : List (Handle T) :=
  handles.map fun h => if h.id = id then { h with current := false } else h

/-- `create_unbounded`; the caller holds the handle that is returned. -/
def createUnbounded (w : Peers T) (id : T) : Peers T :=
  let (a, b, w) := w.createPair
  let prior := w.peers.lookup id
  let w := { w with
    peers := w.peers.insert id a
    handles := retire id w.handles ++ [Handle.mk id b true] }
  let w := match prior with
    | some prior => w.disconnectPeer prior
    | none => w
  w.dropped

/-- `create_bounded`. A channel without capacity is refused. -/
def createBounded (w : Peers T) (id : T) (capacity : ℕ) : Except Panic (Peers T) :=
  if capacity = 0 then .error .assertion
  else
    let (a, b, w) := w.createPair
    .ok { w with
      peers := w.peers.insert id a
      handles := retire id w.handles ++ [Handle.mk id b true] }.dropped

def get (w : Peers T) (id : T) : Option BidirectionalAsyncChannel :=
  match w.peers.lookup id with
  | some peer => if w.isConnected peer then some peer else none
  | none => none

def len (w : Peers T) : ℕ := w.peers.entries.countP fun kv => w.isConnected kv.2

def contains (w : Peers T) (id : T) : Bool := ((w.peers.lookup id).map w.isConnected).getD false

def disconnect (w : Peers T) (id : T) : Peers T :=
  let retired := { w with handles := retire id w.handles }
  match w.peers.lookup id with
  | some peer => ({ retired with peers := w.peers.erase id }.disconnectPeer peer).dropped
  | none => retired

omit [DecidableEq T] in
def flushDisconnected (w : Peers T) : Peers T :=
  { w with peers := ⟨w.peers.entries.filter fun kv => w.isConnected kv.2,
    w.peers.nodupKeys.sublist List.filter_sublist⟩ }.dropped

/-- What callers do: call the manager, and clone, drop and disconnect what they hold. -/
inductive Call (T : Type)
  | createUnbounded (id : T)
  | createBounded (id : T) (capacity : ℕ)
  | get (id : T)
  | disconnect (id : T)
  | flushDisconnected
  | cloneHandle (h : Handle T)
  | dropHandle (h : Handle T)
  | disconnectHandle (h : Handle T)

/-- A call that returns. What `get` returns is held from then on. -/
inductive Step (w : Peers T) : Call T → Peers T → Prop
  | createUnbounded (id) : Step w (.createUnbounded id) (w.createUnbounded id)
  | createBounded (id capacity w') (h : w.createBounded id capacity = .ok w') :
    Step w (.createBounded id capacity) w'
  | get (id) : Step w (.get id) { w with
      handles := w.handles ++ ((w.get id).map fun peer => Handle.mk id peer true).toList }
  | disconnect (id) : Step w (.disconnect id) (w.disconnect id)
  | flushDisconnected : Step w .flushDisconnected w.flushDisconnected
  | cloneHandle (h) (hh : h ∈ w.handles) :
    Step w (.cloneHandle h) { w with handles := w.handles ++ [h] }
  | dropHandle (h) (hh : h ∈ w.handles) :
    Step w (.dropHandle h) { w with handles := w.handles.erase h }.dropped
  | disconnectHandle (h) (hh : h ∈ w.handles) :
    Step w (.disconnectHandle h) (w.disconnectPeer h.peer)

/-- The calls so far, each with the state that it finds. -/
inductive Run : List (Peers T × Call T) → Peers T → Prop
  | empty : Run [] empty
  | call {calls w} (hrun : Run calls w) (call w') (h : Step w call w') : Run (calls ++ [(w, call)]) w'

end Peers

end Backroll

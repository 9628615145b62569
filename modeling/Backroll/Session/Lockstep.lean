import Backroll.Session.Startup
import Backroll.Session.Turn

/-! The state that a client is to be in when it steps frame by frame with what its session has
received, and how a poll empties the event channels. -/
namespace Backroll

open Fallible (Ends)

variable {n : ℕ} {I S : Type}

theorem inputsOf_append (events more : List (ProtocolEvent I)) :
    inputsOf (events ++ more) = inputsOf events ++ inputsOf more := by
  induction events with
  | nil => rfl
  | cons evt events ih =>
    cases evt with
    | inputs inputs => simp [inputsOf, ih]
    | _ => simpa [inputsOf] using ih

variable [Zeroable I]

/-- What is stored of a player for a frame, when these inputs of it are received: the delay moves
each some frames further on. Beyond them, the last one stands. -/
def storedInput (delay : ℕ) (given : List I) (frame : ℕ) : I :=
  if frame < delay then Zeroable.zeroed
  else (given[frame - delay]?).getD (given.getLast?.getD Zeroable.zeroed)

theorem ideal_delayed (delay : ℕ) (given : List I) (frame : ℕ) :
    LogQueue.ideal (LogQueue.delayed delay given) frame = storedInput delay given frame := by
  unfold storedInput LogQueue.ideal LogQueue.lastOf LogQueue.delayed
  by_cases hnil : given = []
  · simp [hnil]
  · rw [if_neg hnil]
    have hlast : (List.replicate delay (Zeroable.zeroed : I) ++ given).getLast? = given.getLast? := by
      rw [List.getLast?_append]
      cases hg : given.getLast? with
      | none => exact absurd (List.getLast?_eq_none_iff.mp hg) hnil
      | some x => rfl
    rw [hlast]
    split
    · next hlt => simp [List.getElem?_append_left, hlt]
    · next hge => rw [List.getElem?_append_right (by simpa using hge), List.length_replicate]

theorem goneFlags_of_connected {statuses : Fin n → ConnectionStatus}
    (h : ∀ i, (statuses i).disconnected = false) (frame k : ℕ) : goneFlags statuses frame k = 0 := by
  induction k with
  | zero => rfl
  | succ k ih =>
    rw [goneFlags, ih]
    split
    · simp [Gone, h]
    · rfl

namespace Setup

/-- The inputs of all players for a frame, when these are received. -/
def inputsAt (p : Setup n S) (given : Fin n → List I) (frame : ℕ) : GameInput I where
  frame := frame
  disconnected := 0
  inputs := fun q => if h : q < n then storedInput p.delay (given ⟨q, h⟩) frame else Zeroable.zeroed

theorem known_eq_inputsAt (p : Setup n S) (given : Fin n → List I)
    {statuses : Fin n → ConnectionStatus} (h : ∀ i, (statuses i).disconnected = false) (frame : ℕ) :
    known (fun i => LogQueue.delayed p.delay (given i)) statuses frame = p.inputsAt given frame := by
  have hgone : ∀ i, ¬Gone (statuses i) frame := fun i hgone => by simp [Gone, h] at hgone
  unfold known inputsAt
  rw [goneFlags_of_connected h]
  congr 1
  funext q
  split
  · next hq => rw [if_neg (hgone _), ideal_delayed]
  · rfl

/-- The inputs for a frame that have come in do not depend on what comes later. -/
theorem inputsAt_of_prefix (p : Setup n S) {given more : Fin n → List I} {frame : ℕ}
    (hstart : ∀ i, given i <+: more i) (hlen : ∀ i, frame < (given i).length) :
    p.inputsAt given frame = p.inputsAt more frame := by
  unfold inputsAt
  congr 1
  funext q
  split
  · next hq =>
    obtain ⟨rest, hrest⟩ := hstart ⟨q, hq⟩
    have hlt := hlen ⟨q, hq⟩
    unfold storedInput
    rw [← hrest, List.getElem?_append_left (by omega),
      List.getElem?_eq_getElem (show frame - p.delay < (given ⟨q, hq⟩).length by omega)]
    rfl
  · rfl

variable [Client I S]

/-- The state before a frame, in lockstep with what is received. -/
def lockstep (p : Setup n S) (given : Fin n → List I) (frame : ℕ) : S :=
  replay p.init (p.inputsAt given) frame

end Setup

variable [BEq I] [Client I S]

theorem Core.used_eq [LawfulBEq I] {p : Setup n S} {g : Standpoint n I} {s : Sync n I S}
    {v : View I S} (h : Core p g s v) (hstrict : p.strict) (hunmarked : g.Unmarked)
    (hconn : ∀ i, (s.localConnectStatus i).disconnected = false) {frame : ℕ} (hlt : frame < g.cur) :
    v.used frame = p.inputsAt g.given frame := by
  have hlog : (fun i => (g.queues i).log) = fun i => LogQueue.delayed p.delay (g.given i) :=
    funext fun i => (h.standing i).log
  rw [h.usesKnown le_rfl (fun i f _ => .inl (hunmarked i)) ⟨hstrict, inferInstance⟩ frame hlt, hlog,
    p.known_eq_inputsAt g.given hconn]

theorem Core.lockstep [LawfulBEq I] {p : Setup n S} {g : Standpoint n I} {s : Sync n I S}
    {v : View I S} (h : Core p g s v) (hstrict : p.strict) (hunmarked : g.Unmarked)
    (hconn : ∀ i, (s.localConnectStatus i).disconnected = false) :
    v.state = p.lockstep g.given g.cur := by
  rw [h.stands.state, Setup.lockstep]
  exact (replay_congr fun f hf => (h.used_eq hstrict hunmarked hconn hf).symm).symm

/-- The player without what is measured of the connection. -/
def PlayerType.unmeasured (player : PlayerType I) : PlayerType I :=
  player.mapPeer fun peer => { peer with stats := {} }

omit [Zeroable I] [BEq I] in
theorem PlayerType.remote_of_unmeasured {player : PlayerType I} {peer : Peer I}
    (h : player.unmeasured = (PlayerType.remote peer).unmeasured) :
    ∃ stats, player = .remote { peer with stats := stats } := by
  cases player with
  | localPlayer => cases h
  | remote peer' =>
    refine ⟨peer'.stats, ?_⟩
    have hsame : ({ peer' with stats := {} } : Peer I) = { peer with stats := {} } :=
      PlayerType.remote.inj h
    obtain ⟨⟩ := peer
    obtain ⟨⟩ := peer'
    simp_all

namespace Session

section Channels

variable [Build] {s : Session n I S}

omit [Client I S] in
theorem pollRunning_unmeasured (hs : s.Settled) : Ends s.pollRunning
    (fun r => ∀ i, (r.2.players i).unmeasured = (s.players i).unmeasured) fun _ => True := by
  refine pollRunning_ends (checkSimulation_steady hs)
    (fun _ _ => .inr trivial) (fun r hr => (tellFrame_steady hr.settled).settled) fun r hr frame _ => ?_
  refine .of_forall fun sync _ events _ sleep i => ?_
  show ((s.players i).mapPeer _).unmeasured = _
  cases s.players i <;> rfl

omit [Client I S] in
/-- A poll empties the channels of the events. -/
theorem doPoll_unmeasured (hs : s.Settled)
    (hopen : ∀ i peer, s.players i = .remote peer → peer.events.closed = false) :
    Ends s.doPoll (fun r => ∀ i, (r.2.players i).unmeasured = (drained (s.players i)).unmeasured)
      fun _ => True := by
  unfold doPoll
  rw [if_neg (by simp [hs.idle])]
  refine ((flushEvents_players hopen).and (flushEvents_onward hs)).bind fun r hr => ?_
  obtain ⟨hplayers, hon, -⟩ := hr
  dsimp only
  split
  · exact fun i => by rw [hplayers]
  · refine (pollRunning_unmeasured hon.settled).bind fun r₂ hr₂ i => ?_
    rw [hr₂, hplayers]

omit [Client I S] in
theorem advanceFrame_unmeasured (hs : s.Settled)
    (hopen : ∀ i peer, s.players i = .remote peer → peer.events.closed = false) :
    Ends s.advanceFrame
      (fun r => ∀ i, (r.2.players i).unmeasured = (drained (s.players i)).unmeasured)
      fun _ => True := by
  unfold advanceFrame
  split
  · refine (incrementFrame_steady hs).bind fun r hr => ?_
    exact (doPoll_unmeasured hr.settled hopen).bind fun r₂ hr₂ => hr₂
  · exact (doPoll_unmeasured hs hopen).bind fun r hr => hr

end Channels

section Sending

variable [Build] [Varinteger] [Pod I]

omit [Zeroable I] [BEq I] [Client I S] in
/-- An input can be sent to all peers when it can be sent to each. -/
theorem sendInput_ends {s : Session n I S} {input : FrameInput I}
    (h : ∀ i peer, s.players i = .remote peer → ∀ statuses,
      Ends (peer.sendInput statuses input) (fun _ => True) fun _ => False) :
    Ends (s.sendInput input) (fun _ => True) fun _ => False := by
  unfold sendInput
  refine (Fallible.forEach_ends (fun k (s' : Session n I S) =>
    ∀ i : Fin n, k ≤ i → s'.players i = s.players i) (fun _ _ => rfl) fun i s' htodo => ?_).imp
      fun _ _ => trivial
  have hi := htodo i le_rfl
  cases hp : s.players i with
  | localPlayer =>
    rw [hi, hp]
    exact fun j hj => htodo j (by omega)
  | remote peer =>
    rw [hi, hp]
    refine (h i peer hp s'.statuses).bind fun r _ j hj => ?_
    have hne : j ≠ i := fun hji => absurd hj (by rw [hji]; omega)
    exact (Function.update_of_ne hne _ _).trans (htodo j (by omega))

end Sending

end Session

end Backroll

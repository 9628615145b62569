import Backroll.Input.GameInput
import Mathlib.Data.List.FinRange

/-! `command.rs` and the saved frames of `sync.rs`: the ring of cells that a session shares
with its client, the commands it issues, and the client that executes them. -/
namespace Backroll

/-- The number of cells: `MAX_PREDICTION_FRAMES + 2`. -/
abbrev numCells : ℕ := maxPredictionFrames + 2

instance (priority := high) numCells_neZero : NeZero numCells := ⟨by decide⟩

/-- `SavedFrame`, less the checksum, which is only logged. -/
structure SavedFrame (S : Type) where
  frame : ℤ := nullFrame
  data : Option S := none

/-- `SavedState`. A cell is shared: the session resets it when it issues a save, the client
fills it when it executes the save. -/
structure SavedState (S : Type) where
  head : Fin numCells := 0
  frames : Fin numCells → SavedFrame S := fun _ => {}

namespace SavedState

variable {S : Type}

/-- `push`, with the cell it hands out. -/
def push (s : SavedState S) (frame : ℤ) : Fin numCells × SavedState S :=
  (s.head, { s with
    frames := Function.update s.frames s.head { frame := frame }
    head := s.head + 1 })

def findIndex (s : SavedState S) (frame : ℤ) : Option (Fin numCells) :=
  (List.finRange numCells).find? fun i => (s.frames i).frame = frame

/-- `reset_to`, with the cell it finds. -/
def resetTo (s : SavedState S) (frame : ℤ) : Except Panic (Fin numCells × SavedState S) :=
  match s.findIndex frame with
  | some index => .ok (index, { s with head := index })
  | none => .error .savedFrameNotFound

end SavedState

/-- `Event`; a player is known by its handle. -/
inductive Event
  | connected (player : ℕ)
  | synchronizing (player count total : ℕ)
  | synchronized (player : ℕ)
  | running
  | disconnected (player : ℕ)
  | timeSync (framesAhead : ℕ)
  | connectionInterrupted (player disconnectTimeout : ℕ)
  | connectionResumed (player : ℕ)
  deriving DecidableEq, Repr

/-- `Command`; a save or a load holds on to a cell of the session. -/
inductive Command (I : Type)
  | save (cell : Fin numCells) (frame : ℤ)
  | load (cell : Fin numCells)
  | advanceFrame (inputs : GameInput I)
  | event (event : Event)

/-- A client: a deterministic step of the game. -/
class Client (I S : Type) where
  step : S → GameInput I → S

variable {I S : Type} [Client I S]

/-- Executing a command: `SaveState::save_state` with the current state, `LoadState::load`, or
a step. -/
def Command.exec (c : Command I) (frames : Fin numCells → SavedFrame S) (state : S) :
    Except Panic ((Fin numCells → SavedFrame S) × S) :=
  match c with
  | save cell _ =>
    if isNull (frames cell).frame then .error .assertion
    else .ok (Function.update frames cell { frames cell with data := some state }, state)
  | load cell =>
    match (frames cell).data with
    | some data => .ok (frames, data)
    | none => .error .loadUnsaved
  | advanceFrame inputs => .ok (frames, Client.step state inputs)
  | event _ => .ok (frames, state)

/-- Executing the commands of a batch in order. -/
def execAll : List (Command I) → (Fin numCells → SavedFrame S) → S →
    Except Panic ((Fin numCells → SavedFrame S) × S)
  | [], frames, state => .ok (frames, state)
  | c :: cs, frames, state => do
    let (frames, state) ← c.exec frames state
    execAll cs frames state

end Backroll

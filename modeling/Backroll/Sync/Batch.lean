import Backroll.Sync.Command
import Backroll.Lib.Snapshots

/-! A batch of commands. The session resets the cells of a batch while it issues the commands,
before the client executes any of them; as long as no load is disturbed by that, the client
ends up where it would if each cell were reset just before it is filled. -/
namespace Backroll

open Snapshots (Op)

variable {I S : Type}

/-- The cells once the session has issued the commands. -/
def resets : List (Command I) → (Fin numCells → SavedFrame S) → Fin numCells → SavedFrame S
  | [], frames => frames
  | .save cell frame :: cs, frames => resets cs (Function.update frames cell { frame := frame })
  | _ :: cs, frames => resets cs frames

@[simp] theorem resets_nil (frames : Fin numCells → SavedFrame S) :
    resets ([] : List (Command I)) frames = frames := rfl

@[simp] theorem resets_event (event : Event) (cs : List (Command I))
    (frames : Fin numCells → SavedFrame S) :
    resets (.event event :: cs) frames = resets cs frames := rfl

theorem resets_append (cs more : List (Command I)) (frames : Fin numCells → SavedFrame S) :
    resets (cs ++ more) frames = resets more (resets cs frames) := by
  induction cs generalizing frames with
  | nil => rfl
  | cons c cs ih => cases c <;> exact ih _

theorem resets_events (events : List Event) (frames : Fin numCells → SavedFrame S) :
    resets (events.map Command.event : List (Command I)) frames = frames := by
  induction events with
  | nil => rfl
  | cons event events ih => exact ih

/-- The frame of the first step of a batch: where a load before it takes the client. -/
def target : List (Command I) → Option ℤ
  | [] => none
  | .advanceFrame inputs :: _ => some inputs.frame
  | _ :: cs => target cs

theorem target_append {cs : List (Command I)} {frame : ℤ} (h : target cs = some frame)
    (more : List (Command I)) : target (cs ++ more) = some frame := by
  induction cs with
  | nil => simp [target] at h
  | cons c cs ih =>
    cases c with
    | advanceFrame inputs => exact h
    | save cell frame => exact ih h
    | load cell => exact ih h
    | event event => exact ih h

theorem target_append_of_none {cs : List (Command I)} (h : target cs = none)
    (more : List (Command I)) : target (cs ++ more) = target more := by
  induction cs with
  | nil => rfl
  | cons c cs ih =>
    cases c with
    | advanceFrame inputs => simp [target] at h
    | save cell frame => exact ih h
    | load cell => exact ih h
    | event event => exact ih h

/-- The inputs of the steps of a batch, in order. -/
def advances : List (Command I) → List (GameInput I)
  | [] => []
  | .advanceFrame inputs :: cs => inputs :: advances cs
  | _ :: cs => advances cs

@[simp] theorem advances_nil : advances ([] : List (Command I)) = [] := rfl

@[simp] theorem advances_append (cs more : List (Command I)) :
    advances (cs ++ more) = advances cs ++ advances more := by
  induction cs with
  | nil => rfl
  | cons c cs ih => cases c <;> simp [advances, ih]

@[simp] theorem advances_events (events : List Event) :
    advances (events.map Command.event : List (Command I)) = [] := by
  induction events with
  | nil => rfl
  | cons event events ih => exact ih

/-- Each load takes the client to one of these frames, the frame of the step behind it. -/
def Seeks (Q : ℤ → Prop) : List (Command I) → Prop
  | [] => True
  | .load _ :: cs => (∃ frame, target cs = some frame ∧ Q frame) ∧ Seeks Q cs
  | _ :: cs => Seeks Q cs

theorem Seeks.append {Q : ℤ → Prop} {cs more : List (Command I)} (h : Seeks Q cs)
    (h' : Seeks Q more) : Seeks Q (cs ++ more) := by
  induction cs with
  | nil => exact h'
  | cons c cs ih =>
    cases c with
    | load cell =>
      obtain ⟨⟨frame, htarget, hQ⟩, hrest⟩ := h
      exact ⟨⟨frame, target_append htarget more, hQ⟩, ih hrest⟩
    | save cell frame => exact ih h
    | advanceFrame inputs => exact ih h
    | event event => exact ih h

theorem Seeks.mono {Q Q' : ℤ → Prop} {cs : List (Command I)} (h : Seeks Q cs)
    (hQ : ∀ frame, Q frame → Q' frame) : Seeks Q' cs := by
  induction cs with
  | nil => trivial
  | cons c cs ih =>
    cases c with
    | load cell =>
      obtain ⟨⟨frame, htarget, hq⟩, hrest⟩ := h
      exact ⟨⟨frame, htarget, hQ frame hq⟩, ih hrest⟩
    | save cell frame => exact ih h
    | advanceFrame inputs => exact ih h
    | event event => exact ih h

theorem seeks_events (Q : ℤ → Prop) (events : List Event) :
    Seeks Q (events.map Command.event : List (Command I)) := by
  induction events with
  | nil => trivial
  | cons event events ih => exact ih

/-- A client that executes each command as it is issued: the cells it fills, the state it last
saved for each frame, and the inputs it last used for each frame. -/
structure View (I S : Type) where
  cells : Fin numCells → Option S
  state : S
  saved : ℤ → Option S
  used : ℕ → GameInput I

namespace View

def save (v : View I S) (cell : Fin numCells) (frame : ℤ) : View I S :=
  { v with
    cells := Function.update v.cells cell (some v.state)
    saved := Function.update v.saved frame (some v.state) }

def step [Client I S] (v : View I S) (inputs : GameInput I) : View I S :=
  { v with
    state := Client.step v.state inputs
    used := Function.update v.used inputs.frame.toNat inputs }

end View

variable [Client I S]

/-- The client executes the commands one by one as they are issued. Each load finds the state
that was last saved for the frame it takes the client to. -/
def Runs : List (Command I) → View I S → View I S → Prop
  | [], v, v' => v' = v
  | .save cell frame :: cs, v, v' => 0 ≤ frame ∧ Runs cs (v.save cell frame) v'
  | .load cell :: cs, v, v' => ∃ state frame, v.cells cell = some state ∧
      target cs = some frame ∧ v.saved frame = some state ∧ Runs cs { v with state := state } v'
  | .advanceFrame inputs :: cs, v, v' => Runs cs (v.step inputs) v'
  | .event _ :: cs, v, v' => Runs cs v v'

theorem runs_events (events : List Event) (v : View I S) :
    Runs (events.map Command.event) v v := by
  induction events with
  | nil => rfl
  | cons event events ih => exact ih

theorem Runs.append {cs more : List (Command I)} {v v₁ v₂ : View I S} (h : Runs cs v v₁)
    (h' : Runs more v₁ v₂) : Runs (cs ++ more) v v₂ := by
  induction cs generalizing v with
  | nil =>
    obtain rfl : v₁ = v := h
    exact h'
  | cons c cs ih =>
    cases c with
    | save cell frame => exact ⟨h.1, ih h.2⟩
    | load cell =>
      obtain ⟨state, frame, hcell, htarget, hsaved, hrest⟩ := h
      exact ⟨state, frame, hcell, target_append htarget more, hsaved, ih hrest⟩
    | advanceFrame inputs => exact ih h
    | event event => exact ih h

/-- The inputs last used for each frame, once these were used. -/
def recordAll (used : ℕ → GameInput I) (inputs : List (GameInput I)) : ℕ → GameInput I :=
  inputs.foldl (fun used inputs => Function.update used inputs.frame.toNat inputs) used

theorem Runs.used_eq {cs : List (Command I)} {v v' : View I S} (h : Runs cs v v') :
    v'.used = recordAll v.used (advances cs) := by
  induction cs generalizing v with
  | nil =>
    obtain rfl : v' = v := h
    rfl
  | cons c cs ih =>
    cases c with
    | save cell frame => exact ih (v := v.save cell frame) h.2
    | load cell =>
      obtain ⟨state, frame, -, -, -, hrest⟩ := h
      exact ih (v := { v with state := state }) hrest
    | advanceFrame inputs => exact ih h
    | event event => exact ih h

/-- What a command does to the cells and the state of the client. -/
def Command.op (S : Type) [Client I S] : Command I → Op (Fin numCells) S
  | save cell _ => .save cell
  | load cell => .load cell
  | advanceFrame inputs => .run fun state => Client.step state inputs
  | event _ => .run id

/-- The batch as a program over the cells. -/
def ops (S : Type) [Client I S] (cs : List (Command I)) : List (Op (Fin numCells) S) :=
  cs.map (Command.op S)

@[simp] theorem ops_nil : ops S ([] : List (Command I)) = [] := rfl

@[simp] theorem ops_cons (c : Command I) (cs : List (Command I)) :
    ops S (c :: cs) = c.op S :: ops S cs := rfl

@[simp] theorem ops_append (cs more : List (Command I)) :
    ops S (cs ++ more) = ops S cs ++ ops S more := List.map_append

theorem exposes_events (events : List Event) (c : Fin numCells) :
    ¬Snapshots.Exposes c (ops S (events.map Command.event : List (Command I))) := by
  induction events with
  | nil => exact id
  | cons event events ih => exact ih

theorem save_not_mem_events (events : List Event) (c : Fin numCells) :
    Op.save c ∉ ops S (events.map Command.event : List (Command I)) := by
  induction events with
  | nil => simp
  | cons event events ih => simpa [Command.op] using ih

theorem Runs.exec {cs : List (Command I)} {v v' : View I S} (h : Runs cs v v') :
    Snapshots.exec (ops S cs) v.cells v.state = some (v'.cells, v'.state) := by
  induction cs generalizing v with
  | nil =>
    obtain rfl : v' = v := h
    rfl
  | cons c cs ih =>
    cases c with
    | save cell frame => exact ih h.2
    | load cell =>
      obtain ⟨state, frame, hcell, -, -, hrest⟩ := h
      show (v.cells cell).bind _ = _
      rw [hcell]
      exact ih hrest
    | advanceFrame inputs => exact ih h
    | event event => exact ih h

theorem Runs.frame_nonneg {cs : List (Command I)} {v v' : View I S} (h : Runs cs v v')
    {cell : Fin numCells} {frame : ℤ} (hmem : .save cell frame ∈ cs) : 0 ≤ frame := by
  induction cs generalizing v with
  | nil => simp at hmem
  | cons c cs ih =>
    cases c with
    | save cell' frame' =>
      rcases List.mem_cons.mp hmem with heq | hmem
      · obtain ⟨-, rfl⟩ := Command.save.inj heq
        exact h.1
      · exact ih h.2 hmem
    | load cell' =>
      obtain ⟨state, -, -, -, -, hrest⟩ := h
      exact ih hrest (by simpa using hmem)
    | advanceFrame inputs => exact ih h (by simpa using hmem)
    | event event => exact ih h (by simpa using hmem)

/-- Resetting clears the data of the cells that are saved to. -/
theorem data_resets (cs : List (Command I)) (frames : Fin numCells → SavedFrame S) :
    (fun c => (resets cs frames c).data) =
      Snapshots.clear (ops S cs) fun c => (frames c).data := by
  induction cs generalizing frames with
  | nil => rfl
  | cons c cs ih =>
    cases c with
    | save cell frame =>
      refine (ih _).trans (congrArg _ ?_)
      funext c
      by_cases hc : c = cell
      · subst hc
        simp
      · simp [hc]
    | load cell => exact ih frames
    | advanceFrame inputs => exact ih frames
    | event event => exact ih frames

/-- A cell that is saved to is labelled with a frame. -/
theorem label_resets {cs : List (Command I)} (hframes : ∀ cell frame, .save cell frame ∈ cs →
    0 ≤ frame) {cell : Fin numCells} (frames : Fin numCells → SavedFrame S)
    (h : Op.save cell ∈ ops S cs ∨ 0 ≤ (frames cell).frame) :
    0 ≤ (resets cs frames cell).frame := by
  induction cs generalizing frames with
  | nil => simpa [ops] using h
  | cons c cs ih =>
    have hrest : ∀ cell frame, .save cell frame ∈ cs → 0 ≤ frame := fun cell frame hmem =>
      hframes cell frame (List.mem_cons_of_mem _ hmem)
    cases c with
    | save cell' frame' =>
      refine ih hrest _ ?_
      by_cases hc : cell = cell'
      · subst hc
        right
        simpa using hframes cell frame' List.mem_cons_self
      · simpa [Command.op, hc] using h
    | load cell' => exact ih hrest frames (by simpa [Command.op] using h)
    | advanceFrame inputs => exact ih hrest frames (by simpa [Command.op] using h)
    | event event => exact ih hrest frames (by simpa [Command.op] using h)

/-- The client executes a batch on cells whose labels are those the session set. -/
theorem execAll_of_exec {cs : List (Command I)} {frames : Fin numCells → SavedFrame S}
    {data' : Fin numCells → Option S} {state state' : S}
    (hlabel : ∀ cell, Op.save cell ∈ ops S cs → ¬isNull (frames cell).frame)
    (h : Snapshots.exec (ops S cs) (fun c => (frames c).data) state = some (data', state')) :
    execAll cs frames state = .ok (fun c => ⟨(frames c).frame, data' c⟩, state') := by
  induction cs generalizing frames state with
  | nil =>
    obtain ⟨rfl, rfl⟩ := Prod.mk.inj (Option.some.inj h)
    rfl
  | cons c cs ih =>
    have hrest : ∀ cell, Op.save cell ∈ ops S cs → ¬isNull (frames cell).frame := fun cell hmem =>
      hlabel cell (List.mem_cons_of_mem _ hmem)
    cases c with
    | save cell frame =>
      have hcell := hlabel cell List.mem_cons_self
      simp only [execAll, Command.exec, if_neg hcell, Fallible.ok_bind]
      have hdata : (fun c => (Function.update frames cell
          { frames cell with data := some state } c).data) =
          Function.update (fun c => (frames c).data) cell (some state) := by
        funext c
        by_cases hc : c = cell
        · subst hc
          simp
        · simp [hc]
      have hframe : ∀ c, (Function.update frames cell
          { frames cell with data := some state } c).frame = (frames c).frame := by
        intro c
        by_cases hc : c = cell
        · subst hc
          simp
        · simp [hc]
      rw [ih (by simpa only [hframe] using hrest) (by rw [hdata]; exact h)]
      simp only [hframe]
    | load cell =>
      have h' : ((frames cell).data).bind
          (Snapshots.exec (ops S cs) fun c => (frames c).data) = some (data', state') := h
      cases hcell : (frames cell).data with
      | none => simp [hcell] at h'
      | some data =>
        rw [hcell, Option.bind_some] at h'
        simp only [execAll, Command.exec, hcell, Fallible.ok_bind]
        exact ih hrest h'
    | advanceFrame inputs =>
      simp only [execAll, Command.exec, Fallible.ok_bind]
      exact ih hrest h
    | event event =>
      simp only [execAll, Command.exec, Fallible.ok_bind]
      exact ih hrest h

/-- Executing a whole batch after it was issued is executing it step by step. -/
theorem Runs.execAll {cs : List (Command I)} {v v' : View I S}
    {frames : Fin numCells → SavedFrame S} (h : Runs cs v v')
    (hu : Snapshots.Undisturbed (ops S cs)) (hcells : v.cells = fun c => (frames c).data) :
    Backroll.execAll cs (resets cs frames) v.state =
      .ok (fun c => ⟨(resets cs frames c).frame, v'.cells c⟩, v'.state) := by
  refine execAll_of_exec (fun cell hmem => not_lt.mpr ?_) ?_
  · exact label_resets (fun _ _ => h.frame_nonneg) frames (.inl hmem)
  · rw [data_resets, ← hcells]
    exact Snapshots.exec_clear hu h.exec

end Backroll

import Mathlib.Logic.Function.Basic
import Mathlib.Data.Nat.Notation
import Mathlib.Tactic.Cases
import Mathlib.Data.List.Basic

/-! Worlds of entities with components and of resources, stages of systems whose commands are applied
at the end, and what is left of a stage all of whose writes agree. -/
namespace Ecs

variable {C R : Type} {Value : C → Type} {Content : R → Type}

/-- Entity numbers are given out in order and never used again. -/
structure World (Value : C → Type) (Content : R → Type) where
  rows : ℕ → Option ((c : C) → Option (Value c))
  allocated : ℕ
  resources : (r : R) → Option (Content r)
  unallocated : ∀ e, allocated ≤ e → rows e = none

/-- What systems leave to be done at the end of their stage. -/
inductive Command (Value : C → Type) (Content : R → Type)
  | spawn (row : (c : C) → Option (Value c))
  | despawn (e : ℕ)
  | insert (e : ℕ) (c : C) (v : Value c)
  | remove (e : ℕ) (c : C)
  | insertResource (r : R) (v : Content r)
  | removeResource (r : R)

namespace World

def empty : World Value Content := ⟨fun _ => none, 0, fun _ => none, fun _ _ => rfl⟩

def get (w : World Value Content) (e : ℕ) (c : C) : Option (Value c) := (w.rows e).bind (· c)

def spawn (w : World Value Content) (row : (c : C) → Option (Value c)) : World Value Content where
  rows := fun e => if e = w.allocated then some row else w.rows e
  allocated := w.allocated + 1
  resources := w.resources
  unallocated e h := by
    rw [if_neg (by omega)]
    exact w.unallocated e (by omega)

def despawn (w : World Value Content) (e : ℕ) : World Value Content where
  rows := fun i => if i = e then none else w.rows i
  allocated := w.allocated
  resources := w.resources
  unallocated i h := by
    split
    · rfl
    · exact w.unallocated i h

def setResource [DecidableEq R] (w : World Value Content) (r : R) (v : Option (Content r)) :
    World Value Content :=
  { w with resources := Function.update w.resources r v }

variable [DecidableEq C]

/-- Of an entity that is not there nothing is set. -/
def set (w : World Value Content) (e : ℕ) (c : C) (v : Option (Value c)) : World Value Content where
  rows := fun i => if i = e then (w.rows i).map fun row => Function.update row c v else w.rows i
  allocated := w.allocated
  resources := w.resources
  unallocated i h := by
    rw [w.unallocated i h, Option.map_none, ite_self]

variable [DecidableEq R]

/-- Inserting a component for an entity that is not there panics. -/
def apply (w : World Value Content) : Command Value Content → Option (World Value Content)
  | .spawn row => some (w.spawn row)
  | .despawn e => some (w.despawn e)
  | .insert e c v => if (w.rows e).isSome then some (w.set e c (some v)) else none
  | .remove e c => some (w.set e c none)
  | .insertResource r v => some (w.setResource r (some v))
  | .removeResource r => some (w.setResource r none)

def applyAll (w : World Value Content) : List (Command Value Content) → Option (World Value Content)
  | [] => some w
  | command :: commands => (w.apply command).bind fun w => w.applyAll commands

end World

abbrev System (Value : C → Type) (Content : R → Type) :=
  World Value Content → World Value Content × List (Command Value Content)

/-- The systems of a stage one after another, with the commands of all of them. -/
def runSystems : List (System Value Content) → System Value Content
  | [], w => (w, [])
  | system :: systems, w =>
    let (w, commands) := system w
    let (w, more) := runSystems systems w
    (w, commands ++ more)

def runStage [DecidableEq C] [DecidableEq R] (systems : List (System Value Content))
    (w : World Value Content) : Option (World Value Content) :=
  let (w, commands) := runSystems systems w
  w.applyAll commands

section Toward

variable (p : (e : ℕ) → (c : C) → Option (Value c) → Prop) (q : (r : R) → Option (Content r) → Prop)

/-- Nothing was written but what is allowed, and no entity came or went. -/
structure Toward (w w' : World Value Content) : Prop where
  rows : ∀ e, (w'.rows e).isSome = (w.rows e).isSome
  cells : ∀ e c, w'.get e c = w.get e c ∨ p e c (w'.get e c)
  resources : ∀ r, w'.resources r = w.resources r ∨ q r (w'.resources r)

/-- A command that writes nothing but what is allowed, to an entity of this world. -/
def Allowed (w : World Value Content) : Command Value Content → Prop
  | .spawn _ => False
  | .despawn _ => False
  | .insert e c v => (w.rows e).isSome = true ∧ p e c (some v)
  | .remove e c => p e c none
  | .insertResource r v => q r (some v)
  | .removeResource r => q r none

variable {p q} {w w' w'' : World Value Content}

theorem Toward.refl (w : World Value Content) : Toward p q w w :=
  ⟨fun _ => rfl, fun _ _ => Or.inl rfl, fun _ => Or.inl rfl⟩

theorem Toward.trans (h : Toward p q w w') (h' : Toward p q w' w'') : Toward p q w w'' where
  rows e := (h'.rows e).trans (h.rows e)
  cells e c := by
    rcases h'.cells e c with heq | hp
    · rw [heq]
      exact h.cells e c
    · exact Or.inr hp
  resources r := by
    rcases h'.resources r with heq | hq
    · rw [heq]
      exact h.resources r
    · exact Or.inr hq

/-- What is right stays right when only what is allowed is written. -/
theorem Toward.cell (h : Toward p q w w') {e : ℕ} {c : C} (hp : p e c (w.get e c)) :
    p e c (w'.get e c) := by
  rcases h.cells e c with heq | hp'
  · rw [heq]
    exact hp
  · exact hp'

theorem Toward.resource (h : Toward p q w w') {r : R} (hq : q r (w.resources r)) :
    q r (w'.resources r) := by
  rcases h.resources r with heq | hq'
  · rw [heq]
    exact hq
  · exact hq'

/-- Writing components only leaves an entity alone of which it writes none. -/
theorem Toward.row (h : Toward p q w w') {e : ℕ}
    (hnone : ∀ c, ¬ p e c (w'.get e c)) : w'.rows e = w.rows e := by
  have hsome := h.rows e
  have hcell : ∀ c, w'.get e c = w.get e c := fun c => (h.cells e c).resolve_right (hnone c)
  unfold World.get at hcell
  cases hrow : w.rows e with
  | none =>
    rw [hrow] at hsome
    exact Option.not_isSome_iff_eq_none.mp (by simp [hsome])
  | some row =>
    rw [hrow] at hsome
    obtain ⟨row', hrow'⟩ := Option.isSome_iff_exists.mp hsome
    rw [hrow'] at hcell ⊢
    rw [hrow] at hcell
    exact congrArg some (funext hcell)

theorem Allowed.mono (h : Toward p q w w') {command : Command Value Content}
    (hc : Allowed p q w command) : Allowed p q w' command := by
  cases command with
  | insert e c v => exact ⟨(h.rows e).trans hc.1, hc.2⟩
  | _ => exact hc

theorem get_spawn (w : World Value Content) (row : (c : C) → Option (Value c)) (e : ℕ) (c : C) :
    (w.spawn row).get e c = if e = w.allocated then row c else w.get e c := by
  simp only [World.get, World.spawn]
  split <;> rfl

theorem get_despawn (w : World Value Content) (i e : ℕ) (c : C) :
    (w.despawn i).get e c = if e = i then none else w.get e c := by
  simp only [World.get, World.despawn]
  split <;> rfl

variable [DecidableEq C]

theorem get_set (w : World Value Content) (e : ℕ) (c : C) (v : Option (Value c)) :
    (w.set e c v).get e c = if (w.rows e).isSome then v else none := by
  unfold World.get World.set
  cases hrow : w.rows e <;> simp [hrow]

theorem get_set_ne (w : World Value Content) {e i : ℕ} {c d : C} (v : Option (Value c))
    (h : ¬ (i = e ∧ d = c)) : (w.set e c v).get i d = w.get i d := by
  unfold World.get World.set
  by_cases hi : i = e
  · have hd : d ≠ c := fun hd => h ⟨hi, hd⟩
    cases hrow : w.rows e <;> simp [hi, hrow, Function.update_of_ne hd]
  · simp [hi]

theorem Toward.set {e : ℕ} {c : C} {v : Option (Value c)} (h : p e c v) :
    Toward p q w (w.set e c v) where
  rows i := by
    unfold World.set
    by_cases hi : i = e <;> simp [hi]
  cells i d := by
    by_cases hcell : i = e ∧ d = c
    · obtain ⟨rfl, rfl⟩ := hcell
      cases hrow : w.rows i with
      | none => left; simp [World.get, World.set, hrow]
      | some row =>
        right
        rw [get_set, hrow]
        exact h
    · exact Or.inl (get_set_ne w v hcell)
  resources _ := Or.inl rfl

theorem resources_set (w : World Value Content) (e : ℕ) (c : C) (v : Option (Value c)) :
    (w.set e c v).resources = w.resources := rfl

variable [DecidableEq R]

omit [DecidableEq C] in
theorem resources_setResource (w : World Value Content) (r : R) (v : Option (Content r)) :
    (w.setResource r v).resources r = v := Function.update_self _ _ _

omit [DecidableEq C] in
theorem resources_setResource_ne (w : World Value Content) {r i : R} (v : Option (Content r))
    (h : i ≠ r) : (w.setResource r v).resources i = w.resources i := Function.update_of_ne h _ _

omit [DecidableEq C] in
theorem Toward.setResource {r : R} {v : Option (Content r)} (h : q r v) :
    Toward p q w (w.setResource r v) where
  rows _ := rfl
  cells _ _ := Or.inl rfl
  resources i := by
    by_cases hi : i = r
    · subst hi
      right
      rw [resources_setResource]
      exact h
    · exact Or.inl (resources_setResource_ne w v hi)

theorem Allowed.apply {command : Command Value Content} (h : Allowed p q w command) :
    ∃ w', w.apply command = some w' ∧ Toward p q w w' := by
  cases command with
  | spawn row => exact h.elim
  | despawn e => exact h.elim
  | insert e c v => exact ⟨_, if_pos h.1, Toward.set h.2⟩
  | remove e c => exact ⟨_, rfl, Toward.set h⟩
  | insertResource r v => exact ⟨_, rfl, Toward.setResource h⟩
  | removeResource r => exact ⟨_, rfl, Toward.setResource h⟩

theorem Allowed.applyAll {commands : List (Command Value Content)}
    (h : ∀ command ∈ commands, Allowed p q w command) :
    ∃ w', w.applyAll commands = some w' ∧ Toward p q w w' := by
  induction commands generalizing w with
  | nil => exact ⟨w, rfl, Toward.refl w⟩
  | cons command commands ih =>
    obtain ⟨hc, hcs⟩ := List.forall_mem_cons.mp h
    obtain ⟨w', hw', htoward⟩ := hc.apply
    obtain ⟨w'', hw'', htoward'⟩ := ih fun command hcommand => (hcs command hcommand).mono htoward
    refine ⟨w'', ?_, htoward.trans htoward'⟩
    rw [World.applyAll, hw']
    exact hw''

end Toward

section Settles

/-- The command writes this component. -/
def Command.Writes (e : ℕ) (c : C) (command : Command Value Content) : Prop :=
  (∃ v, command = .insert e c v) ∨ command = .remove e c

def Command.WritesResource (r : R) (command : Command Value Content) : Prop :=
  (∃ v, command = .insertResource r v) ∨ command = .removeResource r

variable {p : (e : ℕ) → (c : C) → Option (Value c) → Prop} {q : (r : R) → Option (Content r) → Prop}
variable {w w' : World Value Content} [DecidableEq C] [DecidableEq R]

/-- Of commands that write only what is right, one is enough to make it right. -/
theorem Allowed.applyAll_cell {commands : List (Command Value Content)} {e : ℕ} {c : C}
    (h : ∀ command ∈ commands, Allowed p q w command) (hw' : w.applyAll commands = some w')
    (hwrites : p e c (w.get e c) ∨ ∃ command ∈ commands, command.Writes e c) : p e c (w'.get e c) := by
  induction commands generalizing w with
  | nil =>
    cases hw'
    exact hwrites.resolve_right (fun ⟨_, h, _⟩ => absurd h List.not_mem_nil)
  | cons command commands ih =>
    obtain ⟨hc, hcs⟩ := List.forall_mem_cons.mp h
    obtain ⟨w₁, hw₁, htoward⟩ := hc.apply
    rw [World.applyAll, hw₁] at hw'
    refine ih (fun command hcommand => (hcs command hcommand).mono htoward) hw' ?_
    rcases hwrites with hp | ⟨command', hmem, hwrite⟩
    · exact Or.inl (htoward.cell hp)
    · rcases List.mem_cons.mp hmem with rfl | hmem
      · left
        rcases hwrite with ⟨v, rfl⟩ | rfl
        · have hset : w₁ = w.set e c (some v) := (Option.some.inj ((if_pos hc.1).symm.trans hw₁)).symm
          rw [hset, get_set, if_pos hc.1]
          exact hc.2
        · have hset : w₁ = w.set e c none := (Option.some.inj hw₁).symm
          rw [hset, get_set, ite_self]
          exact hc
      · exact Or.inr ⟨command', hmem, hwrite⟩

theorem Allowed.applyAll_resource {commands : List (Command Value Content)} {r : R}
    (h : ∀ command ∈ commands, Allowed p q w command) (hw' : w.applyAll commands = some w')
    (hwrites : q r (w.resources r) ∨ ∃ command ∈ commands, command.WritesResource r) :
    q r (w'.resources r) := by
  induction commands generalizing w with
  | nil =>
    cases hw'
    exact hwrites.resolve_right (fun ⟨_, h, _⟩ => absurd h List.not_mem_nil)
  | cons command commands ih =>
    obtain ⟨hc, hcs⟩ := List.forall_mem_cons.mp h
    obtain ⟨w₁, hw₁, htoward⟩ := hc.apply
    rw [World.applyAll, hw₁] at hw'
    refine ih (fun command hcommand => (hcs command hcommand).mono htoward) hw' ?_
    rcases hwrites with hq | ⟨command', hmem, hwrite⟩
    · exact Or.inl (htoward.resource hq)
    · rcases List.mem_cons.mp hmem with rfl | hmem
      · left
        rcases hwrite with ⟨v, rfl⟩ | rfl
        · have hset : w₁ = w.setResource r (some v) := (Option.some.inj hw₁).symm
          rw [hset, resources_setResource]
          exact hc
        · have hset : w₁ = w.setResource r none := (Option.some.inj hw₁).symm
          rw [hset, resources_setResource]
          exact hc
      · exact Or.inr ⟨command', hmem, hwrite⟩

variable (p q) in
/-- On such a world the system writes what is allowed only, and makes these components and resources
right, itself or by a command. -/
structure Settles (w : World Value Content) (cells : ℕ → C → Prop) (resources : R → Prop)
    (result : World Value Content × List (Command Value Content)) : Prop where
  toward : Toward p q w result.1
  allowed : ∀ command ∈ result.2, Allowed p q result.1 command
  cell : ∀ e c, cells e c → p e c (result.1.get e c) ∨ ∃ command ∈ result.2, command.Writes e c
  resource : ∀ r, resources r →
    q r (result.1.resources r) ∨ ∃ command ∈ result.2, command.WritesResource r

/-- A stage of such systems, in whatever order, makes right what any of them does. -/
theorem runStage_settles {T : Type} {run : T → System Value Content} {cells : T → ℕ → C → Prop}
    {resources : T → R → Prop} {systems : List T}
    (h : ∀ t ∈ systems, ∀ w', Toward p q w w' → Settles p q w' (cells t) (resources t) (run t w')) :
    ∃ w', runStage (systems.map run) w = some w' ∧ Toward p q w w' ∧ ∀ t ∈ systems,
      (∀ e c, cells t e c → p e c (w'.get e c)) ∧ ∀ r, resources t r → q r (w'.resources r) := by
  have hrun : ∀ w', Toward p q w w' → Settles p q w' (fun e c => ∃ t ∈ systems, cells t e c)
      (fun r => ∃ t ∈ systems, resources t r) (runSystems (systems.map run) w') := by
    induction systems with
    | nil =>
      intro w' _
      exact ⟨Toward.refl _, fun _ h => absurd h List.not_mem_nil, by simp, by simp⟩
    | cons t systems ih =>
      intro w' hw'
      obtain ⟨ht, hts⟩ := List.forall_mem_cons.mp h
      have hfirst := ht w' hw'
      have hrest := ih hts _ (hw'.trans hfirst.toward)
      refine ⟨hfirst.toward.trans hrest.toward, ?_, ?_, ?_⟩
      · intro command hcommand
        rcases List.mem_append.mp hcommand with hcommand | hcommand
        · exact (hfirst.allowed command hcommand).mono hrest.toward
        · exact hrest.allowed command hcommand
      · rintro e c ⟨t', ht', hcell⟩
        rcases List.mem_cons.mp ht' with rfl | ht'
        · rcases hfirst.cell e c hcell with hp | ⟨command, hcommand, hwrites⟩
          · exact Or.inl (hrest.toward.cell hp)
          · exact Or.inr ⟨command, List.mem_append_left _ hcommand, hwrites⟩
        · rcases hrest.cell e c ⟨t', ht', hcell⟩ with hp | ⟨command, hcommand, hwrites⟩
          · exact Or.inl hp
          · exact Or.inr ⟨command, List.mem_append_right _ hcommand, hwrites⟩
      · rintro r ⟨t', ht', hr⟩
        rcases List.mem_cons.mp ht' with rfl | ht'
        · rcases hfirst.resource r hr with hq | ⟨command, hcommand, hwrites⟩
          · exact Or.inl (hrest.toward.resource hq)
          · exact Or.inr ⟨command, List.mem_append_left _ hcommand, hwrites⟩
        · rcases hrest.resource r ⟨t', ht', hr⟩ with hq | ⟨command, hcommand, hwrites⟩
          · exact Or.inl hq
          · exact Or.inr ⟨command, List.mem_append_right _ hcommand, hwrites⟩
  have hall := hrun w (Toward.refl w)
  obtain ⟨w', hw', htoward⟩ := Allowed.applyAll hall.allowed
  refine ⟨w', hw', hall.toward.trans htoward, fun t ht => ⟨fun e c hcell => ?_, fun r hr => ?_⟩⟩
  · exact Allowed.applyAll_cell hall.allowed hw' (hall.cell e c ⟨t, ht, hcell⟩)
  · exact Allowed.applyAll_resource hall.allowed hw' (hall.resource r ⟨t, ht, hr⟩)

end Settles

end Ecs

import Backroll.Basic
import Backroll.Lib.Ecs
import Mathlib.Data.Finset.Sort
import Mathlib.Data.List.AList

/-! Saving and loading of a Bevy world: `save_state.rs` and `id.rs`, with the stages that
`BackrollPlugin::build` and `BackrollApp` of `lib.rs` put their systems into. -/
namespace Backroll

/-- The component and resource types of a game, besides those of this crate. -/
structure Game where
  Component : Type
  Value : Component → Type
  Resource : Type
  Content : Resource → Type

structure NetworkId where
  id : ℕ
  deriving DecidableEq, Repr

structure NetworkIdProvider where
  next : ℕ
  deriving DecidableEq, Repr

namespace NetworkIdProvider

def new : NetworkIdProvider := ⟨0⟩

def newId (provider : NetworkIdProvider) : Except Panic (NetworkId × NetworkIdProvider) :=
  if provider.next + 1 < 2 ^ 32 then .ok (⟨provider.next⟩, ⟨provider.next + 1⟩)
  else .error .expectFailed

end NetworkIdProvider

inductive ComponentType (G : Game)
  | networkId
  | other (c : G.Component)

inductive ResourceType (G : Game)
  | networkIdProvider
  | other (r : G.Resource)

variable {G : Game}

abbrev ComponentType.Value : ComponentType G → Type
  | .networkId => NetworkId
  | .other c => G.Value c

abbrev ResourceType.Content : ResourceType G → Type
  | .networkIdProvider => NetworkIdProvider
  | .other r => G.Content r

instance ComponentType.instDecidableEq [DecidableEq G.Component] : DecidableEq (ComponentType G)
  | .networkId, .networkId => isTrue rfl
  | .networkId, .other _ => isFalse (by simp)
  | .other _, .networkId => isFalse (by simp)
  | .other c, .other d => decidable_of_iff (c = d) (ComponentType.other.injEq c d ▸ Iff.rfl)

instance ResourceType.instDecidableEq [DecidableEq G.Resource] : DecidableEq (ResourceType G)
  | .networkIdProvider, .networkIdProvider => isTrue rfl
  | .networkIdProvider, .other _ => isFalse (by simp)
  | .other _, .networkIdProvider => isFalse (by simp)
  | .other r, .other i => decidable_of_iff (r = i) (ResourceType.other.injEq r i ▸ Iff.rfl)

/-- A world of the game. -/
abbrev GameWorld (G : Game) := Ecs.World (C := ComponentType G) (R := ResourceType G)
  ComponentType.Value ResourceType.Content

abbrev GameCommand (G : Game) := Ecs.Command (C := ComponentType G) (R := ResourceType G)
  ComponentType.Value ResourceType.Content

abbrev GameSystem (G : Game) := GameWorld G → GameWorld G × List (GameCommand G)

/-- The keys of a save state: a resource type, or `SavedComponents` of a component type. -/
inductive TypeId (G : Game)
  | resource (r : ResourceType G)
  | savedComponents (c : G.Component)

instance TypeId.instDecidableEq [DecidableEq G.Component] [DecidableEq G.Resource] :
    DecidableEq (TypeId G)
  | .resource r, .resource i => decidable_of_iff (r = i) (TypeId.resource.injEq r i ▸ Iff.rfl)
  | .resource _, .savedComponents _ => isFalse (by simp)
  | .savedComponents _, .resource _ => isFalse (by simp)
  | .savedComponents c, .savedComponents d =>
    decidable_of_iff (c = d) (TypeId.savedComponents.injEq c d ▸ Iff.rfl)

/-- What is stored under a key; a downcast by the key's own type does not fail. -/
abbrev TypeId.Saved : TypeId G → Type
  | .resource r => r.Content
  | .savedComponents c => AList fun _ : NetworkId => G.Value c

/-- `SaveStateBuilder`, and `SaveState` once it is built. -/
structure SaveState (G : Game) where
  ids : Finset ℕ
  state : (key : TypeId G) → Option key.Saved

/-- The order in which a query goes through the entities with a `NetworkId`. -/
structure Visit (G : Game) where
  order : GameWorld G → List ℕ
  nodup : ∀ w, (order w).Nodup
  mem : ∀ w e, e ∈ order w ↔ (w.get e .networkId).isSome = true

/-- In the order of the entity numbers. -/
def Visit.ascending : Visit G where
  order w := (List.range w.allocated).filter fun e => (w.get e .networkId).isSome
  nodup w := List.nodup_range.filter _
  mem w e := by
    rw [List.mem_filter, List.mem_range, and_iff_right_iff_imp]
    intro h
    by_contra hlt
    rw [Ecs.World.get, w.unallocated e (not_lt.mp hlt)] at h
    cases h

/-- What the query for `(Entity, &NetworkId)` gives. -/
def Visit.networkIds (v : Visit G) (w : GameWorld G) : List (ℕ × NetworkId) :=
  (v.order w).filterMap fun e => (w.get e .networkId).map fun id => (e, id)

/-- What the query for `(Entity, &NetworkId, Option<&T>)` gives. -/
def Visit.components (v : Visit G) (c : G.Component) (w : GameWorld G) :
    List (ℕ × NetworkId × Option (G.Value c)) :=
  (v.order w).filterMap fun e => (w.get e .networkId).map fun id => (e, id, w.get e (.other c))

/-- `collect` into a hash map. -/
def collect {α : Type} (l : List (NetworkId × α)) : AList fun _ : NetworkId => α :=
  l.foldl (fun map entry => map.insert entry.1 entry.2) ∅

namespace SaveState

def new : SaveState G := ⟨∅, fun _ => none⟩

def saveNetworkIds (v : Visit G) (w : GameWorld G) (s : SaveState G) : SaveState G :=
  { s with ids := ((v.networkIds w).map (·.2.id)).toFinset }

/-- `despawn` for the ids that should not exist, and the ids that remain. -/
def unsaved : Finset ℕ → List (ℕ × NetworkId) →
    Finset ℕ × List (GameCommand G)
  | ids, [] => (ids, [])
  | ids, (e, networkId) :: rest =>
    if networkId.id ∈ ids then unsaved (ids.erase networkId.id) rest
    else
      let (ids, commands) := unsaved ids rest
      (ids, .despawn e :: commands)

/-- The row of an entity spawned with a `NetworkId` alone. -/
def bare (id : ℕ) : (c : ComponentType G) → Option c.Value
  | .networkId => some ⟨id⟩
  | .other _ => none

def syncNetworkIds (s : SaveState G) (v : Visit G) : GameSystem G :=
  fun w =>
    let (ids, commands) := unsaved s.ids (v.networkIds w)
    (w, commands ++ (ids.sort (· ≤ ·)).map fun id => .spawn (bare id))

variable [DecidableEq G.Component] [DecidableEq G.Resource]

def saveResource (r : ResourceType G) (w : GameWorld G) (s : SaveState G) : SaveState G :=
  match w.resources r with
  | some resource => { s with state := Function.update s.state (.resource r) (some resource) }
  | none => s

def saveComponents (c : G.Component) (v : Visit G) (w : GameWorld G) (s : SaveState G) : SaveState G :=
  let components := collect ((v.components c w).filterMap fun row => row.2.2.map fun x => (row.2.1, x))
  if components.entries.isEmpty then s
  else { s with state := Function.update s.state (.savedComponents c) (some components) }

def loadResource (s : SaveState G) (r : ResourceType G) : GameSystem G :=
  fun w => match s.state (.resource r), w.resources r with
    | some saved, some _ => (w.setResource r (some saved), [])
    | some saved, none => (w, [.insertResource r saved])
    | none, some _ => (w, [.removeResource r])
    | none, none => (w, [])

omit [DecidableEq G.Resource] in
/-- The loop of `load_components`. -/
def loadRows (c : G.Component) (slab : AList fun _ : NetworkId => G.Value c) :
    List (ℕ × NetworkId × Option (G.Value c)) → GameSystem G
  | [], w => (w, [])
  | (e, networkId, comp) :: rest, w =>
    match slab.lookup networkId, comp with
    | some saved, some _ => loadRows c slab rest (w.set e (.other c) (some saved))
    | some saved, none =>
      let (w, commands) := loadRows c slab rest w
      (w, .insert e (.other c) saved :: commands)
    | none, some _ =>
      let (w, commands) := loadRows c slab rest w
      (w, .remove e (.other c) :: commands)
    | none, none => loadRows c slab rest w

omit [DecidableEq G.Resource] in
def loadComponents (s : SaveState G) (c : G.Component) (v : Visit G) : GameSystem G :=
  fun w => match s.state (.savedComponents c) with
    | some slab => loadRows c slab (v.components c w) w
    | none => (w, (v.components c w).filterMap fun row =>
        if row.2.2.isSome then some (.remove row.1 (.other c)) else none)

end SaveState

/-- A type registered by `register_rollback_component` or `register_rollback_resource`. -/
inductive Registered (G : Game)
  | component (c : G.Component)
  | resource (r : ResourceType G)

/-- What an app has registered; `build` of the plugin registers the provider. -/
structure Registry (G : Game) where
  types : List (Registered G)
  provider : .resource .networkIdProvider ∈ types

/-- How the stages run: the order of their systems and in which order each query goes. -/
structure Schedule (reg : Registry G) where
  systems : List (Registered G)
  perm : systems.Perm reg.types
  ids : Visit G
  components : G.Component → Visit G

namespace Schedule

/-- All in the order of registration, and queries in the order of the entity numbers. -/
def ascending (reg : Registry G) : Schedule reg := ⟨reg.types, .refl _, .ascending, fun _ => .ascending⟩

variable [DecidableEq G.Component] [DecidableEq G.Resource] {reg : Registry G}

def saveSystem (σ : Schedule reg) (w : GameWorld G) (s : SaveState G) : Registered G → SaveState G
  | .component c => s.saveComponents c (σ.components c) w
  | .resource r => s.saveResource r w

def loadSystem (σ : Schedule reg) (s : SaveState G) :
    Registered G → GameSystem G
  | .component c => s.loadComponents c (σ.components c)
  | .resource r => s.loadResource r

/-- `Command::Save`: the save stage, whose systems leave no commands. -/
def save (σ : Schedule reg) (w : GameWorld G) : SaveState G :=
  σ.systems.foldl (σ.saveSystem w) (SaveState.new.saveNetworkIds σ.ids w)

/-- `Command::Load`: the stages before_load and load. -/
def load (σ : Schedule reg) (s : SaveState G) (w : GameWorld G) : Option (GameWorld G) := do
  let w ← Ecs.runStage [s.syncNetworkIds σ.ids] w
  Ecs.runStage (σ.systems.map (σ.loadSystem s)) w

end Schedule

end Backroll

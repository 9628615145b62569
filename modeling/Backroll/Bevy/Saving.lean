import Backroll.Bevy.SaveState

/-! What a save holds of a world: its network ids, and what it has of each registered type. -/
namespace Backroll

variable {G : Game}

/-- No two entities have the same `NetworkId`. -/
def Distinct (w : GameWorld G) : Prop :=
  ∀ e e' id, w.get e .networkId = some id → w.get e' .networkId = some id → e = e'

theorem Visit.mem_networkIds {v : Visit G} {w : GameWorld G} {e : ℕ} {id : NetworkId} :
    (e, id) ∈ v.networkIds w ↔ w.get e .networkId = some id := by
  unfold networkIds
  simp only [List.mem_filterMap, Option.map_eq_some_iff, Prod.mk.injEq]
  constructor
  · rintro ⟨i, -, j, hj, rfl, rfl⟩
    exact hj
  · intro h
    refine ⟨e, (v.mem w e).mpr ?_, id, h, rfl, rfl⟩
    rw [h]
    rfl

theorem Visit.mem_components {v : Visit G} {c : G.Component} {w : GameWorld G} {e : ℕ} {id : NetworkId}
    {comp : Option (G.Value c)} :
    (e, id, comp) ∈ v.components c w ↔
      w.get e .networkId = some id ∧ comp = w.get e (.other c) := by
  unfold components
  simp only [List.mem_filterMap, Option.map_eq_some_iff, Prod.mk.injEq]
  constructor
  · rintro ⟨i, -, j, hj, rfl, rfl, rfl⟩
    exact ⟨hj, rfl⟩
  · rintro ⟨h, rfl⟩
    refine ⟨e, (v.mem w e).mpr ?_, id, h, rfl, rfl, rfl⟩
    rw [h]
    rfl

/-- A query goes to no entity twice. -/
theorem Visit.nodup_query {α : Type} (v : Visit G) (w : GameWorld G) (f : ℕ → NetworkId → α) :
    (((v.order w).filterMap fun e =>
      (w.get e .networkId).map fun id => (e, f e id)).map Prod.fst).Nodup := by
  refine (v.nodup w).sublist ?_
  induction v.order w with
  | nil => exact List.Sublist.slnil
  | cons e order ih =>
    rw [List.filterMap_cons]
    cases w.get e .networkId with
    | none => exact ih.cons _
    | some id => exact ih.cons_cons _

/-- Of entries that agree on their keys each is found again. -/
theorem lookup_collect {α : Type} {l : List (NetworkId × α)}
    (h : ∀ x ∈ l, ∀ y ∈ l, x.1 = y.1 → x = y) (id : NetworkId) (x : α) :
    (collect l).lookup id = some x ↔ (id, x) ∈ l := by
  induction l using List.reverseRecOn with
  | nil => simp [collect]
  | append_singleton l entry ih =>
    have hl : ∀ x ∈ l, ∀ y ∈ l, x.1 = y.1 → x = y := fun x hx y hy =>
      h x (List.mem_append_left _ hx) y (List.mem_append_left _ hy)
    have hentry : entry ∈ l ++ [entry] := List.mem_append_right _ (List.mem_singleton_self _)
    rw [collect, List.foldl_append]
    change ((collect l).insert entry.1 entry.2).lookup id = some x ↔ _
    rw [List.mem_append, List.mem_singleton]
    by_cases hid : id = entry.1
    · subst hid
      rw [AList.lookup_insert, Option.some.injEq]
      constructor
      · rintro rfl
        exact Or.inr rfl
      · rintro (hmem | heq)
        · exact congrArg Prod.snd (h entry hentry (entry.1, x) (List.mem_append_left _ hmem) rfl)
        · exact (congrArg Prod.snd heq).symm
    · rw [AList.lookup_insert_ne hid, ih hl]
      refine ⟨Or.inl, fun hmem => hmem.resolve_right fun heq => hid (congrArg Prod.fst heq)⟩

section Save

variable [DecidableEq G.Component] [DecidableEq G.Resource] {reg : Registry G}

/-- The key of a registered type. -/
def Registered.typeId : Registered G → TypeId G
  | .component c => .savedComponents c
  | .resource r => .resource r

/-- What the world has to be stored under a key. -/
def Schedule.found (σ : Schedule reg) (w : GameWorld G) : (key : TypeId G) → Option key.Saved
  | .resource r => w.resources r
  | .savedComponents c =>
    let components := collect (((σ.components c).components c w).filterMap fun row =>
      row.2.2.map fun x => (row.2.1, x))
    if components.entries.isEmpty then none else some components

theorem saveSystem_ids (σ : Schedule reg) (w : GameWorld G) (s : SaveState G) (t : Registered G) :
    (σ.saveSystem w s t).ids = s.ids := by
  cases t with
  | component c =>
    simp only [Schedule.saveSystem, SaveState.saveComponents]
    split_ifs <;> rfl
  | resource r =>
    simp only [Schedule.saveSystem, SaveState.saveResource]
    split <;> rfl

theorem saveSystem_state (σ : Schedule reg) (w : GameWorld G) (s : SaveState G) (t : Registered G)
    (key : TypeId G) : (σ.saveSystem w s t).state key =
      if key = t.typeId then (σ.found w key).or (s.state key) else s.state key := by
  by_cases hkey : key = t.typeId
  · subst hkey
    rw [if_pos rfl]
    cases t with
    | component c =>
      simp only [Schedule.saveSystem, SaveState.saveComponents, Registered.typeId]
      split_ifs with hempty <;> simp [Schedule.found, hempty]
    | resource r =>
      simp only [Schedule.saveSystem, SaveState.saveResource, Registered.typeId, Schedule.found]
      cases w.resources r <;> simp
  · rw [if_neg hkey]
    cases t with
    | component c =>
      simp only [Schedule.saveSystem, SaveState.saveComponents]
      split_ifs
      · rfl
      · exact Function.update_of_ne hkey _ _
    | resource r =>
      simp only [Schedule.saveSystem, SaveState.saveResource]
      split
      · exact Function.update_of_ne hkey _ _
      · rfl

/-- A save holds for each registered type what the world has of it. -/
theorem save_state (σ : Schedule reg) (w : GameWorld G) {t : Registered G} (ht : t ∈ reg.types) :
    (σ.save w).state t.typeId = σ.found w t.typeId := by
  have hrun : ∀ (systems : List (Registered G)) (s : SaveState G),
      (systems.foldl (σ.saveSystem w) s).state t.typeId = if t.typeId ∈ systems.map Registered.typeId then (σ.found w t.typeId).or (s.state t.typeId)
      else s.state t.typeId := by
    intro systems
    induction systems with
    | nil => simp
    | cons t' systems ih =>
      intro s
      rw [List.foldl_cons, ih, saveSystem_state]
      by_cases hkey : t.typeId = t'.typeId
      · cases σ.found w t.typeId <;> simp [hkey]
      · simp [hkey]
  have hmem : t.typeId ∈ σ.systems.map Registered.typeId :=
    List.mem_map_of_mem (σ.perm.mem_iff.mpr ht)
  rw [Schedule.save, hrun, if_pos hmem]
  simp [SaveState.saveNetworkIds, SaveState.new]

theorem mem_save_ids (σ : Schedule reg) (w : GameWorld G) {id : NetworkId} :
    id.id ∈ (σ.save w).ids ↔ ∃ e, w.get e .networkId = some id := by
  have hrun : ∀ (systems : List (Registered G)) (s : SaveState G),
      (systems.foldl (σ.saveSystem w) s).ids = s.ids := by
    intro systems
    induction systems with
    | nil => exact fun _ => rfl
    | cons t systems ih => exact fun s => (ih _).trans (saveSystem_ids σ w s t)
  rw [Schedule.save, hrun]
  simp only [SaveState.saveNetworkIds, List.mem_toFinset, List.mem_map]
  constructor
  · rintro ⟨⟨e, id'⟩, hmem, heq⟩
    have hid : id' = id := congrArg NetworkId.mk heq
    exact ⟨e, hid ▸ Visit.mem_networkIds.mp hmem⟩
  · rintro ⟨e, h⟩
    exact ⟨(e, id), Visit.mem_networkIds.mpr h, rfl⟩

/-- The saved component of an id. -/
def SaveState.want (s : SaveState G) (c : G.Component) (id : NetworkId) : Option (G.Value c) :=
  (s.state (.savedComponents c)).bind fun slab => slab.lookup id

theorem save_want (σ : Schedule reg) {w : GameWorld G} (hw : Distinct w) {c : G.Component}
    (hc : .component c ∈ reg.types) {id : NetworkId} {x : G.Value c} :
    (σ.save w).want c id = some x ↔
      ∃ e, w.get e .networkId = some id ∧ w.get e (.other c) = some x := by
  let rows := ((σ.components c).components c w).filterMap fun row => row.2.2.map fun x => (row.2.1, x)
  have hrows : ∀ i y, (i, y) ∈ rows ↔
      ∃ e, w.get e .networkId = some i ∧ w.get e (.other c) = some y := by
    intro i y
    simp only [rows, List.mem_filterMap, Option.map_eq_some_iff, Prod.mk.injEq]
    constructor
    · rintro ⟨⟨e, j, comp⟩, hmem, z, hz, rfl, rfl⟩
      obtain ⟨hid, hcomp⟩ := Visit.mem_components.mp hmem
      exact ⟨e, hid, hcomp.symm.trans hz⟩
    · rintro ⟨e, hid, hcomp⟩
      exact ⟨(e, i, some y), Visit.mem_components.mpr ⟨hid, hcomp.symm⟩, y, rfl, rfl, rfl⟩
  have hagree : ∀ a ∈ rows, ∀ b ∈ rows, a.1 = b.1 → a = b := by
    rintro ⟨i, y⟩ hy ⟨j, z⟩ hz rfl
    obtain ⟨e, hid, hcomp⟩ := (hrows i y).mp hy
    obtain ⟨e', hid', hcomp'⟩ := (hrows i z).mp hz
    rw [hw e e' i hid hid', hcomp'] at hcomp
    rw [Option.some.inj hcomp]
  have hlookup : (σ.save w).want c id = (collect rows).lookup id := by
    unfold SaveState.want
    have hstate : (σ.save w).state (.savedComponents c) = _ := save_state σ w hc
    rw [hstate]
    change (if (collect rows).entries.isEmpty then none else some (collect rows)).bind _ = _
    split_ifs with hempty
    · rw [List.isEmpty_iff] at hempty
      exact ((AList.ext hempty : collect rows = ∅) ▸ AList.lookup_empty id).symm
    · rfl
  rw [hlookup, lookup_collect hagree, hrows]

end Save

end Backroll

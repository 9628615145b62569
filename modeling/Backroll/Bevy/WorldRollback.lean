import Backroll.Bevy.Saving

/-! Loading a save brings back the network ids, the registered components and the registered resources
of the saved world, whatever the world has become since. -/
namespace Backroll

open Ecs (Toward Allowed Settles)

variable {G : Game}

/-- The ids are distinct and all issued by the provider of the world. -/
def Issued (w : GameWorld G) : Prop :=
  Distinct w ∧ ∃ provider, w.resources .networkIdProvider = some provider ∧
    ∀ e id, w.get e .networkId = some id → id.id < provider.next

section Sync

variable {w : GameWorld G}

/-- Of the entities visited some are kept, one for each of their ids, and the others are lost. -/
theorem unsaved_spec (ids : Finset ℕ) (l : List (ℕ × NetworkId)) :
    ∃ kept lost, SaveState.unsaved (G := G) ids l =
        (ids \ (kept.map fun x : ℕ × NetworkId => x.2.id).toFinset,
          (lost.map Prod.fst).map Ecs.Command.despawn) ∧
      l.Perm (kept ++ lost) ∧ (kept.map fun x => x.2.id).Nodup ∧ ∀ x ∈ kept, x.2.id ∈ ids := by
  induction l generalizing ids with
  | nil => exact ⟨[], [], by simp [SaveState.unsaved], List.Perm.refl _, List.nodup_nil, by simp⟩
  | cons x l ih =>
    obtain ⟨e, id⟩ := x
    by_cases hid : id.id ∈ ids
    · obtain ⟨kept, lost, hrun, hperm, hnodup, hkept⟩ := ih (ids.erase id.id)
      refine ⟨(e, id) :: kept, lost, ?_, hperm.cons _, ?_, ?_⟩
      · rw [SaveState.unsaved, if_pos hid, hrun]
        congr 1
        ext i
        simp only [Finset.mem_sdiff, Finset.mem_erase, List.map_cons, List.toFinset_cons, Finset.mem_insert]
        tauto
      · rw [List.map_cons, List.nodup_cons]
        refine ⟨fun hmem => ?_, hnodup⟩
        obtain ⟨y, hy, heq⟩ := List.mem_map.mp hmem
        exact (Finset.mem_erase.mp (hkept y hy)).1 heq
      · rintro y hy
        rcases List.mem_cons.mp hy with rfl | hy
        · exact hid
        · exact (Finset.mem_erase.mp (hkept y hy)).2
    · obtain ⟨kept, lost, hrun, hperm, hnodup, hkept⟩ := ih ids
      refine ⟨kept, (e, id) :: lost, ?_, ?_, hnodup, hkept⟩
      · rw [SaveState.unsaved, if_neg hid, hrun]
        rfl
      · exact (hperm.cons _).trans List.perm_middle.symm

variable [DecidableEq G.Component] [DecidableEq G.Resource]

theorem applyAll_despawns (lost : List ℕ) (more : List (GameCommand G)) :
    ∃ w' : GameWorld G, w.applyAll (lost.map Ecs.Command.despawn ++ more) = w'.applyAll more ∧
      w'.allocated = w.allocated ∧ ∀ e, w'.rows e = if e ∈ lost then none else w.rows e := by
  induction lost generalizing w with
  | nil => exact ⟨w, rfl, rfl, fun e => by simp⟩
  | cons i lost ih =>
    obtain ⟨w', hrun, hallocated, hrows⟩ := ih (w := w.despawn i)
    refine ⟨w', hrun, hallocated, fun e => ?_⟩
    rw [hrows]
    by_cases hlost : e ∈ lost <;> by_cases hi : e = i <;> simp [Ecs.World.despawn, hlost, hi]

theorem applyAll_spawns (ids : List ℕ) :
    ∃ w' : GameWorld G, w.applyAll (ids.map fun id => Ecs.Command.spawn (SaveState.bare id)) = some w' ∧
      ∀ e row, w'.rows e = some row ↔ w.rows e = some row ∨
        ∃ i, ∃ h : i < ids.length, e = w.allocated + i ∧ row = SaveState.bare (ids[i]) := by
  induction ids generalizing w with
  | nil => exact ⟨w, rfl, fun e row => by simp⟩
  | cons id ids ih =>
    obtain ⟨w', hrun, hrows⟩ := ih (w := w.spawn (SaveState.bare id))
    refine ⟨w', hrun, fun e row => ?_⟩
    have hspawn : (w.spawn (SaveState.bare id)).rows e = some row ↔
        w.rows e = some row ∨ e = w.allocated ∧ row = SaveState.bare id := by
      by_cases he : e = w.allocated
      · subst he
        simp [Ecs.World.spawn, w.unallocated _ (le_refl _), eq_comm]
      · simp [Ecs.World.spawn, he]
    rw [hrows, hspawn]
    constructor
    · rintro ((hrow | ⟨he, hrow⟩) | ⟨i, hi, he, hrow⟩)
      · exact Or.inl hrow
      · exact Or.inr ⟨0, Nat.succ_pos _, he, hrow⟩
      · refine Or.inr ⟨i + 1, Nat.succ_lt_succ hi, ?_, hrow⟩
        rw [he]
        change w.allocated + 1 + i = _
        omega
    · rintro (hrow | ⟨i, hi, he, hrow⟩)
      · exact Or.inl (Or.inl hrow)
      · cases i with
        | zero => exact Or.inl (Or.inr ⟨he, hrow⟩)
        | succ i =>
          refine Or.inr ⟨i, Nat.lt_of_succ_lt_succ hi, ?_, hrow⟩
          rw [he]
          change _ = w.allocated + 1 + i
          omega

/-- The world between the stages: the saved ids, each once, and every other entity as it was. -/
structure Synced (s : SaveState G) (w w' : GameWorld G) : Prop where
  ids : ∀ id : NetworkId, (∃ e, w'.get e .networkId = some id) ↔ id.id ∈ s.ids
  distinct : Distinct w'
  anonymous : ∀ e row, row .networkId = none → (w'.rows e = some row ↔ w.rows e = some row)

theorem syncNetworkIds_synced (s : SaveState G) (v : Visit G) (w : GameWorld G) :
    ∃ w', Ecs.runStage [s.syncNetworkIds v] w = some w' ∧ Synced s w w' := by
  obtain ⟨kept, lost, hrun, hperm, hnodup, hkept⟩ := unsaved_spec (G := G) s.ids (v.networkIds w)
  let remaining := s.ids \ (kept.map fun x : ℕ × NetworkId => x.2.id).toFinset
  let spawned := remaining.sort (· ≤ ·)
  obtain ⟨w₁, hdespawn, hallocated, hrows⟩ := applyAll_despawns (w := w) (lost.map Prod.fst)
    (spawned.map fun id => Ecs.Command.spawn (SaveState.bare id))
  obtain ⟨w', hspawn, hrows'⟩ := applyAll_spawns (w := w₁) spawned
  have hstage : Ecs.runStage [s.syncNetworkIds v] w = some w' := by
    simp only [Ecs.runStage, Ecs.runSystems, SaveState.syncNetworkIds, hrun, List.append_nil]
    exact hdespawn.trans hspawn
  have hsplit : ∀ e id, w.get e .networkId = some id ↔ (e, id) ∈ kept ∨ (e, id) ∈ lost := fun e id => by
    rw [← Visit.mem_networkIds (v := v), hperm.mem_iff, List.mem_append]
  have hapart : ∀ e id, (e, id) ∈ kept → e ∉ lost.map Prod.fst := by
    have hentities : ((kept ++ lost).map Prod.fst).Nodup :=
      (hperm.map Prod.fst).nodup_iff.mp (v.nodup_query w fun _ id => id)
    rw [List.map_append] at hentities
    exact fun e id hk hl => (List.disjoint_of_nodup_append hentities)
      (List.mem_map_of_mem hk) hl
  have hwhole : ∀ e row, w'.rows e = some row ↔ (w.rows e = some row ∧ e ∉ lost.map Prod.fst) ∨
      ∃ i, ∃ h : i < spawned.length, e = w.allocated + i ∧ row = SaveState.bare (spawned[i]) := by
    intro e row
    rw [hrows', hrows, hallocated]
    by_cases hlost : e ∈ lost.map Prod.fst <;> simp [hlost]
  have hnet : ∀ e id, w'.get e .networkId = some id ↔ (e, id) ∈ kept ∨
      ∃ i, ∃ h : i < spawned.length, e = w.allocated + i ∧ id = ⟨spawned[i]⟩ := by
    intro e id
    constructor
    · intro h
      obtain ⟨row, hrow, hid⟩ := Option.bind_eq_some_iff.mp h
      rcases (hwhole e row).mp hrow with ⟨hrow, hlost⟩ | ⟨i, hi, he, rfl⟩
      · have hold : w.get e .networkId = some id := Option.bind_eq_some_iff.mpr ⟨row, hrow, hid⟩
        exact Or.inl (((hsplit e id).mp hold).resolve_right fun h => hlost (List.mem_map_of_mem h))
      · exact Or.inr ⟨i, hi, he, (Option.some.inj hid).symm⟩
    · rintro (hk | ⟨i, hi, he, rfl⟩)
      · obtain ⟨row, hrow, hid⟩ := Option.bind_eq_some_iff.mp ((hsplit e id).mpr (Or.inl hk))
        exact Option.bind_eq_some_iff.mpr ⟨row, (hwhole e row).mpr (Or.inl ⟨hrow, hapart e id hk⟩), hid⟩
      · exact Option.bind_eq_some_iff.mpr ⟨_, (hwhole e _).mpr (Or.inr ⟨i, hi, he, rfl⟩), rfl⟩
  have hspawned : ∀ id, id ∈ spawned ↔ id ∈ s.ids ∧ id ∉ kept.map fun x => x.2.id := by
    intro id
    simp only [spawned, remaining, Finset.mem_sort, Finset.mem_sdiff, List.mem_toFinset]
  refine ⟨w', hstage, ?_, ?_, ?_⟩
  · intro id
    simp only [hnet]
    constructor
    · rintro ⟨e, hk | ⟨i, hi, he, rfl⟩⟩
      · exact hkept _ hk
      · exact ((hspawned _).mp (List.getElem_mem hi)).1
    · intro hid
      by_cases hk : id.id ∈ kept.map fun x => x.2.id
      · obtain ⟨⟨e, id'⟩, hmem, heq⟩ := List.mem_map.mp hk
        have hsame : id' = id := congrArg NetworkId.mk heq
        exact ⟨e, Or.inl (hsame ▸ hmem)⟩
      · obtain ⟨i, hi, heq⟩ := List.getElem_of_mem ((hspawned id.id).mpr ⟨hid, hk⟩)
        exact ⟨w.allocated + i, Or.inr ⟨i, hi, rfl, congrArg NetworkId.mk heq.symm⟩⟩
  · intro e e' id he he'
    have hfresh : ∀ e i, (e, id) ∈ kept → ∀ h : i < spawned.length, id = ⟨spawned[i]⟩ → False := by
      intro e i hk hi hid
      have hmem := List.mem_map_of_mem (f := fun x : ℕ × NetworkId => x.2.id) hk
      rw [hid] at hmem
      exact ((hspawned _).mp (List.getElem_mem hi)).2 hmem
    rcases (hnet e id).mp he with hk | ⟨i, hi, he, hid⟩ <;>
      rcases (hnet e' id).mp he' with hk' | ⟨j, hj, he', hid'⟩
    · exact congrArg Prod.fst (List.inj_on_of_nodup_map hnodup hk hk' rfl)
    · exact (hfresh e j hk hj hid').elim
    · exact (hfresh e' i hk' hi hid).elim
    · have hij : spawned[i] = spawned[j] := congrArg NetworkId.id (hid.symm.trans hid')
      rw [he, he', (List.Nodup.getElem_inj_iff (Finset.sort_nodup _ _)).mp hij]
  · intro e row hanonymous
    rw [hwhole]
    constructor
    · rintro (⟨hrow, -⟩ | ⟨i, hi, -, rfl⟩)
      · exact hrow
      · cases hanonymous
    · intro hrow
      refine Or.inl ⟨hrow, fun hlost => ?_⟩
      obtain ⟨⟨_, id⟩, hmem, rfl⟩ := List.mem_map.mp hlost
      obtain ⟨row', hrow', hid⟩ := Option.bind_eq_some_iff.mp ((hsplit _ id).mpr (Or.inr hmem))
      rw [hrow] at hrow'
      cases hrow'
      cases hid.symm.trans hanonymous

end Sync

section Load

variable [DecidableEq G.Component] [DecidableEq G.Resource] {reg : Registry G}

/-- What the load stage may write to a component, with the ids as they are before it. -/
def Restores (reg : Registry G) (s : SaveState G) (w : GameWorld G) (e : ℕ) :
    (c : ComponentType G) → Option c.Value → Prop
  | .networkId, _ => False
  | .other c, x => .component c ∈ reg.types ∧ ∃ id, w.get e .networkId = some id ∧ x = s.want c id

/-- What it may write to a resource. -/
def RestoresResource (reg : Registry G) (s : SaveState G) (r : ResourceType G)
    (x : Option r.Content) : Prop :=
  .resource r ∈ reg.types ∧ x = s.state (.resource r)

variable {s : SaveState G} {w w' : GameWorld G}

omit [DecidableEq G.Component] [DecidableEq G.Resource] in
theorem toward_networkId (h : Toward (Restores reg s w) (RestoresResource reg s) w w') (e : ℕ) :
    w'.get e .networkId = w.get e .networkId :=
  (h.cells e .networkId).resolve_right fun h => h

omit [DecidableEq G.Component] in
theorem loadResource_settles {r : ResourceType G} (hr : .resource r ∈ reg.types) (w' : GameWorld G)
    (cells : ℕ → ComponentType G → Prop) (hcells : ∀ e c, ¬ cells e c) :
    Settles (Restores reg s w) (RestoresResource reg s) w' cells (fun i => i = r) (s.loadResource r w') := by
  unfold SaveState.loadResource
  cases hsaved : s.state (.resource r) with
  | some saved =>
    have hright : RestoresResource reg s r (some saved) := ⟨hr, hsaved.symm⟩
    cases hnow : w'.resources r with
    | some now =>
      refine ⟨Toward.setResource hright, by simp, fun e c h => absurd h (hcells e c), ?_⟩
      rintro i rfl
      left
      rw [Ecs.resources_setResource]
      exact hright
    | none =>
      refine ⟨Toward.refl _, ?_, fun e c h => absurd h (hcells e c), ?_⟩
      · intro command hcommand
        rw [List.mem_singleton.mp hcommand]
        exact hright
      · rintro i rfl
        exact Or.inr ⟨_, List.mem_singleton_self _, Or.inl ⟨saved, rfl⟩⟩
  | none =>
    have hright : RestoresResource reg s r none := ⟨hr, hsaved.symm⟩
    cases hnow : w'.resources r with
    | some now =>
      refine ⟨Toward.refl _, ?_, fun e c h => absurd h (hcells e c), ?_⟩
      · intro command hcommand
        rw [List.mem_singleton.mp hcommand]
        exact hright
      · rintro i rfl
        exact Or.inr ⟨_, List.mem_singleton_self _, Or.inr rfl⟩
    | none =>
      refine ⟨Toward.refl _, by simp, fun e c h => absurd h (hcells e c), ?_⟩
      rintro i rfl
      left
      rw [hnow]
      exact hright

omit [DecidableEq G.Resource] in
/-- The loop over rows that say what the entities have. -/
theorem loadRows_settles {c : G.Component} (hc : .component c ∈ reg.types)
    {slab : AList fun _ : NetworkId => G.Value c} (hslab : s.state (.savedComponents c) = some slab)
    (rows : List (ℕ × NetworkId × Option (G.Value c))) (hnodup : (rows.map Prod.fst).Nodup)
    (hrows : ∀ row ∈ rows, w.get row.1 .networkId = some row.2.1 ∧ (w'.rows row.1).isSome = true ∧
      w'.get row.1 (.other c) = row.2.2) :
    Settles (Restores reg s w) (RestoresResource reg s) w'
      (fun e d => d = .other c ∧ e ∈ rows.map Prod.fst) (fun _ => False)
      (SaveState.loadRows c slab rows w') := by
  have hwant : ∀ id, s.want c id = slab.lookup id := fun id => by
    rw [SaveState.want, hslab]
    rfl
  induction rows generalizing w' with
  | nil => exact ⟨Toward.refl _, by simp [SaveState.loadRows], by simp, fun _ h => h.elim⟩
  | cons row rows ih =>
    obtain ⟨e, id, comp⟩ := row
    obtain ⟨⟨hid, halive, hcomp⟩, hrest⟩ := List.forall_mem_cons.mp hrows
    rw [List.map_cons, List.nodup_cons] at hnodup
    have hright : ∀ x, slab.lookup id = x → Restores reg s w e (.other c) x := fun x hx =>
      ⟨hc, id, hid, hx.symm.trans (hwant id).symm⟩
    have hne : ∀ row ∈ rows, row.1 ≠ e := fun row hrow heq => by
      have hmem := List.mem_map_of_mem (f := Prod.fst) hrow
      rw [heq] at hmem
      exact hnodup.1 hmem
    -- A command for this entity, or nothing where the entity is as saved.
    have hlater : ∀ new : List (GameCommand G), (∀ command ∈ new, Allowed (Restores reg s w)
          (RestoresResource reg s) w' command) →
        (Restores reg s w e (.other c) (w'.get e (.other c)) ∨ ∃ command ∈ new, command.Writes e (.other c)) →
        Settles (Restores reg s w) (RestoresResource reg s) w'
          (fun i d => d = .other c ∧ i ∈ e :: rows.map Prod.fst) (fun _ => False)
          ((SaveState.loadRows c slab rows w').1, new ++ (SaveState.loadRows c slab rows w').2) := by
      intro new hallowed hcell
      have hrun := ih hnodup.2 hrest
      refine ⟨hrun.toward, ?_, ?_, fun _ h => h.elim⟩
      · intro command hcommand
        rcases List.mem_append.mp hcommand with hcommand | hcommand
        · exact (hallowed command hcommand).mono hrun.toward
        · exact hrun.allowed command hcommand
      · rintro i d ⟨rfl, hi⟩
        rcases List.mem_cons.mp hi with rfl | hi
        · rcases hcell with hp | ⟨command, hcommand, hwrites⟩
          · exact Or.inl (hrun.toward.cell hp)
          · exact Or.inr ⟨command, List.mem_append_left _ hcommand, hwrites⟩
        · rcases hrun.cell i _ ⟨rfl, hi⟩ with hp | ⟨command, hcommand, hwrites⟩
          · exact Or.inl hp
          · exact Or.inr ⟨command, List.mem_append_right _ hcommand, hwrites⟩
    cases hsaved : slab.lookup id with
    | some saved =>
      cases comp with
      | some now =>
        have hset : Toward (Restores reg s w) (RestoresResource reg s) w' (w'.set e (.other c) (some saved)) :=
          Toward.set (hright _ hsaved)
        have hrun := @ih (w'.set e (.other c) (some saved)) hnodup.2 fun row hrow =>
          ⟨(hrest row hrow).1, (hset.rows row.1).trans (hrest row hrow).2.1,
            (Ecs.get_set_ne _ _ fun h => hne row hrow h.1).trans (hrest row hrow).2.2⟩
        simp only [SaveState.loadRows, hsaved]
        refine ⟨hset.trans hrun.toward, hrun.allowed, ?_, fun _ h => h.elim⟩
        rintro i d ⟨rfl, hi⟩
        rcases List.mem_cons.mp hi with rfl | hi
        · left
          apply hrun.toward.cell
          rw [Ecs.get_set, if_pos halive]
          exact hright _ hsaved
        · exact hrun.cell i _ ⟨rfl, hi⟩
      | none =>
        simp only [SaveState.loadRows, hsaved]
        refine hlater [.insert e (.other c) saved] ?_ (Or.inr ⟨_, List.mem_singleton_self _, Or.inl ⟨saved, rfl⟩⟩)
        intro command hcommand
        rw [List.mem_singleton.mp hcommand]
        exact ⟨halive, hright _ hsaved⟩
    | none =>
      cases comp with
      | some now =>
        simp only [SaveState.loadRows, hsaved]
        refine hlater [.remove e (.other c)] ?_ (Or.inr ⟨_, List.mem_singleton_self _, Or.inr rfl⟩)
        intro command hcommand
        rw [List.mem_singleton.mp hcommand]
        exact hright _ hsaved
      | none =>
        simp only [SaveState.loadRows, hsaved]
        refine hlater [] (by simp) (Or.inl ?_)
        rw [hcomp]
        exact hright _ hsaved

omit [DecidableEq G.Component] [DecidableEq G.Resource] in
theorem mem_rows_iff {v : Visit G} {c : G.Component} {e : ℕ} :
    e ∈ (v.components c w).map Prod.fst ↔ (w.get e .networkId).isSome = true := by
  rw [Option.isSome_iff_exists]
  constructor
  · intro h
    obtain ⟨⟨_, id, comp⟩, hmem, rfl⟩ := List.mem_map.mp h
    exact ⟨id, (Visit.mem_components.mp hmem).1⟩
  · rintro ⟨id, hid⟩
    exact List.mem_map.mpr ⟨(e, id, _), Visit.mem_components.mpr ⟨hid, rfl⟩, rfl⟩

omit [DecidableEq G.Resource] in
theorem loadComponents_settles {c : G.Component} (hc : .component c ∈ reg.types) (v : Visit G)
    (hw' : Toward (Restores reg s w) (RestoresResource reg s) w w') :
    Settles (Restores reg s w) (RestoresResource reg s) w'
      (fun e d => d = .other c ∧ (w.get e .networkId).isSome = true) (fun _ => False)
      (s.loadComponents c v w') := by
  have hids : ∀ e, (w.get e .networkId).isSome = true ↔ e ∈ (v.components c w').map Prod.fst := fun e => by
    rw [mem_rows_iff, toward_networkId hw']
  unfold SaveState.loadComponents
  cases hslab : s.state (.savedComponents c) with
  | some slab =>
    simp only [hids]
    refine loadRows_settles hc hslab _ (v.nodup_query w' _) fun row hrow => ?_
    obtain ⟨hid, hcomp⟩ := Visit.mem_components.mp hrow
    refine ⟨(toward_networkId hw' _).symm.trans hid, ?_, hcomp.symm⟩
    obtain ⟨r, hr, -⟩ := Option.bind_eq_some_iff.mp hid
    rw [hr]
    rfl
  | none =>
    have hwant : ∀ id, s.want c id = none := fun id => by
      rw [SaveState.want, hslab]
      rfl
    have hright : ∀ e, e ∈ (v.components c w').map Prod.fst → Restores reg s w e (.other c) none := by
      intro e he
      obtain ⟨id, hid⟩ := Option.isSome_iff_exists.mp ((hids e).mpr he)
      exact ⟨hc, id, hid, (hwant id).symm⟩
    refine ⟨Toward.refl _, ?_, ?_, fun _ h => h.elim⟩
    · intro command hcommand
      obtain ⟨row, hrow, hsome⟩ := List.mem_filterMap.mp hcommand
      split_ifs at hsome
      cases hsome
      exact hright _ (List.mem_map_of_mem hrow)
    · rintro e d ⟨rfl, he⟩
      rw [hids] at he
      obtain ⟨⟨_, id, comp⟩, hmem, rfl⟩ := List.mem_map.mp he
      have hcomp := (Visit.mem_components.mp hmem).2
      cases hnow : comp with
      | none =>
        left
        rw [← hcomp, hnow]
        exact hright _ he
      | some x =>
        right
        refine ⟨.remove _ (.other c), List.mem_filterMap.mpr ⟨_, hmem, ?_⟩, Or.inr rfl⟩
        rw [hnow]
        rfl

/-- The components that the load system of a type answers for. -/
def Registered.Cells (w : GameWorld G) : Registered G → ℕ → ComponentType G → Prop
  | .component c, e, d => d = .other c ∧ (w.get e .networkId).isSome = true
  | .resource _, _, _ => False

/-- The resource that it answers for. -/
def Registered.Resources : Registered G → ResourceType G → Prop
  | .component _, _ => False
  | .resource r, i => i = r

/-- The load stage makes all registered components and resources those of the save. -/
theorem loadStage_restores (τ : Schedule reg) (s : SaveState G) (w : GameWorld G) :
    ∃ w', Ecs.runStage (τ.systems.map (τ.loadSystem s)) w = some w' ∧
      Toward (Restores reg s w) (RestoresResource reg s) w w' ∧
      (∀ c, .component c ∈ reg.types → ∀ e id, w.get e .networkId = some id →
        w'.get e (.other c) = s.want c id) ∧
      ∀ r, .resource r ∈ reg.types → w'.resources r = s.state (.resource r) := by
  have hsystems : ∀ t ∈ τ.systems, ∀ w', Toward (Restores reg s w) (RestoresResource reg s) w w' →
      Settles (Restores reg s w) (RestoresResource reg s) w' (t.Cells w) t.Resources
        (τ.loadSystem s t w') := by
    intro t ht w' hw'
    have ht := τ.perm.mem_iff.mp ht
    cases t with
    | component c => exact loadComponents_settles ht _ hw'
    | resource r => exact loadResource_settles ht w' _ fun _ _ h => h
  obtain ⟨w', hw', htoward, hdone⟩ := Ecs.runStage_settles hsystems
  refine ⟨w', hw', htoward, ?_, ?_⟩
  · intro c hc e id hid
    obtain ⟨-, id', hid', hx⟩ := (hdone _ (τ.perm.mem_iff.mpr hc)).1 e (.other c)
      ⟨rfl, Option.isSome_iff_exists.mpr ⟨id, hid⟩⟩
    rw [hx, Option.some.inj (hid.symm.trans hid')]
  · intro r hr
    exact ((hdone _ (τ.perm.mem_iff.mpr hr)).2 r rfl).2

end Load

section Rollback

variable [DecidableEq G.Component] [DecidableEq G.Resource] {reg : Registry G}

/-- The network state of the world is that of the saved world, and the other entities are those of the
world before the load. -/
structure Restored (reg : Registry G) (saved before after : GameWorld G) : Prop where
  ids : ∀ id, (∃ e, after.get e .networkId = some id) ↔ ∃ e, saved.get e .networkId = some id
  components : ∀ c, .component c ∈ reg.types → ∀ id x,
    (∃ e, after.get e .networkId = some id ∧ after.get e (.other c) = some x) ↔
      ∃ e, saved.get e .networkId = some id ∧ saved.get e (.other c) = some x
  resources : ∀ r, .resource r ∈ reg.types → after.resources r = saved.resources r
  anonymous : ∀ e row, row .networkId = none → (after.rows e = some row ↔ before.rows e = some row)

theorem load_restored (σ τ : Schedule reg) {w : GameWorld G} (hw : Issued w) (w' : GameWorld G) :
    ∃ w₂, τ.load (σ.save w) w' = some w₂ ∧ Restored reg w w' w₂ ∧ Distinct w₂ := by
  obtain ⟨w₁, hsync, hids, hdistinct, hanonymous⟩ := syncNetworkIds_synced (σ.save w) τ.ids w'
  obtain ⟨w₂, hload, htoward, hcomponents, hresources⟩ := loadStage_restores τ (σ.save w) w₁
  have hsame := toward_networkId htoward
  refine ⟨w₂, ?_, ⟨?_, ?_, ?_, ?_⟩, ?_⟩
  · rw [Schedule.load, hsync]
    exact hload
  · intro id
    simp only [hsame]
    rw [hids, mem_save_ids]
  · intro c hc id x
    constructor
    · rintro ⟨e, hid, hx⟩
      rw [hsame] at hid
      rw [hcomponents c hc e id hid] at hx
      exact (save_want σ hw.1 hc).mp hx
    · rintro ⟨e, hid, hx⟩
      obtain ⟨e', hid'⟩ := (hids id).mpr ((mem_save_ids σ w).mpr ⟨e, hid⟩)
      refine ⟨e', (hsame e').trans hid', ?_⟩
      rw [hcomponents c hc e' id hid']
      exact (save_want σ hw.1 hc).mpr ⟨e, hid, hx⟩
  · intro r hr
    exact (hresources r hr).trans (save_state σ w hr)
  · intro e row hrow
    rw [← hanonymous e row hrow]
    have hkept : w₁.get e .networkId = none → w₂.rows e = w₁.rows e := fun hnone =>
      htoward.row fun c hc => by
        cases c with
        | networkId => exact hc
        | other c =>
          obtain ⟨-, id, hid, -⟩ := hc
          cases hnone.symm.trans hid
    constructor
    · intro h
      have hnone : w₁.get e .networkId = none := by
        rw [← hsame, Ecs.World.get, h]
        exact hrow
      exact (hkept hnone).symm.trans h
    · intro h
      have hnone : w₁.get e .networkId = none := by
        rw [Ecs.World.get, h]
        exact hrow
      exact (hkept hnone).trans h
  · intro e e' id he he'
    rw [hsame] at he he'
    exact hdistinct e e' id he he'

theorem load_issued (σ τ : Schedule reg) {w w' w₂ : GameWorld G} (hw : Issued w)
    (h : τ.load (σ.save w) w' = some w₂) : Issued w₂ := by
  obtain ⟨w₃, hload, hrestored, hdistinct⟩ := load_restored σ τ hw w'
  cases h.symm.trans hload
  obtain ⟨provider, hprovider, hissued⟩ := hw.2
  refine ⟨hdistinct, provider, (hrestored.resources _ reg.provider).trans hprovider, ?_⟩
  intro e id hid
  obtain ⟨e', hid'⟩ := (hrestored.ids id).mp ⟨e, hid⟩
  exact hissued e' id hid'

/-- What happens to a world in a session: what systems do, with ids from the provider, and rollbacks. -/
inductive Change (reg : Registry G) (w : GameWorld G) : GameWorld G → Prop
  | spawn (row) (h : row .networkId = none) : Change reg w (w.spawn row)
  | despawn (e) : Change reg w (w.despawn e)
  | component (e c x) : Change reg w (w.set e (.other c) x)
  | resource (r x) : Change reg w (w.setResource (.other r) x)
  | removeId (e) : Change reg w (w.set e .networkId none)
  | insertId (e) {provider provider' id} (h : w.resources .networkIdProvider = some provider)
    (hnew : provider.newId = .ok (id, provider')) :
    Change reg w ((w.setResource .networkIdProvider (some provider')).set e .networkId (some id))
  | rollback (σ τ : Schedule reg) {saved w'} (hsaved : Issued saved)
    (h : τ.load (σ.save saved) w = some w') : Change reg w w'

theorem Change.issued {w w' : GameWorld G} (h : Change reg w w') (hw : Issued w) : Issued w' := by
  obtain ⟨hdistinct, provider, hprovider, hissued⟩ := hw
  -- Where no id is new and the provider stays, there is nothing to show.
  have hfewer : ∀ w' : GameWorld G, w'.resources .networkIdProvider = some provider →
      (∀ e id, w'.get e .networkId = some id → w.get e .networkId = some id) → Issued w' :=
    fun w' hp hsub => ⟨fun e e' id he he' => hdistinct e e' id (hsub e id he) (hsub e' id he'),
      provider, hp, fun e id he => hissued e id (hsub e id he)⟩
  cases h with
  | spawn row hrow =>
    refine hfewer _ hprovider fun e id he => ?_
    rw [Ecs.get_spawn] at he
    split_ifs at he
    · cases hrow.symm.trans he
    · exact he
  | despawn i =>
    refine hfewer _ hprovider fun e id he => ?_
    rw [Ecs.get_despawn] at he
    split_ifs at he
    exact he
  | component i c x =>
    exact hfewer _ hprovider fun e id he => by rwa [Ecs.get_set_ne _ _ (by simp)] at he
  | resource r x =>
    exact hfewer _ ((Ecs.resources_setResource_ne w x (by simp)).trans hprovider) fun e id he => he
  | removeId i =>
    refine hfewer _ hprovider fun e id he => ?_
    by_cases hi : e = i
    · rw [hi, Ecs.get_set, ite_self] at he
      cases he
    · rwa [Ecs.get_set_ne _ _ fun h => hi h.1] at he
  | @insertId i provider' next id hp hnew =>
    cases hprovider.symm.trans hp
    unfold NetworkIdProvider.newId at hnew
    split_ifs at hnew
    cases hnew
    have hids : ∀ e id, ((w.setResource .networkIdProvider (some ⟨provider.next + 1⟩)).set i
        .networkId (some ⟨provider.next⟩)).get e .networkId = some id →
        e = i ∧ id = ⟨provider.next⟩ ∨ e ≠ i ∧ w.get e .networkId = some id := by
      intro e id he
      by_cases hi : e = i
      · left
        rw [hi, Ecs.get_set] at he
        split_ifs at he
        exact ⟨hi, (Option.some.inj he).symm⟩
      · right
        rw [Ecs.get_set_ne _ _ fun h => hi h.1] at he
        exact ⟨hi, he⟩
    refine ⟨?_, ⟨provider.next + 1⟩, ?_, ?_⟩
    · intro e e' id he he'
      rcases hids e id he with ⟨rfl, hid⟩ | ⟨-, hold⟩ <;> rcases hids e' id he' with ⟨rfl, hid'⟩ | ⟨-, hold'⟩
      · rfl
      · have hlt := hissued e' id hold'
        rw [hid] at hlt
        exact absurd hlt (lt_irrefl _)
      · have hlt := hissued e id hold
        rw [hid'] at hlt
        exact absurd hlt (lt_irrefl _)
      · exact hdistinct e e' id hold hold'
    · rw [Ecs.resources_set, Ecs.resources_setResource]
    · intro e id he
      rcases hids e id he with ⟨-, rfl⟩ | ⟨-, hold⟩
      · exact Nat.lt_succ_self _
      · exact (hissued e id hold).trans (Nat.lt_succ_self _)
  | rollback σ τ hsaved hload => exact load_issued σ τ hsaved hload

/-- Whatever the world became since the save, loading it restores the network state, and the ids stay
distinct and below the counter whatever happens then. -/
theorem load_restores (σ τ : Schedule reg) {w : GameWorld G} (hw : Issued w) (w' : GameWorld G) :
    ∃ w₂, τ.load (σ.save w) w' = some w₂ ∧ Restored reg w w' w₂ ∧
      ∀ w₃, Relation.ReflTransGen (Change reg) w₂ w₃ → Issued w₃ := by
  obtain ⟨w₂, hload, hrestored, -⟩ := load_restored σ τ hw w'
  refine ⟨w₂, hload, hrestored, fun w₃ hlater => ?_⟩
  induction hlater with
  | refl => exact load_issued σ τ hw hload
  | tail _ hstep ih => exact hstep.issued ih

/-- A game with one kind of component. -/
abbrev scores : Game := ⟨Unit, fun _ => ℕ, Empty, fun _ => Unit⟩

/-- The entity with the score was despawned since the save. -/
theorem load_restores_despawned :
    let reg : Registry scores :=
      ⟨[.component (), .resource .networkIdProvider], List.mem_cons_of_mem _ (List.mem_singleton_self _)⟩
    let blank : GameWorld scores := Ecs.World.empty.setResource .networkIdProvider (some .new)
    let w := (((blank.spawn fun _ => none).setResource .networkIdProvider (some ⟨1⟩)).set 0 .networkId
      (some ⟨0⟩)).set 0 (.other ()) (some 5)
    ∃ w₂, (Schedule.ascending reg).load ((Schedule.ascending reg).save w) (w.despawn 0) = some w₂ ∧
      Restored reg w (w.despawn 0) w₂ ∧ ∀ w₃, Relation.ReflTransGen (Change reg) w₂ w₃ → Issued w₃ := by
  intro reg blank w
  have hblank : Issued blank := by
    refine ⟨fun e e' id h _ => ?_, .new, Ecs.resources_setResource _ _ _, fun e id h => ?_⟩ <;> cases h
  have hspawn : Change reg blank (blank.spawn fun _ => none) := .spawn _ rfl
  have hid : Change reg (blank.spawn fun _ => none)
      (((blank.spawn fun _ => none).setResource .networkIdProvider (some ⟨1⟩)).set 0 .networkId
        (some ⟨0⟩)) := .insertId 0 rfl rfl
  have hw : Issued w :=
    (@Change.component scores _ _ reg _ 0 () (some 5)).issued (hid.issued (hspawn.issued hblank))
  exact load_restores (Schedule.ascending reg) (Schedule.ascending reg) hw (w.despawn 0)

end Rollback

end Backroll

import Mathlib.Logic.Function.Basic
import Mathlib.Tactic.Tauto

/-! Programs that save their state to cells, load it back and step it, and when the cells that
a program saves to may be cleared before it runs. -/
namespace Snapshots

variable {κ σ : Type}

inductive Op (κ σ : Type)
  | save (cell : κ)
  | load (cell : κ)
  | run (step : σ → σ)

/-- The program loads what the cell held before it. -/
def Exposes (c : κ) : List (Op κ σ) → Prop
  | [] => False
  | .save c' :: ops => c ≠ c' ∧ Exposes c ops
  | .load c' :: ops => c = c' ∨ Exposes c ops
  | .run _ :: ops => Exposes c ops

/-- No cell is loaded from before the program and saved to by it. -/
def Undisturbed (ops : List (Op κ σ)) : Prop := ∀ c, Exposes c ops → Op.save c ∉ ops

theorem exposes_append {c : κ} {ops more : List (Op κ σ)} :
    Exposes c (ops ++ more) ↔ Exposes c ops ∨ Op.save c ∉ ops ∧ Exposes c more := by
  induction ops with
  | nil => simp [Exposes]
  | cons op ops ih =>
    cases op with
    | save c' =>
      simp only [List.cons_append, Exposes, ih, List.mem_cons, Op.save.injEq, not_or]
      tauto
    | load c' =>
      simp only [List.cons_append, Exposes, ih, List.mem_cons, reduceCtorEq, false_or]
      tauto
    | run step => simp only [List.cons_append, Exposes, ih, List.mem_cons, reduceCtorEq, false_or]

theorem undisturbed_nil : Undisturbed ([] : List (Op κ σ)) := fun _ h => h.elim

/-- A program may go on as long as it leaves alone what it has loaded and not yet saved. -/
theorem Undisturbed.append {ops more : List (Op κ σ)} (h : Undisturbed ops)
    (hold : ∀ c, Exposes c ops → Op.save c ∉ more)
    (hnew : ∀ c, Exposes c more → Op.save c ∉ ops → Op.save c ∉ more) :
    Undisturbed (ops ++ more) := by
  intro c hc
  rw [List.mem_append, not_or]
  rcases exposes_append.mp hc with hops | ⟨hnot, hmore⟩
  · exact ⟨h c hops, hold c hops⟩
  · exact ⟨hnot, hnew c hmore hnot⟩

theorem Undisturbed.prepend {ops more : List (Op κ σ)} (h : Undisturbed more)
    (hops : ∀ c, ¬Exposes c ops) : Undisturbed (ops ++ more) := by
  intro c hc
  rw [List.mem_append, not_or]
  rcases exposes_append.mp hc with hold | ⟨hnot, hmore⟩
  · exact absurd hold (hops c)
  · exact ⟨hnot, h c hmore⟩

variable [DecidableEq κ]

/-- Loading a cell that holds nothing is a fault. -/
def exec : List (Op κ σ) → (κ → Option σ) → σ → Option ((κ → Option σ) × σ)
  | [], cells, s => some (cells, s)
  | .save c :: ops, cells, s => exec ops (Function.update cells c (some s)) s
  | .load c :: ops, cells, _ => (cells c).bind (exec ops cells)
  | .run step :: ops, cells, s => exec ops cells (step s)

/-- The cells before the program runs, without those it saves to. -/
def clear : List (Op κ σ) → (κ → Option σ) → κ → Option σ
  | [], cells => cells
  | .save c :: ops, cells => clear ops (Function.update cells c none)
  | .load _ :: ops, cells => clear ops cells
  | .run _ :: ops, cells => clear ops cells

/-- What a program does depends only on the cells it loads before it saves to them. -/
theorem exec_congr {ops : List (Op κ σ)} {cells cells' r : κ → Option σ} {s t : σ}
    (hagree : ∀ c, Exposes c ops → cells' c = cells c)
    (h : exec ops cells s = some (r, t)) : ∃ r', exec ops cells' s = some (r', t) ∧
      ∀ c, Op.save c ∈ ops ∨ cells' c = cells c → r' c = r c := by
  induction ops generalizing cells cells' s with
  | nil =>
    obtain ⟨rfl, rfl⟩ := Prod.mk.inj (Option.some.inj h)
    exact ⟨cells', rfl, by simp⟩
  | cons op ops ih =>
    cases op with
    | save c =>
      have hagree' : ∀ c', Exposes c' ops →
          Function.update cells' c (some s) c' = Function.update cells c (some s) c' := by
        intro c' hc'
        by_cases heq : c' = c
        · simp [heq]
        · rw [Function.update_of_ne heq, Function.update_of_ne heq]
          exact hagree c' ⟨heq, hc'⟩
      obtain ⟨r', hr', hsame⟩ := ih hagree' h
      refine ⟨r', hr', fun c' hc' => hsame c' ?_⟩
      by_cases heq : c' = c
      · exact .inr (by simp [heq])
      · rw [Function.update_of_ne heq, Function.update_of_ne heq]
        simpa [heq] using hc'
    | load c =>
      have hc := hagree c (.inl rfl)
      simp only [exec] at h ⊢
      rw [hc]
      cases hcell : cells c with
      | none => simp [hcell] at h
      | some u =>
        rw [hcell, Option.bind_some] at h
        obtain ⟨r', hr', hsame⟩ := ih (fun c' hc' => hagree c' (.inr hc')) h
        exact ⟨r', hr', fun c' hc' => hsame c' (by simpa using hc')⟩
    | run step =>
      obtain ⟨r', hr', hsame⟩ := ih hagree h
      exact ⟨r', hr', fun c' hc' => hsame c' (by simpa using hc')⟩

theorem clear_of_not_mem {ops : List (Op κ σ)} {c : κ} (h : Op.save c ∉ ops)
    (cells : κ → Option σ) : clear ops cells c = cells c := by
  induction ops generalizing cells with
  | nil => rfl
  | cons op ops ih =>
    have hrest : Op.save c ∉ ops := fun hmem => h (List.mem_cons_of_mem _ hmem)
    cases op with
    | save c' =>
      have hne : c ≠ c' := by
        rintro rfl
        exact h List.mem_cons_self
      rw [clear, ih hrest, Function.update_of_ne hne]
    | load c' => exact ih hrest cells
    | run step => exact ih hrest cells

/-- Clearing the cells that are saved to disturbs nothing: every cell loaded is then saved
before, or not at all. -/
theorem exec_clear {ops : List (Op κ σ)} {cells r : κ → Option σ} {s t : σ}
    (hu : Undisturbed ops) (h : exec ops cells s = some (r, t)) :
    exec ops (clear ops cells) s = some (r, t) := by
  obtain ⟨r', hr', hsame⟩ := exec_congr
    (fun c hc => clear_of_not_mem (hu c hc) cells) h
  rw [hr']
  congr 2
  funext c
  by_cases hc : Op.save c ∈ ops
  · exact hsame c (.inl hc)
  · exact hsame c (.inr (clear_of_not_mem hc cells))

end Snapshots

import Mathlib.Data.Fin.Basic
import Mathlib.Tactic.Ring
import Mathlib.Logic.Function.Basic

/-! A ring of cells as a window on a growing log: entry `j` of the log is written to cell
`j` modulo the size of the ring, over whatever the cell held before. -/
namespace Cyclic

variable {n : ℕ} [NeZero n] {α : Type}

/-- The cell of position `j`. -/
def cell (n : ℕ) [NeZero n] (j : ℕ) : Fin n := Fin.ofNat n j

theorem cell_succ (j : ℕ) : cell n j + 1 = cell n (j + 1) := by
  apply Fin.ext
  simp [cell, Fin.val_add, Nat.add_mod]

theorem cell_eq_iff {i j : ℕ} : cell n i = cell n j ↔ i % n = j % n := by
  simp [cell, Fin.ext_iff]

theorem cell_ne {i j : ℕ} (hij : i < j) (hj : j < i + n) : cell n i ≠ cell n j := by
  intro h
  have hmod : (j - i) % n = 0 := Nat.sub_mod_eq_zero_of_mod_eq (cell_eq_iff.mp h).symm
  have := Nat.le_of_dvd (by omega) (Nat.dvd_of_mod_eq_zero hmod)
  omega

/-- The last `n` entries of the log are in their cells; a cell not yet reached is blank. -/
structure Holds (cells : Fin n → α) (blank : α) (log : List α) : Prop where
  recent : ∀ j x, log[j]? = some x → log.length ≤ j + n → cells (cell n j) = x
  unused : ∀ j, log.length ≤ j → j < n → cells (cell n j) = blank

theorem holds_nil (blank : α) : Holds (fun _ : Fin n => blank) blank [] :=
  ⟨by simp, by simp⟩

/-- Writing the next entry over the oldest one. -/
theorem Holds.push {cells : Fin n → α} {blank : α} {log : List α} (h : Holds cells blank log)
    (x : α) : Holds (Function.update cells (cell n log.length) x) blank (log ++ [x]) := by
  constructor
  · intro j y hy hj
    rw [List.length_append, List.length_singleton] at hj
    rcases Nat.lt_trichotomy j log.length with hlt | rfl | hgt
    · rw [Function.update_of_ne (cell_ne hlt (by omega))]
      rw [List.getElem?_append_left hlt] at hy
      exact h.recent j y hy (by omega)
    · obtain rfl : x = y := by simpa using hy
      exact Function.update_self _ _ _
    · rw [List.getElem?_eq_none (by rw [List.length_append, List.length_singleton]; omega)] at hy
      cases hy
  · intro j hj hjn
    rw [List.length_append, List.length_singleton] at hj
    rw [Function.update_of_ne (cell_ne (by omega) (by omega)).symm]
    exact h.unused j (by omega) hjn

/-- The cell before the one to be written next holds the last entry. -/
theorem Holds.last {cells : Fin n → α} {blank : α} {log : List α} (h : Holds cells blank log) :
    cells (cell n (log.length + (n - 1))) = log.getLast?.getD blank := by
  have hn : 0 < n := Nat.pos_of_neZero n
  rcases List.eq_nil_or_concat log with rfl | ⟨xs, x, rfl⟩
  · exact h.unused _ (by simp) (by simp only [List.length_nil]; omega)
  · have hcell : cell n ((xs ++ [x]).length + (n - 1)) = cell n xs.length := by
      rw [cell_eq_iff, List.length_append, List.length_singleton,
        show xs.length + 1 + (n - 1) = xs.length + n by omega, Nat.add_mod_right]
    rw [List.concat_eq_append, hcell]
    rw [List.concat_eq_append] at h
    simpa using h.recent xs.length x (by simp) (by simp; omega)

/-- A cell that is not blank holds an entry of the log. -/
theorem Holds.blank_or_entry {cells : Fin n → α} {blank : α} {log : List α}
    (h : Holds cells blank log) (c : Fin n) :
    cells c = blank ∨ ∃ j : ℕ, log[j]? = some (cells c) := by
  by_cases hlen : log.length ≤ c
  · left
    have hcell : cell n c.val = c := Fin.ext (Nat.mod_eq_of_lt c.isLt)
    rw [← hcell]
    exact h.unused c hlen c.isLt
  · right
    obtain ⟨j, hj⟩ : ∃ j, j = c.val + n * ((log.length - 1 - c) / n) := ⟨_, rfl⟩
    have hdiv := Nat.div_add_mod (log.length - 1 - c) n
    have hmod := Nat.mod_lt (log.length - 1 - c) (Nat.pos_of_neZero n)
    have hlt : j < log.length := by omega
    have hcell : cell n j = c := by
      rw [hj]
      exact Fin.ext ((Nat.add_mul_mod_self_left _ _ _).trans (Nat.mod_eq_of_lt c.isLt))
    refine ⟨j, ?_⟩
    rw [← hcell, h.recent j log[j] (by simp [hlt]) (by omega)]
    exact List.getElem?_eq_getElem hlt

end Cyclic

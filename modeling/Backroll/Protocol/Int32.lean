import Backroll.Basic
import Mathlib.Algebra.BigOperators.Group.List.Basic
import Mathlib.Algebra.Order.Ring.Int
import Mathlib.Algebra.Order.Group.Abs

/-! The `i32` arithmetic of what comes off the wire: a result that leaves the type is a fault or
wraps around, as the profile has it. -/
namespace Backroll

open Fallible (Ends walk)

/-- The values of an `i32`. -/
abbrev InI32 (x : ℤ) : Prop := -2 ^ 31 ≤ x ∧ x < 2 ^ 31

/-- The `i32` with the low bits of an integer. -/
def wrapI32 (x : ℤ) : ℤ := (x + 2 ^ 31) % 2 ^ 32 - 2 ^ 31

/-- `as i32`. -/
def asI32 (n : ℕ) : ℤ := wrapI32 n

/-- The result of an addition, a subtraction or a sum, checked. -/
def checkI32 (x : ℤ) : Except Panic ℤ := if InI32 x then .ok x else .error .arithmeticOverflow

/-- The result as the profile has it. -/
def i32 [Build] (x : ℤ) : Except Panic ℤ :=
  if Build.debugAssertions then checkI32 x else .ok (wrapI32 x)

/-- `iter().sum()`. -/
def sumI32 (i32 : ℤ → Except Panic ℤ) (l : List ℤ) : Except Panic ℤ :=
  walk (fun x sum => i32 (sum + x)) l 0

theorem wrapI32_of {x : ℤ} (h : InI32 x) : wrapI32 x = x := by
  unfold wrapI32
  omega

theorem asI32_of_lt {n : ℕ} (h : n < 2 ^ 31) : asI32 n = n := wrapI32_of ⟨by omega, by omega⟩

theorem checkI32_of {x : ℤ} (h : InI32 x) : checkI32 x = .ok x := if_pos h

theorem checkI32_of_not {x : ℤ} (h : ¬InI32 x) : checkI32 x = .error .arithmeticOverflow := if_neg h

theorem i32_ends [Build] (x : ℤ) : Ends (i32 x) (fun y => y = wrapI32 x)
    fun e => e = .arithmeticOverflow ∧ Build.debugAssertions = true ∧ ¬InI32 x := by
  unfold i32
  split
  · next hdebug =>
    by_cases hx : InI32 x
    · rw [checkI32_of hx]
      exact (wrapI32_of hx).symm
    · rw [checkI32_of_not hx]
      exact ⟨rfl, hdebug, hx⟩
  · rfl

/-- No sum on the way leaves the type. -/
def Sums (l : List ℤ) : Prop := ∀ k < l.length, InI32 (l.take (k + 1)).sum

theorem walk_checkI32 (l : List ℤ) (acc : ℤ) :
    ((∀ k < l.length, InI32 (acc + (l.take (k + 1)).sum)) →
      walk (fun x sum => checkI32 (sum + x)) l acc = .ok (acc + l.sum)) ∧
    ((¬∀ k < l.length, InI32 (acc + (l.take (k + 1)).sum)) →
      walk (fun x sum => checkI32 (sum + x)) l acc = .error .arithmeticOverflow) := by
  induction l generalizing acc with
  | nil => simp
  | cons x l ih =>
    have hsplit : (∀ k < (x :: l).length, InI32 (acc + ((x :: l).take (k + 1)).sum)) ↔
        InI32 (acc + x) ∧ ∀ k < l.length, InI32 (acc + x + (l.take (k + 1)).sum) := by
      constructor
      · intro h
        refine ⟨by simpa using h 0 (Nat.succ_pos _), fun k hk => ?_⟩
        have := h (k + 1) (Nat.succ_lt_succ hk)
        rwa [List.take_succ_cons, List.sum_cons, ← add_assoc] at this
      · rintro ⟨hx, hl⟩ k hk
        cases k with
        | zero => simpa using hx
        | succ k =>
          rw [List.take_succ_cons, List.sum_cons, ← add_assoc]
          exact hl k (Nat.lt_of_succ_lt_succ hk)
    rw [hsplit, Fallible.walk_cons]
    by_cases hx : InI32 (acc + x)
    · rw [checkI32_of hx, Fallible.ok_bind, List.sum_cons, ← add_assoc]
      exact ⟨fun h => (ih _).1 h.2, fun h => (ih _).2 fun hl => h ⟨hx, hl⟩⟩
    · rw [checkI32_of_not hx]
      exact ⟨fun h => absurd h.1 hx, fun _ => rfl⟩

theorem sumI32_of {l : List ℤ} (h : Sums l) : sumI32 checkI32 l = .ok l.sum := by
  rw [sumI32, (walk_checkI32 l 0).1 (by simpa only [Sums, zero_add] using h), zero_add]

theorem sumI32_of_not {l : List ℤ} (h : ¬Sums l) :
    sumI32 checkI32 l = .error .arithmeticOverflow :=
  (walk_checkI32 l 0).2 (by simpa only [Sums, zero_add] using h)

/-- The values sum up in any case unless the profile checks for what leaves the type. -/
theorem sumI32_ends [Build] (l : List ℤ) : Ends (sumI32 i32 l) (fun _ => True)
    fun e => e = .arithmeticOverflow ∧ Build.debugAssertions = true ∧ ¬Sums l := by
  by_cases hdebug : Build.debugAssertions = true
  · have hcheck : (i32 : ℤ → Except Panic ℤ) = checkI32 := funext fun x => if_pos hdebug
    rw [hcheck]
    by_cases hsums : Sums l
    · rw [sumI32_of hsums]
      trivial
    · rw [sumI32_of_not hsums]
      exact ⟨rfl, hdebug, hsums⟩
  · refine Fallible.walk_ends (fun _ _ => True) (fun x l sum _ => ?_) trivial
    unfold i32
    rw [if_neg hdebug]
    trivial

theorem abs_sum_le {l : List ℤ} {bound : ℤ} (h : ∀ x ∈ l, |x| ≤ bound) :
    |l.sum| ≤ l.length * bound := by
  induction l with
  | nil => simp
  | cons x l ih =>
    have hx := h x List.mem_cons_self
    have hrest := ih fun y hy => h y (List.mem_cons_of_mem x hy)
    have habs := abs_add_le x l.sum
    rw [List.sum_cons, List.length_cons]
    push_cast
    rw [add_mul, one_mul]
    omega

/-- Small values do not sum up to one that leaves the type. -/
theorem sums_of_le {l : List ℤ} {b : ℤ} (h : ∀ x ∈ l, |x| ≤ b)
    (hlength : l.length * b < 2 ^ 31) : Sums l := by
  intro k hk
  have htake := abs_sum_le fun x hx => h x (List.mem_of_mem_take (i := k + 1) hx)
  have hbound : 0 ≤ b := (abs_nonneg _).trans (h l[k] (List.getElem_mem hk))
  have hle : ((l.take (k + 1)).length : ℤ) * b ≤ l.length * b :=
    mul_le_mul_of_nonneg_right (by exact_mod_cast List.length_take_le' _ _) hbound
  have habs := abs_le.mp (htake.trans hle)
  exact ⟨by omega, by omega⟩

end Backroll

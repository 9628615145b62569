import Backroll.Input.LogQueue

/-! What a queue without a known wrong prediction knows about the prediction it is making. -/
namespace Backroll

namespace LogQueue

variable {I : Type} [Zeroable I] [BEq I]

/-- While no wrong prediction is known, every input stored since the current prediction began
compares equal to it, and the prediction is still awaited. -/
def Sound (a : LogQueue I) : Prop :=
  isNull a.incorrect → ∀ k ∈ a.guess, k ≤ a.log.length ∧ (a.log.length : ℤ) ≤ a.requested ∧
    ∀ j x, k ≤ j → a.log[j]? = some x → basis a.log k == x

theorem sound_of_idle {a : LogQueue I} (hg : a.guess = none) : a.Sound := by
  simp [Sound, hg]

/-- A stored input that leaves the queue unmarked compares equal to the prediction. -/
theorem unmarked_store {a : LogQueue I} {label : ℤ} {x : I}
    (h : isNull (a.store label x).incorrect) : isNull a.incorrect ∧
      ∀ k ∈ a.guess, ((⟨a.log.length, basis a.log k⟩ : FrameInput I) == ⟨label, x⟩) = true := by
  rw [incorrect_store, marked] at h
  cases hg : a.guess with
  | none => exact ⟨by simpa [hg] using h, by simp⟩
  | some k =>
    simp only [hg] at h
    split at h
    · simp only [isNull] at h
      omega
    · next hcond =>
      refine ⟨h, fun k' hk' => ?_⟩
      obtain rfl : k = k' := by simpa using hk'
      by_contra hne
      exact hcond ⟨h, by simpa [bne] using hne⟩

/-- A prediction under way is still awaited. -/
theorem Sound.guess_eq {a : LogQueue I} (ha : a.Sound) (h : isNull a.incorrect) :
    a.guess = if a.requested < a.log.length then none else a.guess := by
  split
  · next hlt =>
    cases hg : a.guess with
    | none => rfl
    | some k => exact absurd (ha h k hg).2.1 (not_le.mpr hlt)
  · rfl

/-- Leaving prediction mode is storing the last requested frame. -/
theorem guess_store {a : LogQueue I} (ha : a.Sound) {label : ℤ} {x : I}
    (h : isNull (a.store label x).incorrect) : (a.store label x).guess =
      if a.requested < (a.store label x).log.length then none else a.guess := by
  have hnull := (unmarked_store h).1
  cases hg : a.guess with
  | none => simp [store, hg]
  | some k =>
    obtain ⟨-, hreq, -⟩ := ha hnull k hg
    have hcond : ((a.log.length : ℤ) = a.requested ∧ isNull (a.marked label x)) ↔
        a.requested < (a.store label x).log.length := by
      rw [incorrect_store] at h
      rw [log_store, List.length_append, List.length_singleton]
      push_cast
      constructor
      · omega
      · exact fun hlt => ⟨by omega, h⟩
    show (if _ then none else a.guess) = _
    rw [hg]
    exact if_congr hcond rfl rfl

theorem Sound.store {a : LogQueue I} (ha : a.Sound) (label : ℤ) (x : I) :
    (a.store label x).Sound := by
  intro hnull k hk
  obtain ⟨hnull', heq⟩ := unmarked_store hnull
  have hguess := guess_store ha hnull
  rw [hguess] at hk
  split at hk
  · simp at hk
  · next hreq =>
    obtain ⟨hk1, -, hsince⟩ := ha hnull' k hk
    rw [log_store, basis_append hk1]
    refine ⟨by rw [List.length_append]; omega, by simpa using hreq, fun j y hj hy => ?_⟩
    rcases Nat.lt_or_ge j a.log.length with hlt | hge
    · rw [List.getElem?_append_left hlt] at hy
      exact hsince j y hj hy
    · rw [List.getElem?_append_right hge] at hy
      obtain ⟨-, rfl⟩ : j - a.log.length = 0 ∧ x = y := by
        rcases hd : j - a.log.length with _ | d
        · simpa [hd] using hy
        · simp [hd] at hy
      have := heq k hk
      rw [FrameInput.beq_eq, Bool.and_eq_true] at this
      exact this.2

theorem Sound.pad {a : LogQueue I} (ha : a.Sound) (count : ℕ) : (pad count a).Sound := by
  induction count generalizing a with
  | zero => exact ha
  | succ count ih => exact ih (ha.store _ _)

theorem isNull_of_pad {a : LogQueue I} {count : ℕ} (h : isNull (pad count a).incorrect) :
    isNull a.incorrect := by
  induction count generalizing a with
  | zero => exact h
  | succ count ih => exact (unmarked_store (ih h)).1

theorem guess_pad {a : LogQueue I} (ha : a.Sound) {count : ℕ}
    (h : isNull (pad count a).incorrect) : (pad count a).guess =
      if a.requested < (pad count a).log.length then none else a.guess := by
  induction count generalizing a with
  | zero => exact ha.guess_eq h
  | succ count ih =>
    have hlen : ((a.store (a.log.length - 1) (lastOf a.log)).log.length : ℤ) ≤
        (pad count (a.store (a.log.length - 1) (lastOf a.log))).log.length := by
      rw [log_pad, List.length_append]
      omega
    rw [pad, ih (ha.store _ _) h, guess_store ha (isNull_of_pad h), requested_store]
    split_ifs <;> first | rfl | omega

theorem Sound.get {a : LogQueue I} (ha : a.Sound) {frame : ℕ} (h : a.requested ≤ frame) :
    (a.get frame).2.Sound := by
  cases hg : a.guess with
  | some k =>
    rw [get_of_guess hg]
    intro hnull k' hk'
    obtain ⟨h1, h2, h3⟩ := ha hnull k' hk'
    exact ⟨h1, by dsimp only at h2 ⊢; omega, h3⟩
  | none =>
    rcases Nat.lt_or_ge frame a.log.length with hlt | hge
    · rw [get_of_lt hg hlt]
      exact sound_of_idle hg
    · rw [get_of_ge hg hge]
      intro _ k hk
      obtain rfl : a.log.length = k := by simpa using hk
      refine ⟨le_rfl, by dsimp only; omega, fun j x hj hx => ?_⟩
      rw [List.getElem?_eq_none hj] at hx
      cases hx

theorem Sound.add {a : LogQueue I} (ha : a.Sound) (x : FrameInput I) : (a.add x).Sound := by
  have ha' : LogQueue.Sound { a with lastUser := x.frame } := ha
  rw [LogQueue.add]
  split
  · exact ha'
  · exact (ha'.pad _).store _ _

theorem guess_add {a : LogQueue I} (ha : a.Sound) {x : FrameInput I}
    (h : isNull (a.add x).incorrect) : isNull a.incorrect ∧ (a.add x).guess =
      if a.requested < (a.add x).log.length then none else a.guess := by
  have ha' : LogQueue.Sound { a with lastUser := x.frame } := ha
  rw [LogQueue.add] at h ⊢
  dsimp only at h ⊢
  split at h
  · next htaken =>
    rw [if_pos htaken]
    exact ⟨h, ha'.guess_eq h⟩
  · next hfree =>
    rw [if_neg hfree]
    have hpad := (unmarked_store h).1
    have hnull := isNull_of_pad hpad
    refine ⟨hnull, ?_⟩
    rw [guess_store (ha'.pad _) h, guess_pad ha' hpad, requested_pad, log_store, List.length_append]
    push_cast
    split_ifs <;> first | rfl | omega

theorem sound_reset (a : LogQueue I) : a.reset.Sound := sound_of_idle rfl

/-- Where comparing equal is being equal, a sound prediction carries the last input. -/
theorem Sound.basis_eq_lastOf [LawfulBEq I] {a : LogQueue I} (ha : a.Sound)
    (hnull : isNull a.incorrect) {k : ℕ} (hk : k ∈ a.guess) :
    basis a.log k = lastOf a.log := by
  obtain ⟨hle, -, hsince⟩ := ha hnull k hk
  rcases hle.lt_or_eq with hlt | rfl
  · have hne : a.log ≠ [] := fun hnil => by simp [hnil] at hlt
    have hlast : a.log[a.log.length - 1]? = some (lastOf a.log) := by
      rw [← List.getLast?_eq_getElem?, lastOf, List.getLast?_eq_some_getLast hne]
      rfl
    exact eq_of_beq (hsince _ _ (by omega) hlast)
  · exact basis_length a.log

end LogQueue

end Backroll

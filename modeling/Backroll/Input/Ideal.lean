import Backroll.Input.Prediction

/-! What a simulation may rely on that takes its inputs from a queue: until the queue reports a
wrong prediction, the inputs taken are those the log would give now. -/
namespace Backroll

namespace LogQueue

variable {I : Type}

/-- A frame that the queue does not say was simulated with a wrong input. -/
def Trusted (a : LogQueue I) (frame : ℕ) : Prop := isNull a.incorrect ∨ frame < a.incorrect

/-- A queue that is not predicting has stored whatever was requested. -/
def Awaits (a : LogQueue I) : Prop :=
  isNull a.incorrect → a.guess = none → a.requested < a.log.length

theorem awaits_new (delay : ℤ) : (LogQueue.new delay : LogQueue I).Awaits := by
  intro _ _
  show (-1 : ℤ) < 0
  decide

theorem awaits_reset (a : LogQueue I) : a.reset.Awaits := by
  intro _ _
  show (-1 : ℤ) < a.log.length
  omega

variable [Zeroable I]

theorem awaits_get (a : LogQueue I) (frame : ℕ) : (a.get frame).2.Awaits := by
  intro _ hnone
  cases hg : a.guess with
  | some k => simp [get_of_guess hg, hg] at hnone
  | none =>
    rcases Nat.lt_or_ge frame a.log.length with hlt | hge
    · rw [get_of_lt hg hlt]
      dsimp only
      omega
    · simp [get_of_ge hg hge] at hnone

/-- The input of a frame as far as it is known: the one stored for it, else the last one. -/
def ideal (log : List I) (frame : ℕ) : I := log[frame]?.getD (lastOf log)

theorem ideal_of_lt {log : List I} {frame : ℕ} (h : frame < log.length) :
    ideal log frame = log[frame] := by
  simp [ideal, h]

theorem ideal_of_le {log : List I} {frame : ℕ} (h : log.length ≤ frame) :
    ideal log frame = lastOf log := by
  simp [ideal, h]

theorem ideal_append_of_lt {log : List I} {frame : ℕ} (h : frame < log.length) (xs : List I) :
    ideal (log ++ xs) frame = ideal log frame := by
  rw [ideal, ideal, List.getElem?_append_left h, List.getElem?_eq_getElem h]
  rfl

/-- Repeating the last input changes nothing. -/
theorem ideal_append_last (log : List I) (frame : ℕ) :
    ideal (log ++ [lastOf log]) frame = ideal log frame := by
  rcases Nat.lt_trichotomy frame log.length with hlt | rfl | hgt
  · exact ideal_append_of_lt hlt _
  · simp [ideal]
  · rw [ideal_of_le (by simp; omega), ideal_of_le hgt.le, lastOf_append]

variable [BEq I]

/-- What holds of a queue in use: a wrong prediction was requested, and is stored by now. -/
structure Aware (a : LogQueue I) : Prop where
  sound : a.Sound
  asked : -1 ≤ a.requested
  marked : ¬isNull a.incorrect → a.incorrect ≤ a.requested ∧ a.incorrect < a.log.length

theorem aware_new (delay : ℤ) : (LogQueue.new delay : LogQueue I).Aware :=
  ⟨sound_of_idle rfl, le_rfl, by simp [LogQueue.new]⟩

variable {a : LogQueue I}

theorem aware_reset (a : LogQueue I) : a.reset.Aware :=
  ⟨a.sound_reset, le_rfl, by simp [reset]⟩

theorem Aware.get (ha : a.Aware) {frame : ℕ} {guess : Option ℕ} (hnull : isNull a.incorrect)
    (hreq : a.requested ≤ frame)
    (hg : guess = a.guess ∨ guess = some a.log.length ∧ a.log.length ≤ frame) :
    Aware { a with requested := frame, guess := guess } := by
  refine ⟨fun _ k hk => ?_, by dsimp only; omega, fun h => absurd hnull h⟩
  rcases hg with rfl | ⟨rfl, hle⟩
  · obtain ⟨hk1, hk2, hk3⟩ := ha.sound hnull k hk
    exact ⟨hk1, hk2.trans hreq, hk3⟩
  · obtain rfl : a.log.length = k := by simpa using hk
    refine ⟨le_rfl, by dsimp only; omega, fun j x hj hx => ?_⟩
    rw [List.getElem?_eq_none hj] at hx
    cases hx

/-- Storing an input leaves the mark, or marks the frame it is for. -/
theorem incorrect_store_cases (a : LogQueue I) (label : ℤ) (x : I) :
    (a.store label x).incorrect = a.incorrect ∨
      isNull a.incorrect ∧ a.guess ≠ none ∧ (a.store label x).incorrect = a.log.length := by
  rw [incorrect_store, marked]
  cases hg : a.guess with
  | none => exact .inl rfl
  | some k =>
    dsimp only
    split
    · next h => exact .inr ⟨h.1, by simp, rfl⟩
    · exact .inl rfl

theorem Aware.store (ha : a.Aware) (label : ℤ) (x : I) : (a.store label x).Aware := by
  refine ⟨ha.sound.store label x, ha.asked, fun hmark => ?_⟩
  rw [requested_store, log_store, List.length_append, List.length_singleton]
  rcases a.incorrect_store_cases label x with hsame | ⟨hnull, hguess, hnew⟩
  · rw [hsame] at hmark ⊢
    have := ha.marked hmark
    omega
  · obtain ⟨k, hk⟩ := Option.ne_none_iff_exists'.mp hguess
    have := (ha.sound hnull k hk).2.1
    omega

theorem Aware.pad (ha : a.Aware) (count : ℕ) : (pad count a).Aware := by
  induction count generalizing a with
  | zero => exact ha
  | succ count ih => exact ih (ha.store _ _)

theorem Aware.add (ha : a.Aware) (x : FrameInput I) : (a.add x).Aware := by
  have ha' : Aware { a with lastUser := x.frame } := ⟨ha.sound, ha.asked, ha.marked⟩
  rw [LogQueue.add]
  split
  · exact ha'
  · exact (ha'.pad _).store _ _

theorem incorrect_pad_cases (a : LogQueue I) (count : ℕ) :
    (pad count a).incorrect = a.incorrect ∨
      isNull a.incorrect ∧ (a.log.length : ℤ) ≤ (pad count a).incorrect := by
  induction count generalizing a with
  | zero => exact .inl rfl
  | succ count ih =>
    have hlen : (a.store (a.log.length - 1) (lastOf a.log)).log.length = a.log.length + 1 := by simp
    rcases a.incorrect_store_cases (a.log.length - 1) (lastOf a.log) with hsame | ⟨hnull, -, hnew⟩
    · rcases ih (a.store (a.log.length - 1) (lastOf a.log)) with h | ⟨h1, h2⟩
      · exact .inl (h.trans hsame)
      · exact .inr ⟨hsame ▸ h1, by rw [LogQueue.pad]; omega⟩
    · rcases ih (a.store (a.log.length - 1) (lastOf a.log)) with h | ⟨h1, h2⟩
      · exact .inr ⟨hnull, by rw [LogQueue.pad, h, hnew]⟩
      · simp only [isNull] at h1
        omega

/-- An input leaves the mark, or marks a frame that was not stored before. -/
theorem incorrect_add_cases (a : LogQueue I) (x : FrameInput I) :
    (a.add x).incorrect = a.incorrect ∨
      isNull a.incorrect ∧ (a.log.length : ℤ) ≤ (a.add x).incorrect := by
  rw [LogQueue.add]
  split
  · exact .inl rfl
  · obtain ⟨count, hcount⟩ : ∃ count, count = (x.frame + a.delay - a.log.length).toNat := ⟨_, rfl⟩
    obtain ⟨b, hb⟩ : ∃ b : LogQueue I, b = { a with lastUser := x.frame } := ⟨_, rfl⟩
    have hinc : b.incorrect = a.incorrect := by rw [hb]
    have hlog : b.log = a.log := by rw [hb]
    dsimp only
    rw [← hcount, ← hb, ← hinc, ← hlog]
    have hlen : (pad count b).log.length = b.log.length + count := by simp
    rcases (pad count b).incorrect_store_cases x.frame x.input with hs | ⟨hnull, -, hs⟩
    · rw [hs]
      exact incorrect_pad_cases b count
    · rw [hs, hlen]
      rcases incorrect_pad_cases b count with hp | ⟨hn, hp⟩
      · exact .inr ⟨hp ▸ hnull, by push_cast; omega⟩
      · exact .inr ⟨hn, by push_cast; omega⟩

theorem Awaits.store (ha : a.Sound) (h : a.Awaits) (label : ℤ) (x : I) :
    (a.store label x).Awaits := by
  intro hnull hnone
  rw [guess_store ha hnull] at hnone
  split at hnone
  · next hlt => exact hlt
  · rw [requested_store, log_store, List.length_append]
    have := h (unmarked_store hnull).1 hnone
    omega

theorem Awaits.pad (ha : a.Sound) (h : a.Awaits) (count : ℕ) : (pad count a).Awaits := by
  induction count generalizing a with
  | zero => exact h
  | succ count ih => exact ih (ha.store _ _) (h.store ha _ _)

theorem Awaits.add (ha : a.Sound) (h : a.Awaits) (x : FrameInput I) : (a.add x).Awaits := by
  have ha' : Sound { a with lastUser := x.frame } := ha
  have h' : Awaits { a with lastUser := x.frame } := h
  rw [LogQueue.add]
  split
  · exact h'
  · exact (h'.pad ha' _).store (ha'.pad _) _ _

section Lawful

variable [LawfulBEq I]

/-- A request is answered with the input of the frame as far as it is known. -/
theorem Aware.unwrap_get (ha : a.Aware) (hnull : isNull a.incorrect) {frame : ℕ}
    (hreq : a.requested ≤ frame) : (a.get frame).1.unwrap.input = ideal a.log frame := by
  cases hg : a.guess with
  | some k =>
    have hlen := (ha.sound hnull k hg).2.1
    rw [get_of_guess hg, ideal_of_le (by omega)]
    exact ha.sound.basis_eq_lastOf hnull hg
  | none =>
    rcases Nat.lt_or_ge frame a.log.length with hlt | hge
    · rw [get_of_lt hg hlt, ideal_of_lt hlt]
      rfl
    · rw [get_of_ge hg hge, ideal_of_le hge]
      rfl

/-- What was requested and is not marked keeps its input when another one is stored. -/
theorem Trusted.store (ha : a.Aware) (h : a.Awaits) {label : ℤ} {x : I} {frame : ℕ}
    (hreq : frame ≤ a.requested) (ht : (a.store label x).Trusted frame) :
    a.Trusted frame ∧ ideal (a.store label x).log frame = ideal a.log frame := by
  rw [log_store]
  rcases Nat.lt_or_ge frame a.log.length with hlt | hge
  · refine ⟨?_, ideal_append_of_lt hlt _⟩
    rcases a.incorrect_store_cases label x with hsame | ⟨hnull, -, -⟩
    · rwa [Trusted, hsame] at ht
    · exact .inl hnull
  · -- a frame not stored yet is trusted only while the prediction under way is right
    have hnull : isNull (a.store label x).incorrect := by
      rcases ht with hnull | hlt
      · exact hnull
      · exfalso
        rcases a.incorrect_store_cases label x with hsame | ⟨-, -, hnew⟩
        · have := ha.marked (by simp only [isNull]; omega)
          omega
        · omega
    obtain ⟨hnull', heq⟩ := unmarked_store hnull
    refine ⟨.inl hnull', ?_⟩
    cases hg : a.guess with
    | none =>
      have := h hnull' hg
      omega
    | some k =>
      have hbeq := heq k hg
      rw [FrameInput.beq_eq, Bool.and_eq_true] at hbeq
      have hx : lastOf a.log = x := by
        rw [← ha.sound.basis_eq_lastOf hnull' hg]
        exact eq_of_beq hbeq.2
      rw [← hx, ideal_append_last]

theorem Trusted.pad (ha : a.Aware) (h : a.Awaits) {count frame : ℕ} (hreq : frame ≤ a.requested)
    (ht : (LogQueue.pad count a).Trusted frame) :
    a.Trusted frame ∧ ideal (LogQueue.pad count a).log frame = ideal a.log frame := by
  induction count generalizing a with
  | zero => exact ⟨ht, rfl⟩
  | succ count ih =>
    obtain ⟨ht₁, h₁⟩ := ih (ha.store _ _) (h.store ha.sound _ _) hreq ht
    obtain ⟨ht₂, h₂⟩ := ht₁.store ha h hreq
    exact ⟨ht₂, h₁.trans h₂⟩

/-- What was requested and is not marked keeps its input when more inputs arrive. -/
theorem Trusted.add (ha : a.Aware) (h : a.Awaits) {x : FrameInput I} {frame : ℕ}
    (hreq : frame ≤ a.requested) (ht : (a.add x).Trusted frame) :
    a.Trusted frame ∧ ideal (a.add x).log frame = ideal a.log frame := by
  have ha' : Aware { a with lastUser := x.frame } := ⟨ha.sound, ha.asked, ha.marked⟩
  have h' : Awaits { a with lastUser := x.frame } := h
  rw [LogQueue.add] at ht ⊢
  dsimp only at ht ⊢
  split at ht
  · next htaken =>
    rw [if_pos htaken]
    exact ⟨ht, rfl⟩
  · next hfree =>
    rw [if_neg hfree]
    obtain ⟨ht₁, h₁⟩ := ht.store (ha'.pad _) (h'.pad ha'.sound _) (by simpa using hreq)
    obtain ⟨ht₂, h₂⟩ := ht₁.pad ha' h' hreq
    exact ⟨ht₂, h₁.trans h₂⟩

end Lawful

end LogQueue

end Backroll

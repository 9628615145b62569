import Backroll.Input.Prediction
import Backroll.Input.Refinement

/-! When the frame a queue reports as mispredicted is the first one that really was. -/
namespace Backroll

variable {I : Type} [BEq I]

/-- Frame `n` was answered by a prediction, and the input stored for it differs from it. -/
def Wrong (log : List I) (predicted : List (ℕ × I)) (n : ℕ) : Prop :=
  ∃ v x, (n, v) ∈ predicted ∧ log[n]? = some x ∧ (v != x) = true

/-- The mark is the first mispredicted frame, null when there is none. -/
def ExactMark (mark : ℤ) (log : List I) (predicted : List (ℕ × I)) : Prop :=
  (mark = nullFrame ∧ ∀ n, ¬Wrong log predicted n) ∨
    ∃ n : ℕ, mark = n ∧ Wrong log predicted n ∧ ∀ m < n, ¬Wrong log predicted m

theorem wrong_append {log : List I} {predicted : List (ℕ × I)} {x : I} {n : ℕ} :
    Wrong (log ++ [x]) predicted n ↔ Wrong log predicted n ∨
      n = log.length ∧ ∃ v, (n, v) ∈ predicted ∧ (v != x) = true := by
  constructor
  · rintro ⟨v, y, hmem, hy, hne⟩
    rcases Nat.lt_trichotomy n log.length with hlt | rfl | hgt
    · rw [List.getElem?_append_left hlt] at hy
      exact .inl ⟨v, y, hmem, hy, hne⟩
    · obtain rfl : x = y := by simpa using hy
      exact .inr ⟨rfl, v, hmem, hne⟩
    · rw [List.getElem?_eq_none (by simp; omega)] at hy
      cases hy
  · rintro (⟨v, y, hmem, hy, hne⟩ | ⟨rfl, v, hmem, hne⟩)
    · have hlt : n < log.length := (List.getElem?_eq_some_iff.mp hy).1
      exact ⟨v, y, hmem, by rw [List.getElem?_append_left hlt, hy], hne⟩
    · exact ⟨v, x, hmem, by simp, hne⟩

variable [Zeroable I]

namespace LogQueue

/-- The mark is exact, and every prediction still awaited is the one under way. -/
structure Marks (a : LogQueue I) (predicted : List (ℕ × I)) : Prop where
  exact : ExactMark a.incorrect a.log predicted
  asked : ∀ n v, (n, v) ∈ predicted → (n : ℤ) ≤ a.requested
  awaited : isNull a.incorrect → ∀ n v, (n, v) ∈ predicted → a.log.length ≤ n →
    ∃ k ∈ a.guess, v = basis a.log k

/-- Storing `x` under `label` looks to the queue like a misprediction exactly when it is one. -/
def Agrees (a : LogQueue I) (predicted : List (ℕ × I)) (label : ℤ) (x : I) : Prop :=
  isNull a.incorrect → ∀ k ∈ a.guess,
    ((⟨a.log.length, basis a.log k⟩ : FrameInput I) != ⟨label, x⟩) = true ↔
      ∃ v, (a.log.length, v) ∈ predicted ∧ (v != x) = true

variable {a : LogQueue I} {predicted : List (ℕ × I)} {label : ℤ} {x : I}

theorem incorrect_of_marked (h : ¬isNull a.incorrect) (label : ℤ) (x : I) :
    (a.store label x).incorrect = a.incorrect := by
  rw [incorrect_store, marked]
  cases a.guess with
  | none => rfl
  | some k => exact if_neg fun hc => h hc.1

theorem incorrect_of_agrees (ha : a.Agrees predicted label x) (hnull : isNull a.incorrect)
    (hright : ¬∃ v, (a.log.length, v) ∈ predicted ∧ (v != x) = true) :
    (a.store label x).incorrect = a.incorrect := by
  rw [incorrect_store, marked]
  cases hg : a.guess with
  | none => rfl
  | some k => exact if_neg fun hc => hright ((ha hnull k hg).mp hc.2)

theorem Marks.store (hm : a.Marks predicted) (hs : a.Sound) (ha : a.Agrees predicted label x) :
    (a.store label x).Marks predicted := by
  rcases hm.exact with ⟨hnull, hnone⟩ | ⟨n, hn, hwrong, hleast⟩
  · have hnull' : isNull a.incorrect := by simp [hnull]
    by_cases hmark : ∃ v, (a.log.length, v) ∈ predicted ∧ (v != x) = true
    · -- the awaited prediction is the one under way, so the queue sees the difference
      obtain ⟨v, hv, hvx⟩ := hmark
      obtain ⟨k, hk, -⟩ := hm.awaited hnull' _ v hv le_rfl
      have hinc : (a.store label x).incorrect = a.log.length := by
        rw [incorrect_store, marked, hk]
        exact if_pos ⟨hnull', (ha hnull' k hk).mpr ⟨v, hv, hvx⟩⟩
      refine ⟨.inr ⟨_, hinc, wrong_append.mpr (.inr ⟨rfl, v, hv, hvx⟩), fun m hlt hw => ?_⟩,
        hm.asked, fun h => ?_⟩
      · rcases wrong_append.mp hw with hw | ⟨rfl, -⟩
        · exact hnone m hw
        · exact absurd hlt (lt_irrefl _)
      · rw [hinc] at h
        simp only [isNull] at h
        omega
    · have hinc := incorrect_of_agrees ha hnull' hmark
      refine ⟨.inl ⟨hinc.trans hnull, fun m hw => ?_⟩, hm.asked, fun h m v hv hge => ?_⟩
      · rcases wrong_append.mp hw with hw | ⟨rfl, hw⟩
        · exact hnone m hw
        · exact hmark hw
      · rw [log_store, List.length_append, List.length_singleton] at hge
        obtain ⟨k, hk, rfl⟩ := hm.awaited hnull' m v hv (by omega)
        have hasked := hm.asked m _ hv
        refine ⟨k, ?_, by rw [log_store, basis_append (hs hnull' k hk).1]⟩
        rw [guess_store hs h, log_store, List.length_append, List.length_singleton,
          if_neg (by push_cast; omega)]
        exact hk
  · have hnot : ¬isNull a.incorrect := by simp [hn]
    have hinc := incorrect_of_marked hnot label x
    obtain ⟨v, y, hv, hy, hne⟩ := hwrong
    have hlt := (List.getElem?_eq_some_iff.mp hy).1
    refine ⟨.inr ⟨n, hinc.trans hn, wrong_append.mpr (.inl ⟨v, y, hv, hy, hne⟩), fun m hm' hw => ?_⟩,
      hm.asked, fun h => absurd (hinc ▸ h) hnot⟩
    rcases wrong_append.mp hw with hw | ⟨rfl, -⟩
    · exact hleast m hm' hw
    · omega

/-- Nothing is compared any more: the queue is not predicting, or has found its mark. -/
def Settled (a : LogQueue I) : Prop := isNull a.incorrect → a.guess = none

theorem Settled.agrees (h : a.Settled) : a.Agrees predicted label x := by
  intro hnull k hk
  simp [h hnull] at hk

theorem Settled.store (h : a.Settled) (label : ℤ) (x : I) : (a.store label x).Settled := by
  intro hnull
  obtain ⟨hnull', -⟩ := unmarked_store hnull
  simp [LogQueue.store, h hnull']

/-- An input stored under a foreign label is taken for a misprediction. -/
theorem settled_of_label (hl : label ≠ a.log.length) : (a.store label x).Settled := by
  intro hnull
  obtain ⟨-, heq⟩ := unmarked_store hnull
  cases hg : a.guess with
  | none => simp [LogQueue.store, hg]
  | some k =>
    have := heq k hg
    rw [FrameInput.beq_eq, Bool.and_eq_true, beq_iff_eq] at this
    exact absurd this.1.symm hl

theorem Marks.pad_settled (hm : a.Marks predicted) (hs : a.Sound) (h : a.Settled) (count : ℕ) :
    (pad count a).Marks predicted ∧ (pad count a).Settled := by
  induction count generalizing a with
  | zero => exact ⟨hm, h⟩
  | succ count ih => exact ih (hm.store hs h.agrees) (hs.store _ _) (h.store _ _)

/-- Padding is labelled with the frame it repeats, so the first padding frame settles. -/
theorem Marks.pad (hm : a.Marks predicted) (hs : a.Sound) {count : ℕ} (hc : 0 < count)
    (ha : a.Agrees predicted (a.log.length - 1) (lastOf a.log)) :
    (pad count a).Marks predicted ∧ (pad count a).Settled := by
  obtain ⟨c, rfl⟩ : ∃ c, count = c + 1 := ⟨count - 1, by omega⟩
  exact (hm.store hs ha).pad_settled (hs.store _ _) (settled_of_label (by omega)) c

theorem Marks.mono {b : LogQueue I} (hm : a.Marks predicted) (hlog : b.log = a.log)
    (hinc : b.incorrect = a.incorrect) (hreq : b.requested = a.requested)
    (hguess : b.guess = a.guess) : b.Marks predicted := by
  refine ⟨?_, ?_, ?_⟩
  · rw [hlog, hinc]
    exact hm.exact
  · rw [hreq]
    exact hm.asked
  · rw [hlog, hinc, hguess]
    exact hm.awaited

theorem marks_reset (a : LogQueue I) : a.reset.Marks [] :=
  ⟨.inl ⟨rfl, by simp [Wrong]⟩, by simp, by simp⟩

/-- The answers to a request are logged when they are predictions. -/
def notePrediction (predicted : List (ℕ × I)) : FetchedInput I → List (ℕ × I)
  | .normal _ => predicted
  | .prediction input => predicted ++ [(input.frame.toNat, input.input)]

theorem Marks.get (hm : a.Marks predicted) (hs : a.Sound) (hnull : isNull a.incorrect)
    {frame : ℕ} (hreq : a.requested < frame) :
    (a.get frame).2.Marks (notePrediction predicted (a.get frame).1) := by
  have hasked : ∀ n v, (n, v) ∈ predicted → (n : ℤ) ≤ (frame : ℤ) := fun n v hv =>
    (hm.asked n v hv).trans hreq.le
  -- a new prediction is for a frame that is not stored yet
  have hnew : ∀ {v : I}, a.log.length ≤ frame →
      ExactMark a.incorrect a.log (predicted ++ [(frame, v)]) := fun {v} hge => by
    have hw : ∀ n, Wrong a.log (predicted ++ [(frame, v)]) n ↔ Wrong a.log predicted n := by
      intro n
      constructor
      · rintro ⟨u, x, hu, hx, hne⟩
        rcases List.mem_append.mp hu with hu | hu
        · exact ⟨u, x, hu, hx, hne⟩
        · obtain ⟨rfl, rfl⟩ : n = frame ∧ u = v := by simpa using hu
          rw [List.getElem?_eq_none hge] at hx
          cases hx
      · rintro ⟨u, x, hu, hx, hne⟩
        exact ⟨u, x, List.mem_append_left _ hu, hx, hne⟩
    simpa only [ExactMark, hw] using hm.exact
  cases hg : a.guess with
  | some k =>
    obtain ⟨-, hlen, -⟩ := hs hnull k hg
    rw [get_of_guess hg]
    refine ⟨hnew (by omega), fun n v hv => ?_, fun h n v hv hge => ?_⟩
    · rcases List.mem_append.mp hv with hv | hv
      · exact hasked n v hv
      · obtain ⟨rfl, -⟩ : n = frame ∧ _ := by simpa using hv
        exact le_rfl
    · rcases List.mem_append.mp hv with hv | hv
      · exact hm.awaited h n v hv hge
      · obtain ⟨-, rfl⟩ : n = frame ∧ v = basis a.log k := by simpa using hv
        exact ⟨k, hg, rfl⟩
  | none =>
    rcases Nat.lt_or_ge frame a.log.length with hlt | hge
    · rw [get_of_lt hg hlt]
      exact ⟨hm.exact, hasked, hm.awaited⟩
    · rw [get_of_ge hg hge]
      refine ⟨hnew hge, fun n v hv => ?_, fun h n v hv hle => ?_⟩
      · rcases List.mem_append.mp hv with hv | hv
        · exact hasked n v hv
        · obtain ⟨rfl, -⟩ : n = frame ∧ _ := by simpa using hv
          exact le_rfl
      · rcases List.mem_append.mp hv with hv | hv
        · obtain ⟨k, hk, -⟩ := hm.awaited h n v hv hle
          simp [hg] at hk
        · obtain ⟨-, rfl⟩ : n = frame ∧ v = lastOf a.log := by simpa using hv
          exact ⟨a.log.length, rfl, (basis_length a.log).symm⟩

/-- The first input that is stored when a user's input is added under a constant delay. -/
def firstStored (delay : ℕ) (given : List I) (x : I) : I :=
  if given = [] ∧ 0 < delay then Zeroable.zeroed else x

/-- The comparison is right if it is with the value alone, or finds a difference in it, and in
either case only a frame that was requested may differ. -/
theorem Marks.agrees (hm : a.Marks predicted) (h : isNull a.incorrect → ∀ k ∈ a.guess,
    if a.log.length ∈ predicted.map (·.1) then label = a.log.length ∨ (basis a.log k != x) = true
    else label = a.log.length ∧ (basis a.log k != x) = false) : a.Agrees predicted label x := by
  intro hnull k hk
  have hne : ((⟨a.log.length, basis a.log k⟩ : FrameInput I) != ⟨label, x⟩) = true ↔
      ((a.log.length : ℤ) ≠ label ∨ (basis a.log k != x) = true) := by
    simp only [bne, FrameInput.beq_eq, Bool.not_and, Bool.or_eq_true, Bool.not_eq_true',
      beq_eq_false_iff_ne]
  have hpred : (∃ v, (a.log.length, v) ∈ predicted ∧ (v != x) = true) ↔
      a.log.length ∈ predicted.map (·.1) ∧ (basis a.log k != x) = true := by
    constructor
    · rintro ⟨v, hv, hvx⟩
      obtain ⟨k', hk', rfl⟩ := hm.awaited hnull _ v hv le_rfl
      obtain rfl : k' = k := Option.some.inj (hk'.symm.trans hk)
      exact ⟨List.mem_map.mpr ⟨_, hv, rfl⟩, hvx⟩
    · rintro ⟨hmem, hvx⟩
      obtain ⟨⟨n, v⟩, hv, rfl⟩ := List.mem_map.mp hmem
      obtain ⟨k', hk', rfl⟩ := hm.awaited hnull _ v hv le_rfl
      obtain rfl : k' = k := Option.some.inj (hk'.symm.trans hk)
      exact ⟨_, hv, hvx⟩
  have hcond := h hnull k hk
  rw [hne, hpred]
  split at hcond
  · next hmem =>
    rcases hcond with rfl | hvx
    · simp [hmem]
    · simp [hmem, hvx]
  · next hmem => simp [hmem, hcond.1, hcond.2]

/-- An added input keeps the mark exact where the first comparison it causes is right. -/
theorem Marks.add (hm : a.Marks predicted) (hs : a.Sound) {delay : ℕ} {given : List I}
    (hlog : a.log = delayed delay given) (hdelay : a.delay = delay)
    (hfirst : isNull a.incorrect → ∀ k ∈ a.guess,
      if a.log.length ∈ predicted.map (·.1) then
        delay = 0 ∨ (basis a.log k != firstStored delay given x) = true
      else delay = 0 ∧ (basis a.log k != firstStored delay given x) = false) :
    (a.add ⟨given.length, x⟩).Marks predicted := by
  have hm' : LogQueue.Marks { a with lastUser := given.length } predicted :=
    hm.mono rfl rfl rfl rfl
  have hs' : LogQueue.Sound { a with lastUser := given.length } := hs
  have hlen : a.log.length = if given = [] then 0 else given.length + delay := by
    rw [hlog]
    split
    · next h => simp [h]
    · next h => exact length_delayed h
  rw [LogQueue.add, if_neg (by dsimp only; split at hlen <;> omega)]
  dsimp only
  by_cases hpad : given = [] ∧ 0 < delay
  · obtain ⟨rfl, hpos⟩ := hpad
    simp only [if_true] at hlen
    have hcount : ((([] : List I).length : ℤ) + a.delay - a.log.length).toNat = delay := by
      simp [hlen, hdelay]
    have hvalue : firstStored delay [] x = lastOf a.log := by
      rw [firstStored, if_pos ⟨rfl, hpos⟩, List.length_eq_zero_iff.mp hlen, lastOf_nil]
    rw [hvalue] at hfirst
    have hagree : LogQueue.Agrees { a with lastUser := ([] : List I).length } predicted
        (a.log.length - 1) (lastOf a.log) := hm'.agrees fun hnull k hk => by
      have := hfirst hnull k hk
      split at this
      · next hmem =>
        rw [if_pos hmem]
        exact this.imp (fun h => absurd h (by omega)) id
      · exact absurd this.1 (by omega)
    obtain ⟨hm₁, hset⟩ := hm'.pad hs' hpos hagree
    rw [hcount]
    exact hm₁.store (hs'.pad _) hset.agrees
  · have hcount : ((given.length : ℤ) + a.delay - a.log.length).toNat = 0 := by
      split at hlen
      · next h =>
        simp only [h, true_and] at hpad
        simp [h]
        omega
      · omega
    have hvalue : firstStored delay given x = x := if_neg hpad
    rw [hvalue] at hfirst
    have hlabel : delay = 0 → (given.length : ℤ) = a.log.length := by
      intro h0
      split at hlen
      · next h => simp [hlen, h]
      · omega
    rw [hcount]
    exact hm'.store hs' (hm'.agrees fun hnull k hk => by
      have := hfirst hnull k hk
      split at this
      · next hmem =>
        rw [if_pos hmem]
        exact this.imp hlabel id
      · next hmem =>
        rw [if_neg hmem]
        exact ⟨hlabel this.1, this.2⟩)

end LogQueue

/-- What a queue was given, and the predictions it made since it was last reset. -/
structure Requests (I : Type) where
  given : List I := []
  requested : ℤ := nullFrame
  predicted : List (ℕ × I) := []

namespace InputQueue

variable [Build]

open LogQueue (notePrediction delayed firstStored)

/-- Adding `x` next brings no comparison, or one that is right: the delay is zero or the first
input stored differs from the prediction, and the frame compared was requested. -/
def Aligned (delay : ℕ) (q : InputQueue I) (r : Requests I) (x : I) : Prop :=
  isNull q.prediction.frame ∨ ¬isNull q.firstIncorrectFrame ∨
    if (delayed delay r.given).length ∈ r.predicted.map (·.1) then
      delay = 0 ∨ (q.prediction.input != firstStored delay r.given x) = true
    else delay = 0 ∧ (q.prediction.input != firstStored delay r.given x) = false

instance (delay : ℕ) (q : InputQueue I) (r : Requests I) (x : I) :
    Decidable (Aligned delay q r x) := by
  unfold Aligned
  infer_instance

/-- The runs under a constant delay in which every added input meets the condition `ok`:
requests are for consecutive frames after each reset, and never while there is a mark. -/
inductive Predicting (delay : ℕ) (ok : InputQueue I → Requests I → I → Prop) :
    InputQueue I → Requests I → Prop
  | new : Predicting delay ok (.new delay) {}
  | addInput {q r} (x frame q') (h : Predicting delay ok q r) (hok : ok q r x)
    (hroom : r.given.length + 1 + delay ≤ maxRollbackFrames)
    (he : q.addInput ⟨r.given.length, x⟩ = .ok (frame, q')) :
    Predicting delay ok q' { r with given := r.given ++ [x] }
  | getInput {q r} (frame : ℕ) (fetched q') (h : Predicting delay ok q r)
    (hnull : isNull q.firstIncorrectFrame)
    (hnext : r.requested = nullFrame ∨ (frame : ℤ) = r.requested + 1)
    (he : q.getInput frame = .ok (fetched, q')) :
    Predicting delay ok q'
      { r with requested := frame, predicted := notePrediction r.predicted fetched }
  | resetPrediction {q r} (frame : ℤ) (q') (h : Predicting delay ok q r)
    (hf : isNull q.firstIncorrectFrame ∨ frame ≤ q.firstIncorrectFrame)
    (he : q.resetPrediction frame = .ok q') :
    Predicting delay ok q' { r with requested := nullFrame, predicted := [] }

/-- The log queue that `q` refines stores what was given. -/
structure Accounts (delay : ℕ) (r : Requests I) (a : LogQueue I) : Prop where
  log : a.log = delayed delay r.given
  delay : a.delay = delay
  start : a.start = 0
  users : a.lastUser = (r.given.length : ℤ) - 1
  requested : a.requested = r.requested
  sound : a.Sound
  marks : a.Marks r.predicted

theorem predicting_accounts {delay : ℕ} {q : InputQueue I} {r : Requests I}
    (h : Predicting delay (Aligned delay) q r) : ∃ a, Refines q a ∧ Accounts delay r a := by
  induction h with
  | new =>
    exact ⟨.new delay, .new delay, rfl, rfl, rfl, rfl, rfl, LogQueue.sound_of_idle rfl,
      .inl ⟨rfl, by simp [Wrong]⟩, by simp, by simp⟩
  | @addInput q r x frame q' h hok hroom he ih =>
    obtain ⟨a, hr, ha⟩ := ih
    obtain ⟨frame', q₁, he', hr'⟩ := hr.addInput ⟨r.given.length, x⟩
      (Or.inr (by rw [ha.users]; ring)) (by rw [ha.delay, ha.start]; dsimp only; omega)
    obtain ⟨-, rfl⟩ : frame' = frame ∧ q₁ = q' := by simpa [he'] using he
    refine ⟨_, hr', LogQueue.log_add_delayed ha.log ha.delay x, by simpa using ha.delay,
      by simpa using ha.start, by simp, by simpa using ha.requested, ha.sound.add _,
      ha.marks.add ha.sound ha.log ha.delay fun hnull k hk => ?_⟩
    obtain ⟨-, hp⟩ := hr.predicting k hk
    rcases hok with hidle | hmark | hfirst
    · simp only [hp, isNull] at hidle
      omega
    · exact absurd (hr.incorrect ▸ hnull) hmark
    · rw [hp, ← ha.log] at hfirst
      exact hfirst
  | @getInput q r frame fetched q' h hnull hnext he ih =>
    obtain ⟨a, hr, ha⟩ := ih
    rw [hr.incorrect] at hnull
    have hreq : a.requested < frame := by
      rw [ha.requested]
      rcases hnext with h0 | h1
      · rw [h0]
        exact (by decide : nullFrame < 0).trans_le (Int.natCast_nonneg frame)
      · omega
    obtain ⟨q₁, he', hr'⟩ := hr.getInput hnull (ha.start.le.trans (Nat.zero_le frame))
    obtain ⟨rfl, rfl⟩ : (a.get frame).1 = fetched ∧ q₁ = q' := by simpa [he'] using he
    have hget := a.get_eq frame
    exact ⟨_, hr', by rw [hget]; exact ha.log, by rw [hget]; exact ha.delay,
      by rw [hget]; exact ha.start, by rw [hget]; exact ha.users, by rw [hget],
      ha.sound.get hreq.le, ha.marks.get ha.sound hnull hreq⟩
  | @resetPrediction q r frame q' h hf he ih =>
    obtain ⟨a, hr, ha⟩ := ih
    have hf' : isNull a.incorrect ∨ frame ≤ a.incorrect := by rwa [← hr.incorrect]
    obtain ⟨q₁, he', hr'⟩ := hr.resetPrediction hf'
    obtain rfl : q₁ = q' := by simpa [he'] using he
    exact ⟨_, hr', ha.log, ha.delay, ha.start, ha.users, rfl, a.sound_reset, a.marks_reset⟩

/-- Along a run in which every comparison is right, the mark is the first misprediction. -/
theorem predicting_exactMark {delay : ℕ} {q : InputQueue I} {r : Requests I}
    (h : Predicting delay (Aligned delay) q r) :
    ExactMark q.firstIncorrectFrame (delayed delay r.given) r.predicted := by
  obtain ⟨a, hr, ha⟩ := predicting_accounts h
  rw [hr.incorrect, ← ha.log]
  exact ha.marks.exact

end InputQueue

open InputQueue (Predicting Aligned)

/-- Without delay a right and then a wrong prediction. -/
theorem InputQueue.predicting_exactMark_wrong :
    letI : Build := ⟨true⟩
    letI : Zeroable UInt8 := ⟨0⟩
    ∃ (q : InputQueue UInt8) (r : Requests UInt8), r.given = [0, 7] ∧
      r.predicted = [(0, 0), (1, 0)] ∧ q.firstIncorrectFrame = 1 ∧
      ExactMark q.firstIncorrectFrame (LogQueue.delayed 0 r.given) r.predicted :=
  letI : Build := ⟨true⟩
  letI : Zeroable UInt8 := ⟨0⟩
  ⟨_, _, rfl, rfl, rfl, InputQueue.predicting_exactMark (.addInput 7 _ _
    (.addInput 0 _ _ (.getInput 1 _ _ (.getInput 0 _ _ .new (by decide) (by decide) rfl)
      (by decide) (by decide) rfl) (by decide) (by decide) rfl) (by decide) (by decide) rfl)⟩

/-- With a delay of one frame a right prediction is marked as wrong. -/
theorem InputQueue.not_exactMark_delayed :
    letI : Build := ⟨true⟩
    letI : Zeroable UInt8 := ⟨0⟩
    ¬∀ (delay : ℕ) (q : InputQueue UInt8) (r : Requests UInt8),
      Predicting delay (fun _ _ _ => True) q r →
        ExactMark q.firstIncorrectFrame (LogQueue.delayed delay r.given) r.predicted := by
  let _ : Build := ⟨true⟩
  let _ : Zeroable UInt8 := ⟨0⟩
  intro h
  have hmark := h 1 _ _ (.addInput 0 _ _ (.getInput 0 _ _ .new (by decide) (by decide) rfl) trivial
    (by decide) rfl)
  rcases hmark with ⟨hnull, -⟩ | ⟨n, -, ⟨v, x, hv, hx, hne⟩, -⟩
  · exact absurd hnull (by decide)
  · have hv' : (n, v) = (0, 0) := List.mem_singleton.mp (show (n, v) ∈ [(0, (0 : UInt8))] from hv)
    obtain ⟨rfl, rfl⟩ := Prod.mk.inj hv'
    obtain rfl : 0 = x := Option.some.inj hx
    exact absurd hne (by decide)

end Backroll

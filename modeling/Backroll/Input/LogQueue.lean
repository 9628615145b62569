import Backroll.Input.GameInput

/-! What an input queue is for: a log of inputs, one for each frame, of which a window is
kept, and a guess at the frames that are not in the log yet. -/
namespace Backroll

/-- `guess` is the number of inputs that were in the log when the current prediction began. -/
structure LogQueue (I : Type) where
  log : List I
  start : ℕ
  delay : ℤ
  lastUser : ℤ
  requested : ℤ
  incorrect : ℤ
  guess : Option ℕ

namespace LogQueue

variable {I : Type}

def new (delay : ℤ) : LogQueue I where
  log := []
  start := 0
  delay := delay
  lastUser := nullFrame
  requested := nullFrame
  incorrect := nullFrame
  guess := none

variable [Zeroable I]

/-- The last input of a log, zero when there is none. -/
def lastOf (log : List I) : I := log.getLast?.getD Zeroable.zeroed

@[simp] theorem lastOf_nil : lastOf ([] : List I) = Zeroable.zeroed := rfl

@[simp] theorem lastOf_append (log : List I) (x : I) : lastOf (log ++ [x]) = x := by
  simp [lastOf]

/-- The input a prediction carries that began when the log had `k` entries. -/
def basis (log : List I) (k : ℕ) : I := lastOf (log.take k)

@[simp] theorem basis_length (log : List I) : basis log log.length = lastOf log := by
  simp [basis]

theorem basis_append {log : List I} {k : ℕ} (h : k ≤ log.length) (xs : List I) :
    basis (log ++ xs) k = basis log k := by
  rw [basis, basis, List.take_append_of_le_length h]

def get (a : LogQueue I) (frame : ℕ) : FetchedInput I × LogQueue I :=
  match a.guess with
  | some k => (.prediction ⟨frame, basis a.log k⟩, { a with requested := frame })
  | none =>
    if h : frame < a.log.length then (.normal ⟨frame, a.log[frame]⟩, { a with requested := frame })
    else (.prediction ⟨frame, lastOf a.log⟩,
      { a with requested := frame, guess := some a.log.length })

theorem get_of_guess {a : LogQueue I} {k : ℕ} (hg : a.guess = some k) (frame : ℕ) :
    a.get frame = (.prediction ⟨frame, basis a.log k⟩, { a with requested := frame }) := by
  simp [get, hg]

theorem get_of_lt {a : LogQueue I} {frame : ℕ} (hg : a.guess = none)
    (h : frame < a.log.length) :
    a.get frame = (.normal ⟨frame, a.log[frame]⟩, { a with requested := frame }) := by
  simp [get, hg, h]

theorem get_of_ge {a : LogQueue I} {frame : ℕ} (hg : a.guess = none)
    (h : a.log.length ≤ frame) : a.get frame = (.prediction ⟨frame, lastOf a.log⟩,
      { a with requested := frame, guess := some a.log.length }) := by
  simp [get, hg, not_lt.mpr h]

def reset (a : LogQueue I) : LogQueue I :=
  { a with incorrect := nullFrame, requested := nullFrame, guess := none }

def discard (a : LogQueue I) (frame : ℕ) : LogQueue I :=
  if isNull a.requested then a else { a with start := min (frame + 1) a.log.length }

variable [BEq I]

/-- The frame of the first wrong prediction once `x` is stored, where the comparison is with
the input as it was handed in, under the frame label `label`. -/
def marked (a : LogQueue I) (label : ℤ) (x : I) : ℤ :=
  match a.guess with
  | none => a.incorrect
  | some k =>
    if isNull a.incorrect ∧ (⟨a.log.length, basis a.log k⟩ : FrameInput I) != ⟨label, x⟩ then
      a.log.length
    else a.incorrect

def store (a : LogQueue I) (label : ℤ) (x : I) : LogQueue I :=
  { a with
    log := a.log ++ [x]
    incorrect := a.marked label x
    guess := if a.log.length = a.requested ∧ isNull (a.marked label x) then none else a.guess }

/-- Repeats the last entry, whose label is that of its own frame. -/
def pad : ℕ → LogQueue I → LogQueue I
  | 0, a => a
  | count + 1, a => pad count (a.store (a.log.length - 1) (lastOf a.log))

/-- The log after a user's input: dropped when its slot is taken, else stored in its slot with
the slots before it padded. -/
def add (a : LogQueue I) (input : FrameInput I) : LogQueue I :=
  let a := { a with lastUser := input.frame }
  if (a.log.length : ℤ) > input.frame + a.delay then a
  else (pad (input.frame + a.delay - a.log.length).toNat a).store input.frame input.input

/-- The log under a constant delay: each user frame goes `delay` frames further on, and zeros
come before the first one. -/
def delayed (delay : ℕ) (given : List I) : List I :=
  if given = [] then [] else List.replicate delay Zeroable.zeroed ++ given

section Delayed

omit [BEq I]

@[simp] theorem delayed_nil (delay : ℕ) : delayed delay ([] : List I) = [] := rfl

theorem length_le_delayed (delay : ℕ) (given : List I) :
    given.length ≤ (delayed delay given).length := by
  unfold delayed
  split
  · next hnil => rw [hnil]
  · rw [List.length_append]
    omega

theorem length_delayed {delay : ℕ} {given : List I} (h : given ≠ []) :
    (delayed delay given).length = given.length + delay := by
  simp [delayed, h, Nat.add_comm]

@[simp] theorem delayed_append (delay : ℕ) (given : List I) (x : I) :
    delayed delay (given ++ [x]) = List.replicate delay Zeroable.zeroed ++ given ++ [x] := by
  simp [delayed]

end Delayed

section Fields

variable (a : LogQueue I) (label : ℤ) (x : I) (count : ℕ)

@[simp] theorem log_store : (a.store label x).log = a.log ++ [x] := rfl

@[simp] theorem start_store : (a.store label x).start = a.start := rfl

@[simp] theorem delay_store : (a.store label x).delay = a.delay := rfl

@[simp] theorem lastUser_store : (a.store label x).lastUser = a.lastUser := rfl

@[simp] theorem requested_store : (a.store label x).requested = a.requested := rfl

@[simp] theorem incorrect_store : (a.store label x).incorrect = a.marked label x := rfl

theorem marked_of_idle (hg : a.guess = none) : a.marked label x = a.incorrect := by
  simp [marked, hg]

theorem store_of_idle (hg : a.guess = none) :
    a.store label x = { a with log := a.log ++ [x] } := by
  simp [store, marked_of_idle a label x hg, hg]

@[simp] theorem log_pad : (pad count a).log = a.log ++ List.replicate count (lastOf a.log) := by
  induction count generalizing a with
  | zero => simp [pad]
  | succ count ih => simp [pad, ih, List.replicate_succ]

@[simp] theorem start_pad : (pad count a).start = a.start := by
  induction count generalizing a with
  | zero => rfl
  | succ count ih => simp [pad, ih]

@[simp] theorem delay_pad : (pad count a).delay = a.delay := by
  induction count generalizing a with
  | zero => rfl
  | succ count ih => simp [pad, ih]

@[simp] theorem lastUser_pad : (pad count a).lastUser = a.lastUser := by
  induction count generalizing a with
  | zero => rfl
  | succ count ih => simp [pad, ih]

@[simp] theorem requested_pad : (pad count a).requested = a.requested := by
  induction count generalizing a with
  | zero => rfl
  | succ count ih => simp [pad, ih]

theorem idle_store {a : LogQueue I} (hg : a.guess = none) (label : ℤ) (x : I) :
    (a.store label x).guess = none ∧ (a.store label x).incorrect = a.incorrect := by
  rw [store_of_idle _ _ _ hg]
  exact ⟨hg, rfl⟩

theorem idle_pad {a : LogQueue I} (hg : a.guess = none) (count : ℕ) :
    (pad count a).guess = none ∧ (pad count a).incorrect = a.incorrect := by
  induction count generalizing a with
  | zero => exact ⟨hg, rfl⟩
  | succ count ih =>
    obtain ⟨hguess, hinc⟩ := idle_store hg (a.log.length - 1) (lastOf a.log)
    obtain ⟨hguess', hinc'⟩ := ih hguess
    exact ⟨hguess', hinc'.trans hinc⟩

variable (input : FrameInput I)

/-- A queue that makes no prediction makes none wrong. -/
theorem idle_add {a : LogQueue I} (hg : a.guess = none) (input : FrameInput I) :
    (a.add input).guess = none ∧ (a.add input).incorrect = a.incorrect := by
  have hg' : ({ a with lastUser := input.frame } : LogQueue I).guess = none := hg
  rw [add]
  split
  · exact ⟨hg, rfl⟩
  · obtain ⟨hguess, hinc⟩ := idle_pad hg' (input.frame + a.delay - a.log.length).toNat
    obtain ⟨hguess', hinc'⟩ := idle_store hguess input.frame input.input
    exact ⟨hguess', hinc'.trans hinc⟩

@[simp] theorem start_add : (a.add input).start = a.start := by
  simp only [add]
  split <;> simp

@[simp] theorem delay_add : (a.add input).delay = a.delay := by
  simp only [add]
  split <;> simp

@[simp] theorem lastUser_add : (a.add input).lastUser = input.frame := by
  simp only [add]
  split <;> simp

@[simp] theorem requested_add : (a.add input).requested = a.requested := by
  simp only [add]
  split <;> simp

theorem log_add : (a.add input).log = if (a.log.length : ℤ) > input.frame + a.delay then a.log
    else a.log ++ List.replicate (input.frame + a.delay - a.log.length).toNat (lastOf a.log) ++
      [input.input] := by
  simp only [add]
  split <;> simp

theorem log_add_delayed {a : LogQueue I} {delay : ℕ} {given : List I}
    (hlog : a.log = delayed delay given) (hdelay : a.delay = delay) (x : I) :
    (a.add ⟨given.length, x⟩).log = delayed delay (given ++ [x]) := by
  rw [log_add, hdelay, hlog]
  by_cases h : given = []
  · subst h
    rw [if_neg (by simp)]
    simp [delayed]
  · have hlen : (delayed delay given).length = given.length + delay := length_delayed h
    rw [if_neg (by dsimp only; omega), delayed_append]
    simp [delayed, h]
    omega

end Fields

/-- A request changes only what was requested, and may begin a prediction. -/
theorem get_eq {I : Type} [Zeroable I] (a : LogQueue I) (frame : ℕ) :
    (a.get frame).2 = { a with requested := frame, guess := (a.get frame).2.guess } := by
  simp only [get]
  split
  · rfl
  · split <;> rfl

theorem guess_get {I : Type} [Zeroable I] (a : LogQueue I) (frame : ℕ) :
    (a.get frame).2.guess = a.guess ∨
      (a.get frame).2.guess = some a.log.length ∧ a.log.length ≤ frame := by
  cases hg : a.guess with
  | some k =>
    rw [get_of_guess hg]
    exact .inl hg
  | none =>
    rcases Nat.lt_or_ge frame a.log.length with hlt | hge
    · rw [get_of_lt hg hlt]
      exact .inl hg
    · rw [get_of_ge hg hge]
      exact .inr ⟨rfl, hge⟩

end LogQueue

end Backroll

import Backroll.Input.Prediction
import Backroll.Input.Refinement

/-! Whatever is done to an input queue within its rules, it answers a request for a frame as
the history of the inputs it was given says. -/
namespace Backroll

/-- `accepted` holds the user inputs that found their slot free, each with its slot; `guess` is
the number of frames that were stored when the prediction under way began. -/
structure History (I : Type) where
  users : ℕ := 0
  delay : ℕ
  accepted : List (ℕ × I) := []
  floor : ℕ := 0
  discarded : ℕ := 0
  requested : ℤ := nullFrame
  guess : Option ℕ := none

inductive QueueOp (I : Type)
  | addInput (input : I)
  | setFrameDelay (delay : ℕ)
  | getInput (frame : ℕ)
  | resetPrediction (frame : ℤ)
  | discardConfirmedFrames (frame : ℕ)

namespace History

variable {I : Type}

/-- The frames below this one have been added, by a user's input or by padding. -/
def count (h : History I) : ℕ :=
  match h.accepted.getLast? with
  | none => 0
  | some (slot, _) => slot + 1

variable [Zeroable I]

/-- The input for a frame: that of the last accepted user frame whose slot is not above it. -/
def valueAt (h : History I) (frame : ℕ) : I :=
  ((h.accepted.filter (·.1 ≤ frame)).getLast?.map (·.2)).getD Zeroable.zeroed

/-- The input that was last when `k` frames were added. -/
def lastBefore (h : History I) (k : ℕ) : I :=
  if k = 0 then Zeroable.zeroed else h.valueAt (k - 1)

/-- The rules: what a caller may do next. A prediction mark is visible to it. -/
def Legal (h : History I) (q : InputQueue I) : QueueOp I → Prop
  | .addInput _ => max h.count (h.users + h.delay + 1) ≤ h.floor + maxRollbackFrames
  | .setFrameDelay _ => True
  | .getInput frame => isNull q.firstIncorrectFrame ∧ h.requested < frame ∧ h.floor ≤ frame
  | .resetPrediction frame => isNull q.firstIncorrectFrame ∨ frame ≤ q.firstIncorrectFrame
  | .discardConfirmedFrames frame => h.discarded ≤ frame ∧ frame < h.requested

instance (h : History I) (q : InputQueue I) : ∀ op, Decidable (h.Legal q op)
  | .addInput _ => inferInstanceAs (Decidable (_ ≤ _))
  | .setFrameDelay _ => .isTrue trivial
  | .getInput _ => inferInstanceAs (Decidable (_ ∧ _ ∧ _))
  | .resetPrediction _ => inferInstanceAs (Decidable (_ ∨ _))
  | .discardConfirmedFrames _ => inferInstanceAs (Decidable (_ ∧ _))

def apply (h : History I) : QueueOp I → History I
  | .addInput input =>
    let slot := h.users + h.delay
    let added := { h with
      users := h.users + 1
      accepted := if h.count ≤ slot then h.accepted ++ [(slot, input)] else h.accepted }
    { added with guess := if h.requested < added.count then none else h.guess }
  | .setFrameDelay delay => { h with delay := delay }
  | .getInput frame =>
    { h with
      requested := frame
      guess := if h.guess = none ∧ h.count ≤ frame then some h.count else h.guess }
  | .resetPrediction _ => { h with requested := nullFrame, guess := none }
  | .discardConfirmedFrames frame =>
    { h with discarded := frame, floor := min (frame + 1) h.count }

/-- The answer to a request: the input of the frame once it was added, and before that the
input that was last when the prediction began. -/
def answer (h : History I) : QueueOp I → Option (FetchedInput I)
  | .getInput frame =>
    if frame < h.count then some (.normal ⟨frame, h.valueAt frame⟩)
    else some (.prediction ⟨frame, h.lastBefore (h.guess.getD h.count)⟩)
  | _ => none

end History

namespace InputQueue

variable {I : Type} [Zeroable I] [BEq I] [Build]

/-- One call, with its answer, when `users` user frames have been added. -/
def exec (q : InputQueue I) (users : ℕ) :
    QueueOp I → Except Panic (Option (FetchedInput I) × InputQueue I)
  | .addInput input => do
    let (_, q) ← q.addInput ⟨users, input⟩
    return (none, q)
  | .setFrameDelay delay => do
    let q ← q.setFrameDelay delay
    return (none, q)
  | .getInput frame => do
    let (fetched, q) ← q.getInput frame
    return (some fetched, q)
  | .resetPrediction frame => do
    let q ← q.resetPrediction frame
    return (none, q)
  | .discardConfirmedFrames frame => do
    let q ← q.discardConfirmedFrames frame
    return (none, q)

/-- The runs of a queue within the rules. -/
inductive Run : InputQueue I → History I → Prop
  | new (delay : ℕ) : Run (.new delay) { delay := delay }
  | step {q h fetched q'} (op) (hrun : Run q h) (hl : h.Legal q op)
    (he : q.exec h.users op = .ok (fetched, q')) : Run q' (h.apply op)

end InputQueue

namespace History

variable {I : Type}

/-- The slots of the accepted inputs lie below the count. -/
def Ordered (h : History I) : Prop := ∀ e ∈ h.accepted, e.1 < h.count

/-- Accepting an input at `slot`. -/
theorem count_accept (h : History I) (slot : ℕ) (x : I) (users : ℕ) (guess : Option ℕ) :
    ({ h with users := users, accepted := h.accepted ++ [(slot, x)], guess := guess } :
      History I).count = slot + 1 := by
  simp [count]

variable [Zeroable I]

/-- The accepted input stands for the frames from its slot on. -/
theorem valueAt_accept (h : History I) (slot : ℕ) (x : I) (users : ℕ) (guess : Option ℕ)
    (frame : ℕ) :
    ({ h with users := users, accepted := h.accepted ++ [(slot, x)], guess := guess } :
      History I).valueAt frame = if slot ≤ frame then x else h.valueAt frame := by
  by_cases hs : slot ≤ frame
  · simp [valueAt, List.filter_append, hs]
  · simp [valueAt, List.filter_append, hs]

theorem valueAt_of_count_le {h : History I} (ho : h.Ordered) {frame : ℕ}
    (hf : h.count ≤ frame + 1) :
    h.valueAt frame = (h.accepted.getLast?.map (·.2)).getD Zeroable.zeroed := by
  rw [valueAt, List.filter_eq_self.mpr]
  intro e he
  have := ho e he
  simp only [decide_eq_true_eq]
  omega

/-- Past the frames added so far the history continues with the last input. -/
theorem lastBefore_count {h : History I} (ho : h.Ordered) {frame : ℕ}
    (hf : h.count ≤ frame) : h.lastBefore h.count = h.valueAt frame := by
  rw [valueAt_of_count_le ho (by omega), lastBefore]
  split
  · next h0 =>
    cases hl : h.accepted.getLast? with
    | none => rfl
    | some e => simp [count, hl] at h0
  · exact valueAt_of_count_le ho (by omega)

variable [BEq I]

/-- The log of the queue is the history, frame by frame. -/
structure Tells (h : History I) (a : LogQueue I) : Prop where
  count : a.log.length = h.count
  value : ∀ frame < h.count, a.log[frame]? = some (h.valueAt frame)
  ordered : h.Ordered
  users : a.lastUser = (h.users : ℤ) - 1
  delay : a.delay = h.delay
  start : a.start = h.floor
  floor : h.floor ≤ h.discarded + 1
  requested : a.requested = h.requested
  sound : a.Sound
  guess : isNull a.incorrect → a.guess = h.guess

variable {h : History I} {a : LogQueue I}

theorem Tells.new (delay : ℕ) : ({ delay := delay } : History I).Tells (.new delay) :=
  ⟨rfl, by simp [History.count], by simp [Ordered], rfl, rfl, rfl, by simp, rfl,
    LogQueue.sound_of_idle rfl, fun _ => rfl⟩

/-- The last input before `k` frames of the history is the basis of a prediction at `k`. -/
theorem Tells.basis (ht : h.Tells a) {k : ℕ} (hk : k ≤ h.count) :
    LogQueue.basis a.log k = h.lastBefore k := by
  rw [LogQueue.basis, lastBefore]
  split
  · next h0 => simp [h0]
  · next h0 =>
    have hv := ht.value (k - 1) (by omega)
    have hlen : (a.log.take k).length = k := by
      rw [List.length_take, ht.count]
      omega
    rw [LogQueue.lastOf, List.getLast?_eq_getElem?, hlen, List.getElem?_take_of_lt (by omega), hv]
    rfl

theorem Tells.lastOf (ht : h.Tells a) : LogQueue.lastOf a.log = h.lastBefore h.count := by
  rw [← ht.basis le_rfl, ← ht.count, LogQueue.basis_length]

theorem Tells.addInput (ht : h.Tells a) (x : I) :
    (h.apply (.addInput x)).Tells (a.add ⟨h.users, x⟩) := by
  have hcount := ht.count
  have hdelay := ht.delay
  have hlog := a.log_add ⟨h.users, x⟩
  have hsound := ht.sound.add ⟨h.users, x⟩
  have hguess : isNull (a.add ⟨h.users, x⟩).incorrect → (a.add ⟨h.users, x⟩).guess =
      if h.requested < (a.add ⟨h.users, x⟩).log.length then none else h.guess := by
    intro hnull
    obtain ⟨hnull', hg⟩ := LogQueue.guess_add ht.sound hnull
    rw [hg, ht.requested, ht.guess hnull']
  by_cases hfree : h.count ≤ h.users + h.delay
  · rw [if_neg (by dsimp only; omega)] at hlog
    have hpad : ((h.users : ℤ) + a.delay - a.log.length).toNat = h.users + h.delay - h.count := by
      omega
    simp only [hpad] at hlog
    have hlen : (a.add ⟨h.users, x⟩).log.length = h.users + h.delay + 1 := by
      simp only [hlog, List.length_append, List.length_replicate, List.length_singleton]
      omega
    have happly : h.apply (.addInput x) = { h with
        users := h.users + 1
        accepted := h.accepted ++ [(h.users + h.delay, x)]
        guess := if h.requested < (h.users + h.delay + 1 : ℕ) then none else h.guess } := by
      simp only [apply, hfree, if_true, count_accept]
    rw [happly]
    refine ⟨by rw [count_accept, hlen], fun frame hframe => ?_, fun e he => ?_, by simp,
      by simpa using hdelay, by simpa using ht.start, ht.floor, by simpa using ht.requested,
      hsound, fun hnull => by rw [hguess hnull, hlen]⟩
    · rw [count_accept] at hframe
      rw [valueAt_accept, hlog]
      rcases Nat.lt_or_ge frame a.log.length with hold | hnew
      · rw [if_neg (by omega), List.append_assoc, List.getElem?_append_left hold]
        exact ht.value frame (by omega)
      · by_cases hslot : h.users + h.delay ≤ frame
        · obtain rfl : frame = h.users + h.delay := by omega
          rw [if_pos le_rfl, List.getElem?_append_right (by simp; omega)]
          have : h.users + h.delay - (a.log ++ List.replicate (h.users + h.delay - h.count)
              (LogQueue.lastOf a.log)).length = 0 := by
            simp
            omega
          rw [this]
          rfl
        · rw [if_neg hslot, List.getElem?_append_left (by simp; omega),
            List.getElem?_append_right hnew, List.getElem?_replicate_of_lt (by omega), ht.lastOf,
            lastBefore_count ht.ordered (show h.count ≤ frame by omega)]
    · rw [count_accept]
      rcases List.mem_append.mp he with he | he
      · have := ht.ordered e he
        omega
      · obtain rfl : e = (h.users + h.delay, x) := by simpa using he
        exact Nat.lt_succ_self _
  · rw [if_pos (by dsimp only; omega)] at hlog
    have happly : h.apply (.addInput x) = { h with
        users := h.users + 1
        guess := if h.requested < h.count then none else h.guess } := by
      simp only [apply, hfree, if_false]
      rfl
    rw [happly]
    exact ⟨by rw [hlog]; exact hcount, fun frame hframe => by rw [hlog]; exact ht.value frame hframe,
      ht.ordered, by simp, by simpa using hdelay, by simpa using ht.start, ht.floor,
      by simpa using ht.requested, hsound, fun hnull => by rw [hguess hnull, hlog, hcount]⟩

theorem Tells.getInput (ht : h.Tells a) {frame : ℕ} (hnull : isNull a.incorrect)
    (hreq : h.requested < frame) :
    (h.apply (.getInput frame)).Tells (a.get frame).2 ∧
      some (a.get frame).1 = h.answer (.getInput frame) := by
  have hcount := ht.count
  have hguess := ht.guess hnull
  have hasked : a.requested ≤ frame := by
    rw [ht.requested]
    exact hreq.le
  have hsound := ht.sound.get hasked
  cases hg : a.guess with
  | some k =>
    obtain ⟨hk, hlen, -⟩ := ht.sound hnull k hg
    have hreq' := ht.requested
    have hge : ¬frame < h.count := by omega
    rw [LogQueue.get_of_guess hg] at hsound ⊢
    refine ⟨{ ht with requested := rfl, sound := hsound, guess := ?_ }, ?_⟩
    · intro _
      simp [apply, ← hguess, hg]
    · simp only [answer, hge, if_false, ← hguess, hg, Option.getD_some]
      rw [ht.basis (by omega)]
  | none =>
    rcases Nat.lt_or_ge frame a.log.length with hlt | hge
    · rw [LogQueue.get_of_lt hg hlt] at hsound ⊢
      have hlt' : frame < h.count := by omega
      have hv := ht.value frame hlt'
      rw [List.getElem?_eq_getElem hlt, Option.some.injEq] at hv
      refine ⟨{ ht with requested := rfl, sound := hsound, guess := ?_ }, ?_⟩
      · intro _
        simp [apply, ← hguess, hg, hlt']
      · simp [answer, hlt', hv]
    · rw [LogQueue.get_of_ge hg hge] at hsound ⊢
      refine ⟨{ ht with requested := rfl, sound := hsound, guess := ?_ }, ?_⟩
      · intro _
        simp [apply, ← hguess, hg, ← hcount, hge]
      · have hge' : ¬frame < h.count := by omega
        simp [answer, hge', ← hguess, hg, ht.lastOf]

theorem Tells.discard (ht : h.Tells a) {frame : ℕ}
    (hl : h.discarded ≤ frame ∧ (frame : ℤ) < h.requested) :
    (h.apply (.discardConfirmedFrames frame)).Tells (a.discard frame) := by
  have hreq : ¬isNull a.requested := by
    rw [ht.requested]
    simp only [isNull]
    omega
  rw [LogQueue.discard, if_neg hreq]
  refine { ht with start := ?_, floor := min_le_left _ _ }
  rw [apply, ← ht.count]

end History

namespace InputQueue

variable {I : Type} [Zeroable I] [BEq I] [Build]

/-- A legal call succeeds, answers as the history says, and keeps to it. -/
theorem exec_legal {q : InputQueue I} {h : History I} {a : LogQueue I} (hr : Refines q a)
    (ht : h.Tells a) {op : QueueOp I} (hl : h.Legal q op) :
    ∃ q', q.exec h.users op = .ok (h.answer op, q') ∧
      ∃ a', Refines q' a' ∧ (h.apply op).Tells a' := by
  have hdelay := ht.delay
  have hstart := ht.start
  cases op with
  | addInput x =>
    have hroom : h.users + h.delay + 1 ≤ h.floor + maxRollbackFrames :=
      (le_max_right _ _).trans hl
    obtain ⟨r, q', he, hr'⟩ := hr.addInput ⟨h.users, x⟩
      (Or.inr (by rw [ht.users]; ring)) (by rw [hdelay, hstart]; dsimp only; omega)
    exact ⟨q', by simp [exec, he, History.answer], _, hr', ht.addInput x⟩
  | setFrameDelay delay =>
    obtain ⟨q', he, hr'⟩ := hr.setFrameDelay (Int.natCast_nonneg delay)
    exact ⟨q', by simp [exec, he, History.answer], _, hr', { ht with delay := rfl }⟩
  | getInput frame =>
    obtain ⟨hnull, hreq, hfloor⟩ := hl
    rw [hr.incorrect] at hnull
    obtain ⟨q', he, hr'⟩ := hr.getInput hnull (hstart.le.trans hfloor)
    obtain ⟨ht', hans⟩ := ht.getInput hnull hreq
    exact ⟨q', by simp [exec, he, ← hans], _, hr', ht'⟩
  | resetPrediction frame =>
    have hl' : isNull a.incorrect ∨ frame ≤ a.incorrect := by rwa [← hr.incorrect]
    obtain ⟨q', he, hr'⟩ := hr.resetPrediction hl'
    exact ⟨q', by simp [exec, he, History.answer], _, hr', { ht with
      requested := rfl, sound := a.sound_reset, guess := fun _ => rfl }⟩
  | discardConfirmedFrames frame =>
    obtain ⟨hd, hreq⟩ := hl
    have hfloor := ht.floor
    have hnext : a.start ≤ frame + 1 := by omega
    obtain ⟨q', he, hr'⟩ := hr.discardConfirmedFrames frame (Or.inl hnext)
      (fun hnull => by
        rw [ht.requested] at hnull
        simp only [isNull] at hnull
        omega)
    exact ⟨q', by simp [exec, he, History.answer], _, hr', ht.discard ⟨hd, hreq⟩⟩

theorem run_tells {q : InputQueue I} {h : History I} (hrun : Run q h) :
    ∃ a, Refines q a ∧ h.Tells a := by
  induction hrun with
  | new delay => exact ⟨_, .new _, .new delay⟩
  | step op _ hl he ih =>
    obtain ⟨a, hr, ht⟩ := ih
    obtain ⟨q', he', a', hr', ht'⟩ := exec_legal hr ht hl
    rw [he'] at he
    obtain ⟨-, rfl⟩ := Prod.mk.inj (Except.ok.inj he)
    exact ⟨a', hr', ht'⟩

/-- In every run: the slots kept hold consecutive frames of the history, every legal call
succeeds with the answer of the history, and a prediction under way carries an input to which
all inputs added since compare equal, which is the last one where that is equality. -/
theorem run_answers {q : InputQueue I} {h : History I} (hrun : Run q h) :
    (h.floor + q.length = h.count ∧ ∀ i < q.length,
      q.inputs (Fin.ofNat maxRollbackFrames (q.tail + i)) =
        ⟨(h.floor + i : ℕ), h.valueAt (h.floor + i)⟩) ∧
    (∀ op, h.Legal q op → ∃ q', q.exec h.users op = .ok (h.answer op, q')) ∧
    (isNull q.firstIncorrectFrame → ∀ k ∈ h.guess, k ≤ h.count ∧
      ∀ j, k ≤ j → j < h.count → h.lastBefore k == h.valueAt j) ∧
    (LawfulBEq I → isNull q.firstIncorrectFrame →
      h.lastBefore (h.guess.getD h.count) = h.lastBefore h.count) := by
  obtain ⟨a, hr, ht⟩ := run_tells hrun
  have hcount := ht.count
  have hstart := ht.start
  have hlen := hr.length
  have hle := hr.start_le
  refine ⟨⟨by omega, fun i hi => ?_⟩, fun op hl => ?_, fun hnull k hk => ?_, fun _ hnull => ?_⟩
  · have hcell : Fin.ofNat maxRollbackFrames (q.tail + i) =
        Cyclic.cell maxRollbackFrames (h.floor + i) := by
      rw [hr.tail, hstart]
      exact Fin.ext (Nat.mod_add_mod _ _ _)
    have hj : h.floor + i < a.log.length := by omega
    have hv := ht.value (h.floor + i) (by omega)
    rw [List.getElem?_eq_getElem hj, Option.some.injEq] at hv
    rw [hcell, hr.inputs_cell (by omega) hj, hv]
  · obtain ⟨q', he, -⟩ := exec_legal hr ht hl
    exact ⟨q', he⟩
  · rw [hr.incorrect] at hnull
    rw [← ht.guess hnull] at hk
    obtain ⟨hk1, -, hsince⟩ := ht.sound hnull k hk
    refine ⟨by omega, fun j hj hlt => ?_⟩
    rw [← ht.basis (by omega)]
    exact hsince j _ hj (ht.value j hlt)
  · rw [hr.incorrect] at hnull
    cases hg : h.guess with
    | none => rfl
    | some k =>
      have hk : k ∈ a.guess := by rw [ht.guess hnull, hg]; rfl
      have hk1 := (ht.sound hnull k hk).1
      rw [Option.getD_some, ← ht.basis (by omega), ht.sound.basis_eq_lastOf hnull hk, ht.lastOf]

end InputQueue

open InputQueue (Run)

/-- A delayed input, requested twice. -/
theorem InputQueue.run_answers_delayed :
    letI : Build := ⟨true⟩
    letI : Zeroable UInt8 := ⟨0⟩
    ∃ (q : InputQueue UInt8) (h : History UInt8), h.accepted = [(1, 7)] ∧ h.requested = 1 ∧
      ∀ op, h.Legal q op → ∃ q', q.exec h.users op = .ok (h.answer op, q') :=
  letI : Build := ⟨true⟩
  letI : Zeroable UInt8 := ⟨0⟩
  ⟨_, _, rfl, rfl, (InputQueue.run_answers (.step (.getInput 1) (.step (.getInput 0)
    (.step (.addInput 7) (.new 1) (by decide) rfl) (by decide) rfl) (by decide) rfl)).2.1⟩

/-- Where unequal inputs compare equal, a prediction outlives the input it was based on. -/
theorem InputQueue.prediction_not_last :
    letI : Build := ⟨true⟩
    letI : Zeroable UInt8 := ⟨0⟩
    letI : BEq UInt8 := ⟨fun _ _ => true⟩
    ∃ (q : InputQueue UInt8) (h : History UInt8), Run q h ∧ h.Legal q (.getInput 3) ∧
      h.lastBefore h.count = 2 ∧
      ∃ q', q.exec h.users (.getInput 3) = .ok (some (.prediction ⟨3, 1⟩), q') :=
  letI : Build := ⟨true⟩
  letI : Zeroable UInt8 := ⟨0⟩
  letI : BEq UInt8 := ⟨fun _ _ => true⟩
  ⟨_, _, .step (.addInput 2) (.step (.getInput 2) (.step (.getInput 1) (.step (.getInput 0)
    (.step (.addInput 1) (.new 0) (by decide) rfl) (by decide) rfl) (by decide) rfl)
    (by decide) rfl) (by decide) rfl, by decide, rfl, _, rfl⟩

end Backroll

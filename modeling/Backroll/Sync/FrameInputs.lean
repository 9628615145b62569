import Backroll.Sync.Queues
import Backroll.Input.Discarding
import Mathlib.Logic.Relation

/-! The inputs of a frame as a client reads them, and when `synchronize_inputs` can give them.
The record has room for eight players and a flag for each of these. -/
namespace Backroll

open Fallible (Ends)

variable {n : ℕ} {I S : Type}

namespace GameInput

def get (inputs : GameInput I) (player : ℕ) : Except BackrollError I :=
  if h : player < maxPlayers then .ok (inputs.inputs ⟨player, h⟩)
  else .error (.invalidPlayer player)

def isDisconnected (inputs : GameInput I) (player : ℕ) : Except BackrollError Bool :=
  if player < maxPlayers then
    .ok (inputs.disconnected &&& (1 : BitVec maxPlayers) <<< player ≠ 0)
  else .error (.invalidPlayer player)

/-- The flag of one player and no other. -/
theorem getLsbD_flag (i p : Fin maxPlayers) :
    ((1 : BitVec maxPlayers) <<< i.val).getLsbD p = decide (p = i) := by
  revert i p
  decide

theorem getLsbD_or_flag (flags : BitVec maxPlayers) (i p : Fin maxPlayers) :
    (flags ||| (1 : BitVec maxPlayers) <<< i.val).getLsbD p =
      (flags.getLsbD p || decide (p = i)) := by
  rw [BitVec.getLsbD_or, getLsbD_flag]

theorem and_flag_ne_zero (flags : BitVec maxPlayers) (p : Fin maxPlayers) :
    flags &&& (1 : BitVec maxPlayers) <<< p.val ≠ 0 ↔ flags.getLsbD p = true := by
  rw [Ne, ← not_iff_not, not_not, Bool.not_eq_true]
  constructor
  · intro h
    have hbit := congrArg (BitVec.getLsbD · p) h
    simpa [BitVec.getLsbD_and, getLsbD_flag] using hbit
  · intro hclear
    refine BitVec.eq_of_getLsbD_eq fun j hj => ?_
    rw [BitVec.getLsbD_and, getLsbD_flag p ⟨j, hj⟩]
    by_cases h : (⟨j, hj⟩ : Fin maxPlayers) = p
    · subst h
      simpa using hclear
    · simp [h]

theorem isDisconnected_eq (inputs : GameInput I) (p : Fin maxPlayers) :
    inputs.isDisconnected p = .ok (inputs.disconnected.getLsbD p) := by
  rw [isDisconnected, if_pos p.isLt]
  congr 1
  exact Bool.eq_iff_iff.mpr (by rw [decide_eq_true_eq, and_flag_ne_zero])

theorem get_eq (inputs : GameInput I) (p : Fin maxPlayers) :
    inputs.get p = .ok (inputs.inputs p) := by
  rw [get, dif_pos p.isLt]

end GameInput

variable [Build] [Zeroable I]

namespace InputQueue

/-- With assertions checked, the queue stores consecutive frames, each in a slot of its own. -/
def Consistent (q : InputQueue I) : Prop :=
  Build.debugAssertions = true →
    q.length ≤ maxRollbackFrames ∧ ∃ log start, Stores q q.frameDelay log start

/-- The queue can be asked for the frame: nothing is stored for later frames only, and with
assertions checked no misprediction is marked. -/
def Serves (q : InputQueue I) (frame : ℤ) : Prop :=
  (Build.debugAssertions = true → isNull q.firstIncorrectFrame) ∧
    (Build.debugAssertions = true ∨ isNull q.prediction.frame → (q.inputs q.tail).frame ≤ frame)

variable {q : InputQueue I}

/-- What is stored behind the tail carries the label that is asked for. -/
theorem Consistent.label (h : q.Consistent) (hdebug : Build.debugAssertions = true) {frame : ℤ}
    (hge : (q.inputs q.tail).frame ≤ frame)
    (hlt : (frame - (q.inputs q.tail).frame).toNat < q.length) :
    (q.inputs (Fin.ofNat maxRollbackFrames
      ((frame - (q.inputs q.tail).frame).toNat + q.tail))).frame = frame := by
  obtain ⟨hroom, log, start, hstores⟩ := h hdebug
  have hlength := hstores.length
  have hslots := hstores.undamaged_iff.mpr hroom
  have htail := hslots 0 (by omega)
  have hslot := hslots _ hlt
  have hzero : Fin.ofNat maxRollbackFrames (q.tail + 0) = q.tail :=
    Fin.ext (Nat.mod_eq_of_lt q.tail.isLt)
  rw [hzero] at htail
  rw [Nat.add_comm, hslot]
  omega

omit [Zeroable I] in
/-- What is checked by an assertion and then goes on. -/
private theorem debugAssert_bind_ok {α : Type} {p : Prop} [Decidable p] {f : Unit → Except Panic α} :
    (∃ r, (debugAssert p >>= f) = .ok r) ↔
      (Build.debugAssertions = true → p) ∧ ∃ r, f () = .ok r := by
  by_cases h : Build.debugAssertions = true ∧ ¬p
  · simp [debugAssert, h.1, h.2]
  · have hok : debugAssert p = .ok () := if_neg h
    have hp : Build.debugAssertions = true → p := fun hb => by_contra fun hp => h ⟨hb, hp⟩
    rw [hok, Fallible.ok_bind]
    exact ⟨fun hr => ⟨hp, hr⟩, fun hr => hr.2⟩

theorem getInput_ok_iff (h : q.Consistent) (frame : ℤ) :
    (∃ r, q.getInput frame = .ok r) ↔ q.Serves frame := by
  rw [getInput, debugAssert_bind_ok]
  dsimp only
  rw [debugAssert_bind_ok]
  by_cases hidle : isNull q.prediction.frame
  · rw [if_pos hidle]
    by_cases hge : (q.inputs q.tail).frame ≤ frame
    · rw [toUsize_of_nonneg (by omega), Fallible.ok_bind]
      by_cases hlt : (frame - (q.inputs q.tail).frame).toNat < q.length
      · rw [if_pos hlt, debugAssert_bind_ok]
        simp only [Serves, hge, implies_true, and_true, Fallible.pure_eq_ok, Except.ok.injEq,
          exists_eq', true_and, and_iff_left_iff_imp]
        exact fun _ hdebug => h.label hdebug hge hlt
      · rw [if_neg hlt]
        simp [Serves, hge]
    · rw [toUsize_of_neg (by omega)]
      simp [Serves, hge, hidle]
  · rw [if_neg hidle]
    simp [Serves, hidle]

section Room

variable [BEq I]

omit [Zeroable I]

theorem addDelayedInput_room (q : InputQueue I) (frame : ℤ) (input : FrameInput I) :
    Ends (q.addDelayedInput frame input) (fun q' => Build.debugAssertions = true →
      q'.length ≤ maxRollbackFrames) fun _ => True := by
  unfold addDelayedInput
  have hend : ∀ q' : InputQueue I, Ends (do debugAssert (q'.length ≤ maxRollbackFrames); return q')
      (fun q' => Build.debugAssertions = true → q'.length ≤ maxRollbackFrames) fun _ => True :=
    fun q' => Ends.bind ((debugAssert_ends _).mono (fun _ h => h) fun _ _ => trivial) fun _ h => h
  refine .bind_any fun _ => .bind_any fun _ => ?_
  dsimp only
  split
  · exact .bind_any hend
  · simp only [Fallible.pure_eq_ok, Fallible.ok_bind]
    exact Ends.bind ((debugAssert_ends _).mono (fun _ h => h) fun _ _ => trivial) fun _ h => h

theorem padQueue_room (q : InputQueue I) (count : ℕ) (frame : ℤ) :
    Ends (q.padQueue count frame) (fun q' => Build.debugAssertions = true →
      q.length ≤ maxRollbackFrames → q'.length ≤ maxRollbackFrames) fun _ => True := by
  induction count generalizing q frame with
  | zero => exact fun _ => id
  | succ count ih =>
    exact (addDelayedInput_room q _ _).bind fun q₁ hq₁ =>
      (ih q₁ _).imp fun _ h hdebug _ => h hdebug (hq₁ hdebug)

theorem addInput_room (q : InputQueue I) (input : FrameInput I) :
    Ends (q.addInput input) (fun r => Build.debugAssertions = true →
      q.length ≤ maxRollbackFrames → r.2.length ≤ maxRollbackFrames) fun _ => True := by
  have hhead : ∀ q₁ : InputQueue I, Ends (q₁.advanceQueueHead input.frame) (fun r =>
      Build.debugAssertions = true → q₁.length ≤ maxRollbackFrames →
        r.2.length ≤ maxRollbackFrames) fun _ => True := by
    intro q₁
    unfold advanceQueueHead
    generalize (if q₁.firstFrame = true then 0 else
      (q₁.inputs (previousFrame q₁.head)).frame + 1) = expected
    dsimp only
    split
    · exact fun _ => id
    · exact (padQueue_room q₁ _ _).bind fun q₂ hq₂ => .bind_any fun _ => hq₂
  unfold addInput
  refine .bind_any fun _ => (hhead { q with lastUserAddedFrame := input.frame }).bind fun r hr => ?_
  dsimp only
  split
  · exact (addDelayedInput_room r.2 _ _).bind fun q₂ hq₂ hdebug _ => hq₂ hdebug
  · exact hr

end Room

theorem consistent_new (delay : ℤ) : (InputQueue.new delay : InputQueue I).Consistent :=
  fun _ => ⟨Nat.zero_le _, [], 0, (Follows.new delay).stores⟩

theorem respects_consistent :
    Respects fun q q' : InputQueue I => q.Consistent → q'.Consistent where
  refl _ := id
  trans h h' := h' ∘ h
  setFrameDelay q delay := .bind_any fun _ h hdebug => by
    obtain ⟨hroom, log, start, hstores⟩ := h hdebug
    exact ⟨hroom, log, start, { hstores with delay := rfl }⟩
  discardConfirmedFrames q frame := .of_forall fun q' hq' h hdebug => by
    obtain ⟨hroom, log, start, hstores⟩ := h hdebug
    have hframe : ¬isNull frame := by
      obtain ⟨_, hassert, -⟩ := Fallible.bind_eq_ok.mp hq'
      exact (debugAssert_ends (¬isNull frame)).ok hassert hdebug
    obtain ⟨m, rfl⟩ : ∃ m : ℕ, frame = m := ⟨frame.toNat, by simp only [isNull] at hframe; omega⟩
    obtain ⟨-, start', hle, -, hstores'⟩ := hstores.discard_ok hroom hq'
    have hlength := hstores.length
    have hlength' := hstores'.length
    exact ⟨by omega, log, start', { hstores' with delay := rfl }⟩
  resetPrediction q frame := .of_forall fun q' hq' h hdebug => by
    obtain ⟨hroom, log, start, hstores⟩ := h hdebug
    obtain ⟨hstores', -⟩ := hstores.resetPrediction hq'
    refine ⟨?_, log, start, { hstores' with delay := rfl }⟩
    rwa [hstores'.length, ← hstores.length]
  getInput q frame := .of_forall fun r hr h hdebug => by
    obtain ⟨hroom, log, start, hstores⟩ := h hdebug
    obtain ⟨hstores', -⟩ := hstores.getInput hr
    refine ⟨?_, log, start, { hstores' with delay := rfl }⟩
    rwa [hstores'.length, ← hstores.length]

theorem Consistent.addInput [BEq I] (h : q.Consistent) (input : FrameInput I) :
    Ends (q.addInput input) (fun r => r.2.Consistent) fun _ => True := by
  refine .of_forall fun r hr hdebug => ?_
  obtain ⟨hroom, log, start, hstores⟩ := h hdebug
  obtain ⟨-, log', hstores', -⟩ := (hstores.addInput input).ok hr
  exact ⟨(addInput_room q input).ok hr hdebug hroom, log', start, { hstores' with delay := rfl }⟩

end InputQueue

namespace Sync

/-- What `synchronize_inputs` is to say of a player: nothing but its own status and queue
count. -/
structure Entry (s : Sync n I S) (i : Fin n) (gone : Bool) (input : I) : Prop where
  flag : gone = s.isDisconnected i
  zero : gone = true → input = Zeroable.zeroed
  fetched : gone = false → ∃ fetched q, (s.inputQueues i).getInput s.frameCount = .ok (fetched, q) ∧
    input = fetched.unwrap.input

/-- Another `Sync` with the same player says the same of it. -/
theorem Entry.unique {s s₁ : Sync n I S} {i : Fin n} {gone gone₁ : Bool} {input input₁ : I}
    (h : s.Entry i gone input) (h₁ : s₁.Entry i gone₁ input₁)
    (hcount : s₁.frameCount = s.frameCount) (hqueue : s₁.inputQueues i = s.inputQueues i)
    (hstatus : s₁.localConnectStatus i = s.localConnectStatus i) :
    gone₁ = gone ∧ input₁ = input := by
  have hgone : gone₁ = gone := by
    rw [h.flag, h₁.flag, isDisconnected, isDisconnected, hstatus, hcount]
  refine ⟨hgone, ?_⟩
  subst hgone
  cases gone₁ with
  | true => rw [h.zero rfl, h₁.zero rfl]
  | false =>
    obtain ⟨fetched, q, hget, rfl⟩ := h.fetched rfl
    obtain ⟨fetched₁, q₁, hget₁, rfl⟩ := h₁.fetched rfl
    rw [hqueue, hcount, hget] at hget₁
    obtain ⟨rfl, -⟩ := Prod.mk.inj (Except.ok.inj hget₁)
    rfl

/-- The inputs gathered from the players below `k`, whatever the state. -/
structure Collected (s : Sync n I S) (k : ℕ) (out : GameInput I) (s' : Sync n I S) : Prop where
  room : k ≤ maxPlayers
  frame : out.frame = s.frameCount
  count : s'.frameCount = s.frameCount
  statuses : s'.localConnectStatus = s.localConnectStatus
  todo : ∀ i : Fin n, k ≤ i → s'.inputQueues i = s.inputQueues i
  rest : ∀ p : Fin maxPlayers, k ≤ p →
    out.disconnected.getLsbD p = false ∧ out.inputs p = Zeroable.zeroed
  entries : ∀ (i : Fin n) (p : Fin maxPlayers), i < k → p.val = i →
    s.Entry i (out.disconnected.getLsbD p) (out.inputs p)

theorem synchronizeInput_collected {s s' : Sync n I S} {out : GameInput I} {i : Fin n}
    (h : s.Collected i out s') :
    Ends (s'.synchronizeInput i out) (fun r => s.Collected (i + 1) r.1 r.2) fun _ =>
      ¬(n ≤ maxPlayers ∧ ∀ i, s.isDisconnected i = false →
        ∃ r, (s.inputQueues i).getInput s.frameCount = .ok r) := by
  have hgone : s'.isDisconnected i = s.isDisconnected i := by
    rw [isDisconnected, isDisconnected, h.statuses, h.count]
  have hi := i.isLt
  unfold synchronizeInput
  rw [hgone, h.todo i le_rfl]
  split
  · next hout =>
    split
    · next hroom =>
      have hflags := GameInput.getLsbD_or_flag out.disconnected ⟨i, hroom⟩
      refine ⟨hroom, h.frame, h.count, h.statuses, fun j hj => h.todo j (by omega),
        fun p hp => ?_, fun j p hj hp => ?_⟩
      · have hne : p ≠ ⟨i, hroom⟩ := fun heq => by simp [heq] at hp
        have hrest := h.rest p (by omega)
        exact ⟨(hflags p).trans (by rw [hrest.1, decide_eq_false hne, Bool.or_false]), hrest.2⟩
      · have hbit := hflags p
        dsimp only at hbit ⊢
        rw [hbit]
        by_cases heq : p = ⟨i, hroom⟩
        · obtain rfl : j = i := Fin.ext (by rw [← hp, heq])
          have hrest := h.rest p (by omega)
          rw [decide_eq_true heq, Bool.or_true]
          exact ⟨hout.symm, fun _ => hrest.2, fun hf => by simp at hf⟩
        · have hne : p.val ≠ i := fun hval => heq (Fin.ext hval)
          rw [decide_eq_false heq, Bool.or_false]
          exact h.entries j p (by omega) hp
    · next hroom => exact fun hcond => hroom (by omega)
  · next hin =>
    cases hget : (s.inputQueues i).getInput s'.frameCount with
    | error e =>
      intro hcond
      obtain ⟨r, hr⟩ := hcond.2 i (by simpa using hin)
      rw [← h.count, hget] at hr
      cases hr
    | ok r =>
      obtain ⟨fetched, q⟩ := r
      simp only [Fallible.ok_bind]
      split
      · next hroom =>
        refine ⟨hroom, h.frame, h.count, h.statuses, fun j hj => ?_, fun p hp => ?_,
          fun j p hj hp => ?_⟩
        · have hne : j ≠ i := by rintro rfl; omega
          simpa [hne] using h.todo j (by omega)
        · have hne : p ≠ ⟨i, hroom⟩ := fun heq => by simp [heq] at hp
          simpa [hne] using h.rest p (by omega)
        · by_cases heq : p = ⟨i, hroom⟩
          · obtain rfl : j = i := Fin.ext (by simp [heq] at hp; omega)
            have hrest := h.rest p (by omega)
            rw [hrest.1]
            refine ⟨by simpa using hin, fun hf => by simp at hf, fun _ => ⟨fetched, q, ?_, ?_⟩⟩
            · rw [← h.count, hget]
            · simp [heq]
          · have hne : p.val ≠ i := fun hval => heq (Fin.ext hval)
            simpa [heq] using h.entries j p (by omega) hp
      · next hroom => exact fun hcond => hroom (by omega)

theorem synchronizeInputs_collected (s : Sync n I S) :
    Ends s.synchronizeInputs (fun r => s.Collected n r.1 r.2) fun _ =>
      ¬(n ≤ maxPlayers ∧ ∀ i, s.isDisconnected i = false →
        ∃ r, (s.inputQueues i).getInput s.frameCount = .ok r) := by
  unfold synchronizeInputs
  refine Fallible.forEach_ends (fun k (r : GameInput I × Sync n I S) => s.Collected k r.1 r.2) ?_ ?_
  · refine ⟨Nat.zero_le _, rfl, rfl, rfl, fun _ _ => rfl, fun p _ => ⟨?_, rfl⟩, fun i p hi => ?_⟩
    · exact BitVec.getLsbD_zero
    · omega
  · rintro i ⟨out, s'⟩ h
    exact synchronizeInput_collected h

/-- The inputs of the frame can be gathered, and say of every player what is to be said: its
flag is set just when it is out of the game before the frame, its input is zero then and what
its queue answers otherwise, and whoever shares its status and queue at that frame reads the
same of it. -/
def Synchronizes (s : Sync n I S) : Prop :=
  ∃ inputs s', s.synchronizeInputs = .ok (inputs, s') ∧ inputs.frame = s.frameCount ∧
    ∀ i : Fin n, ∃ gone input, inputs.isDisconnected i = .ok gone ∧ inputs.get i = .ok input ∧
      (gone = true ↔ (s.localConnectStatus i).disconnected = true ∧
        (s.localConnectStatus i).lastFrame < inputs.frame) ∧
      (gone = true → input = Zeroable.zeroed) ∧
      (gone = false → ∃ fetched q,
        (s.inputQueues i).getInput inputs.frame = .ok (fetched, q) ∧ input = fetched.unwrap.input) ∧
      ∀ (s₁ : Sync n I S) inputs₁ s₁', s₁.synchronizeInputs = .ok (inputs₁, s₁') →
        s₁.frameCount = s.frameCount → s₁.inputQueues i = s.inputQueues i →
        s₁.localConnectStatus i = s.localConnectStatus i →
        inputs₁.isDisconnected i = .ok gone ∧ inputs₁.get i = .ok input

theorem Collected.reads {s s' : Sync n I S} {inputs : GameInput I}
    (h : s.Collected n inputs s') (i : Fin n) : ∃ gone input,
      inputs.isDisconnected i = .ok gone ∧ inputs.get i = .ok input ∧ s.Entry i gone input := by
  have hroom := h.room
  have hi := i.isLt
  exact ⟨_, _, inputs.isDisconnected_eq ⟨i, by omega⟩, inputs.get_eq ⟨i, by omega⟩,
    h.entries i ⟨i, by omega⟩ hi rfl⟩

theorem synchronizes_iff_getInput (s : Sync n I S) :
    s.Synchronizes ↔ n ≤ maxPlayers ∧ ∀ i, s.isDisconnected i = false →
      ∃ r, (s.inputQueues i).getInput s.frameCount = .ok r := by
  constructor
  · rintro ⟨inputs, s', hok, hframe, hreads⟩
    have hall := s.synchronizeInputs_collected.ok hok
    refine ⟨hall.room, fun i hin => ?_⟩
    obtain ⟨gone, input, -, -, hentry⟩ := hall.reads i
    obtain ⟨fetched, q, hget, -⟩ := hentry.fetched (hentry.flag.trans hin)
    exact ⟨_, hget⟩
  · intro hcond
    obtain ⟨⟨inputs, s'⟩, hok, hall⟩ :=
      (s.synchronizeInputs_collected.mono (fun _ h => h) fun _ h => h hcond).total
    refine ⟨inputs, s', hok, hall.frame, fun i => ?_⟩
    obtain ⟨gone, input, hgone, hinput, hentry⟩ := hall.reads i
    refine ⟨gone, input, hgone, hinput, ?_, hentry.zero, ?_, ?_⟩
    · rw [hentry.flag, hall.frame]
      simp [isDisconnected]
    · rw [hall.frame]
      exact hentry.fetched
    · intro s₁ inputs₁ s₁' hok₁ hcount hqueue hstatus
      obtain ⟨gone₁, input₁, hgone₁, hinput₁, hentry₁⟩ :=
        (s₁.synchronizeInputs_collected.ok hok₁).reads i
      obtain ⟨rfl, rfl⟩ := hentry.unique hentry₁ hcount hqueue hstatus
      exact ⟨hgone₁, hinput₁⟩

/-- Where the queues are consistent, they can be asked when they have what is asked for. -/
theorem synchronizes_iff {s : Sync n I S} (h : ∀ i, (s.inputQueues i).Consistent) :
    s.Synchronizes ↔ n ≤ maxPlayers ∧ ∀ i, s.isDisconnected i = false →
      (s.inputQueues i).Serves s.frameCount := by
  rw [synchronizes_iff_getInput]
  simp only [fun i => InputQueue.getInput_ok_iff (h i)]

/-- The queues of a `Sync` store consecutive frames. -/
def Consistent (s : Sync n I S) : Prop := ∀ i, (s.inputQueues i).Consistent

theorem Consistent.queues {s s' : Sync n I S} (h : s.Consistent)
    (hq : Queues (fun q q' => q.Consistent → q'.Consistent) s s') : s'.Consistent :=
  fun i => hq i (h i)

theorem Consistent.update {s : Sync n I S} (h : s.Consistent) {i : Fin n} {q : InputQueue I}
    (hq : q.Consistent) (j : Fin n) : (Function.update s.inputQueues i q j).Consistent := by
  by_cases hj : j = i
  · subst hj
    rwa [Function.update_self]
  · rw [Function.update_of_ne hj]
    exact h j

variable [BEq I]

/-- What a session and its client do to a `Sync`, one thing after another: every call of the
session is made up of these. -/
inductive Step : Sync n I S → Sync n I S → Prop
  | statuses (s : Sync n I S) (statuses : Fin n → ConnectionStatus) :
    Step s { s with localConnectStatus := statuses }
  | rollingBack (s : Sync n I S) (flag : Bool) : Step s { s with rollingBack := flag }
  | frames (s : Sync n I S) (frames : Fin numCells → SavedFrame S) :
    Step s { s with savedState := { s.savedState with frames := frames } }
  | saveCurrentFrame (s : Sync n I S) : Step s s.saveCurrentFrame.2
  | nextFrame (s : Sync n I S) : Step s { s with frameCount := s.frameCount + 1 }
  | synchronizeInputs (s inputs s') (h : s.synchronizeInputs = .ok (inputs, s')) : Step s s'
  | loadFrame (s frame commands s') (h : s.loadFrame frame = .ok (commands, s')) : Step s s'
  | resetPrediction (s frame s') (h : s.resetPrediction frame = .ok s') : Step s s'
  | setLastConfirmedFrame (s frame s') (h : s.setLastConfirmedFrame frame = .ok s') : Step s s'
  | setFrameDelay (s queue delay s') (h : s.setFrameDelay queue delay = .ok s') : Step s s'
  | addLocalInput (s queue input result s') (h : s.addLocalInput queue input = .ok (result, s')) :
    Step s s'
  | addRemoteInput (s queue input s') (h : s.addRemoteInput queue input = .ok s') : Step s s'

/-- Any number of steps. -/
abbrev Reaches : Sync n I S → Sync n I S → Prop := Relation.ReflTransGen Step

theorem Step.consistent {s s' : Sync n I S} (h : Step s s') (hs : s.Consistent) :
    s'.Consistent := by
  have hR := InputQueue.respects_consistent (I := I)
  cases h with
  | statuses | rollingBack | frames | saveCurrentFrame | nextFrame => exact hs
  | synchronizeInputs inputs s' hok => exact hs.queues ((synchronizeInputs_queues hR s).ok hok)
  | loadFrame frame commands s' hok =>
    intro i
    rw [(loadFrame_inputQueues s frame).ok hok]
    exact hs i
  | resetPrediction frame s' hok =>
    obtain ⟨queues, hqueues, hok⟩ := Fallible.bind_eq_ok.mp hok
    obtain rfl := Except.ok.inj hok
    have hall := (mapQueues_ends fun i => hR.resetPrediction (s.inputQueues i) frame).ok hqueues
    exact fun i => hall i (hs i)
  | setLastConfirmedFrame frame s' hok =>
    exact hs.queues ((setLastConfirmedFrame_queues hR s frame).ok hok)
  | setFrameDelay queue delay s' hok => exact hs.queues ((setFrameDelay_queues hR s queue delay).ok hok)
  | addLocalInput queue input result s' hok =>
    unfold Sync.addLocalInput at hok
    dsimp only at hok
    split at hok
    · obtain rfl := (Prod.mk.inj (Except.ok.inj hok)).2
      exact hs
    · obtain ⟨r, hr, hok⟩ := Fallible.bind_eq_ok.mp hok
      obtain rfl := (Prod.mk.inj (Except.ok.inj hok)).2
      exact hs.update ((hs queue).addInput _ |>.ok hr)
  | addRemoteInput queue input s' hok =>
    obtain ⟨r, hr, hok⟩ := Fallible.bind_eq_ok.mp hok
    obtain rfl := Except.ok.inj hok
    exact hs.update ((hs queue).addInput _ |>.ok hr)

theorem Reaches.consistent {s s' : Sync n I S} (h : s.Reaches s') (hs : s.Consistent) :
    s'.Consistent := by
  induction h with
  | refl => exact hs
  | tail _ hstep ih => exact hstep.consistent ih

/-! Every loop of the simulation takes these steps. -/

theorem incrementFrame_reaches (s : Sync n I S) :
    Ends s.incrementFrame (fun r => s.Reaches r.2) fun _ => True := by
  unfold incrementFrame
  obtain ⟨first, s₁, hfirst, hreach⟩ : ∃ first s₁,
      (if s.frameCount = 0 then s.saveCurrentFrame else ([], s)) = (first, s₁) ∧ s.Reaches s₁ := by
    split
    · exact ⟨_, _, rfl, .single (.saveCurrentFrame s)⟩
    · exact ⟨_, _, rfl, .refl⟩
  rw [hfirst]
  refine (Ends.of_forall fun r hr => hr).bind fun r hr => ?_
  exact ((hreach.tail (.synchronizeInputs s₁ r.1 r.2 hr)).tail (.nextFrame r.2)).tail
    (.saveCurrentFrame _)

theorem adjustSimulation_reaches (s : Sync n I S) (seekTo : ℤ) :
    Ends (s.adjustSimulation seekTo) (fun r => s.Reaches r.2) fun _ => True := by
  unfold adjustSimulation
  have hflag : s.Reaches { s with rollingBack := true } := .single (.rollingBack s true)
  refine (Ends.of_forall fun r hr => hr).bind fun r hr => ?_
  obtain ⟨load, s₁⟩ := r
  have hload := hflag.tail (.loadFrame _ seekTo load s₁ hr)
  refine .bind_any fun _ => (Ends.of_forall fun s₂ hs₂ => hs₂).bind fun s₂ hs₂ => ?_
  have hreset := hload.tail (.resetPrediction s₁ _ s₂ hs₂)
  refine (Fallible.times_ends (fun _ (r : List (Command I) × Sync n I S) => s.Reaches r.2)
    hreset ?_).bind fun r hr => .bind_any fun _ => hr.tail (.rollingBack r.2 false)
  rintro k ⟨commands, s₃⟩ - h
  exact (incrementFrame_reaches s₃).bind fun r hr => h.trans hr

theorem checkSimulation_reaches (s : Sync n I S) :
    Ends s.checkSimulation (fun r => s.Reaches r.2) fun _ => True := by
  unfold checkSimulation
  split
  · exact adjustSimulation_reaches s _
  · exact .refl

end Sync

end Backroll

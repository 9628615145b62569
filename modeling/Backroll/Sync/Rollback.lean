import Backroll.Sync.Ring
import Backroll.Sync.Sync

/-! What a frame and a rollback do to the saved states, whatever the input queues answer: the
client's state is always the replay of the inputs it last used for each frame. -/
namespace Backroll

open Fallible (Ends)
open Snapshots (Exposes Op)
open Cyclic (cell)

variable {n : ℕ} {I S : Type}

namespace Sync

/-- What the simulation does not touch. -/
structure Unchanged (s s' : Sync n I S) : Prop where
  rollingBack : s'.rollingBack = s.rollingBack
  lastConfirmedFrame : s'.lastConfirmedFrame = s.lastConfirmedFrame
  localConnectStatus : s'.localConnectStatus = s.localConnectStatus

theorem Unchanged.trans {s s₁ s₂ : Sync n I S} (h : Unchanged s s₁) (h' : Unchanged s₁ s₂) : Unchanged s s₂ :=
  ⟨h'.rollingBack.trans h.rollingBack, h'.lastConfirmedFrame.trans h.lastConfirmedFrame,
    h'.localConnectStatus.trans h.localConnectStatus⟩

end Sync

variable [Client I S]

/-- The state before a frame when the frames before it are stepped in order. -/
def replay (init : S) (used : ℕ → GameInput I) : ℕ → S
  | 0 => init
  | frame + 1 => Client.step (replay init used frame) (used frame)

theorem replay_congr {init : S} {used used' : ℕ → GameInput I} {frame : ℕ}
    (h : ∀ f < frame, used' f = used f) : replay init used' frame = replay init used frame := by
  induction frame with
  | zero => rfl
  | succ frame ih =>
    rw [replay, replay, ih fun f hf => h f (by omega), h frame (Nat.lt_succ_self _)]

theorem replay_update (init : S) (used : ℕ → GameInput I) (inputs : GameInput I) {frame cur : ℕ}
    (h : frame ≤ cur) :
    replay init (Function.update used cur inputs) frame = replay init used frame :=
  replay_congr fun _ hf => Function.update_of_ne (by omega) _ _

namespace Sync

/-- The session stands before frame `cur`, and the frames from `lo` on can be gone back to. -/
structure Stands (s : Sync n I S) (off lo cur : ℕ) (v : View I S) (init : S) : Prop where
  frameCount : s.frameCount = cur
  lo_le : lo ≤ cur
  start : cur = 0 → s.savedState.Start off v init
  ring : cur ≠ 0 → s.savedState.Ring off lo cur v (replay init v.used)
  state : v.state = replay init v.used cur

/-- The session has issued commands that took its client from one view to another. -/
structure Issues (s s' : Sync n I S) (cs : List (Command I)) (v v' : View I S) : Prop where
  runs : Runs cs v v'
  frames : s'.savedState.frames = resets cs s.savedState.frames

variable {s s₁ s₂ : Sync n I S} {cs more : List (Command I)} {off lo cur : ℕ} {v v₁ v₂ : View I S}
  {init : S}

theorem Issues.append (h : Issues s s₁ cs v v₁) (h' : Issues s₁ s₂ more v₁ v₂) :
    Issues s s₂ (cs ++ more) v v₂ :=
  ⟨h.runs.append h'.runs, by rw [h'.frames, h.frames, resets_append]⟩

theorem Stands.setFrames (h : s.Stands off lo cur v init) {frames : Fin numCells → SavedFrame S}
    (hlabel : ∀ c, (frames c).frame = (s.savedState.frames c).frame) :
    ({ s with savedState := { s.savedState with frames := frames } } : Sync n I S).Stands
      off lo cur v init :=
  ⟨h.frameCount, h.lo_le, fun h0 => (h.start h0).setFrames hlabel,
    fun h0 => (h.ring h0).setFrames hlabel, h.state⟩

/-- Before frame 0 is simulated, it is saved. -/
theorem saveFirst (h : s.Stands off lo cur v init) : ∃ cs s₁ v₁,
    (if s.frameCount = 0 then s.saveCurrentFrame else ([], s)) = (cs, s₁) ∧
    s₁ = { s with savedState := s₁.savedState } ∧ Issues s s₁ cs v v₁ ∧
    s₁.savedState.Ring off lo cur v₁ (replay init v.used) ∧ v₁.used = v.used ∧
    v₁.state = v.state ∧ advances cs = [] ∧ Seeks (fun _ => False) cs ∧
    (∀ more : List (Command I), target (cs ++ more) = target more) ∧ (∀ c, ¬Exposes c (ops S cs)) ∧
    ∀ c, Op.save c ∈ ops S cs ↔ cur = 0 ∧ c = cell numCells off := by
  have hfc := h.frameCount
  by_cases h0 : cur = 0
  · subst h0
    obtain rfl : lo = 0 := Nat.le_zero.mp h.lo_le
    have hstart := h.start rfl
    have hhead := hstart.head
    rw [if_pos (by simpa using hfc), saveCurrentFrame, hfc]
    refine ⟨_, _, v.save s.savedState.head (0 : ℕ), rfl, rfl, ⟨⟨le_rfl, rfl⟩, rfl⟩,
      SavedState.Start.push hstart (h.state : _ = replay init v.used 0), rfl, rfl, rfl, trivial, fun _ => rfl,
      fun c hc => ?_, fun c => ?_⟩
    · exact hc.2
    · simp [Command.op, hhead]
  · rw [if_neg (by rw [hfc]; omega)]
    exact ⟨[], s, v, rfl, rfl, ⟨rfl, rfl⟩, h.ring h0, rfl, rfl, rfl, trivial,
      fun _ => rfl, fun _ hc => hc, by simp [h0]⟩

/-- How far the frames are moved on once a rollback has gone to frame `t`. -/
def shifted (off t : ℕ) : ℕ := if t = 0 then 1 else off

theorem slot_shifted {off t t₁ : ℕ} (h : t₁ ≤ t) : slot (shifted off t) t₁ = slot off t₁ := by
  unfold slot shifted
  split
  · rfl
  · rw [if_neg (by omega)]

/-- The load of a rollback. -/
theorem loadFrame_eq (h : s.Stands off lo cur v init) {t : ℕ} (hlo : lo ≤ t) (ht : t < cur) :
    ∃ s₁, s.loadFrame t = .ok ([.load (slot off t)], s₁) ∧ Unchanged s s₁ ∧
      s₁.inputQueues = s.inputQueues ∧ s₁.savedState.frames = s.savedState.frames ∧
      s₁.Stands (shifted off t) lo t { v with state := replay init v.used t } init ∧
      v.cells (slot off t) = some (replay init v.used t) ∧
      v.saved t = some (replay init v.used t) := by
  have hring := h.ring (by omega)
  have hlabel := hring.label_slot hlo ht.le
  unfold loadFrame
  rw [if_neg (by rw [h.frameCount]; omega), hring.resetTo hlo ht.le]
  refine ⟨_, rfl, ⟨rfl, rfl, rfl⟩, rfl, rfl, ⟨hlabel, hlo, fun h0 => ?_, fun h0 => ?_, rfl⟩,
    hring.data t _ hlo ht.le hlabel, hring.saved t hlo ht.le⟩
  · subst h0
    exact hring.load_zero (Nat.le_zero.mp hlo)
  · rw [shifted, if_neg h0]
    exact hring.load h0 hlo ht.le

variable [Build] [Zeroable I]

/-- What is asked of the queues for one frame: that they answer, and nothing else changes. -/
def Fetches (s : Sync n I S) (frame : ℕ) (post : GameInput I → (Fin n → InputQueue I) → Prop)
    (fault : Panic → Prop) : Prop :=
  Ends s.synchronizeInputs (fun r => r.2 = { s with inputQueues := r.2.inputQueues } ∧
    r.1.frame = frame ∧ post r.1 r.2.inputQueues) fault

/-- One frame: it is saved first when it is frame 0, and the next one is saved once the client
has stepped. -/
theorem incrementFrame_ends (h : s.Stands off lo cur v init) {lo' : ℕ} (hlo : lo ≤ lo')
    (hlo' : lo' ≤ cur + 1) (hspan : cur + 1 ≤ lo' + maxPredictionFrames)
    {post : GameInput I → (Fin n → InputQueue I) → Prop} {fault : Panic → Prop}
    (hfetch : ∀ savedState : SavedState S,
      Fetches { s with savedState := savedState } cur post fault) :
    Ends s.incrementFrame (fun r => ∃ inputs v',
      post inputs r.2.inputQueues ∧ inputs.frame = cur ∧
      Unchanged s r.2 ∧ Issues s r.2 r.1 v v' ∧ v'.used = Function.update v.used cur inputs ∧
      r.2.Stands off lo' (cur + 1) v' init ∧ advances r.1 = [inputs] ∧
      Seeks (fun _ => False) r.1 ∧ target r.1 = some (cur : ℤ) ∧ (∀ c, ¬Exposes c (ops S r.1)) ∧
      ∀ c, Op.save c ∈ ops S r.1 ↔ c = cell numCells (cur + 1 + off) ∨
        cur = 0 ∧ c = cell numCells off) fault := by
  have hfc := h.frameCount
  obtain ⟨first, s₁, v₁, hfirst, hs₁, hiss₁, hring₁, hused₁, hstate₁, hadv₁, hseek₁, htgt₁,
    hexp₁, hsave₁⟩ :=
    saveFirst h
  unfold incrementFrame
  rw [hfirst]
  dsimp only
  have hf := hfetch s₁.savedState
  rw [← hs₁] at hf
  refine Ends.bind hf fun r hr => ?_
  obtain ⟨inputs, s₂⟩ := r
  obtain ⟨hs₂, hframe, hpost⟩ := hr
  dsimp only at hs₂ hframe hpost
  have hfc₂ : s₂.frameCount = cur := by rw [hs₂, hs₁, ← hfc]
  have hsaved₂ : s₂.savedState = s₁.savedState := by rw [hs₂]
  have hused : (v₁.step inputs).used = Function.update v.used cur inputs := by
    simp [View.step, hframe, hused₁]
  have hstate : (v₁.step inputs).state = replay init (v₁.step inputs).used (cur + 1) := by
    rw [hused, replay, replay_update init _ _ le_rfl, Function.update_self, ← h.state, ← hstate₁]
    rfl
  have hpush := hring₁.push hlo hlo' hspan (v₁.step inputs)
    (replay init (v₁.step inputs).used) rfl rfl hstate
    fun frame hle => by rw [hused, replay_update init _ _ hle]
  have hfc₃ : s₂.frameCount + 1 = ((cur + 1 : ℕ) : ℤ) := by rw [hfc₂]; push_cast; rfl
  simp only [saveCurrentFrame, hfc₃, hsaved₂]
  refine ⟨inputs, (v₁.step inputs).save s₁.savedState.head (cur + 1 : ℕ), hpost, hframe, ?_, ?_,
    hused, ?_, ?_, ?_, ?_, ?_, ?_⟩
  · rw [hs₂, hs₁]
    exact ⟨rfl, rfl, rfl⟩
  · rw [List.append_assoc]
    refine hiss₁.append ⟨⟨Int.natCast_nonneg _, rfl⟩, rfl⟩
  · exact ⟨rfl, hlo', fun h0 => absurd h0 (by omega), fun _ => hpush, hstate⟩
  · simp only [advances_append, hadv₁]
    rfl
  · rw [List.append_assoc]
    exact hseek₁.append trivial
  · rw [List.append_assoc, htgt₁, ← hframe]
    rfl
  · intro c hc
    rw [List.append_assoc, ops_append, Snapshots.exposes_append] at hc
    rcases hc with hc | ⟨-, -, hc⟩
    · exact hexp₁ c hc
    · exact hc
  · intro c
    rw [List.append_assoc, ops_append, List.mem_append, hsave₁, or_comm]
    refine or_congr ?_ Iff.rfl
    rw [← hring₁.head]
    simp [Command.op, SavedState.push]

/-- The commands that simulate `k` frames from `t` on. -/
structure Resimulates (s s' : Sync n I S) (cs : List (Command I)) (v v' : View I S)
    (off lo t k : ℕ) (init : S) : Prop where
  unchanged : Unchanged s s'
  issues : Issues s s' cs v v'
  stands : s'.Stands off lo (t + k) v' init
  used : ∀ f, f < t ∨ t + k ≤ f → v'.used f = v.used f
  target : target cs = if k = 0 then none else some (t : ℤ)
  advances : (advances cs).map (·.frame) = (List.range' t k).map (↑)
  seeks : Seeks (fun _ => False) cs
  exposes : ∀ c, ¬Exposes c (ops S cs)
  saves : ∀ c, Op.save c ∈ ops S cs ↔
    (∃ f, t < f ∧ f ≤ t + k ∧ c = cell numCells (f + off)) ∨ t = 0 ∧ 0 < k ∧ c = cell numCells off

/-- The loop of a rollback, with an invariant on the queues from frame to frame. -/
theorem resimulate_ends {t : ℕ} (h : s.Stands off lo t v init) {k : ℕ}
    (hspan : t + k ≤ lo + maxPredictionFrames) {P : ℕ → (Fin n → InputQueue I) → Prop}
    {R : ℕ → GameInput I → Prop} {fault : Panic → Prop} (h0 : P t s.inputQueues)
    (hfetch : ∀ f (s' : Sync n I S), t ≤ f → f < t + k →
      s'.localConnectStatus = s.localConnectStatus → s'.frameCount = f → P f s'.inputQueues →
      Fetches s' f (fun inputs queues => R f inputs ∧ P (f + 1) queues) fault)
    (load : List (Command I)) :
    Ends (Fallible.times k (fun (commands, s) => do
        let (more, s) ← s.incrementFrame
        return (commands ++ more, s)) (load, s))
      (fun r : List (Command I) × Sync n I S => ∃ cs v', r.1 = load ++ cs ∧ Resimulates s r.2 cs v v' off lo t k init ∧
        P (t + k) r.2.inputQueues ∧ ∀ f, t ≤ f → f < t + k → R f (v'.used f)) fault := by
  refine Fallible.times_ends (fun i (r : List (Command I) × Sync n I S) => ∃ cs v', r.1 = load ++ cs ∧
    Resimulates s r.2 cs v v' off lo t i init ∧ P (t + i) r.2.inputQueues ∧
    ∀ f, t ≤ f → f < t + i → R f (v'.used f)) ?_ ?_
  · refine ⟨[], v, by simp, ⟨⟨rfl, rfl, rfl⟩, ⟨rfl, rfl⟩, h, fun _ _ => rfl, rfl, rfl, trivial,
      fun _ hc => hc, fun c => ?_⟩, h0, fun f _ _ => by omega⟩
    simp only [ops_nil, List.not_mem_nil, Nat.add_zero, lt_irrefl, false_and, and_false, or_false,
      false_iff, not_exists, not_and]
    omega
  · rintro i ⟨commands, s₁⟩ hi ⟨cs, v₁, rfl, hre, hP, hR⟩
    have hinc := incrementFrame_ends hre.stands le_rfl
      (hre.stands.lo_le.trans (Nat.le_succ _)) (by omega)
      fun savedState => hfetch (t + i) { s₁ with savedState := savedState } (by omega) (by omega)
        hre.unchanged.localConnectStatus hre.stands.frameCount hP
    refine Ends.bind hinc fun r hr => ?_
    obtain ⟨more, s₂⟩ := r
    obtain ⟨inputs, v₂, ⟨hRi, hPi⟩, hframe, hsame, hiss, hused, hstands, hadv, hseek, htgt, hexp,
      hsaves⟩ := hr
    refine ⟨cs ++ more, v₂, by simp, ⟨hre.unchanged.trans hsame, hre.issues.append hiss, hstands,
      fun f hf => ?_, ?_, ?_, hre.seeks.append hseek, fun c hc => ?_, fun c => ?_⟩, hPi, fun f hge hlt => ?_⟩
    · rw [hused, Function.update_of_ne (by omega)]
      exact hre.used f (by omega)
    · have htgt₁ := hre.target
      rw [if_neg (Nat.succ_ne_zero i)]
      split at htgt₁
      · next hi0 =>
        rw [target_append_of_none htgt₁, htgt, hi0]
        rfl
      · exact target_append htgt₁ more
    · rw [advances_append, List.map_append, hre.advances, hadv, List.range'_concat, List.map_append]
      simp [hframe]
    · rw [ops_append, Snapshots.exposes_append] at hc
      rcases hc with hc | ⟨-, hc⟩
      · exact hre.exposes c hc
      · exact hexp c hc
    · rw [ops_append, List.mem_append, hre.saves, hsaves]
      constructor
      · rintro ((⟨f, hf, hf', rfl⟩ | ⟨ht, -, rfl⟩) | rfl | ⟨ht, rfl⟩)
        · exact .inl ⟨f, hf, by omega, rfl⟩
        · exact .inr ⟨ht, Nat.succ_pos i, rfl⟩
        · exact .inl ⟨t + i + 1, by omega, by omega, rfl⟩
        · exact .inr ⟨by omega, Nat.succ_pos i, rfl⟩
      · rintro (⟨f, hf, hf', rfl⟩ | ⟨ht, -, rfl⟩)
        · rcases Nat.lt_or_ge (t + i) f with hlt | hge
          · obtain rfl : f = t + i + 1 := by omega
            exact .inr (.inl rfl)
          · exact .inl (.inl ⟨f, hf, hge, rfl⟩)
        · rcases Nat.eq_zero_or_pos i with hi0 | hpos
          · exact .inr (.inr ⟨by omega, rfl⟩)
          · exact .inl (.inr ⟨ht, hpos, rfl⟩)
    · rw [hused]
      rcases Nat.lt_or_ge f (t + i) with hlt' | hge'
      · rw [Function.update_of_ne (by omega)]
        exact hR f hge hlt'
      · obtain rfl : f = t + i := by omega
        rw [Function.update_self]
        exact hRi

/-- The commands of a rollback to `t`, as far as the cells are concerned. -/
structure Rewinds (cs : List (Command I)) (off lo cur t : ℕ) : Prop where
  exposes : ∀ c, Exposes c (ops S cs) → c = slot off t
  spares : ∀ t₁, lo ≤ t₁ → t₁ ≤ t → Op.save (slot off t₁) ∉ ops S cs
  fills : ∀ f, t < f → f ≤ cur → Op.save (slot (shifted off t) f) ∈ ops S cs
  advances : (advances cs).map (·.frame) = (List.range' t (cur - t)).map (↑)
  seeks : Seeks (· = (t : ℤ)) cs

/-- A rollback to a frame that can be gone back to, with an invariant on the queues. -/
theorem adjustSimulation_ends (h : s.Stands off lo cur v init) (hback : s.rollingBack = false)
    {t : ℕ} (hlo : lo ≤ t) (ht : t < cur) {P : ℕ → (Fin n → InputQueue I) → Prop}
    {R : ℕ → GameInput I → Prop} {fault : Panic → Prop}
    (hreset : Ends (mapQueues (·.resetPrediction t) s.inputQueues) (P t) fault)
    (hfetch : ∀ f (s' : Sync n I S), t ≤ f → f < cur →
      s'.localConnectStatus = s.localConnectStatus → s'.frameCount = f → P f s'.inputQueues →
      Fetches s' f (fun inputs queues => R f inputs ∧ P (f + 1) queues) fault) :
    Ends (s.adjustSimulation t) (fun r => ∃ v', Unchanged s r.2 ∧ Issues s r.2 r.1 v v' ∧
      r.2.Stands (shifted off t) lo cur v' init ∧ Rewinds (S := S) r.1 off lo cur t ∧
      P cur r.2.inputQueues ∧ (∀ f, f < t ∨ cur ≤ f → v'.used f = v.used f) ∧
      ∀ f, t ≤ f → f < cur → R f (v'.used f)) fault := by
  have hfc := h.frameCount
  have hspan := (h.ring (by omega)).span
  have h' : ({ s with rollingBack := true } : Sync n I S).Stands off lo cur v init :=
    ⟨hfc, h.lo_le, h.start, h.ring, h.state⟩
  obtain ⟨s₁, hload, hun₁, hqueues₁, hframes₁, hstands₁, hcell, hsaved⟩ := loadFrame_eq h' hlo ht
  have hfc₁ := hstands₁.frameCount
  unfold adjustSimulation
  simp only [hload, Fallible.ok_bind]
  rw [debugAssert_of hfc₁]
  simp only [Fallible.ok_bind]
  have hcount : (s.frameCount - (t : ℤ)).toNat = cur - t := by omega
  rw [hcount]
  unfold resetPrediction
  rw [hqueues₁, hfc₁, bind_assoc]
  refine Ends.bind hreset fun queues hP => ?_
  have hstands₂ : ({ s₁ with inputQueues := queues, frameCount := t } : Sync n I S).Stands
      (shifted off t) lo t { v with state := replay init v.used t } init :=
    ⟨rfl, hlo, hstands₁.start, hstands₁.ring, hstands₁.state⟩
  rw [pure_bind]
  have hloop := resimulate_ends hstands₂ (k := cur - t) (by omega) hP
    (fun f s' hge hlt hst hf hPf => hfetch f s' hge (by omega)
      (hst.trans hun₁.localConnectStatus) hf hPf) [.load (slot off t)]
  refine Ends.bind hloop fun r hr => ?_
  obtain ⟨commands, s₂⟩ := r
  obtain ⟨cs, v', hcs, hre, hPf, hR⟩ := hr
  dsimp only at hcs
  subst hcs
  have hk : t + (cur - t) = cur := by omega
  have hstands := hre.stands
  have htgt := hre.target
  have hsaves := hre.saves
  have hused := hre.used
  rw [hk] at hPf hstands hR
  simp only [hk] at hsaves hused
  rw [if_neg (by omega)] at htgt
  rw [debugAssert_of (by rw [hstands.frameCount, hfc])]
  have hoff : shifted off t ≤ 1 := by
    unfold shifted
    split
    · exact le_rfl
    · exact (h.ring (by omega)).off_le
  have hmem : ∀ c, Op.save c ∈ ops S ([.load (slot off t)] ++ cs) ↔ Op.save c ∈ ops S cs := by
    simp [Command.op]
  refine ⟨v', ⟨hback.symm, hre.unchanged.lastConfirmedFrame.trans hun₁.lastConfirmedFrame,
    hre.unchanged.localConnectStatus.trans hun₁.localConnectStatus⟩, ⟨?_, ?_⟩,
    ⟨hstands.frameCount, hstands.lo_le, hstands.start, hstands.ring, hstands.state⟩,
    ⟨fun c hc => ?_, fun t₁ hlo₁ ht₁ => ?_, fun f hf hf' => ?_, hre.advances,
      ⟨_, htgt, rfl⟩, hre.seeks.mono fun _ h => h.elim⟩, hPf, hused, hR⟩
  · exact ⟨_, t, hcell, htgt, hsaved, hre.issues.runs⟩
  · exact hre.issues.frames.trans (congrArg (resets cs) hframes₁)
  · rcases hc with hc | hc
    · exact hc
    · exact absurd hc (hre.exposes c)
  · rw [hmem, hsaves, ← slot_shifted ht₁]
    rintro (⟨f, hf, hf', heq⟩ | ⟨rfl, -, heq⟩)
    · exact slot_ne_cell hoff hlo₁ (lt_of_le_of_lt ht₁ hf) (by omega) heq
    · obtain rfl : t₁ = 0 := by omega
      exact absurd (show (0 : Fin numCells) = cell numCells 1 from heq) (by decide)
  · rw [hmem, hsaves, slot, if_neg (by omega)]
    exact .inl ⟨f, hf, hf', rfl⟩

end Sync

end Backroll

import Backroll.Sync.Calm

/-! The states that can be gone back to. Whatever frames are simulated and rolled back, every
frame of the prediction window is found in the ring, with the state of the current timeline. -/
namespace Backroll

open Fallible (Ends)

variable {n : ℕ} {I S : Type}

namespace Sync

/-- The functions that simulate frames. -/
inductive FrameCall
  | incrementFrame
  | adjustSimulation (seekTo : ℤ)

/-- A rollback stays within the prediction window. -/
def Admits (s : Sync n I S) : FrameCall → Prop
  | .incrementFrame => True
  | .adjustSimulation seekTo =>
    max 0 (s.frameCount - maxPredictionFrames) ≤ seekTo ∧ seekTo < s.frameCount

def perform [Build] [Zeroable I] (s : Sync n I S) :
    FrameCall → Except Panic (List (Command I) × Sync n I S)
  | .incrementFrame => s.incrementFrame
  | .adjustSimulation seekTo => s.adjustSimulation seekTo

def setFrames (s : Sync n I S) (frames : Fin numCells → SavedFrame S) : Sync n I S :=
  { s with savedState := { s.savedState with frames := frames } }

end Sync

/-- The frames below the window of a frame. -/
def lowest (cur : ℕ) : ℕ := cur - maxPredictionFrames

theorem lowest_le (cur : ℕ) : lowest cur ≤ cur := Nat.sub_le _ _

theorem lowest_le_succ (cur : ℕ) : lowest cur ≤ lowest (cur + 1) := by
  unfold lowest
  omega

theorem le_lowest_add (cur : ℕ) : cur ≤ lowest cur + maxPredictionFrames := by
  unfold lowest
  omega

section Serving

variable [Zeroable I] [BEq I]

/-- In a session whose queues nothing else touches, no input is found to be wrong. -/
def Serves (strict : Prop) (lo cur : ℕ) (queues : Fin n → InputQueue I) : Prop :=
  strict → ∃ as : Fin n → LogQueue I,
    ∀ i, Tracks strict lo cur (queues i) (as i) ∧ isNull (as i).incorrect

variable {strict : Prop} {lo cur : ℕ} {queues : Fin n → InputQueue I} {s : Sync n I S}

theorem Serves.raise (h : Serves strict lo cur queues) {lo' : ℕ} (hlo : lo ≤ lo') :
    Serves strict lo' cur queues := by
  intro hs
  obtain ⟨as, has⟩ := h hs
  refine ⟨as, fun i => ⟨?_, (has i).2⟩⟩
  exact { (has i).1 with
    start := (has i).1.start.trans hlo
    marked := fun hm => absurd (has i).2 hm }

theorem Serves.new (strict : Prop) (delay : ℤ) :
    Serves strict 0 0 fun _ : Fin n => (InputQueue.new delay : InputQueue I) := by
  intro _
  refine ⟨fun _ => .new delay, fun _ => ⟨⟨.new delay, LogQueue.aware_new delay, le_rfl, fun h => ?_,
    show (-1 : ℤ) < 0 by decide, fun _ => by simp [LogQueue.new], fun _ => LogQueue.awaits_new delay⟩,
    show (-1 : ℤ) < 0 by decide⟩⟩
  exact absurd (show (-1 : ℤ) < 0 by decide) h

variable [Build]

theorem Serves.fetches (h : Serves strict lo cur s.inputQueues) (hn : strict → n ≤ maxPlayers)
    (hlo : lo ≤ cur) (hcount : s.frameCount = cur) :
    s.Fetches cur (fun _ queues => Serves strict lo (cur + 1) queues) fun _ => ¬strict := by
  by_cases hs : strict
  · obtain ⟨as, has⟩ := h hs
    refine (Sync.synchronizeInputs_ends hcount hn hlo (fun i => (has i).1)
      fun i => (has i).2).mono (fun r hg => ⟨hg.same, hg.frame, fun _ => ?_⟩) fun e he => he.1
    choose as' htracks _ hnull _ using fun i : Fin n => hg.asked i i.isLt
    exact ⟨as', fun i => ⟨htracks i, hnull i⟩⟩
  · refine s.synchronizeInputs_same.mono (fun r hr => ?_) fun _ _ => hs
    exact ⟨hr.1, hr.2.trans hcount, fun h => absurd h hs⟩

/-- A rollback forgets the guesses. -/
theorem Serves.resetPrediction (h : Serves strict lo cur queues) (t : ℕ) :
    Ends (Sync.mapQueues (·.resetPrediction t) queues) (Serves strict lo t) fun _ => ¬strict := by
  by_cases hs : strict
  · obtain ⟨as, has⟩ := h hs
    refine (Sync.mapQueues_ends (Q := fun i q => Tracks strict lo t q (as i).reset) fun i =>
      (has i).1.resetPrediction fun _ => .inl (has i).2).mono (fun queues' hq _ => ?_)
      fun e he => he.1
    exact ⟨fun i => (as i).reset, fun i => ⟨hq i, show (-1 : ℤ) < 0 by decide⟩⟩
  · cases Sync.mapQueues (·.resetPrediction t) queues with
    | error e => exact hs
    | ok queues' => exact fun h => absurd h hs

end Serving

variable [Client I S]

/-- A session, the state of its client, and the inputs that the client last used for each frame. -/
structure Playback (n : ℕ) (I S : Type) where
  sync : Sync n I S
  state : S
  used : ℕ → GameInput I

namespace Playback

/-- Every frame of the window is found, with the state that the inputs last used for the frames
before it lead to, in which the client was when it last came to this frame. -/
structure Covered (r : Playback n I S) (init : S) : Prop where
  found : ∀ frame, max 0 (r.sync.frameCount - maxPredictionFrames) ≤ frame →
    frame ≤ r.sync.frameCount → ∃ c, r.sync.savedState.findIndex frame = some c ∧
      (r.sync.savedState.frames c).data = some (replay init r.used frame.toNat)
  state : r.state = replay init r.used r.sync.frameCount.toNat

section Runs

variable [Build] [Zeroable I]

def start (delay : ℤ) (init : S) (used : ℕ → GameInput I) : Playback n I S :=
  ⟨.new delay, init, used⟩

/-- A call, the commands of which the client executes; or, unless the calls are the only ones,
anything else that leaves the saved states and the frame counter alone. -/
inductive Step (alone : Prop) (r : Playback n I S) : Playback n I S → Prop
  | call (c commands s frames state) (hc : r.sync.Admits c)
    (h : r.sync.perform c = .ok (commands, s))
    (hexec : execAll commands s.savedState.frames r.state = .ok (frames, state)) :
    Step alone r ⟨s.setFrames frames, state, recordAll r.used (advances commands)⟩
  | other (s) (halone : ¬alone) (hsaved : s.savedState = r.sync.savedState)
    (hcount : s.frameCount = r.sync.frameCount) (hback : s.rollingBack = r.sync.rollingBack) :
    Step alone r { r with sync := s }

/-- The runs of calls, and of other changes between them. -/
def Run (alone : Prop) : Playback n I S → Playback n I S → Prop :=
  Relation.ReflTransGen (Step alone)

/-- The client stands where the calls have taken it. -/
structure Sound [BEq I] (strict : Prop) (init : S) (cur : ℕ) (r : Playback n I S) : Prop where
  idle : r.sync.rollingBack = false
  serves : Serves strict (lowest cur) cur r.sync.inputQueues
  stands : ∃ off v, r.sync.Stands off (lowest cur) cur v init ∧
    v.cells = (fun c => (r.sync.savedState.frames c).data) ∧ v.state = r.state ∧ v.used = r.used

variable {strict alone : Prop} {delay : ℤ} {init : S} {used : ℕ → GameInput I} {cur : ℕ}
  {r : Playback n I S}

omit [Build] [Zeroable I] in
theorem stands_new {s : Sync n I S} (hsaved : s.savedState = {}) (hcount : s.frameCount = 0)
    (v : View I S) (hstate : v.state = init) : s.Stands 0 0 0 v init := by
  refine ⟨hcount, le_rfl, fun _ => ?_, fun h0 => absurd rfl h0, hstate⟩
  rw [hsaved]
  refine ⟨Nat.zero_le _, rfl, fun c hc => ?_, fun frame c _ hc => ?_, fun h1 => by omega⟩
  · exact absurd hc (by simp [nullFrame])
  · have : (nullFrame : ℤ) = frame := hc
    simp only [nullFrame] at this
    omega

variable [BEq I]

omit [Build] in
theorem Sound.new (strict : Prop) : (start delay init used : Playback n I S).Sound strict init 0 :=
  ⟨rfl, .new strict delay, 0, ⟨fun _ => none, init, fun _ => none, used⟩,
    stands_new rfl rfl _ rfl, rfl, rfl, rfl⟩

omit [Build] in
/-- Every frame of the window is in the ring. -/
theorem Sound.covered (h : Sound strict init cur r) (hcur : 0 < r.sync.frameCount) :
    r.Covered init := by
  obtain ⟨off, v, hstands, hcells, hstate, hused⟩ := h.stands
  have hcount := hstands.frameCount
  have hring := hstands.ring (by omega)
  have h8 : maxPredictionFrames = 8 := rfl
  refine ⟨fun frame hlow hle => ?_, ?_⟩
  · obtain ⟨t, rfl⟩ : ∃ t : ℕ, frame = t := ⟨frame.toNat, by omega⟩
    have hlo : lowest cur ≤ t := by
      unfold lowest
      omega
    refine ⟨slot off t, hring.findIndex hlo (by omega), ?_⟩
    rw [← hused, Int.toNat_natCast,
      ← hring.data t _ hlo (by omega) (hring.label_slot hlo (by omega)), hcells]
  · rw [← hstate, hstands.state, hused, hcount, Int.toNat_natCast]

omit [Build] in
/-- The client has executed what a call has issued. -/
theorem Sound.executed {cur' off' : ℕ} {s : Sync n I S} {commands : List (Command I)}
    {v v' : View I S} (hcells : v.cells = fun c => (r.sync.savedState.frames c).data)
    (hstate : v.state = r.state) (hused : v.used = r.used)
    (hissues : Sync.Issues r.sync s commands v v')
    (hundisturbed : Snapshots.Undisturbed (ops S commands))
    (hstands : s.Stands off' (lowest cur') cur' v' init) (hidle : s.rollingBack = false)
    (hserves : Serves strict (lowest cur') cur' s.inputQueues) :
    ∃ frames state, execAll commands s.savedState.frames r.state = .ok (frames, state) ∧
      Sound strict init cur'
        ⟨s.setFrames frames, state, recordAll r.used (advances commands)⟩ := by
  have hexec := hissues.runs.execAll hundisturbed hcells
  rw [← hissues.frames, hstate] at hexec
  refine ⟨_, _, hexec, hidle, hserves, off', v', hstands.setFrames fun _ => rfl, rfl, rfl, ?_⟩
  rw [hissues.runs.used_eq, hused]

theorem Sound.incrementFrame (h : Sound strict init cur r) (hn : strict → n ≤ maxPlayers) :
    Ends r.sync.incrementFrame (fun x => ∃ frames state,
      execAll x.1 x.2.savedState.frames r.state = .ok (frames, state) ∧
      Sound strict init (cur + 1) ⟨x.2.setFrames frames, state, recordAll r.used (advances x.1)⟩)
      fun _ => ¬strict := by
  obtain ⟨off, v, hstands, hcells, hstate, hused⟩ := h.stands
  refine (Sync.incrementFrame_ends hstands (lowest_le_succ cur) (lowest_le _) (le_lowest_add _)
    fun savedState => Serves.fetches (s := { r.sync with savedState := savedState }) h.serves hn
      (lowest_le cur) hstands.frameCount).imp ?_
  rintro ⟨commands, s⟩ ⟨inputs, v', hserves, -, hun, hissues, -, hstands', -, -, -, hexposes, -⟩
  exact Sound.executed hcells hstate hused hissues (fun c hc => absurd hc (hexposes c)) hstands'
    (hun.rollingBack.trans h.idle) (hserves.raise (lowest_le_succ cur))

theorem Sound.adjustSimulation (h : Sound strict init cur r) (hn : strict → n ≤ maxPlayers)
    {seekTo : ℤ} (hlow : max 0 (r.sync.frameCount - maxPredictionFrames) ≤ seekTo)
    (hlt : seekTo < r.sync.frameCount) :
    Ends (r.sync.adjustSimulation seekTo) (fun x => ∃ frames state,
      execAll x.1 x.2.savedState.frames r.state = .ok (frames, state) ∧
      Sound strict init cur ⟨x.2.setFrames frames, state, recordAll r.used (advances x.1)⟩)
      fun _ => ¬strict := by
  obtain ⟨off, v, hstands, hcells, hstate, hused⟩ := h.stands
  have hcount := hstands.frameCount
  obtain ⟨t, rfl⟩ : ∃ t : ℕ, seekTo = t := ⟨seekTo.toNat, by omega⟩
  have hlo : lowest cur ≤ t := by
    unfold lowest
    omega
  refine (Sync.adjustSimulation_ends (P := Serves strict (lowest cur)) (R := fun _ _ => True)
    hstands h.idle hlo (by omega) (h.serves.resetPrediction t) fun f s hge _ _ hf hserves =>
      (hserves.fetches hn (hlo.trans hge) hf).imp fun _ hr =>
        ⟨hr.1, hr.2.1, trivial, hr.2.2⟩).imp ?_
  rintro ⟨commands, s⟩ ⟨v', hun, hissues, hstands', hrewinds, hserves, -, -⟩
  refine Sound.executed hcells hstate hused hissues (fun c hc => ?_) hstands'
    (hun.rollingBack.trans h.idle) hserves
  obtain rfl := hrewinds.exposes c hc
  exact hrewinds.spares t hlo le_rfl

theorem Sound.perform (h : Sound strict init cur r) (hn : strict → n ≤ maxPlayers)
    {c : Sync.FrameCall} (hc : r.sync.Admits c) : Ends (r.sync.perform c) (fun x =>
      ∃ cur' frames state, 0 < x.2.frameCount ∧
        execAll x.1 x.2.savedState.frames r.state = .ok (frames, state) ∧
        Sound strict init cur'
          ⟨x.2.setFrames frames, state, recordAll r.used (advances x.1)⟩) fun _ => ¬strict := by
  obtain ⟨_, _, hstands, -⟩ := h.stands
  have hcount := hstands.frameCount
  cases c with
  | incrementFrame =>
    refine (h.incrementFrame hn).imp fun x hx => ?_
    obtain ⟨frames, state, hexec, hsound⟩ := hx
    obtain ⟨_, _, hstands', -⟩ := hsound.stands
    have hcount' : x.2.frameCount = (cur + 1 : ℕ) := hstands'.frameCount
    exact ⟨cur + 1, frames, state, by omega, hexec, hsound⟩
  | adjustSimulation seekTo =>
    refine (h.adjustSimulation hn hc.1 hc.2).imp fun x hx => ?_
    obtain ⟨frames, state, hexec, hsound⟩ := hx
    obtain ⟨_, _, hstands', -⟩ := hsound.stands
    have hcount' : x.2.frameCount = cur := hstands'.frameCount
    have hlow := hc.1
    have hlt := hc.2
    exact ⟨cur, frames, state, by omega, hexec, hsound⟩

theorem step_sound {r' : Playback n I S} (h : Sound (alone ∧ n ≤ maxPlayers) init cur r)
    (hstep : Step alone r r') : ∃ cur', Sound (alone ∧ n ≤ maxPlayers) init cur' r' := by
  cases hstep with
  | call c commands s frames state hc hperform hexec =>
    obtain ⟨cur', frames', state', -, hexec', hsound⟩ :=
      (h.perform (fun hs => hs.2) hc).ok hperform
    obtain ⟨rfl, rfl⟩ := Prod.mk.inj (Except.ok.inj (hexec.symm.trans hexec'))
    exact ⟨cur', hsound⟩
  | other s halone hsaved hcount hback =>
    obtain ⟨off, v, hstands, hcells, hstate, hused⟩ := h.stands
    refine ⟨cur, hback.trans h.idle, fun hs => absurd hs.1 halone, off, v, ?_, ?_, hstate, hused⟩
    · exact ⟨hcount.trans hstands.frameCount, hstands.lo_le, fun h0 => hsaved ▸ hstands.start h0,
        fun h0 => hsaved ▸ hstands.ring h0, hstands.state⟩
    · rw [hcells, hsaved]

/-- Once frame 0 is simulated, every frame of the window is found after each call, with the state
of the current timeline, and the client can execute whatever a call issues. Where no inputs come
in between and a frame has room for all players, every call succeeds. -/
theorem run_covered (hrun : Run alone (start delay init used) r) :
    (0 < r.sync.frameCount → r.Covered init) ∧
      ∀ c, r.sync.Admits c → Ends (r.sync.perform c) (fun x => 0 < x.2.frameCount ∧
        ∃ frames state, execAll x.1 x.2.savedState.frames r.state = .ok (frames, state))
        fun _ => ¬(alone ∧ n ≤ maxPlayers) := by
  obtain ⟨cur, hsound⟩ : ∃ cur, Sound (alone ∧ n ≤ maxPlayers) init cur r := by
    induction hrun with
    | refl => exact ⟨0, .new _⟩
    | tail _ hstep ih =>
      obtain ⟨cur, hsound⟩ := ih
      exact step_sound hsound hstep
  refine ⟨hsound.covered, fun c hc => (hsound.perform (fun hs => hs.2) hc).imp ?_⟩
  rintro x ⟨-, frames, state, hpos, hexec, -⟩
  exact ⟨hpos, frames, state, hexec⟩

end Runs

/-- Two frames and a rollback to frame 0, which moves the frames on by a cell. -/
theorem run_covered_back :
    letI : Build := ⟨true⟩
    letI : Client UInt8 ℕ := ⟨fun s inputs => s + (inputs.inputs 0).toNat + 1⟩
    letI : Zeroable UInt8 := ⟨0⟩
    ∃ r : Playback 2 UInt8 ℕ, r.sync.frameCount = 2 ∧
      (r.sync.savedState.frames 1).frame = 0 ∧ (r.sync.savedState.frames 3).frame = 2 ∧
      r.Covered 0 := by
  let build : Build := ⟨true⟩
  let client : Client UInt8 ℕ := ⟨fun s inputs => s + (inputs.inputs 0).toNat + 1⟩
  let zeroable : Zeroable UInt8 := ⟨0⟩
  let first : Playback 2 UInt8 ℕ := start 0 0 fun _ => default
  have hone : Run True first _ :=
    Relation.ReflTransGen.refl.tail (.call .incrementFrame _ _ _ _ trivial rfl rfl)
  have htwo : Run True first _ := hone.tail (.call .incrementFrame _ _ _ _ trivial rfl rfl)
  have hback : Run True first _ :=
    htwo.tail (.call (.adjustSimulation 0) _ _ _ _ ⟨by decide, by decide⟩ rfl rfl)
  exact ⟨_, rfl, rfl, rfl, (run_covered hback).1 (by decide)⟩

end Playback

end Backroll

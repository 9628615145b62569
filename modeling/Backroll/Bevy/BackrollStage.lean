import Backroll.Session.Calls

/-! `BackrollStage` of `bevy_backroll`, the stage of a Bevy app that runs a session, and the frame
stalls by which it lets the remote players catch up. -/
namespace Backroll

open Fallible (Ends walk)

/-- `ShouldRun` of Bevy. -/
inductive ShouldRun
  | yes
  | no
  | yesAndCheckAgain
  | noAndCheckAgain
  deriving DecidableEq, Repr

structure FrameStaller where
  framesAhead : ℕ
  framesUntilStall : ℕ
  deriving DecidableEq, Repr

namespace FrameStaller

def new : FrameStaller := ⟨0, 0⟩

def stallCadence (s : FrameStaller) : ℕ := if s.framesAhead > 9 then 1 else 11 - s.framesAhead

def reset (s : FrameStaller) (framesAhead : ℕ) : FrameStaller :=
  let s := { s with framesAhead := framesAhead }
  { s with framesUntilStall := s.stallCadence }

/-- `should_stall`, with the staller it leaves. -/
def shouldStall (s : FrameStaller) : Bool × FrameStaller :=
  if s.framesAhead = 0 then (false, s)
  else if s.framesUntilStall = 0 then
    let s := { s with framesAhead := s.framesAhead - 1 }
    (true, { s with framesUntilStall := s.stallCadence })
  else (false, { s with framesUntilStall := s.framesUntilStall - 1 })

/-- The next frame is one to stall. -/
def Due (s : FrameStaller) : Prop := s.framesAhead ≠ 0 ∧ s.framesUntilStall = 0

theorem stallCadence_pos (s : FrameStaller) : 0 < s.stallCadence := by
  unfold stallCadence
  split <;> omega

theorem shouldStall_iff {s : FrameStaller} : s.shouldStall.1 = true ↔ s.Due := by
  unfold shouldStall Due
  split
  · next h => simp [h]
  · next h =>
    split
    · next h' => simp [h, h']
    · next h' => simp [h']

theorem reset_not_due (s : FrameStaller) (framesAhead : ℕ) : ¬(s.reset framesAhead).Due := fun h =>
  (stallCadence_pos _).ne' h.2

/-- No two frames in a row are stalled. -/
theorem shouldStall_not_due {s : FrameStaller} (h : s.Due) : ¬s.shouldStall.2.Due := by
  unfold shouldStall
  rw [if_neg h.1, if_pos h.2]
  exact fun h' => (stallCadence_pos _).ne' h'.2

/-- A command that the stage runs, as far as the staller is concerned. -/
def observe {I : Type} (s : FrameStaller) : Command I → FrameStaller
  | .event (.timeSync framesAhead) => s.reset framesAhead
  | _ => s

theorem observe_not_due {I : Type} {s : FrameStaller} (h : ¬s.Due) (c : Command I) :
    ¬(s.observe c).Due := by
  unfold observe
  split
  · exact reset_not_due _ _
  · exact h

theorem foldl_observe_not_due {I : Type} {s : FrameStaller} (h : ¬s.Due) (commands : List (Command I)) :
    ¬(commands.foldl observe s).Due := by
  induction commands generalizing s with
  | nil => exact h
  | cons c commands ih => exact ih (observe_not_due h c)

end FrameStaller

/-- What the stage finds in its world: the run criteria, the session, if there is one, the system
that samples inputs, and the stages that run the commands. -/
structure Driver (W I : Type) where
  runCriteria : Option (W → ShouldRun × W)
  hasSession : W → Bool
  poll : W → Except Panic (List (Command I) × W)
  localPlayers : W → List ℕ
  inputSampleFn : ℕ → W → I × W
  addLocalInput : ℕ → I → W → Except Panic (Except BackrollError Unit × W)
  advanceFrame : W → Except Panic (List (Command I) × W)
  runCommand : Command I → W → Except Panic W

/-- What happens in one iteration of the loop in `run`, and whether another one follows. -/
structure Pass where
  answer : ShouldRun
  polled : Bool := false
  stalled : Bool := false
  failed : Bool := false
  advanced : Bool := false
  again : Bool := false
  deriving DecidableEq, Repr

/-- The stage, with its world. -/
structure StageState (W : Type) where
  staller : FrameStaller
  world : W

namespace Driver

variable {W I : Type}

/-- The run criteria, by default `Yes`. -/
def answer (d : Driver W I) (w : W) : ShouldRun × W :=
  match d.runCriteria with
  | some runCriteria => runCriteria w
  | none => (.yes, w)

def runCommands (d : Driver W I) : List (Command I) → StageState W → Except Panic (StageState W) :=
  walk fun c s => do
    let world ← d.runCommand c s.world
    return ⟨s.staller.observe c, world⟩

/-- The loop over the local players; an error ends it. -/
def addInputs (d : Driver W I) : List ℕ → W → Except Panic (Except BackrollError Unit × W)
  | [], w => .ok (.ok (), w)
  | player :: players, w => do
    let (input, w) := d.inputSampleFn player w
    match ← d.addLocalInput player input w with
    | (.error err, w) => return (.error err, w)
    | (.ok (), w) => d.addInputs players w

/-- One iteration of the loop in `run`. -/
def pass (d : Driver W I) (s : StageState W) : Except Panic (Pass × StageState W) :=
  let (shouldRun, world) := d.answer s.world
  let s := { s with world := world }
  if shouldRun = .no then .ok ({ answer := shouldRun }, s)
  else if d.hasSession s.world = false then .ok ({ answer := shouldRun }, s)
  else do
    let (commands, world) ← d.poll s.world
    let s ← d.runCommands commands { s with world := world }
    let (stall, staller) := s.staller.shouldStall
    let s := { s with staller := staller }
    if stall then return ({ answer := shouldRun, polled := true, stalled := true, again := true }, s)
    else
      match ← d.addInputs (d.localPlayers s.world) s.world with
      | (.error _, world) =>
        return ({ answer := shouldRun, polled := true, failed := true }, { s with world := world })
      | (.ok (), world) => do
        let (commands, world) ← d.advanceFrame world
        let s ← d.runCommands commands { s with world := world }
        return ({
          answer := shouldRun
          polled := true
          advanced := true
          again := decide (shouldRun ≠ .yes) }, s)

/-- `run`, for so many iterations at most, with what each did from which state, and whether the
loop would go on. -/
def run (d : Driver W I) : ℕ → StageState W →
    Except Panic (List (StageState W × Pass) × Bool × StageState W)
  | 0, s => .ok ([], true, s)
  | fuel + 1, s => do
    let (p, s') ← d.pass s
    if p.again then
      let (visits, again, s') ← d.run fuel s'
      return ((s, p) :: visits, again, s')
    else return ([(s, p)], false, s')

end Driver

/-- What is asked of an iteration: `Yes` is for this one alone, neither of the two forms of `No` lets
it poll or advance, and no frame comes of a call that stalls on a `Yes`. -/
structure Pass.Proper (p : Pass) : Prop where
  once : p.answer = .yes → p.again = false
  idle : p.answer = .no ∨ p.answer = .noAndCheckAgain → p.polled = false ∧ p.advanced = false
  stall : p.answer = .yes → p.stalled = true → p.advanced = false ∧ p.again = false

namespace Driver

variable {W I : Type} {d : Driver W I} {s s' : StageState W} {p : Pass}

/-- Where an iteration is as it should be: with a session, the answer is not `NoAndCheckAgain`, and
on a `Yes` no stall is due once the session was polled. -/
def Fine (d : Driver W I) (s : StageState W) : Prop :=
  d.hasSession (d.answer s.world).2 = true →
    (d.answer s.world).1 ≠ .noAndCheckAgain ∧
    ((d.answer s.world).1 = .yes → ∀ commands world,
      d.poll (d.answer s.world).2 = .ok (commands, world) →
        ¬(commands.foldl FrameStaller.observe s.staller).Due)

theorem fine_of_again (h : (d.answer s.world).1 = .yesAndCheckAgain) : d.Fine s := fun _ => by
  rw [h]
  exact ⟨by decide, fun hyes => ShouldRun.noConfusion hyes⟩

theorem fine_of_not_due (hanswer : (d.answer s.world).1 ≠ .noAndCheckAgain) (h : ¬s.staller.Due) :
    d.Fine s :=
  fun _ => ⟨hanswer, fun _ commands _ _ => FrameStaller.foldl_observe_not_due h commands⟩

theorem runCommands_staller {commands : List (Command I)} (h : d.runCommands commands s = .ok s') :
    s'.staller = commands.foldl FrameStaller.observe s.staller := by
  induction commands generalizing s with
  | nil =>
    obtain rfl := Except.ok.inj h
    rfl
  | cons c commands ih =>
    obtain ⟨s₁, hone, h⟩ := Fallible.bind_eq_ok.mp h
    obtain ⟨world, -, hone⟩ := Fallible.bind_eq_ok.mp hone
    obtain rfl := Except.ok.inj hone
    exact ih h

/-- The ways an iteration can go. -/
inductive Outcome (d : Driver W I) (s s' : StageState W) : Pass → Prop
  | idle (answer) (hanswer : (d.answer s.world).1 = answer)
    (hidle : answer = .no ∨ d.hasSession (d.answer s.world).2 = false) :
    Outcome d s s' { answer := answer }
  | stall (answer commands world) (hanswer : (d.answer s.world).1 = answer) (hno : answer ≠ .no)
    (hsession : d.hasSession (d.answer s.world).2 = true)
    (hpoll : d.poll (d.answer s.world).2 = .ok (commands, world))
    (hdue : (commands.foldl FrameStaller.observe s.staller).Due) (hafter : ¬s'.staller.Due) :
    Outcome d s s' { answer := answer, polled := true, stalled := true, again := true }
  | fail (answer commands world) (hanswer : (d.answer s.world).1 = answer) (hno : answer ≠ .no)
    (hsession : d.hasSession (d.answer s.world).2 = true)
    (hpoll : d.poll (d.answer s.world).2 = .ok (commands, world))
    (hdue : ¬(commands.foldl FrameStaller.observe s.staller).Due) :
    Outcome d s s' { answer := answer, polled := true, failed := true }
  | advance (answer commands world) (hanswer : (d.answer s.world).1 = answer) (hno : answer ≠ .no)
    (hsession : d.hasSession (d.answer s.world).2 = true)
    (hpoll : d.poll (d.answer s.world).2 = .ok (commands, world))
    (hdue : ¬(commands.foldl FrameStaller.observe s.staller).Due) :
    Outcome d s s'
      { answer := answer, polled := true, advanced := true, again := decide (answer ≠ .yes) }

theorem pass_outcome (h : d.pass s = .ok (p, s')) : d.Outcome s s' p := by
  unfold pass at h
  dsimp only at h
  split at h
  · next hno =>
    obtain ⟨rfl, -⟩ := Prod.mk.inj (Except.ok.inj h)
    exact .idle _ rfl (.inl hno)
  next hno =>
  split at h
  · next hsession =>
    obtain ⟨rfl, -⟩ := Prod.mk.inj (Except.ok.inj h)
    exact .idle _ rfl (.inr hsession)
  next hsession =>
  rw [Bool.not_eq_false] at hsession
  obtain ⟨⟨commands, world⟩, hpoll, h⟩ := Fallible.bind_eq_ok.mp h
  obtain ⟨s₁, hrun, h⟩ := Fallible.bind_eq_ok.mp h
  have hstaller := runCommands_staller hrun
  dsimp only at hstaller h
  have hdue : s₁.staller.shouldStall.1 = true ↔
      (commands.foldl FrameStaller.observe s.staller).Due := by
    rw [← hstaller]
    exact FrameStaller.shouldStall_iff
  split at h
  · next hstall =>
    obtain ⟨rfl, rfl⟩ := Prod.mk.inj (Except.ok.inj h)
    exact .stall _ commands world rfl hno hsession hpoll (hdue.mp hstall)
      (FrameStaller.shouldStall_not_due (FrameStaller.shouldStall_iff.mp hstall))
  next hstall =>
  obtain ⟨⟨result, world'⟩, -, h⟩ := Fallible.bind_eq_ok.mp h
  cases result with
  | error err =>
    obtain ⟨rfl, -⟩ := Prod.mk.inj (Except.ok.inj h)
    exact .fail _ commands world rfl hno hsession hpoll fun hd => hstall (hdue.mpr hd)
  | ok _ =>
    obtain ⟨⟨more, world''⟩, -, h⟩ := Fallible.bind_eq_ok.mp h
    obtain ⟨s₂, -, h⟩ := Fallible.bind_eq_ok.mp h
    obtain ⟨rfl, -⟩ := Prod.mk.inj (Except.ok.inj h)
    exact .advance _ commands world rfl hno hsession hpoll fun hd => hstall (hdue.mpr hd)

/-- An iteration is as it should be exactly where it starts out fine. -/
theorem Outcome.proper_iff (h : d.Outcome s s' p) : p.Proper ↔ d.Fine s := by
  cases h with
  | idle answer hanswer hidle =>
    refine iff_of_true ⟨by simp, by simp, by simp⟩ fun hsession => ?_
    rcases hidle with rfl | hnone
    · rw [hanswer]
      exact ⟨by decide, fun h => by cases h⟩
    · simp [hnone] at hsession
  | stall answer commands world hanswer hno hsession hpoll hdue =>
    constructor
    · intro h
      refine fun _ => ⟨fun hagain => ?_, fun hyes => ?_⟩
      · exact absurd (h.idle (.inr (hanswer.symm.trans hagain))).1 (by simp)
      · exact absurd (h.once (hanswer.symm.trans hyes)) (by simp)
    · intro hfine
      obtain ⟨hagain, hcalm⟩ := hfine hsession
      have hnot : answer ≠ .yes := fun hyes =>
        hcalm (hanswer.trans hyes) commands world hpoll hdue
      rw [hanswer] at hagain
      exact ⟨fun h => absurd h hnot, by simp [hno, hagain], fun h => absurd h hnot⟩
  | fail answer commands world hanswer hno hsession hpoll hdue =>
    constructor
    · intro h _
      refine ⟨fun hagain => ?_, fun _ commands' world' hpoll' => ?_⟩
      · exact absurd (h.idle (.inr (hanswer.symm.trans hagain))).1 (by simp)
      · obtain ⟨rfl, -⟩ := Prod.mk.inj (Except.ok.inj (hpoll.symm.trans hpoll'))
        exact hdue
    · intro hfine
      have hagain := (hfine hsession).1
      rw [hanswer] at hagain
      exact ⟨by simp, by simp [hno, hagain], by simp⟩
  | advance answer commands world hanswer hno hsession hpoll hdue =>
    constructor
    · intro h _
      refine ⟨fun hagain => ?_, fun _ commands' world' hpoll' => ?_⟩
      · exact absurd (h.idle (.inr (hanswer.symm.trans hagain))).1 (by simp)
      · obtain ⟨rfl, -⟩ := Prod.mk.inj (Except.ok.inj (hpoll.symm.trans hpoll'))
        exact hdue
    · intro hfine
      have hagain := (hfine hsession).1
      rw [hanswer] at hagain
      exact ⟨by simp, by simp [hno, hagain], by simp⟩

/-- Calls of `run`, each with what its iterations did; only the last one may still go on. In between
anything happens to the world. -/
inductive Run (d : Driver W I) (s₀ : StageState W) :
    List (List (StageState W × Pass)) → Bool → StageState W → Prop
  | start : Run d s₀ [] false s₀
  | call {calls s} (h : Run d s₀ calls false s) (world fuel visits again s')
    (hrun : d.run fuel ⟨s.staller, world⟩ = .ok (visits, again, s')) :
    Run d s₀ (calls ++ [visits]) again s'

/-- A call that found a session, and no error. -/
def Completes (visits : List (StageState W × Pass)) : Bool :=
  visits.any (·.2.polled) && !visits.any (·.2.failed)

/-- Every iteration of a call starts where an outcome takes it. -/
theorem run_outcomes {fuel : ℕ} {visits : List (StageState W × Pass)} {again : Bool}
    (h : d.run fuel s = .ok (visits, again, s')) : ∀ v ∈ visits, ∃ s₁, d.Outcome v.1 s₁ v.2 := by
  induction fuel generalizing s visits again s' with
  | zero =>
    obtain ⟨rfl, -⟩ := Prod.mk.inj (Except.ok.inj h)
    simp
  | succ fuel ih =>
    obtain ⟨⟨p, s₁⟩, hpass, h⟩ := Fallible.bind_eq_ok.mp h
    dsimp only at h
    split at h
    · obtain ⟨⟨rest, again', s₂⟩, hrest, h⟩ := Fallible.bind_eq_ok.mp h
      obtain ⟨rfl, -⟩ := Prod.mk.inj (Except.ok.inj h)
      intro v hv
      rcases List.mem_cons.mp hv with rfl | hv
      · exact ⟨s₁, pass_outcome hpass⟩
      · exact ih hrest v hv
    · obtain ⟨rfl, -⟩ := Prod.mk.inj (Except.ok.inj h)
      intro v hv
      rw [List.mem_singleton.mp hv]
      exact ⟨s₁, pass_outcome hpass⟩

/-- Under the default criteria, a call that starts out fine is one iteration: it advances a frame,
unless it finds no session or fails. -/
theorem run_default (hdefault : d.runCriteria = none) {fuel : ℕ}
    {visits : List (StageState W × Pass)} {again : Bool}
    (h : d.run fuel s = .ok (visits, again, s')) (hfine : ∀ v ∈ visits, d.Fine v.1) :
    visits.countP (·.2.advanced) + visits.countP (·.2.stalled) = (Completes visits).toNat := by
  cases fuel with
  | zero =>
    obtain ⟨rfl, -⟩ := Prod.mk.inj (Except.ok.inj h)
    rfl
  | succ fuel =>
    obtain ⟨⟨p, s₁⟩, hpass, h⟩ := Fallible.bind_eq_ok.mp h
    dsimp only at h
    have hout := pass_outcome hpass
    have hyes : (d.answer s.world).1 = .yes := by simp [answer, hdefault]
    have hmem : (s, p) ∈ visits := by
      split at h
      · obtain ⟨_, -, h⟩ := Fallible.bind_eq_ok.mp h
        obtain ⟨rfl, -⟩ := Prod.mk.inj (Except.ok.inj h)
        exact List.mem_cons_self
      · obtain ⟨rfl, -⟩ := Prod.mk.inj (Except.ok.inj h)
        exact List.mem_cons_self
    have hproper := hout.proper_iff.mpr (hfine _ hmem)
    have hanswer : p.answer = .yes := by
      cases hout <;> simp_all
    have honce := hproper.once hanswer
    rw [if_neg (by simp [honce])] at h
    obtain ⟨rfl, -⟩ := Prod.mk.inj (Except.ok.inj h)
    cases hout with
    | idle answer hanswer' hidle => rfl
    | stall answer commands world hanswer' hno hsession hpoll hdue => simp at honce
    | fail answer commands world hanswer' hno hsession hpoll hdue => rfl
    | advance answer commands world hanswer' hno hsession hpoll hdue => rfl

/-- Under the default criteria, a call ends with its second iteration: the frame after a stall is
never one to stall. -/
theorem run_two (hdefault : d.runCriteria = none) (s : StageState W) :
    Ends (d.run 2 s) (fun r => r.2.1 = false) fun _ => True := by
  have hyes : ∀ w, (d.answer w).1 = .yes := fun w => by simp [answer, hdefault]
  have hagain : ∀ (s s' : StageState W) p, d.Outcome s s' p → p.again = true →
      ¬s'.staller.Due ∧ p.stalled = true := by
    intro s s' p hout hp
    cases hout with
    | idle answer hanswer hidle => cases hp
    | stall answer commands world hanswer hno hsession hpoll hdue hafter => exact ⟨hafter, rfl⟩
    | fail answer commands world hanswer hno hsession hpoll hdue => cases hp
    | advance answer commands world hanswer hno hsession hpoll hdue =>
      exact absurd (hanswer.symm.trans (hyes _)) (of_decide_eq_true hp)
  cases hrun : d.run 2 s with
  | error e => trivial
  | ok r =>
    obtain ⟨⟨p, s₁⟩, hpass, h⟩ := Fallible.bind_eq_ok.mp hrun
    dsimp only at h
    split at h
    · next hp =>
      obtain ⟨⟨visits, again, s₂⟩, hrest, h⟩ := Fallible.bind_eq_ok.mp h
      obtain rfl := Except.ok.inj h
      obtain ⟨⟨p', s₃⟩, hpass', h'⟩ := Fallible.bind_eq_ok.mp hrest
      dsimp only at h'
      have hnot : ¬p'.again = true := by
        intro hp'
        have hcalm := (hagain _ _ _ (pass_outcome hpass) hp).1
        have hout := pass_outcome hpass'
        have hstalled := (hagain _ _ _ hout hp').2
        cases hout with
        | stall answer commands world hanswer hno hsession hpoll hdue hafter =>
          exact FrameStaller.foldl_observe_not_due hcalm commands hdue
        | idle answer hanswer hidle => cases hstalled
        | fail answer commands world hanswer hno hsession hpoll hdue => cases hstalled
        | advance answer commands world hanswer hno hsession hpoll hdue => cases hstalled
      rw [if_neg hnot] at h'
      exact (Prod.mk.inj (Prod.mk.inj (Except.ok.inj h')).2).1.symm
    · obtain rfl := Except.ok.inj h
      rfl

/-- In a run, every iteration is as it should be, and under the default criteria the frames advanced
and the stalls are as many as the calls that found a session and no error: exactly where every
iteration started out fine. -/
theorem run_stalls_iff {s₀ : StageState W} {calls : List (List (StageState W × Pass))} {again : Bool}
    (hrun : d.Run s₀ calls again s) :
    ((∀ visits ∈ calls, ∀ v ∈ visits, v.2.Proper) ∧
      (d.runCriteria = none →
        calls.flatten.countP (·.2.advanced) + calls.flatten.countP (·.2.stalled) =
          calls.countP Completes)) ↔ ∀ visits ∈ calls, ∀ v ∈ visits, d.Fine v.1 := by
  have hiff : ∀ visits ∈ calls, ∀ v ∈ visits, (v.2.Proper ↔ d.Fine v.1) := by
    induction hrun with
    | start => simp
    | call _ world fuel visits again s' hcall ih =>
      intro visits' hmem v hv
      rcases List.mem_append.mp hmem with hmem | hmem
      · exact ih visits' hmem v hv
      · rw [List.mem_singleton.mp hmem] at hv
        obtain ⟨_, hout⟩ := run_outcomes hcall v hv
        exact hout.proper_iff
  constructor
  · rintro ⟨hproper, -⟩ visits hmem v hv
    exact (hiff visits hmem v hv).mp (hproper visits hmem v hv)
  · intro hfine
    refine ⟨fun visits hmem v hv => (hiff visits hmem v hv).mpr (hfine visits hmem v hv),
      fun hdefault => ?_⟩
    clear hiff
    induction hrun with
    | start => rfl
    | call _ world fuel visits again s' hcall ih =>
      have hprev := ih fun visits hmem => hfine visits (List.mem_append_left _ hmem)
      have hlast := run_default hdefault hcall fun v hv => hfine visits (by simp) v hv
      simp only [List.flatten_append, List.flatten_cons, List.flatten_nil, List.append_nil,
        List.countP_append, List.countP_singleton]
      have hone : (if Completes visits = true then 1 else 0) = (Completes visits).toNat := by
        cases Completes visits <;> rfl
      rw [hone]
      omega

end Driver

/-- A world with a session: whether the session is still a resource, the game, and the events sent. -/
structure StageWorld (n : ℕ) (I S : Type) where
  session : Session n I S
  present : Bool
  state : S
  events : List Event

/-- The stage with a session, in a game whose client executes the commands. -/
def sessionDriver {n : ℕ} {I S : Type} [Build] [BEq I] [Varinteger] [Pod I] [Client I S]
    (runCriteria : Option (StageWorld n I S → ShouldRun × StageWorld n I S)) (sample : ℕ → S → I) :
    Driver (StageWorld n I S) I where
  runCriteria := runCriteria
  hasSession w := w.present
  poll w := do
    let (commands, s) ← w.session.poll
    return (commands, { w with session := s })
  localPlayers w :=
    ((List.finRange n).filter fun i => (w.session.players i).isLocal).map Fin.val
  inputSampleFn player w := (sample player w.state, w)
  addLocalInput player input w := do
    let (result, s) ← w.session.addLocalInput player input
    return (result, { w with session := s })
  advanceFrame w := do
    let (commands, s) ← w.session.advanceFrame
    return (commands, { w with session := s })
  runCommand c w :=
    match c with
    | .event event => .ok { w with events := w.events ++ [event] }
    | c => do
      let (frames, state) ← c.exec w.session.sync.savedState.frames w.state
      return { w with session := w.session.setFrames frames, state := state }

/-- A session of one local player, and nothing done yet. -/
def soloWorld : StageWorld 1 UInt8 ℕ where
  session := {
    sync := .new 0
    players := fun _ => .localPlayer
    synchronizing := false
    nextRecommendedSleep := 0 }
  present := true
  state := 0
  events := []

/-- Criteria that ask for another iteration as long as no frame is advanced. -/
def untilAdvanced (w : StageWorld 1 UInt8 ℕ) : ShouldRun × StageWorld 1 UInt8 ℕ :=
  (if w.session.sync.frameCount = 0 then .yesAndCheckAgain else .yes, w)

namespace Driver

section Example

attribute [local instance] debugBuild Varinteger.leb128 countingClient

/-- Of a call whose criteria ask for another iteration until a frame is advanced, with a stall that
is due at once, and of two calls under the default criteria, after which a stall is due. -/
theorem run_stalls_iff_solo :
    (∃ visits s, (sessionDriver (some untilAdvanced) fun _ _ => 5).run 4 ⟨⟨2, 0⟩, soloWorld⟩ =
        .ok (visits, false, s) ∧
      visits.map (·.2) = [
        { answer := .yesAndCheckAgain, polled := true, stalled := true, again := true },
        { answer := .yesAndCheckAgain, polled := true, advanced := true, again := true },
        { answer := .yes, polled := true, advanced := true }] ∧
      ∀ v ∈ visits, v.2.Proper) ∧
    ∃ calls s, (sessionDriver none fun _ _ => 5).Run ⟨⟨1, 2⟩, soloWorld⟩ calls false s ∧
      s.staller = ⟨1, 0⟩ ∧ calls.countP Completes = 2 ∧
      (∀ visits ∈ calls, ∀ v ∈ visits, v.2.Proper) ∧
      calls.flatten.countP (·.2.advanced) + calls.flatten.countP (·.2.stalled) = 2 := by
  constructor
  · obtain ⟨visits, s, hcall, hpasses, hstates⟩ : ∃ visits s,
        (sessionDriver (some untilAdvanced) fun _ _ => 5).run 4 ⟨⟨2, 0⟩, soloWorld⟩ =
          .ok (visits, false, s) ∧
        visits.map (·.2) = [
          { answer := .yesAndCheckAgain, polled := true, stalled := true, again := true },
          { answer := .yesAndCheckAgain, polled := true, advanced := true, again := true },
          { answer := .yes, polled := true, advanced := true }] ∧
        visits.map (fun v => ((untilAdvanced v.1.world).1, v.1.staller)) =
          [(.yesAndCheckAgain, ⟨2, 0⟩), (.yesAndCheckAgain, ⟨1, 10⟩), (.yes, ⟨1, 9⟩)] := by
      refine ⟨_, _, rfl, ?_, ?_⟩ <;> rfl
    have hrun : (sessionDriver (some untilAdvanced) fun _ _ => 5).Run ⟨⟨2, 0⟩, soloWorld⟩
        ([] ++ [visits]) false s := .call .start soloWorld 4 _ _ _ hcall
    refine ⟨visits, s, hcall, hpasses,
      ((run_stalls_iff hrun).mpr fun visits' hvisits v hv => ?_).1 visits (by simp)⟩
    obtain rfl : visits' = visits := by simpa using hvisits
    have hmem := List.mem_map_of_mem
      (f := fun v => ((untilAdvanced v.1.world).1, v.1.staller)) hv
    simp only [hstates, List.mem_cons, List.not_mem_nil, or_false, Prod.mk.injEq] at hmem
    obtain ⟨hanswer, -⟩ | ⟨hanswer, -⟩ | ⟨hanswer, hstaller⟩ := hmem
    · exact fine_of_again hanswer
    · exact fine_of_again hanswer
    · refine fine_of_not_due (fun hagain => ?_) fun hdue => by simp [FrameStaller.Due, hstaller] at hdue
      exact ShouldRun.noConfusion (hanswer.symm.trans hagain)
  · obtain ⟨v₁, s₁, v₂, s₂, hfirst, hsecond, h₁, h₂, hafter, hpass₁, hpass₂⟩ : ∃ v₁ s₁ v₂ s₂,
        (sessionDriver none fun _ _ => 5).run 1 ⟨⟨1, 2⟩, soloWorld⟩ = .ok ([v₁], false, s₁) ∧
        (sessionDriver none fun _ _ => 5).run 1 ⟨s₁.staller, s₁.world⟩ = .ok ([v₂], false, s₂) ∧
        v₁.1.staller = ⟨1, 2⟩ ∧ v₂.1.staller = ⟨1, 1⟩ ∧ s₂.staller = ⟨1, 0⟩ ∧
        v₁.2 = { answer := .yes, polled := true, advanced := true } ∧
        v₂.2 = { answer := .yes, polled := true, advanced := true } := by
      refine ⟨_, _, _, _, rfl, rfl, ?_, ?_, ?_, ?_, ?_⟩ <;> rfl
    have hrun : (sessionDriver none fun _ _ => 5).Run ⟨⟨1, 2⟩, soloWorld⟩
        ([] ++ [[v₁]] ++ [[v₂]]) false s₂ :=
      .call (.call .start soloWorld 1 _ _ _ hfirst) s₁.world 1 _ _ _ hsecond
    have htwo : ([] ++ [[v₁]] ++ [[v₂]]).countP Completes = 2 := by
      simp [Completes, hpass₁, hpass₂]
    obtain ⟨hproper, hcount⟩ := (run_stalls_iff hrun).mpr fun visits hvisits v hv => by
      obtain rfl | rfl : visits = [v₁] ∨ visits = [v₂] := by simpa using hvisits
      · rw [List.mem_singleton.mp hv]
        exact fine_of_not_due ShouldRun.noConfusion fun hdue => by simp [FrameStaller.Due, h₁] at hdue
      · rw [List.mem_singleton.mp hv]
        exact fine_of_not_due ShouldRun.noConfusion fun hdue => by simp [FrameStaller.Due, h₂] at hdue
    exact ⟨_, s₂, hrun, hafter, htwo, hproper, (hcount rfl).trans htwo⟩

end Example

/-- A stall that is due under the default criteria is followed by another iteration, which advances
a frame; and a session is polled and advanced on the answer `NoAndCheckAgain`. -/
theorem not_stalls :
    letI : Build := ⟨true⟩
    letI := Varinteger.leb128
    letI := countingClient
    (∃ visits s, (sessionDriver none fun _ _ => 5).run 3 ⟨⟨1, 0⟩, soloWorld⟩ =
        .ok (visits, false, s) ∧
      visits.map (·.2) = [{ answer := .yes, polled := true, stalled := true, again := true },
        { answer := .yes, polled := true, advanced := true }] ∧
      s.world.session.sync.frameCount = 1) ∧
    ∃ visits s, (sessionDriver (some fun w => (if w.session.sync.frameCount = 0 then
        .noAndCheckAgain else .no, w)) fun _ _ => 5).run 3 ⟨.new, soloWorld⟩ =
        .ok (visits, false, s) ∧
      visits.map (·.2) = [{ answer := .noAndCheckAgain, polled := true, advanced := true, again := true },
        { answer := .no }] ∧ s.world.session.sync.frameCount = 1 :=
  ⟨⟨_, _, rfl, rfl, rfl⟩, ⟨_, _, rfl, rfl, rfl⟩⟩

end Driver

end Backroll

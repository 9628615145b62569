import Backroll.Session.Core
import Backroll.Session.Calls

/-! A session from which nobody is gone, in the middle of its calls: what becomes of the inputs
that wait in the event channels, and of the frames simulated before they came. -/
namespace Backroll

open Fallible (Ends)

variable {n : ℕ} {I S : Type}

/-- The inputs that events carry. -/
def inputsOf : List (ProtocolEvent I) → List (FrameInput I)
  | [] => []
  | .inputs inputs :: events => inputs ++ inputsOf events
  | _ :: events => inputsOf events

/-- A standpoint at the same frame. -/
structure Standpoint.Beside (g g' : Standpoint n I) : Prop where
  floor : g'.floor = g.floor
  cur : g'.cur = g.cur
  off : g'.off = g.off

theorem Standpoint.Beside.refl (g : Standpoint n I) : g.Beside g := ⟨rfl, rfl, rfl⟩

theorem Standpoint.Beside.trans {g g₁ g₂ : Standpoint n I} (h : g.Beside g₁) (h' : g₁.Beside g₂) :
    g.Beside g₂ :=
  ⟨h'.floor.trans h.floor, h'.cur.trans h.cur, h'.off.trans h.off⟩

/-- Inputs were stored, and nothing else was done. -/
structure Session.Fed (s s' : Session n I S) : Prop where
  players : s'.players = s.players
  savedState : s'.sync.savedState = s.sync.savedState
  lastConfirmedFrame : s'.sync.lastConfirmedFrame = s.sync.lastConfirmedFrame

theorem Session.Fed.refl (s : Session n I S) : s.Fed s := ⟨rfl, rfl, rfl⟩

theorem Session.Fed.trans {s s₁ s₂ : Session n I S} (h : s.Fed s₁) (h' : s₁.Fed s₂) : s.Fed s₂ :=
  ⟨h'.players.trans h.players, h'.savedState.trans h.savedState,
    h'.lastConfirmedFrame.trans h.lastConfirmedFrame⟩

variable [Zeroable I] [BEq I] [Client I S]

/-- A session in a call: of all that the players gave, these inputs are still to be stored. -/
structure Stage (p : Setup n S) (all : Fin n → List I) (waiting : Fin n → List (FrameInput I))
    (s : Session n I S) (g : Standpoint n I) (v : View I S) : Prop where
  core : Core p g s.sync v
  locals : ∀ i, (s.players i).isLocal = p.locals i
  connected : ∀ i, (s.status i).disconnected = false
  waiting : ∀ i, ∃ xs, waiting i = framed (g.given i).length xs ∧ all i = g.given i ++ xs
  quiet : s.synchronizing = true →
    ∀ i, (g.queues i).guess = none ∧ isNull (g.queues i).incorrect

variable {p : Setup n S} {all : Fin n → List I} {waiting : Fin n → List (FrameInput I)}
  {s s' : Session n I S} {g : Standpoint n I} {v : View I S} {queue : Fin n}

namespace Session

variable [Build]

/-- The next input of a remote player is taken out of the channel. -/
theorem handleInput_stage (h : Stage p all waiting s g v) (hremote : p.locals queue = false)
    (hreach : p.strict → (all queue).length ≤ g.cur + maxPredictionFrames + 1)
    {x : FrameInput I} {rest : List (FrameInput I)} (hwaiting : waiting queue = x :: rest) :
    Ends (s.handleInput queue x) (fun s' => ∃ g', Stage p all (Function.update waiting queue rest)
      s' g' v ∧ s.Fed s' ∧ g.Beside g') (Harmless p.strict) := by
  obtain ⟨xs, hxs, hall⟩ := h.waiting queue
  obtain ⟨y, ys, rfl⟩ : ∃ y ys, xs = y :: ys := by
    cases xs with
    | nil => simp [hwaiting] at hxs
    | cons y ys => exact ⟨y, ys, rfl⟩
  obtain ⟨rfl, rfl⟩ : x = ⟨(g.given queue).length, y⟩ ∧
      rest = framed ((g.given queue).length + 1) ys := by
    rw [hwaiting, framed_cons, List.cons.injEq] at hxs
    exact hxs
  have hconn := h.connected queue
  have hlast := (h.core.standing queue).last hconn
  have hlast' : (s.status queue).lastFrame + 1 = (g.given queue).length := hlast
  have hfits : p.strict → ((g.given queue).length : ℤ) + p.delay < g.floor + maxRollbackFrames := by
    intro hs
    have hlen := hreach hs
    rw [hall, List.length_append, List.length_cons] at hlen
    have hspan := h.core.span
    have hdelay := (p.fits hs).2
    have h8 : maxPredictionFrames = 8 := rfl
    have h120 : maxRollbackFrames = 120 := rfl
    omega
  have hadd := h.core.addInput (x := ⟨(g.given queue).length, y⟩) hconn rfl
    (fun hi => absurd hi (by simp [hremote])) hfits
  unfold handleInput
  dsimp only
  rw [debugAssert_of (.inr hlast'.symm)]
  unfold Sync.addRemoteInput
  rw [Fallible.ok_bind, bind_assoc]
  refine hadd.bind fun r hr => ?_
  have hstatus : ({ s.status queue with lastFrame := ((g.given queue).length : ℤ) } :
      ConnectionStatus) = ⟨false, (g.given queue).length⟩ := by rw [← hconn]
  refine ⟨g.add queue ⟨(g.given queue).length, y⟩, ⟨?_, h.locals, fun i => ?_, fun i => ?_,
    fun hsync i => ?_⟩, ⟨rfl, rfl, rfl⟩, ⟨rfl, rfl, rfl⟩⟩
  · dsimp only [setStatus]
    rw [status] at hstatus ⊢
    exact hstatus ▸ hr
  · dsimp only [setStatus, status]
    by_cases hi : i = queue
    · subst hi
      rw [Function.update_self]
      exact hconn
    · rw [Function.update_of_ne hi]
      exact h.connected i
  · by_cases hi : i = queue
    · subst hi
      refine ⟨ys, ?_, ?_⟩
      · simp [Standpoint.add]
      · simpa [Standpoint.add] using hall
    · simpa [Standpoint.add, hi] using h.waiting i
  · obtain ⟨hguess, hnull⟩ := h.quiet hsync i
    by_cases hi : i = queue
    · subst hi
      have hidle := LogQueue.idle_add hguess ⟨(g.given i).length, y⟩
      simpa [Standpoint.add, hidle] using hnull
    · simpa [Standpoint.add, hi] using ⟨hguess, hnull⟩

omit [Build] in
theorem checkInitialSync_stage (h : Stage p all waiting s g v) :
    Stage p all waiting s.checkInitialSync.2 g v ∧ s.Fed s.checkInitialSync.2 ∧
      ∃ events : List Event, s.checkInitialSync.1 = events.map Command.event := by
  unfold checkInitialSync
  split
  · exact ⟨⟨h.core, h.locals, h.connected, h.waiting, fun hsync => absurd hsync (by simp)⟩,
      ⟨rfl, rfl, rfl⟩, [.running], rfl⟩
  · exact ⟨h, .refl s, [], rfl⟩

/-- The next event of a remote player. -/
theorem handleEvent_stage (h : Stage p all waiting s g v) (hremote : p.locals queue = false)
    (hreach : p.strict → (all queue).length ≤ g.cur + maxPredictionFrames + 1)
    {evt : ProtocolEvent I} {rest : List (ProtocolEvent I)}
    (hwaiting : waiting queue = inputsOf (evt :: rest)) :
    Ends (s.handleEvent queue evt) (fun r => ∃ g', Stage p all
      (Function.update waiting queue (inputsOf rest)) r.2 g' v ∧ s.Fed r.2 ∧ g.Beside g' ∧
        ∃ events : List Event, r.1 = events.map Command.event) (Harmless p.strict) := by
  have hsame : inputsOf (evt :: rest) = inputsOf rest →
      Function.update waiting queue (inputsOf rest) = waiting := fun heq => by
    rw [← heq, ← hwaiting, Function.update_eq_self]
  cases evt with
  | connected =>
    rw [hsame rfl]
    exact ⟨g, h, .refl s, .refl g, [_], rfl⟩
  | synchronizing total count =>
    rw [hsame rfl]
    exact ⟨g, h, .refl s, .refl g, [_], rfl⟩
  | networkInterrupted disconnectTimeout =>
    rw [hsame rfl]
    exact ⟨g, h, .refl s, .refl g, [_], rfl⟩
  | networkResumed =>
    rw [hsame rfl]
    exact ⟨g, h, .refl s, .refl g, [_], rfl⟩
  | synchronized =>
    rw [hsame rfl]
    obtain ⟨hstage, hfed, events, hevents⟩ := checkInitialSync_stage h
    exact ⟨g, hstage, hfed, .refl g, .synchronized queue :: events,
      congrArg (.event (.synchronized queue) :: ·) hevents⟩
  | inputs inputs =>
    simp only [handleEvent]
    rw [if_neg (by simp [h.connected queue])]
    refine (Fallible.walk_ends (fun (as : List (FrameInput I)) s' => ∃ g',
      Stage p all (Function.update waiting queue (as ++ inputsOf rest)) s' g' v ∧ s.Fed s' ∧
        g.Beside g') ?_ ⟨g, ?_, .refl s, .refl g⟩).bind fun s' hs' => ?_
    · rintro x as s₁ ⟨g₁, hstage, hfed, hbeside⟩
      refine (handleInput_stage hstage hremote (fun hs => ?_) (Function.update_self _ _ _)).imp
        fun s₂ hs₂ => ?_
      · rw [hbeside.cur]
        exact hreach hs
      · obtain ⟨g₂, hstage₂, hfed₂, hbeside₂⟩ := hs₂
        rw [Function.update_idem] at hstage₂
        exact ⟨g₂, hstage₂, hfed.trans hfed₂, hbeside.trans hbeside₂⟩
    · rw [show inputs ++ inputsOf rest = waiting queue from hwaiting.symm, Function.update_eq_self]
      exact h
    · obtain ⟨g', hstage, hfed, hbeside⟩ := hs'
      exact ⟨g', hstage, hfed, hbeside, [], rfl⟩

/-- The events of a player that wait in the channel. -/
def eventsOf (player : PlayerType I) : List (ProtocolEvent I) :=
  (player.peer?.map fun peer => peer.events.queue).getD []

/-- The events of the players below `k` were handled. -/
structure Flushed (k : ℕ) (s s' : Session n I S) : Prop where
  done : ∀ i : Fin n, i < k → s'.players i = drained (s.players i)
  todo : ∀ i : Fin n, k ≤ i → s'.players i = s.players i
  savedState : s'.sync.savedState = s.sync.savedState
  lastConfirmedFrame : s'.sync.lastConfirmedFrame = s.sync.lastConfirmedFrame

/-- What waits once the events of the players below `k` were handled. -/
def waitingFrom (s : Session n I S) (k : ℕ) (i : Fin n) : List (FrameInput I) :=
  if i < k then [] else inputsOf (eventsOf (s.players i))

omit [Build] [Zeroable I] [BEq I] [Client I S] in
theorem waitingFrom_succ (s : Session n I S) (i : Fin n) :
    s.waitingFrom (i + 1) = Function.update (s.waitingFrom i) i [] := by
  funext j
  unfold waitingFrom
  by_cases hj : j = i
  · subst hj
    simp
  · have hne : j.val ≠ i.val := fun h => hj (Fin.ext h)
    rw [Function.update_of_ne hj]
    congr 1
    exact propext ⟨fun h => by omega, fun h => by omega⟩

theorem flushPeerEvents_stage (h : Stage p all waiting s g v) (hremote : p.locals queue = false)
    (hreach : p.strict → (all queue).length ≤ g.cur + maxPredictionFrames + 1)
    {rx : Channel (ProtocolEvent I)} (hopen : rx.closed = false)
    (hwaiting : waiting queue = inputsOf rx.queue) :
    Ends (s.flushPeerEvents queue rx) (fun r => ∃ g', Stage p all
      (Function.update waiting queue []) r.2 g' v ∧ g.Beside g' ∧
        Session.Fed { s with players := Function.update s.players queue (drained (s.players queue)) } r.2 ∧
        ∃ events : List Event, r.1 = events.map Command.event) (Harmless p.strict) := by
  unfold flushPeerEvents
  dsimp only
  obtain ⟨s₁, hs₁⟩ : ∃ s₁ : Session n I S,
      { s with players := Function.update s.players queue (drained (s.players queue)) } = s₁ :=
    ⟨_, rfl⟩
  have hdrained : drained (s.players queue) =
      (s.players queue).mapPeer fun peer => { peer with events.queue := [] } := rfl
  have hstage : Stage p all waiting s₁ g v := by
    subst hs₁
    refine ⟨h.core, fun i => ?_, h.connected, h.waiting, h.quiet⟩
    dsimp only
    by_cases hi : i = queue
    · subst hi
      rw [Function.update_self, isLocal_drained, h.locals]
    · rw [Function.update_of_ne hi, h.locals]
  rw [← hdrained, hs₁]
  refine (Fallible.walk_ends (fun events (r : List (Command I) × Session n I S) => ∃ g',
    Stage p all (Function.update waiting queue (inputsOf events)) r.2 g' v ∧ g.Beside g' ∧
      s₁.Fed r.2 ∧ ∃ events : List Event, r.1 = events.map Command.event) ?_ ⟨g, ?_, .refl g,
      .refl s₁, [], rfl⟩).bind fun r hr => ?_
  · rintro evt rest ⟨commands, s₂⟩ ⟨g₂, hstage₂, hbeside₂, hfed₂, events₂, rfl⟩
    refine (handleEvent_stage hstage₂ hremote (fun hs => ?_) (Function.update_self _ _ _)).bind
      fun r hr => ?_
    · rw [hbeside₂.cur]
      exact hreach hs
    · obtain ⟨g₃, hstage₃, hfed₃, hbeside₃, events₃, hevents₃⟩ := hr
      rw [Function.update_idem] at hstage₃
      exact ⟨g₃, hstage₃, hbeside₂.trans hbeside₃, hfed₂.trans hfed₃, events₂ ++ events₃,
        by rw [hevents₃, List.map_append]⟩
  · rw [← hwaiting, Function.update_eq_self]
    exact hstage
  · rw [hopen]
    exact hr

/-- All that waits is handled. -/
theorem flushEvents_stage (h : Stage p all (s.waitingFrom 0) s g v)
    (hopen : ∀ i peer, s.players i = .remote peer → peer.events.closed = false)
    (hreach : p.strict → ∀ i, (all i).length ≤ g.cur + maxPredictionFrames + 1) :
    Ends s.flushEvents (fun r => ∃ g', Stage p all (fun _ => []) r.2 g' v ∧ g.Beside g' ∧
        s.Flushed n r.2 ∧ ∃ events : List Event, r.1 = events.map Command.event)
      (Harmless p.strict) := by
  have hnone : s.waitingFrom n = fun _ => [] := by
    funext i
    simp [waitingFrom]
  rw [← hnone]
  unfold flushEvents
  refine Fallible.forEach_ends (fun k (r : List (Command I) × Session n I S) => ∃ g',
    Stage p all (s.waitingFrom k) r.2 g' v ∧ g.Beside g' ∧ s.Flushed k r.2 ∧
      ∃ events : List Event, r.1 = events.map Command.event)
    ⟨g, h, .refl g, ⟨fun i hi => absurd hi (Nat.not_lt_zero _), fun _ _ => rfl, rfl, rfl⟩, [], rfl⟩ ?_
  rintro i ⟨commands, s₁⟩ ⟨g₁, hstage₁, hbeside₁, hflushed₁, events₁, rfl⟩
  have hplayer := hflushed₁.todo i le_rfl
  dsimp only at hplayer hstage₁ ⊢
  have hdone : ∀ s₂ : Session n I S, s₂.players = Function.update s₁.players i (drained (s.players i)) →
      s₂.sync.savedState = s₁.sync.savedState →
      s₂.sync.lastConfirmedFrame = s₁.sync.lastConfirmedFrame → s.Flushed (i + 1) s₂ := by
    intro s₂ hplayers hsaved hlast
    refine ⟨fun j hj => ?_, fun j hj => ?_, hsaved.trans hflushed₁.savedState,
      hlast.trans hflushed₁.lastConfirmedFrame⟩
    · rw [hplayers]
      by_cases hji : j = i
      · subst hji
        rw [Function.update_self]
      · rw [Function.update_of_ne hji]
        have hne : j.val ≠ i.val := fun h => hji (Fin.ext h)
        exact hflushed₁.done j (by omega)
    · have hji : j ≠ i := by
        rintro rfl
        omega
      rw [hplayers, Function.update_of_ne hji]
      exact hflushed₁.todo j (by omega)
  rw [waitingFrom_succ]
  cases hp : s.players i with
  | localPlayer =>
    rw [hplayer, hp]
    have hempty : s.waitingFrom i i = [] := by simp [waitingFrom, hp, eventsOf, PlayerType.peer?, inputsOf]
    rw [← hempty, Function.update_eq_self]
    refine ⟨g₁, hstage₁, hbeside₁, hdone s₁ ?_ rfl rfl, events₁, rfl⟩
    rw [hp, show drained (I := I) .localPlayer = s₁.players i by rw [hplayer, hp]; rfl,
      Function.update_eq_self]
  | remote peer =>
    rw [hplayer, hp]
    dsimp only [PlayerType.peer?]
    have hremote : p.locals i = false := by rw [← hstage₁.locals i, hplayer, hp]; rfl
    have hwaiting : s.waitingFrom i i = inputsOf peer.events.queue := by
      simp [waitingFrom, hp, eventsOf, PlayerType.peer?]
    refine (flushPeerEvents_stage hstage₁ hremote (fun hs => ?_) (hopen i peer hp) hwaiting).bind
      fun r hr => ?_
    · rw [hbeside₁.cur]
      exact hreach hs i
    · obtain ⟨g₂, hstage₂, hbeside₂, hfed₂, events₂, hevents₂⟩ := hr
      rw [hplayer] at hfed₂
      exact ⟨g₂, hstage₂, hbeside₁.trans hbeside₂,
        hdone r.2 hfed₂.players hfed₂.savedState hfed₂.lastConfirmedFrame, events₁ ++ events₂,
        by rw [hevents₂, List.map_append]⟩

end Session

end Backroll

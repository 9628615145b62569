import Backroll.Session.Launch

/-! Runs of a session from its start on, with the commands of every call. Exactly the runs in
which no player is put out before an input of it has come keep the order of the start. -/
namespace Backroll

open Fallible (Ends)

variable {n : ℕ} {I S : Type}

/-- The last frame a player sent an input for, once these events are handled. -/
def lastHeard (last : ℤ) (events : List (ProtocolEvent I)) : ℤ :=
  ((inputsOf events).map FrameInput.frame).getLastD last

theorem getLastD_append {α : Type} (xs ys : List α) (a : α) :
    (xs ++ ys).getLastD a = ys.getLastD (xs.getLastD a) := by
  induction xs generalizing a with
  | nil => rfl
  | cons x xs ih => rw [List.cons_append, List.getLastD_cons, List.getLastD_cons, ih]

theorem lastHeard_inputs (last : ℤ) (inputs : List (FrameInput I))
    (events : List (ProtocolEvent I)) : lastHeard last (.inputs inputs :: events) =
      lastHeard ((inputs.map FrameInput.frame).getLastD last) events := by
  rw [lastHeard, inputsOf, List.map_append, getLastD_append]
  rfl

namespace Session

variable {k : ℕ} {s s₁ s₂ : Session n I S} {queue : Fin n}

/-- The call puts out a remote player of whom no input has come. -/
def Unheard (s : Session n I S) : Call I → Prop
  | .poll | .advanceFrame => ∃ i peer, s.players i = .remote peer ∧ peer.events.closed = true ∧
    lastHeard (s.status i).lastFrame peer.events.queue < 0
  | .disconnectPlayer player => ∃ i : Fin n, i.val = player ∧ (s.players i).isLocal = false ∧
    (s.status i).disconnected = false ∧ (s.status i).lastFrame < 0
  | _ => False

section Proceeding

variable [Build]

section Disconnecting

variable [Zeroable I]

theorem disconnectPlayer_proceeds (hs : s.Launched) (hremote : (s.players queue).isLocal = false) :
    Ends (s.disconnectPlayer queue) (fun r => match r.1 with
      | .ok commands => (s.status queue).disconnected = false ∧
        Proceeds (0 ≤ (s.status queue).lastFrame) 0 s commands r.2 ∧ Apart queue s r.2
      | .error _ => (s.status queue).disconnected = true ∧ r.2 = s) fun _ => True := by
  have hqueue : s.playerHandleToQueue queue = .ok queue := by simp [playerHandleToQueue]
  unfold disconnectPlayer
  rw [hqueue]
  dsimp only
  split
  · next hd => exact ⟨hd, rfl⟩
  · next hd =>
    rw [if_neg (by simp [hremote])]
    exact (disconnectPlayerQueue_proceeds hs hremote _).bind fun r hr =>
      ⟨by simpa using hd, hr⟩

/-- With a local player, all remote ones are put out by the current frame. -/
theorem disconnectLocal_proceeds (hs : s.Launched) (hlocal : (s.players queue).isLocal = true) :
    Ends (s.disconnectPlayer queue) (fun r => match r.1 with
      | .ok commands => Proceeds True 0 s commands r.2
      | .error _ => r.2 = s) fun _ => True := by
  have hqueue : s.playerHandleToQueue queue = .ok queue := by simp [playerHandleToQueue]
  unfold disconnectPlayer
  rw [hqueue]
  dsimp only
  by_cases hd : (s.status queue).disconnected = true
  · rw [if_pos hd]
    rfl
  · rw [if_neg hd, if_pos hlocal]
    refine (Fallible.forEach_ends (fun _ (r : List (Command I) × Session n I S) =>
      Proceeds True 0 s r.1 r.2) (.refl hs.settled) ?_).bind fun r hr => hr
    rintro i ⟨commands, s₁⟩ hproceeds
    dsimp only at hproceeds ⊢
    split
    · exact hproceeds
    · next hi =>
      refine (disconnectPlayerQueue_proceeds (hs.later₀ hproceeds.toLater)
        (by simpa using hi) s.sync.frameCount).bind fun r hr => ?_
      exact (hproceeds.trans hr.1).congr (by simp [hs.count])

end Disconnecting

variable [BEq I]

/-- One state is the other but for what is known of a player, and has this frame for it. -/
structure Hears (queue : Fin n) (frame : ℤ) (s s' : Session n I S) : Prop where
  frame : (s'.status queue).lastFrame = frame
  players : s'.players = s.players
  synchronizing : s'.synchronizing = s.synchronizing
  others : ∀ i, i ≠ queue → s'.status i = s.status i

theorem handleInput_hears (s : Session n I S) (queue : Fin n) (input : FrameInput I) :
    Ends (s.handleInput queue input) (Hears queue input.frame s) fun _ => True := by
  unfold handleInput
  refine .bind_any fun _ => ?_
  refine (Sync.addRemoteInput_calm s.sync queue input).bind fun sync hsync => ?_
  refine ⟨by simp [setStatus, status], rfl, rfl, fun i hi => ?_⟩
  exact (Function.update_of_ne hi _ _).trans (congrFun hsync.statuses i)

theorem handleInputs_hears (s : Session n I S) (queue : Fin n) (inputs : List (FrameInput I)) :
    Ends (Fallible.walk (handleInput queue) inputs s)
      (Hears queue ((inputs.map FrameInput.frame).getLastD (s.status queue).lastFrame) s)
      fun _ => True := by
  induction inputs generalizing s with
  | nil => exact ⟨rfl, rfl, rfl, fun _ _ => rfl⟩
  | cons input inputs ih =>
    rw [Fallible.walk_cons]
    refine (handleInput_hears s queue input).bind fun s₁ h₁ => (ih s₁).imp fun s₂ h₂ => ?_
    rw [h₁.frame] at h₂
    exact ⟨by rw [h₂.frame, List.map_cons, List.getLastD_cons], h₂.players.trans h₁.players,
      h₂.synchronizing.trans h₁.synchronizing,
      fun i hi => (h₂.others i hi).trans (h₁.others i hi)⟩

/-- The inputs that wait are counted, unless the player is out. -/
theorem handleEvent_proceeds (hs : s.Settled) (queue : Fin n) (evt : ProtocolEvent I)
    (events : List (ProtocolEvent I)) :
    Ends (s.handleEvent queue evt) (fun r => Proceeds True 0 s r.1 r.2 ∧ Apart queue s r.2 ∧
      ((s.status queue).disconnected = false →
        lastHeard (r.2.status queue).lastFrame events =
          lastHeard (s.status queue).lastFrame (evt :: events))) fun _ => True := by
  have hevent : ∀ event : Event, event ≠ .running → Proceeds True 0 s [.event event] s := by
    intro event hne
    have hquiet : Event.running ∉ [event] := by simpa using hne.symm
    refine .of_issues (Steady.refl hs).toLater (.events hquiet rfl) (fun _ => id)
      (List.countP_eq_zero.mpr fun c hc hrun => ?_)
    rw [List.mem_singleton.mp hc] at hrun
    exact hne (Command.event.inj (Command.isRunning_iff.mp hrun))
  cases evt with
  | connected => exact ⟨hevent _ (by simp), .refl queue s, fun _ => rfl⟩
  | synchronizing total count => exact ⟨hevent _ (by simp), .refl queue s, fun _ => rfl⟩
  | networkInterrupted disconnectTimeout =>
    exact ⟨hevent _ (by simp), .refl queue s, fun _ => rfl⟩
  | networkResumed => exact ⟨hevent _ (by simp), .refl queue s, fun _ => rfl⟩
  | synchronized =>
    refine ⟨?_, .checkInitialSync queue s, fun _ => ?_⟩
    · exact ((hevent (.synchronized queue) (by simp)).trans (.checkInitialSync hs)).congr
        and_self_iff
    · show lastHeard (s.checkInitialSync.2.status queue).lastFrame events = _
      rw [status, (Steady.checkInitialSync hs).statuses]
      rfl
  | inputs inputs =>
    have honward := handleEvent_onward hs queue (.inputs inputs)
    simp only [handleEvent] at honward ⊢
    by_cases hd : (s.status queue).disconnected = true
    · rw [if_pos hd]
      exact ⟨.refl hs, .refl queue s, fun hin => by simp [hin] at hd⟩
    · rw [if_neg hd] at honward ⊢
      have hhears : Ends (do
          let s' ← Fallible.walk (handleInput queue) inputs s
          return (([] : List (Command I)), s')) (fun r => r.1 = [] ∧ Hears queue _ s r.2)
          fun _ => True := (handleInputs_hears s queue inputs).bind fun s' hs' => ⟨rfl, hs'⟩
      refine (honward.and hhears).imp fun r hr => ?_
      obtain ⟨hon, hnone, hh⟩ := hr
      rw [hnone]
      refine ⟨.nil hon.toLater hh.synchronizing fun i hi => ?_, fun i hi =>
        ⟨congrFun hh.players i, hh.others i hi⟩, fun _ => ?_⟩
      · rcases hi with hi | hi | hi
        · exact .inl (by rwa [hh.players])
        · exact .inr (.inl (by rwa [hh.players]))
        · exact .inr (.inr (hon.out i hi))
      · rw [hh.frame, lastHeard_inputs]

section Polling

variable [Zeroable I]

theorem flushPeerEvents_proceeds (hs : s.Launched) (hremote : (s.players queue).isLocal = false)
    (rx : Channel (ProtocolEvent I)) :
    Ends (s.flushPeerEvents queue rx) (fun r => Proceeds
      (rx.closed = true → 0 ≤ lastHeard (s.status queue).lastFrame rx.queue) 0 s r.1 r.2 ∧
      Apart queue s r.2) fun _ => True := by
  unfold flushPeerEvents
  dsimp only
  have hdrain := Steady.drain hs.settled queue
  obtain ⟨s₁, hs₁⟩ : ∃ s₁ : Session n I S,
      { s with players := Function.update s.players queue (drained (s.players queue)) } = s₁ :=
    ⟨_, rfl⟩
  have hstatus : ∀ i, s₁.status i = s.status i := fun i => by rw [← hs₁]; rfl
  have hapart : Apart queue s s₁ := fun i hi => by
    rw [← hs₁]
    exact ⟨Function.update_of_ne hi _ _, rfl⟩
  have hempty : Proceeds True 0 s [] s₁ := by
    refine .nil (hs₁ ▸ hdrain.toLater) (by rw [← hs₁]) fun i hi => ?_
    by_cases heq : i = queue
    · subst heq
      rw [Joined, hstatus, ← hs₁]
      simp only [Function.update_self, isLocal_drained, isSynchronized_drained]
      exact hi
    · rw [Joined, (hapart i heq).1, hstatus]
      exact hi
  change Ends (Fallible.walk _ rx.queue ([], { s with
    players := Function.update s.players queue (drained (s.players queue)) }) >>= _) _ _
  rw [hs₁]
  refine (Fallible.walk_ends (fun rest (r : List (Command I) × Session n I S) =>
    Proceeds True 0 s r.1 r.2 ∧ Apart queue s r.2 ∧ ((r.2.status queue).disconnected = false →
      lastHeard (r.2.status queue).lastFrame rest =
        lastHeard (s.status queue).lastFrame rx.queue)) ?_
    ⟨hempty, hapart, fun _ => by rw [hstatus]⟩).bind fun r hr => ?_
  · rintro evt rest ⟨commands, s₂⟩ ⟨hproceeds, hapart₂, hheard⟩
    dsimp only at hproceeds hapart₂ hheard
    refine (handleEvent_proceeds hproceeds.settled queue evt rest).bind fun r hr => ?_
    refine ⟨(hproceeds.trans hr.1).congr and_self_iff, hapart₂.trans hr.2.1, fun hin => ?_⟩
    have hin₂ : (s₂.status queue).disconnected = false := by
      by_contra hd
      simp [hr.1.out queue (by simpa using hd)] at hin
    rw [hr.2.2 hin₂, hheard hin₂]
  · obtain ⟨commands, s₂⟩ := r
    obtain ⟨hproceeds, hapart₂, hheard⟩ := hr
    dsimp only at hproceeds hapart₂ hheard ⊢
    split
    · next hclosed =>
      have hremote₂ : (s₂.players queue).isLocal = false := by
        rw [(hproceeds.kept queue).isLocal, hremote]
      refine (disconnectPlayer_proceeds (hs.later₀ hproceeds.toLater) hremote₂).bind
        fun r₃ hr₃ => ?_
      obtain ⟨result, s₃⟩ := r₃
      cases result with
      | error err => trivial
      | ok more =>
        obtain ⟨hin, hout, hapart₃⟩ := hr₃
        refine ⟨(hproceeds.trans hout).congr ?_, hapart₂.trans hapart₃⟩
        rw [show (s₂.status queue).lastFrame = _ from hheard hin]
        simp [hclosed]
    · next hopen => exact ⟨hproceeds.congr (by simp [hopen]), hapart₂⟩

theorem flushEvents_proceeds (hs : s.Launched) :
    Ends s.flushEvents (fun r => Proceeds (∀ i peer, s.players i = .remote peer →
      peer.events.closed = true → 0 ≤ lastHeard (s.status i).lastFrame peer.events.queue)
      0 s r.1 r.2) fun _ => True := by
  unfold flushEvents
  refine (Fallible.forEach_ends (fun k (r : List (Command I) × Session n I S) =>
    Proceeds (∀ i : Fin n, i < k → ∀ peer, s.players i = .remote peer →
      peer.events.closed = true → 0 ≤ lastHeard (s.status i).lastFrame peer.events.queue)
      0 s r.1 r.2 ∧
    ∀ i : Fin n, k ≤ i → r.2.players i = s.players i ∧ r.2.status i = s.status i)
    ⟨(Proceeds.refl hs.settled).congr (by simp), fun _ _ => ⟨rfl, rfl⟩⟩ ?_).imp fun r hr =>
      hr.1.congr ⟨fun h i => h i i.isLt, fun h i _ => h i⟩
  rintro i ⟨commands, s₁⟩ ⟨hproceeds, htodo⟩
  dsimp only at hproceeds htodo ⊢
  obtain ⟨hplayer, hstatus⟩ := htodo i le_rfl
  have hsplit : ∀ {P : Fin n → Prop}, (∀ j : Fin n, j < i.val + 1 → P j) ↔
      (∀ j : Fin n, j < i.val → P j) ∧ P i := by
    refine fun {P} => ⟨fun h => ⟨fun j hj => h j (by omega), h i (by omega)⟩, fun h j hj => ?_⟩
    rcases Nat.lt_succ_iff_lt_or_eq.mp hj with hlt | heq
    · exact h.1 j hlt
    · exact Fin.ext heq ▸ h.2
  rw [hplayer]
  cases hp : s.players i with
  | localPlayer =>
    exact ⟨hproceeds.congr (hsplit.trans (by simp [hp])).symm, fun j hj => htodo j (by omega)⟩
  | remote peer =>
    have hremote : (s₁.players i).isLocal = false := by rw [hplayer, hp]; rfl
    refine (flushPeerEvents_proceeds (hs.later₀ hproceeds.toLater) hremote peer.events).bind
      fun r hr => ?_
    refine ⟨(hproceeds.trans hr.1).congr (hsplit.trans ?_).symm, fun j hj => ?_⟩
    · simp [hp, hstatus]
    · have hne : j ≠ i := by
        rintro rfl
        omega
      obtain ⟨hplayer', hstatus'⟩ := hr.2 j hne
      obtain ⟨hplayer, hstatus⟩ := htodo j (by omega)
      exact ⟨hplayer'.trans hplayer, hstatus'.trans hstatus⟩

/-- Once the events are handled, a running session puts nobody out. -/
theorem pollRunning_proceeds (hs : s.Launched) (hrun : s.synchronizing = false) :
    Ends s.pollRunning (fun r => Proceeds True 0 s r.1 r.2) fun _ => True := by
  have hcommands : Ends s.pollRunning (fun r => FramesFrom 0 r.1 ∧ .event .running ∉ r.1 ∧
      ∀ i, s.Joined i → r.2.Joined i) fun _ => True := by
    refine pollRunning_ends ((checkSimulation_steady hs.settled).and
      (Sync.checkSimulation_frames _)) (fun _ _ => .inr trivial) (fun r hr => (tellFrame_steady hr.1.settled).settled)
      fun r hr frame _ => ?_
    obtain ⟨hcheck, hsim⟩ := hr
    have htell := hcheck.trans (tellFrame_steady hcheck.settled)
    refine (confirm_steady htell.settled frame).imp fun sync hsync events hevents sleep => ?_
    refine ⟨hsim.1.append (.events 0 events), fun hmem => ?_, fun i hi => ?_⟩
    · rcases List.mem_append.mp hmem with hmem | hmem
      · exact hsim.2 .running hmem
      · obtain ⟨event, hmem, heq⟩ := List.mem_map.mp hmem
        obtain ⟨ahead, rfl⟩ := hevents event hmem
        cases heq
    · have hstatus := congrFun (htell.trans hsync).statuses i
      rw [Joined, status, hstatus]
      refine hi.imp (fun h => ?_) (Or.imp_left fun h => ?_)
      · simp only [tellFrame]
        revert h
        cases s.players i <;> exact id
      · simp only [tellFrame]
        revert h
        cases s.players i <;> exact id
  refine ((pollRunning_steady hs.settled).and hcommands).imp fun r hr => ?_
  obtain ⟨hsteady, hframes, hquiet, hjoined⟩ := hr
  have hzero : r.1.countP Command.isRunning = 0 := List.countP_eq_zero.mpr fun c hc hrunning =>
    hquiet (Command.isRunning_iff.mp hrunning ▸ hc)
  refine .of_issues hsteady.toLater ⟨?_, fun _ hsync => ?_, fun _ => hframes,
    fun h => absurd trivial h⟩ hjoined hzero
  · rw [hzero, hrun, hsteady.running hrun, Nat.zero_add]
  · simp [hrun] at hsync

theorem doPoll_proceeds (hs : s.Launched) :
    Ends s.doPoll (fun r => Proceeds (¬s.Unheard .poll) 0 s r.1 r.2) fun _ => True := by
  have hiff : (∀ i peer, s.players i = .remote peer → peer.events.closed = true →
      0 ≤ lastHeard (s.status i).lastFrame peer.events.queue) ↔ ¬s.Unheard .poll := by
    simp [Unheard]
  unfold doPoll
  rw [if_neg (by simp [hs.settled.idle])]
  refine (flushEvents_proceeds hs).bind fun r hr => ?_
  obtain ⟨commands, s₁⟩ := r
  dsimp only at hr ⊢
  split
  · exact hr.congr hiff
  · next hready =>
    refine (pollRunning_proceeds (hs.later₀ hr.toLater) (by simpa using hready)).bind
      fun r hr₂ => ?_
    exact (hr.trans hr₂).congr (by simpa using hiff)

theorem advanceFrame_proceeds (hs : s.Launched) :
    Ends s.advanceFrame (fun r => Proceeds (¬s.Unheard .advanceFrame)
      (if s.synchronizing then 0 else 1) s r.1 r.2) fun _ => True := by
  unfold advanceFrame
  by_cases hsync : s.synchronizing = true
  · rw [if_neg (not_not.mpr hsync), if_pos hsync]
    exact (doPoll_proceeds hs).bind fun r hr => hr
  · rw [if_pos hsync, if_neg hsync]
    refine ((incrementFrame_steady hs.settled).and (Sync.incrementFrame_frames _)).bind
      fun r hr => ?_
    obtain ⟨increment, sync⟩ := r
    obtain ⟨hsteady, hframes, hadvances, -⟩ := hr
    have hstatuses : sync.localConnectStatus = s.sync.localConnectStatus := hsteady.statuses
    have hnext := Proceeds.of_sync hsteady hframes (fun _ => hadvances) fun h => absurd h hsync
    refine (doPoll_proceeds (hs.later hnext.toLater fun h => absurd h hsync)).bind fun r hr₂ => ?_
    refine (hnext.trans hr₂).congr ?_
    rw [and_iff_right hs.count]
    simp only [Unheard, status, hstatuses]

end Polling

section Calls

variable [Varinteger] [Pod I]

/-- Every call, whatever it answers. -/
theorem make_issues (hs : s.Launched) (c : Call I) :
    Ends (s.make c) (fun r => r.2.Launched ∧ Issues (¬s.Unheard c) s r.1 r.2 ∧
      (.event .running ∈ r.1 → r.2.isSynchronized = true)) fun _ => True := by
  cases c with
  | poll =>
    exact (doPoll_proceeds hs).imp fun r hr => ⟨hs.later₀ hr.toLater, hr.toIssues, hr.ready⟩
  | advanceFrame =>
    exact (advanceFrame_proceeds hs).imp fun r hr =>
      ⟨hs.later hr.toLater fun h => if_pos h, hr.toIssues, hr.ready⟩
  | addLocalInput player input =>
    refine (addLocalInput_accepted hs.settled hs.count player input).bind fun r hr => ?_
    obtain ⟨result, s'⟩ := r
    cases result with
    | error err =>
      obtain rfl : s' = s := hr
      exact ⟨hs, (Issues.nil rfl).congr (by simp [Unheard]), fun h => absurd h List.not_mem_nil⟩
    | ok =>
      obtain ⟨i, -, hacc⟩ := hr
      have hsync : s'.synchronizing = s.synchronizing := by
        rw [hacc.ready, hacc.running hacc.ready]
      exact ⟨hs.later₀ hacc.toLater, (Issues.nil hsync).congr (by simp [Unheard]),
        fun h => absurd h List.not_mem_nil⟩
  | setFrameDelay player delay =>
    have hsame : Ends (s.setFrameDelay player delay) (fun r =>
        r.2.synchronizing = s.synchronizing) fun _ => True := by
      unfold setFrameDelay playerHandleToQueue
      split
      · rfl
      · exact .bind_any fun _ => rfl
    exact ((setFrameDelay_steady hs.settled player delay).and hsame).bind fun r hr =>
      ⟨hs.later₀ hr.1.toLater, (Issues.nil hr.2).congr (by simp [Unheard]),
        fun h => absurd h List.not_mem_nil⟩
  | disconnectPlayer player =>
    have hnothing : ¬s.Unheard (.disconnectPlayer player) → s.Launched ∧
        Issues (¬s.Unheard (.disconnectPlayer player)) s [] s ∧
          (.event .running ∈ ([] : List (Command I)) → s.isSynchronized = true) := fun hnot =>
      ⟨hs, (Issues.nil rfl).congr (by simp [hnot]), fun h => absurd h List.not_mem_nil⟩
    by_cases hplayer : player < n
    · obtain ⟨queue, rfl⟩ : ∃ queue : Fin n, queue.val = player := ⟨⟨player, hplayer⟩, rfl⟩
      cases hlocal : (s.players queue).isLocal with
      | true =>
        have hnot : ¬s.Unheard (.disconnectPlayer queue) := by
          rintro ⟨i, hi, hremote, -⟩
          obtain rfl : i = queue := Fin.ext hi
          simp [hlocal] at hremote
        refine (disconnectLocal_proceeds hs hlocal).bind fun r hr => ?_
        obtain ⟨result, s'⟩ := r
        cases result with
        | error err =>
          obtain rfl : s' = s := hr
          exact hnothing hnot
        | ok commands =>
          exact ⟨hs.later₀ hr.toLater, hr.toIssues.congr (by simp [hnot]), hr.ready⟩
      | false =>
        refine (disconnectPlayer_proceeds hs hlocal).bind fun r hr => ?_
        obtain ⟨result, s'⟩ := r
        cases result with
        | error err =>
          obtain ⟨hd, rfl⟩ := hr
          refine hnothing ?_
          rintro ⟨i, hi, -, hin, -⟩
          obtain rfl : i = queue := Fin.ext hi
          simp [hd] at hin
        | ok commands =>
          obtain ⟨hin, hproceeds, -⟩ := hr
          refine ⟨hs.later₀ hproceeds.toLater, hproceeds.toIssues.congr ?_, hproceeds.ready⟩
          rw [← not_lt]
          refine not_congr ⟨fun hneg => ⟨queue, rfl, hlocal, hin, hneg⟩, ?_⟩
          rintro ⟨i, hi, -, -, hneg⟩
          obtain rfl : i = queue := Fin.ext hi
          exact hneg
    · have herr : s.disconnectPlayer player = .ok (.error (.invalidPlayer player), s) := by
        simp [disconnectPlayer, playerHandleToQueue, hplayer]
      simp only [make, herr]
      refine hnothing ?_
      rintro ⟨i, rfl, -⟩
      exact hplayer i.isLt

/-- What may happen to a session: a call of the client, with the commands it returns; something
the tasks of its peers do; or the client executes a command, which fills cells. -/
inductive Step (s : Session n I S) : Option (Call I) → List (Command I) → Session n I S → Prop
  | call (c commands s') (h : s.make c = .ok (commands, s')) : Step s (some c) commands s'
  | peers (events s') (h : s.Interferes events s') : Step s none [] s'
  | client (frames) (h : ∀ c, (frames c).frame = (s.sync.savedState.frames c).frame) :
    Step s none [] (s.setFrames frames)

/-- One step of a run. -/
structure Moment (n : ℕ) (I S : Type) where
  before : Session n I S
  call : Option (Call I)
  commands : List (Command I)
  after : Session n I S

/-- All the commands of a run, in order. -/
def issued (history : List (Moment n I S)) : List (Command I) := history.flatMap Moment.commands

/-- A run of a session from its start on. -/
inductive Run (start : Session n I S) : List (Moment n I S) → Session n I S → Prop
  | start : Run start [] start
  | step (history s call commands s') (h : Run start history s) (hs : Step s call commands s') :
    Run start (history ++ [⟨s, call, commands, s'⟩]) s'

/-- No simulation before `Running`, no negative frame, and `Running` once at most, when every
remote player is synchronized or disconnected. -/
structure InOrder (history : List (Moment n I S)) : Prop where
  waits : ∀ c ∈ (issued history).takeWhile fun c => !c.isRunning, ¬c.Simulates
  frames : ∀ m ∈ history, 0 ≤ m.after.sync.frameCount ∧ FramesFrom 0 m.commands
  once : (issued history).countP Command.isRunning ≤ 1
  ready : ∀ m ∈ history, .event .running ∈ m.commands → m.after.isSynchronized = true

/-- No call of the run puts out a player of whom no input has come. -/
def Heard (history : List (Moment n I S)) : Prop :=
  ∀ m ∈ history, ∀ c, m.call = some c → ¬m.before.Unheard c

theorem Step.issues {call : Option (Call I)} {commands : List (Command I)} (hs : s.Launched)
    (h : Step s call commands s₁) : s₁.Launched ∧
      Issues (∀ c, call = some c → ¬s.Unheard c) s commands s₁ ∧
      (.event .running ∈ commands → s₁.isSynchronized = true) := by
  cases h with
  | call c _ _ h =>
    obtain ⟨hlaunched, hissues, hready⟩ := (make_issues hs c).ok h
    exact ⟨hlaunched, hissues.congr (by simp), hready⟩
  | peers events _ h =>
    exact ⟨hs.later₀ (h.later hs.settled), (Issues.nil h.synchronizing).congr (by simp),
      fun h => absurd h List.not_mem_nil⟩
  | client frames h =>
    refine ⟨⟨hs.settled.setFrames h, hs.count, hs.fresh⟩, Issues.congr (.nil rfl) (by simp),
      fun h => absurd h List.not_mem_nil⟩

omit [Build] [BEq I] [Varinteger] [Pod I] in
theorem Launched.new [Zeroable I] {players : Fin n → Player} {delay : ℤ} {randoms : Fin n → ℕ}
    (hnew : Session.new players delay randoms = .ok s) : s.Launched := by
  have hsettled := settled_new hnew
  obtain rfl := new_eq hnew
  exact ⟨hsettled, le_rfl, fun _ => rfl⟩

theorem Run.issues {history : List (Moment n I S)} (hs : s.Launched) (h : Run s history s₁) :
    s₁.Launched ∧ Issues (Heard history) s (issued history) s₁ ∧
      ∀ m ∈ history, 0 ≤ m.after.sync.frameCount ∧
        (Heard history → FramesFrom 0 m.commands) ∧
        (.event .running ∈ m.commands → m.after.isSynchronized = true) := by
  induction h with
  | start => exact ⟨hs, (Issues.nil rfl).congr (by simp [Heard]), by simp⟩
  | step history s₂ call commands s₃ _ hstep ih =>
    obtain ⟨hlaunched, hissues, hall⟩ := ih
    obtain ⟨hlaunched', hissues', hready⟩ := hstep.issues hlaunched
    have hheard : Heard history ∧ (∀ c, call = some c → ¬s₂.Unheard c) ↔
        Heard (history ++ [⟨s₂, call, commands, s₃⟩]) := by
      simp [Heard, or_imp, forall_and]
    have hboth := (hissues.trans hissues').congr hheard
    refine ⟨hlaunched', ?_, fun m hm => ?_⟩
    · simpa [issued] using hboth
    · rcases List.mem_append.mp hm with hm | hm
      · obtain ⟨hcount, hframes, hm⟩ := hall m hm
        exact ⟨hcount, fun h => hframes (hheard.mpr h).1, hm⟩
      · obtain rfl := List.mem_singleton.mp hm
        exact ⟨hlaunched'.count, fun h => hissues'.frames (hheard.mpr h).2, hready⟩

/-- The start is in order exactly in the runs in which no player is put out before an input of
it has come. -/
theorem run_inOrder_iff {players : Fin n → Player} {delay : ℤ} {randoms : Fin n → ℕ}
    {history : List (Moment n I S)} (hnew : Session.new players delay randoms = .ok s)
    (hremote : ∃ i, players i = .remotePlayer) (hrun : Run s history s₁) :
    InOrder history ↔ Heard history := by
  obtain ⟨-, hissues, hall⟩ := hrun.issues (.new hnew)
  have hsync : s.synchronizing = true := by
    obtain rfl := new_eq hnew
    obtain ⟨i, hi⟩ := hremote
    exact List.any_eq_true.mpr ⟨i, List.mem_finRange i, by simp [hi]⟩
  constructor
  · intro horder
    by_contra hnot
    obtain ⟨frame, hneg, hadvances⟩ := hissues.sinks hnot
    have hframes : FramesFrom 0 (issued history) := fun c hc => by
      obtain ⟨m, hm, hc⟩ := List.mem_flatMap.mp hc
      exact (horder.frames m hm).2 c hc
    exact absurd (hadvances.le hframes) (not_le.mpr hneg)
  · intro hheard
    refine ⟨hissues.waits hheard hsync, fun m hm => ⟨(hall m hm).1, (hall m hm).2.1 hheard⟩, ?_,
      fun m hm => (hall m hm).2.2⟩
    have hstarts := hissues.starts
    rw [hsync] at hstarts
    simp at hstarts
    omega

end Calls

end Proceeding

/-- A session of a local and a remote player, as it starts. -/
def freshPair : Session 2 UInt8 ℕ where
  sync := .new 0
  players := fun i => if i.val = 0 then .localPlayer else .remote (.new 1 (List.replicate 2 {}))
  synchronizing := true
  nextRecommendedSleep := 0

theorem freshPair_new : Session.new (fun i : Fin 2 => if i.val = 0 then .localPlayer
    else .remotePlayer) 0 (fun _ => 1) = .ok freshPair := connectedPair_new

/-- The same session once the remote player has timed out in the handshake. -/
def silentPair : Session 2 UInt8 ℕ where
  sync := .new 0
  players := fun i => if i.val = 0 then .localPlayer else .remote { Peer.new 1 (List.replicate 2 {}) with
    state := .disconnected
    events := { queue := [.connected, .synchronizing 5 1], closed := true } }
  synchronizing := true
  nextRecommendedSleep := 0

theorem silentPair_interferes : freshPair.Interferes
    (fun i => if i.val = 0 then [] else [.connected, .synchronizing 5 1]) silentPair := by
  refine ⟨rfl, rfl, fun i => ?_⟩
  match i with
  | 0 => exact .localPlayer
  | 1 => exact .remote _ _ _ [] rfl (.disconnected _) rfl rfl fun h => absurd h Bool.false_ne_true

/-- The poll that notices it loads a state that nobody saved and simulates frame -1, and then
the session runs. -/
theorem not_inOrder_silent :
    letI : Build := ⟨true⟩
    letI := Varinteger.leb128
    ∃ (history : List (Moment 2 UInt8 ℕ)) (s : Session 2 UInt8 ℕ) (inputs : GameInput UInt8),
      Run freshPair history s ∧ issued history = [.event (.connected 1),
        .event (.synchronizing 1 1 5), .load 0, .advanceFrame inputs, .save 1 0,
        .event (.disconnected 1), .event .running] ∧ inputs.frame = -1 ∧ ¬InOrder history :=
  letI : Build := ⟨true⟩
  letI := Varinteger.leb128
  ⟨_, _, _, .step _ _ (some .poll) _ _ (.step _ _ none _ _ .start
    (.peers _ _ silentPair_interferes)) (.call .poll _ _ rfl), rfl, rfl,
    fun h => h.waits (.load 0) (.tail _ (.tail _ (.head _))) trivial⟩

theorem run_inOrder_iff_connected :
    letI : Build := ⟨true⟩
    letI := Varinteger.leb128
    ∃ (history : List (Moment 2 UInt8 ℕ)) (s : Session 2 UInt8 ℕ), Run freshPair history s ∧
      (issued history).getLast? = some (.event .running) ∧ (InOrder history ↔ Heard history) :=
  letI : Build := ⟨true⟩
  letI := Varinteger.leb128
  have hrun : Run freshPair _ _ := .step _ _ (some .poll) _ _ (.step _ _ none _ _ .start
    (.peers _ _ connectedPair_interferes)) (.call .poll _ _ rfl)
  ⟨_, _, hrun, rfl, run_inOrder_iff freshPair_new ⟨1, rfl⟩ hrun⟩

end Session

end Backroll

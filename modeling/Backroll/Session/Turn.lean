import Backroll.Session.Startup

/-! What the calls of a client make of a session from which nobody is gone: a poll, a frame
forward, an input of a local player, and the execution of the commands that are returned. -/
namespace Backroll

open Fallible (Ends)

variable {n : ℕ} {I S : Type} [Zeroable I] [BEq I] [Client I S]

variable {p : Setup n S} {all : Fin n → List I} {waiting : Fin n → List (FrameInput I)}
  {s s' : Session n I S} {g : Standpoint n I} {v : View I S}

/-- What a call comes to that moves the session `k` frames on and polls. -/
structure Turn (p : Setup n S) (all : Fin n → List I) (s : Session n I S) (g : Standpoint n I)
    (v : View I S) (k : ℕ) (r : List (Command I) × Session n I S) (g' : Standpoint n I)
    (v' : View I S) : Prop where
  stage : Stage p all (fun _ => []) r.2 g' v'
  unmarked : g'.Unmarked
  cur : g'.cur = g.cur + k
  issues : Sync.Issues s.sync r.2.sync r.1 v v'
  undisturbed : Snapshots.Undisturbed (ops S r.1)
  monotone : s.sync.lastConfirmedFrame ≤ r.2.sync.lastConfirmedFrame
  steps : ∀ inputs ∈ advances r.1, inputs.frame < g'.cur ∧
    (s.sync.lastConfirmedFrame < inputs.frame ∨ (g.cur : ℤ) ≤ inputs.frame)
  seeks : Seeks (fun frame => (g'.cur : ℤ) - maxPredictionFrames ≤ frame ∧ frame < g'.cur) r.1

/-- Commands that load nothing may come first. -/
theorem Turn.prepend {s₁ : Session n I S} {g₁ g' : Standpoint n I} {v₁ v' : View I S} {k l : ℕ}
    {cs : List (Command I)} {r : List (Command I) × Session n I S}
    (h : Turn p all s₁ g₁ v₁ k r g' v') (hcur : g₁.cur = g.cur + l)
    (hissues : Sync.Issues s.sync s₁.sync cs v v₁)
    (hconfirmed : s₁.sync.lastConfirmedFrame = s.sync.lastConfirmedFrame)
    (hexposes : ∀ c, ¬Snapshots.Exposes c (ops S cs)) (hseeks : Seeks (fun _ => False) cs)
    (hsteps : ∀ inputs ∈ advances cs, (g.cur : ℤ) ≤ inputs.frame ∧ inputs.frame < g₁.cur) :
    Turn p all s g v (k + l) (cs ++ r.1, r.2) g' v' := by
  have hcur' := h.cur
  refine ⟨h.stage, h.unmarked, by omega, hissues.append h.issues, ?_,
    hconfirmed ▸ h.monotone, fun inputs hmem => ?_, ?_⟩
  · rw [ops_append]
    exact h.undisturbed.prepend hexposes
  · rw [advances_append, List.mem_append] at hmem
    rcases hmem with hmem | hmem
    · obtain ⟨hge, hlt⟩ := hsteps inputs hmem
      exact ⟨by omega, .inr hge⟩
    · obtain ⟨hlt, hgt | hge⟩ := h.steps inputs hmem
      · exact ⟨hlt, .inl (hconfirmed ▸ hgt)⟩
      · exact ⟨hlt, .inr (by omega)⟩
  · exact (hseeks.mono fun _ hf => hf.elim).append h.seeks

namespace Session

variable [Build]

omit [Zeroable I] [Client I S] in
theorem handleEvent_players (s : Session n I S) (queue : Fin n) (evt : ProtocolEvent I) :
    Ends (s.handleEvent queue evt) (fun r => r.2.players = s.players) fun _ => True := by
  have hsync : s.checkInitialSync.2.players = s.players := by
    unfold checkInitialSync
    split <;> rfl
  cases evt with
  | connected => exact rfl
  | synchronizing total count => exact rfl
  | networkInterrupted disconnectTimeout => exact rfl
  | networkResumed => exact rfl
  | synchronized => exact hsync
  | inputs inputs =>
    unfold handleEvent
    dsimp only
    split
    · rfl
    · exact (handleInputs_hears s queue inputs).bind fun s' hs' => hs'.players

omit [Client I S] in
/-- Where nobody's channel is closed, a flush empties the channels and leaves the players. -/
theorem flushEvents_players
    (hopen : ∀ i peer, s.players i = .remote peer → peer.events.closed = false) :
    Ends s.flushEvents (fun r => ∀ i, r.2.players i = drained (s.players i)) fun _ => True := by
  unfold flushEvents
  refine (Fallible.forEach_ends (fun k (r : List (Command I) × Session n I S) =>
    ∀ i : Fin n, r.2.players i = if i < k then drained (s.players i) else s.players i)
    (fun i => by simp) ?_).imp fun r hr i => by rw [hr i, if_pos i.isLt]
  rintro i ⟨commands, s₁⟩ hplayers
  have hi := hplayers i
  rw [if_neg (lt_irrefl _)] at hi
  have hnext : ∀ s₂ : Session n I S, s₂.players = Function.update s₁.players i (drained (s.players i)) →
      ∀ j : Fin n, s₂.players j = if j < i.val + 1 then drained (s.players j) else s.players j := by
    intro s₂ hs₂ j
    rw [hs₂]
    by_cases hj : j = i
    · subst hj
      simp
    · have hne : j.val ≠ i.val := fun h => hj (Fin.ext h)
      rw [Function.update_of_ne hj, hplayers j]
      exact if_congr (by omega) rfl rfl
  dsimp only at hi hplayers ⊢
  cases hp : s.players i with
  | localPlayer =>
    rw [hi, hp]
    refine hnext s₁ ?_
    rw [hp, show drained (I := I) .localPlayer = s₁.players i by rw [hi, hp]; rfl,
      Function.update_eq_self]
  | remote peer =>
    rw [hi, hp]
    dsimp only [PlayerType.peer?]
    have hflush : Ends (s₁.flushPeerEvents i peer.events) (fun r =>
        r.2.players = Function.update s₁.players i (drained (s.players i))) fun _ => True := by
      unfold flushPeerEvents
      dsimp only
      rw [hi]
      refine (Fallible.walk_ends (fun _ (r : List (Command I) × Session n I S) =>
        r.2.players = Function.update s₁.players i (drained (s.players i))) ?_ rfl).bind fun r hr => ?_
      · rintro evt _ ⟨_, s₂⟩ hs₂
        exact (handleEvent_players s₂ i evt).bind fun r hr => hr.trans hs₂
      · rw [hopen i peer hp]
        exact hr
    exact hflush.bind fun r hr => hnext r.2 hr

/-- What a check of the simulation comes to. -/
structure Checked (p : Setup n S) (g : Standpoint n I) (s : Sync n I S) (v : View I S)
    (r : List (Command I) × Sync n I S) (g' : Standpoint n I) (v' : View I S) : Prop where
  core : Core p g' r.2 v'
  unmarked : g'.Unmarked
  cur : g'.cur = g.cur
  given : g'.given = g.given
  unchanged : Sync.Unchanged s r.2
  issues : Sync.Issues s r.2 r.1 v v'
  undisturbed : Snapshots.Undisturbed (ops S r.1)
  steps : ∀ inputs ∈ advances r.1, inputs.frame < g.cur ∧ s.lastConfirmedFrame < inputs.frame
  seeks : Seeks (fun frame => (g.cur : ℤ) - maxPredictionFrames ≤ frame ∧ frame < g.cur) r.1

theorem checkSimulation_checked (h : Stage p all waiting s g v) :
    Ends s.sync.checkSimulation (fun r => ∃ g' v', Checked p g s.sync v r g' v')
      (Harmless p.strict) := by
  refine h.core.checkSimulation.imp fun r hr => ?_
  rcases hr with ⟨rfl, hunmarked⟩ | ⟨t, g', v', hlow, hlt, hback⟩
  · exact ⟨g, v, h.core, hunmarked, rfl, rfl, ⟨rfl, rfl, rfl⟩, ⟨rfl, rfl⟩,
      Snapshots.undisturbed_nil, by simp, trivial⟩
  · have hrew := hback.rewinds
    have hspan := h.core.span
    have hconfirmed := h.core.confirmed
    refine ⟨g', v', hback.core, hback.unmarked, hback.cur, hback.same.given, hback.unchanged,
      hback.issues, fun c hc => ?_, fun inputs hmem => ?_, hrew.seeks.mono fun frame hframe => ?_⟩
    · obtain rfl := hrew.exposes c hc
      exact hrew.spares t (by omega) le_rfl
    · have hmem' : inputs.frame ∈ (advances r.1).map (·.frame) := List.mem_map_of_mem hmem
      rw [hrew.advances, List.mem_map] at hmem'
      obtain ⟨f, hf, hframe⟩ := hmem'
      rw [List.mem_range'_1] at hf
      omega
    · omega

omit [Build] [Zeroable I] [BEq I] [Client I S] in
theorem remotes_eq_nil : s.remotes = [] ↔ ∀ i, (s.players i).isLocal = true := by
  simp [remotes, List.filterMap_eq_nil_iff, PlayerType.isLocal]

/-- A frame that `do_poll` may confirm. -/
theorem confirm_ends {g : Standpoint n I} (h : Core p g s.sync v) (hunmarked : g.Unmarked)
    (hlocals : ∀ i, (s.players i).isLocal = p.locals i)
    (hconn : ∀ i, (s.status i).disconnected = false) {frame : WithTop ℤ}
    (hframe : s.Confirms frame) :
    Ends (s.confirm frame) (fun sync => ∃ g', Core p g' sync v ∧ g'.Unmarked ∧ g'.cur = g.cur ∧
      g'.given = g.given ∧ s.sync.lastConfirmedFrame ≤ sync.lastConfirmedFrame ∧
      sync.savedState = s.sync.savedState ∧
      sync.localConnectStatus = s.sync.localConnectStatus) (Harmless p.strict) := by
  have hconfirm : ∀ f : ℕ, s.sync.lastConfirmedFrame ≤ f → f ≤ g.cur →
      (p.Online → ∀ i, (f : ℤ) ≤ (s.status i).lastFrame) →
      Ends (s.sync.setLastConfirmedFrame f) (fun sync => ∃ g', Core p g' sync v ∧ g'.Unmarked ∧
        g'.cur = g.cur ∧ g'.given = g.given ∧
        s.sync.lastConfirmedFrame ≤ sync.lastConfirmedFrame ∧
        sync.savedState = s.sync.savedState ∧
        sync.localConnectStatus = s.sync.localConnectStatus) (Harmless p.strict) := by
    intro f hlow hcur hleast
    refine (h.setLastConfirmedFrame hunmarked hlow hcur (fun _ => hconn)
      fun hon i _ => hleast hon i).imp fun sync hsync => ?_
    obtain ⟨g', hc⟩ := hsync
    refine ⟨g', hc.core, hc.unmarked, hc.cur, hc.given, ?_, ?_, ?_⟩
    all_goals rw [hc.changed]
    exact hlow
  obtain ⟨i₀, hi₀⟩ := p.someone
  have hlow₀ := h.lowest
  have hfloor := h.confirmed
  have hle := h.floor_le
  unfold confirm
  split
  · next hpos =>
    unfold Confirms at hframe
    split at hframe
    · next hnone =>
      have hcount : (s.sync.frameCount : WithTop ℤ) = ((g.cur : ℤ) : WithTop ℤ) := by
        rw [h.stands.frameCount]
      rw [hframe, hcount, debugAssert_of (WithTop.coe_ne_top)]
      refine hconfirm g.cur (by omega) le_rfl fun honline => ?_
      obtain ⟨i, hi⟩ := honline
      rw [← hlocals, remotes_eq_nil.mp (List.length_eq_zero_iff.mp hnone) i] at hi
      exact absurd hi (by simp)
    · next hsome =>
      have hleast : frame = s.leastFrame := by
        split at hframe
        · exact hframe
        · exact hframe.2 fun hl => absurd hpos (not_le.mpr (hframe.1 hl))
      have hon : p.Online := by
        by_contra hoff
        refine hsome (List.length_eq_zero_iff.mpr (remotes_eq_nil.mpr fun i => ?_))
        by_contra hi
        exact hoff ⟨i, by rw [← hlocals]; simpa using hi⟩
      obtain ⟨j, -, hj⟩ := leastFrame_eq (hconn i₀)
      rw [hleast, hj] at hpos ⊢
      obtain ⟨f, hf⟩ : ∃ f : ℕ, (s.status j).lastFrame = f :=
        ⟨(s.status j).lastFrame.toNat, (Int.toNat_of_nonneg (by exact_mod_cast hpos)).symm⟩
      have hall : ∀ i, (f : ℤ) ≤ (s.status i).lastFrame := by
        intro i
        have := leastFrame_le (hconn i)
        rw [hj, hf] at this
        exact_mod_cast this
      have hahead := (h.standing j).ahead (hconn j) hon
      obtain ⟨-, -, -, -, hlen, -⟩ := (h.standing i₀).home hi₀
      have hlast := (h.standing i₀).last (hconn i₀)
      have hleast₀ := hall i₀
      rw [hf, debugAssert_of (WithTop.coe_ne_top)]
      refine hconfirm f ?_ ?_ fun _ => hall
      · exact hahead.trans hf.le
      · simp only [status] at hleast₀
        omega
  · exact ⟨g, h, hunmarked, rfl, rfl, le_rfl, rfl, rfl⟩

/-- What a poll at this frame may end in: a harmless fault, or an overflow of what was measured. -/
def PollFault (s : Session n I S) (strict : Prop) (frame : ℤ) (e : Panic) : Prop :=
  Harmless strict e ∨ e = .arithmeticOverflow ∧ ¬s.MeasuredAt frame

omit [BEq I] [Zeroable I] [Client I S] in
theorem MeasuredAt.not_pollFault {frame : ℤ} (h : s.MeasuredAt frame) {strict : Prop} (hstrict : strict)
    {e : Panic} : ¬s.PollFault strict frame e := by
  rintro (hharmless | ⟨-, hnot⟩)
  · exact hharmless.1 hstrict
  · exact hnot h

/-- A poll of the running session, once the events are handled. -/
theorem pollRunning_turn (h : Stage p all (fun _ => []) s g v) (hs : s.Settled)
    (hrun : s.synchronizing = false) :
    Ends s.pollRunning (fun r => ∃ g' v', Turn p all s g v 0 r g' v')
      (s.PollFault p.strict s.sync.frameCount) := by
  refine pollRunning_ends (((checkSimulation_checked h).with (checkSimulation_steady hs)).mono
    (fun _ hr => hr) fun _ he => .inl he) (fun r hr => ?_)
    (fun r hr => (tellFrame_steady hr.2.settled).settled) fun r hr frame hframe => ?_
  · have hcount : r.2.frameCount = s.sync.frameCount := by simpa using hr.2.count
    rw [hcount]
    exact or_iff_not_imp_left.mpr fun hnot => .inr ⟨rfl, hnot⟩
  obtain ⟨⟨g₁, v₁, hc⟩, -⟩ := hr
  have hstatus : ∀ i, ((({ s with sync := r.2 } : Session n I S).tellFrame.status i).disconnected =
      false) := fun i => by
    show (r.2.localConnectStatus i).disconnected = false
    rw [hc.unchanged.localConnectStatus]
    exact h.connected i
  have hlocals : ∀ i, (({ s with sync := r.2 } : Session n I S).tellFrame.players i).isLocal =
      p.locals i := fun i => by
    rw [← h.locals i]
    show ((s.players i).mapPeer _).isLocal = _
    cases s.players i <;> rfl
  refine (confirm_ends hc.core hc.unmarked hlocals hstatus hframe).mono
    (fun sync hsync events _ sleep => ?_) fun _ he => .inl he
  obtain ⟨g₂, hcore, hunmarked, hcur, hgiven, hmono, hsaved, hstatuses⟩ := hsync
  change r.2.lastConfirmedFrame ≤ _ at hmono
  change sync.savedState = r.2.savedState at hsaved
  change sync.localConnectStatus = r.2.localConnectStatus at hstatuses
  have hcur₂ : g₂.cur = g.cur := hcur.trans hc.cur
  refine ⟨g₂, v₁, ⟨hcore, hlocals, fun i => ?_, fun i => ?_, fun hsync => ?_⟩, hunmarked, hcur₂,
    ?_, ?_, ?_, fun inputs hmem => ?_, ?_⟩
  · show (sync.localConnectStatus i).disconnected = false
    rw [hstatuses]
    exact hstatus i
  · rw [hgiven, hc.given]
    exact h.waiting i
  · rw [show s.synchronizing = true from hsync] at hrun
    exact absurd hrun (by simp)
  · refine hc.issues.append ⟨runs_events events v₁, ?_⟩
    rw [resets_events]
    exact congrArg SavedState.frames hsaved
  · rw [ops_append]
    refine hc.undisturbed.append (fun c _ => save_not_mem_events events c) fun c hexp => ?_
    exact absurd hexp (exposes_events events c)
  · rw [hc.unchanged.lastConfirmedFrame] at hmono
    exact hmono
  · rw [advances_append, advances_events, List.append_nil] at hmem
    obtain ⟨hlt, hgt⟩ := hc.steps inputs hmem
    exact ⟨by rwa [hcur₂], .inl hgt⟩
  · rw [hcur₂]
    exact hc.seeks.append (seeks_events _ events)

/-- A poll between two calls. -/
theorem doPoll_turn (h : Stage p all (s.waitingFrom 0) s g v) (hs : s.Settled)
    (hopen : ∀ i peer, s.players i = .remote peer → peer.events.closed = false)
    (hreach : p.strict → ∀ i, (all i).length ≤ g.cur + maxPredictionFrames + 1) :
    Ends s.doPoll (fun r => ∃ g' v', Turn p all s g v 0 r g' v')
      (s.PollFault p.strict s.sync.frameCount) := by
  unfold doPoll
  rw [if_neg (by simp [hs.idle])]
  refine ((((flushEvents_stage h hopen hreach).with (flushEvents_onward hs)).with
    (flushEvents_players hopen)).mono (fun _ hr => hr) fun _ he => .inl he).bind fun r hr => ?_
  obtain ⟨commands, s₁⟩ := r
  obtain ⟨⟨⟨g₁, hstage, hbeside, hflushed, events, rfl⟩, hon, -⟩, hplayers⟩ := hr
  have hissues : Sync.Issues s.sync s₁.sync (events.map Command.event) v v :=
    ⟨runs_events events v, by rw [resets_events, hflushed.savedState]⟩
  dsimp only
  split
  · next hsync =>
    refine ⟨g₁, v, hstage, fun i => (hstage.quiet hsync i).2, hbeside.cur, hissues,
      fun c hexp => absurd hexp (exposes_events events c), hflushed.lastConfirmedFrame.ge,
      fun inputs hmem => ?_, seeks_events _ events⟩
    simp at hmem
  · next hrun =>
    have hcount : s₁.sync.frameCount = s.sync.frameCount := by simpa using hon.count
    refine ((pollRunning_turn hstage hon.settled (by simpa using hrun)).mono (fun _ hr => hr) ?_).bind
      fun r hr => ?_
    · rintro e (he | ⟨he, hnot⟩)
      · exact .inl he
      · exact .inr ⟨he, fun hm => hnot (hcount ▸ hm.drained hplayers)⟩
    obtain ⟨g', v', hturn⟩ := hr
    exact ⟨g', v', hturn.prepend (l := 0) hbeside.cur hissues hflushed.lastConfirmedFrame
      (exposes_events events) (seeks_events _ events) (by simp)⟩

theorem advanceFrame_turn (h : Stage p all (s.waitingFrom 0) s g v) (hs : s.Settled)
    (hunmarked : g.Unmarked) (hrun : s.synchronizing = false)
    (hready : ∀ i, p.locals i = true → (g.given i).length = g.cur + 1)
    (hopen : ∀ i peer, s.players i = .remote peer → peer.events.closed = false)
    (hreach : p.strict → ∀ i, (all i).length ≤ g.cur + 1 + maxPredictionFrames + 1) :
    Ends s.advanceFrame (fun r => ∃ g' v', Turn p all s g v 1 r g' v')
      (s.PollFault p.strict (s.sync.frameCount + 1)) := by
  unfold advanceFrame
  rw [if_pos (by simp [hrun])]
  refine (((h.core.incrementFrame hunmarked hready).with (incrementFrame_steady hs)).mono
    (fun _ hr => hr) fun _ he => .inl he).bind fun r hr => ?_
  obtain ⟨⟨g₁, v₁, hadv⟩, hsteady⟩ := hr
  have hstage : Stage p all (Session.waitingFrom { s with sync := r.2 } 0) { s with sync := r.2 } g₁ v₁ := by
    refine ⟨hadv.core, h.locals, fun i => ?_, fun i => ?_, fun hsync => ?_⟩
    · show (r.2.localConnectStatus i).disconnected = false
      rw [hadv.unchanged.localConnectStatus]
      exact h.connected i
    · rw [hadv.same.given]
      exact h.waiting i
    · rw [show s.synchronizing = true from hsync] at hrun
      exact absurd hrun (by simp)
  have hcount : r.2.frameCount = s.sync.frameCount + 1 := hsteady.count
  refine ((doPoll_turn hstage hsteady.settled hopen fun hst i => ?_).mono (fun _ hr => hr)
    fun e he => ?_).bind fun r₂ hr₂ => ?_
  · rw [hadv.cur]
    exact hreach hst i
  · rw [← hcount]
    exact he
  · obtain ⟨g', v', hturn⟩ := hr₂
    refine ⟨g', v', hturn.prepend (l := 1) hadv.cur hadv.issues hadv.unchanged.lastConfirmedFrame
      hadv.forwards.exposes hadv.forwards.seeks fun inputs hmem => ?_⟩
    have hmem' : inputs.frame ∈ (advances r.1).map (·.frame) := List.mem_map_of_mem hmem
    rw [hadv.forwards.advances, List.mem_singleton] at hmem'
    have hcur := hadv.cur
    omega

end Session

/-- Where the events of a player arrive. -/
def channelOf (player : PlayerType I) : Option (Channel (ProtocolEvent I)) :=
  player.peer?.map Peer.events

/-- The inputs the players gave, with one more that is for this frame. -/
def record (given : Fin n → List I) (i : Fin n) (frame : ℤ) (input : I) : Fin n → List I :=
  if (given i).length = frame then Function.update given i (given i ++ [input]) else given

namespace Session

section Send

variable [Build] [Varinteger] [Pod I]

omit [Zeroable I] [BEq I] [Client I S] in
/-- Sending leaves the channels of the session alone. -/
theorem sendInput_channelOf (s : Session n I S) (input : FrameInput I) :
    Ends (s.sendInput input) (fun s' => ∀ j, channelOf (s'.players j) = channelOf (s.players j))
      fun _ => True := by
  unfold sendInput
  refine Fallible.forEach_ends (fun _ (s' : Session n I S) =>
    ∀ j, channelOf (s'.players j) = channelOf (s.players j)) (fun _ => rfl) ?_
  intro i s' hsame
  cases hp : s'.players i with
  | localPlayer => exact hsame
  | remote peer =>
    refine (peer.sendInput_sent s'.statuses input).bind fun r hr j => ?_
    rw [← hsame j]
    by_cases hj : j = i
    · subst hj
      simp [channelOf, PlayerType.peer?, hp, hr.events]
    · simp [hj]

/-- What a local player's input leaves alone. -/
structure Given (s s' : Session n I S) : Prop where
  savedState : s'.sync.savedState = s.sync.savedState
  lastConfirmedFrame : s'.sync.lastConfirmedFrame = s.sync.lastConfirmedFrame
  channels : ∀ j, channelOf (s'.players j) = channelOf (s.players j)

omit [Varinteger] [Pod I] in
/-- What the queue of a local player makes of an input. -/
theorem addInput_ends (h : Stage p all waiting s g v) (hunmarked : g.Unmarked) {i : Fin n}
    (hi : p.locals i = true) (hempty : waiting i = []) (hfresh : p.strict → (all i).length = g.cur)
    (hbarrier : ¬((g.cur : ℤ) ≥ maxPredictionFrames ∧
      g.cur - s.sync.lastConfirmedFrame ≥ maxPredictionFrames)) (input : I) :
    Ends ((s.sync.inputQueues i).addInput ⟨g.cur, input⟩) (fun r => ∃ g', Core p g'
      { s.sync with
        inputQueues := Function.update s.sync.inputQueues i r.2
        localConnectStatus := Function.update s.sync.localConnectStatus i ⟨false, g.cur⟩ } v ∧
      (∀ j, ∃ xs, waiting j = framed (g'.given j).length xs ∧
        record all i g.cur input j = g'.given j ++ xs) ∧ g.Beside g' ∧ g'.Unmarked)
      (Harmless p.strict) := by
  have hall : all i = g.given i := by
    obtain ⟨xs, hxs, hall⟩ := h.waiting i
    rw [hempty] at hxs
    rw [hall, framed_eq_nil.mp hxs.symm, List.append_nil]
  obtain ⟨hconn, hguess, hnull, hle, hge, -⟩ := (h.core.standing i).home hi
  have hconfirmed := h.core.confirmed
  by_cases hlen : (g.given i).length = g.cur
  · refine (h.core.addInput hconn (congrArg Nat.cast hlen.symm) (fun _ => ⟨hlen, ?_⟩) fun hs => ?_).imp fun r hr => ?_
    · have h8 : maxPredictionFrames = 8 := rfl
      omega
    · have h8 : maxPredictionFrames = 8 := rfl
      have h120 : maxRollbackFrames = 120 := rfl
      have hdelay := (p.fits hs).2
      dsimp only
      omega
    · refine ⟨_, hr, fun j => ?_, ⟨rfl, rfl, rfl⟩, fun j => ?_⟩
      · rw [record, if_pos (by rw [hall, hlen])]
        by_cases hj : j = i
        · subst hj
          exact ⟨[], by rw [hempty]; rfl, by simp [Standpoint.add, hall]⟩
        · simpa [Standpoint.add, hj] using h.waiting j
      · by_cases hj : j = i
        · subst hj
          have hidle := LogQueue.idle_add hguess ⟨g.cur, input⟩
          simpa [Standpoint.add, hidle] using hnull
        · simpa [Standpoint.add, hj] using hunmarked j
  · have hloose : ¬p.strict := fun hs => hlen (hall ▸ hfresh hs)
    refine (h.core.addAgain hloose hi (by omega) input).imp fun r hr => ?_
    refine ⟨g, hr, fun j => ?_, .refl g, hunmarked⟩
    rw [record, if_neg (by rw [hall]; exact_mod_cast hlen)]
    exact h.waiting j

/-- A local player's input is accepted. -/
theorem addLocalInput_stage (h : Stage p all waiting s g v) (hunmarked : g.Unmarked) {i : Fin n}
    {input : I} (hempty : waiting i = []) (hfresh : p.strict → (all i).length = g.cur) :
    Ends (s.addLocalInput i input) (fun r => match r.1 with
      | .ok _ => (∃ g', Stage p (record all i g.cur input) waiting r.2 g' v ∧ g.Beside g' ∧
          g'.Unmarked) ∧ Given s r.2
      | .error _ => True) fun _ => True := by
  have hcount := h.core.stands.frameCount
  have hqueue : s.playerHandleToQueue i = .ok i := by simp [playerHandleToQueue]
  unfold addLocalInput
  rw [if_neg (by simp [h.core.idle])]
  split
  · trivial
  · next hrun =>
    rw [hqueue]
    dsimp only
    split
    · trivial
    · next hhome =>
      have hi : p.locals i = true := by
        rw [← h.locals]
        simpa using hhome
      unfold Sync.addLocalInput
      dsimp only
      split
      · trivial
      · next hbarrier =>
        rw [hcount] at hbarrier ⊢
        rw [bind_assoc]
        refine ((addInput_ends h hunmarked hi hempty hfresh hbarrier input).mono
          (fun _ hr => hr) fun _ _ => trivial).bind fun r hr => ?_
        obtain ⟨g', hcore, hwaiting, hbeside, hunmarked'⟩ := hr
        simp only [Fallible.pure_eq_ok, Fallible.ok_bind]
        rw [if_pos (by simp [isNull])]
        have hstatus : ({ s.status i with lastFrame := (g.cur : ℤ) } : ConnectionStatus) =
            ⟨false, g.cur⟩ := by rw [← h.connected i]
        refine ((sendInput_channelOf _ _).with (sendInput_handsOn _ _)).bind fun s' hs' => ?_
        obtain ⟨hchannels, hsame, hhands⟩ := hs'
        generalize s'.players = players at hsame hchannels hhands
        subst hsame
        dsimp only [setStatus] at hchannels hhands ⊢
        have hcore' := hcore
        rw [← hstatus] at hcore'
        dsimp only at hcore'
        rw [hcount] at hcore'
        refine ⟨⟨g', ⟨hcore', fun j => ?_, fun j => ?_, hwaiting, fun hsync => absurd hsync hrun⟩,
          hbeside, hunmarked'⟩, rfl, rfl, hchannels⟩
        · rw [(hhands j).1.isLocal, h.locals]
        · show ((Function.update s.sync.localConnectStatus i _) j).disconnected = false
          by_cases hj : j = i
          · subst hj
            rw [Function.update_self]
            exact h.connected j
          · rw [Function.update_of_ne hj]
            exact h.connected j

end Send

end Session

theorem Stage.setFrames (h : Stage p all waiting s g v) {frames : Fin numCells → SavedFrame S}
    (hlabel : ∀ c, (frames c).frame = (s.sync.savedState.frames c).frame) :
    Stage p all waiting (s.setFrames frames) g v :=
  ⟨h.core.setFrames hlabel, h.locals, h.connected, h.waiting, h.quiet⟩

end Backroll

import Backroll.Session.Calls

/-! Which frame a poll confirms, and which one the group as a whole has. -/
namespace Backroll

open Fallible (Ends)

variable {n : ℕ} {I S : Type}

/-- The greatest last frame of a player that these messages report. -/
def reported (messages : List InputMessage) (player : ℕ) : ℤ :=
  (messages.filterMap fun msg => msg.peerConnectStatus[player]?.map (·.lastFrame)).foldl max nullFrame

namespace Session

/-- The peer of a remote player whose connection runs. -/
def Runs (s : Session n I S) (i : Fin n) : Prop :=
  ∃ peer, s.players i = .remote peer ∧ peer.isRunning = true

instance (s : Session n I S) (i : Fin n) : Decidable (s.Runs i) :=
  match hp : s.players i with
  | .localPlayer => .isFalse fun ⟨_, h, _⟩ => by simp [hp] at h
  | .remote peer => decidable_of_iff (peer.isRunning = true)
      ⟨fun h => ⟨peer, hp, h⟩, fun ⟨_, h, hrun⟩ => by
        obtain rfl := PlayerType.remote.inj (hp.symm.trans h)
        exact hrun⟩

/-- The frame up to which everybody has the inputs of everybody, as far as the session has them
and the running peers have said so in the messages delivered. -/
def groupFrame (s : Session n I S) (delivered : Fin n → List InputMessage) : WithTop ℤ :=
  Finset.univ.inf fun q => min ↑(s.status q).lastFrame
    (Finset.univ.inf fun i => if s.Runs i then ↑(reported (delivered i) q) else ⊤)

variable {s s₁ : Session n I S} {delivered : Fin n → List InputMessage}

theorem le_groupFrame {frame : WithTop ℤ} : frame ≤ s.groupFrame delivered ↔
    (∀ q, frame ≤ ↑(s.status q).lastFrame) ∧
      ∀ i, s.Runs i → ∀ q : Fin n, frame ≤ ↑(reported (delivered i) q) := by
  simp only [groupFrame, Finset.le_inf_iff, Finset.mem_univ, true_imp_iff, le_min_iff]
  constructor
  · intro h
    refine ⟨fun q => (h q).1, fun i hi q => ?_⟩
    have := (h q).2 i
    rwa [if_pos hi] at this
  · rintro ⟨hlocal, hpeers⟩ q
    refine ⟨hlocal q, fun i => ?_⟩
    split
    · next hi => exact hpeers i hi q
    · exact le_top

/-- Where nobody is out, the session's own frame is what it has of everybody. -/
theorem le_leastFrame (hin : ∀ i, (s.status i).disconnected = false) {frame : WithTop ℤ} :
    frame ≤ s.leastFrame ↔ ∀ q, frame ≤ ↑(s.status q).lastFrame := by
  simp [leastFrame, Finset.le_inf_iff, hin]

theorem groupFrame_le_leastFrame (delivered : Fin n → List InputMessage)
    (hin : ∀ i, (s.status i).disconnected = false) :
    s.groupFrame delivered ≤ s.leastFrame :=
  (le_leastFrame hin).mpr (le_groupFrame.mp le_rfl).1

/-- What is confirmed when this is the least frame. -/
def confirmation (frame : WithTop ℤ) : Option ℤ :=
  if frame ≥ 0 then some (frame.untopD frameMax) else none

theorem confirmation_eq_iff {frame frame' : WithTop ℤ} (htop : frame ≠ ⊤) (htop' : frame' ≠ ⊤) :
    confirmation frame = confirmation frame' ↔ frame = frame' ∨ frame < 0 ∧ frame' < 0 := by
  obtain ⟨f, rfl⟩ := WithTop.ne_top_iff_exists.mp htop
  obtain ⟨f', rfl⟩ := WithTop.ne_top_iff_exists.mp htop'
  have hcast : ∀ g : ℤ, ((g : WithTop ℤ) ≥ 0 ↔ 0 ≤ g) ∧ ((g : WithTop ℤ) < 0 ↔ g < 0) := fun g =>
    ⟨by exact_mod_cast Iff.rfl, by exact_mod_cast Iff.rfl⟩
  unfold confirmation
  rw [WithTop.coe_inj, (hcast f).2, (hcast f').2]
  simp only [(hcast f).1, (hcast f').1, WithTop.untopD_coe]
  split <;> split <;> simp <;> omega

/-- With one local player, all others are remote. -/
theorem length_remotes (hone : ∃! i, (s.players i).isLocal = true) : s.remotes.length = n - 1 := by
  obtain ⟨i₀, hi₀, huniq⟩ := hone
  have hcount : (List.finRange n).countP (fun i => (s.players i).isLocal) = 1 := by
    have hpred : (fun i => (s.players i).isLocal) = fun i => i == i₀ := by
      funext i
      by_cases hi : i = i₀
      · simpa [hi] using hi₀
      · have hnot : (s.players i).isLocal = false := by
          by_contra h
          exact hi (huniq i (by simpa using h))
        simp [hnot, hi]
    rw [hpred]
    exact List.count_eq_one_of_mem (List.nodup_finRange n) (List.mem_finRange i₀)
  have hsplit := List.length_eq_countP_add_countP (fun i => (s.players i).isLocal)
    (l := List.finRange n)
  rw [List.length_finRange, hcount] at hsplit
  have hremotes : s.remotes.length = (List.finRange n).countP fun i => ¬(s.players i).isLocal = true := by
    rw [remotes, List.ofFn_eq_map, List.filterMap_map, List.length_filterMap_eq_countP]
    congr 1
    funext i
    cases hp : s.players i <;> simp [PlayerType.isLocal, PlayerType.peer?, hp]
  omega

theorem leastFrame_neg_iff (hin : ∀ i, (s.status i).disconnected = false) (hn : 0 < n) :
    s.leastFrame < 0 ↔ ∃ q, (s.status q).lastFrame < 0 := by
  constructor
  · intro hneg
    obtain ⟨j, -, hj⟩ := leastFrame_eq (hin ⟨0, hn⟩)
    rw [hj] at hneg
    exact ⟨j, by exact_mod_cast hneg⟩
  · rintro ⟨q, hq⟩
    exact (leastFrame_le (hin q)).trans_lt (by exact_mod_cast hq)

theorem leastFrame_ne_top (hin : ∀ i, (s.status i).disconnected = false) (hn : 0 < n) :
    s.leastFrame ≠ ⊤ :=
  ((leastFrame_le (hin ⟨0, hn⟩)).trans_lt (WithTop.coe_lt_top _)).ne

theorem groupFrame_eq_leastFrame_iff (hin : ∀ i, (s.status i).disconnected = false) (hn : 0 < n) :
    s.leastFrame = s.groupFrame delivered ↔ ∃ q, ∀ i, s.Runs i → ∀ q' : Fin n,
      (s.status q).lastFrame ≤ reported (delivered i) q' := by
  rw [← (groupFrame_le_leastFrame delivered hin).ge_iff_eq', le_groupFrame]
  constructor
  · rintro ⟨-, hpeers⟩
    obtain ⟨j, -, hj⟩ := leastFrame_eq (hin ⟨0, hn⟩)
    rw [hj] at hpeers
    exact ⟨j, fun i hi q' => by exact_mod_cast hpeers i hi q'⟩
  · rintro ⟨q, hq⟩
    refine ⟨(le_leastFrame hin).mp le_rfl, fun i hi q' => ?_⟩
    exact (leastFrame_le (hin q)).trans (by exact_mod_cast hq i hi q')

theorem groupFrame_neg_iff : s.groupFrame delivered < 0 ↔
    (∃ q, (s.status q).lastFrame < 0) ∨
      ∃ i, s.Runs i ∧ ∃ q : Fin n, reported (delivered i) q < 0 := by
  have hcast : ∀ g : ℤ, (0 : WithTop ℤ) ≤ g ↔ ¬g < 0 := fun g => by
    rw [not_lt]
    exact_mod_cast Iff.rfl
  rw [← not_le, le_groupFrame, not_and_or]
  simp only [hcast, not_forall, not_not, exists_prop]

variable [Build] [Zeroable I]

/-- The frame for which `do_poll` calls `set_last_confirmed_frame`, if it does, once it has
flushed the events and checked the simulation. -/
def confirmed (s : Session n I S) : Except Panic (Option ℤ) := do
  let remotePlayerCount := s.remotes.length
  let (_, minFrame, _) ←
    if remotePlayerCount = 0 then
      (pure ([], (s.sync.frameCount : WithTop ℤ), s) :
        Except Panic (List (Command I) × WithTop ℤ × Session n I S))
    else if remotePlayerCount ≤ 2 then s.poll2Players
    else s.pollNPlayers
  return confirmation minFrame

theorem Settled.confirmed_eq (hs : s.Settled) (hone : ∃! i, (s.players i).isLocal = true)
    (hn : 3 ≤ n) : ∃ frame : WithTop ℤ, s.confirmed = .ok (confirmation frame) ∧
      if n = 3 then frame = s.leastFrame
      else (s.Linked → frame < 0) ∧ (¬s.Linked → frame = s.leastFrame) := by
  have hlength := length_remotes hone
  unfold confirmed
  dsimp only
  rw [hlength, if_neg (by omega)]
  by_cases hthree : n = 3
  · refine ⟨s.leastFrame, ?_, by rw [if_pos hthree]⟩
    rw [if_pos (by omega), hs.poll2Players]
    rfl
  · obtain ⟨frame, hpoll, hframe⟩ := hs.pollNPlayers
    refine ⟨frame, ?_, by rwa [if_neg hthree]⟩
    rw [if_neg (by omega), hpoll]
    rfl

/-- The frame confirmed is that of the group. -/
def ConfirmsGroup (s : Session n I S) (delivered : Fin n → List InputMessage) : Prop :=
  s.confirmed = .ok (confirmation (s.groupFrame delivered))

/-- Three players: the session confirms what it has itself. -/
theorem Settled.confirmsGroup_three (hs : s.Settled) (hone : ∃! i, (s.players i).isLocal = true)
    (hin : ∀ i, (s.status i).disconnected = false) (hn : n = 3) :
    s.ConfirmsGroup delivered ↔ (∃ q, (s.status q).lastFrame < 0) ∨
      ∃ q, ∀ i, s.Runs i → ∀ q' : Fin n,
        (s.status q).lastFrame ≤ reported (delivered i) q' := by
  obtain ⟨frame, hconfirmed, hframe⟩ := hs.confirmed_eq hone hn.ge
  rw [if_pos hn] at hframe
  have hpos : 0 < n := by omega
  have htop := leastFrame_ne_top hin hpos
  have hle := groupFrame_le_leastFrame delivered hin
  rw [ConfirmsGroup, hconfirmed, hframe, Except.ok.injEq,
    confirmation_eq_iff htop (hle.trans_lt htop.lt_top).ne, groupFrame_eq_leastFrame_iff hin hpos,
    ← leastFrame_neg_iff hin hpos, or_comm]
  refine or_congr_left ⟨fun h => h.1, fun h => ⟨h, hle.trans_lt h⟩⟩

/-- More players: the session confirms nothing as long as a peer runs. -/
theorem Settled.confirmsGroup_more (hs : s.Settled) (hone : ∃! i, (s.players i).isLocal = true)
    (hin : ∀ i, (s.status i).disconnected = false) (hn : 3 < n) :
    s.ConfirmsGroup delivered ↔ (∀ i, ¬s.Runs i) ∨ (∃ q, (s.status q).lastFrame < 0) ∨
      ∃ i, s.Runs i ∧ ∃ q : Fin n, reported (delivered i) q < 0 := by
  obtain ⟨frame, hconfirmed, hframe⟩ := hs.confirmed_eq hone hn.le
  rw [if_neg hn.ne'] at hframe
  obtain ⟨hlinked, halone⟩ := hframe
  rw [ConfirmsGroup, hconfirmed, Except.ok.injEq, ← groupFrame_neg_iff]
  have htop := leastFrame_ne_top hin (by omega)
  have hle := groupFrame_le_leastFrame delivered hin
  by_cases hl : s.Linked
  · have hneg := hlinked hl
    have hruns : ¬∀ i, ¬s.Runs i := fun h => by
      obtain ⟨i, hi⟩ := hl
      exact h i hi
    rw [confirmation_eq_iff (hneg.trans (WithTop.coe_lt_top 0)).ne (hle.trans_lt htop.lt_top).ne]
    refine ⟨?_, fun h => .inr ⟨hneg, h.resolve_left hruns⟩⟩
    rintro (heq | ⟨-, hg⟩)
    · exact .inr (heq ▸ hneg)
    · exact .inr hg
  · have hruns : ∀ i, ¬s.Runs i := fun i hi => hl ⟨i, hi⟩
    have hgroup : s.leastFrame = s.groupFrame delivered :=
      (groupFrame_eq_leastFrame_iff hin (by omega)).mpr
        ⟨⟨0, by omega⟩, fun i hi => absurd hi (hruns i)⟩
    rw [halone hl, hgroup]
    exact ⟨fun _ => .inl hruns, fun _ => rfl⟩

/-- The state in which `poll` or `advance_frame` calls `do_poll`. -/
def CallsPoll (s s' : Session n I S) : Prop :=
  s' = s ∨ s.synchronizing = false ∧ ∃ commands sync,
    s.sync.incrementFrame = .ok (commands, sync) ∧ s' = { s with sync := sync }

theorem CallsPoll.later (h : s.CallsPoll s₁) (hs : s.Settled) : ∃ k, Later k s s₁ := by
  rcases h with rfl | ⟨-, commands, sync, hincrement, rfl⟩
  · exact ⟨0, (Steady.refl hs).toLater⟩
  · exact ⟨1, ((incrementFrame_steady hs).ok hincrement).toLater⟩

variable [BEq I]

/-- From `s`, a poll of the running session has come to `s₁` when it looks for the frame to
confirm. -/
def PollsTo (s s₁ : Session n I S) : Prop :=
  s.sync.rollingBack = false ∧ ∃ commands s' adjust sync, s.flushEvents = .ok (commands, s') ∧
    s'.synchronizing = false ∧ s'.sync.checkSimulation = .ok (adjust, sync) ∧
    s₁ = ({ s' with sync := sync } : Session n I S).tellFrame

theorem PollsTo.steps (h : s.PollsTo s₁) (hs : s.Settled) : Onward 0 s s₁ ∧
    s₁.synchronizing = false := by
  obtain ⟨-, commands, s', adjust, sync, hflush, hrun, hcheck, rfl⟩ := h
  have hon := ((flushEvents_onward hs).ok hflush).1
  have hsteady := (checkSimulation_steady hon.settled).ok hcheck
  exact ⟨(hon.trans' hsteady.onward).trans' (tellFrame_steady hsteady.settled).onward, hrun⟩

/-- From there on the poll does nothing to the `Sync` but to confirm that frame. -/
theorem PollsTo.confirms (h : s.PollsTo s₁) (hs : s.Settled) (hn : 3 ≤ n)
    (hone : ∃! i, (s.players i).isLocal = true) (hin : ∀ i, (s₁.status i).disconnected = false) :
    ∃ frame, s₁.confirmed = .ok frame ∧ Ends s.doPoll (fun r => (match frame with
      | some frame => s₁.sync.setLastConfirmedFrame frame
      | none => .ok s₁.sync) = .ok r.2.sync) fun _ => True := by
  have hon := (h.steps hs).1
  have hone₁ : ∃! i, (s₁.players i).isLocal = true := by
    simpa [(hon.kept _).isLocal] using hone
  have hlength := length_remotes hone₁
  have htop : ∀ frame : WithTop ℤ, (s₁.Linked → frame < 0) → (¬s₁.Linked → frame = s₁.leastFrame) →
      frame ≠ ⊤ := by
    intro frame hlow hleast
    by_cases hl : s₁.Linked
    · exact ((hlow hl).trans (WithTop.coe_lt_top 0)).ne
    · rw [hleast hl]
      exact leastFrame_ne_top hin (by omega)
  have hfinish : ∀ (adjust : List (Command I)) (frame : WithTop ℤ), frame ≠ ⊤ →
      Ends (do
        let s ← if frame ≥ 0 then do
            debugAssert (frame ≠ ⊤)
            let sync ← s₁.sync.setLastConfirmedFrame (frame.untopD frameMax)
            pure { s₁ with sync := sync }
          else pure s₁
        let told ← s.notifyTimeSync s₁.sync.frameCount
        return (adjust ++ [] ++ told.1, told.2)) (fun r => (match confirmation frame with
      | some frame => s₁.sync.setLastConfirmedFrame frame
      | none => .ok s₁.sync) = .ok r.2.sync) fun _ => True := by
    intro adjust frame hne
    have htime : ∀ s : Session n I S, Ends (s.notifyTimeSync s₁.sync.frameCount)
        (fun r => r.2.sync = s.sync) fun _ => True := by
      intro s
      refine (s.notifyTimeSync_ends s₁.sync.frameCount).mono ?_ fun _ _ => trivial
      rintro _ ⟨events, sleep, -, rfl⟩
      rfl
    unfold confirmation
    split
    · rw [debugAssert_of hne]
      cases hset : s₁.sync.setLastConfirmedFrame (frame.untopD frameMax) with
      | error e => trivial
      | ok sync =>
        exact (htime { s₁ with sync := sync }).bind fun r hr => hset.trans (congrArg Except.ok hr.symm)
    · exact (htime s₁).bind fun r hr => congrArg Except.ok hr.symm
  obtain ⟨hidle, commands, s', adjust, sync, hflush, hrun, hcheck, rfl⟩ := h
  suffices hpoll : ∃ frame, ({ s' with sync := sync } : Session n I S).tellFrame.confirmed = .ok frame ∧
      Ends s'.pollRunning (fun r => (match frame with
        | some frame => ({ s' with sync := sync } : Session n I S).tellFrame.sync.setLastConfirmedFrame frame
        | none => .ok ({ s' with sync := sync } : Session n I S).tellFrame.sync) = .ok r.2.sync)
        fun _ => True by
    obtain ⟨frame, hframe, hpoll⟩ := hpoll
    refine ⟨frame, hframe, ?_⟩
    unfold doPoll
    rw [if_neg (by simp [hidle]), hflush]
    dsimp only [Fallible.ok_bind]
    rw [if_neg (by simp [hrun])]
    exact hpoll.bind fun r hr => hr
  have htold : Ends (({ s' with sync := sync } : Session n I S).setLocalFrameNumbers sync.frameCount)
      (fun s => s = ({ s' with sync := sync } : Session n I S).tellFrame) fun _ => True :=
    (setLocalFrameNumbers_ends _).mono (fun _ hr => hr) fun _ _ => trivial
  have hcount : sync.frameCount =
    ({ s' with sync := sync } : Session n I S).tellFrame.sync.frameCount := rfl
  unfold pollRunning
  rw [hcheck]
  dsimp only [Fallible.ok_bind]
  generalize ({ s' with sync := sync } : Session n I S).tellFrame = s₁ at *
  have hsome : ¬n - 1 = 0 := by omega
  unfold confirmed
  simp only [hlength, if_neg hsome]
  by_cases hthree : n = 3
  · simp only [if_pos (show n - 1 ≤ 2 by omega), hon.settled.poll2Players]
    refine ⟨_, rfl, htold.bind fun s₂ hs₂ => ?_⟩
    subst hs₂
    simp only [hlength, if_neg hsome, if_pos (show n - 1 ≤ 2 by omega), hon.settled.poll2Players, hcount]
    exact hfinish adjust _ (leastFrame_ne_top hin (by omega))
  · obtain ⟨frame, hpoll, hlow, hleast⟩ := hon.settled.pollNPlayers
    simp only [if_neg (show ¬n - 1 ≤ 2 by omega), hpoll]
    refine ⟨_, rfl, htold.bind fun s₂ hs₂ => ?_⟩
    subst hs₂
    simp only [hlength, if_neg hsome, if_neg (show ¬n - 1 ≤ 2 by omega), hpoll, hcount]
    exact hfinish adjust _ (htop frame hlow hleast)

end Session

namespace Host

section Group

variable [Client I S] [Build] [BEq I] [Varinteger] [Pod I] {h : Host n I S}
  {s s₁ : Session n I S}

/-- The frame confirmed is that of the group just when no peer's report makes a difference. -/
theorem reachable_confirmsGroup_iff (hr : Reachable h) (hn : 3 ≤ n)
    (hone : ∃! i, (h.session.players i).isLocal = true) (hcalls : h.session.CallsPoll s)
    (hpoll : s.PollsTo s₁) (hin : ∀ i, (s₁.status i).disconnected = false)
    (delivered : Fin n → List InputMessage) :
    s₁.ConfirmsGroup delivered ↔ (∃ q, (s₁.status q).lastFrame < 0) ∨
      if n = 3 then ∃ q, ∀ i, s₁.Runs i → ∀ q' : Fin n,
        (s₁.status q).lastFrame ≤ reported (delivered i) q'
      else (∀ i, ¬s₁.Runs i) ∨ ∃ i, s₁.Runs i ∧ ∃ q : Fin n, reported (delivered i) q < 0 := by
  obtain ⟨k, hlater⟩ := hcalls.later (reachable_settled hr).1
  have hon := (hpoll.steps hlater.settled).1
  have hone₁ : ∃! i, (s₁.players i).isLocal = true := by
    simpa [(hon.kept _).isLocal, (hlater.kept _).isLocal] using hone
  split
  · next hthree => exact hon.settled.confirmsGroup_three hone₁ hin hthree
  · rw [hon.settled.confirmsGroup_more hone₁ hin (by omega)]
    exact or_left_comm

end Group

/-- A local player and two remote ones whose connections have come to run, with the first input
of each waiting. -/
def connectedThree : Host 3 UInt8 ℕ where
  session := {
    sync := .new 0
    players := fun i => if i = 0 then .localPlayer else .remote { Peer.new 1 (List.replicate 3 {}) with
      state := .running 7
      events := { queue := handshakeEvents } }
    synchronizing := true
    nextRecommendedSleep := 0 }
  state := 0

theorem connectedThree_reachable [Build] [Varinteger] :
    letI := countingClient
    Host.Reachable connectedThree := by
  let client := countingClient
  have hstart : Host.Reachable (n := 3) (I := UInt8) (S := ℕ) ⟨_, 0⟩ := .start
    (fun i => if i = 0 then .localPlayer else .remotePlayer) 0 (fun _ => 1) _ 0 rfl
  refine .interfere _ (fun i => if i = 0 then [] else handshakeEvents) _ hstart
    ⟨rfl, rfl, fun i => ?_⟩
  have hremote : PlayerType.Shares handshakeEvents (.remote (.new 1 (List.replicate 3 {})))
      (.remote { Peer.new 1 (List.replicate 3 {}) with
        state := .running 7
        events := { queue := handshakeEvents } }) :=
    .remote _ _ _ [] rfl ⟨fun h => absurd h Bool.false_ne_true, fun h => nomatch h⟩ rfl rfl
      fun h => absurd h Bool.false_ne_true
  match i with
  | 0 => exact .localPlayer
  | 1 => exact hremote
  | 2 => exact hremote

/-- The message in which each remote player has sent its first input: it has its own, and
nobody else's. -/
def firstInputs (i : Fin 3) : List InputMessage :=
  if i = 0 then []
  else [{
    peerConnectStatus := (List.replicate 3 {}).set i ⟨false, 0⟩
    startFrame := 0
    ackFrame := nullFrame
    bits := [2, 5] }]

/-- After the client's own first input, a poll confirms frame 0, which neither remote player has
of the others. -/
theorem not_confirmsGroup_three :
    letI : Build := ⟨true⟩
    letI := Varinteger.leb128
    letI := countingClient
    ∃ (h : Host 3 UInt8 ℕ) (s₁ : Session 3 UInt8 ℕ), Reachable h ∧
      (∃! i, (h.session.players i).isLocal = true) ∧ h.session.PollsTo s₁ ∧
      (∀ i, s₁.status i = ⟨false, 0⟩) ∧ s₁.confirmed = .ok (some 0) ∧
      s₁.groupFrame firstInputs < 0 ∧ ¬s₁.ConfirmsGroup firstInputs := by
  let build : Build := ⟨true⟩
  let varint := Varinteger.leb128
  let client := countingClient
  have hr : Reachable (n := 3) (I := UInt8) (S := ℕ) _ :=
    .call _ (.addLocalInput 0 3) _ (.call _ .poll _ connectedThree_reachable rfl) rfl
  have hneg : ∀ s₁ : Session 3 UInt8 ℕ, s₁.Runs 1 → s₁.groupFrame firstInputs < 0 := fun s₁ hrun =>
    Session.groupFrame_neg_iff.mpr (.inr ⟨1, hrun, 0, by decide⟩)
  have hnot : ∀ s₁ : Session 3 UInt8 ℕ, s₁.confirmed = .ok (some 0) →
      s₁.groupFrame firstInputs < 0 → ¬s₁.ConfirmsGroup firstInputs := by
    intro s₁ hconfirmed hlow hgroup
    have hnone : Session.confirmation (s₁.groupFrame firstInputs) = none := if_neg (not_le.mpr hlow)
    rw [Session.ConfirmsGroup, hconfirmed, hnone] at hgroup
    simp at hgroup
  refine ⟨_, _, hr, ⟨0, rfl, by decide⟩, ⟨rfl, _, _, _, _, rfl, rfl, rfl, rfl⟩, fun i => ?_, rfl,
    hneg _ ⟨_, rfl, rfl⟩, hnot _ rfl (hneg _ ⟨_, rfl, rfl⟩)⟩
  match i with
  | 0 => rfl
  | 1 => rfl
  | 2 => rfl

theorem reachable_confirmsGroup_iff_three :
    letI : Build := ⟨true⟩
    letI := Varinteger.leb128
    letI := countingClient
    ∃ (h : Host 3 UInt8 ℕ) (s₁ : Session 3 UInt8 ℕ), Reachable h ∧ h.session.PollsTo s₁ ∧
      (s₁.ConfirmsGroup firstInputs ↔ (∃ q, (s₁.status q).lastFrame < 0) ∨
        ∃ q, ∀ i, s₁.Runs i → ∀ q' : Fin 3,
          (s₁.status q).lastFrame ≤ reported (firstInputs i) q') := by
  let build : Build := ⟨true⟩
  let varint := Varinteger.leb128
  let client := countingClient
  have hr : Reachable (n := 3) (I := UInt8) (S := ℕ) _ :=
    .call _ (.addLocalInput 0 3) _ (.call _ .poll _ connectedThree_reachable rfl) rfl
  have hin : ∀ s₁ : Session 3 UInt8 ℕ, s₁.sync.localConnectStatus 0 = ⟨false, 0⟩ →
      s₁.sync.localConnectStatus 1 = ⟨false, 0⟩ → s₁.sync.localConnectStatus 2 = ⟨false, 0⟩ →
      ∀ i, (s₁.status i).disconnected = false := by
    intro s₁ h0 h1 h2 i
    match i with
    | 0 => exact congrArg ConnectionStatus.disconnected h0
    | 1 => exact congrArg ConnectionStatus.disconnected h1
    | 2 => exact congrArg ConnectionStatus.disconnected h2
  refine ⟨_, _, hr, ⟨rfl, _, _, _, _, rfl, rfl, rfl, rfl⟩, ?_⟩
  exact reachable_confirmsGroup_iff hr le_rfl ⟨0, rfl, by decide⟩ (.inl rfl)
    ⟨rfl, _, _, _, _, rfl, rfl, rfl, rfl⟩ (hin _ rfl rfl rfl) firstInputs

end Host

end Backroll

import Backroll.Protocol.Advantages
import Backroll.Session.Client
import Backroll.Sync.Calm
import Mathlib.Data.Finset.Lattice.Fold
import Mathlib.Data.Fintype.Basic

/-! What a session sees when it polls its peers for connect statuses. Its own copies of the
peers were made before any message came, and no message ever reaches them: nobody is reported
as disconnected, and nothing as received. -/
namespace Backroll

open Fallible (Ends)

variable {n : ℕ} {I S : Type}

namespace Session

/-- A session between two calls. -/
structure Settled (s : Session n I S) : Prop where
  idle : s.sync.rollingBack = false
  labelled : s.sync.LabelledTo s.sync.frameCount
  home : ∀ i, (s.players i).isLocal = true → (s.status i).disconnected = false
  own : ∀ i peer, s.players i = .remote peer → peer.peerConnectStatus = List.replicate n {}
  shut : ∀ i peer, s.players i = .remote peer → (s.status i).disconnected = true →
    peer.events.closed = true ∧ peer.state = .disconnected
  met : s.synchronizing = false → ∀ i peer, s.players i = .remote peer →
    peer.isRunning = true ∨ peer.state = .disconnected

theorem new_eq [Zeroable I] {players : Fin n → Player} {delay : ℤ} {randoms : Fin n → ℕ}
    {s : Session n I S} (h : Session.new players delay randoms = .ok s) :
    s = { sync := .new delay
          players := fun i => match players i with
            | .localPlayer => .localPlayer
            | .remotePlayer => .remote (.new (randoms i) (List.replicate n {}))
          synchronizing := (List.finRange n).any fun i => players i ≠ .localPlayer
          nextRecommendedSleep := 0 } := by
  unfold Session.new at h
  dsimp only at h
  split at h
  · simp at h
  · exact (Except.ok.inj h).symm

theorem remote_new [Zeroable I] {players : Fin n → Player} {delay : ℤ} {randoms : Fin n → ℕ}
    {s : Session n I S} (h : Session.new players delay randoms = .ok s) {i : Fin n} {peer : Peer I}
    (hp : s.players i = .remote peer) :
    players i = .remotePlayer ∧ peer = .new (randoms i) (List.replicate n {}) := by
  rw [new_eq h] at hp
  dsimp only at hp
  split at hp
  · simp at hp
  · next hi => exact ⟨hi, (PlayerType.remote.inj hp).symm⟩

theorem settled_new [Zeroable I] {players : Fin n → Player} {delay : ℤ} {randoms : Fin n → ℕ}
    {s : Session n I S} (h : Session.new players delay randoms = .ok s) : s.Settled := by
  have hremote := fun i peer => @remote_new _ _ _ _ _ _ _ _ h i peer
  obtain rfl := new_eq h
  refine ⟨rfl, fun c => show nullFrame ≤ 0 by decide, fun _ _ => rfl, fun i peer hp => ?_,
    fun i peer _ hd => by simp [status, Sync.new] at hd, fun hsync i peer hp => ?_⟩
  · rw [(hremote i peer hp).2]
    rfl
  · have hall : ∀ j, players j = .localPlayer := by simpa using hsync
    simp [hall i] at hp

variable {s : Session n I S}

/-- Some remote player's connection runs. -/
def Linked (s : Session n I S) : Prop :=
  ∃ i peer, s.players i = .remote peer ∧ peer.isRunning = true

/-- The frame up to which the session has the inputs of all players still connected. -/
def leastFrame (s : Session n I S) : WithTop ℤ :=
  Finset.univ.inf fun i => if (s.status i).disconnected = true then ⊤ else ↑(s.status i).lastFrame

theorem leastFrame_le {i : Fin n} (h : (s.status i).disconnected = false) :
    s.leastFrame ≤ ↑(s.status i).lastFrame := by
  refine (Finset.inf_le (Finset.mem_univ i)).trans ?_
  simp [h]

theorem leastFrame_eq {i : Fin n} (h : (s.status i).disconnected = false) :
    ∃ j, (s.status j).disconnected = false ∧ s.leastFrame = ↑(s.status j).lastFrame := by
  obtain ⟨j, -, hj⟩ := Finset.exists_mem_eq_inf Finset.univ ⟨i, Finset.mem_univ i⟩
    fun i => if (s.status i).disconnected = true then (⊤ : WithTop ℤ) else ↑(s.status i).lastFrame
  have hle := leastFrame_le h
  change s.leastFrame = _ at hj
  cases hd : (s.status j).disconnected with
  | false => exact ⟨j, hd, by simpa [hd] using hj⟩
  | true =>
    rw [hj] at hle
    simp [hd] at hle

/-- The minimum over the players below `k`. -/
def leastBelow (s : Session n I S) (k : ℕ) : WithTop ℤ :=
  (Finset.univ.filter fun i : Fin n => i < k).inf fun i =>
    if (s.status i).disconnected = true then ⊤ else ↑(s.status i).lastFrame

theorem leastBelow_zero : s.leastBelow 0 = ⊤ := by
  simp [leastBelow]

theorem leastBelow_all : s.leastBelow n = s.leastFrame := by
  unfold leastBelow leastFrame
  rw [Finset.filter_true_of_mem fun i _ => i.isLt]

theorem leastBelow_succ (i : Fin n) : s.leastBelow (i + 1) =
    min (if (s.status i).disconnected = true then ⊤ else ↑(s.status i).lastFrame)
      (s.leastBelow i) := by
  have hset : (Finset.univ.filter fun j : Fin n => j < i.val + 1) =
      insert i (Finset.univ.filter fun j : Fin n => j < i.val) := by
    ext j
    simp only [Finset.mem_filter, Finset.mem_univ, true_and, Finset.mem_insert, Fin.ext_iff]
    omega
  rw [leastBelow, hset, Finset.inf_insert]
  rfl

theorem Settled.getPeerConnectStatus (h : s.Settled) {i : Fin n} {peer : Peer I}
    (hp : s.players i = .remote peer) (j : Fin n) :
    peer.getPeerConnectStatus j = .ok {} := by
  simp [Peer.getPeerConnectStatus, h.own i peer hp]

theorem Settled.pollPeers (h : s.Settled) (queue : Fin n) : ∃ frame : WithTop ℤ,
    s.pollPeers queue = .ok (true, frame) ∧ (s.Linked → frame < 0) ∧ (¬s.Linked → frame = ⊤) := by
  have hloop : Ends (s.pollPeers queue) (fun r => r.1 = true ∧
      ((∃ i : Fin n, i < n ∧ ∃ peer, s.players i = .remote peer ∧ peer.isRunning = true) → r.2 < 0) ∧
      (¬s.Linked → r.2 = ⊤)) fun _ => False := by
    unfold Session.pollPeers
    refine Fallible.forEach_ends (fun k (r : Bool × WithTop ℤ) => r.1 = true ∧
      ((∃ i : Fin n, i < k ∧ ∃ peer, s.players i = .remote peer ∧ peer.isRunning = true) →
        r.2 < 0) ∧ (¬s.Linked → r.2 = ⊤)) ⟨rfl, by simp, fun _ => rfl⟩ ?_
    rintro i ⟨connected, frame⟩ ⟨hconn, hlow, htop⟩
    dsimp only at hconn hlow htop ⊢
    have hskip : ¬(∃ peer, s.players i = .remote peer ∧ peer.isRunning = true) →
        (∃ j : Fin n, j < i.val + 1 ∧ ∃ peer, s.players j = .remote peer ∧
          peer.isRunning = true) → frame < 0 := by
      rintro hno ⟨j, hj, hrun⟩
      rcases Nat.lt_succ_iff_lt_or_eq.mp hj with hlt | heq
      · exact hlow ⟨j, hlt, hrun⟩
      · obtain rfl : j = i := Fin.ext heq
        exact absurd hrun hno
    cases hp : s.players i with
    | localPlayer => exact ⟨hconn, hskip (by simp [hp]), htop⟩
    | remote peer =>
      by_cases hrun : peer.isRunning = true
      · simp only [PlayerType.peer?, hrun, h.getPeerConnectStatus hp]
        refine ⟨by simp [hconn], fun _ => min_lt_of_left_lt (by decide), fun hno => ?_⟩
        exact absurd ⟨i, peer, hp, hrun⟩ hno
      · simp only [PlayerType.peer?, hrun]
        refine ⟨hconn, hskip ?_, htop⟩
        rintro ⟨peer', hp', hrun'⟩
        obtain rfl := PlayerType.remote.inj (hp.symm.trans hp')
        exact hrun hrun'
  obtain ⟨⟨connected, frame⟩, hr, rfl, hlow, htop⟩ := hloop.total
  exact ⟨frame, hr, fun ⟨i, hi⟩ => hlow ⟨i, i.isLt, hi⟩, htop⟩

/-- In a debug build, the frame and what was measured of the peers are far from the bounds of their
types. -/
def MeasuredAt [Build] (s : Session n I S) (frame : ℤ) : Prop :=
  Build.debugAssertions = true →
    |frame| ≤ 2 ^ 29 ∧ ∀ i peer, s.players i = .remote peer → peer.Moderate

/-- What was measured of the peers does not make the next call overflow. -/
def Moderate [Build] (s : Session n I S) : Prop :=
  Build.debugAssertions = true →
    s.sync.frameCount < 2 ^ 29 ∧ ∀ i peer, s.players i = .remote peer → peer.Moderate

theorem Moderate.measuredAt [Build] {frame : ℤ} (h : s.Moderate) (h0 : 0 ≤ frame)
    (hframe : frame ≤ s.sync.frameCount + 1) : s.MeasuredAt frame := by
  intro hdebug
  obtain ⟨hcount, hpeers⟩ := h hdebug
  exact ⟨by rw [abs_of_nonneg h0]; omega, hpeers⟩

theorem notifyTimeSync_ends [Build] [BEq I] (s : Session n I S) (frame : ℤ) :
    Ends (s.notifyTimeSync frame) (fun r => ∃ (events : List Event) (sleep : ℤ),
      (∀ event ∈ events, ∃ ahead, event = .timeSync ahead) ∧
        r = (events.map Command.event, { s with nextRecommendedSleep := sleep }))
      fun e => e = .arithmeticOverflow ∧ ∀ frame, ¬s.MeasuredAt frame := by
  unfold notifyTimeSync
  split
  · refine (Fallible.mapM_ends fun peer hpeer => ?_).bind fun intervals _ => ?_
    · obtain ⟨player, hplayer, hsome⟩ := List.mem_filterMap.mp hpeer
      obtain ⟨i, rfl⟩ := (List.mem_ofFn' s.players player).mp hplayer
      have hp : s.players i = .remote peer := by
        cases hi : s.players i with
        | localPlayer => simp [hi, PlayerType.peer?] at hsome
        | remote peer' =>
          rw [hi] at hsome
          rw [Option.some.inj hsome]
      refine peer.recommendFrameDelay_ends.mono (fun _ _ => trivial) ?_
      rintro e ⟨rfl, hdebug, hnot⟩
      exact ⟨rfl, fun frame hmeasured => hnot ((hmeasured hdebug).2 i peer hp)⟩
    · split
      · exact ⟨[_], _, fun event h => ⟨_, List.mem_singleton.mp h⟩, rfl⟩
      · exact ⟨[], _, by simp, rfl⟩
  · exact ⟨[], _, by simp, rfl⟩

variable [Build] [Zeroable I]

theorem Settled.poll2Players (h : s.Settled) : s.poll2Players = .ok ([], s.leastFrame, s) := by
  have hloop : Ends s.poll2Players (fun r => r = ([], s.leastBelow n, s)) fun _ => False := by
    unfold Session.poll2Players
    refine Fallible.forEach_ends (fun k (r : List (Command I) × WithTop ℤ × Session n I S) =>
      r = ([], s.leastBelow k, s)) (by rw [leastBelow_zero]) ?_
    rintro i _ rfl
    dsimp only
    rw [leastBelow_succ]
    cases hp : s.players i with
    | localPlayer => cases hd : (s.status i).disconnected <;> simp [PlayerType.peer?]
    | remote peer =>
      cases hrun : peer.isRunning <;> cases hd : (s.status i).disconnected <;>
        simp [PlayerType.peer?, hrun, h.getPeerConnectStatus hp]
  obtain ⟨r, hr, rfl⟩ := hloop.total
  rw [hr, leastBelow_all]

/-- With three or more remote players, a peer that runs keeps everything unconfirmed. -/
theorem Settled.pollNPlayers (h : s.Settled) : ∃ frame : WithTop ℤ,
    s.pollNPlayers = .ok ([], frame, s) ∧ (s.Linked → frame < 0) ∧
      (¬s.Linked → frame = s.leastFrame) := by
  have hloop : Ends s.pollNPlayers (fun r => r.1 = [] ∧ r.2.2 = s ∧
      (s.Linked → 0 < n → r.2.1 < 0) ∧ (¬s.Linked → r.2.1 = s.leastBelow n)) fun _ => False := by
    unfold Session.pollNPlayers
    refine Fallible.forEach_ends (fun k (r : List (Command I) × WithTop ℤ × Session n I S) =>
      r.1 = [] ∧ r.2.2 = s ∧ (s.Linked → 0 < k → r.2.1 < 0) ∧
        (¬s.Linked → r.2.1 = s.leastBelow k))
      ⟨rfl, rfl, fun _ h0 => absurd h0 (lt_irrefl 0), fun _ => leastBelow_zero.symm⟩ ?_
    rintro i ⟨commands, frame, s'⟩ ⟨hcommands, hs, hlow, hleast⟩
    obtain ⟨confirmed, hpoll, hneg, htop⟩ := h.pollPeers i
    dsimp only at hcommands hs hlow hleast ⊢
    subst hcommands
    obtain rfl := hs.symm
    rw [hpoll]
    simp only [Fallible.ok_bind, if_true]
    refine ⟨rfl, rfl, fun hl _ => min_lt_of_left_lt ?_, fun hl => ?_⟩
    · split
      · exact min_lt_of_right_lt (hneg hl)
      · exact hneg hl
    · rw [leastBelow_succ, hleast hl, htop hl]
      cases (s.status i).disconnected <;> simp
  obtain ⟨⟨commands, frame, s'⟩, hr, hcommands, hs, hlow, hleast⟩ := hloop.total
  dsimp only at hcommands hs hlow hleast
  subst hcommands hs
  refine ⟨frame, hr, fun hl => hlow hl ?_, fun hl => by rw [hleast hl, leastBelow_all]⟩
  obtain ⟨i, -⟩ := hl
  exact Fin.pos i

/-- The frame that `do_poll` hands on for confirmation. -/
def Confirms (s : Session n I S) (frame : WithTop ℤ) : Prop :=
  if s.remotes.length = 0 then frame = ↑s.sync.frameCount
  else if s.remotes.length ≤ 2 then frame = s.leastFrame
  else (s.Linked → frame < 0) ∧ (¬s.Linked → frame = s.leastFrame)

/-- The peers are told the frame. -/
def tellFrame (s : Session n I S) : Session n I S :=
  { s with players := fun i => (s.players i).mapPeer (·.atFrame s.sync.frameCount) }

/-- The players when those below `k` are told. -/
def toldBelow (s : Session n I S) (k : ℕ) (i : Fin n) : PlayerType I :=
  if i < k then (s.players i).mapPeer (·.atFrame s.sync.frameCount) else s.players i

omit [Build] [Zeroable I] in
theorem toldBelow_zero : s.toldBelow 0 = s.players := rfl

omit [Build] [Zeroable I] in
theorem toldBelow_all : s.toldBelow n = s.tellFrame.players := funext fun i => if_pos i.isLt

omit [Build] [Zeroable I] in
theorem toldBelow_succ (i : Fin n) : s.toldBelow (i + 1) = Function.update (s.toldBelow i) i
    ((s.players i).mapPeer (·.atFrame s.sync.frameCount)) := by
  funext j
  unfold toldBelow
  by_cases hj : j = i
  · subst hj
    simp
  · have hne : j.val ≠ i.val := fun h => hj (Fin.ext h)
    rw [Function.update_of_ne hj]
    exact if_congr (by omega) rfl rfl

omit [Zeroable I] in
theorem setLocalFrameNumbers_ends (s : Session n I S) :
    Ends (s.setLocalFrameNumbers s.sync.frameCount) (fun s' => s' = s.tellFrame)
      fun e => e = .arithmeticOverflow ∧ ¬s.MeasuredAt s.sync.frameCount := by
  unfold setLocalFrameNumbers
  refine (Fallible.forEach_ends (fun k s' => s' = { s with players := s.toldBelow k })
    (by rw [toldBelow_zero]) ?_).imp fun s' hs' => ?_
  · rintro i _ rfl
    have hi : s.toldBelow i i = s.players i := if_neg (lt_irrefl _)
    dsimp only
    rw [hi, toldBelow_succ]
    cases hp : s.players i with
    | localPlayer =>
      rw [show PlayerType.mapPeer _ .localPlayer = s.toldBelow i i by rw [hi, hp]; rfl,
        Function.update_eq_self]
      rfl
    | remote peer =>
      refine ((peer.setLocalFrameNumber_ends s.sync.frameCount).mono (fun _ hr => hr) ?_).bind
        fun peer' hpeer' => ?_
      · rintro e ⟨rfl, hdebug, hnot⟩
        exact ⟨rfl, fun hmeasured => hnot ⟨(hmeasured hdebug).1, (hmeasured hdebug).2 i peer hp⟩⟩
      · subst hpeer'
        rfl
  · rw [hs', toldBelow_all]
    rfl

omit [Zeroable I] in
theorem MeasuredAt.tellFrame {frame : ℤ} (h : s.MeasuredAt frame) : s.tellFrame.MeasuredAt frame := by
  intro hdebug
  obtain ⟨hframe, hpeers⟩ := h hdebug
  refine ⟨hframe, fun i peer' hp' => ?_⟩
  cases hp : s.players i with
  | localPlayer => simp [Session.tellFrame, hp, PlayerType.mapPeer] at hp'
  | remote peer =>
    simp only [Session.tellFrame, hp, PlayerType.mapPeer, PlayerType.remote.injEq] at hp'
    subst hp'
    exact (hpeers i peer hp).atFrame _

/-- The end of `do_poll`: a frame that is not null is confirmed. -/
def confirm (s : Session n I S) (frame : WithTop ℤ) : Except Panic (Sync n I S) :=
  if frame ≥ 0 then do
    debugAssert (frame ≠ ⊤)
    s.sync.setLastConfirmedFrame (frame.untopD frameMax)
  else .ok s.sync

/-- What `do_poll` does in a running session: a check of the simulation, then a confirmation. -/
theorem pollRunning_ends [BEq I] {P : List (Command I) × Sync n I S → Prop}
    {Q : List (Command I) × Session n I S → Prop} {fault : Panic → Prop}
    (hcheck : Ends s.sync.checkSimulation P fault)
    (hmeasured : ∀ r, P r → ({ s with sync := r.2 } : Session n I S).MeasuredAt r.2.frameCount ∨
      fault .arithmeticOverflow)
    (hsettled : ∀ r, P r → ({ s with sync := r.2 } : Session n I S).tellFrame.Settled)
    (hconfirm : ∀ r, P r → ∀ frame,
      ({ s with sync := r.2 } : Session n I S).tellFrame.Confirms frame →
      Ends (({ s with sync := r.2 } : Session n I S).tellFrame.confirm frame) (fun sync =>
        ∀ events : List Event, (∀ event ∈ events, ∃ ahead, event = .timeSync ahead) →
        ∀ sleep : ℤ, Q (r.1 ++ events.map Command.event,
          { ({ s with sync := r.2 } : Session n I S).tellFrame with
            sync := sync, nextRecommendedSleep := sleep })) fault) :
    Ends s.pollRunning Q fault := by
  unfold pollRunning
  refine hcheck.bind fun r hr => ?_
  obtain ⟨adjust, sync⟩ := r
  specialize hsettled _ hr
  specialize hconfirm _ hr
  specialize hmeasured _ hr
  -- An overflow is a fault that is accepted, or it is ruled out.
  have hover : ∀ e, e = Panic.arithmeticOverflow ∧
      ¬({ s with sync := sync } : Session n I S).MeasuredAt sync.frameCount → fault e := by
    rintro e ⟨rfl, hnot⟩
    exact hmeasured.resolve_left hnot
  dsimp only
  refine ((setLocalFrameNumbers_ends { s with sync := sync }).mono (fun _ hr => hr) hover).bind
    fun s₁ hs₁ => ?_
  rw [← hs₁] at hsettled hconfirm
  have hcount : sync.frameCount = s₁.sync.frameCount := by
    rw [hs₁]
    rfl
  have htime : ∀ sync' : Sync n I S, (∀ events : List Event,
      (∀ event ∈ events, ∃ ahead, event = .timeSync ahead) → ∀ sleep : ℤ, Q
      (adjust ++ events.map Command.event, { s₁ with sync := sync', nextRecommendedSleep := sleep })) →
      Ends (do
        let r ← ({ s₁ with sync := sync' } : Session n I S).notifyTimeSync sync.frameCount
        return (adjust ++ [] ++ r.1, r.2)) Q fault := by
    intro sync' hQ
    refine ((notifyTimeSync_ends _ _).mono (fun _ hr => hr) ?_).bind fun r hr => ?_
    · rintro e ⟨rfl, hnot⟩
      refine hover _ ⟨rfl, fun hm => hnot sync.frameCount ?_⟩
      have htold := hm.tellFrame
      rwa [← hs₁] at htold
    · obtain ⟨events, sleep, hevents, rfl⟩ := hr
      show Q (adjust ++ [] ++ _, _)
      rw [List.append_nil]
      exact hQ events hevents sleep
  have hrest : ∀ frame : WithTop ℤ, s₁.Confirms frame → Ends (do
      let s ← if frame ≥ 0 then do
          debugAssert (frame ≠ ⊤)
          let sync ← s₁.sync.setLastConfirmedFrame (frame.untopD frameMax)
          pure { s₁ with sync := sync }
        else pure s₁
      let r ← s.notifyTimeSync sync.frameCount
      return (adjust ++ [] ++ r.1, r.2)) Q fault := by
    intro frame hframe
    have hend := hconfirm frame hframe
    unfold confirm at hend
    split at hend
    · rw [if_pos ‹_›]
      simp only [pure_bind]
      rw [← bind_assoc]
      exact hend.bind fun sync' hQ => htime sync' hQ
    · rw [if_neg ‹_›]
      exact htime _ hend
  rw [hcount] at hrest ⊢
  unfold Confirms at hrest
  split
  · next hzero =>
    exact hrest s₁.sync.frameCount (by rw [if_pos hzero])
  · next hsome =>
    split
    · next htwo =>
      rw [hsettled.poll2Players]
      exact hrest s₁.leastFrame (by rw [if_neg hsome, if_pos htwo])
    · next hmany =>
      obtain ⟨frame, hpoll, hframe⟩ := hsettled.pollNPlayers
      rw [hpoll]
      exact hrest frame (by rwa [if_neg hsome, if_neg hmany])

end Session

end Backroll

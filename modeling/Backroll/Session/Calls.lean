import Backroll.Session.Flows

/-! The calls of a client, and the runs of a session with its client and its peers. -/
namespace Backroll

open Fallible (Ends)

variable {n : ℕ} {I S : Type}

theorem InputEncoder.encode_pending [Build] [Varinteger] [Pod I] (e : InputEncoder I) :
    Ends e.encode (fun r => r.2.pending = e.pending) fun _ => True := by
  unfold InputEncoder.encode
  split
  · rfl
  · refine .bind_any fun r => ?_
    cases r <;> rfl

namespace Peer

variable [Build] [Varinteger] [Pod I]

/-- What sending an input leaves of a peer. -/
structure Sent (input : FrameInput I) (p p' : Peer I) : Prop where
  peerConnectStatus : p'.peerConnectStatus = p.peerConnectStatus
  state : p'.state = p.state
  events : p'.events = p.events
  pending : p'.inputEncoder.pending =
    if p.isRunning = true then p.inputEncoder.pending ++ [input] else p.inputEncoder.pending

theorem sendPendingOutput_same (p : Peer I) (statuses : List ConnectionStatus) :
    Ends (p.sendPendingOutput statuses) (fun r => r.2.peerConnectStatus = p.peerConnectStatus ∧
      r.2.state = p.state ∧ r.2.events = p.events ∧
      r.2.inputEncoder.pending = p.inputEncoder.pending) fun _ => True := by
  unfold sendPendingOutput
  refine p.inputEncoder.encode_pending.bind fun r hr => ?_
  obtain ⟨result, encoder⟩ := r
  cases result with
  | error err => trivial
  | ok packet =>
    dsimp only [send]
    split <;> exact ⟨rfl, rfl, rfl, hr⟩

theorem sendInput_sent (p : Peer I) (statuses : List ConnectionStatus) (input : FrameInput I) :
    Ends (p.sendInput statuses input) (fun r => Sent input p r.2) fun _ => True := by
  unfold sendInput
  split
  · next hrun =>
    refine .bind_any fun timesync => ?_
    refine (sendPendingOutput_same _ statuses).imp fun r hr => ?_
    obtain ⟨hstatus, hstate, hevents, hpending⟩ := hr
    exact ⟨hstatus, hstate, hevents, by rw [if_pos hrun]; exact hpending⟩
  · next hidle =>
    refine (sendPendingOutput_same p statuses).imp fun r hr => ?_
    obtain ⟨hstatus, hstate, hevents, hpending⟩ := hr
    exact ⟨hstatus, hstate, hevents, by rw [if_neg hidle]; exact hpending⟩

end Peer

namespace Session

variable {k : ℕ} {s s₁ s₂ : Session n I S} [Build] [Varinteger] [Pod I]

/-- One player of a session that hands on an input. -/
def HandsOn (input : FrameInput I) (p p' : PlayerType I) : Prop :=
  p.Kept p' ∧ p'.pending = p.pending ++ if p.peer?.any Peer.isRunning = true then [input] else []

omit [Build] [Varinteger] [Pod I] in
theorem HandsOn.pending_eq {input : FrameInput I} {p p' : PlayerType I} (h : HandsOn input p p') :
    p'.pending = p.pending ∨ ∃ peer, p = .remote peer ∧ peer.isRunning = true ∧
      p'.pending = p.pending ++ [input] := by
  obtain ⟨-, hpending⟩ := h
  cases p with
  | localPlayer => exact .inl (by simpa [PlayerType.peer?] using hpending)
  | remote peer =>
    cases hrun : peer.isRunning with
    | false => exact .inl (by simpa [PlayerType.peer?, hrun] using hpending)
    | true => exact .inr ⟨peer, rfl, hrun, by simpa [PlayerType.peer?, hrun] using hpending⟩

/-- An input is handed to the peers that run, and nothing else changes. -/
theorem sendInput_handsOn (s : Session n I S) (input : FrameInput I) :
    Ends (s.sendInput input) (fun s' => s' = { s with players := s'.players } ∧
      ∀ i, HandsOn input (s.players i) (s'.players i)) fun _ => True := by
  unfold sendInput
  refine (Fallible.forEach_ends (fun k (s' : Session n I S) =>
    s' = { s with players := s'.players } ∧
      (∀ i : Fin n, i < k → HandsOn input (s.players i) (s'.players i)) ∧
      ∀ i : Fin n, k ≤ i → s'.players i = s.players i)
    ⟨rfl, fun i hi => absurd hi (Nat.not_lt_zero _), fun _ _ => rfl⟩ ?_).imp fun s' hs' =>
      ⟨hs'.1, fun i => hs'.2.1 i i.isLt⟩
  rintro i s' ⟨hsame, hdone, htodo⟩
  have hi := htodo i le_rfl
  cases hp : s.players i with
  | localPlayer =>
    rw [hi, hp]
    refine ⟨hsame, fun j hj => ?_, fun j hj => htodo j (by omega)⟩
    rcases Nat.lt_succ_iff_lt_or_eq.mp hj with hlt | heq
    · exact hdone j hlt
    · obtain rfl : j = i := Fin.ext heq
      rw [hi, hp]
      exact ⟨.refl _, rfl⟩
  | remote peer =>
    rw [hi, hp]
    refine (peer.sendInput_sent s'.statuses input).bind fun r hr => ?_
    refine ⟨by rw [hsame], fun j hj => ?_, fun j hj => ?_⟩
    · rcases Nat.lt_succ_iff_lt_or_eq.mp hj with hlt | heq
      · have hne : j ≠ i := by
          rintro rfl
          exact lt_irrefl _ hlt
        simpa [hne] using hdone j hlt
      · obtain rfl : j = i := Fin.ext heq
        simp only [Function.update_self, hp]
        refine ⟨.remote _ _ hr.peerConnectStatus (by rw [hr.state]; exact .refl _)
          (by rw [hr.events]; exact id), hr.pending.trans ?_⟩
        cases hrun : peer.isRunning <;> simp [PlayerType.pending, PlayerType.peer?, hrun]
    · have hne : j ≠ i := by
        rintro rfl
        omega
      simpa [hne] using htodo j (by omega)

/-- A local player's input was accepted for the current frame. -/
structure Accepted (i : Fin n) (input : I) (s s' : Session n I S) : Prop extends Later 0 s s' where
  ready : s.synchronizing = false
  home : (s.players i).isLocal = true
  others : ∀ j, j ≠ i → s'.status j = s.status j ∧
    (s.sync.inputQueues j).SameInputs (s'.sync.inputQueues j)
  frame : s'.status i = { s.status i with lastFrame := s.sync.frameCount }
  pending : ∀ j, HandsOn ⟨s.sync.frameCount, input⟩ (s.players j) (s'.players j)

variable [BEq I]

theorem addLocalInput_accepted (hs : s.Settled) (hcount : 0 ≤ s.sync.frameCount) (player : ℕ)
    (input : I) : Ends (s.addLocalInput player input) (fun r => match r.1 with
      | .ok _ => ∃ i : Fin n, i.val = player ∧ Accepted i input s r.2
      | .error _ => r.2 = s) fun _ => True := by
  unfold addLocalInput
  rw [if_neg (by simp [hs.idle])]
  split
  · rfl
  · next hready =>
    unfold playerHandleToQueue
    by_cases hplayer : player < n
    · rw [dif_pos hplayer]
      dsimp only
      split
      · trivial
      · next hhome =>
        obtain ⟨i, hi⟩ : ∃ i : Fin n, i = ⟨player, hplayer⟩ := ⟨_, rfl⟩
        rw [← hi] at hhome ⊢
        have hlocal : (s.players i).isLocal = true := by simpa using hhome
        have hin := hs.home i hlocal
        have hadd : Ends (s.sync.addLocalInput i input) (fun r => match r.1 with
            | .ok frame => frame = s.sync.frameCount ∧ Sync.Calm (· = i) s.sync r.2 ∧
              r.2.savedState = s.sync.savedState ∧ r.2.frameCount = s.sync.frameCount
            | .error _ => r.2 = s.sync) fun _ => True := by
          unfold Sync.addLocalInput
          dsimp only
          split
          · rfl
          · exact .bind_any fun r => ⟨rfl, .update fun h => absurd rfl h, rfl, rfl⟩
        refine hadd.bind fun r hr => ?_
        obtain ⟨result, sync⟩ := r
        cases result with
        | error err => rfl
        | ok frame =>
          obtain ⟨rfl, hcalm, hsaved, hframes⟩ := hr
          dsimp only
          rw [if_pos (by simpa [isNull] using hcount)]
          have hstep := Onward.of_add hs hin hcalm hsaved hframes
          have hstatus : ∀ j, ({ s with sync := sync } : Session n I S).status j = s.status j :=
            fun j => congrFun hcalm.statuses j
          have hin' : (({ s with sync := sync } : Session n I S).status i).disconnected = false := by
            rw [hstatus, hin]
          have hset := hstep.trans' (setLastFrame_onward hstep.settled hin' s.sync.frameCount)
          rw [hstatus] at hset ⊢
          refine (sendInput_handsOn _ _).bind fun s' hs' => ?_
          obtain ⟨hsame, hhands⟩ := hs'
          rw [hsame]
          refine ⟨i, congrArg Fin.val hi, ⟨hset.toLater.trans (.of_players hset.settled
            fun j => (hhands j).1), by simpa using hready, hlocal, fun j hj => ⟨?_, ?_⟩, ?_, hhands⟩⟩
          · exact (Function.update_of_ne hj _ _).trans (hstatus j)
          · exact hcalm.stored j hj
          · exact Function.update_self _ _ _
    · rw [dif_neg hplayer]
      rfl

/-- An accepted input goes to the queue of its player under the current frame. -/
theorem addLocalInput_queues {s' : Session n I S} {i : Fin n} {input : I}
    (h : s.addLocalInput i input = .ok (.ok (), s')) : ∃ slot q,
      (s.sync.inputQueues i).addInput ⟨s.sync.frameCount, input⟩ = .ok (slot, q) ∧
      s'.sync.inputQueues = Function.update s.sync.inputQueues i q := by
  unfold addLocalInput at h
  split at h
  · simp at h
  · split at h
    · simp at h
    · unfold playerHandleToQueue at h
      rw [dif_pos i.isLt] at h
      dsimp only at h
      split at h
      · simp at h
      · obtain ⟨⟨result, sync⟩, hsync, h⟩ := Fallible.bind_eq_ok.mp h
        unfold Sync.addLocalInput at hsync
        dsimp only at hsync
        split at hsync
        · obtain ⟨rfl, -⟩ := Prod.mk.inj (Except.ok.inj hsync)
          simp at h
        · obtain ⟨⟨slot, q⟩, hadd, hsync⟩ := Fallible.bind_eq_ok.mp hsync
          obtain ⟨rfl, rfl⟩ := Prod.mk.inj (Except.ok.inj hsync)
          refine ⟨slot, q, hadd, ?_⟩
          dsimp only at h
          split at h
          · obtain ⟨s₁, hsend, h⟩ := Fallible.bind_eq_ok.mp h
            obtain ⟨-, rfl⟩ := Prod.mk.inj (Except.ok.inj h)
            rw [((sendInput_handsOn _ _).ok hsend).1]
            rfl
          · obtain ⟨-, rfl⟩ := Prod.mk.inj (Except.ok.inj h)
            rfl

/-- Every call goes on from a settled session to another. -/
theorem make_later (hs : s.Settled) (hcount : 0 ≤ s.sync.frameCount) (c : Call I) :
    Ends (s.make c) (fun r => ∃ k, Later k s r.2) fun _ => True := by
  cases c with
  | poll => exact (doPoll_polled hs).imp fun r hr => ⟨_, hr.toLater⟩
  | advanceFrame => exact (advanceFrame_polled hs).imp fun r hr => ⟨_, hr.toLater⟩
  | addLocalInput player input =>
    refine (addLocalInput_accepted hs hcount player input).bind fun r hr => ?_
    obtain ⟨result, s'⟩ := r
    cases result with
    | error err =>
      obtain rfl : s' = s := hr
      exact ⟨_, (Steady.refl hs).toLater⟩
    | ok =>
      obtain ⟨i, -, hacc⟩ := hr
      exact ⟨_, hacc.toLater⟩
  | setFrameDelay player delay =>
    exact (setFrameDelay_steady hs player delay).bind fun r hr => ⟨_, hr.toLater⟩
  | disconnectPlayer player =>
    refine (disconnectPlayer_later hs player).bind fun r hr => ?_
    obtain ⟨result, s'⟩ := r
    cases result <;> exact ⟨_, hr.1⟩

end Session

/-- Executing a command leaves the labels of the cells alone. -/
theorem execAll_label [Client I S] {cs : List (Command I)}
    {frames frames' : Fin numCells → SavedFrame S} {state state' : S}
    (h : execAll cs frames state = .ok (frames', state')) (c : Fin numCells) :
    (frames' c).frame = (frames c).frame := by
  induction cs generalizing frames state with
  | nil =>
    obtain ⟨rfl, rfl⟩ := Prod.mk.inj (Except.ok.inj h)
    rfl
  | cons command cs ih =>
    obtain ⟨⟨frames₁, state₁⟩, hexec, hrest⟩ := Fallible.bind_eq_ok.mp h
    refine (ih hrest).trans ?_
    cases command with
    | save cell frame =>
      simp only [Command.exec] at hexec
      split at hexec
      · simp at hexec
      · obtain ⟨rfl, rfl⟩ := Prod.mk.inj (Except.ok.inj hexec)
        by_cases hc : c = cell
        · subst hc
          simp
        · simp [hc]
    | load cell =>
      simp only [Command.exec] at hexec
      split at hexec
      · obtain ⟨rfl, rfl⟩ := Prod.mk.inj (Except.ok.inj hexec)
        rfl
      · simp at hexec
    | advanceFrame inputs =>
      obtain ⟨rfl, rfl⟩ := Prod.mk.inj (Except.ok.inj hexec)
      rfl
    | event event =>
      obtain ⟨rfl, rfl⟩ := Prod.mk.inj (Except.ok.inj hexec)
      rfl

namespace Session

variable {s s' : Session n I S}

theorem Settled.setFrames (hs : s.Settled) {frames : Fin numCells → SavedFrame S}
    (h : ∀ c, (frames c).frame = (s.sync.savedState.frames c).frame) :
    (s.setFrames frames).Settled :=
  ⟨hs.idle, fun c => (h c).trans_le (hs.labelled c), hs.home, hs.own, hs.shut, hs.met⟩

theorem Later.setFrames {k : ℕ} {frames : Fin numCells → SavedFrame S} (h : Later k s s')
    (hlabel : ∀ c, (frames c).frame = (s'.sync.savedState.frames c).frame) :
    Later k s (s'.setFrames frames) :=
  ⟨h.settled.setFrames hlabel, h.kept, h.out, h.running, h.count⟩

theorem Interferes.later {events : Fin n → List (ProtocolEvent I)} (h : s.Interferes events s')
    (hs : s.Settled) : Later 0 s s' := by
  have hkept : ∀ i, (s.players i).Kept (s'.players i) := fun i => (h.players i).kept
  have hstatus : ∀ i, s'.status i = s.status i := fun i => by rw [status, h.sync]; rfl
  refine ⟨hs.of_kept (by rw [h.sync]; exact hs.idle) (by rw [h.sync]; exact hs.labelled) hkept
    (fun i hd => .inl (by rwa [← hstatus])) h.synchronizing, hkept, fun i hd => by rwa [hstatus],
    fun hr => h.synchronizing.trans hr, by simp [h.sync]⟩

end Session

namespace Host

variable [Client I S] [Build] [BEq I] [Varinteger] [Pod I] {h h' : Host n I S}

/-- A call is one of the session, followed by the client's execution of the commands. -/
theorem call_eq_ok {c : Call I} (hcall : h.call c = .ok h') : ∃ commands s frames state,
    h.session.make c = .ok (commands, s) ∧
    execAll commands s.sync.savedState.frames h.state = .ok (frames, state) ∧
    h' = ⟨s.setFrames frames, state⟩ := by
  obtain ⟨⟨commands, s⟩, hmake, hexecute⟩ := Fallible.bind_eq_ok.mp hcall
  obtain ⟨⟨frames, state⟩, hexec, hh'⟩ := Fallible.bind_eq_ok.mp hexecute
  exact ⟨commands, s, frames, state, hmake, hexec, (Except.ok.inj hh').symm⟩

/-- Nobody changes places. -/
theorem call_isLocal {c : Call I} (hs : h.session.Settled) (hcount : 0 ≤ h.session.sync.frameCount)
    (hcall : h.call c = .ok h') (i : Fin n) :
    (h'.session.players i).isLocal = (h.session.players i).isLocal := by
  obtain ⟨commands, s, frames, state, hmake, -, rfl⟩ := call_eq_ok hcall
  obtain ⟨k, hlater⟩ := (Session.make_later hs hcount c).ok hmake
  exact (hlater.kept i).isLocal

theorem reachable_settled (hr : Reachable h) :
    h.session.Settled ∧ 0 ≤ h.session.sync.frameCount := by
  induction hr with
  | start players delay randoms s state hnew =>
    refine ⟨Session.settled_new hnew, ?_⟩
    unfold Session.new at hnew
    dsimp only at hnew
    split at hnew
    · simp at hnew
    · obtain rfl := Except.ok.inj hnew
      exact le_rfl
  | call h c h' _ hcall ih =>
    obtain ⟨commands, s, frames, state, hmake, hexec, rfl⟩ := call_eq_ok hcall
    obtain ⟨k, hlater⟩ := (Session.make_later ih.1 ih.2 c).ok hmake
    refine ⟨hlater.settled.setFrames fun cell => execAll_label hexec cell, ?_⟩
    have hcount := hlater.count
    have := ih.2
    change 0 ≤ s.sync.frameCount
    dsimp only at hcount
    omega
  | interfere h events s _ hs ih =>
    refine ⟨(hs.later ih.1).settled, ?_⟩
    rw [hs.sync]
    exact ih.2

end Host

/-- A client that counts its frames. -/
abbrev countingClient : Client UInt8 ℕ where
  step frames _ := frames + 1

/-- What the peer's task reports from the start to the first input. -/
def handshakeEvents : List (ProtocolEvent UInt8) :=
  [.connected, .synchronizing 5 1, .synchronizing 5 2, .synchronizing 5 3, .synchronizing 5 4,
    .synchronized, .inputs [⟨0, 5⟩]]

/-- Debug assertions are on. -/
abbrev debugBuild : Build := ⟨true⟩

/-- A session of a local and a remote player whose connection has come to run, with the first
input of the remote player waiting. -/
def connectedPair : Host 2 UInt8 ℕ where
  session := {
    sync := .new 0
    players := fun i => if i.val = 0 then .localPlayer else .remote { Peer.new 1 (List.replicate 2 {}) with
      state := .running 7
      events := { queue := handshakeEvents } }
    synchronizing := true
    nextRecommendedSleep := 0 }
  state := 0

/-- The session as it starts, and what the peer's tasks do until then. -/
theorem connectedPair_interferes :
    Session.Interferes (fun i => if i.val = 0 then [] else handshakeEvents)
      { connectedPair.session with
        players := fun i => if i.val = 0 then .localPlayer else .remote (.new 1 (List.replicate 2 {})) }
      connectedPair.session := by
  refine ⟨rfl, rfl, fun i => ?_⟩
  match i with
  | 0 => exact .localPlayer
  | 1 =>
    exact .remote _ _ _ [] rfl ⟨fun h => absurd h Bool.false_ne_true, fun h => nomatch h⟩ rfl rfl
      fun h => absurd h Bool.false_ne_true

theorem connectedPair_new : Session.new (I := UInt8) (S := ℕ)
    (fun i : Fin 2 => if i.val = 0 then .localPlayer else .remotePlayer) 0 (fun _ => 1) =
      .ok { connectedPair.session with
        players := fun i => if i.val = 0 then .localPlayer else .remote (.new 1 (List.replicate 2 {})) } := by
  refine congrArg Except.ok ?_
  congr 1
  funext i
  match i with
  | 0 => rfl
  | 1 => rfl

theorem connectedPair_reachable [Build] [Varinteger] :
    letI := countingClient
    Host.Reachable connectedPair := by
  let client := countingClient
  exact .interfere ⟨_, 0⟩ _ _ (.start _ 0 _ _ 0 connectedPair_new) connectedPair_interferes

end Backroll

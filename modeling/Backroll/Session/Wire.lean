import Backroll.Session.Calls

/-! The inputs that wait for the acknowledgement of a peer. A packet says only which frame it
starts at, and the receiver counts from there on. -/
namespace Backroll

open Fallible (Ends)

variable {n : ℕ} {I S : Type}

/-- Numbered from the frame of the first one on, each input gets its own frame again. -/
def OnePerFrame (pending : List (FrameInput I)) : Prop :=
  ∀ front ∈ pending.head?, ((pending.map (·.input)).zipIdx.map fun (input, i) =>
    (⟨front.frame + i, input⟩ : FrameInput I)) = pending

theorem onePerFrame_framed (start : ℤ) (xs : List I) : OnePerFrame (framed start xs) := by
  intro front hfront
  cases xs with
  | nil => simp at hfront
  | cons x xs =>
    obtain rfl : (⟨start, x⟩ : FrameInput I) = front := by simpa using hfront
    rw [map_input_framed]
    exact map_zipIdx_eq_framed start (x :: xs)

/-- Acknowledgements leave the end of consecutive inputs. -/
theorem pending_acknowledgeFrames {e : InputEncoder I} {start : ℤ} {xs : List I}
    (h : e.pending = framed start xs) (acks : List ℤ) : ∃ k : ℕ,
      (acks.foldl InputEncoder.acknowledgeFrame e).pending = framed (start + k) (xs.drop k) := by
  induction acks generalizing e start xs with
  | nil => exact ⟨0, by simpa using h⟩
  | cons ack acks ih =>
    have hack : (e.acknowledgeFrame ack).pending =
        framed (start + (ack - start).toNat) (xs.drop (ack - start).toNat) := by
      rw [InputEncoder.pending_acknowledgeFrame, h, filter_ge_framed]
    obtain ⟨k, hk⟩ := ih hack
    refine ⟨(ack - start).toNat + k, ?_⟩
    rw [List.foldl_cons, hk, List.drop_drop]
    congr 1
    push_cast
    ring

namespace Host

variable [Client I S] [Build] [BEq I] [Varinteger] [Pod I]

/-- The runs in which the client adds an input once for each local player in each frame, and
advances only when all were accepted; with the number of inputs accepted for each. -/
inductive Played : Host n I S → (Fin n → ℕ) → Prop
  | start (players delay randoms s state) (h : Session.new players delay randoms = .ok s) :
    Played ⟨s, state⟩ fun _ => 0
  | add (h given i input s) (hp : Played h given) (honce : given i = h.session.sync.frameCount)
    (hadd : h.session.addLocalInput i input = .ok (.ok (), s)) :
    Played ⟨s, h.state⟩ (Function.update given i (given i + 1))
  | refused (h given player input err s) (hp : Played h given)
    (hadd : h.session.addLocalInput player input = .ok (.error err, s)) :
    Played ⟨s, h.state⟩ given
  | advance (h given h') (hp : Played h given)
    (hall : ∀ i, (h.session.players i).isLocal = true → given i = h.session.sync.frameCount + 1)
    (hcall : h.call .advanceFrame = .ok h') : Played h' given
  | poll (h given h') (hp : Played h given) (hcall : h.call .poll = .ok h') : Played h' given
  | disconnect (h given player h') (hp : Played h given)
    (hcall : h.call (.disconnectPlayer player) = .ok h') : Played h' given
  | setFrameDelay (h given player delay h') (hp : Played h given)
    (hcall : h.call (.setFrameDelay player delay) = .ok h') : Played h' given
  | interfere (h : Host n I S) (given events s) (hp : Played h given)
    (hs : h.session.Interferes events s) : Played ⟨s, h.state⟩ given

end Host

/-- What waits for one remote player, when `given` inputs of each local player were accepted. -/
structure Waits (home : Fin n → Prop) (given : Fin n → ℕ) (peer : Peer I) : Prop where
  framed : ∃ start xs, peer.inputEncoder.pending = framed start xs ∧
    (peer.isRunning = true → xs ≠ [] → ∀ i, home i → start + xs.length = given i)
  early : peer.isRunning = false → peer.state ≠ .disconnected → peer.inputEncoder.pending = []

/-- Nothing is added, and some of what waits may be acknowledged. -/
theorem Waits.of_leads {home : Fin n → Prop} {given : Fin n → ℕ} {peer peer' : Peer I}
    (h : Waits home given peer) (hleads : peer.state.Leads peer'.state)
    (hpending : ∀ start xs, peer.inputEncoder.pending = Backroll.framed start xs → ∃ k : ℕ,
      peer'.inputEncoder.pending = Backroll.framed (start + k) (xs.drop k)) :
    Waits home given peer' := by
  have hempty : peer.inputEncoder.pending = [] → peer'.inputEncoder.pending = [] := by
    intro hnil
    obtain ⟨k, hk⟩ := hpending 0 [] hnil
    simpa using hk
  constructor
  · obtain ⟨start, xs, hxs, hend⟩ := h.framed
    obtain ⟨k, hk⟩ := hpending start xs hxs
    refine ⟨start + k, xs.drop k, hk, fun hrun hne i hi => ?_⟩
    have hrun' : peer.isRunning = true := by
      by_contra hidle
      by_cases hover : peer.state = .disconnected
      · simp [Peer.isRunning, PeerState.isRunning, hleads.ended hover] at hrun
      · rw [h.early (by simpa using hidle) hover] at hxs
        obtain rfl := framed_eq_nil.mp hxs.symm
        simp at hne
    have hlen : k < xs.length := by
      by_contra hge
      exact hne (List.drop_eq_nil_of_le (not_lt.mp hge))
    have hnil : xs ≠ [] := by
      rintro rfl
      simp at hlen
    have := hend hrun' hnil i hi
    rw [List.length_drop]
    omega
  · intro hidle hstate
    refine hempty (h.early ?_ fun hover => hstate (hleads.ended hover))
    by_contra hrun
    rcases hleads.running (by simpa [Peer.isRunning] using hrun) with hrun' | hover
    · exact absurd hrun' (by simpa [Peer.isRunning] using hidle)
    · exact hstate hover

/-- The input of the current frame is added for a peer that runs. -/
theorem Waits.push {home : Fin n → Prop} {given : Fin n → ℕ} {peer peer' : Peer I} {i : Fin n}
    {input : I} (h : Waits home given peer) (hi : home i) (hone : ∀ j, home j → j = i)
    (hmet : peer.isRunning = true ∨ peer.state = .disconnected)
    (hleads : peer.state.Leads peer'.state)
    (hpending : peer'.inputEncoder.pending = peer.inputEncoder.pending ++
      if peer.isRunning = true then [⟨given i, input⟩] else []) :
    Waits home (Function.update given i (given i + 1)) peer' := by
  have hover : peer.state = .disconnected → peer'.isRunning = false := fun hd => by
    simp [Peer.isRunning, hleads.ended hd, PeerState.isRunning]
  obtain ⟨start, xs, hxs, hend⟩ := h.framed
  constructor
  · rw [hpending, hxs]
    by_cases hrun : peer.isRunning = true
    · rw [if_pos hrun]
      by_cases hnil : xs = []
      · subst hnil
        refine ⟨given i, [input], rfl, fun _ _ j hj => ?_⟩
        obtain rfl := hone j hj
        simp
      · have hlast := hend hrun hnil i hi
        refine ⟨start, xs ++ [input], ?_, fun _ _ j hj => ?_⟩
        · rw [framed_append, hlast]
          rfl
        · obtain rfl := hone j hj
          rw [Function.update_self, List.length_append, List.length_singleton]
          push_cast
          omega
    · rw [if_neg hrun]
      have hd := hmet.resolve_left hrun
      exact ⟨start, xs, by simp, fun h => absurd (hover hd) (by simp [h])⟩
  · intro hidle hnot
    rcases hmet with hrun | hd
    · rcases hleads.running hrun with hrun' | hd'
      · exact absurd hrun' (by simpa [Peer.isRunning] using hidle)
      · exact absurd hd' hnot
    · exact absurd (hleads.ended hd) hnot

namespace Host

variable {h h' : Host n I S} {given : Fin n → ℕ}

/-- A session with no more than one local player, between two calls. -/
structure OneLocal (h : Host n I S) (given : Fin n → ℕ) : Prop where
  settled : h.session.Settled
  count : 0 ≤ h.session.sync.frameCount
  given_le : ∀ i, (h.session.players i).isLocal = true →
    h.session.sync.frameCount ≤ given i ∧ given i ≤ h.session.sync.frameCount + 1
  waits : ∀ j peer, h.session.players j = .remote peer →
    Waits (fun i => (h.session.players i).isLocal = true) given peer

/-- The session goes on, and nothing is added to what waits. -/
theorem OneLocal.later {k : ℕ} (ho : h.OneLocal given) (hl : h.session.Later k h'.session)
    (hgiven : ∀ i, (h.session.players i).isLocal = true →
      h.session.sync.frameCount + k ≤ given i)
    (hpending : ∀ j peer peer', h.session.players j = .remote peer →
      h'.session.players j = .remote peer' → ∀ start xs,
      peer.inputEncoder.pending = framed start xs → ∃ k : ℕ,
        peer'.inputEncoder.pending = framed (start + k) (xs.drop k)) : h'.OneLocal given := by
  have hcount := hl.count
  refine ⟨hl.settled, by have := ho.count; omega, fun i hi => ?_, fun j peer' hp' => ?_⟩
  · rw [(hl.kept i).isLocal] at hi
    have hle := ho.given_le i hi
    have hge := hgiven i hi
    omega
  · have hkept := hl.kept j
    rw [hp'] at hkept
    generalize hp : h.session.players j = p at hkept
    cases hkept with
    | remote peer _ _ hstate _ =>
      have hhome : (fun i => (h'.session.players i).isLocal = true) =
          fun i => (h.session.players i).isLocal = true := by
        funext i
        rw [(hl.kept i).isLocal]
      rw [hhome]
      exact (ho.waits j peer hp).of_leads hstate (hpending j peer peer' hp hp')

theorem OneLocal.of_pending {k : ℕ} (ho : h.OneLocal given) (hl : h.session.Later k h'.session)
    (hgiven : ∀ i, (h.session.players i).isLocal = true →
      h.session.sync.frameCount + k ≤ given i)
    (hpending : ∀ j, (h'.session.players j).pending = (h.session.players j).pending) :
    h'.OneLocal given := by
  refine ho.later hl hgiven fun j peer peer' hp hp' start xs hxs => ⟨0, ?_⟩
  have hsame := hpending j
  rw [hp, hp'] at hsame
  simpa [PlayerType.pending, PlayerType.peer?, hxs] using hsame

section Runs

variable [Client I S] [Build] [BEq I] [Varinteger] [Pod I]

theorem played_reachable (hp : Played h given) : Reachable h := by
  induction hp with
  | start players delay randoms s state hnew => exact .start players delay randoms s state hnew
  | add h given i input s _ _ hadd ih =>
    exact .call h (.addLocalInput i input) _ ih (by simp [call, Session.make, hadd]; rfl)
  | refused h given player input err s _ hadd ih =>
    exact .call h (.addLocalInput player input) _ ih (by simp [call, Session.make, hadd]; rfl)
  | advance h given h' _ _ hcall ih => exact .call h _ h' ih hcall
  | poll h given h' _ hcall ih => exact .call h _ h' ih hcall
  | disconnect h given player h' _ hcall ih => exact .call h _ h' ih hcall
  | setFrameDelay h given player delay h' _ hcall ih => exact .call h _ h' ih hcall
  | interfere h given events s _ hs ih => exact .interfere h events s ih hs

/-- A call that adds nothing to what waits. -/
theorem OneLocal.call {c : Call I} (ho : h.OneLocal given) (hcall : h.call c = .ok h') (k : ℕ)
    (hmake : Ends (h.session.make c) (fun r => ∃ l ≤ k, Session.Later l h.session r.2 ∧
      ∀ j, (r.2.players j).pending = (h.session.players j).pending) fun _ => True)
    (hgiven : ∀ i, (h.session.players i).isLocal = true →
      h.session.sync.frameCount + k ≤ given i) : h'.OneLocal given := by
  obtain ⟨commands, s, frames, state, hok, hexec, rfl⟩ := call_eq_ok hcall
  obtain ⟨l, hle, hl, hpending⟩ := hmake.ok hok
  refine ho.of_pending (hl.setFrames fun c => execAll_label hexec c) (fun i hi => ?_) hpending
  have := hgiven i hi
  omega

theorem played_oneLocal (hp : Played h given) (hone : ∀ i j,
    (h.session.players i).isLocal = true → (h.session.players j).isLocal = true → i = j) :
    h.OneLocal given := by
  induction hp with
  | start players delay randoms s state hnew =>
    have hcount : s.sync.frameCount = 0 := by rw [Session.new_eq hnew]; rfl
    refine ⟨Session.settled_new hnew, hcount.ge, fun i _ => by simp [hcount], fun j peer hp => ?_⟩
    obtain ⟨-, rfl⟩ := Session.remote_new hnew hp
    exact ⟨⟨0, [], rfl, fun _ h => absurd rfl h⟩, fun _ _ => rfl⟩
  | add h given i input s hp honce hadd ih =>
    obtain ⟨hs, hcount⟩ := reachable_settled (played_reachable hp)
    have hacc := (Session.addLocalInput_accepted hs hcount i input).ok hadd
    obtain ⟨i', hi', hacc⟩ := hacc
    obtain rfl : i' = i := Fin.ext hi'
    have hlocal : ∀ j, (s.players j).isLocal = (h.session.players j).isLocal := fun j =>
      (hacc.kept j).isLocal
    have ho := ih fun j k hj hk => hone j k ((hlocal j).trans hj) ((hlocal k).trans hk)
    have hthe : ∀ j, (s.players j).isLocal = true → j = i' := fun j hj =>
      hone j i' hj ((hlocal i').trans hacc.home)
    have hframes : s.sync.frameCount = h.session.sync.frameCount := by simpa using hacc.count
    refine ⟨hacc.settled, hframes ▸ hcount, fun j hj => ?_, fun j peer' hp' => ?_⟩
    · obtain rfl := hthe j hj
      dsimp only
      rw [Function.update_self, hframes]
      push_cast
      omega
    · obtain ⟨hkept, hpending⟩ := hacc.pending j
      dsimp only at hp'
      rw [hp'] at hkept hpending
      generalize hp₀ : h.session.players j = p at hkept hpending
      cases hkept with
      | remote peer _ _ hstate _ =>
        have hmet := hs.met hacc.ready j peer hp₀
        have hhome : (fun i => (s.players i).isLocal = true) =
            fun i => (h.session.players i).isLocal = true := by
          funext i
          rw [hlocal]
        rw [hhome]
        rw [← honce] at hpending
        exact (ho.waits j peer hp₀).push hacc.home (fun k hk => hthe k ((hlocal k).trans hk)) hmet
          hstate hpending
  | refused h given player input err s hp hadd ih =>
    obtain ⟨hs, hcount⟩ := reachable_settled (played_reachable hp)
    obtain rfl := (Session.addLocalInput_accepted hs hcount player input).ok hadd
    exact ih hone
  | advance h given h' hp hall hcall ih =>
    obtain ⟨hs, hcount⟩ := reachable_settled (played_reachable hp)
    have hlocal := call_isLocal hs hcount hcall
    have ho := ih fun j k hj hk => hone j k ((hlocal j).trans hj) ((hlocal k).trans hk)
    refine ho.call hcall 1 ((Session.advanceFrame_polled hs).imp fun r hr => ?_) fun i hi =>
      (hall i hi).ge
    refine ⟨_, ?_, hr.toLater, hr.pending⟩
    split <;> omega
  | poll h given h' hp hcall ih =>
    obtain ⟨hs, hcount⟩ := reachable_settled (played_reachable hp)
    have hlocal := call_isLocal hs hcount hcall
    have ho := ih fun j k hj hk => hone j k ((hlocal j).trans hj) ((hlocal k).trans hk)
    exact ho.call hcall 0 ((Session.doPoll_polled hs).imp fun r hr => ⟨0, le_rfl, hr.toLater, hr.pending⟩)
      fun i hi => by simpa using (ho.given_le i hi).1
  | disconnect h given player h' hp hcall ih =>
    obtain ⟨hs, hcount⟩ := reachable_settled (played_reachable hp)
    have hlocal := call_isLocal hs hcount hcall
    have ho := ih fun j k hj hk => hone j k ((hlocal j).trans hj) ((hlocal k).trans hk)
    refine ho.call hcall 0 ((Session.disconnectPlayer_later hs player).bind fun r hr => ?_)
      fun i hi => by simpa using (ho.given_le i hi).1
    obtain ⟨result, s⟩ := r
    cases result <;> exact ⟨0, le_rfl, hr⟩
  | setFrameDelay h given player delay h' hp hcall ih =>
    obtain ⟨hs, hcount⟩ := reachable_settled (played_reachable hp)
    have hlocal := call_isLocal hs hcount hcall
    have ho := ih fun j k hj hk => hone j k ((hlocal j).trans hj) ((hlocal k).trans hk)
    refine ho.call hcall 0 ((Session.setFrameDelay_steady hs player delay).bind fun r hr => ?_)
      fun i hi => by simpa using (ho.given_le i hi).1
    exact ⟨0, le_rfl, hr.toLater, hr.pending⟩
  | interfere h given events s hp hs ih =>
    obtain ⟨hsettled, -⟩ := reachable_settled (played_reachable hp)
    have hlater := hs.later hsettled
    have hlocal := fun i => (hlater.kept i).isLocal
    have ho := ih fun j k hj hk => hone j k ((hlocal j).trans hj) ((hlocal k).trans hk)
    refine ho.later hlater (fun i hi => by simpa using (ho.given_le i hi).1)
      fun j peer peer' hp hp' start xs hxs => ?_
    have hshares := hs.players j
    dsimp only at hp'
    rw [hp, hp'] at hshares
    generalize events j = sent at hshares
    cases hshares with
    | remote _ _ _ acks _ _ hpending _ _ =>
      rw [hpending]
      exact pending_acknowledgeFrames hxs acks

/-- What waits for a peer's acknowledgement is one input for each frame. -/
theorem played_onePerFrame (hp : Played h given) (hone : ∀ i j,
    (h.session.players i).isLocal = true → (h.session.players j).isLocal = true → i = j)
    {i : Fin n} {peer : Peer I} (hi : h.session.players i = .remote peer) :
    OnePerFrame peer.inputEncoder.pending := by
  obtain ⟨start, xs, hxs, -⟩ := ((played_oneLocal hp hone).waits i peer hi).framed
  rw [hxs]
  exact onePerFrame_framed start xs

end Runs

theorem played_onePerFrame_pair :
    letI : Build := ⟨true⟩
    letI := Varinteger.leb128
    letI := countingClient
    ∃ (h : Host 2 UInt8 ℕ) (given : Fin 2 → ℕ) (peer : Peer UInt8), Played h given ∧
      h.session.players 1 = .remote peer ∧ peer.inputEncoder.pending = [⟨0, 3⟩] ∧
      OnePerFrame peer.inputEncoder.pending := by
  let build : Build := ⟨true⟩
  let varint := Varinteger.leb128
  let client := countingClient
  have hmet : Played connectedPair _ := .interfere ⟨_, 0⟩ _ _ _
    (.start _ 0 _ _ 0 connectedPair_new) connectedPair_interferes
  have hadd : Played _ _ := .add _ _ 0 3 _ (.poll _ _ _ hmet rfl) rfl rfl
  exact ⟨_, _, _, hadd, rfl, rfl, played_onePerFrame hadd (by decide) (i := 1) rfl⟩

/-- Two players at one machine, and a remote one whose connection has come to run. -/
def sharedMachine : Host 3 UInt8 ℕ where
  session := {
    sync := .new 0
    players := fun i => if i.val = 2 then .remote { Peer.new 1 (List.replicate 3 {}) with
      state := .running 7
      events := { queue := handshakeEvents } } else .localPlayer
    synchronizing := true
    nextRecommendedSleep := 0 }
  state := 0

/-- The inputs of both local players for a frame wait as if they were for two frames. -/
theorem not_onePerFrame_shared :
    letI : Build := ⟨true⟩
    letI := Varinteger.leb128
    letI := countingClient
    ∃ (h : Host 3 UInt8 ℕ) (given : Fin 3 → ℕ) (peer : Peer UInt8), Played h given ∧
      h.session.players 2 = .remote peer ∧ peer.inputEncoder.pending = [⟨0, 3⟩, ⟨0, 4⟩] ∧
      ¬OnePerFrame peer.inputEncoder.pending := by
  let build : Build := ⟨true⟩
  let varint := Varinteger.leb128
  let client := countingClient
  have hstart : Played (n := 3) (I := UInt8) (S := ℕ) ⟨_, 0⟩ _ := .start
    (fun i => if i = 2 then .remotePlayer else .localPlayer) 0 (fun _ => 1) _ 0 rfl
  have hmet : Played sharedMachine fun _ => 0 := by
    refine .interfere _ _ (fun i => if i = 2 then handshakeEvents else []) _ hstart
      ⟨rfl, rfl, fun i => ?_⟩
    match i with
    | 0 => exact .localPlayer
    | 1 => exact .localPlayer
    | 2 =>
      exact .remote _ _ _ [] rfl ⟨fun h => absurd h Bool.false_ne_true, fun h => nomatch h⟩ rfl rfl
        fun h => absurd h Bool.false_ne_true
  have hadd : Played _ _ := .add _ _ 1 4 _ (.add _ _ 0 3 _ (.poll _ _ _ hmet rfl) rfl rfl) rfl rfl
  refine ⟨_, _, _, hadd, rfl, rfl, fun h => ?_⟩
  have hone := h ⟨0, 3⟩ rfl
  exact absurd hone (by decide)

end Host

end Backroll

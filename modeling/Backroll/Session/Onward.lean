import Backroll.Session.Polling

/-! What every call of a session preserves, from any settled state: connections and closed
channels only go one way, the frame counter moves by what is asked for, and a player that is
out stays out, with nothing added to its queue. -/
namespace Backroll

open Fallible (Ends)

variable {n : ℕ} {I S : Type}

namespace PeerState.Leads

theorem refl (state : PeerState) : state.Leads state := ⟨.inl, id⟩

theorem trans {s s₁ s₂ : PeerState} (h : s.Leads s₁) (h' : s₁.Leads s₂) : s.Leads s₂ := by
  refine ⟨fun hrun => ?_, fun hover => h'.ended (h.ended hover)⟩
  rcases h.running hrun with hrun₁ | hover
  · exact h'.running hrun₁
  · exact .inr (h'.ended hover)

theorem disconnected (state : PeerState) : state.Leads .disconnected := ⟨fun _ => .inr rfl, fun _ => rfl⟩

end PeerState.Leads

namespace PlayerType

/-- The same player later on. -/
inductive Kept : PlayerType I → PlayerType I → Prop
  | localPlayer : Kept localPlayer localPlayer
  | remote (peer peer' : Peer I)
    (hstatus : peer'.peerConnectStatus = peer.peerConnectStatus)
    (hstate : peer.state.Leads peer'.state)
    (hclosed : peer.events.closed = true → peer'.events.closed = true) :
    Kept (remote peer) (remote peer')

variable {p p₁ p₂ : PlayerType I}

theorem Kept.refl (p : PlayerType I) : Kept p p := by
  cases p with
  | localPlayer => exact .localPlayer
  | remote peer => exact .remote peer peer rfl (.refl _) id

theorem Kept.trans (h : Kept p p₁) (h' : Kept p₁ p₂) : Kept p p₂ := by
  cases h with
  | localPlayer => exact h'
  | remote peer peer₁ hstatus hstate hclosed =>
    cases h' with
    | remote _ peer₂ hstatus' hstate' hclosed' =>
      exact .remote peer peer₂ (hstatus'.trans hstatus) (hstate.trans hstate') (hclosed' ∘ hclosed)

theorem Kept.isLocal (h : Kept p p₁) : p₁.isLocal = p.isLocal := by
  cases h <;> rfl

theorem Shares.kept {events : List (ProtocolEvent I)} (h : p.Shares events p₁) : p.Kept p₁ := by
  cases h with
  | localPlayer => exact .localPlayer
  | remote _ peer peer' acks hstatus hstate _ _ hclosed =>
    exact .remote peer peer' hstatus hstate fun h => (hclosed h).2

theorem mapPeer_kept {f : Peer I → Peer I} (hstatus : ∀ peer, (f peer).peerConnectStatus =
    peer.peerConnectStatus) (hstate : ∀ peer : Peer I, peer.state.Leads (f peer).state)
    (hclosed : ∀ peer : Peer I, peer.events.closed = true → (f peer).events.closed = true) :
    p.Kept (p.mapPeer f) := by
  cases p with
  | localPlayer => exact .localPlayer
  | remote peer => exact .remote peer _ (hstatus peer) (hstate peer) (hclosed peer)

theorem disconnect_kept (p : PlayerType I) : p.Kept p.disconnect :=
  mapPeer_kept (fun _ => rfl) (fun _ => .disconnected _) fun _ _ => rfl

/-- The inputs that a remote player has not acknowledged. -/
def pending (p : PlayerType I) : List (FrameInput I) :=
  (p.peer?.map fun peer => peer.inputEncoder.pending).getD []

end PlayerType

namespace Session

/-- From one state to a later one, `k` frames on. -/
structure Later (k : ℕ) (s s' : Session n I S) : Prop where
  settled : s'.Settled
  kept : ∀ i, (s.players i).Kept (s'.players i)
  out : ∀ i, (s.status i).disconnected = true → (s'.status i).disconnected = true
  running : s.synchronizing = false → s'.synchronizing = false
  count : s'.sync.frameCount = s.sync.frameCount + k

/-- Where the session goes on, a player that is out stays out from the same frame on or an
earlier one, its queue takes no more inputs, and nothing is handed to the peers. -/
structure Onward (k : ℕ) (s s' : Session n I S) : Prop extends Later k s s' where
  frame : ∀ i, (s.status i).disconnected = true → (s'.status i).lastFrame ≤ (s.status i).lastFrame
  stored : ∀ i, (s.status i).disconnected = true →
    (s.sync.inputQueues i).SameInputs (s'.sync.inputQueues i)
  pending : ∀ i, (s'.players i).pending = (s.players i).pending

/-- No status changes and no queue takes an input. -/
structure Steady (k : ℕ) (s s' : Session n I S) : Prop extends Later k s s' where
  statuses : s'.sync.localConnectStatus = s.sync.localConnectStatus
  stored : ∀ i, (s.sync.inputQueues i).SameInputs (s'.sync.inputQueues i)
  pending : ∀ i, (s'.players i).pending = (s.players i).pending

/-- One player is put out by this frame. -/
structure Removed (queue : Fin n) (syncto : ℤ) (s s' : Session n I S) : Prop extends Later 0 s s' where
  statuses : s'.sync.localConnectStatus =
    Function.update s.sync.localConnectStatus queue ⟨true, syncto⟩
  stored : ∀ i, (s.sync.inputQueues i).SameInputs (s'.sync.inputQueues i)
  pending : ∀ i, (s'.players i).pending = (s.players i).pending

variable {k l : ℕ} {s s₁ s₂ : Session n I S}

theorem Later.trans (h : Later k s s₁) (h' : Later l s₁ s₂) : Later (k + l) s s₂ := by
  refine ⟨h'.settled, fun i => (h.kept i).trans (h'.kept i), fun i hi => h'.out i (h.out i hi),
    fun hr => h'.running (h.running hr), ?_⟩
  rw [h'.count, h.count]
  push_cast
  ring

theorem Steady.trans (h : Steady k s s₁) (h' : Steady l s₁ s₂) : Steady (k + l) s s₂ :=
  ⟨h.toLater.trans h'.toLater, h'.statuses.trans h.statuses,
    fun i => (h.stored i).trans (h'.stored i), fun i => (h'.pending i).trans (h.pending i)⟩

theorem Steady.refl (hs : s.Settled) : Steady 0 s s :=
  ⟨⟨hs, fun _ => .refl _, fun _ => id, id, by simp⟩, rfl, fun _ => .refl _, fun _ => rfl⟩

theorem Steady.onward (h : Steady k s s₁) : Onward k s s₁ :=
  ⟨h.toLater, fun i _ => (congrArg ConnectionStatus.lastFrame (congrFun h.statuses i)).le,
    fun i _ => h.stored i, h.pending⟩

theorem Removed.trans {queue : Fin n} {syncto : ℤ} (h : Removed queue syncto s s₁)
    (h' : Steady 0 s₁ s₂) : Removed queue syncto s s₂ :=
  ⟨h.toLater.trans h'.toLater, h'.statuses.trans h.statuses,
    fun i => (h.stored i).trans (h'.stored i), fun i => (h'.pending i).trans (h.pending i)⟩

/-- A player that was in the game before is put out. -/
theorem Removed.onward {queue : Fin n} {syncto : ℤ} (h : Removed queue syncto s s₁)
    (hin : (s.status queue).disconnected = false) : Onward 0 s s₁ := by
  refine ⟨h.toLater, fun i hi => ?_, fun i _ => h.stored i, h.pending⟩
  have hne : i ≠ queue := by
    rintro rfl
    simp [hin] at hi
  rw [status, h.statuses, Function.update_of_ne hne]
  rfl

theorem Onward.trans (h : Onward k s s₁) (h' : Onward l s₁ s₂) : Onward (k + l) s s₂ :=
  ⟨h.toLater.trans h'.toLater, fun i hi => (h'.frame i (h.out i hi)).trans (h.frame i hi),
    fun i hi => (h.stored i hi).trans (h'.stored i (h.out i hi)),
    fun i => (h'.pending i).trans (h.pending i)⟩

theorem Onward.trans' (h : Onward 0 s s₁) (h' : Onward k s₁ s₂) : Onward k s s₂ := by
  simpa using h.trans h'

/-- A player that is out has no open channel. -/
def Shut (s : Session n I S) (i : Fin n) : Prop :=
  ∃ peer, s.players i = .remote peer ∧ peer.events.closed = true

theorem Later.shut (h : Later k s s₁) {i : Fin n} (hi : s.Shut i) : s₁.Shut i := by
  obtain ⟨peer, hp, hclosed⟩ := hi
  have hkept := h.kept i
  rw [hp] at hkept
  generalize hp' : s₁.players i = p at hkept
  cases hkept with
  | remote _ peer' _ _ hkeeps => exact ⟨peer', hp', hkeeps hclosed⟩

/-- What settles a changed session. -/
theorem Settled.of_kept (hs : s.Settled) (hidle : s₁.sync.rollingBack = false)
    (hlabelled : s₁.sync.LabelledTo s₁.sync.frameCount)
    (hkept : ∀ i, (s.players i).Kept (s₁.players i))
    (hstatus : ∀ i, (s₁.status i).disconnected = true → (s.status i).disconnected = true ∨
      ∃ peer, s₁.players i = .remote peer ∧ peer.events.closed = true ∧ peer.state = .disconnected)
    (hsync : s₁.synchronizing = s.synchronizing) : s₁.Settled := by
  have hremote : ∀ i peer', s₁.players i = .remote peer' → ∃ peer, s.players i = .remote peer ∧
      peer'.peerConnectStatus = peer.peerConnectStatus ∧ peer.state.Leads peer'.state ∧
      (peer.events.closed = true → peer'.events.closed = true) := by
    intro i peer' hp'
    have hk := hkept i
    rw [hp'] at hk
    generalize s.players i = p at hk
    cases hk with
    | remote peer _ h₁ h₂ h₃ => exact ⟨peer, rfl, h₁, h₂, h₃⟩
  refine ⟨hidle, hlabelled, fun i hlocal => ?_, fun i peer' hp' => ?_, fun i peer' hp' hd => ?_,
    fun hrun i peer' hp' => ?_⟩
  · rw [(hkept i).isLocal] at hlocal
    by_contra hd
    rcases hstatus i (by simpa using hd) with hd' | ⟨peer, hp, -⟩
    · simp [hs.home i hlocal] at hd'
    · have hk := hkept i
      rw [hp] at hk
      have hremote := hk.isLocal
      rw [hlocal] at hremote
      exact absurd hremote Bool.false_ne_true
  · obtain ⟨peer, hp, hown, -, -⟩ := hremote i peer' hp'
    rw [hown, hs.own i peer hp]
  · rcases hstatus i hd with hd' | ⟨peer, hp, hclosed, hstate⟩
    · obtain ⟨peer, hp, -, hleads, hkeeps⟩ := hremote i peer' hp'
      obtain ⟨hclosed, hover⟩ := hs.shut i peer hp hd'
      exact ⟨hkeeps hclosed, hleads.ended hover⟩
    · obtain rfl := PlayerType.remote.inj (hp.symm.trans hp')
      exact ⟨hclosed, hstate⟩
  · obtain ⟨peer, hp, -, hleads, -⟩ := hremote i peer' hp'
    rcases hs.met (hsync ▸ hrun) i peer hp with hrun' | hover
    · exact hleads.running hrun'
    · exact .inr (hleads.ended hover)

/-- Nothing but the `Sync` changes. -/
theorem Onward.of_sync {sync : Sync n I S} {added : Fin n → Prop} (hs : s.Settled)
    (hcalm : Sync.Calm added s.sync sync) (hlabelled : sync.LabelledTo sync.frameCount)
    (hcount : sync.frameCount = s.sync.frameCount + k)
    (hadded : ∀ i, (s.status i).disconnected = true → ¬added i) :
    Onward k s { s with sync := sync } := by
  have hstatus : ∀ i, ({ s with sync := sync } : Session n I S).status i = s.status i :=
    fun i => congrFun hcalm.statuses i
  refine ⟨⟨hs.of_kept (hcalm.idle hs.idle) hlabelled (fun _ => .refl _) (fun i hd => .inl ?_) rfl,
    fun _ => .refl _, fun i hd => ?_, id, hcount⟩, fun i _ => ?_,
    fun i hd => hcalm.stored i (hadded i hd), fun _ => rfl⟩
  · rwa [hstatus] at hd
  · rwa [hstatus]
  · rw [hstatus]

theorem Steady.of_sync {sync : Sync n I S} (hs : s.Settled)
    (hcalm : Sync.Calm (fun _ => False) s.sync sync) (hlabelled : sync.LabelledTo sync.frameCount)
    (hcount : sync.frameCount = s.sync.frameCount + k) :
    Steady k s { s with sync := sync } :=
  ⟨(Onward.of_sync hs hcalm hlabelled hcount fun _ _ => id).toLater, hcalm.statuses,
    fun i => hcalm.stored i id, fun _ => rfl⟩

/-- Nothing but what is shared with the peers changes. -/
theorem Later.of_players {players : Fin n → PlayerType I} (hs : s.Settled)
    (hkept : ∀ i, (s.players i).Kept (players i)) : Later 0 s { s with players := players } :=
  ⟨hs.of_kept hs.idle hs.labelled hkept (fun _ => .inl) rfl, hkept, fun _ => id, id, by simp⟩

theorem Steady.of_players {players : Fin n → PlayerType I} (hs : s.Settled)
    (hkept : ∀ i, (s.players i).Kept (players i))
    (hpending : ∀ i, (players i).pending = (s.players i).pending) :
    Steady 0 s { s with players := players } :=
  ⟨.of_players hs hkept, rfl, fun _ => .refl _, hpending⟩

theorem Steady.mapPeers {f : Fin n → Peer I → Peer I} (hs : s.Settled)
    (hstatus : ∀ i peer, (f i peer).peerConnectStatus = peer.peerConnectStatus)
    (hstate : ∀ i (peer : Peer I), peer.state.Leads (f i peer).state)
    (hclosed : ∀ i (peer : Peer I), peer.events.closed = true → (f i peer).events.closed = true)
    (hpending : ∀ i peer, (f i peer).inputEncoder.pending = peer.inputEncoder.pending) :
    Steady 0 s { s with players := fun i => (s.players i).mapPeer (f i) } := by
  refine .of_players hs (fun i => PlayerType.mapPeer_kept (hstatus i) (hstate i) (hclosed i))
    fun i => ?_
  cases s.players i with
  | localPlayer => rfl
  | remote peer => exact hpending i peer

theorem Steady.checkInitialSync (hs : s.Settled) : Steady 0 s s.checkInitialSync.2 := by
  unfold Session.checkInitialSync
  split
  · next hsync =>
    refine ⟨⟨⟨hs.idle, hs.labelled, hs.home, hs.own, hs.shut, fun _ i peer hp => ?_⟩,
      fun _ => .refl _, fun _ => id, fun _ => rfl, by simp⟩, rfl, fun _ => .refl _, fun _ => rfl⟩
    have hall := List.all_eq_true.mp hsync.2 i (List.mem_finRange i)
    change s.players i = .remote peer at hp
    simp only [hp, PlayerType.isLocal, PlayerType.peer?, PlayerType.isSynchronized,
      Option.isNone_some, Bool.false_or, Bool.or_eq_true] at hall
    rcases hall with hrun | hd
    · exact .inl hrun
    · exact .inr (hs.shut i peer hp hd).2
  · exact .refl hs

/-- A player that is put out, before the simulation is adjusted. -/
def drop (s : Session n I S) (queue : Fin n) (syncto : ℤ) : Session n I S :=
  { s with players := Function.update s.players queue (s.players queue).disconnect }.setStatus
    queue ⟨true, syncto⟩

theorem Removed.drop (hs : s.Settled) {queue : Fin n} (hremote : (s.players queue).isLocal = false)
    (syncto : ℤ) : Removed queue syncto s (s.drop queue syncto) := by
  have hplayers : (s.drop queue syncto).players =
      Function.update s.players queue (s.players queue).disconnect := rfl
  have hkept : ∀ i, (s.players i).Kept ((s.drop queue syncto).players i) := by
    intro i
    rw [hplayers]
    by_cases hi : i = queue
    · subst hi
      simpa using PlayerType.disconnect_kept _
    · simpa [hi] using PlayerType.Kept.refl _
  have hout : ∀ i, i ≠ queue → (s.drop queue syncto).status i = s.status i := fun i hi =>
    Function.update_of_ne hi _ _
  have hself : (s.drop queue syncto).status queue = ⟨true, syncto⟩ := Function.update_self _ _ _
  have hsettled : (s.drop queue syncto).Settled := by
    refine hs.of_kept hs.idle hs.labelled hkept (fun i hd => ?_) rfl
    by_cases hi : i = queue
    · subst hi
      right
      cases hp : s.players i with
      | localPlayer => simp [hp, PlayerType.isLocal, PlayerType.peer?] at hremote
      | remote peer =>
        exact ⟨peer.disconnect, by simp [hplayers, hp, PlayerType.disconnect, PlayerType.mapPeer],
          rfl, rfl⟩
    · left
      rwa [hout i hi] at hd
  refine ⟨⟨hsettled, hkept, fun i hd => ?_, id, ?_⟩, rfl, fun _ => .refl _, fun i => ?_⟩
  · by_cases hi : i = queue
    · subst hi
      rw [hself]
    · rwa [hout i hi]
  · show s.sync.frameCount = _
    simp
  · rw [hplayers]
    by_cases hi : i = queue
    · subst hi
      rw [Function.update_self]
      cases s.players i <;> rfl
    · rw [Function.update_of_ne hi]

theorem setLastFrame_onward (hs : s.Settled) {queue : Fin n}
    (hin : (s.status queue).disconnected = false) (frame : ℤ) :
    Onward 0 s (s.setStatus queue { s.status queue with lastFrame := frame }) := by
  have hflag : ∀ i, ((s.setStatus queue { s.status queue with lastFrame := frame }).status
      i).disconnected = (s.status i).disconnected := by
    intro i
    by_cases hi : i = queue
    · subst hi
      simp [setStatus, status]
    · simp [setStatus, status, hi]
  refine ⟨⟨hs.of_kept hs.idle hs.labelled (fun _ => .refl _) (fun i hd => .inl ?_) rfl,
    fun _ => .refl _, fun i hd => ?_, id, by simp [setStatus]⟩, fun i hd => ?_, fun _ _ => .refl _,
    fun _ => rfl⟩
  · rwa [hflag] at hd
  · rwa [hflag]
  · have hi : i ≠ queue := by
      rintro rfl
      simp [hin] at hd
    simp [setStatus, status, hi]

/-- A queue takes an input. -/
theorem Onward.of_add {sync : Sync n I S} (hs : s.Settled) {queue : Fin n}
    (hin : (s.status queue).disconnected = false) (hcalm : Sync.Calm (· = queue) s.sync sync)
    (hsaved : sync.savedState = s.sync.savedState) (hcount : sync.frameCount = s.sync.frameCount) :
    Onward 0 s { s with sync := sync } := by
  refine .of_sync hs hcalm (fun c => ?_) (by simp [hcount]) fun i hd hi => ?_
  · rw [hsaved, hcount]
    exact hs.labelled c
  · subst hi
    simp [hin] at hd

theorem tellFrame_steady (hs : s.Settled) : Steady 0 s s.tellFrame :=
  .mapPeers hs (fun _ _ => rfl) (fun _ _ => .refl _) (fun _ _ h => h) fun _ _ => rfl

variable [Build]

theorem setFrameDelay_steady (hs : s.Settled) (player : ℕ) (delay : ℤ) :
    Ends (s.setFrameDelay player delay) (fun r => Steady 0 s r.2) fun _ => True := by
  unfold setFrameDelay playerHandleToQueue
  split
  · exact .refl hs
  · have hcount : ∀ queue, Ends (s.sync.setFrameDelay queue delay) (fun sync =>
        sync.savedState = s.sync.savedState ∧ sync.frameCount = s.sync.frameCount)
        fun _ => True := fun queue => .bind_any fun _ => ⟨rfl, rfl⟩
    refine ((Sync.setFrameDelay_calm (fun _ => False) s.sync _ delay).and (hcount _)).bind
      fun sync hsync => ?_
    obtain ⟨hcalm, hsaved, hcount⟩ := hsync
    refine .of_sync hs hcalm (fun c => ?_) (by simp [hcount])
    rw [hsaved, hcount]
    exact hs.labelled c

variable [Zeroable I]

/-- A rollback, whatever it goes back to. -/
theorem adjustSimulation_steady (hs : s.Settled) (seekTo : ℤ) :
    Ends (s.sync.adjustSimulation seekTo) (fun r => Steady 0 s { s with sync := r.2 })
      fun _ => True := by
  have hcalm := Sync.adjustSimulation_calm (fun _ => False) s.sync seekTo
  have hcounts := Sync.adjustSimulation_counts hs.labelled seekTo
  exact (hcalm.and hcounts).imp fun r hr => .of_sync hs hr.1 hr.2.1 (by simpa using hr.2.2)

theorem checkSimulation_steady (hs : s.Settled) :
    Ends s.sync.checkSimulation (fun r => Steady 0 s { s with sync := r.2 }) fun _ => True := by
  unfold Sync.checkSimulation
  split
  · exact adjustSimulation_steady hs _
  · exact .refl hs

theorem incrementFrame_steady (hs : s.Settled) :
    Ends s.sync.incrementFrame (fun r => Steady 1 s { s with sync := r.2 }) fun _ => True := by
  have hlabelled : s.sync.LabelledTo (s.sync.frameCount + 1) := fun c =>
    (hs.labelled c).trans (by omega)
  refine ((Sync.incrementFrame_calm (fun _ => False) s.sync).and
    (Sync.incrementFrame_counts le_rfl hlabelled)).imp fun r hr => ?_
  obtain ⟨hcalm, hlab, hcount⟩ := hr
  exact .of_sync hs hcalm (by rwa [hcount]) (by simp [hcount])

theorem disconnectPlayerQueue_removes (hs : s.Settled) {queue : Fin n}
    (hremote : (s.players queue).isLocal = false) (syncto : ℤ) :
    Ends (s.disconnectPlayerQueue queue syncto) (fun r => Removed queue syncto s r.2)
      fun _ => True := by
  have hdrop := Removed.drop hs hremote syncto
  unfold disconnectPlayerQueue
  change Ends (if syncto < s.sync.frameCount then
      (s.drop queue syncto).sync.adjustSimulation syncto >>= _ else _) _ _
  split
  · refine (adjustSimulation_steady hdrop.settled syncto).bind fun r hr => ?_
    exact (hdrop.trans hr).trans (.checkInitialSync hr.settled)
  · exact hdrop.trans (.checkInitialSync hdrop.settled)

/-- Where no frame is to be simulated again, nothing can fail. -/
theorem disconnectPlayerQueue_here (hs : s.Settled) {queue : Fin n}
    (hremote : (s.players queue).isLocal = false) {syncto : ℤ} (hle : s.sync.frameCount ≤ syncto) :
    Ends (s.disconnectPlayerQueue queue syncto) (fun r => Removed queue syncto s r.2)
      fun _ => False := by
  have hdrop := Removed.drop hs hremote syncto
  unfold disconnectPlayerQueue
  change Ends (if syncto < s.sync.frameCount then
      (s.drop queue syncto).sync.adjustSimulation syncto >>= _ else _) _ _
  rw [if_neg (not_lt.mpr hle)]
  exact hdrop.trans (.checkInitialSync hdrop.settled)

/-- What a remote player's disconnection does, when it does not fail. -/
theorem disconnectPlayer_remote (hs : s.Settled) {queue : Fin n}
    (hremote : (s.players queue).isLocal = false) :
    Ends (s.disconnectPlayer queue) (fun r => match r.1 with
      | .ok _ => (s.status queue).disconnected = false ∧
        Removed queue (s.status queue).lastFrame s r.2
      | .error _ => (s.status queue).disconnected = true ∧ r.2 = s) fun _ => True := by
  have hqueue : s.playerHandleToQueue queue = .ok queue := by simp [playerHandleToQueue]
  unfold disconnectPlayer
  rw [hqueue]
  dsimp only
  split
  · next hd => exact ⟨hd, rfl⟩
  · next hd =>
    rw [if_neg (by simp [hremote])]
    refine (disconnectPlayerQueue_removes hs hremote _).bind fun r hr => ?_
    exact ⟨by simpa using hd, hr⟩

/-- What the disconnection of a local player does: all remote ones are put out by the frame the
session is at. -/
theorem disconnectPlayer_local (hs : s.Settled) {queue : Fin n}
    (hlocal : (s.players queue).isLocal = true) :
    Ends (s.disconnectPlayer queue) (fun r => Later 0 s r.2 ∧
      (∀ i, r.2.status i = if (s.players i).isLocal = true then s.status i
        else ⟨true, s.sync.frameCount⟩) ∧
      (∀ i, (s.sync.inputQueues i).SameInputs (r.2.sync.inputQueues i)) ∧
      ∀ i, (r.2.players i).pending = (s.players i).pending) fun _ => False := by
  have hqueue : s.playerHandleToQueue queue = .ok queue := by simp [playerHandleToQueue]
  unfold disconnectPlayer
  rw [hqueue]
  dsimp only
  rw [if_neg (by simp [hs.home queue hlocal]), if_pos hlocal]
  refine (Fallible.forEach_ends (fun k (r : List (Command I) × Session n I S) =>
    Later 0 s r.2 ∧
      (∀ i : Fin n, r.2.status i = if i < k ∧ (s.players i).isLocal = false then
        ⟨true, s.sync.frameCount⟩ else s.status i) ∧
      (∀ i, (s.sync.inputQueues i).SameInputs (r.2.sync.inputQueues i)) ∧
      ∀ i, (r.2.players i).pending = (s.players i).pending) ?_ ?_).bind fun r hr => ?_
  · exact ⟨(Steady.refl hs).toLater, fun i => by simp, fun _ => .refl _, fun _ => rfl⟩
  · rintro i ⟨commands, s₁⟩ ⟨hlater, hstatus, hstored, hpending⟩
    dsimp only at hlater hstatus hstored hpending ⊢
    split
    · next hi =>
      rw [(hlater.kept i).isLocal] at hi
      refine ⟨hlater, fun j => ?_, hstored, hpending⟩
      rw [hstatus]
      congr 1
      refine propext (and_congr_left fun hj => ?_)
      have hne : j.val ≠ i.val := by
        intro heq
        obtain rfl : j = i := Fin.ext heq
        simp [hi] at hj
      omega
    · next hi =>
      have hremote : (s₁.players i).isLocal = false := by simpa using hi
      have hremote' := hremote
      rw [(hlater.kept i).isLocal] at hremote'
      have hcount : s₁.sync.frameCount = s.sync.frameCount := by simpa using hlater.count
      refine (disconnectPlayerQueue_here hlater.settled hremote hcount.le).bind fun r hr => ?_
      refine ⟨hlater.trans hr.toLater, fun j => ?_, fun j => (hstored j).trans (hr.stored j),
        fun j => (hr.pending j).trans (hpending j)⟩
      rw [status, hr.statuses]
      by_cases hj : j = i
      · subst hj
        rw [Function.update_self, if_pos ⟨Nat.lt_succ_self _, hremote'⟩]
      · rw [Function.update_of_ne hj]
        refine (hstatus j).trans ?_
        congr 1
        refine propext (and_congr_left fun _ => ?_)
        have hne : j.val ≠ i.val := fun h => hj (Fin.ext h)
        omega
  · obtain ⟨hlater, hstatus, hstored, hpending⟩ := hr
    refine ⟨hlater, fun i => (hstatus i).trans ?_, hstored, hpending⟩
    cases hi : (s.players i).isLocal <;> simp

theorem disconnectPlayer_later (hs : s.Settled) (player : ℕ) :
    Ends (s.disconnectPlayer player) (fun r => Later 0 s r.2 ∧
      ∀ j, (r.2.players j).pending = (s.players j).pending) fun _ => True := by
  by_cases hplayer : player < n
  · cases hlocal : (s.players ⟨player, hplayer⟩).isLocal with
    | true =>
      exact (disconnectPlayer_local hs hlocal).mono (fun r hr => ⟨hr.1, hr.2.2.2⟩) fun _ he => he.elim
    | false =>
      refine (disconnectPlayer_remote hs hlocal).imp fun r hr => ?_
      obtain ⟨result, s'⟩ := r
      cases result with
      | error err =>
        obtain rfl : s' = s := hr.2
        exact ⟨(Steady.refl hs).toLater, fun _ => rfl⟩
      | ok commands => exact ⟨hr.2.toLater, hr.2.pending⟩
  · simp only [disconnectPlayer, playerHandleToQueue, dif_neg hplayer]
    exact ⟨(Steady.refl hs).toLater, fun _ => rfl⟩

end Session

end Backroll

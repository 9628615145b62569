import Backroll.Protocol.Endpoint

/-! What a peer says and how its state moves while it synchronizes: requests carry its own random
number, replies that of the request they answer, and only replies to its own requests count. -/
namespace Backroll

open Fallible (Ends)

variable {I : Type}

namespace PeerState

/-- The reply counts as one to the request that the peer repeats. -/
def counts (state : PeerState) (data : MessageData) : Bool :=
  match state.random?, data with
  | some random, .syncReply random' => random' = random
  | _, _ => false

theorem counts_reply {state : PeerState} {data : MessageData} (h : state.counts data = true) :
    ∃ random, data = .syncReply random := by
  cases data with
  | syncReply random => exact ⟨random, rfl⟩
  | _ => cases state <;> simp [counts, random?] at h

/-- The state after a reply that counts, from an endpoint with this magic. -/
def advance (magic : ℕ) : PeerState → PeerState
  | connecting random => syncing random numSyncPackets
  | syncing random roundtripsRemaining =>
    if (roundtripsRemaining + 255) % 256 = 0 then running magic
    else syncing random ((roundtripsRemaining + 255) % 256)
  | state => state

/-- What a peer in this state may say when it handles a message. -/
structure Says (state : PeerState) (heard said : MessageData) : Prop where
  request : ∀ random, said = .syncRequest random → state.random? = some random
  reply : ∀ random, said = .syncReply random → heard = .syncRequest random

end PeerState

namespace Peer

/-- Some messages are queued to be sent, all of them allowed. -/
structure Queues (allowed : MessageData → Prop) (p p' : Peer I) : Prop where
  messageIn : p'.messageIn.queue = p.messageIn.queue
  messageOut : ∃ news, p'.messageOut.queue = p.messageOut.queue ++ news ∧ ∀ said ∈ news, allowed said

variable {allowed : MessageData → Prop} {p p₁ p₂ : Peer I}

theorem Queues.of_eq (hin : p₁.messageIn.queue = p.messageIn.queue)
    (hout : p₁.messageOut.queue = p.messageOut.queue) : Queues allowed p p₁ := ⟨hin, [], by simp [hout], by simp⟩

theorem Queues.refl (p : Peer I) : Queues allowed p p := .of_eq rfl rfl

theorem Queues.trans (h : Queues allowed p p₁) (h' : Queues allowed p₁ p₂) : Queues allowed p p₂ := by
  obtain ⟨hin, news, hout, hnews⟩ := h
  obtain ⟨hin', news', hout', hnews'⟩ := h'
  refine ⟨hin'.trans hin, news ++ news', by rw [hout', hout, List.append_assoc], fun said hsaid => ?_⟩
  rcases List.mem_append.mp hsaid with hsaid | hsaid
  · exact hnews said hsaid
  · exact hnews' said hsaid

theorem Queues.after (h : Queues allowed p₁ p₂) (hin : p₁.messageIn.queue = p.messageIn.queue)
    (hout : p₁.messageOut.queue = p.messageOut.queue) : Queues allowed p p₂ :=
  (Queues.of_eq hin hout).trans h

theorem send_queues (p : Peer I) {msg : MessageData} (h : allowed msg) :
    Queues allowed p (p.send msg).2 ∧ (p.send msg).2.state = p.state := by
  unfold send Channel.trySend
  split
  · next messageOut hsend =>
    split at hsend
    · simp at hsend
    · obtain rfl := Option.some.inj hsend
      exact ⟨⟨rfl, [msg], rfl, by simpa using h⟩, rfl⟩
  · exact ⟨.refl p, rfl⟩

theorem pushEvent_queues (p : Peer I) (evt : ProtocolEvent I) :
    Queues allowed p (p.pushEvent evt).2 ∧ (p.pushEvent evt).2.state = p.state := by
  unfold pushEvent
  split
  · exact ⟨⟨rfl, [], by simp, by simp⟩, rfl⟩
  · exact ⟨.refl p, rfl⟩

/-- What handling a message does: unless it fails for good, only a reply that counts moves the
state. -/
structure Handles (message : Message) (p : Peer I) (r : Except PeerError Unit × Peer I) : Prop where
  queues : Queues (p.state.Says message.data) p r.2
  state : r.1 = .ok () ∨ r.1 = .error .invalidMessage →
    r.2.state = if p.state.counts message.data then p.state.advance message.magic else p.state

theorem Handles.same {message : Message} {r : Except PeerError Unit × Peer I}
    (hqueues : Queues (p.state.Says message.data) p r.2) (hstate : r.2.state = p.state)
    (hcounts : p.state.counts message.data = false) : Handles message p r :=
  ⟨hqueues, fun _ => by rw [hstate, hcounts]; rfl⟩

theorem pushEvent_state (p : Peer I) (evt : ProtocolEvent I) : (p.pushEvent evt).2.state = p.state :=
  have h : Queues (fun _ => True) p (p.pushEvent evt).2 ∧ (p.pushEvent evt).2.state = p.state :=
    pushEvent_queues p evt
  h.2

theorem pushEvent_error {evt : ProtocolEvent I} {err : PeerError}
    (h : p.pushEvent evt = (.error err, p₁)) : err = .localDisconnected := by
  unfold pushEvent at h
  split at h
  · simp at h
  · simpa [eq_comm] using (Prod.mk.inj h).1

theorem Handles.failed {message : Message} {err : PeerError}
    (hqueues : Queues (p.state.Says message.data) p p₁) (herr : err ≠ .invalidMessage) :
    Handles message p (.error err, p₁) := by
  refine ⟨hqueues, fun h => ?_⟩
  rcases h with h | h
  · simp at h
  · exact absurd (Except.error.inj h) herr

theorem onSyncRequest_handles (p : Peer I) (magic random : ℕ) (seq : UInt16) :
    Handles ⟨magic, seq, .syncRequest random⟩ p (p.onSyncRequest magic random) := by
  have hcounts : p.state.counts (.syncRequest random) = false := by
    unfold PeerState.counts
    cases p.state.random? <;> rfl
  have hsaid : p.state.Says (.syncRequest random) (.syncReply random) :=
    ⟨fun r hr => by simp at hr, fun r hr => by simpa using hr⟩
  obtain ⟨hqueues, hstate⟩ := send_queues p hsaid
  unfold onSyncRequest
  split
  · split
    · exact .same (.refl p) rfl hcounts
    · exact .same hqueues hstate hcounts
  · exact .same hqueues hstate hcounts

variable [Build]

theorem onSyncReply_handles (p : Peer I) (now magic random : ℕ) (seq : UInt16) :
    Ends (p.onSyncReply now magic random) (Handles ⟨magic, seq, .syncReply random⟩ p) fun _ => True := by
  unfold onSyncReply
  split
  · next hother =>
    refine .same (.refl p) rfl ?_
    cases hrandom : p.state.random? with
    | none => simp [hrandom] at hother
    | some random' =>
      have hne : random' ≠ random := by simpa [hrandom] using hother
      simp [PeerState.counts, hrandom, hne.symm]
  · next hsame =>
    split
    · next random' hstate =>
      obtain rfl : random' = random := by simpa [hstate, PeerState.random?] using hsame
      have hcounts : p.state.counts (.syncReply random') = true := by
        simp [PeerState.counts, hstate, PeerState.random?]
      have hsaid : p.state.Says (.syncReply random') (.syncRequest random') :=
        ⟨fun r hr => by simpa [hstate, PeerState.random?] using hr, fun r hr => by simp at hr⟩
      have hpush : Queues (p.state.Says (.syncReply random')) p (p.pushEvent .connected).2 ∧
          (p.pushEvent .connected).2.state = p.state := pushEvent_queues p .connected
      split
      · next err p₁ hpushed =>
        rw [hpushed] at hpush
        exact .failed hpush.1 (by simp [pushEvent_error hpushed])
      · next p₁ hpushed =>
        rw [hpushed] at hpush
        obtain ⟨hqueues, hstate₁⟩ := hpush
        rw [hstate₁, hstate]
        dsimp only [PeerState.startSyncing, PeerState.createSyncRequest, Fallible.ok_bind]
        obtain ⟨hsend, hstate₂⟩ := send_queues { p₁ with state := .syncing random' numSyncPackets } hsaid
        refine ⟨hqueues.trans (hsend.after rfl rfl), fun _ => ?_⟩
        rw [hcounts, hstate₂, hstate]
        rfl
    · next random' remaining hstate =>
      obtain rfl : random' = random := by simpa [hstate, PeerState.random?] using hsame
      have hcounts : p.state.counts (.syncReply random') = true := by
        simp [PeerState.counts, hstate, PeerState.random?]
      have hsaid : p.state.Says (.syncReply random') (.syncRequest random') :=
        ⟨fun r hr => by simpa [hstate, PeerState.random?] using hr, fun r hr => by simp at hr⟩
      have hpush : ∀ evt, Queues (p.state.Says (.syncReply random'))
          { p with state := .syncing random' ((remaining + 255) % 256) }
          (Peer.pushEvent { p with state := .syncing random' ((remaining + 255) % 256) } evt).2 ∧ _ :=
        fun evt => pushEvent_queues _ evt
      refine .bind_any fun _ => ?_
      dsimp only
      split
      · next hzero =>
        specialize hpush .synchronized
        split
        · next err p₁ hpushed =>
          rw [hpushed] at hpush
          exact .failed (hpush.1.after rfl rfl) (by simp [pushEvent_error hpushed])
        · next p₁ hpushed =>
          rw [hpushed] at hpush
          refine ⟨.after (hpush.1.trans (.of_eq rfl rfl)) rfl rfl, fun _ => ?_⟩
          rw [hcounts, hstate]
          simp [PeerState.advance, hzero]
      · next hmore =>
        specialize hpush (.synchronizing numSyncPackets (numSyncPackets - (remaining + 255) % 256))
        split
        · next err p₁ hpushed =>
          rw [hpushed] at hpush
          exact .failed (hpush.1.after rfl rfl) (by simp [pushEvent_error hpushed])
        · next p₁ hpushed =>
          rw [hpushed] at hpush
          obtain ⟨hqueues, hstate₁⟩ := hpush
          rw [hstate₁]
          dsimp only [PeerState.createSyncRequest, Fallible.ok_bind]
          obtain ⟨hsend, hstate₂⟩ := send_queues p₁ hsaid
          refine ⟨.after (hqueues.trans hsend) rfl rfl, fun _ => ?_⟩
          rw [hcounts, hstate₂, hstate₁, hstate]
          simp [PeerState.advance, hmore]
    · next remoteMagic hstate =>
      have hcounts : p.state.counts (.syncReply random) = false := by
        simp [PeerState.counts, hstate, PeerState.random?]
      split
      · exact .same (.refl p) rfl hcounts
      · exact .same (.refl p) rfl hcounts
    · next hconnecting hsyncing hrunning =>
      refine .same (.refl p) rfl ?_
      cases hstate : p.state with
      | connecting random' => exact absurd hstate (hconnecting _)
      | syncing random' remaining => exact absurd hstate (hsyncing _ _)
      | running remoteMagic => exact absurd hstate (hrunning _)
      | interrupted remoteMagic => rfl
      | disconnected => rfl

variable [Varinteger] [Pod I]

theorem onInput_handles (p : Peer I) (now magic : ℕ) (seq : UInt16) (input : InputMessage) :
    Ends (p.onInput now input) (Handles ⟨magic, seq, .input input⟩ p) fun _ => True := by
  have hcounts : p.state.counts (.input input) = false := by
    unfold PeerState.counts
    cases p.state.random? <;> rfl
  have hsaid : ∀ frame, p.state.Says (.input input) (.inputAck frame) := fun frame =>
    ⟨fun r hr => by simp at hr, fun r hr => by simp at hr⟩
  unfold onInput
  refine .bind_any fun statuses => .bind_any fun r => ?_
  obtain ⟨decoded, decoder⟩ := r
  cases decoded with
  | error err => exact .same (.of_eq rfl rfl) rfl hcounts
  | ok inputs =>
    obtain ⟨q, hq⟩ : ∃ q : Peer I, { p with
      peerConnectStatus := statuses
      inputDecoder := decoder } = q := ⟨_, rfl⟩
    have hstart : Queues (p.state.Says (.input input)) p q := hq ▸ .of_eq rfl rfl
    have hsame : q.state = p.state := hq ▸ rfl
    have hpush : Queues (p.state.Says (.input input)) q (q.pushEvent (.inputs inputs)).2 ∧
        (q.pushEvent (.inputs inputs)).2.state = q.state := pushEvent_queues q (.inputs inputs)
    dsimp only
    rw [hq]
    by_cases hnil : inputs = []
    · rw [if_pos hnil]
      exact .same (hstart.trans (.of_eq rfl rfl)) hsame hcounts
    · rw [if_neg hnil]
      generalize q.pushEvent (.inputs inputs) = pushed at hpush ⊢
      obtain ⟨result, q₁⟩ := pushed
      obtain ⟨hqueues, hstate⟩ := hpush
      have hqueues₁ := hstart.trans hqueues
      have hstate₁ := hstate.trans hsame
      cases result with
      | error err => exact .same hqueues₁ hstate₁ hcounts
      | ok done =>
        obtain ⟨hsend, hstate₂⟩ := send_queues
          { q₁ with stats := { q₁.stats with lastInputPacketRecvTime := now } }
          (hsaid q₁.inputDecoder.lastDecoded)
        have hqueues₂ := hqueues₁.trans (hsend.after rfl rfl)
        dsimp only
        split
        · exact .same hqueues₂ (hstate₂.trans hstate₁) hcounts
        · exact .same (hqueues₂.trans (.of_eq rfl rfl)) (hstate₂.trans hstate₁) hcounts

theorem handleMessage_handles (p : Peer I) (now : ℕ) (message : Message) :
    Ends (p.handleMessage now message) (Handles message p) fun _ => True := by
  obtain ⟨magic, seq, data⟩ := message
  have hcounts : (∀ random, data ≠ .syncReply random) → p.state.counts data = false := by
    intro hdata
    unfold PeerState.counts
    cases p.state.random? with
    | none => rfl
    | some random =>
      cases data with
      | syncReply random' => exact absurd rfl (hdata random')
      | _ => rfl
  unfold handleMessage
  cases data with
  | keepAlive => exact .same (.refl p) rfl (hcounts (by simp))
  | syncRequest random => exact p.onSyncRequest_handles magic random seq
  | syncReply random => exact p.onSyncReply_handles now magic random seq
  | input input => exact p.onInput_handles now magic seq input
  | inputAck ackFrame => exact .same (.of_eq rfl rfl) rfl (hcounts (by simp))
  | qualityReport frameAdvantage ping =>
    have hsaid : p.state.Says (.qualityReport frameAdvantage ping) (.qualityReply ping) :=
      ⟨fun r hr => by simp at hr, fun r hr => by simp at hr⟩
    obtain ⟨hqueues, hstate⟩ := send_queues
      { p with stats := { p.stats with remoteFrameAdvantage := frameAdvantage } } hsaid
    exact .same (hqueues.after rfl rfl) hstate (hcounts (by simp))
  | qualityReply pong => exact .bind_any fun _ => .same (.of_eq rfl rfl) rfl (hcounts (by simp))

end Peer

namespace PeerState

/-- How a state may be found a little later. -/
def Follows (state state' : PeerState) : Prop :=
  state' = .disconnected ∨ state' = state ∨ state' = state.resume.2 ∨ state' = state.interrupt.2

theorem Follows.refl (state : PeerState) : state.Follows state := .inr (.inl rfl)

end PeerState

namespace Endpoint

theorem orEnd_peer (e : Endpoint I) (result : Except PeerError Unit × Peer I) :
    (e.orEnd result).peer = result.2 := by
  unfold orEnd
  split <;> rfl

/-- A step queues these messages, and leaves the peer in a state that follows this one. -/
structure Moves (allowed : MessageData → Prop) (next : PeerState) (e e' : Endpoint I) : Prop where
  queues : Peer.Queues allowed e.peer e'.peer
  state : next.Follows e'.peer.state

/-- A poll sends nothing, or repeats the request of the peer. -/
theorem poll_sends (p : Peer I) (now : ℕ) : Ends (p.poll now) (fun r => r = (.ok (), p) ∨
    ∃ random, p.state.random? = some random ∧ r = p.send (.syncRequest random)) fun _ => True := by
  have hrequest : Ends (do
      let request ← p.state.createSyncRequest
      return p.send request) (fun r => r = (.ok (), p) ∨
        ∃ random, p.state.random? = some random ∧ r = p.send (.syncRequest random)) fun _ => True := by
    unfold PeerState.createSyncRequest
    split
    · next hstate => exact .inr ⟨_, by rw [hstate]; rfl, rfl⟩
    · next hstate => exact .inr ⟨_, by rw [hstate]; rfl, rfl⟩
    · trivial
  have hretry : ∀ lastSendTime nextInterval, Ends (if lastSendTime + nextInterval < now then do
      let request ← p.state.createSyncRequest
      return p.send request
    else return (.ok (), p)) (fun r => r = (.ok (), p) ∨
      ∃ random, p.state.random? = some random ∧ r = p.send (.syncRequest random)) fun _ => True := by
    intro lastSendTime nextInterval
    split
    · exact hrequest
    · exact .inl rfl
  unfold Peer.poll
  cases p.stats.lastSendTime with
  | none =>
    dsimp only
    split
    · exact hrequest
    · exact hrequest
    · exact .inl rfl
  | some lastSendTime =>
    dsimp only
    split
    · exact hretry _ _
    · exact hretry _ _
    · exact .inl rfl

theorem poll_queues (p : Peer I) (now : ℕ) : Ends (p.poll now) (fun r =>
    Peer.Queues (fun said => ∀ random, said ≠ .syncReply random) p r.2 ∧ r.2.state = p.state)
    fun _ => True := by
  refine (poll_sends p now).imp fun r hr => ?_
  rcases hr with rfl | ⟨random, -, rfl⟩
  · exact ⟨.refl p, rfl⟩
  · exact p.send_queues fun _ => by simp

variable [Build]

theorem notice_moves (e : Endpoint I) (now : ℕ) : Ends (e.notice now)
    (Moves (fun said => ∀ random, said ≠ .syncReply random) e.peer.state e) fun _ => True := by
  unfold notice
  refine .bind_any fun silent => ?_
  split
  · exact ⟨.refl _, .refl _⟩
  · split
    · trivial
    · refine ⟨?_, ?_⟩ <;> rw [orEnd_peer]
      · exact (Peer.pushEvent_queues _ _).1.after rfl rfl
      · rw [Peer.pushEvent_state]
        exact .inr (.inr (.inr rfl))

theorem expire_moves (e : Endpoint I) (now : ℕ) : Ends (e.expire now)
    (fun e' => Peer.Queues (fun said => ∀ random, said ≠ .syncReply random) e.peer e'.peer ∧
      (e'.peer.state = .disconnected ∨ e'.peer.state = e.peer.state)) fun _ => True := by
  unfold expire
  refine .bind_any fun late => ?_
  split
  · exact ⟨.of_eq rfl rfl, .inl rfl⟩
  · refine (poll_queues e.peer now).bind fun r hr => ?_
    show Peer.Queues _ e.peer (e.orEnd r).peer ∧ _
    rw [orEnd_peer]
    exact ⟨hr.1, .inr hr.2⟩

theorem tick_moves (e : Endpoint I) (now : ℕ) : Ends (e.tick now)
    (Moves (fun said => ∀ random, said ≠ .syncReply random) e.peer.state e) fun _ => True := by
  unfold tick
  split
  · exact ⟨.refl _, .refl _⟩
  · refine (e.notice_moves now).bind fun e₁ hnotice => ?_
    split
    · exact hnotice
    · refine (e₁.expire_moves now).imp fun e₂ hexpire => ⟨hnotice.queues.trans hexpire.1, ?_⟩
      rcases hexpire.2 with hstate | hstate
      · exact .inl hstate
      · rw [hstate]
        exact hnotice.state

variable [Varinteger] [Pod I]

theorem takeUp_moves (e : Endpoint I) (now : ℕ) (message : Message) : Ends (e.takeUp now message)
    (Moves (e.peer.state.Says message.data) (if e.peer.state.counts message.data then
      e.peer.state.advance message.magic else e.peer.state) e) fun _ => True := by
  unfold takeUp
  refine (e.peer.handleMessage_handles now message).bind fun r hr => ?_
  obtain ⟨result, p⟩ := r
  have hqueues := hr.queues
  cases result with
  | error err =>
    cases err with
    | invalidMessage => exact ⟨hqueues, .inr (.inl (hr.state (.inr rfl)))⟩
    | localDisconnected => exact ⟨hqueues.trans (.of_eq rfl rfl), .inl rfl⟩
    | remoteDisconnected => exact ⟨hqueues.trans (.of_eq rfl rfl), .inl rfl⟩
  | ok done =>
    have hstate := hr.state (.inl rfl)
    dsimp only
    split
    · next state hresume =>
      refine ⟨?_, .inr (.inr (.inl ?_))⟩
      · rw [orEnd_peer]
        exact hqueues.trans ((Peer.pushEvent_queues _ _).1.after rfl rfl)
      · rw [orEnd_peer, Peer.pushEvent_state, ← hstate]
        exact (congrArg Prod.snd hresume).symm
    · exact ⟨hqueues, .inr (.inl hstate)⟩

theorem handle_eq_takeUp {e : Endpoint I} {message : Message} {rest : List Message} (hlive : e.ended = false)
    (hqueue : e.peer.messageIn.queue = message :: rest) (now : ℕ) :
    e.handle now = e.dropMessage.takeUp now message := by
  unfold handle
  rw [hlive, hqueue]

end Endpoint

end Backroll

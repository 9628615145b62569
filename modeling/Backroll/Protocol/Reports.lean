import Backroll.Protocol.Exchange

/-! The events that a message makes the task of a peer hand to its session. -/
namespace Backroll

open Fallible (Ends)

variable {I : Type}

/-- The event by which a reply that counts is reported. -/
def PeerState.announced (state : PeerState) (data : MessageData) : List (ProtocolEvent I) :=
  match state with
  | connecting _ => if state.counts data then [.connected] else []
  | syncing _ roundtripsRemaining =>
    if state.counts data then
      if (roundtripsRemaining + 255) % 256 = 0 then [.synchronized]
      else [.synchronizing numSyncPackets (numSyncPackets - (roundtripsRemaining + 255) % 256)]
    else []
  | _ => []

theorem PeerState.announced_eq_nil {state : PeerState} {data : MessageData}
    (h : state.counts data = false) : state.announced data = ([] : List (ProtocolEvent I)) := by
  cases state <;> simp [announced, h]

/-- What may be reported of a message: a step of the handshake, or some inputs. -/
def PeerState.Announces (state : PeerState) (data : MessageData) (news : List (ProtocolEvent I)) : Prop :=
  news = state.announced data ∨
    state.announced data = ([] : List (ProtocolEvent I)) ∧ ∃ inputs, news = [.inputs inputs]

namespace Peer

/-- The channel of the events is closed just when the peer is disconnected. -/
def Paired (p : Peer I) : Prop := p.events.closed = true ↔ p.state = .disconnected

/-- Unless their channel is closed, such events are reported; the channel to the task stays. -/
structure Reports (allowed : List (ProtocolEvent I) → Prop) (p p' : Peer I) : Prop where
  messageIn : p'.messageIn = p.messageIn
  closed : p'.events.closed = p.events.closed
  events : ∃ news, p'.events.queue = p.events.queue ++ news ∧
    (p.events.closed = true → news = []) ∧ (p.events.closed = false → allowed news)

variable {allowed : List (ProtocolEvent I) → Prop} {p p₁ p₂ : Peer I}

theorem Paired.opened (hp : p.Paired) (h : p.state ≠ .disconnected) : p.events.closed = false :=
  Bool.eq_false_iff.mpr fun hclosed => h (hp.mp hclosed)

theorem Reports.of_eq (hin : p₁.messageIn = p.messageIn) (hevents : p₁.events = p.events)
    (hnone : allowed []) : Reports allowed p p₁ :=
  ⟨hin, by rw [hevents], [], by simp [hevents], fun _ => rfl, fun _ => hnone⟩

theorem Reports.after (h : Reports allowed p₁ p₂) (hin : p₁.messageIn = p.messageIn)
    (hevents : p₁.events = p.events) : Reports allowed p p₂ := by
  obtain ⟨hin', hclosed, hnews⟩ := h
  rw [hevents] at hclosed hnews
  exact ⟨hin'.trans hin, hclosed, hnews⟩

theorem Reports.before (h : Reports allowed p p₁) (hin : p₂.messageIn = p₁.messageIn)
    (hevents : p₂.events = p₁.events) : Reports allowed p p₂ :=
  ⟨hin.trans h.messageIn, by rw [hevents, h.closed], by rw [hevents]; exact h.events⟩

theorem pushEvent_reports (p : Peer I) {evt : ProtocolEvent I} (h : allowed [evt]) :
    Reports allowed p (p.pushEvent evt).2 := by
  unfold pushEvent Channel.trySend
  cases hclosed : p.events.closed with
  | true => exact ⟨rfl, rfl, [], by simp, fun _ => rfl, fun hopen => by simp [hclosed] at hopen⟩
  | false => exact ⟨rfl, hclosed.symm, [evt], rfl, fun h => by simp [hclosed] at h, fun _ => h⟩

theorem pushEvent_messageIn (p : Peer I) (evt : ProtocolEvent I) :
    (p.pushEvent evt).2.messageIn = p.messageIn := by
  unfold pushEvent Channel.trySend
  cases p.events.closed <;> rfl

theorem pushEvent_isClosed (p : Peer I) (evt : ProtocolEvent I) :
    (p.pushEvent evt).2.events.closed = p.events.closed := by
  unfold pushEvent Channel.trySend
  cases hclosed : p.events.closed
  · rfl
  · exact hclosed

theorem pushEvent_open (h : p.events.closed = false) (evt : ProtocolEvent I) : p.pushEvent evt =
    (.ok (), { p with events := { p.events with queue := p.events.queue ++ [evt] } }) := by
  simp [pushEvent, Channel.trySend, h]

theorem pushEvent_closed (h : p.events.closed = true) (evt : ProtocolEvent I) :
    p.pushEvent evt = (.error .localDisconnected, p) := by
  simp [pushEvent, Channel.trySend, h]

theorem send_messageIn (p : Peer I) (msg : MessageData) : (p.send msg).2.messageIn = p.messageIn := by
  unfold send Channel.trySend
  cases p.messageOut.closed <;> rfl

theorem send_events (p : Peer I) (msg : MessageData) : (p.send msg).2.events = p.events := by
  unfold send Channel.trySend
  cases p.messageOut.closed <;> rfl

theorem send_state (p : Peer I) (msg : MessageData) : (p.send msg).2.state = p.state := by
  unfold send Channel.trySend
  cases p.messageOut.closed <;> rfl

theorem send_reports (p : Peer I) (msg : MessageData) (h : allowed []) :
    Reports allowed p (p.send msg).2 := .of_eq (p.send_messageIn msg) (p.send_events msg) h

theorem onSyncRequest_reports (p : Peer I) (magic random : ℕ) (h : allowed []) :
    Reports allowed p (p.onSyncRequest magic random).2 := by
  unfold onSyncRequest
  split
  · split
    · exact .of_eq rfl rfl h
    · exact p.send_reports _ h
  · exact p.send_reports _ h

variable [Build]

theorem onSyncReply_reports (p : Peer I) (now magic random : ℕ) :
    Ends (p.onSyncReply now magic random)
      (fun r => Reports (p.state.Announces (.syncReply random)) p r.2) fun _ => True := by
  have hnone : p.state.counts (.syncReply random) = false →
      p.state.Announces (.syncReply random) ([] : List (ProtocolEvent I)) :=
    fun hcounts => .inl (PeerState.announced_eq_nil hcounts).symm
  unfold onSyncReply
  split
  · next hother =>
    refine .of_eq rfl rfl (hnone ?_)
    cases hrandom : p.state.random? with
    | none => simp [hrandom] at hother
    | some random' =>
      have hne : random' ≠ random := by simpa [hrandom] using hother
      simp [PeerState.counts, hrandom, hne.symm]
  · next hsame =>
    split
    · next random' hstate =>
      have hannounced : p.state.Announces (.syncReply random) ([.connected] : List (ProtocolEvent I)) := by
        have heq : random' = random := by simpa [hstate, PeerState.random?] using hsame
        simp [PeerState.Announces, PeerState.announced, hstate, PeerState.counts, PeerState.random?, heq]
      have hpush := p.pushEvent_reports hannounced
      split
      · next err p₁ hpushed => rwa [hpushed] at hpush
      · next p₁ hpushed =>
        rw [hpushed] at hpush
        have hreported : Reports _ p p₁ := hpush
        exact .bind_any fun request => hreported.before (send_messageIn _ _) (send_events _ _)
    · next random' remaining hstate =>
      have heq : random' = random := by simpa [hstate, PeerState.random?] using hsame
      refine .bind_any fun _ => ?_
      dsimp only
      split
      · next hzero =>
        have hannounced : p.state.Announces (.syncReply random)
            ([.synchronized] : List (ProtocolEvent I)) := by
          simp [PeerState.Announces, PeerState.announced, hstate, PeerState.counts, PeerState.random?,
            heq, hzero]
        have hpush := (Peer.pushEvent_reports
          { p with state := .syncing random' ((remaining + 255) % 256) } hannounced).after (p := p) rfl rfl
        split
        · next err p₁ hpushed => rwa [hpushed] at hpush
        · next p₁ hpushed =>
          rw [hpushed] at hpush
          have hreported : Reports _ p p₁ := hpush
          exact hreported.before rfl rfl
      · next hmore =>
        have hannounced : p.state.Announces (.syncReply random) ([.synchronizing numSyncPackets
            (numSyncPackets - (remaining + 255) % 256)] : List (ProtocolEvent I)) := by
          simp [PeerState.Announces, PeerState.announced, hstate, PeerState.counts, PeerState.random?,
            heq, hmore]
        have hpush := (Peer.pushEvent_reports
          { p with state := .syncing random' ((remaining + 255) % 256) } hannounced).after (p := p) rfl rfl
        split
        · next err p₁ hpushed => rwa [hpushed] at hpush
        · next p₁ hpushed =>
          rw [hpushed] at hpush
          have hreported : Reports _ p p₁ := hpush
          exact .bind_any fun request => hreported.before (p₁.send_messageIn _) (p₁.send_events _)
    · next remoteMagic hstate =>
      have hcounts : p.state.counts (.syncReply random) = false := by
        simp [PeerState.counts, hstate, PeerState.random?]
      split
      · exact .of_eq rfl rfl (hnone hcounts)
      · exact .of_eq rfl rfl (hnone hcounts)
    · next hconnecting hsyncing hrunning =>
      refine .of_eq rfl rfl (hnone ?_)
      cases hstate : p.state with
      | connecting random' => exact absurd hstate (hconnecting _)
      | syncing random' remaining => exact absurd hstate (hsyncing _ _)
      | running remoteMagic => exact absurd hstate (hrunning _)
      | interrupted remoteMagic => rfl
      | disconnected => rfl

variable [Varinteger] [Pod I]

theorem onInput_reports (p : Peer I) (now : ℕ) (input : InputMessage)
    (hnone : p.state.Announces (.input input) ([] : List (ProtocolEvent I)))
    (hinputs : ∀ inputs, p.state.Announces (.input input) ([.inputs inputs] : List (ProtocolEvent I))) :
    Ends (p.onInput now input) (fun r => Reports (p.state.Announces (.input input)) p r.2)
      fun _ => True := by
  unfold onInput
  refine .bind_any fun statuses => .bind_any fun r => ?_
  obtain ⟨decoded, decoder⟩ := r
  cases decoded with
  | error err => exact .of_eq rfl rfl hnone
  | ok inputs =>
    obtain ⟨q, hq⟩ : ∃ q : Peer I, { p with
      peerConnectStatus := statuses
      inputDecoder := decoder } = q := ⟨_, rfl⟩
    have hin : q.messageIn = p.messageIn := hq ▸ rfl
    have hevents : q.events = p.events := hq ▸ rfl
    have hpush := (q.pushEvent_reports (hinputs inputs)).after hin hevents
    dsimp only
    rw [hq]
    by_cases hnil : inputs = []
    · rw [if_pos hnil]
      exact .of_eq hin hevents hnone
    · rw [if_neg hnil]
      generalize q.pushEvent (.inputs inputs) = pushed at hpush ⊢
      obtain ⟨result, q₁⟩ := pushed
      cases result with
      | error err => exact hpush
      | ok done =>
        have hsent : Reports _ p ({ q₁ with
            stats := { q₁.stats with lastInputPacketRecvTime := now } }.send
              (.inputAck q₁.inputDecoder.lastDecoded)).2 :=
          hpush.before (send_messageIn _ _) (send_events _ _)
        dsimp only
        split
        · exact hsent
        · exact hsent.before rfl rfl

theorem handleMessage_reports (p : Peer I) (now : ℕ) (message : Message) :
    Ends (p.handleMessage now message)
      (fun r => Reports (p.state.Announces message.data) p r.2) fun _ => True := by
  obtain ⟨magic, seq, data⟩ := message
  have hannounced : (∀ random, data ≠ .syncReply random) →
      p.state.announced data = ([] : List (ProtocolEvent I)) := by
    intro hdata
    have hcounts : p.state.counts data = false := by
      by_contra h
      obtain ⟨random, hreply⟩ := PeerState.counts_reply (Bool.eq_true_of_not_eq_false h)
      exact hdata random hreply
    exact PeerState.announced_eq_nil hcounts
  unfold handleMessage
  cases data with
  | keepAlive => exact .of_eq rfl rfl (.inl (hannounced (by simp)).symm)
  | syncRequest random => exact p.onSyncRequest_reports magic random (.inl (hannounced (by simp)).symm)
  | syncReply random => exact p.onSyncReply_reports now magic random
  | input input =>
    exact p.onInput_reports now input (.inl (hannounced (by simp)).symm)
      fun inputs => .inr ⟨hannounced (by simp), inputs, rfl⟩
  | inputAck ackFrame => exact .of_eq rfl rfl (.inl (hannounced (by simp)).symm)
  | qualityReport frameAdvantage ping =>
    have hsent : Reports (p.state.Announces (.qualityReport frameAdvantage ping)) _ _ :=
      Peer.send_reports { p with
      stats := { p.stats with remoteFrameAdvantage := frameAdvantage } } (.qualityReply ping)
        (.inl (hannounced (by simp)).symm)
    exact hsent.after rfl rfl
  | qualityReply pong =>
    exact .bind_any fun _ => .of_eq rfl rfl (.inl (hannounced (by simp)).symm)

end Peer

end Backroll

import Backroll.Session.Lockstep
import Backroll.Protocol.States

/-! What the tasks of a peer make of the two streams of inputs that they carry, the one that the
session sends and the one that it receives. -/
namespace Backroll

open Fallible (Ends)
open ReliableStream (Sends Receives fresh)

variable {I : Type}

/-- `RUNNING_RETRY_INTERVAL`, in milliseconds. -/
abbrev runningRetryInterval : ℕ := 200

/-- The message neither carries nor acknowledges inputs. -/
def MessageData.isIdle : MessageData → Bool
  | input _ | inputAck _ => false
  | _ => true

namespace Peer

/-- `heartbeat`, one round. -/
def heartbeat (p : Peer I) : Except PeerError Unit × Peer I := p.send .keepAlive

/-- `send_quality_reports`, one round, at the time `now`. -/
def sendQualityReports (p : Peer I) (now : ℕ) : Except PeerError Unit × Peer I :=
  if p.isRunning then p.send (.qualityReport p.stats.localFrameAdvantage now) else (.ok (), p)

/-- `resend_inputs`, one round, at the time `now`. -/
def resendInputs [Build] [Varinteger] [Pod I] (p : Peer I) (now : ℕ)
    (localConnectStatus : List ConnectionStatus) : Except Panic (Except PeerError Unit × Peer I) :=
  if p.isRunning ∧ p.stats.lastInputPacketRecvTime + runningRetryInterval < now then
    { p with stats := { p.stats with lastInputPacketRecvTime := now } }.sendPendingOutput
      localConnectStatus
  else .ok (.ok (), p)

/-- Both streams rest. -/
structure Quiet (p p' : Peer I) : Prop where
  inputEncoder : p'.inputEncoder = p.inputEncoder
  inputDecoder : p'.inputDecoder = p.inputDecoder
  messageIn : p'.messageIn = p.messageIn
  said : ∃ news, p'.messageOut.queue = p.messageOut.queue ++ news ∧ ∀ data ∈ news, data.isIdle = true
  outClosed : p'.messageOut.closed = p.messageOut.closed
  reported : ∃ news, p'.events.queue = p.events.queue ++ news ∧ inputsOf news = []
  eventsClosed : p'.events.closed = p.events.closed

variable {p p₁ p₂ : Peer I}

theorem Quiet.of_shared (p : Peer I) (state : PeerState) (stats : PeerStats) :
    Quiet p { p with state := state, stats := stats } :=
  ⟨rfl, rfl, rfl, ⟨[], by simp, by simp⟩, rfl, ⟨[], by simp, rfl⟩, rfl⟩

theorem Quiet.refl (p : Peer I) : Quiet p p := .of_shared p p.state p.stats

theorem Quiet.trans (h : Quiet p p₁) (h' : Quiet p₁ p₂) : Quiet p p₂ := by
  obtain ⟨said, hsaid, hidle⟩ := h.said
  obtain ⟨said', hsaid', hidle'⟩ := h'.said
  obtain ⟨news, hnews, hnone⟩ := h.reported
  obtain ⟨news', hnews', hnone'⟩ := h'.reported
  refine ⟨h'.inputEncoder.trans h.inputEncoder, h'.inputDecoder.trans h.inputDecoder,
    h'.messageIn.trans h.messageIn, ⟨said ++ said', ?_, fun data hdata => ?_⟩,
    h'.outClosed.trans h.outClosed, ⟨news ++ news', ?_, ?_⟩, h'.eventsClosed.trans h.eventsClosed⟩
  · rw [hsaid', hsaid, List.append_assoc]
  · rcases List.mem_append.mp hdata with hdata | hdata
    · exact hidle data hdata
    · exact hidle' data hdata
  · rw [hnews', hnews, List.append_assoc]
  · rw [inputsOf_append, hnone, hnone']
    rfl

theorem pushEvent_quiet (p : Peer I) {evt : ProtocolEvent I} (h : inputsOf [evt] = []) :
    Quiet p (p.pushEvent evt).2 := by
  cases hclosed : p.events.closed with
  | true =>
    rw [pushEvent_closed hclosed]
    exact .refl p
  | false =>
    rw [pushEvent_open hclosed]
    exact ⟨rfl, rfl, rfl, ⟨[], by simp, by simp⟩, rfl, ⟨[evt], rfl, h⟩, rfl⟩

theorem send_open (h : p.messageOut.closed = false) (msg : MessageData) : p.send msg =
    (.ok (), { p with messageOut := { p.messageOut with queue := p.messageOut.queue ++ [msg] } }) := by
  simp [send, Channel.trySend, h]

theorem send_quiet (p : Peer I) {msg : MessageData} (h : msg.isIdle = true) :
    Quiet p (p.send msg).2 := by
  cases hclosed : p.messageOut.closed with
  | true =>
    have hsend : p.send msg = (.error .remoteDisconnected, p) := by
      simp [send, Channel.trySend, hclosed]
    rw [hsend]
    exact .refl p
  | false =>
    rw [send_open hclosed]
    exact ⟨rfl, rfl, rfl, ⟨[msg], rfl, by simpa using h⟩, rfl, ⟨[], by simp, rfl⟩, rfl⟩

theorem heartbeat_quiet (p : Peer I) : Quiet p p.heartbeat.2 := p.send_quiet rfl

theorem heartbeat_state (p : Peer I) : p.heartbeat.2.state = p.state := p.send_state _

theorem sendQualityReports_quiet (p : Peer I) (now : ℕ) : Quiet p (p.sendQualityReports now).2 := by
  unfold sendQualityReports
  split
  · exact p.send_quiet rfl
  · exact .refl p

theorem sendQualityReports_state (p : Peer I) (now : ℕ) :
    (p.sendQualityReports now).2.state = p.state := by
  unfold sendQualityReports
  split
  · exact p.send_state _
  · rfl

theorem onSyncRequest_quiet (p : Peer I) (magic random : ℕ) :
    Quiet p (p.onSyncRequest magic random).2 := by
  unfold onSyncRequest
  split
  · split
    · exact .refl p
    · exact p.send_quiet rfl
  · exact p.send_quiet rfl

theorem createSyncRequest_idle {state : PeerState} {request : MessageData}
    (h : state.createSyncRequest = .ok request) : request.isIdle = true := by
  unfold PeerState.createSyncRequest at h
  split at h
  · obtain rfl := Except.ok.inj h
    rfl
  · obtain rfl := Except.ok.inj h
    rfl
  · cases h

theorem Quiet.of_pushed {evt : ProtocolEvent I} {result : Except PeerError Unit}
    (h : p.pushEvent evt = (result, p₁)) (hevt : inputsOf [evt] = []) : Quiet p p₁ := by
  have hpush := p.pushEvent_quiet hevt
  rwa [h] at hpush

theorem poll_quiet (p : Peer I) (now : ℕ) :
    Ends (p.poll now) (fun r => Quiet p r.2) fun _ => True := by
  refine (Endpoint.poll_sends p now).imp fun r hr => ?_
  rcases hr with rfl | ⟨random, -, rfl⟩
  · exact .refl p
  · exact p.send_quiet rfl

variable [Build]

theorem onSyncReply_quiet (p : Peer I) (now magic random : ℕ) :
    Ends (p.onSyncReply now magic random) (fun r => Quiet p r.2) fun _ => True := by
  unfold onSyncReply
  split
  · exact .refl p
  · split
    · split
      · next hpushed => exact .of_pushed hpushed rfl
      · next p₁ hpushed =>
        have hquiet := Quiet.of_pushed hpushed rfl
        refine Ends.bind (Ends.of_forall fun request => createSyncRequest_idle) fun request hidle => ?_
        exact (hquiet.trans (.of_shared p₁ _ _)).trans (send_quiet _ hidle)
    · next random' remaining hstate =>
      have hstep := Quiet.of_shared p (.syncing random' ((remaining + 255) % 256)) p.stats
      refine .bind_any fun _ => ?_
      dsimp only
      split
      · split
        · next hpushed => exact hstep.trans (.of_pushed hpushed rfl)
        · next p₁ hpushed => exact (hstep.trans (.of_pushed hpushed rfl)).trans (.of_shared p₁ _ _)
      · split
        · next hpushed => exact hstep.trans (.of_pushed hpushed rfl)
        · next p₁ hpushed =>
          have hquiet := hstep.trans (.of_pushed hpushed rfl)
          refine Ends.bind (Ends.of_forall fun request => createSyncRequest_idle) fun request hidle => ?_
          exact hquiet.trans (send_quiet _ hidle)
    · split <;> exact .refl p
    · exact .refl p

variable [Varinteger] [Pod I]

theorem handleMessage_quiet (p : Peer I) (now : ℕ) {message : Message}
    (h : message.data.isIdle = true) :
    Ends (p.handleMessage now message) (fun r => Quiet p r.2) fun _ => True := by
  obtain ⟨magic, seq, data⟩ := message
  unfold handleMessage
  cases data with
  | keepAlive => exact .refl p
  | syncRequest random => exact p.onSyncRequest_quiet magic random
  | syncReply random => exact p.onSyncReply_quiet now magic random
  | input input => cases h
  | inputAck ackFrame => cases h
  | qualityReport frameAdvantage ping =>
    exact Quiet.trans (.of_shared p p.state { p.stats with remoteFrameAdvantage := frameAdvantage })
      (send_quiet _ rfl)
  | qualityReply pong => exact .bind_any fun _ => .of_shared p p.state _

end Peer

theorem PeerState.Precedes.leads {state state' : PeerState} (h : state.Precedes state') :
    state.Leads state' := by
  refine ⟨fun hrun => ?_, h.ended⟩
  have hphase := h.phase
  cases state' <;> cases state <;> simp_all [PeerState.isRunning, PeerState.phase]

namespace Endpoint

/-- The connection has not ended. -/
structure Lives (e : Endpoint I) : Prop where
  going : e.ended = false
  alive : e.peer.state ≠ .disconnected

instance (e : Endpoint I) : Decidable e.Lives :=
  decidable_of_iff (e.ended = false ∧ e.peer.state ≠ .disconnected)
    ⟨fun h => ⟨h.1, h.2⟩, fun h => ⟨h.going, h.alive⟩⟩

theorem Lives.of_eq {e e' : Endpoint I} (h : e.Lives) (hended : e'.ended = e.ended)
    (hstate : e'.peer.state = e.peer.state) : e'.Lives :=
  ⟨hended.trans h.going, fun hend => h.alive (hstate.symm.trans hend)⟩

theorem deserializeIncoming_ended (e : Endpoint I) (message : Message) :
    (e.deserializeIncoming message).ended = e.ended := by
  unfold deserializeIncoming
  split
  · split <;> rfl
  · rfl

theorem serializeOutgoing_same {e e' : Endpoint I} {now : ℕ} {message : Message}
    (h : e.serializeOutgoing now = some (message, e')) :
    e'.ended = e.ended ∧ e'.peer.state = e.peer.state := by
  unfold serializeOutgoing at h
  split at h
  · cases h
  · obtain ⟨-, rfl⟩ := Prod.mk.inj (Option.some.inj h)
    exact ⟨rfl, rfl⟩

variable [Build] {e e' : Endpoint I}

theorem notice_quiet {now : ℕ} (h : e.notice now = .ok e') : e.peer.Quiet e'.peer := by
  obtain ⟨silent, -, h⟩ := Fallible.bind_eq_ok.mp h
  split at h
  · obtain rfl := Except.ok.inj h
    exact .refl e.peer
  · split at h
    · cases h
    · obtain rfl := Except.ok.inj h
      rw [orEnd_peer]
      exact (Peer.Quiet.of_shared e.peer _ e.peer.stats).trans (Peer.pushEvent_quiet _ rfl)

theorem Step.leads {deed : Deed} [Varinteger] [Pod I] (h : Step e deed e') :
    e.peer.state.Leads e'.peer.state := (Peer.steps_precedes h.peer_steps).leads

/-- The timer leaves the streams alone, unless it ends the connection. -/
theorem tick_quiet {now : ℕ} (h : e.tick now = .ok e') (halive : e'.peer.state ≠ .disconnected) :
    e.peer.Quiet e'.peer := by
  unfold tick at h
  split at h
  · obtain rfl := Except.ok.inj h
    exact .refl e.peer
  · obtain ⟨e₁, hnotice, h⟩ := Fallible.bind_eq_ok.mp h
    have hquiet := notice_quiet hnotice
    split at h
    · obtain rfl := Except.ok.inj h
      exact hquiet
    · obtain ⟨late, -, h⟩ := Fallible.bind_eq_ok.mp h
      split at h
      · obtain rfl := Except.ok.inj h
        exact absurd rfl halive
      · obtain ⟨result, hpoll, h⟩ := Fallible.bind_eq_ok.mp h
        obtain rfl := Except.ok.inj h
        rw [orEnd_peer]
        exact hquiet.trans ((e₁.peer.poll_quiet now).ok hpoll)

variable [Varinteger] [Pod I]

/-- A message that is taken up is handled, and no input comes after it, unless that ends the
connection. -/
theorem takeUp_quiet {now : ℕ} {message : Message} (h : e.takeUp now message = .ok e')
    (halive : e'.peer.state ≠ .disconnected) :
    ∃ result p, e.peer.handleMessage now message = .ok (result, p) ∧ p.Quiet e'.peer := by
  obtain ⟨⟨result, p⟩, hmessage, h⟩ := Fallible.bind_eq_ok.mp h
  refine ⟨result, p, hmessage, ?_⟩
  cases result with
  | ok done =>
    dsimp only at h
    split at h
    · next state hresume =>
      obtain rfl := Except.ok.inj h
      rw [orEnd_peer]
      exact (Peer.Quiet.of_shared p state p.stats).trans (Peer.pushEvent_quiet _ rfl)
    · obtain rfl := Except.ok.inj h
      exact .refl p
  | error err =>
    cases err with
    | invalidMessage =>
      obtain rfl := Except.ok.inj h
      exact .refl p
    | localDisconnected =>
      obtain rfl := Except.ok.inj h
      exact absurd rfl halive
    | remoteDisconnected =>
      obtain rfl := Except.ok.inj h
      exact absurd rfl halive

end Endpoint

section Streams

variable [Build] [Varinteger] [Pod I]

/-- What a peer may say that sends one stream and receives the other. Its inputs are not too far
ahead of those it acknowledges. -/
def Vouched (out inc : ReliableStream.State I) : MessageData → Prop
  | .input msg => ∃ w ∈ out.windows, ∃ k ∈ inc.acks, Carries (msg.startFrame, msg.bits) w ∧
      msg.ackFrame = (k : ℤ) - 1 ∧ w.1 + w.2.length ≤ k - 1 + maxPredictionFrames
  | .inputAck ackFrame => ∃ k ∈ inc.acks, ackFrame = (k : ℤ) - 1
  | _ => True

variable {out out' inc inc' : ReliableStream.State I}

theorem vouched_of_idle {data : MessageData} (h : data.isIdle = true) : Vouched out inc data := by
  cases data with
  | input msg => cases h
  | inputAck ackFrame => cases h
  | _ => trivial

theorem Vouched.mono {data : MessageData} (h : Vouched out inc data)
    (hwindows : out.windows ⊆ out'.windows) (hacks : inc.acks ⊆ inc'.acks) :
    Vouched out' inc' data := by
  cases data with
  | input msg =>
    obtain ⟨w, hw, k, hk, hcarries⟩ := h
    exact ⟨w, hwindows hw, k, hacks hk, hcarries⟩
  | inputAck ackFrame =>
    obtain ⟨k, hk, hack⟩ := h
    exact ⟨k, hacks hk, hack⟩
  | _ => trivial

namespace InputEncoder

/-- What is encoded carries the window of the sender. -/
theorem Keeps.encode_eq_ok {e e' : InputEncoder I} {packet : ℤ × List UInt8} (h : e.Keeps out)
    (hV : Varinteger.RoundTrips) (hI : 0 < Pod.size I) (henc : e.encode = .ok (.ok packet, e')) :
    e'.pending = e.pending ∧ Carries packet (out.front, out.log.drop out.front) := by
  have hsize : e.pending.length * Pod.size I < maxBufferSize := by
    unfold InputEncoder.encode at henc
    split at henc
    · next hnil =>
      rw [hnil, List.length_nil, Nat.zero_mul]
      decide
    · obtain ⟨encoded, hencode, henc⟩ := Fallible.bind_eq_ok.mp henc
      obtain ⟨deltas, hdelta, hencode⟩ := Fallible.bind_eq_ok.mp hencode
      cases deltas with
      | error err =>
        obtain rfl := Except.ok.inj hencode
        simp at henc
      | ok bytes =>
        have hbound : ([] : List UInt8).length + (e.pending.map (·.input)).length * Pod.size I <
            maxBufferSize := Compression.deltaEncodeLoop_small (Pod.length_toBytes _) (by decide) hdelta
        simpa using hbound
  obtain ⟨packet', e₁, henc', hpending, hcarries⟩ := h.encode hV hI hsize
  obtain ⟨hpacket, rfl⟩ := Prod.mk.inj (Except.ok.inj (henc'.symm.trans henc))
  obtain rfl := Except.ok.inj hpacket
  exact ⟨hpending, hcarries⟩

end InputEncoder

namespace Peer

variable {p p' p₁ p₂ : Peer I}

/-- The peer sends the stream `out` and receives the stream `inc`. -/
structure Serves (out inc : ReliableStream.State I) (p : Peer I) : Prop where
  encoder : p.inputEncoder.Keeps out
  decoder : p.inputDecoder.Has inc
  said : ∀ data ∈ p.messageOut.queue, Vouched out inc data
  heard : ∀ message ∈ p.messageIn.queue, Vouched inc out message.data
  eventsOpen : p.events.closed = false
  outOpen : p.messageOut.closed = false
  inOpen : p.messageIn.closed = false
  near : inc.delivered.length ≤ out.front + maxPredictionFrames

theorem Serves.quiet (h : p.Serves out inc) (hquiet : p.Quiet p') : p'.Serves out inc := by
  obtain ⟨news, hsaid, hidle⟩ := hquiet.said
  refine ⟨?_, ?_, fun data hdata => ?_, ?_, hquiet.eventsClosed.trans h.eventsOpen,
    hquiet.outClosed.trans h.outOpen, by rw [hquiet.messageIn]; exact h.inOpen, h.near⟩
  · rw [hquiet.inputEncoder]
    exact h.encoder
  · rw [hquiet.inputDecoder]
    exact h.decoder
  · rw [hsaid] at hdata
    rcases List.mem_append.mp hdata with hdata | hdata
    · exact h.said data hdata
    · exact vouched_of_idle (hidle data hdata)
  · rw [hquiet.messageIn]
    exact h.heard

theorem Serves.setStatuses (h : p.Serves out inc) (statuses : List ConnectionStatus) :
    Serves out inc { p with peerConnectStatus := statuses } := { h with }

/-- The peer at the other end goes on. -/
theorem Serves.meanwhile (h : p.Serves out inc) (hout : Receives out out') (hinc : Sends inc inc') :
    p.Serves out' inc' := by
  have hwindows : out.windows ⊆ out'.windows := by rw [hout.windows]; exact fun _ hw => hw
  have hacks : inc.acks ⊆ inc'.acks := by rw [hinc.acks]; exact fun _ hk => hk
  refine ⟨?_, ?_, fun data hdata => (h.said data hdata).mono hwindows hacks,
    fun message hm => (h.heard message hm).mono hinc.windows hout.acks, h.eventsOpen, h.outOpen,
    h.inOpen, ?_⟩
  · have hkeeps : p.inputEncoder.pending = _ := h.encoder
    rw [InputEncoder.Keeps, hkeeps, hout.log, hout.front]
  · have hhas : p.inputDecoder.lastDecoded = _ := h.decoder
    rw [InputDecoder.Has, hhas, hinc.delivered]
  · rw [hinc.delivered, hout.front]
    exact h.near

/-- The peer has moved its streams on, and reports what was delivered. -/
structure Works (out inc : ReliableStream.State I) (p : Peer I) (out' inc' : ReliableStream.State I)
    (p' : Peer I) : Prop where
  serves : p'.Serves out' inc'
  sends : Sends out out'
  log : out'.log = out.log
  receives : Receives inc inc'
  pending : ∃ acks : List ℤ, p'.inputEncoder.pending =
    (acks.foldl InputEncoder.acknowledgeFrame p.inputEncoder).pending
  reported : ∃ news xs, p'.events.queue = p.events.queue ++ news ∧
    inputsOf news = framed inc.delivered.length xs ∧ inc'.delivered = inc.delivered ++ xs

theorem Works.of_quiet (h : p.Serves out inc) (hquiet : p.Quiet p') : Works out inc p out inc p' := by
  obtain ⟨news, hnews, hnone⟩ := hquiet.reported
  refine ⟨h.quiet hquiet, .refl out, rfl, .refl inc, ⟨[], ?_⟩, ⟨news, [], hnews, ?_, ?_⟩⟩
  · rw [hquiet.inputEncoder]
    rfl
  · rw [hnone]
    rfl
  · rw [List.append_nil]

theorem Works.quiet (h : Works out inc p out' inc' p₁) (hquiet : p₁.Quiet p₂) :
    Works out inc p out' inc' p₂ := by
  obtain ⟨acks, hacks⟩ := h.pending
  obtain ⟨news, xs, hnews, hinputs, hdelivered⟩ := h.reported
  obtain ⟨more, hmore, hnone⟩ := hquiet.reported
  refine ⟨h.serves.quiet hquiet, h.sends, h.log, h.receives, ⟨acks, ?_⟩,
    ⟨news ++ more, xs, ?_, ?_, hdelivered⟩⟩
  · rw [hquiet.inputEncoder, hacks]
  · rw [hmore, hnews, List.append_assoc]
  · rw [inputsOf_append, hnone, List.append_nil, hinputs]

/-- Something of the peer that the streams do not show has changed before. -/
theorem Works.after (h : Works out inc p₁ out' inc' p') (hevents : p₁.events = p.events)
    (hencoder : p₁.inputEncoder = p.inputEncoder) : Works out inc p out' inc' p' := by
  obtain ⟨hserves, hsends, hlog, hreceives, hpending, hreported⟩ := h
  rw [hencoder] at hpending
  rw [hevents] at hreported
  exact ⟨hserves, hsends, hlog, hreceives, hpending, hreported⟩

/-- An acknowledgement comes in. -/
theorem Serves.acknowledge (h : p.Serves out inc) {k : ℕ} (hk : k ∈ out.acks) :
    Works out inc p { out with front := max out.front (k - 1) } inc
      { p with inputEncoder := p.inputEncoder.acknowledgeFrame ((k : ℤ) - 1) } := by
  have hsends := Sends.acknowledge hk
  refine ⟨⟨h.encoder.acknowledgeFrame k, h.decoder, fun data hdata => ?_, fun message hm => ?_,
    h.eventsOpen, h.outOpen, h.inOpen, ?_⟩, hsends, rfl, .refl inc, ⟨[(k : ℤ) - 1], rfl⟩,
    ⟨[], [], by simp, rfl, by simp⟩⟩
  · exact (h.said data hdata).mono hsends.windows fun _ ha => ha
  · exact (h.heard message hm).mono (fun _ hw => hw) fun _ ha => ha
  · have hnear := h.near
    dsimp only
    omega

/-- The inputs that a message brings are reported and acknowledged, as is what it acknowledges. -/
theorem Serves.onInput (h : p.Serves out inc) (hinc : ReliableStream.Reachable inc) {now : ℕ}
    {msg : InputMessage} (hmsg : Vouched inc out (.input msg)) {result : Except PeerError Unit}
    (honInput : p.onInput now msg = .ok (result, p')) :
    ∃ out' inc', Works out inc p out' inc' p' := by
  obtain ⟨w, hw, k, hk, hcarries, hack, hnear⟩ := hmsg
  have hgenuine := (ReliableStream.reachable_inv hinc).windows w hw
  obtain ⟨d, hdecode, hhas⟩ := h.decoder.decode hcarries hgenuine
  have hlength := hgenuine.length_append_fresh
  have hsaid := h.near
  dsimp only at hdecode
  obtain ⟨statuses, -, hrest⟩ := Fallible.bind_eq_ok.mp honInput
  dsimp only at hrest
  rw [hdecode] at hrest
  simp only [Fallible.ok_bind, framed_eq_nil] at hrest
  -- what the message brings is delivered
  have hdelivers := Receives.deliver hw
  have hserves : Serves { out with front := max out.front (k - 1) }
      { inc with delivered := inc.delivered ++ fresh inc.delivered w }
      { p with
        peerConnectStatus := statuses
        inputDecoder := d
        inputEncoder := p.inputEncoder.acknowledgeFrame ((k : ℤ) - 1) } := by
    refine ⟨h.encoder.acknowledgeFrame k, hhas, h.said, h.heard, h.eventsOpen, h.outOpen, h.inOpen, ?_⟩
    rw [hlength]
    dsimp only
    omega
  by_cases hnil : fresh inc.delivered w = []
  · rw [if_pos hnil] at hrest
    obtain ⟨-, rfl⟩ := Prod.mk.inj (Except.ok.inj hrest)
    rw [hack]
    exact ⟨_, _, hserves, .acknowledge hk, rfl, hdelivers, ⟨[(k : ℤ) - 1], rfl⟩,
      ⟨[], [], by simp, rfl, by rw [hnil]⟩⟩
  · rw [if_neg hnil] at hrest
    simp only [pushEvent, send, Channel.trySend, h.eventsOpen, h.outOpen, Bool.false_eq_true,
      if_false] at hrest
    obtain ⟨-, rfl⟩ := Prod.mk.inj (Except.ok.inj hrest)
    have hacks := Receives.ack { inc with delivered := inc.delivered ++ fresh inc.delivered w }
    rw [hack]
    refine ⟨_, { inc with
      delivered := inc.delivered ++ fresh inc.delivered w
      acks := (inc.delivered ++ fresh inc.delivered w).length :: inc.acks },
      ⟨hserves.encoder, hserves.decoder, fun data hdata => ?_, fun message hm => ?_,
        rfl, rfl, h.inOpen, hserves.near⟩, .acknowledge hk, rfl, hdelivers.trans hacks,
      ⟨[(k : ℤ) - 1], rfl⟩, ⟨[.inputs (framed inc.delivered.length (fresh inc.delivered w))], _, rfl,
      by simp [inputsOf], rfl⟩⟩
    · rcases List.mem_append.mp hdata with hdata | hdata
      · exact (h.said data hdata).mono (fun _ hw => hw) hacks.acks
      · obtain rfl := List.mem_singleton.mp hdata
        exact ⟨_, List.mem_cons_self, hhas⟩
    · exact (h.heard message hm).mono (fun _ hw => hw) fun _ ha => ha

/-- The stream is sent, from the first input that is not acknowledged on. -/
theorem Serves.sendPendingOutput (h : p.Serves out inc) (hV : Varinteger.RoundTrips)
    (hI : 0 < Pod.size I) (hout : ReliableStream.Reachable out)
    (hahead : out.log.length ≤ inc.delivered.length - 1 + maxPredictionFrames)
    {statuses : List ConnectionStatus} {result : Except PeerError Unit}
    (hsend : p.sendPendingOutput statuses = .ok (result, p')) :
    Works out inc p { out with windows := (out.front, out.log.drop out.front) :: out.windows }
      { inc with acks := inc.delivered.length :: inc.acks } p' := by
  obtain ⟨⟨encoded, encoder⟩, hencode, hrest⟩ := Fallible.bind_eq_ok.mp hsend
  cases encoded with
  | error err => simp at hrest
  | ok packet =>
    obtain ⟨hpending, hcarries⟩ := h.encoder.encode_eq_ok hV hI hencode
    simp only [send, Channel.trySend, h.outOpen, Bool.false_eq_true, if_false] at hrest
    obtain ⟨-, rfl⟩ := Prod.mk.inj (Except.ok.inj hrest)
    have hsends := Sends.send out
    have hacks := Receives.ack inc
    have hfront := (ReliableStream.reachable_inv hout).front_le
    refine ⟨⟨hpending.trans h.encoder, h.decoder, fun data hdata => ?_, fun message hm => ?_,
      h.eventsOpen, rfl, h.inOpen, h.near⟩, hsends, rfl, hacks, ⟨[], hpending⟩,
      ⟨[], [], by simp, rfl, by simp⟩⟩
    · rcases List.mem_append.mp hdata with hdata | hdata
      · exact (h.said data hdata).mono hsends.windows hacks.acks
      · obtain rfl := List.mem_singleton.mp hdata
        refine ⟨_, List.mem_cons_self, _, List.mem_cons_self, hcarries, h.decoder, ?_⟩
        dsimp only
        rw [List.length_drop]
        omega
    · exact (h.heard message hm).mono (fun _ hw => hw) fun _ ha => ha

theorem Serves.resendInputs (h : p.Serves out inc) (hV : Varinteger.RoundTrips)
    (hI : 0 < Pod.size I) (hout : ReliableStream.Reachable out)
    (hahead : out.log.length ≤ inc.delivered.length - 1 + maxPredictionFrames) {now : ℕ}
    {statuses : List ConnectionStatus} {result : Except PeerError Unit}
    (hresend : p.resendInputs now statuses = .ok (result, p')) :
    ∃ out' inc', Works out inc p out' inc' p' := by
  unfold Peer.resendInputs at hresend
  split at hresend
  · have hserves := h.quiet (.of_shared p p.state { p.stats with lastInputPacketRecvTime := now })
    exact ⟨_, _, (hserves.sendPendingOutput hV hI hout hahead hresend).after rfl rfl⟩
  · obtain ⟨-, rfl⟩ := Prod.mk.inj (Except.ok.inj hresend)
    exact ⟨_, _, .of_quiet h (.refl p)⟩

theorem Serves.push (h : p.Serves out inc) (hfront : out.front ≤ out.log.length) (input : I)
    (timesync : TimeSync I) : Serves { out with log := out.log ++ [input] } inc { p with
      timesync := timesync
      inputEncoder := p.inputEncoder.push ⟨out.log.length, input⟩ } :=
  { h with
    encoder := h.encoder.push hfront input
    said := fun data hdata => (h.said data hdata).mono (fun _ hw => hw) fun _ ha => ha
    heard := fun message hm => (h.heard message hm).mono (fun _ hw => hw) fun _ ha => ha }

/-- As long as the buffer is within the size limit, it is sent. -/
theorem Serves.sendPendingOutput_ends (h : p.Serves out inc) (hV : Varinteger.RoundTrips)
    (hI : 0 < Pod.size I) (hsize : p.inputEncoder.pending.length * Pod.size I < maxBufferSize)
    (statuses : List ConnectionStatus) :
    Ends (p.sendPendingOutput statuses) (fun r => r.1 = .ok ()) fun _ => False := by
  obtain ⟨packet, encoder, hencode, -, -⟩ := h.encoder.encode hV hI hsize
  unfold Peer.sendPendingOutput
  rw [hencode, Fallible.ok_bind]
  simp only [send, Channel.trySend, h.outOpen, Bool.false_eq_true, if_false]
  exact rfl

theorem Serves.resendInputs_ends (h : p.Serves out inc) (hV : Varinteger.RoundTrips)
    (hI : 0 < Pod.size I) (hsize : p.inputEncoder.pending.length * Pod.size I < maxBufferSize)
    (now : ℕ) (statuses : List ConnectionStatus) :
    Ends (p.resendInputs now statuses) (fun r => r.1 = .ok ()) fun _ => False := by
  unfold Peer.resendInputs
  split
  · have hserves := h.quiet (.of_shared p p.state { p.stats with lastInputPacketRecvTime := now })
    exact hserves.sendPendingOutput_ends hV hI hsize statuses
  · exact rfl

theorem Serves.sendInput_ends (h : p.Serves out inc) (hV : Varinteger.RoundTrips)
    (hI : 0 < Pod.size I) (hout : ReliableStream.Reachable out)
    (hsize : (p.inputEncoder.pending.length + 1) * Pod.size I < maxBufferSize)
    (statuses : List ConnectionStatus) (input : I) :
    Ends (p.sendInput statuses ⟨out.log.length, input⟩) (fun r => r.1 = .ok ()) fun _ => False := by
  have hfront := (ReliableStream.reachable_inv hout).front_le
  obtain ⟨timesync, htimesync⟩ : ∃ timesync, p.timesync.advanceFrame ⟨out.log.length, input⟩
      p.stats.localFrameAdvantage p.stats.remoteFrameAdvantage = .ok timesync := by
    unfold TimeSync.advanceFrame
    rw [toUsize_of_nonneg (Int.natCast_nonneg _)]
    exact ⟨_, rfl⟩
  unfold Peer.sendInput
  split
  · rw [htimesync]
    exact (h.push hfront input timesync).sendPendingOutput_ends hV hI
      (by simpa [InputEncoder.push] using hsize) statuses
  · exact h.sendPendingOutput_ends hV hI
      ((Nat.mul_le_mul_right _ (Nat.le_succ _)).trans_lt hsize) statuses

theorem resendInputs_state (p : Peer I) (now : ℕ) (statuses : List ConnectionStatus) :
    Ends (p.resendInputs now statuses) (fun r => r.2.state = p.state) fun _ => True := by
  unfold Peer.resendInputs
  split
  · exact (sendPendingOutput_same _ statuses).imp fun r hr => hr.2.1
  · exact rfl

/-- The client has given an input, which is pushed and sent while the connection runs. -/
theorem Serves.sendInput (h : p.Serves out inc) (hV : Varinteger.RoundTrips) (hI : 0 < Pod.size I)
    (hout : ReliableStream.Reachable out) (hrun : p.isRunning = true) (input : I)
    (hahead : out.log.length + 1 ≤ inc.delivered.length - 1 + maxPredictionFrames)
    {statuses : List ConnectionStatus} {result : Except PeerError Unit}
    (hsend : p.sendInput statuses ⟨out.log.length, input⟩ = .ok (result, p')) :
    ∃ out' inc', p'.Serves out' inc' ∧ Sends out out' ∧ out'.log = out.log ++ [input] ∧
      Receives inc inc' ∧ inc'.delivered = inc.delivered := by
  unfold Peer.sendInput at hsend
  rw [if_pos hrun] at hsend
  obtain ⟨timesync, -, hsend⟩ := Fallible.bind_eq_ok.mp hsend
  change Peer.sendPendingOutput _ statuses = _ at hsend
  have hpushes := Sends.push out input
  have hfront := (ReliableStream.reachable_inv hout).front_le
  have hworks := (h.push hfront input timesync).sendPendingOutput hV hI (hout.steps hpushes.steps)
    (by rw [List.length_append]; exact hahead) hsend
  exact ⟨_, _, hworks.serves, hpushes.trans hworks.sends, rfl, hworks.receives, rfl⟩

end Peer

namespace Endpoint

variable {e e' : Endpoint I}

/-- A message arrives. -/
theorem deserializeIncoming_works (h : e.peer.Serves out inc) {message : Message}
    (hm : Vouched inc out message.data) :
    e.peer.Works out inc out inc (e.deserializeIncoming message).peer := by
  have hsame := Peer.Works.of_quiet h (.refl e.peer)
  unfold deserializeIncoming Channel.trySend
  split
  · split
    · next messageIn hsend =>
      split at hsend
      · cases hsend
      · obtain rfl := Option.some.inj hsend
        refine { hsame with serves := { h with heard := fun message' hm' => ?_ } }
        rcases List.mem_append.mp hm' with hm' | hm'
        · exact h.heard message' hm'
        · obtain rfl := List.mem_singleton.mp hm'
          exact hm
    · exact hsame
  · exact hsame

/-- A message is sent. -/
theorem serializeOutgoing_works (h : e.peer.Serves out inc) {now : ℕ} {message : Message}
    (hsend : e.serializeOutgoing now = some (message, e')) :
    e.peer.Works out inc out inc e'.peer ∧ Vouched out inc message.data := by
  unfold serializeOutgoing at hsend
  split at hsend
  · cases hsend
  · next data rest hqueue =>
    obtain ⟨rfl, rfl⟩ := Prod.mk.inj (Option.some.inj hsend)
    have hsaid := h.said
    rw [hqueue] at hsaid
    exact ⟨{ Peer.Works.of_quiet h (.refl e.peer) with serves := { h with
      said := fun data' hdata' => hsaid data' (List.mem_cons_of_mem _ hdata') } },
      hsaid data List.mem_cons_self⟩

theorem handle_leads {now : ℕ} (h : e.handle now = .ok e') :
    e.peer.state.Leads e'.peer.state := by
  cases hlive : e.ended with
  | true =>
    unfold handle at h
    rw [hlive] at h
    obtain rfl := Except.ok.inj h
    exact .refl _
  | false =>
    cases hqueue : e.peer.messageIn.queue with
    | nil =>
      unfold handle at h
      rw [hlive, hqueue] at h
      obtain rfl := Except.ok.inj h
      exact .refl _
    | cons message rest => exact (Step.handle e now message rest e' hlive hqueue h).leads

/-- A message is handled. -/
theorem handle_works (h : e.peer.Serves out inc) (hinc : ReliableStream.Reachable inc) {now : ℕ}
    (hhandle : e.handle now = .ok e') (halive : e'.peer.state ≠ .disconnected) :
    ∃ out' inc', e.peer.Works out inc out' inc' e'.peer := by
  cases hlive : e.ended with
  | true =>
    unfold handle at hhandle
    rw [hlive] at hhandle
    obtain rfl := Except.ok.inj hhandle
    exact ⟨_, _, .of_quiet h (.refl e.peer)⟩
  | false =>
    cases hqueue : e.peer.messageIn.queue with
    | nil =>
      unfold handle at hhandle
      rw [hlive, hqueue] at hhandle
      obtain rfl := Except.ok.inj hhandle
      exact ⟨_, _, .of_quiet h (.refl e.peer)⟩
    | cons message rest =>
      rw [handle_eq_takeUp hlive hqueue] at hhandle
      have hheard := h.heard
      rw [hqueue] at hheard
      have hdropped : e.dropMessage.peer.Serves out inc := by
        refine { h with heard := fun message' hm' => hheard message' (List.mem_cons_of_mem _ ?_) }
        have hm : message' ∈ e.peer.messageIn.queue.tail := hm'
        rwa [hqueue] at hm
      have hmessage := hheard message List.mem_cons_self
      obtain ⟨result, p, hhandled, hquiet⟩ := takeUp_quiet hhandle halive
      obtain ⟨magic, seq, data⟩ := message
      obtain ⟨out', inc', hworks⟩ : ∃ out' inc', e.dropMessage.peer.Works out inc out' inc' p := by
        cases hdata : data with
        | input msg =>
          subst hdata
          exact hdropped.onInput hinc hmessage hhandled
        | inputAck ackFrame =>
          subst hdata
          obtain ⟨k, hk, rfl⟩ := hmessage
          obtain ⟨-, rfl⟩ := Prod.mk.inj (Except.ok.inj hhandled)
          exact ⟨_, _, hdropped.acknowledge hk⟩
        | _ =>
          exact ⟨_, _, .of_quiet hdropped ((Peer.handleMessage_quiet _ now (by rw [hdata]; rfl)).ok hhandled)⟩
      exact ⟨_, _, (hworks.quiet hquiet).after rfl rfl⟩

end Endpoint

end Streams

end Backroll

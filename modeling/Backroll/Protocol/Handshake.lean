import Backroll.Protocol.Exchange

/-! Two peers that synchronize over a network which loses, duplicates, delays and reorders what
they send, and the requests that the replies they count really answer. -/
namespace Backroll

open Fallible (Ends)

variable {I : Type}

/-- The replies that have counted when the peer is in this state. -/
def PeerState.Counted : PeerState → ℕ → Prop
  | connecting _, k => k = 0
  | syncing _ roundtripsRemaining, k =>
    0 < roundtripsRemaining ∧ 0 < k ∧ k + roundtripsRemaining = numSyncPackets + 1
  | running _, k | interrupted _, k => k = numSyncPackets + 1
  | disconnected, _ => True

/-- The replies that a peer in this state has counted. -/
def PeerState.roundTrips : PeerState → ℕ
  | syncing _ roundtripsRemaining => numSyncPackets + 1 - roundtripsRemaining
  | running _ | interrupted _ => numSyncPackets + 1
  | _ => 0

theorem PeerState.Counted.roundTrips_eq {state : PeerState} {k : ℕ} (h : state.Counted k)
    (hstate : state ≠ .disconnected) : state.roundTrips = k := by
  cases state with
  | connecting random => exact h.symm
  | syncing random remaining =>
    have := h.2.2
    simp only [roundTrips]
    omega
  | running remoteMagic => exact h.symm
  | interrupted remoteMagic => exact h.symm
  | disconnected => exact absurd rfl hstate

theorem PeerState.Counted.advance {state : PeerState} {k : ℕ} (h : state.Counted k) {magic : ℕ}
    {data : MessageData} (hcounts : state.counts data = true) : (state.advance magic).Counted (k + 1) := by
  cases state with
  | connecting random =>
    obtain rfl : k = 0 := h
    exact ⟨by decide, by decide, rfl⟩
  | syncing random remaining =>
    obtain ⟨hpos, hk, hsum⟩ := h
    have hfive : numSyncPackets = 5 := rfl
    have hless : (remaining + 255) % 256 = remaining - 1 := by omega
    simp only [PeerState.advance, hless]
    split
    · show k + 1 = numSyncPackets + 1
      omega
    · exact ⟨by omega, by omega, by omega⟩
  | running remoteMagic => simp [PeerState.counts, PeerState.random?] at hcounts
  | interrupted remoteMagic => simp [PeerState.counts, PeerState.random?] at hcounts
  | disconnected => simp [PeerState.counts, PeerState.random?] at hcounts

theorem PeerState.Counted.follows {state state' : PeerState} {k : ℕ} (h : state.Counted k)
    (hnext : state.Follows state') : state'.Counted k := by
  rcases hnext with rfl | rfl | rfl | rfl
  · trivial
  · exact h
  · cases state <;> exact h
  · cases state <;> exact h

/-- Two peers and everything they have ever sent to each other. Each message is kept with the
number of the request that it is or answers: `inbox` and `outbox` are the channels of the tasks
with these numbers. `asked` counts the requests that a side has sent, and `answered` lists those
whose replies have counted. -/
structure Link (I : Type) where
  side : Bool → Endpoint I
  inbox : Bool → List (Message × ℕ) := fun _ => []
  outbox : Bool → List (MessageData × ℕ) := fun _ => []
  packets : Bool → List (Message × ℕ) := fun _ => []
  asked : Bool → ℕ := fun _ => 0
  answered : Bool → List ℕ := fun _ => []

/-- The message is a request. -/
def MessageData.isRequest : MessageData → Bool
  | syncRequest _ => true
  | _ => false

namespace Link

section Runs

variable [Build] [Varinteger] [Pod I]

/-- A packet is sent, arrives, or is handled, a timer goes off, or the session and the tasks of a
connection that runs use the peer, without a message of the handshake. -/
inductive Step : Link I → Link I → Prop
  | send (l : Link I) (b : Bool) (now : ℕ) (message : Message) (e : Endpoint I) (data : MessageData)
    (tag : ℕ) (rest : List (MessageData × ℕ)) (hout : l.outbox b = (data, tag) :: rest)
    (h : (l.side b).serializeOutgoing now = some (message, e)) : Step l { l with
      side := Function.update l.side b e
      outbox := Function.update l.outbox b rest
      packets := Function.update l.packets b
        ((message, if message.data.isRequest then l.asked b else tag) :: l.packets b)
      asked := Function.update l.asked b (l.asked b + if message.data.isRequest then 1 else 0) }
  | receive (l : Link I) (b : Bool) (packet : Message × ℕ) (h : packet ∈ l.packets !b) :
    Step l { l with
      side := Function.update l.side b ((l.side b).deserializeIncoming packet.1)
      inbox := Function.update l.inbox b (l.inbox b ++
        (((l.side b).deserializeIncoming packet.1).peer.messageIn.queue.drop
          (l.side b).peer.messageIn.queue.length).map (·, packet.2)) }
  | handle (l : Link I) (b : Bool) (now : ℕ) (message : Message) (tag : ℕ)
    (rest : List (Message × ℕ)) (e : Endpoint I) (hlive : (l.side b).ended = false)
    (hin : l.inbox b = (message, tag) :: rest) (h : (l.side b).handle now = .ok e) : Step l { l with
      side := Function.update l.side b e
      inbox := Function.update l.inbox b rest
      outbox := Function.update l.outbox b (l.outbox b ++ (e.peer.messageOut.queue.drop
        (l.side b).peer.messageOut.queue.length).map (·, tag))
      answered := Function.update l.answered b (l.answered b ++
        if (l.side b).peer.state.counts message.data then [tag] else []) }
  | tick (l : Link I) (b : Bool) (now : ℕ) (e : Endpoint I) (h : (l.side b).tick now = .ok e) :
    Step l { l with
      side := Function.update l.side b e
      outbox := Function.update l.outbox b (l.outbox b ++ (e.peer.messageOut.queue.drop
        (l.side b).peer.messageOut.queue.length).map (·, 0)) }
  | share (l : Link I) (b : Bool) (p : Peer I) (news : List MessageData)
    (hstate : p.state = (l.side b).peer.state ∨ p.state = .disconnected)
    (hin : p.messageIn.queue = (l.side b).peer.messageIn.queue)
    (hout : p.messageOut.queue = (l.side b).peer.messageOut.queue ++ news)
    (hnews : ∀ data ∈ news, data.isSyncMessage = false) : Step l { l with
      side := Function.update l.side b { l.side b with peer := p }
      outbox := Function.update l.outbox b (l.outbox b ++ news.map (·, 0)) }

inductive Reachable : Link I → Prop
  | start (side : Bool → Endpoint I) (hnew : ∀ b, ∃ random statuses,
      (side b).peer = .new random statuses) : Reachable { side := side }
  | step {l l'} (hl : Reachable l) (h : Step l l') : Reachable l'

end Runs

/-- The number of a message to a side is that of one of its own requests, in a reply, or of one of
the other side's, in a request. -/
structure Genuine (asked : Bool → ℕ) (b : Bool) (m : Message × ℕ) : Prop where
  request : ∀ random, m.1.data = .syncRequest random → m.2 < asked !b
  reply : ∀ random, m.1.data = .syncReply random → m.2 < asked b

/-- One side of a link. -/
structure Holds (asked : Bool → ℕ) (b : Bool) (e : Endpoint I) (inbox : List (Message × ℕ))
    (outbox : List (MessageData × ℕ)) (answered : List ℕ) : Prop where
  messageIn : e.peer.messageIn.queue = inbox.map Prod.fst
  messageOut : e.peer.messageOut.queue = outbox.map Prod.fst
  received : ∀ m ∈ inbox, Genuine asked b m
  replies : ∀ m ∈ outbox, ∀ random, m.1 = .syncReply random → m.2 < asked !b
  counted : e.peer.state.Counted answered.length
  real : ∀ k ∈ answered, k < asked b

structure Inv (l : Link I) : Prop where
  holds : ∀ b, Holds l.asked b (l.side b) (l.inbox b) (l.outbox b) (l.answered b)
  packets : ∀ b, ∀ m ∈ l.packets !b, Genuine l.asked b m

variable {asked asked' : Bool → ℕ} {b : Bool} {e e' : Endpoint I} {inbox : List (Message × ℕ)}
  {outbox : List (MessageData × ℕ)} {answered : List ℕ} {l l' : Link I}

theorem Genuine.mono {m : Message × ℕ} (h : Genuine asked b m) (hle : ∀ c, asked c ≤ asked' c) :
    Genuine asked' b m :=
  ⟨fun random hm => (h.request random hm).trans_le (hle _),
    fun random hm => (h.reply random hm).trans_le (hle _)⟩

theorem Holds.mono (h : Holds asked b e inbox outbox answered) (hle : ∀ c, asked c ≤ asked' c) :
    Holds asked' b e inbox outbox answered :=
  ⟨h.messageIn, h.messageOut, fun m hm => (h.received m hm).mono hle,
    fun m hm random hr => (h.replies m hm random hr).trans_le (hle _), h.counted,
    fun k hk => (h.real k hk).trans_le (hle _)⟩

theorem le_update {asked : Bool → ℕ} {count : ℕ} (hcount : asked b ≤ count) (c : Bool) :
    asked c ≤ Function.update asked b count c := by
  by_cases hc : c = b
  · subst hc
    simpa using hcount
  · simp [hc]

/-- One side has changed. -/
theorem Inv.update (hi : Inv l) {packets : List (Message × ℕ)} {count : ℕ} (hcount : l.asked b ≤ count)
    (h : Holds (Function.update l.asked b count) b e inbox outbox answered)
    (hpackets : ∀ m ∈ packets, Genuine (Function.update l.asked b count) (!b) m) : Inv {
      side := Function.update l.side b e
      inbox := Function.update l.inbox b inbox
      outbox := Function.update l.outbox b outbox
      packets := Function.update l.packets b packets
      asked := Function.update l.asked b count
      answered := Function.update l.answered b answered } := by
  have hle := le_update hcount
  refine ⟨fun c => ?_, fun c m hm => ?_⟩
  · by_cases hc : c = b
    · subst hc
      simpa using h
    · simpa [hc] using (hi.holds c).mono hle
  · by_cases hc : (!c) = b
    · subst hc
      simp only [Function.update_self] at hm
      simpa using hpackets m hm
    · simp only [ne_eq, hc, not_false_eq_true, Function.update_of_ne] at hm
      exact (hi.packets c m hm).mono hle

theorem Inv.update_side (hi : Inv l) (h : Holds l.asked b e inbox outbox answered) : Inv { l with
      side := Function.update l.side b e
      inbox := Function.update l.inbox b inbox
      outbox := Function.update l.outbox b outbox
      answered := Function.update l.answered b answered } := by
  have hpackets : ∀ m ∈ l.packets b, Genuine l.asked (!b) m := fun m hm =>
    hi.packets (!b) m (by rwa [Bool.not_not])
  have hupdate := hi.update (le_refl (l.asked b)) (by simpa using h) (by simpa using hpackets)
  rwa [Function.update_eq_self, Function.update_eq_self] at hupdate

/-- A step that queues these messages, each in answer to a message with this number. -/
theorem Holds.queues {allowed : MessageData → Prop} (h : Holds asked b e inbox outbox answered)
    (tag : ℕ) (hq : Peer.Queues allowed e.peer e'.peer)
    (hallowed : ∀ random, allowed (.syncReply random) → tag < asked !b) :
    e'.peer.messageOut.queue = (outbox ++ (e'.peer.messageOut.queue.drop
      e.peer.messageOut.queue.length).map (·, tag)).map Prod.fst ∧
    ∀ m ∈ outbox ++ (e'.peer.messageOut.queue.drop e.peer.messageOut.queue.length).map (·, tag),
      ∀ random, m.1 = .syncReply random → m.2 < asked !b := by
  obtain ⟨news, hnews, hall⟩ := hq.messageOut
  rw [hnews, List.drop_left]
  refine ⟨by simp [h.messageOut, Function.comp_def], fun m hm random hr => ?_⟩
  rcases List.mem_append.mp hm with hm | hm
  · exact h.replies m hm random hr
  · obtain ⟨said, hsaid, rfl⟩ := List.mem_map.mp hm
    obtain rfl : said = .syncReply random := hr
    exact hallowed random (hall _ hsaid)

theorem deserializeIncoming_queues (e : Endpoint I) (message : Message) : ∃ news,
    (e.deserializeIncoming message).peer.messageIn.queue = e.peer.messageIn.queue ++ news ∧
    (∀ m ∈ news, m = message) ∧
    (e.deserializeIncoming message).peer.messageOut = e.peer.messageOut ∧
    (e.deserializeIncoming message).peer.state = e.peer.state := by
  unfold Endpoint.deserializeIncoming Channel.trySend
  split
  · split
    · next messageIn hsend =>
      split at hsend
      · simp at hsend
      · obtain rfl := Option.some.inj hsend
        exact ⟨[message], rfl, by simp, rfl, rfl⟩
    · exact ⟨[], by simp, by simp, rfl, rfl⟩
  · exact ⟨[], by simp, by simp, rfl, rfl⟩

section Steps

variable [Pod I]

theorem inv_start {side : Bool → Endpoint I}
    (hnew : ∀ b, ∃ random statuses, (side b).peer = .new random statuses) : Inv { side := side } := by
  refine ⟨fun b => ?_, fun b m hm => by simp at hm⟩
  obtain ⟨random, statuses, hpeer⟩ := hnew b
  refine ⟨?_, ?_, by simp, by simp, ?_, by simp⟩
  · rw [hpeer]
    rfl
  · rw [hpeer]
    rfl
  · rw [hpeer]
    rfl

variable [Build] [Varinteger]

theorem inv_step (hi : Inv l) (h : Step l l') : Inv l' := by
  cases h with
  | send b now message e data tag rest hout hsend =>
    have hb := hi.holds b
    have hqueue := hb.messageOut
    rw [hout] at hqueue
    unfold Endpoint.serializeOutgoing at hsend
    rw [hqueue] at hsend
    obtain ⟨hmessage, he⟩ := Prod.mk.inj (Option.some.inj hsend)
    have hdata : message.data = data := by rw [← hmessage]
    have hcount : l.asked b ≤ l.asked b + if message.data.isRequest then 1 else 0 := Nat.le_add_right _ _
    have hle := fun c => le_update hcount c
    have hreply : ∀ m ∈ (data, tag) :: rest, ∀ random, m.1 = .syncReply random →
        m.2 < l.asked !b := by
      rw [← hout]
      exact hb.replies
    have hheld : Holds l.asked b e (l.inbox b) rest (l.answered b) := by
      subst he
      exact ⟨hb.messageIn, rfl, hb.received, fun m hm => hreply m (List.mem_cons_of_mem _ hm),
        hb.counted, hb.real⟩
    have hpackets : ∀ m ∈ (message, if message.data.isRequest then l.asked b else tag) ::
        l.packets b, Genuine (Function.update l.asked b
          (l.asked b + if message.data.isRequest then 1 else 0)) (!b) m := by
      intro m hm
      rcases List.mem_cons.mp hm with rfl | hm
      · refine ⟨fun random hr => ?_, fun random hr => ?_⟩
        · simp [show message.data = .syncRequest random from hr, MessageData.isRequest]
        · have hnot : ¬message.data.isRequest = true := by
            rw [show message.data = .syncReply random from hr]
            simp [MessageData.isRequest]
          rw [if_neg hnot]
          exact (hreply _ List.mem_cons_self random (hdata.symm.trans hr)).trans_le (hle _)
      · exact (hi.packets (!b) m (by rwa [Bool.not_not])).mono hle
    simpa using hi.update hcount (hheld.mono hle) hpackets
  | receive b packet hpacket =>
    have hb := hi.holds b
    obtain ⟨news, hin, hnews, hout, hstate⟩ := deserializeIncoming_queues (l.side b) packet.1
    have hheld : Holds l.asked b ((l.side b).deserializeIncoming packet.1)
        (l.inbox b ++ news.map (·, packet.2)) (l.outbox b) (l.answered b) := by
      refine ⟨?_, by rw [hout, hb.messageOut], fun m hm => ?_, hb.replies, by rw [hstate]; exact hb.counted,
        hb.real⟩
      · rw [hin, hb.messageIn]
        simp [Function.comp_def]
      · rcases List.mem_append.mp hm with hm | hm
        · exact hb.received m hm
        · obtain ⟨message, hmessage, rfl⟩ := List.mem_map.mp hm
          obtain rfl := hnews message hmessage
          exact hi.packets b packet hpacket
    rw [hin, List.drop_left]
    simpa using hi.update_side hheld
  | handle b now message tag rest e hlive hin hhandle =>
    have hb := hi.holds b
    have hqueue := hb.messageIn
    rw [hin] at hqueue
    rw [Endpoint.handle_eq_takeUp hlive hqueue] at hhandle
    have hmoves := ((l.side b).dropMessage.takeUp_moves now message).ok hhandle
    have hgenuine : Genuine l.asked b (message, tag) := hb.received _ (by rw [hin]; exact List.mem_cons_self)
    have hdrop : Holds l.asked b (l.side b).dropMessage rest (l.outbox b) (l.answered b) := by
      refine ⟨?_, hb.messageOut, fun m hm => hb.received m ?_, hb.replies, hb.counted, hb.real⟩
      · show (l.side b).peer.messageIn.queue.tail = _
        rw [hqueue]
        rfl
      · rw [hin]
        exact List.mem_cons_of_mem _ hm
    obtain ⟨hout, hreplies⟩ := hdrop.queues tag hmoves.queues
      fun random hsaid => hgenuine.request random (hsaid.reply random rfl)
    refine hi.update_side ⟨hmoves.queues.messageIn.trans hdrop.messageIn, hout, hdrop.received, hreplies, ?_, ?_⟩
    · refine PeerState.Counted.follows ?_ hmoves.state
      change PeerState.Counted (if (l.side b).peer.state.counts message.data then _ else _) _
      split
      · next hcounts =>
        rw [List.length_append]
        exact hb.counted.advance hcounts
      · rw [List.append_nil]
        exact hb.counted
    · intro k hk
      rcases List.mem_append.mp hk with hk | hk
      · exact hb.real k hk
      · split at hk
        · next hcounts =>
          obtain rfl := List.mem_singleton.mp hk
          obtain ⟨random, hdata⟩ := PeerState.counts_reply hcounts
          exact hgenuine.reply random hdata
        · simp at hk
  | tick b now e htick =>
    have hb := hi.holds b
    have hmoves := ((l.side b).tick_moves now).ok htick
    obtain ⟨hout, hreplies⟩ := hb.queues 0 hmoves.queues
      fun random hsaid => absurd rfl (hsaid random)
    have hheld : Holds l.asked b e (l.inbox b) _ (l.answered b) :=
      ⟨hmoves.queues.messageIn.trans hb.messageIn, hout, hb.received, hreplies,
        hb.counted.follows hmoves.state, hb.real⟩
    simpa using hi.update_side hheld
  | share b p news hstate hin hout hnews =>
    have hb := hi.holds b
    have hheld : Holds l.asked b { l.side b with peer := p } (l.inbox b)
        (l.outbox b ++ news.map (·, 0)) (l.answered b) := by
      refine ⟨hin.trans hb.messageIn, ?_, hb.received, fun m hm random hr => ?_, ?_, hb.real⟩
      · show p.messageOut.queue = _
        rw [hout, hb.messageOut]
        simp [Function.comp_def]
      · rcases List.mem_append.mp hm with hm | hm
        · exact hb.replies m hm random hr
        · obtain ⟨data, hdata, rfl⟩ := List.mem_map.mp hm
          have := hnews data hdata
          rw [show data = .syncReply random from hr] at this
          simp [MessageData.isSyncMessage] at this
      · rcases hstate with hstate | hstate
        · show p.state.Counted _
          rw [hstate]
          exact hb.counted
        · show p.state.Counted _
          rw [hstate]
          trivial
    simpa using hi.update_side hheld

theorem reachable_inv (hl : Reachable l) : Inv l := by
  induction hl with
  | start side hnew => exact inv_start hnew
  | step _ h ih => exact inv_step ih h

end Steps

/-- The replies that have moved a side on, as its state has counted them, all answered requests
of its own, no two of them the same one; and a side that runs has had at least the required
number of different requests answered. -/
structure RealRoundTrips (l : Link I) (b : Bool) : Prop where
  real : ∀ k ∈ l.answered b, k < l.asked b
  counted : (l.side b).peer.state.roundTrips ≤ (l.answered b).toFinset.card
  running : (l.side b).peer.isRunning = true → numSyncPackets ≤ (l.answered b).toFinset.card

section Replies

variable [Build] [Varinteger] [Pod I]

/-- A side synchronizes by real round trips just when no reply is taken for a request that is
answered already. -/
theorem reachable_realRoundTrips_iff (hl : Reachable l)
    (hstate : (l.side b).peer.state ≠ .disconnected) :
    l.RealRoundTrips b ↔ (l.answered b).Nodup := by
  obtain ⟨hholds, -⟩ := reachable_inv hl
  have hcounted := (hholds b).counted.roundTrips_eq hstate
  constructor
  · intro h
    have hle := h.counted
    rw [hcounted] at hle
    exact Multiset.toFinset_card_eq_card_iff_nodup.mp (hle.antisymm' (List.toFinset_card_le _))
  · intro hnodup
    have hcard := List.toFinset_card_of_nodup hnodup
    refine ⟨(hholds b).real, by rw [hcounted, hcard], fun hrun => ?_⟩
    rw [hcard, ← hcounted]
    unfold Peer.isRunning at hrun
    cases hs : (l.side b).peer.state with
    | running remoteMagic => exact Nat.le_succ _
    | interrupted remoteMagic => exact Nat.le_succ _
    | connecting random => simp [hs, PeerState.isRunning] at hrun
    | syncing random remaining => simp [hs, PeerState.isRunning] at hrun
    | disconnected => exact absurd hs hstate

end Replies

/-- Two peers that start to connect. -/
def starting : Link UInt8 where
  side b := {
    peer := .new 1 (List.replicate 2 {})
    config := ⟨20000000, 5000000⟩
    magic := if b then 7 else 3
    lastRecvTime := 0 }

/-- A first round trip. -/
theorem reachable_realRoundTrips_iff_first :
    letI : Build := ⟨true⟩
    letI := Varinteger.leb128
    ∃ l : Link UInt8, Reachable l ∧ (l.side false).peer.state = .syncing 1 5 ∧
      l.answered false = [0] ∧ (l.RealRoundTrips false ↔ (l.answered false).Nodup) := by
  let build : Build := ⟨true⟩
  let varint := Varinteger.leb128
  have h₀ : Reachable starting := .start _ fun b => ⟨1, _, rfl⟩
  have h₁ : Reachable _ := .step h₀ (.tick _ false 0 _ rfl)
  have h₂ : Reachable _ := .step h₁ (.send _ false 1 _ _ _ _ _ rfl rfl)
  have h₃ : Reachable _ := .step h₂ (.receive _ true _ List.mem_cons_self)
  have h₄ : Reachable _ := .step h₃ (.handle _ true 2 _ _ _ _ rfl rfl rfl)
  have h₅ : Reachable _ := .step h₄ (.send _ true 3 _ _ _ _ _ rfl rfl)
  have h₆ : Reachable _ := .step h₅ (.receive _ false _ List.mem_cons_self)
  have h₇ : Reachable _ := .step h₆ (.handle _ false 4 _ _ _ _ rfl rfl rfl)
  exact ⟨_, h₇, rfl, rfl, reachable_realRoundTrips_iff h₇ (by decide)⟩

/-- One side sends a request, the other a reply, and the network delivers it six times. -/
theorem not_realRoundTrips_duplicated :
    letI : Build := ⟨true⟩
    letI := Varinteger.leb128
    ∃ l : Link UInt8, Reachable l ∧ (l.side false).peer.state = .running 7 ∧ l.asked false = 1 ∧
      l.answered false = [0, 0, 0, 0, 0, 0] ∧ ¬l.RealRoundTrips false := by
  let build : Build := ⟨true⟩
  let varint := Varinteger.leb128
  have h₀ : Reachable starting := .start _ fun b => ⟨1, _, rfl⟩
  have h₁ : Reachable _ := .step h₀ (.tick _ false 0 _ rfl)
  have h₂ : Reachable _ := .step h₁ (.send _ false 1 _ _ _ _ _ rfl rfl)
  have h₃ : Reachable _ := .step h₂ (.receive _ true _ List.mem_cons_self)
  have h₄ : Reachable _ := .step h₃ (.handle _ true 2 _ _ _ _ rfl rfl rfl)
  have h₅ : Reachable _ := .step h₄ (.send _ true 3 _ _ _ _ _ rfl rfl)
  have h₆ : Reachable _ := .step h₅ (.receive _ false _ List.mem_cons_self)
  have h₇ : Reachable _ := .step h₆ (.handle _ false 4 _ _ _ _ rfl rfl rfl)
  have h₈ : Reachable _ := .step h₇ (.receive _ false _ List.mem_cons_self)
  have h₉ : Reachable _ := .step h₈ (.handle _ false 5 _ _ _ _ rfl rfl rfl)
  have h₁₀ : Reachable _ := .step h₉ (.receive _ false _ List.mem_cons_self)
  have h₁₁ : Reachable _ := .step h₁₀ (.handle _ false 6 _ _ _ _ rfl rfl rfl)
  have h₁₂ : Reachable _ := .step h₁₁ (.receive _ false _ List.mem_cons_self)
  have h₁₃ : Reachable _ := .step h₁₂ (.handle _ false 7 _ _ _ _ rfl rfl rfl)
  have h₁₄ : Reachable _ := .step h₁₃ (.receive _ false _ List.mem_cons_self)
  have h₁₅ : Reachable _ := .step h₁₄ (.handle _ false 8 _ _ _ _ rfl rfl rfl)
  have h₁₆ : Reachable _ := .step h₁₅ (.receive _ false _ List.mem_cons_self)
  have h₁₇ : Reachable _ := .step h₁₆ (.handle _ false 9 _ _ _ _ rfl rfl rfl)
  exact ⟨_, h₁₇, rfl, rfl, rfl, fun h => absurd (h.running rfl) (by decide)⟩

end Link

end Backroll

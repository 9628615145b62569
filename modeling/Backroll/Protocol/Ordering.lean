import Backroll.Protocol.Timeouts

/-! The order in which `deserialize_incoming` forwards to the task of a peer what arrives. -/
namespace Backroll

open Fallible (Ends)

variable {I : Type}

/-- A sequence number is not older than the last one: it is at most `MAX_SEQ_DISTANCE` ahead. -/
def NotOlder (last seq : UInt16) : Prop := seq - last ≤ maxSeqDistance

namespace Endpoint

/-- The channel to the task holds what it held, and stays closed. -/
structure KeepsInbox (e e' : Endpoint I) : Prop where
  queue : e'.peer.messageIn.queue = e.peer.messageIn.queue
  closed : e.peer.messageIn.closed = true → e'.peer.messageIn.closed = true
  next : e'.nextRecvSeq = e.nextRecvSeq

theorem KeepsInbox.of_eq {e e' : Endpoint I} (h : e'.peer.messageIn = e.peer.messageIn)
    (hnext : e'.nextRecvSeq = e.nextRecvSeq) : KeepsInbox e e' := ⟨by rw [h], by rw [h]; exact id, hnext⟩

theorem KeepsInbox.trans {e e' e'' : Endpoint I} (h : KeepsInbox e e') (h' : KeepsInbox e' e'') :
    KeepsInbox e e'' :=
  ⟨h'.queue.trans h.queue, fun hclosed => h'.closed (h.closed hclosed), h'.next.trans h.next⟩

theorem keepsInbox_disconnect {e : Endpoint I} {p : Peer I} (h : p.messageIn = e.peer.messageIn) :
    KeepsInbox e { e with peer := p.disconnect, ended := true } :=
  ⟨by simp [Peer.disconnect, Channel.close, h], fun _ => rfl, rfl⟩

theorem keepsInbox_orEnd {e : Endpoint I} {result : Except PeerError Unit × Peer I}
    (h : result.2.messageIn = e.peer.messageIn) : KeepsInbox e (e.orEnd result) := by
  refine .of_eq (by rwa [orEnd_peer]) ?_
  unfold orEnd
  split <;> rfl

variable [Build]

theorem tick_keepsInbox {e e' : Endpoint I} {now : ℕ} (h : e.tick now = .ok e') : KeepsInbox e e' := by
  cases hlive : e.ended with
  | true =>
    rw [tick, hlive, if_pos rfl] at h
    obtain rfl := Except.ok.inj h
    exact .of_eq rfl rfl
  | false =>
    obtain ⟨e₁, hnotice, hrest⟩ := tick_cases hlive h
    have hfirst : KeepsInbox e e₁ := by
      rcases notice_cases hnotice with ⟨-, rfl⟩ | ⟨-, -, -, rfl⟩
      · exact .of_eq rfl rfl
      · exact keepsInbox_orEnd (Peer.pushEvent_messageIn _ _)
    refine hfirst.trans ?_
    rcases hrest with ⟨-, rfl⟩ | ⟨-, hexpire⟩
    · exact .of_eq rfl rfl
    · rcases expire_cases hexpire with ⟨-, rfl⟩ | ⟨r, hr, rfl⟩
      · exact keepsInbox_disconnect rfl
      · refine keepsInbox_orEnd ?_
        rcases (poll_sends e₁.peer now).ok hr with rfl | ⟨random, -, rfl⟩
        · rfl
        · exact Peer.send_messageIn _ _

variable [Varinteger] [Pod I]

theorem takeUp_keepsInbox {e e' : Endpoint I} {now : ℕ} {message : Message}
    (h : e.takeUp now message = .ok e') : KeepsInbox e e' := by
  unfold takeUp at h
  obtain ⟨⟨result, p⟩, hhandled, h⟩ := Fallible.bind_eq_ok.mp h
  have hsame : p.messageIn = e.peer.messageIn :=
    ((e.peer.handleMessage_reports now message).ok hhandled).messageIn
  cases result with
  | error err =>
    cases err with
    | invalidMessage =>
      obtain rfl := Except.ok.inj h
      exact .of_eq hsame rfl
    | localDisconnected =>
      obtain rfl := Except.ok.inj h
      exact keepsInbox_disconnect hsame
    | remoteDisconnected =>
      obtain rfl := Except.ok.inj h
      exact keepsInbox_disconnect hsame
  | ok done =>
    dsimp only at h
    split at h
    · obtain rfl := Except.ok.inj h
      have hheard : KeepsInbox e { e with peer := p, lastRecvTime := now } := .of_eq hsame rfl
      exact hheard.trans (keepsInbox_orEnd (Peer.pushEvent_messageIn _ _))
    · obtain rfl := Except.ok.inj h
      exact .of_eq hsame rfl

end Endpoint

/-- A peer with the messages that have been forwarded to its task, and those that the task has
handled. -/
structure Feed (I : Type) where
  endpoint : Endpoint I
  forwarded : List Message := []
  handled : List Message := []

namespace Feed

section Runs

variable [Build] [Varinteger] [Pod I]

/-- Messages arrive, are handled one by one, and the timer goes off. In between, the session and the
other tasks change what they like of the peer, but of the channel only that it may be closed. The
arrivals are kept with the state that they find. -/
inductive Run (e : Endpoint I) : List (Feed I × Message) → Feed I → Prop
  | start : Run e [] { endpoint := e }
  | receive {arrivals f} (hrun : Run e arrivals f) (message : Message) :
    Run e (arrivals ++ [(f, message)]) { f with
      endpoint := f.endpoint.deserializeIncoming message
      forwarded := f.forwarded ++ (f.endpoint.deserializeIncoming message).peer.messageIn.queue.drop
        f.endpoint.peer.messageIn.queue.length }
  | handle {arrivals f} (hrun : Run e arrivals f) (now message rest e') (hlive : f.endpoint.ended = false)
    (hqueue : f.endpoint.peer.messageIn.queue = message :: rest) (h : f.endpoint.handle now = .ok e') :
    Run e arrivals { f with endpoint := e', handled := f.handled ++ [message] }
  | tick {arrivals f} (hrun : Run e arrivals f) (now e') (h : f.endpoint.tick now = .ok e') :
    Run e arrivals { f with endpoint := e' }
  | share {arrivals f} (hrun : Run e arrivals f) (p : Peer I)
    (h : Endpoint.KeepsInbox f.endpoint { f.endpoint with peer := p }) :
    Run e arrivals { f with endpoint := { f.endpoint with peer := p } }

/-- The messages are forwarded, and handled, in order: none is older than the one before. -/
structure Ordered (f : Feed I) : Prop where
  forwarded : f.forwarded.IsChain fun last next => NotOlder last.sequenceNumber next.sequenceNumber
  handled : f.handled.IsChain fun last next => NotOlder last.sequenceNumber next.sequenceNumber

/-- An arrival that does no harm to the order: a request or reply to synchronize, which is filtered,
the first message to be forwarded, or one that is not older than the last. -/
def InTurn (f : Feed I) (message : Message) : Prop :=
  message.data.isSyncMessage = true ∨ f.endpoint.peer.messageIn.closed = true ∨ f.forwarded = [] ∨
    NotOlder f.endpoint.nextRecvSeq message.sequenceNumber

/-- What `deserialize_incoming` remembers is the number of the last message forwarded. -/
structure Remembers (f : Feed I) : Prop where
  forwarded : f.forwarded = f.handled ++ f.endpoint.peer.messageIn.queue
  last : f.endpoint.peer.messageIn.closed = false →
    ∀ last, f.forwarded.getLast? = some last → last.sequenceNumber = f.endpoint.nextRecvSeq

omit [Build] [Varinteger] [Pod I] in
theorem Remembers.keeps {f : Feed I} (h : f.Remembers) {e : Endpoint I} (hkeeps : Endpoint.KeepsInbox f.endpoint e) :
    Remembers { f with endpoint := e } := by
  refine ⟨?_, fun hopen last hlast => ?_⟩
  · rw [h.forwarded, hkeeps.queue]
  · rw [hkeeps.next]
    refine h.last ?_ last hlast
    by_contra hclosed
    rw [hkeeps.closed (by simpa using hclosed)] at hopen
    simp at hopen

end Runs

section Arrivals

variable {f : Feed I}

/-- What an arrival does to the channel: it is added, or dropped, or the channel is closed. -/
theorem deserializeIncoming_cases (e : Endpoint I) (message : Message) :
    e.accepts message = false ∧ e.deserializeIncoming message = e ∨
    e.accepts message = true ∧ (e.deserializeIncoming message).nextRecvSeq = message.sequenceNumber ∧
      (e.deserializeIncoming message).peer.messageIn.closed = e.peer.messageIn.closed ∧
      (e.deserializeIncoming message).peer.messageIn.queue = e.peer.messageIn.queue ++
        if e.peer.messageIn.closed then [] else [message] := by
  unfold Endpoint.deserializeIncoming Channel.trySend
  cases haccepts : e.accepts message with
  | false => exact .inl ⟨rfl, rfl⟩
  | true => cases hclosed : e.peer.messageIn.closed <;> simp [hclosed]

/-- One arrival keeps the order just when it is in turn. -/
theorem receive_ordered (h : f.Remembers) (message : Message) :
    let f' : Feed I := { f with
      endpoint := f.endpoint.deserializeIncoming message
      forwarded := f.forwarded ++ (f.endpoint.deserializeIncoming message).peer.messageIn.queue.drop
        f.endpoint.peer.messageIn.queue.length }
    f'.Remembers ∧ ((f'.forwarded.IsChain fun last next =>
      NotOlder last.sequenceNumber next.sequenceNumber) ↔ (f.forwarded.IsChain fun last next =>
        NotOlder last.sequenceNumber next.sequenceNumber) ∧ f.InTurn message) := by
  intro f'
  rcases deserializeIncoming_cases f.endpoint message with ⟨hrefused, hsame⟩ | ⟨haccepts, hnext, hclosed, hqueue⟩
  · have hf' : f' = f := by
      simp only [f', hsame, List.drop_length, List.append_nil]
    rw [hf']
    refine ⟨h, ?_⟩
    have hsync : message.data.isSyncMessage = true := by
      by_contra hsync
      simp [Endpoint.accepts, hsync] at hrefused
    simp [InTurn, hsync]
  · have hforwarded : f'.forwarded = f.forwarded ++
        if f.endpoint.peer.messageIn.closed then [] else [message] := by
      simp only [f', hqueue, List.drop_left]
    cases hopen : f.endpoint.peer.messageIn.closed with
    | true =>
      rw [hopen, if_pos rfl] at hforwarded hqueue
      refine ⟨⟨?_, fun hopen' => ?_⟩, ?_⟩
      · show f'.forwarded = f.handled ++ (f.endpoint.deserializeIncoming message).peer.messageIn.queue
        rw [hforwarded, hqueue, List.append_nil, List.append_nil]
        exact h.forwarded
      · rw [show f'.endpoint.peer.messageIn.closed = true from hclosed.trans hopen] at hopen'
        simp at hopen'
      · rw [hforwarded, List.append_nil]
        simp [InTurn, hopen]
    | false =>
      rw [hopen, if_neg (by simp)] at hforwarded hqueue
      refine ⟨⟨?_, fun _ last hlast => ?_⟩, ?_⟩
      · show f'.forwarded = f.handled ++ (f.endpoint.deserializeIncoming message).peer.messageIn.queue
        rw [hforwarded, hqueue, h.forwarded, List.append_assoc]
      · rw [hforwarded, List.getLast?_concat] at hlast
        obtain rfl := Option.some.inj hlast
        exact hnext.symm
      · rw [hforwarded, List.isChain_append]
        have hfiltered : message.data.isSyncMessage = true →
            NotOlder f.endpoint.nextRecvSeq message.sequenceNumber := by
          intro hsync
          simp only [Endpoint.accepts, hsync, if_true, Bool.and_eq_true, decide_eq_true_eq] at haccepts
          exact UInt16.not_lt.mp haccepts.2
        have hlast : (∀ last ∈ f.forwarded.getLast?, ∀ next ∈ [message].head?,
            NotOlder last.sequenceNumber next.sequenceNumber) ↔
            (f.forwarded = [] ∨ NotOlder f.endpoint.nextRecvSeq message.sequenceNumber) := by
          rcases List.eq_nil_or_concat' f.forwarded with hnil | ⟨before, last, hconcat⟩
          · simp [hnil]
          · have hremembers := h.last hopen last (by rw [hconcat, List.getLast?_concat])
            simp [hconcat, ← hremembers]
        rw [hlast]
        simp only [List.isChain_singleton, true_and, InTurn, hopen, Bool.false_eq_true, false_or]
        constructor
        · rintro ⟨hchain, hturn⟩
          exact ⟨hchain, .inr hturn⟩
        · rintro ⟨hchain, hsync | hturn⟩
          · exact ⟨hchain, .inr (hfiltered hsync)⟩
          · exact ⟨hchain, hturn⟩

end Arrivals

section Order

variable [Build] [Varinteger] [Pod I] {f : Feed I}

/-- The messages are forwarded in order just when every arrival is in turn. -/
theorem run_forwarded {e : Endpoint I} {arrivals : List (Feed I × Message)} (hrun : Run e arrivals f)
    (hstart : e.peer.messageIn.queue = []) : f.Remembers ∧ ((f.forwarded.IsChain fun last next =>
      NotOlder last.sequenceNumber next.sequenceNumber) ↔
        ∀ f₁ message, (f₁, message) ∈ arrivals → f₁.InTurn message) := by
  induction hrun with
  | start => exact ⟨⟨by simp [hstart], by simp⟩, by simp⟩
  | @receive arrivals f hrun message ih =>
    obtain ⟨hremembers, hiff⟩ := receive_ordered ih.1 message
    refine ⟨hremembers, hiff.trans ?_⟩
    rw [ih.2]
    constructor
    · rintro ⟨hall, hturn⟩ f₁ message₁ hmem
      rcases List.mem_append.mp hmem with hmem | hmem
      · exact hall _ _ hmem
      · obtain ⟨rfl, rfl⟩ : f₁ = f ∧ message₁ = message := by simpa using hmem
        exact hturn
    · exact fun hall => ⟨fun f₁ message₁ hmem => hall _ _ (List.mem_append_left _ hmem),
        hall _ _ (List.mem_append_right _ (List.mem_singleton.mpr rfl))⟩
  | @handle arrivals f hrun now message rest e' hlive hqueue h ih =>
    rw [Endpoint.handle_eq_takeUp hlive hqueue] at h
    have hkeeps := Endpoint.takeUp_keepsInbox h
    refine ⟨⟨?_, fun hopen last hlast => ?_⟩, ih.2⟩
    · show f.forwarded = f.handled ++ [message] ++ e'.peer.messageIn.queue
      rw [hkeeps.queue, ih.1.forwarded, hqueue]
      simp [Endpoint.dropMessage, hqueue]
    · refine (ih.1.last ?_ last hlast).trans hkeeps.next.symm
      by_contra hclosed
      have hclosed : f.endpoint.peer.messageIn.closed = true := by simpa using hclosed
      rw [hkeeps.closed hclosed] at hopen
      simp at hopen
  | @tick arrivals f hrun now e' h ih => exact ⟨ih.1.keeps (Endpoint.tick_keepsInbox h), ih.2⟩
  | @share arrivals f hrun p h ih => exact ⟨ih.1.keeps h, ih.2⟩

/-- The handler sees no stale message after a newer one just when every arrival that is not filtered
is in turn. -/
theorem run_ordered_iff {e : Endpoint I} {arrivals : List (Feed I × Message)} (hrun : Run e arrivals f)
    (hstart : e.peer.messageIn.queue = []) :
    f.Ordered ↔ ∀ f₁ message, (f₁, message) ∈ arrivals → f₁.InTurn message := by
  obtain ⟨hremembers, hiff⟩ := run_forwarded hrun hstart
  refine ⟨fun h => hiff.mp h.forwarded, fun h => ⟨hiff.mpr h, ?_⟩⟩
  have hchain := hiff.mpr h
  rw [hremembers.forwarded] at hchain
  exact hchain.left_of_append

end Order

/-- The numbers wrap around behind 65535, and the late reply that follows is filtered. -/
theorem run_ordered_iff_wrapped :
    letI : Build := ⟨true⟩
    letI := Varinteger.leb128
    ∃ arrivals f, Run Endpoint.starting arrivals f ∧ arrivals.map (·.2.sequenceNumber) = [65535, 2, 65535] ∧
      f.forwarded.map (·.sequenceNumber) = [65535, 2] ∧ f.Ordered := by
  let build : Build := ⟨true⟩
  let varint := Varinteger.leb128
  have hrun : Run Endpoint.starting ([] ++ [(_, _)] ++ [(_, _)] ++ [(_, _)]) _ :=
    .receive (.receive (.receive .start ⟨7, 65535, .keepAlive⟩) ⟨7, 2, .keepAlive⟩)
      ⟨7, 65535, .syncReply 1⟩
  refine ⟨_, _, hrun, rfl, rfl, (run_ordered_iff hrun rfl).mpr fun f₁ message hmem => ?_⟩
  simp only [List.nil_append, List.cons_append, List.mem_cons, List.not_mem_nil, or_false,
    Prod.mk.injEq] at hmem
  rcases hmem with ⟨rfl, rfl⟩ | ⟨rfl, rfl⟩ | ⟨rfl, rfl⟩
  · exact .inr (.inr (.inl rfl))
  · refine .inr (.inr (.inr ?_))
    show (2 : UInt16) - 65535 ≤ 32768
    decide
  · exact .inl rfl

/-- An acknowledgement with number 3 is forwarded behind a message with number 5. -/
theorem not_ordered_inputAck :
    letI : Build := ⟨true⟩
    letI := Varinteger.leb128
    ∃ arrivals f, Run Endpoint.starting arrivals f ∧ Endpoint.starting.peer.messageIn.queue = [] ∧
      f.forwarded = [⟨7, 5, .keepAlive⟩, ⟨7, 3, .inputAck 0⟩] ∧ ¬f.Ordered := by
  let build : Build := ⟨true⟩
  let varint := Varinteger.leb128
  have hrun : Run Endpoint.starting ([] ++ [(_, _)] ++ [(_, _)]) _ :=
    .receive (.receive .start ⟨7, 5, .keepAlive⟩) ⟨7, 3, .inputAck 0⟩
  refine ⟨_, _, hrun, rfl, rfl, fun h => ?_⟩
  have hstale : NotOlder 5 3 := (List.isChain_cons_cons.mp h.forwarded).1
  exact absurd hstale (by unfold NotOlder; decide)

end Feed

end Backroll

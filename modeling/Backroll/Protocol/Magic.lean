import Backroll.Protocol.Exchange

/-! What messages with a foreign magic can do to a connection that runs. -/
namespace Backroll

open Fallible (Ends)

variable {I : Type}

/-- The connection runs, or is interrupted, with this magic. -/
def PeerState.BoundTo (state : PeerState) (magic : ℕ) : Prop :=
  state = .running magic ∨ state = .interrupted magic

/-- Once bound, a connection is bound to the same magic until it is over. -/
def PeerState.StaysWith (state : PeerState) (magic : ℕ) : Prop :=
  state.BoundTo magic ∨ state = .disconnected

section Statuses

variable [Build]

/-- A status that adds nothing to what is known of the player. -/
structure ConnectionStatus.Stale (status remote : ConnectionStatus) : Prop where
  flag : remote.disconnected = true → status.disconnected = true
  frame : remote.lastFrame ≤ status.lastFrame
  asserted : Build.debugAssertions = true → status.lastFrame ≤ remote.lastFrame

/-- Statuses that add nothing to those known, from index `i` on. -/
def StaleFrom (i : ℕ) (statuses known : List ConnectionStatus) : Prop :=
  ∀ j remote, statuses[j]? = some remote → ∃ status, known[i + j]? = some status ∧ status.Stale remote

theorem staleFrom_cons {i : ℕ} {remote : ConnectionStatus} {rest known : List ConnectionStatus} :
    StaleFrom i (remote :: rest) known ↔
      (∃ status, known[i]? = some status ∧ status.Stale remote) ∧ StaleFrom (i + 1) rest known := by
  constructor
  · intro h
    refine ⟨h 0 remote rfl, fun j remote' hj => ?_⟩
    have := h (j + 1) remote' hj
    rwa [show i + (j + 1) = i + 1 + j by omega] at this
  · rintro ⟨hhead, htail⟩ j remote' hj
    cases j with
    | zero =>
      obtain rfl : remote = remote' := by simpa using hj
      exact hhead
    | succ j =>
      have := htail j remote' hj
      rwa [show i + 1 + j = i + (j + 1) by omega] at this

namespace Peer

theorem mergeStatuses_cons (i : ℕ) (remote : ConnectionStatus) (rest known : List ConnectionStatus) :
    mergeStatuses i (remote :: rest) known = match known[i]? with
      | some status => do
        debugAssert (remote.lastFrame ≥ status.lastFrame)
        mergeStatuses (i + 1) rest (known.set i ⟨status.disconnected || remote.disconnected,
          max status.lastFrame remote.lastFrame⟩)
      | none => mergeStatuses (i + 1) rest (known ++ [remote]) := rfl

/-- Statuses below the index stay, and none is forgotten. -/
theorem mergeStatuses_keeps {i : ℕ} {statuses known merged : List ConnectionStatus}
    (h : mergeStatuses i statuses known = .ok merged) :
    known.length ≤ merged.length ∧ ∀ j < i, j < known.length → merged[j]? = known[j]? := by
  induction statuses generalizing i known with
  | nil =>
    obtain rfl := Except.ok.inj h
    exact ⟨le_rfl, fun _ _ _ => rfl⟩
  | cons remote rest ih =>
    rw [mergeStatuses_cons] at h
    split at h
    · obtain ⟨-, -, h⟩ := Fallible.bind_eq_ok.mp h
      obtain ⟨hlength, hkeeps⟩ := ih h
      refine ⟨by simpa using hlength, fun j hj hlt => ?_⟩
      rw [hkeeps j (by omega) (by simpa using hlt), List.getElem?_set_ne (by omega)]
    · obtain ⟨hlength, hkeeps⟩ := ih h
      simp only [List.length_append, List.length_singleton] at hlength hkeeps
      refine ⟨by omega, fun j hj hlt => ?_⟩
      rw [hkeeps j (by omega) (by omega), List.getElem?_append_left hlt]

theorem mergeStatuses_eq_iff {i : ℕ} {statuses known : List ConnectionStatus} :
    mergeStatuses i statuses known = .ok known ↔ StaleFrom i statuses known := by
  induction statuses generalizing i with
  | nil => exact iff_of_true rfl fun j remote hj => by simp at hj
  | cons remote rest ih =>
    rw [staleFrom_cons, ← ih, mergeStatuses_cons]
    cases hi : known[i]? with
    | none =>
      refine iff_of_false (fun h => ?_) (by simp)
      have := (mergeStatuses_keeps h).1
      simp at this
    | some status =>
      obtain ⟨hlt, hget⟩ := List.getElem?_eq_some_iff.mp hi
      have hset : ∀ merged, mergeStatuses (i + 1) rest (known.set i merged) = .ok known →
          merged = status := by
        intro merged h
        have := (mergeStatuses_keeps h).2 i (by omega) (by simpa using hlt)
        rw [hi, List.getElem?_set_self hlt] at this
        exact (Option.some.inj this).symm
      constructor
      · intro h
        obtain ⟨_, hassert, h⟩ := Fallible.bind_eq_ok.mp h
        have hmerged := hset _ h
        have hdebug : Build.debugAssertions = true → remote.lastFrame ≥ status.lastFrame := by
          have := debugAssert_ends (remote.lastFrame ≥ status.lastFrame)
          exact this.ok hassert
        rw [hmerged, ← hget, List.set_getElem_self] at h
        refine ⟨⟨status, rfl, fun hflag => ?_, ?_, hdebug⟩, h⟩
        · rw [← hmerged]
          simp [hflag]
        · rw [← hmerged]
          exact le_max_right _ _
      · rintro ⟨⟨status', hstatus, hstale⟩, h⟩
        obtain rfl := Option.some.inj hstatus
        have hmerged : (⟨status.disconnected || remote.disconnected,
            max status.lastFrame remote.lastFrame⟩ : ConnectionStatus) = status := by
          have hflag := hstale.flag
          rw [max_eq_left hstale.frame]
          cases hd : remote.disconnected
          · simp
          · simp [← hflag hd]
        have hassert : debugAssert (remote.lastFrame ≥ status.lastFrame) = .ok () := by
          unfold debugAssert
          rw [if_neg]
          rintro ⟨hdebug, hnot⟩
          exact hnot (hstale.asserted hdebug)
        dsimp only
        rw [hassert, Fallible.ok_bind, hmerged, ← hget, List.set_getElem_self]
        exact h

end Peer

end Statuses

namespace Peer

variable [Build] [Varinteger] [Pod I]

/-- A message that finds nothing to do. -/
def Harmless (p : Peer I) (message : Message) : Prop :=
  match message.data with
  | .syncReply _ => True
  | .syncRequest _ => p.state.isInterrupted = false
  | .input input => StaleFrom 0 input.peerConnectStatus p.peerConnectStatus ∧
      ∃ err, Compression.decode (Zeroable.zeroed : I) input.bits = .ok (.error err)
  | _ => False

theorem decode_of_error {bits : List UInt8} {err : DecodeError}
    (h : Compression.decode (Zeroable.zeroed : I) bits = .ok (.error err)) (d : InputDecoder)
    (startFrame : ℤ) : d.decode (I := I) startFrame bits = .ok (.error err, d) := by
  simp [InputDecoder.decode, h]

theorem decode_error_of {bits : List UInt8} (d : InputDecoder) (startFrame : ℤ) :
    Ends (d.decode (I := I) startFrame bits) (fun r => ∀ err, r.1 = .error err →
      Compression.decode (Zeroable.zeroed : I) bits = .ok (.error err)) fun _ => True := by
  unfold InputDecoder.decode
  cases Compression.decode (Zeroable.zeroed : I) bits with
  | error e => trivial
  | ok result =>
    cases result with
    | error err =>
      intro err' h
      obtain rfl := Except.error.inj h
      rfl
    | ok inputs =>
      dsimp only [Fallible.ok_bind]
      exact .bind_any fun _ err h => nomatch h

/-- A harmless message with a foreign magic is refused. -/
theorem Harmless.handleMessage {p : Peer I} {message : Message} (h : p.Harmless message) {magic : ℕ}
    (hstate : p.state.BoundTo magic) (hmagic : message.magic ≠ magic) (now : ℕ) :
    p.handleMessage now message = .ok (.error .invalidMessage, p) := by
  obtain ⟨foreign, seq, data⟩ := message
  cases data with
  | syncReply random =>
    rcases hstate with hstate | hstate
    · simp [Peer.handleMessage, onSyncReply, hstate, PeerState.random?, hmagic]
    · simp [Peer.handleMessage, onSyncReply, hstate, PeerState.random?]
  | syncRequest random =>
    rcases hstate with hstate | hstate
    · simp [Peer.handleMessage, onSyncRequest, hstate, hmagic]
    · simp [Harmless, hstate, PeerState.isInterrupted] at h
  | input input =>
    obtain ⟨hstale, err, hdecode⟩ := h
    simp [Peer.handleMessage, onInput, mergeStatuses_eq_iff.mpr hstale, decode_of_error hdecode]
  | keepAlive => exact h.elim
  | inputAck ackFrame => exact h.elim
  | qualityReport frameAdvantage ping => exact h.elim
  | qualityReply pong => exact h.elim

omit [Build] [Varinteger] [Pod I] in
theorem send_ne_invalid (p : Peer I) (msg : MessageData) : (p.send msg).1 ≠ .error .invalidMessage := by
  intro h
  unfold send at h
  split at h <;> simp at h

/-- Inputs are refused where their bits do not decode, once their statuses are merged. -/
theorem onInput_invalid {p p' : Peer I} {now : ℕ} {input : InputMessage}
    (h : p.onInput now input = .ok (.error .invalidMessage, p')) :
    ∃ statuses err, mergeStatuses 0 input.peerConnectStatus p.peerConnectStatus = .ok statuses ∧
      Compression.decode (Zeroable.zeroed : I) input.bits = .ok (.error err) ∧
      p' = { p with peerConnectStatus := statuses } := by
  obtain ⟨statuses, hmerge, h⟩ := Fallible.bind_eq_ok.mp h
  obtain ⟨⟨decoded, decoder⟩, hdecode, h⟩ := Fallible.bind_eq_ok.mp h
  have herror := (decode_error_of _ _).ok hdecode
  cases decoded with
  | error err =>
    obtain ⟨-, rfl⟩ := Prod.mk.inj (Except.ok.inj h)
    have hbits := herror err rfl
    obtain ⟨-, rfl⟩ := Prod.mk.inj (Except.ok.inj (hdecode.symm.trans (decode_of_error hbits _ _)))
    exact ⟨statuses, err, hmerge, hbits, rfl⟩
  | ok inputs =>
    dsimp only at h
    by_cases hnil : inputs = []
    · simp [hnil] at h
    · rw [if_neg hnil] at h
      split at h
      · next err herr =>
        obtain ⟨hinvalid, -⟩ := Prod.mk.inj (Except.ok.inj h)
        rw [hinvalid] at herr
        unfold pushEvent at herr
        split at herr
        · next hpush => split at hpush <;> simp_all
        · exact absurd herr (send_ne_invalid _ _)
      · exact nomatch (Prod.mk.inj (Except.ok.inj h)).1

/-- Where it is refused, and leaves the statuses, it is harmless. -/
theorem harmless_of_refused {p p' : Peer I} {message : Message} {now : ℕ}
    (h : p.handleMessage now message = .ok (.error .invalidMessage, p'))
    (hstatus : p'.peerConnectStatus = p.peerConnectStatus) : p.Harmless message := by
  obtain ⟨foreign, seq, data⟩ := message
  cases data with
  | syncReply random => trivial
  | syncRequest random =>
    have h := Except.ok.inj h
    unfold onSyncRequest at h
    cases hstate : p.state with
    | running remoteMagic => simp [Harmless, hstate, PeerState.isInterrupted]
    | connecting random => simp [Harmless, hstate, PeerState.isInterrupted]
    | syncing random remaining => simp [Harmless, hstate, PeerState.isInterrupted]
    | disconnected => simp [Harmless, hstate, PeerState.isInterrupted]
    | interrupted remoteMagic =>
      rw [hstate] at h
      exact absurd (congrArg Prod.fst h) (send_ne_invalid _ _)
  | input input =>
    obtain ⟨statuses, err, hmerge, hbits, rfl⟩ := onInput_invalid h
    obtain rfl : statuses = p.peerConnectStatus := hstatus
    exact ⟨mergeStatuses_eq_iff.mp hmerge, err, hbits⟩
  | keepAlive => simp [Peer.handleMessage] at h
  | inputAck ackFrame => simp [Peer.handleMessage] at h
  | qualityReport frameAdvantage ping => exact absurd (congrArg Prod.fst (Except.ok.inj h)) (send_ne_invalid _ _)
  | qualityReply pong =>
    obtain ⟨_, -, h⟩ := Fallible.bind_eq_ok.mp h
    exact nomatch (Prod.mk.inj (Except.ok.inj h)).1

end Peer

theorem PeerState.BoundTo.random?_eq {state : PeerState} {magic : ℕ} (h : state.BoundTo magic) :
    state.random? = none := by
  rcases h with rfl | rfl <;> rfl

theorem PeerState.StaysWith.random?_eq {state : PeerState} {magic : ℕ} (h : state.StaysWith magic) :
    state.random? = none := by
  rcases h with h | rfl
  · exact h.random?_eq
  · rfl

theorem PeerState.StaysWith.follows {state state' : PeerState} {magic : ℕ}
    (h : state.StaysWith magic) (hnext : state.Follows state') : state'.StaysWith magic := by
  rcases hnext with rfl | rfl | rfl | rfl
  · exact .inr rfl
  · exact h
  · rcases h with (rfl | rfl) | rfl
    · exact .inl (.inl rfl)
    · exact .inl (.inl rfl)
    · exact .inr rfl
  · rcases h with (rfl | rfl) | rfl
    · exact .inl (.inr rfl)
    · exact .inl (.inr rfl)
    · exact .inr rfl

namespace Endpoint

/-- Nothing of the connection changes, and nothing is sent. -/
structure Untouched (e e' : Endpoint I) : Prop where
  state : e'.peer.state = e.peer.state
  inputDecoder : e'.peer.inputDecoder = e.peer.inputDecoder
  inputEncoder : e'.peer.inputEncoder = e.peer.inputEncoder
  peerConnectStatus : e'.peer.peerConnectStatus = e.peer.peerConnectStatus
  stats : e'.peer.stats = e.peer.stats
  lastRecvTime : e'.lastRecvTime = e.lastRecvTime
  messageOut : e'.peer.messageOut = e.peer.messageOut

theorem deserializeIncoming_untouched (e : Endpoint I) (message : Message) :
    Untouched e (e.deserializeIncoming message) := by
  unfold deserializeIncoming
  split
  · split <;> exact ⟨rfl, rfl, rfl, rfl, rfl, rfl, rfl⟩
  · exact ⟨rfl, rfl, rfl, rfl, rfl, rfl, rfl⟩

theorem orEnd_lastRecvTime (e : Endpoint I) (result : Except PeerError Unit × Peer I) :
    (e.orEnd result).lastRecvTime = e.lastRecvTime := by
  unfold orEnd
  split <;> rfl

section Runs

variable [Build] [Varinteger] [Pod I]

/-- What the tasks of a peer do with a message. -/
inductive Deed
  | receives (message : Message)
  | handles (message : Message)
  | other

/-- The tasks of a peer, packet by packet and tick by tick. In between, the session and the tasks
that only send change what they like of the peer, but of its state only that it may be over. -/
inductive Step : Endpoint I → Deed → Endpoint I → Prop
  | receive (e : Endpoint I) (message) : Step e (.receives message) (e.deserializeIncoming message)
  | handle (e now message rest e') (hlive : e.ended = false)
    (hqueue : e.peer.messageIn.queue = message :: rest) (h : e.handle now = .ok e') :
    Step e (.handles message) e'
  | tick (e now e') (h : e.tick now = .ok e') : Step e .other e'
  | send (e now message e') (h : e.serializeOutgoing now = some (message, e')) : Step e .other e'
  | share (e : Endpoint I) (p : Peer I)
    (hstate : p.state = e.peer.state ∨ p.state = .disconnected) : Step e .other { e with peer := p }

/-- A run, with every step that it takes. -/
inductive Run : Endpoint I → List (Endpoint I × Deed × Endpoint I) → Prop
  | nil (e) : Run e []
  | cons (e deed e' steps) (h : Step e deed e') (hrun : Run e' steps) : Run e ((e, deed, e') :: steps)

variable {e e' : Endpoint I} {magic : ℕ}

/-- A message with a foreign magic is taken up without any effect, whenever that happens, just
when it is harmless. -/
theorem takeUp_untouched_iff {message : Message} (hstate : e.peer.state.BoundTo magic)
    (hmagic : message.magic ≠ magic) :
    (∀ now, ∃ e', e.takeUp now message = .ok e' ∧ Untouched e e') ↔ e.peer.Harmless message := by
  constructor
  · intro h
    obtain ⟨e', htakeUp, huntouched⟩ := h (e.lastRecvTime + 1)
    obtain ⟨⟨result, p⟩, hmessage, htakeUp⟩ := Fallible.bind_eq_ok.mp htakeUp
    have hover : e' ≠ { e with peer := p.disconnect, ended := true } := by
      rintro rfl
      have hdisconnected : PeerState.disconnected = e.peer.state := huntouched.state
      rcases hstate with hstate | hstate <;> simp [hstate] at hdisconnected
    cases result with
    | ok done =>
      have htime := huntouched.lastRecvTime
      dsimp only at htakeUp
      split at htakeUp
      · obtain rfl := Except.ok.inj htakeUp
        rw [orEnd_lastRecvTime] at htime
        simp at htime
      · obtain rfl := Except.ok.inj htakeUp
        simp at htime
    | error err =>
      cases err with
      | invalidMessage =>
        obtain rfl := Except.ok.inj htakeUp
        exact Peer.harmless_of_refused hmessage huntouched.peerConnectStatus
      | localDisconnected => exact absurd (Except.ok.inj htakeUp).symm hover
      | remoteDisconnected => exact absurd (Except.ok.inj htakeUp).symm hover
  · intro hharmless now
    refine ⟨e, ?_, ⟨rfl, rfl, rfl, rfl, rfl, rfl, rfl⟩⟩
    unfold takeUp
    rw [hharmless.handleMessage hstate hmagic now]
    rfl

theorem takeUp_staysWith (h : e.peer.state.StaysWith magic) (now : ℕ) (message : Message) :
    Ends (e.takeUp now message) (fun e' => e'.peer.state.StaysWith magic) fun _ => True := by
  refine (e.takeUp_moves now message).imp fun e' he' => ?_
  have hcounts : e.peer.state.counts message.data = false := by
    unfold PeerState.counts
    rw [h.random?_eq]
  have hnext := he'.state
  rw [hcounts] at hnext
  exact h.follows hnext

theorem Step.staysWith {deed : Deed} (hstep : Step e deed e') (h : e.peer.state.StaysWith magic) :
    e'.peer.state.StaysWith magic := by
  cases hstep with
  | receive message => rwa [(deserializeIncoming_untouched e message).state]
  | handle now message rest _ hlive hqueue hhandle =>
    rw [handle_eq_takeUp hlive hqueue] at hhandle
    exact (takeUp_staysWith (e := e.dropMessage) h now message).ok hhandle
  | tick now _ htick => exact h.follows ((e.tick_moves now).ok htick).state
  | send now message _ hsend =>
    unfold serializeOutgoing at hsend
    split at hsend
    · simp at hsend
    · obtain ⟨-, rfl⟩ := Prod.mk.inj (Option.some.inj hsend)
      exact h
  | share p hstate =>
    rcases hstate with hstate | hstate
    · rwa [hstate]
    · exact .inr hstate

/-- As long as all foreign messages it handles are harmless, a connection that runs has nothing
changed by any message with a magic other than its own. -/
theorem run_untouched {steps : List (Endpoint I × Deed × Endpoint I)} (hrun : Run e steps)
    (hstate : e.peer.state = .running magic)
    (hharmless : ∀ e₁ message e₂, (e₁, .handles message, e₂) ∈ steps → message.magic ≠ magic →
      e₁.peer.state.BoundTo magic → e₁.peer.Harmless message) :
    ∀ e₁ deed e₂, (e₁, deed, e₂) ∈ steps → e₁.peer.state.StaysWith magic ∧
      ∀ message, deed = .receives message ∨ deed = .handles message → message.magic ≠ magic →
        e₁.peer.state.BoundTo magic → Untouched e₁ e₂ := by
  have hstays : e.peer.state.StaysWith magic := .inl (.inl hstate)
  clear hstate
  induction hrun with
  | nil => simp
  | cons e deed e' steps hstep hrun ih =>
    intro e₁ deed₁ e₂ hmem
    rcases List.mem_cons.mp hmem with heq | hmem
    · obtain ⟨rfl, rfl, rfl⟩ : e₁ = e ∧ deed₁ = deed ∧ e₂ = e' := by simpa using heq
      refine ⟨hstays, fun message hdeed hmagic hbound => ?_⟩
      rcases hdeed with rfl | rfl
      · cases hstep with
        | receive => exact deserializeIncoming_untouched _ _
      · have hless := hharmless _ _ _ List.mem_cons_self hmagic hbound
        cases hstep with
        | handle now _ rest _ hlive hqueue hhandle =>
          obtain ⟨e'', htakeUp, huntouched⟩ :=
            (takeUp_untouched_iff (e := e₁.dropMessage) hbound hmagic).mpr hless now
          rw [handle_eq_takeUp hlive hqueue, htakeUp] at hhandle
          obtain rfl := Except.ok.inj hhandle
          exact ⟨huntouched.state, huntouched.inputDecoder, huntouched.inputEncoder,
            huntouched.peerConnectStatus, huntouched.stats, huntouched.lastRecvTime,
            huntouched.messageOut⟩
    · exact ih (fun e₁ message e₂ h => hharmless e₁ message e₂ (List.mem_cons_of_mem _ h))
        (hstep.staysWith hstays) e₁ deed₁ e₂ hmem

end Runs

/-- A peer whose connection runs. -/
def running : Endpoint UInt8 where
  peer := { Peer.new 1 (List.replicate 2 {}) with state := .running 7 }
  config := ⟨20000000, 5000000⟩
  magic := 3
  lastRecvTime := 0

/-- A stray reply reaches a connection that is interrupted. -/
theorem run_untouched_interrupted :
    letI : Build := ⟨true⟩
    letI := Varinteger.leb128
    ∃ (e : Endpoint UInt8) (steps : List (Endpoint UInt8 × Deed × Endpoint UInt8)) (e₁ e₂ : Endpoint UInt8)
      (message : Message), e.peer.state = .running 7 ∧ Run e (steps ++ [(e₁, .handles message, e₂)]) ∧
      e₁.peer.state = .interrupted 7 ∧ message.magic = 8 ∧ Untouched e₁ e₂ := by
  let build : Build := ⟨true⟩
  let varint := Varinteger.leb128
  have hrun : Run running ([_, _] ++ [_]) := .cons _ _ _ _ (.tick _ 6 _ rfl) <|
    .cons _ _ _ _ (.receive _ ⟨8, 0, .syncReply 4⟩) <|
    .cons _ _ _ _ (.handle _ 7 _ _ _ rfl rfl rfl) <| .nil _
  refine ⟨running, _, _, _, _, rfl, hrun, rfl, rfl, ?_⟩
  have huntouched := run_untouched hrun (rfl : _ = PeerState.running 7) fun e₁ message e₂ hmem _ _ => ?_
  · exact (huntouched _ _ _ (List.mem_append_right _ List.mem_cons_self)).2 ⟨8, 0, .syncReply 4⟩
      (.inr rfl) (by decide) (.inr rfl)
  have hmessage : message = ⟨8, 0, .syncReply 4⟩ := by
    rcases List.mem_cons.mp hmem with h | hmem
    · exact nomatch (Prod.mk.inj (Prod.mk.inj h).2).1
    rcases List.mem_cons.mp hmem with h | hmem
    · exact nomatch (Prod.mk.inj (Prod.mk.inj h).2).1
    · obtain h := List.mem_singleton.mp hmem
      exact Deed.handles.inj (Prod.mk.inj (Prod.mk.inj h).2).1
  rw [hmessage]
  trivial

/-- A peer of a two-player session that starts to connect. -/
def starting : Endpoint UInt8 where
  peer := .new 1 (List.replicate 2 {})
  config := ⟨5000000000, 750000000⟩
  magic := 3
  lastRecvTime := 0

/-- A reply to the peer's requests, from an endpoint with magic 7. -/
def reply (sequenceNumber : UInt16) : Message := ⟨7, sequenceNumber, .syncReply 1⟩

/-- The first input of somebody else. -/
def strayInput : Message := ⟨8, 0, .input ⟨[⟨false, nullFrame⟩, ⟨false, 0⟩], 0, nullFrame, [2, 5]⟩⟩

/-- The peer has come to run with magic 7, and takes an input with magic 8 for one of the remote
player: it is decoded, acknowledged, and keeps the connection alive. -/
theorem not_untouched_strayInput :
    letI : Build := ⟨true⟩
    letI := Varinteger.leb128
    ∃ steps e₁ e₂, Run starting (steps ++ [(e₁, .handles strayInput, e₂)]) ∧
      e₁.peer.state = .running 7 ∧ strayInput.magic ≠ 7 ∧ e₂.peer.inputDecoder.lastDecoded = 0 ∧
      e₂.peer.messageOut.queue = e₁.peer.messageOut.queue ++ [.inputAck 0] ∧
      e₂.lastRecvTime = 9 ∧ ¬Untouched e₁ e₂ :=
  letI : Build := ⟨true⟩
  letI := Varinteger.leb128
  have hrun : Run starting ([_, _, _, _, _, _, _, _, _, _, _, _, _] ++ [_]) :=
    .cons _ _ _ _ (.receive _ (reply 0)) <| .cons _ _ _ _ (.handle _ 1 _ _ _ rfl rfl rfl) <|
    .cons _ _ _ _ (.receive _ (reply 1)) <| .cons _ _ _ _ (.handle _ 2 _ _ _ rfl rfl rfl) <|
    .cons _ _ _ _ (.receive _ (reply 2)) <| .cons _ _ _ _ (.handle _ 3 _ _ _ rfl rfl rfl) <|
    .cons _ _ _ _ (.receive _ (reply 3)) <| .cons _ _ _ _ (.handle _ 4 _ _ _ rfl rfl rfl) <|
    .cons _ _ _ _ (.receive _ (reply 4)) <| .cons _ _ _ _ (.handle _ 5 _ _ _ rfl rfl rfl) <|
    .cons _ _ _ _ (.receive _ (reply 5)) <| .cons _ _ _ _ (.handle _ 6 _ _ _ rfl rfl rfl) <|
    .cons _ _ _ _ (.receive _ strayInput) <| .cons _ _ _ _ (.handle _ 9 _ _ _ rfl rfl rfl) <|
    .nil _
  ⟨_, _, _, hrun, rfl, by decide, rfl, rfl, rfl, fun h => absurd h.lastRecvTime (by decide)⟩

end Endpoint

end Backroll

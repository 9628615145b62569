import Backroll.Protocol.Magic
import Backroll.Protocol.Reports
import Mathlib.Logic.Relation

/-! The states of a peer, whatever moves them: the messages of the handshake, the timer of the
peer's task, and the session that disconnects it. -/
namespace Backroll

open Fallible (Ends)
open Relation (ReflTransGen)

variable {I : Type}

namespace PeerState

/-- How far a connection has come. -/
def phase : PeerState → ℕ
  | connecting _ => 0
  | syncing _ _ => 1
  | running _ | interrupted _ => 2
  | disconnected => 3

/-- While a peer synchronizes, at least one round trip remains, and not more than there were. -/
def InRange : PeerState → Prop
  | syncing _ roundtripsRemaining => 1 ≤ roundtripsRemaining ∧ roundtripsRemaining ≤ numSyncPackets
  | _ => True

/-- What a later state keeps of an earlier one. -/
structure Precedes (state state' : PeerState) : Prop where
  phase : state.phase ≤ state'.phase
  random : ∀ random random', state.random? = some random → state'.random? = some random' →
    random' = random
  magic : ∀ magic, state.BoundTo magic → state'.StaysWith magic
  ended : state = .disconnected → state' = .disconnected

variable {state state' state'' : PeerState}

theorem random?_of_phase {random : ℕ} (h : state.phase ≤ state'.phase)
    (hrandom : state'.random? = some random) : ∃ random', state.random? = some random' := by
  cases state' with
  | connecting r => cases state <;> simp_all [phase, random?]
  | syncing r remaining => cases state <;> simp_all [phase, random?]
  | running magic => simp [random?] at hrandom
  | interrupted magic => simp [random?] at hrandom
  | disconnected => simp [random?] at hrandom

theorem Precedes.refl (state : PeerState) : state.Precedes state where
  phase := le_rfl
  random := fun _ _ h h' => Option.some.inj (h'.symm.trans h)
  magic := fun _ h => .inl h
  ended := id

theorem Precedes.trans (h : state.Precedes state') (h' : state'.Precedes state'') : state.Precedes state'' where
  phase := h.phase.trans h'.phase
  random := by
    intro random random'' hrandom hrandom''
    obtain ⟨random', hrandom'⟩ := random?_of_phase h'.phase hrandom''
    exact (h'.random _ _ hrandom' hrandom'').trans (h.random _ _ hrandom hrandom')
  magic := by
    intro magic hmagic
    rcases h.magic magic hmagic with hbound | hover
    · exact h'.magic magic hbound
    · exact .inr (h'.ended hover)
  ended := fun hover => h'.ended (h.ended hover)

theorem precedes_disconnected (state : PeerState) : state.Precedes .disconnected where
  phase := by cases state <;> simp [phase]
  random := fun _ _ _ h => nomatch h
  magic := fun _ _ => .inr rfl
  ended := fun _ => rfl

theorem precedes_interrupt (state : PeerState) : state.Precedes state.interrupt.2 := by
  cases state with
  | running magic =>
    refine ⟨le_rfl, fun _ _ h => (nomatch h), fun magic' h => ?_, fun h => (nomatch h)⟩
    rcases h with h | h
    · obtain rfl := PeerState.running.inj h
      exact .inl (.inr rfl)
    · exact nomatch h
  | _ => exact .refl _

theorem precedes_resume (state : PeerState) : state.Precedes state.resume.2 := by
  cases state with
  | interrupted magic =>
    refine ⟨le_rfl, fun _ _ h => (nomatch h), fun magic' h => ?_, fun h => (nomatch h)⟩
    rcases h with h | h
    · exact nomatch h
    · obtain rfl := PeerState.interrupted.inj h
      exact .inl (.inl rfl)
  | _ => exact .refl _

theorem not_boundTo_of_random? {random magic : ℕ} (h : state.random? = some random) :
    ¬state.BoundTo magic := by
  intro hbound
  rw [hbound.random?_eq] at h
  exact nomatch h

theorem precedes_advance (state : PeerState) (magic : ℕ) : state.Precedes (state.advance magic) := by
  cases state with
  | connecting random =>
    exact ⟨Nat.zero_le _, fun _ _ h h' => Option.some.inj (h'.symm.trans h),
      fun _ h => absurd h (not_boundTo_of_random? rfl), by simp⟩
  | syncing random remaining =>
    refine ⟨?_, fun _ _ h h' => ?_, fun _ h => absurd h (not_boundTo_of_random? rfl), by simp⟩
    · simp only [advance]
      split
      · exact Nat.le_succ 1
      · exact le_rfl
    · simp only [advance] at h'
      split at h'
      · simp [random?] at h'
      · exact Option.some.inj (h'.symm.trans h)
  | running magic' => exact .refl _
  | interrupted magic' => exact .refl _
  | disconnected => exact .refl _

theorem InRange.interrupt (h : state.InRange) : state.interrupt.2.InRange := by
  cases state with
  | syncing random remaining => exact h
  | _ => trivial

theorem InRange.resume (h : state.InRange) : state.resume.2.InRange := by
  cases state with
  | syncing random remaining => exact h
  | _ => trivial

theorem InRange.advance (h : state.InRange) (magic : ℕ) : (state.advance magic).InRange := by
  cases state with
  | connecting random => exact ⟨by decide, le_rfl⟩
  | syncing random remaining =>
    obtain ⟨hpos, hle⟩ := h
    have hfive : numSyncPackets = 5 := rfl
    simp only [PeerState.advance]
    split
    · trivial
    · exact ⟨by omega, by omega⟩
  | running magic' => trivial
  | interrupted magic' => trivial
  | disconnected => trivial

/-- A count that is announced lies strictly between none and all of the round trips. -/
theorem InRange.announced (h : state.InRange) {data : MessageData} {total count : ℕ}
    (hmem : (.synchronizing total count : ProtocolEvent I) ∈ state.announced data) :
    total = numSyncPackets ∧ 0 < count ∧ count < numSyncPackets := by
  unfold PeerState.announced at hmem
  cases state with
  | connecting random => split at hmem <;> simp_all
  | syncing random remaining =>
    obtain ⟨hpos, hle⟩ := h
    have hfive : numSyncPackets = 5 := rfl
    dsimp only at hmem
    split at hmem
    · split at hmem
      · simp at hmem
      · next hmore =>
        obtain ⟨rfl, rfl⟩ := ProtocolEvent.synchronizing.inj (List.mem_singleton.mp hmem)
        exact ⟨rfl, by omega, by omega⟩
    · simp at hmem
  | running magic => simp at hmem
  | interrupted magic => simp at hmem
  | disconnected => simp at hmem

end PeerState

namespace Peer

variable {p : Peer I}

/-- A poll asks for a request only while the peer connects or synchronizes. -/
theorem poll_total (p : Peer I) (now : ℕ) : Ends (p.poll now) (fun _ => True) fun _ => False := by
  have hrequest : ∀ random, p.state.createSyncRequest = .ok (.syncRequest random) →
      Ends (do
        let request ← p.state.createSyncRequest
        return p.send request) (fun _ => True) fun _ => False := by
    intro random hrandom
    rw [hrandom]
    trivial
  have hretry : ∀ random, p.state.createSyncRequest = .ok (.syncRequest random) →
      ∀ lastSendTime nextInterval, Ends (if lastSendTime + nextInterval < now then do
        let request ← p.state.createSyncRequest
        return p.send request
      else return (.ok (), p)) (fun _ => True) fun _ => False := by
    intro random hrandom lastSendTime nextInterval
    split
    · exact hrequest random hrandom
    · trivial
  unfold poll
  cases p.stats.lastSendTime with
  | none =>
    dsimp only
    split
    · next random hstate => exact hrequest random (by rw [hstate]; rfl)
    · next random remaining hstate => exact hrequest random (by rw [hstate]; rfl)
    · trivial
  | some lastSendTime =>
    dsimp only
    split
    · next random hstate => exact hretry random (by rw [hstate]; rfl) _ _
    · next random remaining hstate => exact hretry random (by rw [hstate]; rfl) _ _
    · trivial

variable [Build]

/-- In range, no reply makes the count underflow or asks for a request out of turn. -/
theorem onSyncReply_total (h : p.state.InRange) (now magic random : ℕ) :
    Ends (p.onSyncReply now magic random) (fun _ => True) fun _ => False := by
  unfold onSyncReply
  split
  · trivial
  · split
    · next random' hstate =>
      have hpush := p.pushEvent_state .connected
      split
      · trivial
      · next p₁ hpushed =>
        rw [hpushed] at hpush
        rw [hpush, hstate]
        trivial
    · next random' remaining hstate =>
      rw [hstate] at h
      have hassert : debugAssert (remaining > 0) = .ok () := by
        unfold debugAssert
        rw [if_neg]
        rintro ⟨-, hnot⟩
        exact hnot h.1
      rw [hassert, Fallible.ok_bind]
      dsimp only
      split
      · split <;> trivial
      · have hpush := Peer.pushEvent_state { p with
          state := .syncing random' ((remaining + 255) % 256) }
          (.synchronizing numSyncPackets (numSyncPackets - (remaining + 255) % 256))
        split
        · trivial
        · next p₁ hpushed =>
          rw [hpushed] at hpush
          rw [hpush]
          trivial
    · split <;> trivial
    · trivial

/-- A peer after a message of its task: a failure disconnects it, unless the message was only
invalid. -/
def afterMessage : Except PeerError Unit × Peer I → Peer I
  | (.error .localDisconnected, p) | (.error .remoteDisconnected, p) => p.disconnect
  | (_, p) => p

variable [Varinteger] [Pod I]

/-- What a peer goes through, one lock of its state at a time. Whatever else the session and the
tasks of the peer do, closing channels included, leaves its state. -/
inductive Step : Peer I → Peer I → Prop
  | message (p : Peer I) (now message result) (h : p.handleMessage now message = .ok result) :
    Step p (afterMessage result)
  | poll (p : Peer I) (now result p') (h : p.poll now = .ok (result, p')) : Step p p'
  | interrupt (p : Peer I) : Step p { p with state := p.state.interrupt.2 }
  | resume (p : Peer I) : Step p { p with state := p.state.resume.2 }
  | disconnect (p : Peer I) : Step p p.disconnect
  | share (p p' : Peer I) (hstate : p'.state = p.state) : Step p p'

/-- A message moves the state on if it counts, unless it disconnects the peer. -/
theorem afterMessage_state {now : ℕ} {message : Message} {result : Except PeerError Unit × Peer I}
    (h : p.handleMessage now message = .ok result) :
    (afterMessage result).state = .disconnected ∨
    (afterMessage result).state = p.state.advance message.magic ∨
    (afterMessage result).state = p.state := by
  have hstate := ((p.handleMessage_handles now message).ok h).state
  have hmoved : ∀ p' : Peer I, p'.state = (if p.state.counts message.data then
      p.state.advance message.magic else p.state) →
      p'.state = .disconnected ∨ p'.state = p.state.advance message.magic ∨ p'.state = p.state := by
    intro p' hp'
    split at hp'
    · exact .inr (.inl hp')
    · exact .inr (.inr hp')
  obtain ⟨result, p'⟩ := result
  cases result with
  | ok done => exact hmoved p' (hstate (.inl rfl))
  | error err =>
    cases err with
    | invalidMessage => exact hmoved p' (hstate (.inr rfl))
    | localDisconnected => exact .inl rfl
    | remoteDisconnected => exact .inl rfl

theorem Step.precedes {p' : Peer I} (h : Step p p') : p.state.Precedes p'.state := by
  cases h with
  | message now message result h =>
    rcases afterMessage_state h with hstate | hstate | hstate
    · rw [hstate]
      exact p.state.precedes_disconnected
    · rw [hstate]
      exact p.state.precedes_advance message.magic
    · rw [hstate]
      exact .refl _
  | poll now result _ h =>
    have hstate := ((Endpoint.poll_queues p now).ok h).2
    rw [hstate]
    exact .refl _
  | interrupt => exact p.state.precedes_interrupt
  | resume => exact p.state.precedes_resume
  | disconnect => exact p.state.precedes_disconnected
  | share _ hstate =>
    rw [hstate]
    exact .refl _

theorem Step.inRange {p' : Peer I} (h : Step p p') (hrange : p.state.InRange) : p'.state.InRange := by
  cases h with
  | message now message result h =>
    rcases afterMessage_state h with hstate | hstate | hstate
    · rw [hstate]
      trivial
    · rw [hstate]
      exact hrange.advance message.magic
    · rwa [hstate]
  | poll now result _ h =>
    have hstate := ((Endpoint.poll_queues p now).ok h).2
    rwa [hstate]
  | interrupt => exact hrange.interrupt
  | resume => exact hrange.resume
  | disconnect => trivial
  | share _ hstate => rwa [hstate]

theorem steps_precedes {p' : Peer I} (h : ReflTransGen Step p p') : p.state.Precedes p'.state := by
  induction h with
  | refl => exact .refl _
  | tail _ hstep ih => exact ih.trans hstep.precedes

theorem steps_inRange {p' : Peer I} (h : ReflTransGen Step p p') (hrange : p.state.InRange) :
    p'.state.InRange := by
  induction h with
  | refl => exact hrange
  | tail _ hstep ih => exact hstep.inRange ih

/-- The events that are reported on the way announce only counts of some, but not all, of the round
trips. -/
def Announced (p p' : Peer I) : Prop :=
  ∃ news, p'.events.queue = p.events.queue ++ news ∧ ∀ total count,
    .synchronizing total count ∈ news → total = numSyncPackets ∧ 0 < count ∧ count < numSyncPackets

theorem handleMessage_announced (h : p.state.InRange) (now : ℕ) (message : Message) :
    Ends (p.handleMessage now message) (fun r => Announced p r.2) fun _ => True := by
  refine (p.handleMessage_reports now message).imp fun r hr => ?_
  obtain ⟨-, -, news, hevents, hclosed, hopen⟩ := hr
  refine ⟨news, hevents, fun total count hmem => ?_⟩
  cases hc : p.events.closed with
  | true => simp [hclosed hc] at hmem
  | false =>
    rcases hopen hc with rfl | ⟨-, inputs, rfl⟩
    · exact h.announced hmem
    · simp at hmem

theorem handleMessage_total (h : p.state.InRange) (now : ℕ) {message : Message}
    (hsync : message.data.isSyncMessage = true) :
    Ends (p.handleMessage now message) (fun _ => True) fun _ => False := by
  obtain ⟨magic, seq, data⟩ := message
  cases data with
  | syncRequest random => trivial
  | syncReply random => exact onSyncReply_total h now magic random
  | _ => simp [MessageData.isSyncMessage] at hsync

/-- What holds of a peer at any time: its count is in range, and neither a message of the handshake
nor a poll ends in a panic. -/
structure Sound (p : Peer I) : Prop where
  inRange : p.state.InRange
  message : ∀ now message, message.data.isSyncMessage = true →
    Ends (p.handleMessage now message) (fun r => Announced p r.2) fun _ => False
  poll : ∀ now, Ends (p.poll now) (fun _ => True) fun _ => False

theorem sound_of_inRange (h : p.state.InRange) : p.Sound where
  inRange := h
  message := fun now message hsync =>
    ((handleMessage_total h now hsync).with (handleMessage_announced h now message)).imp
      fun _ hr => hr.2
  poll := p.poll_total

end Peer

namespace Endpoint

variable [Build] [Varinteger] [Pod I] {e e' : Endpoint I}

theorem orEnd_steps {p : Peer I} {result : Except PeerError Unit × Peer I}
    (h : ReflTransGen Peer.Step p result.2) : ReflTransGen Peer.Step p (e.orEnd result).peer := by
  rwa [orEnd_peer]

theorem notice_steps {now : ℕ} (h : e.notice now = .ok e') :
    ReflTransGen Peer.Step e.peer e'.peer := by
  unfold notice at h
  obtain ⟨silent, -, h⟩ := Fallible.bind_eq_ok.mp h
  split at h
  · obtain rfl := Except.ok.inj h
    exact .refl
  · split at h
    · simp at h
    · obtain rfl := Except.ok.inj h
      refine orEnd_steps (.tail (.single (.interrupt e.peer)) (.share _ _ ?_))
      exact Peer.pushEvent_state _ _

theorem expire_steps {now : ℕ} (h : e.expire now = .ok e') :
    ReflTransGen Peer.Step e.peer e'.peer := by
  unfold expire at h
  obtain ⟨late, -, h⟩ := Fallible.bind_eq_ok.mp h
  split at h
  · obtain rfl := Except.ok.inj h
    exact .single (.disconnect e.peer)
  · obtain ⟨result, hpoll, h⟩ := Fallible.bind_eq_ok.mp h
    obtain rfl := Except.ok.inj h
    exact orEnd_steps (.single (.poll _ now _ _ hpoll))

theorem tick_steps {now : ℕ} (h : e.tick now = .ok e') : ReflTransGen Peer.Step e.peer e'.peer := by
  unfold tick at h
  split at h
  · obtain rfl := Except.ok.inj h
    exact .refl
  · obtain ⟨e₁, hnotice, h⟩ := Fallible.bind_eq_ok.mp h
    split at h
    · obtain rfl := Except.ok.inj h
      exact notice_steps hnotice
    · exact (notice_steps hnotice).trans (expire_steps h)

theorem takeUp_steps {now : ℕ} {message : Message} (h : e.takeUp now message = .ok e') :
    ReflTransGen Peer.Step e.peer e'.peer := by
  obtain ⟨⟨result, p⟩, hmessage, h⟩ := Fallible.bind_eq_ok.mp h
  have hstep := Peer.Step.message _ _ _ _ hmessage
  cases result with
  | ok done =>
    dsimp only at h
    split at h
    · next state hresume =>
      obtain rfl := Except.ok.inj h
      have hresumed := Peer.Step.resume p
      rw [hresume] at hresumed
      refine orEnd_steps (.tail (.tail (.single hstep) hresumed) (.share _ _ ?_))
      exact Peer.pushEvent_state _ _
    · obtain rfl := Except.ok.inj h
      exact .single hstep
  | error err =>
    cases err with
    | invalidMessage =>
      obtain rfl := Except.ok.inj h
      exact .single hstep
    | localDisconnected =>
      obtain rfl := Except.ok.inj h
      exact .single hstep
    | remoteDisconnected =>
      obtain rfl := Except.ok.inj h
      exact .single hstep

/-- Whatever the tasks of a peer do, its state goes through such steps. -/
theorem Step.peer_steps {deed : Deed} (h : Step e deed e') :
    ReflTransGen Peer.Step e.peer e'.peer := by
  cases h with
  | receive message =>
    exact .single (.share _ _ (deserializeIncoming_untouched e message).state)
  | handle now message rest _ hlive hqueue hhandle =>
    rw [handle_eq_takeUp hlive hqueue] at hhandle
    exact .head (.share e.peer e.dropMessage.peer rfl) (takeUp_steps (e := e.dropMessage) hhandle)
  | tick now _ htick => exact tick_steps htick
  | send now message _ hsend =>
    unfold serializeOutgoing at hsend
    split at hsend
    · simp at hsend
    · obtain ⟨-, rfl⟩ := Prod.mk.inj (Option.some.inj hsend)
      exact .single (.share _ _ rfl)
  | share p hstate =>
    rcases hstate with hstate | hstate
    · exact .single (.share _ _ hstate)
    · exact .tail (.single (.disconnect e.peer)) (.share _ _ hstate)

end Endpoint

namespace Peer

section Machine

variable [Build] [Varinteger] [Pod I]

/-- At any time a peer that was new is sound, and its state never goes back: its random number and
the magic of the remote stay as long as it has them, and once disconnected it stays so. -/
theorem steps_sound {random : ℕ} {statuses : List ConnectionStatus} {p : Peer I}
    (h : ReflTransGen Step (.new random statuses) p) :
    p.Sound ∧ ∀ p', ReflTransGen Step p p' → p.state.Precedes p'.state :=
  ⟨sound_of_inRange (steps_inRange h trivial), fun _ h' => steps_precedes h'⟩

end Machine

/-- A peer that has been answered twice, and four more times until it runs. -/
theorem steps_sound_running :
    letI : Build := ⟨true⟩
    letI := Varinteger.leb128
    ∃ p p' : Peer UInt8, p.state = .syncing 1 4 ∧ p'.state = .running 7 ∧ p.Sound ∧
      p.state.Precedes p'.state := by
  let build : Build := ⟨true⟩
  let varint := Varinteger.leb128
  have h₁ : ReflTransGen Step (.new (I := UInt8) 1 (List.replicate 2 {})) _ :=
    (ReflTransGen.single (.poll _ 0 _ _ rfl)).tail (.message _ 1 ⟨7, 0, .syncReply 1⟩ _ rfl)
  have h₂ := h₁.tail (.message _ 2 ⟨7, 1, .syncReply 1⟩ _ rfl)
  obtain ⟨hsound, hprecedes⟩ := steps_sound h₂
  exact ⟨_, _, rfl, rfl, hsound, hprecedes _ (.tail (.tail (.tail (.single
    (.message _ 3 ⟨7, 2, .syncReply 1⟩ _ rfl)) (.message _ 4 ⟨7, 3, .syncReply 1⟩ _ rfl))
    (.message _ 5 ⟨7, 4, .syncReply 1⟩ _ rfl)) (.message _ 6 ⟨7, 5, .syncReply 1⟩ _ rfl))⟩

end Peer

end Backroll

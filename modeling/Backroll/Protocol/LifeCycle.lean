import Backroll.Protocol.Notices
import Backroll.Protocol.States
import Backroll.Sync.Command

/-! The life cycle of a connection as a client is told of it, and that the tasks of a peer report
its steps in this order. -/
namespace Backroll

open Fallible (Ends)

variable {I : Type}

/-- How far the events about a player have come. -/
inductive Course
  | absent
  | synchronizing (count : ℕ)
  | synchronized
  | interrupted
  | ended
  deriving DecidableEq, Repr

namespace Course

/-- A player connects, synchronizes while the count rises, and is synchronized. From then on
interruptions alternate with further synchronizations. It is disconnected at any time, and then
nothing follows. -/
def next : Course → Event → Option Course
  | ended, _ => none
  | _, .disconnected _ => some ended
  | absent, .connected _ => some (synchronizing 0)
  | synchronizing count, .synchronizing _ count' total =>
    if count < count' ∧ count' < total then some (synchronizing count') else none
  | synchronizing _, .synchronized _ => some synchronized
  | synchronized, .connectionInterrupted _ _ => some interrupted
  | interrupted, .synchronized _ => some synchronized
  | _, _ => none

def after (course : Course) (events : List Event) : Option Course := events.foldlM next course

variable {course course' course'' : Course} {events events' : List Event}

theorem after_single (course : Course) (event : Event) : course.after [event] = course.next event := by
  simp [after]

theorem after_append (h : course.after events = some course') :
    course.after (events ++ events') = course'.after events' := by
  rw [after, List.foldlM_append]
  exact congrArg (· >>= fun course => course.after events') h

theorem after_split (h : course.after (events ++ events') = some course'') :
    ∃ course', course.after events = some course' ∧ course'.after events' = some course'' := by
  rw [after, List.foldlM_append] at h
  exact Option.bind_eq_some_iff.mp h

theorem next_disconnected (h : course ≠ ended) (player : ℕ) :
    course.next (.disconnected player) = some ended := by
  cases course with
  | ended => exact absurd rfl h
  | _ => rfl

end Course

/-- The events about a player keep to the life cycle, as far as it goes. -/
def LifeCycle (events : List Event) : Prop := (Course.absent.after events).isSome = true

instance lifeCycleDecidable (events : List Event) : Decidable (LifeCycle events) :=
  inferInstanceAs (Decidable (_ = true))

/-- What a client is told of a report about a player. -/
def ProtocolEvent.told (player : ℕ) : ProtocolEvent I → Option Event
  | connected => some (.connected player)
  | synchronizing total count => some (.synchronizing player count total)
  | inputs _ => none
  | synchronized => some (.synchronized player)
  | networkInterrupted disconnectTimeout => some (.connectionInterrupted player disconnectTimeout)
  | networkResumed => some (.synchronized player)

theorem Course.next_ended {course : Course} {event : Event} (h : course.next event = some .ended) :
    ∃ player, event = .disconnected player := by
  cases event with
  | disconnected player => exact ⟨player, rfl⟩
  | synchronizing player count total =>
    cases course with
    | synchronizing count' =>
      simp only [next] at h
      split at h <;> simp at h
    | _ => simp [next] at h
  | _ => cases course <;> simp [next] at h

/-- No report ends the life cycle. -/
theorem Course.after_told_ne_ended {player : ℕ} {reports : List (ProtocolEvent I)}
    {course course' : Course} (h : course ≠ .ended)
    (hafter : course.after (reports.filterMap (·.told player)) = some course') : course' ≠ .ended := by
  induction reports generalizing course with
  | nil => exact Option.some.inj hafter ▸ h
  | cons report reports ih =>
    cases htold : report.told player with
    | none =>
      rw [List.filterMap_cons_none htold] at hafter
      exact ih h hafter
    | some event =>
      rw [List.filterMap_cons_some htold, ← List.singleton_append] at hafter
      obtain ⟨course₁, hnext, hafter⟩ := after_split hafter
      refine ih (fun hended => ?_) hafter
      subst hended
      obtain ⟨out, rfl⟩ := next_ended ((after_single course event).symm.trans hnext)
      cases report <;> simp [ProtocolEvent.told] at htold

namespace PeerState

/-- The state that goes with what was reported. -/
def Stands : PeerState → Course → Prop
  | connecting _, course => course = .absent
  | syncing _ roundtripsRemaining, course => 1 ≤ roundtripsRemaining ∧
    roundtripsRemaining ≤ numSyncPackets ∧
      course = .synchronizing (numSyncPackets - roundtripsRemaining)
  | running _, course => course = .synchronized
  | interrupted _, course => course = .interrupted
  | disconnected, course => course ≠ .ended

theorem Stands.ne_ended {state : PeerState} {course : Course} (h : state.Stands course) :
    course ≠ .ended := by
  cases state with
  | syncing random remaining =>
    obtain ⟨-, -, rfl⟩ := h
    simp
  | disconnected => exact h
  | _ =>
    obtain rfl : course = _ := h
    simp

/-- A reply that counts moves the life cycle on with the state, and nothing else moves either. -/
theorem Announces.stands {state : PeerState} {data : MessageData} {news : List (ProtocolEvent I)}
    {course : Course} (h : state.Announces data news) (hstands : state.Stands course) (player magic : ℕ) :
    ∃ course', course.after (news.filterMap (·.told player)) = some course' ∧
      (if state.counts data then state.advance magic else state).Stands course' := by
  cases hcounts : state.counts data with
  | false =>
    refine ⟨course, ?_, hstands⟩
    rcases h with rfl | ⟨-, inputs, rfl⟩
    · rw [announced_eq_nil hcounts]
      rfl
    · rfl
  | true =>
    obtain ⟨random, hrandom⟩ := counts_random? hcounts
    cases state with
    | connecting r =>
      obtain rfl : course = .absent := hstands
      have hnews : news = [.connected] := by
        rcases h with rfl | ⟨hnone, -⟩
        · simp [announced, hcounts]
        · simp [announced, hcounts] at hnone
      rw [hnews, if_pos rfl]
      exact ⟨_, rfl, by decide, le_rfl, rfl⟩
    | syncing r remaining =>
      obtain ⟨hpos, hle, rfl⟩ := hstands
      have hfive : numSyncPackets = 5 := rfl
      have hless : (remaining + 255) % 256 = remaining - 1 := by omega
      rw [if_pos rfl]
      by_cases hlast : remaining = 1
      · subst hlast
        have hnews : news = [.synchronized] := by
          rcases h with rfl | ⟨hnone, -⟩
          · simp [announced, hcounts]
          · simp [announced, hcounts] at hnone
        rw [hnews]
        exact ⟨_, rfl, by simp [advance, Stands]⟩
      · have hmore : remaining - 1 ≠ 0 := by omega
        have hnews : news = [.synchronizing numSyncPackets (numSyncPackets - (remaining - 1))] := by
          rcases h with rfl | ⟨hnone, -⟩
          · simp only [announced, hcounts, hless, if_true, if_neg hmore]
          · simp [announced, hcounts, hless, hmore] at hnone
        rw [hnews]
        refine ⟨.synchronizing (numSyncPackets - (remaining - 1)), ?_, ?_⟩
        · have hrise : numSyncPackets - remaining < numSyncPackets - (remaining - 1) ∧
              numSyncPackets - (remaining - 1) < numSyncPackets := by omega
          show (if _ then some _ else none) >>= _ = _
          rw [if_pos hrise]
          rfl
        · simp only [advance, hless, if_neg hmore]
          exact ⟨by omega, by omega, rfl⟩
    | running _ => simp [random?] at hrandom
    | interrupted _ => simp [random?] at hrandom
    | disconnected => simp [random?] at hrandom

end PeerState

namespace Peer

variable {p p₁ p₂ : Peer I}

/-- The reports on the way from one state of a peer to another move its life cycle on. -/
structure Recounts (p p' : Peer I) : Prop where
  paired : p'.Paired
  news : ∃ news, p'.events.queue = p.events.queue ++ news ∧ ∀ player course, p.state.Stands course →
    ∃ course', course.after (news.filterMap (·.told player)) = some course' ∧ p'.state.Stands course'

theorem Recounts.of_same (hp : p.Paired) (hevents : p₁.events = p.events) (hstate : p₁.state = p.state) :
    p.Recounts p₁ := by
  refine ⟨?_, [], by simp [hevents], fun _ course h => ⟨course, rfl, hstate ▸ h⟩⟩
  rw [Paired, hevents, hstate]
  exact hp

theorem Recounts.refl (hp : p.Paired) : p.Recounts p := .of_same hp rfl rfl

theorem Recounts.trans (h : p.Recounts p₁) (h' : p₁.Recounts p₂) : p.Recounts p₂ := by
  obtain ⟨-, news, hnews, hmoves⟩ := h
  obtain ⟨hpaired, news', hnews', hmoves'⟩ := h'
  refine ⟨hpaired, news ++ news', by rw [hnews', hnews, List.append_assoc], fun player course hc => ?_⟩
  obtain ⟨course₁, hafter, hc₁⟩ := hmoves player course hc
  obtain ⟨course₂, hafter', hc₂⟩ := hmoves' player course₁ hc₁
  exact ⟨course₂, by rw [List.filterMap_append, Course.after_append hafter, hafter'], hc₂⟩

theorem Recounts.disconnect (h : p.Recounts p₁) : p.Recounts p₁.disconnect := by
  refine h.trans ⟨⟨fun _ => rfl, fun _ => rfl⟩, [], ?_, fun _ course hc => ⟨course, rfl, hc.ne_ended⟩⟩
  rw [List.append_nil]
  rfl

variable [Build] [Varinteger] [Pod I]

theorem afterMessage_recounts (hp : p.Paired) {now : ℕ} {message : Message}
    {result : Except PeerError Unit × Peer I} (h : p.handleMessage now message = .ok result) :
    p.Recounts (afterMessage result) := by
  have hstate := ((p.handleMessage_handles now message).ok h).state
  obtain ⟨-, hclosed, news, hnews, hnone, hopen⟩ := (p.handleMessage_reports now message).ok h
  obtain ⟨result, p'⟩ := result
  dsimp only at hstate hclosed hnews
  have hmoves : ∀ player course, p.state.Stands course → ∃ course',
      course.after (news.filterMap (·.told player)) = some course' ∧
      (if p.state.counts message.data then p.state.advance message.magic else p.state).Stands course' := by
    intro player course hc
    cases hevents : p.events.closed with
    | true =>
      rw [hnone hevents, hp.mp hevents]
      exact ⟨course, rfl, hc.ne_ended⟩
    | false => exact (hopen hevents).stands hc player message.magic
  have hquiet : result = .ok () ∨ result = .error .invalidMessage → p.Recounts p' := by
    intro hresult
    rw [← hstate hresult] at hmoves
    refine ⟨?_, news, hnews, hmoves⟩
    rw [Paired, hclosed, hstate hresult]
    split
    · next hcounts =>
      obtain ⟨random, hrandom⟩ := PeerState.counts_random? hcounts
      refine hp.trans (iff_of_false (fun h => ?_) (PeerState.advance_ne_disconnected hrandom _).1)
      simp [h, PeerState.random?] at hrandom
    · exact hp
  have hended : p.Recounts p'.disconnect := by
    refine ⟨⟨fun _ => rfl, fun _ => rfl⟩, news, hnews, fun player course hc => ?_⟩
    obtain ⟨course', hafter, hc'⟩ := hmoves player course hc
    exact ⟨course', hafter, hc'.ne_ended⟩
  cases result with
  | ok done => exact hquiet (.inl rfl)
  | error err =>
    cases err with
    | invalidMessage => exact hquiet (.inr rfl)
    | localDisconnected => exact hended
    | remoteDisconnected => exact hended

end Peer

namespace Endpoint

variable [Build] {e e' : Endpoint I}

/-- A timer's notice of a silence is one of an interruption, once the handshake is over. -/
theorem notice_recounts (hp : e.peer.Paired) {now : ℕ} (h : e.notice now = .ok e')
    (hsilent : e.isSilent now = .ok true → e.peer.state.random? = none) :
    e.peer.Recounts e'.peer := by
  rcases notice_cases h with ⟨-, rfl⟩ | ⟨hquiet, -, hnot, rfl⟩
  · exact .refl hp
  rw [orEnd_peer]
  specialize hsilent hquiet
  cases hstate : e.peer.state with
  | running magic =>
    have hopened : e.peer.events.closed = false := hp.opened (by simp [hstate])
    rw [Peer.pushEvent_open (by exact hopened)]
    refine ⟨by simp [Peer.Paired, hopened, PeerState.interrupt], [.networkInterrupted _], rfl,
      fun player course hc => ?_⟩
    rw [hstate] at hc
    obtain rfl : course = .synchronized := hc
    exact ⟨.interrupted, rfl, rfl⟩
  | disconnected =>
    rw [Peer.pushEvent_closed (by exact hp.mpr hstate)]
    exact .of_same hp rfl (by simp [hstate, PeerState.interrupt])
  | connecting random => simp [hstate, PeerState.random?] at hsilent
  | syncing random remaining => simp [hstate, PeerState.random?] at hsilent
  | interrupted magic => simp [hstate, PeerState.isInterrupted] at hnot

theorem expire_recounts (hp : e.peer.Paired) (now : ℕ) :
    Ends (e.expire now) (fun e' => e.peer.Recounts e'.peer) fun _ => True := by
  unfold expire
  refine .bind_any fun late => ?_
  split
  · exact (Peer.Recounts.refl hp).disconnect
  · refine (poll_sends e.peer now).bind fun r hr => ?_
    show e.peer.Recounts (e.orEnd r).peer
    rw [orEnd_peer]
    rcases hr with rfl | ⟨random, -, rfl⟩
    · exact .refl hp
    · exact .of_same hp (e.peer.send_events _) (e.peer.send_state _)

theorem tick_recounts (hp : e.peer.Paired) {now : ℕ} (h : e.tick now = .ok e')
    (hsilent : e.isSilent now = .ok true → e.peer.state.random? = none) :
    e.peer.Recounts e'.peer := by
  unfold tick at h
  split at h
  · obtain rfl := Except.ok.inj h
    exact .refl hp
  · obtain ⟨e₁, hnotice, h⟩ := Fallible.bind_eq_ok.mp h
    have hnoticed := notice_recounts hp hnotice hsilent
    split at h
    · obtain rfl := Except.ok.inj h
      exact hnoticed
    · exact hnoticed.trans ((expire_recounts hnoticed.paired now).ok h)

variable [Varinteger] [Pod I]

theorem takeUp_recounts (hp : e.peer.Paired) {now : ℕ} {message : Message}
    (h : e.takeUp now message = .ok e') : e.peer.Recounts e'.peer := by
  obtain ⟨⟨result, p⟩, hmessage, h⟩ := Fallible.bind_eq_ok.mp h
  have hmoved := Peer.afterMessage_recounts hp hmessage
  cases result with
  | error err =>
    cases err with
    | invalidMessage =>
      obtain rfl := Except.ok.inj h
      exact hmoved
    | localDisconnected =>
      obtain rfl := Except.ok.inj h
      exact hmoved
    | remoteDisconnected =>
      obtain rfl := Except.ok.inj h
      exact hmoved
  | ok done =>
    replace hmoved : e.peer.Recounts p := hmoved
    dsimp only at h
    split at h
    · next state hresume =>
      obtain rfl := Except.ok.inj h
      refine hmoved.trans ?_
      obtain ⟨magic, hstate, rfl⟩ := PeerState.resume_eq_true hresume
      have hopened : p.events.closed = false := hmoved.paired.opened (by simp [hstate])
      rw [orEnd_peer, Peer.pushEvent_open (by exact hopened)]
      refine ⟨by simp [Peer.Paired, hopened], [.networkResumed], rfl, fun player course hc => ?_⟩
      rw [hstate] at hc
      obtain rfl : course = .interrupted := hc
      exact ⟨.synchronized, rfl, rfl⟩
    · obtain rfl := Except.ok.inj h
      exact hmoved

theorem handle_recounts (hp : e.peer.Paired) {now : ℕ} (h : e.handle now = .ok e') :
    e.peer.Recounts e'.peer := by
  unfold handle at h
  split at h
  · obtain rfl := Except.ok.inj h
    exact .refl hp
  · obtain rfl := Except.ok.inj h
    exact .refl hp
  · next message rest _ _ =>
    have hmoved := takeUp_recounts (e := e.dropMessage) hp h
    exact ⟨hmoved.paired, hmoved.news⟩

end Endpoint

end Backroll

import Backroll.Protocol.Magic
import Backroll.Protocol.Reports
import Mathlib.Data.List.Chain

/-! The notices that a connection is interrupted or has resumed, which the task of a peer gives its
session as its timer goes off and as messages come in. -/
namespace Backroll

open Fallible (Ends)

variable {I : Type}

/-- A notice about the connection. -/
inductive Notice
  | interrupted
  | resumed
  deriving DecidableEq, Repr

def ProtocolEvent.notice? : ProtocolEvent I → Option Notice
  | networkInterrupted _ => some .interrupted
  | networkResumed => some .resumed
  | _ => none

namespace PeerState

/-- The notice that a change of the state calls for. -/
def noticed : PeerState → PeerState → List Notice
  | running _, interrupted _ => [.interrupted]
  | interrupted _, running _ => [.resumed]
  | _, _ => []

@[simp] theorem noticed_self (state : PeerState) : state.noticed state = [] := by
  cases state <;> rfl

@[simp] theorem noticed_disconnected (state : PeerState) : state.noticed .disconnected = [] := by
  cases state <;> rfl

theorem noticed_of_random? {state : PeerState} {random : ℕ} (h : state.random? = some random)
    (state' : PeerState) : state.noticed state' = [] := by
  cases state <;> simp_all [random?, noticed]

theorem counts_random? {state : PeerState} {data : MessageData} (h : state.counts data = true) :
    ∃ random, state.random? = some random := by
  cases state <;> simp_all [counts, random?]

theorem advance_ne_disconnected {state : PeerState} {random : ℕ} (h : state.random? = some random)
    (magic : ℕ) : state.advance magic ≠ .disconnected ∧ (state.advance magic).isInterrupted = false := by
  cases state with
  | connecting random => exact ⟨by simp [advance], rfl⟩
  | syncing random remaining => constructor <;> simp only [advance] <;> split <;> simp [isInterrupted]
  | running remoteMagic => simp [random?] at h
  | interrupted remoteMagic => simp [random?] at h
  | disconnected => simp [random?] at h

theorem resume_eq_true {state state' : PeerState} (h : state.resume = (true, state')) :
    ∃ magic, state = .interrupted magic ∧ state' = .running magic := by
  cases state <;> simp_all [resume]

/-- A state that has left the handshake does not come back to it. -/
structure Lasting (state state' : PeerState) : Prop where
  settled : state.random? = none → state'.random? = none
  ended : state = .disconnected → state' = .disconnected

theorem Lasting.refl (state : PeerState) : state.Lasting state := ⟨id, id⟩

theorem Lasting.trans {s s' s'' : PeerState} (h : s.Lasting s') (h' : s'.Lasting s'') : s.Lasting s'' :=
  ⟨fun hs => h'.settled (h.settled hs), fun hs => h'.ended (h.ended hs)⟩

theorem Follows.lasting {state state' : PeerState} (h : state.Follows state') : state.Lasting state' := by
  rcases h with rfl | rfl | rfl | rfl
  · exact ⟨fun _ => rfl, fun _ => rfl⟩
  · exact .refl _
  · cases state <;> exact ⟨by simp [random?, resume], by simp [resume]⟩
  · cases state <;> exact ⟨by simp [random?, interrupt], by simp [interrupt]⟩

/-- The notices so far alternate, and the last of them fits the state. -/
structure Alternating (notices : List Notice) (state : PeerState) : Prop where
  chain : notices.IsChain (· ≠ ·)
  interrupted : notices.getLast? = some .interrupted →
    state.isInterrupted = true ∨ state = .disconnected
  resumed : notices.getLast? = some .resumed → (∃ remoteMagic, state = .running remoteMagic) ∨
    state = .disconnected

theorem Alternating.step {notices : List Notice} {state state' : PeerState}
    (h : Alternating notices state) (hlasting : state.Lasting state') :
    Alternating (notices ++ state.noticed state') state' := by
  obtain ⟨hchain, hinterrupted, hresumed⟩ := h
  have hquiet : state.noticed state' = [] → (state.isInterrupted = true → state'.isInterrupted = true ∨
      state' = .disconnected) → ((∃ remoteMagic, state = .running remoteMagic) →
      (∃ remoteMagic, state' = .running remoteMagic) ∨ state' = .disconnected) →
      Alternating (notices ++ state.noticed state') state' := by
    intro hnone hinterrupted' hresumed'
    rw [hnone, List.append_nil]
    refine ⟨hchain, fun h => ?_, fun h => ?_⟩
    · rcases hinterrupted h with h | h
      · exact hinterrupted' h
      · exact .inr (hlasting.ended h)
    · rcases hresumed h with h | h
      · exact hresumed' h
      · exact .inr (hlasting.ended h)
  have htold : ∀ notice, (∀ last, notices.getLast? = some last → last ≠ notice) →
      (notices ++ [notice]).IsChain (· ≠ ·) := by
    intro notice hne
    refine List.isChain_append.mpr ⟨hchain, .singleton _, fun last hlast other hother => ?_⟩
    obtain rfl : notice = other := by simpa using hother
    exact hne last hlast
  cases state with
  | connecting random => exact hquiet rfl (by simp [isInterrupted]) (by simp)
  | syncing random remaining => exact hquiet rfl (by simp [isInterrupted]) (by simp)
  | disconnected => exact hquiet rfl (by simp [isInterrupted]) (by simp)
  | running remoteMagic =>
    cases state' with
    | connecting random => exact absurd (hlasting.settled rfl) (by simp [random?])
    | syncing random remaining => exact absurd (hlasting.settled rfl) (by simp [random?])
    | disconnected => exact hquiet rfl (by simp) (by simp)
    | running remoteMagic' => exact hquiet rfl (by simp [isInterrupted]) (by simp)
    | interrupted remoteMagic' =>
      refine ⟨htold _ ?_, fun _ => .inl rfl, by simp [noticed]⟩
      rintro last hlast rfl
      rcases hinterrupted hlast with h | h <;> simp [isInterrupted] at h
  | interrupted remoteMagic =>
    cases state' with
    | connecting random => exact absurd (hlasting.settled rfl) (by simp [random?])
    | syncing random remaining => exact absurd (hlasting.settled rfl) (by simp [random?])
    | disconnected => exact hquiet rfl (by simp) (by simp)
    | interrupted remoteMagic' => exact hquiet rfl (by simp [isInterrupted]) (by simp)
    | running remoteMagic' =>
      refine ⟨htold _ ?_, by simp [noticed], fun _ => .inl ⟨_, rfl⟩⟩
      rintro last hlast rfl
      rcases hresumed hlast with ⟨_, h⟩ | h <;> simp at h

theorem Announces.notices {state : PeerState} {data : MessageData} {news : List (ProtocolEvent I)}
    (h : state.Announces data news) : news.filterMap ProtocolEvent.notice? = [] := by
  rcases h with rfl | ⟨-, inputs, rfl⟩
  · unfold announced
    split <;> try split
    all_goals try split
    all_goals rfl
  · rfl

end PeerState

namespace Endpoint

/-- The notices that are reported on the way from one state of the task to another. -/
def reported (e e' : Endpoint I) : List Notice :=
  (e'.peer.events.queue.drop e.peer.events.queue.length).filterMap ProtocolEvent.notice?

theorem reported_append {e e' : Endpoint I} (news : List (ProtocolEvent I))
    (h : e'.peer.events.queue = e.peer.events.queue ++ news) :
    reported e e' = news.filterMap ProtocolEvent.notice? := by
  rw [reported, h, List.drop_left]

/-- A step of the task reports a notice for its change of the state, and no other. -/
structure Tells (e e' : Endpoint I) : Prop where
  paired : e'.peer.Paired
  notices : reported e e' = e.peer.state.noticed e'.peer.state

theorem tells_disconnect {e : Endpoint I} {p : Peer I} {time : ℕ} (news : List (ProtocolEvent I))
    (hevents : p.events.queue = e.peer.events.queue ++ news)
    (hnone : news.filterMap ProtocolEvent.notice? = []) :
    Tells e { e with peer := p.disconnect, lastRecvTime := time, ended := true } := by
  refine ⟨⟨fun _ => rfl, fun _ => rfl⟩, ?_⟩
  rw [reported_append news hevents, hnone]
  exact (PeerState.noticed_disconnected _).symm

theorem tells_of_state {e : Endpoint I} (hp : e.peer.Paired) {e' : Endpoint I}
    (hclosed : e'.peer.events.closed = e.peer.events.closed) (hstate : e'.peer.state = e.peer.state)
    (hevents : e'.peer.events.queue = e.peer.events.queue) : Tells e e' := by
  refine ⟨by rw [Peer.Paired, hclosed, hstate]; exact hp, ?_⟩
  rw [reported_append [] (by simp [hevents]), hstate, PeerState.noticed_self]
  rfl

variable [Build]

/-- What a panic in `notice` leaves behind: the state has been written by then. -/
def unwound (e : Endpoint I) (now : ℕ) : Endpoint I :=
  match e.isSilent now with
  | .ok true => { e with peer := { e.peer with state := e.peer.state.interrupt.2 }, ended := true }
  | _ => { e with ended := true }

/-- Of a silence that the timer is to give notice of, it gives notice rightly: the peer has gone
through the handshake, or nothing is written as the notice cannot be made. -/
def Notifiable (e : Endpoint I) : Prop :=
  if e.config.disconnectTimeout < e.config.disconnectNotifyStart then e.peer.state.isRunning = false
  else e.peer.state.random? = none

theorem isInterrupted_of_isSilent {e : Endpoint I} {now : ℕ} (h : e.isSilent now = .ok true) :
    e.peer.state.isInterrupted = false := by
  by_contra hint
  rw [isSilent, if_pos (Bool.eq_true_of_not_eq_false hint)] at h
  simp at h

theorem notice_cases {e e' : Endpoint I} {now : ℕ} (h : e.notice now = .ok e') :
    e.isSilent now = .ok false ∧ e' = e ∨ e.isSilent now = .ok true ∧
      ¬e.config.disconnectTimeout < e.config.disconnectNotifyStart ∧ e.peer.state.isInterrupted = false ∧
      e' = e.orEnd ({ e.peer with state := e.peer.state.interrupt.2 }.pushEvent
        (.networkInterrupted (e.config.disconnectTimeout - e.config.disconnectNotifyStart))) := by
  obtain ⟨silent, hsilent, h⟩ := Fallible.bind_eq_ok.mp h
  cases silent with
  | false => exact .inl ⟨hsilent, by simpa using h.symm⟩
  | true =>
    simp only [not_true_eq_false, if_false] at h
    split at h
    · simp at h
    · next hless =>
      exact .inr ⟨hsilent, hless, isInterrupted_of_isSilent hsilent, (Except.ok.inj h).symm⟩

theorem notice_paired {e e' : Endpoint I} {now : ℕ} (hp : e.peer.Paired) (h : e.notice now = .ok e') :
    e'.peer.Paired := by
  rcases notice_cases h with ⟨-, rfl⟩ | ⟨-, -, -, rfl⟩
  · exact hp
  · rw [orEnd_peer, Peer.Paired, Peer.pushEvent_state]
    rw [Peer.pushEvent_isClosed]
    refine Iff.trans hp ?_
    cases e.peer.state <;> simp [PeerState.interrupt]

/-- The timer's notice is right unless it finds a peer that has yet to connect: that one is told
about over and over, and its state does not change. -/
theorem notice_told_iff {e e' : Endpoint I} {now : ℕ} (hp : e.peer.Paired)
    (h : e.notice now = .ok e') : reported e e' = e.peer.state.noticed e'.peer.state ↔
      (e.isSilent now = .ok true → e.Notifiable) := by
  rcases notice_cases h with ⟨hsilent, rfl⟩ | ⟨hsilent, hless, hnot, rfl⟩
  · simp only [hsilent, Except.ok.injEq, Bool.false_eq_true, false_implies, iff_true]
    exact (tells_of_state hp rfl rfl rfl).notices
  simp only [hsilent, true_implies, Notifiable, if_neg hless]
  rcases Bool.eq_false_or_eq_true e.peer.events.closed with hclosed | hopen
  · have hstate : e.peer.state = .disconnected := hp.mp hclosed
    rw [Peer.pushEvent_closed (by exact hclosed)]
    simp only [hstate, PeerState.interrupt, PeerState.random?, iff_true]
    rw [reported_append [] (by simp [orEnd])]
    rfl
  · rw [Peer.pushEvent_open (by exact hopen), reported_append (e := e) [_] rfl]
    cases hstate : e.peer.state with
    | connecting random =>
      refine iff_of_false ?_ (by simp [PeerState.random?])
      simp [ProtocolEvent.notice?, orEnd, PeerState.interrupt]
    | syncing random remaining =>
      refine iff_of_false ?_ (by simp [PeerState.random?])
      simp [ProtocolEvent.notice?, orEnd, PeerState.interrupt]
    | running remoteMagic => exact iff_of_true rfl rfl
    | interrupted remoteMagic => simp [PeerState.isInterrupted, hstate] at hnot
    | disconnected => simp [hp.mpr hstate] at hopen

theorem unwound_paired {e : Endpoint I} (hp : e.peer.Paired) (now : ℕ) : (e.unwound now).peer.Paired := by
  unfold unwound
  split
  · refine Iff.trans hp ?_
    cases e.peer.state <;> simp [PeerState.interrupt]
  · exact hp

theorem unwound_told_iff {e : Endpoint I} {now : ℕ} {err : Panic}
    (h : e.notice now = .error err) :
    reported e (e.unwound now) = e.peer.state.noticed (e.unwound now).peer.state ↔
      (e.isSilent now = .ok true → e.Notifiable) := by
  rw [reported_append [] (by unfold unwound; split <;> simp)]
  unfold unwound
  split
  · next hsilent =>
    have hless : e.config.disconnectTimeout < e.config.disconnectNotifyStart := by
      by_contra hless
      simp [notice, hsilent, hless] at h
    simp only [hsilent, true_implies, Notifiable, if_pos hless]
    have hnot := isInterrupted_of_isSilent hsilent
    cases hstate : e.peer.state <;>
      simp_all [PeerState.interrupt, PeerState.noticed, PeerState.isRunning, PeerState.isInterrupted]
  · next hloud => simpa using fun hsilent => absurd hsilent hloud

theorem expire_tells {e : Endpoint I} (hp : e.peer.Paired) (now : ℕ) :
    Ends (e.expire now) (Tells e) fun _ => True := by
  unfold expire
  refine .bind_any fun late => ?_
  split
  · exact tells_disconnect (p := e.peer) [] (by simp) rfl
  · refine (poll_sends e.peer now).bind fun r hr => ?_
    have hsame : r.2.state = e.peer.state ∧ r.2.events = e.peer.events := by
      rcases hr with rfl | ⟨random, -, rfl⟩
      · exact ⟨rfl, rfl⟩
      · exact ⟨e.peer.send_state _, e.peer.send_events _⟩
    show Tells e (e.orEnd r)
    apply tells_of_state hp <;> rw [orEnd_peer]
    · rw [hsame.2]
    · exact hsame.1
    · rw [hsame.2]

variable [Varinteger] [Pod I]

/-- A message that is handled leads to a notice just when the connection resumes. -/
theorem takeUp_tells {e : Endpoint I} (hp : e.peer.Paired) (now : ℕ) (message : Message) :
    Ends (e.takeUp now message) (Tells e) fun _ => True := by
  unfold takeUp
  refine ((e.peer.handleMessage_handles now message).and
    (e.peer.handleMessage_reports now message)).bind fun r hr => ?_
  obtain ⟨result, p⟩ := r
  obtain ⟨hhandles, hreports⟩ := hr
  obtain ⟨news, hnews, hclosed, hopen⟩ := hreports.events
  have hnone : news.filterMap ProtocolEvent.notice? = [] := by
    rcases Bool.eq_false_or_eq_true e.peer.events.closed with h | h
    · rw [hclosed h]
      rfl
    · exact (hopen h).notices
  have hquiet : result = .ok () ∨ result = .error .invalidMessage → p.Paired ∧
      (p.state.isInterrupted = true → p.state = e.peer.state) ∧
      e.peer.state.noticed p.state = [] := by
    intro hresult
    have hstate := hhandles.state hresult
    dsimp only at hstate
    rw [Peer.Paired, hreports.closed]
    split at hstate
    · next hcounts =>
      obtain ⟨random, hrandom⟩ := PeerState.counts_random? hcounts
      obtain ⟨hlive, hnot⟩ := PeerState.advance_ne_disconnected hrandom message.magic
      rw [hstate, PeerState.noticed_of_random? hrandom]
      refine ⟨hp.trans ?_, fun h => by rw [hnot] at h; simp at h, rfl⟩
      refine iff_of_false (fun h => ?_) hlive
      simp [h, PeerState.random?] at hrandom
    · rw [hstate, PeerState.noticed_self]
      exact ⟨hp, fun _ => rfl, rfl⟩
  cases result with
  | error err =>
    cases err with
    | invalidMessage =>
      obtain ⟨hpaired, -, hnoticed⟩ := hquiet (.inr rfl)
      refine ⟨hpaired, ?_⟩
      rw [reported_append news hnews, hnone]
      exact hnoticed.symm
    | localDisconnected => exact tells_disconnect news hnews hnone
    | remoteDisconnected => exact tells_disconnect news hnews hnone
  | ok done =>
    obtain ⟨hpaired, hinterrupted, hnoticed⟩ := hquiet (.inl rfl)
    dsimp only
    split
    · next state hresume =>
      obtain ⟨remoteMagic, hstate, rfl⟩ := PeerState.resume_eq_true hresume
      have hsame := hinterrupted (by rw [hstate]; rfl)
      have hopened : p.events.closed = false := hpaired.opened (by simp [hstate])
      rw [Peer.pushEvent_open (by exact hopened)]
      refine ⟨?_, ?_⟩
      · simp [Peer.Paired, orEnd, hopened]
      · rw [reported_append (news ++ [.networkResumed])
          (by rw [← List.append_assoc, ← hnews]; rfl), List.filterMap_append, hnone, ← hsame, hstate]
        rfl
    · refine ⟨hpaired, ?_⟩
      rw [reported_append news hnews, hnone]
      exact hnoticed.symm

theorem handle_tells {e : Endpoint I} (hp : e.peer.Paired) (now : ℕ) :
    Ends (e.handle now) (Tells e) fun _ => True := by
  unfold handle
  split
  · exact tells_of_state hp rfl rfl rfl
  · exact tells_of_state hp rfl rfl rfl
  · next message rest _ _ =>
    refine (takeUp_tells (e := e.dropMessage) hp now message).imp fun e' h => ?_
    exact ⟨h.paired, h.notices⟩

omit [Varinteger] [Pod I] in
theorem notice_lasting {e e' : Endpoint I} {now : ℕ} (h : e.notice now = .ok e') :
    e.peer.state.Lasting e'.peer.state :=
  ((e.notice_moves now).ok h).state.lasting

omit [Varinteger] [Pod I] in
theorem expire_lasting {e e' : Endpoint I} {now : ℕ} (h : e.expire now = .ok e') :
    e.peer.state.Lasting e'.peer.state := by
  rcases ((e.expire_moves now).ok h).2 with hstate | hstate
  · rw [hstate]
    exact ⟨fun _ => rfl, fun _ => rfl⟩
  · rw [hstate]
    exact .refl _

omit [Varinteger] [Pod I] in
theorem unwound_lasting (e : Endpoint I) (now : ℕ) :
    e.peer.state.Lasting (e.unwound now).peer.state := by
  unfold unwound
  split
  · exact PeerState.Follows.lasting (.inr (.inr (.inr rfl)))
  · exact .refl _

theorem handle_lasting {e e' : Endpoint I} {now : ℕ} (h : e.handle now = .ok e') :
    e.peer.state.Lasting e'.peer.state := by
  unfold handle at h
  split at h
  · obtain rfl := Except.ok.inj h
    exact .refl _
  · obtain rfl := Except.ok.inj h
    exact .refl _
  · next message rest _ _ =>
    refine .trans ?_ ((e.dropMessage.takeUp_moves now message).ok h).state.lasting
    split
    · next hcounts =>
      obtain ⟨random, hrandom⟩ := PeerState.counts_random? hcounts
      refine ⟨fun h => ?_, fun h => ?_⟩
      · exact absurd (hrandom.symm.trans h) (by simp)
      · exact absurd (hrandom.symm.trans (congrArg PeerState.random? h)) (by simp [PeerState.random?])
    · exact .refl _

/-- What `run` does in one go. -/
inductive Phase
  | handle
  | notice (now : ℕ)
  | expire

/-- The task at work, message by message and tick by tick. In between, the session takes events out
of their channel, and may disconnect the peer. -/
inductive Watch (e₀ : Endpoint I) : List (Endpoint I × Phase × Endpoint I) → Endpoint I → Prop
  | start : Watch e₀ [] e₀
  | handle {steps e} (hrun : Watch e₀ steps e) (now e') (hlive : e.ended = false)
    (h : e.handle now = .ok e') : Watch e₀ (steps ++ [(e, .handle, e')]) e'
  | tick {steps e} (hrun : Watch e₀ steps e) (now e₁ e₂) (hlive : e.ended = false)
    (hnotice : e.notice now = .ok e₁) (h : e.tick now = .ok e₂) :
    Watch e₀ (steps ++ [(e, .notice now, e₁), (e₁, .expire, e₂)]) e₂
  | panic {steps e} (hrun : Watch e₀ steps e) (now err) (hlive : e.ended = false)
    (hnotice : e.notice now = .error err) :
    Watch e₀ (steps ++ [(e, .notice now, e.unwound now)]) (e.unwound now)
  | share {steps e} (hrun : Watch e₀ steps e) (p : Peer I)
    (h : p.state = e.peer.state ∧ p.events.closed = e.peer.events.closed ∨
      p.state = .disconnected ∧ p.events.closed = true) : Watch e₀ steps { e with peer := p }

/-- The notices match the changes of the state: each is reported at its change, none otherwise. -/
structure Told (steps : List (Endpoint I × Phase × Endpoint I)) : Prop where
  changes : ∀ e phase e', (e, phase, e') ∈ steps → reported e e' = e.peer.state.noticed e'.peer.state
  alternate : (steps.flatMap fun step => reported step.1 step.2.2).IsChain (· ≠ ·)
  quiet : ∀ e phase e', (e, phase, e') ∈ steps → e.peer.state.isRunning = false → reported e e' = []

/-- Every step of the task that writes the state. -/
theorem watch_steps {e₀ e : Endpoint I} {steps : List (Endpoint I × Phase × Endpoint I)}
    (hrun : Watch e₀ steps e) (hp : e₀.peer.Paired) : e.peer.Paired ∧
      (∀ e₁ phase e₂, (e₁, phase, e₂) ∈ steps → (reported e₁ e₂ = e₁.peer.state.noticed e₂.peer.state ↔
        ∀ now, phase = .notice now → e₁.isSilent now = .ok true → e₁.Notifiable)) ∧
      PeerState.Alternating
        (steps.flatMap fun step => step.1.peer.state.noticed step.2.2.peer.state) e.peer.state := by
  induction hrun with
  | start => exact ⟨hp, by simp, .nil, by simp, by simp⟩
  | @handle steps e hrun now e' hlive h ih =>
    obtain ⟨hp, hsteps, halternating⟩ := ih
    have htells := (handle_tells hp now).ok h
    refine ⟨htells.paired, fun e₁ phase e₂ hmem => ?_, ?_⟩
    · rcases List.mem_append.mp hmem with hmem | hmem
      · exact hsteps _ _ _ hmem
      · obtain ⟨rfl, rfl, rfl⟩ : e₁ = e ∧ phase = .handle ∧ e₂ = e' := by simpa using hmem
        exact iff_of_true htells.notices (by simp)
    · rw [List.flatMap_append, List.flatMap_singleton]
      exact halternating.step (handle_lasting h)
  | @tick steps e hrun now e₁ e₂ hlive hnotice h ih =>
    obtain ⟨hp, hsteps, halternating⟩ := ih
    have hp₁ := notice_paired hp hnotice
    have hrest : Tells e₁ e₂ ∧ e₁.peer.state.Lasting e₂.peer.state := by
      rw [tick, hlive, if_neg (by simp), hnotice, Fallible.ok_bind] at h
      split at h
      · obtain rfl := Except.ok.inj h
        exact ⟨tells_of_state hp₁ rfl rfl rfl, .refl _⟩
      · exact ⟨(expire_tells hp₁ now).ok h, expire_lasting h⟩
    refine ⟨hrest.1.paired, fun e₃ phase e₄ hmem => ?_, ?_⟩
    · rcases List.mem_append.mp hmem with hmem | hmem
      · exact hsteps _ _ _ hmem
      · rcases List.mem_cons.mp hmem with heq | hmem
        · obtain ⟨rfl, rfl, rfl⟩ : e₃ = e ∧ phase = .notice now ∧ e₄ = e₁ := by simpa using heq
          rw [notice_told_iff hp hnotice]
          exact ⟨fun h now' hnow => by obtain rfl := Phase.notice.inj hnow; exact h, fun h => h now rfl⟩
        · obtain ⟨rfl, rfl, rfl⟩ : e₃ = e₁ ∧ phase = .expire ∧ e₄ = e₂ := by simpa using hmem
          exact iff_of_true hrest.1.notices (by simp)
    · rw [List.flatMap_append, List.flatMap_cons, List.flatMap_singleton, ← List.append_assoc]
      exact (halternating.step (notice_lasting hnotice)).step hrest.2
  | @panic steps e hrun now err hlive hnotice ih =>
    obtain ⟨hp, hsteps, halternating⟩ := ih
    refine ⟨unwound_paired hp now, fun e₁ phase e₂ hmem => ?_, ?_⟩
    · rcases List.mem_append.mp hmem with hmem | hmem
      · exact hsteps _ _ _ hmem
      · obtain ⟨rfl, rfl, rfl⟩ : e₁ = e ∧ phase = .notice now ∧ e₂ = e.unwound now := by simpa using hmem
        rw [unwound_told_iff hnotice]
        exact ⟨fun h now' hnow => by obtain rfl := Phase.notice.inj hnow; exact h, fun h => h now rfl⟩
    · rw [List.flatMap_append, List.flatMap_singleton]
      exact halternating.step (unwound_lasting e now)
  | @share steps e hrun p h ih =>
    obtain ⟨hp, hsteps, halternating⟩ := ih
    rcases h with ⟨hstate, hclosed⟩ | ⟨hstate, hclosed⟩
    · refine ⟨?_, hsteps, ?_⟩
      · show p.events.closed = true ↔ p.state = _
        rw [hstate, hclosed]
        exact hp
      · rwa [show ({ e with peer := p } : Endpoint I).peer.state = e.peer.state from hstate]
    · refine ⟨iff_of_true hclosed hstate, hsteps, ?_⟩
      have hover : e.peer.state.Lasting p.state := by
        rw [hstate]
        exact ⟨fun _ => rfl, fun _ => rfl⟩
      have hstep := halternating.step hover
      rw [hstate, PeerState.noticed_disconnected, List.append_nil] at hstep
      rwa [show ({ e with peer := p } : Endpoint I).peer.state = .disconnected from hstate]

/-- The notices match the changes of the state just as long as no tick finds a peer silent that it
cannot notify of it: one that has yet to connect. -/
theorem watch_told_iff {e₀ e : Endpoint I} {steps : List (Endpoint I × Phase × Endpoint I)}
    (hrun : Watch e₀ steps e) (hp : e₀.peer.Paired) : Told steps ↔
      ∀ e₁ now e₂, (e₁, .notice now, e₂) ∈ steps → e₁.isSilent now = .ok true → e₁.Notifiable := by
  obtain ⟨-, hsteps, halternating⟩ := watch_steps hrun hp
  constructor
  · intro h e₁ now e₂ hmem
    exact (hsteps _ _ _ hmem).mp (h.changes _ _ _ hmem) now rfl
  · intro h
    have hchanges : ∀ e₁ phase e₂, (e₁, phase, e₂) ∈ steps →
        reported e₁ e₂ = e₁.peer.state.noticed e₂.peer.state := by
      intro e₁ phase e₂ hmem
      refine (hsteps _ _ _ hmem).mpr fun now hphase => ?_
      subst hphase
      exact h _ _ _ hmem
    refine ⟨hchanges, ?_, fun e₁ phase e₂ hmem hstate => ?_⟩
    · rw [List.flatMap_congr fun step hmem => hchanges step.1 step.2.1 step.2.2 hmem]
      exact halternating.chain
    · rw [hchanges _ _ _ hmem]
      cases hbefore : e₁.peer.state <;> simp_all [PeerState.isRunning, PeerState.noticed]

omit [Build] [Varinteger] [Pod I]

/-- A peer whose connection runs, with a message that has yet to be handled. -/
def interrupting : Endpoint UInt8 :=
  { running with peer := { running.peer with messageIn := ⟨[⟨7, 0, .keepAlive⟩], false⟩ } }

/-- Six milliseconds of silence interrupt a connection that gives notice after five, and the next
message resumes it. -/
theorem watch_told_iff_resumed :
    letI : Build := ⟨true⟩
    letI := Varinteger.leb128
    ∃ steps e, Watch interrupting steps e ∧
      steps.flatMap (fun step => reported step.1 step.2.2) = [.interrupted, .resumed] ∧ Told steps := by
  let build : Build := ⟨true⟩
  let varint := Varinteger.leb128
  have hrun : Watch interrupting ([] ++ [_, _] ++ [_]) _ :=
    .handle (.tick .start 6 _ _ rfl rfl rfl) 7 _ rfl rfl
  refine ⟨_, _, hrun, rfl, (watch_told_iff hrun (by unfold Peer.Paired; decide)).mpr fun e₁ now e₂ hmem hsilent => ?_⟩
  simp only [List.nil_append, List.cons_append, List.mem_cons, List.not_mem_nil, or_false,
    Prod.mk.injEq, reduceCtorEq, false_and, and_false] at hmem
  obtain ⟨rfl, -, -⟩ := hmem
  rfl

/-- A peer that has been connecting for longer than the notice takes is reported as interrupted. -/
theorem not_told_connecting :
    letI : Build := ⟨true⟩
    letI := Varinteger.leb128
    ∃ steps e, Watch starting steps e ∧ starting.peer.Paired ∧ e.peer.state = .connecting 1 ∧
      steps.flatMap (fun step => reported step.1 step.2.2) = [.interrupted, .interrupted] ∧
      ¬Told steps := by
  let build : Build := ⟨true⟩
  let varint := Varinteger.leb128
  have hrun : Watch starting ([] ++ [_, _] ++ [_, _]) _ :=
    .tick (.tick .start 751 _ _ rfl rfl rfl) 768 _ _ rfl rfl rfl
  refine ⟨_, _, hrun, by unfold Peer.Paired; decide, rfl, rfl, fun h => ?_⟩
  exact absurd (h.changes _ _ _ List.mem_cons_self) (by decide)

end Endpoint

end Backroll

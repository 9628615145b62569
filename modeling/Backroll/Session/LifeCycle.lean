import Backroll.Protocol.LifeCycle
import Backroll.Session.Mesh
import Backroll.Session.Startup

/-! What a session tells its client about a player, over whole runs of the session, the tasks of its
peers and the client: it keeps to the life cycle of a connection. -/
namespace Backroll

open Fallible (Ends)

variable {n : ℕ} {I S : Type}

/-- The player that an event is about. -/
def Event.player? : Event → Option ℕ
  | connected player | synchronizing player _ _ | synchronized player | disconnected player
  | connectionInterrupted player _ | connectionResumed player => some player
  | running | timeSync _ => none

/-- The events about a player. -/
def about (player : ℕ) (commands : List (Command I)) : List Event :=
  commands.filterMap fun
    | .event event => if event.player? = some player then some event else none
    | _ => none

@[simp] theorem about_nil (player : ℕ) : about player ([] : List (Command I)) = [] := rfl

theorem about_append (player : ℕ) (cs cs' : List (Command I)) :
    about player (cs ++ cs') = about player cs ++ about player cs' := List.filterMap_append

theorem about_simulates {lo : ℤ} {cs : List (Command I)} (h : SimulatesFrom lo cs) (player : ℕ) :
    about player cs = [] := by
  refine List.filterMap_eq_nil_iff.mpr fun c hc => ?_
  cases c with
  | event event => exact absurd hc (h.2 event)
  | _ => rfl

theorem about_timeSync {events : List Event} (h : ∀ event ∈ events, ∃ ahead, event = .timeSync ahead)
    (player : ℕ) : about player (events.map Command.event : List (Command I)) = [] := by
  refine List.filterMap_eq_nil_iff.mpr fun c hc => ?_
  obtain ⟨event, hevent, rfl⟩ := List.mem_map.mp hc
  obtain ⟨ahead, rfl⟩ := h event hevent
  rfl

/-- Whether the connection of a player lasts, as its session and its tasks both see it. -/
def PlayerType.signal (p : PlayerType I) : Option (PeerState × Bool) :=
  p.peer?.map fun peer => (peer.state, peer.events.closed)

theorem PlayerType.signal_eq {p p' : PlayerType I} (h : p'.signal = p.signal) {peer' : Peer I}
    (hp' : p' = .remote peer') : ∃ peer, p = .remote peer ∧ peer'.state = peer.state ∧
      peer'.events.closed = peer.events.closed := by
  subst hp'
  cases p with
  | localPlayer => simp [signal, peer?] at h
  | remote peer =>
    obtain ⟨hstate, hclosed⟩ := Prod.mk.inj (Option.some.inj h)
    exact ⟨peer, rfl, hstate, hclosed⟩

namespace Session

variable {s s₁ s₂ : Session n I S} {cs cs' : List (Command I)} {i queue : Fin n}

/-- What is told about a player while it is in the game is what its tasks have reported, and what is
told of its end is the last thing told. -/
inductive Recounts (i : Fin n) (s : Session n I S) (commands : List (Command I))
    (s' : Session n I S) : Prop
  | stays (told : List (ProtocolEvent I)) (hin : (s.status i).disconnected = false)
    (hin' : (s'.status i).disconnected = false)
    (hsignal : (s'.players i).signal = (s.players i).signal)
    (hqueue : eventsOf (s.players i) = told ++ eventsOf (s'.players i))
    (habout : about i commands = told.filterMap (·.told i))
  | leaves (told rest : List (ProtocolEvent I)) (hin : (s.status i).disconnected = false)
    (hout' : (s'.status i).disconnected = true)
    (hsignal : (s'.players i).signal = some (.disconnected, true))
    (hqueue : eventsOf (s.players i) = told ++ rest)
    (habout : about i commands = told.filterMap (·.told i) ++ [.disconnected i])
  | gone (hout : (s.status i).disconnected = true) (hout' : (s'.status i).disconnected = true)
    (hsignal : (s'.players i).signal = (s.players i).signal) (habout : about i commands = [])

/-- Nothing happens to a player. -/
theorem Recounts.idle (hsignal : (s₁.players i).signal = (s.players i).signal)
    (hqueue : eventsOf (s₁.players i) = eventsOf (s.players i))
    (hstatus : (s₁.status i).disconnected = (s.status i).disconnected)
    (habout : about i cs = []) : Recounts i s cs s₁ := by
  cases hd : (s.status i).disconnected with
  | true => exact .gone hd (hstatus.trans hd) hsignal habout
  | false => exact .stays [] hd (hstatus.trans hd) hsignal hqueue.symm habout

theorem Recounts.same (hplayer : s₁.players i = s.players i)
    (hstatus : (s₁.status i).disconnected = (s.status i).disconnected)
    (habout : about i cs = []) : Recounts i s cs s₁ :=
  .idle (by rw [hplayer]) (by rw [hplayer]) hstatus habout

theorem Recounts.refl (i : Fin n) (s : Session n I S) : Recounts i s [] s := .same rfl rfl rfl

theorem Recounts.trans (h : Recounts i s cs s₁) (h' : Recounts i s₁ cs' s₂) :
    Recounts i s (cs ++ cs') s₂ := by
  cases h with
  | stays told hin hin₁ hsignal hqueue habout =>
    cases h' with
    | stays told' _ hin₂ hsignal' hqueue' habout' =>
      refine .stays (told ++ told') hin hin₂ (hsignal'.trans hsignal) ?_ ?_
      · rw [hqueue, hqueue', List.append_assoc]
      · rw [about_append, habout, habout', List.filterMap_append]
    | leaves told' rest _ hout₂ hsignal' hqueue' habout' =>
      refine .leaves (told ++ told') rest hin hout₂ hsignal' ?_ ?_
      · rw [hqueue, hqueue', List.append_assoc]
      · rw [about_append, habout, habout', List.filterMap_append, List.append_assoc]
    | gone hout₁ => simp [hin₁] at hout₁
  | leaves told rest hin hout₁ hsignal hqueue habout =>
    cases h' with
    | stays told' hin₁ => simp [hin₁] at hout₁
    | leaves told' rest' hin₁ => simp [hin₁] at hout₁
    | gone _ hout₂ hsignal' habout' =>
      refine .leaves told rest hin hout₂ (hsignal'.trans hsignal) hqueue ?_
      rw [about_append, habout, habout', List.append_nil]
  | gone hout hout₁ hsignal habout =>
    cases h' with
    | stays told' hin₁ => simp [hin₁] at hout₁
    | leaves told' rest' hin₁ => simp [hin₁] at hout₁
    | gone _ hout₂ hsignal' habout' =>
      exact .gone hout hout₂ (hsignal'.trans hsignal) (by rw [about_append, habout, habout']; rfl)

/-- The channel of the events is closed just when the connection is over. -/
theorem Recounts.paired (h : Recounts i s cs s₁) (hp : ∀ peer, s.players i = .remote peer → peer.Paired)
    (peer : Peer I) (hpeer : s₁.players i = .remote peer) : peer.Paired := by
  have hsame : (s₁.players i).signal = (s.players i).signal → peer.Paired := by
    intro hsignal
    obtain ⟨peer', hpeer', hstate, hclosed⟩ := PlayerType.signal_eq hsignal hpeer
    rw [Peer.Paired, hstate, hclosed]
    exact hp peer' hpeer'
  cases h with
  | stays told hin hin' hsignal hqueue habout => exact hsame hsignal
  | gone hout hout' hsignal habout => exact hsame hsignal
  | leaves told rest hin hout hsignal hqueue habout =>
    rw [hpeer] at hsignal
    obtain ⟨hstate, hclosed⟩ := Prod.mk.inj (Option.some.inj hsignal)
    exact ⟨fun _ => hstate, fun _ => hclosed⟩

theorem checkInitialSync_about (s : Session n I S) (player : ℕ) :
    about player s.checkInitialSync.1 = [] ∧ s.checkInitialSync.2.players = s.players := by
  unfold checkInitialSync
  split
  · exact ⟨rfl, rfl⟩
  · exact ⟨rfl, rfl⟩

section Calls

variable [Build]

section Disconnecting

variable [Zeroable I]

theorem disconnectPlayerQueue_about (s : Session n I S) (queue : Fin n) (syncto : ℤ) :
    Ends (s.disconnectPlayerQueue queue syncto) (fun r =>
      (∀ player : ℕ, about player r.1 = if player = queue then [.disconnected queue] else []) ∧
      r.2.players = Function.update s.players queue (s.players queue).disconnect) fun _ => True := by
  have hend : ∀ (adjust : List (Command I)) (s₁ : Session n I S), (∀ player, about player adjust = []) →
      (∀ player : ℕ, about player (adjust ++ [.event (.disconnected queue)] ++ s₁.checkInitialSync.1) =
        if player = queue then [.disconnected queue] else []) ∧
      s₁.checkInitialSync.2.players = s₁.players := by
    intro adjust s₁ hadjust
    refine ⟨fun player => ?_, (checkInitialSync_about s₁ 0).2⟩
    rw [about_append, about_append, hadjust, (checkInitialSync_about s₁ player).1, List.append_nil,
      List.nil_append]
    by_cases hp : player = queue
    · subst hp
      simp [about, Event.player?]
    · simp [about, Event.player?, hp, Ne.symm hp]
  unfold disconnectPlayerQueue
  change Ends (if syncto < s.sync.frameCount then
      (s.drop queue syncto).sync.adjustSimulation syncto >>= _ else _) _ _
  split
  · refine (Sync.adjustSimulation_frames _ syncto).bind fun r hr => ?_
    exact hend r.1 { s.drop queue syncto with sync := r.2 } (about_simulates hr.1)
  · exact hend [] (s.drop queue syncto) fun _ => rfl

/-- A player in the game is put out. -/
theorem disconnectPlayerQueue_recounts (hs : s.Settled) (hremote : (s.players queue).isLocal = false)
    (hin : (s.status queue).disconnected = false) (syncto : ℤ) :
    Ends (s.disconnectPlayerQueue queue syncto) (fun r => Removed queue syncto s r.2 ∧
      ∀ i, Recounts i s r.1 r.2) fun _ => True := by
  refine ((disconnectPlayerQueue_removes hs hremote syncto).and
    (disconnectPlayerQueue_about s queue syncto)).imp fun r hr => ?_
  obtain ⟨hremoved, habout, hplayers⟩ := hr
  refine ⟨hremoved, fun i => ?_⟩
  have hstatus : r.2.status i = Function.update s.sync.localConnectStatus queue ⟨true, syncto⟩ i :=
    congrFun hremoved.statuses i
  specialize habout i
  by_cases hi : i = queue
  · subst hi
    rw [Function.update_self] at hstatus
    rw [if_pos rfl] at habout
    refine .leaves [] (eventsOf (s.players i)) hin (by rw [hstatus]) ?_ rfl habout
    rw [hplayers, Function.update_self]
    cases hp : s.players i with
    | localPlayer => simp [hp, PlayerType.isLocal, PlayerType.peer?] at hremote
    | remote peer => rfl
  · rw [Function.update_of_ne hi] at hstatus
    rw [if_neg fun h => hi (Fin.ext h)] at habout
    refine .same ?_ (by rw [hstatus]; rfl) habout
    rw [hplayers, Function.update_of_ne hi]

theorem disconnectPlayer_recounts (hs : s.Settled) (hremote : (s.players queue).isLocal = false) :
    Ends (s.disconnectPlayer queue) (fun r => match r.1 with
      | .ok commands => (s.status queue).disconnected = false ∧
        (r.2.status queue).disconnected = true ∧ ∀ i, Recounts i s commands r.2
      | .error _ => r.2 = s) fun _ => True := by
  have hqueue : s.playerHandleToQueue queue = .ok queue := by simp [playerHandleToQueue]
  unfold disconnectPlayer
  rw [hqueue]
  dsimp only
  split
  · rfl
  · next hd =>
    rw [if_neg (by simp [hremote])]
    have hin : (s.status queue).disconnected = false := by simpa using hd
    refine (disconnectPlayerQueue_recounts hs hremote hin _).bind fun r hr => ⟨hin, ?_, hr.2⟩
    dsimp only
    rw [status, hr.1.statuses, Function.update_self]

/-- With a local player everyone else leaves, if nobody has left before. -/
theorem disconnectLocal_recounts (hs : s.Settled) (hlocal : (s.players queue).isLocal = true)
    (hall : ∀ i, (s.status i).disconnected = false) :
    Ends (s.disconnectPlayer queue) (fun r => match r.1 with
      | .ok commands => ∀ i, Recounts i s commands r.2
      | .error _ => r.2 = s) fun _ => True := by
  have hqueue : s.playerHandleToQueue queue = .ok queue := by simp [playerHandleToQueue]
  unfold disconnectPlayer
  rw [hqueue]
  dsimp only
  rw [if_neg (by simp [hall queue]), if_pos hlocal]
  refine (Fallible.forEach_ends (fun k (r : List (Command I) × Session n I S) => Later 0 s r.2 ∧
    (∀ i, Recounts i s r.1 r.2) ∧ ∀ i : Fin n, k ≤ i → (r.2.status i).disconnected = false)
    ⟨(Steady.refl hs).toLater, fun i => .refl i s, fun i _ => hall i⟩ ?_).bind fun r hr => hr.2.1
  rintro i ⟨commands, s₁⟩ ⟨hlater, hrecounts, htodo⟩
  dsimp only at hlater hrecounts htodo ⊢
  split
  · exact ⟨hlater, hrecounts, fun j hj => htodo j (by omega)⟩
  · next hi =>
    refine (disconnectPlayerQueue_recounts hlater.settled (by simpa using hi) (htodo i le_rfl) _).bind
      fun r hr => ?_
    refine ⟨by simpa using hlater.trans hr.1.toLater, fun j => (hrecounts j).trans (hr.2 j),
      fun j hj => ?_⟩
    have hne : j ≠ i := by
      rintro rfl
      omega
    have hstatus := congrFun hr.1.statuses j
    rw [Function.update_of_ne hne] at hstatus
    exact (congrArg ConnectionStatus.disconnected hstatus).trans (htodo j (by omega))

end Disconnecting

variable [BEq I]

/-- A report is told, and nobody comes or goes. -/
theorem handleEvent_about (hs : s.Settled) (queue : Fin n) (evt : ProtocolEvent I) :
    Ends (s.handleEvent queue evt) (fun r => r.2.players = s.players ∧
      (∀ i, (r.2.status i).disconnected = (s.status i).disconnected) ∧
      ∀ player : ℕ, about player r.1 = if player = queue then [evt].filterMap (·.told player) else [])
      fun _ => True := by
  have htells : ∀ (event : Event) (player : ℕ), event.player? = some queue.val →
      evt.told queue = some event → about player [(Command.event event : Command I)] =
        if player = queue then [evt].filterMap (·.told player) else [] := by
    intro event player habout htold
    by_cases hp : player = queue
    · subst hp
      simp [about, habout, htold]
    · simp [about, habout, hp, Ne.symm hp]
  cases evt with
  | connected => exact ⟨rfl, fun _ => rfl, fun player => htells _ player rfl rfl⟩
  | synchronizing total count => exact ⟨rfl, fun _ => rfl, fun player => htells _ player rfl rfl⟩
  | networkInterrupted disconnectTimeout =>
    exact ⟨rfl, fun _ => rfl, fun player => htells _ player rfl rfl⟩
  | networkResumed => exact ⟨rfl, fun _ => rfl, fun player => htells _ player rfl rfl⟩
  | synchronized =>
    refine ⟨(checkInitialSync_about s 0).2, fun i => ?_, fun player => ?_⟩
    · show (s.checkInitialSync.2.status i).disconnected = _
      rw [status, (Steady.checkInitialSync hs).statuses]
      rfl
    · show about player ([.event (.synchronized queue)] ++ s.checkInitialSync.1) = _
      rw [about_append, (checkInitialSync_about s player).1, List.append_nil]
      exact htells _ player rfl rfl
  | inputs inputs =>
    simp only [handleEvent]
    split
    · exact ⟨rfl, fun _ => rfl, fun player => by simp [ProtocolEvent.told]⟩
    · next hd =>
      have hin : (s.status queue).disconnected = false := by simpa using hd
      have hflag : Ends (Fallible.walk (handleInput queue) inputs s) (fun s' => Onward 0 s s' ∧
          (s'.status queue).disconnected = false) fun _ => True := by
        refine Fallible.walk_ends (fun _ s' => Onward 0 s s' ∧
          (s'.status queue).disconnected = false) ?_ ⟨(Steady.refl hs).onward, hin⟩
        rintro input _ s' ⟨hon, hin'⟩
        exact (handleInput_onward hon.settled hin' input).imp fun s'' h => ⟨hon.trans' h.1, h.2⟩
      refine (hflag.and (handleInputs_hears s queue inputs)).bind fun s' hs' => ?_
      obtain ⟨⟨-, hin'⟩, hhears⟩ := hs'
      refine ⟨hhears.players, fun i => ?_, fun player => by simp [ProtocolEvent.told]⟩
      by_cases hi : i = queue
      · subst hi
        rw [hin, ← hin']
      · exact congrArg _ (hhears.others i hi)

section Polling

variable [Zeroable I]

theorem flushPeerEvents_recounts (hs : s.Settled) {peer : Peer I}
    (hp : s.players queue = .remote peer) :
    Ends (s.flushPeerEvents queue peer.events) (fun r => ∀ i, Recounts i s r.1 r.2)
      fun _ => True := by
  have hremote : (s.players queue).isLocal = false := by rw [hp]; rfl
  have hqueue : eventsOf (s.players queue) = peer.events.queue := by rw [hp]; rfl
  unfold flushPeerEvents
  dsimp only
  refine (Fallible.walk_ends (fun rest (r : List (Command I) × Session n I S) => Onward 0 s r.2 ∧
    r.2.players = Function.update s.players queue (drained (s.players queue)) ∧
    (∀ i, (r.2.status i).disconnected = (s.status i).disconnected) ∧
    ∃ done, peer.events.queue = done ++ rest ∧ ∀ player : ℕ, about player r.1 =
      if player = queue then done.filterMap (·.told player) else []) ?_
    ⟨(Steady.drain hs queue).onward, rfl, fun _ => rfl, [], rfl, fun player => by simp⟩).bind
      fun r hr => ?_
  · rintro evt rest ⟨commands, s₁⟩ ⟨hon, hplayers, hstatus, done, hdone, habout⟩
    dsimp only at hon hplayers hstatus habout
    refine ((handleEvent_onward hon.settled queue evt).and
      (handleEvent_about hon.settled queue evt)).bind fun r hr => ?_
    obtain ⟨hon', hplayers', hstatus', habout'⟩ := hr
    refine ⟨hon.trans' hon', hplayers'.trans hplayers, fun i => (hstatus' i).trans (hstatus i),
      done ++ [evt], by rw [hdone, List.append_assoc]; rfl, fun player => ?_⟩
    rw [about_append, habout, habout']
    split
    · rw [List.filterMap_append]
    · rfl
  · obtain ⟨commands, s₁⟩ := r
    obtain ⟨hon, hplayers, hstatus, done, hdone, habout⟩ := hr
    dsimp only at hon hplayers hstatus habout ⊢
    rw [List.append_nil] at hdone
    subst hdone
    have hothers : ∀ i, i ≠ queue → Recounts i s commands s₁ := fun i hi =>
      .same (by rw [hplayers, Function.update_of_ne hi]) (hstatus i)
        (by rw [habout, if_neg fun h => hi (Fin.ext h)])
    have hstays : (s.status queue).disconnected = false → ∀ i, Recounts i s commands s₁ := by
      intro hin i
      by_cases hi : i = queue
      · subst hi
        refine .stays peer.events.queue hin ((hstatus i).trans hin) ?_ ?_ ?_
        · rw [hplayers, Function.update_self, hp]
          rfl
        · rw [hqueue, hplayers, Function.update_self, hp]
          exact (List.append_nil _).symm
        · rw [habout, if_pos rfl]
      · exact hothers i hi
    split
    · have hremote₁ : (s₁.players queue).isLocal = false := by
        rw [(hon.kept queue).isLocal, hremote]
      refine (disconnectPlayer_recounts hon.settled hremote₁).bind fun r₂ hr₂ => ?_
      obtain ⟨result, s₂⟩ := r₂
      cases result with
      | error err => trivial
      | ok more =>
        obtain ⟨hin, -, hmore⟩ := hr₂
        exact fun i => (hstays ((hstatus queue).symm.trans hin) i).trans (hmore i)
    · next hopen =>
      refine hstays ?_
      by_contra hd
      exact hopen (hs.shut queue peer hp (by simpa using hd)).1

theorem flushEvents_recounts (hs : s.Settled) :
    Ends s.flushEvents (fun r => ∀ i, Recounts i s r.1 r.2) fun _ => True := by
  unfold flushEvents
  refine (Fallible.forEach_ends (fun _ (r : List (Command I) × Session n I S) => Onward 0 s r.2 ∧
    ∀ i, Recounts i s r.1 r.2) ⟨(Steady.refl hs).onward, fun i => .refl i s⟩ ?_).imp fun r hr => hr.2
  rintro i ⟨commands, s₁⟩ ⟨hon, hrecounts⟩
  dsimp only at hon hrecounts ⊢
  cases hp : s₁.players i with
  | localPlayer => exact ⟨hon, hrecounts⟩
  | remote peer =>
    have hremote : (s₁.players i).isLocal = false := by rw [hp]; rfl
    refine ((flushPeerEvents_onward hon.settled hremote peer.events).and
      (flushPeerEvents_recounts hon.settled hp)).bind fun r hr => ?_
    exact ⟨hon.trans' hr.1.1, fun j => (hrecounts j).trans (hr.2 j)⟩

theorem pollRunning_recounts (hs : s.Settled) :
    Ends s.pollRunning (fun r => ∀ i, Recounts i s r.1 r.2) fun _ => True := by
  refine pollRunning_ends ((checkSimulation_steady hs).and (Sync.checkSimulation_frames _))
    (fun _ _ => .inr trivial) (fun r hr => (tellFrame_steady hr.1.settled).settled)
    fun r hr frame _ => ?_
  have htell := hr.1.trans (tellFrame_steady hr.1.settled)
  refine (confirm_steady htell.settled frame).imp fun sync hsync events hevents sleep i => ?_
  have hstatus : sync.localConnectStatus = s.sync.localConnectStatus := (htell.trans hsync).statuses
  refine .idle ?_ ?_ ?_ ?_
  · simp only [tellFrame]
    cases s.players i <;> rfl
  · simp only [tellFrame]
    cases s.players i <;> rfl
  · exact congrArg ConnectionStatus.disconnected (congrFun hstatus i)
  · rw [about_append, about_simulates hr.2, about_timeSync hevents]
    rfl

theorem doPoll_recounts (hs : s.Settled) :
    Ends s.doPoll (fun r => ∀ i, Recounts i s r.1 r.2) fun _ => True := by
  unfold doPoll
  rw [if_neg (by simp [hs.idle])]
  refine ((flushEvents_onward hs).and (flushEvents_recounts hs)).bind fun r hr => ?_
  obtain ⟨commands, s₁⟩ := r
  dsimp only at hr ⊢
  split
  · exact hr.2
  · exact (pollRunning_recounts hr.1.1.settled).bind fun r hr₂ i => (hr.2 i).trans (hr₂ i)

theorem advanceFrame_recounts (hs : s.Settled) :
    Ends s.advanceFrame (fun r => ∀ i, Recounts i s r.1 r.2) fun _ => True := by
  unfold advanceFrame
  split
  · refine ((incrementFrame_steady hs).and (Sync.incrementFrame_frames _)).bind fun r hr => ?_
    have hsimulated : ∀ i, Recounts i s r.1 { s with sync := r.2 } := fun i =>
      .same rfl (congrArg ConnectionStatus.disconnected (congrFun hr.1.statuses i))
        (about_simulates hr.2.1 i)
    exact (doPoll_recounts hr.1.settled).bind fun r₂ hr₂ i => (hsimulated i).trans (hr₂ i)
  · exact (doPoll_recounts hs).bind fun r hr => hr

end Polling

/-- The call disconnects a local player when another player is out already. -/
def Again (s : Session n I S) (c : Call I) : Prop :=
  ∃ p q : Fin n, c = .disconnectPlayer p ∧ (s.players p).isLocal = true ∧
    (s.status q).disconnected = true

variable [Varinteger] [Pod I]

theorem addLocalInput_recounts (hs : s.Settled) (hcount : 0 ≤ s.sync.frameCount) (player : ℕ)
    (input : I) : Ends (s.addLocalInput player input) (fun r => ∀ i, Recounts i s [] r.2)
      fun _ => True := by
  refine Ends.of_forall fun r hr i => ?_
  obtain ⟨result, s'⟩ := r
  have haccepted := (addLocalInput_accepted hs hcount player input).ok hr
  cases result with
  | error err =>
    obtain rfl : s' = s := haccepted
    exact .refl i s'
  | ok done =>
    obtain ⟨k, rfl, hacc⟩ := haccepted
    have hstatus : (s'.status i).disconnected = (s.status i).disconnected := by
      by_cases hi : i = k
      · subst hi
        rw [hacc.frame]
      · rw [(hacc.others i hi).1]
    cases hp : s.players i with
    | localPlayer =>
      have hkept := hacc.kept i
      rw [hp] at hkept
      cases hp' : s'.players i with
      | localPlayer => exact .same (hp'.trans hp.symm) hstatus rfl
      | remote peer =>
        rw [hp'] at hkept
        cases hkept
    | remote peer =>
      obtain ⟨statuses, result, peer', hsend, hp'⟩ := addLocalInput_peers hcount hr i peer hp
      have hsent := (Peer.sendInput_sent peer statuses _).ok hsend
      have hstate : peer'.state = peer.state := hsent.state
      have hevents : peer'.events = peer.events := hsent.events
      refine .idle ?_ ?_ hstatus rfl
      · simp [hp, hp', PlayerType.signal, PlayerType.peer?, hstate, hevents]
      · simp [hp, hp', eventsOf, PlayerType.peer?, hevents]

/-- What is told in a call. -/
theorem make_recounts (hs : s.Settled) (hcount : 0 ≤ s.sync.frameCount) {c : Call I}
    (honce : ¬s.Again c) :
    Ends (s.make c) (fun r => ∀ i, Recounts i s r.1 r.2) fun _ => True := by
  cases c with
  | poll => exact doPoll_recounts hs
  | advanceFrame => exact advanceFrame_recounts hs
  | addLocalInput player input => exact (addLocalInput_recounts hs hcount player input).bind fun _ h => h
  | setFrameDelay player delay =>
    refine (show Ends (s.setFrameDelay player delay) (fun r => ∀ i, Recounts i s [] r.2)
      fun _ => True from ?_).bind fun _ h => h
    have hplayers : Ends (s.setFrameDelay player delay) (fun r => r.2.players = s.players)
        fun _ => True := by
      unfold setFrameDelay
      split
      · rfl
      · exact .bind_any fun _ => rfl
    exact ((setFrameDelay_steady hs player delay).and hplayers).imp fun r hr i =>
      .same (congrFun hr.2 i) (congrArg ConnectionStatus.disconnected (congrFun hr.1.statuses i)) rfl
  | disconnectPlayer player =>
    refine (show Ends (s.disconnectPlayer player) (fun r => match r.1 with
        | .ok commands => ∀ i, Recounts i s commands r.2
        | .error _ => r.2 = s) fun _ => True from ?_).bind fun r hr => ?_
    · by_cases hplayer : player < n
      · obtain ⟨queue, rfl⟩ : ∃ queue : Fin n, queue.val = player := ⟨⟨player, hplayer⟩, rfl⟩
        cases hlocal : (s.players queue).isLocal with
        | true =>
          refine disconnectLocal_recounts hs hlocal fun q => ?_
          by_contra hd
          exact honce ⟨queue, q, rfl, hlocal, by simpa using hd⟩
        | false =>
          refine (disconnectPlayer_recounts hs hlocal).imp fun r hr => ?_
          obtain ⟨result, s'⟩ := r
          cases result with
          | error err => exact hr
          | ok commands => exact hr.2.2
      · simp only [disconnectPlayer, playerHandleToQueue, dif_neg hplayer]
        rfl
    · obtain ⟨result, s'⟩ := r
      cases result with
      | error err =>
        obtain rfl : s' = s := hr
        exact fun i => .refl i s'
      | ok commands => exact hr

end Calls

end Session

/-- A session with its client, the tasks of its peers, and all that the client was told. -/
structure Station (n : ℕ) (I S : Type) where
  host : Host n I S
  tasks : Fin n → Endpoint I
  issued : List (Command I)

namespace Station

/-- The client has made a call. -/
def called (t : Station n I S) (host : Host n I S) (commands : List (Command I)) : Station n I S where
  host := host
  tasks i := (t.tasks i).share (host.session.players i)
  issued := t.issued ++ commands

/-- The tasks of a peer have done something. -/
def worked (t : Station n I S) (i : Fin n) (e : Endpoint I) : Station n I S where
  host := { t.host with session := t.host.session.share i e.peer }
  tasks := Function.update t.tasks i e
  issued := t.issued

/-- What the tasks of a peer do last is what counts. -/
theorem worked_worked (t : Station n I S) (i : Fin n) (e e' : Endpoint I) :
    (t.worked i e).worked i e' = t.worked i e' := by
  unfold worked
  dsimp only
  rw [Function.update_idem]
  cases hp : t.host.session.players i <;> simp [Session.share, hp, PlayerType.mapPeer]

section Runs

variable [Build] [BEq I] [Client I S] [Varinteger] [Pod I]

/-- Any message may come in, and each task may take its turn at any time. The timer finds a peer
silent only after its handshake, and nobody disconnects a local player once another is out. -/
inductive Step : Station n I S → Station n I S → Prop
  | call (t c commands s host) (hmake : t.host.session.make c = .ok (commands, s))
    (hexec : Host.execute ⟨s, t.host.state⟩ commands = .ok host)
    (honce : ¬t.host.session.Again c) : Step t (t.called host commands)
  | serializeOutgoing (t) (i : Fin n) (now message e)
    (h : (t.tasks i).serializeOutgoing now = some (message, e)) : Step t (t.worked i e)
  | deserializeIncoming (t) (i : Fin n) (message) :
    Step t (t.worked i ((t.tasks i).deserializeIncoming message))
  | handle (t) (i : Fin n) (now e) (h : (t.tasks i).handle now = .ok e) : Step t (t.worked i e)
  | tick (t) (i : Fin n) (now e) (h : (t.tasks i).tick now = .ok e)
    (hsilent : (t.tasks i).isSilent now = .ok true → (t.tasks i).peer.state.random? = none) :
    Step t (t.worked i e)
  | heartbeat (t) (i : Fin n) :
    Step t (t.worked i { t.tasks i with peer := (t.tasks i).peer.heartbeat.2 })
  | sendQualityReports (t) (i : Fin n) (now) :
    Step t (t.worked i { t.tasks i with peer := ((t.tasks i).peer.sendQualityReports now).2 })
  | resendInputs (t) (i : Fin n) (now result p)
    (h : (t.tasks i).peer.resendInputs now t.host.session.statuses = .ok (result, p)) :
    Step t (t.worked i { t.tasks i with peer := p })

inductive Reachable : Station n I S → Prop
  | start (players delay randoms s state tasks) (hnew : Session.new players delay randoms = .ok s)
    (htasks : ∀ i peer, s.players i = .remote peer → (tasks i).peer = peer) :
    Reachable ⟨⟨s, state⟩, tasks, []⟩
  | step (t t') (ht : Reachable t) (h : Step t t') : Reachable t'

/-- What was told about a player, and what is to be told of what its tasks have reported, keeps to
the life cycle. -/
def Tells (s : Session n I S) (issued : List (Command I)) (i : Fin n) : Prop :=
  ∃ course, Course.absent.after (about i issued) = some course ∧
    ((s.status i).disconnected = false → course ≠ .ended ∧
      ∃ course', course.after ((Session.eventsOf (s.players i)).filterMap (·.told i)) = some course' ∧
        ∀ peer, s.players i = .remote peer → peer.state.Stands course')

structure Inv (t : Station n I S) : Prop where
  settled : t.host.session.Settled
  count : 0 ≤ t.host.session.sync.frameCount
  joined : ∀ i peer, t.host.session.players i = .remote peer →
    ∃ statuses, (t.tasks i).peer = { peer with peerConnectStatus := statuses }
  paired : ∀ i peer, t.host.session.players i = .remote peer → peer.Paired
  tells : ∀ i, Tells t.host.session t.issued i

variable {t t' : Station n I S} {s s' : Session n I S} {issued cs : List (Command I)} {i : Fin n}

omit [Build] [BEq I] [Client I S] [Varinteger] [Pod I] in
/-- What is told in a call keeps to what the tasks have reported. -/
theorem Tells.recounts (h : Tells s issued i) (hr : s.Recounts i cs s') : Tells s' (issued ++ cs) i := by
  obtain ⟨course, hcourse, htells⟩ := h
  cases hr with
  | stays told hin hin' hsignal hqueue habout =>
    obtain ⟨hne, course', hafter, hstands⟩ := htells hin
    rw [hqueue, List.filterMap_append] at hafter
    obtain ⟨course₁, htold, hrest⟩ := Course.after_split hafter
    refine ⟨course₁, by rw [about_append, Course.after_append hcourse, habout, htold],
      fun _ => ⟨Course.after_told_ne_ended hne htold, course', hrest, fun peer' hpeer' => ?_⟩⟩
    obtain ⟨peer, hpeer, hstate, -⟩ := PlayerType.signal_eq hsignal hpeer'
    rw [hstate]
    exact hstands peer hpeer
  | leaves told rest hin hout hsignal hqueue habout =>
    obtain ⟨hne, course', hafter, -⟩ := htells hin
    rw [hqueue, List.filterMap_append] at hafter
    obtain ⟨course₁, htold, -⟩ := Course.after_split hafter
    refine ⟨.ended, ?_, fun hin' => by simp [hin'] at hout⟩
    rw [about_append, Course.after_append hcourse, habout, Course.after_append htold,
      Course.after_single, Course.next_disconnected (Course.after_told_ne_ended hne htold)]
  | gone hout hout' hsignal habout =>
    refine ⟨course, ?_, fun hin => by simp [hin] at hout'⟩
    rw [about_append, habout, List.append_nil, hcourse]

theorem Inv.call (h : Inv t) {c : Call I} {commands : List (Command I)} {host : Host n I S}
    (hmake : t.host.session.make c = .ok (commands, s))
    (hexec : Host.execute ⟨s, t.host.state⟩ commands = .ok host) (honce : ¬t.host.session.Again c) :
    Inv (t.called host commands) := by
  have hrecounts := (Session.make_recounts h.settled h.count honce).ok hmake
  obtain ⟨k, hlater⟩ := (Session.make_later h.settled h.count c).ok hmake
  obtain ⟨⟨frames, state⟩, hall, hhost⟩ := Fallible.bind_eq_ok.mp hexec
  obtain rfl := Except.ok.inj hhost
  refine ⟨hlater.settled.setFrames (execAll_label hall), ?_, fun i peer hp => ?_,
    fun i => (hrecounts i).paired (h.paired i), fun i => ?_⟩
  · have hcount : s.sync.frameCount = t.host.session.sync.frameCount + k := hlater.count
    have hpos := h.count
    show 0 ≤ s.sync.frameCount
    omega
  · refine ⟨(t.tasks i).peer.peerConnectStatus, ?_⟩
    show ((t.tasks i).share ((s.setFrames frames).players i)).peer = _
    rw [show (s.setFrames frames).players i = .remote peer from hp]
    rfl
  · have htells : Tells s (t.issued ++ commands) i := (h.tells i).recounts (hrecounts i)
    exact htells

omit [Build] [BEq I] [Client I S] [Varinteger] [Pod I] in
/-- What the tasks of a peer report goes on from what was told. -/
theorem Inv.work (h : Inv t) (i : Fin n) {e : Endpoint I}
    (hrecounts : (t.tasks i).peer.Paired → (t.tasks i).peer.Recounts e.peer)
    (hleads : (t.tasks i).peer.state.Leads e.peer.state) : Inv (t.worked i e) := by
  cases hp : t.host.session.players i with
  | localPlayer =>
    have hsame : t.host.session.share i e.peer = t.host.session := by
      unfold Session.share
      rw [hp]
      exact congrArg (fun players => { t.host.session with players := players })
        (hp ▸ Function.update_eq_self i t.host.session.players)
    unfold worked
    rw [hsame]
    refine ⟨h.settled, h.count, fun j peer hpeer => ?_, h.paired, h.tells⟩
    have hne : j ≠ i := by
      rintro rfl
      rw [hp] at hpeer
      cases hpeer
    dsimp only
    rw [Function.update_of_ne hne]
    exact h.joined j peer hpeer
  | remote peer =>
    obtain ⟨statuses, htask⟩ := h.joined i peer hp
    rw [htask] at hrecounts hleads
    obtain ⟨hpaired, news, hnews, hmoves⟩ := hrecounts (h.paired i peer hp)
    have hself : (t.host.session.share i e.peer).players i =
        .remote { e.peer with peerConnectStatus := peer.peerConnectStatus } := by
      simp [Session.share, hp, PlayerType.mapPeer]
    have hother : ∀ j, j ≠ i → (t.host.session.share i e.peer).players j = t.host.session.players j :=
      fun j hj => Function.update_of_ne hj _ _
    have hkept : ∀ j, (t.host.session.players j).Kept ((t.host.session.share i e.peer).players j) := by
      intro j
      by_cases hj : j = i
      · subst hj
        rw [hself, hp]
        refine .remote peer _ rfl hleads fun hclosed => ?_
        exact hpaired.mpr (hleads.ended ((h.paired j peer hp).mp hclosed))
      · rw [hother j hj]
        exact .refl _
    have hlater : Session.Later 0 t.host.session (t.host.session.share i e.peer) :=
      .of_players h.settled hkept
    refine ⟨hlater.settled, h.count, fun j peer' hpeer' => ?_, fun j peer' hpeer' => ?_, fun j => ?_⟩
    · by_cases hj : j = i
      · subst hj
        obtain rfl := PlayerType.remote.inj (hself.symm.trans hpeer')
        exact ⟨e.peer.peerConnectStatus, by simp [worked]⟩
      · obtain ⟨statuses', htask'⟩ := h.joined j peer' ((hother j hj).symm.trans hpeer')
        exact ⟨statuses', by simp [worked, hj, htask']⟩
    · by_cases hj : j = i
      · subst hj
        obtain rfl := PlayerType.remote.inj (hself.symm.trans hpeer')
        exact hpaired
      · exact h.paired j peer' ((hother j hj).symm.trans hpeer')
    · obtain ⟨course, hcourse, htells⟩ := h.tells j
      refine ⟨course, hcourse, fun hin => ?_⟩
      obtain ⟨hne, course', hafter, hstands⟩ := htells hin
      refine ⟨hne, ?_⟩
      show ∃ course', course.after ((Session.eventsOf ((t.host.session.share i e.peer).players j)).filterMap _) =
        some course' ∧ ∀ peer', (t.host.session.share i e.peer).players j = .remote peer' → _
      by_cases hj : j = i
      · subst hj
        rw [hp] at hafter
        obtain ⟨course₂, hmore, hstands₂⟩ := hmoves j course' (hstands peer hp)
        refine ⟨course₂, ?_, fun peer' hpeer' => ?_⟩
        · rw [hself]
          show course.after (e.peer.events.queue.filterMap _) = _
          rw [hnews, List.filterMap_append]
          exact (Course.after_append hafter).trans hmore
        · obtain rfl := PlayerType.remote.inj (hself.symm.trans hpeer')
          exact hstands₂
      · rw [hother j hj]
        exact ⟨course', hafter, hstands⟩

theorem Step.inv (hstep : Step t t') (h : Inv t) : Inv t' := by
  have hsame : ∀ (i : Fin n) (e : Endpoint I), e.peer.events = (t.tasks i).peer.events →
      e.peer.state = (t.tasks i).peer.state → Inv (t.worked i e) := fun i e hevents hstate =>
    h.work i (fun hpaired => .of_same hpaired hevents hstate) (by rw [hstate]; exact .refl _)
  cases hstep with
  | call c commands s host hmake hexec honce => exact h.call hmake hexec honce
  | serializeOutgoing i now message e hsend =>
    unfold Endpoint.serializeOutgoing at hsend
    split at hsend
    · cases hsend
    · obtain ⟨-, rfl⟩ := Prod.mk.inj (Option.some.inj hsend)
      exact hsame i _ rfl rfl
  | deserializeIncoming i message =>
    refine hsame i _ ?_ (Endpoint.deserializeIncoming_untouched _ message).state
    unfold Endpoint.deserializeIncoming
    split
    · split <;> rfl
    · rfl
  | handle i now e hhandle =>
    exact h.work i (fun hpaired => Endpoint.handle_recounts hpaired hhandle)
      (Endpoint.handle_leads hhandle)
  | tick i now e htick hsilent =>
    exact h.work i (fun hpaired => Endpoint.tick_recounts hpaired htick hsilent)
      (Endpoint.Step.tick _ _ _ htick).leads
  | heartbeat i => exact hsame i _ (Peer.send_events _ _) (Peer.heartbeat_state _)
  | sendQualityReports i now =>
    refine hsame i _ ?_ (Peer.sendQualityReports_state _ now)
    unfold Peer.sendQualityReports
    split
    · exact Peer.send_events _ _
    · rfl
  | resendInputs i now result p hresend =>
    refine hsame i _ ?_ ((Peer.resendInputs_state _ now _).ok hresend)
    unfold Peer.resendInputs at hresend
    split at hresend
    · exact ((Peer.sendPendingOutput_same _ _).ok hresend).2.2.1
    · obtain ⟨-, rfl⟩ := Prod.mk.inj (Except.ok.inj hresend)
      rfl

theorem reachable_inv (ht : Reachable t) : Inv t := by
  induction ht with
  | start players delay randoms s state tasks hnew htasks =>
    have hremote := fun i peer => @Session.remote_new _ _ _ _ _ _ _ _ hnew i peer
    have hsettled := Session.settled_new hnew
    refine ⟨hsettled, ?_, fun i peer hp => ⟨peer.peerConnectStatus, htasks i peer hp⟩,
      fun i peer hp => ?_, fun i => ⟨.absent, rfl, fun _ => ⟨by decide, .absent, ?_, fun peer hp => ?_⟩⟩⟩
    · obtain rfl := Session.new_eq hnew
      exact le_rfl
    · obtain ⟨-, rfl⟩ := hremote i peer hp
      simp [Peer.Paired, Peer.new]
    · show Course.absent.after ((Session.eventsOf (s.players i)).filterMap _) = _
      cases hp : s.players i with
      | localPlayer => rfl
      | remote peer =>
        obtain ⟨-, rfl⟩ := hremote i peer hp
        rfl
    · obtain ⟨-, rfl⟩ := hremote i peer hp
      rfl
  | step t t' _ hstep ih => exact hstep.inv ih

/-- Whatever the peers, the network and the client do, what the client is told about a player keeps
to the life cycle of a connection. -/
theorem reachable_lifeCycle (ht : Reachable t) (i : Fin n) : LifeCycle (about i t.issued) := by
  obtain ⟨course, hcourse, -⟩ := (reachable_inv ht).tells i
  exact Option.isSome_iff_exists.mpr ⟨course, hcourse⟩

/-- A message comes in and is handled. -/
theorem Reachable.hear {e e' : Endpoint I} (ht : Reachable (t.worked i e)) (message : Message) (now : ℕ)
    (h : (e.deserializeIncoming message).handle now = .ok e') : Reachable (t.worked i e') := by
  have hin := Step.deserializeIncoming (t.worked i e) i message
  rw [worked_worked] at hin
  have hhandle := Step.handle (t.worked i (((t.worked i e).tasks i).deserializeIncoming message)) i now e'
    (by simpa [worked] using h)
  rw [worked_worked] at hhandle
  exact .step _ _ (.step _ _ ht hin) hhandle

/-- The timer fires. -/
theorem Reachable.tick {e e' : Endpoint I} (ht : Reachable (t.worked i e)) (now : ℕ)
    (h : e.tick now = .ok e') (hsilent : e.isSilent now = .ok true → e.peer.state.random? = none) :
    Reachable (t.worked i e') := by
  have htick := Step.tick (t.worked i e) i now e' (by simpa [worked] using h)
    (by simpa [worked] using hsilent)
  rw [worked_worked] at htick
  exact .step _ _ ht htick

end Runs

section Example

attribute [local instance] debugBuild Varinteger.leb128 countingClient

/-- The tasks of a peer that nothing has come from. -/
def unheard : Endpoint UInt8 where
  peer := .new 1 (List.replicate 2 {})
  config := ⟨5000000000, 750000000⟩
  magic := 7
  lastRecvTime := 0

/-- The tasks after the handshake, an interruption and a resumption. -/
def resumed : Endpoint UInt8 where
  peer := { Peer.new 1 (List.replicate 2 {}) with
    state := .running 9
    stats := { lastInputPacketRecvTime := 6 }
    messageOut := { queue := .keepAlive :: List.replicate 5 (.syncRequest 1) }
    events := { queue := [.connected, .synchronizing 5 1, .synchronizing 5 2, .synchronizing 5 3,
      .synchronizing 5 4, .synchronized, .networkInterrupted 4250000000, .networkResumed] } }
  config := ⟨5000000000, 750000000⟩
  nextRecvSeq := 6
  magic := 7
  lastRecvTime := 2001

/-- A session with one peer, up to the poll that tells of the handshake and of an interruption. -/
theorem reachable_lifeCycle_pair : ∃ t : Station 2 UInt8 ℕ, Reachable t ∧
    about 1 t.issued = [.connected 1, .synchronizing 1 1 5, .synchronizing 1 2 5,
      .synchronizing 1 3 5, .synchronizing 1 4 5, .synchronized 1,
      .connectionInterrupted 1 4250000000, .synchronized 1] ∧ LifeCycle (about 1 t.issued) := by
  have hfresh : Reachable ⟨⟨Session.freshPair, 0⟩, fun _ => unheard, []⟩ := by
    refine .start _ _ _ _ _ _ Session.freshPair_new fun i peer hp => ?_
    obtain ⟨-, rfl⟩ := Session.remote_new Session.freshPair_new hp
    rfl
  have hunheard := Reachable.step _ _ hfresh (.heartbeat _ 1)
  have hsyncing := ((hunheard.hear ⟨9, 0, .syncReply 1⟩ 1 rfl).hear ⟨9, 1, .syncReply 1⟩ 2 rfl).hear
    ⟨9, 2, .syncReply 1⟩ 3 rfl
  have hrunning := ((hsyncing.hear ⟨9, 3, .syncReply 1⟩ 4 rfl).hear ⟨9, 4, .syncReply 1⟩ 5 rfl).hear
    ⟨9, 5, .syncReply 1⟩ 6 rfl
  have hinterrupted := hrunning.tick 2000 rfl fun _ => rfl
  have hresumed : Reachable (worked _ 1 resumed) := hinterrupted.hear ⟨9, 6, .keepAlive⟩ 2001 rfl
  have hpolled : Reachable _ := .step _ _ hresumed
    (.call _ .poll _ _ _ rfl rfl fun ⟨_, _, hcall, _⟩ => nomatch hcall)
  exact ⟨_, hpolled, rfl, reachable_lifeCycle hpolled 1⟩

end Example

end Station

end Backroll

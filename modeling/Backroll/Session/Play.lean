import Backroll.Session.Lockstep
import Backroll.Sync.Coverage

/-! A session from which nobody is gone, with its client: the players give inputs, the client polls,
goes on frame by frame, and executes what it is told to. -/
namespace Backroll

open Fallible (Ends)
open Relation (ReflTransGen)

variable {n : ℕ} {I S : Type}

/-- What the client was last told to simulate for a frame. -/
def lastAdvance (commands : List (Command I)) (frame : ℕ) : Option (GameInput I) :=
  ((advances commands).filter fun inputs => inputs.frame = (frame : ℤ)).getLast?

theorem recordAll_eq {inputs : List (GameInput I)} (hframes : ∀ x ∈ inputs, 0 ≤ x.frame)
    (used : ℕ → GameInput I) (frame : ℕ) : recordAll used inputs frame =
      ((inputs.filter fun x => x.frame = (frame : ℤ)).getLast?).getD (used frame) := by
  induction inputs generalizing used with
  | nil => rfl
  | cons x inputs ih =>
    have hrest := ih (fun y hy => hframes y (List.mem_cons_of_mem _ hy))
      (Function.update used x.frame.toNat x)
    have hx := hframes x List.mem_cons_self
    refine hrest.trans ?_
    by_cases hframe : x.frame = frame
    · rw [List.filter_cons_of_pos (by simpa using hframe), List.getLast?_cons, hframe,
        Int.toNat_natCast, Function.update_self]
      rfl
    · rw [List.filter_cons_of_neg (by simpa using hframe), Function.update_of_ne (by omega)]

/-- A session with its client, what the players have given so far, and what the client has been
told. -/
structure Play (n : ℕ) (I S : Type) where
  host : Host n I S
  given : Fin n → List I
  issued : List (Command I)

namespace Play

variable {p : Setup n S} {t t' : Play n I S}

def session (t : Play n I S) : Session n I S := t.host.session

def frameCount (t : Play n I S) : ℤ := t.session.sync.frameCount

def lastConfirmedFrame (t : Play n I S) : ℤ := t.session.sync.lastConfirmedFrame

/-- Every local player has given its input for the current frame. -/
def Ready (p : Setup n S) (t : Play n I S) : Prop :=
  ∀ i, p.locals i = true → (t.given i).length = t.frameCount + 1

/-- The client is told this, and has executed it. -/
def tell (t : Play n I S) (h : Host n I S) (commands : List (Command I)) : Play n I S :=
  { t with host := h, issued := t.issued ++ commands }

/-- What a step makes the client simulate is not confirmed, and no rollback of it goes back beyond
the prediction window. -/
structure Onward (t t' : Play n I S) : Prop where
  confirmed : t.lastConfirmedFrame ≤ t'.lastConfirmedFrame
  count : t.frameCount ≤ t'.frameCount
  commands : ∃ commands, t'.issued = t.issued ++ commands ∧
    (∀ inputs ∈ advances commands, t.lastConfirmedFrame < inputs.frame ∨ t.frameCount ≤ inputs.frame) ∧
    Seeks (fun frame => t'.frameCount - maxPredictionFrames ≤ frame ∧ frame < t'.frameCount) commands

theorem Onward.of_silent (hconfirmed : t'.lastConfirmedFrame = t.lastConfirmedFrame)
    (hcount : t'.frameCount = t.frameCount) (hissued : t'.issued = t.issued) : t.Onward t' :=
  ⟨hconfirmed.ge, hcount.ge, [], by simp [hissued], by simp, trivial⟩

section Invariant

variable [Zeroable I] [BEq I] [Client I S]

inductive Starts (p : Setup n S) : Play n I S → Prop
  | new (players randoms s) (h : Session.new players p.delay randoms = .ok s)
    (hlocals : ∀ i, p.locals i = true ↔ players i = .localPlayer) :
    Starts p ⟨⟨s, p.init⟩, fun _ => [], []⟩

/-- What holds between the calls. -/
structure Inv (p : Setup n S) (t : Play n I S) (g : Standpoint n I) (v : View I S) : Prop where
  stage : Stage p t.given (t.session.waitingFrom 0) t.session g v
  unmarked : g.Unmarked
  settled : t.session.Settled
  opened : ∀ i peer, t.session.players i = .remote peer → peer.events.closed = false
  cells : v.cells = fun c => (t.session.sync.savedState.frames c).data
  state : v.state = t.host.state
  ahead : p.strict → ∀ i, ((t.given i).length : ℤ) ≤ g.cur + maxPredictionFrames + 1
  fresh : t.session.synchronizing = true → ∀ i, p.locals i = true → t.given i = []
  past : ∀ inputs ∈ advances t.issued, 0 ≤ inputs.frame ∧ inputs.frame < g.cur
  used : v.used = recordAll (fun _ => default) (advances t.issued)

theorem Inv.frameCount {g : Standpoint n I} {v : View I S} (h : Inv p t g v) :
    t.frameCount = g.cur := h.stage.core.stands.frameCount

theorem Inv.waiting_nil {g : Standpoint n I} {v : View I S} (h : Inv p t g v) {i : Fin n}
    (hi : p.locals i = true) : t.session.waitingFrom 0 i = [] := by
  have hlocal : (t.session.players i).isLocal = true := (h.stage.locals i).trans hi
  cases hp : t.session.players i with
  | localPlayer => simp [Session.waitingFrom, Session.eventsOf, hp, PlayerType.peer?, inputsOf]
  | remote peer => simp [hp, PlayerType.isLocal, PlayerType.peer?] at hlocal

/-- All inputs of a local player are stored. -/
theorem Inv.locals_eq {g : Standpoint n I} {v : View I S} (h : Inv p t g v) {i : Fin n}
    (hi : p.locals i = true) : t.given i = g.given i := by
  obtain ⟨xs, hxs, hall⟩ := h.stage.waiting i
  rw [h.waiting_nil hi] at hxs
  rw [hall, framed_eq_nil.mp hxs.symm, List.append_nil]

theorem inv_start (h : Starts p t) : ∃ g v, Inv p t g v := by
  obtain ⟨players, randoms, s, hnew, hlocals⟩ := h
  have hsettled := Session.settled_new hnew
  have hremote := fun i peer => @Session.remote_new _ _ _ _ _ _ _ _ hnew i peer
  have hnone : ∀ i, Session.eventsOf (s.players i) = [] := fun i => by
    cases hp : s.players i with
    | localPlayer => rfl
    | remote peer =>
      obtain ⟨-, rfl⟩ := hremote i peer hp
      rfl
  have hlocal : ∀ i, (s.players i).isLocal = p.locals i := fun i => by
    have hi := hlocals i
    rw [Session.new_eq hnew]
    dsimp only
    split
    · next hp => rw [hi.mpr hp]; rfl
    · next hp =>
      rw [hp] at hi
      simp only [reduceCtorEq, iff_false, Bool.not_eq_true] at hi
      rw [hi]
      rfl
  have hsync := congrArg Session.sync (Session.new_eq hnew)
  dsimp only at hsync
  obtain ⟨g, hg⟩ : ∃ g : Standpoint n I, g = ⟨0, 0, 0, fun _ => .new p.delay, fun _ => []⟩ := ⟨_, rfl⟩
  have hcore : Core p g s.sync ⟨fun _ => none, p.init, fun _ => none, fun _ => default⟩ := by
    rw [hsync, hg]
    refine ⟨rfl, rfl, le_rfl, Playback.stands_new rfl rfl _ rfl, fun i => ?_, fun i => ?_,
      fun _ => ⟨fun _ => [], fun f hf => absurd hf (Nat.not_lt_zero f),
        fun _ f hf => absurd hf (Nat.not_lt_zero f)⟩⟩
    · exact ⟨Follows.new p.delay, LogQueue.aware_new _, le_rfl, by simp [LogQueue.new],
        by simp [LogQueue.new, nullFrame], fun _ => by simp [LogQueue.new],
        fun _ => LogQueue.awaits_new _⟩
    · exact ⟨rfl, rfl, fun _ => ⟨rfl, rfl, by simp [LogQueue.new], le_rfl, by simp, by simp⟩,
        fun _ => rfl, fun _ => rfl, fun _ => rfl, fun _ _ => le_rfl, fun _ _ => rfl,
        by simp [LogQueue.new]⟩
  refine ⟨g, _, ⟨hcore, hlocal, fun i => ?_, fun i => ⟨[], ?_, ?_⟩, fun _ i => ?_⟩, fun i => ?_,
    hsettled, fun i peer hp => ?_, ?_, rfl, fun _ i => ?_, fun _ _ _ => rfl, by simp, rfl⟩
  · show (s.sync.localConnectStatus i).disconnected = false
    rw [hsync]
    rfl
  · simp [Session.waitingFrom, session, hnone, inputsOf]
  · rw [hg]
    rfl
  · rw [hg]
    exact ⟨rfl, by simp [LogQueue.new]⟩
  · rw [hg]
    simp [LogQueue.new]
  · rw [(hremote i peer hp).2]
    rfl
  · show _ = fun c => (s.sync.savedState.frames c).data
    rw [hsync]
    rfl
  · simp only [List.length_nil]
    omega

variable {g g' : Standpoint n I} {v v' : View I S}

/-- The client has executed what a call has told it. -/
theorem Inv.tell (h : Inv p t g v) {k : ℕ} {commands : List (Command I)} {s : Session n I S}
    (hturn : Turn p t.given t.session g v k (commands, s) g' v')
    (hplayers : ∀ i, (s.players i).unmeasured = (Session.drained (t.session.players i)).unmeasured)
    (hlater : t.session.Later k s) :
    ∃ h', Host.execute ⟨s, t.host.state⟩ commands = .ok h' ∧ Inv p (t.tell h' commands) g' v' := by
  have hexec := hturn.issues.runs.execAll hturn.undisturbed h.cells
  rw [← hturn.issues.frames, h.state] at hexec
  have hchannel : ∀ i peer, s.players i = .remote peer → ∃ peer', t.session.players i = .remote peer' ∧
      peer.events = { peer'.events with queue := [] } := by
    intro i peer hp
    have hi := hplayers i
    rw [hp] at hi
    cases hp' : t.session.players i with
    | localPlayer =>
      rw [hp'] at hi
      cases hi
    | remote peer' =>
      rw [hp'] at hi
      obtain ⟨stats, hpeer⟩ := @PlayerType.remote_of_unmeasured _ _ { peer' with
        events := { peer'.events with queue := [] } } hi
      obtain rfl := PlayerType.remote.inj hpeer
      exact ⟨peer', rfl, rfl⟩
  have hempty : ∀ i, Session.eventsOf (s.players i) = [] := by
    intro i
    cases hp : s.players i with
    | localPlayer => rfl
    | remote peer =>
      obtain ⟨peer', -, hevents⟩ := hchannel i peer hp
      simp [Session.eventsOf, PlayerType.peer?, hevents]
  refine ⟨_, by unfold Host.execute; rw [hexec]; rfl, ?_⟩
  refine ⟨?_, hturn.unmarked, hlater.settled.setFrames fun _ => rfl, fun i peer hp => ?_, rfl, rfl,
    fun hs i => ?_, fun hsync => ?_, fun inputs hmem => ?_, ?_⟩
  · have hwaiting : Session.waitingFrom (s.setFrames fun c =>
        ⟨(s.sync.savedState.frames c).frame, v'.cells c⟩) 0 = fun _ => [] := by
      funext i
      show (if (i : ℕ) < 0 then [] else inputsOf (Session.eventsOf (s.players i))) = []
      rw [hempty]
      rfl
    show Stage p t.given (Session.waitingFrom (s.setFrames _) 0) (s.setFrames _) g' v'
    rw [hwaiting]
    exact hturn.stage.setFrames fun _ => rfl
  · obtain ⟨peer', hp', hevents⟩ := hchannel i peer hp
    rw [hevents]
    exact h.opened i peer' hp'
  · have := h.ahead hs i
    have := hturn.cur
    show ((t.given i).length : ℤ) ≤ _
    omega
  · refine h.fresh ?_
    by_contra hrun
    have := hlater.running (by simpa using hrun)
    rw [show s.synchronizing = true from hsync] at this
    simp at this
  · have hcur := hturn.cur
    rw [show (t.tell _ commands).issued = t.issued ++ commands from rfl, advances_append,
      List.mem_append] at hmem
    rcases hmem with hmem | hmem
    · have := h.past inputs hmem
      omega
    · have hlowest := h.stage.core.lowest
      have hsteps := hturn.steps inputs hmem
      exact ⟨by omega, hsteps.1⟩
  · rw [hturn.issues.runs.used_eq, h.used,
      show (t.tell _ commands).issued = t.issued ++ commands from rfl, advances_append]
    exact (List.foldl_append ..).symm

theorem Inv.running (h : Inv p t g v) (hready : t.Ready p) : t.session.synchronizing = false := by
  obtain ⟨i, hi⟩ := p.someone
  by_contra hsync
  have hnone := h.fresh (by simpa using hsync) i hi
  have hlen := hready i hi
  rw [hnone, h.frameCount, List.length_nil] at hlen
  omega

theorem Onward.of_turn {g g' : Standpoint n I} {v v' : View I S} {k : ℕ} {s : Session n I S}
    {commands : List (Command I)} {host : Host n I S} (h : Inv p t g v)
    (hturn : Turn p t.given t.session g v k (commands, s) g' v')
    (hexec : Host.execute ⟨s, t.host.state⟩ commands = .ok host)
    (h' : Inv p (t.tell host commands) g' v') : t.Onward (t.tell host commands) := by
  have hcount := h.frameCount
  have hcount' := h'.frameCount
  have hcur := hturn.cur
  obtain ⟨⟨frames, state⟩, -, hhost⟩ := Fallible.bind_eq_ok.mp hexec
  obtain rfl := Except.ok.inj hhost
  refine ⟨hturn.monotone, by omega, commands, rfl, fun inputs hmem => ?_, ?_⟩
  · rw [hcount]
    exact (hturn.steps inputs hmem).2
  · rw [hcount']
    exact hturn.seeks

/-- Inputs of the remote players come in. -/
theorem Inv.receive (h : Inv p t g v) {events : Fin n → List (ProtocolEvent I)} {s : Session n I S}
    (xs : Fin n → List I) (hs : t.session.Interferes events s)
    (hopen : ∀ i peer, s.players i = .remote peer → peer.events.closed = false)
    (hinputs : ∀ i, inputsOf (events i) = framed (t.given i).length (xs i))
    (hahead : p.strict → ∀ i, (t.given i ++ xs i).length ≤ t.frameCount + maxPredictionFrames + 1) :
    Inv p { t with
      host := { t.host with session := s }
      given := fun i => t.given i ++ xs i } g v := by
  obtain ⟨hsync, hsynchronizing, hplayers⟩ := hs
  have hlater := Session.Interferes.later ⟨hsync, hsynchronizing, hplayers⟩ h.settled
  have hwaiting : ∀ i, s.waitingFrom 0 i = t.session.waitingFrom 0 i ++ inputsOf (events i) := by
    intro i
    have hshares := hplayers i
    simp only [Session.waitingFrom, Nat.not_lt_zero, if_false, Session.eventsOf]
    generalize t.session.players i = player at hshares
    generalize s.players i = player' at hshares
    generalize events i = sent at hshares
    cases hshares with
    | localPlayer => rfl
    | remote _ peer peer' acks _ _ _ hqueue _ =>
      simp [PlayerType.peer?, hqueue, inputsOf_append]
  refine ⟨⟨?_, fun i => ?_, fun i => ?_, fun i => ?_, fun hq => ?_⟩, h.unmarked, hlater.settled, hopen,
    ?_, h.state, fun hst i => ?_, fun hq i hi => ?_, h.past, h.used⟩
  · show Core p g s.sync v
    rw [hsync]
    exact h.stage.core
  · exact (hlater.kept i).isLocal.trans (h.stage.locals i)
  · show (s.sync.localConnectStatus i).disconnected = false
    rw [hsync]
    exact h.stage.connected i
  · obtain ⟨ys, hys, hall⟩ := h.stage.waiting i
    refine ⟨ys ++ xs i, ?_, ?_⟩
    swap
    · show t.given i ++ xs i = _
      rw [hall, List.append_assoc]
    show s.waitingFrom 0 i = _
    rw [hwaiting, hys, hinputs, framed_append, hall, List.length_append]
    push_cast
    rfl
  · exact h.stage.quiet (hsynchronizing.symm.trans hq)
  · show v.cells = fun c => (s.sync.savedState.frames c).data
    rw [hsync]
    exact h.cells
  · have := hahead hst i
    rw [h.frameCount] at this
    exact this
  · have hnone := h.fresh (hsynchronizing.symm.trans hq) i hi
    have hlocal := (h.stage.locals i).trans hi
    have hshares := hplayers i
    have hxs := hinputs i
    have hevents : events i = [] := by
      generalize t.session.players i = player at hshares hlocal
      generalize s.players i = player' at hshares
      generalize events i = sent at hshares
      cases hshares with
      | localPlayer => rfl
      | remote _ peer peer' _ _ _ _ _ _ => simp [PlayerType.isLocal, PlayerType.peer?] at hlocal
    rw [hevents] at hxs
    show t.given i ++ xs i = []
    rw [hnone, framed_eq_nil.mp hxs.symm]
    rfl

/-- What a call leaves the client with, when all that came in is stored. -/
theorem Inv.lockstep [LawfulBEq I] {g' : Standpoint n I} {v' : View I S} {k : ℕ} {s : Session n I S}
    {commands : List (Command I)} {host : Host n I S} (hstrict : p.strict)
    (hturn : Turn p t.given t.session g v k (commands, s) g' v')
    (h' : Inv p (t.tell host commands) g' v') :
    host.state = p.lockstep t.given host.session.sync.frameCount.toNat := by
  have hgiven : g'.given = t.given := funext fun i => by
    obtain ⟨xs, hxs, hall⟩ := hturn.stage.waiting i
    rw [hall, framed_eq_nil.mp hxs.symm, List.append_nil]
  have hcount : host.session.sync.frameCount = g'.cur := h'.frameCount
  have hstate : v'.state = host.state := h'.state
  rw [← hstate, h'.stage.core.lockstep hstrict h'.unmarked h'.stage.connected, hgiven, hcount,
    Int.toNat_natCast]

section Bounds

theorem Inv.own_span (h : Inv p t g v) {i : Fin n} (hi : p.locals i = true) :
    t.frameCount ≤ (t.given i).length ∧ (t.given i).length ≤ t.frameCount + 1 := by
  obtain ⟨-, -, -, hle, hge, -⟩ := (h.stage.core.standing i).home hi
  rw [h.locals_eq hi, h.frameCount]
  omega

theorem Inv.given_prefix (h : Inv p t g v) (i : Fin n) : g.given i <+: t.given i := by
  obtain ⟨xs, -, hall⟩ := h.stage.waiting i
  exact ⟨xs, hall.symm⟩

/-- A local player is no more than a prediction window ahead of what has come in of a remote one. -/
theorem Inv.own_ahead (h : Inv p t g v) {i j : Fin n} (hi : p.locals i = true)
    (hj : p.locals j = false) : (t.given i).length ≤ (t.given j).length - 1 + maxPredictionFrames := by
  obtain ⟨-, -, -, hle, hge, hlast⟩ := (h.stage.core.standing i).home hi
  have hspan := h.stage.core.span
  have hconfirmed := h.stage.core.confirmed
  have hstanding := h.stage.core.standing j
  have hahead := hstanding.ahead (h.stage.connected j) ⟨j, hj⟩
  have hlen := hstanding.last (h.stage.connected j)
  have hstart := (h.given_prefix j).length_le
  rw [h.locals_eq hi]
  omega

/-- The inputs for a confirmed frame are stored. -/
theorem Inv.confirmed_lt (h : Inv p t g v) {frame : ℕ} (hconfirmed : frame ≤ t.lastConfirmedFrame)
    (hlt : frame < t.frameCount) (i : Fin n) : frame < (g.given i).length := by
  rw [h.frameCount] at hlt
  cases hi : p.locals i with
  | true =>
    obtain ⟨-, -, -, hle, -⟩ := (h.stage.core.standing i).home hi
    omega
  | false =>
    have hstanding := h.stage.core.standing i
    have hahead : t.lastConfirmedFrame ≤ _ := hstanding.ahead (h.stage.connected i) ⟨i, hi⟩
    have hlen := hstanding.last (h.stage.connected i)
    omega

/-- The client was last told to simulate a frame with what is stored. -/
theorem Inv.lastAdvance_eq [LawfulBEq I] (h : Inv p t g v) (hstrict : p.strict) {frame : ℕ}
    (hlt : frame < t.frameCount) : lastAdvance t.issued frame = some (p.inputsAt g.given frame) := by
  rw [h.frameCount] at hlt
  have hused : v.used frame = p.inputsAt g.given frame :=
    h.stage.core.used_eq hstrict h.unmarked h.stage.connected (by omega)
  rw [h.used, recordAll_eq fun x hx => (h.past x hx).1] at hused
  unfold lastAdvance
  cases hlast : ((advances t.issued).filter fun inputs => inputs.frame = (frame : ℤ)).getLast? with
  | some inputs =>
    rw [hlast] at hused
    exact congrArg some hused
  | none =>
    rw [hlast] at hused
    have hframe := congrArg GameInput.frame hused
    simp [Setup.inputsAt, default, nullFrame] at hframe

theorem Inv.queue_length (h : Inv p t g v) (hstrict : p.strict) (i : Fin n) :
    (t.session.sync.inputQueues i).length ≤ maxRollbackFrames := by
  have htracks := h.stage.core.tracks i
  have hwindow := htracks.window hstrict
  rw [htracks.follows.length]
  omega

end Bounds

variable [Build]

theorem Inv.poll (h : Inv p t g v) : Ends t.session.poll (fun r => ∃ g' v' h',
    Turn p t.given t.session g v 0 r g' v' ∧ Host.execute ⟨r.2, t.host.state⟩ r.1 = .ok h' ∧
      Inv p (t.tell h' r.1) g' v') (t.session.PollFault p.strict t.frameCount) := by
  refine (((Session.doPoll_turn h.stage h.settled h.opened fun hs i => ?_).with
    (Session.doPoll_polled h.settled)).with (Session.doPoll_unmeasured h.settled h.opened)).imp
    fun r hr => ?_
  · have := h.ahead hs i
    omega
  · obtain ⟨⟨⟨g', v', hturn⟩, hpolled⟩, hplayers⟩ := hr
    obtain ⟨h', hexec, hinv⟩ := h.tell hturn hplayers hpolled.toLater
    exact ⟨g', v', h', hturn, hexec, hinv⟩

theorem Inv.advanceFrame (h : Inv p t g v) (hready : t.Ready p) :
    Ends t.session.advanceFrame (fun r => ∃ g' v' h',
      Turn p t.given t.session g v 1 r g' v' ∧ Host.execute ⟨r.2, t.host.state⟩ r.1 = .ok h' ∧
        Inv p (t.tell h' r.1) g' v') (t.session.PollFault p.strict (t.frameCount + 1)) := by
  have hrun := h.running hready
  refine (((Session.advanceFrame_turn h.stage h.settled h.unmarked hrun (fun i hi => ?_) h.opened
    fun hs i => ?_).with (Session.advanceFrame_polled h.settled)).with
    (Session.advanceFrame_unmeasured h.settled h.opened)).imp fun r hr => ?_
  · have hlen := hready i hi
    rw [h.locals_eq hi, h.frameCount] at hlen
    exact_mod_cast hlen
  · have := h.ahead hs i
    omega
  · obtain ⟨⟨⟨g', v', hturn⟩, hpolled⟩, hplayers⟩ := hr
    have hlater := hpolled.toLater
    rw [hrun, if_neg (by simp)] at hlater
    obtain ⟨h', hexec, hinv⟩ := h.tell hturn hplayers hlater
    exact ⟨g', v', h', hturn, hexec, hinv⟩

end Invariant

section Runs

variable [Build] [BEq I] [Client I S] [Varinteger] [Pod I]

/-- A local player gives its input; the client polls or, once all local players have given theirs,
moves on. In a strict setup a local player gives one input a frame. -/
inductive Move (p : Setup n S) (t : Play n I S) : Play n I S → Prop
  | give (i : Fin n) (input s) (honce : p.strict → (t.given i).length = t.frameCount)
    (h : t.session.addLocalInput i input = .ok (.ok (), s)) : Move p t { t with
      host := { t.host with session := s }
      given := record t.given i t.frameCount input }
  | refused (player input err s) (h : t.session.addLocalInput player input = .ok (.error err, s)) :
    Move p t { t with host := { t.host with session := s } }
  | poll (commands s h) (hpoll : t.session.poll = .ok (commands, s))
    (hexec : Host.execute ⟨s, t.host.state⟩ commands = .ok h) : Move p t (t.tell h commands)
  | advanceFrame (commands s h) (hready : t.Ready p)
    (hadvance : t.session.advanceFrame = .ok (commands, s))
    (hexec : Host.execute ⟨s, t.host.state⟩ commands = .ok h) : Move p t (t.tell h commands)

/-- More inputs of the remote players come in, each in its turn, and in a strict setup not too far
ahead. -/
inductive Step (p : Setup n S) (t : Play n I S) : Play n I S → Prop
  | receive (events s) (xs : Fin n → List I) (hs : t.session.Interferes events s)
    (hopen : ∀ i peer, s.players i = .remote peer → peer.events.closed = false)
    (hinputs : ∀ i, inputsOf (events i) = framed (t.given i).length (xs i))
    (hahead : p.strict → ∀ i, (t.given i ++ xs i).length ≤ t.frameCount + maxPredictionFrames + 1) :
    Step p t { t with
      host := { t.host with session := s }
      given := fun i => t.given i ++ xs i }
  | move (u) (h : Move p t u) : Step p t u

inductive Reachable (p : Setup n S) : Play n I S → Prop
  | start (t : Play n I S) (h : Starts p t) : Reachable p t
  | step (t t' : Play n I S) (ht : Reachable p t) (h : Step p t t') : Reachable p t'

variable {g : Standpoint n I} {v : View I S}

/-- A local player's input is accepted. -/
theorem Inv.give (h : Inv p t g v) {i : Fin n} {input : I} {s : Session n I S}
    (honce : p.strict → (t.given i).length = t.frameCount)
    (hgive : t.session.addLocalInput i input = .ok (.ok (), s)) : ∃ g',
    Inv p { t with
      host := { t.host with session := s }
      given := record t.given i t.frameCount input } g' v ∧ g'.cur = g.cur ∧
    s.sync.lastConfirmedFrame = t.session.sync.lastConfirmedFrame := by
  have hcount := h.frameCount
  obtain ⟨j, hj, haccepted⟩ := (Session.addLocalInput_accepted h.settled
    (show 0 ≤ t.frameCount by omega) i input).ok hgive
  obtain rfl : j = i := Fin.ext hj
  have hi : p.locals j = true := (h.stage.locals j).symm.trans haccepted.home
  have hstage := (@Session.addLocalInput_stage _ _ _ _ _ _ _ _ _ _ _ _ _ _ _ h.stage h.unmarked j input
    (h.waiting_nil hi) fun hs => by
      have := honce hs
      omega).ok hgive
  obtain ⟨⟨g', hstage, hbeside, hunmarked⟩, hsaved, hconfirmed, hchannels⟩ := hstage
  have hcur := hbeside.cur
  have hwaiting : s.waitingFrom 0 = t.session.waitingFrom 0 := by
    funext k
    have hk := hchannels k
    simp only [Session.waitingFrom, Nat.not_lt_zero, if_false, Session.eventsOf]
    cases hp : s.players k <;> cases hp' : t.session.players k <;>
      simp_all [channelOf, PlayerType.peer?]
  refine ⟨g', ⟨?_, hunmarked, haccepted.settled, fun k peer hp => ?_, ?_, h.state, fun hs k => ?_,
    fun hq => ?_, fun inputs hmem => ?_, h.used⟩, hcur, hconfirmed⟩
  · show Stage p (record t.given j t.frameCount input) (s.waitingFrom 0) s g' v
    rw [hwaiting, hcount]
    exact hstage
  · have hk := hchannels k
    rw [show s.players k = .remote peer from hp] at hk
    cases hp' : t.session.players k with
    | localPlayer => simp [hp', channelOf, PlayerType.peer?] at hk
    | remote peer' =>
      rw [hp'] at hk
      rw [Option.some.inj hk]
      exact h.opened k peer' hp'
  · show v.cells = fun c => (s.sync.savedState.frames c).data
    rw [hsaved]
    exact h.cells
  · have hahead := h.ahead hs k
    have hlen := honce hs
    rw [hcount] at hlen
    rw [hcur]
    show ((record t.given j t.frameCount input k).length : ℤ) ≤ _
    unfold record
    split
    · by_cases hk : k = j
      · subst hk
        rw [Function.update_self, List.length_append, List.length_singleton]
        omega
      · rw [Function.update_of_ne hk]
        exact hahead
    · exact hahead
  · have hrun := haccepted.running haccepted.ready
    rw [show s.synchronizing = true from hq] at hrun
    simp at hrun
  · rw [hcur]
    exact h.past inputs hmem

theorem Move.inv (hmove : Move p t t') (h : Inv p t g v) : (∃ g' v', Inv p t' g' v') ∧ t.Onward t' := by
  cases hmove with
  | give i input s honce hgive =>
    obtain ⟨g', h', hcur, hconfirmed⟩ := h.give honce hgive
    refine ⟨⟨g', v, h'⟩, .of_silent hconfirmed ?_ rfl⟩
    rw [h'.frameCount, h.frameCount, hcur]
  | refused player input err s hrefused =>
    have hcount := h.frameCount
    obtain rfl := (Session.addLocalInput_accepted h.settled (show 0 ≤ t.frameCount by omega)
      player input).ok hrefused
    exact ⟨⟨g, v, h⟩, .of_silent rfl rfl rfl⟩
  | poll commands s host hpoll hexec =>
    obtain ⟨g', v', host', hturn, hexec', h'⟩ := h.poll.ok hpoll
    obtain rfl := Except.ok.inj (hexec.symm.trans hexec')
    exact ⟨⟨g', v', h'⟩, .of_turn h hturn hexec h'⟩
  | advanceFrame commands s host hready hadvance hexec =>
    obtain ⟨g', v', host', hturn, hexec', h'⟩ := (h.advanceFrame hready).ok hadvance
    obtain rfl := Except.ok.inj (hexec.symm.trans hexec')
    exact ⟨⟨g', v', h'⟩, .of_turn h hturn hexec h'⟩

theorem Step.inv (hstep : Step p t t') (h : Inv p t g v) : (∃ g' v', Inv p t' g' v') ∧ t.Onward t' := by
  cases hstep with
  | receive events s xs hs hopen hinputs hahead =>
    refine ⟨⟨g, v, h.receive xs hs hopen hinputs hahead⟩, .of_silent ?_ ?_ rfl⟩
    · exact congrArg Sync.lastConfirmedFrame hs.sync
    · exact congrArg Sync.frameCount hs.sync
  | move _ hmove => exact hmove.inv h

theorem reachable_inv (ht : Reachable p t) : ∃ g v, Inv p t g v := by
  induction ht with
  | start t h => exact inv_start h
  | step t t' _ h ih =>
    obtain ⟨g, v, hinv⟩ := ih
    exact (h.inv hinv).1

/-- From any state on, what is emitted is neither confirmed there nor a frame of its past. -/
theorem Inv.later (h : Inv p t g v) (hrun : ReflTransGen (Step p) t t') :
    (∃ g' v', Inv p t' g' v') ∧ t.lastConfirmedFrame ≤ t'.lastConfirmedFrame ∧
      t.frameCount ≤ t'.frameCount ∧ ∃ commands, t'.issued = t.issued ++ commands ∧
        ∀ inputs ∈ advances commands,
          t.lastConfirmedFrame < inputs.frame ∨ t.frameCount ≤ inputs.frame := by
  induction hrun with
  | refl => exact ⟨⟨g, v, h⟩, le_rfl, le_rfl, [], by simp, by simp⟩
  | tail _ hstep ih =>
    obtain ⟨⟨g₁, v₁, h₁⟩, hconfirmed₁, hcount₁, commands₁, hissued₁, hnew₁⟩ := ih
    obtain ⟨hinv, hconfirmed, hcount, commands, hissued, hnew, -⟩ := hstep.inv h₁
    refine ⟨hinv, hconfirmed₁.trans hconfirmed, hcount₁.trans hcount, commands₁ ++ commands,
      by rw [hissued, hissued₁, List.append_assoc], fun inputs hmem => ?_⟩
    rw [advances_append, List.mem_append] at hmem
    rcases hmem with hmem | hmem
    · exact hnew₁ inputs hmem
    · rcases hnew inputs hmem with hlt | hle
      · exact .inl (hconfirmed₁.trans_lt hlt)
      · exact .inr (hcount₁.trans hle)

/-- Confirmed frames are final, and rollbacks are bounded. -/
structure Final (p : Setup n S) (t : Play n I S) : Prop where
  unconfirmed : ∀ i, isNull (t.session.sync.inputQueues i).firstIncorrectFrame ∨
    t.lastConfirmedFrame < (t.session.sync.inputQueues i).firstIncorrectFrame
  barrier : t.frameCount ≤ max (maxPredictionFrames : ℤ) (t.lastConfirmedFrame + maxPredictionFrames)
  later : ∀ t', ReflTransGen (Step p) t t' → t.lastConfirmedFrame ≤ t'.lastConfirmedFrame ∧
    ∃ commands, t'.issued = t.issued ++ commands ∧ ∀ inputs ∈ advances commands,
      ∀ done ∈ advances t.issued, done.frame ≤ t.lastConfirmedFrame → inputs.frame ≠ done.frame
  rollbacks : ∀ t', Step p t t' → ∃ commands, t'.issued = t.issued ++ commands ∧
    Seeks (fun frame => t'.frameCount - maxPredictionFrames ≤ frame ∧ frame ≤ t'.frameCount - 1) commands

theorem reachable_final (ht : Reachable p t) : t.Final p := by
  obtain ⟨g, v, h⟩ := reachable_inv ht
  have hcount := h.frameCount
  have hspan := h.stage.core.span
  have hconfirmed : t.lastConfirmedFrame.toNat = g.floor := h.stage.core.confirmed
  refine ⟨fun i => ?_, by omega, fun t' hrun => ?_, fun t' hstep => ?_⟩
  · rw [(h.stage.core.tracks i).follows.incorrect]
    by_cases hnull : isNull (g.queues i).incorrect
    · exact .inl hnull
    · exact .inr ((h.stage.core.standing i).beyond hnull)
  · obtain ⟨-, hmono, -, commands, hissued, hnew⟩ := h.later hrun
    refine ⟨hmono, commands, hissued, fun inputs hmem done hdone hle heq => ?_⟩
    have hpast := h.past done hdone
    rcases hnew inputs hmem with hlt | hge
    · omega
    · omega
  · obtain ⟨-, -, -, commands, hissued, -, hseeks⟩ := hstep.inv h
    exact ⟨commands, hissued, hseeks.mono fun frame hframe => by omega⟩

theorem Inv.call_poll (h : Inv p t g v) : Ends (t.host.call .poll) (fun host => ∃ g' v' k r,
    Turn p t.given t.session g v k r g' v' ∧ Inv p (t.tell host r.1) g' v')
      (t.session.PollFault p.strict t.frameCount) := by
  unfold Host.call
  rw [show t.host.session.make .poll = t.host.session.poll by rw [Session.make]]
  refine h.poll.bind fun r hr => ?_
  obtain ⟨g', v', host, hturn, hexec, h'⟩ := hr
  exact .of_ok hexec ⟨g', v', 0, r, hturn, h'⟩

theorem Inv.call_advanceFrame (h : Inv p t g v) (hready : t.Ready p) :
    Ends (t.host.call .advanceFrame) (fun host => ∃ g' v' k r,
      Turn p t.given t.session g v k r g' v' ∧ Inv p (t.tell host r.1) g' v')
      (t.session.PollFault p.strict (t.frameCount + 1)) := by
  unfold Host.call
  rw [show t.host.session.make .advanceFrame = t.host.session.advanceFrame by rw [Session.make]]
  refine (h.advanceFrame hready).bind fun r hr => ?_
  obtain ⟨g', v', host, hturn, hexec, h'⟩ := hr
  exact .of_ok hexec ⟨g', v', 1, r, hturn, h'⟩

/-- The input of a local player is taken, or refused, as long as it can be sent. -/
theorem Inv.addLocalInput_ends (h : Inv p t g v) (hstrict : p.strict) {i : Fin n}
    (hi : p.locals i = true) (honce : (t.given i).length = t.frameCount) (input : I)
    (hsend : ∀ j peer, t.session.players j = .remote peer → ∀ statuses,
      Ends (peer.sendInput statuses ⟨t.frameCount, input⟩) (fun _ => True) fun _ => False) :
    Ends (t.session.addLocalInput i input) (fun _ => True) fun _ => False := by
  have hcount := h.frameCount
  have hlocal := (h.stage.locals i).trans hi
  unfold Session.addLocalInput
  rw [if_neg (by simp [h.settled.idle])]
  split
  · exact trivial
  · rw [show t.session.playerHandleToQueue i = .ok i by simp [Session.playerHandleToQueue]]
    dsimp only
    rw [if_neg (by simp [hlocal])]
    unfold Sync.addLocalInput
    dsimp only
    rw [show t.session.sync.frameCount = g.cur from hcount]
    split
    · exact trivial
    · next hbarrier =>
      rw [bind_assoc]
      refine ((Session.addInput_ends h.stage h.unmarked hi (h.waiting_nil hi)
        (fun _ => by omega) hbarrier input).mono (fun _ hr => hr) fun e he => he.1 hstrict).bind
          fun r _ => ?_
      simp only [Fallible.pure_eq_ok, Fallible.ok_bind]
      rw [if_pos (by simp [isNull])]
      refine (Session.sendInput_ends fun j peer hp statuses => ?_).bind fun s _ => trivial
      rw [← hcount]
      exact hsend j peer hp statuses

/-- In a strict setup the calls do not panic as long as what was measured of the peers is moderate,
the client can execute what they return, and it is in lockstep with the inputs that have come in. -/
theorem reachable_lockstep [LawfulBEq I] (ht : Reachable p t) (hstrict : p.strict)
    (hmoderate : t.session.Moderate) :
    Ends (t.host.call .poll) (fun host =>
      host.state = p.lockstep t.given host.session.sync.frameCount.toNat) (fun _ => False) ∧
    (t.Ready p → Ends (t.host.call .advanceFrame) (fun host =>
      host.state = p.lockstep t.given host.session.sync.frameCount.toNat) fun _ => False) := by
  obtain ⟨g, v, h⟩ := reachable_inv ht
  have hcur : t.session.sync.frameCount = g.cur := h.frameCount
  have hcount : 0 ≤ t.session.sync.frameCount := by omega
  refine ⟨h.call_poll.mono (fun host hr => ?_) fun e he => ?_, fun hready =>
    (h.call_advanceFrame hready).mono (fun host hr => ?_) fun e he => ?_⟩
  · obtain ⟨g', v', k, r, hturn, h'⟩ := hr
    exact Inv.lockstep hstrict hturn h'
  · exact (hmoderate.measuredAt hcount (by omega)).not_pollFault hstrict he
  · obtain ⟨g', v', k, r, hturn, h'⟩ := hr
    exact Inv.lockstep hstrict hturn h'
  · exact (hmoderate.measuredAt (by omega) le_rfl).not_pollFault hstrict he

end Runs

/-- The setup of a pair in which each input stands for its own frame. -/
def pairSetup : Setup 2 ℕ where
  strict := True
  delay := 0
  locals i := decide (i.val = 0)
  init := 0
  someone := ⟨0, rfl⟩
  fits _ := ⟨by decide, by decide⟩

/-- The pair once the first input of the remote player has come. -/
def connected : Play 2 UInt8 ℕ := ⟨connectedPair, fun i => if i.val = 0 then [] else [5], []⟩

theorem connected_reachable [Build] [Varinteger] :
    letI := countingClient
    Reachable pairSetup connected := by
  let client := countingClient
  refine .step _ _ (.start _ (.new _ _ _ connectedPair_new fun i => ?_)) ?_
  · match i with
    | 0 => simp [pairSetup]
    | 1 => simp [pairSetup]
  · refine .receive _ _ connected.given connectedPair_interferes (fun i peer hp => ?_) (fun i => ?_)
      fun _ i => ?_
    · match i with
      | 0 => exact nomatch hp
      | 1 =>
        obtain rfl := PlayerType.remote.inj hp
        rfl
    · match i with
      | 0 => rfl
      | 1 => rfl
    · match i with
      | 0 => decide
      | 1 => decide

theorem pairSetup_locals {i : Fin 2} (hi : pairSetup.locals i = true) : i = 0 :=
  Fin.ext (of_decide_eq_true hi)

section Example

attribute [local instance] debugBuild Varinteger.leb128 countingClient

theorem updated_le {a : ℤ} (h : |a| ≤ 2 ^ 25) (k : Fin frameWindowSize) :
    |Function.update (fun _ : Fin frameWindowSize => (0 : ℤ)) 0 a k| ≤ 2 ^ 25 := by
  by_cases hk : k = 0
  · rwa [hk, Function.update_self]
  · rw [Function.update_of_ne hk]
    norm_num

/-- The local player has given its first input, too, and nothing was measured but that no input had
come when the pair met. -/
theorem given_pair : ∃ t : Play 2 UInt8 ℕ, Reachable pairSetup t ∧ t.given 0 = [3] ∧ t.given 1 = [5] ∧
    t.frameCount = 0 ∧ t.session.players 0 = .localPlayer ∧ ∃ peer, t.session.players 1 = .remote peer ∧
      peer.timesync.localAdvantage = Function.update (fun _ => 0) 0 (-1) ∧
      peer.timesync.remoteAdvantage = Function.update (fun _ => 0) 0 0 ∧
      peer.stats.roundTripTime = 0 ∧ peer.inputDecoder.lastDecoded = -1 := by
  have hpoll : Reachable pairSetup _ := .step _ _ connected_reachable (.move _ (.poll _ _ _ rfl rfl))
  have hgive : Reachable pairSetup _ := .step _ _ hpoll (.move _ (.give 0 3 _ (fun _ => rfl) rfl))
  exact ⟨_, hgive, rfl, rfl, rfl, rfl, _, rfl, rfl, rfl, rfl, rfl⟩

theorem reachable_lockstep_pair : ∃ t : Play 2 UInt8 ℕ, t.given 0 = [3] ∧ t.given 1 = [5] ∧
    t.Ready pairSetup ∧ Ends (t.host.call .advanceFrame) (fun host =>
      host.state = pairSetup.lockstep t.given host.session.sync.frameCount.toNat) fun _ => False := by
  obtain ⟨t, ht, h0, h1, hcount, hlocal, peer, hremote, hown, hother, htrip, hdecoded⟩ := given_pair
  have hready : t.Ready pairSetup := fun i hi => by
    obtain rfl := pairSetup_locals hi
    rw [h0, hcount]
    rfl
  have hpeer : peer.Moderate := by
    refine ⟨fun k => ?_, fun k => ?_, by omega, by rw [hdecoded]; decide⟩
    · rw [hown]
      exact updated_le (by decide) k
    · rw [hother]
      exact updated_le (by decide) k
  refine ⟨t, h0, h1, hready, (reachable_lockstep ht trivial fun _ => ⟨?_, fun i peer' hp => ?_⟩).2 hready⟩
  · rw [show t.session.sync.frameCount = 0 from hcount]
    norm_num
  · match i with
    | 0 => exact nomatch hlocal.symm.trans hp
    | 1 =>
      obtain rfl := PlayerType.remote.inj (hremote.symm.trans hp)
      exact hpeer

/-- The first frame of the pair is simulated. -/
theorem reachable_final_pair : ∃ t : Play 2 UInt8 ℕ, t.frameCount = 1 ∧ t.host.state = 1 ∧
    t.Final pairSetup := by
  have hpoll : Reachable pairSetup _ := .step _ _ connected_reachable (.move _ (.poll _ _ _ rfl rfl))
  have hgive : Reachable pairSetup _ := .step _ _ hpoll (.move _ (.give 0 3 _ (fun _ => rfl) rfl))
  have hadvance : Reachable pairSetup _ := .step _ _ hgive (.move _ (.advanceFrame _ _ _ (fun i hi => by
    rw [pairSetup_locals hi]
    rfl) rfl rfl))
  exact ⟨_, rfl, rfl, reachable_final hadvance⟩

end Example

end Play

end Backroll

import Backroll.Session.Play
import Backroll.Session.Tasks

/-! A game of several players, each with a session, a client and the tasks of its peers, over a
network that may lose, duplicate, delay and reorder what they send to each other. -/
namespace Backroll

open Fallible (Ends)
open ReliableStream (Sends Receives)

variable {n : ℕ} {I S : Type}

/-- What the players have agreed on. -/
structure Rules (n : ℕ) (S : Type) where
  delay : ℕ
  init : S
  delay_le : delay ≤ 100
  players_le : n ≤ maxPlayers

/-- The setup of a player's own session, in which nobody else is local. -/
def Rules.setup (r : Rules n S) (i : Fin n) : Setup n S where
  strict := True
  delay := r.delay
  locals j := decide (j = i)
  init := r.init
  someone := ⟨i, by simp⟩
  fits _ := ⟨r.players_le, r.delay_le⟩

/-- The session's side of a peer that its tasks have left like this. -/
def Session.share (s : Session n I S) (j : Fin n) (peer : Peer I) : Session n I S :=
  { s with players := Function.update s.players j ((s.players j).mapPeer fun own =>
      { peer with peerConnectStatus := own.peerConnectStatus }) }

/-- The tasks' side of a peer that the session has left like this. -/
def Endpoint.share (e : Endpoint I) (player : PlayerType I) : Endpoint I :=
  match player.peer? with
  | none => e
  | some peer => { e with peer := { peer with peerConnectStatus := e.peer.peerConnectStatus } }

/-- The tasks of a remote player's peer have taken it from one state to another. -/
def Play.hear (t : Play n I S) (j : Fin n) (p p' : Peer I) : Play n I S where
  host := { t.host with session := t.session.share j p' }
  given := Function.update t.given j (t.given j ++
    (inputsOf (p'.events.queue.drop p.events.queue.length)).map (·.input))
  issued := t.issued

theorem PlayerType.Shares.refl (player : PlayerType I) : player.Shares [] player := by
  cases player with
  | localPlayer => exact .localPlayer
  | remote peer => exact .remote [] peer peer [] rfl (.refl _) rfl (by simp) fun hclosed => ⟨rfl, hclosed⟩

section Hearing

variable [Build] [BEq I] [Client I S] [Varinteger] [Pod I]

/-- A session hears what the tasks of a peer report. -/
theorem Play.Inv.hear {s : Setup n S} {t : Play n I S} {g : Standpoint n I} {v : View I S}
    (h : Play.Inv s t g v) {j : Fin n} {p p' : Peer I} {out inc out' inc' : ReliableStream.State I}
    (hworks : p.Works out inc out' inc' p') (hleads : p.state.Leads p'.state)
    {statuses : List ConnectionStatus}
    (hp : t.session.players j = .remote { p with peerConnectStatus := statuses })
    (hreceived : t.given j = inc.delivered)
    (hahead : ((inc'.delivered.length : ℕ) : ℤ) ≤ t.frameCount + maxPredictionFrames + 1)
    (hgiven : ∀ k, ((t.given k).length : ℤ) ≤ t.frameCount + maxPredictionFrames + 1) :
    Play.Inv s (t.hear j p p') g v ∧ (t.hear j p p').given j = inc'.delivered := by
  obtain ⟨news, xs, hnews, hinputs, hdelivered⟩ := hworks.reported
  obtain ⟨acks, hpending⟩ := hworks.pending
  have hsince : (inputsOf (p'.events.queue.drop p.events.queue.length)).map (·.input) = xs := by
    rw [hnews, List.drop_left, hinputs, map_input_framed]
  have hxs : (t.hear j p p').given = fun k => t.given k ++ Function.update (fun _ => []) j xs k := by
    funext k
    unfold Play.hear
    dsimp only
    rw [hsince]
    by_cases hk : k = j
    · subst hk
      simp
    · simp [hk]
  have hshares : t.session.Interferes (Function.update (fun _ => []) j news) (t.session.share j p') := by
    refine ⟨rfl, rfl, fun k => ?_⟩
    unfold Session.share
    dsimp only
    by_cases hk : k = j
    · subst hk
      rw [Function.update_self, Function.update_self, hp]
      have hopen := h.opened k _ hp
      exact .remote news _ _ acks rfl hleads hpending hnews fun hclosed =>
        absurd (hopen.symm.trans hclosed) (by simp)
    · rw [Function.update_of_ne hk, Function.update_of_ne hk]
      exact .refl _
  have hreports : ∀ k, inputsOf (Function.update (fun _ => []) j news k : List (ProtocolEvent I)) =
      framed (t.given k).length (Function.update (fun _ => []) j xs k) := by
    intro k
    by_cases hk : k = j
    · subst hk
      rw [Function.update_self, Function.update_self, hinputs, hreceived]
    · rw [Function.update_of_ne hk, Function.update_of_ne hk]
      rfl
  have hreceive := h.receive _ hshares (fun k peer hpeer => ?_) hreports fun _ k => ?_
  · rw [← hxs] at hreceive
    refine ⟨hreceive, ?_⟩
    rw [hxs]
    dsimp only
    rw [Function.update_self, hreceived, hdelivered]
  · unfold Session.share at hpeer
    dsimp only at hpeer
    by_cases hk : k = j
    · subst hk
      rw [Function.update_self, hp] at hpeer
      obtain rfl := PlayerType.remote.inj hpeer
      exact hworks.serves.eventsOpen
    · rw [Function.update_of_ne hk] at hpeer
      exact h.opened k peer hpeer
  · by_cases hk : k = j
    · subst hk
      rw [Function.update_self, hreceived, ← hdelivered]
      exact hahead
    · rw [Function.update_of_ne hk, List.append_nil]
      exact hgiven k

end Hearing

namespace Session

section Sending

variable [Build] [Varinteger] [Pod I]

/-- An input is sent to every peer. -/
theorem sendInput_peers (s : Session n I S) (input : FrameInput I) :
    Ends (s.sendInput input) (fun s' => ∀ i peer, s.players i = .remote peer → ∃ statuses result peer',
      peer.sendInput statuses input = .ok (result, peer') ∧ s'.players i = .remote peer')
      fun _ => True := by
  unfold sendInput
  refine (Fallible.forEach_ends (fun k (s' : Session n I S) =>
    (∀ i : Fin n, i < k → ∀ peer, s.players i = .remote peer → ∃ statuses result peer',
      peer.sendInput statuses input = .ok (result, peer') ∧ s'.players i = .remote peer') ∧
    ∀ i : Fin n, k ≤ i → s'.players i = s.players i)
    ⟨fun i hi => absurd hi (Nat.not_lt_zero _), fun _ _ => rfl⟩ fun i s' hs' => ?_).imp
      fun s' hs' i => hs'.1 i i.isLt
  obtain ⟨hdone, htodo⟩ := hs'
  have hi := htodo i le_rfl
  cases hp : s.players i with
  | localPlayer =>
    rw [hi, hp]
    refine ⟨fun j hj peer hpeer => ?_, fun j hj => htodo j (by omega)⟩
    rcases Nat.lt_succ_iff_lt_or_eq.mp hj with hlt | heq
    · exact hdone j hlt peer hpeer
    · obtain rfl : j = i := Fin.ext heq
      rw [hp] at hpeer
      cases hpeer
  | remote peer =>
    rw [hi, hp]
    refine Ends.bind (Ends.of_forall fun r hr => hr) fun r hr => ⟨fun j hj peer' hpeer => ?_,
      fun j hj => ?_⟩
    · rcases Nat.lt_succ_iff_lt_or_eq.mp hj with hlt | heq
      · have hne : j ≠ i := fun h => absurd hlt (by rw [h]; exact lt_irrefl _)
        obtain ⟨statuses, result, peer'', hsend, hplayer⟩ := hdone j hlt peer' hpeer
        exact ⟨statuses, result, peer'', hsend, (Function.update_of_ne hne _ _).trans hplayer⟩
      · obtain rfl : j = i := Fin.ext heq
        obtain rfl := PlayerType.remote.inj (hp.symm.trans hpeer)
        exact ⟨_, _, _, hr, Function.update_self _ _ _⟩
    · have hne : j ≠ i := fun h => absurd hj (by rw [h]; omega)
      exact (Function.update_of_ne hne _ _).trans (htodo j (by omega))

variable [BEq I]

/-- An accepted input is sent to every peer. -/
theorem addLocalInput_peers {s s' : Session n I S} {i : Fin n} {input : I}
    (hcount : 0 ≤ s.sync.frameCount) (h : s.addLocalInput i input = .ok (.ok (), s')) :
    ∀ j peer, s.players j = .remote peer → ∃ statuses result peer',
      peer.sendInput statuses ⟨s.sync.frameCount, input⟩ = .ok (result, peer') ∧
        s'.players j = .remote peer' := by
  unfold addLocalInput at h
  split at h
  · simp at h
  · split at h
    · simp at h
    · unfold playerHandleToQueue at h
      rw [dif_pos i.isLt] at h
      dsimp only at h
      split at h
      · simp at h
      · obtain ⟨⟨result, sync⟩, hsync, h⟩ := Fallible.bind_eq_ok.mp h
        unfold Sync.addLocalInput at hsync
        dsimp only at hsync
        split at hsync
        · obtain ⟨rfl, -⟩ := Prod.mk.inj (Except.ok.inj hsync)
          simp at h
        · obtain ⟨⟨slot, q⟩, -, hsync⟩ := Fallible.bind_eq_ok.mp hsync
          obtain ⟨rfl, rfl⟩ := Prod.mk.inj (Except.ok.inj hsync)
          dsimp only at h
          rw [if_pos (by simpa [isNull] using hcount)] at h
          obtain ⟨s₁, hsend, h⟩ := Fallible.bind_eq_ok.mp h
          obtain ⟨-, rfl⟩ := Prod.mk.inj (Except.ok.inj h)
          have hpeers := (sendInput_peers _ _).ok hsend
          exact hpeers

end Sending

end Session

/-- For each player its session, and for each two of them the tasks of the one for the other, and
all messages that these have sent. -/
structure Mesh (n : ℕ) (I S : Type) where
  play : Fin n → Play n I S
  tasks : Fin n → Fin n → Endpoint I
  packets : Fin n → Fin n → List Message

/-- No input has been sent or received. -/
structure Peer.Fresh (p : Peer I) : Prop where
  encoder : p.inputEncoder.pending = []
  decoder : p.inputDecoder.lastDecoded = nullFrame
  said : ∀ data ∈ p.messageOut.queue, data.isIdle = true
  heard : ∀ message ∈ p.messageIn.queue, message.data.isIdle = true
  reported : inputsOf p.events.queue = []
  eventsOpen : p.events.closed = false
  outOpen : p.messageOut.closed = false
  inOpen : p.messageIn.closed = false

theorem Peer.Fresh.serves [Build] [Varinteger] [Pod I] {p : Peer I} (h : p.Fresh) :
    p.Serves {} {} where
  encoder := h.encoder
  decoder := h.decoder
  said data hdata := vouched_of_idle (h.said data hdata)
  heard message hm := vouched_of_idle (h.heard message hm)
  eventsOpen := h.eventsOpen
  outOpen := h.outOpen
  inOpen := h.inOpen
  near := Nat.zero_le _

namespace Mesh

/-- The inputs that the players have given, each to its own session. -/
def truth (m : Mesh n I S) : Fin n → List I := fun i => (m.play i).given i

/-- A frame that a player has simulated and that its session has confirmed. -/
def Confirmed (m : Mesh n I S) (i : Fin n) (frame : ℕ) : Prop :=
  (frame : ℤ) ≤ (m.play i).lastConfirmedFrame ∧ (frame : ℤ) < (m.play i).frameCount

/-- The client of a player has made a call. -/
def moved (m : Mesh n I S) (i : Fin n) (t : Play n I S) : Mesh n I S :=
  { m with
    play := Function.update m.play i t
    tasks := Function.update m.tasks i fun j => (m.tasks i j).share (t.session.players j) }

/-- The tasks of player `i` for player `j` have done something. -/
def stirred (m : Mesh n I S) (i j : Fin n) (e : Endpoint I) : Mesh n I S :=
  { m with
    play := Function.update m.play i ((m.play i).hear j (m.tasks i j).peer e.peer)
    tasks := Function.update m.tasks i (Function.update (m.tasks i) j e) }

section Runs

variable [Build] [BEq I] [Client I S] [Varinteger] [Pod I]

/-- The sessions are new, and the handshake may have come as far as it likes. -/
structure Starts (r : Rules n S) (m : Mesh n I S) : Prop where
  play : ∀ i, ∃ t, Play.Starts (r.setup i) t ∧ m.play i = { t with host := { t.host with
    session := { t.session with players := fun j => (t.session.players j).mapPeer fun own =>
      { (m.tasks i j).peer with peerConnectStatus := own.peerConnectStatus } } } }
  fresh : ∀ i j, i ≠ j → (m.tasks i j).peer.Fresh
  lives : ∀ i j, i ≠ j → (m.tasks i j).Lives
  packets : ∀ i j, ∀ message ∈ m.packets i j, message.data.isIdle = true

/-- A client makes a call, or some task of a peer takes its turn, without that the connection ends. -/
inductive Step (r : Rules n S) (m : Mesh n I S) : Mesh n I S → Prop
  | move (i : Fin n) (t) (h : (m.play i).Move (r.setup i) t) : Step r m (m.moved i t)
  | serializeOutgoing (i j : Fin n) (hij : i ≠ j) (now : ℕ) (message e)
    (h : (m.tasks i j).serializeOutgoing now = some (message, e)) : Step r m { m.stirred i j e with
      packets := Function.update m.packets i
        (Function.update (m.packets i) j (message :: m.packets i j)) }
  | deserializeIncoming (i j : Fin n) (hij : i ≠ j) (message) (h : message ∈ m.packets j i) :
    Step r m (m.stirred i j ((m.tasks i j).deserializeIncoming message))
  | handle (i j : Fin n) (hij : i ≠ j) (now : ℕ) (e) (h : (m.tasks i j).handle now = .ok e)
    (hlives : e.Lives) : Step r m (m.stirred i j e)
  | tick (i j : Fin n) (hij : i ≠ j) (now : ℕ) (e) (h : (m.tasks i j).tick now = .ok e)
    (hlives : e.Lives) : Step r m (m.stirred i j e)
  | heartbeat (i j : Fin n) (hij : i ≠ j) :
    Step r m (m.stirred i j { m.tasks i j with peer := (m.tasks i j).peer.heartbeat.2 })
  | sendQualityReports (i j : Fin n) (hij : i ≠ j) (now : ℕ) :
    Step r m (m.stirred i j { m.tasks i j with peer := ((m.tasks i j).peer.sendQualityReports now).2 })
  | resendInputs (i j : Fin n) (hij : i ≠ j) (now : ℕ) (result p)
    (h : (m.tasks i j).peer.resendInputs now (m.play i).session.statuses = .ok (result, p)) :
    Step r m (m.stirred i j { m.tasks i j with peer := p })

inductive Reachable (r : Rules n S) : Mesh n I S → Prop
  | start (m) (h : Starts r m) : Reachable r m
  | step (m m') (hm : Reachable r m) (h : Step r m m') : Reachable r m'

/-- Each two players implement a stream in each direction; `a i j` is that from `i` to `j`. -/
structure Inv (r : Rules n S) (m : Mesh n I S) (a : Fin n → Fin n → ReliableStream.State I) :
    Prop where
  play : ∀ i, ∃ g v, Play.Inv (r.setup i) (m.play i) g v
  joined : ∀ i j, i ≠ j → (m.play i).session.players j =
    .remote { (m.tasks i j).peer with peerConnectStatus := List.replicate n {} }
  reachable : ∀ i j, i ≠ j → ReliableStream.Reachable (a i j)
  sent : ∀ i j, i ≠ j → (a i j).log = (m.play i).given i
  received : ∀ i j, i ≠ j → (m.play i).given j = (a j i).delivered
  serves : ∀ i j, i ≠ j → (m.tasks i j).peer.Serves (a i j) (a j i)
  lives : ∀ i j, i ≠ j → (m.tasks i j).Lives
  packets : ∀ i j, i ≠ j → ∀ message ∈ m.packets i j, Vouched (a i j) (a j i) message.data

/-- The streams from and to one player are these. -/
def rerouted (a : Fin n → Fin n → ReliableStream.State I) (i : Fin n)
    (out inc : Fin n → ReliableStream.State I) : Fin n → Fin n → ReliableStream.State I :=
  fun x y => if x = i then out y else if y = i then inc x else a x y

variable {r : Rules n S} {m m' : Mesh n I S} {a : Fin n → Fin n → ReliableStream.State I}

/-- One player has done something. -/
theorem Inv.update (h : Inv r m a) (i : Fin n) (t : Play n I S) (row : Fin n → Endpoint I)
    (out inc : Fin n → ReliableStream.State I)
    (hplay : ∃ g v, Play.Inv (r.setup i) t g v)
    (hjoined : ∀ j, i ≠ j → t.session.players j =
      .remote { (row j).peer with peerConnectStatus := List.replicate n {} })
    (hsends : ∀ j, i ≠ j → Sends (a i j) (out j)) (hsent : ∀ j, i ≠ j → (out j).log = t.given i)
    (hreceives : ∀ j, i ≠ j → Receives (a j i) (inc j))
    (hreceived : ∀ j, i ≠ j → t.given j = (inc j).delivered)
    (hserves : ∀ j, i ≠ j → (row j).peer.Serves (out j) (inc j))
    (hlives : ∀ j, i ≠ j → (row j).Lives) :
    Inv r { m with play := Function.update m.play i t, tasks := Function.update m.tasks i row }
      (rerouted a i out inc) := by
  have hout : ∀ y, rerouted a i out inc i y = out y := fun y => if_pos rfl
  have hinc : ∀ x, x ≠ i → rerouted a i out inc x i = inc x := fun x hx => by
    unfold rerouted
    rw [if_neg hx, if_pos rfl]
  have hrest : ∀ x y, x ≠ i → y ≠ i → rerouted a i out inc x y = a x y := fun x y hx hy => by
    unfold rerouted
    rw [if_neg hx, if_neg hy]
  refine ⟨fun x => ?_, fun x y hxy => ?_, fun x y hxy => ?_, fun x y hxy => ?_, fun x y hxy => ?_,
    fun x y hxy => ?_, fun x y hxy => ?_, fun x y hxy message hm => ?_⟩
  · by_cases hx : x = i
    · subst hx
      simpa using hplay
    · simpa [hx] using h.play x
  · by_cases hx : x = i
    · subst hx
      simpa using hjoined y hxy
    · simpa [hx] using h.joined x y hxy
  · by_cases hx : x = i
    · subst hx
      rw [hout]
      exact (h.reachable x y hxy).steps (hsends y hxy).steps
    · by_cases hy : y = i
      · subst hy
        rw [hinc x hx]
        exact (h.reachable x y hxy).steps (hreceives x (Ne.symm hx)).steps
      · rw [hrest x y hx hy]
        exact h.reachable x y hxy
  · by_cases hx : x = i
    · subst hx
      rw [hout]
      simpa using hsent y hxy
    · dsimp only
      rw [show (Function.update m.play i t x) = m.play x from Function.update_of_ne hx _ _,
        ← h.sent x y hxy]
      by_cases hy : y = i
      · subst hy
        rw [hinc x hx]
        exact (hreceives x (Ne.symm hx)).log
      · rw [hrest x y hx hy]
  · by_cases hx : x = i
    · subst hx
      rw [hinc y hxy.symm]
      simpa using hreceived y hxy
    · dsimp only
      rw [show (Function.update m.play i t x) = m.play x from Function.update_of_ne hx _ _,
        h.received x y hxy]
      by_cases hy : y = i
      · subst hy
        rw [hout]
        exact (hsends x (Ne.symm hx)).delivered.symm
      · rw [hrest y x hy hx]
  · by_cases hx : x = i
    · subst hx
      rw [hout, hinc y hxy.symm]
      simpa using hserves y hxy
    · dsimp only
      rw [show (Function.update m.tasks i row x) = m.tasks x from Function.update_of_ne hx _ _]
      by_cases hy : y = i
      · subst hy
        rw [hinc x hx, hout]
        exact (h.serves x y hxy).meanwhile (hreceives x (Ne.symm hx)) (hsends x (Ne.symm hx))
      · rw [hrest x y hx hy, hrest y x hy hx]
        exact h.serves x y hxy
  · by_cases hx : x = i
    · subst hx
      simpa using hlives y hxy
    · simpa [hx] using h.lives x y hxy
  · have hvouched := h.packets x y hxy message hm
    by_cases hx : x = i
    · subst hx
      rw [hout, hinc y hxy.symm]
      exact hvouched.mono (hsends y hxy).windows (hreceives y hxy).acks
    · by_cases hy : y = i
      · subst hy
        rw [hinc x hx, hout]
        refine hvouched.mono ?_ ?_
        · rw [(hreceives x (Ne.symm hx)).windows]
          exact fun _ hw => hw
        · rw [(hsends x (Ne.symm hx)).acks]
          exact fun _ hk => hk
      · rw [hrest x y hx hy, hrest y x hy hx]
        exact hvouched

omit [Build] [BEq I] [Client I S] [Varinteger] [Pod I] in
theorem setup_locals (r : Rules n S) (i j : Fin n) : (r.setup i).locals j = decide (j = i) := rfl

/-- What a player has given, and what another has, is not far from the frame of the other. -/
theorem Inv.log_le (h : Inv r m a) {i j : Fin n} (hij : i ≠ j) :
    ((a j i).log.length : ℤ) ≤ (m.play i).frameCount + maxPredictionFrames := by
  obtain ⟨g, v, hi⟩ := h.play i
  obtain ⟨g', v', hj⟩ := h.play j
  have hahead := hj.own_ahead (i := j) (j := i) (by simp [setup_locals]) (by simp [setup_locals, hij])
  have hspan := hi.own_span (i := i) (by simp [setup_locals])
  have hdelivered := (ReliableStream.reachable_inv (h.reachable i j hij)).delivered.length_le
  rw [h.received j i hij.symm] at hahead
  rw [← h.sent i j hij] at hspan
  have hcount := hi.frameCount
  rw [h.sent j i hij.symm]
  omega

theorem Inv.given_le (h : Inv r m a) (i k : Fin n) :
    (((m.play i).given k).length : ℤ) ≤ (m.play i).frameCount + maxPredictionFrames := by
  by_cases hk : i = k
  · subst hk
    obtain ⟨g, v, hi⟩ := h.play i
    have hspan := hi.own_span (i := i) (by simp [setup_locals])
    have h8 : maxPredictionFrames = 8 := rfl
    omega
  · have hle := h.log_le hk
    have hdelivered := (ReliableStream.reachable_inv (h.reachable k i (Ne.symm hk))).delivered.length_le
    rw [h.received i k hk]
    omega

theorem Inv.stirred (h : Inv r m a) {i j : Fin n} (hij : i ≠ j) {e : Endpoint I}
    {out inc : ReliableStream.State I}
    (hworks : (m.tasks i j).peer.Works (a i j) (a j i) out inc e.peer)
    (hleads : (m.tasks i j).peer.state.Leads e.peer.state) (hlives : e.Lives) :
    ∃ a', Inv r (m.stirred i j e) a' ∧ a' i j = out ∧ a' j i = inc := by
  obtain ⟨g, v, hi⟩ := h.play i
  have hlog := h.log_le hij
  have hreachable := (h.reachable j i hij.symm).steps hworks.receives.steps
  have hdelivered := (ReliableStream.reachable_inv hreachable).delivered.length_le
  rw [hworks.receives.log] at hdelivered
  obtain ⟨hear, hheard⟩ := hi.hear hworks hleads (h.joined i j hij) (h.received i j hij) (by omega)
    fun k => by
      have := h.given_le i k
      omega
  have hother : ∀ k, k ≠ j → ((m.play i).hear j (m.tasks i j).peer e.peer).given k = (m.play i).given k :=
    fun k hk => Function.update_of_ne hk _ _
  have hplayers : ∀ k, k ≠ j →
      ((m.play i).hear j (m.tasks i j).peer e.peer).session.players k = (m.play i).session.players k :=
    fun k hk => Function.update_of_ne hk _ _
  refine ⟨_, h.update i ((m.play i).hear j (m.tasks i j).peer e.peer)
    (Function.update (m.tasks i) j e) (Function.update (a i) j out)
    (Function.update (fun x => a x i) j inc) ⟨g, v, hear⟩ (fun k hk => ?_) (fun k hk => ?_)
    (fun k hk => ?_) (fun k hk => ?_) (fun k hk => ?_) (fun k hk => ?_) (fun k hk => ?_), ?_, ?_⟩
  · by_cases hkj : k = j
    · subst hkj
      rw [Function.update_self]
      show Function.update _ k _ k = _
      rw [Function.update_self, h.joined i k hk]
      rfl
    · rw [Function.update_of_ne hkj, hplayers k hkj]
      exact h.joined i k hk
  · by_cases hkj : k = j
    · subst hkj
      rw [Function.update_self]
      exact hworks.sends
    · rw [Function.update_of_ne hkj]
      exact .refl _
  · rw [hother i hij, ← h.sent i k hk]
    by_cases hkj : k = j
    · subst hkj
      rw [Function.update_self]
      exact hworks.log
    · rw [Function.update_of_ne hkj]
  · by_cases hkj : k = j
    · subst hkj
      rw [Function.update_self]
      exact hworks.receives
    · rw [Function.update_of_ne hkj]
      exact .refl _
  · by_cases hkj : k = j
    · subst hkj
      rw [Function.update_self]
      exact hheard
    · rw [Function.update_of_ne hkj, hother k hkj]
      exact h.received i k hk
  · by_cases hkj : k = j
    · subst hkj
      rw [Function.update_self, Function.update_self, Function.update_self]
      exact hworks.serves
    · rw [Function.update_of_ne hkj, Function.update_of_ne hkj, Function.update_of_ne hkj]
      exact h.serves i k hk
  · by_cases hkj : k = j
    · subst hkj
      rw [Function.update_self]
      exact hlives
    · rw [Function.update_of_ne hkj]
      exact h.lives i k hk
  · simp [rerouted]
  · simp [rerouted, hij.symm]

/-- The session of a player has gone on. -/
theorem Inv.moved (h : Inv r m a) (i : Fin n) (t : Play n I S) (out inc : Fin n → ReliableStream.State I)
    {g : Standpoint n I} {v : View I S} (ht : Play.Inv (r.setup i) t g v)
    (hpeers : ∀ j, i ≠ j → ∃ p, t.session.players j = .remote p ∧ p.state ≠ .disconnected ∧
      p.Serves (out j) (inc j))
    (hsends : ∀ j, i ≠ j → Sends (a i j) (out j)) (hsent : ∀ j, i ≠ j → (out j).log = t.given i)
    (hreceives : ∀ j, i ≠ j → Receives (a j i) (inc j))
    (hreceived : ∀ j, i ≠ j → t.given j = (inc j).delivered) :
    Inv r (m.moved i t) (rerouted a i out inc) := by
  refine h.update i t _ out inc ⟨g, v, ht⟩ (fun j hj => ?_) hsends hsent hreceives hreceived
    (fun j hj => ?_) fun j hj => ?_
  · obtain ⟨p, hp, -⟩ := hpeers j hj
    have hown := ht.settled.own j p hp
    simp only [Endpoint.share, hp, PlayerType.peer?]
    rw [← hown]
  · obtain ⟨p, hp, -, hserves⟩ := hpeers j hj
    simp only [Endpoint.share, hp, PlayerType.peer?]
    exact hserves.setStatuses _
  · obtain ⟨p, hp, halive, -⟩ := hpeers j hj
    simp only [Endpoint.share, hp, PlayerType.peer?]
    exact ⟨(h.lives i j hj).going, halive⟩

/-- The session has not touched what its peers send and receive. -/
theorem Inv.moved_idle (h : Inv r m a) (i : Fin n) (t : Play n I S) {g : Standpoint n I}
    {v : View I S} (ht : Play.Inv (r.setup i) t g v) (hgiven : t.given = (m.play i).given)
    (hplayers : ∀ j, (t.session.players j).unmeasured =
      (Session.drained ((m.play i).session.players j)).unmeasured) : ∃ a', Inv r (m.moved i t) a' := by
  refine ⟨_, h.moved i t (a i) (fun x => a x i) ht (fun j hj => ?_) (fun j _ => .refl _)
    (fun j hj => ?_) (fun j _ => .refl _) fun j hj => ?_⟩
  · have hplayer := hplayers j
    rw [h.joined i j hj] at hplayer
    obtain ⟨stats, hp⟩ := PlayerType.remote_of_unmeasured hplayer
    have hserves := h.serves i j hj
    exact ⟨_, hp, (h.lives i j hj).alive, { hserves with }⟩
  · rw [hgiven]
    exact h.sent i j hj
  · rw [hgiven]
    exact h.received i j hj

theorem inv_start (h : Starts r m) : ∃ a, Inv r m a := by
  refine ⟨fun _ _ => {}, ?_⟩
  have hplay : ∀ i, (∃ g v, Play.Inv (r.setup i) (m.play i) g v) ∧ (m.play i).given = (fun _ => []) ∧
      ∀ j, i ≠ j → (m.play i).session.players j =
        .remote { (m.tasks i j).peer with peerConnectStatus := List.replicate n {} } := by
    intro i
    obtain ⟨t, hstarts, hplay⟩ := h.play i
    obtain ⟨g, v, hinv⟩ := Play.inv_start hstarts
    obtain ⟨players, randoms, s, hnew, hlocals⟩ := hstarts
    have hplayers := congrFun (congrArg Session.players (Session.new_eq hnew))
    have hremote : ∀ j, i ≠ j → s.players j = .remote (.new (randoms j) (List.replicate n {})) := by
      intro j hij
      rw [hplayers]
      have hj := hlocals j
      dsimp only
      split
      · next hp => simp [setup_locals, hp, hij.symm] at hj
      · rfl
    have hlocal : s.players i = .localPlayer := by
      rw [hplayers]
      dsimp only
      rw [(hlocals i).mp (by simp [setup_locals])]
    refine ⟨⟨g, v, ?_⟩, by rw [hplay], fun j hij => ?_⟩
    · have hmet : s.Interferes (fun j => if i = j then [] else (m.tasks i j).peer.events.queue)
          (m.play i).session := by
        rw [hplay]
        refine ⟨rfl, rfl, fun j => ?_⟩
        show (s.players j).Shares _ (PlayerType.mapPeer _ (s.players j))
        by_cases hij : i = j
        · subst hij
          rw [if_pos rfl, hlocal]
          exact .localPlayer
        · have hfresh := h.fresh i j hij
          rw [if_neg hij, hremote j hij]
          exact .remote _ _ _ [] rfl ⟨fun hrun => absurd hrun (by simp [Peer.new, PeerState.isRunning]),
            fun hend => absurd hend (by simp [Peer.new])⟩ hfresh.encoder rfl
            fun hclosed => absurd hclosed (by simp [Peer.new])
      have hreceive := hinv.receive (fun _ => []) hmet (fun j peer hp => ?_) (fun j => ?_)
        fun _ j => ?_
      · rw [hplay] at hreceive ⊢
        exact hreceive
      · rw [hplay] at hp
        replace hp : PlayerType.mapPeer _ (s.players j) = _ := hp
        by_cases hij : i = j
        · subst hij
          rw [hlocal] at hp
          cases hp
        · rw [hremote j hij] at hp
          obtain rfl := PlayerType.remote.inj hp
          exact (h.fresh i j hij).eventsOpen
      · split
        · rfl
        · next hij => exact (h.fresh i j hij).reported
      · have hcount := hinv.frameCount
        simp only [List.append_nil, List.length_nil]
        omega
    · rw [hplay]
      show PlayerType.mapPeer _ (s.players j) = _
      rw [hremote j hij]
      rfl
  exact {
    play := fun i => (hplay i).1
    joined := fun i => (hplay i).2.2
    reachable := fun _ _ _ => .init
    sent := fun i j _ => by rw [(hplay i).2.1]
    received := fun i j _ => by rw [(hplay i).2.1]
    serves := fun i j hij => (h.fresh i j hij).serves
    lives := h.lives
    packets := fun i j _ message hm => vouched_of_idle (h.packets i j message hm) }

/-- The input of a player is accepted, and sent to everyone. -/
theorem Inv.give (h : Inv r m a) (hV : Varinteger.RoundTrips) (hI : 0 < Pod.size I) (i k : Fin n)
    (input : I) (s : Session n I S) (honce : ((m.play i).given k).length = (m.play i).frameCount)
    (hgive : (m.play i).session.addLocalInput k input = .ok (.ok (), s)) :
    ∃ a', Inv r (m.moved i { m.play i with
      host := { (m.play i).host with session := s }
      given := record (m.play i).given k (m.play i).frameCount input }) a' := by
  obtain ⟨g, v, hi⟩ := h.play i
  have hcount := hi.frameCount
  obtain ⟨j, hj, haccepted⟩ := (Session.addLocalInput_accepted hi.settled
    (show 0 ≤ (m.play i).frameCount by omega) k input).ok hgive
  obtain rfl : j = k := Fin.ext hj
  have hlocal := (hi.stage.locals j).symm.trans haccepted.home
  obtain rfl : j = i := by simpa [setup_locals] using hlocal
  obtain ⟨g', ht, -, -⟩ := hi.give (fun _ => honce) hgive
  have hgiven : record (m.play j).given j (m.play j).frameCount input =
      Function.update (m.play j).given j ((m.play j).given j ++ [input]) := if_pos honce
  have hpeers := Session.addLocalInput_peers (show 0 ≤ (m.play j).frameCount by omega) hgive
  have hstep : ∀ k, ∃ out inc, j ≠ k → ∃ p, s.players k = .remote p ∧ p.state ≠ .disconnected ∧
      p.Serves out inc ∧ Sends (a j k) out ∧ out.log = (a j k).log ++ [input] ∧
      Receives (a k j) inc ∧ inc.delivered = (a k j).delivered := by
    intro k
    by_cases hk : j = k
    · exact ⟨{}, {}, fun hne => absurd hk hne⟩
    have hplayer := h.joined j k hk
    have halive := (h.lives j k hk).alive
    have hrun : (m.tasks j k).peer.isRunning = true :=
      (hi.settled.met haccepted.ready k _ hplayer).resolve_right halive
    obtain ⟨statuses, result, p, hsend, hp⟩ := hpeers k _ hplayer
    have hframe : (m.play j).session.sync.frameCount = ((a j k).log.length : ℤ) := by
      rw [h.sent j k hk]
      exact honce.symm
    rw [hframe] at hsend
    have hahead := ht.own_ahead (i := j) (j := k) (by simp [setup_locals])
      (by simp [setup_locals, Ne.symm hk])
    dsimp only at hahead
    rw [hgiven, Function.update_self, Function.update_of_ne (Ne.symm hk), h.received j k hk,
      List.length_append, ← h.sent j k hk] at hahead
    have hserves := (h.serves j k hk).setStatuses (List.replicate n {})
    obtain ⟨out, inc, hserves', hsends, hlog, hreceives, hdelivered⟩ :=
      hserves.sendInput hV hI (h.reachable j k hk) hrun input hahead hsend
    have hstate := ((Peer.sendInput_sent _ statuses _).ok hsend).state
    exact ⟨out, inc, fun _ => ⟨p, hp, fun hend => halive (hstate.symm.trans hend), hserves', hsends,
      hlog, hreceives, hdelivered⟩⟩
  choose out inc hstep using hstep
  refine ⟨_, h.moved j _ out inc ht (fun k hk => ?_) (fun k hk => ?_) (fun k hk => ?_)
    (fun k hk => ?_) fun k hk => ?_⟩
  all_goals obtain ⟨p, hp, halive, hserves, hsends, hlog, hreceives, hdelivered⟩ := hstep k hk
  · exact ⟨p, hp, halive, hserves⟩
  · exact hsends
  · dsimp only
    rw [hgiven, Function.update_self, hlog, h.sent j k hk]
  · exact hreceives
  · dsimp only
    rw [hgiven, Function.update_of_ne (Ne.symm hk), hdelivered, h.received j k hk]

/-- The tasks have said or reported something that neither is nor acknowledges an input. -/
theorem Inv.quiet (h : Inv r m a) {i j : Fin n} (hij : i ≠ j) {e : Endpoint I}
    (hquiet : (m.tasks i j).peer.Quiet e.peer)
    (hleads : (m.tasks i j).peer.state.Leads e.peer.state) (hlives : e.Lives) :
    ∃ a', Inv r (m.stirred i j e) a' := by
  obtain ⟨a', h', -⟩ := h.stirred hij (.of_quiet (h.serves i j hij) hquiet) hleads hlives
  exact ⟨a', h'⟩

/-- A packet is on its way. -/
theorem Inv.packet (h : Inv r m a) {i j : Fin n} {message : Message}
    (hvouched : Vouched (a i j) (a j i) message.data) : Inv r { m with
      packets := Function.update m.packets i
        (Function.update (m.packets i) j (message :: m.packets i j)) } a := by
  refine { h with packets := fun x y hxy message' hm => ?_ }
  dsimp only at hm
  by_cases hx : x = i
  · subst hx
    rw [Function.update_self] at hm
    by_cases hy : y = j
    · subst hy
      rw [Function.update_self] at hm
      rcases List.mem_cons.mp hm with rfl | hm
      · exact hvouched
      · exact h.packets x y hxy message' hm
    · rw [Function.update_of_ne hy] at hm
      exact h.packets x y hxy message' hm
  · rw [Function.update_of_ne hx] at hm
    exact h.packets x y hxy message' hm

theorem Inv.move (h : Inv r m a) (hV : Varinteger.RoundTrips) (hI : 0 < Pod.size I) {i : Fin n}
    {t : Play n I S} (hmove : (m.play i).Move (r.setup i) t) : ∃ a', Inv r (m.moved i t) a' := by
  obtain ⟨g, v, hi⟩ := h.play i
  obtain ⟨⟨g', v', ht⟩, -⟩ := hmove.inv hi
  cases hmove with
  | give k input s honce hgive => exact h.give hV hI i k input s (honce trivial) hgive
  | refused player input err s hrefused =>
    have hcount := hi.frameCount
    obtain rfl := (Session.addLocalInput_accepted hi.settled
      (show 0 ≤ (m.play i).frameCount by omega) player input).ok hrefused
    refine ⟨_, h.moved i _ (a i) (fun x => a x i) ht (fun j hj => ?_) (fun j _ => .refl _)
      (h.sent i) (fun j _ => .refl _) (h.received i)⟩
    exact ⟨_, h.joined i j hj, (h.lives i j hj).alive, (h.serves i j hj).setStatuses _⟩
  | poll commands s host hpoll hexec =>
    have hplayers := (Session.doPoll_unmeasured hi.settled hi.opened).ok hpoll
    obtain ⟨⟨frames, state⟩, -, hhost⟩ := Fallible.bind_eq_ok.mp hexec
    obtain rfl := Except.ok.inj hhost
    exact h.moved_idle i _ ht rfl hplayers
  | advanceFrame commands s host hready hadvance hexec =>
    have hplayers := (Session.advanceFrame_unmeasured hi.settled hi.opened).ok hadvance
    obtain ⟨⟨frames, state⟩, -, hhost⟩ := Fallible.bind_eq_ok.mp hexec
    obtain rfl := Except.ok.inj hhost
    exact h.moved_idle i _ ht rfl hplayers

theorem Step.inv (hstep : Step r m m') (hV : Varinteger.RoundTrips) (hI : 0 < Pod.size I)
    (h : Inv r m a) : ∃ a', Inv r m' a' := by
  cases hstep with
  | move i t hmove => exact h.move hV hI hmove
  | serializeOutgoing i j hij now message e hsend =>
    obtain ⟨hworks, hvouched⟩ := Endpoint.serializeOutgoing_works (h.serves i j hij) hsend
    obtain ⟨hended, hstate⟩ := Endpoint.serializeOutgoing_same hsend
    obtain ⟨a', h', hout, hinc⟩ := h.stirred hij hworks (by rw [hstate]; exact .refl _)
      ((h.lives i j hij).of_eq hended hstate)
    exact ⟨a', h'.packet (by rw [hout, hinc]; exact hvouched)⟩
  | deserializeIncoming i j hij message hm =>
    have hworks := Endpoint.deserializeIncoming_works (h.serves i j hij)
      (h.packets j i hij.symm message hm)
    have hstate := (Endpoint.deserializeIncoming_untouched (m.tasks i j) message).state
    obtain ⟨a', h', -⟩ := h.stirred hij hworks (by rw [hstate]; exact .refl _)
      ((h.lives i j hij).of_eq (Endpoint.deserializeIncoming_ended _ _) hstate)
    exact ⟨a', h'⟩
  | handle i j hij now e hhandle hlives =>
    obtain ⟨out, inc, hworks⟩ := Endpoint.handle_works (h.serves i j hij) (h.reachable j i hij.symm)
      hhandle hlives.alive
    obtain ⟨a', h', -⟩ := h.stirred hij hworks (Endpoint.handle_leads hhandle) hlives
    exact ⟨a', h'⟩
  | tick i j hij now e htick hlives =>
    exact h.quiet hij (Endpoint.tick_quiet htick hlives.alive) (Endpoint.Step.tick _ _ _ htick).leads
      hlives
  | heartbeat i j hij =>
    have hstate := (m.tasks i j).peer.heartbeat_state
    exact h.quiet hij (Peer.heartbeat_quiet _) (by rw [hstate]; exact .refl _)
      ((h.lives i j hij).of_eq rfl hstate)
  | sendQualityReports i j hij now =>
    have hstate := (m.tasks i j).peer.sendQualityReports_state now
    exact h.quiet hij (Peer.sendQualityReports_quiet _ now) (by rw [hstate]; exact .refl _)
      ((h.lives i j hij).of_eq rfl hstate)
  | resendInputs i j hij now result p hresend =>
    obtain ⟨g, v, hi⟩ := h.play i
    have hahead := hi.own_ahead (i := i) (j := j) (by simp [setup_locals])
      (by simp [setup_locals, hij.symm])
    rw [h.received i j hij, ← h.sent i j hij] at hahead
    obtain ⟨out, inc, hworks⟩ := (h.serves i j hij).resendInputs hV hI (h.reachable i j hij) hahead
      hresend
    have hstate := (Peer.resendInputs_state _ now _).ok hresend
    obtain ⟨a', h', -⟩ := h.stirred hij (e := { m.tasks i j with peer := p }) hworks
      (by dsimp only; rw [hstate]; exact .refl _) ((h.lives i j hij).of_eq rfl hstate)
    exact ⟨a', h'⟩

theorem reachable_inv (hm : Reachable r m) (hV : Varinteger.RoundTrips) (hI : 0 < Pod.size I) :
    ∃ a, Inv r m a := by
  induction hm with
  | start m h => exact inv_start h
  | step m m' _ hstep ih =>
    obtain ⟨a, h⟩ := ih
    exact hstep.inv hV hI h

end Runs

section Pair

attribute [local instance] debugBuild Varinteger.leb128 countingClient

/-- Players that play without a delay. -/
def metRules (n : ℕ) (h : n ≤ maxPlayers) : Rules n ℕ := ⟨0, 0, by decide, h⟩

/-- A peer whose handshake is over. -/
def metPeer : Peer UInt8 := { Peer.new 1 [] with
  state := .running 7
  events := { queue := [.synchronized] } }

def metSession {n : ℕ} (i : Fin n) : Session n UInt8 ℕ where
  sync := .new 0
  players j := if j = i then .localPlayer else
    .remote { metPeer with peerConnectStatus := List.replicate n {} }
  synchronizing := (List.finRange n).any fun j => j ≠ i
  nextRecommendedSleep := 0

def met (n : ℕ) : Mesh n UInt8 ℕ where
  play i := ⟨⟨metSession i, 0⟩, fun _ => [], []⟩
  tasks _ _ := { peer := metPeer, config := ⟨5000, 750⟩, magic := 7, lastRecvTime := 0 }
  packets _ _ := []

theorem met_starts {n : ℕ} (hn : n ≤ maxPlayers) : Starts (metRules n hn) (met n) := by
  refine ⟨fun i => ?_, fun i j _ => ⟨rfl, rfl, ?_, ?_, rfl, rfl, rfl, rfl⟩, fun i j _ => ⟨rfl, ?_⟩,
    fun i j message hm => absurd hm List.not_mem_nil⟩
  · have hone : (List.finRange n).countP (fun j => (if j = i then Player.localPlayer
        else .remotePlayer) = .localPlayer) = 1 := by
      have hpred : (fun j : Fin n => decide ((if j = i then Player.localPlayer else .remotePlayer) =
          .localPlayer)) = fun j => j == i := by
        funext j
        by_cases hj : j = i <;> simp [hj]
      rw [hpred]
      exact List.count_eq_one_of_mem (List.nodup_finRange n) (List.mem_finRange i)
    obtain ⟨s, hs⟩ : ∃ s : Session n UInt8 ℕ,
        Session.new (fun j => if j = i then .localPlayer else .remotePlayer) 0 (fun _ => 1) = .ok s := by
      unfold Session.new
      dsimp only
      rw [if_neg (by omega)]
      exact ⟨_, rfl⟩
    have hsession : metSession i = { s with players := fun j => (s.players j).mapPeer fun own =>
        { metPeer with peerConnectStatus := own.peerConnectStatus } } := by
      obtain rfl := Session.new_eq hs
      unfold metSession
      congr 1
      · funext j
        by_cases hj : j = i
        · simp [hj, PlayerType.mapPeer]
        · simp [hj, PlayerType.mapPeer, Peer.new]
      · congr 1
        funext j
        by_cases hj : j = i <;> simp [hj]
    refine ⟨⟨⟨s, 0⟩, fun _ => [], []⟩, .new _ _ s hs fun j => by simp [setup_locals], ?_⟩
    exact congrArg (fun s => Play.mk ⟨s, 0⟩ (fun _ => []) []) hsession
  · exact fun data hdata => absurd hdata List.not_mem_nil
  · exact fun message hm => absurd hm List.not_mem_nil
  · simp [met, metPeer]

/-- Two players without a delay. -/
abbrev pairRules : Rules 2 ℕ := metRules 2 (by decide)

/-- Both players give an input, which reaches the other, and simulate the first frame. -/
theorem met_pair_reachable : ∃ m : Mesh 2 UInt8 ℕ, Reachable pairRules m ∧ m.Confirmed 0 0 ∧
    m.Confirmed 1 0 ∧ m.truth = (fun i => if i = 0 then [3] else [5]) := by
  have hpoll : Reachable pairRules _ := .step _ _ (.step _ _ (.start _ (met_starts _))
    (.move 0 _ (.poll _ _ _ rfl rfl))) (.move 1 _ (.poll _ _ _ rfl rfl))
  have hgive : Reachable pairRules _ := .step _ _ (.step _ _ hpoll
    (.move 0 _ (.give 0 3 _ (fun _ => rfl) rfl))) (.move 1 _ (.give 1 5 _ (fun _ => rfl) rfl))
  have hsend : Reachable pairRules _ := .step _ _ (.step _ _ hgive
    (.serializeOutgoing 0 1 (by decide) 0 _ _ rfl)) (.serializeOutgoing 1 0 (by decide) 0 _ _ rfl)
  have hreceive : Reachable pairRules _ := .step _ _ (.step _ _ hsend
    (.deserializeIncoming 0 1 (by decide) _ (.head _))) (.deserializeIncoming 1 0 (by decide) _ (.head _))
  have hhandle : Reachable pairRules _ := .step _ _ (.step _ _ hreceive
    (.handle 0 1 (by decide) 0 _ rfl (by decide))) (.handle 1 0 (by decide) 0 _ rfl (by decide))
  have hfirst : Reachable pairRules _ := .step _ _ hhandle (.move 0 _
    (.advanceFrame _ _ _ (fun i hi => by rw [show i = 0 from of_decide_eq_true hi]; rfl) rfl rfl))
  have hsecond : Reachable pairRules _ := .step _ _ hfirst (.move 1 _
    (.advanceFrame _ _ _ (fun i hi => by rw [show i = 1 from of_decide_eq_true hi]; rfl) rfl rfl))
  exact ⟨_, hsecond, ⟨by decide, by decide⟩, ⟨by decide, by decide⟩,
    funext (Fin.forall_fin_two.mpr ⟨rfl, rfl⟩)⟩

end Pair

end Mesh

end Backroll

import Backroll.Session.Agreement
import Backroll.Session.Confirmation

/-! What a poll confirms, and that a game of more than three players therefore does not get beyond
the prediction window. -/
namespace Backroll

open Fallible (Ends)
open Relation (ReflTransGen)

variable {n : ℕ} {I S : Type}

namespace Session

variable {s : Session n I S}

/-- What a poll has confirmed once it returns, when this was confirmed before. -/
def Settles (s : Session n I S) (before : ℤ) : Prop :=
  if s.synchronizing then s.sync.lastConfirmedFrame = before
  else ∃ frame, s.Confirms frame ∧
    s.sync.lastConfirmedFrame = if frame ≥ 0 then frame.untopD frameMax else before

theorem Confirms.congr {s' : Session n I S} {frame : WithTop ℤ} (h : s.Confirms frame)
    (hplayers : s'.players = s.players)
    (hstatuses : s'.sync.localConnectStatus = s.sync.localConnectStatus)
    (hcount : s'.sync.frameCount = s.sync.frameCount) : s'.Confirms frame := by
  unfold Confirms remotes Linked leastFrame status at h ⊢
  rw [hplayers, hstatuses, hcount]
  exact h

/-- With more than two remote players a poll confirms nothing while one of them is connected. -/
theorem Settles.halted {before : ℤ} (h : s.Settles before) (hmany : 2 < s.remotes.length)
    (hlinked : s.synchronizing = false → s.Linked) : s.sync.lastConfirmedFrame = before := by
  unfold Settles at h
  split at h
  · exact h
  · next hrun =>
    obtain ⟨frame, hconfirms, hconfirmed⟩ := h
    unfold Confirms at hconfirms
    rw [if_neg (by omega), if_neg (by omega)] at hconfirms
    have hneg := hconfirms.1 (hlinked (by simpa using hrun))
    rwa [if_neg (not_le.mpr hneg)] at hconfirmed

section Confirming

variable [Build] [Zeroable I]

omit [Zeroable I] in
theorem confirm_sets (s : Session n I S) (frame : WithTop ℤ) :
    Ends (s.confirm frame) (fun sync => sync.localConnectStatus = s.sync.localConnectStatus ∧
      sync.frameCount = s.sync.frameCount ∧ sync.lastConfirmedFrame =
        if frame ≥ 0 then frame.untopD frameMax else s.sync.lastConfirmedFrame) fun _ => True := by
  unfold confirm
  split
  · refine .bind_any fun _ => ?_
    unfold Sync.setLastConfirmedFrame
    dsimp only
    split
    · exact .bind_any fun queues => ⟨rfl, rfl, rfl⟩
    · exact ⟨rfl, rfl, rfl⟩
  · exact ⟨rfl, rfl, rfl⟩

variable [BEq I] [Client I S] {p : Setup n S} {all : Fin n → List I} {g : Standpoint n I}
  {v : View I S}

theorem pollRunning_settles (h : Stage p all (fun _ => []) s g v) (hs : s.Settled)
    (hrun : s.synchronizing = false) :
    Ends s.pollRunning (fun r => r.2.Settles s.sync.lastConfirmedFrame) fun _ => True := by
  have hcheck := ((checkSimulation_checked h).mono (fun _ hr => hr) fun _ _ => trivial).and
    (checkSimulation_steady hs)
  refine pollRunning_ends hcheck (fun _ _ => .inr trivial) (fun r hr => (tellFrame_steady hr.2.settled).settled)
    fun r hr frame hframe => (confirm_sets _ frame).imp fun sync hsync events _ sleep => ?_
  obtain ⟨⟨g₁, v₁, hchecked⟩, -⟩ := hr
  obtain ⟨hstatuses, hcount, hconfirmed⟩ := hsync
  unfold Settles
  rw [if_neg (by simp [tellFrame, hrun])]
  refine ⟨frame, hframe.congr rfl hstatuses hcount, ?_⟩
  rw [← hchecked.unchanged.lastConfirmedFrame]
  exact hconfirmed

theorem doPoll_settles (h : Stage p all (s.waitingFrom 0) s g v) (hs : s.Settled)
    (hopen : ∀ i peer, s.players i = .remote peer → peer.events.closed = false)
    (hreach : p.strict → ∀ i, (all i).length ≤ g.cur + maxPredictionFrames + 1) :
    Ends s.doPoll (fun r => r.2.Settles s.sync.lastConfirmedFrame) fun _ => True := by
  unfold doPoll
  rw [if_neg (by simp [hs.idle])]
  refine (((flushEvents_stage h hopen hreach).mono (fun _ hr => hr) fun _ _ => trivial).and
    (flushEvents_onward hs)).bind fun r hr => ?_
  obtain ⟨⟨g₁, hstage, -, hflushed, -⟩, hon, -⟩ := hr
  dsimp only
  split
  · next hsync =>
    show r.2.Settles _
    unfold Settles
    rw [if_pos hsync]
    exact hflushed.lastConfirmedFrame
  · next hrun =>
    refine (pollRunning_settles hstage hon.settled (by simpa using hrun)).bind fun r hr => ?_
    rw [hflushed.lastConfirmedFrame] at hr
    exact hr

theorem advanceFrame_settles (h : Stage p all (s.waitingFrom 0) s g v) (hs : s.Settled)
    (hunmarked : g.Unmarked) (hrun : s.synchronizing = false)
    (hready : ∀ i, p.locals i = true → (g.given i).length = g.cur + 1)
    (hopen : ∀ i peer, s.players i = .remote peer → peer.events.closed = false)
    (hreach : p.strict → ∀ i, (all i).length ≤ g.cur + 1 + maxPredictionFrames + 1) :
    Ends s.advanceFrame (fun r => r.2.Settles s.sync.lastConfirmedFrame) fun _ => True := by
  unfold advanceFrame
  rw [if_pos (by simp [hrun])]
  refine (((h.core.incrementFrame hunmarked hready).mono (fun _ hr => hr) fun _ _ => trivial).and
    (incrementFrame_steady hs)).bind fun r hr => ?_
  obtain ⟨⟨g₁, v₁, hadv⟩, hsteady⟩ := hr
  have hstage : Stage p all (Session.waitingFrom { s with sync := r.2 } 0) { s with sync := r.2 } g₁ v₁ := by
    refine ⟨hadv.core, h.locals, fun i => ?_, fun i => ?_, fun hsync => ?_⟩
    · show (r.2.localConnectStatus i).disconnected = false
      rw [hadv.unchanged.localConnectStatus]
      exact h.connected i
    · rw [hadv.same.given]
      exact h.waiting i
    · rw [show s.synchronizing = true from hsync] at hrun
      exact absurd hrun (by simp)
  refine (doPoll_settles hstage hsteady.settled hopen fun hst i => ?_).bind fun r₂ hr₂ => ?_
  · rw [hadv.cur]
    exact hreach hst i
  · rw [show ({ s with sync := r.2 } : Session n I S).sync.lastConfirmedFrame = _ from
      hadv.unchanged.lastConfirmedFrame] at hr₂
    exact hr₂

end Confirming

end Session

namespace Play

section Runs

variable [Build] [BEq I] [Client I S] [Pod I] {p : Setup n S} {t t' : Play n I S}
  {g : Standpoint n I} {v : View I S}

theorem Inv.poll_settles (h : Inv p t g v) :
    Ends t.session.poll (fun r => r.2.Settles t.lastConfirmedFrame) fun _ => True :=
  Session.doPoll_settles h.stage h.settled h.opened fun hs i => by
    have := h.ahead hs i
    omega

theorem Inv.advanceFrame_settles (h : Inv p t g v) (hready : t.Ready p) :
    Ends t.session.advanceFrame (fun r => r.2.Settles t.lastConfirmedFrame) fun _ => True := by
  refine Session.advanceFrame_settles h.stage h.settled h.unmarked (h.running hready) (fun i hi => ?_)
    h.opened fun hs i => ?_
  · have hlen := hready i hi
    rw [h.locals_eq hi, h.frameCount] at hlen
    exact_mod_cast hlen
  · have := h.ahead hs i
    omega

variable [Varinteger]

/-- What a call of the client confirms. -/
theorem Inv.move_settles (h : Inv p t g v) (hmove : t.Move p t') :
    t'.lastConfirmedFrame = t.lastConfirmedFrame ∨ t'.session.Settles t.lastConfirmedFrame := by
  have hexecuted : ∀ {s : Session n I S} {commands host},
      Host.execute ⟨s, t.host.state⟩ commands = .ok host → s.Settles t.lastConfirmedFrame →
      host.session.Settles t.lastConfirmedFrame := by
    intro s commands host hexec hs
    obtain ⟨⟨frames, state⟩, -, hhost⟩ := Fallible.bind_eq_ok.mp hexec
    obtain rfl := Except.ok.inj hhost
    exact hs
  cases hmove with
  | give i input s honce hgive =>
    obtain ⟨g', -, -, hconfirmed⟩ := h.give honce hgive
    exact .inl hconfirmed
  | refused player input err s hrefused =>
    have hcount := h.frameCount
    obtain rfl := (Session.addLocalInput_accepted h.settled (show 0 ≤ t.frameCount by omega)
      player input).ok hrefused
    exact .inl rfl
  | poll commands s host hpoll hexec =>
    exact .inr (hexecuted hexec (h.poll_settles.ok hpoll))
  | advanceFrame commands s host hready hadvance hexec =>
    exact .inr (hexecuted hexec ((h.advanceFrame_settles hready).ok hadvance))

end Runs

end Play

namespace Mesh

section Runs

variable [Build] [BEq I] [Client I S] [Varinteger] [Pod I] {r : Rules n S} {m m' : Mesh n I S}
  {a a' : Fin n → Fin n → ReliableStream.State I}

omit [Build] [BEq I] [Client I S] [Varinteger] [Pod I] in
/-- The tasks of a peer touch no session. -/
theorem stirred_sync (m : Mesh n I S) (i j : Fin n) (e : Endpoint I) (k : Fin n) :
    ((m.stirred i j e).play k).session.sync = (m.play k).session.sync := by
  unfold stirred
  dsimp only
  by_cases hk : k = i
  · subst hk
    rw [Function.update_self]
    rfl
  · rw [Function.update_of_ne hk]

theorem Inv.remotes_length (h : Inv r m a) (i : Fin n) :
    (m.play i).session.remotes.length = n - 1 := by
  obtain ⟨g, v, hi⟩ := h.play i
  refine Session.length_remotes ⟨i, ?_, fun j hj => ?_⟩
  · exact (hi.stage.locals i).trans (by simp [setup_locals])
  · have hlocal := (hi.stage.locals j).symm.trans hj
    simpa [setup_locals] using hlocal

theorem Inv.linked (h : Inv r m a) (i : Fin n) (hn : 1 < n)
    (hrun : (m.play i).session.synchronizing = false) : (m.play i).session.Linked := by
  obtain ⟨g, v, hi⟩ := h.play i
  have := Fin.nontrivial_iff_two_le.mpr hn
  obtain ⟨j, hij⟩ := exists_ne i
  have hplayer := h.joined i j hij.symm
  exact ⟨j, _, hplayer, (hi.settled.met hrun j _ hplayer).resolve_right (h.lives i j hij.symm).alive⟩

theorem Step.unconfirmed (hstep : Step r m m') (h : Inv r m a) (h' : Inv r m' a') (hn : 3 < n)
    (hm : ∀ i, (m.play i).lastConfirmedFrame = nullFrame) :
    ∀ i, (m'.play i).lastConfirmedFrame = nullFrame := by
  have hstirred : ∀ i j e k, ((m.stirred i j e).play k).lastConfirmedFrame = nullFrame :=
    fun i j e k => (congrArg Sync.lastConfirmedFrame (m.stirred_sync i j e k)).trans (hm k)
  cases hstep with
  | move i t hmove =>
    intro k
    by_cases hk : k = i
    · subst hk
      obtain ⟨g, v, hi⟩ := h.play k
      have hplay : (m.moved k t).play k = t := Function.update_self _ _ _
      have hlength := h'.remotes_length k
      rw [hplay] at hlength ⊢
      rcases hi.move_settles hmove with hsame | hsettles
      · exact hsame.trans (hm k)
      · rw [hm k] at hsettles
        refine hsettles.halted (by omega) fun hrun => ?_
        have hlinked := h'.linked k (by omega)
        rw [hplay] at hlinked
        exact hlinked hrun
    · show ((Function.update m.play i t) k).lastConfirmedFrame = _
      rw [Function.update_of_ne hk]
      exact hm k
  | serializeOutgoing i j hij now message e hsend => exact hstirred i j e
  | deserializeIncoming i j hij message hmessage => exact hstirred i j _
  | handle i j hij now e hhandle halive => exact hstirred i j e
  | tick i j hij now e htick halive => exact hstirred i j e
  | heartbeat i j hij => exact hstirred i j _
  | sendQualityReports i j hij now => exact hstirred i j _
  | resendInputs i j hij now result p hresend => exact hstirred i j _

/-- A player gives its input for the next frame and simulates it. -/
theorem Reachable.turn (hm : Reachable r m) (i : Fin n) (input : I) {s s' : Session n I S}
    {commands : List (Command I)} {host : Host n I S} {t : Play n I S}
    (ht : t = { m.play i with
      host := ⟨s, (m.play i).host.state⟩
      given := record (m.play i).given i (m.play i).frameCount input })
    (honce : ((m.play i).given i).length = (m.play i).frameCount)
    (hgive : (m.play i).session.addLocalInput i input = .ok (.ok (), s))
    (hcount : s.sync.frameCount = (m.play i).frameCount)
    (hadvance : s.advanceFrame = .ok (commands, s'))
    (hexec : Host.execute ⟨s', (m.play i).host.state⟩ commands = .ok host) :
    Reachable r ((m.moved i t).moved i (t.tell host commands)) := by
  have hgiven := Reachable.step _ _ hm (.move i _ (.give i input s (fun _ => honce) hgive))
  have hplay : (m.moved i t).play i = t := Function.update_self _ _ _
  refine .step _ _ (ht ▸ hgiven) (.move i _ ?_)
  rw [hplay]
  subst ht
  refine .advanceFrame commands s' host (fun j hj => ?_) hadvance hexec
  obtain rfl : j = i := by simpa [setup_locals] using hj
  show ((record (m.play j).given j (m.play j).frameCount input j).length : ℤ) = s.sync.frameCount + 1
  rw [record, if_pos honce, Function.update_self, List.length_append, hcount, ← honce]
  rfl

/-- Nothing is confirmed, and a player that has come to the end of the prediction window cannot go
on. -/
structure Stuck (m : Mesh n I S) : Prop where
  confirmed : ∀ i, (m.play i).lastConfirmedFrame = nullFrame
  count : ∀ i, (m.play i).frameCount ≤ maxPredictionFrames
  refused : ∀ i input, (m.play i).frameCount = maxPredictionFrames →
    (m.play i).session.addLocalInput i input =
      .ok (.error .reachedPredictionBarrier, (m.play i).session)

theorem reachable_unconfirmed (hm : Reachable r m) (hV : Varinteger.RoundTrips)
    (hI : 0 < Pod.size I) (hn : 3 < n) : ∀ i, (m.play i).lastConfirmedFrame = nullFrame := by
  induction hm with
  | start m h =>
    intro i
    obtain ⟨t, ht, hplay⟩ := h.play i
    obtain ⟨players, randoms, s, hnew, -⟩ := ht
    rw [hplay]
    show s.sync.lastConfirmedFrame = _
    rw [Session.new_eq hnew]
    rfl
  | step m m' hm hstep ih =>
    obtain ⟨a, h⟩ := reachable_inv hm hV hI
    obtain ⟨a', h'⟩ := hstep.inv hV hI h
    exact hstep.unconfirmed h h' hn ih

/-- A game of more than three players gets no further than the prediction window. -/
theorem reachable_stuck (hm : Reachable r m) (hV : Varinteger.RoundTrips)
    (hI : 0 < Pod.size I) (hn : 3 < n) : m.Stuck := by
  obtain ⟨a, h⟩ := reachable_inv hm hV hI
  have hconfirmed := reachable_unconfirmed hm hV hI hn
  refine ⟨hconfirmed, fun i => ?_, fun i input hcount => ?_⟩
  · obtain ⟨g, v, hi⟩ := h.play i
    have hspan := hi.stage.core.span
    have hfloor : (m.play i).lastConfirmedFrame.toNat = g.floor := hi.stage.core.confirmed
    have hcur := hi.frameCount
    rw [hconfirmed i] at hfloor
    have : nullFrame.toNat = 0 := rfl
    omega
  · obtain ⟨g, v, hi⟩ := h.play i
    have hlocal := (hi.stage.locals i).trans (show (r.setup i).locals i = true by simp [setup_locals])
    have hrun : (m.play i).session.synchronizing = false := by
      by_contra hsync
      have hnone := hi.fresh (by simpa using hsync) i (by simp [setup_locals])
      have hspan := (hi.own_span (i := i) (by simp [setup_locals])).1
      rw [hnone, hcount] at hspan
      simp at hspan
    unfold Session.addLocalInput
    rw [if_neg (by simp [hi.settled.idle]), if_neg (by simp [hrun]),
      show (m.play i).session.playerHandleToQueue i = .ok i by simp [Session.playerHandleToQueue]]
    dsimp only
    rw [if_neg (by simp [hlocal])]
    unfold Sync.addLocalInput
    dsimp only
    rw [if_pos]
    · rfl
    · have hlast := hconfirmed i
      unfold Play.frameCount at hcount
      unfold Play.lastConfirmedFrame at hlast
      rw [hcount, hlast]
      decide

end Runs

section Example

attribute [local instance] debugBuild Varinteger.leb128 countingClient

/-- One of four players has come to the end of the prediction window. -/
theorem reachable_stuck_four : ∃ m : Mesh 4 UInt8 ℕ, (m.play 0).frameCount = 8 ∧ m.Stuck := by
  have hpoll : Reachable (metRules 4 (by decide)) _ := .step _ _ (.start _ (met_starts _))
    (.move 0 _ (.poll _ _ _ rfl rfl))
  have hfour := (((hpoll.turn 0 3 rfl rfl rfl rfl rfl rfl).turn 0 3 rfl rfl rfl rfl rfl rfl).turn 0 3
    rfl rfl rfl rfl rfl rfl).turn 0 3 rfl rfl rfl rfl rfl rfl
  have height := (((hfour.turn 0 3 rfl rfl rfl rfl rfl rfl).turn 0 3 rfl rfl rfl rfl rfl rfl).turn 0 3
    rfl rfl rfl rfl rfl rfl).turn 0 3 rfl rfl rfl rfl rfl rfl
  exact ⟨_, rfl, reachable_stuck height Varinteger.leb128_roundTrips (by decide) (by decide)⟩

end Example

end Mesh

end Backroll

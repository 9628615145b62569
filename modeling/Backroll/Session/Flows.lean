import Backroll.Session.Onward

/-! The events and polls of a session, in any settled state. -/
namespace Backroll

open Fallible (Ends)

variable {n : ℕ} {I S : Type}

namespace Session

variable {k : ℕ} {s s₁ s₂ : Session n I S}

/-- A player whose events were taken out of the channel. -/
def drained (player : PlayerType I) : PlayerType I :=
  player.mapPeer fun peer => { peer with events.queue := [] }

theorem isLocal_drained (player : PlayerType I) : (drained player).isLocal = player.isLocal := by
  cases player <;> rfl

/-- Events are not measured. -/
theorem MeasuredAt.drained [Build] {frame : ℤ} (h : s.MeasuredAt frame)
    (hplayers : ∀ i, s₁.players i = Session.drained (s.players i)) : s₁.MeasuredAt frame := by
  intro hdebug
  obtain ⟨hframe, hpeers⟩ := h hdebug
  refine ⟨hframe, fun i peer' hp' => ?_⟩
  rw [hplayers i] at hp'
  cases hp : s.players i with
  | localPlayer =>
    rw [hp] at hp'
    cases hp'
  | remote peer =>
    rw [hp] at hp'
    obtain rfl := PlayerType.remote.inj hp'
    have hpeer := hpeers i peer hp
    exact ⟨hpeer.localAdvantage, hpeer.remoteAdvantage, hpeer.roundTripTime, hpeer.lastDecoded⟩

theorem isSynchronized_drained (player : PlayerType I) :
    (drained player).isSynchronized = player.isSynchronized := by
  cases player <;> rfl

theorem Steady.drain (hs : s.Settled) (queue : Fin n) : Steady 0 s
    { s with players := Function.update s.players queue (drained (s.players queue)) } := by
  refine .of_players hs (fun i => ?_) fun i => ?_
  · by_cases hi : i = queue
    · subst hi
      rw [Function.update_self]
      exact PlayerType.mapPeer_kept (fun _ => rfl) (fun _ => .refl _) fun _ h => h
    · simpa [hi] using PlayerType.Kept.refl _
  · by_cases hi : i = queue
    · subst hi
      rw [Function.update_self]
      cases s.players i <;> rfl
    · rw [Function.update_of_ne hi]

variable [Build]

theorem confirm_steady (hs : s.Settled) (frame : WithTop ℤ) :
    Ends (s.confirm frame) (fun sync => Steady 0 s { s with sync := sync }) fun _ => True := by
  unfold confirm
  split
  · refine .bind_any fun _ => ?_
    have hcount : Ends (s.sync.setLastConfirmedFrame (frame.untopD frameMax)) (fun sync =>
        sync.savedState = s.sync.savedState ∧ sync.frameCount = s.sync.frameCount)
        fun _ => True := by
      unfold Sync.setLastConfirmedFrame
      dsimp only
      split
      · exact .bind_any fun _ => ⟨rfl, rfl⟩
      · exact ⟨rfl, rfl⟩
    refine ((Sync.setLastConfirmedFrame_calm (fun _ => False) s.sync _).and hcount).imp fun sync hsync => ?_
    obtain ⟨hcalm, hsaved, hcount⟩ := hsync
    refine .of_sync hs hcalm (fun c => ?_) (by simp [hcount])
    rw [hsaved, hcount]
    exact hs.labelled c
  · exact .refl hs

variable [BEq I]

theorem handleInput_onward (hs : s.Settled) {queue : Fin n}
    (hin : (s.status queue).disconnected = false) (input : FrameInput I) :
    Ends (s.handleInput queue input) (fun s' => Onward 0 s s' ∧
      (s'.status queue).disconnected = false) fun _ => True := by
  unfold handleInput
  refine .bind_any fun _ => ?_
  have hadd : Ends (s.sync.addRemoteInput queue input) (fun sync =>
      sync.savedState = s.sync.savedState ∧ sync.frameCount = s.sync.frameCount) fun _ => True :=
    .bind_any fun _ => ⟨rfl, rfl⟩
  refine ((Sync.addRemoteInput_calm s.sync queue input).and hadd).bind fun sync hsync => ?_
  obtain ⟨hcalm, hsaved, hcount⟩ := hsync
  have hstep := Onward.of_add hs hin hcalm hsaved hcount
  have hin' : (({ s with sync := sync } : Session n I S).status queue).disconnected = false := by
    rw [status, hcalm.statuses]
    exact hin
  exact ⟨hstep.trans' (setLastFrame_onward hstep.settled hin' _), by simpa [setStatus, status] using hin'⟩

theorem handleEvent_onward (hs : s.Settled) (queue : Fin n) (evt : ProtocolEvent I) :
    Ends (s.handleEvent queue evt) (fun r => Onward 0 s r.2) fun _ => True := by
  cases evt with
  | connected => exact (Steady.refl hs).onward
  | synchronizing total count => exact (Steady.refl hs).onward
  | synchronized => exact (Steady.checkInitialSync hs).onward
  | networkInterrupted disconnectTimeout => exact (Steady.refl hs).onward
  | networkResumed => exact (Steady.refl hs).onward
  | inputs inputs =>
    simp only [handleEvent]
    split
    · exact (Steady.refl hs).onward
    · next hin =>
      refine (Fallible.walk_ends (fun _ s' => Onward 0 s s' ∧
        (s'.status queue).disconnected = false) ?_ ⟨(Steady.refl hs).onward, by simpa using hin⟩).bind
        fun s' hs' => hs'.1
      rintro input _ s' ⟨hon, hin'⟩
      exact (handleInput_onward hon.settled hin' input).imp fun s'' h => ⟨hon.trans' h.1, h.2⟩

variable [Zeroable I]

/-- A closed channel is found closed at every poll, and that is a disconnection each time. -/
theorem flushPeerEvents_onward (hs : s.Settled) {queue : Fin n}
    (hremote : (s.players queue).isLocal = false) (rx : Channel (ProtocolEvent I)) :
    Ends (s.flushPeerEvents queue rx) (fun r => Onward 0 s r.2 ∧ (rx.closed = true →
      (s.status queue).disconnected = false ∧ (r.2.status queue).disconnected = true))
      fun _ => True := by
  unfold flushPeerEvents
  dsimp only
  refine (Fallible.walk_ends (fun _ (r : List (Command I) × Session n I S) => Onward 0 s r.2) ?_
    (Steady.drain hs queue).onward).bind fun r hr => ?_
  · rintro evt _ ⟨commands, s₂⟩ hon
    exact (handleEvent_onward hon.settled queue evt).bind fun r hr => hon.trans' hr
  · obtain ⟨commands, s₂⟩ := r
    dsimp only at hr ⊢
    split
    · next hclosed =>
      have hremote₂ : (s₂.players queue).isLocal = false := by rw [(hr.kept queue).isLocal, hremote]
      refine (disconnectPlayer_remote hr.settled hremote₂).bind fun r₃ hr₃ => ?_
      obtain ⟨result, s₃⟩ := r₃
      cases result with
      | error err => trivial
      | ok more =>
        obtain ⟨hin, hremoved⟩ := hr₃
        refine ⟨hr.trans' (hremoved.onward hin), fun _ => ⟨?_, ?_⟩⟩
        · by_contra hd
          simp [hr.out queue (by simpa using hd)] at hin
        · dsimp only
          rw [status, hremoved.statuses, Function.update_self]
    · next hopen => exact ⟨hr, fun h => absurd h hopen⟩

theorem flushEvents_onward (hs : s.Settled) :
    Ends s.flushEvents (fun r => Onward 0 s r.2 ∧ ∀ i, s.Shut i →
      (s.status i).disconnected = false ∧ (r.2.status i).disconnected = true) fun _ => True := by
  unfold flushEvents
  refine (Fallible.forEach_ends (fun k (r : List (Command I) × Session n I S) => Onward 0 s r.2 ∧
    ∀ i : Fin n, i < k → s.Shut i →
      (s.status i).disconnected = false ∧ (r.2.status i).disconnected = true)
    ⟨(Steady.refl hs).onward, fun i hi => absurd hi (Nat.not_lt_zero _)⟩ ?_).imp fun r hr =>
    ⟨hr.1, fun i => hr.2 i i.isLt⟩
  rintro i ⟨commands, s₁⟩ ⟨hon, hdone⟩
  dsimp only at hon hdone ⊢
  have hlast : ∀ (s₂ : Session n I S) (j : Fin n), Onward 0 s₁ s₂ → j < i.val + 1 →
      (s.Shut i → (s.status i).disconnected = false ∧ (s₂.status i).disconnected = true) →
      s.Shut j → (s.status j).disconnected = false ∧ (s₂.status j).disconnected = true := by
    intro s₂ j hon₂ hj hi hshut
    rcases Nat.lt_succ_iff_lt_or_eq.mp hj with hlt | heq
    · exact ⟨(hdone j hlt hshut).1, hon₂.out j (hdone j hlt hshut).2⟩
    · obtain rfl : j = i := Fin.ext heq
      exact hi hshut
  cases hp : s₁.players i with
  | localPlayer =>
    refine ⟨hon, fun j hj => hlast s₁ j (Steady.refl hon.settled).onward hj fun hshut => ?_⟩
    obtain ⟨peer, hpeer, -⟩ := hon.shut hshut
    simp [hp] at hpeer
  | remote peer =>
    have hremote : (s₁.players i).isLocal = false := by rw [hp]; rfl
    refine (flushPeerEvents_onward hon.settled hremote peer.events).bind fun r hr => ?_
    refine ⟨hon.trans' hr.1, fun j hj => hlast r.2 j hr.1 hj fun hshut => ?_⟩
    obtain ⟨peer', hpeer', hclosed⟩ := hon.shut hshut
    obtain rfl := PlayerType.remote.inj (hp.symm.trans hpeer')
    obtain ⟨hin, hout⟩ := hr.2 hclosed
    refine ⟨?_, hout⟩
    by_contra hd
    simp [hon.out i (by simpa using hd)] at hin

theorem pollRunning_steady (hs : s.Settled) :
    Ends s.pollRunning (fun r => Steady 0 s r.2) fun _ => True := by
  refine pollRunning_ends (checkSimulation_steady hs) (fun _ _ => .inr trivial) (fun r hr => ?_)
    fun r hr frame _ => ?_
  · exact (tellFrame_steady hr.settled).settled
  · have htell := hr.trans (tellFrame_steady hr.settled)
    refine (confirm_steady htell.settled frame).imp fun sync hsync events _ sleep => ?_
    have hsteady := htell.trans hsync
    exact ⟨⟨⟨hsteady.settled.idle, hsteady.settled.labelled, hsteady.settled.home,
      hsteady.settled.own, hsteady.settled.shut, hsteady.settled.met⟩, hsteady.kept, hsteady.out,
      hsteady.running, hsteady.count⟩, hsteady.statuses, hsteady.stored, hsteady.pending⟩

/-- What a poll does about closed channels. -/
structure Polled (k : ℕ) (s s' : Session n I S) : Prop extends Onward k s s' where
  noticed : ∀ i, s.Shut i →
    (s.status i).disconnected = false ∧ (s'.status i).disconnected = true

theorem doPoll_polled (hs : s.Settled) :
    Ends s.doPoll (fun r => Polled 0 s r.2) fun _ => True := by
  unfold doPoll
  rw [if_neg (by simp [hs.idle])]
  refine (flushEvents_onward hs).bind fun r hr => ?_
  obtain ⟨commands, s₁⟩ := r
  dsimp only at hr ⊢
  split
  · exact ⟨hr.1, hr.2⟩
  · refine (pollRunning_steady hr.1.settled).bind fun r hr₂ => ?_
    have hon := hr.1.trans' hr₂.onward
    exact ⟨hon, fun i hi => ⟨(hr.2 i hi).1, hr₂.out i (hr.2 i hi).2⟩⟩

/-- `advance_frame` moves a running session one frame on, and polls. -/
theorem advanceFrame_polled (hs : s.Settled) :
    Ends s.advanceFrame (fun r => Polled (if s.synchronizing then 0 else 1) s r.2) fun _ => True := by
  unfold advanceFrame
  by_cases hsync : s.synchronizing = true
  · rw [if_neg (not_not.mpr hsync), if_pos hsync]
    exact (doPoll_polled hs).bind fun r hr => hr
  · rw [if_pos hsync, if_neg hsync]
    refine (incrementFrame_steady hs).bind fun r hr => ?_
    refine (doPoll_polled hr.settled).bind fun r₂ hr₂ => ?_
    have hon := hr.onward.trans hr₂.toOnward
    refine ⟨by simpa using hon, fun i hi => ?_⟩
    obtain ⟨hin, hout⟩ := hr₂.noticed i (hr.shut hi)
    refine ⟨?_, hout⟩
    by_contra hd
    simp [hr.out i (by simpa using hd)] at hin

end Session

end Backroll

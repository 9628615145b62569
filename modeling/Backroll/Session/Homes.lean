import Backroll.Session.Calls
import Backroll.Sync.Queues

/-! What the calls of a session do to the queues of its local players. Only `add_local_input`
adds an input to one of them. -/
namespace Backroll

open Fallible (Ends)

variable {n : ℕ} {I S : Type}

namespace Session

/-- Each local player stays one; its queue and what became of it. -/
def Homes (R : InputQueue I → InputQueue I → Prop) (s s' : Session n I S) : Prop :=
  ∀ i, (s.players i).isLocal = true → (s'.players i).isLocal = true ∧
    R (s.sync.inputQueues i) (s'.sync.inputQueues i)

variable {R : InputQueue I → InputQueue I → Prop} {s s₁ s₂ : Session n I S} {queue : Fin n}

theorem Homes.of_sync {sync : Sync n I S} (h : Sync.Queues R s.sync sync) :
    Homes R s { s with sync := sync } := fun i hi => ⟨hi, h i⟩

theorem isLocal_disconnect (player : PlayerType I) : player.disconnect.isLocal = player.isLocal := by
  cases player <;> rfl

variable [Build] [Zeroable I]

theorem Homes.trans (hR : InputQueue.Respects R) (h : Homes R s s₁) (h' : Homes R s₁ s₂) :
    Homes R s s₂ := fun i hi =>
  ⟨(h' i (h i hi).1).1, hR.trans (h i hi).2 (h' i (h i hi).1).2⟩

theorem Homes.refl (hR : InputQueue.Respects R) (s : Session n I S) : Homes R s s :=
  fun _ hi => ⟨hi, hR.refl _⟩

theorem Homes.of_players {players : Fin n → PlayerType I} (hR : InputQueue.Respects R)
    (h : ∀ i, (players i).isLocal = (s.players i).isLocal) :
    Homes R s { s with players := players } := fun i hi => ⟨(h i).trans hi, hR.refl _⟩

theorem Homes.update {player : PlayerType I} (hR : InputQueue.Respects R)
    (h : player.isLocal = (s.players queue).isLocal) :
    Homes R s { s with players := Function.update s.players queue player } := by
  refine .of_players hR fun i => ?_
  by_cases hi : i = queue
  · subst hi
    rw [Function.update_self, h]
  · rw [Function.update_of_ne hi]

theorem Homes.checkInitialSync (hR : InputQueue.Respects R) (s : Session n I S) :
    Homes R s s.checkInitialSync.2 := by
  unfold Session.checkInitialSync
  split
  · exact .refl hR s
  · exact .refl hR s

variable (hR : InputQueue.Respects R)
include hR

theorem disconnectPlayerQueue_homes (s : Session n I S) (queue : Fin n) (syncto : ℤ) :
    Ends (s.disconnectPlayerQueue queue syncto) (fun r => Homes R s r.2) fun _ => True := by
  have hdrop : Homes R s (s.drop queue syncto) := Homes.update hR (isLocal_disconnect _)
  unfold disconnectPlayerQueue
  change Ends (if syncto < s.sync.frameCount then
      (s.drop queue syncto).sync.adjustSimulation syncto >>= _ else _) _ _
  split
  · refine (Sync.adjustSimulation_queues hR _ syncto).bind fun r hr => ?_
    exact (hdrop.trans hR (.of_sync hr)).trans hR (.checkInitialSync hR _)
  · exact hdrop.trans hR (.checkInitialSync hR _)

theorem disconnectPlayer_homes (s : Session n I S) (player : ℕ) :
    Ends (s.disconnectPlayer player) (fun r => Homes R s r.2) fun _ => True := by
  unfold disconnectPlayer
  split
  · exact .refl hR s
  · next queue _ =>
    dsimp only
    split
    · exact .refl hR s
    · split
      · refine (Fallible.forEach_ends (fun _ (r : List (Command I) × Session n I S) =>
          Homes R s r.2) (.refl hR s) ?_).bind fun r hr => hr
        rintro i ⟨commands, s₁⟩ h
        dsimp only at h ⊢
        split
        · exact h
        · exact (disconnectPlayerQueue_homes hR s₁ i _).bind fun r hr => h.trans hR hr
      · exact (disconnectPlayerQueue_homes hR s queue _).bind fun r hr => hr

theorem setFrameDelay_homes (s : Session n I S) (player : ℕ) (delay : ℤ) :
    Ends (s.setFrameDelay player delay) (fun r => Homes R s r.2) fun _ => True := by
  unfold setFrameDelay
  split
  · exact .refl hR s
  · exact (Sync.setFrameDelay_queues hR _ _ delay).bind fun sync hr => .of_sync hr

variable [BEq I]

theorem handleInput_homes (s : Session n I S) (hremote : (s.players queue).isLocal = false)
    (input : FrameInput I) :
    Ends (s.handleInput queue input) (fun s' => Homes R s s' ∧ s'.players = s.players)
      fun _ => True := by
  have hadd : Ends (s.sync.addRemoteInput queue input) (fun sync => ∀ i, i ≠ queue →
      sync.inputQueues i = s.sync.inputQueues i) fun _ => True :=
    .bind_any fun r i hi => Function.update_of_ne hi _ _
  refine .bind_any fun _ => hadd.bind fun sync hsync => ⟨fun i hi => ⟨hi, ?_⟩, rfl⟩
  have hne : i ≠ queue := by
    rintro rfl
    simp [hi] at hremote
  show R _ (sync.inputQueues i)
  rw [hsync i hne]
  exact hR.refl _

theorem handleEvent_homes (s : Session n I S) (hremote : (s.players queue).isLocal = false)
    (evt : ProtocolEvent I) :
    Ends (s.handleEvent queue evt) (fun r => Homes R s r.2 ∧ r.2.players = s.players)
      fun _ => True := by
  cases evt with
  | connected => exact ⟨.refl hR s, rfl⟩
  | synchronizing total count => exact ⟨.refl hR s, rfl⟩
  | networkInterrupted disconnectTimeout => exact ⟨.refl hR s, rfl⟩
  | networkResumed => exact ⟨.refl hR s, rfl⟩
  | synchronized =>
    refine ⟨.checkInitialSync hR s, ?_⟩
    show s.checkInitialSync.2.players = s.players
    unfold checkInitialSync
    split <;> rfl
  | inputs inputs =>
    simp only [handleEvent]
    split
    · exact ⟨.refl hR s, rfl⟩
    · refine (Fallible.walk_ends (fun _ s' => Homes R s s' ∧ s'.players = s.players) ?_
        ⟨.refl hR s, rfl⟩).bind fun s' hs' => hs'
      rintro input _ s₁ ⟨h, hplayers⟩
      refine (handleInput_homes hR s₁ (by rw [hplayers, hremote]) input).imp fun s₂ h₂ => ?_
      exact ⟨h.trans hR h₂.1, h₂.2.trans hplayers⟩

theorem flushPeerEvents_homes (s : Session n I S) (hremote : (s.players queue).isLocal = false)
    (rx : Channel (ProtocolEvent I)) :
    Ends (s.flushPeerEvents queue rx) (fun r => Homes R s r.2) fun _ => True := by
  unfold flushPeerEvents
  dsimp only
  have hdrain : Homes R s
      { s with players := Function.update s.players queue (drained (s.players queue)) } :=
    .update hR (isLocal_drained _)
  refine (Fallible.walk_ends (fun _ (r : List (Command I) × Session n I S) => Homes R s r.2 ∧
    (r.2.players queue).isLocal = false) ?_ ⟨hdrain, ?_⟩).bind fun r hr => ?_
  · rintro evt _ ⟨commands, s₁⟩ ⟨h, hremote₁⟩
    refine (handleEvent_homes hR s₁ hremote₁ evt).bind fun r hr => ?_
    exact ⟨h.trans hR hr.1, by rw [hr.2, hremote₁]⟩
  · show ((Function.update s.players queue (drained (s.players queue)) queue)).isLocal = false
    rw [Function.update_self, isLocal_drained, hremote]
  · obtain ⟨commands, s₁⟩ := r
    dsimp only at hr ⊢
    split
    · refine (disconnectPlayer_homes hR s₁ queue).bind fun r₂ hr₂ => ?_
      obtain ⟨result, s₂⟩ := r₂
      cases result with
      | error err => trivial
      | ok more => exact hr.1.trans hR hr₂
    · exact hr.1

theorem flushEvents_homes (s : Session n I S) :
    Ends s.flushEvents (fun r => Homes R s r.2) fun _ => True := by
  unfold flushEvents
  refine Fallible.forEach_ends (fun _ (r : List (Command I) × Session n I S) => Homes R s r.2)
    (.refl hR s) ?_
  rintro i ⟨commands, s₁⟩ h
  dsimp only at h ⊢
  cases hp : s₁.players i with
  | localPlayer => exact h
  | remote peer =>
    exact (flushPeerEvents_homes hR s₁ (by rw [hp]; rfl) peer.events).bind fun r hr => h.trans hR hr

theorem pollRunning_homes (hs : s.Settled) :
    Ends s.pollRunning (fun r => Homes R s r.2) fun _ => True := by
  refine pollRunning_ends ((checkSimulation_steady hs).and (Sync.checkSimulation_queues hR _))
    (fun _ _ => .inr trivial) (fun r hr => (tellFrame_steady hr.1.settled).settled)
    fun r hr frame _ => ?_
  have hconfirm : Ends (({ s with sync := r.2 } : Session n I S).tellFrame.confirm frame)
      (Sync.Queues R r.2) fun _ => True := by
    unfold confirm
    split
    · exact .bind_any fun _ => Sync.setLastConfirmedFrame_queues hR _ _
    · exact .of_eq hR rfl
  refine hconfirm.imp fun sync hsync events _ sleep i hi => ⟨?_, hR.trans (hr.2 i) (hsync i)⟩
  show ((s.players i).mapPeer _).isLocal = true
  rw [← hi]
  cases s.players i <;> rfl

theorem doPoll_homes (hs : s.Settled) :
    Ends s.doPoll (fun r => Homes R s r.2) fun _ => True := by
  unfold doPoll
  rw [if_neg (by simp [hs.idle])]
  refine ((flushEvents_onward hs).and (flushEvents_homes hR s)).bind fun r hr => ?_
  obtain ⟨commands, s₁⟩ := r
  obtain ⟨hon, hflush⟩ := hr
  dsimp only at hon hflush ⊢
  split
  · exact hflush
  · exact (pollRunning_homes hR hon.1.settled).bind fun r hr => hflush.trans hR hr

theorem advanceFrame_homes (hs : s.Settled) :
    Ends s.advanceFrame (fun r => Homes R s r.2) fun _ => True := by
  unfold advanceFrame
  by_cases hsync : s.synchronizing = true
  · rw [if_neg (not_not.mpr hsync)]
    exact (doPoll_homes hR hs).bind fun r hr => hr
  · rw [if_pos hsync]
    refine ((incrementFrame_steady hs).and (Sync.incrementFrame_queues hR _)).bind fun r hr => ?_
    have hstep : Homes R s { s with sync := r.2 } := .of_sync hr.2
    exact (doPoll_homes hR hr.1.settled).bind fun r₂ hr₂ => hstep.trans hR hr₂

end Session

end Backroll

import Backroll.Session.Calls
import Backroll.Sync.FrameInputs

/-! The inputs of a frame in the sessions that the builder accepts. It takes any number of
players, the record of a frame eight. -/
namespace Backroll

open Fallible (Ends)

variable {n : ℕ} {I S : Type}

namespace Session

section Steps

variable [Build] [Zeroable I] [BEq I]

/-- The `Sync` of the session goes from one state to another, step by step. -/
def Reaches (s s' : Session n I S) : Prop := s.sync.Reaches s'.sync

variable {s s₁ s₂ : Session n I S}

theorem Reaches.trans (h : Reaches s s₁) (h' : Reaches s₁ s₂) : Reaches s s₂ :=
  Relation.ReflTransGen.trans h h'

theorem Reaches.of_sync (h : s₁.sync = s.sync) : Reaches s s₁ := by
  rw [Reaches, h]

theorem Reaches.setStatus (s : Session n I S) (i : Fin n) (status : ConnectionStatus) :
    Reaches s (s.setStatus i status) := .single (.statuses s.sync _)

theorem Reaches.checkInitialSync (s : Session n I S) : Reaches s s.checkInitialSync.2 := by
  unfold Session.checkInitialSync
  split <;> exact .of_sync rfl

theorem disconnectPlayerQueue_reaches (s : Session n I S) (queue : Fin n) (syncto : ℤ) :
    Ends (s.disconnectPlayerQueue queue syncto) (fun r => Reaches s r.2) fun _ => True := by
  have hdrop : Reaches s (s.drop queue syncto) := .single (.statuses s.sync _)
  unfold disconnectPlayerQueue
  change Ends (if syncto < s.sync.frameCount then
      (s.drop queue syncto).sync.adjustSimulation syncto >>= _ else _) _ _
  split
  · refine (Sync.adjustSimulation_reaches _ syncto).bind fun r hr => ?_
    have hadjust : Reaches s { s.drop queue syncto with sync := r.2 } :=
      Relation.ReflTransGen.trans hdrop hr
    exact hadjust.trans (.checkInitialSync _)
  · exact hdrop.trans (.checkInitialSync _)

theorem disconnectPlayer_reaches (s : Session n I S) (player : ℕ) :
    Ends (s.disconnectPlayer player) (fun r => Reaches s r.2) fun _ => True := by
  unfold disconnectPlayer
  split
  · exact .of_sync rfl
  · next queue _ =>
    dsimp only
    split
    · exact .of_sync rfl
    · split
      · refine (Fallible.forEach_ends (fun _ (r : List (Command I) × Session n I S) =>
          Reaches s r.2) (.of_sync rfl) ?_).bind fun r hr => hr
        rintro i ⟨commands, s₁⟩ h
        dsimp only at h ⊢
        split
        · exact h
        · exact (disconnectPlayerQueue_reaches s₁ i _).bind fun r hr => h.trans hr
      · exact (disconnectPlayerQueue_reaches s queue _).bind fun r hr => hr

theorem handleInput_reaches (s : Session n I S) (queue : Fin n) (input : FrameInput I) :
    Ends (s.handleInput queue input) (Reaches s) fun _ => True := by
  refine .bind_any fun _ => (Ends.of_forall fun sync hsync => hsync).bind fun sync hsync => ?_
  have hadd : Reaches s { s with sync := sync } := .single (.addRemoteInput _ _ _ _ hsync)
  exact hadd.trans (.setStatus _ queue _)

theorem handleEvent_reaches (s : Session n I S) (queue : Fin n) (evt : ProtocolEvent I) :
    Ends (s.handleEvent queue evt) (fun r => Reaches s r.2) fun _ => True := by
  cases evt with
  | connected | synchronizing | networkInterrupted | networkResumed => exact .of_sync rfl
  | synchronized => exact .checkInitialSync s
  | inputs inputs =>
    simp only [handleEvent]
    split
    · exact .of_sync rfl
    · refine (Fallible.walk_ends (fun _ s' => Reaches s s') ?_ (.of_sync rfl)).bind
        fun s' hs' => hs'
      intro input _ s₁ h
      exact (handleInput_reaches s₁ queue input).imp fun _ h₁ => h.trans h₁

theorem flushPeerEvents_reaches (s : Session n I S) (queue : Fin n)
    (rx : Channel (ProtocolEvent I)) :
    Ends (s.flushPeerEvents queue rx) (fun r => Reaches s r.2) fun _ => True := by
  unfold flushPeerEvents
  refine (Fallible.walk_ends (fun _ (r : List (Command I) × Session n I S) => Reaches s r.2) ?_
    (.of_sync rfl)).bind fun r hr => ?_
  · rintro evt _ ⟨commands, s₁⟩ h
    exact (handleEvent_reaches s₁ queue evt).bind fun r hr => h.trans hr
  · obtain ⟨commands, s₁⟩ := r
    dsimp only at hr ⊢
    split
    · refine (disconnectPlayer_reaches s₁ queue).bind fun r₂ hr₂ => ?_
      obtain ⟨result, s₂⟩ := r₂
      cases result with
      | error err => trivial
      | ok more => exact hr.trans hr₂
    · exact hr

theorem flushEvents_reaches (s : Session n I S) :
    Ends s.flushEvents (fun r => Reaches s r.2) fun _ => True := by
  unfold flushEvents
  refine Fallible.forEach_ends (fun _ (r : List (Command I) × Session n I S) => Reaches s r.2)
    (.of_sync rfl) ?_
  rintro i ⟨commands, s₁⟩ h
  dsimp only at h ⊢
  split
  · exact h
  · exact (flushPeerEvents_reaches s₁ i _).bind fun r hr => h.trans hr

theorem pollRunning_reaches (hs : s.Settled) :
    Ends s.pollRunning (fun r => Reaches s r.2) fun _ => True := by
  refine pollRunning_ends ((checkSimulation_steady hs).and (Sync.checkSimulation_reaches _))
    (fun _ _ => .inr trivial) (fun r hr => (tellFrame_steady hr.1.settled).settled)
    fun r hr frame _ => ?_
  have hconfirm : Ends (({ s with sync := r.2 } : Session n I S).tellFrame.confirm frame)
      (fun sync => r.2.Reaches sync) fun _ => True := by
    unfold confirm
    split
    · exact .bind_any fun _ => .of_forall fun sync h =>
        .single (.setLastConfirmedFrame r.2 _ sync h)
    · exact .refl
  exact hconfirm.imp fun sync hsync events _ sleep => hr.2.trans hsync

theorem doPoll_reaches (hs : s.Settled) :
    Ends s.doPoll (fun r => Reaches s r.2) fun _ => True := by
  unfold doPoll
  rw [if_neg (by simp [hs.idle])]
  refine ((flushEvents_onward hs).and (flushEvents_reaches s)).bind fun r hr => ?_
  obtain ⟨commands, s₁⟩ := r
  obtain ⟨hon, hflush⟩ := hr
  dsimp only at hon hflush ⊢
  split
  · exact hflush
  · exact (pollRunning_reaches hon.1.settled).bind fun r hr => hflush.trans hr

theorem advanceFrame_reaches (hs : s.Settled) :
    Ends s.advanceFrame (fun r => Reaches s r.2) fun _ => True := by
  unfold advanceFrame
  by_cases hsync : s.synchronizing = true
  · rw [if_neg (not_not.mpr hsync)]
    exact (doPoll_reaches hs).bind fun r hr => hr
  · rw [if_pos hsync]
    refine ((incrementFrame_steady hs).and (Sync.incrementFrame_reaches _)).bind fun r hr => ?_
    have hstep : Reaches s { s with sync := r.2 } := hr.2
    exact (doPoll_reaches hr.1.settled).bind fun r₂ hr₂ => hstep.trans hr₂

end Steps

variable [Build] [BEq I] [Varinteger] [Pod I] {s : Session n I S}

theorem addLocalInput_reaches (s : Session n I S) (player : ℕ) (input : I) :
    Ends (s.addLocalInput player input) (fun r => Reaches s r.2) fun _ => True := by
  unfold addLocalInput
  split
  · exact .of_sync rfl
  · split
    · exact .of_sync rfl
    · split
      · exact .of_sync rfl
      · next queue _ =>
        dsimp only
        split
        · trivial
        refine (Ends.of_forall fun r hr => hr).bind fun r hr => ?_
        obtain ⟨result, sync⟩ := r
        have hadd : Reaches s { s with sync := sync } := .single (.addLocalInput _ _ _ _ _ hr)
        cases result with
        | error err => exact .of_sync rfl
        | ok frame =>
          dsimp only
          split
          · refine (sendInput_handsOn _ _).bind fun s' hs' => ?_
            rw [hs'.1]
            exact hadd.trans (.setStatus _ queue _)
          · exact hadd

/-- Every call is made up of steps of the `Sync`. -/
theorem make_reaches (hs : s.Settled) (c : Call I) :
    Ends (s.make c) (fun r => Reaches s r.2) fun _ => True := by
  cases c with
  | poll => exact doPoll_reaches hs
  | advanceFrame => exact advanceFrame_reaches hs
  | addLocalInput player input =>
    exact (addLocalInput_reaches s player input).bind fun r hr => hr
  | disconnectPlayer player =>
    refine (disconnectPlayer_reaches s player).bind fun r hr => ?_
    dsimp only
    split <;> exact hr
  | setFrameDelay player delay =>
    unfold make setFrameDelay
    dsimp only
    split
    · exact .of_sync rfl
    · rw [bind_assoc]
      refine (Ends.of_forall fun sync h => h).bind fun sync h => ?_
      exact Relation.ReflTransGen.single (Sync.Step.setFrameDelay s.sync _ _ sync h)

end Session

namespace Host

section Reachable

variable [Client I S] [Build] [BEq I] [Varinteger] [Pod I] {h : Host n I S}

/-- Whatever the client and the peers do, the `Sync` of a session goes its steps from the one
the builder made. -/
theorem reachable_reaches (hr : Reachable h) :
    ∃ (players : Fin n → Player) (delay : ℤ) (randoms : Fin n → ℕ) (s : Session n I S),
      Session.new players delay randoms = .ok s ∧ s.Reaches h.session := by
  induction hr with
  | start players delay randoms s state hnew => exact ⟨players, delay, randoms, s, hnew, .refl⟩
  | call h c h' hh hcall ih =>
    obtain ⟨players, delay, randoms, s, hnew, hreach⟩ := ih
    obtain ⟨commands, s', frames, state, hmake, -, rfl⟩ := call_eq_ok hcall
    have hcall := (Session.make_reaches (reachable_settled hh).1 c).ok hmake
    exact ⟨players, delay, randoms, s, hnew, (hreach.trans hcall).tail (.frames s'.sync frames)⟩
  | interfere h events s' _ hs ih =>
    obtain ⟨players, delay, randoms, s, hnew, hreach⟩ := ih
    exact ⟨players, delay, randoms, s, hnew, hreach.trans (.of_sync hs.sync)⟩

/-- In a state of a reachable session, or of a call under way in one, the inputs of the frame
can be gathered, and say of every player what is to be said, just when there are at most eight
players and each queue that is asked can answer. -/
theorem reachable_synchronizes_iff (hr : Reachable h) {s : Sync n I S}
    (hs : h.session.sync.Reaches s) :
    s.Synchronizes ↔ n ≤ maxPlayers ∧ ∀ i, s.isDisconnected i = false →
      (s.inputQueues i).Serves s.frameCount := by
  obtain ⟨players, delay, randoms, t, hnew, hreach⟩ := reachable_reaches hr
  have hfresh : t.sync.Consistent := by
    unfold Session.new at hnew
    dsimp only at hnew
    split at hnew
    · simp at hnew
    · obtain rfl := Except.ok.inj hnew
      exact fun _ => InputQueue.consistent_new delay
  exact Sync.synchronizes_iff (Sync.Reaches.consistent (Relation.ReflTransGen.trans hreach hs) hfresh)

end Reachable

theorem reachable_synchronizes_iff_pair :
    letI : Build := ⟨true⟩
    letI := Varinteger.leb128
    letI := countingClient
    connectedPair.session.sync.Synchronizes ↔ 2 ≤ maxPlayers ∧
      ∀ i, connectedPair.session.sync.isDisconnected i = false →
        (connectedPair.session.sync.inputQueues i).Serves connectedPair.session.sync.frameCount :=
  letI : Build := ⟨true⟩
  letI := Varinteger.leb128
  letI := countingClient
  reachable_synchronizes_iff connectedPair_reachable .refl

/-- Nine local players are accepted, and the session runs at once. Its first frame panics. -/
theorem not_synchronizes_nine :
    letI : Build := ⟨true⟩
    letI := Varinteger.leb128
    letI := countingClient
    ∃ h : Host 9 UInt8 ℕ, Reachable h ∧ h.session.synchronizing = false ∧
      h.session.make .advanceFrame = .error .indexOutOfBounds ∧ ¬h.session.sync.Synchronizes :=
  letI : Build := ⟨true⟩
  letI := Varinteger.leb128
  letI := countingClient
  have hstart : Reachable (⟨_, 0⟩ : Host 9 UInt8 ℕ) :=
    .start (fun _ => .localPlayer) 0 (fun _ => 0) _ 0 rfl
  ⟨_, hstart, rfl, rfl, fun h => by
    obtain ⟨inputs, s', hok, -⟩ := h
    cases hok⟩

end Host

end Backroll

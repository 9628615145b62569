import Backroll.Session.Mesh

/-! What holds of all sessions of a game together: they agree on what is confirmed, none runs away
from the others, and no call fails. -/
namespace Backroll

open Fallible (Ends)

variable {n : ℕ} {I S : Type}

namespace Mesh

variable {r : Rules n S} {m : Mesh n I S} {a : Fin n → Fin n → ReliableStream.State I}

section Agreement

variable [Build] [BEq I] [Client I S] [Varinteger] [Pod I]

/-- The players agree on the confirmed frames, and on the states before and after them. -/
structure Agreed (r : Rules n S) (m : Mesh n I S) : Prop where
  told : ∀ i frame, m.Confirmed i frame →
    lastAdvance (m.play i).issued frame = some ((r.setup i).inputsAt m.truth frame)
  same : ∀ i j frame, m.Confirmed i frame → m.Confirmed j frame →
    lastAdvance (m.play i).issued frame = lastAdvance (m.play j).issued frame
  saved : ∀ i c (frame : ℕ), (∀ f < frame, m.Confirmed i f) →
    (m.play i).lastConfirmedFrame ≤ frame → 0 < (m.play i).frameCount →
    ((m.play i).session.sync.savedState.frames c).frame = frame →
    frame ≤ (m.play i).frameCount →
    ((m.play i).session.sync.savedState.frames c).data = some ((r.setup i).lockstep m.truth frame)
  state : ∀ i (frame : ℕ), (∀ f < frame, m.Confirmed i f) → (m.play i).frameCount = frame →
    (m.play i).host.state = (r.setup i).lockstep m.truth frame

/-- What a session has of a player is what that has given. -/
theorem Inv.truth_prefix (h : Inv r m a) (i k : Fin n) : (m.play i).given k <+: m.truth k := by
  by_cases hk : k = i
  · subst hk
    exact List.prefix_rfl
  · rw [h.received i k (Ne.symm hk), truth, ← h.sent k i hk]
    exact (ReliableStream.reachable_inv (h.reachable k i hk)).delivered

theorem Inv.inputsAt_eq (h : Inv r m a) {i : Fin n} {g : Standpoint n I} {v : View I S}
    (hi : Play.Inv (r.setup i) (m.play i) g v) {frame : ℕ} (hf : m.Confirmed i frame) :
    (r.setup i).inputsAt g.given frame = (r.setup i).inputsAt m.truth frame :=
  Setup.inputsAt_of_prefix _ (fun k => (hi.given_prefix k).trans (h.truth_prefix i k))
    (hi.confirmed_lt hf.1 hf.2)

/-- The state before a frame, when all frames before it are confirmed. -/
theorem Inv.replay_eq [LawfulBEq I] (h : Inv r m a) {i : Fin n} {g : Standpoint n I} {v : View I S}
    (hi : Play.Inv (r.setup i) (m.play i) g v) {frame : ℕ} (hf : ∀ f < frame, m.Confirmed i f) :
    replay r.init v.used frame = (r.setup i).lockstep m.truth frame := by
  refine (replay_congr fun f hlt => ?_).symm
  have hlt' := (hf f hlt).2
  rw [hi.frameCount] at hlt'
  rw [← h.inputsAt_eq hi (hf f hlt),
    hi.stage.core.used_eq trivial hi.unmarked hi.stage.connected (by omega)]

theorem reachable_agreed [LawfulBEq I] (hm : Reachable r m) (hV : Varinteger.RoundTrips)
    (hI : 0 < Pod.size I) : m.Agreed r := by
  obtain ⟨a, h⟩ := reachable_inv hm hV hI
  have htold : ∀ i frame, m.Confirmed i frame →
      lastAdvance (m.play i).issued frame = some ((r.setup i).inputsAt m.truth frame) := by
    intro i frame hf
    obtain ⟨g, v, hi⟩ := h.play i
    rw [hi.lastAdvance_eq trivial hf.2, h.inputsAt_eq hi hf]
  refine ⟨htold, fun i j frame hi hj => ?_, fun i c frame hf hle hpos hlabel hcur => ?_,
    fun i frame hf hcur => ?_⟩
  · rw [htold i frame hi, htold j frame hj]
    rfl
  · obtain ⟨g, v, hi⟩ := h.play i
    have hcount := hi.frameCount
    have hfloor : (m.play i).lastConfirmedFrame.toNat = g.floor := hi.stage.core.confirmed
    have hring := hi.stage.core.stands.ring (by omega)
    have hdata := hring.data frame c (by omega) (by omega) hlabel
    rw [hi.cells] at hdata
    exact hdata.trans (congrArg some (h.replay_eq hi hf))
  · obtain ⟨g, v, hi⟩ := h.play i
    have hcount := hi.frameCount
    obtain rfl : g.cur = frame := by omega
    rw [← hi.state, hi.stage.core.stands.state]
    exact h.replay_eq hi hf

end Agreement

section Example

attribute [local instance] debugBuild Varinteger.leb128 countingClient

/-- Two players have simulated and confirmed the first frame. -/
theorem reachable_agreed_pair : ∃ m : Mesh 2 UInt8 ℕ, m.Confirmed 0 0 ∧ m.Confirmed 1 0 ∧
    m.truth = (fun i => if i = 0 then [3] else [5]) ∧ m.Agreed pairRules := by
  obtain ⟨m, hm, h0, h1, htruth⟩ := met_pair_reachable
  exact ⟨m, h0, h1, htruth, reachable_agreed hm Varinteger.leb128_roundTrips (by decide)⟩

end Example

section Bounds

variable [Build] [BEq I] [Client I S] [Varinteger] [Pod I]

/-- No player is far ahead of another, and no buffer grows without end. -/
structure Bounded (m : Mesh n I S) : Prop where
  drift : ∀ i j, (m.play i).frameCount ≤ (m.play j).frameCount + maxPredictionFrames
  pending : ∀ i j, i ≠ j →
    (m.tasks i j).peer.inputEncoder.pending.length < 2 * maxPredictionFrames
  queues : ∀ i k, ((m.play i).session.sync.inputQueues k).length ≤ maxRollbackFrames

theorem Inv.pending_lt (h : Inv r m a) {i j : Fin n} (hij : i ≠ j) :
    (m.tasks i j).peer.inputEncoder.pending.length < 2 * maxPredictionFrames := by
  obtain ⟨g, v, hi⟩ := h.play i
  have hahead := hi.own_ahead (i := i) (j := j) (by simp [setup_locals])
    (by simp [setup_locals, hij.symm])
  rw [h.received i j hij, ← h.sent i j hij] at hahead
  have hserves := h.serves i j hij
  have hnear := hserves.near
  have hencoder : _ = framed _ _ := hserves.encoder
  rw [hencoder]
  rw [length_framed, List.length_drop]
  have h8 : maxPredictionFrames = 8 := rfl
  omega

theorem reachable_bounded (hm : Reachable r m) (hV : Varinteger.RoundTrips) (hI : 0 < Pod.size I) :
    m.Bounded := by
  obtain ⟨a, h⟩ := reachable_inv hm hV hI
  refine ⟨fun i j => ?_, fun i j hij => h.pending_lt hij, fun i k => ?_⟩
  · by_cases hij : i = j
    · subst hij
      omega
    · obtain ⟨g, v, hi⟩ := h.play i
      obtain ⟨g', v', hj⟩ := h.play j
      have hspan := hi.own_span (i := i) (by simp [setup_locals])
      have hspan' := hj.own_span (i := j) (by simp [setup_locals])
      have hahead := hi.own_ahead (i := i) (j := j) (by simp [setup_locals])
        (by simp [setup_locals, Ne.symm hij])
      have hstart : ((m.play i).given j).length ≤ ((m.play j).given j).length :=
        (h.truth_prefix i j).length_le
      have hcount := hj.frameCount
      omega
  · obtain ⟨g, v, hi⟩ := h.play i
    exact hi.queue_length trivial k

end Bounds

section Example

attribute [local instance] debugBuild Varinteger.leb128 countingClient

theorem reachable_bounded_pair : ∃ m : Mesh 2 UInt8 ℕ, m.Confirmed 0 0 ∧ m.Confirmed 1 0 ∧
    m.Bounded := by
  obtain ⟨m, hm, h0, h1, -⟩ := met_pair_reachable
  exact ⟨m, h0, h1, reachable_bounded hm Varinteger.leb128_roundTrips (by decide)⟩

end Example

section Calls

variable [Build] [BEq I] [Client I S] [Varinteger] [Pod I]

/-- No call of a client panics as long as what was measured of the peers is moderate, and no input
stays unsent. -/
structure Unfailing (r : Rules n S) (m : Mesh n I S) (i : Fin n) : Prop where
  poll : (m.play i).session.Moderate →
    Ends ((m.play i).host.call .poll) (fun _ => True) fun _ => False
  advanceFrame : (m.play i).session.Moderate → (m.play i).Ready (r.setup i) →
    Ends ((m.play i).host.call .advanceFrame) (fun _ => True) fun _ => False
  addLocalInput : ((m.play i).given i).length = (m.play i).frameCount → ∀ input,
    Ends ((m.play i).session.addLocalInput i input) (fun _ => True) fun _ => False
  resendInputs : ∀ j, i ≠ j → ∀ now,
    Ends ((m.tasks i j).peer.resendInputs now (m.play i).session.statuses)
      (fun resent => resent.1 = .ok ()) fun _ => False

theorem reachable_unfailing (hm : Reachable r m) (hV : Varinteger.RoundTrips)
    (hI : 0 < Pod.size I) (hsize : 2 * maxPredictionFrames * Pod.size I < maxBufferSize) (i : Fin n) :
    m.Unfailing r i := by
  obtain ⟨a, h⟩ := reachable_inv hm hV hI
  obtain ⟨g, v, hi⟩ := h.play i
  have hcur : (m.play i).session.sync.frameCount = g.cur := hi.frameCount
  have hcount : 0 ≤ (m.play i).session.sync.frameCount := by omega
  have hfits : ∀ j, i ≠ j → ((m.tasks i j).peer.inputEncoder.pending.length + 1) * Pod.size I <
      maxBufferSize := fun j hij =>
    (Nat.mul_le_mul_right _ (h.pending_lt hij)).trans_lt hsize
  refine ⟨fun hm => hi.call_poll.mono (fun _ _ => trivial) fun e he =>
      (hm.measuredAt hcount (by omega)).not_pollFault trivial he,
    fun hm hready => (hi.call_advanceFrame hready).mono (fun _ _ => trivial) fun e he =>
      (hm.measuredAt (by omega) le_rfl).not_pollFault trivial he, fun honce input =>
    hi.addLocalInput_ends trivial (by simp [setup_locals]) honce input fun j peer hp statuses => ?_,
    fun j hij now => (h.serves i j hij).resendInputs_ends hV hI
      ((Nat.mul_le_mul_right _ (Nat.le_succ _)).trans_lt (hfits j hij)) now _⟩
  by_cases hij : i = j
  · subst hij
    have hlocal := hi.stage.locals i
    rw [hp] at hlocal
    simp [setup_locals, PlayerType.isLocal, PlayerType.peer?] at hlocal
  · obtain rfl := PlayerType.remote.inj ((h.joined i j hij).symm.trans hp)
    rw [← honce, show ((m.play i).given i).length = (a i j).log.length by rw [h.sent i j hij]]
    have hserves := (h.serves i j hij).setStatuses (List.replicate n {})
    exact (hserves.sendInput_ends hV hI (h.reachable i j hij) (hfits j hij) statuses input).imp
      fun _ _ => trivial

end Calls

section Example

attribute [local instance] debugBuild Varinteger.leb128 countingClient

theorem reachable_unfailing_pair : ∃ m : Mesh 2 UInt8 ℕ, m.Confirmed 0 0 ∧ m.Confirmed 1 0 ∧
    m.Unfailing pairRules 0 := by
  obtain ⟨m, hm, h0, h1, -⟩ := met_pair_reachable
  exact ⟨m, h0, h1, reachable_unfailing hm Varinteger.leb128_roundTrips (by decide) (by decide) 0⟩

end Example

end Mesh

end Backroll

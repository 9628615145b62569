import Backroll.Protocol.Peer

/-! What a poll computes of a peer's frame advantages: the arithmetic fits its type as long as the
measurements are moderate, and otherwise fails only where the profile checks it. -/
namespace Backroll

open Fallible (Ends)

namespace Peer

variable {I : Type}

/-- The peer once it is told the frame, with what the arithmetic gives where it does not fail. -/
def atFrame (p : Peer I) (localFrame : ℤ) : Peer I :=
  { p with stats := { p.stats with localFrameAdvantage := wrapI32 (wrapI32 (p.inputDecoder.lastDecoded +
      asI32 (p.stats.roundTripTime / 1000 / 2 * 60)) - localFrame) } }

/-- Advantages, a round trip and a frame that are far from the bounds of their types. -/
structure Moderate (p : Peer I) : Prop where
  localAdvantage : ∀ k, |p.timesync.localAdvantage k| ≤ 2 ^ 25
  remoteAdvantage : ∀ k, |p.timesync.remoteAdvantage k| ≤ 2 ^ 25
  roundTripTime : p.stats.roundTripTime < 2 ^ 33
  lastDecoded : |p.inputDecoder.lastDecoded| < 2 ^ 30

theorem Moderate.atFrame {p : Peer I} (h : p.Moderate) (localFrame : ℤ) :
    (p.atFrame localFrame).Moderate :=
  ⟨h.localAdvantage, h.remoteAdvantage, h.roundTripTime, h.lastDecoded⟩

variable [Build]

theorem setLocalFrameNumber_ends (p : Peer I) (localFrame : ℤ) :
    Ends (p.setLocalFrameNumber localFrame) (fun p' => p' = p.atFrame localFrame) fun e =>
      e = .arithmeticOverflow ∧ Build.debugAssertions = true ∧
        ¬(|localFrame| ≤ 2 ^ 29 ∧ p.Moderate) := by
  unfold setLocalFrameNumber setLocalFrameNumberWith
  have hspan : p.Moderate → wrapI32 (p.inputDecoder.lastDecoded +
      asI32 (p.stats.roundTripTime / 1000 / 2 * 60)) = p.inputDecoder.lastDecoded +
        (p.stats.roundTripTime / 1000 / 2 * 60 : ℕ) ∧
      InI32 (p.inputDecoder.lastDecoded + asI32 (p.stats.roundTripTime / 1000 / 2 * 60)) := by
    intro h
    have htrip := h.roundTripTime
    have hdecoded := abs_lt.mp h.lastDecoded
    rw [asI32_of_lt (by omega)]
    have hrange : InI32 (p.inputDecoder.lastDecoded + (p.stats.roundTripTime / 1000 / 2 * 60 : ℕ)) :=
      ⟨by omega, by omega⟩
    exact ⟨wrapI32_of hrange, hrange⟩
  refine ((i32_ends _).mono (fun _ hr => hr) ?_).bind fun remoteFrame hremote =>
    ((i32_ends _).mono (fun _ hr => hr) ?_).bind fun advantage hadvantage => ?_
  · rintro e ⟨rfl, hdebug, hnot⟩
    exact ⟨rfl, hdebug, fun h => hnot (hspan h.2).2⟩
  · rintro e ⟨rfl, hdebug, hnot⟩
    refine ⟨rfl, hdebug, fun h => hnot ?_⟩
    have hframe := abs_le.mp h.1
    have htrip := h.2.roundTripTime
    have hdecoded := abs_lt.mp h.2.lastDecoded
    rw [hremote, (hspan h.2).1]
    exact ⟨by omega, by omega⟩
  · subst hremote hadvantage
    rfl

theorem recommendFrameDelay_ends [BEq I] (p : Peer I) : Ends p.recommendFrameDelay (fun _ => True)
    fun e => e = .arithmeticOverflow ∧ Build.debugAssertions = true ∧ ¬p.Moderate := by
  have hsums : ∀ f : Fin frameWindowSize → ℤ, (∀ k, |f k| ≤ 2 ^ 25) → Sums (List.ofFn f) := by
    intro f hf
    refine sums_of_le (b := 2 ^ 25) (fun x hx => ?_) (by rw [List.length_ofFn]; norm_num)
    obtain ⟨k, rfl⟩ := (List.mem_ofFn' f x).mp hx
    exact hf k
  refine ((sumI32_ends _).mono (fun _ hr => hr) ?_).bind fun sum _ =>
    ((sumI32_ends _).mono (fun _ hr => hr) ?_).bind fun rsum _ => trivial
  · rintro e ⟨rfl, hdebug, hnot⟩
    exact ⟨rfl, hdebug, fun h => hnot (hsums _ h.localAdvantage)⟩
  · rintro e ⟨rfl, hdebug, hnot⟩
    exact ⟨rfl, hdebug, fun h => hnot (hsums _ h.remoteAdvantage)⟩

end Peer

end Backroll

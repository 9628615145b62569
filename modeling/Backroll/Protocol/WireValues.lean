import Backroll.Protocol.Arithmetic
import Backroll.Protocol.Magic
import Backroll.Protocol.Untrusted

/-! Which values off the wire make an integer operation overflow: a time of the future, an end of the
range of frames, and frame advantages that add up to too much. -/
namespace Backroll

open Fallible (Ends walk bind_eq_ok)

section Checks

variable {I : Type}

theorem checkedSub_of {a b : ℕ} (h : b ≤ a) : checkedSub a b = .ok (a - b) := if_pos h

theorem checkedSub_of_not {a b : ℕ} (h : ¬b ≤ a) : checkedSub a b = .error .arithmeticOverflow := if_neg h

theorem numberInputs_spec {startFrame : ℤ} (hstart : -2 ^ 31 ≤ startFrame) (inputs : List I) {i : ℕ}
    (hi : startFrame + i ≤ 2 ^ 31) (hlen : i + inputs.length ≤ 2 ^ 31) :
    (startFrame + (i + inputs.length : ℕ) ≤ 2 ^ 31 → numberInputs startFrame i inputs =
      .ok ((inputs.zipIdx i).map fun x => (⟨startFrame + x.2, x.1⟩ : FrameInput I))) ∧
    (¬startFrame + (i + inputs.length : ℕ) ≤ 2 ^ 31 →
      numberInputs startFrame i inputs = .error .arithmeticOverflow) := by
  induction inputs generalizing i with
  | nil => exact ⟨fun _ => rfl, fun h => absurd hi h⟩
  | cons input inputs ih =>
    rw [List.length_cons] at hlen ⊢
    rw [numberInputs, asI32_of_lt (by omega)]
    by_cases hframe : startFrame + i < 2 ^ 31
    · obtain ⟨hok, herror⟩ := ih (i := i + 1) (by push_cast; omega) (by omega)
      rw [checkI32_of ⟨by omega, hframe⟩, Fallible.ok_bind, show i + (inputs.length + 1) =
        i + 1 + inputs.length by omega]
      refine ⟨fun h => ?_, fun h => ?_⟩
      · rw [hok h]
        rfl
      · rw [herror h]
        rfl
    · rw [checkI32_of_not fun h => hframe h.2]
      exact ⟨fun h => by push_cast at h; omega, fun _ => rfl⟩

end Checks

section Lengths

theorem length_writeAt {bitfield bits out : List UInt8} {ptr : ℕ}
    (h : Bitfield.writeAt bitfield ptr bits = .ok out) : out.length = bitfield.length := by
  by_cases hfits : bits = [] ∨ ptr + bits.length ≤ bitfield.length
  · rcases hfits with rfl | hfits
    · exact congrArg List.length (Except.ok.inj h).symm
    · obtain ⟨out', hout, hlength⟩ := Bitfield.writeAt_total hfits
      cases hout.symm.trans h
      exact hlength
  · rw [not_or] at hfits
    rw [Bitfield.writeAt, if_neg hfits.1, if_neg hfits.2] at h
    cases h

theorem length_writeRun {buf bitfield out : List UInt8} {offset next ptr : ℕ}
    (h : Bitfield.writeRun buf offset next ptr bitfield = .ok out) : out.length = bitfield.length := by
  unfold Bitfield.writeRun at h
  split_ifs at h
  · exact length_writeAt h
  · exact congrArg List.length (Except.ok.inj h).symm
  · obtain ⟨dst, -, h⟩ := bind_eq_ok.mp h
    obtain ⟨src, -, h⟩ := bind_eq_ok.mp h
    split_ifs at h
    exact length_writeAt h

variable [Varinteger]

theorem length_decodeLoop {buf bitfield out : List UInt8} {fuel offset ptr behind : ℕ}
    (h : Bitfield.decodeLoop buf fuel offset ptr bitfield = .ok (out, behind)) :
    out.length = bitfield.length := by
  induction fuel generalizing offset ptr bitfield with
  | zero =>
    unfold Bitfield.decodeLoop at h
    split_ifs at h
    cases h
    rfl
  | succ fuel ih =>
    unfold Bitfield.decodeLoop at h
    split_ifs at h
    · obtain ⟨⟨next, read⟩, -, h⟩ := bind_eq_ok.mp h
      obtain ⟨offset', -, h⟩ := bind_eq_ok.mp h
      obtain ⟨bitfield', hrun, h⟩ := bind_eq_ok.mp h
      obtain ⟨offset'', -, h⟩ := bind_eq_ok.mp h
      obtain ⟨ptr', -, h⟩ := bind_eq_ok.mp h
      exact (ih h).trans (length_writeRun hrun)
    · cases h
      rfl

/-- What is decoded is as long as was announced. -/
theorem length_decode {buf out : List UInt8} (h : Bitfield.decode buf = .ok (.ok out)) :
    Bitfield.decodeLen buf = .ok (.ok out.length) := by
  obtain ⟨r, hr, h⟩ := bind_eq_ok.mp h
  cases r with
  | error err => cases h
  | ok r =>
    obtain ⟨out', rest⟩ := r
    cases h
    obtain ⟨len, hlen, hr⟩ := bind_eq_ok.mp hr
    cases len with
    | error err => cases hr
    | ok len =>
      obtain ⟨zeros, hzeros, hr⟩ := bind_eq_ok.mp hr
      obtain ⟨⟨out', behind⟩, hloop, hr⟩ := bind_eq_ok.mp hr
      dsimp only at hr
      split_ifs at hr
      cases hr
      unfold zeroedVec at hzeros
      split_ifs at hzeros
      cases hzeros
      rw [length_decodeLoop hloop, List.length_replicate]
      exact hlen

variable {I : Type} [Build] [Pod I]

omit [Varinteger] [Build] in
theorem length_outputs (delta : List UInt8) (stride count idx : ℕ) (bits : List UInt8) :
    (Compression.decodeLoop delta stride count idx bits : List I).length = count := by
  induction count generalizing idx bits with
  | zero => rfl
  | succ count ih => exact congrArg Nat.succ (ih _ _)

theorem length_inputs_le {base : I} {bits : List UInt8} {inputs : List I}
    (h : Compression.decode base bits = .ok (.ok inputs)) : inputs.length ≤ maxBufferSize := by
  obtain ⟨-, -, h⟩ := bind_eq_ok.mp h
  obtain ⟨checked, hchecked, h⟩ := bind_eq_ok.mp h
  cases checked with
  | error err => cases h
  | ok len =>
    obtain ⟨decoded, hdecoded, h⟩ := bind_eq_ok.mp h
    cases decoded with
    | error err => cases h
    | ok delta =>
      dsimp only at h
      by_cases hstride : (Pod.toBytes base).length = 0
      · rw [if_pos hstride] at h
        cases h
      · rw [if_neg hstride] at h
        obtain ⟨-, -, h⟩ := bind_eq_ok.mp h
        cases h
        rw [length_outputs]
        refine (Nat.div_le_self _ _).trans (not_lt.mp fun hbig => ?_)
        unfold Compression.checkedLen at hchecked
        rw [length_decode hdecoded, Fallible.ok_bind] at hchecked
        dsimp only at hchecked
        rw [if_pos hbig] at hchecked
        cases hchecked

end Lengths

section Inputs

variable {I : Type} [Build] [Varinteger] [Pod I]

/-- The frames of such inputs are all in range, and so is the one before them if nothing has been
decoded yet. -/
structure InRange (lastDecoded startFrame : ℤ) (count : ℕ) : Prop where
  first : lastDecoded < 0 → startFrame ≠ -2 ^ 31
  last : startFrame + count ≤ 2 ^ 31

theorem decodeChecked_spec (d : InputDecoder) {startFrame : ℤ} (hstart : InI32 startFrame)
    {bits : List UInt8} {inputs : List I}
    (hbits : Compression.decode (Zeroable.zeroed : I) bits = .ok (.ok inputs)) :
    (InRange d.lastDecoded startFrame inputs.length →
      d.decodeChecked (I := I) startFrame bits = d.decode startFrame bits) ∧
    (¬InRange d.lastDecoded startFrame inputs.length →
      d.decodeChecked (I := I) startFrame bits = .error .arithmeticOverflow) := by
  have hlen := length_inputs_le hbits
  have hmax : maxBufferSize = 65535 := rfl
  obtain ⟨hlow, hhigh⟩ := hstart
  have hnumbered := numberInputs_spec hlow inputs (i := 0) (by omega) (by omega)
  rw [zero_add] at hnumbered
  unfold InputDecoder.decodeChecked InputDecoder.decode
  by_cases hfirst : d.lastDecoded < 0 → startFrame ≠ -2 ^ 31
  · have hbefore : d.currentFrame startFrame =
        .ok (if isNull d.lastDecoded then startFrame - 1 else d.lastDecoded) := by
      unfold InputDecoder.currentFrame
      split_ifs with hnull
      · have := hfirst hnull
        exact checkI32_of ⟨by omega, by omega⟩
      · rfl
    rw [hbefore, Fallible.ok_bind, hbits, Fallible.ok_bind, Fallible.ok_bind]
    dsimp only
    constructor
    · intro h
      rw [hnumbered.1 h.last]
      rfl
    · intro h
      rw [hnumbered.2 fun hlast => h ⟨hfirst, hlast⟩]
      rfl
  · obtain ⟨hnull, heq⟩ := Classical.not_imp.mp hfirst
    rw [not_ne_iff] at heq
    have hbefore : d.currentFrame startFrame = .error .arithmeticOverflow := by
      rw [InputDecoder.currentFrame, if_pos hnull]
      exact checkI32_of_not fun h => by omega
    rw [hbefore]
    exact ⟨fun h => absurd h.first hfirst, fun _ => rfl⟩

end Inputs

namespace Peer

variable {I : Type} [Build]

/-- No player's frame goes back in the statuses of a message. -/
def StatusesAdvance (i : ℕ) (statuses known : List ConnectionStatus) : Prop :=
  ∀ j remote status, statuses[j]? = some remote → known[i + j]? = some status →
    status.lastFrame ≤ remote.lastFrame

/-- Merging statuses fails only where a debug build finds that a frame went back. -/
theorem mergeStatuses_spec (i : ℕ) (statuses known : List ConnectionStatus) :
    ((Build.debugAssertions = true → StatusesAdvance i statuses known) →
      ∃ merged, mergeStatuses i statuses known = .ok merged) ∧
    (¬(Build.debugAssertions = true → StatusesAdvance i statuses known) →
      mergeStatuses i statuses known = .error .assertion) := by
  induction statuses generalizing i known with
  | nil => exact ⟨fun _ => ⟨known, rfl⟩, fun h => absurd (fun _ _ _ _ hj => by simp at hj) h⟩
  | cons remote rest ih =>
    rw [mergeStatuses_cons]
    cases hi : known[i]? with
    | none =>
      have hsame : StatusesAdvance (i + 1) rest (known ++ [remote]) ↔
          StatusesAdvance i (remote :: rest) known := by
        have hlength : known.length ≤ i := List.getElem?_eq_none_iff.mp hi
        constructor
        · intro _ j r st _ hst
          rw [List.getElem?_eq_none_iff.mpr (by omega)] at hst
          cases hst
        · intro _ j r st _ hst
          rw [List.getElem?_eq_none_iff.mpr (by simp; omega)] at hst
          cases hst
      rw [← hsame]
      exact ih (i + 1) (known ++ [remote])
    | some status =>
      obtain ⟨merged, hmerged⟩ : ∃ merged : ConnectionStatus, merged =
        ⟨status.disconnected || remote.disconnected, max status.lastFrame remote.lastFrame⟩ := ⟨_, rfl⟩
      have hsplit : StatusesAdvance i (remote :: rest) known ↔
          status.lastFrame ≤ remote.lastFrame ∧ StatusesAdvance (i + 1) rest (known.set i merged) := by
        constructor
        · intro h
          refine ⟨h 0 remote status rfl hi, fun j r st hr hst => h (j + 1) r st hr ?_⟩
          rwa [List.getElem?_set_ne (by omega), show i + 1 + j = i + (j + 1) by omega] at hst
        · rintro ⟨hhead, htail⟩ j r st hr hst
          cases j with
          | zero =>
            cases hr
            cases hi.symm.trans hst
            exact hhead
          | succ j =>
            refine htail j r st hr ?_
            rwa [List.getElem?_set_ne (by omega), show i + 1 + j = i + (j + 1) by omega]
      rw [hsplit]
      dsimp only
      rw [← hmerged]
      by_cases hassert : Build.debugAssertions = true → status.lastFrame ≤ remote.lastFrame
      · have hok : debugAssert (remote.lastFrame ≥ status.lastFrame) = .ok () := by
          unfold debugAssert
          exact if_neg fun h => h.2 (hassert h.1)
        rw [hok, Fallible.ok_bind]
        obtain ⟨hyes, hno⟩ := ih (i + 1) (known.set i merged)
        exact ⟨fun h => hyes fun hdebug => (h hdebug).2,
          fun h => hno fun h' => h fun hdebug => ⟨hassert hdebug, h' hdebug⟩⟩
      · obtain ⟨hdebug, hback⟩ := Classical.not_imp.mp hassert
        have herror : debugAssert (remote.lastFrame ≥ status.lastFrame) = .error .assertion := by
          unfold debugAssert
          exact if_pos ⟨hdebug, hback⟩
        rw [herror]
        exact ⟨fun h => absurd (h hdebug).1 hback, fun _ => rfl⟩

end Peer

section Faults

variable {I : Type}

/-- Whatever else it may fail at, no arithmetic. -/
abbrev NoOverflow {α : Type} (x : Except Panic α) : Prop := Ends x (fun _ => True) (· ≠ .arithmeticOverflow)

theorem noOverflow_iff {α : Type} {x : Except Panic α} :
    NoOverflow x ↔ x ≠ .error .arithmeticOverflow := by
  cases x with
  | ok a => simp
  | error e => simp

theorem NoOverflow.bind {α β : Type} {x : Except Panic α} {f : α → Except Panic β} (h : NoOverflow x)
    (hf : ∀ a, NoOverflow (f a)) : NoOverflow (x >>= f) := Ends.bind h fun a _ => hf a

theorem createSyncRequest_noOverflow (state : PeerState) : NoOverflow state.createSyncRequest := by
  cases state <;> simp [PeerState.createSyncRequest]

theorem debugAssert_noOverflow [Build] (p : Prop) [Decidable p] : NoOverflow (debugAssert p) :=
  (debugAssert_ends p).mono (fun _ _ => trivial) fun e he => by simp [he.1]

variable [Build]

theorem Peer.onSyncReply_noOverflow (p : Peer I) (now magic random : ℕ) :
    NoOverflow (p.onSyncReply now magic random) := by
  unfold Peer.onSyncReply
  split
  · trivial
  · split
    · split
      · trivial
      · exact (createSyncRequest_noOverflow _).bind fun _ => trivial
    · refine (debugAssert_noOverflow _).bind fun _ => ?_
      dsimp only
      split
      · split <;> trivial
      · split
        · trivial
        · exact (createSyncRequest_noOverflow _).bind fun _ => trivial
    · split <;> trivial
    · trivial

variable [Varinteger] [Pod I]

omit [Varinteger] in
theorem deltaEncodeLoop_noOverflow (bits bytes : List UInt8) (data : List I) :
    NoOverflow (Compression.deltaEncodeLoop bits bytes data) := by
  induction data generalizing bits bytes with
  | nil => trivial
  | cons datum data ih =>
    refine (debugAssert_noOverflow _).bind fun _ => ?_
    dsimp only
    split
    · trivial
    · exact ih _ _

theorem Peer.sendInput_noOverflow (p : Peer I) (statuses : List ConnectionStatus) (input : FrameInput I) :
    NoOverflow (p.sendInput statuses input) := by
  have hencode : ∀ e : InputEncoder I, NoOverflow e.encode := by
    intro e
    unfold InputEncoder.encode
    split
    · trivial
    · refine NoOverflow.bind ?_ fun r => by cases r <;> trivial
      refine (deltaEncodeLoop_noOverflow _ _ _).bind fun r => ?_
      cases r with
      | error err => trivial
      | ok bytes =>
        refine NoOverflow.bind (NoOverflow.bind ?_ fun _ => trivial) fun _ => trivial
        unfold Bitfield.encodeWithOffset
        rw [if_pos (Nat.zero_le _)]
        trivial
  have hsend : ∀ p : Peer I, NoOverflow (p.sendPendingOutput statuses) := by
    intro p
    refine (hencode _).bind fun r => ?_
    obtain ⟨result, encoder⟩ := r
    cases result with
    | error err => simp
    | ok packet => trivial
  unfold Peer.sendInput
  split
  · refine NoOverflow.bind (NoOverflow.bind ?_ fun _ => trivial) fun _ => hsend _
    unfold toUsize
    split <;> simp
  · exact hsend p

theorem Peer.onInput_noOverflow (p : Peer I) (now : ℕ) {msg : InputMessage} {inputs : List I}
    (hbits : Compression.decode (Zeroable.zeroed : I) msg.bits = .ok (.ok inputs)) :
    NoOverflow (p.onInput now msg) := by
  have hmerge : NoOverflow (Peer.mergeStatuses 0 msg.peerConnectStatus p.peerConnectStatus) := by
    obtain ⟨hyes, hno⟩ := Peer.mergeStatuses_spec 0 msg.peerConnectStatus p.peerConnectStatus
    by_cases h : Build.debugAssertions = true →
        Peer.StatusesAdvance 0 msg.peerConnectStatus p.peerConnectStatus
    · obtain ⟨merged, hmerged⟩ := hyes h
      rw [hmerged]
      trivial
    · rw [hno h]
      simp
  refine hmerge.bind fun statuses => NoOverflow.bind ?_ fun r => ?_
  · unfold InputDecoder.decode
    rw [hbits]
    exact (debugAssert_noOverflow _).bind fun _ => trivial
  · obtain ⟨decoded, decoder⟩ := r
    cases decoded with
    | error err => trivial
    | ok frames =>
      dsimp only
      split <;> trivial

end Faults

section Messages

variable {I : Type} [Build]

theorem syncReplySubtractions_ok {p : Peer I} {k : ℕ} (hcounted : p.state.Counted k) (random : ℕ) :
    p.syncReplySubtractions random = .ok () := by
  unfold Peer.syncReplySubtractions
  split
  · rfl
  · split
    · next random' remaining hstate =>
      rw [hstate] at hcounted
      obtain ⟨hpos, hk, hsum⟩ := hcounted
      rw [debugAssert_of hpos, Fallible.ok_bind, checkedSub_of hpos, Fallible.ok_bind]
      split
      · rfl
      · rw [checkedSub_of (by omega)]
        rfl
    · rfl

variable [Varinteger] [Pod I]

/-- The exact bounds for the message: a pong is not of the future, and inputs that are looked at have
frames in range. -/
def BoundedMessage (p : Peer I) (now : ℕ) (message : Message) : Prop :=
  match message.data with
  | .input input =>
    (Build.debugAssertions = true →
      Peer.StatusesAdvance 0 input.peerConnectStatus p.peerConnectStatus) →
    ∀ inputs : List I, Compression.decode Zeroable.zeroed input.bits = .ok (.ok inputs) →
      InRange p.inputDecoder.lastDecoded input.startFrame inputs.length
  | .qualityReply pong => pong ≤ now
  | _ => True

theorem onInputChecked_iff (p : Peer I) (now magic : ℕ) (seq : UInt16) {input : InputMessage}
    (hstart : InI32 input.startFrame)
    (hbits : ∃ inputs : List I, Compression.decode Zeroable.zeroed input.bits = .ok (.ok inputs)) :
    p.onInputChecked now input ≠ .error .arithmeticOverflow ↔
      BoundedMessage p now ⟨magic, seq, .input input⟩ := by
  obtain ⟨inputs, hbits⟩ := hbits
  obtain ⟨hmerges, hback⟩ := Peer.mergeStatuses_spec 0 input.peerConnectStatus p.peerConnectStatus
  obtain ⟨hin, hout⟩ := decodeChecked_spec p.inputDecoder hstart hbits
  unfold BoundedMessage Peer.onInputChecked
  by_cases hadvance : Build.debugAssertions = true →
      Peer.StatusesAdvance 0 input.peerConnectStatus p.peerConnectStatus
  · obtain ⟨merged, hmerged⟩ := hmerges hadvance
    rw [hmerged, Fallible.ok_bind]
    have hall : (∀ inputs' : List I, Compression.decode Zeroable.zeroed input.bits = .ok (.ok inputs') →
        InRange p.inputDecoder.lastDecoded input.startFrame inputs'.length) ↔
        InRange p.inputDecoder.lastDecoded input.startFrame inputs.length := by
      refine ⟨fun h => h inputs hbits, fun h inputs' hbits' => ?_⟩
      cases hbits.symm.trans hbits'
      exact h
    simp only [hall]
    by_cases hrange : InRange p.inputDecoder.lastDecoded input.startFrame inputs.length
    · refine iff_of_true (noOverflow_iff.mp ?_) fun _ => hrange
      rw [hin hrange]
      refine NoOverflow.bind ?_ fun _ => p.onInput_noOverflow now hbits
      unfold InputDecoder.decode
      rw [hbits]
      exact (debugAssert_noOverflow _).bind fun _ => trivial
    · rw [hout hrange]
      exact iff_of_false (fun h => h rfl) fun h => hrange (h hadvance)
  · rw [hback hadvance]
    exact iff_of_true (by simp [bind, Except.bind]) fun h => absurd h hadvance

theorem handleMessageChecked_iff {p : Peer I} {k : ℕ} (hcounted : p.state.Counted k) {now : ℕ}
    {message : Message} (harrives : Metered.Arrives (I := I) (.message now message)) :
    p.handleMessageChecked now message ≠ .error .arithmeticOverflow ↔ BoundedMessage p now message := by
  obtain ⟨magic, seq, data⟩ := message
  unfold Peer.handleMessageChecked
  cases data with
  | keepAlive => exact iff_of_true (by simp [Peer.handleMessage]) trivial
  | syncRequest random => exact iff_of_true (by simp [Peer.handleMessage]) trivial
  | syncReply random =>
    dsimp only
    rw [syncReplySubtractions_ok hcounted, Fallible.ok_bind]
    exact iff_of_true (noOverflow_iff.mp (p.onSyncReply_noOverflow now magic random)) trivial
  | input input =>
    obtain ⟨hstart, hbits⟩ := harrives.2 input rfl
    exact onInputChecked_iff p now magic seq hstart hbits
  | inputAck ackFrame => exact iff_of_true (by simp [Peer.handleMessage]) trivial
  | qualityReport frameAdvantage ping => exact iff_of_true (by simp [Peer.handleMessage]) trivial
  | qualityReply pong =>
    dsimp only [BoundedMessage]
    by_cases hpong : pong ≤ now
    · rw [checkedSub_of hpong]
      exact iff_of_true (by simp) hpong
    · rw [checkedSub_of_not hpong]
      exact iff_of_false (fun h => h rfl) hpong

/-- Where no operation overflows, the checked code is the code. -/
theorem handleMessage_of_checked {p : Peer I} {now : ℕ} {message : Message}
    (harrives : Metered.Arrives (I := I) (.message now message)) {r : Except PeerError Unit × Peer I}
    (h : p.handleMessageChecked now message = .ok r) : p.handleMessage now message = .ok r := by
  obtain ⟨magic, seq, data⟩ := message
  unfold Peer.handleMessageChecked at h
  cases data with
  | syncReply random =>
    obtain ⟨-, -, h⟩ := bind_eq_ok.mp h
    exact h
  | input input =>
    obtain ⟨-, -, h⟩ := bind_eq_ok.mp h
    obtain ⟨-, -, h⟩ := bind_eq_ok.mp h
    exact h
  | qualityReply pong =>
    obtain ⟨rtt, hrtt, h⟩ := bind_eq_ok.mp h
    have hpong : pong ≤ now := by
      by_contra hno
      cases (checkedSub_of_not hno).symm.trans hrtt
    cases (checkedSub_of hpong).symm.trans hrtt
    have hnow := harrives.1
    have hsince : Peer.millisSince now pong = .ok (now - pong) := by
      unfold Peer.millisSince
      rw [if_neg fun hlt => absurd hpong (not_le.mpr hlt.2)]
      congr 1
      omega
    change p.onQualityReply now pong = .ok r
    unfold Peer.onQualityReply
    rw [hsince]
    exact h
  | _ => exact h

end Messages

section Advantages

variable {I : Type}

theorem setLocalFrameNumberChecked_iff (p : Peer I) (localFrame : ℤ) :
    p.setLocalFrameNumberChecked localFrame ≠ .error .arithmeticOverflow ↔
      InI32 (p.inputDecoder.lastDecoded + asI32 (p.stats.roundTripTime / 1000 / 2 * 60)) ∧
        InI32 (p.inputDecoder.lastDecoded + asI32 (p.stats.roundTripTime / 1000 / 2 * 60) -
          localFrame) := by
  unfold Peer.setLocalFrameNumberChecked Peer.setLocalFrameNumberWith
  by_cases hremote : InI32 (p.inputDecoder.lastDecoded + asI32 (p.stats.roundTripTime / 1000 / 2 * 60))
  · rw [checkI32_of hremote, Fallible.ok_bind]
    by_cases hadvantage : InI32 (p.inputDecoder.lastDecoded +
        asI32 (p.stats.roundTripTime / 1000 / 2 * 60) - localFrame)
    · rw [checkI32_of hadvantage]
      exact iff_of_true (by simp) ⟨hremote, hadvantage⟩
    · rw [checkI32_of_not hadvantage]
      exact iff_of_false (fun h => h rfl) fun h => hadvantage h.2
  · rw [checkI32_of_not hremote]
    exact iff_of_false (fun h => h rfl) fun h => hremote h.1

variable [BEq I]

/-- The sums of the stored advantages stay in range, and the calls are fewer than a `u32` counts. -/
structure BoundedAdvantages (t : TimeSync I) (iteration : ℕ) : Prop where
  localAdvantage : Sums (List.ofFn t.localAdvantage)
  remoteAdvantage : Sums (List.ofFn t.remoteAdvantage)
  iteration : iteration + 1 < 2 ^ 32

theorem recommendChecked_spec (t : TimeSync I) (iteration : ℕ) (requireIdleInput : Bool) :
    (BoundedAdvantages t iteration → t.recommendChecked iteration requireIdleInput =
      .ok (t.waitDuration requireIdleInput (List.ofFn t.localAdvantage).sum
        (List.ofFn t.remoteAdvantage).sum, iteration + 1)) ∧
    (¬BoundedAdvantages t iteration →
      t.recommendChecked iteration requireIdleInput = .error .arithmeticOverflow) := by
  unfold TimeSync.recommendChecked TimeSync.recommendWith
  by_cases hlocal : Sums (List.ofFn t.localAdvantage)
  · rw [sumI32_of hlocal, Fallible.ok_bind]
    by_cases hremote : Sums (List.ofFn t.remoteAdvantage)
    · rw [sumI32_of hremote, Fallible.ok_bind]
      by_cases hiteration : iteration + 1 < 2 ^ 32
      · refine ⟨fun _ => ?_, fun h => absurd ⟨hlocal, hremote, hiteration⟩ h⟩
        simp only [Fallible.pure_eq_ok, Fallible.ok_bind, hiteration, not_true_eq_false, if_false]
      · refine ⟨fun h => absurd h.iteration hiteration, fun _ => ?_⟩
        simp only [Fallible.pure_eq_ok, Fallible.ok_bind, hiteration, not_false_eq_true, if_true]
        rfl
    · rw [sumI32_of_not hremote]
      exact ⟨fun h => absurd h.remoteAdvantage hremote, fun _ => rfl⟩
  · rw [sumI32_of_not hlocal]
    exact ⟨fun h => absurd h.localAdvantage hlocal, fun _ => rfl⟩

/-- Either no wait, or one between `MIN_FRAME_ADVANTAGE` and `MAX_FRAME_ADVANTAGE`. -/
theorem waitDuration_range (t : TimeSync I) (requireIdleInput : Bool) (sum rsum : ℤ) :
    t.waitDuration requireIdleInput sum rsum = 0 ∨
      minFrameAdvantage ≤ t.waitDuration requireIdleInput sum rsum ∧
        t.waitDuration requireIdleInput sum rsum ≤ maxFrameAdvantage := by
  unfold TimeSync.waitDuration
  dsimp only
  split_ifs with h1 h2 h3
  · exact Or.inl rfl
  · exact Or.inl rfl
  · exact Or.inl rfl
  · exact Or.inr ⟨le_min (not_lt.mp h2) (by decide), min_le_right _ _⟩

end Advantages

namespace Metered

variable {I : Type} [Build] [Varinteger] [Pod I]

theorem sendInput_state (p : Peer I) (statuses : List ConnectionStatus) (input : FrameInput I) :
    Ends (p.sendInput statuses input) (fun r => r.2.state = p.state) fun _ => True := by
  have hsend : ∀ p : Peer I,
      Ends (p.sendPendingOutput statuses) (fun r => r.2.state = p.state) fun _ => True := by
    intro p
    refine .bind_any fun r => ?_
    obtain ⟨result, encoder⟩ := r
    cases result with
    | error err => trivial
    | ok packet => exact Peer.send_state _ _
  unfold Peer.sendInput
  split
  · exact .bind_any fun timesync => hsend _
  · exact hsend p

variable [BEq I] {random : ℕ} {connectStatus : List ConnectionStatus}
  {calls : List (Metered I × PeerCall I)} {s s' : Metered I} {call : PeerCall I}

/-- A peer that handles messages has counted some replies of the handshake. -/
theorem perform_counted (h : s.perform call = .ok s') (harrives : Arrives call)
    (hcounted : ∃ k, s.peer.state.Counted k) : ∃ k, s'.peer.state.Counted k := by
  obtain ⟨k, hk⟩ := hcounted
  cases call with
  | message now message =>
    obtain ⟨⟨result, p⟩, hmessage, h⟩ := bind_eq_ok.mp h
    have hhandles := (s.peer.handleMessage_handles now message).ok
      (handleMessage_of_checked harrives hmessage)
    have hstate : result = .ok () ∨ result = .error .invalidMessage → ∃ k, p.state.Counted k := by
      intro hresult
      have hnext : p.state = _ := hhandles.state hresult
      rw [hnext]
      split
      · next hcounts => exact ⟨k + 1, hk.advance hcounts⟩
      · exact ⟨k, hk⟩
    cases result with
    | ok done =>
      cases h
      exact hstate (Or.inl rfl)
    | error err =>
      cases err with
      | invalidMessage =>
        cases h
        exact hstate (Or.inr rfl)
      | localDisconnected =>
        cases h
        exact ⟨0, trivial⟩
      | remoteDisconnected =>
        cases h
        exact ⟨0, trivial⟩
  | sendInput statuses input =>
    obtain ⟨r, hsend, h⟩ := bind_eq_ok.mp h
    cases h
    have hstate := (sendInput_state s.peer statuses input).ok hsend
    exact ⟨k, hstate.symm ▸ hk⟩
  | setLocalFrameNumber localFrame =>
    obtain ⟨p, hp, h⟩ := bind_eq_ok.mp h
    obtain ⟨remote, -, hp⟩ := bind_eq_ok.mp hp
    obtain ⟨advantage, -, hp⟩ := bind_eq_ok.mp hp
    cases hp
    cases h
    exact ⟨k, hk⟩
  | recommendFrameDelay =>
    obtain ⟨r, -, h⟩ := bind_eq_ok.mp h
    cases h
    exact ⟨k, hk⟩

theorem run_counted (hrun : Run random connectStatus calls s) : ∃ k, s.peer.state.Counted k := by
  induction hrun with
  | start => exact ⟨0, rfl⟩
  | call _ _ hcall h ih => exact perform_counted h hcall ih

/-- The exact bounds under which a call overflows nothing. -/
def Bounded (s : Metered I) : PeerCall I → Prop
  | .message now message => BoundedMessage s.peer now message
  | .sendInput _ _ => True
  | .setLocalFrameNumber localFrame =>
    InI32 (s.peer.inputDecoder.lastDecoded + asI32 (s.peer.stats.roundTripTime / 1000 / 2 * 60)) ∧
      InI32 (s.peer.inputDecoder.lastDecoded + asI32 (s.peer.stats.roundTripTime / 1000 / 2 * 60) -
        localFrame)
  | .recommendFrameDelay => BoundedAdvantages s.peer.timesync s.iteration

theorem perform_noOverflow_iff (hcounted : ∃ k, s.peer.state.Counted k) (harrives : Arrives call) :
    s.perform call ≠ .error .arithmeticOverflow ↔ s.Bounded call := by
  obtain ⟨k, hk⟩ := hcounted
  -- What follows the checked operations of a call is no arithmetic.
  have hthen : ∀ {α : Type} (x : Except Panic α) (f : α → Except Panic (Metered I)),
      (∀ a, NoOverflow (f a)) → ((x >>= f) ≠ .error .arithmeticOverflow ↔ x ≠ .error .arithmeticOverflow) := by
    intro α x f hf
    cases x with
    | ok a => exact iff_of_true (noOverflow_iff.mp (hf a)) (by simp)
    | error e => simp
  cases call with
  | message now message =>
    refine Iff.trans (hthen _ _ fun r => ?_) (handleMessageChecked_iff hk harrives)
    split <;> trivial
  | sendInput statuses input =>
    refine Iff.trans (hthen _ _ fun r => ?_) (iff_of_true ?_ trivial)
    · trivial
    · exact noOverflow_iff.mp (s.peer.sendInput_noOverflow statuses input)
  | setLocalFrameNumber localFrame =>
    refine Iff.trans (hthen _ _ fun r => ?_) (setLocalFrameNumberChecked_iff s.peer localFrame)
    trivial
  | recommendFrameDelay =>
    refine Iff.trans (hthen _ _ fun r => ?_) ?_
    · trivial
    obtain ⟨hyes, hno⟩ := recommendChecked_spec s.peer.timesync s.iteration false
    by_cases h : BoundedAdvantages s.peer.timesync s.iteration
    · exact iff_of_true (by rw [hyes h]; simp) h
    · exact iff_of_false (fun hne => hne (hno h)) h

/-- After any calls, the next one overflows nothing just when it is within its bounds, and what
`recommend_frame_delay` returns is no wait or one of three to nine frames. -/
theorem run_noOverflow_iff (hrun : Run random connectStatus calls s) (harrives : Arrives call) :
    (s.perform call ≠ .error .arithmeticOverflow ↔ s.Bounded call) ∧
      ∀ delay iteration, s.peer.timesync.recommendChecked s.iteration false = .ok (delay, iteration) →
        delay = 0 ∨ 3 ≤ delay ∧ delay ≤ 9 := by
  refine ⟨perform_noOverflow_iff (run_counted hrun) harrives, fun delay iteration h => ?_⟩
  obtain ⟨hyes, hno⟩ := recommendChecked_spec s.peer.timesync s.iteration false
  by_cases hbounded : BoundedAdvantages s.peer.timesync s.iteration
  · cases (hyes hbounded).symm.trans h
    exact waitDuration_range _ _ _ _
  · cases (hno hbounded).symm.trans h

omit [Build] [Varinteger]

/-- A reply to a report of the same millisecond. -/
theorem run_noOverflow_iff_reply :
    letI : Build := ⟨true⟩
    letI := Varinteger.leb128
    Run 1 [] [] (⟨Peer.new 1 [], 0⟩ : Metered UInt8) ∧
      (⟨Peer.new 1 [], 0⟩ : Metered UInt8).perform (.message 5 ⟨7, 0, .qualityReply 5⟩) ≠
        .error .arithmeticOverflow :=
  letI : Build := ⟨true⟩
  letI := Varinteger.leb128
  have harrives : Arrives (I := UInt8) (.message 5 ⟨7, 0, .qualityReply 5⟩) :=
    ⟨by decide, fun _ h => by cases h⟩
  ⟨.start, (run_noOverflow_iff .start harrives).1.mpr (le_refl 5)⟩

/-- A pong is taken from the current time without a check that it is not later. -/
theorem not_noOverflow_pong :
    letI : Build := ⟨true⟩
    letI := Varinteger.leb128
    ¬ ∀ (calls : List (Metered UInt8 × PeerCall UInt8)) (s : Metered UInt8) (call : PeerCall UInt8),
      Run 1 [] calls s → Arrives call → s.perform call ≠ .error .arithmeticOverflow :=
  letI : Build := ⟨true⟩
  letI := Varinteger.leb128
  fun h => h [] _ (.message 5 ⟨7, 0, .qualityReply 6⟩) .start ⟨by decide, fun _ h => by cases h⟩ rfl

end Metered

end Backroll

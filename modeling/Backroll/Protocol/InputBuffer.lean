import Backroll.Protocol.Compression
import Backroll.Input.GameInput
import Backroll.Lib.ReliableStream

/-! `protocol/input_buffer.rs`: the sender's buffer of unacknowledged inputs and the
receiver's decoder, and the stream they carry over an unreliable network. -/
namespace Backroll

structure InputEncoder (I : Type) where
  pending : List (FrameInput I) := []
  lastAcked : ℤ := nullFrame
  lastEncoded : ℤ := nullFrame

structure InputDecoder where
  lastDecoded : ℤ := nullFrame

namespace InputEncoder

variable {I : Type}

def push (e : InputEncoder I) (input : FrameInput I) : InputEncoder I :=
  { e with pending := e.pending ++ [input] }

def acknowledgeFrame (e : InputEncoder I) (ackFrame : ℤ) : InputEncoder I :=
  match (e.pending.filter fun i => i.frame < ackFrame).getLast? with
  | some last =>
    { e with
      lastAcked := last.frame
      pending := e.pending.filter fun i => i.frame ≥ ackFrame }
  | none => e

/-- `encode`, with the buffer it leaves. -/
def encode [Build] [Varinteger] [Pod I] (e : InputEncoder I) :
    Except Panic (Except EncodeError (ℤ × List UInt8) × InputEncoder I) :=
  match e.pending with
  | [] => .ok (.ok (e.lastAcked, []), e)
  | front :: rest => do
    match ← Compression.encode Zeroable.zeroed (e.pending.map (·.input)) with
    | .error err => return (.error err, e)
    | .ok bits =>
      let back := (front :: rest).getLast (by simp)
      return (.ok (front.frame, bits), { e with lastEncoded := back.frame })

end InputEncoder

namespace InputDecoder

variable {I : Type}

/-- `decode`, with the decoder it leaves. -/
def decode [Build] [Varinteger] [Pod I] (d : InputDecoder) (startFrame : ℤ)
    (bits : List UInt8) :
    Except Panic (Except DecodeError (List (FrameInput I)) × InputDecoder) := do
  let currentFrame := if isNull d.lastDecoded then startFrame - 1 else d.lastDecoded
  match ← Compression.decode (Zeroable.zeroed : I) bits with
  | .error err => return (.error err, d)
  | .ok inputs =>
    let frameInputs := (inputs.zipIdx.map fun (input, i) =>
      (⟨startFrame + i, input⟩ : FrameInput I)).dropWhile fun x => x.frame ≤ currentFrame
    let d' : InputDecoder := match frameInputs.getLast? with
      | some latest => { d with lastDecoded := latest.frame }
      | none => d
    debugAssert (d'.lastDecoded ≥ d.lastDecoded)
    return (.ok frameInputs, d')

end InputDecoder

open ReliableStream (fresh Genuine)

/-- A packet holds a window of the log: its bits decode to the items of the window, and it
carries the frame of the first one. -/
structure Carries {I : Type} [Build] [Varinteger] [Pod I] (packet : ℤ × List UInt8)
    (w : ℕ × List I) : Prop where
  bits : Compression.decode Zeroable.zeroed packet.2 = .ok (.ok w.2)
  start : w.2 ≠ [] → packet.1 = w.1

namespace InputEncoder

variable {I : Type}

/-- The buffer holds the log of the abstract sender from its front on. -/
def Keeps (e : InputEncoder I) (s : ReliableStream.State I) : Prop :=
  e.pending = framed s.front (s.log.drop s.front)

/-- The inputs below an acknowledged frame are dropped, whatever the acknowledgement. -/
theorem pending_acknowledgeFrame (e : InputEncoder I) (ackFrame : ℤ) :
    (e.acknowledgeFrame ackFrame).pending = e.pending.filter fun i => i.frame ≥ ackFrame := by
  rw [acknowledgeFrame]
  split
  · rfl
  · next hnone =>
    have hnil := List.getLast?_eq_none_iff.mp hnone
    refine (List.filter_eq_self.mpr fun i hi => ?_).symm
    by_contra hlt
    have hmem : i ∈ e.pending.filter fun i => i.frame < ackFrame :=
      List.mem_filter.mpr ⟨hi, by simpa using hlt⟩
    simp [hnil] at hmem

theorem Keeps.push {e : InputEncoder I} {s : ReliableStream.State I} (h : e.Keeps s)
    (hfront : s.front ≤ s.log.length) (x : I) :
    (e.push ⟨s.log.length, x⟩).Keeps { s with log := s.log ++ [x] } := by
  have hlast : (s.front : ℤ) + (s.log.drop s.front).length = s.log.length := by
    rw [List.length_drop]
    omega
  rw [Keeps, InputEncoder.push, h, List.drop_append_of_le_length hfront, framed_append, hlast]
  rfl

theorem Keeps.acknowledgeFrame {e : InputEncoder I} {s : ReliableStream.State I}
    (h : e.Keeps s) (n : ℕ) :
    (e.acknowledgeFrame (n - 1)).Keeps { s with front := max s.front (n - 1) } := by
  have hsub : s.front + ((n : ℤ) - 1 - s.front).toNat = max s.front (n - 1) := by omega
  rw [Keeps, pending_acknowledgeFrame, h, filter_ge_framed, List.drop_drop, hsub, ← hsub]
  push_cast
  rfl

variable [Build] [Varinteger] [Pod I]

/-- As long as the buffer is within the size limit it encodes to a packet with its window. -/
theorem Keeps.encode {e : InputEncoder I} {s : ReliableStream.State I} (h : e.Keeps s)
    (hV : Varinteger.RoundTrips) (hI : 0 < Pod.size I)
    (hsize : e.pending.length * Pod.size I < maxBufferSize) :
    ∃ packet e', e.encode = .ok (.ok packet, e') ∧ e'.pending = e.pending ∧
      Carries packet (s.front, s.log.drop s.front) := by
  have hwin : e.pending.map (·.input) = s.log.drop s.front := by rw [h, map_input_framed]
  have hlen : (s.log.drop s.front).length = e.pending.length := by rw [← hwin, List.length_map]
  unfold InputEncoder.encode
  split
  · next hp =>
    have hnil : s.log.drop s.front = [] := by rw [← hwin, hp, List.map_nil]
    exact ⟨_, _, rfl, rfl, by simpa [hnil] using Compression.decode_nil hI Zeroable.zeroed,
      fun hne => absurd hnil hne⟩
  · next front rest hp =>
    obtain ⟨bits, henc, hdec⟩ := Compression.roundTrip hV hI (Zeroable.zeroed : I)
      (s.log.drop s.front) (by rwa [hlen])
    have hframe : front.frame = s.front := by
      have hfront : front :: rest = framed s.front (s.log.drop s.front) := hp.symm.trans h
      cases hd : s.log.drop s.front with
      | nil => simp [hd] at hfront
      | cons x xs =>
        rw [hd, framed_cons, List.cons.injEq] at hfront
        rw [hfront.1]
    rw [hwin, henc]
    exact ⟨_, _, rfl, rfl, hdec, fun _ => hframe⟩

end InputEncoder

namespace InputDecoder

variable {I : Type} [Build] [Varinteger] [Pod I]

/-- The decoder has seen the inputs that the abstract receiver has. -/
def Has (d : InputDecoder) (s : ReliableStream.State I) : Prop :=
  d.lastDecoded = s.delivered.length - 1

/-- A genuine packet decodes to what the receiver does not have yet of its window. -/
theorem Has.decode {d : InputDecoder} {s : ReliableStream.State I} (h : d.Has s)
    {packet : ℤ × List UInt8} {w : ℕ × List I} (hp : Carries packet w) (hw : Genuine s w) :
    ∃ d' : InputDecoder, d.decode packet.1 packet.2 =
        .ok (.ok (framed s.delivered.length (fresh s.delivered w)), d') ∧
      d'.Has { s with delivered := s.delivered ++ fresh s.delivered w } := by
  obtain ⟨hbits, hstart⟩ := hp
  obtain ⟨hw1, -⟩ := hw
  have hlast : d.lastDecoded = s.delivered.length - 1 := h
  have hnull : isNull d.lastDecoded ↔ s.delivered.length = 0 := by
    simp only [isNull]
    omega
  set newer := fresh s.delivered w with hnewer
  have hfresh : (w.2.zipIdx.map fun (input, i) =>
      (⟨packet.1 + i, input⟩ : FrameInput I)).dropWhile (fun x => x.frame ≤
        if isNull d.lastDecoded then packet.1 - 1 else d.lastDecoded) =
      framed s.delivered.length newer := by
    rw [map_zipIdx_eq_framed, dropWhile_le_framed, hnewer, fresh]
    by_cases hw2 : w.2 = []
    · simp [hw2]
    · have hshift : (((if isNull d.lastDecoded then packet.1 - 1 else d.lastDecoded) + 1 -
          packet.1).toNat : ℤ) = s.delivered.length - w.1 := by
        rw [hstart hw2]
        split <;> omega
      rw [hstart hw2] at hshift ⊢
      congr 1
      · omega
      · congr 1
        omega
  simp only [InputDecoder.decode, hbits, Fallible.ok_bind, hfresh]
  cases hg : (framed (s.delivered.length : ℤ) newer).getLast? with
  | none =>
    have hnil : newer = [] := framed_eq_nil.mp (List.getLast?_eq_none_iff.mp hg)
    exact ⟨d, by simp [debugAssert_of], by simpa [Has, hnil] using hlast⟩
  | some latest =>
    have hframe := frame_getLast_framed hg
    have hge : latest.frame ≥ d.lastDecoded := by omega
    refine ⟨⟨latest.frame⟩, by simp [debugAssert_of hge], ?_⟩
    rw [Has, hframe, List.length_append]
    push_cast
    ring

/-- A decoder returns those of the inputs that the bits decode to that are behind the last frame
it knows, labelled by the frame the message says it starts at. -/
theorem decode_of_bits (d : InputDecoder) (startFrame : ℤ) {bits : List UInt8} {inputs : List I}
    (hbits : Compression.decode Zeroable.zeroed bits = .ok (.ok inputs)) :
    ∃ (k : ℕ) (frames : List (FrameInput I)) (last : ℤ),
      k = (if isNull d.lastDecoded then 0 else (d.lastDecoded + 1 - startFrame).toNat) ∧
      frames = framed (startFrame + k) (inputs.drop k) ∧
      last = (if frames = [] then d.lastDecoded else startFrame + inputs.length - 1) ∧
      d.decode startFrame bits = (do
        debugAssert (last ≥ d.lastDecoded)
        return (.ok frames, ⟨last⟩)) := by
  obtain ⟨k, hk⟩ : ∃ k, k = ((if isNull d.lastDecoded then startFrame - 1 else d.lastDecoded) +
    1 - startFrame).toNat := ⟨_, rfl⟩
  refine ⟨k, _, _, ?_, rfl, rfl, ?_⟩
  · rw [hk]
    split <;> omega
  unfold InputDecoder.decode
  simp only [hbits, Fallible.ok_bind, map_zipIdx_eq_framed, dropWhile_le_framed, ← hk]
  cases hlast : (framed (startFrame + k) (inputs.drop k)).getLast? with
  | none => rw [if_pos (List.getLast?_eq_none_iff.mp hlast)]
  | some latest =>
    have hne : framed (startFrame + k) (inputs.drop k) ≠ [] := by
      rintro hnil
      simp [hnil] at hlast
    have hlt : k < inputs.length := by
      by_contra hle
      exact hne (by simp [List.drop_eq_nil_of_le (not_lt.mp hle)])
    have hlatest := frame_getLast_framed hlast
    rw [List.length_drop] at hlatest
    have hframe : latest.frame = startFrame + inputs.length - 1 := by omega
    rw [if_neg hne, ← hframe]

theorem decode_eq_ok {d d' : InputDecoder} {startFrame : ℤ} {bits : List UInt8}
    {frames : List (FrameInput I)} (h : d.decode startFrame bits = .ok (.ok frames, d')) :
    ∃ (inputs : List I) (k : ℕ), Compression.decode Zeroable.zeroed bits = .ok (.ok inputs) ∧
      k = (if isNull d.lastDecoded then 0 else (d.lastDecoded + 1 - startFrame).toNat) ∧
      frames = framed (startFrame + k) (inputs.drop k) ∧
      d'.lastDecoded = if frames = [] then d.lastDecoded else startFrame + inputs.length - 1 := by
  obtain ⟨decoded, hdec, hrest⟩ := Fallible.bind_eq_ok.mp h
  match decoded with
  | .error e => simp at hrest
  | .ok inputs =>
    obtain ⟨k, frames', last, hk, hframes, hlast, hdecode⟩ := d.decode_of_bits startFrame hdec
    obtain ⟨-, -, hout⟩ := Fallible.bind_eq_ok.mp (hdecode.symm.trans h)
    obtain ⟨hsame, rfl⟩ := Prod.mk.inj (Except.ok.inj hout)
    obtain rfl := Except.ok.inj hsame
    exact ⟨inputs, k, hdec, hk, hframes, hlast⟩

end InputDecoder

end Backroll

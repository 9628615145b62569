import Backroll.Protocol.InputBuffer

/-! One direction of the connection between two peers: an encoder, a decoder, and a network
that may lose, duplicate, delay and reorder what they exchange. -/
namespace Backroll

/-- `packets` and `acks` are all that was ever sent; `pushed` and `decoded` are the history of
the inputs given to the encoder and of the vectors returned by the decoder. -/
structure Stream (I : Type) where
  encoder : InputEncoder I := {}
  decoder : InputDecoder := {}
  packets : List (ℤ × List UInt8) := []
  acks : List ℤ := []
  pushed : List I := []
  decoded : List (FrameInput I) := []

namespace Stream

variable {I : Type} [Build] [Varinteger] [Pod I]

/-- A push leaves the pending inputs below the size that the codec accepts. -/
inductive Step : Stream I → Stream I → Prop
  | push (s) (input : I)
    (h : (s.encoder.pending.length + 1) * Pod.size I < maxBufferSize) :
    Step s { s with
      encoder := s.encoder.push ⟨s.pushed.length, input⟩
      pushed := s.pushed ++ [input] }
  | encode (s) (packet e) (h : s.encoder.encode = .ok (.ok packet, e)) :
    Step s { s with encoder := e, packets := packet :: s.packets }
  | decode (s) (packet inputs d) (hp : packet ∈ s.packets)
    (h : s.decoder.decode packet.1 packet.2 = .ok (.ok inputs, d)) :
    Step s { s with decoder := d, decoded := s.decoded ++ inputs }
  | sendAck (s) : Step s { s with acks := s.decoder.lastDecoded :: s.acks }
  | acknowledge (s) (ack) (h : ack ∈ s.acks) :
    Step s { s with encoder := s.encoder.acknowledgeFrame ack }

inductive Reachable : Stream I → Prop
  | init : Reachable {}
  | step {s t} (hs : Reachable s) (h : Step s t) : Reachable t

/-- The state implements the abstract protocol in the state `a`. -/
structure Implements (s : Stream I) (a : ReliableStream.State I) : Prop where
  pushed : s.pushed = a.log
  decoded : s.decoded = framed 0 a.delivered
  encoder : s.encoder.Keeps a
  decoder : s.decoder.Has a
  packets : ∀ packet ∈ s.packets, ∃ w ∈ a.windows, Carries packet w
  acks : ∀ ack ∈ s.acks, ∃ n ∈ a.acks, ack = (n : ℤ) - 1
  size : s.encoder.pending.length * Pod.size I < maxBufferSize

/-- Each step of the code is a step of the abstract protocol. -/
theorem step_implements (hV : Varinteger.RoundTrips) (hI : 0 < Pod.size I) {s t : Stream I}
    {a : ReliableStream.State I} (ha : ReliableStream.Reachable a) (hs : s.Implements a)
    (h : Step s t) : ∃ b, ReliableStream.Reachable b ∧ t.Implements b := by
  have hi := ReliableStream.reachable_inv ha
  have hfront : a.front ≤ a.log.length := by
    have := hi.front
    have := hi.delivered.length_le
    omega
  cases h with
  | push input hsize =>
    refine ⟨_, ha.step (.push a input), by rw [hs.pushed], hs.decoded, ?_, hs.decoder,
      hs.packets, hs.acks, by simpa [InputEncoder.push] using hsize⟩
    rw [hs.pushed]
    exact hs.encoder.push hfront input
  | encode packet e henc =>
    obtain ⟨packet', e', henc', hpending, hcarries⟩ := hs.encoder.encode hV hI hs.size
    obtain ⟨rfl, rfl⟩ : packet' = packet ∧ e' = e := by simpa [henc'] using henc
    refine ⟨_, ha.step (.send a), hs.pushed, hs.decoded, hpending.trans hs.encoder, hs.decoder,
      fun p hp => ?_, hs.acks, by simpa [hpending] using hs.size⟩
    rcases List.mem_cons.mp hp with rfl | hp
    · exact ⟨_, List.mem_cons_self, hcarries⟩
    · obtain ⟨w, hw, hc⟩ := hs.packets p hp
      exact ⟨w, List.mem_cons_of_mem _ hw, hc⟩
  | decode packet inputs d hp hdec =>
    obtain ⟨w, hw, hc⟩ := hs.packets packet hp
    obtain ⟨d', hdec', hhas⟩ := hs.decoder.decode hc (hi.windows w hw)
    obtain ⟨rfl, rfl⟩ : _ = inputs ∧ d' = d := by simpa [hdec'] using hdec
    refine ⟨_, ha.step (.deliver a w hw), hs.pushed, ?_, hs.encoder, hhas, hs.packets, hs.acks,
      hs.size⟩
    rw [hs.decoded, framed_append, zero_add]
  | sendAck =>
    refine ⟨_, ha.step (.ack a), hs.pushed, hs.decoded, hs.encoder, hs.decoder, hs.packets,
      fun ack hack => ?_, hs.size⟩
    rcases List.mem_cons.mp hack with rfl | hack
    · exact ⟨_, List.mem_cons_self, hs.decoder⟩
    · obtain ⟨n, hn, he⟩ := hs.acks ack hack
      exact ⟨n, List.mem_cons_of_mem _ hn, he⟩
  | acknowledge ack hack =>
    obtain ⟨n, hn, rfl⟩ := hs.acks ack hack
    refine ⟨_, ha.step (.acknowledge a n hn), hs.pushed, hs.decoded,
      hs.encoder.acknowledgeFrame n, hs.decoder, hs.packets, hs.acks, ?_⟩
    have hle : (s.encoder.acknowledgeFrame (n - 1)).pending.length ≤ s.encoder.pending.length := by
      rw [InputEncoder.pending_acknowledgeFrame]
      exact List.length_filter_le _ _
    exact (Nat.mul_le_mul_right _ hle).trans_lt hs.size

theorem reachable_implements (hV : Varinteger.RoundTrips) (hI : 0 < Pod.size I) {s : Stream I}
    (h : Reachable s) : ∃ a, ReliableStream.Reachable a ∧ s.Implements a := by
  induction h with
  | init => exact ⟨{}, .init, rfl, rfl, rfl, rfl, by simp, by simp, by simp⟩
  | step _ h ih =>
    obtain ⟨a, ha, hs⟩ := ih
    exact step_implements hV hI ha hs h

/-- The inputs are delivered once each, in order and under their own frames; what is missing is
still pending; and neither sending nor receiving ever fails. -/
theorem reachable_delivery (hV : Varinteger.RoundTrips) (hI : 0 < Pod.size I) {s : Stream I}
    (h : Reachable s) :
    (∃ k ≤ s.pushed.length, s.decoded = framed 0 (s.pushed.take k) ∧
      s.decoder.lastDecoded = (k : ℤ) - 1 ∧
      framed k (s.pushed.drop k) <:+ s.encoder.pending) ∧
    (∃ packet e, s.encoder.encode = .ok (.ok packet, e)) ∧
    ∀ packet ∈ s.packets, ∃ inputs d,
      s.decoder.decode (I := I) packet.1 packet.2 = .ok (.ok inputs, d) := by
  obtain ⟨a, ha, hs⟩ := reachable_implements hV hI h
  have hi := ReliableStream.reachable_inv ha
  have hfront := hi.front
  have hlen := hi.delivered.length_le
  refine ⟨⟨a.delivered.length, by rw [hs.pushed]; exact hlen, ?_, hs.decoder, ?_⟩, ?_, ?_⟩
  · rw [hs.decoded, hs.pushed, ← List.prefix_iff_eq_take.mp hi.delivered]
  · have hsplit : a.log.drop a.front = (a.log.drop a.front).take (a.delivered.length - a.front) ++
        a.log.drop a.delivered.length := by
      rw [← Nat.add_sub_cancel' (show a.front ≤ a.delivered.length by omega), ← List.drop_drop,
        Nat.add_sub_cancel_left, List.take_append_drop]
    have hstart : (a.front : ℤ) + ((a.log.drop a.front).take
        (a.delivered.length - a.front)).length = a.delivered.length := by
      rw [List.length_take, List.length_drop]
      omega
    rw [hs.encoder, hs.pushed, hsplit, framed_append, hstart]
    exact List.suffix_append _ _
  · obtain ⟨packet, e, henc, -⟩ := hs.encoder.encode hV hI hs.size
    exact ⟨packet, e, henc⟩
  · intro packet hp
    obtain ⟨w, hw, hc⟩ := hs.packets packet hp
    obtain ⟨d, hdec, -⟩ := hs.decoder.decode hc (hi.windows w hw)
    exact ⟨_, d, hdec⟩

end Stream

/-- Two inputs, of which the first was sent, delivered and acknowledged. -/
theorem Stream.reachable_delivery_run :
    letI : Build := ⟨true⟩
    letI := Varinteger.leb128
    ∃ s : Stream UInt8, s.decoded = [⟨0, 7⟩] ∧ s.acks = [0] ∧
      (∃ k ≤ s.pushed.length, s.decoded = framed 0 (s.pushed.take k) ∧
        s.decoder.lastDecoded = (k : ℤ) - 1 ∧
        framed k (s.pushed.drop k) <:+ s.encoder.pending) ∧
      (∃ packet e, s.encoder.encode = .ok (.ok packet, e)) ∧
      ∀ packet ∈ s.packets, ∃ inputs d,
        s.decoder.decode (I := UInt8) packet.1 packet.2 = .ok (.ok inputs, d) :=
  letI : Build := ⟨true⟩
  letI := Varinteger.leb128
  ⟨_, rfl, rfl, Stream.reachable_delivery Varinteger.leb128_roundTrips (by decide)
    (.step (.step (.step (.step (.step (.step .init (.push _ 7 (by decide)))
      (.encode _ (0, [2, 7]) _ rfl)) (.decode _ (0, [2, 7]) [⟨0, 7⟩] ⟨0⟩ (by simp) rfl))
      (.sendAck _)) (.push _ 9 (by decide))) (.acknowledge _ 0 (by simp)))⟩

end Backroll

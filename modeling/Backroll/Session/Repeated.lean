import Backroll.Session.DelayChange
import Backroll.Session.Homes
import Backroll.Session.Intake
import Backroll.Session.Wire

/-! Inputs given more than once for a frame. The queue of the local player drops the second one,
and the peers send it behind the first, as the input of the frame after. -/
namespace Backroll

open Fallible (Ends)

variable {n : ℕ} {I S : Type}

/-- The queue has discarded some of its inputs, and added none. -/
def InputQueue.KeepsLog [Zeroable I] (q q' : InputQueue I) : Prop :=
  ∀ log start, Stores q q.frameDelay log start → ∃ start', Stores q' q'.frameDelay log start'

theorem InputQueue.respects_keepsLog [Build] [Zeroable I] :
    InputQueue.Respects (KeepsLog (I := I)) where
  refl _ log start h := ⟨start, h⟩
  trans h h' log start hst := by
    obtain ⟨start₁, hst₁⟩ := h log start hst
    exact h' log start₁ hst₁
  setFrameDelay q delay := by
    cases hq : q.setFrameDelay delay with
    | error e => trivial
    | ok q' => exact fun log start hst => (hst.moves (.setFrameDelay delay q' hq)).1
  discardConfirmedFrames q frame := by
    cases hq : q.discardConfirmedFrames frame with
    | error e => trivial
    | ok q' => exact fun log start hst => (hst.moves (.discardConfirmedFrames frame q' hq)).1
  resetPrediction q frame := by
    cases hq : q.resetPrediction frame with
    | error e => trivial
    | ok q' => exact fun log start hst => (hst.moves (.resetPrediction frame q' hq)).1
  getInput q frame := by
    cases hq : q.getInput frame with
    | error e => trivial
    | ok r => exact fun log start hst => (hst.moves (.getInput frame r.1 r.2 hq)).1

/-- An accepted input: the frame it was given for, and the one the delay moves it to. -/
structure Deal (I : Type) where
  frame : ℤ
  input : I
  slot : ℤ

/-- The input last given for a frame. -/
def lastGiven (given : List (Deal I)) (frame : ℤ) : Option I :=
  ((given.filter fun d => d.frame = frame).getLast?).map Deal.input

theorem lastGiven_append (given : List (Deal I)) (d : Deal I) (frame : ℤ) :
    lastGiven (given ++ [d]) frame = if d.frame = frame then some d.input
      else lastGiven given frame := by
  by_cases h : d.frame = frame
  · simp [lastGiven, List.filter_append, h]
  · simp [lastGiven, List.filter_append, h]

/-- An input for a new frame leaves the other frames alone. -/
theorem lastGiven_append_of_some {given : List (Deal I)} {d : Deal I} {frame : ℤ} {x : I}
    (hnew : ∀ d' ∈ given, d'.frame ≠ d.frame) (h : lastGiven given frame = some x) :
    lastGiven (given ++ [d]) frame = some x := by
  rw [lastGiven_append, if_neg, h]
  rintro rfl
  obtain ⟨d', hd', -⟩ := Option.map_eq_some_iff.mp h
  obtain ⟨hmem, hframe⟩ := List.mem_filter.mp (List.mem_of_getLast? hd')
  exact hnew d' hmem (of_decide_eq_true hframe)

/-- What a packet decodes to, wherever the decoder stands, is some of what it was made of. -/
theorem decoded_mem [Build] [Varinteger] [Pod I] (hV : Varinteger.RoundTrips)
    {e e' : InputEncoder I} {packet : ℤ × List UInt8} {d d' : InputDecoder}
    {frames : List (FrameInput I)} {start : ℤ} {xs : List I} (hp : e.pending = framed start xs)
    (henc : e.encode = .ok (.ok packet, e'))
    (hdec : d.decode packet.1 packet.2 = .ok (.ok frames, d')) : ∀ x ∈ frames, x ∈ e.pending := by
  obtain ⟨inputs, k, hbits, -, rfl, -⟩ := InputDecoder.decode_eq_ok hdec
  unfold InputEncoder.encode at henc
  split at henc
  · obtain ⟨rfl⟩ := (Prod.mk.inj (Except.ok.inj henc)).1
    have hnil := hbits.symm.trans (Compression.decode_nil (Compression.decode_pos hbits) _)
    simp only [Except.ok.injEq] at hnil
    simp [hnil]
  · next front rest hpending =>
    obtain ⟨result, hencode, henc⟩ := Fallible.bind_eq_ok.mp henc
    cases result with
    | error err => simp at henc
    | ok bits =>
      obtain ⟨rfl⟩ := (Prod.mk.inj (Except.ok.inj henc)).1
      have hinputs := Compression.decode_encode hV hencode hbits
      rw [hp, map_input_framed] at hinputs
      subst hinputs
      have hfront : front.frame = start := by
        have hcons : framed start inputs = front :: rest := hp.symm.trans hpending
        cases inputs with
        | nil => simp at hcons
        | cons x xs =>
          rw [framed_cons, List.cons.injEq] at hcons
          rw [← hcons.1]
      intro x hx
      rw [hfront] at hx
      rw [hp]
      exact mem_framed_of_drop hx

/-- A session, the inputs it has accepted, and the packets its peers have sent. -/
structure Ledger (n : ℕ) (I S : Type) where
  session : Session n I S
  given : Fin n → List (Deal I)
  sent : Fin n → List (ℤ × List UInt8)

namespace Ledger

/-- The queue of a player. -/
def queue (t : Ledger n I S) (i : Fin n) : InputQueue I := t.session.sync.inputQueues i

def start (s : Session n I S) : Ledger n I S := ⟨s, fun _ => [], fun _ => []⟩

/-- An input is added for the first time in its frame, to a queue that has not reached its slot
yet; and while a peer runs, for the only local player, behind the input of the frame before if one
still waits for that peer. -/
def Timely (t : Ledger n I S) : Option (Fin n) → Prop
  | none => True
  | some i => (∀ d ∈ t.given i, d.frame ≠ t.session.sync.frameCount) ∧
    (t.queue i).lastAddedFrame < t.session.sync.frameCount + (t.queue i).frameDelay ∧
    ∀ j peer, t.session.players j = .remote peer → peer.isRunning = true →
      (∀ k, (t.session.players k).isLocal = true → k = i) ∧
        ∀ x, peer.inputEncoder.pending.getLast? = some x → x.frame + 1 = t.session.sync.frameCount

section Steps

variable [Build] [BEq I] [Varinteger] [Pod I]

/-- An input is accepted, for one player; or anything else happens: another call, something that
the tasks of the peers do, the client executes a command, or a peer sends what waits. -/
inductive Step (t : Ledger n I S) : Option (Fin n) → Ledger n I S → Prop
  | give (i : Fin n) (input s) (h : t.session.addLocalInput i input = .ok (.ok (), s)) :
    Step t (some i) { t with
      session := s
      given := Function.update t.given i (t.given i ++ [⟨t.session.sync.frameCount, input,
        t.session.sync.frameCount + (t.queue i).frameDelay⟩]) }
  | refused (player input err s) (h : t.session.addLocalInput player input = .ok (.error err, s)) :
    Step t none { t with session := s }
  | call (c commands s) (hc : ∀ player input, c ≠ .addLocalInput player input)
    (h : t.session.make c = .ok (commands, s)) : Step t none { t with session := s }
  | peers (events s) (h : t.session.Interferes events s) : Step t none { t with session := s }
  | client (frames) (h : ∀ c, (frames c).frame = (t.session.sync.savedState.frames c).frame) :
    Step t none { t with session := t.session.setFrames frames }
  | send (j peer packet encoder) (hj : t.session.players j = .remote peer)
    (h : peer.inputEncoder.encode = .ok (.ok packet, encoder)) :
    Step t none { t with sent := Function.update t.sent j (t.sent j ++ [packet]) }

/-- The queue and the remote players have the inputs that were last given: the newest frame of
the queue is that of the last input, a slot that an input was moved to holds the last one given
for its frame, and so does every frame that is decoded of a packet. -/
structure Overwrites (t : Ledger n I S) : Prop where
  newest : ∀ i d, (t.given i).getLast? = some d →
    (t.queue i).inputs (previousFrame (t.queue i).head) = ⟨d.slot, d.input⟩
  stored : ∀ i, ∀ d ∈ t.given i, ∀ c, ((t.queue i).inputs c).frame = d.slot →
    lastGiven (t.given i) d.frame = some ((t.queue i).inputs c).input
  decoded : ∀ i, (t.session.players i).isLocal = true → ∀ j, ∀ packet ∈ t.sent j,
    ∀ (d : InputDecoder) (frames : List (FrameInput I)) (d' : InputDecoder),
    d.decode packet.1 packet.2 = .ok (.ok frames, d') →
      ∀ x ∈ frames, lastGiven (t.given i) x.frame = some x.input

end Steps

/-- The log of a queue has the inputs in their slots, the last one at the end. -/
structure Records (given : List (Deal I)) (log : List I) : Prop where
  slots : ∀ d ∈ given, ∃ k : ℕ, d.slot = k ∧ log[k]? = some d.input
  last : ∀ d, given.getLast? = some d → d.slot = log.length - 1

/-- What the steps keep, as long as each input is timely. -/
structure Sound [Build] [Varinteger] [Pod I] (t : Ledger n I S) : Prop where
  settled : t.session.Settled
  count : 0 ≤ t.session.sync.frameCount
  home : ∀ i, t.given i ≠ [] → (t.session.players i).isLocal = true
  single : ∀ i, ∀ d ∈ t.given i, lastGiven (t.given i) d.frame = some d.input
  log : ∀ i, (t.session.players i).isLocal = true → ∃ log start,
    Stores (t.queue i) (t.queue i).frameDelay log start ∧ Records (t.given i) log
  waits : ∀ j, ∃ start xs, (t.session.players j).pending = framed start xs
  pending : ∀ i, (t.session.players i).isLocal = true → ∀ j, ∀ x ∈ (t.session.players j).pending,
    lastGiven (t.given i) x.frame = some x.input
  decoded : ∀ i, (t.session.players i).isLocal = true → ∀ j, ∀ packet ∈ t.sent j,
    ∀ (d : InputDecoder) (frames : List (FrameInput I)) (d' : InputDecoder),
    d.decode packet.1 packet.2 = .ok (.ok frames, d') →
      ∀ x ∈ frames, lastGiven (t.given i) x.frame = some x.input

variable {t t' : Ledger n I S}

theorem Sound.overwrites [Build] [BEq I] [Varinteger] [Pod I] (h : t.Sound) : t.Overwrites := by
  refine ⟨fun i d hd => ?_, fun i d hd c hc => ?_, h.decoded⟩
  · have hmem := List.mem_of_getLast? hd
    obtain ⟨log, start, hst, hrec⟩ := h.log i (h.home i (List.ne_nil_of_mem hmem))
    have hlast := hrec.last d hd
    obtain ⟨k, hk, hinput⟩ := hrec.slots d hmem
    rw [hst.inputs_previous, ← hlast, LogQueue.lastOf, List.getLast?_eq_getElem?,
      show log.length - 1 = k by omega, hinput]
    rfl
  · obtain ⟨log, start, hst, hrec⟩ := h.log i (h.home i (List.ne_nil_of_mem hd))
    obtain ⟨k, hk, hinput⟩ := hrec.slots d hd
    rw [hk] at hc
    rw [h.single i d hd, ← hinput, hst.input_of_frame hc]

theorem start_sound [Build] [Varinteger] [Pod I] {players : Fin n → Player} {delay : ℤ}
    {randoms : Fin n → ℕ} {s : Session n I S} (hnew : Session.new players delay randoms = .ok s) :
    (start s).Sound := by
  have hsettled := Session.settled_new hnew
  have hremote := fun i peer => @Session.remote_new _ _ _ _ _ _ _ _ hnew i peer
  obtain rfl := Session.new_eq hnew
  have hnone : ∀ j p, (start _).session.players j = p → p.pending = [] := fun j p hp => by
    cases p with
    | localPlayer => rfl
    | remote peer =>
      obtain ⟨-, rfl⟩ := hremote j peer hp
      rfl
  refine ⟨hsettled, le_rfl, fun i hi => absurd rfl hi, by simp [start],
    fun i _ => ⟨[], 0, (Follows.new delay).stores, by simp [start], by simp [start]⟩,
    fun j => ⟨0, [], hnone j _ rfl⟩, fun i _ j x hx => ?_, by simp [start]⟩
  rw [hnone j _ rfl] at hx
  exact absurd hx List.not_mem_nil

/-- A step in which no input is accepted. -/
theorem Sound.quiet [Build] [Varinteger] [Pod I] (h : t.Sound) {k : ℕ} {s : Session n I S}
    (hlater : t.session.Later k s) (hhomes : Session.Homes InputQueue.KeepsLog t.session s)
    (hpending : ∀ j start xs, (t.session.players j).pending = framed start xs →
      ∃ k : ℕ, (s.players j).pending = framed (start + k) (xs.drop k)) :
    ({ t with session := s } : Ledger n I S).Sound := by
  have hcount := hlater.count
  have hpos := h.count
  have hlocal : ∀ i, (s.players i).isLocal = (t.session.players i).isLocal := fun i =>
    (hlater.kept i).isLocal
  refine ⟨hlater.settled, by dsimp only; omega, fun i hi => (hlocal i).trans (h.home i hi),
    h.single, fun i hi => ?_, fun j => ?_, fun i hi j x hx => ?_,
    fun i hi => h.decoded i ((hlocal i).symm.trans hi)⟩
  · have hi' := (hlocal i).symm.trans hi
    obtain ⟨log, start, hst, hrec⟩ := h.log i hi'
    obtain ⟨start', hst'⟩ := (hhomes i hi').2 log start hst
    exact ⟨log, start', hst', hrec⟩
  · obtain ⟨start, xs, hxs⟩ := h.waits j
    obtain ⟨k, hk⟩ := hpending j start xs hxs
    exact ⟨_, _, hk⟩
  · obtain ⟨start, xs, hxs⟩ := h.waits j
    obtain ⟨k, hk⟩ := hpending j start xs hxs
    refine h.pending i ((hlocal i).symm.trans hi) j x ?_
    rw [hxs]
    rw [show (s.players j).pending = _ from hk] at hx
    exact mem_framed_of_drop hx

/-- A timely input is stored in its slot, behind what is there. -/
theorem Records.give {given : List (Deal I)} {log pad : List I} {d : Deal I}
    (h : Records given log) (hslot : d.slot = (log ++ pad).length) :
    Records (given ++ [d]) (log ++ pad ++ [d.input]) := by
  refine ⟨fun d' hd' => ?_, fun d' hd' => ?_⟩
  · rcases List.mem_append.mp hd' with hd' | hd'
    · obtain ⟨k, hk, hinput⟩ := h.slots d' hd'
      have hlt := (List.getElem?_eq_some_iff.mp hinput).1
      exact ⟨k, hk, by rwa [List.append_assoc, List.getElem?_append_left hlt]⟩
    · obtain rfl := List.mem_singleton.mp hd'
      exact ⟨_, hslot, by simp⟩
  · obtain rfl : d = d' := by simpa using hd'
    simp only [List.length_append, List.length_singleton] at hslot ⊢
    omega

section Runs

variable [Build] [BEq I] [Varinteger] [Pod I]

omit [Varinteger] in
theorem Records.addInput {given : List (Deal I)} {log : List I} {start : ℕ} {q q' : InputQueue I}
    {frame slot : ℤ} {input : I} (h : Records given log) (hst : Stores q q.frameDelay log start)
    (hfree : q.lastAddedFrame < frame + q.frameDelay)
    (hq : q.addInput ⟨frame, input⟩ = .ok (slot, q')) : ∃ log start,
    Stores q' q'.frameDelay log start ∧ Records (given ++ [⟨frame, input, frame + q.frameDelay⟩]) log := by
  have hlast := hst.lastAdded
  obtain ⟨-, hst'⟩ := (hst.addInput_free ⟨frame, input⟩ (by dsimp only; omega)).ok hq
  refine ⟨_, start, by rw [hst'.delay]; exact hst', h.give ?_⟩
  simp only [List.length_append, List.length_replicate]
  omega

theorem Sound.give (h : t.Sound) {i : Fin n} {input : I} {s : Session n I S}
    (htimely : t.Timely (some i)) (hadd : t.session.addLocalInput i input = .ok (.ok (), s)) :
    Sound { t with
      session := s
      given := Function.update t.given i (t.given i ++ [⟨t.session.sync.frameCount, input,
        t.session.sync.frameCount + (t.queue i).frameDelay⟩]) } := by
  obtain ⟨hnew, hfree, hruns⟩ := htimely
  obtain ⟨i', hi', hacc⟩ := (Session.addLocalInput_accepted h.settled h.count i input).ok hadd
  obtain rfl : i' = i := Fin.ext hi'
  obtain ⟨slot, q, hq, hqueues⟩ := Session.addLocalInput_queues hadd
  obtain ⟨d, hd⟩ : ∃ d : Deal I, d = ⟨t.session.sync.frameCount, input,
    t.session.sync.frameCount + (t.queue i').frameDelay⟩ := ⟨_, rfl⟩
  have hlocal : ∀ j, (s.players j).isLocal = (t.session.players j).isLocal := fun j =>
    (hacc.kept j).isLocal
  have hcount : s.sync.frameCount = t.session.sync.frameCount := by simpa using hacc.count
  rw [← hd]
  -- What was last given for a frame stays so, since this frame is a new one.
  have hkeeps : ∀ j frame x, lastGiven (t.given j) frame = some x →
      lastGiven (Function.update t.given i' (t.given i' ++ [d]) j) frame = some x := by
    intro j frame x hx
    by_cases hj : j = i'
    · subst hj
      rw [Function.update_self]
      exact lastGiven_append_of_some (by rw [hd]; exact hnew) hx
    · rwa [Function.update_of_ne hj]
  refine ⟨hacc.settled, hcount ▸ h.count, fun j hj => ?_, fun j d' hd' => ?_, fun j hj => ?_,
    fun j => ?_, fun j hj k x hx => ?_,
    fun j hj k packet hpacket dec frames dec' hdec x hx => ?_⟩
  · dsimp only
    rw [hlocal]
    by_cases heq : j = i'
    · exact heq ▸ hacc.home
    · exact h.home j (by simpa [Function.update_of_ne heq] using hj)
  · by_cases heq : j = i'
    · subst heq
      simp only [Function.update_self] at hd' ⊢
      rcases List.mem_append.mp hd' with hd' | hd'
      · exact lastGiven_append_of_some (by rw [hd]; exact hnew) (h.single j d' hd')
      · obtain rfl := List.mem_singleton.mp hd'
        rw [lastGiven_append, if_pos rfl]
    · simp only [Function.update_of_ne heq] at hd' ⊢
      exact h.single j d' hd'
  · obtain ⟨log, start, hst, hrec⟩ := h.log j ((hlocal j).symm.trans hj)
    by_cases heq : j = i'
    · subst heq
      have hqueue : ({ t with session := s, given := Function.update t.given j (t.given j ++ [d]) } :
          Ledger n I S).queue j = q := by
        rw [queue, hqueues, Function.update_self]
      rw [hqueue, hd]
      dsimp only
      rw [Function.update_self]
      exact hrec.addInput hst hfree hq
    · refine ⟨log, start, ?_, ?_⟩
      · rw [queue, hqueues, Function.update_of_ne heq]
        exact hst
      · dsimp only
        rwa [Function.update_of_ne heq]
  · obtain ⟨start, xs, hxs⟩ := h.waits j
    rcases (hacc.pending j).pending_eq with hsame | ⟨peer, hp, hrun, hpush⟩
    · exact ⟨start, xs, hsame.trans hxs⟩
    · have hxs' : peer.inputEncoder.pending = framed start xs := by rwa [hp] at hxs
      have hlast := (hruns j peer hp hrun).2
      rw [hxs'] at hlast
      obtain ⟨start', hstart'⟩ := framed_push input hlast
      exact ⟨start', xs ++ [input], by rw [hpush, hxs, hstart']⟩
  · rcases (hacc.pending k).pending_eq with hsame | ⟨peer, hp, hrun, hpush⟩
    · exact hkeeps j x.frame x.input
        (h.pending j ((hlocal j).symm.trans hj) k x (hsame ▸ hx))
    · rw [show (s.players k).pending = _ from hpush] at hx
      rcases List.mem_append.mp hx with hx | hx
      · exact hkeeps j x.frame x.input (h.pending j ((hlocal j).symm.trans hj) k x hx)
      · obtain rfl := (hruns k peer hp hrun).1 j ((hlocal j).symm.trans hj)
        obtain rfl := List.mem_singleton.mp hx
        dsimp only
        rw [Function.update_self, lastGiven_append, if_pos (by rw [hd]), hd]
  · exact hkeeps j x.frame x.input
      (h.decoded j ((hlocal j).symm.trans hj) k packet hpacket dec frames dec' hdec x hx)

theorem make_homes {R : InputQueue I → InputQueue I → Prop} (hR : InputQueue.Respects R)
    {s : Session n I S} (hs : s.Settled) {c : Call I}
    (hc : ∀ player input, c ≠ .addLocalInput player input) :
    Ends (s.make c) (fun r => Session.Homes R s r.2 ∧ (∃ k, s.Later k r.2) ∧
      ∀ j, (r.2.players j).pending = (s.players j).pending) fun _ => True := by
  cases c with
  | poll =>
    exact ((Session.doPoll_homes hR hs).and (Session.doPoll_polled hs)).imp fun r hr =>
      ⟨hr.1, ⟨_, hr.2.toLater⟩, hr.2.pending⟩
  | advanceFrame =>
    exact ((Session.advanceFrame_homes hR hs).and (Session.advanceFrame_polled hs)).imp
      fun r hr => ⟨hr.1, ⟨_, hr.2.toLater⟩, hr.2.pending⟩
  | addLocalInput player input => exact absurd rfl (hc player input)
  | setFrameDelay player delay =>
    exact ((Session.setFrameDelay_homes hR s player delay).and
      (Session.setFrameDelay_steady hs player delay)).bind fun r hr =>
        ⟨hr.1, ⟨_, hr.2.toLater⟩, hr.2.pending⟩
  | disconnectPlayer player =>
    refine ((Session.disconnectPlayer_homes hR s player).and
      (Session.disconnectPlayer_later hs player)).bind fun r hr => ?_
    obtain ⟨result, s'⟩ := r
    cases result with
    | error err => exact ⟨hr.1, ⟨_, hr.2.1⟩, hr.2.2⟩
    | ok commands => exact ⟨hr.1, ⟨_, hr.2.1⟩, hr.2.2⟩

theorem step_sound (hV : Varinteger.RoundTrips) (h : t.Sound) {label : Option (Fin n)}
    (htimely : t.Timely label) (hstep : t.Step label t') : t'.Sound := by
  cases hstep with
  | give i input s hadd => exact h.give htimely hadd
  | refused player input err s hadd =>
    obtain rfl := (Session.addLocalInput_accepted h.settled h.count player input).ok hadd
    exact h
  | call c commands s hc hmake =>
    obtain ⟨hhomes, ⟨k, hlater⟩, hpending⟩ :=
      (make_homes InputQueue.respects_keepsLog h.settled hc).ok hmake
    exact h.quiet hlater hhomes fun j start xs hxs => ⟨0, by simpa [hxs] using hpending j⟩
  | peers events s hs =>
    refine h.quiet (hs.later h.settled) (fun i hi => ⟨?_, ?_⟩) fun j start xs hxs => ?_
    · rw [((hs.later h.settled).kept i).isLocal, hi]
    · rw [hs.sync]
      exact InputQueue.respects_keepsLog.refl _
    · have hshares := hs.players j
      generalize events j = sent at hshares
      generalize t.session.players j = p at hxs hshares
      generalize s.players j = p' at hshares
      cases hshares with
      | localPlayer => exact ⟨0, by simpa using hxs⟩
      | remote _ peer peer' acks hstatus hstate hpending hqueue hclosed =>
        obtain ⟨k, hk⟩ := pending_acknowledgeFrames hxs acks
        exact ⟨k, hpending.trans hk⟩
  | client frames hlabel =>
    have hsettled := h.settled.setFrames hlabel
    have hlater : t.session.Later 0 (t.session.setFrames frames) :=
      (Session.Steady.refl h.settled).toLater.setFrames hlabel
    exact h.quiet hlater (fun i hi => ⟨hi, InputQueue.respects_keepsLog.refl _⟩)
      fun j start xs hxs => ⟨0, by simpa [Session.setFrames] using hxs⟩
  | send j peer packet encoder hj hencode =>
    refine { h with decoded := fun i hi k p hp d frames d' hdec x hx => ?_ }
    dsimp only at hp hi ⊢
    by_cases hk : k = j
    · subst hk
      rw [Function.update_self] at hp
      rcases List.mem_append.mp hp with hp | hp
      · exact h.decoded i hi k p hp d frames d' hdec x hx
      · obtain rfl := List.mem_singleton.mp hp
        obtain ⟨start, xs, hxs⟩ := h.waits k
        refine h.pending i hi k x ?_
        rw [hj] at hxs ⊢
        exact decoded_mem hV hxs hencode hdec x hx
    · rw [Function.update_of_ne hk] at hp
      exact h.decoded i hi k p hp d frames d' hdec x hx

/-- All runs. -/
def Reaches : Ledger n I S → Ledger n I S → Prop :=
  Relation.ReflTransGen fun t t' => ∃ label, t.Step label t'

/-- The runs in which every input is timely. -/
def Run : Ledger n I S → Ledger n I S → Prop :=
  Relation.ReflTransGen fun t t' => ∃ label, t.Timely label ∧ t.Step label t'

/-- As long as every input is timely, the queue of its player and the remote players have for
each frame the input that was last given for it. -/
theorem run_overwrites (hV : Varinteger.RoundTrips) {players : Fin n → Player} {delay : ℤ}
    {randoms : Fin n → ℕ} {s : Session n I S} (hnew : Session.new players delay randoms = .ok s)
    (hrun : Run (start s) t) : t.Overwrites := by
  refine Sound.overwrites ?_
  induction hrun with
  | refl => exact start_sound hnew
  | tail _ hstep ih =>
    obtain ⟨label, htimely, hstep⟩ := hstep
    exact step_sound hV ih htimely hstep

end Runs

/-- In a session of two, where nothing waits for the other player. -/
theorem timely_pair {t : Ledger 2 I S} {peer : Peer I} (h0 : t.session.players 0 = .localPlayer)
    (h1 : t.session.players 1 = .remote peer) (hempty : peer.inputEncoder.pending = [])
    (hnew : ∀ d ∈ t.given 0, d.frame ≠ t.session.sync.frameCount)
    (hfree : (t.queue 0).lastAddedFrame < t.session.sync.frameCount + (t.queue 0).frameDelay) :
    t.Timely (some 0) := by
  refine ⟨hnew, hfree, fun j peer' hj _ => ⟨fun k hk => ?_, fun x hx => ?_⟩⟩
  · obtain rfl | rfl : k = 0 ∨ k = 1 := by omega
    · rfl
    · simp [h1, PlayerType.isLocal, PlayerType.peer?] at hk
  · obtain rfl | rfl : j = 0 ∨ j = 1 := by omega
    · simp [h0] at hj
    · obtain rfl : peer = peer' := by simpa [h1] using hj
      simp [hempty] at hx

theorem run_overwrites_first :
    letI : Build := ⟨true⟩
    letI := Varinteger.leb128
    ∃ t : Ledger 2 UInt8 ℕ, t.given 0 = [⟨0, 3, 0⟩] ∧ t.sent 1 = [(0, [2, 3])] ∧ t.Overwrites := by
  let build : Build := ⟨true⟩
  let varint := Varinteger.leb128
  have hmet : Run (start newPair) ⟨connectedPair.session, fun _ => [], fun _ => []⟩ :=
    .tail .refl ⟨none, trivial, .peers _ _ connectedPair_interferes⟩
  have hpoll : Run (start newPair) _ := hmet.tail ⟨none, trivial, .call .poll _ _ (by simp) rfl⟩
  have hgive : Run (start newPair) _ := hpoll.tail
    ⟨some 0, timely_pair rfl rfl rfl (by simp) (by decide), .give 0 3 _ rfl⟩
  have hsend : Run (start newPair) _ := hgive.tail ⟨none, trivial, .send 1 _ _ _ rfl rfl⟩
  exact ⟨_, rfl, rfl, run_overwrites Varinteger.leb128_roundTrips connectedPair_new hsend⟩

/-- The pair without debug assertions: it polls, and is given inputs for frame 0. -/
def givenPair (inputs : List UInt8) : Session 2 UInt8 ℕ :=
  letI : Build := ⟨false⟩
  letI := Varinteger.leb128
  let polled := match connectedPair.session.make .poll with
    | .ok (_, s) => s
    | .error _ => connectedPair.session
  inputs.foldl (fun s input => match s.addLocalInput 0 input with
    | .ok (_, s) => s
    | .error _ => s) polled

/-- Without debug assertions, of two inputs for frame 0 the queue keeps the first, and the remote
player takes the second for that of frame 1. -/
theorem not_overwrites_twice :
    letI : Build := ⟨false⟩
    letI := Varinteger.leb128
    ∃ t : Ledger 2 UInt8 ℕ, Reaches (start newPair) t ∧ t.given 0 = [⟨0, 3, 0⟩, ⟨0, 4, 0⟩] ∧
      (t.queue 0).inputs 0 = ⟨0, 3⟩ ∧ t.sent 1 = [(0, [4, 3, 7])] ∧
      ({} : InputDecoder).decode 0 [4, 3, 7] = .ok (.ok [⟨0, 3⟩, (⟨1, 4⟩ : FrameInput UInt8)], ⟨1⟩) ∧
      ¬t.Overwrites := by
  let build : Build := ⟨false⟩
  let varint := Varinteger.leb128
  have hmet : Reaches (start newPair) ⟨connectedPair.session, fun _ => [], fun _ => []⟩ :=
    .tail .refl ⟨none, .peers _ _ connectedPair_interferes⟩
  have hpoll : Reaches (start newPair) ⟨givenPair [], fun _ => [], fun _ => []⟩ :=
    hmet.tail ⟨none, .call .poll _ _ (by simp) rfl⟩
  have hfirst : Reaches (start newPair) _ := hpoll.tail ⟨some 0, .give 0 3 (givenPair [3]) rfl⟩
  have hsecond : Reaches (start newPair) _ :=
    hfirst.tail ⟨some 0, .give 0 4 (givenPair [3, 4]) rfl⟩
  have hsend : Reaches (start newPair) _ := hsecond.tail ⟨none, .send 1 _ _ _ rfl rfl⟩
  refine ⟨_, hsend, rfl, rfl, rfl, rfl, fun h => ?_⟩
  have hnewest := h.newest 0 ⟨0, 4, 0⟩ rfl
  exact absurd (congrArg FrameInput.input hnewest) (by decide)

end Ledger

end Backroll

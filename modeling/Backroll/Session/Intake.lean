import Backroll.Session.Calls
import Backroll.Input.Room
import Mathlib.Logic.Relation

/-! What one remote player can do to a session with its Input messages. The decoder skips what
it has returned before and takes any other start frame as it comes; the queue fills the frames
in between. Neither checks that they are few. -/
namespace Backroll

open Fallible (Ends)

/-- The way of one player's inputs: the decoder of its peer, all it has returned so far, what
of this waits in the event channel, and the session that takes it from there. -/
structure Intake (n : ℕ) (I S : Type) where
  decoder : InputDecoder
  returned : List (FrameInput I)
  waiting : List (FrameInput I)
  session : Session n I S

variable {n : ℕ} {I S : Type}

/-- An input that is handed over goes to the player's queue. -/
theorem Session.handleInput_adds [Build] [BEq I] {player : Fin n} {s s' : Session n I S}
    {input : FrameInput I} (h : s.handleInput player input = .ok s') :
    ∃ slot, (s.sync.inputQueues player).addInput input =
      .ok (slot, s'.sync.inputQueues player) := by
  obtain ⟨-, -, h⟩ := Fallible.bind_eq_ok.mp h
  obtain ⟨sync, hsync, h⟩ := Fallible.bind_eq_ok.mp h
  obtain rfl := Except.ok.inj h
  obtain ⟨⟨slot, q⟩, hadd, h⟩ := Fallible.bind_eq_ok.mp hsync
  obtain rfl := Except.ok.inj h
  exact ⟨slot, by simpa [setStatus] using hadd⟩

section Operations

variable [Build] [Zeroable I]

/-- What a session does to the queue of a remote player besides adding inputs. -/
inductive InputQueue.Moves (q : InputQueue I) : InputQueue I → Prop
  | stay : Moves q q
  | setFrameDelay (delay q') (h : q.setFrameDelay delay = .ok q') : Moves q q'
  | discardConfirmedFrames (frame q') (h : q.discardConfirmedFrames frame = .ok q') : Moves q q'
  | resetPrediction (frame q') (h : q.resetPrediction frame = .ok q') : Moves q q'
  | getInput (frame fetched q') (h : q.getInput frame = .ok (fetched, q')) : Moves q q'

/-- Nothing but an added input takes room. -/
theorem Stores.moves {q q' : InputQueue I} {delay : ℤ} {log : List I} {start : ℕ}
    (h : Stores q delay log start) (hm : q.Moves q') :
    (∃ start', Stores q' q'.frameDelay log start') ∧ q'.length ≤ q.length := by
  have hstart := h.start_le
  have hlength := h.length
  cases hm with
  | stay => exact ⟨⟨start, { h with delay := rfl }⟩, le_rfl⟩
  | setFrameDelay delay _ hq =>
    obtain ⟨-, -, hq⟩ := Fallible.bind_eq_ok.mp hq
    obtain rfl := Except.ok.inj hq
    exact ⟨⟨start, { h with delay := rfl }⟩, le_rfl⟩
  | resetPrediction frame _ hq =>
    obtain ⟨-, -, hq⟩ := Fallible.bind_eq_ok.mp hq
    obtain rfl := Except.ok.inj hq
    exact ⟨⟨start, { h with delay := rfl }⟩, le_rfl⟩
  | discardConfirmedFrames frame _ hq =>
    obtain ⟨-, -, hq⟩ := Fallible.bind_eq_ok.mp hq
    dsimp only at hq
    generalize (if isNull q.lastFrameRequested then min frame q.lastFrameRequested
      else frame) = bound at hq
    split at hq
    · obtain rfl := Except.ok.inj hq
      exact ⟨⟨log.length, { h with
        delay := rfl
        start_le := le_rfl
        tail := h.head
        length := (Nat.sub_self _).symm }⟩, Nat.zero_le _⟩
    · obtain ⟨offset, -, hq⟩ := Fallible.bind_eq_ok.mp hq
      split at hq
      · next hle =>
        obtain rfl := Except.ok.inj hq
        refine ⟨⟨start + offset, { h with
          delay := rfl
          start_le := by omega
          tail := ?_
          length := by dsimp only; omega }⟩, Nat.sub_le _ _⟩
        rw [h.tail]
        exact Fin.ext (Nat.mod_add_mod _ _ _)
      · cases hq
  | getInput frame fetched _ hq =>
    obtain ⟨-, -, hq⟩ := Fallible.bind_eq_ok.mp hq
    obtain ⟨-, -, hq⟩ := Fallible.bind_eq_ok.mp hq
    dsimp only at hq
    split at hq
    · obtain ⟨offset, -, hq⟩ := Fallible.bind_eq_ok.mp hq
      split at hq
      · obtain ⟨-, -, hq⟩ := Fallible.bind_eq_ok.mp hq
        obtain ⟨-, rfl⟩ := Prod.mk.inj (Except.ok.inj hq)
        exact ⟨⟨start, { h with delay := rfl }⟩, le_rfl⟩
      · obtain ⟨-, rfl⟩ := Prod.mk.inj (Except.ok.inj hq)
        exact ⟨⟨start, { h with delay := rfl }⟩, le_rfl⟩
    · obtain ⟨-, rfl⟩ := Prod.mk.inj (Except.ok.inj hq)
      exact ⟨⟨start, { h with delay := rfl }⟩, le_rfl⟩

end Operations

namespace Intake

/-- The queue that the inputs of a player go to. -/
def queue (r : Intake n I S) (player : Fin n) : InputQueue I := r.session.sync.inputQueues player

/-- Nothing has arrived at a new session yet. -/
def start (s : Session n I S) : Intake n I S := ⟨{}, [], [], s⟩

/-- A message of the player's peer, its inputs taken out of the channel one by one, and
whatever the session does in between. -/
inductive Action
  | message (startFrame : ℤ) (bits : List UInt8)
  | hand
  | play

/-- The frames returned count up from 0, and those in the queue are all there. -/
structure Intact (player : Fin n) (r : Intake n I S) : Prop where
  consecutive : r.returned = framed 0 (r.returned.map (·.input))
  room : (r.queue player).length ≤ maxRollbackFrames
  undamaged : (r.queue player).Undamaged

/-- What the steps keep. -/
structure Sound [Zeroable I] (player : Fin n) (r : Intake n I S) : Prop where
  intact : r.Intact player
  decoded : r.decoder.lastDecoded = r.returned.length - 1
  stores : ∃ log start, Stores (r.queue player) (r.queue player).frameDelay log start

theorem start_sound [Zeroable I] {players : Fin n → Player} {delay : ℤ} {randoms : Fin n → ℕ}
    {s : Session n I S} (hs : Session.new players delay randoms = .ok s) (player : Fin n) :
    (start s).Sound player := by
  have hq : s.sync.inputQueues player = InputQueue.new delay := by
    unfold Session.new at hs
    dsimp only at hs
    split at hs
    · cases hs
    · obtain rfl := Except.ok.inj hs
      rfl
  have hst : Stores ((start s).queue player) ((start s).queue player).frameDelay [] 0 := by
    show Stores (s.sync.inputQueues player) (s.sync.inputQueues player).frameDelay [] 0
    rw [hq]
    exact (Follows.new delay).stores
  have hroom : ((start s).queue player).length ≤ maxRollbackFrames := by
    rw [hst.length]
    exact Nat.zero_le _
  exact ⟨⟨rfl, hroom, hst.undamaged_iff.mpr hroom⟩, rfl, _, _, hst⟩

variable [Build] [Varinteger] [Pod I]

/-- A message that carries on where the decoder stands, or repeats; and an input for which the
queue has room, along with the frames before it. -/
def Fits (player : Fin n) (r : Intake n I S) : Action → Prop
  | .message startFrame bits => Compression.decode (Zeroable.zeroed : I) bits = .ok (.ok []) ∨
    if isNull r.decoder.lastDecoded then startFrame = 0
    else startFrame ≤ r.decoder.lastDecoded + 1
  | .hand => ∀ input ∈ r.waiting.head?, (r.queue player).length +
      (input.frame + (r.queue player).frameDelay - (r.queue player).lastAddedFrame).toNat ≤
        maxRollbackFrames
  | .play => True

variable {player : Fin n} {r r' : Intake n I S} {action : Action}

/-- A message that fits carries on where the decoder stands, or repeats what it has returned. -/
theorem fits_message_iff (h : r.Sound player) {startFrame : ℤ} {bits : List UInt8} {inputs : List I}
    {k : ℕ} (hdec : Compression.decode Zeroable.zeroed bits = .ok (.ok inputs))
    (hk : k = if isNull r.decoder.lastDecoded then 0
      else (r.decoder.lastDecoded + 1 - startFrame).toNat) :
    r.Fits player (.message startFrame bits) ↔
      inputs.drop k = [] ∨ startFrame + k = r.returned.length := by
  have hlast := h.decoded
  have hfits : r.Fits player (.message startFrame bits) ↔ inputs = [] ∨
      if isNull r.decoder.lastDecoded then startFrame = 0
      else startFrame ≤ r.decoder.lastDecoded + 1 := by
    simp [Fits, hdec]
  rw [hfits]
  by_cases hnull : isNull r.decoder.lastDecoded
  · rw [if_pos hnull] at hk ⊢
    have hempty : (r.returned.length : ℤ) = 0 := by omega
    rw [hk, hempty]
    simp
  · rw [if_neg hnull] at hk ⊢
    rw [List.drop_eq_nil_iff]
    by_cases hle : startFrame ≤ r.decoder.lastDecoded + 1
    · simp only [hle, or_true, true_iff]
      omega
    · simp only [hle, or_false]
      rw [← List.length_eq_zero_iff]
      omega

variable [BEq I]

inductive Step (player : Fin n) (r : Intake n I S) : Action → Intake n I S → Prop
  | message (startFrame bits frames decoder)
    (h : r.decoder.decode startFrame bits = .ok (.ok frames, decoder)) :
    Step player r (.message startFrame bits) { r with
      decoder := decoder
      returned := r.returned ++ frames
      waiting := r.waiting ++ frames }
  | hand (input waiting s) (hw : r.waiting = input :: waiting)
    (h : r.session.handleInput player input = .ok s) :
    Step player r .hand { r with waiting := waiting, session := s }
  | play (s : Session n I S) (h : (r.queue player).Moves (s.sync.inputQueues player)) :
    Step player r .play { r with session := s }

/-- A step keeps the frames in order and the queue undamaged exactly if it fits. -/
theorem step_intact_iff (h : r.Sound player) (hstep : r.Step player action r') :
    r'.Intact player ↔ r.Fits player action := by
  obtain ⟨log, start, hst⟩ := h.stores
  cases hstep with
  | message startFrame bits frames decoder hd =>
    obtain ⟨inputs, k, hdec, hk, hframes, -⟩ := InputDecoder.decode_eq_ok hd
    have hcon : r.returned ++ frames = framed 0 ((r.returned ++ frames).map (·.input)) ↔
        inputs.drop k = [] ∨ startFrame + k = r.returned.length := by
      have hiff : framed 0 (r.returned.map (·.input)) ++ framed (startFrame + k) (inputs.drop k) =
        framed 0 (r.returned.map (·.input) ++ inputs.drop k) ↔ _ := framed_append_iff
      rw [← h.intact.consecutive, List.length_map, zero_add] at hiff
      rw [List.map_append, hframes, map_input_framed, hiff]
    rw [fits_message_iff h hdec hk, ← hcon]
    exact ⟨fun h' => h'.consecutive, fun h' => ⟨h', h.intact.room, h.intact.undamaged⟩⟩
  | hand input waiting s hw hs =>
    obtain ⟨slot, hadd⟩ := Session.handleInput_adds hs
    obtain ⟨-, log', hst', hlen⟩ := (hst.addInput input).ok hadd
    have hadded := hst.lastAdded
    have hfits : r.Fits player .hand ↔
        (s.sync.inputQueues player).length ≤ maxRollbackFrames := by
      have hstart := hst.start_le
      rw [hst'.length, hlen]
      simp only [Fits, hw, List.head?_cons, Option.mem_def, Option.some.injEq, forall_eq']
      rw [hst.length]
      exact iff_of_eq (congrArg (· ≤ _) (by omega))
    rw [hfits]
    exact ⟨fun h' => h'.room, fun h' => ⟨h.intact.consecutive, h', hst'.undamaged_iff.mpr h'⟩⟩
  | play s hm =>
    obtain ⟨⟨start', hst'⟩, hle⟩ := hst.moves hm
    have hroom := hle.trans h.intact.room
    exact ⟨fun _ => trivial, fun _ => ⟨h.intact.consecutive, hroom, hst'.undamaged_iff.mpr hroom⟩⟩

/-- A step that fits never takes the decoder back. -/
theorem step_sound (h : r.Sound player) (hstep : r.Step player action r')
    (hfits : r.Fits player action) :
    r'.Sound player ∧ r.decoder.lastDecoded ≤ r'.decoder.lastDecoded := by
  have hintact := (step_intact_iff h hstep).mpr hfits
  obtain ⟨log, start, hst⟩ := h.stores
  have hlast := h.decoded
  cases hstep with
  | message startFrame bits frames decoder hd =>
    obtain ⟨inputs, k, hdec, hk, hframes, hd'⟩ := InputDecoder.decode_eq_ok hd
    have hdecoded : decoder.lastDecoded = (r.returned ++ frames).length - 1 := by
      rw [hd', List.length_append]
      rcases (fits_message_iff h hdec hk).mp hfits with hnil | hnext
      · rw [if_pos (by rw [hframes, hnil]; rfl), hlast, hframes, hnil]
        simp
      · split
        · next hnil => rw [hlast, hnil]; simp
        · next hne =>
          have hlen : frames.length = inputs.length - k := by rw [hframes]; simp
          have hpos := List.length_pos_iff.mpr hne
          push_cast
          omega
    refine ⟨⟨hintact, hdecoded, _, _, hst⟩, ?_⟩
    rw [hlast, hdecoded, List.length_append]
    push_cast
    omega
  | hand input waiting s hw hs =>
    obtain ⟨slot, hadd⟩ := Session.handleInput_adds hs
    obtain ⟨-, log', hst', -⟩ := (hst.addInput input).ok hadd
    exact ⟨⟨hintact, hlast, _, _, { hst' with delay := rfl }⟩, le_rfl⟩
  | play s hm =>
    obtain ⟨hst', -⟩ := hst.moves hm
    exact ⟨⟨hintact, hlast, _, hst'⟩, le_rfl⟩

/-- The runs of which every step fits. -/
def Run (player : Fin n) : Intake n I S → Intake n I S → Prop :=
  Relation.ReflTransGen fun r r' => ∃ action, r.Fits player action ∧ r.Step player action r'

theorem run_sound (hr : r.Sound player) (h : Run player r r') :
    r'.Sound player ∧ r.decoder.lastDecoded ≤ r'.decoder.lastDecoded := by
  induction h with
  | refl => exact ⟨hr, le_rfl⟩
  | tail _ hstep ih =>
    obtain ⟨action, hfits, hstep⟩ := hstep
    obtain ⟨hsound, hle⟩ := step_sound ih.1 hstep hfits
    exact ⟨hsound, ih.2.trans hle⟩

/-- As long as every step fits, the frames count up from 0, the decoder never goes back, and
no frame in the queue is written over. -/
theorem run_intact {players : Fin n → Player} {delay : ℤ} {randoms : Fin n → ℕ}
    {s : Session n I S} (hs : Session.new players delay randoms = .ok s)
    (h : Run player (start s) r) (h' : Run player r r') :
    r'.Intact player ∧ r.decoder.lastDecoded ≤ r'.decoder.lastDecoded := by
  have hr := (run_sound (start_sound hs player) h).1
  obtain ⟨hsound, hle⟩ := run_sound hr h'
  exact ⟨hsound.intact, hle⟩

end Intake

/-- A new session of a local player and a remote one. -/
def newPair : Session 2 UInt8 ℕ :=
  { connectedPair.session with
    players := fun i => if i.val = 0 then .localPlayer else .remote (.new 1 (List.replicate 2 {})) }

namespace Intake

/-- The first message of a peer, for frame 0, is decoded and its input handed over. -/
theorem run_intact_first :
    letI : Build := ⟨true⟩
    letI := Varinteger.leb128
    ∃ r : Intake 2 UInt8 ℕ, r.returned = [⟨0, 7⟩] ∧ (r.queue 1).length = 1 ∧ r.Intact 1 := by
  let build : Build := ⟨true⟩
  let varint := Varinteger.leb128
  have hmessage : Run 1 (start newPair) ⟨⟨0⟩, [⟨0, 7⟩], [⟨0, 7⟩], newPair⟩ :=
    .tail .refl ⟨.message 0 [2, 7], .inr rfl, .message _ _ _ _ rfl⟩
  have hroom : Fits 1 (⟨⟨0⟩, [⟨0, 7⟩], [⟨0, 7⟩], newPair⟩ : Intake 2 UInt8 ℕ) .hand := by
    intro input hinput
    obtain rfl := Option.some.inj hinput
    decide
  have hhand : Run 1 (⟨⟨0⟩, [⟨0, 7⟩], [⟨0, 7⟩], newPair⟩ : Intake 2 UInt8 ℕ) _ :=
    .tail .refl ⟨.hand, hroom, .hand _ _ _ rfl rfl⟩
  exact ⟨_, rfl, rfl, (run_intact connectedPair_new hmessage hhand).1⟩

/-- The first message of a peer may begin anywhere. -/
theorem not_intact_ahead :
    letI : Build := ⟨true⟩
    letI := Varinteger.leb128
    ∃ r : Intake 2 UInt8 ℕ, (start newPair).Step 1 (.message 5 [2, 7]) r ∧
      r.returned = [⟨5, 7⟩] ∧ ¬r.Intact 1 := by
  let build : Build := ⟨true⟩
  let varint := Varinteger.leb128
  refine ⟨_, .message _ _ _ _ rfl, rfl, fun h => ?_⟩
  exact absurd h.consecutive (by decide)

end Intake

end Backroll

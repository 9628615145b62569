import Backroll.Protocol.Magic
import Backroll.Protocol.WireValues

/-! The connect statuses that a peer reports of all players. The task of the peer merges them
into its clone; the session reads them from its own. -/
namespace Backroll

open Fallible (Ends walk)

variable {I : Type}

/-- The statuses of `l` taken together: disconnected if one of them is, with their greatest
frame. -/
structure Joins (l : List ConnectionStatus) (status : ConnectionStatus) : Prop where
  flag : status.disconnected = true ↔ ∃ r ∈ l, r.disconnected = true
  attained : ∃ r ∈ l, r.lastFrame = status.lastFrame
  greatest : ∀ r ∈ l, r.lastFrame ≤ status.lastFrame

/-- One step of the loop in `on_input`. -/
def ConnectionStatus.merge (status remote : ConnectionStatus) : ConnectionStatus where
  disconnected := status.disconnected || remote.disconnected
  lastFrame := max status.lastFrame remote.lastFrame

theorem joins_singleton (status : ConnectionStatus) : Joins [status] status :=
  ⟨by simp, ⟨status, by simp, rfl⟩, by simp⟩

theorem Joins.append {l : List ConnectionStatus} {status : ConnectionStatus} (h : Joins l status)
    (remote : ConnectionStatus) : Joins (l ++ [remote]) (status.merge remote) := by
  refine ⟨?_, ?_, fun r hr => ?_⟩
  · simp only [ConnectionStatus.merge, Bool.or_eq_true, h.flag, List.mem_append,
      List.mem_singleton, or_and_right, exists_or, exists_eq_left]
  · obtain ⟨r, hr, hframe⟩ := h.attained
    rcases le_total status.lastFrame remote.lastFrame with hle | hle
    · exact ⟨remote, by simp, (max_eq_right hle).symm⟩
    · exact ⟨r, by simp [hr], hframe.trans (max_eq_left hle).symm⟩
  · rcases List.mem_append.mp hr with hr | hr
    · exact (h.greatest r hr).trans (le_max_left _ _)
    · rw [List.mem_singleton.mp hr]
      exact le_max_right _ _

/-- What is known of a player by default, and what the messages report, in order. -/
def statusesOf (initial : List ConnectionStatus) (messages : List InputMessage) (player : ℕ) :
    List ConnectionStatus :=
  initial[player]?.toList ++ messages.filterMap (·.peerConnectStatus[player]?)

theorem statusesOf_append (initial : List ConnectionStatus) (messages : List InputMessage)
    (message : InputMessage) (player : ℕ) :
    statusesOf initial (messages ++ [message]) player =
      statusesOf initial messages player ++ message.peerConnectStatus[player]?.toList := by
  simp only [statusesOf, List.filterMap_append, List.append_assoc]
  congr 2

namespace Peer

section Merging

variable [Build]

/-- Every status is merged with the one known of its player, if there is one. -/
theorem mergeStatuses_getElem? {i : ℕ} {statuses known merged : List ConnectionStatus}
    (h : mergeStatuses i statuses known = .ok merged) (hi : i ≤ known.length) (j : ℕ) :
    merged[i + j]? = Option.merge ConnectionStatus.merge known[i + j]? statuses[j]? := by
  induction statuses generalizing i known j with
  | nil =>
    obtain rfl := Except.ok.inj h
    simp
  | cons remote rest ih =>
    rw [mergeStatuses_cons] at h
    split at h
    · next status hstatus =>
      obtain ⟨-, -, h⟩ := Fallible.bind_eq_ok.mp h
      have hlt := (List.getElem?_eq_some_iff.mp hstatus).1
      cases j with
      | zero =>
        rw [(mergeStatuses_keeps h).2 _ (by omega) (by simpa using hlt), Nat.add_zero,
          List.getElem?_set_self hlt, hstatus]
        rfl
      | succ j =>
        rw [show i + (j + 1) = i + 1 + j by omega, ih h (by rw [List.length_set]; omega),
          List.getElem?_set_ne (by omega), List.getElem?_cons_succ]
    · next hnone =>
      have hlen : known.length = i := le_antisymm (List.getElem?_eq_none_iff.mp hnone) hi
      cases j with
      | zero =>
        rw [(mergeStatuses_keeps h).2 _ (by omega) (by simp; omega), Nat.add_zero, hnone,
          ← hlen]
        simp
      | succ j =>
        rw [show i + (j + 1) = i + 1 + j by omega, ih h (by simp [hlen]),
          List.getElem?_eq_none_iff.mpr (by simp; omega),
          List.getElem?_eq_none_iff.mpr (by omega : known.length ≤ i + 1 + j),
          List.getElem?_cons_succ]

/-- Statuses of known players, which say no more than is known. -/
def AddNothing (statuses known : List ConnectionStatus) : Prop :=
  ∀ (player : ℕ) (remote : ConnectionStatus), statuses[player]? = some remote →
    ∃ status : ConnectionStatus, known[player]? = some status ∧
      (remote.disconnected = true → status.disconnected = true) ∧
      remote.lastFrame ≤ status.lastFrame

omit [Build] in
theorem merge_eq_iff {status remote : ConnectionStatus} : status.merge remote = status ↔
    (remote.disconnected = true → status.disconnected = true) ∧
      remote.lastFrame ≤ status.lastFrame := by
  obtain ⟨flag, frame⟩ := status
  simp only [ConnectionStatus.merge, ConnectionStatus.mk.injEq, max_eq_left_iff]
  cases flag <;> simp

theorem eq_iff_addNothing {statuses known merged : List ConnectionStatus}
    (h : mergeStatuses 0 statuses known = .ok merged) : merged = known ↔ AddNothing statuses known := by
  have hget : ∀ player : ℕ, merged[player]? =
      Option.merge ConnectionStatus.merge known[player]? statuses[player]? := by
    intro player
    simpa using mergeStatuses_getElem? h (Nat.zero_le _) player
  constructor
  · rintro rfl player remote hremote
    have hsame := hget player
    rw [hremote] at hsame
    cases hstatus : merged[player]? with
    | none => simp [hstatus] at hsame
    | some status =>
      rw [hstatus] at hsame
      exact ⟨status, rfl, merge_eq_iff.mp (Option.some.inj hsame).symm⟩
  · intro hnothing
    refine List.ext_getElem? fun player => ?_
    rw [hget]
    cases hremote : statuses[player]? with
    | none => simp
    | some remote =>
      obtain ⟨status, hstatus, hless⟩ := hnothing player remote hremote
      rw [hstatus]
      exact congrArg some (merge_eq_iff.mpr hless)

end Merging

section Rejection

variable [Build] [Varinteger] [Pod I]

/-- A rejected message leaves nothing but its statuses behind, and these exactly where they say
more than is known. -/
theorem onInput_rejected_iff {p p' : Peer I} {now : ℕ} {message : InputMessage}
    (h : p.onInput now message = .ok (.error .invalidMessage, p')) :
    p' = { p with peerConnectStatus := p'.peerConnectStatus } ∧
      (p' = p ↔ AddNothing message.peerConnectStatus p.peerConnectStatus) := by
  obtain ⟨merged, err, hmerge, -, rfl⟩ := onInput_invalid h
  refine ⟨rfl, ?_⟩
  rw [← eq_iff_addNothing hmerge]
  exact ⟨congrArg Peer.peerConnectStatus, fun hsame => by rw [hsame]⟩

end Rejection

/-- A message whose bits announce a byte that is not there. -/
theorem onInput_rejected_iff_stale :
    letI : Build := ⟨true⟩
    letI := Varinteger.leb128
    ∃ p : Peer UInt8, (Peer.new 7 [{}, {}]).onInput 0 ⟨[{}], 0, -1, [2]⟩ =
      .ok (.error .invalidMessage, p) ∧ p = Peer.new 7 [{}, {}] := by
  let build : Build := ⟨true⟩
  let varint := Varinteger.leb128
  have h : (Peer.new 7 [{}, {}] : Peer UInt8).onInput 0 ⟨[{}], 0, -1, [2]⟩ =
      .ok (.error .invalidMessage, Peer.new 7 [{}, {}]) := rfl
  refine ⟨_, h, (onInput_rejected_iff h).2.mpr fun player remote hremote => ?_⟩
  match player, hremote with
  | 0, hremote => exact ⟨{}, rfl, by rw [← Option.some.inj hremote]; decide⟩

/-- The statuses of such a message stay: player 1 is out from frame 3 on. -/
theorem not_onInput_rejected :
    letI : Build := ⟨true⟩
    letI := Varinteger.leb128
    ∃ p : Peer UInt8, (Peer.new 7 [{}, {}]).onInput 0 ⟨[{}, ⟨true, 3⟩], 0, -1, [2]⟩ =
      .ok (.error .invalidMessage, p) ∧ p.peerConnectStatus = [{}, ⟨true, 3⟩] ∧
      (Peer.new 7 [{}, {}] : Peer UInt8).peerConnectStatus = [{}, {}] :=
  ⟨_, rfl, rfl, rfl⟩

end Peer

/-- What is known of a player of whom these statuses have come. -/
def Known (l : List ConnectionStatus) : Option ConnectionStatus → Prop
  | none => l = []
  | some status => Joins l status

theorem Known.merge {l : List ConnectionStatus} {known : Option ConnectionStatus}
    (h : Known l known) (remote : Option ConnectionStatus) :
    Known (l ++ remote.toList) (Option.merge ConnectionStatus.merge known remote) := by
  cases known with
  | none =>
    obtain rfl : l = [] := h
    cases remote with
    | none => rfl
    | some remote => exact joins_singleton remote
  | some status =>
    cases remote with
    | none => simpa using h
    | some remote => exact Joins.append h remote

theorem known_new (initial : List ConnectionStatus) (player : ℕ) :
    Known (statusesOf initial [] player) initial[player]? := by
  cases h : initial[player]? with
  | none => simp [Known, statusesOf, h]
  | some status =>
    simp only [statusesOf, h, Option.toList_some, List.filterMap_nil, List.append_nil]
    exact joins_singleton status

/-- The frame behind the inputs of a message, if it has any. -/
def InputMessage.endFrame (I : Type) [Build] [Varinteger] [Pod I] (message : InputMessage) :
    Option ℤ :=
  match Compression.decode (Zeroable.zeroed : I) message.bits with
  | .ok (.ok inputs) => if inputs = [] then none else some (message.startFrame + inputs.length)
  | _ => none

/-- Messages to which no assertion objects: no player's frame goes back, and no inputs end
before frame 0 until some have ended behind it. -/
structure InOrder (I : Type) [Build] [Varinteger] [Pod I] (initial : List ConnectionStatus)
    (messages : List InputMessage) : Prop where
  frames : ∀ player, ((statusesOf initial messages player).map (·.lastFrame)).Pairwise (· ≤ ·)
  begins : ∀ (i : ℕ) message frame, messages[i]? = some message →
    message.endFrame I = some frame → frame < 0 →
      ∃ j < i, ∃ message frame, messages[j]? = some message ∧ message.endFrame I = some frame ∧
        0 < frame

/-- Some inputs have ended behind frame 0. -/
def Begun (I : Type) [Build] [Varinteger] [Pod I] (messages : List InputMessage) : Prop :=
  ∃ message ∈ messages, ∃ frame, message.endFrame I = some frame ∧ 0 < frame

section Orders

variable [Build] [Varinteger] [Pod I] {initial : List ConnectionStatus}
  {messages : List InputMessage}

theorem begun_append {message : InputMessage} : Begun I (messages ++ [message]) ↔
    Begun I messages ∨ ∃ frame, message.endFrame I = some frame ∧ 0 < frame := by
  simp [Begun, or_and_right, exists_or]

theorem inOrder_nil : InOrder I initial [] := by
  refine ⟨fun player => ?_, fun i message frame hi => by simp at hi⟩
  cases h : initial[player]? <;> simp [statusesOf, h]

theorem inOrder_append {message : InputMessage} : InOrder I initial (messages ++ [message]) ↔
    InOrder I initial messages ∧
      (∀ player remote, message.peerConnectStatus[player]? = some remote →
        ∀ r ∈ statusesOf initial messages player, r.lastFrame ≤ remote.lastFrame) ∧
      ∀ frame, message.endFrame I = some frame → frame < 0 → Begun I messages := by
  constructor
  · intro h
    refine ⟨⟨fun player => ?_, fun i m frame hi hm hlt => ?_⟩, fun player remote hremote r hr => ?_,
      fun frame hm hlt => ?_⟩
    · have := h.frames player
      rw [statusesOf_append, List.map_append] at this
      exact (List.pairwise_append.mp this).1
    · obtain ⟨hi', -⟩ := List.getElem?_eq_some_iff.mp hi
      obtain ⟨j, hj, m', frame', hm', hend⟩ := h.begins i m frame
        (by rwa [List.getElem?_append_left hi']) hm hlt
      exact ⟨j, hj, m', frame', by rwa [List.getElem?_append_left (by omega)] at hm', hend⟩
    · have := h.frames player
      rw [statusesOf_append, hremote, List.map_append] at this
      exact (List.pairwise_append.mp this).2.2 _ (List.mem_map_of_mem hr) _ (by simp)
    · obtain ⟨j, hj, m', frame', hm', hend⟩ := h.begins messages.length message frame
        (by simp) hm hlt
      rw [List.getElem?_append_left hj] at hm'
      exact ⟨m', List.mem_of_getElem? hm', frame', hend⟩
  · rintro ⟨h, hframes, hbegins⟩
    refine ⟨fun player => ?_, fun i m frame hi hm hlt => ?_⟩
    · rw [statusesOf_append, List.map_append, List.pairwise_append]
      refine ⟨h.frames player, ?_, fun a ha b hb => ?_⟩
      · cases message.peerConnectStatus[player]? <;> simp
      · obtain ⟨r, hr, rfl⟩ := List.mem_map.mp ha
        obtain ⟨remote, hremote, rfl⟩ := List.mem_map.mp hb
        exact hframes player remote (by simpa using hremote) r hr
    · rcases Nat.lt_or_ge i messages.length with hlt' | hge
      · rw [List.getElem?_append_left hlt'] at hi
        obtain ⟨j, hj, m', frame', hm', hend⟩ := h.begins i m frame hi hm hlt
        exact ⟨j, hj, m', frame', by rwa [List.getElem?_append_left (by omega)], hend⟩
      · rw [List.getElem?_append_right hge] at hi
        obtain ⟨hi0, hmi⟩ : i - messages.length = 0 ∧ message = m := by
          simpa [List.getElem?_singleton] using hi
        obtain rfl := hmi
        obtain ⟨m', hm', frame', hend⟩ := hbegins frame hm hlt
        obtain ⟨j, hj, hget⟩ := List.getElem_of_mem hm'
        exact ⟨j, by omega, m', frame', by rw [List.getElem?_append_left hj]; simp [hget, hj], hend⟩

theorem InOrder.of_append {more : List InputMessage} (h : InOrder I initial (messages ++ more)) :
    InOrder I initial messages := by
  induction more using List.reverseRecOn with
  | nil => simpa using h
  | append_singleton more message ih =>
    rw [← List.append_assoc, inOrder_append] at h
    exact ih h.1

end Orders

/-- The clones of a peer that its session and its task hold. What they share is the same in both. -/
structure Clones (I : Type) where
  session : Peer I
  task : Peer I

namespace Clones

/-- `Peer::new`, which spawns the task with a clone. -/
def new [Zeroable I] (random : ℕ) (connectStatus : List ConnectionStatus) : Clones I :=
  ⟨.new random connectStatus, .new random connectStatus⟩

section Delivery

variable [Build] [Varinteger] [Pod I]

/-- `on_input`, which the task calls: the session sees all that changes but the connect statuses. -/
def onInput (c : Clones I) (now : ℕ) (msg : InputMessage) :
    Except Panic (Except PeerError Unit × Clones I) := do
  let (result, task) ← c.task.onInput now msg
  return (result, ⟨{ task with peerConnectStatus := c.session.peerConnectStatus }, task⟩)

/-- The messages that the task handles, each with its time. -/
def deliver : List (ℕ × InputMessage) → Clones I → Except Panic (Clones I) :=
  walk fun (now, msg) c => do
    let (_, c) ← c.onInput now msg
    return c

/-- The messages so far have been merged and decoded. -/
structure Sound (initial : List ConnectionStatus) (past : List InputMessage) (c : Clones I) :
    Prop where
  own : c.session.peerConnectStatus = initial
  known : ∀ player, Known (statusesOf initial past player) c.task.peerConnectStatus[player]?
  lowest : Build.debugAssertions = true → -1 ≤ c.task.inputDecoder.lastDecoded
  begun : Build.debugAssertions = true → (0 ≤ c.task.inputDecoder.lastDecoded ↔ Begun I past)
  inOrder : Build.debugAssertions = true → InOrder I initial past

variable {initial : List ConnectionStatus} {past : List InputMessage} {c : Clones I}

theorem Sound.new (random : ℕ) (initial : List ConnectionStatus) :
    Sound initial [] (new random initial : Clones I) := by
  refine ⟨rfl, known_new initial, fun _ => le_rfl, fun _ => ?_, fun _ => inOrder_nil⟩
  exact iff_of_false (show ¬(0 : ℤ) ≤ -1 by decide) (by simp [Begun])

/-- The statuses of a message go back where they are below one that was reported. -/
theorem Sound.statusesAdvance (h : c.Sound initial past) (statuses : List ConnectionStatus) :
    Peer.StatusesAdvance 0 statuses c.task.peerConnectStatus ↔
      ∀ player remote, statuses[player]? = some remote →
        ∀ r ∈ statusesOf initial past player, r.lastFrame ≤ remote.lastFrame := by
  constructor
  · intro hadvance player remote hremote r hr
    have hknown := h.known player
    cases hstatus : c.task.peerConnectStatus[player]? with
    | none =>
      rw [hstatus] at hknown
      rw [show statusesOf initial past player = [] from hknown] at hr
      cases hr
    | some status =>
      rw [hstatus] at hknown
      have := hadvance player remote status hremote (by rwa [Nat.zero_add])
      exact (hknown.greatest r hr).trans this
  · intro hframes player remote status hremote hstatus
    have hknown := h.known player
    rw [Nat.zero_add] at hstatus
    rw [hstatus] at hknown
    obtain ⟨r, hr, hframe⟩ := hknown.attained
    exact hframe ▸ hframes player remote hremote r hr

/-- What a decoder that is past `-1` makes of a message: it objects to inputs that end before frame
0 as long as none have ended behind it. -/
theorem decode_begins {d : InputDecoder} {message : InputMessage} {inputs : List I}
    (hbits : Compression.decode Zeroable.zeroed message.bits = .ok (.ok inputs)) :
    ∃ (frames : List (FrameInput I)) (last : ℤ),
      d.decode message.startFrame message.bits = (do
        debugAssert (last ≥ d.lastDecoded)
        return (.ok frames, ⟨last⟩)) ∧
      (-1 ≤ d.lastDecoded →
        (last ≥ d.lastDecoded ↔ ∀ frame, message.endFrame I = some frame → frame < 0 →
          0 ≤ d.lastDecoded) ∧
        (last ≥ d.lastDecoded → (0 ≤ last ↔ 0 ≤ d.lastDecoded ∨
          ∃ frame, message.endFrame I = some frame ∧ 0 < frame))) := by
  obtain ⟨k, frames, last, hk, hframes, hlast, hdecode⟩ := d.decode_of_bits message.startFrame hbits
  refine ⟨frames, last, hdecode, fun hlow => ?_⟩
  have hend : message.endFrame I =
      if inputs = [] then none else some (message.startFrame + inputs.length) := by
    simp [InputMessage.endFrame, hbits]
  have hnil : frames = [] ↔ inputs.length ≤ k := by
    rw [hframes, ← List.length_eq_zero_iff, length_framed, List.length_drop]
    omega
  rw [hend]
  by_cases hnone : inputs = []
  · have : frames = [] := hnil.mpr (by simp [hnone])
    rw [if_pos this] at hlast
    simp [hnone, hlast]
  have hpos : 0 < inputs.length := List.length_pos_iff.mpr hnone
  simp only [if_neg hnone, Option.some.injEq, forall_eq', exists_eq_left']
  unfold isNull at hk
  split at hk
  · rw [if_neg (by rw [hnil]; omega)] at hlast
    omega
  · split at hlast
    · next hempty =>
      rw [hnil] at hempty
      omega
    · next hsome =>
      rw [hnil] at hsome
      omega

omit [Varinteger] [Pod I] in
theorem debugAssert_of_imp {p : Prop} [Decidable p] (h : Build.debugAssertions = true → p) :
    debugAssert p = .ok () := by
  unfold debugAssert
  rw [if_neg fun hn => hn.2 (h hn.1)]

omit [Varinteger] [Pod I] in
theorem debugAssert_of_not {p : Prop} [Decidable p] (h : ¬(Build.debugAssertions = true → p)) :
    debugAssert p = .error .assertion := by
  unfold debugAssert
  rw [if_pos (Classical.not_imp.mp h)]

/-- Whatever becomes of what was decoded, it stays decoded, and the statuses merged. -/
theorem onInput_of {p : Peer I} (now : ℕ) {message : InputMessage}
    {statuses : List ConnectionStatus} {frames : List (FrameInput I)} {decoder : InputDecoder}
    (hmerge : Peer.mergeStatuses 0 message.peerConnectStatus p.peerConnectStatus = .ok statuses)
    (hdecode : p.inputDecoder.decode message.startFrame message.bits = .ok (.ok frames, decoder)) :
    ∃ result p', p.onInput now message = .ok (result, p') ∧ p'.peerConnectStatus = statuses ∧
      p'.inputDecoder = decoder := by
  unfold Peer.onInput
  rw [hmerge, Fallible.ok_bind]
  dsimp only
  rw [hdecode, Fallible.ok_bind]
  obtain ⟨q, hq⟩ : ∃ q : Peer I, { p with
    peerConnectStatus := statuses
    inputDecoder := decoder } = q := ⟨_, rfl⟩
  have hstatus : q.peerConnectStatus = statuses := hq ▸ rfl
  have hdecoder : q.inputDecoder = decoder := hq ▸ rfl
  dsimp only
  rw [hq]
  by_cases hnil : frames = []
  · rw [if_pos hnil]
    exact ⟨_, _, rfl, hstatus, hdecoder⟩
  rw [if_neg hnil]
  unfold Peer.pushEvent Peer.send
  cases q.events.trySend (.inputs frames) with
  | none => exact ⟨_, _, rfl, hstatus, hdecoder⟩
  | some events =>
    dsimp only
    cases q.messageOut.trySend (.inputAck q.inputDecoder.lastDecoded) with
    | none => exact ⟨_, _, rfl, hstatus, hdecoder⟩
    | some messageOut => exact ⟨_, _, rfl, hstatus, hdecoder⟩

/-- A message is merged and decoded, unless an assertion objects to it. -/
theorem Sound.onInput (h : c.Sound initial past) (now : ℕ) {message : InputMessage}
    {inputs : List I} (hbits : Compression.decode Zeroable.zeroed message.bits = .ok (.ok inputs)) :
    ((Build.debugAssertions = true → InOrder I initial (past ++ [message])) →
      ∃ result c', c.onInput now message = .ok (result, c') ∧
        c'.Sound initial (past ++ [message])) ∧
    (¬(Build.debugAssertions = true → InOrder I initial (past ++ [message])) →
      c.onInput now message = .error .assertion) := by
  obtain ⟨frames, last, hdecode, hbegins⟩ := decode_begins (d := c.task.inputDecoder) hbits
  obtain ⟨hmerges, hback⟩ :=
    Peer.mergeStatuses_spec 0 message.peerConnectStatus c.task.peerConnectStatus
  have hsplit : (Build.debugAssertions = true → InOrder I initial (past ++ [message])) ↔
      (Build.debugAssertions = true →
        Peer.StatusesAdvance 0 message.peerConnectStatus c.task.peerConnectStatus) ∧
      (Build.debugAssertions = true → last ≥ c.task.inputDecoder.lastDecoded) := by
    rw [← imp_and]
    refine imp_congr_right fun hb => ?_
    rw [inOrder_append, h.statusesAdvance, (hbegins (h.lowest hb)).1]
    simp only [h.begun hb, h.inOrder hb, true_and]
  rw [hsplit]
  by_cases hadvance : Build.debugAssertions = true →
      Peer.StatusesAdvance 0 message.peerConnectStatus c.task.peerConnectStatus
  · obtain ⟨merged, hmerged⟩ := hmerges hadvance
    by_cases hlast : Build.debugAssertions = true → last ≥ c.task.inputDecoder.lastDecoded
    · refine ⟨fun _ => ?_, fun hnot => absurd ⟨hadvance, hlast⟩ hnot⟩
      rw [debugAssert_of_imp hlast, Fallible.ok_bind] at hdecode
      obtain ⟨result, task, htask, hstatus, hdecoder⟩ := onInput_of now hmerged hdecode
      refine ⟨result, ⟨{ task with peerConnectStatus := c.session.peerConnectStatus }, task⟩,
        by rw [Clones.onInput, htask]; rfl, h.own, fun player => ?_, fun hb => ?_, fun hb => ?_,
        hsplit.mpr ⟨hadvance, hlast⟩⟩
      · have hget := Peer.mergeStatuses_getElem? hmerged (Nat.zero_le _) player
        rw [Nat.zero_add] at hget
        dsimp only
        rw [hstatus, hget, statusesOf_append]
        exact (h.known player).merge _
      · dsimp only
        rw [hdecoder]
        exact (h.lowest hb).trans (hlast hb)
      · dsimp only
        rw [hdecoder, begun_append, ← h.begun hb]
        exact (hbegins (h.lowest hb)).2 (hlast hb)
    · refine ⟨fun hyes => absurd hyes.2 hlast, fun _ => ?_⟩
      rw [debugAssert_of_not hlast] at hdecode
      rw [Clones.onInput, Peer.onInput, hmerged, Fallible.ok_bind]
      dsimp only
      rw [hdecode]
      rfl
  · refine ⟨fun hyes => absurd hyes.1 hadvance, fun _ => ?_⟩
    rw [Clones.onInput, Peer.onInput, hback hadvance]
    rfl

/-- No assertion objects to any of the messages, or one of them fails. -/
theorem Sound.deliver (h : c.Sound initial past) {messages : List (ℕ × InputMessage)}
    (hbits : ∀ m ∈ messages, ∃ inputs : List I,
      Compression.decode Zeroable.zeroed m.2.bits = .ok (.ok inputs)) :
    ((Build.debugAssertions = true → InOrder I initial (past ++ messages.map Prod.snd)) →
      ∃ c', deliver messages c = .ok c' ∧ c'.Sound initial (past ++ messages.map Prod.snd)) ∧
    (¬(Build.debugAssertions = true → InOrder I initial (past ++ messages.map Prod.snd)) →
      deliver messages c = .error .assertion) := by
  induction messages generalizing past c with
  | nil =>
    rw [List.map_nil, List.append_nil]
    exact ⟨fun _ => ⟨c, rfl, h⟩, fun hnot => absurd h.inOrder hnot⟩
  | cons m messages ih =>
    obtain ⟨now, message⟩ := m
    obtain ⟨inputs, hm⟩ := hbits (now, message) List.mem_cons_self
    obtain ⟨hyes, hno⟩ := h.onInput now hm
    have hassoc : past ++ ((now, message) :: messages).map Prod.snd =
        past ++ [message] ++ messages.map Prod.snd := by simp
    unfold Clones.deliver
    rw [hassoc, Fallible.walk_cons]
    by_cases hone : Build.debugAssertions = true → InOrder I initial (past ++ [message])
    · obtain ⟨result, c', hc', hsound⟩ := hyes hone
      dsimp only
      rw [hc']
      exact ih hsound fun m hmem => hbits m (List.mem_cons_of_mem _ hmem)
    · refine ⟨fun hall => absurd (fun hb => (hall hb).of_append) hone, fun _ => ?_⟩
      dsimp only
      rw [hno hone]
      rfl

end Delivery

end Clones

end Backroll

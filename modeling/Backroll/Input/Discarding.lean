import Backroll.Input.Room

/-! What `discard_confirmed_frames` removes from an input queue, whatever was called before. -/
namespace Backroll

open Fallible (Ends)

variable {I : Type}

namespace InputQueue

/-- The stored inputs, from the tail on. -/
def entries (q : InputQueue I) : List (FrameInput I) :=
  (List.range q.length).map fun k => q.inputs (Fin.ofNat maxRollbackFrames (q.tail + k))

/-- The input is to be discarded up to this frame: it is not above it, and not above the frame last
requested, if there is one. -/
def Discarded (requested frame : ℤ) (x : FrameInput I) : Prop :=
  x.frame ≤ frame ∧ (isNull requested ∨ x.frame ≤ requested)

instance discardedDecidable (requested frame : ℤ) :
    DecidablePred (Discarded requested frame : FrameInput I → Prop) :=
  fun _ => inferInstanceAs (Decidable (_ ∧ _))

/-- The frame up to which `discard_confirmed_frames` means to discard: without a request since the
last reset, that is the null frame. -/
def cut (q : InputQueue I) (frame : ℤ) : ℤ :=
  if isNull q.lastFrameRequested then min frame q.lastFrameRequested else frame

section Calls

variable [Build]

/-- Exactly the inputs to be discarded are removed. -/
def Discards (q : InputQueue I) (requested frame : ℤ) : Prop :=
  ∃ q', q.discardConfirmedFrames frame = .ok q' ∧
    q'.entries = q.entries.filter fun x => ¬Discarded requested frame x

end Calls

/-- Nothing that was not requested yet is in the way; without any request since the last reset,
nothing is stored, and nothing ever was or the tail has come around to a slot of that label. -/
def Discardable (q : InputQueue I) (requested frame : ℤ) : Prop :=
  if isNull requested then
    q.length = 0 ∧ (q.lastAddedFrame ≤ requested ∨ (q.inputs q.tail).frame = requested + 1)
  else ∀ x ∈ q.entries, requested < x.frame → frame < x.frame

instance discardableDecidable (q : InputQueue I) (requested frame : ℤ) :
    Decidable (q.Discardable requested frame) := inferInstanceAs (Decidable (ite _ _ _))

end InputQueue

variable [Zeroable I]

namespace Stores

variable {q : InputQueue I} {delay : ℤ} {log : List I} {start : ℕ}

theorem inputs_cell (h : Stores q delay log start) (hroom : q.length ≤ maxRollbackFrames) {j : ℕ}
    (hs : start ≤ j) (hj : j < log.length) :
    q.inputs (Cyclic.cell maxRollbackFrames j) = ⟨j, log[j]⟩ := by
  have hlength := h.length
  refine h.inputs.recent j _ (by simp [hj]) ?_
  rw [length_framed]
  omega

/-- What the queue stores are the inputs of the log that were not discarded. -/
theorem entries (h : Stores q delay log start) (hroom : q.length ≤ maxRollbackFrames) :
    q.entries = framed start (log.drop start) := by
  have hlength := h.length
  apply List.ext_getElem
  · simp [InputQueue.entries, hlength]
  · intro k hk hk'
    have hlt : start + k < log.length := by
      rw [length_framed, List.length_drop] at hk'
      omega
    have hcell : Fin.ofNat maxRollbackFrames (q.tail + k) = Cyclic.cell maxRollbackFrames (start + k) := by
      rw [h.tail]
      exact Fin.ext (Nat.mod_add_mod _ _ _)
    simp only [InputQueue.entries, List.getElem_map, List.getElem_range, hcell,
      h.inputs_cell hroom (Nat.le_add_right start k) hlt, getElem_framed]
    simp

variable [Build]

omit [Zeroable I] in
theorem discard_eq (q : InputQueue I) (frame : ℕ) : q.discardConfirmedFrames frame =
    if q.cut frame ≥ q.lastAddedFrame then .ok { q with tail := q.head, length := 0 }
    else toUsize (q.cut frame - (q.inputs q.tail).frame + 1) >>= fun offset =>
      if offset ≤ q.length then .ok { q with
        tail := Fin.ofNat maxRollbackFrames (q.tail + offset)
        length := q.length - offset }
      else .error .arithmeticOverflow := by
  rw [InputQueue.discardConfirmedFrames, debugAssert_of (by simp)]
  rfl

/-- All that is stored is discarded. -/
theorem discard_all (h : Stores q delay log start) {frame : ℕ} (hcut : q.cut frame ≥ q.lastAddedFrame) :
    ∃ q', q.discardConfirmedFrames frame = .ok q' ∧ Stores q' delay log log.length ∧
      q'.lastFrameRequested = q.lastFrameRequested :=
  ⟨{ q with tail := q.head, length := 0 }, by rw [discard_eq, if_pos hcut], { h with
    start_le := le_rfl
    tail := h.head
    length := (Nat.sub_self _).symm }, rfl⟩

/-- The inputs up to a frame are discarded, which are some of those stored. -/
theorem discard_some (h : Stores q delay log start) (hroom : q.length ≤ maxRollbackFrames) {frame m : ℕ}
    (hcut : q.cut frame = m - 1) (hlow : start ≤ m) (hhigh : m < log.length) :
    ∃ q', q.discardConfirmedFrames frame = .ok q' ∧ Stores q' delay log m ∧
      q'.lastFrameRequested = q.lastFrameRequested := by
  have hlength := h.length
  have hlast := h.lastAdded
  have htail : (q.inputs q.tail).frame = start := by
    rw [h.tail, h.inputs_cell hroom le_rfl (by omega)]
  have hoffset : (q.cut frame - (q.inputs q.tail).frame + 1).toNat = m - start := by omega
  have hcell : Fin.ofNat maxRollbackFrames (q.tail + (m - start)) =
      Cyclic.cell maxRollbackFrames (start + (m - start)) := by
    rw [h.tail]
    exact Fin.ext (Nat.mod_add_mod _ _ _)
  refine ⟨{ q with
    tail := Fin.ofNat maxRollbackFrames (q.tail + (m - start))
    length := q.length - (m - start) }, ?_, { h with
    start_le := hhigh.le
    tail := ?_
    length := ?_ }, rfl⟩
  · rw [discard_eq, if_neg (by omega), toUsize_of_nonneg (by omega), Fallible.ok_bind, hoffset,
      if_pos (by omega)]
  · exact hcell.trans (congrArg _ (by omega))
  · dsimp only
    omega

/-- A cut below what was discarded before is a fault. -/
theorem discard_below (h : Stores q delay log start) (hroom : q.length ≤ maxRollbackFrames) {frame : ℕ}
    (hcut : q.cut frame + 1 < start) (hlt : start < log.length) (q' : InputQueue I) :
    q.discardConfirmedFrames frame ≠ .ok q' := by
  have hlast := h.lastAdded
  have htail : (q.inputs q.tail).frame = start := by
    rw [h.tail, h.inputs_cell hroom le_rfl hlt]
  rw [discard_eq, if_neg (by omega), toUsize_of_neg (by omega)]
  simp

/-- With nothing stored, a cut below the last input added depends on the label of the tail. -/
theorem discard_empty (h : Stores q delay log log.length) {frame : ℕ}
    (hcut : q.cut frame < q.lastAddedFrame) {q' : InputQueue I} :
    q.discardConfirmedFrames frame = .ok q' ↔ (q.inputs q.tail).frame = q.cut frame + 1 ∧ q' = q := by
  have hlength : q.length = 0 := by rw [h.length, Nat.sub_self]
  rw [discard_eq, if_neg (not_le.mpr hcut)]
  rcases le_or_gt 0 (q.cut frame - (q.inputs q.tail).frame + 1) with hnonneg | hneg
  · rw [toUsize_of_nonneg hnonneg, Fallible.ok_bind]
    split
    · next hoffset =>
      have hzero : (q.cut frame - (q.inputs q.tail).frame + 1).toNat = 0 := by omega
      have htail : Fin.ofNat maxRollbackFrames (q.tail + 0) = q.tail := Fin.ext (Nat.mod_eq_of_lt q.tail.isLt)
      rw [hzero, Nat.sub_zero, htail]
      constructor
      · intro heq
        exact ⟨by omega, (Except.ok.inj heq).symm⟩
      · rintro ⟨-, rfl⟩
        rfl
    · next hoffset => exact iff_of_false (by simp) (by omega)
  · rw [toUsize_of_neg hneg]
    exact iff_of_false (by simp) (by omega)

/-- Discarding leaves the log as it was, and what is stored of it ends where it did. -/
theorem discard_ok (h : Stores q delay log start) (hroom : q.length ≤ maxRollbackFrames) {frame : ℕ}
    {q' : InputQueue I} (hdiscard : q.discardConfirmedFrames frame = .ok q') :
    q'.lastFrameRequested = q.lastFrameRequested ∧
      ∃ start', start ≤ start' ∧ start' ≤ max start (frame + 1) ∧ Stores q' delay log start' := by
  have hstart := h.start_le
  have hlast := h.lastAdded
  have hcut : q.cut frame ≤ frame := by
    unfold InputQueue.cut
    split
    · exact min_le_left _ _
    · exact le_rfl
  by_cases hall : q.cut frame ≥ q.lastAddedFrame
  · obtain ⟨q₁, hq₁, hstores, hrequested⟩ := h.discard_all hall
    obtain rfl := Except.ok.inj (hdiscard.symm.trans hq₁)
    exact ⟨hrequested, log.length, hstart, by omega, hstores⟩
  · rcases Nat.lt_or_ge start log.length with hlt | hge
    · by_cases hlow : q.cut frame + 1 < start
      · exact absurd hdiscard (h.discard_below hroom hlow hlt q')
      · obtain ⟨m, hm⟩ : ∃ m : ℕ, q.cut frame = m - 1 := ⟨(q.cut frame + 1).toNat, by omega⟩
        obtain ⟨q₁, hq₁, hstores, hrequested⟩ := h.discard_some hroom hm (by omega) (by omega)
        obtain rfl := Except.ok.inj (hdiscard.symm.trans hq₁)
        exact ⟨hrequested, m, by omega, by omega, hstores⟩
    · obtain rfl : start = log.length := le_antisymm hstart hge
      obtain ⟨-, rfl⟩ := (h.discard_empty (not_le.mp hall)).mp hdiscard
      exact ⟨rfl, log.length, le_rfl, le_max_left _ _, h⟩

omit [Zeroable I] [Build] in
/-- Two filters keep the same inputs just when they agree on each. -/
theorem filter_eq_filter_iff {α : Type} {f g : α → Bool} {xs : List α} :
    xs.filter f = xs.filter g ↔ ∀ x ∈ xs, f x = g x := by
  constructor
  · intro h x hx
    have hmem : x ∈ xs.filter f ↔ x ∈ xs.filter g := by rw [h]
    simp only [List.mem_filter, hx, true_and] at hmem
    exact Bool.eq_iff_iff.mpr hmem
  · exact fun h => List.filter_congr h

omit [Build] in
/-- What is stored from a frame on. -/
theorem entries_above (h : Stores q delay log start) (hroom : q.length ≤ maxRollbackFrames) {m : ℕ}
    (hlow : start ≤ m) : framed m (log.drop m) = q.entries.filter fun x => (m : ℤ) ≤ x.frame := by
  rw [h.entries hroom]
  have hfilter := filter_ge_framed start m (log.drop start)
  simp only [ge_iff_le] at hfilter
  rw [hfilter, List.drop_drop, show ((m : ℤ) - start).toNat = m - start by omega]
  congr 1
  · omega
  · rw [show start + (m - start) = m by omega]

/-- A request was made since the last reset: the cut is as asked for, and right if no input above the
last one requested is in the way. -/
theorem discards_of_requested (h : Stores q delay log start) (hroom : q.length ≤ maxRollbackFrames)
    {frame : ℕ} (hfloor : start ≤ frame + 1) (hrequested : ¬isNull q.lastFrameRequested) :
    q.Discards q.lastFrameRequested frame ↔ q.Discardable q.lastFrameRequested frame := by
  have hlast := h.lastAdded
  have hlength := h.length
  have hcut : q.cut frame = frame := if_neg hrequested
  obtain ⟨q', hdiscard, hentries⟩ : ∃ q', q.discardConfirmedFrames frame = .ok q' ∧
      q'.entries = q.entries.filter fun x => ((frame + 1 : ℕ) : ℤ) ≤ x.frame := by
    by_cases hall : q.cut frame ≥ q.lastAddedFrame
    · obtain ⟨q', hdiscard, hstores, -⟩ := h.discard_all hall
      refine ⟨q', hdiscard, ?_⟩
      rw [hstores.entries (by rw [hstores.length, Nat.sub_self]; exact Nat.zero_le _),
        ← h.entries_above hroom hfloor, List.drop_length, List.drop_eq_nil_of_le (by omega)]
      rfl
    · have hnext : q.cut frame = ((frame + 1 : ℕ) : ℤ) - 1 := by
        rw [hcut]
        push_cast
        ring
      obtain ⟨q', hdiscard, hstores, -⟩ := h.discard_some hroom hnext hfloor (by omega)
      refine ⟨q', hdiscard, ?_⟩
      rw [hstores.entries (by rw [hstores.length]; omega), h.entries_above hroom hfloor]
  have hdiscards : q.Discards q.lastFrameRequested frame ↔
      q'.entries = q.entries.filter fun x => ¬InputQueue.Discarded q.lastFrameRequested frame x := by
    constructor
    · rintro ⟨q₁, hq₁, heq⟩
      obtain rfl := Except.ok.inj (hdiscard.symm.trans hq₁)
      exact heq
    · exact fun heq => ⟨q', hdiscard, heq⟩
  rw [hdiscards, hentries, filter_eq_filter_iff, InputQueue.Discardable, if_neg hrequested]
  refine forall₂_congr fun x _ => ?_
  rw [decide_eq_decide]
  simp only [InputQueue.Discarded, hrequested, false_or]
  push_cast
  omega

/-- No request was made since the last reset: nothing can be discarded. -/
theorem discards_of_null (h : Stores q delay log start) (hroom : q.length ≤ maxRollbackFrames)
    {frame : ℕ} (hrequested : isNull q.lastFrameRequested) :
    q.Discards q.lastFrameRequested frame ↔ q.Discardable q.lastFrameRequested frame := by
  have hlast := h.lastAdded
  have hlength := h.length
  have hstart := h.start_le
  have hcut : q.cut frame = q.lastFrameRequested := by
    simp only [isNull] at hrequested
    rw [InputQueue.cut, if_pos hrequested]
    omega
  simp only [isNull] at hrequested
  have hnone : ∀ q' : InputQueue I, q.length = 0 → q'.length = 0 →
      q'.entries = q.entries.filter fun x => ¬InputQueue.Discarded q.lastFrameRequested frame x := by
    intro q' hq hq'
    simp [InputQueue.entries, hq, hq']
  rw [InputQueue.Discardable, if_pos hrequested]
  by_cases hall : q.cut frame ≥ q.lastAddedFrame
  · obtain ⟨q', hdiscard, hstores, -⟩ := h.discard_all hall
    have hempty : q.length = 0 := by omega
    exact iff_of_true ⟨q', hdiscard, hnone q' hempty (by rw [hstores.length, Nat.sub_self])⟩
      ⟨hempty, .inl (hcut ▸ hall)⟩
  · rcases Nat.lt_or_ge start log.length with hlt | hge
    · refine iff_of_false ?_ fun hempty => by omega
      rintro ⟨q', hdiscard, heq⟩
      by_cases hlow : q.cut frame + 1 < start
      · exact h.discard_below hroom hlow hlt q' hdiscard
      · obtain rfl : start = 0 := by omega
        have hnull : q.cut frame = ((0 : ℕ) : ℤ) - 1 := by omega
        obtain ⟨q₁, hq₁, hstores, -⟩ := h.discard_some hroom hnull le_rfl hlt
        obtain rfl := Except.ok.inj (hdiscard.symm.trans hq₁)
        rw [hstores.entries (by rw [hstores.length]; omega), ← h.entries hroom] at heq
        have hfirst : (⟨0, log[0]⟩ : FrameInput I) ∈ q.entries := by
          rw [h.entries hroom]
          refine List.mem_of_getElem? (i := 0) ?_
          rw [getElem?_framed]
          simp [hlt]
        rw [heq] at hfirst
        have hkept := (List.mem_filter.mp hfirst).2
        simp [InputQueue.Discarded, isNull, hrequested] at hkept
    · obtain rfl : start = log.length := le_antisymm hstart hge
      have hempty : q.length = 0 := by omega
      have hdiscard : ∀ q', q.discardConfirmedFrames frame = .ok q' ↔
          (q.inputs q.tail).frame = q.cut frame + 1 ∧ q' = q :=
        fun q' => h.discard_empty (not_le.mp hall)
      constructor
      · rintro ⟨q', hq', -⟩
        exact ⟨hempty, .inr (hcut ▸ ((hdiscard q').mp hq').1)⟩
      · rintro ⟨-, hless | htail⟩
        · exact absurd (hcut ▸ hless) hall
        · exact ⟨q, (hdiscard q).mpr ⟨hcut ▸ htail, rfl⟩, hnone q hempty hempty⟩

/-- Discarding removes what it is to remove, and returns, just when that can be discarded. -/
theorem discards_iff (h : Stores q delay log start) (hroom : q.length ≤ maxRollbackFrames) {frame : ℕ}
    (hfloor : start ≤ frame + 1) : q.Discards q.lastFrameRequested frame ↔ q.Discardable q.lastFrameRequested frame := by
  by_cases hrequested : isNull q.lastFrameRequested
  · exact h.discards_of_null hroom hrequested
  · exact h.discards_of_requested hroom hfloor hrequested

theorem getInput (h : Stores q delay log start) {frame : ℤ} {fetched : FetchedInput I}
    {q' : InputQueue I} (hget : q.getInput frame = .ok (fetched, q')) :
    Stores q' delay log start ∧ q'.lastFrameRequested = frame := by
  unfold InputQueue.getInput at hget
  obtain ⟨-, -, hget⟩ := Fallible.bind_eq_ok.mp hget
  obtain ⟨-, -, hget⟩ := Fallible.bind_eq_ok.mp hget
  split at hget
  · obtain ⟨offset, -, hget⟩ := Fallible.bind_eq_ok.mp hget
    split at hget
    · obtain ⟨-, -, hget⟩ := Fallible.bind_eq_ok.mp hget
      obtain rfl := (Prod.mk.inj (Except.ok.inj hget)).2
      exact ⟨{ h with }, rfl⟩
    · obtain rfl := (Prod.mk.inj (Except.ok.inj hget)).2
      exact ⟨{ h with }, rfl⟩
  · obtain rfl := (Prod.mk.inj (Except.ok.inj hget)).2
    exact ⟨{ h with }, rfl⟩

theorem resetPrediction (h : Stores q delay log start) {frame : ℤ} {q' : InputQueue I}
    (hreset : q.resetPrediction frame = .ok q') :
    Stores q' delay log start ∧ q'.lastFrameRequested = nullFrame := by
  unfold InputQueue.resetPrediction at hreset
  obtain ⟨-, -, hreset⟩ := Fallible.bind_eq_ok.mp hreset
  obtain rfl := Except.ok.inj hreset
  exact ⟨{ h with }, rfl⟩

end Stores

namespace InputQueue

section Requests

variable [Build] [BEq I]

omit [Zeroable I] in
theorem checkPrediction_requested (q : InputQueue I) (frame : ℤ) (x : FrameInput I) :
    Ends (q.checkPrediction frame x) (·.lastFrameRequested = q.lastFrameRequested) fun _ => True := by
  unfold checkPrediction
  refine .bind_any fun _ => ?_
  dsimp only
  split <;> split <;> rfl

omit [Zeroable I] in
theorem addDelayedInput_requested (q : InputQueue I) (frame : ℤ) (x : FrameInput I) :
    Ends (q.addDelayedInput frame x) (·.lastFrameRequested = q.lastFrameRequested) fun _ => True := by
  unfold addDelayedInput
  refine .bind_any fun _ => .bind_any fun _ => ?_
  dsimp only
  split
  · exact (checkPrediction_requested _ _ _).bind fun q' hq' => .bind_any fun _ => hq'
  · simp only [Fallible.pure_eq_ok, Fallible.ok_bind]
    exact .bind_any fun _ => rfl

omit [Zeroable I] in
theorem padQueue_requested (q : InputQueue I) (count : ℕ) (frame : ℤ) :
    Ends (q.padQueue count frame) (·.lastFrameRequested = q.lastFrameRequested) fun _ => True := by
  induction count generalizing q frame with
  | zero => rfl
  | succ count ih =>
    exact (q.addDelayedInput_requested _ _).bind fun q' hq' =>
      (ih q' _).imp fun q'' hq'' => hq''.trans hq'

omit [Zeroable I] in
theorem advanceQueueHead_requested (q : InputQueue I) (frame : ℤ) :
    Ends (q.advanceQueueHead frame) (·.2.lastFrameRequested = q.lastFrameRequested) fun _ => True := by
  unfold advanceQueueHead
  generalize (if q.firstFrame = true then 0 else (q.inputs (previousFrame q.head)).frame + 1) = expected
  dsimp only
  split
  · exact rfl
  · exact (q.padQueue_requested _ _).bind fun q' hq' => .bind_any fun _ => hq'

omit [Zeroable I] in
theorem addInput_requested (q : InputQueue I) (x : FrameInput I) :
    Ends (q.addInput x) (·.2.lastFrameRequested = q.lastFrameRequested) fun _ => True := by
  unfold addInput
  refine .bind_any fun _ => ?_
  refine (advanceQueueHead_requested _ _).bind fun r hr => ?_
  obtain ⟨newFrame, q₁⟩ := r
  dsimp only
  split
  · exact (q₁.addDelayedInput_requested _ _).bind fun q₂ hq₂ => hq₂.trans hr
  · exact hr

end Requests

variable [Build] [BEq I]

/-- The queues reached by any calls that return, with room for all that is stored. The inputs are
those of consecutive frames, of which `next` is the next. Kept beside the queue are the frame last
requested since the last reset, null if there is none, and the frame behind all discards. -/
inductive Reached : InputQueue I → (next requested : ℤ) → (floor : ℕ) → Prop
  | new (delay next : ℤ) : Reached (.new delay) next nullFrame 0
  | addInput {q next requested floor} (hq : Reached q next requested floor) (input r q')
    (h : q.addInput ⟨next, input⟩ = .ok (r, q')) (hroom : q'.length ≤ maxRollbackFrames) :
    Reached q' (next + 1) requested floor
  | getInput {q next requested floor} (hq : Reached q next requested floor) (frame fetched q')
    (h : q.getInput frame = .ok (fetched, q')) : Reached q' next frame floor
  | resetPrediction {q next requested floor} (hq : Reached q next requested floor) (frame q')
    (h : q.resetPrediction frame = .ok q') : Reached q' next nullFrame floor
  | discardConfirmedFrames {q next requested floor} (hq : Reached q next requested floor)
    (frame : ℕ) (q') (h : q.discardConfirmedFrames frame = .ok q') :
    Reached q' next requested (max floor (frame + 1))

variable {q : InputQueue I} {next requested : ℤ} {floor : ℕ}

theorem reached_stores (h : Reached q next requested floor) : q.length ≤ maxRollbackFrames ∧
    q.lastFrameRequested = requested ∧
      ∃ log start, start ≤ floor ∧ Stores q q.frameDelay log start := by
  induction h with
  | new delay next => exact ⟨Nat.zero_le _, rfl, [], 0, le_rfl, (Follows.new delay).stores⟩
  | @addInput q next requested floor hq input r q' h hroom ih =>
    obtain ⟨-, hrequested, log, start, hfloor, hstores⟩ := ih
    obtain ⟨-, log', hstores', -⟩ := (hstores.addInput _).ok h
    refine ⟨hroom, ((q.addInput_requested _).ok h).trans hrequested, log', start, hfloor, ?_⟩
    exact { hstores' with delay := rfl }
  | @getInput q next requested floor hq frame fetched q' h ih =>
    obtain ⟨hlength, -, log, start, hfloor, hstores⟩ := ih
    obtain ⟨hstores', hrequested⟩ := hstores.getInput h
    refine ⟨?_, hrequested, log, start, hfloor, { hstores' with delay := rfl }⟩
    rw [hstores'.length, ← hstores.length]
    exact hlength
  | @resetPrediction q next requested floor hq frame q' h ih =>
    obtain ⟨hlength, -, log, start, hfloor, hstores⟩ := ih
    obtain ⟨hstores', hrequested⟩ := hstores.resetPrediction h
    refine ⟨?_, hrequested, log, start, hfloor, { hstores' with delay := rfl }⟩
    rw [hstores'.length, ← hstores.length]
    exact hlength
  | @discardConfirmedFrames q next requested floor hq frame q' h ih =>
    obtain ⟨hlength, hrequested, log, start, hfloor, hstores⟩ := ih
    obtain ⟨hsame, start', hlow, hhigh, hstores'⟩ := hstores.discard_ok hlength h
    refine ⟨?_, hsame.trans hrequested, log, start', ?_, { hstores' with delay := rfl }⟩
    · have hbefore := hstores.length
      rw [hstores'.length]
      omega
    · exact hhigh.trans (max_le_max hfloor le_rfl)

/-- In every reachable state, discarding up to a frame that is not below an earlier discard removes
just what it is to remove, and returns, when that can be discarded. -/
theorem reached_discards_iff (h : Reached q next requested floor) {frame : ℕ}
    (hfloor : floor ≤ frame + 1) : q.Discards requested frame ↔ q.Discardable requested frame := by
  obtain ⟨hlength, rfl, log, start, hstart, hstores⟩ := reached_stores h
  exact hstores.discards_iff hlength (hstart.trans hfloor)

omit [Build] in
/-- Two inputs have been added and the second one requested: the first one is discarded alone. -/
theorem reached_discards_iff_first :
    letI : Build := ⟨true⟩
    letI : Zeroable UInt8 := ⟨0⟩
    ∃ q : InputQueue UInt8, q.entries = [⟨0, 5⟩, ⟨1, 6⟩] ∧ q.Discards 1 0 :=
  letI : Build := ⟨true⟩
  letI : Zeroable UInt8 := ⟨0⟩
  ⟨_, rfl, (reached_discards_iff (.getInput (.addInput (.addInput (.new 0 0) 5 _ _ rfl (by decide))
    6 _ _ rfl (by decide)) 1 _ _ rfl) (by decide)).mpr (by decide)⟩

omit [Build] in
/-- The second input is to be discarded, behind a first one that was discarded once it had been
requested. As nothing was requested since the reset, the call panics. -/
theorem not_discards_reset :
    letI : Build := ⟨true⟩
    letI : Zeroable UInt8 := ⟨0⟩
    ∃ (q : InputQueue UInt8) (next : ℤ) (floor : ℕ), Reached q next nullFrame floor ∧ floor ≤ 1 + 1 ∧
      q.entries = [⟨1, 6⟩] ∧ q.discardConfirmedFrames 1 = .error .tryFromInt ∧
      ¬q.Discards nullFrame 1 :=
  letI : Build := ⟨true⟩
  letI : Zeroable UInt8 := ⟨0⟩
  ⟨_, _, _, .resetPrediction (.addInput (.discardConfirmedFrames (.getInput
    (.addInput (.new 0 0) 5 _ _ rfl (by decide)) 0 _ _ rfl) 0 _ rfl) 6 _ _ rfl (by decide)) 0 _ rfl,
    by decide, rfl, rfl, fun h => by
      obtain ⟨q', hq', -⟩ := h
      cases hq'⟩

end InputQueue

end Backroll

import Backroll.Sync.Rollback
import Backroll.Input.Ideal
import Backroll.Input.Overflow

/-! The input queues of a session under simulation. In a strict session, in which all inputs
fit into the queues and comparing equal is being equal, the queues answer what is known of each
frame and nothing fails; in any other they only keep their marks where they belong. -/
namespace Backroll

open Fallible (Ends)

variable {n : ℕ} {I S : Type}

/-- A player that is out of the game by this frame. -/
def Gone (status : ConnectionStatus) (frame : ℕ) : Prop :=
  status.disconnected = true ∧ status.lastFrame < frame

instance (status : ConnectionStatus) (frame : ℕ) : Decidable (Gone status frame) :=
  inferInstanceAs (Decidable (_ ∧ _))

theorem Sync.isDisconnected_iff {s : Sync n I S} {cur : ℕ} (hcur : s.frameCount = cur) (i : Fin n) :
    s.isDisconnected i = true ↔ Gone (s.localConnectStatus i) cur := by
  simp [isDisconnected, Gone, hcur]

/-- The flags of the players below `k` that are gone. -/
def goneFlags (statuses : Fin n → ConnectionStatus) (frame : ℕ) : ℕ → BitVec maxPlayers
  | 0 => 0
  | k + 1 =>
    if h : k < n then
      if Gone (statuses ⟨k, h⟩) frame then goneFlags statuses frame k ||| (1 : BitVec maxPlayers) <<< k
      else goneFlags statuses frame k
    else goneFlags statuses frame k

/-- The faults to be reckoned with. -/
def Harmless (strict : Prop) (e : Panic) : Prop := ¬strict ∧ e ≠ .savedFrameNotFound

variable [Zeroable I]

/-- The inputs of a frame as far as they are known; a player that is gone has none. -/
def known (logs : Fin n → List I) (statuses : Fin n → ConnectionStatus) (frame : ℕ) :
    GameInput I where
  frame := frame
  disconnected := goneFlags statuses frame n
  inputs := fun p =>
    if h : p < n then
      if Gone (statuses ⟨p, h⟩) frame then Zeroable.zeroed
      else LogQueue.ideal (logs ⟨p, h⟩) frame
    else Zeroable.zeroed

variable [BEq I]

/-- A queue of which the frames before `cur` were requested, and those from `floor` on may be
requested again. -/
structure Tracks (strict : Prop) (floor cur : ℕ) (q : InputQueue I) (a : LogQueue I) : Prop where
  follows : Follows q a
  aware : a.Aware
  start : a.start ≤ floor
  marked : ¬isNull a.incorrect → floor ≤ a.incorrect
  behind : a.requested < cur
  window : strict → a.log.length ≤ a.start + maxRollbackFrames
  awaits : strict → a.Awaits

/-- Where the queues answer what is known: in a strict session whose inputs compare equal only
if they are. -/
abbrev Exact (I : Type) [BEq I] (strict : Prop) : Prop := strict ∧ LawfulBEq I

/-- What requests and resets leave alone. -/
structure SameLog (a a' : LogQueue I) : Prop where
  log : a'.log = a.log
  start : a'.start = a.start
  delay : a'.delay = a.delay
  lastUser : a'.lastUser = a.lastUser

variable {strict : Prop} {floor cur : ℕ} {q : InputQueue I} {a : LogQueue I}

theorem Tracks.refines (h : Tracks strict floor cur q a) (hs : strict) : Refines q a :=
  ⟨h.follows, h.window hs⟩

theorem Tracks.mono {cur' : ℕ} (h : Tracks strict floor cur q a) (hcur : cur ≤ cur') :
    Tracks strict floor cur' q a :=
  { h with behind := h.behind.trans_le (by omega) }

section Operations

variable [Build]

/-- A request for the next frame. -/
theorem Tracks.getInput (h : Tracks strict floor cur q a) (hnull : isNull a.incorrect)
    (hfloor : floor ≤ cur) : Ends (q.getInput cur) (fun r => ∃ a',
      Tracks strict floor (cur + 1) r.2 a' ∧ SameLog a a' ∧ isNull a'.incorrect ∧
      a'.requested = cur ∧ (cur < a.log.length → a'.guess = a.guess) ∧
      (Exact I strict → r.1.unwrap.input = LogQueue.ideal a.log cur)) (Harmless strict) := by
  have hstart := h.start
  have hbehind := h.behind
  have hcur : (cur : ℤ) < (cur + 1 : ℕ) := by omega
  by_cases hs : strict
  · obtain ⟨q', he, hq'⟩ := (h.refines hs).getInput hnull (hstart.trans hfloor)
    have haware := h.aware.get hnull hbehind.le (a.guess_get cur)
    have hawaits := a.awaits_get cur
    have hguess : cur < a.log.length → (a.get cur).2.guess = a.guess := fun hlt =>
      (a.guess_get cur).resolve_right fun h => absurd h.2 (not_le.mpr hlt)
    have hvalue : Exact I strict → (a.get cur).1.unwrap.input = LogQueue.ideal a.log cur :=
      fun hx => have := hx.2; h.aware.unwrap_get hnull hbehind.le
    have hget := a.get_eq cur
    obtain ⟨a', ha'⟩ : ∃ a', a' = (a.get cur).2 := ⟨_, rfl⟩
    rw [← ha'] at hq' haware hawaits hget hguess
    rw [← hget] at haware
    have hnull' : isNull a'.incorrect := by rwa [hget]
    refine .of_ok he ⟨a', ⟨hq'.toFollows, haware, ?_, fun h => absurd hnull' h, ?_,
      fun _ => hq'.window, fun _ => hawaits⟩, ⟨?_, ?_, ?_, ?_⟩, hnull', ?_, hguess, hvalue⟩
    all_goals rw [hget]
    all_goals assumption
  · refine (h.follows.getInput (hstart.trans hfloor)).mono ?_ fun e he => ⟨hs, he⟩
    rintro r ⟨guess, hguess, hq'⟩
    exact ⟨_, ⟨hq', h.aware.get hnull hbehind.le hguess, hstart, h.marked, hcur,
      fun h => absurd h hs, fun h => absurd h hs⟩, ⟨rfl, rfl, rfl, rfl⟩, hnull, rfl,
      fun hlt => hguess.resolve_right fun h => absurd h.2 (not_le.mpr hlt),
      fun h => absurd h.1 hs⟩

/-- A reset, which in a strict session is never above a wrong frame. -/
theorem Tracks.resetPrediction (h : Tracks strict floor cur q a) {t : ℕ}
    (hmark : strict → isNull a.incorrect ∨ t ≤ a.incorrect) :
    Ends (q.resetPrediction t) (fun q' => Tracks strict floor t q' a.reset) (Harmless strict) := by
  refine (h.follows.resetPrediction t).mono (fun q' hq' => ?_) fun e he => ?_
  · exact ⟨hq', a.aware_reset, h.start, fun hm => absurd (show (-1 : ℤ) < 0 by decide) hm,
      by show (-1 : ℤ) < t; omega, h.window, fun _ => a.awaits_reset⟩
  · exact ⟨fun hs => he.2 (hmark hs), by simp [he.1]⟩

/-- Another input of the player. -/
theorem Tracks.addInput (h : Tracks strict floor cur q a) {x : FrameInput I}
    (hfloor : floor ≤ a.log.length)
    (hfits : strict → (isNull a.lastUser ∨ x.frame = a.lastUser + 1) ∧
      x.frame + a.delay < a.start + maxRollbackFrames) :
    Ends (q.addInput x) (fun r => Tracks strict floor cur r.2 (a.add x)) (Harmless strict) := by
  refine (h.follows.addInput x).mono (fun r hr => ?_) fun e he => ?_
  · refine ⟨hr, h.aware.add x, by simpa using h.start, fun hm => ?_, by simpa using h.behind,
      fun hs => ?_, fun hs => (h.awaits hs).add h.aware.sound x⟩
    · rcases a.incorrect_add_cases x with hsame | ⟨-, hge⟩
      · rw [hsame] at hm ⊢
        exact h.marked hm
      · omega
    · have hw := h.window hs
      have hroom := (hfits hs).2
      rw [LogQueue.log_add, LogQueue.start_add]
      split
      · exact hw
      · simp only [List.length_append, List.length_replicate, List.length_singleton]
        omega
  · exact ⟨fun hs => he.2 (hfits hs), by simp [he.1]⟩

/-- Discarding the frames below `frame + 1`. In a strict session a queue of which nothing was
requested must not have discarded anything before. -/
theorem Tracks.discardConfirmedFrames (h : Tracks strict floor cur q a) {frame : ℕ}
    (hfloor : floor ≤ frame + 1) (hmark : isNull a.incorrect)
    (hasked : strict → isNull a.requested → a.start = 0) :
    Ends (q.discardConfirmedFrames frame) (fun q' => ∃ start,
      Tracks strict (frame + 1) cur q' { a with start := start } ∧
      (strict → ¬isNull a.requested → start = min (frame + 1) a.log.length)) (Harmless strict) := by
  have hstart := h.start
  have haware : ∀ start, LogQueue.Aware { a with start := start } := fun start =>
    ⟨h.aware.sound, h.aware.asked, h.aware.marked⟩
  have hasked' := h.aware.asked
  by_cases hs : strict
  · obtain ⟨q', he, hq'⟩ := (h.refines hs).discardConfirmedFrames frame
      (.inl (hstart.trans hfloor)) fun hnull =>
        ⟨show a.requested = -1 by simp only [isNull] at hnull; omega, hasked hs hnull⟩
    unfold LogQueue.discard at hq'
    split at hq'
    · next hnull =>
      exact .of_ok he ⟨a.start, ⟨hq'.toFollows, h.aware, hstart.trans hfloor,
        fun hm => absurd hmark hm, h.behind, fun _ => hq'.window, h.awaits⟩,
        fun _ hreq => absurd hnull hreq⟩
    · next hreq =>
      exact .of_ok he ⟨_, ⟨hq'.toFollows, haware _, min_le_left _ _, fun hm => absurd hmark hm,
        h.behind, fun _ => hq'.window, h.awaits⟩, fun _ _ => rfl⟩
  · refine (h.follows.discardConfirmedFrames frame hasked').mono ?_ fun e he => ⟨hs, he⟩
    rintro q' ⟨start, hle, hq'⟩
    exact ⟨start, ⟨hq', haware _, by dsimp only; omega, fun hm => absurd hmark hm, h.behind,
      fun h => absurd h hs, fun h => absurd h hs⟩, fun h => absurd h hs⟩

end Operations

/-- A player's queue after the inputs of frame `cur` were gathered. -/
def Asked (strict : Prop) (floor cur : ℕ) (status : ConnectionStatus) (a : LogQueue I)
    (q' : InputQueue I) : Prop :=
  ∃ a', Tracks strict floor (cur + 1) q' a' ∧ SameLog a a' ∧ isNull a'.incorrect ∧
    a'.requested = (if Gone status cur then a.requested else cur) ∧
    (cur < a.log.length → a'.guess = a.guess)

namespace Sync

variable {s : Sync n I S} {as : Fin n → LogQueue I}

/-- The inputs gathered from the players below `k`. -/
structure Gathered (strict : Prop) (floor cur : ℕ) (s : Sync n I S) (as : Fin n → LogQueue I)
    (k : ℕ) (out : GameInput I) (s' : Sync n I S) : Prop where
  same : s' = { s with inputQueues := s'.inputQueues }
  frame : out.frame = cur
  flags : strict → out.disconnected = goneFlags s.localConnectStatus cur k
  inputs : Exact I strict → ∀ p, out.inputs p =
    if p < k then (known (fun i => (as i).log) s.localConnectStatus cur).inputs p
    else Zeroable.zeroed
  asked : ∀ i : Fin n, i < k →
    Asked strict floor cur (s.localConnectStatus i) (as i) (s'.inputQueues i)
  todo : ∀ i : Fin n, k ≤ i → s'.inputQueues i = s.inputQueues i

theorem Gathered.eq_known {out : GameInput I} {s' : Sync n I S}
    (h : Gathered strict floor cur s as n out s') (hx : Exact I strict) :
    out = known (fun i => (as i).log) s.localConnectStatus cur := by
  obtain ⟨frame, disconnected, inputs⟩ := out
  have hframe := h.frame
  have hflags := h.flags hx.1
  have hinputs := h.inputs hx
  dsimp only at hframe hflags hinputs
  have hin : inputs = (known (fun i => (as i).log) s.localConnectStatus cur).inputs := by
    funext p
    rw [hinputs p]
    split
    · rfl
    · next hp => simp [known, hp]
  rw [hframe, hflags, hin]
  rfl

variable [Build]

theorem synchronizeInput_ends (hcur : s.frameCount = cur) (hn : strict → n ≤ maxPlayers)
    (hfloor : floor ≤ cur) (h : ∀ i, Tracks strict floor cur (s.inputQueues i) (as i))
    (hnull : ∀ i, isNull (as i).incorrect) (i : Fin n) {out : GameInput I} {s' : Sync n I S}
    (hg : Gathered strict floor cur s as i out s') :
    Ends (s'.synchronizeInput i out) (fun r => Gathered strict floor cur s as (i + 1) r.1 r.2)
      (Harmless strict) := by
  have hstatus : s'.localConnectStatus = s.localConnectStatus := by rw [hg.same]
  have hcur' : s'.frameCount = cur := by rw [hg.same]; exact hcur
  have hi := h i
  rw [← hg.todo i le_rfl] at hi
  unfold synchronizeInput
  by_cases hgone : Gone (s.localConnectStatus i) cur
  · rw [if_pos ((isDisconnected_iff hcur' i).mpr (by rwa [hstatus]))]
    split
    · refine ⟨hg.same, hg.frame, fun hs => ?_, fun hs p => ?_, fun j hj => ?_, fun j hj =>
        hg.todo j (by omega)⟩
      · rw [goneFlags, dif_pos i.isLt, if_pos hgone, ← hg.flags hs]
      · rw [hg.inputs hs]
        rcases Nat.lt_trichotomy p i with hlt | heq | hgt
        · rw [if_pos hlt, if_pos (by omega)]
        · rw [if_neg (by omega), if_pos (by omega)]
          simp [known, heq, hgone]
        · rw [if_neg (by omega), if_neg (by omega)]
      · rcases Nat.lt_or_ge j i with hlt | hge
        · exact hg.asked j hlt
        · obtain rfl : j = i := Fin.ext (by omega)
          exact ⟨as j, hi.mono (Nat.le_succ _), ⟨rfl, rfl, rfl, rfl⟩, hnull j, by rw [if_pos hgone], fun _ => rfl⟩
    · next hbig =>
      refine ⟨fun hs => ?_, by simp⟩
      have := hn hs
      omega
  · rw [if_neg (by rw [isDisconnected_iff hcur', hstatus]; exact hgone), hcur']
    refine (hi.getInput (hnull i) hfloor).bind fun r hr => ?_
    obtain ⟨fetched, q'⟩ := r
    obtain ⟨a', htracks, hsame, hnull', hreq, hguess, hinput⟩ := hr
    dsimp only
    split
    · next hbig =>
      refine ⟨?_, hg.frame, fun hs => ?_, fun hs p => ?_, fun j hj => ?_, fun j hj => ?_⟩
      · rw [hg.same, hcur]
      · rw [goneFlags, dif_pos i.isLt, if_neg hgone]
        exact hg.flags hs
      · by_cases hp : p = ⟨i, hbig⟩
        · subst hp
          simp [known, hgone, hinput hs]
        · have hne : p.val ≠ i := fun heq => hp (Fin.ext heq)
          dsimp only
          rw [Function.update_of_ne hp, hg.inputs hs]
          rcases Nat.lt_or_ge p i with hlt | hge
          · rw [if_pos hlt, if_pos (by omega)]
          · rw [if_neg (by omega), if_neg (by omega)]
      · rcases Nat.lt_or_ge j i with hlt | hge
        · have hne : j ≠ i := by rintro rfl; omega
          simp only [Function.update_of_ne hne]
          exact hg.asked j hlt
        · obtain rfl : j = i := Fin.ext (by omega)
          simp only [Function.update_self]
          exact ⟨a', htracks, hsame, hnull', by rw [if_neg hgone, hreq], hguess⟩
      · have hne : j ≠ i := by rintro rfl; omega
        simp only [Function.update_of_ne hne]
        exact hg.todo j (by omega)
    · next hbig =>
      refine ⟨fun hs => ?_, by simp⟩
      have := hn hs
      omega

/-- Gathering the inputs of a frame from queues that report nothing wrong. -/
theorem synchronizeInputs_ends (hcur : s.frameCount = cur) (hn : strict → n ≤ maxPlayers)
    (hfloor : floor ≤ cur) (h : ∀ i, Tracks strict floor cur (s.inputQueues i) (as i))
    (hnull : ∀ i, isNull (as i).incorrect) :
    Ends s.synchronizeInputs (fun r => Gathered strict floor cur s as n r.1 r.2)
      (Harmless strict) := by
  unfold synchronizeInputs
  refine Fallible.forEach_ends (fun k (r : GameInput I × Sync n I S) =>
    Gathered strict floor cur s as k r.1 r.2) ?_ ?_
  · exact ⟨rfl, hcur, fun _ => rfl, fun _ p => by simp; rfl, fun i hi => by omega, fun _ _ => rfl⟩
  · rintro i ⟨out, s'⟩ hg
    exact synchronizeInput_ends hcur hn hfloor h hnull i hg

end Sync

end Backroll

import Backroll.Sync.Tracking

/-! One frame forward, a rollback, and the confirmation of frames, with all input queues. -/
namespace Backroll

open Fallible (Ends)

variable {n : ℕ} {I S : Type}

/-- The last frame among the `k` from `t` on for which the player was asked, null if none. -/
def askedSince (status : ConnectionStatus) (t : ℕ) : ℕ → ℤ
  | 0 => nullFrame
  | k + 1 => if Gone status (t + k) then askedSince status t k else (t + k : ℕ)

theorem askedSince_of_last {status : ConnectionStatus} {t cur : ℕ} (ht : t < cur)
    (h : ¬Gone status (cur - 1)) : askedSince status t (cur - t) = cur - 1 := by
  obtain ⟨k, hk⟩ : ∃ k, cur - t = k + 1 := ⟨cur - t - 1, by omega⟩
  rw [hk, askedSince, if_neg (by rwa [show t + k = cur - 1 by omega])]
  omega

theorem Sync.mapQueues_ends {f : InputQueue I → Except Panic (InputQueue I)}
    {queues : Fin n → InputQueue I} {Q : Fin n → InputQueue I → Prop} {fault : Panic → Prop}
    (h : ∀ i, Ends (f (queues i)) (Q i) fault) :
    Ends (mapQueues f queues) (fun queues' => ∀ i, Q i (queues' i)) fault := by
  unfold mapQueues
  refine (Fallible.forEach_ends (fun k (queues' : Fin n → InputQueue I) =>
    (∀ i : Fin n, i < k → Q i (queues' i)) ∧ ∀ i : Fin n, k ≤ i → queues' i = queues i)
    ⟨fun i hi => absurd hi (Nat.not_lt_zero _), fun _ _ => rfl⟩ ?_).imp fun queues' hq i =>
      hq.1 i i.isLt
  rintro i queues' ⟨hdone, htodo⟩
  rw [htodo i le_rfl]
  refine (h i).bind fun q hq => ⟨fun j hj => ?_, fun j hj => ?_⟩
  · rcases Nat.lt_or_ge j i with hlt | hge
    · have hne : j ≠ i := by rintro rfl; omega
      rw [Function.update_of_ne hne]
      exact hdone j hlt
    · obtain rfl : j = i := Fin.ext (by omega)
      rwa [Function.update_self]
  · have hne : j ≠ i := by rintro rfl; omega
    rw [Function.update_of_ne hne]
    exact htodo j (by omega)

variable [Zeroable I]

/-- What the client used is what is known by now. -/
def UsesKnown (cur : ℕ) (v : View I S) (as : Fin n → LogQueue I)
    (statuses : Fin n → ConnectionStatus) : Prop :=
  ∀ f < cur, v.used f = known (fun i => (as i).log) statuses f

theorem known_congr {logs logs' : Fin n → List I} {statuses statuses' : Fin n → ConnectionStatus}
    {frame : ℕ} (hst : ∀ i, Gone (statuses' i) frame ↔ Gone (statuses i) frame)
    (hlog : ∀ i, ¬Gone (statuses i) frame →
      LogQueue.ideal (logs' i) frame = LogQueue.ideal (logs i) frame) :
    known logs' statuses' frame = known logs statuses frame := by
  have hflags : ∀ k, goneFlags statuses' frame k = goneFlags statuses frame k := by
    intro k
    induction k with
    | zero => rfl
    | succ k ih => simp only [goneFlags, ih, hst]
  unfold known
  rw [hflags]
  congr 1
  funext p
  split
  · next hp =>
    simp only [hst]
    split
    · rfl
    · next hgone => exact hlog _ hgone
  · rfl

variable [BEq I]

/-- A queue after a rollback to `t`. -/
structure Resumed (strict : Prop) (floor cur t : ℕ) (status : ConnectionStatus) (a : LogQueue I)
    (q' : InputQueue I) (a' : LogQueue I) : Prop where
  tracks : Tracks strict floor cur q' a'
  same : SameLog a a'
  unmarked : isNull a'.incorrect
  requested : a'.requested = askedSince status t (cur - t)
  guess : cur ≤ a.log.length → a'.guess = none

namespace Sync

variable [Build]

variable [Client I S] {strict : Prop} {floor cur off : ℕ} {s : Sync n I S} {v : View I S} {init : S}
  {as : Fin n → LogQueue I}

/-- The commands of one frame forward, as far as the cells and the frames are concerned. -/
structure Forwards (cs : List (Command I)) (cur : ℕ) : Prop where
  exposes : ∀ c, ¬Snapshots.Exposes c (ops S cs)
  advances : (advances cs).map (·.frame) = [(cur : ℤ)]
  seeks : Seeks (fun _ => False) cs

/-- One frame forward from queues that report nothing wrong. -/
theorem incrementFrame_tracks (hst : s.Stands off floor cur v init)
    (hspan : cur + 1 ≤ floor + maxPredictionFrames) (hn : strict → n ≤ maxPlayers)
    (hq : ∀ i, Tracks strict floor cur (s.inputQueues i) (as i))
    (hnull : ∀ i, isNull (as i).incorrect)
    (hused : Exact I strict → UsesKnown cur v as s.localConnectStatus) :
    Ends s.incrementFrame (fun r => ∃ v' as', Unchanged s r.2 ∧ Issues s r.2 r.1 v v' ∧
      r.2.Stands off floor (cur + 1) v' init ∧ Forwards (S := S) r.1 cur ∧
      (∀ i, Tracks strict floor (cur + 1) (r.2.inputQueues i) (as' i) ∧ SameLog (as i) (as' i) ∧
        isNull (as' i).incorrect ∧
        (as' i).requested = (if Gone (s.localConnectStatus i) cur then (as i).requested else cur) ∧
        (cur < (as i).log.length → (as' i).guess = (as i).guess)) ∧
      (∀ f < cur, v'.used f = v.used f) ∧
      (Exact I strict → UsesKnown (cur + 1) v' as' s.localConnectStatus)) (Harmless strict) := by
  have hfetch : ∀ savedState : SavedState S, Fetches { s with savedState := savedState } cur
      (fun inputs queues =>
        (Exact I strict → inputs = known (fun i => (as i).log) s.localConnectStatus cur) ∧
        ∀ i, Asked strict floor cur (s.localConnectStatus i) (as i) (queues i))
      (Harmless strict) := by
    intro savedState
    refine (synchronizeInputs_ends (s := { s with savedState := savedState }) hst.frameCount hn
      hst.lo_le hq hnull).imp fun r hg => ?_
    exact ⟨hg.same, hg.frame, fun hs => hg.eq_known hs, fun i => hg.asked i i.isLt⟩
  refine (incrementFrame_ends hst le_rfl (hst.lo_le.trans (Nat.le_succ _)) hspan hfetch).imp ?_
  rintro r ⟨inputs, v', ⟨hinputs, hasked⟩, hframe, hun, hiss, hused', hst', hadv, hseek, -, hexp, -⟩
  choose as' htracks hsame hnull' hreq hguess using hasked
  refine ⟨v', as', hun, hiss, hst', ⟨hexp, by simp [hadv, hframe], hseek⟩, fun i => ⟨htracks i, hsame i, hnull' i, hreq i, hguess i⟩,
    fun f hf => ?_, fun hs f hf => ?_⟩
  · rw [hused', Function.update_of_ne (by omega)]
  · simp only [hused', fun i => (hsame i).log]
    rcases Nat.lt_or_ge f cur with hlt | hge
    · rw [Function.update_of_ne (by omega)]
      exact hused hs f hlt
    · obtain rfl : f = cur := by omega
      rw [Function.update_self]
      exact hinputs hs

/-- A rollback, which in a strict session never goes beyond a wrong frame. -/
theorem adjustSimulation_tracks (hst : s.Stands off floor cur v init)
    (hback : s.rollingBack = false) (hn : strict → n ≤ maxPlayers)
    (hq : ∀ i, Tracks strict floor cur (s.inputQueues i) (as i)) {t : ℕ} (hlo : floor ≤ t)
    (ht : t < cur) (hmark : strict → ∀ i, isNull (as i).incorrect ∨ t ≤ (as i).incorrect)
    (hused : Exact I strict → UsesKnown t v as s.localConnectStatus) :
    Ends (s.adjustSimulation t) (fun r => ∃ v' as', Unchanged s r.2 ∧ Issues s r.2 r.1 v v' ∧
      r.2.Stands (shifted off t) floor cur v' init ∧ Rewinds (S := S) r.1 off floor cur t ∧
      (∀ i, Resumed strict floor cur t (s.localConnectStatus i) (as i) (r.2.inputQueues i) (as' i)) ∧
      (Exact I strict → UsesKnown cur v' as' s.localConnectStatus)) (Harmless strict) := by
  have hreset : Ends (mapQueues (·.resetPrediction t) s.inputQueues) (fun queues => ∀ i, ∃ a',
      Resumed strict floor t t (s.localConnectStatus i) (as i) (queues i) a') (Harmless strict) := by
    refine mapQueues_ends (Q := fun i q' => ∃ a', Resumed strict floor t t
      (s.localConnectStatus i) (as i) q' a') fun i => ?_
    refine ((hq i).resetPrediction fun hs => hmark hs i).imp fun q' hq' => ?_
    exact ⟨_, hq', ⟨rfl, rfl, rfl, rfl⟩, show (-1 : ℤ) < 0 by decide, by rw [Nat.sub_self]; rfl,
      fun _ => rfl⟩
  have hfetch : ∀ f (s' : Sync n I S), t ≤ f → f < cur →
      s'.localConnectStatus = s.localConnectStatus → s'.frameCount = f →
      (∀ i, ∃ a', Resumed strict floor f t (s.localConnectStatus i) (as i) (s'.inputQueues i) a') →
      Fetches s' f (fun inputs queues =>
        (Exact I strict → inputs = known (fun i => (as i).log) s.localConnectStatus f) ∧
        ∀ i, ∃ a', Resumed strict floor (f + 1) t (s.localConnectStatus i) (as i) (queues i) a')
        (Harmless strict) := by
    intro f s' hge hlt hstatus hf hres
    choose bs hbs using hres
    refine (synchronizeInputs_ends hf hn (hlo.trans hge) (fun i => (hbs i).tracks)
      fun i => (hbs i).unmarked).imp fun r hg => ?_
    refine ⟨hg.same, hg.frame, fun hs => ?_, fun i => ?_⟩
    · rw [hg.eq_known hs, hstatus]
      simp only [fun i => (hbs i).same.log]
    · obtain ⟨a', htracks, hsame, hnull, hreq, hguess⟩ := hg.asked i i.isLt
      have hb := (hbs i).same
      rw [hstatus, (hbs i).requested] at hreq
      refine ⟨a', htracks, ⟨hsame.log.trans hb.log, hsame.start.trans hb.start,
        hsame.delay.trans hb.delay, hsame.lastUser.trans hb.lastUser⟩, hnull, ?_, fun hlen => ?_⟩
      · rw [hreq, show f + 1 - t = (f - t) + 1 by omega, askedSince, show t + (f - t) = f by omega]
      · rw [hguess (by rw [hb.log]; exact hlen)]
        exact (hbs i).guess (by omega)
  refine (adjustSimulation_ends (P := fun f queues => ∀ i, ∃ a', Resumed strict floor f t
      (s.localConnectStatus i) (as i) (queues i) a')
    (R := fun f inputs => Exact I strict →
      inputs = known (fun i => (as i).log) s.localConnectStatus f)
    hst hback hlo ht hreset hfetch).imp ?_
  rintro r ⟨v', hun, hiss, hst', hrew, hres, hkeep, hfresh⟩
  choose as' has' using hres
  refine ⟨v', as', hun, hiss, hst', hrew, has', fun hs f hf => ?_⟩
  simp only [fun i => (has' i).same.log]
  rcases Nat.lt_or_ge f t with hlt | hge
  · rw [hkeep f (.inl hlt)]
    exact hused hs f hlt
  · exact hfresh f hge hf hs

end Sync

end Backroll

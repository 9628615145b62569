import Backroll.Sync.Batch
import Backroll.Lib.Cyclic

/-! The ring of saved states. The frames up to the current one lie in consecutive cells; from
the first rollback to frame 0 on they lie one cell further, with frame 0 in two cells. -/
namespace Backroll

open Cyclic (cell)

variable {I S : Type}

/-- The cell a search for a frame finds, when the frames are `off` cells further on. -/
def slot (off frame : ℕ) : Fin numCells := if frame = 0 then 0 else cell numCells (frame + off)

theorem cell_ne_zero {j : ℕ} (h0 : 0 < j) (hj : j < numCells) : cell numCells j ≠ 0 := by
  intro h
  have := congrArg Fin.val h
  simp only [cell, Fin.val_ofNat, Fin.val_zero, Nat.mod_eq_of_lt hj] at this
  omega

theorem slot_ne_cell {off lo t frame : ℕ} (hoff : off ≤ 1) (hlo : lo ≤ t) (ht : t < frame)
    (hspan : frame ≤ lo + maxPredictionFrames) : slot off t ≠ cell numCells (frame + off) := by
  have h8 : maxPredictionFrames = 8 := rfl
  have h10 : numCells = 10 := rfl
  unfold slot
  split
  · exact (cell_ne_zero (by omega) (by omega)).symm
  · exact Cyclic.cell_ne (by omega) (by omega)

namespace SavedState

/-- The frames from `lo` to `cur` are in the ring, and the head is behind them; what is left of
later ones is written over when they come again. -/
structure Ring (s : SavedState S) (off lo cur : ℕ) (v : View I S) (sim : ℕ → S) : Prop where
  off_le : off ≤ 1
  lo_le : lo ≤ cur
  span : cur ≤ lo + maxPredictionFrames
  head : s.head = cell numCells (cur + 1 + off)
  label : ∀ frame c, lo ≤ frame → frame ≤ cur →
    ((s.frames c).frame = frame ↔ c = cell numCells (frame + off) ∨ frame = 0 ∧ c = 0)
  stale : ∀ (frame : ℕ) c, cur < frame → (s.frames c).frame = frame →
    c = cell numCells (frame + off) ∨ off = 1 ∧ c = cell numCells frame
  data : ∀ (frame : ℕ) c, lo ≤ frame → frame ≤ cur → (s.frames c).frame = frame →
    v.cells c = some (sim frame)
  saved : ∀ frame : ℕ, lo ≤ frame → frame ≤ cur → v.saved frame = some (sim frame)

/-- The simulation stands at frame 0, which is saved next: to cell 0, or behind it when a
rollback has found it there. -/
structure Start (s : SavedState S) (off : ℕ) (v : View I S) (init : S) : Prop where
  off_le : off ≤ 1
  head : s.head = cell numCells off
  label : ∀ c, (s.frames c).frame = (0 : ℕ) → c = 0 ∨ c = cell numCells off
  stale : ∀ (frame : ℕ) c, 0 < frame → (s.frames c).frame = frame →
    c = cell numCells (frame + off) ∨ off = 1 ∧ c = cell numCells frame
  kept : off = 1 → (s.frames 0).frame = (0 : ℕ) ∧ v.cells 0 = some init

variable {s : SavedState S} {off lo cur : ℕ} {v : View I S} {sim : ℕ → S}

theorem frame_push (s : SavedState S) (frame : ℤ) (c : Fin numCells) :
    ((s.push frame).2.frames c).frame = if c = s.head then frame else (s.frames c).frame := by
  simp only [push]
  by_cases hc : c = s.head
  · simp [hc]
  · simp [hc]

theorem cells_save (v : View I S) (c' : Fin numCells) (frame : ℤ) (c : Fin numCells) :
    (v.save c' frame).cells c = if c = c' then some v.state else v.cells c := by
  simp [View.save, Function.update_apply]

theorem saved_save (v : View I S) (c : Fin numCells) (frame frame' : ℤ) :
    (v.save c frame).saved frame' = if frame' = frame then some v.state else v.saved frame' := by
  simp [View.save, Function.update_apply]

/-- A cell other than the head that holds frame 0 is one a rollback has found it in. -/
theorem Start.kept_of_label (h : s.Start off v (sim 0)) {c : Fin numCells}
    (hlabel : (s.frames c).frame = (0 : ℕ)) (hc : c ≠ s.head) : off = 1 ∧ c = 0 := by
  rw [h.head] at hc
  have hoff := h.off_le
  have hc0 := (h.label c hlabel).resolve_right hc
  refine ⟨?_, hc0⟩
  by_contra hne
  obtain rfl : off = 0 := by omega
  exact hc hc0

theorem Start.push (h : s.Start off v (sim 0)) (hstate : v.state = sim 0) :
    (s.push (0 : ℕ)).2.Ring off 0 0 (v.save s.head (0 : ℕ)) sim := by
  refine ⟨h.off_le, le_rfl, Nat.zero_le _, ?_, fun frame c _ hf => ?_, fun frame c hf hlabel => ?_,
    fun frame c _ hf hlabel => ?_, fun frame _ hf => ?_⟩
  · show s.head + 1 = _
    rw [h.head, Cyclic.cell_succ]
    congr 1
    omega
  · obtain rfl : frame = 0 := by omega
    rw [frame_push, Nat.zero_add]
    by_cases hc : c = s.head
    · simp [hc, h.head]
    · rw [if_neg hc]
      constructor
      · intro hlabel
        exact .inr ⟨rfl, (h.kept_of_label hlabel hc).2⟩
      · rintro (hcell | ⟨-, rfl⟩)
        · exact absurd (hcell.trans h.head.symm) hc
        · have hoff := h.off_le
          rw [h.head] at hc
          refine (h.kept ?_).1
          by_contra hne
          obtain rfl : off = 0 := by omega
          exact hc rfl
  · rw [frame_push] at hlabel
    split at hlabel
    · omega
    · exact h.stale frame c hf hlabel
  · obtain rfl : frame = 0 := by omega
    rw [frame_push] at hlabel
    rw [cells_save]
    split
    · rw [hstate]
    · next hc =>
      rw [if_neg hc] at hlabel
      obtain ⟨hoff, rfl⟩ := h.kept_of_label hlabel hc
      exact (h.kept hoff).2
  · obtain rfl : frame = 0 := by omega
    rw [saved_save, if_pos rfl, hstate]

/-- The next frame is saved over the oldest one. -/
theorem Ring.push (h : s.Ring off lo cur v sim) {lo' : ℕ} (hlo : lo ≤ lo') (hlo' : lo' ≤ cur + 1)
    (hspan : cur + 1 ≤ lo' + maxPredictionFrames) (v' : View I S) (sim' : ℕ → S)
    (hcells : v'.cells = v.cells) (hsaved : v'.saved = v.saved) (hstate : v'.state = sim' (cur + 1))
    (hsim : ∀ frame ≤ cur, sim' frame = sim frame) :
    (s.push (cur + 1 : ℕ)).2.Ring off lo' (cur + 1) (v'.save s.head (cur + 1 : ℕ)) sim' := by
  have h8 : maxPredictionFrames = 8 := rfl
  have h10 : numCells = 10 := rfl
  have hoff := h.off_le
  -- no cell but the head is left with the new frame's label
  have hnew : ∀ c, c ≠ s.head → (s.frames c).frame ≠ (cur + 1 : ℕ) := by
    intro c hc hlabel
    rcases h.stale (cur + 1) c (Nat.lt_succ_self _) hlabel with hcell | ⟨rfl, hcell⟩
    · exact hc (hcell.trans h.head.symm)
    · have := (h.label cur c h.lo_le le_rfl).mpr (.inl hcell)
      omega
  refine ⟨hoff, hlo', hspan, ?_, fun frame c hge hle => ?_, fun frame c hf hlabel => ?_,
    fun frame c hge hle hlabel => ?_, fun frame hge hle => ?_⟩
  · show s.head + 1 = _
    rw [h.head, Cyclic.cell_succ]
    congr 1
    omega
  · rw [frame_push]
    by_cases hc : c = s.head
    · subst hc
      rw [if_pos rfl, h.head]
      rcases hle.lt_or_eq with hlt | rfl
      · have hne : cell numCells (frame + off) ≠ cell numCells (cur + 1 + off) :=
          Cyclic.cell_ne (by omega) (by omega)
        constructor
        · intro heq
          omega
        · rintro (heq | ⟨rfl, heq⟩)
          · exact absurd heq.symm hne
          · exact absurd heq (cell_ne_zero (by omega) (by omega))
      · simp
    · rw [if_neg hc]
      rcases hle.lt_or_eq with hlt | rfl
      · exact h.label frame c (by omega) (by omega)
      · refine ⟨fun hlabel => absurd hlabel (hnew c hc), ?_⟩
        rintro (hcell | ⟨h0, -⟩)
        · exact absurd (hcell.trans h.head.symm) hc
        · omega
  · rw [frame_push] at hlabel
    split at hlabel
    · omega
    · exact h.stale frame c (by omega) hlabel
  · rw [frame_push] at hlabel
    rw [cells_save]
    split at hlabel
    · next hc =>
      obtain rfl : cur + 1 = frame := by omega
      rw [if_pos hc, hstate]
    · next hc =>
      rw [if_neg hc, hcells]
      rcases hle.lt_or_eq with hlt | rfl
      · rw [hsim frame (by omega)]
        exact h.data frame c (by omega) (by omega) hlabel
      · exact absurd hlabel (hnew c hc)
  · rw [saved_save]
    split
    · next heq =>
      obtain rfl : frame = cur + 1 := by omega
      rw [hstate]
    · next hne =>
      rw [hsaved, hsim frame (by omega)]
      exact h.saved frame (by omega) (by omega)

/-- What the client does to the cells is no matter of the labels. -/
theorem Start.setFrames {init : S} (h : s.Start off v init) {frames : Fin numCells → SavedFrame S}
    (hlabel : ∀ c, (frames c).frame = (s.frames c).frame) :
    ({ s with frames := frames } : SavedState S).Start off v init := by
  refine ⟨h.off_le, h.head, fun c hc => h.label c ?_, fun frame c hf hc => h.stale frame c hf ?_,
    fun hoff => ⟨?_, (h.kept hoff).2⟩⟩
  · rwa [hlabel] at hc
  · rwa [hlabel] at hc
  · rw [hlabel]
    exact (h.kept hoff).1

theorem Ring.setFrames (h : s.Ring off lo cur v sim) {frames : Fin numCells → SavedFrame S}
    (hlabel : ∀ c, (frames c).frame = (s.frames c).frame) :
    ({ s with frames := frames } : SavedState S).Ring off lo cur v sim := by
  refine ⟨h.off_le, h.lo_le, h.span, h.head, fun frame c => ?_, fun frame c => ?_,
    fun frame c => ?_, h.saved⟩
  · rw [hlabel]
    exact h.label frame c
  · rw [hlabel]
    exact h.stale frame c
  · rw [hlabel]
    exact h.data frame c

/-- Fewer frames can be gone back to. -/
theorem Ring.raise (h : s.Ring off lo cur v sim) {lo' : ℕ} (hlo : lo ≤ lo') (hlo' : lo' ≤ cur) :
    s.Ring off lo' cur v sim :=
  { h with
    lo_le := hlo'
    span := h.span.trans (Nat.add_le_add_right hlo _)
    label := fun frame c hge hle => h.label frame c (hlo.trans hge) hle
    data := fun frame c hge hle => h.data frame c (hlo.trans hge) hle
    saved := fun frame hge hle => h.saved frame (hlo.trans hge) hle }

theorem Ring.label_slot (h : s.Ring off lo cur v sim) {t : ℕ} (hlo : lo ≤ t) (ht : t ≤ cur) :
    (s.frames (slot off t)).frame = t := by
  refine (h.label t _ hlo ht).mpr ?_
  unfold slot
  split
  · next h0 => exact .inr ⟨h0, rfl⟩
  · exact .inl rfl

/-- Every frame of the window is found, and frame 0 in cell 0. -/
theorem Ring.findIndex (h : s.Ring off lo cur v sim) {t : ℕ} (hlo : lo ≤ t) (ht : t ≤ cur) :
    s.findIndex t = some (slot off t) := by
  have hslot := h.label_slot hlo ht
  unfold SavedState.findIndex
  by_cases h0 : t = 0
  · subst h0
    rw [List.finRange_succ, List.find?_cons_of_pos]
    · rfl
    · simpa [slot] using hslot
  · rw [List.find?_eq_some_iff_append]
    refine ⟨by simpa using hslot, ?_⟩
    obtain ⟨as, bs, hsplit⟩ := List.append_of_mem (List.mem_finRange (slot off t))
    refine ⟨as, bs, hsplit, fun c hc => ?_⟩
    simp only [Bool.not_eq_eq_eq_not, Bool.not_true, decide_eq_false_iff_not]
    intro hlabel
    rcases (h.label t c hlo ht).mp hlabel with hcell | ⟨ht0, -⟩
    · have hnodup := List.nodup_finRange numCells
      rw [hsplit] at hnodup
      have hne := (List.disjoint_of_nodup_append hnodup) hc
      refine hne ?_
      rw [hcell]
      simp [slot, h0]
    · exact h0 ht0

theorem Ring.resetTo (h : s.Ring off lo cur v sim) {t : ℕ} (hlo : lo ≤ t) (ht : t ≤ cur) :
    s.resetTo t = .ok (slot off t, { s with head := slot off t }) := by
  rw [SavedState.resetTo, h.findIndex hlo ht]

/-- After a load of a later frame than 0. -/
theorem Ring.load (h : s.Ring off lo cur v sim) {t : ℕ} (h0 : t ≠ 0) (hlo : lo ≤ t) (ht : t ≤ cur) :
    ({ s with head := slot off t + 1 } : SavedState S).Ring off lo t
      { v with state := sim t } sim := by
  have hspan := h.span
  refine ⟨h.off_le, hlo, by omega, ?_, fun frame c hge hle => h.label frame c hge (by omega),
    fun frame c hf hlabel => ?_, fun frame c hge hle => h.data frame c hge (by omega),
    fun frame hge hle => h.saved frame hge (by omega)⟩
  · simp only [slot, h0, if_false, Cyclic.cell_succ]
    congr 1
    omega
  · rcases Nat.lt_or_ge cur frame with hlt | hge
    · exact h.stale frame c hlt hlabel
    · rcases (h.label frame c (by omega) hge).mp hlabel with hcell | ⟨hframe, -⟩
      · exact .inl hcell
      · omega

/-- After a load of frame 0. -/
theorem Ring.load_zero (h : s.Ring off lo cur v sim) (hlo : lo = 0) :
    ({ s with head := slot off 0 + 1 } : SavedState S).Start 1 { v with state := sim 0 } (sim 0) := by
  subst hlo
  have hoff := h.off_le
  have hlabel : ∀ c, (s.frames c).frame = (0 : ℕ) ↔ c = cell numCells (0 + off) ∨ 0 = 0 ∧ c = 0 :=
    fun c => h.label 0 c le_rfl (Nat.zero_le _)
  refine ⟨le_rfl, rfl, fun c hc => ?_, fun frame c hf hc => ?_, fun _ => ?_⟩
  · rcases (hlabel c).mp hc with hcell | ⟨-, hc0⟩
    · rcases Nat.lt_or_ge off 1 with hlt | hge
      · obtain rfl : off = 0 := by omega
        exact .inl hcell
      · obtain rfl : off = 1 := by omega
        exact .inr hcell
    · exact .inl hc0
  · have hcases : c = cell numCells (frame + off) ∨ off = 1 ∧ c = cell numCells frame := by
      rcases Nat.lt_or_ge cur frame with hlt | hge
      · exact h.stale frame c hlt hc
      · rcases (h.label frame c (Nat.zero_le _) hge).mp hc with hcell | ⟨hframe, -⟩
        · exact .inl hcell
        · omega
    rcases hcases with hcell | ⟨-, hcell⟩
    · rcases Nat.lt_or_ge off 1 with hlt | hge
      · obtain rfl : off = 0 := by omega
        exact .inr ⟨rfl, hcell⟩
      · obtain rfl : off = 1 := by omega
        exact .inl hcell
    · exact .inr ⟨rfl, hcell⟩
  · have h0 := (hlabel 0).mpr (.inr ⟨rfl, rfl⟩)
    exact ⟨h0, h.data 0 0 le_rfl (Nat.zero_le _) h0⟩

end SavedState

end Backroll

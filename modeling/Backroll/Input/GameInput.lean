import Backroll.Basic
import Mathlib.Tactic.Ring

/-! The input containers of `input.rs`: one input with its frame, the inputs of all players
for a frame, and what a queue answers when it is asked for a frame. -/
namespace Backroll

/-- Equality of two values compares both the frame label and the input. -/
structure FrameInput (I : Type) where
  frame : ℤ
  input : I
  deriving BEq, DecidableEq

namespace FrameInput

variable {I : Type}

instance [Zeroable I] : Inhabited (FrameInput I) := ⟨⟨nullFrame, Zeroable.zeroed⟩⟩

/-- `clear`: the frame label stays. -/
def clear [Zeroable I] (x : FrameInput I) : FrameInput I := { x with input := Zeroable.zeroed }

theorem beq_eq [BEq I] (x y : FrameInput I) :
    (x == y) = (x.frame == y.frame && x.input == y.input) := rfl

end FrameInput

/-- The inputs of all players for a single frame. -/
structure GameInput (I : Type) where
  frame : ℤ
  disconnected : BitVec maxPlayers
  inputs : Fin maxPlayers → I

instance {I : Type} [Zeroable I] : Inhabited (GameInput I) :=
  ⟨⟨nullFrame, 0, fun _ => Zeroable.zeroed⟩⟩

inductive FetchedInput (I : Type)
  | normal (input : FrameInput I)
  | prediction (input : FrameInput I)
  deriving DecidableEq

namespace FetchedInput

def unwrap {I : Type} : FetchedInput I → FrameInput I
  | normal input => input
  | prediction input => input

end FetchedInput

variable {I : Type}

/-- Consecutive inputs, the first one for frame `start`. -/
def framed : ℤ → List I → List (FrameInput I)
  | _, [] => []
  | start, x :: xs => ⟨start, x⟩ :: framed (start + 1) xs

@[simp] theorem framed_nil (start : ℤ) : framed start ([] : List I) = [] := rfl

@[simp] theorem framed_cons (start : ℤ) (x : I) (xs : List I) :
    framed start (x :: xs) = ⟨start, x⟩ :: framed (start + 1) xs := rfl

@[simp] theorem length_framed (start : ℤ) (xs : List I) :
    (framed start xs).length = xs.length := by
  induction xs generalizing start with
  | nil => rfl
  | cons x xs ih => simp [ih]

@[simp] theorem framed_eq_nil {start : ℤ} {xs : List I} : framed start xs = [] ↔ xs = [] := by
  cases xs <;> simp

theorem map_input_framed (start : ℤ) (xs : List I) :
    (framed start xs).map (·.input) = xs := by
  induction xs generalizing start with
  | nil => rfl
  | cons x xs ih => simp [ih]

theorem getElem?_framed (start : ℤ) (xs : List I) (j : ℕ) :
    (framed start xs)[j]? = xs[j]?.map fun x => ⟨start + j, x⟩ := by
  induction xs generalizing start j with
  | nil => simp
  | cons x xs ih =>
    cases j with
    | zero => simp
    | succ j =>
      simp only [framed_cons, List.getElem?_cons_succ, ih]
      push_cast
      ring_nf

@[simp] theorem getElem_framed (start : ℤ) (xs : List I) (j : ℕ)
    (h : j < (framed start xs).length) :
    (framed start xs)[j] = ⟨start + j, xs.get ⟨j, by simpa using h⟩⟩ := by
  have := getElem?_framed start xs j
  rw [List.getElem?_eq_getElem h, List.getElem?_eq_getElem (by simpa using h)] at this
  simpa using this

theorem framed_append (start : ℤ) (xs ys : List I) :
    framed start (xs ++ ys) = framed start xs ++ framed (start + xs.length) ys := by
  induction xs generalizing start with
  | nil => simp
  | cons x xs ih =>
    simp only [List.cons_append, framed_cons, ih, List.length_cons, List.cons.injEq, true_and]
    congr 2
    push_cast
    ring

theorem mem_framed_of_drop {start : ℤ} {xs : List I} {k : ℕ} {x : FrameInput I}
    (h : x ∈ framed (start + k) (xs.drop k)) : x ∈ framed start xs := by
  by_cases hk : k ≤ xs.length
  · rw [← List.take_append_drop k xs, framed_append, List.length_take, min_eq_left hk]
    exact List.mem_append_right _ h
  · simp [List.drop_eq_nil_of_le (not_le.mp hk).le] at h

theorem frame_getLast_framed {start : ℤ} {xs : List I} {x : FrameInput I}
    (h : (framed start xs).getLast? = some x) : x.frame = start + xs.length - 1 := by
  induction xs generalizing start with
  | nil => simp at h
  | cons y ys ih =>
    by_cases hys : ys = []
    · subst hys
      obtain rfl : ⟨start, y⟩ = x := by simpa using h
      simp
    · rw [framed_cons, List.getLast?_cons_of_ne_nil (framed_eq_nil.not.mpr hys)] at h
      rw [ih h, List.length_cons]
      push_cast
      ring

/-- Two pieces that count up count up together exactly if the second follows the first. -/
theorem framed_append_iff {start start' : ℤ} {xs ys : List I} :
    framed start xs ++ framed start' ys = framed start (xs ++ ys) ↔
      ys = [] ∨ start' = start + xs.length := by
  rw [framed_append, List.append_cancel_left_eq]
  cases ys with
  | nil => simp
  | cons y ys =>
    simp only [framed_cons, List.cons.injEq, FrameInput.mk.injEq, and_true, reduceCtorEq, false_or]
    constructor
    · exact fun h => h.1
    · rintro rfl
      exact ⟨rfl, rfl⟩

/-- One more input of the frame after the last one. -/
theorem framed_push {start frame : ℤ} {xs : List I} (x : I)
    (hlast : ∀ y, (framed start xs).getLast? = some y → y.frame + 1 = frame) :
    ∃ start', framed start xs ++ [⟨frame, x⟩] = framed start' (xs ++ [x]) := by
  by_cases hxs : xs = []
  · subst hxs
    exact ⟨frame, rfl⟩
  · have hne : framed start xs ≠ [] := framed_eq_nil.not.mpr hxs
    have hframe := frame_getLast_framed (List.getLast?_eq_some_getLast hne)
    have hnext := hlast _ (List.getLast?_eq_some_getLast hne)
    refine ⟨start, ?_⟩
    rw [framed_append, show start + xs.length = frame by omega]
    rfl

/-- Counting a list up by position. -/
theorem map_zipIdx_eq_framed (start : ℤ) (xs : List I) :
    xs.zipIdx.map (fun p => (⟨start + p.2, p.1⟩ : FrameInput I)) = framed start xs := by
  have key : ∀ (ys : List I) (k : ℕ), (ys.zipIdx k).map
      (fun p => (⟨start + p.2, p.1⟩ : FrameInput I)) = framed (start + k) ys := by
    intro ys
    induction ys with
    | nil => simp
    | cons y ys ih =>
      intro k
      simp only [List.zipIdx_cons, List.map_cons, ih, framed_cons]
      push_cast
      rw [add_assoc]
  simpa using key xs 0

/-- The part of consecutive inputs at or above a frame is consecutive again. -/
theorem filter_ge_framed (start bound : ℤ) (xs : List I) :
    (framed start xs).filter (fun x => x.frame ≥ bound) =
      framed (start + (bound - start).toNat) (xs.drop (bound - start).toNat) := by
  induction xs generalizing start with
  | nil => simp
  | cons x xs ih =>
    rw [framed_cons, List.filter_cons]
    by_cases hle : bound ≤ start
    · have h0 : (bound - start).toNat = 0 := by omega
      have h1 : (bound - (start + 1)).toNat = 0 := by omega
      simp [hle, h0, ih, h1]
    · obtain ⟨k, hk⟩ : ∃ k : ℕ, (bound - start).toNat = k + 1 := ⟨(bound - start).toNat - 1, by omega⟩
      have hk' : (bound - (start + 1)).toNat = k := by omega
      simp only [ge_iff_le, hle, decide_false, Bool.false_eq_true, if_false, hk, List.drop_succ_cons,
        ih, hk']
      congr 1
      push_cast
      ring

/-- Skipping while at or below a frame is keeping what is above it. -/
theorem dropWhile_le_framed (start bound : ℤ) (xs : List I) :
    (framed start xs).dropWhile (fun x => x.frame ≤ bound) =
      framed (start + (bound + 1 - start).toNat) (xs.drop (bound + 1 - start).toNat) := by
  induction xs generalizing start with
  | nil => simp
  | cons x xs ih =>
    rw [framed_cons, List.dropWhile_cons]
    by_cases hle : start ≤ bound
    · obtain ⟨k, hk⟩ : ∃ k : ℕ, (bound + 1 - start).toNat = k + 1 :=
        ⟨(bound + 1 - start).toNat - 1, by omega⟩
      have hk' : (bound + 1 - (start + 1)).toNat = k := by omega
      simp only [hle, decide_true, if_true, hk, List.drop_succ_cons, ih, hk']
      congr 1
      push_cast
      ring
    · have h0 : (bound + 1 - start).toNat = 0 := by omega
      simp [hle, h0]

end Backroll

import Mathlib.Data.List.Infix
import Mathlib.Logic.Relation

/-! A sequence sent over a network that may lose, duplicate, delay and reorder: the sender
repeats a window of its log until it is acknowledged, keeping the last item it knows to have
arrived, and the receiver appends what a window brings beyond what it already has. -/
namespace ReliableStream

variable {α : Type}

/-- `windows` and `acks` hold everything ever sent: each may arrive at any time, any number
of times, or never. -/
structure State (α : Type) where
  log : List α := []
  front : ℕ := 0
  delivered : List α := []
  windows : List (ℕ × List α) := []
  acks : List ℕ := []

/-- What a receiver that has `delivered` takes from the window `w`. -/
def fresh (delivered : List α) (w : ℕ × List α) : List α := w.2.drop (delivered.length - w.1)

inductive Step : State α → State α → Prop
  | push (s) (x : α) : Step s { s with log := s.log ++ [x] }
  | send (s) : Step s { s with windows := (s.front, s.log.drop s.front) :: s.windows }
  | deliver (s) (w) (h : w ∈ s.windows) :
    Step s { s with delivered := s.delivered ++ fresh s.delivered w }
  | ack (s) : Step s { s with acks := s.delivered.length :: s.acks }
  | acknowledge (s) (n) (h : n ∈ s.acks) : Step s { s with front := max s.front (n - 1) }

inductive Reachable : State α → Prop
  | init : Reachable {}
  | step {s t} (hs : Reachable s) (h : Step s t) : Reachable t

/-- A window starts at or below the last delivered item and continues the log from there. -/
structure Genuine (s : State α) (w : ℕ × List α) : Prop where
  start : w.1 ≤ s.delivered.length - 1
  items : w.2 <+: s.log.drop w.1

structure Inv (s : State α) : Prop where
  delivered : s.delivered <+: s.log
  front : s.front ≤ s.delivered.length - 1
  windows : ∀ w ∈ s.windows, Genuine s w
  acks : ∀ n ∈ s.acks, n ≤ s.delivered.length

theorem Genuine.mono {s t : State α} {w : ℕ × List α} (h : Genuine s w)
    (hlog : s.log <+: t.log) (hlen : s.delivered.length ≤ t.delivered.length) : Genuine t w :=
  ⟨h.start.trans (by omega), h.items.trans (hlog.drop w.1)⟩

/-- Appending the fresh part of a genuine window keeps the delivered items an initial part
of the log. -/
theorem Genuine.append_fresh {s : State α} {w : ℕ × List α} (h : Genuine s w)
    (hs : s.delivered <+: s.log) : s.delivered ++ fresh s.delivered w <+: s.log := by
  obtain ⟨rest, hrest⟩ := hs
  have hstart : w.1 ≤ s.delivered.length := h.start.trans (Nat.sub_le _ _)
  have hdrop : s.log.drop s.delivered.length = rest := by rw [← hrest, List.drop_left]
  have hfresh : fresh s.delivered w <+: rest := by
    have := h.items.drop (s.delivered.length - w.1)
    rwa [List.drop_drop, Nat.add_sub_cancel' hstart, hdrop] at this
  rw [← hrest]
  exact (List.prefix_append_right_inj _).mpr hfresh

theorem inv_step {s t : State α} (hi : Inv s) (h : Step s t) : Inv t := by
  cases h with
  | push x =>
    have hlog : s.log <+: s.log ++ [x] := List.prefix_append _ _
    exact ⟨hi.delivered.trans hlog, hi.front, fun w hw => (hi.windows w hw).mono hlog le_rfl,
      hi.acks⟩
  | send =>
    refine ⟨hi.delivered, hi.front, fun w hw => ?_, hi.acks⟩
    rcases List.mem_cons.mp hw with rfl | hw
    · exact ⟨hi.front, List.prefix_rfl⟩
    · exact (hi.windows w hw).mono List.prefix_rfl le_rfl
  | deliver w hw =>
    have hlen : s.delivered.length ≤ (s.delivered ++ fresh s.delivered w).length := by simp
    exact ⟨(hi.windows w hw).append_fresh hi.delivered, hi.front.trans (Nat.sub_le_sub_right hlen 1),
      fun v hv => (hi.windows v hv).mono List.prefix_rfl hlen,
      fun n hn => (hi.acks n hn).trans hlen⟩
  | ack =>
    refine ⟨hi.delivered, hi.front, fun w hw => (hi.windows w hw).mono List.prefix_rfl le_rfl,
      fun n hn => ?_⟩
    rcases List.mem_cons.mp hn with rfl | hn
    · exact le_rfl
    · exact hi.acks n hn
  | acknowledge n hn =>
    have hack := hi.acks n hn
    have hfront := hi.front
    exact ⟨hi.delivered, by dsimp only; omega,
      fun w hw => (hi.windows w hw).mono List.prefix_rfl le_rfl, hi.acks⟩

theorem reachable_inv {s : State α} (h : Reachable s) : Inv s := by
  induction h with
  | init => exact ⟨List.prefix_rfl, le_rfl, by simp, by simp⟩
  | step _ h ih => exact inv_step ih h

theorem Inv.front_le {s : State α} (hi : Inv s) : s.front ≤ s.log.length := by
  have hfront := hi.front
  have hdelivered := hi.delivered.length_le
  omega

theorem Reachable.steps {s t : State α} (hs : Reachable s) (h : Relation.ReflTransGen Step s t) :
    Reachable t := by
  induction h with
  | refl => exact hs
  | tail _ hstep ih => exact ih.step hstep

/-- A receiver that takes a window has all of the window. -/
theorem Genuine.length_append_fresh {s : State α} {w : ℕ × List α} (h : Genuine s w) :
    (s.delivered ++ fresh s.delivered w).length = max s.delivered.length (w.1 + w.2.length) := by
  have hstart := h.start
  rw [fresh, List.length_append, List.length_drop]
  omega

/-- Steps of the sender. -/
structure Sends (s t : State α) : Prop where
  steps : Relation.ReflTransGen Step s t
  delivered : t.delivered = s.delivered
  acks : t.acks = s.acks
  windows : s.windows ⊆ t.windows

theorem Sends.refl (s : State α) : Sends s s := ⟨.refl, rfl, rfl, fun _ hw => hw⟩

theorem Sends.push (s : State α) (x : α) : Sends s { s with log := s.log ++ [x] } :=
  ⟨.single (.push s x), rfl, rfl, fun _ hw => hw⟩

theorem Sends.send (s : State α) :
    Sends s { s with windows := (s.front, s.log.drop s.front) :: s.windows } :=
  ⟨.single (.send s), rfl, rfl, List.subset_cons_self _ _⟩

theorem Sends.acknowledge {s : State α} {n : ℕ} (h : n ∈ s.acks) :
    Sends s { s with front := max s.front (n - 1) } :=
  ⟨.single (.acknowledge s n h), rfl, rfl, fun _ hw => hw⟩

theorem Sends.trans {s t u : State α} (h : Sends s t) (h' : Sends t u) : Sends s u :=
  ⟨h.steps.trans h'.steps, h'.delivered.trans h.delivered, h'.acks.trans h.acks,
    List.Subset.trans h.windows h'.windows⟩

/-- Steps of the receiver. -/
structure Receives (s t : State α) : Prop where
  steps : Relation.ReflTransGen Step s t
  log : t.log = s.log
  front : t.front = s.front
  windows : t.windows = s.windows
  acks : s.acks ⊆ t.acks

theorem Receives.refl (s : State α) : Receives s s := ⟨.refl, rfl, rfl, rfl, fun _ ha => ha⟩

theorem Receives.ack (s : State α) : Receives s { s with acks := s.delivered.length :: s.acks } :=
  ⟨.single (.ack s), rfl, rfl, rfl, List.subset_cons_self _ _⟩

theorem Receives.deliver {s : State α} {w : ℕ × List α} (h : w ∈ s.windows) :
    Receives s { s with delivered := s.delivered ++ fresh s.delivered w } :=
  ⟨.single (.deliver s w h), rfl, rfl, rfl, fun _ ha => ha⟩

theorem Receives.trans {s t u : State α} (h : Receives s t) (h' : Receives t u) : Receives s u :=
  ⟨h.steps.trans h'.steps, h'.log.trans h.log, h'.front.trans h.front, h'.windows.trans h.windows,
    List.Subset.trans h.acks h'.acks⟩

end ReliableStream

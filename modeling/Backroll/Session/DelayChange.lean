import Backroll.Session.Intake

/-! A frame delay that changes while the game runs. `set_frame_delay` changes the queue of one
session only, and what goes over the wire is the frame without any delay, to which the other
session adds its own. -/
namespace Backroll

open Fallible (Ends)

variable {n m : ℕ} {I S : Type}

theorem getElem?_concat_cases {α : Type} {xs : List α} {x y : α} {k : ℕ}
    (h : (xs ++ [x])[k]? = some y) : xs[k]? = some y ∨ k = xs.length ∧ x = y := by
  rcases Nat.lt_trichotomy k xs.length with hlt | rfl | hgt
  · rw [List.getElem?_append_left hlt] at h
    exact .inl h
  · exact .inr ⟨rfl, by simpa using h⟩
  · rw [List.getElem?_eq_none (by simp; omega)] at h
    cases h

/-- An accepted input goes to the queue of its player under the current frame. -/
theorem Session.addLocalInput_adds [Build] [BEq I] [Varinteger] [Pod I] {s s' : Session n I S}
    {i : Fin n} {input : I} (h : s.addLocalInput i input = .ok (.ok (), s')) :
    ∃ slot, (s.sync.inputQueues i).addInput ⟨s.sync.frameCount, input⟩ =
      .ok (slot, s'.sync.inputQueues i) := by
  obtain ⟨slot, q, hadd, hqueues⟩ := Session.addLocalInput_queues h
  refine ⟨slot, ?_⟩
  rw [hqueues, Function.update_self]
  exact hadd

/-- An input as its own session stored it: under which delay, and in which frame. -/
structure Given (I : Type) where
  input : I
  delay : ℤ
  slot : ℤ

/-- A session whose client gives inputs, and one that receives them in order, with the frames
it stores them in. -/
structure Pair (n m : ℕ) (I S : Type) where
  near : Session n I S
  far : Session m I S
  given : List (Given I)
  taken : List ℤ

namespace Pair

variable [Build] [BEq I] [Varinteger] [Pod I]

/-- The client of the near session gives one input for each frame and sets the delay of its
player `i` as it likes; the far session stores the inputs for its player `j`. -/
inductive Step (i : Fin n) (j : Fin m) (p : Pair n m I S) : Pair n m I S → Prop
  | setFrameDelay (delay near) (hd : 0 ≤ delay)
    (h : p.near.setFrameDelay i delay = .ok (.ok (), near)) : Step i j p { p with near := near }
  | give (input slot near) (hframe : p.near.sync.frameCount = p.given.length)
    (hslot : ∃ q, (p.near.sync.inputQueues i).addInput ⟨p.given.length, input⟩ = .ok (slot, q))
    (h : p.near.addLocalInput i input = .ok (.ok (), near)) : Step i j p { p with
      near := near
      given := p.given ++ [⟨input, (p.near.sync.inputQueues i).frameDelay, slot⟩] }
  | take (g slot far) (hg : p.given[p.taken.length]? = some g)
    (hslot : ∃ q, (p.far.sync.inputQueues j).addInput ⟨p.taken.length, g.input⟩ = .ok (slot, q))
    (h : p.far.handleInput j ⟨p.taken.length, g.input⟩ = .ok far) : Step i j p { p with
      far := far
      taken := p.taken ++ [slot] }
  | playNear (near : Session n I S)
    (hm : (p.near.sync.inputQueues i).Moves (near.sync.inputQueues i))
    (hd : (near.sync.inputQueues i).frameDelay = (p.near.sync.inputQueues i).frameDelay) :
    Step i j p { p with near := near }
  | playFar (far : Session m I S)
    (hm : (p.far.sync.inputQueues j).Moves (far.sync.inputQueues j))
    (hd : (far.sync.inputQueues j).frameDelay = (p.far.sync.inputQueues j).frameDelay) :
    Step i j p { p with far := far }

inductive Reachable (i : Fin n) (j : Fin m) : Pair n m I S → Prop
  | start (players delay randoms near) (players' delay' randoms' far) (hd : 0 ≤ delay')
    (hnear : Session.new players delay randoms = .ok near)
    (hfar : Session.new players' delay' randoms' = .ok far) :
    Reachable i j ⟨near, far, [], []⟩
  | step (p p') (hp : Reachable i j p) (hstep : Step i j p p') : Reachable i j p'

/-- Every input that was delivered is stored in the same frame at both ends, or at neither. -/
def Aligned (p : Pair n m I S) : Prop :=
  ∀ (k : ℕ) (g : Given I) (slot : ℤ), p.given[k]? = some g → p.taken[k]? = some slot →
    g.slot = slot

/-- The delay `d` of the far queue never changes, so that it stores every input; the near queue
may drop one, but never while it has this delay all along. -/
structure Sound (i : Fin n) (j : Fin m) (d : ℤ) (p : Pair n m I S) : Prop where
  nonneg : 0 ≤ d
  le : p.taken.length ≤ p.given.length
  near : ∃ log start, Stores (p.near.sync.inputQueues i) (p.near.sync.inputQueues i).frameDelay
    log start ∧ ((∀ g ∈ p.given, g.delay = d) → log.length ≤ p.given.length + d)
  far : ∃ log start, Stores (p.far.sync.inputQueues j) d log start ∧
    log.length ≤ p.taken.length + d
  slots : ∀ (k : ℕ) (g : Given I), p.given[k]? = some g →
    g.slot = nullFrame ∨ g.slot = k + g.delay
  steady : ∀ (k : ℕ) (g : Given I), p.given[k]? = some g →
    (∀ g' ∈ p.given.take (k + 1), g'.delay = d) → g.slot = k + d
  places : ∀ (k : ℕ) (slot : ℤ), p.taken[k]? = some slot → slot = k + d

variable {i : Fin n} {j : Fin m} {d : ℤ} {p p' : Pair n m I S}

theorem step_sound (h : p.Sound i j d) (hstep : p.Step i j p') : p'.Sound i j d := by
  have hnonneg := h.nonneg
  obtain ⟨log, start, hst, hlen⟩ := h.near
  obtain ⟨log', start', hst', hlen'⟩ := h.far
  cases hstep with
  | setFrameDelay delay near hd hset =>
    have hq : (p.near.sync.inputQueues i).setFrameDelay delay = .ok (near.sync.inputQueues i) := by
      unfold Session.setFrameDelay Session.playerHandleToQueue at hset
      rw [dif_pos i.isLt] at hset
      obtain ⟨sync, hsync, hset⟩ := Fallible.bind_eq_ok.mp hset
      obtain ⟨-, rfl⟩ := Prod.mk.inj (Except.ok.inj hset)
      obtain ⟨q, hq, hsync⟩ := Fallible.bind_eq_ok.mp hsync
      obtain rfl := Except.ok.inj hsync
      simpa using hq
    obtain ⟨⟨start₁, hst₁⟩, -⟩ := hst.moves (.setFrameDelay delay _ hq)
    exact { h with near := ⟨log, start₁, hst₁, hlen⟩ }
  | give input slot near hframe hslot hadd =>
    obtain ⟨slot', hadd'⟩ := Session.addLocalInput_adds hadd
    obtain ⟨q, hslot⟩ := hslot
    rw [hframe, hslot] at hadd'
    obtain ⟨rfl, rfl⟩ := Prod.mk.inj (Except.ok.inj hadd')
    obtain ⟨hplace, log₁, hst₁, hlen₁⟩ := (hst.addInput _).ok hslot
    dsimp only at hplace hlen₁
    refine { h with le := ?_, near := ?_, slots := ?_, steady := ?_ }
    · rw [List.length_append]
      exact h.le.trans (Nat.le_add_right _ _)
    · refine ⟨log₁, start, { hst₁ with delay := rfl }, fun hall => ?_⟩
      have hd : (p.near.sync.inputQueues i).frameDelay = d :=
        hall ⟨input, _, slot⟩ (List.mem_append_right _ (List.mem_singleton_self _))
      have hle := hlen fun g hg => hall g (List.mem_append_left _ hg)
      rw [List.length_append, List.length_singleton]
      push_cast
      omega
    · intro k g hg
      rcases getElem?_concat_cases hg with hg | ⟨rfl, rfl⟩
      · exact h.slots k g hg
      · rw [hplace]
        dsimp only
        split <;> simp
    · intro k g hg hall
      rcases getElem?_concat_cases hg with hg | ⟨rfl, rfl⟩
      · have hlt := (List.getElem?_eq_some_iff.mp hg).1
        rw [List.take_append_of_le_length hlt] at hall
        exact h.steady k g hg hall
      · rw [List.take_of_length_le (by simp)] at hall
        have hd : (p.near.sync.inputQueues i).frameDelay = d :=
          hall ⟨input, _, slot⟩ (List.mem_append_right _ (List.mem_singleton_self _))
        have hle := hlen fun g hg => hall g (List.mem_append_left _ hg)
        rw [hplace, if_neg (by omega), hd]
  | take g slot far hg hslot hadd =>
    obtain ⟨slot', hadd'⟩ := Session.handleInput_adds hadd
    obtain ⟨q, hslot⟩ := hslot
    rw [hslot] at hadd'
    obtain ⟨rfl, rfl⟩ := Prod.mk.inj (Except.ok.inj hadd')
    obtain ⟨hplace, log₁, hst₁, hlen₁⟩ := (hst'.addInput _).ok hslot
    dsimp only at hplace hlen₁
    rw [if_neg (by omega)] at hplace
    have hlt := (List.getElem?_eq_some_iff.mp hg).1
    refine { h with le := ?_, far := ?_, places := ?_ }
    · rw [List.length_append, List.length_singleton]
      exact hlt
    · refine ⟨log₁, start', hst₁, ?_⟩
      rw [List.length_append, List.length_singleton]
      push_cast
      omega
    · intro k slot' hk
      rcases getElem?_concat_cases hk with hk | ⟨rfl, rfl⟩
      · exact h.places k slot' hk
      · exact hplace
  | playNear near hm hd =>
    obtain ⟨⟨start₁, hst₁⟩, -⟩ := hst.moves hm
    exact { h with near := ⟨log, start₁, hst₁, hlen⟩ }
  | playFar far hm hd =>
    obtain ⟨⟨start₁, hst₁⟩, -⟩ := hst'.moves hm
    rw [hd, hst'.delay] at hst₁
    exact { h with far := ⟨log', start₁, hst₁, hlen'⟩ }

theorem reachable_sound (h : Reachable i j p) :
    p.Sound i j (p.far.sync.inputQueues j).frameDelay := by
  have hsound : ∃ d, p.Sound i j d := by
    induction h with
    | start players delay randoms near players' delay' randoms' far hd hnear hfar =>
      obtain rfl := Session.new_eq hnear
      obtain rfl := Session.new_eq hfar
      exact ⟨delay', hd, le_rfl, ⟨[], 0, (Follows.new delay).stores, fun _ => by simpa using hd⟩,
        ⟨[], 0, (Follows.new delay').stores, by simpa using hd⟩, by simp, by simp, by simp⟩
    | step p p' hp hstep ih =>
      obtain ⟨d, ih⟩ := ih
      exact ⟨d, step_sound ih hstep⟩
  obtain ⟨d, hsound⟩ := hsound
  obtain ⟨_, _, hst, -⟩ := hsound.far
  rwa [hst.delay]

/-- Both ends store what was delivered alike exactly if the near one gave every input of it
under the delay of the far one. -/
theorem reachable_aligned_iff (h : Reachable i j p) : p.Aligned ↔
    ∀ g ∈ p.given.take p.taken.length, g.delay = (p.far.sync.inputQueues j).frameDelay := by
  have hs := reachable_sound h
  generalize (p.far.sync.inputQueues j).frameDelay = d at *
  have hnonneg := hs.nonneg
  constructor
  · intro ha g hg
    obtain ⟨k, hk⟩ := List.getElem?_of_mem hg
    obtain ⟨hlt, hk⟩ : k < p.taken.length ∧ p.given[k]? = some g := by
      simpa [List.getElem?_take] using hk
    have htaken := hs.places k p.taken[k] (List.getElem?_eq_getElem hlt)
    have hsame := ha k g _ hk (List.getElem?_eq_getElem hlt)
    have hnull : nullFrame = -1 := rfl
    rcases hs.slots k g hk with hdropped | hslot
    · omega
    · omega
  · intro hall k g slot hg hslot
    have hlt := (List.getElem?_eq_some_iff.mp hslot).1
    rw [hs.places k slot hslot]
    refine hs.steady k g hg fun g' hg' => hall g' ?_
    exact List.take_subset_take_left _ hlt hg'

end Pair

/-- The session of a local player and a remote one, once their connection runs. -/
def runningPair : Session 2 UInt8 ℕ :=
  { newPair with
    players := fun i => if i.val = 0 then .localPlayer else
      .remote { Peer.new 1 (List.replicate 2 {}) with state := .running 7 }
    synchronizing := false }

/-- The session of the other one. -/
def otherPair : Session 2 UInt8 ℕ :=
  { newPair with
    players := fun i => if i.val = 1 then .localPlayer else .remote (.new 1 (List.replicate 2 {})) }

theorem otherPair_new : Session.new (fun i : Fin 2 => if i.val = 1 then .localPlayer else .remotePlayer) 0
    (fun _ => 1) = .ok otherPair := by
  refine congrArg Except.ok ?_
  congr 1
  funext i
  match i with
  | 0 => rfl
  | 1 => rfl

namespace Pair

theorem reachable_running [Build] [Varinteger] :
    Reachable 0 0 (⟨runningPair, otherPair, [], []⟩ : Pair 2 2 UInt8 ℕ) :=
  .step _ _ (.start _ _ _ _ _ _ _ _ le_rfl connectedPair_new otherPair_new)
    (.playNear runningPair .stay rfl)

/-- A client that changes its delay to two frames before its first input: the other session
stores the input two frames earlier. -/
theorem not_aligned_changed :
    letI : Build := ⟨true⟩
    letI := Varinteger.leb128
    ∃ p : Pair 2 2 UInt8 ℕ, Reachable 0 0 p ∧ p.given = [⟨7, 2, 2⟩] ∧ p.taken = [0] ∧
      ¬p.Aligned := by
  let build : Build := ⟨true⟩
  let varint := Varinteger.leb128
  have hset : Reachable 0 0 (⟨_, otherPair, [], []⟩ : Pair 2 2 UInt8 ℕ) :=
    .step _ _ reachable_running (.setFrameDelay 2 _ (by decide) rfl)
  have hgive : Reachable 0 0 (⟨_, otherPair, [⟨7, 2, 2⟩], []⟩ : Pair 2 2 UInt8 ℕ) :=
    .step _ _ hset (.give 7 2 _ rfl ⟨_, rfl⟩ rfl)
  refine ⟨_, .step _ _ hgive (.take _ 0 _ rfl ⟨_, rfl⟩ rfl), rfl, rfl, fun h => ?_⟩
  exact absurd (h 0 _ 0 rfl rfl) (by decide)

/-- An input given and taken under the same delay. -/
theorem reachable_aligned_iff_first :
    letI : Build := ⟨true⟩
    letI := Varinteger.leb128
    ∃ p : Pair 2 2 UInt8 ℕ, p.given = [⟨7, 0, 0⟩] ∧ p.taken = [0] ∧ (p.Aligned ↔
      ∀ g ∈ p.given.take p.taken.length, g.delay = (p.far.sync.inputQueues 0).frameDelay) := by
  let build : Build := ⟨true⟩
  let varint := Varinteger.leb128
  have hgive : Reachable 0 0 (⟨_, otherPair, [⟨7, 0, 0⟩], []⟩ : Pair 2 2 UInt8 ℕ) :=
    .step _ _ reachable_running (.give 7 0 _ rfl ⟨_, rfl⟩ rfl)
  exact ⟨_, rfl, rfl, reachable_aligned_iff (.step _ _ hgive (.take _ 0 _ rfl ⟨_, rfl⟩ rfl))⟩

end Pair

end Backroll

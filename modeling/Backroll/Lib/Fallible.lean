import Mathlib.Data.Fin.Basic
import Mathlib.Tactic.Cases

/-! Computations that may fail: their sequential composition and counted loops, and the
rules that carry an invariant through them, whatever the faults they may end in. -/
namespace Fallible

universe u

variable {ε σ α β : Type u}

@[simp] theorem ok_bind (a : α) (f : α → Except ε β) : (Except.ok a >>= f) = f a := rfl

@[simp] theorem error_bind (e : ε) (f : α → Except ε β) :
    ((Except.error e : Except ε α) >>= f) = .error e := rfl

@[simp] theorem pure_eq_ok (a : α) : (pure a : Except ε α) = .ok a := rfl

@[simp] theorem throw_eq_error (e : ε) : (throw e : Except ε α) = .error e := rfl

theorem bind_eq_ok {x : Except ε α} {f : α → Except ε β} {b : β} :
    (x >>= f) = .ok b ↔ ∃ a, x = .ok a ∧ f a = .ok b := by
  cases x with
  | error e => simp
  | ok a => simp

/-- A computation that succeeds ends in a result with `post`, one that fails in a fault with
`fault`. Where no fault is possible this is total correctness. -/
def Ends (x : Except ε α) (post : α → Prop) (fault : ε → Prop) : Prop :=
  match x with
  | .ok a => post a
  | .error e => fault e

section Rules

variable {x : Except ε α} {post post' : α → Prop} {fault fault' : ε → Prop}

@[simp] theorem ends_ok {a : α} : Ends (.ok a : Except ε α) post fault ↔ post a := Iff.rfl

@[simp] theorem ends_error {e : ε} : Ends (.error e : Except ε α) post fault ↔ fault e := Iff.rfl

theorem Ends.of_ok {a : α} (h : x = .ok a) (hp : post a) : Ends x post fault := by
  rw [h]
  exact hp

theorem Ends.ok {a : α} (h : Ends x post fault) (hx : x = .ok a) : post a := by
  rw [hx] at h
  exact h

/-- Where every fault is accepted, only what succeeds counts. -/
theorem Ends.of_forall (h : ∀ a, x = .ok a → post a) : Ends x post fun _ => True := by
  cases x with
  | ok a => exact h a rfl
  | error e => trivial

theorem Ends.mono (h : Ends x post fault) (hp : ∀ a, post a → post' a)
    (hf : ∀ e, fault e → fault' e) : Ends x post' fault' := by
  cases x with
  | ok a => exact hp a h
  | error e => exact hf e h

theorem Ends.imp (h : Ends x post fault) (hp : ∀ a, post a → post' a) : Ends x post' fault :=
  h.mono hp fun _ he => he

theorem Ends.and (h : Ends x post fault) (h' : Ends x post' fault) :
    Ends x (fun a => post a ∧ post' a) fault := by
  cases x with
  | ok a => exact ⟨h, h'⟩
  | error e => exact h

/-- Of two results on one computation, the faults of the first. -/
theorem Ends.with (h : Ends x post fault) (h' : Ends x post' fault') :
    Ends x (fun a => post a ∧ post' a) fault := by
  cases x with
  | ok a => exact ⟨h, h'⟩
  | error e => exact h

theorem Ends.bind {f : α → Except ε β} {goal : β → Prop} (h : Ends x post fault)
    (hf : ∀ a, post a → Ends (f a) goal fault) : Ends (x >>= f) goal fault := by
  cases x with
  | ok a => exact hf a h
  | error e => exact h

/-- Where every fault is accepted, nothing need be known of what comes before. -/
theorem Ends.bind_any {f : α → Except ε β} {goal : β → Prop}
    (hf : ∀ a, Ends (f a) goal fun _ => True) : Ends (x >>= f) goal fun _ => True := by
  cases x with
  | ok a => exact hf a
  | error e => trivial

theorem Ends.total (h : Ends x post fun _ => False) : ∃ a, x = .ok a ∧ post a := by
  cases x with
  | ok a => exact ⟨a, rfl, h⟩
  | error e => exact h.elim

end Rules

/-- The loop `for i in 0..n`, threading a state through a fallible body. -/
def forEach : (n : ℕ) → (Fin n → σ → Except ε σ) → σ → Except ε σ
  | 0, _, s => .ok s
  | n + 1, f, s => do
    let s ← forEach n (fun i => f i.castSucc) s
    f (Fin.last n) s

/-- The loop rule, with an invariant on the iterations done and the state. -/
theorem forEach_ends {n : ℕ} {f : Fin n → σ → Except ε σ} {s : σ} {fault : ε → Prop}
    (P : ℕ → σ → Prop) (h0 : P 0 s)
    (hstep : ∀ (i : Fin n) s, P i s → Ends (f i s) (P (i + 1)) fault) :
    Ends (forEach n f s) (P n) fault := by
  induction n with
  | zero => exact h0
  | succ n ih =>
    have hloop := ih (f := fun i => f i.castSucc) fun i s hs => hstep i.castSucc s hs
    exact hloop.bind fun s' hs' => hstep (Fin.last n) s' hs'

/-- The loop `for _ in 0..k`. -/
def times : ℕ → (σ → Except ε σ) → σ → Except ε σ
  | 0, _, s => .ok s
  | k + 1, f, s => do
    let s ← times k f s
    f s

theorem times_ends {k : ℕ} {f : σ → Except ε σ} {s : σ} {fault : ε → Prop}
    (P : ℕ → σ → Prop) (h0 : P 0 s)
    (hstep : ∀ i s, i < k → P i s → Ends (f s) (P (i + 1)) fault) :
    Ends (times k f s) (P k) fault := by
  induction k with
  | zero => exact h0
  | succ k ih =>
    exact (ih fun i s hi hs => hstep i s (by omega) hs).bind fun s' hs' =>
      hstep k s' (by omega) hs'

/-- A walk over a list of items, threading a state through a fallible body. -/
def walk (f : α → σ → Except ε σ) : List α → σ → Except ε σ
  | [], s => .ok s
  | a :: as, s => do
    let s ← f a s
    walk f as s

@[simp] theorem walk_nil (f : α → σ → Except ε σ) (s : σ) : walk f [] s = .ok s := rfl

theorem walk_cons (f : α → σ → Except ε σ) (a : α) (as : List α) (s : σ) :
    walk f (a :: as) s = f a s >>= walk f as := rfl

/-- The rule for a walk, with an invariant on the items to come and the state. -/
theorem walk_ends {f : α → σ → Except ε σ} {fault : ε → Prop} (P : List α → σ → Prop)
    (hstep : ∀ a as s, P (a :: as) s → Ends (f a s) (P as) fault) {as : List α} {s : σ}
    (h0 : P as s) : Ends (walk f as s) (P []) fault := by
  induction as generalizing s with
  | nil => exact h0
  | cons a as ih => exact (hstep a as s h0).bind fun s' hs' => ih hs'

/-- A list is mapped when each of its items is. -/
theorem mapM_ends {f : α → Except ε β} {fault : ε → Prop} {as : List α}
    (h : ∀ a ∈ as, Ends (f a) (fun _ => True) fault) : Ends (as.mapM f) (fun _ => True) fault := by
  induction as with
  | nil => trivial
  | cons a as ih =>
    rw [List.mapM_cons]
    refine (h a List.mem_cons_self).bind fun b _ => ?_
    exact (ih fun a' ha' => h a' (List.mem_cons_of_mem a ha')).bind fun bs _ => trivial

end Fallible

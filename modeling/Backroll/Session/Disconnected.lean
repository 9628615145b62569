import Backroll.Session.Calls

/-! What becomes of a disconnected player. It stays out, but disconnecting the local player
moves the frame from which it is out; and the session never survives it for long, since its
closed channel is taken for a new disconnection at every poll. -/
namespace Backroll

open Fallible (Ends)

variable {n : ℕ} {I S : Type}

namespace Session

variable {s s' : Session n I S}

/-- A player that is out stays out, from the same frame on or an earlier one, and its queue
takes no more inputs. -/
structure Sticks (q : Fin n) (s s' : Session n I S) : Prop where
  out : (s'.status q).disconnected = true
  frame : (s'.status q).lastFrame ≤ (s.status q).lastFrame
  stored : (s.sync.inputQueues q).SameInputs (s'.sync.inputQueues q)

theorem Onward.sticks {k : ℕ} {q : Fin n} (h : Onward k s s') (hq : (s.status q).disconnected = true) :
    Sticks q s s' := ⟨h.out q hq, h.frame q hq, h.stored q hq⟩

theorem Steady.sticks {k : ℕ} {q : Fin n} (h : Steady k s s')
    (hq : (s.status q).disconnected = true) : Sticks q s s' := h.onward.sticks hq

/-- The call disconnects a local player while a player is out from an earlier frame on. -/
def Revives (s : Session n I S) (c : Call I) : Prop :=
  ∃ p q : Fin n, c = .disconnectPlayer p ∧ (s.players p).isLocal = true ∧
    (s.status q).disconnected = true ∧ (s.status q).lastFrame < s.sync.frameCount

variable [Build] [BEq I] [Varinteger] [Pod I]

theorem make_sticks (hs : s.Settled) (hcount : 0 ≤ s.sync.frameCount) {c : Call I}
    (hc : ¬s.Revives c) {q : Fin n} (hq : (s.status q).disconnected = true) :
    Ends (s.make c) (fun r => Sticks q s r.2) fun _ => True := by
  cases c with
  | poll => exact (doPoll_polled hs).imp fun r hr => hr.toOnward.sticks hq
  | advanceFrame => exact (advanceFrame_polled hs).imp fun r hr => hr.toOnward.sticks hq
  | addLocalInput player input =>
    refine (addLocalInput_accepted hs hcount player input).bind fun r hr => ?_
    obtain ⟨result, s'⟩ := r
    cases result with
    | error err =>
      obtain rfl : s' = s := hr
      exact (Steady.refl hs).sticks hq
    | ok =>
      obtain ⟨i, -, hacc⟩ := hr
      have hne : q ≠ i := by
        rintro rfl
        simp [hs.home q hacc.home] at hq
      obtain ⟨hstatus, hstored⟩ := hacc.others q hne
      exact ⟨hacc.out q hq, by rw [hstatus], hstored⟩
  | setFrameDelay player delay =>
    exact (setFrameDelay_steady hs player delay).bind fun r hr => hr.sticks hq
  | disconnectPlayer player =>
    have hdisc : Ends (s.disconnectPlayer player) (fun r => Sticks q s r.2) fun _ => True := by
      by_cases hplayer : player < n
      · cases hlocal : (s.players ⟨player, hplayer⟩).isLocal with
        | true =>
          refine (disconnectPlayer_local hs hlocal).mono (fun r hr => ?_) fun _ _ => trivial
          obtain ⟨hlater, hstatus, hstored, -⟩ := hr
          refine ⟨hlater.out q hq, ?_, hstored q⟩
          have hremote : (s.players q).isLocal = false := by
            by_contra hhome
            simp [hs.home q (by simpa using hhome)] at hq
          rw [hstatus, hremote]
          exact not_lt.mp fun hlt => hc ⟨⟨player, hplayer⟩, q, rfl, hlocal, hq, hlt⟩
        | false =>
          refine (disconnectPlayer_remote hs hlocal).imp fun r hr => ?_
          obtain ⟨result, s'⟩ := r
          cases result with
          | error err =>
            obtain rfl : s' = s := hr.2
            exact (Steady.refl hs).sticks hq
          | ok commands => exact (hr.2.onward hr.1).sticks hq
      · simp only [disconnectPlayer, playerHandleToQueue, dif_neg hplayer]
        exact (Steady.refl hs).sticks hq
    refine hdisc.bind fun r hr => ?_
    obtain ⟨result, s'⟩ := r
    cases result <;> exact hr

/-- A call that revives a player goes through, and moves its frame on. -/
theorem make_revives (hs : s.Settled) {c : Call I} (hc : s.Revives c) :
    ∃ commands s' q, s.make c = .ok (commands, s') ∧ (s.status q).disconnected = true ∧
      ¬Sticks q s s' := by
  obtain ⟨p, q, rfl, hlocal, hq, hlt⟩ := hc
  obtain ⟨⟨result, s'⟩, hdisc, hlater, hstatus, -⟩ := (disconnectPlayer_local hs hlocal).total
  have hremote : (s.players q).isLocal = false := by
    by_contra hhome
    simp [hs.home q (by simpa using hhome)] at hq
  have hnot : ¬Sticks q s s' := by
    intro hsticks
    have hframe := hsticks.frame
    dsimp only at hstatus
    rw [hstatus, hremote] at hframe
    exact absurd hlt (not_lt.mpr hframe)
  cases result with
  | error err => exact ⟨[], s', q, by simp [make, hdisc], hq, hnot⟩
  | ok commands => exact ⟨commands, s', q, by simp [make, hdisc], hq, hnot⟩

/-- Several calls in a row. -/
def calls (cs : List (Call I)) (s : Session n I S) : Except Panic (Session n I S) :=
  Fallible.walk (fun c s => do
    let (_, s) ← s.make c
    return s) cs s

/-- Whatever follows of `poll` and `advance_frame`, each call returns. -/
def Survivable (s : Session n I S) : Prop :=
  ∀ cs : List (Call I), (∀ c ∈ cs, c = .poll ∨ c = .advanceFrame) → ∃ s', s.calls cs = .ok s'

theorem make_polled (hs : s.Settled) {c : Call I} (hc : c = .poll ∨ c = .advanceFrame) :
    Ends (s.make c) (fun r => ∃ k, Polled k s r.2) fun _ => True := by
  rcases hc with rfl | rfl
  · exact (doPoll_polled hs).imp fun r hr => ⟨_, hr⟩
  · exact (advanceFrame_polled hs).imp fun r hr => ⟨_, hr⟩

/-- No poll gets past a player that is out. -/
theorem make_fails (hs : s.Settled) {c : Call I} (hc : c = .poll ∨ c = .advanceFrame) {q : Fin n}
    (hq : s.Shut q) (hout : (s.status q).disconnected = true) : ∃ e, s.make c = .error e := by
  have hpoll := make_polled hs hc
  cases hmake : s.make c with
  | error e => exact ⟨e, rfl⟩
  | ok r =>
    obtain ⟨k, hpolled⟩ := hpoll.ok hmake
    simp [(hpolled.noticed q hq).1] at hout

theorem calls_fail (hs : s.Settled) {cs : List (Call I)}
    (hcs : ∀ c ∈ cs, c = .poll ∨ c = .advanceFrame) {q : Fin n} (hq : s.Shut q)
    (hlen : 2 ≤ cs.length) : ∃ e, s.calls cs = .error e := by
  obtain ⟨c₁, c₂, cs, rfl⟩ : ∃ c₁ c₂ cs', cs = c₁ :: c₂ :: cs' := by
    match cs, hlen with
    | c₁ :: c₂ :: cs', _ => exact ⟨c₁, c₂, cs', rfl⟩
  have hc₁ := hcs c₁ List.mem_cons_self
  have hc₂ := hcs c₂ (by simp)
  unfold calls
  rw [Fallible.walk_cons]
  cases hmake : s.make c₁ with
  | error e => exact ⟨e, by simp⟩
  | ok r =>
    obtain ⟨k, hpolled⟩ := (make_polled hs hc₁).ok hmake
    obtain ⟨e, he⟩ := make_fails hpolled.settled hc₂ (hpolled.shut hq) (hpolled.noticed q hq).2
    refine ⟨e, ?_⟩
    simp [Fallible.walk_cons, he]

end Session

namespace Host

section Sticky

variable [Client I S] [Build] [BEq I] [Varinteger] [Pod I] {h : Host n I S}

/-- A disconnected player stays out, from the same frame on or an earlier one, and takes no
more inputs, exactly in the calls that do not disconnect a local player while a player is out
from an earlier frame than the current one. -/
theorem reachable_sticks_iff (hr : Reachable h) (c : Call I) :
    (∀ commands s' q, h.session.make c = .ok (commands, s') →
      (h.session.status q).disconnected = true → Session.Sticks q h.session s') ↔
    ¬h.session.Revives c := by
  obtain ⟨hs, hcount⟩ := reachable_settled hr
  constructor
  · intro hsticks hrevives
    obtain ⟨commands, s', q, hmake, hq, hnot⟩ := Session.make_revives hs hrevives
    exact hnot (hsticks commands s' q hmake hq)
  · intro hc commands s' q hmake hq
    exact (Session.make_sticks hs hcount hc hq).ok hmake

end Sticky

section Example

attribute [local instance] debugBuild Varinteger.leb128 countingClient

/-- After one frame the remote player is disconnected from frame 0 on. Disconnecting the local
player then moves that to frame 1. -/
theorem not_sticks_disconnectLocal :
    ∃ (h : Host 2 UInt8 ℕ) (commands : List (Command UInt8)) (s' : Session 2 UInt8 ℕ),
      Reachable h ∧ h.session.status 1 = ⟨true, 0⟩ ∧
      h.session.make (.disconnectPlayer 0) = .ok (commands, s') ∧ s'.status 1 = ⟨true, 1⟩ ∧
      ¬Session.Sticks 1 h.session s' := by
  have hadvanced : Reachable _ := .call _ .advanceFrame _ (.call _ (.addLocalInput 0 3) _
    (.call _ .poll _ connectedPair_reachable rfl) rfl) rfl
  refine ⟨_, _, _, .call _ (.disconnectPlayer 1) _ hadvanced rfl, rfl, rfl, rfl, fun h => ?_⟩
  have hframe : (1 : ℤ) ≤ 0 := h.frame
  omega

/-- Another input of the local player keeps the remote player out. -/
theorem reachable_sticks_iff_pair :
    ∃ (h : Host 2 UInt8 ℕ) (commands : List (Command UInt8)) (s' : Session 2 UInt8 ℕ),
      Reachable h ∧ h.session.status 1 = ⟨true, 0⟩ ∧
      h.session.make (.addLocalInput 0 4) = .ok (commands, s') ∧
      ((∀ commands s' q, h.session.make (.addLocalInput 0 4) = .ok (commands, s') →
        (h.session.status q).disconnected = true → Session.Sticks q h.session s') ↔
      ¬h.session.Revives (.addLocalInput 0 4)) ∧ Session.Sticks 1 h.session s' := by
  have hadvanced : Reachable _ := .call _ .advanceFrame _ (.call _ (.addLocalInput 0 3) _
    (.call _ .poll _ connectedPair_reachable rfl) rfl) rfl
  have hout : Reachable _ := .call _ (.disconnectPlayer 1) _ hadvanced rfl
  have hiff := reachable_sticks_iff hout (.addLocalInput 0 4)
  refine ⟨_, _, _, hout, rfl, rfl, hiff, hiff.mpr ?_ _ _ 1 rfl rfl⟩
  rintro ⟨p, q, hcall, -⟩
  cases hcall

end Example

section Survival

variable [Client I S] [Build] [BEq I] [Varinteger] [Pod I] {h : Host n I S}

/-- Once a remote player is disconnected, or its channel is closed, no two further calls of
`poll` and `advance_frame` return. -/
theorem reachable_not_survivable (hr : Reachable h) {q : Fin n} {peer : Peer I}
    (hq : h.session.players q = .remote peer)
    (hout : (h.session.status q).disconnected = true ∨ peer.events.closed = true) :
    ¬h.session.Survivable ∧ ∀ cs : List (Call I), (∀ c ∈ cs, c = .poll ∨ c = .advanceFrame) →
      2 ≤ cs.length → ∃ e, h.session.calls cs = .error e := by
  obtain ⟨hs, -⟩ := reachable_settled hr
  have hshut : h.session.Shut q := by
    rcases hout with hd | hclosed
    · exact ⟨peer, hq, (hs.shut q peer hq hd).1⟩
    · exact ⟨peer, hq, hclosed⟩
  have hfail : ∀ cs : List (Call I), (∀ c ∈ cs, c = .poll ∨ c = .advanceFrame) →
      2 ≤ cs.length → ∃ e, h.session.calls cs = .error e := fun cs hcs hlen =>
    Session.calls_fail hs hcs hshut hlen
  refine ⟨fun hsurvives => ?_, hfail⟩
  have hpolls : ∀ c ∈ [Call.poll (I := I), .poll], c = .poll ∨ c = .advanceFrame := by simp
  obtain ⟨s', hok⟩ := hsurvives _ hpolls
  obtain ⟨e, he⟩ := hfail _ hpolls le_rfl
  simp [hok] at he

end Survival

/-- The local player leaves, and the next poll panics. -/
theorem not_survivable_disconnectLocal :
    letI : Build := ⟨true⟩
    letI := Varinteger.leb128
    letI := countingClient
    ∃ h : Host 2 UInt8 ℕ, Reachable h ∧ h.session.status 1 = ⟨true, 0⟩ ∧
      h.session.calls [.poll] = .error .expectFailed ∧ ¬h.session.Survivable :=
  letI : Build := ⟨true⟩
  letI := Varinteger.leb128
  letI := countingClient
  ⟨_, .call _ (.disconnectPlayer 0) _ (.call _ .poll _ connectedPair_reachable rfl) rfl, rfl, rfl,
    fun h => by
      obtain ⟨s', hs'⟩ := h [.poll] (by simp)
      cases hs'⟩

theorem reachable_not_survivable_pair :
    letI : Build := ⟨true⟩
    letI := Varinteger.leb128
    letI := countingClient
    ∃ h : Host 2 UInt8 ℕ, Reachable h ∧ ¬h.session.Survivable ∧
      ∀ cs : List (Call UInt8), (∀ c ∈ cs, c = .poll ∨ c = .advanceFrame) → 2 ≤ cs.length →
        ∃ e, h.session.calls cs = .error e :=
  letI : Build := ⟨true⟩
  letI := Varinteger.leb128
  letI := countingClient
  have hr : Reachable _ := .call _ (.disconnectPlayer 0) _
    (.call _ .poll _ connectedPair_reachable rfl) rfl
  ⟨_, hr, reachable_not_survivable hr (q := 1) rfl (.inl rfl)⟩

end Host

end Backroll

import Backroll.Session.Calls
import Backroll.Session.Stage
import Backroll.Sync.Frames
import Mathlib.Data.List.TakeWhile

/-! How a session comes to run: when `Running` is issued, and which commands come before it. A
player that is put out before an input of it has come is put out by the null frame, and the
session then simulates that frame, whether it runs or not. -/
namespace Backroll

open Fallible (Ends)

variable {n : ℕ} {I S : Type}

/-- `Event::Running`. -/
def Command.isRunning : Command I → Bool
  | event .running => true
  | _ => false

theorem Command.isRunning_iff {c : Command I} : c.isRunning = true ↔ c = .event .running := by
  cases c with
  | event e => cases e <;> simp [isRunning]
  | save cell frame => simp [isRunning]
  | load cell => simp [isRunning]
  | advanceFrame inputs => simp [isRunning]

theorem SimulatesFrom.not_running {lo : ℤ} {cs : List (Command I)} (h : SimulatesFrom lo cs) :
    cs.countP Command.isRunning = 0 :=
  List.countP_eq_zero.mpr fun _ hc hrun => h.2 .running (Command.isRunning_iff.mp hrun ▸ hc)

/-- What comes before the first command of a kind comes before it in the first batch, or in the
second when there is none in the first. -/
theorem mem_takeWhile_append {α : Type} {p : α → Bool} {xs ys : List α} {a : α}
    (h : a ∈ (xs ++ ys).takeWhile p) :
    a ∈ xs.takeWhile p ∨ (∀ x ∈ xs, p x = true) ∧ a ∈ ys.takeWhile p := by
  rw [List.takeWhile_append] at h
  split at h
  · next hlen =>
    have hall : xs.takeWhile p = xs := (List.takeWhile_prefix p).eq_of_length hlen
    rw [hall]
    exact (List.mem_append.mp h).imp_right fun ha => ⟨List.takeWhile_eq_self_iff.mp hall, ha⟩
  · exact .inl h

namespace Session

variable {k l : ℕ} {s s₁ s₂ : Session n I S} {ok ok' : Prop} {cs cs' : List (Command I)}

/-- The commands of a stretch of a session, from a state to a later one. Where the stretch is
`ok`, nothing is simulated before `Running`, and no negative frame at all; where it is not, a
negative frame is. -/
structure Issues (ok : Prop) (s : Session n I S) (commands : List (Command I))
    (s' : Session n I S) : Prop where
  starts : commands.countP Command.isRunning + s'.synchronizing.toNat = s.synchronizing.toNat
  waits : ok → s.synchronizing = true → ∀ c ∈ commands.takeWhile fun c => !c.isRunning, ¬c.Simulates
  frames : ok → FramesFrom 0 commands
  sinks : ¬ok → ∃ frame < 0, Advances frame commands

theorem Issues.trans (h : Issues ok s cs s₁) (h' : Issues ok' s₁ cs' s₂) :
    Issues (ok ∧ ok') s (cs ++ cs') s₂ := by
  refine ⟨?_, fun hok hsync c hc => ?_, fun hok => (h.frames hok.1).append (h'.frames hok.2),
    fun hnot => ?_⟩
  · rw [List.countP_append, Nat.add_assoc, h'.starts, h.starts]
  · rcases mem_takeWhile_append hc with hc | ⟨hall, hc⟩
    · exact h.waits hok.1 hsync c hc
    · have hzero : cs.countP Command.isRunning = 0 :=
        List.countP_eq_zero.mpr fun x hx => by simpa using hall x hx
      have hrunning := h.starts
      rw [hzero, hsync] at hrunning
      refine h'.waits hok.2 ?_ c hc
      cases hsync₁ : s₁.synchronizing with
      | true => rfl
      | false => simp [hsync₁] at hrunning
  · by_cases hok : ok
    · obtain ⟨frame, hneg, hadv⟩ := h'.sinks fun hok' => hnot ⟨hok, hok'⟩
      exact ⟨frame, hneg, hadv.append_right cs⟩
    · obtain ⟨frame, hneg, hadv⟩ := h.sinks hok
      exact ⟨frame, hneg, hadv.append_left cs'⟩

theorem Issues.congr (h : Issues ok s cs s₁) (hiff : ok ↔ ok') : Issues ok' s cs s₁ :=
  propext hiff ▸ h

theorem Issues.nil (hsync : s₁.synchronizing = s.synchronizing) : Issues True s [] s₁ :=
  ⟨by simp [hsync], by simp, fun _ => .nil 0, fun h => absurd trivial h⟩

/-- Events other than `Running`. -/
theorem Issues.events {events : List Event} (hevents : .running ∉ events)
    (hsync : s₁.synchronizing = s.synchronizing) :
    Issues True s (events.map Command.event) s₁ := by
  refine ⟨?_, fun _ _ c hc => ?_, fun _ => .events 0 events, fun h => absurd trivial h⟩
  · rw [hsync, List.countP_eq_zero.mpr, Nat.zero_add]
    intro c hc hrun
    rw [Command.isRunning_iff.mp hrun] at hc
    obtain ⟨event, hmem, heq⟩ := List.mem_map.mp hc
    exact hevents (Command.event.inj heq ▸ hmem)
  · obtain ⟨event, -, rfl⟩ := List.mem_map.mp ((List.takeWhile_sublist _).subset hc)
    exact id

/-- A simulation, which is no harm to a running session. -/
theorem Issues.of_simulation {lo : ℤ} (h : SimulatesFrom lo cs) (hlo : lo < 0 → Advances lo cs)
    (hready : s.synchronizing = true → lo < 0) (hsync : s₁.synchronizing = s.synchronizing) :
    Issues (0 ≤ lo) s cs s₁ :=
  ⟨by rw [h.not_running, hsync, Nat.zero_add],
    fun hok hs => absurd (hready hs) (not_lt.mpr hok), fun hok => (h.mono hok).1,
    fun hnot => ⟨lo, not_le.mp hnot, hlo (not_le.mp hnot)⟩⟩

/-- Nobody waits for this player. -/
def Joined (s : Session n I S) (i : Fin n) : Prop :=
  (s.players i).isLocal = true ∨ (s.players i).isSynchronized = true ∨
    (s.status i).disconnected = true

theorem isSynchronized_iff : s.isSynchronized = true ↔ ∀ i, s.Joined i := by
  simp [isSynchronized, Joined, or_assoc]

/-- A stretch of a call, in which nobody leaves without being put out. -/
structure Proceeds (ok : Prop) (k : ℕ) (s : Session n I S) (commands : List (Command I))
    (s' : Session n I S) : Prop extends Later k s s', Issues ok s commands s' where
  joined : ∀ i, s.Joined i → s'.Joined i
  ready : .event .running ∈ commands → s'.isSynchronized = true

theorem Proceeds.trans (h : Proceeds ok k s cs s₁) (h' : Proceeds ok' l s₁ cs' s₂) :
    Proceeds (ok ∧ ok') (k + l) s (cs ++ cs') s₂ := by
  refine ⟨h.toLater.trans h'.toLater, h.toIssues.trans h'.toIssues,
    fun i hi => h'.joined i (h.joined i hi), fun hrun => ?_⟩
  rcases List.mem_append.mp hrun with hrun | hrun
  · exact isSynchronized_iff.mpr fun i => h'.joined i (isSynchronized_iff.mp (h.ready hrun) i)
  · exact h'.ready hrun

theorem Proceeds.congr (h : Proceeds ok k s cs s₁) (hiff : ok ↔ ok') : Proceeds ok' k s cs s₁ :=
  propext hiff ▸ h

/-- A session that has come to run, or has not begun. -/
structure Launched (s : Session n I S) : Prop where
  settled : s.Settled
  count : 0 ≤ s.sync.frameCount
  fresh : s.synchronizing = true → s.sync.frameCount = 0

theorem Launched.later (h : s.Launched) (hlater : Later k s s₁)
    (hk : s.synchronizing = true → k = 0) : s₁.Launched := by
  have hcount := hlater.count
  have hpos := h.count
  refine ⟨hlater.settled, by omega, fun hsync => ?_⟩
  cases hs : s.synchronizing with
  | true =>
    have hfresh := h.fresh hs
    have hzero := hk hs
    omega
  | false => simp [hlater.running hs] at hsync

theorem Launched.later₀ (h : s.Launched) (hlater : Later 0 s s₁) : s₁.Launched :=
  h.later hlater fun _ => rfl

/-- A stretch in which no player leaves. -/
theorem Proceeds.of_issues (hlater : Later k s s₁) (hissues : Issues ok s cs s₁)
    (hjoined : ∀ i, s.Joined i → s₁.Joined i) (hquiet : cs.countP Command.isRunning = 0) :
    Proceeds ok k s cs s₁ :=
  ⟨hlater, hissues, hjoined, fun hrun =>
    absurd (Command.isRunning_iff.mpr rfl) (List.countP_eq_zero.mp hquiet _ hrun)⟩

theorem Proceeds.nil (hlater : Later k s s₁) (hsync : s₁.synchronizing = s.synchronizing)
    (hjoined : ∀ i, s.Joined i → s₁.Joined i) : Proceeds True k s [] s₁ :=
  .of_issues hlater (.nil hsync) hjoined rfl

theorem Proceeds.refl (hs : s.Settled) : Proceeds True 0 s [] s :=
  .nil (Steady.refl hs).toLater rfl fun _ => id

/-- A step of the `Sync`. -/
theorem Proceeds.of_sync {sync : Sync n I S} {lo : ℤ} (h : Steady k s { s with sync := sync })
    (hcs : SimulatesFrom lo cs) (hlo : lo < 0 → Advances lo cs)
    (hready : s.synchronizing = true → lo < 0) :
    Proceeds (0 ≤ lo) k s cs { s with sync := sync } := by
  refine .of_issues h.toLater (.of_simulation hcs hlo hready rfl) (fun i hi => ?_) hcs.not_running
  rwa [Joined, status, h.statuses]

theorem Proceeds.checkInitialSync (hs : s.Settled) :
    Proceeds True 0 s s.checkInitialSync.1 s.checkInitialSync.2 := by
  have hsteady := Steady.checkInitialSync hs
  unfold Session.checkInitialSync at hsteady ⊢
  split
  · next hsync =>
    rw [if_pos hsync] at hsteady
    refine ⟨hsteady.toLater, ⟨by simp [Command.isRunning, hsync.1], by simp [Command.isRunning],
      fun _ => .events 0 [.running], fun h => absurd trivial h⟩, fun i => id, fun _ => hsync.2⟩
  · exact .refl hs

/-- Two states that differ in one player at most. -/
def Apart (queue : Fin n) (s s' : Session n I S) : Prop :=
  ∀ i, i ≠ queue → s'.players i = s.players i ∧ s'.status i = s.status i

theorem Apart.refl (queue : Fin n) (s : Session n I S) : Apart queue s s := fun _ _ => ⟨rfl, rfl⟩

theorem Apart.trans {queue : Fin n} (h : Apart queue s s₁) (h' : Apart queue s₁ s₂) :
    Apart queue s s₂ := fun i hi =>
  ⟨(h' i hi).1.trans (h i hi).1, (h' i hi).2.trans (h i hi).2⟩

theorem Apart.of_eq {queue : Fin n} (hplayers : s₁.players = s.players)
    (hstatuses : s₁.sync.localConnectStatus = s.sync.localConnectStatus) : Apart queue s s₁ :=
  fun i _ => ⟨congrFun hplayers i, congrFun hstatuses i⟩

theorem Apart.checkInitialSync (queue : Fin n) (s : Session n I S) :
    Apart queue s s.checkInitialSync.2 := by
  unfold Session.checkInitialSync
  split
  · exact .of_eq rfl rfl
  · exact .refl queue s

theorem Apart.drop (queue : Fin n) (s : Session n I S) (syncto : ℤ) :
    Apart queue s (s.drop queue syncto) := fun _ hi =>
  ⟨Function.update_of_ne hi _ _, Function.update_of_ne hi _ _⟩

theorem Proceeds.drop (hs : s.Settled) {queue : Fin n} (hremote : (s.players queue).isLocal = false)
    (syncto : ℤ) : Proceeds True 0 s [] (s.drop queue syncto) := by
  refine .nil (Removed.drop hs hremote syncto).toLater rfl fun i hi => ?_
  by_cases heq : i = queue
  · subst heq
    exact .inr (.inr (by simp [Session.drop, setStatus, status]))
  · obtain ⟨hplayer, hstatus⟩ := Apart.drop queue s syncto i heq
    rwa [Joined, hplayer, hstatus]

variable [Build] [Zeroable I]

/-- A player is put out by a frame: that is the first frame simulated again. -/
theorem disconnectPlayerQueue_proceeds (hs : s.Launched) {queue : Fin n}
    (hremote : (s.players queue).isLocal = false) (syncto : ℤ) :
    Ends (s.disconnectPlayerQueue queue syncto) (fun r => Proceeds (0 ≤ syncto) 0 s r.1 r.2 ∧
      Apart queue s r.2) fun _ => True := by
  have hdrop := Proceeds.drop hs.settled hremote syncto
  have hapart := Apart.drop queue s syncto
  have hend : ∀ s₁ : Session n I S, s₁.Settled →
      Proceeds True 0 s₁ ([.event (.disconnected queue)] ++ s₁.checkInitialSync.1)
        s₁.checkInitialSync.2 := by
    intro s₁ hs₁
    have hquiet : Event.running ∉ [Event.disconnected queue] := by simp
    have hevent : Proceeds True 0 s₁ [.event (.disconnected queue)] s₁ :=
      .of_issues (Steady.refl hs₁).toLater (.events hquiet rfl) (fun _ => id) rfl
    exact (hevent.trans (.checkInitialSync hs₁)).congr (and_self_iff)
  have hlaunched := hs.later₀ hdrop.toLater
  unfold disconnectPlayerQueue
  change Ends (if syncto < s.sync.frameCount then
      (s.drop queue syncto).sync.adjustSimulation syncto >>= _ else _) _ _
  split
  · next hlt =>
    refine ((adjustSimulation_steady hlaunched.settled syncto).and
      (Sync.adjustSimulation_frames _ syncto)).bind fun r hr => ?_
    obtain ⟨hsteady, hframes, hadvances⟩ := hr
    have hadjust := Proceeds.of_sync hsteady hframes (fun _ => hadvances hlt) fun hsync => by
      have := hs.fresh hsync
      omega
    have hsync : Apart queue (s.drop queue syncto) { s.drop queue syncto with sync := r.2 } :=
      .of_eq rfl hsteady.statuses
    refine ⟨?_, (hapart.trans hsync).trans (.checkInitialSync queue _)⟩
    have hall := (hdrop.trans hadjust).trans (hend _ hsteady.settled)
    rw [List.nil_append, ← List.append_assoc] at hall
    exact hall.congr (by simp)
  · next hge =>
    refine ⟨?_, hapart.trans (.checkInitialSync queue _)⟩
    have hpos : 0 ≤ syncto := hs.count.trans (not_lt.mp hge)
    exact (hdrop.trans (hend _ hlaunched.settled)).congr (by simp [hpos])

end Session

end Backroll

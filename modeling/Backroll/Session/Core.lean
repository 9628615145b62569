import Backroll.Sync.Simulation

/-! The state of a session between its steps: what holds of the saved states, of the queues
and of the connect statuses, and what the steps make of it. -/
namespace Backroll

open Fallible (Ends)

/-- What stays the same while a session runs. In a strict one, every input fits. -/
structure Setup (n : ℕ) (S : Type) where
  strict : Prop
  delay : ℕ
  locals : Fin n → Bool
  init : S
  someone : ∃ i, locals i = true
  fits : strict → n ≤ maxPlayers ∧ delay ≤ 100

/-- Where a session stands: before frame `cur`, with all frames below `floor` confirmed and the
saved frames `off` cells further on; the logs of the queues, and what the players gave. -/
structure Standpoint (n : ℕ) (I : Type) where
  floor : ℕ
  cur : ℕ
  off : ℕ
  queues : Fin n → LogQueue I
  given : Fin n → List I

variable {n : ℕ} {I S : Type}

/-- No queue reports a wrong prediction. -/
def Standpoint.Unmarked (g : Standpoint n I) : Prop := ∀ i, isNull (g.queues i).incorrect

/-- Some player is not local. -/
def Setup.Online (p : Setup n S) : Prop := ∃ i, p.locals i = false

variable [Zeroable I] [BEq I]

/-- The standing of one player, when `confirmed` is the last confirmed frame. -/
structure Standing (p : Setup n S) (g : Standpoint n I) (confirmed : ℤ) (i : Fin n)
    (status : ConnectionStatus) : Prop where
  delay : (g.queues i).delay = p.delay
  log : (g.queues i).log = LogQueue.delayed p.delay (g.given i)
  home : p.locals i = true → status.disconnected = false ∧ (g.queues i).guess = none ∧
    isNull (g.queues i).incorrect ∧ g.cur ≤ (g.given i).length ∧ (g.given i).length ≤ g.cur + 1 ∧
    ((g.given i).length = g.cur + 1 → g.cur + 1 ≤ g.floor + maxPredictionFrames)
  last : status.disconnected = false → status.lastFrame + 1 = (g.given i).length
  lastUser : status.disconnected = false → (g.queues i).lastUser = status.lastFrame
  requested : status.disconnected = false → (g.queues i).requested = g.cur - 1
  ahead : status.disconnected = false → p.Online → confirmed ≤ status.lastFrame
  start : p.strict → status.disconnected = false → (g.queues i).start = g.floor
  beyond : ¬isNull (g.queues i).incorrect → confirmed < (g.queues i).incorrect

/-- Until a queue reports otherwise, the client used what is known of each frame. -/
def Faithful (g : Standpoint n I) (statuses : Fin n → ConnectionStatus) (v : View I S) : Prop :=
  ∃ logs : Fin n → List I, (∀ f < g.cur, v.used f = known logs statuses f) ∧
    ∀ i, ∀ f < g.cur, ¬Gone (statuses i) f → (g.queues i).Trusted f →
      LogQueue.ideal (g.queues i).log f = LogQueue.ideal (logs i) f

omit [BEq I] in
theorem faithful_of_usesKnown {g : Standpoint n I} {statuses : Fin n → ConnectionStatus}
    {v : View I S} (h : UsesKnown g.cur v g.queues statuses) : Faithful g statuses v :=
  ⟨fun i => (g.queues i).log, h, fun _ _ _ _ _ => rfl⟩

variable [Client I S]

structure Core (p : Setup n S) (g : Standpoint n I) (s : Sync n I S) (v : View I S) : Prop where
  idle : s.rollingBack = false
  confirmed : s.lastConfirmedFrame.toNat = g.floor
  lowest : -1 ≤ s.lastConfirmedFrame
  stands : s.Stands g.off g.floor g.cur v p.init
  tracks : ∀ i, Tracks p.strict g.floor g.cur (s.inputQueues i) (g.queues i)
  standing : ∀ i, Standing p g s.lastConfirmedFrame i (s.localConnectStatus i)
  faithful : Exact I p.strict → Faithful g s.localConnectStatus v

variable {p : Setup n S} {g : Standpoint n I} {s : Sync n I S} {v : View I S}

theorem Core.floor_le (h : Core p g s v) : g.floor ≤ g.cur := h.stands.lo_le

theorem Core.span (h : Core p g s v) : g.cur ≤ g.floor + maxPredictionFrames := by
  rcases Nat.eq_zero_or_pos g.cur with h0 | hpos
  · omega
  · exact (h.stands.ring hpos.ne').span

/-- The frames below the first wrong one were simulated with what is known. -/
theorem Core.usesKnown (h : Core p g s v) {t : ℕ} (ht : t ≤ g.cur)
    (htrust : ∀ i, ∀ f < t, (g.queues i).Trusted f) (hx : Exact I p.strict) :
    UsesKnown t v g.queues s.localConnectStatus := by
  obtain ⟨logs, hused, hideal⟩ := h.faithful hx
  intro f hf
  rw [hused f (by omega)]
  exact (known_congr (fun _ => Iff.rfl) fun i hgone =>
    hideal i f (by omega) hgone (htrust i f hf)).symm

theorem Core.floor_le_given (h : Core p g s v) {i : Fin n}
    (hconn : (s.localConnectStatus i).disconnected = false) : g.floor ≤ (g.given i).length := by
  have hst := h.standing i
  have hfloor := h.floor_le
  cases hi : p.locals i with
  | true =>
    obtain ⟨-, -, -, hle, -⟩ := hst.home hi
    omega
  | false =>
    have hahead := hst.ahead hconn ⟨i, hi⟩
    have hlast := hst.last hconn
    have hconf := h.confirmed
    omega

theorem Core.setFrames (h : Core p g s v) {frames : Fin numCells → SavedFrame S}
    (hlabel : ∀ c, (frames c).frame = (s.savedState.frames c).frame) :
    Core p g { s with savedState := { s.savedState with frames := frames } } v :=
  ⟨h.idle, h.confirmed, h.lowest, h.stands.setFrames hlabel, h.tracks, h.standing, h.faithful⟩

section Add

/-- The next input of a player is stored. -/
def Standpoint.add (g : Standpoint n I) (i : Fin n) (x : FrameInput I) : Standpoint n I :=
  { g with
    queues := Function.update g.queues i ((g.queues i).add x)
    given := Function.update g.given i (g.given i ++ [x.input]) }

omit [Client I S]

omit [BEq I] in
theorem Standing.length_le {confirmed : ℤ} {i : Fin n} {status : ConnectionStatus}
    (h : Standing p g confirmed i status) : (g.given i).length ≤ (g.queues i).log.length := by
  rw [h.log]
  exact LogQueue.length_le_delayed _ _

omit [BEq I] in
/-- The standing of a player is a matter of its own queue and inputs. -/
theorem Standing.congr {g' : Standpoint n I} {confirmed : ℤ} {i : Fin n}
    {status : ConnectionStatus} (h : Standing p g confirmed i status) (hfloor : g'.floor = g.floor)
    (hcur : g'.cur = g.cur) (hqueue : g'.queues i = g.queues i) (hgiven : g'.given i = g.given i) :
    Standing p g' confirmed i status := by
  obtain ⟨delay, log, home, last, lastUser, requested, ahead, start, beyond⟩ := h
  rw [← hfloor, ← hcur, ← hqueue, ← hgiven] at home
  rw [← hqueue] at delay lastUser beyond
  rw [← hqueue, ← hgiven] at log
  rw [← hgiven] at last
  rw [← hqueue, ← hcur] at requested
  rw [← hqueue, ← hfloor] at start
  exact ⟨delay, log, home, last, lastUser, requested, ahead, start, beyond⟩

omit [BEq I] in
/-- The standing of a player whose queue was asked for frames up to the current one. -/
theorem Standing.asked {g' : Standpoint n I} {confirmed : ℤ} {i : Fin n}
    {status : ConnectionStatus} (h : Standing p g confirmed i status) (hfloor : g'.floor = g.floor)
    (hgiven : g'.given i = g.given i) (hsame : SameLog (g.queues i) (g'.queues i))
    (hnull : isNull (g'.queues i).incorrect)
    (hreq : status.disconnected = false → (g'.queues i).requested = g'.cur - 1)
    (hhome : p.locals i = true → (g'.queues i).guess = none ∧ g'.cur ≤ (g.given i).length ∧
      (g.given i).length ≤ g'.cur + 1 ∧
      ((g.given i).length = g'.cur + 1 → g'.cur + 1 ≤ g.floor + maxPredictionFrames)) :
    Standing p g' confirmed i status where
  delay := hsame.delay.trans h.delay
  log := by rw [hsame.log, h.log, hgiven]
  home hi := by
    obtain ⟨hguess, hle, hge, hbarrier⟩ := hhome hi
    rw [hfloor, hgiven]
    exact ⟨(h.home hi).1, hguess, hnull, hle, hge, hbarrier⟩
  last hconn := by rw [hgiven, h.last hconn]
  lastUser hconn := hsame.lastUser.trans (h.lastUser hconn)
  requested := hreq
  ahead := h.ahead
  start hs hconn := by rw [hsame.start, hfloor, h.start hs hconn]
  beyond hmark := absurd hnull hmark

theorem Standing.add {confirmed : ℤ} {i : Fin n} {status : ConnectionStatus}
    (h : Standing p g confirmed i status) (hconn : status.disconnected = false) {x : FrameInput I}
    (hnext : x.frame = (g.given i).length)
    (hhome : p.locals i = true → (g.given i).length = g.cur ∧
      g.cur + 1 ≤ g.floor + maxPredictionFrames) :
    Standing p (g.add i x) confirmed i ⟨false, x.frame⟩ := by
  have hlen := h.length_le
  have hlast := h.last hconn
  have hidle := fun hi => LogQueue.idle_add (h.home hi).2.1 x
  have hqueue : (g.add i x).queues i = (g.queues i).add x := Function.update_self _ _ _
  have hgiven : (g.add i x).given i = g.given i ++ [x.input] := Function.update_self _ _ _
  have hx : x = ⟨(g.given i).length, x.input⟩ := by rw [← hnext]
  constructor
  case delay => rw [hqueue, LogQueue.delay_add, h.delay]
  case log => rw [hqueue, hgiven, hx, LogQueue.log_add_delayed h.log h.delay]
  case home =>
    intro hi
    obtain ⟨-, -, hnull, hle, -, -⟩ := h.home hi
    obtain ⟨hcur, hbarrier⟩ := hhome hi
    rw [hqueue, hgiven, (hidle hi).1, (hidle hi).2, List.length_append, List.length_singleton]
    exact ⟨rfl, rfl, hnull, hle.trans (Nat.le_succ _), (congrArg (· + 1) hcur).le, fun _ => hbarrier⟩
  case last =>
    intro _
    rw [hgiven, hnext]
    simp
  case lastUser =>
    intro _
    rw [hqueue, LogQueue.lastUser_add]
  case requested =>
    intro _
    rw [hqueue, LogQueue.requested_add]
    exact h.requested hconn
  case ahead =>
    intro _ hon
    have := h.ahead hconn hon
    dsimp only
    omega
  case start =>
    intro hs _
    rw [hqueue, LogQueue.start_add]
    exact h.start hs hconn
  case beyond =>
    rw [hqueue]
    intro hmark
    rcases LogQueue.incorrect_add_cases (g.queues i) x with hsame | ⟨hnull, hge⟩
    · rw [hsame] at hmark ⊢
      exact h.beyond hmark
    · cases hi : p.locals i with
      | true =>
        rw [(hidle hi).2] at hmark
        exact absurd hnull hmark
      | false =>
        have := h.ahead hconn ⟨i, hi⟩
        omega

/-- What the client used is known still. -/
theorem Faithful.add [LawfulBEq I] {statuses : Fin n → ConnectionStatus} {v : View I S} {i : Fin n}
    {x : FrameInput I} (h : Faithful g statuses v) (hconn : (statuses i).disconnected = false)
    (haware : (g.queues i).Aware) (hawaits : (g.queues i).Awaits)
    (hreq : (g.queues i).requested = g.cur - 1) :
    Faithful (g.add i x) (Function.update statuses i ⟨false, x.frame⟩) v := by
  have hgone : ∀ j f, Gone (Function.update statuses i ⟨false, x.frame⟩ j) f ↔
      Gone (statuses j) f := by
    intro j f
    by_cases hj : j = i
    · subst hj
      simp [Gone, hconn]
    · rw [Function.update_of_ne hj]
  obtain ⟨logs, hused, hideal⟩ := h
  refine ⟨logs, fun f hf => ?_, fun j f hf hin htrust => ?_⟩
  · rw [hused f hf]
    exact known_congr (fun k => (hgone k f).symm) fun _ _ => rfl
  · rw [hgone] at hin
    have hf' : f < g.cur := hf
    by_cases hj : j = i
    · subst hj
      have hqueue : (g.add j x).queues j = (g.queues j).add x := Function.update_self _ _ _
      rw [hqueue] at htrust ⊢
      obtain ⟨htrust', hsame⟩ := htrust.add haware hawaits (by omega)
      rw [hsame]
      exact hideal j f hf hin htrust'
    · have hqueue : (g.add i x).queues j = g.queues j := Function.update_of_ne hj _ _
      rw [hqueue] at htrust ⊢
      exact hideal j f hf hin htrust

end Add

variable [Build]

/-- The next input of a connected player. -/
theorem Core.addInput (h : Core p g s v) {i : Fin n} {x : FrameInput I}
    (hconn : (s.localConnectStatus i).disconnected = false)
    (hnext : x.frame = (g.given i).length)
    (hhome : p.locals i = true → (g.given i).length = g.cur ∧
      g.cur + 1 ≤ g.floor + maxPredictionFrames)
    (hfits : p.strict → x.frame + p.delay < g.floor + maxRollbackFrames) :
    Ends ((s.inputQueues i).addInput x) (fun r => Core p (g.add i x)
      { s with
        inputQueues := Function.update s.inputQueues i r.2
        localConnectStatus := Function.update s.localConnectStatus i ⟨false, x.frame⟩ } v)
      (Harmless p.strict) := by
  have ht := h.tracks i
  have hst := h.standing i
  have hlast := hst.last hconn
  refine (ht.addInput ((h.floor_le_given hconn).trans hst.length_le) fun hs => ?_).imp fun r hr => ?_
  · rw [hst.start hs hconn, hst.lastUser hconn, hst.delay]
    exact ⟨.inr (by omega), hfits hs⟩
  · refine ⟨h.idle, h.confirmed, h.lowest,
      ⟨h.stands.frameCount, h.stands.lo_le, h.stands.start, h.stands.ring, h.stands.state⟩,
      fun j => ?_, fun j => ?_, fun hx => ?_⟩
    · by_cases hj : j = i
      · subst hj
        simpa [Standpoint.add] using hr
      · simpa [Standpoint.add, hj] using h.tracks j
    · by_cases hj : j = i
      · subst hj
        simpa using hst.add hconn hnext hhome
      · simp only [Function.update_of_ne hj]
        exact (h.standing j).congr rfl rfl (Function.update_of_ne hj _ _)
          (Function.update_of_ne hj _ _)
    · have := hx.2
      exact (h.faithful hx).add hconn ht.aware (ht.awaits hx.1) (hst.requested hconn)

/-- A local player's second input for the same frame changes nothing. -/
theorem Core.addAgain (h : Core p g s v) (hloose : ¬p.strict) {i : Fin n} (hi : p.locals i = true)
    (hlen : (g.given i).length = g.cur + 1) (input : I) :
    Ends ((s.inputQueues i).addInput ⟨g.cur, input⟩) (fun r => Core p g
      { s with
        inputQueues := Function.update s.inputQueues i r.2
        localConnectStatus := Function.update s.localConnectStatus i ⟨false, g.cur⟩ } v)
      (Harmless p.strict) := by
  have hst := h.standing i
  obtain ⟨hconn, -⟩ := hst.home hi
  have hlast := hst.last hconn
  have huser := hst.lastUser hconn
  have hloglen := hst.length_le
  have hlong : ((g.queues i).log.length : ℤ) > g.cur + (g.queues i).delay := by
    have hne : g.given i ≠ [] := by
      rintro hnil
      simp [hnil] at hlen
    rw [hst.log, LogQueue.length_delayed hne, hst.delay, hlen]
    push_cast
    omega
  have hsame : (g.queues i).add ⟨g.cur, input⟩ = g.queues i := by
    rw [LogQueue.add]
    dsimp only
    rw [if_pos hlong, show (g.cur : ℤ) = (g.queues i).lastUser by omega]
  have hstatus : Function.update s.localConnectStatus i ⟨false, g.cur⟩ = s.localConnectStatus := by
    rw [Function.update_eq_self_iff]
    have heq : (s.localConnectStatus i).lastFrame = g.cur := by omega
    rw [← hconn, ← heq]
  refine ((h.tracks i).addInput ((h.floor_le_given hconn).trans hloglen)
    fun hs => absurd hs hloose).imp fun r hr => ?_
  rw [hsame] at hr
  rw [hstatus]
  refine ⟨h.idle, h.confirmed, h.lowest,
    ⟨h.stands.frameCount, h.stands.lo_le, h.stands.start, h.stands.ring, h.stands.state⟩,
    fun j => ?_, h.standing, h.faithful⟩
  by_cases hj : j = i
  · subst hj
    simpa using hr
  · simpa [hj] using h.tracks j

/-- Nothing but what the queues were asked for has changed. -/
structure Standpoint.SameInputs (g g' : Standpoint n I) : Prop where
  floor : g'.floor = g.floor
  given : g'.given = g.given
  queues : ∀ i, SameLog (g.queues i) (g'.queues i)

/-- A rollback within a call, from a frame that is not confirmed on. -/
structure RolledBack (p : Setup n S) (g : Standpoint n I) (s : Sync n I S) (v : View I S) (t : ℕ)
    (r : List (Command I) × Sync n I S) (g' : Standpoint n I) (v' : View I S) : Prop where
  core : Core p g' r.2 v'
  unmarked : g'.Unmarked
  same : g.SameInputs g'
  cur : g'.cur = g.cur
  off : g'.off = Sync.shifted g.off t
  unchanged : Sync.Unchanged s r.2
  issues : Sync.Issues s r.2 r.1 v v'
  rewinds : Sync.Rewinds (S := S) r.1 g.off g.floor g.cur t

/-- A rollback, which in a strict session never goes beyond a wrong frame. -/
theorem Core.rollback (h : Core p g s v) {t : ℕ} (hlo : g.floor ≤ t) (ht : t < g.cur)
    (hmark : p.strict → ∀ i, isNull (g.queues i).incorrect ∨ t ≤ (g.queues i).incorrect)
    (hused : Exact I p.strict → UsesKnown t v g.queues s.localConnectStatus) :
    Ends (s.adjustSimulation t) (fun r => ∃ g' v', RolledBack p g s v t r g' v')
      (Harmless p.strict) := by
  refine (Sync.adjustSimulation_tracks h.stands h.idle (fun hs => (p.fits hs).1) h.tracks hlo ht
    hmark hused).imp ?_
  rintro ⟨commands, s'⟩ ⟨v', as', hun, hiss, hstands, hrew, hres, hknown⟩
  dsimp only at hun hiss hstands hrew hres hknown
  obtain ⟨g', hg'⟩ : ∃ g', g' = { g with off := Sync.shifted g.off t, queues := as' } := ⟨_, rfl⟩
  have hqueues : g'.queues = as' := by rw [hg']
  have hunmarked : g'.Unmarked := fun i => by rw [hqueues]; exact (hres i).unmarked
  have hsame : g.SameInputs g' :=
    ⟨by rw [hg'], by rw [hg'], fun i => by rw [hqueues]; exact (hres i).same⟩
  have hcur : g'.cur = g.cur := by rw [hg']
  have hoff : g'.off = Sync.shifted g.off t := by rw [hg']
  refine ⟨g', v', ⟨?_, ?_, ?_, ?_, ?_, fun i => ?_, fun hx => ?_⟩, hunmarked, hsame, hcur, hoff, hun,
    hiss, hrew⟩
  · rw [hun.rollingBack, h.idle]
  · rw [hun.lastConfirmedFrame, h.confirmed, hsame.floor]
  · rw [hun.lastConfirmedFrame]
    exact h.lowest
  · rw [hoff, hsame.floor, hcur]
    exact hstands
  · intro i
    rw [hsame.floor, hcur, hqueues]
    exact (hres i).tracks
  · rw [hun.lastConfirmedFrame, hun.localConnectStatus]
    have hst := h.standing i
    have hlen := hst.length_le
    refine hst.asked hsame.floor (congrFun hsame.given i) (hsame.queues i) (hunmarked i)
      (fun hconn => ?_) fun hi => ?_
    · rw [hqueues, (hres i).requested, hcur]
      exact askedSince_of_last ht fun hgone => absurd hgone.1 (by simp [hconn])
    · obtain ⟨-, -, -, hle, hge, hbarrier⟩ := hst.home hi
      rw [hqueues, hcur]
      exact ⟨(hres i).guess (hle.trans hlen), hle, hge, hbarrier⟩
  · rw [hun.localConnectStatus]
    refine faithful_of_usesKnown ?_
    rw [hcur, hqueues]
    exact hknown hx

/-- What a check of the simulation comes to: nothing, or a rollback to the first wrong frame. -/
theorem Core.checkSimulation (h : Core p g s v) :
    Ends s.checkSimulation (fun r => (r = ([], s) ∧ g.Unmarked) ∨
      ∃ (t : ℕ) (g' : Standpoint n I) (v' : View I S), s.lastConfirmedFrame < t ∧ t < g.cur ∧
        RolledBack p g s v t r g' v')
      (Harmless p.strict) := by
  have hmarks : ∀ i, (s.inputQueues i).firstIncorrectFrame = (g.queues i).incorrect :=
    fun i => (h.tracks i).follows.incorrect
  unfold Sync.checkSimulation
  split
  · next t hsome =>
    unfold Sync.checkSimulationConsistency at hsome
    obtain ⟨hmem, hleast⟩ := List.min?_eq_some_iff.mp hsome
    simp only [hmarks, List.mem_filter, List.mem_map, List.mem_finRange, true_and,
      decide_eq_true_eq] at hmem hleast
    obtain ⟨⟨i, hi⟩, hnull⟩ := hmem
    have hmark : ¬isNull (g.queues i).incorrect := by rwa [hi]
    have hbeyond := (h.standing i).beyond hmark
    have hfloor := (h.tracks i).marked hmark
    obtain ⟨hasked, -⟩ := (h.tracks i).aware.marked hmark
    have hbehind := (h.tracks i).behind
    have hlow : ∀ j, isNull (g.queues j).incorrect ∨ t ≤ (g.queues j).incorrect := by
      intro j
      by_cases hj : isNull (g.queues j).incorrect
      · exact .inl hj
      · exact .inr (hleast _ ⟨⟨j, rfl⟩, hj⟩)
    obtain ⟨f, rfl⟩ : ∃ f : ℕ, t = f := ⟨t.toNat, by simp only [isNull] at hnull; omega⟩
    refine (h.rollback (t := f) (by omega) (by omega) (fun _ => hlow)
      (h.usesKnown (by omega) fun j f' hf' => ?_)).imp fun r hr => .inr ?_
    · rcases hlow j with hj | hj
      · exact .inl hj
      · exact .inr (by omega)
    · obtain ⟨g', v', hr⟩ := hr
      exact ⟨f, g', v', by omega, by omega, hr⟩
  · next hnone =>
    refine .inl ⟨rfl, fun i => ?_⟩
    by_contra hmark
    unfold Sync.checkSimulationConsistency at hnone
    rw [List.min?_eq_none_iff, List.filter_eq_nil_iff] at hnone
    refine hnone (g.queues i).incorrect (List.mem_map.mpr ⟨i, List.mem_finRange i, hmarks i⟩) ?_
    simpa using hmark

/-- One frame forward. -/
structure Advanced (p : Setup n S) (g : Standpoint n I) (s : Sync n I S) (v : View I S)
    (r : List (Command I) × Sync n I S) (g' : Standpoint n I) (v' : View I S) : Prop where
  core : Core p g' r.2 v'
  unmarked : g'.Unmarked
  same : g.SameInputs g'
  cur : g'.cur = g.cur + 1
  off : g'.off = g.off
  unchanged : Sync.Unchanged s r.2
  issues : Sync.Issues s r.2 r.1 v v'
  forwards : Sync.Forwards (S := S) r.1 g.cur

/-- A frame for which every local player has given its input. -/
theorem Core.incrementFrame (h : Core p g s v) (hu : g.Unmarked)
    (hready : ∀ i, p.locals i = true → (g.given i).length = g.cur + 1) :
    Ends s.incrementFrame (fun r => ∃ g' v', Advanced p g s v r g' v') (Harmless p.strict) := by
  obtain ⟨i₀, hi₀⟩ := p.someone
  obtain ⟨-, -, -, -, -, hbarrier⟩ := (h.standing i₀).home hi₀
  refine (Sync.incrementFrame_tracks h.stands (hbarrier (hready i₀ hi₀)) (fun hs => (p.fits hs).1)
    h.tracks hu (h.usesKnown le_rfl fun i f _ => .inl (hu i))).imp ?_
  rintro ⟨commands, s'⟩ ⟨v', as', hun, hiss, hstands, hforw, hres, -, hknown⟩
  dsimp only at hun hiss hstands hforw hres hknown
  obtain ⟨g', hg'⟩ : ∃ g', g' = { g with cur := g.cur + 1, queues := as' } := ⟨_, rfl⟩
  have hqueues : g'.queues = as' := by rw [hg']
  have hunmarked : g'.Unmarked := fun i => by rw [hqueues]; exact (hres i).2.2.1
  have hsame : g.SameInputs g' :=
    ⟨by rw [hg'], by rw [hg'], fun i => by rw [hqueues]; exact (hres i).2.1⟩
  have hcur : g'.cur = g.cur + 1 := by rw [hg']
  have hoff : g'.off = g.off := by rw [hg']
  refine ⟨g', v', ⟨?_, ?_, ?_, ?_, ?_, fun i => ?_, fun hx => ?_⟩, hunmarked, hsame, hcur, hoff, hun,
    hiss, hforw⟩
  · rw [hun.rollingBack, h.idle]
  · rw [hun.lastConfirmedFrame, h.confirmed, hsame.floor]
  · rw [hun.lastConfirmedFrame]
    exact h.lowest
  · rw [hoff, hsame.floor, hcur]
    exact hstands
  · intro i
    rw [hsame.floor, hcur, hqueues]
    exact (hres i).1
  · rw [hun.lastConfirmedFrame, hun.localConnectStatus]
    have hst := h.standing i
    have hlen := hst.length_le
    obtain ⟨-, -, -, hreq, hguess⟩ := hres i
    refine hst.asked hsame.floor (congrFun hsame.given i) (hsame.queues i) (hunmarked i)
      (fun hconn => ?_) fun hi => ?_
    · rw [hqueues, hreq, if_neg fun hgone => absurd hgone.1 (by simp [hconn]), hcur]
      push_cast
      ring
    · have hlocal := hready i hi
      rw [hqueues, hcur, hguess (by omega), (hst.home hi).2.1]
      exact ⟨rfl, by omega, by omega, fun h => by omega⟩
  · rw [hun.localConnectStatus]
    refine faithful_of_usesKnown ?_
    rw [hcur, hqueues]
    exact hknown hx

/-- A confirmation. -/
structure Confirmed (p : Setup n S) (g : Standpoint n I) (s : Sync n I S) (v : View I S) (frame : ℕ)
    (s' : Sync n I S) (g' : Standpoint n I) : Prop where
  core : Core p g' s' v
  unmarked : g'.Unmarked
  floor : g'.floor = frame
  cur : g'.cur = g.cur
  off : g'.off = g.off
  given : g'.given = g.given
  log : ∀ i, (g'.queues i).log = (g.queues i).log
  changed : s' = { s with lastConfirmedFrame := frame, inputQueues := s'.inputQueues }

/-- What the queues make of a confirmation. -/
theorem Core.discard (h : Core p g s v) (hu : g.Unmarked) {frame : ℕ} (hpos : 0 < frame)
    (hfloor : g.floor ≤ frame)
    (hin : p.strict → ∀ i, (s.localConnectStatus i).disconnected = false) (hcur : frame ≤ g.cur)
    (hlog : p.strict → ∀ i, frame ≤ (g.queues i).log.length) :
    Ends (Sync.mapQueues (·.discardConfirmedFrames (frame - 1 : ℕ)) s.inputQueues) (fun queues =>
      ∀ i, ∃ start, Tracks p.strict frame g.cur (queues i) { g.queues i with start := start } ∧
        (p.strict → start = frame)) (Harmless p.strict) := by
  refine Sync.mapQueues_ends (Q := fun i q => ∃ start,
    Tracks p.strict frame g.cur q { g.queues i with start := start } ∧
      (p.strict → start = frame)) fun i => ?_
  have hst := h.standing i
  refine ((h.tracks i).discardConfirmedFrames (by omega) (hu i) fun hs hnull => ?_).imp ?_
  · have := hst.requested (hin hs i)
    omega
  · rintro q ⟨start, htracks, hstart⟩
    rw [Nat.sub_add_cancel hpos] at htracks hstart
    refine ⟨start, htracks, fun hs => ?_⟩
    have hreq := hst.requested (hin hs i)
    rw [hstart hs (by simp only [isNull]; omega)]
    exact min_eq_left (hlog hs i)

omit [Build] in
/-- A confirmation leaves of the queues all but what they have discarded. -/
theorem Core.confirmed_of (h : Core p g s v) (hu : g.Unmarked) {frame : ℕ}
    (hfloor : g.floor ≤ frame) (hcur : frame ≤ g.cur)
    (hleast : p.Online → ∀ i, (s.localConnectStatus i).disconnected = false →
      frame ≤ (s.localConnectStatus i).lastFrame) {queues : Fin n → InputQueue I}
    (hq : ∀ i, ∃ start, Tracks p.strict frame g.cur (queues i) { g.queues i with start := start } ∧
      (p.strict → start = frame)) :
    ∃ g', Confirmed p g s v frame
      { s with lastConfirmedFrame := frame, inputQueues := queues } g' := by
  choose starts htracks hstarts using hq
  obtain ⟨g', hg'⟩ : ∃ g' : Standpoint n I, g' = { g with
    floor := frame
    queues := fun i => { g.queues i with start := starts i } } := ⟨_, rfl⟩
  have hqueues : ∀ i, g'.queues i = { g.queues i with start := starts i } := fun i => by rw [hg']
  have hgiven : g'.given = g.given := by rw [hg']
  have hfloor' : g'.floor = frame := by rw [hg']
  have hcur' : g'.cur = g.cur := by rw [hg']
  have hoff : g'.off = g.off := by rw [hg']
  have hunmarked : g'.Unmarked := fun i => by rw [hqueues]; exact hu i
  refine ⟨g', ⟨h.idle, ?_, ?_, ?_, fun i => ?_, fun i => ?_, fun hx => ?_⟩, hunmarked, hfloor', hcur',
    hoff, hgiven, fun i => by rw [hqueues], rfl⟩
  · rw [hfloor']
    exact Int.toNat_natCast frame
  · show (-1 : ℤ) ≤ frame
    omega
  · rw [hfloor', hcur', hoff]
    exact ⟨h.stands.frameCount, hcur, h.stands.start,
      fun h0 => (h.stands.ring h0).raise hfloor hcur, h.stands.state⟩
  · rw [hfloor', hcur', hqueues]
    exact htracks i
  · have hst := h.standing i
    constructor
    case delay => rw [hqueues]; exact hst.delay
    case log => rw [hqueues, hgiven]; exact hst.log
    case home =>
      intro hi
      obtain ⟨hin, hguess, hnull, hle, hge, hbarrier⟩ := hst.home hi
      rw [hqueues, hgiven, hfloor', hcur']
      exact ⟨hin, hguess, hnull, hle, hge, fun hlen =>
        (hbarrier hlen).trans (Nat.add_le_add_right hfloor _)⟩
    case last => rw [hgiven]; exact hst.last
    case lastUser => rw [hqueues]; exact hst.lastUser
    case requested => rw [hqueues, hcur']; exact hst.requested
    case ahead => exact fun hconn hon => hleast hon i hconn
    case start => rw [hqueues, hfloor']; exact fun hs _ => hstarts i hs
    case beyond => exact fun hmark => absurd (hunmarked i) hmark
  · refine faithful_of_usesKnown fun f hf => ?_
    rw [hcur'] at hf
    simp only [hqueues]
    exact h.usesKnown le_rfl (fun i f _ => .inl (hu i)) hx f hf

theorem Core.setLastConfirmedFrame (h : Core p g s v) (hu : g.Unmarked) {frame : ℕ}
    (hlow : s.lastConfirmedFrame ≤ frame) (hcur : frame ≤ g.cur)
    (hin : p.strict → ∀ i, (s.localConnectStatus i).disconnected = false)
    (hleast : p.Online → ∀ i, (s.localConnectStatus i).disconnected = false →
      frame ≤ (s.localConnectStatus i).lastFrame) :
    Ends (s.setLastConfirmedFrame frame) (fun s' => ∃ g', Confirmed p g s v frame s' g')
      (Harmless p.strict) := by
  have hconf := h.confirmed
  have hfloor : g.floor ≤ frame := by omega
  have hlog : p.strict → ∀ i, frame ≤ (g.queues i).log.length := by
    intro hs i
    have hst := h.standing i
    have hlen := hst.length_le
    by_cases hon : p.Online
    · have := hleast hon i (hin hs i)
      have := hst.last (hin hs i)
      omega
    · have hi : p.locals i = true := by
        by_contra hi
        exact hon ⟨i, by simpa using hi⟩
      obtain ⟨-, -, -, hle, -⟩ := hst.home hi
      omega
  unfold Sync.setLastConfirmedFrame
  dsimp only
  split
  · next hpos =>
    have hcast : (frame : ℤ) - 1 = (frame - 1 : ℕ) := by omega
    rw [hcast]
    exact (h.discard hu (by omega) hfloor hin hcur hlog).bind fun queues hq =>
      h.confirmed_of hu hfloor hcur hleast hq
  · next hzero =>
    obtain rfl : frame = 0 := by omega
    refine h.confirmed_of hu hfloor hcur hleast fun i => ⟨(g.queues i).start, ?_, fun hs => ?_⟩
    · have := h.tracks i
      rwa [show g.floor = 0 by omega] at this
    · have := (h.tracks i).start
      omega

end Backroll

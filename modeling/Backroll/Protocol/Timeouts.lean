import Backroll.Protocol.Notices

/-! The timeouts that the builder of a session is given, and the silences after which the peers of
the session are interrupted and disconnected. -/
namespace Backroll

open Fallible (Ends)

/-- `DEFAULT_DISCONNECT_TIMEOUT`, in nanoseconds. -/
abbrev defaultDisconnectTimeout : ℕ := 5000 * 10 ^ 6

/-- `DEFAULT_DISCONNECT_NOTIFY_START`, in nanoseconds. -/
abbrev defaultDisconnectNotifyStart : ℕ := 750 * 10 ^ 6

/-- `P2PSessionBuilder`, less the players and the frame delay. -/
structure P2PSessionBuilder where
  disconnectTimeout : ℕ := defaultDisconnectTimeout
  disconnectNotifyStart : ℕ := defaultDisconnectNotifyStart

/-- A call of a setter of the builder. -/
inductive TimeoutSetting
  | disconnectTimeout (timeout : ℕ)
  | disconnectNotifyStart (timeout : ℕ)

namespace P2PSessionBuilder

def withDisconnectTimeout (b : P2PSessionBuilder) (timeout : ℕ) : P2PSessionBuilder :=
  { b with disconnectTimeout := timeout }

/-- `with_disconnect_notify_start`, which sets the timeout. -/
def withDisconnectNotifyStart (b : P2PSessionBuilder) (timeout : ℕ) : P2PSessionBuilder :=
  { b with disconnectTimeout := timeout }

def set (b : P2PSessionBuilder) : TimeoutSetting → P2PSessionBuilder
  | .disconnectTimeout timeout => b.withDisconnectTimeout timeout
  | .disconnectNotifyStart timeout => b.withDisconnectNotifyStart timeout

/-- The builder after these calls. -/
def configured (settings : List TimeoutSetting) : P2PSessionBuilder := settings.foldl set {}

def makePeer (b : P2PSessionBuilder) : PeerConfig := ⟨b.disconnectTimeout, b.disconnectNotifyStart⟩

theorem configured_disconnectNotifyStart (settings : List TimeoutSetting) :
    (configured settings).disconnectNotifyStart = defaultDisconnectNotifyStart := by
  have hkeep : ∀ b : P2PSessionBuilder,
      (settings.foldl set b).disconnectNotifyStart = b.disconnectNotifyStart := by
    induction settings with
    | nil => exact fun b => rfl
    | cons setting settings ih =>
      intro b
      rw [List.foldl_cons, ih]
      cases setting <;> rfl
  exact hkeep {}

end P2PSessionBuilder

namespace TimeoutSetting

/-- The value of the call, whichever setter is called. -/
def value : TimeoutSetting → ℕ
  | disconnectTimeout timeout | disconnectNotifyStart timeout => timeout

/-- The disconnect timeout asked for: the last one given, or the default. -/
def timeout (settings : List TimeoutSetting) : ℕ :=
  (settings.filterMap fun
    | disconnectTimeout timeout => some timeout
    | disconnectNotifyStart _ => none).getLast?.getD defaultDisconnectTimeout

/-- The start of the notices asked for: the last one given, or the default. -/
def notifyStart (settings : List TimeoutSetting) : ℕ :=
  (settings.filterMap fun
    | disconnectTimeout _ => none
    | disconnectNotifyStart timeout => some timeout).getLast?.getD defaultDisconnectNotifyStart

/-- The value of the last call of either setter, or the default timeout. -/
def lastValue (settings : List TimeoutSetting) : ℕ :=
  (settings.getLast?.map value).getD defaultDisconnectTimeout

end TimeoutSetting

theorem P2PSessionBuilder.configured_disconnectTimeout (settings : List TimeoutSetting) :
    (configured settings).disconnectTimeout = TimeoutSetting.lastValue settings := by
  rcases List.eq_nil_or_concat' settings with rfl | ⟨settings, setting, rfl⟩
  · rfl
  · simp only [configured, List.foldl_append, List.foldl_cons, List.foldl_nil, TimeoutSetting.lastValue,
      List.getLast?_concat, Option.map_some, Option.getD_some]
    cases setting <;> rfl

namespace Endpoint

variable {I : Type} [Build] [Varinteger] [Pod I]

/-- The message is handled without an error, which is what counts as having heard of the remote. -/
def hears (e : Endpoint I) (now : ℕ) (message : Message) : Bool :=
  match e.peer.handleMessage now message with
  | .ok (.ok (), _) => true
  | _ => false

/-- A peer of a session with this configuration at work, at the readings of a clock that does not go
back, with the last reading and the one at which it last heard of the remote. In between, the
session and the tasks that only send use the peer. -/
inductive Schedule (config : PeerConfig) : Endpoint I → ℕ → ℕ → Prop
  | start (random statuses magic now) (hnow : now < 2 ^ 63) : Schedule config
    { peer := .new random statuses, config := config, magic := magic, lastRecvTime := now } now now
  | handle {e clock heard} (hrun : Schedule config e clock heard) (now message rest e')
    (hclock : clock ≤ now) (hnow : now < 2 ^ 63) (hlive : e.ended = false)
    (hqueue : e.peer.messageIn.queue = message :: rest) (h : e.handle now = .ok e') :
    Schedule config e' now (if e.dropMessage.hears now message then now else heard)
  | tick {e clock heard} (hrun : Schedule config e clock heard) (now e')
    (hclock : clock ≤ now) (hnow : now < 2 ^ 63) (hlive : e.ended = false) (h : e.tick now = .ok e') :
    Schedule config e' now heard
  | receive {e clock heard} (hrun : Schedule config e clock heard) (message : Message) :
    Schedule config (e.deserializeIncoming message) clock heard
  | share {e clock heard} (hrun : Schedule config e clock heard) (p : Peer I)
    (h : p.state = e.peer.state ∧ p.events.closed = e.peer.events.closed ∨
      p.state = .disconnected ∧ p.events.closed = true) :
    Schedule config { e with peer := p } clock heard

/-- What a tick may do at this time when it is to notify after more than the one time of silence and
to disconnect after more than the other. -/
structure Patient (notifyStart timeout heard now : ℕ) (e : Endpoint I) : Prop where
  remaining : e.isSilent now = .ok true → e.config.disconnectNotifyStart ≤ e.config.disconnectTimeout
  interrupts : ∀ e', e.notice now = .ok e' →
    .interrupted ∈ reported e e' ∨ e'.peer.state ≠ e.peer.state → notifyStart < (now - heard) * 10 ^ 6
  disconnects : ∀ e', e.tick now = .ok e' → e.peer.state ≠ .disconnected →
    e'.peer.state = .disconnected → timeout < (now - heard) * 10 ^ 6

end Endpoint

namespace TimeoutSetting

/-- The last value that either setter was given is a timeout of at least 750 milliseconds, neither
the notice nor the end is asked for later than it comes, and the timeout fits into a `u64`. -/
structure Consistent [Build] (settings : List TimeoutSetting) : Prop where
  remaining : defaultDisconnectNotifyStart ≤ lastValue settings
  notifies : notifyStart settings < defaultDisconnectNotifyStart + 10 ^ 6
  expires : lastValue settings / 10 ^ 6 % 2 ^ 64 + 1 < 2 ^ 63 →
    timeout settings < (lastValue settings / 10 ^ 6 % 2 ^ 64 + 1) * 10 ^ 6
  fits : Build.debugAssertions = false → lastValue settings / 10 ^ 6 % 2 ^ 64 ≤ 2 ^ 63

end TimeoutSetting

namespace Endpoint

section Ticks

variable {I : Type} [Build]

theorem isPast_eq {time duration now : ℕ} (h : time + duration / 10 ^ 6 % 2 ^ 64 < 2 ^ 64) :
    Peer.isPast time duration now = .ok (time + duration / 10 ^ 6 % 2 ^ 64 < now) := by
  unfold Peer.isPast Peer.millisAfter
  rw [if_neg fun hmore => absurd hmore.2 (not_le.mpr h), Nat.mod_eq_of_lt h]
  rfl

theorem lt_of_isPast {time duration now : ℕ} (h : Peer.isPast time duration now = .ok true)
    (hfits : Build.debugAssertions = false → time + duration / 10 ^ 6 % 2 ^ 64 < 2 ^ 64) :
    time + duration / 10 ^ 6 % 2 ^ 64 < now := by
  have hless : time + duration / 10 ^ 6 % 2 ^ 64 < 2 ^ 64 := by
    by_contra hmore
    cases hbuild : Build.debugAssertions with
    | false => exact hmore (hfits hbuild)
    | true =>
      unfold Peer.isPast Peer.millisAfter at h
      rw [if_pos ⟨hbuild, not_lt.mp hmore⟩] at h
      simp at h
  rw [isPast_eq hless] at h
  simpa using h

theorem isPast_of_isSilent {e : Endpoint I} {now : ℕ} (h : e.isSilent now = .ok true) :
    Peer.isPast e.lastRecvTime e.config.disconnectNotifyStart now = .ok true := by
  unfold isSilent at h
  split at h
  · simp at h
  · exact h

omit [Build] in
theorem orEnd_config (e : Endpoint I) (result : Except PeerError Unit × Peer I) :
    (e.orEnd result).config = e.config := by
  unfold orEnd
  split <;> rfl

theorem expire_cases {e e' : Endpoint I} {now : ℕ} (h : e.expire now = .ok e') :
    (Peer.isPast e.lastRecvTime e.config.disconnectTimeout now = .ok true ∧
      e' = { e with peer := e.peer.disconnect, ended := true }) ∨ ∃ r, e.peer.poll now = .ok r ∧
        e' = e.orEnd r := by
  obtain ⟨late, hlate, h⟩ := Fallible.bind_eq_ok.mp h
  split at h
  · next htrue =>
    rw [htrue] at hlate
    exact .inl ⟨hlate, (Except.ok.inj h).symm⟩
  · obtain ⟨r, hr, h⟩ := Fallible.bind_eq_ok.mp h
    exact .inr ⟨r, hr, (Except.ok.inj h).symm⟩

theorem tick_cases {e e' : Endpoint I} {now : ℕ} (hlive : e.ended = false) (h : e.tick now = .ok e') :
    ∃ e₁, e.notice now = .ok e₁ ∧
      (e₁.ended = true ∧ e' = e₁ ∨ e₁.ended = false ∧ e₁.expire now = .ok e') := by
  rw [tick, hlive, if_neg (by simp)] at h
  obtain ⟨e₁, hnotice, h⟩ := Fallible.bind_eq_ok.mp h
  refine ⟨e₁, hnotice, ?_⟩
  split at h
  · next hended => exact .inl ⟨hended, (Except.ok.inj h).symm⟩
  · next hended => exact .inr ⟨by simpa using hended, h⟩

/-- A tick that finds the timeout over disconnects the peer. -/
theorem tick_disconnects {e : Endpoint I} {now : ℕ} {silent : Bool} (hlive : e.ended = false)
    (hopen : e.peer.events.closed = false) (hsilent : e.isSilent now = .ok silent)
    (hless : e.config.disconnectNotifyStart ≤ e.config.disconnectTimeout)
    (hover : Peer.isPast e.lastRecvTime e.config.disconnectTimeout now = .ok true) :
    ∃ e', e.tick now = .ok e' ∧ e'.peer.state = .disconnected := by
  obtain ⟨e₁, hnotice, hended, hlast, hconfig⟩ : ∃ e₁, e.notice now = .ok e₁ ∧ e₁.ended = false ∧
      e₁.lastRecvTime = e.lastRecvTime ∧ e₁.config = e.config := by
    cases silent with
    | false => exact ⟨e, by simp [notice, hsilent], hlive, rfl, rfl⟩
    | true =>
      refine ⟨_, by simp only [notice, hsilent, Fallible.ok_bind, not_true_eq_false, if_false,
        if_neg (not_lt.mpr hless)]; rfl, ?_, orEnd_lastRecvTime e _, orEnd_config e _⟩
      rw [Peer.pushEvent_open (by exact hopen)]
      exact hlive
  refine ⟨{ e₁ with peer := e₁.peer.disconnect, ended := true }, ?_, rfl⟩
  simp [tick, hlive, hnotice, hended, expire, hlast, hconfig, hover]

end Ticks

variable {I : Type} [Build] [Varinteger] [Pod I]

theorem takeUp_lastRecvTime {e e' : Endpoint I} {now : ℕ} {message : Message}
    (h : e.takeUp now message = .ok e') : e'.config = e.config ∧
      e'.lastRecvTime = if e.hears now message then now else e.lastRecvTime := by
  unfold takeUp at h
  obtain ⟨⟨result, p⟩, hhandled, h⟩ := Fallible.bind_eq_ok.mp h
  rw [hears, hhandled]
  cases result with
  | error err =>
    cases err <;> obtain rfl := Except.ok.inj h <;> exact ⟨rfl, rfl⟩
  | ok done =>
    dsimp only at h
    split at h
    · obtain rfl := Except.ok.inj h
      exact ⟨orEnd_config _ _, orEnd_lastRecvTime _ _⟩
    · obtain rfl := Except.ok.inj h
      exact ⟨rfl, rfl⟩

/-- What holds of the peer throughout. -/
structure OnTime (config : PeerConfig) (e : Endpoint I) (clock heard : ℕ) : Prop where
  configured : e.config = config
  hearing : e.lastRecvTime = heard
  past : heard ≤ clock
  reading : clock < 2 ^ 63

theorem schedule_onTime {config : PeerConfig} {e : Endpoint I} {clock heard : ℕ}
    (hrun : Schedule config e clock heard) : OnTime config e clock heard := by
  induction hrun with
  | start random statuses magic now hnow => exact ⟨rfl, rfl, le_rfl, hnow⟩
  | @handle e clock heard hrun now message rest e' hclock hnow hlive hqueue h ih =>
    rw [handle_eq_takeUp hlive hqueue] at h
    obtain ⟨hconfig, hlast⟩ := takeUp_lastRecvTime h
    refine ⟨hconfig.trans ih.configured, ?_, ?_, hnow⟩
    · rw [hlast, ← ih.hearing]
      rfl
    · split
      · exact le_rfl
      · exact ih.past.trans hclock
  | @tick e clock heard hrun now e' hclock hnow hlive h ih =>
    obtain ⟨e₁, hnotice, hrest⟩ := tick_cases hlive h
    have hfirst : e₁.config = e.config ∧ e₁.lastRecvTime = e.lastRecvTime := by
      rcases notice_cases hnotice with ⟨-, rfl⟩ | ⟨-, -, -, rfl⟩
      · exact ⟨rfl, rfl⟩
      · exact ⟨orEnd_config _ _, orEnd_lastRecvTime _ _⟩
    have hsecond : e'.config = e₁.config ∧ e'.lastRecvTime = e₁.lastRecvTime := by
      rcases hrest with ⟨-, rfl⟩ | ⟨-, hexpire⟩
      · exact ⟨rfl, rfl⟩
      · rcases expire_cases hexpire with ⟨-, rfl⟩ | ⟨r, -, rfl⟩
        · exact ⟨rfl, rfl⟩
        · exact ⟨orEnd_config _ _, orEnd_lastRecvTime _ _⟩
    exact ⟨hsecond.1.trans (hfirst.1.trans ih.configured), hsecond.2.trans (hfirst.2.trans ih.hearing),
      ih.past.trans hclock, hnow⟩
  | @receive e clock heard hrun message ih =>
    have hsame : (e.deserializeIncoming message).config = e.config := by
      unfold deserializeIncoming
      split
      · split <;> rfl
      · rfl
    exact ⟨hsame.trans ih.configured, (deserializeIncoming_untouched e message).lastRecvTime.trans ih.hearing,
      ih.past, ih.reading⟩
  | @share e clock heard hrun p h ih => exact ⟨ih.configured, ih.hearing, ih.past, ih.reading⟩

omit [Varinteger] [Pod I] in
theorem onTime_patient {settings : List TimeoutSetting} (hset : TimeoutSetting.Consistent settings)
    {e : Endpoint I} {clock heard now : ℕ}
    (h : OnTime (P2PSessionBuilder.configured settings).makePeer e clock heard) (hlive : e.ended = false)
    (hclock : clock ≤ now) (hnow : now < 2 ^ 63) :
    Patient (TimeoutSetting.notifyStart settings) (TimeoutSetting.timeout settings) heard now e := by
  have hnotifyStart : e.config.disconnectNotifyStart = defaultDisconnectNotifyStart := by
    rw [h.configured]
    exact P2PSessionBuilder.configured_disconnectNotifyStart settings
  have htimeout : e.config.disconnectTimeout = TimeoutSetting.lastValue settings := by
    rw [h.configured]
    exact P2PSessionBuilder.configured_disconnectTimeout settings
  have hpast := h.past
  refine ⟨fun _ => ?_, fun e' hnotice htold => ?_, fun e' htick hbefore hafter => ?_⟩
  · rw [hnotifyStart, htimeout]
    exact hset.remaining
  · rcases notice_cases hnotice with ⟨-, rfl⟩ | ⟨hsilent, -, -, -⟩
    · simp [reported] at htold
    · have hlate := isPast_of_isSilent hsilent
      rw [hnotifyStart, h.hearing] at hlate
      have hlate := lt_of_isPast hlate fun _ => by norm_num; omega
      have hnotifies := hset.notifies
      norm_num at hlate hnotifies ⊢
      omega
  · obtain ⟨e₁, hnotice, hrest⟩ := tick_cases hlive htick
    have hfirst : e₁.config = e.config ∧ e₁.lastRecvTime = e.lastRecvTime ∧
        e₁.peer.state ≠ .disconnected := by
      rcases notice_cases hnotice with ⟨-, rfl⟩ | ⟨-, -, -, rfl⟩
      · exact ⟨rfl, rfl, hbefore⟩
      · refine ⟨orEnd_config _ _, orEnd_lastRecvTime _ _, ?_⟩
        rw [orEnd_peer, Peer.pushEvent_state]
        cases hstate : e.peer.state <;> simp_all [PeerState.interrupt]
    rcases hrest with ⟨-, rfl⟩ | ⟨-, hexpire⟩
    · exact absurd hafter hfirst.2.2
    · rcases expire_cases hexpire with ⟨hlate, -⟩ | ⟨r, hr, rfl⟩
      · rw [hfirst.1, hfirst.2.1, htimeout, h.hearing] at hlate
        have hlate := lt_of_isPast hlate fun hbuild => by
          have := hset.fits hbuild
          omega
        have hexpires := hset.expires (by omega)
        calc TimeoutSetting.timeout settings
            < (TimeoutSetting.lastValue settings / 10 ^ 6 % 2 ^ 64 + 1) * 10 ^ 6 := hexpires
          _ ≤ (now - heard) * 10 ^ 6 := Nat.mul_le_mul_right _ (by omega)
      · rw [orEnd_peer, ((poll_queues e₁.peer now).ok hr).2] at hafter
        exact absurd hafter hfirst.2.2

/-- A peer of the session that has just started to connect. -/
def fresh (settings : List TimeoutSetting) (now : ℕ) : Endpoint I where
  peer := .new 0 []
  config := (P2PSessionBuilder.configured settings).makePeer
  magic := 0
  lastRecvTime := now

omit [Varinteger] in
theorem fresh_isSilent (settings : List TimeoutSetting) {time : ℕ} (htime : time < 2 ^ 63) (now : ℕ) :
    (fresh settings time : Endpoint I).isSilent now = .ok (time + 750 < now) := by
  have hnotifyStart : (fresh settings time : Endpoint I).config.disconnectNotifyStart =
      defaultDisconnectNotifyStart := P2PSessionBuilder.configured_disconnectNotifyStart settings
  rw [isSilent, if_neg (by simp [fresh, Peer.new, PeerState.isInterrupted]), hnotifyStart,
    isPast_eq (by norm_num [fresh]; omega)]
  norm_num [fresh]

/-- The peers of a session keep to the timeouts asked of its builder, at every schedule, just when
the calls of the setters are consistent. -/
theorem configured_patient_iff (settings : List TimeoutSetting) :
    (∀ (e : Endpoint I) (clock heard now : ℕ),
      Schedule (P2PSessionBuilder.configured settings).makePeer e clock heard → e.ended = false →
      clock ≤ now → now < 2 ^ 63 →
      Patient (TimeoutSetting.notifyStart settings) (TimeoutSetting.timeout settings) heard now e) ↔
    TimeoutSetting.Consistent settings := by
  constructor
  · intro h
    have hfresh : ∀ time now, time ≤ now → now < 2 ^ 63 → Patient (TimeoutSetting.notifyStart settings)
        (TimeoutSetting.timeout settings) time now (fresh settings time : Endpoint I) :=
      fun time now hle hnow =>
        h _ _ _ _ (.start 0 [] 0 time (lt_of_le_of_lt hle hnow)) rfl hle hnow
    have hnotifyStart : (fresh settings 0 : Endpoint I).config.disconnectNotifyStart =
        defaultDisconnectNotifyStart := P2PSessionBuilder.configured_disconnectNotifyStart settings
    have htimeout : ∀ time, (fresh settings time : Endpoint I).config.disconnectTimeout =
        TimeoutSetting.lastValue settings :=
      fun _ => P2PSessionBuilder.configured_disconnectTimeout settings
    have hremaining : defaultDisconnectNotifyStart ≤ TimeoutSetting.lastValue settings := by
      rw [← htimeout 0, ← hnotifyStart]
      exact (hfresh 0 751 (by omega) (by omega)).remaining (fresh_isSilent settings (by omega) 751)
    have hless : ∀ time, (fresh settings time : Endpoint I).config.disconnectNotifyStart ≤
        (fresh settings time : Endpoint I).config.disconnectTimeout := fun time => by
      rw [htimeout]
      exact (P2PSessionBuilder.configured_disconnectNotifyStart settings).trans_le hremaining
    have hover : ∀ time now, time ≤ now → now < 2 ^ 63 →
        Peer.isPast time (TimeoutSetting.lastValue settings) now = .ok true →
        TimeoutSetting.timeout settings < (now - time) * 10 ^ 6 := by
      intro time now hle hnow hpast
      obtain ⟨e', htick, hstate⟩ := tick_disconnects (e := (fresh settings time : Endpoint I)) rfl rfl
        (fresh_isSilent settings (by omega) now) (hless time) (by rw [htimeout]; exact hpast)
      exact (hfresh time now hle hnow).disconnects e' htick (by simp [fresh, Peer.new]) hstate
    refine ⟨hremaining, ?_, fun hfits => ?_, fun hbuild => ?_⟩
    · have hnotify := hfresh 0 751 (by omega) (by omega)
      have hsilent := fresh_isSilent (I := I) settings (Nat.two_pow_pos 63) 751
      have hnotified := hnotify.interrupts _ (by
        simp only [notice, hsilent, Fallible.ok_bind]
        rw [if_neg (by simp), if_neg (not_lt.mpr (hless 0))]
        rfl) (.inl ?_)
      · norm_num at hnotified ⊢
        omega
      · rw [Peer.pushEvent_open rfl]
        exact List.mem_singleton.mpr rfl
    · have hlate := hover 0 (TimeoutSetting.lastValue settings / 10 ^ 6 % 2 ^ 64 + 1) (by omega) hfits (by
        rw [isPast_eq (by omega)]
        simp)
      simpa using hlate
    · by_contra hmore
      have hlate := hover (2 ^ 63 - 1) (2 ^ 63 - 1) le_rfl (by omega) (by
        unfold Peer.isPast Peer.millisAfter
        rw [if_neg (by simp [hbuild])]
        refine congrArg Except.ok (decide_eq_true ?_)
        have : TimeoutSetting.lastValue settings / 10 ^ 6 % 2 ^ 64 < 2 ^ 64 := Nat.mod_lt _ (by norm_num)
        omega)
      simp at hlate
  · exact fun hset e clock heard now hrun hlive hclock hnow =>
      onTime_patient hset (schedule_onTime hrun) hlive hclock hnow

omit [Build] [Varinteger] in
/-- A session asked for notices after one second: its peers are interrupted after three quarters of
a second, and disconnected after one second instead of five. -/
theorem not_patient_notifyStart :
    letI : Build := ⟨true⟩
    letI := Varinteger.leb128
    let settings := [TimeoutSetting.disconnectNotifyStart (1000 * 10 ^ 6)]
    ∃ e : Endpoint UInt8, Schedule (P2PSessionBuilder.configured settings).makePeer e 0 0 ∧
      TimeoutSetting.notifyStart settings = 1000 * 10 ^ 6 ∧
      TimeoutSetting.timeout settings = 5000 * 10 ^ 6 ∧
      (∃ e', e.notice 751 = .ok e' ∧ reported e e' = [.interrupted]) ∧
      (∃ e', e.tick 1001 = .ok e' ∧ e'.peer.state = .disconnected) ∧
      ¬Patient (TimeoutSetting.notifyStart settings) (TimeoutSetting.timeout settings) 0 751 e ∧
      ¬Patient (TimeoutSetting.notifyStart settings) (TimeoutSetting.timeout settings) 0 1001 e := by
  let build : Build := ⟨true⟩
  let varint := Varinteger.leb128
  refine ⟨fresh _ 0, .start 0 [] 0 0 (by norm_num), rfl, rfl, ⟨_, rfl, rfl⟩, ⟨_, rfl, rfl⟩, fun h => ?_,
    fun h => ?_⟩
  · exact absurd (h.interrupts _ rfl (.inl List.mem_cons_self)) (by decide)
  · exact absurd (h.disconnects _ rfl (by decide) rfl) (by decide)

end Endpoint

end Backroll

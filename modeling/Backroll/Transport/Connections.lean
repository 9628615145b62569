import Backroll.Transport.Peers

/-! One live connection for each id. Replacing an entry by `create_bounded` drops it but does not
disconnect it, and a clone of it keeps the old pair connected. -/
namespace Backroll

namespace BidirectionalAsyncChannel

/-- The other end of the pair. -/
def other (p : BidirectionalAsyncChannel) : BidirectionalAsyncChannel := ⟨p.outgoing, p.incoming⟩

/-- The number of the pair. -/
def pair (p : BidirectionalAsyncChannel) : ℕ := p.incoming / 2

/-- An end of one of the pairs made from the first `n` channels. -/
def IsEnd (n : ℕ) (p : BidirectionalAsyncChannel) : Prop :=
  (p.incoming % 2 = 0 ∧ p.outgoing = p.incoming + 1 ∨ p.outgoing % 2 = 0 ∧ p.incoming = p.outgoing + 1) ∧
    p.incoming < n ∧ p.outgoing < n

@[simp] theorem other_other (p : BidirectionalAsyncChannel) : p.other.other = p := rfl

theorem IsEnd.other_ne {n : ℕ} {p : BidirectionalAsyncChannel} (h : p.IsEnd n) : p.other ≠ p := by
  intro he
  have hio : p.outgoing = p.incoming := congrArg BidirectionalAsyncChannel.incoming he
  have := h.1
  omega

theorem IsEnd.pair_other {n : ℕ} {p : BidirectionalAsyncChannel} (h : p.IsEnd n) :
    p.other.pair = p.pair := by
  change p.outgoing / 2 = p.incoming / 2
  have := h.1
  omega

theorem IsEnd.pair_eq_iff {n : ℕ} {p q : BidirectionalAsyncChannel} (hp : p.IsEnd n) (hq : q.IsEnd n) :
    q.pair = p.pair ↔ q = p ∨ q = p.other := by
  obtain ⟨pi, po⟩ := p
  obtain ⟨qi, qo⟩ := q
  simp only [IsEnd, pair, other, BidirectionalAsyncChannel.mk.injEq] at *
  omega

theorem IsEnd.eq_of_incoming {n : ℕ} {p q : BidirectionalAsyncChannel} (hp : p.IsEnd n) (hq : q.IsEnd n)
    (h : q.incoming = p.incoming) : q = p := by
  obtain ⟨pi, po⟩ := p
  obtain ⟨qi, qo⟩ := q
  simp only [IsEnd, BidirectionalAsyncChannel.mk.injEq] at *
  omega

theorem IsEnd.eq_other_of_outgoing {n : ℕ} {p q : BidirectionalAsyncChannel} (hp : p.IsEnd n)
    (hq : q.IsEnd n) (h : q.outgoing = p.incoming) : q = p.other := by
  obtain ⟨pi, po⟩ := p
  obtain ⟨qi, qo⟩ := q
  simp only [IsEnd, other, BidirectionalAsyncChannel.mk.injEq] at *
  omega

theorem IsEnd.other {n : ℕ} {p : BidirectionalAsyncChannel} (h : p.IsEnd n) : p.other.IsEnd n :=
  ⟨h.1.symm, h.2.symm⟩

theorem IsEnd.mono {n m : ℕ} {p : BidirectionalAsyncChannel} (h : p.IsEnd n) (hnm : n ≤ m) :
    p.IsEnd m :=
  ⟨h.1, h.2.1.trans_le hnm, h.2.2.trans_le hnm⟩

end BidirectionalAsyncChannel

namespace Peers

open BidirectionalAsyncChannel

variable {T : Type} [DecidableEq T]

/-- Someone holds this end for the id: the map or a caller. -/
def Holds (w : Peers T) (id : T) (p : BidirectionalAsyncChannel) : Prop :=
  w.peers.lookup id = some p ∨ ∃ h ∈ w.handles, h.id = id ∧ h.peer = p

theorem mem_held {w : Peers T} {id : T} {p : BidirectionalAsyncChannel} :
    (∃ h ∈ w.held, h.id = id ∧ h.peer = p) ↔ w.Holds id p := by
  unfold held Holds
  rw [← Option.mem_def, AList.mem_lookup_iff]
  constructor
  · rintro ⟨h, hh, rfl, rfl⟩
    rcases List.mem_append.mp hh with hh | hh
    · obtain ⟨kv, hkv, rfl⟩ := List.mem_map.mp hh
      exact Or.inl hkv
    · exact Or.inr ⟨h, hh, rfl, rfl⟩
  · rintro (hkv | ⟨h, hh, rfl, rfl⟩)
    · exact ⟨_, List.mem_append_left _ (List.mem_map.mpr ⟨_, hkv, rfl⟩), rfl, rfl⟩
    · exact ⟨h, List.mem_append_right _ hh, rfl, rfl⟩

omit [DecidableEq T] in
theorem isConnected_iff {w : Peers T} {p : BidirectionalAsyncChannel} :
    w.isConnected p = true ↔ w.closed p.incoming = false ∧ w.closed p.outgoing = false := by
  simp [isConnected]

/-- All ends held are of pairs made here, a pair belongs to one id, and is closed as a whole. -/
structure Paired (w : Peers T) : Prop where
  even : w.created % 2 = 0
  ends : ∀ id p, w.Holds id p → p.IsEnd w.created
  owner : ∀ id p, w.Holds id p → ∀ id' q, w.Holds id' q → q.pair = p.pair → id' = id
  together : ∀ id p, w.Holds id p → w.closed p.incoming = w.closed p.outgoing

/-- The other end of a connected one is held too. -/
def Linked (w : Peers T) : Prop :=
  ∀ id p, w.Holds id p → w.isConnected p = true → ∃ id', w.Holds id' p.other

/-- A current handle that is connected is of the pair of its entry. -/
def Traced (w : Peers T) : Prop :=
  ∀ h ∈ w.handles, h.current = true → w.isConnected h.peer = true →
    ∃ e, w.peers.lookup h.id = some e ∧ e.pair = h.peer.pair

/-- The handles of replaced and of disconnected entries are not connected. -/
def NoStale (w : Peers T) : Prop :=
  ∀ h ∈ w.handles, h.current = false → w.isConnected h.peer = false

/-- What holds of `Peers` after any calls. -/
structure Sound (w : Peers T) : Prop where
  paired : w.Paired
  linked : w.Linked
  traced : w.Traced

theorem Paired.isConnected_of_pair {w : Peers T} (hw : w.Paired) {id id' : T}
    {p q : BidirectionalAsyncChannel} (hp : w.Holds id p) (hq : w.Holds id' q) (h : q.pair = p.pair) :
    w.isConnected q = w.isConnected p := by
  rcases ((hw.ends id p hp).pair_eq_iff (hw.ends id' q hq)).mp h with rfl | rfl
  · rfl
  · exact Bool.and_comm _ _

theorem Paired.mono {w w' : Peers T} (hw : w.Paired) (hholds : ∀ id p, w'.Holds id p → w.Holds id p)
    (hcreated : w'.created = w.created) (hclosed : w'.closed = w.closed) : w'.Paired where
  even := hcreated ▸ hw.even
  ends id p hp := hcreated ▸ hw.ends id p (hholds id p hp)
  owner id p hp id' q hq := hw.owner id p (hholds id p hp) id' q (hholds id' q hq)
  together id p hp := hclosed ▸ hw.together id p (hholds id p hp)

omit [DecidableEq T] in
theorem isConnected_disconnectPeer {w : Peers T} {p q : BidirectionalAsyncChannel} :
    (w.disconnectPeer p).isConnected q = true ↔ w.isConnected q = true ∧
      q.incoming ≠ p.incoming ∧ q.incoming ≠ p.outgoing ∧
      q.outgoing ≠ p.incoming ∧ q.outgoing ≠ p.outgoing := by
  simp only [isConnected_iff, disconnectPeer, Bool.or_eq_false_iff, beq_eq_false_iff_ne]
  tauto

theorem Paired.disconnectPeer {w : Peers T} (hw : w.Paired) {p : BidirectionalAsyncChannel}
    (hp : p.IsEnd w.created) : (w.disconnectPeer p).Paired where
  even := hw.even
  ends := hw.ends
  owner := hw.owner
  together id q hq := by
    have hsame : q.pair = p.pair ↔ q = p ∨ q = p.other := hp.pair_eq_iff (hw.ends id q hq)
    have htogether := hw.together id q hq
    have hshape := (hw.ends id q hq).1
    have hshape' := hp.1
    simp only [Peers.disconnectPeer, htogether]
    by_cases hpair : q.pair = p.pair
    · rcases hsame.mp hpair with rfl | rfl <;> simp [BidirectionalAsyncChannel.other]
    · unfold BidirectionalAsyncChannel.pair at hpair
      rw [Bool.or_assoc, Bool.or_assoc]
      congr 1
      rw [beq_false_of_ne (by omega), beq_false_of_ne (by omega), beq_false_of_ne (by omega),
        beq_false_of_ne (by omega)]

/-- Dropping handles leaves a channel open when both ends of its pair are still held. -/
theorem Paired.open_dropped {w : Peers T} (hw : w.Paired) {p : BidirectionalAsyncChannel}
    (hp : p.IsEnd w.created) :
    w.dropped.closed p.incoming = false ↔
      w.closed p.incoming = false ∧ (∃ id, w.Holds id p) ∧ ∃ id, w.Holds id p.other := by
  have hends : ∀ h ∈ w.held, w.Holds h.id h.peer ∧ h.peer.IsEnd w.created := fun h hh =>
    have hholds := mem_held.mp ⟨h, hh, rfl, rfl⟩
    ⟨hholds, hw.ends _ _ hholds⟩
  simp only [Peers.dropped, Bool.or_eq_false_iff, List.all_eq_false, bne_iff_ne, ne_eq,
    Decidable.not_not]
  constructor
  · rintro ⟨⟨hi, h, hh, hhi⟩, k, hk, hki⟩
    refine ⟨hi, ⟨h.id, ?_⟩, k.id, ?_⟩
    · exact hp.eq_of_incoming (hends h hh).2 hhi ▸ (hends h hh).1
    · exact hp.eq_other_of_outgoing (hends k hk).2 hki ▸ (hends k hk).1
  · rintro ⟨hi, ⟨id, hholds⟩, id', hholds'⟩
    obtain ⟨h, hh, -, rfl⟩ := mem_held.mpr hholds
    obtain ⟨k, hk, -, hpeer⟩ := mem_held.mpr hholds'
    have hko : k.peer.outgoing = h.peer.incoming := by rw [hpeer]; rfl
    exact ⟨⟨hi, h, hh, rfl⟩, k, hk, hko⟩

/-- Dropping handles leaves those pairs connected of which both ends are still held. -/
theorem Paired.isConnected_dropped {w : Peers T} (hw : w.Paired) {p : BidirectionalAsyncChannel}
    (hp : p.IsEnd w.created) :
    w.dropped.isConnected p = true ↔
      w.isConnected p = true ∧ (∃ id, w.Holds id p) ∧ ∃ id, w.Holds id p.other := by
  have hi := hw.open_dropped hp
  have ho := hw.open_dropped hp.other
  rw [isConnected_iff, isConnected_iff, hi]
  change _ ∧ w.dropped.closed p.other.incoming = false ↔ _
  rw [ho]
  change _ ∧ w.closed p.outgoing = false ∧ _ ∧ _ ↔ _
  rw [other_other]
  tauto

theorem Paired.dropped {w : Peers T} (hw : w.Paired) : w.dropped.Paired where
  even := hw.even
  ends := hw.ends
  owner := hw.owner
  together id p hp := by
    have hend := hw.ends id p hp
    have hi := hw.open_dropped hend
    have ho := hw.open_dropped hend.other
    have htogether : w.closed p.other.incoming = w.closed p.incoming := (hw.together id p hp).symm
    rw [htogether, other_other] at ho
    apply Bool.eq_iff_iff.mpr
    rw [← not_iff_not, Bool.not_eq_true, Bool.not_eq_true, hi]
    change _ ↔ w.dropped.closed p.other.incoming = false
    rw [ho]
    tauto

/-- Whatever was dropped, what is left connected is held at both ends. -/
theorem Sound.of_dropped {w : Peers T} (hw : w.Paired) (htraced : w.Traced) : w.dropped.Sound where
  paired := hw.dropped
  linked _ p hp hconnected := ((hw.isConnected_dropped (hw.ends _ p hp)).mp hconnected).2.2
  traced h hh hcurrent hconnected :=
    htraced h hh hcurrent ((hw.isConnected_dropped
      (hw.ends _ _ (Or.inr ⟨h, hh, rfl, rfl⟩))).mp hconnected).1

/-- The state in which `create_unbounded` and `create_bounded` have replaced the entry. -/
def installed (w : Peers T) (id : T) : Peers T :=
  { w.createPair.2.2 with
    peers := w.peers.insert id w.createPair.1
    handles := retire id w.handles ++ [Handle.mk id w.createPair.2.1 true] }

theorem createUnbounded_eq (w : Peers T) (id : T) :
    w.createUnbounded id = (match w.peers.lookup id with
      | some prior => (w.installed id).disconnectPeer prior
      | none => w.installed id).dropped := rfl

theorem createBounded_ok {w w' : Peers T} {id : T} {capacity : ℕ}
    (h : w.createBounded id capacity = .ok w') : w' = (w.installed id).dropped := by
  unfold createBounded at h
  split_ifs at h
  exact (Except.ok.inj h).symm

theorem mem_retire {id : T} {handles : List (Handle T)} {h : Handle T} :
    h ∈ retire id handles ↔ ∃ k ∈ handles, h.id = k.id ∧ h.peer = k.peer ∧
      h.current = (k.current && decide (k.id ≠ id)) := by
  unfold retire
  rw [List.mem_map]
  apply exists_congr
  intro k
  obtain ⟨hi, hp, hc⟩ := h
  obtain ⟨ki, kp, kc⟩ := k
  by_cases hk : ki = id <;> simp [hk, Handle.mk.injEq, eq_comm]

theorem holds_retire {w : Peers T} {id id' : T} {p : BidirectionalAsyncChannel} :
    ({ w with handles := retire id w.handles } : Peers T).Holds id' p ↔ w.Holds id' p := by
  unfold Holds
  simp only [mem_retire]
  apply or_congr_right
  constructor
  · rintro ⟨h, ⟨k, hk, hid, hpeer, -⟩, rfl, rfl⟩
    exact ⟨k, hk, hid.symm, hpeer.symm⟩
  · rintro ⟨k, hk, rfl, rfl⟩
    exact ⟨⟨k.id, k.peer, k.current && decide (k.id ≠ id)⟩, ⟨k, hk, rfl, rfl, rfl⟩, rfl, rfl⟩

theorem holds_installed {w : Peers T} {id id' : T} {p : BidirectionalAsyncChannel}
    (h : (w.installed id).Holds id' p) :
    id' = id ∧ (p = w.createPair.1 ∨ p = w.createPair.2.1) ∨ w.Holds id' p := by
  rcases h with h | ⟨h, hh, rfl, rfl⟩
  · by_cases hid : id' = id
    · subst hid
      left
      exact ⟨rfl, Or.inl (Option.some.inj ((AList.lookup_insert _).symm.trans h)).symm⟩
    · right; left
      exact (AList.lookup_insert_ne hid).symm.trans h
  · rcases List.mem_append.mp hh with hh | hh
    · right
      exact holds_retire.mp (Or.inr ⟨h, hh, rfl, rfl⟩)
    · rw [List.mem_singleton.mp hh]
      exact Or.inl ⟨rfl, Or.inr rfl⟩

theorem isConnected_installed {w : Peers T} (id : T) {p : BidirectionalAsyncChannel}
    (hp : p.IsEnd w.created) : (w.installed id).isConnected p = w.isConnected p := by
  obtain ⟨-, hi, ho⟩ := hp
  simp only [isConnected, installed, createPair, bne_iff_ne.mpr (show p.incoming ≠ w.created by omega),
    bne_iff_ne.mpr (show p.outgoing ≠ w.created by omega),
    bne_iff_ne.mpr (show p.incoming ≠ w.created + 1 by omega),
    bne_iff_ne.mpr (show p.outgoing ≠ w.created + 1 by omega), Bool.and_true]

theorem Paired.installed {w : Peers T} (hw : w.Paired) (id : T) : (w.installed id).Paired := by
  have heven := hw.even
  have hnew : ∀ p, p = w.createPair.1 ∨ p = w.createPair.2.1 →
      p.IsEnd (w.created + 2) ∧ p.pair = w.created / 2 ∧
        (w.installed id).closed p.incoming = (w.installed id).closed p.outgoing := by
    rintro p (rfl | rfl)
    · refine ⟨⟨Or.inl ⟨heven, rfl⟩, ?_, ?_⟩, rfl, by simp [Peers.installed, createPair]⟩ <;>
        simp [createPair]
    · refine ⟨⟨Or.inr ⟨heven, rfl⟩, ?_, ?_⟩, ?_, by simp [Peers.installed, createPair]⟩
      · simp [createPair]
      · simp [createPair]
      · change (w.created + 1) / 2 = w.created / 2
        omega
  have hold : ∀ id p, w.Holds id p → p.pair < w.created / 2 := fun id p hp => by
    have := hw.ends id p hp
    unfold IsEnd at this
    unfold pair
    omega
  refine ⟨?_, ?_, ?_, ?_⟩
  · change (w.created + 2) % 2 = 0
    omega
  · intro id' p hp
    rcases holds_installed hp with ⟨-, hp⟩ | hp
    · exact (hnew p hp).1
    · exact (hw.ends id' p hp).mono (Nat.le_add_right _ 2)
  · intro i p hp j q hq hpair
    rcases holds_installed hp with ⟨hi, hp⟩ | hp <;> rcases holds_installed hq with ⟨hj, hq⟩ | hq
    · exact hj.trans hi.symm
    · have := hold j q hq
      have := (hnew p hp).2.1
      omega
    · have := hold i p hp
      have := (hnew q hq).2.1
      omega
    · exact hw.owner i p hp j q hq hpair
  · intro id' p hp
    rcases holds_installed hp with ⟨-, hp⟩ | hp
    · exact (hnew p hp).2.2
    · have hend := hw.ends id' p hp
      have htogether := hw.together id' p hp
      obtain ⟨-, hi, ho⟩ := hend
      simp only [Peers.installed, createPair,
        bne_iff_ne.mpr (show p.incoming ≠ w.created by omega),
        bne_iff_ne.mpr (show p.outgoing ≠ w.created by omega),
        bne_iff_ne.mpr (show p.incoming ≠ w.created + 1 by omega),
        bne_iff_ne.mpr (show p.outgoing ≠ w.created + 1 by omega), Bool.and_true, htogether]

theorem Traced.installed {w : Peers T} (hw : w.Paired) (htraced : w.Traced) (id : T) :
    (w.installed id).Traced := by
  have heven := hw.even
  intro h hh hcurrent hconnected
  rcases List.mem_append.mp hh with hh | hh
  · obtain ⟨k, hk, hid, hpeer, hcur⟩ := mem_retire.mp hh
    rw [hcurrent, eq_comm, Bool.and_eq_true, decide_eq_true_eq] at hcur
    have hend := hw.ends k.id k.peer (Or.inr ⟨k, hk, rfl, rfl⟩)
    rw [hpeer, isConnected_installed id hend] at hconnected
    obtain ⟨e, he, hpair⟩ := htraced k hk hcur.1 hconnected
    rw [hid, hpeer]
    exact ⟨e, (AList.lookup_insert_ne hcur.2).trans he, hpair⟩
  · rw [List.mem_singleton.mp hh]
    refine ⟨w.createPair.1, AList.lookup_insert _, ?_⟩
    simp only [pair, createPair]
    omega

theorem Traced.disconnectPeer {w : Peers T} (htraced : w.Traced) (p : BidirectionalAsyncChannel) :
    (w.disconnectPeer p).Traced := fun h hh hcurrent hconnected =>
  htraced h hh hcurrent (isConnected_disconnectPeer.mp hconnected).1

theorem Sound.createUnbounded {w : Peers T} (hw : w.Sound) (id : T) : (w.createUnbounded id).Sound := by
  have hpaired := hw.paired.installed id
  have htraced := hw.traced.installed hw.paired id
  rw [createUnbounded_eq]
  cases hprior : w.peers.lookup id with
  | none => exact Sound.of_dropped hpaired htraced
  | some prior =>
    have hend := (hw.paired.ends id prior (Or.inl hprior)).mono (Nat.le_add_right _ 2)
    exact Sound.of_dropped (hpaired.disconnectPeer hend) (htraced.disconnectPeer prior)

theorem Sound.retire {w : Peers T} (hw : w.Sound) (id : T) :
    ({ w with handles := retire id w.handles } : Peers T).Sound where
  paired := hw.paired.mono (fun _ _ => holds_retire.mp) rfl rfl
  linked id' p hp hconnected := by
    obtain ⟨i, hi⟩ := hw.linked id' p (holds_retire.mp hp) hconnected
    exact ⟨i, holds_retire.mpr hi⟩
  traced h hh hcurrent hconnected := by
    obtain ⟨k, hk, hid, hpeer, hcur⟩ := mem_retire.mp hh
    rw [hcurrent, eq_comm, Bool.and_eq_true] at hcur
    rw [hpeer] at hconnected ⊢
    rw [hid]
    exact hw.traced k hk hcur.1 hconnected

theorem Sound.disconnect {w : Peers T} (hw : w.Sound) (id : T) : (w.disconnect id).Sound := by
  have hretired := hw.retire id
  unfold Peers.disconnect
  cases hprior : w.peers.lookup id with
  | none => exact hretired
  | some prior =>
    have hsub : ∀ id' p, ({ w with peers := w.peers.erase id, handles := Peers.retire id w.handles } :
        Peers T).Holds id' p → w.Holds id' p := by
      rintro id' p (hp | hp)
      · by_cases hid : id' = id
        · rw [hid, AList.lookup_erase] at hp
          cases hp
        · exact Or.inl ((AList.lookup_erase_ne hid).symm.trans hp)
      · exact holds_retire.mp (Or.inr hp)
    refine Sound.of_dropped ((hw.paired.mono hsub rfl rfl).disconnectPeer
      (hw.paired.ends id prior (Or.inl hprior))) (Traced.disconnectPeer ?_ prior)
    intro h hh hcurrent hconnected
    obtain ⟨e, he, hpair⟩ := hretired.traced h hh hcurrent hconnected
    obtain ⟨k, hk, hid, -, hcur⟩ := mem_retire.mp hh
    rw [hcurrent, eq_comm, Bool.and_eq_true, decide_eq_true_eq] at hcur
    exact ⟨e, (AList.lookup_erase_ne (hid ▸ hcur.2)).trans he, hpair⟩

theorem lookup_flushed {w : Peers T} {id : T} {p : BidirectionalAsyncChannel} :
    w.flushDisconnected.peers.lookup id = some p ↔
      w.peers.lookup id = some p ∧ w.isConnected p = true := by
  rw [← Option.mem_def, AList.mem_lookup_iff, ← Option.mem_def, AList.mem_lookup_iff]
  exact List.mem_filter

theorem Sound.flushDisconnected {w : Peers T} (hw : w.Sound) : w.flushDisconnected.Sound := by
  refine Sound.of_dropped (hw.paired.mono ?_ rfl rfl) ?_
  · rintro id p (hp | hp)
    · exact Or.inl (lookup_flushed.mp hp).1
    · exact Or.inr hp
  · intro h hh hcurrent hconnected
    obtain ⟨e, he, hpair⟩ := hw.traced h hh hcurrent hconnected
    have hsame := hw.paired.isConnected_of_pair (Or.inr ⟨h, hh, rfl, rfl⟩) (Or.inl he) hpair
    exact ⟨e, lookup_flushed.mpr ⟨he, hsame.trans hconnected⟩, hpair⟩

theorem get_eq_some {w : Peers T} {id : T} {p : BidirectionalAsyncChannel} :
    w.get id = some p ↔ w.peers.lookup id = some p ∧ w.isConnected p = true := by
  unfold Peers.get
  cases hlookup : w.peers.lookup id with
  | none => simp
  | some peer =>
    change (if w.isConnected peer = true then some peer else none) = some p ↔ _
    rw [Option.ite_none_right_eq_some]
    constructor
    · rintro ⟨hconnected, hp⟩
      cases hp
      exact ⟨rfl, hconnected⟩
    · rintro ⟨hp, hconnected⟩
      cases hp
      exact ⟨hconnected, rfl⟩

/-- A caller gets or clones a handle for an end that is held for that id already. -/
theorem Sound.clone {w : Peers T} (hw : w.Sound) {handles : List (Handle T)}
    (hnew : ∀ h ∈ handles, w.Holds h.id h.peer ∧ (h.current = true → w.isConnected h.peer = true →
      ∃ e, w.peers.lookup h.id = some e ∧ e.pair = h.peer.pair)) :
    ({ w with handles := w.handles ++ handles } : Peers T).Sound := by
  have hsub : ∀ id p, ({ w with handles := w.handles ++ handles } : Peers T).Holds id p ↔ w.Holds id p := by
    intro id p
    constructor
    · rintro (hp | ⟨h, hh, rfl, rfl⟩)
      · exact Or.inl hp
      · rcases List.mem_append.mp hh with hh | hh
        · exact Or.inr ⟨h, hh, rfl, rfl⟩
        · exact (hnew h hh).1
    · rintro (hp | ⟨h, hh, rfl, rfl⟩)
      · exact Or.inl hp
      · exact Or.inr ⟨h, List.mem_append_left _ hh, rfl, rfl⟩
  refine ⟨hw.paired.mono (fun id p => (hsub id p).mp) rfl rfl, ?_, ?_⟩
  · intro id p hp hconnected
    obtain ⟨i, hi⟩ := hw.linked id p ((hsub id p).mp hp) hconnected
    exact ⟨i, (hsub i _).mpr hi⟩
  · intro h hh hcurrent hconnected
    rcases List.mem_append.mp hh with hh | hh
    · exact hw.traced h hh hcurrent hconnected
    · exact (hnew h hh).2 hcurrent hconnected

theorem Step.sound {w w' : Peers T} {call : Call T} (h : Step w call w') (hw : w.Sound) : w'.Sound := by
  cases h with
  | createUnbounded id => exact hw.createUnbounded id
  | createBounded id capacity _ h =>
    rw [createBounded_ok h]
    exact Sound.of_dropped (hw.paired.installed id) (hw.traced.installed hw.paired id)
  | get id =>
    refine hw.clone fun h hh => ?_
    rw [Option.mem_toList, Option.map_eq_some_iff] at hh
    obtain ⟨p, hp, rfl⟩ := hh
    have hlookup := (get_eq_some.mp hp).1
    exact ⟨Or.inl hlookup, fun _ _ => ⟨p, hlookup, rfl⟩⟩
  | disconnect id => exact hw.disconnect id
  | flushDisconnected => exact hw.flushDisconnected
  | cloneHandle h hh =>
    refine hw.clone fun k hk => ?_
    rw [List.mem_singleton.mp hk]
    exact ⟨Or.inr ⟨h, hh, rfl, rfl⟩, hw.traced h hh⟩
  | dropHandle h hh =>
    refine Sound.of_dropped (hw.paired.mono ?_ rfl rfl) fun k hk => hw.traced k (List.mem_of_mem_erase hk)
    rintro id p (hp | ⟨k, hk, rfl, rfl⟩)
    · exact Or.inl hp
    · exact Or.inr ⟨k, List.mem_of_mem_erase hk, rfl, rfl⟩
  | disconnectHandle h hh =>
    have hend := hw.paired.ends h.id h.peer (Or.inr ⟨h, hh, rfl, rfl⟩)
    refine ⟨hw.paired.disconnectPeer hend, ?_, hw.traced.disconnectPeer h.peer⟩
    intro id p hp hconnected
    exact hw.linked id p hp (isConnected_disconnectPeer.mp hconnected).1

/-- `create_bounded` may replace the entry: it is not connected, or the map alone holds that end. -/
def Replaceable (w : Peers T) : Call T → Prop
  | .createBounded id _ => ∀ prior, w.peers.lookup id = some prior → w.isConnected prior = true →
      ∀ h ∈ w.handles, h.peer ≠ prior
  | _ => True

/-- A handle that has just been retired and is connected is of the pair of the entry. -/
theorem NoStale.retired {w : Peers T} (hw : w.Sound) (hstale : w.NoStale) {id : T} {h : Handle T}
    (hh : h ∈ retire id w.handles) (hcurrent : h.current = false) (hconnected : w.isConnected h.peer = true) :
    ∃ e, w.peers.lookup id = some e ∧ (h.peer = e ∨ h.peer = e.other) := by
  obtain ⟨k, hk, -, hpeer, hcur⟩ := mem_retire.mp hh
  have hholds : w.Holds k.id k.peer := Or.inr ⟨k, hk, rfl, rfl⟩
  rw [hpeer] at hconnected ⊢
  have hknown : k.current = true := by
    by_contra hno
    rw [hstale k hk (Bool.not_eq_true _ ▸ hno)] at hconnected
    cases hconnected
  have hid : k.id = id := by
    by_contra hid
    rw [hcurrent, hknown, decide_eq_true hid] at hcur
    cases hcur
  obtain ⟨e, he, hpair⟩ := hw.traced k hk hknown hconnected
  rw [hid] at he
  exact ⟨e, he, ((hw.paired.ends id e (Or.inl he)).pair_eq_iff (hw.paired.ends _ _ hholds)).mp
    hpair.symm⟩

/-- Replacing an entry retires the handles of its id. They are disconnected if the old pair is. -/
theorem NoStale.of_installed {w w' : Peers T} (hw : w.Sound) (hstale : w.NoStale) (id : T)
    (hhandles : w'.handles = (w.installed id).handles)
    (hmono : ∀ p, w'.isConnected p = true → (w.installed id).isConnected p = true)
    (hprior : ∀ prior, w.peers.lookup id = some prior → w.isConnected prior = true →
      w'.isConnected prior = false ∧ w'.isConnected prior.other = false) : w'.NoStale := by
  intro h hh hcurrent
  rw [hhandles] at hh
  rcases List.mem_append.mp hh with hh | hh
  · obtain ⟨k, hk, -, hpeer, -⟩ := mem_retire.mp hh
    have hends := hw.paired.ends k.id k.peer (Or.inr ⟨k, hk, rfl, rfl⟩)
    by_contra hconnected
    rw [Bool.not_eq_false] at hconnected
    have hold := hmono _ hconnected
    rw [isConnected_installed id (hpeer ▸ hends)] at hold
    obtain ⟨e, he, hpair⟩ := hstale.retired hw hh hcurrent hold
    have hsame : w.isConnected e = true := by
      rcases hpair with hpair | hpair
      · exact hpair ▸ hold
      · have hother : w.isConnected e.other = true := hpair ▸ hold
        exact (Bool.and_comm _ _).trans hother
    obtain ⟨hclosed, hclosed'⟩ := hprior e he hsame
    rcases hpair with hpair | hpair
    · cases hclosed.symm.trans (hpair ▸ hconnected)
    · cases hclosed'.symm.trans (hpair ▸ hconnected)
  · rw [List.mem_singleton.mp hh] at hcurrent
    cases hcurrent

omit [DecidableEq T] in
theorem isConnected_disconnected (w : Peers T) (p : BidirectionalAsyncChannel) :
    (w.disconnectPeer p).dropped.isConnected p = false ∧
      (w.disconnectPeer p).dropped.isConnected p.other = false := by
  simp [isConnected, dropped, disconnectPeer, BidirectionalAsyncChannel.other]

omit [DecidableEq T] in
theorem isConnected_dropped_mono {w : Peers T} {p : BidirectionalAsyncChannel}
    (h : w.dropped.isConnected p = true) : w.isConnected p = true := by
  simp only [isConnected_iff, dropped, Bool.or_eq_false_iff] at h ⊢
  exact ⟨h.1.1.1, h.2.1.1⟩

theorem NoStale.createUnbounded {w : Peers T} (hw : w.Sound) (hstale : w.NoStale) (id : T) :
    (w.createUnbounded id).NoStale := by
  rw [createUnbounded_eq]
  cases hprior : w.peers.lookup id with
  | none =>
    refine hstale.of_installed hw id rfl (fun p => isConnected_dropped_mono) fun prior he => ?_
    cases hprior.symm.trans he
  | some prior =>
    refine hstale.of_installed hw id rfl
      (fun p hp => (isConnected_disconnectPeer.mp (isConnected_dropped_mono hp)).1) fun e he _ => ?_
    cases hprior.symm.trans he
    exact isConnected_disconnected _ prior

/-- Of a replaced entry that no caller holds, no end is connected. -/
theorem Sound.closed_of_replaced {w : Peers T} (hw : w.Sound) {id : T} {prior : BidirectionalAsyncChannel}
    (hprior : w.peers.lookup id = some prior) (halone : ∀ h ∈ w.handles, h.peer ≠ prior) :
    (w.installed id).dropped.isConnected prior = false ∧
      (w.installed id).dropped.isConnected prior.other = false := by
  have hend := hw.paired.ends id prior (Or.inl hprior)
  have hend' := hend.mono (Nat.le_add_right _ 2)
  have hpaired := hw.paired.installed id
  have hgone : ¬ ∃ id', (w.installed id).Holds id' prior := by
    rintro ⟨id', hp | ⟨h, hh, -, hpeer⟩⟩
    · by_cases hid : id' = id
      · rw [hid] at hp
        have : w.createPair.1 = prior := Option.some.inj ((AList.lookup_insert _).symm.trans hp)
        have := congrArg BidirectionalAsyncChannel.incoming this
        exact hend.2.1.ne this.symm
      · have hp := (AList.lookup_insert_ne hid).symm.trans hp
        exact hid (hw.paired.owner id prior (Or.inl hprior) id' prior (Or.inl hp) rfl)
    · rcases List.mem_append.mp hh with hh | hh
      · obtain ⟨k, hk, -, hkpeer, -⟩ := mem_retire.mp hh
        exact halone k hk (hkpeer.symm.trans hpeer)
      · rw [List.mem_singleton.mp hh] at hpeer
        have := congrArg BidirectionalAsyncChannel.outgoing hpeer
        exact hend.2.2.ne this.symm
  constructor
  · by_contra hconnected
    rw [Bool.not_eq_false, hpaired.isConnected_dropped hend'] at hconnected
    exact hgone hconnected.2.1
  · by_contra hconnected
    rw [Bool.not_eq_false, hpaired.isConnected_dropped hend'.other] at hconnected
    exact hgone hconnected.2.2

theorem NoStale.createBounded_iff {w : Peers T} (hw : w.Sound) (hstale : w.NoStale) (id : T)
    (capacity : ℕ) : (w.installed id).dropped.NoStale ↔ w.Replaceable (.createBounded id capacity) := by
  constructor
  · intro hstale' prior hprior hconnected h hh hpeer
    have hhold : w.Holds h.id h.peer := Or.inr ⟨h, hh, rfl, rfl⟩
    have hend := hw.paired.ends id prior (Or.inl hprior)
    have hid : h.id = id := hw.paired.owner id prior (Or.inl hprior) h.id prior (hpeer ▸ hhold) rfl
    have hkept : ∀ k ∈ w.handles, (w.installed id).Holds k.id k.peer := fun k hk =>
      Or.inr ⟨⟨k.id, k.peer, k.current && decide (k.id ≠ id)⟩,
        List.mem_append_left _ (mem_retire.mpr ⟨k, hk, rfl, rfl, rfl⟩), rfl, rfl⟩
    have hother : ∃ i, (w.installed id).Holds i prior.other := by
      obtain ⟨i, hi | ⟨k, hk, rfl, hk'⟩⟩ := hw.linked id prior (Or.inl hprior) hconnected
      · have : i = id := hw.paired.owner id prior (Or.inl hprior) i _ (Or.inl hi) hend.pair_other
        rw [this, hprior] at hi
        exact absurd (Option.some.inj hi).symm hend.other_ne
      · exact ⟨k.id, hk' ▸ hkept k hk⟩
    have hnow : (w.installed id).dropped.isConnected prior = true :=
      ((hw.paired.installed id).isConnected_dropped (hend.mono (Nat.le_add_right _ 2))).mpr
        ⟨(isConnected_installed id hend).trans hconnected, ⟨h.id, hpeer ▸ hkept h hh⟩, hother⟩
    have hno := hstale' ⟨h.id, h.peer, h.current && decide (h.id ≠ id)⟩
      (List.mem_append_left _ (mem_retire.mpr ⟨h, hh, rfl, rfl, rfl⟩))
      (by simp [hid])
    rw [hpeer, hnow] at hno
    cases hno
  · intro halone
    refine hstale.of_installed hw id rfl (fun p => isConnected_dropped_mono)
      fun prior hprior hconnected => hw.closed_of_replaced hprior (halone prior hprior hconnected)

theorem NoStale.disconnect {w : Peers T} (hw : w.Sound) (hstale : w.NoStale) (id : T) :
    (w.disconnect id).NoStale := by
  intro h hh hcurrent
  by_contra hconnected
  rw [Bool.not_eq_false] at hconnected
  unfold Peers.disconnect at hh hconnected
  cases hprior : w.peers.lookup id with
  | none =>
    rw [hprior] at hh hconnected
    obtain ⟨e, he, -⟩ := hstale.retired hw hh hcurrent hconnected
    cases hprior.symm.trans he
  | some prior =>
    rw [hprior] at hh hconnected
    obtain ⟨e, he, hpair⟩ := hstale.retired hw hh hcurrent
      (isConnected_disconnectPeer.mp (isConnected_dropped_mono hconnected)).1
    cases hprior.symm.trans he
    have hclosed := isConnected_disconnected
      ({ w with peers := w.peers.erase id, handles := retire id w.handles } : Peers T) prior
    rcases hpair with hpair | hpair
    · cases hclosed.1.symm.trans (hpair ▸ hconnected)
    · cases hclosed.2.symm.trans (hpair ▸ hconnected)

/-- A call keeps the handles of former entries disconnected just when it does not replace an entry of
which a clone keeps the pair connected. -/
theorem Step.noStale_iff {w w' : Peers T} {call : Call T} (h : Step w call w') (hw : w.Sound)
    (hstale : w.NoStale) : w'.NoStale ↔ w.Replaceable call := by
  cases h with
  | createBounded id capacity _ h =>
    rw [createBounded_ok h]
    exact hstale.createBounded_iff hw id capacity
  | createUnbounded id => exact iff_of_true (hstale.createUnbounded hw id) trivial
  | disconnect id => exact iff_of_true (hstale.disconnect hw id) trivial
  | get id =>
    refine iff_of_true (fun h hh hcurrent => ?_) trivial
    rcases List.mem_append.mp hh with hh | hh
    · exact hstale h hh hcurrent
    · rw [Option.mem_toList, Option.map_eq_some_iff] at hh
      obtain ⟨p, hp, rfl⟩ := hh
      cases hcurrent
  | cloneHandle h hh =>
    refine iff_of_true (fun k hk hcurrent => ?_) trivial
    rcases List.mem_append.mp hk with hk | hk
    · exact hstale k hk hcurrent
    · rw [List.mem_singleton.mp hk] at hcurrent ⊢
      exact hstale h hh hcurrent
  | flushDisconnected =>
    refine iff_of_true (fun h hh hcurrent => ?_) trivial
    apply Bool.eq_false_of_not_eq_true
    intro hconnected
    have hbefore := isConnected_dropped_mono hconnected
    cases (hstale h hh hcurrent).symm.trans hbefore
  | dropHandle h hh =>
    refine iff_of_true (fun k hk hcurrent => ?_) trivial
    apply Bool.eq_false_of_not_eq_true
    intro hconnected
    have hbefore := isConnected_dropped_mono hconnected
    cases (hstale k (List.mem_of_mem_erase hk) hcurrent).symm.trans hbefore
  | disconnectHandle h hh =>
    refine iff_of_true (fun k hk hcurrent => ?_) trivial
    apply Bool.eq_false_of_not_eq_true
    intro hconnected
    cases (hstale k hk hcurrent).symm.trans (isConnected_disconnectPeer.mp hconnected).1

/-- One live connection for each id: what `connect` and `recv` of the manager rely on. -/
structure OneLive (w : Peers T) : Prop where
  stale : ∀ h ∈ w.handles, h.current = false → w.isConnected h.peer = false
  one : ∀ h ∈ w.held, ∀ k ∈ w.held, h.id = k.id → w.isConnected h.peer = true →
    w.isConnected k.peer = true → k.peer = h.peer ∨ k.peer = h.peer.other
  len : w.len = Set.ncard {id | w.contains id = true}
  get : ∀ id, w.contains id = true ↔ (w.get id).isSome = true

theorem contains_iff {w : Peers T} {id : T} :
    w.contains id = true ↔ ∃ p, w.peers.lookup id = some p ∧ w.isConnected p = true := by
  unfold contains
  cases w.peers.lookup id <;> simp

theorem contains_iff_get {w : Peers T} {id : T} : w.contains id = true ↔ (w.get id).isSome = true := by
  rw [contains_iff, Option.isSome_iff_exists]
  exact exists_congr fun p => get_eq_some.symm

theorem len_eq_ncard (w : Peers T) : w.len = Set.ncard {id | w.contains id = true} := by
  let connected := w.peers.entries.filter fun kv => w.isConnected kv.2
  have hnodup : (connected.map Sigma.fst).Nodup :=
    List.NodupKeys.sublist List.filter_sublist w.peers.nodupKeys
  have hset : {id | w.contains id = true} = ↑(connected.map Sigma.fst).toFinset := by
    ext id
    rw [Set.mem_ofPred_eq, contains_iff, List.coe_toFinset, Set.mem_ofPred_eq, List.mem_map]
    constructor
    · rintro ⟨p, hp, hconnected⟩
      rw [← Option.mem_def, AList.mem_lookup_iff] at hp
      exact ⟨⟨id, p⟩, List.mem_filter.mpr ⟨hp, hconnected⟩, rfl⟩
    · rintro ⟨⟨_, p⟩, hp, rfl⟩
      obtain ⟨hp, hconnected⟩ := List.mem_filter.mp hp
      exact ⟨p, AList.mem_lookup_iff.mpr hp, hconnected⟩
  rw [hset, Set.ncard_coe_finset, List.toFinset_card_of_nodup hnodup, List.length_map]
  exact List.countP_eq_length_filter

/-- With no stale handle connected, all that is connected for an id is the pair of its entry. -/
theorem Sound.pair_of_entry {w : Peers T} (hw : w.Sound) (hstale : w.NoStale) {h : Handle T}
    (hh : h ∈ w.held) (hconnected : w.isConnected h.peer = true) :
    ∃ e, w.peers.lookup h.id = some e ∧ e.pair = h.peer.pair := by
  rcases List.mem_append.mp hh with hh | hh
  · obtain ⟨kv, hkv, rfl⟩ := List.mem_map.mp hh
    exact ⟨kv.2, AList.mem_lookup_iff.mpr hkv, rfl⟩
  · refine hw.traced h hh ?_ hconnected
    by_contra hno
    cases (hstale h hh (Bool.eq_false_of_not_eq_true hno)).symm.trans hconnected

theorem Sound.oneLive_iff {w : Peers T} (hw : w.Sound) : w.OneLive ↔ w.NoStale := by
  constructor
  · exact OneLive.stale
  · intro hstale
    refine ⟨hstale, ?_, len_eq_ncard w, fun _ => contains_iff_get⟩
    intro h hh k hk hid hconnected hconnected'
    obtain ⟨e, he, hpair⟩ := hw.pair_of_entry hstale hh hconnected
    obtain ⟨e', he', hpair'⟩ := hw.pair_of_entry hstale hk hconnected'
    rw [← hid, he] at he'
    cases he'
    have hhold := hw.paired.ends h.id h.peer (mem_held.mp ⟨h, hh, rfl, rfl⟩)
    have hhold' := hw.paired.ends k.id k.peer (mem_held.mp ⟨k, hk, rfl, rfl⟩)
    exact (hhold.pair_eq_iff hhold').mp (hpair'.symm.trans hpair)

theorem sound_empty : (empty : Peers T).Sound := by
  have hnone : ∀ id p, ¬ (empty : Peers T).Holds id p := by
    rintro id p (hp | ⟨h, hh, -⟩)
    · cases hp
    · cases hh
  exact ⟨⟨rfl, fun id p hp => absurd hp (hnone id p), fun id p hp => absurd hp (hnone id p),
    fun id p hp => absurd hp (hnone id p)⟩, fun id p hp => absurd hp (hnone id p),
    fun h hh => absurd hh List.not_mem_nil⟩

theorem Run.sound {calls : List (Peers T × Call T)} {w : Peers T} (hrun : Run calls w) : w.Sound := by
  induction hrun with
  | empty => exact sound_empty
  | call _ _ _ h ih => exact h.sound ih

/-- There is one live connection for each id all along a run just when no `create_bounded` of it
replaces a connected entry of whose end a caller holds a clone. -/
theorem run_oneLive_iff {calls : List (Peers T × Call T)} {w : Peers T} (hrun : Run calls w) :
    (∀ before ∈ calls, before.1.OneLive) ∧ w.OneLive ↔
      ∀ before ∈ calls, before.1.Replaceable before.2 := by
  induction hrun with
  | empty =>
    have hstale : (empty : Peers T).NoStale := fun h hh => absurd hh List.not_mem_nil
    exact iff_of_true ⟨fun _ h => absurd h List.not_mem_nil, sound_empty.oneLive_iff.mpr hstale⟩
      fun _ h => absurd h List.not_mem_nil
  | @call calls w hrun call w' h ih =>
    have hw := hrun.sound
    have hstep := fun hstale => h.noStale_iff hw (hw.oneLive_iff.mp hstale)
    rw [← (h.sound hw).oneLive_iff] at hstep
    simp only [List.forall_mem_append, List.forall_mem_singleton]
    constructor
    · rintro ⟨⟨hbefore, hnow⟩, hafter⟩
      exact ⟨ih.mp ⟨hbefore, hnow⟩, (hstep hnow).mp hafter⟩
    · rintro ⟨hcalls, hcall⟩
      obtain ⟨hbefore, hnow⟩ := ih.mpr hcalls
      exact ⟨⟨hbefore, hnow⟩, (hstep hnow).mpr hcall⟩

/-- Of a connected entry that nobody holds, when it is made again. -/
theorem run_oneLive_iff_twice :
    ∃ w w' : Peers ℕ, (empty : Peers ℕ).createBounded 1 8 = .ok w ∧ w.createBounded 1 8 = .ok w' ∧
      (w.get 1).isSome ∧ (∀ before ∈ [((empty : Peers ℕ), Call.createBounded 1 8),
        (w, Call.createBounded 1 8)], before.1.OneLive) ∧ w'.OneLive := by
  have hfirst : Run [((empty : Peers ℕ), Call.createBounded 1 8)] _ :=
    .call .empty (.createBounded 1 8) _ (.createBounded 1 8 _ rfl)
  have hsecond := Run.call hfirst (.createBounded 1 8) _ (.createBounded 1 8 _ rfl)
  refine ⟨_, _, rfl, rfl, by decide, (run_oneLive_iff hsecond).mpr fun before hbefore => ?_⟩
  rcases List.mem_append.mp hbefore with h | h
  · obtain rfl := List.mem_singleton.mp h
    intro prior hprior
    cases hprior
  · obtain rfl := List.mem_singleton.mp h
    intro prior hprior _ handle hhandle hpeer
    obtain rfl : ⟨0, 1⟩ = prior := Option.some.inj hprior
    obtain rfl : handle = ⟨1, ⟨1, 0⟩, true⟩ := List.mem_singleton.mp hhandle
    exact absurd hpeer (by decide)

/-- The send task of `connect` holds a clone of the entry. Connecting once more to the address leaves
the first pair connected beside the second. -/
theorem not_oneLive_bounded :
    ¬ ∀ (calls : List (Peers ℕ × Call ℕ)) (w : Peers ℕ), Run calls w → w.OneLive := by
  intro h
  have hlive := h _ _ (.call (.call (.call .empty (.createBounded 1 8) _ (.createBounded 1 8 _ rfl))
    (.get 1) _ (.get 1)) (.createBounded 1 8) _ (.createBounded 1 8 _ rfl))
  have hclosed := hlive.stale ⟨1, ⟨1, 0⟩, false⟩ (by decide) rfl
  exact absurd hclosed (by decide)

end Peers

end Backroll

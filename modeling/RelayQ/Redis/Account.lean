import Mathlib.Data.Set.Insert
import RelayQ.Redis.Stream

/-! # The account of a stream with one of its groups

For one consumer group every stored entry is new or delivered, and a delivered one is pending until
it is acknowledged. This file says what each command does to the sets `Stream.fresh` and
`Stream.pending` of a stream that never lost an entry (`Stream.Full`).

* `Stream.Full`: all ids given out are stored, and only such ids are pending.
* `Keyspace.Full.apply`: commands that evict nothing keep it.
* `Keyspace.apply_account`: the effect of a command on the two sets. -/

namespace RelayQ.Redis

namespace Stream

variable {F : Type} {s : Stream F}

/-- The ids of the stored entries a group has not been given. -/
def fresh (s : Stream F) (g : String) : Set Nat :=
  {id | (∃ e ∈ s.entries, e.id = id) ∧ ∀ grp, s.groups g = some grp → grp.lastDelivered < id}

/-- The ids pending in a group. -/
def pending (s : Stream F) (g : String) : Set Nat :=
  {id | ∃ grp, s.groups g = some grp ∧ ∃ p ∈ grp.pel, p.id = id}

/-- No entry was ever lost: the stored ids are those given out, and so is every pending id. -/
structure Full (s : Stream F) : Prop where
  stored : ∀ id, 0 < id → id ≤ s.lastId → ∃ e ∈ s.entries, e.id = id
  pel_pos : ∀ g grp, s.groups g = some grp → ∀ p ∈ grp.pel, 0 < p.id

/-- An empty stream is full. -/
theorem full_empty : (empty F).Full := by
  constructor
  · intro id h₁ h₂
    simp only [empty] at h₂
    omega
  · simp [empty]

/-- Everything pending is stored while no entry was lost. -/
theorem Full.pel_stored (h : s.Full) (hw : s.Wf) {g : String} {grp : Group}
    (hg : s.groups g = some grp) {p : PendingEntry} (hp : p ∈ grp.pel) :
    ∃ e ∈ s.entries, e.id = p.id := by
  have hwg := hw.groups g grp hg
  exact h.stored p.id (h.pel_pos g grp hg p hp) ((hwg.pel_le p hp).trans hwg.delivered_le)

/-- It stays so when an entry is appended. -/
theorem Full.append (h : s.Full) (f : F) : (s.append f).Full where
  stored := by
    intro id hpos hle
    simp only [Stream.append] at hle ⊢
    by_cases hid : id = s.lastId + 1
    · exact ⟨⟨s.lastId + 1, f⟩, by simp, hid.symm⟩
    · obtain ⟨e, he, rfl⟩ := h.stored id hpos (by omega)
      exact ⟨e, by simp [he], rfl⟩
  pel_pos := h.pel_pos

/-- It stays so with another group. -/
theorem Full.setGroup (h : s.Full) {g : String} {grp : Group} (hp : ∀ p ∈ grp.pel, 0 < p.id) :
    (s.setGroup g grp).Full where
  stored := h.stored
  pel_pos := by
    intro g' grp' hg'
    simp only [Stream.setGroup] at hg'
    by_cases hgg : g' = g
    · subst hgg
      rw [Function.update_self] at hg'
      obtain rfl := Option.some.inj hg'
      exact hp
    · rw [Function.update_of_ne hgg] at hg'
      exact h.pel_pos g' grp' hg'

/-! ## Sets after a change of the stream -/

/-- An appended entry is one more to be given. -/
theorem fresh_append (hw : s.Wf) (f : F) (g : String) :
    (s.append f).fresh g = insert (s.lastId + 1) (s.fresh g) := by
  ext id
  simp only [fresh, append, List.mem_append, List.mem_singleton, Set.mem_ofPred_eq,
    Set.mem_insert_iff]
  constructor
  · rintro ⟨⟨e, he | rfl, rfl⟩, hgrp⟩
    · exact .inr ⟨⟨e, he, rfl⟩, hgrp⟩
    · exact .inl rfl
  · rintro (rfl | ⟨⟨e, he, rfl⟩, hgrp⟩)
    · exact ⟨⟨_, .inr rfl, rfl⟩, fun grp hg => Nat.lt_succ_of_le (hw.groups g grp hg).delivered_le⟩
    · exact ⟨⟨e, .inl he, rfl⟩, hgrp⟩

/-- Another group's change leaves the account alone. -/
theorem fresh_setGroup_of_ne {g g' : String} (h : g ≠ g') (grp : Group) :
    (s.setGroup g' grp).fresh g = s.fresh g := by
  simp [fresh, setGroup, Function.update_of_ne h]

/-- Another group's entries do not matter to what is pending. -/
theorem pending_setGroup_of_ne {g g' : String} (h : g ≠ g') (grp : Group) :
    (s.setGroup g' grp).pending g = s.pending g := by
  simp [pending, setGroup, Function.update_of_ne h]

/-- What a group that was set has yet to be given. -/
theorem mem_fresh_setGroup {g : String} {grp : Group} {id : Nat} :
    id ∈ (s.setGroup g grp).fresh g ↔
      (∃ e ∈ s.entries, e.id = id) ∧ grp.lastDelivered < id := by
  simp [fresh, setGroup]

/-- What is pending in it. -/
theorem mem_pending_setGroup {g : String} {grp : Group} {id : Nat} :
    id ∈ (s.setGroup g grp).pending g ↔ ∃ p ∈ grp.pel, p.id = id := by
  simp [pending, setGroup]

/-- A group that keeps its read position keeps what is new to it. -/
theorem fresh_setGroup_self {g : String} {grp grp' : Group} (hg : s.groups g = some grp)
    (hl : grp'.lastDelivered = grp.lastDelivered) :
    (s.setGroup g grp').fresh g = s.fresh g := by
  ext id
  rw [mem_fresh_setGroup, hl]
  simp [fresh, hg]

/-- A new group that starts at the beginning changes nothing. -/
theorem fresh_create (hw : s.Wf) {g : String} (hg : s.groups g = none) :
    (s.setGroup g ⟨0, []⟩).fresh g = s.fresh g := by
  ext id
  rw [mem_fresh_setGroup]
  simp only [fresh, hg, reduceCtorEq, false_implies, implies_true, and_true, Set.mem_ofPred_eq,
    and_iff_left_iff_imp, forall_exists_index, and_imp]
  rintro e he rfl
  exact hw.ids_pos e he

/-- A new group has nothing pending. -/
theorem pending_create {g : String} (hg : s.groups g = none) :
    (s.setGroup g ⟨0, []⟩).pending g = s.pending g := by
  ext id
  rw [mem_pending_setGroup]
  simp [pending, hg]

/-- A delivery moves the entries it hands out from new to pending. -/
theorem fresh_deliver (hw : s.Wf) {g : String} {grp : Group} (hg : s.groups g = some grp)
    (consumer : String) (now count : Nat) :
    (s.setGroup g (s.deliver grp consumer now count).1).fresh g =
      s.fresh g \ {id | ∃ e ∈ (s.deliver grp consumer now count).2, e.id = id} := by
  ext id
  rw [mem_fresh_setGroup]
  simp only [fresh, hg, Option.some.injEq, forall_eq', Set.mem_sdiff, Set.mem_ofPred_eq]
  constructor
  · rintro ⟨⟨e, he, rfl⟩, hlt⟩
    have hiff := hw.delivered_iff grp consumer now count he
    refine ⟨⟨⟨e, he, rfl⟩, ?_⟩, ?_⟩
    · by_contra hle
      exact absurd (hiff.mpr (.inl (by omega))) (by omega)
    · rintro ⟨e', he', hid⟩
      obtain rfl := hw.eq_of_id_eq (mem_of_mem_deliver he').1 he hid
      exact absurd (hiff.mpr (.inr he')) (by omega)
  · rintro ⟨⟨⟨e, he, rfl⟩, hlt⟩, hno⟩
    refine ⟨⟨e, he, rfl⟩, ?_⟩
    by_contra hle
    rcases (hw.delivered_iff grp consumer now count he).mp (by omega) with h | h
    · omega
    · exact hno ⟨e, h, rfl⟩

/-- What is handed out becomes pending. -/
theorem pending_deliver {g : String} {grp : Group} (hg : s.groups g = some grp)
    (consumer : String) (now count : Nat) :
    (s.setGroup g (s.deliver grp consumer now count).1).pending g =
      s.pending g ∪ {id | ∃ e ∈ (s.deliver grp consumer now count).2, e.id = id} := by
  ext id
  rw [mem_pending_setGroup]
  simp only [pending, hg, Set.mem_union, Set.mem_ofPred_eq, Option.some.injEq, exists_eq_left',
    deliver, List.mem_append, List.mem_map]
  constructor
  · rintro ⟨p, hp | ⟨e, he, rfl⟩, rfl⟩
    · exact .inl ⟨p, hp, rfl⟩
    · exact .inr ⟨e, he, rfl⟩
  · rintro (⟨p, hp, rfl⟩ | ⟨e, he, rfl⟩)
    · exact ⟨p, .inl hp, rfl⟩
    · exact ⟨_, .inr ⟨e, he, rfl⟩, rfl⟩

/-- What a delivery hands out was new. -/
theorem deliver_subset_fresh {g : String} {grp : Group} (hg : s.groups g = some grp)
    (consumer : String) (now count : Nat) :
    {id | ∃ e ∈ (s.deliver grp consumer now count).2, e.id = id} ⊆ s.fresh g := by
  rintro id ⟨e, he, rfl⟩
  obtain ⟨hmem, hlt⟩ := mem_of_mem_deliver he
  refine ⟨⟨e, hmem, rfl⟩, fun grp' hg' => ?_⟩
  obtain rfl : grp = grp' := Option.some.inj (hg.symm.trans hg')
  exact hlt

/-- An acknowledgement ends the pending state of its id. -/
theorem pending_ack {g : String} {grp : Group} (hg : s.groups g = some grp) (id : Nat) :
    (s.setGroup g { grp with pel := grp.pel.filter fun p => p.id ≠ id }).pending g =
      s.pending g \ {id} := by
  ext i
  rw [mem_pending_setGroup]
  simp only [pending, hg, Option.some.injEq, exists_eq_left', Set.mem_sdiff, Set.mem_ofPred_eq,
    Set.mem_singleton_iff, List.mem_filter, decide_eq_true_eq]
  constructor
  · rintro ⟨p, ⟨hp, hne⟩, rfl⟩
    exact ⟨⟨p, hp, rfl⟩, hne⟩
  · rintro ⟨⟨p, hp, rfl⟩, hne⟩
    exact ⟨p, ⟨hp, hne⟩, rfl⟩

/-- A group with the same pending ids has the same account. -/
theorem pending_setGroup_of_ids {g : String} {grp grp' : Group} (hg : s.groups g = some grp)
    (hids : grp'.pel.map PendingEntry.id = grp.pel.map PendingEntry.id) :
    (s.setGroup g grp').pending g = s.pending g := by
  ext id
  have h : ∀ l : List PendingEntry, (∃ p ∈ l, p.id = id) ↔ id ∈ l.map PendingEntry.id := by
    simp
  rw [mem_pending_setGroup]
  simp only [pending, hg, Option.some.injEq, exists_eq_left', Set.mem_ofPred_eq]
  rw [h, h, hids]

end Stream

/-! ## Commands -/

namespace Keyspace

variable {F : Type} {ks : Keyspace F}

/-- The stream a command that neither evicts nor deletes leaves is full if it was. -/
theorem full_apply (hw : ks.Wf) {k : String} (h : (ks k).Full) (now : Nat) {c : Cmd F}
    (hd : c.deletes = false) : ((ks.apply now 0 c).1 k).Full := by
  by_cases hk : k = c.key
  swap
  · rwa [apply_of_ne ks now 0 c hk]
  subst hk
  cases c with
  | xlen k => exact h
  | xadd k f m =>
    simpa [Keyspace.apply, Cmd.key, Stream.evict] using h.append f
  | xgroupCreate k g start =>
    simp only [Keyspace.apply, Cmd.key] at h ⊢
    cases (ks k).groups g with
    | some grp => exact h
    | none =>
      simpa using h.setGroup (by simp)
  | xreadgroup g consumer k count block =>
    simp only [Keyspace.apply, Cmd.key] at h ⊢
    cases hg : (ks k).groups g with
    | none => exact h
    | some grp =>
      simp only [Function.update_self]
      refine h.setGroup fun p hp => ?_
      rcases List.mem_append.mp hp with hp | hp
      · exact h.pel_pos g grp hg p hp
      · obtain ⟨e, he, rfl⟩ := List.mem_map.mp hp
        exact (hw k).ids_pos e (Stream.mem_undelivered.mp (List.mem_of_mem_take he)).1
  | xack k g id =>
    simp only [Keyspace.apply, Cmd.key] at h ⊢
    cases hg : (ks k).groups g with
    | none => exact h
    | some grp =>
      simp only [Function.update_self]
      exact h.setGroup fun p hp => h.pel_pos g grp hg p (List.mem_of_mem_filter hp)
  | xautoclaim k g consumer minIdle start count =>
    simp only [Keyspace.apply, Cmd.key] at h ⊢
    split
    · exact h
    · cases hg : (ks k).groups g with
      | none => exact h
      | some grp =>
        simp only [Function.update_self]
        -- a claim invents no pending id: those it leaves were pending before
        refine h.setGroup fun p hp => ?_
        have hids := (grp.claim_ids_sublist (fun id => (ks k).entries.any fun e => e.id = id)
          consumer now minIdle start count).subset (List.mem_map_of_mem hp)
        obtain ⟨q, hq, hqp⟩ := List.mem_map.mp hids
        exact hqp ▸ h.pel_pos g grp hg q hq
  | xrevrange k count => exact h
  | xdel k id => cases hd

/-- What one command can do to the account of group `g` of key `k`. -/
inductive Account (s t : Stream F) (k g : String) : Cmd F → Prop
  /-- Nothing. -/
  | quiet {c : Cmd F} : (∀ id, c ≠ .xack k g id) → t.fresh g = s.fresh g →
      t.pending g = s.pending g → Account s t k g c
  /-- One more entry is new. -/
  | add {f : F} {m : Option (Nat × Bool)} : t.fresh g = insert (s.lastId + 1) (s.fresh g) →
      t.pending g = s.pending g → Account s t k g (.xadd k f m)
  /-- New entries become pending. -/
  | deliver {c : Cmd F} {ids : Set Nat} : (∀ id, c ≠ .xack k g id) → ids ⊆ s.fresh g →
      t.fresh g = s.fresh g \ ids → t.pending g = s.pending g ∪ ids → Account s t k g c
  /-- An entry is pending no longer. -/
  | ack {id : Nat} : t.fresh g = s.fresh g → t.pending g = s.pending g \ {id} →
      Account s t k g (.xack k g id)

/-- **The effect of a command on the account of a group**, when no entry is lost. -/
theorem apply_account (hw : ks.Wf) {k : String} (hf : (ks k).Full) (g : String) (now : Nat)
    {c : Cmd F} (hc : c.fromStart) (hd : c.deletes = false) :
    Account (ks k) ((ks.apply now 0 c).1 k) k g c := by
  by_cases hk : k = c.key
  swap
  · -- a command on another key, which is no acknowledgement of this group
    rw [apply_of_ne ks now 0 c hk]
    refine .quiet (fun id h => hk ?_) rfl rfl
    rw [h]; rfl
  subst hk
  cases c with
  | xlen k => exact .quiet (by simp) rfl rfl
  | xadd k f m =>
    simp only [Keyspace.apply, Cmd.key, Function.update_self, Stream.evict, List.drop_zero]
    exact .add (Stream.fresh_append (hw k) f g) rfl
  | xgroupCreate k g' start =>
    obtain rfl : start = 0 := hc
    simp only [Keyspace.apply, Cmd.key]
    cases hg : (ks k).groups g' with
    | some grp => exact .quiet (by simp) rfl rfl
    | none =>
      simp only [Function.update_self]
      by_cases hgg : g = g'
      · subst hgg
        exact .quiet (by simp) (Stream.fresh_create (hw k) hg) (Stream.pending_create hg)
      · -- another group's position has no part in this group's account
        exact .quiet (by simp) (Stream.fresh_setGroup_of_ne hgg _)
          (Stream.pending_setGroup_of_ne hgg _)
  | xreadgroup g' consumer k count block =>
    simp only [Keyspace.apply, Cmd.key]
    cases hg : (ks k).groups g' with
    | none => exact .quiet (by simp) rfl rfl
    | some grp =>
      simp only [Function.update_self]
      by_cases hgg : g = g'
      · subst hgg
        exact .deliver (by simp) (Stream.deliver_subset_fresh hg consumer now count)
          (Stream.fresh_deliver (hw k) hg consumer now count)
          (Stream.pending_deliver hg consumer now count)
      · exact .quiet (by simp) (Stream.fresh_setGroup_of_ne hgg _)
          (Stream.pending_setGroup_of_ne hgg _)
  | xack k g' id =>
    simp only [Keyspace.apply, Cmd.key]
    by_cases hgg : g = g'
    · subst hgg
      cases hg : (ks k).groups g with
      -- `XACK` to a group that is not there answers 0 and removes nothing.
      | none => exact .ack rfl (by ext i; simp [Stream.pending, hg])
      | some grp =>
        simp only [Function.update_self]
        exact .ack (Stream.fresh_setGroup_self hg rfl) (Stream.pending_ack hg id)
    · have hne : ∀ i, (Cmd.xack k g' id : Cmd F) ≠ .xack k g i := by
        intro i h
        exact hgg (Cmd.xack.inj h).2.1.symm
      cases hg : (ks k).groups g' with
      | none => exact .quiet hne rfl rfl
      | some grp =>
        simp only [Function.update_self]
        exact .quiet hne (Stream.fresh_setGroup_of_ne hgg _)
          (Stream.pending_setGroup_of_ne hgg _)
  | xautoclaim k g' consumer minIdle start count =>
    simp only [Keyspace.apply, Cmd.key]
    split
    · exact .quiet (by simp) rfl rfl
    · cases hg : (ks k).groups g' with
      | none => exact .quiet (by simp) rfl rfl
      | some grp =>
        simp only [Function.update_self]
        by_cases hgg : g = g'
        · subst hgg
          refine .quiet (by simp) (Stream.fresh_setGroup_self hg rfl)
            (Stream.pending_setGroup_of_ids hg ?_)
          -- a claim drops a pending id only when its entry is gone; a full stream keeps them all
          refine Group.claim_ids_eq consumer now minIdle start count fun p hp => ?_
          have hst := Stream.Full.pel_stored (s := ks k) hf (hw k) hg hp
          simpa using hst
        · exact .quiet (by simp) (Stream.fresh_setGroup_of_ne hgg _)
            (Stream.pending_setGroup_of_ne hgg _)
  | xrevrange k count => exact .quiet (by simp) rfl rfl
  | xdel k id => cases hd

end Keyspace

/-! ## Acknowledged entries -/

/-- The group has been given the entry and holds it pending no longer. -/
def Group.Acked (grp : Group) (id : Nat) : Prop :=
  id ≤ grp.lastDelivered ∧ ∀ p ∈ grp.pel, p.id ≠ id

namespace Keyspace

variable {F : Type}

/-- **What is acknowledged stays acknowledged**: no command makes it pending again. -/
theorem apply_acked (ks : Keyspace F) (now evicted : Nat) (c : Cmd F) {k g : String} {grp : Group}
    {id : Nat} (h : (ks k).groups g = some grp) (ha : grp.Acked id) :
    ∃ grp', ((ks.apply now evicted c).1 k).groups g = some grp' ∧ grp'.Acked id := by
  by_cases hk : k = c.key
  swap
  · exact ⟨grp, by rw [apply_of_ne ks now evicted c hk, h], ha⟩
  subst hk
  have hset : ∀ {g' : String} {old new : Group}, (ks c.key).groups g' = some old →
      (old.Acked id → new.Acked id) →
      ∃ grp', ((ks c.key).setGroup g' new).groups g = some grp' ∧ grp'.Acked id := by
    intro g' old new hg hnew
    by_cases hgg : g = g'
    · subst hgg
      obtain rfl := Option.some.inj (hg.symm.trans h)
      exact ⟨new, Function.update_self .., hnew ha⟩
    · exact ⟨grp, (Function.update_of_ne hgg ..).trans h, ha⟩
  cases c with
  | xlen k => exact ⟨grp, h, ha⟩
  | xadd k f m =>
    simp only [apply, Cmd.key, Function.update_self] at h ⊢
    exact ⟨grp, h, ha⟩
  | xgroupCreate k g' start =>
    simp only [apply, Cmd.key] at h ⊢
    cases hg : (ks k).groups g' with
    | some old => exact ⟨grp, h, ha⟩
    | none =>
      have hgg : g ≠ g' := fun hgg => by simp [hgg, hg] at h
      exact ⟨grp, by simpa [Stream.setGroup, Function.update_of_ne hgg] using h, ha⟩
  | xreadgroup g' consumer k count block =>
    simp only [apply, Cmd.key] at h hset ⊢
    cases hg : (ks k).groups g' with
    | none => exact ⟨grp, h, ha⟩
    | some old =>
      simp only [Function.update_self]
      refine hset hg fun ho => ⟨ho.1.trans (Stream.lastDelivered_le_deliver ..), fun p hp => ?_⟩
      rcases List.mem_append.mp hp with hp | hp
      · exact ho.2 p hp
      · -- what is delivered lies beyond what was delivered before
        obtain ⟨e, he, rfl⟩ := List.mem_map.mp hp
        have hnew : e ∈ ((ks k).deliver old consumer now count).2 := he
        have hlt := (Stream.mem_of_mem_deliver hnew).2
        have hle := ho.1
        dsimp only
        omega
  | xack k g' id' =>
    simp only [apply, Cmd.key] at h hset ⊢
    cases hg : (ks k).groups g' with
    | none => exact ⟨grp, h, ha⟩
    | some old =>
      simp only [Function.update_self]
      exact hset hg fun ho => ⟨ho.1, fun p hp => ho.2 p (List.mem_of_mem_filter hp)⟩
  | xautoclaim k g' consumer minIdle start count =>
    simp only [apply, Cmd.key] at h hset ⊢
    split
    · exact ⟨grp, h, ha⟩
    · cases hg : (ks k).groups g' with
      | none => exact ⟨grp, h, ha⟩
      | some old =>
        simp only [Function.update_self]
        refine hset hg fun ho => ⟨ho.1, fun p hp => ?_⟩
        have hids := (old.claim_ids_sublist (fun id => (ks k).entries.any fun e => e.id = id)
          consumer now minIdle start count).subset (List.mem_map_of_mem hp)
        obtain ⟨q, hq, hqp⟩ := List.mem_map.mp hids
        exact hqp ▸ ho.2 q hq
  | xrevrange k count => exact ⟨grp, h, ha⟩
  | xdel k id =>
    simp only [apply, Cmd.key, Function.update_self] at h ⊢
    exact ⟨grp, h, ha⟩

end Keyspace

end RelayQ.Redis

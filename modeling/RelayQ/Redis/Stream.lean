import Mathlib.Data.List.Sort
import Mathlib.Logic.Function.Basic
import Mathlib.Tactic.Common

/-! # Redis streams with consumer groups

The commands of a stream server over entries with an arbitrary field type `F`: appending with a
length limit, reading through a consumer group, acknowledging, claiming idle pending entries, and
reading and deleting entries past all groups.
Entry ids are numbered in the order of appending; only their order is ever used.

* `Stream`, `Group`, `PendingEntry`: one key's stream, its consumer groups, their pending lists.
* `Cmd` and `Keyspace.apply`: the commands and what each does to the keyspace.
* `Stream.Wf`: ids ascend, and every group's pending list holds delivered ids in ascending order.
  Every command keeps it (`Keyspace.apply_wf`). -/

namespace RelayQ.Redis

/-- A stream entry. -/
structure Entry (F : Type) where
  /-- The id; ids ascend in the order of appending. -/
  id : Nat
  /-- The body. -/
  fields : F

/-- An entry of a group's pending list: delivered and not acknowledged. -/
structure PendingEntry where
  /-- The id of the delivered entry. -/
  id : Nat
  /-- The consumer that owns it. -/
  consumer : String
  /-- When it was last delivered or claimed; its idle time counts from here. -/
  deliveredAt : Nat

/-- A consumer group: how far it has read and what it has not acknowledged. -/
structure Group where
  /-- Entries up to this id have been delivered. -/
  lastDelivered : Nat
  /-- The pending list, in id order. -/
  pel : List PendingEntry

/-- The stream stored at one key. A key that does not exist is the empty stream without groups. -/
structure Stream (F : Type) where
  /-- The entries, oldest first. -/
  entries : List (Entry F)
  /-- The highest id ever given out. -/
  lastId : Nat
  /-- The consumer groups, by name. -/
  groups : String → Option Group

/-- Every key of the server. -/
abbrev Keyspace (F : Type) : Type := String → Stream F

/-- The stream of a key that does not exist. -/
def Stream.empty (F : Type) : Stream F := ⟨[], 0, fun _ => none⟩

namespace Stream

variable {F : Type}

/-- Append one entry under the next id. -/
def append (s : Stream F) (f : F) : Stream F :=
  { s with entries := s.entries ++ [⟨s.lastId + 1, f⟩], lastId := s.lastId + 1 }

/-- Evict the `n` oldest entries. -/
def evict (s : Stream F) (n : Nat) : Stream F := { s with entries := s.entries.drop n }

/-- Delete the entry with an id. The groups' pending lists keep it. -/
def delete (s : Stream F) (id : Nat) : Stream F :=
  { s with entries := s.entries.filter fun e => e.id ≠ id }

/-- Replace a group. -/
def setGroup (s : Stream F) (g : String) (grp : Group) : Stream F :=
  { s with groups := Function.update s.groups g (some grp) }

/-- The group that was replaced. -/
@[simp] theorem setGroup_groups_self (s : Stream F) (g : String) (grp : Group) :
    (s.setGroup g grp).groups g = some grp :=
  Function.update_self ..

/-- The entries a group has not been given yet, oldest first. -/
def undelivered (s : Stream F) (grp : Group) : List (Entry F) :=
  s.entries.filter fun e => grp.lastDelivered < e.id

/-- Deliver up to `count` new entries of a group to a consumer. -/
def deliver (s : Stream F) (grp : Group) (consumer : String) (now count : Nat) :
    Group × List (Entry F) :=
  let new := (s.undelivered grp).take count
  (⟨(new.getLast?.map Entry.id).getD grp.lastDelivered,
    grp.pel ++ new.map fun e => ⟨e.id, consumer, now⟩⟩, new)

end Stream

/-- Walk a pending list and claim idle entries for `consumer`: at most `attempts` entries are
examined and at most `count` claimed or, when they are no longer stored, dropped. Returns the new
pending list, the claimed ids and the id to continue from (`0` at the end). -/
def claimScan (stored : Nat → Bool) (consumer : String) (now minIdle : Nat) :
    Nat → Nat → List PendingEntry → List PendingEntry × List Nat × Nat
  | _, _, [] => ([], [], 0)
  | 0, _, p :: l => (p :: l, [], p.id)
  | _ + 1, 0, p :: l => (p :: l, [], p.id)
  | attempts + 1, count + 1, p :: l =>
    if stored p.id then
      if now - p.deliveredAt < minIdle then
        let r := claimScan stored consumer now minIdle attempts (count + 1) l
        (p :: r.1, r.2)
      else
        let r := claimScan stored consumer now minIdle attempts count l
        (⟨p.id, consumer, now⟩ :: r.1, p.id :: r.2.1, r.2.2)
    else claimScan stored consumer now minIdle attempts count l

/-- The stream commands a client sends. -/
inductive Cmd (F : Type)
  /-- `XLEN key` -/
  | xlen (key : String)
  /-- `XADD key [MAXLEN [~] n] * fields`; the flag is the `~`. -/
  | xadd (key : String) (fields : F) (maxlen : Option (Nat × Bool))
  /-- `XGROUP CREATE key group start MKSTREAM` -/
  | xgroupCreate (key group : String) (start : Nat)
  /-- `XREADGROUP GROUP group consumer COUNT count BLOCK block STREAMS key >` -/
  | xreadgroup (group consumer key : String) (count block : Nat)
  /-- `XACK key group id` -/
  | xack (key group : String) (id : Nat)
  /-- `XAUTOCLAIM key group consumer min-idle start COUNT count` -/
  | xautoclaim (key group consumer : String) (minIdle start count : Nat)
  /-- `XREVRANGE key + - COUNT count` -/
  | xrevrange (key : String) (count : Nat)
  /-- `XDEL key id` -/
  | xdel (key : String) (id : Nat)

/-- Errors the server answers a command with. -/
inductive CmdError
  /-- `XGROUP CREATE` of a group that exists. -/
  | busyGroup
  /-- The group does not exist. -/
  | noGroup
  /-- `XAUTOCLAIM` with a count of zero. -/
  | badCount
  deriving DecidableEq, Repr

namespace Cmd

variable {F : Type}

/-- The key a command works on. -/
def key : Cmd F → String
  | xlen k => k
  | xadd k _ _ => k
  | xgroupCreate k _ _ => k
  | xreadgroup _ _ k _ _ => k
  | xack k _ _ => k
  | xautoclaim k _ _ _ _ _ => k
  | xrevrange k _ => k
  | xdel k _ => k

/-- The reply of a command: `XREADGROUP` answers with the streams that had something to deliver,
`XAUTOCLAIM` with a cursor and the claimed entries. -/
abbrev Res : Cmd F → Type
  | xlen _ => Nat
  | xadd _ _ _ => Nat
  | xgroupCreate _ _ _ => Unit
  | xreadgroup _ _ _ _ _ => List (String × List (Entry F))
  | xack _ _ _ => Nat
  | xautoclaim _ _ _ _ _ _ => Nat × List (Entry F)
  | xrevrange _ _ => List (Entry F)
  | xdel _ _ => Nat

/-- May this command, run on stream `s`, evict `n` entries? Approximate trimming removes some of
the entries above the limit, exact trimming all of them, and no other command removes any. -/
def mayEvict (s : Stream F) (n : Nat) : Cmd F → Bool
  | xadd _ _ (some (limit, true)) => n ≤ s.entries.length + 1 - limit
  | xadd _ _ (some (limit, false)) => n = s.entries.length + 1 - limit
  | _ => n = 0

/-- The key and the body of the entry a command adds, if it adds one. -/
def added? : Cmd F → Option (String × F)
  | xadd k f _ => some (k, f)
  | _ => none

/-- Does the command only read? -/
def readOnly : Cmd F → Bool
  | xlen _ | xrevrange _ _ => true
  | _ => false

/-- Does the command delete entries by their ids? -/
def deletes : Cmd F → Bool
  | xdel _ _ => true
  | _ => false

/-- May the command take entries away from the stream of a key: by a deletion, or by a length limit
it appends under? -/
def removesFrom (k : String) : Cmd F → Bool
  | xadd k' _ (some _) => k' = k
  | xdel k' _ => k' = k
  | _ => false

/-- Groups are created to read from the beginning of the stream. -/
def fromStart : Cmd F → Prop
  | xgroupCreate _ _ start => start = 0
  | _ => True

end Cmd

namespace Keyspace

variable {F : Type}

/-- Carry out a command at time `now`, evicting `evicted` entries if it is an `XADD`. -/
def apply (ks : Keyspace F) (now evicted : Nat) :
    (c : Cmd F) → Keyspace F × Except CmdError c.Res
  | .xlen k => (ks, .ok (ks k).entries.length)
  | .xadd k f _ =>
    (Function.update ks k (((ks k).append f).evict evicted), .ok ((ks k).lastId + 1))
  | .xgroupCreate k g start =>
    match (ks k).groups g with
    | some _ => (ks, .error .busyGroup)
    | none => (Function.update ks k ((ks k).setGroup g ⟨start, []⟩), .ok ())
  | .xreadgroup g consumer k count _ =>
    match (ks k).groups g with
    | none => (ks, .error .noGroup)
    | some grp =>
      let d := (ks k).deliver grp consumer now count
      (Function.update ks k ((ks k).setGroup g d.1),
        .ok (if d.2.isEmpty then [] else [(k, d.2)]))
  | .xack k g id =>
    match (ks k).groups g with
    | none => (ks, .ok (0 : Nat))
    | some grp =>
      (Function.update ks k ((ks k).setGroup g
          { grp with pel := grp.pel.filter fun p => p.id ≠ id }),
        .ok (grp.pel.countP fun p => p.id = id))
  | .xautoclaim k g consumer minIdle start count =>
    if count = 0 then (ks, .error .badCount)
    else match (ks k).groups g with
    | none => (ks, .error .noGroup)
    | some grp =>
      let stored := fun id => (ks k).entries.any fun e => e.id = id
      let r := claimScan stored consumer now minIdle (10 * count) count
        (grp.pel.dropWhile fun p => p.id < start)
      (Function.update ks k ((ks k).setGroup g
          { grp with pel := (grp.pel.takeWhile fun p => p.id < start) ++ r.1 }),
        .ok (r.2.2, r.2.1.filterMap fun id => (ks k).entries.find? fun e => e.id = id))
  | .xrevrange k count => (ks, .ok ((ks k).entries.reverse.take count))
  | .xdel k id =>
    (Function.update ks k ((ks k).delete id), .ok ((ks k).entries.countP fun e => e.id = id))

/-- A command that only reads changes nothing. -/
theorem apply_of_readOnly (ks : Keyspace F) (now evicted : Nat) {c : Cmd F}
    (h : c.readOnly = true) : (ks.apply now evicted c).1 = ks := by
  cases c with
  | xlen _ | xrevrange _ _ => rfl
  | _ => cases h

/-- **Frame**: a command changes its own key only. -/
theorem apply_of_ne (ks : Keyspace F) (now evicted : Nat) (c : Cmd F) {k : String}
    (hk : k ≠ c.key) : (ks.apply now evicted c).1 k = ks k := by
  cases c with
  | xlen k' => rfl
  | xadd k' f m => exact Function.update_of_ne hk _ _
  | xgroupCreate k' g start =>
    simp only [apply]
    cases (ks k').groups g with
    | none => exact Function.update_of_ne hk _ _
    | some grp => rfl
  | xreadgroup g consumer k' count block =>
    simp only [apply]
    cases (ks k').groups g with
    | none => rfl
    | some grp => exact Function.update_of_ne hk _ _
  | xack k' g id =>
    simp only [apply]
    cases (ks k').groups g with
    | none => rfl
    | some grp => exact Function.update_of_ne hk _ _
  | xautoclaim k' g consumer minIdle start count =>
    simp only [apply]
    split
    · rfl
    · cases (ks k').groups g with
      | none => rfl
      | some grp => exact Function.update_of_ne hk _ _
  | xrevrange k' count => rfl
  | xdel k' id => exact Function.update_of_ne hk _ _

/-- **Only `XADD` and `XDEL` change what is stored.** -/
theorem apply_entries (ks : Keyspace F) (now evicted : Nat) {c : Cmd F} (hc : c.added? = none)
    (hd : c.deletes = false) (k : String) : ((ks.apply now evicted c).1 k).entries = (ks k).entries ∧
      ((ks.apply now evicted c).1 k).lastId = (ks k).lastId := by
  by_cases hk : k = c.key
  swap
  · rw [apply_of_ne ks now evicted c hk]
    exact ⟨rfl, rfl⟩
  subst hk
  cases c with
  | xlen k => exact ⟨rfl, rfl⟩
  | xadd k f m => cases hc
  | xgroupCreate k g start =>
    simp only [apply, Cmd.key]
    cases (ks k).groups g <;> simp [Stream.setGroup]
  | xreadgroup g consumer k count block =>
    simp only [apply, Cmd.key]
    cases (ks k).groups g <;> simp [Stream.setGroup]
  | xack k g id =>
    simp only [apply, Cmd.key]
    cases (ks k).groups g <;> simp [Stream.setGroup]
  | xautoclaim k g consumer minIdle start count =>
    simp only [apply, Cmd.key]
    split
    · exact ⟨rfl, rfl⟩
    · cases (ks k).groups g <;> simp [Stream.setGroup]
  | xrevrange k count => exact ⟨rfl, rfl⟩
  | xdel k id => cases hd

/-- What is stored after a command was stored before or has a new id; ids given out stay so. -/
theorem mem_of_mem_apply (ks : Keyspace F) (now evicted : Nat) (c : Cmd F) {k : String} :
    (∀ e ∈ ((ks.apply now evicted c).1 k).entries, e ∈ (ks k).entries ∨ (ks k).lastId < e.id) ∧
      (ks k).lastId ≤ ((ks.apply now evicted c).1 k).lastId := by
  cases hc : c.added? with
  | none =>
    cases hd : c.deletes with
    | false =>
      obtain ⟨hent, hid⟩ := apply_entries ks now evicted hc hd k
      exact ⟨fun e he => .inl (hent ▸ he), hid.ge⟩
    | true =>
      cases c with
      | xdel k' id =>
        by_cases hk : k = k'
        · subst hk
          simp only [apply, Function.update_self, Stream.delete]
          exact ⟨fun e he => .inl (List.mem_of_mem_filter he), le_rfl⟩
        · rw [apply_of_ne ks now evicted (.xdel k' id) hk]
          exact ⟨fun e he => .inl he, le_rfl⟩
      | _ => cases hd
  | some kf =>
    cases c with
    | xadd k' f m =>
      by_cases hk : k = k'
      · subst hk
        refine ⟨fun e he => ?_, by simp [apply, Stream.append, Stream.evict]⟩
        simp only [apply, Function.update_self, Stream.evict] at he
        rcases List.mem_append.mp (List.mem_of_mem_drop he) with he | he
        · exact .inl he
        · obtain rfl := List.mem_singleton.mp he
          exact .inr (Nat.lt_succ_self _)
      · rw [apply_of_ne ks now evicted (.xadd k' f m) hk]
        exact ⟨fun e he => .inl he, le_rfl⟩
    | _ => cases hc

/-- What is stored after a command was stored before, or it is what the command adds. -/
theorem added_of_mem_apply {ks : Keyspace F} {now evicted : Nat} {c : Cmd F} {k : String}
    {e : Entry F} (he : e ∈ ((ks.apply now evicted c).1 k).entries) :
    e ∈ (ks k).entries ∨ c.added? = some (k, e.fields) := by
  cases hc : c.added? with
  | none =>
    cases hd : c.deletes with
    | false => exact .inl ((apply_entries ks now evicted hc hd k).1 ▸ he)
    | true =>
      cases c with
      | xdel k' id =>
        by_cases hk : k = k'
        · subst hk
          simp only [apply, Function.update_self, Stream.delete] at he
          exact .inl (List.mem_of_mem_filter he)
        · rw [apply_of_ne ks now evicted (.xdel k' id) hk] at he
          exact .inl he
      | _ => cases hd
  | some kf =>
    cases c with
    | xadd k' f m =>
      by_cases hk : k = k'
      · subst hk
        simp only [apply, Function.update_self, Stream.evict] at he
        rcases List.mem_append.mp (List.mem_of_mem_drop he) with he | he
        · exact .inl he
        · obtain rfl := List.mem_singleton.mp he
          exact .inr hc.symm
      · rw [apply_of_ne ks now evicted (.xadd k' f m) hk] at he
        exact .inl he
    | _ => cases hc

/-- **What is added gets the next id.** -/
theorem apply_of_added (ks : Keyspace F) (now evicted : Nat) {c : Cmd F} {k : String} {f : F}
    (hc : c.added? = some (k, f)) :
    ((ks.apply now evicted c).1 k).lastId = (ks k).lastId + 1 ∧
      ∀ e ∈ ((ks.apply now evicted c).1 k).entries, e ∈ (ks k).entries ∨ e = ⟨(ks k).lastId + 1, f⟩ := by
  cases c with
  | xadd k' f' m =>
    obtain ⟨rfl, rfl⟩ := Prod.mk.inj (Option.some.inj hc)
    simp only [apply, Function.update_self, Stream.evict, Stream.append]
    refine ⟨trivial, fun e he => ?_⟩
    exact (List.mem_append.mp (List.mem_of_mem_drop he)).imp_right List.mem_singleton.mp
  | _ => cases hc

/-- Where nothing is added no id is given out. -/
theorem apply_of_not_added (ks : Keyspace F) (now evicted : Nat) {c : Cmd F} {k : String}
    (hc : ∀ f, c.added? ≠ some (k, f)) :
    ((ks.apply now evicted c).1 k).lastId = (ks k).lastId ∧
      ∀ e ∈ ((ks.apply now evicted c).1 k).entries, e ∈ (ks k).entries := by
  refine ⟨?_, fun e he => (added_of_mem_apply he).resolve_right (hc e.fields)⟩
  by_cases hkey : k = c.key
  swap
  · rw [apply_of_ne ks now evicted c hkey]
  cases c with
  | xadd k' f m => exact absurd (hkey ▸ rfl) (hc f)
  | xdel k' id =>
    obtain rfl : k = k' := hkey
    simp [apply, Stream.delete]
  | _ => exact (apply_entries ks now evicted rfl rfl k).2

/-- A command that neither evicts nor deletes loses no entry. -/
theorem mem_apply_of_mem (ks : Keyspace F) (now : Nat) {c : Cmd F} (hd : c.deletes = false)
    {k : String} {e : Entry F} (he : e ∈ (ks k).entries) :
    e ∈ ((ks.apply now 0 c).1 k).entries := by
  cases hc : c.added? with
  | none => rwa [(apply_entries ks now 0 hc hd k).1]
  | some kf =>
    cases c with
    | xadd k' f m =>
      by_cases hk : k = k'
      · subst hk
        simp [apply, Stream.append, Stream.evict, he]
      · rwa [apply_of_ne ks now 0 _ hk]
    | _ => cases hc

/-- What no command takes entries from only grows at its end. -/
theorem entries_prefix_apply (ks : Keyspace F) (now evicted : Nat) {c : Cmd F} {k : String}
    (hk : c.removesFrom k = false) (hn : c.mayEvict (ks c.key) evicted = true) :
    (ks k).entries <+: ((ks.apply now evicted c).1 k).entries := by
  by_cases hkey : k = c.key
  swap
  · exact (apply_of_ne ks now evicted c hkey).symm ▸ List.prefix_refl _
  cases hc : c.added? with
  | none =>
    cases hd : c.deletes with
    | false => exact (apply_entries ks now evicted hc hd k).1 ▸ List.prefix_refl _
    | true =>
      cases c with
      | xdel k' id => exact absurd hkey.symm (of_decide_eq_false hk)
      | _ => cases hd
  | some kf =>
    cases c with
    | xadd k' f m =>
      obtain rfl : k = k' := hkey
      cases m with
      | some lim => exact absurd rfl (of_decide_eq_false hk)
      | none =>
        obtain rfl : evicted = 0 := of_decide_eq_true hn
        simp [apply, Stream.append, Stream.evict]
    | _ => cases hc

/-- A stream of at least `D` entries has as many after any command that deletes none by its id and
trims it, if it does, to a limit from `D` on. -/
theorem le_length_apply (ks : Keyspace F) (now evicted : Nat) {c : Cmd F} {k : String} {D : Nat}
    (hd : c.deletes = false) (hn : c.mayEvict (ks c.key) evicted = true)
    (hlim : ∀ f lim approx, c = .xadd k f (some (lim, approx)) → D ≤ lim)
    (h : D ≤ (ks k).entries.length) : D ≤ ((ks.apply now evicted c).1 k).entries.length := by
  by_cases hkey : k = c.key
  swap
  · rwa [apply_of_ne ks now evicted c hkey]
  cases hc : c.added? with
  | none => rwa [(apply_entries ks now evicted hc hd k).1]
  | some kf =>
    cases c with
    | xadd k' f m =>
      obtain rfl : k = k' := hkey
      have hlen : ((ks.apply now evicted (.xadd k f m)).1 k).entries.length =
          (ks k).entries.length + 1 - evicted := by
        simp [apply, Stream.append, Stream.evict]
      rw [hlen]
      rcases m with _ | ⟨lim, _ | _⟩
      · have hzero : evicted = 0 := of_decide_eq_true hn
        omega
      · have hD := hlim f lim false rfl
        have hexact : evicted = (ks k).entries.length + 1 - lim := of_decide_eq_true hn
        omega
      · have hD := hlim f lim true rfl
        have hle : evicted ≤ (ks k).entries.length + 1 - lim := of_decide_eq_true hn
        omega
    | _ => cases hc

end Keyspace

/-! ## Well-formed streams -/

/-- A group has read no further than the stream reaches, and its pending list holds delivered ids
in ascending order. -/
structure Group.Wf (grp : Group) (lastId : Nat) : Prop where
  delivered_le : grp.lastDelivered ≤ lastId
  pel_le : ∀ p ∈ grp.pel, p.id ≤ grp.lastDelivered
  pel_sorted : (grp.pel.map PendingEntry.id).Pairwise (· < ·)

/-- Ids ascend and are at most the last id given out, and every group is well formed. -/
structure Stream.Wf {F : Type} (s : Stream F) : Prop where
  ids_sorted : (s.entries.map Entry.id).Pairwise (· < ·)
  ids_le : ∀ e ∈ s.entries, e.id ≤ s.lastId
  ids_pos : ∀ e ∈ s.entries, 0 < e.id
  groups : ∀ g grp, s.groups g = some grp → grp.Wf s.lastId

namespace Stream

variable {F : Type} {s : Stream F} {grp : Group}

/-- The stream of a missing key is well formed. -/
theorem wf_empty : (empty F).Wf := by
  constructor <;> simp [empty]

/-- An entry is determined by its id. -/
theorem Wf.eq_of_id_eq (h : s.Wf) {e e' : Entry F} (he : e ∈ s.entries) (he' : e' ∈ s.entries)
    (hid : e.id = e'.id) : e = e' := by
  have hnd : (s.entries.map Entry.id).Nodup := h.ids_sorted.imp fun hlt => Nat.ne_of_lt hlt
  exact List.inj_on_of_nodup_map hnd he he' hid

/-- Appending keeps a stream well formed. -/
theorem Wf.append (h : s.Wf) (f : F) : (s.append f).Wf where
  ids_sorted := by
    simp only [Stream.append, List.map_append, List.map_cons, List.map_nil]
    refine List.pairwise_append.mpr ⟨h.ids_sorted, List.pairwise_singleton _ _, ?_⟩
    intro a ha b hb
    obtain ⟨e, he, rfl⟩ := List.mem_map.mp ha
    have := h.ids_le e he
    simp only [List.mem_singleton] at hb
    omega
  ids_le := by
    intro e he
    rcases List.mem_append.mp he with he | he
    · exact Nat.le_succ_of_le (h.ids_le e he)
    · rw [List.mem_singleton.mp he]; exact Nat.le_refl _
  ids_pos := by
    intro e he
    rcases List.mem_append.mp he with he | he
    · exact h.ids_pos e he
    · rw [List.mem_singleton.mp he]; exact Nat.succ_pos _
  groups := fun g grp hg =>
    let w := h.groups g grp hg
    ⟨Nat.le_succ_of_le w.delivered_le, w.pel_le, w.pel_sorted⟩

/-- Evicting keeps a stream well formed. -/
theorem Wf.evict (h : s.Wf) (n : Nat) : (s.evict n).Wf where
  ids_sorted := by
    simp only [Stream.evict, List.map_drop]
    exact h.ids_sorted.sublist (List.drop_sublist _ _)
  ids_le := fun e he => h.ids_le e (List.mem_of_mem_drop he)
  ids_pos := fun e he => h.ids_pos e (List.mem_of_mem_drop he)
  groups := h.groups

/-- Storing a well-formed group keeps a stream well formed. -/
theorem Wf.setGroup (h : s.Wf) (g : String) (hg : grp.Wf s.lastId) : (s.setGroup g grp).Wf where
  ids_sorted := h.ids_sorted
  ids_le := h.ids_le
  ids_pos := h.ids_pos
  groups := by
    intro g' grp' hg'
    simp only [Stream.setGroup] at hg'
    by_cases hgg : g' = g
    · subst hgg
      rw [Function.update_self] at hg'
      exact Option.some.inj hg' ▸ hg
    · rw [Function.update_of_ne hgg] at hg'
      exact h.groups g' grp' hg'

/-- Deleting keeps a stream well formed. -/
theorem Wf.delete (h : s.Wf) (id : Nat) : (s.delete id).Wf where
  ids_sorted := h.ids_sorted.sublist (List.filter_sublist.map _)
  ids_le := fun e he => h.ids_le e (List.mem_of_mem_filter he)
  ids_pos := fun e he => h.ids_pos e (List.mem_of_mem_filter he)
  groups := h.groups

/-! ### Delivery -/

/-- What a group was not handed lies beyond the last it was. -/
theorem mem_undelivered {e : Entry F} :
    e ∈ s.undelivered grp ↔ e ∈ s.entries ∧ grp.lastDelivered < e.id := by
  simp [undelivered]

/-- What is delivered was stored and not delivered before. -/
theorem mem_of_mem_deliver {consumer : String} {now count : Nat} {e : Entry F}
    (he : e ∈ (s.deliver grp consumer now count).2) :
    e ∈ s.entries ∧ grp.lastDelivered < e.id :=
  mem_undelivered.mp (List.mem_of_mem_take he)

/-- After a delivery, a stored entry counts as delivered exactly if it was before or is part of
the delivery. -/
theorem Wf.delivered_iff (h : s.Wf) (grp : Group) (consumer : String) (now count : Nat) {e : Entry F}
    (he : e ∈ s.entries) :
    e.id ≤ (s.deliver grp consumer now count).1.lastDelivered ↔
      e.id ≤ grp.lastDelivered ∨ e ∈ (s.deliver grp consumer now count).2 := by
  simp only [deliver]
  set u := s.undelivered grp with hu
  have hsorted : (u.map Entry.id).Pairwise (· < ·) :=
    h.ids_sorted.sublist ((List.filter_sublist).map _)
  rcases hlast : (u.take count).getLast? with _ | l
  · have hnil : u.take count = [] := by simpa using hlast
    simp [hnil]
  · obtain ⟨init, hinit⟩ := List.getLast?_eq_some_iff.mp hlast
    simp only [Option.map_some, Option.getD_some]
    have hl : l ∈ u := List.mem_of_mem_take (by rw [hinit]; simp)
    have hlu := (mem_undelivered.mp hl).2
    have hsplit : u = (init ++ [l]) ++ u.drop count := by
      rw [← hinit, List.take_append_drop]
    rw [hsplit, List.map_append, List.pairwise_append] at hsorted
    constructor
    · intro hle
      by_cases hold : e.id ≤ grp.lastDelivered
      · exact .inl hold
      · have heu : e ∈ u := mem_undelivered.mpr ⟨he, by omega⟩
        rw [hsplit] at heu
        rcases List.mem_append.mp heu with hmem | hmem
        · exact .inr (by rw [hinit]; exact hmem)
        · -- an entry behind the last delivered one has a larger id
          have := hsorted.2.2 l.id (by simp) e.id (List.mem_map_of_mem hmem)
          omega
    · rintro (hle | hmem)
      · omega
      · rw [hinit] at hmem
        rcases List.mem_append.mp hmem with hmem | hmem
        · have hs := hsorted.1
          rw [List.map_append, List.pairwise_append] at hs
          exact Nat.le_of_lt (hs.2.2 e.id (List.mem_map_of_mem hmem) l.id (by simp))
        · rw [List.mem_singleton.mp hmem]

/-- A delivery only moves a group forward. -/
theorem lastDelivered_le_deliver (s : Stream F) (grp : Group) (consumer : String)
    (now count : Nat) :
    grp.lastDelivered ≤ (s.deliver grp consumer now count).1.lastDelivered := by
  simp only [deliver]
  rcases hlast : ((s.undelivered grp).take count).getLast? with _ | l
  · simp
  · have hl := List.mem_of_mem_take (List.mem_of_getLast? hlast)
    simpa using Nat.le_of_lt (mem_undelivered.mp hl).2

/-- A delivery from a stream that holds something new moves the group on. -/
theorem Wf.lt_lastDelivered_deliver (h : s.Wf) (consumer : String) (now : Nat) {count : Nat}
    (hpos : 0 < count) {e : Entry F} (he : e ∈ s.undelivered grp) :
    grp.lastDelivered < (s.deliver grp consumer now count).1.lastDelivered := by
  obtain ⟨e₀, es, hund⟩ := List.exists_cons_of_ne_nil (List.ne_nil_of_mem he)
  obtain ⟨he₀, hlt⟩ := mem_undelivered.mp (hund ▸ List.mem_cons_self : e₀ ∈ s.undelivered grp)
  obtain ⟨c, rfl⟩ : ∃ c, count = c + 1 := ⟨count - 1, by omega⟩
  -- its first entry is among what is delivered
  have hmem : e₀ ∈ (s.deliver grp consumer now (c + 1)).2 := by simp [Stream.deliver, hund]
  exact hlt.trans_le ((h.delivered_iff grp consumer now (c + 1) he₀).mpr (.inr hmem))

/-- Delivering from a well-formed stream leaves a well-formed group. -/
theorem Wf.deliver (h : s.Wf) (hg : grp.Wf s.lastId) (consumer : String) (now count : Nat) :
    (s.deliver grp consumer now count).1.Wf s.lastId where
  delivered_le := by
    simp only [Stream.deliver]
    rcases hlast : ((s.undelivered grp).take count).getLast? with _ | l
    · simpa using hg.delivered_le
    · have hl := List.mem_of_mem_take (List.mem_of_getLast? hlast)
      simpa using h.ids_le l (mem_undelivered.mp hl).1
  pel_le := by
    intro p hp
    have hp' : p ∈ grp.pel ∨ p ∈ ((s.deliver grp consumer now count).2.map fun e =>
        (⟨e.id, consumer, now⟩ : PendingEntry)) := by
      simpa [Stream.deliver] using hp
    rcases hp' with hp' | hp'
    · exact (hg.pel_le p hp').trans (lastDelivered_le_deliver s grp consumer now count)
    · obtain ⟨e, he, rfl⟩ := List.mem_map.mp hp'
      exact (h.delivered_iff grp consumer now count (mem_of_mem_deliver he).1).mpr (.inr he)
  pel_sorted := by
    have hu : (((s.undelivered grp).take count).map Entry.id).Pairwise (· < ·) :=
      h.ids_sorted.sublist (((List.take_sublist _ _).trans List.filter_sublist).map _)
    simp only [Stream.deliver, List.map_append, List.map_map]
    refine List.pairwise_append.mpr ⟨hg.pel_sorted, hu, ?_⟩
    intro a ha b hb
    obtain ⟨p, hp, rfl⟩ := List.mem_map.mp ha
    obtain ⟨e, he, rfl⟩ := List.mem_map.mp hb
    -- what was pending is up to the position, what is undelivered lies beyond it
    have h₁ := hg.pel_le p hp
    have h₂ := (mem_undelivered.mp (List.mem_of_mem_take he)).2
    simp only [Function.comp]
    omega

end Stream

/-! ### Claiming -/

/-- A scan changes owners and idle times and drops what is no longer stored, nothing else. -/
theorem claimScan_ids_sublist (stored : Nat → Bool) (consumer : String) (now minIdle : Nat) :
    ∀ (attempts count : Nat) (l : List PendingEntry),
      ((claimScan stored consumer now minIdle attempts count l).1.map PendingEntry.id).Sublist
        (l.map PendingEntry.id)
  | _, _, [] => by simp [claimScan]
  | 0, _, p :: l => by simp [claimScan]
  | _ + 1, 0, p :: l => by simp [claimScan]
  | attempts + 1, count + 1, p :: l => by
    have h₁ := claimScan_ids_sublist stored consumer now minIdle attempts count l
    have h₂ := claimScan_ids_sublist stored consumer now minIdle attempts (count + 1) l
    simp only [claimScan]
    split
    · split
      · exact h₂.cons_cons _
      · exact h₁.cons_cons _
    · exact h₁.cons _

/-- While everything pending is stored, a scan keeps the ids of the pending list. -/
theorem claimScan_ids_eq {stored : Nat → Bool} (consumer : String) (now minIdle : Nat) :
    ∀ (attempts count : Nat) (l : List PendingEntry), (∀ p ∈ l, stored p.id = true) →
      (claimScan stored consumer now minIdle attempts count l).1.map PendingEntry.id =
        l.map PendingEntry.id
  | _, _, [], _ => by simp [claimScan]
  | 0, _, p :: l, _ => by simp [claimScan]
  | _ + 1, 0, p :: l, _ => by simp [claimScan]
  | attempts + 1, count + 1, p :: l, hl => by
    have hl' : ∀ q ∈ l, stored q.id = true := fun q hq => hl q (by simp [hq])
    have h₁ := claimScan_ids_eq consumer now minIdle attempts count l hl'
    have h₂ := claimScan_ids_eq consumer now minIdle attempts (count + 1) l hl'
    simp only [claimScan, hl p (by simp), if_true]
    split
    · simp [h₂]
    · simp [h₁]

/-- What a scan claims was pending. -/
theorem claimScan_claimed_subset (stored : Nat → Bool) (consumer : String) (now minIdle : Nat) :
    ∀ (attempts count : Nat) (l : List PendingEntry),
      (claimScan stored consumer now minIdle attempts count l).2.1 ⊆ l.map PendingEntry.id
  | _, _, [] => by simp [claimScan]
  | 0, _, p :: l => by simp [claimScan]
  | _ + 1, 0, p :: l => by simp [claimScan]
  | attempts + 1, count + 1, p :: l => by
    have h₁ := claimScan_claimed_subset stored consumer now minIdle attempts count l
    have h₂ := claimScan_claimed_subset stored consumer now minIdle attempts (count + 1) l
    simp only [claimScan, List.map_cons]
    split
    · split
      · exact List.subset_cons_of_subset _ h₂
      · exact List.cons_subset_cons _ h₁
    · exact List.subset_cons_of_subset _ h₁

/-- The group after a claim, as `XAUTOCLAIM` stores it. -/
def Group.claim (grp : Group) (stored : Nat → Bool) (consumer : String)
    (now minIdle start count : Nat) : Group :=
  { grp with pel := (grp.pel.takeWhile fun p => p.id < start) ++
      (claimScan stored consumer now minIdle (10 * count) count
        (grp.pel.dropWhile fun p => p.id < start)).1 }

/-- The pending ids after a claim are among those before. -/
theorem Group.claim_ids_sublist (grp : Group) (stored : Nat → Bool) (consumer : String)
    (now minIdle start count : Nat) :
    ((grp.claim stored consumer now minIdle start count).pel.map PendingEntry.id).Sublist
      (grp.pel.map PendingEntry.id) := by
  have h := claimScan_ids_sublist stored consumer now minIdle (10 * count) count
    (grp.pel.dropWhile fun p => p.id < start)
  have hsplit := List.takeWhile_append_dropWhile (p := fun p : PendingEntry => p.id < start)
    (l := grp.pel)
  conv_rhs => rw [← hsplit]
  simp only [Group.claim, List.map_append]
  exact (List.Sublist.refl _).append h

/-- While everything pending is stored, a claim keeps the pending ids. -/
theorem Group.claim_ids_eq {grp : Group} {stored : Nat → Bool} (consumer : String)
    (now minIdle start count : Nat) (hst : ∀ p ∈ grp.pel, stored p.id = true) :
    (grp.claim stored consumer now minIdle start count).pel.map PendingEntry.id =
      grp.pel.map PendingEntry.id := by
  have h := claimScan_ids_eq consumer now minIdle (10 * count) count
    (grp.pel.dropWhile fun p => p.id < start)
    (fun p hp => hst p ((List.dropWhile_sublist _).subset hp))
  have hsplit := List.takeWhile_append_dropWhile (p := fun p : PendingEntry => p.id < start)
    (l := grp.pel)
  conv_rhs => rw [← hsplit]
  simp only [Group.claim, List.map_append, h]

/-- A claim keeps a group well formed. -/
theorem Group.Wf.claim {grp : Group} {lastId : Nat} (h : grp.Wf lastId) (stored : Nat → Bool)
    (consumer : String) (now minIdle start count : Nat) :
    (grp.claim stored consumer now minIdle start count).Wf lastId where
  delivered_le := h.delivered_le
  pel_le := by
    intro p hp
    have hmem := (grp.claim_ids_sublist stored consumer now minIdle start count).subset
      (List.mem_map_of_mem hp)
    obtain ⟨q, hq, hqp⟩ := List.mem_map.mp hmem
    exact hqp ▸ h.pel_le q hq
  pel_sorted := h.pel_sorted.sublist (grp.claim_ids_sublist stored consumer now minIdle start count)

/-! ### Commands keep streams well formed -/

namespace Keyspace

variable {F : Type} {ks : Keyspace F}

/-- **Groups stay and only move forward**: a command neither removes a group nor takes back what it
has delivered. -/
theorem apply_groups_le (ks : Keyspace F) (now evicted : Nat) (c : Cmd F) {k g : String}
    {grp : Group} (h : (ks k).groups g = some grp) :
    ∃ grp', ((ks.apply now evicted c).1 k).groups g = some grp' ∧
      grp.lastDelivered ≤ grp'.lastDelivered := by
  by_cases hk : k = c.key
  swap
  · exact ⟨grp, by rw [apply_of_ne ks now evicted c hk, h], Nat.le_refl _⟩
  subst hk
  -- setting a group is harmless to `g` if it moves no position back
  have hset : ∀ (s : Stream F) {g' : String} {new : Group}, s.groups g = some grp →
      (∀ old, s.groups g' = some old → old.lastDelivered ≤ new.lastDelivered) →
      ∃ grp', (s.setGroup g' new).groups g = some grp' ∧
        grp.lastDelivered ≤ grp'.lastDelivered := by
    intro s g' new hg hle
    by_cases hgg : g = g'
    · subst hgg
      exact ⟨new, Function.update_self .., hle grp hg⟩
    · exact ⟨grp, (Function.update_of_ne hgg ..).trans hg, Nat.le_refl _⟩
  cases c with
  | xlen k => exact ⟨grp, h, Nat.le_refl _⟩
  | xadd k f m =>
    simp only [apply, Cmd.key, Function.update_self] at h ⊢
    exact ⟨grp, h, Nat.le_refl _⟩
  | xgroupCreate k g' start =>
    simp only [apply, Cmd.key] at h ⊢
    cases hg : (ks k).groups g' with
    | some old => exact ⟨grp, h, Nat.le_refl _⟩
    | none =>
      simp only [Function.update_self]
      exact hset (ks k) h (by simp [hg])
  | xreadgroup g' consumer k count block =>
    simp only [apply, Cmd.key] at h ⊢
    cases hg : (ks k).groups g' with
    | none => exact ⟨grp, h, Nat.le_refl _⟩
    | some old =>
      simp only [Function.update_self]
      refine hset (ks k) h fun old' ho => ?_
      obtain rfl := Option.some.inj (hg.symm.trans ho)
      exact Stream.lastDelivered_le_deliver _ _ _ _ _
  | xack k g' id =>
    simp only [apply, Cmd.key] at h ⊢
    cases hg : (ks k).groups g' with
    | none => exact ⟨grp, h, Nat.le_refl _⟩
    | some old =>
      simp only [Function.update_self]
      refine hset (ks k) h fun old' ho => ?_
      obtain rfl := Option.some.inj (hg.symm.trans ho)
      exact Nat.le_refl _
  | xautoclaim k g' consumer minIdle start count =>
    simp only [apply, Cmd.key] at h ⊢
    split
    · exact ⟨grp, h, Nat.le_refl _⟩
    · cases hg : (ks k).groups g' with
      | none => exact ⟨grp, h, Nat.le_refl _⟩
      | some old =>
        simp only [Function.update_self]
        refine hset (ks k) h fun old' ho => ?_
        obtain rfl := Option.some.inj (hg.symm.trans ho)
        exact Nat.le_refl _
  | xrevrange k count => exact ⟨grp, h, Nat.le_refl _⟩
  | xdel k id =>
    simp only [apply, Cmd.key, Function.update_self] at h ⊢
    exact ⟨grp, h, Nat.le_refl _⟩

/-- **Where a group comes from**: the command did not concern it, created it, read for it,
acknowledged in it, or claimed in it. -/
theorem group_of_apply {now evicted : Nat} {c : Cmd F} {k g : String} {grp' : Group}
    (h : ((ks.apply now evicted c).1 k).groups g = some grp') :
    (ks k).groups g = some grp' ∨
    (∃ start, c = .xgroupCreate k g start ∧ (ks k).groups g = none ∧ grp' = ⟨start, []⟩) ∨
    ∃ grp, (ks k).groups g = some grp ∧
      ((∃ consumer count block, c = .xreadgroup g consumer k count block ∧
          grp' = ((ks k).deliver grp consumer now count).1) ∨
        (∃ id, c = .xack k g id ∧ grp' = { grp with pel := grp.pel.filter fun p => p.id ≠ id }) ∨
        ∃ consumer minIdle start count, c = .xautoclaim k g consumer minIdle start count ∧
          grp' = grp.claim (fun id => (ks k).entries.any fun e => e.id = id) consumer now minIdle
            start count) := by
  by_cases hk : k = c.key
  swap
  · rw [apply_of_ne ks now evicted c hk] at h
    exact .inl h
  subst hk
  -- of a group that is replaced the replacement is found, of any other what was there
  have hset : ∀ (s : Stream F) {g' : String} {new : Group}, (s.setGroup g' new).groups g =
      some grp' → g' = g ∧ grp' = new ∨ s.groups g = some grp' := by
    intro s g' new hg
    simp only [Stream.setGroup] at hg
    by_cases hgg : g = g'
    · subst hgg
      rw [Function.update_self] at hg
      exact .inl ⟨rfl, (Option.some.inj hg).symm⟩
    · rw [Function.update_of_ne hgg] at hg
      exact .inr hg
  cases c with
  | xlen k => exact .inl h
  | xrevrange k count => exact .inl h
  | xadd k f m =>
    simp only [apply, Cmd.key, Function.update_self] at h ⊢
    exact .inl h
  | xdel k id =>
    simp only [apply, Cmd.key, Function.update_self] at h ⊢
    exact .inl h
  | xgroupCreate k g' start =>
    simp only [apply, Cmd.key] at h ⊢
    cases hg : (ks k).groups g' with
    | some old =>
      rw [hg] at h
      exact .inl h
    | none =>
      simp only [hg, Function.update_self] at h
      rcases hset (ks k) h with ⟨rfl, rfl⟩ | h
      · exact .inr (.inl ⟨start, rfl, hg, rfl⟩)
      · exact .inl h
  | xreadgroup g' consumer k count block =>
    simp only [apply, Cmd.key] at h ⊢
    cases hg : (ks k).groups g' with
    | none =>
      rw [hg] at h
      exact .inl h
    | some old =>
      simp only [hg, Function.update_self] at h
      rcases hset (ks k) h with ⟨rfl, rfl⟩ | h
      · exact .inr (.inr ⟨old, hg, .inl ⟨consumer, count, block, rfl, rfl⟩⟩)
      · exact .inl h
  | xack k g' id =>
    simp only [apply, Cmd.key] at h ⊢
    cases hg : (ks k).groups g' with
    | none =>
      rw [hg] at h
      exact .inl h
    | some old =>
      simp only [hg, Function.update_self] at h
      rcases hset (ks k) h with ⟨rfl, rfl⟩ | h
      · exact .inr (.inr ⟨old, hg, .inr (.inl ⟨id, rfl, rfl⟩)⟩)
      · exact .inl h
  | xautoclaim k g' consumer minIdle start count =>
    simp only [apply, Cmd.key] at h ⊢
    split at h
    · exact .inl h
    · cases hg : (ks k).groups g' with
      | none =>
        rw [hg] at h
        exact .inl h
      | some old =>
        simp only [hg, Function.update_self] at h
        rcases hset (ks k) h with ⟨rfl, rfl⟩ | h
        · exact .inr (.inr ⟨old, hg, .inr (.inr ⟨consumer, minIdle, start, count, rfl, rfl⟩)⟩)
        · exact .inl h

/-- Every stream of the keyspace is well formed. -/
def Wf (ks : Keyspace F) : Prop := ∀ k, (ks k).Wf

/-- Replacing one stream by a well-formed one keeps a keyspace well formed. -/
theorem Wf.update (h : ks.Wf) (k : String) {s : Stream F} (hs : s.Wf) :
    Wf (Function.update ks k s) := by
  intro k'
  by_cases hk : k' = k
  · subst hk; rwa [Function.update_self]
  · rw [Function.update_of_ne hk]; exact h k'

/-- **Every command keeps a keyspace well formed.** -/
theorem Wf.apply (h : ks.Wf) (now evicted : Nat) {c : Cmd F} (hc : c.fromStart) :
    (ks.apply now evicted c).1.Wf := by
  cases c with
  | xlen k => exact h
  | xadd k f m => exact h.update k (((h k).append f).evict evicted)
  | xgroupCreate k g start =>
    obtain rfl : start = 0 := hc
    simp only [Keyspace.apply]
    cases (ks k).groups g with
    | some grp => exact h
    | none =>
      exact h.update k ((h k).setGroup g ⟨Nat.zero_le _, by simp, by simp⟩)
  | xreadgroup g consumer k count block =>
    simp only [Keyspace.apply]
    cases hg : (ks k).groups g with
    | none => exact h
    | some grp =>
      exact h.update k ((h k).setGroup g ((h k).deliver ((h k).groups g grp hg) _ _ _))
  | xack k g id =>
    simp only [Keyspace.apply]
    cases hg : (ks k).groups g with
    | none => exact h
    | some grp =>
      have hw := (h k).groups g grp hg
      refine h.update k ((h k).setGroup g ⟨hw.delivered_le, ?_, ?_⟩)
      · exact fun p hp => hw.pel_le p (List.mem_of_mem_filter hp)
      · exact hw.pel_sorted.sublist ((List.filter_sublist).map _)
  | xautoclaim k g consumer minIdle start count =>
    simp only [Keyspace.apply]
    split
    · exact h
    · cases hg : (ks k).groups g with
      | none => exact h
      | some grp =>
        exact h.update k ((h k).setGroup g (((h k).groups g grp hg).claim _ _ _ _ _ _))
  | xrevrange k count => exact h
  | xdel k id => exact h.update k ((h k).delete id)

end Keyspace

end RelayQ.Redis

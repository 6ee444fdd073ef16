import RelayQ.Redis.Stream

/-! # Whole batches

What the commands do to several entries at once. A scan of a pending list is followed block by
block: entries that are not idle long enough are passed over, stale ones are claimed until the count
is used up.

* `PendingEntry.Stale`: idle long enough to be claimed.
* `claimScan_fresh_append`, `claimScan_stale_append`: a scan over a block.
* `Keyspace.apply_xautoclaim`: the command on a fresh block, a stale block and the rest.
* `Stream.appendAll`, `Stream.deliver_all`: appending a list of bodies, reading all there is. -/

namespace RelayQ.Redis

/-! ## Scanning blocks -/

/-- The entry has been idle for at least `minIdle` by the time `now`. -/
def PendingEntry.Stale (p : PendingEntry) (now minIdle : Nat) : Prop :=
  minIdle ≤ now - p.deliveredAt

/-- What is stale stays stale as time passes. -/
theorem PendingEntry.Stale.later {p : PendingEntry} {now now' minIdle : Nat}
    (h : p.Stale now minIdle) (hle : now ≤ now') : p.Stale now' minIdle := by
  unfold Stale at h ⊢
  omega

/-- The entry as it is after `consumer` has claimed it. -/
def PendingEntry.claimed (p : PendingEntry) (consumer : String) (now : Nat) : PendingEntry :=
  ⟨p.id, consumer, now⟩

/-- A claimed entry keeps its id. -/
@[simp] theorem PendingEntry.claimed_id (p : PendingEntry) (consumer : String) (now : Nat) :
    (p.claimed consumer now).id = p.id := rfl

section Scan

variable {stored : Nat → Bool} {consumer : String} {now minIdle : Nat}

/-- A scan that may claim no more leaves the list as it is. -/
theorem claimScan_zero (attempts : Nat) (l : List PendingEntry) :
    (claimScan stored consumer now minIdle attempts 0 l).1 = l ∧
      (claimScan stored consumer now minIdle attempts 0 l).2.1 = [] := by
  cases l with
  | nil => simp [claimScan]
  | cons p l => cases attempts <;> simp [claimScan]

/-- A scan passes over a block of stored entries that are not stale, using up attempts. -/
theorem claimScan_fresh_append {attempts count : Nat} {fresh : List PendingEntry}
    (l : List PendingEntry)
    (hf : ∀ p ∈ fresh, stored p.id = true ∧ ¬ p.Stale now minIdle) :
    claimScan stored consumer now minIdle (attempts + fresh.length) (count + 1) (fresh ++ l) =
      (fresh ++ (claimScan stored consumer now minIdle attempts (count + 1) l).1,
        (claimScan stored consumer now minIdle attempts (count + 1) l).2) := by
  induction fresh with
  | nil => rfl
  | cons p fresh ih =>
    obtain ⟨hs, hfresh⟩ := hf p (List.mem_cons_self ..)
    have ih := ih fun q hq => hf q (List.mem_cons_of_mem _ hq)
    have hlt : now - p.deliveredAt < minIdle := Nat.lt_of_not_le hfresh
    rw [List.length_cons, ← Nat.add_assoc, List.cons_append, claimScan, if_pos hs, if_pos hlt, ih]
    rfl

/-- A scan claims a block of stored entries that are stale, using up attempts and count. -/
theorem claimScan_stale_append {attempts count : Nat} {stale : List PendingEntry}
    (l : List PendingEntry)
    (hst : ∀ p ∈ stale, stored p.id = true ∧ p.Stale now minIdle) :
    claimScan stored consumer now minIdle (attempts + stale.length) (count + stale.length)
        (stale ++ l) =
      (stale.map (·.claimed consumer now) ++
          (claimScan stored consumer now minIdle attempts count l).1,
        stale.map PendingEntry.id ++ (claimScan stored consumer now minIdle attempts count l).2.1,
        (claimScan stored consumer now minIdle attempts count l).2.2) := by
  induction stale with
  | nil => rfl
  | cons p stale ih =>
    obtain ⟨hs, hstale⟩ := hst p (List.mem_cons_self ..)
    have ih := ih fun q hq => hst q (List.mem_cons_of_mem _ hq)
    have hnlt : ¬ now - p.deliveredAt < minIdle := Nat.not_lt_of_le hstale
    rw [List.length_cons, ← Nat.add_assoc, ← Nat.add_assoc, List.cons_append, claimScan, if_pos hs,
      if_neg hnlt, ih]
    rfl

/-- A scan over entries none of which is stale claims nothing; those that are no longer stored it
drops. -/
theorem claimScan_fresh {attempts count : Nat} {l : List PendingEntry}
    (hf : ∀ p ∈ l, ¬ p.Stale now minIdle) :
    (claimScan stored consumer now minIdle attempts count l).2.1 = [] := by
  induction l generalizing attempts count with
  | nil => simp [claimScan]
  | cons p l ih =>
    cases count with
    | zero => exact (claimScan_zero attempts (p :: l)).2
    | succ count =>
      cases attempts with
      | zero => simp [claimScan]
      | succ attempts =>
        have hlt : now - p.deliveredAt < minIdle := Nat.lt_of_not_le (hf p (List.mem_cons_self ..))
        have hl : ∀ q ∈ l, ¬ q.Stale now minIdle := fun q hq => hf q (List.mem_cons_of_mem _ hq)
        rw [claimScan, if_pos hlt]
        split
        · exact ih hl
        · exact ih hl

/-- What a scan leaves pending is as it was, or claimed just now. -/
theorem mem_of_mem_claimScan {attempts count : Nat} {l : List PendingEntry} {p : PendingEntry}
    (h : p ∈ (claimScan stored consumer now minIdle attempts count l).1) :
    p ∈ l ∨ p.deliveredAt = now := by
  induction l generalizing attempts count with
  | nil => simp [claimScan] at h
  | cons q l ih =>
    cases count with
    | zero => exact .inl ((claimScan_zero attempts (q :: l)).1 ▸ h)
    | succ count =>
      cases attempts with
      | zero => exact .inl (by simpa [claimScan] using h)
      | succ attempts =>
        rw [claimScan] at h
        split at h
        · split at h
          · rcases List.mem_cons.mp h with rfl | h
            · exact .inl (List.mem_cons_self ..)
            · exact (ih h).imp_left (List.mem_cons_of_mem _)
          · rcases List.mem_cons.mp h with rfl | h
            · exact .inr rfl
            · exact (ih h).imp_left (List.mem_cons_of_mem _)
        · exact (ih h).imp_left (List.mem_cons_of_mem _)

/-- What a scan claims was stale. -/
theorem stale_of_mem_claimScan {attempts count id : Nat} {l : List PendingEntry}
    (h : id ∈ (claimScan stored consumer now minIdle attempts count l).2.1) :
    ∃ p ∈ l, p.id = id ∧ p.Stale now minIdle := by
  induction l generalizing attempts count with
  | nil => simp [claimScan] at h
  | cons q l ih =>
    have hrest : ∀ {a c : Nat}, id ∈ (claimScan stored consumer now minIdle a c l).2.1 →
        ∃ p ∈ q :: l, p.id = id ∧ p.Stale now minIdle := by
      intro a c h
      obtain ⟨p, hp, hid⟩ := ih h
      exact ⟨p, List.mem_cons_of_mem _ hp, hid⟩
    cases count with
    | zero =>
      rw [(claimScan_zero attempts (q :: l)).2] at h
      cases h
    | succ count =>
      cases attempts with
      | zero => simp [claimScan] at h
      | succ attempts =>
        rw [claimScan] at h
        split at h
        · split at h
          · exact hrest h
          · rename_i hidle
            rcases List.mem_cons.mp h with rfl | h
            · exact ⟨q, List.mem_cons_self .., rfl, Nat.le_of_not_lt hidle⟩
            · exact hrest h
        · exact hrest h

/-- **A scan over a fresh block, a stale one and the rest** claims exactly the stale block, if the
count ends with it or nothing behind it is stale; if the count ends with it, the rest stays as it
is. -/
theorem claimScan_blocks (consumer : String) {attempts count : Nat} {fresh stale rest : List PendingEntry}
    (hf : ∀ p ∈ fresh, stored p.id = true ∧ ¬ p.Stale now minIdle)
    (hst : ∀ p ∈ stale, stored p.id = true ∧ p.Stale now minIdle)
    (hrest : stale.length = count ∨ ∀ p ∈ rest, ¬ p.Stale now minIdle)
    (hpos : 0 < count) (hcount : stale.length ≤ count)
    (hatt : fresh.length + stale.length ≤ attempts) :
    (claimScan stored consumer now minIdle attempts count (fresh ++ (stale ++ rest))).2.1 =
        stale.map PendingEntry.id ∧
      (stale.length = count →
        (claimScan stored consumer now minIdle attempts count (fresh ++ (stale ++ rest))).1 =
          fresh ++ (stale.map (·.claimed consumer now) ++ rest)) := by
  obtain ⟨a, rfl⟩ : ∃ a, attempts = a + stale.length + fresh.length :=
    ⟨attempts - (fresh.length + stale.length), by omega⟩
  obtain ⟨c, rfl⟩ : ∃ c, count = c + stale.length := ⟨count - stale.length, by omega⟩
  obtain ⟨c', hc'⟩ : ∃ c', c + stale.length = c' + 1 := ⟨c + stale.length - 1, by omega⟩
  rw [hc', claimScan_fresh_append _ hf, ← hc', claimScan_stale_append _ hst]
  refine ⟨?_, fun hlen => ?_⟩
  · -- what is left of the count behind the stale block claims nothing
    have htail : (claimScan stored consumer now minIdle a c rest).2.1 = [] := by
      rcases hrest with hlen | hrest
      · obtain rfl : c = 0 := by omega
        exact (claimScan_zero a rest).2
      · exact claimScan_fresh hrest
    rw [htail, List.append_nil]
  · obtain rfl : c = 0 := by omega
    rw [(claimScan_zero a rest).1]

end Scan

/-! ## The command -/

section Command

variable {F : Type}

/-- The stored entries with the given ids, in the order of the ids. -/
def Stream.pick (s : Stream F) (ids : List Nat) : List (Entry F) :=
  ids.filterMap fun id => s.entries.find? fun e => e.id = id

/-- The stream has an entry with this id. -/
def Stream.stores (s : Stream F) (id : Nat) : Bool := s.entries.any fun e => e.id = id

/-- An entry found by its id is stored under it. -/
theorem Stream.find_id {s : Stream F} {id : Nat} {e : Entry F}
    (h : s.entries.find? (fun e => decide (e.id = id)) = some e) : e ∈ s.entries ∧ e.id = id :=
  ⟨List.mem_of_find?_eq_some h, by simpa using List.find?_some h⟩

/-- Picking stored ids finds an entry for each. -/
theorem Stream.pick_ids {s : Stream F} {ids : List Nat} (h : ∀ id ∈ ids, s.stores id = true) :
    (s.pick ids).map Entry.id = ids := by
  induction ids with
  | nil => rfl
  | cons id ids ih =>
    obtain ⟨e, he, hid⟩ := List.any_eq_true.mp (h id (List.mem_cons_self ..))
    have hfind : ∃ e, s.entries.find? (fun e => decide (e.id = id)) = some e :=
      Option.isSome_iff_exists.mp (List.find?_isSome.mpr ⟨e, he, hid⟩)
    obtain ⟨e', he'⟩ := hfind
    have hid' := (Stream.find_id he').2
    have hrest := ih fun id' h' => h id' (List.mem_cons_of_mem _ h')
    unfold Stream.pick at hrest ⊢
    rw [List.filterMap_cons, he', List.map_cons, hid', hrest]

/-- What is picked is stored. -/
theorem Stream.mem_of_mem_pick {s : Stream F} {ids : List Nat} {e : Entry F}
    (h : e ∈ s.pick ids) : e ∈ s.entries ∧ e.id ∈ ids := by
  obtain ⟨id, hid, hfind⟩ := List.mem_filterMap.mp h
  exact ⟨(find_id hfind).1, (find_id hfind).2 ▸ hid⟩

/-- Picking the ids of entries of a well-formed stream gives those entries. -/
theorem Stream.Wf.pick_map_id {s : Stream F} (h : s.Wf) {es : List (Entry F)}
    (hes : ∀ e ∈ es, e ∈ s.entries) : s.pick (es.map Entry.id) = es := by
  induction es with
  | nil => rfl
  | cons e es ih =>
    have he := hes e (List.mem_cons_self ..)
    have hrest := ih fun e' h' => hes e' (List.mem_cons_of_mem _ h')
    have hfind : ∃ e', s.entries.find? (fun x => decide (x.id = e.id)) = some e' :=
      Option.isSome_iff_exists.mp (List.find?_isSome.mpr ⟨e, he, by simp⟩)
    obtain ⟨e', he'⟩ := hfind
    have heq : e' = e := h.eq_of_id_eq (find_id he').1 he (find_id he').2
    unfold Stream.pick at hrest ⊢
    rw [List.map_cons, List.filterMap_cons, he', hrest, heq]

/-- **`XAUTOCLAIM` on a fresh block, a stale block and the rest** claims exactly the stale block and
answers with its entries; if the count ends with the stale block, the rest stays as it is. -/
theorem Keyspace.apply_xautoclaim {ks : Keyspace F} {k g : String} (consumer : String)
    {now minIdle count n : Nat} {grp : Group} {fresh stale rest : List PendingEntry}
    (hg : (ks k).groups g = some grp)
    (hpel : grp.pel = fresh ++ (stale ++ rest))
    (hf : ∀ p ∈ fresh, (ks k).stores p.id = true ∧ ¬ p.Stale now minIdle)
    (hst : ∀ p ∈ stale, (ks k).stores p.id = true ∧ p.Stale now minIdle)
    (hrest : stale.length = count ∨ ∀ p ∈ rest, ¬ p.Stale now minIdle)
    (hpos : 0 < count) (hcount : stale.length ≤ count)
    (hatt : fresh.length + stale.length ≤ 10 * count) :
    ∃ cursor pel, ks.apply now n (.xautoclaim k g consumer minIdle 0 count) =
        (Function.update ks k ((ks k).setGroup g { grp with pel := pel }),
          .ok (cursor, (ks k).pick (stale.map PendingEntry.id))) ∧
      (stale.length = count → pel = fresh ++ (stale.map (·.claimed consumer now) ++ rest)) := by
  obtain ⟨h₁, h₂⟩ := claimScan_blocks consumer hf hst hrest hpos hcount hatt
  have htake : ∀ l : List PendingEntry, (l.takeWhile fun p => decide (p.id < 0)) = [] ∧
      (l.dropWhile fun p => decide (p.id < 0)) = l := by
    intro l
    cases l <;> simp [List.takeWhile, List.dropWhile]
  unfold Stream.stores at h₁ h₂
  simp only [Keyspace.apply, if_neg (Nat.ne_of_gt hpos), hg, (htake _).1, (htake _).2,
    List.nil_append]
  rw [hpel, h₁]
  exact ⟨_, _, rfl, h₂⟩

end Command

/-! ## What other commands do to a pending list -/

section Pending

variable {F : Type}

/-- **What is pending after a command** was pending before, or was delivered or claimed at that
time. -/
theorem Keyspace.pel_of_apply {ks : Keyspace F} {now n : Nat} {c : Cmd F} {k g : String}
    {grp' : Group} (h : ((ks.apply now n c).1 k).groups g = some grp') {p : PendingEntry}
    (hp : p ∈ grp'.pel) :
    (∃ grp, (ks k).groups g = some grp ∧ p ∈ grp.pel) ∨ p.deliveredAt = now := by
  rcases group_of_apply h with hg | ⟨start, -, -, rfl⟩ | ⟨grp, hg, hcmd⟩
  · exact .inl ⟨grp', hg, hp⟩
  · cases hp
  · rcases hcmd with ⟨consumer, count, block, -, rfl⟩ | ⟨id, -, rfl⟩ |
      ⟨consumer, minIdle, start, count, -, rfl⟩
    · rcases List.mem_append.mp hp with hp | hp
      · exact .inl ⟨grp, hg, hp⟩
      · obtain ⟨e, -, rfl⟩ := List.mem_map.mp hp
        exact .inr rfl
    · exact .inl ⟨grp, hg, List.mem_of_mem_filter hp⟩
    · rcases List.mem_append.mp hp with hp | hp
      · exact .inl ⟨grp, hg, (List.takeWhile_sublist _).subset hp⟩
      · exact (mem_of_mem_claimScan hp).imp_left fun hp =>
          ⟨grp, hg, (List.dropWhile_sublist _).subset hp⟩

/-- What `XAUTOCLAIM` answers with was pending and stale. -/
theorem Keyspace.stale_of_mem_xautoclaim {ks ks' : Keyspace F} {now n minIdle start count cursor : Nat}
    {k g consumer : String} {es : List (Entry F)}
    (h : ks.apply now n (.xautoclaim k g consumer minIdle start count) = (ks', .ok (cursor, es)))
    {e : Entry F} (he : e ∈ es) :
    ∃ grp, (ks k).groups g = some grp ∧ ∃ p ∈ grp.pel, p.id = e.id ∧ p.Stale now minIdle := by
  simp only [apply] at h
  split at h
  · cases h
  · cases hg : (ks k).groups g with
    | none => simp [hg] at h
    | some grp =>
      simp only [hg, Prod.mk.injEq, Except.ok.injEq] at h
      obtain ⟨-, -, rfl⟩ := h
      obtain ⟨id, hid, hfind⟩ := List.mem_filterMap.mp he
      obtain ⟨p, hp, hpid, hstale⟩ := stale_of_mem_claimScan hid
      refine ⟨grp, rfl, p, (List.dropWhile_sublist _).subset hp, ?_, hstale⟩
      have heid : e.id = id := by simpa using List.find?_some hfind
      rw [heid, hpid]

/-- The command takes none of these ids from a pending list and claims nothing. -/
def Cmd.Spares (ids : List Nat) : Cmd F → Prop
  | xack _ _ id => id ∉ ids
  | xautoclaim _ _ _ _ _ _ => False
  | _ => True

/-- Commands that spare the front of a pending list add to its end what is delivered at that
time. -/
theorem Keyspace.apply_pel {ks : Keyspace F} {c : Cmd F} {g : String} {grp : Group}
    {front rest : List PendingEntry} (now n : Nat) (hc : c.Spares (front.map PendingEntry.id))
    (hg : (ks c.key).groups g = some grp) (hpel : grp.pel = front ++ rest) :
    ∃ grp' rest', ((ks.apply now n c).1 c.key).groups g = some grp' ∧
      grp'.pel = front ++ rest' ∧ ∀ p ∈ rest', p ∈ rest ∨ p.deliveredAt = now := by
  have hsame : ∀ ks' : Keyspace F, (ks' c.key).groups g = some grp →
      ∃ grp' rest', (ks' c.key).groups g = some grp' ∧
        grp'.pel = front ++ rest' ∧ ∀ p ∈ rest', p ∈ rest ∨ p.deliveredAt = now :=
    fun ks' h => ⟨grp, rest, h, hpel, fun p hp => .inl hp⟩
  cases c with
  | xlen k => exact hsame ks hg
  | xrevrange k count => exact hsame ks hg
  | xadd k f m => exact hsame _ (by simpa [apply, Cmd.key, Stream.evict, Stream.append] using hg)
  | xdel k id => exact hsame _ (by simpa [apply, Cmd.key, Stream.delete] using hg)
  | xautoclaim k g' consumer minIdle start count => exact hc.elim
  | xgroupCreate k g' start =>
    simp only [apply, Cmd.key] at hg ⊢
    cases hg' : (ks k).groups g' with
    | some old => exact hsame ks hg
    | none =>
      have hne : g ≠ g' := fun h => by rw [h, hg'] at hg; cases hg
      refine hsame _ ?_
      simpa [Cmd.key, Stream.setGroup, Function.update_of_ne hne] using hg
  | xreadgroup g' consumer k count block =>
    simp only [apply, Cmd.key] at hg ⊢
    cases hg' : (ks k).groups g' with
    | none => exact hsame ks hg
    | some old =>
      by_cases hgg : g = g'
      · -- what is delivered now goes to the end of the pending list
        obtain rfl : grp = old := Option.some.inj (hg.symm.trans (hgg ▸ hg'))
        refine ⟨_, rest ++ ((ks k).deliver grp consumer now count).2.map
          fun e => ⟨e.id, consumer, now⟩, by simp [hgg, Stream.setGroup]; rfl, ?_, ?_⟩
        · simp only [Stream.deliver, hpel, List.append_assoc]
        · intro p hp
          rcases List.mem_append.mp hp with hp | hp
          · exact .inl hp
          · obtain ⟨e, -, rfl⟩ := List.mem_map.mp hp
            exact .inr rfl
      · refine hsame _ ?_
        simpa [Cmd.key, Stream.setGroup, Function.update_of_ne hgg] using hg
  | xack k g' id =>
    simp only [apply, Cmd.key] at hg ⊢
    cases hg' : (ks k).groups g' with
    | none => exact hsame ks hg
    | some old =>
      by_cases hgg : g = g'
      · obtain rfl : grp = old := Option.some.inj (hg.symm.trans (hgg ▸ hg'))
        refine ⟨{ grp with pel := grp.pel.filter fun p => p.id ≠ id },
          rest.filter fun p => p.id ≠ id, ?_, ?_, fun p hp => .inl (List.mem_of_mem_filter hp)⟩
        · simp [hgg, Stream.setGroup]
        -- the acknowledged id is none of the front, so the filter passes over it
        have hfront : (front.filter fun p => p.id ≠ id) = front :=
          List.filter_eq_self.mpr fun p hp => decide_eq_true fun h =>
            hc (h ▸ List.mem_map_of_mem hp)
        rw [hpel, List.filter_append, hfront]
      · refine hsame _ ?_
        simpa [Cmd.key, Stream.setGroup, Function.update_of_ne hgg] using hg

end Pending

/-! ## Appending a list, reading all there is -/

namespace Stream

variable {F : Type} {s : Stream F} {grp : Group}

/-- Append several entries, in order. -/
def appendAll (s : Stream F) (fs : List F) : Stream F := fs.foldl append s

/-- To append nothing changes nothing. -/
@[simp] theorem appendAll_nil (s : Stream F) : s.appendAll [] = s := rfl

/-- The first is appended first. -/
@[simp] theorem appendAll_cons (s : Stream F) (f : F) (fs : List F) :
    s.appendAll (f :: fs) = (s.append f).appendAll fs := rfl

/-- Groups are as they were. -/
@[simp] theorem appendAll_groups (s : Stream F) (fs : List F) :
    (s.appendAll fs).groups = s.groups := by
  induction fs generalizing s with
  | nil => rfl
  | cons f fs ih => exact ih (s.append f)

/-- Each body adds one entry. -/
theorem length_appendAll (s : Stream F) (fs : List F) :
    (s.appendAll fs).entries.length = s.entries.length + fs.length := by
  induction fs generalizing s with
  | nil => rfl
  | cons f fs ih =>
    rw [appendAll_cons, ih (s.append f)]
    simp only [append, List.length_append, List.length_cons, List.length_nil]
    omega

/-- Appending keeps a stream well formed. -/
theorem Wf.appendAll (h : s.Wf) (fs : List F) : (s.appendAll fs).Wf := by
  induction fs generalizing s with
  | nil => exact h
  | cons f fs ih => exact ih (h.append f)

/-- A group has the appended entries still to come, in order behind those it had before. -/
theorem undelivered_appendAll (fs : List F) (hg : grp.lastDelivered ≤ s.lastId) :
    ((s.appendAll fs).undelivered grp).map Entry.fields =
      (s.undelivered grp).map Entry.fields ++ fs := by
  induction fs generalizing s with
  | nil => simp
  | cons f fs ih =>
    have hnew : grp.lastDelivered < s.lastId + 1 := Nat.lt_succ_of_le hg
    rw [appendAll_cons, ih (Nat.le_succ_of_le hg)]
    simp [undelivered, append, hnew]

/-- A read delivers in ascending order. -/
theorem deliver_ids_sorted (h : s.Wf) (consumer : String) (now count : Nat) :
    ((s.deliver grp consumer now count).2.map Entry.id).Pairwise (· < ·) := by
  have hsub : (s.deliver grp consumer now count).2.Sublist s.entries :=
    (List.take_sublist _ _).trans List.filter_sublist
  exact h.ids_sorted.sublist (hsub.map Entry.id)

/-- A read with a large enough count delivers everything the group has not been given. -/
theorem deliver_all (consumer : String) (now : Nat) {count : Nat}
    (hcount : (s.undelivered grp).length ≤ count) :
    (s.deliver grp consumer now count).2 = s.undelivered grp ∧
      (s.deliver grp consumer now count).1.pel =
        grp.pel ++ (s.undelivered grp).map fun e => ⟨e.id, consumer, now⟩ := by
  simp only [deliver, List.take_of_length_le hcount, and_self]

end Stream

end RelayQ.Redis

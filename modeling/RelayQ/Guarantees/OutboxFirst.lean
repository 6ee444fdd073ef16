import RelayQ.Application.Enqueue

/-! # Outbox first

With a store, `enqueue` commits its row before it appends its job. The lookup of the key is a
separate step and proves nothing across connections; what carries the guarantee is that the write
lock is held from `BEGIN` to `COMMIT`, that the table's constraints admit one row per id and per
key, and that a committed row is appended by the one call that committed it.

* `Relies`, `Apart`: what one call in progress relies on, and what keeps two of them apart.
* `OutboxInv`: the invariant, with entries injected into committed rows. -/

namespace RelayQ

/-! ## What calls in progress rely on -/

section

variable [Codec]

/-- The entry with id `n` of the stream at `k` carries the job. -/
def World.Carries (w : World) (k : String) (n : Nat) (j : Job) : Prop :=
  ∃ e ∈ (w.redis k).entries, e.id = n ∧ e.fields = RedisStreamTransport.jobBody j

/-- A call of `enqueue` with the phase it is in. -/
abbrev Caller : Type := Proc RelaySig Nat EnqueueCall Nat × Enqueuer.Phase

namespace Caller

/-- The job the call writes. -/
def job (x : Caller) : Job := x.1.info.args.keyedJob

/-- The call has begun its transaction and not ended it. -/
def InTx (x : Caller) : Prop := x.2 = .begun ∨ x.2 = .inserted

end Caller

/-- What a call in progress relies on: in its transaction, that it alone writes and sees the
committed rows, with its own once it is inserted; after the commit, that its row is there and no
entry carries its job yet. -/
def Relies (w : World) (x : Caller) : Prop :=
  match x.2 with
  | .begun => w.db.Writing x.1.site w.db.committed
  | .inserted => ∃ t, w.db.Writing x.1.site t ∧
      Outbox.insert (.ofJob x.job) w.db.committed = .ok t
  | .committed => Row.ofJob x.job ∈ w.db.committed ∧
      ∀ k n j, w.Carries k n j → j.id ≠ x.job.id
  | _ => True

/-- What keeps two calls in progress apart: one transaction at a time, and one call for each
committed row. -/
structure Apart (x y : Caller) : Prop where
  tx : x.InTx → ¬ y.InTx
  row : x.2 = .committed → y.2 = .committed → x.job.id ≠ y.job.id

/-- The invariant. -/
structure OutboxInv (w : World) (l : List Caller) : Prop where
  redis : w.redis.Wf
  table : w.db.committed.Valid
  snapshots : ∀ c, w.db.txs c ≠ some ⟨none⟩
  stores : ∀ x ∈ l, x.1.info.enqueuer.store = true
  relies : ∀ x ∈ l, x.1.running = true → Relies w x
  apart : ∀ (i j : Nat) (x y : Caller), i ≠ j → l[i]? = some x → l[j]? = some y → x.1.running = true →
    y.1.running = true → Apart x y
  rows : ∀ k, ∀ e ∈ (w.redis k).entries, ∃ j, e.fields = RedisStreamTransport.jobBody j ∧
    Row.ofJob j ∈ w.db.committed
  once : ∀ k k' n n' j j', w.Carries k n j → w.Carries k' n' j' → j.id = j'.id → k = k' ∧ n = n'

variable {w w' : World} {l : List Caller}

/-- Who is in a transaction holds the write lock. -/
theorem Relies.lock {x : Caller} (h : Relies w x) (hx : x.InTx) :
    w.db.lock = some x.1.site ∧ w.db.txs x.1.site ≠ none := by
  unfold Relies at h
  rcases hx with hx | hx <;> rw [hx] at h
  · obtain ⟨hl, v, htx⟩ := h
    exact ⟨hl, by simp [htx]⟩
  · obtain ⟨t, ⟨hl, v, htx⟩, -⟩ := h
    exact ⟨hl, by simp [htx]⟩

/-- Outside a transaction a call relies on rows that stay and on what the streams hold. -/
theorem Relies.mono {x : Caller} (h : Relies w x) (hx : ¬ x.InTx)
    (hdb : ∀ r ∈ w.db.committed, r ∈ w'.db.committed)
    (hnew : x.2 = .committed → ∀ k n j, w'.Carries k n j → j.id ≠ x.job.id) : Relies w' x := by
  unfold Relies at h ⊢
  cases hph : x.2 with
  | begun => exact absurd (.inl hph) hx
  | inserted => exact absurd (.inr hph) hx
  | committed =>
    rw [hph] at h
    exact ⟨hdb _ h.1, hnew hph⟩
  | fresh | checked | closed => trivial

/-- Who survives a crash elsewhere relies on what is left. -/
theorem Relies.crash {x : Caller} {site : Nat} (h : Relies w x) (hx : x.1.site ≠ site) :
    Relies (w.crash site) x := by
  have hc : (w.crash site).db.committed = w.db.committed := (w.db.rollback_spec site).1
  unfold Relies at h ⊢
  rw [hc]
  cases hph : x.2 with
  | begun =>
    rw [hph] at h
    exact Sqlite.Database.Writing.rollback_of_ne h hx
  | inserted =>
    rw [hph] at h
    obtain ⟨t, hw, hins⟩ := h
    exact ⟨t, hw.rollback_of_ne hx, hins⟩
  | committed =>
    rw [hph] at h
    exact h
  | fresh | checked | closed => trivial

omit [Codec] in
/-- Calls that are neither in a transaction nor past the commit are apart from all others. -/
theorem Apart.of_idle {x y : Caller} (h : ¬ x.InTx) (h' : x.2 ≠ .committed) : Apart x y :=
  ⟨fun hx => absurd hx h, fun hx => absurd hx h'⟩

/-- **The invariant after an answer**, from what the answer does to the servers, to the call it
answers and to the others. -/
theorem OutboxInv.set (h : OutboxInv w l) {i : Nat} {x y : Caller} (hi : l[i]? = some x)
    (hinfo : y.1.info = x.1.info) (hrun : x.1.running = true) (hredis : w'.redis.Wf)
    (htable : w'.db.committed.Valid) (hsnap : ∀ c, w'.db.txs c ≠ some ⟨none⟩)
    (hrows : ∀ k, ∀ e ∈ (w'.redis k).entries, ∃ j,
      e.fields = RedisStreamTransport.jobBody j ∧ Row.ofJob j ∈ w'.db.committed)
    (honce : ∀ k k' n n' j j', w'.Carries k n j → w'.Carries k' n' j' → j.id = j'.id →
      k = k' ∧ n = n')
    (hy : Relies w' y)
    (hothers : ∀ z ∈ l, Relies w z → Apart x z → Relies w' z ∧ Apart y z ∧ Apart z y) :
    OutboxInv w' (l.set i y) := by
  have hother : ∀ j z, j ≠ i → l[j]? = some z → z.1.running = true →
      Relies w' z ∧ Apart y z ∧ Apart z y := fun j z hj hz hzr =>
    hothers z (List.mem_of_getElem? hz) (h.relies z (List.mem_of_getElem? hz) hzr)
      (h.apart i j x z (Ne.symm hj) hi hz hrun hzr)
  refine ⟨hredis, htable, hsnap, fun z hz => ?_, fun z hz hzr => ?_, ?_, hrows, honce⟩
  · rcases List.mem_or_eq_of_mem_set hz with hz | rfl
    · exact h.stores z hz
    · rw [hinfo]
      exact h.stores x (List.mem_of_getElem? hi)
  · obtain ⟨j, hj⟩ := List.mem_iff_getElem?.mp hz
    rcases getElem?_set_cases hj with ⟨-, rfl⟩ | ⟨hji, hj⟩
    · exact hy
    · exact (hother j z hji hj hzr).1
  · intro a b u v hab hu hv hur hvr
    rcases getElem?_set_cases hu with ⟨rfl, rfl⟩ | ⟨hai, hu₀⟩
    · rcases getElem?_set_cases hv with ⟨rfl, -⟩ | ⟨hba, hv₀⟩
      · exact absurd rfl hab
      · exact (hother b v hba hv₀ hvr).2.1
    · rcases getElem?_set_cases hv with ⟨-, rfl⟩ | ⟨-, hv₀⟩
      · exact (hother a u hai hu₀ hur).2.2
      · exact h.apart a b u v hab hu₀ hv₀ hur hvr

/-- An answer that leaves both servers alone may end a call, not bring it into a transaction or
past the commit. -/
theorem OutboxInv.quiet (h : OutboxInv w l) {i : Nat} {x y : Caller} (hi : l[i]? = some x)
    (hinfo : y.1.info = x.1.info) (hsite : y.1.site = x.1.site) (hrun : x.1.running = true)
    (hredis : w'.redis = w.redis) (hdb : w'.db = w.db)
    (hph : y.2 = x.2 ∨ ¬ y.InTx ∧ y.2 ≠ .committed) : OutboxInv w' (l.set i y) := by
  have hx : Relies w x := h.relies x (List.mem_of_getElem? hi) hrun
  have hcarries : ∀ {k n j}, w'.Carries k n j → w.Carries k n j := fun {k n j} hc => by
    rwa [World.Carries, hredis] at hc
  have hcongr : ∀ {z}, Relies w z → Relies w' z := fun {z} hz => by
    simpa only [Relies, World.Carries, hredis, hdb] using hz
  refine h.set hi hinfo hrun (hredis ▸ h.redis) (hdb ▸ h.table) (hdb ▸ h.snapshots)
    (fun k e he => ?_) (fun k k' n n' j j' hc hc' => h.once k k' n n' j j' (hcarries hc)
      (hcarries hc')) ?_ fun z _ hz hxz => ⟨hcongr hz, ?_, ?_⟩
  · rw [hdb]
    exact h.rows k e (hredis ▸ he)
  · refine hcongr ?_
    rcases hph with hph | ⟨htx, hc⟩
    · simpa only [Relies, Caller.job, hinfo, hsite, hph] using hx
    · unfold Relies
      cases hp : y.2 with
      | begun => exact absurd (.inl hp) htx
      | inserted => exact absurd (.inr hp) htx
      | committed => exact absurd hp hc
      | fresh | checked | closed => trivial
  · rcases hph with hph | ⟨htx, hc⟩
    · refine ⟨fun hy => hxz.tx ?_, fun hy hzc => ?_⟩
      · simpa only [Caller.InTx, hph] using hy
      · simpa only [Caller.job, hinfo] using hxz.row (hph ▸ hy) hzc
    · exact .of_idle htx hc
  · rcases hph with hph | ⟨htx, hc⟩
    · refine ⟨fun hzt hy => hxz.tx ?_ hzt, fun hzc hy => ?_⟩
      · simpa only [Caller.InTx, hph] using hy
      · simpa only [Caller.job, hinfo] using (hxz.row (hph ▸ hy) hzc).symm
    · exact ⟨fun _ => htx, fun _ hy => absurd hy hc⟩

/-- A statement that begins a transaction, runs in one or rolls one back, while no other is open:
what is committed stays. -/
theorem OutboxInv.statement (h : OutboxInv w l) {i : Nat} {x y : Caller} (hi : l[i]? = some x)
    (hinfo : y.1.info = x.1.info) (hrun : x.1.running = true) (hredis : w'.redis = w.redis)
    (hdb : w'.db.committed = w.db.committed) (hsnap : ∀ c, w'.db.txs c ≠ some ⟨none⟩)
    (hfree : ∀ z ∈ l, Relies w z → Apart x z → ¬ z.InTx) (hc : y.2 ≠ .committed)
    (hy : Relies w' y) : OutboxInv w' (l.set i y) := by
  have hcarries : ∀ {k n j}, w'.Carries k n j → w.Carries k n j := fun {k n j} hc => by
    rwa [World.Carries, hredis] at hc
  refine h.set hi hinfo hrun (hredis ▸ h.redis) (hdb ▸ h.table) hsnap (fun k e he => ?_)
    (fun k k' n n' j j' hc hc' => h.once k k' n n' j j' (hcarries hc) (hcarries hc')) hy
    fun z hz hzr hxz => ⟨?_, ?_, ?_⟩
  · rw [hdb]
    exact h.rows k e (hredis ▸ he)
  · refine hzr.mono (hfree z hz hzr hxz) (fun r hr => hdb ▸ hr) fun hzc k n j hj => ?_
    unfold Relies at hzr
    rw [hzc] at hzr
    exact hzr.2 k n j (hcarries hj)
  · exact ⟨fun _ => hfree z hz hzr hxz, fun hyc => absurd hyc hc⟩
  · exact ⟨fun hzt => absurd hzt (hfree z hz hzr hxz), fun _ hyc => absurd hyc hc⟩

/-- A commit publishes the row of the call that inserted it, which from now on is the one call that
may append it. -/
theorem OutboxInv.commit (h : OutboxInv w l) {i : Nat} {x y : Caller} (hi : l[i]? = some x)
    (hinfo : y.1.info = x.1.info) (hrun : x.1.running = true) (hredis : w'.redis = w.redis)
    (hph : x.2 = .inserted) (hyc : y.2 = .committed)
    (hdb : w'.db = w.db.commit x.1.site) : OutboxInv w' (l.set i y) := by
  have hx : Relies w x := h.relies x (List.mem_of_getElem? hi) hrun
  unfold Relies at hx
  rw [hph] at hx
  obtain ⟨t, hw, hins⟩ := hx
  obtain ⟨hcommitted, -, hnone, htxs⟩ := hw.commit
  rw [← hdb] at hcommitted hnone htxs
  have hvalid := h.table.insert hins
  obtain ⟨rfl, hid, -⟩ := Outbox.insert_ok hins
  have hsub : ∀ r ∈ w.db.committed, r ∈ w'.db.committed := fun r hr => by
    rw [hcommitted]
    exact List.mem_append_left _ hr
  have hcarries : ∀ {k n j}, w'.Carries k n j → w.Carries k n j := fun {k n j} hc => by
    rwa [World.Carries, hredis] at hc
  have hjob : y.job = x.job := by simp only [Caller.job, hinfo]
  -- the inserted id was new, so nobody else has committed it and no entry carries it
  have hnew : ∀ {j}, Row.ofJob j ∈ w.db.committed → j.id ≠ x.job.id := fun {j} hj he =>
    hid (List.mem_map.mpr ⟨_, hj, he⟩)
  have hz : ∀ {z}, Relies w z → z.2 = .committed → z.job.id ≠ x.job.id := fun {z} hz hzc => by
    unfold Relies at hz
    rw [hzc] at hz
    exact hnew hz.1
  refine h.set hi hinfo hrun (hredis ▸ h.redis) (hcommitted ▸ hvalid) (fun c => ?_)
    (fun k e he => ?_)
    (fun k k' n n' j j' hc hc' => h.once k k' n n' j j' (hcarries hc) (hcarries hc')) ?_
    fun z hzl hzr hxz => ?_
  · by_cases hc : c = x.1.site
    · rw [hc, hnone]
      simp
    · rw [htxs c hc]
      exact h.snapshots c
  · obtain ⟨j, hj, hmem⟩ := h.rows k e (hredis ▸ he)
    exact ⟨j, hj, hsub _ hmem⟩
  · unfold Relies
    rw [hyc]
    refine ⟨by rw [hcommitted, hjob]; simp, fun k n j hj => ?_⟩
    obtain ⟨e, he, -, hfields⟩ := hcarries hj
    obtain ⟨j', hj', hmem⟩ := h.rows k e he
    obtain rfl := RedisStreamTransport.jobBody_injective (hfields.symm.trans hj')
    exact hjob ▸ hnew hmem
  · have hztx : ¬ z.InTx := hxz.tx (.inr hph)
    refine ⟨hzr.mono hztx hsub fun hzc k n j hj => ?_, ⟨fun _ => hztx, fun _ hzc => ?_⟩,
      ⟨fun hzt => absurd hzt hztx, fun hzc _ => ?_⟩⟩
    · unfold Relies at hzr
      rw [hzc] at hzr
      exact hzr.2 k n j (hcarries hj)
    · exact hjob ▸ (hz hzr hzc).symm
    · exact hjob ▸ hz hzr hzc

/-- What the streams carry after an `XADD`: what they carried, or the job just appended. -/
theorem World.Carries.of_xadd {key : String} {job : Job} {lim : Option (Nat × Bool)}
    {now evicted : Nat}
    (hw : w'.redis = (w.redis.apply now evicted
      (.xadd key (RedisStreamTransport.jobBody job) lim)).1) {k : String} {n : Nat} {j : Job}
    (h : w'.Carries k n j) :
    w.Carries k n j ∨ k = key ∧ n = (w.redis key).lastId + 1 ∧ j = job := by
  obtain ⟨e, he, rfl, hfields⟩ := h
  rw [hw] at he
  by_cases hk : k = key
  · subst hk
    simp only [Redis.Keyspace.apply, Function.update_self, Redis.Stream.evict] at he
    rcases List.mem_append.mp (List.mem_of_mem_drop he) with he | he
    · exact .inl ⟨e, he, rfl, hfields⟩
    · obtain rfl := List.mem_singleton.mp he
      exact .inr ⟨rfl, rfl, RedisStreamTransport.jobBody_injective hfields.symm⟩
  · rw [Redis.Keyspace.apply_of_ne w.redis now evicted _ hk] at he
    exact .inl ⟨e, he, rfl, hfields⟩

/-- An append is made by the one call that committed the row of its job, and ends that call. -/
theorem OutboxInv.append (h : OutboxInv w l) {i : Nat} {x y : Caller} (hi : l[i]? = some x)
    (hinfo : y.1.info = x.1.info) (hrun : x.1.running = true) (hdb : w'.db = w.db)
    {key : String} {lim : Option (Nat × Bool)} {now evicted : Nat}
    (hredis : w'.redis = (w.redis.apply now evicted
      (.xadd key (RedisStreamTransport.jobBody x.job) lim)).1)
    (hph : x.2 = .committed) (hy : y.2 = .closed) : OutboxInv w' (l.set i y) := by
  have hx : Relies w x := h.relies x (List.mem_of_getElem? hi) hrun
  unfold Relies at hx
  rw [hph] at hx
  obtain ⟨hrow, hfresh⟩ := hx
  have hidle : ¬ y.InTx := by simp [Caller.InTx, hy]
  have hopen : y.2 ≠ .committed := by simp [hy]
  refine h.set hi hinfo hrun ?_ (hdb ▸ h.table) (hdb ▸ h.snapshots) (fun k e he => ?_)
    (fun k k' n n' j j' hc hc' hid => ?_) (by unfold Relies; rw [hy]; trivial)
    fun z hzl hzr hxz => ⟨?_, .of_idle hidle hopen, ⟨fun _ => hidle, fun _ hc => absurd hc hopen⟩⟩
  · rw [hredis]
    exact h.redis.apply now evicted trivial
  · rw [hdb]
    rw [hredis] at he
    by_cases hk : k = key
    · subst hk
      simp only [Redis.Keyspace.apply, Function.update_self, Redis.Stream.evict] at he
      rcases List.mem_append.mp (List.mem_of_mem_drop he) with he | he
      · exact h.rows k e he
      · obtain rfl := List.mem_singleton.mp he
        exact ⟨x.job, rfl, hrow⟩
    · rw [Redis.Keyspace.apply_of_ne w.redis now evicted _ hk] at he
      exact h.rows k e he
  · -- no entry carried this job before, so the appended one is the only one
    rcases World.Carries.of_xadd hredis hc with hc | ⟨rfl, rfl, rfl⟩
    · rcases World.Carries.of_xadd hredis hc' with hc' | ⟨rfl, rfl, rfl⟩
      · exact h.once k k' n n' j j' hc hc' hid
      · exact absurd hid (hfresh _ _ _ hc)
    · rcases World.Carries.of_xadd hredis hc' with hc' | ⟨rfl, rfl, rfl⟩
      · exact absurd hid.symm (hfresh _ _ _ hc')
      · exact ⟨rfl, rfl⟩
  · unfold Relies at hzr ⊢
    rw [hdb]
    cases hzp : z.2 with
    | committed =>
      rw [hzp] at hzr
      refine ⟨hzr.1, fun k n j hc => ?_⟩
      rcases World.Carries.of_xadd hredis hc with hc | ⟨rfl, rfl, rfl⟩
      · exact hzr.2 k n j hc
      · exact hxz.row hph hzp
    | begun | inserted =>
      rw [hzp] at hzr
      exact hzr
    | fresh | checked | closed => trivial

/-- The call tries to begin its transaction, which it can only while nobody else is in one. -/
theorem OutboxInv.begin (h : OutboxInv w l) {i : Nat} {p : Proc RelaySig Nat EnqueueCall Nat}
    {ph : Enqueuer.Phase} {q : Option (Py Nat)} {r : Except PyExc Unit} (hi : l[i]? = some (p, ph))
    (hrun : p.running = true) (hredis : w'.redis = w.redis)
    (hdb : w'.db = (w.db.run p.site .begin).1)
    (hr : r = (w.db.run p.site .begin).2.mapError .sqliteError) :
    OutboxInv w' (l.set i ({ p with prog := q }, Enqueuer.stmtNext ph .begin r)) := by
  rcases w.db.beginImmediate_cases (E := Violation) p.site with
    ⟨e, hb⟩ | ⟨-, hl, db', hb, hwr, hc, htxs⟩
  · obtain rfl : r = .error (.sqliteError e) := by rw [hr, Db.run, hb]; rfl
    refine h.quiet hi rfl rfl hrun hredis (by rw [hdb, Db.run, hb]) (.inr ?_)
    exact ⟨by simp [Caller.InTx, Enqueuer.stmtNext], by simp [Enqueuer.stmtNext]⟩
  · obtain rfl : r = .ok () := by rw [hr, Db.run, hb]; rfl
    obtain rfl : w'.db = db' := by rw [hdb, Db.run, hb]
    refine h.statement hi rfl hrun hredis hc (fun c => ?_) (fun z _ hz _ hzt => ?_)
      (by simp [Enqueuer.stmtNext]) ?_
    · by_cases hcs : c = p.site
      · obtain ⟨-, v, hv⟩ := hwr
        simp [hcs, hv]
      · rw [htxs c hcs]
        exact h.snapshots c
    · have hlock := (hz.lock hzt).1
      rw [hl] at hlock
      cases hlock
    · simp only [Relies, Enqueuer.stmtNext, hc]
      exact hwr

/-- The call inserts its row, or has it refused; its transaction stays open either way. -/
theorem OutboxInv.insert (h : OutboxInv w l) {i : Nat} {p : Proc RelaySig Nat EnqueueCall Nat}
    {q : Option (Py Nat)} {r : Except PyExc Unit} (hi : l[i]? = some (p, .begun))
    (hrun : p.running = true) (hredis : w'.redis = w.redis)
    (hdb : w'.db = (w.db.run p.site (.insert (.ofJob p.info.args.keyedJob))).1)
    (hr : r = (w.db.run p.site (.insert (.ofJob p.info.args.keyedJob))).2.mapError .sqliteError) :
    OutboxInv w' (l.set i ({ p with prog := q },
      Enqueuer.stmtNext .begun (.insert (.ofJob p.info.args.keyedJob)) r)) := by
  have hwr : w.db.Writing p.site w.db.committed := h.relies _ (List.mem_of_getElem? hi) hrun
  obtain ⟨db', hc, htxs, hcase⟩ := hwr.write (Outbox.insert (.ofJob p.info.args.keyedJob))
  have hsnap : db'.txs p.site ≠ some ⟨none⟩ → ∀ c, db'.txs c ≠ some ⟨none⟩ := fun hs c => by
    by_cases hcs : c = p.site
    · exact hcs ▸ hs
    · rw [htxs c hcs]
      exact h.snapshots c
  rcases hcase with ⟨t, hins, hwr', hb⟩ | ⟨e, -, hwr', hb⟩
  · obtain rfl : r = .ok () := by rw [hr, Db.run, hb]; rfl
    obtain rfl : w'.db = db' := by rw [hdb, Db.run, hb]
    refine h.statement hi rfl hrun hredis hc ?_ (fun z _ _ hxz => hxz.tx (.inl rfl))
      (by simp [Enqueuer.stmtNext]) ?_
    · obtain ⟨-, v, hv⟩ := hwr'
      exact hsnap (by simp [hv])
    · simp only [Relies, Enqueuer.stmtNext, hc]
      exact ⟨t, hwr', hins⟩
  · obtain rfl : r = .error (.sqliteError (.constraint e)) := by rw [hr, Db.run, hb]; rfl
    obtain rfl : w'.db = db' := by rw [hdb, Db.run, hb]
    refine h.statement hi rfl hrun hredis hc ?_ (fun z _ _ hxz => hxz.tx (.inl rfl))
      (by simp [Enqueuer.stmtNext]) ?_
    · obtain ⟨-, v, hv⟩ := hwr'
      exact hsnap (by simp [hv])
    · simp only [Relies, Enqueuer.stmtNext, hc]
      exact hwr'

/-- The call rolls its transaction back. -/
theorem OutboxInv.rollback (h : OutboxInv w l) {i : Nat} {p : Proc RelaySig Nat EnqueueCall Nat}
    {ph : Enqueuer.Phase} {q : Option (Py Nat)} (hi : l[i]? = some (p, ph))
    (hrun : p.running = true) (htx : Caller.InTx (p, ph)) (hredis : w'.redis = w.redis)
    (hdb : w'.db = w.db.rollback p.site) :
    OutboxInv w' (l.set i ({ p with prog := q }, Enqueuer.stmtNext ph .rollback (.ok ()))) := by
  obtain ⟨hc, hnone, htxs, -⟩ := w.db.rollback_spec p.site
  rw [← hdb] at hc hnone htxs
  refine h.statement hi rfl hrun hredis hc (fun c => ?_) (fun z _ _ hxz => hxz.tx htx)
    (by simp [Enqueuer.stmtNext]) trivial
  by_cases hcs : c = p.site
  · rw [hcs, hnone]
    simp
  · rw [htxs c hcs]
    exact h.snapshots c

/-- The invariant after a statement. -/
theorem OutboxInv.sql (h : OutboxInv w l) {i : Nat} {p : Proc RelaySig Nat EnqueueCall Nat}
    {ph : Enqueuer.Phase} {s : Stmt} {q : Option (Py Nat)} {ans : Answer}
    {r : Except PyExc s.Res} (hi : l[i]? = some (p, ph)) (hrun : p.running = true)
    (hg : p.info.enqueuer.stmtGuard p.info.args ph s)
    (hx : w.exec p.site (.enqueuer i) (.sql s) ans = some (w', r)) :
    OutboxInv w' (l.set i ({ p with prog := q }, Enqueuer.stmtNext ph s r)) := by
  obtain ⟨hredis, ⟨hdb, hr⟩ | ⟨hdb, e, -, rfl⟩⟩ := World.exec_sql_db hx
  swap
  · -- the engine failed: no trace, and the phase is kept or the call has ended
    refine h.quiet hi rfl rfl hrun hredis hdb ?_
    cases s with
    | insert _ | commit => exact .inl rfl
    | begin | update _ _ _ | selectById _ | selectByKey _ | rollback =>
      exact .inr ⟨by simp [Caller.InTx, Enqueuer.stmtNext], by simp [Enqueuer.stmtNext]⟩
  cases s with
  | update id st att => cases ph <;> exact hg.elim
  | selectById id => cases ph <;> exact hg.elim
  | selectByKey key =>
    have hread : (w.db.read p.site).1 = w.db := Sqlite.Database.read_fst (h.snapshots p.site)
    obtain rfl : r = .ok ((w.db.read p.site).2.find? fun row => row.idempotencyKey = some key) :=
      hr
    exact h.quiet hi rfl rfl hrun hredis (hdb.trans hread) (.inl rfl)
  | begin => exact h.begin hi hrun hredis hdb hr
  | insert row =>
    obtain ⟨rfl, rfl⟩ : ph = .begun ∧ row = .ofJob p.info.args.keyedJob := by
      cases ph <;> first | exact hg.elim | exact ⟨rfl, hg⟩
    exact h.insert hi hrun hredis hdb hr
  | commit =>
    obtain rfl : ph = .inserted := by cases ph <;> first | exact hg.elim | rfl
    obtain rfl : r = .ok () := hr
    exact h.commit hi rfl hrun hredis rfl rfl hdb
  | rollback =>
    have htx : Caller.InTx (p, ph) := by
      cases ph <;> first | exact hg.elim | exact .inl rfl | exact .inr rfl
    obtain rfl : r = .ok () := hr
    exact h.rollback hi hrun htx hredis hdb

/-- **The invariant is kept by every answer.** -/
theorem OutboxInv.answer (h : OutboxInv w l) {i : Nat} {p : Proc RelaySig Nat EnqueueCall Nat}
    {ph : Enqueuer.Phase} {o : Op} {k : Except PyExc o.Res → Py Nat} {ans : Answer}
    {r : Except PyExc o.Res} (hi : l[i]? = some (p, ph)) (hprog : p.prog = some (.call o k))
    (hg : (p.info.enqueuer.monitor p.info.args).guard ph o)
    (hx : w.exec p.site (.enqueuer i) o ans = some (w', r)) :
    OutboxInv w' (l.set i ({ p with prog := some (k r) },
      (p.info.enqueuer.monitor p.info.args).next ph o r)) := by
  have hrun : p.running = true := p.running_iff.mpr ⟨o, k, hprog⟩
  cases o with
  | sql s => exact h.sql hi hrun hg hx
  | utcnow =>
    obtain ⟨applied, rfl⟩ := World.exec_local rfl hx
    exact h.quiet hi rfl rfl hrun rfl rfl (.inl rfl)
  | handler _ _ | monotonic | metric _ | delay _ => exact hg.elim
  | redis cmd =>
    cases cmd with
    | xlen k' =>
      have hnext : ¬ Caller.InTx (p, p.info.enqueuer.cmdNext (.xlen k') r) ∧
          p.info.enqueuer.cmdNext (.xlen k') r ≠ .committed := by
        simp only [Caller.InTx, Enqueuer.cmdNext]
        cases r with
        | error e => simp
        | ok n => dsimp only; split <;> simp
      rcases World.exec_redis hx with ⟨n, -, rfl, -⟩ | ⟨e, -, -, rfl, rfl⟩
      · exact h.quiet hi rfl rfl hrun rfl rfl (.inr hnext)
      · exact h.quiet hi rfl rfl hrun rfl rfl (.inr hnext)
    | xadd k' body lim =>
      obtain ⟨hph, -, rfl, -⟩ := hg
      have hstore : p.info.enqueuer.store = true := h.stores (p, ph) (List.mem_of_getElem? hi)
      -- with a store the append comes after the commit only
      obtain rfl : ph = .committed := by
        rcases hph with ⟨rfl, -⟩ | ⟨-, hno⟩
        · rfl
        · rw [hstore] at hno
          cases hno
      rcases World.exec_redis hx with ⟨n, -, rfl, -⟩ | ⟨e, -, -, rfl, rfl⟩
      · have hredis : (w.sendCmd (.xadd k' (RedisStreamTransport.jobBody p.info.args.keyedJob) lim)
            n).1.redis = (w.redis.apply w.now n
              (.xadd k' (RedisStreamTransport.jobBody p.info.args.keyedJob) lim)).1 := rfl
        exact h.append hi rfl hrun rfl hredis rfl rfl
      · exact h.quiet hi rfl rfl hrun rfl rfl (.inr ⟨by simp [Caller.InTx, Enqueuer.monitor,
          Enqueuer.cmdNext], by simp [Enqueuer.monitor, Enqueuer.cmdNext]⟩)
    | xgroupCreate _ _ _ | xreadgroup _ _ _ _ _ | xack _ _ _ | xautoclaim _ _ _ _ _ _
    | xrevrange _ _ | xdel _ _ => exact hg.elim

/-! ## Runs -/

/-- Calls of `enqueue` on enqueuers with a store. Nobody else writes. -/
def OutboxLoad : PoolState relay EnqueueCall Nat → PoolLabel relay EnqueueCall → Prop
  | _, .start call _ => call.enqueuer.store = true
  | _, .env (.foreign _ _) => False
  | _, _ => True

/-- **The invariant as a proof rule** for the calls of `enqueue` with a store. -/
def outboxRule : PoolRule enqueuePool (fun call => call.enqueuer.monitor call.args) OutboxLoad
    OutboxInv where
  init _ := .fresh
  code := wp_enqueuePool
  start := by
    intro w l call site h hstore
    refine ⟨h.redis, h.table, h.snapshots, fun x hx => ?_, fun x hx hr => ?_,
      fun i j x y hij hi hj hxr hyr => ?_, h.rows, h.once⟩
    · rcases List.mem_append.mp hx with hx | hx
      · exact h.stores x hx
      · exact List.mem_singleton.mp hx ▸ hstore
    · rcases List.mem_append.mp hx with hx | hx
      · exact h.relies x hx hr
      · exact List.mem_singleton.mp hx ▸ trivial
    · -- a new call has done nothing yet
      have hnew : ∀ {n : Nat} {z : Caller}, (l ++ [(⟨call, site,
          some (enqueuePool.code call)⟩, Enqueuer.Phase.fresh)])[n]? = some z →
          l[n]? = some z ∨ z.2 = .fresh := fun {n z} hz => by
        rcases getElem?_concat_cases hz with hz | ⟨-, rfl⟩
        · exact .inl hz
        · exact .inr rfl
      rcases hnew hi with hi | hx
      · rcases hnew hj with hj | hy
        · exact h.apart i j x y hij hi hj hxr hyr
        · exact ⟨fun _ => by simp [Caller.InTx, hy], fun _ hc => by simp [hy] at hc⟩
      · exact .of_idle (by simp [Caller.InTx, hx]) (by simp [hx])
  answer := fun h _ hi hprog hg hx => h.answer hi hprog hg hx
  crash := by
    intro w l site h _
    obtain ⟨hc, hnone, htxs, -⟩ := w.db.rollback_spec site
    have hcommitted : (w.crash site).db.committed = w.db.committed := hc
    refine ⟨h.redis, hcommitted ▸ h.table, fun c => ?_, fun x hx => ?_, fun x hx hr => ?_,
      fun i j x y hij hi hj hxr hyr => ?_, hcommitted ▸ h.rows, h.once⟩
    · by_cases hcs : c = site
      · rw [hcs]
        exact fun hn => absurd (hnone.symm.trans hn) (by simp)
      · exact fun hn => h.snapshots c ((htxs c hcs).symm.trans hn)
    · obtain ⟨y, hy, rfl⟩ := List.mem_map.mp hx
      rw [Proc.kill_info]
      exact h.stores y hy
    · -- who survives runs elsewhere, and goes on writing there
      obtain ⟨y, hy, rfl⟩ := List.mem_map.mp hx
      obtain ⟨o, k, hprog⟩ := (Proc.running_iff _).mp hr
      have hrel := (h.relies y hy (Proc.running_of_kill hr)).crash (Proc.site_ne_of_kill hprog)
      rwa [(Proc.kill_prog_eq_some hprog).2]
    · simp only [List.getElem?_map, Option.map_eq_some_iff] at hi hj
      obtain ⟨x, hi, rfl⟩ := hi
      obtain ⟨y, hj, rfl⟩ := hj
      have hxy := h.apart i j x y hij hi hj (Proc.running_of_kill hxr) (Proc.running_of_kill hyr)
      exact ⟨hxy.tx, by simpa only [Caller.job, Proc.kill_info] using hxy.row⟩
  env := by
    rintro w l (d | ⟨key', body⟩) w' h hok hw
    · obtain rfl := Option.some.inj hw
      exact ⟨h.redis, h.table, h.snapshots, h.stores, h.relies, h.apart, h.rows, h.once⟩
    · exact hok.elim

/-- The job an entry builds, when its body builds one with the declared types. -/
def RedisStreamTransport.jobOf? (t : RedisStreamTransport) (now : DateTime) (body : Body) :
    Option Job :=
  match t.decodeEntry now body with
  | .job raw => raw.typed?
  | _ => none

/-- A body is decoded to its job. -/
@[simp] theorem jobOf?_jobBody (t : RedisStreamTransport) (now : DateTime) (j : Job) :
    t.jobOf? now (RedisStreamTransport.jobBody j) = some j := by
  simp [RedisStreamTransport.jobOf?]

/-- The row says of the job what its entry says. -/
structure Row.Records (row : Row) (j : Job) : Prop where
  id : row.id = j.id
  kind : row.kind = j.kind
  payload : row.payload = Codec.dumps j.payload.toJVal
  maxRetries : row.maxRetries = j.maxRetries
  queue : row.queue = j.queue
  idempotencyKey : row.idempotencyKey = j.idempotencyKey

/-- **Outbox first, one entry per job and key.** However calls of `enqueue` with a store are
interleaved, and wherever they fail or crash: the job of every stream entry has a committed row, and
two entries with one job id or one key are the same entry of the same stream. -/
theorem outboxFirst (t : RedisStreamTransport) (now : DateTime)
    {s : PoolState relay EnqueueCall Nat}
    (hrun : Reaches enqueuePool.step OutboxLoad ⟨.init, []⟩ s) :
    (∀ k, ∀ e ∈ (s.world.redis k).entries, ∃ j, ∃ row ∈ s.world.db.committed,
      t.jobOf? now e.fields = some j ∧ row.Records j) ∧
    ∀ (k k' : String) (i i' : Nat) (e e' : Redis.Entry Body) (j j' : Job),
      (s.world.redis k).entries[i]? = some e →
      (s.world.redis k').entries[i']? = some e' → t.jobOf? now e.fields = some j →
      t.jobOf? now e'.fields = some j' →
      (j.id = j'.id ∨ j.idempotencyKey ≠ none ∧ j.idempotencyKey = j'.idempotencyKey) →
      k = k' ∧ i = i' := by
  have h₀ : OutboxInv World.init [] := by
    constructor <;> simp [World.init, World.Carries, Redis.Stream.empty]
    · exact fun _ => Redis.Stream.wf_empty
    · exact ⟨List.nodup_nil, List.nodup_nil⟩
  obtain ⟨l, -, h⟩ := outboxRule.run hrun (PoolRule.holds_nil h₀)
  refine ⟨fun k e he => ?_, fun k k' i i' e e' j j' hi hi' hj hj' heq => ?_⟩
  · obtain ⟨j, hj, hmem⟩ := h.rows k e he
    exact ⟨j, _, hmem, by simp [hj], ⟨rfl, rfl, rfl, rfl, rfl, rfl⟩⟩
  · obtain ⟨j₁, hf, hrow⟩ := h.rows k e (List.mem_of_getElem? hi)
    obtain ⟨j₂, hf', hrow'⟩ := h.rows k' e' (List.mem_of_getElem? hi')
    obtain rfl : j₁ = j := by simpa [hf] using hj
    obtain rfl : j₂ = j' := by simpa [hf'] using hj'
    -- two rows with one key are one row, hence of one id
    have hid : j₁.id = j₂.id := by
      rcases heq with hid | ⟨hne, hkey⟩
      · exact hid
      · obtain ⟨key, hk⟩ := Option.ne_none_iff_exists'.mp hne
        exact congrArg Row.id (h.table.eq_of_key hrow hrow' hk (hkey.symm.trans hk))
    obtain ⟨rfl, hn⟩ := h.once k k' e.id e'.id j₁ j₂ ⟨e, List.mem_of_getElem? hi, rfl, hf⟩
      ⟨e', List.mem_of_getElem? hi', rfl, hf'⟩ hid
    have hnd : ((s.world.redis k).entries.map Redis.Entry.id).Nodup :=
      (h.redis k).ids_sorted.imp fun hlt => Nat.ne_of_lt hlt
    refine ⟨rfl, (List.getElem?_inj ?_ hnd).mp ?_⟩
    · simpa using (List.getElem?_eq_some_iff.mp hi).1
    · simp [hi, hi', hn]

end

/-- One call that inserts, commits and appends. -/
theorem outboxFirst_single : ∃ s : PoolState relay EnqueueCall Nat,
    ∃ e ∈ (s.world.redis (Sample.transport.streamKey "default")).entries,
      ∃ j, ∃ row ∈ s.world.db.committed,
        Sample.transport.jobOf? .epoch e.fields = some j ∧ row.Records j := by
  have hrun : ∃ s, Reaches enqueuePool.step OutboxLoad ⟨.init, []⟩ s ∧
      (s.world.redis (Sample.transport.streamKey "default")).entries =
        [⟨1, RedisStreamTransport.jobBody Sample.job⟩] :=
    ⟨_, .tail (l := .answer 0 (.ok 0)) (.tail (l := .answer 0 (.ok 0)) (.tail
      (l := .answer 0 (.ok 0)) (.tail (l := .answer 0 (.ok 0)) (.tail (l := .answer 0 (.ok 0))
      (.single (l := .start (Sample.enqueueCall Sample.job true) 0) rfl rfl) trivial rfl)
      trivial rfl) trivial rfl) trivial rfl) trivial rfl, rfl⟩
  obtain ⟨s, hs, hent⟩ := hrun
  have he : (⟨1, RedisStreamTransport.jobBody Sample.job⟩ : Redis.Entry Body) ∈
      (s.world.redis (Sample.transport.streamKey "default")).entries := by
    rw [hent]
    exact List.mem_singleton_self _
  exact ⟨s, _, he, (outboxFirst Sample.transport .epoch hs).1 _ _ he⟩

end RelayQ

import RelayQ.Application.Execute

/-! # Dead means dead-lettered

`handle_failure` writes the status `DEAD` after its attempt to append the job to the dead-letter
queue, whether that attempt worked or not. A row that is `DEAD` has its dead letter as long as no
such append fails; an append that fails with an error is logged and passed over.

* `World.DeadLettered`: the dead-letter stream has received an entry for the job of a call.
* `DlqAnswered`: the runs in which no dead-letter append fails.
* `DeadInv`: the invariant, over everything any connection to the outbox can see. -/

namespace RelayQ

section

variable [Codec]

/-- The dead-letter stream of the call's queue has received an entry for the call's job. -/
def World.DeadLettered (w : World) (call : ExecCall) : Prop :=
  ∃ ev ∈ w.log, ev.applied = true ∧ ∃ job why, job.id = call.job.id ∧
    ev.op = .redis (.xadd (call.executor.transport.dlqKey call.queue)
      (RedisStreamTransport.dlqBody job why) none)

/-- The dead-letter appends are carried out, or their callers cancelled: none fails with an
error. -/
def DlqAnswered (s : PoolState relay ExecCall Job) : PoolLabel relay ExecCall → Prop
  | .answer i (.fail e) => e.isException = true → ∀ p key body lim k, s.procs[i]? = some p →
      p.prog ≠ some (.call (.redis (.xadd key body lim)) k)
  | _ => True

/-- The invariant: whoever is past the append has its dead letter in the stream, and so has every
job that is `DEAD` in what some connection sees. -/
structure DeadInv (w : World) (l : List (Proc RelaySig Nat ExecCall Job × ExecPhase)) : Prop where
  calls : ∀ x ∈ l, x.2.dlqed = true → w.DeadLettered x.1.info
  rows : ∀ t, w.db.Shows t → ∀ row ∈ t, row.status = .dead →
    ∃ x ∈ l, x.1.info.job.id = row.id ∧ w.DeadLettered x.1.info

variable {w w' : World} {l : List (Proc RelaySig Nat ExecCall Job × ExecPhase)}

/-- The record only grows. -/
theorem World.DeadLettered.mono {call : ExecCall} (h : w.DeadLettered call) (hw : w.Le w') :
    w'.DeadLettered call := by
  obtain ⟨ev, hev, hrest⟩ := h
  exact ⟨ev, hw.log.subset hev, hrest⟩

omit [Codec] in
/-- A row of an updated table: a row of the table, with the new status if it has the id. -/
theorem Outbox.mem_update {id : String} {status : JobStatus} {attempt : Option Int} {t : Outbox}
    {row : Row} (h : row ∈ Outbox.update id status attempt t) :
    row ∈ t ∨ row.id = id ∧ row.status = status := by
  obtain ⟨r, hr, rfl⟩ := List.mem_map.mp h
  split
  · exact .inr ⟨‹_›, rfl⟩
  · exact .inl hr

/-- The invariant after an answer, from what it does to the call it answers and to the rows that
become visible. -/
theorem DeadInv.set (h : DeadInv w l) (hw : w.Le w') {i : Nat}
    {x y : Proc RelaySig Nat ExecCall Job × ExecPhase} (hi : l[i]? = some x)
    (hinfo : y.1.info = x.1.info) (hy : y.2.dlqed = true → w'.DeadLettered x.1.info)
    (hrows : ∀ t, w'.db.Shows t → ∀ row ∈ t, row.status = .dead →
      (∃ t₀, w.db.Shows t₀ ∧ row ∈ t₀) ∨ row.id = x.1.info.job.id ∧ x.2.dlqed = true) :
    DeadInv w' (l.set i y) := by
  have hlt : i < l.length := (List.getElem?_eq_some_iff.mp hi).1
  -- the calls keep their arguments
  have hkeep : ∀ z ∈ l, ∃ z' ∈ l.set i y, z'.1.info = z.1.info := by
    intro z hz
    obtain ⟨j, hj⟩ := List.mem_iff_getElem?.mp hz
    by_cases hji : i = j
    · subst hji
      obtain rfl := Option.some.inj (hi.symm.trans hj)
      exact ⟨y, List.mem_set hlt y, hinfo⟩
    · exact ⟨z, List.mem_of_getElem? (by rw [List.getElem?_set_ne hji, hj]), rfl⟩
  refine ⟨fun z hz hd => ?_, fun t ht row hrow hdead => ?_⟩
  · rcases List.mem_or_eq_of_mem_set hz with hz | rfl
    · exact (h.calls z hz hd).mono hw
    · exact hinfo ▸ hy hd
  · rcases hrows t ht row hrow hdead with ⟨t₀, ht₀, hmem⟩ | ⟨hid, hd⟩
    · obtain ⟨z, hz, hid, hdl⟩ := h.rows t₀ ht₀ row hmem hdead
      obtain ⟨z', hz', hinfo'⟩ := hkeep z hz
      exact ⟨z', hz', hinfo' ▸ hid, hinfo' ▸ hdl.mono hw⟩
    · obtain ⟨z', hz', hinfo'⟩ := hkeep x (List.mem_of_getElem? hi)
      exact ⟨z', hz', hinfo' ▸ hid.symm,
        hinfo' ▸ (h.calls x (List.mem_of_getElem? hi) hd).mono hw⟩

/-- **The invariant is kept by every answer** that does not fail a dead-letter append. -/
theorem DeadInv.answer (h : DeadInv w l) {i : Nat} {p : Proc RelaySig Nat ExecCall Job}
    {ph : ExecPhase} {o : Op} {k : Except PyExc o.Res → Py Job} {ans : Answer}
    {r : Except PyExc o.Res} {a : Actor} (hi : l[i]? = some (p, ph))
    (hg : (executeMonitor p.info.executor.transport p.info.queue p.info.entryId
      p.info.job.id).guard ph o)
    (hans : ∀ e, ans = .fail e → e.isException = true → ∀ key body lim,
      o ≠ .redis (.xadd key body lim))
    (hx : w.exec p.site a o ans = some (w', r)) :
    DeadInv w' (l.set i ({ p with prog := some (k r) },
      (executeMonitor p.info.executor.transport p.info.queue p.info.entryId
        p.info.job.id).next ph o r)) := by
  have hle : w.Le w' := World.exec_le hx
  have hkept : ph.dlqed = true → w'.DeadLettered p.info := fun hd =>
    (h.calls (p, ph) (List.mem_of_getElem? hi) hd).mono hle
  cases o with
  | handler _ _ | monotonic | utcnow | metric _ | delay _ =>
    obtain ⟨applied, rfl⟩ := World.exec_local rfl hx
    refine h.set hle hi rfl (fun hd => hkept ?_) fun t ht row hrow _ => .inl ⟨t, ht, hrow⟩
    simpa [executeMonitor, deadLettering] using hd
  | sql s =>
    cases s with
    | update id status attempt =>
      refine h.set hle hi rfl (fun hd => hkept ?_) fun t ht row hrow hdead => ?_
      · simpa [executeMonitor, deadLettering] using hd
      rcases World.exec_sql hx with ⟨-, rfl⟩ | ⟨e, -, -, rfl⟩
      · rcases Sqlite.Database.Shows.of_write ht with ht | ⟨t₀, ht₀, heq⟩
        · exact .inl ⟨t, ht, hrow⟩
        · obtain rfl := Except.ok.inj heq
          rcases Outbox.mem_update hrow with hrow | ⟨hid, hst⟩
          · exact .inl ⟨t₀, ht₀, hrow⟩
          · obtain ⟨hd, hj⟩ := hg (hst.symm.trans hdead)
            exact .inr ⟨hid.trans hj, hd⟩
      · exact .inl ⟨t, ht, hrow⟩
    | begin | insert _ | selectById _ | selectByKey _ | commit | rollback => exact hg.elim
  | redis c =>
    have hdb : w'.db = w.db := by
      rcases World.exec_redis hx with ⟨n, -, rfl, -⟩ | ⟨e, -, -, -, rfl⟩ <;> rfl
    refine h.set hle hi rfl (fun hd => ?_) fun t ht row hrow _ => .inl ⟨t, hdb ▸ ht, hrow⟩
    simp only [executeMonitor, Bool.or_eq_true] at hd
    rcases hd with hd | hd
    · exact hkept hd
    · cases c with
      | xadd key body lim =>
        obtain ⟨rfl, rfl, job, why, rfl, hid⟩ := hg
        rcases World.exec_redis hx with ⟨n, -, rfl, -⟩ | ⟨e, rfl, -, rfl, -⟩
        · exact ⟨_, List.mem_cons_self .., rfl, job, why, hid, rfl⟩
        · exact absurd rfl (hans e rfl hd _ _ _)
      | xlen _ | xgroupCreate _ _ _ | xreadgroup _ _ _ _ _ | xack _ _ _
      | xautoclaim _ _ _ _ _ _ | xrevrange _ _ | xdel _ _ => cases hd

/-- **The invariant as a proof rule** for concurrent calls of `execute`. -/
def deadRule : PoolRule executePool (fun call => executeMonitor call.executor.transport call.queue
    call.entryId call.job.id) DlqAnswered DeadInv where
  init _ := {}
  code call := call.executor.wp_execute call.queue call.entryId {} call.job
  start := by
    intro w l call site h _
    refine ⟨fun x hx hd => ?_, fun t ht row hrow hdead => ?_⟩
    · rcases List.mem_append.mp hx with hx | hx
      · exact h.calls x hx hd
      · obtain rfl := List.mem_singleton.mp hx
        cases hd
    · obtain ⟨x, hx, hrest⟩ := h.rows t ht row hrow hdead
      exact ⟨x, List.mem_append_left _ hx, hrest⟩
  answer := by
    intro w l i p ph o k ans w' r h hok hi hprog hg hx
    refine h.answer hi hg (fun e he hexc key body lim ho => ?_) hx
    subst he ho
    exact hok hexc p key body lim k (by simp [hi]) hprog
  crash := by
    intro w l site h _
    refine ⟨fun x hx hd => ?_, fun t ht row hrow hdead => ?_⟩
    · obtain ⟨y, hy, rfl⟩ := List.mem_map.mp hx
      rw [Proc.kill_info]
      exact h.calls y hy hd
    · obtain ⟨x, hx, hid, hdl⟩ := h.rows t (Sqlite.Database.Shows.of_rollback ht) row hrow hdead
      exact ⟨_, List.mem_map_of_mem hx, by rwa [Proc.kill_info], by rwa [Proc.kill_info]⟩
  env := by
    rintro w l (d | ⟨key, body⟩) w' h - hw
    · obtain rfl := Option.some.inj hw
      exact ⟨h.calls, h.rows⟩
    · have hw' : (w.exec 0 .foreign (.redis (.xadd key body none)) (.ok 0)).map Prod.fst =
        some w' := hw
      obtain ⟨⟨w₁, r⟩, hx, rfl⟩ := Option.map_eq_some_iff.mp hw'
      have hle := World.exec_le hx
      have hdb : w₁.db = w.db := by
        rcases World.exec_redis hx with ⟨n, -, rfl, -⟩ | ⟨e, -, -, -, rfl⟩ <;> rfl
      refine ⟨fun x hxl hd => (h.calls x hxl hd).mono hle, fun t ht row hrow hdead => ?_⟩
      obtain ⟨x, hxl, hid, hdl⟩ := h.rows t (hdb ▸ ht) row hrow hdead
      exact ⟨x, hxl, hid, hdl.mono hle⟩

/-- **Dead means dead-lettered**, as long as no dead-letter append fails with an error: in every run
of concurrent executions, interleaved and failing in any other way, over a database in which nothing
is `DEAD` at first, a row that is `DEAD` in what any connection sees belongs to a job whose dead
letter its queue's dead-letter stream has received. -/
theorem deadLettered_of_dead {now : Nat} {ks : Redis.Keyspace Body} {db : Db}
    (h₀ : ∀ t, db.Shows t → ∀ row ∈ t, row.status ≠ .dead) {s : PoolState relay ExecCall Job}
    (hrun : Reaches executePool.step DlqAnswered ⟨⟨now, ks, db, []⟩, []⟩ s) {t : Outbox}
    (ht : s.world.db.Shows t) {row : Row} (hrow : row ∈ t) (hdead : row.status = .dead) :
    ∃ p ∈ s.procs, p.info.job.id = row.id ∧ s.world.DeadLettered p.info := by
  have hinv : DeadInv ⟨now, ks, db, []⟩ [] :=
    ⟨by simp, fun t ht row hrow hd => absurd hd (h₀ t ht row hrow)⟩
  obtain ⟨l, ⟨hl, -⟩, h⟩ := deadRule.run hrun (PoolRule.holds_nil hinv)
  obtain ⟨x, hx, hrest⟩ := h.rows t ht row hrow hdead
  exact ⟨x.1, hl ▸ List.mem_map_of_mem hx, hrest⟩

end

/-- A database that holds the row of a job. -/
def Sample.outbox (job : Job) : Db := ⟨[.ofJob job], 0, none, fun _ => none⟩

/-- One execution of a job without retries whose handler fails, the dead-letter append answered as
given. -/
def Sample.deadRun (dlq : Answer) (rest : List Answer) : List (PoolLabel relay ExecCall) :=
  .start ⟨{ transport := Sample.transport, store := true }, "default", 1,
    { Sample.job with maxRetries := 0 }⟩ 0 ::
  ([.ok 0, .ok 0, .ran ⟨.empty, some (.other "ValueError" (some "boom"))⟩, .ok 0, .ok 0, .ok 0,
    dlq] ++ rest).map (.answer 0)

/-- A row that was not `DEAD` is, and its job is in the dead-letter stream. -/
theorem deadLettered_of_dead_single : ∃ s : PoolState relay ExecCall Job,
    ∃ t, s.world.db.Shows t ∧ ∃ row ∈ t, row.status = .dead ∧
      ∃ p ∈ s.procs, p.info.job.id = row.id ∧ s.world.DeadLettered p.info := by
  have hrun : ∃ s : PoolState relay ExecCall Job,
      runSteps executePool.step ⟨⟨0, fun _ => .empty Body, Sample.outbox Sample.job, []⟩, []⟩
        (Sample.deadRun (.ok 0) [.ok 0, .ok 0, .ok 0]) = some s ∧
      ∃ row, s.world.db.Shows [row] ∧ row.status = .dead :=
    ⟨_, rfl, { Row.ofJob Sample.job with status := .dead }, .inr ⟨0, _, rfl⟩, rfl⟩
  obtain ⟨s, hs, row, hshow, hdead⟩ := hrun
  have hok : ∀ l ∈ Sample.deadRun (.ok 0) [.ok 0, .ok 0, .ok 0], ∀ u, DlqAnswered u l := by
    intro l hl u
    simp only [Sample.deadRun, List.cons_append, List.nil_append, List.map_cons, List.map_nil,
      List.mem_cons, List.not_mem_nil, or_false] at hl
    rcases hl with rfl | rfl | rfl | rfl | rfl | rfl | rfl | rfl | rfl | rfl | rfl <;> trivial
  have hreach := (Reaches.of_runSteps hok hs).mono fun u l hl => hl u
  refine ⟨s, [row], hshow, row, List.mem_singleton_self _, hdead, ?_⟩
  refine deadLettered_of_dead ?_ hreach hshow (List.mem_singleton_self _) hdead
  rintro t (rfl | ⟨c, v, hc⟩) r hr
  · obtain rfl := List.mem_singleton.mp hr
    decide
  · cases hc

/-- A dead-letter append that fails is passed over: the row is `DEAD`, and no dead letter is
there. -/
theorem dead_not_deadLettered :
    ¬ ∀ (now : Nat) (ks : Redis.Keyspace Body) (db : Db),
      (∀ t, db.Shows t → ∀ row ∈ t, row.status ≠ .dead) →
      ∀ s : PoolState relay ExecCall Job,
        Reaches executePool.step (fun _ _ => True) ⟨⟨now, ks, db, []⟩, []⟩ s →
        ∀ t, s.world.db.Shows t → ∀ row ∈ t, row.status = .dead →
          ∃ p ∈ s.procs, p.info.job.id = row.id ∧ s.world.DeadLettered p.info := by
  intro h
  let lost : PyExc := .redisError "ConnectionError" "Connection lost"
  have hrun : ∃ s : PoolState relay ExecCall Job,
      runSteps executePool.step ⟨⟨0, fun _ => .empty Body, Sample.outbox Sample.job, []⟩, []⟩
        (Sample.deadRun (.fail lost) [.ok 0]) = some s ∧
      s.world.db.Shows [{ Row.ofJob Sample.job with status := .dead }] ∧
      (s.world.log.all fun ev => !(ev.op.isTransport && ev.applied)) = true :=
    ⟨_, rfl, .inr ⟨0, _, rfl⟩, rfl⟩
  obtain ⟨s, hs, hshow, hlog⟩ := hrun
  have hreach : Reaches executePool.step (fun _ _ => True) _ s :=
    Reaches.of_runSteps (fun _ _ => trivial) hs
  obtain ⟨p, -, -, ev, hev, happlied, job, why, -, hop⟩ := h _ _ _ (by
    rintro t (rfl | ⟨c, v, hc⟩) r hr
    · obtain rfl := List.mem_singleton.mp hr
      decide
    · cases hc) s hreach _ hshow _ (List.mem_singleton_self _) rfl
  have hlost := List.all_eq_true.mp hlog ev hev
  simp only [hop, happlied] at hlost
  cases hlost

end RelayQ

import RelayQ.Api.Inspect
import RelayQ.Guarantees.OutboxStatus
import RelayQ.System.Committed

/-! # The status a job shows

`GET /jobs/{job_id}` shows the outbox. Workers update the status there and commit nothing, so where the
API has connections of its own, a job once committed shows as pending for good.

* `Row.fresh`: a row without its status updates.
* `Outbox.Grows`: the table keeps its rows, up to such updates, and its constraints.
* `Sys.statusFrozen`: the guarantee. -/

namespace RelayQ

/-! ## Rows stay -/

/-- The row before its status was ever updated. -/
def Row.fresh (row : Row) : Row := { row with status := .pending, attempts := 0 }

/-- A fresh row has its id. -/
@[simp] theorem Row.fresh_id (row : Row) : row.fresh.id = row.id := rfl

/-- An update is of what `fresh` leaves out. -/
theorem Row.fresh_update (row : Row) (status : JobStatus) (attempts : Int) :
    { row with status := status, attempts := attempts }.fresh = row.fresh := rfl

namespace Outbox

variable {t t' : Outbox} {row row' : Row}

/-- Every row stays, though its status and its attempts may change, and so do the constraints. -/
structure Grows (t t' : Outbox) : Prop where
  valid : t.Valid → t'.Valid
  rows : ∀ row ∈ t, ∃ row' ∈ t', row'.fresh = row.fresh

/-- An update keeps ids and keys. -/
theorem Valid.update (h : t.Valid) (id : String) (status : JobStatus) (att : Option Int) :
    (Outbox.update id status att t).Valid := by
  have hids : (Outbox.update id status att t).map Row.id = t.map Row.id := by
    rw [Outbox.update, List.map_map]
    refine List.map_congr_left fun r _ => ?_
    dsimp only [Function.comp_apply]
    split <;> rfl
  have hkeys : (Outbox.update id status att t).filterMap Row.idempotencyKey =
      t.filterMap Row.idempotencyKey := by
    rw [Outbox.update, List.filterMap_map]
    refine List.filterMap_congr fun r _ => ?_
    dsimp only [Function.comp_apply]
    split <;> rfl
  exact ⟨hids ▸ h.ids, hkeys ▸ h.keys⟩

/-- Statements keep the rows. -/
theorem respected_grows : Respected Grows where
  refl t := ⟨fun h => h, fun row hrow => ⟨row, hrow, rfl⟩⟩
  trans t₁ t₂ t₃ h h' := by
    refine ⟨fun hv => h'.valid (h.valid hv), fun row hrow => ?_⟩
    obtain ⟨row₂, hrow₂, heq⟩ := h.rows row hrow
    obtain ⟨row₃, hrow₃, heq'⟩ := h'.rows row₂ hrow₂
    exact ⟨row₃, hrow₃, heq'.trans heq⟩
  insert t t' row hi := by
    refine ⟨fun hv => hv.insert hi, fun r hr => ?_⟩
    obtain ⟨rfl, -⟩ := insert_ok hi
    exact ⟨r, List.mem_append_left _ hr, rfl⟩
  update t id status att := by
    refine ⟨fun hv => hv.update id status att, fun r hr => ⟨_, List.mem_map_of_mem hr, ?_⟩⟩
    split
    · exact Row.fresh_update r status (att.getD r.attempts)
    · rfl

/-- A row is determined by its id. -/
theorem Valid.eq_of_id (h : t.Valid) (hr : row ∈ t) (hr' : row' ∈ t) (hid : row.id = row'.id) :
    row = row' :=
  List.inj_on_of_nodup_map h.ids hr hr' hid

end Outbox

/-! ## The endpoint -/

section

variable [Codec] {w w' : World} {site : Nat} {a : Actor} {out : Except PyExc Response}

/-- The row of a job reads back as the job, its creation time being that of the query. -/
theorem Row.toJob_ofJob (job : Job) (now : DateTime) :
    (Row.ofJob job).toJob now = .ok { job with createdAt := now } := by
  simp [Row.toJob, Row.ofJob, bind, Except.bind]

/-- A connection outside any transaction shows the first committed row of the id. -/
theorem runs_getJobStatus {enq : Enqueuer} (hstore : enq.store = true) {jobId : String}
    (hidle : w.db.txs site = none)
    (h : relay.Runs Faultless site a w (getJobStatus ⟨some enq⟩ jobId) w' out) :
    match w.db.committed.find? fun row => row.id = jobId with
    | none => out = .ok (httpException 404 (.str ("job '" ++ jobId ++ "' not found")) [])
    | some row => ∀ job, row = .ofJob job →
        ∃ now, out = .ok (jobStatus { job with createdAt := now }) := by
  dsimp only [getJobStatus] at h
  rw [if_pos hstore] at h
  obtain ⟨w₁, found, hget, hrest⟩ := Machine.runs_bind_iff.mp h
  obtain ⟨w₂, res, hselect, hbuild⟩ := Machine.runs_bind_iff.mp hget
  obtain ⟨ans, hans, hx⟩ := Machine.runs_perform_iff.mp hselect
  obtain ⟨-, -, hres⟩ := World.exec_sql_faultless hx hans
  rw [Db.run, Sqlite.Database.read_of_none hidle] at hres
  obtain rfl : res = .ok (w.db.committed.find? fun row => row.id = jobId) := hres
  dsimp only at hbuild
  cases hfind : w.db.committed.find? fun row => row.id = jobId with
  | none =>
    rw [hfind] at hbuild
    obtain ⟨-, rfl⟩ := Machine.runs_ret_iff.mp hbuild
    exact (Machine.runs_ret_iff.mp hrest).2
  | some row =>
    rintro job rfl
    rw [hfind] at hbuild
    -- the clock is read, and the job built
    obtain ⟨w₃, r, hclock, hjob⟩ := Machine.runs_bind_iff.mp hbuild
    obtain ⟨ans', hans', hx'⟩ := Machine.runs_perform_iff.mp hclock
    obtain ⟨now, rfl⟩ : ∃ now, r = .ok now := by
      cases ans' with
      | wall now => exact ⟨now, (Prod.mk.inj (Option.some.inj hx')).2.symm⟩
      | ok _ | lost _ _ | fail _ | ran _ | drawn _ => cases hx'
    dsimp only at hjob
    rw [Row.toJob_ofJob] at hjob
    obtain ⟨-, rfl⟩ := Machine.runs_ret_iff.mp hjob
    exact ⟨now, (Machine.runs_ret_iff.mp hrest).2⟩

namespace Sys

variable {t : RedisStreamTransport} {s s' : Sys} {W : Nat → Prop}

/-- Every job is new when it is enqueued, as it is when the API builds it. -/
def AllNew (s : Sys) : Prop :=
  ∀ c ∈ s.pool.procs, c.info.args.job.status = .pending ∧ c.info.args.job.attempts = 0

/-- The row of a new job is fresh. -/
theorem AllNew.fresh (h : s.AllNew) {c : Proc RelaySig Nat EnqueueCall Nat} (hc : c ∈ s.pool.procs) :
    (Row.ofJob c.info.args.keyedJob).fresh = .ofJob c.info.args.keyedJob := by
  obtain ⟨hstatus, hattempts⟩ := h c hc
  unfold Row.fresh Row.ofJob EnqueueArgs.keyedJob
  split <;> simp [hstatus, hattempts]

/-- Calls that were made earlier are among those that are made. -/
theorem AllNew.of_run (h : Run t s s') (hnew : s'.AllNew) : s.AllNew := by
  have hinfos : s.pool.procs.map Proc.info <+: s'.pool.procs.map Proc.info :=
    Reaches.invariant (P := fun u : Sys => s.pool.procs.map Proc.info <+: u.pool.procs.map Proc.info)
      (fun _ _ _ hu _ hs => hu.trans (infos_of_step hs)) h (List.prefix_refl _)
  intro c hc
  obtain ⟨c', hc', hinfo⟩ := List.mem_map.mp (hinfos.subset (List.mem_map_of_mem hc))
  rw [← hinfo]
  exact hnew c' hc'

/-- **A committed job shows as pending for good.** Where workers and the API do not share a connection
and jobs are new when they are enqueued, every row that is committed stays as it is, whatever the
workers do. So `GET /jobs/{job_id}` over a connection outside any transaction shows a committed job as
it was enqueued, pending and without an attempt, and answers 404 for any other id. -/
theorem statusFrozen (h₀ : SplitRun t W init s) (h : SplitRun t W s s') (hnew : s'.AllNew) :
    (∀ row ∈ s.world.db.committed, row ∈ s'.world.db.committed) ∧
    ∀ (enq : Enqueuer), enq.store = true → ∀ (conn : Nat), s'.world.db.txs conn = none →
      ∀ (jobId : String) (a : Actor) (w' : World) (out : Except PyExc Response),
        relay.Runs Faultless conn a s'.world (getJobStatus ⟨some enq⟩ jobId) w' out →
        (∀ row ∈ s'.world.db.committed, row.id = jobId → ∃ c ∈ s'.pool.procs, ∃ now,
          row = .ofJob c.info.args.keyedJob ∧
            out = .ok (jobStatus { c.info.args.keyedJob with
              createdAt := now, status := .pending, attempts := 0 })) ∧
        ((∀ row ∈ s'.world.db.committed, row.id ≠ jobId) →
          out = .ok (httpException 404 (.str ("job '" ++ jobId ++ "' not found")) [])) := by
  have h₀' : SplitRun t W init s' := h₀.trans h
  have hgrows := h₀.run.committed Outbox.respected_grows h.run
  have hvalid : s'.world.db.committed.Valid :=
    (Run.committed Outbox.respected_grows .refl h₀'.run).valid ⟨List.nodup_nil, List.nodup_nil⟩
  have hrows := fun row hr => (h₀.unmarked.committed row hr).exists_proc
  have hrows' := fun row hr => (h₀'.unmarked.committed row hr).exists_proc
  refine ⟨fun row hrow => ?_, fun enq hstore conn hidle jobId a w' out hr => ?_⟩
  · -- the row is fresh on both sides
    obtain ⟨row', hrow', heq⟩ := hgrows.rows row hrow
    obtain ⟨c, hc, rfl⟩ := hrows row hrow
    obtain ⟨c', hc', rfl⟩ := hrows' row' hrow'
    rw [hnew.fresh hc', (AllNew.of_run h.run hnew).fresh hc] at heq
    rwa [← heq]
  · have hshown := runs_getJobStatus hstore hidle hr
    split at hshown
    · rename_i hfind
      have hnone : ∀ row ∈ s'.world.db.committed, row.id ≠ jobId := fun row hrow hid => by
        simpa [hid] using List.find?_eq_none.mp hfind row hrow
      exact ⟨fun row hrow hid => absurd hid (hnone row hrow), fun _ => hshown⟩
    · rename_i found hfind
      have hfound := List.mem_of_find?_eq_some hfind
      have hid : found.id = jobId := by simpa using List.find?_some hfind
      refine ⟨fun row hrow hid' => ?_, fun hnone => absurd hid (hnone found hfound)⟩
      obtain rfl := hvalid.eq_of_id hrow hfound (hid'.trans hid.symm)
      obtain ⟨c, hc, rfl⟩ := hrows' _ hrow
      obtain ⟨now, hout⟩ := hshown _ rfl
      refine ⟨c, hc, now, rfl, ?_⟩
      obtain ⟨hstatus, hattempts⟩ := hnew c hc
      rw [hout]
      unfold EnqueueArgs.keyedJob
      split <;> simp [hstatus, hattempts]

end Sys

end

/-- A job is enqueued; a worker beside the producer updates its status, and then it is asked for. -/
theorem Sys.statusFrozen_updated : ∃ (s : Sys) (w' : World) (now : DateTime),
    s.world.db.visible 1 = [{ Row.ofJob Sample.job with status := .processing }] ∧
      Row.ofJob Sample.job ∈ s.world.db.committed ∧ relay.Runs Faultless 0 (.api 0) s.world
        (getJobStatus ⟨some { transport := Sample.transport, store := true }⟩ Sample.job.id) w'
        (.ok (jobStatus { Sample.job with createdAt := now, status := .pending, attempts := 0 })) := by
  obtain ⟨s₀, s, hrun₀, hcommitted, hrun, hprocs, hidle, -, hupdated⟩ := Sample.exists_updated
  have hnew : s.AllNew := by
    intro c hc
    rw [hprocs, List.mem_singleton] at hc
    obtain rfl := hc
    exact ⟨rfl, rfl⟩
  obtain ⟨w', out, hget⟩ := World.responsive_faultless.exists_runs (0 : Nat) (Actor.api 0)
    (getJobStatus ⟨some { transport := Sample.transport, store := true }⟩ Sample.job.id) s.world
  obtain ⟨hkept, hshown⟩ := Sys.statusFrozen hrun₀ hrun hnew
  have hrow := hkept _ (hcommitted ▸ List.mem_singleton_self (Row.ofJob Sample.job))
  obtain ⟨c, hc, now, -, rfl⟩ := (hshown _ rfl 0 hidle _ _ _ _ hget).1 _ hrow rfl
  rw [hprocs, List.mem_singleton] at hc
  obtain rfl := hc
  exact ⟨s, w', now, hupdated, hrow, hget⟩

end RelayQ

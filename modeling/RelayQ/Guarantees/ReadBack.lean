import RelayQ.Infrastructure.SqliteStore
import Mathlib.Data.List.Induction

/-! # Reading the outbox back

A row written by `insert_outbox` and changed by any number of status updates reads back, through
both readers, as the job that was inserted with the latest status and attempts. One field does not
survive: both readers build the job with the time of the query in the place of the stored creation
time.

* `StatusUpdate`, `Row.updated`: a sequence of updates, and what it makes of a row.
* `SqliteStore.updateAll`: the updates as a program; `Outbox.updateAll_eq` ties the two.
* `ReadBack`, `readBack_iff`: when the outbox reads back. -/

namespace RelayQ

/-! ## Sequences of status updates -/

/-- The arguments of one call of `update_status`. -/
structure StatusUpdate where
  jobId : String
  status : JobStatus
  attempt : Option Int := none

namespace StatusUpdate

/-- The status of the latest update to an id. -/
def lastStatus (us : List StatusUpdate) (id : String) : Option JobStatus :=
  ((us.filter fun u => u.jobId = id).map status).getLast?

/-- The attempts of the latest update to an id that sets them. -/
def lastAttempt (us : List StatusUpdate) (id : String) : Option Int :=
  ((us.filter fun u => u.jobId = id).filterMap attempt).getLast?

end StatusUpdate

/-- A row after updates: the latest to its own id count, and no others. -/
def Row.updated (us : List StatusUpdate) (r : Row) : Row :=
  { r with
    status := (StatusUpdate.lastStatus us r.id).getD r.status
    attempts := (StatusUpdate.lastAttempt us r.id).getD r.attempts }

/-- A job with the status and the attempts of the latest updates to it. -/
def Job.updated (us : List StatusUpdate) (j : Job) : Job :=
  { j with
    status := (StatusUpdate.lastStatus us j.id).getD j.status
    attempts := (StatusUpdate.lastAttempt us j.id).getD j.attempts }

/-- An update keeps the id. -/
@[simp] theorem Row.updated_id (us : List StatusUpdate) (r : Row) : (r.updated us).id = r.id := rfl

/-- An update keeps the key. -/
@[simp] theorem Row.updated_idempotencyKey (us : List StatusUpdate) (r : Row) :
    (r.updated us).idempotencyKey = r.idempotencyKey := rfl

/-- No update changes nothing. -/
@[simp] theorem Row.updated_nil (r : Row) : r.updated [] = r := rfl

/-- One more update. -/
theorem Row.updated_append (us : List StatusUpdate) (u : StatusUpdate) (r : Row) :
    r.updated (us ++ [u]) =
      if r.id = u.jobId then { r.updated us with
        status := u.status, attempts := u.attempt.getD (r.updated us).attempts }
      else r.updated us := by
  by_cases hid : r.id = u.jobId
  · cases hat : u.attempt with
    | none => simp [updated, StatusUpdate.lastStatus, StatusUpdate.lastAttempt, hid, hat]
    | some n => simp [updated, StatusUpdate.lastStatus, StatusUpdate.lastAttempt, hid, hat]
  · have hne : u.jobId ≠ r.id := fun h => hid h.symm
    simp [updated, StatusUpdate.lastStatus, StatusUpdate.lastAttempt, hid, hne]

/-- Every update, one after the other. -/
def Outbox.updateAll (us : List StatusUpdate) (t : Outbox) : Outbox :=
  us.foldl (fun t u => Outbox.update u.jobId u.status u.attempt t) t

/-- **What a sequence of updates makes of a table**: each row as the updates to it make it. -/
theorem Outbox.updateAll_eq (us : List StatusUpdate) (t : Outbox) :
    Outbox.updateAll us t = t.map (Row.updated us) := by
  induction us using List.reverseRecOn with
  | nil => exact (List.map_id t).symm
  | append_singleton us u ih =>
    have hstep : updateAll (us ++ [u]) t =
        Outbox.update u.jobId u.status u.attempt (updateAll us t) := by
      simp [updateAll]
    rw [hstep, ih, Outbox.update, List.map_map]
    refine List.map_congr_left fun r _ => ?_
    rw [Row.updated_append]
    rfl

/-- The updates, called one after the other. -/
def SqliteStore.updateAll : List StatusUpdate → Py Unit
  | [] => .ret ()
  | u :: us => (updateStatus u.jobId u.status u.attempt).bind fun _ => updateAll us

section

variable {w w' : World} {site : Nat} {a : Actor} {P : Op → Answer → Prop} {t : Outbox}

/-- Updates that return have all been carried out. -/
theorem runs_updateAll {us : List StatusUpdate} (hw : w.db.CanWrite site t)
    (h : relay.Runs P site a w (SqliteStore.updateAll us) w' (.ok ())) :
    w'.db.CanWrite site (Outbox.updateAll us t) := by
  induction us generalizing w t with
  | nil =>
    obtain ⟨rfl, -⟩ := Machine.runs_ret_iff.mp h
    exact hw
  | cons u us ih =>
    obtain ⟨w₁, r, hr, hrest⟩ := Machine.runs_bind_iff.mp h
    obtain ⟨ans, -, hx⟩ := Machine.runs_perform_iff.mp hr
    cases r with
    | error e => cases hrest.2
    | ok v =>
      refine ih (t := Outbox.update u.jobId u.status u.attempt t) ?_ hrest
      obtain ⟨-, ⟨hdb, -⟩ | ⟨-, e, -, he⟩⟩ := World.exec_sql_db hx
      · rw [hdb]
        exact (hw.write (f := fun t => .ok (Outbox.update u.jobId u.status u.attempt t)) rfl).2
      · cases he

end

/-! ## Queries -/

/-- Nothing fails, and the store's clock reads `now`. -/
def QueryAt (now : DateTime) (o : Op) (ans : Answer) : Prop :=
  ans.faultless = true ∧ (o = .utcnow → ans = .wall now)

section

variable [Codec] {w w' : World} {site : Nat} {a : Actor} {t : Outbox} {now : DateTime}

/-- The job built from a row that reads as a job at any time. -/
theorem runs_jobOfRow_at {row : Row} {j : Job} (hj : row.toJob now = .ok j)
    {out : Except PyExc (Option Job)}
    (h : relay.Runs (QueryAt now) site a w (SqliteStore.jobOfRow (some row)) w' out) :
    out = .ok (some j) := by
  obtain ⟨w₁, r, hr, hrest⟩ := Machine.runs_bind_iff.mp h
  obtain ⟨ans, ⟨-, hans⟩, hx⟩ := Machine.runs_perform_iff.mp hr
  obtain rfl := hans rfl
  obtain rfl : r = .ok now := (Prod.mk.inj (Option.some.inj hx)).2.symm
  dsimp only at hrest
  rw [hj] at hrest
  exact (Machine.runs_ret_iff.mp hrest).2

/-- A query whose statement finds the row. -/
theorem runs_find {s : Stmt} {f : s.Res → Py (Option Job)} {v : s.Res} {row : Row} {j : Job}
    (hs : (w.db.run site s).2 = .ok v) (hf : f v = SqliteStore.jobOfRow (some row))
    (hj : row.toJob now = .ok j) {out : Except PyExc (Option Job)}
    (h : relay.Runs (QueryAt now) site a w ((perform (.sql s)).bind f) w' out) :
    out = .ok (some j) := by
  obtain ⟨w₁, r, hr, hrest⟩ := Machine.runs_bind_iff.mp h
  obtain ⟨ans, ⟨hans, -⟩, hx⟩ := Machine.runs_perform_iff.mp hr
  obtain ⟨-, -, hres⟩ := World.exec_sql_faultless hx hans
  obtain rfl : r = .ok v := by rw [hres, hs]; rfl
  dsimp only at hrest
  rw [hf] at hrest
  exact runs_jobOfRow_at hj hrest

/-- The row of a job reads back as the job, created at the time of the query. -/
theorem toJob_updated (us : List StatusUpdate) (job : Job) (now : DateTime) :
    ((Row.ofJob job).updated us).toJob now = .ok { job.updated us with createdAt := now } := by
  simp [Row.toJob, Row.updated, Row.ofJob, Job.updated, bind, Except.bind]

/-! ## The read-back -/

/-- **The outbox reads back**: after these updates, from `w` to `w'`, queries at clock reading `now`
return the job as it was inserted but for the status and the attempts of the latest updates, through
both readers; and every row has changed by the updates to its own id alone. -/
structure ReadBack (job : Job) (us : List StatusUpdate) (now : DateTime) (site : Nat)
    (w w' : World) : Prop where
  getJob : ∀ a w'' out, relay.Runs (QueryAt now) site a w' (SqliteStore.getJob job.id) w'' out →
    out = .ok (some (job.updated us))
  findByKey : ∀ key, job.idempotencyKey = some key → ∀ a w'' out,
    relay.Runs (QueryAt now) site a w' (SqliteStore.findByIdempotencyKey key) w'' out →
      out = .ok (some (job.updated us))
  rows : (w'.db.read site).2 = (w.db.read site).2.map (Row.updated us)

variable {w₁ w₂ : World} {P : Op → Answer → Prop} {job : Job} {us : List StatusUpdate}

/-- After the insert and the updates, the connection sees the job's row among those that were there
before and have other ids and keys, each as the updates to it make it. -/
theorem runs_insert_updates
    (hins : relay.Runs P site a w (SqliteStore.transaction (SqliteStore.insertOutbox job)) w₁ (.ok ()))
    (hupd : relay.Runs P site a w₁ (SqliteStore.updateAll us) w₂ (.ok ())) :
    ∃ t, (∀ r ∈ t, r.id ≠ job.id ∧ (job.idempotencyKey.isSome → r.idempotencyKey ≠ job.idempotencyKey)) ∧
      w₁.db.CanWrite site (t ++ [.ofJob job]) ∧
      w₂.db.CanWrite site ((t ++ [.ofJob job]).map (Row.updated us)) := by
  obtain ⟨-, ⟨-, htx, hl, t, hi, hdb⟩ | ⟨⟨e, he⟩, -⟩⟩ := SqliteStore.runs_insertTransaction hins
  swap
  · cases he
  have hw₁ : w₁.db.CanWrite site t := .inl (by rw [hdb]; exact ⟨hl, htx, rfl⟩)
  have hw₂ := runs_updateAll hw₁ hupd
  rw [Outbox.updateAll_eq] at hw₂
  unfold Outbox.insert at hi
  split at hi
  · cases hi
  rename_i hid
  split at hi
  · cases hi
  rename_i hkey
  obtain rfl := Except.ok.inj hi
  refine ⟨w.db.committed, fun r hr => ⟨fun h => ?_, fun hs h => ?_⟩, hw₁, hw₂⟩
  · exact hid (List.any_eq_true.mpr ⟨r, hr, decide_eq_true h⟩)
  · exact hkey ⟨hs, List.any_eq_true.mpr ⟨r, hr, decide_eq_true h⟩⟩

/-- **What the readers return**: the job with the latest status and attempts, created at the time of
the query. -/
theorem runs_queries
    (hins : relay.Runs P site a w (SqliteStore.transaction (SqliteStore.insertOutbox job)) w₁ (.ok ()))
    (hupd : relay.Runs P site a w₁ (SqliteStore.updateAll us) w₂ (.ok ())) {a' : Actor}
    {w₃ : World} {out : Except PyExc (Option Job)} :
    (relay.Runs (QueryAt now) site a' w₂ (SqliteStore.getJob job.id) w₃ out →
      out = .ok (some { job.updated us with createdAt := now })) ∧
    (∀ key, job.idempotencyKey = some key →
      relay.Runs (QueryAt now) site a' w₂ (SqliteStore.findByIdempotencyKey key) w₃ out →
      out = .ok (some { job.updated us with createdAt := now })) := by
  obtain ⟨t, ht, hw₁, hw₂⟩ := runs_insert_updates hins hupd
  have hfind : ∀ p : Row → Bool, (∀ r ∈ t, p (r.updated us) = false) →
      p ((Row.ofJob job).updated us) = true →
      ((t ++ [Row.ofJob job]).map (Row.updated us)).find? p = some ((Row.ofJob job).updated us) := by
    intro p hno hyes
    have hnone : (t.map (Row.updated us)).find? p = none := by
      refine List.find?_eq_none.mpr fun r hr => ?_
      obtain ⟨r₀, hr₀, rfl⟩ := List.mem_map.mp hr
      simp [hno r₀ hr₀]
    simp [List.find?_append, hnone, hyes]
  refine ⟨fun h => ?_, fun key hkey h => ?_⟩
  · refine runs_find (v := some ((Row.ofJob job).updated us)) ?_ rfl (toJob_updated us job now) h
    simp only [Db.run, hw₂.read, Except.ok.injEq]
    exact hfind _ (fun r hr => decide_eq_false (ht r hr).1) (by simp [Row.ofJob])
  · refine runs_find (v := some ((Row.ofJob job).updated us)) ?_ rfl (toJob_updated us job now) h
    simp only [Db.run, hw₂.read, Except.ok.injEq]
    refine hfind _ (fun r hr => ?_) (by simp [Row.ofJob, hkey])
    have hne := (ht r hr).2 (by simp [hkey])
    rw [hkey] at hne
    exact decide_eq_false hne

omit [Codec] in
/-- A query can be answered at any clock reading. -/
theorem responsive_queryAt (now : DateTime) : relay.Responsive (QueryAt now) := by
  intro w site a o
  by_cases ho : o = .utcnow
  · subst ho
    exact ⟨.wall now, w.record ⟨a, .utcnow, true, 0, .ok now⟩, .ok now, ⟨rfl, fun _ => rfl⟩, rfl⟩
  · obtain ⟨ans, w', r, hans, hx⟩ := World.responsive_faultless w site a o
    exact ⟨ans, w', r, ⟨hans, fun h => absurd h ho⟩, hx⟩

/-- At another clock reading than the job's creation time the outbox does not read back. -/
theorem ReadBack.createdAt_eq
    (hins : relay.Runs P site a w (SqliteStore.transaction (SqliteStore.insertOutbox job)) w₁ (.ok ()))
    (hupd : relay.Runs P site a w₁ (SqliteStore.updateAll us) w₂ (.ok ()))
    (h : ReadBack job us now site w₁ w₂) : now = job.createdAt := by
  obtain ⟨w₃, out, hget⟩ := (responsive_queryAt now).exists_runs site .foreign
    (SqliteStore.getJob job.id) w₂
  have hread := (runs_queries hins hupd).1 hget
  have hclaim := h.getJob .foreign w₃ out hget
  have heq := Option.some.inj (Except.ok.inj (hread.symm.trans hclaim))
  exact congrArg Job.createdAt heq

/-- **When the outbox reads back**: exactly if the store's clock, when it is queried, reads the very
time at which the job was created. -/
theorem readBack_iff
    (hins : relay.Runs P site a w (SqliteStore.transaction (SqliteStore.insertOutbox job)) w₁ (.ok ()))
    (hupd : relay.Runs P site a w₁ (SqliteStore.updateAll us) w₂ (.ok ())) :
    ReadBack job us now site w₁ w₂ ↔ now = job.createdAt := by
  refine ⟨fun h => h.createdAt_eq hins hupd, ?_⟩
  rintro rfl
  refine ⟨fun a' w₃ out h => ?_, fun key hkey a' w₃ out h => ?_, ?_⟩
  · exact (runs_queries hins hupd).1 h
  · exact (runs_queries hins hupd).2 key hkey h
  · obtain ⟨t, -, hw₁, hw₂⟩ := runs_insert_updates hins hupd
    rw [hw₁.read, hw₂.read]

end

/-- A job that was inserted into an empty outbox and then completed. -/
theorem Sample.exists_completed : ∃ w₁ w₂,
    relay.Runs (fun _ _ => True) (0 : Nat) Actor.foreign World.init
      (SqliteStore.transaction (SqliteStore.insertOutbox Sample.job)) w₁ (.ok ()) ∧
    relay.Runs (fun _ _ => True) (0 : Nat) Actor.foreign w₁
      (SqliteStore.updateAll [⟨"job_1", .completed, none⟩]) w₂ (.ok ()) := by
  refine ⟨?_, ?_, .of_run (fun _ _ _ => trivial) (?_ : relay.run _ _ _ _ [.ok 0, .ok 0, .ok 0] = _),
    .of_run (fun _ _ _ => trivial) (?_ : relay.run _ _ _ _ [.ok 0] = _)⟩
  rotate_left 2
  · rfl
  · rfl

/-- It reads back when the clock has stood still. -/
theorem readBack_completed : ∃ w₁ w₂,
    ReadBack Sample.job [⟨"job_1", .completed, none⟩] .epoch 0 w₁ w₂ := by
  obtain ⟨w₁, w₂, hins, hupd⟩ := Sample.exists_completed
  exact ⟨w₁, w₂, (readBack_iff hins hupd).mpr rfl⟩

/-- One second later it does not. -/
theorem not_readBack_later : ∃ w₁ w₂,
    relay.Runs (fun _ _ => True) (0 : Nat) Actor.foreign World.init
      (SqliteStore.transaction (SqliteStore.insertOutbox Sample.job)) w₁ (.ok ()) ∧
    relay.Runs (fun _ _ => True) (0 : Nat) Actor.foreign w₁
      (SqliteStore.updateAll [⟨"job_1", .completed, none⟩]) w₂ (.ok ()) ∧
    ¬ ReadBack Sample.job [⟨"job_1", .completed, none⟩]
      ⟨1970, 1, 1, 0, 0, 1, 0, some 0, by decide⟩ 0 w₁ w₂ := by
  obtain ⟨w₁, w₂, hins, hupd⟩ := Sample.exists_completed
  exact ⟨w₁, w₂, hins, hupd, fun h => absurd (h.createdAt_eq hins hupd) (by decide)⟩

end RelayQ

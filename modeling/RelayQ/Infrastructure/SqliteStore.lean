import RelayQ.Infrastructure.World

/-! # The SQLite outbox store

The functions of the store as programs. Each runs on the connection of the site it is called from.
Only `transaction` commits; a status update relies on whatever transaction its connection is in. -/

namespace RelayQ

/-- The row of a job. -/
def Row.ofJob [Codec] (job : Job) : Row where
  id := job.id
  kind := job.kind
  payload := Codec.dumps job.payload.toJVal
  status := job.status
  createdAt := Codec.isoformat job.createdAt
  attempts := job.attempts
  maxRetries := job.maxRetries
  idempotencyKey := job.idempotencyKey
  queue := job.queue

/-- The job built from a row; its creation time is the time of the query, not the stored one. -/
def Row.toJob [Codec] (row : Row) (now : DateTime) : Except PyExc Job := do
  let payload ← Codec.loads row.payload
  match payload.dict? with
  | some payload => .ok {
      id := row.id
      kind := row.kind
      payload := payload
      status := row.status
      createdAt := now
      attempts := row.attempts
      maxRetries := row.maxRetries
      idempotencyKey := row.idempotencyKey
      queue := row.queue }
  | none => .error (.other "TypeError" (some "payload is not a dict"))

namespace SqliteStore

variable [Codec]

/-- Insert a job into the outbox within an active transaction. -/
def insertOutbox (job : Job) : Py Unit :=
  perform (.sql (.insert (.ofJob job)))

/-- Update the row of a job, and its attempts if they are given. Nothing is committed. -/
def updateStatus (jobId : String) (status : JobStatus) (attempt : Option Int) : Py Unit :=
  perform (.sql (.update jobId status attempt))

/-- Build the job of a query result. -/
def jobOfRow : Option Row → Py (Option Job)
  | none => .ret none
  | some row => (perform .utcnow).bind fun now =>
    match row.toJob now with
    | .ok job => .ret (some job)
    | .error e => .raise e

/-- The job with the id, if there is one. -/
def getJob (jobId : String) : Py (Option Job) :=
  (perform (.sql (.selectById jobId))).bind jobOfRow

/-- The job with the key, if there is one. -/
def findByIdempotencyKey (key : String) : Py (Option Job) :=
  (perform (.sql (.selectByKey key))).bind jobOfRow

/-- `async with store.transaction(): body`. A failing `BEGIN` raises before the `try`. -/
def transaction {α : Type} (body : Py α) : Py α :=
  (perform (.sql .begin)).bind fun _ =>
    (body.bind fun a => (perform (.sql .commit)).bind fun _ => .ret a).tryExcept
      fun e =>
        if e.isException then (perform (.sql .rollback)).bind fun _ => .raise e
        else .raise e

/-! ## What the queries do to the database -/

variable {P : Op → Answer → Prop} {w w' : World} {site : Nat} {a : Actor} {job : Job}

/-- Building the found job leaves both servers alone. -/
theorem runs_jobOfRow {row : Option Row} {out : Except PyExc (Option Job)}
    (h : relay.Runs P site a w (jobOfRow row) w' out) : w'.db = w.db ∧ w'.redis = w.redis := by
  cases row with
  | none =>
    obtain ⟨rfl, -⟩ := Machine.runs_ret_iff.mp h
    exact ⟨rfl, rfl⟩
  | some row =>
    obtain ⟨w₁, r, hr, hrest⟩ := Machine.runs_bind_iff.mp h
    obtain ⟨ans, -, hx⟩ := Machine.runs_perform_iff.mp hr
    obtain ⟨applied, rfl⟩ := World.exec_local rfl hx
    cases r with
    | error e =>
      rw [hrest.1]
      exact ⟨rfl, rfl⟩
    | ok now =>
      dsimp only at hrest
      split at hrest
      · rw [(Machine.runs_ret_iff.mp hrest).1]
        exact ⟨rfl, rfl⟩
      · rw [(Machine.runs_raise_iff.mp hrest).1]
        exact ⟨rfl, rfl⟩

/-- A lookup outside any transaction leaves both servers alone. -/
theorem runs_findByIdempotencyKey {key : String} {out : Except PyExc (Option Job)}
    (htx : w.db.txs site = none)
    (h : relay.Runs P site a w (findByIdempotencyKey key) w' out) :
    w'.db = w.db ∧ w'.redis = w.redis := by
  obtain ⟨w₁, r, hr, hrest⟩ := Machine.runs_bind_iff.mp h
  obtain ⟨ans, -, hx⟩ := Machine.runs_perform_iff.mp hr
  have hread : (w.db.run site (.selectByKey key)).1 = w.db := by
    rw [Db.run, Sqlite.Database.read_of_none htx]
  have h₁ : w₁.db = w.db ∧ w₁.redis = w.redis := by
    obtain ⟨hredis, ⟨hdb, -⟩ | ⟨hdb, -⟩⟩ := World.exec_sql_db hx
    · exact ⟨hdb.trans hread, hredis⟩
    · exact ⟨hdb, hredis⟩
  cases r with
  | error e =>
    rw [hrest.1]
    exact h₁
  | ok row =>
    obtain ⟨hdb, hredis⟩ := runs_jobOfRow hrest
    exact ⟨hdb.trans h₁.1, hredis.trans h₁.2⟩

/-! ## What a transaction does to the database -/

omit [Codec] in
/-- The end of a transaction that raised: a rollback that is answered restores the database. -/
theorem runs_rollback {db : Db} {t : Outbox} {e : PyExc} {out : Except PyExc Unit}
    (hl : db.lock = none) (htx : db.txs site = none) (hw : w.db = db.begun site t)
    (h : relay.Runs P site a w ((perform (.sql .rollback)).bind fun _ => .raise e) w' out) :
    w'.redis = w.redis ∧ (∃ e', out = .error e') ∧
      ((∀ ans, P (.sql .rollback) ans → ans.faultless = true) → w'.db = db) := by
  obtain ⟨w₁, r, hr, hraise⟩ := Machine.runs_bind_iff.mp h
  obtain ⟨ans, hans, hx⟩ := Machine.runs_perform_iff.mp hr
  have hend : w' = w₁ ∧ ∃ e', out = .error e' := by
    cases r with
    | ok u =>
      obtain ⟨rfl, rfl⟩ := Machine.runs_raise_iff.mp hraise
      exact ⟨rfl, _, rfl⟩
    | error e' => exact ⟨hraise.1, _, hraise.2⟩
  obtain ⟨rfl, hout⟩ := hend
  refine ⟨(World.exec_sql_db hx).1, hout, fun hP => ?_⟩
  rw [(World.exec_sql_faultless hx (hP ans hans)).1, hw]
  exact Sqlite.Database.rollback_begun hl htx

/-- **An outbox insert in a transaction of its own** ends with its row committed, or with the
database as it was, unless even the rollback fails. -/
theorem runs_insertTransaction {out : Except PyExc Unit}
    (h : relay.Runs P site a w (transaction (insertOutbox job)) w' out) :
    w'.redis = w.redis ∧
    ((out = .ok () ∧ w.db.txs site = none ∧ w.db.lock = none ∧
      ∃ t, Outbox.insert (.ofJob job) w.db.committed = .ok t ∧
        w'.db = { w.db with committed := t, version := w.db.version + 1 }) ∨
    ((∃ e, out = .error e) ∧ ((∀ ans, P (.sql .rollback) ans → ans.faultless = true) →
      w'.db = w.db))) := by
  obtain ⟨w₁, r₁, hb, htry⟩ := Machine.runs_bind_iff.mp h
  obtain ⟨ans, -, hx⟩ := Machine.runs_perform_iff.mp hb
  obtain ⟨hredis, ⟨hdb, hr⟩ | ⟨hdb, e, -, rfl⟩⟩ := World.exec_sql_db hx
  swap
  · -- `BEGIN` was not carried out
    obtain ⟨rfl, rfl⟩ := htry
    exact ⟨hredis, .inr ⟨⟨e, rfl⟩, fun _ => hdb⟩⟩
  cases hbeg : w.db.beginImmediate (E := Violation) site with | mk db₁ res =>
  simp only [Db.run, hbeg] at hdb hr
  cases res with
  | error e =>
    obtain rfl : r₁ = .error (.sqliteError e) := hr
    obtain ⟨rfl, rfl⟩ := htry
    exact ⟨hredis, .inr ⟨⟨_, rfl⟩, fun _ =>
      hdb.trans (Sqlite.Database.beginImmediate_of_error hbeg)⟩⟩
  | ok u =>
    obtain rfl : r₁ = .ok () := hr
    obtain ⟨htx, hl, rfl⟩ := Sqlite.Database.beginImmediate_eq_ok.mp hbeg
    obtain ⟨w₂, r₂, hbody, hend⟩ := Machine.runs_tryExcept_iff.mp htry
    obtain ⟨w₃, r₃, hins, hcommit⟩ := Machine.runs_bind_iff.mp hbody
    obtain ⟨ans₃, -, hx₃⟩ := Machine.runs_perform_iff.mp hins
    -- what raises inside the block leaves it open, to be rolled back
    have hback : ∀ {t : Outbox} {e : PyExc}, w₂.redis = w.redis → w₂.db = w.db.begun site t →
        r₂ = .error e → e.isException = true →
        w'.redis = w.redis ∧ (∃ e, out = .error e) ∧
          ((∀ ans, P (.sql .rollback) ans → ans.faultless = true) → w'.db = w.db) := by
      rintro t e hred hopen rfl he
      simp only [he, if_true] at hend
      obtain ⟨hred', hout, hdb'⟩ := runs_rollback hl htx hopen hend
      exact ⟨hred'.trans hred, hout, hdb'⟩
    obtain ⟨hred₃, ⟨hdb₃, hr₃⟩ | ⟨hdb₃, e, he, rfl⟩⟩ := World.exec_sql_db hx₃
    swap
    · -- `INSERT` was not carried out
      obtain ⟨rfl, rfl⟩ := hcommit
      exact (hback (hred₃.trans hredis) (hdb₃.trans hdb) rfl 
        (PyExc.isException_of_fromSqlCall he)).imp_right .inr
    rw [hdb] at hdb₃ hr₃
    simp only [Db.run, Sqlite.Database.write_begun] at hdb₃ hr₃
    cases hi : Outbox.insert (.ofJob job) w.db.committed with
    | error v =>
      simp only [hi] at hdb₃ hr₃
      obtain rfl : r₃ = .error (.sqliteError (.constraint v)) := hr₃
      obtain ⟨rfl, rfl⟩ := hcommit
      exact (hback (hred₃.trans hredis) hdb₃ rfl rfl).imp_right .inr
    | ok t =>
      simp only [hi] at hdb₃ hr₃
      obtain rfl : r₃ = .ok () := hr₃
      obtain ⟨w₄, r₄, hcm, hret⟩ := Machine.runs_bind_iff.mp hcommit
      obtain ⟨ans₄, -, hx₄⟩ := Machine.runs_perform_iff.mp hcm
      obtain ⟨hred₄, ⟨hdb₄, rfl⟩ | ⟨hdb₄, e, he, rfl⟩⟩ := World.exec_sql_db hx₄
      · obtain ⟨rfl, rfl⟩ := Machine.runs_ret_iff.mp hret
        obtain ⟨rfl, rfl⟩ := hend
        refine ⟨hred₄.trans (hred₃.trans hredis), .inl ⟨rfl, htx, hl, t, rfl, ?_⟩⟩
        rw [hdb₄, hdb₃]
        exact Sqlite.Database.commit_begun hl htx
      · obtain ⟨rfl, rfl⟩ := hret
        exact (hback (hred₄.trans (hred₃.trans hredis)) (hdb₄.trans hdb₃) rfl
          (PyExc.isException_of_fromSqlCall he)).imp_right .inr

end SqliteStore

end RelayQ

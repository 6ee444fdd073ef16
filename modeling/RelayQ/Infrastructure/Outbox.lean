import RelayQ.Domain.Job

/-! # The outbox table

The table `jobs` of the store, the statements that are run on it and the database behind its
connections.

* `Outbox.insert`, `Outbox.update`: the statements that change the table.
* `Outbox.Valid`: the constraints of the table, which every insert keeps.
* `Db.run`: any statement, on a connection. -/

namespace RelayQ

/-- A row of the table `jobs`. -/
structure Row where
  id : String
  kind : String
  /-- JSON text. -/
  payload : String
  status : JobStatus
  /-- ISO text. -/
  createdAt : String
  attempts : Int
  maxRetries : Int
  idempotencyKey : Option String
  queue : String

/-- The table `jobs`. -/
abbrev Outbox : Type := List Row

namespace Outbox

/-- `INSERT INTO jobs`: the id is the primary key, and `idx_jobs_idempotency` is unique where the
key is not null. -/
def insert (row : Row) (t : Outbox) : Except Violation Outbox :=
  if t.any fun r => r.id = row.id then .error .primaryKey
  else if row.idempotencyKey.isSome ∧ (t.any fun r => r.idempotencyKey = row.idempotencyKey) then
    .error .idempotencyKey
  else .ok (t ++ [row])

/-- `UPDATE jobs SET status = ?[, attempts = ?] WHERE id = ?` -/
def update (id : String) (status : JobStatus) (attempt : Option Int) (t : Outbox) : Outbox :=
  t.map fun r =>
    if r.id = id then { r with status := status, attempts := attempt.getD r.attempts } else r

end Outbox

/-! ## The constraints of the table -/

namespace Outbox

/-- No two rows share an id or a key. -/
structure Valid (t : Outbox) : Prop where
  ids : (t.map Row.id).Nodup
  keys : (t.filterMap Row.idempotencyKey).Nodup

variable {t t' : Outbox} {row r r' : Row}

/-- An insert that succeeds appends a row whose id and key are new. -/
theorem insert_ok (h : insert row t = .ok t') :
    t' = t ++ [row] ∧ row.id ∉ t.map Row.id ∧
      ∀ key, row.idempotencyKey = some key → key ∉ t.filterMap Row.idempotencyKey := by
  unfold insert at h
  split at h
  · cases h
  · rename_i hid
    split at h
    · cases h
    · rename_i hkey
      refine ⟨(Except.ok.inj h).symm, by simpa using hid, fun key hk hmem => hkey ?_⟩
      obtain ⟨r, hr, hrk⟩ := List.mem_filterMap.mp hmem
      exact ⟨by simp [hk], List.any_eq_true.mpr ⟨r, hr, by simp [hk, hrk]⟩⟩

/-- An insert keeps the constraints. -/
theorem Valid.insert (h : t.Valid) (hi : insert row t = .ok t') : t'.Valid := by
  obtain ⟨rfl, hid, hkey⟩ := insert_ok hi
  refine ⟨?_, ?_⟩
  · rw [List.map_append]
    refine List.nodup_append.mpr ⟨h.ids, List.nodup_singleton _, ?_⟩
    rintro a ha b hb rfl
    exact hid (List.mem_singleton.mp hb ▸ ha)
  · rw [List.filterMap_append]
    cases hk : row.idempotencyKey with
    | none => simpa [hk] using h.keys
    | some key =>
      have hnew := hkey key hk
      simp only [List.filterMap_cons, hk, List.filterMap_nil]
      refine List.nodup_append.mpr ⟨h.keys, List.nodup_singleton _, ?_⟩
      rintro a ha b hb rfl
      exact hnew (List.mem_singleton.mp hb ▸ ha)

/-- A row is determined by its key, if it has one. -/
theorem Valid.eq_of_key (h : t.Valid) (hr : r ∈ t) (hr' : r' ∈ t) {key : String}
    (hk : r.idempotencyKey = some key) (hk' : r'.idempotencyKey = some key) : r = r' := by
  induction t with
  | nil => cases hr
  | cons x xs ih =>
    have hkeys := h.keys
    rw [List.filterMap_cons] at hkeys
    have hxs : Outbox.Valid xs := by
      refine ⟨(List.nodup_cons.mp h.ids).2, ?_⟩
      split at hkeys
      · exact hkeys
      · exact (List.nodup_cons.mp hkeys).2
    have hnot : ∀ z ∈ xs, z.idempotencyKey = some key → x.idempotencyKey ≠ some key := by
      intro z hz hzk hxk
      rw [hxk] at hkeys
      exact (List.nodup_cons.mp hkeys).1 (List.mem_filterMap.mpr ⟨z, hz, hzk⟩)
    rcases List.mem_cons.mp hr with hx | hr
    · rcases List.mem_cons.mp hr' with hx' | hr'
      · exact hx.trans hx'.symm
      · exact absurd (hx ▸ hk) (hnot r' hr' hk')
    · rcases List.mem_cons.mp hr' with hx' | hr'
      · exact absurd (hx' ▸ hk') (hnot r hr hk)
      · exact ih hxs hr hr'

end Outbox

/-! ## Statements -/

/-- The SQL statements the store runs. -/
inductive Stmt
  /-- `BEGIN IMMEDIATE` -/
  | begin
  /-- `INSERT INTO jobs` -/
  | insert (row : Row)
  /-- `UPDATE jobs` -/
  | update (id : String) (status : JobStatus) (attempt : Option Int)
  /-- `SELECT * FROM jobs WHERE id = ?` -/
  | selectById (id : String)
  /-- `SELECT * FROM jobs WHERE idempotency_key = ?` -/
  | selectByKey (key : String)
  /-- `conn.commit()` -/
  | commit
  /-- `conn.rollback()` -/
  | rollback

/-- What a statement returns. -/
abbrev Stmt.Res : Stmt → Type
  | selectById _ => Option Row
  | selectByKey _ => Option Row
  | _ => Unit

/-- The outbox database behind its connections. -/
abbrev Db : Type := Sqlite.Database Outbox Nat

/-- Run a statement on a connection. -/
def Db.run (db : Db) (conn : Nat) :
    (s : Stmt) → Db × Except (Sqlite.SqlError Violation) s.Res
  | .begin => db.beginImmediate conn
  | .insert row => db.write conn (Outbox.insert row)
  | .update id status attempt => db.write conn fun t => .ok (Outbox.update id status attempt t)
  | .selectById id =>
    let r := db.read conn
    (r.1, .ok (r.2.find? fun row => row.id = id))
  | .selectByKey key =>
    let r := db.read conn
    (r.1, .ok (r.2.find? fun row => row.idempotencyKey = some key))
  | .commit => (db.commit conn, .ok ())
  | .rollback => (db.rollback conn, .ok ())

end RelayQ

import RelayQ.Infrastructure.SqliteStore

/-! # Store operations and the transactions they leave open

The operations of the store, run one after another on any number of connections, compared with a
plain table that each operation changes at once. `transaction` ends what it begins, but a status
update opens a transaction and nothing in the store ever closes it.

* `StoreOp`, `StoreOp.code`: the operations.
* `StoreOp.after`, `tableAfter`: the plain table.
* `Settled`: no transaction is open, every connection sees the plain table, a transaction can begin.
* `settled_iff`: exactly the sequences without a status update (and without a block that a
  cancellation leaves) keep the store settled. -/

namespace RelayQ

/-- `INSERT` of several rows in order. -/
def Outbox.insertAll (rows : List Row) (t : Outbox) : Except Violation Outbox :=
  rows.foldlM (fun t row => Outbox.insert row t) t

/-- An operation of the store. -/
inductive StoreOp
  /-- `update_status` -/
  | updateStatus (jobId : String) (status : JobStatus) (attempt : Option Int)
  /-- `get_job` -/
  | getJob (jobId : String)
  /-- `find_by_idempotency_key` -/
  | findByIdempotencyKey (key : String)
  /-- A `transaction()` block that inserts these jobs and then raises, if it does. -/
  | block (jobs : List Job) (raised : Option PyExc)

/-- An operation on the connection of a thread. -/
structure StoreCall where
  conn : Nat
  op : StoreOp

section

variable [Codec]

/-- `insert_outbox` of several jobs in order. -/
def SqliteStore.insertAll : List Job → Py Unit
  | [] => .ret ()
  | j :: js => (SqliteStore.insertOutbox j).bind fun _ => insertAll js

/-- The body of a block. -/
def SqliteStore.blockBody (jobs : List Job) (raised : Option PyExc) : Py Unit :=
  (SqliteStore.insertAll jobs).bind fun _ =>
    match raised with
    | none => .ret ()
    | some e => .raise e

namespace StoreOp

/-- The operation, with the job it finds. -/
def code : StoreOp → Py (Option Job)
  | updateStatus id status attempt =>
    (SqliteStore.updateStatus id status attempt).bind fun _ => .ret none
  | getJob id => SqliteStore.getJob id
  | findByIdempotencyKey key => SqliteStore.findByIdempotencyKey key
  | block jobs raised =>
    (SqliteStore.transaction (SqliteStore.blockBody jobs raised)).bind fun _ => .ret none

/-- What an operation on a plain table makes of it: a block that raises leaves it alone. -/
def after (t : Outbox) : StoreOp → Outbox
  | updateStatus id status attempt => Outbox.update id status attempt t
  | getJob _ => t
  | findByIdempotencyKey _ => t
  | block jobs none => ((Outbox.insertAll (jobs.map .ofJob) t).toOption).getD t
  | block _ (some _) => t

/-- The operation is not a status update, nor a block that a cancellation leaves after its
inserts. -/
def Settles (t : Outbox) : StoreOp → Prop
  | updateStatus _ _ _ => False
  | getJob _ => True
  | findByIdempotencyKey _ => True
  | block _ none => True
  | block jobs (some e) =>
    e.isException = true ∨ (Outbox.insertAll (jobs.map .ofJob) t).toOption = none

end StoreOp

/-- The plain table after a sequence of operations. -/
def tableAfter (cs : List StoreCall) : Outbox := cs.foldl (fun t c => c.op.after t) []

/-- The operations of a list run one after another, each to its end, on an empty database whose
engine does not fail by itself. -/
inductive Session : List StoreCall → World → Prop
  | nil : Session [] .init
  | snoc {cs : List StoreCall} {c : StoreCall} {w w' : World} {a : Actor}
      {out : Except PyExc (Option Job)} : Session cs w →
      relay.Runs Faultless c.conn a w c.op.code w' out →
      Session (cs ++ [c]) w'

/-- Between operations: no connection has an open transaction, every one sees the effects of all
operations so far, and every one can begin a transaction. -/
structure Settled (cs : List StoreCall) (db : Db) : Prop where
  closed : ∀ conn, db.txs conn = none
  visible : ∀ conn, db.visible conn = tableAfter cs
  begins : ∀ conn, (db.beginImmediate (E := Violation) conn).2 = .ok ()

variable {w w' : World} {conn : Nat} {a : Actor} {t : Outbox}

/-- An idle database that holds the plain table is settled. -/
theorem Settled.of_idle {cs : List StoreCall} {db : Db} (h : db.Idle)
    (ht : db.committed = tableAfter cs) : Settled cs db where
  closed := h.2
  visible c := (h.visible c).trans ht
  begins c := by
    obtain ⟨db', hb, -⟩ := h.begin (E := Violation) c
    rw [hb]

omit [Codec] in
/-- A query on an idle database leaves it alone. -/
theorem runs_select {s : Stmt} {f : s.Res → Py (Option Job)} {out : Except PyExc (Option Job)}
    (hs : (w.db.run conn s).1 = w.db)
    (hf : ∀ {v w₁ w₂ out}, relay.Runs Faultless conn a w₁ (f v) w₂ out →
      w₂.db = w₁.db)
    (h : relay.Runs Faultless conn a w
      ((perform (.sql s)).bind f) w' out) : w'.db = w.db := by
  obtain ⟨w₁, r, hr, hrest⟩ := Machine.runs_bind_iff.mp h
  obtain ⟨ans, hans, hx⟩ := Machine.runs_perform_iff.mp hr
  obtain ⟨hdb, -, -⟩ := World.exec_sql_faultless hx hans
  cases r with
  | error e => rw [hrest.1, hdb, hs]
  | ok v => rw [hf hrest, hdb, hs]

/-- Inserts in a write transaction change what it sees as inserts into a plain table would, or fail
where those do; nobody else notices. -/
theorem runs_insertAll {jobs : List Job} {out : Except PyExc Unit} (hw : w.db.Writing conn t)
    (h : relay.Runs Faultless conn a w (SqliteStore.insertAll jobs) w' out) :
    w'.db.committed = w.db.committed ∧ (∀ c, c ≠ conn → w'.db.txs c = w.db.txs c) ∧
      ((∃ t', Outbox.insertAll (jobs.map .ofJob) t = .ok t' ∧ w'.db.Writing conn t' ∧
          out = .ok ()) ∨
        ∃ v t', Outbox.insertAll (jobs.map .ofJob) t = .error v ∧ w'.db.Writing conn t' ∧
          out = .error (.sqliteError (.constraint v))) := by
  induction jobs generalizing w t with
  | nil =>
    obtain ⟨rfl, rfl⟩ := Machine.runs_ret_iff.mp h
    exact ⟨rfl, fun _ _ => rfl, .inl ⟨t, rfl, hw, rfl⟩⟩
  | cons j js ih =>
    obtain ⟨w₁, r, hr, hrest⟩ := Machine.runs_bind_iff.mp h
    obtain ⟨ans, hans, hx⟩ := Machine.runs_perform_iff.mp hr
    obtain ⟨hdb, -, hres⟩ := World.exec_sql_faultless hx hans
    obtain ⟨db', hc, htxs, hcase⟩ := hw.write (Outbox.insert (.ofJob j))
    rcases hcase with ⟨t₁, hins, hw₁, hb⟩ | ⟨v, hins, hw₁, hb⟩
    · have hdb' : w₁.db = db' := by rw [hdb, Db.run, hb]
      obtain rfl : r = .ok () := by rw [hres, Db.run, hb]; rfl
      obtain ⟨hc', htxs', hcase'⟩ := ih (hdb' ▸ hw₁) hrest
      refine ⟨by rw [hc', hdb', hc], fun c hcc => by rw [htxs' c hcc, hdb', htxs c hcc], ?_⟩
      simpa [Outbox.insertAll, List.foldlM_cons, hins, bind, Except.bind] using hcase'
    · have hdb' : w₁.db = db' := by rw [hdb, Db.run, hb]
      obtain rfl : r = .error (.sqliteError (.constraint v)) := by rw [hres, Db.run, hb]; rfl
      obtain ⟨rfl, rfl⟩ := hrest
      refine ⟨by rw [hdb', hc], fun c hcc => by rw [hdb', htxs c hcc], .inr ⟨v, t, ?_, hdb' ▸ hw₁,
        rfl⟩⟩
      simp [Outbox.insertAll, List.foldlM_cons, hins, bind, Except.bind]

/-- The body of a block in a write transaction. -/
theorem runs_blockBody {jobs : List Job} {raised : Option PyExc} {out : Except PyExc Unit}
    (hw : w.db.Writing conn t)
    (h : relay.Runs Faultless conn a w (SqliteStore.blockBody jobs raised) w' out) :
    w'.db.committed = w.db.committed ∧ (∀ c, c ≠ conn → w'.db.txs c = w.db.txs c) ∧
      ∃ t', w'.db.Writing conn t' ∧
        (out = .ok () ∧ StoreOp.after t (.block jobs raised) = t' ∧
            StoreOp.Settles t (.block jobs raised) ∨
          ∃ e, out = .error e ∧ StoreOp.after t (.block jobs raised) = t ∧
            (StoreOp.Settles t (.block jobs raised) ↔ e.isException = true)) := by
  obtain ⟨w₁, r, hr, hrest⟩ := Machine.runs_bind_iff.mp h
  obtain ⟨hc, htxs, ⟨t', hins, hw', rfl⟩ | ⟨v, t', hins, hw', rfl⟩⟩ := runs_insertAll hw hr
  · cases raised with
    | none =>
      obtain ⟨rfl, rfl⟩ := Machine.runs_ret_iff.mp hrest
      exact ⟨hc, htxs, t', hw', .inl ⟨rfl, by simp [StoreOp.after, hins, Except.toOption],
        trivial⟩⟩
    | some e =>
      obtain ⟨rfl, rfl⟩ := Machine.runs_raise_iff.mp hrest
      exact ⟨hc, htxs, t', hw', .inr ⟨e, rfl, rfl, by
        simp [StoreOp.Settles, hins, Except.toOption]⟩⟩
  · obtain ⟨rfl, rfl⟩ := hrest
    refine ⟨hc, htxs, t', hw', .inr ⟨_, rfl, ?_, ?_⟩⟩
    · cases raised <;> simp [StoreOp.after, hins, Except.toOption]
    · cases raised <;> simp [StoreOp.Settles, hins, Except.toOption, PyExc.isException]

/-- A block on an idle database ends its transaction, unless a cancellation leaves it. -/
theorem runs_block {jobs : List Job} {raised : Option PyExc} {out : Except PyExc (Option Job)}
    (hidle : w.db.Idle)
    (h : relay.Runs Faultless conn a w (StoreOp.code (.block jobs raised)) w' out) :
    (StoreOp.Settles w.db.committed (.block jobs raised) → w'.db.Idle ∧
      w'.db.committed = StoreOp.after w.db.committed (.block jobs raised)) ∧
    (¬ StoreOp.Settles w.db.committed (.block jobs raised) → w'.db.txs conn ≠ none) := by
  obtain ⟨w₃, r₃, htx, hrest⟩ := Machine.runs_bind_iff.mp h
  obtain rfl : w' = w₃ := by
    cases r₃ with
    | ok v => exact (Machine.runs_ret_iff.mp hrest).1
    | error e => exact hrest.1
  -- BEGIN IMMEDIATE
  obtain ⟨w₁, r₁, hb, htry⟩ := Machine.runs_bind_iff.mp htx
  obtain ⟨ans, hans, hx⟩ := Machine.runs_perform_iff.mp hb
  obtain ⟨hdb, -, hres⟩ := World.exec_sql_faultless hx hans
  obtain ⟨db', hbegin, hw₁, hc₁, htxs₁⟩ := hidle.begin (E := Violation) conn
  obtain rfl : w₁.db = db' := by rw [hdb, Db.run, hbegin]
  obtain rfl : r₁ = .ok () := by rw [hres, Db.run, hbegin]; rfl
  -- the body, then COMMIT or ROLLBACK
  obtain ⟨w₂, r₂, hbody, hend⟩ := Machine.runs_tryExcept_iff.mp htry
  obtain ⟨w₄, r₄, hbody, hcommit⟩ := Machine.runs_bind_iff.mp hbody
  obtain ⟨hc, htxs, t', hw₄, ⟨rfl, hafter, hs⟩ | ⟨e, rfl, hafter, hs⟩⟩ := runs_blockBody hw₁ hbody
  · obtain ⟨w₅, r₅, hcm, hret⟩ := Machine.runs_bind_iff.mp hcommit
    obtain ⟨ans', hans', hx'⟩ := Machine.runs_perform_iff.mp hcm
    obtain ⟨hdb', -, rfl⟩ := World.exec_sql_faultless hx' hans'
    obtain ⟨rfl, rfl⟩ := Machine.runs_ret_iff.mp hret
    obtain ⟨rfl, -⟩ := hend
    obtain ⟨hi, ht⟩ := hw₄.commit_idle fun c hcc => by rw [htxs c hcc, htxs₁ c hcc]
    rw [hdb']
    exact ⟨fun _ => ⟨hi, by rw [hafter]; exact ht⟩, fun hns => absurd hs hns⟩
  · obtain ⟨rfl, rfl⟩ := hcommit
    dsimp only at hend
    split at hend
    · rename_i he
      obtain ⟨w₅, r₅, hrb, hraise⟩ := Machine.runs_bind_iff.mp hend
      obtain ⟨ans', hans', hx'⟩ := Machine.runs_perform_iff.mp hrb
      obtain ⟨hdb', -, rfl⟩ := World.exec_sql_faultless hx' hans'
      obtain ⟨rfl, -⟩ := Machine.runs_raise_iff.mp hraise
      obtain ⟨hi, ht⟩ := hw₄.rollback_idle fun c hcc => by rw [htxs c hcc, htxs₁ c hcc]
      rw [hdb']
      exact ⟨fun _ => ⟨hi, by rw [hafter]; exact ht.trans (hc.trans hc₁)⟩,
        fun hns => absurd (hs.mpr he) hns⟩
    · rename_i he
      obtain ⟨rfl, -⟩ := Machine.runs_raise_iff.mp hend
      obtain ⟨-, v, hv⟩ := hw₄
      exact ⟨fun hs' => absurd (hs.mp hs') he, fun _ => by simp [hv]⟩

/-- **What one operation does** to an idle database: a settling one leaves it idle with the table
the plain operation makes, any other leaves its connection in a transaction. -/
theorem runs_storeOp {op : StoreOp} {out : Except PyExc (Option Job)} (hidle : w.db.Idle)
    (h : relay.Runs Faultless conn a w op.code w' out) :
    (op.Settles w.db.committed → w'.db.Idle ∧ w'.db.committed = op.after w.db.committed) ∧
      (¬ op.Settles w.db.committed → w'.db.txs conn ≠ none) := by
  have hread : (w.db.read conn).1 = w.db := Sqlite.Database.read_fst (by simp [hidle.2 conn])
  cases op with
  | updateStatus id status attempt =>
    refine ⟨fun hs => hs.elim, fun _ => ?_⟩
    obtain ⟨w₁, r, hr, hrest⟩ := Machine.runs_bind_iff.mp h
    obtain ⟨ans, hans, hx⟩ := Machine.runs_perform_iff.mp hr
    obtain ⟨hdb, -, -⟩ := World.exec_sql_faultless hx hans
    obtain rfl : w' = w₁ := by
      cases r with
      | ok v => exact (Machine.runs_ret_iff.mp hrest).1
      | error e => exact hrest.1
    rw [hdb]
    exact Sqlite.Database.write_txs_ne_none w.db conn _
  | getJob id =>
    have hdb := runs_select (s := .selectById id) hread (fun h => (SqliteStore.runs_jobOfRow h).1) h
    exact ⟨fun _ => by rw [hdb]; exact ⟨hidle, rfl⟩, fun hns => absurd trivial hns⟩
  | findByIdempotencyKey key =>
    have hdb := runs_select (s := .selectByKey key) hread (fun h => (SqliteStore.runs_jobOfRow h).1) h
    exact ⟨fun _ => by rw [hdb]; exact ⟨hidle, rfl⟩, fun hns => absurd trivial hns⟩
  | block jobs raised => exact runs_block hidle h

/-! ## Sequences -/

/-- The last call acts on what the others left. -/
theorem tableAfter_append (cs : List StoreCall) (c : StoreCall) :
    tableAfter (cs ++ [c]) = c.op.after (tableAfter cs) := by
  simp [tableAfter]

/-- The sequence has only operations that settle on the table they find. -/
def AllSettle (cs : List StoreCall) : Prop :=
  ∀ pre c post, cs = pre ++ c :: post → c.op.Settles (tableAfter pre)

/-- Operations that settle keep the database idle. -/
theorem Session.idle {cs : List StoreCall} (h : Session cs w) (hcs : AllSettle cs) :
    w.db.Idle ∧ w.db.committed = tableAfter cs := by
  induction h with
  | nil => exact ⟨⟨rfl, fun _ => rfl⟩, rfl⟩
  | @snoc cs c w w' a out hs hr ih =>
    have hpre : AllSettle cs := fun pre c' post heq => hcs pre c' (post ++ [c]) (by simp [heq])
    obtain ⟨hi, ht⟩ := ih hpre
    have hc := hcs cs c [] rfl
    rw [← ht] at hc
    obtain ⟨hi', ht'⟩ := (runs_storeOp hi hr).1 hc
    exact ⟨hi', by rw [ht', ht, tableAfter_append]⟩

/-- Operations that settle can be run. -/
theorem exists_session (cs : List StoreCall) : ∃ w, Session cs w := by
  induction cs using List.reverseRecOn with
  | nil => exact ⟨_, .nil⟩
  | append_singleton cs c ih =>
    obtain ⟨w, hw⟩ := ih
    obtain ⟨w', out, hr⟩ := World.responsive_faultless.exists_runs c.conn Actor.foreign c.op.code w
    exact ⟨w', .snoc hw hr⟩

/-- The first operation that does not settle leaves its transaction open. -/
theorem exists_unsettled {pre : List StoreCall} {c : StoreCall} (hpre : AllSettle pre)
    (hc : ¬ c.op.Settles (tableAfter pre)) :
    ∃ w, Session (pre ++ [c]) w ∧ ¬ Settled (pre ++ [c]) w.db := by
  obtain ⟨w, hs⟩ := exists_session pre
  obtain ⟨hi, ht⟩ := hs.idle hpre
  obtain ⟨w', out, hr⟩ := World.responsive_faultless.exists_runs c.conn Actor.foreign c.op.code w
  refine ⟨w', .snoc hs hr, ?_⟩
  intro hset
  exact (runs_storeOp hi hr).2 (ht ▸ hc) (hset.closed c.conn)

/-- A sequence with operations that do not settle has a first one. -/
theorem exists_first_unsettling {cs : List StoreCall} (h : ¬ AllSettle cs) :
    ∃ pre c post, cs = pre ++ c :: post ∧ AllSettle pre ∧ ¬ c.op.Settles (tableAfter pre) := by
  induction cs using List.reverseRecOn with
  | nil => exact absurd (fun pre c post heq => by simp at heq) h
  | append_singleton cs c ih =>
    by_cases hcs : AllSettle cs
    · -- then it is the last one
      refine ⟨cs, c, [], rfl, hcs, fun hc => h fun pre c' post heq => ?_⟩
      rcases List.eq_nil_or_concat post with rfl | ⟨post', y, rfl⟩
      · obtain ⟨rfl, hcc⟩ := List.append_inj' heq rfl
        exact List.singleton_inj.mp hcc ▸ hc
      · have happ : cs ++ [c] = (pre ++ c' :: post') ++ [y] := by simpa using heq
        exact hcs pre c' post' (List.append_inj' happ rfl).1
    · obtain ⟨pre, c', post, rfl, hrest⟩ := ih hcs
      exact ⟨pre, c', post ++ [c], by simp, hrest⟩

/-- **Store operations leave no open transaction** exactly in the sequences without a status update
and without a block that a cancellation leaves: there, and only there, the store is settled after
each operation of each run. -/
theorem settled_iff (cs : List StoreCall) :
    (∀ pre, pre <+: cs → ∀ w, Session pre w → Settled pre w.db) ↔ AllSettle cs := by
  constructor
  · intro h
    by_contra hbad
    obtain ⟨pre, c, post, rfl, hpre, hc⟩ := exists_first_unsettling hbad
    obtain ⟨w, hs, hno⟩ := exists_unsettled hpre hc
    exact hno (h (pre ++ [c]) ⟨post, by simp⟩ w hs)
  · rintro h pre ⟨post, rfl⟩ w hs
    obtain ⟨hi, ht⟩ := hs.idle fun pre' c post' heq => h pre' c (post' ++ post) (by simp [heq])
    exact .of_idle hi ht

end

/-- A status update on a connection leaves the store unsettled. -/
theorem not_settled_updateStatus :
    ¬ ∀ (cs pre : List StoreCall), pre <+: cs → ∀ w, Session pre w → Settled pre w.db := by
  intro h
  let c : StoreCall := ⟨0, .updateStatus "job_1" .processing (some 0)⟩
  have hempty : AllSettle [] := fun pre c post heq => by simp at heq
  obtain ⟨w, hs, hno⟩ := exists_unsettled (c := c) hempty fun hc => hc
  exact hno (h _ _ (List.prefix_refl _) w hs)

end RelayQ

import RelayQ.Sqlite.Isolation
import RelayQ.System.Gate
import RelayQ.System.Deployment

/-! # What becomes of the status updates of workers

A worker updates the status of its jobs in the outbox and never commits. As long as the producers use
other connections, nobody but the worker ever sees an update, and the transaction that the first one
opens keeps the write lock for the rest of the worker's life.

* `Sys.statusUnseen`: every row that another connection can read is as its producer inserted it.
* `Enqueuer.beganFirst`: without `BEGIN` a call of `enqueue` with a store neither appends nor returns.
* `Sys.wedged`: once a status update went through, no later call of `enqueue` with a store succeeds
  until the worker dies. -/

namespace RelayQ

namespace Sys

variable [Codec] {t : RedisStreamTransport} {s s' : Sys} {l : SysLabel} {W : Nat → Prop}

/-! ## Producers and workers on sites of their own -/

/-- The workers run at the sites in `W`, the calls of `enqueue` at others. -/
structure Split (W : Nat → Prop) (s : Sys) : Prop where
  calls : ∀ c ∈ s.pool.procs, ¬ W c.site
  workers : ∀ w ∈ s.workers, W w.site

omit [Codec] in
/-- There is nobody yet. -/
theorem split_init : init.Split W := ⟨by simp [init], by simp [init]⟩

/-- Nobody moves to another site. -/
theorem Split.step (h : s.Split W) (hl : l.split W) (hs : s.step l = some s') : s'.Split W := by
  rcases step_cases hs with ⟨pl, p, rfl, -, hp, rfl⟩ | ⟨r, site, rfl, rfl⟩ |
    ⟨i, wl, w, world, w', rfl, hw, -, hx, rfl⟩
  · refine ⟨?_, fun w hw => ?_⟩
    · rcases PoolSpec.step_cases hp with ⟨c, site, rfl, rfl⟩ |
        ⟨i, ans, c, o, k, w, r, rfl, hc, hprog, hx, rfl⟩ | ⟨site, rfl, rfl⟩ | ⟨e, w, rfl, hw, rfl⟩
      · intro c' hc'
        rcases List.mem_append.mp hc' with hc' | hc'
        · exact h.calls c' hc'
        · obtain rfl := List.mem_singleton.mp hc'
          exact hl
      · intro c' hc'
        rcases List.mem_or_eq_of_mem_set hc' with hc' | rfl
        · exact h.calls c' hc'
        · exact h.calls c (List.mem_of_getElem? hc)
      · intro c' hc'
        obtain ⟨c, hc, rfl⟩ := List.mem_map.mp hc'
        rw [Proc.kill_site]
        exact h.calls c hc
      · exact h.calls
    · obtain ⟨w₀, hw₀, rfl | rfl⟩ := mem_killed hw
      · exact h.workers w hw₀
      · exact h.workers w₀ hw₀
  · refine ⟨h.calls, fun w hw => ?_⟩
    rcases List.mem_append.mp hw with hw | hw
    · exact h.workers w hw
    · obtain rfl := List.mem_singleton.mp hw
      exact hl
  · refine ⟨h.calls, fun u hu => ?_⟩
    rcases List.mem_or_eq_of_mem_set hu with hu | rfl
    · exact h.workers u hu
    · rw [(Worker.step_move hx).frame.2.1]
      exact h.workers w (List.mem_of_getElem? hw)

/-- Some call of `enqueue` inserts this row. -/
def Inserts (s : Sys) (row : Row) : Prop :=
  ∃ info ∈ s.pool.procs.map Proc.info, row = .ofJob info.args.keyedJob

/-- Who inserts a row goes on inserting it. -/
theorem Inserts.step {row : Row} (h : s.Inserts row) (hs : s.step l = some s') :
    s'.Inserts row :=
  let ⟨info, hinfo, hrow⟩ := h
  ⟨info, (infos_of_step hs).subset hinfo, hrow⟩

/-- **What the producers see**: what is committed, and what a connection that is not a worker's sees,
are rows as they were inserted. -/
def Unmarked (W : Nat → Prop) (s : Sys) : Prop :=
  s.world.db.Sealed (fun conn => ¬ W conn) fun t => ∀ row ∈ t, s.Inserts row

/-- A statement of the system keeps what the producers see free of status updates. -/
theorem Unmarked.run (h : s.Unmarked W) (hsplit : s.Split W) {site : Nat} {a : Actor} {stmt : Stmt}
    (hc : s.Called site a (.sql stmt)) :
    (s.world.db.run site stmt).1.Sealed (fun conn => ¬ W conn) fun t => ∀ row ∈ t, s.Inserts row := by
  cases hc with
  | @enqueue n c ph _ _ hn _ hg =>
    have hsite := hsplit.calls c (List.mem_of_getElem? hn)
    cases stmt with
    | begin => exact h.begin
    | insert row =>
      refine h.write fun _ t t' ht hins r hr => ?_
      obtain ⟨rfl, -, -⟩ := Outbox.insert_ok hins
      rcases List.mem_append.mp hr with hr | hr
      · exact ht r hr
      · -- the monitor lets the row of its own job through
        obtain rfl := List.mem_singleton.mp hr
        have hrow : r = .ofJob c.info.args.keyedJob := by
          cases ph <;> first | exact hg | exact hg.elim
        exact ⟨c.info, List.mem_map_of_mem (List.mem_of_getElem? hn), hrow⟩
    | update id status att => cases ph <;> exact hg.elim
    | selectById _ | selectByKey _ => exact h.read
    | commit => exact h.commit hsite
    | rollback => exact h.rollback
  | @task i j w d jobId ph _ hw hg =>
    obtain ⟨id, status, att, rfl⟩ := exists_update_of_guard hg
    have hsite := hsplit.workers w (List.mem_of_getElem? hw)
    exact h.write fun hn => absurd hsite hn

/-- Every step keeps what the producers see free of status updates. -/
theorem Unmarked.step (h : s.Unmarked W) (hsplit : s.Split W) (hwired : s.Wired t)
    (hs : s.step l = some s') : s'.Unmarked W := by
  refine Sqlite.Database.Sealed.mono (P := fun t => ∀ row ∈ t, s.Inserts row)
    (fun t ht row hrow => (ht row hrow).step hs) ?_
  rcases step_called hwired hs with ⟨-, -, hdb | ⟨site, -, hdb⟩⟩ | ⟨site, a, o, ans, r, hc, hx⟩
  · rw [hdb]
    exact h
  · rw [hdb]
    exact h.rollback
  · cases ho : o.isStore with
    | false =>
      rw [World.exec_db ho hx]
      exact h
    | true =>
      cases o with
      | sql stmt =>
        rcases (World.exec_sql_db hx).2 with ⟨hdb, -⟩ | ⟨hdb, -⟩ <;> rw [hdb]
        · exact h.run hsplit hc
        · exact h
      | redis _ | handler _ _ | monotonic | utcnow | metric _ | delay _ => cases ho

/-- In every state that is reached what the producers see is free of status updates. -/
theorem SplitRun.unmarked (hrun : SplitRun t W init s) : s.Unmarked W := by
  have hinv : s.Wired t ∧ s.Split W ∧ s.Unmarked W :=
    Reaches.invariant (P := fun u : Sys => u.Wired t ∧ u.Split W ∧ u.Unmarked W)
      (fun _ _ _ hu hl hs => ⟨hu.1.step hl.1 hs, hu.2.1.step hl.2 hs,
        hu.2.2.step hu.2.1 hu.1 hs⟩) hrun
      ⟨wired_init, split_init, ⟨(fun _ hrow => nomatch hrow), fun _ _ _ ⟨_, hv⟩ => nomatch hv⟩⟩
  exact hinv.2.2

/-- The call that inserts a row. -/
theorem Inserts.exists_proc {row : Row} (h : s.Inserts row) :
    ∃ c ∈ s.pool.procs, row = .ofJob c.info.args.keyedJob := by
  obtain ⟨info, hinfo, rfl⟩ := h
  obtain ⟨c, hc, rfl⟩ := List.mem_map.mp hinfo
  exact ⟨c, hc, rfl⟩

/-- **Nobody but a worker sees its status updates.** Whatever the workers have done, every row that is
committed, or that a connection of no worker reads, is the row some call of `enqueue` inserts, with
the status and the attempts of the job as it was enqueued. -/
theorem statusUnseen (hrun : SplitRun t W init s) :
    (∀ row ∈ s.world.db.committed, ∃ c ∈ s.pool.procs, row = .ofJob c.info.args.keyedJob) ∧
    ∀ conn, ¬ W conn → ∀ row ∈ s.world.db.visible conn,
      ∃ c ∈ s.pool.procs, row = .ofJob c.info.args.keyedJob :=
  ⟨fun row hr => (hrun.unmarked.committed row hr).exists_proc,
    fun _ hconn row hr => (hrun.unmarked.visible hconn row hr).exists_proc⟩

end Sys

/-- A worker updates the status of its job: its own connection reads the row as processing, the
producer's as it was inserted. -/
theorem Sys.statusUnseen_updated : ∃ s : Sys,
    s.world.db.visible 1 = [{ Row.ofJob Sample.job with status := .processing }] ∧
      s.world.db.visible 0 = [Row.ofJob Sample.job] ∧ Sample.job.status = .pending ∧
      ∀ row ∈ s.world.db.visible 0, ∃ c ∈ s.pool.procs, row = .ofJob c.info.args.keyedJob := by
  obtain ⟨s₀, s, hrun₀, -, hrun, -, hidle, hcommitted, hupdated⟩ := Sample.exists_updated
  have hvisible : s.world.db.visible 0 = s.world.db.committed := by
    unfold Sqlite.Database.visible
    rw [hidle]
  exact ⟨s, hupdated, hvisible.trans hcommitted, rfl,
    (Sys.statusUnseen (hrun₀.trans hrun)).2 0 Nat.zero_ne_one⟩

/-! ## What a call of `enqueue` needs -/

/-- Did the call begin a transaction? -/
def began : (o : Op) → Except PyExc o.Res → Bool
  | .sql .begin, .ok _ => true
  | _, _ => false

namespace Enqueuer

/-- Watches whether a call appends before a transaction has begun. -/
def beganFirst : Monitor RelaySig Bool := .gate (fun o : Op => o.isAppend = true) began

variable [Codec] {enq : Enqueuer}

/-- The outbox write of an enqueuer with a store begins a transaction, or raises. -/
theorem wp_writeOutbox_beganFirst (hstore : enq.store = true) (job : Job) :
    (enq.writeOutbox job).wp beganFirst (fun r b => r = .ok () → b = true) false := by
  rw [writeOutbox, if_pos hstore]
  refine Prog.wp_perform_bind nofun (fun _ => ?_) fun _ he => by cases he
  -- whatever follows, the transaction has begun
  exact Prog.wp_mono _ (fun _ _ hb _ => hb) (Prog.wp_gate_open _ _ _)

/-- **With a store a call of `enqueue` appends, and returns, only after it has begun a
transaction.** -/
theorem wp_enqueue_beganFirst (hstore : enq.store = true) (a : EnqueueArgs) :
    (enq.enqueue a).wp beganFirst (fun r b => (∃ id, r = .ok id) → b = true) false := by
  unfold enqueue
  split
  · exact fun ⟨_, h⟩ => nomatch h
  · refine Prog.wp_perform_bind nofun (fun depth => ?_) fun _ ⟨_, h⟩ => nomatch h
    dsimp only
    split
    · exact fun ⟨_, h⟩ => nomatch h
    · refine Prog.wp_bind_of (R := fun _ b => b = false) (Prog.Calls.gate (calls_lookup
        (fun _ => ⟨Bool.false_ne_true, fun _ => rfl⟩) ⟨Bool.false_ne_true, fun _ => rfl⟩ a.key?) _)
        (fun _ b hb => ?_) fun _ _ _ ⟨_, h⟩ => nomatch h
      obtain rfl : b = false := hb
      refine Prog.wp_bind_of (wp_writeOutbox_beganFirst hstore _) (fun _ b hb => ?_)
        fun _ _ _ ⟨_, h⟩ => nomatch h
      obtain rfl := hb rfl
      exact ⟨fun _ => rfl, fun r => by cases r <;> exact fun _ => rfl⟩

end Enqueuer

/-! ## A worker that holds the write lock -/

/-- While a connection holds the write lock, other connections commit nothing, and it keeps the lock
through its own status updates. -/
theorem Db.run_locked {db : Db} {conn site : Nat} (hl : db.lock = some conn) {stmt : Stmt}
    (h : site ≠ conn ∨ ∃ id status att, stmt = .update id status att) :
    (db.run site stmt).1.lock = some conn ∧
      (db.run site stmt).1.committed = db.committed ∧ (db.run site stmt).1.version = db.version := by
  have haside : Sqlite.Database.Aside site db (db.run site stmt).1 := by
    cases stmt with
    | begin => exact .begin
    | insert row => exact .write _
    | update id status att => exact .write _
    | selectById _ | selectByKey _ => exact .read
    | rollback => exact .rollback
    | commit =>
      refine .commit fun hl' => ?_
      rcases h with h | ⟨id, status, att, h⟩
      · exact h (Option.some.inj (hl'.symm.trans hl))
      · cases h
  refine ⟨?_, haside.committed, haside.version⟩
  by_cases hs : conn = site
  · subst hs
    rcases h with h | ⟨id, status, att, rfl⟩
    · exact absurd rfl h
    · exact Sqlite.Database.lock_write hl _
  · exact haside.lock conn hs hl

/-- While a connection holds the write lock, no transaction is begun. -/
theorem began_of_lock {w w' : World} {conn site : Nat} {a : Actor} {o : Op} {ans : Answer}
    {r : Except PyExc o.Res} (hl : w.db.lock = some conn)
    (hx : w.exec site a o ans = some (w', r)) : began o r = false := by
  by_cases ho : o = .sql .begin
  · subst ho
    cases r with
    | error e => rfl
    | ok u =>
      obtain ⟨-, ⟨-, hr⟩ | ⟨-, e, -, hr⟩⟩ := World.exec_sql_db hx
      · obtain ⟨e, he⟩ := Sqlite.Database.beginImmediate_of_lock (E := Violation) hl site
        rw [Db.run, he] at hr
        cases hr
      · cases hr
  · unfold began
    split
    · exact absurd rfl ho
    · rfl

namespace Sys

variable [Codec] {t : RedisStreamTransport} {s s' s₁ : Sys} {l : SysLabel} {W : Nat → Prop}
  {conn : Nat}

/-- What holds from a state on in which a worker's connection holds the write lock. -/
structure Wedged (conn : Nat) (s₁ s : Sys) : Prop where
  lock : s.world.db.lock = some conn
  committed : s.world.db.committed = s₁.world.db.committed
  version : s.world.db.version = s₁.world.db.version
  shut : s.Shut s₁.pool.procs.length (fun c => c.enqueuer.store = true)
    (fun _ (o : Op) => o.isAppend = true) fun _ => began
  record : ∃ new, s.world.log = new ++ s₁.world.log ∧ ∀ ev ∈ new, began ev.op ev.res = false

omit [Codec] in
/-- So it is right after the update. -/
theorem Wedged.refl (hknown : s₁.Known) (h : s₁.world.db.lock = some conn) :
    s₁.Wedged conn s₁ where
  lock := h
  committed := rfl
  version := rfl
  shut := hknown.shut
  record := ⟨[], rfl, fun _ h => by cases h⟩

/-- A step that is not the worker's crash leaves the lock where it is and commits nothing. -/
theorem Wedged.database (h : s₁.Wedged conn s) (hc : W conn) (hwired : s.Wired t)
    (hsplit : s.Split W) (hcrash : l ≠ .pool (.crash conn)) (hs : s.step l = some s') :
    s'.world.db.lock = some conn ∧ s'.world.db.committed = s.world.db.committed ∧
      s'.world.db.version = s.world.db.version := by
  rcases step_called hwired hs with ⟨-, -, hdb | ⟨site, rfl, hdb⟩⟩ | ⟨site, a, o, ans, r, hcalled, hx⟩
  · exact ⟨hdb ▸ h.lock, by rw [hdb], by rw [hdb]⟩
  · have hne : conn ≠ site := fun heq => hcrash (by rw [heq])
    have haside : Sqlite.Database.Aside site s.world.db (s.world.db.rollback site) := .rollback
    rw [hdb]
    exact ⟨haside.lock conn hne h.lock, haside.committed, haside.version⟩
  · cases ho : o.isStore with
    | false =>
      have hdb := World.exec_db ho hx
      exact ⟨hdb ▸ h.lock, by rw [hdb], by rw [hdb]⟩
    | true =>
      cases o with
      | sql stmt =>
        have hsafe : site ≠ conn ∨ ∃ id status att, stmt = .update id status att := by
          cases hcalled with
          | enqueue hn _ _ =>
            exact .inl fun heq => hsplit.calls _ (List.mem_of_getElem? hn) (heq ▸ hc)
          | task _ hg => exact .inr (exists_update_of_guard hg)
        rcases (World.exec_sql_db hx).2 with ⟨hdb, -⟩ | ⟨hdb, -⟩
        · rw [hdb]
          exact Db.run_locked h.lock hsafe
        · exact ⟨hdb ▸ h.lock, by rw [hdb], by rw [hdb]⟩
      | redis _ | handler _ _ | monotonic | utcnow | metric _ | delay _ => cases ho

/-- **While the worker lives, nothing changes that.** -/
theorem Wedged.step (h : s₁.Wedged conn s) (hc : W conn) (hwired : s.Wired t) (hsplit : s.Split W)
    (hcrash : l ≠ .pool (.crash conn)) (hs : s.step l = some s') : s₁.Wedged conn s' := by
  obtain ⟨hlock, hcommitted, hversion⟩ := h.database hc hwired hsplit hcrash hs
  refine ⟨hlock, hcommitted.trans h.committed, hversion.trans h.version, ?_, ?_⟩
  · exact h.shut.step hwired (fun c hstore => Enqueuer.wp_enqueue_beganFirst hstore c.args)
      (fun _ _ _ _ _ _ _ _ hx => began_of_lock h.lock hx) hs
  · obtain ⟨new, hlog, hnew⟩ := h.record
    rcases step_called hwired hs with ⟨hlog', -⟩ | ⟨site, a, o, ans, r, hcalled, hx⟩
    · exact ⟨new, hlog'.trans hlog, hnew⟩
    · obtain ⟨applied, evicted, hlog'⟩ := World.exec_log hx
      refine ⟨⟨a, o, applied, evicted, r⟩ :: new, by rw [hlog', hlog]; rfl, fun ev hev => ?_⟩
      rcases List.mem_cons.mp hev with rfl | hev
      · exact began_of_lock h.lock hx
      · exact hnew ev hev

/-- **A status update wedges the outbox.** Where workers and producers have connections of their own,
once a worker's status update was answered, and as long as that worker does not die, its connection
keeps the write lock, nothing is committed, no transaction begins, and a call of `enqueue` with a store
that starts from then on neither returns nor appends to a stream. -/
theorem wedged {s₀ s₂ : Sys} {w : Worker} {i j e evicted : Nat} {queue id : String}
    {status : JobStatus} {att : Option Int} {applied : Bool}
    (hrun : SplitRun t W init s₀) (hl : l.uses t.streamPrefix ∧ l.split W)
    (hs : s₀.step l = some s₁) (hw : s₀.workers[i]? = some w)
    (hupdate : s₁.world.log = ⟨.executor i j queue e, .sql (.update id status att), applied, evicted,
      .ok ()⟩ :: s₀.world.log)
    (hlater : Reaches step (fun _ l => (l.uses t.streamPrefix ∧ l.split W) ∧
      l ≠ .pool (.crash w.site)) s₁ s₂) :
    s₂.world.db.lock = some w.site ∧ s₂.world.db.committed = s₁.world.db.committed ∧
      s₂.world.db.version = s₁.world.db.version ∧
      ∃ new, s₂.world.log = new ++ s₁.world.log ∧ (∀ ev ∈ new, began ev.op ev.res = false) ∧
        ∀ n p, s₁.pool.procs.length ≤ n → s₂.pool.procs[n]? = some p →
          p.info.enqueuer.store = true → (∀ v, p.outcome ≠ some (.ok v)) ∧
            ∀ ev ∈ new, ev.actor = .enqueuer n → ev.op.isAppend = false := by
  have hinv₀ : s₀.Wired t ∧ s₀.Split W ∧ s₀.Known :=
    Reaches.invariant (P := fun u : Sys => u.Wired t ∧ u.Split W ∧ u.Known)
      (fun _ _ _ hu hl hs => ⟨hu.1.step hl.1 hs, hu.2.1.step hl.2 hs, hu.2.2.step hu.1 hs⟩) hrun
      ⟨wired_init, split_init, known_init⟩
  obtain ⟨hwired₀, hsplit₀, hknown₀⟩ := hinv₀
  -- the update took the write lock
  have hlock : s₁.world.db.lock = some w.site := by
    rcases step_called hwired₀ hs with ⟨hlog, -⟩ | ⟨site, a, o, ans, r, hcalled, hx⟩
    · have hlen := congrArg List.length (hlog.symm.trans hupdate)
      simp at hlen
    · obtain ⟨applied', evicted', hlog⟩ := World.exec_log hx
      obtain ⟨rfl, rfl, -, -, hr⟩ := Event.mk.inj (List.cons.inj (hlog.symm.trans hupdate)).1
      obtain rfl := eq_of_heq hr
      cases hcalled with
      | task hw' _ =>
        obtain rfl := Option.some.inj (hw.symm.trans hw')
        obtain ⟨-, ⟨hdb, hr⟩ | ⟨-, e', -, hr⟩⟩ := World.exec_sql_db hx
        · rw [hdb]
          refine Sqlite.Database.lock_of_write_ok ?_
          cases hres : (s₀.world.db.run w.site (.update id status att)).2 with
          | ok u => exact hres
          | error e' =>
            rw [hres] at hr
            cases hr
        · cases hr
  have hsite : W w.site := hsplit₀.workers w (List.mem_of_getElem? hw)
  obtain ⟨-, -, h⟩ : s₂.Wired t ∧ s₂.Split W ∧ s₁.Wedged w.site s₂ :=
    Reaches.invariant (P := fun u : Sys => u.Wired t ∧ u.Split W ∧ s₁.Wedged w.site u)
      (fun _ _ _ hu hl hs => ⟨hu.1.step hl.1.1 hs, hu.2.1.step hl.1.2 hs,
        hu.2.2.step hsite hu.1 hu.2.1 hl.2 hs⟩) hlater
      ⟨hwired₀.step hl.1 hs, hsplit₀.step hl.2 hs, .refl (hknown₀.step hwired₀ hs) hlock⟩
  obtain ⟨new, hlog, hnew⟩ := h.record
  refine ⟨h.lock, h.committed, h.version, new, hlog, hnew, fun n p hn hp hstore => ?_⟩
  obtain ⟨hout, happend⟩ := h.shut.outcome hn hp hstore
  exact ⟨hout, fun ev hev ha =>
    Bool.eq_false_iff.mpr (happend ev (hlog ▸ List.mem_append_left _ hev) ha)⟩

end Sys

/-- A worker updates the status of its first job; then somebody else enqueues. -/
theorem Sys.wedged_enqueuing : ∃ (s : Sys) (p : Proc RelaySig Nat EnqueueCall Nat),
    s.pool.procs.getLast? = some p ∧ p.info.enqueuer.store = true ∧
      s.world.db.lock = some 1 ∧ ∀ v, p.outcome ≠ some (.ok v) := by
  obtain ⟨⟨⟨⟨now, redis, db, log⟩, procs⟩, workers⟩, hrun, rfl, rfl⟩ :=
    Sample.exists_single_polled true
  obtain ⟨s₀, w, s₁, hs₀, hs₁, hw, hsite, hupdate⟩ : ∃ (s₀ : Sys) (w : Worker) (s₁ : Sys),
      Sys.SplitRun Sample.transport (· = 1)
        ⟨⟨⟨now, redis, World.init.db, log⟩, procs⟩, [Sample.singlePolled true]⟩ s₀ ∧
      s₀.step (.worker 0 (.task 0 (.ok 0))) = some s₁ ∧ s₀.workers[0]? = some w ∧ w.site = 1 ∧
      s₁.world.log = ⟨.executor 0 0 "default" 1, .sql (.update Sample.job.id .processing
        (some Sample.job.attempts)), true, 0, .ok ()⟩ :: s₀.world.log :=
    ⟨_, _, _, .tail (l := .worker 0 (.startTask 0)) (.single (l := .worker 0 .acquire)
      ⟨trivial, trivial⟩ rfl) ⟨trivial, trivial⟩ rfl, rfl, rfl, rfl, rfl⟩
  obtain ⟨s₂, hs₂, hprocs⟩ : ∃ s₂ : Sys, s₁.step (.pool (.start (Sample.enqueueCall Sample.job true)
      0)) = some s₂ ∧ s₂.pool.procs = s₁.pool.procs ++ [⟨Sample.enqueueCall Sample.job true, 0,
        some (enqueuePool.code (Sample.enqueueCall Sample.job true))⟩] := ⟨_, rfl, rfl⟩
  obtain ⟨hlock, -, -, new, -, -, hcalls⟩ := Sys.wedged
    (l := .worker 0 (.task 0 (.ok 0))) (hrun.trans hs₀) ⟨trivial, trivial⟩ hs₁ hw hupdate
    (.single (l := .pool (.start (Sample.enqueueCall Sample.job true) 0))
      ⟨⟨rfl, Nat.zero_ne_one⟩, nofun⟩ hs₂)
  exact ⟨s₂, _, by rw [hprocs, List.getLast?_concat], rfl, hsite ▸ hlock,
    (hcalls s₁.pool.procs.length _ le_rfl (by rw [hprocs]; exact List.getElem?_concat_length ..)
      rfl).1⟩

end RelayQ

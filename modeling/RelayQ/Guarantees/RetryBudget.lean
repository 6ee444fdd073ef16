import RelayQ.Redis.Account
import RelayQ.System.Wiring

/-! # The retry budget

The number of attempts lives in the job, and the job of a delivery is decoded from the stream entry,
which never changes: `handle_failure` counts an attempt on an object that is thrown away. Every
delivery of an entry is its first, so a job is dead-lettered at its first failure if its budget is
zero and never otherwise.

* `Source`, `FailedDelivery`, `Deliveries`: sequences of deliveries of one entry, with everything
  else that happens in between.
* `runs_execute_failing`: what one failing execution does to the server.
* `RetryBudget`, `retryBudget_iff`: when the budget is kept. -/

namespace RelayQ

section

variable [Codec]

/-! ## Deliveries of one entry -/

/-- How a worker comes by an entry. -/
inductive Source
  /-- `read_group` -/
  | group (workerId : String) (count blockMs : Nat)
  /-- `autoclaim_stale` -/
  | claim (workerId : String) (minIdleMs count : Nat)

/-- The reading program. -/
def Source.read (t : RedisStreamTransport) (queue : String) (now : DateTime) :
    Source → Py (List Delivery)
  | .group workerId count blockMs => t.readGroup queue workerId count blockMs now
  | .claim workerId minIdleMs count => t.autoclaimStale queue workerId minIdleMs count now

/-- The answers: every Redis call succeeds, every handler run raises one of these exceptions. -/
def Failing (raises : Set PyExc) : Op → Answer → Prop
  | .redis _, ans => ans.faultless = true
  | .handler _ _, ans => ∃ run, ∃ e ∈ raises, ans = .ran run ∧ run.raised = some e
  | _, _ => True

/-- What else happens: any calls of anybody, crashes, time. -/
def Meanwhile : World → World → Prop :=
  Relation.ReflTransGen (WorldStep fun _ o => ∀ c, o = .redis c → c.fromStart)

/-- A delivery of an entry with a failing execution: a worker reads it, and some time after that
its executor runs the job that was decoded, from `w₁` to `w₂`. -/
def FailedDelivery (t : RedisStreamTransport) (queue : String) (raises : Set PyExc)
    (e : Redis.Entry Body) (w w₁ w₂ : World) : Prop :=
  ∃ (src : Source) (reader : RedisStreamTransport) (now : DateTime) (site : Nat) (a : Actor)
    (w₀ : World) (ds : List Delivery) (d : Delivery) (job : Job) (x : Executor) (site' : Nat)
    (a' : Actor) (out : Except PyExc Job),
    reader.streamPrefix = t.streamPrefix ∧ x.transport.streamPrefix = t.streamPrefix ∧
    relay.Runs (Failing raises) site a w (src.read reader queue now) w₀ (.ok ds) ∧ d ∈ ds ∧
    d.entryId = e.id ∧ d.job.typed? = some job ∧ Meanwhile w₀ w₁ ∧
    relay.Runs (Failing raises) site' a' w₁ (x.execute queue d.entryId job) w₂ out

/-- A sequence of failed deliveries of an entry; of each execution, the world before and after. -/
inductive Deliveries (t : RedisStreamTransport) (queue : String) (raises : Set PyExc)
    (e : Redis.Entry Body) : World → List (World × World) → Prop
  | nil {w : World} : Deliveries t queue raises e w []
  | cons {w w' w₁ w₂ : World} {ps : List (World × World)} : Meanwhile w w' →
      FailedDelivery t queue raises e w' w₁ w₂ → Deliveries t queue raises e w₂ ps →
      Deliveries t queue raises e w ((w₁, w₂) :: ps)

/-- The execution appended the job to the dead-letter stream and acknowledged the entry. -/
def DeadLetters (t : RedisStreamTransport) (queue : String) (e : Redis.Entry Body) (j : Job)
    (p : World × World) : Prop :=
  (∃ id j' why, j'.id = j.id ∧ (p.2.redis (t.dlqKey queue)).entries =
    (p.1.redis (t.dlqKey queue)).entries ++ [⟨id, RedisStreamTransport.dlqBody j' why⟩]) ∧
  ∃ grp, (p.2.redis (t.streamKey queue)).groups (t.groupKey queue) = some grp ∧ grp.Acked e.id

/-- **The retry budget of a job is kept**: whenever an entry that carries the job, new to its group,
is delivered any number of times and every execution fails, the execution number `max_retries + 1`
dead-letters the job, every other leaves the server alone, and there are no more than these. -/
def RetryBudget (raises : Set PyExc) (j : Job) : Prop :=
  ∀ t queue e w ps, w.redis.Wf → e ∈ (w.redis (t.streamKey queue)).entries →
    e.fields = RedisStreamTransport.jobBody j →
    (∀ grp, (w.redis (t.streamKey queue)).groups (t.groupKey queue) = some grp →
      grp.lastDelivered < e.id) →
    Deliveries t queue raises e w ps →
    (∀ (i : Nat) p, ps[i]? = some p →
      if (i : Int) = j.maxRetries then DeadLetters t queue e j p else p.2.redis = p.1.redis) ∧
    (ps.length : Int) ≤ j.maxRetries + 1

/-! ## What one failing execution does -/

section Execution

variable {w w' : World} {site : Nat} {a : Actor} {P : Op → Answer → Prop} {raises : Set PyExc}

omit [Codec] in
/-- A call that is not a Redis call leaves the server alone. -/
theorem runs_perform_redis_eq {o : Op} {out : Except PyExc o.Res} (ho : ∀ c, o ≠ .redis c)
    (h : relay.Runs P site a w (perform o) w' out) : w'.redis = w.redis := by
  obtain ⟨ans, -, hx⟩ := Machine.runs_perform_iff.mp h
  exact (World.exec_other ho hx).1

omit [Codec] in
/-- A status update leaves the server alone and never raises. -/
theorem runs_noteStatus {x : Executor} {id : String} {status : JobStatus} {attempt : Option Int}
    {out : Except PyExc Unit}
    (h : relay.Runs P site a w (x.noteStatus id status attempt) w' out) :
    w'.redis = w.redis ∧ out = .ok () := by
  unfold Executor.noteStatus at h
  split at h
  · obtain ⟨w₁, r, hp, hrest⟩ := Machine.runs_tryExcept_iff.mp h
    obtain ⟨w₂, r₂, hu, hret⟩ := Machine.runs_bind_iff.mp hp
    have hredis := runs_perform_redis_eq (by simp) hu
    obtain ⟨ans, -, hx⟩ := Machine.runs_perform_iff.mp hu
    cases r₂ with
    | ok v =>
      obtain ⟨rfl, rfl⟩ := Machine.runs_ret_iff.mp hret
      obtain ⟨rfl, rfl⟩ := hrest
      exact ⟨hredis, rfl⟩
    | error e =>
      obtain ⟨rfl, rfl⟩ := hret
      dsimp only at hrest
      rw [if_pos (World.exec_sql_isException hx)] at hrest
      obtain ⟨rfl, rfl⟩ := Machine.runs_ret_iff.mp hrest
      exact ⟨hredis, rfl⟩
  · obtain ⟨rfl, rfl⟩ := Machine.runs_ret_iff.mp h
    exact ⟨rfl, rfl⟩

omit [Codec] in
/-- Telling the metrics registry leaves the server alone and never raises. -/
theorem runs_metric {m : Metric} {out : Except PyExc Unit}
    (h : relay.Runs P site a w (Executor.metric m) w' out) : w'.redis = w.redis ∧ out = .ok () := by
  refine ⟨runs_perform_redis_eq (by simp) h, ?_⟩
  obtain ⟨ans, -, hx⟩ := Machine.runs_perform_iff.mp h
  obtain ⟨y, hy, rfl, -⟩ := World.exec_eq_some.mp hx
  cases ans <;> cases hy
  rfl

omit [Codec] in
/-- Measuring the time leaves the server alone and never raises. -/
theorem runs_observeElapsed {kind : String} {start : Nat} {out : Except PyExc Unit}
    (h : relay.Runs P site a w (Executor.observeElapsed kind start) w' out) :
    w'.redis = w.redis ∧ out = .ok () := by
  obtain ⟨w₁, r, hm, hrest⟩ := Machine.runs_bind_iff.mp h
  have hredis := runs_perform_redis_eq (by simp) hm
  obtain ⟨ans, -, hx⟩ := Machine.runs_perform_iff.mp hm
  obtain ⟨y, hy, rfl, -⟩ := World.exec_eq_some.mp hx
  cases ans <;> cases hy
  obtain ⟨hr, hout⟩ := runs_metric hrest
  exact ⟨hr.trans hredis, hout⟩

/-- The streams after a dead letter and the acknowledgement of its entry. -/
def deadLettered (ks : Redis.Keyspace Body) (t : RedisStreamTransport) (queue : String)
    (entryId : Nat) (job : Job) (why : String) : Redis.Keyspace Body :=
  ((ks.apply 0 0 (.xadd (t.dlqKey queue) (RedisStreamTransport.dlqBody job why) none)).1.apply 0 0
    (.xack (t.streamKey queue) (t.groupKey queue) entryId)).1

/-- Only the prefix of the transport matters. -/
theorem deadLettered_congr {ks : Redis.Keyspace Body} {x t : RedisStreamTransport}
    (h : x.streamPrefix = t.streamPrefix) {queue : String} {entryId : Nat} {job : Job}
    {why : String} :
    deadLettered ks x queue entryId job why = deadLettered ks t queue entryId job why := by
  obtain ⟨p, d⟩ := x
  obtain ⟨p', d'⟩ := t
  obtain rfl : p = p' := h
  rfl

/-- Dead-lettering, when every Redis call succeeds. -/
theorem runs_deadLetter {x : Executor} {queue : String} {entryId : Nat} {job : Job} {why : String}
    {out : Except PyExc Unit}
    (h : relay.Runs (Failing raises) site a w (x.deadLetter queue entryId job why) w' out) :
    w'.redis = deadLettered w.redis x.transport queue entryId job why ∧ out = .ok () := by
  obtain ⟨w₀, r₀, hp, hend⟩ := Machine.runs_tryExcept_iff.mp h
  obtain ⟨w₁, r₁, hp, hret⟩ := Machine.runs_bind_iff.mp hp
  obtain ⟨w₂, r₂, hadd, hp⟩ := Machine.runs_bind_iff.mp hp
  obtain ⟨ans, hans, hx⟩ := Machine.runs_perform_iff.mp hadd
  obtain ⟨n, hn, rfl, rfl⟩ := World.exec_redis_faultless hx hans
  obtain rfl : n = 0 := by simpa [Redis.Cmd.mayEvict] using hn
  obtain ⟨w₃, r₃, hack, hp⟩ := Machine.runs_bind_iff.mp hp
  obtain ⟨ans', hans', hx'⟩ := Machine.runs_perform_iff.mp hack
  obtain ⟨n', hn', hr₃, rfl⟩ := World.exec_redis_faultless hx' hans'
  obtain rfl : n' = 0 := by simpa [Redis.Cmd.mayEvict] using hn'
  -- XACK never errs
  obtain ⟨acked, rfl⟩ : ∃ k, r₃ = .ok k := by
    rw [hr₃]
    simp only [World.sendCmd, Redis.Keyspace.apply]
    split <;> exact ⟨_, rfl⟩
  obtain ⟨hredis, rfl⟩ := runs_metric hp
  obtain ⟨rfl, rfl⟩ := Machine.runs_ret_iff.mp hret
  obtain ⟨rfl, rfl⟩ := hend
  exact ⟨hredis, rfl⟩

omit [Codec] in
/-- The exception a failure is routed with prints exactly if the one the handler raised does. -/
theorem failureOf_str {x : Executor} {job : Job} {exc : PyExc} :
    (x.failureOf job exc).str = none ↔ exc.str = none := by
  cases exc <;> simp [Executor.failureOf, PyExc.str]

/-- **What a failing execution does to the server**, when every Redis call succeeds: past the budget
it dead-letters the job and acknowledges the entry, unless the exception does not even print; within
the budget it does nothing. -/
theorem runs_execute_failing {x : Executor} {queue : String} {entryId : Nat} {job : Job}
    {out : Except PyExc Job} (hexc : ∀ e ∈ raises, e.isException = true)
    (h : relay.Runs (Failing raises) site a w (x.execute queue entryId job) w' out) :
    ∃ e ∈ raises, (job.maxRetries < job.attempts + 1 ∧ e.str ≠ none ∧ ∃ job' why,
        job'.id = job.id ∧ w'.redis = deadLettered w.redis x.transport queue entryId job' why) ∨
      ((job.attempts + 1 ≤ job.maxRetries ∨ e.str = none) ∧ w'.redis = w.redis) := by
  obtain ⟨w₁, r₁, hs, h⟩ := Machine.runs_bind_iff.mp h
  obtain ⟨hredis₁, rfl⟩ := runs_noteStatus hs
  obtain ⟨w₂, r₂, hm, h⟩ := Machine.runs_bind_iff.mp h
  have hredis₂ := runs_perform_redis_eq (by simp) hm
  obtain ⟨ans₂, -, hx₂⟩ := Machine.runs_perform_iff.mp hm
  obtain ⟨y₂, hy₂, rfl, -⟩ := World.exec_eq_some.mp hx₂
  cases ans₂ <;> cases hy₂
  -- the handler
  obtain ⟨w₃, r₃, hh, h⟩ := Machine.runs_bind_iff.mp h
  have hredis₃ := runs_perform_redis_eq (by simp) hh
  obtain ⟨ans₃, ⟨run, exc, hexc', rfl, hraised⟩, hx₃⟩ := Machine.runs_perform_iff.mp hh
  have hx₃ : w₂.exec site a (.handler job x.jobTimeout) (.ran run) = some (w₃, r₃) := hx₃
  obtain ⟨y₃, hy₃, rfl, -⟩ := World.exec_eq_some.mp hx₃
  cases hy₃
  simp only [hraised, hexc exc hexc', if_true] at h
  obtain ⟨w₄, r₄, ho, h⟩ := Machine.runs_bind_iff.mp h
  obtain ⟨hredis₄, rfl⟩ := runs_observeElapsed ho
  -- the failure
  obtain ⟨w₅, r₅, hk, h⟩ := Machine.runs_bind_iff.mp h
  obtain ⟨hredis₅, rfl⟩ := runs_metric hk
  have hredis : w₅.redis = w.redis :=
    hredis₅.trans (hredis₄.trans (hredis₃.trans (hredis₂.trans hredis₁)))
  refine ⟨exc, hexc', ?_⟩
  dsimp only at h
  split at h
  · rename_i hdlq
    have hbudget : job.maxRetries < job.attempts + 1 := by simpa [Job.shouldDlq] using hdlq
    obtain ⟨w₆, r₆, hwhy, h⟩ := Machine.runs_bind_iff.mp h
    unfold Executor.reason at hwhy
    cases hstr : (x.failureOf { job with payload := run.payload } exc).str with
    | none =>
      simp only [hstr] at hwhy
      obtain ⟨rfl, rfl⟩ := Machine.runs_raise_iff.mp hwhy
      obtain ⟨rfl, -⟩ := h
      exact .inr ⟨.inr (failureOf_str.mp hstr), hredis⟩
    | some msg =>
      simp only [hstr] at hwhy
      obtain ⟨rfl, rfl⟩ := Machine.runs_ret_iff.mp hwhy
      obtain ⟨w₇, r₇, hdl, h⟩ := Machine.runs_bind_iff.mp h
      obtain ⟨hredis₇, rfl⟩ := runs_deadLetter hdl
      obtain ⟨w₈, r₈, hst, h⟩ := Machine.runs_bind_iff.mp h
      obtain ⟨hredis₈, rfl⟩ := runs_noteStatus hst
      obtain ⟨rfl, -⟩ := Machine.runs_ret_iff.mp h
      have hprints : exc.str ≠ none := fun hn => by simp [failureOf_str.mpr hn] at hstr
      rw [hredis] at hredis₇
      refine .inl ⟨hbudget, hprints, _, _, ?_, hredis₈.trans hredis₇⟩
      rfl
  · rename_i hdlq
    have hbudget : job.attempts + 1 ≤ job.maxRetries := by simpa [Job.shouldDlq] using hdlq
    refine .inr ⟨.inl hbudget, ?_⟩
    obtain ⟨w₆, r₆, hdelay, h⟩ := Machine.runs_bind_iff.mp h
    have hredis₆ := runs_perform_redis_eq (by simp) hdelay
    cases r₆ with
    | error e =>
      rw [h.1]
      exact hredis₆.trans hredis
    | ok d =>
      obtain ⟨w₇, r₇, hst, h⟩ := Machine.runs_bind_iff.mp h
      obtain ⟨hredis₇, rfl⟩ := runs_noteStatus hst
      obtain ⟨rfl, -⟩ := Machine.runs_ret_iff.mp h
      exact hredis₇.trans (hredis₆.trans hredis)

end Execution

/-! ## The entry through all of this -/

section Entry

variable {t : RedisStreamTransport} {queue : String} {e : Redis.Entry Body} {w w' : World}

/-- The streams are well formed, and the id of the entry belongs to nothing else. -/
structure Keeps (t : RedisStreamTransport) (queue : String) (e : Redis.Entry Body) (w : World) :
    Prop where
  wf : w.redis.Wf
  id_le : e.id ≤ (w.redis (t.streamKey queue)).lastId
  only : ∀ e' ∈ (w.redis (t.streamKey queue)).entries, e'.id = e.id → e' = e

/-- The queue's group has acknowledged the entry. -/
def World.AckedIn (w : World) (t : RedisStreamTransport) (queue : String) (entryId : Nat) : Prop :=
  ∃ grp, (w.redis (t.streamKey queue)).groups (t.groupKey queue) = some grp ∧ grp.Acked entryId

omit [Codec] in
/-- A command of the program keeps the entry. -/
theorem Keeps.apply (h : Keeps t queue e w) {now n : Nat} {c : Redis.Cmd Body}
    (hc : c.fromStart) (hw : w'.redis = (w.redis.apply now n c).1) : Keeps t queue e w' := by
  obtain ⟨hmem, hle⟩ := w.redis.mem_of_mem_apply now n c (k := t.streamKey queue)
  refine ⟨hw ▸ h.wf.apply now n hc, by rw [hw]; exact h.id_le.trans hle, fun e' he' hid => ?_⟩
  rw [hw] at he'
  rcases hmem e' he' with he' | hlt
  · exact h.only e' he' hid
  · have := h.id_le
    omega

omit [Codec] in
/-- What stays on the server stays with the entry. -/
theorem Keeps.congr (h : Keeps t queue e w) (hw : w'.redis = w.redis) : Keeps t queue e w' := by
  obtain ⟨h₁, h₂, h₃⟩ := h
  exact ⟨hw ▸ h₁, hw ▸ h₂, hw ▸ h₃⟩

omit [Codec] in
/-- An answered command keeps the entry. -/
theorem Keeps.exec (h : Keeps t queue e w) {site : Nat} {a : Actor} {c : Redis.Cmd Body}
    {ans : Answer} {r : Except PyExc c.Res} (hc : c.fromStart)
    (hx : w.exec site a (.redis c) ans = some (w', r)) : Keeps t queue e w' := by
  rcases World.exec_redis hx with ⟨n, -, rfl, -⟩ | ⟨err, -, -, -, rfl⟩
  · exact h.apply hc rfl
  · exact h.congr rfl

omit [Codec] in
/-- Whatever happens meanwhile, the entry's id stays its own, what the group was given stays given,
and what it acknowledged stays acknowledged. -/
theorem Meanwhile.keeps (h : Meanwhile w w') (hk : Keeps t queue e w) :
    Keeps t queue e w' ∧ (w.Delivered t queue e.id → w'.Delivered t queue e.id) ∧
      (w.AckedIn t queue e.id → w'.AckedIn t queue e.id) := by
  induction h with
  | refl => exact ⟨hk, id, id⟩
  | @tail u v _ hstep ih =>
    obtain ⟨hu, hd, ha⟩ := ih
    have hd' : w.Delivered t queue e.id → v.Delivered t queue e.id := fun h =>
      hstep.le.delivered (hd h)
    rcases hstep.redis with ⟨a, c, n, r, hc, -, hredis, -⟩ | ⟨hredis, -⟩
    · refine ⟨hu.apply (hc c rfl) hredis, hd', fun h => ?_⟩
      obtain ⟨grp, hg, hack⟩ := ha h
      unfold World.AckedIn
      rw [hredis]
      exact Redis.Keyspace.apply_acked _ _ _ _ hg hack
    · refine ⟨hu.congr hredis, hd', fun h => ?_⟩
      unfold World.AckedIn
      rw [hredis]
      exact ha h

variable {raises : Set PyExc} {j : Job} {src : Source} {now : DateTime} {site : Nat} {a : Actor}
  {ds : List Delivery} {d : Delivery}

/-- **A delivery of the entry**: it carries the job of the stored entry, the group has been given
it, and had not acknowledged it. -/
theorem runs_read {reader : RedisStreamTransport} (hr : reader.streamPrefix = t.streamPrefix)
    {P : Op → Answer → Prop} (hP : ∀ c ans, P (.redis c) ans → ans.faultless = true)
    (hk : Keeps t queue e w) (hj : e.fields = RedisStreamTransport.jobBody j)
    (h : relay.Runs P site a w (src.read reader queue now) w' (.ok ds))
    (hd : d ∈ ds) (hid : d.entryId = e.id) :
    d.job.typed? = some j ∧ ¬ w.AckedIn t queue e.id ∧ w'.Delivered t queue e.id ∧
      Keeps t queue e w' := by
  have hkey := RedisStreamTransport.streamKey_congr hr queue
  have hgroup := RedisStreamTransport.groupKey_congr hr queue
  -- an entry that decodes to the delivery is the entry itself
  have hjob : ∀ e' ∈ (w.redis (t.streamKey queue)).entries, e'.id = d.entryId →
      reader.decodeEntry now e'.fields = .job d.job → d.job.typed? = some j := by
    intro e' he' hid' hdec
    obtain rfl := hk.only e' he' (hid'.trans hid)
    rw [hj, RedisStreamTransport.decodeEntry_jobBody] at hdec
    rw [← Decoded.job.inj hdec, RawJob.typed?_ofJob]
  cases src with
  | group workerId count blockMs =>
    simp only [Source.read, RedisStreamTransport.readGroup] at h
    split at h
    · exact absurd (Machine.runs_raise_iff.mp h).2 (by simp)
    obtain ⟨w₁, r, hx, hdec⟩ := Machine.runs_bind_iff.mp h
    obtain ⟨ans, hans, hx⟩ := Machine.runs_perform_iff.mp hx
    have hkeep : Keeps t queue e w₁ := hk.exec (by trivial) hx
    cases r with
    | error exc => exact absurd hdec.2 (by simp)
    | ok results =>
      obtain ⟨rfl, hds⟩ := Machine.runs_ofExcept_iff.mp hdec
      obtain ⟨p, hp, e', he', hid', hde⟩ := reader.mem_decodeReply hds.symm hd
      obtain ⟨grp, hg, hg', -, hres⟩ := World.exec_xreadgroup hx
      rw [hres p hp] at he'
      rw [hkey, hgroup] at hg hg'
      rw [hkey] at he'
      obtain ⟨hmem, hlt⟩ := Redis.Stream.mem_of_mem_deliver he'
      refine ⟨hjob e' hmem hid' hde, ?_, ⟨_, hg', ?_⟩, hkeep⟩
      · rintro ⟨grp', hg'', hack⟩
        obtain rfl := Option.some.inj (hg.symm.trans hg'')
        have := hack.1
        omega
      · rw [← hid, ← hid']
        exact ((hk.wf _).delivered_iff _ _ _ _ hmem).mpr (.inr he')
  | claim workerId minIdleMs count =>
    obtain ⟨w₁, r, hx, hdec⟩ := Machine.runs_bind_iff.mp h
    obtain ⟨ans, hans, hx⟩ := Machine.runs_perform_iff.mp hx
    have hkeep : Keeps t queue e w₁ := hk.exec (by trivial) hx
    have hle := World.exec_le hx
    obtain ⟨n, -, hr, rfl⟩ := World.exec_redis_faultless hx (hP _ _ hans)
    cases r with
    | error exc => exact absurd hdec.2 (by simp)
    | ok result =>
      obtain ⟨rfl, hds⟩ := Machine.runs_ofExcept_iff.mp hdec
      obtain ⟨-, e', he', hid', hde⟩ := reader.mem_decodeBatch hds.symm hd
      have hcount : count ≠ 0 := by
        rintro rfl
        simp [World.sendCmd, Redis.Keyspace.apply, Except.mapError] at hr
      cases hg : (w.redis (t.streamKey queue)).groups (t.groupKey queue) with
      | none => simp [World.sendCmd, Redis.Keyspace.apply, hkey, hgroup, hg, hcount,
          Except.mapError] at hr
      | some grp =>
        simp only [World.sendCmd, Redis.Keyspace.apply, hkey, hgroup, hg, hcount, if_false,
          Except.mapError, Except.ok.injEq] at hr
        rw [hr] at he'
        obtain ⟨id, hclaimed, hfind⟩ := List.mem_filterMap.mp he'
        have hmem := List.mem_of_find?_eq_some hfind
        obtain rfl : e'.id = id := by simpa using List.find?_some hfind
        obtain ⟨p, hp, hpid⟩ := List.mem_map.mp
          (Redis.claimScan_claimed_subset _ _ _ _ _ _ _ hclaimed)
        have hp := (List.dropWhile_sublist _).subset hp
        refine ⟨hjob e' hmem hid' hde, ?_, hle.delivered ⟨grp, hg, ?_⟩, hkeep⟩
        · rintro ⟨grp', hg', hack⟩
          obtain rfl := Option.some.inj (hg.symm.trans hg')
          exact hack.2 p hp (hpid.trans (hid'.trans hid))
        · rw [← hid, ← hid', ← hpid]
          exact ((hk.wf _).groups _ grp hg).pel_le p hp

/-- What dead-lettering does to the two streams. -/
theorem deadLettered_spec {x : RedisStreamTransport} (hx : x.streamPrefix = t.streamPrefix)
    {job : Job} {why : String} (hd : w.Delivered t queue e.id)
    (hw : w'.redis = deadLettered w.redis x queue e.id job why) :
    (w'.redis (t.dlqKey queue)).entries = (w.redis (t.dlqKey queue)).entries ++
        [⟨(w.redis (t.dlqKey queue)).lastId + 1, RedisStreamTransport.dlqBody job why⟩] ∧
      w'.AckedIn t queue e.id := by
  obtain ⟨grp, hg, hle⟩ := hd
  have hne : t.streamKey queue ≠ t.dlqKey queue := t.streamKey_ne_dlqKey queue queue
  rw [deadLettered_congr hx] at hw
  rw [World.AckedIn, hw]
  refine ⟨?_, { grp with pel := grp.pel.filter fun p => p.id ≠ e.id }, ?_, hle, fun p hp => ?_⟩
  · rw [deadLettered, Redis.Keyspace.apply_of_ne _ _ _ _ (show t.dlqKey queue ≠ Redis.Cmd.key
      (.xack (t.streamKey queue) (t.groupKey queue) e.id) from hne.symm)]
    simp [Redis.Keyspace.apply, Redis.Stream.append, Redis.Stream.evict]
  · simp [deadLettered, Redis.Keyspace.apply, Function.update_of_ne hne, hg, Redis.Stream.setGroup]
  · simpa using (List.mem_filter.mp hp).2

/-- **What a failed delivery comes to** for a job that was stored with no attempts made: with a
budget of zero and an exception that prints it dead-letters the job, else its execution leaves the
server alone. -/
theorem FailedDelivery.cases {w₁ w₂ : World} (hexc : ∀ exc ∈ raises, exc.isException = true)
    (h : FailedDelivery t queue raises e w w₁ w₂) (hk : Keeps t queue e w)
    (hj : e.fields = RedisStreamTransport.jobBody j) (h0 : j.attempts = 0) :
    ¬ w.AckedIn t queue e.id ∧ Keeps t queue e w₂ ∧ ∃ exc ∈ raises,
      (j.maxRetries < 1 ∧ exc.str ≠ none ∧ DeadLetters t queue e j (w₁, w₂)) ∨
      ((1 ≤ j.maxRetries ∨ exc.str = none) ∧ w₂.redis = w₁.redis) := by
  obtain ⟨src, reader, now, site, a, w₀, ds, d, job, x, site', a', out, hr, hx, hread, hd, hid,
    hjob, hmean, hexec⟩ := h
  obtain ⟨htyped, hna, hdel, hk₀⟩ := runs_read hr (fun _ _ hans => hans) hk hj hread hd hid
  obtain rfl := Option.some.inj (hjob.symm.trans htyped)
  obtain ⟨hk₁, hdel₁, -⟩ := hmean.keeps hk₀
  obtain ⟨exc, hexc', ⟨hb, hs, job', why, hid', hredis⟩ | ⟨hb, hredis⟩⟩ :=
    runs_execute_failing hexc hexec
  · rw [h0, Int.zero_add] at hb
    rw [hid] at hredis
    obtain ⟨hdlq, hack⟩ := deadLettered_spec hx (hdel₁ hdel) hredis
    have hmid : Keeps t queue e { w₁ with redis := (w₁.redis.apply 0 0
        (.xadd (x.transport.dlqKey queue) (RedisStreamTransport.dlqBody job' why) none)).1 } :=
      hk₁.apply (by trivial) rfl
    have hk₂ : Keeps t queue e w₂ := hmid.apply (by trivial) hredis
    exact ⟨hna, hk₂, exc, hexc', .inl ⟨hb, hs, ⟨_, job', why, hid', hdlq⟩, hack⟩⟩
  · rw [h0, Int.zero_add] at hb
    exact ⟨hna, hk₁.congr hredis, exc, hexc', .inr ⟨hb, hredis⟩⟩

/-- An acknowledged entry is delivered no more. -/
theorem Deliveries.nil_of_acked {ps : List (World × World)}
    (hexc : ∀ exc ∈ raises, exc.isException = true) (h : Deliveries t queue raises e w ps)
    (hk : Keeps t queue e w) (hj : e.fields = RedisStreamTransport.jobBody j)
    (h0 : j.attempts = 0) (ha : w.AckedIn t queue e.id) : ps = [] := by
  cases h with
  | nil => rfl
  | cons hm hd _ =>
    obtain ⟨hk', -, ha'⟩ := hm.keeps hk
    exact absurd (ha' ha) (hd.cases hexc hk' hj h0).1

omit [Codec] in
/-- What a program does, if it creates its groups at the start, is among what may happen. -/
theorem Meanwhile.of_runs {α : Type} {P : Op → Answer → Prop} {p : Py α} {out : Except PyExc α}
    (hp : p.Calls fun (o : Op) => ∀ c, o = .redis c → c.fromStart)
    (h : relay.Runs P site a w p w' out) : Meanwhile w w' := by
  obtain ⟨-, hmean, -⟩ := h.sound (R := fun (w₁ : World) (_ : Unit) => Meanwhile w w₁)
    (fun hR hg _ hx => hR.tail (.call hg hx)) .refl hp
  exact hmean

end Entry

/-! ## Sequences that keep coming -/

section Exists

variable {t : RedisStreamTransport} {queue : String} {j : Job} {w w' : World}

/-- The stream holds nothing but the entry, with id 1 and the job's body; `pel` is what its group
holds pending. -/
structure Alone (t : RedisStreamTransport) (queue : String) (j : Job) (pel : List
    Redis.PendingEntry) (w : World) : Prop where
  entries : (w.redis (t.streamKey queue)).entries = [⟨1, RedisStreamTransport.jobBody j⟩]
  group : (w.redis (t.streamKey queue)).groups (t.groupKey queue) = some ⟨pel.length, pel⟩

/-- A reply with the entry is a delivery of the entry. -/
theorem decodeBatch_alone (now : DateTime) (stream : String) :
    t.decodeBatch now stream [⟨1, RedisStreamTransport.jobBody j⟩] =
      .ok [⟨stream, 1, .ofJob j⟩] := by
  simp [RedisStreamTransport.decodeBatch, Except.map]

/-- A group read delivers the entry when it is new. -/
theorem Alone.read {P : Op → Answer → Prop} (hP : ∀ c, P (.redis c) (.ok 0)) (now : DateTime)
    (h : Alone t queue j [] w) : ∃ w' p, relay.Runs P 0 Actor.foreign w
        ((Source.group "1" 1 0).read t queue now) w'
        (.ok [⟨t.streamKey queue, 1, .ofJob j⟩]) ∧ p.id = 1 ∧ Alone t queue j [p] w' := by
  have hdel : (w.redis (t.streamKey queue)).deliver ⟨0, []⟩
      (RedisStreamTransport.consumerName "1") w.now 1 =
      (⟨1, [⟨1, RedisStreamTransport.consumerName "1", w.now⟩]⟩,
        [⟨1, RedisStreamTransport.jobBody j⟩]) := by
    simp [Redis.Stream.deliver, Redis.Stream.undelivered, h.entries]
  have hgroup := h.group
  have hres : (w.sendCmd (.xreadgroup (t.groupKey queue) (RedisStreamTransport.consumerName "1")
      (t.streamKey queue) 1 0) 0).2 =
      .ok [(t.streamKey queue, [⟨1, RedisStreamTransport.jobBody j⟩])] := by
    simp only [World.sendCmd, Redis.Keyspace.apply, hgroup, List.length_nil, hdel, Except.mapError]
    rfl
  obtain ⟨w₁, hx, hw₁⟩ : ∃ w₁, w.exec 0 .foreign (.redis (.xreadgroup (t.groupKey queue)
      (RedisStreamTransport.consumerName "1") (t.streamKey queue) 1 0)) (.ok 0) = some (w₁, _) ∧
      w₁.redis = (w.sendCmd _ 0).1.redis := ⟨_, World.exec_ok 0 .foreign rfl hres, rfl⟩
  refine ⟨w₁, ⟨1, RedisStreamTransport.consumerName "1", w.now⟩, Machine.runs_bind_iff.mpr
    ⟨w₁, _, Machine.runs_perform_iff.mpr ⟨.ok 0, hP _, hx⟩, ?_⟩, rfl, ?_, ?_⟩
  · refine Machine.runs_ofExcept_iff.mpr ⟨rfl, ?_⟩
    simp [RedisStreamTransport.decodeReply, decodeBatch_alone, bind, Except.bind, pure,
      Except.pure, Except.map]
  · simp [hw₁, World.sendCmd, Redis.Keyspace.apply, hgroup, hdel, Redis.Stream.setGroup, h.entries]
  · simp [hw₁, World.sendCmd, Redis.Keyspace.apply, hgroup, hdel, Redis.Stream.setGroup]

/-- A claim delivers the entry again while it is pending, whoever owns it and however short it has
been idle. -/
theorem Alone.claim {P : Op → Answer → Prop} (hP : ∀ c, P (.redis c) (.ok 0)) (now : DateTime)
    {p : Redis.PendingEntry} (hp : p.id = 1) (h : Alone t queue j [p] w) :
    ∃ w' p', relay.Runs P 0 Actor.foreign w
        ((Source.claim "1" 0 1).read t queue now) w'
        (.ok [⟨t.streamKey queue, 1, .ofJob j⟩]) ∧ p'.id = 1 ∧ Alone t queue j [p'] w' := by
  have hgroup := h.group
  have hent := h.entries
  have hres : (w.sendCmd (.xautoclaim (t.streamKey queue) (t.groupKey queue)
      (RedisStreamTransport.consumerName "1") 0 0 1) 0).2 =
      .ok (0, [⟨1, RedisStreamTransport.jobBody j⟩]) := by
    simp [World.sendCmd, Redis.Keyspace.apply, hgroup, hent, hp, Redis.claimScan, Except.mapError]
  obtain ⟨w₁, hx, hw₁⟩ : ∃ w₁, w.exec 0 .foreign (.redis (.xautoclaim (t.streamKey queue)
      (t.groupKey queue) (RedisStreamTransport.consumerName "1") 0 0 1)) (.ok 0) = some (w₁, _) ∧
      w₁.redis = (w.sendCmd _ 0).1.redis := ⟨_, World.exec_ok 0 .foreign rfl hres, rfl⟩
  refine ⟨w₁, ⟨1, RedisStreamTransport.consumerName "1", w.now⟩, Machine.runs_bind_iff.mpr
    ⟨w₁, _, Machine.runs_perform_iff.mpr ⟨.ok 0, hP _, hx⟩, ?_⟩, rfl, ?_, ?_⟩
  · exact Machine.runs_ofExcept_iff.mpr ⟨rfl, (decodeBatch_alone now _).symm⟩
  · simp [hw₁, World.sendCmd, Redis.Keyspace.apply, hgroup, Redis.Stream.setGroup, hent]
  · simp [hw₁, World.sendCmd, Redis.Keyspace.apply, hgroup, Redis.Stream.setGroup, hent, hp,
      Redis.claimScan]

omit [Codec] in
/-- An execution whose handler raises a given exception. -/
theorem responsive_failing (exc : PyExc) : relay.Responsive (Failing {exc}) := fun w site a o =>
  let ⟨ans, w', r, ⟨hf, hh⟩, hx⟩ := w.exists_answer ⟨.empty, some exc⟩ site a o
  ⟨ans, w', r, by
    cases o with
    | redis c => exact hf
    | handler job t => exact ⟨_, exc, rfl, hh job t rfl, rfl⟩
    | sql _ | monotonic | utcnow | metric _ | delay _ => trivial, hx⟩

variable {raises : Set PyExc} {exc : PyExc}

/-- A delivery that was read, executed with a handler that raises an exception which changes
nothing. -/
theorem Alone.execute (hexc : exc ∈ raises) (hisexc : exc.isException = true)
    (h0 : j.attempts = 0) (hquiet : 1 ≤ j.maxRetries ∨ exc.str = none) {src : Source}
    {now : DateTime} {w₀ : World} {pel : List Redis.PendingEntry}
    (hread : relay.Runs (Failing raises) 0 Actor.foreign w (src.read t queue now) w₀
      (.ok [⟨t.streamKey queue, 1, .ofJob j⟩])) (h : Alone t queue j pel w₀) :
    ∃ w₂, FailedDelivery t queue raises ⟨1, RedisStreamTransport.jobBody j⟩ w w₀ w₂ ∧
      w₂.redis = w₀.redis ∧ Alone t queue j pel w₂ := by
  obtain ⟨w₂, out, hr⟩ := (responsive_failing exc).exists_runs 0 Actor.foreign
    ((⟨t, false, ⟨300, "300.0"⟩⟩ : Executor).execute queue 1 j) w₀
  have hredis : w₂.redis = w₀.redis := by
    obtain ⟨e, he, ⟨hb, hs, -⟩ | ⟨-, hredis⟩⟩ := runs_execute_failing (by simpa using hisexc) hr
    · obtain rfl : e = exc := he
      rcases hquiet with hq | hq
      · omega
      · exact absurd hq hs
    · exact hredis
  have hmono : ∀ o ans, Failing {exc} o ans → Failing raises o ans := by
    intro o ans hans
    cases o with
    | handler job timeout =>
      obtain ⟨run, e, he, hrun⟩ := hans
      exact ⟨run, e, he ▸ hexc, hrun⟩
    | redis _ | sql _ | monotonic | utcnow | metric _ | delay _ => exact hans
  have hr' := hr.mono hmono
  refine ⟨w₂, ⟨src, t, now, 0, .foreign, w₀, _, _, j, _, 0, .foreign, out, rfl, rfl, hread,
    List.mem_singleton_self _, rfl, RawJob.typed?_ofJob j, .refl, hr'⟩, hredis, ?_, ?_⟩
  · rw [hredis, h.entries]
  · rw [hredis, h.group]

/-- A pending entry can be delivered any number of times, with executions that change nothing. -/
theorem Alone.deliveries (hexc : exc ∈ raises) (hisexc : exc.isException = true)
    (h0 : j.attempts = 0) (hquiet : 1 ≤ j.maxRetries ∨ exc.str = none) (n : Nat)
    {p : Redis.PendingEntry} (hp : p.id = 1) (h : Alone t queue j [p] w) :
    ∃ ps, Deliveries t queue raises ⟨1, RedisStreamTransport.jobBody j⟩ w ps ∧ ps.length = n ∧
      ∀ q ∈ ps, q.2.redis = q.1.redis := by
  induction n generalizing w p with
  | zero => exact ⟨[], .nil, rfl, by simp⟩
  | succ n ih =>
    obtain ⟨w₀, p', hread, hp', h'⟩ := h.claim (P := Failing raises) (fun _ => rfl) j.createdAt hp
    obtain ⟨w₂, hd, hredis, h₂⟩ := h'.execute hexc hisexc h0 hquiet hread
    obtain ⟨ps, hps, hlen, hq⟩ := ih hp' h₂
    exact ⟨_, .cons .refl hd hps, by simp [hlen], List.forall_mem_cons.mpr ⟨hredis, hq⟩⟩

/-- The server after a group was created and a job enqueued. -/
def enqueuedWorld (t : RedisStreamTransport) (queue : String) (j : Job) : World :=
  { World.init with redis := ((World.init.redis.apply 0 0 (.xgroupCreate (t.streamKey queue)
    (t.groupKey queue) 0)).1.apply 0 0 (.xadd (t.streamKey queue)
      (RedisStreamTransport.jobBody j) none)).1 }

/-- The job is alone on its queue. -/
theorem enqueuedWorld_spec (t : RedisStreamTransport) (queue : String) (j : Job) :
    (enqueuedWorld t queue j).redis.Wf ∧
    Alone t queue j [] (enqueuedWorld t queue j) := by
  have hwf : World.init.redis.Wf := fun _ => Redis.Stream.wf_empty
  refine ⟨(hwf.apply 0 0 (by rfl)).apply 0 0 (by trivial), ?_, ?_⟩ <;>
    simp [enqueuedWorld, World.init, Redis.Keyspace.apply, Redis.Stream.empty,
      Redis.Stream.setGroup, Redis.Stream.append, Redis.Stream.evict]

end Exists

/-- A job with retries, or whose handler raises what does not print, is not dead-lettered when its
budget is used up. -/
theorem not_retryBudget {raises : Set PyExc} {j : Job} {exc : PyExc} (hexc : exc ∈ raises)
    (hisexc : exc.isException = true) (h0 : j.attempts = 0) (hm : 0 ≤ j.maxRetries)
    (hquiet : 1 ≤ j.maxRetries ∨ exc.str = none) : ¬ RetryBudget raises j := by
  intro h
  let t : RedisStreamTransport := ⟨"relayq", false⟩
  obtain ⟨hwf, halone⟩ := enqueuedWorld_spec t "default" j
  obtain ⟨w₀, p, hread, hp, h₁⟩ := halone.read (P := Failing raises) (fun _ => rfl) j.createdAt
  obtain ⟨w₂, hd, hredis, h₂⟩ := h₁.execute hexc hisexc h0 hquiet hread
  obtain ⟨ps, hps, hlen, hq⟩ := h₂.deliveries hexc hisexc h0 hquiet j.maxRetries.toNat hp
  obtain ⟨hall, -⟩ := h t "default" ⟨1, RedisStreamTransport.jobBody j⟩ _ _ hwf
    (by rw [halone.entries]; simp) rfl
    (fun grp hg => by
      obtain rfl := Option.some.inj (halone.group.symm.trans hg)
      exact Nat.zero_lt_one) (.cons .refl hd hps)
  -- the execution that should dead-letter the job changes nothing
  obtain ⟨q, hq'⟩ : ∃ q, ((w₀, w₂) :: ps)[j.maxRetries.toNat]? = some q :=
    ⟨_, List.getElem?_eq_getElem (by simp [hlen])⟩
  have hdl := hall _ q hq'
  rw [if_pos (Int.toNat_of_nonneg hm)] at hdl
  have hsame : q.2.redis = q.1.redis := by
    rcases List.mem_cons.mp (List.mem_of_getElem? hq') with rfl | hmem
    · exact hredis
    · exact hq q hmem
  obtain ⟨⟨id, j', why, -, hent⟩, -⟩ := hdl
  rw [hsame] at hent
  simpa using congrArg List.length hent

/-- **When the retry budget is kept**: for a job enqueued with no attempts made, whose handler may
raise certain exceptions and nothing else, exactly if its budget is zero and they all print. With a
larger budget it is never dead-lettered, however often it is delivered and fails. -/
theorem retryBudget_iff {raises : Set PyExc} {j : Job} (hne : raises.Nonempty)
    (hexc : ∀ e ∈ raises, e.isException = true) (h0 : j.attempts = 0) (hm : 0 ≤ j.maxRetries) :
    RetryBudget raises j ↔ j.maxRetries = 0 ∧ ∀ e ∈ raises, e.str ≠ none := by
  constructor
  · intro h
    have hz : j.maxRetries = 0 := by
      by_contra hz
      obtain ⟨e, he⟩ := hne
      exact not_retryBudget he (hexc e he) h0 hm (.inl (by omega)) h
    exact ⟨hz, fun e he hs => not_retryBudget he (hexc e he) h0 hm (.inr hs) h⟩
  · rintro ⟨hz, hprint⟩ t queue e w ps hwf he hj hfresh hps
    have hk : Keeps t queue e w := ⟨hwf, (hwf _).ids_le e he, fun e' he' hid =>
      (hwf _).eq_of_id_eq he' he hid⟩
    cases hps with
    | nil => exact ⟨by simp, by simp [hz]⟩
    | cons hm' hd hrest =>
      obtain ⟨-, hk₂, exc, hexc', ⟨-, -, hdl⟩ | ⟨hq, -⟩⟩ :=
        hd.cases hexc (hm'.keeps hk).1 hj h0
      · obtain rfl := hrest.nil_of_acked hexc hk₂ hj h0 hdl.2
        refine ⟨fun i p hp => ?_, by simp [hz]⟩
        obtain ⟨rfl, rfl⟩ : i = 0 ∧ p = _ := by
          cases i with
          | zero => exact ⟨rfl, (Option.some.inj hp).symm⟩
          | succ i => simp at hp
        rw [if_pos (by simp [hz])]
        exact hdl
      · rcases hq with hq | hq
        · omega
        · exact absurd hq (hprint exc hexc')

end

/-- A job without retries whose handler raises a `ValueError`. -/
theorem retryBudget_zero :
    RetryBudget {.other "ValueError" (some "boom")} { Sample.job with maxRetries := 0 } :=
  (retryBudget_iff (Set.singleton_nonempty _) (by rintro e rfl; rfl) rfl le_rfl).mpr
    ⟨rfl, by rintro e rfl; simp [PyExc.str]⟩

/-- A job with one retry whose handler raises a `ValueError`: its budget is not kept. -/
theorem not_retryBudget_one :
    ¬ RetryBudget {.other "ValueError" (some "boom")} { Sample.job with maxRetries := 1 } :=
  not_retryBudget (Set.mem_singleton _) rfl rfl (by decide) (.inl le_rfl)

end RelayQ

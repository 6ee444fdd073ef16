import RelayQ.Infrastructure.RedisStream
import RelayQ.Infrastructure.SqliteStore
import RelayQ.Program.Pool

/-! # Executing a job

Run the handler, acknowledge on success, route to retry or to the dead-letter queue on failure.
Programs return the job as they leave it: it is the caller's object.

* `Executor.execute`: the code.
* `executeMonitor`, `Executor.wp_execute`: what one call acknowledges, appends and declares dead.
* `executePool`: any number of concurrent calls. -/

namespace RelayQ

/-- The executor: its transport, whether it has an outbox store, and the job timeout. -/
structure Executor where
  transport : RedisStreamTransport
  store : Bool := false
  jobTimeout : Seconds := ⟨300, "300.0"⟩

namespace Executor

variable [Codec] (x : Executor)

/-- `try: p except Exception: log` -/
def logged {α : Type} (p : Py α) : Py Unit :=
  (p.bind fun _ => .ret ()).tryExcept fun e => if e.isException then .ret () else .raise e

/-- A status update of the outbox, its failure logged; without a store there is none. -/
def noteStatus (jobId : String) (status : JobStatus) (attempt : Option Int) : Py Unit :=
  if x.store then logged (SqliteStore.updateStatus jobId status attempt) else .ret ()

/-- Record an outcome or a duration. -/
def metric (m : Metric) : Py Unit := perform (.metric m)

/-- Observe the time since `start`. -/
def observeElapsed (kind : String) (start : Nat) : Py Unit :=
  (perform .monotonic).bind fun (now : Nat) =>
    metric (.processingSeconds kind (now - start))

/-- `f"{type(exc).__name__}: {exc}"`; raises when `str(exc)` does. -/
def reason (exc : PyExc) : Py String :=
  match exc.str with
  | some msg => .ret (exc.className ++ ": " ++ msg)
  | none => .raise (.other "TypeError" (some "__str__ failed"))

/-- Append to the dead-letter queue, then acknowledge, then count; a failure of any of them is
logged and ends the sequence. -/
def deadLetter (queue : String) (entryId : Nat) (job : Job) (why : String) : Py Unit :=
  logged ((x.transport.xaddDlq queue job why).bind fun _ =>
    (x.transport.xack queue entryId).bind fun _ => metric (.deadLetter job.kind))

/-- Route a failed job to retry or to the dead-letter queue. -/
def handleFailure (queue : String) (entryId : Nat) (job : Job) (exc : PyExc) : Py Job :=
  let job := { job with attempts := job.attempts + 1 }
  (metric (.deliveryAttempts job.kind false)).bind fun _ =>
    if job.shouldDlq then
      (reason exc).bind fun why =>
        (x.deadLetter queue entryId job why).bind fun _ =>
          (x.noteStatus job.id .dead none).bind fun _ => .ret job
    else
      -- the delay is only logged: the entry stays pending and is not acknowledged
      (perform (.delay (job.attempts - 1))).bind fun _ =>
        (x.noteStatus job.id .failed (some job.attempts)).bind fun _ => .ret job

/-- Acknowledge and record a success. -/
def handleSuccess (queue : String) (entryId : Nat) (job : Job) : Py Job :=
  (logged (x.transport.xack queue entryId)).bind fun _ =>
    (x.noteStatus job.id .completed none).bind fun _ =>
      (metric (.deliveryAttempts job.kind true)).bind fun _ => .ret job

/-- The exception a failed handler run is routed with: a timeout, whoever raised it, becomes a
`JobTimeout`. -/
def failureOf (job : Job) : PyExc → PyExc
  | .timeoutError => .jobTimeout job.id x.jobTimeout
  | e => e

/-- Execute a single job: run the handler, acknowledge on success, dead-letter on failure. A
cancellation passes through. -/
def execute (queue : String) (entryId : Nat) (job : Job) : Py Job :=
  (x.noteStatus job.id .processing (some job.attempts)).bind fun _ =>
    (perform .monotonic).bind fun start =>
      (perform (.handler job x.jobTimeout)).bind fun run =>
        let job := { job with payload := run.payload }
        -- the handler may have changed the payload of the job it was given
        match run.raised with
        | none =>
          (observeElapsed job.kind start).bind fun _ => x.handleSuccess queue entryId job
        | some e =>
          if e.isException then
            (observeElapsed job.kind start).bind fun _ =>
              x.handleFailure queue entryId job (x.failureOf job e)
          -- `CancelledError`: neither acknowledged nor counted
          else .raise e

/-! ## What an execution calls -/

omit [Codec] in
/-- Rule for a logged program. -/
@[simp] theorem wp_logged {α M : Type} {mon : Monitor RelaySig M} {p : Py α}
    {Q : Except PyExc Unit → M → Prop} {m : M} :
    (logged p).wp mon Q m ↔ p.wp mon (fun r m' => match r with
      | .ok _ => Q (.ok ()) m'
      | .error e => if e.isException then Q (.ok ()) m' else Q (.error e) m') m := by
  simp only [logged, Prog.wp_tryExcept, Prog.wp_bind]
  refine iff_of_eq (congrArg (fun R => Prog.wp mon p R m) ?_)
  funext r m'
  cases r with
  | ok a => rfl
  | error e =>
    simp only [apply_ite (fun p : Py Unit => p.wp mon Q m'), Prog.wp_ret, Prog.wp_raise]

variable {x} {ok : Op → Prop}

omit [Codec] in
/-- Logging calls nothing. -/
theorem calls_logged {α : Type} {p : Py α} (hp : p.Calls ok) : (logged p).Calls ok := by
  refine Prog.Calls.tryExcept (hp.bind fun _ => .ret ()) fun e => ?_
  split
  · exact .ret ()
  · exact .raise e

omit [Codec] in
/-- A status update calls the store. -/
theorem calls_noteStatus {id : String} {status : JobStatus} {attempt : Option Int}
    (hsql : ∀ s, ok (.sql s)) : (x.noteStatus id status attempt).Calls ok := by
  unfold noteStatus
  split
  · exact calls_logged (.perform (hsql _))
  · exact .ret ()

/-- Dead-lettering calls Redis and counts. -/
theorem calls_deadLetter {queue : String} {entryId : Nat} {job : Job} {why : String}
    (hredis : ∀ c, ok (.redis c)) (hmetric : ∀ m, ok (.metric m)) :
    (x.deadLetter queue entryId job why).Calls ok := by
  refine calls_logged (.bind (.perform (hredis _)) fun _ => ?_)
  exact .bind (.perform (hredis _)) fun _ => .perform (hmetric _)

omit [Codec] in
/-- Measuring the time reads the clock and observes. -/
theorem calls_observeElapsed {kind : String} {start : Nat} (hclock : ok .monotonic)
    (hmetric : ∀ m, ok (.metric m)) : (observeElapsed kind start).Calls ok :=
  .bind (.perform hclock) fun _ => .perform (hmetric _)

end Executor

/-- Does this answer to a call of `execute` justify acknowledging its entry? The handler returned,
or the entry's job is in the dead-letter queue. -/
def justifying : (o : Op) → Except PyExc o.Res → Bool
  | .handler _ _, .ok run => (HandlerRun.raised run).isNone
  | .redis (.xadd _ _ _), .ok _ => true
  | _, _ => false

/-- Does `execute` go on after this answer as if its job were in the dead-letter queue? -/
def deadLettering : (o : Op) → Except PyExc o.Res → Bool
  | .redis (.xadd _ _ _), .ok _ => true
  | .redis (.xadd _ _ _), .error e => e.isException
  | _, _ => false

/-- How far an `execute` has come. -/
structure ExecPhase where
  /-- Its acknowledgement is justified. -/
  just : Bool := false
  /-- It goes on as if its job were in the dead-letter queue. -/
  dlqed : Bool := false

/-- The Redis commands an `execute` of an entry may send, given whether its acknowledgement is
justified: it acknowledges its own entry once that is justified, and appends its own job to the
dead-letter queue. -/
def executeGuard [Codec] (t : RedisStreamTransport) (queue : String) (entryId : Nat)
    (jobId : String) (just : Bool) : Redis.Cmd Body → Prop
  | .xack k g id => just = true ∧ k = t.streamKey queue ∧ g = t.groupKey queue ∧ id = entryId
  | .xadd k body lim => k = t.dlqKey queue ∧ lim = none ∧
      ∃ job why, body = RedisStreamTransport.dlqBody job why ∧ job.id = jobId
  | _ => False

/-- The statements an `execute` may run: it updates the status, to `DEAD` only of its own job and
only past the dead-letter append. -/
def statusGuard (jobId : String) (dlqed : Bool) : Stmt → Prop
  | .update id status _ => status = .dead → dlqed = true ∧ id = jobId
  | _ => False

/-- Watches an `execute`. -/
def executeMonitor [Codec] (t : RedisStreamTransport) (queue : String) (entryId : Nat)
    (jobId : String) : Monitor RelaySig ExecPhase where
  guard ph
    | .redis c => executeGuard t queue entryId jobId ph.just c
    | .sql s => statusGuard jobId ph.dlqed s
    | _ => True
  next ph o r := ⟨ph.just || justifying o r, ph.dlqed || deadLettering o r⟩

namespace Executor

variable [Codec] (x : Executor) (queue : String) (entryId : Nat) (jobId : String) (ph : ExecPhase)

/-- A status update sends no command. -/
theorem wp_noteStatus (id : String) (status : JobStatus) (attempt : Option Int)
    (hdead : status = .dead → ph.dlqed = true ∧ id = jobId) :
    (x.noteStatus id status attempt).wp (executeMonitor x.transport queue entryId jobId)
      (fun _ ph' => ph' = ph) ph := by
  unfold noteStatus
  split
  · refine wp_logged.mpr ⟨hdead, fun r => ?_⟩
    cases r <;> simp [Prog.ofExcept, executeMonitor, justifying, deadLettering]
  · rfl

/-- Measuring the time sends no command. -/
theorem wp_observeElapsed (kind : String) (start : Nat) :
    (observeElapsed kind start).wp (executeMonitor x.transport queue entryId jobId)
      (fun _ ph' => ph' = ph) ph := by
  refine Prog.wp_perform_bind trivial (fun now => ⟨trivial, fun r => ?_⟩) fun e => ?_
  · cases r <;> simp [Prog.ofExcept, executeMonitor, justifying, deadLettering]
  · simp [executeMonitor, justifying, deadLettering]

/-- Dead-lettering appends the job before it acknowledges; a failure of the append is passed
over. -/
theorem wp_deadLetter (job : Job) (why : String) (hj : job.id = jobId) :
    (x.deadLetter queue entryId job why).wp (executeMonitor x.transport queue entryId jobId)
      (fun r ph' => r = .ok () → ph'.dlqed = true) ph := by
  refine wp_logged.mpr (Prog.wp_mono (Q := fun r ph' => match r with
    | .ok _ => ph'.dlqed = true
    | .error e => e.isException = true → ph'.dlqed = true) _ (fun r ph' h => ?_) ?_)
  · cases r with
    | ok u => exact fun _ => h
    | error e =>
      dsimp only
      split
      · exact fun _ => h ‹_›
      · exact fun he => by cases he
  · refine Prog.wp_perform_bind ⟨rfl, rfl, job, why, rfl, hj⟩ (fun id => ?_) fun e he => ?_
    · refine Prog.wp_perform_bind ⟨?_, rfl, rfl, rfl⟩ (fun n => ?_) fun e _ => ?_
      · simp [executeMonitor, justifying]
      · exact ⟨trivial, fun r => by cases r <;> simp [Prog.ofExcept, executeMonitor, deadLettering]⟩
      · simp [executeMonitor, deadLettering]
    · simp [executeMonitor, deadLettering, he]

/-- A failing job is acknowledged, and made dead, for a reason. -/
theorem wp_handleFailure (job : Job) (exc : PyExc) (hj : job.id = jobId) :
    (x.handleFailure queue entryId job exc).wp (executeMonitor x.transport queue entryId jobId)
      (fun _ _ => True) ph := by
  refine Prog.wp_perform_bind trivial (fun _ => ?_) fun _ => trivial
  split
  · refine Prog.wp_bind_of (R := fun _ _ => True) ?_ (fun why m _ => ?_) (fun _ _ _ => trivial)
    · unfold reason
      split <;> trivial
    · refine Prog.wp_bind_of (wp_deadLetter x queue entryId jobId m _ why hj) (fun _ m hm => ?_)
        (fun _ _ _ => trivial)
      exact Prog.wp_bind_of (wp_noteStatus x queue entryId jobId m _ _ _ fun _ => ⟨hm rfl, hj⟩)
        (fun _ _ _ => trivial) (fun _ _ _ => trivial)
  · refine Prog.wp_perform_bind trivial (fun _ => ?_) fun _ => trivial
    exact Prog.wp_bind_of (wp_noteStatus x queue entryId jobId _ _ _ _ fun h => by cases h)
      (fun _ _ _ => trivial) (fun _ _ _ => trivial)

/-- A success acknowledges, which it may only once that is justified. -/
theorem wp_handleSuccess (job : Job) (hj : ph.just = true) :
    (x.handleSuccess queue entryId job).wp (executeMonitor x.transport queue entryId jobId)
      (fun _ _ => True) ph := by
  refine Prog.wp_bind_of (R := fun _ _ => True) ?_ (fun _ m _ => ?_) (fun _ _ _ => trivial)
  · refine wp_logged.mpr ⟨⟨hj, rfl, rfl, rfl⟩, fun r => ?_⟩
    cases r <;> simp [Prog.ofExcept]
  · refine Prog.wp_bind_of (wp_noteStatus x queue entryId jobId m _ _ _ fun h => by cases h)
      (fun _ _ _ => ?_) (fun _ _ _ => trivial)
    exact Prog.wp_perform_bind trivial (fun _ => trivial) fun _ => trivial

/-- **An `execute` acknowledges only its own entry, and only once its handler returned or its job
was appended to the dead-letter queue; the only entries it adds are dead letters of its job, and
past such an append it may declare the job dead.** -/
theorem wp_execute (job : Job) :
    (x.execute queue entryId job).wp (executeMonitor x.transport queue entryId job.id)
      (fun _ _ => True) ph := by
  refine Prog.wp_bind_of (wp_noteStatus x queue entryId job.id ph _ _ _ fun h => by cases h)
    (fun _ m _ => ?_) (fun _ _ _ => trivial)
  refine Prog.wp_perform_bind trivial (fun start => ?_) fun _ => trivial
  refine Prog.wp_perform_bind trivial (fun (run : HandlerRun) => ?_) fun _ => trivial
  dsimp only
  split
  · rename_i hr
    refine Prog.wp_bind_of (wp_observeElapsed x queue entryId job.id _ _ _) (fun _ m hm => ?_)
      (fun _ _ _ => trivial)
    exact wp_handleSuccess x queue entryId job.id m _
      (by simp [hm, executeMonitor, justifying, hr])
  · split
    · refine Prog.wp_bind_of (wp_observeElapsed x queue entryId job.id _ _ _)
        (fun _ m _ => ?_) (fun _ _ _ => trivial)
      exact wp_handleFailure x queue entryId job.id _ _ _ rfl
    · trivial

end Executor

/-! ## Concurrent calls -/

/-- One call of `execute`: the executor it is made on and its arguments. -/
structure ExecCall where
  executor : Executor
  queue : String
  entryId : Nat
  job : Job

/-- Calls of `execute`, running concurrently. -/
def executePool [Codec] : PoolSpec relay ExecCall Job where
  code c := c.executor.execute c.queue c.entryId c.job
  actor n c := .executor 0 n c.queue c.entryId

end RelayQ

import RelayQ.Application.Execute
import RelayQ.Application.Recover
import RelayQ.Worker.Admission

/-! # The worker

`WorkerRunner.run` as a state machine: the polling loop, the job tasks it spawns and the recovery
task beside it, each advancing from one `await` to the next. One step of a `Worker` is what the
event loop does between two suspensions.

* `LoopPc`, `TaskPc`, `RecoveryPc`: where the loop, a job task and the recovery task wait.
* `Worker`: the runner with its semaphore, its tasks and its shutdown flag.
* `WorkerLabel`, `Worker.step`: the steps and what each does to worker and world.

A task can be cancelled at any of its awaits, also before its first step; the drain at the end of
`run` is one of those who do so. -/

namespace RelayQ

/-- The worker runner: its parts and its limits. -/
structure WorkerRunner where
  transport : RedisStreamTransport
  executor : Executor
  workerId : String
  queue : String
  admission : Option AdmissionController := none
  recovery : Option RecoveryWorker := none
  maxConcurrency : Nat := 10
  pollTimeoutMs : Nat := 2000
  pollBatch : Nat := 1

/-- Where the polling loop waits. -/
inductive LoopPc
  /-- `ensure_group`, before the loop -/
  | ensuring
  /-- `admission.check` -/
  | checking
  /-- `transport.read_group` -/
  | polling
  /-- `asyncio.sleep(1)`, until this time -/
  | sleeping (wakeAt : Nat)
  /-- `semaphore.acquire()` for the first of these deliveries -/
  | acquiring (d : Delivery) (rest : List Delivery)
  /-- The recovery task, cancelled, after the loop. -/
  | joining
  /-- The drain of these tasks, up to this time. -/
  | draining (inflight : List Nat) (deadline : Nat)
  /-- The cancelled rest of the drain, up to this time. -/
  | cancelling (pending : List Nat) (deadline : Nat)
  /-- `run` has ended. -/
  | stopped

/-- Where a job task waits. -/
inductive TaskPc
  /-- Created, not started. -/
  | created
  /-- Within `_process_job`. -/
  | running (p : Py Unit)
  /-- Over, its done-callback outstanding. -/
  | ended
  /-- Over, and out of the inflight set. -/
  | discarded

/-- A job task. -/
structure Task where
  delivery : Delivery
  pc : TaskPc

/-- Where the recovery task waits. -/
inductive RecoveryPc
  /-- `_claim_stale` -/
  | claiming
  /-- `asyncio.sleep(CLAIM_INTERVAL)`, until this time -/
  | sleeping (wakeAt : Nat)
  /-- There is no such task, or it is over. -/
  | ended

/-- A worker process. -/
structure Worker where
  runner : WorkerRunner
  /-- The thread it runs on. -/
  site : Nat
  /-- It has not crashed. -/
  alive : Bool := true
  loop : LoopPc := .ensuring
  recovery : RecoveryPc := .ended
  /-- Every task ever created; a task keeps its place. -/
  tasks : List Task := []
  /-- Free permits of the semaphore. -/
  permits : Nat
  /-- The shutdown event is set. -/
  shutdown : Bool := false
  /-- The last value given to `observe_worker_inflight`. -/
  gauge : Option Nat := none

/-- What a worker does next. -/
inductive WorkerLabel
  /-- The call the loop awaits is answered; `now` is the wall clock. -/
  | loop (ans : Answer) (now : DateTime)
  /-- The loop wakes from its sleep. -/
  | wake
  /-- The loop gets its permit and spawns a task. -/
  | acquire
  /-- `run` is cancelled while it sleeps, waits for a permit or drains. -/
  | cancelLoop
  /-- A task takes its first step. -/
  | startTask (i : Nat)
  /-- The call a task awaits is answered. -/
  | task (i : Nat) (ans : Answer)
  /-- A task is cancelled before its first step. -/
  | cancelTask (i : Nat)
  /-- The done-callback of a task runs. -/
  | callback (i : Nat)
  /-- The claim of the recovery task is answered. -/
  | recovery (ans : Answer) (now : DateTime)
  /-- The recovery task wakes from its sleep. -/
  | wakeRecovery
  /-- The recovery task is cancelled in its sleep. -/
  | cancelRecovery
  /-- `shutdown.request()` -/
  | requestShutdown
  /-- The end of `run` gets on: recovery task joined, drain over, or its time up. -/
  | drain

namespace TaskPc

/-- The task is over. -/
def isOver : TaskPc → Bool
  | ended | discarded => true
  | created | running _ => false

end TaskPc

namespace WorkerRunner

variable [Codec] (r : WorkerRunner)

/-- `_process_job` up to the release of its permit. Streams hold no job some attribute of which
has another type than it is declared with, so `none` does not occur. -/
def processJob (d : Delivery) : Py Unit :=
  match d.job.typed? with
  | some job => Executor.logged (r.executor.execute r.queue d.entryId job)
  | none => .ret ()

/-- A worker process that calls `run` on a thread. -/
def spawn (site : Nat) : Worker := { runner := r, site, permits := r.maxConcurrency }

end WorkerRunner

namespace Worker

variable (w : Worker)

/-- The tasks of the inflight set. -/
def inflight : List Nat :=
  -- a task stays in the set until its done-callback has run
  (List.range w.tasks.length).filter fun i =>
    match (w.tasks[i]?).map Task.pc with
    | some .discarded | none => false
    | _ => true

/-- Is the task over? -/
def taskOver (i : Nat) : Bool := ((w.tasks[i]?).map fun t => t.pc.isOver).getD true

/-- The head of the loop: stop when shutdown is requested, else check admission, else poll. -/
def headPc : LoopPc :=
  if w.shutdown then .joining
  else if w.runner.admission.isSome then .checking
  else .polling

/-- Where the loop goes with a batch of deliveries. -/
def batchPc : List Delivery → LoopPc
  | [] => w.headPc
  | d :: rest => .acquiring d rest

/-- `asyncio.sleep(1)` -/
def pausePc (now : Nat) : LoopPc := .sleeping (now + 1000)

/-- Replace the state of a task. -/
def setTask (i : Nat) (pc : TaskPc) : Worker :=
  { w with tasks := w.tasks.modify i fun t => { t with pc := pc } }

/-- Spawn a job task with a permit just acquired, and go on with the rest of the batch. -/
def spawnTask (d : Delivery) (rest : List Delivery) : Worker :=
  let w' := { w with tasks := w.tasks ++ [Task.mk d .created] }
  { w' with permits := w.permits - 1, gauge := some w'.inflight.length, loop := w.batchPc rest }

/-- A task continues with a program; at its end it releases its permit and observes the gauge. -/
def settle (i : Nat) (p : Py Unit) : Worker :=
  match p.outcome with
  | none => w.setTask i (.running p)
  -- the `finally`, in which the task is still one of the inflight set
  | some _ =>
    let w' := w.setTask i .ended
    { w' with permits := w.permits + 1, gauge := some w'.inflight.length }

/-- The recovery task `run` starts, if it is configured to. -/
def initRecovery : RecoveryPc := if w.runner.recovery.isSome then .claiming else .ended

/-! ## The loop -/

/-- After `ensure_group`. An exception ends `run`. -/
def afterEnsure : Except PyExc Unit → Worker
  | .ok _ => { w with recovery := w.initRecovery, loop := w.headPc }
  | .error _ => { w with loop := .stopped }

/-- After `admission.check`: whatever it raised short of a cancellation pauses the loop. -/
def afterCheck (now : Nat) : Except PyExc Unit → LoopPc
  | .ok _ => .polling
  -- a cancellation is no `Exception`: it ends the loop
  | .error e => if e.isException then pausePc now else .joining

/-- After `read_group`. -/
def afterPoll (now : Nat) : Except PyExc (List Delivery) → LoopPc
  | .ok jobs => w.batchPc jobs
  | .error e => if e.isException then pausePc now else .joining

/-- After `_claim_stale`: whatever it raised short of a cancellation is logged. -/
def afterClaim (now : Nat) : Except PyExc Unit → RecoveryPc
  | .ok _ => .sleeping (now + RecoveryWorker.claimInterval)
  | .error e => if e.isException then .sleeping (now + RecoveryWorker.claimInterval) else .ended

variable [Codec]

/-- The call the loop awaits is answered. -/
def stepLoop (me : Nat) (s : World) (ans : Answer) (now : DateTime) : Option (World × Worker) :=
  match w.loop with
  | .ensuring =>
    (relay.await s w.site (.runner me) (w.runner.transport.ensureGroup w.runner.queue) ans).map
      fun r => (r.1, w.afterEnsure r.2)
  | .checking =>
    match w.runner.admission with
    | some c =>
      (relay.await s w.site (.runner me) (c.check w.runner.queue) ans).map
        fun r => (r.1, { w with loop := afterCheck s.now r.2 })
    | none => none
  | .polling =>
    (relay.await s w.site (.runner me) (w.runner.transport.readGroup w.runner.queue
      w.runner.workerId w.runner.pollBatch w.runner.pollTimeoutMs now) ans).map
      fun r => (r.1, { w with loop := w.afterPoll s.now r.2 })
  | _ => none

/-- The end of `run`: `drain_timeout` is 30 s, a cancelled rest gets 5 s. -/
def stepDrain (s : World) : Option Worker :=
  match w.loop, w.recovery with
  | .joining, .ended =>
    some { w with loop := if w.inflight = [] then .stopped
                          else .draining w.inflight (s.now + 30000) }
  -- those that are left when the time is up are cancelled, and waited for once more
  | .draining ts deadline, _ =>
    if ts.all w.taskOver then some { w with loop := .stopped }
    else if deadline ≤ s.now then
      some { w with loop := .cancelling (ts.filter fun i => !w.taskOver i) (s.now + 5000) }
    else none
  | .cancelling ts deadline, _ =>
    if ts.all w.taskOver ∨ deadline ≤ s.now then some { w with loop := .stopped } else none
  | _, _ => none

/-! ## Tasks -/

/-- A task takes its first step. -/
def stepStart (i : Nat) : Option Worker :=
  match w.tasks[i]? with
  | some ⟨d, .created⟩ => some (w.settle i (w.runner.processJob d))
  | _ => none

/-- The call a task awaits is answered. -/
def stepTask (me : Nat) (s : World) (i : Nat) (ans : Answer) : Option (World × Worker) :=
  match w.tasks[i]? with
  | some ⟨d, .running p⟩ =>
    (relay.step s w.site (.executor me i w.runner.queue d.entryId) p ans).map
      fun r => (r.1, w.settle i r.2)
  | _ => none

/-- A task is cancelled before its first step: nothing of it runs, its permit stays taken. -/
def stepCancelTask (i : Nat) : Option Worker :=
  match w.tasks[i]? with
  | some ⟨_, .created⟩ => some (w.setTask i .ended)
  | _ => none

/-- `self._inflight.discard` -/
def stepCallback (i : Nat) : Option Worker :=
  match w.tasks[i]? with
  | some ⟨_, .ended⟩ => some (w.setTask i .discarded)
  | _ => none

/-! ## Recovery -/

/-- The claim of the recovery task is answered. -/
def stepRecovery (me : Nat) (s : World) (ans : Answer) (now : DateTime) :
    Option (World × Worker) :=
  match w.recovery, w.runner.recovery with
  | .claiming, some rec =>
    (relay.await s w.site (.recovery me) (rec.claimStale w.runner.queue now) ans).map
      fun r => (r.1, { w with recovery := afterClaim s.now r.2 })
  | _, _ => none

/-! ## All steps -/

/-- One step of a living worker. -/
def step (me : Nat) (s : World) : WorkerLabel → Option (World × Worker)
  | .loop ans now => w.stepLoop me s ans now
  | .wake =>
    match w.loop with
    | .sleeping t => if t ≤ s.now then some (s, { w with loop := w.headPc }) else none
    | _ => none
  | .acquire =>
    match w.loop with
    | .acquiring d rest =>
      if 0 < w.permits then some (s, w.spawnTask d rest) else none
    | _ => none
  | .cancelLoop =>
    match w.loop with
    -- inside the loop: on to the `finally`; in the `finally` itself: out of `run`
    | .sleeping _ | .acquiring _ _ => some (s, { w with loop := .joining })
    | .draining _ _ | .cancelling _ _ => some (s, { w with loop := .stopped })
    | _ => none
  | .startTask i => (w.stepStart i).map fun w' => (s, w')
  | .task i ans => w.stepTask me s i ans
  | .cancelTask i => (w.stepCancelTask i).map fun w' => (s, w')
  | .callback i => (w.stepCallback i).map fun w' => (s, w')
  | .recovery ans now => w.stepRecovery me s ans now
  | .wakeRecovery =>
    match w.recovery with
    | .sleeping t => if t ≤ s.now then some (s, { w with recovery := .claiming }) else none
    | _ => none
  | .cancelRecovery =>
    match w.recovery with
    | .sleeping _ => some (s, { w with recovery := .ended })
    | _ => none
  | .requestShutdown => some (s, { w with shutdown := true })
  | .drain => (w.stepDrain s).map fun w' => (s, w')

end Worker

end RelayQ

import RelayQ.Api.Replay
import RelayQ.System.Sys

/-! # Everything that is done to queues

Beside the `enqueue` calls and the workers of `Sys`, clients of the transport call its methods and
requests to the API replay dead letters.

* `TransportOp`, `QueueOp`: what can be done to a queue; `QueueOp.queue` is the queue it is done to.
* `Service`, `Service.step`: the system with any number of such operations in progress.
* `Service.queue?`: the queue a step is on behalf of. -/

namespace RelayQ

/-- The methods of the transport that concern one queue, with their other arguments. -/
inductive TransportOp
  | ensureGroup
  | streamLength
  | xadd (job : Job) (maxlen : Nat) (approximate : Bool)
  | xaddDlq (job : Job) (reason : String)
  | readGroup (workerId : String) (count blockMs : Nat) (now : DateTime)
  | xack (entryId : Nat)
  | autoclaimStale (workerId : String) (minIdleMs count : Nat) (now : DateTime)
  | readDlq (count : Nat)
  | readDlqEntry (jobId : String)
  | deleteDlqEntry (entryId : Nat)

/-- What can be done to a queue. -/
inductive QueueOp
  /-- A method of the transport. -/
  | transport (t : RedisStreamTransport) (queue : String) (op : TransportOp)
  /-- `Enqueuer.enqueue` -/
  | enqueue (c : EnqueueCall)
  /-- `Executor.execute` -/
  | execute (c : ExecCall)
  /-- `POST /queues/{name}/dlq/{job_id}/replay` -/
  | replayDlqJob (enq : Enqueuer) (name jobId : String) (now : DateTime)

namespace QueueOp

/-- The queue it is done to. -/
def queue : QueueOp → String
  | transport _ queue _ => queue
  | enqueue c => c.args.job.queue
  | execute c => c.queue
  | replayDlqJob _ name _ _ => name

/-- The stream prefix of its transport. -/
def streamPrefix : QueueOp → String
  | transport t _ _ => t.streamPrefix
  | enqueue c => c.enqueuer.transport.streamPrefix
  | execute c => c.executor.transport.streamPrefix
  | replayDlqJob enq _ _ _ => enq.transport.streamPrefix

/-- The job it is called with, if it is one that writes such a job, is of the queue. -/
def Fits : QueueOp → Prop
  | transport _ queue (.xadd job _ _) | transport _ queue (.xaddDlq job _) => job.queue = queue
  | execute c => c.job.queue = c.queue
  | _ => True

/-- Nobody but `Enqueuer` and `Executor` writes jobs, and nobody but the workers executes them. -/
def admitted : QueueOp → Bool
  | transport _ _ (.xadd _ _ _) | transport _ _ (.xaddDlq _ _) | execute _ => false
  | _ => true

/-- What is admitted fits. -/
theorem fits_of_admitted {op : QueueOp} (h : op.admitted = true) : op.Fits := by
  cases op with
  | transport t queue op =>
    cases op with
    | xadd _ _ _ => cases h
    | xaddDlq _ _ => cases h
    | _ => trivial
  | execute c => cases h
  | _ => trivial

end QueueOp

section

variable [Codec]

/-- The result does not matter. -/
def discard {α : Type} (p : Py α) : Py Unit := p.bind fun _ => .ret ()

/-- The method, called. -/
def TransportOp.code (t : RedisStreamTransport) (queue : String) : TransportOp → Py Unit
  | ensureGroup => t.ensureGroup queue
  | streamLength => discard (t.streamLength queue)
  | xadd job maxlen approximate => discard (t.xadd queue job maxlen approximate)
  | xaddDlq job reason => discard (t.xaddDlq queue job reason)
  | readGroup workerId count blockMs now => discard (t.readGroup queue workerId count blockMs now)
  | xack entryId => discard (t.xack queue entryId)
  | autoclaimStale workerId minIdleMs count now =>
    discard (t.autoclaimStale queue workerId minIdleMs count now)
  | readDlq count => discard (t.readDlq queue count)
  | readDlqEntry jobId => discard (t.readDlqEntry queue jobId)
  | deleteDlqEntry entryId => t.deleteDlqEntry queue entryId

/-- The operation, called. -/
def QueueOp.code : QueueOp → Py Unit
  | transport t queue op => op.code t queue
  | enqueue c => discard (c.enqueuer.enqueue c.args)
  | execute c => discard (c.executor.execute c.queue c.entryId c.job)
  | replayDlqJob enq name jobId now => discard (RelayQ.replayDlqJob ⟨some enq⟩ name jobId now)

/-- Operations, running concurrently. -/
def opPool : PoolSpec relay QueueOp Unit where
  code op := op.code
  actor n _ := .api n

end

/-- The system, and the operations in progress beside it. -/
structure Service where
  sys : Sys
  ops : List (Proc RelaySig Nat QueueOp Unit)

/-- What can happen. -/
inductive ServiceLabel
  /-- A step of the system. -/
  | sys (l : SysLabel)
  /-- An operation starts at a site. -/
  | start (op : QueueOp) (site : Nat)
  /-- The call of an operation is answered. -/
  | answer (i : Nat) (ans : Answer)

namespace Service

/-- The servers. -/
def world (s : Service) : World := s.sys.world

/-- Nothing has happened yet. -/
def init : Service := ⟨.init, []⟩

/-- The system after a step of the operations. -/
def moved (s : Service) (p : PoolState relay QueueOp Unit) : Service :=
  ⟨{ s.sys with pool := { s.sys.pool with world := p.world } }, p.procs⟩

/-- A crash ends the operations at its site. -/
def survivors (ops : List (Proc RelaySig Nat QueueOp Unit)) :
    SysLabel → List (Proc RelaySig Nat QueueOp Unit)
  | .pool (.crash site) => ops.map (Proc.kill site)
  | _ => ops

/-- One step. -/
def step [Codec] (s : Service) : ServiceLabel → Option Service
  | .sys l => (s.sys.step l).map fun sys => ⟨sys, survivors s.ops l⟩
  | .start op site => (opPool.step ⟨s.world, s.ops⟩ (.start op site)).map s.moved
  | .answer i ans => (opPool.step ⟨s.world, s.ops⟩ (.answer i ans)).map s.moved

/-- **Inversion of a step.** -/
theorem step_cases [Codec] {s s' : Service} {l : ServiceLabel} (h : s.step l = some s') :
    (∃ sl sys, l = .sys sl ∧ s.sys.step sl = some sys ∧ s' = ⟨sys, survivors s.ops sl⟩) ∨
    (∃ op site, l = .start op site ∧
      s' = ⟨s.sys, s.ops ++ [⟨op, site, some op.code⟩]⟩) ∨
    (∃ i ans c o k w r, l = .answer i ans ∧ s.ops[i]? = some c ∧ c.prog = some (.call o k) ∧
      s.world.exec c.site (.api i) o ans = some (w, r) ∧
      s' = s.moved ⟨w, s.ops.set i { c with prog := some (k r) }⟩) := by
  cases l with
  | sys sl =>
    obtain ⟨sys, hsys, rfl⟩ := Option.map_eq_some_iff.mp h
    exact .inl ⟨sl, sys, rfl, hsys, rfl⟩
  | start op site => exact .inr (.inl ⟨op, site, rfl, (Option.some.inj h).symm⟩)
  | answer i ans =>
    obtain ⟨p, hp, rfl⟩ := Option.map_eq_some_iff.mp h
    rcases PoolSpec.step_cases hp with ⟨op, site, hl, -⟩ |
      ⟨j, ans', c, o, k, w, r, hl, hc, hprog, hx, rfl⟩ | ⟨site, hl, -⟩ | ⟨e, w, hl, -⟩
    · cases hl
    · cases hl
      exact .inr (.inr ⟨i, ans, c, o, k, w, r, rfl, hc, hprog, hx, rfl⟩)
    · cases hl
    · cases hl

/-- The queue a step is on behalf of: that of the `enqueue` call or of the operation that is
answered, or that of the worker. -/
def queue? (s : Service) : ServiceLabel → Option String
  | .sys (.pool (.answer i _)) => (s.sys.pool.procs[i]?).map fun c => c.info.args.job.queue
  | .sys (.worker i _) => (s.sys.workers[i]?).map fun w => w.runner.queue
  | .answer i _ => (s.ops[i]?).map fun c => c.info.queue
  | _ => none

end Service

end RelayQ

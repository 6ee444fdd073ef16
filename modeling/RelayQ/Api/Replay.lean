import RelayQ.Api.Endpoint

/-! # Replaying a dead letter

`POST /queues/{name}/dlq/{job_id}/replay`: find the dead letter, build its job, reset it, enqueue it
again, delete the dead letter. The reset assigns a plain text to the job's status, which Python does
not check; whoever then asks that status for its `value` finds none.

* `PyStatus`: what the status attribute of a job object may hold.
* `Enqueuer.enqueueObject`: `enqueue` of such an object; on a member of the enumeration it is
  `enqueue` (`Enqueuer.enqueueObject_member`).
* `replayDlqJob`: the endpoint. -/

namespace RelayQ

/-! ## Job objects with a status of any kind -/

/-- What the status attribute of a job object holds. -/
inductive PyStatus
  /-- A member of the enumeration. -/
  | member (s : JobStatus)
  /-- A plain text. -/
  | text (s : String)

namespace PyStatus

/-- `status.value`, given as the member whose value it is: a plain text has no such attribute. -/
def value : PyStatus → Except PyExc JobStatus
  | member s => .ok s
  | text _ => .error (.other "AttributeError" (some "'str' object has no attribute 'value'"))

end PyStatus

section

variable [Codec]

/-- `insert_outbox` of an object: it reads the value of the status before it runs the statement. -/
def SqliteStore.insertOutboxObject (job : Job) (status : PyStatus) : Py Unit :=
  match status.value with
  | .ok s => insertOutbox { job with status := s }
  | .error e => .raise e

/-- `xadd` of an object: `to_dict` reads the value of the status. -/
def RedisStreamTransport.xaddObject (t : RedisStreamTransport) (queue : String) (job : Job)
    (status : PyStatus) (maxlen : Nat) (approximate : Bool) : Py Nat :=
  match status.value with
  | .ok s => t.xadd queue { job with status := s } maxlen approximate
  | .error e => .raise e

namespace Enqueuer

variable (enq : Enqueuer)

/-- The outbox insert of an object. -/
def writeOutboxObject (job : Job) (status : PyStatus) : Py Unit :=
  if enq.store then SqliteStore.transaction (SqliteStore.insertOutboxObject job status) else .ret ()

/-- `enqueue` of a job object whose status attribute holds `status`. -/
def enqueueObject (a : EnqueueArgs) (status : PyStatus) : Py Nat :=
  match a.validate a.job with
  | some e => .raise e
  | none =>
    (enq.transport.streamLength a.job.queue).bind fun depth =>
      if depth ≥ enq.maxQueueDepth then
        .raise (.queueFull a.job.queue depth enq.maxQueueDepth)
      else
        (enq.checkKey a.key?).bind fun _ =>
          (enq.writeOutboxObject a.keyedJob status).bind fun _ =>
            enq.transport.xaddObject a.job.queue a.keyedJob status (enq.maxQueueDepth + 1000) true

omit [Codec] in
/-- The status of the job that is written is the one the job came with. -/
theorem keyedJob_status (a : EnqueueArgs) : a.keyedJob.status = a.job.status := by
  unfold EnqueueArgs.keyedJob
  split <;> rfl

/-- An object whose status is a member of the enumeration is enqueued as a job. -/
theorem enqueueObject_member (a : EnqueueArgs) :
    enq.enqueueObject a (.member a.job.status) = enq.enqueue a := by
  have hjob : { a.keyedJob with status := a.job.status } = a.keyedJob := by
    rw [← keyedJob_status]
  unfold enqueueObject enqueue
  cases a.validate a.job with
  | some exc => rfl
  | none =>
    simp only [writeOutboxObject, writeOutbox, PyStatus.value, SqliteStore.insertOutboxObject,
      RedisStreamTransport.xaddObject, hjob]

end Enqueuer

/-! ## The endpoint -/

/-- The response to a replay. -/
def replayed (job : Job) (entryId : Nat) : Response where
  status := 200
  content := .json (.obj [("job_id", .str job.id), ("new_stream_entry_id", .str (toString entryId)),
    ("status", .str "replayed")])

/-- Enqueue the job of a dead letter again, then delete the dead letter. -/
def replayEntry (enq : Enqueuer) (name : String) (entry : DlqEntry) (job : Job) : Py Response :=
  (enq.enqueueObject { job } (.text "pending")).bind fun entryId =>
    (enq.transport.deleteDlqEntry name entry.entryId).bind fun _ => .ret (replayed job entryId)

/-- `POST /queues/{name}/dlq/{job_id}/replay`, `now` being the time read when the dead letter carries
no `created_at`. -/
def replayDlqJob (app : Api) (name jobId : String) (now : DateTime) : Py Response :=
  match app.enqueuer with
  | none => .ret (httpException 503 (.str "not ready") [])
  | some enq =>
    (enq.transport.readDlqEntry name jobId).bind fun entry =>
      match entry with
      | none => .ret (httpException 404 (.str ("job '" ++ jobId ++ "' not found in DLQ")) [])
      | some entry =>
        match RawJob.fromDict now entry.job with
        | .error e => .raise e
        | .ok raw =>
          -- the attempts are reset whatever they were; an object with another attribute that is not
          -- of its declared type is not followed further
          match { raw with attempts := .int 0 }.typed? with
          | none => .raise (.other "TypeError" (some "attribute of another type than declared"))
          | some job => replayEntry enq name entry job

end

end RelayQ

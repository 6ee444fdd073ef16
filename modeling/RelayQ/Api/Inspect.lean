import RelayQ.Api.Replay

/-! # Endpoints that only look

* `listDlq`: the newest dead letters of a queue.
* `getJobStatus`: a job as the outbox has it. -/

namespace RelayQ

section

variable [Codec]

/-- An item of the listing. -/
def DlqEntry.toJVal (entry : DlqEntry) : JVal :=
  .obj [("entry_id", .str (toString entry.entryId)), ("job", entry.job),
    ("reason", .str entry.reason)]

/-- The listing of some dead letters. -/
def listed (name : String) (entries : List DlqEntry) : Response where
  status := 200
  content := .json (.obj [("queue", .str name), ("entries", .arr (entries.map DlqEntry.toJVal)),
    ("count", .int entries.length)])

/-- `GET /queues/{name}/dlq`, with a limit the client takes: it refuses one that is not positive. -/
def listDlq (app : Api) (name : String) (limit : Nat := 50) : Py Response :=
  match app.enqueuer with
  | none => .ret (httpException 503 (.str "transport not ready") [])
  | some enq => (enq.transport.readDlq name limit).bind fun entries => .ret (listed name entries)

/-- The status of a job that was found. -/
def jobStatus (job : Job) : Response where
  status := 200
  content := .json (.obj [("id", .str job.id), ("kind", .str job.kind),
    ("status", .str job.status.value), ("queue", .str job.queue),
    ("created_at", .str (Codec.isoformat job.createdAt)), ("attempts", .int job.attempts),
    ("max_retries", .int job.maxRetries), ("payload", job.payload.toJVal)])

/-- The answer of a process without a store. -/
def statusUnknown (jobId : String) : Response where
  status := 200
  content := .json (.obj [("id", .str jobId), ("status", .str "unknown"),
    ("note", .str "Status lookup requires a configured outbox store")])

/-- `GET /jobs/{job_id}` -/
def getJobStatus (app : Api) (jobId : String) : Py Response :=
  match app.enqueuer with
  | none => .ret (statusUnknown jobId)
  | some enq =>
    if enq.store then
      (SqliteStore.getJob jobId).bind fun job =>
        match job with
        | none => .ret (httpException 404 (.str ("job '" ++ jobId ++ "' not found")) [])
        | some job => .ret (jobStatus job)
    else .ret (statusUnknown jobId)

end

end RelayQ

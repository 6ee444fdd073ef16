import RelayQ.Domain.Errors
import RelayQ.Domain.Iso
import RelayQ.Json.Text

/-! # Jobs

The unit of work, its lifecycle states, and its dictionary form, the body of every stream entry.
The functions of the standard library that the dictionary form rests on, the JSON serialiser and
parser and the ISO format of timestamps, are the class `Codec`: results hold for every reader that
inverts its writer. `pyCodec` is the one that Python ships. -/

namespace RelayQ

/-- `json` and `datetime` of the standard library: each reader inverts its writer, and is
otherwise arbitrary. -/
class Codec where
  /-- `json.dumps` -/
  dumps : JVal → String
  /-- `json.loads` -/
  loads : String → Except PyExc JVal
  /-- `json.loads` inverts `json.dumps`. -/
  loads_dumps : ∀ v : JVal, v.wf = true → loads (dumps v) = .ok v
  /-- `datetime.isoformat` -/
  isoformat : DateTime → String
  /-- `datetime.fromisoformat` -/
  fromisoformat : String → Except PyExc DateTime
  /-- `datetime.fromisoformat` inverts `datetime.isoformat`. -/
  fromisoformat_isoformat : ∀ t, fromisoformat (isoformat t) = .ok t

attribute [simp] Codec.loads_dumps Codec.fromisoformat_isoformat

/-- The standard library's own readers and writers. -/
instance pyCodec : Codec where
  dumps v := String.ofList v.print
  loads s :=
    match JVal.read s.toList with
    | some v => .ok v
    | none => .error (.jsonDecodeError "Expecting value")
  loads_dumps v hv := by simp only [String.toList_ofList, JVal.read_print hv]
  isoformat t := String.ofList t.print
  fromisoformat s :=
    match DateTime.read s.toList with
    | some t => .ok t
    | none => .error (.other "ValueError" (some ("Invalid isoformat string: '" ++ s ++ "'")))
  fromisoformat_isoformat t := by simp only [String.toList_ofList, DateTime.read_print]

/-- Lifecycle of a job through the queue. -/
inductive JobStatus
  /-- Enqueued, waiting for first worker pickup. -/
  | pending
  /-- Claimed by a worker, running the handler. -/
  | processing
  /-- Handler succeeded, acknowledged. -/
  | completed
  /-- Handler raised, will be retried if attempts remain. -/
  | failed
  /-- Exhausted all retries, routed to the dead-letter queue. -/
  | dead
  deriving DecidableEq, Repr

namespace JobStatus

/-- The text stored for a status. -/
def value : JobStatus → String
  | pending => "pending"
  | processing => "processing"
  | completed => "completed"
  | failed => "failed"
  | dead => "dead"

/-- `JobStatus(v)` of a text. -/
def ofValue? (v : String) : Option JobStatus :=
  [pending, processing, completed, failed, dead].find? fun s => s.value = v

/-- A status is found again by its value. -/
@[simp] theorem ofValue?_value (s : JobStatus) : ofValue? s.value = some s := by
  cases s <;> decide

end JobStatus

/-- A unit of work flowing through the queue. -/
structure Job where
  id : String
  kind : String := ""
  payload : Dict := .empty
  status : JobStatus := .pending
  createdAt : DateTime
  attempts : Int := 0
  maxRetries : Int := 3
  idempotencyKey : Option String := none
  queue : String := "default"

namespace Job

/-- `to_dict` -/
def toDict [Codec] (j : Job) : JVal :=
  .obj [("id", .str j.id), ("kind", .str j.kind), ("payload", j.payload.toJVal),
    ("status", .str j.status.value), ("created_at", .str (Codec.isoformat j.createdAt)),
    ("attempts", .int j.attempts), ("max_retries", .int j.maxRetries),
    ("idempotency_key", .ofOptStr j.idempotencyKey), ("queue", .str j.queue)]

/-- The dictionary form is well formed. -/
@[simp] theorem wf_toDict [Codec] (j : Job) : j.toDict.wf = true := by
  simp [toDict, JVal.wf, JVal.wfItems]

/-- True when the job has exhausted its retry budget. -/
def shouldDlq (j : Job) : Bool := j.attempts > j.maxRetries

end Job

/-- What `Job.from_dict` builds: the class does not check the types of its attributes, so those
read without a conversion can hold any JSON value. -/
structure RawJob where
  id : JVal
  kind : JVal
  payload : JVal
  status : JobStatus
  createdAt : DateTime
  attempts : JVal
  maxRetries : JVal
  idempotencyKey : JVal
  queue : JVal

namespace RawJob

/-- `JobStatus(v)` of a parsed value. -/
def statusOf (v : JVal) : Except PyExc JobStatus :=
  match v.str?.bind JobStatus.ofValue? with
  | some s => .ok s
  | none => .error (.other "ValueError" (some "not a valid JobStatus"))

/-- `datetime.fromisoformat(v)` of a parsed value. -/
def createdAtOf [Codec] (v : JVal) : Except PyExc DateTime :=
  match v.str? with
  | some s => Codec.fromisoformat s
  | none => .error (.other "TypeError" (some "fromisoformat: argument must be str"))

/-- `from_dict`, `now` being the time read when the body carries no `created_at`. -/
def fromDict [Codec] (now : DateTime) (d : JVal) : Except PyExc RawJob :=
  match d.items? with
  | none => .error (.other "TypeError" (some "not a dict"))
  | some kvs =>
    match kvs.lookup "id" with
    | none => .error (.keyError "id")
    | some id => do
      let status ← statusOf ((kvs.lookup "status").getD (.str "pending"))
      let createdAt ← match kvs.lookup "created_at" with
        | some v => createdAtOf v
        | none => .ok now
      .ok {
        id := id
        kind := (kvs.lookup "kind").getD (.str "")
        payload := (kvs.lookup "payload").getD (.obj [])
        status := status
        createdAt := createdAt
        attempts := (kvs.lookup "attempts").getD (.int 0)
        maxRetries := (kvs.lookup "max_retries").getD (.int 3)
        idempotencyKey := (kvs.lookup "idempotency_key").getD .null
        queue := (kvs.lookup "queue").getD (.str "default") }

/-- The attributes of a job. -/
def ofJob (j : Job) : RawJob where
  id := .str j.id
  kind := .str j.kind
  payload := j.payload.toJVal
  status := j.status
  createdAt := j.createdAt
  attempts := .int j.attempts
  maxRetries := .int j.maxRetries
  idempotencyKey := .ofOptStr j.idempotencyKey
  queue := .str j.queue

/-- The job, when every attribute has the type it is declared with. -/
def typed? (r : RawJob) : Option Job := do
  let id ← r.id.str?
  let kind ← r.kind.str?
  let payload ← r.payload.dict?
  let attempts ← r.attempts.int?
  let maxRetries ← r.maxRetries.int?
  let idempotencyKey ← r.idempotencyKey.optStr?
  let queue ← r.queue.str?
  some { id, kind, payload, status := r.status, createdAt := r.createdAt, attempts, maxRetries,
         idempotencyKey, queue }

/-- A job that was built has the types of its fields. -/
@[simp] theorem typed?_ofJob (j : Job) : (ofJob j).typed? = some j := by
  simp [ofJob, typed?, JVal.str?, JVal.int?]

/-- Whether a dictionary builds a job, and which but for a missing creation time, does not depend on
the time it is read at. -/
theorem fromDict_now [Codec] {now : DateTime} (now' : DateTime) {d : JVal} {j : RawJob}
    (h : fromDict now d = .ok j) :
    ∃ c, fromDict now' d = .ok { j with createdAt := c } := by
  unfold fromDict at h
  split at h
  · cases h
  · rename_i kvs hkvs
    split at h
    · cases h
    · rename_i id hid
      simp only [bind, Except.bind] at h
      split at h
      · cases h
      · rename_i status hstatus
        simp only [fromDict, hkvs, hid, hstatus, bind, Except.bind]
        split at h
        · rename_i v hv
          split at h
          · cases h
          · rename_i c hc
            obtain rfl := Except.ok.inj h
            exact ⟨c, rfl⟩
        · rename_i hv
          obtain rfl := Except.ok.inj h
          exact ⟨now', rfl⟩

/-- Whether a job is well typed does not depend on its creation time. -/
theorem isSome_typed?_createdAt (j : RawJob) (c : DateTime) :
    ({ j with createdAt := c } : RawJob).typed?.isSome = j.typed?.isSome := by
  simp only [typed?, Option.bind_eq_bind, Option.isSome_bind, Option.isSome_some]

/-- The dictionary form of a job reads back as that job. -/
@[simp] theorem fromDict_toDict [Codec] (now : DateTime) (j : Job) :
    fromDict now j.toDict = .ok (ofJob j) := by
  simp [fromDict, Job.toDict, JVal.items?, List.lookup_cons, statusOf, createdAtOf, JVal.str?, ofJob,
    bind, Except.bind]

end RawJob

/-- A job with everything at its default, for sample runs. -/
def Sample.job : Job := { id := "job_1", createdAt := .epoch }

end RelayQ

import RelayQ.Application.Enqueue

/-! # The HTTP API

`POST /jobs` from the request model to the response.

* `EnqueueRequest`: a request that passed validation carries the proofs of it.
* `enqueueJob`, `rateLimitMiddleware`, `Api.handle`: the endpoint and what stands around it.
* `Api.lifespan`: how the process assembles its transport and its enqueuer.
* `apiPool`: any number of concurrent requests to one process. -/

namespace RelayQ

/-! ## Requests -/

/-- The cap on a serialized payload: one megabyte. -/
def maxPayloadBytes : Nat := 1024 * 1024

/-- `re.fullmatch(r"[A-Za-z0-9_.-]{1,100}", value)` -/
def isIdentifier (value : String) : Bool :=
  (value.toList.all fun c => c.isAlphanum || c == '_' || c == '.' || c == '-') &&
    decide (1 ≤ value.length ∧ value.length ≤ 100)

/-- The body of `POST /jobs` after validation. -/
structure EnqueueRequest [Codec] where
  kind : String
  payload : Dict := .empty
  queue : String := "default"
  idempotencyKey : Option String := none
  maxRetries : Int := 3
  kind_valid : isIdentifier kind = true
  queue_valid : isIdentifier queue = true
  payload_bounded : (utf8 (Codec.dumps payload.toJVal)).length ≤ maxPayloadBytes
  key_length : ∀ key ∈ idempotencyKey, 1 ≤ key.length ∧ key.length ≤ 200
  retries_bounded : 0 ≤ maxRetries ∧ maxRetries ≤ 25

/-- What is drawn outside the code while a request is served. -/
structure Arrival [Codec] where
  request : EnqueueRequest
  /-- The id drawn for the job. -/
  jobId : String
  /-- The time the job is created. -/
  createdAt : DateTime
  /-- What the rate limiter answers. -/
  allowed : Except PyExc Bool

namespace Arrival

variable [Codec] (r : Arrival)

/-- The job built from the request. -/
def job : Job where
  id := r.jobId
  kind := r.request.kind
  payload := r.request.payload
  createdAt := r.createdAt
  maxRetries := r.request.maxRetries
  queue := r.request.queue

/-- The arguments the enqueuer is called with. -/
def args : EnqueueArgs where
  job := r.job
  idempotencyKey := r.request.idempotencyKey

/-- Does the rate limiter let the request through? -/
def admitted : Bool :=
  match r.allowed with
  | .ok b => b
  | .error _ => false

/-- A valid key is not empty, so the enqueuer takes it as it is. -/
@[simp] theorem key?_args : r.args.key? = r.request.idempotencyKey := by
  have hlen := r.request.key_length
  cases hk : r.request.idempotencyKey with
  | none => simp [EnqueueArgs.key?, args, hk]
  | some key =>
    have hne : key ≠ "" := by
      rintro rfl
      simpa using (hlen "" hk).1
    simp [EnqueueArgs.key?, args, hk, hne]

/-- The job on the stream carries the key of the request. -/
@[simp] theorem keyedJob_idempotencyKey :
    r.args.keyedJob.idempotencyKey = r.request.idempotencyKey := by
  unfold EnqueueArgs.keyedJob
  rw [key?_args]
  cases r.request.idempotencyKey <;> rfl

end Arrival

/-! ## Responses -/

/-- The content of a response. -/
inductive Content
  | json (v : JVal)
  | text (s : String)

/-- A response. -/
structure Response where
  status : Nat
  content : Content
  headers : List (String × String) := []

/-- The response made of an `HTTPException`. -/
def httpException (status : Nat) (detail : JVal) (headers : List (String × String)) : Response where
  status := status
  content := .json (.obj [("detail", detail)])
  headers := headers

/-! ## The endpoint -/

/-- The globals of the process that the endpoint reads. -/
structure Api where
  enqueuer : Option Enqueuer

section

variable [Codec]

/-- The response to an exception of the enqueuer, when it has one. -/
def onEnqueueError (exc : PyExc) : Py Response :=
  match exc with
  | .queueFull .. => .ret (httpException 503 (.obj [("error", .str "queue_full"),
      ("message", .str (exc.str.getD "")), ("retry_after", .int 5)]) [("Retry-After", "5")])
  | .idempotencyConflict _ => .ret (httpException 409 (.str (exc.str.getD "")) [])
  | exc => .raise exc

/-- The response to a job that was enqueued. -/
def created (job : Job) (entryId : Nat) : Response where
  status := 201
  content := .json (.obj [("job_id", .str job.id), ("stream_entry_id", .str (toString entryId)),
    ("status", .str "pending")])

/-- `POST /jobs` -/
def enqueueJob (app : Api) (r : Arrival) : Py Response :=
  match app.enqueuer with
  | none => .ret (httpException 503 (.str "enqueuer not ready") [])
  | some enqueuer =>
    ((enqueuer.enqueue r.args).bind fun entryId => .ret (created r.job entryId)).tryExcept
      onEnqueueError

/-- The rate limiter in front of every route. -/
def rateLimitMiddleware (allowed : Except PyExc Bool) (callNext : Py Response) : Py Response :=
  match allowed with
  | .error e => .raise e
  | .ok true => callNext
  | .ok false => .ret {
      status := 429
      content := .json (.obj [("error", .str "rate_limit_exceeded"), ("retry_after", .int 1)])
      headers := [("Retry-After", "1")] }

/-- The response of the server to an exception that nobody handled. -/
def serverError (exc : PyExc) : Py Response :=
  if exc.isException then .ret { status := 500, content := .text "Internal Server Error" }
  else .raise exc

/-- A request, from the outermost layer. -/
def Api.handle (app : Api) (r : Arrival) : Py Response :=
  (rateLimitMiddleware r.allowed (enqueueJob app r)).tryExcept serverError

end

/-- The transport of the process. -/
def Api.transport : RedisStreamTransport := ⟨"relayq", true⟩

/-- The enqueuer of the process: no store is passed to it. -/
def Api.wiredEnqueuer : Enqueuer := { transport := Api.transport }

/-- Startup: the default queue gets its group, then requests are served. -/
def Api.lifespan : Py Api :=
  (Api.transport.ensureGroup "default").bind fun _ => .ret ⟨some Api.wiredEnqueuer⟩

/-- Requests to one process, running concurrently. -/
def apiPool [Codec] (app : Api) : PoolSpec relay Arrival Response where
  code := app.handle
  actor n _ := .api n

/-! ## What a request does -/

section

variable [Codec]

/-- Watches a request: it calls nothing unless the rate limiter let it through, and then what one
call of `enqueue` does. -/
def Arrival.monitor (enqueuer : Enqueuer) (r : Arrival) : Monitor RelaySig Enqueuer.Phase where
  guard ph o := r.admitted = true ∧ (enqueuer.monitor r.args).guard ph o
  next := (enqueuer.monitor r.args).next

/-- **What a request does** is at most what one call of `enqueue` does, and it is created only if
the rate limiter let it through. -/
theorem wp_handle (enqueuer : Enqueuer) (r : Arrival) :
    (Api.handle ⟨some enqueuer⟩ r).wp (r.monitor enqueuer)
      (fun out _ => ∀ resp, out = .ok resp → resp.status = 201 → r.admitted = true) .fresh := by
  have hserver : ∀ (e : PyExc) (ph : Enqueuer.Phase), (serverError e).wp (r.monitor enqueuer)
      (fun out _ => ∀ resp, out = .ok resp → resp.status = 201 → r.admitted = true) ph := by
    intro e ph
    unfold serverError
    split
    · rintro resp ⟨⟩ ⟨⟩
    · rintro resp ⟨⟩
  refine (Prog.wp_tryExcept _ _).mpr ?_
  unfold rateLimitMiddleware
  cases hr : r.allowed with
  | error e => exact hserver e _
  | ok b =>
    cases b with
    | false => rintro resp ⟨⟩ ⟨⟩
    | true =>
      -- let through: nothing is left to show of the response
      have hadm : r.admitted = true := by simp [Arrival.admitted, hr]
      have henq : (enqueuer.enqueue r.args).wp (r.monitor enqueuer) (fun _ _ => True) .fresh :=
        Prog.wp_of_guard (enqueuer.wp_enqueue r.args) rfl fun _ _ hg => ⟨hadm, hg⟩
      refine (Prog.wp_tryExcept _ _).mpr ((Prog.wp_bind _ _).mpr
        (Prog.wp_mono _ (fun out ph _ => ?_) henq))
      cases out with
      | ok entryId => exact fun _ _ _ => hadm
      | error e =>
        dsimp only
        unfold onEnqueueError
        split
        · exact fun _ _ _ => hadm
        · exact fun _ _ _ => hadm
        · exact hserver _ _

end

/-- A request with a key, let through. -/
def Sample.arrival (jobId : String) : Arrival where
  request := {
    kind := "email"
    idempotencyKey := some "order-1"
    kind_valid := by decide
    queue_valid := by decide
    payload_bounded := by decide
    key_length := by decide
    retries_bounded := by decide }
  jobId := jobId
  createdAt := .epoch
  allowed := .ok true

end RelayQ

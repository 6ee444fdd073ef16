import RelayQ.Infrastructure.RedisStream
import RelayQ.Infrastructure.SqliteStore
import RelayQ.Program.Pool

/-! # Enqueuing

Validation, backpressure check, idempotency check, outbox insert, `XADD`, in this order.

* `Enqueuer.enqueue`: the code.
* `Enqueuer.monitor`, `Enqueuer.wp_enqueue`: what one call does, phase by phase.
* `enqueuePool`: any number of concurrent calls. -/

namespace RelayQ

/-- The enqueue use case: its transport, its depth limit, and whether it has an outbox store. -/
structure Enqueuer where
  transport : RedisStreamTransport
  maxQueueDepth : Nat := 10000
  store : Bool := false

/-- The arguments of one call of `enqueue`. -/
structure EnqueueArgs where
  job : Job
  idempotencyKey : Option String := none
  /-- The validation hook: what it raises for a job, if anything. -/
  validate : Job → Option PyExc := fun _ => none

namespace EnqueueArgs

/-- The key, when it is given and not empty. -/
def key? (a : EnqueueArgs) : Option String := a.idempotencyKey.filter (· ≠ "")

/-- The job as `enqueue` writes it: the key it was given is set on it. -/
def keyedJob (a : EnqueueArgs) : Job :=
  match a.key? with
  | some key => { a.job with idempotencyKey := some key }
  | none => a.job

end EnqueueArgs

namespace Enqueuer

variable [Codec] (enq : Enqueuer)

/-- The idempotency lookup; without a key or without a store there is none. -/
def checkKey (key : Option String) : Py Unit :=
  match key with
  | some key =>
    if enq.store then
      (SqliteStore.findByIdempotencyKey key).bind fun existing =>
        match existing with
        | some _ => .raise (.idempotencyConflict key)
        | none => .ret ()
    else .ret ()
  | none => .ret ()

/-- The outbox insert in a transaction of its own; without a store there is none. -/
def writeOutbox (job : Job) : Py Unit :=
  if enq.store then SqliteStore.transaction (SqliteStore.insertOutbox job) else .ret ()

/-- Enqueue a job; returns the stream entry id. -/
def enqueue (a : EnqueueArgs) : Py Nat :=
  match a.validate a.job with
  | some e => .raise e
  | none =>
    (enq.transport.streamLength a.job.queue).bind fun depth =>
      if depth ≥ enq.maxQueueDepth then
        .raise (.queueFull a.job.queue depth enq.maxQueueDepth)
      else
        -- first the outbox, then the stream
        (enq.checkKey a.key?).bind fun _ =>
          (enq.writeOutbox a.keyedJob).bind fun _ =>
            enq.transport.xadd a.job.queue a.keyedJob (enq.maxQueueDepth + 1000) true

/-! ## What a call of `enqueue` calls -/

/-- How far a call of `enqueue` has come. -/
inductive Phase
  /-- The depth has not been read. -/
  | fresh
  /-- The depth was read and is below the limit. -/
  | checked
  /-- `BEGIN` succeeded. -/
  | begun
  /-- The row is inserted, not committed. -/
  | inserted
  /-- The row is committed. -/
  | committed
  /-- Nothing is added any more. -/
  | closed
  deriving DecidableEq

/-- The statements a call may run in a phase. -/
def stmtGuard (a : EnqueueArgs) : Phase → Stmt → Prop
  | .checked, .selectByKey key => enq.store = true ∧ a.key? = some key
  | .checked, .begin => enq.store = true
  | .begun, .insert row => row = .ofJob a.keyedJob
  | .inserted, .commit => True
  | .begun, .rollback => True
  | .inserted, .rollback => True
  | _, _ => False

/-- The commands a call may send in a phase. -/
def cmdGuard (a : EnqueueArgs) (ph : Phase) : Redis.Cmd Body → Prop
  | .xlen k => ph = .fresh ∧ k = enq.transport.streamKey a.job.queue
  | .xadd k body lim => (ph = .committed ∧ enq.store = true ∨ ph = .checked ∧ enq.store = false) ∧
      k = enq.transport.streamKey a.job.queue ∧
      body = RedisStreamTransport.jobBody a.keyedJob ∧ lim = some (enq.maxQueueDepth + 1000, true)
  | _ => False

/-- The phase after a statement. A statement that fails leaves its transaction open. -/
def stmtNext : Phase → (s : Stmt) → Except PyExc s.Res → Phase
  | _, .begin, .ok _ => .begun
  | _, .insert _, .ok _ => .inserted
  | _, .commit, .ok _ => .committed
  | ph, .insert _, .error _ => ph
  | ph, .commit, .error _ => ph
  | ph, .selectByKey _, .ok _ => ph
  | _, _, _ => .closed

/-- The phase after a command. -/
def cmdNext : (c : Redis.Cmd Body) → Except PyExc c.Res → Phase
  | .xlen _, .ok n => if (n : Nat) < enq.maxQueueDepth then .checked else .closed
  | _, _ => .closed

/-- Watches a call of `enqueue`. -/
def monitor (a : EnqueueArgs) : Monitor RelaySig Phase where
  guard ph
    | .redis c => enq.cmdGuard a ph c
    | .sql s => enq.stmtGuard a ph s
    | .utcnow => True
    | _ => False
  next ph
    | .redis c, r => enq.cmdNext c r
    | .sql s, r => stmtNext ph s r
    | _, _ => ph

variable {enq} in
/-- The lookup selects by the key and reads the clock. -/
theorem calls_lookup {ok : Op → Prop} (hselect : ∀ key, ok (.sql (.selectByKey key)))
    (hclock : ok .utcnow) (key : Option String) : (enq.checkKey key).Calls ok := by
  unfold checkKey
  split
  · split
    · refine .bind (.bind (.perform (hselect _)) fun row => ?_) fun existing => ?_
      · cases row with
        | none => trivial
        | some row =>
          refine .bind (.perform hclock) fun now => ?_
          split <;> trivial
      · split <;> trivial
    · trivial
  · trivial

variable (a : EnqueueArgs)

/-- The lookup leaves the call where it is when it finds nothing. -/
theorem wp_checkKey : (enq.checkKey a.key?).wp (enq.monitor a)
    (fun r ph => r = .ok () → ph = .checked) .checked := by
  unfold checkKey
  split
  · rename_i key hkey
    split
    · rename_i hstore
      refine Prog.wp_bind_of (R := fun r ph => ∀ x, r = .ok x → ph = .checked) ?_
        (fun x ph h => ?_) (fun e ph _ he => by cases he)
      · refine Prog.wp_perform_bind ⟨hstore, hkey⟩ (fun row => ?_) (fun e x he => by cases he)
        cases row with
        | none => exact fun x _ => rfl
        | some row =>
          refine Prog.wp_perform_bind trivial (fun now => ?_) (fun e x he => by cases he)
          split
          · exact fun x _ => rfl
          · exact fun x he => by cases he
      · cases x with
        | none => exact fun _ => h none rfl
        | some job => exact fun he => by cases he
    · exact fun _ => rfl
  · exact fun _ => rfl

/-- The outbox write, when there is one, ends with the row committed. -/
theorem wp_writeOutbox : (enq.writeOutbox a.keyedJob).wp (enq.monitor a)
    (fun r ph => r = .ok () →
      ph = .committed ∧ enq.store = true ∨ ph = .checked ∧ enq.store = false) .checked := by
  unfold writeOutbox
  split
  · rename_i hstore
    refine Prog.wp_perform_bind hstore (fun _ => ?_) (fun e he => by cases he)
    -- inside the transaction: what raises is begun or inserted, and rolled back
    refine (Prog.wp_tryExcept _ _).mpr (Prog.wp_mono (Q := fun r ph =>
      match r with
      | .ok _ => ph = .committed
      | .error _ => ph = .begun ∨ ph = .inserted) _ (fun r ph h => ?_) ?_)
    · cases r with
      | ok u => exact fun _ => .inl ⟨h, hstore⟩
      | error e =>
        dsimp only
        split
        · refine Prog.wp_perform_bind ?_ (fun _ he => by cases he) (fun e he => by cases he)
          rcases h with rfl | rfl <;> trivial
        · exact fun he => by cases he
    · refine Prog.wp_perform_bind rfl (fun _ => ?_) fun e => .inl rfl
      exact Prog.wp_perform_bind trivial (fun _ => rfl) fun e => .inr rfl
  · rename_i hstore
    exact fun _ => .inr ⟨rfl, by simpa using hstore⟩

/-- **What a call of `enqueue` does**: it reads the depth once; below the limit it may look its key
up, then inserts and commits its row if it has a store, and only then appends its job, at most
once. -/
theorem wp_enqueue : (enq.enqueue a).wp (enq.monitor a) (fun _ _ => True) .fresh := by
  unfold enqueue
  split
  · trivial
  · refine Prog.wp_perform_bind ⟨rfl, rfl⟩ (fun (depth : Nat) => ?_) fun _ => trivial
    dsimp only
    split
    · trivial
    · rename_i hd
      have hph : (enq.monitor a).next .fresh
          (.redis (.xlen (enq.transport.streamKey a.job.queue))) (.ok depth) = .checked := by
        simp only [monitor, cmdNext]
        exact if_pos (Nat.lt_of_not_ge hd)
      rw [hph]
      refine Prog.wp_bind_of (enq.wp_checkKey a) (fun _ ph h => ?_) fun _ _ _ => trivial
      obtain rfl := h rfl
      refine Prog.wp_bind_of (enq.wp_writeOutbox a) (fun _ ph h => ?_) fun _ _ _ => trivial
      exact ⟨⟨h rfl, rfl, rfl, by simp⟩,
        fun r => by cases r <;> trivial⟩

end Enqueuer

/-! ## Concurrent calls -/

/-- One call of `enqueue`: the enqueuer it is made on and its arguments. -/
structure EnqueueCall where
  enqueuer : Enqueuer
  args : EnqueueArgs

/-- Calls of `enqueue`, running concurrently. -/
def enqueuePool [Codec] : PoolSpec relay EnqueueCall Nat where
  code c := c.enqueuer.enqueue c.args
  actor n _ := .enqueuer n

/-- Every call behaves as its monitor demands. -/
theorem wp_enqueuePool [Codec] (call : EnqueueCall) :
    (enqueuePool.code call).wp (call.enqueuer.monitor call.args) (fun _ _ => True) .fresh :=
  call.enqueuer.wp_enqueue call.args

/-- A call that enqueues a job, with or without a store, at most one entry deep. -/
def Sample.enqueueCall (job : Job) (store : Bool) : EnqueueCall :=
  ⟨{ transport := Sample.transport, maxQueueDepth := 1, store }, { job }⟩

end RelayQ

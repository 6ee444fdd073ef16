import Mathlib.Data.Rat.Defs
import Mathlib.Data.List.Infix
import RelayQ.Sqlite.Database

/-! # Exceptions

The exceptions that travel through the queue: the domain's own, those of the Redis client and of
SQLite, and those of the language that some `except` clause of the code names. Every other
exception a handler may raise is `other`, with its class name and its text. -/

namespace RelayQ

/-- A float number of seconds, with the text `str()` gives it. -/
structure Seconds where
  /-- The number. -/
  value : ℚ
  /-- How it prints. -/
  text : String

/-- Which constraint of the outbox table a statement violates. -/
inductive Violation
  /-- `PRIMARY KEY` on `jobs.id`. -/
  | primaryKey
  /-- The unique index `idx_jobs_idempotency`. -/
  | idempotencyKey
  deriving DecidableEq, Repr

/-- A Python exception. -/
inductive PyExc
  /-- The queue has reached its maximum allowed depth. -/
  | queueFull (queue : String) (depth maxDepth : Nat)
  /-- A job exceeded its processing deadline. -/
  | jobTimeout (jobId : String) (timeoutSeconds : Seconds)
  /-- A job with this idempotency key was already accepted. -/
  | idempotencyConflict (idempotencyKey : String)
  /-- The admission controller blocked processing for this queue. -/
  | admissionBlocked (queue reason : String)
  /-- `redis.ResponseError`: the server answered with an error. -/
  | responseError (msg : String)
  /-- Any other `redis.RedisError` (connection lost, timed out). -/
  | redisError (cls msg : String)
  /-- `sqlite3.Error`. -/
  | sqliteError (e : Sqlite.SqlError Violation)
  /-- `asyncio.TimeoutError`. -/
  | timeoutError
  /-- `json.JSONDecodeError`. -/
  | jsonDecodeError (msg : String)
  /-- `KeyError`. -/
  | keyError (key : String)
  /-- Any other subclass of `Exception`; the text is missing when `str()` of it raises. -/
  | other (cls : String) (msg : Option String)
  /-- `asyncio.CancelledError`, which is not an `Exception`. -/
  | cancelledError

namespace PyExc

/-- Does `except Exception` catch it? -/
def isException : PyExc → Bool
  | cancelledError => false
  | _ => true

/-- Is it one of the domain's own exceptions? -/
def isDomain : PyExc → Bool
  | queueFull .. | jobTimeout .. | idempotencyConflict _ | admissionBlocked .. => true
  | _ => false

/-- `type(exc).__name__`. -/
def className : PyExc → String
  | queueFull .. => "QueueFull"
  | jobTimeout .. => "JobTimeout"
  | idempotencyConflict _ => "IdempotencyConflict"
  | admissionBlocked .. => "AdmissionBlocked"
  | responseError _ => "ResponseError"
  | redisError cls _ => cls
  | sqliteError (.constraint _) => "IntegrityError"
  | sqliteError _ => "OperationalError"
  | timeoutError => "TimeoutError"
  | jsonDecodeError _ => "JSONDecodeError"
  | keyError _ => "KeyError"
  | other cls _ => cls
  | cancelledError => "CancelledError"

/-- The text of a SQLite error. -/
def sqliteMessage : Sqlite.SqlError Violation → String
  | .nestedTransaction => "cannot start a transaction within a transaction"
  | .locked => "database is locked"
  | .staleSnapshot => "database is locked"
  | .constraint .primaryKey => "UNIQUE constraint failed: jobs.id"
  | .constraint .idempotencyKey => "UNIQUE constraint failed: jobs.idempotency_key"
  | .failure msg => msg

/-- `str(exc)`; `none` when that raises itself. -/
def str : PyExc → Option String
  | queueFull queue depth maxDepth =>
    some ("queue '" ++ queue ++ "' at capacity " ++ toString depth ++ "/" ++ toString maxDepth)
  | jobTimeout jobId t => some ("job '" ++ jobId ++ "' timed out after " ++ t.text ++ "s")
  | idempotencyConflict key => some ("idempotency key '" ++ key ++ "' already exists")
  | admissionBlocked queue reason =>
    some ("Admission blocked for queue '" ++ queue ++ "': " ++ reason)
  | responseError msg => some msg
  | redisError _ msg => some msg
  | sqliteError e => some (sqliteMessage e)
  | timeoutError => some ""
  | jsonDecodeError msg => some msg
  | keyError key => some ("'" ++ key ++ "'")
  | other _ msg => msg
  | cancelledError => some ""

/-- Exceptions a Redis call can end with when it is not answered: an error of the client, or the
cancellation of the task that awaits it. -/
def fromRedisCall : PyExc → Bool
  | redisError .. => true
  | cancelledError => true
  | _ => false

/-- Exceptions a SQLite statement can end with for reasons of its own (disk, interrupt). -/
def fromSqlCall : PyExc → Bool
  | sqliteError (.failure _) => true
  | _ => false

/-- They are all caught by `except Exception`. -/
theorem isException_of_fromSqlCall {e : PyExc} (h : e.fromSqlCall = true) :
    e.isException = true := by
  cases e <;> first | rfl | cases h

/-- `"BUSYGROUP" in str(exc)` of a response error. -/
def isBusyGroup : PyExc → Bool
  | responseError msg => decide ("BUSYGROUP".toList <:+: msg.toList)
  | _ => false

end PyExc

end RelayQ

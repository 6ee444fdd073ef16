import RelayQ.Infrastructure.Outbox
import RelayQ.Program.Machine
import RelayQ.Redis.Stream

/-! # The world of the queue

Everything the code calls on: the Redis server, the SQLite database, the job handler, the clocks,
the metrics registry. `Op` lists the calls, `World.exec` carries one out, and the `Answer` it is
given says how the environment resolves it: carried out and answered, carried out but the answer
lost, or not carried out at all. Every call is recorded in `World.log`, newest first. -/

namespace RelayQ

/-! ## Bytes -/

/-- A byte string. -/
abbrev Bytes : Type := List UInt8

/-- `s.encode("utf-8")` -/
def utf8 (s : String) : Bytes := s.toByteArray.data.toList

/-- `b.decode("utf-8")`; `none` when that raises. -/
def utf8? (b : Bytes) : Option String := String.fromUTF8? ⟨b.toArray⟩

/-- A text is decoded from its bytes. -/
@[simp] theorem utf8?_utf8 (s : String) : utf8? (utf8 s) = some s := by
  have h : (⟨(utf8 s).toArray⟩ : ByteArray) = s.toByteArray := by simp [utf8]
  rw [utf8?, h, String.fromUTF8?, dif_pos s.isValidUTF8]
  rfl

/-- Bytes that decode are the bytes of their text. -/
theorem utf8?_eq_some {b : Bytes} {s : String} : utf8? b = some s ↔ b = utf8 s := by
  refine ⟨fun h => ?_, fun h => by rw [h, utf8?_utf8]⟩
  rw [utf8?, String.fromUTF8?] at h
  split at h
  · obtain rfl := Option.some.inj h
    rfl
  · cases h

/-- The bytes of a text are those of its characters. -/
theorem utf8_eq_flatMap (s : String) : utf8 s = s.toList.flatMap String.utf8EncodeChar := by
  have h : s.toByteArray = s.toList.utf8Encode := by simp
  rw [utf8, h, List.utf8Encode]
  simp

/-- The bytes of two texts, one after the other. -/
theorem utf8_append (s t : String) : utf8 (s ++ t) = utf8 s ++ utf8 t := by
  simp [utf8_eq_flatMap]

/-- A byte below 128 is a character of its own. -/
theorem mem_utf8EncodeChar_of_lt {c : Char} {b : UInt8} (hb : b.toNat < 128)
    (h : b ∈ String.utf8EncodeChar c) : String.utf8EncodeChar c = [b] ∧ c.toNat = b.toNat := by
  have hmod : ∀ n : ℕ, (UInt8.ofNat n).toNat = n % 256 := fun n => UInt8.toNat_ofNat' ..
  have hv : c.val.toNat = c.toNat := rfl
  rw [String.utf8EncodeChar] at h ⊢
  simp only [hv] at h ⊢
  split at h
  · rename_i hle
    rw [if_pos hle]
    obtain rfl := List.mem_singleton.mp h
    rw [hmod]
    exact ⟨rfl, by omega⟩
  · -- the bytes of a longer encoding have their highest bit set
    exfalso
    split at h
    · simp only [List.mem_cons, List.not_mem_nil, or_false] at h
      rcases h with rfl | rfl <;> rw [hmod] at hb <;> omega
    · split at h
      · simp only [List.mem_cons, List.not_mem_nil, or_false] at h
        rcases h with rfl | rfl | rfl <;> rw [hmod] at hb <;> omega
      · simp only [List.mem_cons, List.not_mem_nil, or_false] at h
        rcases h with rfl | rfl | rfl | rfl <;> rw [hmod] at hb <;> omega

/-- The bytes below 128 of a text are its characters below 128. -/
theorem exists_mem_of_mem_utf8 {s : String} {b : UInt8} (hb : b.toNat < 128) (h : b ∈ utf8 s) :
    ∃ c ∈ s.toList, c.toNat = b.toNat := by
  rw [utf8_eq_flatMap, List.mem_flatMap] at h
  obtain ⟨c, hc, hmem⟩ := h
  exact ⟨c, hc, (mem_utf8EncodeChar_of_lt hb hmem).2⟩

/-- The body of a stream entry as the server stores it: field names and values. -/
abbrev Body : Type := List (Bytes × Bytes)

/-! ## Calls and answers -/

/-- One run of a job handler: the payload as the handler leaves it (it holds the job's own
dictionary), and what it raised, if anything. A handler changes nothing else of its job. -/
structure HandlerRun where
  payload : Dict
  raised : Option PyExc

/-- What the code tells the metrics registry. -/
inductive Metric
  /-- `observe_processing_seconds`; the elapsed time in clock units. -/
  | processingSeconds (kind : String) (elapsed : Nat)
  /-- `incr_delivery_attempts` -/
  | deliveryAttempts (kind : String) (success : Bool)
  /-- `incr_dead_letter` -/
  | deadLetter (kind : String)

/-- The calls the code makes. -/
inductive Op
  /-- A Redis command. -/
  | redis (c : Redis.Cmd Body)
  /-- A SQL statement. -/
  | sql (s : Stmt)
  /-- `handler(job)` under `asyncio.timeout`. -/
  | handler (job : Job) (timeout : Seconds)
  /-- `clock.monotonic()` -/
  | monotonic
  /-- `clock.utcnow()` -/
  | utcnow
  /-- A metric is observed or counted. -/
  | metric (m : Metric)
  /-- `retry_policy.delay(attempt)` -/
  | delay (attempt : Int)

/-- What a call returns. -/
abbrev Op.Res : Op → Type
  | redis c => c.Res
  | sql s => s.Res
  | handler _ _ => HandlerRun
  | monotonic => Nat
  | utcnow => DateTime
  | metric _ => Unit
  | delay _ => ℚ

/-- Does the call leave both servers alone? -/
def Op.isLocal : Op → Bool
  | redis _ => false
  | sql _ => false
  | _ => true

/-- Is it a call of the store? -/
def Op.isStore : Op → Bool
  | sql _ => true
  | _ => false

/-- Is it a transport call? -/
def Op.isTransport : Op → Bool
  | redis _ => true
  | _ => false

/-- Is a handler called? -/
def Op.isHandler : Op → Bool
  | handler _ _ => true
  | _ => false

/-- Is a metric recorded? -/
def Op.isMetric : Op → Bool
  | metric _ => true
  | _ => false

/-- The interface of the code. -/
abbrev RelaySig : Signature := ⟨Op, Op.Res, PyExc⟩

/-- A program over the calls of the code. -/
abbrev Py (α : Type) : Type := Prog RelaySig α

/-- One call, awaited. -/
abbrev perform (o : Op) : Py o.Res := Prog.perform (S := RelaySig) o

/-- How the environment resolves a call. -/
inductive Answer
  /-- Carried out and answered; an `XADD` evicts `evicted` entries. -/
  | ok (evicted : Nat)
  /-- Carried out, but the caller sees an exception. -/
  | lost (e : PyExc) (evicted : Nat)
  /-- Not carried out; the caller sees an exception. -/
  | fail (e : PyExc)
  /-- The handler ran. -/
  | ran (run : HandlerRun)
  /-- The wall clock was read. -/
  | wall (t : DateTime)
  /-- A retry delay was drawn. -/
  | drawn (d : ℚ)

/-- Who makes a call. -/
inductive Actor
  /-- The `n`-th call of `Enqueuer.enqueue`. -/
  | enqueuer (n : Nat)
  /-- The `n`-th request to the API. -/
  | api (n : Nat)
  /-- The polling loop of a worker. -/
  | runner (worker : Nat)
  /-- The recovery loop of a worker. -/
  | recovery (worker : Nat)
  /-- An `Executor.execute` of an entry of a queue. -/
  | executor (worker task : Nat) (queue : String) (entry : Nat)
  /-- A writer that is not part of the code. -/
  | foreign
  deriving DecidableEq, Repr

/-- A call that was answered. -/
structure Event where
  actor : Actor
  op : Op
  /-- Was the call carried out? -/
  applied : Bool
  /-- How many entries it evicted. -/
  evicted : Nat
  /-- What the caller saw. -/
  res : Except PyExc op.Res

/-! ## The world -/

/-- The shared state. -/
structure World where
  /-- Time, in milliseconds. -/
  now : Nat
  redis : Redis.Keyspace Body
  db : Db
  /-- Every call answered so far, newest first. -/
  log : List Event

/-- Nothing has happened yet. -/
def World.init : World :=
  ⟨0, fun _ => .empty Body, ⟨[], 0, none, fun _ => none⟩, []⟩

/-- The client's exception for an error reply of the server. -/
def PyExc.ofCmdError : Redis.CmdError → PyExc
  | .busyGroup => .responseError "BUSYGROUP Consumer Group name already exists"
  | .noGroup => .responseError "NOGROUP No such key or consumer group"
  | .badCount => .responseError "ERR COUNT must be > 0"

/-- The result of answering a call. -/
structure Answered (o : Op) where
  world : World
  applied : Bool
  evicted : Nat
  res : Except PyExc o.Res

namespace World

/-- Send a command to the server. -/
def sendCmd (w : World) (c : Redis.Cmd Body) (evicted : Nat) :
    World × Except PyExc c.Res :=
  let r := w.redis.apply w.now evicted c
  ({ w with redis := r.1 }, r.2.mapError .ofCmdError)

/-- Run a statement on the connection of a site. -/
def runStmt (w : World) (site : Nat) (s : Stmt) : World × Except PyExc s.Res :=
  let r := w.db.run site s
  ({ w with db := r.1 }, r.2.mapError .sqliteError)

/-- Resolve a call as the answer says; `none` when it cannot be resolved so. -/
def answer (w : World) (site : Nat) : (o : Op) → Answer → Option (Answered o)
  | .redis c, .ok n =>
    if c.mayEvict (w.redis c.key) n then
      some ⟨(w.sendCmd c n).1, true, n, (w.sendCmd c n).2⟩
    else none
  | .redis c, .lost e n =>
    if c.mayEvict (w.redis c.key) n ∧ e.fromRedisCall then
      some ⟨(w.sendCmd c n).1, true, n, .error e⟩
    else none
  | .redis _, .fail e => if e.fromRedisCall then some ⟨w, false, 0, .error e⟩ else none
  | .sql s, .ok _ => some ⟨(w.runStmt site s).1, true, 0, (w.runStmt site s).2⟩
  | .sql _, .fail e => if e.fromSqlCall then some ⟨w, false, 0, .error e⟩ else none
  | .handler _ _, .ran run => some ⟨w, true, 0, .ok run⟩
  | .monotonic, .ok _ => some ⟨w, true, 0, .ok w.now⟩
  | .utcnow, .wall t => some ⟨w, true, 0, .ok t⟩
  | .metric _, .ok _ => some ⟨w, true, 0, .ok ()⟩
  | .delay _, .drawn d => some ⟨w, true, 0, .ok d⟩
  | .delay _, .fail e => if e.isException then some ⟨w, false, 0, .error e⟩ else none
  | _, _ => none

/-- Note an answered call. -/
def record (w : World) (ev : Event) : World := { w with log := ev :: w.log }

/-- Carry out one call and record it. -/
def exec (w : World) (site : Nat) (a : Actor) (o : Op) (ans : Answer) :
    Option (World × Except PyExc o.Res) :=
  (w.answer site o ans).map fun r => (r.world.record ⟨a, o, r.applied, r.evicted, r.res⟩, r.res)

/-- A process dies: SQLite rolls back what its connection left open. -/
def crash (w : World) (site : Nat) : World := { w with db := w.db.rollback site }

end World

/-- What happens besides the calls of the code. -/
inductive EnvStep
  /-- Time passes. -/
  | tick (d : Nat)
  /-- Another client appends an entry of its own making. -/
  | foreign (key : String) (body : Body)

/-- Environment steps. -/
def World.env (w : World) : EnvStep → Option World
  | .tick d => some { w with now := w.now + d }
  | .foreign key body =>
    (w.exec 0 .foreign (.redis (.xadd key body none)) (.ok 0)).map Prod.fst

/-- The machine the code runs on. -/
abbrev relay : Machine RelaySig where
  World := World
  Site := Nat
  Actor := Actor
  Answer := Answer
  Env := EnvStep
  exec := World.exec
  crash := World.crash
  env := World.env

/-! ## What one call can do -/

namespace World

variable {w w' : World} {site : Nat} {a : Actor} {ans : Answer}

/-- To record an event changes nothing on the server. -/
@[simp] theorem record_redis (w : World) (ev : Event) : (w.record ev).redis = w.redis := rfl

/-- Nor in the database. -/
@[simp] theorem record_db (w : World) (ev : Event) : (w.record ev).db = w.db := rfl

/-- It takes no time. -/
@[simp] theorem record_now (w : World) (ev : Event) : (w.record ev).now = w.now := rfl

/-- The event is the last one. -/
@[simp] theorem record_log (w : World) (ev : Event) : (w.record ev).log = ev :: w.log := rfl

/-- The server outlives a process. -/
@[simp] theorem crash_redis (w : World) (site : Nat) : (w.crash site).redis = w.redis := rfl

/-- So does the record. -/
@[simp] theorem crash_log (w : World) (site : Nat) : (w.crash site).log = w.log := rfl

/-- A crash takes no time. -/
@[simp] theorem crash_now (w : World) (site : Nat) : (w.crash site).now = w.now := rfl

/-- A call was carried out exactly if it was answered; the record is what is added. -/
theorem exec_eq_some {o : Op} {r : Except PyExc o.Res} :
    w.exec site a o ans = some (w', r) ↔
      ∃ x, w.answer site o ans = some x ∧ x.res = r ∧
        w' = x.world.record ⟨a, o, x.applied, x.evicted, r⟩ := by
  simp only [exec, Option.map_eq_some_iff, Prod.mk.injEq]
  constructor
  · rintro ⟨x, hx, rfl, rfl⟩
    exact ⟨x, hx, rfl, rfl⟩
  · rintro ⟨x, hx, rfl, rfl⟩
    exact ⟨x, hx, rfl, rfl⟩

/-- **A Redis call** either carries its command out, evicting as the command allows, or leaves the
world alone and raises; the caller may see an exception in both cases. -/
theorem exec_redis {c : Redis.Cmd Body} {r : Except PyExc c.Res}
    (h : w.exec site a (.redis c) ans = some (w', r)) :
    (∃ n, c.mayEvict (w.redis c.key) n = true ∧
      w' = (w.sendCmd c n).1.record ⟨a, .redis c, true, n, r⟩ ∧
      (ans = .ok n ∧ r = (w.sendCmd c n).2 ∨
        ∃ e, ans = .lost e n ∧ r = .error e ∧ e.fromRedisCall = true)) ∨
    (∃ e, ans = .fail e ∧ e.fromRedisCall = true ∧ r = .error e ∧
      w' = w.record ⟨a, .redis c, false, 0, r⟩) := by
  obtain ⟨x, hx, rfl, rfl⟩ := exec_eq_some.mp h
  cases ans with
  | ok n =>
    obtain ⟨hev, hx⟩ := Option.ite_none_right_eq_some.mp hx
    obtain rfl := Option.some.inj hx
    exact .inl ⟨n, hev, rfl, .inl ⟨rfl, rfl⟩⟩
  | lost e n =>
    obtain ⟨⟨hev, he⟩, hx⟩ := Option.ite_none_right_eq_some.mp hx
    obtain rfl := Option.some.inj hx
    exact .inl ⟨n, hev, rfl, .inr ⟨e, rfl, rfl, he⟩⟩
  | fail e =>
    obtain ⟨he, hx⟩ := Option.ite_none_right_eq_some.mp hx
    obtain rfl := Option.some.inj hx
    exact .inr ⟨e, rfl, he, rfl, rfl⟩
  | ran _ | wall _ | drawn _ => cases hx

/-- **A SQL call** runs its statement or fails without a trace. -/
theorem exec_sql {s : Stmt} {r : Except PyExc s.Res}
    (h : w.exec site a (.sql s) ans = some (w', r)) :
    (r = (w.runStmt site s).2 ∧
      w' = (w.runStmt site s).1.record ⟨a, .sql s, true, 0, r⟩) ∨
    (∃ e, e.fromSqlCall = true ∧ r = .error e ∧ w' = w.record ⟨a, .sql s, false, 0, r⟩) := by
  obtain ⟨x, hx, rfl, rfl⟩ := exec_eq_some.mp h
  cases ans with
  | ok n =>
    obtain rfl := Option.some.inj hx
    exact .inl ⟨rfl, rfl⟩
  | fail e =>
    obtain ⟨he, hx⟩ := Option.ite_none_right_eq_some.mp hx
    obtain rfl := Option.some.inj hx
    exact .inr ⟨e, he, rfl, rfl⟩
  | lost _ _ | ran _ | wall _ | drawn _ => cases hx

/-- The same, as to the database: the statement ran on it, or it is as it was. -/
theorem exec_sql_db {s : Stmt} {r : Except PyExc s.Res}
    (h : w.exec site a (.sql s) ans = some (w', r)) :
    w'.redis = w.redis ∧
      (w'.db = (w.db.run site s).1 ∧ r = (w.db.run site s).2.mapError .sqliteError ∨
        w'.db = w.db ∧ ∃ e, e.fromSqlCall = true ∧ r = .error e) := by
  rcases exec_sql h with ⟨hr, rfl⟩ | ⟨e, he, hr, rfl⟩
  · exact ⟨rfl, .inl ⟨rfl, hr⟩⟩
  · exact ⟨rfl, .inr ⟨rfl, e, he, hr⟩⟩

/-- The error of a command that was carried out is the server's. -/
theorem exists_of_sendCmd_error {c : Redis.Cmd Body} {n : Nat} {e : PyExc}
    (h : .error e = (w.sendCmd c n).2) : ∃ ce, e = .ofCmdError ce := by
  cases hres : (w.redis.apply w.now n c).2 with
  | ok v => simp [sendCmd, hres, Except.mapError] at h
  | error ce => exact ⟨ce, by simpa [sendCmd, hres, Except.mapError] using h⟩

/-- The error of a statement that was run is the database's. -/
theorem exists_of_runStmt_error {s : Stmt} {e : PyExc} (h : .error e = (w.runStmt site s).2) :
    ∃ se, e = .sqliteError se := by
  cases hres : (w.db.run site s).2 with
  | ok v => simp [runStmt, hres, Except.mapError] at h
  | error se => exact ⟨se, by simpa [runStmt, hres, Except.mapError] using h⟩

/-- The errors of the database are exceptions. -/
theorem exec_sql_isException {s : Stmt} {e : PyExc}
    (h : w.exec site a (.sql s) ans = some (w', .error e)) : e.isException = true := by
  rcases exec_sql h with ⟨hr, -⟩ | ⟨e', he, hr, -⟩
  · obtain ⟨se, rfl⟩ := exists_of_runStmt_error hr
    rfl
  · obtain rfl := Except.error.inj hr
    exact PyExc.isException_of_fromSqlCall he

/-- The servers and their clients raise none of the domain's exceptions. -/
theorem exec_not_domain {o : Op} {e : PyExc} (ho : o.isLocal = false)
    (h : w.exec site a o ans = some (w', .error e)) : e.isDomain = false := by
  have hcall : ∀ {e' : PyExc}, e'.fromRedisCall = true ∨ e'.fromSqlCall = true →
      e'.isDomain = false := by
    intro e' he'
    cases e' <;> first | rfl | simp [PyExc.fromRedisCall, PyExc.fromSqlCall] at he'
  cases o with
  | redis c =>
    rcases exec_redis h with ⟨n, -, -, ⟨-, hr⟩ | ⟨e', -, he, hc⟩⟩ | ⟨e', -, hc, he, -⟩
    · obtain ⟨ce, rfl⟩ := exists_of_sendCmd_error hr
      cases ce <;> rfl
    · exact Except.error.inj he ▸ hcall (.inl hc)
    · exact Except.error.inj he ▸ hcall (.inl hc)
  | sql s =>
    rcases exec_sql h with ⟨hr, -⟩ | ⟨e', hc, he, -⟩
    · obtain ⟨se, rfl⟩ := exists_of_runStmt_error hr
      rfl
    · exact Except.error.inj he ▸ hcall (.inr hc)
  | handler _ _ | monotonic | utcnow | metric _ | delay _ => cases ho

/-- **Every other call** only leaves its record. -/
theorem exec_local {o : Op} {r : Except PyExc o.Res} (ho : o.isLocal = true)
    (h : w.exec site a o ans = some (w', r)) :
    ∃ applied, w' = w.record ⟨a, o, applied, 0, r⟩ := by
  obtain ⟨x, hx, rfl, rfl⟩ := exec_eq_some.mp h
  cases o with
  | redis c => cases ho
  | sql s => cases ho
  | handler job t => cases ans <;> cases hx; exact ⟨_, rfl⟩
  | monotonic => cases ans <;> cases hx; exact ⟨_, rfl⟩
  | utcnow => cases ans <;> cases hx; exact ⟨_, rfl⟩
  | metric m => cases ans <;> cases hx; exact ⟨_, rfl⟩
  | delay n =>
    cases ans with
    | drawn d => cases hx; exact ⟨_, rfl⟩
    | fail e =>
      obtain ⟨-, hx⟩ := Option.ite_none_right_eq_some.mp hx
      cases hx
      exact ⟨_, rfl⟩
    | ok _ | lost _ _ | ran _ | wall _ => cases hx

/-- **Every call but a Redis call** leaves the server alone and evicts nothing. -/
theorem exec_other {o : Op} {r : Except PyExc o.Res} (ho : ∀ c, o ≠ .redis c)
    (h : w.exec site a o ans = some (w', r)) :
    w'.redis = w.redis ∧ ∃ applied, w'.log = ⟨a, o, applied, 0, r⟩ :: w.log := by
  cases o with
  | redis c => exact absurd rfl (ho c)
  | sql s =>
    rcases exec_sql h with ⟨-, rfl⟩ | ⟨e, -, -, rfl⟩ <;> exact ⟨rfl, _, rfl⟩
  | handler _ _ | monotonic | utcnow | metric _ | delay _ =>
    obtain ⟨applied, rfl⟩ := exec_local rfl h
    exact ⟨rfl, _, rfl⟩

/-- A call that is not for the store leaves the database alone. -/
theorem exec_db {o : Op} {r : Except PyExc o.Res} (ho : o.isStore = false)
    (h : w.exec site a o ans = some (w', r)) : w'.db = w.db := by
  cases o with
  | sql s => cases ho
  | redis c => rcases exec_redis h with ⟨n, -, rfl, -⟩ | ⟨e, -, -, -, rfl⟩ <;> rfl
  | handler _ _ | monotonic | utcnow | metric _ | delay _ =>
    obtain ⟨applied, rfl⟩ := exec_local rfl h
    rfl

/-- Answering a call takes no time. -/
theorem exec_now {o : Op} {r : Except PyExc o.Res} (h : w.exec site a o ans = some (w', r)) :
    w'.now = w.now := by
  cases o with
  | redis c =>
    rcases exec_redis h with ⟨n, -, rfl, -⟩ | ⟨e, -, -, -, rfl⟩ <;> rfl
  | sql s =>
    rcases exec_sql h with ⟨-, rfl⟩ | ⟨e, -, -, rfl⟩ <;> rfl
  | handler _ _ | monotonic | utcnow | metric _ | delay _ =>
    obtain ⟨applied, rfl⟩ := exec_local rfl h
    rfl

/-- A world reached from another: the record grows, and no group loses what it has delivered. -/
structure Le (w w' : World) : Prop where
  log : w.log <:+ w'.log
  groups : ∀ k g grp, (w.redis k).groups g = some grp →
    ∃ grp', (w'.redis k).groups g = some grp' ∧ grp.lastDelivered ≤ grp'.lastDelivered

/-- Nothing has to happen. -/
theorem Le.refl (w : World) : w.Le w := ⟨List.suffix_refl _, fun _ _ grp h => ⟨grp, h, le_rfl⟩⟩

/-- What goes on twice goes on. -/
theorem Le.trans {w₁ w₂ w₃ : World} (h₁ : w₁.Le w₂) (h₂ : w₂.Le w₃) : w₁.Le w₃ := by
  refine ⟨h₁.log.trans h₂.log, fun k g grp hg => ?_⟩
  obtain ⟨grp', hg', hle⟩ := h₁.groups k g grp hg
  obtain ⟨grp'', hg'', hle'⟩ := h₂.groups k g grp' hg'
  exact ⟨grp'', hg'', hle.trans hle'⟩

/-- Answering a call adds its record to the log, and nothing else. -/
theorem exec_log {o : Op} {r : Except PyExc o.Res} (h : w.exec site a o ans = some (w', r)) :
    ∃ applied evicted, w'.log = ⟨a, o, applied, evicted, r⟩ :: w.log := by
  by_cases ho : ∃ c, o = .redis c
  · obtain ⟨c, rfl⟩ := ho
    rcases exec_redis h with ⟨n, -, rfl, -⟩ | ⟨e, -, -, -, rfl⟩ <;> exact ⟨_, _, rfl⟩
  · obtain ⟨-, applied, hlog⟩ := exec_other (fun c hc => ho ⟨c, hc⟩) h
    exact ⟨_, _, hlog⟩

/-- Answering a call moves the world forward. -/
theorem exec_le {o : Op} {r : Except PyExc o.Res} (h : w.exec site a o ans = some (w', r)) :
    w.Le w' := by
  refine ⟨?_, fun k g grp hg => ?_⟩
  · obtain ⟨_, _, hlog⟩ := exec_log h
    exact hlog ▸ List.suffix_cons _ _
  · by_cases ho : ∃ c, o = .redis c
    · obtain ⟨c, rfl⟩ := ho
      rcases exec_redis h with ⟨n, -, rfl, -⟩ | ⟨e, -, -, -, rfl⟩
      · exact Redis.Keyspace.apply_groups_le w.redis w.now n c hg
      · exact ⟨grp, hg, le_rfl⟩
    · rw [(exec_other (fun c hc => ho ⟨c, hc⟩) h).1]
      exact ⟨grp, hg, le_rfl⟩

/-- A crash takes nothing back. -/
theorem crash_le (w : World) (site : Nat) : w.Le (w.crash site) :=
  ⟨List.suffix_refl _, fun _ _ grp hg => ⟨grp, hg, le_rfl⟩⟩

/-- Commands that create their groups at the start keep the streams well formed. -/
theorem exec_wf {o : Op} {r : Except PyExc o.Res} (hw : w.redis.Wf)
    (ho : ∀ c, o = .redis c → c.fromStart) (h : w.exec site a o ans = some (w', r)) :
    w'.redis.Wf := by
  by_cases hc : ∃ c, o = .redis c
  · obtain ⟨c, rfl⟩ := hc
    rcases exec_redis h with ⟨n, -, rfl, -⟩ | ⟨e, -, -, -, rfl⟩
    · exact hw.apply w.now n (ho c rfl)
    · exact hw
  · rwa [(exec_other (fun c hc' => hc ⟨c, hc'⟩) h).1]

/-- A group read that is answered with entries delivered them. -/
theorem exec_xreadgroup {g consumer k : String} {count block : Nat}
    {results : List (String × List (Redis.Entry Body))}
    (h : w.exec site a (.redis (.xreadgroup g consumer k count block)) ans =
      some (w', .ok results)) :
    ∃ grp, (w.redis k).groups g = some grp ∧
      (w'.redis k).groups g = some ((w.redis k).deliver grp consumer w.now count).1 ∧
      (w'.redis k).entries = (w.redis k).entries ∧
      ∀ p ∈ results, p.2 = ((w.redis k).deliver grp consumer w.now count).2 := by
  rcases exec_redis h with ⟨n, -, rfl, ⟨-, hr⟩ | ⟨e, -, hr, -⟩⟩ | ⟨e, -, -, hr, -⟩
  · cases hg : (w.redis k).groups g with
    | none => simp [sendCmd, Redis.Keyspace.apply, hg, Except.mapError] at hr
    | some grp =>
      simp only [sendCmd, Redis.Keyspace.apply, hg, Except.mapError, Except.ok.injEq] at hr
      refine ⟨grp, rfl, ?_, ?_, fun p hp => ?_⟩
      · simp [sendCmd, Redis.Keyspace.apply, hg, Redis.Stream.setGroup]
      · simp [sendCmd, Redis.Keyspace.apply, hg, Redis.Stream.setGroup]
      · rw [hr] at hp
        split at hp
        · cases hp
        · rw [List.mem_singleton.mp hp]
  · cases hr
  · cases hr

/-- After a group creation that succeeds or finds the group, the group exists. -/
theorem exec_xgroupCreate {k g : String} {start : Nat} {r : Except PyExc Unit}
    (h : w.exec site a (.redis (.xgroupCreate k g start)) ans = some (w', r))
    (hr : r = .ok () ∨ ∃ msg, r = .error (.responseError msg)) :
    ∃ grp, (w'.redis k).groups g = some grp := by
  have hlost : ∀ e : PyExc, e.fromRedisCall = true → r ≠ .error e := by
    rintro e he rfl
    rcases hr with hr | ⟨msg, hr⟩
    · cases hr
    · obtain rfl := Except.error.inj hr
      cases he
  rcases exec_redis h with ⟨n, -, rfl, ⟨-, -⟩ | ⟨e, -, he, hc⟩⟩ | ⟨e, -, hc, he, -⟩
  · cases hg : (w.redis k).groups g with
    | none => exact ⟨⟨start, []⟩, by simp [sendCmd, Redis.Keyspace.apply, hg, Redis.Stream.setGroup]⟩
    | some grp => exact ⟨grp, by simp [sendCmd, Redis.Keyspace.apply, hg]⟩
  · exact absurd he (hlost e hc)
  · exact absurd he (hlost e hc)

/-! ## Answers without faults -/

end World

/-- The call was carried out and its caller told so. -/
def Answer.faultless : Answer → Bool
  | lost _ _ | fail _ => false
  | ok _ | ran _ | wall _ | drawn _ => true

/-- No call meets a fault. -/
abbrev Faultless (_ : Op) (ans : Answer) : Prop := ans.faultless = true

namespace World

variable {w w' : World} {site : Nat} {a : Actor} {ans : Answer}

/-- Every command can evict some number of entries. -/
theorem exists_mayEvict (s : Redis.Stream Body) (c : Redis.Cmd Body) :
    ∃ n, c.mayEvict s n = true := by
  cases c with
  | xadd k body lim =>
    rcases lim with _ | ⟨limit, _ | _⟩
    · exact ⟨0, rfl⟩
    · exact ⟨s.entries.length + 1 - limit, by simp [Redis.Cmd.mayEvict]⟩
    · exact ⟨0, by simp [Redis.Cmd.mayEvict]⟩
  | _ => exact ⟨0, rfl⟩

/-- **Every call has an answer without faults**; a handler may come to any end. -/
theorem exists_answer (run : HandlerRun) (w : World) (site : Nat) (a : Actor) (o : Op) :
    ∃ ans w' r, (ans.faultless = true ∧ ∀ job t, o = .handler job t → ans = .ran run) ∧
      w.exec site a o ans = some (w', r) := by
  cases o with
  | redis c =>
    obtain ⟨n, hn⟩ := exists_mayEvict (w.redis c.key) c
    exact ⟨.ok n, _, _, ⟨rfl, by simp⟩, exec_eq_some.mpr ⟨_, if_pos hn, rfl, rfl⟩⟩
  | sql s => exact ⟨.ok 0, _, _, ⟨rfl, by simp⟩, exec_eq_some.mpr ⟨_, rfl, rfl, rfl⟩⟩
  | handler job t => exact ⟨.ran run, _, _, ⟨rfl, by simp⟩, exec_eq_some.mpr ⟨_, rfl, rfl, rfl⟩⟩
  | monotonic => exact ⟨.ok 0, _, _, ⟨rfl, by simp⟩, exec_eq_some.mpr ⟨_, rfl, rfl, rfl⟩⟩
  | utcnow =>
    exact ⟨.wall .epoch, _, _, ⟨rfl, by simp⟩,
      exec_eq_some.mpr ⟨_, rfl, rfl, rfl⟩⟩
  | metric m => exact ⟨.ok 0, _, _, ⟨rfl, by simp⟩, exec_eq_some.mpr ⟨_, rfl, rfl, rfl⟩⟩
  | delay n => exact ⟨.drawn 0, _, _, ⟨rfl, by simp⟩, exec_eq_some.mpr ⟨_, rfl, rfl, rfl⟩⟩

/-- Without faults every program comes to its end. -/
theorem responsive_faultless : relay.Responsive Faultless := by
  intro w site a o
  obtain ⟨ans, w', r, hans, hx⟩ := w.exists_answer ⟨.empty, none⟩ site a o
  exact ⟨ans, w', r, hans.1, hx⟩

/-- A Redis call can be carried out and answered. -/
theorem exec_ok (site : Nat) (a : Actor) {c : Redis.Cmd Body} {n : Nat} {r : Except PyExc c.Res}
    (hn : c.mayEvict (w.redis c.key) n = true) (hr : (w.sendCmd c n).2 = r) :
    w.exec site a (.redis c) (.ok n) =
      some ((w.sendCmd c n).1.record ⟨a, .redis c, true, n, r⟩, r) :=
  exec_eq_some.mpr ⟨_, if_pos hn, hr, rfl⟩

/-- A read through a group that exists can be answered. -/
theorem exists_exec_xreadgroup (site : Nat) (a : Actor) {g k : String} {grp : Redis.Group}
    (hg : (w.redis k).groups g = some grp) (consumer : String) (count block : Nat) :
    ∃ w' results, w.exec site a (.redis (.xreadgroup g consumer k count block)) (.ok 0) =
      some (w', .ok results) := by
  have hr : (w.sendCmd (.xreadgroup g consumer k count block) 0).2 =
      .ok (if ((w.redis k).deliver grp consumer w.now count).2.isEmpty then []
        else [(k, ((w.redis k).deliver grp consumer w.now count).2)]) := by
    simp only [sendCmd, Redis.Keyspace.apply, hg, Except.mapError]
  exact ⟨_, _, exec_ok site a rfl hr⟩

/-- A Redis call without faults carries its command out and returns its reply. -/
theorem exec_redis_faultless {c : Redis.Cmd Body} {r : Except PyExc c.Res}
    (h : w.exec site a (.redis c) ans = some (w', r)) (hans : ans.faultless = true) :
    ∃ n, c.mayEvict (w.redis c.key) n = true ∧ r = (w.sendCmd c n).2 ∧
      w' = (w.sendCmd c n).1.record ⟨a, .redis c, true, n, r⟩ := by
  rcases exec_redis h with ⟨n, hn, rfl, ⟨-, hr⟩ | ⟨e, rfl, -⟩⟩ | ⟨e, rfl, -⟩
  · exact ⟨n, hn, hr, rfl⟩
  · cases hans
  · cases hans

/-- A SQL call without faults runs its statement, and is recorded as carried out. -/
theorem exec_sql_applied {s : Stmt} {r : Except PyExc s.Res}
    (h : w.exec site a (.sql s) ans = some (w', r)) (hans : ans.faultless = true) :
    r = (w.runStmt site s).2 ∧ w' = (w.runStmt site s).1.record ⟨a, .sql s, true, 0, r⟩ := by
  obtain ⟨x, hx, rfl, rfl⟩ := exec_eq_some.mp h
  cases ans with
  | ok n =>
    obtain rfl := Option.some.inj hx
    exact ⟨rfl, rfl⟩
  | lost _ _ | fail _ => cases hans
  | ran _ | wall _ | drawn _ => cases hx

/-- The same, as to the database and the server. -/
theorem exec_sql_faultless {s : Stmt} {r : Except PyExc s.Res}
    (h : w.exec site a (.sql s) ans = some (w', r)) (hans : ans.faultless = true) :
    w'.db = (w.db.run site s).1 ∧ w'.redis = w.redis ∧
      r = (w.db.run site s).2.mapError .sqliteError := by
  obtain ⟨hr, rfl⟩ := exec_sql_applied h hans
  exact ⟨rfl, rfl, hr⟩

end World

end RelayQ

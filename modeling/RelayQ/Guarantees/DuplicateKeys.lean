import RelayQ.Application.Enqueue

/-! # Duplicate keys

Calls of `enqueue` that carry one idempotency key over one store. A duplicate is found in two
places: by the lookup, which raises `IdempotencyConflict`, and by the unique index, which raises
SQLite's own `IntegrityError`. Which one it is depends on how many calls look the key up before the
first commit.

* `Reported`: one call wins, every other raises `IdempotencyConflict`.
* `Stage`, `Enqueuer.keyMonitor`, `Enqueuer.wp_enqueue_key`: one call, up to its end.
* `KeyInv`, `keyRule`: the database and the stages of all calls.
* `duplicateKeys`: the key is reported exactly if at most one lookup comes before the first
  commit. -/

namespace RelayQ

section

variable [Codec]

/-! ## What is asked -/

/-- The call committed an outbox row. -/
def Event.commits (ev : Event) : Bool :=
  match ev.op with
  | .sql .commit => ev.applied
  | _ => false

/-- The call looked the key up. -/
def Event.looksUp (key : String) (ev : Event) : Bool :=
  match ev.op with
  | .sql (.selectByKey k) => k = key
  | _ => false

/-- How many lookups of the key came before the first commit. -/
def earlyLookups (key : String) : List Event → Nat
  | [] => 0
  | ev :: log =>
    if ev.looksUp key && !log.any Event.commits then earlyLookups key log + 1
    else earlyLookups key log

/-- One call committed its row and returned an entry id; every other call committed nothing and
raised `IdempotencyConflict`. -/
def Reported (key : String) (s : PoolState relay EnqueueCall Nat) : Prop :=
  ∃ i p n, s.procs[i]? = some p ∧ p.outcome = some (.ok n) ∧
    Row.ofJob p.info.args.keyedJob ∈ s.world.db.committed ∧
    (∃ ev ∈ s.world.log, ev.actor = .enqueuer i ∧ ev.commits = true) ∧
    ∀ j q, j ≠ i → s.procs[j]? = some q →
      q.outcome = some (.error (.idempotencyConflict key)) ∧
      ∀ ev ∈ s.world.log, ev.actor = .enqueuer j → ev.commits = false

/-- A call that carries the key: it has a store behind it, its validation passes, and its job is not
in the store yet. -/
structure Carrier (key : String) (base : Outbox) (call : EnqueueCall) : Prop where
  store : call.enqueuer.store = true
  key : call.args.idempotencyKey = some key
  valid : call.args.validate call.args.job = none
  fresh : ∀ row ∈ base, row.id ≠ call.args.job.id

/-- What an undisturbed call meets: a queue below its maximum depth, a connection that is not in the
middle of a transaction when it looks the key up (no transaction is left across an `await`), and a
write lock that `BEGIN` waited for. -/
def Undisturbed (w : World) (site : Nat) (call : EnqueueCall) : Op → Prop
  | .redis (.xlen k) => (w.redis k).entries.length < call.enqueuer.maxQueueDepth
  | .sql (.selectByKey _) => w.db.txs site = none
  | .sql .begin => w.db.lock = none
  | _ => True

/-- Calls that carry the key, on any connections and answered in any order; no service fails. -/
def KeyLoad (key : String) (base : Outbox) :
    PoolState relay EnqueueCall Nat → PoolLabel relay EnqueueCall → Prop
  | _, .start call _ => Carrier key base call
  | s, .answer i ans => ans.faultless = true ∧
      ∀ p o k, s.procs[i]? = some p → p.prog = some (.call o k) →
        Undisturbed s.world p.site p.info o
  | _, .crash _ => False
  | _, .env _ => True

/-- A store without the key, and nothing on record: how a run begins. -/
structure KeyFree (key : String) (w : World) : Prop where
  idle : w.db.Idle
  key : ∀ row ∈ w.db.committed, row.idempotencyKey ≠ some key
  log : w.log = []

/-! ## One call -/

/-- How far a call has come, and how it fared. -/
inductive Stage
  /-- It has not looked its key up, nor begun a transaction. -/
  | waiting
  /-- The lookup found this row. -/
  | found (row : Row)
  /-- The lookup found nothing. -/
  | missed
  /-- `BEGIN` succeeded. -/
  | begun
  /-- The row is inserted, not committed. -/
  | inserted
  /-- A statement of the transaction failed; it is still open. -/
  | refused (e : PyExc)
  /-- The call raises this. -/
  | failed (e : PyExc)
  /-- The row is committed. -/
  | committed
  /-- The job is on its stream. -/
  | returned

namespace Stage

/-- The call is in a transaction. -/
def inTx : Stage → Bool
  | begun | inserted | refused _ => true
  | _ => false

/-- The call looked its key up in vain. -/
def late : Stage → Bool
  | waiting | found _ => false
  | _ => true

/-- The call has committed its row. -/
def won : Stage → Bool
  | committed | returned => true
  | _ => false

omit [Codec] in
/-- Who has looked its key up, and not in vain, has found a row. -/
theorem found_of_not_late {st : Stage} (hwait : st ≠ .waiting) (hlate : st.late = false) :
    ∃ row, st = .found row := by
  cases st with
  | found row => exact ⟨row, rfl⟩
  | waiting => exact absurd rfl hwait
  | missed | begun | inserted | refused _ | failed _ | committed | returned => cases hlate

end Stage

namespace Enqueuer

variable (enq : Enqueuer) (a : EnqueueArgs)

/-- The statements a call may run at a stage. -/
def keyStmtGuard : Stage → Stmt → Prop
  | .waiting, .selectByKey key => enq.store = true ∧ a.key? = some key
  | .waiting, .begin => enq.store = true ∧ a.key? = none
  | .missed, .begin => enq.store = true
  | .begun, .insert row => row = .ofJob a.keyedJob
  | .inserted, .commit => True
  | .refused _, .rollback => True
  | _, _ => False

/-- The stage after a statement. -/
def keyStmtNext : Stage → (s : Stmt) → Except PyExc s.Res → Stage
  | _, .selectByKey _, .ok (some row) => .found row
  | _, .selectByKey _, .ok none => .missed
  | _, .begin, .ok _ => .begun
  | _, .insert _, .ok _ => .inserted
  | _, .insert _, .error e => .refused e
  | _, .commit, .ok _ => .committed
  | _, .commit, .error e => .refused e
  | .refused e, .rollback, .ok _ => .failed e
  | _, _, .error e => .failed e
  | st, _, _ => st

/-- The stage after a command. -/
def keyCmdNext : Stage → (c : Redis.Cmd Body) → Except PyExc c.Res → Stage
  | st, .xlen _, .ok (n : Nat) =>
    if n < enq.maxQueueDepth then st
    else .failed (.queueFull a.job.queue n enq.maxQueueDepth)
  | _, .xadd _ _ _, .ok _ => .returned
  | _, _, .error e => .failed e
  | st, _, _ => st

/-- Watches a call of `enqueue` up to the exception it raises. -/
def keyMonitor : Monitor RelaySig Stage where
  guard st
    | .redis (.xlen _) => st = .waiting
    | .redis (.xadd _ _ _) => st = .committed ∨ st = .waiting ∧ enq.store = false
    | .sql s => enq.keyStmtGuard a st s
    | .utcnow => ∃ row, st = .found row
    | _ => False
  next st
    | .redis c, r => enq.keyCmdNext a st c r
    | .sql s, r => keyStmtNext st s r
    | _, .ok _ => st
    | _, .error e => .failed e

/-- How a call that has come to this stage ends. -/
def keyPost (out : Except PyExc Nat) : Stage → Prop
  | .waiting => ∃ e, a.validate a.job = some e ∧ out = .error e
  | .found row => ∃ key, a.key? = some key ∧
      ((∀ now, ∃ job, row.toJob now = .ok job) → out = .error (.idempotencyConflict key))
  | .missed | .begun | .inserted | .committed => False
  | .refused e | .failed e => out = .error e
  | .returned => ∃ n, out = .ok n

/-- The lookup finds a row, which is reported, or nothing. -/
theorem wp_checkKey_key (hst : enq.store = true) : (enq.checkKey a.key?).wp (enq.keyMonitor a)
    (fun r st => match r with
      | .ok _ => (a.key? = none ∧ st = .waiting) ∨ st = .missed
      | .error e => ∀ out, out = .error e → keyPost a out st) .waiting := by
  unfold checkKey
  split
  · rename_i key hkey
    rw [if_pos hst]
    refine Prog.wp_bind_of (R := fun r st => match r with
      | .ok none => st = .missed
      | .ok (some _) => ∃ row, st = .found row
      | .error e => ∀ out, out = .error e → keyPost a out st) ?_ (fun existing st h => ?_)
      (fun e st h => h)
    · refine Prog.wp_perform_bind ⟨hst, hkey⟩ (fun row => ?_) (fun e out ho => ho)
      cases row with
      | none => exact rfl
      | some row =>
        refine Prog.wp_perform_bind ⟨row, rfl⟩ (fun now => ?_) (fun e out ho => ho)
        cases hjob : row.toJob now with
        | ok job => exact ⟨row, rfl⟩
        | error e =>
          -- a row that does not decode: the lookup raises the decoder's exception
          refine fun out ho => ⟨key, hkey, fun hall => ?_⟩
          obtain ⟨job, hj⟩ := hall now
          rw [hjob] at hj
          cases hj
    · cases existing with
      | none => exact .inr h
      | some job =>
        obtain ⟨row, rfl⟩ := h
        exact fun out ho => ⟨key, hkey, fun _ => ho⟩
  · rename_i hkey
    exact .inl ⟨hkey, rfl⟩

/-- The outbox write ends with the row committed, or raises what a statement raised. -/
theorem wp_writeOutbox_key (hst : enq.store = true) {st : Stage}
    (h : (a.key? = none ∧ st = .waiting) ∨ st = .missed) :
    (enq.writeOutbox a.keyedJob).wp (enq.keyMonitor a)
    (fun r st => match r with
      | .ok _ => st = .committed
      | .error e => ∀ out, out = .error e → keyPost a out st) st := by
  unfold writeOutbox
  rw [if_pos hst]
  have hbegin : (enq.keyMonitor a).guard st (.sql .begin) := by
    rcases h with ⟨hkey, rfl⟩ | rfl
    · exact ⟨hst, hkey⟩
    · exact hst
  have hnext : (enq.keyMonitor a).next st (.sql .begin) (.ok ()) = .begun ∧
      ∀ e, (enq.keyMonitor a).next st (.sql .begin) (.error e) = .failed e := by
    rcases h with ⟨-, rfl⟩ | rfl <;> exact ⟨rfl, fun _ => rfl⟩
  refine Prog.wp_perform_bind hbegin (fun u => ?_) (fun e out ho => ?_)
  · cases u
    rw [hnext.1]
    -- inside the transaction: what raises is rolled back and raised again
    refine (Prog.wp_tryExcept _ _).mpr (Prog.wp_mono (Q := fun r st => match r with
      | .ok _ => st = .committed
      | .error e => st = .refused e) _ (fun r st h => ?_) ?_)
    · cases r with
      | ok u => exact h
      | error e =>
        obtain rfl := h
        dsimp only
        split
        · exact Prog.wp_perform_bind trivial (fun _ out ho => ho) (fun e' out ho => ho)
        · exact fun out ho => ho
    · refine Prog.wp_perform_bind rfl (fun _ => ?_) fun e => rfl
      exact Prog.wp_perform_bind trivial (fun _ => rfl) fun e => rfl
  · rw [hnext.2]
    exact ho

/-- **How a call ends**: it raises what the lookup, a statement or a command raised; it raises
`IdempotencyConflict` exactly where the lookup found a row; otherwise it has committed its row and
appended its job. -/
theorem wp_enqueue_key :
    (enq.enqueue a).wp (enq.keyMonitor a) (fun out st => keyPost a out st) .waiting := by
  unfold enqueue
  split
  · rename_i e he
    exact ⟨e, he, rfl⟩
  · refine Prog.wp_perform_bind rfl (fun (depth : Nat) => ?_) fun e => rfl
    have hdepth : (enq.keyMonitor a).next .waiting
        (.redis (.xlen (enq.transport.streamKey a.job.queue))) (.ok depth) =
        if depth < enq.maxQueueDepth then Stage.waiting
        else .failed (.queueFull a.job.queue depth enq.maxQueueDepth) := rfl
    rw [hdepth]
    dsimp only
    split
    · rename_i hd
      rw [if_neg (Nat.not_lt.mpr hd)]
      rfl
    · rename_i hd
      rw [if_pos (Nat.lt_of_not_ge hd)]
      -- the append ends the call
      have happend : ∀ st, (st = .committed ∨ st = .waiting ∧ enq.store = false) →
          (enq.transport.xadd a.job.queue a.keyedJob (enq.maxQueueDepth + 1000) true).wp
            (enq.keyMonitor a) (fun out st => keyPost a out st) st := by
        intro st hst
        refine ⟨hst, fun r => ?_⟩
        cases r with
        | ok n => exact ⟨n, rfl⟩
        | error e => rcases hst with rfl | ⟨rfl, -⟩ <;> exact rfl
      cases hst : enq.store with
      | true =>
        refine Prog.wp_bind_of (enq.wp_checkKey_key a hst) (fun u st h => ?_)
          (fun e st h => h _ rfl)
        refine Prog.wp_bind_of (enq.wp_writeOutbox_key a hst h) (fun u st h => ?_)
          (fun e st h => h _ rfl)
        exact happend st (.inl h)
      | false =>
        have hcheck : enq.checkKey a.key? = .ret () := by
          cases hk : a.key? <;> simp [checkKey, hst]
        rw [hcheck]
        simp only [writeOutbox, hst, Bool.false_eq_true, if_false, Prog.ret_bind]
        exact happend .waiting (.inr ⟨rfl, hst⟩)

end Enqueuer

/-! ## The invariant -/

/-- A call with the stage it is at. -/
abbrev Seeker : Type := Proc RelaySig Nat EnqueueCall Nat × Stage

/-- The row the call writes. -/
def Seeker.row (x : Seeker) : Row := .ofJob x.1.info.args.keyedJob

/-- The call is in its transaction on the database `db₀`. -/
def Holds (db db₀ : Db) (x : Seeker) : Prop :=
  match x.2 with
  | .begun | .refused _ => db = db₀.begun x.1.site db₀.committed
  | .inserted => ∃ t, Outbox.insert x.row db₀.committed = .ok t ∧ db = db₀.begun x.1.site t
  | _ => False

/-- The database is idle, or in the transaction of one call. -/
def OneTx (db : Db) (l : List Seeker) : Prop :=
  ∃ db₀ : Db, db₀.Idle ∧ ((db = db₀ ∧ ∀ x ∈ l, x.2.inTx = false) ∨
    ∃ (i : Nat) (x : Seeker), l[i]? = some x ∧ Holds db db₀ x ∧
      ∀ (j : Nat) (y : Seeker), l[j]? = some y → y.2.inTx = true → j = i)

/-- What the call at a place has won: its row is the one that was added, it committed it, and nobody
else committed anything or found any other row. -/
structure Won (base : Outbox) (w : World) (l : List Seeker) (i : Nat) (x : Seeker) : Prop where
  place : l[i]? = some x
  stage : x.2.won = true
  rows : w.db.committed = base ++ [x.row]
  commit : ∃ ev ∈ w.log, ev.actor = .enqueuer i ∧ ev.commits = true
  only : ∀ ev ∈ w.log, ev.commits = true → ev.actor = .enqueuer i
  others : ∀ (j : Nat) (y : Seeker), j ≠ i → l[j]? = some y → y.2.won = false
  found : ∀ y ∈ l, ∀ row, y.2 = .found row → row = x.row

/-- Nobody has committed anything yet, or found or refused a row. -/
structure Open (base : Outbox) (w : World) (l : List Seeker) : Prop where
  rows : w.db.committed = base
  log : w.log.any Event.commits = false
  stages : ∀ x ∈ l, x.2 = .waiting ∨ x.2 = .missed ∨ x.2 = .begun ∨ x.2 = .inserted

/-- The state of the contest for a key that is not empty. -/
structure Contest (key : String) (base : Outbox) (w : World) (l : List Seeker) : Prop where
  tx : OneTx w.db l
  early : earlyLookups key w.log = l.countP fun x => x.2.late
  settled : Open base w l ∨ ∃ i x, Won base w l i x

/-- The invariant. -/
structure KeyInv (key : String) (base : Outbox) (w : World) (l : List Seeker) : Prop where
  carriers : ∀ x ∈ l, Carrier key base x.1.info
  keyed : ∀ x ∈ l, ∀ row, x.2 = .found row → key ≠ ""
  raised : ∀ x ∈ l, ∀ e, x.2 = .refused e ∨ x.2 = .failed e → e.isDomain = false
  contest : key ≠ "" → Contest key base w l

variable {key : String} {base : Outbox} {w w' : World} {l : List Seeker} {i : Nat} {x y : Seeker}

omit [Codec] in
/-- The key of a call that carries one, as the code takes it. -/
theorem Carrier.key? {call : EnqueueCall} (h : Carrier key base call) :
    call.args.key? = if key = "" then none else some key := by
  unfold EnqueueArgs.key?
  rw [h.key]
  by_cases hk : key = ""
  · simp [hk]
  · simp [hk]

/-- The row such a call writes carries the key, and its id is new. -/
theorem Carrier.row (h : Carrier key base x.1.info) (hkey : key ≠ "") :
    x.row.idempotencyKey = some key ∧ ∀ row ∈ base, row.id ≠ x.row.id := by
  have hk : x.1.info.args.key? = some key := by rw [h.key?, if_neg hkey]
  have hjob : x.1.info.args.keyedJob = { x.1.info.args.job with idempotencyKey := some key } := by
    simp [EnqueueArgs.keyedJob, hk]
  refine ⟨by simp [Seeker.row, Row.ofJob, hjob], fun row hrow => ?_⟩
  have hid : x.row.id = x.1.info.args.job.id := by simp [Seeker.row, Row.ofJob, hjob]
  rw [hid]
  exact h.fresh row hrow

/-! ### What a step does to the parts -/

/-- A call in a transaction is the one that holds the database. -/
theorem OneTx.holder {db : Db} (h : OneTx db l) (hi : l[i]? = some x) (hx : x.2.inTx = true) :
    ∃ db₀ : Db, db₀.Idle ∧ Holds db db₀ x ∧
      ∀ (j : Nat) (y : Seeker), l[j]? = some y → y.2.inTx = true → j = i := by
  obtain ⟨db₀, hidle, ⟨-, hnone⟩ | ⟨j, y, hj, hy, huniq⟩⟩ := h
  · rw [hnone x (List.mem_of_getElem? hi)] at hx
    cases hx
  · obtain rfl := huniq i x hi hx
    rw [hi] at hj
    obtain rfl := Option.some.inj hj
    exact ⟨db₀, hidle, hy, huniq⟩

/-- Who holds the database is in a transaction. -/
theorem Holds.inTx {db db₀ : Db} (h : Holds db db₀ x) : x.2.inTx = true ∧ db.lock ≠ none := by
  unfold Holds at h
  cases hst : x.2 with
  | begun | refused _ =>
    rw [hst] at h
    exact ⟨rfl, by simp [h, Sqlite.Database.begun]⟩
  | inserted =>
    rw [hst] at h
    obtain ⟨t, -, hdb⟩ := h
    exact ⟨rfl, by simp [hdb, Sqlite.Database.begun]⟩
  | waiting | found _ | missed | failed _ | committed | returned =>
    rw [hst] at h
    exact h.elim

/-- A step outside any transaction leaves the transactions as they are. -/
theorem OneTx.keep {db : Db} (h : OneTx db l) (hi : l[i]? = some x) (hx : x.2.inTx = false)
    (hy : y.2.inTx = false) : OneTx db (l.set i y) := by
  obtain ⟨db₀, hidle, ⟨hdb, hnone⟩ | ⟨j, z, hj, hz, huniq⟩⟩ := h
  · refine ⟨db₀, hidle, .inl ⟨hdb, fun z hz => ?_⟩⟩
    rcases List.mem_or_eq_of_mem_set hz with hz | rfl
    · exact hnone z hz
    · exact hy
  · have hij : i ≠ j := by
      rintro rfl
      rw [hi] at hj
      obtain rfl := Option.some.inj hj
      rw [hz.inTx.1] at hx
      cases hx
    refine ⟨db₀, hidle, .inr ⟨j, z, by rw [List.getElem?_set_ne hij, hj], hz, fun k u hk hu => ?_⟩⟩
    rcases getElem?_set_cases hk with ⟨-, rfl⟩ | ⟨-, hk⟩
    · rw [hy] at hu
      cases hu
    · exact huniq k u hk hu

/-- The call that holds the database goes on holding it. -/
theorem OneTx.of_holds {db db₀ : Db} (hidle : db₀.Idle) (hi : i < l.length)
    (huniq : ∀ (j : Nat) (z : Seeker), l[j]? = some z → z.2.inTx = true → j = i)
    (hy : Holds db db₀ y) : OneTx db (l.set i y) := by
  refine ⟨db₀, hidle, .inr ⟨i, y, List.getElem?_set_self hi, hy, fun j z hj hz => ?_⟩⟩
  rcases getElem?_set_cases hj with ⟨hji, -⟩ | ⟨-, hj⟩
  · exact hji
  · exact huniq j z hj hz

/-- The call that held the database has ended its transaction. -/
theorem OneTx.of_idle {db : Db} (hidle : db.Idle)
    (huniq : ∀ (j : Nat) (z : Seeker), l[j]? = some z → z.2.inTx = true → j = i)
    (hy : y.2.inTx = false) : OneTx db (l.set i y) := by
  refine ⟨db, hidle, .inl ⟨rfl, fun z hz => ?_⟩⟩
  obtain ⟨j, hj⟩ := List.mem_iff_getElem?.mp hz
  rcases getElem?_set_cases hj with ⟨-, rfl⟩ | ⟨hji, hj⟩
  · exact hy
  · cases hz : z.2.inTx with
    | false => rfl
    | true => exact absurd (huniq j z hj hz) hji

omit [Codec] in
/-- The counts after one more call was answered. -/
theorem early_set {ev : Event} {log : List Event}
    (h : earlyLookups key log = l.countP fun x => x.2.late) (hi : l[i]? = some x)
    (hev : (if ev.looksUp key && !log.any Event.commits then 1 else 0) +
      (if x.2.late then 1 else 0) = if y.2.late then 1 else 0) :
    earlyLookups key (ev :: log) = (l.set i y).countP fun x => x.2.late := by
  have hset : ((l.set i y).countP fun x => x.2.late) + (if x.2.late then 1 else 0) =
      (l.countP fun x => x.2.late) + if y.2.late then 1 else 0 :=
    countP_set_add (p := fun x : Seeker => x.2.late) hi
  unfold earlyLookups
  split
  · rename_i hc
    rw [if_pos hc] at hev
    omega
  · rename_i hc
    rw [if_neg hc] at hev
    omega

omit [Codec] in
/-- The contest stays open while nobody commits. -/
theorem Open.set (h : Open base w l) {ev : Event} (hrows : w'.db.committed = w.db.committed)
    (hlog : w'.log = ev :: w.log) (hev : ev.commits = false)
    (hy : y.2 = .waiting ∨ y.2 = .missed ∨ y.2 = .begun ∨ y.2 = .inserted) :
    Open base w' (l.set i y) := by
  refine ⟨hrows.trans h.rows, by simp [hlog, hev, h.log], fun z hz => ?_⟩
  rcases List.mem_or_eq_of_mem_set hz with hz | rfl
  · exact h.stages z hz
  · exact hy

/-- Who has won has won whatever the others do but commit. -/
theorem Won.set {n : Nat} {z : Seeker} (h : Won base w l n z) (hi : l[i]? = some x) {ev : Event}
    (hinfo : y.1.info = x.1.info) (hrows : w'.db.committed = w.db.committed)
    (hlog : w'.log = ev :: w.log) (hev : ev.commits = false) (hy : y.2.won = x.2.won)
    (hfound : ∀ row, y.2 = .found row → row = z.row) :
    ∃ u, u.row = z.row ∧ Won base w' (l.set i y) n u := by
  have hlt : i < l.length := (List.getElem?_eq_some_iff.mp hi).1
  have hcommit : ∃ ev ∈ w'.log, ev.actor = .enqueuer n ∧ ev.commits = true := by
    obtain ⟨ev', hmem, hact⟩ := h.commit
    exact ⟨ev', by simp [hlog, hmem], hact⟩
  have honly : ∀ ev ∈ w'.log, ev.commits = true → ev.actor = .enqueuer n := by
    intro ev' hmem hc
    rw [hlog] at hmem
    rcases List.mem_cons.mp hmem with rfl | hmem
    · rw [hev] at hc
      cases hc
    · exact h.only ev' hmem hc
  have hothers : ∀ (j : Nat) (u : Seeker), j ≠ n → (l.set i y)[j]? = some u → u.2.won = false := by
    intro j u hj hu
    rcases getElem?_set_cases hu with ⟨rfl, rfl⟩ | ⟨-, hu⟩
    · rw [hy]
      exact h.others j x hj hi
    · exact h.others j u hj hu
  have hfounds : ∀ u ∈ l.set i y, ∀ row, u.2 = .found row → row = z.row := by
    intro u hu row hrow
    rcases List.mem_or_eq_of_mem_set hu with hu | rfl
    · exact h.found u hu row hrow
    · exact hfound row hrow
  by_cases hin : i = n
  · subst hin
    have hzx : z = x := Option.some.inj (h.place.symm.trans hi)
    have hrow : y.row = z.row := by rw [hzx, Seeker.row, hinfo, ← Seeker.row]
    refine ⟨y, hrow, ⟨List.getElem?_set_self hlt, ?_, ?_, hcommit, honly, hothers, ?_⟩⟩
    · rw [hy, ← hzx]
      exact h.stage
    · rw [hrows, h.rows, hrow]
    · rw [hrow]
      exact hfounds
  · exact ⟨z, rfl, ⟨by rw [List.getElem?_set_ne hin, h.place], h.stage, hrows.trans h.rows, hcommit,
      honly, hothers, hfounds⟩⟩

/-- The contest after a step that commits nothing. -/
theorem Contest.set (h : Contest key base w l) (hi : l[i]? = some x) {ev : Event}
    (hinfo : y.1.info = x.1.info) (hrows : w'.db.committed = w.db.committed)
    (hlog : w'.log = ev :: w.log) (hev : ev.commits = false) (hwon : y.2.won = x.2.won)
    (hlate : (if ev.looksUp key && !w.log.any Event.commits then 1 else 0) +
      (if x.2.late then 1 else 0) = if y.2.late then 1 else 0)
    (htx : OneTx w'.db (l.set i y))
    (hopen : Open base w l →
      y.2 = .waiting ∨ y.2 = .missed ∨ y.2 = .begun ∨ y.2 = .inserted)
    (hfound : ∀ n z, Won base w l n z → ∀ row, y.2 = .found row → row = z.row) :
    Contest key base w' (l.set i y) := by
  refine ⟨htx, hlog ▸ early_set h.early hi hlate, ?_⟩
  rcases h.settled with ho | ⟨n, z, hz⟩
  · exact .inl (ho.set hrows hlog hev (hopen ho))
  · obtain ⟨u, -, hu⟩ := hz.set hi hinfo hrows hlog hev hwon (hfound n z hz)
    exact .inr ⟨n, u, hu⟩

/-- The contest after a call that leaves the database and the stage alone. -/
theorem Contest.quiet (h : Contest key base w l) (hi : l[i]? = some x) {ev : Event}
    (hinfo : y.1.info = x.1.info) (hdb : w'.db = w.db) (hlog : w'.log = ev :: w.log)
    (hev : ev.commits = false) (hlook : ev.looksUp key = false) (hx : x.2.inTx = false)
    (hy : y.2 = x.2) : Contest key base w' (l.set i y) := by
  refine h.set hi hinfo (by rw [hdb]) hlog hev (by rw [hy]) (by simp [hlook, hy]) ?_ ?_ ?_
  · rw [hdb]
    exact h.tx.keep hi hx (hy ▸ hx)
  · intro ho
    rw [hy]
    exact ho.stages x (List.mem_of_getElem? hi)
  · intro n z hz row hrow
    exact hz.found x (List.mem_of_getElem? hi) row (hy ▸ hrow)

/-- The invariant after an answer, from what becomes of the call and of the contest. -/
theorem KeyInv.set (h : KeyInv key base w l) (hi : l[i]? = some x)
    (hinfo : y.1.info = x.1.info) (hkeyed : ∀ row, y.2 = .found row → key ≠ "")
    (hraised : ∀ e, y.2 = .refused e ∨ y.2 = .failed e → e.isDomain = false)
    (hcontest : key ≠ "" → Contest key base w' (l.set i y)) : KeyInv key base w' (l.set i y) := by
  have hmem : ∀ z ∈ l.set i y, z ∈ l ∨ z = y := fun z hz => List.mem_or_eq_of_mem_set hz
  refine ⟨fun z hz => ?_, fun z hz => ?_, fun z hz => ?_, hcontest⟩
  · rcases hmem z hz with hz | rfl
    · exact h.carriers z hz
    · rw [hinfo]
      exact h.carriers x (List.mem_of_getElem? hi)
  · rcases hmem z hz with hz | rfl
    · exact h.keyed z hz
    · exact hkeyed
  · rcases hmem z hz with hz | rfl
    · exact h.raised z hz
    · exact hraised

/-! ### The statements -/

section

variable {p : Proc RelaySig Nat EnqueueCall Nat} {q : Option (Py Nat)} {st : Stage}

/-- A lookup finds nothing while the contest is open, and the winner's row afterwards. -/
theorem Contest.lookup (h : Contest key base w l) (hi : l[i]? = some (p, .waiting))
    (hbase : ∀ row ∈ base, row.idempotencyKey ≠ some key)
    (hrow : ∀ z ∈ l, z.row.idempotencyKey = some key) (htx : w.db.txs p.site = none)
    {r : Except PyExc (Option Row)} (hr : r = (w.runStmt p.site (.selectByKey key)).2)
    (hw : w' = (w.runStmt p.site (.selectByKey key)).1.record
      ⟨.enqueuer i, .sql (.selectByKey key), true, 0, r⟩) :
    Contest key base w' (l.set i ({ p with prog := q },
      Enqueuer.keyStmtNext .waiting (.selectByKey key) r)) := by
  have hread : w.db.run p.site (.selectByKey key) =
      (w.db, .ok (w.db.committed.find? fun row => row.idempotencyKey = some key)) := by
    rw [Db.run, Sqlite.Database.read_of_none htx]
  have hdb : w'.db = w.db := by rw [hw, World.record_db, World.runStmt, hread]
  have hlog : w'.log = ⟨.enqueuer i, .sql (.selectByKey key), true, 0, r⟩ :: w.log := by
    rw [hw]
    rfl
  have hres : r = .ok (w.db.committed.find? fun row => row.idempotencyKey = some key) := by
    rw [hr, World.runStmt, hread]
    rfl
  have hnone : base.find? (fun row => row.idempotencyKey = some key) = none := by
    refine List.find?_eq_none.mpr fun row hmem => ?_
    simpa using hbase row hmem
  rcases h.settled with ho | ⟨n, z, hz⟩
  · -- nobody has committed: the lookup is in vain
    rw [ho.rows, hnone] at hres
    subst hres
    refine h.set hi rfl (by rw [hdb]) hlog rfl rfl ?_ ?_ (fun _ => .inr (.inl rfl)) ?_
    · simp [Event.looksUp, ho.log, Stage.late, Enqueuer.keyStmtNext]
    · rw [hdb]
      exact h.tx.keep hi rfl rfl
    · intro n z hz row hf
      cases hf
  · -- somebody has: the lookup finds that row
    have hsome : (base ++ [z.row]).find? (fun row => row.idempotencyKey = some key) =
        some z.row := by
      rw [List.find?_append, hnone]
      simp [hrow z (List.mem_of_getElem? hz.place)]
    have hany : w.log.any Event.commits = true := by
      obtain ⟨ev, hmem, -, hc⟩ := hz.commit
      exact List.any_eq_true.mpr ⟨ev, hmem, hc⟩
    rw [hz.rows, hsome] at hres
    subst hres
    refine h.set hi rfl (by rw [hdb]) hlog rfl rfl ?_ ?_ ?_ ?_
    · simp [hany, Stage.late, Enqueuer.keyStmtNext]
    · rw [hdb]
      exact h.tx.keep hi rfl rfl
    · intro ho
      rw [ho.log] at hany
      cases hany
    · intro m u hu row hf
      obtain rfl : z.row = row := by simpa [Enqueuer.keyStmtNext] using hf
      have hrows := hz.rows.symm.trans hu.rows
      simpa using List.append_cancel_left hrows

/-- With the write lock free a transaction begins. -/
theorem Contest.begin (h : Contest key base w l) (hi : l[i]? = some (p, .missed))
    (hlock : w.db.lock = none) {r : Except PyExc Unit} (hr : r = (w.runStmt p.site .begin).2)
    (hw : w' = (w.runStmt p.site .begin).1.record ⟨.enqueuer i, .sql .begin, true, 0, r⟩) :
    Contest key base w' (l.set i ({ p with prog := q },
      Enqueuer.keyStmtNext .missed .begin r)) := by
  have hlt : i < l.length := (List.getElem?_eq_some_iff.mp hi).1
  have hidle : w.db.Idle ∧ ∀ x ∈ l, x.2.inTx = false := by
    obtain ⟨db₀, hidle, ⟨hdb, hnone⟩ | ⟨j, z, -, hz, -⟩⟩ := h.tx
    · exact ⟨hdb ▸ hidle, hnone⟩
    · exact absurd hlock hz.inTx.2
  have hbegin : w.db.run p.site .begin = (w.db.begun p.site w.db.committed, .ok ()) :=
    Sqlite.Database.beginImmediate_eq_ok.mpr ⟨hidle.1.2 p.site, hlock, rfl⟩
  have hdb : w'.db = w.db.begun p.site w.db.committed := by
    rw [hw, World.record_db, World.runStmt, hbegin]
  have hres : r = .ok () := by
    rw [hr, World.runStmt, hbegin]
    rfl
  subst hres
  refine h.set hi rfl (by rw [hdb]; rfl) (by rw [hw]; rfl) rfl rfl rfl ?_
    (fun _ => .inr (.inr (.inl rfl))) (fun n z _ row hf => by cases hf)
  refine OneTx.of_holds hidle.1 hlt (fun j z hj hz => ?_) (y := (_, .begun)) hdb
  rw [hidle.2 z (List.mem_of_getElem? hj)] at hz
  cases hz

/-- An insert succeeds while the contest is open, and is refused by the index afterwards. -/
theorem Contest.insert (h : Contest key base w l) (hi : l[i]? = some (p, .begun))
    (hcar : ∀ z ∈ l, z.row.idempotencyKey = some key ∧ ∀ row ∈ base, row.id ≠ z.row.id)
    (hbase : ∀ row ∈ base, row.idempotencyKey ≠ some key) {r : Except PyExc Unit}
    (hr : r = (w.runStmt p.site (.insert (.ofJob p.info.args.keyedJob))).2)
    (hw : w' = (w.runStmt p.site (.insert (.ofJob p.info.args.keyedJob))).1.record
      ⟨.enqueuer i, .sql (.insert (.ofJob p.info.args.keyedJob)), true, 0, r⟩) :
    Contest key base w' (l.set i ({ p with prog := q },
      Enqueuer.keyStmtNext .begun (.insert (.ofJob p.info.args.keyedJob)) r)) := by
  have hlt : i < l.length := (List.getElem?_eq_some_iff.mp hi).1
  obtain ⟨db₀, hidle, hdb₀, huniq⟩ := h.tx.holder hi rfl
  have hopen : w.db = db₀.begun p.site db₀.committed := hdb₀
  have hcom : db₀.committed = w.db.committed := by rw [hopen]; rfl
  obtain ⟨hkey, hid⟩ := hcar _ (List.mem_of_getElem? hi)
  have hrun : w.db.run p.site (.insert (.ofJob p.info.args.keyedJob)) =
      match Outbox.insert (.ofJob p.info.args.keyedJob) db₀.committed with
      | .ok t' => (db₀.begun p.site t', .ok ())
      | .error e => (db₀.begun p.site db₀.committed, .error (.constraint e)) := by
    rw [Db.run, hopen, Sqlite.Database.write_begun]
    cases Outbox.insert (.ofJob p.info.args.keyedJob) db₀.committed <;> rfl
  have hlog : w'.log =
      ⟨.enqueuer i, .sql (.insert (.ofJob p.info.args.keyedJob)), true, 0, r⟩ :: w.log := by
    rw [hw]
    rfl
  rcases h.settled with ho | ⟨n, z, hz⟩
  · -- nobody has committed: neither the id nor the key is taken
    have hins : Outbox.insert (.ofJob p.info.args.keyedJob) db₀.committed =
        .ok (db₀.committed ++ [.ofJob p.info.args.keyedJob]) := by
      rw [hcom, ho.rows, Outbox.insert, if_neg, if_neg]
      · rintro ⟨-, hany⟩
        obtain ⟨row, hmem, hrow⟩ := List.any_eq_true.mp hany
        exact hbase row hmem ((of_decide_eq_true hrow).trans hkey)
      · intro hany
        obtain ⟨row, hmem, hrow⟩ := List.any_eq_true.mp hany
        exact hid row hmem (of_decide_eq_true hrow)
    rw [hins] at hrun
    have hdb : w'.db = db₀.begun p.site (db₀.committed ++ [.ofJob p.info.args.keyedJob]) := by
      rw [hw, World.record_db, World.runStmt, hrun]
    have hres : r = .ok () := by
      rw [hr, World.runStmt, hrun]
      rfl
    subst hres
    refine h.set hi rfl ?_ hlog rfl rfl rfl ?_ (fun _ => .inr (.inr (.inr rfl)))
      (fun n z _ row hf => by cases hf)
    · rw [hdb, hopen]
      rfl
    · exact OneTx.of_holds hidle hlt huniq (y := (_, .inserted)) ⟨_, hins, hdb⟩
  · -- somebody has: the key is taken
    have hins : ∃ e, Outbox.insert (.ofJob p.info.args.keyedJob) db₀.committed = .error e := by
      rw [hcom, hz.rows, Outbox.insert]
      split
      · exact ⟨_, rfl⟩
      · refine ⟨.idempotencyKey, if_pos ⟨?_, List.any_eq_true.mpr ⟨z.row, by simp, ?_⟩⟩⟩
        · have hk : (Row.ofJob p.info.args.keyedJob).idempotencyKey = some key := hkey
          rw [hk]
          rfl
        · exact decide_eq_true ((hcar z (List.mem_of_getElem? hz.place)).1.trans hkey.symm)
    obtain ⟨e, hins⟩ := hins
    rw [hins] at hrun
    have hdb : w'.db = db₀.begun p.site db₀.committed := by
      rw [hw, World.record_db, World.runStmt, hrun]
    have hres : r = .error (.sqliteError (.constraint e)) := by
      rw [hr, World.runStmt, hrun]
      rfl
    subst hres
    refine h.set hi rfl ?_ hlog rfl rfl rfl ?_ (fun ho => ?_) (fun n z _ row hf => by cases hf)
    · rw [hdb, hopen]
    · exact OneTx.of_holds hidle hlt huniq (y := (_, .refused _)) hdb
    · have hlen := congrArg List.length (hz.rows.symm.trans ho.rows)
      simp at hlen

/-- The first commit settles the contest; there is no second one. -/
theorem Contest.commit (h : Contest key base w l) (hi : l[i]? = some (p, .inserted))
    (hcar : ∀ z ∈ l, z.row.idempotencyKey = some key) {r : Except PyExc Unit}
    (hr : r = (w.runStmt p.site .commit).2)
    (hw : w' = (w.runStmt p.site .commit).1.record ⟨.enqueuer i, .sql .commit, true, 0, r⟩) :
    Contest key base w' (l.set i ({ p with prog := q },
      Enqueuer.keyStmtNext .inserted .commit r)) := by
  have hlt : i < l.length := (List.getElem?_eq_some_iff.mp hi).1
  obtain ⟨db₀, hidle, hdb₀, huniq⟩ := h.tx.holder hi rfl
  obtain ⟨t, hins, hopen⟩ :
      ∃ t, Outbox.insert (.ofJob p.info.args.keyedJob) db₀.committed = .ok t ∧
        w.db = db₀.begun p.site t := hdb₀
  have hcom : db₀.committed = w.db.committed := by rw [hopen]; rfl
  have hkey : (Row.ofJob p.info.args.keyedJob).idempotencyKey = some key :=
    hcar _ (List.mem_of_getElem? hi)
  obtain ⟨rfl, -, hfree⟩ := Outbox.insert_ok hins
  have hdb : w'.db = { db₀ with
      committed := db₀.committed ++ [.ofJob p.info.args.keyedJob], version := db₀.version + 1 } := by
    have hcommit := Sqlite.Database.commit_begun (c := p.site)
      (t := db₀.committed ++ [.ofJob p.info.args.keyedJob]) hidle.1 (hidle.2 p.site)
    rw [← hopen] at hcommit
    rw [hw]
    exact hcommit
  obtain rfl : r = .ok () := hr
  have hlog : w'.log = ⟨.enqueuer i, .sql .commit, true, 0, .ok ()⟩ :: w.log := by
    rw [hw]
    rfl
  have ho : Open base w l := by
    rcases h.settled with ho | ⟨n, z, hz⟩
    · exact ho
    · -- the winner's row would have refused the insert
      refine absurd ?_ (hfree key hkey)
      rw [hcom, hz.rows]
      exact List.mem_filterMap.mpr ⟨z.row, by simp, hcar z (List.mem_of_getElem? hz.place)⟩
  refine ⟨?_, ?_, .inr ⟨i, ({ p with prog := q }, .committed), List.getElem?_set_self hlt, rfl,
    ?_, ?_, ?_, ?_, ?_⟩⟩
  · refine OneTx.of_idle ?_ huniq rfl
    rw [hdb]
    exact hidle
  · rw [hlog]
    exact early_set h.early hi rfl
  · rw [hdb, ← ho.rows, ← hcom]
    rfl
  · exact ⟨_, by rw [hlog]; exact List.mem_cons_self, rfl, rfl⟩
  · intro ev hmem hc
    rw [hlog] at hmem
    rcases List.mem_cons.mp hmem with rfl | hmem
    · rfl
    · have hany : w.log.any Event.commits = true := List.any_eq_true.mpr ⟨ev, hmem, hc⟩
      rw [ho.log] at hany
      cases hany
  · intro j z hj hz
    rw [List.getElem?_set_ne (Ne.symm hj)] at hz
    rcases ho.stages z (List.mem_of_getElem? hz) with hs | hs | hs | hs <;> rw [hs] <;> rfl
  · intro z hz row hrow
    rcases List.mem_or_eq_of_mem_set hz with hz | rfl
    · rcases ho.stages z hz with hs | hs | hs | hs <;> rw [hs] at hrow <;> cases hrow
    · cases hrow

/-- A rollback ends the transaction of a call that was refused. -/
theorem Contest.rollback (h : Contest key base w l) {e : PyExc}
    (hi : l[i]? = some (p, .refused e)) {r : Except PyExc Unit}
    (hr : r = (w.runStmt p.site .rollback).2)
    (hw : w' = (w.runStmt p.site .rollback).1.record ⟨.enqueuer i, .sql .rollback, true, 0, r⟩) :
    Contest key base w' (l.set i ({ p with prog := q },
      Enqueuer.keyStmtNext (.refused e) .rollback r)) := by
  obtain ⟨db₀, hidle, hdb₀, huniq⟩ := h.tx.holder hi rfl
  have hopen : w.db = db₀.begun p.site db₀.committed := hdb₀
  have hdb : w'.db = db₀ := by
    have hback := Sqlite.Database.rollback_begun (c := p.site) (t := db₀.committed) hidle.1
      (hidle.2 p.site)
    rw [← hopen] at hback
    rw [hw]
    exact hback
  obtain rfl : r = .ok () := hr
  refine h.set hi rfl ?_ (by rw [hw]; rfl) rfl rfl rfl ?_ (fun ho => ?_)
    (fun n z _ row hf => by cases hf)
  · rw [hdb, hopen]
    rfl
  · rw [hdb]
    exact OneTx.of_idle hidle huniq rfl
  · rcases ho.stages _ (List.mem_of_getElem? hi) with hs | hs | hs | hs <;> cases hs

omit [Codec] in
/-- A call that raises after a statement raises what the statement raised, or had raised before. -/
theorem Enqueuer.keyStmtNext_raised {s : Stmt} {r : Except PyExc s.Res} {e : PyExc}
    (h : keyStmtNext st s r = .refused e ∨ keyStmtNext st s r = .failed e) :
    r = .error e ∨ st = .refused e ∨ st = .failed e := by
  unfold keyStmtNext at h
  split at h <;> simp_all

/-- The invariant after a statement. -/
theorem KeyInv.sql (h : KeyInv key base w l)
    (hbase : ∀ row ∈ base, row.idempotencyKey ≠ some key) {s : Stmt} {ans : Answer}
    {r : Except PyExc s.Res} (hi : l[i]? = some (p, st)) (hans : ans.faultless = true)
    (hok : Undisturbed w p.site p.info (.sql s))
    (hg : p.info.enqueuer.keyStmtGuard p.info.args st s)
    (hx : w.exec p.site (.enqueuer i) (.sql s) ans = some (w', r)) :
    KeyInv key base w' (l.set i ({ p with prog := q }, Enqueuer.keyStmtNext st s r)) := by
  have hcarrier : Carrier key base p.info := h.carriers _ (List.mem_of_getElem? hi)
  obtain ⟨hr, hw⟩ := World.exec_sql_applied hx hans
  have hraised : ∀ e, Enqueuer.keyStmtNext st s r = .refused e ∨
      Enqueuer.keyStmtNext st s r = .failed e → e.isDomain = false := by
    intro e he
    rcases Enqueuer.keyStmtNext_raised he with rfl | hst | hst
    · exact World.exec_not_domain rfl hx
    · exact h.raised _ (List.mem_of_getElem? hi) e (.inl hst)
    · exact h.raised _ (List.mem_of_getElem? hi) e (.inr hst)
  refine h.set hi rfl (fun row hf => ?_) hraised (fun hkey => ?_)
  · -- only a lookup finds a row, and without a key there is none
    rintro rfl
    cases s with
    | selectByKey k =>
      cases st <;> first | exact hg.elim | skip
      have hk := hcarrier.key?.symm.trans hg.2
      simp at hk
    | begin | insert _ | update _ _ _ | selectById _ | commit | rollback =>
      cases st <;> first | exact hg.elim | (cases r <;> cases hf)
  · have hrow : ∀ z ∈ l, z.row.idempotencyKey = some key ∧ ∀ row ∈ base, row.id ≠ z.row.id :=
      fun z hz => (h.carriers z hz).row hkey
    have hkey? : p.info.args.key? = some key := by rw [hcarrier.key?, if_neg hkey]
    have hc := h.contest hkey
    cases s with
    | selectByKey k =>
      cases st <;> first | exact hg.elim | skip
      obtain rfl : k = key := Option.some.inj (hg.2.symm.trans hkey?)
      exact hc.lookup hi hbase (fun z hz => (hrow z hz).1) hok hr hw
    | begin =>
      cases st <;> first | exact hg.elim | skip
      · have hnone := hg.2
        rw [hkey?] at hnone
        cases hnone
      · exact hc.begin hi hok hr hw
    | insert row =>
      cases st <;> first | exact hg.elim | skip
      obtain rfl : row = .ofJob p.info.args.keyedJob := hg
      exact hc.insert hi hrow hbase hr hw
    | commit =>
      cases st <;> first | exact hg.elim | skip
      exact hc.commit hi (fun z hz => (hrow z hz).1) hr hw
    | rollback =>
      cases st <;> first | exact hg.elim | skip
      exact hc.rollback hi hr hw
    | update _ _ _ | selectById _ => cases st <;> exact hg.elim

end

/-- **The invariant is kept by every answer.** -/
theorem KeyInv.answer (h : KeyInv key base w l)
    (hbase : ∀ row ∈ base, row.idempotencyKey ≠ some key)
    {p : Proc RelaySig Nat EnqueueCall Nat} {st : Stage} {o : Op}
    {k : Except PyExc o.Res → Py Nat} {ans : Answer} {r : Except PyExc o.Res}
    (hi : l[i]? = some (p, st)) (hans : ans.faultless = true)
    (hok : Undisturbed w p.site p.info o)
    (hg : (p.info.enqueuer.keyMonitor p.info.args).guard st o)
    (hx : w.exec p.site (.enqueuer i) o ans = some (w', r)) :
    KeyInv key base w' (l.set i ({ p with prog := some (k r) },
      (p.info.enqueuer.keyMonitor p.info.args).next st o r)) := by
  have hcarrier : Carrier key base p.info := h.carriers _ (List.mem_of_getElem? hi)
  obtain ⟨applied, evicted, hlog⟩ := World.exec_log hx
  cases o with
  | sql s => exact h.sql hbase hi hans hok hg hx
  | utcnow =>
    obtain ⟨row, rfl⟩ := hg
    obtain ⟨applied, hw⟩ := World.exec_local rfl hx
    have hres : ∃ t, r = .ok t := by
      obtain ⟨x, hx, hxr, -⟩ := World.exec_eq_some.mp hx
      cases ans <;> cases hx
      exact ⟨_, hxr.symm⟩
    obtain ⟨t, rfl⟩ := hres
    refine h.set hi rfl (fun row' _ => h.keyed _ (List.mem_of_getElem? hi) row rfl) ?_ (fun hkey => ?_)
    · rintro e (he | he) <;> cases he
    · exact (h.contest hkey).quiet hi rfl (by rw [hw, World.record_db]) hlog rfl rfl rfl rfl
  | handler _ _ | monotonic | metric _ | delay _ => exact hg.elim
  | redis c =>
    obtain ⟨n, -, hr, hw⟩ := World.exec_redis_faultless hx hans
    have hdb : w'.db = w.db := by rw [hw]; rfl
    cases c with
    | xlen k' =>
      obtain rfl : st = .waiting := hg
      -- `_check_backpressure`, which is passed: the queue has room.
      obtain rfl : r = .ok (w.redis k').entries.length := hr
      have hnext : (p.info.enqueuer.keyMonitor p.info.args).next .waiting (.redis (.xlen k'))
          (.ok (w.redis k').entries.length) = .waiting := by
        simp only [Enqueuer.keyMonitor, Enqueuer.keyCmdNext]
        exact if_pos hok
      refine h.set hi rfl ?_ ?_ (fun hkey => ?_)
      · rw [hnext]
        exact fun row hf => by cases hf
      · rw [hnext]
        rintro e (he | he) <;> cases he
      · exact (h.contest hkey).quiet hi rfl hdb hlog rfl rfl rfl hnext
    | xadd k' body lim =>
      -- the carriers have a store, so one that publishes has committed its row
      obtain rfl : st = .committed := by
        rcases hg with rfl | ⟨-, hno⟩
        · rfl
        · rw [hcarrier.store] at hno
          cases hno
      obtain rfl : r = .ok ((w.redis k').lastId + 1) := hr
      refine h.set hi rfl (fun row hf => by cases hf) ?_ (fun hkey => ?_)
      · rintro e (he | he) <;> cases he
      · have hc := h.contest hkey
        refine hc.set hi rfl (by rw [hdb]) hlog rfl rfl rfl ?_ (fun ho => ?_)
          (fun n z _ row hf => by cases hf)
        · rw [hdb]
          exact hc.tx.keep hi rfl rfl
        · rcases ho.stages _ (List.mem_of_getElem? hi) with hs | hs | hs | hs <;> cases hs
    | xgroupCreate _ _ _ | xreadgroup _ _ _ _ _ | xack _ _ _ | xautoclaim _ _ _ _ _ _
    | xrevrange _ _ | xdel _ _ => exact hg.elim

/-! ## Runs -/

/-- A call that starts waits with the others. -/
theorem KeyInv.start (h : KeyInv key base w l) {call : EnqueueCall} {site : Nat}
    (hcall : Carrier key base call) (q : Option (Py Nat)) :
    KeyInv key base w (l ++ [(⟨call, site, q⟩, .waiting)]) := by
  have hmem : ∀ z ∈ l ++ [(⟨call, site, q⟩, Stage.waiting)],
      z ∈ l ∨ z = ((⟨call, site, q⟩ : Proc RelaySig Nat EnqueueCall Nat), Stage.waiting) := by
    intro z hz
    rcases List.mem_append.mp hz with hz | hz
    · exact .inl hz
    · exact .inr (List.mem_singleton.mp hz)
  -- the new call stands last, so the others keep their places
  have hback : ∀ {n : Nat} {z : Seeker},
      (l ++ [((⟨call, site, q⟩ : Proc RelaySig Nat EnqueueCall Nat), Stage.waiting)])[n]? = some z →
        l[n]? = some z ∨ z.2 = .waiting := by
    intro n z hz
    rcases getElem?_concat_cases hz with hz | ⟨-, rfl⟩
    · exact .inl hz
    · exact .inr rfl
  refine ⟨fun z hz => ?_, fun z hz => ?_, fun z hz => ?_, fun hkey => ?_⟩
  · rcases hmem z hz with hz | rfl
    · exact h.carriers z hz
    · exact hcall
  · rcases hmem z hz with hz | rfl
    · exact h.keyed z hz
    · exact fun row hf => by cases hf
  · rcases hmem z hz with hz | rfl
    · exact h.raised z hz
    · rintro e (he | he) <;> cases he
  · -- who holds the transaction and who won are told by place, and neither waits
    obtain ⟨⟨db₀, hidle, htx⟩, hearly, hsettled⟩ := h.contest hkey
    refine ⟨⟨db₀, hidle, ?_⟩, ?_, ?_⟩
    · rcases htx with ⟨hdb, hnone⟩ | ⟨j, z, hj, hz, huniq⟩
      · refine .inl ⟨hdb, fun z hz => ?_⟩
        rcases hmem z hz with hz | rfl
        · exact hnone z hz
        · rfl
      · refine .inr ⟨j, z, getElem?_concat_of hj _, hz, fun m u hm hu => ?_⟩
        rcases hback hm with hm | hst
        · exact huniq m u hm hu
        · rw [hst] at hu
          cases hu
    · rw [hearly, List.countP_append]
      rfl
    · rcases hsettled with ho | ⟨n, z, hz⟩
      · refine .inl ⟨ho.rows, ho.log, fun u hu => ?_⟩
        rcases hmem u hu with hu | rfl
        · exact ho.stages u hu
        · exact .inl rfl
      · refine .inr ⟨n, z, getElem?_concat_of hz.place _, hz.stage, hz.rows, hz.commit, hz.only,
          fun j u hj hu => ?_, fun u hu => ?_⟩
        · rcases hback hu with hu | hst
          · exact hz.others j u hj hu
          · rw [hst]
            rfl
        · rcases hmem u hu with hu | rfl
          · exact hz.found u hu
          · exact fun row hf => by cases hf

/-- What the environment does concerns neither the database nor the calls on record. -/
theorem Contest.env (h : Contest key base w l) {e : EnvStep} (hw : w.env e = some w') :
    Contest key base w' l := by
  have hkeep : w'.db = w.db ∧ w'.log.any Event.commits = w.log.any Event.commits ∧
      earlyLookups key w'.log = earlyLookups key w.log ∧
      ∀ ev : Event, ev.commits = true → (ev ∈ w'.log ↔ ev ∈ w.log) := by
    cases e with
    | tick d =>
      obtain rfl := Option.some.inj hw
      exact ⟨rfl, rfl, rfl, fun _ _ => Iff.rfl⟩
    | foreign k body =>
      simp only [World.env, Option.map_eq_some_iff] at hw
      obtain ⟨⟨w₁, r⟩, hx, rfl⟩ := hw
      -- a foreign `XADD` is logged, but it commits nothing
      obtain ⟨n, -, -, hw₁⟩ := World.exec_redis_faultless hx rfl
      have hlog : w₁.log = ⟨.foreign, .redis (.xadd k body none), true, n, r⟩ :: w.log := by
        rw [hw₁]
        rfl
      refine ⟨by rw [hw₁]; rfl, by rw [hlog]; rfl, by rw [hlog]; rfl, fun ev hc => ?_⟩
      rw [hlog]
      refine ⟨fun hmem => ?_, List.mem_cons_of_mem _⟩
      rcases List.mem_cons.mp hmem with rfl | hmem
      · cases hc
      · exact hmem
  obtain ⟨hdb, hany, hearly, hmem⟩ := hkeep
  refine ⟨hdb ▸ h.tx, hearly.trans h.early, ?_⟩
  rcases h.settled with ho | ⟨n, z, hz⟩
  · exact .inl ⟨by rw [hdb, ho.rows], hany.trans ho.log, ho.stages⟩
  · refine .inr ⟨n, z, hz.place, hz.stage, by rw [hdb, hz.rows], ?_, fun ev hev hc => ?_,
      hz.others, hz.found⟩
    · obtain ⟨ev, hev, hact, hc⟩ := hz.commit
      exact ⟨ev, (hmem ev hc).mpr hev, hact, hc⟩
    · exact hz.only ev ((hmem ev hc).mp hev) hc

/-- **The invariant as a proof rule** for the calls that carry the key. -/
def keyRule (hbase : ∀ row ∈ base, row.idempotencyKey ≠ some key) :
    PoolRule enqueuePool (fun call => call.enqueuer.keyMonitor call.args) (KeyLoad key base)
      (KeyInv key base) where
  init _ := .waiting
  post call out st := Enqueuer.keyPost call.args out st
  code call := call.enqueuer.wp_enqueue_key call.args
  start := fun h hok => h.start hok _
  answer := by
    intro w l i p st o k ans w' r h hok hi hprog hg hx
    refine h.answer hbase hi hok.1 (hok.2 p o k ?_ hprog) hg hx
    rw [List.getElem?_map, hi]
    rfl
  crash := fun _ hok => hok.elim
  env := fun h _ hw => ⟨h.carriers, h.keyed, h.raised, fun hkey => (h.contest hkey).env hw⟩

/-- At the start nobody has done anything. -/
theorem KeyFree.inv {w₀ : World} (h : KeyFree key w₀) : KeyInv key w₀.db.committed w₀ [] := by
  refine ⟨by simp, by simp, by simp, fun _ => ⟨⟨w₀.db, h.idle, .inl ⟨rfl, by simp⟩⟩, ?_, ?_⟩⟩
  · rw [h.log]
    rfl
  · exact .inl ⟨rfl, by simp [h.log], by simp⟩

/-- Who looked the key up in vain does not end with `IdempotencyConflict`. -/
theorem KeyInv.not_conflict (h : KeyInv key base w l) (hx : x ∈ l) {out : Except PyExc Nat}
    (hpost : Enqueuer.keyPost x.1.info.args out x.2) (hlate : x.2.late = true) (k : String) :
    out ≠ .error (.idempotencyConflict k) := by
  rintro rfl
  cases hst : x.2 with
  | waiting | found _ =>
    rw [hst] at hlate
    cases hlate
  | missed | begun | inserted | committed =>
    rw [hst] at hpost
    exact hpost
  | refused e =>
    rw [hst] at hpost
    obtain rfl := Except.error.inj hpost
    cases h.raised x hx _ (.inl hst)
  | failed e =>
    rw [hst] at hpost
    obtain rfl := Except.error.inj hpost
    cases h.raised x hx _ (.inr hst)
  | returned =>
    rw [hst] at hpost
    obtain ⟨n, hn⟩ := hpost
    cases hn

/-- A call that has ended is not waiting: its validation passed. -/
theorem KeyInv.not_waiting (h : KeyInv key base w l) (hx : x ∈ l) {out : Except PyExc Nat}
    (hpost : Enqueuer.keyPost x.1.info.args out x.2) : x.2 ≠ .waiting := by
  intro hst
  rw [hst] at hpost
  obtain ⟨e, he, -⟩ := hpost
  rw [(h.carriers x hx).valid] at he
  cases he

/-- When all calls have ended, one has won. -/
theorem Contest.exists_won (h : Contest key base w l) (hinv : KeyInv key base w l)
    (hpost : ∀ x ∈ l, ∃ out, Enqueuer.keyPost x.1.info.args out x.2) (hne : l ≠ []) :
    ∃ i x, Won base w l i x := by
  rcases h.settled with ho | hwon
  · obtain ⟨x, hx⟩ := List.exists_mem_of_ne_nil l hne
    obtain ⟨out, hout⟩ := hpost x hx
    have hwait := hinv.not_waiting hx hout
    rcases ho.stages x hx with hs | hs | hs | hs
    · exact absurd hs hwait
    all_goals
      rw [hs] at hout
      exact hout.elim
  · exact hwon

/-- A lookup that finds the row of a call builds its job. -/
theorem Seeker.toJob_row (x : Seeker) (now : DateTime) : ∃ job, x.row.toJob now = .ok job := by
  simp [Seeker.row, Row.toJob, Row.ofJob, bind, Except.bind]

/-- The theorem, at the stages of the calls. -/
theorem KeyInv.reported_iff {s : PoolState relay EnqueueCall Nat}
    (h : KeyInv key base s.world l) (hkey : key ≠ "") (hprocs : l.map Prod.fst = s.procs)
    (hpost : ∀ x ∈ l, ∃ out, x.1.outcome = some out ∧ Enqueuer.keyPost x.1.info.args out x.2)
    (hne : l ≠ []) : Reported key s ↔ earlyLookups key s.world.log ≤ 1 := by
  have hc := h.contest hkey
  have hproc : ∀ {j : Nat} {q : Proc RelaySig Nat EnqueueCall Nat}, s.procs[j]? = some q →
      ∃ st, l[j]? = some (q, st) := by
    intro j q hq
    rw [← hprocs, List.getElem?_map, Option.map_eq_some_iff] at hq
    obtain ⟨⟨q', st⟩, hj, rfl⟩ := hq
    exact ⟨st, hj⟩
  rw [hc.early, countP_le_one_iff]
  constructor
  · -- all calls but the winner raised a conflict, so they did not look the key up in vain
    rintro ⟨n, p, id, -, -, -, -, hothers⟩
    have honly : ∀ {j : Nat} {x : Seeker}, l[j]? = some x → x.2.late = true → j = n := by
      intro j x hj hlate
      by_contra hjn
      have hmem := List.mem_of_getElem? hj
      obtain ⟨out, hout, hpost⟩ := hpost x hmem
      have hq : s.procs[j]? = some x.1 := by rw [← hprocs, List.getElem?_map, hj]; rfl
      have hconf := (hothers j x.1 hjn hq).1
      rw [hout] at hconf
      exact h.not_conflict hmem hpost hlate key (Option.some.inj hconf)
    exact fun i j x y hi hj hx hy => (honly hi hx).trans (honly hj hy).symm
  · intro huniq
    obtain ⟨n, z, hz⟩ := hc.exists_won h (fun x hx => by
      obtain ⟨out, -, hout⟩ := hpost x hx
      exact ⟨out, hout⟩) hne
    have hlate : z.2.late = true := by
      have hwon := hz.stage
      cases hst : z.2 <;> rw [hst] at hwon <;> first | rfl | cases hwon
    obtain ⟨out, hout, hend⟩ := hpost z (List.mem_of_getElem? hz.place)
    have hreturned : ∃ id, out = .ok id := by
      have hwon := hz.stage
      cases hst : z.2 with
      | returned =>
        rw [hst] at hend
        exact hend
      | committed =>
        rw [hst] at hend
        exact hend.elim
      | waiting | found _ | missed | begun | inserted | refused _ | failed _ =>
        rw [hst] at hwon
        cases hwon
    obtain ⟨id, rfl⟩ := hreturned
    refine ⟨n, z.1, id, by rw [← hprocs, List.getElem?_map, hz.place]; rfl, hout, ?_, hz.commit,
      fun j q hj hq => ?_⟩
    · rw [hz.rows]
      exact List.mem_append_right _ (List.mem_singleton_self _)
    · -- everybody else found the winner's row
      obtain ⟨st, hst⟩ := hproc hq
      have hmem := List.mem_of_getElem? hst
      obtain ⟨out, hout, hend⟩ := hpost _ hmem
      have hwait := h.not_waiting hmem hend
      have hnot : st.late = false := by
        cases hl : st.late with
        | false => rfl
        | true => exact absurd (huniq j n _ z hst hz.place hl hlate) hj
      obtain ⟨row, rfl⟩ := Stage.found_of_not_late hwait hnot
      obtain rfl := hz.found _ hmem row rfl
      obtain ⟨k, hk, hconf⟩ := hend
      have hkk : k = key := by
        rw [(h.carriers _ hmem).key?, if_neg hkey] at hk
        exact (Option.some.inj hk).symm
      obtain rfl := hconf z.toJob_row
      refine ⟨by rw [hout, hkk], fun ev hev hact => ?_⟩
      cases hcom : ev.commits with
      | false => rfl
      | true =>
        have hother := (hz.only ev hev hcom).symm.trans hact
        exact absurd (Actor.enqueuer.inj hother).symm hj

/-- An empty key is none to the code: who carries it looks nothing up, so it conflicts with
nobody. -/
theorem KeyInv.not_conflict_empty (h : KeyInv "" base w l) (hx : x ∈ l) {out : Except PyExc Nat}
    (hpost : Enqueuer.keyPost x.1.info.args out x.2) :
    out ≠ .error (.idempotencyConflict "") := by
  have hwait := h.not_waiting hx hpost
  cases hlate : x.2.late with
  | true => exact h.not_conflict hx hpost hlate ""
  | false =>
    obtain ⟨row, hst⟩ := Stage.found_of_not_late hwait hlate
    exact (h.keyed x hx row hst rfl).elim

/-- **A key is reported exactly if at most one lookup comes before the first commit.** Calls of
`enqueue` that carry one key are run to their end, on any connections and in any order, and no
service fails. With a key that is not empty one call commits its row and returns an entry id while
every other raises `IdempotencyConflict`, if and only if at most one of them looked the key up before
the first commit. An empty key is none to the code, and several calls with it are never reported. -/
theorem duplicateKeys {w₀ : World} (h₀ : KeyFree key w₀) {s : PoolState relay EnqueueCall Nat}
    (hrun : Reaches enqueuePool.step (KeyLoad key w₀.db.committed) ⟨w₀, []⟩ s)
    (hne : s.procs ≠ []) (hdone : ∀ p ∈ s.procs, p.outcome ≠ none) :
    (key ≠ "" → (Reported key s ↔ earlyLookups key s.world.log ≤ 1)) ∧
    (key = "" → 2 ≤ s.procs.length → ¬ Reported key s) := by
  obtain ⟨l, hl, h⟩ := (keyRule h₀.key).run hrun (PoolRule.holds_nil h₀.inv)
  have hpost : ∀ x ∈ l, ∃ out, x.1.outcome = some out ∧
      Enqueuer.keyPost x.1.info.args out x.2 := by
    intro x hx
    have hmem : x.1 ∈ s.procs := hl.procs ▸ List.mem_map.mpr ⟨x, hx, rfl⟩
    obtain ⟨out, hout⟩ := Option.ne_none_iff_exists'.mp (hdone x.1 hmem)
    exact ⟨out, hout, hl.outcome hx hout⟩
  refine ⟨fun hkey => h.reported_iff hkey hl.procs hpost ?_, ?_⟩
  · rintro rfl
    exact hne hl.procs.symm
  · rintro rfl hlen ⟨n, p, id, -, -, -, -, hothers⟩
    -- one of two calls is not the winner, and none of them looked anything up
    obtain ⟨j, hj, hjn⟩ : ∃ j, j < s.procs.length ∧ j ≠ n := by
      by_cases h0 : n = 0
      · exact ⟨1, by omega, by omega⟩
      · exact ⟨0, by omega, by omega⟩
    have hcast : ∀ q ∈ s.procs, ∃ x ∈ l, x.1 = q := by
      intro q hq
      rw [← hl.procs] at hq
      exact List.mem_map.mp hq
    obtain ⟨x, hx, hxj⟩ := hcast _ (List.getElem_mem hj)
    obtain ⟨out, hout, hend⟩ := hpost x hx
    have hconf := (hothers j s.procs[j] hjn (List.getElem?_eq_getElem hj)).1
    rw [← hxj, hout] at hconf
    exact h.not_conflict_empty hx hend (Option.some.inj hconf)

omit [Codec] in
/-- What an answer must meet is said of the call it answers. -/
theorem KeyLoad.of_call {s : PoolState relay EnqueueCall Nat} {ans : Answer}
    {p : Proc RelaySig Nat EnqueueCall Nat} {o : Op} {k : Except PyExc o.Res → Py Nat}
    (hi : s.procs[i]? = some p) (hp : p.prog = some (.call o k)) (hans : ans.faultless = true)
    (hu : Undisturbed s.world p.site p.info o) : KeyLoad key base s (.answer i ans) := by
  refine ⟨hans, fun p' o' k' hi' hp' => ?_⟩
  obtain rfl := Option.some.inj (hi.symm.trans hi')
  have hcall := Option.some.inj (hp.symm.trans hp')
  injection hcall with ho
  exact ho ▸ hu

end

/-- A call with a key, on a queue that holds at most one job. -/
def Sample.keyedCall (id : String) : EnqueueCall :=
  ⟨{ transport := Sample.transport, maxQueueDepth := 1, store := true },
    { job := { Sample.job with id := id }, idempotencyKey := some "order" }⟩

/-- The call carries the key. -/
theorem Sample.carrier (id : String) :
    Carrier "order" World.init.db.committed (Sample.keyedCall id) :=
  ⟨rfl, rfl, rfl, by simp [World.init]⟩

/-- Nobody has the key at the start. -/
theorem Sample.keyFree : KeyFree "order" World.init :=
  ⟨⟨rfl, fun _ => rfl⟩, by simp [World.init], rfl⟩

/-- Two calls on two connections look the key up before either of them commits: the second one ends
with SQLite's `IntegrityError`. -/
theorem not_duplicateKeys : ¬ ∀ s : PoolState relay EnqueueCall Nat,
    Reaches enqueuePool.step (KeyLoad "order" []) ⟨.init, []⟩ s → s.procs ≠ [] →
      (∀ p ∈ s.procs, p.outcome ≠ none) → Reported "order" s := by
  have hrun : ∃ s, Reaches enqueuePool.step (KeyLoad "order" []) ⟨.init, []⟩ s ∧
      s.procs.map Proc.outcome =
        [some (.ok 1), some (.error (.sqliteError (.constraint .idempotencyKey)))] :=
    ⟨_, .tail (l := .answer 1 (.ok 0)) (.tail (l := .answer 1 (.ok 0)) (.tail (l := .answer 1 (.ok 0))
      (.tail (l := .answer 0 (.ok 0)) (.tail (l := .answer 0 (.ok 0)) (.tail (l := .answer 0 (.ok 0))
      (.tail (l := .answer 0 (.ok 0)) (.tail (l := .answer 1 (.ok 0)) (.tail (l := .answer 0 (.ok 0))
      (.tail (l := .answer 1 (.ok 0)) (.tail (l := .answer 0 (.ok 0))
      (.tail (l := .start (Sample.keyedCall "job_2") 1)
      (.single (l := .start (Sample.keyedCall "job_1") 0) (Sample.carrier "job_1") rfl)
      (Sample.carrier "job_2") rfl)
      (.of_call rfl rfl rfl Nat.one_pos) rfl)
      (.of_call rfl rfl rfl Nat.one_pos) rfl)
      (.of_call rfl rfl rfl rfl) rfl)
      (.of_call rfl rfl rfl rfl) rfl)
      (.of_call rfl rfl rfl rfl) rfl)
      (.of_call rfl rfl rfl trivial) rfl)
      (.of_call rfl rfl rfl trivial) rfl)
      (.of_call rfl rfl rfl trivial) rfl)
      (.of_call rfl rfl rfl rfl) rfl)
      (.of_call rfl rfl rfl trivial) rfl)
      (.of_call rfl rfl rfl trivial) rfl, rfl⟩
  intro hall
  obtain ⟨s, hs, hout⟩ := hrun
  have hlen : s.procs.length = 2 := by simpa using congrArg List.length hout
  have hend : ∀ (j : Nat) (q : Proc RelaySig Nat EnqueueCall Nat), s.procs[j]? = some q →
      [some (.ok 1), some (.error (.sqliteError (.constraint .idempotencyKey)))][j]? =
        some q.outcome := by
    intro j q hj
    rw [← hout, List.getElem?_map, hj]
    rfl
  have hdone : ∀ q ∈ s.procs, q.outcome ≠ none := by
    intro q hq hnone
    have hmem : q.outcome ∈ s.procs.map Proc.outcome := List.mem_map.mpr ⟨q, hq, rfl⟩
    rw [hout, hnone] at hmem
    simp at hmem
  obtain ⟨i, p, n, hi, hp, -, -, hothers⟩ :=
    hall s hs (List.ne_nil_of_length_pos (by omega)) hdone
  -- the second call neither returned an id nor raised a conflict
  have hlt : 1 < s.procs.length := by omega
  obtain ⟨q, h1⟩ : ∃ q, s.procs[1]? = some q := ⟨s.procs[1], List.getElem?_eq_getElem hlt⟩
  have hone := Option.some.inj (hend 1 _ h1)
  by_cases hi1 : i = 1
  · subst hi1
    have hp1 := Option.some.inj (hend 1 p hi)
    rw [hp] at hp1
    cases hp1
  · have hconf := (hothers 1 _ (Ne.symm hi1) h1).1
    rw [← hone] at hconf
    cases hconf

/-- Two calls, the second of which looks the key up after the first has committed. -/
theorem duplicateKeys_two : ∃ s : PoolState relay EnqueueCall Nat,
    s.procs.length = 2 ∧ Reported "order" s := by
  have hrun : ∃ s, Reaches enqueuePool.step (KeyLoad "order" World.init.db.committed)
      ⟨.init, []⟩ s ∧
      s.procs.map Proc.outcome =
        [some (.ok 1), some (.error (.idempotencyConflict "order"))] ∧
      earlyLookups "order" s.world.log = 1 :=
    ⟨_, .tail (l := .answer 1 (.wall .epoch)) (.tail (l := .answer 1 (.ok 0))
      (.tail (l := .answer 0 (.ok 0)) (.tail (l := .answer 0 (.ok 0)) (.tail (l := .answer 0 (.ok 0))
      (.tail (l := .answer 0 (.ok 0)) (.tail (l := .answer 0 (.ok 0))
      (.tail (l := .answer 1 (.ok 0)) (.tail (l := .answer 0 (.ok 0))
      (.tail (l := .start (Sample.keyedCall "job_2") 1)
      (.single (l := .start (Sample.keyedCall "job_1") 0) (Sample.carrier "job_1") rfl)
      (Sample.carrier "job_2") rfl)
      (.of_call rfl rfl rfl Nat.one_pos) rfl)
      (.of_call rfl rfl rfl Nat.one_pos) rfl)
      (.of_call rfl rfl rfl rfl) rfl)
      (.of_call rfl rfl rfl rfl) rfl)
      (.of_call rfl rfl rfl trivial) rfl)
      (.of_call rfl rfl rfl trivial) rfl)
      (.of_call rfl rfl rfl trivial) rfl)
      (.of_call rfl rfl rfl rfl) rfl)
      (.of_call rfl rfl rfl trivial) rfl, rfl, rfl⟩
  obtain ⟨s, hs, hout, hearly⟩ := hrun
  have hlen : s.procs.length = 2 := by simpa using congrArg List.length hout
  have hdone : ∀ q ∈ s.procs, q.outcome ≠ none := by
    intro q hq hnone
    have hmem : q.outcome ∈ s.procs.map Proc.outcome := List.mem_map.mpr ⟨q, hq, rfl⟩
    rw [hout, hnone] at hmem
    simp at hmem
  have hne : s.procs ≠ [] := List.ne_nil_of_length_pos (by omega)
  exact ⟨s, hlen, ((duplicateKeys Sample.keyFree hs hne hdone).1 (by decide)).mpr (by omega)⟩

end RelayQ

import RelayQ.Application.Enqueue

/-! # What a failed enqueue leaves behind

One call of `enqueue` from its beginning to its end, on a connection without an open transaction.
Everything up to the commit either happens completely or leaves no trace; after it only the append
is left, which can fail with the row committed.

* `Enqueuer.prepare`, `Enqueuer.enqueue_eq`: the call without its append.
* `Enqueuer.Atomic`: what each end of the call leaves behind.
* `Enqueuer.enqueue_atomic`: every call is atomic. -/

namespace RelayQ

/-- The call is an `XADD`. -/
def Op.isXadd : Op → Bool
  | redis (.xadd ..) => true
  | _ => false

namespace Enqueuer

section

variable [Codec] (enq : Enqueuer) (args : EnqueueArgs)

/-- Everything `enqueue` does before it appends. -/
def prepare : Py Unit :=
  match args.validate args.job with
  | some e => .raise e
  | none =>
    (enq.transport.streamLength args.job.queue).bind fun depth =>
      if depth ≥ enq.maxQueueDepth then
        .raise (.queueFull args.job.queue depth enq.maxQueueDepth)
      else
        (enq.checkKey args.key?).bind fun _ => enq.writeOutbox args.keyedJob

/-- The append at the end of `enqueue`. -/
def append : Py Nat :=
  enq.transport.xadd args.job.queue args.keyedJob (enq.maxQueueDepth + 1000) true

/-- `enqueue` prepares and then appends. -/
theorem enqueue_eq : enq.enqueue args = (enq.prepare args).bind fun _ => enq.append args := by
  unfold enqueue prepare append
  cases args.validate args.job with
  | some e => rfl
  | none =>
    dsimp only
    rw [Prog.bind_assoc]
    refine congrArg (Prog.bind _) (funext fun depth => ?_)
    split
    · rfl
    · exact (Prog.bind_assoc ..).symm

/-! ## What is left behind -/

/-- Exactly the given row is new in the outbox, if there is one, and no transaction is open that was
not open before. -/
def NewRow (row : Row) (w w' : World) : Prop :=
  w'.db = if enq.store then
    { w.db with committed := w.db.committed ++ [row], version := w.db.version + 1 } else w.db

/-- Exactly one entry is new, at the end of the job's stream, with the given id: it carries the
job. -/
def NewEntry (id : Nat) (w w' : World) : Prop :=
  let k := enq.transport.streamKey args.job.queue
  id = (w.redis k).lastId + 1 ∧
    w'.redis = Function.update w.redis k
      ((w.redis k).append (RedisStreamTransport.jobBody args.keyedJob))

/-- What a call that was answered the events `evs` leaves behind, given the row that is to
describe its job: nothing, if it ended before its append; the row, if its append was not carried
out; the row and the entry, if it returned. -/
structure Atomic (row : Row) (w w' : World) (evs : List Event) (out : Except PyExc Nat) :
    Prop where
  early : (∀ ev ∈ evs, ev.op.isXadd = false) →
    (∃ e, out = .error e) ∧ w'.db = w.db ∧ w'.redis = w.redis
  unapplied : (∃ ev ∈ evs, ev.op.isXadd = true ∧ ev.applied = false) →
    (∃ e, out = .error e) ∧ enq.NewRow row w w' ∧ w'.redis = w.redis
  returned : ∀ id, out = .ok id → enq.NewRow row w w' ∧ enq.NewEntry args id w w'

/-- Every rollback is carried out; any other call may fail. -/
abbrev RollsBack (o : Op) (ans : Answer) : Prop := o = .sql .rollback → ans.faultless = true

variable {enq args} {P : Op → Answer → Prop} {w w' : World} {site : Nat} {a : Actor}

/-- The lookup leaves both servers alone. -/
theorem runs_checkKey {key : Option String} {out : Except PyExc Unit}
    (htx : w.db.txs site = none) (h : relay.Runs P site a w (enq.checkKey key) w' out) :
    w'.db = w.db ∧ w'.redis = w.redis := by
  unfold checkKey at h
  split at h
  · split at h
    · obtain ⟨w₁, r, hr, hrest⟩ := Machine.runs_bind_iff.mp h
      have h₁ := SqliteStore.runs_findByIdempotencyKey htx hr
      cases r with
      | error e =>
        rw [hrest.1]
        exact h₁
      | ok existing =>
        cases existing with
        | none => rwa [(Machine.runs_ret_iff.mp hrest).1]
        | some job => rwa [(Machine.runs_raise_iff.mp hrest).1]
    · rw [(Machine.runs_ret_iff.mp h).1]
      exact ⟨rfl, rfl⟩
  · rw [(Machine.runs_ret_iff.mp h).1]
    exact ⟨rfl, rfl⟩

/-- The outbox write ends with exactly its row, or with nothing. -/
theorem runs_writeOutbox {out : Except PyExc Unit}
    (h : relay.Runs RollsBack site a w (enq.writeOutbox args.keyedJob) w' out) :
    w'.redis = w.redis ∧ (out = .ok () ∧ enq.NewRow (.ofJob args.keyedJob) w w' ∨
      (∃ e, out = .error e) ∧ w'.db = w.db) := by
  unfold writeOutbox at h
  unfold NewRow
  split at h
  · rename_i hstore
    obtain ⟨hredis, ⟨rfl, -, -, t, hins, hdb⟩ | ⟨hout, hdb⟩⟩ :=
      SqliteStore.runs_insertTransaction h
    · have ht := (Outbox.insert_ok hins).1
      rw [if_pos hstore, hdb, ht]
      exact ⟨hredis, .inl ⟨rfl, rfl⟩⟩
    · exact ⟨hredis, .inr ⟨hout, hdb fun _ hans => hans rfl⟩⟩
  · rename_i hstore
    obtain ⟨rfl, rfl⟩ := Machine.runs_ret_iff.mp h
    rw [if_neg hstore]
    exact ⟨rfl, .inl ⟨rfl, rfl⟩⟩

/-- **Before the append**: a call finds room and commits exactly its row, or it leaves no trace. -/
theorem runs_prepare {out : Except PyExc Unit} (htx : w.db.txs site = none)
    (h : relay.Runs RollsBack site a w (enq.prepare args) w' out) :
    w'.redis = w.redis ∧
      (out = .ok () ∧ enq.NewRow (.ofJob args.keyedJob) w w' ∧
          (w.redis (enq.transport.streamKey args.job.queue)).entries.length < enq.maxQueueDepth ∨
        (∃ e, out = .error e) ∧ w'.db = w.db) := by
  unfold prepare at h
  split at h
  · obtain ⟨rfl, rfl⟩ := Machine.runs_raise_iff.mp h
    exact ⟨rfl, .inr ⟨⟨_, rfl⟩, rfl⟩⟩
  obtain ⟨w₁, r, hr, hrest⟩ := Machine.runs_bind_iff.mp h
  obtain ⟨ans, -, hx⟩ := Machine.runs_perform_iff.mp hr
  -- reading the depth changes nothing, and a depth that is returned is the right one
  have hlen : w₁.db = w.db ∧ w₁.redis = w.redis ∧ ∀ n : Nat, r = .ok n →
      n = (w.redis (enq.transport.streamKey args.job.queue)).entries.length := by
    rcases World.exec_redis hx with ⟨n, -, rfl, ⟨-, rfl⟩ | ⟨e, -, rfl, -⟩⟩ | ⟨e, -, -, rfl, rfl⟩
    · exact ⟨rfl, rfl, fun m hm => (Except.ok.inj hm).symm⟩
    · exact ⟨rfl, rfl, fun m hm => by cases hm⟩
    · exact ⟨rfl, rfl, fun m hm => by cases hm⟩
  obtain ⟨hdb₁, hredis₁, hn⟩ := hlen
  cases r with
  | error e =>
    obtain ⟨rfl, rfl⟩ := hrest
    exact ⟨hredis₁, .inr ⟨⟨e, rfl⟩, hdb₁⟩⟩
  | ok depth =>
    have hdepth : depth = _ := hn depth rfl
    dsimp only at hrest
    split at hrest
    · obtain ⟨rfl, rfl⟩ := Machine.runs_raise_iff.mp hrest
      exact ⟨hredis₁, .inr ⟨⟨_, rfl⟩, hdb₁⟩⟩
    · rename_i hd
      obtain ⟨w₂, r₂, hkey, hwrite⟩ := Machine.runs_bind_iff.mp hrest
      obtain ⟨hdb₂, hredis₂⟩ := runs_checkKey (hdb₁ ▸ htx) hkey
      cases r₂ with
      | error e =>
        obtain ⟨rfl, rfl⟩ := hwrite
        exact ⟨hredis₂.trans hredis₁, .inr ⟨⟨e, rfl⟩, hdb₂.trans hdb₁⟩⟩
      | ok u =>
        obtain ⟨hredis, ⟨rfl, hrow⟩ | ⟨hout, hdb⟩⟩ := runs_writeOutbox hwrite
        · refine ⟨hredis.trans (hredis₂.trans hredis₁), .inl ⟨rfl, ?_, ?_⟩⟩
          · unfold NewRow at hrow ⊢
            rwa [hdb₂, hdb₁] at hrow
          · rw [← hdepth]
            exact Nat.lt_of_not_ge hd
        · exact ⟨hredis.trans (hredis₂.trans hredis₁), .inr ⟨hout, hdb.trans (hdb₂.trans hdb₁)⟩⟩

variable (enq args)

/-- The preparations append nothing. -/
theorem wp_prepare : (enq.prepare args).wp (Monitor.only fun o : Op => o.isXadd = false)
    (fun _ _ => True) () := by
  unfold prepare
  split
  · trivial
  refine Prog.wp_perform_bind rfl (fun depth => ?_) fun _ => trivial
  split
  · trivial
  refine Prog.wp_bind_of (R := fun _ _ => True) ?_ (fun _ _ _ => ?_) fun _ _ _ => trivial
  · unfold checkKey
    split
    · split
      · refine Prog.wp_bind_of (R := fun _ _ => True) ?_ (fun x _ _ => ?_) fun _ _ _ => trivial
        · refine Prog.wp_perform_bind rfl (fun row => ?_) fun _ => trivial
          cases row with
          | none => trivial
          | some row =>
            refine Prog.wp_perform_bind rfl (fun now => ?_) fun _ => trivial
            split <;> trivial
        · cases x <;> trivial
      · trivial
    · trivial
  · unfold writeOutbox
    split
    · refine Prog.wp_perform_bind rfl (fun _ => ?_) fun _ => trivial
      refine (Prog.wp_tryExcept _ _).mpr (Prog.wp_mono (Q := fun _ _ => True) _ (fun r _ _ => ?_) ?_)
      · cases r with
        | ok _ => trivial
        | error e =>
          dsimp only
          split
          · exact Prog.wp_perform_bind rfl (fun _ => trivial) fun _ => trivial
          · trivial
      · refine Prog.wp_perform_bind rfl (fun _ => ?_) fun _ => trivial
        exact Prog.wp_perform_bind rfl (fun _ => trivial) fun _ => trivial
    · trivial

variable {enq args}

/-- The events of the preparations: no append is among them. -/
theorem exists_events_prepare {out : Except PyExc Unit}
    (h : relay.Runs P site a w (enq.prepare args) w' out) :
    ∃ evs, w'.log = evs ++ w.log ∧ ∀ ev ∈ evs, ev.op.isXadd = false := by
  obtain ⟨-, hlog, -⟩ := h.sound
    (R := fun (w₁ : World) _ => ∃ evs, w₁.log = evs ++ w.log ∧ ∀ ev ∈ evs, ev.op.isXadd = false)
    (fun {w₁ _ o ans w₂ r} hw hg _ hx => by
      obtain ⟨evs, hlog, hevs⟩ := hw
      obtain ⟨applied, n, hx⟩ := World.exec_log hx
      refine ⟨⟨a, o, applied, n, r⟩ :: evs, by rw [hx, hlog]; rfl, fun ev hev => ?_⟩
      rcases List.mem_cons.mp hev with rfl | hev
      · exact hg
      · exact hevs ev hev)
    ⟨[], rfl, by simp⟩ (enq.wp_prepare args)
  exact hlog

/-- The append is carried out, under the next id and without an eviction as there is room, or it
leaves both servers alone and raises. -/
theorem runs_append {out : Except PyExc Nat}
    (hroom : (w.redis (enq.transport.streamKey args.job.queue)).entries.length < enq.maxQueueDepth)
    (h : relay.Runs P site a w (enq.append args) w' out) :
    w'.db = w.db ∧ ∃ ev : Event, w'.log = ev :: w.log ∧ ev.op.isXadd = true ∧
      (ev.applied = true ∧ (∀ id, out = .ok id → enq.NewEntry args id w w') ∨
        ev.applied = false ∧ (∃ e, out = .error e) ∧ w'.redis = w.redis) := by
  obtain ⟨ans, -, hx⟩ := Machine.runs_perform_iff.mp h
  rcases World.exec_redis hx with ⟨n, hn, rfl, hr⟩ | ⟨e, -, -, rfl, rfl⟩
  · refine ⟨rfl, _, rfl, rfl, .inl ⟨rfl, fun id hid => ?_⟩⟩
    -- nothing is above the limit
    have hn0 : n = 0 := by
      rw [if_neg (Nat.succ_ne_zero _), if_pos rfl] at hn
      have hle := of_decide_eq_true hn
      simp only [Redis.Cmd.key] at hle
      omega
    subst hn0 hid
    rcases hr with ⟨-, hr⟩ | ⟨e, -, hr, -⟩
    · refine ⟨Except.ok.inj hr, ?_⟩
      simp [World.sendCmd, Redis.Keyspace.apply, Redis.Stream.evict]
    · cases hr
  · exact ⟨rfl, _, rfl, rfl, .inr ⟨rfl, ⟨e, rfl⟩, rfl⟩⟩

/-- **A call of `enqueue` is atomic** up to its append: where no transaction is open on its
connection, each of its ends leaves behind what `Atomic` says, with the row of its job in the status
the job has. -/
theorem enqueue_atomic {out : Except PyExc Nat} (htx : w.db.txs site = none)
    (h : relay.Runs RollsBack site a w (enq.enqueue args) w' out) :
    ∃ evs, w'.log = evs ++ w.log ∧ enq.Atomic args (.ofJob args.keyedJob) w w' evs out := by
  rw [enqueue_eq] at h
  obtain ⟨w₁, r, hprep, happ⟩ := Machine.runs_bind_iff.mp h
  obtain ⟨evs, hlog, hevs⟩ := exists_events_prepare hprep
  obtain ⟨hredis, ⟨rfl, hrow, hroom⟩ | ⟨⟨e, rfl⟩, hdb⟩⟩ := runs_prepare htx hprep
  · -- the preparations went through, and the append is the last call
    obtain ⟨hdb', ev, hlog', hev, hcase⟩ := runs_append (hredis ▸ hroom) happ
    have hrow' : enq.NewRow (.ofJob args.keyedJob) w w' := by
      unfold NewRow at hrow ⊢
      rw [hdb', hrow]
    refine ⟨ev :: evs, by rw [hlog', hlog]; rfl, ?_, ?_, ?_⟩
    · intro hno
      rw [hno ev (List.mem_cons_self ..)] at hev
      cases hev
    · rintro ⟨ev', hmem, hx, hna⟩
      rcases List.mem_cons.mp hmem with rfl | hmem
      · rcases hcase with ⟨ha, -⟩ | ⟨-, hout, hredis'⟩
        · rw [hna] at ha
          cases ha
        · exact ⟨hout, hrow', hredis'.trans hredis⟩
      · rw [hevs ev' hmem] at hx
        cases hx
    · rintro id rfl
      rcases hcase with ⟨-, hid⟩ | ⟨-, ⟨e, he⟩, -⟩
      · refine ⟨hrow', ?_⟩
        have hentry := hid id rfl
        unfold NewEntry at hentry ⊢
        rwa [hredis] at hentry
      · cases he
  · -- the preparations raised, and no append was made
    obtain ⟨rfl, rfl⟩ := happ
    refine ⟨evs, hlog, fun _ => ⟨⟨e, rfl⟩, hdb, hredis⟩, ?_, fun id hid => by cases hid⟩
    rintro ⟨ev, hmem, hx, -⟩
    rw [hevs ev hmem] at hx
    cases hx

end

end Enqueuer

/-- A call for a job that has been completed before. -/
def Sample.completedCall : EnqueueCall :=
  enqueueCall { job with status := .completed } true

/-- With an append that fails, it leaves exactly a row of a completed job behind. -/
theorem Sample.exists_enqueue_completed : ∃ w' : World,
    relay.Runs Enqueuer.RollsBack (0 : Nat) (Actor.enqueuer 0) World.init
      (completedCall.enqueuer.enqueue completedCall.args) w'
      (.error (.redisError "ConnectionError" "")) ∧
    (∀ evs, w'.log = evs ++ World.init.log →
      ∃ ev ∈ evs, ev.op.isXadd = true ∧ ev.applied = false) ∧
    w'.db.committed = [.ofJob completedCall.args.keyedJob] := by
  have hprep : ∃ w₁ : World, relay.Runs Enqueuer.RollsBack (0 : Nat) (Actor.enqueuer 0) World.init
      (completedCall.enqueuer.prepare completedCall.args) w₁ (.ok ()) ∧
      w₁.db.committed = [.ofJob completedCall.args.keyedJob] := by
    refine ⟨?_, .of_run (fun o ans h _ => ?_) (?_ : relay.run _ _ _ _
      [Answer.ok 0, Answer.ok 0, Answer.ok 0, Answer.ok 0] = _), ?_⟩
    rotate_left 2
    · rfl
    · rfl
    · simp only [List.mem_cons, List.not_mem_nil, or_false, or_self] at h
      subst h
      rfl
  obtain ⟨w₁, hprep, hrow⟩ := hprep
  rw [Enqueuer.enqueue_eq]
  refine ⟨_, Machine.runs_bind_iff.mpr ⟨w₁, .ok (), hprep, Machine.runs_perform_iff.mpr
    ⟨.fail (.redisError "ConnectionError" ""), ⟨(fun h => nomatch h), rfl⟩⟩⟩, fun evs hlog => ?_, hrow⟩
  obtain rfl : _ = evs := hlog.trans (List.append_nil evs)
  exact ⟨_, List.mem_cons_self .., ⟨rfl, rfl⟩⟩

/-- What it leaves behind is what `Atomic` says. -/
theorem Enqueuer.enqueue_atomic_completed : ∃ w' : World, ∃ evs, w'.log = evs ++ World.init.log ∧
    Sample.completedCall.enqueuer.Atomic Sample.completedCall.args
      (.ofJob Sample.completedCall.args.keyedJob) World.init w' evs
      (.error (.redisError "ConnectionError" "")) := by
  obtain ⟨w', h, -, -⟩ := Sample.exists_enqueue_completed
  exact ⟨w', enqueue_atomic rfl h⟩

/-- Its row is not that of a pending job. -/
theorem Enqueuer.not_atomic_pending : ¬ ∀ (enq : Enqueuer) (args : EnqueueArgs) (w w' : World)
    (site : Nat) (a : Actor) (out : Except PyExc Nat), w.db.txs site = none →
    relay.Runs RollsBack site a w (enq.enqueue args) w' out →
    ∃ evs, w'.log = evs ++ w.log ∧
      enq.Atomic args { Row.ofJob args.keyedJob with status := .pending } w w' evs out := by
  intro h
  obtain ⟨w', hrun, hxadd, hrow⟩ := Sample.exists_enqueue_completed
  obtain ⟨evs, hlog, hat⟩ := h _ _ _ _ _ _ _ rfl hrun
  have hnew := (hat.unapplied (hxadd evs hlog)).2.1
  rw [NewRow, if_pos (by rfl)] at hnew
  rw [hnew] at hrow
  have hstatus := congrArg (List.map Row.status) hrow
  simp [World.init, Row.ofJob, Sample.completedCall, Sample.enqueueCall, EnqueueArgs.keyedJob,
    EnqueueArgs.key?] at hstatus

end RelayQ

import RelayQ.System.Service
import RelayQ.System.Wiring

/-! # Queue isolation

Each queue has its own keys, an operation on a queue sends commands for the keys of this queue only
(others it reads at most), and what it appends carries a job of this queue: a worker executes what it
has read under its own queue argument, and the job a dead letter holds is of the queue whose
dead letter it is.

* `KeepsTo`: the calls an operation on a queue may make.
* `QueueOp.calls_code`: the operations make no others.
* `Service.Filed`, `Service.queueIsolation`: the invariant and the guarantee. -/

namespace RelayQ

section

variable [Codec]

/-- The stream and the dead-letter stream of the queue, groups included, are the same. -/
structure SameQueue (t : RedisStreamTransport) (queue : String) (w w' : World) : Prop where
  stream : w'.redis (t.streamKey queue) = w.redis (t.streamKey queue)
  dlq : w'.redis (t.dlqKey queue) = w.redis (t.dlqKey queue)

/-- Every job in a stream or in a dead-letter stream is of its queue. -/
structure World.Filed (t : RedisStreamTransport) (w : World) : Prop where
  streams : ∀ queue, ∀ e ∈ (w.redis (t.streamKey queue)).entries,
    ∃ job : Job, job.queue = queue ∧ e.fields = RedisStreamTransport.jobBody job
  dlqs : ∀ queue, ∀ e ∈ (w.redis (t.dlqKey queue)).entries,
    ∃ (job : Job) (why : String), job.queue = queue ∧ e.fields = RedisStreamTransport.dlqBody job why

/-- The commands of an operation on a queue: they change its keys only, and if the operation fits,
a job they append is of the queue and goes to its stream alone, or to its dead letters with a
reason. -/
def CmdKeepsTo (t : RedisStreamTransport) (queue : String) (fits : Prop) (c : Redis.Cmd Body) :
    Prop :=
  (c.readOnly = true ∨ c.key = t.streamKey queue ∨ c.key = t.dlqKey queue) ∧
    (fits → ∀ key body, c.added? = some (key, body) → ∃ job : Job, job.queue = queue ∧
      (key = t.streamKey queue ∧ body = RedisStreamTransport.jobBody job ∨
        key = t.dlqKey queue ∧ ∃ why, body = RedisStreamTransport.dlqBody job why))

/-- The calls of an operation on a queue. -/
def KeepsTo (t : RedisStreamTransport) (queue : String) (fits : Prop) : Op → Prop
  | .redis c => CmdKeepsTo t queue fits c
  | _ => True

variable {t : RedisStreamTransport} {queue : String} {fits : Prop} {w w' : World}

omit [Codec] in
/-- Where no command is carried out nothing changes. -/
theorem SameQueue.of_redis (h : w'.redis = w.redis) : SameQueue t queue w w' :=
  ⟨by rw [h], by rw [h]⟩

/-- What the database does concerns no job in a stream. -/
theorem World.Filed.of_redis (hw : w.Filed t) (h : w'.redis = w.redis) : w'.Filed t :=
  ⟨h ▸ hw.streams, h ▸ hw.dlqs⟩

namespace KeepsTo

/-- A call leaves the keys of every other queue as they are. -/
theorem sameQueue {site : Nat} {a : Actor} {o : Op} {ans : Answer} {r : Except PyExc o.Res}
    (hx : w.exec site a o ans = some (w', r)) (ho : KeepsTo t queue fits o) {queue' : String}
    (hne : queue' ≠ queue) : SameQueue t queue' w w' := by
  have hkeep : ∀ k, k ≠ t.streamKey queue → k ≠ t.dlqKey queue → w'.redis k = w.redis k := by
    intro k hs hd
    by_cases hc : ∃ c, o = .redis c
    · obtain ⟨c, rfl⟩ := hc
      rcases World.exec_redis hx with ⟨n, -, rfl, -⟩ | ⟨e, -, -, -, rfl⟩
      · rcases ho.1 with hread | hkey
        · exact congrFun (Redis.Keyspace.apply_of_readOnly w.redis w.now n hread) k
        · refine Redis.Keyspace.apply_of_ne w.redis w.now n c ?_
          rcases hkey with hkey | hkey <;> rw [hkey] <;> assumption
      · rfl
    · rw [(World.exec_other (fun c h => hc ⟨c, h⟩) hx).1]
  exact ⟨hkeep _ (fun h => hne (t.streamKey_injective h)) (t.streamKey_ne_dlqKey _ _),
    hkeep _ (t.streamKey_ne_dlqKey _ _).symm fun h => hne (t.dlqKey_injective h)⟩

/-- A call of an operation that fits leaves every job where it belongs. -/
theorem filed {site : Nat} {a : Actor} {o : Op} {ans : Answer} {r : Except PyExc o.Res}
    (hx : w.exec site a o ans = some (w', r)) (ho : KeepsTo t queue True o) (h : w.Filed t) :
    w'.Filed t := by
  -- an entry was there before, or the call appended it
  have hadded : ∀ k, ∀ e ∈ (w'.redis k).entries, e ∈ (w.redis k).entries ∨
      ∃ job : Job, job.queue = queue ∧
        (k = t.streamKey queue ∧ e.fields = RedisStreamTransport.jobBody job ∨
          k = t.dlqKey queue ∧ ∃ why, e.fields = RedisStreamTransport.dlqBody job why) := by
    intro k e he
    by_cases hc : ∃ c, o = .redis c
    · obtain ⟨c, rfl⟩ := hc
      rcases World.exec_redis hx with ⟨n, -, rfl, -⟩ | ⟨e', -, -, -, rfl⟩
      · exact (Redis.Keyspace.added_of_mem_apply he).imp_right fun hadd => ho.2 trivial _ _ hadd
      · exact .inl he
    · rw [(World.exec_other (fun c h => hc ⟨c, h⟩) hx).1] at he
      exact .inl he
  constructor
  · intro queue' e he
    rcases hadded _ e he with he | ⟨job, rfl, ⟨hk, hbody⟩ | ⟨hk, -⟩⟩
    · exact h.streams queue' e he
    · exact ⟨job, (t.streamKey_injective hk).symm, hbody⟩
    · exact absurd hk (t.streamKey_ne_dlqKey _ _)
  · intro queue' e he
    rcases hadded _ e he with he | ⟨job, rfl, ⟨hk, -⟩ | ⟨hk, why, hbody⟩⟩
    · exact h.dlqs queue' e he
    · exact absurd hk.symm (t.streamKey_ne_dlqKey _ _)
    · exact ⟨job, why, (t.dlqKey_injective hk).symm, hbody⟩

end KeepsTo

/-! ## The operations -/

/-- A command that appends nothing keeps to a queue if it reads, or is for a key of the queue. -/
theorem cmdKeepsTo_of_not_added {c : Redis.Cmd Body} (hadd : c.added? = none)
    (hkey : c.readOnly = true ∨ c.key = t.streamKey queue ∨ c.key = t.dlqKey queue) :
    CmdKeepsTo t queue fits c :=
  ⟨hkey, fun _ _ _ h => nomatch hadd.symm.trans h⟩

omit [Codec] in
/-- The result of a call does not matter. -/
theorem calls_discard {α : Type} {ok : Op → Prop} {p : Py α} (h : p.Calls ok) :
    (discard p).Calls ok :=
  h.bind fun _ => .ret ()

/-- The methods of the transport keep to their queue. -/
theorem TransportOp.calls_code (op : TransportOp) {t' : RedisStreamTransport}
    (ht : t'.streamPrefix = t.streamPrefix) (queue : String) :
    (op.code t' queue).Calls (KeepsTo t queue (QueueOp.transport t' queue op).Fits) := by
  have hs := RedisStreamTransport.streamKey_congr ht queue
  have hd := RedisStreamTransport.dlqKey_congr ht queue
  cases op with
  | ensureGroup =>
    refine .tryExcept (.perform (cmdKeepsTo_of_not_added rfl (.inr (.inl hs)))) fun e => ?_
    split
    · split <;> trivial
    · trivial
  | streamLength => exact calls_discard (.perform (cmdKeepsTo_of_not_added rfl (.inl rfl)))
  | xadd job maxlen approximate =>
    refine calls_discard (.perform ⟨.inr (.inl hs), fun hfits key body hadd => ?_⟩)
    obtain ⟨rfl, rfl⟩ := Prod.mk.inj (Option.some.inj hadd)
    exact ⟨job, hfits, .inl ⟨hs, rfl⟩⟩
  | xaddDlq job reason =>
    refine calls_discard (.perform ⟨.inr (.inr hd), fun hfits key body hadd => ?_⟩)
    obtain ⟨rfl, rfl⟩ := Prod.mk.inj (Option.some.inj hadd)
    exact ⟨job, hfits, .inr ⟨hd, reason, rfl⟩⟩
  | readGroup workerId count blockMs now =>
    refine calls_discard ?_
    unfold RedisStreamTransport.readGroup
    split
    · trivial
    · exact .bind (.perform (cmdKeepsTo_of_not_added rfl (.inr (.inl hs)))) fun _ => .ofExcept _
  | xack entryId =>
    exact calls_discard (.perform (cmdKeepsTo_of_not_added rfl (.inr (.inl hs))))
  | autoclaimStale workerId minIdleMs count now =>
    exact calls_discard (.bind (.perform (cmdKeepsTo_of_not_added rfl (.inr (.inl hs))))
      fun _ => .ofExcept _)
  | readDlq count =>
    refine calls_discard ?_
    unfold RedisStreamTransport.readDlq
    split
    · trivial
    · exact .bind (.perform (cmdKeepsTo_of_not_added rfl (.inl rfl))) fun _ => .ofExcept _
  | readDlqEntry jobId =>
    exact calls_discard (.bind (.perform (cmdKeepsTo_of_not_added rfl (.inl rfl)))
      fun _ => .ofExcept _)
  | deleteDlqEntry entryId =>
    exact .bind (.perform (cmdKeepsTo_of_not_added rfl (.inr (.inr hd)))) fun _ => .ret ()

/-! ### Enqueuing and replaying -/

/-- The queries of the store are no commands. -/
theorem Enqueuer.calls_checkKey (enq : Enqueuer) (key : Option String) :
    (enq.checkKey key).Calls (KeepsTo t queue fits) := by
  unfold checkKey
  split
  · split
    · refine .bind (.bind (.perform trivial) fun row => ?_) fun existing => ?_
      · cases row with
        | none => trivial
        | some row =>
          refine .bind (.perform trivial) fun now => ?_
          split <;> trivial
      · split <;> trivial
    · trivial
  · trivial

/-- A transaction adds the statements that begin and end it. -/
theorem SqliteStore.calls_transaction {α : Type} {body : Py α}
    (h : body.Calls (KeepsTo t queue fits)) :
    (SqliteStore.transaction body).Calls (KeepsTo t queue fits) := by
  refine .bind (.perform trivial) fun _ => .tryExcept ?_ fun e => ?_
  · exact h.bind fun _ => .bind (.perform trivial) fun _ => .ret _
  · split
    · exact .bind (.perform trivial) fun _ => .raise _
    · trivial

/-- A call of `enqueue` appends its job to its queue. -/
theorem Enqueuer.calls_enqueue (enq : Enqueuer) (args : EnqueueArgs)
    (ht : enq.transport.streamPrefix = t.streamPrefix) :
    (enq.enqueue args).Calls (KeepsTo t args.job.queue fits) := by
  have hs := RedisStreamTransport.streamKey_congr ht args.job.queue
  unfold enqueue
  split
  · trivial
  refine .bind (.perform (cmdKeepsTo_of_not_added rfl (.inl rfl))) fun depth => ?_
  split
  · trivial
  refine .bind (enq.calls_checkKey _) fun _ => .bind ?_ fun _ => ?_
  · unfold writeOutbox
    split
    · exact SqliteStore.calls_transaction (.perform trivial)
    · trivial
  · refine .perform ⟨.inr (.inl hs), fun _ key body hadd => ?_⟩
    obtain ⟨rfl, rfl⟩ := Prod.mk.inj (Option.some.inj hadd)
    refine ⟨args.keyedJob, ?_, .inl ⟨hs, rfl⟩⟩
    unfold EnqueueArgs.keyedJob
    split <;> rfl

/-- An object whose status is a plain text is never appended: the call only reads. -/
theorem Enqueuer.calls_enqueueObject_text (enq : Enqueuer) (args : EnqueueArgs) (status : String) :
    (enq.enqueueObject args (.text status)).Calls (KeepsTo t queue fits) := by
  unfold enqueueObject
  split
  · trivial
  refine .bind (.perform (cmdKeepsTo_of_not_added rfl (.inl rfl))) fun depth => ?_
  split
  · trivial
  refine .bind (enq.calls_checkKey _) fun _ => .bind ?_ fun _ => .raise _
  unfold writeOutboxObject
  split
  · exact SqliteStore.calls_transaction (.raise _)
  · trivial

/-- A replay reads, and deletes a dead letter of its queue. -/
theorem calls_replayDlqJob (enq : Enqueuer) (name jobId : String) (now : DateTime)
    (ht : enq.transport.streamPrefix = t.streamPrefix) :
    (replayDlqJob ⟨some enq⟩ name jobId now).Calls (KeepsTo t name fits) := by
  have hd := RedisStreamTransport.dlqKey_congr ht name
  refine .bind (.bind (.perform (cmdKeepsTo_of_not_added rfl (.inl rfl))) fun _ => .ofExcept _)
    fun entry => ?_
  split
  · trivial
  split
  · trivial
  split
  · trivial
  refine .bind (enq.calls_enqueueObject_text _ _) fun entryId => .bind ?_ fun _ => .ret _
  exact .bind (.perform (cmdKeepsTo_of_not_added rfl (.inr (.inr hd)))) fun _ => .ret ()

/-! ### Executing -/

namespace Executor

variable (x : Executor)

/-- An acknowledgement keeps to its queue. -/
theorem calls_xack (ht : x.transport.streamPrefix = t.streamPrefix) (entryId : Nat) :
    (x.transport.xack queue entryId).Calls (KeepsTo t queue fits) :=
  .perform (cmdKeepsTo_of_not_added rfl
    (.inr (.inl (RedisStreamTransport.streamKey_congr ht queue))))

/-- A failed job goes to the dead letters of its queue. -/
theorem calls_handleFailure (ht : x.transport.streamPrefix = t.streamPrefix) (entryId : Nat)
    (job : Job) (exc : PyExc) :
    (x.handleFailure queue entryId job exc).Calls (KeepsTo t queue (job.queue = queue)) := by
  have hd := RedisStreamTransport.dlqKey_congr ht queue
  refine .bind (.perform trivial) fun _ => ?_
  split
  · refine .bind ?_ fun why => .bind (calls_logged (.bind (.perform ?_) fun _ =>
      .bind (x.calls_xack ht entryId) fun _ => .perform trivial)) fun _ =>
        .bind (calls_noteStatus fun _ => trivial) fun _ => .ret _
    · unfold reason
      split <;> trivial
    · refine ⟨.inr (.inr hd), fun hfits key body hadd => ?_⟩
      obtain ⟨rfl, rfl⟩ := Prod.mk.inj (Option.some.inj hadd)
      exact ⟨{ job with attempts := job.attempts + 1 }, hfits, .inr ⟨hd, why, rfl⟩⟩
  · exact .bind (.perform trivial) fun _ => .bind (calls_noteStatus fun _ => trivial) fun _ => .ret _

/-- **An `execute` keeps to the queue it is called with**, if its job is of this queue. -/
theorem calls_execute (ht : x.transport.streamPrefix = t.streamPrefix) (queue : String)
    (entryId : Nat) (job : Job) :
    (x.execute queue entryId job).Calls (KeepsTo t queue (job.queue = queue)) := by
  refine .bind (calls_noteStatus fun _ => trivial) fun _ => .bind (.perform trivial) fun start =>
    .bind (.perform trivial) fun (run : HandlerRun) => ?_
  dsimp only
  split
  · refine .bind (calls_observeElapsed trivial fun _ => trivial) fun _ => ?_
    exact .bind (calls_logged (x.calls_xack ht entryId)) fun _ =>
      .bind (calls_noteStatus fun _ => trivial) fun _ => .bind (.perform trivial) fun _ => .ret _
  · split
    · -- the handler may have left another payload, the queue is the same
      exact .bind (calls_observeElapsed trivial fun _ => trivial) fun _ =>
        x.calls_handleFailure ht entryId { job with payload := run.payload } _
    · trivial

end Executor

/-- **Every operation keeps to its queue.** -/
theorem QueueOp.calls_code (op : QueueOp) (ht : op.streamPrefix = t.streamPrefix) :
    op.code.Calls (KeepsTo t op.queue op.Fits) := by
  cases op with
  | transport t' queue op => exact op.calls_code ht queue
  | enqueue c => exact calls_discard (c.enqueuer.calls_enqueue c.args ht)
  | execute c => exact calls_discard (c.executor.calls_execute ht c.queue c.entryId c.job)
  | replayDlqJob enq name jobId now => exact calls_discard (calls_replayDlqJob enq name jobId now ht)

/-! ## Runs -/

/-- What holds of a worker at all times: the jobs it has read are of its queue, and its tasks keep
to the queue. -/
structure Worker.Filed (t : RedisStreamTransport) (w : Worker) : Prop where
  uses : w.runner.uses t.streamPrefix
  jobs : ∀ d ∈ w.deliveries, ∃ job : Job, job.queue = w.runner.queue ∧ d.job = .ofJob job
  running : ∀ d p, ⟨d, .running p⟩ ∈ w.tasks → p.Calls (KeepsTo t w.runner.queue True)

/-- What fits keeps to its queue for good. -/
theorem KeepsTo.of_fits {α : Type} {p : Py α} (hfits : fits) (h : p.Calls (KeepsTo t queue fits)) :
    p.Calls (KeepsTo t queue True) := by
  refine h.mono fun o ho => ?_
  cases o with
  | redis c => exact ⟨ho.1, fun _ => ho.2 hfits⟩
  | _ => trivial

/-- A step of a worker makes no call, or one that keeps to its queue. -/
theorem Worker.Filed.call {wk wk' : Worker} (h : wk.Filed t) {me : Nat}
    (hm : Move me wk w w' wk') : w' = w ∨ ∃ a o ans r,
      w.exec wk.site a o ans = some (w', r) ∧ KeepsTo t wk.runner.queue True o := by
  obtain ⟨ht, -, hadm, hrec⟩ := h.uses
  cases hm with
  | loop | recovery | shutdown | spawn | start | retire => exact .inl rfl
  | ensure hx _ _ | poll _ _ hx _ =>
    exact .inr ⟨_, _, _, _, hx, cmdKeepsTo_of_not_added rfl
      (.inr (.inl (RedisStreamTransport.streamKey_congr ht _)))⟩
  | check _ _ hx _ => exact .inr ⟨_, _, _, _, hx, cmdKeepsTo_of_not_added rfl (.inl rfl)⟩
  | claim hc hx =>
    exact .inr ⟨_, _, _, _, hx, cmdKeepsTo_of_not_added rfl
      (.inr (.inl (RedisStreamTransport.streamKey_congr (hrec _ hc) _)))⟩
  | task hi hx => exact .inr ⟨_, _, _, _, hx, (h.running _ _ (List.mem_of_getElem? hi)).1⟩

/-- A task that goes on with a program that keeps to the queue. -/
theorem Worker.Filed.settled {wk : Worker} (h : wk.Filed t) {i : Nat} {q : Py Unit}
    (hq : q.Calls (KeepsTo t wk.runner.queue True)) {d : Delivery} {p : Py Unit}
    (hp : ⟨d, .running p⟩ ∈ (wk.setTask i (.after q)).tasks) :
    p.Calls (KeepsTo t wk.runner.queue True) := by
  rcases mem_setTask hp with hp | ⟨d₀, pc₀, -, heq⟩
  · exact h.running d p hp
  · obtain ⟨-, hpc⟩ := Task.mk.inj heq
    unfold TaskPc.after at hpc
    split at hpc
    · cases hpc
      exact hq
    · cases hpc

/-- **A step of a worker leaves it with jobs of its queue.** -/
theorem Worker.Filed.move {wk wk' : Worker} (h : wk.Filed t) (hw : w.Filed t) {me : Nat}
    (hm : Move me wk w w' wk') : wk'.Filed t := by
  obtain ⟨hr, -, -⟩ := hm.frame
  refine ⟨hr ▸ h.uses, fun d hd => ?_, fun d p hp => ?_⟩
  · rw [hr]
    rcases hm.deliveries hd with hd | ⟨now, grp, consumer, count, e, -, -, -, he, -, hdec⟩
    · exact h.jobs d hd
    · -- it was read from the stream of the queue
      rw [RedisStreamTransport.streamKey_congr h.uses.1] at he
      obtain ⟨job, hq, hbody⟩ := hw.streams _ e (Redis.Stream.mem_of_mem_deliver he).1
      rw [hbody, RedisStreamTransport.decodeEntry_jobBody] at hdec
      exact ⟨job, hq, (Decoded.job.inj hdec).symm⟩
  · rw [hr]
    cases hm with
    | loop | recovery | shutdown | ensure | check | poll | claim => exact h.running d p hp
    | spawn hloop hperm =>
      rcases List.mem_append.mp hp with hp | hp
      · exact h.running d p hp
      · simp at hp
    | @start i d₀ hi =>
      rw [settle_tasks] at hp
      refine h.settled ?_ hp
      obtain ⟨job, hq, hjob⟩ := h.jobs d₀ (List.mem_append_right _
        (List.mem_map_of_mem (List.mem_of_getElem? hi)))
      simp only [WorkerRunner.processJob, hjob, RawJob.typed?_ofJob]
      exact Executor.calls_logged (KeepsTo.of_fits hq
        (wk.runner.executor.calls_execute h.uses.2.1 _ _ job))
    | task hi hx =>
      rw [settle_tasks] at hp
      exact h.settled ((h.running _ _ (List.mem_of_getElem? hi)).2 _) hp
    | retire hi hpc hover =>
      rcases mem_setTask hp with hp | ⟨d₁, pc₁, -, heq⟩
      · exact h.running d p hp
      · obtain ⟨-, rfl⟩ := Task.mk.inj heq
        cases hover

namespace Service

/-- What holds at every moment of a run. -/
structure Filed (t : RedisStreamTransport) (s : Service) : Prop where
  world : s.world.Filed t
  enqueues : ∀ c ∈ s.sys.pool.procs, ∀ p, c.prog = some p →
    p.Calls (KeepsTo t c.info.args.job.queue True)
  workers : ∀ w ∈ s.sys.workers, w.Filed t
  ops : ∀ c ∈ s.ops, ∀ p, c.prog = some p → p.Calls (KeepsTo t c.info.queue True)

/-- The runs in which jobs enter streams only through `Enqueuer`: everything uses the one prefix,
nobody outside the code writes, and no client of the transport appends or executes jobs itself. -/
def Through (t : RedisStreamTransport) : ServiceLabel → Prop
  | .sys (.pool (.env (.foreign _ _))) => False
  | .sys l => l.uses t.streamPrefix
  | .start op _ => op.streamPrefix = t.streamPrefix ∧ op.admitted = true
  | .answer _ _ => True

variable {s s' : Service} {l : ServiceLabel}

/-- There is nothing to file at the start. -/
theorem filed_init : init.Filed t where
  world := {
    streams := fun _ _ he => nomatch he
    dlqs := fun _ _ he => nomatch he }
  enqueues := by simp [init, Sys.init]
  workers := by simp [init, Sys.init]
  ops := by simp [init]

/-- The calls that keep to a queue leave the others alone. -/
structure StepOn (t : RedisStreamTransport) (s s' : Service) (l : ServiceLabel) : Prop where
  filed : s'.Filed t
  others : ∀ queue, s.queue? l ≠ some queue → SameQueue t queue s.world s'.world

/-- A step of the system. -/
theorem Filed.step_sys {sl : SysLabel} {sys : Sys} (h : s.Filed t) (hl : Through t (.sys sl))
    (hs : s.sys.step sl = some sys) : StepOn t s ⟨sys, survivors s.ops sl⟩ (.sys sl) := by
  obtain ⟨⟨pool, workers⟩, ops⟩ := s
  rcases Sys.step_cases hs with ⟨pl, p, rfl, -, hp, rfl⟩ | ⟨r, site, rfl, rfl⟩ |
    ⟨i, wl, w, world, w', rfl, hi, -, hx, rfl⟩
  · rcases PoolSpec.step_cases hp with ⟨c, site, rfl, rfl⟩ |
      ⟨i, ans, c, o, k, w, r, rfl, hc, hprog, hx, rfl⟩ | ⟨site, rfl, rfl⟩ | ⟨e, w, rfl, hw, rfl⟩
    · -- a call of `enqueue` starts
      refine ⟨⟨h.world, fun x hx q hq => ?_, h.workers, h.ops⟩, fun _ _ => .of_redis rfl⟩
      rcases List.mem_append.mp hx with hx | hx
      · exact h.enqueues x hx q hq
      · obtain rfl := List.mem_singleton.mp hx
        obtain rfl := Option.some.inj hq
        exact c.enqueuer.calls_enqueue c.args hl
    · -- it is answered
      obtain ⟨hok, hrest⟩ := h.enqueues c (List.mem_of_getElem? hc) _ hprog
      refine ⟨⟨KeepsTo.filed hx hok h.world, fun x hx' q hq => ?_, h.workers, h.ops⟩,
        fun queue hne => KeepsTo.sameQueue hx hok fun heq => hne ?_⟩
      · rcases List.mem_or_eq_of_mem_set hx' with hx' | rfl
        · exact h.enqueues x hx' q hq
        · obtain rfl := Option.some.inj hq
          exact hrest r
      · simp only [queue?, hc, Option.map_some, heq]
    · -- a site crashes
      refine ⟨⟨h.world.of_redis rfl, fun x hx q hq => ?_, fun w hw => ?_, fun x hx q hq => ?_⟩,
        fun _ _ => .of_redis rfl⟩
      · obtain ⟨y, hy, rfl⟩ := List.mem_map.mp hx
        obtain ⟨hprog, hkill⟩ := Proc.kill_prog_eq_some hq
        rw [hkill]
        exact h.enqueues y hy q hprog
      · have hw : w ∈ Sys.killed workers (.crash site) := hw
        obtain ⟨w₀, hw₀, rfl | rfl⟩ := Sys.mem_killed (s := ⟨pool, workers⟩) hw
        · exact h.workers w hw₀
        · exact ⟨(h.workers w₀ hw₀).uses, (h.workers w₀ hw₀).jobs, (h.workers w₀ hw₀).running⟩
      · obtain ⟨y, hy, rfl⟩ := List.mem_map.mp hx
        obtain ⟨hprog, hkill⟩ := Proc.kill_prog_eq_some hq
        rw [hkill]
        exact h.ops y hy q hprog
    · -- time passes
      cases e with
      | tick d =>
        obtain rfl := Option.some.inj hw
        exact ⟨⟨h.world.of_redis rfl, h.enqueues, h.workers, h.ops⟩, fun _ _ => .of_redis rfl⟩
      | foreign key body => exact hl.elim
  · -- a worker starts
    refine ⟨⟨h.world, h.enqueues, fun w hw => ?_, h.ops⟩, fun _ _ => .of_redis rfl⟩
    rcases List.mem_append.mp hw with hw | hw
    · exact h.workers w hw
    · obtain rfl := List.mem_singleton.mp hw
      refine ⟨hl, fun d hd => ?_, fun d p hp => ?_⟩
      · cases hd
      · cases hp
  · -- a worker gets on
    have hwk := h.workers w (List.mem_of_getElem? hi)
    have hm := Worker.step_move hx
    have hmoved : ∀ w₁ ∈ workers.set i w', w₁.Filed t := fun w₁ hw₁ => by
      rcases List.mem_or_eq_of_mem_set hw₁ with hw₁ | rfl
      · exact h.workers w₁ hw₁
      · exact hwk.move h.world hm
    rcases hwk.call hm with rfl | ⟨a, o, ans, r, hx, hok⟩
    · exact ⟨⟨h.world, h.enqueues, hmoved, h.ops⟩, fun _ _ => .of_redis rfl⟩
    · refine ⟨⟨KeepsTo.filed hx hok h.world, h.enqueues, hmoved, h.ops⟩,
        fun queue hne => KeepsTo.sameQueue hx hok fun heq => hne ?_⟩
      have hi' : workers[i]? = some w := hi
      simp only [queue?, hi', Option.map_some, heq]

/-- **One step keeps every job in its place, and leaves the other queues alone.** -/
theorem Filed.step (h : s.Filed t) (hl : Through t l) (hs : s.step l = some s') :
    StepOn t s s' l := by
  rcases step_cases hs with ⟨sl, sys, rfl, hsys, rfl⟩ | ⟨op, site, rfl, rfl⟩ |
    ⟨i, ans, c, o, k, w, r, rfl, hc, hprog, hx, rfl⟩
  · exact h.step_sys hl hsys
  · -- an operation starts
    refine ⟨⟨h.world, h.enqueues, h.workers, fun x hx q hq => ?_⟩, fun _ _ => .of_redis rfl⟩
    rcases List.mem_append.mp hx with hx | hx
    · exact h.ops x hx q hq
    · obtain rfl := List.mem_singleton.mp hx
      obtain rfl := Option.some.inj hq
      exact KeepsTo.of_fits (QueueOp.fits_of_admitted hl.2) (op.calls_code hl.1)
  · -- it is answered
    obtain ⟨hok, hrest⟩ := h.ops c (List.mem_of_getElem? hc) _ hprog
    refine ⟨⟨KeepsTo.filed hx hok h.world, h.enqueues, h.workers, fun x hx' q hq => ?_⟩,
      fun queue hne => KeepsTo.sameQueue hx hok fun heq => hne ?_⟩
    · rcases List.mem_or_eq_of_mem_set hx' with hx' | rfl
      · exact h.ops x hx' q hq
      · obtain rfl := Option.some.inj hq
        exact hrest r
    · simp only [queue?, hc, Option.map_some, heq]

/-- A run of an operation by itself leaves the other queues alone, whatever job it is called with. -/
theorem runs_sameQueue {P : Op → Answer → Prop} {site : Nat} {a : Actor} {op : QueueOp}
    (ht : op.streamPrefix = t.streamPrefix) {out : Except PyExc Unit}
    (h : relay.Runs P site a w op.code w' out) (hne : queue ≠ op.queue) : SameQueue t queue w w' := by
  have hcall : ∀ {u : World} {o ans u' r}, SameQueue t queue w u → KeepsTo t op.queue op.Fits o →
      u.exec site a o ans = some (u', r) → SameQueue t queue w u' := fun hu hok hx =>
    have hstep := KeepsTo.sameQueue hx hok hne
    ⟨hstep.stream.trans hu.stream, hstep.dlq.trans hu.dlq⟩
  obtain ⟨-, hsame, -⟩ := Machine.Runs.sound (R := fun u _ => SameQueue t queue w u)
    (fun hu hok _ hx => hcall hu hok hx) h (.of_redis rfl) (op.calls_code ht)
  exact hsame

/-- In every state that is reached what is filed is filed under its queue. -/
theorem filed_of_reaches (hrun : Reaches Service.step (fun _ => Through t) init s) : s.Filed t :=
  Reaches.invariant (fun _ _ _ h hl hs => (h.step hl hs).filed) hrun filed_init

/-- **Queue isolation**: no key is the stream of one queue and the dead-letter stream of another. In
every state of a run in which jobs enter streams only through `Enqueuer`, every job in the stream or
among the dead letters of a queue is of that queue; a step on behalf of one queue, and any operation
on it that is run by itself, leave the stream, the groups and the dead letters of every other queue
as they are. -/
theorem queueIsolation (hrun : Reaches Service.step (fun _ => Through t) init s) :
    (∀ queue queue', t.dlqKey queue ≠ t.streamKey queue') ∧ s.world.Filed t ∧
    (∀ l s', Through t l → s.step l = some s' → ∀ queue, s.queue? l ≠ some queue →
      SameQueue t queue s.world s'.world) ∧
    ∀ (op : QueueOp) (queue : String), op.streamPrefix = t.streamPrefix → queue ≠ op.queue →
      ∀ (site : Nat) (a : Actor) (w' : World) (out : Except PyExc Unit),
        relay.Runs (fun _ _ => True) site a s.world op.code w' out →
          SameQueue t queue s.world w' := by
  have h := filed_of_reaches hrun
  exact ⟨fun queue queue' => (t.streamKey_ne_dlqKey queue' queue).symm, h.world,
    fun l s' hl hs => (h.step hl hs).others,
    fun op queue ht hne site a w' out hr => runs_sameQueue ht hr hne⟩

end Service

end

/-- A replay on another queue leaves an enqueued job and everything about its queue in place. -/
theorem Service.queueIsolation_enqueued : ∃ s : Service,
    (s.world.redis (Sample.transport.streamKey "default")).entries =
      [⟨1, RedisStreamTransport.jobBody Sample.job⟩] ∧
    s.world.Filed Sample.transport ∧ ∀ (site : Nat) (a : Actor) (w' : World)
      (out : Except PyExc Unit),
        relay.Runs (fun _ _ => True) site a s.world
          (QueueOp.replayDlqJob { transport := Sample.transport } "other" "j1" .epoch).code w' out →
        SameQueue Sample.transport "default" s.world w' := by
  -- a call of `enqueue` reads the depth and appends its job
  obtain ⟨s, hrun, hent⟩ : ∃ s : Service,
      Reaches Service.step (fun _ => Service.Through Sample.transport) Service.init s ∧
      (s.world.redis (Sample.transport.streamKey "default")).entries =
        [⟨1, RedisStreamTransport.jobBody Sample.job⟩] :=
    ⟨_, .tail (l := .sys (.pool (.answer 0 (.ok 0))))
      (.tail (l := .sys (.pool (.answer 0 (.ok 0))))
        (.single (l := .sys (.pool (.start (Sample.enqueueCall Sample.job false) 0))) rfl rfl)
        trivial rfl) trivial rfl, rfl⟩
  obtain ⟨-, hfiled, -, hops⟩ := Service.queueIsolation hrun
  exact ⟨s, hent, hfiled, hops _ "default" rfl (by decide)⟩

end RelayQ

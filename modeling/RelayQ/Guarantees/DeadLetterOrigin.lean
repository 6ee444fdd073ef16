import RelayQ.Guarantees.Provenance

/-! # Only exhausted jobs are dead-lettered

The attempts of a job are counted on the object that a worker decoded from the stream entry, never on
the entry itself. A job is therefore dead-lettered by its first failure or by none: exactly the jobs
that were enqueued with no retry left can come to the dead-letter queue, each of them once, as they
were enqueued but for that one attempt and for what the handler did to their payload.

* `Sys.ExhaustedBy`: the dead letter is of a job that was enqueued so.
* `Sys.deadLettersExhausted`: the guarantee. -/

namespace RelayQ

namespace Sys

variable [Codec] {t : RedisStreamTransport} {s : Sys}

/-- The dead letter is of the job of an `enqueue` call whose attempts had come to its retries when it
was enqueued; or the stream entry was left by a writer outside the code. -/
def ExhaustedBy (t : RedisStreamTransport) (s : Sys) (queue : String) (entryId : Nat)
    (body : Body) : Prop :=
  ∃ a src, s.world.AppendedBy (t.streamKey queue) entryId a src ∧ (a = .foreign ∨
    ∃ n c payload why, a = .enqueuer n ∧ s.pool.procs[n]? = some c ∧
      c.info.args.job.queue = queue ∧
      c.info.args.keyedJob.maxRetries ≤ c.info.args.keyedJob.attempts ∧
      body = RedisStreamTransport.dlqBody
        { c.info.args.keyedJob with attempts := c.info.args.keyedJob.attempts + 1, payload } why)

/-- What a task appends is the dead letter of such a job. -/
theorem Run.exhausted (hrun : Run t init s) {ev : Event} (hev : ev ∈ s.world.log) {i j e : Nat}
    {q key : String} {body : Body} {lim : Option (Nat × Bool)} (ha : ev.actor = .executor i j q e)
    (hop : ev.op = .redis (.xadd key body lim)) : s.ExhaustedBy t q e body := by
  obtain ⟨job?, hjob, a, src, happ, hsrc⟩ := hrun.source hev ha
  rw [hop] at hjob
  obtain ⟨job, payload, why, rfl, hretries, rfl⟩ := hjob
  refine ⟨a, src, happ, hsrc.imp_right ?_⟩
  rintro ⟨n, c, rfl, hc, hqueue, heq⟩
  obtain rfl := Option.some.inj heq
  exact ⟨n, c, payload, why, rfl, hc, hqueue, Int.lt_add_one_iff.mp hretries, rfl⟩

end Sys

/-- A job without retries. -/
def Sample.lastTry : Job := { Sample.job with maxRetries := 0 }

/-- Its handler raises, and it is dead-lettered. -/
theorem Sample.exists_deadLettered : ∃ s : Sys, Sys.ClosedRun Sample.transport Sys.init s ∧
    ∃ e ∈ (s.world.redis (Sample.transport.dlqKey "default")).entries,
      s.world.AppendedBy (Sample.transport.dlqKey "default") e.id (.executor 0 0 "default" 1)
        e.fields := by
  obtain ⟨⟨pool, workers⟩, hrun, rfl, -⟩ := Sample.exists_delivered Sample.lastTry
  -- the task is created and started, its handler raises, and the failure is counted
  obtain ⟨s', hs', ev, log, body, hlog, hev, hent'⟩ : ∃ s' : Sys,
      Sys.ClosedRun Sample.transport ⟨pool, [Sample.delivered Sample.lastTry]⟩ s' ∧ ∃ ev log body,
        s'.world.log = ev :: log ∧ ev.appended? (Sample.transport.dlqKey "default") =
          some (.executor 0 0 "default" 1, body) ∧
        ⟨(s'.world.redis (Sample.transport.dlqKey "default")).lastId, body⟩ ∈
          (s'.world.redis (Sample.transport.dlqKey "default")).entries :=
    ⟨_, .tail (l := .worker 0 (.task 0 (.ok 0))) (.tail (l := .worker 0 (.task 0 (.ok 0)))
      (.tail (l := .worker 0 (.task 0 (.ok 0))) (.tail (l := .worker 0 (.task 0 (.ok 0)))
        (.tail (l := .worker 0 (.task 0 (.ran ⟨.empty, some (.other "ValueError" (some "no"))⟩)))
          (.tail (l := .worker 0 (.task 0 (.ok 0))) (.tail (l := .worker 0 (.startTask 0))
            (.single (l := .worker 0 .acquire) ⟨trivial, rfl⟩ rfl) ⟨trivial, rfl⟩ rfl) ⟨trivial, rfl⟩ rfl)
          ⟨trivial, rfl⟩ rfl) ⟨trivial, rfl⟩ rfl) ⟨trivial, rfl⟩ rfl) ⟨trivial, rfl⟩ rfl) ⟨trivial, rfl⟩ rfl,
      _, _, _, rfl, rfl, List.mem_append_right _ (List.mem_singleton_self _)⟩
  have hrun' : Sys.ClosedRun Sample.transport Sys.init s' := hrun.trans hs'
  obtain ⟨-, -, -, hsrc⟩ := hrun'.run.sourced
  have happends : s'.world.appends (Sample.transport.dlqKey "default") =
      World.appends { s'.world with log } (Sample.transport.dlqKey "default") ++
        (ev.appended? (Sample.transport.dlqKey "default")).toList := World.appends_cons hlog
  rw [hev, Option.toList_some] at happends
  refine ⟨s', hrun', _, hent', ?_⟩
  rw [hsrc.numbered.lastId, happends, List.length_append, List.length_singleton]
  exact ⟨Nat.succ_pos _, by rw [happends]; exact List.getElem?_concat_length ..⟩

end RelayQ

import RelayQ.Api.Replay
import RelayQ.Infrastructure.StreamRuns

/-! # Replaying dead letters

A replay is to put the job of a dead letter back on its stream, pending and with its attempts reset,
and to take the dead letter away. It never does: the object it enqueues has a plain text for a
status, and neither the outbox insert nor the append gets past that.

* `Replayable`: the dead letters a replay can find.
* `Replayed`, `Replays`: what a replay is to do.
* `not_replays`: it does so for no dead letter. -/

namespace RelayQ

section

variable [Codec]

/-- The dead letter `e` of a job is what a replay finds among the dead letters of the executor: none
of the newer ones it looks at is of that job. The job's stream is below its maximum depth. -/
structure Replayable (enq : Enqueuer) (name : String) (e : Redis.Entry Body) (job : Job)
    (w : World) : Prop where
  deadLetters : ∀ e ∈ (w.redis (enq.transport.dlqKey name)).entries,
    RedisStreamTransport.IsDeadLetter e
  body : ∃ why, e.fields = RedisStreamTransport.dlqBody job why
  found : ∃ newer older,
    (w.redis (enq.transport.dlqKey name)).entries.reverse.take 200 = newer ++ e :: older ∧
      ∀ e' ∈ newer, ∀ job' why', e'.fields = RedisStreamTransport.dlqBody job' why' →
        job'.id ≠ job.id
  room : (w.redis (enq.transport.streamKey job.queue)).entries.length < enq.maxQueueDepth

/-- What a replay of the dead letter `e` of a job is to leave behind: exactly one entry is new in
the job's stream, and carries the job pending and without attempts; exactly that dead letter is
gone; every other key is as it was. -/
structure Replayed (t : RedisStreamTransport) (name : String) (e : Redis.Entry Body) (job : Job)
    (w w' : World) : Prop where
  stream : (w'.redis (t.streamKey job.queue)).entries =
    (w.redis (t.streamKey job.queue)).entries ++
      [⟨(w.redis (t.streamKey job.queue)).lastId + 1,
        RedisStreamTransport.jobBody { job with status := .pending, attempts := 0 }⟩]
  dlq : (w'.redis (t.dlqKey name)).entries =
    (w.redis (t.dlqKey name)).entries.filter fun x => x.id ≠ e.id
  others : ∀ k, k ≠ t.streamKey job.queue → k ≠ t.dlqKey name → w'.redis k = w.redis k

/-- The replay of a dead letter works: whenever no service fails it returns normally, and has
replayed it. -/
def Replays (enq : Enqueuer) (name : String) (e : Redis.Entry Body) (job : Job) (w : World) : Prop :=
  ∀ (site : Nat) (a : Actor) (now : DateTime) (w' : World) (out : Except PyExc Response),
    relay.Runs Faultless site a w (replayDlqJob ⟨some enq⟩ name job.id now) w' out →
    (∃ resp, out = .ok resp ∧ resp.status = 200) ∧ Replayed enq.transport name e job w w'

/-! ## What a replay does -/

variable {P : Op → Answer → Prop} {w w' : World} {site : Nat} {a : Actor} {enq : Enqueuer}

/-- **An object whose status is a plain text is never enqueued.** -/
theorem not_runs_enqueueObject_text {args : EnqueueArgs} {s : String} {id : Nat} :
    ¬ relay.Runs P site a w (enq.enqueueObject args (.text s)) w' (.ok id) := by
  intro h
  unfold Enqueuer.enqueueObject at h
  split at h
  · cases (Machine.runs_raise_iff.mp h).2
  obtain ⟨w₁, r₁, -, hrest⟩ := Machine.runs_bind_iff.mp h
  cases r₁ with
  | error e => cases hrest.2
  | ok depth =>
    dsimp only at hrest
    split at hrest
    · cases (Machine.runs_raise_iff.mp hrest).2
    obtain ⟨w₂, r₂, -, hrest⟩ := Machine.runs_bind_iff.mp hrest
    cases r₂ with
    | error e => cases hrest.2
    | ok u =>
      obtain ⟨w₃, r₃, -, hrest⟩ := Machine.runs_bind_iff.mp hrest
      cases r₃ with
      | error e => cases hrest.2
      | ok u =>
        -- the append reads the value of the status before it sends anything
        cases (Machine.runs_raise_iff.mp hrest).2

/-- A replay that finds its dead letter does not return. -/
theorem not_runs_replayDlqJob {name : String} {e : Redis.Entry Body} {job : Job} {now : DateTime}
    {resp : Response} (hdlq : Replayable enq name e job w)
    (h : relay.Runs Faultless site a w (replayDlqJob ⟨some enq⟩ name job.id now) w' (.ok resp)) :
    False := by
  obtain ⟨w₁, r, hread, hrest⟩ := Machine.runs_bind_iff.mp h
  have hr := RedisStreamTransport.runs_readDlqEntry hread
  -- the scan finds a dead letter of the job
  have hletters : ∀ e ∈ (w.redis (enq.transport.dlqKey name)).entries.reverse.take 200,
      RedisStreamTransport.IsDeadLetter e :=
    fun e he => hdlq.deadLetters e (List.mem_reverse.mp (List.mem_of_mem_take he))
  obtain ⟨fs, hfs, ⟨-, hnone⟩ | ⟨e', -, job', why, -, -, hfound⟩⟩ :=
    enq.transport.scanDlq_deadLetters job.id hletters
  · obtain ⟨newer, older, hlist, -⟩ := hdlq.found
    obtain ⟨why, hbody⟩ := hdlq.body
    exact hnone e (hlist ▸ List.mem_append_right _ (List.mem_cons_self ..)) job why hbody rfl
  · rw [hfs] at hr
    obtain rfl : r = .ok (some ⟨e'.id, job'.toDict, why⟩) := hr.trans hfound
    have htyped : ({ RawJob.ofJob job' with attempts := .int 0 } : RawJob).typed? =
        some { job' with attempts := 0 } := RawJob.typed?_ofJob { job' with attempts := 0 }
    simp only [RawJob.fromDict_toDict, htyped] at hrest
    obtain ⟨w₂, r₂, henq, hrest⟩ := Machine.runs_bind_iff.mp hrest
    cases r₂ with
    | error e => cases hrest.2
    | ok id => exact not_runs_enqueueObject_text henq

/-- A replay that finds its dead letter raises in some run without faults. -/
theorem exists_replay_raises {name : String} {e : Redis.Entry Body} {job : Job}
    (hdlq : Replayable enq name e job w) : ∃ w' exc,
    relay.Runs Faultless (0 : Nat) (Actor.api 0) w (replayDlqJob ⟨some enq⟩ name job.id .epoch) w'
      (.error exc) := by
  obtain ⟨w', out, h⟩ := World.responsive_faultless.exists_runs (0 : Nat) (Actor.api 0)
    (replayDlqJob ⟨some enq⟩ name job.id .epoch) w
  cases out with
  | ok resp => exact (not_runs_replayDlqJob hdlq h).elim
  | error exc => exact ⟨w', exc, h⟩

/-- **No replay works**: whatever the dead letter it finds, with or without a store and whatever
that holds. -/
theorem not_replays {name : String} {e : Redis.Entry Body} {job : Job}
    (hdlq : Replayable enq name e job w) : ¬ Replays enq name e job w := by
  intro h
  obtain ⟨w', exc, hrun⟩ := exists_replay_raises hdlq
  obtain ⟨⟨resp, hout, -⟩, -⟩ := h _ _ _ _ _ hrun
  cases hout

end

/-! ## A replay of the only dead letter -/

/-- A job that has used up its retries. -/
def Sample.deadJob : Job := { job with status := .dead, attempts := 4 }

/-- Its dead letter. -/
def Sample.deadLetter : Redis.Entry Body :=
  ⟨1, RedisStreamTransport.dlqBody deadJob "ValueError: boom"⟩

/-- The world in which this dead letter is all that Redis holds, and the outbox the job's row. -/
def Sample.deadWorld : World :=
  { World.init with
    redis := Function.update World.init.redis (transport.dlqKey "default")
      ⟨[deadLetter], 1, fun _ => none⟩
    db := { World.init.db with committed := [.ofJob job] } }

/-- A replay finds it. -/
theorem Sample.replayable (store : Bool) :
    Replayable ⟨transport, 10, store⟩ "default" deadLetter deadJob deadWorld where
  deadLetters := by
    simp only [deadWorld, Function.update_self]
    intro e he
    obtain rfl := List.mem_singleton.mp he
    exact ⟨deadJob, _, rfl⟩
  body := ⟨_, rfl⟩
  found := ⟨[], [], by simp [deadWorld], by simp⟩
  room := by
    have hkey : transport.streamKey deadJob.queue ≠ transport.dlqKey "default" :=
      RedisStreamTransport.streamKey_ne_dlqKey _ _ _
    simp only [deadWorld, Function.update_of_ne hkey]
    decide

/-- Without a store it is not replayed. -/
theorem not_replays_deadLetter :
    ¬ Replays ⟨Sample.transport, 10, false⟩ "default" Sample.deadLetter Sample.deadJob
      Sample.deadWorld :=
  not_replays (Sample.replayable false)

/-- Nor is it with the store that holds its row. -/
theorem not_replays_stored :
    ¬ ∀ (enq : Enqueuer) (name : String) (e : Redis.Entry Body) (job : Job) (w : World),
      Replayable enq name e job w → (enq.store = true → ∃ r ∈ w.db.committed, r.id = job.id) →
      Replays enq name e job w := by
  intro h
  have hrow : ∃ r ∈ Sample.deadWorld.db.committed, r.id = Sample.deadJob.id :=
    ⟨.ofJob Sample.job, List.mem_singleton_self _, rfl⟩
  obtain ⟨w', exc, hrun⟩ := exists_replay_raises (Sample.replayable true)
  obtain ⟨⟨resp, hout, -⟩, -⟩ := h _ _ _ _ _ (Sample.replayable true) (fun _ => hrow) _ _ _ _ _ hrun
  cases hout

end RelayQ

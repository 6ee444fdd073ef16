import RelayQ.System.Progress

/-! # Producers and workers on sites of their own

A connection to the outbox belongs to a thread of a process, so a process that enqueues and a worker
process have none in common.

* `SysLabel.split`: workers start at the sites of a set only, calls of `enqueue` only elsewhere.
* `Sample.exists_single_polled`: such a deployment, where a worker has read its first job.
* `Sample.exists_updated`: one where a worker has updated the status of a job in the outbox. -/

namespace RelayQ

/-- The workers start at the sites in `W`, the calls of `enqueue` at other sites. -/
def SysLabel.split (W : Nat → Prop) : SysLabel → Prop
  | .pool (.start _ site) => ¬ W site
  | .spawn _ site => W site
  | _ => True

/-- A run whose workers and producers have sites of their own. -/
def Sys.SplitRun [Codec] (t : RedisStreamTransport) (W : Nat → Prop) : Sys → Sys → Prop :=
  Reaches Sys.step fun _ l => l.uses t.streamPrefix ∧ l.split W

/-- It is a run. -/
theorem Sys.SplitRun.run [Codec] {t : RedisStreamTransport} {W : Nat → Prop} {s s' : Sys}
    (h : SplitRun t W s s') : Run t s s' :=
  h.mono fun _ _ => And.left

namespace Sample

/-- A worker with one permit, with or without a store. -/
def single (store : Bool) : WorkerRunner :=
  { runner "1" with
    maxConcurrency := 1
    executor := { transport := Sample.transport, store } }

/-- A second job. -/
def second : Job := { Sample.job with id := "job_2" }

/-- A call that enqueues it. -/
def enqueueSecond : EnqueueCall := ⟨{ transport := Sample.transport }, { job := second }⟩

/-- Its loop, with its first job in hand. -/
def singlePolled [Codec] (store : Bool) : Worker :=
  { (single store).spawn 1 with
    loop := .acquiring ⟨Sample.transport.streamKey "default", 1, .ofJob Sample.job⟩ []
    recovery := .claiming }

/-- A job was enqueued, and a worker with one permit has read it. Nobody has used the database. -/
theorem exists_single_polled [Codec] (store : Bool) :
    ∃ s : Sys, Sys.SplitRun Sample.transport (· = 1) Sys.init s ∧
      s.workers = [singlePolled store] ∧ s.world.db = World.init.db := by
  -- enqueued, the worker started, the group created
  obtain ⟨s, hs, hworkers, hdb, hent, hgrp⟩ : ∃ s : Sys,
      Sys.SplitRun Sample.transport (· = 1) Sys.init s ∧ s.workers = [{ (single store).spawn 1 with
        loop := .polling
        recovery := .claiming }] ∧ s.world.db = World.init.db ∧
      (s.world.redis (Sample.transport.streamKey "default")).entries =
        [⟨1, RedisStreamTransport.jobBody Sample.job⟩] ∧
      (s.world.redis (Sample.transport.streamKey "default")).groups
        (Sample.transport.groupKey "default") = some ⟨0, []⟩ :=
    ⟨_, .tail (l := .worker 0 (.loop (.ok 0) .epoch))
      (.tail (l := .spawn (single store) 1) (.tail (l := .pool (.answer 0 (.ok 0)))
        (.tail (l := .pool (.answer 0 (.ok 0)))
          (.single (l := .pool (.start (Sample.enqueueCall Sample.job false) 0))
            ⟨rfl, Nat.zero_ne_one⟩ rfl) ⟨trivial, trivial⟩ rfl) ⟨trivial, trivial⟩ rfl)
        ⟨(opening_spawn "1" 1).1, rfl⟩ rfl) ⟨trivial, trivial⟩ rfl, rfl, rfl, rfl, rfl⟩
  have hw : s.workers[0]? = some { (single store).spawn 1 with
      loop := .polling
      recovery := .claiming } := by rw [hworkers]; rfl
  obtain ⟨world, hstep, -, hdb', -⟩ := exists_poll (l := [(1, Sample.job)]) hw rfl rfl rfl rfl
    Nat.one_pos (by simp) hgrp (take_undelivered_single hent Nat.one_pos)
  refine ⟨_, hs.tail (l := .worker 0 (.loop (.ok 0) .epoch)) ⟨trivial, trivial⟩ hstep, ?_,
    hdb'.trans hdb⟩
  simp only [hworkers]
  rfl

/-- A job was enqueued with a store; then a worker beside the producer read it and updated its status,
which its own connection sees. -/
theorem exists_updated [Codec] :
    ∃ s s' : Sys, Sys.SplitRun Sample.transport (· = 1) Sys.init s ∧
      s.world.db.committed = [Row.ofJob Sample.job] ∧ Sys.SplitRun Sample.transport (· = 1) s s' ∧
      s'.pool.procs = [⟨enqueueCall Sample.job true, 0, some (.ret 1)⟩] ∧
      s'.world.db.txs 0 = none ∧ s'.world.db.committed = [Row.ofJob Sample.job] ∧
      s'.world.db.visible 1 = [{ Row.ofJob Sample.job with status := .processing }] := by
  -- enqueued and committed, the worker started, the group created
  obtain ⟨s, hs, hworkers, hprocs, hcommitted, hlock, htxs, hent, hgrp⟩ : ∃ s : Sys,
      Sys.SplitRun Sample.transport (· = 1) Sys.init s ∧ s.workers = [{ (single true).spawn 1 with
        loop := .polling
        recovery := .claiming }] ∧
      s.pool.procs = [⟨enqueueCall Sample.job true, 0, some (.ret 1)⟩] ∧
      s.world.db.committed = [Row.ofJob Sample.job] ∧ s.world.db.lock = none ∧
      s.world.db.txs = (fun _ => none) ∧
      (s.world.redis (Sample.transport.streamKey "default")).entries =
        [⟨1, RedisStreamTransport.jobBody Sample.job⟩] ∧
      (s.world.redis (Sample.transport.streamKey "default")).groups
        (Sample.transport.groupKey "default") = some ⟨0, []⟩ := by
    refine ⟨_, .tail (l := .worker 0 (.loop (.ok 0) .epoch)) (.tail (l := .spawn (single true) 1)
      (.tail (l := .pool (.answer 0 (.ok 0))) (.tail (l := .pool (.answer 0 (.ok 0)))
        (.tail (l := .pool (.answer 0 (.ok 0))) (.tail (l := .pool (.answer 0 (.ok 0)))
          (.tail (l := .pool (.answer 0 (.ok 0)))
            (.single (l := .pool (.start (enqueueCall Sample.job true) 0))
              ⟨rfl, Nat.zero_ne_one⟩ rfl) ⟨trivial, trivial⟩ rfl) ⟨trivial, trivial⟩ rfl)
          ⟨trivial, trivial⟩ rfl) ⟨trivial, trivial⟩ rfl) ⟨trivial, trivial⟩ rfl)
      ⟨(opening_spawn "1" 1).1, rfl⟩ rfl) ⟨trivial, trivial⟩ rfl, rfl, rfl, rfl, rfl, ?_, rfl, rfl⟩
    -- only the producer's connection was in a transaction
    refine funext fun conn => ?_
    by_cases hconn : conn = 0
    · subst hconn
      rfl
    · change Function.update (Function.update (Function.update World.init.db.txs 0 _) 0 _) 0 _ conn = _
      simp only [Function.update_of_ne hconn]
      rfl
  have hw : s.workers[0]? = some { (single true).spawn 1 with
      loop := .polling
      recovery := .claiming } := by rw [hworkers]; rfl
  obtain ⟨world, hstep, -, hdb', -⟩ := exists_poll (l := [(1, Sample.job)]) hw rfl rfl rfl rfl
    Nat.one_pos (by simp) hgrp (take_undelivered_single hent Nat.one_pos)
  -- the task acquires its permit, and updates the status
  obtain ⟨pool, workers⟩ := s
  obtain ⟨⟨now, redis, ⟨committed, version, lock, txs⟩, log⟩, procs⟩ := pool
  obtain ⟨now', redis', db', log'⟩ := world
  dsimp only at hworkers hprocs hcommitted hlock htxs hdb'
  subst hworkers hprocs hcommitted hlock htxs hdb'
  exact ⟨_, _, hs, rfl, .tail (l := .worker 0 (.task 0 (.ok 0))) (.tail (l := .worker 0 (.startTask 0))
    (.tail (l := .worker 0 .acquire) (.single (l := .worker 0 (.loop (.ok 0) .epoch))
      ⟨trivial, trivial⟩ hstep) ⟨trivial, trivial⟩ rfl) ⟨trivial, trivial⟩ rfl)
    ⟨trivial, trivial⟩ rfl, rfl, rfl, rfl, rfl⟩

end Sample

end RelayQ

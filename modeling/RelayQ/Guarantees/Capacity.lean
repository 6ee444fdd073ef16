import RelayQ.System.Progress
import Mathlib.Algebra.GroupWithZero.Nat
import Mathlib.Data.List.Count

/-! # Which capacity comes back

`enqueue` compares its limit with `XLEN`, and an acknowledgement removes nothing from the stream:
what the limit bounds is the number of entries ever appended, less those that `MAXLEN` trimming
evicted. A queue whose backlog is empty refuses jobs once that number has reached the limit.

* `World.backlog`: the entries not yet acknowledged.
* `World.appended`, `World.evicted`: what the record says of a stream; `World.Counted` ties them to
  its length, in every reachable state.
* `Enqueuer.not_queueFull`: when an `enqueue` is not refused. -/

namespace RelayQ

/-- The call appended an entry to the stream. -/
def Event.appendsTo (key : String) (ev : Event) : Bool :=
  ev.applied && match ev.op with
    | .redis (.xadd k _ _) => k == key
    | _ => false

namespace World

/-- How many entries were appended to a stream so far. -/
def appended (w : World) (key : String) : Nat := w.log.countP (Event.appendsTo key)

/-- How many entries the appends to a stream have evicted so far. -/
def evicted (w : World) (key : String) : Nat :=
  (w.log.map fun ev => if ev.appendsTo key then ev.evicted else 0).sum

/-- The entries of a queue that are not acknowledged: undelivered or pending. -/
def backlog (w : World) (t : RedisStreamTransport) (queue : String) : Nat :=
  let s := w.redis (t.streamKey queue)
  match s.groups (t.groupKey queue) with
  | none => s.entries.length
  | some grp => (s.undelivered grp).length + grp.pel.length

/-- Every stream holds what was appended to it and not evicted. -/
def Counted (w : World) : Prop :=
  ∀ key, (w.redis key).entries.length + w.evicted key = w.appended key

variable {w w' : World} {key : String}

/-- What one more event counts. -/
theorem appended_cons {ev : Event} (h : w'.log = ev :: w.log) :
    w'.appended key = w.appended key + if ev.appendsTo key then 1 else 0 := by
  simp [appended, h, List.countP_cons]

/-- What one more event evicts. -/
theorem evicted_cons {ev : Event} (h : w'.log = ev :: w.log) :
    w'.evicted key = w.evicted key + if ev.appendsTo key then ev.evicted else 0 := by
  simp [evicted, h, Nat.add_comm]

/-- A command evicts no more than is stored once it has appended. -/
theorem le_of_mayEvict {s : Redis.Stream Body} {n : Nat} {c : Redis.Cmd Body}
    (h : c.mayEvict s n = true) : n ≤ s.entries.length + 1 := by
  cases c with
  | xadd k body lim =>
    rcases lim with _ | ⟨limit, _ | _⟩ <;> simp [Redis.Cmd.mayEvict] at h <;> omega
  | _ => simp [Redis.Cmd.mayEvict] at h; omega

end World

/-- Every step that deletes nothing keeps the count. -/
theorem WorldStep.counted {P : Actor → Op → Prop} {w w' : World} (h : WorldStep P w w')
    (hP : ∀ a c, P a (.redis c) → c.deletes = false) (hw : w.Counted) : w'.Counted := by
  intro key
  have hkey := hw key
  rcases h.redis with ⟨a, c, n, r, ha, hn, hredis, hlog⟩ | ⟨hredis, hlog | ⟨ev, hlog, hev, -⟩⟩
  · rw [World.appended_cons hlog, World.evicted_cons hlog, hredis]
    cases c with
    | xadd k body lim =>
      -- an append adds one and evicts no more than is there
      have hle := World.le_of_mayEvict hn
      simp only [Redis.Cmd.key] at hle
      by_cases hk : k = key
      · subst hk
        simp only [Event.appendsTo, Bool.true_and, beq_self_eq_true, if_true, Redis.Keyspace.apply,
          Function.update_self, Redis.Stream.evict, Redis.Stream.append, List.length_drop,
          List.length_append, List.length_singleton]
        omega
      · rw [Redis.Keyspace.apply_of_ne _ _ _ _ (show key ≠ Redis.Cmd.key (.xadd k body lim) from
          Ne.symm hk)]
        simpa [Event.appendsTo, hk] using hkey
    | xlen _ | xgroupCreate _ _ _ | xreadgroup _ _ _ _ _ | xack _ _ _ | xautoclaim _ _ _ _ _ _
    | xrevrange _ _ | xdel _ _ =>
      rw [(Redis.Keyspace.apply_entries w.redis w.now n rfl (hP a _ ha) key).1]
      simpa [Event.appendsTo] using hkey
  · simpa [World.appended, World.evicted, hredis, hlog] using hkey
  · have hno : ev.appendsTo key = false := by
      unfold Event.appendsTo
      split
      · rename_i k f m hop
        rw [hev _ hop]
        rfl
      · simp
    rw [World.appended_cons hlog, World.evicted_cons hlog, hredis]
    simpa [hno] using hkey

section

variable [Codec] {t : RedisStreamTransport} {s : Sys}

/-- In every reachable state the streams are counted. -/
theorem Sys.Run.counted (h : Sys.Run t Sys.init s) : s.world.Counted := by
  have hinv : s.Wired t ∧ s.world.Counted := by
    refine Reaches.invariant (P := fun u => u.Wired t ∧ u.world.Counted)
      (fun u l v hu hl hs => ⟨hu.1.step hl hs,
        (Sys.step_world hu.1 hs).counted (fun _ _ ha => ha.deletes) hu.2⟩) h
      ⟨Sys.wired_init, fun key => ?_⟩
    simp [Sys.init, Sys.world, World.init, Redis.Stream.empty, World.appended, World.evicted]
  exact hinv.2

/-! ## When `enqueue` is refused -/

/-- The exception is a `QueueFull`. -/
def PyExc.IsQueueFull (e : PyExc) : Prop := ∃ queue depth limit, e = .queueFull queue depth limit

variable {w w' : World} {site : Nat} {a : Actor} {P : Op → Answer → Prop}

omit [Codec] in
/-- The servers and their clients raise no `QueueFull`. -/
theorem World.exec_not_queueFull {o : Op} {ans : Answer} {e : PyExc} (ho : o.isLocal = false)
    (h : w.exec site a o ans = some (w', .error e)) : ¬ e.IsQueueFull := by
  rintro ⟨queue, depth, limit, rfl⟩
  cases World.exec_not_domain ho h

/-- A transaction around one insert raises no `QueueFull`. -/
theorem runs_writeOutbox_not_queueFull {enq : Enqueuer} {job : Job} {e : PyExc}
    (h : relay.Runs P site a w (enq.writeOutbox job) w' (.error e)) : ¬ e.IsQueueFull := by
  unfold Enqueuer.writeOutbox at h
  split at h
  swap
  · exact absurd (Machine.runs_ret_iff.mp h).2 (by simp)
  obtain ⟨w₁, r₁, hb, htry⟩ := Machine.runs_bind_iff.mp h
  obtain ⟨ans₁, -, hx₁⟩ := Machine.runs_perform_iff.mp hb
  cases r₁ with
  | error e₁ =>
    obtain rfl := Except.error.inj htry.2
    exact World.exec_not_queueFull rfl hx₁
  | ok u =>
    obtain ⟨w₂, r₂, hbody, hend⟩ := Machine.runs_tryExcept_iff.mp htry
    -- what the body raises comes from the database, and so does what the rollback raises
    have hr₂ : ∀ e₂, r₂ = .error e₂ → ¬ e₂.IsQueueFull := by
      rintro e₂ rfl
      obtain ⟨w₃, r₃, hins, hrest⟩ := Machine.runs_bind_iff.mp hbody
      obtain ⟨ans₃, -, hx₃⟩ := Machine.runs_perform_iff.mp hins
      cases r₃ with
      | error e₃ =>
        obtain rfl := Except.error.inj hrest.2
        exact World.exec_not_queueFull rfl hx₃
      | ok v =>
        obtain ⟨w₄, r₄, hcm, hret⟩ := Machine.runs_bind_iff.mp hrest
        obtain ⟨ans₄, -, hx₄⟩ := Machine.runs_perform_iff.mp hcm
        cases r₄ with
        | error e₄ =>
          obtain rfl := Except.error.inj hret.2
          exact World.exec_not_queueFull rfl hx₄
        | ok v => exact absurd (Machine.runs_ret_iff.mp hret).2 (by simp)
    cases r₂ with
    | ok v => exact absurd hend.2 (by simp)
    | error e₂ =>
      dsimp only at hend
      split at hend
      · obtain ⟨w₅, r₅, hrb, hraise⟩ := Machine.runs_bind_iff.mp hend
        obtain ⟨ans₅, -, hx₅⟩ := Machine.runs_perform_iff.mp hrb
        cases r₅ with
        | error e₅ =>
          obtain rfl := Except.error.inj hraise.2
          exact World.exec_not_queueFull rfl hx₅
        | ok v =>
          obtain rfl := Except.error.inj (Machine.runs_raise_iff.mp hraise).2
          exact hr₂ _ rfl
      · obtain rfl := Except.error.inj (Machine.runs_raise_iff.mp hend).2
        exact hr₂ _ rfl

/-- The lookup of a key that no row carries raises no `QueueFull`. -/
theorem runs_checkKey_not_queueFull {enq : Enqueuer} {key : Option String} {e : PyExc}
    (hfresh : ∀ k, key = some k → ∀ row ∈ (w.db.read site).2, row.idempotencyKey ≠ some k)
    (h : relay.Runs P site a w (enq.checkKey key) w' (.error e)) : ¬ e.IsQueueFull := by
  unfold Enqueuer.checkKey at h
  split at h
  swap
  · exact absurd (Machine.runs_ret_iff.mp h).2 (by simp)
  rename_i k
  split at h
  swap
  · exact absurd (Machine.runs_ret_iff.mp h).2 (by simp)
  obtain ⟨w₁, r₁, hfind, hrest⟩ := Machine.runs_bind_iff.mp h
  obtain ⟨w₂, r₂, hsel, hjob⟩ := Machine.runs_bind_iff.mp hfind
  obtain ⟨ans, -, hx⟩ := Machine.runs_perform_iff.mp hsel
  cases r₂ with
  | error e₂ =>
    obtain ⟨-, rfl⟩ := hjob
    obtain rfl := Except.error.inj hrest.2
    exact World.exec_not_queueFull rfl hx
  | ok row =>
    -- a fresh key finds nothing
    obtain rfl : row = none := by
      rcases World.exec_sql hx with ⟨hr, -⟩ | ⟨e, -, hr, -⟩
      · have hrow := Except.ok.inj hr
        rw [hrow]
        exact List.find?_eq_none.mpr fun r hr => by simpa using hfresh k rfl r hr
      · cases hr
    obtain ⟨-, rfl⟩ := Machine.runs_ret_iff.mp hjob
    exact absurd (Machine.runs_ret_iff.mp hrest).2 (by simp)

namespace Enqueuer

variable {enq : Enqueuer} {args : EnqueueArgs} {e : PyExc}

/-- Below the limit a valid job with a fresh key is not refused for capacity, whatever fails. -/
theorem runs_not_queueFull (hvalid : args.validate args.job = none)
    (hfresh : ∀ k, args.key? = some k → ∀ row ∈ (w.db.read site).2, row.idempotencyKey ≠ some k)
    (hlen : (w.redis (enq.transport.streamKey args.job.queue)).entries.length < enq.maxQueueDepth)
    (h : relay.Runs P site a w (enq.enqueue args) w' (.error e)) : ¬ e.IsQueueFull := by
  simp only [enqueue, hvalid] at h
  obtain ⟨w₁, r₁, hd, hrest⟩ := Machine.runs_bind_iff.mp h
  obtain ⟨ans, -, hx⟩ := Machine.runs_perform_iff.mp hd
  cases r₁ with
  | error e₁ =>
    obtain rfl := Except.error.inj hrest.2
    exact World.exec_not_queueFull rfl hx
  | ok depth =>
    -- the depth read is the length of the stream, and the database is as it was
    obtain ⟨rfl, hdb⟩ : depth =
        (w.redis (enq.transport.streamKey args.job.queue)).entries.length ∧ w₁.db = w.db := by
      rcases World.exec_redis hx with ⟨n, -, rfl, ⟨-, hr⟩ | ⟨e, -, hr, -⟩⟩ | ⟨e, -, -, hr, -⟩
      · exact ⟨Except.ok.inj hr, rfl⟩
      · cases hr
      · cases hr
    dsimp only at hrest
    rw [if_neg (by omega)] at hrest
    obtain ⟨w₂, r₂, hck, hrest⟩ := Machine.runs_bind_iff.mp hrest
    cases r₂ with
    | error e₂ =>
      obtain rfl := Except.error.inj hrest.2
      exact runs_checkKey_not_queueFull (by rwa [hdb]) hck
    | ok u =>
      obtain ⟨w₃, r₃, hob, hrest⟩ := Machine.runs_bind_iff.mp hrest
      cases r₃ with
      | error e₃ =>
        obtain rfl := Except.error.inj hrest.2
        exact runs_writeOutbox_not_queueFull hob
      | ok u =>
        obtain ⟨ans, -, hx⟩ := Machine.runs_perform_iff.mp hrest
        exact World.exec_not_queueFull rfl hx

/-- At the limit a valid job is refused, by a call that is answered. -/
theorem exists_runs_queueFull (hvalid : args.validate args.job = none) (site : Nat) (a : Actor)
    (hlen : enq.maxQueueDepth ≤
      (w.redis (enq.transport.streamKey args.job.queue)).entries.length) :
    ∃ w' e, relay.Runs Faultless site a w (enq.enqueue args) w' (.error e) ∧ e.IsQueueFull := by
  have hx : w.exec site a (.redis (.xlen (enq.transport.streamKey args.job.queue))) (.ok 0) =
      some (_, .ok (w.redis (enq.transport.streamKey args.job.queue)).entries.length) :=
    World.exec_eq_some.mpr ⟨_, rfl, rfl, rfl⟩
  obtain ⟨w₁, hdepth⟩ : ∃ w₁, relay.Runs Faultless site a w
      (enq.transport.streamLength args.job.queue) w₁
      (.ok (w.redis (enq.transport.streamKey args.job.queue)).entries.length) :=
    ⟨_, Machine.runs_perform_iff.mpr ⟨.ok 0, rfl, hx⟩⟩
  refine ⟨w₁, .queueFull args.job.queue
    (w.redis (enq.transport.streamKey args.job.queue)).entries.length enq.maxQueueDepth, ?_,
    ⟨_, _, _, rfl⟩⟩
  simp only [enqueue, hvalid]
  refine Machine.runs_bind_iff.mpr ⟨w₁, _, hdepth, ?_⟩
  dsimp only
  rw [if_pos hlen]
  exact .raise

/-- **Which capacity comes back**: in a reachable state whose backlog is below the limit, a valid
job with a fresh key or none is accepted for capacity exactly if the number of entries ever appended
to the queue's stream, less those its trimming evicted, is below the limit. -/
theorem not_queueFull_iff (hrun : Sys.Run t Sys.init s)
    (hkeys : enq.transport.streamPrefix = t.streamPrefix) (hvalid : args.validate args.job = none)
    (hfresh : ∀ k, args.key? = some k → ∀ row ∈ (s.world.db.read site).2,
      row.idempotencyKey ≠ some k) :
    (s.world.backlog t args.job.queue < enq.maxQueueDepth →
      ∀ a w' e, relay.Runs (fun _ _ => True) site a s.world (enq.enqueue args) w' (.error e) →
        ¬ e.IsQueueFull) ↔
    (s.world.backlog t args.job.queue < enq.maxQueueDepth →
      s.world.appended (t.streamKey args.job.queue) -
        s.world.evicted (t.streamKey args.job.queue) < enq.maxQueueDepth) := by
  have hcount := hrun.counted (t.streamKey args.job.queue)
  have hkey := RedisStreamTransport.streamKey_congr hkeys args.job.queue
  refine forall_congr' fun _ => ⟨fun h => ?_, fun h a w' e hr => ?_⟩
  · by_contra hlt
    have hfull : enq.maxQueueDepth ≤
        (s.world.redis (enq.transport.streamKey args.job.queue)).entries.length := by
      rw [hkey]
      omega
    obtain ⟨w', e, hr, hq⟩ := exists_runs_queueFull hvalid site .foreign hfull
    exact h .foreign w' e (hr.mono fun _ _ _ => trivial) hq
  · exact runs_not_queueFull hvalid hfresh (by rw [hkey]; omega) hr

end Enqueuer

end

/-- Enqueues to a depth of one. -/
def Sample.enqueuer : Enqueuer := { transport := Sample.transport, maxQueueDepth := 1 }

/-- A call with a valid job and no key. -/
def Sample.args : EnqueueArgs := { job := Sample.job }

/-- A worker has read the only job, run its handler and acknowledged it. -/
theorem Sample.exists_acked [Codec] : ∃ s : Sys, Sys.Run Sample.transport Sys.init s ∧
    (s.world.redis (Sample.transport.streamKey "default")).entries.length = 1 ∧
    s.world.backlog Sample.transport "default" = 0 := by
  obtain ⟨⟨pool, workers⟩, hs, rfl, -, hent, hg, -⟩ := Sample.exists_polled "1"
  have hrun : Sys.Run Sample.transport Sys.init ⟨pool, [Sample.polled "1"]⟩ :=
    hs.mono fun _ l hl => hl.1
  -- the task is created, starts, reads the clock, runs the handler, measures, acknowledges
  obtain ⟨s, hs', hredis⟩ : ∃ s, Sys.Run Sample.transport ⟨pool, [Sample.polled "1"]⟩ s ∧
      s.world.redis = (pool.world.redis.apply pool.world.now 0
        (.xack (Sample.transport.streamKey "default") (Sample.transport.groupKey "default") 1)).1 :=
    ⟨_, .tail (l := .worker 0 (.task 0 (.ok 0))) (.tail (l := .worker 0 (.task 0 (.ok 0)))
      (.tail (l := .worker 0 (.task 0 (.ok 0)))
        (.tail (l := .worker 0 (.task 0 (.ran ⟨.empty, none⟩)))
          (.tail (l := .worker 0 (.task 0 (.ok 0))) (.tail (l := .worker 0 (.startTask 0))
            (.single (l := .worker 0 .acquire) trivial rfl) trivial rfl) trivial rfl)
          trivial rfl) trivial rfl) trivial rfl) trivial rfl, rfl⟩
  refine ⟨s, hrun.trans hs', ?_, ?_⟩
  · rw [hredis, (Redis.Keyspace.apply_entries _ _ _ rfl rfl _).1]
    exact congrArg List.length hent
  · change (pool.world.redis _).groups _ = _ at hg
    change (pool.world.redis _).entries = _ at hent
    simp [World.backlog, hredis, Redis.Keyspace.apply, hg, Redis.Stream.setGroup,
      Redis.Stream.undelivered, hent]

/-- A limit of two lets a second job in when the first has been acknowledged and still stands in the
stream. -/
theorem Enqueuer.not_queueFull_acked : ∃ s : Sys, Sys.Run Sample.transport Sys.init s ∧
    (s.world.redis (Sample.transport.streamKey "default")).entries.length = 1 ∧
    ∀ a w' e, relay.Runs (fun _ _ => True) 0 a s.world
      (Enqueuer.enqueue { Sample.enqueuer with maxQueueDepth := 2 } Sample.args) w' (.error e) →
        ¬ e.IsQueueFull := by
  obtain ⟨s, hrun, hlen, hback⟩ := Sample.exists_acked
  have hvalid : Sample.args.validate Sample.args.job = none := rfl
  have hfresh : ∀ k, Sample.args.key? = some k → ∀ row ∈ (s.world.db.read 0).2,
      row.idempotencyKey ≠ some k := fun k hk => by cases hk
  have hroom : s.world.backlog Sample.transport Sample.args.job.queue < 2 := by
    rw [show s.world.backlog Sample.transport Sample.args.job.queue = 0 from hback]
    decide
  have hcount := hrun.counted (Sample.transport.streamKey "default")
  refine ⟨s, hrun, hlen,
    (Enqueuer.not_queueFull_iff hrun ?_ hvalid hfresh).mpr (fun _ => ?_) hroom⟩
  · rfl
  · change s.world.appended (Sample.transport.streamKey "default") -
      s.world.evicted (Sample.transport.streamKey "default") < 2
    omega

/-- A limit of one refuses a second job when the first has been acknowledged. -/
theorem Enqueuer.queueFull_acked : ¬ ∀ s : Sys, Sys.Run Sample.transport Sys.init s →
    s.world.backlog Sample.transport Sample.args.job.queue < Sample.enqueuer.maxQueueDepth →
      ∀ a w' e, relay.Runs (fun _ _ => True) 0 a s.world
        (Sample.enqueuer.enqueue Sample.args) w' (.error e) → ¬ e.IsQueueFull := by
  intro h
  obtain ⟨s, hrun, hlen, hback⟩ := Sample.exists_acked
  have hvalid : Sample.args.validate Sample.args.job = none := rfl
  have hfull : Sample.enqueuer.maxQueueDepth ≤ (s.world.redis
      (Sample.enqueuer.transport.streamKey Sample.args.job.queue)).entries.length := hlen.ge
  obtain ⟨w', e, hruns, he⟩ := Enqueuer.exists_runs_queueFull hvalid 0 .foreign hfull
  have hroom : s.world.backlog Sample.transport Sample.args.job.queue <
      Sample.enqueuer.maxQueueDepth := by
    rw [show s.world.backlog Sample.transport Sample.args.job.queue = 0 from hback]
    exact Nat.one_pos
  exact h s hrun hroom .foreign w' e (hruns.mono fun _ _ _ => trivial) he

end RelayQ

import RelayQ.System.Wiring

/-! # The call a step carries out

A step of the system carries out at most one call, and who makes it decides what it can be.

* `Sys.Called`: the calls that may be made in a state.
* `Sys.step_called`: what a step does to the servers, besides a crash, is one of them. -/

namespace RelayQ

namespace Sys

variable [Codec]

/-- Who calls what, from which site: a call of `enqueue` or a job task, as far as its monitor lets it;
the loop or the recovery task of a worker, which only read and claim; another client, which appends. -/
inductive Called (s : Sys) : Nat → Actor → Op → Prop
  | enqueue {n : Nat} {c : Proc RelaySig Nat EnqueueCall Nat} {ph : Enqueuer.Phase} {o : Op}
      {k : Except PyExc o.Res → Py Nat} : s.pool.procs[n]? = some c → c.prog = some (.call o k) →
      (c.info.enqueuer.monitor c.info.args).guard ph o → Called s c.site (.enqueuer n) o
  | task {i j : Nat} {w : Worker} {d : Delivery} {jobId : String} {ph : ExecPhase} {o : Op} :
      s.workers[i]? = some w →
      (executeMonitor w.runner.executor.transport w.runner.queue d.entryId jobId).guard ph o →
      Called s w.site (.executor i j w.runner.queue d.entryId) o
  | reader {i : Nat} {w : Worker} {a : Actor} {c : Redis.Cmd Body} : s.workers[i]? = some w →
      a = .runner i ∨ a = .recovery i → c.fromStart → c.added? = none → c.deletes = false →
      Called s w.site a (.redis c)
  | foreign (key : String) (body : Body) : Called s 0 .foreign (.redis (.xadd key body none))

/-- A job task runs no statement but status updates. -/
theorem exists_update_of_guard {t : RedisStreamTransport} {queue jobId : String} {e : Nat}
    {ph : ExecPhase} {stmt : Stmt} (h : (executeMonitor t queue e jobId).guard ph (.sql stmt)) :
    ∃ id status att, stmt = .update id status att := by
  cases stmt with
  | update id status att => exact ⟨id, status, att, rfl⟩
  | begin | insert _ | selectById _ | selectByKey _ | commit | rollback => exact h.elim

variable {t : RedisStreamTransport} {s s' : Sys} {l : SysLabel}

/-- **One step carries out at most one call.** Without one, only a crash touches the database, and
nothing the Redis server. -/
theorem step_called (h : s.Wired t) (hs : s.step l = some s') :
    (s'.world.log = s.world.log ∧ s'.world.redis = s.world.redis ∧
      (s'.world.db = s.world.db ∨
        ∃ site, l = .pool (.crash site) ∧ s'.world.db = s.world.db.rollback site)) ∨
    ∃ site a o ans r, s.Called site a o ∧ s.world.exec site a o ans = some (s'.world, r) := by
  rcases step_cases hs with ⟨pl, p, rfl, -, hp, rfl⟩ | ⟨r, site, rfl, rfl⟩ |
    ⟨i, wl, w, world, w', rfl, hw, -, hx, rfl⟩
  · rcases PoolSpec.step_cases hp with ⟨c, site, rfl, rfl⟩ |
      ⟨i, ans, c, o, k, w, r, rfl, hc, hprog, hx, rfl⟩ | ⟨site, rfl, rfl⟩ | ⟨e, w, rfl, hw, rfl⟩
    · exact .inl ⟨rfl, rfl, .inl rfl⟩
    · obtain ⟨ph, hg, -⟩ := h.calls c (List.mem_of_getElem? hc) _ hprog
      exact .inr ⟨_, _, o, ans, r, .enqueue hc hprog hg, hx⟩
    · exact .inl ⟨rfl, rfl, .inr ⟨site, rfl, rfl⟩⟩
    · cases e with
      | tick d =>
        obtain rfl := Option.some.inj hw
        exact .inl ⟨rfl, rfl, .inl rfl⟩
      | foreign key body =>
        simp only [World.env, Option.map_eq_some_iff] at hw
        obtain ⟨⟨w₁, r⟩, hx, rfl⟩ := hw
        exact .inr ⟨_, _, _, _, r, .foreign key body, hx⟩
  · exact .inl ⟨rfl, rfl, .inl rfl⟩
  · have hmove := Worker.step_move hx
    clear hx
    cases hmove with
    | loop | recovery | shutdown | spawn | start | retire => exact .inl ⟨rfl, rfl, .inl rfl⟩
    | ensure hx _ _ => exact .inr ⟨_, _, _, _, _, .reader hw (.inl rfl) (by rfl) rfl rfl, hx⟩
    | check _ _ hx _ => exact .inr ⟨_, _, _, _, _, .reader hw (.inl rfl) (by trivial) rfl rfl, hx⟩
    | poll _ _ hx _ => exact .inr ⟨_, _, _, _, _, .reader hw (.inl rfl) (by trivial) rfl rfl, hx⟩
    | claim _ hx => exact .inr ⟨_, _, _, _, _, .reader hw (.inr rfl) (by trivial) rfl rfl, hx⟩
    | @task j d o k ans s₁ r hj hx =>
      obtain ⟨ph, jobId, -, ⟨hguard, -⟩, -⟩ :=
        (h.workers w (List.mem_of_getElem? hw)).running d _ (List.mem_of_getElem? hj)
      exact .inr ⟨_, _, o, ans, r, .task hw hguard, hx⟩

end Sys

end RelayQ

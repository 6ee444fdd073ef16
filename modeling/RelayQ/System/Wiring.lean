import RelayQ.System.Sys
import RelayQ.Worker.Moves

/-! # What every part of the system does at all times

The calls of `enqueue` and the job tasks are watched by the monitors of their programs; a worker
holds only deliveries its group has given out, and an acknowledgement a task may send is justified
by the record.

* `Justifies`: the events that justify acknowledging an entry.
* `Worker.Wired`, `Sys.Wired`: the invariants; `Sys.Wired.step` preserves them.
* `Sys.Allowed`, `Sys.step_world`: how one step of the system changes the servers. -/

namespace RelayQ

/-- **The events that justify acknowledging an entry**: the handler of an `execute` of that entry
returned, or such an `execute` appended the job to the dead-letter queue and was told so. -/
inductive Justifies [Codec] (t : RedisStreamTransport) (queue : String) (entryId : Nat)
    (jobId : String) : Event → Prop
  | handled {worker task evicted : Nat} {job : Job} {timeout : Seconds} {applied : Bool}
      {run : HandlerRun} : run.raised = none →
      Justifies t queue entryId jobId
        ⟨.executor worker task queue entryId, .handler job timeout, applied, evicted, .ok run⟩
  | deadLettered {worker task evicted : Nat} {job : Job} {why : String} {applied : Bool}
      {id : Nat} : job.id = jobId →
      Justifies t queue entryId jobId
        ⟨.executor worker task queue entryId, .redis (.xadd (t.dlqKey queue)
          (RedisStreamTransport.dlqBody job why) none), applied, evicted, .ok id⟩

/-- A justification is an event of an `execute` of the entry it justifies. -/
theorem Justifies.actor [Codec] {t : RedisStreamTransport} {queue jobId : String} {entryId : Nat}
    {ev : Event} (h : Justifies t queue entryId jobId ev) :
    ∃ worker task, ev.actor = .executor worker task queue entryId := by
  cases h <;> exact ⟨_, _, rfl⟩

/-- The record holds a justification. -/
def World.Justified [Codec] (w : World) (t : RedisStreamTransport) (queue : String)
    (entryId : Nat) (jobId : String) : Prop :=
  ∃ ev ∈ w.log, Justifies t queue entryId jobId ev

/-- The queue's group has been given the entry. -/
def World.Delivered (w : World) (t : RedisStreamTransport) (queue : String) (entryId : Nat) :
    Prop :=
  ∃ grp, (w.redis (t.streamKey queue)).groups (t.groupKey queue) = some grp ∧
    entryId ≤ grp.lastDelivered

/-- The id of the job a delivery carries. -/
def Delivery.jobId? (d : Delivery) : Option String := d.job.typed?.map Job.id

namespace World.Le

variable {w w' : World} {t : RedisStreamTransport} {queue : String} {entryId : Nat}

/-- What was delivered stays delivered. -/
theorem delivered (h : w.Le w') (hd : w.Delivered t queue entryId) :
    w'.Delivered t queue entryId := by
  obtain ⟨grp, hg, hle⟩ := hd
  obtain ⟨grp', hg', hle'⟩ := h.groups _ _ _ hg
  exact ⟨grp', hg', hle.trans hle'⟩

/-- What justified an acknowledgement does so later. -/
theorem justified [Codec] {jobId : String} (h : w.Le w')
    (hj : w.Justified t queue entryId jobId) : w'.Justified t queue entryId jobId := by
  obtain ⟨ev, hev, hjust⟩ := hj
  exact ⟨ev, h.log.subset hev, hjust⟩

end World.Le

/-- An answer that justifies leaves its justification in the record. -/
theorem justified_of_exec [Codec] {t t' : RedisStreamTransport}
    (ht : t'.streamPrefix = t.streamPrefix) {queue jobId : String} {entryId me task : Nat}
    {w w' : World} {site : Nat} {o : Op} {ans : Answer} {r : Except PyExc o.Res} {ph : ExecPhase}
    (hx : w.exec site (.executor me task queue entryId) o ans = some (w', r))
    (hguard : (executeMonitor t' queue entryId jobId).guard ph o)
    (hr : justifying o r = true) : w'.Justified t queue entryId jobId := by
  obtain ⟨applied, evicted, hlog⟩ := World.exec_log hx
  refine ⟨_, by rw [hlog]; exact List.mem_cons_self .., ?_⟩
  cases r with
  | error e => cases o <;> simp [justifying] at hr
  | ok v =>
    cases o with
    | handler job timeout =>
      exact .handled (by simpa [justifying] using hr)
    | redis c =>
      cases c with
      | xadd k body lim =>
        obtain ⟨rfl, rfl, job, why, rfl, hid⟩ := hguard
        rw [RedisStreamTransport.dlqKey_congr ht]
        exact .deadLettered hid
      | _ => simp [justifying] at hr
    | _ => simp [justifying] at hr

/-! ## One worker -/

namespace Worker

/-- Every delivery a worker holds: its batch, and those of its tasks. -/
def deliveries (w : Worker) : List Delivery := w.loop.batch ++ w.tasks.map Task.delivery

variable {w : Worker}

/-- A task of a worker after one task's state was replaced. -/
theorem mem_setTask {i : Nat} {pc : TaskPc} {tk : Task} (h : tk ∈ (w.setTask i pc).tasks) :
    tk ∈ w.tasks ∨ ∃ d pc₀, w.tasks[i]? = some ⟨d, pc₀⟩ ∧ tk = ⟨d, pc⟩ := by
  obtain ⟨j, hj⟩ := List.mem_iff_getElem?.mp h
  simp only [setTask, List.getElem?_modify] at hj
  by_cases hij : i = j
  · subst hij
    cases hi : w.tasks[i]? with
    | none => simp [hi] at hj
    | some tk₀ => exact .inr ⟨tk₀.delivery, tk₀.pc, rfl, by simpa [hi] using hj.symm⟩
  · exact .inl (List.mem_of_getElem? (by simpa [hij] using hj))

/-- A task keeps its delivery. -/
@[simp] theorem setTask_deliveries (i : Nat) (pc : TaskPc) :
    (w.setTask i pc).deliveries = w.deliveries := by
  have h : (w.setTask i pc).tasks.map Task.delivery = w.tasks.map Task.delivery := by
    apply List.ext_getElem?
    intro j
    simp only [setTask, List.getElem?_map, List.getElem?_modify]
    cases w.tasks[j]? <;> simp [apply_ite]
  exact congrArg (w.loop.batch ++ ·) h

/-- A task that goes on or ends keeps its delivery. -/
@[simp] theorem settle_deliveries (i : Nat) (p : Py Unit) :
    (w.settle i p).deliveries = w.deliveries := by
  have h := setTask_deliveries (w := w) i (.after p)
  simpa only [deliveries, settle_tasks, settle_loop, setTask] using h

/-- A running task behaves as its monitor demands, from a state in which an acknowledgement is
justified only if the record says so. -/
def Watched [Codec] (t : RedisStreamTransport) (s : World) (w : Worker) (d : Delivery)
    (p : Py Unit) : Prop :=
  ∃ ph jobId, d.jobId? = some jobId ∧
    p.wp (executeMonitor w.runner.executor.transport w.runner.queue d.entryId jobId)
      (fun _ _ => True) ph ∧
    (ph.just = true → s.Justified t w.runner.queue d.entryId jobId)

/-- What holds of a worker at all times. -/
structure Wired [Codec] (t : RedisStreamTransport) (s : World) (w : Worker) : Prop where
  uses : w.runner.uses t.streamPrefix
  group : w.loop.ready = true →
    ∃ grp, (s.redis (t.streamKey w.runner.queue)).groups (t.groupKey w.runner.queue) = some grp
  delivered : ∀ d ∈ w.deliveries, s.Delivered t w.runner.queue d.entryId
  running : ∀ d p, ⟨d, .running p⟩ ∈ w.tasks → w.Watched t s d p

variable [Codec] {t : RedisStreamTransport} {s s' : World} {w' : Worker}

/-- What holds of a worker goes on to hold when others move the world. -/
theorem Wired.mono (h : w.Wired t s) (hs : s.Le s') : w.Wired t s' where
  uses := h.uses
  group := fun hr =>
    let ⟨_, hg⟩ := h.group hr
    let ⟨grp', hg', _⟩ := hs.groups _ _ _ hg
    ⟨grp', hg'⟩
  delivered := fun d hd => hs.delivered (h.delivered d hd)
  running := by
    intro d p hp
    obtain ⟨just, jobId, hid, hwp, hj⟩ := h.running d p hp
    exact ⟨just, jobId, hid, hwp, fun hjust => hs.justified (hj hjust)⟩

/-- Running tasks are watched after one of them went on with a watched program. -/
theorem Wired.settled (h : w.Wired t s) {i : Nat} {d d' : Delivery} {pc : TaskPc} {p p' : Py Unit}
    (hi : w.tasks[i]? = some ⟨d, pc⟩) (hmem : ⟨d', .running p'⟩ ∈ (w.setTask i (.after p)).tasks)
    (hp : p.outcome = none → w.Watched t s d p) : w.Watched t s d' p' := by
  rcases mem_setTask hmem with hmem | ⟨d₀, pc₀, hi₀, heq⟩
  · exact h.running d' p' hmem
  · obtain ⟨rfl, hpc⟩ := Task.mk.inj heq
    obtain ⟨rfl, -⟩ := Task.mk.inj (Option.some.inj (hi₀.symm.trans hi))
    cases ho : p.outcome with
    | some out => simp [TaskPc.after, ho] at hpc
    | none =>
      simp only [TaskPc.after, ho, TaskPc.running.injEq] at hpc
      exact hpc ▸ hp ho

/-- Where the deliveries of a worker come from: it held them before, or its poll just read them. -/
theorem Move.deliveries {me : Nat} (hm : Move me w s s' w') {d : Delivery}
    (hd : d ∈ w'.deliveries) :
    d ∈ w.deliveries ∨ ∃ now grp consumer count e,
      let k := w.runner.transport.streamKey w.runner.queue
      let g := w.runner.transport.groupKey w.runner.queue
      (s.redis k).groups g = some grp ∧
      (s'.redis k).groups g = some ((s.redis k).deliver grp consumer s.now count).1 ∧
      (s'.redis k).entries = (s.redis k).entries ∧
      e ∈ ((s.redis k).deliver grp consumer s.now count).2 ∧ e.id = d.entryId ∧
      w.runner.transport.decodeEntry now e.fields = .job d.job := by
  -- most moves of the loop leave it without a batch, so what is held is held by a task
  have htasks : ∀ {b : List Delivery}, b = [] → d ∈ b ++ w.tasks.map Task.delivery →
      d ∈ w.deliveries := by
    rintro b rfl hd
    exact List.mem_append_right _ hd
  cases hm with
  | loop hb hr =>
    exact .inl (List.mem_append.mpr ((List.mem_append.mp hd).imp_left fun h => hb h))
  | recovery => exact .inl hd
  | shutdown => exact .inl hd
  | ensure hx hb hr => exact .inl (htasks hb hd)
  | check hc hloop hx hb => exact .inl (htasks hb hd)
  | poll now hloop hx hb =>
    rcases List.mem_append.mp hd with hd | hd
    · obtain ⟨results, ds, rfl, hdec, hmem⟩ := hb d hd
      obtain ⟨p, hp, e, he, hid, hde⟩ := w.runner.transport.mem_decodeReply hdec hmem
      -- what `XREADGROUP` answers is what the group was given at this very step
      obtain ⟨grp, hg, hg', hent, hres⟩ := World.exec_xreadgroup hx
      rw [hres p hp] at he
      exact .inr ⟨now, grp, _, _, e, hg, hg', hent, he, hid, hde⟩
    · exact .inl (List.mem_append_right _ hd)
  | claim hc hx => exact .inl hd
  | @spawn d₀ rest hloop hperm =>
    simp only [Worker.deliveries, spawnTask, batchPc_batch, List.map_append, List.map_cons,
      List.map_nil, List.mem_append, List.mem_singleton] at hd
    simp only [Worker.deliveries, hloop, LoopPc.batch, List.mem_append, List.mem_cons]
    tauto
  | start hi => exact .inl (by simpa using hd)
  | task hi hx => exact .inl (by simpa using hd)
  | retire hi hpc hover => exact .inl (by simpa using hd)

/-- A move leaves what the worker holds delivered. -/
theorem Wired.move_delivered (h : w.Wired t s) (hwf : s.redis.Wf) (hs : s.Le s') {me : Nat}
    (hm : Move me w s s' w') {d : Delivery} (hd : d ∈ w'.deliveries) :
    s'.Delivered t w.runner.queue d.entryId := by
  rcases hm.deliveries hd with hd | ⟨now, grp, consumer, count, e, -, hg', -, he, hid, -⟩
  · exact hs.delivered (h.delivered d hd)
  · rw [RedisStreamTransport.streamKey_congr h.uses.1 w.runner.queue,
      RedisStreamTransport.groupKey_congr h.uses.1 w.runner.queue] at hg'
    rw [RedisStreamTransport.streamKey_congr h.uses.1 w.runner.queue] at he
    refine ⟨_, hg', hid ▸ ?_⟩
    exact ((hwf _).delivered_iff _ _ _ _ (Redis.Stream.mem_of_mem_deliver he).1).mpr (.inr he)

/-- A move leaves the group of a ready loop in place. -/
theorem Wired.move_group (h : w.Wired t s) {me : Nat} (hm : Move me w s s' w') (hs : s.Le s')
    (hr' : w'.loop.ready = true) :
    ∃ grp, (s'.redis (t.streamKey w.runner.queue)).groups (t.groupKey w.runner.queue) =
      some grp := by
  have hkeep : w.loop.ready = true → ∃ grp,
      (s'.redis (t.streamKey w.runner.queue)).groups (t.groupKey w.runner.queue) = some grp :=
    (h.mono hs).group
  cases hm with
  | loop hb hr => exact hkeep (hr hr')
  | recovery => exact hkeep hr'
  | shutdown => exact hkeep hr'
  | ensure hx hb hr =>
    rw [← RedisStreamTransport.streamKey_congr h.uses.1 w.runner.queue,
      ← RedisStreamTransport.groupKey_congr h.uses.1 w.runner.queue]
    exact World.exec_xgroupCreate hx (hr hr')
  | check hc hloop hx hb => exact hkeep (by rw [hloop]; rfl)
  | poll now hloop hx hb => exact hkeep (by rw [hloop]; rfl)
  | claim hc hx => exact hkeep hr'
  | spawn hloop hperm => exact hkeep (by rw [hloop]; rfl)
  | start hi => exact hkeep (by simpa using hr')
  | task hi hx => exact hkeep (by simpa using hr')
  | retire hi hpc hover => exact hkeep hr'

/-- What a move does to the world. -/
theorem Move.le {me : Nat} (hm : Move me w s s' w') : s.Le s' := by
  cases hm with
  | loop | recovery | shutdown | spawn | start | retire => exact .refl s
  | ensure hx _ _ => exact World.exec_le hx
  | check _ _ hx _ => exact World.exec_le hx
  | poll _ _ hx _ => exact World.exec_le hx
  | claim _ hx => exact World.exec_le hx
  | task _ hx => exact World.exec_le hx

/-- A move leaves every running task watched and its acknowledgement justified. -/
theorem Wired.move_running (h : w.Wired t s) {me : Nat} (hm : Move me w s s' w') {d : Delivery}
    {p : Py Unit} (hp : ⟨d, .running p⟩ ∈ w'.tasks) : w.Watched t s' d p := by
  have h' := h.mono hm.le
  cases hm with
  | loop | recovery | shutdown | ensure | check | poll | claim => exact h'.running d p hp
  | spawn hloop hperm =>
    rcases List.mem_append.mp hp with hp | hp
    · exact h.running d p hp
    · simp at hp
  | @start i d₀ hi =>
    rw [settle_tasks] at hp
    refine h.settled hi hp fun ho => ?_
    unfold WorkerRunner.processJob at ho ⊢
    -- a job whose fields do not have their types fails before it makes a call
    cases hj : d₀.job.typed? with
    | none => simp [hj, Prog.outcome] at ho
    | some job =>
      refine ⟨{}, job.id, by simp [Delivery.jobId?, hj], ?_, by simp⟩
      refine Executor.wp_logged.mpr (Prog.wp_mono _ (fun r m _ => ?_)
        (w.runner.executor.wp_execute w.runner.queue d₀.entryId {} job))
      cases r <;> simp
  | @task i d₀ o k ans s' r hi hx =>
    rw [settle_tasks] at hp
    obtain ⟨just, jobId, hid, ⟨hguard, hwp⟩, hj⟩ :=
      h.running d₀ _ (List.mem_of_getElem? hi)
    refine h'.settled hi hp fun _ => ⟨_, jobId, hid, hwp r, fun hjust => ?_⟩
    -- the acknowledgement is justified by an earlier call or by the one that was just answered
    simp only [executeMonitor, Bool.or_eq_true] at hjust
    rcases hjust with hjust | hjust
    · exact (World.exec_le hx).justified (hj hjust)
    · exact justified_of_exec h.uses.2.1 hx hguard hjust
  | @retire i d₀ pc pc' hi hpc hover =>
    rcases mem_setTask hp with hp | ⟨d₁, pc₁, hi₁, heq⟩
    · exact h.running d p hp
    · obtain ⟨-, rfl⟩ := Task.mk.inj heq
      cases hover

/-- **Every move keeps a worker wired.** -/
theorem Wired.move (h : w.Wired t s) (hwf : s.redis.Wf) {me : Nat} (hm : Move me w s s' w') :
    w'.Wired t s' := by
  obtain ⟨hr, -, -⟩ := hm.frame
  refine ⟨hr ▸ h.uses, fun hready => ?_, fun d hd => ?_, fun d p hp => ?_⟩
  · rw [hr]; exact h.move_group hm hm.le hready
  · rw [hr]; exact h.move_delivered hwf hm.le hm hd
  · unfold Watched
    rw [hr]
    exact h.move_running hm hp

end Worker

/-! ## The system -/

/-- One step of the servers: nothing, a crash, time, or one answered call that `P` permits. -/
inductive WorldStep (P : Actor → Op → Prop) (w : World) : World → Prop
  | idle : WorldStep P w w
  | crash (site : Nat) : WorldStep P w (w.crash site)
  | tick (d : Nat) : WorldStep P w { w with now := w.now + d }
  | call {site : Nat} {a : Actor} {o : Op} {ans : Answer} {w' : World} {r : Except PyExc o.Res} :
      P a o → w.exec site a o ans = some (w', r) → WorldStep P w w'

namespace WorldStep

variable {P : Actor → Op → Prop} {w w' : World}

/-- A step takes nothing away. -/
theorem le (h : WorldStep P w w') : w.Le w' := by
  cases h with
  | idle => exact .refl w
  | crash site => exact w.crash_le site
  | tick d => exact ⟨List.suffix_refl _, fun _ _ grp hg => ⟨grp, hg, le_rfl⟩⟩
  | call _ hx => exact World.exec_le hx

/-- A step keeps the streams well formed. -/
theorem wf (h : WorldStep P w w') (hP : ∀ a c, P a (.redis c) → c.fromStart)
    (hw : w.redis.Wf) : w'.redis.Wf := by
  cases h with
  | idle => exact hw
  | crash site => exact hw
  | tick d => exact hw
  | call ha hx => exact World.exec_wf hw (fun c hc => hP _ c (hc ▸ ha)) hx

/-- **What a step does to the server and the record**: it carries out one command and records it,
or leaves the server alone and records no command as carried out. -/
theorem redis (h : WorldStep P w w') :
    (∃ a c n r, P a (.redis c) ∧ c.mayEvict (w.redis c.key) n = true ∧
      w'.redis = (w.redis.apply w.now n c).1 ∧
      w'.log = ⟨a, .redis c, true, n, r⟩ :: w.log) ∨
    (w'.redis = w.redis ∧ (w'.log = w.log ∨ ∃ ev, w'.log = ev :: w.log ∧
      (∀ c, ev.op = .redis c → ev.applied = false) ∧ ev.evicted = 0)) := by
  cases h with
  | idle => exact .inr ⟨rfl, .inl rfl⟩
  | crash site => exact .inr ⟨rfl, .inl rfl⟩
  | tick d => exact .inr ⟨rfl, .inl rfl⟩
  | @call site a o ans w' r ha hx =>
    by_cases ho : ∃ c, o = .redis c
    · obtain ⟨c, rfl⟩ := ho
      rcases World.exec_redis hx with ⟨n, hn, rfl, -⟩ | ⟨e, -, -, -, rfl⟩
      · exact .inl ⟨a, c, n, r, ha, hn, rfl, rfl⟩
      · exact .inr ⟨rfl, .inr ⟨_, rfl, fun _ _ => rfl, rfl⟩⟩
    · obtain ⟨hredis, applied, hlog⟩ := World.exec_other (fun c hc => ho ⟨c, hc⟩) hx
      exact .inr ⟨hredis, .inr ⟨_, hlog, fun c hc => absurd ⟨c, hc⟩ ho, rfl⟩⟩

end WorldStep

namespace Sys

variable [Codec]

/-- What holds of the system at all times. -/
structure Wired (t : RedisStreamTransport) (s : Sys) : Prop where
  redis : s.world.redis.Wf
  calls : ∀ c ∈ s.pool.procs, ∀ q, c.prog = some q →
    ∃ ph, q.wp (c.info.enqueuer.monitor c.info.args) (fun _ _ => True) ph
  workers : ∀ w ∈ s.workers, w.Wired t s.world

/-- The commands that may be sent next: groups are created at the start of their stream, an
acknowledgement is of an entry some task was given, and justified, and nothing is deleted. -/
def CmdAllowed (t : RedisStreamTransport) (s : Sys) : Redis.Cmd Body → Prop
  | .xgroupCreate _ _ start => start = 0
  | .xack k g id => ∃ w ∈ s.workers, ∃ d ∈ w.deliveries, ∃ jobId,
      k = t.streamKey w.runner.queue ∧ g = t.groupKey w.runner.queue ∧ id = d.entryId ∧
      d.jobId? = some jobId ∧ s.world.Justified t w.runner.queue id jobId
  | .xdel _ _ => False
  | _ => True

/-- The calls that may be made next. -/
def Allowed (t : RedisStreamTransport) (s : Sys) (_ : Actor) (o : Op) : Prop :=
  ∀ c, o = .redis c → s.CmdAllowed t c

variable {t : RedisStreamTransport} {s s' : Sys} {l : SysLabel}

/-- Nobody is there at the start. -/
theorem wired_init : init.Wired t where
  redis := fun _ => Redis.Stream.wf_empty
  calls := by simp [init]
  workers := by simp [init]

/-- The calls of `enqueue` neither acknowledge nor create groups. -/
theorem allowed_of_monitor {a : Actor} {o : Op} {enq : Enqueuer} {args : EnqueueArgs}
    {ph : Enqueuer.Phase} (hg : (enq.monitor args).guard ph o) : s.Allowed t a o := by
  rintro c rfl
  cases c <;> trivial

/-- **How one step of the system changes the servers.** -/
theorem step_world (h : s.Wired t) (hs : s.step l = some s') :
    WorldStep (s.Allowed t) s.world s'.world := by
  rcases step_cases hs with ⟨pl, p, rfl, -, hp, rfl⟩ | ⟨r, site, rfl, rfl⟩ |
    ⟨i, wl, w, world, w', rfl, hw, -, hx, rfl⟩
  · rcases PoolSpec.step_cases hp with ⟨c, site, rfl, rfl⟩ |
      ⟨i, ans, c, o, k, w, r, rfl, hc, hprog, hx, rfl⟩ | ⟨site, rfl, rfl⟩ | ⟨e, w, rfl, hw, rfl⟩
    · exact .idle
    · -- the caller's monitor admits what it calls, so the call is one a producer may make
      obtain ⟨ph, hg, -⟩ := h.calls c (List.mem_of_getElem? hc) _ hprog
      exact .call (allowed_of_monitor hg) hx
    · exact .crash site
    · cases e with
      | tick d =>
        obtain rfl := Option.some.inj hw
        exact .tick d
      | foreign key body =>
        simp only [World.env, Option.map_eq_some_iff] at hw
        obtain ⟨⟨w₁, r⟩, hx, rfl⟩ := hw
        refine .call (fun c hc => ?_) hx
        cases hc
        trivial
  · exact .idle
  · have hmem := List.mem_of_getElem? hw
    have hwired := h.workers w hmem
    have hmove := Worker.step_move hx
    clear hx
    cases hmove with
    | loop => exact .idle
    | recovery => exact .idle
    | shutdown => exact .idle
    | ensure hx _ _ =>
      refine .call (fun c hc => ?_) hx
      cases hc
      rfl
    | check _ _ hx _ =>
      refine .call (fun c hc => ?_) hx
      cases hc
      trivial
    | poll now _ hx _ =>
      refine .call (fun c hc => ?_) hx
      cases hc
      trivial
    | claim _ hx =>
      refine .call (fun c hc => ?_) hx
      cases hc
      trivial
    | spawn => exact .idle
    | start => exact .idle
    | @task i d o k ans s₁ r hi hx =>
      refine .call (fun c hc => ?_) hx
      subst hc
      obtain ⟨just, jobId, hid, ⟨hguard, -⟩, hj⟩ :=
        hwired.running d _ (List.mem_of_getElem? hi)
      cases c with
      -- the one dangerous call of a task: its monitor lets it through only when it is justified
      | xack key g id =>
        obtain ⟨hjust, rfl, rfl, rfl⟩ := hguard
        have htask : d ∈ w.deliveries :=
          List.mem_append_right _ (List.mem_map.mpr ⟨_, List.mem_of_getElem? hi, rfl⟩)
        exact ⟨w, hmem, d, htask, jobId,
          RedisStreamTransport.streamKey_congr hwired.uses.2.1 _,
          RedisStreamTransport.groupKey_congr hwired.uses.2.1 _, rfl, hid, hj hjust⟩
      | xgroupCreate key g start => exact hguard.elim
      | xdel key id => exact hguard.elim
      | xlen _ | xadd _ _ _ | xreadgroup _ _ _ _ _ | xautoclaim _ _ _ _ _ _ | xrevrange _ _ =>
        trivial
    | retire => exact .idle

/-- Groups are created from the start. -/
theorem Allowed.fromStart {a : Actor} {c : Redis.Cmd Body} (h : s.Allowed t a (.redis c)) :
    c.fromStart := by
  have hc := h c rfl
  cases c <;> first | exact hc | trivial

/-- Nothing is deleted. -/
theorem Allowed.deletes {a : Actor} {c : Redis.Cmd Body} (h : s.Allowed t a (.redis c)) :
    c.deletes = false := by
  have hc := h c rfl
  cases c <;> first | exact hc.elim | rfl

omit [Codec] in
/-- The killing of workers changes nothing that is said of them. -/
theorem mem_killed {w : Worker} {pl : PoolLabel relay EnqueueCall}
    (h : w ∈ killed s.workers pl) : ∃ w₀ ∈ s.workers, w = w₀ ∨ w = { w₀ with alive := false } := by
  unfold killed at h
  split at h
  · obtain ⟨w₀, hw₀, rfl⟩ := List.mem_map.mp h
    refine ⟨w₀, hw₀, ?_⟩
    unfold Worker.kill
    split
    · exact .inr rfl
    · exact .inl rfl
  · exact ⟨w, h, .inl rfl⟩

/-- **Every step keeps the system wired.** -/
theorem Wired.step (h : s.Wired t) (hl : l.uses t.streamPrefix) (hs : s.step l = some s') :
    s'.Wired t := by
  have hworld := step_world h hs
  have hle := hworld.le
  refine ⟨hworld.wf (fun a c hc => hc.fromStart) h.redis, ?_, ?_⟩
  · rcases step_cases hs with ⟨pl, p, rfl, -, hp, rfl⟩ | ⟨r, site, rfl, rfl⟩ |
      ⟨i, wl, w, world, w', rfl, hw, -, hx, rfl⟩
    · rcases PoolSpec.step_cases hp with ⟨c, site, rfl, rfl⟩ |
        ⟨i, ans, c, o, k, w, r, rfl, hc, hprog, hx, rfl⟩ | ⟨site, rfl, rfl⟩ | ⟨e, w, rfl, hw, rfl⟩
      · intro c' hc' q hq
        rcases List.mem_append.mp hc' with hc' | hc'
        · exact h.calls c' hc' q hq
        · obtain rfl := List.mem_singleton.mp hc'
          obtain rfl := Option.some.inj hq
          exact ⟨.fresh, c.enqueuer.wp_enqueue c.args⟩
      · intro c' hc' q hq
        rcases List.mem_or_eq_of_mem_set hc' with hc' | rfl
        · exact h.calls c' hc' q hq
        · obtain rfl := Option.some.inj hq
          obtain ⟨ph, -, hwp⟩ := h.calls c (List.mem_of_getElem? hc) _ hprog
          exact ⟨_, hwp r⟩
      · intro c' hc' q hq
        obtain ⟨c, hc, rfl⟩ := List.mem_map.mp hc'
        obtain ⟨hprog, hkill⟩ := Proc.kill_prog_eq_some hq
        rw [hkill]
        exact h.calls c hc q hprog
      · exact h.calls
    · exact h.calls
    · exact h.calls
  · rcases step_cases hs with ⟨pl, p, rfl, -, hp, rfl⟩ | ⟨r, site, rfl, rfl⟩ |
      ⟨i, wl, w, world, w', rfl, hw, -, hx, rfl⟩
    · intro w hw
      obtain ⟨w₀, hw₀, rfl | rfl⟩ := mem_killed hw
      · exact (h.workers w hw₀).mono hle
      · -- a killed worker holds what it held; only `alive` is another
        have h' := (h.workers w₀ hw₀).mono hle
        exact ⟨h'.uses, h'.group, h'.delivered, h'.running⟩
    · intro w hw
      rcases List.mem_append.mp hw with hw | hw
      · exact h.workers w hw
      · obtain rfl := List.mem_singleton.mp hw
        exact ⟨hl, by simp [WorkerRunner.spawn, LoopPc.ready],
          by simp [WorkerRunner.spawn, Worker.deliveries, LoopPc.batch],
          by simp [WorkerRunner.spawn]⟩
    · intro w₁ hw₁
      rcases List.mem_or_eq_of_mem_set hw₁ with hw₁ | rfl
      · exact (h.workers w₁ hw₁).mono hle
      · exact (h.workers w (List.mem_of_getElem? hw)).move h.redis (Worker.step_move hx)

/-! ## Runs -/

/-- `s'` is reached from `s` by a run whose parts are all built over the prefix of `t`. -/
def Run (t : RedisStreamTransport) : Sys → Sys → Prop :=
  Reaches step fun _ l => l.uses t.streamPrefix

/-- Whatever is reached from a wired state is wired. -/
theorem Run.wired (h : Run t s s') (hw : s.Wired t) : s'.Wired t :=
  Reaches.invariant (fun _ _ _ hw hl hs => hw.step hl hs) h hw

/-- A run from a wired state moves the servers forward. -/
theorem Run.le (h : Run t s s') (hw : s.Wired t) : s.world.Le s'.world := by
  have hinv : s'.Wired t ∧ s.world.Le s'.world := by
    refine Reaches.invariant (P := fun u => u.Wired t ∧ s.world.Le u.world)
      (fun u l v hu hl hs => ⟨hu.1.step hl hs, ?_⟩) h ⟨hw, .refl _⟩
    exact hu.2.trans (step_world hu.1 hs).le
  exact hinv.2

end Sys

end RelayQ

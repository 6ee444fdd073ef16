import RelayQ.Guarantees.SingleExecution
import RelayQ.Infrastructure.Appends
import RelayQ.System.Gate

/-! # Handlers run on what was enqueued

A handler is called with the job of a stream entry, an entry is what one call of `enqueue` appended
under its id, and a call appends at most once. So whatever happens in between, a handler sees a job
exactly as some call of `enqueue` wrote it, and every such call leads to at most one handler call.

* `Op.OfJob`, `Executor.calls_execute_ofJob`: what an `execute` does with the job it was given.
* `Worker.Handles`: the handler calls of the record are those of tasks, with their jobs.
* `Sys.Appender`: who may have appended what; `Sys.Enqueued`: that nobody else has.
* `Sys.handledAsEnqueued`: the guarantee. -/

namespace RelayQ

variable [Codec] in
/-- A handler call is with this job, and what is dead-lettered is this job: its retries are exhausted by
one more attempt, and its payload is what the handler has left. -/
def Op.OfJob (job? : Option Job) : Op → Prop
  | .handler job _ => job? = some job
  | .redis (.xadd _ body _) => ∃ job payload why, job? = some job ∧
      job.maxRetries < job.attempts + 1 ∧
      body = RedisStreamTransport.dlqBody { job with attempts := job.attempts + 1, payload } why
  | _ => True

/-- How often a call appends. -/
def Op.adds : Op → Nat
  | .redis (.xadd _ _ _) => 1
  | _ => 0

namespace Executor

variable [Codec] (x : Executor)

/-- What comes after a failed handler dead-letters the job it was given, if any. -/
theorem calls_handleFailure_ofJob (queue : String) (entryId : Nat) (job : Job) (payload : Dict)
    (exc : PyExc) :
    (x.handleFailure queue entryId { job with payload } exc).Calls (Op.OfJob (some job)) := by
  refine .bind (.perform trivial) fun _ => ?_
  split
  · rename_i hdlq
    refine .bind ?_ fun why => .bind ?_ fun _ => .bind (calls_noteStatus fun _ => trivial) fun _ =>
      .ret _
    · unfold reason
      split <;> trivial
    · refine calls_logged (.bind (.perform ?_) fun _ => .bind (.perform trivial) fun _ =>
        .perform trivial)
      exact ⟨job, payload, why, rfl, of_decide_eq_true hdlq, rfl⟩
  · exact .bind (.perform trivial) fun _ => .bind (calls_noteStatus fun _ => trivial) fun _ => .ret _

/-- **An `execute` does this with the job it was given.** -/
theorem calls_execute_ofJob (queue : String) (entryId : Nat) (job : Job) :
    (x.execute queue entryId job).Calls (Op.OfJob (some job)) := by
  refine .bind (calls_noteStatus fun _ => trivial) fun _ => .bind (.perform trivial) fun start =>
    .bind (.perform rfl) fun (run : HandlerRun) => ?_
  dsimp only
  split
  · exact .bind (calls_observeElapsed trivial fun _ => trivial) fun _ =>
      .bind (calls_logged (.perform trivial)) fun _ =>
        .bind (calls_noteStatus fun _ => trivial) fun _ => .bind (.perform trivial) fun _ => .ret _
  · split
    · exact .bind (calls_observeElapsed trivial fun _ => trivial) fun _ =>
        x.calls_handleFailure_ofJob queue entryId job _ _
    · trivial

end Executor

/-! ## What the tasks call -/

/-- The calls of a worker's tasks, made and to be made, are with the jobs of their deliveries. -/
structure Worker.Handles [Codec] (me : Nat) (s : World) (w : Worker) : Prop where
  calls : ∀ ev ∈ s.log, ∀ j q e, ev.actor = .executor me j q e → ∃ tk, w.tasks[j]? = some tk ∧
    ev.op.OfJob tk.delivery.job.typed?
  running : ∀ d p, ⟨d, .running p⟩ ∈ w.tasks → p.Calls (Op.OfJob d.job.typed?)

namespace Worker

variable [Codec] {me : Nat} {s s' : World} {w w' : Worker}

/-- Calls of others say nothing of this worker. -/
theorem Handles.elsewhere (h : w.Handles me s) (ht : w'.tasks = w.tasks)
    (hlog : s'.log = s.log ∨ ∃ ev, s'.log = ev :: s.log ∧
      ∀ j q e, ev.actor ≠ .executor me j q e) : w'.Handles me s' := by
  refine ⟨fun ev hev j q e ha => ?_, fun d p hp => h.running d p (ht ▸ hp)⟩
  rw [ht]
  rcases hlog with hlog | ⟨ev', hlog, hother⟩
  · exact h.calls ev (hlog ▸ hev) j q e ha
  · rcases List.mem_cons.mp (hlog ▸ hev) with rfl | hev
    · exact absurd ha (hother j q e)
    · exact h.calls ev hev j q e ha

omit [Codec] in
/-- A task that is left in another state keeps its delivery. -/
theorem exists_getElem?_setTask {i : Nat} {d : Delivery} {pc : TaskPc} (pc' : TaskPc)
    (hi : w.tasks[i]? = some ⟨d, pc⟩) {j : Nat} {tk : Task} (hj : w.tasks[j]? = some tk) :
    ∃ tk', (w.setTask i pc').tasks[j]? = some tk' ∧ tk'.delivery = tk.delivery := by
  by_cases hij : j = i
  · subst hij
    obtain rfl := Option.some.inj (hi.symm.trans hj)
    exact ⟨_, (getElem?_setTask hi).mpr (.inr ⟨rfl, rfl⟩), rfl⟩
  · exact ⟨tk, (getElem?_setTask hi).mpr (.inl ⟨hij, hj⟩), rfl⟩

/-- A task that gets on with such calls only. -/
theorem Handles.setTask (h : w.Handles me s) {i : Nat} {d : Delivery} {pc pc' : TaskPc}
    (hi : w.tasks[i]? = some ⟨d, pc⟩)
    (hpc : ∀ p, pc' = .running p → p.Calls (Op.OfJob d.job.typed?)) :
    (w.setTask i pc').Handles me s where
  calls ev hev j q e ha := by
    obtain ⟨tk, hj, hok⟩ := h.calls ev hev j q e ha
    obtain ⟨tk', hj', hd⟩ := exists_getElem?_setTask pc' hi hj
    exact ⟨tk', hj', hd ▸ hok⟩
  running d' p hp := by
    rcases mem_setTask hp with hp | ⟨d₀, pc₀, hi₀, heq⟩
    · exact h.running d' p hp
    · obtain ⟨rfl, rfl⟩ := Task.mk.inj heq
      obtain ⟨rfl, -⟩ := Task.mk.inj (Option.some.inj (hi₀.symm.trans hi))
      exact hpc p rfl

omit [Codec] in
/-- A program that makes such calls only leaves its task so. -/
theorem calls_of_after {ok : Op → Prop} {p q : Py Unit} (hp : p.Calls ok)
    (h : TaskPc.after p = .running q) : q.Calls ok := by
  unfold TaskPc.after at h
  split at h
  · cases h
    exact hp
  · cases h

/-- What a task does is one `execute` of its job. -/
theorem calls_processJob_ofJob (r : WorkerRunner) (d : Delivery) :
    (r.processJob d).Calls (Op.OfJob d.job.typed?) := by
  unfold WorkerRunner.processJob
  split
  · rename_i job hjob
    rw [hjob]
    exact Executor.calls_logged (r.executor.calls_execute_ofJob r.queue d.entryId job)
  · trivial

/-- **Every move of a worker makes such calls only.** -/
theorem Handles.move (h : w.Handles me s) (hm : Move me w s s' w') : w'.Handles me s' := by
  have hother : ∀ {a : Actor} {o : Op} {ans : Answer} {r : Except PyExc o.Res} {w₁ : Worker},
      s.exec w.site a o ans = some (s', r) → (∀ j q e, a ≠ .executor me j q e) →
      w₁.tasks = w.tasks → w₁.Handles me s' := by
    intro a o ans r w₁ hx ha ht
    obtain ⟨applied, evicted, hlog⟩ := World.exec_log hx
    exact h.elsewhere ht (.inr ⟨_, hlog, ha⟩)
  cases hm with
  | loop | recovery | shutdown => exact h.elsewhere rfl (.inl rfl)
  | ensure hx _ _ => exact hother hx (fun _ _ _ => nofun) rfl
  | check _ _ hx _ => exact hother hx (fun _ _ _ => nofun) rfl
  | poll _ _ hx _ => exact hother hx (fun _ _ _ => nofun) rfl
  | claim _ hx => exact hother hx (fun _ _ _ => nofun) rfl
  | @spawn d rest hloop hperm =>
    refine ⟨fun ev hev j q e ha => ?_, fun d' p hp => ?_⟩
    · obtain ⟨tk, hj, hok⟩ := h.calls ev hev j q e ha
      exact ⟨tk, getElem?_spawnTask.mpr (.inl hj), hok⟩
    · rcases List.mem_append.mp hp with hp | hp
      · exact h.running d' p hp
      · cases List.mem_singleton.mp hp
  | @start i d hi =>
    exact (h.setTask hi fun p hp => calls_of_after (calls_processJob_ofJob _ _) hp).elsewhere
      (settle_tasks w i _) (.inl rfl)
  | @task i d o k ans _ r hi hx =>
    obtain ⟨applied, evicted, hlog⟩ := World.exec_log hx
    obtain ⟨hok, hrest⟩ := h.running d _ (List.mem_of_getElem? hi)
    have hset : (w.setTask i (.after (k r))).Handles me s :=
      h.setTask hi fun p hp => calls_of_after (hrest r) hp
    refine ⟨fun ev hev j q e ha => ?_, fun d' p hp => hset.running d' p (settle_tasks w i _ ▸ hp)⟩
    rw [settle_tasks]
    rcases List.mem_cons.mp (hlog ▸ hev) with rfl | hev
    · obtain ⟨-, rfl, -, -⟩ := Actor.executor.inj ha
      exact ⟨_, (getElem?_setTask hi).mpr (.inr ⟨rfl, rfl⟩), hok⟩
    · exact hset.calls ev hev j q e ha
  | @retire i d pc pc' hi _ hover =>
    refine h.setTask hi fun p hp => ?_
    subst hp
    cases hover

end Worker

/-! ## What a call of `enqueue` appends -/

namespace Enqueuer

variable [Codec] {enq : Enqueuer} {a : EnqueueArgs}

/-- A call that has appended is closed, and a closed one does not append. -/
theorem wp_adds_of_monitor {α : Type} {p : Py α} {Q : Except PyExc α → Phase → Prop} {ph : Phase}
    (h : p.wp (enq.monitor a) Q ph) {top : Nat} (htop : top = 0 ∨ ph = .closed) :
    p.wp (.ascending Op.adds) (fun _ _ => True) top := by
  induction p generalizing ph top with
  | ret x => trivial
  | raise e => trivial
  | call o k ih =>
    obtain ⟨hguard, hrest⟩ := h
    cases o with
    | redis c =>
      cases c with
      | xadd key body lim =>
        have hopen : ph ≠ .closed := by
          rintro rfl
          rcases hguard.1 with ⟨hph, -⟩ | ⟨hph, -⟩ <;> cases hph
        refine ⟨.inr (htop.resolve_right hopen ▸ Nat.one_pos), fun r => ih r (hrest r) (.inr ?_)⟩
        cases r <;> rfl
      | xlen key =>
        refine ⟨.inl rfl, fun r => ih r (hrest r) ?_⟩
        rw [show ph = .fresh from hguard.1] at htop
        exact .inl (by simpa [Monitor.ascending, Op.adds] using htop)
      | _ => exact hguard.elim
    | sql stmt =>
      refine ⟨.inl rfl, fun r => ih r (hrest r) ?_⟩
      -- a closed call runs no statement
      have hopen : ph ≠ .closed := by
        rintro rfl
        cases stmt <;> exact hguard
      exact .inl (by simpa [Monitor.ascending, Op.adds] using htop.resolve_right hopen)
    | utcnow =>
      refine ⟨.inl rfl, fun r => ih r (hrest r) ?_⟩
      simpa [Monitor.ascending, Op.adds, monitor] using htop
    | _ => exact hguard.elim

/-- **A call of `enqueue` appends at most once.** -/
theorem wp_enqueue_adds (enq : Enqueuer) (a : EnqueueArgs) :
    (enq.enqueue a).wp (.ascending Op.adds) (fun _ _ => True) 0 :=
  wp_adds_of_monitor (enq.wp_enqueue a) (.inl rfl)

end Enqueuer

/-- What a history in order says of the log. -/
theorem World.pairwise_log {κ : Type} {kind : EventKind κ} {mine : Actor → Bool} {w : World}
    {R : κ → κ → Prop} (h : (w.history kind mine).Pairwise R) :
    w.log.Pairwise fun ev ev' => mine ev.actor = true → mine ev'.actor = true →
      ∀ x, kind ev.op ev.res = some x → ∀ y, kind ev'.op ev'.res = some y → R x y :=
  (List.pairwise_filter.mp (List.pairwise_filterMap.mp h)).imp fun h hx hy => h hx hy

/-- Two places of a list that are of one kind, where no two elements are. -/
theorem eq_of_pairwise_not {β : Type} {P : β → Prop} {l : List β}
    (h : l.Pairwise fun x y => ¬ (P x ∧ P y)) {m m' : Nat} {x y : β} (hx : l[m]? = some x)
    (hy : l[m']? = some y) (hPx : P x) (hPy : P y) : m = m' := by
  obtain ⟨hm, rfl⟩ := List.getElem?_eq_some_iff.mp hx
  obtain ⟨hm', rfl⟩ := List.getElem?_eq_some_iff.mp hy
  rcases Nat.lt_trichotomy m m' with hlt | heq | hlt
  · exact absurd ⟨hPx, hPy⟩ (List.pairwise_iff_getElem.mp h m m' hm hm' hlt)
  · exact heq
  · exact absurd ⟨hPy, hPx⟩ (List.pairwise_iff_getElem.mp h m' m hm' hm hlt)

/-- What appends in a rank of its own, and calls in order, appends one entry. -/
theorem World.AppendedBy.id_eq {w : World} {rank : Op → Nat} {mine : Actor → Bool}
    (h : (w.history (rankKind rank) mine).Pairwise (· > ·)) {m : Nat} (hm : m ≠ 0)
    (hrank : ∀ key body lim, rank (.redis (.xadd key body lim)) = m) {key : String} {id id' : Nat}
    {a a' : Actor} {body body' : Body} (happ : w.AppendedBy key id a body)
    (happ' : w.AppendedBy key id' a' body') (ha : mine a = true) (ha' : mine a' = true) :
    id = id' := by
  have hpair : (w.appends key).Pairwise fun x y => ¬ (mine x.1 = true ∧ mine y.1 = true) := by
    refine List.pairwise_filterMap.mpr (List.pairwise_reverse.mpr ?_)
    refine (World.pairwise_log h).imp fun {ev ev'} hev x hx y hy hxy => ?_
    obtain ⟨hx₁, lim, hop⟩ := Event.exists_of_appended? hx
    obtain ⟨hy₁, lim', hop'⟩ := Event.exists_of_appended? hy
    have hkind : ∀ {ev : Event} {k b l}, ev.op = .redis (.xadd k b l) →
        rankKind rank ev.op ev.res = some m := fun hop => by simp [rankKind, hop, hrank, hm]
    have hlt := hev (hy₁ ▸ hxy.2) (hx₁ ▸ hxy.1) m (hkind hop') m (hkind hop)
    exact absurd hlt (Nat.lt_irrefl m)
  have hplace := eq_of_pairwise_not hpair happ.2 happ'.2 ha ha'
  have hpos := happ.1
  have hpos' := happ'.1
  omega

namespace Sys

/-- Who may have appended what to the key: a call of `enqueue` its job to its stream, a job task
dead letters, anybody outside the code anything. -/
inductive Appender [Codec] (t : RedisStreamTransport) (s : Sys) (key : String) : Actor → Body → Prop
  | enqueue {n : Nat} {c : Proc RelaySig Nat EnqueueCall Nat} : s.pool.procs[n]? = some c →
      key = t.streamKey c.info.args.job.queue →
      Appender t s key (.enqueuer n) (RedisStreamTransport.jobBody c.info.args.keyedJob)
  | deadLetter {i j e : Nat} {q : String} {body : Body} : key = t.dlqKey q →
      Appender t s key (.executor i j q e) body
  | foreign {body : Body} : Appender t s key .foreign body

/-- The appends of the `n`-th call of `enqueue`. -/
def adds (w : World) (n : Nat) : List Nat := w.history (rankKind Op.adds) (· = .enqueuer n)

/-- The call has appended at most once, and what is left of it keeps to that. -/
def AddsOnce (w : World) (n : Nat) (prog : Option (Py Nat)) : Prop :=
  (adds w n).Pairwise (· > ·) ∧ ∀ q, prog = some q →
    ∃ top, (∀ st ∈ adds w n, st ≤ top) ∧ q.wp (.ascending Op.adds) (fun _ _ => True) top

/-- What the appends of the `enqueue` calls are known to be. -/
structure Enqueued [Codec] (t : RedisStreamTransport) (s : Sys) : Prop where
  uses : ∀ c ∈ s.pool.procs, c.info.enqueuer.transport.streamPrefix = t.streamPrefix
  appended : ∀ key a body, (a, body) ∈ s.world.appends key → s.Appender t key a body
  once : ∀ n c, s.pool.procs[n]? = some c → AddsOnce s.world n c.prog

variable [Codec] {t : RedisStreamTransport} {s s' : Sys} {l : SysLabel}

/-- Nothing is on a stream at the start. -/
theorem enqueued_init : init.Enqueued t where
  uses := by simp [init]
  appended key a body h := by simp [init, world, World.init, World.appends] at h
  once := by simp [init]

/-- An appender stays one. -/
theorem Appender.step {key : String} {a : Actor} {body : Body} (h : s.Appender t key a body)
    (hs : s.step l = some s') : s'.Appender t key a body := by
  cases h with
  | enqueue hc hkey =>
    obtain ⟨c', hc', hinfo⟩ := procs_of_step hs hc
    rw [← hinfo] at hkey ⊢
    exact .enqueue hc' hkey
  | deadLetter hkey => exact .deadLetter hkey
  | foreign => exact .foreign

/-- What is called appends as it may. -/
theorem Called.appender {site : Nat} {a : Actor} {o : Op} (h : s.Called site a o)
    (huses : ∀ c ∈ s.pool.procs, c.info.enqueuer.transport.streamPrefix = t.streamPrefix)
    (hwired : s.Wired t) {key : String} {body : Body} {lim : Option (Nat × Bool)}
    (ho : o = .redis (.xadd key body lim)) : s.Appender t key a body := by
  subst ho
  cases h with
  | enqueue hc hprog hg =>
    obtain ⟨-, hkey, rfl, -⟩ := hg
    rw [RedisStreamTransport.streamKey_congr (huses _ (List.mem_of_getElem? hc))] at hkey
    exact .enqueue hc hkey
  | task hw hg =>
    obtain ⟨hkey, -⟩ := hg
    have huse := (hwired.workers _ (List.mem_of_getElem? hw)).uses.2.1
    rw [RedisStreamTransport.dlqKey_congr huse] at hkey
    exact .deadLetter hkey
  | reader _ _ _ hadd _ => cases hadd
  | foreign => exact .foreign

/-- What a step appends, it may. -/
theorem Enqueued.step_appended (h : s.Enqueued t) (hwired : s.Wired t) (hs : s.step l = some s')
    {key : String} {a : Actor} {body : Body} (hmem : (a, body) ∈ s'.world.appends key) :
    s'.Appender t key a body := by
  rcases step_called hwired hs with ⟨hlog, -⟩ | ⟨site, b, o, ans, r, hcalled, hx⟩
  · rw [World.appends_congr hlog] at hmem
    exact (h.appended key a body hmem).step hs
  · obtain ⟨applied, evicted, hlog⟩ := World.exec_log hx
    rw [World.appends_cons hlog] at hmem
    rcases List.mem_append.mp hmem with hmem | hmem
    · exact (h.appended key a body hmem).step hs
    · obtain ⟨rfl, lim, hop⟩ := Event.exists_of_appended? (Option.mem_toList.mp hmem)
      exact (hcalled.appender h.uses hwired hop).step hs

omit [Codec] in
/-- What others do says nothing of a call. -/
theorem AddsOnce.elsewhere {w w' : World} {n : Nat} {prog : Option (Py Nat)} (h : AddsOnce w n prog)
    (hlog : w'.log = w.log ∨ ∃ ev, w'.log = ev :: w.log ∧ ev.actor ≠ .enqueuer n) :
    AddsOnce w' n prog := by
  have hadds : adds w' n = adds w n := by
    rcases hlog with hlog | ⟨ev, hlog, hother⟩
    · rw [adds, adds, World.history, World.history, hlog]
    · exact World.history_cons_of_not hlog (by simpa using hother)
  unfold AddsOnce at h ⊢
  rwa [hadds]

/-- A step in which no call of `enqueue` is answered. -/
theorem Enqueued.elsewhere (h : s.Enqueued t) (happended : ∀ key a body,
      (a, body) ∈ s'.world.appends key → s'.Appender t key a body)
    (hprocs : s'.pool.procs = s.pool.procs) (hlog : s'.world.log = s.world.log ∨
      ∃ ev, s'.world.log = ev :: s.world.log ∧ ∀ n, ev.actor ≠ .enqueuer n) : s'.Enqueued t := by
  refine ⟨fun c hc => h.uses c (hprocs ▸ hc), happended, fun n c hc => ?_⟩
  exact (h.once n c (hprocs ▸ hc)).elsewhere
    (hlog.imp_right fun ⟨ev, hlog, hother⟩ => ⟨ev, hlog, hother n⟩)

/-- A call that starts. -/
theorem Enqueued.start (h : s.Enqueued t) (hknown : s.Known) (c : EnqueueCall) (site : Nat)
    (hc : c.enqueuer.transport.streamPrefix = t.streamPrefix) {workers : List Worker}
    (happended : ∀ key a body, (a, body) ∈ s.world.appends key →
      Appender t ⟨⟨s.world, s.pool.procs ++ [⟨c, site, some (enqueuePool.code c)⟩]⟩, workers⟩ key a
        body) :
    Enqueued t ⟨⟨s.world, s.pool.procs ++ [⟨c, site, some (enqueuePool.code c)⟩]⟩, workers⟩ := by
  refine ⟨fun c' hc' => ?_, happended, fun n c' hc' => ?_⟩
  · rcases List.mem_append.mp hc' with hc' | hc'
    · exact h.uses c' hc'
    · obtain rfl := List.mem_singleton.mp hc'
      exact hc
  · rcases getElem?_concat_cases hc' with hc' | ⟨rfl, rfl⟩
    · exact h.once n c' hc'
    · -- nothing is on record of it yet
      have hnone : adds s.world s.pool.procs.length = [] := by
        refine List.eq_nil_iff_forall_not_mem.mpr fun st hst => ?_
        obtain ⟨ev, hev, hmine, -⟩ := World.mem_history.mp hst
        exact absurd (hknown ev hev _ (of_decide_eq_true hmine)) (Nat.lt_irrefl _)
      refine ⟨by rw [world, hnone]; exact List.Pairwise.nil, fun q hq => ⟨0, ?_, ?_⟩⟩
      · rw [world, hnone]
        exact fun _ hst => by cases hst
      · obtain rfl := Option.some.inj hq
        exact Enqueuer.wp_enqueue_adds c.enqueuer c.args

/-- **Every step leaves each call of `enqueue` with one append at most.** -/
theorem Enqueued.step (h : s.Enqueued t) (hwired : s.Wired t) (hknown : s.Known)
    (hl : l.uses t.streamPrefix) (hs : s.step l = some s') : s'.Enqueued t := by
  have happended : ∀ key a body, (a, body) ∈ s'.world.appends key → s'.Appender t key a body :=
    fun _ _ _ hmem => h.step_appended hwired hs hmem
  rcases step_cases hs with ⟨pl, p, rfl, -, hp, rfl⟩ | ⟨r, site, rfl, rfl⟩ |
    ⟨i, wl, w, world, w', rfl, hi, -, hx, rfl⟩
  · rcases PoolSpec.step_cases hp with ⟨c, site, rfl, rfl⟩ |
      ⟨i, ans, c, o, k, w, r, rfl, hc, hprog, hx, rfl⟩ | ⟨site, rfl, rfl⟩ | ⟨e, w, rfl, hw, rfl⟩
    · exact h.start hknown c site hl happended
    · -- a call is answered
      obtain ⟨applied, evicted, hlog⟩ := World.exec_log hx
      refine ⟨fun c' hc' => ?_, happended, fun n c' hc' => ?_⟩
      · rcases List.mem_or_eq_of_mem_set hc' with hc' | rfl
        · exact h.uses c' hc'
        · exact h.uses c (List.mem_of_getElem? hc)
      · rcases getElem?_set_cases hc' with ⟨rfl, rfl⟩ | ⟨hne, hc'⟩
        · obtain ⟨hpair, hrest⟩ := h.once n c hc
          obtain ⟨top, htop, hguard, hwp⟩ := hrest _ hprog
          have hadds : adds w n = (rankKind Op.adds o r).toList ++ adds s.world n :=
            World.history_cons hlog (by simp [enqueuePool])
          obtain ⟨hpair', hle⟩ := pairwise_rankKind hpair htop hguard r
          refine ⟨hadds ▸ hpair', fun q hq => ?_⟩
          obtain rfl := Option.some.inj hq
          exact ⟨_, hadds ▸ hle, hwp r⟩
        · exact (h.once n c' hc').elsewhere
            (.inr ⟨_, hlog, fun ha => hne (Actor.enqueuer.inj ha).symm⟩)
    · -- a site crashes
      refine ⟨fun c' hc' => ?_, happended, fun n c' hc' => ?_⟩
      · obtain ⟨c, hc, rfl⟩ := List.mem_map.mp hc'
        exact (Proc.kill_info site c).symm ▸ h.uses c hc
      · rw [List.getElem?_map, Option.map_eq_some_iff] at hc'
        obtain ⟨c, hc, rfl⟩ := hc'
        obtain ⟨hpair, hrest⟩ := h.once n c hc
        exact ⟨hpair, fun q hq => hrest q (Proc.kill_prog_eq_some hq).1⟩
    · refine h.elsewhere happended rfl ?_
      cases e with
      | tick d =>
        obtain rfl := Option.some.inj hw
        exact .inl rfl
      | foreign key body =>
        simp only [World.env, Option.map_eq_some_iff] at hw
        obtain ⟨⟨w₁, r⟩, hx, rfl⟩ := hw
        obtain ⟨applied, evicted, hlog⟩ := World.exec_log hx
        exact .inr ⟨_, hlog, fun _ h => by cases h⟩
  · exact h.elsewhere happended rfl (.inl rfl)
  · refine h.elsewhere happended rfl ((Worker.step_move hx).record.imp_right ?_)
    rintro ⟨ev, hlog, hact⟩
    refine ⟨ev, hlog, fun n ha => ?_⟩
    rw [ha] at hact
    rcases hact with hact | hact | ⟨_, _, _, hact⟩ <;> cases hact

end Sys

/-! ## Where deliveries come from -/

/-- The delivery is of an entry that was appended to the key, and its job what the body builds. -/
def Delivery.From [Codec] (w : World) (key : String) (d : Delivery) : Prop :=
  ∃ a body, w.AppendedBy key d.entryId a body ∧
    ∃ (t : RedisStreamTransport) (now : DateTime), t.decodeEntry now body = .job d.job

namespace Sys

/-- What the workers hold, and what their tasks call. -/
structure Sourced [Codec] (t : RedisStreamTransport) (s : Sys) : Prop where
  numbered : s.world.Numbered
  deliveries : ∀ w ∈ s.workers, ∀ d ∈ w.deliveries, d.From s.world (t.streamKey w.runner.queue)
  handles : ∀ (i : Nat) (w : Worker), s.workers[i]? = some w → w.Handles i s.world

variable [Codec] {t : RedisStreamTransport} {s s' : Sys} {l : SysLabel}

/-- Nothing has been delivered at the start. -/
theorem sourced_init : init.Sourced t where
  numbered := World.numbered_init
  deliveries := by simp [init]
  handles := by simp [init]

/-- **Every step leaves the workers with what was appended.** -/
theorem Sourced.step (h : s.Sourced t) (hwired : s.Wired t) (htraced : s.Traced)
    (hs : s.step l = some s') : s'.Sourced t := by
  have hworld := step_world hwired hs
  have hnumbered : s'.world.Numbered := by
    rcases step_called hwired hs with ⟨hlog, hredis, -⟩ | ⟨site, a, o, ans, r, -, hx⟩
    · exact h.numbered.congr hredis hlog
    · exact h.numbered.exec hx
  -- what was appended stays so
  have hfrom : ∀ {w : Worker}, w ∈ s.workers → ∀ d ∈ w.deliveries,
      d.From s'.world (t.streamKey w.runner.queue) := fun hw d hd => by
    obtain ⟨a, body, happ, hdec⟩ := h.deliveries _ hw d hd
    exact ⟨a, body, happ.mono hworld.le.log, hdec⟩
  rcases step_cases hs with ⟨pl, p, rfl, -, hp, rfl⟩ | ⟨r, site, rfl, rfl⟩ |
    ⟨i, wl, w, world, w', rfl, hi, -, hx, rfl⟩
  · refine ⟨hnumbered, fun w hw => ?_, fun i w' hw' => ?_⟩
    · obtain ⟨w₀, hw₀, rfl | rfl⟩ := mem_killed hw
      · exact hfrom hw₀
      · exact hfrom (w := w₀) hw₀
    · obtain ⟨f, hf, hmap⟩ := getElem?_killed s.workers pl i
      obtain ⟨w, hw, rfl⟩ := Option.map_eq_some_iff.mp (hmap.symm.trans hw')
      refine (h.handles i w hw).elsewhere ?_
        ((pool_record hp).imp_right fun ⟨ev, hlog, hother⟩ =>
          ⟨ev, hlog, Actor.ne_executor_of (hother i)⟩)
      rcases hf w with heq | heq <;> rw [heq]
  · refine ⟨hnumbered, fun w hw => ?_, fun i w hw => ?_⟩
    · rcases List.mem_append.mp hw with hw | hw
      · exact hfrom hw
      · obtain rfl := List.mem_singleton.mp hw
        exact fun d hd => nomatch hd
    · rcases getElem?_concat_cases hw with hw | ⟨rfl, rfl⟩
      · exact h.handles i w hw
      · -- nothing is on record of a worker of this number
        refine ⟨fun ev hev j q e ha => ?_, fun d p hp => nomatch hp⟩
        exact absurd (htraced.known ev hev _ j q e ha) (Nat.lt_irrefl _)
  · have hm := Worker.step_move hx
    have hw := List.mem_of_getElem? hi
    refine ⟨hnumbered, fun w₁ hw₁ d hd => ?_, fun k u hu => ?_⟩
    · rcases List.mem_or_eq_of_mem_set hw₁ with hw₁ | rfl
      · exact hfrom hw₁ d hd
      · obtain ⟨hr, -, -⟩ := hm.frame
        rw [hr]
        rcases hm.deliveries hd with hd | ⟨now, grp, consumer, count, e, -, -, -, he, hid, hdec⟩
        · exact hfrom hw d hd
        · -- a poll has just read it from the stream
          rw [RedisStreamTransport.streamKey_congr (hwired.workers w hw).uses.1] at he
          obtain ⟨a, happ⟩ := h.numbered.entries _ e (Redis.Stream.mem_of_mem_deliver he).1
          rw [hid] at happ
          exact ⟨a, e.fields, happ.mono hworld.le.log, _, now, hdec⟩
    · rcases getElem?_set_cases hu with ⟨rfl, rfl⟩ | ⟨hki, hu⟩
      · exact (h.handles k w hi).move hm
      · refine (h.handles k u hu).elsewhere rfl (hm.record.imp_right ?_)
        rintro ⟨ev, hlog, hact⟩
        refine ⟨ev, hlog, fun j q e ha => ?_⟩
        rw [ha] at hact
        rcases hact with hact | hact | ⟨_, _, _, hact⟩
        · cases hact
        · cases hact
        · exact hki (Actor.executor.inj hact).1

/-- In every reachable state all this is known. -/
theorem Run.sourced (h : Run t init s) : s.Wired t ∧ s.Traced ∧ s.Enqueued t ∧ s.Sourced t := by
  have hinv : s.Wired t ∧ s.Traced ∧ (s.Known ∧ s.Enqueued t) ∧ s.Sourced t :=
    Reaches.invariant (P := fun u => u.Wired t ∧ u.Traced ∧ (u.Known ∧ u.Enqueued t) ∧ u.Sourced t)
      (fun _ _ _ ⟨hwired, htraced, ⟨hknown, henq⟩, hsrc⟩ hl hs =>
        ⟨hwired.step hl hs, htraced.step hs,
          ⟨hknown.step hwired hs, henq.step hwired hknown hl hs⟩, hsrc.step hwired htraced hs⟩)
      h ⟨wired_init, traced_init, ⟨known_init, enqueued_init⟩, sourced_init⟩
  exact ⟨hinv.1, hinv.2.1, hinv.2.2.1.2, hinv.2.2.2⟩

/-! ## The guarantee -/

/-- The event is a handler call for an entry that the `n`-th call of `enqueue` appended. -/
def HandlesFor (t : RedisStreamTransport) (s : Sys) (n : Nat) (ev : Event) : Prop :=
  ∃ i j q e job timeout body, ev.actor = .executor i j q e ∧ ev.op = .handler job timeout ∧
    s.world.AppendedBy (t.streamKey q) e (.enqueuer n) body

/-- What a call of `enqueue` has appended to the stream of a queue. -/
theorem Enqueued.of_appendedBy (h : s.Enqueued t) {q : String} {e n : Nat} {body : Body}
    (happ : s.world.AppendedBy (t.streamKey q) e (.enqueuer n) body) :
    ∃ c, s.pool.procs[n]? = some c ∧ c.info.args.job.queue = q ∧
      body = RedisStreamTransport.jobBody c.info.args.keyedJob := by
  cases h.appended _ _ _ happ.mem with
  | enqueue hc hkey => exact ⟨_, hc, (t.streamKey_injective hkey).symm, rfl⟩

/-- A call appends one entry. -/
theorem Enqueued.entry_unique (h : s.Enqueued t) {q q' : String} {e e' n : Nat} {body body' : Body}
    (happ : s.world.AppendedBy (t.streamKey q) e (.enqueuer n) body)
    (happ' : s.world.AppendedBy (t.streamKey q') e' (.enqueuer n) body') : q = q' ∧ e = e' := by
  obtain ⟨c, hc, rfl, -⟩ := h.of_appendedBy happ
  obtain ⟨c', hc', rfl, -⟩ := h.of_appendedBy happ'
  obtain rfl := Option.some.inj (hc.symm.trans hc')
  exact ⟨rfl, World.AppendedBy.id_eq (h.once n c hc).1 Nat.one_ne_zero (fun _ _ _ => rfl) happ happ'
    (decide_eq_true rfl) (decide_eq_true rfl)⟩

/-- The stream entry is what a call of `enqueue` on the queue appended, and this its job; or a writer
outside the code left it. -/
def SourceOf (t : RedisStreamTransport) (s : Sys) (queue : String) (entryId : Nat)
    (job? : Option Job) : Prop :=
  ∃ a body, s.world.AppendedBy (t.streamKey queue) entryId a body ∧ (a = .foreign ∨
    ∃ n c, a = .enqueuer n ∧ s.pool.procs[n]? = some c ∧ c.info.args.job.queue = queue ∧
      job? = some c.info.args.keyedJob)

/-- **What a task calls, it calls for the job that is the source of its entry.** -/
theorem Run.source (hrun : Run t init s) {ev : Event} (hev : ev ∈ s.world.log) {i j e : Nat}
    {q : String} (ha : ev.actor = .executor i j q e) :
    ∃ job?, ev.op.OfJob job? ∧ s.SourceOf t q e job? := by
  obtain ⟨-, htraced, henq, hsrc⟩ := hrun.sourced
  -- the call is that of a task, for the entry it was given
  have hlt := htraced.known ev hev i j q e ha
  have hw := List.getElem?_eq_getElem hlt
  obtain ⟨rfl, tk, hj, rfl⟩ := (htraced.workers i _ hw).calls ev hev j q e ha
  obtain ⟨tk', hj', hjob⟩ := (hsrc.handles i _ hw).calls ev hev j _ _ ha
  obtain rfl := Option.some.inj (hj.symm.trans hj')
  have hd : tk.delivery ∈ s.workers[i].deliveries :=
    List.mem_append_right _ (List.mem_map_of_mem (List.mem_of_getElem? hj))
  obtain ⟨a, body, happ, t', now, hdec⟩ := hsrc.deliveries _ (List.mem_of_getElem? hw) _ hd
  refine ⟨_, hjob, a, body, happ, ?_⟩
  cases henq.appended _ a body happ.mem with
  | @enqueue n c hc hkey =>
    refine .inr ⟨n, c, rfl, hc, (t.streamKey_injective hkey).symm, ?_⟩
    rw [RedisStreamTransport.decodeEntry_jobBody] at hdec
    rw [← Decoded.job.inj hdec]
    exact RawJob.typed?_ofJob _
  | deadLetter hkey => exact absurd hkey (t.streamKey_ne_dlqKey _ _)
  | foreign => exact .inl rfl

/-- The job of a handler call is what was enqueued, or a writer outside the code left the entry. -/
theorem Run.handled (hrun : Run t init s) {ev : Event} (hev : ev ∈ s.world.log) {i j e : Nat}
    {q : String} {job : Job} {timeout : Seconds} (ha : ev.actor = .executor i j q e)
    (hop : ev.op = .handler job timeout) :
    ∃ a body, s.world.AppendedBy (t.streamKey q) e a body ∧
      (a = .foreign ∨ ∃ n c, a = .enqueuer n ∧ s.pool.procs[n]? = some c ∧
        c.info.args.job.queue = q ∧ c.info.args.keyedJob = job) := by
  obtain ⟨job?, hjob, a, body, happ, hsrc⟩ := hrun.source hev ha
  rw [hop] at hjob
  obtain rfl : job? = some job := hjob
  refine ⟨a, body, happ, hsrc.imp_right ?_⟩
  rintro ⟨n, c, rfl, hc, hqueue, heq⟩
  exact ⟨n, c, rfl, hc, hqueue, (Option.some.inj heq).symm⟩

/-- **Handlers run on what was enqueued, and at most once for each call**: in every run, whatever
crashes, fails or is claimed by recovery, a handler call is with the very job of a call of `enqueue`
on the queue, or what a writer outside the code left; and no two handler calls go back to one call of
`enqueue`. -/
theorem handledAsEnqueued (hrun : Run t init s) :
    (∀ ev ∈ s.world.log, ∀ i j q e job timeout, ev.actor = .executor i j q e →
      ev.op = .handler job timeout → ∃ a body, s.world.AppendedBy (t.streamKey q) e a body ∧
        (a = .foreign ∨ ∃ n c, a = .enqueuer n ∧ s.pool.procs[n]? = some c ∧
          c.info.args.job.queue = q ∧ c.info.args.keyedJob = job)) ∧
    ∀ n, s.world.log.Pairwise fun ev ev' => ¬ (s.HandlesFor t n ev ∧ s.HandlesFor t n ev') := by
  obtain ⟨-, -, henq, -⟩ := hrun.sourced
  refine ⟨fun ev hev i j q e job timeout ha hop => hrun.handled hev ha hop, fun n => ?_⟩
  refine List.pairwise_iff_getElem.mpr fun m m' hm hm' hlt hboth => ?_
  obtain ⟨⟨i, j, q, e, job, timeout, body, ha, hop, happ⟩,
    i', j', q', e', job', timeout', body', ha', hop', happ'⟩ := hboth
  obtain ⟨rfl, rfl⟩ := henq.entry_unique happ happ'
  -- the handler of this entry is called once
  have hstages := List.pairwise_iff_getElem.mp (World.pairwise_log (hrun.stages q e)) m m' hm hm' hlt
  have hlt := hstages (by simp [ha, Actor.executes]) (by simp [ha', Actor.executes]) 1
    (by simp [stageKind, rankKind, hop, Op.stage]) 1
    (by simp [stageKind, rankKind, hop', Op.stage])
  exact absurd hlt (Nat.lt_irrefl 1)

end Sys

/-- A handler that runs on a job that was enqueued. -/
theorem Sys.handledAsEnqueued_called : ∃ (s : Sys) (ev : Event) (timeout : Seconds),
    ev ∈ s.world.log ∧ ev.actor = .executor 0 0 "default" 1 ∧
    ev.op = .handler Sample.job timeout ∧
    (∃ a body, s.world.AppendedBy (Sample.transport.streamKey "default") 1 a body ∧
      (a = .foreign ∨ ∃ n c, a = .enqueuer n ∧ s.pool.procs[n]? = some c ∧
        c.info.args.job.queue = "default" ∧ c.info.args.keyedJob = Sample.job)) ∧
    s.world.log.Pairwise fun ev ev' => ¬ (s.HandlesFor Sample.transport 0 ev ∧
      s.HandlesFor Sample.transport 0 ev') := by
  obtain ⟨⟨pool, workers⟩, hs, rfl, -⟩ := Sample.exists_polled "1"
  have hrun : Sys.Run Sample.transport Sys.init ⟨pool, [Sample.polled "1"]⟩ :=
    hs.mono fun _ l hl => hl.1
  -- the task is created, started, reads the clock and runs its handler
  obtain ⟨s, hs', ev, hev, ha, hop⟩ : ∃ s : Sys,
      Sys.Run Sample.transport ⟨pool, [Sample.polled "1"]⟩ s ∧ ∃ ev ∈ s.world.log,
        ev.actor = .executor 0 0 "default" 1 ∧ ev.op = .handler Sample.job ⟨300, "300.0"⟩ :=
    ⟨_, .tail (l := .worker 0 (.task 0 (.ran ⟨.empty, none⟩)))
      (.tail (l := .worker 0 (.task 0 (.ok 0))) (.tail (l := .worker 0 (.startTask 0))
        (.single (l := .worker 0 .acquire) trivial rfl) trivial rfl) trivial rfl) trivial rfl,
      _, List.mem_cons_self, rfl, rfl⟩
  obtain ⟨hjobs, honce⟩ := Sys.handledAsEnqueued (hrun.trans hs')
  exact ⟨s, ev, _, hev, ha, hop, hjobs ev hev 0 0 "default" 1 _ _ ha hop, honce 0⟩

end RelayQ

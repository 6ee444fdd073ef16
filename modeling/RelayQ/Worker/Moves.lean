import RelayQ.Worker.Runner

/-! # What one worker step can do

Invariants of workers are proved over what a step does, not over the code of the steps.

* `Worker.Act`: each kind of step, with what it is made from and what it leaves;
  `Worker.act_of_step` is the inversion of a step.
* `Worker.Move`: what steps do to the world, the job tasks, the permits and the batch in hand, with the
  calls they make; `Worker.Act.move` shows that every step is one of them. -/

namespace RelayQ

namespace LoopPc

/-- The loop has its consumer group and has not left. -/
def ready : LoopPc → Bool
  | checking | polling | sleeping _ | acquiring _ _ => true
  | _ => false

/-- The deliveries the loop has read and not spawned a task for. -/
def batch : LoopPc → List Delivery
  | acquiring d rest => d :: rest
  | _ => []

end LoopPc

namespace TaskPc

/-- The state a task is left in by the program it continues with. -/
def after (p : Py Unit) : TaskPc :=
  match p.outcome with
  | none => .running p
  | some _ => .ended

end TaskPc

namespace Actor

/-- It is the loop, the recovery task or a job task of the worker. -/
def ofWorker (me : Nat) : Actor → Bool
  | runner i | recovery i | executor i _ _ _ => i = me
  | _ => false

/-- Who is not of a worker is none of its job tasks. -/
theorem ne_executor_of {me : Nat} {a : Actor} (h : a.ofWorker me = false) (j : Nat) (q : String)
    (e : Nat) : a ≠ executor me j q e := by
  rintro rfl
  simp [ofWorker] at h

end Actor

namespace Worker

variable (w : Worker)

/-- Some task is not over. -/
def busy : Bool := w.tasks.any fun t => !t.pc.isOver

/-- At the head there is no batch. -/
@[simp] theorem headPc_batch : w.headPc.batch = [] := by
  unfold headPc; split <;> [rfl; (split <;> rfl)]

/-- After a poll there is what it returned. -/
@[simp] theorem batchPc_batch (ds : List Delivery) : (w.batchPc ds).batch = ds := by
  cases ds with
  | nil => exact headPc_batch w
  | cons d rest => rfl

/-- A check brings no deliveries. -/
@[simp] theorem afterCheck_batch (now : Nat) (out : Except PyExc Unit) :
    (afterCheck now out).batch = [] := by
  unfold afterCheck
  split
  · rfl
  · split <;> rfl

/-- A task goes on or ends in its place. -/
@[simp] theorem settle_tasks (i : Nat) (p : Py Unit) :
    (w.settle i p).tasks = (w.setTask i (.after p)).tasks := by
  unfold settle TaskPc.after
  cases p.outcome <;> rfl

/-- A task that ends gives its permit back. -/
@[simp] theorem settle_permits (i : Nat) (p : Py Unit) :
    (w.settle i p).permits = w.permits + if p.outcome.isSome then 1 else 0 := by
  unfold settle
  cases p.outcome <;> rfl

/-- The loop stays where it is. -/
@[simp] theorem settle_loop (i : Nat) (p : Py Unit) : (w.settle i p).loop = w.loop := by
  unfold settle
  cases p.outcome <;> rfl

/-- The worker runs the same runner. -/
@[simp] theorem settle_runner (i : Nat) (p : Py Unit) : (w.settle i p).runner = w.runner := by
  unfold settle
  cases p.outcome <;> rfl

/-- It lives on. -/
@[simp] theorem settle_alive (i : Nat) (p : Py Unit) : (w.settle i p).alive = w.alive := by
  unfold settle
  cases p.outcome <;> rfl

/-- It runs at the same site. -/
@[simp] theorem settle_site (i : Nat) (p : Py Unit) : (w.settle i p).site = w.site := by
  unfold settle
  cases p.outcome <;> rfl

/-- The steps of a worker, one by one. -/
inductive Act [Codec] (me : Nat) (w : Worker) (s : World) : WorkerLabel → World → Worker → Prop
  /-- `ensure_group` is answered. -/
  | ensure {ans : Answer} {now : DateTime} {s' : World} {out : Except PyExc Unit} :
      w.loop = .ensuring →
      relay.await s w.site (.runner me) (w.runner.transport.ensureGroup w.runner.queue) ans =
        some (s', out) →
      Act me w s (.loop ans now) s' (w.afterEnsure out)
  /-- `admission.check` is answered. -/
  | check {ans : Answer} {now : DateTime} {c : AdmissionController} {s' : World}
      {out : Except PyExc Unit} : w.loop = .checking → w.runner.admission = some c →
      relay.await s w.site (.runner me) (c.check w.runner.queue) ans = some (s', out) →
      Act me w s (.loop ans now) s' { w with loop := afterCheck s.now out }
  /-- `read_group` is answered. -/
  | poll {ans : Answer} {now : DateTime} {s' : World} {out : Except PyExc (List Delivery)} :
      w.loop = .polling →
      relay.await s w.site (.runner me) (w.runner.transport.readGroup w.runner.queue
        w.runner.workerId w.runner.pollBatch w.runner.pollTimeoutMs now) ans = some (s', out) →
      Act me w s (.loop ans now) s' { w with loop := w.afterPoll s.now out }
  /-- The loop wakes. -/
  | wake {wakeAt : Nat} : w.loop = .sleeping wakeAt → wakeAt ≤ s.now →
      Act me w s .wake s { w with loop := w.headPc }
  /-- The first delivery of the batch gets a permit and a task. -/
  | acquire {d : Delivery} {rest : List Delivery} : w.loop = .acquiring d rest → 0 < w.permits →
      Act me w s .acquire s (w.spawnTask d rest)
  /-- A cancellation ends the loop. -/
  | leave : ((∃ wakeAt, w.loop = .sleeping wakeAt) ∨ ∃ d rest, w.loop = .acquiring d rest) →
      Act me w s .cancelLoop s { w with loop := .joining }
  /-- A cancellation ends the drain. -/
  | abandon {ts : List Nat} {deadline : Nat} :
      w.loop = .draining ts deadline ∨ w.loop = .cancelling ts deadline →
      Act me w s .cancelLoop s { w with loop := .stopped }
  /-- A task takes its first step. -/
  | start {i : Nat} {d : Delivery} : w.tasks[i]? = some ⟨d, .created⟩ →
      Act me w s (.startTask i) s (w.settle i (w.runner.processJob d))
  /-- The call of a task is answered. -/
  | task {i : Nat} {d : Delivery} {p p' : Py Unit} {ans : Answer} {s' : World} :
      w.tasks[i]? = some ⟨d, .running p⟩ →
      relay.step s w.site (.executor me i w.runner.queue d.entryId) p ans = some (s', p') →
      Act me w s (.task i ans) s' (w.settle i p')
  /-- A task is cancelled unstarted. -/
  | cancelTask {i : Nat} {d : Delivery} : w.tasks[i]? = some ⟨d, .created⟩ →
      Act me w s (.cancelTask i) s (w.setTask i .ended)
  /-- The callback of a task runs. -/
  | callback {i : Nat} {d : Delivery} : w.tasks[i]? = some ⟨d, .ended⟩ →
      Act me w s (.callback i) s (w.setTask i .discarded)
  /-- The claim of the recovery task is answered. -/
  | claim {ans : Answer} {now : DateTime} {c : RecoveryWorker} {s' : World}
      {out : Except PyExc Unit} : w.recovery = .claiming → w.runner.recovery = some c →
      relay.await s w.site (.recovery me) (c.claimStale w.runner.queue now) ans = some (s', out) →
      Act me w s (.recovery ans now) s' { w with recovery := afterClaim s.now out }
  /-- The recovery task wakes. -/
  | wakeRecovery {wakeAt : Nat} : w.recovery = .sleeping wakeAt → wakeAt ≤ s.now →
      Act me w s .wakeRecovery s { w with recovery := .claiming }
  /-- The recovery task is cancelled. -/
  | cancelRecovery {wakeAt : Nat} : w.recovery = .sleeping wakeAt →
      Act me w s .cancelRecovery s { w with recovery := .ended }
  /-- Shutdown is requested. -/
  | requestShutdown : Act me w s .requestShutdown s { w with shutdown := true }
  /-- The recovery task is joined, and the drain begins if there is something to drain. -/
  | join : w.loop = .joining → w.recovery = .ended →
      Act me w s .drain s { w with loop := if w.inflight = [] then .stopped
                                           else .draining w.inflight (s.now + 30000) }
  /-- The drain is over. -/
  | drained {ts : List Nat} {deadline : Nat} : w.loop = .draining ts deadline →
      ts.all w.taskOver = true → Act me w s .drain s { w with loop := .stopped }
  /-- The time of the drain is up. -/
  | timeUp {ts : List Nat} {deadline : Nat} : w.loop = .draining ts deadline →
      ¬ ts.all w.taskOver = true → deadline ≤ s.now → Act me w s .drain s
        { w with loop := .cancelling (ts.filter fun i => !w.taskOver i) (s.now + 5000) }
  /-- The cancelled rest is over, or its time is up. -/
  | lapse {ts : List Nat} {deadline : Nat} : w.loop = .cancelling ts deadline →
      ts.all w.taskOver ∨ deadline ≤ s.now → Act me w s .drain s { w with loop := .stopped }

/-- The effects of a worker step. -/
inductive Move [Codec] (me : Nat) (w : Worker) (s : World) : World → Worker → Prop
  /-- The loop gets on without a call; it may drop its batch. -/
  | loop {pc : LoopPc} : pc.batch ⊆ w.loop.batch → (pc.ready = true → w.loop.ready = true) →
      Move me w s s { w with loop := pc }
  /-- The recovery task gets on without a call. -/
  | recovery {rc : RecoveryPc} : Move me w s s { w with recovery := rc }
  /-- Shutdown is requested. -/
  | shutdown : Move me w s s { w with shutdown := true }
  /-- The loop makes sure that the group exists. -/
  | ensure {pc : LoopPc} {rc : RecoveryPc} {ans : Answer} {s' : World} {r : Except PyExc Unit} :
      s.exec w.site (.runner me) (.redis (.xgroupCreate (w.runner.transport.streamKey w.runner.queue)
        (w.runner.transport.groupKey w.runner.queue) 0)) ans = some (s', r) →
      pc.batch = [] →
      (pc.ready = true → r = .ok () ∨ ∃ msg, r = .error (.responseError msg)) →
      Move me w s s' { w with recovery := rc, loop := pc }
  /-- The admission check reads the length. -/
  | check {pc : LoopPc} {c : AdmissionController} {ans : Answer} {s' : World}
      {r : Except PyExc Nat} : w.runner.admission = some c → w.loop = .checking →
      s.exec w.site (.runner me) (.redis (.xlen (c.transport.streamKey w.runner.queue))) ans =
        some (s', r) →
      pc.batch = [] → Move me w s s' { w with loop := pc }
  /-- The loop polls; its new batch is decoded from the reply. -/
  | poll {pc : LoopPc} {ans : Answer} (now : DateTime) {s' : World}
      {r : Except PyExc (List (String × List (Redis.Entry Body)))} : w.loop = .polling →
      s.exec w.site (.runner me) (.redis (.xreadgroup
        (w.runner.transport.groupKey w.runner.queue)
        (RedisStreamTransport.consumerName w.runner.workerId)
        (w.runner.transport.streamKey w.runner.queue) w.runner.pollBatch w.runner.pollTimeoutMs))
        ans = some (s', r) →
      (∀ d ∈ pc.batch, ∃ results ds, r = .ok results ∧
        w.runner.transport.decodeReply now results = .ok ds ∧ d ∈ ds) →
      Move me w s s' { w with loop := pc }
  /-- The recovery task claims. -/
  | claim {rc : RecoveryPc} {c : RecoveryWorker} {ans : Answer} {s' : World}
      {r : Except PyExc (Nat × List (Redis.Entry Body))} : w.runner.recovery = some c →
      s.exec w.site (.recovery me) (.redis (.xautoclaim (c.transport.streamKey w.runner.queue)
        (c.transport.groupKey w.runner.queue) (RedisStreamTransport.consumerName c.workerId)
        c.minIdleMs 0 c.claimBatch)) ans = some (s', r) →
      Move me w s s' { w with recovery := rc }
  /-- The loop spawns a task for the first delivery of its batch. -/
  | spawn {d : Delivery} {rest : List Delivery} : w.loop = .acquiring d rest →
      0 < w.permits → Move me w s s (w.spawnTask d rest)
  /-- A task takes its first step. -/
  | start {i : Nat} {d : Delivery} : w.tasks[i]? = some ⟨d, .created⟩ →
      Move me w s s (w.settle i (w.runner.processJob d))
  /-- The call of a task is answered. -/
  | task {i : Nat} {d : Delivery} {o : Op} {k : Except PyExc o.Res → Py Unit} {ans : Answer}
      {s' : World} {r : Except PyExc o.Res} : w.tasks[i]? = some ⟨d, .running (.call o k)⟩ →
      s.exec w.site (.executor me i w.runner.queue d.entryId) o ans = some (s', r) →
      Move me w s s' (w.settle i (k r))
  /-- A task ends unstarted, or its callback runs. -/
  | retire {i : Nat} {d : Delivery} {pc pc' : TaskPc} : w.tasks[i]? = some ⟨d, pc⟩ →
      (pc = .created ∨ pc = .ended) → pc'.isOver = true → Move me w s s (w.setTask i pc')

variable {w : Worker} [Codec]

/-- When a call of the loop is answered, it is the one the loop awaits. -/
theorem act_of_stepLoop {me : Nat} {s s' : World} {ans : Answer} {now : DateTime} {w' : Worker}
    (h : w.stepLoop me s ans now = some (s', w')) : Act me w s (.loop ans now) s' w' := by
  simp only [stepLoop] at h
  split at h
  · rename_i hloop
    obtain ⟨⟨s₁, out⟩, haw, heq⟩ := Option.map_eq_some_iff.mp h
    obtain ⟨rfl, rfl⟩ := Prod.mk.inj heq
    exact .ensure hloop haw
  · rename_i hloop
    split at h
    · rename_i c hc
      obtain ⟨⟨s₁, out⟩, haw, heq⟩ := Option.map_eq_some_iff.mp h
      obtain ⟨rfl, rfl⟩ := Prod.mk.inj heq
      exact .check hloop hc haw
    · cases h
  · rename_i hloop
    obtain ⟨⟨s₁, out⟩, haw, heq⟩ := Option.map_eq_some_iff.mp h
    obtain ⟨rfl, rfl⟩ := Prod.mk.inj heq
    exact .poll hloop haw
  · cases h

/-- The end of `run` gets on in one of four ways. -/
theorem act_of_stepDrain {me : Nat} {s : World} {w' : Worker} (h : w.stepDrain s = some w') :
    Act me w s .drain s w' := by
  simp only [stepDrain] at h
  split at h
  · rename_i hloop hrec
    obtain rfl := Option.some.inj h
    exact .join hloop hrec
  · rename_i hloop
    split at h
    · rename_i hover
      obtain rfl := Option.some.inj h
      exact .drained hloop hover
    · rename_i hopen
      obtain ⟨hlate, h⟩ := Option.ite_none_right_eq_some.mp h
      obtain rfl := Option.some.inj h
      exact .timeUp hloop hopen hlate
  · rename_i hloop
    obtain ⟨hover, h⟩ := Option.ite_none_right_eq_some.mp h
    obtain rfl := Option.some.inj h
    exact .lapse hloop hover
  · cases h

/-- The steps of the job tasks. -/
theorem act_of_stepTask {me i : Nat} {s s' : World} {ans : Answer} {w' : Worker}
    (h : w.stepTask me s i ans = some (s', w')) : Act me w s (.task i ans) s' w' := by
  simp only [stepTask] at h
  split at h
  · rename_i hi
    obtain ⟨⟨s₁, p'⟩, hp, heq⟩ := Option.map_eq_some_iff.mp h
    obtain ⟨rfl, rfl⟩ := Prod.mk.inj heq
    exact .task hi hp
  · cases h

/-- A task that starts was created. -/
theorem act_of_stepStart {me i : Nat} {s : World} {w' : Worker} (h : w.stepStart i = some w') :
    Act me w s (.startTask i) s w' := by
  simp only [stepStart] at h
  split at h
  · rename_i hi
    obtain rfl := Option.some.inj h
    exact .start hi
  · cases h

/-- So was one that is cancelled unstarted. -/
theorem act_of_stepCancelTask {me i : Nat} {s : World} {w' : Worker}
    (h : w.stepCancelTask i = some w') : Act me w s (.cancelTask i) s w' := by
  simp only [stepCancelTask] at h
  split at h
  · rename_i hi
    obtain rfl := Option.some.inj h
    exact .cancelTask hi
  · cases h

/-- A task whose callback runs has ended. -/
theorem act_of_stepCallback {me i : Nat} {s : World} {w' : Worker} (h : w.stepCallback i = some w') :
    Act me w s (.callback i) s w' := by
  simp only [stepCallback] at h
  split at h
  · rename_i hi
    obtain rfl := Option.some.inj h
    exact .callback hi
  · cases h

/-- The recovery task that is answered was claiming. -/
theorem act_of_stepRecovery {me : Nat} {s s' : World} {ans : Answer} {now : DateTime} {w' : Worker}
    (h : w.stepRecovery me s ans now = some (s', w')) : Act me w s (.recovery ans now) s' w' := by
  simp only [stepRecovery] at h
  split at h
  · rename_i hrec hc
    obtain ⟨⟨s₁, out⟩, haw, heq⟩ := Option.map_eq_some_iff.mp h
    obtain ⟨rfl, rfl⟩ := Prod.mk.inj heq
    exact .claim hrec hc haw
  · cases h

/-- **Inversion of a worker step.** -/
theorem act_of_step {me : Nat} {s s' : World} {l : WorkerLabel} {w' : Worker}
    (h : w.step me s l = some (s', w')) : Act me w s l s' w' := by
  -- a step that leaves the world alone
  have hpure : ∀ {o : Option Worker}, o.map (fun w' => (s, w')) = some (s', w') →
      o = some w' ∧ s' = s := by
    intro o ho
    obtain ⟨w₁, hs, heq⟩ := Option.map_eq_some_iff.mp ho
    obtain ⟨rfl, rfl⟩ := Prod.mk.inj heq
    exact ⟨hs, rfl⟩
  cases l with
  | loop ans now => exact act_of_stepLoop h
  | wake =>
    simp only [step] at h
    split at h
    · rename_i hloop
      obtain ⟨hlate, h⟩ := Option.ite_none_right_eq_some.mp h
      obtain ⟨rfl, rfl⟩ := Prod.mk.inj (Option.some.inj h)
      exact .wake hloop hlate
    · cases h
  | acquire =>
    simp only [step] at h
    split at h
    · rename_i hloop
      obtain ⟨hperm, h⟩ := Option.ite_none_right_eq_some.mp h
      obtain ⟨rfl, rfl⟩ := Prod.mk.inj (Option.some.inj h)
      exact .acquire hloop hperm
    · cases h
  | cancelLoop =>
    simp only [step] at h
    split at h
    · rename_i hloop
      obtain ⟨rfl, rfl⟩ := Prod.mk.inj (Option.some.inj h)
      exact .leave (.inl ⟨_, hloop⟩)
    · rename_i hloop
      obtain ⟨rfl, rfl⟩ := Prod.mk.inj (Option.some.inj h)
      exact .leave (.inr ⟨_, _, hloop⟩)
    · rename_i hloop
      obtain ⟨rfl, rfl⟩ := Prod.mk.inj (Option.some.inj h)
      exact .abandon (.inl hloop)
    · rename_i hloop
      obtain ⟨rfl, rfl⟩ := Prod.mk.inj (Option.some.inj h)
      exact .abandon (.inr hloop)
    · cases h
  | startTask i =>
    obtain ⟨hs, rfl⟩ := hpure h
    exact act_of_stepStart hs
  | task i ans => exact act_of_stepTask h
  | cancelTask i =>
    obtain ⟨hs, rfl⟩ := hpure h
    exact act_of_stepCancelTask hs
  | callback i =>
    obtain ⟨hs, rfl⟩ := hpure h
    exact act_of_stepCallback hs
  | recovery ans now => exact act_of_stepRecovery h
  | wakeRecovery =>
    simp only [step] at h
    split at h
    · rename_i hrec
      obtain ⟨hlate, h⟩ := Option.ite_none_right_eq_some.mp h
      obtain ⟨rfl, rfl⟩ := Prod.mk.inj (Option.some.inj h)
      exact .wakeRecovery hrec hlate
    · cases h
  | cancelRecovery =>
    simp only [step] at h
    split at h
    · rename_i hrec
      obtain ⟨rfl, rfl⟩ := Prod.mk.inj (Option.some.inj h)
      exact .cancelRecovery hrec
    · cases h
  | requestShutdown =>
    obtain ⟨rfl, rfl⟩ := Prod.mk.inj (Option.some.inj h)
    exact .requestShutdown
  | drain =>
    obtain ⟨hs, rfl⟩ := hpure h
    exact act_of_stepDrain hs

/-- `ensure_group` is one command, and the loop is entered only with the group there. -/
theorem move_ensure {me : Nat} {s s' : World} {ans : Answer} {out : Except PyExc Unit}
    (haw : relay.await s w.site (.runner me) (w.runner.transport.ensureGroup w.runner.queue) ans =
      some (s', out)) : Move me w s s' (w.afterEnsure out) := by
  obtain ⟨r, hx, hr⟩ := RedisStreamTransport.await_ensureGroup haw
  cases out with
  | ok u => exact .ensure hx (headPc_batch w) fun _ => hr rfl
  | error e =>
    have hw : w.afterEnsure (.error e) = { w with recovery := w.recovery, loop := .stopped } := rfl
    exact hw ▸ .ensure hx rfl (by simp [LoopPc.ready])

/-- A poll that asks for nothing is refused; any other is one command, and decodes its reply. -/
theorem move_poll {me : Nat} {s s' : World} {ans : Answer} {now : DateTime}
    {out : Except PyExc (List Delivery)} (hloop : w.loop = .polling)
    (haw : relay.await s w.site (.runner me) (w.runner.transport.readGroup w.runner.queue
      w.runner.workerId w.runner.pollBatch w.runner.pollTimeoutMs now) ans = some (s', out)) :
    Move me w s s' { w with loop := w.afterPoll s.now out } := by
  rcases RedisStreamTransport.await_readGroup haw with ⟨-, ⟨e, rfl, he⟩, rfl⟩ | ⟨-, r, hx, hr⟩
  · refine .loop ?_ fun _ => by rw [hloop]; rfl
    simp [afterPoll, he, pausePc, LoopPc.batch]
  · refine .poll now hloop hx fun d hd => ?_
    cases out with
    | error e =>
      simp only [afterPoll] at hd
      split at hd <;> cases hd
    | ok ds =>
      obtain ⟨results, hres, hdec⟩ := hr ds rfl
      exact ⟨results, ds, hres, hdec, by simpa [afterPoll] using hd⟩

/-- The loop is left, or its end gets on. -/
theorem move_leave {me : Nat} {s : World} {pc : LoopPc} (hb : pc.batch = [])
    (hr : pc.ready = false) : Move me w s s { w with loop := pc } :=
  .loop (by simp [hb]) (by simp [hr])

/-- **Every step is a move.** -/
theorem Act.move {me : Nat} {s s' : World} {l : WorkerLabel} {w' : Worker}
    (ha : Act me w s l s' w') : Move me w s s' w' := by
  cases ha with
  | ensure _ haw => exact move_ensure haw
  | check hloop hc haw =>
    obtain ⟨r, hx, -⟩ := AdmissionController.await_check haw
    exact .check hc hloop hx (afterCheck_batch _ _)
  | poll hloop haw => exact move_poll hloop haw
  | wake hloop _ => exact .loop (by simp) fun _ => by rw [hloop]; rfl
  | acquire hloop hperm => exact .spawn hloop hperm
  | leave _ => exact move_leave rfl rfl
  | start hi => exact .start hi
  | task hi hp =>
    obtain ⟨o, k, r, rfl, hx, rfl⟩ := Machine.step_eq_some.mp hp
    exact .task hi hx
  | cancelTask hi => exact .retire hi (.inl rfl) rfl
  | callback hi => exact .retire hi (.inr rfl) rfl
  | claim _ hc haw =>
    obtain ⟨r, hx⟩ := RecoveryWorker.await_claimStale haw
    exact .claim hc hx
  | wakeRecovery _ _ | cancelRecovery _ => exact .recovery
  | requestShutdown => exact .shutdown
  | join _ _ => exact move_leave (by split <;> rfl) (by split <;> rfl)
  | abandon _ | drained _ _ | timeUp _ _ _ | lapse _ _ => exact move_leave rfl rfl

/-- What a step of a worker does. -/
theorem step_move {me : Nat} {s s' : World} {l : WorkerLabel} {w' : Worker}
    (h : w.step me s l = some (s', w')) : Move me w s s' w' :=
  (act_of_step h).move

/-- A step changes neither the configuration of a worker nor whether it lives. -/
theorem Move.frame {me : Nat} {s s' : World} {w' : Worker} (h : Move me w s s' w') :
    w'.runner = w.runner ∧ w'.site = w.site ∧ w'.alive = w.alive := by
  cases h <;> simp [spawnTask, setTask]

/-- The event a move adds to the record, if it adds one, is of the worker. -/
theorem Move.record {me : Nat} {s s' : World} {w' : Worker} (hm : Move me w s s' w') :
    s'.log = s.log ∨ ∃ ev, s'.log = ev :: s.log ∧ (ev.actor = .runner me ∨
      ev.actor = .recovery me ∨ ∃ (j : Nat) (tk : Task), w.tasks[j]? = some tk ∧
        ev.actor = .executor me j w.runner.queue tk.delivery.entryId) := by
  have hlog : ∀ {a : Actor} {o : Op} {ans : Answer} {r : Except PyExc o.Res},
      s.exec w.site a o ans = some (s', r) → ∃ ev, s'.log = ev :: s.log ∧ ev.actor = a := by
    intro a o ans r hx
    obtain ⟨applied, evicted, hlog⟩ := World.exec_log hx
    exact ⟨_, hlog, rfl⟩
  cases hm with
  | loop | recovery | shutdown | spawn | start | retire => exact .inl rfl
  | ensure hx _ _ | check _ _ hx _ | poll _ _ hx _ =>
    obtain ⟨ev, hev, ha⟩ := hlog hx
    exact .inr ⟨ev, hev, .inl ha⟩
  | claim _ hx =>
    obtain ⟨ev, hev, ha⟩ := hlog hx
    exact .inr ⟨ev, hev, .inr (.inl ha)⟩
  | task hi hx =>
    obtain ⟨ev, hev, ha⟩ := hlog hx
    exact .inr ⟨ev, hev, .inr (.inr ⟨_, _, hi, ha⟩)⟩

end Worker

end RelayQ

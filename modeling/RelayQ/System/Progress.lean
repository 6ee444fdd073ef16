import RelayQ.Infrastructure.StreamRuns
import RelayQ.System.Wiring

/-! # What the program can do on its own

Time passes and workers get on, no call fails, nobody cancels anything, asks for a shutdown, starts
a process or adds a job: these are the program's own steps, and what they can lead to is what the
program can be expected to do.

* `SysLabel.own`, `Sys.Continues`: the steps and their runs; `Sys.ClosedRun`: runs of the code alone.
* `Worker.loop_of_own`: what a worker's own step does to its loop.
* `Sys.Continues.entries`: they leave what the streams of the queues hold as it is.
* `Sys.exists_permit`, `Sys.exists_spawn`: a task can be driven to its end, which frees a permit, and
  a batch in hand can be turned into tasks.
* `Sys.exists_head`: a worker gets to the head of its loop.
* `Sample.exists_poll`, `Sample.exists_polled`: a poll that brings jobs, and a run that ends with one. -/

namespace RelayQ

/-- Nobody interferes, and no call fails. -/
def WorkerLabel.own : WorkerLabel → Bool
  | .loop ans _ | .task _ ans | .recovery ans _ => ans.faultless
  | .wake | .acquire | .startTask _ | .callback _ | .wakeRecovery | .drain => true
  | .cancelLoop | .cancelTask _ | .cancelRecovery | .requestShutdown => false

/-- A step the program takes on its own. -/
def SysLabel.own : SysLabel → Bool
  | .pool (.env (.tick _)) => true
  | .worker _ l => l.own
  | _ => false

/-- No time passes, and no task gets on. -/
def SysLabel.quiet : SysLabel → Bool
  | .pool (.env (.tick _)) | .worker _ (.startTask _) | .worker _ (.task _ _)
  | .worker _ (.cancelTask _) => false
  | _ => true

/-- Nobody outside the code writes. -/
def SysLabel.closed : SysLabel → Bool
  | .pool (.env (.foreign _ _)) => false
  | _ => true

/-- A run in which nobody outside the code writes. -/
def Sys.ClosedRun [Codec] (t : RedisStreamTransport) : Sys → Sys → Prop :=
  Reaches step fun _ l => l.uses t.streamPrefix ∧ l.closed = true

/-- It is a run. -/
theorem Sys.ClosedRun.run [Codec] {t : RedisStreamTransport} {s s' : Sys} (h : ClosedRun t s s') :
    Run t s s' :=
  Reaches.mono (fun _ _ hl => hl.1) h

namespace Worker

/-- Every task that runs waits for an answer. -/
def Suspended (w : Worker) : Prop := ∀ d p, ⟨d, .running p⟩ ∈ w.tasks → p.outcome = none

/-- The loop waits where it did, and what it goes by is the same. -/
structure Beside (w w' : Worker) : Prop where
  runner : w'.runner = w.runner
  alive : w'.alive = w.alive
  loop : w'.loop = w.loop
  shutdown : w'.shutdown = w.shutdown

/-- What a task goes on with is suspended, if it goes on. -/
theorem Suspended.settle {w : Worker} (h : w.Suspended) (i : Nat) (p : Py Unit) :
    (w.settle i p).Suspended := by
  intro d q hq
  rw [settle_tasks] at hq
  rcases mem_setTask hq with hq | ⟨d₀, pc₀, -, heq⟩
  · exact h d q hq
  · obtain ⟨-, hpc⟩ := Task.mk.inj heq
    unfold TaskPc.after at hpc
    split at hpc
    · rename_i hout
      cases hpc
      exact hout
    · cases hpc

/-- A task that goes on or ends leaves the loop alone. -/
theorem beside_settle (w : Worker) (i : Nat) (p : Py Unit) : w.Beside (w.settle i p) :=
  ⟨settle_runner w i p, settle_alive w i p, settle_loop w i p, by
    unfold Worker.settle; split <;> rfl⟩

/-- Twice beside is beside. -/
theorem Beside.trans {w₁ w₂ w₃ : Worker} (h : w₁.Beside w₂) (h' : w₂.Beside w₃) : w₁.Beside w₃ :=
  ⟨h'.runner.trans h.runner, h'.alive.trans h.alive, h'.loop.trans h.loop,
    h'.shutdown.trans h.shutdown⟩

/-- A task that is over does not make its worker busy. -/
theorem busy_of_setTask {w : Worker} {j : Nat} {pc : TaskPc} (hpc : pc.isOver = true)
    (h : (w.setTask j pc).busy = true) : w.busy = true := by
  obtain ⟨tk, htk, hover⟩ := List.any_eq_true.mp h
  rcases mem_setTask htk with htk | ⟨d, pc₀, -, rfl⟩
  · exact List.any_eq_true.mpr ⟨tk, htk, hover⟩
  · simp [hpc] at hover

/-- A worker with a task that is not over is busy. -/
theorem busy_of_getElem? {w : Worker} {j : Nat} {tk : Task} (h : w.tasks[j]? = some tk)
    (hpc : tk.pc.isOver = false) : w.busy = true :=
  List.any_eq_true.mpr ⟨tk, List.mem_of_getElem? h, by simp [hpc]⟩

/-- **Inversion of a worker's own step, as its loop sees it**: the step is beside the loop, answers its
call, wakes it, gives its next delivery to a task, or leads it to its end. -/
theorem loop_of_own [Codec] {w w' : Worker} {me : Nat} {s s' : World} {l : WorkerLabel}
    (hown : l.own = true) (hx : w.step me s l = some (s', w')) :
    w.Beside w' ∧ (0 < w'.permits ∨ w'.busy = true → 0 < w.permits ∨ w.busy = true) ∨
    (∃ ans now, l = .loop ans now) ∨
    (∃ wakeAt, w.loop = .sleeping wakeAt ∧ w' = { w with loop := w.headPc }) ∨
    (∃ d rest, w.loop = .acquiring d rest ∧ 0 < w.permits ∧ w' = w.spawnTask d rest) ∨
    ∃ pc, w' = { w with loop := pc } ∧ (pc = .stopped ∨ (∃ ts deadline, pc = .draining ts deadline) ∨
      ∃ ts deadline, pc = .cancelling ts deadline) := by
  cases act_of_step hx with
  | ensure | check | poll => exact .inr (.inl ⟨_, _, rfl⟩)
  | wake hloop => exact .inr (.inr (.inl ⟨_, hloop, rfl⟩))
  | acquire hloop hp => exact .inr (.inr (.inr (.inl ⟨_, _, hloop, hp, rfl⟩)))
  | start hi | task hi =>
    exact .inl ⟨w.beside_settle _ _, fun _ => .inr (busy_of_getElem? hi rfl)⟩
  | callback => exact .inl ⟨⟨rfl, rfl, rfl, rfl⟩, fun hp => hp.imp_right (busy_of_setTask rfl)⟩
  | claim | wakeRecovery => exact .inl ⟨⟨rfl, rfl, rfl, rfl⟩, id⟩
  | join =>
    refine .inr (.inr (.inr (.inr ⟨_, rfl, ?_⟩)))
    split
    · exact .inl rfl
    · exact .inr (.inl ⟨_, _, rfl⟩)
  | timeUp => exact .inr (.inr (.inr (.inr ⟨_, rfl, .inr (.inr ⟨_, _, rfl⟩)⟩)))
  | drained | lapse => exact .inr (.inr (.inr (.inr ⟨_, rfl, .inl rfl⟩)))
  | leave | abandon | cancelTask | cancelRecovery | requestShutdown => cases hown

/-- A move leaves the running tasks suspended. -/
theorem Suspended.move [Codec] {w w' : Worker} (h : w.Suspended) {me : Nat} {s s' : World}
    (hm : Move me w s s' w') : w'.Suspended := by
  cases hm with
  | loop | recovery | shutdown | ensure | check | poll | claim => exact h
  | spawn hloop hperm =>
    intro d p hp
    rcases List.mem_append.mp hp with hp | hp
    · exact h d p hp
    · simp at hp
  | start hi => exact h.settle _ _
  | task hi hx => exact h.settle _ _
  | retire hi hpc hover =>
    intro d p hp
    rcases mem_setTask hp with hp | ⟨d₁, pc₁, hi₁, heq⟩
    · exact h d p hp
    · obtain ⟨-, rfl⟩ := Task.mk.inj heq
      cases hover

end Worker

namespace Sys

variable [Codec] {s s' s'' : Sys} {i : Nat} {w w' : Worker} {t : RedisStreamTransport}

/-- `s'` is reached from `s` by steps the program takes on its own. -/
def Continues : Sys → Sys → Prop := Reaches step fun _ l => l.own = true

/-- Runs are continued one after the other. -/
theorem Continues.trans (h : s.Continues s') (h' : s'.Continues s'') : s.Continues s'' :=
  Reaches.trans h h'

/-- What the program does on its own brings in nothing new. -/
theorem Continues.run (h : s.Continues s') : Run t s s' :=
  Reaches.mono (fun _ l hl => by
    cases l with
    | pool pl => cases pl <;> trivial
    | spawn r site => cases hl
    | worker i wl => trivial) h

/-- The system some time later. -/
def later (s : Sys) (d : Nat) : Sys :=
  { s with pool := { s.pool with world := { s.world with now := s.world.now + d } } }

/-- Time can pass. -/
theorem continues_later (s : Sys) (d : Nat) : s.Continues (s.later d) :=
  Reaches.single (l := .pool (.env (.tick d))) rfl rfl

/-- A step of a living worker is a step of the system. -/
theorem step_worker {l : WorkerLabel} {world : World} (hw : s.workers[i]? = some w)
    (ha : w.alive = true) (hx : w.step i s.world l = some (world, w')) :
    s.step (.worker i l) = some ⟨{ s.pool with world := world }, s.workers.set i w'⟩ := by
  simp only [step, hw, ha, if_true, hx, Option.map_some]

/-- A step of a living worker, as one of the program's own. -/
theorem continues_worker {l : WorkerLabel} {world : World} (hl : l.own = true)
    (hw : s.workers[i]? = some w) (ha : w.alive = true)
    (hx : w.step i s.world l = some (world, w')) :
    ∃ s', s.Continues s' ∧ s'.workers[i]? = some w' ∧ s'.world = world :=
  ⟨_, Reaches.single (l := .worker i l) hl (step_worker hw ha hx),
    List.getElem?_set_self (List.getElem?_eq_some_iff.mp hw).1, rfl⟩

/-- **Rule for what every worker keeps**: it holds of a worker that starts, is not lost by dying, and is
preserved by every move. -/
theorem forall_workers_step {K : Worker → Prop} (hspawn : ∀ r site, K (WorkerRunner.spawn r site))
    (hdead : ∀ w, K w → K { w with alive := false })
    (hmove : ∀ {me w world world' w'}, K w → Worker.Move me w world world' w' → K w')
    {l : SysLabel} (h : ∀ w ∈ s.workers, K w) (hs : s.step l = some s') : ∀ w ∈ s'.workers, K w := by
  rcases step_cases hs with ⟨pl, p, rfl, -, -, rfl⟩ | ⟨r, site, rfl, rfl⟩ |
    ⟨i, wl, w, world, w', rfl, hw, -, hx, rfl⟩
  · intro w hw
    obtain ⟨w₀, hw₀, rfl | rfl⟩ := mem_killed hw
    · exact h w hw₀
    · exact hdead w₀ (h w₀ hw₀)
  · intro w hw
    rcases List.mem_append.mp hw with hw | hw
    · exact h w hw
    · obtain rfl := List.mem_singleton.mp hw
      exact hspawn r site
  · intro w₁ hw₁
    rcases List.mem_or_eq_of_mem_set hw₁ with hw₁ | rfl
    · exact h w₁ hw₁
    · exact hmove (h w (List.mem_of_getElem? hw)) (Worker.step_move hx)

/-- Every step leaves the running tasks suspended. -/
theorem suspended_step {l : SysLabel} (h : ∀ w ∈ s.workers, w.Suspended) (hs : s.step l = some s') :
    ∀ w ∈ s'.workers, w.Suspended :=
  forall_workers_step (fun _ _ _ _ hp => nomatch hp) (fun _ h => h) (fun h hm => h.move hm) h hs

/-- In every state that is reached the running tasks are suspended. -/
theorem Run.suspended (h : Run t s s') (hs : ∀ w ∈ s.workers, w.Suspended) :
    ∀ w ∈ s'.workers, w.Suspended :=
  Reaches.invariant (P := fun u : Sys => ∀ w ∈ u.workers, w.Suspended)
    (fun _ _ _ hu _ hstep => suspended_step hu hstep) h hs

/-! ## What is stored -/

omit [Codec] in
/-- A call that adds nothing to a key and deletes nothing leaves what the key holds. -/
theorem exec_entries {world world' : World} {site : Nat} {a : Actor} {o : Op} {ans : Answer}
    {r : Except PyExc o.Res} {k : String} (hx : world.exec site a o ans = some (world', r))
    (ho : ∀ c, o = .redis c → c.key ≠ k ∨ c.added? = none ∧ c.deletes = false) :
    (world'.redis k).entries = (world.redis k).entries := by
  by_cases hc : ∃ c, o = .redis c
  · obtain ⟨c, rfl⟩ := hc
    rcases World.exec_redis hx with ⟨n, -, rfl, -⟩ | ⟨e, -, -, -, rfl⟩
    · rcases ho c rfl with hk | ⟨hadd, hdel⟩
      · exact congrArg _ (Redis.Keyspace.apply_of_ne world.redis world.now n c (Ne.symm hk))
      · exact (Redis.Keyspace.apply_entries world.redis world.now n hadd hdel k).1
    · rfl
  · rw [(World.exec_other (fun c h => hc ⟨c, h⟩) hx).1]

/-- A step the program takes on its own leaves what the streams hold as it is. -/
theorem entries_of_own {l : SysLabel} (hw : s.Wired t) (hl : l.own = true) (hs : s.step l = some s')
    (queue : String) : (s'.world.redis (t.streamKey queue)).entries =
      (s.world.redis (t.streamKey queue)).entries := by
  rcases step_cases hs with ⟨pl, p, rfl, -, hp, rfl⟩ | ⟨r, site, rfl, rfl⟩ |
    ⟨i, wl, w, world, w', rfl, hi, -, hx, rfl⟩
  · cases pl with
    | env e =>
      cases e with
      | tick d =>
        obtain rfl := Option.some.inj hp
        rfl
      | foreign key body => cases hl
    | start _ _ | answer _ _ | crash _ => cases hl
  · cases hl
  · have hwired := hw.workers w (List.mem_of_getElem? hi)
    have hm := Worker.step_move hx
    clear hx
    cases hm with
    | loop | recovery | shutdown | spawn | start | retire => rfl
    | ensure hx _ _ | check _ _ hx _ | poll _ _ hx _ | claim _ hx =>
      refine exec_entries hx fun c hc => .inr ?_
      cases hc
      exact ⟨rfl, rfl⟩
    | @task j d o k ans s₁ r hj hx =>
      refine exec_entries hx fun c hc => ?_
      subst hc
      obtain ⟨ph, jobId, -, ⟨hguard, -⟩, -⟩ := hwired.running d _ (List.mem_of_getElem? hj)
      cases c with
      | xadd key body lim =>
        -- a task appends to the dead letters only, which lie under another key
        refine .inl ?_
        obtain ⟨rfl, -, -⟩ := hguard
        rw [Redis.Cmd.key, RedisStreamTransport.dlqKey_congr hwired.uses.2.1]
        exact (t.streamKey_ne_dlqKey _ _).symm
      | xack key g id => exact .inr ⟨rfl, rfl⟩
      | _ => exact hguard.elim

/-- **What the program does on its own leaves what the streams hold as it is.** -/
theorem Continues.entries (hw : s.Wired t) (h : s.Continues s') (queue : String) :
    (s'.world.redis (t.streamKey queue)).entries =
      (s.world.redis (t.streamKey queue)).entries := by
  induction h with
  | refl => rfl
  | tail h hl hs ih => exact (entries_of_own (Continues.run h |>.wired hw) hl hs queue).trans ih

/-! ## Tasks -/

/-- A task that waits for an answer can be driven to its end, which frees its permit. -/
theorem exists_finish {j : Nat} {d : Delivery} {p : Py Unit} (hw : s.workers[i]? = some w)
    (ha : w.alive = true) (hj : w.tasks[j]? = some ⟨d, .running p⟩) (hp : p.outcome = none) :
    ∃ s' w', s.Continues s' ∧ s'.workers[i]? = some w' ∧ w.Beside w' ∧
      w'.permits = w.permits + 1 := by
  induction p generalizing s w with
  | ret => cases hp
  | raise => cases hp
  | call o k ih =>
    obtain ⟨ans, world, r, ⟨hans, -⟩, hx⟩ := s.world.exists_answer ⟨.empty, none⟩ w.site
      (.executor i j w.runner.queue d.entryId) o
    have hstep : w.step i s.world (.task j ans) = some (world, w.settle j (k r)) := by
      simp only [Worker.step, Worker.stepTask, hj, Machine.step, hx, Option.map_some]
    obtain ⟨s₁, hs₁, hw₁, -⟩ := continues_worker (l := .task j ans) hans hw ha hstep
    cases hout : (k r).outcome with
    | some out =>
      refine ⟨s₁, _, hs₁, hw₁, w.beside_settle j (k r), ?_⟩
      rw [Worker.settle_permits, hout]
      rfl
    | none =>
      -- it goes on with what is left of it
      have hj₁ : (w.settle j (k r)).tasks[j]? = some ⟨d, .running (k r)⟩ := by
        rw [Worker.settle_tasks, TaskPc.after, hout]
        simp [Worker.setTask, hj]
      obtain ⟨s₂, w₂, hs₂, hw₂, hb, hperm⟩ := ih r hw₁ (by rwa [Worker.settle_alive]) hj₁ hout
      refine ⟨s₂, w₂, hs₁.trans hs₂, hw₂, (w.beside_settle j (k r)).trans hb, ?_⟩
      rw [hperm, Worker.settle_permits, hout]
      rfl

/-- **A worker with a free permit or an unfinished task can come to have a free permit.** -/
theorem exists_permit (hw : s.workers[i]? = some w) (ha : w.alive = true) (hsus : w.Suspended)
    (h : 0 < w.permits ∨ w.busy = true) :
    ∃ s' w', s.Continues s' ∧ s'.workers[i]? = some w' ∧ w.Beside w' ∧ 0 < w'.permits := by
  rcases h with h | h
  · exact ⟨s, w, .refl, hw, ⟨rfl, rfl, rfl, rfl⟩, h⟩
  · obtain ⟨⟨d, pc⟩, hmem, hpc⟩ := List.any_eq_true.mp h
    obtain ⟨j, hj⟩ := List.mem_iff_getElem?.mp hmem
    cases pc with
    | ended => cases hpc
    | discarded => cases hpc
    | running p =>
      obtain ⟨s', w', hs, hw', hb, hperm⟩ := exists_finish hw ha hj (hsus d p hmem)
      exact ⟨s', w', hs, hw', hb, by omega⟩
    | created =>
      -- it starts first
      have hstep : w.step i s.world (.startTask j) =
          some (s.world, w.settle j (w.runner.processJob d)) := by
        simp only [Worker.step, Worker.stepStart, hj, Option.map_some]
      obtain ⟨s₁, hs₁, hw₁, -⟩ := continues_worker (l := .startTask j) rfl hw ha hstep
      have hb₁ := w.beside_settle j (w.runner.processJob d)
      cases hout : (w.runner.processJob d).outcome with
      | some out =>
        refine ⟨s₁, _, hs₁, hw₁, hb₁, ?_⟩
        rw [Worker.settle_permits, hout]
        exact Nat.succ_pos _
      | none =>
        have hj₁ : (w.settle j (w.runner.processJob d)).tasks[j]? =
            some ⟨d, .running (w.runner.processJob d)⟩ := by
          rw [Worker.settle_tasks, TaskPc.after, hout]
          simp [Worker.setTask, hj]
        obtain ⟨s₂, w₂, hs₂, hw₂, hb₂, hperm⟩ :=
          exists_finish hw₁ (by rwa [Worker.settle_alive]) hj₁ hout
        exact ⟨s₂, w₂, hs₁.trans hs₂, hw₂, hb₁.trans hb₂, by omega⟩

/-! ## The batch in hand -/

/-- The next delivery of a batch in hand can be given to a task. -/
theorem exists_spawn {d : Delivery} {rest : List Delivery} (hw : s.workers[i]? = some w)
    (ha : w.alive = true) (hsus : w.Suspended) (hloop : w.loop = .acquiring d rest)
    (h : 0 < w.permits ∨ w.busy = true) :
    ∃ s' w', s.Continues s' ∧ s'.workers[i]? = some w' ∧ w'.alive = true ∧
      w'.runner = w.runner ∧ w'.shutdown = w.shutdown ∧ w'.loop = w'.batchPc rest ∧
      ⟨d, .created⟩ ∈ w'.tasks := by
  obtain ⟨s₁, w₁, hs₁, hw₁, hb, hperm⟩ := exists_permit hw ha hsus h
  have hstep : w₁.step i s₁.world .acquire = some (s₁.world, w₁.spawnTask d rest) := by
    simp only [Worker.step, hb.loop, hloop, if_pos hperm]
  obtain ⟨s₂, hs₂, hw₂, -⟩ := continues_worker (l := .acquire) rfl hw₁ (hb.alive.trans ha) hstep
  refine ⟨s₂, _, hs₁.trans hs₂, hw₂, hb.alive.trans ha, hb.runner, hb.shutdown, ?_, ?_⟩
  · cases rest <;> rfl
  · exact List.mem_append_right _ (List.mem_singleton_self _)

/-- A batch in hand can be worked off, which leads back to the head of the loop. -/
theorem exists_head_of_acquiring {rest : List Delivery} {d : Delivery}
    (hsus : ∀ w ∈ s.workers, w.Suspended) (hw : s.workers[i]? = some w) (ha : w.alive = true)
    (hloop : w.loop = .acquiring d rest) (h : 0 < w.permits ∨ w.busy = true) :
    ∃ s' w', s.Continues s' ∧ s'.workers[i]? = some w' ∧ w'.alive = true ∧
      w'.runner = w.runner ∧ w'.shutdown = w.shutdown ∧ w'.loop = w'.headPc := by
  induction rest generalizing s w d with
  | nil =>
    obtain ⟨s₁, w₁, hs₁, hw₁, ha₁, hr₁, hsh₁, hloop₁, -⟩ :=
      exists_spawn hw ha (hsus w (List.mem_of_getElem? hw)) hloop h
    exact ⟨s₁, w₁, hs₁, hw₁, ha₁, hr₁, hsh₁, hloop₁⟩
  | cons d' rest ih =>
    obtain ⟨s₁, w₁, hs₁, hw₁, ha₁, hr₁, hsh₁, hloop₁, hmem⟩ :=
      exists_spawn hw ha (hsus w (List.mem_of_getElem? hw)) hloop h
    -- the task just created will release a permit
    have hbusy : w₁.busy = true := List.any_eq_true.mpr ⟨_, hmem, rfl⟩
    obtain ⟨s₂, w₂, hs₂, hw₂, ha₂, hr₂, hsh₂, hloop₂⟩ :=
      ih (hs₁.run.suspended (t := Sample.transport) hsus) hw₁ ha₁ hloop₁ (.inr hbusy)
    exact ⟨s₂, w₂, hs₁.trans hs₂, hw₂, ha₂, hr₂.trans hr₁, hsh₂.trans hsh₁, hloop₂⟩

/-- **A worker gets to the head of its loop**: once it has made sure of the group, when it has slept,
and when it has worked off its batch, for which a permit has to be free or come free. -/
theorem exists_head (hsus : ∀ w ∈ s.workers, w.Suspended) (hw : s.workers[i]? = some w)
    (ha : w.alive = true) (h : w.loop = .ensuring ∨ (∃ wakeAt, w.loop = .sleeping wakeAt) ∨
      (∃ d rest, w.loop = .acquiring d rest) ∧ (0 < w.permits ∨ w.busy = true)) :
    ∃ s' w', s.Continues s' ∧ s'.workers[i]? = some w' ∧ w'.alive = true ∧
      w'.runner = w.runner ∧ w'.shutdown = w.shutdown ∧ w'.loop = w'.headPc := by
  rcases h with hloop | ⟨wakeAt, hloop⟩ | ⟨⟨d, rest, hloop⟩, hperm⟩
  · obtain ⟨world, hx⟩ := RedisStreamTransport.exists_await_ensureGroup w.runner.transport
      w.runner.queue s.world w.site (.runner i)
    have hstep : w.step i s.world (.loop (.ok 0) .epoch) = some (world, w.afterEnsure (.ok ())) := by
      simp only [Worker.step, Worker.stepLoop, hloop, hx, Option.map_some]
    obtain ⟨s₁, hs₁, hw₁, -⟩ := continues_worker (l := .loop (.ok 0) .epoch) rfl hw ha hstep
    exact ⟨s₁, _, hs₁, hw₁, ha, rfl, rfl, rfl⟩
  · have hstep : w.step i (s.later wakeAt).world .wake =
        some ((s.later wakeAt).world, { w with loop := w.headPc }) := by
      simp only [Worker.step, hloop]
      exact if_pos (Nat.le_add_left wakeAt s.world.now)
    obtain ⟨s₁, hs₁, hw₁, -⟩ := continues_worker (s := s.later wakeAt) (l := .wake) rfl hw ha hstep
    exact ⟨s₁, _, (s.continues_later wakeAt).trans hs₁, hw₁, ha, rfl, rfl, rfl⟩
  · exact exists_head_of_acquiring hsus hw ha hloop hperm

end Sys

/-! ## A worker that has read its first job -/

namespace Sample

/-- A worker with a recovery task, everything else at its default. -/
def runner (workerId : String) : WorkerRunner where
  transport := Sample.transport
  executor := { transport := Sample.transport }
  workerId
  queue := "default"
  recovery := some { transport := Sample.transport, workerId }

/-- Every worker that is started is one of those, and no task gets on. -/
def Opening (l : SysLabel) : Prop :=
  l.uses Sample.transport.streamPrefix ∧ l.quiet = true ∧
    ∀ r site, l = .spawn r site → ∃ id, r = runner id

/-- To start one is allowed. -/
theorem opening_spawn (id : String) (site : Nat) : Opening (.spawn (runner id) site) := by
  refine ⟨⟨rfl, rfl, (fun c hc => nomatch hc), fun c hc => ?_⟩, rfl, ?_⟩
  · cases hc
    rfl
  · rintro r site' h
    cases h
    exact ⟨id, rfl⟩

/-- The loop of the first worker, with its first job in hand. -/
def polled [Codec] (workerId : String) : Worker :=
  { (runner workerId).spawn 1 with
    loop := .acquiring
      ⟨Sample.transport.streamKey "default", 1, .ofJob Sample.job⟩ []
    recovery := .claiming }

open RedisStreamTransport (jobEntry jobDelivery)

/-- What a group is due that was given nothing, when there is one job. -/
theorem take_undelivered_single [Codec] {s : Redis.Stream Body} {job : Job} {n : Nat}
    (hent : s.entries = [⟨1, RedisStreamTransport.jobBody job⟩]) (hn : 0 < n) :
    (s.undelivered ⟨0, []⟩).take n = [(1, job)].map jobEntry := by
  have hdue : s.undelivered ⟨0, []⟩ = [(1, job)].map jobEntry := by
    simp [Redis.Stream.undelivered, hent, jobEntry]
  rw [hdue]
  exact List.take_of_length_le hn

/-- **A poll of the default queue**, by a worker to whose group jobs are due. -/
theorem exists_poll [Codec] {s : Sys} {i : Nat} {w : Worker} {g : Redis.Group} {l : List (Nat × Job)}
    (hw : s.workers[i]? = some w) (halive : w.alive = true) (hloop : w.loop = .polling)
    (ht : w.runner.transport = transport) (hq : w.runner.queue = "default")
    (hb : 0 < w.runner.pollBatch) (hl : l ≠ [])
    (hg : (s.world.redis (transport.streamKey "default")).groups (transport.groupKey "default") =
      some g)
    (hnew : ((s.world.redis (transport.streamKey "default")).undelivered g).take
      w.runner.pollBatch = l.map jobEntry) :
    ∃ world : World, s.step (.worker i (.loop (.ok 0) .epoch)) =
        some ⟨{ s.pool with world := world }, s.workers.set i
          { w with loop := w.batchPc (l.map (jobDelivery (transport.streamKey "default"))) }⟩ ∧
      world.now = s.world.now ∧ world.db = s.world.db ∧
      world.log = ⟨.runner i, .redis (.xreadgroup (transport.groupKey "default")
        (RedisStreamTransport.consumerName w.runner.workerId) (transport.streamKey "default")
        w.runner.pollBatch w.runner.pollTimeoutMs), true, 0,
        .ok [(transport.streamKey "default", l.map jobEntry)]⟩ :: s.world.log ∧
      world.redis = Function.update s.world.redis (transport.streamKey "default")
        ((s.world.redis (transport.streamKey "default")).setGroup (transport.groupKey "default")
          ⟨((l.map Prod.fst).getLast?).getD g.lastDelivered, g.pel ++ l.map fun p =>
            ⟨p.1, RedisStreamTransport.consumerName w.runner.workerId, s.world.now⟩⟩) := by
  obtain ⟨world, hx, hnow, hdb, hlog, hredis⟩ := RedisStreamTransport.exists_await_readGroup
    w.runner.workerId w.runner.pollTimeoutMs w.site (.runner i) .epoch hl hb hg hnew
  have hpoll : w.step i s.world (.loop (.ok 0) .epoch) = some (world, { w with
      loop := w.batchPc (l.map (jobDelivery (transport.streamKey "default"))) }) := by
    simp only [Worker.step, Worker.stepLoop, hloop, ht, hq, hx, Option.map_some, Worker.afterPoll]
  exact ⟨world, Sys.step_worker hw halive hpoll, hnow, hdb, hlog, hredis⟩

/-- A job was enqueued, and a worker has read it. -/
theorem exists_polled [Codec] (workerId : String) :
    ∃ s : Sys, Reaches Sys.step (fun _ => Opening) Sys.init s ∧ s.workers = [polled workerId] ∧
      s.world.now = 0 ∧ (s.world.redis (Sample.transport.streamKey "default")).entries =
        [⟨1, RedisStreamTransport.jobBody Sample.job⟩] ∧
      (s.world.redis (Sample.transport.streamKey "default")).groups
        (Sample.transport.groupKey "default") =
          some ⟨1, [⟨1, RedisStreamTransport.consumerName workerId, 0⟩]⟩ ∧
      ∀ ev ∈ s.world.log, ev.evicted = 0 := by
  -- enqueued, the worker started, the group created
  obtain ⟨s, hs, hworkers, hnow, hent, hgrp, hlog⟩ : ∃ s : Sys,
      Reaches Sys.step (fun _ => Opening) Sys.init s ∧ s.workers = [{ (runner workerId).spawn 1 with
        loop := .polling
        recovery := .claiming }] ∧ s.world.now = 0 ∧
      (s.world.redis (Sample.transport.streamKey "default")).entries =
        [⟨1, RedisStreamTransport.jobBody Sample.job⟩] ∧
      (s.world.redis (Sample.transport.streamKey "default")).groups
        (Sample.transport.groupKey "default") = some ⟨0, []⟩ ∧
      s.world.log.map Event.evicted = [0, 0, 0] :=
    ⟨_, .tail (l := .worker 0 (.loop (.ok 0) .epoch))
      (.tail (l := .spawn (runner workerId) 1) (.tail (l := .pool (.answer 0 (.ok 0)))
        (.tail (l := .pool (.answer 0 (.ok 0)))
          (.single (l := .pool (.start (Sample.enqueueCall Sample.job false) 0))
            ⟨rfl, rfl, fun _ _ h => nomatch h⟩ rfl) ⟨trivial, rfl, fun _ _ h => nomatch h⟩ rfl)
          ⟨trivial, rfl, fun _ _ h => nomatch h⟩ rfl) (opening_spawn workerId 1) rfl)
      ⟨trivial, rfl, fun _ _ h => nomatch h⟩ rfl, rfl, rfl, rfl, rfl, rfl⟩
  have hw : s.workers[0]? = some { (runner workerId).spawn 1 with
      loop := .polling
      recovery := .claiming } := by rw [hworkers]; rfl
  obtain ⟨world, hstep, hnow', -, hlog', hredis⟩ := exists_poll (l := [(1, Sample.job)]) hw rfl rfl
    rfl rfl Nat.one_pos (by simp) hgrp (take_undelivered_single hent Nat.one_pos)
  have hopen : Opening (.worker 0 (.loop (.ok 0) .epoch)) :=
    ⟨trivial, rfl, fun _ _ h => nomatch h⟩
  refine ⟨_, hs.tail hopen hstep, ?_, hnow'.trans hnow, ?_, ?_, ?_⟩
  · simp only [hworkers]
    rfl
  · refine (congrArg Redis.Stream.entries (congrFun hredis _)).trans ?_
    rw [Function.update_self]
    exact hent
  · refine (congrFun (congrArg Redis.Stream.groups (congrFun hredis _)) _).trans ?_
    rw [Function.update_self, hnow]
    simp [Redis.Stream.setGroup, runner, WorkerRunner.spawn]
  · intro ev hev
    rcases List.mem_cons.mp (hlog' ▸ hev) with rfl | hev
    · rfl
    · simpa [hlog] using List.mem_map_of_mem (f := Event.evicted) hev

/-- A worker without a recovery task, everything else at its default, with a job in hand. -/
def delivered [Codec] (job : Job) : Worker :=
  { ({ Sample.runner "1" with recovery := none } : WorkerRunner).spawn 1 with
    loop := .acquiring ⟨Sample.transport.streamKey "default", 1, .ofJob job⟩ [] }

/-- The job, put on the default queue. -/
def onDefault (job : Job) : Job := { job with queue := "default" }

/-- The one call of `enqueue` was for the job, and a worker has read it. -/
theorem exists_delivered [Codec] (job : Job) :
    ∃ s : Sys, Sys.ClosedRun Sample.transport Sys.init s ∧ s.workers = [delivered (onDefault job)] ∧
      s.pool.procs = [⟨enqueueCall (onDefault job) false, 0, some (.ret 1)⟩] := by
  let r : WorkerRunner := { Sample.runner "1" with recovery := none }
  -- enqueued, the worker started, the group created
  obtain ⟨s, hrun, hworkers, hprocs, hent, hgrp⟩ : ∃ s : Sys, Sys.ClosedRun Sample.transport Sys.init s ∧
      s.workers = [{ r.spawn 1 with loop := .polling }] ∧
      s.pool.procs = [⟨enqueueCall (onDefault job) false, 0, some (.ret 1)⟩] ∧
      (s.world.redis (Sample.transport.streamKey "default")).entries =
        [⟨1, RedisStreamTransport.jobBody (onDefault job)⟩] ∧
      (s.world.redis (Sample.transport.streamKey "default")).groups
        (Sample.transport.groupKey "default") = some ⟨0, []⟩ :=
    ⟨_, .tail (l := .worker 0 (.loop (.ok 0) .epoch)) (.tail (l := .spawn r 1)
      (.tail (l := .pool (.answer 0 (.ok 0))) (.tail (l := .pool (.answer 0 (.ok 0)))
        (.single (s := Sys.init) (l := .pool (.start (enqueueCall (onDefault job) false) 0))
          ⟨rfl, rfl⟩ rfl) ⟨trivial, rfl⟩ rfl) ⟨trivial, rfl⟩ rfl)
      ⟨⟨rfl, rfl, (fun _ h => nomatch h), (fun _ h => nomatch h)⟩, rfl⟩ rfl) ⟨trivial, rfl⟩ rfl,
      rfl, rfl, rfl, rfl⟩
  have hw : s.workers[0]? = some { r.spawn 1 with loop := .polling } := by
    rw [hworkers]
    rfl
  obtain ⟨world, hstep, -⟩ := exists_poll (l := [(1, onDefault job)]) hw rfl rfl rfl rfl Nat.one_pos
    (by simp) hgrp (take_undelivered_single hent Nat.one_pos)
  refine ⟨_, hrun.tail (l := .worker 0 (.loop (.ok 0) .epoch)) ⟨trivial, rfl⟩ hstep, ?_, hprocs⟩
  rw [hworkers]
  rfl

end Sample

end RelayQ

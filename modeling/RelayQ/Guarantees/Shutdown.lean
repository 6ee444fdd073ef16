import RelayQ.Guarantees.SingleExecution
import RelayQ.Worker.Shutdown
import RelayQ.System.Progress

/-! # Graceful shutdown

A request to shut down ends the loop after a bounded number of steps, in which it polls at most once
more and creates tasks for its batch only. The drain then waits for every task that is unfinished, and
when they are over the worker is done for good.

* `Sys.worker_cases`: what a step does to one worker.
* `Sys.shutdownWindsDown`: what a worker still does after the request.
* `Sys.drainedForGood`: that it does nothing any more when `run` has ended after them. -/

namespace RelayQ

/-- The step is one of the worker's loop. -/
def SysLabel.ofLoop (i : Nat) : SysLabel → Bool
  | .worker j l => j = i && l.ofLoop
  | _ => false

namespace Sys

variable [Codec] {t : RedisStreamTransport} {s s' : Sys} {l : SysLabel} {i : Nat} {w w' : Worker}

/-- **What a step does to one worker**: it makes the step, or others do, and then it is as it was, or
dead. -/
theorem worker_cases (hs : s.step l = some s') (hw : s.workers[i]? = some w) :
    (∃ wl w', l = .worker i wl ∧ w.step i s.world wl = some (s'.world, w') ∧
      s'.workers[i]? = some w') ∨
    (l.ofLoop i = false ∧
      (∃ w', s'.workers[i]? = some w' ∧ (w' = w ∨ w' = { w with alive := false })) ∧
      (s'.world.log = s.world.log ∨
        ∃ ev, s'.world.log = ev :: s.world.log ∧ ev.actor.ofWorker i = false)) := by
  rcases step_cases hs with ⟨pl, p, rfl, -, hp, rfl⟩ | ⟨r, site, rfl, rfl⟩ |
    ⟨j, wl, u, world, u', rfl, hu, -, hx, rfl⟩
  · obtain ⟨f, hf, hmap⟩ := getElem?_killed s.workers pl i
    refine .inr ⟨rfl, ⟨f w, by rw [hmap, hw]; rfl, hf w⟩, ?_⟩
    exact (pool_record hp).imp_right fun ⟨ev, hlog, hother⟩ => ⟨ev, hlog, hother i⟩
  · have hlt := (List.getElem?_eq_some_iff.mp hw).1
    exact .inr ⟨rfl, ⟨w, (List.getElem?_append_left hlt).trans hw, .inl rfl⟩, .inl rfl⟩
  · by_cases hij : j = i
    · subst hij
      obtain rfl := Option.some.inj (hw.symm.trans hu)
      exact .inl ⟨wl, u', rfl, hx, List.getElem?_set_self (List.getElem?_eq_some_iff.mp hw).1⟩
    · refine .inr ⟨by simp [SysLabel.ofLoop, hij], ⟨w, (List.getElem?_set_ne hij).trans hw, .inl rfl⟩,
        (Worker.step_move hx).record.imp_right ?_⟩
      rintro ⟨ev, hlog, hact⟩
      refine ⟨ev, hlog, ?_⟩
      rcases hact with ha | ha | ⟨_, _, -, ha⟩ <;> rw [ha] <;> simp [Actor.ofWorker, hij]

/-! ## Winding down -/

/-- A worker that was asked to shut down has made `n` steps of its loop since, and polled and taken
no more than it had begun. -/
structure Winding (i : Nat) (w : Worker) (polls n : Nat) (s : Sys) (w' : Worker) : Prop where
  worker : s.workers[i]? = some w'
  shutdown : w'.shutdown = true
  runner : w'.runner = w.runner
  rank : w'.loop.rank w.runner.pollBatch + n ≤ w.loop.rank w.runner.pollBatch
  takes : w'.tasks.length + w'.loop.mayTake w.runner.pollBatch ≤
    w.tasks.length + w.loop.mayTake w.runner.pollBatch
  polled : s.world.polls i + w'.loop.mayPoll ≤ polls + w.loop.mayPoll

/-- **Step lemma.** -/
theorem Winding.step {polls n : Nat} (h : Winding i w polls n s w') (hs : s.step l = some s') :
    ∃ w'', Winding i w polls (n + if l.ofLoop i then 1 else 0) s' w'' := by
  rcases worker_cases hs h.worker with ⟨wl, w'', rfl, hx, hw''⟩ | ⟨hl, ⟨w'', hw'', hsame⟩, hlog⟩
  · have hwinds := Worker.winds_of_step hx h.shutdown
    have hrank := hwinds.rank
    have htakes := hwinds.takes
    have hpolled := hwinds.polls_le (Worker.polls_of_step hx)
    rw [h.runner] at hrank htakes
    have hof : SysLabel.ofLoop i (.worker i wl) = wl.ofLoop := by simp [SysLabel.ofLoop]
    refine ⟨w'', hw'', hwinds.shutdown, hwinds.runner.trans h.runner, ?_, htakes.trans h.takes,
      hpolled.trans h.polled⟩
    rw [hof]
    have hold := h.rank
    omega
  · -- others make the step
    have hloop : w''.loop = w'.loop := by rcases hsame with rfl | rfl <;> rfl
    have htasks : w''.tasks = w'.tasks := by rcases hsame with rfl | rfl <;> rfl
    have hpolls : s'.world.polls i = s.world.polls i := by
      rcases hlog with hlog | ⟨ev, hlog, hother⟩
      · rw [World.polls, World.polls, hlog]
      · exact World.polls_cons_of_not hlog (Event.isPoll_of_not_ofWorker hother)
    refine ⟨w'', hw'', ?_, ?_, ?_, ?_, ?_⟩
    · rcases hsame with rfl | rfl <;> exact h.shutdown
    · rcases hsame with rfl | rfl <;> exact h.runner
    · rw [hloop, hl]
      exact h.rank
    · rw [hloop, htasks]
      exact h.takes
    · rw [hloop, hpolls]
      exact h.polled

/-- **Run lemma.** -/
theorem Winding.run {polls n : Nat} (h : Winding i w polls n s w') {ls : List SysLabel}
    (hs : runSteps Sys.step s ls = some s') :
    ∃ w'', Winding i w polls (n + ls.countP (SysLabel.ofLoop i)) s' w'' := by
  induction ls generalizing s n w' with
  | nil =>
    obtain rfl := Option.some.inj hs
    exact ⟨w', h⟩
  | cons l ls ih =>
    simp only [runSteps, Option.bind_eq_some_iff] at hs
    obtain ⟨u, hu, hrest⟩ := hs
    obtain ⟨w₁, h₁⟩ := h.step hu
    obtain ⟨w₂, h₂⟩ := ih h₁ hrest
    refine ⟨w₂, ?_⟩
    rwa [List.countP_cons, Nat.add_comm (ls.countP _), ← Nat.add_assoc]

/-- **A request to shut down is obeyed**: from then on, whatever else happens, the loop of the worker
makes a bounded number of steps, polls at most once more, and creates tasks only for the batch it has
in hand or that one poll brings. -/
theorem shutdownWindsDown (hw : s.workers[i]? = some w) (hshut : w.shutdown = true)
    {ls : List SysLabel} (hs : runSteps step s ls = some s') :
    ls.countP (SysLabel.ofLoop i) ≤ w.loop.rank w.runner.pollBatch ∧
      s'.world.polls i ≤ s.world.polls i + w.loop.mayPoll ∧
      ∃ w', s'.workers[i]? = some w' ∧
        w'.tasks.length ≤ w.tasks.length + w.loop.mayTake w.runner.pollBatch := by
  have h : Winding i w (s.world.polls i) 0 s w :=
    ⟨hw, hshut, rfl, le_rfl, le_rfl, le_rfl⟩
  obtain ⟨w', h'⟩ := h.run hs
  have hrank := h'.rank
  have hpolled := h'.polled
  have htakes := h'.takes
  exact ⟨by omega, by omega, w', h'.worker, by omega⟩

end Sys

/-- A worker that is asked to shut down with a delivery in hand creates its task. -/
theorem Sys.shutdownWindsDown_batch : ∃ (s s' : Sys) (w : Worker), s.workers[0]? = some w ∧
    w.shutdown = true ∧ s.step (.worker 0 .acquire) = some s' ∧
    s'.world.polls 0 ≤ s.world.polls 0 ∧
    ∃ w', s'.workers[0]? = some w' ∧ w'.tasks.length ≤ 1 := by
  let w : Worker := { Sample.polled "1" with shutdown := true }
  obtain ⟨s', hs⟩ : ∃ s', Sys.step ⟨⟨.init, []⟩, [w]⟩ (.worker 0 .acquire) = some s' := ⟨_, rfl⟩
  have hrun : runSteps Sys.step ⟨⟨.init, []⟩, [w]⟩ [.worker 0 .acquire] = some s' := by
    rw [runSteps, hs]
    rfl
  obtain ⟨-, hpolls, htasks⟩ := Sys.shutdownWindsDown (i := 0) (w := w) rfl rfl hrun
  exact ⟨_, s', w, rfl, rfl, hs, hpolls, htasks⟩

namespace Sys

variable [Codec] {t : RedisStreamTransport} {s s' : Sys} {l : SysLabel} {i : Nat} {w w' : Worker}

/-! ## After the drain -/

/-- In every reachable state recovery is over before a worker drains, and the drain awaits what is
unfinished. -/
theorem Run.joined (h : Run t init s) : ∀ w ∈ s.workers, w.Joined := by
  refine Reaches.invariant (P := fun u : Sys => ∀ w ∈ u.workers, w.Joined)
    (fun u l v hu _ hs => ?_) h (by simp [init])
  rcases step_cases hs with ⟨pl, p, rfl, -, -, rfl⟩ | ⟨r, site, rfl, rfl⟩ |
    ⟨j, wl, w, world, w', rfl, hw, -, hx, rfl⟩
  · intro w hw
    obtain ⟨w₀, hw₀, rfl | rfl⟩ := mem_killed hw
    · exact hu w hw₀
    · exact ⟨(hu w₀ hw₀).recovery, (hu w₀ hw₀).awaited⟩
  · intro w hw
    rcases List.mem_append.mp hw with hw | hw
    · exact hu w hw
    · obtain rfl := List.mem_singleton.mp hw
      exact Worker.joined_spawn r site
  · intro w₁ hw₁
    rcases List.mem_or_eq_of_mem_set hw₁ with hw₁ | rfl
    · exact hu w₁ hw₁
    · exact (hu w (List.mem_of_getElem? hw)).step hx

/-- What the worker has called. -/
def callsOf (s : Sys) (i : Nat) : List Event := s.world.log.filter fun ev => ev.actor.ofWorker i

/-- A retired worker stays so, and calls nothing. -/
theorem retired_of_step (hw : s.workers[i]? = some w) (hq : w.Retired) (hs : s.step l = some s') :
    (∃ w', s'.workers[i]? = some w' ∧ w'.Retired) ∧ s'.callsOf i = s.callsOf i := by
  rcases worker_cases hs hw with ⟨wl, w', rfl, hx, hw'⟩ | ⟨-, ⟨w', hw', hsame⟩, hlog⟩
  · obtain ⟨hq', hworld⟩ := hq.step hx
    exact ⟨⟨w', hw', hq'⟩, by rw [callsOf, callsOf, hworld]⟩
  · refine ⟨⟨w', hw', ?_⟩, ?_⟩
    · rcases hsame with rfl | rfl
      · exact hq
      · exact ⟨hq.loop, hq.recovery, hq.tasks⟩
    · rcases hlog with hlog | ⟨ev, hlog, hother⟩
      · rw [callsOf, callsOf, hlog]
      · rw [callsOf, callsOf, hlog, List.filter_cons_of_neg (by simp [hother])]

/-- **A worker whose drain is over is done for good**: if `run` comes to its end, with whatever step,
while every task its end waits for is over, then no task of the worker is unfinished, nor its recovery
task, and the worker never calls anything again. -/
theorem drainedForGood (hrun : Run t init s) (hw : s.workers[i]? = some w) (hgoing : w.loop ≠ .stopped)
    (hover : w.awaits.all w.taskOver = true) {s₁ : Sys} {w₁ : Worker}
    (hs : s.step l = some s₁) (hw₁ : s₁.workers[i]? = some w₁) (hstop : w₁.loop = .stopped)
    (h : Reaches step (fun _ _ => True) s₁ s') :
    w₁.Retired ∧ (∃ w', s'.workers[i]? = some w' ∧ w'.Retired) ∧ s'.callsOf i = s₁.callsOf i := by
  have hretired : w₁.Retired := by
    rcases worker_cases hs hw with ⟨wl, w', -, hx, hw'⟩ | ⟨-, ⟨w', hw', hsame⟩, -⟩
    · obtain rfl := Option.some.inj (hw₁.symm.trans hw')
      exact (hrun.joined w (List.mem_of_getElem? hw)).retired hover hx hgoing hstop
    · -- nobody else ends it
      obtain rfl := Option.some.inj (hw₁.symm.trans hw')
      rcases hsame with rfl | rfl <;> exact absurd hstop hgoing
  refine ⟨hretired, ?_⟩
  refine Reaches.invariant (P := fun u => (∃ w', u.workers[i]? = some w' ∧ w'.Retired) ∧
    u.callsOf i = s₁.callsOf i) (fun u l v hu _ hs => ?_) h ⟨⟨w₁, hw₁, hretired⟩, rfl⟩
  obtain ⟨⟨w', hw', hq'⟩, hcalls⟩ := hu
  obtain ⟨hretired', hsame⟩ := retired_of_step hw' hq' hs
  exact ⟨hretired', hsame.trans hcalls⟩

end Sys

/-- A worker drains a task that calls its handler meanwhile; when the task is over, so is all of it. -/
theorem Sys.drainedForGood_awaited : ∃ (s s₁ s' : Sys) (w w₁ : Worker) (deadline : Nat),
    Sys.Run Sample.transport Sys.init s ∧ s.workers[0]? = some w ∧ w.loop = .draining [0] deadline ∧
    [3, 1] <+: s.world.stages "default" 1 ∧
    s.step (.worker 0 .drain) = some s₁ ∧ s₁.workers[0]? = some w₁ ∧
    s₁.step (.worker 0 (.callback 0)) = some s' ∧
    w₁.Retired ∧ (∃ w', s'.workers[0]? = some w' ∧ w'.Retired) ∧ s'.callsOf 0 = s₁.callsOf 0 := by
  obtain ⟨⟨pool, workers⟩, hs, rfl, -⟩ := Sample.exists_polled "1"
  have hrun : Sys.Run Sample.transport Sys.init ⟨pool, [Sample.polled "1"]⟩ :=
    hs.mono fun _ l hl => hl.1
  -- asked to shut down, the worker starts its task, joins its recovery task and drains; the task calls
  -- its handler, acknowledges in vain and ends
  obtain ⟨s, hs', hstages, w, hw, deadline, hloop, hover, s₁, hdrain, w₁, hw₁, hstop, s', hback⟩ :
      ∃ s : Sys, Sys.Run Sample.transport ⟨pool, [Sample.polled "1"]⟩ s ∧
        s.world.stages "default" 1 = 3 :: 1 :: pool.world.stages "default" 1 ∧
        ∃ w, s.workers[0]? = some w ∧ ∃ deadline, w.loop = .draining [0] deadline ∧
        w.awaits.all w.taskOver = true ∧ ∃ s₁, s.step (.worker 0 .drain) = some s₁ ∧
        ∃ w₁, s₁.workers[0]? = some w₁ ∧ w₁.loop = .stopped ∧
        ∃ s', s₁.step (.worker 0 (.callback 0)) = some s' :=
    ⟨_, .tail (l := .worker 0 (.task 0 (.ok 0)))
      (.tail (l := .worker 0 (.task 0 (.fail (.redisError "ConnectionError" "lost"))))
        (.tail (l := .worker 0 (.task 0 (.ok 0))) (.tail (l := .worker 0 (.task 0 (.ok 0)))
          (.tail (l := .worker 0 (.task 0 (.ran ⟨.empty, none⟩))) (.tail (l := .worker 0 .drain)
            (.tail (l := .worker 0 .cancelRecovery)
              (.tail (l := .worker 0 (.recovery (.fail (.redisError "ConnectionError" "lost")) .epoch))
                (.tail (l := .worker 0 (.task 0 (.ok 0))) (.tail (l := .worker 0 (.startTask 0))
                  (.tail (l := .worker 0 .acquire)
                    (.single (l := .worker 0 .requestShutdown) trivial rfl) trivial rfl) trivial rfl)
                  trivial rfl) trivial rfl) trivial rfl) trivial rfl) trivial rfl) trivial rfl)
          trivial rfl) trivial rfl) trivial rfl,
      rfl, _, rfl, _, rfl, rfl, _, rfl, _, rfl, rfl, _, rfl⟩
  have hgoing : w.loop ≠ .stopped := by simp [hloop]
  obtain ⟨hretired, hretired', hsame⟩ := Sys.drainedForGood (hrun.trans hs') hw hgoing hover hdrain hw₁
    hstop (.single (l := .worker 0 (.callback 0)) trivial hback)
  exact ⟨s, s₁, s', w, w₁, deadline, hrun.trans hs', hw, hloop, hstages ▸ ⟨_, rfl⟩, hdrain, hw₁, hback,
    hretired, hretired', hsame⟩

end RelayQ

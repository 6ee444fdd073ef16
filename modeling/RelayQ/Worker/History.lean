import RelayQ.Worker.Moves

/-! # What has happened in a worker

The loop acquires a permit for every task it creates, the task releases it when it ends, and a
done-callback takes it out of the inflight set later on.

* `WorkerHistory`: permits, polls and `execute` calls of a worker, recorded step by step.
* `Worker.Accounts`, `Worker.Accounts.step`: how the history explains the worker, which every step
  keeps but one that cancels a task. -/

namespace RelayQ

/-- What has happened in a worker since it was started. -/
structure WorkerHistory where
  /-- The tasks a permit was acquired for, in order. -/
  acquired : List Nat := []
  /-- The tasks that released a permit, in order. -/
  released : List Nat := []
  /-- What `read_group` has returned. -/
  returned : List Delivery := []
  /-- What was passed to `execute`. -/
  executed : List Delivery := []
  /-- The set `_inflight`. -/
  inflight : List Nat := []
  /-- The loop was cancelled. -/
  cancelled : Bool := false

namespace Task

/-- The task is within its `execute` call. -/
def executing : Task → Bool
  | ⟨_, .running _⟩ => true
  | _ => false

/-- The task was given the entry and has passed it to `execute`. -/
def passed (entryId : Nat) : Task → Bool
  | ⟨_, .created⟩ => false
  | ⟨d, _⟩ => d.job.typed?.isSome && d.entryId = entryId

/-- The task holds its permit. -/
def unfinished (tk : Task) : Bool := !tk.pc.isOver

end Task

namespace Worker

variable (w : Worker)

/-- What the poll of the loop returns that is answered so. -/
def pollResult [Codec] (me : Nat) (s : World) (ans : Answer) (now : DateTime) : List Delivery :=
  match w.loop, relay.await s w.site (.runner me) (w.runner.transport.readGroup w.runner.queue
    w.runner.workerId w.runner.pollBatch w.runner.pollTimeoutMs now) ans with
  | .polling, some (_, .ok ds) => ds
  | _, _ => []

/-- What a task that takes its first step passes to `execute`. -/
def passes (j : Nat) : List Delivery :=
  match w.tasks[j]? with
  | some ⟨d, .created⟩ => if d.job.typed?.isSome then [d] else []
  | _ => []

/-- The tasks that release a permit in a step of task `j`. -/
def releases (w' : Worker) (j : Nat) : List Nat := if w.permits < w'.permits then [j] else []

end Worker

/-- The history after a step. -/
def WorkerHistory.next [Codec] (h : WorkerHistory) (w : Worker) (me : Nat) (s : World)
    (w' : Worker) : WorkerLabel → WorkerHistory
  | .loop ans now => { h with returned := h.returned ++ w.pollResult me s ans now }
  | .acquire => { h with
      acquired := h.acquired ++ [w.tasks.length]
      inflight := h.inflight ++ [w.tasks.length] }
  | .cancelLoop => { h with cancelled := true }
  | .startTask j => { h with
      executed := h.executed ++ w.passes j
      released := h.released ++ w.releases w' j }
  | .task j _ => { h with released := h.released ++ w.releases w' j }
  | .callback j => { h with inflight := h.inflight.filter fun k => k ≠ j }
  | _ => h

/-! ## What the history says of the worker -/

namespace Worker

/-- How the history of a worker explains it. -/
structure Accounts (w : Worker) (h : WorkerHistory) : Prop where
  acquired : h.acquired = List.range w.tasks.length
  nodup : h.released.Nodup
  released : ∀ j, j ∈ h.released ↔ ∃ tk, w.tasks[j]? = some tk ∧ tk.pc.isOver = true
  permits : w.permits + w.tasks.countP Task.unfinished = w.runner.maxConcurrency
  executed : ∀ id, (h.executed.map Delivery.entryId).count id = w.tasks.countP (Task.passed id)
  given : h.executed ⊆ w.tasks.map Task.delivery
  returned : (w.tasks.map Task.delivery ++ w.loop.batch).Sublist h.returned
  complete : h.cancelled = false → h.returned = w.tasks.map Task.delivery ++ w.loop.batch
  inflight : ∀ j, j ∈ h.inflight ↔ ∃ tk, w.tasks[j]? = some tk ∧ ∀ d, tk ≠ ⟨d, .discarded⟩

variable {w w' : Worker} {h : WorkerHistory}

/-- The tasks after a new one was created. -/
theorem getElem?_spawnTask {d : Delivery} {rest : List Delivery} {j : Nat} {tk : Task} :
    (w.spawnTask d rest).tasks[j]? = some tk ↔
      w.tasks[j]? = some tk ∨ j = w.tasks.length ∧ tk = ⟨d, .created⟩ := by
  simp only [spawnTask, List.getElem?_append]
  split
  · rename_i hlt
    exact ⟨.inl, fun h => h.resolve_right fun h => by omega⟩
  · rename_i hge
    rw [List.getElem?_eq_none (Nat.le_of_not_lt hge), List.getElem?_singleton]
    constructor
    · intro h
      split at h
      · exact .inr ⟨by omega, (Option.some.inj h).symm⟩
      · cases h
    · rintro (h | ⟨rfl, rfl⟩)
      · cases h
      · simp

/-- The tasks after one of them got on. -/
theorem setTask_tasks {j : Nat} {d : Delivery} {pc₀ : TaskPc} (hj : w.tasks[j]? = some ⟨d, pc₀⟩)
    (pc : TaskPc) : (w.setTask j pc).tasks = w.tasks.set j ⟨d, pc⟩ := by
  apply List.ext_getElem?
  intro k
  simp only [setTask, List.getElem?_modify, List.getElem?_set]
  by_cases hk : j = k
  · subst hk
    rw [if_pos rfl, hj, if_pos (List.getElem?_eq_some_iff.mp hj).1]
    simp
  · simp [hk]

/-- A task that got on is where it was, with its delivery. -/
theorem getElem?_setTask {i : Nat} {d : Delivery} {pc₀ : TaskPc}
    (hi : w.tasks[i]? = some ⟨d, pc₀⟩) {pc : TaskPc} {j : Nat} {tk : Task} :
    (w.setTask i pc).tasks[j]? = some tk ↔
      j ≠ i ∧ w.tasks[j]? = some tk ∨ j = i ∧ tk = ⟨d, pc⟩ := by
  rw [setTask_tasks hi, List.getElem?_set]
  by_cases hj : i = j
  · subst hj
    simp [(List.getElem?_eq_some_iff.mp hi).1, eq_comm]
  · simp [hj, Ne.symm hj]

/-- The deliveries of the tasks stay. -/
theorem setTask_map_delivery {j : Nat} {d : Delivery} {pc₀ : TaskPc}
    (hj : w.tasks[j]? = some ⟨d, pc₀⟩) (pc : TaskPc) :
    (w.setTask j pc).tasks.map Task.delivery = w.tasks.map Task.delivery := by
  rw [setTask_tasks hj, List.map_set]
  refine List.ext_getElem? fun k => ?_
  rw [List.getElem?_set, List.getElem?_map]
  by_cases hk : j = k
  · subst hk
    rw [if_pos rfl, hj, List.length_map, if_pos (List.getElem?_eq_some_iff.mp hj).1]
    rfl
  · rw [if_neg hk]

/-- A task that goes on is over if its program has come to its end. -/
theorem isOver_after (p : Py Unit) : (TaskPc.after p).isOver = p.outcome.isSome := by
  unfold TaskPc.after
  cases p.outcome <;> rfl

/-- A worker that has just been started. -/
theorem accounts_spawn (r : WorkerRunner) (site : Nat) : (r.spawn site).Accounts {} where
  acquired := rfl
  nodup := List.nodup_nil
  released := by simp [WorkerRunner.spawn]
  permits := rfl
  executed := fun _ => rfl
  given := List.Subset.refl []
  returned := List.Sublist.refl []
  complete := fun _ => rfl
  inflight := by simp [WorkerRunner.spawn]

/-- Nothing else of a worker matters. -/
theorem Accounts.congr (ha : w.Accounts h) (hr : w'.runner = w.runner) (ht : w'.tasks = w.tasks)
    (hp : w'.permits = w.permits) (hb : w'.loop.batch = w.loop.batch) : w'.Accounts h where
  acquired := ht ▸ ha.acquired
  nodup := ha.nodup
  released := ht ▸ ha.released
  permits := by rw [hp, ht, hr]; exact ha.permits
  executed := ht ▸ ha.executed
  given := ht ▸ ha.given
  returned := by rw [ht, hb]; exact ha.returned
  complete := by rw [ht, hb]; exact ha.complete
  inflight := ht ▸ ha.inflight

/-- The loop takes up what its poll returned. -/
theorem Accounts.poll (ha : w.Accounts h) (hr : w'.runner = w.runner) (ht : w'.tasks = w.tasks)
    (hp : w'.permits = w.permits) (hb : w.loop.batch = []) :
    w'.Accounts { h with returned := h.returned ++ w'.loop.batch } where
  acquired := ht ▸ ha.acquired
  nodup := ha.nodup
  released := ht ▸ ha.released
  permits := by rw [hp, ht, hr]; exact ha.permits
  executed := ht ▸ ha.executed
  given := ht ▸ ha.given
  returned := by
    have hret := ha.returned
    rw [hb, List.append_nil] at hret
    rw [ht]
    exact hret.append_right _
  complete := fun hc => by
    rw [ht, ha.complete hc, hb, List.append_nil]
  inflight := ht ▸ ha.inflight

/-- The loop acquires a permit and creates a task. -/
theorem Accounts.spawnTask (ha : w.Accounts h) {d : Delivery} {rest : List Delivery}
    (hloop : w.loop = .acquiring d rest) (hperm : 0 < w.permits) :
    (w.spawnTask d rest).Accounts { h with
      acquired := h.acquired ++ [w.tasks.length]
      inflight := h.inflight ++ [w.tasks.length] } where
  acquired := by
    rw [ha.acquired]
    simp [Worker.spawnTask, List.range_succ]
  nodup := ha.nodup
  released := by
    intro j
    rw [ha.released]
    simp only [getElem?_spawnTask]
    constructor
    · rintro ⟨tk, htk, hover⟩
      exact ⟨tk, .inl htk, hover⟩
    · rintro ⟨tk, htk | ⟨-, rfl⟩, hover⟩
      · exact ⟨tk, htk, hover⟩
      · cases hover
  permits := by
    have hold := ha.permits
    simp only [Worker.spawnTask, List.countP_append]
    change w.permits - 1 + (w.tasks.countP Task.unfinished + 1) = w.runner.maxConcurrency
    omega
  executed := by
    intro id
    rw [ha.executed]
    simp [Worker.spawnTask, Task.passed]
  given := by
    simp only [Worker.spawnTask, List.map_append]
    exact fun d hd => List.mem_append_left _ (ha.given hd)
  returned := by
    have hret := ha.returned
    simp only [hloop, LoopPc.batch] at hret
    simpa [Worker.spawnTask] using hret
  complete := by
    intro hc
    have hret := ha.complete hc
    simp only [hloop, LoopPc.batch] at hret
    simpa [Worker.spawnTask] using hret
  inflight := by
    intro j
    rw [List.mem_append, List.mem_singleton, ha.inflight]
    simp only [getElem?_spawnTask]
    constructor
    · rintro (⟨tk, htk, hpc⟩ | rfl)
      · exact ⟨tk, .inl htk, hpc⟩
      · exact ⟨⟨d, .created⟩, .inr ⟨rfl, rfl⟩, by rintro d' ⟨⟩⟩
    · rintro ⟨tk, htk | ⟨rfl, -⟩, hpc⟩
      · exact .inl ⟨tk, htk, hpc⟩
      · exact .inr rfl

/-- The loop drops its batch when it is cancelled. -/
theorem Accounts.drop (ha : w.Accounts h) (hr : w'.runner = w.runner) (ht : w'.tasks = w.tasks)
    (hp : w'.permits = w.permits) (hb : w'.loop.batch = []) :
    w'.Accounts { h with cancelled := true } where
  acquired := ht ▸ ha.acquired
  nodup := ha.nodup
  released := ht ▸ ha.released
  permits := by rw [hp, ht, hr]; exact ha.permits
  executed := ht ▸ ha.executed
  given := ht ▸ ha.given
  returned := by
    rw [ht, hb, List.append_nil]
    exact (List.sublist_append_left _ _).trans ha.returned
  complete := fun hc => nomatch hc
  inflight := ht ▸ ha.inflight

section Settle

variable {j : Nat} {d : Delivery} {pc : TaskPc} {p : Py Unit}

/-- The permits released when a task has got on are those of the tasks that are over. -/
theorem Accounts.released_settle (ha : w.Accounts h) (hj : w.tasks[j]? = some ⟨d, pc⟩)
    (hpc : pc.isOver = false) (k : Nat) :
    k ∈ h.released ++ w.releases (w.settle j p) j ↔
      ∃ tk, (w.settle j p).tasks[k]? = some tk ∧ tk.pc.isOver = true := by
  rw [List.mem_append, ha.released]
  simp only [settle_tasks, getElem?_setTask hj, releases, settle_permits]
  constructor
  · rintro (⟨tk, htk, hover⟩ | hmem)
    · refine ⟨tk, .inl ⟨?_, htk⟩, hover⟩
      rintro rfl
      obtain rfl := Option.some.inj (hj.symm.trans htk)
      exact absurd hover (by simp [hpc])
    · cases hout : p.outcome with
      | none => simp [hout] at hmem
      | some out =>
        obtain rfl : k = j := by simpa [hout] using hmem
        exact ⟨_, .inr ⟨rfl, rfl⟩, by rw [isOver_after, hout]; rfl⟩
  · rintro ⟨tk, ⟨-, htk⟩ | ⟨rfl, rfl⟩, hover⟩
    · exact .inl ⟨tk, htk, hover⟩
    · rw [isOver_after] at hover
      exact .inr (by simp [hover])

/-- No permit is released twice. -/
theorem Accounts.nodup_settle (ha : w.Accounts h) (hj : w.tasks[j]? = some ⟨d, pc⟩)
    (hpc : pc.isOver = false) : (h.released ++ w.releases (w.settle j p) j).Nodup := by
  unfold releases
  split
  · -- a task that was over before would have released twice
    refine List.nodup_append.mpr ⟨ha.nodup, List.nodup_singleton j, ?_⟩
    rintro a hmem b hb rfl
    obtain rfl := List.mem_singleton.mp hb
    obtain ⟨tk, htk, hover⟩ := (ha.released a).mp hmem
    obtain rfl := Option.some.inj (hj.symm.trans htk)
    exact absurd hover (by simp [hpc])
  · rw [List.append_nil]
    exact ha.nodup

/-- The permits add up when a task has got on: one more where there is one unfinished task less. -/
theorem Accounts.permits_settle (ha : w.Accounts h) (hj : w.tasks[j]? = some ⟨d, pc⟩)
    (hpc : pc.isOver = false) :
    (w.settle j p).permits + (w.settle j p).tasks.countP Task.unfinished =
      (w.settle j p).runner.maxConcurrency := by
  have hold := ha.permits
  have hset := countP_set_add (p := Task.unfinished) (y := ⟨d, .after p⟩) hj
  simp only [Task.unfinished, hpc, isOver_after, Bool.not_false, if_true] at hset
  rw [settle_tasks, setTask_tasks hj, settle_permits, settle_runner]
  cases hout : p.outcome with
  | none =>
    rw [hout] at hset
    have hsame : (w.tasks.set j ⟨d, .after p⟩).countP Task.unfinished =
        w.tasks.countP Task.unfinished := Nat.add_right_cancel hset
    simpa [hsame] using hold
  | some out =>
    rw [hout] at hset
    have hless : (w.tasks.set j ⟨d, .after p⟩).countP Task.unfinished + 1 =
        w.tasks.countP Task.unfinished := hset
    simp only [Option.isSome_some, if_true]
    omega

/-- A task that gets on stays in the inflight set. -/
theorem Accounts.inflight_settle (ha : w.Accounts h) (hj : w.tasks[j]? = some ⟨d, pc⟩)
    (hpc : pc.isOver = false) (k : Nat) :
    k ∈ h.inflight ↔ ∃ tk, (w.settle j p).tasks[k]? = some tk ∧ ∀ d, tk ≠ ⟨d, .discarded⟩ := by
  rw [ha.inflight]
  simp only [settle_tasks, getElem?_setTask hj]
  constructor
  · rintro ⟨tk, htk, hne⟩
    by_cases hk : k = j
    · subst hk
      refine ⟨_, .inr ⟨rfl, rfl⟩, fun d' h => ?_⟩
      have hafter := (Task.mk.inj h).2
      unfold TaskPc.after at hafter
      split at hafter <;> cases hafter
    · exact ⟨tk, .inl ⟨hk, htk⟩, hne⟩
  · rintro ⟨tk, ⟨-, htk⟩ | ⟨rfl, rfl⟩, hne⟩
    · exact ⟨tk, htk, hne⟩
    · refine ⟨_, hj, fun d' h => ?_⟩
      obtain ⟨-, rfl⟩ := Task.mk.inj h
      cases hpc

/-- A task goes on: at its end it releases its permit, and at its beginning it may pass its entry
on. -/
theorem Accounts.settle (ha : w.Accounts h) {l : List Delivery} (hj : w.tasks[j]? = some ⟨d, pc⟩)
    (hpc : pc.isOver = false) (hld : l ⊆ [d])
    (hl : ∀ id, (l.map Delivery.entryId).count id + (if Task.passed id ⟨d, pc⟩ then 1 else 0) =
      if Task.passed id ⟨d, .after p⟩ then 1 else 0) :
    (w.settle j p).Accounts { h with
      executed := h.executed ++ l
      released := h.released ++ w.releases (w.settle j p) j } where
  acquired := by
    rw [settle_tasks, setTask_tasks hj, List.length_set]
    exact ha.acquired
  nodup := ha.nodup_settle hj hpc
  released := ha.released_settle hj hpc
  permits := ha.permits_settle hj hpc
  executed := by
    intro id
    have hset := countP_set_add (p := Task.passed id) (y := ⟨d, .after p⟩) hj
    have hold := ha.executed id
    have hnew := hl id
    rw [settle_tasks, setTask_tasks hj, List.map_append, List.count_append]
    omega
  given := by
    rw [settle_tasks, setTask_map_delivery hj]
    refine List.append_subset.mpr ⟨ha.given, fun x hx => ?_⟩
    obtain rfl := List.mem_singleton.mp (hld hx)
    exact List.mem_map_of_mem (List.mem_of_getElem? hj)
  returned := by
    rw [settle_tasks, setTask_map_delivery hj, settle_loop]
    exact ha.returned
  complete := by
    rw [settle_tasks, setTask_map_delivery hj, settle_loop]
    exact ha.complete
  inflight := ha.inflight_settle hj hpc

end Settle

/-- The done-callback of a task that is over takes it out of the inflight set. -/
theorem Accounts.discard (ha : w.Accounts h) {j : Nat} {d : Delivery}
    (hj : w.tasks[j]? = some ⟨d, .ended⟩) : (w.setTask j .discarded).Accounts { h with
      inflight := h.inflight.filter fun k => k ≠ j } where
  acquired := by
    rw [setTask_tasks hj, List.length_set]
    exact ha.acquired
  nodup := ha.nodup
  released := by
    intro k
    rw [ha.released]
    simp only [getElem?_setTask hj]
    constructor
    · rintro ⟨tk, htk, hover⟩
      by_cases hk : k = j
      · exact ⟨_, .inr ⟨hk, rfl⟩, rfl⟩
      · exact ⟨tk, .inl ⟨hk, htk⟩, hover⟩
    · rintro ⟨tk, ⟨-, htk⟩ | ⟨rfl, -⟩, hover⟩
      · exact ⟨tk, htk, hover⟩
      · exact ⟨_, hj, rfl⟩
  permits := by
    have hset := countP_set_add (p := Task.unfinished) (y := ⟨d, .discarded⟩) hj
    rw [setTask_tasks hj, Nat.add_right_cancel hset]
    exact ha.permits
  executed := by
    intro id
    have hset := countP_set_add (p := Task.passed id) (y := ⟨d, .discarded⟩) hj
    rw [setTask_tasks hj, Nat.add_right_cancel hset]
    exact ha.executed id
  given := by
    rw [setTask_map_delivery hj]
    exact ha.given
  returned := by
    rw [setTask_map_delivery hj]
    exact ha.returned
  complete := by
    rw [setTask_map_delivery hj]
    exact ha.complete
  inflight := by
    intro k
    rw [List.mem_filter, ha.inflight, decide_eq_true_iff]
    simp only [getElem?_setTask hj]
    constructor
    · rintro ⟨⟨tk, htk, hne⟩, hk⟩
      exact ⟨tk, .inl ⟨hk, htk⟩, hne⟩
    · rintro ⟨tk, ⟨hk, htk⟩ | ⟨-, rfl⟩, hne⟩
      · exact ⟨⟨tk, htk, hne⟩, hk⟩
      · exact absurd rfl (hne d)

/-- The inflight set holds the tasks whose callback has not run. -/
theorem mem_inflight {j : Nat} : j ∈ w.inflight ↔
    ∃ tk, w.tasks[j]? = some tk ∧ ∀ d, tk ≠ ⟨d, .discarded⟩ := by
  rw [Worker.inflight, List.mem_filter, List.mem_range]
  constructor
  · rintro ⟨hlt, hpc⟩
    refine ⟨_, List.getElem?_eq_getElem hlt, fun d heq => ?_⟩
    simp [List.getElem?_eq_getElem hlt, heq] at hpc
  · rintro ⟨⟨d, pc⟩, htk, hne⟩
    refine ⟨(List.getElem?_eq_some_iff.mp htk).1, ?_⟩
    cases pc with
    | discarded => exact absurd rfl (hne d)
    | created | running _ | ended => simp [htk]

/-- A list is counted by its indices. -/
theorem countP_range_getElem? {β : Type} (p : β → Bool) (l : List β) :
    ((List.range l.length).countP fun j => (l[j]?).any p) = l.countP p := by
  induction l using List.reverseRecOn with
  | nil => rfl
  | append_singleton l x ih =>
    have hinit : ((List.range l.length).countP fun j => ((l ++ [x])[j]?).any p) = l.countP p := by
      rw [← ih]
      refine List.countP_congr fun j hj => ?_
      rw [List.getElem?_append_left (List.mem_range.mp hj)]
    rw [List.length_append, List.length_singleton, List.range_succ, List.countP_append, hinit,
      List.countP_append, List.countP_singleton, List.countP_singleton,
      List.getElem?_concat_length, Option.any_some]

/-- A permit that is acquired and not yet released is that of a task which is not over. -/
theorem Accounts.held (ha : w.Accounts h) :
    (h.acquired.filter fun j => j ∉ h.released).length = w.tasks.countP Task.unfinished := by
  rw [ha.acquired, ← List.countP_eq_length_filter,
    ← countP_range_getElem? Task.unfinished w.tasks]
  refine List.countP_congr fun j hj => ?_
  obtain ⟨tk, htk⟩ : ∃ tk, w.tasks[j]? = some tk :=
    ⟨_, List.getElem?_eq_getElem (List.mem_range.mp hj)⟩
  simp [ha.released, htk, Task.unfinished]

/-- A worker whose permits add up has one free, or a task that will release one. -/
theorem Accounts.supplied (ha : w.Accounts h) (hpos : 0 < w.runner.maxConcurrency) :
    0 < w.permits ∨ w.busy = true := by
  by_contra hnot
  obtain ⟨hperm, hbusy⟩ := not_or.mp hnot
  have hnone : w.tasks.countP Task.unfinished = 0 :=
    List.countP_eq_zero.mpr fun tk htk hun => hbusy (List.any_eq_true.mpr ⟨tk, htk, hun⟩)
  have := ha.permits
  omega

/-- A task that is over has released its permit once. -/
theorem Accounts.count_released (ha : w.Accounts h) {j : Nat} {tk : Task}
    (hj : w.tasks[j]? = some tk) : h.released.count j = if tk.pc.isOver then 1 else 0 := by
  rw [ha.nodup.count]
  simp [ha.released, hj]

/-- Whether it has returned before does not matter to what a task has passed on. -/
theorem passed_after {id : Nat} {d : Delivery} (p : Py Unit) :
    Task.passed id ⟨d, .after p⟩ = (d.job.typed?.isSome && decide (d.entryId = id)) := by
  unfold TaskPc.after
  cases p.outcome <;> rfl

variable [Codec]

/-- When a call of the loop is answered, what its poll returned becomes the batch in hand. -/
theorem loop_of_step {me : Nat} {s s' : World} {ans : Answer} {now : DateTime}
    (hx : w.step me s (.loop ans now) = some (s', w')) :
    w'.runner = w.runner ∧ w'.tasks = w.tasks ∧ w'.permits = w.permits ∧ w.loop.batch = [] ∧
      w.pollResult me s ans now = w'.loop.batch := by
  cases act_of_step hx with
  | ensure hloop haw =>
    rename_i out
    have hres : w.pollResult me s ans now = [] := by simp only [pollResult, hloop]
    cases out with
    | ok u => exact ⟨rfl, rfl, rfl, by rw [hloop]; rfl, hres.trans (headPc_batch w).symm⟩
    | error e => exact ⟨rfl, rfl, rfl, by rw [hloop]; rfl, hres⟩
  | check hloop hc haw =>
    have hres : w.pollResult me s ans now = [] := by simp only [pollResult, hloop]
    exact ⟨rfl, rfl, rfl, by rw [hloop]; rfl, hres.trans (afterCheck_batch _ _).symm⟩
  | poll hloop haw =>
    refine ⟨rfl, rfl, rfl, by rw [hloop]; rfl, ?_⟩
    simp only [pollResult, hloop, haw]
    rename_i out
    cases out with
    | ok ds => exact (batchPc_batch w ds).symm
    | error e =>
      dsimp only [afterPoll]
      split <;> rfl

/-- **Every step keeps the accounts**, unless it cancels a task. -/
theorem Accounts.step (ha : w.Accounts h) {me : Nat} {s s' : World} {l : WorkerLabel}
    (hl : ∀ j, l ≠ .cancelTask j) (hx : w.step me s l = some (s', w')) :
    w'.Accounts (h.next w me s w' l) := by
  cases act_of_step hx with
  | ensure | check | poll =>
    obtain ⟨hr, ht, hp, hb, hres⟩ := loop_of_step hx
    simp only [WorkerHistory.next, hres]
    exact ha.poll hr ht hp hb
  | wake hloop _ => exact ha.congr rfl rfl rfl ((headPc_batch w).trans (by rw [hloop]; rfl))
  | acquire hloop hp => exact ha.spawnTask hloop hp
  | leave | abandon => exact ha.drop rfl rfl rfl rfl
  | @start j d hj =>
    -- its first step passes its entry on to the executor, if the job is well typed
    refine ha.settle hj rfl ?_ fun id => ?_
    · rw [passes, hj]
      dsimp only
      split <;> simp
    · rw [passed_after, passes, hj]
      cases htyped : d.job.typed?.isSome with
      | true => simp [htyped, Task.passed, List.count_singleton]
      | false => simp [htyped, Task.passed]
  | @task j d p p' _ _ hj _ =>
    -- a task that goes on passes nothing on again
    have hset := ha.settle (p := p') (l := []) hj rfl (List.nil_subset _) fun id => by
      rw [passed_after]
      exact Nat.zero_add _
    rwa [List.append_nil] at hset
  | @cancelTask j _ _ => exact absurd rfl (hl j)
  | callback hj => exact ha.discard hj
  | claim | wakeRecovery | cancelRecovery | requestShutdown => exact ha.congr rfl rfl rfl rfl
  | join hloop _ => exact ha.congr rfl rfl rfl (by rw [hloop]; dsimp only; split <;> rfl)
  | drained hloop _ | timeUp hloop _ _ | lapse hloop _ =>
    exact ha.congr rfl rfl rfl (by rw [hloop]; rfl)

end Worker

end RelayQ

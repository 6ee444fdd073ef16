import RelayQ.System.Progress
import RelayQ.System.Typed

/-! # When a pending entry is executed again

A pending entry comes back to a worker only through a claim, and what a claim returns is logged and
dropped; a poll brings what was never delivered. So the job of a pending entry is passed to `execute`
again only by a worker that still holds it from its delivery.

* `Worker.Holds`, `Sys.Held`: a living worker holds the entry, in a task that has not started or in
  the batch it works off.
* `Sys.Redelivers`: the program can come to pass its job to `execute`.
* `Sys.redelivers_iff`: the two are the same. -/

namespace RelayQ

/-- The entry was delivered to the group, which has not acknowledged it. -/
def World.Pending (w : World) (t : RedisStreamTransport) (queue : String) (entryId : Nat) : Prop :=
  ∃ grp, (w.redis (t.streamKey queue)).groups (t.groupKey queue) = some grp ∧
    entryId ∈ grp.pel.map Redis.PendingEntry.id

/-- What is pending was delivered. -/
theorem World.Pending.delivered {w : World} {t : RedisStreamTransport} {queue : String}
    {entryId : Nat} (h : w.Pending t queue entryId) (hwf : w.redis.Wf) :
    w.Delivered t queue entryId := by
  obtain ⟨grp, hg, hmem⟩ := h
  obtain ⟨p, hp, rfl⟩ := List.mem_map.mp hmem
  exact ⟨grp, hg, ((hwf _).groups _ grp hg).pel_le p hp⟩

/-- The worker holds the entry: a task for it has not started, or it is in the batch in hand, and a
permit is free or some task will release one. -/
def Worker.Holds (w : Worker) (entryId : Nat) : Prop :=
  (∃ d, ⟨d, .created⟩ ∈ w.tasks ∧ d.entryId = entryId) ∨
    (∃ d ∈ w.loop.batch, d.entryId = entryId) ∧ (0 < w.permits ∨ w.busy = true)

/-- A living worker of the queue holds the entry. -/
def Sys.Held (s : Sys) (queue : String) (entryId : Nat) : Prop :=
  ∃ w ∈ s.workers, w.alive = true ∧ w.runner.queue = queue ∧ w.Holds entryId

section

variable [Codec]

/-- The step from `s` to `s'` passes the job of the entry to `execute`. -/
def Sys.Executes (s s' : Sys) (queue : String) (entryId : Nat) : Prop :=
  ∃ i j w d job, s.workers[i]? = some w ∧ w.tasks[j]? = some ⟨d, .created⟩ ∧
    d.entryId = entryId ∧ w.runner.queue = queue ∧
    w.runner.processJob d = Executor.logged (w.runner.executor.execute queue entryId job) ∧
    s.step (.worker i (.startTask j)) = some s'

/-- The program on its own can come to pass the job of the entry to `execute`. -/
def Sys.Redelivers (s : Sys) (queue : String) (entryId : Nat) : Prop :=
  ∃ s₁ s₂, s.Continues s₁ ∧ s₁.Executes s₂ queue entryId

variable {s s' : Sys} {t : RedisStreamTransport} {queue : String} {entryId i : Nat} {w : Worker}

namespace Sys

/-! ## What is held is executed -/

/-- A task that has not started can start. -/
theorem redelivers_of_created (htyped : s.Typed t) (hw : s.workers[i]? = some w)
    (ha : w.alive = true) {d : Delivery} (hmem : ⟨d, .created⟩ ∈ w.tasks) :
    s.Redelivers w.runner.queue d.entryId := by
  obtain ⟨j, hj⟩ := List.mem_iff_getElem?.mp hmem
  have hd : d ∈ w.deliveries := List.mem_append_right _ (List.mem_map.mpr ⟨_, hmem, rfl⟩)
  obtain ⟨job, hjob⟩ := Option.isSome_iff_exists.mp (htyped.jobs w (List.mem_of_getElem? hw) d hd)
  have hsome : (s.step (.worker i (.startTask j))).isSome = true := by
    simp only [step, hw, ha, if_true, Worker.step, Worker.stepStart, hj, Option.map_some,
      Option.isSome_some]
  obtain ⟨s', hs'⟩ := Option.isSome_iff_exists.mp hsome
  refine ⟨s, s', .refl, i, j, w, d, job, hw, hj, rfl, rfl, ?_, hs'⟩
  simp only [WorkerRunner.processJob, hjob]

/-- A batch in hand can be worked off until the entry has its task. -/
theorem redelivers_of_batch (hwired : s.Wired t) (htyped : s.Typed t)
    (hsus : ∀ w ∈ s.workers, w.Suspended) {rest : List Delivery} {d : Delivery}
    (hw : s.workers[i]? = some w) (ha : w.alive = true) (hloop : w.loop = .acquiring d rest)
    (hperm : 0 < w.permits ∨ w.busy = true) {d' : Delivery} (hd' : d' ∈ d :: rest) :
    s.Redelivers w.runner.queue d'.entryId := by
  induction rest generalizing s w d with
  | nil =>
    obtain ⟨s₁, w₁, hs₁, hw₁, ha₁, hr₁, -, -, hmem⟩ :=
      exists_spawn hw ha (hsus w (List.mem_of_getElem? hw)) hloop hperm
    obtain rfl := List.mem_singleton.mp hd'
    obtain ⟨s₂, s₃, hs₂, hex⟩ := redelivers_of_created (hs₁.run.typed hwired htyped) hw₁ ha₁ hmem
    exact ⟨s₂, s₃, hs₁.trans hs₂, hr₁ ▸ hex⟩
  | cons d₁ rest ih =>
    obtain ⟨s₁, w₁, hs₁, hw₁, ha₁, hr₁, -, hloop₁, hmem⟩ :=
      exists_spawn hw ha (hsus w (List.mem_of_getElem? hw)) hloop hperm
    have htyped₁ := hs₁.run.typed hwired htyped
    have hred : s₁.Redelivers w₁.runner.queue d'.entryId := by
      rcases List.mem_cons.mp hd' with rfl | hd'
      · exact redelivers_of_created htyped₁ hw₁ ha₁ hmem
      · -- the task just created will release a permit
        exact ih (hs₁.run.wired hwired) htyped₁ (hs₁.run.suspended (t := t) hsus) hw₁ ha₁ hloop₁
          (.inr (List.any_eq_true.mpr ⟨_, hmem, rfl⟩)) hd'
    obtain ⟨s₂, s₃, hs₂, hex⟩ := hred
    exact ⟨s₂, s₃, hs₁.trans hs₂, hr₁ ▸ hex⟩

/-- **What a living worker holds can be executed.** -/
theorem redelivers_of_held (hwired : s.Wired t) (htyped : s.Typed t)
    (hsus : ∀ w ∈ s.workers, w.Suspended) (h : s.Held queue entryId) :
    s.Redelivers queue entryId := by
  obtain ⟨w, hmem, ha, rfl, hhold⟩ := h
  obtain ⟨i, hw⟩ := List.mem_iff_getElem?.mp hmem
  rcases hhold with ⟨d, hd, rfl⟩ | ⟨⟨d', hd', rfl⟩, hperm⟩
  · exact redelivers_of_created htyped hw ha hd
  · cases hloop : w.loop with
    | acquiring d rest =>
      rw [hloop] at hd'
      exact redelivers_of_batch hwired htyped hsus hw ha hloop hperm hd'
    | _ =>
      rw [hloop] at hd'
      cases hd'

end Sys

/-! ## What is not held stays so -/

omit [Codec] in
/-- A task that is created was so before another one got on. -/
theorem Worker.created_of_setTask {j : Nat} {pc : TaskPc} {d : Delivery} (hpc : pc ≠ .created)
    (h : ⟨d, .created⟩ ∈ (w.setTask j pc).tasks) : ⟨d, .created⟩ ∈ w.tasks := by
  rcases mem_setTask h with h | ⟨d₀, pc₀, -, heq⟩
  · exact h
  · exact absurd (Task.mk.inj heq).2.symm hpc

omit [Codec] in
/-- A task that goes on is not one that has not started. -/
theorem TaskPc.after_ne_created (p : Py Unit) : TaskPc.after p ≠ .created := by
  unfold TaskPc.after
  cases p.outcome <;> exact fun h => nomatch h

omit [Codec] in
/-- What a worker holds after a task of it went on it held before. -/
theorem Worker.holds_of_settle {j : Nat} {p : Py Unit} (hbusy : w.busy = true)
    (h : (w.settle j p).Holds entryId) : w.Holds entryId := by
  rcases h with ⟨d, hd, hid⟩ | ⟨hbatch, -⟩
  · rw [settle_tasks] at hd
    exact .inl ⟨d, created_of_setTask (TaskPc.after_ne_created p) hd, hid⟩
  · rw [settle_loop] at hbatch
    exact .inr ⟨hbatch, .inr hbusy⟩

/-- **No move of a worker makes it hold an entry that was delivered before.** -/
theorem Worker.holds_of_move {me : Nat} {world world' : World} {w' : Worker}
    (huses : w.runner.uses t.streamPrefix) (hdel : world.Delivered t w.runner.queue entryId)
    (hm : Move me w world world' w') (h : w'.Holds entryId) : w.Holds entryId := by
  have hnone : ∀ {ds : List Delivery}, ds = [] → ¬ ∃ d ∈ ds, d.entryId = entryId := by
    rintro ds rfl ⟨d, hd, -⟩
    cases hd
  cases hm with
  | loop hb hr =>
    refine h.imp_right fun ⟨⟨d, hd, hid⟩, hperm⟩ => ⟨⟨d, hb hd, hid⟩, hperm⟩
  | recovery => exact h
  | shutdown => exact h
  | claim hc hx => exact h
  | ensure hx hb hr => exact h.imp_right fun ⟨hd, _⟩ => absurd hd (hnone hb)
  | check hc hloop hx hb => exact h.imp_right fun ⟨hd, _⟩ => absurd hd (hnone hb)
  | poll now hloop hx hb =>
    refine h.imp_right fun ⟨⟨d, hd, hid⟩, _⟩ => ?_
    -- a poll brings only what was not delivered
    obtain ⟨results, ds, rfl, hdec, hmem⟩ := hb d hd
    obtain ⟨p, hp, e, he, heid, -⟩ := w.runner.transport.mem_decodeReply hdec hmem
    obtain ⟨grp, hg, -, -, hres⟩ := World.exec_xreadgroup hx
    rw [hres p hp] at he
    obtain ⟨grp', hg', hle⟩ := hdel
    rw [RedisStreamTransport.streamKey_congr huses.1,
      RedisStreamTransport.groupKey_congr huses.1] at hg
    obtain rfl := Option.some.inj (hg.symm.trans hg')
    have hlt := (Redis.Stream.mem_of_mem_deliver he).2
    omega
  | @spawn d rest hloop hperm =>
    rcases h with ⟨d', hd', hid⟩ | ⟨⟨d', hd', hid⟩, -⟩
    · rcases List.mem_append.mp hd' with hd' | hd'
      · exact .inl ⟨d', hd', hid⟩
      · obtain ⟨rfl, -⟩ := Task.mk.inj (List.mem_singleton.mp hd')
        exact .inr ⟨⟨d', by simp [hloop, LoopPc.batch], hid⟩, .inl hperm⟩
    · simp only [spawnTask, batchPc_batch] at hd'
      exact .inr ⟨⟨d', by simp [hloop, LoopPc.batch, hd'], hid⟩, .inl hperm⟩
  | start hi =>
    exact holds_of_settle (busy_of_getElem? hi rfl) h
  | task hi hx =>
    exact holds_of_settle (busy_of_getElem? hi rfl) h
  | @retire j d pc pc' hi hpc hover =>
    have hne : pc' ≠ .created := fun hc => by rw [hc] at hover; cases hover
    rcases h with ⟨d', hd', hid⟩ | ⟨hbatch, hperm⟩
    · exact .inl ⟨d', created_of_setTask hne hd', hid⟩
    · exact .inr ⟨hbatch, hperm.imp_right (busy_of_setTask hover)⟩

namespace Sys

/-- What nobody holds is held by nobody after a step the program takes on its own. -/
theorem held_of_own {l : SysLabel} (hwired : s.Wired t) (hdel : s.world.Delivered t queue entryId)
    (hl : l.own = true) (hs : s.step l = some s') (h : s'.Held queue entryId) :
    s.Held queue entryId := by
  obtain ⟨w', hmem, ha', hq, hhold⟩ := h
  rcases step_cases hs with ⟨pl, p, rfl, -, hp, rfl⟩ | ⟨r, site, rfl, rfl⟩ |
    ⟨i, wl, w, world, w₁, rfl, hi, ha, hx, rfl⟩
  · cases pl with
    | env e => exact ⟨w', hmem, ha', hq, hhold⟩
    | start _ _ | answer _ _ | crash _ => cases hl
  · cases hl
  · rcases List.mem_or_eq_of_mem_set hmem with hmem | rfl
    · exact ⟨w', hmem, ha', hq, hhold⟩
    · have hw := List.mem_of_getElem? hi
      have hm := Worker.step_move hx
      rw [hm.frame.1] at hq
      subst hq
      exact ⟨w, hw, ha, rfl, Worker.holds_of_move (hwired.workers w hw).uses hdel hm hhold⟩

/-- **What nobody holds is not executed.** -/
theorem held_of_redelivers (hwired : s.Wired t) (hdel : s.world.Delivered t queue entryId)
    (h : s.Redelivers queue entryId) : s.Held queue entryId := by
  obtain ⟨s₁, s₂, hs, i, j, w, d, job, hw, hj, rfl, rfl, -, hstep⟩ := h
  have ha : w.alive = true := by
    simp only [step, hw] at hstep
    split at hstep
    · assumption
    · cases hstep
  have hheld : s₁.Held w.runner.queue d.entryId :=
    ⟨w, List.mem_of_getElem? hw, ha, rfl, .inl ⟨d, List.mem_of_getElem? hj, rfl⟩⟩
  -- backwards along the run
  have hinv : s₁.Wired t ∧ s₁.world.Delivered t w.runner.queue d.entryId ∧
      (s₁.Held w.runner.queue d.entryId → s.Held w.runner.queue d.entryId) := by
    refine Reaches.invariant (P := fun u : Sys => u.Wired t ∧
      u.world.Delivered t w.runner.queue d.entryId ∧
      (u.Held w.runner.queue d.entryId → s.Held w.runner.queue d.entryId))
      (fun u v l hu hl hstep => ?_) hs ⟨hwired, hdel, id⟩
    obtain ⟨hwu, hdu, hhu⟩ := hu
    have hrun := Continues.run (t := t) (Reaches.single hl hstep)
    exact ⟨hrun.wired hwu, (hrun.le hwu).delivered hdu,
      fun h => hhu (held_of_own hwu hdu hl hstep h)⟩
  exact hinv.2.2 hheld

/-- **When a pending entry can be executed again**: exactly if a living worker of its queue still
holds it from its delivery. -/
theorem redelivers_iff (hrun : Run t init s) (hp : s.world.Pending t queue entryId) :
    s.Redelivers queue entryId ↔ s.Held queue entryId := by
  have hwired := hrun.wired wired_init
  constructor
  · exact held_of_redelivers hwired (hp.delivered hwired.redis)
  · exact redelivers_of_held hwired (hrun.typed wired_init typed_init)
      (hrun.suspended (by simp [init]))

end Sys

end

/-- What a worker that has just polled has in hand can be executed. -/
theorem Sys.redelivers_polled : ∃ s : Sys, s.world.Pending Sample.transport "default" 1 ∧
    s.Redelivers "default" 1 := by
  obtain ⟨s, hs, hworkers, -, -, hg, -⟩ := Sample.exists_polled "1"
  have hrun : Sys.Run Sample.transport Sys.init s := hs.mono fun _ l hl => hl.1
  have hp : s.world.Pending Sample.transport "default" 1 := ⟨_, hg, by simp⟩
  refine ⟨s, hp, (Sys.redelivers_iff hrun hp).mpr
    ⟨Sample.polled "1", by simp [hworkers], rfl, rfl, .inr ⟨⟨_, List.mem_singleton_self _, rfl⟩, .inl ?_⟩⟩⟩
  decide

/-- What a worker had in hand when it died is never executed again, whatever the recovery task of
another worker claims. -/
theorem Sys.not_redelivers_crashed : ¬ ∀ s : Sys, Sys.Run Sample.transport Sys.init s →
    (∀ w ∈ s.workers, w.runner.queue = "default" ∧ w.runner.recovery.isSome = true) →
    (∃ w ∈ s.workers, w.alive = true ∧ w.shutdown = false) →
    ∀ entryId, s.world.Pending Sample.transport "default" entryId →
      (∃ e ∈ (s.world.redis (Sample.transport.streamKey "default")).entries, e.id = entryId ∧
        ∀ now, ∃ j, Sample.transport.decodeEntry now e.fields = .job j) →
      (∀ w ∈ s.workers, ∀ d p, ⟨d, .running p⟩ ∈ w.tasks → d.entryId ≠ entryId) →
      s.Redelivers "default" entryId := by
  intro h
  obtain ⟨s, hs, hworkers, -, hent, hg, -⟩ := Sample.exists_polled "1"
  have hrun : Sys.Run Sample.transport Sys.init s := hs.mono fun _ l hl => hl.1
  -- the worker dies, and another one starts
  obtain ⟨s', hs', hworld, hworkers'⟩ : ∃ s', Sys.Run Sample.transport s s' ∧
      s'.world.redis = s.world.redis ∧ s'.workers =
        [{ Sample.polled "1" with alive := false }, (Sample.runner "2").spawn 2] := by
    refine ⟨_, .tail (l := .spawn (Sample.runner "2") 2)
      (.single (l := .pool (.crash 1)) trivial rfl) (Sample.opening_spawn "2" 2).1 rfl, rfl, ?_⟩
    simp only [Sys.killed, hworkers]
    rfl
  have hrun' : Sys.Run Sample.transport Sys.init s' := hrun.trans hs'
  have hp : s'.world.Pending Sample.transport "default" 1 := ⟨_, hworld ▸ hg, by simp⟩
  have hred := h s' hrun' (fun w hw => ?_) ⟨(Sample.runner "2").spawn 2, by simp [hworkers'], rfl, rfl⟩
    1 hp ?_ fun w hw d p hd => ?_
  · -- nobody holds it
    obtain ⟨w, hw, halive, -, hhold⟩ := Sys.held_of_redelivers (hrun'.wired Sys.wired_init)
      (hp.delivered (hrun'.wired Sys.wired_init).redis) hred
    rw [hworkers'] at hw
    rcases List.mem_cons.mp hw with rfl | hw
    · cases halive
    · obtain rfl := List.mem_singleton.mp hw
      rcases hhold with ⟨d, hd, -⟩ | ⟨⟨d, hd, -⟩, -⟩ <;> exact absurd hd List.not_mem_nil
  · rw [hworkers'] at hw
    rcases List.mem_cons.mp hw with rfl | hw
    · exact ⟨rfl, rfl⟩
    · obtain rfl := List.mem_singleton.mp hw
      exact ⟨rfl, rfl⟩
  · refine ⟨⟨1, RedisStreamTransport.jobBody Sample.job⟩, ?_, rfl, fun now =>
      ⟨_, Sample.transport.decodeEntry_jobBody now Sample.job⟩⟩
    rw [hworld, hent]
    exact List.mem_singleton_self _
  · rw [hworkers'] at hw
    rcases List.mem_cons.mp hw with rfl | hw
    · exact absurd hd List.not_mem_nil
    · obtain rfl := List.mem_singleton.mp hw
      exact absurd hd List.not_mem_nil

end RelayQ

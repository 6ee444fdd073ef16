import RelayQ.Guarantees.Redelivery
import RelayQ.Worker.History

/-! # The bulkhead of a worker

What is kept through every schedule of the loop, its tasks and their callbacks is that a permit is
free or belongs to a task that is not over.

* `Sys.observe`: the steps of the system, the history of one worker kept beside them.
* `Sys.Bulkhead`, `Sys.bulkhead`: the guarantee, at every moment of every run. -/

namespace RelayQ

/-- The history of worker `i` after a step of the system. -/
def Sys.record [Codec] (i : Nat) (s s' : Sys) (h : WorkerHistory) : SysLabel → WorkerHistory
  | .worker k l =>
    if k = i then
      match s.workers[i]?, s'.workers[i]? with
      | some w, some w' => h.next w i s.world w' l
      | _, _ => h
    else h
  | _ => h

/-- A step of the system beside which the history of worker `i` is kept. -/
def Sys.observe [Codec] (i : Nat) (x : Sys × WorkerHistory) (l : SysLabel) :
    Option (Sys × WorkerHistory) :=
  (x.1.step l).map fun s' => (s', x.1.record i s' x.2 l)

/-- The entry waits for its `execute` call: in the batch in hand or in a task that has not
started. -/
def Worker.Waits (w : Worker) (entryId : Nat) : Prop :=
  (∃ d ∈ w.loop.batch, d.entryId = entryId) ∨ ∃ d, ⟨d, .created⟩ ∈ w.tasks ∧ d.entryId = entryId

/-- **The bulkhead of worker `i`**, at one moment. -/
structure Sys.Bulkhead [Codec] (s : Sys) (i : Nat) (w : Worker) (h : WorkerHistory) : Prop where
  /-- A permit is free, or acquired and not yet released. -/
  permits : w.permits + (h.acquired.filter fun j => j ∉ h.released).length =
    w.runner.maxConcurrency
  /-- A task acquires one permit. -/
  acquired : h.acquired = List.range w.tasks.length
  /-- It has released it once if it is over, and has not otherwise. -/
  released : ∀ j tk, w.tasks[j]? = some tk → h.released.count j = if tk.pc.isOver then 1 else 0
  /-- Only these permits are released. -/
  released_acquired : h.released ⊆ h.acquired
  /-- At most `max_concurrency` calls of `execute` are in progress. -/
  executing : w.tasks.countP Task.executing ≤ w.runner.maxConcurrency
  /-- No entry is passed to `execute` that was not returned by `read_group`, and none twice. -/
  once : h.executed ⊆ h.returned ∧ (h.executed.map Delivery.entryId).Nodup
  /-- If the loop is not cancelled, every entry returned is passed on once or waits for it, -/
  complete : h.cancelled = false → ∀ d ∈ h.returned,
    (h.executed.map Delivery.entryId).count d.entryId = 1 ∨ w.Waits d.entryId
  /-- and what waits comes to be passed on. -/
  waits : w.alive = true → 1 ≤ w.runner.maxConcurrency → ∀ id, w.Waits id →
    s.Redelivers w.runner.queue id
  /-- Every unfinished task is in the inflight set, and in the one `drain` is called with. -/
  drain : ∀ j tk, w.tasks[j]? = some tk → tk.pc.isOver = false → j ∈ h.inflight ∧
    ∀ world w', w.loop = .joining → w.step i s.world .drain = some (world, w') →
      ∃ ts deadline, w'.loop = .draining ts deadline ∧ j ∈ ts

section

variable [Codec] {t : RedisStreamTransport} {s s' : Sys} {i : Nat} {w : Worker}
  {h h' : WorkerHistory}

/-- What a poll returns are entries in ascending order that were not delivered before. -/
theorem Worker.Wired.pollResult {world : World} (hw : w.Wired t world) (hwf : world.redis.Wf)
    (me : Nat) (ans : Answer) (now : DateTime) :
    ((w.pollResult me world ans now).map Delivery.entryId).Nodup ∧
      ∀ d ∈ w.pollResult me world ans now, ¬ world.Delivered t w.runner.queue d.entryId := by
  unfold Worker.pollResult
  split
  · rename_i w₁ ds hloop haw
    obtain ⟨grp, hg, hsub⟩ := RedisStreamTransport.sublist_of_await_readGroup haw
    rw [RedisStreamTransport.streamKey_congr hw.uses.1] at hg hsub
    rw [RedisStreamTransport.groupKey_congr hw.uses.1] at hg
    constructor
    · exact hsub.nodup ((Redis.Stream.deliver_ids_sorted (hwf _) _ _ _).imp Nat.ne_of_lt)
    · intro d hd hdel
      obtain ⟨grp', hg', hle⟩ := hdel
      obtain rfl := Option.some.inj (hg.symm.trans hg')
      obtain ⟨e, he, hid⟩ := List.mem_map.mp (hsub.subset (List.mem_map_of_mem hd))
      have hlt := (Redis.Stream.mem_of_mem_deliver he).2
      omega
  · exact ⟨List.nodup_nil, fun d hd => nomatch hd⟩

namespace Sys

/-- What is known of worker `i` and its history at every moment of a run. -/
structure Observed (t : RedisStreamTransport) (i : Nat) (s : Sys) (h : WorkerHistory) : Prop where
  wired : s.Wired t
  typed : s.Typed t
  suspended : ∀ w ∈ s.workers, w.Suspended
  fresh : s.workers[i]? = none → h = {}
  accounts : ∀ w, s.workers[i]? = some w → w.Accounts h ∧
    ∀ d ∈ h.returned, s.world.Delivered t w.runner.queue d.entryId
  nodup : (h.returned.map Delivery.entryId).Nodup

/-- Before anything runs nothing has been observed. -/
theorem observed_init : init.Observed t i {} where
  wired := wired_init
  typed := typed_init
  suspended := by simp [init]
  fresh := fun _ => rfl
  accounts := by simp [init]
  nodup := List.nodup_nil

omit [Codec] in
/-- A crash leaves the workers in their places, some of them dead. -/
theorem getElem?_killed (workers : List Worker) (pl : PoolLabel relay EnqueueCall) (i : Nat) :
    ∃ f : Worker → Worker, (∀ w, f w = w ∨ f w = { w with alive := false }) ∧
      (killed workers pl)[i]? = (workers[i]?).map f := by
  cases pl with
  | crash site =>
    refine ⟨Worker.kill site, fun w => ?_, List.getElem?_map⟩
    unfold Worker.kill
    split
    · exact .inr rfl
    · exact .inl rfl
  | start _ _ | answer _ _ | env _ => exact ⟨id, fun w => .inl rfl, by simp [killed]⟩

/-- What happens elsewhere changes nothing: worker `i` may die, or be started. -/
theorem Observed.elsewhere {l : SysLabel} (ho : s.Observed t i h) (hu : l.uses t.streamPrefix)
    (hs : s.step l = some s') (hnone : s'.workers[i]? = none → s.workers[i]? = none)
    (hsome : ∀ w', s'.workers[i]? = some w' →
      (∃ w, s.workers[i]? = some w ∧ w'.runner = w.runner ∧ w'.tasks = w.tasks ∧
        w'.permits = w.permits ∧ w'.loop = w.loop) ∨
      s.workers[i]? = none ∧ ∃ r site, w' = WorkerRunner.spawn r site) :
    s'.Observed t i h where
  wired := ho.wired.step hu hs
  typed := ho.typed.step ho.wired hs
  suspended := suspended_step ho.suspended hs
  fresh := fun h => ho.fresh (hnone h)
  accounts := by
    intro w' hw'
    rcases hsome w' hw' with ⟨w, hw, hr, ht, hp, hloop⟩ | ⟨hw, r, site, rfl⟩
    · obtain ⟨hacc, hret⟩ := ho.accounts w hw
      refine ⟨hacc.congr hr ht hp (by rw [hloop]), fun d hd => ?_⟩
      rw [hr]
      exact (step_world ho.wired hs).le.delivered (hret d hd)
    · obtain rfl := ho.fresh hw
      exact ⟨Worker.accounts_spawn r site, fun d hd => nomatch hd⟩
  nodup := ho.nodup

/-- A step of worker `i` itself. -/
theorem Observed.own {wl : WorkerLabel} {w' : Worker} {world : World} (ho : s.Observed t i h)
    (hu : SysLabel.uses t.streamPrefix (.worker i wl)) (hs : s.step (.worker i wl) = some s')
    (hw : s.workers[i]? = some w) (hw' : s'.workers[i]? = some w')
    (hl : ∀ j, wl ≠ .cancelTask j) (hx : w.step i s.world wl = some (world, w')) :
    s'.Observed t i (h.next w i s.world w' wl) := by
  obtain ⟨hacc, hret⟩ := ho.accounts w hw
  have hle := (step_world ho.wired hs).le
  have hwired' := ho.wired.step hu hs
  have hframe := (Worker.step_move hx).frame.1
  have hwk := ho.wired.workers w (List.mem_of_getElem? hw)
  have hold : ∀ d ∈ h.returned, s'.world.Delivered t w'.runner.queue d.entryId := fun d hd => by
    rw [hframe]
    exact hle.delivered (hret d hd)
  -- only an answer to the loop's poll adds to what was returned
  have hnew : (∀ d ∈ (h.next w i s.world w' wl).returned,
      s'.world.Delivered t w'.runner.queue d.entryId) ∧
      ((h.next w i s.world w' wl).returned.map Delivery.entryId).Nodup := by
    cases wl with
    | loop ans now =>
      obtain ⟨hnodup, hundelivered⟩ := hwk.pollResult ho.wired.redis i ans now
      simp only [WorkerHistory.next]
      constructor
      · intro d hd
        rcases List.mem_append.mp hd with hd | hd
        · exact hold d hd
        · rw [(Worker.loop_of_step hx).2.2.2.2] at hd
          exact (hwired'.workers w' (List.mem_of_getElem? hw')).delivered d
            (List.mem_append_left _ hd)
      · rw [List.map_append, List.nodup_append]
        refine ⟨ho.nodup, hnodup, ?_⟩
        rintro a ha b hb rfl
        obtain ⟨d, hd, rfl⟩ := List.mem_map.mp ha
        obtain ⟨d', hd', hid⟩ := List.mem_map.mp hb
        exact hundelivered d' hd' (hid ▸ hret d hd)
    | _ => exact ⟨hold, ho.nodup⟩
  exact ⟨hwired', ho.typed.step ho.wired hs, suspended_step ho.suspended hs,
    fun hn => (Option.some_ne_none w' (hw'.symm.trans hn)).elim,
    fun w₁ hw₁ => by
      obtain rfl := Option.some.inj (hw'.symm.trans hw₁)
      exact ⟨hacc.step hl hx, hnew.1⟩,
    hnew.2⟩

/-- **Every step keeps what is known**, unless it cancels a task. -/
theorem Observed.step {l : SysLabel} (ho : s.Observed t i h) (hu : l.uses t.streamPrefix)
    (hl : ∀ j, l ≠ .worker i (.cancelTask j)) (hs : observe i (s, h) l = some (s', h')) :
    s'.Observed t i h' := by
  obtain ⟨s₁, hstep, heq⟩ := Option.map_eq_some_iff.mp hs
  obtain ⟨rfl, rfl⟩ := Prod.mk.inj heq
  rcases step_cases hstep with ⟨pl, p, rfl, -, -, rfl⟩ | ⟨r, site, rfl, rfl⟩ |
    ⟨k, wl, w, world, w', rfl, hk, -, hx, rfl⟩
  · -- a call of `enqueue`, a crash or the environment
    obtain ⟨f, hf, hmap⟩ := getElem?_killed s.workers pl i
    refine ho.elsewhere hu hstep (fun hn => ?_) fun w' hw' => ?_
    · exact Option.map_eq_none_iff.mp (hmap.symm.trans hn)
    · obtain ⟨w, hw, rfl⟩ := Option.map_eq_some_iff.mp (hmap.symm.trans hw')
      refine .inl ⟨w, hw, ?_⟩
      rcases hf w with heq | heq <;> rw [heq] <;> exact ⟨rfl, rfl, rfl, rfl⟩
  · -- a worker starts
    refine ho.elsewhere hu hstep (fun hn => ?_) fun w' hw' => ?_
    · simp only [List.getElem?_eq_none_iff, List.length_append] at hn ⊢
      omega
    · rcases getElem?_concat_cases hw' with hw' | ⟨rfl, rfl⟩
      · exact .inl ⟨w', hw', rfl, rfl, rfl, rfl⟩
      · exact .inr ⟨List.getElem?_eq_none le_rfl, r, site, rfl⟩
  · by_cases hki : k = i
    · subst hki
      have hset : (s.workers.set k w')[k]? = some w' :=
        List.getElem?_set_self (List.getElem?_eq_some_iff.mp hk).1
      have hhist : s.record k ⟨{ s.pool with world := world }, s.workers.set k w'⟩ h
          (.worker k wl) = h.next w k s.world w' wl := by
        simp only [record, if_true, hk, hset]
      rw [hhist]
      exact ho.own hu hstep hk hset (fun j hj => hl j (congrArg _ hj)) hx
    · -- another worker
      have hsame : (s.workers.set k w')[i]? = s.workers[i]? := List.getElem?_set_ne hki
      have hhist : s.record i ⟨{ s.pool with world := world }, s.workers.set k w'⟩ h
          (.worker k wl) = h := if_neg hki
      rw [hhist]
      refine ho.elsewhere hu hstep (fun hn => hsame.symm.trans hn) fun w₁ hw₁ => ?_
      exact .inl ⟨w₁, hsame.symm.trans hw₁, rfl, rfl, rfl, rfl⟩

/-- **The bulkhead holds at every moment.** -/
theorem Observed.accounted (ho : s.Observed t i h) (hw : s.workers[i]? = some w) :
    s.Bulkhead i w h := by
  obtain ⟨ha, -⟩ := ho.accounts w hw
  have hmem := List.mem_of_getElem? hw
  have hids : ((w.tasks.map Task.delivery ++ w.loop.batch).map Delivery.entryId).Nodup :=
    ho.nodup.sublist (ha.returned.map _)
  rw [List.map_append, List.map_map] at hids
  have hcount : ∀ id, w.tasks.countP (Task.passed id) ≤ 1 := by
    intro id
    have hle := List.nodup_iff_count_le_one.mp (List.nodup_append.mp hids).1 id
    rw [List.count, List.countP_map] at hle
    refine (List.countP_mono_left fun tk _ htk => ?_).trans hle
    obtain ⟨d, pc⟩ := tk
    cases pc with
    | created => cases htk
    | running _ | ended | discarded =>
      exact beq_iff_eq.mpr (decide_eq_true_iff.mp (Bool.and_eq_true_iff.mp htk).2)
  refine ⟨?_, ha.acquired, fun j tk hj => ?_, fun j hj => ?_, ?_, ⟨fun d hd => ?_, ?_⟩,
    fun hc d hd => ?_, fun halive hM id hwaits => ?_, fun j tk hj hover => ⟨?_, ?_⟩⟩
  · rw [ha.held]
    exact ha.permits
  · exact ha.count_released hj
  · obtain ⟨tk, htk, -⟩ := (ha.released j).mp hj
    rw [ha.acquired]
    exact List.mem_range.mpr (List.getElem?_eq_some_iff.mp htk).1
  · have hle : w.tasks.countP Task.executing ≤ w.tasks.countP Task.unfinished :=
      List.countP_mono_left fun tk _ htk => by
        obtain ⟨d, pc⟩ := tk
        cases pc with
        | running p => rfl
        | created | ended | discarded => cases htk
    have hperm := ha.permits
    omega
  · exact ha.returned.subset (List.mem_append_left _ (ha.given hd))
  · exact List.nodup_iff_count_le_one.mpr fun id => ha.executed id ▸ hcount id
  · rw [ha.complete hc] at hd
    rcases List.mem_append.mp hd with hd | hd
    · obtain ⟨⟨d, pc⟩, htk, rfl⟩ := List.mem_map.mp hd
      have htyped := ho.typed.jobs w hmem d (List.mem_append_right _ (List.mem_map_of_mem htk))
      cases pc with
      | created => exact .inr (.inr ⟨d, htk, rfl⟩)
      | running _ | ended | discarded =>
        refine .inl ?_
        rw [ha.executed]
        refine Nat.le_antisymm (hcount _) (List.countP_pos_iff.mpr ⟨_, htk, ?_⟩)
        simp [Task.passed, htyped]
    · exact .inr (.inl ⟨d, hd, rfl⟩)
  · refine redelivers_of_held ho.wired ho.typed ho.suspended ⟨w, hmem, halive, rfl, ?_⟩
    rcases hwaits with hbatch | hcreated
    · refine .inr ⟨hbatch, ?_⟩
      -- a permit is free, or some task holds it
      by_contra hno
      obtain ⟨hpermits, hbusy⟩ := not_or.mp hno
      have hnone : w.tasks.countP Task.unfinished = 0 :=
        List.countP_eq_zero.mpr fun tk htk hun => hbusy (List.any_eq_true.mpr ⟨tk, htk, hun⟩)
      have hperm := ha.permits
      omega
    · exact .inl hcreated
  · refine (ha.inflight j).mpr ⟨tk, hj, ?_⟩
    rintro d rfl
    cases hover
  · -- the set handed over is the inflight set of this moment
    intro world w' hloop hx
    have hmem : j ∈ w.inflight := by
      refine Worker.mem_inflight.mpr ⟨tk, hj, ?_⟩
      rintro d rfl
      cases hover
    cases Worker.act_of_step hx with
    | join => exact ⟨w.inflight, s.world.now + 30000, if_neg (List.ne_nil_of_mem hmem), hmem⟩
    | drained hloop' | timeUp hloop' | lapse hloop' => cases hloop.symm.trans hloop'

/-- A history can be kept beside every run. -/
theorem exists_observe {ok : SysLabel → Prop} (hrun : Reaches step (fun _ => ok) s s')
    (h : WorkerHistory) : ∃ h', Reaches (observe i) (fun _ => ok) (s, h) (s', h') := by
  induction hrun with
  | refl => exact ⟨h, .refl⟩
  | @tail u v l _ hl hs ih =>
    obtain ⟨h₁, ih⟩ := ih
    exact ⟨u.record i v h₁ l, ih.tail hl (by rw [observe, hs]; rfl)⟩

/-- **The bulkhead holds at every moment of every run** in which no job task is cancelled before
its first step, which only the drain does: whatever the loop, the tasks, the callbacks and the rest
of the system do, in any order. -/
theorem bulkhead (hrun : Reaches (observe i) (fun _ l => l.uses t.streamPrefix ∧
    ∀ j, l ≠ .worker i (.cancelTask j)) (init, {}) (s, h)) (hw : s.workers[i]? = some w) :
    s.Bulkhead i w h := by
  have hinv : s.Observed t i h :=
    Reaches.invariant (P := fun x : Sys × WorkerHistory => x.1.Observed t i x.2)
      (fun x l y hx hl hs => hx.step hl.1 hl.2 hs) hrun observed_init
  exact hinv.accounted hw

end Sys

end

/-- A worker that runs its first job is a bulkhead. -/
theorem Sys.bulkhead_running : ∃ (s : Sys) (w : Worker) (h : WorkerHistory),
    w.tasks.countP Task.executing = 1 ∧ s.Bulkhead 0 w h := by
  obtain ⟨⟨pool, workers⟩, hs, rfl, -⟩ := Sample.exists_polled "1"
  have hrun : Reaches Sys.step (fun _ l => l.uses Sample.transport.streamPrefix ∧
      ∀ j, l ≠ .worker 0 (.cancelTask j)) Sys.init ⟨pool, [Sample.polled "1"]⟩ :=
    hs.mono fun _ l hl => ⟨hl.1, fun j hj => by rw [hj] at hl; exact nomatch hl.2.1⟩
  -- its task is created and starts
  obtain ⟨s, w, hs', hw, hexec⟩ : ∃ s w, Reaches Sys.step
      (fun _ l => l.uses Sample.transport.streamPrefix ∧ ∀ j, l ≠ .worker 0 (.cancelTask j))
      ⟨pool, [Sample.polled "1"]⟩ s ∧ s.workers[0]? = some w ∧
      w.tasks.countP Task.executing = 1 :=
    ⟨_, _, .tail (l := .worker 0 (.startTask 0))
      (.single (l := .worker 0 .acquire) ⟨trivial, fun j h => nomatch h⟩ rfl)
      ⟨trivial, fun j h => nomatch h⟩ rfl, rfl, rfl⟩
  obtain ⟨h, hobs⟩ := Sys.exists_observe (i := 0) (hrun.trans hs') {}
  exact ⟨s, w, h, hexec, Sys.bulkhead hobs hw⟩

end RelayQ

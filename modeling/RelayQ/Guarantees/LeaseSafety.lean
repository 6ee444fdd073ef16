import Mathlib.Tactic.NormNum
import RelayQ.System.Progress

/-! # Whose entries a claim takes

A pending entry can be claimed once it has been idle for `min_idle_ms`, and nothing a running handler
does renews its entry. With the defaults, 30 s against a job timeout of 300 s, a claim leaves the
entries of live workers alone in the runs in which no handler starts, or goes on, for an entry that
has been idle that long.

* `Sys.Handles`, `Sys.InTime`: a live worker runs the handler of an entry, within its timeout.
* `RecoveryWorker.reassigned`, `Sys.LeaseSafe`: what a claim would take, and that it takes none of
  those.
* `Sys.Prompt`, `Sys.leaseSafe`: the condition on the steps of a run, and what it gives. -/

namespace RelayQ

/-- The timeout of the handler a task runs. -/
def Task.handler? (tk : Task) : Option Seconds :=
  match tk.pc with
  | .running (.call (.handler _ timeout) _) => some timeout
  | _ => none

/-- What an event says of the clock. -/
def Event.clock? : Event → Option Nat
  | ⟨_, .monotonic, _, _, .ok now⟩ => some now
  | _ => none

/-- When an actor read the clock last. -/
def World.clockRead? (w : World) (a : Actor) : Option Nat :=
  w.log.findSome? fun ev => if ev.actor = a then ev.clock? else none

/-- Wherever the entry is pending in the group of the queue, its idle time is below `minIdle` for at
least `d` more. -/
def World.Fresh (w : World) (t : RedisStreamTransport) (queue : String) (entryId minIdle d : Nat) :
    Prop :=
  ∀ grp, (w.redis (t.streamKey queue)).groups (t.groupKey queue) = some grp →
    ∀ p ∈ grp.pel, p.id = entryId → ¬ p.Stale (w.now + d) minIdle

/-- The ids of the entries a claim would reassign now. -/
def RecoveryWorker.reassigned (r : RecoveryWorker) (queue : String) (w : World) : List Nat :=
  match (w.redis.apply w.now 0 (.xautoclaim (r.transport.streamKey queue)
      (r.transport.groupKey queue) (RedisStreamTransport.consumerName r.workerId) r.minIdleMs 0
      r.claimBatch)).2 with
  | .ok (_, es) => es.map Redis.Entry.id
  | .error _ => []

/-- What a claim would reassign is pending and stale. -/
theorem RecoveryWorker.stale_of_mem_reassigned {r : RecoveryWorker} {queue : String} {w : World}
    {id : Nat} (h : id ∈ r.reassigned queue w) :
    ∃ grp, (w.redis (r.transport.streamKey queue)).groups (r.transport.groupKey queue) = some grp ∧
      ∃ p ∈ grp.pel, p.id = id ∧ p.Stale w.now r.minIdleMs := by
  unfold reassigned at h
  split at h
  · rename_i cursor es hres
    obtain ⟨e, he, rfl⟩ := List.mem_map.mp h
    exact Redis.Keyspace.stale_of_mem_xautoclaim (Prod.ext rfl hres) he
  · cases h

namespace Sys

/-- Task `j` of worker `i`, which is alive, runs the handler of the entry. -/
def Handles (s : Sys) (queue : String) (entryId i j : Nat) (timeout : Seconds) : Prop :=
  ∃ w tk, s.workers[i]? = some w ∧ w.alive = true ∧ w.runner.queue = queue ∧
    w.tasks[j]? = some tk ∧ tk.delivery.entryId = entryId ∧ tk.handler? = some timeout

/-- The handler, which starts when its `execute` has read the clock, is within its timeout. -/
def InTime (s : Sys) (queue : String) (entryId i j : Nat) (timeout : Seconds) : Prop :=
  ∃ start, s.world.clockRead? (.executor i j queue entryId) = some start ∧
    ((s.world.now - start : Nat) : ℚ) < timeout.value * 1000

/-- **Recovery takes leases only from dead workers**: what a recovery task of a live worker that is
about to claim would reassign is no entry whose handler runs on a live worker within its timeout. -/
def LeaseSafe (s : Sys) : Prop :=
  ∀ w ∈ s.workers, w.alive = true → w.recovery = .claiming → ∀ r, w.runner.recovery = some r →
    ∀ id ∈ r.reassigned w.runner.queue s.world, ∀ i j timeout,
      s.Handles w.runner.queue id i j timeout → ¬ s.InTime w.runner.queue id i j timeout

/-- Every handler that runs is of an entry that will not be stale for `d` more. -/
def Timely (s : Sys) (t : RedisStreamTransport) (d : Nat) : Prop :=
  ∀ queue id i j timeout, s.Handles queue id i j timeout →
    s.world.Fresh t queue id 30000 d

variable [Codec]

/-- **The steps the lease allows for**: time passes only as long as no entry whose handler runs
becomes stale, and a handler starts only for an entry that is not. -/
def Prompt (t : RedisStreamTransport) (s : Sys) : SysLabel → Prop
  | .pool (.env (.tick d)) => s.Timely t d
  | l => ∀ s', s.step l = some s' → ∀ queue id i j timeout, s'.Handles queue id i j timeout →
      ¬ s.Handles queue id i j timeout → s.world.Fresh t queue id 30000 0

end Sys

/-- A worker that is started has the constructor defaults of `min_idle_ms` and of the job
timeout. -/
def SysLabel.defaults : SysLabel → Prop
  | .spawn r _ => r.executor.jobTimeout = ⟨300, "300.0"⟩ ∧
      ∀ c, r.recovery = some c → c.minIdleMs = 30000
  | _ => True

section

variable [Codec] {t : RedisStreamTransport} {s s' : Sys} {l : SysLabel}

omit [Codec] in
/-- What is pending after a step of the servers was pending before, or was delivered or claimed in
that step. -/
theorem WorldStep.pel {P : Actor → Op → Prop} {w w' : World} (h : WorldStep P w w') {k g : String}
    {grp' : Redis.Group} (hg : (w'.redis k).groups g = some grp') {p : Redis.PendingEntry}
    (hp : p ∈ grp'.pel) :
    (∃ grp, (w.redis k).groups g = some grp ∧ p ∈ grp.pel) ∨ p.deliveredAt = w.now := by
  rcases h.redis with ⟨a, c, n, r, -, -, hredis, -⟩ | ⟨hredis, -⟩
  · rw [hredis] at hg
    exact Redis.Keyspace.pel_of_apply hg hp
  · rw [hredis] at hg
    exact .inl ⟨grp', hg, hp⟩

namespace Sys

/-- Only a tick takes time. -/
theorem step_now (hl : ∀ d, l ≠ .pool (.env (.tick d))) (hs : s.step l = some s') :
    s'.world.now = s.world.now := by
  rcases step_cases hs with ⟨pl, p, rfl, -, hp, rfl⟩ | ⟨r, site, rfl, rfl⟩ |
    ⟨i, wl, w, world, w', rfl, hi, -, hx, rfl⟩
  · rcases PoolSpec.step_cases hp with ⟨c, site, rfl, rfl⟩ |
      ⟨i, ans, c, o, k, w, r, rfl, hc, hprog, hx, rfl⟩ | ⟨site, rfl, rfl⟩ | ⟨e, w, rfl, hw, rfl⟩
    · rfl
    · exact World.exec_now hx
    · rfl
    · cases e with
      | tick d => exact absurd rfl (hl d)
      | foreign key body =>
        simp only [World.env, Option.map_eq_some_iff] at hw
        obtain ⟨⟨w₁, r⟩, hx, rfl⟩ := hw
        exact World.exec_now hx
  · rfl
  · have hm := Worker.step_move hx
    clear hx
    cases hm with
    | loop | recovery | shutdown | spawn | start | retire => rfl
    | ensure hx _ _ | check _ _ hx _ | poll _ _ hx _ | claim _ hx => exact World.exec_now hx
    | task hi hx => exact World.exec_now hx

/-- An entry that is not stale does not become so while no time passes. -/
theorem fresh_step (hwired : s.Wired t) (hl : ∀ d, l ≠ .pool (.env (.tick d)))
    (hs : s.step l = some s') {queue : String} {id : Nat}
    (h : s.world.Fresh t queue id 30000 0) : s'.world.Fresh t queue id 30000 0 := by
  intro grp' hg' p hp hid
  have hnow := step_now hl hs
  rcases (step_world hwired hs).pel hg' hp with ⟨grp, hg, hp⟩ | hat
  · rw [hnow]
    exact h grp hg p hp hid
  · rw [hnow, Redis.PendingEntry.Stale, hat]
    omega

/-- What is known at every moment of a run: the recovery tasks are at their defaults, and no handler
runs for a stale entry. -/
structure Leased (t : RedisStreamTransport) (s : Sys) : Prop where
  wired : s.Wired t
  minIdle : ∀ w ∈ s.workers, ∀ r, w.runner.recovery = some r → r.minIdleMs = 30000
  timely : s.Timely t 0

/-- Nobody holds a lease at the start. -/
theorem leased_init : init.Leased t where
  wired := wired_init
  minIdle := by simp [init]
  timely := by
    rintro queue id i j timeout ⟨w, tk, hw, -⟩
    simp [init] at hw

/-- A step leaves the recovery tasks at their defaults. -/
theorem minIdle_step (hl : l.defaults) (hs : s.step l = some s')
    (h : ∀ w ∈ s.workers, ∀ r, w.runner.recovery = some r → r.minIdleMs = 30000) :
    ∀ w ∈ s'.workers, ∀ r, w.runner.recovery = some r → r.minIdleMs = 30000 := by
  rcases step_cases hs with ⟨pl, p, rfl, -, hp, rfl⟩ | ⟨r, site, rfl, rfl⟩ |
    ⟨i, wl, w, world, w', rfl, hi, -, hx, rfl⟩
  · intro w hw
    obtain ⟨w₀, hw₀, rfl | rfl⟩ := mem_killed hw
    · exact h w hw₀
    · exact h w₀ hw₀
  · intro w hw
    rcases List.mem_append.mp hw with hw | hw
    · exact h w hw
    · obtain rfl := List.mem_singleton.mp hw
      exact hl.2
  · intro w₁ hw₁
    rcases List.mem_or_eq_of_mem_set hw₁ with hw₁ | rfl
    · exact h w₁ hw₁
    · rw [(Worker.step_move hx).frame.1]
      exact h w (List.mem_of_getElem? hi)

/-- **A prompt step keeps every handler to a fresh entry.** -/
theorem Leased.step (h : s.Leased t) (hu : l.uses t.streamPrefix) (hd : l.defaults)
    (hp : s.Prompt t l) (hs : s.step l = some s') : s'.Leased t := by
  refine ⟨h.wired.step hu hs, minIdle_step hd hs h.minIdle, ?_⟩
  intro queue id i j timeout hh
  by_cases htick : ∃ d, l = .pool (.env (.tick d))
  · -- time passes: the condition is about the later time
    obtain ⟨d, rfl⟩ := htick
    obtain rfl := Option.some.inj hs
    intro grp hg p hmem hid
    exact hp queue id i j timeout hh grp hg p hmem hid
  · have hl : ∀ d, l ≠ .pool (.env (.tick d)) := fun d hd => htick ⟨d, hd⟩
    refine fresh_step h.wired hl hs ?_
    by_cases hold : s.Handles queue id i j timeout
    · exact h.timely queue id i j timeout hold
    · unfold Prompt at hp
      split at hp
      · exact absurd rfl (hl _)
      · exact hp s' hs queue id i j timeout hh hold

/-- Handlers of fresh entries keep them. -/
theorem Leased.safe (h : s.Leased t) : s.LeaseSafe := by
  intro w hw _ _ r hr id hid i j timeout hh _
  obtain ⟨grp, hg, p, hp, hpid, hstale⟩ := RecoveryWorker.stale_of_mem_reassigned hid
  have huses := (h.wired.workers w hw).uses.2.2.2 r hr
  rw [RedisStreamTransport.streamKey_congr huses, RedisStreamTransport.groupKey_congr huses] at hg
  rw [h.minIdle w hw r hr] at hstale
  exact h.timely _ _ _ _ _ hh grp hg p hp hpid hstale

/-- **Prompt runs are lease-safe**: in every state of a run of any number of workers with their
defaults in which no handler starts, or is left running, when its entry has been idle for 30 s since
its last delivery or claim, a recovery task takes no entry from a handler that runs. -/
theorem leaseSafe (hrun : Reaches step
    (fun s l => l.uses t.streamPrefix ∧ l.defaults ∧ s.Prompt t l) init s) : s.LeaseSafe := by
  have h : s.Leased t := Reaches.invariant
    (fun _ _ _ h hok hs => h.step hok.1 hok.2.1 hok.2.2 hs) hrun leased_init
  exact h.safe

omit [Codec] in
/-- Early on nothing is stale. -/
theorem fresh_of_now {w : World} {queue : String} {id minIdle d : Nat} (h : w.now + d < minIdle) :
    w.Fresh t queue id minIdle d := by
  intro grp hg p hp hid hstale
  rw [Redis.PendingEntry.Stale] at hstale
  omega

/-- Early on every step is prompt that takes little time. -/
theorem prompt_of_now (h : s.world.now < 30000)
    (hl : ∀ d, l = .pool (.env (.tick d)) → s.world.now + d < 30000) : s.Prompt t l := by
  unfold Prompt
  split
  · exact fun queue id i j timeout _ => fresh_of_now (hl _ rfl)
  · exact fun s' _ queue id i j timeout _ _ => fresh_of_now h

end Sys

end

/-! ## Two workers -/

namespace Sample

/-- Steps of workers with the defaults that take no time. -/
def Still [Codec] (l : SysLabel) : Prop :=
  l.uses Sample.transport.streamPrefix ∧ l.defaults ∧ ∀ d, l ≠ .pool (.env (.tick d))

/-- At the beginning of time such steps are prompt. -/
theorem prompt_of_still [Codec] {s s' : Sys} (h : Reaches Sys.step (fun _ => Still) s s')
    (hnow : s.world.now = 0) : s'.world.now = 0 ∧
      Reaches Sys.step (fun s l => l.uses Sample.transport.streamPrefix ∧ l.defaults ∧
        s.Prompt Sample.transport l) s s' := by
  induction h with
  | refl => exact ⟨hnow, .refl⟩
  | tail _ hl hs ih =>
    obtain ⟨hnow, hrun⟩ := ih
    obtain ⟨huses, hdef, htick⟩ := hl
    refine ⟨(Sys.step_now htick hs).trans hnow, hrun.tail ⟨huses, hdef, ?_⟩ hs⟩
    exact Sys.prompt_of_now (by omega) fun d hd => absurd hd (htick d)

/-- The steps before the first job is in hand are such steps. -/
theorem Opening.still [Codec] {l : SysLabel} (h : Opening l) : Still l := by
  obtain ⟨huses, hquiet, hspawn⟩ := h
  refine ⟨huses, ?_, ?_⟩
  · cases l with
    | spawn r site =>
      obtain ⟨id, rfl⟩ := hspawn r site rfl
      refine ⟨rfl, fun c hc => ?_⟩
      cases hc
      rfl
    | pool _ | worker _ _ => trivial
  · rintro d rfl
    cases hquiet

/-- A step of a worker. -/
theorem still_worker [Codec] (i : Nat) (l : WorkerLabel) : Still (.worker i l) :=
  ⟨trivial, trivial, fun _ h => nomatch h⟩

/-- The first worker runs the handler of its job, and a second one is about to claim. -/
theorem exists_handling : ∃ s : Sys,
    Reaches Sys.step (fun _ => Still) Sys.init s ∧
    s.world.now = 0 ∧ s.Handles "default" 1 0 0 ⟨300, "300.0"⟩ ∧
    s.world.clockRead? (.executor 0 0 "default" 1) = some 0 ∧
    (s.world.redis (Sample.transport.streamKey "default")).entries =
      [⟨1, RedisStreamTransport.jobBody Sample.job⟩] ∧
    (s.world.redis (Sample.transport.streamKey "default")).groups
      (Sample.transport.groupKey "default") =
        some ⟨1, [⟨1, RedisStreamTransport.consumerName "1", 0⟩]⟩ ∧
    ∃ w ∈ s.workers, w.alive = true ∧ w.recovery = .claiming ∧ w.runner = runner "2" := by
  obtain ⟨⟨pool, workers⟩, hs, rfl, hnow, hent, hg, -⟩ := Sample.exists_polled "1"
  -- the first worker starts the task of its job, and a second worker comes up
  obtain ⟨w₀, hs₀, hw₀⟩ : ∃ w₀ : Worker, Reaches Sys.step (fun _ => Still) ⟨pool, [polled "1"]⟩
      ⟨pool, [w₀, (runner "2").spawn 2]⟩ ∧ w₀ = ((polled "1").spawnTask
        ⟨Sample.transport.streamKey "default", 1, .ofJob Sample.job⟩ []).settle 0
          (Executor.logged (Executor.execute { transport := Sample.transport } "default" 1
            Sample.job)) :=
    ⟨_, .tail (l := .spawn (runner "2") 2) (.tail (l := .worker 0 (.startTask 0))
      (.single (l := .worker 0 .acquire) (still_worker _ _) rfl) (still_worker _ _) rfl)
      (opening_spawn "2" 2).still rfl, rfl⟩
  -- it finds the group
  obtain ⟨world, hx, hredis, hnow'⟩ : ∃ world, pool.world.exec 2 (.runner 1)
      (.redis (.xgroupCreate (Sample.transport.streamKey "default")
        (Sample.transport.groupKey "default") 0)) (.ok 0) =
          some (world, .error (.ofCmdError .busyGroup)) ∧ world.redis = pool.world.redis ∧
      world.now = pool.world.now := by
    change (pool.world.redis _).groups _ = _ at hg
    refine ⟨_, World.exec_ok 2 (.runner 1) rfl ?_, ?_, rfl⟩
    · simp [World.sendCmd, Redis.Keyspace.apply, hg, Except.mapError]
    · simp [World.sendCmd, Redis.Keyspace.apply, hg]
  have hs₁ : (Sys.mk pool [w₀, (runner "2").spawn 2]).step (.worker 1 (.loop (.ok 0) .epoch)) =
      some ⟨{ pool with world := world }, [w₀, { (runner "2").spawn 2 with
        loop := .polling
        recovery := .claiming }]⟩ := by
    have hens : relay.await pool.world 2 (.runner 1) (Sample.transport.ensureGroup "default")
        (.ok 0) = some (world, .ok ()) := by
      simp only [RedisStreamTransport.ensureGroup, perform, Prog.perform, Prog.tryExcept,
        Machine.await, hx, Option.bind_some]
      rfl
    exact Sys.step_worker (i := 1) rfl rfl ((congrArg (Option.map _) hens).trans rfl)
  -- the handler starts
  obtain ⟨s, hs₂, hworld, w', hw', hworkers⟩ : ∃ s : Sys,
      Reaches Sys.step (fun _ => Still) ⟨{ pool with world := world }, [w₀, { (runner "2").spawn 2 with
        loop := .polling
        recovery := .claiming }]⟩ s ∧ s.world = world.record
          ⟨.executor 0 0 "default" 1, .monotonic, true, 0, .ok world.now⟩ ∧
      ∃ w' : Worker, (w'.alive = true ∧ w'.runner.queue = "default" ∧ ∃ tk, w'.tasks[0]? = some tk ∧
        tk.delivery.entryId = 1 ∧ tk.handler? = some ⟨300, "300.0"⟩) ∧
        s.workers = [w', { (runner "2").spawn 2 with
          loop := .polling
          recovery := .claiming }] := by
    subst hw₀
    exact ⟨_, .single (l := .worker 0 (.task 0 (.ok 0))) (still_worker _ _) rfl, rfl, _,
      ⟨rfl, rfl, _, rfl, rfl, rfl⟩, rfl⟩
  have hredis' : s.world.redis = pool.world.redis := by rw [hworld, ← hredis]; rfl
  have hzero : world.now = 0 := hnow'.trans hnow
  refine ⟨s, ((hs.mono fun _ _ => Opening.still).trans (hs₀.tail (still_worker _ _) hs₁)).trans hs₂,
    ?_, ?_, ?_, ?_, ?_, ?_⟩
  · rw [hworld]
    exact hzero
  · obtain ⟨ha, hq, tk, htk, hid, hto⟩ := hw'
    exact ⟨w', tk, by rw [hworkers]; rfl, ha, hq, htk, hid, hto⟩
  · rw [hworld, World.clockRead?, World.record_log, List.findSome?_cons, if_pos rfl, Event.clock?,
      hzero]
  · rw [hredis']
    exact hent
  · rw [hredis']
    exact hg
  · exact ⟨_, by rw [hworkers]; exact List.mem_cons_of_mem _ (List.mem_singleton_self _), rfl, rfl,
      rfl⟩

end Sample

/-- Ten seconds into the handler's run a claim leaves its entry alone. -/
theorem Sys.leaseSafe_handling : ∃ s : Sys, s.Handles "default" 1 0 0 ⟨300, "300.0"⟩ ∧
    s.world.now = 10000 ∧ (∃ w ∈ s.workers, w.alive = true ∧ w.recovery = .claiming) ∧
    s.LeaseSafe := by
  obtain ⟨s, hs, hnow, hh, -, -, -, w, hw, ha, hr, -⟩ := Sample.exists_handling
  obtain ⟨-, hrun⟩ := Sample.prompt_of_still hs rfl
  have htime : s.Timely Sample.transport 10000 := fun queue id i j timeout _ =>
    Sys.fresh_of_now (by omega)
  refine ⟨s.later 10000, hh, ?_, ⟨w, hw, ha, hr⟩,
    Sys.leaseSafe (hrun.tail (l := .pool (.env (.tick 10000))) ⟨trivial, trivial, htime⟩ rfl)⟩
  change s.world.now + 10000 = 10000
  omega

/-- Half a minute into the handler's run a claim takes its entry. -/
theorem Sys.not_leaseSafe_handling : ¬ ∀ s : Sys, Reaches Sys.step
    (fun _ l => l.uses Sample.transport.streamPrefix ∧ l.defaults) Sys.init s → s.LeaseSafe := by
  intro h
  obtain ⟨s, hs, hnow, hh, hclock, hent, hg, w, hw, ha, hr, hrunner⟩ := Sample.exists_handling
  have hrun : Reaches Sys.step (fun _ l => l.uses Sample.transport.streamPrefix ∧ l.defaults)
      Sys.init (s.later 30000) :=
    (hs.mono fun _ _ hl => ⟨hl.1, hl.2.1⟩).tail (l := .pool (.env (.tick 30000)))
      ⟨trivial, trivial⟩ rfl
  have hq : w.runner.queue = "default" := by rw [hrunner]; rfl
  have hrec : w.runner.recovery = some { transport := Sample.transport, workerId := "2" } := by
    rw [hrunner]; rfl
  have hlater : (s.later 30000).world.now = 30000 := by
    change s.world.now + 30000 = 30000
    omega
  refine h _ hrun w hw ha hr _ hrec 1 ?_ 0 0 ⟨300, "300.0"⟩ (hq ▸ hh) ⟨0, hq ▸ hclock, ?_⟩
  · change (((s.later 30000).world).redis _).entries = _ at hent
    change (((s.later 30000).world).redis _).groups _ = _ at hg
    rw [hq]
    simp [RecoveryWorker.reassigned, hlater, Redis.Keyspace.apply, hg, hent, Redis.claimScan]
  · rw [hlater]
    norm_num

end RelayQ

import RelayQ.Infrastructure.StreamRuns
import RelayQ.System.Progress

/-! # When an admission-controlled queue gets on

The admission check compares the length of the stream with its limit, and consuming does not make
the stream shorter: acknowledged entries stay in it. Once the length has reached the limit, no
worker that has to pass the check polls again.

* `Worker.CanPoll`, `Sys.Open`: some worker can come to poll, by its own steps.
* `Sys.DeliversNew`: the program can come to deliver an entry it has not delivered.
* `Sys.deliversNew_iff`: the two are the same. -/

namespace RelayQ

/-- The length is below the limit of the worker's admission controller. -/
def Worker.Admits (w : Worker) (depth : Nat) : Prop :=
  ∃ c, w.runner.admission = some c ∧ depth < c.maxDepth

/-- Where the loop waits, it can get to its next poll: it is there already; or the check will pass,
it has not been told to stop, and if it waits for a permit there is one or a task to release it. -/
def Worker.CanPoll (w : Worker) (depth : Nat) : Prop :=
  match w.loop with
  | .polling => True
  | .checking => w.Admits depth
  | .ensuring | .sleeping _ => w.shutdown = false ∧ w.Admits depth
  | .acquiring _ _ => w.shutdown = false ∧ w.Admits depth ∧ (0 < w.permits ∨ w.busy = true)
  | .joining | .draining _ _ | .cancelling _ _ | .stopped => False

section

variable [Codec]

namespace Sys

/-- The length of a queue's stream. -/
def depth (s : Sys) (t : RedisStreamTransport) (queue : String) : Nat :=
  (s.world.redis (t.streamKey queue)).entries.length

/-- Some living worker of the queue can get to its next poll. -/
def Open (s : Sys) (t : RedisStreamTransport) (queue : String) : Prop :=
  ∃ w ∈ s.workers, w.alive = true ∧ w.runner.queue = queue ∧ 0 < w.runner.pollBatch ∧
    w.CanPoll (s.depth t queue)

/-- The queue holds an entry it has not delivered. -/
def HoldsNew (s : Sys) (t : RedisStreamTransport) (queue : String) : Prop :=
  ∃ e ∈ (s.world.redis (t.streamKey queue)).entries, ¬ s.world.Delivered t queue e.id

/-- The program on its own can come to deliver an entry it has not delivered. -/
def DeliversNew (s : Sys) (t : RedisStreamTransport) (queue : String) : Prop :=
  ∃ s', s.Continues s' ∧ ∃ e ∈ (s.world.redis (t.streamKey queue)).entries,
    ¬ s.world.Delivered t queue e.id ∧ s'.world.Delivered t queue e.id

variable {s s' : Sys} {t : RedisStreamTransport} {queue : String} {i : Nat} {w : Worker}

/-! ## Getting to the next poll -/

/-- A worker gets to its poll from its admission check. -/
theorem exists_polling_of_checking (hwired : s.Wired t) (hw : s.workers[i]? = some w)
    (ha : w.alive = true) (hloop : w.loop = .checking)
    (hadm : w.Admits (s.depth t w.runner.queue)) :
    ∃ s' w', s.Continues s' ∧ s'.workers[i]? = some w' ∧ w'.alive = true ∧ w'.runner = w.runner ∧
      w'.loop = .polling := by
  obtain ⟨c, hc, hlt⟩ := hadm
  have huses := (hwired.workers w (List.mem_of_getElem? hw)).uses.2.2.1 c hc
  have hroom : (s.world.redis (c.transport.streamKey w.runner.queue)).entries.length <
      c.maxDepth := by
    rw [RedisStreamTransport.streamKey_congr huses]
    exact hlt
  obtain ⟨world, hx⟩ := AdmissionController.exists_await_check w.site (.runner i) hroom
  have hstep : w.step i s.world (.loop (.ok 0) .epoch) =
      some (world, { w with loop := .polling }) := by
    simp only [Worker.step, Worker.stepLoop, hloop, hc, hx, Option.map_some, Worker.afterCheck]
  obtain ⟨s', hs, hw', -⟩ := continues_worker (l := .loop (.ok 0) .epoch) rfl hw ha hstep
  exact ⟨s', _, hs, hw', ha, rfl, rfl⟩

/-- What the program does on its own leaves the length as it is. -/
theorem Continues.depth (hwired : s.Wired t) (h : s.Continues s') (queue : String) :
    s'.depth t queue = s.depth t queue :=
  congrArg List.length (h.entries hwired queue)

omit [Codec] in
/-- The loop of a worker that goes on under admission control goes on with the check. -/
theorem headPc_of_admits {n : Nat} (hs : w.shutdown = false) (h : w.Admits n) :
    w.headPc = .checking := by
  obtain ⟨c, hc, -⟩ := h
  simp [Worker.headPc, hs, hc]

/-- **A worker that can poll gets to its poll.** -/
theorem exists_polling (hwired : s.Wired t) (hsus : ∀ w ∈ s.workers, w.Suspended)
    (hw : s.workers[i]? = some w) (ha : w.alive = true)
    (h : w.CanPoll (s.depth t w.runner.queue)) :
    ∃ s' w', s.Continues s' ∧ s'.workers[i]? = some w' ∧ w'.alive = true ∧ w'.runner = w.runner ∧
      w'.loop = .polling := by
  -- the head of the loop leads to the check
  have hcheck : w.shutdown = false → w.Admits (s.depth t w.runner.queue) →
      (w.loop = .ensuring ∨ (∃ wakeAt, w.loop = .sleeping wakeAt) ∨
        (∃ d rest, w.loop = .acquiring d rest) ∧ (0 < w.permits ∨ w.busy = true)) →
      ∃ s' w', s.Continues s' ∧ s'.workers[i]? = some w' ∧ w'.alive = true ∧
        w'.runner = w.runner ∧ w'.loop = .polling := by
    intro hshut hadm hwaits
    obtain ⟨s₁, w₁, hs₁, hw₁, ha₁, hr₁, hsh₁, hloop₁⟩ := exists_head hsus hw ha hwaits
    have hadm₁ : w₁.Admits (s₁.depth t w₁.runner.queue) := by
      rwa [hs₁.depth hwired, Worker.Admits, hr₁]
    obtain ⟨s₂, w₂, hs₂, hw₂, ha₂, hr₂, hpoll⟩ := exists_polling_of_checking (hs₁.run.wired hwired)
      hw₁ ha₁ (hloop₁.trans (headPc_of_admits (hsh₁.trans hshut) hadm₁)) hadm₁
    exact ⟨s₂, w₂, hs₁.trans hs₂, hw₂, ha₂, hr₂.trans hr₁, hpoll⟩
  unfold Worker.CanPoll at h
  split at h
  · rename_i hloop
    exact ⟨s, w, .refl, hw, ha, rfl, hloop⟩
  · rename_i hloop
    exact exists_polling_of_checking hwired hw ha hloop h
  · rename_i hloop
    exact hcheck h.1 h.2 (.inl hloop)
  · rename_i wakeAt hloop
    exact hcheck h.1 h.2 (.inr (.inl ⟨wakeAt, hloop⟩))
  · rename_i d rest hloop
    exact hcheck h.1 h.2.1 (.inr (.inr ⟨⟨d, rest, hloop⟩, h.2.2⟩))
  · exact h.elim
  · exact h.elim
  · exact h.elim
  · exact h.elim

/-- A worker at its poll can be given what is new. -/
theorem exists_step_poll {world : World} {grp : Redis.Group} (hwk : w.Wired t world)
    (hloop : w.loop = .polling) (hb : 0 < w.runner.pollBatch)
    (hg : (world.redis (t.streamKey w.runner.queue)).groups (t.groupKey w.runner.queue) = some grp) :
    ∃ world' w', w.step i world (.loop (.ok 0) .epoch) = some (world', w') ∧
      (world'.redis (t.streamKey w.runner.queue)).groups (t.groupKey w.runner.queue) =
        some ((world.redis (t.streamKey w.runner.queue)).deliver grp
          (RedisStreamTransport.consumerName w.runner.workerId) world.now w.runner.pollBatch).1 := by
  have hk := RedisStreamTransport.streamKey_congr hwk.uses.1 w.runner.queue
  have hgk := RedisStreamTransport.groupKey_congr hwk.uses.1 w.runner.queue
  obtain ⟨world', results, hx⟩ := World.exists_exec_xreadgroup (w := world) w.site (.runner i)
    (k := w.runner.transport.streamKey w.runner.queue)
    (g := w.runner.transport.groupKey w.runner.queue) (by rw [hk, hgk, hg])
    (RedisStreamTransport.consumerName w.runner.workerId) w.runner.pollBatch
    w.runner.pollTimeoutMs
  obtain ⟨grp', hg', hg'', -, -⟩ := World.exec_xreadgroup hx
  rw [hk, hgk] at hg' hg''
  obtain rfl := Option.some.inj (hg.symm.trans hg')
  refine ⟨world', { w with
    loop := w.afterPoll world.now (w.runner.transport.decodeReply .epoch results) }, ?_, hg''⟩
  simp only [Worker.step, Worker.stepLoop, hloop,
    RedisStreamTransport.await_readGroup_of_exec _ hb hx, Option.map_some]

/-- A poll delivers the first entry that is new. -/
theorem deliversNew_of_polling (hwired : s.Wired t) (hw : s.workers[i]? = some w)
    (ha : w.alive = true) (hloop : w.loop = .polling) (hq : w.runner.queue = queue)
    (hb : 0 < w.runner.pollBatch) (hnew : s.HoldsNew t queue) : s.DeliversNew t queue := by
  subst hq
  have hwf := hwired.redis (t.streamKey w.runner.queue)
  have hwk := hwired.workers w (List.mem_of_getElem? hw)
  obtain ⟨grp, hg⟩ := hwk.group (by rw [hloop]; rfl)
  -- what is new begins with some entry
  obtain ⟨e, he, hnot⟩ := hnew
  obtain ⟨e₀, es, hund⟩ : ∃ e₀ es,
      (s.world.redis (t.streamKey w.runner.queue)).undelivered grp = e₀ :: es :=
    List.exists_cons_of_ne_nil <| List.ne_nil_of_mem <| Redis.Stream.mem_undelivered.mpr
      ⟨he, Nat.lt_of_not_le fun hle => hnot ⟨grp, hg, hle⟩⟩
  have hmem₀ : e₀ ∈ (s.world.redis (t.streamKey w.runner.queue)).undelivered grp := by simp [hund]
  obtain ⟨he₀, hlt⟩ := Redis.Stream.mem_undelivered.mp hmem₀
  -- the poll
  obtain ⟨world, w', hstep, hg'⟩ := exists_step_poll (i := i) hwk hloop hb hg
  obtain ⟨s', hs, -, hworld⟩ := continues_worker (l := .loop (.ok 0) .epoch) rfl hw ha hstep
  refine ⟨s', hs, e₀, he₀, ?_, _, by rw [hworld]; exact hg', ?_⟩
  · rintro ⟨grp', hg₁, hle⟩
    obtain rfl := Option.some.inj (hg.symm.trans hg₁)
    omega
  · refine (hwf.delivered_iff _ _ _ _ he₀).mpr (.inr ?_)
    obtain ⟨b, hb'⟩ : ∃ b, w.runner.pollBatch = b + 1 := ⟨_, (Nat.succ_pred_eq_of_pos hb).symm⟩
    simp [Redis.Stream.deliver, hund, hb']

/-- **An open queue gets on.** -/
theorem deliversNew_of_open (hwired : s.Wired t) (hsus : ∀ w ∈ s.workers, w.Suspended)
    (hopen : s.Open t queue) (hnew : s.HoldsNew t queue) : s.DeliversNew t queue := by
  obtain ⟨w, hmem, ha, hq, hb, hcan⟩ := hopen
  obtain ⟨i, hw⟩ := List.mem_iff_getElem?.mp hmem
  obtain ⟨s₁, w₁, hs₁, hw₁, ha₁, hr₁, hpoll⟩ := exists_polling hwired hsus hw ha (hq ▸ hcan)
  obtain ⟨e, he, hnot⟩ := hnew
  have hent := hs₁.entries hwired queue
  by_cases hdel : s₁.world.Delivered t queue e.id
  · exact ⟨s₁, hs₁, e, he, hnot, hdel⟩
  · obtain ⟨s₂, hs₂, e₂, he₂, hnot₂, hdel₂⟩ := deliversNew_of_polling (hs₁.run.wired hwired) hw₁ ha₁
      hpoll (hr₁ ▸ hq) (hr₁ ▸ hb) ⟨e, hent ▸ he, hdel⟩
    refine ⟨s₂, hs₁.trans hs₂, e₂, hent ▸ he₂, fun h => hnot₂ ?_, hdel₂⟩
    exact (hs₁.run.le hwired).delivered h

end Sys

/-! ## A closed queue stays closed -/

namespace Worker

variable {w w' : Worker} {n : Nat}

omit [Codec] in
/-- What the head of the loop leads to gets to a poll only through the check. -/
theorem admits_of_headPc (h : w'.CanPoll n) (hadm : w.runner.admission.isSome = true)
    (hr : w'.runner = w.runner) (hloop : w'.loop = w.headPc) :
    w.shutdown = false ∧ w.Admits n := by
  unfold headPc at hloop
  rw [if_pos hadm] at hloop
  split at hloop
  · simp [CanPoll, hloop] at h
  · rename_i hshut
    refine ⟨by simpa using hshut, ?_⟩
    simpa [CanPoll, hloop, Admits, hr] using h

omit [Codec] in
/-- A worker with an unfinished task can poll if it can with that task further on. -/
theorem CanPoll.of_beside (h : w'.CanPoll n) (hb : w.Beside w')
    (hperm : 0 < w'.permits ∨ w'.busy = true → 0 < w.permits ∨ w.busy = true) :
    w.CanPoll n := by
  unfold CanPoll Admits at h ⊢
  rw [hb.loop, hb.runner, hb.shutdown] at h
  split at h <;> simp_all

/-- **A worker that cannot poll does not come to by a step of its own.** -/
theorem canPoll_of_step {me : Nat} {s s' : World} {l : WorkerLabel} {t : RedisStreamTransport}
    (huses : w.runner.uses t.streamPrefix) (hadm : w.runner.admission.isSome = true)
    (hn : n = (s.redis (t.streamKey w.runner.queue)).entries.length) (hown : l.own = true)
    (hx : w.step me s l = some (s', w')) (h : w'.CanPoll n) : w.CanPoll n := by
  rcases loop_of_own hown hx with ⟨hb, hperm⟩ | ⟨ans, now, rfl⟩ | ⟨wakeAt, hloop, rfl⟩ |
    ⟨d, rest, hloop, hp, rfl⟩ | ⟨pc, rfl, hend⟩
  · exact h.of_beside hb hperm
  · cases act_of_step hx with
    | @ensure _ _ _ out hloop _ =>
      cases out with
      | ok u =>
        have hgo := admits_of_headPc h hadm rfl rfl
        simpa [CanPoll, hloop] using hgo
      | error e => exact h.elim
    | @check _ _ c _ out hloop hc haw =>
      cases out with
      | ok u =>
        -- the check has read the length
        obtain ⟨r, hexec, hout⟩ := AdmissionController.await_check haw
        obtain ⟨m, hm, hlt⟩ := hout.mp rfl
        obtain ⟨k, -, hr, -⟩ := World.exec_redis_faultless hexec hown
        have hlen : m = n := by
          rw [hm, RedisStreamTransport.streamKey_congr (huses.2.2.1 c hc)] at hr
          rw [hn]
          exact Except.ok.inj hr
        simp only [CanPoll, hloop]
        exact ⟨c, hc, hlen ▸ hlt⟩
      | error e =>
        simp only [afterCheck] at h
        split at h
        · simpa [CanPoll, hloop] using (show w.Admits n from h.2)
        · exact h.elim
    | poll hloop => simp [CanPoll, hloop]
  · have hgo := admits_of_headPc h hadm rfl rfl
    simpa [CanPoll, hloop] using hgo
  · have hgo : w.shutdown = false ∧ w.Admits n := by
      cases rest with
      | nil => exact admits_of_headPc h hadm rfl rfl
      | cons d' rest => exact ⟨h.1, h.2.1⟩
    simp only [CanPoll, hloop]
    exact ⟨hgo.1, hgo.2, .inl hp⟩
  · rcases hend with rfl | ⟨ts, deadline, rfl⟩ | ⟨ts, deadline, rfl⟩ <;> exact h.elim

end Worker

omit [Codec] in
/-- Only a read of the queue delivers. -/
theorem World.delivered_of_exec {w w' : World} {site : Nat} {a : Actor} {o : Op} {ans : Answer}
    {r : Except PyExc o.Res} {t : RedisStreamTransport} {queue : String} {id : Nat}
    (hx : w.exec site a o ans = some (w', r)) (ho : ∀ c, o = .redis c → c.fromStart ∧
      ∀ consumer count block, 0 < count →
        c ≠ .xreadgroup (t.groupKey queue) consumer (t.streamKey queue) count block)
    (hpos : 0 < id) (h : w'.Delivered t queue id) : w.Delivered t queue id := by
  obtain ⟨grp', hg', hle⟩ := h
  by_cases hc : ∃ c, o = .redis c
  swap
  · rw [(World.exec_other (fun c h => hc ⟨c, h⟩) hx).1] at hg'
    exact ⟨grp', hg', hle⟩
  obtain ⟨c, rfl⟩ := hc
  obtain ⟨hstart, hread⟩ := ho c rfl
  rcases World.exec_redis hx with ⟨n, -, rfl, -⟩ | ⟨e, -, -, -, rfl⟩
  swap
  · exact ⟨grp', hg', hle⟩
  rcases Redis.Keyspace.group_of_apply hg' with hg | ⟨start, rfl, -, rfl⟩ | ⟨grp, hg, hcmd⟩
  · exact ⟨grp', hg, hle⟩
  · obtain rfl : start = 0 := hstart
    exact absurd hle (Nat.not_le_of_lt hpos)
  · refine ⟨grp, hg, ?_⟩
    rcases hcmd with ⟨consumer, count, block, rfl, rfl⟩ | ⟨n, rfl, rfl⟩ |
      ⟨consumer, minIdle, start, count, rfl, rfl⟩
    · -- a read of nothing
      obtain rfl : count = 0 := by
        by_contra hne
        exact hread consumer count block (Nat.pos_of_ne_zero hne) rfl
      simpa [Redis.Stream.deliver] using hle
    · exact hle
    · exact hle

/-- A step the program takes on its own delivers nothing, unless the loop polls the queue. -/
theorem Worker.polling_of_delivered {w w' : Worker} {me : Nat} {s s' : World}
    {t : RedisStreamTransport} {queue : String} {l : WorkerLabel} (hwk : w.Wired t s) (hown : l.own = true)
    (hx : w.step me s l = some (s', w')) {id : Nat} (hpos : 0 < id) (hnot : ¬ s.Delivered t queue id)
    (hd : s'.Delivered t queue id) :
    ∃ ans now, l = .loop ans now ∧ ans.faultless = true ∧ w.loop = .polling ∧
      0 < w.runner.pollBatch ∧ w.runner.queue = queue := by
  cases act_of_step hx with
  | ensure _ haw =>
    obtain ⟨r, hx, -⟩ := RedisStreamTransport.await_ensureGroup haw
    refine absurd (World.delivered_of_exec hx (fun c hc => ?_) hpos hd) hnot
    cases hc
    exact ⟨rfl, fun _ _ _ _ h => by cases h⟩
  | check _ _ haw =>
    obtain ⟨r, hx, -⟩ := AdmissionController.await_check haw
    refine absurd (World.delivered_of_exec hx (fun c hc => ?_) hpos hd) hnot
    cases hc
    exact ⟨trivial, fun _ _ _ _ h => by cases h⟩
  | @poll ans now _ _ hloop haw =>
    rcases RedisStreamTransport.await_readGroup haw with ⟨-, -, rfl⟩ | ⟨hb, r, hx, -⟩
    · exact absurd hd hnot
    · refine ⟨ans, now, rfl, hown, hloop, hb, ?_⟩
      by_contra hne
      refine hnot (World.delivered_of_exec hx (fun c hc => ?_) hpos hd)
      cases hc
      refine ⟨trivial, fun consumer count block _ heq => hne ?_⟩
      -- a poll of the queue is by a worker of it
      obtain ⟨-, -, hk, -, -⟩ := Redis.Cmd.xreadgroup.inj heq
      rw [RedisStreamTransport.streamKey_congr hwk.uses.1] at hk
      exact t.streamKey_injective hk
  | @task _ d _ _ _ _ hj hp =>
    obtain ⟨o, k, r, rfl, hexec, -⟩ := Machine.step_eq_some.mp hp
    refine absurd (World.delivered_of_exec hexec (fun c hc => ?_) hpos hd) hnot
    subst hc
    obtain ⟨ph, jobId, -, ⟨hguard, -⟩, -⟩ := hwk.running d _ (List.mem_of_getElem? hj)
    cases c with
    | xadd key body lim => exact ⟨trivial, fun _ _ _ _ h => by cases h⟩
    | xack key g id => exact ⟨trivial, fun _ _ _ _ h => by cases h⟩
    | _ => exact hguard.elim
  | claim _ _ haw =>
    obtain ⟨r, hx⟩ := RecoveryWorker.await_claimStale haw
    refine absurd (World.delivered_of_exec hx (fun c hc => ?_) hpos hd) hnot
    cases hc
    exact ⟨trivial, fun _ _ _ _ h => by cases h⟩
  | wake | acquire | wakeRecovery | start | callback | join | drained | timeUp | lapse =>
    exact absurd hd hnot
  | leave | abandon | cancelTask | cancelRecovery | requestShutdown => cases hown

namespace Sys

variable {s s' : Sys} {t : RedisStreamTransport} {queue : String}

/-- Every worker of the queue runs with an admission controller. -/
def Admitted (s : Sys) (queue : String) : Prop :=
  ∀ w ∈ s.workers, w.runner.queue = queue → w.runner.admission.isSome = true

/-- What the program does on its own leaves the workers configured as they are. -/
theorem admitted_of_own {l : SysLabel} (h : s.Admitted queue) (hl : l.own = true)
    (hs : s.step l = some s') : s'.Admitted queue := by
  rcases step_cases hs with ⟨pl, p, rfl, -, hp, rfl⟩ | ⟨r, site, rfl, rfl⟩ |
    ⟨i, wl, w, world, w', rfl, hi, -, hx, rfl⟩
  · cases pl with
    | env e => exact h
    | start _ _ | answer _ _ | crash _ => cases hl
  · cases hl
  · intro w₁ hw₁ hq
    rcases List.mem_or_eq_of_mem_set hw₁ with hw₁ | rfl
    · exact h w₁ hw₁ hq
    · obtain ⟨hr, -, -⟩ := (Worker.step_move hx).frame
      rw [hr] at hq ⊢
      exact h w (List.mem_of_getElem? hi) hq

/-- **A queue that is not open is not opened** by what the program does on its own. -/
theorem open_of_own {l : SysLabel} (hwired : s.Wired t) (hadm : s.Admitted queue)
    (hl : l.own = true) (hs : s.step l = some s') (h : s'.Open t queue) : s.Open t queue := by
  obtain ⟨w', hmem, ha', hq, hb, hcan⟩ := h
  have hdepth : s'.depth t queue = s.depth t queue :=
    congrArg List.length (entries_of_own hwired hl hs queue)
  rw [hdepth] at hcan
  rcases step_cases hs with ⟨pl, p, rfl, -, hp, rfl⟩ | ⟨r, site, rfl, rfl⟩ |
    ⟨i, wl, w, world, w₁, rfl, hi, ha, hx, rfl⟩
  · cases pl with
    | env e => exact ⟨w', hmem, ha', hq, hb, hcan⟩
    | start _ _ | answer _ _ | crash _ => cases hl
  · cases hl
  · rcases List.mem_or_eq_of_mem_set hmem with hmem | rfl
    · exact ⟨w', hmem, ha', hq, hb, hcan⟩
    · have hw := List.mem_of_getElem? hi
      obtain ⟨hr, -, -⟩ := (Worker.step_move hx).frame
      rw [hr] at hq hb
      subst hq
      exact ⟨w, hw, ha, rfl, hb, Worker.canPoll_of_step (hwired.workers w hw).uses
        (hadm w hw rfl) rfl hl hx hcan⟩

/-- **Only a poll of the queue delivers**, by a living worker of it. -/
theorem poll_of_delivered {l : SysLabel} (hwired : s.Wired t) (hl : l.own = true)
    (hs : s.step l = some s') {id : Nat} (hpos : 0 < id) (hnot : ¬ s.world.Delivered t queue id)
    (hd : s'.world.Delivered t queue id) :
    ∃ i ans now w w' world, ans.faultless = true ∧ s.workers[i]? = some w ∧ w.alive = true ∧
      w.loop = .polling ∧ 0 < w.runner.pollBatch ∧ w.runner.queue = queue ∧
      w.step i s.world (.loop ans now) = some (world, w') ∧
      s' = ⟨{ s.pool with world := world }, s.workers.set i w'⟩ := by
  rcases step_cases hs with ⟨pl, p, rfl, -, hp, rfl⟩ | ⟨r, site, rfl, rfl⟩ |
    ⟨i, wl, w, world, w', rfl, hi, ha, hx, rfl⟩
  · cases pl with
    | env e =>
      cases e with
      | tick d =>
        obtain rfl := Option.some.inj hp
        exact absurd hd hnot
      | foreign key body => cases hl
    | start _ _ | answer _ _ | crash _ => cases hl
  · cases hl
  · obtain ⟨ans, now, rfl, hans, hloop, hb, hq⟩ := Worker.polling_of_delivered
      (hwired.workers w (List.mem_of_getElem? hi)) hl hx hpos hnot hd
    exact ⟨i, ans, now, w, w', world, hans, hi, ha, hloop, hb, hq, hx, rfl⟩

/-- A queue that is not open delivers nothing. -/
theorem delivered_of_own {l : SysLabel} (hwired : s.Wired t) (hl : l.own = true)
    (hs : s.step l = some s') (hclosed : ¬ s.Open t queue) {id : Nat} (hpos : 0 < id)
    (h : s'.world.Delivered t queue id) : s.world.Delivered t queue id := by
  by_contra hnot
  obtain ⟨i, -, -, w, -, -, -, hi, ha, hloop, hb, hq, -, -⟩ :=
    poll_of_delivered hwired hl hs hpos hnot h
  -- the worker that polls the queue is one that can
  exact hclosed ⟨w, List.mem_of_getElem? hi, ha, hq, hb, by simp [Worker.CanPoll, hloop]⟩

/-- **A queue that is not open delivers nothing new.** -/
theorem not_deliversNew (hwired : s.Wired t) (hadm : s.Admitted queue)
    (hclosed : ¬ s.Open t queue) : ¬ s.DeliversNew t queue := by
  rintro ⟨s', hs, e, he, hnot, hdel⟩
  have hpos := (hwired.redis (t.streamKey queue)).ids_pos e he
  -- all along the queue is closed, and nothing new is delivered
  have hinv : s'.Wired t ∧ s'.Admitted queue ∧ ¬ s'.Open t queue ∧
      (s'.world.Delivered t queue e.id → s.world.Delivered t queue e.id) := by
    refine Reaches.invariant (P := fun u : Sys => u.Wired t ∧ u.Admitted queue ∧ ¬ u.Open t queue ∧
      (u.world.Delivered t queue e.id → s.world.Delivered t queue e.id))
      (fun u l v hu hl hstep => ?_) hs ⟨hwired, hadm, hclosed, id⟩
    obtain ⟨hwu, hau, hcu, hdu⟩ := hu
    refine ⟨(Continues.run (Reaches.single hl hstep)).wired hwu, admitted_of_own hau hl hstep, ?_, ?_⟩
    · exact fun h => hcu (open_of_own hwu hau hl hstep h)
    · exact fun h => hdu (delivered_of_own hwu hl hstep hcu hpos h)
  exact hnot (hinv.2.2.2 hdel)

/-- **When an admission-controlled queue that holds something new gets on**: exactly if some living
worker of it is at a poll already, or can get to one through its admission check, which it can only
while the stream, acknowledged entries included, is shorter than its limit. -/
theorem deliversNew_iff (hrun : Run t init s) (hadm : s.Admitted queue)
    (hnew : s.HoldsNew t queue) : s.DeliversNew t queue ↔ s.Open t queue := by
  have hwired := hrun.wired wired_init
  constructor
  · intro h
    by_contra hclosed
    exact not_deliversNew hwired hadm hclosed h
  · intro h
    exact deliversNew_of_open hwired (hrun.suspended (by simp [init])) h hnew

end Sys

end

/-- A worker under admission control. -/
def Sample.admittedRunner (maxDepth : Nat) : WorkerRunner where
  transport := Sample.transport
  executor := { transport := Sample.transport }
  workerId := "1"
  queue := "default"
  admission := some { transport := Sample.transport, maxDepth }

/-- One job was enqueued, then a worker started. -/
theorem Sample.exists_admitted (maxDepth : Nat) : ∃ s : Sys, Sys.Run Sample.transport Sys.init s ∧
    s.Admitted "default" ∧ s.HoldsNew Sample.transport "default" ∧
    s.depth Sample.transport "default" = 1 ∧
    s.workers = [(Sample.admittedRunner maxDepth).spawn 1] := by
  refine ⟨_, .tail (l := .spawn (Sample.admittedRunner maxDepth) 1)
    (.tail (l := .pool (.answer 0 (.ok 0))) (.tail (l := .pool (.answer 0 (.ok 0)))
      (.single (l := .pool (.start (Sample.enqueueCall Sample.job false) 0)) rfl rfl) trivial rfl)
      trivial rfl) ⟨rfl, rfl, fun c hc => ?_, fun c hc => nomatch hc⟩ rfl, ?_, ?_, rfl, rfl⟩
  · cases hc
    rfl
  · intro w hw _
    obtain rfl := List.mem_singleton.mp hw
    rfl
  · refine ⟨_, List.mem_singleton_self _, ?_⟩
    rintro ⟨grp, hg, -⟩
    cases hg

/-- Below the limit the queue gets on. -/
theorem Sys.deliversNew_below : ∃ s : Sys, s.depth Sample.transport "default" = 1 ∧
    s.DeliversNew Sample.transport "default" := by
  obtain ⟨s, hrun, hadm, hnew, hdepth, hworkers⟩ := Sample.exists_admitted 2
  refine ⟨s, hdepth, (Sys.deliversNew_iff hrun hadm hnew).mpr
    ⟨(Sample.admittedRunner 2).spawn 1, by simp [hworkers], rfl, rfl, Nat.one_pos, rfl, ?_⟩⟩
  exact ⟨_, rfl, hdepth ▸ Nat.one_lt_two⟩

/-- A limit of one wedges a queue with one entry. -/
theorem Sys.not_deliversNew_full : ¬ ∀ s : Sys, Sys.Run Sample.transport Sys.init s →
    s.Admitted "default" → s.HoldsNew Sample.transport "default" →
      s.DeliversNew Sample.transport "default" := by
  intro h
  obtain ⟨s, hrun, hadm, hnew, hdepth, hworkers⟩ := Sample.exists_admitted 1
  refine Sys.not_deliversNew (hrun.wired Sys.wired_init) hadm ?_ (h s hrun hadm hnew)
  rintro ⟨w, hw, -, -, -, hcan⟩
  rw [hworkers] at hw
  obtain rfl := List.mem_singleton.mp hw
  -- the loop still has to pass the check
  obtain ⟨-, c, hc, hlt⟩ := hcan
  obtain rfl := Option.some.inj hc
  rw [hdepth] at hlt
  exact absurd hlt (Nat.lt_irrefl 1)

end RelayQ

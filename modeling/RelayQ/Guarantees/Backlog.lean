import RelayQ.Guarantees.AdmissionProgress
import RelayQ.Guarantees.DeadLetterListing
import RelayQ.Guarantees.Redelivery
import RelayQ.System.Deployment
import RelayQ.Worker.History

/-! # A backlog is served

Where no admission check can shut a worker out, a queue is worked off: as long as one worker of it polls,
every job that waits can come to be executed, however many wait before it. A worker that polls need not
be the one that executes it, and none of them runs out of permits while no task is cancelled.

* `Worker.Serves`: the worker polls, and goes on to poll.
* `Sys.Steady`: what the workers of a queue go by, which the program keeps.
* `Sys.held_of_delivers`: what is delivered is held by the worker that polled.
* `Sys.redelivers_of_served`, `Sys.served_of_redelivers`: what waits can be executed while some worker
  serves the queue, and only then.
* `Sys.backlogServed`: the guarantee. -/

namespace RelayQ

/-- The loop of a worker without an admission check waits somewhere before its end. -/
def LoopPc.looping : LoopPc → Bool
  | .ensuring | .polling | .sleeping _ | .acquiring _ _ => true
  | .checking | .joining | .draining _ _ | .cancelling _ _ | .stopped => false

/-- The worker lives, runs without an admission check, reads something when it polls, has not been told
to stop, and its loop has not ended. -/
structure Worker.Serves (w : Worker) : Prop where
  alive : w.alive = true
  admission : w.runner.admission = none
  pollBatch : 0 < w.runner.pollBatch
  shutdown : w.shutdown = false
  looping : w.loop.looping = true

/-- Nobody outside the code writes, and no task is cancelled. -/
def SysLabel.undisturbed (l : SysLabel) : Prop :=
  l.closed = true ∧ ∀ i j, l ≠ .worker i (.cancelTask j)

section

variable [Codec]

/-! ## What a poll returns -/

/-- A group read of a stream of jobs returns what it has delivered. -/
theorem RedisStreamTransport.decodeReply_of_exec {w w' : World} {site : Nat} {a : Actor}
    {g consumer k : String} {count block : Nat} {ans : Answer} {grp : Redis.Group}
    {results : List (String × List (Redis.Entry Body))} (t : RedisStreamTransport) (now : DateTime)
    (hx : w.exec site a (.redis (.xreadgroup g consumer k count block)) ans = some (w', .ok results))
    (hg : (w.redis k).groups g = some grp)
    (hjobs : ∀ e ∈ (w.redis k).entries, ∃ job, e.fields = jobBody job) :
    ∃ ds, t.decodeReply now results = .ok ds ∧
      ds.map Delivery.entryId = ((w.redis k).deliver grp consumer w.now count).2.map Redis.Entry.id := by
  obtain ⟨ds, hds, hids⟩ := t.decodeBatch_decodable now k
    ((w.redis k).deliver grp consumer w.now count).2 fun e he => by
      obtain ⟨job, hjob⟩ := hjobs e (Redis.Stream.mem_of_mem_deliver he).1
      exact ⟨_, hjob ▸ t.decodeEntry_jobBody now job⟩
  rcases World.exec_redis hx with ⟨n, -, -, ⟨-, hr⟩ | ⟨e, -, hr, -⟩⟩ | ⟨e, -, -, hr, -⟩
  · simp only [World.sendCmd, Redis.Keyspace.apply, hg, Except.mapError, Except.ok.injEq] at hr
    subst hr
    split
    · -- nothing was delivered
      rename_i hnil
      exact ⟨[], rfl, by rw [List.isEmpty_iff.mp hnil]; rfl⟩
    · exact ⟨ds, by rw [decodeReply_singleton, hds], hids⟩
  · cases hr
  · cases hr

namespace Worker

variable {w w' : Worker} {me : Nat} {s s' : World} {t : RedisStreamTransport}

/-- A worker without an admission check whose loop has ended does not come to loop by a step of its own,
and is not told to stop. -/
theorem looping_of_step {l : WorkerLabel} (hadm : w.runner.admission = none) (hown : l.own = true)
    (hx : w.step me s l = some (s', w')) :
    w'.shutdown = w.shutdown ∧ (w'.loop.looping = true → w.loop.looping = true) := by
  rcases loop_of_own hown hx with ⟨hb, -⟩ | ⟨ans, now, rfl⟩ | ⟨wakeAt, hloop, rfl⟩ |
    ⟨d, rest, hloop, -, rfl⟩ | ⟨pc, rfl, hend⟩
  · exact ⟨hb.shutdown, fun h => hb.loop ▸ h⟩
  · cases act_of_step hx with
    | @ensure _ _ _ out hloop _ => exact ⟨by cases out <;> rfl, fun _ => by rw [hloop]; rfl⟩
    | check _ hc =>
      rw [hadm] at hc
      cases hc
    | poll hloop => exact ⟨rfl, fun _ => by rw [hloop]; rfl⟩
  · exact ⟨rfl, fun _ => by rw [hloop]; rfl⟩
  · exact ⟨rfl, fun _ => by rw [hloop]; rfl⟩
  · rcases hend with rfl | ⟨ts, deadline, rfl⟩ | ⟨ts, deadline, rfl⟩ <;> exact ⟨rfl, fun h => by cases h⟩

/-- The poll of a worker whose queue holds jobs leaves it with what the poll delivered. -/
theorem loop_of_poll {ans : Answer} {now : DateTime} {grp : Redis.Group} (hwk : w.Wired t s)
    (hloop : w.loop = .polling) (hb : 0 < w.runner.pollBatch) (hans : ans.faultless = true)
    (hg : (s.redis (t.streamKey w.runner.queue)).groups (t.groupKey w.runner.queue) = some grp)
    (hjobs : ∀ e ∈ (s.redis (t.streamKey w.runner.queue)).entries,
      ∃ job, e.fields = RedisStreamTransport.jobBody job)
    (hx : w.step me s (.loop ans now) = some (s', w')) :
    let d := (s.redis (t.streamKey w.runner.queue)).deliver grp
      (RedisStreamTransport.consumerName w.runner.workerId) s.now w.runner.pollBatch
    (s'.redis (t.streamKey w.runner.queue)).groups (t.groupKey w.runner.queue) = some d.1 ∧
    ∃ ds, w' = { w with loop := w.batchPc ds } ∧
      ds.map Delivery.entryId = d.2.map Redis.Entry.id := by
  have hk := RedisStreamTransport.streamKey_congr hwk.uses.1 w.runner.queue
  have hgk := RedisStreamTransport.groupKey_congr hwk.uses.1 w.runner.queue
  simp only [step, stepLoop, hloop] at hx
  obtain ⟨⟨s₁, out⟩, haw, heq⟩ := Option.map_eq_some_iff.mp hx
  obtain ⟨rfl, rfl⟩ := Prod.mk.inj heq
  rcases RedisStreamTransport.await_readGroup haw with ⟨hzero, -, -⟩ | ⟨-, r, hexec, -⟩
  · omega
  -- nothing fails, so the read has a reply
  obtain ⟨results, rfl⟩ : ∃ results, r = .ok results := by
    obtain ⟨n, -, hr, -⟩ := World.exec_redis_faultless hexec hans
    rw [hk, hgk] at hr
    simp only [World.sendCmd, Redis.Keyspace.apply, hg, Except.mapError] at hr
    exact ⟨_, hr⟩
  have hread := RedisStreamTransport.await_readGroup_of_exec now hb hexec
  obtain rfl : out = w.runner.transport.decodeReply now results :=
    (Prod.mk.inj (Option.some.inj (haw.symm.trans hread))).2
  rw [hk, hgk] at hexec
  obtain ⟨ds, hds, hids⟩ := w.runner.transport.decodeReply_of_exec now hexec hg hjobs
  obtain ⟨grp', hg', hnew, -, -⟩ := World.exec_xreadgroup hexec
  obtain rfl := Option.some.inj (hg.symm.trans hg')
  exact ⟨hnew, ds, by rw [hds]; rfl, hids⟩

end Worker

namespace Sys

variable {s s' : Sys} {t : RedisStreamTransport} {queue : String} {entryId i : Nat} {w : Worker}

/-- Some worker serves the queue. -/
def Served (s : Sys) (queue : String) : Prop :=
  ∃ w ∈ s.workers, w.runner.queue = queue ∧ w.Serves

/-- No worker of the queue has an admission check, or was told to stop. -/
def Unhindered (s : Sys) (queue : String) : Prop :=
  ∀ w ∈ s.workers, w.runner.queue = queue → w.runner.admission = none ∧ w.shutdown = false

/-! ## What the program keeps -/

/-- What the workers of a queue go by: the wiring, typed and suspended tasks, permits that add up and
are not none, and a stream that holds jobs. -/
structure Steady (t : RedisStreamTransport) (queue : String) (s : Sys) : Prop where
  wired : s.Wired t
  typed : s.Typed t
  suspended : ∀ w ∈ s.workers, w.Suspended
  accounts : ∀ w ∈ s.workers, ∃ h, w.Accounts h
  permits : ∀ w ∈ s.workers, w.runner.queue = queue → 0 < w.runner.maxConcurrency
  jobs : ∀ e ∈ (s.world.redis (t.streamKey queue)).entries,
    ∃ job, e.fields = RedisStreamTransport.jobBody job

/-- A step that cancels no task keeps the accounts of the workers. -/
theorem accounts_step {l : SysLabel} (h : ∀ w ∈ s.workers, ∃ h, w.Accounts h)
    (hl : ∀ i j, l ≠ .worker i (.cancelTask j)) (hs : s.step l = some s') :
    ∀ w ∈ s'.workers, ∃ h, w.Accounts h := by
  rcases step_cases hs with ⟨pl, p, rfl, -, -, rfl⟩ | ⟨r, site, rfl, rfl⟩ |
    ⟨i, wl, w, world, w', rfl, hw, -, hx, rfl⟩
  · intro w hw
    obtain ⟨w₀, hw₀, rfl | rfl⟩ := mem_killed hw
    · exact h w hw₀
    · obtain ⟨h₀, hacc⟩ := h w₀ hw₀
      exact ⟨h₀, hacc.congr rfl rfl rfl rfl⟩
  · intro w hw
    rcases List.mem_append.mp hw with hw | hw
    · exact h w hw
    · obtain rfl := List.mem_singleton.mp hw
      exact ⟨_, Worker.accounts_spawn r site⟩
  · intro w₁ hw₁
    rcases List.mem_or_eq_of_mem_set hw₁ with hw₁ | rfl
    · exact h w₁ hw₁
    · obtain ⟨h₀, hacc⟩ := h w (List.mem_of_getElem? hw)
      exact ⟨_, hacc.step (fun j hj => hl i j (hj ▸ rfl)) hx⟩

omit [Codec] in
/-- The program cancels no task. -/
theorem ne_cancelTask_of_own {l : SysLabel} (hl : l.own = true) (i j : Nat) :
    l ≠ .worker i (.cancelTask j) := by
  rintro rfl
  cases hl

/-- A step the program takes on its own keeps all of it. -/
theorem Steady.step {l : SysLabel} (h : s.Steady t queue) (hl : l.own = true)
    (hs : s.step l = some s') : s'.Steady t queue where
  wired := (Continues.run (Reaches.single hl hs)).wired h.wired
  typed := (Continues.run (Reaches.single hl hs)).typed h.wired h.typed
  suspended := suspended_step h.suspended hs
  accounts := accounts_step h.accounts (ne_cancelTask_of_own hl) hs
  permits := by
    rcases step_cases hs with ⟨pl, p, rfl, -, -, rfl⟩ | ⟨r, site, rfl, rfl⟩ |
      ⟨i, wl, w, world, w', rfl, hw, -, hx, rfl⟩
    · intro w hw hq
      obtain ⟨w₀, hw₀, rfl | rfl⟩ := mem_killed hw
      · exact h.permits w hw₀ hq
      · exact h.permits w₀ hw₀ hq
    · cases hl
    · intro w₁ hw₁ hq
      rcases List.mem_or_eq_of_mem_set hw₁ with hw₁ | rfl
      · exact h.permits w₁ hw₁ hq
      · rw [(Worker.step_move hx).frame.1] at hq ⊢
        exact h.permits w (List.mem_of_getElem? hw) hq
  jobs := by
    rw [entries_of_own h.wired hl hs]
    exact h.jobs

/-- What the program does on its own keeps all of it. -/
theorem Steady.continues (h : s.Steady t queue) (hs : s.Continues s') : s'.Steady t queue :=
  Reaches.invariant (P := Steady t queue) (fun _ _ _ hu hl hstep => hu.step hl hstep) hs h

/-- A worker of the queue has a permit free, or a task that will release one. -/
theorem Steady.supplied (h : s.Steady t queue) (hw : w ∈ s.workers) (hq : w.runner.queue = queue) :
    0 < w.permits ∨ w.busy = true :=
  let ⟨_, hacc⟩ := h.accounts w hw
  hacc.supplied (h.permits w hw hq)

/-! ## What is delivered is executed -/

/-- **What a step delivers is held by the worker that polled.** -/
theorem held_of_delivers {l : SysLabel} (h : s.Steady t queue) (hl : l.own = true)
    (hs : s.step l = some s') {e : Redis.Entry Body}
    (he : e ∈ (s.world.redis (t.streamKey queue)).entries)
    (hnot : ¬ s.world.Delivered t queue e.id) (hd : s'.world.Delivered t queue e.id) :
    s'.Held queue e.id := by
  have hwf := h.wired.redis (t.streamKey queue)
  obtain ⟨i, ans, now, w, w', world, hans, hi, ha, hloop, hb, rfl, hx, rfl⟩ :=
    poll_of_delivered h.wired hl hs (hwf.ids_pos e he) hnot hd
  have hw := List.mem_of_getElem? hi
  have hwk := h.wired.workers w hw
  have hsup := h.supplied hw rfl
  obtain ⟨grp, hg⟩ := hwk.group (by rw [hloop]; rfl)
  obtain ⟨hnew, ds, rfl, hids⟩ := Worker.loop_of_poll hwk hloop hb hans hg h.jobs hx
  -- the entry is in the reply, so it is in the batch
  obtain ⟨grp', hg', hle⟩ := hd
  obtain rfl := Option.some.inj (hnew.symm.trans hg')
  have hmem := ((hwf.delivered_iff grp _ _ _ he).mp hle).resolve_left fun hle => hnot ⟨grp, hg, hle⟩
  obtain ⟨d, hd, hid⟩ := List.mem_map.mp (hids ▸ List.mem_map_of_mem hmem)
  refine ⟨_, List.mem_of_getElem? (List.getElem?_set_self (List.getElem?_eq_some_iff.mp hi).1), ha,
    rfl, .inr ⟨⟨d, ?_, hid⟩, hsup⟩⟩
  simpa using hd

/-- **What the program delivers it can execute.** -/
theorem redelivers_of_delivers (h : s.Steady t queue) (hs : s.Continues s') {e : Redis.Entry Body}
    (he : e ∈ (s.world.redis (t.streamKey queue)).entries)
    (hnot : ¬ s.world.Delivered t queue e.id) (hd : s'.world.Delivered t queue e.id) :
    s.Redelivers queue e.id := by
  have hinv : s.Continues s' ∧ (s'.world.Delivered t queue e.id → s.Redelivers queue e.id) := by
    refine Reaches.invariant (P := fun u : Sys => s.Continues u ∧
      (u.world.Delivered t queue e.id → s.Redelivers queue e.id))
      (fun u l v hu hl hstep => ?_) hs ⟨.refl, fun hd => absurd hd hnot⟩
    obtain ⟨hsu, hdu⟩ := hu
    have hsv : s.Continues v := hsu.tail hl hstep
    refine ⟨hsv, fun hdv => ?_⟩
    by_cases hbefore : u.world.Delivered t queue e.id
    · exact hdu hbefore
    · -- this step is the one that delivers it
      have hsteady := h.continues hsv
      have hheld := held_of_delivers (h.continues hsu) hl hstep
        (by rw [hsu.entries h.wired]; exact he) hbefore hdv
      obtain ⟨s₁, s₂, hs₁, hex⟩ :=
        redelivers_of_held hsteady.wired hsteady.typed hsteady.suspended hheld
      exact ⟨s₁, s₂, hsv.trans hs₁, hex⟩
  exact hinv.2 hd

/-! ## What waits is delivered -/

omit [Codec] in
/-- The loop of a worker that serves goes on with a poll. -/
theorem headPc_of_serves (hadm : w.runner.admission = none) (hshut : w.shutdown = false) :
    w.headPc = .polling := by
  simp [Worker.headPc, hadm, hshut]

/-- **A worker that serves gets to its next poll.** -/
theorem exists_next_poll (h : s.Steady t queue) (hw : s.workers[i]? = some w) (hsv : w.Serves)
    (hq : w.runner.queue = queue) : ∃ s' w', s.Continues s' ∧ s'.workers[i]? = some w' ∧ w'.Serves ∧
      w'.runner.queue = queue ∧ w'.loop = .polling := by
  have hloop : w.loop = .polling ∨ w.loop = .ensuring ∨ (∃ wakeAt, w.loop = .sleeping wakeAt) ∨
      ∃ d rest, w.loop = .acquiring d rest := by
    have hlooping := hsv.looping
    unfold LoopPc.looping at hlooping
    split at hlooping <;> simp_all
  rcases hloop with hloop | hwaits
  · exact ⟨s, w, .refl, hw, hsv, hq, hloop⟩
  · have hsup := h.supplied (List.mem_of_getElem? hw) hq
    obtain ⟨s', w', hs, hw', ha', hr, hsh, hloop⟩ := exists_head h.suspended hw hsv.alive
      (hwaits.imp_right fun hwaits => hwaits.imp_right fun hacq => ⟨hacq, hsup⟩)
    have hadm : w'.runner.admission = none := hr ▸ hsv.admission
    have hshut : w'.shutdown = false := hsh.trans hsv.shutdown
    rw [headPc_of_serves hadm hshut] at hloop
    exact ⟨s', w', hs, hw', ⟨ha', hadm, hr ▸ hsv.pollBatch, hshut, hloop ▸ rfl⟩, hr ▸ hq, hloop⟩

/-- **A poll takes the group further** while something waits, and its worker serves on. -/
theorem exists_poll (h : s.Steady t queue) (hw : s.workers[i]? = some w) (hsv : w.Serves)
    (hq : w.runner.queue = queue) (hloop : w.loop = .polling) {grp : Redis.Group}
    (hg : (s.world.redis (t.streamKey queue)).groups (t.groupKey queue) = some grp)
    {e : Redis.Entry Body} (he : e ∈ (s.world.redis (t.streamKey queue)).undelivered grp) :
    ∃ s' w' grp', s.Continues s' ∧ s'.workers[i]? = some w' ∧ w'.Serves ∧ w'.runner.queue = queue ∧
      (s'.world.redis (t.streamKey queue)).groups (t.groupKey queue) = some grp' ∧
      grp.lastDelivered < grp'.lastDelivered := by
  subst hq
  have hwk := h.wired.workers w (List.mem_of_getElem? hw)
  obtain ⟨world, w', hx, hnew⟩ := exists_step_poll (i := i) hwk hloop hsv.pollBatch hg
  obtain ⟨-, ds, rfl, -⟩ := Worker.loop_of_poll hwk hloop hsv.pollBatch rfl hg h.jobs hx
  obtain ⟨s', hs, hw', hworld⟩ := continues_worker (l := .loop (.ok 0) .epoch) rfl hw hsv.alive hx
  refine ⟨s', _, _, hs, hw', ⟨hsv.alive, hsv.admission, hsv.pollBatch, hsv.shutdown, ?_⟩, rfl,
    by rw [hworld]; exact hnew,
    (h.wired.redis _).lt_lastDelivered_deliver _ _ hsv.pollBatch he⟩
  cases ds with
  | nil => exact congrArg LoopPc.looping (headPc_of_serves hsv.admission hsv.shutdown)
  | cons d rest => rfl

/-- **What waits can be delivered**, by induction on how far the group has to go. -/
theorem exists_delivered {n : Nat} {grp : Redis.Group} {e : Redis.Entry Body} (h : s.Steady t queue)
    (hw : s.workers[i]? = some w) (hsv : w.Serves) (hq : w.runner.queue = queue)
    (hloop : w.loop = .polling)
    (hg : (s.world.redis (t.streamKey queue)).groups (t.groupKey queue) = some grp)
    (he : e ∈ (s.world.redis (t.streamKey queue)).entries) (hn : e.id ≤ grp.lastDelivered + n) :
    ∃ s', s.Continues s' ∧ s'.world.Delivered t queue e.id := by
  induction n generalizing s w grp with
  | zero => exact ⟨s, .refl, grp, hg, hn⟩
  | succ n ih =>
    by_cases hle : e.id ≤ grp.lastDelivered
    · exact ⟨s, .refl, grp, hg, hle⟩
    · obtain ⟨s₁, w₁, grp₁, hs₁, hw₁, hsv₁, hq₁, hg₁, hlt⟩ := exists_poll h hw hsv hq hloop hg
        (Redis.Stream.mem_undelivered.mpr ⟨he, Nat.lt_of_not_le hle⟩)
      have h₁ := h.continues hs₁
      obtain ⟨s₂, w₂, hs₂, hw₂, hsv₂, hq₂, hloop₂⟩ := exists_next_poll h₁ hw₁ hsv₁ hq₁
      obtain ⟨grp₂, hg₂, hle₂⟩ := (hs₂.run.le h₁.wired).groups _ _ _ hg₁
      obtain ⟨s₃, hs₃, hd⟩ := ih (h₁.continues hs₂) hw₂ hsv₂ hq₂ hloop₂ hg₂
        (by rw [hs₂.entries h₁.wired, hs₁.entries h.wired]; exact he) (by omega)
      exact ⟨s₃, (hs₁.trans hs₂).trans hs₃, hd⟩

/-- **What waits can be executed** while some worker serves the queue. -/
theorem redelivers_of_served (h : s.Steady t queue) (hserved : s.Served queue) {e : Redis.Entry Body}
    (he : e ∈ (s.world.redis (t.streamKey queue)).entries)
    (hnot : ¬ s.world.Delivered t queue e.id) : s.Redelivers queue e.id := by
  obtain ⟨w, hmem, hq, hsv⟩ := hserved
  obtain ⟨i, hw⟩ := List.mem_iff_getElem?.mp hmem
  obtain ⟨s₁, w₁, hs₁, hw₁, hsv₁, hq₁, hloop₁⟩ := exists_next_poll h hw hsv hq
  have h₁ := h.continues hs₁
  -- at its poll the group exists
  obtain ⟨grp, hg⟩ := (h₁.wired.workers w₁ (List.mem_of_getElem? hw₁)).group (by rw [hloop₁]; rfl)
  rw [hq₁] at hg
  obtain ⟨s₂, hs₂, hd⟩ := exists_delivered h₁ hw₁ hsv₁ hq₁ hloop₁ hg
    (by rw [hs₁.entries h.wired]; exact he) (Nat.le_add_left e.id grp.lastDelivered)
  exact redelivers_of_delivers h (hs₁.trans hs₂) he hnot hd

/-! ## A queue that nobody serves -/

/-- A step the program takes on its own leaves the workers unhindered, and gives the queue nobody to
serve it. -/
theorem Unhindered.step {l : SysLabel} (h : s.Unhindered queue) (hl : l.own = true)
    (hs : s.step l = some s') :
    s'.Unhindered queue ∧ (s'.Served queue → s.Served queue) := by
  rcases step_cases hs with ⟨pl, p, rfl, -, hp, rfl⟩ | ⟨r, site, rfl, rfl⟩ |
    ⟨i, wl, w, world, w', rfl, hi, ha, hx, rfl⟩
  · cases pl with
    | env e => exact ⟨h, id⟩
    | start _ _ | answer _ _ | crash _ => cases hl
  · cases hl
  · have hw := List.mem_of_getElem? hi
    obtain ⟨hr, -, -⟩ := (Worker.step_move hx).frame
    refine ⟨fun w₁ hw₁ hq => ?_, ?_⟩
    · rcases List.mem_or_eq_of_mem_set hw₁ with hw₁ | rfl
      · exact h w₁ hw₁ hq
      · rw [hr] at hq ⊢
        obtain ⟨hadm, hshut⟩ := h w hw hq
        exact ⟨hadm, (Worker.looping_of_step hadm hl hx).1.trans hshut⟩
    · rintro ⟨w₁, hw₁, hq, hsv⟩
      rcases List.mem_or_eq_of_mem_set hw₁ with hw₁ | rfl
      · exact ⟨w₁, hw₁, hq, hsv⟩
      · rw [hr] at hq
        obtain ⟨hadm, hshut⟩ := h w hw hq
        exact ⟨w, hw, hq, ha, hadm, hr ▸ hsv.pollBatch, hshut,
          (Worker.looping_of_step hadm hl hx).2 hsv.looping⟩

/-- What is delivered was polled by a worker that serves the queue. -/
theorem served_of_delivers {l : SysLabel} (hwired : s.Wired t) (hun : s.Unhindered queue)
    (hl : l.own = true) (hs : s.step l = some s') {id : Nat} (hpos : 0 < id)
    (hnot : ¬ s.world.Delivered t queue id) (hd : s'.world.Delivered t queue id) :
    s.Served queue := by
  obtain ⟨i, -, -, w, -, -, -, hi, ha, hloop, hb, hq, -, -⟩ :=
    poll_of_delivered hwired hl hs hpos hnot hd
  obtain ⟨hadm, hshut⟩ := hun w (List.mem_of_getElem? hi) hq
  exact ⟨w, List.mem_of_getElem? hi, hq, ha, hadm, hb, hshut, by rw [hloop]; rfl⟩

/-- **What waits is not executed** if nobody serves the queue and nothing else holds its workers up. -/
theorem served_of_redelivers (hwired : s.Wired t) (hun : s.Unhindered queue) {id : Nat} (hpos : 0 < id)
    (hnot : ¬ s.world.Delivered t queue id) (h : s.Redelivers queue id) : s.Served queue := by
  by_contra hunserved
  obtain ⟨s₁, s₂, hs, i, j, w, d, job, hw, hj, rfl, rfl, -, -⟩ := h
  have hinv : s₁.Wired t ∧ s₁.Unhindered w.runner.queue ∧ ¬ s₁.Served w.runner.queue ∧
      ¬ s₁.world.Delivered t w.runner.queue d.entryId := by
    refine Reaches.invariant (P := fun u : Sys => u.Wired t ∧ u.Unhindered w.runner.queue ∧
      ¬ u.Served w.runner.queue ∧ ¬ u.world.Delivered t w.runner.queue d.entryId)
      (fun u l v hu hl hstep => ?_) hs ⟨hwired, hun, hunserved, hnot⟩
    obtain ⟨hwu, hunu, hnu, hdu⟩ := hu
    obtain ⟨hunv, hback⟩ := hunu.step hl hstep
    exact ⟨(Continues.run (Reaches.single hl hstep)).wired hwu, hunv, fun h => hnu (hback h),
      fun hd => hnu (served_of_delivers hwu hunu hl hstep hpos hdu hd)⟩
  obtain ⟨hw₁, -, -, hd⟩ := hinv
  -- a task is for what was delivered
  exact hd ((hw₁.workers w (List.mem_of_getElem? hw)).delivered d
    (List.mem_append_right _ (List.mem_map.mpr ⟨_, List.mem_of_getElem? hj, rfl⟩)))

/-- **A backlog is served.** In a run in which nobody outside the code writes and no task is cancelled,
with workers that may run something at all: while some worker serves the queue, every job that waits in
its stream can come to be executed, however many wait before it and whoever else takes them. Where no
admission check and no shutdown hold a worker of the queue up, only then. -/
theorem backlogServed (hrun : Reaches step (fun _ l => l.uses t.streamPrefix ∧ l.undisturbed) init s)
    (hroom : ∀ w ∈ s.workers, w.runner.queue = queue → 0 < w.runner.maxConcurrency)
    {e : Redis.Entry Body} (he : e ∈ (s.world.redis (t.streamKey queue)).entries)
    (hnew : ¬ s.world.Delivered t queue e.id) :
    (s.Served queue → s.Redelivers queue e.id) ∧
      (s.Unhindered queue → s.Redelivers queue e.id → s.Served queue) := by
  have hclosed : ClosedRun t init s := hrun.mono fun _ _ hl => ⟨hl.1, hl.2.1⟩
  have hwired := hclosed.run.wired wired_init
  refine ⟨fun hserved => redelivers_of_served ⟨hwired, hclosed.run.typed wired_init typed_init,
    hclosed.run.suspended (by simp [init]), ?_, hroom, fun e he => ?_⟩ hserved he hnew,
    fun hun => served_of_redelivers hwired hun
      ((hwired.redis (t.streamKey queue)).ids_pos e he) hnew⟩
  · exact Reaches.invariant (P := fun u : Sys => ∀ w ∈ u.workers, ∃ h, w.Accounts h)
      (fun _ _ _ hu hl hs => accounts_step hu hl.2.2 hs) hrun (by simp [init])
  · have hthrough := (Service.reaches_of_sys hclosed).mono fun _ _ hl => hl.1
    obtain ⟨job, -, hjob⟩ := (Service.filed_of_reaches hthrough).world.streams queue e he
    exact ⟨job, hjob⟩

end Sys

end

/-- A worker that has just started can bring the second of two jobs that wait to its execution. -/
theorem Sys.backlogServed_second : ∃ s : Sys, s.workers = [(Sample.runner "1").spawn 1] ∧
    (s.world.redis (Sample.transport.streamKey "default")).entries.map Redis.Entry.id = [1, 2] ∧
    s.Redelivers "default" 2 ∧ s.Served "default" := by
  obtain ⟨s, hrun, hworkers, hent, hgrp⟩ : ∃ s : Sys, Reaches Sys.step (fun _ l =>
      l.uses Sample.transport.streamPrefix ∧ l.undisturbed) Sys.init s ∧
      s.workers = [(Sample.runner "1").spawn 1] ∧
      (s.world.redis (Sample.transport.streamKey "default")).entries =
        [⟨1, RedisStreamTransport.jobBody Sample.job⟩, ⟨2, RedisStreamTransport.jobBody Sample.second⟩] ∧
      (s.world.redis (Sample.transport.streamKey "default")).groups
        (Sample.transport.groupKey "default") = none :=
    ⟨_, .tail (l := .spawn (Sample.runner "1") 1) (.tail (l := .pool (.answer 1 (.ok 0)))
      (.tail (l := .pool (.answer 1 (.ok 0))) (.tail (l := .pool (.start Sample.enqueueSecond 0))
        (.tail (l := .pool (.answer 0 (.ok 0))) (.tail (l := .pool (.answer 0 (.ok 0)))
          (.single (l := .pool (.start (Sample.enqueueCall Sample.job false) 0))
            ⟨rfl, rfl, fun _ _ h => by cases h⟩ rfl) ⟨trivial, rfl, fun _ _ h => by cases h⟩ rfl)
          ⟨trivial, rfl, fun _ _ h => by cases h⟩ rfl) ⟨rfl, rfl, fun _ _ h => by cases h⟩ rfl)
        ⟨trivial, rfl, fun _ _ h => by cases h⟩ rfl) ⟨trivial, rfl, fun _ _ h => by cases h⟩ rfl)
      ⟨(Sample.opening_spawn "1" 1).1, rfl, fun _ _ h => by cases h⟩ rfl, rfl, rfl, rfl⟩
  have hroom : ∀ w ∈ s.workers, w.runner.queue = "default" → 0 < w.runner.maxConcurrency := by
    intro w hw _
    obtain rfl := List.mem_singleton.mp (hworkers ▸ hw)
    decide
  have hunhindered : s.Unhindered "default" := by
    intro w hw _
    obtain rfl := List.mem_singleton.mp (hworkers ▸ hw)
    exact ⟨rfl, rfl⟩
  have hserved : s.Served "default" :=
    ⟨_, hworkers ▸ List.mem_singleton_self _, rfl, rfl, rfl, by decide, rfl, rfl⟩
  obtain ⟨hexec, honly⟩ := Sys.backlogServed
    (e := ⟨2, RedisStreamTransport.jobBody Sample.second⟩) hrun hroom
    (hent ▸ List.mem_cons_of_mem _ (List.mem_singleton_self _))
    (by rintro ⟨grp, hg, -⟩; rw [hgrp] at hg; cases hg)
  exact ⟨s, hworkers, by rw [hent]; rfl, hexec hserved, honly hunhindered (hexec hserved)⟩

end RelayQ

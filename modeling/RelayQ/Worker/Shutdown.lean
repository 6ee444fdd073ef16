import RelayQ.Infrastructure.StreamRuns
import RelayQ.Worker.History

/-! # Shutting down

Once shutdown is requested the head of the loop leads out of it. What the loop still does is what it
had begun: the check or the poll it awaits, and a task for each delivery of its batch.

* `LoopPc.rank`, `LoopPc.mayTake`, `LoopPc.mayPoll`: what the loop may still do.
* `Worker.Winds`, `Worker.winds_of_step`: every step does part of it and adds nothing.
* `Worker.Joined`: recovery is over before the drain, and the drain awaits every unfinished task.
* `Worker.Retired`: a worker with nothing left to do. -/

namespace RelayQ

namespace LoopPc

/-- How many steps are left, at most, of a loop that is to shut down; a poll brings `batch`
deliveries. -/
def rank (batch : Nat) : LoopPc → Nat
  | stopped => 0
  | cancelling _ _ => 1
  | draining _ _ => 2
  | joining => 3
  | sleeping _ => 4
  | acquiring _ rest => 4 + rest.length
  | polling => 5 + batch
  | checking => 6 + batch
  | ensuring => 4

/-- How many tasks such a loop may still create. -/
def mayTake (batch : Nat) : LoopPc → Nat
  | acquiring _ rest => rest.length + 1
  | checking | polling => batch
  | _ => 0

/-- How many polls such a loop may still answer. -/
def mayPoll : LoopPc → Nat
  | checking | polling => 1
  | _ => 0

/-- The loop has less left to do. -/
structure Below (batch : Nat) (pc' pc : LoopPc) : Prop where
  rank : pc'.rank batch < pc.rank batch
  takes : pc'.mayTake batch ≤ pc.mayTake batch
  polls : pc'.mayPoll ≤ pc.mayPoll

variable {batch : Nat} {pc : LoopPc}

/-- What comes after the loop is below what is left of it. -/
theorem below_of_rank {pc' : LoopPc} (h : pc'.rank batch < pc.rank batch) (ht : pc'.mayTake batch = 0)
    (hp : pc'.mayPoll = 0) : Below batch pc' pc :=
  ⟨h, ht ▸ Nat.zero_le _, hp ▸ Nat.zero_le _⟩

/-- The loop is not entered yet, or its recovery task is joined. -/
def apart : LoopPc → Bool
  | ensuring | draining _ _ | cancelling _ _ | stopped => true
  | _ => false

/-- The tasks the end of `run` waits for; `run` ends at once where its loop is not entered. -/
def awaited? : LoopPc → Option (List Nat)
  | ensuring => some []
  | draining ts _ | cancelling ts _ => some ts
  | _ => none

end LoopPc

/-- The step is one of the loop and the end of `run`. -/
def WorkerLabel.ofLoop : WorkerLabel → Bool
  | loop _ _ | wake | acquire | cancelLoop | drain => true
  | _ => false

/-- The event is a poll of the worker. -/
def Event.isPoll (me : Nat) (ev : Event) : Bool :=
  match ev.actor, ev.op with
  | .runner i, .redis (.xreadgroup _ _ _ _ _) => i = me
  | _, _ => false

/-- The polls of a worker are its own. -/
theorem Event.isPoll_of_not_ofWorker {me : Nat} {ev : Event} (h : ev.actor.ofWorker me = false) :
    ev.isPoll me = false := by
  unfold isPoll
  split
  · rename_i ha _
    rwa [ha] at h
  · rfl

/-- How many polls of the worker are on record. -/
def World.polls (s : World) (me : Nat) : Nat := s.log.countP (Event.isPoll me)

/-- One more event. -/
theorem World.polls_cons {s s' : World} {me : Nat} {ev : Event} (h : s'.log = ev :: s.log) :
    s'.polls me = s.polls me + if ev.isPoll me then 1 else 0 := by
  rw [polls, polls, h, List.countP_cons]

/-- One more event that is no poll of the worker. -/
theorem World.polls_cons_of_not {s s' : World} {me : Nat} {ev : Event} (h : s'.log = ev :: s.log)
    (hev : ev.isPoll me = false) : s'.polls me = s.polls me := by
  rw [polls_cons h, hev]
  rfl

namespace Worker

/-- What a step leaves of a worker that is to shut down. -/
structure Winds (l : WorkerLabel) (w w' : Worker) : Prop where
  runner : w'.runner = w.runner
  shutdown : w'.shutdown = true
  rank : w'.loop.rank w.runner.pollBatch + (if l.ofLoop then 1 else 0) ≤
    w.loop.rank w.runner.pollBatch
  takes : w'.tasks.length + w'.loop.mayTake w.runner.pollBatch ≤
    w.tasks.length + w.loop.mayTake w.runner.pollBatch
  polls : w'.loop.mayPoll ≤ w.loop.mayPoll

variable {w w' : Worker}

/-- The head of the loop leads out of it. -/
theorem headPc_of_shutdown (h : w.shutdown = true) : w.headPc = .joining := by
  rw [headPc, if_pos h]

/-- A batch no longer than a poll asks for is below the poll. -/
theorem below_batchPc (h : w.shutdown = true) {ds : List Delivery} {b : Nat} (hds : ds.length ≤ b) :
    LoopPc.Below b (w.batchPc ds) .polling := by
  cases ds with
  | nil =>
    rw [batchPc, headPc_of_shutdown h]
    exact LoopPc.below_of_rank (by simp only [LoopPc.rank]; omega) rfl rfl
  | cons d rest =>
    rw [List.length_cons] at hds
    exact ⟨by simp only [batchPc, LoopPc.rank]; omega, hds, Nat.zero_le _⟩

/-- What is left of a batch is below it, and one task less. -/
theorem below_rest (h : w.shutdown = true) (d : Delivery) (rest : List Delivery) (b : Nat) :
    (w.batchPc rest).rank b < (LoopPc.acquiring d rest).rank b ∧
      (w.batchPc rest).mayTake b = rest.length ∧ (w.batchPc rest).mayPoll = 0 := by
  cases rest with
  | nil => simp [batchPc, headPc_of_shutdown h, LoopPc.rank, LoopPc.mayTake, LoopPc.mayPoll]
  | cons d' rest =>
    refine ⟨?_, rfl, rfl⟩
    simp only [batchPc, LoopPc.rank, List.length_cons]
    omega

/-- The recovery task stays where it is. -/
theorem settle_recovery (w : Worker) (i : Nat) (p : Py Unit) : (w.settle i p).recovery = w.recovery := by
  unfold settle
  cases p.outcome <;> rfl

/-- Nobody asks for a shutdown by it. -/
theorem settle_shutdown (w : Worker) (i : Nat) (p : Py Unit) : (w.settle i p).shutdown = w.shutdown := by
  unfold settle
  cases p.outcome <;> rfl

/-- Tasks are set, not created. -/
theorem length_setTask (i : Nat) (pc : TaskPc) : (w.setTask i pc).tasks.length = w.tasks.length := by
  simp [setTask]

/-- A step that is not one of the loop, and creates no task. -/
theorem Winds.of_loop_eq {l : WorkerLabel} (hshut : w'.shutdown = true) (hr : w'.runner = w.runner)
    (hl : l.ofLoop = false) (hloop : w'.loop = w.loop) (ht : w'.tasks.length = w.tasks.length) :
    Winds l w w' := by
  refine ⟨hr, hshut, ?_, ?_, ?_⟩ <;> rw [hloop]
  · simp [hl]
  · rw [ht]

/-- A step of the loop that creates no task. -/
theorem Winds.of_below {l : WorkerLabel} (hshut : w'.shutdown = true) (hr : w'.runner = w.runner)
    (hl : l.ofLoop = true) (ht : w'.tasks = w.tasks)
    (h : LoopPc.Below w.runner.pollBatch w'.loop w.loop) : Winds l w w' := by
  refine ⟨hr, hshut, ?_, ?_, h.polls⟩
  · rw [hl, if_pos rfl]
    exact h.rank
  · rw [ht]
    exact Nat.add_le_add_left h.takes _

variable [Codec] {me : Nat} {s s' : World}

/-- A poll returns as many deliveries as it asks for, at most. -/
theorem length_pollResult_le (ans : Answer) (now : DateTime) :
    (w.pollResult me s ans now).length ≤ w.runner.pollBatch := by
  unfold pollResult
  split
  · rename_i s₁ ds _ haw
    obtain ⟨grp, -, hsub⟩ := RedisStreamTransport.sublist_of_await_readGroup haw
    have hle := hsub.length_le
    rw [List.length_map, List.length_map] at hle
    exact hle.trans (List.length_take_le _ _)
  · exact Nat.zero_le _

/-- A step that is not one of the loop leaves the loop alone and creates no task. -/
theorem frame_of_step {l : WorkerLabel} (hx : w.step me s l = some (s', w'))
    (hl : l.ofLoop = false) : w'.loop = w.loop ∧ w'.runner = w.runner ∧
      w'.tasks.length = w.tasks.length ∧ (w.shutdown = true → w'.shutdown = true) ∧
      (w.recovery = .ended → w'.recovery = .ended) := by
  cases act_of_step hx with
  | start | task =>
    exact ⟨settle_loop .., settle_runner .., by rw [settle_tasks, length_setTask],
      fun h => (settle_shutdown ..).trans h, fun h => (settle_recovery ..).trans h⟩
  | cancelTask | callback => exact ⟨rfl, rfl, length_setTask .., id, id⟩
  | claim hrec | wakeRecovery hrec =>
    exact ⟨rfl, rfl, rfl, id, fun h => by cases hrec.symm.trans h⟩
  | cancelRecovery => exact ⟨rfl, rfl, rfl, id, fun _ => rfl⟩
  | requestShutdown => exact ⟨rfl, rfl, rfl, fun _ => rfl, id⟩
  | ensure | check | poll | wake | acquire | leave | abandon | join | drained | timeUp | lapse =>
    cases hl

omit [Codec] in
/-- After its check the loop polls, pauses or ends. -/
theorem below_afterCheck (now : Nat) (out : Except PyExc Unit) (b : Nat) :
    LoopPc.Below b (afterCheck now out) .checking := by
  cases out with
  | ok u => exact ⟨Nat.add_lt_add_right (Nat.lt_succ_self 5) _, le_rfl, le_rfl⟩
  | error e =>
    unfold afterCheck
    dsimp only
    split <;> exact LoopPc.below_of_rank (by simp only [LoopPc.rank, pausePc]; omega) rfl rfl

/-- After its poll it has the batch in hand, pauses or ends. -/
theorem below_afterPoll {ans : Answer} {now : DateTime} {out : Except PyExc (List Delivery)}
    (hshut : w.shutdown = true) (hloop : w.loop = .polling)
    (haw : relay.await s w.site (.runner me) (w.runner.transport.readGroup w.runner.queue
      w.runner.workerId w.runner.pollBatch w.runner.pollTimeoutMs now) ans = some (s', out)) :
    LoopPc.Below w.runner.pollBatch (w.afterPoll s.now out) .polling := by
  have hlen : (w.pollResult me s ans now).length ≤ w.runner.pollBatch := length_pollResult_le ans now
  cases out with
  | ok ds =>
    simp only [pollResult, hloop, haw] at hlen
    exact below_batchPc hshut hlen
  | error e =>
    unfold afterPoll
    dsimp only
    split <;> exact LoopPc.below_of_rank (by simp only [LoopPc.rank, pausePc]; omega) rfl rfl

/-- **A worker that is to shut down winds down**, whatever step it makes. -/
theorem winds_of_step {l : WorkerLabel} (hx : w.step me s l = some (s', w'))
    (hshut : w.shutdown = true) : Winds l w w' := by
  cases act_of_step hx with
  | @ensure _ _ _ out hloop _ =>
    cases out with
    | ok u =>
      refine .of_below hshut rfl rfl rfl ?_
      rw [hloop, afterEnsure, headPc_of_shutdown hshut]
      exact LoopPc.below_of_rank (Nat.lt_succ_self _) rfl rfl
    | error e =>
      exact .of_below hshut rfl rfl rfl (hloop ▸ LoopPc.below_of_rank (Nat.succ_pos _) rfl rfl)
  | check hloop => exact .of_below hshut rfl rfl rfl (hloop ▸ below_afterCheck ..)
  | poll hloop haw =>
    have hbelow := below_afterPoll hshut hloop haw
    exact .of_below hshut rfl rfl rfl (hloop ▸ hbelow)
  | wake hloop =>
    refine .of_below hshut rfl rfl rfl ?_
    rw [hloop, headPc_of_shutdown hshut]
    exact LoopPc.below_of_rank (Nat.lt_succ_self _) rfl rfl
  | @acquire d rest hloop _ =>
    -- the task takes the place of its delivery
    obtain ⟨hrank, htake, hpoll⟩ := below_rest hshut d rest w.runner.pollBatch
    refine ⟨rfl, hshut, hloop ▸ hrank, ?_, hpoll.trans_le (Nat.zero_le _)⟩
    have hlen : (w.spawnTask d rest).tasks.length = w.tasks.length + 1 := by simp [spawnTask]
    have hmore : (w.spawnTask d rest).loop.mayTake w.runner.pollBatch = rest.length := htake
    rw [hlen, hmore, hloop]
    simp only [LoopPc.mayTake]
    omega
  | leave hloop =>
    refine .of_below hshut rfl rfl rfl (LoopPc.below_of_rank ?_ rfl rfl)
    rcases hloop with ⟨wakeAt, hloop⟩ | ⟨d, rest, hloop⟩ <;> rw [hloop] <;>
      simp only [LoopPc.rank] <;> omega
  | abandon hloop =>
    refine .of_below hshut rfl rfl rfl (LoopPc.below_of_rank ?_ rfl rfl)
    rcases hloop with hloop | hloop <;> rw [hloop] <;> exact Nat.succ_pos _
  | join hloop =>
    refine .of_below hshut rfl rfl rfl ?_
    rw [hloop]
    dsimp only
    split <;> exact LoopPc.below_of_rank (by simp only [LoopPc.rank]; omega) rfl rfl
  | drained hloop | lapse hloop =>
    exact .of_below hshut rfl rfl rfl (hloop ▸ LoopPc.below_of_rank (Nat.succ_pos _) rfl rfl)
  | timeUp hloop =>
    exact .of_below hshut rfl rfl rfl (hloop ▸ LoopPc.below_of_rank (Nat.lt_succ_self _) rfl rfl)
  | start | task | cancelTask | callback | claim | wakeRecovery | cancelRecovery |
      requestShutdown =>
    obtain ⟨hloop, hr, ht, hsh, -⟩ := frame_of_step hx rfl
    exact .of_loop_eq (hsh hshut) hr rfl hloop ht

/-! ## Polls -/

omit [Codec] in
/-- A loop past its last poll. -/
theorem mayPoll_of_rank {pc : LoopPc} {b : Nat} (h : pc.rank b < 5 + b) : pc.mayPoll = 0 := by
  cases pc with
  | checking => simp only [LoopPc.rank] at h; omega
  | polling => exact absurd h (Nat.lt_irrefl _)
  | _ => rfl

/-- **A step polls at most once, and only where the loop does.** -/
theorem polls_of_step {l : WorkerLabel} (hx : w.step me s l = some (s', w')) :
    s'.polls me = s.polls me ∨
      s'.polls me = s.polls me + 1 ∧ l.ofLoop = true ∧ w.loop = .polling := by
  have hcall : ∀ {a : Actor} {o : Op} {ans : Answer} {r : Except PyExc o.Res},
      s.exec w.site a o ans = some (s', r) →
      (∀ applied evicted, Event.isPoll me ⟨a, o, applied, evicted, r⟩ = false) →
      s'.polls me = s.polls me := by
    intro a o ans r hx hno
    obtain ⟨applied, evicted, hlog⟩ := World.exec_log hx
    exact World.polls_cons_of_not hlog (hno _ _)
  cases act_of_step hx with
  | ensure _ haw =>
    obtain ⟨r, hx, -⟩ := RedisStreamTransport.await_ensureGroup haw
    exact .inl (hcall hx fun _ _ => rfl)
  | check _ _ haw =>
    obtain ⟨r, hx, -⟩ := AdmissionController.await_check haw
    exact .inl (hcall hx fun _ _ => rfl)
  | poll hloop haw =>
    rcases RedisStreamTransport.await_readGroup haw with ⟨-, -, rfl⟩ | ⟨-, r, hx, -⟩
    · exact .inl rfl
    · obtain ⟨applied, evicted, hlog⟩ := World.exec_log hx
      exact .inr ⟨by rw [World.polls_cons hlog, if_pos (by simp [Event.isPoll])], rfl, hloop⟩
  | task _ hp =>
    obtain ⟨o, k, r, -, hx, -⟩ := Machine.step_eq_some.mp hp
    exact .inl (hcall hx fun _ _ => rfl)
  | claim _ _ haw =>
    obtain ⟨r, hx⟩ := RecoveryWorker.await_claimStale haw
    exact .inl (hcall hx fun _ _ => rfl)
  | wake | acquire | leave | abandon | start | cancelTask | callback | wakeRecovery |
      cancelRecovery | requestShutdown | join | drained | timeUp | lapse => exact .inl rfl

omit [Codec] in
/-- **The polls of a worker that is to shut down are bounded** by what its loop had begun. -/
theorem Winds.polls_le {l : WorkerLabel} (h : Winds l w w')
    (hpolls : s'.polls me = s.polls me ∨
      s'.polls me = s.polls me + 1 ∧ l.ofLoop = true ∧ w.loop = .polling) :
    s'.polls me + w'.loop.mayPoll ≤ s.polls me + w.loop.mayPoll := by
  rcases hpolls with hsame | ⟨hmore, hl, hloop⟩
  · rw [hsame]
    exact Nat.add_le_add_left h.polls _
  · -- the loop is past its poll
    have hrank := h.rank
    rw [hl, if_pos rfl, hloop] at hrank
    rw [hmore, mayPoll_of_rank (show w'.loop.rank w.runner.pollBatch < _ from hrank), hloop]
    exact le_rfl

/-! ## The drain -/

/-- Where the tasks of a step come from: a task that is over stays so. -/
theorem Move.task_cases (hm : Move me w s s' w') {j : Nat} {tk' : Task}
    (hj : w'.tasks[j]? = some tk') :
    (∃ tk, w.tasks[j]? = some tk ∧ (tk.pc.isOver = true → tk'.pc.isOver = true)) ∨
      ∃ d rest, w.loop = .acquiring d rest := by
  have hset : ∀ {i : Nat} {d : Delivery} {pc pc' : TaskPc}, w.tasks[i]? = some ⟨d, pc⟩ →
      (pc.isOver = true → pc'.isOver = true) → (w.setTask i pc').tasks[j]? = some tk' →
      ∃ tk, w.tasks[j]? = some tk ∧ (tk.pc.isOver = true → tk'.pc.isOver = true) := by
    intro i d pc pc' hi hover hj
    rcases (getElem?_setTask hi).mp hj with ⟨-, hj⟩ | ⟨rfl, rfl⟩
    · exact ⟨tk', hj, id⟩
    · exact ⟨_, hi, hover⟩
  cases hm with
  | loop | recovery | shutdown | ensure | check | poll | claim => exact .inl ⟨tk', hj, id⟩
  | spawn hloop _ => exact .inr ⟨_, _, hloop⟩
  | start hi => exact .inl (hset hi (fun h => nomatch h) (by rwa [settle_tasks] at hj))
  | task hi _ => exact .inl (hset hi (fun h => nomatch h) (by rwa [settle_tasks] at hj))
  | retire hi _ hover => exact .inl (hset hi (fun _ => hover) hj)

/-- Recovery is over where the loop is not entered yet or its recovery task is joined, and a task
that the end of `run` does not wait for is over. -/
structure Joined (w : Worker) : Prop where
  recovery : w.loop.apart = true → w.recovery = .ended
  awaited : ∀ ts, w.loop.awaited? = some ts → ∀ j tk, w.tasks[j]? = some tk → j ∉ ts →
    tk.pc.isOver = true

omit [Codec] in
/-- A worker that starts has no task yet. -/
theorem joined_spawn (r : WorkerRunner) (site : Nat) : (r.spawn site).Joined where
  recovery _ := rfl
  awaited _ _ _ _ hj _ := nomatch hj

omit [Codec] in
/-- A loop with neither has nothing to show. -/
theorem Joined.of_loop (ha : w.loop.apart = false) (hn : w.loop.awaited? = none) : w.Joined where
  recovery h := nomatch ha.symm.trans h
  awaited _ h := nomatch hn.symm.trans h

omit [Codec] in
/-- The head of the loop is such. -/
theorem apart_headPc (w : Worker) : w.headPc.apart = false ∧ w.headPc.awaited? = none := by
  unfold headPc
  split
  · exact ⟨rfl, rfl⟩
  · split <;> exact ⟨rfl, rfl⟩

omit [Codec] in
/-- With a batch the loop is on. -/
theorem apart_batchPc (w : Worker) (ds : List Delivery) :
    (w.batchPc ds).apart = false ∧ (w.batchPc ds).awaited? = none := by
  cases ds with
  | nil => exact apart_headPc w
  | cons d rest => exact ⟨rfl, rfl⟩

omit [Codec] in
/-- What is not over is in the inflight set. -/
theorem isOver_of_notMem_inflight {j : Nat} {tk : Task} (hj : w.tasks[j]? = some tk)
    (hn : j ∉ w.inflight) : tk.pc.isOver = true := by
  have hlt := (List.getElem?_eq_some_iff.mp hj).1
  obtain ⟨d, pc⟩ := tk
  cases pc with
  | ended | discarded => rfl
  | created | running p =>
    refine absurd (List.mem_filter.mpr ⟨List.mem_range.mpr hlt, ?_⟩) hn
    rw [hj]
    rfl

/-- A step that is not one of the loop. -/
theorem Joined.of_frame (h : w.Joined) {l : WorkerLabel} (hx : w.step me s l = some (s', w'))
    (hl : l.ofLoop = false) : w'.Joined := by
  obtain ⟨hloop, -, -, -, hrec⟩ := frame_of_step hx hl
  refine ⟨fun ha => hrec (h.recovery (hloop ▸ ha)), fun ts hts j tk hj hn => ?_⟩
  rw [hloop] at hts
  rcases (step_move hx).task_cases hj with ⟨tk₀, hj₀, hover⟩ | ⟨d, rest, hacq⟩
  · exact hover (h.awaited ts hts j tk₀ hj₀ hn)
  · rw [hacq] at hts
    cases hts

omit [Codec] in
/-- After the check the loop is on. -/
theorem apart_afterCheck (now : Nat) (out : Except PyExc Unit) :
    (afterCheck now out).apart = false ∧ (afterCheck now out).awaited? = none := by
  unfold afterCheck
  split
  · exact ⟨rfl, rfl⟩
  · split <;> exact ⟨rfl, rfl⟩

omit [Codec] in
/-- After a poll the loop is on. -/
theorem apart_afterPoll (w : Worker) (now : Nat) (out : Except PyExc (List Delivery)) :
    (w.afterPoll now out).apart = false ∧ (w.afterPoll now out).awaited? = none := by
  unfold afterPoll
  split
  · exact apart_batchPc w _
  · split <;> exact ⟨rfl, rfl⟩

omit [Codec] in
/-- Where `run` has ended, recovery is all there is to show. -/
theorem Joined.of_stopped (h : w.Joined) (ha : w.loop.apart = true) :
    Joined { w with loop := .stopped } where
  recovery _ := h.recovery ha
  awaited _ h := nomatch h

/-- **Every step keeps recovery apart from the drain**, and the drain waits for what is unfinished. -/
theorem Joined.step (h : w.Joined) {l : WorkerLabel} (hx : w.step me s l = some (s', w')) :
    w'.Joined := by
  cases act_of_step hx with
  | @ensure _ _ _ out hloop _ =>
    cases out with
    | ok u => exact .of_loop (apart_headPc w).1 (apart_headPc w).2
    | error e => exact h.of_stopped (by rw [hloop]; rfl)
  | check => exact .of_loop (apart_afterCheck ..).1 (apart_afterCheck ..).2
  | poll => exact .of_loop (apart_afterPoll ..).1 (apart_afterPoll ..).2
  | wake => exact .of_loop (apart_headPc w).1 (apart_headPc w).2
  | acquire => exact .of_loop (apart_batchPc w _).1 (apart_batchPc w _).2
  | leave => exact .of_loop rfl rfl
  | abandon hloop => exact h.of_stopped (by rcases hloop with hloop | hloop <;> rw [hloop] <;> rfl)
  | join hloop hrec =>
    -- the drain begins with the inflight set
    refine ⟨fun _ => hrec, fun ts hts j tk hj hn => ?_⟩
    dsimp only at hts
    split at hts
    · cases hts
    · cases hts
      exact isOver_of_notMem_inflight hj hn
  | drained hloop | lapse hloop => exact h.of_stopped (by rw [hloop]; rfl)
  | @timeUp ts _ hloop =>
    -- and goes on with what is not over by now
    refine ⟨fun _ => h.recovery (by rw [hloop]; rfl), fun ts' hts j tk hj hn => ?_⟩
    cases hts
    by_cases hmem : j ∈ ts
    · have hover : w.taskOver j = true := by
        simpa [hmem] using (List.mem_filter.not.mp hn)
      simpa [taskOver, show w.tasks[j]? = some tk from hj] using hover
    · exact h.awaited ts (by rw [hloop]; rfl) j tk hj hmem
  | start | task | cancelTask | callback | claim | wakeRecovery | cancelRecovery |
      requestShutdown => exact h.of_frame hx rfl

/-- The tasks the end of `run` waits for, or is going to. -/
def awaits (w : Worker) : List Nat :=
  match w.loop with
  | .joining => w.inflight
  | .draining ts _ | .cancelling ts _ => ts
  | _ => []

/-- Nothing is left to do. -/
structure Retired (w : Worker) : Prop where
  loop : w.loop = .stopped
  recovery : w.recovery = .ended
  tasks : ∀ tk ∈ w.tasks, tk.pc.isOver = true

omit [Codec] in
/-- Where the end of `run` has come, a task is over, whether it is waited for or not. -/
theorem Joined.over (h : w.Joined) (hover : w.awaits.all w.taskOver = true)
    (hpc : w.loop = .joining ∨ w.loop.awaited? = some w.awaits) :
    ∀ tk ∈ w.tasks, tk.pc.isOver = true := by
  intro tk htk
  obtain ⟨j, hj⟩ := List.mem_iff_getElem?.mp htk
  by_cases hmem : j ∈ w.awaits
  · simpa [taskOver, hj] using List.all_eq_true.mp hover j hmem
  · rcases hpc with hloop | hts
    · have hinflight : w.awaits = w.inflight := by rw [awaits, hloop]
      exact isOver_of_notMem_inflight hj (hinflight ▸ hmem)
    · exact h.awaited w.awaits hts j tk hj hmem

/-- **An end of `run` that comes with its tasks over leaves nothing to do**, whatever step it comes
with. -/
theorem Joined.retired (h : w.Joined) (hover : w.awaits.all w.taskOver = true) {l : WorkerLabel}
    (hx : w.step me s l = some (s', w')) (hgoing : w.loop ≠ .stopped) (hstop : w'.loop = .stopped) :
    w'.Retired := by
  -- the loop goes on to nothing that is apart
  have hloops : w'.loop.apart ≠ false := by
    rw [hstop]
    exact Bool.noConfusion
  cases act_of_step hx with
  | @ensure _ _ _ out hloop _ =>
    cases out with
    | ok u => exact absurd (apart_headPc w).1 hloops
    | error e =>
      exact ⟨rfl, h.recovery (by rw [hloop]; rfl), h.over hover (.inr (by rw [awaits, hloop]; rfl))⟩
  | check => exact absurd (apart_afterCheck ..).1 hloops
  | poll => exact absurd (apart_afterPoll ..).1 hloops
  | wake => exact absurd (apart_headPc w).1 hloops
  | acquire => exact absurd (apart_batchPc w _).1 hloops
  | leave => cases hstop
  | abandon hloop =>
    refine ⟨rfl, h.recovery ?_, h.over hover (.inr ?_)⟩ <;>
      rcases hloop with hloop | hloop
    · rw [hloop]; rfl
    · rw [hloop]; rfl
    · rw [awaits, hloop]; rfl
    · rw [awaits, hloop]; rfl
  | join hloop hrec => exact ⟨hstop, hrec, h.over hover (.inl hloop)⟩
  | drained hloop | lapse hloop =>
    exact ⟨rfl, h.recovery (by rw [hloop]; rfl), h.over hover (.inr (by rw [awaits, hloop]; rfl))⟩
  | timeUp => cases hstop
  | start | task | cancelTask | callback | claim | wakeRecovery | cancelRecovery |
      requestShutdown => exact absurd ((frame_of_step hx rfl).1.symm.trans hstop) hgoing

/-- **Such a worker never acts again.** -/
theorem Retired.step (h : w.Retired) {l : WorkerLabel} (hx : w.step me s l = some (s', w')) :
    w'.Retired ∧ s' = s := by
  have hloop := h.loop
  -- a step that is not one of the loop keeps it retired
  have hrest : l.ofLoop = false → w'.Retired := fun hl => by
    obtain ⟨hl', -, -, -, hrec⟩ := frame_of_step hx hl
    refine ⟨hl'.trans hloop, hrec h.recovery, fun tk htk => ?_⟩
    obtain ⟨j, hj⟩ := List.mem_iff_getElem?.mp htk
    rcases (step_move hx).task_cases hj with ⟨tk₀, hj₀, hover⟩ | ⟨d, rest, hacq⟩
    · exact hover (h.tasks tk₀ (List.mem_of_getElem? hj₀))
    · cases hloop.symm.trans hacq
  cases act_of_step hx with
  | start | cancelTask | callback | requestShutdown => exact ⟨hrest rfl, rfl⟩
  | task hi => cases h.tasks _ (List.mem_of_getElem? hi)
  | claim hrec | wakeRecovery hrec | cancelRecovery hrec => cases h.recovery.symm.trans hrec
  | leave hloop' =>
    rcases hloop' with ⟨_, hloop'⟩ | ⟨_, _, hloop'⟩ <;> cases hloop.symm.trans hloop'
  | abandon hloop' => rcases hloop' with hloop' | hloop' <;> cases hloop.symm.trans hloop'
  | ensure hloop' | check hloop' | poll hloop' | wake hloop' | acquire hloop' | join hloop'
  | drained hloop' | timeUp hloop' | lapse hloop' => cases hloop.symm.trans hloop'

end Worker

end RelayQ

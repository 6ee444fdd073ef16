import RelayQ.Infrastructure.Histories
import RelayQ.System.Ownership

/-! # Every entry is executed at most once

Nothing takes an entry twice: a poll hands out what was never handed out, and what recovery claims
goes to the log only. So the record of a run, however the workers, their tasks, their crashes and the
failures of their calls are interleaved, holds at most one handler call for an entry, at most one
dead-letter append and at most one acknowledgement, and these in this order.

* `Op.stage`: how far a call takes an execution; `Executor.wp_execute_ascending`: one `execute`.
* `rankKind`: the history of calls that ascend in rank.
* `Worker.Traced`: which calls of the record are those of which task of a worker.
* `Sys.executedOnce`: the guarantee. -/

namespace RelayQ

/-- How far a call takes the execution of an entry: its handler is called, its job is dead-lettered,
the entry is acknowledged. -/
def Op.stage : Op → Nat
  | .handler _ _ => 1
  | .redis (.xadd _ _ _) => 2
  | .redis (.xack _ _ _) => 3
  | _ => 0

/-- A call by its rank, if it has one. -/
def rankKind (rank : Op → Nat) : EventKind Nat := fun o _ => if rank o = 0 then none else some (rank o)

/-- A call that ascends leaves its history in order, newest first. -/
theorem pairwise_rankKind {rank : Op → Nat} {m : List Nat} {top : Nat} (hm : m.Pairwise (· > ·))
    (htop : ∀ st ∈ m, st ≤ top) {o : Op} (hguard : rank o = 0 ∨ top < rank o)
    (r : Except PyExc o.Res) : ((rankKind rank o r).toList ++ m).Pairwise (· > ·) ∧
      ∀ st ∈ (rankKind rank o r).toList ++ m, st ≤ max top (rank o) := by
  by_cases hz : rank o = 0
  · simpa [rankKind, hz] using And.intro hm htop
  · have hlt : top < rank o := hguard.resolve_left hz
    simp only [rankKind, if_neg hz, Option.toList_some, List.singleton_append]
    refine ⟨List.pairwise_cons.mpr ⟨fun st hst => Nat.lt_of_le_of_lt (htop st hst) hlt, hm⟩,
      fun st hst => ?_⟩
    rcases List.mem_cons.mp hst with rfl | hst
    · exact le_max_right _ _
    · exact (htop st hst).trans (le_max_left _ _)

/-- A call as the stage it takes an execution to. -/
def stageKind : EventKind Nat := rankKind Op.stage

/-- The calls that some worker makes for an entry of a queue. -/
def Actor.executes (queue : String) (entryId : Nat) : Actor → Bool
  | .executor _ _ q e => q = queue && e = entryId
  | _ => false

/-- The calls of one task. -/
def Actor.isTask (worker task : Nat) : Actor → Bool
  | .executor i j _ _ => i = worker && j = task
  | _ => false

/-- The stages that executions of an entry have come to, newest first. -/
def World.stages (w : World) (queue : String) (entryId : Nat) : List Nat :=
  w.history stageKind (Actor.executes queue entryId)

namespace Executor

variable [Codec] (x : Executor)

omit [Codec] in
/-- Calls that are not part of any stage leave the stage as it is, and their outcome open. -/
theorem wp_unstaged {α : Type} {p : Py α} (hp : p.Calls fun o : Op => o.stage = 0) (top : Nat) :
    p.wp (.ascending Op.stage) (fun _ _ => True) top :=
  Prog.wp_mono p (fun _ _ _ => trivial) (Prog.Calls.ascending hp top)

/-- Dead-lettering appends, then acknowledges. -/
theorem wp_deadLetter_ascending (queue : String) (entryId : Nat) (job : Job) (why : String) :
    (x.deadLetter queue entryId job why).wp (.ascending Op.stage) (fun _ _ => True) 1 := by
  refine wp_logged.mpr (Prog.wp_mono (Q := fun _ _ => True) _ (fun r m _ => ?_) ?_)
  · cases r with
    | ok u => trivial
    | error e => dsimp only; split <;> trivial
  · refine Prog.wp_perform_bind (.inr (show 1 < 2 by decide)) (fun id => ?_) fun e => trivial
    refine Prog.wp_perform_bind (.inr (show 2 < 3 by decide)) (fun n => ?_) fun e => trivial
    exact wp_unstaged (.perform rfl) _

/-- What comes after the handler has failed: at most a dead-lettering. -/
theorem wp_handleFailure_ascending (queue : String) (entryId : Nat) (job : Job) (exc : PyExc) :
    (x.handleFailure queue entryId job exc).wp (.ascending Op.stage) (fun _ _ => True) 1 := by
  refine Prog.wp_perform_bind (.inl rfl) (fun _ => ?_) fun _ => trivial
  show Prog.wp _ _ _ 1
  split
  · refine Prog.wp_bind_of (R := fun _ m => m = 1) ?_ (fun why m hm => ?_) fun _ _ _ => trivial
    · unfold reason
      split <;> rfl
    · subst hm
      refine Prog.wp_bind_of (x.wp_deadLetter_ascending queue entryId _ why) (fun _ m _ => ?_)
        fun _ _ _ => trivial
      exact wp_unstaged ((calls_noteStatus fun _ => rfl).bind fun _ => .ret _) m
  · refine wp_unstaged (.bind (.perform rfl) fun _ => ?_) 1
    exact (calls_noteStatus fun _ => rfl).bind fun _ => .ret _

omit [Codec] in
/-- What comes after the handler has returned: an acknowledgement. -/
theorem wp_handleSuccess_ascending (queue : String) (entryId : Nat) (job : Job) :
    (x.handleSuccess queue entryId job).wp (.ascending Op.stage) (fun _ _ => True) 1 := by
  refine Prog.wp_bind_of (R := fun _ _ => True) ?_ (fun _ m _ => ?_) fun _ _ _ => trivial
  · refine wp_logged.mpr ⟨.inr (show 1 < 3 by decide), fun r => ?_⟩
    rw [Prog.wp_ofExcept]
    cases r with
    | ok n => trivial
    | error e => dsimp only; split <;> trivial
  · exact wp_unstaged ((calls_noteStatus fun _ => rfl).bind fun _ =>
      .bind (.perform rfl) fun _ => .ret _) m

/-- **One `execute` calls its handler, dead-letters and acknowledges in this order**, each at most
once. -/
theorem wp_execute_ascending (queue : String) (entryId : Nat) (job : Job) :
    (x.execute queue entryId job).wp (.ascending Op.stage) (fun _ _ => True) 0 := by
  have helapsed : ∀ {β : Type} {kind : String} {start : Nat} {p : Py β},
      p.wp (.ascending Op.stage) (fun _ _ => True) 1 →
        ((observeElapsed kind start).bind fun _ => p).wp (.ascending Op.stage)
          (fun _ _ => True) 1 := fun hp =>
    Prog.wp_bind_of (Prog.Calls.ascending (calls_observeElapsed rfl fun _ => rfl) 1)
      (fun _ m hm => hm ▸ hp) fun _ _ _ => trivial
  refine Prog.wp_bind_of (Prog.Calls.ascending (calls_noteStatus fun _ => rfl) 0)
    (fun _ m hm => ?_) fun _ _ _ => trivial
  subst hm
  refine Prog.wp_perform_bind (.inl rfl) (fun start => ?_) fun _ => trivial
  refine Prog.wp_perform_bind (.inr Nat.one_pos) (fun (run : HandlerRun) => ?_) fun _ => trivial
  show Prog.wp _ _ _ 1
  dsimp only
  split
  · exact helapsed (x.wp_handleSuccess_ascending queue entryId _)
  · split
    · exact helapsed (x.wp_handleFailure_ascending queue entryId _ _)
    · trivial

end Executor

/-! ## The record and the tasks -/

/-- The record of a task's calls fits how far the task is. -/
def Task.Staged (tk : Task) (m : List Nat) : Prop :=
  m.Pairwise (· > ·) ∧ match tk.pc with
    | .created => m = []
    | .running p =>
      ∃ top, (∀ st ∈ m, st ≤ top) ∧ p.wp (.ascending Op.stage) (fun _ _ => True) top
    | .ended | .discarded => True

/-- Whose calls the record holds: the calls of a task of the worker are for its entry, and in
order. -/
structure Worker.Traced (me : Nat) (s : World) (w : Worker) : Prop where
  calls : ∀ ev ∈ s.log, ∀ j q e, ev.actor = .executor me j q e →
    q = w.runner.queue ∧ ∃ tk, w.tasks[j]? = some tk ∧ tk.delivery.entryId = e
  staged : ∀ (j : Nat) (tk : Task), w.tasks[j]? = some tk →
    tk.Staged (s.history stageKind (Actor.isTask me j))

namespace Worker

variable {me : Nat} {s s' : World} {w w' : Worker}

/-- A program that goes on in order. -/
theorem staged_after {m : List Nat} {top : Nat} (hm : m.Pairwise (· > ·)) (htop : ∀ st ∈ m, st ≤ top)
    {p : Py Unit} (hp : p.wp (.ascending Op.stage) (fun _ _ => True) top) (d : Delivery) :
    Task.Staged ⟨d, .after p⟩ m := by
  refine ⟨hm, ?_⟩
  unfold TaskPc.after
  cases p.outcome with
  | none => exact ⟨top, htop, hp⟩
  | some out => trivial

/-- Calls of others say nothing of this worker. -/
theorem Traced.elsewhere (h : w.Traced me s) (hr : w'.runner = w.runner) (ht : w'.tasks = w.tasks)
    (hlog : s'.log = s.log ∨ ∃ ev, s'.log = ev :: s.log ∧
      ∀ j q e, ev.actor ≠ .executor me j q e) : w'.Traced me s' := by
  have hhist : ∀ j, s'.history stageKind (Actor.isTask me j) =
      s.history stageKind (Actor.isTask me j) := by
    intro j
    rcases hlog with hlog | ⟨ev, hlog, hother⟩
    · unfold World.history
      rw [hlog]
    · refine World.history_cons_of_not hlog ?_
      cases ha : ev.actor with
      | executor i k q e =>
        have hne : i ≠ me := fun h => hother k q e (h ▸ ha)
        simp [Actor.isTask, hne]
      | enqueuer _ | api _ | runner _ | recovery _ | foreign => rfl
  constructor
  · intro ev hev j q e ha
    rw [hr, ht]
    rcases hlog with hlog | ⟨ev', hlog, hother⟩
    · exact h.calls ev (hlog ▸ hev) j q e ha
    · rw [hlog] at hev
      rcases List.mem_cons.mp hev with rfl | hev
      · exact absurd ha (hother j q e)
      · exact h.calls ev hev j q e ha
  · intro j tk hj
    rw [hhist]
    exact h.staged j tk (ht ▸ hj)

/-- A task that gets on without a call. -/
theorem Traced.setTask (h : w.Traced me s) {i : Nat} {d : Delivery} {pc pc' : TaskPc}
    (hi : w.tasks[i]? = some ⟨d, pc⟩)
    (hst : Task.Staged ⟨d, pc'⟩ (s.history stageKind (Actor.isTask me i))) :
    (w.setTask i pc').Traced me s where
  calls := by
    intro ev hev j q e ha
    obtain ⟨hq, tk, hj, hid⟩ := h.calls ev hev j q e ha
    refine ⟨hq, ?_⟩
    by_cases hij : j = i
    · subst hij
      obtain rfl := Option.some.inj (hi.symm.trans hj)
      exact ⟨_, (getElem?_setTask hi).mpr (.inr ⟨rfl, rfl⟩), hid⟩
    · exact ⟨tk, (getElem?_setTask hi).mpr (.inl ⟨hij, hj⟩), hid⟩
  staged := by
    intro j tk hj
    rcases (getElem?_setTask hi).mp hj with ⟨-, hj⟩ | ⟨rfl, rfl⟩
    · exact h.staged j tk hj
    · exact hst

/-- The state a task is left in decides what is known of it. -/
theorem Traced.settle (h : w.Traced me s) {i : Nat} {d : Delivery} {pc : TaskPc} {p : Py Unit}
    (hi : w.tasks[i]? = some ⟨d, pc⟩)
    (hst : Task.Staged ⟨d, .after p⟩ (s.history stageKind (Actor.isTask me i))) :
    (w.settle i p).Traced me s := by
  have hset := h.setTask hi hst
  exact hset.elsewhere (settle_runner w i p) (settle_tasks w i p) (.inl rfl)

/-- The call of a task is answered, and takes its execution a stage further or is not part of
any. -/
theorem Traced.task (h : w.Traced me s) {i : Nat} {d : Delivery} {o : Op}
    {k : Except PyExc o.Res → Py Unit} {ans : Answer} {r : Except PyExc o.Res}
    (hi : w.tasks[i]? = some ⟨d, .running (.call o k)⟩)
    (hx : s.exec w.site (.executor me i w.runner.queue d.entryId) o ans = some (s', r)) :
    (w.settle i (k r)).Traced me s' := by
  obtain ⟨applied, evicted, hlog⟩ := World.exec_log hx
  obtain ⟨hm, top, htop, hguard, hwp⟩ := h.staged i _ hi
  -- the calls of the other tasks are those they were
  have hsame : ∀ j, j ≠ i → s'.history stageKind (Actor.isTask me j) =
      s.history stageKind (Actor.isTask me j) := fun j hj =>
    World.history_cons_of_not hlog (by simp [Actor.isTask, Ne.symm hj])
  have hnext : s'.history stageKind (Actor.isTask me i) =
      (stageKind o r).toList ++ s.history stageKind (Actor.isTask me i) :=
    World.history_cons hlog (by simp [Actor.isTask])
  have hstaged : Task.Staged ⟨d, .after (k r)⟩ (s'.history stageKind (Actor.isTask me i)) := by
    rw [hnext]
    obtain ⟨hpair, hle⟩ := pairwise_rankKind hm htop hguard r
    exact staged_after hpair hle (hwp r) d
  constructor
  · intro ev hev j q e ha
    rw [settle_runner, settle_tasks]
    have hold : q = w.runner.queue ∧ ∃ tk, w.tasks[j]? = some tk ∧ tk.delivery.entryId = e := by
      rw [hlog] at hev
      rcases List.mem_cons.mp hev with rfl | hev
      · obtain ⟨-, rfl, rfl, rfl⟩ := Actor.executor.inj ha
        exact ⟨rfl, _, hi, rfl⟩
      · exact h.calls ev hev j q e ha
    obtain ⟨hq, tk, hj, hid⟩ := hold
    refine ⟨hq, ?_⟩
    by_cases hij : j = i
    · subst hij
      obtain rfl := Option.some.inj (hi.symm.trans hj)
      exact ⟨_, (getElem?_setTask hi).mpr (.inr ⟨rfl, rfl⟩), hid⟩
    · exact ⟨tk, (getElem?_setTask hi).mpr (.inl ⟨hij, hj⟩), hid⟩
  · intro j tk hj
    rw [settle_tasks] at hj
    rcases (getElem?_setTask hi).mp hj with ⟨hji, hj⟩ | ⟨rfl, rfl⟩
    · rw [hsame j hji]
      exact h.staged j tk hj
    · exact hstaged

variable [Codec]

/-- What a task does is one `execute`. -/
theorem wp_processJob_ascending (r : WorkerRunner) (d : Delivery) :
    (r.processJob d).wp (.ascending Op.stage) (fun _ _ => True) 0 := by
  unfold WorkerRunner.processJob
  split
  · rename_i job _
    refine Executor.wp_logged.mpr (Prog.wp_mono _ (fun out m _ => ?_)
      (r.executor.wp_execute_ascending r.queue d.entryId job))
    cases out with
    | ok u => trivial
    | error e => dsimp only; split <;> trivial
  · trivial

/-- **Every move of a worker keeps its record.** -/
theorem Traced.move (h : w.Traced me s) (hm : Move me w s s' w') : w'.Traced me s' := by
  -- the loop and the recovery task act under names of their own
  have hother : ∀ {a : Actor} {o : Op} {ans : Answer} {r : Except PyExc o.Res} {w₁ : Worker},
      s.exec w.site a o ans = some (s', r) → (∀ j q e, a ≠ .executor me j q e) →
      w₁.runner = w.runner → w₁.tasks = w.tasks → w₁.Traced me s' := by
    intro a o ans r w₁ hx ha hr ht
    obtain ⟨applied, evicted, hlog⟩ := World.exec_log hx
    exact h.elsewhere hr ht (.inr ⟨_, hlog, ha⟩)
  cases hm with
  | loop | recovery | shutdown => exact h.elsewhere rfl rfl (.inl rfl)
  | ensure hx _ _ => exact hother hx (fun _ _ _ => nofun) rfl rfl
  | check _ _ hx _ => exact hother hx (fun _ _ _ => nofun) rfl rfl
  | poll _ _ hx _ => exact hother hx (fun _ _ _ => nofun) rfl rfl
  | claim _ hx => exact hother hx (fun _ _ _ => nofun) rfl rfl
  | @spawn d rest hloop hperm =>
    constructor
    · intro ev hev j q e ha
      obtain ⟨hq, tk, hj, hid⟩ := h.calls ev hev j q e ha
      exact ⟨hq, tk, getElem?_spawnTask.mpr (.inl hj), hid⟩
    · intro j tk hj
      rcases getElem?_spawnTask.mp hj with hj | ⟨rfl, rfl⟩
      · exact h.staged j tk hj
      · -- the record knows no task of this number yet
        have hnone : s.history stageKind (Actor.isTask me w.tasks.length) = [] := by
          refine List.eq_nil_iff_forall_not_mem.mpr fun st hst => ?_
          obtain ⟨ev, hev, hmine, -⟩ := World.mem_history.mp hst
          cases ha : ev.actor with
          | executor i k q e =>
            rw [ha] at hmine
            obtain ⟨rfl, rfl⟩ : i = me ∧ k = w.tasks.length := by simpa [Actor.isTask] using hmine
            obtain ⟨-, tk, hj, -⟩ := h.calls ev hev _ q e ha
            exact absurd (List.getElem?_eq_some_iff.mp hj).1 (Nat.lt_irrefl _)
          | enqueuer _ | api _ | runner _ | recovery _ | foreign => rw [ha] at hmine; cases hmine
        rw [hnone]
        exact ⟨List.Pairwise.nil, rfl⟩
  | @start i d hi =>
    obtain ⟨-, hnil⟩ := h.staged i _ hi
    refine h.settle hi ?_
    simp only at hnil
    rw [hnil]
    exact staged_after List.Pairwise.nil (by simp) (wp_processJob_ascending w.runner d) d
  | task hi hx => exact h.task hi hx
  | @retire i d pc pc' hi hpc hover =>
    refine h.setTask hi ⟨(h.staged i _ hi).1, ?_⟩
    cases pc' with
    | ended | discarded => trivial
    | created | running _ => cases hover

end Worker

/-! ## The system -/

namespace Sys

/-- Whose calls the record holds, for every worker. -/
structure Traced (s : Sys) : Prop where
  known : ∀ ev ∈ s.world.log, ∀ i j q e, ev.actor = .executor i j q e → i < s.workers.length
  workers : ∀ (i : Nat) (w : Worker), s.workers[i]? = some w → w.Traced i s.world

/-- Nothing has run at the start. -/
theorem traced_init : init.Traced := ⟨by simp [init, world, World.init], by simp [init]⟩

variable [Codec] {t : RedisStreamTransport} {s s' : Sys}

/-- The event a step of the `enqueue` calls adds to the record, if it adds one, is none of a
worker. -/
theorem pool_record {pl : PoolLabel relay EnqueueCall} {p : PoolState relay EnqueueCall Nat}
    (hp : enqueuePool.step s.pool pl = some p) : p.world.log = s.world.log ∨
      ∃ ev, p.world.log = ev :: s.world.log ∧ ∀ i, ev.actor.ofWorker i = false := by
  rcases PoolSpec.step_cases hp with ⟨c, site, rfl, rfl⟩ |
    ⟨n, ans, c, o, k, w, r, rfl, hc, hprog, hx, rfl⟩ | ⟨site, rfl, rfl⟩ | ⟨e, w, rfl, hw, rfl⟩
  · exact .inl rfl
  · obtain ⟨applied, evicted, hlog⟩ := World.exec_log hx
    exact .inr ⟨_, hlog, fun _ => rfl⟩
  · exact .inl rfl
  · cases e with
    | tick d =>
      obtain rfl := Option.some.inj hw
      exact .inl rfl
    | foreign key body =>
      simp only [World.env, Option.map_eq_some_iff] at hw
      obtain ⟨⟨w₁, r⟩, hx, rfl⟩ := hw
      obtain ⟨applied, evicted, hlog⟩ := World.exec_log hx
      exact .inr ⟨_, hlog, fun _ => rfl⟩

/-- **Every step keeps the record of every worker.** -/
theorem Traced.step {l : SysLabel} (h : s.Traced) (hs : s.step l = some s') : s'.Traced := by
  rcases step_cases hs with ⟨pl, p, rfl, -, hp, rfl⟩ | ⟨r, site, rfl, rfl⟩ |
    ⟨i, wl, w, world, w', rfl, hi, -, hx, rfl⟩
  · have hlen : (killed s.workers pl).length = s.workers.length := by
      cases pl <;> simp [killed]
    have hrec := pool_record hp
    constructor
    · intro ev hev i j q e ha
      rw [hlen]
      rcases hrec with hlog | ⟨ev', hlog, hother⟩
      · exact h.known ev (hlog ▸ hev) i j q e ha
      · rcases List.mem_cons.mp (hlog ▸ hev) with rfl | hev
        · exact absurd ha (Actor.ne_executor_of (hother i) j q e)
        · exact h.known ev hev i j q e ha
    · intro i w' hw'
      obtain ⟨f, hf, hmap⟩ := getElem?_killed s.workers pl i
      obtain ⟨w, hw, rfl⟩ := Option.map_eq_some_iff.mp (hmap.symm.trans hw')
      refine (h.workers i w hw).elsewhere ?_ ?_ ?_
      · rcases hf w with heq | heq <;> rw [heq]
      · rcases hf w with heq | heq <;> rw [heq]
      · refine hrec.imp_right ?_
        rintro ⟨ev, hlog, hother⟩
        exact ⟨ev, hlog, Actor.ne_executor_of (hother i)⟩
  · constructor
    · intro ev hev i j q e ha
      rw [List.length_append]
      exact Nat.lt_add_right _ (h.known ev hev i j q e ha)
    · intro i w hw
      rcases getElem?_concat_cases hw with hw | ⟨rfl, rfl⟩
      · exact h.workers i w hw
      · -- nothing is on record of a worker of this number
        refine ⟨fun ev hev j q e ha => ?_, fun j tk hj => by cases hj⟩
        exact absurd (h.known ev hev _ j q e ha) (Nat.lt_irrefl _)
  · have hm := Worker.step_move hx
    have hrec := hm.record
    constructor
    · intro ev hev k j q e ha
      rw [List.length_set]
      rcases hrec with hlog | ⟨ev', hlog, hact⟩
      · exact h.known ev (hlog ▸ hev) k j q e ha
      · rcases List.mem_cons.mp (hlog ▸ hev) with rfl | hev
        · rw [ha] at hact
          rcases hact with hact | hact | ⟨_, _, _, hact⟩
          · cases hact
          · cases hact
          · obtain ⟨rfl, -⟩ := Actor.executor.inj hact
            exact (List.getElem?_eq_some_iff.mp hi).1
        · exact h.known ev hev k j q e ha
    · intro k u hu
      rcases getElem?_set_cases hu with ⟨rfl, rfl⟩ | ⟨hki, hu⟩
      · exact (h.workers k w hi).move hm
      · refine (h.workers k u hu).elsewhere rfl rfl (hrec.imp_right ?_)
        rintro ⟨ev, hlog, hact⟩
        refine ⟨ev, hlog, fun j q e ha => ?_⟩
        rw [ha] at hact
        rcases hact with hact | hact | ⟨_, _, _, hact⟩
        · cases hact
        · cases hact
        · exact hki (Actor.executor.inj hact).1

/-- In every reachable state the record is that of the tasks. -/
theorem Run.traced (h : Run t init s) : s.Traced :=
  Reaches.invariant (P := Traced) (fun _ _ _ hu _ hs => hu.step hs) h traced_init

/-- The stages an entry has come to are in order. -/
theorem Run.stages (hrun : Run t init s) (queue : String) (entryId : Nat) :
    (s.world.stages queue entryId).Pairwise (· > ·) := by
  have howned := hrun.owned
  have htraced := hrun.traced
  by_cases hev : ∃ ev ∈ s.world.log, ev.actor.executes queue entryId = true
  · obtain ⟨ev, hev, hmine⟩ := hev
    -- all calls for the entry are made by the task that made this one
    have htask : ∀ a : Actor, a.executes queue entryId = true →
        ∃ i j, a = .executor i j queue entryId := by
      intro a ha
      cases a with
      | executor i j q e =>
        obtain ⟨rfl, rfl⟩ : q = queue ∧ e = entryId := by simpa [Actor.executes] using ha
        exact ⟨i, j, rfl⟩
      | enqueuer _ | api _ | runner _ | recovery _ | foreign => cases ha
    have hfound : ∀ {ev' : Event} {i j : Nat}, ev' ∈ s.world.log →
        ev'.actor = .executor i j queue entryId → ∃ w tk, s.workers[i]? = some w ∧
          w.tasks[j]? = some tk ∧ queue = w.runner.queue ∧ tk.delivery.entryId = entryId := by
      intro ev' i j hev' ha
      have hlt := htraced.known ev' hev' i j queue entryId ha
      obtain ⟨hq, tk, hj, hid⟩ := (htraced.workers i _ (List.getElem?_eq_getElem hlt)).calls ev' hev'
        j queue entryId ha
      exact ⟨_, tk, List.getElem?_eq_getElem hlt, hj, hq, hid⟩
    obtain ⟨i, j, ha⟩ := htask ev.actor hmine
    obtain ⟨w, tk, hw, hj, hq, hid⟩ := hfound hev ha
    have hsame : s.world.stages queue entryId =
        s.world.history stageKind (Actor.isTask i j) := by
      unfold World.stages World.history
      refine congrArg _ (List.filter_congr fun ev' hev' => ?_)
      rw [Bool.eq_iff_iff]
      constructor
      · intro hmine'
        obtain ⟨i', j', ha'⟩ := htask ev'.actor hmine'
        obtain ⟨w', tk', hw', hj', hq', hid'⟩ := hfound hev' ha'
        obtain ⟨rfl, rfl⟩ := howned.task_unique hw hw' hj hj' (hq.symm.trans hq')
          (hid.trans hid'.symm)
        simp [ha', Actor.isTask]
      · intro htask'
        cases ha' : ev'.actor with
        | executor i' j' q' e' =>
          obtain ⟨rfl, rfl⟩ : i' = i ∧ j' = j := by simpa [ha', Actor.isTask] using htask'
          obtain ⟨hq', tk', hj', hid'⟩ := (htraced.workers i' w hw).calls ev' hev' j' q' e' ha'
          obtain rfl := Option.some.inj (hj.symm.trans hj')
          simp [Actor.executes, hq, hq', ← hid, ← hid']
        | enqueuer _ | api _ | runner _ | recovery _ | foreign => rw [ha'] at htask'; cases htask'
    rw [hsame]
    exact ((htraced.workers i w hw).staged j tk hj).1
  · -- nobody has executed the entry
    have hnil : s.world.stages queue entryId = [] := by
      refine List.eq_nil_iff_forall_not_mem.mpr fun st hst => ?_
      obtain ⟨ev, hmem, hmine, -⟩ := World.mem_history.mp hst
      exact hev ⟨ev, hmem, hmine⟩
    rw [hnil]
    exact List.Pairwise.nil

/-- **Every entry is executed at most once**, whatever the workers of its queue, their crashes, the
failures of their calls and the claims of their recovery tasks: over the whole run its handler is
called at most once, its job is dead-lettered at most once and it is acknowledged at most once, in
this order. -/
theorem executedOnce (hrun : Run t init s) (queue : String) (entryId : Nat) :
    (s.world.stages queue entryId).Pairwise (· > ·) :=
  hrun.stages queue entryId

end Sys

/-- An entry whose handler has returned and whose acknowledgement has failed. -/
theorem Sys.executedOnce_unacknowledged : ∃ s : Sys, Sys.Run Sample.transport Sys.init s ∧
    [3, 1] <+: s.world.stages "default" 1 ∧
    (s.world.stages "default" 1).Pairwise (· > ·) := by
  obtain ⟨⟨pool, workers⟩, hs, rfl, -⟩ := Sample.exists_polled "1"
  have hrun : Sys.Run Sample.transport Sys.init ⟨pool, [Sample.polled "1"]⟩ :=
    hs.mono fun _ l hl => hl.1
  -- the task is created, started, reads the clock, runs its handler and measures its time
  obtain ⟨s, hs', hstages⟩ : ∃ s : Sys, Sys.Run Sample.transport ⟨pool, [Sample.polled "1"]⟩ s ∧
      s.world.stages "default" 1 = 3 :: 1 :: pool.world.stages "default" 1 :=
    ⟨_, .tail (l := .worker 0 (.task 0 (.fail (.redisError "ConnectionError" "lost"))))
      (.tail (l := .worker 0 (.task 0 (.ok 0))) (.tail (l := .worker 0 (.task 0 (.ok 0)))
        (.tail (l := .worker 0 (.task 0 (.ran ⟨.empty, none⟩)))
          (.tail (l := .worker 0 (.task 0 (.ok 0))) (.tail (l := .worker 0 (.startTask 0))
            (.single (l := .worker 0 .acquire) trivial rfl) trivial rfl) trivial rfl)
          trivial rfl) trivial rfl) trivial rfl) trivial rfl, rfl⟩
  have hall := hrun.trans hs'
  exact ⟨s, hall, hstages ▸ ⟨_, rfl⟩, Sys.executedOnce hall "default" 1⟩

end RelayQ

import RelayQ.Guarantees.HandingOut
import RelayQ.Guarantees.SingleExecution

/-! # A worker with one permit is serial

The permit that a task holds until it is over keeps the loop from creating the next one. With
`max_concurrency = 1` the calls of one execution therefore all come before those of the next, and
executions follow the order of the stream.

* `Worker.Serial`: the invariant: an unfinished task is the last one, and the record follows the
  order of the tasks.
* `Sys.serial`: the guarantee. -/

namespace RelayQ

/-- The task of a worker that makes the call. -/
def Actor.task? (worker : Nat) : Actor → Option Nat
  | .executor i j _ _ => if i = worker then some j else none
  | _ => none

/-- The entry that the task of a worker makes the call for. -/
def Actor.entry? (worker : Nat) : Actor → Option Nat
  | .executor i _ _ e => if i = worker then some e else none
  | _ => none

/-- An actor of another name makes no call of a worker's tasks. -/
theorem Actor.task?_eq_none {worker : Nat} {a : Actor} (h : ∀ j q e, a ≠ .executor worker j q e) :
    a.task? worker = none := by
  cases a with
  | executor i j q e => exact if_neg fun hi => h j q e (by rw [hi])
  | enqueuer _ | api _ | runner _ | recovery _ | foreign => rfl

namespace Worker

/-- The calls of a worker's tasks, newest first, follow the order of the tasks. -/
def InTurn (me : Nat) (log : List Event) : Prop :=
  log.Pairwise fun later earlier => ∀ j ∈ later.actor.task? me, ∀ k ∈ earlier.actor.task? me, k ≤ j

/-- How the permits of a worker order its tasks. -/
structure Serial (me : Nat) (s : World) (w : Worker) : Prop where
  permits : w.permits + w.tasks.countP Task.unfinished ≤ w.runner.maxConcurrency
  last : w.runner.maxConcurrency ≤ 1 → ∀ (j : Nat) (tk : Task), w.tasks[j]? = some tk →
    tk.unfinished = true → j + 1 = w.tasks.length
  inTurn : w.runner.maxConcurrency ≤ 1 → InTurn me s.log

variable {me : Nat} {s s' : World} {w w' : Worker}

/-- Calls of others come at no turn. -/
theorem InTurn.cons {ev : Event} {log : List Event} (h : InTurn me log)
    (hev : ∀ j q e, ev.actor ≠ .executor me j q e) : InTurn me (ev :: log) := by
  refine List.pairwise_cons.mpr ⟨fun earlier _ j hj => ?_, h⟩
  rw [Actor.task?_eq_none hev] at hj
  cases hj

/-- What happens elsewhere keeps the order. -/
theorem Serial.elsewhere (h : w.Serial me s) (hr : w'.runner = w.runner) (ht : w'.tasks = w.tasks)
    (hp : w'.permits = w.permits) (hlog : s'.log = s.log ∨ ∃ ev, s'.log = ev :: s.log ∧
      ∀ j q e, ev.actor ≠ .executor me j q e) : w'.Serial me s' where
  permits := by rw [hp, ht, hr]; exact h.permits
  last := by rw [ht, hr]; exact h.last
  inTurn := by
    intro hM
    have hold := h.inTurn (hr ▸ hM)
    rcases hlog with hlog | ⟨ev, hlog, hev⟩
    · exact hlog ▸ hold
    · exact hlog ▸ hold.cons hev

/-- Setting the state of a task: what it counted as, and what it counts as now. -/
theorem countP_setTask {i : Nat} {d : Delivery} {pc : TaskPc} (pc' : TaskPc)
    (hi : w.tasks[i]? = some ⟨d, pc⟩) :
    (w.setTask i pc').tasks.countP Task.unfinished + (if pc.isOver then 0 else 1) =
      w.tasks.countP Task.unfinished + if pc'.isOver then 0 else 1 := by
  have hset := countP_set_add (p := Task.unfinished) (y := ⟨d, pc'⟩) hi
  rw [setTask_tasks hi]
  simp only [Task.unfinished] at hset
  cases hover : pc.isOver <;> cases hover' : pc'.isOver <;> simpa [hover, hover'] using hset

/-- Of a task that gets on, an unfinished one was unfinished. -/
theorem Serial.last_setTask (h : w.Serial me s) (hM : w.runner.maxConcurrency ≤ 1) {i : Nat}
    {d : Delivery} {pc pc' : TaskPc} (hi : w.tasks[i]? = some ⟨d, pc⟩)
    (hpc : pc'.isOver = false → pc.isOver = false) (j : Nat) (tk : Task)
    (hj : (w.setTask i pc').tasks[j]? = some tk) (hun : tk.unfinished = true) :
    j + 1 = (w.setTask i pc').tasks.length := by
  have hlen : (w.setTask i pc').tasks.length = w.tasks.length := by
    rw [setTask_tasks hi, List.length_set]
  rw [hlen]
  rcases (getElem?_setTask hi).mp hj with ⟨-, hj⟩ | ⟨rfl, rfl⟩
  · exact h.last hM j tk hj hun
  · refine h.last hM j _ hi ?_
    simp only [Task.unfinished, Bool.not_eq_true'] at hun ⊢
    exact hpc hun

/-- A task goes on, and gives its permit back at its end. -/
theorem Serial.settle (h : w.Serial me s) {i : Nat} {d : Delivery} {pc : TaskPc} {p : Py Unit}
    (hi : w.tasks[i]? = some ⟨d, pc⟩) (hpc : pc.isOver = false)
    (hlog : w.runner.maxConcurrency ≤ 1 → InTurn me s'.log) : (w.settle i p).Serial me s' where
  permits := by
    have hcount := countP_setTask (.after p) hi
    have hold := h.permits
    rw [hpc, isOver_after] at hcount
    rw [settle_permits, settle_tasks, settle_runner]
    cases hout : p.outcome with
    | none => simp only [hout, Option.isSome_none] at hcount ⊢; simp at hcount ⊢; omega
    | some out => simp only [hout, Option.isSome_some] at hcount ⊢; simp at hcount ⊢; omega
  last := by
    rw [settle_tasks, settle_runner]
    exact fun hM => h.last_setTask hM hi fun _ => hpc
  inTurn := by
    rw [settle_runner]
    exact hlog

variable [Codec]

/-- **Every move keeps the tasks of a worker in order.** -/
theorem Serial.move (h : w.Serial me s) (hm : Move me w s s' w')
    (hknown : ∀ ev ∈ s.log, ∀ j ∈ ev.actor.task? me, j < w.tasks.length) : w'.Serial me s' := by
  have hrec := hm.record
  cases hm with
  | loop | recovery | shutdown => exact h.elsewhere rfl rfl rfl (.inl rfl)
  | ensure hx _ _ | check _ _ hx _ | poll _ _ hx _ | claim _ hx =>
    obtain ⟨applied, evicted, hlog⟩ := World.exec_log hx
    exact h.elsewhere rfl rfl rfl (.inr ⟨_, hlog, fun _ _ _ => nofun⟩)
  | @spawn d rest hloop hperm =>
    have hold := h.permits
    have hcount : (w.spawnTask d rest).tasks.countP Task.unfinished =
        w.tasks.countP Task.unfinished + 1 := by
      simp [Worker.spawnTask, List.countP_append, Task.unfinished, TaskPc.isOver]
    refine ⟨?_, fun hM j tk hj hun => ?_, h.inTurn⟩
    · rw [hcount]
      change w.permits - 1 + (w.tasks.countP Task.unfinished + 1) ≤ w.runner.maxConcurrency
      omega
    · -- the permit was free, so the tasks before are over
      have hM' : w.runner.maxConcurrency ≤ 1 := hM
      have hlen : (w.spawnTask d rest).tasks.length = w.tasks.length + 1 := by
        simp [Worker.spawnTask]
      rw [hlen]
      rcases getElem?_spawnTask.mp hj with hj | ⟨rfl, -⟩
      · have hpos : 0 < w.tasks.countP Task.unfinished :=
          List.countP_pos_iff.mpr ⟨tk, List.mem_of_getElem? hj, hun⟩
        omega
      · rfl
  | start hi => exact h.settle hi rfl h.inTurn
  | @task i d o k ans s₁ r hi hx =>
    refine h.settle hi rfl fun hM => ?_
    obtain ⟨applied, evicted, hlog⟩ := World.exec_log hx
    rw [hlog]
    refine List.pairwise_cons.mpr ⟨fun earlier hmem j hj k hk => ?_, h.inTurn hM⟩
    -- the task that calls is the last one there is
    obtain rfl : i = j := by simpa [Actor.task?] using hj
    have hlast := h.last hM i _ hi rfl
    have hlt := hknown earlier hmem k hk
    omega
  | @retire i d pc pc' hi hpc hover =>
    have hcount := countP_setTask pc' hi
    have hold := h.permits
    refine ⟨?_, fun hM => h.last_setTask hM hi fun hno => ?_, h.inTurn⟩
    · simp only [hover, if_true] at hcount
      change w.permits + (w.setTask i pc').tasks.countP Task.unfinished ≤ w.runner.maxConcurrency
      omega
    · rw [hover] at hno
      cases hno

end Worker

namespace Sys

variable [Codec] {t : RedisStreamTransport} {s s' : Sys} {i : Nat} {w : Worker}

/-- Every step keeps the tasks of every worker in order. -/
theorem serial_step {l : SysLabel} (htraced : s.Traced)
    (h : ∀ (i : Nat) (w : Worker), s.workers[i]? = some w → w.Serial i s.world)
    (hs : s.step l = some s') (i : Nat) (w' : Worker) (hw' : s'.workers[i]? = some w') :
    w'.Serial i s'.world := by
  rcases step_cases hs with ⟨pl, p, rfl, -, hp, rfl⟩ | ⟨r, site, rfl, rfl⟩ |
    ⟨k, wl, w, world, w₁, rfl, hk, -, hx, rfl⟩
  · obtain ⟨f, hf, hmap⟩ := getElem?_killed s.workers pl i
    obtain ⟨w, hw, rfl⟩ := Option.map_eq_some_iff.mp (hmap.symm.trans hw')
    have hrec : p.world.log = s.world.log ∨ ∃ ev, p.world.log = ev :: s.world.log ∧
        ∀ j q e, ev.actor ≠ .executor i j q e :=
      (pool_record hp).imp_right fun ⟨ev, hlog, hother⟩ =>
        ⟨ev, hlog, Actor.ne_executor_of (hother i)⟩
    rcases hf w with heq | heq <;> rw [heq] <;> exact (h i w hw).elsewhere rfl rfl rfl hrec
  · rcases getElem?_concat_cases hw' with hw' | ⟨rfl, rfl⟩
    · exact h i w' hw'
    · refine ⟨le_rfl, fun _ j tk hj => (nomatch hj), fun _ => ?_⟩
      -- nothing is on record of a worker of this number
      refine List.Pairwise.imp_of_mem (R := fun _ _ => True) (fun {ev ev'} hev _ _ j hj => ?_)
        (List.pairwise_of_forall fun _ _ => trivial)
      have hnone : ev.actor.task? s.workers.length = none :=
        Actor.task?_eq_none fun j q e ha =>
          absurd (htraced.known ev hev _ j q e ha) (Nat.lt_irrefl _)
      rw [hnone] at hj
      cases hj
  · have hm := Worker.step_move hx
    rcases getElem?_set_cases hw' with ⟨rfl, rfl⟩ | ⟨hik, hw'⟩
    · refine (h i w hk).move hm fun ev hev j hj => ?_
      cases ha : ev.actor with
      | executor i' j' q e =>
        rw [ha] at hj
        obtain ⟨rfl, rfl⟩ : i' = i ∧ j' = j := by simpa [Actor.task?] using hj
        obtain ⟨-, tk, hj', -⟩ := (htraced.workers i' w hk).calls ev hev j' q e ha
        exact (List.getElem?_eq_some_iff.mp hj').1
      | enqueuer _ | api _ | runner _ | recovery _ | foreign => rw [ha] at hj; cases hj
    · refine (h i w' hw').elsewhere rfl rfl rfl (hm.record.imp_right ?_)
      rintro ⟨ev, hlog, hact⟩
      refine ⟨ev, hlog, fun j q e ha => ?_⟩
      rw [ha] at hact
      rcases hact with hact | hact | ⟨_, _, _, hact⟩
      · cases hact
      · cases hact
      · exact hik (Actor.executor.inj hact).1

/-- **A worker with one permit is serial**: in the record of every run, every call its tasks make for
an entry comes before every call they make for a later one, whatever the other workers, the cancellations
and the faults. -/
theorem serial (hrun : Run t init s) (hw : s.workers[i]? = some w)
    (hM : w.runner.maxConcurrency ≤ 1) : s.world.log.Pairwise fun later earlier =>
      ∀ e ∈ later.actor.entry? i, ∀ e' ∈ earlier.actor.entry? i, e' ≤ e := by
  have hinv : s.Traced ∧ ∀ (i : Nat) (w : Worker), s.workers[i]? = some w → w.Serial i s.world :=
    Reaches.invariant (P := fun u : Sys => u.Traced ∧
      ∀ (i : Nat) (w : Worker), u.workers[i]? = some w → w.Serial i u.world)
      (fun _ _ _ hu _ hs => ⟨hu.1.step hs, serial_step hu.1 hu.2 hs⟩) hrun
      ⟨traced_init, by simp [init]⟩
  obtain ⟨htraced, hserial⟩ := hinv
  have hasc := hrun.owned.ascending w (List.mem_of_getElem? hw)
  rw [Worker.taken, List.map_append, List.map_map] at hasc
  -- the entry of a call is that of its task
  have htask : ∀ ev ∈ s.world.log, ∀ e ∈ ev.actor.entry? i, ∃ j, ev.actor.task? i = some j ∧
      (w.tasks.map (Delivery.entryId ∘ Task.delivery))[j]? = some e := by
    intro ev hev e he
    cases ha : ev.actor with
    | executor i' j q e' =>
      rw [ha] at he
      obtain ⟨rfl, rfl⟩ : i' = i ∧ e' = e := by simpa [Actor.entry?] using he
      obtain ⟨-, tk, hj, hid⟩ := (htraced.workers i' w hw).calls ev hev j q e' ha
      exact ⟨j, if_pos rfl, by rw [List.getElem?_map, hj, ← hid]; rfl⟩
    | enqueuer _ | api _ | runner _ | recovery _ | foreign => rw [ha] at he; cases he
  refine ((hserial i w hw).inTurn hM).imp_of_mem fun {later earlier} hl he hle e hmem e' hmem' => ?_
  obtain ⟨j, hj, hget⟩ := htask later hl e hmem
  obtain ⟨k, hk, hget'⟩ := htask earlier he e' hmem'
  have hkj := hle j hj k hk
  obtain ⟨hjlt, rfl⟩ := List.getElem?_eq_some_iff.mp hget
  obtain ⟨hklt, rfl⟩ := List.getElem?_eq_some_iff.mp hget'
  rcases Nat.lt_or_eq_of_le hkj with hlt | rfl
  · exact Nat.le_of_lt (List.pairwise_iff_getElem.mp (List.pairwise_append.mp hasc).1 k j hklt hjlt hlt)
  · exact le_rfl

end Sys

/-- A worker with one permit that has read two jobs runs the handler of the first one, and then that of
the second one. -/
theorem Sys.serial_prefetched : ∃ s : Sys,
    (∃ later earlier log, s.world.log = later :: log ∧ earlier ∈ log ∧
      later.op.isHandler = true ∧ later.actor.entry? 0 = some 2 ∧
      earlier.op.isHandler = true ∧ earlier.actor.entry? 0 = some 1) ∧
    s.world.log.Pairwise fun later earlier =>
      ∀ e ∈ later.actor.entry? 0, ∀ e' ∈ earlier.actor.entry? 0, e' ≤ e := by
  obtain ⟨⟨pool, workers⟩, hrun, rfl, -⟩ := Sample.exists_prefetched
  -- the first task runs to its end, its acknowledgement lost; its permit goes to the second one
  obtain ⟨s, w, hs, hlog, hw, hM⟩ : ∃ (s : Sys) (w : Worker), Sys.Run Sample.transport
      ⟨pool, [Sample.prefetched]⟩ s ∧
      (∃ later earlier log, s.world.log = later :: log ∧ earlier ∈ log ∧
        later.op.isHandler = true ∧ later.actor.entry? 0 = some 2 ∧
        earlier.op.isHandler = true ∧ earlier.actor.entry? 0 = some 1) ∧
      s.workers[0]? = some w ∧ w.runner.maxConcurrency = 1 :=
    ⟨_, _, .tail (l := .worker 0 (.task 1 (.ran ⟨.empty, none⟩)))
      (.tail (l := .worker 0 (.task 1 (.ok 0))) (.tail (l := .worker 0 (.startTask 1))
        (.tail (l := .worker 0 .acquire) (.tail (l := .worker 0 (.task 0 (.ok 0)))
          (.tail (l := .worker 0 (.task 0 (.fail (.redisError "ConnectionError" "lost"))))
            (.tail (l := .worker 0 (.task 0 (.ok 0))) (.tail (l := .worker 0 (.task 0 (.ok 0)))
              (.tail (l := .worker 0 (.task 0 (.ran ⟨.empty, none⟩)))
                (.tail (l := .worker 0 (.task 0 (.ok 0)))
                  (.single (l := .worker 0 (.startTask 0)) trivial rfl) trivial rfl) trivial rfl)
                trivial rfl) trivial rfl) trivial rfl) trivial rfl) trivial rfl) trivial rfl)
        trivial rfl) trivial rfl,
      ⟨_, _, _, rfl, .tail _ (.tail _ (.tail _ (.tail _ (.tail _ (.head _))))), rfl, rfl, rfl, rfl⟩,
      rfl, rfl⟩
  exact ⟨s, hlog, Sys.serial (hrun.trans hs) hw hM.le⟩

end RelayQ

import RelayQ.System.Progress
import RelayQ.Worker.History

/-! # The inflight gauge

The gauge is set when a task is added to the inflight set and when a task is about to end. In both
moments that task is in the set: its done-callback takes it out later on, and sets nothing. So the
gauge is never set to zero, and stays above it when the worker has nothing left to do.

* `Worker.Quiet`, `Worker.GaugeRight`: what the gauge is to show of a worker that has nothing to do.
* `Worker.Gauged`, `Sys.forall_gauged`: what it does show, in every reachable state.
* `Sys.gaugeRight_iff`: when it is right. -/

namespace RelayQ

namespace Worker

/-- No job task is unfinished, and no done-callback is outstanding. -/
def Quiet (w : Worker) : Prop := ∀ t ∈ w.tasks, t.pc = .discarded

/-- The gauge is right: when the worker is quiet, the last value it was given, if any, is zero. -/
def GaugeRight (w : Worker) : Prop := w.Quiet → ∀ n, w.gauge = some n → n = 0

/-- The gauge was set once there was a task, and never to zero. -/
structure Gauged (w : Worker) : Prop where
  unset : w.gauge = none ↔ w.tasks = []
  pos : ∀ n, w.gauge = some n → 0 < n

variable {w w' : Worker} {i : Nat}

/-- A task that is not discarded is counted. -/
theorem length_inflight_pos {tk : Task} (h : w.tasks[i]? = some tk)
    (hpc : ∀ d, tk ≠ ⟨d, .discarded⟩) : 0 < w.inflight.length :=
  List.length_pos_of_mem (mem_inflight.mpr ⟨tk, h, hpc⟩)

/-- Spawning a task counts it. -/
theorem Gauged.spawnTask (d : Delivery) (rest : List Delivery) : (w.spawnTask d rest).Gauged where
  unset := by simp [Worker.spawnTask]
  pos := by
    intro n hn
    obtain rfl := Option.some.inj hn
    have hlast : (w.spawnTask d rest).tasks[w.tasks.length]? = some ⟨d, .created⟩ := by
      simp [Worker.spawnTask]
    exact length_inflight_pos hlast (by simp)

/-- A task that goes on leaves the gauge, and one that ends counts itself. -/
theorem Gauged.settle {tk : Task} (hw : w.Gauged) (h : w.tasks[i]? = some tk) (p : Py Unit) :
    (w.settle i p).Gauged := by
  have hne : w.tasks ≠ [] := List.ne_nil_of_mem (List.mem_of_getElem? h)
  have hset : w.tasks.modify i (fun t => { t with pc := .ended }) ≠ [] := by simpa using hne
  unfold Worker.settle
  cases p.outcome with
  | none => exact ⟨by simpa [setTask] using hw.unset, hw.pos⟩
  | some _ =>
    refine ⟨by simpa [setTask] using hne, fun n hn => ?_⟩
    obtain rfl := Option.some.inj hn
    have hended : (w.setTask i .ended).tasks[i]? = some { tk with pc := .ended } := by
      simp [setTask, h]
    exact length_inflight_pos hended (by simp)

/-- **Every move keeps the gauge above zero.** -/
theorem Gauged.move [Codec] {me : Nat} {s s' : World} (hw : w.Gauged) (h : Move me w s s' w') :
    w'.Gauged := by
  cases h with
  | spawn hloop hpos => exact .spawnTask _ _
  | start hi => exact hw.settle hi _
  | task hi hx => exact hw.settle hi _
  | retire hi hpc hover => exact ⟨by simpa [setTask] using hw.unset, hw.pos⟩
  | loop _ _ | recovery | shutdown | ensure _ _ _ | check _ _ _ _ | poll _ _ _ _ | claim _ _ =>
    exact ⟨hw.unset, hw.pos⟩

/-- A gauge above zero is right only where no task ever was. -/
theorem Gauged.right_iff (hw : w.Gauged) : w.GaugeRight ↔ (w.Quiet → w.tasks = []) := by
  constructor
  · intro hright hquiet
    cases hg : w.gauge with
    | none => exact hw.unset.mp hg
    | some n =>
      have hpos := hw.pos n hg
      have hzero := hright hquiet n hg
      omega
  · intro hnone hquiet n hn
    rw [hw.unset.mpr (hnone hquiet)] at hn
    cases hn

end Worker

namespace Sys

variable {s : Sys}

/-- In every reachable state the gauges are above zero where they are set. -/
theorem forall_gauged [Codec] (h : Reaches step (fun _ _ => True) init s) : ∀ w ∈ s.workers, w.Gauged :=
  Reaches.invariant (P := fun u : Sys => ∀ w ∈ u.workers, w.Gauged)
    (fun _ _ _ hu _ hs => forall_workers_step
      (fun _ _ => ⟨by simp [WorkerRunner.spawn], by simp [WorkerRunner.spawn]⟩)
      (fun _ hw => ⟨hw.unset, hw.pos⟩) Worker.Gauged.move hu hs) h (by simp [init])

/-- **The gauge of a worker is right only as long as it has not had a task.** In every state that any
number of workers and `enqueue` calls reach, in whatever order they get on, what fails and who crashes:
the gauge of a worker is right if and only if, should it be quiet, it never had a task. -/
theorem gaugeRight_iff [Codec] (h : Reaches step (fun _ _ => True) init s) {i : Nat} {w : Worker}
    (hw : s.workers[i]? = some w) : w.GaugeRight ↔ (w.Quiet → w.tasks = []) :=
  (forall_gauged h w (List.mem_of_getElem? hw)).right_iff

/-- The gauge of a worker that runs its only job shows one, and is right. -/
theorem gaugeRight_running : ∃ (s : Sys) (w : Worker), Reaches step (fun _ _ => True) init s ∧
    s.workers[0]? = some w ∧ w.gauge = some 1 ∧ w.tasks.map Task.unfinished = [true] ∧
    w.GaugeRight := by
  obtain ⟨⟨pool, workers⟩, hs, rfl, -⟩ := Sample.exists_polled "1"
  have hrun : Reaches step (fun _ _ => True) init ⟨pool, [Sample.polled "1"]⟩ :=
    hs.mono fun _ _ _ => trivial
  obtain ⟨s, hs', w, hw, hgauge, htasks⟩ : ∃ s,
      Reaches step (fun _ _ => True) ⟨pool, [Sample.polled "1"]⟩ s ∧ ∃ w, s.workers[0]? = some w ∧
        w.gauge = some 1 ∧ w.tasks.map Task.unfinished = [true] :=
    ⟨_, .tail (l := .worker 0 (.startTask 0)) (.single (l := .worker 0 .acquire) trivial rfl)
      trivial rfl, _, rfl, rfl, rfl⟩
  refine ⟨s, w, hrun.trans hs', hw, hgauge, htasks, (gaugeRight_iff (hrun.trans hs') hw).mpr ?_⟩
  -- it is not quiet
  intro hquiet
  obtain ⟨tk, htk, hun⟩ := List.mem_map.mp (htasks ▸ List.mem_singleton_self true)
  rw [Task.unfinished, hquiet tk htk] at hun
  cases hun

/-- A worker whose only job has timed out shows one. -/
theorem not_gaugeRight : ¬ ∀ s : Sys, Reaches step (fun _ _ => True) init s →
    ∀ (i : Nat) (w : Worker), s.workers[i]? = some w → w.GaugeRight := by
  intro hall
  obtain ⟨⟨pool, workers⟩, hs, rfl, -⟩ := Sample.exists_polled "1"
  have hrun : Reaches step (fun _ _ => True) init ⟨pool, [Sample.polled "1"]⟩ :=
    hs.mono fun _ _ _ => trivial
  -- the job runs and times out, the task ends, and its callback runs
  obtain ⟨s, hs', hshown⟩ : ∃ s,
      Reaches step (fun _ _ => True) ⟨pool, [Sample.polled "1"]⟩ s ∧
        (s.workers[0]?).map (fun w => (w.tasks.map Task.pc, w.gauge)) = some ([.discarded], some 1) :=
    ⟨_, .tail (l := .worker 0 (.callback 0)) (.tail (l := .worker 0 (.task 0 (.drawn 0)))
      (.tail (l := .worker 0 (.task 0 (.ok 0))) (.tail (l := .worker 0 (.task 0 (.ok 0)))
        (.tail (l := .worker 0 (.task 0 (.ok 0)))
          (.tail (l := .worker 0 (.task 0 (.ran ⟨.empty, some .timeoutError⟩)))
            (.tail (l := .worker 0 (.task 0 (.ok 0))) (.tail (l := .worker 0 (.startTask 0))
              (.single (l := .worker 0 .acquire) trivial rfl) trivial rfl) trivial rfl)
            trivial rfl) trivial rfl) trivial rfl) trivial rfl) trivial rfl) trivial rfl,
      rfl⟩
  obtain ⟨w, hw, hshown⟩ := Option.map_eq_some_iff.mp hshown
  obtain ⟨hquiet, hgauge⟩ := Prod.mk.inj hshown
  have hright := hall s (hrun.trans hs') 0 w hw
  have hzero := hright (fun t ht => by
    have hpc := List.mem_map_of_mem (f := Task.pc) ht
    rw [hquiet] at hpc
    exact List.mem_singleton.mp hpc) 1 hgauge
  cases hzero

end Sys

end RelayQ

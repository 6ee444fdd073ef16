import RelayQ.Application.Enqueue
import RelayQ.Worker.Runner

/-! # The whole system

Any number of `Enqueuer.enqueue` calls and of worker processes over one Redis server and one
outbox database, interleaved in any order, with any call failing and any process crashing.

* `Sys`, `SysLabel`, `Sys.step`: the system and its steps; `Sys.step_cases` inverts a step.
* `SysLabel.uses`: every part a step brings in is built over one stream prefix.
* `SysLabel.evicts`: how many entries the `XADD` of a step trims. -/

namespace RelayQ

/-- A body that builds a job builds one whose attributes have their declared types, whatever client
reads it. -/
def wellTyped [Codec] (body : Body) : Bool :=
  [false, true].all fun d =>
    match (⟨"", d⟩ : RedisStreamTransport).decodeEntry .epoch body with
    | .job j => j.typed?.isSome
    | _ => true

/-- The state of the system. -/
structure Sys where
  /-- The servers and the calls of `enqueue`. -/
  pool : PoolState relay EnqueueCall Nat
  /-- Every worker process ever started, in starting order. -/
  workers : List Worker

/-- What can happen. -/
inductive SysLabel
  /-- A step of the `enqueue` calls, a crash of a site, or a step of the environment. -/
  | pool (l : PoolLabel relay EnqueueCall)
  /-- A worker process starts at a site. -/
  | spawn (r : WorkerRunner) (site : Nat)
  /-- A step of a worker. -/
  | worker (i : Nat) (l : WorkerLabel)

/-- A worker dies with its site. -/
def Worker.kill (site : Nat) (w : Worker) : Worker :=
  if w.site = site then { w with alive := false } else w

namespace Sys

/-- The servers. -/
def world (s : Sys) : World := s.pool.world

/-- Nothing has happened yet. -/
def init : Sys := ⟨⟨.init, []⟩, []⟩

/-- The part of a step of the `enqueue` calls that concerns the workers: a crash kills those at its
site. -/
def killed (workers : List Worker) : PoolLabel relay EnqueueCall → List Worker
  | .crash site => workers.map (Worker.kill site)
  | _ => workers

/-- A writer that is not part of the code leaves no ill-typed jobs. -/
def foreignOk [Codec] : PoolLabel relay EnqueueCall → Bool
  | .env (.foreign _ body) => wellTyped body
  | _ => true

/-- One step of the system. -/
def step [Codec] (s : Sys) : SysLabel → Option Sys
  | .pool l =>
    if foreignOk l then
      (enqueuePool.step s.pool l).map fun p => ⟨p, killed s.workers l⟩
    else none
  | .spawn r site => some { s with workers := s.workers ++ [r.spawn site] }
  | .worker i l =>
    match s.workers[i]? with
    | some w =>
      if w.alive then
        (w.step i s.world l).map fun r => ⟨{ s.pool with world := r.1 }, s.workers.set i r.2⟩
      else none
    | none => none

/-- **Inversion of a system step.** -/
theorem step_cases [Codec] {s t : Sys} {l : SysLabel} (h : s.step l = some t) :
    (∃ pl p, l = .pool pl ∧ foreignOk pl = true ∧ enqueuePool.step s.pool pl = some p ∧
      t = ⟨p, killed s.workers pl⟩) ∨
    (∃ r site, l = .spawn r site ∧ t = { s with workers := s.workers ++ [r.spawn site] }) ∨
    (∃ i wl w world w', l = .worker i wl ∧ s.workers[i]? = some w ∧ w.alive = true ∧
      w.step i s.world wl = some (world, w') ∧
      t = ⟨{ s.pool with world := world }, s.workers.set i w'⟩) := by
  cases l with
  | pool pl =>
    simp only [step] at h
    split at h
    · rename_i hf
      obtain ⟨p, hp, rfl⟩ := Option.map_eq_some_iff.mp h
      exact .inl ⟨pl, p, rfl, hf, hp, rfl⟩
    · cases h
  | spawn r site => exact .inr (.inl ⟨r, site, rfl, (Option.some.inj h).symm⟩)
  | worker i wl =>
    simp only [step] at h
    split at h
    · rename_i w hw
      split at h
      · rename_i ha
        obtain ⟨⟨world, w'⟩, hx, rfl⟩ := Option.map_eq_some_iff.mp h
        exact .inr (.inr ⟨i, wl, w, world, w', rfl, hw, ha, hx, rfl⟩)
      · cases h
    · cases h

end Sys

/-! ## Conditions on runs -/

namespace WorkerRunner

/-- All parts of the worker share one stream prefix. -/
def uses (p : String) (r : WorkerRunner) : Prop :=
  r.transport.streamPrefix = p ∧ r.executor.transport.streamPrefix = p ∧
    (∀ c, r.admission = some c → c.transport.streamPrefix = p) ∧
    ∀ c, r.recovery = some c → c.transport.streamPrefix = p

end WorkerRunner

namespace SysLabel

/-- What the step starts is built over one stream prefix. -/
def uses (p : String) : SysLabel → Prop
  | .pool (.start c _) => c.enqueuer.transport.streamPrefix = p
  | .spawn r _ => r.uses p
  | _ => True

end SysLabel

end RelayQ

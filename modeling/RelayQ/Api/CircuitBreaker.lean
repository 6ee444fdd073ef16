import RelayQ.Program.Pool
import RelayQ.Redis.SortedSet

/-! # The circuit breaker

A breaker keeps three keys: the recent failures, its state, and the time it last tripped. Each of its
methods reads and writes them by separate commands.

* `CircuitBreaker.recordFailure`, `CircuitBreaker.isOpen`, `CircuitBreaker.maybeTrip`,
  `CircuitBreaker.reset`: the methods, command by command.
* `CircuitBreaker.call`: a call that nobody interrupts.
* `CircuitBreaker.pool`: any number of calls at once. -/

namespace RelayQ

/-- What stands under the state key. -/
inductive BreakerMode
  /-- `"CLOSED"`, which no method writes. -/
  | closed
  /-- `"OPEN"` -/
  | opened
  /-- `"HALF_OPEN"` -/
  | halfOpen
deriving DecidableEq

/-- The keys of a breaker; `none` is a key that does not exist. A time stands for its text, as a member
of the sorted set and as the last failure. -/
structure BreakerKeys where
  failures : Redis.SortedSet ℚ := .empty
  state : Option BreakerMode := none
  lastFailure : Option ℚ := none

/-- What a breaker asks of the clock and of the server. -/
inductive BreakerOp
  /-- `time.time()` -/
  | time
  /-- `GET` of the state key. -/
  | getState
  /-- `GET` of the last failure. -/
  | getLastFailure
  /-- `SET` of the state key. -/
  | setState (mode : BreakerMode)
  /-- `SET` of the last failure. -/
  | setLastFailure (time : ℚ)
  /-- `ZCOUNT` of the failures. -/
  | zcount (lo hi : ℚ)
  /-- `ZADD` of a time and `ZREMRANGEBYSCORE` from `-inf`, in one transaction. -/
  | execute (time hi : ℚ)
  /-- `DEL` of the three keys. -/
  | delete

/-- The replies. -/
abbrev BreakerOp.Res : BreakerOp → Type
  | time => ℚ
  | getState => Option BreakerMode
  | getLastFailure => Option ℚ
  | zcount _ _ => ℕ
  | setState _ | setLastFailure _ | execute _ _ | delete => Unit

/-- The interface. A command that fails ends its call, as the loss of the caller does there. -/
abbrev BreakerSig : Signature := ⟨BreakerOp, BreakerOp.Res, Empty⟩

/-- The clock and the keys. -/
structure BreakerWorld where
  now : ℚ
  keys : BreakerKeys

/-- Carry out a command. -/
def BreakerWorld.exec (w : BreakerWorld) : (o : BreakerOp) → BreakerWorld × o.Res
  | .time => (w, w.now)
  | .getState => (w, w.keys.state)
  | .getLastFailure => (w, w.keys.lastFailure)
  | .setState mode => ({ w with keys := { w.keys with state := some mode } }, ())
  | .setLastFailure time => ({ w with keys := { w.keys with lastFailure := some time } }, ())
  | .zcount lo hi => (w, w.keys.failures.zcount lo hi)
  | .execute time hi => ({ w with keys := { w.keys with
      failures := (w.keys.failures.zadd time time).zremrangebyscore ⊥ hi } }, ())
  | .delete => ({ w with keys := {} }, ())

/-- One server and one clock, which never goes back; sites are the processes of the callers. -/
abbrev breaker : Machine BreakerSig where
  World := BreakerWorld
  Site := ℕ
  Actor := Unit
  Answer := Unit
  Env := {d : ℚ // 0 ≤ d}
  exec w _ _ o _ := some ((w.exec o).1, .ok (w.exec o).2)
  crash w _ := w
  env w d := some { w with now := w.now + d }

/-- A breaker's parameters. -/
structure CircuitBreaker where
  failureThreshold : ℤ := 5
  window : ℚ := 60
  halfOpenAfter : ℚ := 30

/-- The methods. -/
inductive BreakerCall
  | recordFailure | isOpen | maybeTrip | reset
deriving DecidableEq

namespace CircuitBreaker

/-- One command, or a look at the clock. -/
abbrev perform (o : BreakerOp) : Prog BreakerSig o.Res := Prog.perform (S := BreakerSig) o

variable (b : CircuitBreaker)

/-! ## The methods -/

/-- Add the time to the failures, and drop those that are out of the window. -/
def recordFailure : Prog BreakerSig Unit :=
  (perform .time).bind fun now => perform (.execute now (now - b.window))

/-- Is the breaker open? Once its time is up, go over to half-open. -/
def isOpen : Prog BreakerSig Bool :=
  (perform .getState).bind fun state =>
    match state with
    | none | some .closed => .ret false
    | some .halfOpen => .ret false
    | some .opened =>
      (perform .getLastFailure).bind fun lastFailure =>
        match lastFailure with
        | some lastFailure =>
          (perform .time).bind fun now =>
            if now - lastFailure > b.halfOpenAfter then
              (perform (.setState .halfOpen)).bind fun _ => .ret false
            else .ret true
        | none => .ret true

/-- Open the breaker if there are enough failures in the window. -/
def maybeTrip : Prog BreakerSig Bool :=
  (perform .time).bind fun now =>
    (perform (.zcount (now - b.window) now)).bind fun count =>
      if (count : ℤ) ≥ b.failureThreshold then
        (perform (.setState .opened)).bind fun _ =>
          (perform (.setLastFailure now)).bind fun _ => .ret true
      else .ret false

/-- Forget everything. -/
def reset : Prog BreakerSig Unit := perform .delete

/-- A method with what it returns, if anything. -/
def code : BreakerCall → Prog BreakerSig (Option Bool)
  | .recordFailure => b.recordFailure.bind fun _ => .ret none
  | .isOpen => b.isOpen.bind fun r => .ret (some r)
  | .maybeTrip => b.maybeTrip.bind fun r => .ret (some r)
  | .reset => reset.bind fun _ => .ret none

/-- Any number of calls by any number of callers. -/
def pool : PoolSpec breaker BreakerCall (Option Bool) := ⟨b.code, fun _ _ => ()⟩

end CircuitBreaker

/-! ## Calls without interruption -/

/-- Run a program to its end, nobody else moving. -/
def BreakerWorld.finish {α : Type} : Prog BreakerSig α → BreakerWorld → BreakerWorld × α
  | .ret a, w => (w, a)
  | .raise e, _ => Empty.elim e
  | .call o k, w => finish (k (.ok (w.exec o).2)) (w.exec o).1

/-- Finishing a program is a run of the machine. -/
theorem BreakerWorld.runs_finish {α : Type} (site : ℕ) (p : Prog BreakerSig α) (w : BreakerWorld) :
    breaker.Runs (fun _ _ => True) site () w p (finish p w).1 (.ok (finish p w).2) := by
  induction p generalizing w with
  | ret a => exact .ret
  | raise e => exact e.elim
  | call o k ih => exact Machine.runs_call_iff.mpr ⟨(), _, _, trivial, rfl, ih _ _⟩

namespace CircuitBreaker

variable (b : CircuitBreaker)

/-- A whole call at a time: the keys it leaves, and what it returns. -/
def call (keys : BreakerKeys) (now : ℚ) (c : BreakerCall) : BreakerKeys × Option Bool :=
  let r := BreakerWorld.finish (b.code c) ⟨now, keys⟩
  (r.1.keys, r.2)

/-- What a whole `record_failure` does. -/
theorem call_recordFailure (keys : BreakerKeys) (now : ℚ) : b.call keys now .recordFailure =
    ({ keys with failures := (keys.failures.zadd now now).zremrangebyscore ⊥ (now - b.window) },
      none) := rfl

/-- What a whole `reset` does. -/
theorem call_reset (keys : BreakerKeys) (now : ℚ) : b.call keys now .reset = ({}, none) := rfl

/-- What a whole `maybe_trip` does, and returns. -/
theorem call_maybeTrip (keys : BreakerKeys) (now : ℚ) : b.call keys now .maybeTrip =
    if b.failureThreshold ≤ (keys.failures.zcount (now - b.window) now : ℤ) then
      ({ keys with state := some .opened, lastFailure := some now }, some true)
    else (keys, some false) := by
  by_cases h : b.failureThreshold ≤ (keys.failures.zcount (now - b.window) now : ℤ) <;>
    simp [call, code, maybeTrip, Prog.perform, Prog.ofExcept, BreakerWorld.finish,
      BreakerWorld.exec, h]

/-- The breaker is open, and its last failure is longer ago than `half_open_after`. -/
def Aged (keys : BreakerKeys) (now : ℚ) : Prop :=
  keys.state = some .opened ∧ ∃ last, keys.lastFailure = some last ∧ b.halfOpenAfter < now - last

/-- Whether a trip has aged can be computed. -/
instance (keys : BreakerKeys) (now : ℚ) : Decidable (b.Aged keys now) :=
  decidable_of_iff (keys.state = some .opened ∧
    keys.lastFailure.any fun last => b.halfOpenAfter < now - last) (by
      cases h : keys.lastFailure <;> simp [Aged, h])

/-- What a whole `is_open` does, and returns. -/
theorem call_isOpen (keys : BreakerKeys) (now : ℚ) : b.call keys now .isOpen =
    if b.Aged keys now then ({ keys with state := some .halfOpen }, some false)
    else (keys, some (keys.state = some .opened)) := by
  obtain ⟨failures, state, lastFailure⟩ := keys
  rcases state with _ | _ | _ | _
  · simp [Aged, call, code, isOpen, Prog.perform, Prog.ofExcept, BreakerWorld.finish,
      BreakerWorld.exec]
  · simp [Aged, call, code, isOpen, Prog.perform, Prog.ofExcept, BreakerWorld.finish,
      BreakerWorld.exec]
  · -- only an open breaker looks at the last failure
    cases lastFailure with
    | none =>
      simp [Aged, call, code, isOpen, Prog.perform, Prog.ofExcept, BreakerWorld.finish,
        BreakerWorld.exec]
    | some last =>
      by_cases h : b.halfOpenAfter < now - last <;>
        simp [Aged, call, code, isOpen, Prog.perform, Prog.ofExcept, BreakerWorld.finish,
          BreakerWorld.exec, h]
  · simp [Aged, call, code, isOpen, Prog.perform, Prog.ofExcept, BreakerWorld.finish,
      BreakerWorld.exec]

end CircuitBreaker

end RelayQ

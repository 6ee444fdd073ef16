import RelayQ.Program.Prog

/-! # Machines that answer the calls of programs

A `Machine` gives the calls of an interface a meaning: a shared world, the sites (threads,
connections) and actors calls come from, and an executable `exec` that carries one call out. All
nondeterminism (faults, timing, results of foreign code) sits in the `Answer` that `exec` is given;
`none` means that this answer is not possible here.

* `Machine.step` answers the call a program is suspended at, `Machine.await` runs a program that
  makes at most one call.
* `Machine.Runs P` is the big-step run of a whole program whose answers all satisfy `P`;
  `Machine.run` computes one from the list of answers.
* `Machine.Responsive.exists_runs`: programs are finite trees, so a machine that can always answer
  drives each of them to its end.
* `Machine.Runs.sound`: what `Prog.wp` establishes holds of every run, with a relation between
  world and monitor state carried along. -/

namespace RelayQ

/-- An environment that answers the calls of the interface `S`. -/
structure Machine (S : Signature) where
  /-- The shared state. -/
  World : Type
  /-- Where a call comes from: what it shares with other calls of the same thread. -/
  Site : Type
  /-- Who makes the call; only recorded, never looked at. -/
  Actor : Type
  /-- How the environment resolves a call. -/
  Answer : Type
  /-- What happens to the world besides the calls of the programs. -/
  Env : Type
  /-- Carry out one call. -/
  exec : World → Site → Actor → (o : S.Op) → Answer → Option (World × Except S.Exc (S.Res o))
  /-- What the loss of everything running at a site does to the world. -/
  crash : World → Site → World
  /-- An environment step, where it is possible. -/
  env : World → Env → Option World

namespace Machine

variable {S : Signature} (M : Machine S) {α : Type}

/-- Answer the call a program is suspended at. A finished program takes no step. -/
def step (w : M.World) (site : M.Site) (a : M.Actor) : Prog S α → M.Answer →
    Option (M.World × Prog S α)
  | .call o k, ans => (M.exec w site a o ans).map fun p => (p.1, k p.2)
  | .ret _, _ => none
  | .raise _, _ => none

variable {M}

/-- A step answers a call. -/
theorem step_eq_some {w w' : M.World} {site : M.Site} {a : M.Actor} {p p' : Prog S α}
    {ans : M.Answer} :
    M.step w site a p ans = some (w', p') ↔
      ∃ o k r, p = .call o k ∧ M.exec w site a o ans = some (w', r) ∧ p' = k r := by
  cases p with
  | ret v => simp [step]
  | raise e => simp [step]
  | call o k =>
    simp only [step, Option.map_eq_some_iff, Prod.mk.injEq, Prod.exists]
    constructor
    · rintro ⟨w₁, r, h, rfl, rfl⟩
      exact ⟨o, k, r, rfl, h, rfl⟩
    · rintro ⟨o', k', r, hp, h, rfl⟩
      obtain ⟨rfl, rfl⟩ : o = o' ∧ HEq k k' := by cases hp; exact ⟨rfl, HEq.rfl⟩
      cases hp
      exact ⟨w', r, h, rfl, rfl⟩

/-- Run a program that makes at most one call to its end. -/
def await (M : Machine S) (w : M.World) (site : M.Site) (a : M.Actor) : Prog S α → M.Answer →
    Option (M.World × Except S.Exc α)
  | .ret v, _ => some (w, .ok v)
  | .raise e, _ => some (w, .error e)
  | .call o k, ans =>
    (M.exec w site a o ans).bind fun p => (k p.2).outcome.map fun r => (p.1, r)

/-- An awaited program had finished without a call, or finishes with the answer to its call. -/
theorem await_eq_some {w w' : M.World} {site : M.Site} {a : M.Actor} {p : Prog S α}
    {ans : M.Answer} {out : Except S.Exc α} :
    M.await w site a p ans = some (w', out) ↔
      (p.outcome = some out ∧ w' = w) ∨
      ∃ o k r, p = .call o k ∧ M.exec w site a o ans = some (w', r) ∧
        (k r).outcome = some out := by
  cases p with
  | ret v => simp [await, Prog.outcome, eq_comm, and_comm]
  | raise e => simp [await, Prog.outcome, eq_comm, and_comm]
  | call o k =>
    simp only [await, Option.bind_eq_some_iff, Option.map_eq_some_iff, Prod.mk.injEq, Prod.exists,
      Prog.outcome, reduceCtorEq, false_and, false_or]
    constructor
    · rintro ⟨w₁, r, hx, r', ho, rfl, rfl⟩
      exact ⟨o, k, r, rfl, hx, ho⟩
    · rintro ⟨o', k', r, hp, hx, ho⟩
      cases hp
      exact ⟨w', r, hx, out, ho, rfl, rfl⟩

/-- A call that returns, awaited together with what follows it without a call. -/
theorem await_perform_bind {w w' : M.World} {site : M.Site} {a : M.Actor} {o : S.Op}
    {ans : M.Answer} {v : S.Res o} (f : S.Res o → Prog S α)
    (hx : M.exec w site a o ans = some (w', .ok v)) :
    M.await w site a ((Prog.perform o).bind f) ans = (f v).outcome.map fun r => (w', r) := by
  simp only [Prog.perform, Prog.call_bind, await, hx, Option.bind_some, Prog.ofExcept,
    Prog.ret_bind]

/-- A big-step run of a program at one site by one actor; every answer satisfies `P`. -/
inductive Runs (M : Machine S) (P : (o : S.Op) → M.Answer → Prop) (site : M.Site) (a : M.Actor) :
    M.World → Prog S α → M.World → Except S.Exc α → Prop
  | ret {w : M.World} {v : α} : Runs M P site a w (.ret v) w (.ok v)
  | raise {w : M.World} {e : S.Exc} : Runs M P site a w (.raise e) w (.error e)
  | call {w w' w'' : M.World} {o : S.Op} {k : Except S.Exc (S.Res o) → Prog S α} {ans : M.Answer}
      {r : Except S.Exc (S.Res o)} {out : Except S.Exc α} :
      P o ans → M.exec w site a o ans = some (w', r) → Runs M P site a w' (k r) w'' out →
      Runs M P site a w (.call o k) w'' out

variable {P P' : (o : S.Op) → M.Answer → Prop} {site : M.Site} {a : M.Actor}

/-- A run under a stronger condition on the answers is a run under a weaker one. -/
theorem Runs.mono (hP : ∀ o ans, P o ans → P' o ans) {w w' : M.World} {p : Prog S α}
    {out : Except S.Exc α} (h : M.Runs P site a w p w' out) : M.Runs P' site a w p w' out := by
  induction h with
  | ret => exact .ret
  | raise => exact .raise
  | call hans hx _ ih => exact .call (hP _ _ hans) hx ih

/-- To return a value changes nothing. -/
@[simp] theorem runs_ret_iff {w w' : M.World} {v : α} {out : Except S.Exc α} :
    M.Runs P site a w (.ret v) w' out ↔ w' = w ∧ out = .ok v :=
  ⟨fun h => by cases h; exact ⟨rfl, rfl⟩, by rintro ⟨rfl, rfl⟩; exact .ret⟩

/-- To raise changes nothing. -/
@[simp] theorem runs_raise_iff {w w' : M.World} {e : S.Exc} {out : Except S.Exc α} :
    M.Runs P site a w (.raise e) w' out ↔ w' = w ∧ out = .error e :=
  ⟨fun h => by cases h; exact ⟨rfl, rfl⟩, by rintro ⟨rfl, rfl⟩; exact .raise⟩

/-- A call is answered, and the program goes on with the result. -/
theorem runs_call_iff {w w'' : M.World} {o : S.Op} {k : Except S.Exc (S.Res o) → Prog S α}
    {out : Except S.Exc α} :
    M.Runs P site a w (.call o k) w'' out ↔
      ∃ ans w' r, P o ans ∧ M.exec w site a o ans = some (w', r) ∧
        M.Runs P site a w' (k r) w'' out := by
  constructor
  · intro h
    cases h with
    | call hP hx hr => exact ⟨_, _, _, hP, hx, hr⟩
  · rintro ⟨ans, w', r, hP, hx, hr⟩
    exact .call hP hx hr

/-- A finished program ran without a call. -/
@[simp] theorem runs_ofExcept_iff {w w' : M.World} {r out : Except S.Exc α} :
    M.Runs P site a w (.ofExcept r) w' out ↔ w' = w ∧ out = r := by
  cases r <;> simp [Prog.ofExcept]

/-- A single call runs to its answer. -/
theorem runs_perform_iff {w w' : M.World} {o : S.Op} {out : Except S.Exc (S.Res o)} :
    M.Runs P site a w (Prog.perform o) w' out ↔
      ∃ ans, P o ans ∧ M.exec w site a o ans = some (w', out) := by
  simp only [Prog.perform, runs_call_iff, runs_ofExcept_iff]
  constructor
  · rintro ⟨ans, w₁, r, hP, hx, rfl, rfl⟩
    exact ⟨ans, hP, hx⟩
  · rintro ⟨ans, hP, hx⟩
    exact ⟨ans, w', out, hP, hx, rfl, rfl⟩

/-- Sequencing runs the first program, then the second unless the first raised. -/
theorem runs_bind_iff {β : Type} {w w'' : M.World} {p : Prog S α} {f : α → Prog S β}
    {out : Except S.Exc β} :
    M.Runs P site a w (p.bind f) w'' out ↔
      ∃ w' r, M.Runs P site a w p w' r ∧ match r with
        | .ok v => M.Runs P site a w' (f v) w'' out
        | .error e => w'' = w' ∧ out = .error e := by
  induction p generalizing w with
  | ret v => simp
  | raise e => simp
  | call o k ih =>
    simp only [Prog.call_bind, runs_call_iff, ih]
    constructor
    · rintro ⟨ans, w₁, r₁, hP, hx, w', r, hr, hrest⟩
      exact ⟨w', r, ⟨ans, w₁, r₁, hP, hx, hr⟩, hrest⟩
    · rintro ⟨w', r, ⟨ans, w₁, r₁, hP, hx, hr⟩, hrest⟩
      exact ⟨ans, w₁, r₁, hP, hx, w', r, hr, hrest⟩

/-- `try/except` runs the program, then the handler if it raised. -/
theorem runs_tryExcept_iff {w w'' : M.World} {p : Prog S α} {h : S.Exc → Prog S α}
    {out : Except S.Exc α} :
    M.Runs P site a w (p.tryExcept h) w'' out ↔
      ∃ w' r, M.Runs P site a w p w' r ∧ match r with
        | .ok v => w'' = w' ∧ out = .ok v
        | .error e => M.Runs P site a w' (h e) w'' out := by
  induction p generalizing w with
  | ret v => simp [Prog.tryExcept]
  | raise e => simp [Prog.tryExcept]
  | call o k ih =>
    simp only [Prog.tryExcept, runs_call_iff, ih]
    constructor
    · rintro ⟨ans, w₁, r₁, hP, hx, w', r, hr, hrest⟩
      exact ⟨w', r, ⟨ans, w₁, r₁, hP, hx, hr⟩, hrest⟩
    · rintro ⟨w', r, ⟨ans, w₁, r₁, hP, hx, hr⟩, hrest⟩
      exact ⟨ans, w₁, r₁, hP, hx, w', r, hr, hrest⟩

/-- Run a program with the given answers to its calls, one after the other. -/
def run (M : Machine S) (site : M.Site) (a : M.Actor) (w : M.World) :
    Prog S α → List M.Answer → Option (M.World × Except S.Exc α)
  | .ret v, _ => some (w, .ok v)
  | .raise e, _ => some (w, .error e)
  | .call _ _, [] => none
  | .call o k, ans :: rest =>
    (M.exec w site a o ans).bind fun p => run M site a p.1 (k p.2) rest

/-- Running a program computes a big-step run; its answers are those that the calls accept. -/
theorem Runs.of_run_exec {w w' : M.World} {p : Prog S α} {answers : List M.Answer}
    {out : Except S.Exc α}
    (hP : ∀ o, ∀ ans ∈ answers, ∀ w₁ w₂ r, M.exec w₁ site a o ans = some (w₂, r) → P o ans)
    (h : M.run site a w p answers = some (w', out)) : M.Runs P site a w p w' out := by
  induction p generalizing w answers with
  | ret v =>
    obtain ⟨rfl, rfl⟩ := Prod.mk.inj (Option.some.inj h)
    exact .ret
  | raise e =>
    obtain ⟨rfl, rfl⟩ := Prod.mk.inj (Option.some.inj h)
    exact .raise
  | call o k ih =>
    cases answers with
    | nil => cases h
    | cons ans rest =>
      obtain ⟨⟨w₁, r⟩, hx, hrest⟩ := Option.bind_eq_some_iff.mp h
      exact .call (hP o ans (by simp) _ _ _ hx) hx
        (ih r (fun o' ans' h' => hP o' ans' (by simp [h'])) hrest)

/-- The same with answers that satisfy the condition anyway. -/
theorem Runs.of_run {w w' : M.World} {p : Prog S α} {answers : List M.Answer}
    {out : Except S.Exc α} (hP : ∀ o, ∀ ans ∈ answers, P o ans)
    (h : M.run site a w p answers = some (w', out)) : M.Runs P site a w p w' out :=
  .of_run_exec (fun o ans hans _ _ _ _ => hP o ans hans) h

/-- The machine can answer every call in every world with an answer that satisfies `P`. -/
def Responsive (M : Machine S) (P : (o : S.Op) → M.Answer → Prop) : Prop :=
  ∀ w site a o, ∃ ans w' r, P o ans ∧ M.exec w site a o ans = some (w', r)

/-- Every program comes to an end on a responsive machine. -/
theorem Responsive.exists_runs (hM : M.Responsive P) (site : M.Site) (a : M.Actor)
    (p : Prog S α) (w : M.World) : ∃ w' out, M.Runs P site a w p w' out := by
  induction p generalizing w with
  | ret v => exact ⟨w, .ok v, .ret⟩
  | raise e => exact ⟨w, .error e, .raise⟩
  | call o k ih =>
    obtain ⟨ans, w₁, r, hP, hx⟩ := hM w site a o
    obtain ⟨w₂, out, hr⟩ := ih r w₁
    exact ⟨w₂, out, .call hP hx hr⟩

/-- **Soundness of the weakest precondition.** If a relation between world and monitor state
survives every permitted call, then a run of a program that satisfies `wp` ends in a related pair
that satisfies the postcondition. -/
theorem Runs.sound {N : Type} {mon : Monitor S N} {R : M.World → N → Prop}
    (hR : ∀ {w m o ans w' r}, R w m → mon.guard m o → P o ans →
      M.exec w site a o ans = some (w', r) → R w' (mon.next m o r))
    {p : Prog S α} {w w' : M.World} {out : Except S.Exc α} {Q : Except S.Exc α → N → Prop} {m : N}
    (h : M.Runs P site a w p w' out) (hw : R w m) (hp : p.wp mon Q m) :
    ∃ m', R w' m' ∧ Q out m' := by
  induction h generalizing m with
  | ret => exact ⟨m, hw, hp⟩
  | raise => exact ⟨m, hw, hp⟩
  | call hP hx _ ih => exact ih (hR hw hp.1 hP hx) (hp.2 _)

end Machine

end RelayQ

import RelayQ.Application.Execute
import RelayQ.Program.Play

/-! # The outbox never changes delivery

Status updates are bookkeeping: whether there is a store, whether it works or raises on any of its calls,
an execution talks to Redis, calls its handler and counts its metrics alike.

* `StoreAnswer`: how the calls of the store may end.
* `Executor.hides_execute`: an execution is one without a store, but for these calls.
* `Delivers`, `Executor.gives_execute`: what an execution does when transport calls fail with exceptions.
* `StoreIndependent`, `storeIndependent_execute`: two executions that differ in the store only. -/

namespace RelayQ

/-- A store call returns, or raises an `Exception`. -/
def StoreAnswer (o : Op) (r : Except PyExc o.Res) : Prop :=
  ∀ e, r = .error e → e.isException = true

/-! ## An execution without its store -/

namespace Executor

variable [Codec] {x : Executor}

/-- The executor without a store. -/
def storeless (x : Executor) : Executor := { x with store := false }

/-- The one program is the other but for store calls. -/
abbrev HidesStore {α : Type} (p q : Py α) : Prop := p.Hides Op.isStore StoreAnswer q

omit [Codec] in
/-- A status update is nothing but a store call, whatever comes of it. -/
theorem hides_noteStatus (id : String) (status : JobStatus) (attempt : Option Int) :
    HidesStore (x.noteStatus id status attempt) (.ret ()) := by
  unfold noteStatus
  split
  · refine .hide rfl fun r hr => ?_
    cases r with
    | ok u => exact .ret ()
    -- what the store raises, `except Exception` logs
    | error e =>
      change HidesStore (if e.isException = true then (.ret () : Py Unit) else .raise e) _
      rw [if_pos (hr e rfl)]
      exact .ret ()
  · exact .ret ()

omit [Codec] in
/-- What an execution does besides is not for the store. -/
theorem hides_handleSuccess (queue : String) (entryId : Nat) (job : Job) :
    HidesStore (x.handleSuccess queue entryId job) (x.storeless.handleSuccess queue entryId job) :=
  .bind (.of_calls (calls_logged (.perform rfl))) fun _ =>
    .bind (hides_noteStatus ..) fun _ => .bind (.perform rfl) fun _ => .ret _

/-- A failing job leads to the same outcome without the store. -/
theorem hides_handleFailure (queue : String) (entryId : Nat) (job : Job) (exc : PyExc) :
    HidesStore (x.handleFailure queue entryId job exc)
      (x.storeless.handleFailure queue entryId job exc) := by
  refine .bind (.perform rfl) fun _ => ?_
  split
  · -- dead-lettered: the append and the acknowledgement come before the update
    refine .bind (.of_calls ?_) fun why => .bind (.of_calls ?_) fun _ =>
      .bind (hides_noteStatus ..) fun _ => .ret _
    · unfold reason
      split
      · exact .ret _
      · exact .raise _
    · exact calls_deadLetter (fun _ => rfl) fun _ => rfl
  · exact .bind (.perform rfl) fun _ => .bind (hides_noteStatus ..) fun _ => .ret _

/-- **An execution is one without a store**, but for its store calls. -/
theorem hides_execute (queue : String) (entryId : Nat) (job : Job) :
    HidesStore (x.execute queue entryId job) (x.storeless.execute queue entryId job) := by
  refine .bind (hides_noteStatus ..) fun _ => .bind (.perform rfl) fun start =>
    .bind (.perform rfl) fun (run : HandlerRun) => ?_
  dsimp only
  split
  · exact .bind (.of_calls (calls_observeElapsed rfl fun _ => rfl)) fun _ =>
      hides_handleSuccess ..
  · split
    · exact .bind (.of_calls (calls_observeElapsed rfl fun _ => rfl)) fun _ =>
        hides_handleFailure ..
    · exact .raise _

end Executor

/-! ## What an execution does -/

/-- The environment lets deliveries run their course: handlers return or raise an `Exception` that has a
message (a timeout is one), transport calls may fail with an `Exception` in any pattern, the retry policy
returns a delay, and neither the clock nor the metrics fail. -/
structure Orderly (env : RelaySig.Env) : Prop where
  transport : ∀ h c e, env h (.redis c) = .error e → e.isException = true
  handler : ∀ h job timeout, ∃ run : HandlerRun, env h (.handler job timeout) = .ok run ∧
    ∀ e, run.raised = some e → e.isException = true ∧ e.str.isSome = true
  delay : ∀ h n, ∃ d, env h (.delay n) = .ok d
  clock : ∀ h, ∃ now, env h .monotonic = .ok now
  metric : ∀ h m, env h (.metric m) = .ok ()

/-- The answered calls of handlers. -/
def handlerCalls (h : List RelaySig.Answered) : List RelaySig.Answered :=
  h.filter fun c => Op.isHandler c.1

/-- `except Exception` catches whatever the program raises. -/
def Catchable {α : Type} (env : RelaySig.Env) (p : Py α) : Prop :=
  ∀ h h' e, p.play env h = (h', .error e) → e.isException = true

namespace Catchable

variable {α β : Type} {env : RelaySig.Env} {p : Py α}

/-- Rule for one call. -/
theorem perform {o : Op} (ho : ∀ h e, env h o = .error e → e.isException = true) :
    Catchable env (RelayQ.perform o) := by
  intro h h' e hplay
  rw [Prog.play_perform] at hplay
  exact ho h e (congrArg Prod.snd hplay)

/-- What returns raises nothing. -/
theorem ret (a : α) : Catchable env (.ret a) := by
  intro h h' e hplay
  cases hplay

/-- Rule for sequencing. -/
theorem bind {f : α → Py β} (hp : Catchable env p) (hf : ∀ a, Catchable env (f a)) :
    Catchable env (p.bind f) := by
  intro h h' e hplay
  rw [Prog.play_bind] at hplay
  cases hfirst : p.play env h with
  | mk h₁ r =>
    rw [hfirst] at hplay
    cases r with
    | ok a => exact hf a _ _ _ hplay
    | error e' =>
      obtain ⟨-, he⟩ := Prod.mk.inj hplay
      exact Except.error.inj he ▸ hp _ _ _ hfirst

end Catchable

namespace Executor

variable [Codec] {x : Executor} {env : RelaySig.Env} {h : List RelaySig.Answered}

/-- The program returns and calls no handler. -/
abbrev Quiet {α : Type} (env : RelaySig.Env) (p : Py α) (h : List RelaySig.Answered) : Prop :=
  p.Gives env h fun _ h' => handlerCalls h' = handlerCalls h

omit [Codec] in
/-- A logged program returns. -/
theorem quiet_logged {α : Type} {p : Py α} (hexc : Catchable env p)
    (hcalls : p.Calls fun (o : Op) => o.isHandler = false) : Quiet env (logged p) h := by
  have hfilter : (p.bind fun _ => .ret () : Py Unit).Calls fun (o : Op) => o.isHandler = false :=
    hcalls.bind fun _ => .ret ()
  have hkeeps : ∀ h' r, (p.bind fun _ => .ret () : Py Unit).play env h = (h', r) →
      handlerCalls h' = handlerCalls h := by
    intro h' r hplay
    have hkeep : handlerCalls ((p.bind fun _ => .ret () : Py Unit).play env h).1 =
        handlerCalls h := Prog.play_filter hfilter
    rwa [hplay] at hkeep
  -- either way it ends, the guard lets nothing out
  refine .tryExcept (fun _ h' hplay => hkeeps h' _ hplay) fun e h' hplay => ?_
  rw [if_pos (hexc.bind (fun _ => .ret ()) _ _ _ hplay)]
  exact .ret (hkeeps h' _ hplay)

omit [Codec] in
/-- A metric is recorded. -/
theorem quiet_metric (henv : Orderly env) (m : Metric) : Quiet env (metric m) h :=
  .perform (henv.metric h m) rfl

omit [Codec] in
/-- The time is measured. -/
theorem quiet_observeElapsed (henv : Orderly env) (kind : String) (start : Nat) :
    Quiet env (observeElapsed kind start) h := by
  obtain ⟨now, hnow⟩ := henv.clock h
  refine .bind (R := fun _ h' => handlerCalls h' = handlerCalls h) (.perform hnow rfl) ?_
  intro now h' hh
  exact (quiet_metric henv _).mono fun _ h'' hh' => hh'.trans hh

/-- A dead letter is written, or that it was not is logged. -/
theorem quiet_deadLetter (henv : Orderly env) (queue : String) (entryId : Nat) (job : Job)
    (why : String) : Quiet env (x.deadLetter queue entryId job why) h := by
  refine quiet_logged (.bind (.perform fun h => henv.transport h _) fun _ =>
    .bind (.perform fun h => henv.transport h _) fun _ => .perform fun h e he => ?_) ?_
  · rw [henv.metric] at he
    cases he
  · exact .bind (.perform rfl) fun _ => .bind (.perform rfl) fun _ => .perform rfl

omit [Codec] in
/-- Without a store there is no status update. -/
theorem noteStatus_storeless (id : String) (status : JobStatus) (attempt : Option Int) :
    x.storeless.noteStatus id status attempt = .ret () := rfl

omit [Codec] in
/-- A success leaves the job as it is. -/
theorem gives_handleSuccess (henv : Orderly env) (queue : String) (entryId : Nat) (job : Job) :
    (x.storeless.handleSuccess queue entryId job).Gives env h fun job' h' =>
      job' = job ∧ handlerCalls h' = handlerCalls h := by
  refine .bind (quiet_logged (.perform fun h => henv.transport h _) (.perform rfl)) ?_
  intro u h₁ h₁h
  rw [noteStatus_storeless, Prog.ret_bind]
  refine .bind (quiet_metric henv _) ?_
  intro u h₂ h₂h
  exact .ret ⟨rfl, h₂h.trans h₁h⟩

/-- A failure counts one attempt more. -/
theorem gives_handleFailure (henv : Orderly env) (queue : String) (entryId : Nat) (job : Job)
    {exc : PyExc} (hstr : exc.str.isSome = true) :
    (x.storeless.handleFailure queue entryId job exc).Gives env h fun job' h' =>
      job'.attempts = job.attempts + 1 ∧ handlerCalls h' = handlerCalls h := by
  refine .bind (quiet_metric henv _) ?_
  intro u h₁ h₁h
  split
  · obtain ⟨msg, hmsg⟩ := Option.isSome_iff_exists.mp hstr
    refine .bind (R := fun _ h' => handlerCalls h' = handlerCalls h) ?_ ?_
    · unfold reason
      rw [hmsg]
      exact .ret h₁h
    · intro why h₂ h₂h
      refine .bind (quiet_deadLetter henv queue entryId _ why) ?_
      intro u h₃ h₃h
      rw [noteStatus_storeless, Prog.ret_bind]
      exact .ret ⟨rfl, h₃h.trans h₂h⟩
  · obtain ⟨d, hd⟩ := henv.delay h₁ (job.attempts + 1 - 1)
    refine .bind (R := fun _ h' => handlerCalls h' = handlerCalls h) (.perform hd h₁h) ?_
    intro d h₂ h₂h
    rw [noteStatus_storeless, Prog.ret_bind]
    exact .ret ⟨rfl, h₂h⟩

omit [Codec] in
/-- A timeout has a message too. -/
theorem isSome_str_failureOf {job : Job} {e : PyExc} (hstr : e.str.isSome = true) :
    (x.failureOf job e).str.isSome = true := by
  cases e <;> first | rfl | exact hstr

/-- **What an execution without a store does**: it returns, has called its handler once, and has counted
an attempt of the job exactly if the handler failed. -/
theorem gives_execute (henv : Orderly env) (queue : String) (entryId : Nat) (job : Job) :
    (x.storeless.execute queue entryId job).Gives env [] fun job' h' => ∃ run : HandlerRun,
      handlerCalls h' = [⟨.handler job x.jobTimeout, .ok run⟩] ∧
        job'.attempts = job.attempts + if run.raised.isSome then 1 else 0 := by
  unfold execute
  rw [noteStatus_storeless, Prog.ret_bind]
  obtain ⟨start, hstart⟩ := henv.clock []
  refine .bind (R := fun _ h' => handlerCalls h' = []) (.perform hstart rfl) ?_
  intro start h₁ h₁h
  obtain ⟨run, hrun, hraised⟩ := henv.handler h₁ job x.jobTimeout
  refine .bind (R := fun r h' => r = run ∧
    handlerCalls h' = [⟨.handler job x.jobTimeout, .ok run⟩]) (.perform hrun ⟨rfl, ?_⟩) ?_
  · rw [← h₁h]
    rfl
  · rintro run h₂ ⟨rfl, h₂h⟩
    dsimp only
    split
    · rename_i hr
      refine .bind (quiet_observeElapsed henv _ _) ?_
      intro u h₃ h₃h
      refine (gives_handleSuccess henv queue entryId _).mono ?_
      rintro job' h₄ ⟨rfl, h₄h⟩
      exact ⟨run, h₄h.trans (h₃h.trans h₂h), by simp [hr]⟩
    · rename_i e hr
      obtain ⟨he, hstr⟩ := hraised e hr
      rw [if_pos he]
      refine .bind (quiet_observeElapsed henv _ _) ?_
      intro u h₃ h₃h
      refine (gives_handleFailure henv queue entryId _ (isSome_str_failureOf hstr)).mono ?_
      rintro job' h₄ ⟨hattempts, h₄h⟩
      exact ⟨run, h₄h.trans (h₃h.trans h₂h), by simp [hr, hattempts]⟩

end Executor

/-! ## Two executions that differ in the store -/

/-- The answered transport calls. -/
def transportCalls (h : List RelaySig.Answered) : List RelaySig.Answered :=
  h.filter fun c => Op.isTransport c.1

/-- The recorded metrics. -/
def metricCalls (h : List RelaySig.Answered) : List RelaySig.Answered :=
  h.filter fun c => Op.isMetric c.1

/-- **Two executions of a job agree** on all but the store: both return the job, left alike; they make
the same transport calls in the same order, call the handler once, with the same end, and record the same
metrics; and the job has one attempt more exactly if the handler failed. -/
structure StoreIndependent (job : Job) (timeout : Seconds)
    (r r' : List RelaySig.Answered × Except PyExc Job) (left : Job) (run : HandlerRun) : Prop where
  returns : r.2 = .ok left ∧ r'.2 = .ok left
  transport : transportCalls r.1 = transportCalls r'.1
  handler : handlerCalls r.1 = [⟨.handler job timeout, .ok run⟩] ∧
    handlerCalls r'.1 = [⟨.handler job timeout, .ok run⟩]
  metrics : metricCalls r.1 = metricCalls r'.1
  attempts : left.attempts = job.attempts + if run.raised.isSome then 1 else 0

/-- **The outbox never changes delivery.** In every environment that lets deliveries run their course,
two executions whose environments differ only in how they answer store calls, with or without a store,
agree on all the rest. -/
theorem storeIndependent_execute [Codec] (x : Executor) (queue : String) (entryId : Nat)
    (job : Job) {env₀ env env' : RelaySig.Env} (henv₀ : Orderly env₀)
    (henv : env.Extends env₀ Op.isStore StoreAnswer) (henv' : env'.Extends env₀ Op.isStore StoreAnswer)
    (b b' : Bool) : ∃ left run, StoreIndependent job x.jobTimeout
      (({ x with store := b } : Executor).execute queue entryId job |>.play env [])
      (({ x with store := b' } : Executor).execute queue entryId job |>.play env' []) left run := by
  obtain ⟨left, h, hplay, run, hhandler, hattempts⟩ :=
    Executor.gives_execute (x := x) henv₀ queue entryId job
  -- either execution is, as far as it can be seen, the one without a store
  have hsame : ∀ {env : RelaySig.Env} (b : Bool), env.Extends env₀ Op.isStore StoreAnswer →
      let r := (({ x with store := b } : Executor).execute queue entryId job).play env []
      visible Op.isStore r.1 = h ∧ r.2 = .ok left := by
    intro env b henv
    have heq := (Executor.hides_execute (x := { x with store := b }) queue entryId job).play_eq
      henv []
    exact Prod.mk.inj (heq.trans hplay)
  have hseen : ∀ {kind : Op → Bool} {h' : List RelaySig.Answered}, visible Op.isStore h' = h →
      (∀ o, kind o = true → o.isStore = false) →
      (h'.filter fun c => kind c.1) = h.filter fun c => kind c.1 := by
    intro kind h' hvisible hkind
    rw [← hvisible, Prog.filter_visible hkind]
  have htransport : ∀ o : Op, o.isTransport = true → o.isStore = false := by
    intro o ho
    cases o <;> first | rfl | cases ho
  have hcalls : ∀ o : Op, o.isHandler = true → o.isStore = false := by
    intro o ho
    cases o <;> first | rfl | cases ho
  have hmetric : ∀ o : Op, o.isMetric = true → o.isStore = false := by
    intro o ho
    cases o <;> first | rfl | cases ho
  obtain ⟨hvisible, hend⟩ := hsame b henv
  obtain ⟨hvisible', hend'⟩ := hsame b' henv'
  exact ⟨left, run, ⟨hend, hend'⟩,
    (hseen hvisible htransport).trans (hseen hvisible' htransport).symm,
    ⟨(hseen hvisible hcalls).trans hhandler, (hseen hvisible' hcalls).trans hhandler⟩,
    (hseen hvisible hmetric).trans (hseen hvisible' hmetric).symm, hattempts⟩

/-- Every transport call fails, and so does the handler; the store is locked. -/
def Sample.lockedStore : RelaySig.Env
  | _, .redis _ => .error (.redisError "ConnectionError" "Connection lost")
  | _, .sql _ => .error (.sqliteError .locked)
  | _, .handler _ _ => .ok ⟨.empty, some (.other "ValueError" (some "boom"))⟩
  | _, .monotonic => .ok 0
  | _, .utcnow => .ok .epoch
  | _, .metric _ => .ok ()
  | _, .delay _ => .ok 1

/-- The same with a store that works. -/
def Sample.workingStore : RelaySig.Env
  | _, .sql (.selectById _) => .ok none
  | _, .sql (.selectByKey _) => .ok none
  | _, .sql .begin => .ok ()
  | _, .sql (.insert _) => .ok ()
  | _, .sql (.update _ _ _) => .ok ()
  | _, .sql .commit => .ok ()
  | _, .sql .rollback => .ok ()
  | h, o => Sample.lockedStore h o

/-- These environments let deliveries run their course. -/
theorem orderly_lockedStore : Orderly Sample.lockedStore where
  transport := by
    rintro h c e he
    cases he
    rfl
  handler := by
    intro h job timeout
    refine ⟨⟨.empty, some (.other "ValueError" (some "boom"))⟩, rfl, fun e he => ?_⟩
    obtain rfl := Option.some.inj he
    exact ⟨rfl, rfl⟩
  delay h n := ⟨1, rfl⟩
  clock h := ⟨0, rfl⟩
  metric h m := rfl

/-- A failing handler over a store that works, and over one that is locked. -/
theorem storeIndependent_execute_locked : ∃ left run, run.raised.isSome = true ∧
    StoreIndependent Sample.job ⟨300, "300.0"⟩
      (({ transport := Sample.transport, store := true } : Executor).execute "default" 1 Sample.job
        |>.play Sample.workingStore [])
      (({ transport := Sample.transport, store := true } : Executor).execute "default" 1 Sample.job
        |>.play Sample.lockedStore []) left run := by
  have hworking : Sample.workingStore.Extends Sample.lockedStore Op.isStore StoreAnswer := by
    refine ⟨fun h o ho => ?_, fun h o ho e he => ?_⟩
    · cases o <;> first | rfl | cases ho
    · cases o with
      | sql s => cases s <;> cases he
      | redis _ | handler _ _ | monotonic | utcnow | metric _ | delay _ => cases ho
  have hlocked : Sample.lockedStore.Extends Sample.lockedStore Op.isStore StoreAnswer := by
    refine ⟨fun h o ho => ?_, fun h o ho e he => ?_⟩
    · cases o <;> rfl
    · cases o with
      | sql s =>
        cases he
        rfl
      | redis _ | handler _ _ | monotonic | utcnow | metric _ | delay _ => cases ho
  obtain ⟨left, run, h⟩ := storeIndependent_execute { transport := Sample.transport } "default" 1
    Sample.job orderly_lockedStore hworking hlocked true true
  refine ⟨left, run, ?_, h⟩
  have hcalls : handlerCalls
      (({ transport := Sample.transport, store := true } : Executor).execute "default" 1 Sample.job
        |>.play Sample.workingStore []).1 = [⟨.handler Sample.job ⟨300, "300.0"⟩,
          .ok ⟨.empty, some (.other "ValueError" (some "boom"))⟩⟩] := rfl
  have hrun := h.handler.1.symm.trans hcalls
  simp only [List.cons.injEq, Sigma.mk.injEq, heq_eq_eq, Except.ok.injEq, true_and, and_true] at hrun
  rw [hrun]
  rfl

end RelayQ

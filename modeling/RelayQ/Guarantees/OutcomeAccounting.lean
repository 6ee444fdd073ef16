import RelayQ.Application.Execute
import RelayQ.Infrastructure.Histories
import RelayQ.Guarantees.DeadLetters
import Mathlib.Algebra.Order.BigOperators.Group.List
import Mathlib.Algebra.Order.Group.Nat

/-! # What the metrics account for

The counters of delivery attempts and of dead letters are to agree with what happened: one attempt for
each execution, by its handler's end, and one dead letter for each entry that was appended to a
dead-letter queue. An execution leaves one of five histories, and one of them counts less than it did.

* `outcomeKind`, `Executor.histories`, `Executor.leads_execute`: what one execution leaves.
* `OutcomesAccounted`: the counters agree.
* `outcomesAccounted_iff`: they do exactly if every dead-letter append was answered, and the
  acknowledgement after it too. -/

namespace RelayQ

/-! ## The history of an execution -/

/-- What the answered calls of an execution count as. -/
inductive Outcome
  /-- The handler ran; did it return? -/
  | handled (returned : Bool)
  /-- A delivery attempt was counted. -/
  | attempt (success : Bool)
  /-- An append was answered. -/
  | appended
  /-- An acknowledgement was answered. -/
  | acked
  /-- A dead letter was counted. -/
  | dead
  /-- A cancellation, or a failure of what does not fail. -/
  | spoiled
  deriving DecidableEq

/-- An error of a call that may fail. -/
def Outcome.ofError (e : PyExc) : Option Outcome := if e.isException then none else some .spoiled

/-- What an answered call counts as. -/
def outcomeKind : EventKind Outcome
  | .handler _ _, .ok run =>
    match HandlerRun.raised run with
    | none => some (.handled true)
    | some e => if e.isException then some (.handled false) else some .spoiled
  | .metric (.deliveryAttempts _ success), .ok _ => some (.attempt success)
  | .metric (.deadLetter _), .ok _ => some .dead
  | .redis (.xadd _ _ _), .ok _ => some .appended
  | .redis (.xack _ _ _), .ok _ => some .acked
  | .redis _, .error e => Outcome.ofError e
  | .sql _, .error e => Outcome.ofError e
  | .delay _, .error e => Outcome.ofError e
  -- clocks and metrics do not fail
  | _, .error _ => some .spoiled
  | _, .ok _ => none

/-- A Redis call that fails counts as nothing, or is cancelled. -/
@[simp] theorem outcomeKind_redis_error {c : Redis.Cmd Body} {e : PyExc} :
    outcomeKind (.redis c) (.error e) = Outcome.ofError e := by
  cases c <;> rfl

/-- An error counts as nothing or spoils. -/
@[simp] theorem Outcome.ofError_eq_some {e : PyExc} {k : Outcome} :
    Outcome.ofError e = some k ↔ e.isException = false ∧ k = .spoiled := by
  unfold Outcome.ofError
  split
  · rename_i he
    simp [he]
  · rename_i he
    simp [he, eq_comm]

/-- A handler run counts by its end, or is cancelled. -/
theorem outcomeKind_handler (job : Job) (timeout : Seconds)
    (r : Except PyExc (Op.handler job timeout).Res) :
    outcomeKind (.handler job timeout) r = some .spoiled ∨ ∃ run : HandlerRun, r = .ok run ∧
      (∀ e, run.raised = some e → e.isException = true) ∧
      outcomeKind (.handler job timeout) r = some (.handled run.raised.isNone) := by
  cases r with
  | error e => exact .inl rfl
  | ok run =>
    cases hr : HandlerRun.raised run with
    | none => exact .inr ⟨run, rfl, by simp [hr], by simp [outcomeKind, hr]⟩
    | some e =>
      by_cases he : e.isException = true
      · exact .inr ⟨run, rfl, by simp [hr, he], by simp [outcomeKind, hr, he]⟩
      · exact .inl (by simp [outcomeKind, hr, he])

namespace Prog.Leads

variable {α κ : Type} {kind : EventKind κ} {bad : κ} {p : Py α} {m : List κ}
  {R : Except PyExc α → List κ → Prop}

/-- Rule for a logged program. -/
theorem logged {Q : Except PyExc Unit → List κ → Prop} (hp : p.Leads kind bad m R)
    (hok : ∀ a m', R (.ok a) m' → Q (.ok ()) m')
    (herr : ∀ e m', R (.error e) m' → e.isException = true ∧ Q (.ok ()) m') :
    (Executor.logged p).Leads kind bad m Q := by
  refine Executor.wp_logged.mpr (wp_mono p (fun r m' h => ?_) hp)
  cases r with
  | ok a => exact h.imp_right (hok a m')
  | error e =>
    rcases h with h | h
    · dsimp only
      split <;> exact .inl h
    · obtain ⟨he, hq⟩ := herr e m' h
      dsimp only
      rw [if_pos he]
      exact .inr hq

end Prog.Leads

namespace Executor

variable [Codec] (x : Executor) (queue : String) (entryId : Nat) (m : List Outcome)

open Outcome

/-- The histories of an execution, newest event first. -/
def histories : List (List Outcome) :=
  -- the handler returned, and its entry was acknowledged, or that failed
  [[attempt true, acked, handled true], [attempt true, handled true],
    -- it raised, and is to be retried, or the append to the dead-letter queue failed
    [attempt false, handled false],
    -- the append was answered and the acknowledgement failed: no dead letter is counted
    [appended, attempt false, handled false],
    [dead, acked, appended, attempt false, handled false]]

omit [Codec] in
/-- A status update leaves nothing. -/
theorem leads_noteStatus (id : String) (status : JobStatus) (attempt : Option Int) :
    (x.noteStatus id status attempt).Leads outcomeKind spoiled m fun r m' => r = .ok () ∧ m' = m := by
  unfold noteStatus
  split
  · refine .logged (R := fun r m' => m' = m ∧ ∀ e, r = .error e → e.isException = true)
      (.perform fun r => ?_) (fun _ _ h => ⟨rfl, h.1⟩) fun e _ h => ⟨h.2 e rfl, rfl, h.1⟩
    cases r with
    | ok a => exact .inr ⟨rfl, nofun⟩
    | error e =>
      by_cases he : e.isException = true
      · exact .inr ⟨by simp [outcomeKind, ofError, he], fun e' h => by cases h; exact he⟩
      · exact .inl (by simp [outcomeKind, ofError, he])
  · exact .ret ⟨rfl, rfl⟩

omit [Codec] in
/-- A Redis call leaves what it counts as when it is answered, and nothing when it fails. -/
theorem leads_redis (c : Redis.Cmd Body) {R : Except PyExc c.Res → List Outcome → Prop}
    (hok : ∀ a, R (.ok a) ((outcomeKind (.redis c) (.ok a)).toList ++ m))
    (herr : ∀ e, e.isException = true → R (.error e) m) :
    (perform (.redis c)).Leads outcomeKind spoiled m R := by
  refine .perform fun r => ?_
  cases r with
  | ok a => exact .inr (hok a)
  | error e =>
    rw [outcomeKind_redis_error, Outcome.ofError]
    by_cases he : e.isException = true
    · rw [if_pos he]
      exact .inr (herr e he)
    · exact .inl (if_neg he)

omit [Codec] in
/-- A metric leaves what it counts as. -/
theorem leads_metric (mt : Metric) : (metric mt).Leads outcomeKind spoiled m fun r m' =>
    r = .ok () ∧ m' = (outcomeKind (.metric mt) (.ok ())).toList ++ m := by
  refine .perform fun r => ?_
  cases r with
  | ok u => exact .inr ⟨rfl, rfl⟩
  | error e => cases mt <;> exact .inl rfl

omit [Codec] in
/-- Measuring the time leaves nothing. -/
theorem leads_observeElapsed (kind : String) (start : Nat) :
    (observeElapsed kind start).Leads outcomeKind spoiled m fun r m' => r = .ok () ∧ m' = m := by
  refine .bind (R := fun r m' => m' = m ∧ ∃ now, r = .ok now) (.perform fun r => ?_) ?_ ?_
  · cases r with
    | ok now => exact .inr ⟨rfl, now, rfl⟩
    | error e => exact .inl rfl
  · rintro now m' ⟨rfl, -⟩
    exact leads_metric m' _
  · rintro e m' ⟨-, now, h⟩
    cases h

/-- Dead-lettering leaves an append, an acknowledgement and a count, or stops where one fails. -/
theorem leads_deadLetter (job : Job) (why : String) :
    (x.deadLetter queue entryId job why).Leads outcomeKind spoiled m fun r m' =>
      r = .ok () ∧ m' ∈ [m, appended :: m, dead :: acked :: appended :: m] := by
  refine .logged (R := fun r m' => m' ∈ [m, appended :: m, dead :: acked :: appended :: m] ∧
    ∀ e, r = .error e → e.isException = true) ?_ (fun _ _ h => ⟨rfl, h.1⟩)
    fun e _ h => ⟨h.2 e rfl, rfl, h.1⟩
  -- what fails first ends the `try` that the three share
  refine .bind (R := fun r m' => (∀ a, r = .ok a → m' = appended :: m) ∧
      ∀ e, r = .error e → m' = m ∧ e.isException = true)
    (leads_redis m _ (fun a => ⟨fun _ _ => rfl, nofun⟩)
      fun e he => ⟨nofun, fun e' h => by cases h; exact ⟨rfl, he⟩⟩) ?_ ?_
  · intro id m' h
    obtain rfl := h.1 id rfl
    refine .bind (R := fun r m' => (∀ a, r = .ok a → m' = acked :: appended :: m) ∧
        ∀ e, r = .error e → m' = appended :: m ∧ e.isException = true)
      (leads_redis _ _ (fun a => ⟨fun _ _ => rfl, nofun⟩)
        fun e he => ⟨nofun, fun e' h => by cases h; exact ⟨rfl, he⟩⟩) ?_ ?_
    · intro n m'' h
      obtain rfl := h.1 n rfl
      refine (leads_metric _ (.deadLetter job.kind)).mono fun r m' => ?_
      rintro ⟨rfl, rfl⟩
      exact ⟨by simp [outcomeKind], nofun⟩
    · intro e m'' h
      obtain ⟨rfl, he⟩ := h.2 e rfl
      exact ⟨by simp, fun e' h => by cases h; exact he⟩
  · intro e m' h
    obtain ⟨rfl, he⟩ := h.2 e rfl
    exact ⟨by simp, fun e' h => by cases h; exact he⟩

omit [Codec] in
/-- A success leaves an acknowledgement, if it is answered, and a counted attempt. -/
theorem leads_handleSuccess (job : Job) :
    (x.handleSuccess queue entryId job).Leads outcomeKind spoiled m fun _ m' =>
      m' ∈ [attempt true :: acked :: m, attempt true :: m] := by
  refine .bind (R := fun r m' => r = .ok () ∧ m' ∈ [acked :: m, m]) ?_ ?_ ?_
  · refine .logged (R := fun r m' => m' ∈ [acked :: m, m] ∧ ∀ e, r = .error e → e.isException = true)
      (leads_redis m _ (fun a => ⟨by simp [outcomeKind], nofun⟩)
        fun e he => ⟨by simp, fun e' h => by cases h; exact he⟩) (fun _ _ h => ⟨rfl, h.1⟩)
      fun e _ h => ⟨h.2 e rfl, rfl, h.1⟩
  · rintro u m' ⟨-, hm⟩
    refine .bind (leads_noteStatus x m' _ _ _) ?_ fun e m'' h => nomatch h.1
    rintro u m'' ⟨-, rfl⟩
    refine .bind (leads_metric m'' _) ?_ fun e m₁ h => nomatch h.1
    rintro u m₁ ⟨-, rfl⟩
    refine .ret ?_
    simpa [outcomeKind] using hm
  · rintro e m' ⟨h, -⟩
    cases h

/-- A failure leaves a counted attempt, and what dead-lettering leaves. -/
theorem leads_handleFailure (job : Job) (exc : PyExc) :
    (x.handleFailure queue entryId job exc).Leads outcomeKind spoiled m fun _ m' =>
      m' ∈ [attempt false :: m, appended :: attempt false :: m,
        dead :: acked :: appended :: attempt false :: m] := by
  refine .bind (leads_metric m _) ?_ fun e m' h => nomatch h.1
  rintro u m' ⟨-, rfl⟩
  change Prog.Leads outcomeKind spoiled _ (attempt false :: m) _
  split
  · -- out of retries; the text of the error may not be computable
    refine .bind (R := fun _ m' => m' = attempt false :: m) ?_ ?_ ?_
    · unfold reason
      split
      · exact .ret rfl
      · exact .raise rfl
    · rintro why m' rfl
      refine .bind (leads_deadLetter x queue entryId _ _ why) ?_ fun e m'' h => nomatch h.1
      rintro u m'' ⟨-, hm⟩
      refine .bind (leads_noteStatus x m'' _ _ _) ?_ fun e m₁ h => nomatch h.1
      rintro u m₁ ⟨-, rfl⟩
      exact .ret hm
    · rintro e m' rfl
      simp
  · -- to be retried: the delay is computed, the entry stays pending
    refine .bind (R := fun _ m' => m' = attempt false :: m) (.perform fun r => ?_) ?_ ?_
    · cases r with
      | ok d => exact .inr rfl
      | error e =>
        by_cases he : e.isException = true
        · exact .inr (by simp [outcomeKind, ofError, he])
        · exact .inl (by simp [outcomeKind, ofError, he])
    · rintro d m' rfl
      refine .bind (leads_noteStatus x _ _ _ _) ?_ fun e m₁ h => nomatch h.1
      rintro u m₁ ⟨-, rfl⟩
      exact .ret (by simp)
    · rintro e m' rfl
      simp

/-- **An execution leaves one of five histories.** -/
theorem leads_execute (job : Job) :
    (x.execute queue entryId job).Leads outcomeKind spoiled [] fun _ m => m ∈ histories := by
  refine .bind (leads_noteStatus x [] _ _ _) ?_ fun e m h => nomatch h.1
  rintro u m ⟨-, rfl⟩
  refine .bind (R := fun r m => m = [] ∧ ∃ start, r = .ok start) (.perform fun r => ?_) ?_
    fun e m h => nomatch h.2.choose_spec
  · cases r with
    | ok start => exact .inr ⟨rfl, start, rfl⟩
    | error e => exact .inl rfl
  rintro start m ⟨rfl, -⟩
  -- up to here nothing counts; the handler is the first to leave something
  refine .bind (R := fun r m => ∃ run : HandlerRun, r = .ok run ∧
      (∀ e, run.raised = some e → e.isException = true) ∧ m = [handled run.raised.isNone])
    (.perform fun r => ?_) ?_ fun e m h => nomatch h.choose_spec.1
  · rcases outcomeKind_handler job x.jobTimeout r with hs | ⟨run, rfl, hexc, hkind⟩
    · exact .inl hs
    · exact .inr ⟨run, rfl, hexc, by rw [hkind]; rfl⟩
  rintro run m ⟨run', hrun, hexc, rfl⟩
  obtain rfl := Except.ok.inj hrun
  dsimp only
  split
  · rename_i hr
    refine .bind (leads_observeElapsed _ _ _) ?_ fun e m h => nomatch h.1
    rintro u m ⟨-, rfl⟩
    refine (leads_handleSuccess x queue entryId _ _).mono fun r m' hm => ?_
    simp only [hr, Option.isNone_none, List.mem_cons, List.not_mem_nil, or_false] at hm
    rcases hm with rfl | rfl <;> simp [histories]
  · rename_i e hr
    rw [if_pos (hexc e hr)]
    refine .bind (leads_observeElapsed _ _ _) ?_ fun e m h => nomatch h.1
    rintro u m ⟨-, rfl⟩
    refine (leads_handleFailure x queue entryId _ _ _).mono fun r m' hm => ?_
    simp only [hr, Option.isNone_some, List.mem_cons, List.not_mem_nil, or_false] at hm
    rcases hm with rfl | rfl | rfl <;> simp [histories]

end Executor

/-! ## The counters -/

/-- The call counted a delivery attempt. -/
def Event.countsAttempt (success : Bool) (ev : Event) : Bool :=
  match ev with
  | ⟨_, .metric (.deliveryAttempts _ b), _, _, .ok _⟩ => b == success
  | _ => false

/-- The call counted a dead letter. -/
def Event.countsDeadLetter (ev : Event) : Bool :=
  match ev with
  | ⟨_, .metric (.deadLetter _), _, _, .ok _⟩ => true
  | _ => false

/-- A handler ran, and returned or raised. -/
def Event.handles (returned : Bool) (ev : Event) : Bool :=
  match ev with
  | ⟨_, .handler _ _, _, _, .ok run⟩ => run.raised.isNone == returned
  | _ => false

/-- A call of the code appended an entry. -/
def Event.appends (ev : Event) : Bool :=
  ev.actor ≠ .foreign && ev.applied && match ev.op with
    | .redis (.xadd _ _ _) => true
    | _ => false

/-- The call returned. -/
def Event.answered (ev : Event) : Bool :=
  match ev.res with
  | .ok _ => true
  | .error _ => false

/-- An acknowledgement was answered. -/
def Event.acknowledges (ev : Event) : Bool :=
  ev.answered && match ev.op with
    | .redis (.xack _ _ _) => true
    | _ => false

namespace World

variable (w : World)

/-- `delivery_attempts_total` for one value of its label `success`, summed over the others. -/
def deliveryAttemptsTotal (success : Bool) : Nat := w.log.countP (Event.countsAttempt success)

/-- `dead_letter_total`, summed over its labels. -/
def deadLetterTotal : Nat := w.log.countP Event.countsDeadLetter

/-- The handler runs that returned, or that raised. -/
def handlerRuns (returned : Bool) : Nat := w.log.countP (Event.handles returned)

/-- The entries the code appended: executions append to dead-letter queues only. -/
def deadLettersAppended : Nat := w.log.countP Event.appends

/-- Every append that was carried out was answered, and so was an acknowledgement by the execution that
made it. -/
def DeadLettersSettled : Prop :=
  ∀ ev ∈ w.log, ev.appends = true →
    ev.answered = true ∧ ∃ ev' ∈ w.log, ev'.actor = ev.actor ∧ ev'.acknowledges = true

/-- Whether every failed job has settled can be checked. -/
instance : Decidable w.DeadLettersSettled :=
  inferInstanceAs (Decidable (∀ ev ∈ w.log, ev.appends = true → _))

end World

/-- **The counters account for the executions**: one delivery attempt for each, a success if its
handler returned and no success else, and one dead letter for each entry that they appended to a
dead-letter queue. -/
structure OutcomesAccounted (s : PoolState relay ExecCall Job) : Prop where
  executes : s.world.deliveryAttemptsTotal true + s.world.deliveryAttemptsTotal false =
    s.procs.length
  returned : s.world.deliveryAttemptsTotal true = s.world.handlerRuns true
  raised : s.world.deliveryAttemptsTotal false = s.world.handlerRuns false
  dead : s.world.deadLetterTotal = s.world.deadLettersAppended

/-- The answer cancels the call. -/
def Answer.cancels : Answer → Bool
  | .lost e _ | .fail e => !e.isException
  | .ran run => match run.raised with
    | some e => !e.isException
    | none => false
  | .ok _ | .wall _ | .drawn _ => false

/-- No call is cancelled. -/
def Uncancelled (_ : PoolState relay ExecCall Job) : PoolLabel relay ExecCall → Prop
  | .answer _ ans => ans.cancels = false
  | _ => True

/-! ## What the log holds -/

/-- An event of a run without cancellations: it is not spoiled, what was answered was carried out, and
others only append. -/
structure Event.Sound (ev : Event) : Prop where
  foreign : ev.actor = .foreign → ∃ key body limit, ev.op = .redis (.xadd key body limit)
  unspoiled : outcomeKind ev.op ev.res ≠ some .spoiled
  applied : ∀ c, ev.op = .redis c → ev.answered = true → ev.applied = true

variable {w w' : World} {site : Nat} {a : Actor} {ans : Answer}

/-- A Redis call that is answered was carried out. -/
theorem World.exec_redis_applied {c : Redis.Cmd Body} {r : Except PyExc c.Res}
    (h : w.exec site a (.redis c) ans = some (w', r)) :
    ∃ applied n, w'.log = ⟨a, .redis c, applied, n, r⟩ :: w.log ∧
      ∀ v, r = .ok v → applied = true := by
  rcases World.exec_redis h with ⟨n, -, rfl, -⟩ | ⟨e, -, -, rfl, rfl⟩
  · exact ⟨true, n, rfl, fun _ _ => rfl⟩
  · exact ⟨false, 0, rfl, nofun⟩

/-- A call that is not cancelled is not spoiled. -/
theorem World.exec_not_spoiled {o : Op} {r : Except PyExc o.Res} (hans : ans.cancels = false)
    (h : w.exec site a o ans = some (w', r)) : outcomeKind o r ≠ some .spoiled := by
  have herror : ∀ e : PyExc, e.isException = true → Outcome.ofError e ≠ some .spoiled := by
    intro e he
    rw [Outcome.ofError, if_pos he]
    rintro ⟨⟩
  cases o with
  | redis c =>
    cases r with
    | ok v => cases c <;> rintro ⟨⟩
    | error e =>
      rw [outcomeKind_redis_error]
      refine herror e ?_
      rcases World.exec_redis h with ⟨n, -, -, ⟨-, hr⟩ | ⟨e', rfl, he, -⟩⟩ | ⟨e', rfl, -, he, -⟩
      · obtain ⟨ce, rfl⟩ := World.exists_of_sendCmd_error hr
        cases ce <;> rfl
      · simpa [Answer.cancels, Except.error.inj he] using hans
      · simpa [Answer.cancels, Except.error.inj he] using hans
  | sql st =>
    cases r with
    | ok v => rintro ⟨⟩
    | error e => exact herror e (World.exec_sql_isException h)
  | handler job timeout =>
    obtain ⟨x, hx, rfl, -⟩ := World.exec_eq_some.mp h
    cases ans with
    | ran run =>
      obtain rfl := Option.some.inj hx
      cases hr : run.raised with
      | none => simp [outcomeKind, hr]
      | some e =>
        have he : e.isException = true := by simpa [Answer.cancels, hr] using hans
        simp [outcomeKind, hr, he]
    | ok _ | lost _ _ | fail _ | wall _ | drawn _ => cases hx
  | delay n =>
    obtain ⟨x, hx, rfl, -⟩ := World.exec_eq_some.mp h
    cases ans with
    | drawn d =>
      obtain rfl := Option.some.inj hx
      rintro ⟨⟩
    | fail e =>
      obtain ⟨he, hx⟩ := Option.ite_none_right_eq_some.mp hx
      obtain rfl := Option.some.inj hx
      exact herror e he
    | ok _ | lost _ _ | ran _ | wall _ => cases hx
  | monotonic | utcnow =>
    obtain ⟨x, hx, rfl, -⟩ := World.exec_eq_some.mp h
    cases ans <;> cases hx
    rintro ⟨⟩
  | metric mt =>
    obtain ⟨x, hx, rfl, -⟩ := World.exec_eq_some.mp h
    cases ans <;> cases hx
    cases mt <;> rintro ⟨⟩

variable {s : PoolState relay ExecCall Job}

section

variable [Codec]

/-- Executions have names of their own. -/
theorem named_executePool : (executePool : PoolSpec relay ExecCall Job).Named where
  inj := by
    intro n m i j h
    exact (Actor.executor.inj h).2.1
  ne_foreign := by
    intro n i h
    cases h

/-- The log of a run without cancellations is sound. -/
theorem sound_log {now : Nat} {ks : Redis.Keyspace Body} {db : Db}
    (hrun : Reaches executePool.step Uncancelled ⟨⟨now, ks, db, []⟩, []⟩ s) :
    ∀ ev ∈ s.world.log, ev.Sound := by
  refine Reaches.invariant (P := fun u : PoolState relay ExecCall Job => ∀ ev ∈ u.world.log, ev.Sound)
    (fun u l v hu hl hs => ?_) hrun (by simp)
  rcases PoolSpec.step_cases hs with ⟨info, site, rfl, rfl⟩ |
    ⟨i, ans, p, o, k, w, r, rfl, hi, hprog, hx, rfl⟩ | ⟨site, rfl, rfl⟩ | ⟨e, w, rfl, hw, rfl⟩
  · exact hu
  · -- a call is answered
    obtain ⟨applied, evicted, hlog⟩ := World.exec_log hx
    intro ev hev
    rw [hlog] at hev
    rcases List.mem_cons.mp hev with rfl | hev
    · refine ⟨fun h => (named_executePool.ne_foreign _ _ h).elim,
        World.exec_not_spoiled hl hx, fun c hc hans => ?_⟩
      dsimp only at hc
      subst hc
      obtain ⟨applied', n, hlog', happlied⟩ := World.exec_redis_applied hx
      have heq := hlog.symm.trans hlog'
      simp only [List.cons.injEq, Event.mk.injEq, and_true, true_and] at heq
      rw [heq.1]
      cases r with
      | ok v => exact happlied v rfl
      | error e => cases hans
    · exact hu ev hev
  · exact hu
  · cases e with
    | tick d =>
      obtain rfl := Option.some.inj hw
      exact hu
    | foreign key body =>
      -- others append without the code, which the log keeps apart by the actor
      have hw' : (u.world.exec 0 .foreign (.redis (.xadd key body none)) (.ok 0)).map Prod.fst =
        some w := hw
      obtain ⟨⟨w₁, r⟩, hx, rfl⟩ := Option.map_eq_some_iff.mp hw'
      obtain ⟨applied, n, hlog, happlied⟩ := World.exec_redis_applied hx
      intro ev hev
      rw [hlog] at hev
      rcases List.mem_cons.mp hev with rfl | hev
      · refine ⟨fun _ => ⟨key, body, none, rfl⟩, World.exec_not_spoiled rfl hx, fun _ _ hans => ?_⟩
        cases r with
        | ok v => exact happlied v rfl
        | error e => cases hans
      · exact hu ev hev

end

/-! ## The counters and the histories -/

variable {ev : Event}

/-- An attempt is counted by what counts as one. -/
theorem countsAttempt_iff {success : Bool} :
    ev.countsAttempt success = true ↔ outcomeKind ev.op ev.res = some (.attempt success) := by
  obtain ⟨a, o, applied, n, r⟩ := ev
  cases o with
  | metric mt => cases mt <;> cases r <;> simp [Event.countsAttempt, outcomeKind]
  | redis c => cases r <;> cases c <;> simp [Event.countsAttempt, outcomeKind]
  | handler job timeout =>
    rcases outcomeKind_handler job timeout r with h | ⟨run, -, -, h⟩ <;>
      simp [Event.countsAttempt, h]
  | sql | delay | monotonic | utcnow => cases r <;> simp [Event.countsAttempt, outcomeKind]

/-- A dead letter is counted by what counts as one. -/
theorem countsDeadLetter_iff :
    ev.countsDeadLetter = true ↔ outcomeKind ev.op ev.res = some .dead := by
  obtain ⟨a, o, applied, n, r⟩ := ev
  cases o with
  | metric mt => cases mt <;> cases r <;> simp [Event.countsDeadLetter, outcomeKind]
  | redis c => cases r <;> cases c <;> simp [Event.countsDeadLetter, outcomeKind]
  | handler job timeout =>
    rcases outcomeKind_handler job timeout r with h | ⟨run, -, -, h⟩ <;>
      simp [Event.countsDeadLetter, h]
  | sql | delay | monotonic | utcnow => cases r <;> simp [Event.countsDeadLetter, outcomeKind]

/-- A handler run counts by its end. -/
theorem handles_iff {returned : Bool} (hs : outcomeKind ev.op ev.res ≠ some .spoiled) :
    ev.handles returned = true ↔ outcomeKind ev.op ev.res = some (.handled returned) := by
  obtain ⟨a, o, applied, n, r⟩ := ev
  cases o with
  | metric mt => cases mt <;> cases r <;> simp [Event.handles, outcomeKind]
  | redis c => cases r <;> cases c <;> simp [Event.handles, outcomeKind]
  | handler job timeout =>
    rcases outcomeKind_handler job timeout r with h | ⟨run, rfl, -, h⟩
    · exact absurd h hs
    · simp [Event.handles, h]
  | sql | delay | monotonic | utcnow => cases r <;> simp [Event.handles, outcomeKind]

/-- An acknowledgement is answered by what counts as one. -/
theorem acknowledges_iff :
    ev.acknowledges = true ↔ outcomeKind ev.op ev.res = some .acked := by
  obtain ⟨a, o, applied, n, r⟩ := ev
  cases o with
  | metric mt => cases mt <;> cases r <;> simp [Event.acknowledges, Event.answered, outcomeKind]
  | redis c => cases r <;> cases c <;> simp [Event.acknowledges, Event.answered, outcomeKind]
  | handler job timeout =>
    rcases outcomeKind_handler job timeout r with h | ⟨run, -, -, h⟩ <;>
      simp [Event.acknowledges, h]
  | sql | delay | monotonic | utcnow => cases r <;> simp [Event.acknowledges, outcomeKind]

/-- An append of the code's that was carried out and answered counts as one, and nothing else
does. -/
theorem appends_answered_iff (h : ev.Sound) :
    (ev.appends = true ∧ ev.answered = true) ↔
      ev.actor ≠ .foreign ∧ outcomeKind ev.op ev.res = some .appended := by
  obtain ⟨a, o, applied, n, r⟩ := ev
  cases o with
  | metric mt => cases mt <;> cases r <;> simp [Event.appends, outcomeKind]
  | redis c =>
    cases r with
    | error e => cases c <;> simp [Event.answered, outcomeKind]
    | ok v =>
      obtain rfl : applied = true := h.applied c rfl rfl
      cases c <;> simp [Event.appends, Event.answered, outcomeKind]
  | handler job timeout =>
    rcases outcomeKind_handler job timeout r with h | ⟨run, -, -, h⟩ <;> simp [Event.appends, h]
  | sql | delay | monotonic | utcnow => cases r <;> simp [Event.appends, outcomeKind]

/-- What others do counts as an append, if as anything. -/
theorem Event.Sound.ne_foreign (h : ev.Sound) {k : Outcome}
    (hk : outcomeKind ev.op ev.res = some k) (happended : k ≠ .appended) :
    ev.actor ≠ .foreign := by
  intro hforeign
  obtain ⟨key, body, limit, hop⟩ := h.foreign hforeign
  have hunspoiled := h.unspoiled
  obtain ⟨a, o, applied, n, r⟩ := ev
  dsimp only at hop
  subst hop
  cases r with
  | ok id => exact happended (Option.some.inj hk).symm
  | error e =>
    rw [outcomeKind_redis_error, Outcome.ofError_eq_some] at hk
    rw [outcomeKind_redis_error] at hunspoiled
    exact hunspoiled (Outcome.ofError_eq_some.mpr ⟨hk.1, rfl⟩)

section

variable [Codec] {l : List (Proc RelaySig Nat ExecCall Job × List Outcome)}

/-- A counter is the sum of what the histories count. -/
theorem countP_eq_sum (hsound : ∀ ev ∈ s.world.log, ev.Sound)
    (hrec : Recorded executePool outcomeKind s.world l) {p : Event → Bool} {k : Outcome}
    (hp : ∀ ev : Event, ev.Sound →
      (p ev = true ↔ ev.actor ≠ .foreign ∧ outcomeKind ev.op ev.res = some k)) :
    s.world.log.countP p = (l.map fun x => x.2.count k).sum := by
  rw [← hrec.total k, World.count_history]
  refine List.countP_congr fun ev hev => ?_
  rw [hp ev (hsound ev hev)]
  simp

/-- So is one of what others do not do. -/
theorem countP_eq_sum_of_iff (hsound : ∀ ev ∈ s.world.log, ev.Sound)
    (hrec : Recorded executePool outcomeKind s.world l) {p : Event → Bool} {k : Outcome}
    (happended : k ≠ .appended)
    (hp : ∀ ev : Event, ev.Sound → (p ev = true ↔ outcomeKind ev.op ev.res = some k)) :
    s.world.log.countP p = (l.map fun x => x.2.count k).sum := by
  refine countP_eq_sum hsound hrec fun ev hev => ?_
  rw [hp ev hev]
  exact ⟨fun hk => ⟨hev.ne_foreign hk happended, hk⟩, And.right⟩

/-- **The calls of a run without cancellations that have all ended** made up its log, each with one of
the five histories. -/
theorem exists_histories {now : Nat} {ks : Redis.Keyspace Body} {db : Db}
    (hrun : Reaches executePool.step Uncancelled ⟨⟨now, ks, db, []⟩, []⟩ s)
    (hdone : ∀ p ∈ s.procs, p.outcome.isSome = true) :
    ∃ l, l.map Prod.fst = s.procs ∧ Recorded executePool outcomeKind s.world l ∧
      ∀ x ∈ l, x.2 ∈ Executor.histories := by
  have hsound := sound_log hrun
  have hnil : Recorded (executePool : PoolSpec relay ExecCall Job) outcomeKind ⟨now, ks, db, []⟩ [] :=
    ⟨by simp, by simp, fun _ => rfl⟩
  have hcode : ∀ c : ExecCall, (executePool.code c).wp (.recording outcomeKind)
      (fun _ m => .spoiled ∈ m ∨ m ∈ Executor.histories) [] := fun c =>
    Executor.leads_execute c.executor c.queue c.entryId c.job
  obtain ⟨l, hexpl, hrec⟩ := (recordRule named_executePool Uncancelled
    (fun _ _ m => .spoiled ∈ m ∨ m ∈ Executor.histories) hcode).run hrun (PoolRule.holds_nil hnil)
  refine ⟨l, hexpl.procs, hrec, fun x hx => ?_⟩
  obtain ⟨out, hout⟩ := Option.isSome_iff_exists.mp
    (hdone x.1 (hexpl.procs ▸ List.mem_map_of_mem hx))
  rcases hexpl.outcome hx hout with hspoiled | hm
  · -- what is in a history is in the log, where nothing is spoiled
    obtain ⟨n, hn⟩ := List.mem_iff_getElem?.mp hx
    rw [← hrec.own n x hn] at hspoiled
    obtain ⟨ev, hev, -, hk⟩ := World.mem_history.mp hspoiled
    exact absurd hk (hsound ev hev).unspoiled
  · exact hm

/-! ## What the histories say -/

open Outcome

omit [Codec] in
/-- Every history counts one attempt. -/
theorem count_attempt : ∀ m ∈ Executor.histories,
    m.count (attempt true) + m.count (attempt false) = 1 := by
  decide

omit [Codec] in
/-- It is a success exactly if the handler returned. -/
theorem count_attempt_eq : ∀ m ∈ Executor.histories, ∀ b : Bool,
    m.count (attempt b) = m.count (handled b) := by
  decide

omit [Codec] in
/-- No more dead letters are counted than were appended. -/
theorem count_dead_le : ∀ m ∈ Executor.histories, m.count dead ≤ m.count appended := by
  decide

omit [Codec] in
/-- As many are, exactly if each append was followed by an acknowledgement. -/
theorem count_dead_eq_iff : ∀ m ∈ Executor.histories,
    m.count dead = m.count appended ↔ (appended ∈ m → acked ∈ m) := by
  decide

omit [Codec] in
/-- All appends are answered exactly if as many are answered as are carried out. -/
theorem countP_answered_eq_iff {w : World} :
    w.log.countP (fun ev => ev.appends && ev.answered) = w.deadLettersAppended ↔
      ∀ ev ∈ w.log, ev.appends = true → ev.answered = true := by
  have hfilter : w.log.countP (fun ev => ev.appends && ev.answered) =
      (w.log.filter Event.appends).countP Event.answered := by
    rw [List.countP_filter]
    exact List.countP_congr fun ev _ => by rw [Bool.and_comm]
  rw [World.deadLettersAppended, List.countP_eq_length_filter (p := Event.appends), hfilter,
    List.countP_eq_length]
  simp only [List.mem_filter, and_imp]

/-- What it means for the histories that the dead letters are settled. -/
theorem deadLettersSettled_iff (hsound : ∀ ev ∈ s.world.log, ev.Sound)
    (hrec : Recorded executePool outcomeKind s.world l) :
    s.world.DeadLettersSettled ↔ (∀ ev ∈ s.world.log, ev.appends = true → ev.answered = true) ∧
      ∀ x ∈ l, appended ∈ x.2 → acked ∈ x.2 := by
  constructor
  · intro h
    refine ⟨fun ev hev happ => (h ev hev happ).1, fun x hx hmem => ?_⟩
    obtain ⟨n, hn⟩ := List.mem_iff_getElem?.mp hx
    rw [← hrec.own n x hn] at hmem ⊢
    obtain ⟨ev, hev, hactor, hk⟩ := World.mem_history.mp hmem
    rw [decide_eq_true_eq] at hactor
    have happ := (appends_answered_iff (hsound ev hev)).mpr
      ⟨hactor ▸ named_executePool.ne_foreign _ _, hk⟩
    obtain ⟨-, ev', hev', hsame, hack⟩ := h ev hev happ.1
    exact World.mem_history.mpr
      ⟨ev', hev', decide_eq_true (hsame.trans hactor), acknowledges_iff.mp hack⟩
  · rintro ⟨hans, hack⟩ ev hev happ
    refine ⟨hans ev hev happ, ?_⟩
    obtain ⟨hne, hk⟩ := (appends_answered_iff (hsound ev hev)).mp ⟨happ, hans ev hev happ⟩
    obtain ⟨n, x, hn, hactor⟩ := hrec.known ev hev hne
    have hmem : appended ∈ x.2 := by
      rw [← hrec.own n x hn]
      exact World.mem_history.mpr ⟨ev, hev, decide_eq_true hactor, hk⟩
    have hacked := hack x (List.mem_of_getElem? hn) hmem
    rw [← hrec.own n x hn] at hacked
    obtain ⟨ev', hev', hactor', hk'⟩ := World.mem_history.mp hacked
    rw [decide_eq_true_eq] at hactor'
    exact ⟨ev', hev', hactor'.trans hactor.symm, acknowledges_iff.mpr hk'⟩

omit [Codec] in
/-- As many dead letters are counted as appends are answered, exactly if this is so in each history. -/
theorem sum_dead_eq_iff (hm : ∀ x ∈ l, x.2 ∈ Executor.histories) :
    (l.map fun x => x.2.count dead).sum = (l.map fun x => x.2.count appended).sum ↔
      ∀ x ∈ l, appended ∈ x.2 → acked ∈ x.2 := by
  constructor
  · intro heq x hx
    refine (count_dead_eq_iff x.2 (hm x hx)).mp ?_
    by_contra hne
    have hlt := List.sum_lt_sum (fun x => x.2.count dead) (fun x => x.2.count appended)
      (fun y hy => count_dead_le y.2 (hm y hy))
      ⟨x, hx, lt_of_le_of_ne (count_dead_le x.2 (hm x hx)) hne⟩
    omega
  · intro h
    refine congrArg List.sum (List.map_congr_left fun x hx => ?_)
    exact (count_dead_eq_iff x.2 (hm x hx)).mpr (h x hx)

/-- **Outcome accounting.** In every run of concurrent executions without cancellations, whatever
fails, once all have ended there is one counted delivery attempt for each, a success exactly for those
whose handler returned; and there is one counted dead letter for each entry they appended exactly if
each of these appends was answered, and an acknowledgement after it too. -/
theorem outcomesAccounted_iff {now : Nat} {ks : Redis.Keyspace Body} {db : Db}
    (hrun : Reaches executePool.step Uncancelled ⟨⟨now, ks, db, []⟩, []⟩ s)
    (hdone : ∀ p ∈ s.procs, p.outcome.isSome = true) :
    OutcomesAccounted s ↔ s.world.DeadLettersSettled := by
  obtain ⟨l, hl, hrec, hm⟩ := exists_histories hrun hdone
  have hsound := sound_log hrun
  have hattempts : ∀ b, s.world.deliveryAttemptsTotal b = (l.map fun x => x.2.count (attempt b)).sum :=
    fun b => countP_eq_sum_of_iff hsound hrec nofun fun _ _ => countsAttempt_iff
  have hhandled : ∀ b, s.world.handlerRuns b = (l.map fun x => x.2.count (handled b)).sum :=
    fun b => countP_eq_sum_of_iff hsound hrec nofun fun _ hev => handles_iff hev.unspoiled
  have hdead : s.world.deadLetterTotal = (l.map fun x => x.2.count dead).sum :=
    countP_eq_sum_of_iff hsound hrec nofun fun _ _ => countsDeadLetter_iff
  have happended : s.world.log.countP (fun ev => ev.appends && ev.answered) =
      (l.map fun x => x.2.count appended).sum :=
    countP_eq_sum hsound hrec fun ev hev => by
      rw [Bool.and_eq_true]
      exact appends_answered_iff hev
  have hanswered : s.world.log.countP (fun ev => ev.appends && ev.answered) ≤
      s.world.deadLettersAppended :=
    List.countP_mono_left fun ev _ h => (Bool.and_eq_true _ _ ▸ h).1
  have hle : (l.map fun x => x.2.count dead).sum ≤ (l.map fun x => x.2.count appended).sum :=
    List.sum_le_sum fun x hx => count_dead_le x.2 (hm x hx)
  -- dead ≤ answered appends ≤ appends: the ends are equal exactly if both steps are
  rw [deadLettersSettled_iff hsound hrec, ← countP_answered_eq_iff, ← sum_dead_eq_iff hm]
  constructor
  · intro h
    have heq := h.dead
    omega
  · rintro ⟨hall, hacked⟩
    refine ⟨?_, ?_, ?_, by omega⟩
    · rw [hattempts true, hattempts false, ← List.sum_map_add, ← hl, List.length_map]
      rw [List.map_congr_left fun x hx => count_attempt x.2 (hm x hx)]
      simp
    · rw [hattempts true, hhandled true]
      exact congrArg List.sum (List.map_congr_left fun x hx => count_attempt_eq x.2 (hm x hx) true)
    · rw [hattempts false, hhandled false]
      exact congrArg List.sum (List.map_congr_left fun x hx => count_attempt_eq x.2 (hm x hx) false)

end

/-- The run of one dead letter is free of cancellations, if these answers are. -/
theorem uncancelled_deadRun {dlq : Answer} {rest : List Answer} (hdlq : dlq.cancels = false)
    (hrest : ∀ ans ∈ rest, ans.cancels = false) :
    ∀ lbl ∈ Sample.deadRun dlq rest, ∀ u, Uncancelled u lbl := by
  intro lbl hlbl u
  rcases List.mem_cons.mp hlbl with rfl | hlbl
  · trivial
  obtain ⟨ans, hans, rfl⟩ := List.mem_map.mp hlbl
  rcases List.mem_append.mp hans with hans | hans
  · simp only [List.mem_cons, List.not_mem_nil, or_false] at hans
    rcases hans with rfl | rfl | rfl | rfl | rfl | rfl | rfl
    all_goals first | rfl | exact hdlq
  · exact hrest ans hans

/-- One execution that is dead-lettered, everything answered: one attempt and one dead letter. -/
theorem outcomesAccounted_single : ∃ s : PoolState relay ExecCall Job,
    s.world.deliveryAttemptsTotal false = 1 ∧ s.world.deadLetterTotal = 1 ∧ OutcomesAccounted s := by
  have hrun : ∃ s : PoolState relay ExecCall Job,
      runSteps executePool.step ⟨⟨0, fun _ => .empty Body, Sample.outbox Sample.job, []⟩, []⟩
        (Sample.deadRun (.ok 0) [.ok 0, .ok 0, .ok 0]) = some s ∧
      s.procs.all (fun p => p.outcome.isSome) = true ∧
      decide s.world.DeadLettersSettled = true ∧ s.world.deliveryAttemptsTotal false = 1 ∧
      s.world.deadLetterTotal = 1 := ⟨_, rfl, rfl, rfl, rfl, rfl⟩
  obtain ⟨s, hs, hdone, hsettled, hattempts, hdead⟩ := hrun
  have hreach := (Reaches.of_runSteps (uncancelled_deadRun rfl (by decide)) hs).mono
    fun u l hl => hl u
  refine ⟨s, hattempts, hdead, ?_⟩
  exact (outcomesAccounted_iff hreach (List.all_eq_true.mp hdone)).mpr (of_decide_eq_true hsettled)

/-- **A dead letter that is not counted.** The append is answered, the acknowledgement after it fails:
the entry is in the dead-letter queue, and the counter of dead letters stays as it was. -/
theorem not_outcomesAccounted :
    ¬ ∀ (now : Nat) (ks : Redis.Keyspace Body) (db : Db) (s : PoolState relay ExecCall Job),
      Reaches executePool.step Uncancelled ⟨⟨now, ks, db, []⟩, []⟩ s →
      (∀ p ∈ s.procs, p.outcome.isSome = true) → OutcomesAccounted s := by
  intro h
  let lost : PyExc := .redisError "ConnectionError" "Connection lost"
  have hrun : ∃ s : PoolState relay ExecCall Job,
      runSteps executePool.step ⟨⟨0, fun _ => .empty Body, Sample.outbox Sample.job, []⟩, []⟩
        (Sample.deadRun (.ok 0) [.fail lost, .ok 0]) = some s ∧
      s.procs.all (fun p => p.outcome.isSome) = true ∧
      s.world.deadLettersAppended = 1 ∧ s.world.deadLetterTotal = 0 := ⟨_, rfl, rfl, rfl, rfl⟩
  obtain ⟨s, hs, hdone, happended, hdead⟩ := hrun
  have hreach := (Reaches.of_runSteps (uncancelled_deadRun rfl (by decide)) hs).mono
    fun u l hl => hl u
  have hcount := (h _ _ _ s hreach (List.all_eq_true.mp hdone)).dead
  rw [happended, hdead] at hcount
  cases hcount

end RelayQ

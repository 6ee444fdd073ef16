import RelayQ.Guarantees.OutcomeAccounting
import RelayQ.Guarantees.RetryBudget

/-! # The attempt count of the outbox

The attempts column of a job's row is to count the executions whose handler failed. But an execution
writes what its own job says: 0 when it begins, and 1 when it fails and is to be retried, since the job of
every delivery is decoded from the stream entry and has made no attempt.

* `Execution`, `Executions`: the completed executions of deliveries of an entry, with everything else that
  happens in between.
* `Executor.notes`, `Executor.leads_notes`: what an execution writes.
* `Executions.rows`: the row after each execution.
* `AttemptsCounted`, `attemptsCounted_iff`: when the column counts. -/

namespace RelayQ

/-! ## Executions of the deliveries of an entry -/

/-- The row with this id that the queries of a connection return. -/
def Db.row? (db : Db) (conn : Nat) (id : String) : Option Row :=
  (db.visible conn).find? fun row => row.id = id

/-- The row with this id is in the outbox, wherever a connection may write. -/
def Db.Stores (db : Db) (id : String) : Prop := db.Everywhere fun t => ∃ row ∈ t, row.id = id

/-- A store or transport call raised. -/
def Event.failed (ev : Event) : Bool :=
  match ev with
  | ⟨_, .redis _, _, _, .error _⟩ => true
  | ⟨_, .sql _, _, _, .error _⟩ => true
  | _ => false

/-- How many store and transport calls raised. -/
def World.failures (w : World) : Nat := w.log.countP Event.failed

/-- The answers of an execution whose handler fails, or does not. -/
def Ends (failed : Bool) : Op → Answer → Prop
  | .handler _ _, ans => ∃ run, ans = .ran run ∧ run.raised.isSome = failed
  | _, _ => True

/-- A completed execution: the connection of its store, whether its handler failed, and the world it
left. -/
structure Execution where
  site : Nat
  failed : Bool
  after : World

/-- The row of the job, as the execution's store returns it afterwards. -/
def Execution.row? (x : Execution) (id : String) : Option Row := x.after.db.row? x.site id

section

variable [Codec]

/-- **The completed executions of deliveries of an entry**, from a world on in which workers hold some
deliveries: in between anything may happen; reads may hand out more deliveries; and a worker may execute
one that it holds, with a store, all store and transport calls succeeding. -/
inductive Executions (t : RedisStreamTransport) (queue : String) (e : Redis.Entry Body) :
    World → List Delivery → List Execution → Prop
  | nil {w : World} {ds : List Delivery} : Executions t queue e w ds []
  | meanwhile {w w' : World} {ds : List Delivery} {xs : List Execution} : Meanwhile w w' →
      Executions t queue e w' ds xs → Executions t queue e w ds xs
  | read {w w' : World} {ds ds' : List Delivery} {xs : List Execution} (src : Source)
      (reader : RedisStreamTransport) (now : DateTime) (site : Nat) (a : Actor) :
      reader.streamPrefix = t.streamPrefix →
      relay.Runs Faultless site a w (src.read reader queue now) w' (.ok ds') →
      Executions t queue e w' (ds' ++ ds) xs → Executions t queue e w ds xs
  | execute {w w' : World} {ds : List Delivery} {xs : List Execution} {d : Delivery} {job left : Job}
      {failed : Bool} (x : Executor) (site : Nat) (a : Actor) :
      x.transport.streamPrefix = t.streamPrefix → x.store = true →
      d ∈ ds → d.entryId = e.id → d.job.typed? = some job →
      relay.Runs (Ends failed) site a w (x.execute queue d.entryId job) w' (.ok left) →
      w'.failures = w.failures →
      Executions t queue e w' ds xs → Executions t queue e w ds (⟨site, failed, w'⟩ :: xs)

end

/-- **The attempts column counts the failures**: after each execution it is the number of those whose
handler has failed so far; it never decreases; and it is `max_retries + 1` once the row is `DEAD`. -/
structure AttemptsCounted (j : Job) (xs : List Execution) : Prop where
  counts : ∀ (k : Nat) x, xs[k]? = some x → ∃ row, x.row? j.id = some row ∧
    row.attempts = (xs.take (k + 1)).countP Execution.failed
  monotone : ∀ (k l : Nat) x y row row', k ≤ l → xs[k]? = some x → xs[l]? = some y →
    x.row? j.id = some row → y.row? j.id = some row' → row.attempts ≤ row'.attempts
  dead : ∀ x ∈ xs, ∀ row, x.row? j.id = some row → row.status = .dead →
    row.attempts = j.maxRetries + 1

/-! ## The row stays -/

variable {id : String} {db : Db} {w w' : World}

/-- Statements take no row away. -/
theorem Db.Stores.run (h : db.Stores id) (conn : Nat) (s : Stmt) : (db.run conn s).1.Stores id := by
  cases s with
  | begin => exact h.begin
  | insert row =>
    refine (h.write fun t t' ⟨r, hr, hid⟩ hins => ?_).1
    obtain ⟨rfl, -⟩ := Outbox.insert_ok hins
    exact ⟨r, List.mem_append_left _ hr, hid⟩
  | update id' status attempt =>
    refine (h.write fun t t' ⟨r, hr, hid⟩ hup => ?_).1
    obtain rfl := Except.ok.inj hup
    refine ⟨_, List.mem_map_of_mem hr, ?_⟩
    split <;> exact hid
  | selectById _ | selectByKey _ => exact h.read
  | commit => exact h.commit
  | rollback => exact h.rollback

/-- Nor does an answered call. -/
theorem Db.Stores.exec (h : w.db.Stores id) {site : Nat} {a : Actor} {o : Op} {ans : Answer}
    {r : Except PyExc o.Res} (hx : w.exec site a o ans = some (w', r)) : w'.db.Stores id := by
  cases o with
  | redis c =>
    rcases World.exec_redis hx with ⟨n, -, rfl, -⟩ | ⟨e, -, -, -, rfl⟩ <;> exact h
  | sql s =>
    obtain ⟨-, ⟨hdb, -⟩ | ⟨hdb, -⟩⟩ := World.exec_sql_db hx
    · exact hdb ▸ h.run site s
    · exact hdb ▸ h
  | handler _ _ | monotonic | utcnow | metric _ | delay _ =>
    obtain ⟨applied, rfl⟩ := World.exec_local rfl hx
    exact h

/-- **Nor does anything else that may happen.** -/
theorem Meanwhile.stores (h : Meanwhile w w') (hw : w.db.Stores id) : w'.db.Stores id := by
  induction h with
  | refl => exact hw
  | tail _ hstep ih =>
    cases hstep with
    | idle => exact ih
    | crash site => exact ih.rollback
    | tick d => exact ih
    | call _ hx => exact ih.exec hx

/-! ## What an execution writes -/

/-- What the answered calls of an execution count as. -/
inductive Note
  /-- The row was updated. -/
  | wrote (status : JobStatus) (attempt : Option Int)
  /-- The handler ran; did it return? -/
  | handled (returned : Bool)
  /-- A store or transport call raised, or one that never does. -/
  | failed
  deriving DecidableEq

/-- What an answered call counts as, for the row with this id. -/
def noteKind (id : String) : EventKind Note
  | .sql (.update id' status attempt), .ok _ =>
    if id' = id then some (.wrote status attempt) else none
  | .sql _, .error _ => some .failed
  | .redis _, .error _ => some .failed
  | .metric _, .error _ => some .failed
  | .handler _ _, .ok run => some (.handled (HandlerRun.raised run).isNone)
  | _, _ => none

namespace Executor

open Note

variable {x : Executor} {queue : String} {entryId : Nat} {m : List Note}

/-- What an execution leaves, newest event first, if its handler returned or failed. -/
def notes (job : Job) (returned : Bool) : List Note :=
  let begun := [handled returned, wrote .processing (some job.attempts)]
  if returned then wrote .completed none :: begun
  else if ({ job with attempts := job.attempts + 1 } : Job).shouldDlq then wrote .dead none :: begun
  else wrote .failed (some (job.attempts + 1)) :: begun

/-- A status update writes. -/
theorem leads_noteStatus_wrote (hst : x.store = true) (status : JobStatus) (attempt : Option Int) :
    (x.noteStatus id status attempt).Leads (noteKind id) failed m fun _ m' =>
      m' = wrote status attempt :: m := by
  unfold noteStatus
  rw [if_pos hst]
  refine .logged (R := fun r m' => m' = wrote status attempt :: m ∧ ∃ a, r = .ok a)
    (.perform fun r => ?_) (fun _ _ h => h.1) fun e m' h => nomatch h.2.choose_spec
  cases r with
  | ok a => exact .inr ⟨by simp [noteKind], a, rfl⟩
  | error e => exact .inl rfl

/-- A Redis call that is answered leaves nothing. -/
theorem leads_redis_quiet (c : Redis.Cmd Body) : (perform (.redis c)).Leads (noteKind id) failed m
    fun r m' => m' = m ∧ ∃ a, r = .ok a := by
  refine .perform fun r => ?_
  cases r with
  | ok a => exact .inr ⟨rfl, a, rfl⟩
  | error e => exact .inl rfl

/-- A metric leaves nothing. -/
theorem leads_metric_quiet (mt : Metric) :
    (metric mt).Leads (noteKind id) failed m fun r m' => m' = m ∧ ∃ a, r = .ok a := by
  refine .perform fun r => ?_
  cases r with
  | ok a => exact .inr ⟨rfl, a, rfl⟩
  | error e => exact .inl rfl

/-- Measuring the time leaves nothing. -/
theorem leads_observeElapsed_quiet (kind : String) (start : Nat) :
    (observeElapsed kind start).Leads (noteKind id) failed m fun _ m' => m' = m := by
  refine .bind (R := fun _ m' => m' = m) (.perform fun r => .inr ?_) ?_ fun e m' h => h
  · cases r <;> rfl
  · rintro now m' rfl
    exact (leads_metric_quiet _).mono fun r m' h => h.1

/-- A success completes the row. -/
theorem leads_handleSuccess_notes (hst : x.store = true) (job : Job) :
    (x.handleSuccess queue entryId job).Leads (noteKind job.id) failed m fun _ m' =>
      m' = wrote .completed none :: m := by
  refine .bind (R := fun r m' => m' = m ∧ ∃ a, r = .ok a) ?_ ?_ fun e m' h => nomatch h.2.choose_spec
  · exact .logged (leads_redis_quiet _) (fun _ _ h => ⟨h.1, (), rfl⟩)
      fun e m' h => nomatch h.2.choose_spec
  · rintro u m' ⟨rfl, -⟩
    refine .bind (leads_noteStatus_wrote hst _ _) ?_ fun e m' h => h
    rintro u m' rfl
    refine .bind (leads_metric_quiet _) ?_ fun e m' h => h.1
    rintro u m' ⟨rfl, -⟩
    exact .ret rfl

end Executor

section

variable [Codec] {x : Executor} {queue : String} {entryId : Nat} {m : List Note}

open Executor Note

namespace Executor

/-- Dead-lettering leaves nothing. -/
theorem leads_deadLetter_quiet (job : Job) (why : String) :
    (x.deadLetter queue entryId job why).Leads (noteKind id) failed m fun _ m' => m' = m := by
  refine .logged (R := fun r m' => m' = m ∧ ∃ a, r = .ok a) ?_ (fun _ _ h => h.1)
    fun e m' h => nomatch h.2.choose_spec
  refine .bind (leads_redis_quiet _) ?_ fun e m' h => nomatch h.2.choose_spec
  rintro entry m' ⟨rfl, -⟩
  refine .bind (leads_redis_quiet _) ?_ fun e m' h => nomatch h.2.choose_spec
  rintro n m' ⟨rfl, -⟩
  exact leads_metric_quiet _

/-- A failure that ends in a job writes the row's status, and the attempts if it is to be retried. -/
theorem leads_handleFailure_notes (hst : x.store = true) (job : Job) (exc : PyExc) :
    (x.handleFailure queue entryId job exc).Leads (noteKind job.id) failed m fun r m' =>
      ∀ left, r = .ok left →
        m' = (if ({ job with attempts := job.attempts + 1 } : Job).shouldDlq then wrote .dead none
          else wrote .failed (some (job.attempts + 1))) :: m := by
  refine .bind (leads_metric_quiet _) ?_ fun e m' h => nomatch h.2.choose_spec
  rintro u m' ⟨rfl, -⟩
  dsimp only
  split
  · -- dead-lettered: the status is written, and the attempts stay as they are
    refine .bind (R := fun _ m'' => m'' = m') ?_ ?_ fun e m' _ left h => nomatch h
    · unfold reason
      split
      · exact .ret rfl
      · exact .raise rfl
    · rintro why m' rfl
      refine .bind (leads_deadLetter_quiet _ why) ?_ fun e m' _ left h => nomatch h
      rintro u m' rfl
      refine .bind (leads_noteStatus_wrote hst _ _) ?_ fun e m' _ left h => nomatch h
      rintro u m' rfl
      exact .ret fun _ _ => rfl
  · -- to be retried: the count of this job object is written
    refine .bind (R := fun _ m'' => m'' = m') (.perform fun r => .inr ?_) ?_
      fun e m' _ left h => nomatch h
    · cases r <;> rfl
    · rintro d m' rfl
      refine .bind (leads_noteStatus_wrote hst _ _) ?_ fun e m' _ left h => nomatch h
      rintro u m' rfl
      exact .ret fun _ _ => rfl

/-- **What a completed execution leaves.** -/
theorem leads_notes (hst : x.store = true) (job : Job) :
    (x.execute queue entryId job).Leads (noteKind job.id) failed [] fun r m' =>
      ∀ left, r = .ok left → ∃ returned, m' = notes job returned := by
  refine .bind (leads_noteStatus_wrote hst _ _) ?_ fun e m' _ left h => nomatch h
  rintro u m' rfl
  -- the row says what the entry says, whatever it said before
  refine .bind (R := fun _ m' => m' = [wrote .processing (some job.attempts)])
    (.perform fun r => .inr ?_) ?_ fun e m' _ left h => nomatch h
  · cases r <;> rfl
  rintro start m' rfl
  refine .bind (R := fun r m' => ∀ run, r = .ok run → m' =
      [handled (HandlerRun.raised run).isNone, wrote .processing (some job.attempts)])
    (.perform fun r => .inr ?_) ?_ fun e m' _ left h => nomatch h
  · rintro run rfl
    rfl
  intro run m' hm'
  obtain rfl := hm' run rfl
  dsimp only
  split
  · rename_i hr
    refine .bind (leads_observeElapsed_quiet _ _) ?_ fun e m' _ left h => nomatch h
    rintro u m' rfl
    refine (leads_handleSuccess_notes hst { job with payload := run.payload }).mono ?_
    rintro r m' rfl left -
    exact ⟨true, by simp [notes, hr]⟩
  · rename_i e hr
    split
    · refine .bind (leads_observeElapsed_quiet _ _) ?_ fun e m' _ left h => nomatch h
      rintro u m' rfl
      refine (leads_handleFailure_notes hst { job with payload := run.payload } _).mono ?_
      intro r m' hm' left hleft
      refine ⟨false, ?_⟩
      rw [hm' left hleft, notes, hr]
      by_cases hdlq : job.attempts + 1 > job.maxRetries <;> simp [Job.shouldDlq, hdlq]
    · exact .raise fun left h => nomatch h

end Executor

end

/-! ## What the writes make of the row -/

/-- The last status written to the row, and its last attempts, if any. -/
def Note.written : List Note → Option (JobStatus × Int)
  | [] => none
  | .wrote status (some n) :: _ => some (status, n)
  | .wrote status none :: m => (written m).map fun p => (status, p.2)
  | .handled _ :: m => written m
  | .failed :: m => written m

/-- The connection is writing, and in what it sees the row has this status and these attempts. -/
def Db.Wrote (db : Db) (site : Nat) (id : String) (status : JobStatus) (attempts : Int) : Prop :=
  ∃ t, db.Writing site t ∧ (∃ row ∈ t, row.id = id) ∧
    ∀ row ∈ t, row.id = id → row.status = status ∧ row.attempts = attempts

variable {site : Nat} {status : JobStatus} {attempts : Int}

/-- A connection that wrote the row returns it so. -/
theorem Db.Wrote.row? (h : db.Wrote site id status attempts) :
    ∃ row, db.row? site id = some row ∧ row.status = status ∧ row.attempts = attempts := by
  obtain ⟨t, ⟨-, v, htx⟩, ⟨row, hrow, hid⟩, hall⟩ := h
  have hvisible : db.visible site = t := by rw [Sqlite.Database.visible, htx]
  obtain ⟨found, hfound⟩ : ∃ found, t.find? (fun row => row.id = id) = some found := by
    rw [← Option.isSome_iff_exists, List.find?_isSome]
    exact ⟨row, hrow, decide_eq_true hid⟩
  refine ⟨found, by rw [Db.row?, hvisible, hfound], ?_⟩
  have hfoundId : found.id = id := by simpa using List.find?_some hfound
  exact hall found (List.mem_of_find?_eq_some hfound) hfoundId

/-- An update of the row that sets its attempts. -/
theorem Db.Stores.update (h : db.Stores id) {n : Int}
    (hok : (db.run site (.update id status (some n))).2 = .ok ()) :
    (db.run site (.update id status (some n))).1.Wrote site id status n := by
  have hkeep : ∀ t t', (∃ row ∈ t, row.id = id) →
      (.ok (Outbox.update id status (some n) t) : Except Violation Outbox) = .ok t' →
      ∃ row ∈ t', row.id = id := by
    rintro t t' ⟨row, hrow, hid⟩ hup
    obtain rfl := Except.ok.inj hup
    exact ⟨_, List.mem_map_of_mem hrow, by rw [if_pos hid]; exact hid⟩
  obtain ⟨t, t', ht, hup, hw⟩ := (h.write hkeep).2 hok
  refine ⟨t', hw, hkeep t t' ht hup, ?_⟩
  obtain rfl := Except.ok.inj hup
  intro row hrow hid
  obtain ⟨r, hr, rfl⟩ := List.mem_map.mp hrow
  split at hid
  · rename_i hrid
    rw [if_pos hrid]
    exact ⟨rfl, rfl⟩
  · rename_i hrid
    exact absurd hid hrid

/-- Another update on the same connection. -/
theorem Db.Wrote.update (h : db.Wrote site id status attempts) (id' : String) (status' : JobStatus)
    (attempt : Option Int) : (db.run site (.update id' status' attempt)).2 = .ok () ∧
    (db.run site (.update id' status' attempt)).1.Wrote site id (if id' = id then status' else status)
      (if id' = id then attempt.getD attempts else attempts) := by
  obtain ⟨t, hw, ⟨row, hrow, hid⟩, hall⟩ := h
  obtain ⟨db', -, -, ⟨t', hup, hw', hdb⟩ | ⟨e, he, -⟩⟩ :=
    hw.write (E := Violation) fun t => .ok (Outbox.update id' status' attempt t)
  swap
  · cases he
  obtain rfl := Except.ok.inj hup
  have hrun : db.run site (.update id' status' attempt) = (db', .ok ()) := hdb
  rw [hrun]
  refine ⟨rfl, _, hw', ⟨_, List.mem_map_of_mem hrow, by split <;> exact hid⟩, ?_⟩
  intro row' hrow' hid'
  obtain ⟨r, hr, rfl⟩ := List.mem_map.mp hrow'
  by_cases hrid : r.id = id'
  · rw [if_pos hrid] at hid' ⊢
    have hsame : id' = id := hrid.symm.trans hid'
    obtain ⟨-, hattempts⟩ := hall r hr hid'
    rw [if_pos hsame, if_pos hsame, ← hattempts]
    exact ⟨rfl, rfl⟩
  · rw [if_neg hrid] at hid' ⊢
    have hother : id' ≠ id := fun h => hrid (hid'.trans h.symm)
    rw [if_neg hother, if_neg hother]
    exact hall r hr hid'

/-- **The history of an execution is what it did to the row**, and its failures are in the log. -/
structure Follows (w₀ : World) (site : Nat) (id : String) (failed : Bool) (w : World)
    (m : List Note) : Prop where
  stores : w.db.Stores id
  written : ∀ p, Note.written m = some p → w.db.Wrote site id p.1 p.2
  handled : ∀ returned, .handled returned ∈ m → returned = !failed
  le_failures : w₀.failures ≤ w.failures
  lt_failures : .failed ∈ m → w₀.failures < w.failures

/-- The calls of an execution: its statements are updates. -/
def Updates (o : Op) : Prop := ∀ s, o = .sql s → ∃ id status attempt, s = .update id status attempt

variable {a : Actor} {ans : Answer} {failed : Bool} {w₀ : World} {m : List Note}

/-- Metrics do not fail. -/
theorem World.exec_metric {mt : Metric} {r : Except PyExc Unit}
    (hx : w.exec site a (.metric mt) ans = some (w', r)) : r = .ok () := by
  obtain ⟨y, hy, rfl, -⟩ := World.exec_eq_some.mp hx
  cases ans <;> cases hy
  rfl

/-- A call that counts as failed is recorded so. -/
theorem World.exec_failures {o : Op} {r : Except PyExc o.Res}
    (hx : w.exec site a o ans = some (w', r)) :
    w.failures ≤ w'.failures ∧ (noteKind id o r = some .failed → w.failures < w'.failures) := by
  obtain ⟨applied, evicted, hlog⟩ := World.exec_log hx
  unfold World.failures
  rw [hlog, List.countP_cons]
  refine ⟨Nat.le_add_right _ _, fun hk => ?_⟩
  cases o with
  | metric mt =>
    obtain rfl := World.exec_metric hx
    cases hk
  | redis c =>
    cases r with
    | ok v => cases hk
    | error e => simp [Event.failed]
  | sql s =>
    cases r with
    | ok v => cases s <;> simp [noteKind] at hk
    | error e => simp [Event.failed]
  | handler _ _ | monotonic | utcnow | delay _ => cases r <;> cases hk

/-- A call that is no update of the row is not written down as one. -/
theorem written_noteKind {o : Op} {r : Except PyExc o.Res} (ho : o.isStore = false) :
    Note.written ((noteKind id o r).toList ++ m) = Note.written m := by
  cases o with
  | sql s => cases ho
  | redis _ | handler _ _ | monotonic | utcnow | metric _ | delay _ => cases r <;> rfl

/-- An answered update is what its note says. -/
theorem Follows.update (h : Follows w₀ site id failed w m) {id' : String} {status : JobStatus}
    {attempt : Option Int} {r : Except PyExc Unit}
    (hx : w.exec site a (.sql (.update id' status attempt)) ans = some (w', r)) (p : JobStatus × Int)
    (hp : Note.written ((noteKind id (.sql (.update id' status attempt)) r).toList ++ m) = some p) :
    w'.db.Wrote site id p.1 p.2 := by
  obtain ⟨-, ⟨hdb, hr⟩ | ⟨hdb, e, -, rfl⟩⟩ := World.exec_sql_db hx
  swap
  · rw [hdb]
    exact h.written p hp
  rw [hdb]
  cases hres : (w.db.run site (.update id' status attempt)).2 with
  | error e =>
    -- a connection that has written the row does not fail
    obtain rfl : r = .error (.sqliteError e) := by rw [hr, hres]; rfl
    have hok := ((h.written p hp).update id' status attempt).1
    rw [hres] at hok
    cases hok
  | ok v =>
    obtain rfl : r = .ok v := by rw [hr, hres]; rfl
    by_cases hid : id' = id
    · subst hid
      rw [noteKind, if_pos rfl] at hp
      cases attempt with
      | some n =>
        obtain rfl := Option.some.inj hp
        exact h.stores.update hres
      | none =>
        obtain ⟨q, hq, rfl⟩ := Option.map_eq_some_iff.mp hp
        have hwrote := ((h.written q hq).update id' status none).2
        rwa [if_pos rfl, if_pos rfl] at hwrote
    · rw [noteKind, if_neg hid] at hp
      have hwrote := ((h.written p hp).update id' status attempt).2
      rwa [if_neg hid, if_neg hid] at hwrote

/-- **Step lemma**: an answered call of the execution. -/
theorem Follows.exec (h : Follows w₀ site id failed w m) {o : Op} {r : Except PyExc o.Res}
    (ho : Updates o) (hans : Ends failed o ans) (hx : w.exec site a o ans = some (w', r)) :
    Follows w₀ site id failed w' ((noteKind id o r).toList ++ m) := by
  have hfailures : w.failures ≤ w'.failures ∧
      (noteKind id o r = some .failed → w.failures < w'.failures) := World.exec_failures hx
  obtain ⟨hle, hlt⟩ := hfailures
  have hmem : ∀ k, k ∈ (noteKind id o r).toList ++ m → noteKind id o r = some k ∨ k ∈ m := by
    intro k hk
    rcases List.mem_append.mp hk with hk | hk
    · exact .inl (Option.mem_toList.mp hk)
    · exact .inr hk
  refine ⟨h.stores.exec hx, ?_, fun returned hret => ?_, h.le_failures.trans hle, fun hf => ?_⟩
  · -- the row
    by_cases hstore : o.isStore = true
    · obtain ⟨s, rfl⟩ : ∃ s, o = .sql s := by
        cases o <;> first | exact ⟨_, rfl⟩ | cases hstore
      obtain ⟨id', status, attempt, rfl⟩ := ho _ rfl
      exact h.update hx
    · rw [Bool.not_eq_true] at hstore
      rw [written_noteKind hstore, World.exec_db hstore hx]
      exact h.written
  · -- the handler
    rcases hmem _ hret with hk | hk
    · cases o with
      | handler job timeout =>
        obtain ⟨run, rfl, hrun⟩ := hans
        obtain ⟨y, hy, rfl, -⟩ := World.exec_eq_some.mp hx
        obtain rfl := Option.some.inj hy
        obtain rfl := Note.handled.inj (Option.some.inj hk)
        rw [← hrun]
        cases run.raised <;> rfl
      | sql s =>
        obtain ⟨id', status, attempt, rfl⟩ := ho _ rfl
        cases r with
        | ok v => simp [noteKind] at hk
        | error e => cases hk
      | redis _ | monotonic | utcnow | metric _ | delay _ => cases r <;> cases hk
    · exact h.handled returned hk
  · -- the failures
    rcases hmem _ hf with hk | hk
    · exact h.le_failures.trans_lt (hlt hk)
    · exact (h.lt_failures hk).trans_le hle

/-! ## The row after an execution -/

/-- Status and attempts of the row after an execution, if its handler failed or not. -/
def Job.writes (j : Job) (failed : Bool) : JobStatus × Int :=
  if failed then
    if ({ j with attempts := j.attempts + 1 } : Job).shouldDlq then (.dead, j.attempts)
    else (.failed, j.attempts + 1)
  else (.completed, j.attempts)

section

variable [Codec]

/-- The calls of an execution: updates, commands that create no group, and calls that leave both servers
alone. -/
theorem Executor.calls_execute_updates (x : Executor) (queue : String) (entryId : Nat) (job : Job) :
    (x.execute queue entryId job).Calls fun (o : Op) =>
      Updates o ∧ ∀ c, o = .redis c → c.fromStart := by
  refine .of_wp (x.wp_execute queue entryId {} job) fun ph o hg => ⟨?_, ?_⟩
  · rintro s rfl
    cases s with
    | update id status attempt => exact ⟨id, status, attempt, rfl⟩
    | begin | insert _ | selectById _ | selectByKey _ | commit | rollback => exact hg.elim
  · rintro c rfl
    cases c with
    | xgroupCreate _ _ _ => exact hg.elim
    | _ => trivial

/-- **What a completed execution makes of the row**, when all store and transport calls succeed. -/
theorem runs_execute_row {x : Executor} {queue : String} {entryId : Nat} {j left : Job}
    (hst : x.store = true) (hrow : w.db.Stores j.id)
    (h : relay.Runs (Ends failed) site a w (x.execute queue entryId j) w' (.ok left))
    (hok : w'.failures = w.failures) :
    ∃ row, w'.db.row? site j.id = some row ∧ row.status = (j.writes failed).1 ∧
      row.attempts = (j.writes failed).2 := by
  have hcalls : (x.execute queue entryId j).Calls Updates :=
    (x.calls_execute_updates queue entryId j).mono fun o ho => ho.1
  have hleads : (x.execute queue entryId j).Leads (noteKind j.id) .failed [] fun r m =>
      ∀ left, r = .ok left → ∃ returned, m = Executor.notes j returned :=
    Executor.leads_notes hst j
  have hinit : Follows w site j.id failed w [] :=
    ⟨hrow, by simp [Note.written], by simp, le_rfl, by simp⟩
  have hstep : ∀ {w₁ w₂ : World} {m : List Note} {o : Op} {ans : Answer} {r : Except PyExc o.Res},
      Follows w site j.id failed w₁ m → True ∧ Updates o → Ends failed o ans →
      w₁.exec site a o ans = some (w₂, r) →
      Follows w site j.id failed w₂ ((noteKind j.id o r).toList ++ m) :=
    fun hm hg hans hx => hm.exec hg.2 hans hx
  -- what the execution did to the row follows its history, call by call
  obtain ⟨m, hm, hends⟩ := h.sound hstep hinit (hcalls.wp hleads)
  rcases hends with hfail | hnotes
  · have hlt := hm.lt_failures hfail
    omega
  obtain ⟨returned, rfl⟩ := hnotes left rfl
  have hmem : .handled returned ∈ Executor.notes j returned := by
    unfold Executor.notes
    dsimp only
    split
    · simp
    · split <;> simp
  obtain rfl : returned = !failed := hm.handled returned hmem
  refine (hm.written (j.writes failed) ?_).row?
  cases failed with
  | false => rfl
  | true =>
    by_cases hdlq : j.attempts + 1 > j.maxRetries <;>
      simp [Executor.notes, Job.writes, Job.shouldDlq, hdlq, Note.written]

/-! ## Sequences of executions -/

variable {t : RedisStreamTransport} {queue : String} {e : Redis.Entry Body} {j : Job}
  {ds : List Delivery} {xs : List Execution}

/-- Reading calls Redis, and creates no group. -/
theorem Source.calls_read (src : Source) (reader : RedisStreamTransport) (queue : String)
    (now : DateTime) : (src.read reader queue now).Calls fun (o : Op) =>
      o.isStore = false ∧ ∀ c, o = .redis c → c.fromStart := by
  cases src with
  | group workerId count blockMs =>
    unfold Source.read RedisStreamTransport.readGroup
    dsimp only
    split
    · exact .raise _
    · refine .bind (.perform ⟨rfl, ?_⟩) fun _ => .ofExcept _
      rintro c ⟨⟩
      trivial
  | claim workerId minIdleMs count =>
    refine .bind (.perform ⟨rfl, ?_⟩) fun _ => .ofExcept _
    rintro c ⟨⟩
    trivial

/-- **Run lemma**: after each execution of a delivery of the entry, the job's row is what a first
execution makes of it, whatever came before. -/
theorem Executions.rows (h : Executions t queue e w ds xs) (hk : Keeps t queue e w)
    (hj : e.fields = RedisStreamTransport.jobBody j) (hrow : w.db.Stores j.id)
    (hds : ∀ d ∈ ds, d.entryId = e.id → d.job.typed? = some j) :
    ∀ x ∈ xs, ∃ row, x.row? j.id = some row ∧ row.status = (j.writes x.failed).1 ∧
      row.attempts = (j.writes x.failed).2 := by
  induction h with
  | nil => exact fun x hx => nomatch hx
  | meanwhile hmean _ ih => exact ih (hmean.keeps hk).1 (hmean.stores hrow) hds
  | read src reader now site a hreader hread _ ih =>
    have hmean := Meanwhile.of_runs ((src.calls_read reader _ now).mono fun o ho => ho.2) hread
    refine ih (hmean.keeps hk).1 (hmean.stores hrow) fun d hd hid => ?_
    rcases List.mem_append.mp hd with hd | hd
    · exact (runs_read hreader (fun _ _ hans => hans) hk hj hread hd hid).1
    · exact hds d hd hid
  | execute x site a hx hst hd hid hjob hexec hok _ ih =>
    obtain rfl := Option.some.inj (hjob.symm.trans (hds _ hd hid))
    have hmean := Meanwhile.of_runs
      ((x.calls_execute_updates _ _ _).mono fun o ho => ho.2) hexec
    -- the row may be anything before: the execution begins by writing it
    rw [List.forall_mem_cons]
    exact ⟨runs_execute_row hst hrow hexec hok, ih (hmean.keeps hk).1 (hmean.stores hrow) hds⟩

omit [Codec] in
/-- What an execution writes for a job that has made no attempt. -/
theorem Job.writes_of_attempts (h0 : j.attempts = 0) (failed : Bool) :
    (j.writes failed).2 = (if failed = true ∧ 1 ≤ j.maxRetries then 1 else 0) ∧
      ((j.writes failed).1 = .dead → failed = true ∧ ¬ 1 ≤ j.maxRetries) := by
  cases failed with
  | false => simp [writes, h0]
  | true =>
    by_cases hmax : 1 ≤ j.maxRetries
    · have hdlq : ¬ (j.maxRetries < 1) := not_lt.mpr hmax
      simp [writes, shouldDlq, h0, hmax, hdlq]
    · have hdlq : j.maxRetries < 1 := not_le.mp hmax
      simp [writes, shouldDlq, h0, hmax, hdlq]

omit [Codec] in
/-- One more execution. -/
theorem countP_take_add_one {k : Nat} {x : Execution} (hx : xs[k]? = some x) :
    (xs.take (k + 1)).countP Execution.failed =
      (xs.take k).countP Execution.failed + if x.failed then 1 else 0 := by
  rw [List.take_add_one, hx, List.countP_append, Option.toList_some, List.countP_singleton]

omit [Codec] in
/-- A column that tells no more than whether an execution has just failed within the budget counts the
failures, exactly if no execution but the last one fails, and this one within the budget. -/
theorem countP_failed_iff {within : Prop} [Decidable within] :
    (∀ (k : Nat) x, xs[k]? = some x → (if x.failed = true ∧ within then 1 else 0 : Int) =
      (xs.take (k + 1)).countP Execution.failed) ↔
    ∀ (k : Nat) x, xs[k]? = some x → x.failed = true → k + 1 = xs.length ∧ within := by
  constructor
  · intro hcount k x hx hf
    have hx' := hcount k x hx
    rw [countP_take_add_one hx, if_pos hf] at hx'
    have hwithin : within := by
      by_contra hno
      rw [if_neg fun h => hno h.2] at hx'
      omega
    refine ⟨?_, hwithin⟩
    -- another execution after this one writes 0 or 1, and is to write more
    by_contra hlast
    have hlt : k + 1 < xs.length := by
      have hk := (List.getElem?_eq_some_iff.mp hx).1
      omega
    obtain ⟨y, hy⟩ : ∃ y, xs[k + 1]? = some y := ⟨_, List.getElem?_eq_getElem hlt⟩
    have hy' := hcount (k + 1) y hy
    rw [countP_take_add_one hy, countP_take_add_one hx, if_pos hf] at hy'
    by_cases hyf : y.failed = true
    · rw [if_pos ⟨hyf, hwithin⟩, if_pos hyf] at hy'
      omega
    · rw [if_neg fun h => hyf h.1, if_neg hyf] at hy'
      omega
  · intro hlast k x hx
    -- no execution before this one fails, since none of them is the last
    have hnone : (xs.take k).countP Execution.failed = 0 := by
      refine List.countP_eq_zero.mpr fun y hy hyf => ?_
      obtain ⟨i, hi⟩ := List.mem_iff_getElem?.mp hy
      rw [List.getElem?_take] at hi
      obtain ⟨hik, hi⟩ := Option.ite_none_right_eq_some.mp hi
      have hi' := (hlast i y hi hyf).1
      have hk := (List.getElem?_eq_some_iff.mp hx).1
      omega
    rw [countP_take_add_one hx, hnone]
    by_cases hf : x.failed = true
    · rw [if_pos ⟨hf, (hlast k x hx hf).2⟩, if_pos hf]
      rfl
    · rw [if_neg fun h => hf h.1, if_neg hf]
      rfl

/-- **The column after each execution** of a job that was enqueued with no attempts made: 1 if its
handler has just failed within a budget of retries, and 0 otherwise. -/
theorem Executions.column (h : Executions t queue e w [] xs) (hwf : w.redis.Wf)
    (he : e ∈ (w.redis (t.streamKey queue)).entries)
    (hj : e.fields = RedisStreamTransport.jobBody j) (h0 : j.attempts = 0)
    (hrow : w.db.Stores j.id) (k : Nat) (x : Execution) (hx : xs[k]? = some x) :
    ∃ row, x.row? j.id = some row ∧
      row.attempts = (if x.failed = true ∧ 1 ≤ j.maxRetries then 1 else 0) ∧
      (row.status = .dead → x.failed = true ∧ ¬ 1 ≤ j.maxRetries) := by
  have hk : Keeps t queue e w := ⟨hwf, (hwf _).ids_le e he, fun e' he' hid =>
    (hwf _).eq_of_id_eq he' he hid⟩
  obtain ⟨row, hr, hstatus, hattempts⟩ := h.rows hk hj hrow (by simp) x (List.mem_of_getElem? hx)
  obtain ⟨hwrites, hdead⟩ := Job.writes_of_attempts h0 x.failed
  exact ⟨row, hr, hattempts.trans hwrites, fun hd => hdead (hstatus ▸ hd)⟩

/-- **When the attempts column counts the failures**: for a job that was enqueued with no attempts made,
exactly if no execution but the last one fails, and this one only within a budget of retries. -/
theorem attemptsCounted_iff (hwf : w.redis.Wf) (he : e ∈ (w.redis (t.streamKey queue)).entries)
    (hj : e.fields = RedisStreamTransport.jobBody j) (h0 : j.attempts = 0)
    (hrow : w.db.Stores j.id) (h : Executions t queue e w [] xs) :
    AttemptsCounted j xs ↔ ∀ (k : Nat) x, xs[k]? = some x → x.failed = true →
      k + 1 = xs.length ∧ 1 ≤ j.maxRetries := by
  have hcolumn := h.column hwf he hj h0 hrow
  constructor
  · intro hcounted
    refine countP_failed_iff.mp fun k x hx => ?_
    obtain ⟨row, hr, hattempts, -⟩ := hcolumn k x hx
    obtain ⟨row', hr', hcount⟩ := hcounted.counts k x hx
    obtain rfl := Option.some.inj (hr.symm.trans hr')
    rw [← hattempts, hcount]
  · intro hlast
    have hcounts : ∀ (k : Nat) x, xs[k]? = some x → ∃ row, x.row? j.id = some row ∧
        row.attempts = (xs.take (k + 1)).countP Execution.failed := by
      intro k x hx
      obtain ⟨row, hr, hattempts, -⟩ := hcolumn k x hx
      exact ⟨row, hr, hattempts.trans (countP_failed_iff.mpr hlast k x hx)⟩
    refine ⟨hcounts, fun k l x y row row' hkl hx hy hr hr' => ?_, fun x hx row hr hd => ?_⟩
    · obtain ⟨row₁, hr₁, hcount⟩ := hcounts k x hx
      obtain ⟨row₂, hr₂, hcount'⟩ := hcounts l y hy
      obtain rfl := Option.some.inj (hr.symm.trans hr₁)
      obtain rfl := Option.some.inj (hr'.symm.trans hr₂)
      have hle := (List.take_sublist_take_left (l := xs) (Nat.succ_le_succ hkl)).countP_le
        (p := Execution.failed)
      rw [hcount, hcount']
      exact_mod_cast hle
    · -- the job is not dead-lettered: its only failure is within the budget
      obtain ⟨k, hk⟩ := List.mem_iff_getElem?.mp hx
      obtain ⟨row₁, hr₁, -, hdead⟩ := hcolumn k x hk
      obtain rfl := Option.some.inj (hr.symm.trans hr₁)
      obtain ⟨hf, hmax⟩ := hdead hd
      exact absurd (hlast k x hk hf).2 hmax

/-! ## A job that fails twice -/

omit [Codec] in
/-- A program that makes no store call leaves the database alone. -/
theorem runs_db {α : Type} {P : Op → Answer → Prop} {p : Py α} {out : Except PyExc α}
    (hp : p.Calls fun (o : Op) => o.isStore = false) (h : relay.Runs P site a w p w' out) :
    w'.db = w.db := by
  obtain ⟨-, hdb, -⟩ := h.sound (R := fun (w₁ : World) (_ : Unit) => w₁.db = w.db)
    (fun hR hg _ hx => (World.exec_db hg hx).trans hR) rfl hp
  exact hdb

/-- The outbox after an execution of the job that fails. -/
def Sample.retried (db : Db) : Db :=
  ((db.run 0 (.update "job_1" .processing (some 0))).1.run 0 (.update "job_1" .failed (some 1))).1

/-- The executor of the job. -/
def Sample.executor : Executor := { transport := Sample.transport, store := true }

/-- The answers of an execution of the job that fails. -/
def Sample.failure : List Answer :=
  [.ok 0, .ok 0, .ran ⟨.empty, some (.other "ValueError" (some "boom"))⟩, .ok 0, .ok 0, .ok 0,
    .drawn 1, .ok 0]

omit [Codec] in
/-- Its handler fails. -/
theorem ends_failure {o : Op} (hans : ans ∈ Sample.failure) {r : Except PyExc o.Res}
    (hx : w.exec site a o ans = some (w', r)) : Ends true o ans := by
  cases o with
  | handler job timeout =>
    simp only [Sample.failure, List.mem_cons, List.not_mem_nil, or_false] at hans
    rcases hans with rfl | rfl | rfl | rfl | rfl | rfl | rfl | rfl
    case inr.inr.inl => exact ⟨_, rfl, rfl⟩
    all_goals cases hx
  | redis _ | sql _ | monotonic | utcnow | metric _ | delay _ => trivial

/-- An execution of the job that fails, with an outbox in which it has failed already or not. -/
theorem Sample.exists_failing (hdb : w.db = Sample.outbox Sample.job ∨
    w.db = Sample.retried (Sample.outbox Sample.job)) :
    ∃ w' left, relay.Runs (Ends true) 0 .foreign w
        (Sample.executor.execute "default" 1 Sample.job) w' (.ok left) ∧
      w'.failures = w.failures ∧ w'.redis = w.redis ∧ w'.db = Sample.retried w.db := by
  have hP : ∀ o, ∀ ans ∈ Sample.failure, ∀ w₁ w₂ r,
      relay.exec w₁ 0 .foreign o ans = some (w₂, r) → Ends true o ans :=
    fun o ans hans _ _ _ hx => ends_failure hans hx
  obtain ⟨now, ks, db, log⟩ := w
  rcases hdb with rfl | rfl
  · have hrun : ∃ w' left, relay.run 0 .foreign ⟨now, ks, Sample.outbox Sample.job, log⟩
        (Sample.executor.execute "default" 1 Sample.job) Sample.failure = some (w', .ok left) ∧
        w'.failures = log.countP Event.failed ∧ w'.redis = ks ∧
        w'.db = Sample.retried (Sample.outbox Sample.job) := ⟨_, _, rfl, rfl, rfl, rfl⟩
    obtain ⟨w', left, hrun, hrest⟩ := hrun
    exact ⟨w', left, .of_run_exec hP hrun, hrest⟩
  · have hrun : ∃ w' left, relay.run 0 .foreign
        ⟨now, ks, Sample.retried (Sample.outbox Sample.job), log⟩
        (Sample.executor.execute "default" 1 Sample.job) Sample.failure = some (w', .ok left) ∧
        w'.failures = log.countP Event.failed ∧ w'.redis = ks ∧
        w'.db = Sample.retried (Sample.retried (Sample.outbox Sample.job)) :=
      ⟨_, _, rfl, rfl, rfl, rfl⟩
    obtain ⟨w', left, hrun, hrest⟩ := hrun
    exact ⟨w', left, .of_run_exec hP hrun, hrest⟩

/-- The server with the job's entry, and the outbox with its row. -/
def Sample.enqueued : World :=
  { enqueuedWorld Sample.transport "default" Sample.job with db := Sample.outbox Sample.job }

/-- The stream holds the entry and the outbox the row. -/
theorem Sample.enqueued_spec : Sample.enqueued.redis.Wf ∧
    (⟨1, RedisStreamTransport.jobBody Sample.job⟩ : Redis.Entry Body) ∈
      (Sample.enqueued.redis (Sample.transport.streamKey "default")).entries ∧
    Sample.enqueued.db.Stores Sample.job.id ∧
    Alone Sample.transport "default" Sample.job [] Sample.enqueued := by
  obtain ⟨hwf, halone⟩ := enqueuedWorld_spec Sample.transport "default" Sample.job
  refine ⟨hwf, ?_, ⟨⟨_, List.mem_singleton_self _, rfl⟩, ?_, ?_⟩, halone.entries, halone.group⟩
  · change _ ∈ ((enqueuedWorld Sample.transport "default" Sample.job).redis _).entries
    rw [halone.entries]
    exact List.mem_singleton_self _
  · intro c t v hc
    cases hc
  · intro c t v hc
    cases hc

/-- The job is read and fails; it is claimed again, and fails again. -/
theorem Sample.exists_executions : ∃ x y : Execution, x.failed = true ∧ y.failed = true ∧
    Executions Sample.transport "default" ⟨1, RedisStreamTransport.jobBody Sample.job⟩
      Sample.enqueued [] [x] ∧
    Executions Sample.transport "default" ⟨1, RedisStreamTransport.jobBody Sample.job⟩
      Sample.enqueued [] [x, y] := by
  obtain ⟨-, -, -, halone⟩ := Sample.enqueued_spec
  obtain ⟨w₁, p, hread, hp, h₁⟩ := halone.read (P := Faultless) (fun _ => rfl) .epoch
  have hdb₁ : w₁.db = Sample.outbox Sample.job :=
    runs_db ((Source.calls_read ..).mono fun o ho => ho.1) hread
  obtain ⟨w₂, left, hexec, hok, hredis, hdb₂⟩ := Sample.exists_failing (.inl hdb₁)
  have h₂ : Alone Sample.transport "default" Sample.job [p] w₂ :=
    ⟨by rw [hredis, h₁.entries], by rw [hredis, h₁.group]⟩
  obtain ⟨w₃, p', hclaim, -, h₃⟩ := h₂.claim (P := Faultless) (fun _ => rfl) .epoch hp
  have hdb₃ : w₃.db = Sample.retried (Sample.outbox Sample.job) := by
    rw [← hdb₁, ← hdb₂]
    exact runs_db ((Source.calls_read ..).mono fun o ho => ho.1) hclaim
  obtain ⟨w₄, left', hexec', hok', -, -⟩ := Sample.exists_failing (.inr hdb₃)
  have htyped : (RawJob.ofJob Sample.job).typed? = some Sample.job := RawJob.typed?_ofJob _
  refine ⟨⟨0, true, w₂⟩, ⟨0, true, w₄⟩, rfl, rfl, ?_, ?_⟩
  · refine .read _ _ _ _ _ rfl hread ?_
    exact .execute Sample.executor 0 .foreign rfl rfl (List.mem_cons_self ..) rfl htyped hexec hok .nil
  · refine .read _ _ _ _ _ rfl hread ?_
    refine .execute Sample.executor 0 .foreign rfl rfl (List.mem_cons_self ..) rfl htyped hexec hok ?_
    refine .read _ _ _ _ _ rfl hclaim ?_
    exact .execute Sample.executor 0 .foreign rfl rfl (List.mem_cons_self ..) rfl htyped hexec' hok'
      .nil

end

/-- A job that fails once, within its budget: the column says 1. -/
theorem attemptsCounted_once : ∃ x : Execution, x.failed = true ∧
    AttemptsCounted Sample.job [x] := by
  obtain ⟨hwf, he, hrow, -⟩ := Sample.enqueued_spec
  obtain ⟨x, -, hx, -, hexec, -⟩ := Sample.exists_executions
  refine ⟨x, hx, (attemptsCounted_iff hwf he rfl rfl hrow hexec).mpr ?_⟩
  rintro k x' hx' -
  have hk : k < 1 := (List.getElem?_eq_some_iff.mp hx').1
  exact ⟨by simp only [List.length_singleton]; omega, by decide⟩

/-- **The column forgets**: a job that fails twice within its budget, and it says 1 after either. -/
theorem not_attemptsCounted :
    ¬ ∀ (t : RedisStreamTransport) (queue : String) (e : Redis.Entry Body) (w : World) (j : Job)
      (xs : List Execution), w.redis.Wf → e ∈ (w.redis (t.streamKey queue)).entries →
      e.fields = RedisStreamTransport.jobBody j → j.attempts = 0 → w.db.Stores j.id →
      Executions t queue e w [] xs → AttemptsCounted j xs := by
  intro h
  obtain ⟨hwf, he, hrow, -⟩ := Sample.enqueued_spec
  obtain ⟨x, y, hx, hy, -, hexec⟩ := Sample.exists_executions
  have hk : Keeps Sample.transport "default" ⟨1, RedisStreamTransport.jobBody Sample.job⟩
      Sample.enqueued := ⟨hwf, (hwf _).ids_le _ he, fun e' he' hid => (hwf _).eq_of_id_eq he' he hid⟩
  obtain ⟨row, hrow', -, hattempts⟩ := hexec.rows hk rfl hrow (by simp) y (by simp)
  obtain ⟨row', hrow'', hcount⟩ := (h _ _ _ _ _ _ hwf he rfl rfl hrow hexec).counts 1 y rfl
  obtain rfl := Option.some.inj (hrow'.symm.trans hrow'')
  rw [hattempts, hy] at hcount
  simp [hx, hy, Job.writes, Job.shouldDlq, Sample.job] at hcount

end RelayQ

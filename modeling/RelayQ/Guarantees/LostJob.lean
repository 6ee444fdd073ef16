import RelayQ.System.Committed

/-! # A job whose `enqueue` dies halfway is lost

With a store, `enqueue` commits its row and then appends its job. Nothing in the code ever reads the
outbox to append what is missing. A call that dies or fails between the two leaves its row behind, and
from then on the key of that row is taken: every later call with the key is turned away by the lookup
or by the index, so that nobody ever appends a job under that key.

* `Outbox.KeysIn`, `Db.KeysKept`: keys that are committed stay, and every transaction that can still
  write sees them.
* `Enqueuer.wp_enqueue_inserted`: the insert as a gate.
* `Sys.jobLost`: the guarantee. -/

namespace RelayQ

/-! ## Committed keys stay -/

namespace Outbox

/-- The key is that of a row of the table. -/
def HasKey (key : String) (t : Outbox) : Prop := ∃ row ∈ t, row.idempotencyKey = some key

/-- The keys of one table are keys of another. -/
def KeysIn (t t' : Outbox) : Prop := ∀ key, HasKey key t → HasKey key t'

variable {t t' : Outbox} {key : String}

/-- An insert keeps the keys. -/
theorem keysIn_insert {row : Row} (h : insert row t = .ok t') : KeysIn t t' := by
  obtain ⟨rfl, -⟩ := insert_ok h
  rintro key ⟨r, hr, hkey⟩
  exact ⟨r, List.mem_append_left _ hr, hkey⟩

/-- An update keeps the keys. -/
theorem keysIn_update (id : String) (status : JobStatus) (att : Option Int) :
    KeysIn t (update id status att t) := by
  rintro key ⟨r, hr, hkey⟩
  refine ⟨_, List.mem_map_of_mem hr, ?_⟩
  split
  · exact hkey
  · exact hkey

/-- Keys stay. -/
theorem respected_keysIn : Respected KeysIn where
  refl _ _ h := h
  trans _ _ _ h h' key hk := h' key (h key hk)
  insert _ _ _ hi := keysIn_insert hi
  update _ id status att := keysIn_update id status att

/-- A key is inserted once. -/
theorem insert_of_hasKey {row : Row} (h : HasKey key t) (hrow : row.idempotencyKey = some key) :
    insert row t ≠ .ok t' := by
  intro hins
  obtain ⟨r, hr, hkey⟩ := h
  obtain ⟨-, -, hnew⟩ := insert_ok hins
  exact hnew key hrow (List.mem_filterMap.mpr ⟨r, hr, hkey⟩)

end Outbox

namespace Db

/-- Every transaction that can still write sees the committed keys. -/
def KeysKept (db : Db) : Prop := db.Everywhere (Outbox.KeysIn db.committed)

variable {db : Db} {site : Nat}

/-- **A committed key is not inserted again.** -/
theorem KeysKept.insert_ne_ok (h : db.KeysKept) {key : String} (hkey : Outbox.HasKey key db.committed)
    {row : Row} (hrow : row.idempotencyKey = some key) : (db.run site (.insert row)).2 ≠ .ok () := by
  intro hok
  obtain ⟨t, t', ht, hins, -⟩ := (h.write fun t t' ht hi =>
    fun key hk => Outbox.keysIn_insert hi key (ht key hk)).2 hok
  exact Outbox.insert_of_hasKey (ht key hkey) hrow hins

end Db

/-! ## The insert is a gate -/

/-- The call appends to a stream, or inserts a row that is not that of this job. -/
def Op.passesInsert [Codec] (job : Job) : Op → Prop
  | .redis (.xadd _ _ _) => True
  | .sql (.insert row) => row ≠ .ofJob job
  | _ => False

/-- The call inserted a row. -/
def inserted : (o : Op) → Except PyExc o.Res → Bool
  | .sql (.insert _), .ok _ => true
  | _, _ => false

namespace Enqueuer

variable [Codec] {enq : Enqueuer}

/-- The outbox write of an enqueuer with a store inserts the row, or raises. -/
theorem wp_writeOutbox_inserted (hstore : enq.store = true) (job : Job) :
    (enq.writeOutbox job).wp (.gate (Op.passesInsert job) inserted)
      (fun r b => r = .ok () → b = true) false := by
  rw [writeOutbox, if_pos hstore]
  refine Prog.wp_perform_bind (fun h => h.elim) (fun _ => ?_) fun e he => by cases he
  refine (Prog.wp_tryExcept _ _).mpr (Prog.wp_perform_bind (fun h => absurd rfl h) (fun _ => ?_) ?_)
  · -- past the insert the gate is open
    refine Prog.wp_mono (Q := fun _ b => b = true) _ (fun r b hb => ?_) (Prog.wp_gate_open _ _ _)
    obtain rfl := hb
    cases r with
    | ok u => exact fun _ => rfl
    | error e => exact Prog.wp_mono _ (fun _ _ hb _ => hb) (Prog.wp_gate_open _ _ _)
  · intro e
    dsimp only
    split
    · exact Prog.wp_perform_bind (fun h => h.elim) (fun _ he => by cases he) fun e he => by cases he
    · exact fun he => by cases he

/-- **With a store a call of `enqueue` inserts its own row**, and appends, or returns, only after
that. -/
theorem wp_enqueue_inserted (hstore : enq.store = true) (a : EnqueueArgs) :
    (enq.enqueue a).wp (.gate (Op.passesInsert a.keyedJob) inserted)
      (fun r b => (∃ id, r = .ok id) → b = true) false := by
  have herror : ∀ (e : PyExc) (b : Bool), (∃ id : Nat, Except.error e = .ok id) → b = true := by
    rintro e b ⟨id, h⟩
    cases h
  unfold enqueue
  split
  · exact herror _ _
  · refine Prog.wp_perform_bind (fun h => h.elim) (fun depth => ?_) fun e => herror e _
    dsimp only
    split
    · exact herror _ _
    · refine Prog.wp_bind_of (R := fun _ b => b = false) (Prog.Calls.gate (calls_lookup
        (fun _ => ⟨fun h => h, fun _ => rfl⟩) ⟨fun h => h, fun _ => rfl⟩ a.key?) _)
        (fun _ b hb => ?_) fun e b _ => herror e b
      obtain rfl := hb
      refine Prog.wp_bind_of (wp_writeOutbox_inserted hstore _) (fun _ b hb => ?_)
        fun e b _ => herror e b
      obtain rfl := hb rfl
      exact Prog.wp_mono _ (fun _ _ hb _ => hb) (Prog.wp_gate_open _ _ _)

end Enqueuer

namespace Sys

variable [Codec] {t : RedisStreamTransport} {s s₁ s' : Sys} {l : SysLabel} {key : String}

/-! ## The guarantee -/

/-- A call of `enqueue` with a store whose row carries the key. -/
def Claims (key : String) (c : EnqueueCall) : Prop :=
  c.enqueuer.store = true ∧ c.args.keyedJob.idempotencyKey = some key

/-- What holds from a state on in which the key is committed and the calls that carry it are over. -/
structure Taken (key : String) (s₁ s : Sys) : Prop where
  grown : s₁.pool.procs.length ≤ s.pool.procs.length
  kept : s.world.db.KeysKept
  row : Outbox.HasKey key s.world.db.committed
  ended : ∀ (n : Nat) (c : Proc RelaySig Nat EnqueueCall Nat), n < s₁.pool.procs.length →
    s.pool.procs[n]? = some c → Claims key c.info → c.running = false
  shut : s.Shut s₁.pool.procs.length (Claims key) (fun c => Op.passesInsert c.args.keyedJob)
    fun _ => inserted
  record : ∃ new, s.world.log = new ++ s₁.world.log ∧ ∀ ev ∈ new, ∀ n,
    n < s₁.pool.procs.length → ev.actor = .enqueuer n →
      ∃ c, s.pool.procs[n]? = some c ∧ ¬ Claims key c.info

/-- A call that carries a committed key does not insert its row. -/
theorem not_inserted {w w' : World} (hkept : w.db.KeysKept) (hrow : Outbox.HasKey key w.db.committed)
    {job : Job} (hjob : job.idempotencyKey = some key) {site : Nat} {a : Actor} {o : Op}
    {ans : Answer} {r : Except PyExc o.Res} (ho : ¬ Op.passesInsert job o)
    (hx : w.exec site a o ans = some (w', r)) : inserted o r = false := by
  by_cases hins : ∃ row, o = .sql (.insert row)
  swap
  · unfold inserted
    split
    · exact absurd ⟨_, rfl⟩ hins
    · rfl
  obtain ⟨row, rfl⟩ := hins
  obtain rfl : row = .ofJob job := not_not.mp ho
  cases r with
  | error e => rfl
  | ok u =>
    have hne : (w.db.run site (.insert (.ofJob job))).2 ≠ .ok () := hkept.insert_ne_ok hrow hjob
    refine absurd ?_ hne
    rcases (World.exec_sql_db hx).2 with ⟨-, hr⟩ | ⟨-, e, -, hr⟩
    · cases hres : (w.db.run site (.insert (.ofJob job))).2 with
      | ok u => rfl
      | error e =>
        rw [hres] at hr
        cases hr
    · cases hr

/-- **The key stays taken.** -/
theorem Taken.step (h : Taken key s₁ s) (hwired : s.Wired t) (hs : s.step l = some s') :
    Taken key s₁ s' := by
  obtain ⟨hkept, hkeys⟩ := kept_of_step Outbox.respected_keysIn hwired h.kept hs
  obtain ⟨new, hlog, hnew⟩ := h.record
  refine ⟨?_, hkept, hkeys key h.row, fun n c' hn hc' hclaims => ?_, h.shut.step hwired
    (fun c hclaims => Enqueuer.wp_enqueue_inserted hclaims.1 c.args)
    (fun p _ hclaims _ _ _ _ ho hx => not_inserted h.kept h.row hclaims.2 ho hx) hs, ?_⟩
  · obtain ⟨more, hmore⟩ := infos_of_step hs
    have hlen := congrArg List.length hmore
    simp only [List.length_append, List.length_map] at hlen
    exact h.grown.trans (by omega)
  · have hlt := hn.trans_le h.grown
    obtain ⟨c'', hc'', hinfo⟩ := procs_of_step hs (List.getElem?_eq_getElem hlt)
    obtain rfl := Option.some.inj (hc'.symm.trans hc'')
    exact over_of_step hs (List.getElem?_eq_getElem hlt)
      (h.ended n _ hn (List.getElem?_eq_getElem hlt) (hinfo ▸ hclaims)) hc'
  · -- an earlier call that makes one more call does not carry the key
    have hold : ∀ ev ∈ new, ∀ n, n < s₁.pool.procs.length → ev.actor = .enqueuer n →
        ∃ c, s'.pool.procs[n]? = some c ∧ ¬ Claims key c.info := fun ev hev n hn ha => by
      obtain ⟨c, hc, hno⟩ := hnew ev hev n hn ha
      obtain ⟨c', hc', hinfo⟩ := procs_of_step hs hc
      exact ⟨c', hc', hinfo ▸ hno⟩
    rcases step_called hwired hs with ⟨hlog', -⟩ | ⟨site, a, o, ans, r, hcalled, hx⟩
    · exact ⟨new, hlog'.trans hlog, hold⟩
    · obtain ⟨applied, evicted, hlog'⟩ := World.exec_log hx
      refine ⟨⟨a, o, applied, evicted, r⟩ :: new, by rw [hlog', hlog]; rfl, fun ev hev n hn ha => ?_⟩
      rcases List.mem_cons.mp hev with rfl | hev
      · cases hcalled with
        | @enqueue n' c ph _ k hc hprog _ =>
          obtain rfl := Actor.enqueuer.inj ha
          obtain ⟨c', hc', hinfo⟩ := procs_of_step hs hc
          refine ⟨c', hc', fun hclaims => ?_⟩
          have hover := h.ended _ c hn hc (hinfo ▸ hclaims)
          simp [Proc.running, hprog] at hover
        | task _ _ => cases ha
        | reader _ hactor _ _ _ => rcases hactor with rfl | rfl <;> cases ha
        | foreign _ _ => cases ha
      · exact hold ev hev n hn ha

/-- **A job whose `enqueue` dies halfway is lost.** From a state on in which a row with the key is
committed and no call with a store that carries the key is in progress, whatever the workers and other
callers do, the row stays, no such call appends to a stream, and none that starts from then on
returns. -/
theorem jobLost (hrun : Run t init s) (hrow : Outbox.HasKey key s.world.db.committed)
    (hover : ∀ c ∈ s.pool.procs, Claims key c.info → c.running = false) (h : Run t s s') :
    Outbox.HasKey key s'.world.db.committed ∧
    (∃ new, s'.world.log = new ++ s.world.log ∧ ∀ ev ∈ new, ∀ n c, ev.actor = .enqueuer n →
      s'.pool.procs[n]? = some c → Claims key c.info → ev.op.isAppend = false) ∧
    ∀ n c, s.pool.procs.length ≤ n → s'.pool.procs[n]? = some c → Claims key c.info →
      ∀ v, c.outcome ≠ some (.ok v) := by
  obtain ⟨-, htaken⟩ : s'.Wired t ∧ Taken key s s' :=
    Reaches.invariant (P := fun u : Sys => u.Wired t ∧ Taken key s u)
      (fun _ _ _ hu hl hs => ⟨hu.1.step hl hs, hu.2.step hu.1 hs⟩) h ⟨hrun.wired wired_init,
        le_rfl, hrun.kept Outbox.respected_keysIn, hrow,
        fun _ c _ hc => hover c (List.mem_of_getElem? hc), hrun.known.shut,
        [], rfl, fun _ hev => by cases hev⟩
  obtain ⟨new, hlog, hnew⟩ := htaken.record
  refine ⟨htaken.row, ⟨new, hlog, fun ev hev n c ha hc hclaims => ?_⟩,
    fun n c hn hc hclaims => (htaken.shut.outcome hn hc hclaims).1⟩
  rcases Nat.lt_or_ge n s.pool.procs.length with hn | hn
  · obtain ⟨c', hc', hno⟩ := hnew ev hev n hn ha
    obtain rfl := Option.some.inj (hc.symm.trans hc')
    exact absurd hclaims hno
  · have hpass := (htaken.shut.outcome hn hc hclaims).2 ev (hlog ▸ List.mem_append_left _ hev) ha
    cases happend : ev.op.isAppend with
    | false => rfl
    | true =>
      refine absurd ?_ hpass
      unfold Op.isAppend at happend
      split at happend
      · rename_i hop
        rw [hop]
        trivial
      · cases happend

end Sys

/-- A call dies between its commit and its append: the next call with its key is turned away, and the
stream stays empty. -/
theorem Sys.jobLost_crashed : ∃ (s : Sys) (c : Proc RelaySig Nat EnqueueCall Nat),
    Sys.Run Sample.transport Sys.init s ∧ Outbox.HasKey "order-1" s.world.db.committed ∧
      (s.world.redis (Sample.transport.streamKey "default")).entries = [] ∧
      s.pool.procs[1]? = some c ∧ Sys.Claims "order-1" c.info ∧ ∀ v, c.outcome ≠ some (.ok v) := by
  let enq : Enqueuer := { transport := Sample.transport, store := true }
  let call : EnqueueCall := ⟨enq, { job := Sample.job, idempotencyKey := "order-1" }⟩
  let again : EnqueueCall :=
    ⟨enq, { job := { Sample.job with id := "job_2" }, idempotencyKey := "order-1" }⟩
  -- the depth is read, the key looked up, the row inserted and committed; then the site is lost, and
  -- the second call finds the row
  obtain ⟨s, s', c, hrun, hrow, hprocs, hrun', hempty, hprocs', hclaims⟩ : ∃ (s s' : Sys)
      (c : Proc RelaySig Nat EnqueueCall Nat), Sys.Run Sample.transport Sys.init s ∧
      Outbox.HasKey "order-1" s.world.db.committed ∧ s.pool.procs = [⟨call, 0, none⟩] ∧
      Sys.Run Sample.transport s s' ∧
      (s'.world.redis (Sample.transport.streamKey "default")).entries = [] ∧
      s'.pool.procs = [⟨call, 0, none⟩, c] ∧ Sys.Claims "order-1" c.info :=
    ⟨_, _, _, .tail (l := .pool (.crash 0)) (.tail (l := .pool (.answer 0 (.ok 0)))
      (.tail (l := .pool (.answer 0 (.ok 0))) (.tail (l := .pool (.answer 0 (.ok 0)))
        (.tail (l := .pool (.answer 0 (.ok 0))) (.tail (l := .pool (.answer 0 (.ok 0)))
          (.single (s := Sys.init) (l := .pool (.start call 0)) rfl rfl) trivial rfl) trivial rfl)
          trivial rfl) trivial rfl) trivial rfl) trivial rfl,
      ⟨_, List.mem_cons_self, rfl⟩, rfl,
      .tail (l := .pool (.answer 1 (.ok 0))) (.tail (l := .pool (.answer 1 (.ok 0)))
        (.single (l := .pool (.start again 1)) rfl rfl) trivial rfl) trivial rfl, rfl, rfl, rfl, rfl⟩
  have hover : ∀ c ∈ s.pool.procs, Sys.Claims "order-1" c.info → c.running = false :=
    fun c hc _ => by
      rw [hprocs] at hc
      obtain rfl := List.mem_singleton.mp hc
      rfl
  obtain ⟨hrow', -, hout⟩ := Sys.jobLost hrun hrow hover hrun'
  have hc : s'.pool.procs[1]? = some c := by
    rw [hprocs']
    rfl
  exact ⟨s', c, hrun.trans hrun', hrow', hempty, hc, hclaims,
    hout 1 c (by rw [hprocs]; exact le_rfl) hc hclaims⟩

end RelayQ

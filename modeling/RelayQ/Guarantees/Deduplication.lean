import RelayQ.Api.Endpoint

/-! # Deduplication at the API

The process has no store behind its enqueuer, so nothing looks a key up and no index refuses it.
Requests that carry a key of their own are deduplicated because each adds at most one entry; a key
that comes back after a request that was let through is served once more.

* `Deduplicated`: what is asked of a state, `Deduplicates`: of every run over given requests.
* `DedupInv`, `dedupRule`: every entry with a key belongs to one request, which carries it.
* `deduplicates_of_fresh`, `not_deduplicates`: when it holds, and why it fails otherwise. -/

namespace RelayQ

section

variable [Codec]

/-! ## What is asked -/

/-- The call added an entry for a job with this idempotency key. -/
def Event.Adds (ev : Event) (key : String) : Prop :=
  ev.applied = true ∧ ∃ k j lim, ev.op = .redis (.xadd k (RedisStreamTransport.jobBody j) lim) ∧
    j.idempotencyKey = some key

/-- The request carries the key and was answered with 201. -/
def Accepted (p : Proc RelaySig Nat Arrival Response) (key : String) : Prop :=
  p.info.request.idempotencyKey = some key ∧
    ∃ resp, p.outcome = some (.ok resp) ∧ resp.status = 201

/-- Requests only; any call may fail, any process may die. -/
def ApiLoad : PoolState relay Arrival Response → PoolLabel relay Arrival → Prop
  | _, .env (.foreign _ _) => False
  | _, _ => True

/-- Every key has at most one entry and at most one 201, and whatever request carries a key after
its 201 is answered 409 and adds nothing. `t` is what the run comes to later. -/
structure Deduplicated (s t : PoolState relay Arrival Response) : Prop where
  entries : s.world.log.Pairwise fun ev ev' => ∀ key, ev.Adds key → ¬ ev'.Adds key
  accepted : s.procs.Pairwise fun p q => ∀ key, Accepted p key → ¬ Accepted q key
  rejected : ∀ p ∈ s.procs, ∀ key, Accepted p key → ∀ j q, s.procs.length ≤ j →
    t.procs[j]? = some q → q.info.request.idempotencyKey = some key →
    (∀ out, q.outcome = some out → ∃ resp, out = .ok resp ∧ resp.status = 409) ∧
    ∀ ev ∈ t.world.log, ev.actor = .api j → ∀ key, ¬ ev.Adds key

/-- The process as it starts up deduplicates, however these requests are interleaved. -/
def Deduplicates (arrivals : List Arrival) : Prop :=
  ∀ (site : Nat) (a : Actor) (w₀ : World) (app : Api),
    relay.Runs (fun _ _ => True) site a .init Api.lifespan w₀ (.ok app) →
    ∀ s t, Reaches (apiPool app).step ApiLoad ⟨w₀, []⟩ s → Reaches (apiPool app).step ApiLoad s t →
      t.procs.map Proc.info <+: arrivals → Deduplicated s t

/-- No request that is let through carries a key that a later one carries. -/
def FreshKeys (arrivals : List Arrival) : Prop :=
  arrivals.Pairwise fun r r' => ∀ key, r.admitted = true → r.request.idempotencyKey = some key →
    r'.request.idempotencyKey ≠ some key

/-! ## The invariant -/

/-- A request with the phase of its monitor. -/
abbrev Request : Type := Proc RelaySig Nat Arrival Response × Enqueuer.Phase

/-- Entries with a key belong to the requests. -/
structure DedupInv (w : World) (l : List Request) : Prop where
  /-- Such an entry was added by a request that was let through, carries the key, and has nothing
  left to add. -/
  origin : ∀ ev ∈ w.log, ∀ key, ev.Adds key → ∃ n p, ev.actor = .api n ∧
    l[n]? = some (p, .closed) ∧ p.info.admitted = true ∧ p.info.request.idempotencyKey = some key
  /-- No request adds two. -/
  once : w.log.Pairwise fun ev ev' => ∀ key key', ev.Adds key → ev'.Adds key' →
    ev.actor ≠ ev'.actor

variable {w w' : World} {l : List Request}

/-- What was said of the closed requests is said of them when one request moves on. -/
theorem closed_set {i n : Nat} {p p' q : Proc RelaySig Nat Arrival Response}
    {ph ph' : Enqueuer.Phase} (hi : l[i]? = some (p, ph)) (hq : q.info = p.info)
    (hclosed : ph = .closed → ph' = .closed) (hn : l[n]? = some (p', .closed)) :
    ∃ p'', (l.set i (q, ph'))[n]? = some (p'', .closed) ∧ p''.info = p'.info := by
  by_cases hin : i = n
  · subst hin
    rw [hi] at hn
    obtain ⟨rfl, rfl⟩ := Prod.mk.inj (Option.some.inj hn)
    have hlt : i < l.length := (List.getElem?_eq_some_iff.mp hi).1
    exact ⟨q, by simp [hlt, hclosed rfl], hq⟩
  · exact ⟨p', by simp [hin, hn], rfl⟩

/-- The invariant after a call that adds nothing. -/
theorem DedupInv.quiet (h : DedupInv w l) {i : Nat} {p q : Proc RelaySig Nat Arrival Response}
    {ph ph' : Enqueuer.Phase} {ev : Event} (hi : l[i]? = some (p, ph)) (hq : q.info = p.info)
    (hclosed : ph = .closed → ph' = .closed) (hlog : w'.log = ev :: w.log)
    (hev : ∀ key, ¬ ev.Adds key) : DedupInv w' (l.set i (q, ph')) := by
  refine ⟨fun ev' hev' key hadds => ?_, ?_⟩
  · rw [hlog] at hev'
    rcases List.mem_cons.mp hev' with rfl | hev'
    · exact absurd hadds (hev key)
    · obtain ⟨n, p', hact, hn, hadm, hkey⟩ := h.origin ev' hev' key hadds
      obtain ⟨p'', hn', hinfo⟩ := closed_set hi hq hclosed hn
      exact ⟨n, p'', hact, hn', hinfo ▸ hadm, hinfo ▸ hkey⟩
  · rw [hlog]
    exact List.pairwise_cons.mpr ⟨fun _ _ key _ hadds => absurd hadds (hev key), h.once⟩

/-- The invariant after the `XADD` of a request. -/
theorem DedupInv.append (h : DedupInv w l) {i : Nat} {p q : Proc RelaySig Nat Arrival Response}
    {ph : Enqueuer.Phase} {ev : Event} (hi : l[i]? = some (p, ph)) (hq : q.info = p.info)
    (hopen : ph ≠ .closed) (hlog : w'.log = ev :: w.log) (hact : ev.actor = .api i)
    (hadm : p.info.admitted = true)
    (hev : ∀ key, ev.Adds key → p.info.request.idempotencyKey = some key) :
    DedupInv w' (l.set i (q, .closed)) := by
  have hlt : i < l.length := (List.getElem?_eq_some_iff.mp hi).1
  refine ⟨fun ev' hev' key hadds => ?_, ?_⟩
  · rw [hlog] at hev'
    rcases List.mem_cons.mp hev' with rfl | hev'
    · exact ⟨i, q, hact, by simp [hlt], hq ▸ hadm, hq ▸ hev key hadds⟩
    · obtain ⟨n, p', hact', hn, hadm', hkey⟩ := h.origin ev' hev' key hadds
      obtain ⟨p'', hn', hinfo⟩ := closed_set hi hq (fun _ => rfl) hn
      exact ⟨n, p'', hact', hn', hinfo ▸ hadm', hinfo ▸ hkey⟩
  · rw [hlog]
    refine List.pairwise_cons.mpr ⟨fun ev' hev' key key' _ hadds' heq => ?_, h.once⟩
    -- an earlier entry of the same request would have closed it
    obtain ⟨n, p', hact', hn, -, -⟩ := h.origin ev' hev' key' hadds'
    obtain rfl : i = n := by
      rw [hact, hact'] at heq
      exact Actor.api.inj heq
    rw [hi] at hn
    exact hopen (Prod.mk.inj (Option.some.inj hn)).2

/-- **The invariant is kept by every answer.** -/
theorem DedupInv.answer {enqueuer : Enqueuer} (h : DedupInv w l) {i : Nat}
    {p q : Proc RelaySig Nat Arrival Response} {ph : Enqueuer.Phase} {o : Op} {ans : Answer}
    {r : Except PyExc o.Res} (hi : l[i]? = some (p, ph)) (hq : q.info = p.info)
    (hg : (p.info.monitor enqueuer).guard ph o)
    (hx : w.exec p.site (.api i) o ans = some (w', r)) :
    DedupInv w' (l.set i (q, (p.info.monitor enqueuer).next ph o r)) := by
  obtain ⟨hadm, hg⟩ := hg
  obtain ⟨applied, evicted, hlog⟩ := World.exec_log hx
  by_cases hadd : ∃ k body lim, o = .redis (.xadd k body lim)
  · obtain ⟨k, body, lim, rfl⟩ := hadd
    obtain ⟨hph, -, rfl, -⟩ := hg
    refine h.append hi hq ?_ hlog rfl hadm fun key hadds => ?_
    · rcases hph with ⟨rfl, -⟩ | ⟨rfl, -⟩ <;> simp
    · obtain ⟨-, k', j, lim', hop, hkey⟩ := hadds
      obtain ⟨-, hbody, -⟩ : k = k' ∧ RedisStreamTransport.jobBody p.info.args.keyedJob =
          RedisStreamTransport.jobBody j ∧ lim = lim' := by simpa using hop
      obtain rfl := RedisStreamTransport.jobBody_injective hbody
      simpa using hkey
  · refine h.quiet hi hq (fun hph => ?_) hlog fun key hadds => ?_
    · -- a closed request only reads the clock
      subst hph
      cases o with
      | redis c => cases c <;> simp [Enqueuer.monitor, Enqueuer.cmdGuard] at hg
      | sql s => cases s <;> exact hg.elim
      | utcnow => rfl
      | handler _ _ | monotonic | metric _ | delay _ => exact hg.elim
    · obtain ⟨-, k, j, lim, rfl, -⟩ := hadds
      exact hadd ⟨_, _, _, rfl⟩

/-- **The invariant as a proof rule** for requests. -/
def dedupRule (enqueuer : Enqueuer) :
    PoolRule (apiPool ⟨some enqueuer⟩) (fun r => r.monitor enqueuer) ApiLoad DedupInv where
  init _ := .fresh
  post r out _ := ∀ resp, out = .ok resp → resp.status = 201 → r.admitted = true
  code r := wp_handle enqueuer r
  start := by
    intro w l r site h _
    refine ⟨fun ev hev key hadds => ?_, h.once⟩
    obtain ⟨n, p, hact, hn, hrest⟩ := h.origin ev hev key hadds
    exact ⟨n, p, hact, getElem?_concat_of hn _, hrest⟩
  answer := fun h _ hi _ hg hx => h.answer hi rfl hg hx
  crash := by
    intro w l site h _
    refine ⟨fun ev hev key hadds => ?_, h.once⟩
    obtain ⟨n, p, hact, hn, hrest⟩ := h.origin ev hev key hadds
    exact ⟨n, p.kill site, hact, by simp [hn], by simpa using hrest⟩
  env := by
    rintro w l (d | ⟨key', body⟩) w' h hok hw
    · obtain rfl := Option.some.inj hw
      exact ⟨h.origin, h.once⟩
    · exact hok.elim

/-! ## Startup -/

/-- Startup ends with the wired enqueuer, and has added nothing. -/
theorem runs_lifespan {P : Op → Answer → Prop} {site : Nat} {a : Actor} {w₀ : World} {app : Api}
    (h : relay.Runs P site a .init Api.lifespan w₀ (.ok app)) :
    app = ⟨some Api.wiredEnqueuer⟩ ∧ DedupInv w₀ [] := by
  obtain ⟨w₁, r, hens, hrest⟩ := Machine.runs_bind_iff.mp h
  obtain ⟨w₂, r₂, hperf, htry⟩ := Machine.runs_tryExcept_iff.mp hens
  obtain ⟨ans, -, hx⟩ := Machine.runs_perform_iff.mp hperf
  have hw : w₀ = w₂ ∧ app = ⟨some Api.wiredEnqueuer⟩ := by
    cases r with
    | error e => cases hrest.2
    | ok u =>
      obtain ⟨rfl, happ⟩ := Machine.runs_ret_iff.mp hrest
      refine ⟨?_, Except.ok.inj happ⟩
      cases r₂ with
      | ok u => exact htry.1
      | error e =>
        dsimp only at htry
        split at htry
        · split at htry
          · exact (Machine.runs_ret_iff.mp htry).1
          · cases (Machine.runs_raise_iff.mp htry).2
        · cases (Machine.runs_raise_iff.mp htry).2
  obtain ⟨rfl, rfl⟩ := hw
  obtain ⟨applied, evicted, hlog⟩ := World.exec_log hx
  refine ⟨rfl, fun ev hev key hadds => ?_, by simp [hlog, World.init]⟩
  obtain rfl : ev = _ := by simpa [hlog, World.init] using hev
  obtain ⟨-, k, j, lim, hop, -⟩ := hadds
  cases hop

/-! ## When it holds -/

/-- Two requests with one key are the same if the first of them was let through. -/
theorem FreshKeys.not_repeat {arrivals : List Arrival} (h : FreshKeys arrivals) {m n : Nat}
    {r r' : Arrival} {key : String} (hm : arrivals[m]? = some r) (hn : arrivals[n]? = some r')
    (hadm : r.admitted = true) (hr : r.request.idempotencyKey = some key)
    (hr' : r'.request.idempotencyKey = some key) : ¬ m < n := by
  intro hlt
  obtain ⟨hm', rfl⟩ := List.getElem?_eq_some_iff.mp hm
  obtain ⟨hn', rfl⟩ := List.getElem?_eq_some_iff.mp hn
  exact List.pairwise_iff_getElem.mp h m n hm' hn' hlt key hadm hr hr'

/-- The requests of a state are the first ones to arrive. -/
theorem arrival_of_infos {arrivals : List Arrival} {s : PoolState relay Arrival Response}
    (h : s.procs.map Proc.info <+: arrivals) {n : Nat} {p : Proc RelaySig Nat Arrival Response}
    (hp : s.procs[n]? = some p) : arrivals[n]? = some p.info := by
  obtain ⟨rest, rfl⟩ := h
  have hlt : n < s.procs.length := (List.getElem?_eq_some_iff.mp hp).1
  rw [List.getElem?_append_left (by simpa using hlt)]
  simp [hp]

/-- **With fresh keys the API deduplicates.** -/
theorem deduplicates_of_fresh {arrivals : List Arrival} (h : FreshKeys arrivals) :
    Deduplicates arrivals := by
  intro site a w₀ app hstart s t hs ht hpre
  obtain ⟨rfl, h₀⟩ := runs_lifespan hstart
  have hpre' : s.procs.map Proc.info <+: arrivals := (PoolSpec.reaches_infos ht).trans hpre
  obtain ⟨l, hl, hinv⟩ := (dedupRule Api.wiredEnqueuer).run hs (PoolRule.holds_nil h₀)
  have hproc : ∀ {n : Nat} {p : Proc RelaySig Nat Arrival Response} {ph : Enqueuer.Phase},
      l[n]? = some (p, ph) → s.procs[n]? = some p := by
    intro n p ph hn
    rw [← hl.procs]
    simp [hn]
  have hadmitted : ∀ p ∈ s.procs, ∀ key, Accepted p key → p.info.admitted = true := by
    rintro p hp key ⟨-, resp, hout, hstatus⟩
    rw [← hl.procs] at hp
    obtain ⟨x, hx, rfl⟩ := List.mem_map.mp hp
    exact hl.outcome hx hout resp rfl hstatus
  refine ⟨?_, ?_, fun p hp key hacc j q hj hq hkey => ?_⟩
  · refine hinv.once.imp_of_mem fun hev hev' hne key hadds hadds' => hne key key hadds hadds' ?_
    -- the requests the two entries belong to carry one key, so they are the same
    obtain ⟨m, p, hact, hm, hadm, hk⟩ := hinv.origin _ hev key hadds
    obtain ⟨n, q, hact', hn, hadm', hk'⟩ := hinv.origin _ hev' key hadds'
    have hmn :=
      h.not_repeat (arrival_of_infos hpre' (hproc hm)) (arrival_of_infos hpre' (hproc hn)) hadm hk hk'
    have hnm :=
      h.not_repeat (arrival_of_infos hpre' (hproc hn)) (arrival_of_infos hpre' (hproc hm)) hadm' hk' hk
    rw [hact, hact', Nat.le_antisymm (Nat.le_of_not_lt hnm) (Nat.le_of_not_lt hmn)]
  · refine List.pairwise_iff_getElem.mpr fun m n hm hn hlt key hacc hacc' => ?_
    exact h.not_repeat (arrival_of_infos hpre' (List.getElem?_eq_getElem hm))
      (arrival_of_infos hpre' (List.getElem?_eq_getElem hn))
      (hadmitted _ (List.getElem_mem hm) key hacc) hacc.1 hacc'.1 hlt
  · obtain ⟨m, hm⟩ := List.mem_iff_getElem?.mp hp
    have hlt : m < s.procs.length := (List.getElem?_eq_some_iff.mp hm).1
    exact absurd (hlt.trans_le hj) (h.not_repeat (arrival_of_infos hpre' hm)
      (arrival_of_infos hpre hq) (hadmitted p hp key hacc) hacc.1 hkey)

/-! ## Why it fails otherwise -/

/-- Without a store `enqueue` reads the depth and appends. -/
theorem Enqueuer.enqueue_of_no_store {enqueuer : Enqueuer} (hstore : enqueuer.store = false)
    (r : Arrival) : enqueuer.enqueue r.args =
      (enqueuer.transport.streamLength r.job.queue).bind fun depth =>
        if depth ≥ enqueuer.maxQueueDepth then
          .raise (.queueFull r.job.queue depth enqueuer.maxQueueDepth)
        else enqueuer.transport.xadd r.job.queue r.args.keyedJob (enqueuer.maxQueueDepth + 1000)
          true := by
  have hcheck : ∀ key, enqueuer.checkKey key = .ret () := fun key => by
    cases key <;> simp [checkKey, hstore]
  simp [enqueue, Arrival.args, hcheck, writeOutbox, hstore]

section

variable {site : Nat} {a : Actor} {enqueuer : Enqueuer} {r : Arrival}

/-- Without a store `enqueue` never raises an `IdempotencyConflict`. -/
theorem runs_enqueue_not_conflict {P : Op → Answer → Prop} {key : String}
    (hstore : enqueuer.store = false) :
    ¬ relay.Runs P site a w (enqueuer.enqueue r.args) w' (.error (.idempotencyConflict key)) := by
  rw [Enqueuer.enqueue_of_no_store hstore]
  intro h
  obtain ⟨w₁, r₁, hd, hrest⟩ := Machine.runs_bind_iff.mp h
  obtain ⟨ans, -, hx⟩ := Machine.runs_perform_iff.mp hd
  cases r₁ with
  | error e =>
    obtain rfl := Except.error.inj hrest.2
    cases World.exec_not_domain rfl hx
  | ok depth =>
    dsimp only at hrest
    split at hrest
    · cases (Machine.runs_raise_iff.mp hrest).2
    · obtain ⟨ans, -, hx⟩ := Machine.runs_perform_iff.mp hrest
      cases World.exec_not_domain rfl hx

omit [Codec] in
/-- The server's response to an unhandled exception is no 409. -/
theorem runs_serverError {P : Op → Answer → Prop} {e : PyExc} {resp : Response}
    (h : relay.Runs P site a w (serverError e) w' (.ok resp)) : resp.status ≠ 409 := by
  unfold serverError at h
  split at h
  · obtain rfl := Except.ok.inj (Machine.runs_ret_iff.mp h).2
    decide
  · cases (Machine.runs_raise_iff.mp h).2

/-- **A process without a store answers no request with 409.** -/
theorem runs_handle_status {P : Op → Answer → Prop} {resp : Response}
    (hstore : enqueuer.store = false)
    (h : relay.Runs P site a w (Api.handle ⟨some enqueuer⟩ r) w' (.ok resp)) :
    resp.status ≠ 409 := by
  obtain ⟨w₁, r₁, hrate, hend⟩ := Machine.runs_tryExcept_iff.mp h
  cases r₁ with
  | error e => exact runs_serverError hend
  | ok resp' =>
    obtain ⟨-, hresp⟩ := hend
    obtain rfl := Except.ok.inj hresp
    unfold rateLimitMiddleware at hrate
    split at hrate
    · cases (Machine.runs_raise_iff.mp hrate).2
    · obtain ⟨w₂, r₂, hbody, hend⟩ := Machine.runs_tryExcept_iff.mp hrate
      obtain ⟨w₃, r₃, henq, hcreated⟩ := Machine.runs_bind_iff.mp hbody
      cases r₃ with
      | ok entryId =>
        obtain ⟨-, rfl⟩ := Machine.runs_ret_iff.mp hcreated
        obtain rfl := Except.ok.inj hend.2
        simp [created]
      | error e =>
        obtain ⟨rfl, rfl⟩ := hcreated
        dsimp only at hend
        unfold onEnqueueError at hend
        split at hend
        · obtain rfl := Except.ok.inj (Machine.runs_ret_iff.mp hend).2
          simp [httpException]
        · exact (runs_enqueue_not_conflict hstore henq).elim
        · cases (Machine.runs_raise_iff.mp hend).2
    · obtain rfl := Except.ok.inj (Machine.runs_ret_iff.mp hrate).2
      decide

/-- Below the limit a request that is let through is created when nothing fails. -/
theorem exists_runs_created (hstore : enqueuer.store = false) (hadm : r.admitted = true)
    (hlen : (w.redis (enqueuer.transport.streamKey r.job.queue)).entries.length <
      enqueuer.maxQueueDepth) (site : Nat) (a : Actor) :
    ∃ w' resp, relay.Runs Faultless site a w (Api.handle ⟨some enqueuer⟩ r) w' (.ok resp) ∧
      resp.status = 201 := by
  have hallowed : r.allowed = .ok true := by
    unfold Arrival.admitted at hadm
    split at hadm
    · rename_i hb
      rw [hb, hadm]
    · cases hadm
  obtain ⟨w₁, hx₁, hw₁⟩ : ∃ w₁, w.exec site a
      (.redis (.xlen (enqueuer.transport.streamKey r.job.queue))) (.ok 0) =
      some (w₁, .ok (w.redis (enqueuer.transport.streamKey r.job.queue)).entries.length) ∧
      w₁.redis = w.redis := ⟨_, World.exec_ok site a rfl rfl, rfl⟩
  obtain ⟨w₂, id, hx₂⟩ : ∃ w₂ id, w₁.exec site a
      (.redis (.xadd (enqueuer.transport.streamKey r.job.queue)
        (RedisStreamTransport.jobBody r.args.keyedJob)
        (some (enqueuer.maxQueueDepth + 1000, true)))) (.ok 0) = some (w₂, .ok id) :=
    ⟨_, _, World.exec_ok site a (by simp [Redis.Cmd.mayEvict]) rfl⟩
  refine ⟨w₂, created r.job id, ?_, rfl⟩
  refine Machine.runs_tryExcept_iff.mpr ⟨w₂, .ok (created r.job id), ?_, rfl, rfl⟩
  rw [hallowed]
  refine Machine.runs_tryExcept_iff.mpr ⟨w₂, .ok (created r.job id), ?_, rfl, rfl⟩
  refine Machine.runs_bind_iff.mpr ⟨w₂, .ok id, ?_, .ret⟩
  rw [Enqueuer.enqueue_of_no_store hstore]
  refine Machine.runs_bind_iff.mpr
    ⟨w₁, .ok _, Machine.runs_perform_iff.mpr ⟨.ok 0, rfl, hx₁⟩, ?_⟩
  dsimp only
  rw [if_neg (Nat.not_le_of_lt hlen)]
  exact Machine.runs_perform_iff.mpr ⟨.ok 0, rfl, by simpa using hx₂⟩

end

omit [Codec] in
/-- The process can start up, with every stream empty. -/
theorem exists_startup : ∃ w₀, relay.Runs Faultless 0 .foreign .init Api.lifespan w₀
    (.ok ⟨some Api.wiredEnqueuer⟩) ∧ ∀ k, (w₀.redis k).entries = [] := by
  obtain ⟨w₀, hx, hw₀⟩ : ∃ w₀, World.init.exec 0 .foreign (.redis (.xgroupCreate
      (Api.transport.streamKey "default") (Api.transport.groupKey "default") 0)) (.ok 0) =
      some (w₀, .ok ()) ∧ ∀ k, (w₀.redis k).entries = [] := by
    refine ⟨_, World.exec_ok 0 .foreign rfl rfl, fun k => ?_⟩
    by_cases hk : k = Api.transport.streamKey "default" <;>
      simp [World.sendCmd, Redis.Keyspace.apply, World.init, Redis.Stream.empty,
        Redis.Stream.setGroup, hk]
  refine ⟨w₀, Machine.runs_bind_iff.mpr ⟨w₀, .ok (), ?_, .ret⟩, hw₀⟩
  exact Machine.runs_tryExcept_iff.mpr
    ⟨w₀, .ok (), Machine.runs_perform_iff.mpr ⟨.ok 0, rfl, hx⟩, rfl, rfl⟩

/-- **A key that comes back is served again**: a request that is let through and created, then
another with its key, which is not answered 409. -/
theorem not_deduplicates {arrivals : List Arrival} {m n : Nat} {r r' : Arrival} {key : String}
    (hlt : m < n) (hm : arrivals[m]? = some r) (hn : arrivals[n]? = some r')
    (hadm : r.admitted = true) (hr : r.request.idempotencyKey = some key)
    (hr' : r'.request.idempotencyKey = some key) : ¬ Deduplicates arrivals := by
  intro h
  obtain ⟨w₀, hstart, hempty⟩ := exists_startup
  let app : Api := ⟨some Api.wiredEnqueuer⟩
  let started : Arrival → Proc RelaySig Nat Arrival Response := fun r => ⟨r, 0, some (app.handle r)⟩
  -- the requests up to the first of the two arrive, and that one is served
  let procs := (arrivals.take (m + 1)).map started
  have hprocs : Reaches (apiPool app).step ApiLoad ⟨w₀, []⟩ ⟨w₀, procs⟩ :=
    (apiPool app).reaches_starts (0 : Nat) (fun _ _ _ => trivial) w₀ []
  have hpm : procs[m]? = some (started r) := by simp [procs, hm]
  have hroom : (w₀.redis (Api.wiredEnqueuer.transport.streamKey r.job.queue)).entries.length <
      Api.wiredEnqueuer.maxQueueDepth := by
    rw [hempty]
    decide
  obtain ⟨w₁, resp, hserved, hstatus⟩ := exists_runs_created rfl hadm hroom 0 (.api m)
  let served : Proc RelaySig Nat Arrival Response := ⟨r, 0, some (.ofExcept (.ok resp))⟩
  have hs : Reaches (apiPool app).step ApiLoad ⟨w₀, []⟩ ⟨w₁, procs.set m served⟩ :=
    hprocs.trans (PoolSpec.reaches_runs (fun _ _ _ _ => trivial) hserved hpm)
  -- the others arrive, and the second one is served
  let later := ((arrivals.drop (m + 1)).take (n - m)).map started
  have hlen : procs.length = m + 1 := by
    have hm' : m < arrivals.length := (List.getElem?_eq_some_iff.mp hm).1
    simp only [procs, List.length_map, List.length_take]
    omega
  have hpn : (procs.set m served ++ later)[n]? = some (started r') := by
    have hidx : n - (m + 1) < n - m := by omega
    have hback : m + 1 + (n - (m + 1)) = n := by omega
    rw [List.getElem?_append_right (by rw [List.length_set, hlen]; omega), List.length_set, hlen]
    simp [later, List.getElem?_take_of_lt hidx, hback, hn]
  have hlater : Reaches (apiPool app).step ApiLoad ⟨w₁, procs.set m served⟩
      ⟨w₁, procs.set m served ++ later⟩ :=
    (apiPool app).reaches_starts (0 : Nat) (fun _ _ _ => trivial) w₁ _
  obtain ⟨w₂, out, hserved'⟩ :=
    World.responsive_faultless.exists_runs (0 : Nat) (Actor.api n) (app.handle r') w₁
  have ht : Reaches (apiPool app).step ApiLoad ⟨w₁, procs.set m served⟩
      ⟨w₂, (procs.set m served ++ later).set n ⟨r', 0, some (.ofExcept out)⟩⟩ :=
    hlater.trans (PoolSpec.reaches_runs (fun _ _ _ _ => trivial) hserved' hpn)
  have hinfos : ((procs.set m served ++ later).set n ⟨r', 0, some (.ofExcept out)⟩).map Proc.info =
      arrivals.take (n + 1) := by
    have hsplit : m + 1 + (n - m) = n + 1 := by omega
    have hset : ((procs.set m served ++ later).set n ⟨r', 0, some (.ofExcept out)⟩).map Proc.info =
        (procs.set m served ++ later).map Proc.info := Proc.infos_set hpn rfl
    have hset' : (procs.set m served).map Proc.info = procs.map Proc.info := Proc.infos_set hpm rfl
    rw [hset, List.map_append, hset', ← hsplit, List.take_add]
    simp [procs, later, started, Function.comp_def]
  have hdedup := h 0 .foreign w₀ app (hstart.mono fun _ _ _ => trivial) _ _ hs ht
    (hinfos ▸ List.take_prefix _ _)
  have hpos : m < procs.length := by omega
  have hacc : Accepted served key := ⟨hr, resp, rfl, hstatus⟩
  have hend : (Proc.outcome ⟨r', 0, some (.ofExcept out)⟩ : Option (Except PyExc Response)) =
      some out := by cases out <;> rfl
  obtain ⟨resp', rfl, h409⟩ := (hdedup.rejected served (List.mem_set hpos served) key hacc n _
    (by rw [List.length_set, hlen]; omega)
    (List.getElem?_set_self (List.getElem?_eq_some_iff.mp hpn).1) hr').1 out hend
  exact runs_handle_status rfl hserved' h409

/-- **When the API deduplicates**: exactly if no request that the rate limiter lets through carries
a key that a later request carries. -/
theorem deduplicates_iff (arrivals : List Arrival) :
    Deduplicates arrivals ↔ FreshKeys arrivals := by
  refine ⟨fun h => ?_, deduplicates_of_fresh⟩
  by_contra hbad
  -- two requests that share a key, the first of them let through
  obtain ⟨m, n, hm, hn, hlt, hrep⟩ : ∃ m n, ∃ (hm : m < arrivals.length)
      (hn : n < arrivals.length), m < n ∧ ∃ key, arrivals[m].admitted = true ∧
        arrivals[m].request.idempotencyKey = some key ∧
        arrivals[n].request.idempotencyKey = some key := by
    by_contra hno
    refine hbad (List.pairwise_iff_getElem.mpr fun m n hm hn hlt key hadm hk hk' => ?_)
    exact hno ⟨m, n, hm, hn, hlt, key, hadm, hk, hk'⟩
  obtain ⟨key, hadm, hk, hk'⟩ := hrep
  exact not_deduplicates hlt (List.getElem?_eq_getElem hm) (List.getElem?_eq_getElem hn) hadm hk hk'
    h

end

/-- The same key twice: the API does not deduplicate. -/
theorem not_deduplicates_twice : ¬ ∀ arrivals : List Arrival, Deduplicates arrivals := by
  intro h
  have hno : ¬ Deduplicates [Sample.arrival "job_1", Sample.arrival "job_2"] :=
    not_deduplicates Nat.zero_lt_one rfl rfl rfl rfl rfl
  exact hno (h _)

end RelayQ

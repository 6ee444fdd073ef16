import RelayQ.Infrastructure.StreamRuns

/-! # The wire format

One encoder writes every job, and four decoders read jobs back: the group read, the claim, and the
two readers of dead letters. What is written comes back, in order and in every field, as long as the
stream stays within the length limit of `xadd`: beyond it the oldest entries may be gone.

* `RedisStreamTransport.xaddAll`: several appends, one after the other.
* `RedisStreamTransport.Drained`: a queue whose group has nothing left to read or to acknowledge.
* `RedisStreamTransport.RoundTrip`, `RedisStreamTransport.roundTrip`: every hop. -/

namespace RelayQ

namespace RedisStreamTransport

section

variable [Codec] (t : RedisStreamTransport) (queue : String)

/-- `xadd` of several jobs in order, with its default limit. -/
def xaddAll : List Job → Py Unit
  | [] => .ret ()
  | job :: jobs => (t.xadd queue job 10000 true).bind fun _ => xaddAll jobs

omit [Codec] in
/-- The consumer group has been given everything on the stream and has acknowledged it. -/
structure Drained (w : World) : Prop where
  wf : (w.redis (t.streamKey queue)).Wf
  group : ∃ grp, (w.redis (t.streamKey queue)).groups (t.groupKey queue) = some grp ∧
    (w.redis (t.streamKey queue)).undelivered grp = [] ∧ grp.pel = []

/-- The outcome is a batch of exactly these jobs, in order, from the queue's stream. -/
def Brings (jobs : List Job) (out : Except PyExc (List Delivery)) : Prop :=
  ∃ ds, out = .ok ds ∧ ds.map Delivery.job = jobs.map RawJob.ofJob ∧
    ∀ d ∈ ds, d.stream = t.streamKey queue

/-- A scan for the job comes to this dead letter of it: it is among the newest 200 entries, the
client can decode those, and the scan passes over the newer ones. -/
def Scanned (w : World) (id : Nat) (job : Job) (why : String) : Prop :=
  ∃ newer older, (w.redis (t.dlqKey queue)).entries.reverse.take 200 =
      newer ++ ⟨id, dlqBody job why⟩ :: older ∧
    (∃ fs, t.replies (newer ++ ⟨id, dlqBody job why⟩ :: older) = .ok fs) ∧
    ∀ e ∈ newer, ∀ fields, t.reply e.fields = .ok fields →
      scanDlqEntry job.id e.id fields = .ok none

/-- **The wire format round trips.** Jobs that were added come back through a group read, and
again through a claim once they have been idle long enough; a dead letter that a scan comes to is
found, as a dictionary that builds its job. -/
structure RoundTrip (jobs : List Job) (w : World) : Prop where
  read : ∀ (site : Nat) (a : Actor) (w₁ : World) (added : Except PyExc Unit),
    relay.Runs Faultless site a w (t.xaddAll queue jobs) w₁ added →
    ∀ (site : Nat) (a : Actor) (workerId : String) (count block : Nat) (now : DateTime) (w₂ : World)
      (out : Except PyExc (List Delivery)), 0 < count → jobs.length ≤ count →
    relay.Runs Faultless site a w₁ (t.readGroup queue workerId count block now) w₂ out →
      t.Brings queue jobs out ∧
      ∀ (site : Nat) (a : Actor) (workerId : String) (d minIdle count : Nat) (now : DateTime)
        (w₃ : World) (out : Except PyExc (List Delivery)), minIdle ≤ d → 0 < count →
        jobs.length ≤ count →
        relay.Runs Faultless site a { w₂ with now := w₂.now + d }
          (t.autoclaimStale queue workerId minIdle count now) w₃ out →
        t.Brings queue jobs out
  deadLetter : ∀ (job : Job) (why : String) (site : Nat) (a : Actor) (w w₁ : World)
      (added : Except PyExc Nat),
    relay.Runs Faultless site a w (t.xaddDlq queue job why) w₁ added →
    ∃ id, added = .ok id ∧ ∀ w₂, t.Scanned queue w₂ id job why →
      ∀ (site : Nat) (a : Actor) (w₃ : World) (out : Except PyExc (Option DlqEntry)),
        relay.Runs Faultless site a w₂ (t.readDlqEntry queue job.id) w₃ out →
        ∃ entry, out = .ok (some entry) ∧ entry.entryId = id ∧
          ∀ now, RawJob.fromDict now entry.job = .ok (.ofJob job)

variable {t queue} {w w' : World} {site : Nat} {a : Actor}

/-! ## Adding -/

/-- An append without faults, where nothing is above the limit. -/
theorem runs_xadd {job : Job} {out : Except PyExc Nat}
    (hroom : (w.redis (t.streamKey queue)).entries.length < 10000)
    (h : relay.Runs Faultless site a w (t.xadd queue job 10000 true) w' out) :
    (∃ id, out = .ok id) ∧ w'.redis = Function.update w.redis (t.streamKey queue)
      ((w.redis (t.streamKey queue)).append (jobBody job)) := by
  obtain ⟨ans, hans, hx⟩ := Machine.runs_perform_iff.mp h
  obtain ⟨n, hn, rfl, rfl⟩ := World.exec_redis_faultless hx hans
  have hle := of_decide_eq_true hn
  simp only [Redis.Cmd.key] at hle
  obtain rfl : n = 0 := by omega
  exact ⟨⟨_, rfl⟩, by simp [World.sendCmd, Redis.Keyspace.apply, Redis.Stream.evict]⟩

/-- Appends within the limit lose nothing. -/
theorem runs_xaddAll {jobs : List Job} {out : Except PyExc Unit}
    (hroom : (w.redis (t.streamKey queue)).entries.length + jobs.length ≤ 10000)
    (h : relay.Runs Faultless site a w (t.xaddAll queue jobs) w' out) :
    w'.redis = Function.update w.redis (t.streamKey queue)
      ((w.redis (t.streamKey queue)).appendAll (jobs.map jobBody)) := by
  induction jobs generalizing w with
  | nil =>
    obtain ⟨rfl, -⟩ := Machine.runs_ret_iff.mp h
    simp
  | cons job jobs ih =>
    rw [List.length_cons] at hroom
    obtain ⟨w₁, r, hadd, hrest⟩ := Machine.runs_bind_iff.mp h
    obtain ⟨⟨id, rfl⟩, hredis⟩ := runs_xadd (by omega) hadd
    have hlen : (w₁.redis (t.streamKey queue)).entries.length + jobs.length ≤ 10000 := by
      simp only [hredis, Function.update_self, Redis.Stream.append, List.length_append,
        List.length_cons, List.length_nil]
      omega
    rw [ih hlen hrest, hredis]
    simp

/-! ## Dead letters -/

/-- A scan passes over a front part that does not hold its job. -/
theorem scanDlq_of_passed {jobId : String} {newer older : List (Redis.Entry Body)}
    {e : Redis.Entry Body} {fields : Fields} {found : DlqEntry} {fs : List (Nat × Fields)}
    (hfs : t.replies (newer ++ e :: older) = .ok fs)
    (hnewer : ∀ e ∈ newer, ∀ fields, t.reply e.fields = .ok fields →
      scanDlqEntry jobId e.id fields = .ok none)
    (he : t.reply e.fields = .ok fields)
    (hfound : scanDlqEntry jobId e.id fields = .ok (some found)) :
    scanDlq jobId fs = .ok (some found) := by
  induction newer generalizing fs with
  | nil =>
    obtain ⟨fields', fs', he', -, rfl⟩ := replies_cons_eq_ok.mp hfs
    obtain rfl := Except.ok.inj (he.symm.trans he')
    simp only [scanDlq, hfound]
  | cons x newer ih =>
    obtain ⟨fx, fs', hx, hrest, rfl⟩ := replies_cons_eq_ok.mp hfs
    have hpass := hnewer x (List.mem_cons_self ..) fx hx
    simp only [scanDlq, hpass]
    exact ih hrest fun y hy => hnewer y (List.mem_cons_of_mem _ hy)

/-- A dead letter that a scan comes to is found. -/
theorem runs_readDlqEntry_scanned {id : Nat} {job : Job} {why : String}
    {out : Except PyExc (Option DlqEntry)} (hs : t.Scanned queue w id job why)
    (h : relay.Runs Faultless site a w (t.readDlqEntry queue job.id) w' out) :
    out = .ok (some ⟨id, job.toDict, why⟩) := by
  obtain ⟨newer, older, hlist, ⟨fs, hfs⟩, hnewer⟩ := hs
  obtain ⟨fields, hreply, hjob, hwhy⟩ := t.reply_dlqBody job why
  have hfound : scanDlqEntry job.id id fields = .ok (some ⟨id, job.toDict, why⟩) := by
    rw [scanDlqEntry_of_toDict hjob hwhy, if_pos rfl]
  rw [runs_readDlqEntry h, hlist, hfs]
  exact scanDlq_of_passed hfs hnewer hreply hfound

/-! ## Every hop -/

/-- **The wire format round trips** on a drained queue, as long as the jobs fit within the limit of
`xadd`. -/
theorem roundTrip {jobs : List Job} (hd : t.Drained queue w)
    (hroom : (w.redis (t.streamKey queue)).entries.length + jobs.length ≤ 10000) :
    t.RoundTrip queue jobs w where
  read := by
    intro site a w₁ added hadd site₁ a₁ workerId count block now w₂ out hpos hcount hread
    obtain ⟨hwf, grp, hg, hnew, hpel⟩ := hd
    have hredis := runs_xaddAll hroom hadd
    set k := t.streamKey queue with hk
    have hwf₁ : (w₁.redis k).Wf := by
      rw [hredis, Function.update_self]
      exact hwf.appendAll _
    have hg₁ : (w₁.redis k).groups (t.groupKey queue) = some grp := by
      rw [hredis, Function.update_self, Redis.Stream.appendAll_groups, hg]
    -- what is new to the group are the bodies of the jobs
    have hfields : ((w₁.redis k).undelivered grp).map Redis.Entry.fields = jobs.map jobBody := by
      rw [hredis, Function.update_self, Redis.Stream.undelivered_appendAll _
        (hwf.groups _ grp hg).delivered_le, hnew]
      rfl
    have hlen : ((w₁.redis k).undelivered grp).length = jobs.length := by
      simpa using congrArg List.length hfields
    obtain ⟨hout, hnow, hredis₂⟩ := runs_readGroup hpos hg₁ hread
    obtain ⟨hall, hpel₂⟩ := Redis.Stream.deliver_all (s := w₁.redis k)
      (consumerName workerId) w₁.now (hlen.le.trans hcount)
    refine ⟨?_, ?_⟩
    · obtain ⟨ds, hds, hjobs, hstream⟩ := decodeBatch_jobBodies (t := t) now k hfields
      refine ⟨ds, ?_, hjobs, hstream⟩
      rw [hout, ← hk, hall, hds]
    · intro site₃ a₃ workerId₃ d minIdle count₃ now₃ w₃ out₃ hidle hpos₃ hcount₃ hclaim
      -- everything that was read is pending, and stale by now
      have hredis₂k : w₂.redis k = (w₁.redis k).setGroup (t.groupKey queue)
          ((w₁.redis k).deliver grp (consumerName workerId) w₁.now count).1 := by
        rw [hredis₂, ← hk, Function.update_self]
      have hids : (((w₁.redis k).deliver grp (consumerName workerId) w₁.now count).1.pel).map
          Redis.PendingEntry.id = ((w₁.redis k).undelivered grp).map Redis.Entry.id := by
        rw [hpel₂, hpel]
        simp
      have hmem : ∀ e ∈ (w₁.redis k).undelivered grp, e ∈ (w₁.redis k).entries :=
        fun e he => List.mem_of_mem_filter he
      have hpend : ∀ p ∈ ((w₁.redis k).deliver grp (consumerName workerId) w₁.now count).1.pel,
          (w₂.redis k).stores p.id = true ∧ p.Stale (w₂.now + d) minIdle := by
        intro p hp
        rw [hpel₂, hpel] at hp
        obtain ⟨e, he, rfl⟩ := List.mem_map.mp hp
        refine ⟨List.any_eq_true.mpr ⟨e, ?_, by simp⟩, ?_⟩
        · rw [hredis₂k]
          exact hmem e he
        · rw [Redis.PendingEntry.Stale, hnow]
          dsimp only
          omega
      have hcount₄ : ((w₁.redis k).deliver grp (consumerName workerId) w₁.now count).1.pel.length ≤
          count₃ := by
        rw [hpel₂, hpel]
        simpa [hlen] using hcount₃
      obtain ⟨hclaimed, -, -⟩ := runs_autoclaimStale (w := { w₂ with now := w₂.now + d })
        [] _ [] (by rw [← hk, hredis₂k]; exact Function.update_self ..)
        (List.append_nil _).symm (by simp) hpend (.inr (by simp)) hpos₃ hcount₄
        (by rw [List.length_nil]; omega) hclaim
      obtain ⟨ds, hds, hjobs, hstream⟩ := decodeBatch_jobBodies (t := t) now₃ k hfields
      refine ⟨ds, ?_, hjobs, hstream⟩
      have hpick : (w₂.redis k).pick (((w₁.redis k).undelivered grp).map Redis.Entry.id) =
          (w₁.redis k).undelivered grp := by
        rw [hredis₂k]
        exact hwf₁.pick_map_id hmem
      rw [hclaimed, hids, ← hk, hpick, hds]
  deadLetter := by
    intro job why site a w w₁ added hadd
    obtain ⟨ans, hans, hx⟩ := Machine.runs_perform_iff.mp hadd
    obtain ⟨n, -, rfl, rfl⟩ := World.exec_redis_faultless hx hans
    refine ⟨_, rfl, fun w₂ hs site a w₃ out hread => ?_⟩
    exact ⟨_, runs_readDlqEntry_scanned hs hread, rfl, fun now => RawJob.fromDict_toDict now job⟩

/-! ## Beyond the limit -/

/-- A batch decodes to at most one delivery for each of its entries. -/
theorem length_decodeBatch_le {now : DateTime} {stream : String} {es : List (Redis.Entry Body)}
    {ds : List Delivery} (h : t.decodeBatch now stream es = .ok ds) : ds.length ≤ es.length := by
  induction es generalizing ds with
  | nil =>
    obtain rfl := Except.ok.inj h
    exact le_rfl
  | cons e es ih =>
    rw [decodeBatch] at h
    cases he : t.decodeEntry now e.fields with
    | job j =>
      simp only [he] at h
      cases hes : t.decodeBatch now stream es with
      | error exc => simp [hes, Except.map] at h
      | ok ds' =>
        simp only [hes, Except.map, Except.ok.injEq] at h
        subst h
        exact Nat.succ_le_succ (ih hes)
    | skipped =>
      simp only [he] at h
      exact Nat.le_succ_of_le (ih h)
    | raised exc => simp [he] at h

/-- An append may evict as many entries as there are above the limit, or fewer. -/
theorem exists_runs_xadd (queue : String) (job : Job) (w : World) {n : Nat}
    (hn : n ≤ (w.redis (t.streamKey queue)).entries.length + 1 - 10000) :
    ∃ w' id, relay.Runs Faultless (0 : Nat) Actor.foreign w (t.xadd queue job 10000 true) w'
        (.ok id) ∧
      w'.redis = Function.update w.redis (t.streamKey queue)
        (((w.redis (t.streamKey queue)).append (jobBody job)).evict n) := by
  have hx := World.exec_ok (w := w) (n := n) 0 .foreign
    (c := .xadd (t.streamKey queue) (jobBody job) (some (10000, true)))
    (decide_eq_true hn) rfl
  exact ⟨_, _, Machine.runs_perform_iff.mpr ⟨.ok n, rfl, hx⟩, rfl⟩

/-- Appends can always be carried out without an eviction. -/
theorem exists_runs_xaddAll (queue : String) (jobs : List Job) (w : World) :
    ∃ w', relay.Runs Faultless (0 : Nat) Actor.foreign w (t.xaddAll queue jobs) w' (.ok ()) ∧
      w'.redis = Function.update w.redis (t.streamKey queue)
        ((w.redis (t.streamKey queue)).appendAll (jobs.map jobBody)) := by
  induction jobs generalizing w with
  | nil => exact ⟨w, .ret, by simp⟩
  | cons job jobs ih =>
    obtain ⟨w₁, id, hadd, hredis₁⟩ := exists_runs_xadd (t := t) queue job w
      (Nat.zero_le _)
    obtain ⟨w', hrest, hredis⟩ := ih w₁
    refine ⟨w', Machine.runs_bind_iff.mpr ⟨w₁, .ok id, hadd, hrest⟩, ?_⟩
    rw [hredis, hredis₁]
    simp [Redis.Stream.evict]

/-- The last job is appended last. -/
theorem xaddAll_append (jobs : List Job) (job : Job) : t.xaddAll queue (jobs ++ [job]) =
    (t.xaddAll queue jobs).bind fun _ => (t.xadd queue job 10000 true).bind fun _ => .ret () := by
  induction jobs with
  | nil => rfl
  | cons j jobs ih =>
    rw [List.cons_append, xaddAll, xaddAll, ih, Prog.bind_assoc]

end

end RedisStreamTransport

/-- An empty queue with its group. -/
def Sample.emptyQueue : World :=
  { World.init with
    redis := Function.update World.init.redis (transport.streamKey "default")
      ((Redis.Stream.empty Body).setGroup (transport.groupKey "default") ⟨0, []⟩) }

/-- The queue has its group and no entry. -/
theorem Sample.emptyQueue_redis : emptyQueue.redis (transport.streamKey "default") =
    (Redis.Stream.empty Body).setGroup (transport.groupKey "default") ⟨0, []⟩ := by
  simp [emptyQueue]

/-- It is drained. -/
theorem Sample.emptyQueue_drained : transport.Drained "default" emptyQueue where
  wf := by
    rw [emptyQueue_redis]
    exact Redis.Stream.wf_empty.setGroup _ ⟨le_rfl, by simp, by simp⟩
  group := by
    rw [emptyQueue_redis]
    exact ⟨⟨0, []⟩, by simp [Redis.Stream.setGroup], rfl, rfl⟩

namespace RedisStreamTransport

/-- Two jobs come back. -/
theorem roundTrip_two :
    Sample.transport.RoundTrip "default" [Sample.job, Sample.job] Sample.emptyQueue :=
  roundTrip Sample.emptyQueue_drained (by
    rw [Sample.emptyQueue_redis]
    decide)

/-- Of 10 100 jobs the last append may evict a hundred. -/
theorem not_roundTrip_trimmed :
    ¬ ∀ (t : RedisStreamTransport) (queue : String) (jobs : List Job) (w : World),
      t.Drained queue w → t.RoundTrip queue jobs w := by
  intro h
  obtain ⟨n, hn⟩ : ∃ n, n = 10099 := ⟨_, rfl⟩
  have hrt := h _ _ (List.replicate n Sample.job ++ [Sample.job]) _ Sample.emptyQueue_drained
  -- all appends but the last evict nothing
  obtain ⟨w₁, hadd, hredis⟩ := exists_runs_xaddAll (t := Sample.transport) "default"
    (List.replicate n Sample.job) Sample.emptyQueue
  have hlen : (w₁.redis (Sample.transport.streamKey "default")).entries.length = n := by
    rw [hredis, Function.update_self, Redis.Stream.length_appendAll, Sample.emptyQueue_redis]
    simp [Redis.Stream.setGroup, Redis.Stream.empty]
  have hevict : n + 1 - 10000 ≤
      (w₁.redis (Sample.transport.streamKey "default")).entries.length + 1 - 10000 := by rw [hlen]
  obtain ⟨w₂, id, hlast, hredis₂⟩ := exists_runs_xadd (t := Sample.transport) "default" Sample.job
    w₁ hevict
  have hadded : relay.Runs Faultless (0 : Nat) Actor.foreign Sample.emptyQueue
      (Sample.transport.xaddAll "default" (List.replicate n Sample.job ++ [Sample.job])) w₂
      (.ok ()) := by
    rw [xaddAll_append]
    exact Machine.runs_bind_iff.mpr ⟨w₁, .ok (), hadd, Machine.runs_bind_iff.mpr
      ⟨w₂, .ok id, hlast, .ret⟩⟩
  -- the read that follows cannot bring more than is left
  obtain ⟨w₃, out, hread⟩ := World.responsive_faultless.exists_runs (0 : Nat) Actor.foreign
    (Sample.transport.readGroup "default" "1" (n + 1) 0 .epoch) w₂
  obtain ⟨⟨ds, rfl, hjobs, -⟩, -⟩ := hrt.read _ _ _ _ hadded _ _ _ _ _ _ _ _ (Nat.succ_pos n)
    (by simp) hread
  have hgrp : (w₂.redis (Sample.transport.streamKey "default")).groups
      (Sample.transport.groupKey "default") = some ⟨0, []⟩ := by
    rw [hredis₂, Function.update_self, hredis]
    simp [Redis.Stream.evict, Redis.Stream.append, Sample.emptyQueue, Redis.Stream.setGroup]
  obtain ⟨hds, -, -⟩ := runs_readGroup (by omega) hgrp hread
  have hle := length_decodeBatch_le hds.symm
  have hstored : (w₂.redis (Sample.transport.streamKey "default")).entries.length =
      n + 1 - (n + 1 - 10000) := by
    rw [hredis₂, Function.update_self]
    simp [Redis.Stream.evict, Redis.Stream.append, hlen]
  have htaken := ((List.take_sublist (n + 1) _).trans (List.filter_sublist (p := fun e :
    Redis.Entry Body => decide (0 < e.id)) (l := (w₂.redis
      (Sample.transport.streamKey "default")).entries))).length_le
  have hcount : ds.length = n + 1 := by simpa using congrArg List.length hjobs
  have hdel : ((w₂.redis (Sample.transport.streamKey "default")).deliver ⟨0, []⟩
    (consumerName "1") w₂.now (n + 1)).2.length ≤ n + 1 - (n + 1 - 10000) := hstored ▸ htaken
  omega

end RedisStreamTransport

end RelayQ

import RelayQ.Infrastructure.RedisStream
import RelayQ.Redis.Batch

/-! # What the transport returns

A group read returns what it delivers and a claim what it claims, decoded.

* `RedisStreamTransport.await_readGroup_of_exec`, `await_autoclaimStale_of_exec`: a call whose
  command was answered.
* `RedisStreamTransport.decodeBatch_jobBodies`, `RedisStreamTransport.decodeBatch_decodable`: batches
  that decode as a whole.
* `RedisStreamTransport.sublist_of_await_readGroup`: what a poll returns it has just delivered.
* `RedisStreamTransport.runs_readGroup`, `RedisStreamTransport.runs_autoclaimStale`,
  `RedisStreamTransport.runs_readDlqEntry`: the calls, where they meet no fault. -/

namespace RelayQ

namespace RedisStreamTransport

variable [Codec] {t : RedisStreamTransport} {queue : String} {w w' : World} {site : Nat} {a : Actor}

/-- What a group read comes to when it is answered. -/
theorem await_readGroup_of_exec {workerId : String} {count block : Nat} (now : DateTime)
    {ans : Answer} {results : List (String × List (Redis.Entry Body))}
    (hc : 0 < count) (hx : w.exec site a (.redis (.xreadgroup (t.groupKey queue)
      (consumerName workerId) (t.streamKey queue) count block)) ans = some (w', .ok results)) :
    relay.await w site a (t.readGroup queue workerId count block now) ans =
      some (w', t.decodeReply now results) := by
  rw [readGroup, if_neg (by omega)]
  refine (Machine.await_perform_bind _ hx).trans ?_
  cases t.decodeReply now results <;> rfl

/-- A job as it stands in a stream under an id. -/
def jobEntry (p : Nat × Job) : Redis.Entry Body := ⟨p.1, jobBody p.2⟩

/-- The delivery of such an entry. -/
def jobDelivery (stream : String) (p : Nat × Job) : Delivery := ⟨stream, p.1, .ofJob p.2⟩

/-- Jobs decode to their deliveries. -/
theorem decodeBatch_jobEntries (now : DateTime) (stream : String) (l : List (Nat × Job)) :
    t.decodeBatch now stream (l.map jobEntry) = .ok (l.map (jobDelivery stream)) := by
  induction l with
  | nil => rfl
  | cons p l ih =>
    rw [List.map_cons, decodeBatch, jobEntry, decodeEntry_jobBody, ih]
    rfl

/-- A read for a group to which jobs are due. -/
theorem exists_await_readGroup {grp : Redis.Group} {l : List (Nat × Job)} (workerId : String)
    {count : Nat} (block site : Nat) (a : Actor) (now : DateTime) (hl : l ≠ []) (hc : 0 < count)
    (hg : (w.redis (t.streamKey queue)).groups (t.groupKey queue) = some grp)
    (hnew : ((w.redis (t.streamKey queue)).undelivered grp).take count = l.map jobEntry) :
    ∃ w', relay.await w site a (t.readGroup queue workerId count block now) (.ok 0) =
        some (w', .ok (l.map (jobDelivery (t.streamKey queue)))) ∧ w'.now = w.now ∧ w'.db = w.db ∧
      w'.log = ⟨a, .redis (.xreadgroup (t.groupKey queue) (consumerName workerId)
        (t.streamKey queue) count block), true, 0, .ok [(t.streamKey queue, l.map jobEntry)]⟩ :: w.log ∧
      w'.redis = Function.update w.redis (t.streamKey queue)
        ((w.redis (t.streamKey queue)).setGroup (t.groupKey queue)
          ⟨((l.map Prod.fst).getLast?).getD grp.lastDelivered,
            grp.pel ++ l.map fun p => ⟨p.1, consumerName workerId, w.now⟩⟩) := by
  have hdel : (w.redis (t.streamKey queue)).deliver grp (consumerName workerId) w.now count =
      (⟨((l.map Prod.fst).getLast?).getD grp.lastDelivered,
        grp.pel ++ l.map fun p => ⟨p.1, consumerName workerId, w.now⟩⟩, l.map jobEntry) := by
    simp [Redis.Stream.deliver, hnew, jobEntry, Function.comp_def]
  have hsend : w.sendCmd (.xreadgroup (t.groupKey queue) (consumerName workerId)
      (t.streamKey queue) count block) 0 = ({ w with
        redis := Function.update w.redis (t.streamKey queue)
          ((w.redis (t.streamKey queue)).setGroup (t.groupKey queue)
            ⟨((l.map Prod.fst).getLast?).getD grp.lastDelivered,
              grp.pel ++ l.map fun p => ⟨p.1, consumerName workerId, w.now⟩⟩) },
        .ok [(t.streamKey queue, l.map jobEntry)]) := by
    have hne : (l.map jobEntry).isEmpty = false := by simpa using hl
    simp only [World.sendCmd, Redis.Keyspace.apply, hg, hdel, Except.mapError, hne]
    rfl
  have hx := World.exec_ok (w := w) (n := 0) site a (c := .xreadgroup (t.groupKey queue)
    (consumerName workerId) (t.streamKey queue) count block) rfl (congrArg Prod.snd hsend)
  rw [hsend] at hx
  have hread := await_readGroup_of_exec now hc hx
  rw [decodeReply_singleton, decodeBatch_jobEntries] at hread
  exact ⟨_, hread, rfl, rfl, rfl, rfl⟩

/-- What a claim comes to when it is answered. -/
theorem await_autoclaimStale_of_exec {workerId : String} {minIdle count cursor : Nat}
    {now : DateTime} {es : List (Redis.Entry Body)} {ans : Answer}
    (hx : w.exec site a (.redis (.xautoclaim (t.streamKey queue) (t.groupKey queue)
      (consumerName workerId) minIdle 0 count)) ans = some (w', .ok (cursor, es))) :
    relay.await w site a (t.autoclaimStale queue workerId minIdle count now) ans =
      some (w', t.decodeBatch now (t.streamKey queue) es) := by
  refine (Machine.await_perform_bind _ hx).trans ?_
  cases t.decodeBatch now (t.streamKey queue) es <;> rfl

/-- A batch of entries that carry jobs decodes to these jobs. -/
theorem decodeBatch_jobBodies (now : DateTime) (stream : String) {es : List (Redis.Entry Body)}
    {jobs : List Job} (h : es.map Redis.Entry.fields = jobs.map jobBody) :
    ∃ ds, t.decodeBatch now stream es = .ok ds ∧ ds.map Delivery.job = jobs.map RawJob.ofJob ∧
      ∀ d ∈ ds, d.stream = stream := by
  induction es generalizing jobs with
  | nil =>
    obtain rfl : jobs = [] := List.map_eq_nil_iff.mp h.symm
    exact ⟨[], rfl, rfl, by simp⟩
  | cons e es ih =>
    cases jobs with
    | nil => cases h
    | cons job jobs =>
      rw [List.map_cons, List.map_cons, List.cons.injEq] at h
      obtain ⟨ds, hds, hjobs, hstream⟩ := ih h.2
      refine ⟨⟨stream, e.id, .ofJob job⟩ :: ds, ?_, ?_, ?_⟩
      · rw [decodeBatch, h.1, decodeEntry_jobBody, hds]
        rfl
      · rw [List.map_cons, List.map_cons, hjobs]
      · intro d hd
        rcases List.mem_cons.mp hd with rfl | hd
        · rfl
        · exact hstream d hd

/-- A batch of entries that all hold a job decodes to a delivery for each of them. -/
theorem decodeBatch_decodable (now : DateTime) (stream : String) (es : List (Redis.Entry Body))
    (h : ∀ e ∈ es, ∃ j, t.decodeEntry now e.fields = .job j) :
    ∃ ds, t.decodeBatch now stream es = .ok ds ∧
      ds.map Delivery.entryId = es.map Redis.Entry.id := by
  induction es with
  | nil => exact ⟨[], rfl, rfl⟩
  | cons e es ih =>
    obtain ⟨ds, hds, hids⟩ := ih fun e' he' => h e' (List.mem_cons_of_mem _ he')
    obtain ⟨j, hj⟩ := h e (List.mem_cons_self ..)
    refine ⟨⟨stream, e.id, j⟩ :: ds, ?_, ?_⟩
    · rw [decodeBatch, hj, hds]
      rfl
    · rw [List.map_cons, List.map_cons, hids]

/-- A batch is read in order: the ids of the deliveries are among those of the entries. -/
theorem decodeBatch_ids_sublist {now : DateTime} {stream : String} {es : List (Redis.Entry Body)}
    {ds : List Delivery} (h : t.decodeBatch now stream es = .ok ds) :
    (ds.map Delivery.entryId).Sublist (es.map Redis.Entry.id) := by
  induction es generalizing ds with
  | nil =>
    obtain rfl := Except.ok.inj h
    exact List.Sublist.refl []
  | cons e es ih =>
    rw [decodeBatch] at h
    cases he : t.decodeEntry now e.fields with
    | job j =>
      simp only [he] at h
      cases hes : t.decodeBatch now stream es with
      | error exc => simp [hes, Except.map] at h
      | ok ds' =>
        simp only [hes, Except.map, Except.ok.injEq] at h
        subst h
        exact (ih hes).cons_cons e.id
    | skipped =>
      simp only [he] at h
      exact (ih h).cons e.id
    | raised exc =>
      simp only [he] at h
      cases h

/-- **What a poll returns it has just delivered**, in the order of the stream. -/
theorem sublist_of_await_readGroup {workerId : String} {count block : Nat} {now : DateTime}
    {ans : Answer} {ds : List Delivery}
    (h : relay.await w site a (t.readGroup queue workerId count block now) ans =
      some (w', .ok ds)) :
    ∃ grp, (w.redis (t.streamKey queue)).groups (t.groupKey queue) = some grp ∧
      (ds.map Delivery.entryId).Sublist (((w.redis (t.streamKey queue)).deliver grp
        (consumerName workerId) w.now count).2.map Redis.Entry.id) := by
  rcases await_readGroup h with ⟨-, ⟨e, he, -⟩, -⟩ | ⟨-, r, hx, hr⟩
  · cases he
  · obtain ⟨results, rfl, hdec⟩ := hr ds rfl
    rcases World.exec_redis hx with ⟨n, -, -, ⟨-, hres⟩ | ⟨e, -, hres, -⟩⟩ | ⟨e, -, -, hres, -⟩
    · cases hg : (w.redis (t.streamKey queue)).groups (t.groupKey queue) with
      | none => simp [World.sendCmd, Redis.Keyspace.apply, hg, Except.mapError] at hres
      | some grp =>
        simp only [World.sendCmd, Redis.Keyspace.apply, hg, Except.mapError, Except.ok.injEq]
          at hres
        refine ⟨grp, rfl, ?_⟩
        rw [hres] at hdec
        split at hdec
        · -- nothing was delivered
          obtain rfl := Except.ok.inj hdec
          exact List.nil_sublist _
        · rw [decodeReply_singleton] at hdec
          exact decodeBatch_ids_sublist hdec
    · cases hres
    · cases hres

/-- A group read without faults: what it delivers it returns decoded. -/
theorem runs_readGroup {workerId : String} {count block : Nat} {now : DateTime} {grp : Redis.Group}
    {out : Except PyExc (List Delivery)} (hpos : 0 < count)
    (hg : (w.redis (t.streamKey queue)).groups (t.groupKey queue) = some grp)
    (h : relay.Runs Faultless site a w (t.readGroup queue workerId count block now) w' out) :
    let d := (w.redis (t.streamKey queue)).deliver grp (consumerName workerId) w.now count
    out = t.decodeBatch now (t.streamKey queue) d.2 ∧ w'.now = w.now ∧
      w'.redis = Function.update w.redis (t.streamKey queue)
        ((w.redis (t.streamKey queue)).setGroup (t.groupKey queue) d.1) := by
  rw [readGroup, if_neg (Nat.ne_of_gt hpos)] at h
  obtain ⟨w₁, r, hr, hrest⟩ := Machine.runs_bind_iff.mp h
  obtain ⟨ans, hans, hx⟩ := Machine.runs_perform_iff.mp hr
  obtain ⟨n, -, rfl, rfl⟩ := World.exec_redis_faultless hx hans
  simp only [World.sendCmd, Redis.Keyspace.apply, hg, Except.mapError] at hrest
  obtain ⟨rfl, rfl⟩ := Machine.runs_ofExcept_iff.mp hrest
  refine ⟨?_, rfl, rfl⟩
  split
  · rename_i hnil
    rw [List.isEmpty_iff.mp hnil]
    rfl
  · exact decodeReply_singleton ..

/-- **A claim without faults** on a fresh block, a stale block and the rest claims exactly the
stale block and returns it decoded. -/
theorem runs_autoclaimStale {workerId : String} {minIdle count : Nat} {now : DateTime}
    {grp : Redis.Group} (fresh stale rest : List Redis.PendingEntry)
    {out : Except PyExc (List Delivery)}
    (hg : (w.redis (t.streamKey queue)).groups (t.groupKey queue) = some grp)
    (hpel : grp.pel = fresh ++ (stale ++ rest))
    (hf : ∀ p ∈ fresh, (w.redis (t.streamKey queue)).stores p.id = true ∧ ¬ p.Stale w.now minIdle)
    (hst : ∀ p ∈ stale, (w.redis (t.streamKey queue)).stores p.id = true ∧ p.Stale w.now minIdle)
    (hrest : stale.length = count ∨ ∀ p ∈ rest, ¬ p.Stale w.now minIdle)
    (hpos : 0 < count) (hcount : stale.length ≤ count)
    (hatt : fresh.length + stale.length ≤ 10 * count)
    (h : relay.Runs Faultless site a w (t.autoclaimStale queue workerId minIdle count now) w' out) :
    out = t.decodeBatch now (t.streamKey queue)
        ((w.redis (t.streamKey queue)).pick (stale.map Redis.PendingEntry.id)) ∧
      w'.now = w.now ∧ ∃ pel, w'.redis = Function.update w.redis (t.streamKey queue)
          ((w.redis (t.streamKey queue)).setGroup (t.groupKey queue) { grp with pel := pel }) ∧
        (stale.length = count →
          pel = fresh ++ (stale.map (·.claimed (consumerName workerId) w.now) ++ rest)) := by
  obtain ⟨w₁, r, hr, hend⟩ := Machine.runs_bind_iff.mp h
  obtain ⟨ans, hans, hx⟩ := Machine.runs_perform_iff.mp hr
  obtain ⟨n, -, rfl, rfl⟩ := World.exec_redis_faultless hx hans
  obtain ⟨cursor, pel, happ, hlen⟩ := Redis.Keyspace.apply_xautoclaim (n := n)
    (consumerName workerId) hg hpel hf hst hrest hpos hcount hatt
  simp only [World.sendCmd, happ, Except.mapError] at hend
  obtain ⟨rfl, rfl⟩ := Machine.runs_ofExcept_iff.mp hend
  exact ⟨rfl, rfl, pel, rfl, hlen⟩

/-- What a lookup returns when the server answers. -/
theorem runs_readDlqEntry {jobId : String} {out : Except PyExc (Option DlqEntry)}
    (h : relay.Runs Faultless site a w (t.readDlqEntry queue jobId) w' out) :
    out = (t.replies ((w.redis (t.dlqKey queue)).entries.reverse.take 200) >>= scanDlq jobId) := by
  obtain ⟨w₀, r₀, hrange, hscan⟩ := Machine.runs_bind_iff.mp h
  obtain ⟨ans, hans, hx⟩ := Machine.runs_perform_iff.mp hrange
  obtain ⟨n, -, hr₀, -⟩ := World.exec_redis_faultless hx hans
  obtain rfl : r₀ = .ok ((w.redis (t.dlqKey queue)).entries.reverse.take 200) := hr₀
  exact (Machine.runs_ofExcept_iff.mp hscan).2

end RedisStreamTransport

end RelayQ

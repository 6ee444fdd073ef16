import RelayQ.Abstract.Ledger
import RelayQ.Redis.Account
import RelayQ.System.Progress

/-! # At-least-once delivery and no premature acknowledgement

The account a queue's stream keeps with its consumer group, together with the acknowledgements and
justifications in the record, is a `Ledger`; every step of the system is a run of ledger steps
(`WorldStep.ledger_steps`), so the three states of an entry exclude each other in every reachable
state, and nothing is acknowledged without a justification earlier in the run.

Trimming is assumed away here: no call so far evicted an entry (`World.Untrimmed`). -/

namespace RelayQ

/-- No call so far evicted an entry. -/
def World.Untrimmed (w : World) : Prop := ∀ ev ∈ w.log, ev.evicted = 0

/-- The event is an acknowledgement of an entry that reached the server. -/
def Event.Acks (t : RedisStreamTransport) (queue : String) (entryId : Nat) (ev : Event) : Prop :=
  ev.applied = true ∧ ev.op = .redis (.xack (t.streamKey queue) (t.groupKey queue) entryId)

/-- What was not trimmed later was not trimmed before. -/
theorem World.Untrimmed.of_le {w w' : World} (h : w'.Untrimmed) (hle : w.Le w') : w.Untrimmed :=
  fun ev hev => h ev (hle.log.subset hev)

section

variable [Codec]

/-- The body decodes to a job for some client at some time. -/
def Decodes (body : Body) (j : Job) : Prop :=
  ∃ (t : RedisStreamTransport) (now : DateTime) (r : RawJob),
    t.decodeEntry now body = .job r ∧ r.typed? = some j

/-- The account of a queue as a ledger of entry ids. -/
def World.ledger (w : World) (t : RedisStreamTransport) (queue : String) : Ledger Nat where
  fresh := (w.redis (t.streamKey queue)).fresh (t.groupKey queue)
  pending := (w.redis (t.streamKey queue)).pending (t.groupKey queue)
  acked := {id | ∃ ev ∈ w.log, ev.Acks t queue id}
  justified := {id | ∃ jobId, w.Justified t queue id jobId}

variable {t : RedisStreamTransport} {queue : String}

/-- What one event adds to the justified entries of a queue: at most one. -/
theorem justified_cons (t : RedisStreamTransport) (queue : String) {w w' : World} {ev : Event}
    (hlog : w'.log = ev :: w.log) :
    (w'.ledger t queue).justified = (w.ledger t queue).justified ∨
    ∃ id, (w'.ledger t queue).justified = insert id (w.ledger t queue).justified := by
  by_cases h : ∃ id jobId, Justifies t queue id jobId ev
  · obtain ⟨id, jobId, hj⟩ := h
    refine .inr ⟨id, Set.ext fun i => ?_⟩
    simp only [World.ledger, World.Justified, hlog, List.mem_cons, Set.mem_ofPred_eq,
      Set.mem_insert_iff]
    constructor
    · rintro ⟨jobId', ev', rfl | hev', hj'⟩
      · obtain ⟨_, _, ha⟩ := hj.actor
        obtain ⟨_, _, ha'⟩ := hj'.actor
        exact .inl (Actor.executor.inj (ha'.symm.trans ha)).2.2.2
      · exact .inr ⟨jobId', ev', hev', hj'⟩
    · rintro (rfl | ⟨jobId', ev', hev', hj'⟩)
      · exact ⟨jobId, ev, .inl rfl, hj⟩
      · exact ⟨jobId', ev', .inr hev', hj'⟩
  · refine .inl (Set.ext fun i => ?_)
    simp only [World.ledger, World.Justified, hlog, List.mem_cons, Set.mem_ofPred_eq]
    constructor
    · rintro ⟨jobId', ev', rfl | hev', hj'⟩
      · exact absurd ⟨i, jobId', hj'⟩ h
      · exact ⟨jobId', ev', hev', hj'⟩
    · rintro ⟨jobId', ev', hev', hj'⟩
      exact ⟨jobId', ev', .inr hev', hj'⟩

/-- What one event adds to the acknowledged entries of a queue. -/
theorem acked_cons {w w' : World} {ev : Event}
    (hlog : w'.log = ev :: w.log) :
    (w'.ledger t queue).acked = {id | ev.Acks t queue id} ∪ (w.ledger t queue).acked := by
  ext i
  simp [World.ledger, hlog]

/-! ## The invariant of a queue -/

/-- What holds of a queue of the system while nothing is trimmed. -/
structure Sys.Accounted (t : RedisStreamTransport) (queue : String) (s : Sys) : Prop where
  full : (s.world.redis (t.streamKey queue)).Full
  sound : (s.world.ledger t queue).Sound
  complete : ∀ e ∈ (s.world.redis (t.streamKey queue)).entries,
    e.id ∈ (s.world.ledger t queue).arrived
  delivered : ∀ id ∈ (s.world.ledger t queue).acked, s.world.Delivered t queue id
  held : ∀ w ∈ s.workers, w.runner.queue = queue → ∀ d ∈ w.deliveries,
    ∃ e ∈ (s.world.redis (t.streamKey queue)).entries, e.id = d.entryId ∧
      ∃ (t' : RedisStreamTransport) (now : DateTime), t'.decodeEntry now e.fields = .job d.job
  acks : ∀ post ev pre, s.world.log = post ++ ev :: pre → ∀ id, ev.Acks t queue id →
    ∃ e ∈ (s.world.redis (t.streamKey queue)).entries, e.id = id ∧
      ∃ j, Decodes e.fields j ∧ ∃ ev' ∈ pre, Justifies t queue id j.id ev'

variable {s s' : Sys} {w' : World}

/-- An entry of the account is at most as new as the stream. -/
theorem Sys.Accounted.arrived_le (hw : s.Wired t) (h : s.Accounted t queue) {id : Nat}
    (hid : id ∈ (s.world.ledger t queue).arrived) :
    id ≤ (s.world.redis (t.streamKey queue)).lastId := by
  have hwf := hw.redis (t.streamKey queue)
  rcases hid with (⟨⟨e, he, rfl⟩, -⟩ | ⟨grp, hg, p, hp, rfl⟩) | hack
  · exact hwf.ids_le e he
  · exact ((hwf.groups _ _ hg).pel_le p hp).trans (hwf.groups _ _ hg).delivered_le
  · obtain ⟨grp, hg, hle⟩ := h.delivered id hack
    exact hle.trans (hwf.groups _ _ hg).delivered_le

/-- A call that is no acknowledgement carried out adds nothing to the acknowledged entries. -/
theorem acked_eq {w : World} {ev : Event} (hlog : w'.log = ev :: w.log)
    (hev : ∀ id, ¬ev.Acks t queue id) :
    (w'.ledger t queue).acked = (w.ledger t queue).acked := by
  rw [acked_cons hlog]
  ext i
  simp [hev i]

/-- An acknowledgement that the system may send is of a delivered, stored entry of its queue, whose
job it was given. -/
theorem Sys.Accounted.ack_allowed (hw : s.Wired t) (h : s.Accounted t queue) {a : Actor}
    {id : Nat}
    (ha : s.Allowed t a (.redis (.xack (t.streamKey queue) (t.groupKey queue) id))) :
    s.world.Delivered t queue id ∧ ∃ e ∈ (s.world.redis (t.streamKey queue)).entries, e.id = id ∧
      ∃ j, Decodes e.fields j ∧ s.world.Justified t queue id j.id := by
  obtain ⟨w, hwmem, d, hd, jobId, hk, -, rfl, hid, hj⟩ := ha _ rfl
  obtain rfl : queue = w.runner.queue := t.streamKey_injective hk
  refine ⟨(hw.workers w hwmem).delivered d hd, ?_⟩
  obtain ⟨e, he, heid, t', now, hdec⟩ := h.held w hwmem rfl d hd
  simp only [Delivery.jobId?, Option.map_eq_some_iff] at hid
  obtain ⟨j, hjob, rfl⟩ := hid
  exact ⟨e, he, heid, j, ⟨t', now, d.job, hdec, hjob⟩, hj⟩

/-- The ledger of a world with the justifications of another. -/
def World.account (w' w : World) (t : RedisStreamTransport) (queue : String) : Ledger Nat :=
  { w'.ledger t queue with justified := (w.ledger t queue).justified }

/-- A call that leaves the streams alone and is no acknowledgement leaves the account alone. -/
theorem account_eq {w : World} {ev : Event} (hredis : w'.redis = w.redis)
    (hlog : w'.log = ev :: w.log) (hev : ∀ id, ¬ev.Acks t queue id) :
    w'.account w t queue = w.ledger t queue := by
  refine Ledger.ext ?_ ?_ (acked_eq hlog hev) rfl <;> simp [World.account, World.ledger, hredis]

/-- What a command that is carried out does to the account. -/
theorem account_redis (hw : s.Wired t) (h : s.Accounted t queue) {a : Actor}
    {c : Redis.Cmd Body} {r : Except PyExc c.Res} (ha : s.Allowed t a (.redis c))
    (hw' : w' = (s.world.sendCmd c 0).1.record ⟨a, .redis c, true, 0, r⟩) :
    w'.account s.world t queue = s.world.ledger t queue ∨
      Ledger.Step (s.world.ledger t queue) (w'.account s.world t queue) := by
  subst hw'
  have hlog := World.record_log (s.world.sendCmd c 0).1 ⟨a, .redis c, true, 0, r⟩
  have hnoack : (∀ id, c ≠ .xack (t.streamKey queue) (t.groupKey queue) id) →
      ∀ id, ¬(⟨a, .redis c, true, 0, r⟩ : Event).Acks t queue id := by
    rintro hne id ⟨-, hop⟩
    exact hne id (Op.redis.inj hop)
  cases Redis.Keyspace.apply_account hw.redis h.full (t.groupKey queue) s.world.now
    ha.fromStart ha.deletes with
  | quiet hne hf hp => exact .inl (Ledger.ext hf hp (acked_eq hlog (hnoack hne)) rfl)
  | add hf hp =>
    right
    -- the new id is above all that have arrived
    have hfresh : (s.world.redis (t.streamKey queue)).lastId + 1 ∉
        (s.world.ledger t queue).arrived := by
      intro hmem
      have := h.arrived_le hw hmem
      omega
    convert Ledger.Step.arrive hfresh using 1
    exact Ledger.ext hf hp (acked_eq hlog (hnoack (by simp))) rfl
  | deliver hne hsub hf hp =>
    right
    convert Ledger.Step.deliver (l := s.world.ledger t queue) hsub using 1
    exact Ledger.ext hf hp (acked_eq hlog (hnoack hne)) rfl
  | @ack id hf hp =>
    right
    obtain ⟨⟨grp, hg, hle⟩, e, he, rfl, j, -, hj⟩ := h.ack_allowed hw ha
    -- the entry was delivered before, so the group's position has passed it
    have hnf : e.id ∉ (s.world.ledger t queue).fresh := fun hmem => by
      have := hmem.2 grp hg
      omega
    convert Ledger.Step.ack (l := s.world.ledger t queue) ⟨j.id, hj⟩ hnf (h.complete e he) using 1
    refine Ledger.ext hf hp ((acked_cons hlog).trans ?_) rfl
    ext i
    refine or_congr_left ⟨fun hi => ?_, fun hi => ?_⟩
    · obtain ⟨-, hop⟩ := hi
      exact (Redis.Cmd.xack.inj (Op.redis.inj hop)).2.2.symm
    · obtain rfl := hi
      exact ⟨rfl, rfl⟩

/-- What one answered call does to the account: at most one ledger step. -/
theorem account_step (hw : s.Wired t) (h : s.Accounted t queue) (hu : w'.Untrimmed)
    {site : Nat} {a : Actor} {o : Op} {ans : Answer} {r : Except PyExc o.Res}
    (ha : s.Allowed t a o) (hx : s.world.exec site a o ans = some (w', r)) :
    w'.account s.world t queue = s.world.ledger t queue ∨
      Ledger.Step (s.world.ledger t queue) (w'.account s.world t queue) := by
  by_cases ho : ∃ c, o = .redis c
  · obtain ⟨c, rfl⟩ := ho
    rcases World.exec_redis hx with ⟨n, -, rfl, -⟩ | ⟨e, -, -, -, rfl⟩
    · obtain rfl : n = 0 := hu _ (List.mem_cons_self ..)
      exact account_redis hw h ha rfl
    · exact .inl (account_eq rfl rfl fun id hack => by cases hack.1)
  · obtain ⟨hredis, applied, hlog⟩ := World.exec_other (fun c hc => ho ⟨c, hc⟩) hx
    exact .inl (account_eq hredis hlog fun id hack => ho ⟨_, hack.2⟩)

/-- **A step of the servers that the system can take is a run of ledger steps.** -/
theorem WorldStep.ledger_steps (hw : s.Wired t) (h : s.Accounted t queue)
    (hu : w'.Untrimmed) (hs : WorldStep (s.Allowed t) s.world w') :
    Relation.ReflTransGen Ledger.Step (s.world.ledger t queue) (w'.ledger t queue) := by
  cases hs with
  | idle => exact .refl
  | crash site => exact .refl
  | tick d => exact .refl
  | @call site a o ans w' r ha hx =>
    -- first the account, then the justification
    have hjust : Relation.ReflTransGen Ledger.Step (w'.account s.world t queue)
        (w'.ledger t queue) := by
      obtain ⟨applied, evicted, hlog⟩ := World.exec_log hx
      rcases justified_cons t queue hlog with hj | ⟨id, hj⟩
      · rw [World.account, ← hj]
      · have hstep := Ledger.Step.justify (l := w'.account s.world t queue) (a := id)
        simp only [World.account, ← hj] at hstep
        exact .single hstep
    rcases account_step hw h hu ha hx with heq | hstep
    · rwa [heq] at hjust
    · exact .head hstep hjust

/-! ## The invariant over a step -/

omit [Codec] in
/-- A step that neither evicts nor deletes loses no entry of any stream. -/
theorem WorldStep.mem_entries {P : Actor → Op → Prop} {w : World} (hs : WorldStep P w w')
    (hP : ∀ a c, P a (.redis c) → c.deletes = false) (hu : w'.Untrimmed) {k : String}
    {e : Redis.Entry Body} (he : e ∈ (w.redis k).entries) :
    e ∈ (w'.redis k).entries := by
  rcases hs.redis with ⟨a, c, n, r, hc, -, hredis, hlog⟩ | ⟨hredis, -⟩
  · obtain rfl : n = 0 := hu ⟨a, .redis c, true, n, r⟩ (hlog ▸ List.mem_cons_self ..)
    rw [hredis]
    exact Redis.Keyspace.mem_apply_of_mem w.redis w.now (hP a c hc) he
  · rwa [hredis]

/-- A stored entry was stored before or is new to the group. -/
theorem WorldStep.mem_fresh {P : Actor → Op → Prop} {w : World} (hs : WorldStep P w w')
    (hP : ∀ a c, P a (.redis c) → c.deletes = false) (hwf : w.redis.Wf) (hu : w'.Untrimmed)
    {e : Redis.Entry Body} (he : e ∈ (w'.redis (t.streamKey queue)).entries) :
    e ∈ (w.redis (t.streamKey queue)).entries ∨ e.id ∈ (w'.ledger t queue).fresh := by
  rcases hs.redis with ⟨a, c, n, r, ha, -, hredis, hlog⟩ | ⟨hredis, -⟩
  · obtain rfl : n = 0 := hu ⟨a, .redis c, true, n, r⟩ (hlog ▸ List.mem_cons_self ..)
    simp only [World.ledger]
    rw [hredis] at he ⊢
    cases hc : c.added? with
    | none =>
      exact .inl ((Redis.Keyspace.apply_entries w.redis w.now 0 hc (hP a c ha) _).1 ▸ he)
    | some kf =>
      cases c with
      | xadd k f m =>
        by_cases hk : t.streamKey queue = k
        · subst hk
          simp only [Redis.Keyspace.apply, Redis.Stream.evict, List.drop_zero,
            Function.update_self] at he ⊢
          rcases List.mem_append.mp he with he | he
          · exact .inl he
          · right
            rw [List.mem_singleton.mp he]
            exact (Redis.Stream.fresh_append (hwf _) f (t.groupKey queue)).symm ▸
              Set.mem_insert _ _
        · exact .inl (Redis.Keyspace.apply_of_ne w.redis w.now 0 (.xadd k f m) hk ▸ he)
      | _ => cases hc
  · exact .inl (hredis ▸ he)

omit [Codec] in
/-- Nothing is lost from a full stream by a step that neither evicts nor deletes. -/
theorem WorldStep.full {P : Actor → Op → Prop} {w : World} (hs : WorldStep P w w')
    (hP : ∀ a c, P a (.redis c) → c.deletes = false) (hwf : w.redis.Wf) (hu : w'.Untrimmed)
    {k : String} (hf : (w.redis k).Full) :
    (w'.redis k).Full := by
  rcases hs.redis with ⟨a, c, n, r, ha, -, hredis, hlog⟩ | ⟨hredis, -⟩
  · obtain rfl : n = 0 := hu ⟨a, .redis c, true, n, r⟩ (hlog ▸ List.mem_cons_self ..)
    rw [hredis]
    exact Redis.Keyspace.full_apply hwf hf w.now (hP a c ha)
  · rwa [hredis]

/-- An acknowledgement of the record after a step was in it before, or is the step. -/
theorem WorldStep.acks_cases (hs : WorldStep (s.Allowed t) s.world w') {post : List Event}
    {ev : Event} {pre : List Event} {id : Nat} (hlog : w'.log = post ++ ev :: pre)
    (hack : ev.Acks t queue id) :
    (∃ post', s.world.log = post' ++ ev :: pre) ∨
    pre = s.world.log ∧
      ∃ a, s.Allowed t a (.redis (.xack (t.streamKey queue) (t.groupKey queue) id)) := by
  have hold : ∀ ev', w'.log = ev' :: s.world.log → post ≠ [] →
      ∃ post', s.world.log = post' ++ ev :: pre := by
    intro ev' hlog' hne
    obtain ⟨x, post', rfl⟩ := List.exists_cons_of_ne_nil hne
    exact ⟨post', (List.cons.inj (hlog'.symm.trans hlog)).2⟩
  rcases hs.redis with ⟨a, c, n, r, ha, -, -, hlog'⟩ | ⟨-, hlog' | ⟨ev', hlog', hev', -⟩⟩
  · by_cases hp : post = []
    · subst hp
      obtain ⟨rfl, rfl⟩ := List.cons.inj (hlog'.symm.trans hlog)
      obtain rfl := Op.redis.inj hack.2
      exact .inr ⟨rfl, a, ha⟩
    · exact .inl (hold _ hlog' hp)
  · exact .inl ⟨post, hlog' ▸ hlog⟩
  · by_cases hp : post = []
    · subst hp
      obtain ⟨rfl, rfl⟩ := List.cons.inj (hlog'.symm.trans hlog)
      exact absurd (hev' _ hack.2) (by simp [hack.1])
    · exact .inl (hold _ hlog' hp)

/-- What a worker holds after a step is stored under its own entry. -/
theorem Sys.Accounted.held_step (hw : s.Wired t) (h : s.Accounted t queue)
    (hu : s'.world.Untrimmed) {l : SysLabel} (hs : s.step l = some s') {w : Worker}
    (hmem : w ∈ s'.workers) (hq : w.runner.queue = queue) {d : Delivery}
    (hd : d ∈ w.deliveries) :
    ∃ e ∈ (s'.world.redis (t.streamKey queue)).entries, e.id = d.entryId ∧
      ∃ (t' : RedisStreamTransport) (now : DateTime),
        t'.decodeEntry now e.fields = .job d.job := by
  have hkeep : ∀ w₀ ∈ s.workers, w₀.runner.queue = queue → d ∈ w₀.deliveries →
      ∃ e ∈ (s'.world.redis (t.streamKey queue)).entries, e.id = d.entryId ∧
        ∃ (t' : RedisStreamTransport) (now : DateTime),
          t'.decodeEntry now e.fields = .job d.job := by
    intro w₀ hw₀ hq₀ hd₀
    obtain ⟨e, he, hrest⟩ := h.held w₀ hw₀ hq₀ d hd₀
    exact ⟨e, (Sys.step_world hw hs).mem_entries (fun _ _ ha => ha.deletes) hu he, hrest⟩
  rcases Sys.step_cases hs with ⟨pl, p, rfl, -, hp, rfl⟩ | ⟨r, site, rfl, rfl⟩ |
    ⟨i, wl, w₀, world, w', rfl, hw₀, -, hx, rfl⟩
  · obtain ⟨w₀, hw₀, rfl | rfl⟩ := Sys.mem_killed hmem
    · exact hkeep w hw₀ hq hd
    · exact hkeep w₀ hw₀ hq hd
  · rcases List.mem_append.mp hmem with hmem | hmem
    · exact hkeep w hmem hq hd
    · obtain rfl := List.mem_singleton.mp hmem
      cases hd
  · have hw₀mem := List.mem_of_getElem? hw₀
    rcases List.mem_or_eq_of_mem_set hmem with hmem | rfl
    · exact hkeep w hmem hq hd
    · have hm := Worker.step_move hx
      have hq₀ : w₀.runner.queue = queue := hm.frame.1 ▸ hq
      rcases hm.deliveries hd with hd | ⟨now, grp, consumer, count, e, -, -, hent, he, hid, hdec⟩
      · exact hkeep w₀ hw₀mem hq₀ hd
      · have hk := RedisStreamTransport.streamKey_congr (hw.workers w₀ hw₀mem).uses.1 w₀.runner.queue
        rw [hk] at hent he
        subst hq₀
        refine ⟨e, ?_, hid, _, now, hdec⟩
        exact (show (world.redis _).entries = _ from hent).symm ▸
          (Redis.Stream.mem_of_mem_deliver he).1

/-- **Every step that evicts nothing keeps a queue accounted.** -/
theorem Sys.Accounted.step (hw : s.Wired t) (h : s.Accounted t queue)
    (hu : s'.world.Untrimmed) {l : SysLabel} (hs : s.step l = some s') :
    s'.Accounted t queue := by
  have hworld := Sys.step_world hw hs
  have hsteps := hworld.ledger_steps hw h hu
  have hdel : ∀ a c, s.Allowed t a (.redis c) → c.deletes = false := fun _ _ ha => ha.deletes
  refine ⟨hworld.full hdel hw.redis hu h.full, ?_, ?_, ?_, fun w hmem hq d hd =>
    h.held_step hw hu hs hmem hq hd, ?_⟩
  · exact Relation.ReflTransGen.head_induction_on (motive := fun l _ => l.Sound → _) hsteps id
      (fun hstep _ ih hl => ih (hstep.sound hl)) h.sound
  · intro e he
    rcases hworld.mem_fresh hdel hw.redis hu he with he | he
    · have hsub : ∀ {l l' : Ledger Nat}, Relation.ReflTransGen Ledger.Step l l' →
          l.arrived ⊆ l'.arrived := by
        intro l l' hll
        induction hll with
        | refl => exact subset_rfl
        | tail _ hstep ih => exact ih.trans hstep.arrived_subset
      exact hsub hsteps (h.complete e he)
    · exact .inl (.inl he)
  · rintro id ⟨ev, hev, hack⟩
    -- the acknowledgement is an earlier one, or the one this step made
    obtain ⟨post, pre, hlog⟩ := List.append_of_mem hev
    rcases hworld.acks_cases hlog hack with ⟨post', hlog'⟩ | ⟨rfl, a, ha⟩
    · refine hworld.le.delivered (h.delivered id ⟨ev, ?_, hack⟩)
      rw [hlog']
      simp
    · exact hworld.le.delivered (h.ack_allowed hw ha).1
  · intro post ev pre hlog id hack
    rcases hworld.acks_cases hlog hack with ⟨post', hlog'⟩ | ⟨rfl, a, ha⟩
    · obtain ⟨e, he, hrest⟩ := h.acks post' ev pre hlog' id hack
      exact ⟨e, hworld.mem_entries hdel hu he, hrest⟩
    · obtain ⟨-, e, he, hid, j, hdec, hj⟩ := h.ack_allowed hw ha
      exact ⟨e, hworld.mem_entries hdel hu he, hid, j, hdec, hj⟩

/-- Nothing has happened to a queue at the start. -/
theorem Sys.accounted_init : Sys.init.Accounted t queue where
  full := Redis.Stream.full_empty
  sound := by
    constructor <;> simp [World.ledger, Sys.init, Sys.world, World.init, Redis.Stream.fresh,
      Redis.Stream.empty]
  complete := by simp [Sys.init, Sys.world, World.init, Redis.Stream.empty]
  delivered := by simp [World.ledger, Sys.init, Sys.world, World.init]
  held := by simp [Sys.init]
  acks := by simp [Sys.init, Sys.world, World.init]

/-- A run that evicts nothing keeps a queue accounted. -/
theorem Sys.Run.accounted (hrun : Sys.Run t s s') (hw : s.Wired t) (h : s.Accounted t queue)
    (hu : s'.world.Untrimmed) : s'.Accounted t queue := by
  have hinv : s'.Wired t ∧ (s'.world.Untrimmed → s'.Accounted t queue) := by
    refine Reaches.invariant
      (P := fun u => u.Wired t ∧ (u.world.Untrimmed → u.Accounted t queue))
      (fun u l v hu hl hs => ⟨hu.1.step hl hs, fun hv => ?_⟩) hrun ⟨hw, fun _ => h⟩
    exact (hu.2 (hv.of_le (Sys.step_world hu.1 hs).le)).step hu.1 hv hs
  exact hinv.2 hu

/-- A run that evicts nothing loses no entry. -/
theorem Sys.Run.mem_entries (hrun : Sys.Run t s s') (hw : s.Wired t) (hu : s'.world.Untrimmed)
    {k : String} {e : Redis.Entry Body} (he : e ∈ (s.world.redis k).entries) :
    e ∈ (s'.world.redis k).entries := by
  have hinv : s'.Wired t ∧ (s'.world.Untrimmed → e ∈ (s'.world.redis k).entries) := by
    refine Reaches.invariant
      (P := fun u => u.Wired t ∧ (u.world.Untrimmed → e ∈ (u.world.redis k).entries))
      (fun u l v hu hl hs => ⟨hu.1.step hl hs, fun hv => ?_⟩) hrun ⟨hw, fun _ => he⟩
    have hworld := Sys.step_world hu.1 hs
    exact hworld.mem_entries (fun _ _ ha => ha.deletes) hv (hu.2 (hv.of_le hworld.le))
  exact hinv.2 hu

/-- **At-least-once delivery, no premature acknowledgement.** Once an entry is on the stream of a
queue, it is ever after in exactly one of three states; an acknowledgement of it that reaches the
server comes after its justification, by an `execute` of the same entry with the job its body
decodes to; and an entry whose body does not decode is never acknowledged. -/
theorem atLeastOnce (hrun : Sys.Run t Sys.init s) (hrun' : Sys.Run t s s')
    (hu : s'.world.Untrimmed) {e : Redis.Entry Body}
    (he : e ∈ (s.world.redis (t.streamKey queue)).entries) :
    ExactlyOne (e.id ∈ (s'.world.ledger t queue).fresh)
      (e.id ∈ (s'.world.ledger t queue).pending) (e.id ∈ (s'.world.ledger t queue).acked) ∧
    (∀ post ev pre, s'.world.log = post ++ ev :: pre → ev.Acks t queue e.id →
      ∃ j, Decodes e.fields j ∧ ∃ ev' ∈ pre, Justifies t queue e.id j.id ev') ∧
    ((∀ j, ¬Decodes e.fields j) → e.id ∉ (s'.world.ledger t queue).acked) := by
  have hw := hrun.wired (Sys.wired_init (t := t))
  have hacc : s'.Accounted t queue :=
    Sys.Run.accounted (Reaches.trans hrun hrun') Sys.wired_init Sys.accounted_init hu
  have he' := hrun'.mem_entries hw hu he
  have hacks : ∀ post ev pre, s'.world.log = post ++ ev :: pre → ev.Acks t queue e.id →
      ∃ j, Decodes e.fields j ∧ ∃ ev' ∈ pre, Justifies t queue e.id j.id ev' := by
    intro post ev pre hlog hack
    obtain ⟨e₁, he₁, hid, hrest⟩ := hacc.acks post ev pre hlog e.id hack
    obtain rfl := ((hrun'.wired hw).redis _).eq_of_id_eq he₁ he' hid
    exact hrest
  refine ⟨hacc.sound.exactlyOne (hacc.complete e he'), hacks, ?_⟩
  rintro hno ⟨ev, hev, hack⟩
  obtain ⟨post, pre, hlog⟩ := List.append_of_mem hev
  obtain ⟨j, hj, -⟩ := hacks post ev pre hlog hack
  exact hno j hj

end

/-- A delivered entry is acknowledged once its handler has returned. -/
theorem atLeastOnce_acked : ∃ (s s' : Sys) (e : Redis.Entry Body) (ack : Event) (pre : List Event),
    e ∈ (s.world.redis (Sample.transport.streamKey "default")).entries ∧
    e.id ∈ (s.world.ledger Sample.transport "default").pending ∧
    ExactlyOne (e.id ∈ (s'.world.ledger Sample.transport "default").fresh)
      (e.id ∈ (s'.world.ledger Sample.transport "default").pending)
      (e.id ∈ (s'.world.ledger Sample.transport "default").acked) ∧
    s'.world.log = ack :: pre ∧ ack.Acks Sample.transport "default" e.id ∧
    ∃ j, Decodes e.fields j ∧ ∃ ev' ∈ pre, Justifies Sample.transport "default" e.id j.id ev' := by
  obtain ⟨⟨pool, workers⟩, hs, rfl, -, hent, hg, hevicted⟩ := Sample.exists_polled "1"
  have hrun : Sys.Run Sample.transport Sys.init ⟨pool, [Sample.polled "1"]⟩ :=
    hs.mono fun _ l hl => hl.1
  -- the task is created, starts, reads the clock, runs the handler, measures, acknowledges
  obtain ⟨s', hs', ack, pre, hlog, hack, hrest⟩ : ∃ s',
      Sys.Run Sample.transport ⟨pool, [Sample.polled "1"]⟩ s' ∧ ∃ ack pre,
        s'.world.log = ack :: pre ∧ ack.Acks Sample.transport "default" 1 ∧
        (ack :: pre).map Event.evicted = [0, 0, 0, 0, 0] ++ pool.world.log.map Event.evicted :=
    ⟨_, .tail (l := .worker 0 (.task 0 (.ok 0))) (.tail (l := .worker 0 (.task 0 (.ok 0)))
      (.tail (l := .worker 0 (.task 0 (.ok 0)))
        (.tail (l := .worker 0 (.task 0 (.ran ⟨.empty, none⟩)))
          (.tail (l := .worker 0 (.task 0 (.ok 0))) (.tail (l := .worker 0 (.startTask 0))
            (.single (l := .worker 0 .acquire) trivial rfl) trivial rfl) trivial rfl)
          trivial rfl) trivial rfl) trivial rfl) trivial rfl, _, _, rfl, ⟨rfl, rfl⟩, rfl⟩
  have hu : s'.world.Untrimmed := by
    intro ev hev
    have hmem := List.mem_map_of_mem (f := Event.evicted) (hlog ▸ hev)
    rw [hrest] at hmem
    rcases List.mem_append.mp hmem with hmem | hmem
    · simpa using hmem
    · obtain ⟨ev', hev', heq⟩ := List.mem_map.mp hmem
      exact heq.symm.trans (hevicted ev' hev')
  have he : (⟨1, RedisStreamTransport.jobBody Sample.job⟩ : Redis.Entry Body) ∈
      (pool.world.redis (Sample.transport.streamKey "default")).entries :=
    (show (pool.world.redis _).entries = _ from hent) ▸ List.mem_singleton_self _
  obtain ⟨hone, hacks, -⟩ := atLeastOnce hrun hs' hu he
  exact ⟨_, s', _, ack, pre, he, ⟨_, hg, _, List.mem_singleton_self _, rfl⟩, hone, hlog, hack,
    hacks [] ack pre hlog hack⟩

end RelayQ

import RelayQ.Guarantees.QueueIsolation
import RelayQ.System.Calls

/-! # Dead letters are kept

Nothing that the code does on its own takes an entry away from a dead-letter stream: they have no
length limit, the limit of the other streams is applied to those only, and a replay fails before it
deletes. Only a client that calls `delete_dlq_entry` itself can.

* `Op.Keeps`: the calls that take nothing from a dead-letter stream.
* `ReplayCall`: the calls of a replay.
* `Service.Kept`: the invariant; `Service.deadLettersKept`: dead letters are never lost, changed or
  reordered, however many replays are requested. -/

namespace RelayQ

/-- A stream is never a dead-letter stream, whatever the prefixes. -/
theorem RedisStreamTransport.streamKey_ne_dlqKey_of (t t' : RedisStreamTransport) (q q' : String) :
    t.streamKey q ≠ t'.dlqKey q' := by
  intro h
  have hl := congrArg (fun s => s.toList.reverse.head?) h
  simp [streamKey, dlqKey] at hl

/-- The command takes nothing from a dead-letter stream. -/
def CmdKeeps (t : RedisStreamTransport) (c : Redis.Cmd Body) : Prop :=
  c.fromStart ∧ ∀ queue, c.removesFrom (t.dlqKey queue) = false

/-- The call takes nothing from a dead-letter stream. -/
def Op.Keeps (t : RedisStreamTransport) : Op → Prop
  | .redis c => CmdKeeps t c
  | _ => True

/-- The calls of a replay: it looks for the dead letter, reads a depth, and begins and ends a
transaction. -/
def ReplayCall : Op → Prop
  | .redis (.xrevrange _ _) | .redis (.xlen _) => True
  | .sql .begin | .sql .rollback => True
  | _ => False

section

variable {t : RedisStreamTransport}

/-- A command that appends nothing and deletes nothing. -/
theorem cmdKeeps_of_not_added {c : Redis.Cmd Body} (hc : c.fromStart) (hadd : c.added? = none)
    (hdel : c.deletes = false) : CmdKeeps t c := by
  refine ⟨hc, fun queue => ?_⟩
  cases c with
  | xadd _ _ _ => cases hadd
  | xdel _ _ => cases hdel
  | _ => rfl

/-- An append to a stream, or one without a limit. -/
theorem cmdKeeps_xadd {key : String} {body : Body} {lim : Option (Nat × Bool)}
    (h : lim = none ∨ ∃ (t' : RedisStreamTransport) (queue : String), key = t'.streamKey queue) :
    CmdKeeps t (.xadd key body lim) := by
  refine ⟨trivial, fun queue => ?_⟩
  rcases h with rfl | ⟨t', queue', rfl⟩
  · rfl
  · cases lim with
    | none => rfl
    | some lim => exact decide_eq_false (t'.streamKey_ne_dlqKey_of t queue' queue)

/-- What a replay calls takes nothing from a dead-letter stream. -/
theorem ReplayCall.keeps {o : Op} (h : ReplayCall o) : o.Keeps t := by
  cases o with
  | redis c =>
    cases c with
    | xrevrange _ _ | xlen _ => exact cmdKeeps_of_not_added trivial rfl rfl
    | _ => exact h.elim
  | _ => trivial

/-- A call that takes nothing from a dead-letter stream leaves at least what was there, in order. -/
theorem Op.Keeps.grows {w w' : World} {site : Nat} {a : Actor} {o : Op} {ans : Answer}
    {r : Except PyExc o.Res} (ho : o.Keeps t) (hx : w.exec site a o ans = some (w', r))
    (queue : String) :
    (w.redis (t.dlqKey queue)).entries <+: (w'.redis (t.dlqKey queue)).entries := by
  by_cases hc : ∃ c, o = .redis c
  · obtain ⟨c, rfl⟩ := hc
    rcases World.exec_redis hx with ⟨n, hn, rfl, -⟩ | ⟨e, -, -, -, rfl⟩
    · exact Redis.Keyspace.entries_prefix_apply w.redis w.now n (ho.2 queue) hn
    · exact List.prefix_refl _
  · rw [(World.exec_other (fun c h => hc ⟨c, h⟩) hx).1]

/-- It creates groups at the start of their stream only. -/
theorem Op.Keeps.fromStart {o : Op} (ho : o.Keeps t) : ∀ c, o = .redis c → c.fromStart := by
  rintro c rfl
  exact ho.1

variable [Codec]

/-! ## The operations -/

/-- A call of `enqueue` appends to a stream. -/
theorem keeps_of_enqueueGuard {enq : Enqueuer} {args : EnqueueArgs} {ph : Enqueuer.Phase} {o : Op}
    (h : (enq.monitor args).guard ph o) : o.Keeps t := by
  cases o with
  | redis c =>
    cases c with
    | xlen _ => exact cmdKeeps_of_not_added trivial rfl rfl
    | xadd key body lim => exact cmdKeeps_xadd (.inr ⟨_, _, h.2.1⟩)
    | _ => exact h.elim
  | _ => trivial

/-- A job task appends to a dead-letter stream without a limit. -/
theorem keeps_of_executeGuard {t' : RedisStreamTransport} {queue jobId : String} {entryId : Nat}
    {ph : ExecPhase} {o : Op} (h : (executeMonitor t' queue entryId jobId).guard ph o) :
    o.Keeps t := by
  cases o with
  | redis c =>
    cases c with
    | xack _ _ _ => exact cmdKeeps_of_not_added trivial rfl rfl
    | xadd key body lim => exact cmdKeeps_xadd (.inl h.2.1)
    | _ => exact h.elim
  | _ => trivial

/-- An object whose status is a plain text gets no further than its depth and a transaction, and is
not enqueued. -/
theorem Enqueuer.wp_enqueueObject_text (enq : Enqueuer) (job : Job) (status : String) :
    (enq.enqueueObject { job } (.text status)).wp (.only ReplayCall)
      (fun r _ => ∀ id, r ≠ .ok id) () := by
  refine Prog.wp_perform_bind trivial (fun depth => ?_) fun _ _ h => nomatch h
  split
  · exact fun _ h => nomatch h
  -- without a key there is no lookup
  refine Prog.wp_bind_of (p := writeOutboxObject enq job (.text status))
    (R := fun _ _ => True) ?_ (fun _ _ _ _ h => nomatch h) fun _ _ _ _ h => nomatch h
  unfold writeOutboxObject
  split
  · -- the insert raises, so nothing is committed
    refine Prog.Calls.bind (.perform trivial) fun _ => .tryExcept (.raise _) fun e => ?_
    split
    · exact .bind (.perform trivial) fun _ => .raise _
    · trivial
  · trivial

/-- **What a replay calls.** -/
theorem calls_replayDlqJob_replay (enq : Enqueuer) (name jobId : String) (now : DateTime) :
    (replayDlqJob ⟨some enq⟩ name jobId now).Calls ReplayCall := by
  refine .bind (.bind (.perform trivial) fun _ => .ofExcept _) fun entry => ?_
  cases entry with
  | none => trivial
  | some entry =>
    dsimp only
    split
    · trivial
    · split
      · trivial
      · -- the enqueuing raises, so nothing is deleted
        exact Prog.wp_bind_of (enq.wp_enqueueObject_text _ _) (fun id _ h => absurd rfl (h id))
          fun _ _ _ => trivial

/-- A method of the transport, `delete_dlq_entry` apart, takes nothing from a dead-letter stream. -/
theorem TransportOp.calls_keeps (op : TransportOp) (t' : RedisStreamTransport) (queue : String)
    (hop : ∀ entryId, op ≠ .deleteDlqEntry entryId) : (op.code t' queue).Calls (Op.Keeps t) := by
  have hread : ∀ {c : Redis.Cmd Body}, c.fromStart → c.added? = none → c.deletes = false →
      (perform (.redis c)).Calls (Op.Keeps t) := fun hc hadd hdel =>
    .perform (cmdKeeps_of_not_added hc hadd hdel)
  cases op with
  | ensureGroup =>
    refine .tryExcept (hread rfl rfl rfl) fun e => ?_
    split
    · split <;> trivial
    · trivial
  | streamLength => exact calls_discard (hread trivial rfl rfl)
  | xadd job maxlen approximate =>
    exact calls_discard (.perform (cmdKeeps_xadd (.inr ⟨t', queue, rfl⟩)))
  | xaddDlq job reason => exact calls_discard (.perform (cmdKeeps_xadd (.inl rfl)))
  | readGroup workerId count blockMs now =>
    refine calls_discard ?_
    unfold RedisStreamTransport.readGroup
    split
    · trivial
    · exact .bind (hread trivial rfl rfl) fun _ => .ofExcept _
  | xack entryId => exact calls_discard (hread trivial rfl rfl)
  | autoclaimStale workerId minIdleMs count now =>
    exact calls_discard (.bind (hread trivial rfl rfl) fun _ => .ofExcept _)
  | readDlq count =>
    refine calls_discard ?_
    unfold RedisStreamTransport.readDlq
    split
    · trivial
    · exact .bind (hread trivial rfl rfl) fun _ => .ofExcept _
  | readDlqEntry jobId =>
    exact calls_discard (.bind (hread trivial rfl rfl) fun _ => .ofExcept _)
  | deleteDlqEntry entryId => exact absurd rfl (hop entryId)

namespace QueueOp

/-- The operation is not a deletion among the dead letters. -/
def keeps : QueueOp → Bool
  | transport _ _ (.deleteDlqEntry _) => false
  | _ => true

/-- The operation is a replay. -/
def isReplay : QueueOp → Bool
  | replayDlqJob _ _ _ _ => true
  | _ => false

/-- The calls an operation may make. -/
def May (t : RedisStreamTransport) (op : QueueOp) (o : Op) : Prop :=
  o.Keeps t ∧ (op.isReplay = true → ReplayCall o)

/-- The operations make no others. -/
theorem calls_may (op : QueueOp) (hop : op.keeps = true) : op.code.Calls (op.May t) := by
  have hplain : ∀ {p : Py Unit}, op.isReplay = false → p.Calls (Op.Keeps t) → p.Calls (op.May t) :=
    fun hno hp => hp.mono fun o ho => ⟨ho, fun h => nomatch hno.symm.trans h⟩
  cases op with
  | transport t' queue op =>
    refine hplain rfl (op.calls_keeps t' queue fun entryId heq => ?_)
    subst heq
    cases hop
  | enqueue c =>
    exact hplain rfl (calls_discard
      (.of_wp (c.enqueuer.wp_enqueue c.args) fun _ _ => keeps_of_enqueueGuard))
  | execute c =>
    exact hplain rfl (calls_discard
      (.of_wp (c.executor.wp_execute c.queue c.entryId {} c.job) fun _ _ => keeps_of_executeGuard))
  | replayDlqJob enq name jobId now =>
    exact (calls_discard (calls_replayDlqJob_replay enq name jobId now)).mono
      fun _ ho => ⟨ho.keeps, fun _ => ho⟩

end QueueOp

/-! ## Runs -/

/-- Whatever the system calls takes nothing from a dead-letter stream. -/
theorem Sys.Called.keeps {s : Sys} {site : Nat} {a : Actor} {o : Op} (h : s.Called site a o) :
    o.Keeps t := by
  cases h with
  | enqueue _ _ hg => exact keeps_of_enqueueGuard hg
  | task _ hg => exact keeps_of_executeGuard hg
  | reader _ _ hstart hadd hdel => exact cmdKeeps_of_not_added hstart hadd hdel
  | foreign key body => exact cmdKeeps_xadd (.inl rfl)

namespace Service

/-- The runs in which no client deletes a dead letter itself: workers and producers use the one
prefix. -/
def Keeping (t : RedisStreamTransport) : ServiceLabel → Prop
  | .sys l => l.uses t.streamPrefix
  | .start op _ => op.keeps = true
  | .answer _ _ => True

/-- What holds at every moment of a run. -/
structure Kept (t : RedisStreamTransport) (s : Service) : Prop where
  sys : s.sys.Wired t
  ops : ∀ c ∈ s.ops, ∀ p, c.prog = some p → p.Calls (c.info.May t)
  log : ∀ ev ∈ s.world.log, ∀ n, ev.actor = .api n →
    ∃ c, s.ops[n]? = some c ∧ c.info.May t ev.op

variable {s s' : Service} {l : ServiceLabel}

/-- Nothing is in a dead-letter stream at the start. -/
theorem kept_init : init.Kept t where
  sys := Sys.wired_init
  ops := by simp [init]
  log := by simp [init, world, Sys.init, Sys.world, World.init]

omit [Codec] in
/-- The operations after a crash are those of before. -/
theorem getElem?_survivors {ops : List (Proc RelaySig Nat QueueOp Unit)} {sl : SysLabel} {n : Nat}
    {c : Proc RelaySig Nat QueueOp Unit} (h : ops[n]? = some c) :
    ∃ c', (survivors ops sl)[n]? = some c' ∧ c'.info = c.info := by
  unfold survivors
  split
  · exact ⟨_, by rw [List.getElem?_map, h]; rfl, Proc.kill_info _ _⟩
  · exact ⟨c, h, rfl⟩

omit [Codec] in
/-- An operation that goes on is the one it was. -/
theorem getElem?_set_prog {ops : List (Proc RelaySig Nat QueueOp Unit)} {i n : Nat}
    {c c' : Proc RelaySig Nat QueueOp Unit} (q : Option (Py Unit)) (hi : ops[i]? = some c)
    (hn : ops[n]? = some c') :
    ∃ c'', (ops.set i { c with prog := q })[n]? = some c'' ∧ c''.info = c'.info := by
  by_cases hin : i = n
  · subst hin
    obtain rfl := Option.some.inj (hi.symm.trans hn)
    exact ⟨_, List.getElem?_set_self (List.getElem?_eq_some_iff.mp hi).1, rfl⟩
  · exact ⟨c', by rw [List.getElem?_set_ne hin]; exact hn, rfl⟩

omit [Codec] in
/-- What goes on after a crash went on before. -/
theorem mem_survivors {ops : List (Proc RelaySig Nat QueueOp Unit)} {sl : SysLabel}
    {c : Proc RelaySig Nat QueueOp Unit} {p : Py Unit} (hc : c ∈ survivors ops sl)
    (hp : c.prog = some p) : c ∈ ops := by
  unfold survivors at hc
  split at hc
  · obtain ⟨c₀, hc₀, rfl⟩ := List.mem_map.mp hc
    rwa [(Proc.kill_prog_eq_some hp).2]
  · exact hc

/-- **A step of the system keeps the dead letters.** -/
theorem Kept.step_sys {sl : SysLabel} {sys : Sys} (h : s.Kept t) (hl : sl.uses t.streamPrefix)
    (hs : s.sys.step sl = some sys) : Kept t ⟨sys, survivors s.ops sl⟩ ∧ ∀ queue,
      (s.world.redis (t.dlqKey queue)).entries <+: (sys.world.redis (t.dlqKey queue)).entries := by
  -- an event of an operation is one that was recorded before
  have hold : ∀ ev ∈ s.world.log, ∀ n, ev.actor = .api n →
      ∃ c, (survivors s.ops sl)[n]? = some c ∧ c.info.May t ev.op := fun ev hev n ha => by
    obtain ⟨c, hc, hmay⟩ := h.log ev hev n ha
    obtain ⟨c', hc', hinfo⟩ := getElem?_survivors hc
    exact ⟨c', hc', hinfo ▸ hmay⟩
  have hops : ∀ c ∈ survivors s.ops sl, ∀ p, c.prog = some p → p.Calls (c.info.May t) :=
    fun c hc p hp => h.ops c (mem_survivors hc hp) p hp
  rcases Sys.step_called h.sys hs with ⟨hlog, hredis, -⟩ | ⟨site, a, o, ans, r, hcalled, hx⟩
  · refine ⟨⟨h.sys.step hl hs, hops, fun ev hev => hold ev (hlog ▸ hev)⟩, fun queue => ?_⟩
    rw [hredis]
    exact List.prefix_refl _
  · refine ⟨⟨h.sys.step hl hs, hops, fun ev hev n ha => ?_⟩, hcalled.keeps.grows hx⟩
    obtain ⟨_, _, hlog⟩ := World.exec_log hx
    rcases List.mem_cons.mp (hlog ▸ hev : ev ∈ _ :: s.sys.world.log) with rfl | hev
    · -- the system calls as nobody's operation
      cases hcalled with
      | reader _ hactor _ _ _ => rcases hactor with rfl | rfl <;> cases ha
      | _ => cases ha
    · exact hold ev hev n ha

/-- **One step keeps the dead letters.** -/
theorem Kept.step (h : s.Kept t) (hl : Keeping t l) (hs : s.step l = some s') : s'.Kept t ∧
    ∀ queue, (s.world.redis (t.dlqKey queue)).entries <+:
      (s'.world.redis (t.dlqKey queue)).entries := by
  rcases step_cases hs with ⟨sl, sys, rfl, hsys, rfl⟩ | ⟨op, site, rfl, rfl⟩ |
    ⟨i, ans, c, o, k, w, r, rfl, hc, hprog, hx, rfl⟩
  · exact h.step_sys hl hsys
  · -- an operation starts
    refine ⟨⟨h.sys, fun c hc p hp => ?_, fun ev hev n ha => ?_⟩, fun _ => List.prefix_refl _⟩
    · rcases List.mem_append.mp hc with hc | hc
      · exact h.ops c hc p hp
      · obtain rfl := List.mem_singleton.mp hc
        obtain rfl := Option.some.inj hp
        exact op.calls_may hl
    · obtain ⟨c, hc, hmay⟩ := h.log ev hev n ha
      exact ⟨c, List.getElem?_append_left (List.getElem?_eq_some_iff.mp hc).1 ▸ hc, hmay⟩
  · -- it is answered
    obtain ⟨hmay, hrest⟩ := h.ops c (List.mem_of_getElem? hc) _ hprog
    refine ⟨⟨⟨World.exec_wf h.sys.redis hmay.1.fromStart hx, h.sys.calls,
      fun w hw => (h.sys.workers w hw).mono (World.exec_le hx)⟩, fun c' hc' p hp => ?_,
      fun ev hev n ha => ?_⟩, hmay.1.grows hx⟩
    · rcases List.mem_or_eq_of_mem_set hc' with hc' | rfl
      · exact h.ops c' hc' p hp
      · obtain rfl := Option.some.inj hp
        exact hrest r
    · obtain ⟨_, _, hlog⟩ := World.exec_log hx
      rcases List.mem_cons.mp (hlog ▸ hev : ev ∈ _ :: s.world.log) with rfl | hev
      · obtain rfl := Actor.api.inj ha
        obtain ⟨c₂, hc₂, hinfo⟩ := getElem?_set_prog (some (k r)) hc hc
        exact ⟨c₂, hc₂, hinfo ▸ hmay⟩
      · obtain ⟨c₁, hc₁, hmay₁⟩ := h.log ev hev n ha
        obtain ⟨c₂, hc₂, hinfo⟩ := getElem?_set_prog (some (k r)) hc hc₁
        exact ⟨c₂, hc₂, hinfo ▸ hmay₁⟩

/-- A run keeps what the calls may do, and the dead letters of every queue with new ones after them. -/
theorem Kept.reaches (hkept : s.Kept t) (h : Reaches Service.step (fun _ => Keeping t) s s') :
    s'.Kept t ∧ ∀ queue, (s.world.redis (t.dlqKey queue)).entries <+:
      (s'.world.redis (t.dlqKey queue)).entries := by
  refine Reaches.invariant (P := fun u => u.Kept t ∧ ∀ queue,
    (s.world.redis (t.dlqKey queue)).entries <+: (u.world.redis (t.dlqKey queue)).entries)
    (fun u l v hu hl hs => ?_) h ⟨hkept, fun _ => List.prefix_refl _⟩
  obtain ⟨hkept', hpre⟩ := hu.1.step hl hs
  exact ⟨hkept', fun queue => (hu.2 queue).trans (hpre queue)⟩

/-- **Dead letters are kept**: in every run in which no client deletes a dead letter itself, with any
number of workers, producers, writers outside the code and operations, replays among them, and with
crashes and faults, the dead letters of every queue stay as they are and new ones come after them. A
replay reads, and begins and ends a transaction: it neither appends nor deletes. -/
theorem deadLettersKept (h₀ : Reaches step (fun _ => Keeping t) init s)
    (h : Reaches step (fun _ => Keeping t) s s') :
    (∀ queue, (s.world.redis (t.dlqKey queue)).entries <+:
      (s'.world.redis (t.dlqKey queue)).entries) ∧
    ∀ n c, s'.ops[n]? = some c → c.info.isReplay = true →
      ∀ ev ∈ s'.world.log, ev.actor = .api n → ReplayCall ev.op := by
  obtain ⟨hkept', hpre⟩ := (kept_init.reaches h₀).1.reaches h
  refine ⟨hpre, fun n c hc hreplay ev hev ha => ?_⟩
  obtain ⟨c', hc', hmay⟩ := hkept'.log ev hev n ha
  obtain rfl := Option.some.inj (hc.symm.trans hc')
  exact hmay.2 hreplay

end Service

end

/-- A dead letter is still there when a replay has looked for it. -/
theorem Service.deadLettersKept_replayed : ∃ s s' : Service, ∃ e : Redis.Entry Body,
    (s.world.redis (Sample.transport.dlqKey "default")).entries = [e] ∧
    (∃ c ev, s'.ops[1]? = some c ∧ c.info.isReplay = true ∧ ev ∈ s'.world.log ∧
      ev.actor = .api 1 ∧ ReplayCall ev.op) ∧
    [e] <+: (s'.world.redis (Sample.transport.dlqKey "default")).entries := by
  -- a client appends the dead letter
  obtain ⟨s, h₀, hops, hent⟩ : ∃ s : Service,
      Reaches Service.step (fun _ => Service.Keeping Sample.transport) .init s ∧
      s.ops.length = 1 ∧ (s.world.redis (Sample.transport.dlqKey "default")).entries =
        [⟨1, RedisStreamTransport.dlqBody Sample.job "boom"⟩] :=
    ⟨_, .tail (l := ServiceLabel.answer 0 (.ok 0))
      (.single (s := Service.init) (l := ServiceLabel.start (.transport Sample.transport "default"
        (.xaddDlq Sample.job "boom")) 0) rfl rfl) trivial rfl, rfl, rfl⟩
  -- and a replay looks for it
  let replay := QueueOp.replayDlqJob { transport := Sample.transport } "default" "j1" .epoch
  obtain ⟨s', h, c, hc, hinfo, hlog⟩ : ∃ s' : Service,
      Reaches Service.step (fun _ => Service.Keeping Sample.transport) s s' ∧
      ∃ c, s'.ops[1]? = some c ∧ c.info = replay ∧ ∃ ev ∈ s'.world.log, ev.actor = .api 1 := by
    obtain ⟨sys, _ | ⟨c₀, _ | _⟩⟩ := s
    · cases hops
    · exact ⟨_, .tail (l := ServiceLabel.answer 1 (.ok 0))
        (.single (l := ServiceLabel.start replay 0) rfl rfl) trivial rfl,
        _, rfl, rfl, _, List.mem_cons_self, rfl⟩
    · cases hops
  obtain ⟨hkept, hcalls⟩ := Service.deadLettersKept h₀ h
  obtain ⟨ev, hev, ha⟩ := hlog
  have hreplay : c.info.isReplay = true := hinfo ▸ rfl
  exact ⟨s, s', _, hent, ⟨c, ev, hc, hreplay, hev, ha, hcalls 1 c hc hreplay ev hev ha⟩,
    hent ▸ hkept "default"⟩

end RelayQ

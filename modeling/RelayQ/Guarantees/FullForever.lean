import RelayQ.Guarantees.Capacity
import RelayQ.System.Gate

/-! # A full queue stays full

`enqueue` compares its limit with `XLEN`. An acknowledgement takes nothing off the stream, nothing
else in a run of the queue does either, and `MAXLEN` trims down to a thousand entries above the limit
at the least. So once a stream has come to its limit it stays there, whatever the workers get done,
and every call of `enqueue` that starts from then on is turned away at its depth check.

* `Enqueuer.foundRoom`, `Enqueuer.wp_enqueue_foundRoom`: the depth check as a gate.
* `Sys.full_of_step`: a step leaves a full stream full.
* `Sys.fullForever`: the guarantee. -/

namespace RelayQ

/-! ## The depth check is a gate -/

/-- The stream a call of `enqueue` appends to. -/
def EnqueueCall.streamKey (c : EnqueueCall) : String :=
  c.enqueuer.transport.streamKey c.args.job.queue

namespace Enqueuer

/-- The operation is not the read of the queue's depth. -/
def beyondDepth (enq : Enqueuer) (queue : String) (o : Op) : Prop :=
  o ≠ .redis (.xlen (enq.transport.streamKey queue))

/-- The call read a depth below the limit. -/
def foundRoom (enq : Enqueuer) : (o : Op) → Except PyExc o.Res → Bool
  | .redis (.xlen _), .ok n => decide ((n : Nat) < enq.maxQueueDepth)
  | _, _ => false

variable [Codec]

/-- **A call of `enqueue` reads the depth first**, and goes on, or returns, only if it is below the
limit. -/
theorem wp_enqueue_foundRoom (enq : Enqueuer) (a : EnqueueArgs) :
    (enq.enqueue a).wp (.gate (enq.beyondDepth a.job.queue) enq.foundRoom)
      (fun r b => (∃ id, r = .ok id) → b = true) false := by
  unfold enqueue
  split
  · rintro ⟨id, h⟩
    cases h
  · refine Prog.wp_perform_bind (fun hne => absurd rfl hne) (fun (depth : Nat) => ?_) ?_
    · dsimp only
      split
      · rintro ⟨id, h⟩
        cases h
      · rename_i hroom
        have hopen : enq.foundRoom (.redis (.xlen (enq.transport.streamKey a.job.queue)))
            (.ok depth) = true := decide_eq_true (Nat.lt_of_not_ge hroom)
        simp only [Monitor.gate, hopen, Bool.or_true]
        exact Prog.wp_mono _ (fun _ _ hb _ => hb) (Prog.wp_gate_open _ _ _)
    · rintro e ⟨id, h⟩
      cases h

omit [Codec] in
/-- At the limit the depth that is read is no room. -/
theorem foundRoom_of_exec {enq : Enqueuer} {queue : String} {w w' : World} {site : Nat} {a : Actor}
    {o : Op} {ans : Answer} {r : Except PyExc o.Res} (ho : ¬ enq.beyondDepth queue o)
    (hfull : enq.maxQueueDepth ≤ (w.redis (enq.transport.streamKey queue)).entries.length)
    (hx : w.exec site a o ans = some (w', r)) : enq.foundRoom o r = false := by
  obtain rfl := not_not.mp ho
  cases r with
  | error e => rfl
  | ok depth =>
    obtain rfl : depth = (w.redis (enq.transport.streamKey queue)).entries.length := by
      rcases World.exec_redis hx with ⟨n, -, -, ⟨-, hr⟩ | ⟨e, -, hr, -⟩⟩ | ⟨e, -, -, hr, -⟩
      · exact Except.ok.inj hr
      · cases hr
      · cases hr
    exact decide_eq_false (Nat.not_lt.mpr hfull)

end Enqueuer

namespace Sys

variable [Codec] {t : RedisStreamTransport} {s s' : Sys} {l : SysLabel} {key : String} {D : Nat}

/-! ## Nothing makes room -/

/-- Every call of `enqueue` on the stream has at least this limit. -/
def Deep (s : Sys) (key : String) (D : Nat) : Prop :=
  ∀ c ∈ s.pool.procs, c.info.streamKey = key → D ≤ c.info.enqueuer.maxQueueDepth

/-- The callers of now are among those of later. -/
theorem Deep.of_step (hs : s.step l = some s') (h : s'.Deep key D) : s.Deep key D := by
  intro c hc hkey
  obtain ⟨n, hn⟩ := List.mem_iff_getElem?.mp hc
  obtain ⟨c', hc', hinfo⟩ := procs_of_step hs hn
  rw [← hinfo] at hkey ⊢
  exact h c' (List.mem_of_getElem? hc') hkey

/-- What is called trims a stream to a thousand entries above the limit of a call on it at the least,
and deletes nothing. -/
theorem Called.trims {site : Nat} {a : Actor} {c : Redis.Cmd Body} (h : s.Called site a (.redis c))
    (hdeep : s.Deep key D) : c.deletes = false ∧
      ∀ f lim approx, c = .xadd key f (some (lim, approx)) → D ≤ lim := by
  cases h with
  | enqueue hn _ hg =>
    cases c with
    | xadd k f m =>
      refine ⟨rfl, fun f' lim approx hc => ?_⟩
      obtain ⟨rfl, rfl, rfl⟩ := Redis.Cmd.xadd.inj hc
      obtain ⟨-, hkey, -, hlim⟩ := hg
      obtain ⟨rfl, -⟩ := Prod.mk.inj (Option.some.inj hlim)
      exact Nat.le_add_right_of_le (hdeep _ (List.mem_of_getElem? hn) hkey.symm)
    | xlen k => exact ⟨rfl, fun _ _ _ hc => by cases hc⟩
    | _ => exact hg.elim
  | task _ hg =>
    cases c with
    | xadd k f m =>
      obtain ⟨-, rfl, -⟩ := hg
      exact ⟨rfl, fun _ _ _ hc => by cases hc⟩
    | xack k g id => exact ⟨rfl, fun _ _ _ hc => by cases hc⟩
    | _ => exact hg.elim
  | reader _ _ _ hadd hdel =>
    refine ⟨hdel, fun f lim approx hc => ?_⟩
    subst hc
    cases hadd
  | foreign k body => exact ⟨rfl, fun _ _ _ hc => by cases hc⟩

/-- **A step leaves a full stream full.** -/
theorem full_of_step (hwired : s.Wired t) (hdeep : s.Deep key D) (hs : s.step l = some s')
    (hfull : D ≤ (s.world.redis key).entries.length) :
    D ≤ (s'.world.redis key).entries.length := by
  rcases step_called hwired hs with ⟨-, hredis, -⟩ | ⟨site, a, o, ans, r, hcalled, hx⟩
  · rwa [hredis]
  · by_cases hc : ∃ c, o = .redis c
    · obtain ⟨c, rfl⟩ := hc
      obtain ⟨hdel, hlim⟩ := hcalled.trims hdeep
      rcases World.exec_redis hx with ⟨n, hn, hw, -⟩ | ⟨e, -, -, -, hw⟩
      · rw [hw]
        exact Redis.Keyspace.le_length_apply _ _ _ hdel hn hlim hfull
      · rw [hw]
        exact hfull
    · rwa [(World.exec_other (fun c ho => hc ⟨c, ho⟩) hx).1]

/-! ## The guarantee -/

/-- **Once full, a queue is full forever.** From a state on in which its stream has come to the limit
`D` that every call of `enqueue` on it has at least, whatever the workers acknowledge and whoever
crashes or fails, the stream never holds less, and a call of `enqueue` with that limit that starts from
then on does not return: all it ever calls is the depth read. -/
theorem fullForever {queue : String} (hrun : Run t init s)
    (hfull : D ≤ (s.world.redis (t.streamKey queue)).entries.length) (h : Run t s s')
    (hdeep : s'.Deep (t.streamKey queue) D) :
    D ≤ (s'.world.redis (t.streamKey queue)).entries.length ∧
      ∀ n p, s.pool.procs.length ≤ n → s'.pool.procs[n]? = some p →
        p.info.streamKey = t.streamKey queue → p.info.enqueuer.maxQueueDepth = D →
        (∀ v, p.outcome ≠ some (.ok v)) ∧
          ∀ ev ∈ s'.world.log, ev.actor = .enqueuer n →
            ev.op = .redis (.xlen (t.streamKey queue)) := by
  -- the calls to come are shut out at their depth check
  have hinv : s'.Wired t ∧ (s'.Deep (t.streamKey queue) D →
      D ≤ (s'.world.redis (t.streamKey queue)).entries.length ∧
      s'.Shut s.pool.procs.length
        (fun c => c.streamKey = t.streamKey queue ∧ c.enqueuer.maxQueueDepth = D)
        (fun c => c.enqueuer.beyondDepth c.args.job.queue) fun c => c.enqueuer.foundRoom) := by
    refine Reaches.invariant (P := fun u : Sys => u.Wired t ∧ (u.Deep (t.streamKey queue) D →
      D ≤ (u.world.redis (t.streamKey queue)).entries.length ∧
      u.Shut s.pool.procs.length
        (fun c => c.streamKey = t.streamKey queue ∧ c.enqueuer.maxQueueDepth = D)
        (fun c => c.enqueuer.beyondDepth c.args.job.queue) fun c => c.enqueuer.foundRoom))
      (fun u l v hu hl hs => ⟨hu.1.step hl hs, fun hv => ?_⟩) h
      ⟨hrun.wired wired_init, fun _ => ⟨hfull, hrun.known.shut⟩⟩
    have hdeep := hv.of_step hs
    obtain ⟨hlen, hshut⟩ := hu.2 hdeep
    refine ⟨full_of_step hu.1 hdeep hs hlen, hshut.step hu.1
      (fun c _ => Enqueuer.wp_enqueue_foundRoom c.enqueuer c.args)
      (fun p _ hC n o ans r ho hx => Enqueuer.foundRoom_of_exec ho ?_ hx) hs⟩
    rw [hC.2, show p.info.enqueuer.transport.streamKey p.info.args.job.queue = _ from hC.1]
    exact hlen
  obtain ⟨hlen, hshut⟩ := hinv.2 hdeep
  refine ⟨hlen, fun n p hn hp hkey hD => ?_⟩
  obtain ⟨hout, hneeds⟩ := hshut.outcome hn hp ⟨hkey, hD⟩
  refine ⟨hout, fun ev hev ha => ?_⟩
  rw [← hkey]
  exact not_not.mp (hneeds ev hev ha)

end Sys

/-- With a limit of one, a second job is turned away, and so is every job after it. -/
theorem Sys.fullForever_refused : ∃ (s : Sys) (p : Proc RelaySig Nat EnqueueCall Nat),
    Sys.Run Sample.transport Sys.init s ∧ s.pool.procs[1]? = some p ∧
      1 ≤ (s.world.redis (Sample.transport.streamKey "default")).entries.length ∧
      (∀ v, p.outcome ≠ some (.ok v)) ∧ ∀ ev ∈ s.world.log, ev.actor = .enqueuer 1 →
        ev.op = .redis (.xlen (Sample.transport.streamKey "default")) := by
  let c : EnqueueCall := ⟨Sample.enqueuer, Sample.args⟩
  -- the first call fills the queue
  obtain ⟨s, hrun, hfull, hprocs⟩ : ∃ s : Sys, Sys.Run Sample.transport Sys.init s ∧
      1 ≤ (s.world.redis (Sample.transport.streamKey "default")).entries.length ∧
      s.pool.procs = [⟨c, 0, some (.ret 1)⟩] :=
    ⟨_, .tail (l := .pool (.answer 0 (.ok 0))) (.tail (l := .pool (.answer 0 (.ok 0)))
      (.single (s := Sys.init) (l := .pool (.start c 0)) rfl rfl) trivial rfl) trivial rfl,
      le_rfl, rfl⟩
  -- the second reads the depth
  obtain ⟨s', hrun', p, hprocs', hinfo⟩ : ∃ s', Sys.Run Sample.transport s s' ∧ ∃ p,
      s'.pool.procs = s.pool.procs ++ [p] ∧ p.info = c := by
    obtain ⟨⟨world, procs⟩, workers⟩ := s
    obtain rfl : procs = _ := hprocs
    exact ⟨_, .tail (l := .pool (.answer 1 (.ok 0))) (.single (l := .pool (.start c 0)) rfl rfl)
      trivial rfl, _, rfl, rfl⟩
  rw [hprocs] at hprocs'
  have hdeep : s'.Deep (Sample.transport.streamKey "default") 1 := fun q hq _ => by
    rw [hprocs'] at hq
    rcases List.mem_cons.mp hq with rfl | hq
    · exact le_rfl
    · obtain rfl := List.mem_singleton.mp hq
      exact hinfo ▸ le_rfl
  obtain ⟨hlen, hcalls⟩ := @Sys.fullForever _ _ _ _ _ "default" hrun hfull hrun' hdeep
  have hp : s'.pool.procs[1]? = some p := by
    rw [hprocs']
    rfl
  obtain ⟨hout, honly⟩ := hcalls 1 p (by rw [hprocs]; rfl) hp (hinfo ▸ rfl) (hinfo ▸ rfl)
  exact ⟨s', p, hrun.trans hrun', hp, hlen, hout, honly⟩

end RelayQ

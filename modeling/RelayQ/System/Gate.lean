import RelayQ.System.Calls

/-! # Calls behind a gate

A call of `enqueue` that starts once a gate is shut stays behind it for as long as the servers'
answers keep it shut: it never makes a call that needs the gate open, and never returns.

* `Sys.Known`: every call on record is of an `enqueue` that was started.
* `Sys.call_of_step`: where a call of `enqueue` comes from.
* `Sys.Shut`: the calls that have not come through their gate; `Shut.step`, `Shut.outcome`. -/

namespace RelayQ

/-- Does the call append to a stream? -/
def Op.isAppend : Op → Bool
  | .redis (.xadd _ _ _) => true
  | _ => false

namespace Sys

variable [Codec] {t : RedisStreamTransport} {s s' : Sys} {l : SysLabel}

/-! ## The calls of `enqueue` over a step -/

/-- The list of calls only grows, and they keep their arguments. -/
theorem infos_of_step (hs : s.step l = some s') :
    s.pool.procs.map Proc.info <+: s'.pool.procs.map Proc.info := by
  rcases step_cases hs with ⟨pl, p, rfl, -, hp, rfl⟩ | ⟨r, site, rfl, rfl⟩ |
    ⟨i, wl, w, world, w', rfl, hw, -, hx, rfl⟩
  · exact PoolSpec.step_infos hp
  · exact List.prefix_refl _
  · exact List.prefix_refl _

/-- A call is still there after a step. -/
theorem procs_of_step (hs : s.step l = some s') {n : Nat} {c : Proc RelaySig Nat EnqueueCall Nat}
    (hc : s.pool.procs[n]? = some c) : ∃ c', s'.pool.procs[n]? = some c' ∧ c'.info = c.info := by
  obtain ⟨more, hmore⟩ := infos_of_step hs
  have hlt : n < (s.pool.procs.map Proc.info).length := by
    simpa using (List.getElem?_eq_some_iff.mp hc).1
  have hinfo : (s'.pool.procs.map Proc.info)[n]? = some c.info := by
    rw [← hmore, List.getElem?_append_left hlt, List.getElem?_map, hc]
    rfl
  rw [List.getElem?_map, Option.map_eq_some_iff] at hinfo
  exact hinfo

/-- **Where a call of `enqueue` comes from**: it was just started, as the last one, or it was there
before and has died, waited, or got the answer to its call. -/
theorem call_of_step (hs : s.step l = some s') {n : Nat} {p' : Proc RelaySig Nat EnqueueCall Nat}
    (hn : s'.pool.procs[n]? = some p') :
    (n = s.pool.procs.length ∧ ∃ call site, p' = ⟨call, site, some (enqueuePool.code call)⟩) ∨
    ∃ p, s.pool.procs[n]? = some p ∧ p'.info = p.info ∧
      (p'.prog = none ∨ p'.prog = p.prog ∨ ∃ o k ans r, p.prog = some (.call o k) ∧
        p'.prog = some (k r) ∧ s.world.exec p.site (.enqueuer n) o ans = some (s'.world, r)) := by
  rcases step_cases hs with ⟨pl, q, rfl, -, hp, rfl⟩ | ⟨r, site, rfl, rfl⟩ |
    ⟨i, wl, w, world, w', rfl, hw, -, hx, rfl⟩
  · rcases PoolSpec.step_cases hp with ⟨c, site, rfl, rfl⟩ |
      ⟨i, ans, c, o, k, w, r, rfl, hc, hprog, hx, rfl⟩ | ⟨site, rfl, rfl⟩ | ⟨e, w, rfl, hw, rfl⟩
    · rcases getElem?_concat_cases hn with hn | ⟨hlast, rfl⟩
      · exact .inr ⟨p', hn, rfl, .inr (.inl rfl)⟩
      · exact .inl ⟨hlast, c, site, rfl⟩
    · rcases getElem?_set_cases hn with ⟨rfl, rfl⟩ | ⟨-, hn⟩
      · exact .inr ⟨c, hc, rfl, .inr (.inr ⟨o, k, ans, r, hprog, rfl, hx⟩)⟩
      · exact .inr ⟨p', hn, rfl, .inr (.inl rfl)⟩
    · obtain ⟨p, hp, rfl⟩ := Option.map_eq_some_iff.mp ((List.getElem?_map ..).symm.trans hn)
      refine .inr ⟨p, hp, p.kill_info site, ?_⟩
      unfold Proc.kill
      split
      · exact .inl rfl
      · exact .inr (.inl rfl)
    · exact .inr ⟨p', hn, rfl, .inr (.inl rfl)⟩
  · exact .inr ⟨p', hn, rfl, .inr (.inl rfl)⟩
  · exact .inr ⟨p', hn, rfl, .inr (.inl rfl)⟩

/-- A call that is over stays so. -/
theorem over_of_step (hs : s.step l = some s') {n : Nat} {p p' : Proc RelaySig Nat EnqueueCall Nat}
    (hn : s.pool.procs[n]? = some p) (hover : p.running = false)
    (hn' : s'.pool.procs[n]? = some p') : p'.running = false := by
  rcases call_of_step hs hn' with ⟨hlast, -⟩ | ⟨p₀, hn₀, -, hdead | hsame | hans⟩
  · exact absurd (List.getElem?_eq_some_iff.mp hn).1 (by omega)
  · simp [Proc.running, hdead]
  · obtain rfl := Option.some.inj (hn.symm.trans hn₀)
    rwa [Proc.running, hsame]
  · obtain rfl := Option.some.inj (hn.symm.trans hn₀)
    obtain ⟨o, k, ans, r, hprog, -, -⟩ := hans
    simp [Proc.running, hprog] at hover

/-- Every call on record of an `enqueue` is of one that was started. -/
def Known (s : Sys) : Prop :=
  ∀ ev ∈ s.world.log, ∀ n, ev.actor = .enqueuer n → n < s.pool.procs.length

omit [Codec] in
/-- Nothing is on record at the start. -/
theorem known_init : init.Known := by simp [Known, init, world, World.init]

/-- Only calls that were started make calls. -/
theorem Known.step (h : s.Known) (hwired : s.Wired t) (hs : s.step l = some s') : s'.Known := by
  have hlater : ∀ {n}, n < s.pool.procs.length → n < s'.pool.procs.length := fun hlt => by
    obtain ⟨c', hc', -⟩ := procs_of_step hs (List.getElem?_eq_getElem hlt)
    exact (List.getElem?_eq_some_iff.mp hc').1
  intro ev hev n ha
  rcases step_called hwired hs with ⟨hlog, -⟩ | ⟨site, a, o, ans, r, hcalled, hx⟩
  · exact hlater (h ev (hlog ▸ hev) n ha)
  · obtain ⟨applied, evicted, hlog⟩ := World.exec_log hx
    rcases List.mem_cons.mp (hlog ▸ hev) with rfl | hev
    · cases hcalled with
      | enqueue hc _ _ =>
        obtain rfl := Actor.enqueuer.inj ha
        exact hlater (List.getElem?_eq_some_iff.mp hc).1
      | task _ _ => cases ha
      | reader _ hactor _ _ _ => rcases hactor with rfl | rfl <;> cases ha
      | foreign _ _ => cases ha
    · exact hlater (h ev hev n ha)

/-- In every reachable state the record is of calls that were started. -/
theorem Run.known (h : Run t init s) : s.Known := by
  have hinv : s.Wired t ∧ s.Known :=
    Reaches.invariant (P := fun u : Sys => u.Wired t ∧ u.Known)
      (fun _ _ _ hu hl hs => ⟨hu.1.step hl hs, hu.2.step hu.1 hs⟩) h ⟨wired_init, known_init⟩
  exact hinv.2

/-! ## Behind a gate -/

/-- The calls of `enqueue` from number `k` on that satisfy `C` are behind their gate: they have called
nothing that needs it open, and what is left of them waits for an answer that opens it. -/
structure Shut (k : Nat) (C : EnqueueCall → Prop) (needs : EnqueueCall → Op → Prop)
    (opens : EnqueueCall → (o : Op) → Except PyExc o.Res → Bool) (s : Sys) : Prop where
  calls : ∀ (n : Nat) (p : Proc RelaySig Nat EnqueueCall Nat), k ≤ n → s.pool.procs[n]? = some p →
    C p.info → ∀ q, p.prog = some q → q.wp (.gate (needs p.info) (opens p.info))
      (fun r b => (∃ id, r = .ok id) → b = true) false
  record : ∀ ev ∈ s.world.log, ∀ n, k ≤ n → ev.actor = .enqueuer n →
    ∃ p, s.pool.procs[n]? = some p ∧ (C p.info → ¬ needs p.info ev.op)

variable {k : Nat} {C : EnqueueCall → Prop} {needs : EnqueueCall → Op → Prop}
  {opens : EnqueueCall → (o : Op) → Except PyExc o.Res → Bool}

omit [Codec] in
/-- Of the calls that are still to start nothing is left to show. -/
theorem Known.shut (h : s.Known) : s.Shut s.pool.procs.length C needs opens where
  calls _ _ hn hp := absurd (List.getElem?_eq_some_iff.mp hp).1 (Nat.not_lt.mpr hn)
  record ev hev n hn ha := absurd (h ev hev n ha) (Nat.not_lt.mpr hn)

/-- **The gate stays shut**, as long as no answer opens it. -/
theorem Shut.step (h : s.Shut k C needs opens) (hwired : s.Wired t)
    (hcode : ∀ c, C c → (enqueuePool.code c).wp (.gate (needs c) (opens c))
      (fun r b => (∃ id, r = .ok id) → b = true) false)
    (hkept : ∀ p ∈ s.pool.procs, C p.info → ∀ n o ans r, ¬ needs p.info o →
      s.world.exec p.site (.enqueuer n) o ans = some (s'.world, r) → opens p.info o r = false)
    (hs : s.step l = some s') : s'.Shut k C needs opens := by
  constructor
  · intro n p' hk hn hC q hq
    rcases call_of_step hs hn with ⟨-, call, site, rfl⟩ | ⟨p, hp, hinfo, hdead | hsame | hans⟩
    · obtain rfl := Option.some.inj hq
      exact hcode _ hC
    · cases hdead.symm.trans hq
    · rw [hinfo] at hC ⊢
      exact h.calls n p hk hp hC q (hsame ▸ hq)
    · obtain ⟨o, next, ans, r, hprog, hprog', hx⟩ := hans
      obtain rfl := Option.some.inj (hprog'.symm.trans hq)
      rw [hinfo] at hC ⊢
      obtain ⟨hguard, hnext⟩ := h.calls n p hk hp hC _ hprog
      have hwp := hnext r
      have hshut := hkept p (List.mem_of_getElem? hp) hC n o ans r
        (fun hneeds => Bool.noConfusion (hguard hneeds)) hx
      rwa [show (Monitor.gate (needs p.info) (opens p.info)).next false o r = false from hshut]
        at hwp
  · intro ev hev n hk ha
    -- what was on record stays as it is
    have hold : ev ∈ s.world.log →
        ∃ p, s'.pool.procs[n]? = some p ∧ (C p.info → ¬ needs p.info ev.op) := fun hev => by
      obtain ⟨p, hp, hneeds⟩ := h.record ev hev n hk ha
      obtain ⟨p', hp', hinfo⟩ := procs_of_step hs hp
      exact ⟨p', hp', hinfo ▸ hneeds⟩
    rcases step_called hwired hs with ⟨hlog, -⟩ | ⟨site, a, o, ans, r, hcalled, hx⟩
    · exact hold (hlog ▸ hev)
    · obtain ⟨applied, evicted, hlog⟩ := World.exec_log hx
      rcases List.mem_cons.mp (hlog ▸ hev) with rfl | hev
      · cases hcalled with
        | @enqueue n' p ph _ next hp hprog _ =>
          obtain rfl := Actor.enqueuer.inj ha
          obtain ⟨p', hp', hinfo⟩ := procs_of_step hs hp
          refine ⟨p', hp', fun hC hneeds => ?_⟩
          rw [hinfo] at hC hneeds
          cases (h.calls _ p hk hp hC _ hprog).1 hneeds
        | task _ _ => cases ha
        | reader _ hactor _ _ _ => rcases hactor with rfl | rfl <;> cases ha
        | foreign _ _ => cases ha
      · exact hold hev

omit [Codec] in
/-- A call behind its gate has not returned, and has called nothing that needs the gate. -/
theorem Shut.outcome (h : s.Shut k C needs opens) {n : Nat}
    {p : Proc RelaySig Nat EnqueueCall Nat} (hk : k ≤ n) (hp : s.pool.procs[n]? = some p)
    (hC : C p.info) : (∀ v, p.outcome ≠ some (.ok v)) ∧
      ∀ ev ∈ s.world.log, ev.actor = .enqueuer n → ¬ needs p.info ev.op := by
  refine ⟨fun v hv => ?_, fun ev hev ha => ?_⟩
  · obtain ⟨q, hq, hout⟩ := Option.bind_eq_some_iff.mp hv
    have hwp := h.calls n p hk hp hC q hq
    cases q with
    | ret v' => cases hwp ⟨v', rfl⟩
    | raise e => cases hout
    | call o k => cases hout
  · obtain ⟨p', hp', hneeds⟩ := h.record ev hev n hk ha
    obtain rfl := Option.some.inj (hp.symm.trans hp')
    exact hneeds hC

end Sys

end RelayQ

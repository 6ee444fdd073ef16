import RelayQ.Application.Enqueue
import Mathlib.Data.List.Count

/-! # Bounded depth

The depth check of `enqueue` and its `XADD` are separate steps, so callers can pass the check
together. What bounds the stream is the sum of its length and of the callers past the check: a call
that reads a depth below `D` is itself in progress, so at most `c - 1` others are past the check
with it, and from there on every append is paid for by a caller that leaves. -/

namespace RelayQ

/-- Calls of `enqueue` on one stream with one limit, of which a new one starts only while fewer
than `c` are in progress. Nobody else writes. -/
def EnqueueLoad (key : String) (D c : Nat) (s : PoolState relay EnqueueCall Nat) :
    PoolLabel relay EnqueueCall → Prop
  | .start call _ => call.enqueuer.transport.streamKey call.args.job.queue = key ∧
      call.enqueuer.maxQueueDepth = D ∧ s.procs.countP Proc.running < c
  | .env (.foreign _ _) => False
  | _ => True

/-- A call in progress that has read a depth below the limit and may still append. -/
def pastCheck (x : Proc RelaySig Nat EnqueueCall Nat × Enqueuer.Phase) : Bool :=
  x.1.running && x.2 != .fresh && x.2 != .closed

/-- A call in progress. -/
def inProgress (x : Proc RelaySig Nat EnqueueCall Nat × Enqueuer.Phase) : Bool := x.1.running

/-- The invariant: who is past the check has room reserved. -/
structure DepthInv (key : String) (D c : Nat) (w : World)
    (l : List (Proc RelaySig Nat EnqueueCall Nat × Enqueuer.Phase)) : Prop where
  calls : ∀ x ∈ l, x.1.info.enqueuer.transport.streamKey x.1.info.args.job.queue = key ∧
    x.1.info.enqueuer.maxQueueDepth = D
  load : l.countP inProgress ≤ c
  depth : (w.redis key).entries.length + l.countP pastCheck ≤ D + c - 1
  trim : c ≤ 1001 → ∀ ev ∈ w.log, ev.evicted = 0

variable {key : String} {D c : Nat} {w w' : World}
  {l : List (Proc RelaySig Nat EnqueueCall Nat × Enqueuer.Phase)}

/-- Whoever is past the check is in progress. -/
theorem countP_pastCheck_le (l : List (Proc RelaySig Nat EnqueueCall Nat × Enqueuer.Phase)) :
    l.countP pastCheck ≤ l.countP inProgress :=
  List.countP_mono_left fun x _ hx => by
    simp only [pastCheck, Bool.and_eq_true] at hx
    exact hx.1.1

/-- The invariant after an answer: the room is to be shown, given that no more calls are in
progress than before. -/
theorem DepthInv.set (h : DepthInv key D c w l) {i : Nat}
    {x y : Proc RelaySig Nat EnqueueCall Nat × Enqueuer.Phase} (hi : l[i]? = some x)
    (hinfo : y.1.info = x.1.info) (hrun : x.1.running = true)
    (hdepth : (l.set i y).countP pastCheck ≤ c →
      (w'.redis key).entries.length + (l.set i y).countP pastCheck ≤ D + c - 1)
    (hlog : c ≤ 1001 → ∀ ev ∈ w'.log, ev.evicted = 0) : DepthInv key D c w' (l.set i y) := by
  have hload : (l.set i y).countP inProgress ≤ c := by
    have hset := countP_set_add (p := inProgress) (y := y) hi
    have hle : (if inProgress y then 1 else 0) ≤ 1 := by split <;> omega
    have := h.load
    rw [if_pos (show inProgress x = true from hrun)] at hset
    omega
  refine ⟨fun z hz => ?_, hload, hdepth ((countP_pastCheck_le _).trans hload), hlog⟩
  rcases List.mem_or_eq_of_mem_set hz with hz | rfl
  · exact h.calls z hz
  · rw [hinfo]
    exact h.calls x (List.mem_of_getElem? hi)

/-- An answer that leaves the stream alone may end a call or move it on past the check, not bring
it there. -/
theorem DepthInv.quiet (h : DepthInv key D c w l) {i : Nat}
    {x y : Proc RelaySig Nat EnqueueCall Nat × Enqueuer.Phase} (hi : l[i]? = some x)
    (hinfo : y.1.info = x.1.info) (hrun : x.1.running = true)
    (hpast : pastCheck y = true → pastCheck x = true) (hredis : w'.redis = w.redis)
    (hlog : ∃ ev, w'.log = ev :: w.log ∧ ev.evicted = 0) : DepthInv key D c w' (l.set i y) := by
  obtain ⟨ev, hlog, hev⟩ := hlog
  refine h.set hi hinfo hrun (fun _ => ?_) fun hc ev' hev' => ?_
  · have hset := countP_set_add (p := pastCheck) (y := y) hi
    have := h.depth
    rw [hredis]
    split at hset
    · split at hset <;> omega
    · rename_i hx
      rw [if_neg fun hy => hx (hpast hy)] at hset
      omega
  · rw [hlog] at hev'
    rcases List.mem_cons.mp hev' with rfl | hev'
    · exact hev
    · exact h.trim hc ev' hev'

/-- The depth check: whoever passes it read a depth below the limit. -/
theorem DepthInv.check (h : DepthInv key D c w l) {i : Nat}
    {x y : Proc RelaySig Nat EnqueueCall Nat × Enqueuer.Phase} (hi : l[i]? = some x)
    (hinfo : y.1.info = x.1.info) (hrun : x.1.running = true)
    (hpast : pastCheck y = true → (w.redis key).entries.length < D)
    (hredis : w'.redis = w.redis) (hlog : ∃ ev, w'.log = ev :: w.log ∧ ev.evicted = 0) :
    DepthInv key D c w' (l.set i y) := by
  by_cases hy : pastCheck y = true
  · obtain ⟨ev, hlog, hev⟩ := hlog
    refine h.set hi hinfo hrun (fun hc => ?_) fun hc ev' hev' => ?_
    · have := hpast hy
      rw [hredis]
      omega
    · rw [hlog] at hev'
      rcases List.mem_cons.mp hev' with rfl | hev'
      · exact hev
      · exact h.trim hc ev' hev'
  · exact h.quiet hi hinfo hrun (fun hy' => absurd hy' hy) hredis hlog

/-- An append is made by a caller past the check, who leaves; it finds room below the limit of the
stream as long as at most 1001 calls are in progress. -/
theorem DepthInv.append (h : DepthInv key D c w l) {i : Nat}
    {x y : Proc RelaySig Nat EnqueueCall Nat × Enqueuer.Phase} (hi : l[i]? = some x)
    (hinfo : y.1.info = x.1.info) (hrun : x.1.running = true) (hx : pastCheck x = true)
    (hy : pastCheck y = false) {n : Nat} (hn : n ≤ (w.redis key).entries.length + 1 - (D + 1000))
    (hlen : (w'.redis key).entries.length ≤ (w.redis key).entries.length + 1)
    (hlog : ∃ ev, w'.log = ev :: w.log ∧ ev.evicted = n) :
    DepthInv key D c w' (l.set i y) := by
  obtain ⟨ev, hlog, hev⟩ := hlog
  have hset := countP_set_add (p := pastCheck) (y := y) hi
  rw [if_pos hx, if_neg (by simp [hy])] at hset
  have hdepth := h.depth
  refine h.set hi hinfo hrun (fun _ => by omega) fun hc ev' hev' => ?_
  rw [hlog] at hev'
  rcases List.mem_cons.mp hev' with rfl | hev'
  · omega
  · exact h.trim hc ev' hev'

section

variable [Codec]

/-- A statement runs only past the check. -/
theorem pastCheck_of_stmtGuard {enq : Enqueuer} {a : EnqueueArgs} {ph : Enqueuer.Phase}
    {st : Stmt} (hg : enq.stmtGuard a ph st)
    {p : Proc RelaySig Nat EnqueueCall Nat} (hrun : p.running = true) :
    pastCheck (p, ph) = true := by
  cases ph <;> cases st <;> first | exact hg.elim | simp [pastCheck, hrun]

/-- **The invariant is kept by every answer.** -/
theorem DepthInv.answer (h : DepthInv key D c w l) {i : Nat}
    {p : Proc RelaySig Nat EnqueueCall Nat} {ph : Enqueuer.Phase} {o : Op}
    {k : Except PyExc o.Res → Py Nat} {ans : Answer} {r : Except PyExc o.Res}
    (hi : l[i]? = some (p, ph)) (hprog : p.prog = some (.call o k))
    (hg : (p.info.enqueuer.monitor p.info.args).guard ph o)
    (hx : w.exec p.site (.enqueuer i) o ans = some (w', r)) :
    DepthInv key D c w' (l.set i ({ p with prog := some (k r) },
      (p.info.enqueuer.monitor p.info.args).next ph o r)) := by
  have hrun : p.running = true := p.running_iff.mpr ⟨o, k, hprog⟩
  obtain ⟨hkey, hD⟩ : p.info.enqueuer.transport.streamKey p.info.args.job.queue = key ∧
      p.info.enqueuer.maxQueueDepth = D := h.calls (p, ph) (List.mem_of_getElem? hi)
  cases o with
  | sql st =>
    obtain ⟨hredis, applied, hlog⟩ := World.exec_other (by simp) hx
    exact h.quiet hi rfl hrun (fun _ => pastCheck_of_stmtGuard hg hrun) hredis ⟨_, hlog, rfl⟩
  | utcnow =>
    obtain ⟨hredis, applied, hlog⟩ := World.exec_other (by simp) hx
    refine h.quiet hi rfl hrun (fun hy => ?_) hredis ⟨_, hlog, rfl⟩
    simp only [pastCheck, Enqueuer.monitor, Bool.and_eq_true] at hy ⊢
    exact ⟨⟨hrun, hy.1.2⟩, hy.2⟩
  | handler _ _ => exact hg.elim
  | monotonic => exact hg.elim
  | metric _ => exact hg.elim
  | delay _ => exact hg.elim
  | redis cmd =>
    cases cmd with
    | xlen k' =>
      obtain ⟨rfl, rfl⟩ := hg
      rcases World.exec_redis hx with ⟨n, hn, rfl, hr⟩ | ⟨e, -, -, rfl, rfl⟩
      · refine h.check hi rfl hrun (fun hy => ?_) rfl ⟨_, rfl, by simpa [Redis.Cmd.mayEvict] using hn⟩
        -- only a depth that was read and is below the limit gets past the check
        rcases hr with ⟨-, rfl⟩ | ⟨e, -, rfl, -⟩
        · by_contra hlt
          simp [pastCheck, Enqueuer.monitor, Enqueuer.cmdNext, World.sendCmd,
            Redis.Keyspace.apply, Except.mapError, hD, hkey, hlt] at hy
        · simp [pastCheck, Enqueuer.monitor, Enqueuer.cmdNext] at hy
      · refine h.quiet hi rfl hrun (fun hy => ?_) rfl ⟨_, rfl, rfl⟩
        simp [pastCheck, Enqueuer.monitor, Enqueuer.cmdNext] at hy
    | xadd k' body lim =>
      obtain ⟨hph, rfl, rfl, rfl⟩ := hg
      have hpast : pastCheck (p, ph) = true := by
        rcases hph with ⟨rfl, -⟩ | ⟨rfl, -⟩ <;> simp [pastCheck, hrun]
      rcases World.exec_redis hx with ⟨n, hn, rfl, -⟩ | ⟨e, -, -, rfl, rfl⟩
      · refine h.append hi rfl hrun hpast ?_ (n := n) ?_ ?_ ⟨_, rfl, rfl⟩
        · simp [pastCheck, Enqueuer.monitor, Enqueuer.cmdNext]
        · simpa [Redis.Cmd.mayEvict, Redis.Cmd.key, hkey, hD] using hn
        · simp only [World.record_redis, World.sendCmd, Redis.Keyspace.apply, hkey,
            Function.update_self, Redis.Stream.evict, Redis.Stream.append, List.length_drop,
            List.length_append, List.length_singleton]
          omega
      · refine h.quiet hi rfl hrun (fun _ => hpast) rfl ⟨_, rfl, rfl⟩
    | xgroupCreate _ _ _ => exact hg.elim
    | xreadgroup _ _ _ _ _ => exact hg.elim
    | xack _ _ _ => exact hg.elim
    | xautoclaim _ _ _ _ _ _ => exact hg.elim
    | xrevrange _ _ => exact hg.elim
    | xdel _ _ => exact hg.elim

/-- **The invariant as a proof rule** for the calls of `enqueue` on one stream. -/
def depthRule : PoolRule enqueuePool (fun call => call.enqueuer.monitor call.args)
    (EnqueueLoad key D c) (DepthInv key D c) where
  init _ := .fresh
  code := wp_enqueuePool
  start := by
    rintro w l call site h ⟨hkey, hD, hrun⟩
    dsimp only at hrun
    have hcount : (l.map Prod.fst).countP Proc.running = l.countP inProgress := by
      rw [List.countP_map]
      rfl
    refine ⟨fun x hx => ?_, ?_, ?_, h.trim⟩
    · rcases List.mem_append.mp hx with hx | hx
      · exact h.calls x hx
      · obtain rfl := List.mem_singleton.mp hx
        exact ⟨hkey, hD⟩
    · have hle : List.countP inProgress [((⟨call, site, some (enqueuePool.code call)⟩ :
          Proc RelaySig Nat EnqueueCall Nat), Enqueuer.Phase.fresh)] ≤ 1 := List.countP_le_length
      rw [List.countP_append]
      omega
    · rw [List.countP_append]
      simpa [pastCheck] using h.depth
  answer := fun h _ hi hprog hg hx => h.answer hi hprog hg hx
  crash := by
    intro w l site h _
    -- a crash only takes calls out of the count
    have hpast : (l.map fun x => (x.1.kill site, x.2)).countP pastCheck ≤ l.countP pastCheck := by
      rw [List.countP_map]
      refine List.countP_mono_left fun x _ hx => ?_
      simp only [Function.comp, pastCheck, Bool.and_eq_true] at hx ⊢
      exact ⟨⟨Proc.running_of_kill hx.1.1, hx.1.2⟩, hx.2⟩
    have hload : (l.map fun x => (x.1.kill site, x.2)).countP inProgress ≤
        l.countP inProgress := by
      rw [List.countP_map]
      exact List.countP_mono_left fun x _ hx => Proc.running_of_kill hx
    refine ⟨fun x hx => ?_, hload.trans h.load, ?_, h.trim⟩
    · obtain ⟨y, hy, rfl⟩ := List.mem_map.mp hx
      simpa using h.calls y hy
    · exact (Nat.add_le_add_left hpast _).trans h.depth
  env := by
    rintro w l (d | ⟨key', body⟩) w' h hok hw
    · obtain rfl := Option.some.inj hw
      exact ⟨h.calls, h.load, h.depth, h.trim⟩
    · exact hok.elim

/-- **Bounded depth, no eviction of work.** While calls of `enqueue` on one stream with limit `D`
run, at most `c` of them at a time, interleaved in any order and failing at any step, the stream
never holds more than `D + c - 1` entries, and with `c ≤ 1001` no `XADD` ever evicts one. -/
theorem boundedDepth {s : PoolState relay EnqueueCall Nat}
    (hrun : Reaches enqueuePool.step (EnqueueLoad key D c) ⟨.init, []⟩ s) :
    (s.world.redis key).entries.length ≤ D + c - 1 ∧
      (c ≤ 1001 → ∀ ev ∈ s.world.log, ev.evicted = 0) := by
  have h₀ : DepthInv key D c World.init [] :=
    ⟨by simp, by simp, by simp [World.init, Redis.Stream.empty], by simp [World.init]⟩
  obtain ⟨l, -, h⟩ := depthRule.run hrun (PoolRule.holds_nil h₀)
  have := h.depth
  exact ⟨by omega, h.trim⟩

end

/-- One call at a time on a stream of depth one. -/
theorem boundedDepth_single : ∃ s : PoolState relay EnqueueCall Nat,
    s.world.log ≠ [] ∧ (s.world.redis (Sample.transport.streamKey "default")).entries.length ≤ 1 ∧
    ∀ ev ∈ s.world.log, ev.evicted = 0 := by
  have hrun : ∃ s, Reaches enqueuePool.step (EnqueueLoad (Sample.transport.streamKey "default") 1 1)
      ⟨.init, []⟩ s ∧ s.world.log ≠ [] := by
    refine ⟨_, .tail (l := .answer 0 (.ok 0)) (.tail (l := .answer 0 (.ok 0))
      (.single (l := .start (Sample.enqueueCall Sample.job false) 0) ?_ rfl) trivial rfl)
      trivial rfl, by simp⟩
    exact ⟨rfl, rfl, by decide⟩
  obtain ⟨s, hs, hlog⟩ := hrun
  obtain ⟨hlen, hevict⟩ := boundedDepth hs
  exact ⟨s, hlog, hlen, hevict (by decide)⟩

end RelayQ

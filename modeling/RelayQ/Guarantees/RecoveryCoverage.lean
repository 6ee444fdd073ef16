import RelayQ.Application.Recover
import RelayQ.Infrastructure.StreamRuns

/-! # How far recovery gets

Every round claims the first stale entries of the pending list, always scanning from its beginning.
What a round claims is fresh for the next one, so that one gets further, but by the round after that
the first entries are stale again: two batches at the front take turns, and nothing behind them is
ever claimed.

* `Quiet`, `Rounds`: rounds of one recovery worker, with other calls and the passage of time between
  them.
* `AllStale`: a pending list all of which waits to be recovered.
* `Backlog`: the invariant, what a pending list looks like between the rounds.
* `covers_iff`: recovery reaches the whole list exactly if it has at most two batches. -/

namespace RelayQ

section

variable [Codec]

/-! ## Rounds -/

omit [Codec] in
/-- The call takes none of these entries from the pending lists of the stream at `k`, nor claims
any of its entries. -/
def Undisturbing (k : String) (ids : List Nat) : Op → Prop
  | .redis c => c.key = k → c.Spares ids
  | _ => True

omit [Codec] in
/-- Time passes, and anybody makes calls, none of which acknowledges, claims, evicts or deletes one
of these entries of the stream at `k`. -/
inductive Quiet (k : String) (ids : List Nat) (w : World) : World → Prop
  | refl : Quiet k ids w w
  | tick {w₁ : World} (d : Nat) : Quiet k ids w w₁ → Quiet k ids w { w₁ with now := w₁.now + d }
  | call {w₁ w₂ : World} {site : Nat} {a : Actor} {o : Op} {ans : Answer}
      {r : Except PyExc o.Res} : Quiet k ids w w₁ → Undisturbing k ids o →
      w₁.exec site a o ans = some (w₂, r) →
      (∀ e ∈ (w₁.redis k).entries, e.id ∈ ids → e ∈ (w₂.redis k).entries) → Quiet k ids w w₂

namespace RecoveryWorker

variable (r : RecoveryWorker) (queue : String)

/-- One round: a call of `autoclaim_stale` that meets no fault, and the deliveries it brings. -/
def Round (w : World) (ds : List Delivery) (w' : World) : Prop :=
  ∃ (site : Nat) (a : Actor) (now : DateTime) (out : Except PyExc (List Delivery)),
    relay.Runs Faultless site a w
      (r.transport.autoclaimStale queue r.workerId r.minIdleMs r.claimBatch now) w' out ∧
    ds = out.toOption.getD []

/-- `_claim_stale` is a round. -/
theorem round_of_claimStale {w w' : World} {site : Nat} {a : Actor} {now : DateTime}
    {out : Except PyExc Unit} (h : relay.Runs Faultless site a w (r.claimStale queue now) w' out) :
    ∃ ds, r.Round queue w ds w' := by
  obtain ⟨w₁, out₁, hclaim, hrest⟩ := Machine.runs_bind_iff.mp h
  have hw : w' = w₁ := by
    cases out₁ with
    | ok ds => exact (Machine.runs_ret_iff.mp hrest).1
    | error e => exact hrest.1
  exact ⟨_, site, a, now, out₁, hw ▸ hclaim, rfl⟩

/-- A number of rounds from the world `w` on, the first one at once and each later one
`claimInterval` after the one before, and the deliveries they bring; between them all is quiet as
far as these entries go. -/
inductive Rounds (ids : List Nat) (w : World) : Nat → List Delivery → World → Prop
  | none : Rounds ids w 0 [] w
  | first {ds : List Delivery} {w' : World} : r.Round queue w ds w' → Rounds ids w 1 ds w'
  | next {n : Nat} {ds ds' : List Delivery} {w₁ w₂ w₃ : World} : Rounds ids w (n + 1) ds w₁ →
      Quiet (r.transport.streamKey queue) ids w₁ w₂ → w₂.now = w₁.now + claimInterval →
      r.Round queue w₂ ds' w₃ → Rounds ids w (n + 2) (ds ++ ds') w₃

/-- The entries of the group's pending list all wait to be recovered: each has been idle for long
enough, and is stored and holds a job. -/
structure AllStale (grp : Redis.Group) (w : World) : Prop where
  wf : (w.redis (r.transport.streamKey queue)).Wf
  group : (w.redis (r.transport.streamKey queue)).groups (r.transport.groupKey queue) = some grp
  stale : ∀ p ∈ grp.pel, p.Stale w.now r.minIdleMs
  stored : ∀ p ∈ grp.pel, (w.redis (r.transport.streamKey queue)).stores p.id = true
  jobs : ∀ e ∈ (w.redis (r.transport.streamKey queue)).entries,
    e.id ∈ grp.pel.map Redis.PendingEntry.id →
    ∀ now, ∃ j, r.transport.decodeEntry now e.fields = .job j

/-- As many rounds as it takes to claim a batch each have claimed every entry. -/
def Covers (grp : Redis.Group) (w : World) : Prop :=
  ∀ ds w', r.Rounds queue (grp.pel.map Redis.PendingEntry.id) w
      ((grp.pel.length + (r.claimBatch - 1)) / r.claimBatch) ds w' →
    ∀ p ∈ grp.pel, ∃ d ∈ ds, d.entryId = p.id

end RecoveryWorker

/-! ## The pending list between rounds -/

/-- The pending list of the group begins with `P`, whose entries are stored and hold jobs; what is
behind them was delivered at `since` or later. -/
structure Backlog (t : RedisStreamTransport) (queue : String) (P : List Redis.PendingEntry)
    (since : Nat) (w : World) : Prop where
  group : ∃ grp new, (w.redis (t.streamKey queue)).groups (t.groupKey queue) = some grp ∧
    grp.pel = P ++ new ∧ ∀ p ∈ new, since ≤ p.deliveredAt
  stored : ∀ p ∈ P, (w.redis (t.streamKey queue)).stores p.id = true
  given : ∀ p ∈ P, p.id ≤ (w.redis (t.streamKey queue)).lastId
  jobs : ∀ e ∈ (w.redis (t.streamKey queue)).entries, e.id ∈ P.map Redis.PendingEntry.id →
    ∀ now, ∃ j, t.decodeEntry now e.fields = .job j
  time : since ≤ w.now

namespace Backlog

variable {t : RedisStreamTransport} {queue : String} {P : List Redis.PendingEntry} {since : Nat}
  {w w' : World}

/-- A pending list all of which is stale is a backlog. -/
theorem of_allStale {r : RecoveryWorker} {grp : Redis.Group} (h : r.AllStale queue grp w) :
    Backlog r.transport queue grp.pel w.now w where
  group := ⟨grp, [], h.group, (List.append_nil _).symm, by simp⟩
  stored := h.stored
  given := fun p hp =>
    let hw := h.wf.groups _ grp h.group
    (hw.pel_le p hp).trans hw.delivered_le
  jobs := h.jobs
  time := le_rfl

/-- Only the list itself counts for what is stored. -/
theorem of_redis (h : Backlog t queue P since w)
    (hredis : w'.redis (t.streamKey queue) = w.redis (t.streamKey queue)) (hnow : w.now ≤ w'.now) :
    Backlog t queue P since w' where
  group := hredis ▸ h.group
  stored := hredis ▸ h.stored
  given := hredis ▸ h.given
  jobs := hredis ▸ h.jobs
  time := h.time.trans hnow

/-- Calls that do not disturb the backlog keep it. -/
theorem call {site : Nat} {a : Actor} {o : Op} {ans : Answer} {r : Except PyExc o.Res}
    (h : Backlog t queue P since w)
    (ho : Undisturbing (t.streamKey queue) (P.map Redis.PendingEntry.id) o)
    (hx : w.exec site a o ans = some (w', r))
    (hkeep : ∀ e ∈ (w.redis (t.streamKey queue)).entries, e.id ∈ P.map Redis.PendingEntry.id →
      e ∈ (w'.redis (t.streamKey queue)).entries) : Backlog t queue P since w' := by
  have hnow : w.now ≤ w'.now := (World.exec_now hx).ge
  by_cases hc : ∃ c, o = .redis c
  swap
  · exact h.of_redis (by rw [(World.exec_other (fun c hc' => hc ⟨c, hc'⟩) hx).1]) hnow
  obtain ⟨c, rfl⟩ := hc
  rcases World.exec_redis hx with ⟨n, -, rfl, -⟩ | ⟨e, -, -, -, rfl⟩
  swap
  · exact h.of_redis rfl hnow
  by_cases hk : c.key = t.streamKey queue
  swap
  · exact h.of_redis (Redis.Keyspace.apply_of_ne w.redis w.now n c (Ne.symm hk)) hnow
  -- the command is one on this stream
  obtain ⟨hmem, hlast⟩ := Redis.Keyspace.mem_of_mem_apply w.redis w.now n c
    (k := t.streamKey queue)
  obtain ⟨grp, new, hg, hpel, hnew⟩ := h.group
  obtain ⟨grp', new', hg', hpel', hnew'⟩ :=
    Redis.Keyspace.apply_pel w.now n (ho hk) (hk ▸ hg) hpel
  refine ⟨⟨grp', new', hk ▸ hg', hpel', fun p hp => ?_⟩, fun p hp => ?_,
    fun p hp => (h.given p hp).trans hlast, fun e he hid => ?_, h.time.trans hnow⟩
  · rcases hnew' p hp with hold | hat
    · exact hnew p hold
    · rw [hat]
      exact h.time
  · obtain ⟨e, he, hid⟩ := List.any_eq_true.mp (h.stored p hp)
    have hmem' : e.id ∈ P.map Redis.PendingEntry.id :=
      of_decide_eq_true hid ▸ List.mem_map_of_mem hp
    exact List.any_eq_true.mpr ⟨e, hkeep e he hmem', hid⟩
  · -- an entry that is new has an id that was not given out before
    rcases hmem e he with he | hlt
    · exact h.jobs e he hid
    · obtain ⟨p, hp, hpe⟩ := List.mem_map.mp hid
      have hle := h.given p hp
      omega

/-- While all is quiet the backlog stays. -/
theorem quiet (h : Backlog t queue P since w)
    (hq : Quiet (t.streamKey queue) (P.map Redis.PendingEntry.id) w w') :
    Backlog t queue P since w' := by
  induction hq with
  | refl => exact h
  | tick d _ ih => exact ih.of_redis rfl (Nat.le_add_right _ d)
  | call _ ho hx hkeep ih => exact ih.call ho hx hkeep

/-- **A round** on a backlog that begins with a fresh block and a stale one claims exactly the stale
block, if that fills the batch or nothing behind it is stale; if it fills the batch, the backlog
changes in nothing else. -/
theorem round {r : RecoveryWorker} (fresh stale rest : List Redis.PendingEntry)
    {ds : List Delivery} (h : Backlog r.transport queue (fresh ++ (stale ++ rest)) since w)
    (hf : ∀ p ∈ fresh, ¬ p.Stale w.now r.minIdleMs) (hst : ∀ p ∈ stale, p.Stale w.now r.minIdleMs)
    (hrest : stale.length = r.claimBatch ∨
      (∀ p ∈ rest, ¬ p.Stale w.now r.minIdleMs) ∧ w.now < since + r.minIdleMs)
    (hpos : 0 < r.claimBatch) (hcount : stale.length ≤ r.claimBatch)
    (hatt : fresh.length + stale.length ≤ 10 * r.claimBatch)
    (hround : r.Round queue w ds w') :
    ds.map Delivery.entryId = stale.map Redis.PendingEntry.id ∧ w'.now = w.now ∧
      (stale.length = r.claimBatch →
        Backlog r.transport queue (fresh ++ (stale.map (·.claimed
          (RedisStreamTransport.consumerName r.workerId) w.now) ++ rest)) since w') := by
  obtain ⟨site, a, now, out, hrun, rfl⟩ := hround
  obtain ⟨grp, new, hg, hpel, hnew⟩ := h.group
  have hstored : ∀ p ∈ fresh ++ (stale ++ rest),
      (w.redis (r.transport.streamKey queue)).stores p.id = true := h.stored
  have htail : stale.length = r.claimBatch ∨ ∀ p ∈ rest ++ new, ¬ p.Stale w.now r.minIdleMs := by
    refine hrest.imp_right fun ⟨hr, hsince⟩ p hp => ?_
    rcases List.mem_append.mp hp with hp | hp
    · exact hr p hp
    · have hp := hnew p hp
      have htime := h.time
      unfold Redis.PendingEntry.Stale
      omega
  obtain ⟨hout, hnow, pel, hredis, hlen⟩ := RedisStreamTransport.runs_autoclaimStale
    fresh stale (rest ++ new) hg (by rw [hpel, List.append_assoc, List.append_assoc])
    (fun p hp => ⟨hstored p (by simp [hp]), hf p hp⟩)
    (fun p hp => ⟨hstored p (by simp [hp]), hst p hp⟩) htail hpos hcount hatt hrun
  -- what was claimed decodes
  have hids : ((w.redis (r.transport.streamKey queue)).pick
      (stale.map Redis.PendingEntry.id)).map Redis.Entry.id = stale.map Redis.PendingEntry.id :=
    Redis.Stream.pick_ids fun id hid => by
      obtain ⟨p, hp, rfl⟩ := List.mem_map.mp hid
      exact hstored p (by simp [hp])
  obtain ⟨ds, hds, hdsids⟩ := RedisStreamTransport.decodeBatch_decodable (t := r.transport)
    now (r.transport.streamKey queue)
    ((w.redis (r.transport.streamKey queue)).pick (stale.map Redis.PendingEntry.id))
    fun e he => by
      obtain ⟨hmem, hid⟩ := Redis.Stream.mem_of_mem_pick he
      exact h.jobs e hmem (by simp only [List.map_append, List.mem_append]; exact .inr (.inl hid))
        now
  refine ⟨?_, hnow, fun hfull => ?_⟩
  · rw [hout, hds]
    exact hdsids.trans hids
  · have hmapid : (fresh ++ (stale.map (·.claimed
        (RedisStreamTransport.consumerName r.workerId) w.now) ++ rest)).map
        Redis.PendingEntry.id = (fresh ++ (stale ++ rest)).map Redis.PendingEntry.id := by
      simp [Function.comp_def]
    have hstream : w'.redis (r.transport.streamKey queue) =
        (w.redis (r.transport.streamKey queue)).setGroup (r.transport.groupKey queue)
          { grp with pel := pel } := by
      rw [hredis, Function.update_self]
    refine ⟨⟨{ grp with pel := pel }, new, ?_, ?_, hnew⟩, ?_, ?_, ?_, hnow ▸ h.time⟩
    · rw [hstream]
      exact Function.update_self ..
    · rw [hlen hfull, List.append_assoc, List.append_assoc]
    · intro p hp
      obtain ⟨q, hq, hqp⟩ := List.mem_map.mp (hmapid ▸ List.mem_map_of_mem (f :=
        Redis.PendingEntry.id) hp)
      rw [hstream, ← hqp]
      exact h.stored q hq
    · intro p hp
      obtain ⟨q, hq, hqp⟩ := List.mem_map.mp (hmapid ▸ List.mem_map_of_mem (f :=
        Redis.PendingEntry.id) hp)
      rw [hstream, ← hqp]
      exact h.given q hq
    · intro e he hid
      rw [hstream] at he
      exact h.jobs e he (hmapid ▸ hid)

end Backlog

/-! ## Runs of rounds -/

namespace RecoveryWorker

variable {r : RecoveryWorker} {queue : String} {grp : Redis.Group} {w : World}

/-- A round can always be run. -/
theorem exists_round (r : RecoveryWorker) (queue : String) (w : World) :
    ∃ ds w', r.Round queue w ds w' := by
  obtain ⟨w', out, h⟩ := World.responsive_faultless.exists_runs (0 : Nat) (Actor.recovery 0)
    (r.transport.autoclaimStale queue r.workerId r.minIdleMs r.claimBatch .epoch) w
  exact ⟨_, w', 0, _, _, out, h, rfl⟩

/-- Any number of rounds can be run. -/
theorem exists_rounds (r : RecoveryWorker) (queue : String) (ids : List Nat) (w : World) (n : Nat) :
    ∃ ds w', r.Rounds queue ids w n ds w' := by
  cases n with
  | zero => exact ⟨[], w, .none⟩
  | succ n =>
    induction n with
    | zero =>
      obtain ⟨ds, w', h⟩ := exists_round r queue w
      exact ⟨ds, w', .first h⟩
    | succ n ih =>
      obtain ⟨ds, w₁, hrounds⟩ := ih
      obtain ⟨ds', w', h⟩ := exists_round r queue { w₁ with now := w₁.now + claimInterval }
      exact ⟨_, w', .next hrounds (.tick claimInterval .refl) rfl h⟩

omit [Codec] in
/-- Who has been claimed has a delivery. -/
theorem exists_delivery {ds : List Delivery} {l : List Redis.PendingEntry}
    (h : ds.map Delivery.entryId = l.map Redis.PendingEntry.id) {p : Redis.PendingEntry}
    (hp : p ∈ l) : ∃ d ∈ ds, d.entryId = p.id :=
  List.mem_map.mp (h ▸ List.mem_map_of_mem hp)

omit [Codec] in
/-- A block just claimed, as to ids and idle times. -/
theorem map_claimed (l : List Redis.PendingEntry) (consumer : String) (now : Nat) :
    (l.map (·.claimed consumer now)).map Redis.PendingEntry.id = l.map Redis.PendingEntry.id ∧
      ∀ p ∈ l.map (·.claimed consumer now), p.deliveredAt = now := by
  refine ⟨by simp [Function.comp_def], fun p hp => ?_⟩
  obtain ⟨q, -, rfl⟩ := List.mem_map.mp hp
  rfl

/-- A pending list of at most two batches is claimed in as many rounds. -/
theorem covers_of_le (hidle : r.minIdleMs = 2 * claimInterval) (hpos : 0 < r.claimBatch)
    (h : r.AllStale queue grp w) (hn : grp.pel.length ≤ 2 * r.claimBatch) :
    r.Covers queue grp w := by
  intro ds w' hrounds p hp
  have hb := Backlog.of_allStale h
  have hlen : 0 < grp.pel.length := List.length_pos_of_mem hp
  have hint : 0 < claimInterval := by decide
  by_cases hone : grp.pel.length ≤ r.claimBatch
  · -- one round claims all of it
    have hcount : (grp.pel.length + (r.claimBatch - 1)) / r.claimBatch = 1 :=
      Nat.div_eq_of_lt_le (by omega) (by omega)
    rw [hcount] at hrounds
    cases hrounds with
    | first hround =>
      obtain ⟨hids, -, -⟩ := Backlog.round (r := r) [] grp.pel []
        (by simpa using hb) (by simp) h.stale (.inr ⟨by simp, by omega⟩) hpos hone
        (by rw [List.length_nil]; omega) hround
      exact exists_delivery hids hp
  · -- the first round claims a batch, the second one the rest
    have hcount : (grp.pel.length + (r.claimBatch - 1)) / r.claimBatch = 2 :=
      Nat.div_eq_of_lt_le (by omega) (by omega)
    rw [hcount] at hrounds
    obtain ⟨A, B, hpel, hA⟩ : ∃ A B, grp.pel = A ++ B ∧ A.length = r.claimBatch :=
      ⟨_, _, (List.take_append_drop r.claimBatch grp.pel).symm, by simp; omega⟩
    have hB : B.length ≤ r.claimBatch := by
      rw [hpel, List.length_append] at hn
      omega
    rw [hpel] at hb hp
    have hstale := h.stale
    simp only [hpel, List.mem_append] at hstale
    cases hrounds with
    | next hfirst hquiet hgap hround₂ =>
      cases hfirst with
      | first hround₁ =>
        obtain ⟨hids₁, hnow₁, hb₁⟩ := Backlog.round (r := r) [] _ _ hb (by simp)
          (fun q hq => hstale q (.inl hq)) (.inl hA) hpos hA.le
          (by rw [List.length_nil]; omega) hround₁
        obtain ⟨hmap, hat⟩ := map_claimed A
          (RedisStreamTransport.consumerName r.workerId) w.now
        have hq : (grp.pel.map Redis.PendingEntry.id) =
            ([] ++ (A.map (fun q : Redis.PendingEntry =>
              q.claimed (RedisStreamTransport.consumerName r.workerId) w.now) ++ B)).map
              Redis.PendingEntry.id := by
          rw [List.nil_append, List.map_append, hmap, hpel, List.map_append]
        have hb₂ := (hb₁ hA).quiet (hq ▸ hquiet)
        obtain ⟨hids₂, -, -⟩ := Backlog.round (r := r) _ B []
          (by simpa using hb₂)
          (fun q hq' => by
            have := hat q hq'
            unfold Redis.PendingEntry.Stale
            omega)
          (fun q hq' => (hstale q (.inr hq')).later (by omega)) (.inr ⟨by simp, by omega⟩) hpos hB
          (by rw [List.length_map]; omega) hround₂
        rcases List.mem_append.mp hp with hp | hp
        · obtain ⟨d, hd, hid⟩ := exists_delivery hids₁ hp
          exact ⟨d, List.mem_append_left _ hd, hid⟩
        · obtain ⟨d, hd, hid⟩ := exists_delivery hids₂ hp
          exact ⟨d, List.mem_append_right _ hd, hid⟩

/-- Of two blocks one was claimed just now, and the other will be stale in the next round. -/
def Turns (r : RecoveryWorker) (A B : List Redis.PendingEntry) (now : Nat) : Prop :=
  ((∀ p ∈ A, p.deliveredAt = now) ∧ ∀ p ∈ B, p.Stale (now + claimInterval) r.minIdleMs) ∨
  ((∀ p ∈ B, p.deliveredAt = now) ∧ ∀ p ∈ A, p.Stale (now + claimInterval) r.minIdleMs)

/-- **Two batches take turns**: however many rounds there are, they claim from the first two batches
of the pending list only. -/
theorem rounds_turns (hidle : r.minIdleMs = 2 * claimInterval) (hpos : 0 < r.claimBatch)
    (h : r.AllStale queue grp w) {A B C : List Redis.PendingEntry} (hpel : grp.pel = A ++ (B ++ C))
    (hA : A.length = r.claimBatch) (hB : B.length = r.claimBatch) {n : Nat} {ds : List Delivery}
    {w' : World} (hr : r.Rounds queue (grp.pel.map Redis.PendingEntry.id) w n ds w') :
    (∀ d ∈ ds, d.entryId ∈ (A ++ B).map Redis.PendingEntry.id) ∧
      (0 < n → ∃ A' B', A'.map Redis.PendingEntry.id = A.map Redis.PendingEntry.id ∧
        B'.map Redis.PendingEntry.id = B.map Redis.PendingEntry.id ∧
        Backlog r.transport queue (A' ++ (B' ++ C)) w.now w' ∧ r.Turns A' B' w'.now) := by
  have hstale := h.stale
  simp only [hpel, List.mem_append] at hstale
  have hb := Backlog.of_allStale h
  rw [hpel] at hb
  induction hr with
  | none => exact ⟨by simp, fun h => absurd h (by omega)⟩
  | first hround =>
    obtain ⟨hids, hnow, hb'⟩ := Backlog.round (r := r) [] _ _ hb (by simp)
      (fun q hq => hstale q (.inl hq)) (.inl hA) hpos hA.le (by rw [List.length_nil]; omega) hround
    obtain ⟨hmap, hat⟩ := map_claimed A (RedisStreamTransport.consumerName r.workerId) w.now
    refine ⟨fun d hd => ?_, fun _ => ⟨_, B, hmap, rfl, hb' hA, .inl ⟨fun p hp => ?_, fun p hp => ?_⟩⟩⟩
    · rw [List.map_append, ← hids]
      exact List.mem_append_left _ (List.mem_map_of_mem hd)
    · rw [hat p hp, hnow]
    · exact (hstale p (.inr (.inl hp))).later (by omega)
  | @next n ds ds' w₁ w₂ w₃ _ hquiet hgap hround ih =>
    obtain ⟨hold, hturns⟩ := ih
    obtain ⟨A', B', hA', hB', hb₁, hturn⟩ := hturns (Nat.succ_pos n)
    have hlenA : A'.length = r.claimBatch := by
      simpa [hA] using congrArg List.length hA'
    have hlenB : B'.length = r.claimBatch := by
      simpa [hB] using congrArg List.length hB'
    have hids : grp.pel.map Redis.PendingEntry.id =
        (A' ++ (B' ++ C)).map Redis.PendingEntry.id := by
      rw [hpel, List.map_append, List.map_append, List.map_append, List.map_append, hA', hB']
    have hb₂ := hb₁.quiet (hids ▸ hquiet)
    have hint : 0 < claimInterval := by decide
    rcases hturn with ⟨hat, hst⟩ | ⟨hat, hst⟩
    · -- the first batch is fresh: the second one is claimed
      obtain ⟨hids', hnow, hb₃⟩ := Backlog.round (r := r) _ _ _ hb₂
        (fun q hq => by
          have := hat q hq
          unfold Redis.PendingEntry.Stale
          omega)
        (fun q hq => hgap ▸ hst q hq) (.inl hlenB) hpos hlenB.le (by omega) hround
      obtain ⟨hmap, hat'⟩ := map_claimed B' (RedisStreamTransport.consumerName r.workerId) w₂.now
      refine ⟨fun d hd => ?_, fun _ => ⟨A', _, hA', hmap.trans hB', hb₃ hlenB,
        .inr ⟨fun p hp => ?_, fun p hp => ?_⟩⟩⟩
      · rcases List.mem_append.mp hd with hd | hd
        · exact hold d hd
        · rw [List.map_append, ← hB', ← hids']
          exact List.mem_append_right _ (List.mem_map_of_mem hd)
      · rw [hat' p hp, hnow]
      · have := hat p hp
        unfold Redis.PendingEntry.Stale
        omega
    · -- the first batch is stale again, and it is claimed before anything else
      obtain ⟨hids', hnow, hb₃⟩ := Backlog.round (r := r) [] _ _ hb₂ (by simp)
        (fun q hq => hgap ▸ hst q hq) (.inl hlenA) hpos hlenA.le (by rw [List.length_nil]; omega)
        hround
      obtain ⟨hmap, hat'⟩ := map_claimed A' (RedisStreamTransport.consumerName r.workerId) w₂.now
      refine ⟨fun d hd => ?_, fun _ => ⟨_, B', hmap.trans hA', hB', hb₃ hlenA,
        .inl ⟨fun p hp => ?_, fun p hp => ?_⟩⟩⟩
      · rcases List.mem_append.mp hd with hd | hd
        · exact hold d hd
        · rw [List.map_append, ← hA', ← hids']
          exact List.mem_append_left _ (List.mem_map_of_mem hd)
      · rw [hat' p hp, hnow]
      · have := hat p hp
        unfold Redis.PendingEntry.Stale
        omega

/-- Behind the first two batches there is an entry that is never claimed. -/
theorem le_of_covers (hidle : r.minIdleMs = 2 * claimInterval) (hpos : 0 < r.claimBatch)
    (h : r.AllStale queue grp w) (hc : r.Covers queue grp w) :
    grp.pel.length ≤ 2 * r.claimBatch := by
  by_contra hlt
  obtain ⟨A, B, p, C, hpel, hA, hB⟩ : ∃ A B p C, grp.pel = A ++ (B ++ p :: C) ∧
      A.length = r.claimBatch ∧ B.length = r.claimBatch := by
    have hrest : 0 < ((grp.pel.drop r.claimBatch).drop r.claimBatch).length := by
      rw [List.length_drop, List.length_drop]
      omega
    obtain ⟨p, C, hC⟩ := List.exists_cons_of_length_pos hrest
    refine ⟨grp.pel.take r.claimBatch, (grp.pel.drop r.claimBatch).take r.claimBatch, p, C, ?_, ?_,
      ?_⟩
    · rw [← hC, List.take_append_drop, List.take_append_drop]
    · rw [List.length_take]
      omega
    · rw [List.length_take, List.length_drop]
      omega
  obtain ⟨ds, w', hr⟩ := exists_rounds r queue (grp.pel.map Redis.PendingEntry.id) w
    ((grp.pel.length + (r.claimBatch - 1)) / r.claimBatch)
  obtain ⟨d, hd, hid⟩ := hc ds w' hr p (by simp [hpel])
  have hmem := (rounds_turns hidle hpos h hpel hA hB hr).1 d hd
  -- ids are listed once
  have hsorted := (h.wf.groups _ grp h.group).pel_sorted
  rw [hpel, ← List.append_assoc, List.map_append, List.map_cons, List.pairwise_append] at hsorted
  have hlt := hsorted.2.2 d.entryId hmem p.id (List.mem_cons_self ..)
  omega

/-- **How far recovery gets**: with the defaults of the constructor it reaches every entry of a
pending list that waits to be recovered exactly if there are at most twenty. -/
theorem covers_iff {t : RedisStreamTransport} {workerId queue : String} {grp : Redis.Group}
    {w : World} (h : RecoveryWorker.AllStale { transport := t, workerId } queue grp w) :
    RecoveryWorker.Covers { transport := t, workerId } queue grp w ↔ grp.pel.length ≤ 20 :=
  ⟨le_of_covers rfl (Nat.succ_pos 9) h, covers_of_le rfl (Nat.succ_pos 9) h⟩

end RecoveryWorker

end

/-! ## A pending list that waits to be recovered -/

namespace Sample

/-- A stream of jobs that its group has not been given. -/
def jobStream (n : Nat) : Redis.Stream Body :=
  ((Redis.Stream.empty Body).setGroup (transport.groupKey "default") ⟨0, []⟩).appendAll
    (List.replicate n (RedisStreamTransport.jobBody job))

/-- The group after all of them were delivered to a worker at the beginning of time. -/
def staleGroup (n : Nat) : Redis.Group := ((jobStream n).deliver ⟨0, []⟩ "worker-2" 0 n).1

/-- Half a minute later. -/
def staleWorld (n : Nat) : World :=
  { World.init with
    now := 30000
    redis := Function.update World.init.redis (transport.streamKey "default")
      ((jobStream n).setGroup (transport.groupKey "default") (staleGroup n)) }

/-- The recovery worker of another worker, as it is constructed by default. -/
def recovery : RecoveryWorker := { transport, workerId := "1" }

/-- The stream is well formed. -/
theorem jobStream_wf (n : Nat) : (jobStream n).Wf :=
  Redis.Stream.Wf.appendAll (Redis.Stream.wf_empty.setGroup _ ⟨le_rfl, by simp, by simp⟩) _

/-- All that is on the stream carries the job and is new to the group. -/
theorem jobStream_undelivered (n : Nat) :
    (jobStream n).undelivered ⟨0, []⟩ = (jobStream n).entries ∧
      (jobStream n).entries.map Redis.Entry.fields =
        List.replicate n (RedisStreamTransport.jobBody job) := by
  have hall : (jobStream n).undelivered ⟨0, []⟩ = (jobStream n).entries :=
    List.filter_eq_self.mpr fun e he => decide_eq_true ((jobStream_wf n).ids_pos e he)
  refine ⟨hall, ?_⟩
  rw [← hall, jobStream, Redis.Stream.undelivered_appendAll _ (Nat.zero_le _)]
  rfl

/-- All of it is pending. -/
theorem staleGroup_pel (n : Nat) : (staleGroup n).pel =
    (jobStream n).entries.map fun e => ⟨e.id, "worker-2", 0⟩ := by
  obtain ⟨hall, hfields⟩ := jobStream_undelivered n
  have hlen : ((jobStream n).undelivered ⟨0, []⟩).length ≤ n := by
    rw [hall]
    simpa using (congrArg List.length hfields).le
  rw [staleGroup, (Redis.Stream.deliver_all _ _ hlen).2, hall]
  rfl

/-- It has as many pending entries as it has jobs. -/
theorem staleGroup_length (n : Nat) : (staleGroup n).pel.length = n := by
  simpa [staleGroup_pel] using congrArg List.length (jobStream_undelivered n).2

/-- All of it waits to be recovered. -/
theorem allStale (n : Nat) : recovery.AllStale "default" (staleGroup n) (staleWorld n) := by
  have hstream : (staleWorld n).redis (recovery.transport.streamKey "default") =
      (jobStream n).setGroup (transport.groupKey "default") (staleGroup n) := by
    simp [staleWorld, recovery]
  have hentry : ∀ p ∈ (staleGroup n).pel, ∃ e ∈ (jobStream n).entries, p = ⟨e.id, "worker-2", 0⟩ := by
    intro p hp
    rw [staleGroup_pel] at hp
    obtain ⟨e, he, rfl⟩ := List.mem_map.mp hp
    exact ⟨e, he, rfl⟩
  constructor
  · rw [hstream]
    exact (jobStream_wf n).setGroup _
      ((jobStream_wf n).deliver ⟨Nat.zero_le _, by simp, by simp⟩ _ _ _)
  · rw [hstream]
    simp [Redis.Stream.setGroup, recovery]
  · intro p hp
    obtain ⟨e, -, rfl⟩ := hentry p hp
    exact le_rfl
  · intro p hp
    obtain ⟨e, he, rfl⟩ := hentry p hp
    rw [hstream]
    exact List.any_eq_true.mpr ⟨e, he, by simp⟩
  · intro e he _ now
    rw [hstream] at he
    have hfields : e.fields ∈ List.replicate n (RedisStreamTransport.jobBody job) :=
      (jobStream_undelivered n).2 ▸ List.mem_map_of_mem he
    rw [(List.mem_replicate.mp hfields).2]
    exact ⟨_, RedisStreamTransport.decodeEntry_jobBody _ now job⟩

end Sample

namespace RecoveryWorker

/-- Twenty stale entries are reached. -/
theorem covers_twenty : Sample.recovery.Covers "default" (Sample.staleGroup 20) (Sample.staleWorld 20) :=
  (covers_iff (Sample.allStale 20)).mpr (Sample.staleGroup_length 20).le

/-- Of twenty-one the last is not. -/
theorem not_covers_twentyOne : ¬ ∀ (r : RecoveryWorker) (queue : String) (grp : Redis.Group)
    (w : World), r.minIdleMs = 30000 → r.claimBatch = 10 → r.AllStale queue grp w →
    r.Covers queue grp w := by
  intro h
  have hc := h Sample.recovery "default" _ _ rfl rfl (Sample.allStale 21)
  have hle := le_of_covers rfl (Nat.succ_pos 9) (Sample.allStale 21) hc
  rw [Sample.staleGroup_length] at hle
  exact absurd hle (by decide)

end RecoveryWorker

end RelayQ

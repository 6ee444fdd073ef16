import RelayQ.Guarantees.AtLeastOnce
import RelayQ.Redis.Batch
import RelayQ.System.Deployment

/-! # The order in which entries are handed out

What the polls of a queue's workers were answered, over a whole run and over all workers, and what
recovery claimed of it.

* `polled`, `claimed`: the entries the answer to a call hands out.
* `World.Handed`: the invariant of what was polled; `Sys.pollsInOrder`: first in, first out, without
  gaps as long as no answer to a poll is lost.
* `World.Settled`: the invariant of what was acknowledged; `Sys.ackedStays`: it is never handed out
  again. -/

namespace RelayQ

/-- The entries of a group that the answer to a poll hands out. -/
def polled (k g : String) : (o : Op) → Except PyExc o.Res → List Nat
  | .redis (.xreadgroup g' _ k' _ _), .ok results =>
    if k' = k ∧ g' = g then
      (results : List (String × List (Redis.Entry Body))).flatMap fun p => p.2.map Redis.Entry.id
    else []
  | _, _ => []

/-- The entries of a group that the answer to a claim hands out. -/
def claimed (k g : String) : (o : Op) → Except PyExc o.Res → List Nat
  | .redis (.xautoclaim k' g' _ _ _ _), .ok reply =>
    if k' = k ∧ g' = g then (reply : Nat × List (Redis.Entry Body)).2.map Redis.Entry.id else []
  | _, _ => []

/-- A poll of the group was carried out, and its answer was lost. -/
def lostPoll (k g : String) : (o : Op) → Except PyExc o.Res → Bool
  | .redis (.xreadgroup g' _ k' _ _), .error e => k' = k && g' = g && e.fromRedisCall
  | _, _ => false

/-- Everything the polls of a group were answered, oldest first. -/
def World.polled (w : World) (k g : String) : List Nat :=
  w.log.reverse.flatMap fun ev => RelayQ.polled k g ev.op ev.res

/-- No answer to a poll of the group was lost. -/
def World.AllTold (w : World) (k g : String) : Prop :=
  ∀ ev ∈ w.log, ev.applied = true → lostPoll k g ev.op ev.res = false

section

variable {k g : String} {w w' : World}

/-- One more event. -/
theorem World.polled_cons {ev : Event} (h : w'.log = ev :: w.log) :
    w'.polled k g = w.polled k g ++ RelayQ.polled k g ev.op ev.res := by
  simp [World.polled, h, List.flatMap_append]

/-- The answer to a call that does not poll the group hands out nothing. -/
theorem polled_eq_nil {o : Op} {r : Except PyExc o.Res}
    (h : ∀ consumer count block, o ≠ .redis (.xreadgroup g consumer k count block)) :
    polled k g o r = [] := by
  unfold polled
  split
  · split
    · rename_i hkg
      obtain ⟨rfl, rfl⟩ := hkg
      exact absurd rfl (h _ _ _)
    · rfl
  · rfl

/-- **What a poll is answered is what the group is given**; a poll that is not answered is lost, or
leaves the server as it is. -/
theorem exec_poll {site count block : Nat} {a : Actor} {ans : Answer} {consumer : String}
    {r : Except PyExc (List (String × List (Redis.Entry Body)))}
    (hx : w.exec site a (.redis (.xreadgroup g consumer k count block)) ans = some (w', r)) :
    (∃ grp, (w.redis k).groups g = some grp ∧
      w'.redis = Function.update w.redis k
        ((w.redis k).setGroup g ((w.redis k).deliver grp consumer w.now count).1) ∧
      (polled k g (.redis (.xreadgroup g consumer k count block)) r =
          ((w.redis k).deliver grp consumer w.now count).2.map Redis.Entry.id ∨
        polled k g (.redis (.xreadgroup g consumer k count block)) r = [] ∧ ¬ w'.AllTold k g)) ∨
    w'.redis = w.redis ∧ polled k g (.redis (.xreadgroup g consumer k count block)) r = [] := by
  rcases World.exec_redis hx with ⟨n, -, rfl, ⟨-, rfl⟩ | ⟨e, -, rfl, he⟩⟩ | ⟨e, -, -, rfl, rfl⟩
  · cases hg : (w.redis k).groups g with
    | none => exact .inr ⟨by simp [World.sendCmd, Redis.Keyspace.apply, hg],
        by simp [World.sendCmd, Redis.Keyspace.apply, hg, Except.mapError, polled]⟩
    | some grp =>
      refine .inl ⟨grp, rfl, by simp [World.sendCmd, Redis.Keyspace.apply, hg], .inl ?_⟩
      simp only [World.sendCmd, Redis.Keyspace.apply, hg, Except.mapError, polled, and_self, if_true]
      split
      · rename_i hnil
        rw [List.isEmpty_iff.mp hnil]
        rfl
      · simp
  · cases hg : (w.redis k).groups g with
    | none => exact .inr ⟨by simp [World.sendCmd, Redis.Keyspace.apply, hg], rfl⟩
    | some grp =>
      refine .inl ⟨grp, rfl, by simp [World.sendCmd, Redis.Keyspace.apply, hg], .inr ⟨rfl, ?_⟩⟩
      intro htold
      have hno := htold _ (List.mem_cons_self ..) rfl
      simp [lostPoll, he] at hno
  · exact .inr ⟨rfl, rfl⟩

/-! ## What was polled -/

/-- What the polls of a group were answered ascends and lies within what the group was given; if they
were told everything, it is all of it that is still stored. -/
structure World.Handed (w : World) (k g : String) : Prop where
  ascending : (w.polled k g).Pairwise (· < ·)
  given : ∀ id ∈ w.polled k g, ∃ grp, (w.redis k).groups g = some grp ∧ id ≤ grp.lastDelivered
  complete : w.AllTold k g → ∀ grp, (w.redis k).groups g = some grp →
    ∀ e ∈ (w.redis k).entries, e.id ≤ grp.lastDelivered → e.id ∈ w.polled k g

/-- Nothing was handed out at the start. -/
theorem World.handed_init : World.init.Handed k g where
  ascending := List.Pairwise.nil
  given := fun _ hid => nomatch hid
  complete := fun _ _ hg => nomatch hg

/-- A step that polls nothing of the group, and leaves it where it has read to. -/
theorem World.Handed.keep (h : w.Handed k g) (hle : w.Le w') (hpolled : w'.polled k g = w.polled k g)
    (hgrp : ∀ grp', (w'.redis k).groups g = some grp' →
      (∃ grp, (w.redis k).groups g = some grp ∧ grp'.lastDelivered = grp.lastDelivered) ∨
        ∀ e ∈ (w'.redis k).entries, grp'.lastDelivered < e.id)
    (hent : ∀ e ∈ (w'.redis k).entries, e ∈ (w.redis k).entries ∨
      ∀ grp, (w.redis k).groups g = some grp → grp.lastDelivered < e.id) : w'.Handed k g where
  ascending := hpolled ▸ h.ascending
  given := by
    intro id hid
    obtain ⟨grp, hg, hid⟩ := h.given id (hpolled ▸ hid)
    obtain ⟨grp', hg', hgle⟩ := hle.groups k g grp hg
    exact ⟨grp', hg', hid.trans hgle⟩
  complete := by
    intro htold grp' hg' e he hid
    rw [hpolled]
    rcases hgrp grp' hg' with ⟨grp, hg, hlast⟩ | hnew
    · rcases hent e he with he | hnew
      · exact h.complete (fun ev hev => htold ev (hle.log.subset hev)) grp hg e he (hlast ▸ hid)
      · exact absurd (hlast ▸ hid) (Nat.not_le_of_lt (hnew grp hg))
    · exact absurd hid (Nat.not_le_of_lt (hnew e he))

/-- A poll hands out the next entries of the stream. -/
theorem World.Handed.poll (h : w.Handed k g) (hwf : w.redis.Wf) {grp : Redis.Group}
    {consumer : String} {count : Nat} (hg : (w.redis k).groups g = some grp)
    (hredis : w'.redis = Function.update w.redis k
      ((w.redis k).setGroup g ((w.redis k).deliver grp consumer w.now count).1))
    (hlog : ∀ ev ∈ w.log, ev ∈ w'.log) {new : List Nat} (hpolled : w'.polled k g = w.polled k g ++ new)
    (hnew : new = ((w.redis k).deliver grp consumer w.now count).2.map Redis.Entry.id ∨
      new = [] ∧ ¬ w'.AllTold k g) : w'.Handed k g := by
  have hg' : (w'.redis k).groups g = some ((w.redis k).deliver grp consumer w.now count).1 := by
    simp [hredis, Redis.Stream.setGroup]
  have hent : (w'.redis k).entries = (w.redis k).entries := by
    simp [hredis, Redis.Stream.setGroup]
  have hold : ∀ id ∈ w.polled k g, id ≤ grp.lastDelivered := by
    intro id hid
    obtain ⟨grp₀, hg₀, hle⟩ := h.given id hid
    obtain rfl := Option.some.inj (hg.symm.trans hg₀)
    exact hle
  have hfresh : ∀ id ∈ new, grp.lastDelivered < id ∧
      id ≤ ((w.redis k).deliver grp consumer w.now count).1.lastDelivered := by
    intro id hid
    rcases hnew with rfl | ⟨rfl, -⟩
    · obtain ⟨e, he, rfl⟩ := List.mem_map.mp hid
      obtain ⟨hmem, hlt⟩ := Redis.Stream.mem_of_mem_deliver he
      exact ⟨hlt, ((hwf k).delivered_iff grp consumer w.now count hmem).mpr (.inr he)⟩
    · cases hid
  refine ⟨?_, fun id hid => ⟨_, hg', ?_⟩, fun htold grp' hgrp' e he hid => ?_⟩
  · rw [hpolled, List.pairwise_append]
    refine ⟨h.ascending, ?_, fun a ha b hb => Nat.lt_of_le_of_lt (hold a ha) (hfresh b hb).1⟩
    rcases hnew with rfl | ⟨rfl, -⟩
    · exact Redis.Stream.deliver_ids_sorted (hwf k) _ _ _
    · exact List.Pairwise.nil
  · rcases List.mem_append.mp (hpolled ▸ hid) with hid | hid
    · exact (hold id hid).trans (Redis.Stream.lastDelivered_le_deliver _ _ _ _ _)
    · exact (hfresh id hid).2
  · obtain rfl := Option.some.inj (hg'.symm.trans hgrp')
    rw [hent] at he
    rw [hpolled, List.mem_append]
    -- what the group has got to by this poll it had before, or this poll handed it out
    rcases ((hwf k).delivered_iff grp consumer w.now count he).mp hid with hid | hdel
    · exact .inl (h.complete (fun ev hev => htold ev (hlog ev hev)) grp hg e he hid)
    · rcases hnew with rfl | ⟨-, hlost⟩
      · exact .inr (List.mem_map_of_mem hdel)
      · exact absurd htold hlost

/-- A command that does not poll the group neither moves its position nor stores anything below
it. -/
theorem World.Handed.command (h : w.Handed k g) (hwf : w.redis.Wf) {c : Redis.Cmd Body} {n : Nat}
    (hc : c.fromStart) (hpoll : ∀ consumer count block, c ≠ .xreadgroup g consumer k count block)
    (hle : w.Le w') (hpolled : w'.polled k g = w.polled k g)
    (hredis : w'.redis = (w.redis.apply w.now n c).1) : w'.Handed k g := by
  have hwf' : w'.redis.Wf := hredis ▸ hwf.apply w.now n hc
  refine h.keep hle hpolled (fun grp' hg' => ?_) fun e he => ?_
  · rw [hredis] at hg'
    rcases Redis.Keyspace.group_of_apply hg' with hg | ⟨start, hcreate, -, rfl⟩ | ⟨grp, hg, hcmd⟩
    · exact .inl ⟨grp', hg, rfl⟩
    · -- a group that is created has read nothing
      rw [hcreate] at hc
      obtain rfl : start = 0 := hc
      exact .inr fun e he => (hwf' k).ids_pos e he
    · rcases hcmd with ⟨consumer, count, block, hread, -⟩ | ⟨id, -, rfl⟩ | ⟨_, _, _, _, -, rfl⟩
      · exact absurd hread (hpoll _ _ _)
      · exact .inl ⟨grp, hg, rfl⟩
      · exact .inl ⟨grp, hg, rfl⟩
  · rw [hredis] at he
    refine ((Redis.Keyspace.mem_of_mem_apply w.redis w.now n c).1 e he).imp_right fun hlt grp hg => ?_
    exact Nat.lt_of_le_of_lt ((hwf k).groups g grp hg).delivered_le hlt

/-- **Every call keeps the order in which a group is handed out.** -/
theorem World.Handed.exec (h : w.Handed k g) (hwf : w.redis.Wf) {site : Nat} {a : Actor} {o : Op}
    {ans : Answer} {r : Except PyExc o.Res} (ho : ∀ c, o = .redis c → c.fromStart)
    (hx : w.exec site a o ans = some (w', r)) : w'.Handed k g := by
  obtain ⟨applied, evicted, hlog⟩ := World.exec_log hx
  have hpolled : w'.polled k g = w.polled k g ++ RelayQ.polled k g o r := World.polled_cons hlog
  have hle := World.exec_le hx
  -- a call that leaves the server alone
  have hsame : w'.redis = w.redis → RelayQ.polled k g o r = [] → w'.Handed k g := by
    intro hredis hnil
    rw [hnil, List.append_nil] at hpolled
    exact h.keep hle hpolled (fun grp' hg' => .inl ⟨grp', hredis ▸ hg', rfl⟩)
      fun e he => .inl (hredis ▸ he)
  by_cases hpoll : ∃ consumer count block, o = .redis (.xreadgroup g consumer k count block)
  · obtain ⟨consumer, count, block, rfl⟩ := hpoll
    rcases exec_poll hx with ⟨grp, hg, hredis, hnew⟩ | ⟨hredis, hnil⟩
    · exact h.poll hwf hg hredis (fun ev hev => hle.log.subset hev) hpolled hnew
    · exact hsame hredis hnil
  · have hnil : RelayQ.polled k g o r = [] :=
      polled_eq_nil fun consumer count block heq => hpoll ⟨consumer, count, block, heq⟩
    by_cases hc : ∃ c, o = .redis c
    · obtain ⟨c, rfl⟩ := hc
      rcases World.exec_redis hx with ⟨n, -, rfl, -⟩ | ⟨e, -, -, -, rfl⟩
      · rw [hnil, List.append_nil] at hpolled
        refine h.command hwf (ho c rfl) (fun consumer count block heq => ?_) hle hpolled rfl
        exact hpoll ⟨consumer, count, block, congrArg Op.redis heq⟩
      · exact hsame rfl hnil
    · exact hsame (World.exec_other (fun c h => hc ⟨c, h⟩) hx).1 hnil

/-- A step of the servers keeps it. -/
theorem World.Handed.step {P : Actor → Op → Prop} (h : w.Handed k g) (hwf : w.redis.Wf)
    (hP : ∀ a c, P a (.redis c) → c.fromStart) (hs : WorldStep P w w') : w'.Handed k g := by
  cases hs with
  | idle => exact h
  | crash site => exact ⟨h.ascending, h.given, h.complete⟩
  | tick d => exact ⟨h.ascending, h.given, h.complete⟩
  | call ha hx => exact h.exec hwf (fun c hc => hP _ c (hc ▸ ha)) hx

end

namespace Sys

variable [Codec] {t : RedisStreamTransport} {s : Sys}

/-- **First in, first out, over all workers of a queue**: what their polls are answered ascends over
the whole run, so that no entry is handed out by two polls or after a later one; and as long as no
answer to a poll is lost, no stored entry is passed over. -/
theorem pollsInOrder (hrun : Run t init s) (queue : String) :
    (s.world.polled (t.streamKey queue) (t.groupKey queue)).Pairwise (· < ·) ∧
      (s.world.AllTold (t.streamKey queue) (t.groupKey queue) →
        ∀ e ∈ (s.world.redis (t.streamKey queue)).entries,
          ∀ id ∈ s.world.polled (t.streamKey queue) (t.groupKey queue), e.id ≤ id →
            e.id ∈ s.world.polled (t.streamKey queue) (t.groupKey queue)) := by
  have hinv : s.Wired t ∧ s.world.Handed (t.streamKey queue) (t.groupKey queue) :=
    Reaches.invariant (P := fun u : Sys => u.Wired t ∧
      u.world.Handed (t.streamKey queue) (t.groupKey queue))
      (fun _ _ _ hu hl hs => ⟨hu.1.step hl hs,
        hu.2.step hu.1.redis (fun _ _ ha => ha.fromStart) (step_world hu.1 hs)⟩) hrun
      ⟨wired_init, World.handed_init⟩
  obtain ⟨-, h⟩ := hinv
  refine ⟨h.ascending, fun htold e he id hid hle => ?_⟩
  obtain ⟨grp, hg, hlast⟩ := h.given id hid
  exact h.complete htold grp hg e he (hle.trans hlast)

end Sys

namespace Sample

open RedisStreamTransport (jobEntry)

/-- A worker with one permit that has a task for its first job and has read its second one. -/
def prefetched [Codec] : Worker :=
  { (single false).spawn 1 with
    loop := .acquiring ⟨transport.streamKey "default", 2, .ofJob second⟩ []
    recovery := .claiming
    tasks := [⟨⟨transport.streamKey "default", 1, .ofJob job⟩, .created⟩]
    permits := 0
    gauge := some 1 }

/-- Two jobs were enqueued, and a worker with one permit has polled twice. -/
theorem exists_prefetched [Codec] : ∃ s : Sys, Sys.Run transport Sys.init s ∧
    s.workers = [prefetched] ∧
    s.world.polled (transport.streamKey "default") (transport.groupKey "default") = [1, 2] := by
  -- enqueued, the worker started, the group created
  obtain ⟨⟨pool, workers⟩, hs, rfl, hpolled, hent, hgrp⟩ : ∃ s : Sys, Sys.Run transport Sys.init s ∧
      s.workers = [{ (single false).spawn 1 with
        loop := .polling
        recovery := .claiming }] ∧
      s.world.polled (transport.streamKey "default") (transport.groupKey "default") = [] ∧
      (s.world.redis (transport.streamKey "default")).entries =
        [(1, job), (2, second)].map jobEntry ∧
      (s.world.redis (transport.streamKey "default")).groups (transport.groupKey "default") =
        some ⟨0, []⟩ :=
    ⟨_, .tail (l := .worker 0 (.loop (.ok 0) .epoch))
      (.tail (l := .spawn (single false) 1) (.tail (l := .pool (.answer 1 (.ok 0)))
        (.tail (l := .pool (.answer 1 (.ok 0))) (.tail (l := .pool (.start enqueueSecond 0))
          (.tail (l := .pool (.answer 0 (.ok 0))) (.tail (l := .pool (.answer 0 (.ok 0)))
            (.single (l := .pool (.start (enqueueCall job false) 0)) rfl rfl) trivial rfl)
            trivial rfl) rfl rfl) trivial rfl) trivial rfl) (opening_spawn "1" 1).1 rfl) trivial rfl,
      rfl, rfl, rfl, rfl⟩
  change pool.world.polled _ _ = _ at hpolled
  change (pool.world.redis _).entries = _ at hent
  change (pool.world.redis _).groups _ = _ at hgrp
  -- the first poll, a task for what it brings, and the second poll
  obtain ⟨world₁, hstep₁, -, -, hlog₁, hredis₁⟩ := exists_poll (i := 0) (l := [(1, job)])
    (s := ⟨pool, [{ (single false).spawn 1 with loop := .polling, recovery := .claiming }]⟩)
    rfl rfl rfl rfl rfl Nat.one_pos (by simp) hgrp (by
      change ((pool.world.redis _).undelivered _).take 1 = _
      simp [Redis.Stream.undelivered, hent, jobEntry])
  obtain ⟨world₂, hstep₂, -, -, hlog₂, -⟩ := exists_poll (i := 0) (l := [(2, second)])
    (s := ⟨{ pool with world := world₁ }, [{ prefetched with loop := .polling }]⟩)
    (g := ⟨1, [⟨1, RedisStreamTransport.consumerName "1", pool.world.now⟩]⟩)
    rfl rfl rfl rfl rfl Nat.one_pos (by simp)
    (by
      change (world₁.redis _).groups _ = _
      rw [hredis₁, Function.update_self]
      exact (Redis.Stream.setGroup_groups_self ..).trans rfl)
    (by
      change ((world₁.redis _).undelivered _).take 1 = _
      rw [hredis₁, Function.update_self]
      change ((pool.world.redis _).undelivered _).take 1 = _
      simp [Redis.Stream.undelivered, hent, jobEntry])
  refine ⟨_, .tail (l := .worker 0 (.loop (.ok 0) .epoch)) (.tail (l := .worker 0 .acquire)
    (.tail (l := .worker 0 (.loop (.ok 0) .epoch)) hs trivial hstep₁) trivial rfl) trivial hstep₂,
    rfl, ?_⟩
  change world₂.polled _ _ = _
  rw [World.polled_cons hlog₂]
  change world₁.polled _ _ ++ _ = _
  rw [World.polled_cons hlog₁]
  change (pool.world.polled _ _ ++ _) ++ _ = _
  rw [hpolled]
  simp [RelayQ.polled, jobEntry]

end Sample

/-- A queue whose two entries have been read, one poll after the other. -/
theorem Sys.pollsInOrder_polled : ∃ s : Sys,
    s.world.polled (Sample.transport.streamKey "default") (Sample.transport.groupKey "default") =
      [1, 2] ∧
    (s.world.polled (Sample.transport.streamKey "default")
      (Sample.transport.groupKey "default")).Pairwise (· < ·) := by
  obtain ⟨s, hrun, -, hpolled⟩ := Sample.exists_prefetched
  exact ⟨s, hpolled, (Sys.pollsInOrder hrun "default").1⟩

/-! ## What was acknowledged -/

/-- The answer to a call hands out the entry of the group, to a poll or to a claim. -/
def Event.HandsOut (t : RedisStreamTransport) (queue : String) (entryId : Nat) (ev : Event) : Prop :=
  entryId ∈ polled (t.streamKey queue) (t.groupKey queue) ev.op ev.res ∨
    entryId ∈ claimed (t.streamKey queue) (t.groupKey queue) ev.op ev.res

/-- The acknowledged entries of a queue are past its group, and no call after their acknowledgement
was answered with them. -/
structure World.Settled (t : RedisStreamTransport) (queue : String) (w : World) : Prop where
  past : ∀ ev ∈ w.log, ∀ id, ev.Acks t queue id →
    ∃ grp, (w.redis (t.streamKey queue)).groups (t.groupKey queue) = some grp ∧ grp.Acked id
  silent : w.log.Pairwise fun later earlier =>
    ∀ id, earlier.Acks t queue id → ¬ later.HandsOut t queue id

section

variable {t : RedisStreamTransport} {queue : String} {w w' : World}

/-- Nothing is pending at the start. -/
theorem World.settled_init : World.init.Settled t queue :=
  ⟨fun _ hev => (nomatch hev), List.Pairwise.nil⟩

/-- **An answer hands out nothing that is past the group.** -/
theorem not_handsOut_of_acked {site : Nat} {a : Actor} {o : Op} {ans : Answer}
    {r : Except PyExc o.Res} {applied : Bool} {evicted id : Nat} {grp : Redis.Group}
    (hx : w.exec site a o ans = some (w', r))
    (hg : (w.redis (t.streamKey queue)).groups (t.groupKey queue) = some grp) (hack : grp.Acked id) :
    ¬ Event.HandsOut t queue id ⟨a, o, applied, evicted, r⟩ := by
  rintro (hid | hid)
  · -- a poll hands out what lies beyond the position of the group
    by_cases hpoll : ∃ consumer count block, o = .redis (.xreadgroup (t.groupKey queue) consumer
      (t.streamKey queue) count block)
    · obtain ⟨consumer, count, block, rfl⟩ := hpoll
      rcases exec_poll hx with ⟨grp', hg', -, hnew | ⟨hnil, -⟩⟩ | ⟨-, hnil⟩
      · obtain rfl := Option.some.inj (hg.symm.trans hg')
        rw [hnew] at hid
        obtain ⟨e, he, rfl⟩ := List.mem_map.mp hid
        exact absurd hack.1 (Nat.not_le_of_lt (Redis.Stream.mem_of_mem_deliver he).2)
      · rw [hnil] at hid
        cases hid
      · rw [hnil] at hid
        cases hid
    · have hnil : polled (t.streamKey queue) (t.groupKey queue) o r = [] :=
        polled_eq_nil fun consumer count block heq => hpoll ⟨consumer, count, block, heq⟩
      dsimp only at hid
      rw [hnil] at hid
      cases hid
  · -- a claim hands out what is pending
    simp only [claimed] at hid
    split at hid
    · split at hid
      · rename_i k' g' consumer minIdle start count reply hkg
        obtain ⟨rfl, rfl⟩ := hkg
        obtain ⟨e, he, rfl⟩ := List.mem_map.mp hid
        rcases World.exec_redis hx with ⟨n, -, -, ⟨-, hr⟩ | ⟨e', -, hr, -⟩⟩ | ⟨e', -, -, hr, -⟩
        · have hok : (w.redis.apply w.now n (.xautoclaim (t.streamKey queue) (t.groupKey queue)
              consumer minIdle start count)).2 = .ok reply := by
            simp only [World.sendCmd] at hr
            cases hres : (w.redis.apply w.now n (.xautoclaim (t.streamKey queue) (t.groupKey queue)
              consumer minIdle start count)).2 with
            | error ce => simp [hres, Except.mapError] at hr
            | ok v => simpa [hres, Except.mapError] using hr.symm
          obtain ⟨grp', hg', p, hp, hpid, -⟩ := Redis.Keyspace.stale_of_mem_xautoclaim
            (Prod.ext rfl hok) he
          obtain rfl := Option.some.inj (hg.symm.trans hg')
          exact hack.2 p hp hpid
        · cases hr
        · cases hr
      · cases hid
    · cases hid

/-- One call, whose acknowledgement, if it is one, is of an entry the group was given. -/
theorem World.Settled.exec (h : w.Settled t queue) {site : Nat} {a : Actor} {o : Op} {ans : Answer}
    {r : Except PyExc o.Res} (hx : w.exec site a o ans = some (w', r))
    (hack : ∀ id, o = .redis (.xack (t.streamKey queue) (t.groupKey queue) id) →
      w.Delivered t queue id) : w'.Settled t queue := by
  obtain ⟨applied, evicted, hlog⟩ := World.exec_log hx
  -- what is past the group stays so
  have hkeep : ∀ {id : Nat} {grp : Redis.Group},
      (w.redis (t.streamKey queue)).groups (t.groupKey queue) = some grp → grp.Acked id →
      ∃ grp', (w'.redis (t.streamKey queue)).groups (t.groupKey queue) = some grp' ∧
        grp'.Acked id := by
    intro id grp hg hid
    by_cases hc : ∃ c, o = .redis c
    · obtain ⟨c, rfl⟩ := hc
      rcases World.exec_redis hx with ⟨n, -, rfl, -⟩ | ⟨e, -, -, -, rfl⟩
      · exact Redis.Keyspace.apply_acked w.redis w.now n c hg hid
      · exact ⟨grp, hg, hid⟩
    · exact ⟨grp, (World.exec_other (fun c h => hc ⟨c, h⟩) hx).1 ▸ hg, hid⟩
  constructor
  · intro ev hev id hacks
    rcases List.mem_cons.mp (hlog ▸ hev) with rfl | hev
    · -- it was acknowledged just now
      obtain ⟨happ, hop⟩ := hacks
      subst hop
      obtain ⟨grp, hg, hle⟩ := hack id rfl
      rcases World.exec_redis hx with ⟨n, -, rfl, -⟩ | ⟨e, -, -, rfl, rfl⟩
      · refine ⟨{ grp with pel := grp.pel.filter fun p => p.id ≠ id }, ?_, hle, fun p hp => ?_⟩
        · simp [World.sendCmd, Redis.Keyspace.apply, hg, Redis.Stream.setGroup]
        · exact decide_eq_true_iff.mp (List.mem_filter.mp hp).2
      · obtain ⟨heq, -⟩ := List.cons.inj hlog
        obtain rfl := (Event.mk.inj heq).2.2.1
        cases happ
    · obtain ⟨grp, hg, hid⟩ := h.past ev hev id hacks
      exact hkeep hg hid
  · rw [hlog]
    refine List.pairwise_cons.mpr ⟨fun ev hev id hacks => ?_, h.silent⟩
    obtain ⟨grp, hg, hid⟩ := h.past ev hev id hacks
    exact not_handsOut_of_acked hx hg hid

end

namespace Sys

variable [Codec] {t : RedisStreamTransport} {s s' : Sys}

/-- An acknowledgement that the system may send is of an entry its group was given. -/
theorem Allowed.delivered (hw : s.Wired t) {a : Actor} {queue : String} {id : Nat}
    (ha : s.Allowed t a (.redis (.xack (t.streamKey queue) (t.groupKey queue) id))) :
    s.world.Delivered t queue id := by
  obtain ⟨w, hmem, d, hd, -, hk, -, rfl, -⟩ := ha _ rfl
  obtain rfl := t.streamKey_injective hk
  exact (hw.workers w hmem).delivered d hd

/-- **What was acknowledged is never handed out again**: after an acknowledgement that reached the
server, no poll and no claim of any worker is answered with its entry. -/
theorem ackedStays (hrun : Run t init s) (queue : String) :
    s.world.log.Pairwise fun later earlier =>
      ∀ id, earlier.Acks t queue id → ¬ later.HandsOut t queue id := by
  have hinv : s.Wired t ∧ s.world.Settled t queue := by
    refine Reaches.invariant (P := fun u : Sys => u.Wired t ∧ u.world.Settled t queue)
      (fun u l v hu hl hs => ⟨hu.1.step hl hs, ?_⟩) hrun ⟨wired_init, World.settled_init⟩
    obtain ⟨hwired, hset⟩ := hu
    have hws := step_world hwired hs
    generalize v.world = world at hws
    cases hws with
    | idle => exact hset
    | crash site => exact ⟨hset.past, hset.silent⟩
    | tick d => exact ⟨hset.past, hset.silent⟩
    | call ha hx => exact hset.exec hx fun id hop => Allowed.delivered hwired (hop ▸ ha)
  exact hinv.2.silent

end Sys

/-- An entry whose acknowledgement has reached the server, though its answer was lost. -/
theorem Sys.ackedStays_lost : ∃ s : Sys,
    (∃ ev ∈ s.world.log, ev.Acks Sample.transport "default" 1) ∧
    s.world.log.Pairwise fun later earlier =>
      ∀ id, earlier.Acks Sample.transport "default" id →
        ¬ later.HandsOut Sample.transport "default" id := by
  obtain ⟨⟨pool, workers⟩, hs, rfl, -⟩ := Sample.exists_polled "1"
  have hrun : Sys.Run Sample.transport Sys.init ⟨pool, [Sample.polled "1"]⟩ :=
    hs.mono fun _ l hl => hl.1
  -- the task is created, started, reads the clock, runs its handler and measures its time
  obtain ⟨s, hs', hacks⟩ : ∃ s : Sys, Sys.Run Sample.transport ⟨pool, [Sample.polled "1"]⟩ s ∧
      ∃ ev ∈ s.world.log, ev.Acks Sample.transport "default" 1 :=
    ⟨_, .tail (l := .worker 0 (.task 0 (.lost (.redisError "ConnectionError" "lost") 0)))
      (.tail (l := .worker 0 (.task 0 (.ok 0))) (.tail (l := .worker 0 (.task 0 (.ok 0)))
        (.tail (l := .worker 0 (.task 0 (.ran ⟨.empty, none⟩)))
          (.tail (l := .worker 0 (.task 0 (.ok 0))) (.tail (l := .worker 0 (.startTask 0))
            (.single (l := .worker 0 .acquire) trivial rfl) trivial rfl) trivial rfl)
          trivial rfl) trivial rfl) trivial rfl) trivial rfl,
      ⟨_, List.mem_cons_self .., rfl, rfl⟩⟩
  exact ⟨s, hacks, Sys.ackedStays (hrun.trans hs') "default"⟩

end RelayQ

import RelayQ.Guarantees.Bulkhead

/-! # Who has taken which entry

A poll hands out entries beyond everything the group was given before, so what the workers of a queue
take from it never overlaps.

* `Worker.taken`: every delivery a worker has taken, oldest first, less what its loop dropped.
* `Worker.taken_of_step`: only a poll adds to it.
* `Sys.Owned`, `Sys.Run.owned`: in every reachable state a worker's entries ascend and no two workers
  of a queue share one. -/

namespace RelayQ

namespace Worker

/-- What a worker has taken from its queue: the deliveries of its tasks, in the order of their
creation, and then its batch in hand. -/
def taken (w : Worker) : List Delivery := w.tasks.map Task.delivery ++ w.loop.batch

variable {w w' : Worker}

/-- What was taken is held. -/
theorem mem_taken {d : Delivery} : d ∈ w.taken ↔ d ∈ w.deliveries := by
  simp only [taken, deliveries, List.mem_append, or_comm]

/-- A task that gets on keeps its delivery. -/
theorem setTask_taken {i : Nat} {d : Delivery} {pc₀ : TaskPc} (hi : w.tasks[i]? = some ⟨d, pc₀⟩)
    (pc : TaskPc) : (w.setTask i pc).taken = w.taken := by
  rw [taken, setTask_map_delivery hi]
  rfl

/-- A task that goes on or ends keeps its delivery. -/
theorem settle_taken {i : Nat} {d : Delivery} {pc₀ : TaskPc} (hi : w.tasks[i]? = some ⟨d, pc₀⟩)
    (p : Py Unit) : (w.settle i p).taken = w.taken := by
  rw [taken, settle_tasks, setTask_map_delivery hi, settle_loop]
  rfl

/-- A delivery of the batch that gets a task stays taken. -/
theorem spawnTask_taken {d : Delivery} {rest : List Delivery} (hloop : w.loop = .acquiring d rest) :
    (w.spawnTask d rest).taken = w.taken := by
  have hb : (w.spawnTask d rest).loop.batch = rest := batchPc_batch w rest
  rw [taken, taken, hb, hloop]
  simp [spawnTask, LoopPc.batch]

/-- A loop without a batch has dropped it. -/
theorem taken_sublist_of_batch (ht : w'.tasks = w.tasks) (hb : w'.loop.batch = []) :
    w'.taken.Sublist w.taken := by
  rw [taken, ht, hb, List.append_nil]
  exact List.sublist_append_left _ _

variable [Codec] {t : RedisStreamTransport} {me : Nat} {s s' : World}

/-- **Only a poll adds to what a worker has taken**; a loop that is cancelled drops its batch. -/
theorem taken_of_step {l : WorkerLabel} (hx : w.step me s l = some (s', w')) :
    (∃ ans now, l = .loop ans now ∧ w.loop.batch = [] ∧
      w'.taken = w.taken ++ w.pollResult me s ans now) ∨ w'.taken.Sublist w.taken := by
  cases act_of_step hx with
  | ensure | check | poll =>
    obtain ⟨-, ht, -, hb, hres⟩ := loop_of_step hx
    refine .inl ⟨_, _, rfl, hb, ?_⟩
    rw [taken, taken, ht, hb, List.append_nil, hres]
  | wake => exact .inr (taken_sublist_of_batch rfl (headPc_batch w))
  | acquire hloop => exact .inr (spawnTask_taken hloop ▸ List.Sublist.refl _)
  | start hi | task hi => exact .inr (settle_taken hi _ ▸ List.Sublist.refl _)
  | cancelTask hi | callback hi => exact .inr (setTask_taken hi _ ▸ List.Sublist.refl _)
  | claim | wakeRecovery | cancelRecovery | requestShutdown => exact .inr (List.Sublist.refl _)
  | join => exact .inr (taken_sublist_of_batch rfl (by dsimp only; split <;> rfl))
  | leave | abandon | drained | timeUp | lapse => exact .inr (taken_sublist_of_batch rfl rfl)

/-- What a poll returns lies beyond everything the group was given before, in ascending order. -/
theorem Wired.pollResult_new (hw : w.Wired t s) (hwf : s.redis.Wf) (me : Nat) (ans : Answer)
    (now : DateTime) :
    ((w.pollResult me s ans now).map Delivery.entryId).Pairwise (· < ·) ∧
      ∀ id, s.Delivered t w.runner.queue id →
        ∀ d ∈ w.pollResult me s ans now, id < d.entryId := by
  unfold Worker.pollResult
  split
  · rename_i w₁ ds hloop haw
    obtain ⟨grp, hg, hsub⟩ := RedisStreamTransport.sublist_of_await_readGroup haw
    rw [RedisStreamTransport.streamKey_congr hw.uses.1] at hg hsub
    rw [RedisStreamTransport.groupKey_congr hw.uses.1] at hg
    refine ⟨(Redis.Stream.deliver_ids_sorted (hwf _) _ _ _).sublist hsub, fun id hdel d hd => ?_⟩
    obtain ⟨grp', hg', hle⟩ := hdel
    obtain rfl := Option.some.inj (hg.symm.trans hg')
    obtain ⟨e, he, hid⟩ := List.mem_map.mp (hsub.subset (List.mem_map_of_mem hd))
    exact hid ▸ Nat.lt_of_le_of_lt hle (Redis.Stream.mem_of_mem_deliver he).2
  · exact ⟨List.Pairwise.nil, fun _ _ d hd => nomatch hd⟩

end Worker

namespace Sys

/-- Two workers have no entry of one queue in common. -/
def Apart (w w' : Worker) : Prop :=
  w.runner.queue = w'.runner.queue → ∀ d ∈ w.taken, ∀ d' ∈ w'.taken, d.entryId ≠ d'.entryId

/-- Neither has what the other has. -/
theorem Apart.symm {w w' : Worker} (h : Apart w w') : Apart w' w :=
  fun hq d hd d' hd' heq => h hq.symm d' hd' d hd heq.symm

/-- **Who has taken which entry**: the entries of a worker ascend, and no two workers have an entry
of one queue in common. -/
structure Owned (s : Sys) : Prop where
  ascending : ∀ w ∈ s.workers, (w.taken.map Delivery.entryId).Pairwise (· < ·)
  apart : ∀ (i j : Nat) (w w' : Worker), s.workers[i]? = some w → s.workers[j]? = some w' →
    i ≠ j → Apart w w'

/-- Nobody has anything at the start. -/
theorem owned_init : init.Owned := ⟨by simp [init], by simp [init]⟩

/-- What happens to workers without one taking an entry keeps what is known. -/
theorem Owned.of_workers {s s' : Sys} (ho : s.Owned) (h : ∀ (i : Nat) (w' : Worker),
    s'.workers[i]? = some w' → w'.taken = [] ∨ ∃ w, s.workers[i]? = some w ∧
      w'.runner = w.runner ∧ w'.taken.Sublist w.taken) : s'.Owned where
  ascending := by
    intro w' hw'
    obtain ⟨i, hi⟩ := List.mem_iff_getElem?.mp hw'
    rcases h i w' hi with hnil | ⟨w, hw, -, hsub⟩
    · rw [hnil]
      exact List.Pairwise.nil
    · exact (ho.ascending w (List.mem_of_getElem? hw)).sublist (hsub.map _)
  apart := by
    intro i j w₁' w₂' hi hj hij hq d hd d' hd'
    rcases h i w₁' hi with hnil | ⟨w₁, hw₁, hr₁, hsub₁⟩
    · rw [hnil] at hd
      cases hd
    · rcases h j w₂' hj with hnil | ⟨w₂, hw₂, hr₂, hsub₂⟩
      · rw [hnil] at hd'
        cases hd'
      · rw [hr₁, hr₂] at hq
        exact ho.apart i j w₁ w₂ hw₁ hw₂ hij hq d (hsub₁.subset hd) d' (hsub₂.subset hd')

variable [Codec] {t : RedisStreamTransport} {s s' : Sys}

/-- A worker that polls takes entries that nobody has taken. -/
theorem Owned.poll (ho : s.Owned) (hwired : s.Wired t) {i : Nat} {w w' : Worker} {world : World}
    {new : List Delivery} (hw : s.workers[i]? = some w) (hr : w'.runner = w.runner)
    (htaken : w'.taken = w.taken ++ new) (hasc : (new.map Delivery.entryId).Pairwise (· < ·))
    (hnew : ∀ id, s.world.Delivered t w.runner.queue id → ∀ d ∈ new, id < d.entryId) :
    Owned ⟨{ s.pool with world := world }, s.workers.set i w'⟩ := by
  have hold : ∀ u ∈ s.workers, u.runner.queue = w.runner.queue → ∀ d ∈ u.taken, ∀ d' ∈ new,
      d.entryId < d'.entryId := by
    intro u hu hq d hd d' hd'
    refine hnew d.entryId ?_ d' hd'
    rw [← hq]
    exact (hwired.workers u hu).delivered d (Worker.mem_taken.mp hd)
  have hmem := List.mem_of_getElem? hw
  -- the entries of `w'` are apart from those of every other worker
  have hapart : ∀ (j : Nat) (u : Worker), s.workers[j]? = some u → i ≠ j → Apart w' u := by
    intro j u hu hij hq d hd d' hd'
    rw [htaken] at hd
    rw [hr] at hq
    rcases List.mem_append.mp hd with hd | hd
    · exact ho.apart i j w u hw hu hij hq d hd d' hd'
    · exact (hold u (List.mem_of_getElem? hu) hq.symm d' hd' d hd).ne'
  refine ⟨fun u hu => ?_, fun j k u v hj hk hjk => ?_⟩
  · rcases List.mem_or_eq_of_mem_set hu with hu | rfl
    · exact ho.ascending u hu
    · rw [htaken, List.map_append, List.pairwise_append]
      refine ⟨ho.ascending w hmem, hasc, fun a ha b hb => ?_⟩
      obtain ⟨d, hd, rfl⟩ := List.mem_map.mp ha
      obtain ⟨d', hd', rfl⟩ := List.mem_map.mp hb
      exact hold w hmem rfl d hd d' hd'
  · rcases getElem?_set_cases hj with ⟨rfl, rfl⟩ | ⟨-, hj'⟩
    · rcases getElem?_set_cases hk with ⟨rfl, -⟩ | ⟨-, hk'⟩
      · exact absurd rfl hjk
      · exact hapart k v hk' hjk
    · rcases getElem?_set_cases hk with ⟨rfl, rfl⟩ | ⟨-, hk'⟩
      · exact (hapart j u hj' hjk.symm).symm
      · exact ho.apart j k u v hj' hk' hjk

/-- **Every step keeps the entries of the workers apart.** -/
theorem Owned.step {l : SysLabel} (ho : s.Owned) (hwired : s.Wired t) (hs : s.step l = some s') :
    s'.Owned := by
  rcases step_cases hs with ⟨pl, p, rfl, -, -, rfl⟩ | ⟨r, site, rfl, rfl⟩ |
    ⟨i, wl, w, world, w', rfl, hi, -, hx, rfl⟩
  · -- a crash, or nothing that concerns workers
    obtain hmap := fun i => getElem?_killed s.workers pl i
    refine ho.of_workers fun i w' hw' => ?_
    obtain ⟨f, hf, hi⟩ := hmap i
    obtain ⟨w, hw, rfl⟩ := Option.map_eq_some_iff.mp (hi.symm.trans hw')
    refine .inr ⟨w, hw, ?_⟩
    rcases hf w with heq | heq <;> rw [heq] <;> exact ⟨rfl, List.Sublist.refl _⟩
  · refine ho.of_workers fun i w' hw' => ?_
    rcases getElem?_concat_cases hw' with hw' | ⟨-, rfl⟩
    · exact .inr ⟨w', hw', rfl, List.Sublist.refl _⟩
    · exact .inl rfl
  · have hframe := (Worker.step_move hx).frame.1
    have hwk := hwired.workers w (List.mem_of_getElem? hi)
    rcases Worker.taken_of_step hx with ⟨ans, now, rfl, -, htaken⟩ | hsub
    · obtain ⟨hasc, hnew⟩ := hwk.pollResult_new hwired.redis i ans now
      exact ho.poll hwired hi hframe htaken hasc hnew
    · refine ho.of_workers fun j u hu => .inr ?_
      rcases getElem?_set_cases hu with ⟨rfl, rfl⟩ | ⟨-, hu⟩
      · exact ⟨w, hi, hframe, hsub⟩
      · exact ⟨u, hu, rfl, List.Sublist.refl _⟩

/-- **In every reachable state the entries of the workers are apart.** -/
theorem Run.owned (h : Run t init s) : s.Owned := by
  have hinv : s.Wired t ∧ s.Owned :=
    Reaches.invariant (P := fun u : Sys => u.Wired t ∧ u.Owned)
      (fun _ _ _ hu hl hs => ⟨hu.1.step hl hs, hu.2.step hu.1 hs⟩) h ⟨wired_init, owned_init⟩
  exact hinv.2

omit [Codec] in
/-- **An entry of a queue is that of one task**, of one worker. -/
theorem Owned.task_unique (ho : s.Owned) {i i' j j' : Nat} {w w' : Worker} {tk tk' : Task}
    (hw : s.workers[i]? = some w) (hw' : s.workers[i']? = some w') (hj : w.tasks[j]? = some tk)
    (hj' : w'.tasks[j']? = some tk') (hq : w.runner.queue = w'.runner.queue)
    (hid : tk.delivery.entryId = tk'.delivery.entryId) : i = i' ∧ j = j' := by
  have hmem : ∀ {u : Worker} {k : Nat} {x : Task}, u.tasks[k]? = some x → x.delivery ∈ u.taken :=
    fun h => List.mem_append_left _ (List.mem_map_of_mem (List.mem_of_getElem? h))
  have hii : i = i' := by
    by_contra hne
    exact ho.apart i i' w w' hw hw' hne hq _ (hmem hj) _ (hmem hj') hid
  subst hii
  obtain rfl := Option.some.inj (hw.symm.trans hw')
  refine ⟨rfl, ?_⟩
  -- the ids of its tasks ascend, so no id stands in two places
  have hasc := ho.ascending w (List.mem_of_getElem? hw)
  rw [Worker.taken, List.map_append, List.map_map] at hasc
  have hnodup : (w.tasks.map (Delivery.entryId ∘ Task.delivery)).Nodup :=
    (List.pairwise_append.mp hasc).1.imp Nat.ne_of_lt
  refine (List.getElem?_inj ?_ hnodup).mp ?_
  · rw [List.length_map]
    exact (List.getElem?_eq_some_iff.mp hj).1
  · rw [List.getElem?_map, List.getElem?_map, hj, hj']
    exact congrArg some hid

end Sys

end RelayQ

import RelayQ.System.Wiring

/-! # Every job a worker holds is well typed

What `Enqueuer` appends is the dictionary form of a job, and writers outside the code leave no
ill-typed ones: so whatever is read from a queue's stream is a job whose attributes have their
declared types, and a task that starts calls `execute`.

* `RedisStreamTransport.isSome_typed?_of_decodeEntry`: a well-typed body is one for every reader, at
  every time.
* `Sys.Typed`, `Sys.Run.typed`: the invariant. -/

namespace RelayQ

section

variable [Codec]

/-- A body that was found well typed is read as a well-typed job by any client at any time. -/
theorem RedisStreamTransport.isSome_typed?_of_decodeEntry {t : RedisStreamTransport}
    {now : DateTime} {body : Body} {j : RawJob} (hbody : wellTyped body = true)
    (hdec : t.decodeEntry now body = .job j) : j.typed?.isSome = true := by
  have hmem : t.decodeResponses ∈ [false, true] := by
    cases t.decodeResponses <;> simp
  have hcheck := List.all_eq_true.mp hbody t.decodeResponses hmem
  -- the check read the body at another time
  obtain ⟨c, hc⟩ : ∃ c, (⟨"", t.decodeResponses⟩ : RedisStreamTransport).decodeEntry .epoch body =
      .job { j with createdAt := c } := by
    unfold RedisStreamTransport.decodeEntry at hdec ⊢
    have hreply : (⟨"", t.decodeResponses⟩ : RedisStreamTransport).reply body = t.reply body := rfl
    rw [hreply]
    split at hdec
    · cases hdec
    · split at hdec
      · cases hdec
      · split at hdec
        · cases hdec
        · rename_i text htext
          cases hl : Codec.loads text with
          | error e =>
            simp only [hl, bind, Except.bind] at hdec
            split at hdec
            · rename_i heq
              cases heq
            all_goals cases hdec
          | ok d =>
            simp only [hl, bind, Except.bind] at hdec ⊢
            split at hdec
            · rename_i j' hj'
              obtain rfl := Decoded.job.inj hdec
              obtain ⟨c, hc⟩ := RawJob.fromDict_now .epoch hj'
              exact ⟨c, by simp only [hc]⟩
            all_goals cases hdec
  rw [hc] at hcheck
  exact (RawJob.isSome_typed?_createdAt j c).symm.trans hcheck

/-- The body of a job is well typed. -/
theorem wellTyped_jobBody (j : Job) : wellTyped (RedisStreamTransport.jobBody j) = true := by
  simp [wellTyped]

namespace Sys

/-- What the streams of the queues hold and what the workers hold is well typed. -/
structure Typed (t : RedisStreamTransport) (s : Sys) : Prop where
  bodies : ∀ queue, ∀ e ∈ (s.world.redis (t.streamKey queue)).entries, wellTyped e.fields = true
  jobs : ∀ w ∈ s.workers, ∀ d ∈ w.deliveries, d.job.typed?.isSome = true

variable {t : RedisStreamTransport} {s s' : Sys} {l : SysLabel}

/-- Nothing is on a stream at the start. -/
theorem typed_init : init.Typed t where
  bodies := fun queue e he => nomatch he
  jobs := by simp [init]

/-- A call whose additions to a stream are well typed leaves the stream well typed. -/
theorem bodies_of_exec {w w' : World} {site : Nat} {a : Actor} {o : Op} {ans : Answer}
    {r : Except PyExc o.Res} {k : String} (hx : w.exec site a o ans = some (w', r))
    (ho : ∀ c body, o = .redis c → c.added? = some (k, body) → wellTyped body = true)
    (h : ∀ e ∈ (w.redis k).entries, wellTyped e.fields = true) :
    ∀ e ∈ (w'.redis k).entries, wellTyped e.fields = true := by
  intro e he
  by_cases hc : ∃ c, o = .redis c
  · obtain ⟨c, rfl⟩ := hc
    rcases World.exec_redis hx with ⟨n, -, rfl, -⟩ | ⟨e', -, -, -, rfl⟩
    · rcases Redis.Keyspace.added_of_mem_apply he with he | hadd
      · exact h e he
      · exact ho c e.fields rfl hadd
    · exact h e he
  · rw [(World.exec_other (fun c h => hc ⟨c, h⟩) hx).1] at he
    exact h e he

/-- A step leaves the bodies in the streams well typed. -/
theorem Typed.step_bodies (h : s.Typed t) (hwired : s.Wired t) (hs : s.step l = some s')
    (queue : String) :
    ∀ e ∈ (s'.world.redis (t.streamKey queue)).entries, wellTyped e.fields = true := by
  have hold := h.bodies queue
  rcases step_cases hs with ⟨pl, p, rfl, hforeign, hp, rfl⟩ | ⟨r, site, rfl, rfl⟩ |
    ⟨i, wl, w, world, w', rfl, hi, -, hx, rfl⟩
  · rcases PoolSpec.step_cases hp with ⟨c, site, rfl, rfl⟩ |
      ⟨i, ans, c, o, k, w, r, rfl, hc, hprog, hx, rfl⟩ | ⟨site, rfl, rfl⟩ | ⟨e, w, rfl, hw, rfl⟩
    · exact hold
    · obtain ⟨ph, hg, -⟩ := hwired.calls c (List.mem_of_getElem? hc) _ hprog
      refine bodies_of_exec hx (fun cmd body ho hadd => ?_) hold
      subst ho
      cases cmd with
      | xadd key f lim =>
        obtain ⟨-, -, rfl, -⟩ := hg
        obtain ⟨-, rfl⟩ := Prod.mk.inj (Option.some.inj hadd)
        exact wellTyped_jobBody _
      | _ => cases hadd
    · exact hold
    · cases e with
      | tick d =>
        obtain rfl := Option.some.inj hw
        exact hold
      | foreign key body =>
        simp only [World.env, Option.map_eq_some_iff] at hw
        obtain ⟨⟨w₁, r⟩, hx, rfl⟩ := hw
        refine bodies_of_exec hx (fun cmd body' ho hadd => ?_) hold
        cases ho
        obtain ⟨-, rfl⟩ := Prod.mk.inj (Option.some.inj hadd)
        exact hforeign
  · exact hold
  · have hwk := hwired.workers w (List.mem_of_getElem? hi)
    have hm := Worker.step_move hx
    clear hx
    cases hm with
    | loop | recovery | shutdown | spawn | start | retire => exact hold
    | ensure hx _ _ | check _ _ hx _ | poll _ _ hx _ | claim _ hx =>
      refine bodies_of_exec hx (fun cmd body ho hadd => ?_) hold
      cases ho
      cases hadd
    | @task j d o k ans s₁ r hj hx =>
      refine bodies_of_exec hx (fun cmd body ho hadd => ?_) hold
      subst ho
      obtain ⟨ph, jobId, -, ⟨hguard, -⟩, -⟩ := hwk.running d _ (List.mem_of_getElem? hj)
      cases cmd with
      | xadd key f lim =>
        -- a dead letter goes to no stream
        obtain ⟨rfl, -, -⟩ := hguard
        obtain ⟨hkey, -⟩ := Prod.mk.inj (Option.some.inj hadd)
        rw [RedisStreamTransport.dlqKey_congr hwk.uses.2.1] at hkey
        exact absurd hkey.symm (t.streamKey_ne_dlqKey _ _)
      | _ => cases hadd

/-- **Every step leaves everything well typed.** -/
theorem Typed.step (h : s.Typed t) (hwired : s.Wired t) (hs : s.step l = some s') :
    s'.Typed t := by
  refine ⟨h.step_bodies hwired hs, ?_⟩
  rcases step_cases hs with ⟨pl, p, rfl, -, -, rfl⟩ | ⟨r, site, rfl, rfl⟩ |
    ⟨i, wl, w, world, w', rfl, hi, -, hx, rfl⟩
  · intro w hw d hd
    obtain ⟨w₀, hw₀, rfl | rfl⟩ := mem_killed hw
    · exact h.jobs w hw₀ d hd
    · exact h.jobs w₀ hw₀ d hd
  · intro w hw d hd
    rcases List.mem_append.mp hw with hw | hw
    · exact h.jobs w hw d hd
    · obtain rfl := List.mem_singleton.mp hw
      cases hd
  · intro w₁ hw₁ d hd
    have hw := List.mem_of_getElem? hi
    rcases List.mem_or_eq_of_mem_set hw₁ with hw₁ | rfl
    · exact h.jobs w₁ hw₁ d hd
    · rcases (Worker.step_move hx).deliveries hd with hd | ⟨now, grp, consumer, count, e, -, -, -,
        he, -, hdec⟩
      · exact h.jobs w hw d hd
      · rw [RedisStreamTransport.streamKey_congr (hwired.workers w hw).uses.1] at he
        exact RedisStreamTransport.isSome_typed?_of_decodeEntry
          (h.bodies _ e (Redis.Stream.mem_of_mem_deliver he).1) hdec

/-- **In every state that is reached everything is well typed.** -/
theorem Run.typed (hrun : Run t s s') (hwired : s.Wired t) (h : s.Typed t) : s'.Typed t := by
  have hinv : s'.Wired t ∧ s'.Typed t :=
    Reaches.invariant (P := fun u : Sys => u.Wired t ∧ u.Typed t)
      (fun u l v hu hl hs => ⟨hu.1.step hl hs, hu.2.step hu.1 hs⟩) hrun ⟨hwired, h⟩
  exact hinv.2

end Sys

end

end RelayQ

import RelayQ.Infrastructure.World

/-! # What was appended to a key

The log says who appended what to a key, and in which order. The id of an entry is its place in this
order, also after the entry itself is gone.

* `World.appends`: the appends to a key, oldest first.
* `World.AppendedBy`: who appended the entry of an id, and with which body.
* `World.Numbered`: ids and places agree. -/

namespace RelayQ

/-- Who appended what to the key, if the event is an append that the server carried out. -/
def Event.appended? (key : String) (ev : Event) : Option (Actor × Body) :=
  match ev.op with
  | .redis (.xadd key' body _) => if ev.applied = true ∧ key' = key then some (ev.actor, body) else none
  | _ => none

/-- The event is an append to the key, as it was sent. -/
theorem Event.exists_of_appended? {key : String} {ev : Event} {a : Actor} {body : Body}
    (h : ev.appended? key = some (a, body)) :
    ev.actor = a ∧ ∃ lim, ev.op = .redis (.xadd key body lim) := by
  unfold appended? at h
  split at h
  · rename_i key' body' lim hop
    split at h
    · rename_i hkey
      obtain ⟨rfl, rfl⟩ := Prod.mk.inj (Option.some.inj h)
      exact ⟨rfl, lim, by rw [hop, hkey.2]⟩
    · cases h
  · cases h

namespace World

/-- Who appended what to the key, oldest first. -/
def appends (w : World) (key : String) : List (Actor × Body) :=
  w.log.reverse.filterMap (Event.appended? key)

/-- The entry of the id was appended to the key by this actor, with this body. -/
def AppendedBy (w : World) (key : String) (id : Nat) (a : Actor) (body : Body) : Prop :=
  0 < id ∧ (w.appends key)[id - 1]? = some (a, body)

variable {w w' : World} {key : String} {id : Nat} {a a' : Actor} {body body' : Body}

/-- One more event. -/
theorem appends_cons {ev : Event} (h : w'.log = ev :: w.log) :
    w'.appends key = w.appends key ++ (ev.appended? key).toList := by
  simp only [appends, h, List.reverse_cons, List.filterMap_append, List.filterMap_cons,
    List.filterMap_nil]
  cases ev.appended? key <;> rfl

/-- What was appended is read off the record. -/
theorem appends_congr (h : w'.log = w.log) : w'.appends key = w.appends key := by
  rw [appends, appends, h]

/-- An append is an event of the log. -/
theorem exists_of_mem_appends (h : (a, body) ∈ w.appends key) :
    ∃ ev ∈ w.log, ev.appended? key = some (a, body) := by
  obtain ⟨ev, hev, happ⟩ := List.mem_filterMap.mp h
  exact ⟨ev, List.mem_reverse.mp hev, happ⟩

namespace AppendedBy

/-- It is one of the appends. -/
theorem mem (h : w.AppendedBy key id a body) : (a, body) ∈ w.appends key :=
  List.mem_of_getElem? h.2

/-- What was appended stays so. -/
theorem mono (hlog : w.log <:+ w'.log) (h : w.AppendedBy key id a body) :
    w'.AppendedBy key id a body := by
  obtain ⟨newer, hnewer⟩ := hlog
  refine ⟨h.1, ?_⟩
  have happ : w'.appends key = w.appends key ++ newer.reverse.filterMap (Event.appended? key) := by
    rw [appends, appends, ← hnewer, List.reverse_append, List.filterMap_append]
  rw [happ, List.getElem?_append_left (List.getElem?_eq_some_iff.mp h.2).1]
  exact h.2

/-- An id is given out once. -/
theorem unique (h : w.AppendedBy key id a body) (h' : w.AppendedBy key id a' body') :
    a = a' ∧ body = body' :=
  Prod.mk.inj (Option.some.inj (h.2.symm.trans h'.2))

end AppendedBy

/-- Every id was given out by an append, in their order. -/
structure Numbered (w : World) : Prop where
  lastId : ∀ key, (w.redis key).lastId = (w.appends key).length
  entries : ∀ key, ∀ e ∈ (w.redis key).entries, ∃ a, w.AppendedBy key e.id a e.fields

/-- No stream has an entry at the start. -/
theorem numbered_init : init.Numbered where
  lastId _ := rfl
  entries _ _ he := nomatch he

/-- Only the server and the log matter. -/
theorem Numbered.congr (h : w.Numbered) (hredis : w'.redis = w.redis) (hlog : w'.log = w.log) :
    w'.Numbered where
  lastId k := by rw [hredis, appends_congr hlog, h.lastId]
  entries k e he := by
    obtain ⟨a, happ⟩ := h.entries k e (hredis ▸ he)
    exact ⟨a, happ.mono (hlog ▸ List.suffix_refl _)⟩

/-- **Every answered call keeps the order of the ids.** -/
theorem Numbered.exec (h : w.Numbered) {site : Nat} {o : Op} {ans : Answer}
    {r : Except PyExc o.Res} (hx : w.exec site a o ans = some (w', r)) : w'.Numbered := by
  -- a call that changes no stream and appends nothing
  have hsame : ∀ {ev : Event}, w'.redis = w.redis → w'.log = ev :: w.log →
      (∀ k, ev.appended? k = none) → w'.Numbered := by
    intro ev hredis hlog hnone
    have happ : ∀ k, w'.appends k = w.appends k := fun k => by
      rw [appends_cons hlog, hnone, Option.toList_none, List.append_nil]
    refine ⟨fun k => by rw [hredis, happ, h.lastId], fun k e he => ?_⟩
    obtain ⟨b, hb⟩ := h.entries k e (hredis ▸ he)
    exact ⟨b, hb.mono (hlog ▸ List.suffix_cons _ _)⟩
  by_cases hc : ∃ c, o = .redis c
  swap
  · obtain ⟨hredis, applied, hlog⟩ := exec_other (fun c h => hc ⟨c, h⟩) hx
    refine hsame hredis hlog fun k => ?_
    unfold Event.appended?
    split
    · rename_i hop
      exact absurd ⟨_, hop⟩ hc
    · rfl
  obtain ⟨c, rfl⟩ := hc
  rcases exec_redis hx with ⟨n, -, rfl, -⟩ | ⟨e, -, -, -, rfl⟩
  swap
  · refine hsame rfl rfl fun k => ?_
    unfold Event.appended?
    split
    · exact if_neg (by simp)
    · rfl
  -- what the command adds to a key is what the event appends to it
  have hadd : ∀ k, (∃ f, c.added? = some (k, f) ∧
        Event.appended? k ⟨a, .redis c, true, n, r⟩ = some (a, f)) ∨
      (∀ f, c.added? ≠ some (k, f)) ∧ Event.appended? k ⟨a, .redis c, true, n, r⟩ = none := by
    intro k
    cases c with
    | xadd k' f lim =>
      by_cases hk : k' = k
      · subst hk
        exact .inl ⟨f, rfl, by simp [Event.appended?]⟩
      · refine .inr ⟨fun f' h => hk (Prod.mk.inj (Option.some.inj h)).1, ?_⟩
        simp [Event.appended?, hk]
    | _ => exact .inr ⟨(fun _ => nofun), rfl⟩
  have hlog : ((w.sendCmd c n).1.record ⟨a, .redis c, true, n, r⟩).log =
    ⟨a, .redis c, true, n, r⟩ :: w.log := rfl
  have hold : ∀ {k : String} {e : Redis.Entry Body}, e ∈ (w.redis k).entries → ∃ b,
      ((w.sendCmd c n).1.record ⟨a, .redis c, true, n, r⟩).AppendedBy k e.id b e.fields :=
    fun {k e} he => by
      obtain ⟨b, hb⟩ := h.entries k e he
      exact ⟨b, hb.mono (hlog ▸ List.suffix_cons _ _)⟩
  constructor
  · intro k
    rw [appends_cons hlog]
    rcases hadd k with ⟨f, hf, hev⟩ | ⟨hf, hev⟩
    · rw [hev, Option.toList_some, List.length_append, ← h.lastId]
      exact (Redis.Keyspace.apply_of_added w.redis w.now n hf).1
    · rw [hev, Option.toList_none, List.append_nil, ← h.lastId]
      exact (Redis.Keyspace.apply_of_not_added w.redis w.now n hf).1
  · intro k e he
    rcases hadd k with ⟨f, hf, hev⟩ | ⟨hf, hev⟩
    · rcases (Redis.Keyspace.apply_of_added w.redis w.now n hf).2 e he with he | rfl
      · exact hold he
      · -- the new entry is the last append
        refine ⟨a, Nat.succ_pos _, ?_⟩
        rw [appends_cons hlog, hev, h.lastId]
        simp
    · exact hold ((Redis.Keyspace.apply_of_not_added w.redis w.now n hf).2 e he)

end World

end RelayQ

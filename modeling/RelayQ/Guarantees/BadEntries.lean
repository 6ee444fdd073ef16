import RelayQ.Infrastructure.StreamRuns

/-! # Which bad entries spoil only themselves

Both readers of a stream go through a batch entry by entry and pass over an entry without a job
field, with a body that is not JSON, or without an id. Every other failure of decoding escapes from
the reader and takes the whole batch with it: bytes that are not UTF-8, a body that is not an
object, an unknown status, an ill-formed creation time.

* `RedisStreamTransport.Benign`: the bodies that spoil nothing but themselves.
* `RedisStreamTransport.decodeBatch_eq_ok_iff`: when a batch is read.
* `RedisStreamTransport.Isolates`, `isolates_iff`: the same for the two readers. -/

namespace RelayQ

/-- `except (json.JSONDecodeError, KeyError)` -/
def PyExc.skipsEntry : PyExc → Bool
  | .jsonDecodeError _ | .keyError _ => true
  | _ => false

namespace RedisStreamTransport

section

variable [Codec] (t : RedisStreamTransport)

/-- The text of a job field that spoils nothing: it is not JSON, or an object that has no id or has
a status and a creation time that can be read. -/
def BenignText (text : String) : Prop :=
  match Codec.loads text with
  | .error e => e.skipsEntry = true
  | .ok v => ∃ kvs, v.items? = some kvs ∧ (kvs.lookup "id" ≠ none →
      (∃ s, RawJob.statusOf ((kvs.lookup "status").getD (.str "pending")) = .ok s) ∧
      ∀ c, kvs.lookup "created_at" = some c → ∀ e, RawJob.createdAtOf c = .error e →
        e.skipsEntry = true)

/-- A body that spoils nothing: the client can hand it out, and its job field, if it has one, is
UTF-8 and spoils nothing. -/
def Benign (body : Body) : Prop :=
  ∃ fields, t.reply body = .ok fields ∧ ∀ raw, fields.get "job" = some raw →
    ∃ text, raw.decode = .ok text ∧ BenignText text

/-- The delivery of an entry whose body builds a job. -/
def deliverable (now : DateTime) (stream : String) (e : Redis.Entry Body) : Option Delivery :=
  match t.decodeEntry now e.fields with
  | .job j => some ⟨stream, e.id, j⟩
  | _ => none

variable {t} {now : DateTime} {queue stream : String} {es : List (Redis.Entry Body)}

/-- A body is parsed and built, or passed over, exactly if its text spoils nothing. -/
theorem benignText_iff (now : DateTime) {text : String} :
    BenignText text ↔
      ∀ e, Codec.loads text >>= RawJob.fromDict now = .error e → e.skipsEntry = true := by
  unfold BenignText
  cases Codec.loads text with
  | error e => simp [bind, Except.bind]
  | ok v =>
    simp only [bind, Except.bind, RawJob.fromDict]
    cases v.items? with
    | none => simp [PyExc.skipsEntry]
    | some kvs =>
      -- of the dictionary only these three matter
      simp only [Option.some.injEq, exists_eq_left']
      generalize kvs.lookup "id" = id, (kvs.lookup "status").getD (.str "pending") = status,
        kvs.lookup "created_at" = createdAt
      cases id with
      | none => simp [PyExc.skipsEntry]
      | some id =>
        cases hs : RawJob.statusOf status with
        | error e =>
          obtain rfl : e = .other "ValueError" (some "not a valid JobStatus") := by
            unfold RawJob.statusOf at hs
            split at hs
            · cases hs
            · exact (Except.error.inj hs).symm
          simp [PyExc.skipsEntry]
        | ok s =>
          cases createdAt with
          | none => simp
          | some c => cases hc : RawJob.createdAtOf c <;> simp [hc]

/-- A body spoils nothing exactly if decoding it raises nothing that escapes. -/
theorem benign_iff (now : DateTime) {body : Body} :
    t.Benign body ↔ ∀ e, t.decodeEntry now body ≠ .raised e := by
  unfold Benign decodeEntry
  cases hr : t.reply body with
  | error e => simp
  | ok fields =>
    cases hf : fields.get "job" with
    | none => simp [hf]
    | some raw =>
      cases hd : raw.decode with
      | error e => simp [hf, hd]
      | ok text =>
        simp only [Except.ok.injEq, exists_eq_left', hf, Option.some.injEq, forall_eq', hd,
          benignText_iff now]
        cases Codec.loads text >>= RawJob.fromDict now with
        | ok j => simp
        | error e => cases e <;> simp [PyExc.skipsEntry]

/-- **When a batch is read**: exactly if none of its bodies spoils more than itself; it then comes
to the entries that build a job, in order. -/
theorem decodeBatch_eq_ok_iff (now : DateTime) (stream : String) :
    t.decodeBatch now stream es = .ok (es.filterMap (t.deliverable now stream)) ↔
      ∀ e ∈ es, t.Benign e.fields := by
  induction es with
  | nil => simp [decodeBatch]
  | cons e es ih =>
    rw [List.forall_mem_cons, ← ih, benign_iff now]
    cases he : t.decodeEntry now e.fields with
    | job j =>
      have hmap : ∀ {x : Except PyExc (List Delivery)} {ds : List Delivery} {d : Delivery},
          x.map (fun ds => d :: ds) = .ok (d :: ds) ↔ x = .ok ds := by
        intro x ds d
        cases x <;> simp [Except.map]
      simp only [decodeBatch, he, List.filterMap_cons, deliverable]
      simp [hmap, deliverable]
    | skipped => simp [decodeBatch, he, deliverable]
    | raised exc => simp [decodeBatch, he]

/-! ## The two readers -/

/-- **The bad entries of a batch spoil only themselves**: whenever the server answers a group read
or a claim with the batch, the reader returns the entries that build a job, in order. -/
def Isolates (t : RedisStreamTransport) (queue : String) (now : DateTime)
    (es : List (Redis.Entry Body)) : Prop :=
  (∀ workerId count block w site a ans w', 0 < count →
    w.exec site a (.redis (.xreadgroup (t.groupKey queue) (consumerName workerId)
      (t.streamKey queue) count block)) ans = some (w', .ok [(t.streamKey queue, es)]) →
    relay.await w site a (t.readGroup queue workerId count block now) ans =
      some (w', .ok (es.filterMap (t.deliverable now (t.streamKey queue))))) ∧
  ∀ workerId minIdle count w site a ans w' cursor,
    w.exec site a (.redis (.xautoclaim (t.streamKey queue) (t.groupKey queue)
      (consumerName workerId) minIdle 0 count)) ans = some (w', .ok (cursor, es)) →
    relay.await w site a (t.autoclaimStale queue workerId minIdle count now) ans =
      some (w', .ok (es.filterMap (t.deliverable now (t.streamKey queue))))

omit [Codec] in
/-- Any entries can be what a group has not been given yet. -/
theorem exists_read (t : RedisStreamTransport) (queue : String) (hes : es ≠ [])
    (hpos : ∀ e ∈ es, 0 < e.id) : ∃ w w' : World, w.exec 0 .foreign (.redis (.xreadgroup
      (t.groupKey queue) (consumerName "1") (t.streamKey queue) es.length 0)) (.ok 0) =
      some (w', .ok [(t.streamKey queue, es)]) := by
  let s : Redis.Stream Body := ⟨es, 0, fun _ => some ⟨0, []⟩⟩
  have hdel : (s.deliver ⟨0, []⟩ (consumerName "1") 0 es.length).2 = es := by
    have hall : s.undelivered ⟨0, []⟩ = es := List.filter_eq_self.mpr fun e he => by
      simpa using hpos e he
    simp only [Redis.Stream.deliver, hall, List.take_length]
  refine ⟨{ World.init with redis := fun _ => s }, _, World.exec_ok 0 .foreign rfl ?_⟩
  simp only [World.sendCmd, Redis.Keyspace.apply, Except.mapError, World.init, s]
  simp only [s] at hdel
  simp [hdel, hes]

/-- A body that spoils more than itself: the batch is lost. -/
theorem not_isolates {e : Redis.Entry Body} (hpos : ∀ e ∈ es, 0 < e.id) (he : e ∈ es)
    (hbad : ¬ t.Benign e.fields) : ¬ t.Isolates queue now es := by
  intro h
  have hne : es ≠ [] := List.ne_nil_of_mem he
  obtain ⟨w, w', hx⟩ := exists_read t queue hne hpos
  have hlen : 0 < es.length := List.length_pos_iff.mpr hne
  have hread := h.1 "1" es.length 0 w 0 .foreign (.ok 0) w' hlen hx
  rw [await_readGroup_of_exec _ hlen hx, decodeReply_singleton] at hread
  have hdec := (Prod.mk.inj (Option.some.inj hread)).2
  exact hbad ((decodeBatch_eq_ok_iff now _).mp hdec e he)

/-- **When the bad entries of a batch spoil only themselves**: exactly if each of its bodies is
benign. -/
theorem isolates_iff (hpos : ∀ e ∈ es, 0 < e.id) :
    t.Isolates queue now es ↔ ∀ e ∈ es, t.Benign e.fields := by
  constructor
  · intro h e he
    by_contra hbad
    exact not_isolates hpos he hbad h
  · intro h
    have hdec := (decodeBatch_eq_ok_iff (t := t) now (t.streamKey queue)).mpr h
    refine ⟨fun workerId count block w site a ans w' hc hx => ?_,
      fun workerId minIdle count w site a ans w' cursor hx => ?_⟩
    · rw [await_readGroup_of_exec _ hc hx, decodeReply_singleton, hdec]
    · rw [await_autoclaimStale_of_exec hx, hdec]

end

/-- An entry without a job field, and one with a job. -/
theorem isolates_skipped : Sample.transport.Isolates "default" .epoch
    [⟨1, []⟩, ⟨2, jobBody Sample.job⟩] := by
  refine (isolates_iff (by decide)).mpr fun e he => (benign_iff .epoch).mpr fun exc => ?_
  rcases List.mem_cons.mp he with rfl | he
  · simp [decodeEntry, reply, Sample.transport, Fields.get]
  · rw [List.mem_singleton.mp he, decodeEntry_jobBody]
    simp

/-- An entry whose job is not UTF-8 takes the job behind it along. -/
theorem not_isolates_undecodable : ¬ Sample.transport.Isolates "default" .epoch
    [⟨1, [(utf8 "job", [255])]⟩, ⟨2, jobBody Sample.job⟩] := by
  refine not_isolates (by decide) (List.mem_cons_self ..) fun h => ?_
  refine (benign_iff .epoch).mp h unicodeDecodeError ?_
  have hbad : utf8? [255] = none := by decide
  simp [decodeEntry, reply, Sample.transport, Fields.get, Raw.decode, hbad]

end RedisStreamTransport

end RelayQ

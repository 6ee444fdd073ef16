import RelayQ.Infrastructure.World

/-! # The Redis Streams transport

Each queue has its stream `prefix:queue:stream`, its consumer group `prefix:queue:group` and its
dead-letter stream `prefix:queue:dlq`. Messages are JSON-serialised job dictionaries in the field
`job`. Reading a batch back skips an entry without that field or with a body that is not JSON or
has no id; a body that fails to decode in any other way raises out of the whole batch. -/

namespace RelayQ

/-- A field name or value as the client hands it out: text if it decodes responses, else bytes. -/
inductive Raw
  | bytes (b : Bytes)
  | text (s : String)
  deriving DecidableEq

/-- The fields of an entry as the client hands them out. -/
abbrev Fields : Type := List (Raw × Raw)

/-- `fields.get(b"name", fields.get("name"))`; of two fields with one name the later one counts. -/
def Fields.get (fs : Fields) (name : String) : Option Raw :=
  (fs.reverse.lookup (.bytes (utf8 name))).or (fs.reverse.lookup (.text name))

/-- The failure of `bytes.decode("utf-8")`. -/
def unicodeDecodeError : PyExc := .other "UnicodeDecodeError" (some "invalid start byte")

/-- Text as it is, bytes decoded. -/
def Raw.decode : Raw → Except PyExc String
  | .text s => .ok s
  | .bytes b => match utf8? b with
    | some s => .ok s
    | none => .error unicodeDecodeError

/-- A job read from a stream: the stream, the entry, the job as its body builds it. -/
structure Delivery where
  stream : String
  entryId : Nat
  job : RawJob

/-- What reading one entry comes to. -/
inductive Decoded
  /-- The body builds a job. -/
  | job (j : RawJob)
  /-- The entry is logged and skipped. -/
  | skipped
  /-- Decoding raises something nobody catches. -/
  | raised (e : PyExc)

/-- A dead letter as it is read back. -/
structure DlqEntry where
  entryId : Nat
  job : JVal
  reason : String

/-- The transport: the prefix of its keys, and whether its client decodes responses. -/
structure RedisStreamTransport where
  streamPrefix : String
  decodeResponses : Bool

namespace RedisStreamTransport

variable (t : RedisStreamTransport)

/-! ## Keys -/

/-- The key of the stream of a queue. -/
def streamKey (queue : String) : String := t.streamPrefix ++ ":" ++ queue ++ ":stream"

/-- The name of its consumer group. -/
def groupKey (queue : String) : String := t.streamPrefix ++ ":" ++ queue ++ ":group"

/-- The key of its dead-letter stream. -/
def dlqKey (queue : String) : String := t.streamPrefix ++ ":" ++ queue ++ ":dlq"

/-- The name a worker reads under. -/
def consumerName (workerId : String) : String := "worker-" ++ workerId

/-- Different queues have different streams. -/
theorem streamKey_injective : Function.Injective t.streamKey := by
  intro q q' h
  simp only [streamKey, String.append_assoc] at h
  simpa using h

/-- Different queues have different dead-letter streams. -/
theorem dlqKey_injective : Function.Injective t.dlqKey := by
  intro q q' h
  simp only [dlqKey, String.append_assoc] at h
  simpa using h

/-- The stream of one queue is never the dead-letter stream of any: their last letters differ. -/
theorem streamKey_ne_dlqKey (q q' : String) : t.streamKey q ≠ t.dlqKey q' := by
  intro h
  have hl := congrArg (fun s => s.toList.reverse.head?) h
  simp [streamKey, dlqKey] at hl

/-! ## Lifecycle -/

/-- Create the stream and the consumer group; a group that exists is fine. -/
def ensureGroup (queue : String) : Py Unit :=
  (perform (.redis (.xgroupCreate (t.streamKey queue) (t.groupKey queue) 0))).tryExcept
    fun e => match e with
      | .responseError _ => if e.isBusyGroup then .ret () else .raise e
      | e => .raise e

/-- Number of messages in the stream. -/
def streamLength (queue : String) : Py Nat :=
  perform (.redis (.xlen (t.streamKey queue)))

variable [Codec]

/-! ## Enqueue -/

/-- The body `xadd` writes. -/
def jobBody (job : Job) : Body := [(utf8 "job", utf8 (Codec.dumps job.toDict))]

/-- The client's own default of `approximate`. -/
def approximateDefault : Bool := true

/-- Append a job to the stream; returns the entry id. -/
def xadd (queue : String) (job : Job) (maxlen : Nat) (approximate : Bool) : Py Nat :=
  perform (.redis (.xadd (t.streamKey queue) (jobBody job)
    (if maxlen = 0 then none
      else some (maxlen, if approximate then true else approximateDefault))))

/-- The body `xadd_dlq` writes. -/
def dlqBody (job : Job) (reason : String) : Body :=
  [(utf8 "job", utf8 (Codec.dumps job.toDict)), (utf8 "reason", utf8 reason),
    (utf8 "dlqed_at", utf8 (Codec.dumps (.str (Codec.isoformat job.createdAt))))]

/-- Move a job to the dead-letter queue with a reason annotation. -/
def xaddDlq (queue : String) (job : Job) (reason : String) : Py Nat :=
  perform (.redis (.xadd (t.dlqKey queue) (dlqBody job reason) none))

/-! ## Dequeue and claim -/

/-- An entry's fields as this client hands them out. -/
def reply (body : Body) : Except PyExc Fields :=
  if t.decodeResponses then
    body.mapM fun kv => do
      let k ← (Raw.bytes kv.1).decode
      let v ← (Raw.bytes kv.2).decode
      .ok (.text k, .text v)
  else .ok (body.map fun kv => (.bytes kv.1, .bytes kv.2))

/-- Read one entry; `now` is the time a body without `created_at` gets. -/
def decodeEntry (now : DateTime) (body : Body) : Decoded :=
  match t.reply body with
  | .error e => .raised e
  | .ok fields =>
    match fields.get "job" with
    | none => .skipped
    | some raw =>
      match raw.decode with
      | .error e => .raised e
      | .ok text =>
        match Codec.loads text >>= RawJob.fromDict now with
        | .ok j => .job j
        | .error (.jsonDecodeError _) => .skipped
        | .error (.keyError _) => .skipped
        | .error e => .raised e

/-- Read a batch of entries in order. -/
def decodeBatch (now : DateTime) (stream : String) :
    List (Redis.Entry Body) → Except PyExc (List Delivery)
  | [] => .ok []
  | e :: es =>
    match t.decodeEntry now e.fields with
    | .job j => (decodeBatch now stream es).map fun ds => ⟨stream, e.id, j⟩ :: ds
    | .skipped => decodeBatch now stream es
    | .raised exc => .error exc

/-- Read the reply to a group read: the batches of its streams in order. -/
def decodeReply (now : DateTime) (results : List (String × List (Redis.Entry Body))) :
    Except PyExc (List Delivery) :=
  (results.mapM fun p => t.decodeBatch now p.1 p.2).map List.flatten

/-- A reply with one stream. -/
@[simp] theorem decodeReply_singleton (now : DateTime) (stream : String)
    (es : List (Redis.Entry Body)) :
    t.decodeReply now [(stream, es)] = t.decodeBatch now stream es := by
  cases h : t.decodeBatch now stream es <;>
    simp [decodeReply, h, bind, Except.bind, pure, Except.pure, Except.map]

/-- Blocking read from the consumer group. -/
def readGroup (queue workerId : String) (count blockMs : Nat) (now : DateTime) :
    Py (List Delivery) :=
  -- the client refuses a count below one before it sends anything
  if count = 0 then
    .raise (.other "DataError" (some "XREADGROUP count must be a positive integer"))
  else
    (perform (.redis (.xreadgroup (t.groupKey queue) (consumerName workerId)
        (t.streamKey queue) count blockMs))).bind fun results =>
      .ofExcept (t.decodeReply now results)

/-- Acknowledge a job as processed. -/
def xack (queue : String) (entryId : Nat) : Py Nat :=
  perform (.redis (.xack (t.streamKey queue) (t.groupKey queue) entryId))

/-- Reclaim pending entries that have been idle too long. -/
def autoclaimStale (queue workerId : String) (minIdleMs count : Nat) (now : DateTime) :
    Py (List Delivery) :=
  (perform (.redis (.xautoclaim (t.streamKey queue) (t.groupKey queue)
      (consumerName workerId) minIdleMs 0 count))).bind fun result =>
    .ofExcept (t.decodeBatch now (t.streamKey queue) result.2)

/-! ## Dead-letter read-back -/

/-- The entries of a reply as this client hands them out: it decodes all of them, or raises. -/
def replies (es : List (Redis.Entry Body)) : Except PyExc (List (Nat × Fields)) :=
  es.mapM fun e => (t.reply e.fields).map fun fields => (e.id, fields)

omit [Codec] in
/-- A reply of one more entry. -/
theorem replies_cons_eq_ok {t : RedisStreamTransport} {e : Redis.Entry Body}
    {es : List (Redis.Entry Body)} {fs : List (Nat × Fields)} :
    t.replies (e :: es) = .ok fs ↔ ∃ fields fs', t.reply e.fields = .ok fields ∧
      t.replies es = .ok fs' ∧ fs = (e.id, fields) :: fs' := by
  have hcons : t.replies (e :: es) = (t.reply e.fields).bind fun fields =>
      (t.replies es).bind fun fs => .ok ((e.id, fields) :: fs) := by
    unfold replies
    rw [List.mapM_cons]
    cases t.reply e.fields <;> rfl
  rw [hcons]
  cases t.reply e.fields <;> cases t.replies es <;> simp [Except.bind, eq_comm]

/-- `json.loads` of a decoded value or of `None`. -/
def loadsRaw : Option String → Except PyExc JVal
  | none => .error (.other "TypeError" (some "the JSON object must be str, bytes or bytearray"))
  | some text => Codec.loads text

/-- A value of an entry, bytes decoded; `None` when the entry has no such field. -/
def decodeField (fields : Fields) (name : String) : Except PyExc (Option String) :=
  match fields.get name with
  | none => .ok none
  | some raw => raw.decode.map some

/-- The reason of a dead letter. -/
def reasonOf (fields : Fields) : Except PyExc String :=
  (decodeField fields "reason").map fun r => r.getD "unknown"

/-- One entry of `read_dlq`; a job that is not JSON is listed as its text. -/
def listDlqEntry (entryId : Nat) (fields : Fields) : Except PyExc DlqEntry := do
  let raw ← decodeField fields "job"
  let reason ← reasonOf fields
  match loadsRaw raw with
  | .ok job => .ok ⟨entryId, job, reason⟩
  | .error (.jsonDecodeError _) => .ok ⟨entryId, .str (raw.getD ""), reason⟩
  | .error e => .error e

/-- Read dead-letter queue entries, newest first. -/
def readDlq (queue : String) (count : Nat) : Py (List DlqEntry) :=
  -- as in `read_group`, the client refuses a count below one
  if count = 0 then
    .raise (.other "DataError" (some "XREVRANGE count must be a positive integer"))
  else
    (perform (.redis (.xrevrange (t.dlqKey queue) count))).bind fun entries =>
      .ofExcept (t.replies entries >>= fun es => es.mapM fun e => listDlqEntry e.1 e.2)

/-- Look at one entry for a job: what it holds of that job, `none` when it is to be passed over. -/
def scanDlqEntry (jobId : String) (entryId : Nat) (fields : Fields) :
    Except PyExc (Option DlqEntry) := do
  let raw ← decodeField fields "job"
  match loadsRaw raw with
  | .error (.jsonDecodeError _) => .ok none
  | .error e => .error e
  | .ok job =>
    match job.items? with
    | none => .error (.other "AttributeError" (some "object has no attribute 'get'"))
    | some kvs =>
      if (kvs.lookup "id").bind JVal.str? = some jobId then
        (reasonOf fields).map fun reason => some ⟨entryId, job, reason⟩
      else .ok none

/-- The first entry that holds the job. -/
def scanDlq (jobId : String) : List (Nat × Fields) → Except PyExc (Option DlqEntry)
  | [] => .ok none
  | e :: es =>
    match scanDlqEntry jobId e.1 e.2 with
    | .error exc => .error exc
    | .ok (some found) => .ok (some found)
    | .ok none => scanDlq jobId es

/-- Find a specific job in the dead-letter queue by job id. -/
def readDlqEntry (queue jobId : String) : Py (Option DlqEntry) :=
  (perform (.redis (.xrevrange (t.dlqKey queue) 200))).bind fun entries =>
    .ofExcept (t.replies entries >>= scanDlq jobId)

omit [Codec] in
/-- Delete a single dead-letter entry (used after replay). -/
def deleteDlqEntry (queue : String) (entryId : Nat) : Py Unit :=
  (perform (.redis (.xdel (t.dlqKey queue) entryId))).bind fun _ => .ret ()

/-! ## What awaiting them comes to -/

section Await

variable {t : RedisStreamTransport} {queue : String} {w w' : World} {site : Nat} {a : Actor}
  {ans : Answer}

omit [Codec] in
/-- `ensure_group` succeeds only if the group was created or exists. -/
theorem await_ensureGroup {out : Except PyExc Unit}
    (h : relay.await w site a (t.ensureGroup queue) ans = some (w', out)) :
    ∃ r, w.exec site a (.redis (.xgroupCreate (t.streamKey queue) (t.groupKey queue) 0)) ans =
      some (w', r) ∧ (out = .ok () → r = .ok () ∨ ∃ msg, r = .error (.responseError msg)) := by
  rcases Machine.await_eq_some.mp h with ⟨ho, -⟩ | ⟨o, k, r, hp, hx, ho⟩
  · cases ho
  · cases hp
    refine ⟨r, hx, fun hout => ?_⟩
    subst hout
    cases r with
    | ok u => exact .inl rfl
    | error e =>
      cases e <;> simp [Prog.ofExcept, Prog.tryExcept, Prog.outcome] at ho
      exact .inr ⟨_, rfl⟩

omit [Codec] in
/-- `ensure_group` can succeed at any time. -/
theorem exists_await_ensureGroup (t : RedisStreamTransport) (queue : String) (w : World)
    (site : Nat) (a : Actor) :
    ∃ w', relay.await w site a (t.ensureGroup queue) (.ok 0) = some (w', .ok ()) := by
  -- the group is created, or it exists
  obtain ⟨w', r, hx, hr⟩ : ∃ (w' : World) (r : Except PyExc Unit),
      w.exec site a (.redis (.xgroupCreate (t.streamKey queue) (t.groupKey queue) 0)) (.ok 0) =
        some (w', r) ∧ (r = .ok () ∨ r = .error (.ofCmdError .busyGroup)) := by
    refine ⟨_, _, World.exec_ok site a rfl rfl, ?_⟩
    cases hg : (w.redis (t.streamKey queue)).groups (t.groupKey queue) with
    | none => exact .inl (by simp [World.sendCmd, Redis.Keyspace.apply, hg, Except.mapError])
    | some grp => exact .inr (by simp [World.sendCmd, Redis.Keyspace.apply, hg, Except.mapError])
  refine ⟨w', ?_⟩
  simp only [ensureGroup, perform, Prog.perform, Prog.tryExcept, Machine.await, hx,
    Option.bind_some]
  rcases hr with rfl | rfl <;> rfl

/-- `read_group` sends its command and decodes the reply, unless the client refuses the count. -/
theorem await_readGroup {workerId : String} {count blockMs : Nat} {now : DateTime}
    {out : Except PyExc (List Delivery)}
    (h : relay.await w site a (t.readGroup queue workerId count blockMs now) ans =
      some (w', out)) :
    (count = 0 ∧ (∃ e, out = .error e ∧ e.isException = true) ∧ w' = w) ∨
    (0 < count ∧ ∃ r, w.exec site a (.redis (.xreadgroup (t.groupKey queue)
        (consumerName workerId) (t.streamKey queue) count blockMs)) ans = some (w', r) ∧
      ∀ ds, out = .ok ds → ∃ results, r = .ok results ∧ t.decodeReply now results = .ok ds) := by
  unfold readGroup at h
  split at h
  · rename_i hc
    rcases Machine.await_eq_some.mp h with ⟨ho, rfl⟩ | ⟨o, k, r, hp, -, -⟩
    · exact .inl ⟨hc, ⟨_, (Option.some.inj ho).symm, rfl⟩, rfl⟩
    · cases hp
  · rename_i hc
    rcases Machine.await_eq_some.mp h with ⟨ho, -⟩ | ⟨o, k, r, hp, hx, ho⟩
    · cases ho
    · cases hp
      refine .inr ⟨Nat.pos_of_ne_zero hc, r, hx, fun ds hds => ?_⟩
      subst hds
      cases r with
      | error e => simp [Prog.ofExcept, Prog.outcome] at ho
      | ok results =>
        refine ⟨results, rfl, ?_⟩
        cases hd : t.decodeReply now results with
        | error e => simp [Prog.ofExcept, Prog.outcome, hd] at ho
        | ok ds' => simpa [Prog.ofExcept, Prog.outcome, hd] using ho

end Await

/-! ## Round trip -/

/-- The body of a job decodes to that job, whether the client answers in bytes or in text. -/
@[simp] theorem decodeEntry_jobBody (now : DateTime) (j : Job) :
    t.decodeEntry now (jobBody j) = .job (.ofJob j) := by
  cases hd : t.decodeResponses with
  | false =>
    simp [decodeEntry, reply, hd, jobBody, Fields.get, Raw.decode, bind, Except.bind]
  | true =>
    have hne : (Raw.bytes (utf8 "job") == Raw.text "job") = false := by decide
    simp [decodeEntry, reply, hd, jobBody, Fields.get, Raw.decode, hne, bind,
      Except.bind, pure, Except.pure]

/-- A job is determined by the body it is written as. -/
theorem jobBody_injective : Function.Injective jobBody := by
  intro j j' h
  have hdec := RedisStreamTransport.decodeEntry_jobBody ⟨"", false⟩ j.createdAt j
  rw [h, RedisStreamTransport.decodeEntry_jobBody] at hdec
  have hraw : RawJob.ofJob j' = RawJob.ofJob j := Decoded.job.inj hdec
  have htyped := RawJob.typed?_ofJob j
  rw [← hraw, RawJob.typed?_ofJob] at htyped
  exact (Option.some.inj htyped).symm

/-! ## Fields -/

/-- The value of a field as the server stores it; of two fields with one name the later one counts. -/
def storedField (body : Body) (name : String) : Option Bytes := body.reverse.lookup (utf8 name)

/-- The client makes this of a stored field. -/
def HandsOut (kv : Bytes × Bytes) (f : Raw × Raw) : Prop :=
  if t.decodeResponses then ∃ k v, kv = (utf8 k, utf8 v) ∧ f = (.text k, .text v)
  else f = (.bytes kv.1, .bytes kv.2)

omit [Codec] t in
/-- Bytes decode to the text they are the bytes of. -/
theorem decode_bytes_eq_ok {b : Bytes} {s : String} : (Raw.bytes b).decode = .ok s ↔ b = utf8 s := by
  rw [← utf8?_eq_some, Raw.decode]
  cases utf8? b <;> simp

omit [Codec] in
/-- An entry is handed out field by field. -/
theorem reply_eq_ok {body : Body} {fields : Fields} :
    t.reply body = .ok fields ↔ List.Forall₂ t.HandsOut body fields := by
  cases hd : t.decodeResponses with
  | false =>
    -- without `decode_responses` every field is handed out as its bytes
    have hout : t.HandsOut = fun kv f => (Raw.bytes kv.1, Raw.bytes kv.2) = f := by
      funext kv f
      simp [HandsOut, hd, eq_comm]
    rw [hout, reply, if_neg (by simp [hd]), Except.ok.injEq, ← List.forall₂_map_left_iff,
      List.forall₂_eq_eq_eq]
  | true =>
    rw [reply, if_pos hd]
    -- with it each key and value is decoded, and the first that fails fails the entry
    induction body generalizing fields with
    | nil => simp [pure, Except.pure, eq_comm]
    | cons kv body ih =>
      obtain ⟨k, v⟩ := kv
      rw [List.mapM_cons, List.forall₂_cons_left_iff]
      constructor
      · intro h
        cases hk : (Raw.bytes k).decode with
        | error e => simp [hk, bind, Except.bind] at h
        | ok ks =>
          cases hv : (Raw.bytes v).decode with
          | error e => simp [hk, hv, bind, Except.bind] at h
          | ok vs =>
            simp only [hk, hv, bind, Except.bind] at h
            split at h
            · cases h
            · rename_i fs hfs
              refine ⟨_, fs, ?_, ih.mp hfs, (Except.ok.inj h).symm⟩
              rw [decode_bytes_eq_ok] at hk hv
              rw [HandsOut, if_pos hd]
              exact ⟨ks, vs, by rw [hk, hv], rfl⟩
      · rintro ⟨f, fs, hf, hfs, rfl⟩
        rw [HandsOut, if_pos hd] at hf
        obtain ⟨ks, vs, hkv, rfl⟩ := hf
        rw [Prod.mk.injEq, ← decode_bytes_eq_ok, ← decode_bytes_eq_ok] at hkv
        simp only [hkv.1, hkv.2, bind, Except.bind]
        have hrest := ih.mpr hfs
        simp only [bind, Except.bind] at hrest
        rw [hrest]
        rfl

/-- The client can hand out an entry with these fields: if it decodes, they all decode. -/
def Readable (body : Body) : Prop :=
  t.decodeResponses = true → ∀ kv ∈ body, (utf8? kv.1).isSome ∧ (utf8? kv.2).isSome

omit [Codec] in
/-- An entry is handed out exactly if it is readable. -/
theorem exists_reply_iff {body : Body} : (∃ fields, t.reply body = .ok fields) ↔ t.Readable body := by
  simp only [reply_eq_ok]
  constructor
  · rintro ⟨fields, h⟩ hd
    induction h with
    | nil => simp
    | cons hkv _ ih =>
      rw [HandsOut, if_pos hd] at hkv
      obtain ⟨k, v, rfl, -⟩ := hkv
      simpa using ih
  · intro h
    induction body with
    | nil => exact ⟨[], .nil⟩
    | cons kv body ih =>
      obtain ⟨fields, hfields⟩ := ih fun hd kv' hkv' => h hd kv' (List.mem_cons_of_mem _ hkv')
      cases hd : t.decodeResponses with
      | false => exact ⟨_, .cons (by rw [HandsOut, if_neg (by simp [hd])]) hfields⟩
      | true =>
        obtain ⟨hk, hv⟩ := h hd kv List.mem_cons_self
        obtain ⟨k, hk⟩ := Option.isSome_iff_exists.mp hk
        obtain ⟨v, hv⟩ := Option.isSome_iff_exists.mp hv
        rw [utf8?_eq_some] at hk hv
        refine ⟨(.text k, .text v) :: fields, .cons ?_ hfields⟩
        rw [HandsOut, if_pos hd]
        exact ⟨k, v, Prod.ext hk hv, rfl⟩

omit [Codec] in
/-- Looking up a name in fields handed out as bytes. -/
theorem lookup_handsOut_bytes (hd : t.decodeResponses = false) {l : Body} {fs : Fields}
    (h : List.Forall₂ t.HandsOut l fs) (name : String) :
    fs.lookup (.bytes (utf8 name)) = (l.lookup (utf8 name)).map .bytes ∧
      fs.lookup (.text name) = none := by
  induction h with
  | nil => exact ⟨rfl, rfl⟩
  | cons hkv _ ih =>
    rw [HandsOut, if_neg (by simp [hd])] at hkv
    subst hkv
    rename_i kv _ _ _
    obtain ⟨k, v⟩ := kv
    have ht : (Raw.text name == Raw.bytes k) = false := by simp
    have hb : (Raw.bytes (utf8 name) == Raw.bytes k) = (utf8 name == k) := by
      rw [Bool.eq_iff_iff, beq_iff_eq, beq_iff_eq, Raw.bytes.injEq]
    simp only [List.lookup_cons, ht, hb]
    cases utf8 name == k with
    | true => exact ⟨rfl, ih.2⟩
    | false => exact ih

omit [Codec] in
/-- Looking up a name in fields handed out as text. -/
theorem lookup_handsOut_text (hd : t.decodeResponses = true) {l : Body} {fs : Fields}
    (h : List.Forall₂ t.HandsOut l fs) (name : String) :
    fs.lookup (.bytes (utf8 name)) = none ∧
      (l.lookup (utf8 name) = none ∧ fs.lookup (.text name) = none ∨
        ∃ s, l.lookup (utf8 name) = some (utf8 s) ∧ fs.lookup (.text name) = some (.text s)) := by
  induction h with
  | nil => exact ⟨rfl, .inl ⟨rfl, rfl⟩⟩
  | cons hkv _ ih =>
    rw [HandsOut, if_pos hd] at hkv
    obtain ⟨k, v, rfl, rfl⟩ := hkv
    by_cases hk : name = k
    · subst hk
      have hbt : (Raw.bytes (utf8 name) == Raw.text name) = false := by simp
      simp only [List.lookup_cons, hbt, beq_self_eq_true]
      exact ⟨ih.1, .inr ⟨v, rfl, rfl⟩⟩
    · have hb : (utf8 name == utf8 k) = false := by
        rw [beq_eq_false_iff_ne]
        intro heq
        have hinj := congrArg utf8? heq
        rw [utf8?_utf8, utf8?_utf8] at hinj
        exact hk (Option.some.inj hinj)
      have ht : (Raw.text name == Raw.text k) = false := by simpa using hk
      have hbt : (Raw.bytes (utf8 name) == Raw.text k) = false := by simp
      simpa only [List.lookup_cons, hb, ht, hbt] using ih

omit [Codec] in
/-- **A field that is handed out is the stored one**, in bytes or in text. -/
theorem decodeField_reply {body : Body} {fields : Fields} (h : t.reply body = .ok fields)
    (name : String) : decodeField fields name =
      match storedField body name with
      | none => .ok none
      | some b => (Raw.bytes b).decode.map some := by
  rw [reply_eq_ok, ← List.forall₂_reverse_iff] at h
  unfold decodeField Fields.get storedField
  cases hd : t.decodeResponses with
  | false =>
    obtain ⟨hbytes, htext⟩ := t.lookup_handsOut_bytes hd h name
    rw [hbytes, htext]
    cases body.reverse.lookup (utf8 name) <;> rfl
  | true =>
    obtain ⟨hbytes, ⟨hl, hf⟩ | ⟨s, hl, hf⟩⟩ := t.lookup_handsOut_text hd h name
    · rw [hbytes, hl, hf]
      rfl
    · have hdec : (Raw.bytes (utf8 s)).decode = .ok s := decode_bytes_eq_ok.mpr rfl
      rw [hbytes, hl, hf]
      simp only [Option.none_or, hdec]
      rfl

/-- Dead letters are readable. -/
theorem readable_dlqBody (job : Job) (why : String) : t.Readable (dlqBody job why) := by
  intro _ kv hkv
  simp only [dlqBody, List.mem_cons, List.not_mem_nil, or_false] at hkv
  rcases hkv with rfl | rfl | rfl <;> simp

/-- A dead letter as the client hands it out, in bytes or in text. -/
theorem reply_dlqBody (job : Job) (why : String) : ∃ fields, t.reply (dlqBody job why) = .ok fields ∧
    decodeField fields "job" = .ok (some (Codec.dumps job.toDict)) ∧
    decodeField fields "reason" = .ok (some why) := by
  obtain ⟨fields, hfields⟩ := t.exists_reply_iff.mpr (t.readable_dlqBody job why)
  have hjob : storedField (dlqBody job why) "job" = some (utf8 (Codec.dumps job.toDict)) := by
    have h1 : (utf8 "job" == utf8 "dlqed_at") = false := by decide
    have h2 : (utf8 "job" == utf8 "reason") = false := by decide
    simp [storedField, dlqBody, List.lookup_cons, h1, h2]
  have hwhy : storedField (dlqBody job why) "reason" = some (utf8 why) := by
    have h1 : (utf8 "reason" == utf8 "dlqed_at") = false := by decide
    simp [storedField, dlqBody, List.lookup_cons, h1]
  have hdec : ∀ s, (Raw.bytes (utf8 s)).decode = .ok s := fun s => decode_bytes_eq_ok.mpr rfl
  refine ⟨fields, hfields, ?_, ?_⟩
  · rw [t.decodeField_reply hfields, hjob]
    simp only [hdec]
    rfl
  · rw [t.decodeField_reply hfields, hwhy]
    simp only [hdec]
    rfl

omit t in
/-- A dead letter is found under the id of its job, and passed over under any other id. -/
theorem scanDlqEntry_of_toDict {jobId : String} {n : Nat} {job : Job} {why : String} {fields : Fields}
    (hjob : decodeField fields "job" = .ok (some (Codec.dumps job.toDict)))
    (hwhy : decodeField fields "reason" = .ok (some why)) : scanDlqEntry jobId n fields =
      .ok (if job.id = jobId then some ⟨n, job.toDict, why⟩ else none) := by
  have hloads : loadsRaw (some (Codec.dumps job.toDict)) = .ok job.toDict :=
    Codec.loads_dumps _ job.wf_toDict
  simp only [scanDlqEntry, hjob, bind, Except.bind, hloads, reasonOf, hwhy, Except.map]
  by_cases hid : job.id = jobId
  · simp [Job.toDict, JVal.items?, JVal.str?, hid]
  · simp [Job.toDict, JVal.items?, JVal.str?, hid]

/-- A job is determined by the dead letter it is written as. -/
theorem dlqBody_inj {j j' : Job} {why why' : String} (h : dlqBody j why = dlqBody j' why') :
    j = j' := by
  refine jobBody_injective ?_
  simp only [dlqBody, List.cons.injEq] at h
  simp only [jobBody, h.1]

/-- The entry is a dead letter of some job. -/
def IsDeadLetter (e : Redis.Entry Body) : Prop := ∃ job why, e.fields = dlqBody job why

/-- **A scan of dead letters** finds the first one of the job it looks for, if there is one. -/
theorem scanDlq_deadLetters (jobId : String) {es : List (Redis.Entry Body)}
    (hes : ∀ e ∈ es, IsDeadLetter e) :
    ∃ fs, t.replies es = .ok fs ∧
      (scanDlq jobId fs = .ok none ∧
          (∀ e ∈ es, ∀ job why, e.fields = dlqBody job why → job.id ≠ jobId) ∨
        ∃ e ∈ es, ∃ job why, e.fields = dlqBody job why ∧ job.id = jobId ∧
          scanDlq jobId fs = .ok (some ⟨e.id, job.toDict, why⟩)) := by
  induction es with
  | nil => exact ⟨[], rfl, .inl ⟨rfl, by simp⟩⟩
  | cons e es ih =>
    obtain ⟨fs, hfs, hscan⟩ := ih fun e' he' => hes e' (List.mem_cons_of_mem _ he')
    obtain ⟨job, why, hbody⟩ := hes e (List.mem_cons_self ..)
    obtain ⟨fields, hreply, hjob, hwhy⟩ := t.reply_dlqBody job why
    have hhead : scanDlqEntry jobId e.id fields = _ := scanDlqEntry_of_toDict hjob hwhy
    refine ⟨(e.id, fields) :: fs, ?_, ?_⟩
    · exact replies_cons_eq_ok.mpr ⟨fields, fs, by rw [hbody, hreply], hfs, rfl⟩
    · by_cases hid : job.id = jobId
      · right
        refine ⟨e, List.mem_cons_self .., job, why, hbody, hid, ?_⟩
        rw [if_pos hid] at hhead
        simp only [scanDlq, hhead]
      · rw [if_neg hid] at hhead
        have hrest : scanDlq jobId ((e.id, fields) :: fs) = scanDlq jobId fs := by
          simp only [scanDlq, hhead]
        rw [hrest]
        rcases hscan with ⟨hnone, hall⟩ | ⟨e', he', hfound⟩
        · refine .inl ⟨hnone, fun e' he' job' why' hbody' => ?_⟩
          rcases List.mem_cons.mp he' with rfl | he'
          · exact dlqBody_inj (hbody.symm.trans hbody') ▸ hid
          · exact hall e' he' job' why' hbody'
        · exact .inr ⟨e', List.mem_cons_of_mem _ he', hfound⟩

/-- A batch decodes to deliveries of its own entries, each with the job of its entry. -/
theorem mem_decodeBatch {now : DateTime} {stream : String} {es : List (Redis.Entry Body)}
    {ds : List Delivery} (h : t.decodeBatch now stream es = .ok ds) {d : Delivery} (hd : d ∈ ds) :
    d.stream = stream ∧
      ∃ e ∈ es, e.id = d.entryId ∧ t.decodeEntry now e.fields = .job d.job := by
  induction es generalizing ds with
  | nil =>
    obtain rfl := Except.ok.inj h
    cases hd
  | cons e es ih =>
    rw [decodeBatch] at h
    cases he : t.decodeEntry now e.fields with
    | job j =>
      simp only [he] at h
      cases hes : t.decodeBatch now stream es with
      | error exc => simp [hes, Except.map] at h
      | ok ds' =>
        simp only [hes, Except.map, Except.ok.injEq] at h
        subst h
        rcases List.mem_cons.mp hd with rfl | hd
        · exact ⟨rfl, e, by simp, rfl, he⟩
        · obtain ⟨hs, e', he', hrest⟩ := ih hes hd
          exact ⟨hs, e', by simp [he'], hrest⟩
    | skipped =>
      simp only [he] at h
      obtain ⟨hs, e', he', hrest⟩ := ih h hd
      exact ⟨hs, e', by simp [he'], hrest⟩
    | raised exc => simp [he] at h

/-- The deliveries read from a reply are entries of the reply. -/
theorem mem_decodeReply {now : DateTime} {results : List (String × List (Redis.Entry Body))}
    {ds : List Delivery} (h : t.decodeReply now results = .ok ds) {d : Delivery} (hd : d ∈ ds) :
    ∃ p ∈ results, ∃ e ∈ p.2, e.id = d.entryId ∧ t.decodeEntry now e.fields = .job d.job := by
  simp only [decodeReply] at h
  induction results generalizing ds with
  | nil =>
    obtain rfl := Except.ok.inj h
    cases hd
  | cons p ps ih =>
    rw [List.mapM_cons] at h
    cases hp : t.decodeBatch now p.1 p.2 with
    | error e => simp [hp, bind, Except.bind, Except.map] at h
    | ok ds₁ =>
      cases hps : ps.mapM fun p => t.decodeBatch now p.1 p.2 with
      | error e => simp [hp, hps, bind, Except.bind, Except.map] at h
      | ok dss =>
        simp only [hp, hps, bind, Except.bind, pure, Except.pure, Except.map, Except.ok.injEq,
          List.flatten_cons] at h
        subst h
        rcases List.mem_append.mp hd with hd | hd
        · obtain ⟨-, e, he, hrest⟩ := t.mem_decodeBatch hp hd
          exact ⟨p, by simp, e, he, hrest⟩
        · obtain ⟨p', hp', hrest⟩ := ih (by rw [hps]; rfl) hd
          exact ⟨p', by simp [hp'], hrest⟩

/-! ## Keys of transports with one prefix -/

omit [Codec] in
/-- The prefix is all that matters to the key of a stream. -/
theorem streamKey_congr {t t' : RedisStreamTransport} (h : t.streamPrefix = t'.streamPrefix)
    (queue : String) : t.streamKey queue = t'.streamKey queue := by
  simp [streamKey, h]

omit [Codec] in
/-- The prefix is all that matters to the name of a group. -/
theorem groupKey_congr {t t' : RedisStreamTransport} (h : t.streamPrefix = t'.streamPrefix)
    (queue : String) : t.groupKey queue = t'.groupKey queue := by
  simp [groupKey, h]

omit [Codec] in
/-- The prefix is all that matters to the key of a dead-letter stream. -/
theorem dlqKey_congr {t t' : RedisStreamTransport} (h : t.streamPrefix = t'.streamPrefix)
    (queue : String) : t.dlqKey queue = t'.dlqKey queue := by
  simp [dlqKey, h]

end RedisStreamTransport

/-- A transport with the default prefix for a client that answers in bytes, for sample runs. -/
def Sample.transport : RedisStreamTransport := ⟨"relayq", false⟩

end RelayQ

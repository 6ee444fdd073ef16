import RelayQ.Infrastructure.StreamRuns

/-! # Looking up a dead letter

A lookup is to find the newest dead letter of a job, whatever else the dead-letter stream holds. It
reads the newest 200 entries and stops at the first one that it cannot take for an object: one without
a job field, with a job that is JSON but no object, or with bytes that are not UTF-8.

* `HoldsJob`: the entry decodes to an object with the job's id.
* `LookupComplete`: what a lookup is to return.
* `Searchable`: the contents it can search.
* `lookupComplete_iff`: it is complete exactly for these. -/

namespace RelayQ

namespace RedisStreamTransport

section

variable [Codec]

/-! ## What the entries hold -/

omit [Codec] in
/-- The text of an entry's job field. -/
def jobText? (body : Body) : Option String :=
  (storedField body "job").bind utf8?

/-- The object an entry's job field decodes to. -/
def jobObject? (body : Body) : Option (List (String × JVal)) :=
  (jobText? body).bind fun text =>
    match Codec.loads text with
    | .ok job => job.items?
    | .error _ => none

/-- The entry decodes to an object with this id. -/
def HoldsJob (jobId : String) (e : Redis.Entry Body) : Bool :=
  decide ((((jobObject? e.fields).bind fun kvs => kvs.lookup "id").bind JVal.str?) = some jobId)

omit [Codec] in
/-- The reason of an entry, if it is a text. -/
def reason? (body : Body) : Option String :=
  match storedField body "reason" with
  | none => some "unknown"
  | some b => utf8? b

/-- What a lookup is to return, of the entries from the newest on: nothing when none of them is of
the job, else the newest one that is, with its own id, job and reason. -/
def LookupComplete (jobId : String) (newestFirst : List (Redis.Entry Body))
    (out : Except PyExc (Option DlqEntry)) : Prop :=
  match newestFirst.find? (HoldsJob jobId) with
  | none => out = .ok none
  | some e => ∃ kvs why, jobObject? e.fields = some kvs ∧ reason? e.fields = some why ∧
      out = .ok (some ⟨e.id, .obj kvs, why⟩)

/-- The job field is there, in UTF-8, and no JSON text or an object. -/
def PassedOver (body : Body) : Prop :=
  ∃ text, jobText? body = some text ∧
    match Codec.loads text with
    | .ok job => ∃ kvs, job.items? = some kvs
    | .error e => ∃ msg, e = .jsonDecodeError msg

/-- The contents that a lookup can search, from the newest entry on: the client can read the newest
200, among them is the newest entry of the job, if there is any, and has a reason in UTF-8, and none
of the entries before it stops the search. -/
structure Searchable (t : RedisStreamTransport) (jobId : String)
    (newestFirst : List (Redis.Entry Body)) : Prop where
  readable : ∀ e ∈ newestFirst.take 200, t.Readable e.fields
  newer : ∀ e ∈ (newestFirst.take 200).takeWhile (fun e => !HoldsJob jobId e), PassedOver e.fields
  found : ∀ e, newestFirst.find? (HoldsJob jobId) = some e →
    (newestFirst.take 200).find? (HoldsJob jobId) = some e ∧ (reason? e.fields).isSome

variable {t : RedisStreamTransport} {jobId : String} {e : Redis.Entry Body}
  {es : List (Redis.Entry Body)} {fields : Fields}

/-! ## Looking at one entry -/

/-- Without a text for a job the search stops. -/
theorem scanDlqEntry_of_no_text (h : t.reply e.fields = .ok fields)
    (htext : jobText? e.fields = none) :
    ∃ exc, scanDlqEntry jobId e.id fields = .error exc := by
  have hfield := t.decodeField_reply h "job"
  rw [jobText?] at htext
  cases hb : storedField e.fields "job" with
  | none =>
    rw [hb] at hfield
    -- `json.loads(None)`
    simp only [scanDlqEntry, hfield, bind, Except.bind, loadsRaw]
    exact ⟨_, rfl⟩
  | some b =>
    rw [hb, Option.bind_some] at htext
    rw [hb] at hfield
    simp only [Raw.decode, htext, Except.map] at hfield
    simp only [scanDlqEntry, hfield, bind, Except.bind]
    exact ⟨_, rfl⟩

omit [Codec] in
/-- A text for a job is read. -/
theorem decodeField_of_text {text : String} (h : t.reply e.fields = .ok fields)
    (htext : jobText? e.fields = some text) :
    decodeField fields "job" = .ok (some text) := by
  rw [jobText?, Option.bind_eq_some_iff] at htext
  obtain ⟨b, hb, hbt⟩ := htext
  rw [t.decodeField_reply h, hb]
  simp only [Raw.decode, hbt]
  rfl

omit [Codec] in
/-- A reason that is a text is read, and no other. -/
theorem reasonOf_reply (h : t.reply e.fields = .ok fields) :
    match reason? e.fields with
    | some why => reasonOf fields = .ok why
    | none => ∃ exc, reasonOf fields = .error exc := by
  have hfield := t.decodeField_reply h "reason"
  unfold reason? reasonOf
  rw [hfield]
  cases hb : storedField e.fields "reason" with
  | none => rfl
  | some b =>
    dsimp only
    cases hbt : utf8? b with
    | none =>
      simp only [Raw.decode, hbt]
      exact ⟨_, rfl⟩
    | some why =>
      simp only [Raw.decode, hbt]
      rfl

/-- An entry of the job is found, if its reason decodes. -/
theorem scanDlqEntry_of_holdsJob (h : t.reply e.fields = .ok fields) (hid : HoldsJob jobId e = true) :
    ∃ kvs, jobObject? e.fields = some kvs ∧
      match reason? e.fields with
      | some why => scanDlqEntry jobId e.id fields =
          .ok (some ⟨e.id, .obj kvs, why⟩)
      | none => ∃ exc, scanDlqEntry jobId e.id fields = .error exc := by
  have hid' := of_decide_eq_true hid
  cases hobj : jobObject? e.fields with
  | none => simp [hobj] at hid'
  | some kvs =>
    rw [hobj, Option.bind_some] at hid'
    obtain ⟨text, htext, hloads⟩ := Option.bind_eq_some_iff.mp hobj
    refine ⟨kvs, rfl, ?_⟩
    split at hloads
    · rename_i job hjob
      obtain rfl : job = .obj kvs := by
        cases job <;> simp [JVal.items?] at hloads
        rw [hloads]
      have hscan : scanDlqEntry jobId e.id fields =
          (reasonOf fields).map fun why => some ⟨e.id, .obj kvs, why⟩ := by
        simp only [scanDlqEntry, decodeField_of_text h htext, bind, Except.bind, loadsRaw, hjob,
          JVal.items?]
        rw [if_pos hid']
      have hreason := reasonOf_reply h
      rw [hscan]
      cases hwhy : reason? e.fields with
      | none =>
        rw [hwhy] at hreason
        obtain ⟨exc, hexc⟩ := hreason
        exact ⟨exc, by rw [hexc]; rfl⟩
      | some why =>
        rw [hwhy] at hreason
        rw [hreason]
        rfl
    · cases hloads

/-- Another entry is passed over, or stops the search. -/
theorem scanDlqEntry_of_not_holdsJob (h : t.reply e.fields = .ok fields)
    (hid : HoldsJob jobId e = false) :
    PassedOver e.fields ∧ scanDlqEntry jobId e.id fields = .ok none ∨
      ¬ PassedOver e.fields ∧
        ∃ exc, scanDlqEntry jobId e.id fields = .error exc := by
  cases htext : jobText? e.fields with
  | none => exact .inr ⟨fun ⟨_, h', _⟩ => by simp [htext] at h', scanDlqEntry_of_no_text h htext⟩
  | some text =>
    have hpassed : PassedOver e.fields ↔ (match Codec.loads text with
        | .ok job => ∃ kvs, job.items? = some kvs
        | .error e => ∃ msg, e = .jsonDecodeError msg) := by
      simp only [PassedOver, htext, Option.some.injEq, exists_eq_left']
    have hfield := decodeField_of_text h htext
    rw [hpassed]
    cases hjob : Codec.loads text with
    | error exc =>
      cases exc with
      | jsonDecodeError msg =>
        refine .inl ⟨⟨msg, rfl⟩, ?_⟩
        simp only [scanDlqEntry, hfield, bind, Except.bind, loadsRaw, hjob]
      | _ =>
        -- only `JSONDecodeError` is caught
        refine .inr ⟨by simp, ?_⟩
        simp only [scanDlqEntry, hfield, bind, Except.bind, loadsRaw, hjob]
        exact ⟨_, rfl⟩
    | ok job =>
      cases hitems : job.items? with
      | none =>
        -- what is no object has no `get`
        refine .inr ⟨by simp [hitems], ?_⟩
        simp only [scanDlqEntry, hfield, bind, Except.bind, loadsRaw, hjob, hitems]
        exact ⟨_, rfl⟩
      | some kvs =>
        have hobj : jobObject? e.fields = some kvs := by
          simp only [jobObject?, htext, Option.bind_some, hjob, hitems]
        have hid' := of_decide_eq_false hid
        rw [hobj, Option.bind_some] at hid'
        refine .inl ⟨⟨kvs, hitems⟩, ?_⟩
        simp only [scanDlqEntry, hfield, bind, Except.bind, loadsRaw, hjob, hitems]
        rw [if_neg hid']

/-! ## The search -/

/-- A lookup that raises is not complete. -/
theorem not_lookupComplete_error {exc : PyExc} : ¬ LookupComplete jobId es (.error exc) := by
  intro h
  unfold LookupComplete at h
  split at h
  · cases h
  · obtain ⟨kvs, why, -, -, hout⟩ := h
    cases hout

/-- A search of entries that the client read is complete exactly if nothing before the entry it looks
for stops it, and that entry has a reason. -/
theorem lookupComplete_scanDlq {fs : List (Nat × Fields)} (h : t.replies es = .ok fs) :
    LookupComplete jobId es (scanDlq jobId fs) ↔
      (∀ e ∈ es.takeWhile (fun e => !HoldsJob jobId e), PassedOver e.fields) ∧
        ∀ e, es.find? (HoldsJob jobId) = some e → (reason? e.fields).isSome := by
  induction es generalizing fs with
  | nil =>
    obtain rfl := Except.ok.inj h
    simp [LookupComplete, scanDlq]
  | cons e es ih =>
    obtain ⟨fields, fs', hfields, hfs', rfl⟩ := replies_cons_eq_ok.mp h
    cases hid : HoldsJob jobId e with
    | true =>
      -- the search ends here, and is complete if the reason decodes
      obtain ⟨kvs, hobj, hscan⟩ := scanDlqEntry_of_holdsJob hfields hid
      rw [LookupComplete, List.find?_cons_of_pos hid, List.takeWhile_cons_of_neg (by simp [hid])]
      cases hwhy : reason? e.fields with
      | none =>
        rw [hwhy] at hscan
        obtain ⟨exc, hexc⟩ := hscan
        simp [hwhy]
      | some why =>
        rw [hwhy] at hscan
        simp [scanDlq, hscan, hobj, hwhy]
    | false =>
      rw [LookupComplete, List.find?_cons_of_neg (by simp [hid]),
        List.takeWhile_cons_of_pos (by simp [hid])]
      rcases scanDlqEntry_of_not_holdsJob hfields hid with ⟨hpass, hscan⟩ | ⟨hpass, exc, hscan⟩
      · have hrest : scanDlq jobId ((e.id, fields) :: fs') = scanDlq jobId fs' := by
          simp only [scanDlq, hscan]
        rw [hrest, ← LookupComplete, ih hfs', List.forall_mem_cons]
        simp only [hpass, true_and]
      · have hstop : scanDlq jobId ((e.id, fields) :: fs') = .error exc := by
          simp only [scanDlq, hscan]
        rw [hstop, ← LookupComplete]
        exact ⟨fun hc => absurd hc not_lookupComplete_error,
          fun hc => absurd (hc.1 e List.mem_cons_self) hpass⟩

omit [Codec] in
/-- The client reads a list of entries exactly if it can read each. -/
theorem exists_replies_iff : (∃ fs, t.replies es = .ok fs) ↔ ∀ e ∈ es, t.Readable e.fields := by
  induction es with
  | nil => simpa using ⟨[], rfl⟩
  | cons e es ih =>
    rw [List.forall_mem_cons, ← ih, ← exists_reply_iff]
    constructor
    · rintro ⟨fs, h⟩
      obtain ⟨fields, fs', hfields, hfs', -⟩ := replies_cons_eq_ok.mp h
      exact ⟨⟨fields, hfields⟩, fs', hfs'⟩
    · rintro ⟨⟨fields, hfields⟩, fs', hfs'⟩
      exact ⟨_, replies_cons_eq_ok.mpr ⟨fields, fs', hfields, hfs', rfl⟩⟩

/-- Where no entry is of the job a search finds nothing. -/
theorem scanDlq_ne_some {fs : List (Nat × Fields)} (h : t.replies es = .ok fs)
    (hnone : es.find? (HoldsJob jobId) = none) (found : DlqEntry) :
    scanDlq jobId fs ≠ .ok (some found) := by
  induction es generalizing fs with
  | nil =>
    obtain rfl := Except.ok.inj h
    simp [scanDlq]
  | cons e es ih =>
    obtain ⟨fields, fs', hfields, hfs', rfl⟩ := replies_cons_eq_ok.mp h
    have hid : HoldsJob jobId e = false := by
      simpa using List.find?_eq_none.mp hnone e List.mem_cons_self
    rw [List.find?_cons_of_neg (by simp [hid])] at hnone
    rcases scanDlqEntry_of_not_holdsJob hfields hid with ⟨-, hscan⟩ | ⟨-, exc, hscan⟩
    · simpa only [scanDlq, hscan] using ih hfs' hnone
    · simp [scanDlq, hscan]

/-- **A lookup is complete exactly for the contents it can search.** -/
theorem lookupComplete_iff :
    LookupComplete jobId es (t.replies (es.take 200) >>= scanDlq jobId) ↔ Searchable t jobId es := by
  have hsplit : es.find? (HoldsJob jobId) =
      ((es.take 200).find? (HoldsJob jobId)).or ((es.drop 200).find? (HoldsJob jobId)) := by
    rw [← List.find?_append, List.take_append_drop]
  cases hfs : t.replies (es.take 200) with
  | error exc =>
    -- the client raises already when it reads the reply
    constructor
    · intro h
      exact absurd h not_lookupComplete_error
    · intro h
      obtain ⟨fs, hok⟩ := exists_replies_iff.mpr h.readable
      cases hfs.symm.trans hok
  | ok fs =>
    have hreadable := exists_replies_iff.mp ⟨fs, hfs⟩
    have hnewest : LookupComplete jobId (es.take 200) (scanDlq jobId fs) ↔
        (∀ e ∈ (es.take 200).takeWhile (fun e => !HoldsJob jobId e), PassedOver e.fields) ∧
          ∀ e, (es.take 200).find? (HoldsJob jobId) = some e → (reason? e.fields).isSome :=
      lookupComplete_scanDlq hfs
    change LookupComplete jobId es (scanDlq jobId fs) ↔ _
    by_cases hsame : es.find? (HoldsJob jobId) = (es.take 200).find? (HoldsJob jobId)
    · -- what is looked for is the same in the newest two hundred
      have hboth : LookupComplete jobId es (scanDlq jobId fs) ↔
          LookupComplete jobId (es.take 200) (scanDlq jobId fs) := by
        rw [LookupComplete, hsame, ← LookupComplete]
      rw [hboth, hnewest]
      constructor
      · rintro ⟨hnewer, hwhy⟩
        exact ⟨hreadable, hnewer, fun e he => ⟨hsame ▸ he, hwhy e (hsame ▸ he)⟩⟩
      · intro h
        exact ⟨h.newer, fun e he => (h.found e (hsame ▸ he)).2⟩
    · -- the newest entry of the job is not among the newest two hundred
      have hnone : (es.take 200).find? (HoldsJob jobId) = none := by
        cases htake : (es.take 200).find? (HoldsJob jobId) with
        | none => rfl
        | some e =>
          rw [htake, Option.some_or] at hsplit
          exact absurd (hsplit.trans htake.symm) hsame
      cases hfind : es.find? (HoldsJob jobId) with
      | none => exact absurd (hfind.trans hnone.symm) hsame
      | some e =>
        constructor
        · intro h
          rw [LookupComplete, hfind] at h
          obtain ⟨kvs, why, -, -, hout⟩ := h
          exact absurd hout (scanDlq_ne_some hfs hnone _)
        · intro h
          cases hnone.symm.trans (h.found e hfind).1

/-! ## Lookups -/

/-- **Lookups of dead letters are complete exactly where they can search**: whatever the dead-letter
stream of a queue holds, every lookup the server answers is complete if and only if the search reaches
the newest entry of the job, or the end of the stream if there is none, and nothing stops it before. -/
theorem readDlqEntry_complete_iff (t : RedisStreamTransport) (queue jobId : String) (w : World) :
    (∀ (site : Nat) (a : Actor) (w' : World) (out : Except PyExc (Option DlqEntry)),
        relay.Runs Faultless site a w (t.readDlqEntry queue jobId) w' out →
        LookupComplete jobId (w.redis (t.dlqKey queue)).entries.reverse out) ↔
      Searchable t jobId (w.redis (t.dlqKey queue)).entries.reverse := by
  rw [← lookupComplete_iff]
  constructor
  · intro hall
    obtain ⟨w', out, h⟩ := World.responsive_faultless.exists_runs (0 : Nat) (Actor.api 0)
      (t.readDlqEntry queue jobId) w
    rw [← runs_readDlqEntry h]
    exact hall _ _ _ _ h
  · intro hcomplete site a w' out h
    rw [runs_readDlqEntry h]
    exact hcomplete

end

end RedisStreamTransport

/-! ## A lookup that stops early -/

/-- A dead letter, and after it an entry without a job field. -/
def Sample.strayWorld : World :=
  { World.init with
    redis := Function.update World.init.redis (transport.dlqKey "default")
      ⟨[⟨1, RedisStreamTransport.dlqBody job "ValueError: boom"⟩, ⟨2, [(utf8 "note", utf8 "x")]⟩], 2,
        fun _ => none⟩ }

/-- The entry without a job field hides the dead letter. -/
theorem RedisStreamTransport.not_readDlqEntry_complete :
    ¬ ∀ (t : RedisStreamTransport) (queue jobId : String) (w : World) (site : Nat) (a : Actor)
        (w' : World) (out : Except PyExc (Option DlqEntry)),
      relay.Runs Faultless site a w (t.readDlqEntry queue jobId) w' out →
        LookupComplete jobId (w.redis (t.dlqKey queue)).entries.reverse out := by
  intro hall
  obtain ⟨w, hentries⟩ : ∃ w : World,
      (w.redis (Sample.transport.dlqKey "default")).entries.reverse =
        [⟨2, [(utf8 "note", utf8 "x")]⟩, ⟨1, dlqBody Sample.job "ValueError: boom"⟩] :=
    ⟨Sample.strayWorld, by simp [Sample.strayWorld]⟩
  obtain ⟨w', out, h⟩ := World.responsive_faultless.exists_runs (0 : Nat) (Actor.api 0)
    (Sample.transport.readDlqEntry "default" Sample.job.id) w
  have hcomplete := hall _ _ _ _ _ _ _ _ h
  rw [runs_readDlqEntry h, lookupComplete_iff, hentries] at hcomplete
  have hstray : jobText? [(utf8 "note", utf8 "x")] = none := by decide
  have hfirst : HoldsJob Sample.job.id ⟨2, [(utf8 "note", utf8 "x")]⟩ = false := by
    simp [HoldsJob, jobObject?, hstray]
  have hnewer := hcomplete.newer
  rw [List.take_of_length_le (by simp), List.takeWhile_cons_of_pos (by rw [hfirst]; rfl)] at hnewer
  obtain ⟨text, htext, -⟩ := hnewer _ List.mem_cons_self
  cases hstray.symm.trans htext

end RelayQ

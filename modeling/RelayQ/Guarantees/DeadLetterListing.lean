import RelayQ.Api.Inspect
import RelayQ.Guarantees.DeadLetterOrigin
import RelayQ.Guarantees.DeadLettersKept
import RelayQ.Infrastructure.StreamRuns
import Mathlib.Data.List.Forall2

/-! # Listing dead letters

The listing of the dead letters of a queue and the lookup of one of them read the same entries in two
ways. Where only the code writes, neither ever raises, and they agree.

* `RedisStreamTransport.GivenAs`: what a dead letter is given out as.
* `World.Lists`: the listing and the lookups show these items.
* `Service.deadLettersListed`: there are such items at all times, and they only get more. -/

namespace RelayQ

/-- The id of the job of an item. -/
def DlqEntry.jobId? (item : DlqEntry) : Option String :=
  (item.job.items?.bind fun kvs => kvs.lookup "id").bind JVal.str?

section

variable [Codec]

namespace RedisStreamTransport

/-- A dead letter is given out with its id, and the job of the queue and the reason it was written
with. -/
def GivenAs (queue : String) (e : Redis.Entry Body) (item : DlqEntry) : Prop :=
  ∃ job : Job, ∃ why, job.queue = queue ∧ e.fields = dlqBody job why ∧ item = ⟨e.id, job.toDict, why⟩

variable {t : RedisStreamTransport} {queue : String} {w w' : World} {site : Nat} {a : Actor}
  {es : List (Redis.Entry Body)} {items : List DlqEntry}

/-- A dead letter is listed with its job and its reason. -/
theorem listDlqEntry_of_toDict {n : Nat} {job : Job} {why : String} {fields : Fields}
    (hjob : decodeField fields "job" = .ok (some (Codec.dumps job.toDict)))
    (hwhy : decodeField fields "reason" = .ok (some why)) :
    listDlqEntry n fields = .ok ⟨n, job.toDict, why⟩ := by
  have hloads : loadsRaw (some (Codec.dumps job.toDict)) = .ok job.toDict :=
    Codec.loads_dumps _ job.wf_toDict
  simp only [listDlqEntry, hjob, bind, Except.bind, reasonOf, hwhy, hloads, Except.map,
    Option.getD_some]

/-- The id in the dictionary of a job. -/
theorem jobId?_toDict (n : Nat) (job : Job) (why : String) :
    (⟨n, job.toDict, why⟩ : DlqEntry).jobId? = some job.id := by
  simp [DlqEntry.jobId?, Job.toDict, JVal.items?, JVal.str?]

/-- **Listing and looking up agree**: the client reads dead letters without an error, the listing gives
each of them out, and a lookup finds the first one of the job in the listing. -/
theorem replies_givenAs (t : RedisStreamTransport) (h : List.Forall₂ (GivenAs queue) es items) :
    ∃ fs, t.replies es = .ok fs ∧ (fs.mapM fun e => listDlqEntry e.1 e.2) = .ok items ∧
      ∀ jobId, scanDlq jobId fs = .ok (items.find? fun item => item.jobId? == some jobId) := by
  induction h with
  | nil => exact ⟨[], rfl, rfl, fun _ => rfl⟩
  | @cons e item es items hgiven _ ih =>
    obtain ⟨fs, hfs, hlist, hscan⟩ := ih
    obtain ⟨job, why, -, hbody, rfl⟩ := hgiven
    obtain ⟨fields, hreply, hjob, hwhy⟩ := t.reply_dlqBody job why
    refine ⟨(e.id, fields) :: fs, ?_, ?_, fun jobId => ?_⟩
    · exact replies_cons_eq_ok.mpr ⟨fields, fs, by rw [hbody, hreply], hfs, rfl⟩
    · rw [List.mapM_cons, listDlqEntry_of_toDict hjob hwhy, hlist]
      rfl
    · rw [scanDlq, scanDlqEntry_of_toDict hjob hwhy, List.find?_cons, jobId?_toDict]
      by_cases hid : job.id = jobId
      · simp [hid]
      · simp [hid, beq_eq_false_iff_ne.mpr hid, hscan]

/-- What a listing returns when the server answers. -/
theorem runs_readDlq {count : Nat} {out : Except PyExc (List DlqEntry)} (hcount : 0 < count)
    (h : relay.Runs Faultless site a w (t.readDlq queue count) w' out) :
    out = (t.replies ((w.redis (t.dlqKey queue)).entries.reverse.take count) >>= fun es =>
      es.mapM fun e => listDlqEntry e.1 e.2) := by
  rw [readDlq, if_neg hcount.ne'] at h
  obtain ⟨w₀, r₀, hrange, hlist⟩ := Machine.runs_bind_iff.mp h
  obtain ⟨ans, hans, hx⟩ := Machine.runs_perform_iff.mp hrange
  obtain ⟨n, -, hr₀, -⟩ := World.exec_redis_faultless hx hans
  obtain rfl : r₀ = .ok ((w.redis (t.dlqKey queue)).entries.reverse.take count) := hr₀
  exact (Machine.runs_ofExcept_iff.mp hlist).2

end RedisStreamTransport

open RedisStreamTransport

/-- The dead letters of a queue are given out as these items, the newest first: every answered listing
is its first ones, as many as it asks for, and every answered lookup finds the first one of its job
among the newest 200. -/
structure World.Lists (t : RedisStreamTransport) (queue : String) (w : World)
    (items : List DlqEntry) : Prop where
  entries : List.Forall₂ (GivenAs queue) (w.redis (t.dlqKey queue)).entries.reverse items
  listings : ∀ (enq : Enqueuer), enq.transport.streamPrefix = t.streamPrefix → ∀ limit, 0 < limit →
    ∀ (site : Nat) (a : Actor) (w' : World) (out : Except PyExc Response),
      relay.Runs Faultless site a w (listDlq ⟨some enq⟩ queue limit) w' out →
        out = .ok (listed queue (items.take limit))
  lookups : ∀ (t' : RedisStreamTransport), t'.streamPrefix = t.streamPrefix →
    ∀ (jobId : String) (site : Nat) (a : Actor) (w' : World) (out : Except PyExc (Option DlqEntry)),
      relay.Runs Faultless site a w (t'.readDlqEntry queue jobId) w' out →
        out = .ok ((items.take 200).find? fun item => item.jobId? == some jobId)

variable {t : RedisStreamTransport} {queue : String} {w : World} {items : List DlqEntry}

/-- What the entries are given out as is what is listed. -/
theorem World.Lists.of_givenAs
    (h : List.Forall₂ (GivenAs queue) (w.redis (t.dlqKey queue)).entries.reverse items) :
    w.Lists t queue items := by
  refine ⟨h, fun enq ht limit hlimit site a w' out hr => ?_, fun t' ht jobId site a w' out hr => ?_⟩
  · obtain ⟨fs, hfs, hlist, -⟩ := enq.transport.replies_givenAs (List.forall₂_take limit h)
    obtain ⟨w₁, r, hread, hrest⟩ := Machine.runs_bind_iff.mp hr
    have hr₁ := runs_readDlq hlimit hread
    rw [dlqKey_congr ht, hfs] at hr₁
    obtain rfl : r = .ok (items.take limit) := hr₁.trans hlist
    exact (Machine.runs_ret_iff.mp hrest).2
  · obtain ⟨fs, hfs, -, hscan⟩ := t'.replies_givenAs (List.forall₂_take 200 h)
    have hout := runs_readDlqEntry hr
    rw [dlqKey_congr ht, hfs] at hout
    exact hout.trans (hscan jobId)

/-- Where every entry is a dead letter of the queue, there is something to give out. -/
theorem exists_givenAs (es : List (Redis.Entry Body))
    (h : ∀ e ∈ es, ∃ (job : Job) (why : String), job.queue = queue ∧ e.fields = dlqBody job why) :
    ∃ items, List.Forall₂ (GivenAs queue) es items := by
  induction es with
  | nil => exact ⟨[], .nil⟩
  | cons e es ih =>
    obtain ⟨items, hitems⟩ := ih fun e' he' => h e' (List.mem_cons_of_mem _ he')
    obtain ⟨job, why, hqueue, hbody⟩ := h e List.mem_cons_self
    exact ⟨_, .cons ⟨job, why, hqueue, hbody, rfl⟩ hitems⟩

namespace Service

variable {s s' : Service}

/-- Where jobs enter streams only through `Enqueuer`, and no client deletes a dead letter. -/
def Tended (t : RedisStreamTransport) (l : ServiceLabel) : Prop := Through t l ∧ Keeping t l

/-- **Dead letters are listed as they were written, and stay listed.** In every run in which jobs enter
streams only through `Enqueuer` and no client deletes dead letters itself, the dead letters of a queue
are given out as one list of items: no listing or lookup that is answered raises, each listing shows
the newest ones with the jobs and the reasons they were written with, and lookups agree with it. Later
on, the same items are listed, and newer ones before them. -/
theorem deadLettersListed (h₀ : Reaches step (fun _ => Tended t) init s)
    (h : Reaches step (fun _ => Tended t) s s') (queue : String) :
    ∃ older newer, s.world.Lists t queue older ∧ s'.world.Lists t queue (newer ++ older) := by
  have hthrough : Reaches step (fun _ => Through t) init s' :=
    (h₀.trans h).mono fun _ _ hl => hl.1
  have hfiled := (filed_of_reaches hthrough).world
  have hkept₀ := (kept_init (t := t)).reaches (h₀.mono fun _ _ hl => hl.2)
  obtain ⟨-, hkept⟩ := hkept₀.1.reaches (h.mono fun _ _ hl => hl.2)
  -- the entries of `s` are the first ones of `s'`
  obtain ⟨new, hnew⟩ := hkept queue
  have hall := hfiled.dlqs queue
  rw [← hnew] at hall
  obtain ⟨older, holder⟩ := exists_givenAs
    (s.world.redis (t.dlqKey queue)).entries.reverse fun e he =>
      hall e (List.mem_append_left _ (List.mem_reverse.mp he))
  obtain ⟨newer, hnewer⟩ := exists_givenAs new.reverse fun e he =>
    hall e (List.mem_append_right _ (List.mem_reverse.mp he))
  refine ⟨older, newer, .of_givenAs holder, .of_givenAs ?_⟩
  rw [← hnew, List.reverse_append]
  exact List.rel_append hnewer holder

/-- A run of the system in which nobody outside the code writes is one of the service. -/
theorem reaches_of_sys {sys sys' : Sys} (h : Sys.ClosedRun t sys sys') :
    Reaches step (fun _ => Tended t) ⟨sys, []⟩ ⟨sys', []⟩ := by
  induction h with
  | refl => exact .refl
  | @tail u v l _ hl hs ih =>
    have hnone : survivors [] l = [] := by
      unfold survivors
      split <;> rfl
    refine ih.tail (l := .sys l) ⟨?_, hl.1⟩ ?_
    · -- what is not a foreign writer's step uses the prefix
      cases l with
      | pool pl =>
        cases pl with
        | env e =>
          cases e with
          | foreign _ _ => cases hl.2
          | _ => exact hl.1
        | _ => exact hl.1
      | _ => exact hl.1
    · rw [step, hs, Option.map_some, hnone]

end Service

end

/-- The dead letter of a job without retries is listed. -/
theorem Service.deadLettersListed_lastTry : ∃ (s : Service) (older : List DlqEntry), older ≠ [] ∧
    s.world.Lists Sample.transport "default" older := by
  obtain ⟨sys, hrun, e, he, -⟩ := Sample.exists_deadLettered
  obtain ⟨older, newer, holder, -⟩ :=
    Service.deadLettersListed (Service.reaches_of_sys hrun) .refl "default"
  refine ⟨_, older, ?_, holder⟩
  rintro rfl
  have hnil : (sys.world.redis (Sample.transport.dlqKey "default")).entries = [] :=
    List.reverse_eq_nil_iff.mp (List.forall₂_nil_right_iff.mp holder.entries)
  rw [hnil] at he
  cases he

end RelayQ

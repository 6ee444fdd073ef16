import RelayQ.Api.RateLimit
import RelayQ.Domain.Errors
import Mathlib.Logic.Function.Basic

/-! # Limiters and the script cache

A limiter loads its script once and from then on names it by its digest. The server may forget what
it was given at any time; the limiter does not notice.

* `ScriptServer.evalsha`: the command, `NOSCRIPT` for a digest that is not cached.
* `ScriptedLimiter.allow`: one call of a limiter.
* `LimiterState.step`: any number of limiters on one server that loses its cache now and then. -/

namespace RelayQ

/-- The error of a digest that is not cached. -/
def noScript : PyExc := .responseError "NOSCRIPT No matching script. Please use EVAL."

/-- `int(x)`: towards zero. -/
def pyInt (x : ℚ) : ℤ := x.num.tdiv x.den

/-- What the server keeps for limiters: the digests of the cached scripts, and the buckets by key. -/
structure ScriptServer where
  cached : List String
  buckets : String → BucketHash

namespace ScriptServer

/-- `SCRIPT LOAD` of the script with digest `sha`. -/
def scriptLoad (sha : String) (srv : ScriptServer) : ScriptServer × String :=
  ({ srv with cached := sha :: srv.cached }, sha)

/-- `EVALSHA`. The only digest limiters send is that of `LUA_SCRIPT`. -/
def evalsha (srv : ScriptServer) (hash key : String) (l : TokenBucketRateLimiter) (c : TokenCall) :
    ScriptServer × Except PyExc Bool :=
  if hash ∈ srv.cached then
    let r := l.script (srv.buckets key) c
    ({ srv with buckets := Function.update srv.buckets key r.1 }, .ok r.2)
  else (srv, .error noScript)

end ScriptServer

/-- A limiter object: its key, its parameters and the digest it remembers. -/
structure ScriptedLimiter where
  key : String
  params : TokenBucketRateLimiter
  scriptHash : Option String := none

namespace ScriptedLimiter

variable (sha : String) (lim : ScriptedLimiter) (srv : ScriptServer)

/-- The script is loaded by the first call only. -/
def load : ScriptServer × String :=
  match lim.scriptHash with
  | none => srv.scriptLoad sha
  | some hash => (srv, hash)

/-- `allow(cost)` at time `time`, `sha` being the digest of `LUA_SCRIPT`. -/
def allow (time cost : ℚ) : ScriptServer × ScriptedLimiter × Except PyExc Bool :=
  let loaded := lim.load sha srv
  let r := loaded.1.evalsha loaded.2 lim.key lim.params ⟨pyInt time, cost⟩
  (r.1, { lim with scriptHash := some loaded.2 }, r.2)

/-- What the script decides on the current bucket. -/
def decision (time cost : ℚ) : Bool :=
  (lim.params.script (srv.buckets lim.key) ⟨pyInt time, cost⟩).2

/-- The limiter can name the script: it has yet to load it, or the server still has it. -/
def Served : Prop := ∀ hash, lim.scriptHash = some hash → hash ∈ srv.cached

/-- Whether the limiter can name the script can be checked. -/
instance : Decidable (lim.Served srv) :=
  decidable_of_iff (lim.scriptHash.all fun hash => hash ∈ srv.cached) (by
    cases h : lim.scriptHash <;> simp [Served, h])

/-- **A call is answered exactly if the limiter is served**, and then as the script decides. -/
theorem allow_result (time cost : ℚ) :
    (lim.allow sha srv time cost).2.2 =
      if lim.Served srv then .ok (lim.decision srv time cost) else .error noScript := by
  cases hlim : lim.scriptHash with
  | none =>
    -- the first call: what it has just loaded is cached
    have hserved : lim.Served srv := by simp [Served, hlim]
    rw [if_pos hserved]
    simp [allow, load, hlim, ScriptServer.scriptLoad, ScriptServer.evalsha, decision]
  | some hash =>
    by_cases hmem : hash ∈ srv.cached
    · have hserved : lim.Served srv := by simpa [Served, hlim] using hmem
      rw [if_pos hserved]
      simp [allow, load, hlim, ScriptServer.evalsha, hmem, decision]
    · have hlost : ¬ lim.Served srv := by simpa [Served, hlim] using hmem
      rw [if_neg hlost]
      simp [allow, load, hlim, ScriptServer.evalsha, hmem]

/-- Whatever the answer, the limiter remembers a digest afterwards, the one it knew or the one it
loaded. -/
theorem allow_scriptHash (time cost : ℚ) :
    (lim.allow sha srv time cost).2.1.scriptHash = some (lim.scriptHash.getD sha) := by
  cases hlim : lim.scriptHash <;> simp [allow, load, hlim, ScriptServer.scriptLoad]

/-- A call adds to the cache what it loads, if it is the first one. -/
theorem mem_cached_allow (time cost : ℚ) :
    sha ∈ (lim.allow sha srv time cost).1.cached ↔
      lim.scriptHash = none ∨ sha ∈ srv.cached := by
  cases hlim : lim.scriptHash with
  | none =>
    simp [allow, load, hlim, ScriptServer.scriptLoad, ScriptServer.evalsha]
  | some hash =>
    by_cases hmem : hash ∈ srv.cached
    · simp [allow, load, hlim, ScriptServer.evalsha, hmem]
    · simp [allow, load, hlim, ScriptServer.evalsha, hmem]

end ScriptedLimiter

/-- Something that happens to the server or is asked of a limiter. -/
inductive LimiterEvent (ι : Type)
  /-- `allow` of a limiter. -/
  | allow (i : ι) (time cost : ℚ)
  /-- `SCRIPT FLUSH` -/
  | flush
  /-- The server restarts, with the buckets it has saved. -/
  | restart (buckets : String → BucketHash)

/-- The server and the limiter objects of any number of processes. -/
structure LimiterState (ι : Type) where
  server : ScriptServer
  limiters : ι → ScriptedLimiter

namespace LimiterState

variable {ι : Type} [DecidableEq ι] (sha : String)

/-- One event. -/
def step (s : LimiterState ι) : LimiterEvent ι → LimiterState ι
  | .allow i time cost =>
    let r := (s.limiters i).allow sha s.server time cost
    ⟨r.1, Function.update s.limiters i r.2.1⟩
  | .flush => { s with server := { s.server with cached := [] } }
  | .restart buckets => { s with server := ⟨[], buckets⟩ }

end LimiterState

end RelayQ

import RelayQ.Abstract.Bucket
import Mathlib.Algebra.Order.Ring.Rat
import Mathlib.Data.Rat.Defs

/-! # Rate limiting

The Lua script of the token bucket on the hash of one key. The server runs a script as one command,
so concurrent callers come one after the other. Numbers are exact rationals here, and doubles in Lua.

* `TokenBucketRateLimiter.script`: one execution.
* `TokenBucketRateLimiter.run`: one execution after the other.
* `admittedCost_run`: the script is a `Bucket` whose refills are the elapsed times. -/

namespace RelayQ

/-- The hash of a key, by its two fields. -/
structure BucketHash where
  tokens : Option ℚ
  lastRefill : Option ℚ

/-- The key does not exist. -/
def BucketHash.absent : BucketHash := ⟨none, none⟩

/-- The arguments a caller sends: its own clock, and how many tokens it asks for. -/
structure TokenCall where
  now : ℚ
  cost : ℚ := 1

/-- An executed call: its arguments, the reply, and the hash it leaves. -/
structure TokenReply where
  call : TokenCall
  allowed : Bool
  after : BucketHash

/-- A limiter's parameters, which it sends with every call; exact rationals. -/
structure TokenBucketRateLimiter where
  rate : ℚ
  capacity : ℚ

namespace TokenBucketRateLimiter

variable (l : TokenBucketRateLimiter)

/-- One execution of `LUA_SCRIPT`. Both branches store the tokens and the caller's `now`. -/
def script (info : BucketHash) (c : TokenCall) : BucketHash × Bool :=
  -- an absent field counts as a full bucket, refilled just now
  let tokens := info.tokens.getD l.capacity
  let lastRefill := info.lastRefill.getD c.now
  -- a caller whose clock is behind refills nothing
  let elapsed := max 0 (c.now - lastRefill)
  let tokens := min l.capacity (tokens + elapsed * l.rate)
  if tokens ≥ c.cost then (⟨some (tokens - c.cost), some c.now⟩, true)
  else (⟨some tokens, some c.now⟩, false)

/-- The executions of a list of calls. -/
def run (info : BucketHash) : List TokenCall → List TokenReply
  | [] => []
  | c :: cs =>
    let r := l.script info c
    ⟨c, r.2, r.1⟩ :: run r.1 cs

/-- The hash a list of calls leaves. -/
def final (info : BucketHash) : List TokenCall → BucketHash
  | [] => info
  | c :: cs => final (l.script info c).1 cs

/-- What a call credits to the bucket, by the time its predecessor stored. -/
def credit (last now : ℚ) : ℚ := max 0 (now - last) * l.rate

/-- The demands the calls put on the bucket. -/
def demands (last : ℚ) : List TokenCall → List (Demand ℚ)
  | [] => []
  | c :: cs => ⟨l.credit last c.now, c.cost⟩ :: demands c.now cs

end TokenBucketRateLimiter

/-- The total cost of the calls that were let through. -/
def admittedCost (rs : List TokenReply) : ℚ :=
  (rs.map fun r => if r.allowed then r.call.cost else 0).sum

namespace TokenBucketRateLimiter

variable {l : TokenBucketRateLimiter} {info : BucketHash} {c : TokenCall} {cs : List TokenCall}

/-- **The script is a bucket**: it admits what the bucket admits, and stores its level with the
caller's time. -/
theorem script_eq (l : TokenBucketRateLimiter) (info : BucketHash) (c : TokenCall) :
    l.script info c =
      (⟨some (Bucket.next l.capacity (info.tokens.getD l.capacity)
          ⟨l.credit (info.lastRefill.getD c.now) c.now, c.cost⟩), some c.now⟩,
        Bucket.admits l.capacity (info.tokens.getD l.capacity)
          ⟨l.credit (info.lastRefill.getD c.now) c.now, c.cost⟩) := by
  by_cases h : c.cost ≤ min l.capacity (info.tokens.getD l.capacity +
      max 0 (c.now - info.lastRefill.getD c.now) * l.rate)
  · simp [script, Bucket.next, Bucket.admits, Bucket.fill, credit, h]
  · simp [script, Bucket.next, Bucket.admits, Bucket.fill, credit, h]

/-- What a list of calls gets is what the bucket admits. -/
theorem admittedCost_run (info : BucketHash) (c : TokenCall) (cs : List TokenCall) :
    admittedCost (l.run info (c :: cs)) = Bucket.admitted l.capacity
      (info.tokens.getD l.capacity) (l.demands (info.lastRefill.getD c.now) (c :: cs)) := by
  induction cs generalizing info c with
  | nil => simp [admittedCost, run, demands, Bucket.admitted, script_eq]
  | cons c' cs ih =>
    have hrest := ih (l.script info c).1 c'
    rw [run, admittedCost, List.map_cons, List.sum_cons, ← admittedCost, hrest, script_eq]
    rfl

/-- No time takes tokens away. -/
theorem credit_nonneg (hrate : 0 ≤ l.rate) (last now : ℚ) : 0 ≤ l.credit last now :=
  mul_nonneg (le_max_left _ _) hrate

/-- Demands are for no less than nothing. -/
theorem demands_nonneg (hrate : 0 ≤ l.rate) (hcost : ∀ c ∈ cs, 0 ≤ c.cost) (last : ℚ) :
    ∀ d ∈ l.demands last cs, 0 ≤ d.refill ∧ 0 ≤ d.cost := by
  induction cs generalizing last with
  | nil => simp [demands]
  | cons c cs ih =>
    intro d hd
    rcases List.mem_cons.mp hd with rfl | hd
    · exact ⟨credit_nonneg hrate _ _, hcost c List.mem_cons_self⟩
    · exact ih (fun c' hc' => hcost c' (List.mem_cons_of_mem _ hc')) _ d hd

/-- The stored tokens lie between zero and the capacity. -/
def BucketOk (l : TokenBucketRateLimiter) (info : BucketHash) : Prop :=
  ∀ t, info.tokens = some t → 0 ≤ t ∧ t ≤ l.capacity

/-- A level is not negative. -/
theorem BucketOk.level (h : BucketOk l info) (hcap : 0 ≤ l.capacity) :
    0 ≤ info.tokens.getD l.capacity := by
  cases ht : info.tokens with
  | none => exact hcap
  | some t => exact (h t ht).1

/-- An execution stores a level between zero and the capacity. -/
theorem BucketOk.script (h : BucketOk l info) (hrate : 0 ≤ l.rate) (hcap : 0 ≤ l.capacity)
    (hcost : 0 ≤ c.cost) : ∃ t, (l.script info c).1.tokens = some t ∧ 0 ≤ t ∧ t ≤ l.capacity := by
  rw [script_eq]
  exact ⟨_, rfl, Bucket.next_mem hcap (h.level hcap) (credit_nonneg hrate _ _) hcost⟩

/-- So do all executions of a list of calls. -/
theorem BucketOk.run (h : BucketOk l info) (hrate : 0 ≤ l.rate) (hcap : 0 ≤ l.capacity)
    (hcost : ∀ c ∈ cs, 0 ≤ c.cost) :
    (∀ r ∈ l.run info cs, ∃ t, r.after.tokens = some t ∧ 0 ≤ t ∧ t ≤ l.capacity) ∧
      BucketOk l (l.final info cs) := by
  induction cs generalizing info with
  | nil => exact ⟨by simp [TokenBucketRateLimiter.run], h⟩
  | cons c cs ih =>
    obtain ⟨t, ht, hmem⟩ := h.script hrate hcap (hcost c List.mem_cons_self)
    have hok : BucketOk l (l.script info c).1 := by
      intro t' ht'
      obtain rfl := Option.some.inj (ht.symm.trans ht')
      exact hmem
    obtain ⟨hrun, hfinal⟩ := ih hok fun c' hc' => hcost c' (List.mem_cons_of_mem _ hc')
    refine ⟨fun r hr => ?_, hfinal⟩
    rcases List.mem_cons.mp hr with rfl | hr
    · exact ⟨t, ht, hmem⟩
    · exact hrun r hr

end TokenBucketRateLimiter

end RelayQ

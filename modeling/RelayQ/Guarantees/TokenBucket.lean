import RelayQ.Api.RateLimit
import Mathlib.Tactic.Ring

/-! # What a token bucket lets through

What the script admits on one key, over every sequence of its executions.

* `TokenBucketRateLimiter.windowBound`: with times that do not go back, every window of the run is
  bounded by the capacity and what the time in it is worth.
* `TokenBucketRateLimiter.spanBound_iff`: with clocks that disagree, the run is bounded by the span of
  its times exactly when the clocks' forward moves are. The script clips a clock that goes back, but
  stores its time, so the same stretch is credited again. -/

namespace RelayQ

namespace TokenBucketRateLimiter

variable {l : TokenBucketRateLimiter} {info : BucketHash} {c : TokenCall} {cs : List TokenCall}

/-! ## Windows of a run -/

/-- The calls from one on run on what those before it left. -/
theorem run_drop (info : BucketHash) (cs : List TokenCall) (n : ℕ) :
    (l.run info cs).drop n = l.run (l.final info (cs.take n)) (cs.drop n) := by
  induction cs generalizing info n with
  | nil => simp [run]
  | cons c cs ih =>
    cases n with
    | zero => rfl
    | succ n => exact ih _ n

/-- The calls before one run as they do without the others. -/
theorem run_take (info : BucketHash) (cs : List TokenCall) (n : ℕ) :
    (l.run info cs).take n = l.run info (cs.take n) := by
  induction cs generalizing info n with
  | nil => simp [run]
  | cons c cs ih =>
    cases n with
    | zero => rfl
    | succ n => exact congrArg (List.cons _) (ih _ n)

/-- Times that do not go back, up to `last`, are worth what lies between. -/
theorem poured_le (hrate : 0 ≤ l.rate) {first last : ℚ} (hfirst : first ≤ last)
    (hsorted : cs.Pairwise fun c c' => c.now ≤ c'.now)
    (hcs : ∀ c ∈ cs, first ≤ c.now ∧ c.now ≤ last) :
    Bucket.poured l.capacity (l.demands first cs) ≤ l.rate * (last - first) := by
  induction cs generalizing first with
  | nil => simpa [demands, Bucket.poured] using mul_nonneg hrate (sub_nonneg.mpr hfirst)
  | cons c cs ih =>
    obtain ⟨hlo, hhi⟩ := hcs c List.mem_cons_self
    rw [List.pairwise_cons] at hsorted
    have hrest := ih hhi hsorted.2 fun c' hc' =>
      ⟨hsorted.1 c' hc', (hcs c' (List.mem_cons_of_mem _ hc')).2⟩
    -- time does not go back, so all of it is credited
    have hcredit : l.credit first c.now = l.rate * (c.now - first) := by
      rw [credit, max_eq_right (sub_nonneg.mpr hlo), mul_comm]
    rw [demands, Bucket.poured_cons]
    calc min l.capacity (l.credit first c.now) + Bucket.poured l.capacity (l.demands c.now cs)
        ≤ l.rate * (c.now - first) + l.rate * (last - c.now) :=
          add_le_add ((min_le_right _ _).trans hcredit.le) hrest
      _ = l.rate * (last - first) := by ring

/-- **Every window of a run is bounded.** The stored tokens stay between zero and the capacity, and
from one call to a later one no more is admitted than the capacity and what the time between them is
worth. -/
theorem windowBound (l : TokenBucketRateLimiter) (hrate : 0 ≤ l.rate) (hcap : 0 ≤ l.capacity)
    (calls : List TokenCall) (hcost : ∀ c ∈ calls, 0 ≤ c.cost)
    (hsorted : calls.Pairwise fun c c' => c.now ≤ c'.now) :
    (∀ r ∈ l.run .absent calls, ∃ t, r.after.tokens = some t ∧ 0 ≤ t ∧ t ≤ l.capacity) ∧
      ∀ i j ci cj, i ≤ j → calls[i]? = some ci → calls[j]? = some cj →
        admittedCost (((l.run .absent calls).drop i).take (j + 1 - i)) ≤
          l.capacity + l.rate * (cj.now - ci.now) := by
  have habsent : BucketOk l .absent := by
    intro t ht
    cases ht
  refine ⟨(habsent.run hrate hcap hcost).1, fun i j ci cj hij hi hj => ?_⟩
  have hok : BucketOk l (l.final .absent (calls.take i)) :=
    (habsent.run hrate hcap fun c hc => hcost c (List.mem_of_mem_take hc)).2
  obtain ⟨hlt, rfl⟩ := List.getElem?_eq_some_iff.mp hi
  obtain ⟨hltj, rfl⟩ := List.getElem?_eq_some_iff.mp hj
  have hdrop := List.drop_eq_getElem_cons hlt
  -- the window begins with call `i`, whatever the calls before it stored
  have hwindow : (calls.drop i).take (j + 1 - i) =
      calls[i] :: (calls.drop (i + 1)).take (j - i) := by
    rw [hdrop, show j + 1 - i = (j - i) + 1 by omega, List.take_succ_cons]
  have hle : ∀ a b (ha : a < calls.length) (hb : b < calls.length), a ≤ b →
      calls[a].now ≤ calls[b].now := by
    intro a b ha hb hab
    rcases hab.lt_or_eq with h | rfl
    · exact List.pairwise_iff_getElem.mp hsorted a b ha hb h
    · exact le_rfl
  have hmem : ∀ c ∈ (calls.drop (i + 1)).take (j - i),
      calls[i].now ≤ c.now ∧ c.now ≤ calls[j].now := by
    intro c hc
    obtain ⟨k, hk, rfl⟩ := List.getElem_of_mem hc
    rw [List.length_take, List.length_drop] at hk
    rw [List.getElem_take, List.getElem_drop]
    exact ⟨hle _ _ _ _ (by omega), hle _ _ _ _ (by omega)⟩
  have hfirst : calls[i].now ≤ calls[j].now := hle i j hlt hltj hij
  have hrest : ∀ c ∈ (calls.drop (i + 1)).take (j - i), c ∈ calls := fun c hc =>
    List.mem_of_mem_drop (List.mem_of_mem_take hc)
  rw [run_drop, run_take, hwindow, admittedCost_run]
  have hcosts : ∀ c ∈ calls[i] :: (calls.drop (i + 1)).take (j - i), 0 ≤ c.cost := by
    intro c hc
    rcases List.mem_cons.mp hc with rfl | hc
    · exact hcost _ (List.getElem_mem hlt)
    · exact hcost c (hrest c hc)
  -- the first call gets at most a full bucket, and the others what was poured in since
  refine (Bucket.admitted_le hcap (hok.level hcap) (demands_nonneg hrate hcosts _)).trans ?_
  refine add_le_add le_rfl (poured_le hrate hfirst ?_ hmem)
  exact (hsorted.sublist (List.drop_sublist _ _)).sublist (List.take_sublist _ _)

/-- A burst of two, a second, and a third call. -/
theorem windowBound_burst :
    admittedCost ((((⟨1, 2⟩ : TokenBucketRateLimiter).run .absent
      [⟨0, 2⟩, ⟨0, 1⟩, ⟨1, 1⟩]).drop 0).take (2 + 1 - 0)) ≤ 2 + 1 * (1 - 0) :=
  (windowBound ⟨1, 2⟩ (by decide) (by decide) [⟨0, 2⟩, ⟨0, 1⟩, ⟨1, 1⟩] (by decide)
    (by decide)).2 0 2 ⟨0, 2⟩ ⟨1, 1⟩ (by decide) rfl rfl

/-! ## Clocks that disagree -/

/-- What a list of clock readings credits to the bucket after the reading `last`. -/
def credits (l : TokenBucketRateLimiter) (last : ℚ) : List ℚ → List ℚ
  | [] => []
  | t :: ts => l.credit last t :: credits l t ts

/-- The demands of calls, by their times and their costs. -/
theorem demands_zipWith (last : ℚ) (ts costs : List ℚ) :
    l.demands last (List.zipWith TokenCall.mk ts costs) =
      List.zipWith Demand.mk (l.credits last ts) costs := by
  induction ts generalizing last costs with
  | nil => rfl
  | cons t ts ih =>
    cases costs with
    | nil => rfl
    | cons c costs => exact congrArg (List.cons _) (ih t costs)

/-- Every call has a credit. -/
@[simp] theorem length_credits (last : ℚ) (ts : List ℚ) :
    (l.credits last ts).length = ts.length := by
  induction ts generalizing last with
  | nil => rfl
  | cons t ts ih => simp [credits, ih]

/-- No credit is negative. -/
theorem credits_nonneg (hrate : 0 ≤ l.rate) (last : ℚ) (ts : List ℚ) :
    ∀ r ∈ l.credits last ts, 0 ≤ r := by
  induction ts generalizing last with
  | nil => simp [credits]
  | cons t ts ih =>
    intro r hr
    rcases List.mem_cons.mp hr with rfl | hr
    · exact credit_nonneg hrate _ _
    · exact ih t r hr

/-- What a list of calls pours in only depends on its clock readings. -/
theorem poured_demands (last : ℚ) (cs : List TokenCall) :
    Bucket.poured l.capacity (l.demands last cs) =
      ((l.credits last (cs.map (·.now))).map (min l.capacity)).sum := by
  induction cs generalizing last with
  | nil => rfl
  | cons c cs ih => simp [demands, credits, ih]

/-- Readings and costs of one length are those of the calls made of them. -/
theorem map_zipWith_mk {ts costs : List ℚ} (hlen : costs.length = ts.length) :
    (List.zipWith TokenCall.mk ts costs).map (·.now) = ts ∧
      (List.zipWith TokenCall.mk ts costs).map (·.cost) = costs := by
  induction ts generalizing costs with
  | nil => simpa using hlen
  | cons t ts ih =>
    cases costs with
    | nil => cases hlen
    | cons c costs =>
      have hrest := ih (Nat.succ.inj hlen)
      simp [hrest.1, hrest.2]

/-- Some calls with these clock readings get all that the readings credit. -/
theorem exists_admitted (l : TokenBucketRateLimiter) (hrate : 0 ≤ l.rate) (hcap : 0 ≤ l.capacity)
    (t : ℚ) (ts : List ℚ) :
    ∃ calls : List TokenCall, calls.map (·.now) = t :: ts ∧ (∀ c ∈ calls, 0 ≤ c.cost) ∧
      admittedCost (l.run .absent calls) =
        l.capacity + ((l.credits t ts).map (min l.capacity)).sum := by
  -- each call asks for all that the bucket holds
  set costs := Bucket.drain l.capacity l.capacity (l.credits t (t :: ts)) with hcosts
  have hlen : costs.length = (t :: ts).length := by simp [hcosts]
  have hnonneg : ∀ c ∈ costs, 0 ≤ c :=
    Bucket.drain_nonneg hcap hcap (credits_nonneg hrate t (t :: ts))
  obtain ⟨hnow, hcost⟩ := map_zipWith_mk hlen
  refine ⟨List.zipWith TokenCall.mk (t :: ts) costs, hnow, fun c hc => ?_, ?_⟩
  · refine hnonneg c.cost ?_
    rw [← hcost]
    exact List.mem_map_of_mem hc
  have hself : l.credit t t = 0 := by
    rw [credit, sub_self, max_self, zero_mul]
  have hfull : Bucket.fill l.capacity l.capacity (l.credit t t) = l.capacity := by
    rw [hself, Bucket.fill, add_zero, min_self]
  calc admittedCost (l.run .absent (List.zipWith TokenCall.mk (t :: ts) costs))
      = Bucket.admitted l.capacity l.capacity
          (l.demands t (List.zipWith TokenCall.mk (t :: ts) costs)) := admittedCost_run _ _ _
    _ = Bucket.admitted l.capacity l.capacity
          (List.zipWith Demand.mk (l.credits t (t :: ts)) costs) := by rw [demands_zipWith]
    _ = Bucket.fill l.capacity l.capacity (l.credit t t) +
          ((l.credits t ts).map (min l.capacity)).sum := Bucket.admitted_drain _ _
    _ = l.capacity + ((l.credits t ts).map (min l.capacity)).sum := by rw [hfull]

/-- No calls with these clock readings get more. -/
theorem admittedCost_le (hrate : 0 ≤ l.rate) (hcap : 0 ≤ l.capacity) {t : ℚ} {ts : List ℚ}
    {calls : List TokenCall} (hnow : calls.map (·.now) = t :: ts) (hcost : ∀ c ∈ calls, 0 ≤ c.cost) :
    admittedCost (l.run .absent calls) ≤
      l.capacity + ((l.credits t ts).map (min l.capacity)).sum := by
  cases calls with
  | nil => cases hnow
  | cons c cs =>
    rw [List.map_cons, List.cons.injEq] at hnow
    rw [← hnow.1, ← hnow.2, ← poured_demands, admittedCost_run]
    exact Bucket.admitted_le hcap hcap (demands_nonneg hrate hcost _)

/-- **The run is bounded by the span of its times exactly when the clocks' forward moves are.** With
these clock readings, whatever the calls cost, no more is admitted than the capacity and what the time
from the smallest to the largest reading is worth: if and only if the moves forward from each reading to
the next one, each counted up to a full bucket, are worth no more than that. -/
theorem spanBound_iff (l : TokenBucketRateLimiter) (hrate : 0 ≤ l.rate) (hcap : 0 ≤ l.capacity)
    (t : ℚ) (ts : List ℚ) :
    (∀ calls : List TokenCall, calls.map (·.now) = t :: ts → (∀ c ∈ calls, 0 ≤ c.cost) →
        admittedCost (l.run .absent calls) ≤
          l.capacity + l.rate * (ts.foldr max t - ts.foldr min t)) ↔
      ((l.credits t ts).map (min l.capacity)).sum ≤
        l.rate * (ts.foldr max t - ts.foldr min t) := by
  constructor
  · intro hbound
    -- the calls that drain the bucket each time get all that is credited
    obtain ⟨calls, hnow, hcost, hadmitted⟩ := exists_admitted l hrate hcap t ts
    have h := hbound calls hnow hcost
    rw [hadmitted] at h
    exact le_of_add_le_add_left h
  · intro hcredits calls hnow hcost
    exact (admittedCost_le hrate hcap hnow hcost).trans (add_le_add_right hcredits _)

/-- Two instances ten seconds apart, which take turns to ask for a full bucket. The slow one is turned
away, but stores its time. -/
theorem not_spanBound :
    ¬ (∀ (l : TokenBucketRateLimiter) (t : ℚ) (ts : List ℚ) (calls : List TokenCall),
        0 ≤ l.rate → 0 ≤ l.capacity → calls.map (·.now) = t :: ts → (∀ c ∈ calls, 0 ≤ c.cost) →
        admittedCost (l.run .absent calls) ≤
          l.capacity + l.rate * (ts.foldr max t - ts.foldr min t)) := by
  intro h
  have hrun := h ⟨1, 10⟩ 1000 [1010, 1000, 1010]
    [⟨1000, 10⟩, ⟨1010, 10⟩, ⟨1000, 10⟩, ⟨1010, 10⟩] (by decide) (by decide) rfl (by decide)
  exact absurd hrun (by decide +kernel)

/-- Clocks that agree, and a full bucket each time. -/
theorem spanBound_agree :
    admittedCost ((⟨1, 10⟩ : TokenBucketRateLimiter).run .absent [⟨0, 10⟩, ⟨10, 10⟩]) ≤
      10 + 1 * (10 - 0) :=
  (spanBound_iff ⟨1, 10⟩ (by decide) (by decide) 0 [10]).mpr (by decide +kernel) _ rfl (by decide)

end TokenBucketRateLimiter

end RelayQ

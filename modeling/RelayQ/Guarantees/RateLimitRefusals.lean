import RelayQ.Abstract.Refusals
import RelayQ.Api.RateLimit
import Mathlib.Tactic.Ring

/-! # What the rate limiter refuses

With times that do not go back, the script refuses a call only where letting it through would break
the bound on a window that ends with it, and what it refuses leaves no trace: the refused calls can be
taken away without any other reply becoming another.

* `TokenBucketRateLimiter.final_stored`, `TokenBucketRateLimiter.admittedCost_stored`: the runs of the
  script are those of a bucket.
* `TokenBucketRateLimiter.allows_iff`: the exact condition of a reply.
* `TokenBucketRateLimiter.pending`: what the bucket will hold; `TokenBucketRateLimiter.run_filter`:
  refused calls are invisible. -/

namespace RelayQ

namespace TokenBucketRateLimiter

variable {l : TokenBucketRateLimiter} {c : TokenCall} {cs : List TokenCall}

/-! ## Runs as lists of demands -/

/-- The hash of a bucket that holds `level` since `last`. -/
def stored (level last : ℚ) : BucketHash := ⟨some level, some last⟩

/-- The time of the last call. -/
def latest : ℚ → List TokenCall → ℚ
  | last, [] => last
  | _, c :: cs => latest c.now cs

/-- The latest of two rows of calls. -/
theorem latest_append (last : ℚ) (cs ds : List TokenCall) :
    latest last (cs ++ ds) = latest (latest last cs) ds := by
  induction cs generalizing last with
  | nil => rfl
  | cons c cs ih => exact ih c.now

/-- A call on a stored level is one demand on the bucket. -/
theorem script_stored (level last : ℚ) (c : TokenCall) :
    l.script (stored level last) c =
      (stored (Bucket.next l.capacity level ⟨l.credit last c.now, c.cost⟩) c.now,
        Bucket.admits l.capacity level ⟨l.credit last c.now, c.cost⟩) :=
  l.script_eq (stored level last) c

/-- A key that does not exist is a full bucket at the time of the call. -/
theorem script_absent (c : TokenCall) :
    l.script .absent c = l.script (stored l.capacity c.now) c := rfl

/-- So calls leave what their demands leave. -/
theorem final_stored (level last : ℚ) (cs : List TokenCall) :
    l.final (stored level last) cs =
      stored (Bucket.after l.capacity level (l.demands last cs)) (latest last cs) := by
  induction cs generalizing level last with
  | nil => rfl
  | cons c cs ih => rw [final, script_stored, ih]; rfl

/-- They let through what the bucket lets through. -/
theorem admittedCost_stored (level last : ℚ) (cs : List TokenCall) :
    admittedCost (l.run (stored level last) cs) =
      Bucket.admitted l.capacity level (l.demands last cs) := by
  cases cs with
  | nil => rfl
  | cons c cs => exact admittedCost_run _ c cs

/-- The demands of two rows of calls. -/
theorem demands_append (last : ℚ) (cs ds : List TokenCall) :
    l.demands last (cs ++ ds) = l.demands last cs ++ l.demands (latest last cs) ds := by
  induction cs generalizing last with
  | nil => rfl
  | cons c cs ih => exact congrArg (List.cons _) (ih c.now)

/-- A window of the demands is the window of the calls. -/
theorem demands_eq_append_cons {last : ℚ} {pre post : List (Demand ℚ)} {d : Demand ℚ}
    (h : l.demands last cs = pre ++ d :: post) : ∃ before first rest,
      cs = before ++ first :: rest ∧ pre = l.demands last before ∧
        d :: post = l.demands (latest last before) (first :: rest) ∧
        post = l.demands first.now rest := by
  induction cs generalizing last pre with
  | nil => simp [demands] at h
  | cons c cs ih =>
    cases pre with
    | nil =>
      obtain ⟨rfl, rfl⟩ := List.cons.inj h
      exact ⟨[], c, cs, rfl, rfl, rfl, rfl⟩
    | cons e pre =>
      obtain ⟨rfl, hrest⟩ := List.cons.inj h
      obtain ⟨before, first, rest, rfl, rfl, hd, hpost⟩ := ih hrest
      exact ⟨c :: before, first, rest, rfl, rfl, hd, hpost⟩

/-- Times that do not go back are credited in full. -/
theorem refills_demands {last : ℚ} (hsorted : cs.Pairwise fun c c' => c.now ≤ c'.now)
    (hlast : ∀ c ∈ cs, last ≤ c.now) :
    Bucket.refills (l.demands last cs) = l.rate * (latest last cs - last) := by
  induction cs generalizing last with
  | nil => simp [demands, Bucket.refills, latest]
  | cons c cs ih =>
    rw [List.pairwise_cons] at hsorted
    have hcredit : l.credit last c.now = l.rate * (c.now - last) := by
      rw [credit, max_eq_right (sub_nonneg.mpr (hlast c List.mem_cons_self)), mul_comm]
    have hrest : Bucket.refills (l.demands c.now cs) = l.rate * (latest c.now cs - c.now) :=
      ih hsorted.2 hsorted.1
    calc Bucket.refills (l.demands last (c :: cs))
        = l.credit last c.now + Bucket.refills (l.demands c.now cs) := by
          simp [demands, Bucket.refills]
      _ = l.rate * (latest last (c :: cs) - last) := by
          rw [hcredit, hrest, latest]
          ring

/-! ## The exact condition -/

/-- The reply to a call, after calls on a full bucket at the time `last`. -/
theorem allows_stored_iff {last : ℚ} {pre : List TokenCall}
    (hsorted : (pre ++ [c]).Pairwise fun c c' => c.now ≤ c'.now)
    (hlast : ∀ c' ∈ pre ++ [c], last ≤ c'.now) :
    (l.script (l.final (stored l.capacity last) pre) c).2 = true ↔
      c.cost ≤ l.capacity ∧
        admittedCost (l.run (stored l.capacity last) pre) + c.cost ≤
          l.capacity + l.rate * (c.now - last) ∧
        ∀ before first rest, pre = before ++ first :: rest →
          admittedCost (l.run (l.final (stored l.capacity last) before) (first :: rest)) + c.cost ≤
            l.capacity + l.rate * (c.now - first.now) := by
  have hlatest : ∀ t (ds : List TokenCall), latest t (ds ++ [c]) = c.now := fun t ds =>
    latest_append t ds [c]
  have hd : ∀ t (ds : List TokenCall), l.demands t ds ++ [⟨l.credit (latest t ds) c.now, c.cost⟩] =
      l.demands t (ds ++ [c]) := fun t ds => (demands_append t ds [c]).symm
  -- what is poured in from the first call of a window to the last
  have hpoured : ∀ before first rest, pre = before ++ first :: rest →
      Bucket.refills (l.demands first.now (rest ++ [c])) = l.rate * (c.now - first.now) := by
    rintro before first rest rfl
    rw [List.append_assoc, List.pairwise_append, List.cons_append, List.pairwise_cons] at hsorted
    rw [refills_demands hsorted.2.1.2 hsorted.2.1.1, hlatest]
  rw [final_stored, script_stored, Bucket.admits_after_iff, hd, refills_demands hsorted hlast,
    hlatest, admittedCost_stored]
  refine and_congr_right fun _ => and_congr_right fun _ => ⟨fun h => ?_, fun h => ?_⟩
  · rintro before first rest heq
    have hsplit : l.demands last pre = l.demands last before ++
        ⟨l.credit (latest last before) first.now, first.cost⟩ :: l.demands first.now rest := by
      rw [heq, demands_append]
      rfl
    have hwindow := h _ _ _ hsplit
    have htimes : latest last pre = latest first.now rest := by
      rw [heq]
      exact latest_append last before (first :: rest)
    rw [htimes, hd, hpoured before first rest heq] at hwindow
    rw [final_stored, admittedCost_stored]
    exact hwindow
  · rintro p e q heq
    obtain ⟨before, first, rest, hpre, rfl, hwindow, rfl⟩ := demands_eq_append_cons heq
    have htimes : latest last pre = latest first.now rest := by
      rw [hpre]
      exact latest_append last before (first :: rest)
    rw [htimes, hd, hpoured before first rest hpre, hwindow, ← admittedCost_stored, ← final_stored]
    exact h before first rest hpre

/-- **When a call is let through.** With times that do not go back, on a key that no call has used
before: exactly when it costs no more than the capacity, and for every stretch of calls right before it,
what that stretch was let through and the call itself cost no more than the capacity and what the time
from the first call of the stretch is worth. -/
theorem allows_iff (l : TokenBucketRateLimiter) (pre : List TokenCall) (c : TokenCall)
    (hsorted : (pre ++ [c]).Pairwise fun c c' => c.now ≤ c'.now) :
    (l.script (l.final .absent pre) c).2 = true ↔
      c.cost ≤ l.capacity ∧ ∀ before first rest, pre = before ++ first :: rest →
        admittedCost (l.run (l.final .absent before) (first :: rest)) + c.cost ≤
          l.capacity + l.rate * (c.now - first.now) := by
  cases pre with
  | nil =>
    have hlast : ∀ c' ∈ [] ++ [c], c.now ≤ c'.now := by simp
    have h := allows_stored_iff (l := l) hsorted hlast
    rw [final, script_absent]
    -- no call stands before it
    have hnil : ∀ {before rest : List TokenCall} {first : TokenCall}, [] ≠ before ++ first :: rest :=
      fun heq => by simp at heq
    refine h.trans (and_congr_right fun hcost =>
      ⟨fun _ _ _ _ heq => absurd heq hnil, fun _ => ⟨?_, fun _ _ _ heq => absurd heq hnil⟩⟩)
    simpa [run, admittedCost] using hcost
  | cons c₀ cs =>
    -- the first call finds a full bucket
    have hfinal : ∀ ds, l.final .absent (c₀ :: ds) = l.final (stored l.capacity c₀.now) (c₀ :: ds) :=
      fun _ => rfl
    have hrun : ∀ ds, l.run .absent (c₀ :: ds) = l.run (stored l.capacity c₀.now) (c₀ :: ds) :=
      fun _ => rfl
    have hlast : ∀ c' ∈ c₀ :: cs ++ [c], c₀.now ≤ c'.now := by
      intro c' hc'
      rw [List.cons_append, List.pairwise_cons] at hsorted
      rcases List.mem_cons.mp hc' with rfl | hc'
      · exact le_rfl
      · exact hsorted.1 c' hc'
    have hwindows : ∀ before first rest, c₀ :: cs = before ++ first :: rest →
        l.run (l.final .absent before) (first :: rest) =
          l.run (l.final (stored l.capacity c₀.now) before) (first :: rest) := by
      intro before first rest heq
      cases before with
      | nil =>
        obtain ⟨rfl, rfl⟩ := List.cons.inj heq
        exact hrun _
      | cons b bs =>
        obtain ⟨rfl, -⟩ := List.cons.inj heq
        rw [hfinal]
    rw [hfinal, allows_stored_iff hsorted hlast]
    refine and_congr_right fun _ => ⟨fun h before first rest heq => ?_, fun h => ⟨?_, ?_⟩⟩
    · rw [hwindows before first rest heq]
      exact h.2 before first rest heq
    · exact hrun cs ▸ h [] c₀ cs rfl
    · intro before first rest heq
      rw [← hwindows before first rest heq]
      exact h before first rest heq

/-- A full bucket, half of which is asked for twice, and a call a second too early for its second
token. -/
theorem allows_iff_early :
    ¬ (∀ before first rest, [(⟨0, 1⟩ : TokenCall), ⟨0, 1⟩] = before ++ first :: rest →
      admittedCost ((⟨1, 2⟩ : TokenBucketRateLimiter).run
        ((⟨1, 2⟩ : TokenBucketRateLimiter).final .absent before) (first :: rest)) + 2 ≤
          2 + 1 * (1 - first.now)) := by
  intro h
  have hiff := allows_iff ⟨1, 2⟩ [⟨0, 1⟩, ⟨0, 1⟩] ⟨1, 2⟩ (by decide)
  have hallowed := hiff.mpr ⟨by decide, h⟩
  exact absurd hallowed (by decide +kernel)

/-! ## Refused calls -/

/-- What the bucket of a hash will hold at a time. -/
def pending (l : TokenBucketRateLimiter) (info : BucketHash) (t : ℚ) : ℚ :=
  Bucket.fill l.capacity (info.tokens.getD l.capacity) (l.credit (info.lastRefill.getD t) t)

/-- An execution depends on the hash only through what the bucket holds at its time. -/
theorem script_pending (info : BucketHash) (c : TokenCall) :
    l.script info c = if c.cost ≤ l.pending info c.now then
      (stored (l.pending info c.now - c.cost) c.now, true)
    else (stored (l.pending info c.now) c.now, false) := rfl

/-- The hash is absent, or was written by the time `t`. -/
def WrittenBy (info : BucketHash) (t : ℚ) : Prop :=
  info = .absent ∨ ∃ level last, info = stored level last ∧ last ≤ t

/-- **A refused call leaves no trace**: at no later time does the bucket hold more or less than without
it. -/
theorem pending_refused (hrate : 0 ≤ l.rate) {info : BucketHash} (hinfo : WrittenBy info c.now)
    (hrefused : (l.script info c).2 = false) {t : ℚ} (ht : c.now ≤ t) :
    l.pending (l.script info c).1 t = l.pending info t := by
  have hlevel : (l.script info c).1 = stored (l.pending info c.now) c.now := by
    rw [script_pending] at hrefused ⊢
    split at hrefused
    · cases hrefused
    · rename_i h
      rw [if_neg h]
  have hcredit : ∀ {last now : ℚ}, last ≤ now → l.credit last now = (now - last) * l.rate :=
    fun h => by rw [credit, max_eq_right (sub_nonneg.mpr h)]
  have hpour : 0 ≤ l.credit c.now t := credit_nonneg hrate _ _
  rw [hlevel]
  rcases hinfo with rfl | ⟨level, last, rfl, hlast⟩
  · -- a full bucket takes no more
    have hself : ∀ now, l.pending .absent now = l.capacity := fun now => by
      have hzero : l.credit now now = 0 := by rw [hcredit le_rfl, sub_self, zero_mul]
      calc l.pending .absent now = Bucket.fill l.capacity l.capacity (l.credit now now) := rfl
        _ = l.capacity := by rw [hzero, Bucket.fill, add_zero, min_self]
    rw [hself, hself]
    exact min_eq_left (le_add_of_nonneg_right hpour)
  · have hsum : l.credit last c.now + l.credit c.now t = l.credit last t := by
      rw [hcredit hlast, hcredit ht, hcredit (hlast.trans ht)]
      ring
    calc l.pending (stored (l.pending (stored level last) c.now) c.now) t
        = Bucket.fill l.capacity (Bucket.fill l.capacity level (l.credit last c.now))
            (l.credit c.now t) := rfl
      _ = l.pending (stored level last) t := by rw [Bucket.fill_fill hpour, hsum]; rfl

/-- Two hashes that hold the same from a time on give the same replies to later calls, when some
refused ones are left out of those to the second. -/
theorem run_filter_of_pending (hrate : 0 ≤ l.rate) (keep : TokenReply → Bool)
    {info info' : BucketHash} {t : ℚ} (hinfo : WrittenBy info t)
    (hpending : ∀ t', t ≤ t' → l.pending info t' = l.pending info' t')
    (hsorted : cs.Pairwise fun c c' => c.now ≤ c'.now) (ht : ∀ c ∈ cs, t ≤ c.now)
    (hkeep : ∀ r ∈ l.run info cs, r.allowed = true → keep r = true) :
    l.run info' (((l.run info cs).filter keep).map TokenReply.call) =
      (l.run info cs).filter keep := by
  induction cs generalizing info info' t with
  | nil => rfl
  | cons c cs ih =>
    rw [List.pairwise_cons] at hsorted
    have hc : t ≤ c.now := ht c List.mem_cons_self
    have hscript : l.script info c = l.script info' c := by
      rw [script_pending, script_pending, hpending c.now hc]
    have hwritten : WrittenBy (l.script info c).1 c.now := by
      rw [script_pending]
      split <;> exact .inr ⟨_, _, rfl, le_rfl⟩
    have hrest : ∀ r ∈ l.run (l.script info c).1 cs, r.allowed = true → keep r = true :=
      fun r hr => hkeep r (List.mem_cons_of_mem _ hr)
    rw [run, List.filter_cons]
    split
    · -- kept: both buckets go on from the same hash
      rw [List.map_cons, run, ← hscript]
      exact congrArg (List.cons _) (ih hwritten (fun _ _ => rfl) hsorted.2 hsorted.1 hrest)
    · rename_i hdrop
      have hrefused : (l.script info c).2 = false := by
        cases hr : (l.script info c).2 with
        | false => rfl
        | true => exact absurd (hkeep ⟨c, (l.script info c).2, (l.script info c).1⟩
            List.mem_cons_self hr) hdrop
      have hc' : WrittenBy info c.now := by
        refine hinfo.imp_right ?_
        rintro ⟨level, last, heq, hlast⟩
        exact ⟨level, last, heq, hlast.trans hc⟩
      refine ih hwritten (fun t' ht' => ?_) hsorted.2 hsorted.1 hrest
      rw [pending_refused hrate hc' hrefused ht', hpending t' (hc.trans ht')]

/-- **Refused calls are invisible.** With times that do not go back, any refused calls may be left out
of those that the limiter sees, on a key that no call has used before: every other call gets the same
reply and stores the same hash. -/
theorem run_filter (l : TokenBucketRateLimiter) (hrate : 0 ≤ l.rate) (calls : List TokenCall)
    (hsorted : calls.Pairwise fun c c' => c.now ≤ c'.now) (keep : TokenReply → Bool)
    (hkeep : ∀ r ∈ l.run .absent calls, r.allowed = true → keep r = true) :
    l.run .absent (((l.run .absent calls).filter keep).map TokenReply.call) =
      (l.run .absent calls).filter keep := by
  cases calls with
  | nil => rfl
  | cons c cs =>
    have hc : ∀ c' ∈ c :: cs, c.now ≤ c'.now := by
      rw [List.pairwise_cons] at hsorted
      intro c' hc'
      rcases List.mem_cons.mp hc' with rfl | hc'
      · exact le_rfl
      · exact hsorted.1 c' hc'
    exact run_filter_of_pending hrate keep (.inl rfl) (fun _ _ => rfl) hsorted hc hkeep

/-- A burst of three calls on a bucket of two, and one after a second. -/
theorem run_filter_burst :
    (⟨1, 2⟩ : TokenBucketRateLimiter).run .absent
      ((((⟨1, 2⟩ : TokenBucketRateLimiter).run .absent
        [⟨0, 1⟩, ⟨0, 1⟩, ⟨0, 1⟩, ⟨1, 1⟩]).filter TokenReply.allowed).map TokenReply.call) =
      ((⟨1, 2⟩ : TokenBucketRateLimiter).run .absent
        [⟨0, 1⟩, ⟨0, 1⟩, ⟨0, 1⟩, ⟨1, 1⟩]).filter TokenReply.allowed :=
  run_filter ⟨1, 2⟩ (by decide) _ (by decide) TokenReply.allowed fun _ _ h => h

end TokenBucketRateLimiter

end RelayQ

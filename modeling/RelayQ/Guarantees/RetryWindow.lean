import RelayQ.Domain.Retry
import RelayQ.Guarantees.RetryBudget
import Mathlib.Tactic.Linarith
import Mathlib.Tactic.Ring

/-! # The retry window

What the policy promises of its delays, and of the delays the executor computes with it. The
executor asks for one delay per failure until the *job's* budget is used up; the window counts the
attempts of the *policy*. Past the policy's attempts every delay is the cap, which the window does
not count.

* `RetryPolicy.delayLaw`: bounds, monotony, and the sum of all delays.
* `FailsUntilDead`: a job's failures, one after the other, until it is dead-lettered.
* `windowCovers_iff`: when the window covers the delays computed meanwhile. -/

namespace RelayQ

/-- **The law of the retry delay**: each delay lies between zero and the cap, jitter only shortens
it, without jitter it grows with the attempt, and all of them together stay within the window, which
itself stays within the cap for each attempt. -/
theorem RetryPolicy.delayLaw {p : RetryPolicy} (hp : p.Nonneg) (hmax : 0 ≤ p.maxAttempts) :
    (∀ attempt draw, 0 ≤ attempt → 0 ≤ p.delay attempt draw ∧
      p.delay attempt draw ≤ p.capSeconds) ∧
    (∀ attempt draw draw', 0 ≤ attempt → p.delay attempt draw ≤ p.unjittered.delay attempt draw') ∧
    (∀ a b draw draw', 0 ≤ a → a ≤ b →
      p.unjittered.delay a draw ≤ p.unjittered.delay b draw') ∧
    (∀ draws : ℕ → Draw, ∑ i ∈ Finset.range p.maxAttempts.toNat, p.delay i (draws i) ≤
      p.maxTotalWindow) ∧
    p.maxTotalWindow ≤ p.maxAttempts * p.capSeconds := by
  refine ⟨fun attempt draw _ => ⟨delay_nonneg hp draw, ?_⟩, fun attempt draw _ _ => ?_,
    fun a b _ _ _ hab => ceiling_mono hp hab, fun draws => ?_, ?_⟩
  · exact (delay_le_ceiling hp draw).trans ceiling_le
  · exact delay_le_ceiling hp draw
  · rw [maxTotalWindow_eq]
    exact Finset.sum_le_sum fun i _ => delay_le_ceiling hp (draws i)
  · have hcard : ((p.maxAttempts.toNat : ℤ) : ℚ) = p.maxAttempts := by
      rw [Int.toNat_of_nonneg hmax]
    calc p.maxTotalWindow = ∑ i ∈ Finset.range p.maxAttempts.toNat, p.ceiling i :=
          p.maxTotalWindow_eq
      _ ≤ (Finset.range p.maxAttempts.toNat).card • p.capSeconds :=
          Finset.sum_le_card_nsmul _ _ _ fun i _ => ceiling_le
      _ = p.maxAttempts * p.capSeconds := by
          rw [Finset.card_range, nsmul_eq_mul, ← hcard, Int.cast_natCast]

/-- The default policy: three attempts within three times a minute. -/
theorem RetryPolicy.delayLaw_default :
    ({} : RetryPolicy).maxTotalWindow ≤ (({} : RetryPolicy).maxAttempts : ℚ) * 60 :=
  (delayLaw (p := {}) ⟨by decide, by decide⟩ (by decide)).2.2.2.2

section

variable [Codec]

/-! ## The delays the executor computes -/

/-- The delay an answered call returned, if it asked for one. -/
def Event.delay? (ev : Event) : Option ℚ :=
  match ev with
  | ⟨_, .delay _, _, _, .ok d⟩ => some d
  | _ => none

/-- The delays computed so far. -/
def World.delays (w : World) : List ℚ := w.log.filterMap Event.delay?

/-- The answers of a policy: a delay is what the policy makes of one of these draws. -/
def Computed (p : RetryPolicy) (draws : Set Draw) : Op → Answer → Prop
  | .delay n, ans => ∃ draw ∈ draws, ans = .drawn (p.delay n draw)
  | _, _ => True

/-- A job fails again and again, its attempts carried over, until it is dead-lettered. -/
inductive FailsUntilDead (p : RetryPolicy) (x : Executor) (queue : String) (entryId : Nat) :
    World → Job → World → Prop
  | dead {w w' : World} {job : Job} {exc : PyExc} {site : Nat} {a : Actor}
      {out : Except PyExc Job} :
      ({ job with attempts := job.attempts + 1 } : Job).shouldDlq = true →
      relay.Runs (Computed p .univ) site a w (x.handleFailure queue entryId job exc) w' out →
      FailsUntilDead p x queue entryId w job w'
  | again {w w₁ w' : World} {job job₁ : Job} {exc : PyExc} {site : Nat} {a : Actor} :
      ({ job with attempts := job.attempts + 1 } : Job).shouldDlq = false →
      relay.Runs (Computed p .univ) site a w (x.handleFailure queue entryId job exc) w₁ (.ok job₁) →
      FailsUntilDead p x queue entryId w₁ job₁ w' →
      FailsUntilDead p x queue entryId w job w'

/-- **The window covers the retries** of jobs with this budget: however such a job fails from its
first attempt until it is dead-lettered, the delays computed for it sum to at most the window. -/
def WindowCovers (p : RetryPolicy) (maxRetries : ℕ) : Prop :=
  ∀ x queue entryId w job w', job.attempts = 0 → job.maxRetries = (maxRetries : ℤ) →
    FailsUntilDead p x queue entryId w job w' →
    w'.delays.sum - w.delays.sum ≤ p.maxTotalWindow

variable {p : RetryPolicy} {x : Executor} {queue : String} {entryId : Nat} {w w' : World}
  {site : Nat} {a : Actor} {job : Job} {exc : PyExc}

/-- The call asks for no delay. -/
def Op.NoDelay (o : Op) : Prop := ∀ n, o ≠ .delay n

omit [Codec] in
/-- A call that asks for no delay computes none. -/
theorem World.exec_delays {o : Op} {ans : Answer} {r : Except PyExc o.Res}
    (ho : o.NoDelay) (h : w.exec site a o ans = some (w', r)) : w'.delays = w.delays := by
  obtain ⟨applied, evicted, hlog⟩ := World.exec_log h
  rw [World.delays, hlog, List.filterMap_cons]
  cases o with
  | delay n => exact absurd rfl (ho n)
  | redis _ | sql _ | handler _ _ | monotonic | utcnow | metric _ => rfl

omit [Codec] in
/-- A program that asks for no delay computes none. -/
theorem runs_delays {α : Type} {P : Op → Answer → Prop} {q : Py α} {out : Except PyExc α}
    (hq : q.Calls Op.NoDelay) (h : relay.Runs P site a w q w' out) :
    w'.delays = w.delays := by
  obtain ⟨-, hd, -⟩ := h.sound (R := fun (w₁ : World) (_ : Unit) => w₁.delays = w.delays)
    (fun hR hg _ hx => (World.exec_delays hg hx).trans hR) rfl hq
  exact hd

/-- A failure that is dead-lettered asks for no delay. -/
theorem runs_handleFailure_dead {P : Op → Answer → Prop} {out : Except PyExc Job}
    (hdlq : ({ job with attempts := job.attempts + 1 } : Job).shouldDlq = true)
    (h : relay.Runs P site a w (x.handleFailure queue entryId job exc) w' out) :
    w'.delays = w.delays := by
  refine runs_delays ?_ h
  refine .bind (.perform fun _ => nofun) fun _ => ?_
  rw [if_pos hdlq]
  refine .bind ?_ fun why => ?_
  · unfold Executor.reason
    split
    · exact .ret _
    · exact .raise _
  · refine .bind (Executor.calls_deadLetter (fun _ _ => nofun) fun _ _ => nofun) fun _ => ?_
    exact .bind (Executor.calls_noteStatus fun _ _ => nofun) fun _ => .ret _

/-- A failure that is retried asks for one delay, with the number of attempts before it. -/
theorem runs_handleFailure_retry {draws : Set Draw} {out : Except PyExc Job}
    (hdlq : ({ job with attempts := job.attempts + 1 } : Job).shouldDlq = false)
    (h : relay.Runs (Computed p draws) site a w (x.handleFailure queue entryId job exc) w' out) :
    out = .ok { job with attempts := job.attempts + 1 } ∧
      ∃ draw ∈ draws, w'.delays = p.delay job.attempts draw :: w.delays := by
  obtain ⟨w₁, r₁, hm, h⟩ := Machine.runs_bind_iff.mp h
  obtain ⟨-, rfl⟩ := runs_metric hm
  have hd₁ : w₁.delays = w.delays := runs_delays (.perform (by simp [Op.NoDelay])) hm
  simp only [hdlq, Bool.false_eq_true, if_false] at h
  -- `delay(job.attempts - 1)`, with the attempts already counted up
  obtain ⟨w₂, r₂, hd, h⟩ := Machine.runs_bind_iff.mp h
  obtain ⟨ans, ⟨draw, hdraw, rfl⟩, hx⟩ := Machine.runs_perform_iff.mp hd
  have hx : w₁.exec site a (.delay (job.attempts + 1 - 1))
      (.drawn (p.delay (job.attempts + 1 - 1) draw)) = some (w₂, r₂) := hx
  obtain ⟨y, hy, rfl, rfl⟩ := World.exec_eq_some.mp hx
  cases hy
  have hattempts : job.attempts + 1 - 1 = job.attempts := by omega
  obtain ⟨w₃, r₃, hs, h⟩ := Machine.runs_bind_iff.mp h
  have hd₃ := runs_delays (Executor.calls_noteStatus fun _ _ => nofun) hs
  obtain ⟨-, rfl⟩ := runs_noteStatus hs
  obtain ⟨rfl, rfl⟩ := Machine.runs_ret_iff.mp h
  have hdelay : p.delay job.attempts draw = p.delay (job.attempts + 1 - 1) draw := by
    rw [hattempts]
  refine ⟨rfl, draw, hdraw, hd₃.trans ?_⟩
  rw [hdelay, ← hd₁]
  rfl

/-! ## The sum of the delays -/

/-- The delays without jitter from the job's attempts up to its budget. -/
def budgetedDelays (p : RetryPolicy) (job : Job) : ℚ :=
  ∑ i ∈ Finset.range (job.maxRetries - job.attempts).toNat, p.ceiling (job.attempts + i)

omit [Codec] in
/-- A job past its budget is retried no more. -/
theorem budgetedDelays_dead
    (h : ({ job with attempts := job.attempts + 1 } : Job).shouldDlq = true) :
    budgetedDelays p job = 0 := by
  have hlt : job.maxRetries < job.attempts + 1 := by simpa [Job.shouldDlq] using h
  have hzero : (job.maxRetries - job.attempts).toNat = 0 := by omega
  rw [budgetedDelays, hzero, Finset.sum_range_zero]

omit [Codec] in
/-- A job within its budget is retried once, and then with one attempt more. -/
theorem budgetedDelays_retry
    (h : ({ job with attempts := job.attempts + 1 } : Job).shouldDlq = false) :
    budgetedDelays p job =
      p.ceiling job.attempts + budgetedDelays p { job with attempts := job.attempts + 1 } := by
  have hle : job.attempts + 1 ≤ job.maxRetries := by simpa [Job.shouldDlq] using h
  have hsucc : (job.maxRetries - job.attempts).toNat =
      (job.maxRetries - (job.attempts + 1)).toNat + 1 := by omega
  unfold budgetedDelays
  rw [hsucc, Finset.sum_range_succ']
  simp only [Nat.cast_add, Nat.cast_one, Nat.cast_zero, add_zero, add_comm, add_left_comm]

/-- What is computed until the job is dead stays within the delays without jitter. -/
theorem FailsUntilDead.delays_le (hp : p.Nonneg)
    (h : FailsUntilDead p x queue entryId w job w') :
    w'.delays.sum - w.delays.sum ≤ budgetedDelays p job := by
  induction h with
  | dead hdlq hrun =>
    rw [runs_handleFailure_dead hdlq hrun, sub_self, budgetedDelays_dead hdlq]
  | @again w w₁ w' job job₁ exc site a hdlq hrun _ ih =>
    -- the job that comes back has one attempt more and a budget one smaller
    obtain ⟨hjob, draw, -, hd⟩ := runs_handleFailure_retry hdlq hrun
    obtain rfl := Except.ok.inj hjob
    rw [hd, List.sum_cons] at ih
    rw [budgetedDelays_retry hdlq]
    have hle : p.delay job.attempts draw ≤ p.ceiling job.attempts :=
      RetryPolicy.delay_le_ceiling hp draw
    linarith only [ih, hle]

omit [Codec] in
/-- Fewer draws, fewer answers. -/
theorem Computed.mono {draws draws' : Set Draw} (hsub : draws ⊆ draws') {o : Op} {ans : Answer}
    (h : Computed p draws o ans) : Computed p draws' o ans := by
  cases o with
  | delay n =>
    obtain ⟨draw, hdraw, hans⟩ := h
    exact ⟨draw, hsub hdraw, hans⟩
  | redis _ | sql _ | handler _ _ | monotonic | utcnow | metric _ => trivial

omit [Codec] in
/-- One draw is enough to answer every call. -/
theorem responsive_computed (p : RetryPolicy) (draw : Draw) :
    relay.Responsive (Computed p {draw}) := by
  intro w site a o
  by_cases ho : ∃ n, o = .delay n
  · obtain ⟨n, rfl⟩ := ho
    have hx : w.exec site a (.delay n) (.drawn (p.delay n draw)) =
        some (w.record ⟨a, .delay n, true, 0, .ok (p.delay n draw)⟩, .ok (p.delay n draw)) := rfl
    exact ⟨_, _, _, ⟨draw, rfl, rfl⟩, hx⟩
  · -- of the other calls nothing is asked
    obtain ⟨ans, w', r, -, hx⟩ := w.exists_answer ⟨.empty, none⟩ site a o
    refine ⟨ans, w', r, ?_, hx⟩
    cases o with
    | delay n => exact absurd ⟨n, rfl⟩ ho
    | redis _ | sql _ | handler _ _ | monotonic | utcnow | metric _ => trivial

/-- A job can fail until it is dead with the delays without jitter. -/
theorem exists_failsUntilDead (p : RetryPolicy) (x : Executor) (queue : String) (entryId : ℕ)
    (w : World) (job : Job) : ∃ w', FailsUntilDead p x queue entryId w job w' ∧
      w'.delays.sum - w.delays.sum = budgetedDelays p job := by
  have hresp := responsive_computed p .full
  have hmono : ∀ o ans, Computed p {.full} o ans → Computed p .univ o ans :=
    fun _ _ h => h.mono (Set.subset_univ _)
  -- by the number of retries left
  induction hn : (job.maxRetries - job.attempts).toNat generalizing w job with
  | zero =>
    have hdlq : ({ job with attempts := job.attempts + 1 } : Job).shouldDlq = true := by
      simp only [Job.shouldDlq, decide_eq_true_eq]
      omega
    obtain ⟨w', out, hrun⟩ := hresp.exists_runs 0 .foreign
      (x.handleFailure queue entryId job .timeoutError) w
    refine ⟨w', .dead hdlq (hrun.mono hmono), ?_⟩
    rw [runs_handleFailure_dead hdlq hrun, sub_self, budgetedDelays_dead hdlq]
  | succ n ih =>
    have hdlq : ({ job with attempts := job.attempts + 1 } : Job).shouldDlq = false := by
      simp only [Job.shouldDlq, decide_eq_false_iff_not]
      omega
    obtain ⟨w₁, out, hrun⟩ := hresp.exists_runs 0 .foreign
      (x.handleFailure queue entryId job .timeoutError) w
    obtain ⟨rfl, draw, hdraw, hd⟩ := runs_handleFailure_retry hdlq hrun
    obtain rfl : draw = .full := hdraw
    obtain ⟨w', hrest, hsum⟩ := ih w₁ { job with attempts := job.attempts + 1 } (by
      dsimp only
      omega)
    refine ⟨w', .again hdlq (hrun.mono hmono) hrest, ?_⟩
    rw [hd, List.sum_cons, RetryPolicy.delay_full] at hsum
    rw [budgetedDelays_retry hdlq, ← hsum]
    ring

omit [Codec] in
/-- What a job is delayed from its first attempt on. -/
theorem budgetedDelays_of_fresh {maxRetries : ℕ} (h0 : job.attempts = 0)
    (hm : job.maxRetries = (maxRetries : ℤ)) :
    budgetedDelays p job = ∑ i ∈ Finset.range maxRetries, p.ceiling i := by
  simp [budgetedDelays, h0, hm]

/-- Each retry past the policy's attempts adds the cap, which the window does not count. -/
theorem WindowCovers.bound (hp : p.Nonneg) {maxRetries : ℕ} (h : WindowCovers p maxRetries) :
    (maxRetries : ℤ) ≤ max p.maxAttempts 0 ∨ p.capSeconds = 0 := by
  rcases Nat.le_total maxRetries p.maxAttempts.toNat with hle | hle
  · exact .inl (by omega)
  · let job : Job := { Sample.job with maxRetries := (maxRetries : ℤ) }
    obtain ⟨w', hrun, hdelays⟩ := exists_failsUntilDead p { transport := Sample.transport }
      "default" 1 .init job
    have hcover := h _ _ _ _ job w' rfl rfl hrun
    rw [hdelays, budgetedDelays_of_fresh rfl rfl, p.sum_ceiling maxRetries hle] at hcover
    -- a job that fails with full draws exceeds the window by the cap for each retry past the last
    have hextra : ((maxRetries - p.maxAttempts.toNat : ℕ) : ℚ) * p.capSeconds ≤ 0 := by
      linarith only [hcover]
    rcases Nat.eq_zero_or_pos (maxRetries - p.maxAttempts.toNat) with hz | hpos
    · exact .inl (by omega)
    · have hcast : (0 : ℚ) < (maxRetries - p.maxAttempts.toNat : ℕ) := Nat.cast_pos.mpr hpos
      exact .inr (le_antisymm (nonpos_of_mul_nonpos_right hextra hcast) hp.cap)

/-- **The window covers a job's retries exactly if the policy has as many attempts as the job has
retries**, or never waits at all. -/
theorem windowCovers_iff (hp : p.Nonneg) (maxRetries : ℕ) :
    WindowCovers p maxRetries ↔ (maxRetries : ℤ) ≤ max p.maxAttempts 0 ∨ p.capSeconds = 0 := by
  refine ⟨fun h => h.bound hp, fun hcond x queue entryId w job w' h0 hm h => ?_⟩
  refine (h.delays_le hp).trans ?_
  rw [budgetedDelays_of_fresh h0 hm]
  rcases Nat.le_total maxRetries p.maxAttempts.toNat with hle | hle
  · -- within the policy's attempts: part of the window's own sum
    rw [RetryPolicy.maxTotalWindow_eq]
    exact Finset.sum_le_sum_of_subset_of_nonneg (Finset.range_mono hle) fun _ _ _ =>
      RetryPolicy.ceiling_nonneg hp
  · -- past them: the window, and the cap for each of the others
    rw [p.sum_ceiling maxRetries hle]
    rcases hcond with hle' | hcap
    · have hz : maxRetries - p.maxAttempts.toNat = 0 := by omega
      rw [hz, Nat.cast_zero, zero_mul, add_zero]
    · rw [hcap, mul_zero, add_zero]

end

/-- The default policy covers the default budget of three retries. -/
theorem windowCovers_default : WindowCovers {} 3 :=
  (windowCovers_iff (p := {}) ⟨by decide, by decide⟩ 3).mpr (.inl (by decide))

/-- The default policy does not cover four retries: the last delay is the cap, for sure. -/
theorem not_windowCovers : ¬ ∀ p : RetryPolicy, p.Nonneg → ∀ m ≤ 25, WindowCovers p m := by
  intro h
  have hp : ({} : RetryPolicy).Nonneg := ⟨by decide, by decide⟩
  rcases (h {} hp 4 (by decide)).bound hp with hle | hcap
  · exact absurd hle (by decide)
  · exact absurd hcap (by decide)

end RelayQ

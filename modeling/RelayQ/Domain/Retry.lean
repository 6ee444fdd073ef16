import Mathlib.Algebra.BigOperators.Group.Finset.Basic
import Mathlib.Algebra.Order.BigOperators.Group.Finset
import Mathlib.Algebra.Order.Field.Power
import Mathlib.Algebra.Order.Ring.Rat
import Mathlib.Tactic.Common

/-! # Backoff

The retry policy with its two ways of saturating: the cap, and the number of attempts after which
every delay is the cap. Seconds are exact rationals.

* `RetryPolicy.delay`, `RetryPolicy.maxTotalWindow`: the code.
* `RetryPolicy.ceiling`: the delay without jitter; `delay_le_ceiling`, `ceiling_mono`. -/

namespace RelayQ

/-- The policy's parameters. -/
structure RetryPolicy where
  baseSeconds : ℚ := 1
  capSeconds : ℚ := 60
  maxAttempts : ℤ := 3
  jitter : Bool := true

/-- A random draw: what `random.uniform(0, x)` returns. -/
structure Draw where
  uniform : ℚ → ℚ
  nonneg : ∀ x, 0 ≤ x → 0 ≤ uniform x
  le : ∀ x, 0 ≤ x → uniform x ≤ x

/-- The largest draw. -/
def Draw.full : Draw := ⟨id, fun _ h => h, fun _ _ => le_rfl⟩

namespace RetryPolicy

variable (p : RetryPolicy)

/-- `min(self.base_seconds * (2**attempt), self.cap_seconds)` -/
def capped (attempt : ℤ) : ℚ := min (p.baseSeconds * 2 ^ attempt) p.capSeconds

/-- The sleep duration before a retry, 0-indexed. -/
def delay (attempt : ℤ) (draw : Draw) : ℚ :=
  -- exhausted: the cap, with no jitter; the caller is to dead-letter instead
  if attempt ≥ p.maxAttempts then p.capSeconds
  else if !p.jitter then p.capped attempt
  else draw.uniform (p.capped attempt)

/-- Upper bound on the total time of all retries. -/
def maxTotalWindow : ℚ :=
  (List.range p.maxAttempts.toNat).foldl (fun total (i : ℕ) => total + p.capped i) 0

/-- The policy without jitter. -/
def unjittered : RetryPolicy := { p with jitter := false }

/-- The seconds of the policy are not negative. -/
structure Nonneg : Prop where
  base : 0 ≤ p.baseSeconds
  cap : 0 ≤ p.capSeconds

/-! ## One delay -/

/-- The delay without jitter. -/
def ceiling (attempt : ℤ) : ℚ :=
  if attempt ≥ p.maxAttempts then p.capSeconds else p.capped attempt

/-- Without jitter the draw does not matter. -/
@[simp] theorem delay_unjittered (attempt : ℤ) (draw : Draw) :
    p.unjittered.delay attempt draw = p.ceiling attempt := rfl

/-- The largest draw gives the delay without jitter. -/
@[simp] theorem delay_full (attempt : ℤ) : p.delay attempt .full = p.ceiling attempt := by
  unfold delay ceiling
  split
  · rfl
  · split <;> rfl

variable {p} {attempt : ℤ}

/-- The capped delay is not negative. -/
theorem capped_nonneg (hp : p.Nonneg) : 0 ≤ p.capped attempt := by
  have hpow : (0 : ℚ) ≤ 2 ^ attempt := zpow_nonneg (by decide) attempt
  exact le_min (mul_nonneg hp.base hpow) hp.cap

/-- Nor is it over the cap. -/
theorem capped_le : p.capped attempt ≤ p.capSeconds := min_le_right _ _

/-- The bound on the delay is not negative. -/
theorem ceiling_nonneg (hp : p.Nonneg) : 0 ≤ p.ceiling attempt := by
  unfold ceiling
  split
  · exact hp.cap
  · exact capped_nonneg hp

/-- Nor is it over the cap. -/
theorem ceiling_le : p.ceiling attempt ≤ p.capSeconds := by
  unfold ceiling
  split
  · exact le_rfl
  · exact capped_le

/-- A delay is not negative. -/
theorem delay_nonneg (hp : p.Nonneg) (draw : Draw) : 0 ≤ p.delay attempt draw := by
  unfold delay
  split
  · exact hp.cap
  · split
    · exact capped_nonneg hp
    · exact draw.nonneg _ (capped_nonneg hp)

/-- Jitter only shortens a delay. -/
theorem delay_le_ceiling (hp : p.Nonneg) (draw : Draw) :
    p.delay attempt draw ≤ p.ceiling attempt := by
  unfold delay ceiling
  split
  · exact le_rfl
  · split
    · exact le_rfl
    · exact draw.le _ (capped_nonneg hp)

/-- The delay without jitter grows, through the cap and through the last attempt. -/
theorem ceiling_mono (hp : p.Nonneg) {a b : ℤ} (hab : a ≤ b) : p.ceiling a ≤ p.ceiling b := by
  by_cases hb : b ≥ p.maxAttempts
  · -- past the last attempt there is nothing above the cap
    have hcap : p.ceiling b = p.capSeconds := if_pos hb
    rw [hcap]
    exact ceiling_le
  · have ha : ¬ a ≥ p.maxAttempts := fun ha => hb (ha.le.trans hab)
    unfold ceiling
    rw [if_neg ha, if_neg hb]
    have hpow : (2 : ℚ) ^ a ≤ 2 ^ b := zpow_le_zpow_right₀ (by decide) hab
    exact min_le_min_right _ (mul_le_mul_of_nonneg_left hpow hp.base)

/-! ## The window -/

/-- The window is the sum of the delays without jitter. -/
theorem maxTotalWindow_eq (p : RetryPolicy) :
    p.maxTotalWindow = ∑ i ∈ Finset.range p.maxAttempts.toNat, p.ceiling i := by
  have hfold : ∀ n, (List.range n).foldl (fun total (i : ℕ) => total + p.capped i) 0 =
      ∑ i ∈ Finset.range n, p.capped i := by
    intro n
    induction n with
    | zero => rfl
    | succ n ih =>
      rw [List.range_succ, List.foldl_append, ih, Finset.sum_range_succ]
      rfl
  rw [maxTotalWindow, hfold]
  refine Finset.sum_congr rfl fun i hi => ?_
  -- within the window no attempt is past the last
  have hlt : ¬ (i : ℤ) ≥ p.maxAttempts := by
    have := Finset.mem_range.mp hi
    omega
  exact (if_neg hlt).symm

/-- The delays without jitter of the first attempts: the window, and the cap for each attempt past
the last. -/
theorem sum_ceiling (p : RetryPolicy) (m : ℕ) (hm : p.maxAttempts.toNat ≤ m) :
    ∑ i ∈ Finset.range m, p.ceiling i =
      p.maxTotalWindow + (m - p.maxAttempts.toNat : ℕ) * p.capSeconds := by
  obtain ⟨k, rfl⟩ := Nat.exists_eq_add_of_le hm
  rw [Finset.sum_range_add, ← maxTotalWindow_eq, Nat.add_sub_cancel_left]
  have hcap : ∀ i ∈ Finset.range k,
      p.ceiling ((p.maxAttempts.toNat + i : ℕ) : ℤ) = p.capSeconds := by
    intro i _
    refine if_pos ?_
    omega
  rw [Finset.sum_congr rfl hcap, Finset.sum_const, Finset.card_range, nsmul_eq_mul]

end RetryPolicy

end RelayQ

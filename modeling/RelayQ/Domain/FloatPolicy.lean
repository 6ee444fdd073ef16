import RelayQ.Domain.Errors
import Mathlib.Algebra.Order.Ring.Int
import Mathlib.Tactic.Common

/-! # Backoff on doubles

The retry policy as the machine computes it: seconds are doubles, and the integer `2**attempt` has to
become one before it is multiplied. That conversion is the only step that may raise; products, sums
and comparisons of doubles overflow to an infinity. The cap comes after it, so a delay is safe exactly
as long as its power of two is a double or the number of attempts is exhausted, and for
`max_total_window`, which forms the powers of all attempts, the budget alone decides.

* `floatOfInt`: the conversion, `isOk_floatOfInt_two_pow`: which powers of two it takes.
* `FloatPolicy.delay`, `FloatPolicy.maxTotalWindow`: the code.
* `isOk_foldlM`: when a loop returns each step of which may raise.
* `FloatPolicy.returns_iff`: when `delay` and `max_total_window` return.
* `FloatPolicy.not_returns`: a budget of 1025 attempts. -/

namespace RelayQ

/-- What the conversion of an integer out of range raises. -/
def overflowError : PyExc := .other "OverflowError" (some "int too large to convert to float")

/-- The double nearest to an integer, unless that is infinite. -/
def floatOfInt (n : ℤ) : Except PyExc Float :=
  -- the middle between the largest double and `2 ^ 1024`, from which on the nearest is infinite
  if n.natAbs < 2 ^ 1024 - 2 ^ 970 then .ok (Float.ofInt n) else .error overflowError

/-- `min` of two doubles: the first, unless the second is smaller. -/
def pyMin (a b : Float) : Float := if b < a then b else a

/-- `random.uniform(0, b)`, when `random()` returns `r`. -/
def uniform (b r : Float) : Float := 0 + (b - 0) * r

/-- The policy's parameters. -/
structure FloatPolicy where
  baseSeconds : Float := 1
  capSeconds : Float := 60
  maxAttempts : ℤ := 3
  jitter : Bool := true

namespace FloatPolicy

variable (p : FloatPolicy)

/-- `self.base_seconds * (2**attempt)` -/
def exponential (attempt : ℕ) : Except PyExc Float :=
  (floatOfInt (2 ^ attempt)).map fun power => p.baseSeconds * power

/-- `min(self.base_seconds * (2**attempt), self.cap_seconds)` -/
def capped (attempt : ℕ) : Except PyExc Float :=
  (p.exponential attempt).map fun exponential => pyMin exponential p.capSeconds

/-- The sleep duration before a retry, 0-indexed. -/
def delay (attempt : ℕ) (r : Float) : Except PyExc Float :=
  if (attempt : ℤ) ≥ p.maxAttempts then .ok p.capSeconds
  else (p.capped attempt).map fun capped => if !p.jitter then capped else uniform capped r

/-- Upper bound on the total time of all retries. -/
def maxTotalWindow : Except PyExc Float :=
  (List.range p.maxAttempts.toNat).foldlM (fun total i => (p.capped i).map fun s => total + s) 0

end FloatPolicy

/-! ## What returns -/

/-- A computation on what was returned raises nothing. -/
@[simp] theorem isOk_map {ε α β : Type} (f : α → β) (e : Except ε α) :
    (e.map f).isOk = e.isOk := by
  cases e <;> rfl

/-- **A loop returns exactly if each of its steps does**, when that does not depend on what was
computed before. -/
theorem isOk_foldlM {ε α β : Type} {f : α → β → Except ε α} {c : β → Bool}
    (h : ∀ a b, (f a b).isOk = c b) (l : List β) (a : α) : (l.foldlM f a).isOk = l.all c := by
  induction l generalizing a with
  | nil => rfl
  | cons b l ih =>
    rw [List.foldlM_cons, List.all_cons, ← h a b]
    cases f a b with
    | error e => rfl
    | ok a' => exact ih a'

/-- A power of two lies below the next one by less than half of it exactly if its exponent does. -/
theorem two_pow_lt_iff {b n : ℕ} (hb : b < n) (k : ℕ) :
    2 ^ k < 2 ^ (n + 1) - 2 ^ b ↔ k < n + 1 := by
  have hsmall : 2 ^ b < 2 ^ n := Nat.pow_lt_pow_right (by decide) hb
  constructor
  · intro h
    by_contra hk
    have hle : 2 ^ (n + 1) ≤ 2 ^ k := Nat.pow_le_pow_right (by decide) (Nat.le_of_not_lt hk)
    exact absurd (h.trans_le (Nat.sub_le _ _)) (Nat.not_lt.mpr hle)
  · intro hk
    have hle : 2 ^ k ≤ 2 ^ n := Nat.pow_le_pow_right (by decide) (Nat.le_of_lt_succ hk)
    have hdouble : 2 ^ n + 2 ^ b < 2 ^ (n + 1) := by
      rw [pow_succ, Nat.mul_two]
      exact Nat.add_lt_add_left hsmall _
    exact hle.trans_lt (Nat.lt_sub_of_add_lt hdouble)

/-- **A power of two has a double exactly up to the exponent 1023.** -/
theorem isOk_floatOfInt_two_pow (k : ℕ) : (floatOfInt (2 ^ k)).isOk = decide (k < 1024) := by
  have habs : (2 ^ k : ℤ).natAbs = 2 ^ k := by
    rw [Int.natAbs_pow]
    rfl
  unfold floatOfInt
  rw [habs]
  by_cases hk : k < 1024
  · rw [if_pos ((two_pow_lt_iff (n := 1023) (by decide) k).mpr hk), decide_eq_true hk]
    rfl
  · rw [if_neg (fun h => hk ((two_pow_lt_iff (n := 1023) (by decide) k).mp h)), decide_eq_false hk]
    rfl

namespace FloatPolicy

variable (p : FloatPolicy)

/-- The capped exponential returns as long as the power has a double. -/
theorem isOk_capped (attempt : ℕ) : (p.capped attempt).isOk = decide (attempt < 1024) := by
  simp only [capped, exponential, isOk_map, isOk_floatOfInt_two_pow]

/-- A delay returns if its power has a double or is not formed at all. -/
theorem isOk_delay (attempt : ℕ) (r : Float) :
    (p.delay attempt r).isOk = true ↔ attempt < 1024 ∨ p.maxAttempts ≤ attempt := by
  unfold delay
  split
  · rename_i hmax
    exact ⟨fun _ => .inr hmax, fun _ => rfl⟩
  · rename_i hmax
    rw [isOk_map, isOk_capped, decide_eq_true_iff]
    exact ⟨.inl, fun h => h.resolve_right hmax⟩

/-- The window returns if the powers of all attempts have doubles. -/
theorem isOk_maxTotalWindow : p.maxTotalWindow.isOk = true ↔ p.maxAttempts ≤ 1024 := by
  have hloop : p.maxTotalWindow.isOk =
      (List.range p.maxAttempts.toNat).all fun i => decide (i < 1024) := by
    refine isOk_foldlM (fun total i => ?_) _ _
    rw [isOk_map, isOk_capped]
  rw [hloop, List.all_eq_true]
  simp only [List.mem_range, decide_eq_true_iff]
  constructor
  · intro h
    by_contra hmax
    exact absurd (h 1024 (by omega)) (by decide)
  · intro h i hi
    omega

/-- **Backoff returns exactly for budgets of at most 1024 attempts.** A delay taken by itself returns
exactly if its attempt is below 1024 or the budget is exhausted. Neither the seconds nor the draw
matter. -/
theorem returns_iff (p : FloatPolicy) (attempt : ℕ) (r : Float) :
    ((p.delay attempt r).isOk = true ∧ p.maxTotalWindow.isOk = true ↔ p.maxAttempts ≤ 1024) ∧
    ((p.delay attempt r).isOk = true ↔ attempt < 1024 ∨ p.maxAttempts ≤ attempt) := by
  have hdelay : (p.delay attempt r).isOk = true ↔ attempt < 1024 ∨ p.maxAttempts ≤ attempt :=
    p.isOk_delay attempt r
  have hwindow : p.maxTotalWindow.isOk = true ↔ p.maxAttempts ≤ 1024 := p.isOk_maxTotalWindow
  refine ⟨⟨fun h => hwindow.mp h.2, fun h => ⟨hdelay.mpr ?_, hwindow.mpr h⟩⟩, hdelay⟩
  omega

/-- The last of 1025 attempts, with the seconds of the default policy: `2**1024` has no double. -/
theorem not_returns : ¬ ∀ (p : FloatPolicy) (attempt : ℕ) (r : Float),
    p.baseSeconds.isFinite = true → p.capSeconds.isFinite = true →
      (p.delay attempt r).isOk = true ∧ p.maxTotalWindow.isOk = true := by
  intro h
  have hlast := (h { maxAttempts := 1025 } 1024 0 (by decide) (by decide)).1
  rw [isOk_delay] at hlast
  rcases hlast with hlt | hle
  · exact absurd hlt (by decide)
  · exact absurd hle (by decide)

end FloatPolicy

end RelayQ

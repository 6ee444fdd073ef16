import RelayQ.Api.CircuitBreaker
import Mathlib.Data.List.Dedup
import Mathlib.Data.List.Induction
import Mathlib.Tactic.Linarith

/-! # What a breaker counts

A failure is a member of a sorted set, and the member is its time. So failures at the same time are
one member, and a breaker counts times and not failures.

* `CircuitBreaker.after`: the keys after a list of whole calls.
* `CircuitBreaker.mem_failures_after`: the failures the breaker still has.
* `CircuitBreaker.maybeTrip_iff`: when `maybe_trip` returns True.
* `CircuitBreaker.countsRight_iff`: when this is what the failures call for. -/

namespace RelayQ

/-- The times of the failures recorded since the last reset, in order. -/
def failureTimes (calls : List (ℚ × BreakerCall)) : List ℚ :=
  calls.foldl (fun times c => match c.2 with
    | .recordFailure => times ++ [c.1]
    | .reset => []
    | .isOpen | .maybeTrip => times) []

section FailureTimes

variable (calls : List (ℚ × BreakerCall)) (now : ℚ)

/-- A failure adds its time. -/
@[simp] theorem failureTimes_recordFailure :
    failureTimes (calls ++ [(now, .recordFailure)]) = failureTimes calls ++ [now] := by
  simp [failureTimes]

/-- A reset forgets them. -/
@[simp] theorem failureTimes_reset : failureTimes (calls ++ [(now, .reset)]) = [] := by
  simp [failureTimes]

/-- A question adds none. -/
@[simp] theorem failureTimes_isOpen :
    failureTimes (calls ++ [(now, .isOpen)]) = failureTimes calls := by
  simp [failureTimes]

/-- Nor does an attempt to trip. -/
@[simp] theorem failureTimes_maybeTrip :
    failureTimes (calls ++ [(now, .maybeTrip)]) = failureTimes calls := by
  simp [failureTimes]

/-- A failure is recorded by a call at its time. -/
theorem mem_times_of_mem_failureTimes {x : ℚ} (hx : x ∈ failureTimes calls) :
    x ∈ calls.map Prod.fst := by
  induction calls using List.reverseRecOn with
  | nil => cases hx
  | append_singleton calls c ih =>
    obtain ⟨now, c⟩ := c
    rw [List.map_append, List.mem_append]
    cases c with
    | recordFailure =>
      rw [failureTimes_recordFailure, List.mem_append] at hx
      exact hx.imp ih id
    | reset => simp at hx
    | isOpen => exact .inl (ih (by simpa using hx))
    | maybeTrip => exact .inl (ih (by simpa using hx))

end FailureTimes

namespace CircuitBreaker

variable (b : CircuitBreaker)

/-- The keys a list of whole calls leaves, each made at its time. -/
def after (keys : BreakerKeys) (calls : List (ℚ × BreakerCall)) : BreakerKeys :=
  calls.foldl (fun keys c => (b.call keys c.1 c.2).1) keys

/-- No call changes nothing. -/
@[simp] theorem after_nil (keys : BreakerKeys) : b.after keys [] = keys := rfl

/-- The last call is made on what the others left. -/
@[simp] theorem after_concat (keys : BreakerKeys) (calls : List (ℚ × BreakerCall))
    (c : ℚ × BreakerCall) :
    b.after keys (calls ++ [c]) = (b.call (b.after keys calls) c.1 c.2).1 := by
  simp [after]

/-- Looking leaves the failures. -/
theorem failures_isOpen (keys : BreakerKeys) (now : ℚ) :
    (b.call keys now .isOpen).1.failures = keys.failures := by
  rw [call_isOpen]
  split <;> rfl

/-- Tripping leaves the failures. -/
theorem failures_maybeTrip (keys : BreakerKeys) (now : ℚ) :
    (b.call keys now .maybeTrip).1.failures = keys.failures := by
  rw [call_maybeTrip]
  split <;> rfl

/-- No call is made before an earlier one. -/
def Ordered (calls : List (ℚ × BreakerCall)) : Prop := (calls.map Prod.fst).Pairwise (· ≤ ·)

variable {b} {calls : List (ℚ × BreakerCall)} {now : ℚ}

/-- The calls before the last were in order. -/
theorem Ordered.init {c : ℚ × BreakerCall} (h : Ordered (calls ++ [c])) : Ordered calls := by
  rw [Ordered, List.map_append] at h
  exact (List.pairwise_append.mp h).1

/-- All failures so far are at most as late as the next call. -/
theorem Ordered.le_of_mem {c : ℚ × BreakerCall} (h : Ordered (calls ++ [c])) {x : ℚ}
    (hx : x ∈ failureTimes calls) : x ≤ c.1 := by
  rw [Ordered, List.map_append] at h
  exact (List.pairwise_append.mp h).2.2 x (mem_times_of_mem_failureTimes calls hx) c.1 (by simp)

/-- **What the breaker still has of the failures**: their times, as far as no failure recorded since
was recorded a window later or more. -/
theorem mem_failures_after (h : Ordered calls) {e : ℚ × ℚ} :
    e ∈ (b.after {} calls).failures ↔
      e.2 = e.1 ∧ e.1 ∈ failureTimes calls ∧ ∀ y ∈ failureTimes calls, y - b.window < e.1 := by
  induction calls using List.reverseRecOn with
  | nil => simp [failureTimes, after]
  | append_singleton calls c ih =>
    have ih := ih h.init
    have hle := fun {x} => h.le_of_mem (x := x)
    obtain ⟨now, c⟩ := c
    rw [after_concat]
    cases c with
    | recordFailure =>
      obtain ⟨x, score⟩ := e
      rw [call_recordFailure, failureTimes_recordFailure]
      simp only [Redis.SortedSet.mem_zremrangebyscore, Redis.SortedSet.mem_zadd, ih, bot_le,
        true_and, not_le, Prod.mk.injEq, List.mem_append, List.mem_singleton]
      constructor
      · rintro ⟨⟨rfl, rfl⟩ | ⟨⟨rfl, hx, hkept⟩, -⟩, hrecent⟩
        · -- the new failure: whatever came before is at most as late
          refine ⟨rfl, .inr rfl, ?_⟩
          rintro y (hy | rfl)
          · have hle := hle hy
            linarith
          · exact hrecent
        · refine ⟨rfl, .inl hx, ?_⟩
          rintro y (hy | rfl)
          · exact hkept y hy
          · exact hrecent
      · rintro ⟨rfl, hx, hkept⟩
        have hrecent : now - b.window < score := hkept now (.inr rfl)
        by_cases hnew : score = now
        · exact ⟨.inl ⟨hnew, hnew⟩, hrecent⟩
        · have hx : score ∈ failureTimes calls := hx.resolve_right hnew
          exact ⟨.inr ⟨⟨rfl, hx, fun y hy => hkept y (.inl hy)⟩, hnew⟩, hrecent⟩
    | reset => simp [call_reset]
    | isOpen => rw [failures_isOpen, failureTimes_isOpen, ih]
    | maybeTrip => rw [failures_maybeTrip, failureTimes_maybeTrip, ih]

variable (b) in
/-- The different times of the failures that a breaker with a window counts at a time: those in the
window, as far as no later failure has removed them. -/
def counted (times : List ℚ) (now : ℚ) : List ℚ :=
  (times.filter fun x => now - b.window ≤ x ∧ ∀ y ∈ times, y - b.window < x).dedup

/-- **`maybe_trip` counts times.** -/
theorem maybeTrip_iff (h : Ordered (calls ++ [(now, .maybeTrip)])) :
    (b.call (b.after {} calls) now .maybeTrip).2 = some true ↔
      b.failureThreshold ≤ (b.counted (failureTimes calls) now).length := by
  have hcount : (b.after {} calls).failures.zcount (now - b.window) now =
      (b.counted (failureTimes calls) now).length := by
    refine Redis.SortedSet.zcount_eq_length (List.nodup_dedup _) fun x => ?_
    simp only [counted, List.mem_dedup, List.mem_filter, decide_eq_true_eq,
      mem_failures_after h.init]
    constructor
    · rintro ⟨hx, hwindow, hkept⟩
      exact ⟨x, ⟨rfl, hx, hkept⟩, hwindow, h.le_of_mem hx⟩
    · rintro ⟨score, ⟨hscore, hx, hkept⟩, hwindow, -⟩
      obtain rfl : score = x := hscore
      exact ⟨hx, hwindow, hkept⟩
  rw [call_maybeTrip, hcount]
  by_cases hle : b.failureThreshold ≤ ((b.counted (failureTimes calls) now).length : ℤ)
  · simp [hle]
  · simp [hle]

variable (b) in
/-- `maybe_trip` does what the failures since the last reset call for: it trips when enough of them
are later than the start of the window, and not when too few are at its start or later. -/
def CountsRight (calls : List (ℚ × BreakerCall)) (now : ℚ) : Prop :=
  (b.failureThreshold ≤ (failureTimes calls).countP (now - b.window < ·) →
    (b.call (b.after {} calls) now .maybeTrip).2 = some true) ∧
  ((failureTimes calls).countP (now - b.window ≤ ·) < b.failureThreshold →
    (b.call (b.after {} calls) now .maybeTrip).2 ≠ some true)

/-- The breaker never counts more than there is. -/
theorem length_counted_le (times : List ℚ) (now : ℚ) :
    (b.counted times now).length ≤ times.countP (now - b.window ≤ ·) := by
  rw [List.countP_eq_length_filter]
  refine ((List.dedup_sublist _).length_le).trans (List.Sublist.length_le ?_)
  exact List.monotone_filter_right times fun x hx => by
    simp only [decide_eq_true_eq] at hx ⊢
    exact hx.1

/-- **A breaker counts right exactly if enough failures have enough times.** After any whole calls,
one after the other, `maybe_trip` does what the failures call for if and only if fewer of them than the
threshold are later than the start of the window, or those it counts have at least as many different
times. It never trips for too few. -/
theorem countsRight_iff (b : CircuitBreaker) {calls : List (ℚ × BreakerCall)} {now : ℚ}
    (h : Ordered (calls ++ [(now, .maybeTrip)])) :
    b.CountsRight calls now ↔
      ((failureTimes calls).countP (now - b.window < ·) < b.failureThreshold ∨
        b.failureThreshold ≤ (b.counted (failureTimes calls) now).length) := by
  rw [CountsRight, Ne, maybeTrip_iff h]
  have hle : ((b.counted (failureTimes calls) now).length : ℤ) ≤
      (failureTimes calls).countP (now - b.window ≤ ·) := by
    exact_mod_cast length_counted_le _ _
  constructor
  · rintro ⟨htrips, -⟩
    rcases lt_or_ge ((failureTimes calls).countP (now - b.window < ·) : ℤ) b.failureThreshold with
      hfew | henough
    · exact .inl hfew
    · exact .inr (htrips henough)
  · intro hor
    exact ⟨fun henough => hor.resolve_left (not_lt.mpr henough), by omega⟩

/-- Two failures, one after the other, with a threshold of two. -/
theorem countsRight_two :
    Ordered ([(0, .recordFailure), (1, .recordFailure)] ++ [(1, .maybeTrip)]) ∧
      (⟨2, 60, 30⟩ : CircuitBreaker).CountsRight [(0, .recordFailure), (1, .recordFailure)] 1 := by
  have hordered : Ordered ([(0, .recordFailure), (1, .recordFailure)] ++ [(1, .maybeTrip)]) := by
    simp [Ordered]
  exact ⟨hordered, (countsRight_iff ⟨2, 60, 30⟩ hordered).mpr (.inr (by decide +kernel))⟩

/-- Two failures at the same time. -/
theorem not_countsRight : ¬ ∀ (b : CircuitBreaker) (calls : List (ℚ × BreakerCall)) (now : ℚ),
    Ordered (calls ++ [(now, .maybeTrip)]) → b.CountsRight calls now := by
  intro h
  have hordered : Ordered ([(0, .recordFailure), (0, .recordFailure)] ++ [(0, .maybeTrip)]) := by
    simp [Ordered]
  have htrips := (h ⟨2, 60, 30⟩ _ _ hordered).1 (by decide +kernel)
  rw [maybeTrip_iff hordered] at htrips
  exact absurd htrips (by decide +kernel)

end CircuitBreaker

end RelayQ

import RelayQ.Guarantees.FailureWindow

/-! # The half-open breaker

A half-open breaker answers False to everybody, and leaves that state only when `maybe_trip` finds
enough failures in its window. A failed probe is one failure among those, and not enough by itself.

* `CircuitBreaker.OneProbe`, `CircuitBreaker.Reopens`: what a half-open breaker is to do.
* `CircuitBreaker.oneProbe_iff`, `CircuitBreaker.reopens_iff`: when it does so.
* `CircuitBreaker.halfOpen_iff`: both together. -/

namespace RelayQ

namespace CircuitBreaker

variable (b : CircuitBreaker)

/-- The calls with what they return, made one after the other. -/
def results (keys : BreakerKeys) : List (ℚ × BreakerCall) → List (BreakerCall × Option Bool)
  | [] => []
  | c :: cs =>
    let r := b.call keys c.1 c.2
    (c.2, r.2) :: results r.1 cs

/-- The state after some calls of a new breaker. -/
def stateAfter (calls : List (ℚ × BreakerCall)) : Option BreakerMode := (b.after {} calls).state

/-- No call resets the breaker, and no `maybe_trip` returns True. -/
def Calm (rs : List (BreakerCall × Option Bool)) : Prop :=
  ∀ r ∈ rs, r.1 ≠ .reset ∧ r ≠ (.maybeTrip, some true)

/-- From an `is_open` on that moves the breaker to half-open, and as long as it is neither tripped nor
reset, at most one `is_open` returns False. -/
def OneProbe (calls : List (ℚ × BreakerCall)) : Prop :=
  ∀ pre now seg post, calls = pre ++ (now, .isOpen) :: (seg ++ post) →
    b.stateAfter pre ≠ some .halfOpen → b.stateAfter (pre ++ [(now, .isOpen)]) = some .halfOpen →
    Calm (b.results (b.after {} pre) ((now, .isOpen) :: seg)) →
    (b.results (b.after {} pre) ((now, .isOpen) :: seg)).count (.isOpen, some false) ≤ 1

/-- A failure was recorded while the breaker was half-open, and it has been so since. -/
def ProbeFailed (calls : List (ℚ × BreakerCall)) : Prop :=
  ∃ pre now seg, calls = pre ++ (now, .recordFailure) :: seg ∧
    ∀ seg₁ seg₂, seg = seg₁ ++ seg₂ →
      b.stateAfter (pre ++ (now, .recordFailure) :: seg₁) = some .halfOpen

/-- A `maybe_trip` after a failed probe opens the breaker again. -/
def Reopens (calls : List (ℚ × BreakerCall)) : Prop :=
  ∀ pre now post, calls = pre ++ (now, .maybeTrip) :: post → b.ProbeFailed pre →
    b.stateAfter (pre ++ [(now, .maybeTrip)]) = some .opened

variable {b} {keys : BreakerKeys} {calls : List (ℚ × BreakerCall)} {now : ℚ}

/-! ## Single calls -/

/-- The results of calls are those of the first and those of the others. -/
theorem results_append (cs ds : List (ℚ × BreakerCall)) :
    b.results keys (cs ++ ds) = b.results keys cs ++ b.results (b.after keys cs) ds := by
  induction cs generalizing keys with
  | nil => rfl
  | cons c cs ih => simpa [results, after] using @ih (b.call keys c.1 c.2).1

/-- Only an `is_open` moves a breaker to half-open, and it returns False. -/
theorem eq_isOpen_of_moves {c : BreakerCall} (hbefore : keys.state ≠ some .halfOpen)
    (hafter : (b.call keys now c).1.state = some .halfOpen) :
    c = .isOpen ∧ (b.call keys now c).2 = some false := by
  cases c with
  | recordFailure => exact absurd hafter hbefore
  | reset => cases hafter
  | isOpen =>
    rw [call_isOpen] at hafter ⊢
    by_cases haged : b.Aged keys now
    · rw [if_pos haged]
      exact ⟨rfl, rfl⟩
    · rw [if_neg haged] at hafter
      exact absurd hafter hbefore
  | maybeTrip =>
    rw [call_maybeTrip] at hafter
    split at hafter
    · cases hafter
    · exact absurd hafter hbefore

/-- A half-open breaker stays so while it is neither tripped nor reset. -/
theorem state_call_of_calm {c : BreakerCall} (hstate : keys.state = some .halfOpen)
    (hcalm : Calm [(c, (b.call keys now c).2)]) :
    (b.call keys now c).1.state = some .halfOpen := by
  obtain ⟨hreset, htrip⟩ := hcalm _ (List.mem_singleton.mpr rfl)
  cases c with
  | recordFailure => exact hstate
  | reset => exact absurd rfl hreset
  | isOpen =>
    rw [call_isOpen]
    split
    · rfl
    · exact hstate
  | maybeTrip =>
    rw [call_maybeTrip] at htrip ⊢
    split
    · rename_i hcount
      simp [hcount] at htrip
    · exact hstate

/-- A call that leaves the breaker half-open has neither tripped nor reset it. -/
theorem calm_of_state {c : BreakerCall}
    (hafter : (b.call keys now c).1.state = some .halfOpen) :
    Calm [(c, (b.call keys now c).2)] := by
  intro r hr
  obtain rfl := List.mem_singleton.mp hr
  cases c with
  | recordFailure | isOpen => simp
  | reset => cases hafter
  | maybeTrip =>
    rw [call_maybeTrip] at hafter ⊢
    refine ⟨by simp, fun htrip => ?_⟩
    split at htrip
    · rename_i hcount
      rw [if_pos hcount] at hafter
      cases hafter
    · cases htrip

/-- An `is_open` of a half-open breaker returns False. -/
theorem isOpen_halfOpen (hstate : keys.state = some .halfOpen) :
    (b.call keys now .isOpen).2 = some false := by
  simp [call_isOpen, Aged, hstate]

/-! ## At most one probe -/

/-- A breaker is half-open because an `is_open` moved it there, with nothing since to move it away. -/
theorem exists_move (hstate : b.stateAfter calls = some .halfOpen) :
    ∃ pre now seg, calls = pre ++ (now, .isOpen) :: seg ∧ b.stateAfter pre ≠ some .halfOpen ∧
      b.stateAfter (pre ++ [(now, .isOpen)]) = some .halfOpen ∧
      Calm (b.results (b.after {} pre) ((now, .isOpen) :: seg)) := by
  induction calls using List.reverseRecOn with
  | nil => cases hstate
  | append_singleton calls c ih =>
    obtain ⟨now, c⟩ := c
    have hafter : (b.call (b.after {} calls) now c).1.state = some .halfOpen := by
      rwa [stateAfter, after_concat] at hstate
    by_cases hbefore : b.stateAfter calls = some .halfOpen
    · -- the breaker has been half-open before this call, and the call has not moved it
      obtain ⟨pre, now', seg, rfl, hpre, hmove, hcalm⟩ := ih hbefore
      refine ⟨pre, now', seg ++ [(now, c)], by simp, hpre, hmove, ?_⟩
      rw [← List.cons_append, results_append]
      intro r hr
      rcases List.mem_append.mp hr with hr | hr
      · exact hcalm r hr
      · have hlast : Calm [(c, (b.call (b.after {} (pre ++ (now', .isOpen) :: seg)) now c).2)] :=
          calm_of_state hafter
        rw [after, List.foldl_append] at hlast
        exact hlast r hr
    · obtain ⟨rfl, -⟩ := eq_isOpen_of_moves hbefore hafter
      exact ⟨calls, now, [], rfl, hbefore, hstate, calm_of_state hafter⟩

/-- Nobody who asks a half-open breaker, nobody who gets a probe. -/
theorem count_results_eq_zero {seg : List (ℚ × BreakerCall)} (hstate : keys.state = some .halfOpen)
    (hcalm : Calm (b.results keys seg))
    (hnone : ∀ seg₁ now seg₂, seg = seg₁ ++ (now, .isOpen) :: seg₂ →
      (b.after keys seg₁).state ≠ some .halfOpen) :
    (b.results keys seg).count (.isOpen, some false) = 0 := by
  induction seg generalizing keys with
  | nil => rfl
  | cons c seg ih =>
    obtain ⟨now, c⟩ := c
    have hc : c ≠ .isOpen := by
      rintro rfl
      exact hnone [] now seg rfl hstate
    have hstate' : (b.call keys now c).1.state = some .halfOpen :=
      state_call_of_calm hstate fun r hr => hcalm r (by
        obtain rfl := List.mem_singleton.mp hr
        simp [results])
    have hrest := ih hstate' (fun r hr => hcalm r (List.mem_cons_of_mem _ hr))
      fun seg₁ now' seg₂ hseg => by
        have hne := hnone ((now, c) :: seg₁) now' seg₂ (by rw [hseg, List.cons_append])
        rwa [after, List.foldl_cons] at hne
    rw [results, List.count_cons_of_ne (by simp [hc])]
    exact hrest

/-- **One probe exactly if nobody else asks.** -/
theorem oneProbe_iff : b.OneProbe calls ↔
    ∀ pre now post, calls = pre ++ (now, .isOpen) :: post →
      b.stateAfter pre ≠ some .halfOpen := by
  constructor
  · rintro hone asked now post rfl hstate
    -- the call that moved the breaker returned False, and so does this one
    obtain ⟨pre, now', seg, rfl, hpre, hmove, hcalm⟩ := exists_move hstate
    have hfirst : (b.call (b.after {} pre) now' .isOpen).2 = some false :=
      (eq_isOpen_of_moves hpre (by rwa [stateAfter, after_concat] at hmove)).2
    have hkeys : b.after (b.after {} pre) ((now', .isOpen) :: seg) =
        b.after {} (pre ++ (now', .isOpen) :: seg) := by
      simp [after]
    have hlast : (b.call (b.after (b.after {} pre) ((now', .isOpen) :: seg)) now .isOpen).2 =
        some false := isOpen_halfOpen (hkeys ▸ hstate)
    have hresults : b.results (b.after {} pre) ((now', .isOpen) :: (seg ++ [(now, .isOpen)])) =
        b.results (b.after {} pre) ((now', .isOpen) :: seg) ++ [(.isOpen, some false)] := by
      rw [← List.cons_append, results_append]
      simp [results, hlast]
    have hle := hone pre now' (seg ++ [(now, .isOpen)]) post (by simp) hpre hmove (by
      rw [hresults]
      intro r hr
      rcases List.mem_append.mp hr with hr | hr
      · exact hcalm r hr
      · obtain rfl := List.mem_singleton.mp hr
        simp)
    rw [hresults, List.count_append, results, hfirst] at hle
    simp at hle
  · rintro hnone pre now seg post rfl hpre hmove hcalm
    have hmove' : (b.call (b.after {} pre) now .isOpen).1.state = some .halfOpen := by
      rwa [stateAfter, after_concat] at hmove
    have hrest : (b.results (b.call (b.after {} pre) now .isOpen).1 seg).count (.isOpen, some false) =
        0 := by
      refine count_results_eq_zero hmove' (fun r hr => hcalm r (List.mem_cons_of_mem _ hr)) ?_
      rintro seg₁ now' seg₂ rfl
      have hne := hnone (pre ++ (now, .isOpen) :: seg₁) now' (seg₂ ++ post) (by simp)
      rwa [stateAfter, after, List.foldl_append] at hne
    rw [results, List.count_cons, hrest]
    split <;> omega

/-! ## A failed probe -/

/-- The calls up to one among them were in order. -/
theorem Ordered.of_append {pre post : List (ℚ × BreakerCall)} {c : ℚ × BreakerCall}
    (h : Ordered (pre ++ c :: post)) : Ordered (pre ++ [c]) := by
  rw [Ordered] at h ⊢
  exact h.sublist (((List.prefix_append _ _).sublist.append_left _).map _)

/-- **A failed probe opens the breaker exactly if enough failures are counted.** -/
theorem reopens_iff (h : Ordered calls) : b.Reopens calls ↔
    ∀ pre now post, calls = pre ++ (now, .maybeTrip) :: post → b.ProbeFailed pre →
      b.failureThreshold ≤ (b.counted (failureTimes pre) now).length := by
  refine forall_congr' fun pre => forall_congr' fun now => forall_congr' fun post =>
    forall_congr' fun hcalls => forall_congr' fun hfailed => ?_
  subst hcalls
  have hstate : (b.after {} pre).state = some .halfOpen := by
    obtain ⟨pre, now', seg, rfl, hhalf⟩ := hfailed
    exact hhalf seg [] (by simp)
  rw [← maybeTrip_iff h.of_append, stateAfter, after_concat, call_maybeTrip]
  split
  · simp
  · simp [hstate]

/-- What a half-open breaker is to do. -/
structure HalfOpenRule (b : CircuitBreaker) (calls : List (ℚ × BreakerCall)) : Prop where
  oneProbe : b.OneProbe calls
  reopens : b.Reopens calls

/-- **The half-open rule holds exactly if the callers keep it themselves and enough failures are
recent.** For any whole calls of a new breaker in the order of their times: the rule holds if and only
if nobody calls `is_open` while the breaker is half-open, and every `maybe_trip` after a failed probe
finds as many different times of failures in the window as the threshold. -/
theorem halfOpen_iff (b : CircuitBreaker) {calls : List (ℚ × BreakerCall)} (h : Ordered calls) :
    b.HalfOpenRule calls ↔
      (∀ pre now post, calls = pre ++ (now, .isOpen) :: post →
        b.stateAfter pre ≠ some .halfOpen) ∧
      ∀ pre now post, calls = pre ++ (now, .maybeTrip) :: post → b.ProbeFailed pre →
        b.failureThreshold ≤ (b.counted (failureTimes pre) now).length := by
  rw [← oneProbe_iff, ← reopens_iff h]
  exact ⟨fun hrule => ⟨hrule.oneProbe, hrule.reopens⟩, fun ⟨hone, hre⟩ => ⟨hone, hre⟩⟩

/-- A breaker that trips at the first failure, and one `is_open` after it has become half-open. -/
theorem halfOpen_probed :
    Ordered [(0, .recordFailure), (0, .maybeTrip), (31, .isOpen)] ∧
      (⟨1, 60, 30⟩ : CircuitBreaker).HalfOpenRule
        [(0, .recordFailure), (0, .maybeTrip), (31, .isOpen)] := by
  have hordered : Ordered [(0, .recordFailure), (0, .maybeTrip), (31, .isOpen)] := by
    simp [Ordered]
  refine ⟨hordered, (halfOpen_iff ⟨1, 60, 30⟩ hordered).mpr ⟨?_, ?_⟩⟩
  · intro pre now post h
    obtain rfl : pre = [(0, .recordFailure), (0, .maybeTrip)] := by
      simp_all [List.cons_eq_append_iff]
    decide +kernel
  · intro pre now post h hfailed
    obtain ⟨rfl, rfl⟩ : pre = [(0, .recordFailure)] ∧ now = 0 := by
      simp_all [List.cons_eq_append_iff]
    decide +kernel

/-- Two requests ask a half-open breaker, and both go through. With a threshold of two, a failed probe
leaves the breaker half-open when the failures that tripped it are over a window old. -/
theorem not_halfOpenRule :
    (¬ ∀ (b : CircuitBreaker) (calls : List (ℚ × BreakerCall)), 0 < b.failureThreshold →
      0 < b.window → 0 < b.halfOpenAfter → Ordered calls → b.OneProbe calls) ∧
    ¬ ∀ (b : CircuitBreaker) (calls : List (ℚ × BreakerCall)), 0 < b.failureThreshold →
      0 < b.window → 0 < b.halfOpenAfter → Ordered calls → b.Reopens calls := by
  constructor
  · intro h
    have hone := h ⟨1, 60, 30⟩ [(0, .recordFailure), (0, .maybeTrip), (31, .isOpen), (31, .isOpen)]
      (by decide) (by decide) (by decide) (by simp [Ordered])
    exact oneProbe_iff.mp hone [(0, .recordFailure), (0, .maybeTrip), (31, .isOpen)] 31 [] rfl
      (by decide +kernel)
  · intro h
    have hordered : Ordered [(0, .recordFailure), (1, .recordFailure), (1, .maybeTrip),
        (32, .isOpen), (100, .recordFailure), (100, .maybeTrip)] := by
      norm_num [Ordered]
    have hre := h ⟨2, 60, 30⟩ _ (by decide) (by decide) (by decide) hordered
    have hcount := (reopens_iff hordered).mp hre [(0, .recordFailure), (1, .recordFailure),
      (1, .maybeTrip), (32, .isOpen), (100, .recordFailure)] 100 [] rfl
      ⟨[(0, .recordFailure), (1, .recordFailure), (1, .maybeTrip), (32, .isOpen)], 100, [], rfl, by
        intro seg₁ seg₂ hseg
        obtain ⟨rfl, rfl⟩ := List.append_eq_nil_iff.mp hseg.symm
        decide +kernel⟩
    exact absurd hcount (by decide +kernel)

end CircuitBreaker

end RelayQ

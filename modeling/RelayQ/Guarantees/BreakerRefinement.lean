import RelayQ.Abstract.Cutout
import RelayQ.Guarantees.HalfOpen

/-! # A breaker is a cutout

A breaker has three states, a cutout blocks or does not. Half-open answers what an old trip answers, and
with times that do not go back an old trip stays old: nobody who calls the methods can tell a half-open
breaker from an open one whose time is up.

* `CircuitBreaker.cutout`, `BreakerCall.event`: the cutout a breaker is.
* `CircuitBreaker.Simulates`: the keys against what the cutout keeps.
* `CircuitBreaker.refines_cutout`: the same replies.
* `CircuitBreaker.isOpen_iff`: when `is_open` returns True.
* `CircuitBreaker.call_filter_isOpen`: calls of `is_open` are not noticed. -/

namespace RelayQ

/-! ## Breakers as cutouts -/

/-- What a call of a method is to a cutout. -/
def BreakerCall.event : BreakerCall → Cutout.Event
  | .recordFailure => .fault
  | .isOpen => .ask
  | .maybeTrip => .test
  | .reset => .clear

/-- Calls of the methods as events. -/
def events (calls : List (ℚ × BreakerCall)) : List (ℚ × Cutout.Event) :=
  calls.map fun c => (c.1, c.2.event)

/-- One more call is one more event. -/
@[simp] theorem events_concat (calls : List (ℚ × BreakerCall)) (c : ℚ × BreakerCall) :
    events (calls ++ [c]) = events calls ++ [(c.1, c.2.event)] := by
  simp [events]

namespace CircuitBreaker

/-- The cutout a breaker is. -/
def cutout (b : CircuitBreaker) : Cutout ℚ := ⟨b.failureThreshold, b.window, b.halfOpenAfter⟩

variable {b : CircuitBreaker} {calls : List (ℚ × BreakerCall)} {keys : BreakerKeys}
  {s : Cutout.State ℚ} {now t : ℚ}

/-- The faults are the failures since the last reset. -/
theorem faults_after_events : (b.cutout.after {} (events calls)).faults = failureTimes calls := by
  induction calls using List.reverseRecOn with
  | nil => rfl
  | append_singleton calls c ih =>
    obtain ⟨now, c⟩ := c
    rw [events_concat, Cutout.after_concat]
    cases c with
    | recordFailure => simp [BreakerCall.event, Cutout.step, ih]
    | isOpen => simp [BreakerCall.event, Cutout.step, ih]
    | maybeTrip =>
      rw [failureTimes_maybeTrip, ← ih, BreakerCall.event, Cutout.step]
      split <;> rfl
    | reset => simp [BreakerCall.event, Cutout.step]

/-- `maybe_trip` trips when a test does. -/
theorem maybeTrip_iff_trips (h : Ordered (calls ++ [(now, .maybeTrip)])) :
    (b.call (b.after {} calls) now .maybeTrip).2 = some true ↔
      b.cutout.trips (b.cutout.after {} (events calls)) now = true := by
  rw [maybeTrip_iff h, Cutout.trips, decide_eq_true_iff, faults_after_events]
  rfl

/-! ## The simulation -/

/-- The keys against what the cutout keeps, at any time from `now` on: half-open is an old trip. -/
inductive Simulates (b : CircuitBreaker) (now : ℚ) : BreakerKeys → Cutout.State ℚ → Prop
  | new {keys : BreakerKeys} {s : Cutout.State ℚ} :
      keys.state = none → s.trippedAt = none → Simulates b now keys s
  | opened {keys : BreakerKeys} {s : Cutout.State ℚ} {t : ℚ} :
      keys.state = some .opened → keys.lastFailure = some t →
      s.trippedAt = some t → Simulates b now keys s
  | halfOpen {keys : BreakerKeys} {s : Cutout.State ℚ} {t : ℚ} :
      keys.state = some .halfOpen → s.trippedAt = some t →
      b.halfOpenAfter < now - t → Simulates b now keys s

namespace Simulates

/-- Time passes. -/
theorem mono (h : b.Simulates now keys s) (hle : now ≤ t) : b.Simulates t keys s := by
  cases h with
  | new hstate htripped => exact .new hstate htripped
  | opened hstate hlast htripped => exact .opened hstate hlast htripped
  | halfOpen hstate htripped hold => exact .halfOpen hstate htripped (by linarith)

/-- Whatever the failures are. -/
theorem failures (h : b.Simulates now keys s) {failures : Redis.SortedSet ℚ} {faults : List ℚ} :
    b.Simulates now { keys with failures := failures } { s with faults := faults } := by
  cases h with
  | new hstate htripped => exact .new hstate htripped
  | opened hstate hlast htripped => exact .opened hstate hlast htripped
  | halfOpen hstate htripped hold => exact .halfOpen hstate htripped hold

/-- A tripped breaker blocks until its time is up. -/
theorem blocks_of_tripped (h : s.trippedAt = some t) :
    b.cutout.blocks s now = decide (now - t ≤ b.halfOpenAfter) :=
  Cutout.blocks_of_tripped h

/-- `is_open` answers whether the cutout blocks, and the cutout does not notice. -/
theorem isOpen (h : b.Simulates now keys s) :
    b.Simulates now (b.call keys now .isOpen).1 s ∧
      (b.call keys now .isOpen).2 = some (b.cutout.blocks s now) := by
  rw [call_isOpen]
  cases h with
  | new hstate htripped =>
    have haged : ¬ b.Aged keys now := fun haged => by simp [Aged, hstate] at haged
    rw [if_neg haged, hstate, Cutout.blocks_of_not_tripped htripped]
    exact ⟨.new hstate htripped, rfl⟩
  | opened hstate hlast htripped =>
    rename_i t
    have haged : b.Aged keys now ↔ b.halfOpenAfter < now - t := by
      simp [Aged, hstate, hlast]
    rw [blocks_of_tripped htripped]
    by_cases hold : b.halfOpenAfter < now - t
    · rw [if_pos (haged.mpr hold), decide_eq_false (not_le.mpr hold)]
      exact ⟨.halfOpen rfl htripped hold, rfl⟩
    · rw [if_neg (mt haged.mp hold), hstate, decide_eq_true (not_lt.mp hold)]
      exact ⟨.opened hstate hlast htripped, rfl⟩
  | halfOpen hstate htripped hold =>
    have haged : ¬ b.Aged keys now := fun haged => by simp [Aged, hstate] at haged
    rw [if_neg haged, hstate, blocks_of_tripped htripped,
      decide_eq_false (not_le.mpr hold)]
    exact ⟨.halfOpen hstate htripped hold, rfl⟩

end Simulates

/-- **One call.** After calls made one after the other, the keys of the breaker are those of the cutout,
and the next call gets the reply of the cutout. -/
theorem simulates_call {c : BreakerCall} (h : Ordered (calls ++ [(now, c)]))
    (hsim : b.Simulates now (b.after {} calls) (b.cutout.after {} (events calls))) :
    b.Simulates now (b.call (b.after {} calls) now c).1
        (b.cutout.step (b.cutout.after {} (events calls)) now c.event).1 ∧
      (b.call (b.after {} calls) now c).2 =
        (b.cutout.step (b.cutout.after {} (events calls)) now c.event).2 := by
  cases c with
  | recordFailure => exact ⟨hsim.failures, rfl⟩
  | isOpen => exact hsim.isOpen
  | reset => exact ⟨.new rfl rfl, rfl⟩
  | maybeTrip =>
    have htrips := maybeTrip_iff_trips (b := b) h
    rw [call_maybeTrip] at htrips ⊢
    by_cases hcount : b.failureThreshold ≤
        ((b.after {} calls).failures.zcount (now - b.window) now : ℤ)
    · rw [if_pos hcount] at htrips ⊢
      simp only [BreakerCall.event, Cutout.step, htrips.mp rfl, if_true]
      exact ⟨.opened rfl rfl rfl, trivial⟩
    · rw [if_neg hcount] at htrips ⊢
      have hnot := Bool.eq_false_iff.mpr (mt htrips.mpr (by simp))
      simp only [BreakerCall.event, Cutout.step, hnot]
      exact ⟨hsim, rfl⟩

/-- **Run lemma.** -/
theorem simulates_after (h : Ordered calls) (hle : ∀ t ∈ calls.map Prod.fst, t ≤ now) :
    b.Simulates now (b.after {} calls) (b.cutout.after {} (events calls)) := by
  induction calls using List.reverseRecOn generalizing now with
  | nil => exact .new rfl rfl
  | append_singleton calls c ih =>
    have hbefore : ∀ t ∈ calls.map Prod.fst, t ≤ c.1 := fun t ht => by
      rw [Ordered, List.map_append] at h
      exact (List.pairwise_append.mp h).2.2 t ht c.1 (by simp)
    rw [after_concat, events_concat, Cutout.after_concat]
    exact (simulates_call h (ih h.init hbefore)).1.mono (hle c.1 (by simp))

/-- The call after some others gets the reply of the cutout. -/
theorem call_eq_step {c : BreakerCall} (h : Ordered (calls ++ [(now, c)])) :
    (b.call (b.after {} calls) now c).2 =
      (b.cutout.step (b.cutout.after {} (events calls)) now c.event).2 := by
  refine (simulates_call h (simulates_after h.init fun t ht => ?_)).2
  rw [Ordered, List.map_append] at h
  exact (List.pairwise_append.mp h).2.2 t ht now (by simp)

/-- The replies from a call on are those of the cutout from there on. -/
theorem results_after {pre post : List (ℚ × BreakerCall)} (h : Ordered (pre ++ post)) :
    (b.results (b.after {} pre) post).map (fun r => (r.1.event, r.2)) =
      b.cutout.results (b.cutout.after {} (events pre)) (events post) := by
  induction post using List.reverseRecOn with
  | nil => rfl
  | append_singleton post c ih =>
    rw [← List.append_assoc] at h
    have hkeys : b.after (b.after {} pre) post = b.after {} (pre ++ post) :=
      (List.foldl_append ..).symm
    have hcut : b.cutout.after (b.cutout.after {} (events pre)) (events post) =
        b.cutout.after {} (events (pre ++ post)) := by
      rw [events, events, events, List.map_append, Cutout.after_append]
    rw [results_append, List.map_append, ih h.init, events_concat, Cutout.results_append, hkeys, hcut]
    simp [results, Cutout.results, call_eq_step h]

/-- **A breaker is a cutout.** Whole calls of a new breaker, made one after the other at times that do not
go back, get the replies of a cutout that keeps the times of the failures since the last reset and of the
last trip, and nothing else. -/
theorem refines_cutout (b : CircuitBreaker) (h : Ordered calls) :
    (b.results {} calls).map (fun r => (r.1.event, r.2)) = b.cutout.results {} (events calls) :=
  @results_after b [] calls h

/-- A failure, a trip, and two callers while it is recent and when it is old. -/
theorem refines_cutout_probed :
    ((⟨1, 60, 30⟩ : CircuitBreaker).results {} [(0, .recordFailure), (1, .maybeTrip), (2, .isOpen),
      (40, .isOpen), (41, .isOpen)]).map (fun r => (r.1.event, r.2)) =
      (⟨1, 60, 30⟩ : CircuitBreaker).cutout.results {} (events [(0, .recordFailure), (1, .maybeTrip),
        (2, .isOpen), (40, .isOpen), (41, .isOpen)]) :=
  refines_cutout _ (by norm_num [Ordered])

/-! ## When a breaker blocks -/

/-- Calls are calm when their events are. -/
theorem calm_map_event {rs : List (BreakerCall × Option Bool)} :
    Cutout.Calm (rs.map fun r => (r.1.event, r.2)) ↔ Calm rs := by
  unfold Cutout.Calm Calm
  rw [List.forall_mem_map]
  refine forall₂_congr fun r _ => ?_
  obtain ⟨c, reply⟩ := r
  cases c <;> simp [BreakerCall.event]

/-- Events split where the calls do. -/
theorem events_eq_append {pre post : List (ℚ × Cutout.Event)}
    (h : events calls = pre ++ (t, .test) :: post) :
    ∃ pre' post', calls = pre' ++ (t, .maybeTrip) :: post' ∧ pre = events pre' ∧
      post = events post' := by
  obtain ⟨pre', rest, rfl, rfl, hrest⟩ := List.map_eq_append_iff.mp h
  obtain ⟨⟨t', c⟩, post', rfl, hc, rfl⟩ := List.map_eq_cons_iff.mp hrest
  cases c with
  | maybeTrip =>
    cases hc
    exact ⟨pre', post', rfl, rfl, rfl⟩
  | recordFailure | isOpen | reset => cases hc

/-- The last trip of the cutout is the last `maybe_trip` that returned True. -/
theorem lastTrip_iff (h : Ordered calls) : b.cutout.LastTrip (events calls) t ↔
    ∃ pre post, calls = pre ++ (t, .maybeTrip) :: post ∧
      (b.call (b.after {} pre) t .maybeTrip).2 = some true ∧
      Calm (b.results (b.after {} (pre ++ [(t, .maybeTrip)])) post) := by
  have hsplit : ∀ pre post, calls = pre ++ (t, .maybeTrip) :: post →
      ((b.call (b.after {} pre) t .maybeTrip).2 = some true ↔
        b.cutout.trips (b.cutout.after {} (events pre)) t = true) ∧
      (Calm (b.results (b.after {} (pre ++ [(t, .maybeTrip)])) post) ↔
        Cutout.Calm (b.cutout.results (b.cutout.after {} (events pre ++ [(t, .test)]))
          (events post))) := by
    rintro pre post rfl
    refine ⟨maybeTrip_iff_trips h.of_append, ?_⟩
    rw [← List.singleton_append, ← List.append_assoc] at h
    rw [← calm_map_event, results_after h, events_concat]
    rfl
  constructor
  · rintro ⟨pre, post, hes, htrips, hcalm⟩
    obtain ⟨pre, post, rfl, rfl, rfl⟩ := events_eq_append hes
    exact ⟨pre, post, rfl, (hsplit _ _ rfl).1.mpr htrips, (hsplit _ _ rfl).2.mpr hcalm⟩
  · rintro ⟨pre, post, rfl, htrips, hcalm⟩
    exact ⟨events pre, events post, by simp [events, BreakerCall.event], (hsplit _ _ rfl).1.mp htrips,
      (hsplit _ _ rfl).2.mp hcalm⟩

/-- **A breaker blocks while its last trip is recent.** Among whole calls made one after the other,
`is_open` returns True if and only if some `maybe_trip` before it returned True at most `half_open_after`
ago, and no `maybe_trip` has returned True since, nor a `reset` been made. -/
theorem isOpen_iff (b : CircuitBreaker) (h : Ordered (calls ++ [(now, .isOpen)])) :
    (b.call (b.after {} calls) now .isOpen).2 = some true ↔
      ∃ pre t post, calls = pre ++ (t, .maybeTrip) :: post ∧ now - t ≤ b.halfOpenAfter ∧
        (b.call (b.after {} pre) t .maybeTrip).2 = some true ∧
        Calm (b.results (b.after {} (pre ++ [(t, .maybeTrip)])) post) := by
  rw [call_eq_step h, BreakerCall.event, Cutout.step, Option.some_inj, Cutout.blocks_after]
  constructor
  · rintro ⟨t, hlast, hrecent⟩
    obtain ⟨pre, post, hcalls, htrips, hcalm⟩ := (lastTrip_iff h.init).mp hlast
    exact ⟨pre, t, post, hcalls, hrecent, htrips, hcalm⟩
  · rintro ⟨pre, t, post, hcalls, hrecent, htrips, hcalm⟩
    exact ⟨t, (lastTrip_iff h.init).mpr ⟨pre, post, hcalls, htrips, hcalm⟩, hrecent⟩

/-- A trip is recent for half a minute. -/
theorem isOpen_iff_recent : ((⟨1, 60, 30⟩ : CircuitBreaker).call
    ((⟨1, 60, 30⟩ : CircuitBreaker).after {} [(0, .recordFailure), (1, .maybeTrip)]) 31 .isOpen).2 =
      some true := by
  have hordered : Ordered ([(0, .recordFailure), (1, .maybeTrip)] ++ [(31, .isOpen)]) := by
    norm_num [Ordered]
  refine (isOpen_iff _ hordered).mpr ⟨[(0, .recordFailure)], 1, [], rfl, by norm_num, ?_,
    List.forall_mem_nil _⟩
  rw [maybeTrip_iff (by norm_num [Ordered])]
  decide +kernel

/-- **Whoever looks is not noticed**: no call gets another reply because somebody called `is_open`
before, so a half-open breaker keeps no second probe out. -/
theorem call_filter_isOpen {c : BreakerCall} (h : Ordered (calls ++ [(now, c)])) :
    (b.call (b.after {} (calls.filter (·.2 ≠ .isOpen))) now c).2 =
      (b.call (b.after {} calls) now c).2 := by
  have hsub : Ordered (calls.filter (·.2 ≠ .isOpen) ++ [(now, c)]) := by
    rw [Ordered] at h ⊢
    exact h.sublist ((List.filter_sublist.append_right _).map _)
  have hevents : events (calls.filter (·.2 ≠ .isOpen)) = (events calls).filter (·.2 ≠ .ask) := by
    rw [events, events, List.filter_map]
    refine congrArg _ (List.filter_congr fun c _ => ?_)
    obtain ⟨now, c⟩ := c
    cases c <;> rfl
  rw [call_eq_step hsub, call_eq_step h, hevents, Cutout.after_filter]

end CircuitBreaker

end RelayQ

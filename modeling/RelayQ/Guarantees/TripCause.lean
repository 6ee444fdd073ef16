import RelayQ.Guarantees.OpenInterval

/-! # Why a breaker is open

A trip is no accident: behind it stand as many calls of `record_failure` as the threshold says, whose
clock readings lie in one window, in whatever order the commands of the callers came. So a breaker that
answers True to anybody was tripped by a `maybe_trip` that had found such failures.

* `CircuitBreaker.readings`: who has looked at the clock in a run, and what it showed.
* `CircuitBreaker.Justified`, `CircuitBreaker.Tripped`: the failures behind a trip.
* `CircuitBreaker.Caused`: the invariant; `CircuitBreaker.Caused.answer`: an answered command keeps it,
  by one lemma for each point of a call; `CircuitBreaker.caused_of_step`: a step keeps it.
* `CircuitBreaker.opensForCause`: the guarantee. -/

namespace RelayQ

/-- Different values have different witnesses, when no witness is one of two values. -/
theorem exists_distinct_witnesses {α β : Type} {Q : α → β → Prop} {l : List β} (hl : l.Nodup)
    (h : ∀ x ∈ l, ∃ n, Q n x) (hQ : ∀ n x y, Q n x → Q n y → x = y) :
    ∃ ns : List α, ns.Nodup ∧ ns.length = l.length ∧ ∀ n ∈ ns, ∃ x ∈ l, Q n x := by
  induction l with
  | nil => exact ⟨[], List.nodup_nil, rfl, List.forall_mem_nil _⟩
  | cons x l ih =>
    obtain ⟨hx, hl⟩ := List.nodup_cons.mp hl
    obtain ⟨ns, hns, hlen, hall⟩ := ih hl fun y hy => h y (List.mem_cons_of_mem _ hy)
    obtain ⟨n, hn⟩ := h x List.mem_cons_self
    refine ⟨n :: ns, List.nodup_cons.mpr ⟨fun hmem => ?_, hns⟩, by simp [hlen], ?_⟩
    · obtain ⟨y, hy, hny⟩ := hall n hmem
      exact hx (hQ n x y hn hny ▸ hy)
    · intro m hm
      rcases List.mem_cons.mp hm with rfl | hm
      · exact ⟨x, List.mem_cons_self, hn⟩
      · obtain ⟨y, hy, hmy⟩ := hall m hm
        exact ⟨y, List.mem_cons_of_mem _ hy, hmy⟩

/-- Who stands in a place of a list stands there in every longer one. -/
theorem getElem?_of_isPrefix {α : Type} {l l' : List α} {n : ℕ} {x : α} (h : l <+: l')
    (hn : l[n]? = some x) : l'[n]? = some x := by
  obtain ⟨rest, rfl⟩ := h
  rw [List.getElem?_append_left (List.getElem?_eq_some_iff.mp hn).1, hn]

namespace CircuitBreaker

variable (b : CircuitBreaker)

/-! ## Readings -/

/-- The reading a command of a call is: the call, and what the clock shows. -/
def clockReading (i : ℕ) (now : ℚ) : BreakerOp → List (ℕ × ℚ)
  | .time => [(i, now)]
  | .getState | .getLastFailure | .setState _ | .setLastFailure _ | .zcount _ _ | .execute _ _
  | .delete => []

/-- The reading a step is, if a call looks at the clock with it. -/
def reading (s : BreakerPool) : BreakerLabel → List (ℕ × ℚ)
  | .answer i _ =>
    match s.procs[i]? with
    | some ⟨_, _, some (.call o _)⟩ => clockReading i s.world.now o
    | _ => []
  | .start _ _ | .crash _ | .env _ => []

/-- The readings of a run. -/
def readings (s : BreakerPool) : List BreakerLabel → List (ℕ × ℚ)
  | [] => []
  | l :: ls => reading s l ++ ((b.pool.step s l).map fun t => readings t ls).getD []

/-- Behind a trip at `t` stand enough different calls of `record_failure` that read a time in the window
before `t`. -/
def Justified (infos : List BreakerCall) (R : List (ℕ × ℚ)) (t : ℚ) : Prop :=
  ∃ callers : List ℕ, callers.Nodup ∧ b.failureThreshold ≤ callers.length ∧
    ∀ n ∈ callers, infos[n]? = some .recordFailure ∧
      ∃ x, (n, x) ∈ R ∧ t - b.window ≤ x ∧ x ≤ t

/-- Some `maybe_trip` has tripped the breaker, with the failures for it. -/
def Tripped (infos : List BreakerCall) (R : List (ℕ × ℚ)) : Prop :=
  ∃ k t, infos[k]? = some .maybeTrip ∧ (k, t) ∈ R ∧ b.Justified infos R t

variable {b} {infos infos' : List BreakerCall} {R R' : List (ℕ × ℚ)} {t : ℚ}

/-- More calls and more readings take no reason away. -/
theorem Justified.mono (h : b.Justified infos R t) (hinfos : infos <+: infos') (hR : R ⊆ R') :
    b.Justified infos' R' t := by
  obtain ⟨callers, hnodup, hlen, hall⟩ := h
  refine ⟨callers, hnodup, hlen, fun n hn => ?_⟩
  obtain ⟨hinfo, x, hx, hwindow⟩ := hall n hn
  exact ⟨getElem?_of_isPrefix hinfos hinfo, x, hR hx, hwindow⟩

/-- A breaker that was tripped stays so. -/
theorem Tripped.mono (h : b.Tripped infos R) (hinfos : infos <+: infos') (hR : R ⊆ R') :
    b.Tripped infos' R' := by
  obtain ⟨k, t, hk, hread, hjust⟩ := h
  exact ⟨k, t, getElem?_of_isPrefix hinfos hk, hR hread, hjust.mono hinfos hR⟩

/-! ## The invariant -/

/-- The call has yet to look at the clock, if it ever does. -/
def Unread : Point → Prop
  | .looking | .dating | .ageing _ | .tripping | .failing => True
  | _ => False

/-- The time the call has read and still goes by. -/
def holds? : Point → Option ℚ
  | .counting now | .opening now | .stamping now | .recording now => some now
  | _ => none

/-- The call is tripping the breaker, at the time. -/
def TripsAt (t : ℚ) (pt : Point) : Prop := pt = .opening t ∨ pt = .stamping t

/-- The call has found the breaker open, or has tripped it. -/
def Blocked (pt : Point) : Prop :=
  pt = .dating ∨ (∃ last, pt = .ageing last) ∨ pt = .probing ∨ pt = .done (some true)

/-- The calls that were made. -/
abbrev infosOf (l : List (BreakerProc × Point)) : List BreakerCall := l.map fun x => x.1.info

/-- What holds of a breaker, of its calls and of their readings. -/
structure Caused (b : CircuitBreaker) (R : List (ℕ × ℚ)) (w : BreakerWorld)
    (l : List (BreakerProc × Point)) : Prop where
  once : ∀ n x y, (n, x) ∈ R → (n, y) ∈ R → x = y
  looked : ∀ n x, (n, x) ∈ R → ∃ y, l[n]? = some y ∧ ¬ Unread y.2
  held : ∀ n y x, l[n]? = some y → holds? y.2 = some x → (n, x) ∈ R
  recorded : ∀ e ∈ w.keys.failures, e.2 = e.1 ∧
    ∃ n, (infosOf l)[n]? = some .recordFailure ∧ (n, e.1) ∈ R
  tripping : ∀ y ∈ l, ∀ t, TripsAt t y.2 → b.Justified (infosOf l) R t
  opened : w.keys.state ≠ none → b.Tripped (infosOf l) R
  blocked : ∀ y ∈ l, Blocked y.2 → b.Tripped (infosOf l) R

section Caused

variable {w w' : BreakerWorld} {l : List (BreakerProc × Point)} {i : ℕ} {p : BreakerProc} {pt : Point}
  {y : BreakerProc × Point}

/-- A call that gets on is the same call. -/
theorem infosOf_set (hi : l[i]? = some (p, pt)) (hy : y.1.info = p.info) :
    infosOf (l.set i y) = infosOf l := by
  obtain ⟨hlt, hget⟩ := List.getElem?_eq_some_iff.mp hi
  rw [infosOf, List.map_set, hy]
  refine List.ext_getElem? fun j => ?_
  rw [List.getElem?_set]
  split
  · rename_i hij
    subst hij
    simp [hlt, hget]
  · rfl

/-- **A call gets on.** What is to show when a call goes from one point to another, perhaps by a
reading. -/
theorem Caused.set (h : b.Caused R w l) (hi : l[i]? = some (p, pt)) (hy : y.1.info = p.info)
    (hR : R' = R ∧ (Unread y.2 → Unread pt) ∨
      ∃ x, R' = R ++ [(i, x)] ∧ Unread pt ∧ ¬ Unread y.2)
    (hheld : ∀ x, holds? y.2 = some x → (i, x) ∈ R')
    (hrecorded : ∀ e ∈ w'.keys.failures, e ∈ w.keys.failures ∨
      e.2 = e.1 ∧ p.info = .recordFailure ∧ (i, e.1) ∈ R')
    (htripping : ∀ t, TripsAt t y.2 → b.Justified (infosOf l) R' t)
    (hopened : w'.keys.state ≠ none → w.keys.state ≠ none ∨ b.Tripped (infosOf l) R')
    (hblocked : Blocked y.2 → b.Tripped (infosOf l) R') : b.Caused R' w' (l.set i y) := by
  have hsub : R ⊆ R' := by
    rcases hR with ⟨rfl, -⟩ | ⟨x, rfl, -⟩
    · exact List.Subset.refl _
    · exact List.subset_append_left _ _
  have hlt : i < l.length := (List.getElem?_eq_some_iff.mp hi).1
  -- a call has no reading before it looks at the clock
  have hnone : Unread pt → ∀ x, (i, x) ∉ R := fun hunread x hx => by
    obtain ⟨z, hz, hread⟩ := h.looked i x hx
    rw [hi] at hz
    cases hz
    exact hread hunread
  have hinfos := infosOf_set hi hy
  constructor
  · intro n x x' hx hx'
    rcases hR with ⟨rfl, -⟩ | ⟨x₀, rfl, hunread, -⟩
    · exact h.once n x x' hx hx'
    · rw [List.mem_append, List.mem_singleton, Prod.mk.injEq] at hx hx'
      rcases hx with hx | ⟨rfl, rfl⟩
      · rcases hx' with hx' | ⟨rfl, rfl⟩
        · exact h.once n x x' hx hx'
        · exact absurd hx (hnone hunread x)
      · rcases hx' with hx' | ⟨-, rfl⟩
        · exact absurd hx' (hnone hunread x')
        · rfl
  · intro n x hx
    by_cases hn : n = i
    · subst hn
      refine ⟨y, List.getElem?_set_self hlt, fun hunread => ?_⟩
      rcases hR with ⟨rfl, hkeep⟩ | ⟨x₀, rfl, hunread', hread⟩
      · exact hnone (hkeep hunread) x hx
      · exact hread hunread
    · have hx : (n, x) ∈ R := by
        rcases hR with ⟨rfl, -⟩ | ⟨x₀, rfl, -⟩
        · exact hx
        · rw [List.mem_append, List.mem_singleton, Prod.mk.injEq] at hx
          exact hx.resolve_right fun heq => hn heq.1
      rw [List.getElem?_set_ne (Ne.symm hn)]
      exact h.looked n x hx
  · intro n z x hz hx
    rcases getElem?_set_cases hz with ⟨rfl, rfl⟩ | ⟨-, hz⟩
    · exact hheld x hx
    · exact hsub (h.held n z x hz hx)
  · rw [hinfos]
    intro e he
    rcases hrecorded e he with he | ⟨heq, hinfo, hread⟩
    · obtain ⟨heq, n, hn, hread⟩ := h.recorded e he
      exact ⟨heq, n, hn, hsub hread⟩
    · exact ⟨heq, i, by simp [infosOf, hi, hinfo], hread⟩
  · rw [hinfos]
    intro z hz t ht
    rcases List.mem_or_eq_of_mem_set hz with hz | rfl
    · exact (h.tripping z hz t ht).mono List.prefix_rfl hsub
    · exact htripping t ht
  · rw [hinfos]
    intro hstate
    rcases hopened hstate with hstate | htripped
    · exact (h.opened hstate).mono List.prefix_rfl hsub
    · exact htripped
  · rw [hinfos]
    intro z hz hblock
    rcases List.mem_or_eq_of_mem_set hz with hz | rfl
    · exact (h.blocked z hz hblock).mono List.prefix_rfl hsub
    · exact hblocked hblock

/-- The failures that a `maybe_trip` counts are there. -/
theorem Caused.justified (h : b.Caused R w l)
    (hcount : b.failureThreshold ≤ (w.keys.failures.zcount (t - b.window) t : ℤ)) :
    b.Justified (infosOf l) R t := by
  have hnodup := w.keys.failures.nodup.sublist
    ((List.filter_sublist (p := fun e => t - b.window ≤ e.2 ∧ e.2 ≤ t)).map Prod.fst)
  have hcalls : ∀ x ∈ (w.keys.failures.entries.filter
      fun e => t - b.window ≤ e.2 ∧ e.2 ≤ t).map Prod.fst,
      ∃ n, (infosOf l)[n]? = some .recordFailure ∧ (n, x) ∈ R ∧ t - b.window ≤ x ∧ x ≤ t := by
    intro x hx
    obtain ⟨e, he, rfl⟩ := List.mem_map.mp hx
    obtain ⟨he, hwindow⟩ := List.mem_filter.mp he
    obtain ⟨heq, n, hinfo, hread⟩ := h.recorded e he
    rw [heq, decide_eq_true_iff] at hwindow
    exact ⟨n, hinfo, hread, hwindow⟩
  obtain ⟨callers, hcallers, hlen, hall⟩ := exists_distinct_witnesses hnodup hcalls
    fun n x y hx hy => h.once n x y hx.2.1 hy.2.1
  refine ⟨callers, hcallers, ?_, fun n hn => ?_⟩
  · rw [hlen, List.length_map, ← List.countP_eq_length_filter]
    exact hcount
  · obtain ⟨x, -, hinfo, hread, hwindow⟩ := hall n hn
    exact ⟨hinfo, x, hread, hwindow⟩

/-! One lemma for each point of a call: the command that is next there keeps the invariant. -/

/-- The calls, when the command that is next at the point was answered. -/
abbrev answered (b : CircuitBreaker) (w : BreakerWorld) (l : List (BreakerProc × Point)) (i : ℕ)
    (p : BreakerProc) (pt : Point) : List (BreakerProc × Point) :=
  l.set i ({ p with prog := some ((pt.step b w).2.prog b) }, (pt.step b w).2)

/-- Who finds the state open is blocked, and for that somebody has tripped the breaker. -/
theorem Caused.answer_looking (h : b.Caused R w l) (hi : l[i]? = some (p, .looking)) :
    b.Caused R (Point.looking.step b w).1 (answered b w l i p .looking) := by
  by_cases hstate : w.keys.state = some .opened
  · have htripped := h.opened (by simp [hstate])
    simp only [answered, Point.step, hstate, if_true]
    exact h.set hi rfl (.inl ⟨rfl, fun _ => trivial⟩) (by simp [holds?]) (fun e he => .inl he)
      (by simp [TripsAt]) .inl fun _ => htripped
  · simp only [answered, Point.step, hstate, if_false]
    exact h.set hi rfl (.inl ⟨rfl, fun _ => trivial⟩) (by simp [holds?]) (fun e he => .inl he)
      (by simp [TripsAt]) .inl (by simp [Blocked])

/-- Who was blocked stays blocked while it reads the time of the trip. -/
theorem Caused.answer_dating (h : b.Caused R w l) (hi : l[i]? = some (p, .dating)) :
    b.Caused R (Point.dating.step b w).1 (answered b w l i p .dating) := by
  have htripped := h.blocked _ (List.mem_of_getElem? hi) (.inl rfl)
  cases hlast : w.keys.lastFailure with
  | none =>
    simp only [answered, Point.step, hlast, Option.elim]
    exact h.set hi rfl (.inl ⟨rfl, fun _ => trivial⟩) (by simp [holds?]) (fun e he => .inl he)
      (by simp [TripsAt]) .inl fun _ => htripped
  | some last =>
    simp only [answered, Point.step, hlast, Option.elim]
    exact h.set hi rfl (.inl ⟨rfl, fun _ => trivial⟩) (by simp [holds?]) (fun e he => .inl he)
      (by simp [TripsAt]) .inl fun _ => htripped

/-- It looks at the clock, and goes on or returns True. -/
theorem Caused.answer_ageing {last : ℚ} (h : b.Caused R w l) (hi : l[i]? = some (p, .ageing last)) :
    b.Caused (R ++ [(i, w.now)]) ((Point.ageing last).step b w).1
      (answered b w l i p (.ageing last)) := by
  have htripped := (h.blocked _ (List.mem_of_getElem? hi) (.inr (.inl ⟨last, rfl⟩))).mono
    List.prefix_rfl (List.subset_append_left R [(i, w.now)])
  by_cases hage : b.halfOpenAfter < w.now - last
  · simp only [answered, Point.step, hage, if_true]
    exact h.set hi rfl (.inr ⟨w.now, rfl, trivial, id⟩) (by simp [holds?]) (fun e he => .inl he)
      (by simp [TripsAt]) .inl fun _ => htripped
  · simp only [answered, Point.step, hage, if_false]
    exact h.set hi rfl (.inr ⟨w.now, rfl, trivial, id⟩) (by simp [holds?]) (fun e he => .inl he)
      (by simp [TripsAt]) .inl fun _ => htripped

/-- It sets the state to half-open, and for that the breaker was tripped before. -/
theorem Caused.answer_probing (h : b.Caused R w l) (hi : l[i]? = some (p, .probing)) :
    b.Caused R (Point.probing.step b w).1 (answered b w l i p .probing) := by
  have htripped := h.blocked _ (List.mem_of_getElem? hi) (.inr (.inr (.inl rfl)))
  exact h.set hi rfl (.inl ⟨rfl, id⟩) (by simp [Point.step, holds?]) (fun e he => .inl he)
    (by simp [Point.step, TripsAt]) (fun _ => .inr htripped) fun _ => htripped

/-- `maybe_trip` looks at the clock. -/
theorem Caused.answer_tripping (h : b.Caused R w l) (hi : l[i]? = some (p, .tripping)) :
    b.Caused (R ++ [(i, w.now)]) (Point.tripping.step b w).1 (answered b w l i p .tripping) :=
  h.set hi rfl (.inr ⟨w.now, rfl, trivial, id⟩) (by simp [Point.step, holds?])
    (fun e he => .inl he) (by simp [Point.step, TripsAt]) .inl (by simp [Point.step, Blocked])

/-- It goes on to trip the breaker when it counts enough failures. -/
theorem Caused.answer_counting {now : ℚ} (h : b.Caused R w l)
    (hi : l[i]? = some (p, .counting now)) :
    b.Caused R ((Point.counting now).step b w).1 (answered b w l i p (.counting now)) := by
  have hread : (i, now) ∈ R := h.held i _ now hi rfl
  by_cases hcount : b.failureThreshold ≤ (w.keys.failures.zcount (now - b.window) now : ℤ)
  · simp only [answered, Point.step, hcount, if_true]
    exact h.set hi rfl (.inl ⟨rfl, id⟩) (by simpa [holds?] using hread) (fun e he => .inl he)
      (by simpa [TripsAt] using h.justified hcount) .inl (by simp [Blocked])
  · simp only [answered, Point.step, hcount, if_false]
    exact h.set hi rfl (.inl ⟨rfl, id⟩) (by simp [holds?]) (fun e he => .inl he)
      (by simp [TripsAt]) .inl (by simp [Blocked])

/-- It sets the state, with the failures behind it. -/
theorem Caused.answer_opening {now : ℚ} (h : b.Caused R w l) (hinfo : p.info = .maybeTrip)
    (hi : l[i]? = some (p, .opening now)) :
    b.Caused R ((Point.opening now).step b w).1 (answered b w l i p (.opening now)) := by
  have hread : (i, now) ∈ R := h.held i _ now hi rfl
  have hjust := h.tripping _ (List.mem_of_getElem? hi) now (.inl rfl)
  have hcall : (infosOf l)[i]? = some .maybeTrip := by simp [infosOf, hi, hinfo]
  exact h.set hi rfl (.inl ⟨rfl, id⟩) (by simpa [Point.step, holds?] using hread)
    (fun e he => .inl he) (by simpa [Point.step, TripsAt] using hjust)
    (fun _ => .inr ⟨i, now, hcall, hread, hjust⟩) (by simp [Point.step, Blocked])

/-- It writes the time of the trip and returns True. -/
theorem Caused.answer_stamping {now : ℚ} (h : b.Caused R w l) (hinfo : p.info = .maybeTrip)
    (hi : l[i]? = some (p, .stamping now)) :
    b.Caused R ((Point.stamping now).step b w).1 (answered b w l i p (.stamping now)) := by
  have hread : (i, now) ∈ R := h.held i _ now hi rfl
  have hjust := h.tripping _ (List.mem_of_getElem? hi) now (.inr rfl)
  have hcall : (infosOf l)[i]? = some .maybeTrip := by simp [infosOf, hi, hinfo]
  exact h.set hi rfl (.inl ⟨rfl, id⟩) (by simp [Point.step, holds?]) (fun e he => .inl he)
    (by simp [Point.step, TripsAt]) .inl fun _ => ⟨i, now, hcall, hread, hjust⟩

/-- `record_failure` looks at the clock. -/
theorem Caused.answer_failing (h : b.Caused R w l) (hi : l[i]? = some (p, .failing)) :
    b.Caused (R ++ [(i, w.now)]) (Point.failing.step b w).1 (answered b w l i p .failing) :=
  h.set hi rfl (.inr ⟨w.now, rfl, trivial, id⟩) (by simp [Point.step, holds?])
    (fun e he => .inl he) (by simp [Point.step, TripsAt]) .inl (by simp [Point.step, Blocked])

/-- It adds what it has read, and nothing else is new. -/
theorem Caused.answer_recording {now : ℚ} (h : b.Caused R w l) (hinfo : p.info = .recordFailure)
    (hi : l[i]? = some (p, .recording now)) :
    b.Caused R ((Point.recording now).step b w).1 (answered b w l i p (.recording now)) := by
  have hread : (i, now) ∈ R := h.held i _ now hi rfl
  refine h.set hi rfl (.inl ⟨rfl, id⟩) (by simp [Point.step, holds?]) (fun e he => ?_)
    (by simp [Point.step, TripsAt]) .inl (by simp [Point.step, Blocked])
  simp only [Point.step, BreakerWorld.exec, Redis.SortedSet.mem_zremrangebyscore,
    Redis.SortedSet.mem_zadd] at he
  rcases he.1 with rfl | ⟨he, -⟩
  · exact .inr ⟨rfl, hinfo, hread⟩
  · exact .inl he

/-- `reset` leaves neither failures nor a state. -/
theorem Caused.answer_clearing (h : b.Caused R w l) (hi : l[i]? = some (p, .clearing)) :
    b.Caused R (Point.clearing.step b w).1 (answered b w l i p .clearing) :=
  h.set hi rfl (.inl ⟨rfl, id⟩) (by simp [Point.step, holds?])
    (fun e he => absurd he (Redis.SortedSet.not_mem_empty e)) (by simp [Point.step, TripsAt])
    (fun hstate => absurd rfl hstate) (by simp [Point.step, Blocked])

/-- **An answered command keeps it.** -/
theorem Caused.answer (h : b.Caused R w l) (hpt : b.Tracked (p, pt)) (hi : l[i]? = some (p, pt))
    {o : BreakerOp} (hop : pt.op b = some o) :
    b.Caused (R ++ clockReading i w.now o) (pt.step b w).1 (answered b w l i p pt) := by
  have hof : pt.Of p.info := hpt.of
  cases pt with
  | looking =>
    cases hop
    exact (List.append_nil R).symm ▸ h.answer_looking hi
  | dating =>
    cases hop
    exact (List.append_nil R).symm ▸ h.answer_dating hi
  | ageing last =>
    cases hop
    exact h.answer_ageing hi
  | probing =>
    cases hop
    exact (List.append_nil R).symm ▸ h.answer_probing hi
  | tripping =>
    cases hop
    exact h.answer_tripping hi
  | counting now =>
    cases hop
    exact (List.append_nil R).symm ▸ h.answer_counting hi
  | opening now =>
    cases hop
    exact (List.append_nil R).symm ▸ h.answer_opening hof hi
  | stamping now =>
    cases hop
    exact (List.append_nil R).symm ▸ h.answer_stamping hof hi
  | failing =>
    cases hop
    exact h.answer_failing hi
  | recording now =>
    cases hop
    exact (List.append_nil R).symm ▸ h.answer_recording hof hi
  | clearing =>
    cases hop
    exact (List.append_nil R).symm ▸ h.answer_clearing hi
  | done r => cases hop

/-- A call that starts has read nothing and seen nothing. -/
theorem Caused.start (h : b.Caused R w l) (p : BreakerProc) :
    b.Caused R w (l ++ [(p, .start p.info)]) := by
  have hinfos : infosOf l <+: infosOf (l ++ [(p, .start p.info)]) := by simp [infosOf]
  have hmem : ∀ z ∈ l ++ [(p, Point.start p.info)], z ∈ l ∨ z.2 = .start p.info := fun z hz => by
    rcases List.mem_append.mp hz with hz | hz
    · exact .inl hz
    · exact .inr (by rw [List.mem_singleton.mp hz])
  constructor
  · exact h.once
  · intro n x hx
    obtain ⟨y, hy, hread⟩ := h.looked n x hx
    exact ⟨y, getElem?_concat_of hy _, hread⟩
  · intro n z x hz hx
    rcases getElem?_concat_cases hz with hz | ⟨-, rfl⟩
    · exact h.held n z x hz hx
    · cases hc : p.info <;> rw [hc] at hx <;> cases hx
  · intro e he
    obtain ⟨heq, n, hinfo, hread⟩ := h.recorded e he
    exact ⟨heq, n, getElem?_of_isPrefix hinfos hinfo, hread⟩
  · intro z hz t ht
    rcases hmem z hz with hz | hz
    · exact (h.tripping z hz t ht).mono hinfos (List.Subset.refl R)
    · cases hc : p.info <;> simp [hz, hc, TripsAt, Point.start] at ht
  · exact fun hstate => (h.opened hstate).mono hinfos (List.Subset.refl R)
  · intro z hz hblock
    rcases hmem z hz with hz | hz
    · exact (h.blocked z hz hblock).mono hinfos (List.Subset.refl R)
    · cases hc : p.info <;> simp [hz, hc, Blocked, Point.start] at hblock

/-- The loss of callers changes nothing. -/
theorem Caused.kill (h : b.Caused R w l) (site : ℕ) :
    b.Caused R w (l.map fun x => (x.1.kill site, x.2)) := by
  have hinfos : infosOf (l.map fun x => (x.1.kill site, x.2)) = infosOf l := by
    simp [infosOf, Function.comp_def]
  constructor
  · exact h.once
  · intro n x hx
    obtain ⟨y, hy, hread⟩ := h.looked n x hx
    exact ⟨(y.1.kill site, y.2), by rw [List.getElem?_map, hy, Option.map_some], hread⟩
  · intro n z x hz hx
    rw [List.getElem?_map] at hz
    obtain ⟨y, hy, rfl⟩ := Option.map_eq_some_iff.mp hz
    exact h.held n y x hy hx
  · rw [hinfos]
    exact h.recorded
  · rw [hinfos, List.forall_mem_map]
    exact h.tripping
  · rw [hinfos]
    exact h.opened
  · rw [hinfos, List.forall_mem_map]
    exact h.blocked

/-! ## Runs -/

variable {s s' : BreakerPool} {lbl : BreakerLabel} {ls : List BreakerLabel}

/-- **Step lemma.** -/
theorem caused_of_step (h : b.Holds (b.Caused R) s) (hs : b.pool.step s lbl = some s') :
    b.Holds (b.Caused (R ++ reading s lbl)) s' := by
  obtain ⟨l, hl, htracked, hcaused⟩ := h
  rcases PoolSpec.step_cases hs with ⟨c, site, rfl, rfl⟩ |
    ⟨i, ans, p, o, k, w, r, rfl, hi, hprog, hx, rfl⟩ | ⟨site, rfl, rfl⟩ | ⟨d, w, rfl, hw, rfl⟩
  · rw [reading, List.append_nil]
    refine ⟨_, by simp [hl, CircuitBreaker.pool], fun x hx => ?_,
      hcaused.start ⟨c, site, some (b.code c)⟩⟩
    rcases List.mem_append.mp hx with hx | hx
    · exact htracked x hx
    · obtain rfl := List.mem_singleton.mp hx
      exact ⟨fun q hq => by rw [Point.prog_start, ← Option.some.inj hq], Point.of_start c⟩
  · have hreading : reading s (.answer i ans) = clockReading i s.world.now o := by
      obtain ⟨info, site, prog⟩ := p
      obtain rfl : prog = _ := hprog
      simp [reading, hi]
    rw [← hl, List.getElem?_map, Option.map_eq_some_iff] at hi
    obtain ⟨⟨p, pt⟩, hi, rfl⟩ := hi
    have hpt : b.Tracked (p, pt) := htracked _ (List.mem_of_getElem? hi)
    obtain ⟨rfl, rfl⟩ := Prod.mk.inj (Option.some.inj hx)
    have hop : pt.op b = some o := (hpt.makes_iff.mp ⟨k, hprog⟩).2
    obtain ⟨hstep, hk⟩ := Point.exec_eq b (hpt.prog _ hprog).symm s.world
    have hw : (s.world.exec o).1 = (pt.step b s.world).1 := congrArg Prod.fst hstep
    have hnext : pt.next b o (.ok (s.world.exec o).2) = (pt.step b s.world).2 :=
      congrArg Prod.snd hstep
    rw [hk, hnext, hw, hreading]
    refine ⟨_, by simp [← hl, List.map_set], fun x hx => ?_, hcaused.answer hpt hi hop⟩
    rcases List.mem_or_eq_of_mem_set hx with hx | rfl
    · exact htracked x hx
    · exact ⟨fun q hq => (Option.some.inj hq).symm, Point.of_step b hpt.of s.world⟩
  · rw [reading, List.append_nil]
    refine ⟨_, by simp [← hl], fun x hx => ?_, hcaused.kill site⟩
    obtain ⟨y, hy, rfl⟩ := List.mem_map.mp hx
    exact (htracked y hy).kill site
  · obtain rfl := Option.some.inj hw
    rw [reading, List.append_nil]
    exact ⟨l, hl, htracked, ⟨hcaused.once, hcaused.looked, hcaused.held, hcaused.recorded,
      hcaused.tripping, hcaused.opened, hcaused.blocked⟩⟩

/-- **Run lemma.** -/
theorem caused_of_run (h : b.Holds (b.Caused R) s) (hs : runSteps b.pool.step s ls = some s') :
    b.Holds (b.Caused (R ++ b.readings s ls)) s' := by
  induction ls generalizing s R with
  | nil =>
    obtain rfl : s = s' := Option.some.inj hs
    rwa [readings, List.append_nil]
  | cons lbl ls ih =>
    simp only [runSteps, Option.bind_eq_some_iff] at hs
    obtain ⟨u, hu, hs⟩ := hs
    have hrest := ih (caused_of_step h hu) hs
    rw [readings, hu, Option.map_some, Option.getD_some, ← List.append_assoc]
    exact hrest

/-- Nobody has looked at the clock at the start. -/
theorem caused_init (now : ℚ) : b.Holds (b.Caused []) (init now) :=
  ⟨[], rfl, List.forall_mem_nil _, {
    once := by simp
    looked := by simp
    held := by simp
    recorded := fun e he => absurd he (Redis.SortedSet.not_mem_empty e)
    tripping := List.forall_mem_nil _
    opened := fun hstate => absurd rfl hstate
    blocked := List.forall_mem_nil _ }⟩

/-- **A breaker is open for a cause.** In every run of a new breaker, whatever the order of the
commands and whoever is lost, a breaker that is not closed, or that has answered True to some `is_open` or
`maybe_trip`, was tripped: some `maybe_trip` read a time `t`, and as many different calls of
`record_failure` as the threshold says each read a time between `t - window` and `t`. -/
theorem opensForCause (b : CircuitBreaker) {now : ℚ} (hs : runSteps b.pool.step (init now) ls = some s)
    (h : s.world.keys.state ≠ none ∨ ∃ p ∈ s.procs, p.returned = some (some true)) :
    b.Tripped (s.procs.map Proc.info) (b.readings (init now) ls) := by
  obtain ⟨l, hl, htracked, hcaused⟩ := caused_of_run (caused_init now) hs
  rw [List.nil_append] at hcaused
  have hinfos : s.procs.map Proc.info = infosOf l := by simp [← hl, infosOf, Function.comp_def]
  rw [hinfos]
  rcases h with hstate | ⟨p, hp, hret⟩
  · exact hcaused.opened hstate
  · rw [← hl] at hp
    obtain ⟨x, hx, rfl⟩ := List.mem_map.mp hp
    have hdone : x.2 = .done (some true) := (htracked x hx).of_returned hret
    exact hcaused.blocked x hx (.inr (.inr (.inr hdone)))

end Caused

/-- One failure, and a `maybe_trip` a second later that is all it takes. -/
theorem opensForCause_one : ∃ s ls, runSteps (pool ⟨1, 60, 30⟩).step (init 0) ls = some s ∧
    s.world.keys.state = some .opened ∧
    (⟨1, 60, 30⟩ : CircuitBreaker).Tripped (s.procs.map Proc.info) (readings ⟨1, 60, 30⟩ (init 0) ls) := by
  have hrun : (runSteps (pool ⟨1, 60, 30⟩).step (init 0)
      [.start .recordFailure 0, .answer 0 (), .answer 0 (), .env ⟨1, by decide⟩,
        .start .maybeTrip 0, .answer 1 (), .answer 1 (), .answer 1 ()]).map
        (fun s => decide (s.world.keys.state = some .opened)) = some true := by
    decide +kernel
  simp only [Option.map_eq_some_iff, decide_eq_true_eq] at hrun
  obtain ⟨s, hs, hstate⟩ := hrun
  exact ⟨s, _, hs, hstate, opensForCause _ hs (.inl (by simp [hstate]))⟩

end CircuitBreaker

end RelayQ

import RelayQ.Api.BreakerPool
import Mathlib.Tactic.Linarith

/-! # How long a breaker stays open

State and last failure are two keys, written one after the other. A state read before a trip may be
written after it, and a caller that is lost between the two leaves an open breaker without a time.

* `CircuitBreaker.StaysOpen`, `CircuitBreaker.Recovers`: what the open interval is to be.
* `CircuitBreaker.Orderly`: the condition on the steps of a run.
* `CircuitBreaker.openInterval`: in orderly runs the open interval is what it is to be. -/

namespace RelayQ

/-- What can happen to a breaker. -/
abbrev BreakerLabel : Type := PoolLabel breaker BreakerCall

namespace CircuitBreaker

variable (b : CircuitBreaker)

/-- A new breaker, at any time. -/
def init (now : ℚ) : BreakerPool := ⟨⟨now, {}⟩, []⟩

/-- With this step a `maybe_trip` returns True. -/
structure Trips (s : BreakerPool) (i : ℕ) (s' : BreakerPool) : Prop where
  step : b.pool.step s (.answer i ()) = some s'
  before : ∃ p, s.procs[i]? = some p ∧ p.info = .maybeTrip ∧ p.returned = none
  after : ∃ p, s'.procs[i]? = some p ∧ p.returned = some (some true)

/-- With this step a `reset` deletes the keys. -/
def Resets (s : BreakerPool) : BreakerLabel → Prop
  | .answer i _ => ∃ p, s.procs[i]? = some p ∧ p.info = .reset
  | _ => False

/-- After a `maybe_trip` that returned True, an `is_open` that started later and has ended within
`half_open_after` of that return returned True, unless a `reset` came between. -/
def StaysOpen (ok : BreakerPool → BreakerLabel → Prop) (now : ℚ) : Prop :=
  ∀ s i s₁ s₂ j p r, Reaches b.pool.step ok (init now) s → ok s (.answer i ()) →
    b.Trips s i s₁ → Reaches b.pool.step (fun s l => ok s l ∧ ¬ Resets s l) s₁ s₂ →
    s₁.procs.length ≤ j → s₂.procs[j]? = some p → p.info = .isOpen →
    p.returned = some (some r) → s₂.world.now ≤ s₁.world.now + b.halfOpenAfter → r = true

/-- No call is in the middle of an operation. -/
def Idle (s : BreakerPool) : Prop := ∀ p ∈ s.procs, p.running = false

/-- Time passes. -/
def Ticks (_ : BreakerPool) : BreakerLabel → Prop
  | .env _ => True
  | _ => False

/-- Time passes, or the call gets on. -/
def Alone (i : ℕ) (_ : BreakerPool) : BreakerLabel → Prop
  | .answer j _ => j = i
  | .env _ => True
  | _ => False

/-- From a state in which no call is in the middle of an operation, an `is_open` that is made more
than `half_open_after` later, with nobody else around, can be brought to its end, and returns False. -/
def Recovers (ok : BreakerPool → BreakerLabel → Prop) (now : ℚ) : Prop :=
  ∀ s s₁ site s₂, Reaches b.pool.step ok (init now) s → Idle s → Reaches b.pool.step Ticks s s₁ →
    s.world.now + b.halfOpenAfter < s₁.world.now →
    b.pool.step s₁ (.start .isOpen site) = some s₂ →
    (∃ s₃, Reaches b.pool.step (Alone s.procs.length) s₂ s₃ ∧
      ∃ p r, s₃.procs[s.procs.length]? = some p ∧ p.returned = some r) ∧
    ∀ s₃ p r, Reaches b.pool.step (Alone s.procs.length) s₂ s₃ →
      s₃.procs[s.procs.length]? = some p → p.returned = some r → r = some false

/-- A call is about to store the time of a trip. -/
def Stamping (procs : List BreakerProc) : Prop := ∃ p ∈ procs, ∃ t, p.Makes (.setLastFailure t)

/-- Whether a trip has yet to store its time can be checked. -/
instance (procs : List BreakerProc) : Decidable (Stamping procs) :=
  decidable_of_iff (∃ p ∈ procs, p.op?.any fun o => o matches .setLastFailure _) (by
    refine exists_congr fun p => and_congr_right fun _ => ?_
    simp only [Proc.makes_iff, Option.any_eq_true]
    constructor
    · rintro ⟨o, ho, hmatch⟩
      cases o <;> first | exact ⟨_, ho⟩ | cases hmatch
    · rintro ⟨t, ht⟩
      exact ⟨_, ht, rfl⟩)

/-- The condition on commands. An open breaker becomes half-open only when the time stored is longer ago
than `half_open_after`; a trip stores its time, and returns, while the clock still shows what it has
read; and while a trip has yet to store its time, the breaker is neither deleted nor made half-open. -/
def OrderlyCommand (s : BreakerPool) : BreakerOp → Prop
  | .setState .halfOpen => s.world.keys.state = some .opened →
      b.Aged s.world.keys s.world.now ∧ ¬ Stamping s.procs
  | .setLastFailure t => s.world.now = t
  | .delete => ¬ Stamping s.procs
  | _ => True

/-- Whether a command is in order can be checked. -/
instance (s : BreakerPool) : (o : BreakerOp) → Decidable (b.OrderlyCommand s o)
  | .setState .halfOpen => decidable_of_iff (s.world.keys.state = some .opened →
      b.Aged s.world.keys s.world.now ∧ ¬ Stamping s.procs) Iff.rfl
  | .setLastFailure t => decidable_of_iff (s.world.now = t) Iff.rfl
  | .delete => decidable_of_iff (¬ Stamping s.procs) Iff.rfl
  | .setState .closed | .setState .opened | .time | .getState | .getLastFailure | .zcount _ _
  | .execute _ _ => isTrue trivial

/-- The condition on steps: commands are orderly, and the loss of callers does not leave an open
breaker without a time unless a call that is left will store one. -/
def Orderly (s : BreakerPool) : BreakerLabel → Prop
  | .answer i _ => ∀ p o, s.procs[i]? = some p → p.Makes o → b.OrderlyCommand s o
  | .crash site => s.world.keys.state = some .opened → s.world.keys.lastFailure = none →
      Stamping (s.procs.map (Proc.kill site))
  | _ => True

/-- Whether a step is in order can be checked. -/
instance (s : BreakerPool) : (l : BreakerLabel) → Decidable (b.Orderly s l)
  | .answer i _ => decidable_of_iff
      (∀ p ∈ s.procs[i]?, ∀ o ∈ p.op?, b.OrderlyCommand s o) (by
        simp only [Orderly, Proc.makes_iff, Option.mem_def]
        exact forall_congr' fun p => forall_comm)
  | .crash site => decidable_of_iff (s.world.keys.state = some .opened → s.world.keys.lastFailure = none →
      Stamping (s.procs.map (Proc.kill site))) Iff.rfl
  | .start _ _ | .env _ => isTrue trivial

variable {b} {s t : BreakerPool}

/-! ## Trips under way -/

/-- A call that is not lost is about to store the time of a trip. -/
def Pending (l : List (BreakerProc × Point)) : Prop :=
  ∃ x ∈ l, x.1.prog ≠ none ∧ ∃ t, x.2 = .stamping t

/-- Commands tell the same as points. -/
theorem pending_iff {l : List (BreakerProc × Point)} (h : ∀ x ∈ l, b.Tracked x) :
    Stamping (l.map Prod.fst) ↔ Pending l := by
  constructor
  · rintro ⟨p, hp, t, hmakes⟩
    obtain ⟨x, hx, rfl⟩ := List.mem_map.mp hp
    obtain ⟨hne, hop⟩ := (h x hx).makes_iff.mp hmakes
    refine ⟨x, hx, hne, t, ?_⟩
    cases hpt : x.2 <;> rw [hpt] at hop <;> cases hop
    rfl
  · rintro ⟨x, hx, hne, t, ht⟩
    exact ⟨x.1, List.mem_map_of_mem hx, t, (h x hx).makes_iff.mpr ⟨hne, by rw [ht]; rfl⟩⟩

/-- A call that gets on and is no trip under way changes nothing about the others. -/
theorem Pending.of_set {l : List (BreakerProc × Point)} {i : ℕ} {y : BreakerProc × Point}
    (h : Pending (l.set i y)) (hy : ∀ t, y.2 ≠ .stamping t) : Pending l := by
  obtain ⟨x, hx, hne, t, ht⟩ := h
  rcases List.mem_or_eq_of_mem_set hx with hx | rfl
  · exact ⟨x, hx, hne, t, ht⟩
  · exact absurd ht (hy t)

/-- A trip under way stays so while others get on. -/
theorem Pending.set {l : List (BreakerProc × Point)} {i : ℕ} {x y : BreakerProc × Point}
    (h : Pending l) (hi : l[i]? = some x) (hx : ∀ t, x.2 ≠ .stamping t) : Pending (l.set i y) := by
  obtain ⟨z, hz, hne, t, ht⟩ := h
  obtain ⟨j, hj⟩ := List.mem_iff_getElem?.mp hz
  have hij : i ≠ j := by
    rintro rfl
    rw [hi] at hj
    obtain rfl := Option.some.inj hj
    exact hx t ht
  exact ⟨z, List.mem_of_getElem? (by rw [List.getElem?_set_ne hij, hj]), hne, t, ht⟩

/-- A call that starts is no trip under way. -/
theorem Pending.of_concat {l : List (BreakerProc × Point)} {p : BreakerProc} {c : BreakerCall}
    (h : Pending (l ++ [(p, .start c)])) : Pending l := by
  obtain ⟨x, hx, hne, t, ht⟩ := h
  rcases List.mem_append.mp hx with hx | hx
  · exact ⟨x, hx, hne, t, ht⟩
  · obtain rfl := List.mem_singleton.mp hx
    cases c <;> cases ht

/-- A trip under way after the loss of callers was under way before it. -/
theorem Pending.of_kill {l : List (BreakerProc × Point)} {site : ℕ}
    (h : Pending (l.map fun x => (x.1.kill site, x.2))) : Pending l := by
  obtain ⟨x, hx, hne, ht⟩ := h
  obtain ⟨y, hy, rfl⟩ := List.mem_map.mp hx
  obtain ⟨q, hq⟩ := Option.ne_none_iff_exists'.mp hne
  exact ⟨y, hy, by simp [(Proc.kill_prog_eq_some hq).1], ht⟩

/-- The time a `maybe_trip` has read. -/
def read? : Point → Option ℚ
  | .counting now | .opening now | .stamping now => some now
  | _ => none

/-- What holds in orderly runs: a trip under way has opened the breaker, an open breaker has a time or
gets one, and no time is ahead of the clock. -/
structure Sound (w : BreakerWorld) (l : List (BreakerProc × Point)) : Prop where
  opened : Pending l → w.keys.state = some .opened
  dated : w.keys.state = some .opened → w.keys.lastFailure = none → Pending l
  stored_le : ∀ last, w.keys.lastFailure = some last → last ≤ w.now
  read_le : ∀ x ∈ l, ∀ t, read? x.2 = some t → t ≤ w.now

section Sound

variable {w w' : BreakerWorld} {l : List (BreakerProc × Point)} {i : ℕ} {p : BreakerProc} {pt : Point}
  {y : BreakerProc × Point}

/-- The reading of a call that gets on, beside those of the others. -/
theorem Sound.read_le_set (h : Sound w l) (hnow : w'.now = w.now)
    (hy : ∀ t, read? y.2 = some t → t ≤ w.now) :
    ∀ x ∈ l.set i y, ∀ t, read? x.2 = some t → t ≤ w'.now := by
  intro x hx t ht
  rw [hnow]
  rcases List.mem_or_eq_of_mem_set hx with hx | rfl
  · exact h.read_le x hx t ht
  · exact hy t ht

/-- A call that leaves state and time, and is no trip under way before or after. -/
theorem Sound.of_unchanged (h : Sound w l) (hi : l[i]? = some (p, pt))
    (hpt : ∀ t, pt ≠ .stamping t) (hnow : w'.now = w.now) (hstate : w'.keys.state = w.keys.state)
    (hlast : w'.keys.lastFailure = w.keys.lastFailure) (hy : ∀ t, y.2 ≠ .stamping t)
    (hread : ∀ t, read? y.2 = some t → t ≤ w.now) : Sound w' (l.set i y) where
  opened hpending := by
    rw [hstate]
    exact h.opened (hpending.of_set hy)
  dated hopened hnone := by
    rw [hstate] at hopened
    rw [hlast] at hnone
    exact (h.dated hopened hnone).set hi hpt
  stored_le := by
    rw [hlast, hnow]
    exact h.stored_le
  read_le := h.read_le_set hnow hread

/-- **Orderly commands keep it.** -/
theorem Sound.answer {o : BreakerOp} (h : Sound w l) (hi : l[i]? = some (p, pt))
    (htracked : ∀ x ∈ l, b.Tracked x) (hmakes : p.Makes o)
    (horderly : b.OrderlyCommand ⟨w, l.map Prod.fst⟩ o) :
    Sound (pt.step b w).1
      (l.set i ({ p with prog := some ((pt.step b w).2.prog b) }, (pt.step b w).2)) := by
  have hop : pt.op b = some o :=
    ((htracked _ (List.mem_of_getElem? hi)).makes_iff.mp hmakes).2
  have hread : ∀ t, read? pt = some t → t ≤ w.now := h.read_le _ (List.mem_of_getElem? hi)
  have hstamping := pending_iff htracked
  cases pt with
  | looking =>
    refine h.of_unchanged hi (by simp) rfl rfl rfl ?_ ?_ <;>
      by_cases hstate : w.keys.state = some .opened <;> simp [Point.step, hstate, read?]
  | dating =>
    refine h.of_unchanged hi (by simp) rfl rfl rfl ?_ ?_ <;>
      cases hlast : w.keys.lastFailure <;> simp [Point.step, hlast, read?]
  | ageing last =>
    refine h.of_unchanged hi (by simp) rfl rfl rfl ?_ ?_ <;>
      by_cases hage : b.halfOpenAfter < w.now - last <;> simp [Point.step, hage, read?]
  | counting now =>
    refine h.of_unchanged hi (by simp) rfl rfl rfl ?_ ?_ <;>
      by_cases hcount : b.failureThreshold ≤ (w.keys.failures.zcount (now - b.window) now : ℤ) <;>
      simp [Point.step, hcount, read?, hread now rfl]
  | tripping =>
    exact h.of_unchanged hi (by simp) rfl rfl rfl (by simp [Point.step]) (by simp [Point.step, read?])
  | failing =>
    exact h.of_unchanged hi (by simp) rfl rfl rfl (by simp [Point.step]) (by simp [Point.step, read?])
  | recording now =>
    exact h.of_unchanged hi (by simp) rfl rfl rfl (by simp [Point.step]) (by simp [Point.step, read?])
  | probing =>
    cases hop
    refine ⟨fun hpending => ?_, fun hopened => (by cases hopened), h.stored_le,
      h.read_le_set rfl fun t ht => (by cases ht)⟩
    -- no trip is under way when an open breaker becomes half-open
    have hpending : Pending l := hpending.of_set (by simp [Point.step])
    exact absurd (hstamping.mpr hpending) (horderly (h.opened hpending)).2
  | opening now =>
    refine ⟨fun _ => rfl, fun _ _ => ?_, h.stored_le, h.read_le_set rfl fun t ht => hread t ht⟩
    have hlt : i < l.length := (List.getElem?_eq_some_iff.mp hi).1
    exact ⟨_, List.mem_set hlt _, by simp, now, rfl⟩
  | stamping now =>
    refine ⟨fun hpending => ?_, fun _ hnone => (by cases hnone), fun last hlast => ?_,
      h.read_le_set rfl fun t ht => (by cases ht)⟩
    · exact h.opened (hpending.of_set (by simp [Point.step]))
    · obtain rfl := Option.some.inj hlast
      exact hread now rfl
  | clearing =>
    cases hop
    refine ⟨fun hpending => ?_, fun hopened => (by cases hopened), fun last hlast => (by cases hlast),
      h.read_le_set rfl fun t ht => (by cases ht)⟩
    -- nor when the keys are deleted
    exact absurd (hstamping.mpr (hpending.of_set (by simp [Point.step]))) horderly
  | done r => cases hop

/-- The loss of callers and the passing of time keep it, too. -/
theorem soundRule (b : CircuitBreaker) : BreakerRule b b.Orderly Sound where
  start := by
    intro w l c site h _
    refine ⟨fun hpending => h.opened hpending.of_concat, fun hopened hnone => ?_, h.stored_le, ?_⟩
    · obtain ⟨x, hx, hrest⟩ := h.dated hopened hnone
      exact ⟨x, List.mem_append_left _ hx, hrest⟩
    · intro x hx t ht
      rcases List.mem_append.mp hx with hx | hx
      · exact h.read_le x hx t ht
      · obtain rfl := List.mem_singleton.mp hx
        cases c <;> cases ht
  answer := by
    intro w l i p pt o h hok hi htracked hmakes
    exact h.answer hi htracked hmakes (hok p o (by simp [hi]) hmakes)
  crash := by
    intro w l site h hok htracked
    refine ⟨fun hpending => h.opened hpending.of_kill, fun hopened hnone => ?_, h.stored_le, ?_⟩
    · -- an open breaker without a time keeps a caller that will store one
      have hkilled : ∀ x ∈ l.map (fun x => (x.1.kill site, x.2)), b.Tracked x := by
        intro x hx
        obtain ⟨y, hy, rfl⟩ := List.mem_map.mp hx
        exact (htracked y hy).kill site
      refine (pending_iff hkilled).mp ?_
      have hleft : Stamping ((l.map Prod.fst).map (Proc.kill site)) := hok hopened hnone
      simpa [Function.comp_def] using hleft
    · intro x hx t ht
      obtain ⟨y, hy, rfl⟩ := List.mem_map.mp hx
      exact h.read_le y hy t ht
  env := by
    intro w l d h _
    have hle : w.now ≤ w.now + d := by linarith [d.2]
    exact ⟨h.opened, h.dated, fun last hlast => (h.stored_le last hlast).trans hle,
      fun x hx t ht => (h.read_le x hx t ht).trans hle⟩

end Sound

/-! ## After a trip -/

/-- What an `is_open` has seen since a trip at `t`. -/
def Sees (t : ℚ) : Point → Prop
  | .looking | .dating => True
  | .ageing last => t ≤ last
  | .done r => r = some true
  | _ => False

/-- What holds after a trip at `t`, as long as its interval lasts: the breaker is open since then at
the earliest, and the calls of `is_open` from the `n`-th call on have seen nothing else. -/
def Open (b : CircuitBreaker) (t : ℚ) (n : ℕ) (w : BreakerWorld) (l : List (BreakerProc × Point)) :
    Prop :=
  t ≤ w.now ∧ (w.now ≤ t + b.halfOpenAfter → w.keys.state = some .opened ∧
    (∃ last, w.keys.lastFailure = some last ∧ t ≤ last) ∧
    ∀ j x, l[j]? = some x → n ≤ j → x.1.info = .isOpen → Sees t x.2)

/-- **The interval lasts**: orderly commands other than those of `reset` keep the breaker open, and
show nothing else to who asks. -/
theorem openRule (b : CircuitBreaker) (t : ℚ) (n : ℕ) :
    BreakerRule b (fun s l => b.Orderly s l ∧ ¬ Resets s l) (b.Open t n) where
  start := by
    intro w l c site h _
    refine ⟨h.1, fun hnow => ?_⟩
    obtain ⟨hstate, hlast, hsees⟩ := h.2 hnow
    refine ⟨hstate, hlast, fun j x hj hn hinfo => ?_⟩
    rcases getElem?_concat_cases hj with hj | ⟨-, rfl⟩
    · exact hsees j x hj hn hinfo
    · obtain rfl : c = .isOpen := hinfo
      trivial
  answer := by
    intro w l i p pt o h hok hi htracked hmakes
    have hpt : b.Tracked (p, pt) := htracked _ (List.mem_of_getElem? hi)
    have hop : pt.op b = some o := (hpt.makes_iff.mp hmakes).2
    have horderly : b.OrderlyCommand ⟨w, l.map Prod.fst⟩ o := hok.1 p o (by simp [hi]) hmakes
    have hnow' : (pt.step b w).1.now = w.now := by cases pt <;> rfl
    refine ⟨hnow'.symm ▸ h.1, fun hnow => ?_⟩
    rw [hnow'] at hnow
    obtain ⟨hstate, ⟨last, hlast, hle⟩, hsees⟩ := h.2 hnow
    -- what the commands leave of state and time
    have hkeys : (pt.step b w).1.keys.state = some .opened ∧
        ∃ last, (pt.step b w).1.keys.lastFailure = some last ∧ t ≤ last := by
      cases pt with
      | probing =>
        -- the time stored is not old enough
        cases hop
        obtain ⟨-, last', hlast', hage⟩ := (horderly hstate).1
        obtain rfl : last' = last := Option.some.inj (hlast'.symm.trans hlast)
        have hage : b.halfOpenAfter < w.now - last' := hage
        linarith
      | stamping now =>
        -- the clock, which has not gone back, is what is stored
        cases hop
        have hstored : w.now = now := horderly
        exact ⟨hstate, now, rfl, hstored ▸ h.1⟩
      | clearing =>
        have hreset : p.info = .reset := hpt.of
        exact absurd ⟨p, by simp [hi], hreset⟩ hok.2
      | opening now => exact ⟨rfl, last, hlast, hle⟩
      | looking | dating | ageing _ | tripping | counting _ | failing | recording _ | done _ =>
        exact ⟨hstate, last, hlast, hle⟩
    refine ⟨hkeys.1, hkeys.2, fun j x hj hn hinfo => ?_⟩
    rcases getElem?_set_cases hj with ⟨rfl, rfl⟩ | ⟨-, hj⟩
    · have hsaw : Sees t pt := hsees j _ hi hn hinfo
      cases pt with
      | looking => simp [Point.step, hstate, Sees]
      | dating => simpa [Point.step, hlast, Sees] using hle
      | ageing seen =>
        have hseen : t ≤ seen := hsaw
        have hyoung : ¬ b.halfOpenAfter < w.now - seen := by linarith
        simp [Point.step, hyoung, Sees]
      | done r => exact hsaw
      | probing | tripping | counting _ | opening _ | stamping _ | failing | recording _ | clearing =>
        exact hsaw.elim
    · exact hsees j x hj hn hinfo
  crash := by
    intro w l site h _ _
    refine ⟨h.1, fun hnow => ?_⟩
    obtain ⟨hstate, hlast, hsees⟩ := h.2 hnow
    refine ⟨hstate, hlast, fun j x hj hn hinfo => ?_⟩
    rw [List.getElem?_map, Option.map_eq_some_iff] at hj
    obtain ⟨y, hy, rfl⟩ := hj
    exact hsees j y hy hn (by simpa using hinfo)
  env := by
    intro w l d h _
    have hle : w.now ≤ w.now + d := by linarith [d.2]
    exact ⟨h.1.trans hle, fun hnow => h.2 (hle.trans hnow)⟩

/-- A new breaker is sound. -/
theorem holds_sound_init (b : CircuitBreaker) (now : ℚ) : b.Holds Sound (init now) := by
  refine ⟨[], rfl, by simp, ?_, ?_, ?_, by simp⟩
  · rintro ⟨x, hx, -⟩
    cases hx
  · intro hopened
    cases hopened
  · intro last hlast
    cases hlast

/-- The step with which `maybe_trip` returns True stores the time of its return in an open breaker. -/
theorem Trips.keys_eq {i : ℕ} (h : b.Trips s i t) (hs : b.Holds Sound s)
    (hok : b.Orderly s (.answer i ())) :
    t.world.keys.state = some .opened ∧ t.world.keys.lastFailure = some t.world.now := by
  obtain ⟨l, hl, htracked, hsound⟩ := hs
  obtain ⟨p, hi, hinfo, -⟩ := h.before
  obtain ⟨p', hi', hout⟩ := h.after
  rcases PoolSpec.step_cases h.step with ⟨c, site, hlbl, -⟩ |
    ⟨i', ans, q, o, k, w, res, hlbl, hi₀, hprog, hx, rfl⟩ | ⟨site, hlbl, -⟩ | ⟨d, w, hlbl, -, -⟩
  · cases hlbl
  · cases hlbl
    obtain rfl := Option.some.inj (hi.symm.trans hi₀)
    have hlt : i < s.procs.length := (List.getElem?_eq_some_iff.mp hi).1
    obtain rfl : p' = { p with prog := some (k res) } := by simpa [hlt, eq_comm] using hi'
    have horderly : ∀ o, p.Makes o → b.OrderlyCommand s o := fun o => hok p o hi
    rw [← hl, List.getElem?_map, Option.map_eq_some_iff] at hi
    obtain ⟨⟨p, pt⟩, hi, rfl⟩ := hi
    have hpt : b.Tracked (p, pt) := htracked _ (List.mem_of_getElem? hi)
    obtain ⟨rfl, rfl⟩ := Prod.mk.inj (Option.some.inj hx)
    obtain ⟨hstep, hk⟩ := Point.exec_eq b (hpt.prog _ hprog).symm s.world
    have hdone : (k (.ok (s.world.exec o).2)).outcome = some (.ok (some true)) :=
      Proc.returned_eq_some.mp hout
    have hnext : pt.next b o (.ok (s.world.exec o).2) = (pt.step b s.world).2 :=
      congrArg Prod.snd hstep
    rw [hk, hnext] at hdone
    obtain ⟨r', hr', hret⟩ := (Point.outcome_prog_eq_some b).mp hdone
    cases hret
    have hof : pt.Of .maybeTrip := hinfo ▸ hpt.of
    -- of the points of `maybe_trip` only the last one returns True
    have hw : (s.world.exec o).1 = (pt.step b s.world).1 := congrArg Prod.fst hstep
    rw [hw]
    cases pt with
    | stamping now =>
      have halive : p.prog ≠ none := fun hnone => by
        rw [hnone] at hprog
        cases hprog
      have hmakes : p.Makes (.setLastFailure now) := hpt.makes_iff.mpr ⟨halive, rfl⟩
      have hread : s.world.now = now := horderly _ hmakes
      exact ⟨hsound.opened ⟨_, List.mem_of_getElem? hi, halive, now, rfl⟩, hread ▸ rfl⟩
    | counting now =>
      simp only [Point.step] at hr'
      split at hr' <;> cases hr'
    | tripping | opening _ => cases hr'
    | done r => cases hpt.prog _ hprog
    | looking | dating | ageing _ | probing | failing | recording _ | clearing => cases hof
  · cases hlbl
  · cases hlbl

/-- **An orderly breaker stays open.** -/
theorem staysOpen (b : CircuitBreaker) (now : ℚ) : b.StaysOpen b.Orderly now := by
  intro s i s₁ s₂ j p r hs hok htrips hrun hj hp hinfo hout hnow
  have hsound : b.Holds Sound s := (soundRule b).run hs (holds_sound_init b now)
  obtain ⟨l, hl, htracked, -⟩ : b.Holds Sound s₁ := (soundRule b).step hsound hok htrips.step
  obtain ⟨hstate, hstored⟩ := htrips.keys_eq hsound hok
  have hopen : b.Holds (b.Open s₁.world.now s₁.procs.length) s₁ := by
    refine ⟨l, hl, htracked, le_rfl, fun _ => ⟨hstate, ⟨_, hstored, le_rfl⟩, ?_⟩⟩
    -- nobody has started since
    intro j x hj hn
    have hlt : j < l.length := (List.getElem?_eq_some_iff.mp hj).1
    have hlen : l.length = s₁.procs.length := by rw [← hl, List.length_map]
    omega
  obtain ⟨l₂, hl₂, htracked₂, hI⟩ := (openRule b s₁.world.now s₁.procs.length).run hrun hopen
  rw [← hl₂, List.getElem?_map, Option.map_eq_some_iff] at hp
  obtain ⟨x, hx, rfl⟩ := hp
  have hdone : x.2 = .done (some r) := (htracked₂ x (List.mem_of_getElem? hx)).of_returned hout
  have hsees : Sees s₁.world.now x.2 := (hI.2 hnow).2.2 j x hx hj hinfo
  rw [hdone] at hsees
  exact Option.some.inj hsees

/-! ## After a long time -/

/-- What an `is_open` sees that comes late enough. -/
def Late (b : CircuitBreaker) (w : BreakerWorld) : Point → Prop
  | .looking => w.keys.state = some .opened → b.Aged w.keys w.now
  | .dating => ∃ last, w.keys.lastFailure = some last ∧ b.halfOpenAfter < w.now - last
  | .ageing last => b.halfOpenAfter < w.now - last
  | .probing => True
  | .done r => r = some false
  | _ => False

/-- A late call that is left alone stays late. -/
theorem lateRule (b : CircuitBreaker) (n : ℕ) : BreakerRule b (Alone n) fun w l =>
    ∃ x, l[n]? = some x ∧ b.Late w x.2 where
  start _ hok := hok.elim
  crash _ hok := hok.elim
  answer := by
    rintro w l i p pt o ⟨x, hx, hlate⟩ hin hi htracked hmakes
    obtain rfl : i = n := hin
    obtain rfl : (p, pt) = x := Option.some.inj (hi.symm.trans hx)
    refine ⟨_, List.getElem?_set_self (List.getElem?_eq_some_iff.mp hi).1, ?_⟩
    cases pt with
    | looking =>
      by_cases hstate : w.keys.state = some .opened
      · simpa [Point.step, hstate, Late] using (hlate hstate).2
      · simp [Point.step, hstate, Late]
    | dating =>
      obtain ⟨last, hlast, hage⟩ := hlate
      simpa [Point.step, hlast, Late] using hage
    | ageing last =>
      have hage : b.halfOpenAfter < w.now - last := hlate
      simp [Point.step, hage, Late]
    | probing => rfl
    | done r => exact hlate
    | tripping | counting _ | opening _ | stamping _ | failing | recording _ | clearing =>
      exact hlate.elim
  env := by
    rintro w l d ⟨x, hx, hlate⟩ -
    have hd : 0 ≤ (d : ℚ) := d.2
    refine ⟨x, hx, ?_⟩
    cases hpt : x.2 <;> rw [hpt] at hlate
    case looking =>
      intro hstate
      obtain ⟨-, last, hlast, hage⟩ := hlate hstate
      exact ⟨hstate, last, hlast, by dsimp only; linarith⟩
    case dating =>
      obtain ⟨last, hlast, hage⟩ := hlate
      exact ⟨last, hlast, by dsimp only; linarith⟩
    case ageing last =>
      have hage : b.halfOpenAfter < w.now - last := hlate
      change b.halfOpenAfter < w.now + d - last
      linarith
    all_goals exact hlate

/-- Time leaves the keys and the calls. -/
theorem eq_of_ticks (h : Reaches b.pool.step Ticks s t) :
    t.procs = s.procs ∧ t.world.keys = s.world.keys := by
  refine h.invariant (P := fun t => t.procs = s.procs ∧ t.world.keys = s.world.keys) ?_ ⟨rfl, rfl⟩
  rintro u l v ⟨hprocs, hkeys⟩ htick hstep
  cases l with
  | env d =>
    obtain rfl := Option.some.inj hstep
    exact ⟨hprocs, hkeys⟩
  | start _ _ | answer _ _ | crash _ => exact htick.elim

/-- **An orderly breaker recovers.** -/
theorem recovers (b : CircuitBreaker) (now : ℚ) : b.Recovers b.Orderly now := by
  intro s s₁ site s₂ hs hidle hticks hlater hstart
  obtain ⟨l, hl, htracked, hsound⟩ := (soundRule b).run hs (holds_sound_init b now)
  obtain ⟨hprocs, hkeys⟩ := eq_of_ticks hticks
  obtain rfl := Option.some.inj hstart
  -- an idle breaker that is open has a time, and it is an old one by now
  have haged : s₁.world.keys.state = some .opened → b.Aged s₁.world.keys s₁.world.now := by
    intro hopened
    refine ⟨hopened, ?_⟩
    rw [hkeys] at hopened ⊢
    cases hlast : s.world.keys.lastFailure with
    | none =>
      obtain ⟨x, hx, hne, t, ht⟩ := hsound.dated hopened hlast
      obtain ⟨q, hq⟩ := Option.ne_none_iff_exists'.mp hne
      have hrun : x.1.running = true := by
        rw [Proc.running_iff]
        rw [(htracked x hx).prog q hq, ht] at hq
        exact ⟨_, _, hq⟩
      have hquiet : x.1.running = false := hidle x.1 (hl ▸ List.mem_map_of_mem hx)
      rw [hrun] at hquiet
      cases hquiet
    | some last =>
      have hle : last ≤ s.world.now := hsound.stored_le last hlast
      exact ⟨last, rfl, by linarith⟩
  have hlen : s.procs.length = s₁.procs.length := by rw [hprocs]
  have hlast : (s₁.procs ++ [⟨.isOpen, site, some (b.pool.code .isOpen)⟩])[s.procs.length]? =
      some ⟨.isOpen, site, some (b.pool.code .isOpen)⟩ := by
    rw [hlen, List.getElem?_concat_length]
  refine ⟨?_, ?_⟩
  · have hrun : Reaches b.pool.step (Alone s.procs.length) _ _ := PoolSpec.reaches_runs
      (fun _ _ _ _ => rfl) (BreakerWorld.runs_finish site (b.code .isOpen) s₁.world) hlast
    refine ⟨_, hrun, ?_⟩
    have hlt : s.procs.length < (s₁.procs ++
        [(⟨.isOpen, site, some (b.pool.code .isOpen)⟩ : BreakerProc)]).length := by
      simp [hlen]
    exact ⟨_, _, List.getElem?_set_self hlt, rfl⟩
  · intro s₃ p r hrun hp hout
    have hlate : b.Holds (fun w l => ∃ x, l[s.procs.length]? = some x ∧ b.Late w x.2)
        { s₁ with procs := s₁.procs ++ [⟨.isOpen, site, some (b.pool.code .isOpen)⟩] } := by
      refine ⟨l ++ [(⟨.isOpen, site, some (b.pool.code .isOpen)⟩, .looking)], by simp [hl, hprocs],
        fun x hx => ?_, (⟨.isOpen, site, some (b.pool.code .isOpen)⟩, .looking), ?_, haged⟩
      · rcases List.mem_append.mp hx with hx | hx
        · exact htracked x hx
        · obtain rfl := List.mem_singleton.mp hx
          exact ⟨fun q hq => (Option.some.inj hq).symm, rfl⟩
      · rw [← hl, List.length_map, List.getElem?_concat_length]
    obtain ⟨l₃, hl₃, htracked₃, x, hx, hI⟩ := (lateRule b s.procs.length).run hrun hlate
    rw [← hl₃, List.getElem?_map, hx] at hp
    obtain rfl := Option.some.inj hp
    have hdone : x.2 = .done r := (htracked₃ x (List.mem_of_getElem? hx)).of_returned hout
    rw [hdone] at hI
    exact hI

/-- A run in which nobody ever calls `reset` is one in which none deletes. -/
theorem reaches_not_resets {ok : BreakerPool → BreakerLabel → Prop}
    (h : Reaches b.pool.step ok s t) (hnone : .reset ∉ t.procs.map Proc.info) :
    Reaches b.pool.step (fun s l => ok s l ∧ ¬ Resets s l) s t := by
  induction h with
  | refl => exact .refl
  | @tail u v l _ hok hstep ih =>
    have hnone' : .reset ∉ u.procs.map Proc.info := fun hmem =>
      hnone ((PoolSpec.step_infos hstep).subset hmem)
    refine .tail (ih hnone') ⟨hok, fun hresets => hnone' ?_⟩ hstep
    cases l with
    | answer i _ =>
      obtain ⟨p, hp, hinfo⟩ := hresets
      exact List.mem_map.mpr ⟨p, List.mem_of_getElem? hp, hinfo⟩
    | start _ _ | crash _ | env _ => exact hresets.elim

/-- **The open interval of a breaker**, in every orderly run of any number of calls at once, whoever
is lost: after a `maybe_trip` that returned True it lasts until `half_open_after` has passed or a `reset`
has come, and an `is_open` made later than that, with no operation under way, ends it. -/
theorem openInterval (b : CircuitBreaker) (now : ℚ) :
    b.StaysOpen b.Orderly now ∧ b.Recovers b.Orderly now :=
  ⟨staysOpen b now, recovers b now⟩

/-- A breaker that is tripped at 0 answers True to who asks at 30, and False to who asks at 61. -/
theorem openInterval_tripped : ∃ (s s₁ s₂ s₃ s₄ s₅ : BreakerPool) (p q : BreakerProc),
    Reaches (pool ⟨1, 60, 30⟩).step (Orderly ⟨1, 60, 30⟩) (init 0) s ∧
      Trips ⟨1, 60, 30⟩ s 1 s₁ ∧ s₁.world.now = 0 ∧
      Reaches (pool ⟨1, 60, 30⟩).step (Orderly ⟨1, 60, 30⟩) s₁ s₂ ∧ s₂.world.now = 30 ∧
      s₂.procs[2]? = some p ∧ p.info = .isOpen ∧ p.returned = some (some true) ∧
      Reaches (pool ⟨1, 60, 30⟩).step Ticks s₂ s₃ ∧ s₃.world.now = 61 ∧
      (pool ⟨1, 60, 30⟩).step s₃ (.start .isOpen 0) = some s₄ ∧
      Reaches (pool ⟨1, 60, 30⟩).step (Alone 3) s₄ s₅ ∧
      s₅.procs[3]? = some q ∧ q.returned = some (some false) := by
  have hrun : ((runSteps (guarded (pool ⟨1, 60, 30⟩).step (Orderly ⟨1, 60, 30⟩)) (init 0)
      [.start .recordFailure 0, .answer 0 (), .answer 0 (),
        .start .maybeTrip 0, .answer 1 (), .answer 1 (), .answer 1 ()]).bind fun s =>
      ((pool ⟨1, 60, 30⟩).step s (.answer 1 ())).bind fun s₁ =>
      (runSteps (guarded (pool ⟨1, 60, 30⟩).step (Orderly ⟨1, 60, 30⟩)) s₁
        [.env ⟨30, by decide⟩, .start .isOpen 0, .answer 2 (), .answer 2 (), .answer 2 ()]).bind
        fun s₂ => (runSteps (pool ⟨1, 60, 30⟩).step s₂ [.env ⟨31, by decide⟩]).bind fun s₃ =>
      ((pool ⟨1, 60, 30⟩).step s₃ (.start .isOpen 0)).map
        fun _ => decide (Orderly ⟨1, 60, 30⟩ s (.answer 1 ()) ∧
          s.procs[1]?.map (fun p => (p.info, p.returned)) = some (.maybeTrip, none) ∧
          s₁.procs[1]?.map Proc.returned = some (some (some true)) ∧
          s₁.world.now = 0 ∧ s₁.procs.length = 2 ∧
          s₂.procs.map Proc.running = [false, false, false] ∧ s₂.procs.length = 3 ∧
          (s₂.procs[2]?.map fun p => (p.info, p.returned.join.isSome)) = some (.isOpen, true) ∧
          s₂.world.now = 30 ∧ .reset ∉ s₂.procs.map Proc.info ∧ s₃.world.now = 61)) = some true := by
    decide +kernel
  simp only [Option.bind_eq_some_iff, Option.map_eq_some_iff, Prod.mk.injEq, decide_eq_true_eq,
    Option.isSome_iff_exists, Option.join_eq_some_iff] at hrun
  obtain ⟨s, hs, s₁, hs₁, s₂, hs₂, s₃, hs₃, s₄, hs₄, hok, ⟨p₁, hp₁, hinfo₁, hout₁⟩, ⟨p₁', hp₁', hout₁'⟩,
    hnow₁, hlen₁, hidle, hlen₂, ⟨p, hp, hinfo, r, hout⟩, hnow₂, hnone, hnow₃⟩ := hrun
  have hreach : Reaches _ (Orderly ⟨1, 60, 30⟩) (init 0) s := .of_guarded hs
  have hreach₂ : Reaches _ (Orderly ⟨1, 60, 30⟩) s₁ s₂ := .of_guarded hs₂
  have hticks : Reaches _ (fun _ => Ticks s) s₂ s₃ := .of_runSteps (by simp [Ticks]) hs₃
  have htrips : Trips ⟨1, 60, 30⟩ s 1 s₁ := ⟨hs₁, ⟨p₁, hp₁, hinfo₁, hout₁⟩, ⟨p₁', hp₁', hout₁'⟩⟩
  have htrue : r = true := (openInterval ⟨1, 60, 30⟩ 0).1 s 1 s₁ s₂ 2 p r hreach hok htrips
    (reaches_not_resets hreach₂ hnone) hlen₁.le hp hinfo hout (by rw [hnow₂, hnow₁]; decide +kernel)
  obtain ⟨⟨s₅, hs₅, q, r', hq, hr'⟩, hfalse⟩ := (openInterval ⟨1, 60, 30⟩ 0).2 s₂ s₃ 0 s₄
    (hreach.trans (.head hok hs₁ hreach₂)) (fun p hp => by
      have hmem := List.mem_map_of_mem (f := Proc.running) hp
      rw [hidle] at hmem
      simpa using hmem)
    hticks (by rw [hnow₂, hnow₃]; decide +kernel) hs₄
  obtain rfl : r' = some false := hfalse s₅ q r' hs₅ hq hr'
  rw [hlen₂] at hs₅ hq
  exact ⟨s, s₁, s₂, s₃, s₄, s₅, p, q, hreach, htrips, hnow₁, hreach₂, hnow₂, hp, hinfo, htrue ▸ hout,
    hticks, hnow₃, hs₄, hs₅, hq, hr'⟩

/-- An `is_open` that found the breaker old makes it half-open after it has tripped again. -/
theorem not_staysOpen :
    ¬ ∀ (b : CircuitBreaker) (now : ℚ), b.StaysOpen (fun _ _ => True) now := by
  intro h
  -- call 2 has found the time of the first trip old before call 4 trips again
  have hrun : ((runSteps (pool ⟨1, 60, 30⟩).step (init 0)
      [.start .recordFailure 0, .answer 0 (), .answer 0 (),
        .start .maybeTrip 0, .answer 1 (), .answer 1 (), .answer 1 (), .answer 1 (),
        .env ⟨31, by decide⟩, .start .isOpen 0, .answer 2 (), .answer 2 (), .answer 2 (),
        .start .recordFailure 0, .answer 3 (), .answer 3 (),
        .start .maybeTrip 0, .answer 4 (), .answer 4 (), .answer 4 ()]).bind fun s =>
      ((pool ⟨1, 60, 30⟩).step s (.answer 4 ())).bind fun s₁ =>
      (runSteps (pool ⟨1, 60, 30⟩).step s₁ [.answer 2 (), .start .isOpen 0, .answer 5 ()]).map
        fun s₂ => decide (s.procs[4]?.map (fun p => (p.info, p.returned)) = some (.maybeTrip, none) ∧
          s₁.procs[4]?.map Proc.returned = some (some (some true)) ∧
          s₁.world.now = 31 ∧ s₁.procs.length = 5 ∧
          s₂.procs[5]?.map (fun p => (p.info, p.returned)) = some (.isOpen, some (some false)) ∧
          s₂.world.now = 31 ∧ .reset ∉ s₂.procs.map Proc.info)) = some true := by
    decide +kernel
  simp only [Option.bind_eq_some_iff, Option.map_eq_some_iff, Prod.mk.injEq, decide_eq_true_eq]
    at hrun
  obtain ⟨s, hs, s₁, hs₁, s₂, hs₂, ⟨p, hp, hinfo, hout⟩, ⟨p₁, hp₁, hout₁⟩, hnow₁, hlen,
    ⟨p₂, hp₂, hinfo₂, hout₂⟩, hnow, hnone⟩ := hrun
  have hret := h ⟨1, 60, 30⟩ 0 s 4 s₁ s₂ 5 p₂ false
    (.of_runSteps (fun _ _ => trivial) hs) trivial
    ⟨hs₁, ⟨p, hp, hinfo, hout⟩, ⟨p₁, hp₁, hout₁⟩⟩
    (reaches_not_resets (.of_runSteps (fun _ _ => trivial) hs₂) hnone)
    hlen.le hp₂ hinfo₂ hout₂ (by rw [hnow, hnow₁]; decide +kernel)
  cases hret

/-- A caller that is lost while it trips leaves a breaker that is open for good. -/
theorem not_recovers :
    ¬ ∀ (b : CircuitBreaker) (now : ℚ), b.Recovers (fun _ _ => True) now := by
  intro h
  -- the caller of call 1 is lost between opening the breaker and storing the time
  have hrun : ((runSteps (pool ⟨1, 60, 30⟩).step (init 0)
      [.start .recordFailure 0, .answer 0 (), .answer 0 (),
        .start .maybeTrip 1, .answer 1 (), .answer 1 (), .answer 1 (), .crash 1]).bind fun s =>
      (runSteps (pool ⟨1, 60, 30⟩).step s [.env ⟨31, by decide⟩]).bind fun s₁ =>
      ((pool ⟨1, 60, 30⟩).step s₁ (.start .isOpen 0)).bind fun s₂ =>
      (runSteps (pool ⟨1, 60, 30⟩).step s₂ [.answer 2 (), .answer 2 ()]).map
        fun s₃ => decide (s.procs.map Proc.running = [false, false] ∧ s.procs.length = 2 ∧
          s.world.now = 0 ∧ s₁.world.now = 31 ∧
          s₃.procs[2]?.map Proc.returned = some (some (some true)))) = some true := by
    decide +kernel
  simp only [Option.bind_eq_some_iff, Option.map_eq_some_iff, decide_eq_true_eq] at hrun
  obtain ⟨s, hs, s₁, hs₁, s₂, hs₂, s₃, hs₃, hidle, hlen, hnow, hnow₁, p, hp, hout⟩ := hrun
  have hticks : Reaches _ (fun _ => Ticks s) s s₁ := .of_runSteps (by simp [Ticks]) hs₁
  have halone : Reaches _ (fun _ => Alone s.procs.length s) s₂ s₃ :=
    .of_runSteps (by simp [Alone, hlen]) hs₃
  have hret := (h ⟨1, 60, 30⟩ 0 s s₁ 0 s₂
    (.of_runSteps (fun _ _ => trivial) hs)
    (fun p hp => by
      have hmem := List.mem_map_of_mem (f := Proc.running) hp
      rw [hidle] at hmem
      simpa using hmem)
    hticks (by rw [hnow, hnow₁]; decide +kernel) hs₂).2 s₃ p _ halone (by rw [hlen]; exact hp) hout
  cases hret

/-- Neither holds in every run. -/
theorem not_openInterval :
    (¬ ∀ (b : CircuitBreaker) (now : ℚ), b.StaysOpen (fun _ _ => True) now) ∧
      ¬ ∀ (b : CircuitBreaker) (now : ℚ), b.Recovers (fun _ _ => True) now :=
  ⟨not_staysOpen, not_recovers⟩

end CircuitBreaker

end RelayQ

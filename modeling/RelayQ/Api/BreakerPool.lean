import RelayQ.Api.CircuitBreaker

/-! # Calls of a breaker at once

Between two commands a call of a breaker stands at one of a few points, with the values it has read.

* `Point`: where a call stands; `Point.step` says what it does next, `Point.exec_eq` that it does so.
* `CircuitBreaker.Tracked`: the call stands at the point.
* `BreakerRule`: the proof rule for invariants of a breaker under any number of calls at once. -/

namespace RelayQ

/-- What a call does next, with the values it has read. -/
inductive Point
  /-- `is_open` reads the state. -/
  | looking
  /-- `is_open` found the breaker open and reads the last failure. -/
  | dating
  /-- `is_open` looks at the clock to age what it read. -/
  | ageing (last : ℚ)
  /-- `is_open` sets the state to half-open. -/
  | probing
  /-- `maybe_trip` looks at the clock. -/
  | tripping
  /-- `maybe_trip` counts failures. -/
  | counting (now : ℚ)
  /-- `maybe_trip` sets the state to open. -/
  | opening (now : ℚ)
  /-- `maybe_trip` sets the last failure. -/
  | stamping (now : ℚ)
  /-- `record_failure` looks at the clock. -/
  | failing
  /-- `record_failure` writes. -/
  | recording (now : ℚ)
  /-- `reset` deletes. -/
  | clearing
  /-- The call has returned. -/
  | done (r : Option Bool)

namespace Point

open CircuitBreaker (perform)

variable (b : CircuitBreaker)

/-- Where a method starts. -/
def start : BreakerCall → Point
  | .recordFailure => failing
  | .isOpen => looking
  | .maybeTrip => tripping
  | .reset => clearing

/-- What is left of the method. -/
def prog : Point → Prog BreakerSig (Option Bool)
  | looking => b.code .isOpen
  | dating =>
    ((perform .getLastFailure).bind fun lastFailure =>
      match lastFailure with
      | some last => (perform .time).bind fun now =>
          if now - last > b.halfOpenAfter then
            (perform (.setState .halfOpen)).bind fun _ => .ret false
          else .ret true
      | none => .ret true).bind fun r => .ret (some r)
  | ageing last =>
    ((perform .time).bind fun now =>
      if now - last > b.halfOpenAfter then
        (perform (.setState .halfOpen)).bind fun _ => .ret false
      else .ret true).bind fun r => .ret (some r)
  | probing =>
    ((perform (.setState .halfOpen)).bind fun _ => .ret false).bind fun r => .ret (some r)
  | tripping => b.code .maybeTrip
  | counting now =>
    ((perform (.zcount (now - b.window) now)).bind fun count =>
      if (count : ℤ) ≥ b.failureThreshold then
        (perform (.setState .opened)).bind fun _ =>
          (perform (.setLastFailure now)).bind fun _ => .ret true
      else .ret false).bind fun r => .ret (some r)
  | opening now =>
    ((perform (.setState .opened)).bind fun _ =>
      (perform (.setLastFailure now)).bind fun _ => .ret true).bind fun r => .ret (some r)
  | stamping now =>
    ((perform (.setLastFailure now)).bind fun _ => .ret true).bind fun r => .ret (some r)
  | failing => b.code .recordFailure
  | recording now => (perform (.execute now (now - b.window))).bind fun _ => .ret none
  | clearing => b.code .reset
  | done r => .ret r

/-- What a command does to the world and to the call that makes it. -/
def step (w : BreakerWorld) : Point → BreakerWorld × Point
  | looking => (w, if w.keys.state = some .opened then dating else done (some false))
  | dating => (w, w.keys.lastFailure.elim (done (some true)) ageing)
  | ageing last => (w, if b.halfOpenAfter < w.now - last then probing else done (some true))
  | probing => ((w.exec (.setState .halfOpen)).1, done (some false))
  | tripping => (w, counting w.now)
  | counting now => (w,
      if b.failureThreshold ≤ (w.keys.failures.zcount (now - b.window) now : ℤ) then opening now
      else done (some false))
  | opening now => ((w.exec (.setState .opened)).1, stamping now)
  | stamping now => ((w.exec (.setLastFailure now)).1, done (some true))
  | failing => (w, recording w.now)
  | recording now => ((w.exec (.execute now (now - b.window))).1, done none)
  | clearing => ((w.exec .delete).1, done none)
  | done r => (w, done r)

/-- Where a call stands after the answer to a command. -/
def next : Point → (o : BreakerOp) → Except Empty o.Res → Point
  | looking, .getState, .ok state => if state = some .opened then dating else done (some false)
  | dating, .getLastFailure, .ok lastFailure => lastFailure.elim (done (some true)) ageing
  | ageing last, .time, .ok now =>
    if b.halfOpenAfter < now - last then probing else done (some true)
  | probing, .setState _, .ok _ => done (some false)
  | tripping, .time, .ok now => counting now
  | counting now, .zcount _ _, .ok count =>
    if b.failureThreshold ≤ (count : ℤ) then opening now else done (some false)
  | opening now, .setState _, .ok _ => stamping now
  | stamping _, .setLastFailure _, .ok _ => done (some true)
  | failing, .time, .ok now => recording now
  | recording _, .execute _ _, .ok _ => done none
  | clearing, .delete, .ok _ => done none
  | p, _, _ => p

/-- A method starts where it says. -/
theorem prog_start (c : BreakerCall) : (start c).prog b = b.code c := by
  cases c <;> rfl

/-- **What an answered command does.** A call that stands at a point makes the command of the point,
goes on as it says and leaves the world as it says. -/
theorem exec_eq {pt : Point} {o : BreakerOp} {k : Except Empty o.Res → Prog BreakerSig (Option Bool)}
    (h : pt.prog b = .call o k) (w : BreakerWorld) :
    ((w.exec o).1, pt.next b o (.ok (w.exec o).2)) = pt.step b w ∧
      k (.ok (w.exec o).2) = (pt.next b o (.ok (w.exec o).2)).prog b := by
  cases pt with
  | looking =>
    cases h
    refine ⟨rfl, ?_⟩
    rcases hstate : w.keys.state with _ | _ | _ | _ <;>
      simp [BreakerWorld.exec, hstate, next] <;> rfl
  | dating =>
    cases h
    refine ⟨rfl, ?_⟩
    cases hlast : w.keys.lastFailure <;> simp [BreakerWorld.exec, hlast, next] <;> rfl
  | ageing last =>
    cases h
    refine ⟨rfl, ?_⟩
    by_cases hage : b.halfOpenAfter < w.now - last <;>
      simp [BreakerWorld.exec, hage, next, Prog.ofExcept] <;> rfl
  | counting now =>
    cases h
    refine ⟨rfl, ?_⟩
    by_cases hcount : b.failureThreshold ≤ (w.keys.failures.zcount (now - b.window) now : ℤ) <;>
      simp [BreakerWorld.exec, hcount, next, Prog.ofExcept] <;> rfl
  | probing | tripping | opening now | stamping now | failing | recording now | clearing =>
    cases h
    exact ⟨rfl, rfl⟩
  | done r => cases h

/-- The next command. -/
def op : Point → Option BreakerOp
  | looking => some .getState
  | dating => some .getLastFailure
  | ageing _ | tripping | failing => some .time
  | probing => some (.setState .halfOpen)
  | counting now => some (.zcount (now - b.window) now)
  | opening _ => some (.setState .opened)
  | stamping now => some (.setLastFailure now)
  | recording now => some (.execute now (now - b.window))
  | clearing => some .delete
  | done _ => none

/-- The point is one of the method. -/
def Of (c : BreakerCall) : Point → Prop
  | looking | dating | ageing _ | probing => c = .isOpen
  | tripping | counting _ | opening _ | stamping _ => c = .maybeTrip
  | failing | recording _ => c = .recordFailure
  | clearing => c = .reset
  | done _ => True

/-- A call starts at a point of its own. -/
theorem of_start (c : BreakerCall) : (start c).Of c := by
  cases c <;> rfl

/-- A method goes through its own points. -/
theorem of_step {pt : Point} {c : BreakerCall} (h : pt.Of c) (w : BreakerWorld) :
    (pt.step b w).2.Of c := by
  cases pt with
  | looking =>
    simp only [step]
    split
    · exact h
    · trivial
  | dating => cases hlast : w.keys.lastFailure <;> simp_all [step, Of]
  | ageing last =>
    simp only [step]
    split
    · exact h
    · trivial
  | counting now =>
    simp only [step]
    split
    · exact h
    · trivial
  | tripping | opening _ | failing => exact h
  | probing | stamping _ | recording _ | clearing | done _ => trivial

/-- A call that stands at a point makes its command. -/
theorem prog_eq_call_iff {pt : Point} {o : BreakerOp} :
    (∃ k, pt.prog b = .call o k) ↔ pt.op b = some o := by
  constructor
  · rintro ⟨k, h⟩
    cases pt <;> cases h <;> rfl
  · intro h
    cases pt <;> cases h <;> exact ⟨_, rfl⟩

/-- A call has returned where its point says so. -/
theorem outcome_prog_eq_some {pt : Point} {out : Except Empty (Option Bool)} :
    (pt.prog b).outcome = some out ↔ ∃ r, pt = done r ∧ out = .ok r := by
  constructor
  · intro h
    cases pt <;> cases h
    exact ⟨_, rfl, rfl⟩
  · rintro ⟨r, rfl, rfl⟩
    rfl

end Point

/-- A call of a breaker. -/
abbrev BreakerProc : Type := Proc BreakerSig ℕ BreakerCall (Option Bool)

/-- A breaker and its calls. -/
abbrev BreakerPool : Type := PoolState breaker BreakerCall (Option Bool)

/-- The call is about to make the command. -/
def Proc.Makes (p : BreakerProc) (o : BreakerOp) : Prop := ∃ k, p.prog = some (.call o k)

/-- The command the call is about to make, if it makes one. -/
def Proc.op? (p : BreakerProc) : Option BreakerOp :=
  match p.prog with
  | some (.call o _) => some o
  | _ => none

/-- The command it makes is the one it is about to make. -/
theorem Proc.makes_iff {p : BreakerProc} {o : BreakerOp} : p.Makes o ↔ p.op? = some o := by
  obtain ⟨info, site, prog⟩ := p
  rcases prog with _ | _ | _ | ⟨o', k⟩
  · simp [Proc.Makes, Proc.op?]
  · simp [Proc.Makes, Proc.op?]
  · simp [Proc.Makes, Proc.op?]
  · constructor
    · rintro ⟨k', h⟩
      cases h
      rfl
    · intro h
      obtain rfl := Option.some.inj h
      exact ⟨k, rfl⟩

/-- What the call has returned, once it has. -/
def Proc.returned (p : BreakerProc) : Option (Option Bool) := p.outcome.bind Except.toOption

/-- Who has returned has an outcome. -/
theorem Proc.returned_eq_some {p : BreakerProc} {r : Option Bool} :
    p.returned = some r ↔ p.outcome = some (.ok r) := by
  unfold Proc.returned
  cases hout : p.outcome with
  | none => simp
  | some out =>
    cases out with
    | ok v => simp [Except.toOption]
    | error e => exact Empty.elim e

namespace CircuitBreaker

variable (b : CircuitBreaker)

/-- The call stands at the point, or it is lost. -/
structure Tracked (x : BreakerProc × Point) : Prop where
  prog : ∀ q, x.1.prog = some q → q = x.2.prog b
  of : x.2.Of x.1.info

variable {b} {x : BreakerProc × Point}

/-- What a call that is not lost makes next. -/
theorem Tracked.makes_iff (h : b.Tracked x) {o : BreakerOp} :
    x.1.Makes o ↔ x.1.prog ≠ none ∧ x.2.op b = some o := by
  rw [← Point.prog_eq_call_iff]
  constructor
  · rintro ⟨k, hk⟩
    exact ⟨by simp [hk], k, (h.prog _ hk).symm⟩
  · rintro ⟨hne, k, hk⟩
    obtain ⟨q, hq⟩ := Option.ne_none_iff_exists'.mp hne
    exact ⟨k, by rw [hq, h.prog q hq, hk]⟩

/-- Where a call stands that has returned. -/
theorem Tracked.of_returned (h : b.Tracked x) {r : Option Bool} (hret : x.1.returned = some r) :
    x.2 = .done r := by
  obtain ⟨q, hq, hout⟩ := Option.bind_eq_some_iff.mp (Proc.returned_eq_some.mp hret)
  rw [h.prog q hq] at hout
  obtain ⟨r', hr', hok⟩ := (Point.outcome_prog_eq_some b).mp hout
  cases hok
  exact hr'

/-- A call that is lost is no longer anywhere. -/
theorem Tracked.kill (h : b.Tracked x) (site : ℕ) : b.Tracked (x.1.kill site, x.2) where
  prog q hq := h.prog q (Proc.kill_prog_eq_some hq).1
  of := by simpa using h.of

/-- Where the calls of a state stand, and what holds of the world and of them. -/
def Holds (b : CircuitBreaker) (I : BreakerWorld → List (BreakerProc × Point) → Prop)
    (s : BreakerPool) : Prop :=
  ∃ l, l.map Prod.fst = s.procs ∧ (∀ x ∈ l, b.Tracked x) ∧ I s.world l

end CircuitBreaker

/-- The obligations of an invariant of a breaker over runs whose labels satisfy `ok`. -/
structure BreakerRule (b : CircuitBreaker) (ok : BreakerPool → PoolLabel breaker BreakerCall → Prop)
    (I : BreakerWorld → List (BreakerProc × Point) → Prop) : Prop where
  start : ∀ {w l c site}, I w l → ok ⟨w, l.map Prod.fst⟩ (.start c site) →
    I w (l ++ [(⟨c, site, some (b.code c)⟩, .start c)])
  answer : ∀ {w l i p pt o}, I w l → ok ⟨w, l.map Prod.fst⟩ (.answer i ()) → l[i]? = some (p, pt) →
    (∀ x ∈ l, b.Tracked x) → p.Makes o →
    I (pt.step b w).1 (l.set i ({ p with prog := some ((pt.step b w).2.prog b) }, (pt.step b w).2))
  crash : ∀ {w l site}, I w l → ok ⟨w, l.map Prod.fst⟩ (.crash site) → (∀ x ∈ l, b.Tracked x) →
    I w (l.map fun x => (x.1.kill site, x.2))
  env : ∀ {w l} {d : {d : ℚ // 0 ≤ d}}, I w l → ok ⟨w, l.map Prod.fst⟩ (.env d) →
    I { w with now := w.now + d } l

namespace BreakerRule

variable {b : CircuitBreaker} {ok : BreakerPool → PoolLabel breaker BreakerCall → Prop}
  {I : BreakerWorld → List (BreakerProc × Point) → Prop}

/-- **Step lemma.** -/
theorem step (rule : BreakerRule b ok I) {s t : BreakerPool} {lbl : PoolLabel breaker BreakerCall}
    (h : b.Holds I s) (hok : ok s lbl) (hs : b.pool.step s lbl = some t) : b.Holds I t := by
  obtain ⟨l, hl, htracked, hI⟩ := h
  have hok' : ok ⟨s.world, l.map Prod.fst⟩ lbl := by rw [hl]; exact hok
  rcases PoolSpec.step_cases hs with ⟨c, site, rfl, rfl⟩ |
    ⟨i, ans, p, o, k, w, r, rfl, hi, hprog, hx, rfl⟩ | ⟨site, rfl, rfl⟩ | ⟨d, w, rfl, hw, rfl⟩
  · refine ⟨_, by simp [hl, CircuitBreaker.pool], fun x hx => ?_, rule.start hI hok'⟩
    rcases List.mem_append.mp hx with hx | hx
    · exact htracked x hx
    · obtain rfl := List.mem_singleton.mp hx
      exact ⟨fun q hq => by rw [Point.prog_start, ← Option.some.inj hq], Point.of_start c⟩
  · rw [← hl, List.getElem?_map, Option.map_eq_some_iff] at hi
    obtain ⟨⟨p, pt⟩, hi, rfl⟩ := hi
    have hpt : b.Tracked (p, pt) := htracked _ (List.mem_of_getElem? hi)
    obtain ⟨rfl, rfl⟩ := Prod.mk.inj (Option.some.inj hx)
    -- the point says which command it is, and what comes of it
    obtain ⟨hstep, hk⟩ := Point.exec_eq b (hpt.prog _ hprog).symm s.world
    have hw : (s.world.exec o).1 = (pt.step b s.world).1 := congrArg Prod.fst hstep
    have hnext : pt.next b o (.ok (s.world.exec o).2) = (pt.step b s.world).2 :=
      congrArg Prod.snd hstep
    have hI' := rule.answer hI hok' hi htracked ⟨k, hprog⟩
    rw [hk, hnext, hw]
    refine ⟨_, by simp [← hl, List.map_set], fun x hx => ?_, hI'⟩
    rcases List.mem_or_eq_of_mem_set hx with hx | rfl
    · exact htracked x hx
    · exact ⟨fun q hq => (Option.some.inj hq).symm, Point.of_step b hpt.of s.world⟩
  · refine ⟨_, by simp [← hl], fun x hx => ?_, rule.crash hI hok' htracked⟩
    obtain ⟨y, hy, rfl⟩ := List.mem_map.mp hx
    exact (htracked y hy).kill site
  · obtain rfl := Option.some.inj hw
    exact ⟨l, hl, htracked, rule.env hI hok'⟩

/-- **Run lemma.** -/
theorem run (rule : BreakerRule b ok I) {s t : BreakerPool} (h : Reaches b.pool.step ok s t)
    (h₀ : b.Holds I s) : b.Holds I t :=
  h.invariant (fun _ _ _ hs hok hstep => rule.step hs hok hstep) h₀

end BreakerRule

end RelayQ

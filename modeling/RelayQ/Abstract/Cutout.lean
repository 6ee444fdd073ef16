import Mathlib.Algebra.Order.Group.Defs
import Mathlib.Data.List.Dedup
import Mathlib.Data.List.Induction
import Mathlib.Tactic.Common

/-! # Cutouts

A cutout is told of faults, and it is tested from time to time: it trips when the times of the recent
faults are many enough, and then it blocks for a while. Whoever asks whether it blocks leaves no trace.

* `Cutout.State`, `Cutout.step`: what a cutout keeps, and one event.
* `Cutout.after`, `Cutout.results`: a list of events, each at its time, and the replies to them.
* `Cutout.trippedAt_after`, `Cutout.blocks_after`: the last trip, read off the replies.
* `Cutout.after_filter`: whoever asks may be left out. -/

namespace RelayQ

/-- When a cutout trips, and how long it then blocks. -/
structure Cutout (T : Type*) where
  /-- How many different times of faults make it trip. -/
  threshold : ℤ
  /-- How long a fault counts. -/
  span : T
  /-- How long a trip blocks. -/
  hold : T

namespace Cutout

/-- What can happen to a cutout. -/
inductive Event
  /-- A fault is reported. -/
  | fault
  /-- Somebody asks whether it blocks. -/
  | ask
  /-- It is tested. -/
  | test
  /-- It is made new. -/
  | clear
deriving DecidableEq

/-- What a cutout keeps: the times of the faults and of the last trip. -/
structure State (T : Type*) where
  faults : List T := []
  trippedAt : Option T := none

variable {T : Type*} [AddCommGroup T] [LinearOrder T] (c : Cutout T)

/-- The different times that count at a test: they are in the span before it, and before each fault. -/
def counted (faults : List T) (now : T) : List T :=
  (faults.filter fun x => now - c.span ≤ x ∧ ∀ y ∈ faults, y - c.span < x).dedup

/-- Does a test find enough faults? -/
def trips (s : State T) (now : T) : Bool := decide (c.threshold ≤ (c.counted s.faults now).length)

/-- Is the last trip recent? -/
def blocks (s : State T) (now : T) : Bool := s.trippedAt.any fun t => decide (now - t ≤ c.hold)

/-- One event: what is left, and the reply. -/
def step (s : State T) (now : T) : Event → State T × Option Bool
  | .fault => ({ s with faults := s.faults ++ [now] }, none)
  | .ask => (s, some (c.blocks s now))
  | .test => if c.trips s now then ({ s with trippedAt := some now }, some true) else (s, some false)
  | .clear => ({}, none)

/-- What a list of events leaves. -/
def after (s : State T) (es : List (T × Event)) : State T :=
  es.foldl (fun s e => (c.step s e.1 e.2).1) s

/-- A list of events with the replies to them. -/
def results (s : State T) : List (T × Event) → List (Event × Option Bool)
  | [] => []
  | e :: es => (e.2, (c.step s e.1 e.2).2) :: results (c.step s e.1 e.2).1 es

variable {c} {s : State T} {es : List (T × Event)} {t now : T}

/-- Nothing has happened yet. -/
@[simp] theorem after_nil : c.after s [] = s := rfl

/-- The last event is the last step. -/
@[simp] theorem after_concat (e : T × Event) :
    c.after s (es ++ [e]) = (c.step (c.after s es) e.1 e.2).1 := by
  simp [after]

/-- A history is gone through in two parts. -/
theorem after_append (es es' : List (T × Event)) :
    c.after s (es ++ es') = c.after (c.after s es) es' := List.foldl_append ..

/-- The answers to a history are those to its parts. -/
theorem results_append (es es' : List (T × Event)) :
    c.results s (es ++ es') = c.results s es ++ c.results (c.after s es) es' := by
  induction es generalizing s with
  | nil => rfl
  | cons e es ih => simpa [results, after] using @ih (c.step s e.1 e.2).1

/-- A cutout that has tripped blocks until its time is up. -/
theorem blocks_of_tripped (h : s.trippedAt = some t) :
    c.blocks s now = decide (now - t ≤ c.hold) := by
  simp [blocks, h]

/-- One that has not tripped blocks nothing. -/
theorem blocks_of_not_tripped (h : s.trippedAt = none) : c.blocks s now = false := by
  simp [blocks, h]

/-! ## The last trip -/

/-- The cutout is neither cleared nor tripped. -/
def Calm (rs : List (Event × Option Bool)) : Prop :=
  ∀ r ∈ rs, r.1 ≠ .clear ∧ r ≠ (.test, some true)

/-- A history is calm when its parts are. -/
theorem calm_append {rs rs' : List (Event × Option Bool)} :
    Calm (rs ++ rs') ↔ Calm rs ∧ Calm rs' := by
  unfold Calm
  rw [List.forall_mem_append]

/-- A calm event leaves the last trip. -/
theorem trippedAt_step_of_calm {e : Event} (h : Calm [(e, (c.step s now e).2)]) :
    (c.step s now e).1.trippedAt = s.trippedAt := by
  obtain ⟨hclear, htrips⟩ := h _ (List.mem_singleton.mpr rfl)
  cases e with
  | fault | ask => rfl
  | clear => exact absurd rfl hclear
  | test =>
    cases ht : c.trips s now with
    | true => simp [step, ht] at htrips
    | false => simp [step, ht]

/-- An event that is not calm makes a new trip, or forgets the last one. -/
theorem trippedAt_step_of_not_calm {e : Event} (h : ¬ Calm [(e, (c.step s now e).2)]) :
    (e = .test ∧ c.trips s now = true ∧ (c.step s now e).1.trippedAt = some now) ∨
      (c.step s now e).1.trippedAt = none := by
  cases e with
  | fault | ask => simp [Calm] at h
  | clear => exact .inr rfl
  | test =>
    cases ht : c.trips s now with
    | true => exact .inl ⟨rfl, rfl, by simp [step, ht]⟩
    | false => simp [Calm, step, ht] at h

/-- A test that found enough faults, with calm since. -/
def LastTrip (c : Cutout T) (es : List (T × Event)) (t : T) : Prop :=
  ∃ pre post, es = pre ++ (t, .test) :: post ∧ c.trips (c.after {} pre) t = true ∧
    Calm (c.results (c.after {} (pre ++ [(t, .test)])) post)

/-- The last trip is the last event, or it was the last trip before and the last event is calm. -/
theorem lastTrip_concat {e : Event} : c.LastTrip (es ++ [(now, e)]) t ↔
    (e = .test ∧ c.trips (c.after {} es) now = true ∧ now = t) ∨
      (c.LastTrip es t ∧ Calm [(e, (c.step (c.after {} es) now e).2)]) := by
  constructor
  · rintro ⟨pre, post, hes, htrips, hcalm⟩
    rcases List.eq_nil_or_concat post with rfl | ⟨post, x, rfl⟩
    · obtain ⟨rfl, hx⟩ := List.append_inj' hes rfl
      obtain ⟨rfl, rfl⟩ := Prod.mk.inj (List.cons.inj hx).1
      exact .inl ⟨rfl, htrips, rfl⟩
    · rw [List.concat_eq_append, ← List.cons_append, ← List.append_assoc] at hes
      obtain ⟨rfl, hx⟩ := List.append_inj' hes rfl
      obtain rfl := (List.cons.inj hx).1
      rw [List.concat_eq_append, results_append, calm_append, ← after_append,
        List.append_assoc, List.singleton_append] at hcalm
      exact .inr ⟨⟨pre, post, rfl, htrips, hcalm.1⟩, hcalm.2⟩
  · rintro (⟨rfl, htrips, rfl⟩ | ⟨⟨pre, post, rfl, htrips, hpost⟩, hcalm⟩)
    · exact ⟨es, [], rfl, htrips, List.forall_mem_nil _⟩
    · refine ⟨pre, post ++ [(now, e)], by simp, htrips, ?_⟩
      rw [results_append, calm_append, ← after_append, List.append_assoc, List.singleton_append]
      exact ⟨hpost, hcalm⟩

/-- **The last trip** of a new cutout, read off the replies. -/
theorem trippedAt_after : (c.after {} es).trippedAt = some t ↔ c.LastTrip es t := by
  induction es using List.reverseRecOn with
  | nil => simp [LastTrip]
  | append_singleton es e ih =>
    obtain ⟨now, e⟩ := e
    rw [after_concat, lastTrip_concat]
    by_cases hcalm : Calm [(e, (c.step (c.after {} es) now e).2)]
    · rw [trippedAt_step_of_calm hcalm, ih, and_iff_left hcalm]
      refine ⟨.inr, fun h => h.resolve_left ?_⟩
      -- a test that trips is not calm
      rintro ⟨rfl, htrips, -⟩
      exact (hcalm _ (List.mem_singleton.mpr rfl)).2 (by simp [step, htrips])
    · rw [or_iff_left fun h => hcalm h.2]
      rcases trippedAt_step_of_not_calm hcalm with ⟨rfl, htrips, hnow⟩ | hnone
      · simp [hnow, htrips]
      · rw [hnone]
        refine ⟨fun h => (Option.some_ne_none t h.symm).elim, ?_⟩
        rintro ⟨rfl, htrips, rfl⟩
        simp [step, htrips] at hnone

/-- A cutout blocks while the last trip is recent. -/
theorem blocks_after :
    c.blocks (c.after {} es) now = true ↔ ∃ t, c.LastTrip es t ∧ now - t ≤ c.hold := by
  simp [blocks, Option.any_eq_true, trippedAt_after]

/-! ## Asking -/

/-- **Whoever asks leaves no trace.** -/
theorem after_filter : c.after s (es.filter (·.2 ≠ .ask)) = c.after s es := by
  induction es generalizing s with
  | nil => rfl
  | cons e es ih =>
    obtain ⟨now, e⟩ := e
    by_cases h : e = .ask
    · subst h
      simpa [after, step] using @ih s
    · simpa [after, h] using @ih (c.step s now e).1

end Cutout

end RelayQ

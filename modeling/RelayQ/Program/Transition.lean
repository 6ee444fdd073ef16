import Mathlib.Order.Basic
import Mathlib.Tactic.Common

/-! # Labelled transition functions and their runs

A system is given by an executable step function `σ → ℓ → Option σ`: the label says who moves and
how the nondeterminism is resolved, `none` that the move is not possible. A *run* is a list of
labels.

* `runSteps step s ls` plays the labels `ls` from `s`.
* `Reaches step ok s t`: some run, each of whose labels satisfies `ok` in the state it is taken
  from, leads from `s` to `t`.
* `Reaches.invariant` is the induction rule every whole-run result goes through.
* `guarded` is the step function that checks `ok`: a concrete run of it is one of `Reaches`. -/

namespace RelayQ

variable {σ ℓ : Type}

/-- Play a list of labels from a state; `none` when one of them is not possible. -/
def runSteps (step : σ → ℓ → Option σ) : σ → List ℓ → Option σ
  | s, [] => some s
  | s, l :: ls => (step s l).bind (runSteps step · ls)

/-- The system that moves only where a condition on state and label allows it. -/
def guarded (step : σ → ℓ → Option σ) (ok : σ → ℓ → Prop) [∀ s l, Decidable (ok s l)] (s : σ) (l : ℓ) :
    Option σ :=
  if ok s l then step s l else none

/-- `t` is reached from `s` by a finite run whose labels all satisfy `ok`. -/
inductive Reaches (step : σ → ℓ → Option σ) (ok : σ → ℓ → Prop) (s : σ) : σ → Prop
  | refl : Reaches step ok s s
  | tail {t u : σ} {l : ℓ} : Reaches step ok s t → ok t l → step t l = some u →
      Reaches step ok s u

namespace Reaches

variable {step : σ → ℓ → Option σ} {ok ok' : σ → ℓ → Prop} {s t u : σ}

/-- One possible step is a run. -/
theorem single {l : ℓ} (hl : ok s l) (h : step s l = some t) : Reaches step ok s t :=
  .tail .refl hl h

/-- Runs compose. -/
theorem trans (h₁ : Reaches step ok s t) (h₂ : Reaches step ok t u) : Reaches step ok s u := by
  induction h₂ with
  | refl => exact h₁
  | tail _ hl hs ih => exact .tail ih hl hs

/-- A step followed by a run is a run. -/
theorem head {l : ℓ} (hl : ok s l) (h : step s l = some t) (h' : Reaches step ok t u) :
    Reaches step ok s u :=
  (single hl h).trans h'

/-- A run under a stronger label condition is a run under a weaker one. -/
theorem mono (hok : ∀ s l, ok s l → ok' s l) (h : Reaches step ok s t) :
    Reaches step ok' s t := by
  induction h with
  | refl => exact .refl
  | tail _ hl hs ih => exact .tail ih (hok _ _ hl) hs

/-- **Invariant rule.** A property of the first state that every permitted step preserves holds of
every state reached. -/
theorem invariant {P : σ → Prop} (hstep : ∀ s l t, P s → ok s l → step s l = some t → P t)
    (h : Reaches step ok s t) (h₀ : P s) : P t := by
  induction h with
  | refl => exact h₀
  | tail _ hl hs ih => exact hstep _ _ _ ih hl hs

/-- A played list of permitted labels is a run. -/
theorem of_runSteps {ok : ℓ → Prop} {ls : List ℓ} (hok : ∀ l ∈ ls, ok l)
    (h : runSteps step s ls = some t) : Reaches step (fun _ => ok) s t := by
  induction ls generalizing s with
  | nil =>
    obtain rfl : s = t := Option.some.inj h
    exact .refl
  | cons l ls ih =>
    simp only [runSteps, Option.bind_eq_some_iff] at h
    obtain ⟨u, hu, hrest⟩ := h
    exact head (hok l (by simp)) hu (ih (fun l' hl' => hok l' (by simp [hl'])) hrest)

/-- A list of labels that the guarded system plays is a run of permitted labels. -/
theorem of_guarded [∀ s l, Decidable (ok s l)] {ls : List ℓ}
    (h : runSteps (guarded step ok) s ls = some t) : Reaches step ok s t := by
  induction ls generalizing s with
  | nil =>
    obtain rfl : s = t := Option.some.inj h
    exact .refl
  | cons l ls ih =>
    simp only [runSteps, Option.bind_eq_some_iff] at h
    obtain ⟨u, hu, hrest⟩ := h
    rw [guarded] at hu
    split at hu
    · exact head ‹ok s l› hu (ih hrest)
    · cases hu

end Reaches

end RelayQ

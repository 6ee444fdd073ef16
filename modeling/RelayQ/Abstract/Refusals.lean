import RelayQ.Abstract.Bucket
import Mathlib.Data.List.Induction

/-! # What a token bucket refuses

A bucket is never below what the bound on its admissions leaves: its level after any demands is the
least of what the windows ending there have left. It therefore refuses a demand only where admitting it
would break the bound of some window, and a refused demand changes nothing for those that follow.

* `Bucket.after`, `Bucket.refills`: the level after a list of demands, and all that they pour in.
* `Bucket.le_after_iff`: the level as a minimum over the windows.
* `Bucket.admits_after_iff`: when a demand is admitted.
* `Bucket.fill_fill`: pouring twice is pouring the sum. -/

namespace RelayQ.Bucket

variable {K : Type*} [AddCommGroup K] [LinearOrder K]

/-- The level after a list of demands. -/
def after (cap : K) : K → List (Demand K) → K
  | level, [] => level
  | level, d :: ds => after cap (next cap level d) ds

/-- All that a list of demands pours in. -/
def refills (ds : List (Demand K)) : K := (ds.map Demand.refill).sum

variable {cap level : K} {d : Demand K}

/-- The level after two rows of demands. -/
theorem after_append (ds es : List (Demand K)) :
    after cap level (ds ++ es) = after cap (after cap level ds) es := by
  induction ds generalizing level with
  | nil => rfl
  | cons d ds ih => exact ih

/-- What two rows of demands take out. -/
theorem admitted_append (ds es : List (Demand K)) :
    admitted cap level (ds ++ es) =
      admitted cap level ds + admitted cap (after cap level ds) es := by
  induction ds generalizing level with
  | nil => simp [admitted, after]
  | cons d ds ih => simp only [List.cons_append, admitted, after, ih, add_assoc]

omit [LinearOrder K] in
/-- What they pour in. -/
@[simp] theorem refills_append (ds es : List (Demand K)) :
    refills (ds ++ es) = refills ds + refills es := by
  simp [refills]

omit [LinearOrder K] in
/-- What one demand pours in. -/
@[simp] theorem refills_singleton (d : Demand K) : refills [d] = d.refill := by
  simp [refills]

/-- What a demand gets. -/
theorem admitted_singleton :
    admitted cap level [d] = if admits cap level d then d.cost else 0 := by
  simp [admitted]

/-- A demand leaves what it does not get. -/
theorem next_eq_sub : next cap level d = fill cap level d.refill - admitted cap level [d] := by
  rw [admitted_singleton, eq_sub_iff_add_eq', spent_add_next]

/-- A window of a list with one more element at the end is that element alone, or is a window of the
list with that element added. -/
theorem append_singleton_eq_append_cons_iff {α : Type*} {l pre post : List α} {x y : α} :
    l ++ [x] = pre ++ y :: post ↔
      (l = pre ∧ x = y ∧ post = []) ∨ ∃ post', post = post' ++ [x] ∧ l = pre ++ y :: post' := by
  constructor
  · intro h
    rcases List.eq_nil_or_concat post with rfl | ⟨post', z, rfl⟩
    · obtain ⟨rfl, hx⟩ := List.append_inj' h rfl
      exact .inl ⟨rfl, (List.cons.inj hx).1, rfl⟩
    · rw [List.concat_eq_append] at h ⊢
      have h' : l ++ [x] = (pre ++ y :: post') ++ [z] := by simpa using h
      obtain ⟨rfl, hx⟩ := List.append_inj' h' rfl
      exact .inr ⟨post', by rw [(List.cons.inj hx).1], rfl⟩
  · rintro (⟨rfl, rfl, rfl⟩ | ⟨post', rfl, rfl⟩)
    · rfl
    · simp

variable [IsOrderedAddMonoid K]

/-- **The level is the least that a window leaves**: what all demands left of the first level, and what
the demands from each one on left of a full bucket. -/
theorem le_after_iff {x : K} {ds : List (Demand K)} :
    x ≤ after cap level ds ↔ x + admitted cap level ds ≤ level + refills ds ∧
      ∀ pre d post, ds = pre ++ d :: post →
        x + admitted cap (after cap level pre) (d :: post) ≤ cap + refills post := by
  induction ds using List.reverseRecOn generalizing x with
  | nil => simp [after, admitted, refills]
  | append_singleton ds d ih =>
    set got := admitted cap (after cap level ds) [d] with hgot
    -- the last demand got `got`, of a bucket that was poured into before
    have hlast : x ≤ after cap level (ds ++ [d]) ↔
        x + got ≤ cap ∧ x + got - d.refill ≤ after cap level ds := by
      have hnext : after cap level (ds ++ [d]) = fill cap (after cap level ds) d.refill - got := by
        rw [after_append, hgot, ← next_eq_sub]
        rfl
      rw [hnext, le_sub_iff_add_le, fill, le_min_iff, sub_le_iff_le_add]
    have hshift : ∀ a b : K, x + got - d.refill + a ≤ b ↔ x + (a + got) ≤ b + d.refill := by
      intro a b
      rw [← sub_le_iff_le_add]
      exact iff_of_eq (congrArg (· ≤ b) (by abel))
    rw [hlast, ih, hshift, admitted_append, ← hgot, refills_append, refills_singleton,
      ← add_assoc level]
    constructor
    · rintro ⟨hcap, hall, hwindows⟩
      refine ⟨hall, fun pre e post heq => ?_⟩
      rcases append_singleton_eq_append_cons_iff.mp heq with ⟨rfl, rfl, rfl⟩ | ⟨post', rfl, rfl⟩
      · simpa [refills] using hcap
      · have h := (hshift _ _).mp (hwindows pre e post' rfl)
        rw [hgot, after_append] at h
        rw [← List.cons_append, admitted_append, refills_append, refills_singleton, ← add_assoc]
        simpa only [after, add_assoc] using h
    · rintro ⟨hall, hwindows⟩
      refine ⟨?_, hall, fun pre e post heq => ?_⟩
      · simpa [refills] using hwindows ds d [] rfl
      · subst heq
        have h := hwindows pre e (post ++ [d]) (by simp)
        rw [← List.cons_append, admitted_append, refills_append, refills_singleton,
          ← add_assoc] at h
        rw [hshift, hgot, after_append]
        simpa only [after, add_assoc] using h

/-- **When a demand is admitted**: exactly when no window that ends with it gets more than a full bucket
and what is poured in after the window's first demand, nor all demands more than the first level and
what is poured in. -/
theorem admits_after_iff {ds : List (Demand K)} :
    admits cap (after cap level ds) d = true ↔
      d.cost ≤ cap ∧ admitted cap level ds + d.cost ≤ level + refills (ds ++ [d]) ∧
        ∀ pre e post, ds = pre ++ e :: post →
          admitted cap (after cap level pre) (e :: post) + d.cost ≤
            cap + refills (post ++ [d]) := by
  have hshift : ∀ a b : K, d.cost - d.refill + a ≤ b ↔ a + d.cost ≤ b + d.refill := by
    intro a b
    rw [← sub_le_iff_le_add]
    exact iff_of_eq (congrArg (· ≤ b) (by abel))
  rw [admits, decide_eq_true_eq, fill, le_min_iff, ← sub_le_iff_le_add, le_after_iff, hshift]
  simp only [hshift, refills_append, refills_singleton, add_assoc]

/-! ## Refused demands -/

/-- Pouring twice is pouring the sum. -/
theorem fill_fill {r r' : K} (hr' : 0 ≤ r') :
    fill cap (fill cap level r) r' = fill cap level (r + r') := by
  have hle : cap ≤ cap + r' := le_add_of_nonneg_right hr'
  rw [fill, fill, fill, min_add, ← min_assoc, min_eq_left hle, add_assoc]

end RelayQ.Bucket

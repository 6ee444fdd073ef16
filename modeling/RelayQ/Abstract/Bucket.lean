import Mathlib.Algebra.Order.Group.MinMax
import Mathlib.Algebra.Order.BigOperators.Group.List
import Mathlib.Tactic.Abel
import Mathlib.Tactic.Common

/-! # Token buckets

A bucket holds up to `cap` tokens. Each demand first pours tokens in, up to the brim, and is admitted
if the bucket then holds what it costs. What is admitted over any stretch of demands is bounded by
what the bucket held and what was poured in, of which a bucket never takes more than its size; and
demands that drain the bucket each time reach that bound.

* `Bucket.fill`, `Bucket.admits`, `Bucket.next`: one demand.
* `Bucket.admitted`: the cost admitted over a list of demands.
* `Bucket.admitted_le`, `Bucket.admitted_drain`: the bound, and that it is reached. -/

namespace RelayQ

/-- What one caller asks of a bucket, and what is poured in before. -/
structure Demand (K : Type*) where
  refill : K
  cost : K

namespace Bucket

variable {K : Type*} [AddCommGroup K] [LinearOrder K]

/-- The level after the pouring. -/
def fill (cap level refill : K) : K := min cap (level + refill)

/-- Does the bucket hold what the demand costs? -/
def admits (cap level : K) (d : Demand K) : Bool := decide (d.cost ≤ fill cap level d.refill)

/-- The level after the demand. -/
def next (cap level : K) (d : Demand K) : K :=
  if admits cap level d then fill cap level d.refill - d.cost else fill cap level d.refill

/-- The total cost of the demands that are admitted. -/
def admitted (cap : K) : K → List (Demand K) → K
  | _, [] => 0
  | level, d :: ds => (if admits cap level d then d.cost else 0) + admitted cap (next cap level d) ds

/-- What a list of demands pours in, at most the bucket's size each time. -/
def poured (cap : K) (ds : List (Demand K)) : K := (ds.map fun d => min cap d.refill).sum

variable {cap level : K} {d : Demand K}

/-- What one more demand pours in. -/
@[simp] theorem poured_cons (ds : List (Demand K)) :
    poured cap (d :: ds) = min cap d.refill + poured cap ds := by
  simp [poured]

/-! ## One demand -/

/-- A bucket holds no more than its capacity. -/
theorem fill_le : fill cap level d.refill ≤ cap := min_le_left _ _

/-- What the demand gets and what it leaves is what the pouring made of the level. -/
theorem spent_add_next :
    (if admits cap level d then d.cost else 0) + next cap level d = fill cap level d.refill := by
  unfold next
  split
  · abel
  · exact zero_add _

variable [IsOrderedAddMonoid K]

/-- Nor less than nothing. -/
theorem fill_nonneg (hcap : 0 ≤ cap) (hlevel : 0 ≤ level) (hd : 0 ≤ d.refill) :
    0 ≤ fill cap level d.refill :=
  le_min hcap (add_nonneg hlevel hd)

/-- The level grows by no more than the bucket's size. -/
theorem fill_le_add (hlevel : 0 ≤ level) :
    fill cap level d.refill ≤ level + min cap d.refill := by
  rcases le_total cap d.refill with h | h
  · rw [min_eq_left h]
    exact fill_le.trans (le_add_of_nonneg_left hlevel)
  · rw [min_eq_right h]
    exact min_le_right _ _

/-- A demand leaves the level between empty and full. -/
theorem next_mem (hcap : 0 ≤ cap) (hlevel : 0 ≤ level) (hrefill : 0 ≤ d.refill)
    (hcost : 0 ≤ d.cost) : 0 ≤ next cap level d ∧ next cap level d ≤ cap := by
  unfold next
  split
  · rename_i h
    have hle : d.cost ≤ fill cap level d.refill := of_decide_eq_true h
    exact ⟨sub_nonneg.mpr hle, (sub_le_self _ hcost).trans fill_le⟩
  · exact ⟨fill_nonneg hcap hlevel hrefill, fill_le⟩

/-! ## The bound -/

/-- What is admitted was in the bucket or was poured in. -/
theorem admitted_le_add (hcap : 0 ≤ cap) (hlevel : 0 ≤ level) {ds : List (Demand K)}
    (hds : ∀ d ∈ ds, 0 ≤ d.refill ∧ 0 ≤ d.cost) :
    admitted cap level ds ≤ level + poured cap ds := by
  induction ds generalizing level with
  | nil => simpa [admitted, poured] using hlevel
  | cons d ds ih =>
    obtain ⟨hrefill, hcost⟩ := hds d List.mem_cons_self
    have hnext : 0 ≤ next cap level d ∧ next cap level d ≤ cap :=
      next_mem hcap hlevel hrefill hcost
    have hrest := ih hnext.1 fun e he => hds e (List.mem_cons_of_mem _ he)
    calc admitted cap level (d :: ds)
        ≤ (if admits cap level d then d.cost else 0) + (next cap level d + poured cap ds) :=
          add_le_add_right hrest _
      _ = fill cap level d.refill + poured cap ds := by rw [← add_assoc, spent_add_next]
      _ ≤ level + min cap d.refill + poured cap ds := add_le_add_left (fill_le_add hlevel) _
      _ = level + poured cap (d :: ds) := by rw [poured_cons, add_assoc]

/-- **What is admitted fits into the bucket, but for what is poured in after the first demand.** -/
theorem admitted_le (hcap : 0 ≤ cap) (hlevel : 0 ≤ level) {ds : List (Demand K)}
    (hds : ∀ e ∈ d :: ds, 0 ≤ e.refill ∧ 0 ≤ e.cost) :
    admitted cap level (d :: ds) ≤ cap + poured cap ds := by
  obtain ⟨hrefill, hcost⟩ := hds d List.mem_cons_self
  have hnext : 0 ≤ next cap level d ∧ next cap level d ≤ cap :=
    next_mem hcap hlevel hrefill hcost
  have hrest := admitted_le_add hcap hnext.1 fun e he => hds e (List.mem_cons_of_mem _ he)
  calc admitted cap level (d :: ds)
      ≤ (if admits cap level d then d.cost else 0) + (next cap level d + poured cap ds) :=
        add_le_add_right hrest _
    _ = fill cap level d.refill + poured cap ds := by rw [← add_assoc, spent_add_next]
    _ ≤ cap + poured cap ds := add_le_add_left fill_le _

/-! ## That it is reached -/

/-- The costs that drain the bucket at every demand. -/
def drain (cap : K) : K → List K → List K
  | _, [] => []
  | level, r :: rs => fill cap level r :: drain cap 0 rs

omit [IsOrderedAddMonoid K] in
/-- A drained bucket has one level for each refill. -/
@[simp] theorem length_drain (rs : List K) : (drain cap level rs).length = rs.length := by
  induction rs generalizing level with
  | nil => rfl
  | cons r rs ih => simp [drain, ih]

/-- None of the levels is negative. -/
theorem drain_nonneg (hcap : 0 ≤ cap) (hlevel : 0 ≤ level) {rs : List K} (hrs : ∀ r ∈ rs, 0 ≤ r) :
    ∀ c ∈ drain cap level rs, 0 ≤ c := by
  induction rs generalizing level with
  | nil => simp [drain]
  | cons r rs ih =>
    intro c hc
    rcases List.mem_cons.mp hc with rfl | hc
    · exact le_min hcap (add_nonneg hlevel (hrs r List.mem_cons_self))
    · exact ih le_rfl (fun r' hr' => hrs r' (List.mem_cons_of_mem _ hr')) c hc

omit [IsOrderedAddMonoid K] in
/-- Draining demands get all there is. -/
theorem admitted_drain (r : K) (rs : List K) :
    admitted cap level (List.zipWith Demand.mk (r :: rs) (drain cap level (r :: rs))) =
      fill cap level r + (rs.map fun r' => min cap r').sum := by
  have hadmits : ∀ (l r : K), admits cap l ⟨r, fill cap l r⟩ = true := fun l r =>
    decide_eq_true le_rfl
  have hnext : ∀ (l r : K), next cap l ⟨r, fill cap l r⟩ = 0 := by
    intro l r
    rw [next, if_pos (hadmits l r)]
    exact sub_self _
  induction rs generalizing level r with
  | nil => simp [admitted, drain, hadmits]
  | cons r' rs ih =>
    have hrest : admitted cap 0 (List.zipWith Demand.mk (r' :: rs) (drain cap 0 (r' :: rs))) =
        fill cap 0 r' + (rs.map fun r => min cap r).sum := ih r'
    have hfill : fill cap 0 r' = min cap r' := by rw [fill, zero_add]
    rw [List.map_cons, List.sum_cons, ← hfill, ← hrest]
    simp only [drain, List.zipWith_cons_cons, admitted, hadmits, if_true, hnext]

end Bucket

end RelayQ

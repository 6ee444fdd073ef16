import Mathlib.Algebra.Order.Ring.Rat
import Mathlib.Data.List.Nodup
import Mathlib.Order.WithBot

/-! # Sorted sets

A sorted set gives each of its members one score. Ranges of scores include their ends; `⊥` is `-inf`.

* `SortedSet.zadd`, `SortedSet.zremrangebyscore`, `SortedSet.zcount`: the commands.
* `SortedSet.zcount_eq_length`: a count is the number of members in the range. -/

namespace RelayQ.Redis

/-- A sorted set: its members with their scores, each member once. -/
structure SortedSet (μ : Type) where
  entries : List (μ × ℚ)
  nodup : (entries.map Prod.fst).Nodup

namespace SortedSet

variable {μ : Type}

/-- The key does not exist. -/
def empty : SortedSet μ := ⟨[], List.nodup_nil⟩

/-- The member has the score. -/
instance : Membership (μ × ℚ) (SortedSet μ) := ⟨fun z e => e ∈ z.entries⟩

/-- A member of a set is one of its entries. -/
theorem mem_def {z : SortedSet μ} {e : μ × ℚ} : e ∈ z ↔ e ∈ z.entries := Iff.rfl

/-- An empty set has none. -/
@[simp] theorem not_mem_empty (e : μ × ℚ) : e ∉ (empty : SortedSet μ) := List.not_mem_nil

/-- `ZADD`: a member that is there already gets a new score. -/
def zadd [DecidableEq μ] (m : μ) (score : ℚ) (z : SortedSet μ) : SortedSet μ where
  entries := z.entries.filter (fun e => e.1 ≠ m) ++ [(m, score)]
  nodup := by
    rw [List.map_append]
    refine (z.nodup.sublist (List.filter_sublist.map _)).append (List.nodup_singleton m) ?_
    intro x hx hx'
    obtain ⟨e, he, rfl⟩ := List.mem_map.mp hx
    exact of_decide_eq_true (List.mem_filter.mp he).2 (List.mem_singleton.mp hx')

/-- `ZREMRANGEBYSCORE` -/
def zremrangebyscore (lo : WithBot ℚ) (hi : ℚ) (z : SortedSet μ) : SortedSet μ where
  entries := z.entries.filter fun e => ¬ (lo ≤ e.2 ∧ e.2 ≤ hi)
  nodup := z.nodup.sublist (List.filter_sublist.map _)

/-- `ZCOUNT` -/
def zcount (lo hi : ℚ) (z : SortedSet μ) : ℕ := z.entries.countP fun e => lo ≤ e.2 ∧ e.2 ≤ hi

/-- A member that is added replaces the one of its name. -/
@[simp] theorem mem_zadd [DecidableEq μ] {z : SortedSet μ} {m : μ} {score : ℚ} {e : μ × ℚ} :
    e ∈ z.zadd m score ↔ e = (m, score) ∨ e ∈ z ∧ e.1 ≠ m := by
  simp [mem_def, zadd, or_comm]

/-- What is in the range is removed. -/
@[simp] theorem mem_zremrangebyscore {z : SortedSet μ} {lo : WithBot ℚ} {hi : ℚ} {e : μ × ℚ} :
    e ∈ z.zremrangebyscore lo hi ↔ e ∈ z ∧ ¬ (lo ≤ e.2 ∧ e.2 ≤ hi) := by
  rw [mem_def, zremrangebyscore, List.mem_filter, decide_eq_true_eq, mem_def]

/-- **A count is a number of members**: those whose score is in the range. -/
theorem zcount_eq_length {z : SortedSet μ} {lo hi : ℚ} {members : List μ} (hl : members.Nodup)
    (h : ∀ m, m ∈ members ↔ ∃ score, (m, score) ∈ z ∧ lo ≤ score ∧ score ≤ hi) :
    z.zcount lo hi = members.length := by
  have hperm : ((z.entries.filter fun e => lo ≤ e.2 ∧ e.2 ≤ hi).map Prod.fst).Perm members := by
    refine (List.perm_ext_iff_of_nodup (z.nodup.sublist (List.filter_sublist.map _)) hl).mpr
      fun m => ?_
    rw [h m]
    simp [mem_def]
  rw [zcount, List.countP_eq_length_filter, ← hperm.length_eq, List.length_map]

end SortedSet

end RelayQ.Redis

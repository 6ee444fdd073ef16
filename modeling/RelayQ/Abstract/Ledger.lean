import Mathlib.Data.Set.Insert
import RelayQ.Program.Transition

/-! # At-least-once delivery, abstractly

A ledger follows items of any kind from their arrival to their acknowledgement: an item is new,
then pending with somebody, then acknowledged, and may be acknowledged only once there is a
justification for it. Nothing is said about who handles an item or how often.

* `Ledger`, `Ledger.Step`: the sets and what may happen to them.
* `Ledger.Sound`: the three states exclude each other and only justified items are acknowledged;
  `Ledger.Step.sound` preserves it.
* `Ledger.Sound.exactlyOne`: an item that has arrived is in exactly one of the states. -/

namespace RelayQ

/-- Exactly one of three propositions holds. -/
def ExactlyOne (p q r : Prop) : Prop := (p ∨ q ∨ r) ∧ ¬(p ∧ q) ∧ ¬(p ∧ r) ∧ ¬(q ∧ r)

/-- Who has an item, and which items may be acknowledged. -/
@[ext]
structure Ledger (α : Type) where
  /-- Arrived and never delivered. -/
  fresh : Set α
  /-- Delivered and not acknowledged. -/
  pending : Set α
  /-- Acknowledged. -/
  acked : Set α
  /-- Items whose acknowledgement is justified. -/
  justified : Set α

namespace Ledger

variable {α : Type}

/-- Every item that has arrived. -/
def arrived (l : Ledger α) : Set α := l.fresh ∪ l.pending ∪ l.acked

/-- What may happen to a ledger. -/
inductive Step (l : Ledger α) : Ledger α → Prop
  /-- An item arrives. -/
  | arrive {a : α} : a ∉ l.arrived → Step l { l with fresh := insert a l.fresh }
  /-- New items are delivered. -/
  | deliver {s : Set α} : s ⊆ l.fresh →
      Step l { l with fresh := l.fresh \ s, pending := l.pending ∪ s }
  /-- An acknowledgement becomes justified. -/
  | justify {a : α} : Step l { l with justified := insert a l.justified }
  /-- A delivered item is acknowledged. -/
  | ack {a : α} : a ∈ l.justified → a ∉ l.fresh → a ∈ l.arrived →
      Step l { l with pending := l.pending \ {a}, acked := insert a l.acked }

/-- No item is in two states, and every acknowledged item is justified. -/
structure Sound (l : Ledger α) : Prop where
  fresh_pending : ∀ a ∈ l.fresh, a ∉ l.pending
  fresh_acked : ∀ a ∈ l.fresh, a ∉ l.acked
  pending_acked : ∀ a ∈ l.pending, a ∉ l.acked
  acked_justified : l.acked ⊆ l.justified

/-- Every step preserves soundness. -/
theorem Step.sound {l l' : Ledger α} (h : Step l l') (hl : l.Sound) : l'.Sound := by
  cases h with
  | @arrive a ha =>
    simp only [arrived, Set.mem_union, not_or] at ha
    refine ⟨?_, ?_, hl.pending_acked, hl.acked_justified⟩
    · rintro b (rfl | hb)
      · exact ha.1.2
      · exact hl.fresh_pending b hb
    · rintro b (rfl | hb)
      · exact ha.2
      · exact hl.fresh_acked b hb
  | @deliver s hs =>
    refine ⟨?_, fun b hb => hl.fresh_acked b hb.1, ?_, hl.acked_justified⟩
    · rintro b ⟨hb, hbs⟩ (hp | hp)
      · exact hl.fresh_pending b hb hp
      · exact hbs hp
    · rintro b (hb | hb)
      · exact hl.pending_acked b hb
      · exact hl.fresh_acked b (hs hb)
  | justify =>
    exact ⟨hl.fresh_pending, hl.fresh_acked, hl.pending_acked,
      hl.acked_justified.trans (Set.subset_insert _ _)⟩
  | @ack a hj hf _ =>
    refine ⟨fun b hb hp => hl.fresh_pending b hb hp.1, ?_, ?_, ?_⟩
    · rintro b hb (rfl | ha)
      · exact hf hb
      · exact hl.fresh_acked b hb ha
    · rintro b ⟨hb, hba⟩ (rfl | ha)
      · exact hba rfl
      · exact hl.pending_acked b hb ha
    · rintro b (rfl | hb)
      · exact hj
      · exact hl.acked_justified hb

/-- **In a sound ledger, an item that has arrived is in exactly one state.** -/
theorem Sound.exactlyOne {l : Ledger α} (hl : l.Sound) {a : α} (ha : a ∈ l.arrived) :
    ExactlyOne (a ∈ l.fresh) (a ∈ l.pending) (a ∈ l.acked) := by
  refine ⟨?_, fun h => hl.fresh_pending a h.1 h.2, fun h => hl.fresh_acked a h.1 h.2,
    fun h => hl.pending_acked a h.1 h.2⟩
  rcases ha with (h | h) | h
  · exact .inl h
  · exact .inr (.inl h)
  · exact .inr (.inr h)

/-- An item that has arrived never gets lost. -/
theorem Step.arrived_subset {l l' : Ledger α} (h : Step l l') : l.arrived ⊆ l'.arrived := by
  intro b hb
  simp only [arrived, Set.mem_union] at hb ⊢
  cases h with
  | arrive _ => exact hb.imp_left fun h => h.imp_left .inr
  | @deliver s hs =>
    by_cases hbs : b ∈ s
    · exact .inl (.inr (.inr hbs))
    · rcases hb with (h | h) | h
      · exact .inl (.inl ⟨h, hbs⟩)
      · exact .inl (.inr (.inl h))
      · exact .inr h
  | justify => exact hb
  | @ack a _ _ _ =>
    by_cases hba : b = a
    · exact .inr (.inl hba)
    · rcases hb with (h | h) | h
      · exact .inl (.inl h)
      · exact .inl (.inr ⟨h, hba⟩)
      · exact .inr (.inr h)

end Ledger

end RelayQ

import RelayQ.Sqlite.Isolation
import RelayQ.System.Gate

/-! # What stays committed

A relation between contents of the outbox that inserts and updates respect holds between what is
committed at one time and what is committed later, whoever reads, writes or commits in between.

* `Outbox.Respected`: such a relation.
* `Db.Kept`: every transaction that can still write sees a successor of what is committed.
* `Sys.Run.committed`: what a run makes of what is committed. -/

namespace RelayQ

namespace Outbox

/-- Inserts and updates lead from contents to related ones. -/
structure Respected (R : Outbox → Outbox → Prop) : Prop where
  refl : ∀ t, R t t
  trans : ∀ t₁ t₂ t₃, R t₁ t₂ → R t₂ t₃ → R t₁ t₃
  insert : ∀ t t' row, Outbox.insert row t = .ok t' → R t t'
  update : ∀ t id status att, R t (Outbox.update id status att t)

end Outbox

namespace Db

/-- Every transaction that can still write sees a successor of what is committed. -/
def Kept (R : Outbox → Outbox → Prop) (db : Db) : Prop := db.Everywhere (R db.committed)

variable {R : Outbox → Outbox → Prop} {db : Db} {site : Nat}

/-- The table is empty at the start. -/
theorem kept_init (hR : Outbox.Respected R) : World.init.db.Kept R where
  committed := hR.refl _
  le_version _ _ _ h := by cases h
  views _ _ _ h := by cases h

/-- **Every statement keeps to the relation.** -/
theorem Kept.run (hR : Outbox.Respected R) (h : db.Kept R) (stmt : Stmt) :
    (db.run site stmt).1.Kept R ∧ R db.committed (db.run site stmt).1.committed := by
  -- what commits nothing
  have haside : ∀ {db' : Db}, Sqlite.Database.Aside site db db' →
      db'.Everywhere (R db.committed) → db'.Kept R ∧ R db.committed db'.committed := fun ha h' => by
    rw [Kept, ha.committed]
    exact ⟨h', hR.refl _⟩
  cases stmt with
  | begin => exact haside .begin h.begin
  | insert row =>
    exact haside (.write _)
      (h.write fun t t' ht hi => hR.trans _ _ _ ht (hR.insert t t' row hi)).1
  | update id status att =>
    refine haside (.write _) (h.write (E := Violation) fun t t' ht hi => ?_).1
    obtain rfl := Except.ok.inj hi
    exact hR.trans _ _ _ ht (hR.update t id status att)
  | selectById _ | selectByKey _ => exact haside .read h.read
  | commit => exact (h.commit_succ hR.refl).symm
  | rollback => exact haside .rollback h.rollback

end Db

namespace Sys

variable [Codec] {R : Outbox → Outbox → Prop} {t : RedisStreamTransport} {s s' : Sys} {l : SysLabel}

/-- A step keeps to the relation. -/
theorem kept_of_step (hR : Outbox.Respected R) (hwired : s.Wired t) (h : s.world.db.Kept R)
    (hs : s.step l = some s') :
    s'.world.db.Kept R ∧ R s.world.db.committed s'.world.db.committed := by
  have hsame : s'.world.db = s.world.db →
      s'.world.db.Kept R ∧ R s.world.db.committed s'.world.db.committed := fun heq => by
    rw [heq]
    exact ⟨h, hR.refl _⟩
  rcases step_called hwired hs with ⟨-, -, hdb | ⟨site, -, hdb⟩⟩ | ⟨site, a, o, ans, r, -, hx⟩
  · exact hsame hdb
  · rw [hdb]
    exact h.run hR .rollback
  · by_cases ho : ∃ stmt, o = .sql stmt
    · obtain ⟨stmt, rfl⟩ := ho
      rcases (World.exec_sql_db hx).2 with ⟨hdb, -⟩ | ⟨hdb, -⟩
      · rw [hdb]
        exact h.run hR stmt
      · exact hsame hdb
    · refine hsame (World.exec_db ?_ hx)
      cases o with
      | sql stmt => exact absurd ⟨stmt, rfl⟩ ho
      | redis _ | handler _ _ | monotonic | utcnow | metric _ | delay _ => rfl

/-- In every reachable state the relation is kept to. -/
theorem Run.kept (hR : Outbox.Respected R) (h : Run t init s) : s.world.db.Kept R := by
  have hinv : s.Wired t ∧ s.world.db.Kept R :=
    Reaches.invariant (P := fun u : Sys => u.Wired t ∧ u.world.db.Kept R)
      (fun _ _ _ hu hl hs => ⟨hu.1.step hl hs, (kept_of_step hR hu.1 hu.2 hs).1⟩) h
      ⟨wired_init, Db.kept_init hR⟩
  exact hinv.2

/-- **What a run makes of what is committed.** -/
theorem Run.committed (hR : Outbox.Respected R) (h₀ : Run t init s) (h : Run t s s') :
    R s.world.db.committed s'.world.db.committed := by
  have hinv : s'.Wired t ∧ s'.world.db.Kept R ∧ R s.world.db.committed s'.world.db.committed :=
    Reaches.invariant (P := fun u : Sys => u.Wired t ∧ u.world.db.Kept R ∧
        R s.world.db.committed u.world.db.committed)
      (fun _ _ _ hu hl hs => by
        obtain ⟨hkept, hsucc⟩ := kept_of_step hR hu.1 hu.2.1 hs
        exact ⟨hu.1.step hl hs, hkept, hR.trans _ _ _ hu.2.2 hsucc⟩) h
      ⟨h₀.wired wired_init, h₀.kept hR, hR.refl _⟩
  exact hinv.2.2

end Sys

end RelayQ

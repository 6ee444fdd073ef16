import RelayQ.Sqlite.Database

/-! # What one connection does to the others

A statement touches the transaction of its own connection. The rest of the database notices it only
through the write lock, until a commit.

* `Aside`: nothing but the transaction and the lock of one connection has changed; all but a commit
  of the writer are such steps.
* `Sealed`: what is committed, and what the connections of a set see, has a property. Other
  connections cannot break it without a commit. -/

namespace RelayQ.Sqlite.Database

variable {T Conn E : Type} {db db' : Database T Conn} {c c' : Conn} {t : T}

/-- From `db` to `db'` nothing is committed, and the other connections keep their transactions and
the write lock, if they hold it. -/
structure Aside (c : Conn) (db db' : Database T Conn) : Prop where
  committed : db'.committed = db.committed
  version : db'.version = db.version
  txs : ∀ c', c' ≠ c → db'.txs c' = db.txs c'
  lock : ∀ c', c' ≠ c → db.lock = some c' → db'.lock = some c'

namespace Aside

/-- Nothing happens. -/
theorem refl (c : Conn) (db : Database T Conn) : Aside c db db :=
  ⟨rfl, rfl, fun _ _ => rfl, fun _ _ h => h⟩

variable [DecidableEq Conn]

/-- Replacing the transaction of the connection, and perhaps taking a lock that is free or its own. -/
theorem setTx {tx : Option (Tx T)} {l : Option Conn}
    (hl : ∀ c', c' ≠ c → db.lock = some c' → l = some c') :
    Aside c db { db.setTx c tx with lock := l } :=
  ⟨rfl, rfl, fun _ h => setTx_txs_of_ne db h _, hl⟩

/-- `BEGIN`. -/
theorem begin : Aside c db (db.beginImmediate (E := E) c).1 := by
  unfold beginImmediate
  split
  · exact .refl c db
  · split
    · exact .refl c db
    · rename_i hl
      exact .setTx fun c' _ h => absurd (hl.symm.trans h) (by simp)

/-- A data-changing statement takes the lock only where no other connection holds it. -/
theorem write (f : T → Except E T) : Aside c db (db.write c f).1 := by
  have hview : ∀ t v, db.lock = some c ∨ db.lock = none → Aside c db (db.writeView c t v f).1 := by
    intro t v hl
    have hfree : ∀ c', c' ≠ c → db.lock = some c' → some c = some c' := fun c' hc h => by
      rcases hl with hl | hl
      · exact absurd (Option.some.inj (hl.symm.trans h)).symm hc
      · exact absurd (hl.symm.trans h) (by simp)
    unfold writeView
    split <;> exact .setTx hfree
  have hkeep : ∀ tx, Aside c db (db.setTx c tx) := fun tx => .setTx (l := db.lock) fun _ _ h => h
  unfold Database.write
  dsimp only
  split
  · rename_i hl
    split <;> exact hview _ _ (.inl hl)
  · split
    · exact hkeep _
    · rename_i hl
      have hnone : db.lock = none := by simpa using hl
      split
      · split
        · exact hview _ _ (.inr hnone)
        · exact hkeep _
      · exact hview _ _ (.inr hnone)

/-- A query. -/
theorem read : Aside c db (db.read c).1 := by
  unfold Database.read
  split
  · exact .setTx (l := db.lock) fun _ _ h => h
  · exact .refl c db

/-- `ROLLBACK`. -/
theorem rollback : Aside c db (db.rollback c) := by
  obtain ⟨hc, -, htxs, hl⟩ := db.rollback_spec c
  refine ⟨hc, ?_, htxs, fun c' hc h => ?_⟩
  · unfold Database.rollback unlock
    split <;> rfl
  · rw [hl, if_neg, h]
    simpa [h] using hc

/-- A commit by who does not hold the write lock publishes nothing. -/
theorem commit (h : db.lock ≠ some c) : Aside c db (db.commit c) := by
  unfold Database.commit
  split
  · exact .refl c db
  · rw [if_neg h]
    exact .setTx (l := db.lock) fun _ _ h => h

end Aside

variable [DecidableEq Conn]

/-! ## Who holds the write lock -/

/-- The writer goes on writing after a statement. -/
theorem lock_write (h : db.lock = some c) (f : T → Except E T) :
    (db.write c f).1.lock = some c := by
  have hview : ∀ t v, (db.writeView c t v f).1.lock = some c := fun t v => by
    unfold writeView
    split <;> rfl
  unfold Database.write
  dsimp only
  rw [if_pos h]
  split <;> exact hview _ _

/-- A data-changing statement that is carried out leaves its connection the writer. -/
theorem lock_of_write_ok {f : T → Except E T} (h : (db.write c f).2 = .ok ()) :
    (db.write c f).1.lock = some c := by
  rcases db.write_cases c f with ⟨t, v, hw, -⟩ | ⟨e, hw⟩
  · rw [hw, writeView]
    split <;> rfl
  · rw [hw] at h
    cases h

/-- While there is a writer no transaction begins. -/
theorem beginImmediate_of_lock (h : db.lock = some c) (c' : Conn) :
    ∃ e, (db.beginImmediate (E := E) c').2 = .error e := by
  rcases db.beginImmediate_cases (E := E) c' with ⟨e, hb⟩ | ⟨-, hl, -⟩
  · exact ⟨e, by rw [hb]⟩
  · rw [h] at hl
    cases hl

/-! ## What a set of connections sees -/

omit [DecidableEq Conn] in
/-- The connection's open transaction sees the contents `t`. -/
def Sees (db : Database T Conn) (c : Conn) (t : T) : Prop := ∃ v, db.txs c = some ⟨some (t, v)⟩

/-- What is committed and what the connections of `A` see has the property `P`. -/
structure Sealed (A : Conn → Prop) (P : T → Prop) (db : Database T Conn) : Prop where
  committed : P db.committed
  sees : ∀ c, A c → ∀ t, db.Sees c t → P t

namespace Sealed

variable {A : Conn → Prop} {P Q : T → Prop}

omit [DecidableEq Conn] in
/-- What has a property has a weaker one. -/
theorem mono (hPQ : ∀ t, P t → Q t) (h : db.Sealed A P) : db.Sealed A Q :=
  ⟨hPQ _ h.committed, fun c hc t ht => hPQ t (h.sees c hc t ht)⟩

omit [DecidableEq Conn] in
/-- What a connection of the set reads has the property. -/
theorem visible (h : db.Sealed A P) (hc : A c) : P (db.visible c) := by
  unfold Database.visible
  split
  · rename_i t v htx
    exact h.sees c hc t ⟨v, htx⟩
  · exact h.committed

/-- **A step of one connection** keeps the property, if what that connection sees afterwards has it
or is nobody's concern. -/
theorem aside (h : db.Sealed A P) (ha : Aside c db db') (hc : A c → ∀ t, db'.Sees c t → P t) :
    db'.Sealed A P where
  committed := by
    rw [ha.committed]
    exact h.committed
  sees c' hc' t ht := by
    by_cases hcc : c' = c
    · subst hcc
      exact hc hc' t ht
    · obtain ⟨v, hv⟩ := ht
      exact h.sees c' hc' t ⟨v, ha.txs c' hcc ▸ hv⟩

/-- `BEGIN IMMEDIATE` shows what is committed. -/
theorem begin (h : db.Sealed A P) : (db.beginImmediate (E := E) c).1.Sealed A P := by
  refine h.aside .begin fun hc t ⟨v, hv⟩ => ?_
  rcases db.beginImmediate_cases (E := E) c with ⟨e, hb⟩ | ⟨-, -, db₁, hb, ⟨-, v₁, hv₁⟩, -, -⟩
  · rw [hb] at hv
    exact h.sees c hc t ⟨v, hv⟩
  · rw [hb, hv₁] at hv
    obtain ⟨rfl, -⟩ := Prod.mk.inj (Option.some.inj (Tx.mk.inj (Option.some.inj hv)))
    exact h.committed

/-- A statement that keeps the property. -/
theorem write (h : db.Sealed A P) {f : T → Except E T}
    (hf : A c → ∀ t t', P t → f t = .ok t' → P t') : (db.write c f).1.Sealed A P := by
  refine h.aside (.write f) fun hc t ⟨v, hv⟩ => ?_
  rcases db.write_cases c f with ⟨t₀, v₀, hw, hopen⟩ | ⟨e, hw⟩
  · have h₀ : P t₀ := by
      rcases hopen with ⟨rfl, -⟩ | ⟨htx, -⟩
      · exact h.committed
      · exact h.sees c hc t₀ ⟨v₀, htx⟩
    rw [hw, writeView] at hv
    cases hft : f t₀ with
    | ok t' =>
      simp only [hft, setTx, Function.update_self] at hv
      obtain ⟨rfl, -⟩ := Prod.mk.inj (Option.some.inj (Tx.mk.inj (Option.some.inj hv)))
      exact hf hc t₀ _ h₀ hft
    | error e =>
      simp only [hft, setTx, Function.update_self] at hv
      obtain ⟨rfl, -⟩ := Prod.mk.inj (Option.some.inj (Tx.mk.inj (Option.some.inj hv)))
      exact h₀
  · rw [hw, setTx_txs_self] at hv
    exact h.sees c hc t ⟨v, openTx_eq_some (congrArg Tx.view (Option.some.inj hv))⟩

/-- A query may fix a snapshot of what is committed. -/
theorem read (h : db.Sealed A P) : (db.read c).1.Sealed A P := by
  refine h.aside .read fun hc t ⟨v, hv⟩ => ?_
  unfold Database.read at hv
  split at hv
  · rw [setTx_txs_self] at hv
    obtain ⟨rfl, -⟩ := Prod.mk.inj (Option.some.inj (Tx.mk.inj (Option.some.inj hv)))
    exact h.committed
  · exact h.sees c hc t ⟨v, hv⟩

/-- A rollback shows nothing. -/
theorem rollback (h : db.Sealed A P) : (db.rollback c).Sealed A P :=
  h.aside .rollback fun _ _ ⟨_, hv⟩ => nomatch (db.rollback_spec c).2.1.symm.trans hv

/-- A connection of the set commits what has the property. -/
theorem commit (h : db.Sealed A P) (hc : A c) : (db.commit c).Sealed A P := by
  by_cases hl : db.lock = some c
  · unfold Database.commit
    split
    · exact h
    · rename_i tx htx
      rw [if_pos hl]
      refine ⟨?_, fun c' hc' t ⟨v, hv⟩ => ?_⟩
      · obtain ⟨_ | ⟨t, v⟩⟩ := tx
        · exact h.committed
        · exact h.sees c hc t ⟨v, htx⟩
      · by_cases hcc : c' = c
        · subst hcc
          simp at hv
        · simp only [Function.update_of_ne hcc] at hv
          exact h.sees c' hc' t ⟨v, hv⟩
  · refine h.aside (.commit hl) fun _ t ⟨v, hv⟩ => ?_
    unfold Database.commit at hv
    split at hv
    · rename_i htx
      cases htx.symm.trans hv
    · rw [if_neg hl, setTx_txs_self] at hv
      cases hv

end Sealed

end RelayQ.Sqlite.Database

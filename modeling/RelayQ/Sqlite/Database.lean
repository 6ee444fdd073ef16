import Mathlib.Logic.Function.Basic
import Mathlib.Tactic.Common

/-! # SQLite databases behind several connections

A database in write-ahead-log mode with contents of an arbitrary type `T`, used through any number
of connections with the transaction control of a host library that opens a transaction before a
data-changing statement and never closes one by itself.

* Readers see the committed contents, or the snapshot of their open transaction.
* One connection at a time holds the write lock; others fail to get it.
* A statement that fails leaves the transaction it ran in open. -/

namespace RelayQ.Sqlite

/-- Why a statement failed. -/
inductive SqlError (E : Type)
  /-- `BEGIN` inside an open transaction. -/
  | nestedTransaction
  /-- Another connection holds the write lock until after the busy timeout. -/
  | locked
  /-- The transaction's snapshot is older than the last commit. -/
  | staleSnapshot
  /-- The statement violates a constraint. -/
  | constraint (e : E)
  /-- Any other failure of the engine. -/
  | failure (msg : String)
  deriving DecidableEq, Repr

/-- An open transaction: the contents it sees with the version they started from; `none` until its
first statement. -/
structure Tx (T : Type) where
  /-- The snapshot, with the transaction's own writes applied. -/
  view : Option (T × Nat)

/-- A database and the transactions open on its connections. -/
structure Database (T Conn : Type) where
  /-- The committed contents. -/
  committed : T
  /-- The number of commits so far. -/
  version : Nat
  /-- The connection that holds the write lock. -/
  lock : Option Conn
  /-- The open transaction of a connection, if it has one. -/
  txs : Conn → Option (Tx T)

namespace Database

variable {T Conn E : Type} [DecidableEq Conn]

/-- Replace the transaction of a connection. -/
def setTx (db : Database T Conn) (c : Conn) (tx : Option (Tx T)) : Database T Conn :=
  { db with txs := Function.update db.txs c tx }

/-- Drop the write lock if the connection holds it. -/
def unlock (db : Database T Conn) (c : Conn) : Database T Conn :=
  if db.lock = some c then { db with lock := none } else db

/-- `BEGIN IMMEDIATE`. -/
def beginImmediate (db : Database T Conn) (c : Conn) :
    Database T Conn × Except (SqlError E) Unit :=
  match db.txs c with
  | some _ => (db, .error .nestedTransaction)
  | none =>
    match db.lock with
    | some _ => (db, .error .locked)
    | none => ({ db.setTx c (some ⟨some (db.committed, db.version)⟩) with lock := some c }, .ok ())

/-- Run a data-changing statement on the contents a transaction sees. -/
def writeView (db : Database T Conn) (c : Conn) (t : T) (v : Nat) (f : T → Except E T) :
    Database T Conn × Except (SqlError E) Unit :=
  match f t with
  | .ok t' => ({ db.setTx c (some ⟨some (t', v)⟩) with lock := some c }, .ok ())
  | .error e =>
    ({ db.setTx c (some ⟨some (t, v)⟩) with lock := some c }, .error (.constraint e))

/-- A data-changing statement. Outside a transaction it first opens one, which stays open however
the statement ends. -/
def write (db : Database T Conn) (c : Conn) (f : T → Except E T) :
    Database T Conn × Except (SqlError E) Unit :=
  let tx := (db.txs c).getD ⟨none⟩
  if db.lock = some c then
    match tx.view with
    | some (t, v) => db.writeView c t v f
    | none => db.writeView c db.committed db.version f
  else if db.lock.isSome then (db.setTx c (some tx), .error .locked)
  else
    match tx.view with
    | some (t, v) =>
      if v = db.version then db.writeView c t v f
      else (db.setTx c (some tx), .error .staleSnapshot)
    | none => db.writeView c db.committed db.version f

/-- What a connection's next query reads. -/
def visible (db : Database T Conn) (c : Conn) : T :=
  match db.txs c with
  | some ⟨some (t, _)⟩ => t
  | _ => db.committed

/-- A query; inside a transaction the first one fixes the snapshot. -/
def read (db : Database T Conn) (c : Conn) : Database T Conn × T :=
  match db.txs c with
  | some ⟨none⟩ => (db.setTx c (some ⟨some (db.committed, db.version)⟩), db.committed)
  | _ => (db, db.visible c)

/-- `commit()`: publishes the transaction's writes; without one it does nothing. -/
def commit (db : Database T Conn) (c : Conn) : Database T Conn :=
  match db.txs c with
  | none => db
  | some tx =>
    if db.lock = some c then
      { committed := (tx.view.map Prod.fst).getD db.committed
        version := db.version + 1
        lock := none
        txs := Function.update db.txs c none }
    else db.setTx c none

/-- `rollback()`, and what closing the connection does. -/
def rollback (db : Database T Conn) (c : Conn) : Database T Conn := (db.unlock c).setTx c none

/-- To replace a transaction commits nothing. -/
@[simp] theorem setTx_committed (db : Database T Conn) (c : Conn) (tx : Option (Tx T)) :
    (db.setTx c tx).committed = db.committed := rfl

/-- It takes no lock. -/
@[simp] theorem setTx_lock (db : Database T Conn) (c : Conn) (tx : Option (Tx T)) :
    (db.setTx c tx).lock = db.lock := rfl

/-- The connection has the new one. -/
@[simp] theorem setTx_txs_self (db : Database T Conn) (c : Conn) (tx : Option (Tx T)) :
    (db.setTx c tx).txs c = tx := Function.update_self ..

/-- The others keep theirs. -/
theorem setTx_txs_of_ne (db : Database T Conn) {c c' : Conn} (h : c' ≠ c)
    (tx : Option (Tx T)) : (db.setTx c tx).txs c' = db.txs c' := Function.update_of_ne h ..

/-! ## A write transaction from its beginning to its end -/

/-- The connection is in a write transaction and sees the contents `t`. -/
def Writing (db : Database T Conn) (c : Conn) (t : T) : Prop :=
  db.lock = some c ∧ ∃ v, db.txs c = some ⟨some (t, v)⟩

variable {db : Database T Conn} {c : Conn} {t : T}

/-- `BEGIN IMMEDIATE` fails without a trace, or starts a write transaction on the committed
contents where no connection writes. -/
theorem beginImmediate_cases (db : Database T Conn) (c : Conn) :
    (∃ e, db.beginImmediate (E := E) c = (db, .error e)) ∨
    (db.txs c = none ∧ db.lock = none ∧ ∃ db', db.beginImmediate (E := E) c = (db', .ok ()) ∧
      db'.Writing c db.committed ∧ db'.committed = db.committed ∧
      ∀ c', c' ≠ c → db'.txs c' = db.txs c') := by
  unfold beginImmediate
  cases htx : db.txs c with
  | some tx => exact .inl ⟨_, rfl⟩
  | none =>
    cases hl : db.lock with
    | some c' => exact .inl ⟨_, rfl⟩
    | none =>
      exact .inr ⟨rfl, rfl, _, rfl, ⟨rfl, db.version, setTx_txs_self ..⟩, rfl,
        fun c' hc => setTx_txs_of_ne db hc _⟩

/-- A statement in a write transaction changes what the transaction sees, or fails and leaves it. -/
theorem Writing.write (h : db.Writing c t) (f : T → Except E T) :
    ∃ db', db'.committed = db.committed ∧ (∀ c', c' ≠ c → db'.txs c' = db.txs c') ∧
      ((∃ t', f t = .ok t' ∧ db'.Writing c t' ∧ db.write c f = (db', .ok ())) ∨
        ∃ e, f t = .error e ∧ db'.Writing c t ∧ db.write c f = (db', .error (.constraint e))) := by
  obtain ⟨hl, v, htx⟩ := h
  have hw : db.write c f = db.writeView c t v f := by
    simp [Database.write, htx, hl]
  rw [hw, writeView]
  cases hf : f t with
  | ok t' =>
    exact ⟨{ db.setTx c (some ⟨some (t', v)⟩) with lock := some c }, rfl,
      fun c' hc => setTx_txs_of_ne db hc _, .inl ⟨t', rfl, ⟨rfl, v, setTx_txs_self ..⟩, rfl⟩⟩
  | error e =>
    exact ⟨{ db.setTx c (some ⟨some (t, v)⟩) with lock := some c }, rfl,
      fun c' hc => setTx_txs_of_ne db hc _, .inr ⟨e, rfl, ⟨rfl, v, setTx_txs_self ..⟩, rfl⟩⟩

/-- A commit publishes what the transaction sees and ends it. -/
theorem Writing.commit (h : db.Writing c t) :
    (db.commit c).committed = t ∧ (db.commit c).lock = none ∧ (db.commit c).txs c = none ∧
      ∀ c', c' ≠ c → (db.commit c).txs c' = db.txs c' := by
  obtain ⟨hl, v, htx⟩ := h
  unfold Database.commit
  simp only [htx]
  rw [if_pos hl]
  exact ⟨rfl, rfl, Function.update_self .., fun c' hc => Function.update_of_ne hc ..⟩

/-- A rollback ends the connection's transaction and changes nothing else. -/
theorem rollback_spec (db : Database T Conn) (c : Conn) :
    (db.rollback c).committed = db.committed ∧ (db.rollback c).txs c = none ∧
      (∀ c', c' ≠ c → (db.rollback c).txs c' = db.txs c') ∧
      (db.rollback c).lock = if db.lock = some c then none else db.lock := by
  have htxs : (db.unlock c).txs = db.txs := by unfold unlock; split <;> rfl
  refine ⟨?_, setTx_txs_self .., fun c' hc => ?_, ?_⟩
  · unfold rollback unlock; split <;> rfl
  · rw [rollback, setTx_txs_of_ne _ hc, htxs]
  · unfold rollback unlock; split <;> rfl

/-- Who writes elsewhere goes on writing after a rollback. -/
theorem Writing.rollback_of_ne (h : db.Writing c t) {c' : Conn} (hc : c ≠ c') :
    (db.rollback c').Writing c t := by
  obtain ⟨-, -, htxs, hlock⟩ := db.rollback_spec c'
  refine ⟨?_, ?_⟩
  · rw [hlock, if_neg, h.1]
    simpa [h.1] using hc
  · rw [htxs c hc]
    exact h.2

/-- A query changes nothing where every open transaction has begun. -/
theorem read_fst (h : db.txs c ≠ some ⟨none⟩) : (db.read c).1 = db := by
  unfold Database.read
  split
  · contradiction
  · rfl

/-- A data-changing statement leaves its connection in a transaction, however it ends. -/
theorem write_txs_ne_none (db : Database T Conn) (c : Conn) (f : T → Except E T) :
    (db.write c f).1.txs c ≠ none := by
  have hview : ∀ t v, (db.writeView c t v f).1.txs c ≠ none := fun t v => by
    unfold writeView
    cases f t <;> simp [setTx]
  unfold Database.write
  dsimp only
  split
  · split <;> exact hview _ _
  · split
    · simp
    · split
      · split
        · exact hview _ _
        · simp
      · exact hview _ _

/-- No connection has an open transaction. -/
def Idle (db : Database T Conn) : Prop := db.lock = none ∧ ∀ c, db.txs c = none

omit [DecidableEq Conn] in
/-- Without open transactions every connection sees what is committed. -/
theorem Idle.visible (h : db.Idle) (c : Conn) : db.visible c = db.committed := by
  simp [Database.visible, h.2 c]

/-- Without open transactions one can begin. -/
theorem Idle.begin (h : db.Idle) (c : Conn) :
    ∃ db', db.beginImmediate (E := E) c = (db', .ok ()) ∧ db'.Writing c db.committed ∧
      db'.committed = db.committed ∧ ∀ c', c' ≠ c → db'.txs c' = none := by
  rcases db.beginImmediate_cases (E := E) c with ⟨e, hb⟩ | ⟨-, -, db', hb, hw, hc, htxs⟩
  · simp [beginImmediate, h.1, h.2 c] at hb
  · exact ⟨db', hb, hw, hc, fun c' hcc => (htxs c' hcc).trans (h.2 c')⟩

/-- The commit of the only open transaction leaves none. -/
theorem Writing.commit_idle (h : db.Writing c t) (ho : ∀ c', c' ≠ c → db.txs c' = none) :
    (db.commit c).Idle ∧ (db.commit c).committed = t := by
  obtain ⟨hc, hl, hnone, htxs⟩ := h.commit
  refine ⟨⟨hl, fun c' => ?_⟩, hc⟩
  by_cases hcc : c' = c
  · rw [hcc, hnone]
  · rw [htxs c' hcc, ho c' hcc]

/-- The rollback of the only open transaction leaves none. -/
theorem Writing.rollback_idle (h : db.Writing c t) (ho : ∀ c', c' ≠ c → db.txs c' = none) :
    (db.rollback c).Idle ∧ (db.rollback c).committed = db.committed := by
  obtain ⟨hc, hnone, htxs, hl⟩ := db.rollback_spec c
  refine ⟨⟨by rw [hl, if_pos h.1], fun c' => ?_⟩, hc⟩
  by_cases hcc : c' = c
  · rw [hcc, hnone]
  · rw [htxs c' hcc, ho c' hcc]

/-! ### The same as equations, where nobody else writes -/

/-- The database with a write transaction open on a connection. -/
def begun (db : Database T Conn) (c : Conn) (t : T) : Database T Conn :=
  { db with lock := some c, txs := Function.update db.txs c (some ⟨some (t, db.version)⟩) }

/-- `BEGIN IMMEDIATE` succeeds on a connection without a transaction while nobody writes, and only
there. -/
theorem beginImmediate_eq_ok {db' : Database T Conn} :
    db.beginImmediate (E := E) c = (db', .ok ()) ↔
      db.txs c = none ∧ db.lock = none ∧ db' = db.begun c db.committed := by
  unfold beginImmediate
  cases htx : db.txs c with
  | some tx => simp
  | none =>
    cases hl : db.lock with
    | some c' => simp
    | none => simp [begun, setTx, eq_comm]

/-- A failing `BEGIN IMMEDIATE` leaves no trace. -/
theorem beginImmediate_of_error {db' : Database T Conn} {e : SqlError E}
    (h : db.beginImmediate c = (db', .error e)) : db' = db := by
  unfold beginImmediate at h
  split at h
  · exact (Prod.mk.inj h).1.symm
  · split at h
    · exact (Prod.mk.inj h).1.symm
    · cases (Prod.mk.inj h).2

/-- A statement inside the transaction. -/
theorem write_begun (f : T → Except E T) :
    (db.begun c t).write c f = match f t with
      | .ok t' => (db.begun c t', .ok ())
      | .error e => (db.begun c t, .error (.constraint e)) := by
  cases hf : f t <;> simp [Database.write, begun, writeView, setTx, hf]

/-- A commit publishes what the transaction sees. -/
theorem commit_begun (hl : db.lock = none) (htx : db.txs c = none) :
    (db.begun c t).commit c = { db with committed := t, version := db.version + 1 } := by
  have hupd : Function.update db.txs c none = db.txs := Function.update_eq_self_iff.mpr htx.symm
  simp [Database.commit, begun, hupd, hl]

/-- A rollback restores what was there before the transaction. -/
theorem rollback_begun (hl : db.lock = none) (htx : db.txs c = none) :
    (db.begun c t).rollback c = db := by
  have hupd : Function.update db.txs c none = db.txs := Function.update_eq_self_iff.mpr htx.symm
  simp [Database.rollback, unlock, begun, setTx, hupd, ← hl]

/-- A statement outside any transaction opens one, where nobody writes. -/
theorem write_of_none (hl : db.lock = none) (htx : db.txs c = none) (f : T → Except E T) :
    db.write c f = match f db.committed with
      | .ok t' => (db.begun c t', .ok ())
      | .error e => (db.begun c db.committed, .error (.constraint e)) := by
  cases hf : f db.committed <;> simp [Database.write, begun, writeView, setTx, hf, hl, htx]

/-- The writer reads what it wrote. -/
@[simp] theorem visible_begun : (db.begun c t).visible c = t := by
  simp [Database.visible, begun]

/-- A query inside the transaction. -/
@[simp] theorem read_begun : (db.begun c t).read c = (db.begun c t, t) := by
  simp [Database.read, Database.visible, begun]

/-- A query outside any transaction. -/
theorem read_of_none (htx : db.txs c = none) : db.read c = (db, db.committed) := by
  simp [Database.read, Database.visible, htx]

/-- The connection can write and sees the contents `t`: it is in a write transaction, or nobody
is. -/
def CanWrite (db : Database T Conn) (c : Conn) (t : T) : Prop :=
  (db.lock = none ∧ db.txs c = none ∧ db.committed = t) ∨ ∃ db₀ : Database T Conn, db = db₀.begun c t

/-- A statement of a connection that can write is carried out, and the connection can go on
writing. -/
theorem CanWrite.write (h : db.CanWrite c t) {f : T → Except E T} {t' : T} (hf : f t = .ok t') :
    (db.write c f).2 = .ok () ∧ (db.write c f).1.CanWrite c t' := by
  rcases h with ⟨hl, htx, rfl⟩ | ⟨db₀, rfl⟩
  · rw [write_of_none hl htx, hf]
    exact ⟨rfl, .inr ⟨db, rfl⟩⟩
  · rw [write_begun, hf]
    exact ⟨rfl, .inr ⟨db₀, rfl⟩⟩

/-- A query of a connection that can write changes nothing. -/
theorem CanWrite.read (h : db.CanWrite c t) : db.read c = (db, t) := by
  rcases h with ⟨-, htx, rfl⟩ | ⟨db₀, rfl⟩
  · exact read_of_none htx
  · exact read_begun

/-! ## What a statement works on -/

omit [DecidableEq Conn] in
/-- The transaction a statement runs in sees what the open one does. -/
theorem openTx_eq_some {v : Nat} (h : ((db.txs c).getD ⟨none⟩).view = some (t, v)) :
    db.txs c = some ⟨some (t, v)⟩ := by
  cases hc : db.txs c with
  | none => simp [hc] at h
  | some tx =>
    rw [hc, Option.getD_some] at h
    rw [← h]

/-- **A data-changing statement** works on the committed contents or on what an open transaction sees
that can still write, or it opens a transaction and fails. -/
theorem write_cases (db : Database T Conn) (c : Conn) (f : T → Except E T) :
    (∃ t v, db.write c f = db.writeView c t v f ∧ (t = db.committed ∧ v = db.version ∨
      db.txs c = some ⟨some (t, v)⟩ ∧ (db.lock = some c ∨ v = db.version))) ∨
    ∃ e, db.write c f = (db.setTx c (some ((db.txs c).getD ⟨none⟩)), .error e) := by
  unfold Database.write
  dsimp only
  split
  · rename_i hl
    split
    · rename_i t v hv
      exact .inl ⟨t, v, rfl, .inr ⟨openTx_eq_some hv, .inl hl⟩⟩
    · exact .inl ⟨_, _, rfl, .inl ⟨rfl, rfl⟩⟩
  · split
    · exact .inr ⟨_, rfl⟩
    · split
      · rename_i t v hv
        split
        · rename_i hver
          exact .inl ⟨t, v, rfl, .inr ⟨openTx_eq_some hv, .inr hver⟩⟩
        · exact .inr ⟨_, rfl⟩
      · exact .inl ⟨_, _, rfl, .inl ⟨rfl, rfl⟩⟩

/-! ## What any connection sees -/

/-- The committed contents, or those some open transaction sees. -/
def Shows (db : Database T Conn) (t : T) : Prop :=
  t = db.committed ∨ ∃ c v, db.txs c = some ⟨some (t, v)⟩

/-- Replacing a transaction shows nothing but what that transaction sees. -/
theorem Shows.of_setTx {tx : Option (Tx T)} (h : (db.setTx c tx).Shows t) :
    db.Shows t ∨ ∃ v, tx = some ⟨some (t, v)⟩ := by
  rcases h with h | ⟨c', v, h⟩
  · exact .inl (.inl h)
  · by_cases hc : c' = c
    · subst hc
      rw [setTx_txs_self] at h
      exact .inr ⟨v, h⟩
    · rw [setTx_txs_of_ne db hc] at h
      exact .inl (.inr ⟨c', v, h⟩)

omit [DecidableEq Conn] in
/-- The write lock shows nothing. -/
theorem shows_lock (l : Option Conn) : ({ db with lock := l } : Database T Conn).Shows t ↔
    db.Shows t := Iff.rfl

/-- What is shown after a data-changing statement was shown before, or is what the statement makes
of that. -/
theorem Shows.of_write {f : T → Except E T} (h : (db.write c f).1.Shows t) :
    db.Shows t ∨ ∃ t₀, db.Shows t₀ ∧ f t₀ = .ok t := by
  rcases db.write_cases c f with ⟨t₀, v, hw, hopen⟩ | ⟨e, hw⟩
  · have h₀ : db.Shows t₀ := hopen.imp And.left fun h => ⟨c, v, h.1⟩
    rw [hw, writeView] at h
    cases hf : f t₀ with
    | ok t' =>
      rw [hf] at h
      rcases Shows.of_setTx ((shows_lock _).mp h) with h | ⟨v', h⟩
      · exact .inl h
      · obtain ⟨rfl, -⟩ := Prod.mk.inj (Option.some.inj (Tx.mk.inj (Option.some.inj h)))
        exact .inr ⟨t₀, h₀, hf⟩
    | error e =>
      rw [hf] at h
      rcases Shows.of_setTx ((shows_lock _).mp h) with h | ⟨v', h⟩
      · exact .inl h
      · obtain ⟨rfl, -⟩ := Prod.mk.inj (Option.some.inj (Tx.mk.inj (Option.some.inj h)))
        exact .inl h₀
  · rw [hw] at h
    rcases h.of_setTx with h | ⟨v, h⟩
    · exact .inl h
    · exact .inl (.inr ⟨c, v, openTx_eq_some (congrArg Tx.view (Option.some.inj h))⟩)

/-- A rollback shows nothing new. -/
theorem Shows.of_rollback (h : (db.rollback c).Shows t) : db.Shows t := by
  obtain ⟨hc, hnone, htxs, -⟩ := db.rollback_spec c
  rcases h with h | ⟨c', v, h⟩
  · exact .inl (h.trans hc)
  · by_cases hcc : c' = c
    · rw [hcc, hnone] at h
      cases h
    · exact .inr ⟨c', v, htxs c' hcc ▸ h⟩

/-! ## What any connection can write on -/

/-- The committed contents satisfy `P`, and so does what an open transaction sees that can still write:
one that holds the write lock, or whose snapshot is the last commit. -/
structure Everywhere (db : Database T Conn) (P : T → Prop) : Prop where
  committed : P db.committed
  le_version : ∀ c t v, db.txs c = some ⟨some (t, v)⟩ → v ≤ db.version
  views : ∀ c t v, db.txs c = some ⟨some (t, v)⟩ → db.lock = some c ∨ v = db.version → P t

namespace Everywhere

variable {P : T → Prop}

/-- One transaction is replaced, by one that is not behind, and no other gets the lock. -/
theorem set (h : db.Everywhere P) {tx : Option (Tx T)} {l : Option Conn}
    (htx : ∀ t v, tx = some ⟨some (t, v)⟩ → v ≤ db.version ∧ (l = some c ∨ v = db.version → P t))
    (hl : ∀ c', c' ≠ c → l = some c' → db.lock = some c') :
    ({ db.setTx c tx with lock := l } : Database T Conn).Everywhere P where
  committed := h.committed
  le_version c' t v hc' := by
    by_cases hc : c' = c
    · subst hc
      exact (htx t v (by simpa [setTx] using hc')).1
    · exact h.le_version c' t v ((setTx_txs_of_ne db hc tx).symm.trans hc')
  views c' t v hc' hw := by
    by_cases hc : c' = c
    · subst hc
      exact (htx t v (by simpa [setTx] using hc')).2 hw
    · exact h.views c' t v ((setTx_txs_of_ne db hc tx).symm.trans hc') (hw.imp_left (hl c' hc))

/-- `BEGIN IMMEDIATE` starts on the committed contents. -/
theorem begin (h : db.Everywhere P) : (db.beginImmediate (E := E) c).1.Everywhere P := by
  unfold beginImmediate
  split
  · exact h
  · split
    · exact h
    · refine h.set (fun t v htx => ?_) fun c' hc hl => absurd (Option.some.inj hl).symm hc
      obtain ⟨rfl, rfl⟩ := Prod.mk.inj (Option.some.inj (Tx.mk.inj (Option.some.inj htx)))
      exact ⟨Nat.le_refl _, fun _ => h.committed⟩

/-- A statement that keeps the property works on contents that have it. -/
theorem write (h : db.Everywhere P) {f : T → Except E T} (hf : ∀ t t', P t → f t = .ok t' → P t') :
    (db.write c f).1.Everywhere P ∧
      ((db.write c f).2 = .ok () → ∃ t t', P t ∧ f t = .ok t' ∧ (db.write c f).1.Writing c t') := by
  rcases db.write_cases c f with ⟨t, v, hw, hopen⟩ | ⟨e, hw⟩
  · rw [hw]
    obtain ⟨ht, hv⟩ : P t ∧ v ≤ db.version := by
      rcases hopen with ⟨rfl, rfl⟩ | ⟨htx, hcan⟩
      · exact ⟨h.committed, Nat.le_refl _⟩
      · exact ⟨h.views c t v htx hcan, h.le_version c t v htx⟩
    have hother : ∀ c', c' ≠ c → some c = some c' → db.lock = some c' := fun c' hc hl =>
      absurd (Option.some.inj hl).symm hc
    unfold writeView
    cases hft : f t with
    | ok t' =>
      refine ⟨h.set (fun t₁ v₁ htx => ?_) hother, fun _ => ⟨t, t', ht, hft, rfl, v, ?_⟩⟩
      · obtain ⟨rfl, rfl⟩ := Prod.mk.inj (Option.some.inj (Tx.mk.inj (Option.some.inj htx)))
        exact ⟨hv, fun _ => hf t t' ht hft⟩
      · exact setTx_txs_self db c _
    | error e =>
      refine ⟨h.set (fun t₁ v₁ htx => ?_) hother, nofun⟩
      obtain ⟨rfl, rfl⟩ := Prod.mk.inj (Option.some.inj (Tx.mk.inj (Option.some.inj htx)))
      exact ⟨hv, fun _ => ht⟩
  · rw [hw]
    refine ⟨h.set (l := db.lock) (fun t v htx => ?_) fun _ _ hl => hl, nofun⟩
    have htx' := openTx_eq_some (congrArg Tx.view (Option.some.inj htx))
    exact ⟨h.le_version c t v htx', h.views c t v htx'⟩

/-- A query may fix a snapshot of the committed contents. -/
theorem read (h : db.Everywhere P) : (db.read c).1.Everywhere P := by
  unfold Database.read
  split
  · refine h.set (l := db.lock) (fun t v htx => ?_) fun _ _ hl => hl
    obtain ⟨rfl, rfl⟩ := Prod.mk.inj (Option.some.inj (Tx.mk.inj (Option.some.inj htx)))
    exact ⟨Nat.le_refl _, fun _ => h.committed⟩
  · exact h

/-- A commit publishes what could be written. -/
theorem commit (h : db.Everywhere P) : (db.commit c).Everywhere P := by
  unfold Database.commit
  split
  · exact h
  · rename_i tx htx
    split
    · rename_i hl
      refine ⟨?_, fun c' t v hc' => ?_, fun c' t v hc' hw => ?_⟩
      · obtain ⟨view⟩ := tx
        cases view with
        | none => exact h.committed
        | some tv => exact h.views c tv.1 tv.2 htx (.inl hl)
      · by_cases hc : c' = c
        · subst hc
          simp at hc'
        · dsimp only at hc'
          rw [Function.update_of_ne hc] at hc'
          exact Nat.le_trans (h.le_version c' t v hc') (Nat.le_succ _)
      · -- no snapshot is of the new version
        by_cases hc : c' = c
        · subst hc
          simp at hc'
        · dsimp only at hc' hw
          rw [Function.update_of_ne hc] at hc'
          have hle := h.le_version c' t v hc'
          rcases hw with hw | hw
          · cases hw
          · omega
    · exact h.set (l := db.lock) (fun t v htx' => nomatch htx') fun _ _ hl => hl

/-- **What a commit makes of the last one**: if every transaction that can still write sees a successor
of the committed contents, the commit is one, and every such transaction sees a successor of it. -/
theorem commit_succ {R : T → T → Prop} (hrefl : ∀ t, R t t) (h : db.Everywhere (R db.committed)) :
    R db.committed (db.commit c).committed ∧
      (db.commit c).Everywhere (R (db.commit c).committed) := by
  refine ⟨h.commit.committed, ?_⟩
  unfold Database.commit
  split
  · exact h
  · split
    · -- nobody holds the lock, and no snapshot is of the new version
      refine ⟨hrefl _, fun c' t v hc' => ?_, fun c' t v hc' hw => ?_⟩
      all_goals
        dsimp only at hc'
        by_cases hc : c' = c
        · rw [hc, Function.update_self] at hc'
          cases hc'
        rw [Function.update_of_ne hc] at hc'
        have hle := h.le_version c' t v hc'
      · exact Nat.le_succ_of_le hle
      · rcases hw with hw | hw
        · cases hw
        · exact absurd (hw ▸ hle) (Nat.not_succ_le_self _)
    · exact h.set (l := db.lock) (fun t v htx' => by cases htx') fun _ _ hl => hl

/-- A rollback takes a transaction away. -/
theorem rollback (h : db.Everywhere P) : (db.rollback c).Everywhere P := by
  unfold Database.rollback unlock
  split
  · exact h.set (l := none) (fun t v htx => nomatch htx) fun _ _ hl => nomatch hl
  · exact h.set (l := db.lock) (fun t v htx => nomatch htx) fun _ _ hl => hl

end Everywhere

end Database

end RelayQ.Sqlite

import Mathlib.Order.Basic
import Mathlib.Tactic.Common

/-! # Effect programs with exceptions

An asynchronous function of a host language is, between two of its suspension points, a pure
computation. `Prog S α` keeps exactly that: a finite tree whose nodes are the *calls* the function
makes on its environment and whose branches are the answers, normal or exceptional, each call can
come back with. Loops over data are structural recursions that build such a tree; a loop that never
ends is not one of these programs but a state machine around them.

* `Prog.bind`, `Prog.attempt`, `Prog.tryExcept`: sequencing, reifying an exception, `try/except`.
* `Monitor` and `Prog.wp`: a weakest-precondition calculus that follows every call of a program
  with a monitor state, demands a guard of each call, and holds for *every* answer.
* `Prog.Calls`: all calls of a program are of one kind.
* `Monitor.ascending`: the calls of interest come in an order, each at most once. -/

namespace RelayQ

/-- An interface: the calls a program can make, the result each returns, the exceptions it may
raise. -/
structure Signature where
  /-- The calls. -/
  Op : Type
  /-- What a call returns when it returns normally. -/
  Res : Op → Type
  /-- What a call may raise instead. -/
  Exc : Type

/-- A program over the interface `S`: finished with a value, finished with an exception, or
suspended at a call, waiting for its answer. -/
inductive Prog (S : Signature) (α : Type) : Type
  | ret (a : α)
  | raise (e : S.Exc)
  | call (o : S.Op) (k : Except S.Exc (S.Res o) → Prog S α)

namespace Prog

variable {S : Signature} {α β γ : Type}

/-- Sequencing: an exception of the first program skips the second. -/
def bind : Prog S α → (α → Prog S β) → Prog S β
  | .ret a, f => f a
  | .raise e, _ => .raise e
  | .call o k, f => .call o fun r => (k r).bind f

/-- Programs are sequenced by `bind`. -/
instance : Monad (Prog S) where
  pure := .ret
  bind := .bind

/-- A finished program with a given outcome. -/
def ofExcept : Except S.Exc α → Prog S α
  | .ok a => .ret a
  | .error e => .raise e

/-- One call, its answer passed on as value or exception. -/
def perform (o : S.Op) : Prog S (S.Res o) := .call o ofExcept

/-- Run a program and hand its value or its exception on as data. -/
def attempt : Prog S α → Prog S (Except S.Exc α)
  | .ret a => .ret (.ok a)
  | .raise e => .ret (.error e)
  | .call o k => .call o fun r => (k r).attempt

/-- `try p except e: h e`. A handler that does not want the exception raises it again. -/
def tryExcept : Prog S α → (S.Exc → Prog S α) → Prog S α
  | .ret a, _ => .ret a
  | .raise e, h => h e
  | .call o k, h => .call o fun r => (k r).tryExcept h

/-- How a finished program ended; `none` while it is suspended at a call. -/
def outcome : Prog S α → Option (Except S.Exc α)
  | .ret a => some (.ok a)
  | .raise e => some (.error e)
  | .call _ _ => none

/-- `pure` is to return. -/
@[simp] theorem pure_eq (a : α) : (pure a : Prog S α) = .ret a := rfl

/-- The bind of the monad is that of programs. -/
@[simp] theorem bind_eq (p : Prog S α) (f : α → Prog S β) : p >>= f = p.bind f := rfl

/-- What returns is followed by the rest. -/
@[simp] theorem ret_bind (a : α) (f : α → Prog S β) : (Prog.ret a).bind f = f a := rfl

/-- What raises is not. -/
@[simp] theorem raise_bind (e : S.Exc) (f : α → Prog S β) :
    (Prog.raise e : Prog S α).bind f = .raise e := rfl

/-- The rest comes after the answer. -/
@[simp] theorem call_bind (o : S.Op) (k : Except S.Exc (S.Res o) → Prog S α)
    (f : α → Prog S β) : (Prog.call o k).bind f = .call o fun r => (k r).bind f := rfl

/-- Sequencing with `pure` changes nothing. -/
@[simp] theorem bind_ret (p : Prog S α) : p.bind .ret = p := by
  induction p with
  | ret a => rfl
  | raise e => rfl
  | call o k ih => exact congrArg (Prog.call o) (funext ih)

/-- Sequencing is associative. -/
theorem bind_assoc (p : Prog S α) (f : α → Prog S β) (g : β → Prog S γ) :
    (p.bind f).bind g = p.bind fun a => (f a).bind g := by
  induction p with
  | ret a => rfl
  | raise e => rfl
  | call o k ih => exact congrArg (Prog.call o) (funext ih)

/-! ## Following a program with a monitor -/

end Prog

/-- A monitor of the calls of a program: which calls it permits in which of its states, and how an
answered call moves it on. -/
structure Monitor (S : Signature) (M : Type) where
  /-- The calls permitted in a state. -/
  guard : M → S.Op → Prop
  /-- The state after a call and its answer. -/
  next : M → (o : S.Op) → Except S.Exc (S.Res o) → M

/-- The monitor that permits the same calls all along. -/
def Monitor.only {S : Signature} (ok : S.Op → Prop) : Monitor S Unit := ⟨fun _ => ok, fun _ _ _ => ()⟩

/-- The monitor that wants the calls that have a rank in strictly ascending order; a call of rank 0
may come at any time. Its state is the highest rank so far. -/
def Monitor.ascending {S : Signature} (rank : S.Op → Nat) : Monitor S Nat where
  guard top o := rank o = 0 ∨ top < rank o
  next top o _ := max top (rank o)

/-- The monitor of a gate: a call that needs the gate comes only after an answer has opened it. Its
state says whether one has. -/
def Monitor.gate {S : Signature} (needs : S.Op → Prop)
    (opens : (o : S.Op) → Except S.Exc (S.Res o) → Bool) : Monitor S Bool where
  guard b o := needs o → b = true
  next b o r := b || opens o r

namespace Prog

variable {S : Signature} {α β : Type} {M : Type}

/-- Weakest precondition under a monitor: from monitor state `m`, whatever the calls answer, every
call is permitted and the end (value or exception) satisfies `Q` with the monitor's final state. -/
def wp (mon : Monitor S M) : Prog S α → (Except S.Exc α → M → Prop) → M → Prop
  | .ret a, Q, m => Q (.ok a) m
  | .raise e, Q, m => Q (.error e) m
  | .call o k, Q, m => mon.guard m o ∧ ∀ r, (k r).wp mon Q (mon.next m o r)

variable {mon : Monitor S M} {Q Q' : Except S.Exc α → M → Prop} {m : M}

/-- The condition of what returns. -/
@[simp] theorem wp_ret (a : α) : (Prog.ret a).wp mon Q m ↔ Q (.ok a) m := Iff.rfl

/-- The condition of what raises. -/
@[simp] theorem wp_raise (e : S.Exc) :
    (Prog.raise e : Prog S α).wp mon Q m ↔ Q (.error e) m := Iff.rfl

/-- The condition of an operation: its guard, and that of the rest for every answer. -/
@[simp] theorem wp_call (o : S.Op) (k : Except S.Exc (S.Res o) → Prog S α) :
    (Prog.call o k).wp mon Q m ↔ mon.guard m o ∧ ∀ r, (k r).wp mon Q (mon.next m o r) := Iff.rfl

/-- The condition of a result. -/
@[simp] theorem wp_ofExcept (r : Except S.Exc α) : (ofExcept r).wp mon Q m ↔ Q r m := by
  cases r <;> rfl

/-- A single call: permitted, and every answer satisfies the postcondition. -/
@[simp] theorem wp_perform (o : S.Op) {Q : Except S.Exc (S.Res o) → M → Prop} :
    (perform o).wp mon Q m ↔ mon.guard m o ∧ ∀ r, Q r (mon.next m o r) := by
  simp only [perform, wp_call, wp_ofExcept]

/-- Sequencing rule. -/
@[simp] theorem wp_bind (p : Prog S α) (f : α → Prog S β) {Q : Except S.Exc β → M → Prop} :
    (p.bind f).wp mon Q m ↔
      p.wp mon (fun r m' => match r with
        | .ok a => (f a).wp mon Q m'
        | .error e => Q (.error e) m') m := by
  induction p generalizing m with
  | ret a => rfl
  | raise e => rfl
  | call o k ih => exact and_congr_right fun _ => forall_congr' fun r => ih r

/-- Rule for a reified exception. -/
@[simp] theorem wp_attempt (p : Prog S α) {Q : Except S.Exc (Except S.Exc α) → M → Prop} :
    p.attempt.wp mon Q m ↔ p.wp mon (fun r m' => Q (.ok r) m') m := by
  induction p generalizing m with
  | ret a => rfl
  | raise e => rfl
  | call o k ih => exact and_congr_right fun _ => forall_congr' fun r => ih r

/-- Rule for `try/except`. -/
@[simp] theorem wp_tryExcept (p : Prog S α) (h : S.Exc → Prog S α) :
    (p.tryExcept h).wp mon Q m ↔
      p.wp mon (fun r m' => match r with
        | .ok a => Q (.ok a) m'
        | .error e => (h e).wp mon Q m') m := by
  induction p generalizing m with
  | ret a => rfl
  | raise e => rfl
  | call o k ih => exact and_congr_right fun _ => forall_congr' fun r => ih r

/-- Consequence rule: a weaker postcondition holds whenever a stronger one does. -/
theorem wp_mono (p : Prog S α) (hQ : ∀ r m, Q r m → Q' r m) (h : p.wp mon Q m) :
    p.wp mon Q' m := by
  induction p generalizing m with
  | ret a => exact hQ _ _ h
  | raise e => exact hQ _ _ h
  | call o k ih => exact ⟨h.1, fun r => ih r (h.2 r)⟩

/-- A monitor that permits more and moves alike can take the place of another. -/
theorem wp_of_guard {mon' : Monitor S M} {p : Prog S α} (h : p.wp mon Q m)
    (hnext : mon'.next = mon.next) (hguard : ∀ m o, mon.guard m o → mon'.guard m o) :
    p.wp mon' Q m := by
  induction p generalizing m with
  | ret a => exact h
  | raise e => exact h
  | call o k ih => exact ⟨hguard m o h.1, fun r => hnext ▸ ih r (h.2 r)⟩

/-- Sequencing with a specification of the first part. -/
theorem wp_bind_of {p : Prog S α} {f : α → Prog S β} {R : Except S.Exc α → M → Prop}
    {Q : Except S.Exc β → M → Prop} (hp : p.wp mon R m)
    (hok : ∀ a m', R (.ok a) m' → (f a).wp mon Q m')
    (herr : ∀ e m', R (.error e) m' → Q (.error e) m') : (p.bind f).wp mon Q m := by
  refine (wp_bind p f).mpr (wp_mono p (fun r m' hr => ?_) hp)
  cases r with
  | ok a => exact hok a m' hr
  | error e => exact herr e m' hr

/-- A permitted call, then the rest for each of its answers. -/
theorem wp_perform_bind {o : S.Op} {f : S.Res o → Prog S β} {Q : Except S.Exc β → M → Prop}
    (hg : mon.guard m o) (hok : ∀ a, (f a).wp mon Q (mon.next m o (.ok a)))
    (herr : ∀ e, Q (.error e) (mon.next m o (.error e))) : ((perform o).bind f).wp mon Q m :=
  ⟨hg, fun r => match r with
    | .ok a => hok a
    | .error e => herr e⟩

/-! ## Programs all of whose calls are of one kind -/

variable {ok ok' : S.Op → Prop}

/-- Every call of the program satisfies `ok`, whatever the calls before it answered. -/
def Calls (ok : S.Op → Prop) (p : Prog S α) : Prop := p.wp (.only ok) (fun _ _ => True) ()

namespace Calls

/-- What returns makes no call. -/
@[simp] theorem ret (a : α) : (Prog.ret a : Prog S α).Calls ok := trivial

/-- What raises makes none. -/
@[simp] theorem raise (e : S.Exc) : (Prog.raise e : Prog S α).Calls ok := trivial

/-- Nor does a result. -/
@[simp] theorem ofExcept (r : Except S.Exc α) : (Prog.ofExcept r).Calls ok := by
  cases r <;> trivial

/-- A suspended program makes its call and goes on. -/
theorem call_iff {o : S.Op} {k : Except S.Exc (S.Res o) → Prog S α} :
    (Prog.call o k).Calls ok ↔ ok o ∧ ∀ r, (k r).Calls ok := Iff.rfl

/-- An operation makes one call. -/
theorem perform {o : S.Op} (h : ok o) : (Prog.perform o).Calls ok := ⟨h, fun r => ofExcept r⟩

/-- A sequence makes the calls of its parts. -/
theorem bind {p : Prog S α} {f : α → Prog S β} (hp : p.Calls ok) (hf : ∀ a, (f a).Calls ok) :
    (p.bind f).Calls ok :=
  wp_bind_of hp (fun a _ _ => hf a) fun _ _ _ => trivial

/-- So does a `try` with its handler. -/
theorem tryExcept {p : Prog S α} {h : S.Exc → Prog S α} (hp : p.Calls ok)
    (hh : ∀ e, (h e).Calls ok) : (p.tryExcept h).Calls ok := by
  refine (wp_tryExcept p h).mpr (wp_mono p (fun r _ _ => ?_) hp)
  cases r with
  | ok a => trivial
  | error e => exact hh e

/-- Whatever a monitor permits in some state, the calls are of it. -/
theorem of_wp {mon : Monitor S M} {p : Prog S α} (h : p.wp mon Q m)
    (hok : ∀ m o, mon.guard m o → ok o) : p.Calls ok := by
  induction p generalizing m with
  | ret a => trivial
  | raise e => trivial
  | call o k ih => exact ⟨hok m o h.1, fun r => ih r (h.2 r)⟩

/-- What meets a condition meets a weaker one. -/
theorem mono {p : Prog S α} (hok : ∀ o, ok o → ok' o) (h : p.Calls ok) : p.Calls ok' :=
  wp_of_guard h rfl fun _ o => hok o

/-- A monitor may watch besides that the calls are of one kind. -/
theorem wp {mon : Monitor S M} {p : Prog S α} (hp : p.Calls ok) (h : p.wp mon Q m) :
    p.wp ⟨fun m o => mon.guard m o ∧ ok o, mon.next⟩ Q m := by
  induction p generalizing m with
  | ret a => exact h
  | raise e => exact h
  | call o k ih => exact ⟨⟨h.1, hp.1⟩, fun r => ih r (hp.2 r) (h.2 r)⟩

/-- Calls without a rank leave the highest rank so far as it is. -/
theorem ascending {rank : S.Op → Nat} {p : Prog S α} (hp : p.Calls fun o => rank o = 0)
    (top : Nat) : p.wp (.ascending rank) (fun _ m => m = top) top := by
  induction p with
  | ret a => rfl
  | raise e => rfl
  | call o k ih =>
    have hrank : rank o = 0 := hp.1
    refine ⟨.inl hrank, fun r => ?_⟩
    have hnext : (Monitor.ascending rank).next top o r = top := by
      simp [Monitor.ascending, hrank]
    rw [hnext]
    exact ih r (hp.2 r)

/-- Calls that neither need a gate nor open it leave it as it is. -/
theorem gate {needs : S.Op → Prop} {opens : (o : S.Op) → Except S.Exc (S.Res o) → Bool}
    {p : Prog S α} (hp : p.Calls fun o => ¬ needs o ∧ ∀ r, opens o r = false) (b : Bool) :
    p.wp (.gate needs opens) (fun _ b' => b' = b) b := by
  induction p with
  | ret a => rfl
  | raise e => rfl
  | call o k ih =>
    obtain ⟨⟨hneeds, hopens⟩, hk⟩ := hp
    refine ⟨fun h => absurd h hneeds, fun r => ?_⟩
    have hnext : (Monitor.gate needs opens).next b o r = b := by simp [Monitor.gate, hopens r]
    rw [hnext]
    exact ih r (hk r)

end Calls

/-- Behind an open gate a program may do anything. -/
theorem wp_gate_open (needs : S.Op → Prop) (opens : (o : S.Op) → Except S.Exc (S.Res o) → Bool)
    (p : Prog S α) : p.wp (.gate needs opens) (fun _ b => b = true) true := by
  induction p with
  | ret a => rfl
  | raise e => rfl
  | call o k ih => exact ⟨fun _ => rfl, ih⟩

end Prog

end RelayQ

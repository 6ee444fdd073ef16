import RelayQ.Infrastructure.RedisStream

/-! # Admission control -/

namespace RelayQ

/-- The admission controller of a worker. -/
structure AdmissionController where
  transport : RedisStreamTransport
  maxDepth : Nat := 5000

namespace AdmissionController

variable (c : AdmissionController)

/-- Raise `AdmissionBlocked` if the queue is under backpressure. -/
def check (queue : String) : Py Unit :=
  (c.transport.streamLength queue).bind fun depth =>
    if depth ≥ c.maxDepth then
      .raise (.admissionBlocked queue ("depth " ++ toString depth ++ " >= " ++ toString c.maxDepth))
    else .ret ()

/-- Is the queue below its threshold? -/
def isHealthy (queue : String) : Py Bool :=
  ((c.check queue).bind fun _ => .ret true).tryExcept fun e =>
    match e with
    | .admissionBlocked _ _ => .ret false
    | e => .raise e

/-- The check passes exactly if the length was read and is below the limit. -/
theorem await_check {c : AdmissionController} {queue : String} {w w' : World} {site : Nat}
    {a : Actor} {ans : Answer} {out : Except PyExc Unit}
    (h : relay.await w site a (c.check queue) ans = some (w', out)) :
    ∃ r, w.exec site a (.redis (.xlen (c.transport.streamKey queue))) ans = some (w', r) ∧
      (out = .ok () ↔ ∃ n, r = .ok n ∧ n < c.maxDepth) := by
  rcases Machine.await_eq_some.mp h with ⟨ho, -⟩ | ⟨o, k, r, hp, hx, ho⟩
  · cases ho
  · cases hp
    refine ⟨r, hx, ?_⟩
    cases r with
    | error e =>
      obtain rfl : Except.error e = out := by simpa [Prog.ofExcept, Prog.outcome] using ho
      simp
    | ok n =>
      simp only [Prog.ofExcept, Prog.ret_bind] at ho
      split at ho
      · rename_i hn
        obtain rfl := Option.some.inj ho
        simpa using hn
      · rename_i hn
        obtain rfl := Option.some.inj ho
        simpa using hn

/-- Below the limit the check can pass. -/
theorem exists_await_check {c : AdmissionController} {queue : String} {w : World} (site : Nat)
    (a : Actor) (h : (w.redis (c.transport.streamKey queue)).entries.length < c.maxDepth) :
    ∃ w', relay.await w site a (c.check queue) (.ok 0) = some (w', .ok ()) := by
  obtain ⟨w', hx⟩ : ∃ w', w.exec site a (.redis (.xlen (c.transport.streamKey queue))) (.ok 0) =
      some (w', .ok (w.redis (c.transport.streamKey queue)).entries.length) :=
    ⟨_, World.exec_ok site a rfl rfl⟩
  refine ⟨w', (Machine.await_perform_bind _ hx).trans ?_⟩
  rw [if_neg (Nat.not_le_of_lt h)]
  rfl

end AdmissionController

end RelayQ

import RelayQ.Infrastructure.RedisStream

/-! # Lease recovery

A background loop that claims stale pending entries for its own consumer every `claimInterval`.
What it claims it logs. -/

namespace RelayQ

/-- The recovery worker: its transport, its consumer, the idle time that makes an entry stale, and
the size of a claim. -/
structure RecoveryWorker where
  transport : RedisStreamTransport
  workerId : String
  minIdleMs : Nat := 30000
  claimBatch : Nat := 10

namespace RecoveryWorker

/-- `CLAIM_INTERVAL`, in milliseconds. -/
def claimInterval : Nat := 15000

variable [Codec] (r : RecoveryWorker)

/-- Claim stale pending entries for a single queue. The claimed jobs go to the log only. -/
def claimStale (queue : String) (now : DateTime) : Py Unit :=
  (r.transport.autoclaimStale queue r.workerId r.minIdleMs r.claimBatch now).bind fun _ => .ret ()

/-- A claim sends one command. -/
theorem await_claimStale {r : RecoveryWorker} {queue : String} {now : DateTime} {w w' : World}
    {site : Nat} {a : Actor} {ans : Answer} {out : Except PyExc Unit}
    (h : relay.await w site a (r.claimStale queue now) ans = some (w', out)) :
    ∃ x, w.exec site a (.redis (.xautoclaim (r.transport.streamKey queue)
      (r.transport.groupKey queue) (RedisStreamTransport.consumerName r.workerId) r.minIdleMs 0
      r.claimBatch)) ans = some (w', x) := by
  rcases Machine.await_eq_some.mp h with ⟨ho, -⟩ | ⟨o, k, x, hp, hx, -⟩
  · cases ho
  · cases hp
    exact ⟨x, hx⟩

end RecoveryWorker

end RelayQ

import RelayQ.Guarantees.AtLeastOnce
import RelayQ.Guarantees.BoundedDepth
import RelayQ.Guarantees.OutboxFirst
import RelayQ.Guarantees.DeadLetters
import RelayQ.Guarantees.StoreTransactions
import RelayQ.Guarantees.Capacity
import RelayQ.Guarantees.RetryBudget
import RelayQ.Guarantees.Deduplication
import RelayQ.Guarantees.ReadBack
import RelayQ.Guarantees.BadEntries
import RelayQ.Guarantees.EnqueueAtomicity
import RelayQ.Guarantees.DeadLetterReplay
import RelayQ.Guarantees.WireFormat
import RelayQ.Guarantees.RecoveryCoverage
import RelayQ.Guarantees.AdmissionProgress
import RelayQ.Guarantees.Redelivery
import RelayQ.Guarantees.LeaseSafety
import RelayQ.Guarantees.Bulkhead
import RelayQ.Guarantees.QueueIsolation
import RelayQ.Guarantees.DuplicateKeys
import RelayQ.Guarantees.RetryWindow
import RelayQ.Guarantees.TokenBucket
import RelayQ.Guarantees.DeadLetterLookup
import RelayQ.Guarantees.PayloadBound
import RelayQ.Guarantees.InflightGauge
import RelayQ.Guarantees.OutcomeAccounting
import RelayQ.Guarantees.StoreIndependence
import RelayQ.Guarantees.AttemptCount
import RelayQ.Domain.FloatPolicy
import RelayQ.Guarantees.ScriptCacheLoss
import RelayQ.Guarantees.FailureWindow
import RelayQ.Guarantees.HalfOpen
import RelayQ.Guarantees.OpenInterval
import RelayQ.Guarantees.QueueDiscovery
import RelayQ.Guarantees.CliEndpoint
import RelayQ.Guarantees.SerialWorker
import RelayQ.Guarantees.HandingOut
import RelayQ.Guarantees.OutboxStatus
import RelayQ.Guarantees.RateLimitRefusals
import RelayQ.Guarantees.DeadLettersKept
import RelayQ.Guarantees.Provenance
import RelayQ.Guarantees.Shutdown
import RelayQ.Guarantees.FullForever
import RelayQ.Guarantees.DeadLetterOrigin
import RelayQ.Guarantees.LostJob
import RelayQ.Guarantees.BreakerRefinement
import RelayQ.Guarantees.TripCause
import RelayQ.Guarantees.CommandLine
import RelayQ.Guarantees.DeadLetterListing
import RelayQ.Guarantees.StatusShown
import RelayQ.Guarantees.Backlog

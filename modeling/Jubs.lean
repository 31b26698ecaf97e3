import Jubs.Machine
import Jubs.Cut
import Jubs.Quoted
import Jubs.Json
import Jubs.Value
import Jubs.Thrown
import Jubs.Definition
import Jubs.Delivery
import Jubs.Envelope
import Jubs.JobId
import Jubs.Idempotency
import Jubs.RedisIdempotency
import Jubs.MemoryIdempotency
import Jubs.Abort
import Jubs.LeaseRuns
import Jubs.KeyIsolation
import Jubs.JobsOptions
import Jubs.Uniqueness
import Jubs.Children
import Jubs.Migration
import Jubs.Dispatch
import Jubs.DispatchErrors
import Jubs.Reports
import Jubs.ParentRuns
import Jubs.FlowTree
import Jubs.Ledger
import Jubs.FlowStore
import Jubs.FlowJobs
import Jubs.FlowRuns
import Jubs.Atomic
import Jubs.AtomicRuns
import Jubs.StoreAgreement
import Jubs.ClientIds
import Jubs.DeadRecord
import Jubs.FlowVersions
import Jubs.MemoryDriver
import Jubs.MemoryRuns
import Jubs.MemoryIds
import Jubs.Outbox
import Jubs.OutboxRuns
import Jubs.Shutdown
import Jubs.Replay
import Jubs.ReplayRuns
import Jubs.ReplayErasure
import Jubs.ReplayResults
import Jubs.CancelRuns
import Jubs.CancelMarks
import Jubs.CancelAnswers
import Jubs.Reissues
import Jubs.FailureReports
import Jubs.KeySettlement
import Jubs.EnvelopeReads
import Jubs.Schedules
import Jubs.DeliveryPaths
import Jubs.Redelivery
import Jubs.FlowInputs
import Jubs.RelayCycle
import Jubs.ChildFates
import Jubs.MigrationRuns
import Jubs.Board
import Jubs.Intervals
import Jubs.Startup
import Jubs.Reconcile
import Jubs.Starts
import Jubs.Deadlines
import Jubs.CancelTruth
import Jubs.Simulation
import Jubs.RelayLoop
import Jubs.RelayLoops
import Jubs.OutboxJourney
import Jubs.JobLives
import Jubs.MemoryDrains
import Jubs.RetryRuns
import Jubs.Closings
import Jubs.OrderedMap
import Jubs.DeadStores
import Jubs.Cron
import Jubs.ScheduleTexts
import Jubs.HeldRetries
import Jubs.Rollouts

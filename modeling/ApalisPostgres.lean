import ApalisPostgres.KeyedTable
import ApalisPostgres.TransactionProgram
import ApalisPostgres.EventMachine
import ApalisPostgres.Schema
import ApalisPostgres.Errors
import ApalisPostgres.Statements
import ApalisPostgres.Acknowledgement
import ApalisPostgres.Queries
import ApalisPostgres.Operations
import ApalisPostgres.Transitions
import ApalisPostgres.Discipline
import ApalisPostgres.RowInvariant
import ApalisPostgres.ReturnedParts
import ApalisPostgres.RowRuns
import ApalisPostgres.AttemptAccounting
import ApalisPostgres.ClaimEpoch
import ApalisPostgres.Ownership
import ApalisPostgres.Lifecycle
import ApalisPostgres.TaskResults
import ApalisPostgres.UndisturbedClaims
import ApalisPostgres.Sink
import ApalisPostgres.Lease
import ApalisPostgres.Dispatch
import ApalisPostgres.DispatchInvariant
import ApalisPostgres.DispatchRows
import ApalisPostgres.Stranding
import ApalisPostgres.ClaimOutcome
import ApalisPostgres.FlushHandoff
import ApalisPostgres.SharedListener
import ApalisPostgres.RegistrationWait
import ApalisPostgres.RegistrationWake
import ApalisPostgres.Migrations
import ApalisPostgres.Middleware
import ApalisPostgres.MiddlewareSteps
import ApalisPostgres.DispatchAdmission
import ApalisPostgres.RefusedOutcomes
import ApalisPostgres.SingleAcknowledgement
import ApalisPostgres.Interleaving
import ApalisPostgres.RowLocks
import ApalisPostgres.Registrations
import ApalisPostgres.JobWrites
import ApalisPostgres.TokenFence
import ApalisPostgres.LockPath
import ApalisPostgres.ClaimPaths
import ApalisPostgres.BatchClaims
import ApalisPostgres.SweepProgress
import ApalisPostgres.ColumnValues
import ApalisPostgres.TaskBatch
import ApalisPostgres.BatchInsert
import ApalisPostgres.BufferedTasks
import ApalisPostgres.IdempotencyConflicts
import ApalisPostgres.PollFetcher
import ApalisPostgres.LeaseProtocol
import ApalisPostgres.LeaseRuns
import ApalisPostgres.DecodeStream
import ApalisPostgres.UndecodableRows
import ApalisPostgres.PoisonText
import ApalisPostgres.CompletionWait
import ApalisPostgres.SinkCapacity
import ApalisPostgres.Truncation
import ApalisPostgres.Pagination
import ApalisPostgres.TaskPurge
import ApalisPostgres.PruneSafety
import ApalisPostgres.PruneWorkers
import ApalisPostgres.LiveWorker
import ApalisPostgres.IdBatches
import ApalisPostgres.NotifyIds
import ApalisPostgres.NotifyThread
import ApalisPostgres.PayloadText
import ApalisPostgres.InsertNotify
import ApalisPostgres.SetupRuns
import ApalisPostgres.CommitOrder
import ApalisPostgres.RowHistories
import ApalisPostgres.TaskHistories
import ApalisPostgres.AcceptedTasks
import ApalisPostgres.WorkerStreams
import ApalisPostgres.StartupOrder
import ApalisPostgres.RefusedStartup
import ApalisPostgres.HeartbeatOrder
import ApalisPostgres.WorkerRelease
import ApalisPostgres.LoneWorker
import ApalisPostgres.QueueDrain
import ApalisPostgres.BlockingCalls
import ApalisPostgres.NestedTransactions
import ApalisPostgres.OutboxCalls
import ApalisPostgres.OutboxRuns

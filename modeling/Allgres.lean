import Allgres.AmbiguousCalls
import Allgres.Confinement
import Allgres.LatestTurn
import Allgres.LocalExecution
import Allgres.StepBudget
import Allgres.ConcurrencyCap
import Allgres.Delegation
import Allgres.FinishedTasks
import Allgres.OperationKeys
import Allgres.Credentials
import Allgres.Responses
import Allgres.BuildFences
import Allgres.OperatorQueues
import Allgres.OperatorCredentials
import Allgres.Accounts
import Allgres.LastAdmin
import Allgres.SingleUse
import Allgres.Decisions
import Allgres.PolicyUpdates
import Allgres.Site
import Allgres.OneTurn
import Allgres.Revocation
import Allgres.Envelope
import Allgres.PermissionPaths
import Allgres.Logins
import Allgres.LatestLogin
import Allgres.UserBranches
import Allgres.Dashboard
import Allgres.LoginRequired
import Allgres.Isolation
import Allgres.SparedSessions
import Allgres.PolicyHistory
import Allgres.PolicyRollback
import Allgres.RoutineRollback
import Allgres.Schedules
import Allgres.Ledger
import Allgres.Scheduler
import Allgres.ScheduleLimits
import Allgres.Spending
import Allgres.CostAccounting
import Allgres.Verdicts
import Allgres.CanaryOutcomes
import Allgres.CapabilityLibrary
import Allgres.CapabilityGate
import Allgres.RegressionGate
import Allgres.RelationConfinement
import Allgres.Bytes
import Allgres.WebRequest
import Allgres.WebServer
import Allgres.SseTickets
import Allgres.WebSlots
import Allgres.AuthLockout
import Allgres.SecretRotation
import Allgres.Subtransaction
import Allgres.WorkerJobs
import Allgres.GuardedBuild
import Allgres.JsonLeaves
import Allgres.RpcGate
import Allgres.EmbeddingFreshness
import Allgres.CapabilityOutcomes
import Allgres.OutcomeRuns
import Allgres.ConcurrentDispatch
import Allgres.RateLimits
import Allgres.CancellableTransport
import Allgres.PerformHttp
import Allgres.ReadRequest
import Allgres.Ipv6Blocklists
import Allgres.GuardedRoutines
import Allgres.FirstObject
import Allgres.DollarQuotes
import Allgres.FormBodies
import Allgres.RankedRows
import Allgres.MemoryEviction
import Allgres.ResultCuts
import Allgres.HybridRanking
import Allgres.BindExposure
import Allgres.WrappedStatements
import Allgres.ParseTrees
import Allgres.FallbackKey
import Allgres.AnalyserTotality
import Allgres.AuthorizationUrl
import Allgres.StringConstants
import Allgres.DumpDecoding
import Allgres.Cancellations
import Allgres.PrivateAddresses
import Allgres.Joins
import Allgres.AgentReach
import Allgres.DirectCompletion

import AgentSaas.Proofs.SyncRecovery
import AgentSaas.Proofs.FullRefreshLatch
import AgentSaas.Proofs.BillingBalance
import AgentSaas.Proofs.BillingUsage
import AgentSaas.Proofs.RunClosure
import AgentSaas.Proofs.RunDispatch
import AgentSaas.Proofs.Steering
import AgentSaas.Proofs.CronSchedule
import AgentSaas.Proofs.ChatQueueReplay
import AgentSaas.Proofs.SessionListPager
import AgentSaas.Proofs.SessionMetadata
import AgentSaas.Proofs.CheckpointPlan
import AgentSaas.Proofs.EventSubscription
import AgentSaas.Proofs.BillingPeriods
import AgentSaas.Proofs.ToolCallGate
import AgentSaas.Proofs.SessionMerge
import AgentSaas.Proofs.ToolNames
import AgentSaas.Proofs.PolicyUpdates
import AgentSaas.Proofs.TransactionFootprints
import AgentSaas.Proofs.EventStore
import AgentSaas.Proofs.EditOperations
import AgentSaas.Proofs.ToolResultProjection
import AgentSaas.Proofs.UsageProjection
import AgentSaas.Proofs.ToolEffects
import AgentSaas.Proofs.SessionLock
import AgentSaas.Proofs.InstallationEvents
import AgentSaas.Proofs.TokenReplay
import AgentSaas.Proofs.SigningKeys
import AgentSaas.Proofs.StreamRelay
import AgentSaas.Proofs.RemoteFetch
import AgentSaas.Proofs.RecoveryCodes
import AgentSaas.Proofs.LocalMode
import AgentSaas.Proofs.Executions
import AgentSaas.Proofs.Allowance
import AgentSaas.Proofs.Pricing
import AgentSaas.Proofs.ReadRollback
import AgentSaas.Proofs.HistoryPager
import AgentSaas.Billing.MemberBudgets
import AgentSaas.Proofs.MemberBudgets
import AgentSaas.Proofs.Reversals
import AgentSaas.AuthLifecycle
import AgentSaas.Proofs.AuthLifecycle
import AgentSaas.JsonValues
import AgentSaas.JsonReader
import AgentSaas.JsonGrammar
import AgentSaas.Proofs.JsonLiterals
import AgentSaas.Proofs.JsonRoundTrip
import AgentSaas.JsonNumbers
import AgentSaas.AppContract.Jcs
import AgentSaas.Proofs.Jcs
import AgentSaas.CacheSchema.Digest
import AgentSaas.CacheSchema.Backup
import AgentSaas.CacheSchema.Restore
import AgentSaas.Proofs.CacheTrees
import AgentSaas.Proofs.CacheDocuments
import AgentSaas.Proofs.EditOrder
import AgentSaas.MessageDeltas
import AgentSaas.Proofs.MessageDeltas
import AgentSaas.ContextProjection
import AgentSaas.Proofs.ContextRewinds
import AgentSaas.Proofs.ContextSelections
import AgentSaas.RuntimeReplay
import AgentSaas.Proofs.RuntimeReplay
import AgentSaas.MessageTrail
import AgentSaas.Proofs.MessageTrail
import AgentSaas.Proofs.ToolCallProse
import AgentSaas.Proofs.JsonTexts
import AgentSaas.AppContract.DuplicateFreeJson
import AgentSaas.Proofs.DuplicateFreeJson
import AgentSaas.Proofs.XmlishCalls
import AgentSaas.AppContract.Paths
import AgentSaas.Proofs.AppPaths
import AgentSaas.SubscriptionFailover
import AgentSaas.Proofs.QuotaReleases
import AgentSaas.Utf8
import AgentSaas.ShellOutput
import AgentSaas.Proofs.OutputWindows
import AgentSaas.Base64Url
import AgentSaas.Hmac
import AgentSaas.Distances
import AgentSaas.BoundedWalk
import AgentSaas.Proofs.RelationWalk
import AgentSaas.Proofs.WalkPages
import AgentSaas.EventJson
import AgentSaas.Proofs.StoredEvents
import AgentSaas.Proofs.LineEndings
import AgentSaas.Needles
import AgentSaas.Proofs.EditMatches
import AgentSaas.EventLines
import AgentSaas.SseFraming
import AgentSaas.Proofs.SseFraming
import AgentSaas.BusinessSteps
import AgentSaas.GroupMessages
import AgentSaas.Proofs.GroupMessages
import AgentSaas.Runs.InvocationStores
import AgentSaas.Proofs.InvocationStores
import AgentSaas.Runs.CancelDelivery
import AgentSaas.Proofs.CancelDelivery
import AgentSaas.Apportionment
import AgentSaas.ContextBreakdown
import AgentSaas.Proofs.ContextBreakdown
import AgentSaas.Doubles
import AgentSaas.Sha256
import AgentSaas.CacheSchema.NumberDigest
import AgentSaas.Proofs.CacheDigest
import AgentSaas.MathSegments
import AgentSaas.Proofs.MathSegments
import AgentSaas.ChatCompletions.Stream
import AgentSaas.Proofs.ModelRetries
import AgentSaas.Proofs.ModelRetries
import AgentSaas.CacheSchema.Migration
import AgentSaas.Proofs.CacheBackups
import AgentSaas.Proofs.CacheMigration
import AgentSaas.Proofs.CacheEntries
import AgentSaas.Proofs.CacheRoundTrip
import AgentSaas.Proofs.CacheRecreation
import AgentSaas.Proofs.CacheRestores

import EventGateway.Acceptance
import EventGateway.AcceptanceIsolation
import EventGateway.AcceptanceSafety
import EventGateway.AmountCodecs
import EventGateway.ApiOutcomes
import EventGateway.Authenticity
import EventGateway.BatchSettlement
import EventGateway.CanonicalJsValue
import EventGateway.CanonicalJson
import EventGateway.CanonicalTexts
import EventGateway.ColumnFits
import EventGateway.ConfirmationSafety
import EventGateway.CreatePaymentIntentRequest
import EventGateway.CreationIsolation
import EventGateway.DatabaseError
import EventGateway.DatabaseFaults
import EventGateway.DeadlockFreedom
import EventGateway.DecimalText
import EventGateway.DescribeError
import EventGateway.DispatchIsolation
import EventGateway.DuplicateDetection
import EventGateway.ErrorResponses
import EventGateway.FaultPropagation
import EventGateway.Gateway
import EventGateway.GatewaySpec
import EventGateway.IdempotencySafety
import EventGateway.IdempotentCreation
import EventGateway.Interleaving
import EventGateway.JobCompletion
import EventGateway.JobReports
import EventGateway.JobTally
import EventGateway.JsStrings
import EventGateway.JsonFields
import EventGateway.JsonGrammar
import EventGateway.JsonPrinting
import EventGateway.KeyedTable
import EventGateway.LabelledSteps
import EventGateway.Ledger
import EventGateway.LockDiscipline
import EventGateway.LockGuards
import EventGateway.LogThrottle
import EventGateway.MigrationSafety
import EventGateway.NonceReuse
import EventGateway.NormalizeConfirmedTxHashes
import EventGateway.OrderIndependence
import EventGateway.OutageReports
import EventGateway.OutboxDelivery
import EventGateway.OutboxDispatcher
import EventGateway.OutboxDispatcherRunner
import EventGateway.OutboxLifecycle
import EventGateway.PaymentAmount
import EventGateway.PaymentIntentReads
import EventGateway.PaymentIntents
import EventGateway.PoisonPayloads
import EventGateway.ProcessingRules
import EventGateway.PropertyOrder
import EventGateway.PublicationAccounting
import EventGateway.QueueHolderLifecycle
import EventGateway.Recovery
import EventGateway.RedisHealthCheck
import EventGateway.RelyGuarantee
import EventGateway.Reordering
import EventGateway.RepeatedDelivery
import EventGateway.ReplayedBodies
import EventGateway.ReplicaAccounting
import EventGateway.RequestBodyGuard
import EventGateway.RequestContext
import EventGateway.RowEvolution
import EventGateway.RunHistory
import EventGateway.Schema
import EventGateway.SentJobs
import EventGateway.SerialTracking
import EventGateway.Serializability
import EventGateway.SessionInvariants
import EventGateway.Settlement
import EventGateway.SignedFraming
import EventGateway.StatementGuards
import EventGateway.StatementStability
import EventGateway.Statements
import EventGateway.StructuredLogger
import EventGateway.Text
import EventGateway.TransactionProgram
import EventGateway.TransactionSoundness
import EventGateway.TxHash
import EventGateway.Uuid
import EventGateway.WebhookEventProcessor
import EventGateway.WebhookEvents
import EventGateway.WebhookEventsQueueHolder
import EventGateway.WebhookLifecycle
import EventGateway.WebhookSecurity
import EventGateway.WorkerIsolation

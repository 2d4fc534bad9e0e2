import EventGateway.WebhookEventProcessor
import EventGateway.WebhookEvents

/-!
The transactions of the gateway: the two write endpoints, the dispatcher, the
reconciler and the worker. Jobs are delivered in any order, any number of times
or not at all, so a delivery is a request like the others.
-/

namespace EventGateway

open TransactionProgram

inductive Request
  | createPaymentIntent (idempotencyKey : Text) (dto : PaymentIntents.CreatePaymentIntentDto)
      (fresh : PaymentIntents.Fresh)
  | acceptBlockchainWebhook (config : WebhookEvents.WebhookConfig)
      (request : WebhookEvents.AcceptBlockchainWebhookRequest) (fresh : WebhookEvents.Fresh)
  | dispatchBatch (run : OutboxDispatcher.DispatchRun)
  | reconcileStalePublishedEvents (run : OutboxDispatcher.ReconcileRun)
  | processWebhookEvent (input : WebhookEventProcessor.ProcessWebhookEventInput)
      (clock : WebhookEventProcessor.Clock)

inductive Response
  | paymentIntent (result : PaymentIntents.CreatePaymentIntentResult)
  | acceptance (response : WebhookEvents.WebhookAcceptanceResponse)
  | dispatched (result : OutboxDispatcher.OutboxDispatchBatchResult)
  | reconciled (result : OutboxDispatcher.OutboxReconcileResult)
  | processing (result : WebhookEventProcessor.ProcessingResult)
deriving DecidableEq

def Request.script (rt : Runtime) : Request → Script Response
  | .createPaymentIntent key dto fresh => do
    return .paymentIntent (← PaymentIntents.createPaymentIntent rt key dto fresh)
  | .acceptBlockchainWebhook config request fresh => do
    return .acceptance (← WebhookEvents.acceptBlockchainWebhook rt config request fresh)
  | .dispatchBatch run => do
    return .dispatched (← OutboxDispatcher.dispatchBatch run)
  | .reconcileStalePublishedEvents run => do
    return .reconciled (← OutboxDispatcher.reconcileStalePublishedEvents run)
  | .processWebhookEvent input clock => do
    return .processing (← WebhookEventProcessor.processWebhookEvent input clock)

end EventGateway

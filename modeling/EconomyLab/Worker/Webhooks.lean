import EconomyLab.Economy.Submits
import EconomyLab.Stores.Mailboxes

/-!
# Provider events

A verified provider event stands for one operation, under a key made of the event's id. Accepting it
only stores that operation: a redelivery finds the row that is there.
-/

namespace EconomyLab

open Foundation

/-! ## From events to operations -/

structure WebhookBase where
  provider : String
  eventId : String

structure PurchaseEvent extends WebhookBase where
  userId : String
  amount : Amount
  source : String

structure PayoutSettledEvent extends WebhookBase where
  sagaId : String
  providerRef : String
  providerAmount : Option Amount

structure PayoutFailedEvent extends WebhookBase where
  sagaId : String
  userId : String
  reason : Option String

structure DisputeEvent extends WebhookBase where
  userId : String
  amount : Amount
  orderId : Option String
  reason : Option String

inductive WebhookEvent
  | purchase (event : PurchaseEvent)
  | payoutSettled (event : PayoutSettledEvent)
  | payoutFailed (event : PayoutFailedEvent)
  | dispute (event : DisputeEvent)

def WebhookEvent.base : WebhookEvent → WebhookBase
  | .purchase event => event.toWebhookBase
  | .payoutSettled event => event.toWebhookBase
  | .payoutFailed event => event.toWebhookBase
  | .dispute event => event.toWebhookBase

def WebhookEvent.eventId (event : WebhookEvent) : String := event.base.eventId

def webhookIdempotencyKey (eventId : String) : String := "whk:" ++ eventId

def WebhookBase.actor (event : WebhookBase) : Principal := .system ("webhook:" ++ event.provider)

def toTopUp (event : PurchaseEvent) : Operation :=
  .topUp ⟨webhookIdempotencyKey event.eventId, event.actor, event.userId, event.amount, event.source⟩

def toSettlePayout (event : PayoutSettledEvent) : Operation :=
  .settlePayout ⟨webhookIdempotencyKey event.eventId, event.actor, event.sagaId, event.providerRef,
    event.providerAmount⟩

def toReversePayout (event : PayoutFailedEvent) : Operation :=
  .reversePayout ⟨webhookIdempotencyKey event.eventId, event.actor, event.userId, event.sagaId,
    event.reason.getD "payout.provider_failed", true⟩

def toClawback (event : DisputeEvent) : Operation :=
  .clawback ⟨webhookIdempotencyKey event.eventId, event.actor, event.userId, event.amount,
    event.orderId, none,
    event.reason⟩

def toOperation : WebhookEvent → Operation
  | .purchase event => toTopUp event
  | .payoutSettled event => toSettlePayout event
  | .payoutFailed event => toReversePayout event
  | .dispute event => toClawback event

theorem toOperation_key (event : WebhookEvent) :
    (toOperation event).idempotencyKey = webhookIdempotencyKey event.eventId := by
  cases event <;> rfl

theorem webhookIdempotencyKey_injective : Function.Injective webhookIdempotencyKey := by
  intro eventId eventId' h
  have hlist := congrArg String.toList h
  simp only [webhookIdempotencyKey, String.toList_append, List.append_cancel_left_eq] at hlist
  exact String.toList_injective hlist

theorem webhookIdempotencyKey_fresh (eventId : String) :
    isReversalKey (webhookIdempotencyKey eventId) = false := by
  have hkey : (webhookIdempotencyKey eventId).toList = 'w' :: 'h' :: 'k' :: ':' :: eventId.toList :=
    String.toList_append
  simp [isReversalKey, Text.startsWith, hkey, List.isPrefixOf]

end EconomyLab

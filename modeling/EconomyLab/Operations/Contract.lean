import EconomyLab.Config
import EconomyLab.Stores.Records

/-!
# Operations and outcomes

The requests a caller can submit and what the pipeline answers. A rejection is an answer with
its reason; a fault is thrown.
-/

namespace EconomyLab

inductive Principal
  | user (userId : String)
  | system (service : String)
  | operator (operatorId : String)
deriving DecidableEq

def Principal.isUser : Principal → Bool
  | user _ => true
  | _ => false

def Principal.isOperator : Principal → Bool
  | operator _ => true
  | _ => false

/-- One party of a sale, with its basis points of what is left after the fee. -/
structure Recipient where
  sellerId : String
  shareBps : Int
deriving DecidableEq

structure TopUpOperation where
  idempotencyKey : String
  actor : Principal
  userId : String
  amount : Amount
  source : String

structure SpendOperation where
  idempotencyKey : String
  actor : Principal
  orderId : String
  buyerId : String
  sku : String
  price : Amount
  recipients : List Recipient
  ageRestricted : Bool
  giftTo : Option String

structure RefundOperation where
  idempotencyKey : String
  actor : Principal
  orderId : String
  reason : Option String

structure ClawbackOperation where
  idempotencyKey : String
  actor : Principal
  userId : String
  amount : Amount
  orderId : Option String
  key : Option String
  reason : Option String

structure RequestPayoutOperation where
  idempotencyKey : String
  actor : Principal
  userId : String
  amount : Amount

structure SubscribeOperation where
  idempotencyKey : String
  actor : Principal
  userId : String
  sellerId : String
  sku : String
  price : Amount
  periodMs : Int

structure CancelSubscriptionOperation where
  idempotencyKey : String
  actor : Principal
  subscriptionId : String

structure GrantEntitlementOperation where
  idempotencyKey : String
  actor : Principal
  userId : String
  sku : String
  attrs : Option EntitlementAttributes

structure RevokeEntitlementOperation where
  idempotencyKey : String
  actor : Principal
  userId : String
  sku : String
  reason : Option String

structure GrantPromoOperation where
  idempotencyKey : String
  actor : Principal
  userId : String
  amount : Amount
  expiresAt : Int

structure AdjustOperation where
  idempotencyKey : String
  actor : Principal
  account : AccountRef
  amount : Amount
  reason : String

structure ReverseOperation where
  idempotencyKey : String
  actor : Principal
  txnId : String
  reason : String

structure ReversePayoutOperation where
  idempotencyKey : String
  actor : Principal
  userId : String
  sagaId : String
  reason : String
  providerReported : Bool

structure SettlePayoutOperation where
  idempotencyKey : String
  actor : Principal
  sagaId : String
  providerRef : String
  providerAmount : Option Amount

/-- What every operation carries, whatever its kind. -/
structure Envelope where
  idempotencyKey : String
  actor : Principal

inductive Operation
  | topUp (operation : TopUpOperation)
  | spend (operation : SpendOperation)
  | refund (operation : RefundOperation)
  | clawback (operation : ClawbackOperation)
  | requestPayout (operation : RequestPayoutOperation)
  | subscribe (operation : SubscribeOperation)
  | cancelSubscription (operation : CancelSubscriptionOperation)
  | grantEntitlement (operation : GrantEntitlementOperation)
  | revokeEntitlement (operation : RevokeEntitlementOperation)
  | grantPromo (operation : GrantPromoOperation)
  | adjust (operation : AdjustOperation)
  | reverse (operation : ReverseOperation)
  | reversePayout (operation : ReversePayoutOperation)
  | settlePayout (operation : SettlePayoutOperation)

def Operation.envelope : Operation → Envelope
  | topUp o => ⟨o.idempotencyKey, o.actor⟩
  | spend o => ⟨o.idempotencyKey, o.actor⟩
  | refund o => ⟨o.idempotencyKey, o.actor⟩
  | clawback o => ⟨o.idempotencyKey, o.actor⟩
  | requestPayout o => ⟨o.idempotencyKey, o.actor⟩
  | subscribe o => ⟨o.idempotencyKey, o.actor⟩
  | cancelSubscription o => ⟨o.idempotencyKey, o.actor⟩
  | grantEntitlement o => ⟨o.idempotencyKey, o.actor⟩
  | revokeEntitlement o => ⟨o.idempotencyKey, o.actor⟩
  | grantPromo o => ⟨o.idempotencyKey, o.actor⟩
  | adjust o => ⟨o.idempotencyKey, o.actor⟩
  | reverse o => ⟨o.idempotencyKey, o.actor⟩
  | reversePayout o => ⟨o.idempotencyKey, o.actor⟩
  | settlePayout o => ⟨o.idempotencyKey, o.actor⟩

def Operation.idempotencyKey (operation : Operation) : String := operation.envelope.idempotencyKey

def Operation.actor (operation : Operation) : Principal := operation.envelope.actor

/-- A velocity window counts what flows into a wallet, or out of it. -/
inductive RiskClass
  | inflow
  | outflow
deriving DecidableEq, Repr

inductive RejectionDetail
  | insufficientFunds (account : AccountRef) (need have_ : Amount)
  | fundsImmature (source : String) (availableAt : Moment)
  | riskDenied (window : RiskClass) (limitMinor : Int)
  | duplicateOrder (orderId : String)
  | unknownOrder (orderId : String)
  | notEntitled (userId sku : String)
  | unknownSubscription (subscriptionId : String)
  | alreadySubscribed (userId sku : String)
  | belowMinimum (minimum amount : Amount)
  | payoutTooSoon (retryAt : Int)
  | payeeUnverified (userId : String)
  | economyPaused (resumesAt : Option Int)
deriving DecidableEq

def RejectionDetail.reason : RejectionDetail → RejectionCode
  | insufficientFunds .. => .insufficientFunds
  | fundsImmature .. => .fundsImmature
  | riskDenied .. => .riskDenied
  | duplicateOrder .. => .duplicateOrder
  | unknownOrder .. => .unknownOrder
  | notEntitled .. => .notEntitled
  | unknownSubscription .. => .unknownSubscription
  | alreadySubscribed .. => .alreadySubscribed
  | belowMinimum .. => .belowMinimum
  | payoutTooSoon .. => .payoutTooSoon
  | payeeUnverified .. => .payeeUnverified
  | economyPaused .. => .economyPaused

inductive Outcome
  | committed (transaction : Transaction)
  | duplicate (transaction : Transaction)
  | rejected (detail : RejectionDetail)

def isSpace (c : Char) : Bool :=
  (0x9 ≤ c.toNat && c.toNat ≤ 0xD) || (0x2000 ≤ c.toNat && c.toNat ≤ 0x200A) ||
    [0x20, 0xA0, 0x1680, 0x2028, 0x2029, 0x202F, 0x205F, 0x3000, 0xFEFF].contains c.toNat

def isBlank (text : String) : Bool := text.toList.all isSpace

example : isBlank " \t" = true ∧ isBlank " a" = false := by decide

end EconomyLab

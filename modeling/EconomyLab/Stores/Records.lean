import EconomyLab.Ledger.Memory

/-!
# What the stores keep

The rows of every store beside the ledger, with the fields the program reads.
-/

namespace EconomyLab

structure Movement where
  sessionId : String
  seq : Nat
  idempotencyKey : String
  legs : List Leg
  prevHash : String
  hash : String
  recordedAt : Int
deriving DecidableEq

/-- A completed sale, kept so that a later undo can reverse what it posted. -/
structure Sale where
  orderId : String
  buyerId : String
  sku : String
  recipientId : Option String
  price : Amount
  fee : Amount
  legs : List Leg
  txnId : String
  postedAt : Int
deriving DecidableEq

inductive SagaState
  | requested
  | reserved
  | submitted
  | settled
  | failed
deriving DecidableEq, Repr

structure Saga where
  id : String
  userId : String
  reserve : Amount
  rateId : String
  txnId : String
  state : SagaState
  providerRef : Option String
  reason : Option String
  attempts : Nat
  dueAt : Int
  updatedAt : Int
  payoutUsd : Option Amount
deriving DecidableEq

inductive SubscriptionState
  | active
  | lapsed
  | canceled
deriving DecidableEq, Repr

structure Subscription where
  id : String
  userId : String
  sellerId : String
  sku : String
  price : Amount
  txnId : String
  periodMs : Int
  state : SubscriptionState
  period : Nat
  attempts : Nat
  nextDueAt : Int
  updatedAt : Int
deriving DecidableEq

structure PromoGrant where
  id : String
  userId : String
  amount : Amount
  expiresAt : Int
  reversed : Bool
deriving DecidableEq

structure EntitlementAttributes where
  quantity : Option Nat
  version : Option Nat
  expiresAt : Option Int
  source : Option String
deriving DecidableEq

structure EntitlementRow where
  attrs : EntitlementAttributes
  revoked : Bool
deriving DecidableEq

structure EconomyEvent where
  id : String
  type : String
  version : Nat
  occurredAt : Int
  subject : String
  data : Meta
  audience : String

inductive OutboxStatus
  | pending
  | relayed
  | dead
deriving DecidableEq, Repr

structure OutboxMessage where
  id : String
  event : EconomyEvent
  status : OutboxStatus
  attempts : Nat
  reason : Option String
  correlationId : Option String

inductive AttemptOutcome
  | committed
  | rejected
deriving DecidableEq, Repr

structure Attempt where
  idempotencyKey : String
  amount : Amount
  at_ : Int
  outcome : AttemptOutcome
deriving DecidableEq

structure Velocity where
  subject : String
  windowStart : Int
  spent : Amount
  attempts : Nat
deriving DecidableEq

inductive AccrualStatus
  | pending
  | drained
  | refunded
deriving DecidableEq, Repr

structure AccrualRow where
  orderId : String
  sellerId : String
  seq : Nat
  amount : Amount
  shard : AccountRef
  status : AccrualStatus
  txnId : String
  settledTxnId : Option String
  recordedAt : Int
deriving DecidableEq

end EconomyLab

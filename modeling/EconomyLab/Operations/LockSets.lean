import EconomyLab.Operations.Contract

/-!
# Lock sets

The accounts the pipeline locks before an operation's handler runs. Kinds that run often route
their shards with the key their handler routes the legs with.
-/

namespace EconomyLab

def REVERSAL_CONTRAS : List AccountRef := [SYSTEM.REVENUE, SYSTEM.PROMO_FLOAT, SYSTEM.RECEIVABLE]

namespace LOCK_SETS

def topUp (o : TopUpOperation) (s : Nat) : List AccountRef :=
  [spendable o.userId,
    platformShard SYSTEM.STORED_VALUE o.idempotencyKey s,
    platformShard SYSTEM.TRUST_CASH o.idempotencyKey s,
    platformShard SYSTEM.USD_CLEARING o.idempotencyKey s,
    platformShard SYSTEM.REVENUE_USD o.idempotencyKey s]

def spend (o : SpendOperation) (s : Nat) (accrual : Bool) : List AccountRef :=
  [promo o.buyerId,
    spendable o.buyerId,
    platformShard SYSTEM.PROMO_FLOAT o.idempotencyKey s,
    platformShard SYSTEM.REVENUE o.idempotencyKey s] ++
  if accrual then [platformShard SYSTEM.SETTLEMENT_ACCRUAL o.idempotencyKey s]
  else o.recipients.map fun r => earned r.sellerId

def clawback (o : ClawbackOperation) : List AccountRef :=
  [spendable o.userId, SYSTEM.STORED_VALUE, SYSTEM.RECEIVABLE]

def requestPayout (o : RequestPayoutOperation) (s : Nat) : List AccountRef :=
  [earned o.userId, platformShard SYSTEM.PAYOUT_RESERVE o.userId s]

def subscribe (o : SubscribeOperation) (s : Nat) (accrual : Bool) : List AccountRef :=
  if accrual then
    [promo o.userId,
      spendable o.userId,
      platformShard SYSTEM.PROMO_FLOAT o.idempotencyKey s,
      platformShard SYSTEM.REVENUE o.idempotencyKey s,
      platformShard SYSTEM.SETTLEMENT_ACCRUAL o.idempotencyKey s]
  else [promo o.userId, spendable o.userId, SYSTEM.PROMO_FLOAT, SYSTEM.REVENUE, earned o.sellerId]

def grantPromo (o : GrantPromoOperation) : List AccountRef := [promo o.userId, SYSTEM.PROMO_FLOAT]

def adjust (o : AdjustOperation) : List AccountRef := [o.account, SYSTEM.OPENING_EQUITY]

def reversePayout (o : ReversePayoutOperation) (s : Nat) : List AccountRef :=
  [platformShard SYSTEM.PAYOUT_RESERVE o.userId s, earned o.userId]

def settlePayout : List AccountRef :=
  [SYSTEM.PAYOUT_RESERVE, SYSTEM.REVENUE, SYSTEM.USD_CLEARING, SYSTEM.TRUST_CASH]

end LOCK_SETS

def accountsOf (operation : Operation) (shards : Nat) (accrual : Bool) : List AccountRef :=
  match operation with
  | .topUp o => LOCK_SETS.topUp o shards
  | .spend o => LOCK_SETS.spend o shards accrual
  | .refund _ => REVERSAL_CONTRAS
  | .clawback o => LOCK_SETS.clawback o
  | .requestPayout o => LOCK_SETS.requestPayout o shards
  | .subscribe o => LOCK_SETS.subscribe o shards accrual
  | .cancelSubscription _ => []
  | .grantEntitlement _ => []
  | .revokeEntitlement _ => []
  | .grantPromo o => LOCK_SETS.grantPromo o
  | .adjust o => LOCK_SETS.adjust o
  | .reverse _ => REVERSAL_CONTRAS
  | .reversePayout o => LOCK_SETS.reversePayout o shards
  | .settlePayout _ => LOCK_SETS.settlePayout

end EconomyLab

import EconomyLab.Operations.Contract

/-!
# Fees, shards and the accrual split

What a charge does to its legs before it posts them: the fee comes off the top, earned
credits are parked on the accrual account, and platform legs go to the shard of their key.
-/

namespace EconomyLab

open Foundation

/-! ## Fees -/

def BPS_TOTAL : Int := 10000

def feeForPrice (minor : Int) (bps : Nat) : Except Fault Int := do
  let units ← mulDiv minor bps (BPS_TOTAL * SCALE) .ceil
  let fee := units * SCALE
  return if fee > minor then minor else fee

/-- A recipient's share of what is left after the fee. -/
def applyBps (minor bps : Int) : Except Fault Int := mulDiv minor bps BPS_TOTAL .floor

def distributedOf (minor : Int) : List Recipient → Except Fault Int
  | [] => .ok 0
  | recipient :: recipients => do
    let share ← applyBps minor recipient.shareBps
    return share + (← distributedOf minor recipients)

/-- The fee and what rounding left over. -/
def revenueForSplit (price : Amount) (recipients : List Recipient) (feeBps : Nat) : Except Fault Int := do
  let fee ← feeForPrice price.minor feeBps
  let net := price.minor - fee
  return fee + (net - (← distributedOf net recipients))

def assertShareSum (recipients : List Recipient) : Except Fault Unit :=
  if recipients = [] || (recipients.map Recipient.shareBps).sum = BPS_TOTAL then .ok ()
  else .error (fault .malformedOperation "Recipient shareBps must sum to 10000.")

def sellerCredit (price : Amount) (net : Int) (recipient : Recipient) : Except Fault Leg := do
  credit (earned recipient.sellerId) (← toAmount price.currency (← applyBps net recipient.shareBps))

/-- The credit lines of the built-in fee policy; they sum to the whole price. -/
def splitLegs (price : Amount) (recipients : List Recipient) (feeBps : Nat) : Except Fault (List Leg) := do
  assertShareSum recipients
  let net := price.minor - (← feeForPrice price.minor feeBps)
  let legs ← recipients.mapM (sellerCredit price net)
  let kept ← toAmount price.currency (← revenueForSplit price recipients feeBps)
  return legs ++ [← credit SYSTEM.REVENUE kept]

def routePlatformLegs (legs : List Leg) (key : String) (shards : Nat) : List Leg :=
  if shards < 2 then legs
  else legs.map fun leg => { leg with account := platformShard leg.account key shards }

/-- Seller shares in the order their first leg came. -/
abbrev Shares := List (String × Int)

/-- A credit to some user's earned account, the only kind of leg that is parked. -/
def isEarnedCredit (leg : Leg) : Bool :=
  walletKindOf leg.account = some .earned && leg.amount.minor < 0

def parkEarnedLegs (legs : List Leg) : List Leg × Shares :=
  (legs.map fun leg => if isEarnedCredit leg then
    { leg with account := SYSTEM.SETTLEMENT_ACCRUAL } else leg,
    tally ((legs.filter isEarnedCredit).map fun leg => (ownerOf leg.account, -leg.amount.minor)))

def sharesMeta (shares : Shares) : Meta :=
  (shares.filter (0 < ·.2)).map fun share => (share.1, .string (toString share.2))

structure Accrued where
  orderId : String
  routeKey : String
  shards : Nat
  txnId : String
  recordedAt : Int

def accrualRowsOf (input : Accrued) (shares : Shares) : Except Fault (List AccrualRow) :=
  let shard := platformShard SYSTEM.SETTLEMENT_ACCRUAL input.routeKey input.shards
  (shares.filter (0 < ·.2)).mapM fun share => do
    return ⟨input.orderId, share.1, 0, ← toAmount .credit share.2, shard, .pending, input.txnId, none,
      input.recordedAt⟩

end EconomyLab

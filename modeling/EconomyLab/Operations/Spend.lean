import EconomyLab.Ledger.Maturity
import EconomyLab.Operations.Guards
import EconomyLab.Operations.LockSets
import EconomyLab.Operations.Routing
import EconomyLab.Operations.Work

/-!
# Purchases

The buyer pays from the promo balance first and from the spendable one for the rest. The promo
part is paid to the sellers out of revenue, the rest is split by the fee policy, and the sale is
kept under its order for a later refund.
-/

namespace EconomyLab

open Text

/-- How a payment splits across the buyer's two balances. -/
structure SpendPlan where
  promoPart : Amount
  spendablePart : Amount

def planSpend (price promoBalance : Amount) : Except Fault SpendPlan := do
  let available := if promoBalance.minor > 0 then promoBalance.minor else 0
  let promoMinor := if available < price.minor then available else price.minor
  return ⟨← toAmount price.currency promoMinor, ← toAmount price.currency (price.minor - promoMinor)⟩

def checkSellers : List String → List Recipient → Except Fault Unit
  | _, [] => .ok ()
  | seen, recipient :: recipients =>
    if recipient.sellerId ∈ seen then
      .error (fault .malformedOperation "spend.recipients may not name the same sellerId twice.")
    else if !isWalletAccount (earned recipient.sellerId) || isBlank
      (ownerOf (earned recipient.sellerId)) then
      .error (fault .malformedOperation
        "spend.recipients sellerId must be a user wallet, not a house account.")
    else checkSellers (recipient.sellerId :: seen) recipients

def assertSpendShape (operation : SpendOperation) : Except Fault Unit :=
  if isBlank operation.sku then
    .error (fault .malformedOperation "spend.sku must be a non-empty string.")
  else if isBlank operation.orderId then
    .error (fault .malformedOperation "spend.orderId must be a non-empty string.")
  else checkSellers [] operation.recipients

def entitlementRecipient (operation : SpendOperation) : Except Fault String :=
  match operation.giftTo with
  | none => .ok operation.buyerId
  | some giftTo =>
    if isBlank giftTo then .error (fault .malformedOperation "spend.giftTo must be a non-empty user id.")
    else .ok giftTo

/-- A seller's leg for the promo part, which a share of nothing does without. -/
def promoShare (amount : Amount) (recipient : Recipient) : Except Fault (List Leg) := do
  let share ← applyBps amount.minor recipient.shareBps
  if share > 0 then return [← credit (earned recipient.sellerId) (← toAmount amount.currency share)]
  else return []

/-- Revenue pays what the sellers get for the promo part; the house keeps the rounding leftover. -/
def promoLegs (operation : SpendOperation) (plan : SpendPlan) : Except Fault (List Leg) := do
  if plan.promoPart.minor = 0 then return []
  else
    let toFloat ← credit SYSTEM.PROMO_FLOAT plan.promoPart
    let shares ← operation.recipients.mapM (promoShare plan.promoPart)
    let distributed ← distributedOf plan.promoPart.minor operation.recipients
    let total ← toAmount plan.promoPart.currency distributed
    return [debit (promo operation.buyerId) plan.promoPart, toFloat] ++ shares.flatten ++
      [debit SYSTEM.REVENUE total]

def spendableLegs (config : Config) (operation : SpendOperation) (plan : SpendPlan) :
    Except Fault (List Leg) := do
  if plan.spendablePart.minor = 0 then return []
  else
    let credits ← splitLegs plan.spendablePart operation.recipients config.platformFeeBps
    return debit (spendable operation.buyerId) plan.spendablePart :: credits

def buildSpendLegs (config : Config) (operation : SpendOperation) (plan : SpendPlan) :
    Except Fault (List Leg) := do
  return (← promoLegs operation plan) ++ (← spendableLegs config operation plan)

/-- What a charge posts: under the split its earned credits are parked, and their shares kept. -/
structure Charge where
  legs : List Leg
  shares : Option Shares

def parkCharge (config : Config) (built : List Leg) : Charge :=
  if config.accrualDrain then
    let parked := parkEarnedLegs built
    ⟨parked.1, some parked.2⟩
  else ⟨built, none⟩

/-- The share map that goes into the metadata of a parked charge. -/
def Charge.sealed_ (charge : Charge) : Meta :=
  match charge.shares with
  | none => []
  | some shares => [("shares", .object (sharesMeta shares))]

def spendMeta (operation : SpendOperation) (recipientId : String) (charge : Charge) : Meta :=
  [("kind", .string "spend"), ("orderId", .string operation.orderId)] ++
    (if operation.ageRestricted then [("ageRestricted", .bool true)] else []) ++
    (if recipientId ≠ operation.buyerId then [("isGift", .bool true), ("giftTo", .string recipientId)]
      else []) ++ charge.sealed_

/-- The recorded fee is what revenue kept of the spendable part. -/
def saleOf (operation : SpendOperation) (plan : SpendPlan) (transaction : Transaction) (feeBps : Nat) :
    Except Fault Sale := do
  let feeMinor ← revenueForSplit plan.spendablePart operation.recipients feeBps
  return {
    orderId := operation.orderId
    buyerId := operation.buyerId
    sku := operation.sku
    recipientId := some (operation.giftTo.getD operation.buyerId)
    price := operation.price
    fee := ← toAmount operation.price.currency feeMinor
    legs := transaction.legs
    txnId := transaction.id
    postedAt := transaction.postedAt }

def Txn.findSale (orderId : String) : Txn (Option Sale) := .read fun w => .ok (w.sales.rows.get orderId)

theorem findSale_unaware (orderId : String) : Txn.Unaware (Txn.findSale orderId) := .read fun _ => rfl

def Work.findSale (orderId : String) : Work (Option Sale) :=
  .read (fun w => .ok (w.sales.rows.get orderId)) fun _ => rfl

def spendPreClaim (operation : SpendOperation) : Txn (Option Outcome) := do
  let existing ← Txn.findSale operation.orderId
  return existing.map fun _ => .rejected (.duplicateOrder operation.orderId)

/-- The refusal of a draw on funds that still wait, if it is one. -/
def screenMaturity (env : Env) (config : Config) (account : AccountRef) (amount live : Amount) :
    Work (Option Outcome) := do
  let now ← Work.now env
  let cleared ← Work.read (fun w => maturedAtLeast w.ledger.tables account now config amount (some live))
    fun _ => rfl
  if cleared then return none
  else do
    let now ← Work.now env
    let blocker ← Work.read (fun w => maturityBlocker w.ledger.tables account now config
      amount (some live))
      fun _ => rfl
    return some (.rejected (.fundsImmature blocker.1 blocker.2))

/-- The rows of a parked charge, which are keyed by `orderId`. -/
def recordAccruals (config : Config) (orderId routeKey : String) (charge : Charge)
    (transaction : Transaction) :
    Work Unit :=
  match charge.shares with
  | none => return ()
  | some shares => do
    let rows ← Work.lift (accrualRowsOf
      ⟨orderId, routeKey, config.platformShards, transaction.id, transaction.postedAt⟩ shares)
    Work.putAccruals rows

def chargeSpend (env : Env) (config : Config) (operation : SpendOperation) (recipientId : String)
    (plan : SpendPlan) : Work Outcome := do
  let built ← Work.lift (buildSpendLegs config operation plan)
  let charge := parkCharge config built
  let legs := routePlatformLegs charge.legs operation.idempotencyKey config.platformShards
  let txnId ← Work.mint env "txn"
  let transaction ← Work.postEntry env ⟨txnId, legs, spendMeta operation recipientId charge⟩
  let sale ← Work.lift (saleOf operation plan transaction config.platformFeeBps)
  Work.sale (.put sale)
  recordAccruals config operation.orderId operation.idempotencyKey charge transaction
  Work.entitlement
    (.grant recipientId operation.sku ⟨none, none, none, some ("sale:" ++ operation.orderId)⟩)
  return .committed transaction

def spend (env : Env) (config : Config) (operation : SpendOperation) : Work Outcome := do
  Work.lift (assertSpendShape operation)
  let price ← Work.lift (requirePositiveCredit operation.price "spend.price")
  Work.lift (assertRecipientShares operation.recipients operation.buyerId "spend")
  let recipientId ← Work.lift (entitlementRecipient operation)
  let existing ← Work.findSale operation.orderId
  if existing.isSome then return .rejected (.duplicateOrder operation.orderId)
  else do
    let promoBalance ← Work.balance (promo operation.buyerId)
    let plan ← Work.lift (planSpend price promoBalance)
    let live ← Work.balance (spendable operation.buyerId)
    match ← screenMaturity env config (spendable operation.buyerId) plan.spendablePart live with
    | some immature => return immature
    | none => chargeSpend env config operation recipientId plan

def spendFundsNeeded (operation : SpendOperation) : Txn (List (AccountRef × Amount)) := do
  let promoBalance ← Txn.balance (promo operation.buyerId)
  let plan ← Txn.lift (planSpend operation.price promoBalance)
  return [(spendable operation.buyerId, plan.spendablePart)]

theorem spendPreClaim_unaware (operation : SpendOperation) : Txn.Unaware (spendPreClaim operation) := by
  apply (findSale_unaware operation.orderId).bind
  exact fun existing => .pure _

theorem spendFundsNeeded_unaware (operation : SpendOperation) :
    Txn.Unaware (spendFundsNeeded operation) := by
  apply (Txn.Unaware.balance _).bind
  intro promoBalance
  apply (Txn.Unaware.lift _).bind
  exact fun plan => .pure _

end EconomyLab

import EconomyLab.Ledger.Maturity
import EconomyLab.Operations.Accrual
import EconomyLab.Operations.Guards
import EconomyLab.Stores.Writes

/-!
# The renewal of a due subscription

One transaction reads what the buyer can spend, claims the billing period, re-proves the
row against its first charge and posts the next one.
-/

namespace EconomyLab

open Foundation Text

def renewalKey (sub : Subscription) : String :=
  "sub:" ++ sub.id ++ ":p" ++ toString (sub.period + 1)

/-- How `renew`'s transaction ends; `lost` when another sweep has billed the period. -/
inductive Renewal
  | charged
  | underfunded
  | immature
  | lost
deriving DecidableEq, Repr

def postRenewal (env : Env) (config : Config) (sub : Subscription) (billingKey : String) :
    Txn Transaction := do
  let feeMinor ← Txn.lift (feeForPrice sub.price.minor config.platformFeeBps)
  let net ← Txn.lift (toAmount .credit (sub.price.minor - feeMinor))
  let fee ← Txn.lift (toAmount .credit feeMinor)
  let toSeller ← Txn.lift (credit (earned sub.sellerId) net)
  let toRevenue ← Txn.lift (credit SYSTEM.REVENUE fee)
  let built := [debit (spendable sub.userId) sub.price, toSeller, toRevenue]
  let parked := if config.accrualDrain then some (parkEarnedLegs built) else none
  let legs := match parked with
    | none => built
    | some (legs, _) => routePlatformLegs legs billingKey config.platformShards
  let sealed_ : Meta := match parked with
    | none => []
    | some (_, shares) => [("shares", .object (sharesMeta shares))]
  let txnId ← Txn.mint env "txn"
  let transaction ← Txn.postEntry env ⟨txnId, legs,
    [("kind", .string "subscriptions.renew"), ("subscriptionId", .string sub.id), ("sku", .string sub.sku),
      ("sellerId", .string sub.sellerId)] ++ sealed_⟩
  match parked with
  | none => return transaction
  | some (_, shares) => do
    let rows ← Txn.lift (accrualRowsOf
      ⟨transaction.id, billingKey, config.platformShards, transaction.id, transaction.postedAt⟩ shares)
    Txn.putAccruals rows
    return transaction

def renewedEvent (sub : Subscription) : Txn.EventDraft where
  type := "economy.subscription.renewed"
  subject := sub.userId
  data := [("subscriptionId", .string sub.id), ("userId", .string sub.userId), ("sku", .string sub.sku),
    ("period", .number (sub.period + 1))]
  audience := "client"

/-- The row is billed first: a lost race commits with no charge in it. -/
def billPeriod (env : Env) (config : Config) (sub : Subscription) (anchored : Txn Unit) :
    Txn ((Transaction × Unit) ⊕ Renewal) := do
  let billed ← Txn.markBilled sub.id (sub.nextDueAt + sub.periodMs) sub.nextDueAt
  if billed then do
    anchored
    let transaction ← postRenewal env config sub (renewalKey sub)
    return .inl (transaction, ())
  else return .inr .lost

def chargePeriod (env : Env) (config : Config) (sub : Subscription) (anchored : Txn Unit) : Txn Renewal :=
  Txn.claiming env (renewalKey sub) (fun _ => return .lost) (billPeriod env config sub anchored)
    fun _ _ => do
      Txn.entitlement
        (.grant sub.userId sub.sku ⟨none, none, some (sub.nextDueAt + sub.periodMs), some sub.id⟩)
      Txn.emit env (renewedEvent sub)
      return .charged

/-- The renewal over the two reads it makes of the ledger's history. -/
def renewOver (env : Env) (config : Config) (sub : Subscription)
    (cleared : Int → Amount → Txn Bool) (anchored : Txn Unit) : Txn Renewal := do
  let available ← Txn.balance (spendable sub.userId)
  Txn.lift (assertSameCurrency available sub.price)
  if available.minor < sub.price.minor then return .underfunded
  else do
    let now ← Txn.now env
    let ready ← cleared now available
    if ready then chargePeriod env config sub anchored else return .immature

def renew (env : Env) (config : Config) (sub : Subscription) : Txn Renewal :=
  renewOver env config sub
    (fun now available => Txn.read fun w =>
      maturedAtLeast w.ledger.tables (spendable sub.userId) now config sub.price (some available))
    (Txn.read fun w => assertSubscriptionAnchored env.digest w.ledger.tables sub)

end EconomyLab

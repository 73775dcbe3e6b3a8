import EconomyLab.Economy.Registry
import EconomyLab.Operations.RefundLocks

/-!
# What the handlers lock

The pipeline locks the accounts that an operation's request tells of, and some handlers lock more
once they know them. A handler posts on those accounts only; a refund alone may not.
-/

namespace EconomyLab

open Foundation Text

/-- Whatever the store, a handler posts on accounts that were locked before it read a balance, but
for a refund of a sale with a stray share. -/
theorem handler_accepts_iff (ports : Ports) (env : Env) (config : Config) (operation : Operation)
    (h : validateOperation config operation = .ok ()) (w : World) :
    coverage.Accepts (.start (accountsOf operation config.platformShards config.accrualDrain))
      ((handlerOf ports env config operation).trace w) ↔
      ∀ o, operation = .refund o → Sheltered env o w := by
  have hother : (∀ o, operation ≠ .refund o) → coverage.Accepts
      (.start (accountsOf operation config.platformShards config.accrualDrain))
      ((handlerOf ports env config operation).trace w) := by
    intro hkind
    cases operation with
    | topUp o => exact (topUp_staysOn env config ports.rates o w).1
    | spend o => exact (spend_guarded env config o w).1
    | refund o => exact absurd rfl (hkind o)
    | clawback o => exact (clawback_staysOn env o w).1
    | requestPayout o => exact (requestPayout_guarded env config ports.rates ports.payees o w).1
    | subscribe o => exact (subscribe_guarded env config o (amount_positive h rfl rfl) w).1
    | cancelSubscription o => exact (cancelSubscription_staysOn env o w).1
    | grantEntitlement o => exact (grantEntitlement_staysOn env o w).1
    | revokeEntitlement o => exact (revokeEntitlement_staysOn env o w).1
    | grantPromo o => exact (grantPromo_staysOn env o w).1
    | adjust o => exact (adjust_staysOn env o w).1
    | reverse o => exact (reverse_extendsLocks env o w).1
    | reversePayout o => exact (reversePayout_staysOn env config o w).1
    | settlePayout o => exact (settlePayout_extendsLocks env config o w).1
  constructor
  · rintro haccepts o rfl
    exact (refund_accepts_iff env o w).mp haccepts
  · intro hsheltered
    by_cases hkind : ∃ o, operation = .refund o
    · obtain ⟨o, rfl⟩ := hkind
      exact (refund_accepts_iff env o w).mpr (hsheltered o rfl)
    · exact hother fun o ho => hkind ⟨o, ho⟩

def twoShards : Config where
  maturityHorizonMs := []
  platformFeeBps := 500
  platformShards := 2
  accrualDrain := true
  maxSubscriptionAttempts := 3
  subscriptionPriceMinMinor := 1
  subscriptionPriceMaxMinor := 100000
  velocityWindowMs := 1000
  velocityLimitMinor := 100000
  velocityInflowLimitMinor := none
  velocityOutflowLimitMinor := none
  pauseStartMs := none
  pauseEndMs := none
  maxInboxAttempts := 3
  maxPayoutAgeMs := 1000
  payoutFeeBps := 0
  payoutSla := []
  payoutMinimumEarnedMinor := 0
  payoutMinIntervalMs := 0
  topUpBundlesMinor := none

def tickEnv : Env := ⟨fun _ => [7], fun _ => 0, fun n => toString n⟩

def parPorts : Ports := ⟨⟨⟨1, 0, "buy"⟩, ⟨1, 0, "par"⟩, fun _ => ⟨1, 0, "payout"⟩⟩, none⟩

def tenCredits : World :=
  ((Work.postEntry tickEnv ⟨"t0", [⟨SYSTEM.STORED_VALUE, ⟨.credit, 1000, .thousand⟩⟩,
    ⟨spendable "a", ⟨.credit, -1000, .neg_thousand⟩⟩], []⟩).txn.run World.empty).2

def purchase (key orderId : String) : SpendOperation :=
  ⟨key, .user "a", orderId, "a", "sku_" ++ orderId, ⟨.credit, 200, .two_hundred⟩,
    [⟨"s", 10000⟩], false, none⟩

def twoSales : World :=
  ((spend tickEnv twoShards (purchase "k2" "p")).txn.run
    ((spend tickEnv twoShards (purchase "k1" "o")).txn.run tenCredits).2).2

def moveShard (row : AccrualRow) : AccrualRow :=
  if row.orderId = "o" then { row with shard := SYSTEM.SETTLEMENT_ACCRUAL } else row

def movedShard : World :=
  { twoSales with accruals := { twoSales.accruals with rows := { twoSales.accruals.rows with
      rows := ⟨twoSales.accruals.rows.rows.entries.map fun entry => (entry.1, moveShard entry.2)⟩ } } }

def refundOrder : RefundOperation := ⟨"r", .operator "op", "o", none⟩

/-- The refund of that order commits, and posts on a shard that nothing locked. -/
theorem movedShard_uncovered :
    validateOperation twoShards (.refund refundOrder) = .ok () ∧
    (match ((handlerOf parPorts tickEnv twoShards (.refund refundOrder)).txn.run movedShard).1 with
      | .ok (.committed _) => true
      | _ => false) = true ∧
    ¬ coverage.Accepts (.start (accountsOf (.refund refundOrder) 2 true))
      ((handlerOf parPorts tickEnv twoShards (.refund refundOrder)).trace movedShard) := by
  refine ⟨by decide +kernel, by decide +kernel, by decide +kernel⟩

theorem movedShard_accepts_iff :
    validateOperation twoShards (.refund refundOrder) = .ok () ∧
    (coverage.Accepts (.start (accountsOf (.refund refundOrder) 2 true))
      ((handlerOf parPorts tickEnv twoShards (.refund refundOrder)).trace movedShard) ↔
      ∀ o, Operation.refund refundOrder = .refund o → Sheltered tickEnv o movedShard) :=
  ⟨by
    decide +kernel, handler_accepts_iff parPorts tickEnv twoShards (.refund refundOrder) (by
    decide +kernel)
    movedShard⟩

end EconomyLab

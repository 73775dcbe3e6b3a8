import EconomyLab.Economy.Pipeline
import EconomyLab.Operations.Payouts

/-!
# The registry

Every kind of operation with its handler, and the tables the pipeline looks up by kind: what is
checked before the transaction, whose velocity window counts, and which event follows.
-/

namespace EconomyLab

open Foundation Text

structure Ports where
  rates : Rates
  payees : Option PayeeDirectory

/-- `REGISTRY`. -/
def handlerOf (ports : Ports) (env : Env) (config : Config) : Operation → Work Outcome
  | .topUp o => topUp env config ports.rates o
  | .spend o => spend env config o
  | .refund o => refund env o
  | .clawback o => clawback env o
  | .requestPayout o => requestPayout env config ports.rates ports.payees o
  | .subscribe o => subscribe env config o
  | .cancelSubscription o => cancelSubscription env o
  | .grantEntitlement o => grantEntitlement env o
  | .revokeEntitlement o => revokeEntitlement env o
  | .grantPromo o => grantPromo env o
  | .adjust o => adjust env o
  | .reverse o => reverse env o
  | .reversePayout o => reversePayout env config o
  | .settlePayout o => settlePayout env config o

/-- `PRE_CLAIMS`: a purchase has a probe of its own. -/
def preClaimOf : Operation → Txn (Option Outcome)
  | .spend o => spendPreClaim o
  | _ => return none

/-- Only a purchase can run a user short here. -/
def fundsNeededOf : Operation → Txn (List (AccountRef × Amount))
  | .spend o => spendFundsNeeded o
  | _ => return []

/-! ## Checks before the transaction -/

def MAX_OP_AMOUNT_MINOR : Int := 1000000000000000

def operationAmount : Operation → Option Amount
  | .topUp o => some o.amount
  | .requestPayout o => some o.amount
  | .grantPromo o => some o.amount
  | .clawback o => some o.amount
  | .adjust o => some o.amount
  | .spend o => some o.price
  | .subscribe o => some o.price
  | _ => none

def Operation.isAdjust : Operation → Bool
  | adjust _ => true
  | _ => false

def assertAmountInRange (operation : Operation) : Except Fault Unit :=
  match operationAmount operation with
  | none => .ok ()
  | some amount =>
    if operation.isAdjust && isZero amount then
      .error (fault .invalidAmount "operation amount must be non-zero.")
    else if !operation.isAdjust && !(0 < amount.minor) then
      .error (fault .invalidAmount "operation amount must be positive.")
    else if MAX_OP_AMOUNT_MINOR < amount.minor.natAbs then
      .error (fault .invalidAmount "operation amount exceeds the maximum allowed.")
    else .ok ()

def validateOperation (config : Config) (operation : Operation) : Except Fault Unit :=
  if isBlank operation.idempotencyKey then
    .error (fault .malformedOperation "operation is missing a non-empty idempotencyKey.")
  else if (accountsOf operation config.platformShards config.accrualDrain).any fun account =>
      isWalletAccount account && isBlank (ownerOf account) then
    .error (fault .malformedOperation "operation names a wallet account with a blank user id.")
  else assertAmountInRange operation

theorem amount_positive {config : Config} {operation : Operation} {amount : Amount}
    (h : validateOperation config operation = .ok ()) (hamount : operationAmount operation = some amount)
    (hkind : operation.isAdjust = false) : 0 < amount.minor := by
  unfold validateOperation at h
  split at h
  · cases h
  · split at h
    · cases h
    · by_contra hnonpos
      simp [assertAmountInRange, hamount, hkind, hnonpos] at h

def RESTRICTED_TO_PRIVILEGED : Operation → Bool
  | .grantPromo _ => true
  | .grantEntitlement _ => true
  | .revokeEntitlement _ => true
  | .topUp _ => true
  | .adjust _ => true
  | .reverse _ => true
  | .refund _ => true
  | .clawback _ => true
  | .reversePayout _ => true
  | .settlePayout _ => true
  | _ => false

/-- The user accounts an operation debits; a drained account must be its caller's. -/
def debitedUserAccounts : Operation → List AccountRef
  | .spend o => [promo o.buyerId, spendable o.buyerId]
  | .subscribe o => [promo o.userId, spendable o.userId]
  | .requestPayout o => [earned o.userId]
  | _ => []

def ownedBy (account : AccountRef) (userId : String) : Bool := startsWith account (userId ++ ":")

/-- Systems and operators may do anything; a user may debit accounts that read as their own. -/
def authorize (operation : Operation) : Except Fault Unit :=
  match operation.actor with
  | .operator _ => .ok ()
  | .system _ => .ok ()
  | .user userId =>
    if RESTRICTED_TO_PRIVILEGED operation then
      .error (fault .unauthorized "operation requires a system or operator principal")
    else if (debitedUserAccounts operation).all (ownedBy · userId) then .ok ()
    else .error (fault .unauthorized "a user may not debit another account")

def riskSubject : Operation → Option (String × RiskClass)
  | .spend o => some ("out:" ++ o.buyerId, .outflow)
  | .requestPayout o => some ("out:" ++ o.userId, .outflow)
  | .subscribe o => some ("out:" ++ o.userId, .outflow)
  | .topUp o => some ("in:" ++ o.userId, .inflow)
  | .grantPromo o => some ("in:" ++ o.userId, .inflow)
  | _ => none

def attemptMinor : Operation → Int
  | .spend o => o.price.minor
  | .subscribe o => o.price.minor
  | .topUp o => o.amount.minor
  | .grantPromo o => o.amount.minor
  | .requestPayout o => o.amount.minor
  | _ => 0

/-- The user behind the first spendable or promo wallet of a reversing posting. -/
def refundBuyer (transaction : Transaction) : String :=
  ((transaction.legs.find? fun leg => isWalletAccount leg.account &&
    (walletKindOf leg.account = some .spendable || walletKindOf leg.account = some .promo)).map
      fun leg => ownerOf leg.account).getD "unknown"

def txnData (transaction : Transaction) : Meta := [("txnId", .string transaction.id)]

def spendData (o : SpendOperation) (transaction : Transaction) : Meta :=
  match o.giftTo with
  | some giftTo =>
    if giftTo ≠ o.buyerId then txnData transaction ++ [("isGift", .bool true), ("giftTo", .string giftTo)]
    else txnData transaction
  | none => txnData transaction

/-- `EVENTS`: the event that follows a commit, if its kind has one. -/
def eventOf (operation : Operation) (transaction : Transaction) : Option Txn.EventDraft :=
  match operation with
  | .topUp o => some ⟨"economy.credits.topped_up", o.userId, txnData transaction, "client"⟩
  | .grantPromo o => some ⟨"economy.promo.granted", o.userId, txnData transaction, "client"⟩
  | .spend o => some ⟨"economy.sale.completed", o.buyerId, spendData o transaction, "client"⟩
  | .refund o => some ⟨"economy.sale.refunded", refundBuyer transaction,
      txnData transaction ++ [("orderId", .string o.orderId),
        ("buyerId", .string (refundBuyer transaction))],
      "client"⟩
  | .clawback o => some ⟨"economy.credits.clawed_back", o.userId,
      txnData transaction ++ [("userId", .string o.userId), ("amount", .string (encodeAmount o.amount))] ++
        textField "orderId" o.orderId, "internal"⟩
  | .requestPayout o => some ⟨"economy.payout.requested", o.userId,
      txnData transaction ++ [("userId", .string o.userId), ("amount", .string (encodeAmount o.amount))],
      "client"⟩
  | .subscribe o => some ⟨"economy.subscription.started", o.userId,
      txnData transaction ++ [("userId", .string o.userId), ("sku", .string o.sku), ("period", .number 1)],
      "client"⟩
  | .cancelSubscription o => some ⟨"economy.subscription.canceled", o.subscriptionId,
      txnData transaction ++ [("subscriptionId", .string o.subscriptionId)], "client"⟩
  | .reversePayout o => some ⟨"economy.payout.reversed", o.userId,
      [("sagaId", .string o.sagaId), ("reason", .string o.reason)], "internal"⟩
  | _ => none

theorem StaysOn.calm {locked : List AccountRef} {x : Work Outcome} (h : StaysOn locked x) {w w' : World}
    {outcome : Outcome} (hr : x.txn.run w = (.ok outcome, w')) : Calm outcome := ((h w).2 hr).1

theorem handlerOf_calm (ports : Ports) (env : Env) (config : Config) (operation : Operation) {w w' : World}
    {outcome : Outcome} (h : (handlerOf ports env config operation).txn.run w = (.ok outcome, w')) :
    Calm outcome := by
  cases operation with
  | topUp o => exact (topUp_staysOn env config ports.rates o).calm h
  | spend o => exact ((spend_guarded env config o w).2 h).1
  | refund o => exact refund_calm env o _ _ _ h
  | clawback o => exact (clawback_staysOn env o).calm h
  | requestPayout o => exact ((requestPayout_guarded env config ports.rates ports.payees o w).2 h).1
  | subscribe o => exact subscribe_calm env config o _ _ _ h
  | cancelSubscription o => exact (cancelSubscription_staysOn env o).calm h
  | grantEntitlement o => exact (grantEntitlement_staysOn env o).calm h
  | revokeEntitlement o => exact (revokeEntitlement_staysOn env o).calm h
  | grantPromo o => exact (grantPromo_staysOn env o).calm h
  | adjust o => exact (adjust_staysOn env o).calm h
  | reverse o => exact (reverse_extendsLocks env o w).2 h
  | reversePayout o => exact (reversePayout_staysOn env config o).calm h
  | settlePayout o => exact (settlePayout_extendsLocks env config o w).2 h

def registry (ports : Ports) : Catalog Operation where
  idempotencyKey := Operation.idempotencyKey
  actor := Operation.actor
  validateOperation := validateOperation
  authorize := authorize
  preClaim := preClaimOf
  riskSubject := riskSubject
  attemptMinor := attemptMinor
  fundsNeeded := fundsNeededOf
  handler env config operation := (handlerOf ports env config operation).txn
  event := eventOf
  preClaim_unaware := by
    intro operation
    cases operation with
    | spend o => exact spendPreClaim_unaware o
    | _ => exact .pure none
  fundsNeeded_unaware := by
    intro operation
    cases operation with
    | spend o => exact spendFundsNeeded_unaware o
    | _ => exact .pure []
  handler_unaware env config operation := (handlerOf ports env config operation).unaware
  handler_keeps := by
    intro env config operation w window limitMinor h
    rcases hr : (handlerOf ports env config operation).txn.run w with ⟨res, w'⟩
    rw [hr] at h
    subst h
    exact handlerOf_calm ports env config operation hr window limitMinor rfl

end EconomyLab

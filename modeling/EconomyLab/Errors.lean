import Mathlib.Data.List.Basic

/-!
# Faults and rejections

A fault is thrown and carries a stable code; a rejection is an ordinary "no".
-/

namespace EconomyLab

/-- A fallible step that went through: its first half did, and then the rest did. -/
theorem except_bind_ok {ε α β : Type} {x : Except ε α} {f : α → Except ε β} {b : β} :
    (x >>= f) = .ok b ↔ ∃ a, x = .ok a ∧ f a = .ok b := by
  cases x with
  | error e => simp [bind, Except.bind]
  | ok a => simp [bind, Except.bind]

@[simp] theorem except_pure_ok {ε α : Type} {a b : α} : (pure a : Except ε α) = .ok b ↔ a = b := by
  simp [pure, Except.pure]

theorem except_toOption {ε α : Type} {x : Except ε α} {a : α} : x.toOption = some a ↔ x = .ok a := by
  cases x <;> simp [Except.toOption]

inductive ErrorCode
  | malformedOperation
  | invalidAmount
  | amountOverflow
  | ledgerUnbalanced
  | unknownAccount
  | currencyMismatch
  | overdraft
  | commingling
  | invalidTransition
  | sessionSettled
  | sessionMisrouted
  | unauthorized
  | invalidSignature
  | storeFailure
  | providerFailure
  | configInvalid
  | chainBroken
deriving DecidableEq, Repr

def ErrorCode.text : ErrorCode → String
  | malformedOperation => "OP.MALFORMED"
  | invalidAmount => "MONEY.INVALID_AMOUNT"
  | amountOverflow => "MONEY.OVERFLOW"
  | ledgerUnbalanced => "LEDGER.UNBALANCED"
  | unknownAccount => "LEDGER.UNKNOWN_ACCOUNT"
  | currencyMismatch => "LEDGER.CURRENCY_MISMATCH"
  | overdraft => "LEDGER.OVERDRAFT"
  | commingling => "LEDGER.COMMINGLING"
  | invalidTransition => "SAGA.INVALID_TRANSITION"
  | sessionSettled => "SESSION.SETTLED"
  | sessionMisrouted => "SESSION.MISROUTED"
  | unauthorized => "AUTH.UNAUTHORIZED"
  | invalidSignature => "AUTH.INVALID_SIGNATURE"
  | storeFailure => "STORE.FAILURE"
  | providerFailure => "PROVIDER.FAILURE"
  | configInvalid => "CONFIG.INVALID"
  | chainBroken => "CHAIN.BROKEN"

/-- Whatever a `throw` raises: an `EconomyError` with its code, or a plain error. -/
structure Fault where
  code : Option ErrorCode
  message : String
  retryable : Bool
deriving DecidableEq, Repr

def fault (code : ErrorCode) (message : String) : Fault := ⟨some code, message, false⟩

/-- A raw `Error`, before `normalizeError` wraps it. -/
def plainError (message : String) : Fault := ⟨none, message, false⟩

/-- A coded fault is returned unchanged; anything else becomes a retryable store failure. -/
def normalizeError (e : Fault) : Fault :=
  match e.code with
  | some _ => e
  | none => ⟨some .storeFailure, "An unexpected error occurred.", true⟩

def normalizePortError (e : Fault) : Fault :=
  match e.code with
  | some _ => e
  | none => ⟨some .providerFailure, "An injected port failed.", true⟩

/-- Reasons a well-formed request is declined on a healthy system. -/
inductive RejectionCode
  | insufficientFunds
  | riskDenied
  | fundsImmature
  | notEntitled
  | unknownOrder
  | duplicateOrder
  | unknownSubscription
  | alreadySubscribed
  | belowMinimum
  | payoutTooSoon
  | payeeUnverified
  | economyPaused
deriving DecidableEq, Repr

def RejectionCode.text : RejectionCode → String
  | insufficientFunds => "INSUFFICIENT_FUNDS"
  | riskDenied => "RISK_DENIED"
  | fundsImmature => "FUNDS_IMMATURE"
  | notEntitled => "NOT_ENTITLED"
  | unknownOrder => "UNKNOWN_ORDER"
  | duplicateOrder => "DUPLICATE_ORDER"
  | unknownSubscription => "UNKNOWN_SUBSCRIPTION"
  | alreadySubscribed => "ALREADY_SUBSCRIBED"
  | belowMinimum => "BELOW_MINIMUM"
  | payoutTooSoon => "PAYOUT_TOO_SOON"
  | payeeUnverified => "PAYEE_UNVERIFIED"
  | economyPaused => "ECONOMY_PAUSED"

inductive Reason
  | rejection (code : RejectionCode)
  | error (code : ErrorCode)
deriving DecidableEq, Repr

@[simp] theorem fault_code (c : ErrorCode) (m : String) : (fault c m).code = some c := rfl

@[simp] theorem normalizeError_fault (c : ErrorCode) (m : String) :
    normalizeError (fault c m) = fault c m := rfl

end EconomyLab

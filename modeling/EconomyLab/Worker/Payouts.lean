import EconomyLab.Operations.Payouts

/-!
# The payout sweep

A sweep claims the payouts that are due and drives each one step: a reserved one is handed to the
processor, a submitted one is watched. What cannot go on is set aside, and its reserve goes back to
the seller in the same transaction. The sweep works from the rows it claimed, and other actors may
move a payout between any two of its calls.
-/

namespace EconomyLab

open Foundation

inductive PayoutProviderState
  | pending
  | settled
  | failed
  | returned
  | unknown
deriving DecidableEq, Repr

/-- What `submitPayout` is called with. -/
structure SubmitPayoutCall where
  key : String
  userId : String
  amount : Amount
deriving DecidableEq

structure PaymentProcessor where
  submitPayout : SubmitPayoutCall → Except Fault String
  payoutStatus : Option (String → Except Fault PayoutProviderState)

inductive PayoutOutcome
  | submitted (id : String)
  | deadLettered (id reason : String)
  | retrying (id : String) (code : Option ErrorCode)
  | untouched
deriving DecidableEq

structure PayoutSweepSummary where
  submitted : List String
  deadLettered : List (String × String)
  retrying : List (String × Option ErrorCode)

def PayoutSweepSummary.add (summary : PayoutSweepSummary) : PayoutOutcome → PayoutSweepSummary
  | .submitted id => { summary with submitted := summary.submitted ++ [id] }
  | .deadLettered id reason => { summary with deadLettered := summary.deadLettered ++ [(id, reason)] }
  | .retrying id code => { summary with retrying := summary.retrying ++ [(id, code)] }
  | .untouched => summary

def SagaState.claimable : SagaState → Bool
  | .reserved => true
  | .submitted => true
  | _ => false

def SagaTables.claimDue (t : SagaTables) (now : Int) (limit : Nat) : List Saga :=
  (t.rows.values.filter fun saga => saga.dueAt ≤ now && saga.state.claimable).take limit

def submittedSlaMs (config : Config) : Int :=
  ((config.payoutSla.lookup "SUBMITTED").or (config.payoutSla.lookup "DEFAULT")).getD 0

/-- The row keeps its state and counts one attempt more than the sweep read. -/
def bumpAttempt (env : Env) (saga : Saga) : Txn Bool := do
  let updatedAt ← Txn.now env
  Txn.advanceSaga saga.id saga.state saga.state fun row =>
    { row with attempts := saga.attempts + 1, updatedAt }

def recheckLater (env : Env) (config : Config) (saga : Saga) (updatedAt : Option Int) : Txn Bool := do
  let now ← Txn.now env
  Txn.advanceSaga saga.id .submitted .submitted fun row =>
    { row with dueAt := now + submittedSlaMs config, updatedAt := updatedAt.getD row.updatedAt }

/-- The processor has the disbursement, under the reference it gave. -/
def recordSubmitted (env : Env) (config : Config) (saga : Saga) (providerRef : String) : Txn Bool := do
  let now ← Txn.now env
  Txn.advanceSaga saga.id .reserved .submitted fun row =>
    { row with
      providerRef := some providerRef
      attempts := saga.attempts + 1
      dueAt := now + submittedSlaMs config
      updatedAt := now }

def reversedEvent (saga : Saga) (reason : String) : Txn.EventDraft where
  type := "economy.payout.reversed"
  subject := saga.userId
  data := [("sagaId", .string saga.id), ("userId", .string saga.userId),
    ("reserve", .string (encodeAmount saga.reserve)), ("reason", .string reason)]
  audience := "internal"

/-- The reserve goes back to the seller, on the shard that the saga's user routes to. -/
def deadLetterLegs (config : Config) (saga : Saga) : Except Fault (List Leg) := do
  return [debit (platformShard SYSTEM.PAYOUT_RESERVE saga.userId config.platformShards) saga.reserve,
    ← credit (earned saga.userId) saga.reserve]

theorem anchored_view (env : Env) (saga : Saga) (w : World) :
    assertSagaAnchored env.digest w.ledger.tables saga =
      assertSagaAnchored env.digest w.view.ledger.tables saga :=
  rfl

/-- The failure and the return of the reserve stand or fall together. Where another actor was first,
nothing is done and the answer is no. -/
def deadLetter (env : Env) (config : Config) (saga : Saga) (reason : String) : Work Bool := do
  let _ ← Work.read (fun w => assertSagaAnchored env.digest w.ledger.tables saga) (anchored_view env saga)
  Work.lockAll [platformShard SYSTEM.PAYOUT_RESERVE saga.userId config.platformShards, earned saga.userId]
  let updatedAt ← Work.now env
  let advanced ← Work.advanceSaga saga.id saga.state .failed fun row =>
    { row with updatedAt, reason := some reason }
  if !advanced then return false
  else do
    let txnId ← Work.mint env "txn"
    let legs ← Work.lift (deadLetterLegs config saga)
    let _ ← Work.postEntry env ⟨txnId, legs,
      [("kind", .string "payouts.dead_letter"), ("sagaId", .string saga.id), ("reason", .string reason)]⟩
    Work.emit env (reversedEvent saga reason)
    return true

/-! ## One step of one payout -/

def PAYOUT_TIMEOUT_REASON : String := "payout.timeout"

def PAYOUT_PROVIDER_FAILED_REASON : String := "payout.provider_failed"

def PAYOUT_PROVIDER_RETURNED_REASON : String := "payout.provider_returned"

section Sweep

variable (env : Env) (config : Config) (maxPayoutAttempts : Nat)

def setAside (saga : Saga) (reason : String) (w : World) : Except Fault PayoutOutcome × World :=
  match transaction (deadLetter env config saga reason).txn w with
  | (.ok true, w) => (.ok (.deadLettered saga.id reason), w)
  | (.ok false, w) => (.ok .untouched, w)
  | (.error e, w) => (.error e, w)

/-- A probe that fails, and one that knows nothing, are no evidence. -/
def heardVerdict : Except Fault PayoutProviderState → Option PayoutProviderState
  | .ok .unknown => none
  | .ok state => some state
  | .error _ => none

/-- A payout that the processor still works on is never failed for its age: its timeout starts anew. -/
def checkSubmitted (saga : Saga) (verdict : Option PayoutProviderState) (w : World) :
    Except Fault PayoutOutcome × World :=
  match verdict with
  | some .failed => setAside env config saga PAYOUT_PROVIDER_FAILED_REASON w
  | some .returned => setAside env config saga PAYOUT_PROVIDER_RETURNED_REASON w
  | some .settled => (.ok .untouched, ((recheckLater env config saga none).run w).2)
  | verdict =>
    let aged := config.maxPayoutAgeMs < env.clock w.ticks - saga.updatedAt
    let w := { w with ticks := w.ticks + 1 }
    if verdict = some .pending then
      if aged then
        -- The warning that is logged reads the clock once more.
        let deferred : Txn Bool := do
          let _ ← Txn.now env
          let updatedAt ← Txn.now env
          recheckLater env config saga (some updatedAt)
        (.ok .untouched, (deferred.run w).2)
      else (.ok .untouched, ((recheckLater env config saga none).run w).2)
    else if aged then setAside env config saga PAYOUT_TIMEOUT_REASON w
    else (.ok .untouched, w)

/-- What the sweep asks the processor before a step, if it asks at all. -/
inductive PayoutQuestion
  | submit (call : SubmitPayoutCall)
  | status (providerRef : String)
  | none

/-- A reserved payout is proved against its anchor before a processor hears of it. -/
def askFirst (probes : Bool) (saga : Saga) (w : World) : Except Fault PayoutQuestion :=
  match saga.state with
  | .reserved => do
    let usd ← assertSagaAnchored env.digest w.ledger.tables saga
    return .submit ⟨saga.id, saga.userId, usd⟩
  | .submitted =>
    match probes, saga.providerRef with
    | true, some providerRef => .ok (.status providerRef)
    | _, _ => .ok .none
  | _ => .ok .none

/-- The error boundary of one payout: it is retried, or set aside, or left where it stands. -/
def retryOrSetAside (saga : Saga) (error : Fault) (w : World) : PayoutOutcome × World :=
  let normalized := normalizeError error
  if normalized.retryable ∧ saga.attempts + 1 < maxPayoutAttempts then
    (.retrying saga.id normalized.code, ((bumpAttempt env saga).run w).2)
  else
    match setAside env config saga ((normalized.code.map ErrorCode.text).getD "") w with
    | (.ok outcome, w) => (outcome, w)
    | (.error refused, w) => (.retrying saga.id (normalizeError refused).code, w)

def submitToProvider (processor : PaymentProcessor) (saga : Saga) (w : World) :
    Except Fault PayoutOutcome × World :=
  match assertSagaAnchored env.digest w.ledger.tables saga with
  | .error e => (.error e, w)
  | .ok usd =>
    match processor.submitPayout ⟨saga.id, saga.userId, usd⟩ with
    | .error e => (.error e, w)
    | .ok providerRef => (.ok (.submitted saga.id),
      ((recordSubmitted env config saga providerRef).run w).2)

def providerVerdict (processor : PaymentProcessor) (saga : Saga) : Option PayoutProviderState :=
  match processor.payoutStatus, saga.providerRef with
  | some payoutStatus, some providerRef => heardVerdict (payoutStatus providerRef)
  | _, _ => none

def driveTransition (processor : PaymentProcessor) (saga : Saga) (w : World) :
    Except Fault PayoutOutcome × World :=
  match saga.state with
  | .reserved => submitToProvider env config processor saga w
  | .submitted => checkSubmitted env config saga (providerVerdict processor saga) w
  | _ => (.ok .untouched, w)

def advanceOne (processor : PaymentProcessor) (saga : Saga) (w : World) : PayoutOutcome × World :=
  match driveTransition env config processor saga w with
  | (.ok outcome, w) => (outcome, w)
  | (.error e, w) => retryOrSetAside env config maxPayoutAttempts saga e w

def advanceEach (processor : PaymentProcessor) (state : PayoutSweepSummary × World) (saga : Saga) :
    PayoutSweepSummary × World :=
  let done := advanceOne env config maxPayoutAttempts processor saga state.2
  (state.1.add done.1, done.2)

def advanceDuePayouts (processor : PaymentProcessor) (now : Int) (limit : Nat) (w : World) :
    PayoutSweepSummary × World :=
  (w.sagas.rows.claimDue now limit).foldl (advanceEach env config maxPayoutAttempts processor)
  (⟨[], [], []⟩, w)

end Sweep

end EconomyLab

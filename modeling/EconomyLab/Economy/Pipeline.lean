import EconomyLab.Operations.Contract
import EconomyLab.Stores.View

/-!
# The submit pipeline

Every operation goes through the same steps: checks before the transaction, then inside it the
claim of its key, the early duplicate probe, the velocity and funds screens, and its handler. A
rejected operation rolls back like a faulty one, and its velocity attempt is put back afterwards.
-/

namespace EconomyLab

open Foundation

/-- No handler refuses for velocity: only the pipeline's own screen does. -/
def KeepsOutOfRisk (work : Txn Outcome) : Prop :=
  ∀ w window limitMinor, (work.run w).1 ≠ .ok (.rejected (.riskDenied window limitMinor))

/-- The tables that are looked up by an operation's kind. Probes and handlers work on rows only. -/
structure Catalog (Op : Type) where
  idempotencyKey : Op → String
  actor : Op → Principal
  validateOperation : Config → Op → Except Fault Unit
  authorize : Op → Except Fault Unit
  preClaim : Op → Txn (Option Outcome)
  riskSubject : Op → Option (String × RiskClass)
  attemptMinor : Op → Int
  fundsNeeded : Op → Txn (List (AccountRef × Amount))
  handler : Env → Config → Op → Txn Outcome
  event : Op → Transaction → Option Txn.EventDraft
  preClaim_unaware : ∀ op, Txn.Unaware (preClaim op)
  fundsNeeded_unaware : ∀ op, Txn.Unaware (fundsNeeded op)
  handler_unaware : ∀ env config op, Txn.Unaware (handler env config op)
  handler_keeps : ∀ env config op, KeepsOutOfRisk (handler env config op)

def classLimitMinor (config : Config) : RiskClass → Int
  | .inflow => config.velocityInflowLimitMinor.getD config.velocityLimitMinor
  | .outflow => config.velocityOutflowLimitMinor.getD config.velocityLimitMinor

namespace Txn

/-- `trust.record`: the attempt is inserted, then the window is measured at the clock's reading. -/
def recordAttempt (env : Env) (windowMs : Int) (subject : String) (attempt : Attempt) : Txn Velocity where
  run w :=
    let inserted := TrustTables.insert subject attempt w.trust
    let now := env.clock w.ticks
    (inserted.rows.read windowMs now subject,
      { w with
        trust := { inserted with rows := inserted.rows.measure windowMs now subject }
        ticks := w.ticks + 1 })
  undoable _ h := { World.Extends.refl h with sound := ⟨h.lots, h.columns⟩ }

end Txn

/-! ## Inside the transaction -/

section Pipeline

variable {Op : Type} (p : Catalog Op) (env : Env) (config : Config) (op : Op)

/-- What the attempt adds to its subject's window, and which limit it is held against. -/
structure RiskCheck where
  subject : String
  window : RiskClass
  attempt : Attempt
deriving DecidableEq

def riskCheckOf (now : Int) : Option (Except Fault RiskCheck) :=
  (p.riskSubject op).map fun risk => do
    let amount ← toAmount VELOCITY_CURRENCY (p.attemptMinor op)
    return ⟨risk.1, risk.2, p.idempotencyKey op, amount, now, .committed⟩

def riskVerdict (check : RiskCheck) (spentMinor : Int) : Option Outcome :=
  if spentMinor > classLimitMinor config check.window then
    some (.rejected (.riskDenied check.window (classLimitMinor config check.window)))
  else none

def screenRisk : Txn (Option Outcome) :=
  if (p.riskSubject op).isSome then do
    let now ← Txn.now env
    match riskCheckOf p op now with
    | none => return none
    | some check => do
      let check ← Txn.lift check
      let velocity ← Txn.recordAttempt env config.velocityWindowMs check.subject check.attempt
      return riskVerdict config check velocity.spent.minor
  else return none

def screenNeeds : List (AccountRef × Amount) → Txn (Option Outcome)
  | [] => return none
  | (account, need) :: needs => do
    let have_ ← Txn.balance account
    Txn.lift (assertSameCurrency have_ need)
    if have_.minor < need.minor then return some (.rejected (.insufficientFunds account need have_))
    else screenNeeds needs

def screenFunds : Txn (Option Outcome) := do
  let needs ← p.fundsNeeded op
  screenNeeds needs

def emitEvents (transaction : Transaction) : Txn Unit :=
  match p.event op transaction with
  | none => return ()
  | some draft => do
    let id ← Txn.mint env "evt"
    let messageId ← Txn.mint env "obx"
    Txn.enqueue env ⟨messageId, ⟨id, draft.type, 1, transaction.postedAt, draft.subject, draft.data,
      draft.audience⟩, .pending, 0, none, none⟩

/-- From the funds screen on. -/
def settleClaimed : Txn ((Transaction × Unit) ⊕ Outcome) := do
  match ← screenFunds p op with
  | some refused => return .inr refused
  | none => do
    match ← p.handler env config op with
    | .committed transaction => return .inl (transaction, ())
    | outcome => return .inr outcome

def claimedBody (screened : Txn (Option Outcome)) : Txn ((Transaction × Unit) ⊕ Outcome) := do
  match ← p.preClaim op with
  | some duplicate => return .inr duplicate
  | none => do
    match ← screened with
    | some denied => return .inr denied
    | none => settleClaimed p env config op

/-- What follows once the outcome is recorded under the key. -/
def claimedAfter (transaction : Transaction) : Txn Outcome := do
  emitEvents p env op transaction
  return .committed transaction

def runClaimedOver (screened : Txn (Option Outcome)) : Txn Outcome :=
  Txn.claiming env (p.idempotencyKey op) (fun transaction => return .duplicate transaction)
    (claimedBody p env config op screened) fun transaction _ => claimedAfter p env op transaction

def runClaimed : Txn Outcome := runClaimedOver p env config op (screenRisk p env config op)

/-- What makes the transaction roll back: a rejection, thrown as a sentinel, or a fault. -/
inductive Thrown
  | rejected (detail : RejectionDetail)
  | fault (e : Fault)

def rejectionsRollBack : Except Fault Outcome → Except Thrown Outcome
  | .ok (.rejected detail) => .error (.rejected detail)
  | .ok outcome => .ok outcome
  | .error e => .error (.fault e)

/-- What the caller of an operation gets: an outcome, or what it throws. -/
abbrev Slot := Except Fault Outcome

def Thrown.slot : Thrown → Slot
  | rejected detail => .ok (.rejected detail)
  | fault e => .error e

/-- The store after the claim and the probe, when neither ends the work. -/
def admitted (w : World) : Option World :=
  match w.idempotency.rows.committed.get (p.idempotencyKey op) with
  | some _ => none
  | none =>
    match (p.preClaim op).run
      (w.withIdempotency (claimKey (env.clock w.ticks) (p.idempotencyKey op) w.idempotency)) with
    | (.ok none, w') => some w'
    | _ => none

/-- The attempt that the velocity screen of this work stages, if the work comes that far. -/
def staged (w : World) : Option RiskCheck := do
  let w' ← admitted p env op w
  let check ← riskCheckOf p op (env.clock w'.ticks)
  check.toOption

/-- `trust.bump` on the store itself. -/
def putBack (check : Option RiskCheck) (w : World) : World :=
  match check with
  | none => w
  | some check => { w with trust := TrustTables.insert check.subject check.attempt w.trust }

/-- What happens before the transaction; `now` is the reading of the pause gate. -/
def screenOperation (now : Int) : Except Fault (Option Outcome) := do
  p.validateOperation config op
  p.authorize op
  if (p.actor op).isUser && economyPaused now config then
    return some (.rejected (.economyPaused config.pauseEndMs))
  else return none

def submit (now : Int) (w : World) : Slot × World :=
  match screenOperation p config op now with
  | .error e => (.error e, w)
  | .ok (some refused) => (.ok refused, w)
  | .ok none =>
    match w.beginAll with
    | none => (.error (plainError "in-memory transactions do not nest"), w)
    | some opened =>
      let done := (runClaimed p env config op).run opened
      match rejectionsRollBack done.1 with
      | .ok outcome => (.ok outcome, done.2.commitAll)
      | .error thrown => (thrown.slot, putBack (staged p env op opened) done.2.rollbackAll)

end Pipeline

end EconomyLab

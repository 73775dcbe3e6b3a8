import EconomyLab.Operations.Refund
import EconomyLab.Stores.Shares

/-!
# The accrual drain

One posting for each seller moves its parked shares to its earned balance. Rows of debt are
netted against the shares that were claimed with them, and a row that is only paid in part
goes on as a residual under the next `seq`.
-/

namespace EconomyLab

open Foundation Text

def pendingRows (rows : List AccrualRow) (sellerId : String) : List AccrualRow :=
  rows.filter fun row => row.sellerId = sellerId && row.status = .pending

def sharesOf (rows : List AccrualRow) : List AccrualRow := rows.filter (0 < ·.amount.minor)

def debtsOf (rows : List AccrualRow) : List AccrualRow := rows.filter (·.amount.minor < 0)

/-- Positive shares come before recovery rows, each in insertion order. -/
def claimSellerPending (rows : List AccrualRow) (sellerId : String) (limit : Nat) : List AccrualRow :=
  let pending := pendingRows rows sellerId
  (sharesOf pending ++ debtsOf pending).take limit

/-- The sellers of pending rows, each once, until there are enough of them. -/
def collectSellers (limit : Nat) : List String → List AccrualRow → List String
  | sellers, [] => sellers
  | sellers, row :: rows =>
    if row.status = .pending ∧ row.sellerId ∉ sellers then
      if limit ≤ (sellers ++ [row.sellerId]).length then sellers ++ [row.sellerId]
      else collectSellers limit (sellers ++ [row.sellerId]) rows
    else collectSellers limit sellers rows

def pendingSellers (rows : List AccrualRow) (limit : Nat) : List String := collectSellers limit [] rows

def rowMatchesMeta (row : AccrualRow) (posting : Posting) : Except Fault Bool :=
  if 0 < row.amount.minor then rowMatchesShare posting row
  else if metaText posting.fields "kind" = some "refund" then
    match posting.fields.lookup "recovered" with
    | some (.object recovered) =>
      match metaText recovered row.sellerId with
      | some expected => do return decide ((← bigIntOf expected) = -row.amount.minor)
      | none => .ok false
    | _ => .ok false
  else if metaText posting.fields "kind" = some "accrual_drain" then
    match posting.fields.lookup "residual" with
    | some (.object residual) =>
      if metaText posting.fields "sellerId" = some row.sellerId ∧
          metaText residual "orderId" = some row.orderId ∧ metaNumber residual "seq" = some row.seq then do
        return decide ((← bigIntOf ((metaText residual "minor").getD "0")) = row.amount.minor)
      else .ok false
    | _ => .ok false
  else .ok false

def rowFault : Fault :=
  fault .chainBroken
    "An accrual row does not re-derive from the posting that created it; refusing to drain tampered rows."

/-- The posting that a row names is re-proved, and the row is what the posting sealed. -/
def assertRowProvable (digest : Digest) (t : LedgerTables) (row : AccrualRow) : Except Fault Unit := do
  match ← verifiedPosting digest t row.txnId with
  | none => .error rowFault
  | some posting => if ← rowMatchesMeta row posting then .ok () else .error rowFault

def assertRowsProvable (digest : Digest) (t : LedgerTables) : List AccrualRow → Except Fault Unit
  | [] => .ok ()
  | row :: rows => do
    assertRowProvable digest t row
    assertRowsProvable digest t rows

/-- What is left of a row of debt that was paid in part. -/
structure Residual where
  orderId : String
  sellerId : String
  seq : Nat
  amount : Amount
  shard : AccountRef

def Residual.row (residual : Residual) (txnId : String) (recordedAt : Int) : AccrualRow :=
  ⟨residual.orderId, residual.sellerId, residual.seq, residual.amount, residual.shard,
    .pending, txnId, none,
    recordedAt⟩

structure Recovery where
  recoveredMinor : Int
  consumed : List AccrualRow
  residual : Option Residual

/-- Rows of debt are paid in claim order; one that is larger than what remains is split. -/
def consumeRecovery : List AccrualRow → Int → Except Fault Recovery
  | [], _ => .ok ⟨0, [], none⟩
  | row :: rows, remaining =>
    if remaining = 0 then .ok ⟨0, [], none⟩
    else if -row.amount.minor ≤ remaining then do
      let rest ← consumeRecovery rows (remaining - -row.amount.minor)
      return { rest with
        recoveredMinor := -row.amount.minor + rest.recoveredMinor
        consumed := row :: rest.consumed }
    else do
      let amount ← toAmount .credit (-(-row.amount.minor - remaining))
      return ⟨remaining, [row], some ⟨row.orderId, row.sellerId, row.seq + 1, amount, row.shard⟩⟩

def minorOf (rows : List AccrualRow) : Int := (rows.map (·.amount.minor)).sum

def creditSome (account : AccountRef) (minor : Int) : Except Fault (List Leg) :=
  if minor > 0 then do return [← credit account (← toAmount .credit minor)] else .ok []

def drainLegs (sellerId : String) (positives : List AccrualRow) (earnedMinor recoveredMinor : Int) :
    Except Fault (List Leg) := do
  let byShard := tally (positives.map fun row => (row.shard, row.amount.minor))
  let parked ← byShard.mapM fun share => do return debit share.1 (← toAmount .credit share.2)
  let paid ← creditSome (earned sellerId) earnedMinor
  let repaid ← creditSome SYSTEM.RECEIVABLE recoveredMinor
  return parked ++ paid ++ repaid

/-- The same pending rows always drain under the same id. -/
def drainTxnId (digest : Digest) (rows : List AccrualRow) : String :=
  let keys := sortStrings (rows.map fun row => row.orderId ++ "|" ++ row.sellerId ++ "|" ++
    toString row.seq)
  "acc_" ++ String.ofList ((toHex (digest (utf8 ("\n".intercalate keys)))).toList.take 32)

/-- The residual is sealed, so that its row can be proved in the next cycle. -/
def drainMeta (sellerId : String) (rows : List AccrualRow) (recovery : Recovery) : Meta :=
  [("kind", .string "accrual_drain"), ("sellerId", .string sellerId),
    ("orders", .array ((sortStrings (rows.map AccrualRow.orderId).eraseDups).map Json.string))] ++
  match recovery.residual with
  | none => []
  | some residual => [("residual", .object [("orderId", .string residual.orderId),
    ("seq", .number residual.seq),
      ("minor", .string (toString residual.amount.minor))])]

structure Drained where
  sellerId : String
  txnId : String
  earnedMinor : Int
  recoveredMinor : Int

structure DrainPlan where
  recovery : Recovery
  legs : List Leg

def planDrain (sellerId : String) (rows : List AccrualRow) : Except Fault DrainPlan := do
  let recovery ← consumeRecovery (debtsOf rows) (minorOf (sharesOf rows))
  let legs ← drainLegs sellerId (sharesOf rows) (minorOf (sharesOf rows) - recovery.recoveredMinor)
    recovery.recoveredMinor
  return ⟨recovery, legs⟩

def postDrain (env : Env) (sellerId : String) (rows : List AccrualRow) (plan : DrainPlan) : Txn Unit := do
  let txnId := drainTxnId env.digest rows
  let existing ← Txn.findPosting txnId
  if existing.isSome then return ()
  else do
    let _ ← Txn.postEntry env ⟨txnId, plan.legs, drainMeta sellerId rows plan.recovery⟩
    return ()

/-- The shares and the debt that was paid are marked, and what is left of a debt is put. -/
def settleRows (rows : List AccrualRow) (recovery : Recovery) (txnId : String) (now : Int) : Txn Unit := do
  Txn.markAccruals ((sharesOf rows ++ recovery.consumed).map AccrualRow.place) .drained txnId
  match recovery.residual with
  | none => return ()
  | some residual => Txn.putAccruals [residual.row txnId now]

def drainSeller (env : Env) (sellerId : String) (now : Int) (limit : Nat) : Txn (Option Drained) := do
  let rows ← Txn.read fun w => .ok (claimSellerPending w.accruals.rows.listed sellerId limit)
  Txn.read fun w => assertRowsProvable env.digest w.ledger.tables rows
  if sharesOf rows = [] then return none
  else do
    let plan ← Txn.lift (planDrain sellerId rows)
    let txnId := drainTxnId env.digest rows
    postDrain env sellerId rows plan
    settleRows rows plan.recovery txnId now
    return some ⟨sellerId, txnId, minorOf (sharesOf rows) - plan.recovery.recoveredMinor,
      plan.recovery.recoveredMinor⟩

structure DrainTally where
  drained : List Drained
  failed : List (String × Option ErrorCode)
  skipped : Bool

def drainOne (env : Env) (now : Int) (limit : Nat) (state : DrainTally × World) (sellerId : String) :
    DrainTally × World :=
  match transaction (drainSeller env sellerId now limit) state.2 with
  | (.ok (some settled), w) => ({ state.1 with drained := state.1.drained ++ [settled] }, w)
  | (.ok none, w) => (state.1, w)
  | (.error e, w) => ({ state.1 with failed := state.1.failed ++ [(sellerId, (normalizeError e).code)] },
    w)

def drainAccruals (env : Env) (config : Config) (now : Int) (limit : Nat) (w : World) :
    DrainTally × World :=
  if config.accrualDrain then
    (pendingSellers w.accruals.rows.listed limit).foldl (drainOne env now limit) (⟨[], [], false⟩, w)
  else (⟨[], [], true⟩, w)

end EconomyLab

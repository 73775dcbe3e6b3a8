import EconomyLab.Chain.Integrity
import EconomyLab.Economy.Backing
import EconomyLab.Netting.Posting

/-!
# The fee sweep

Earned fees become platform cash in one transaction, up to the smaller of two ceilings: the trust
cash beyond what backs the users' credits at par, and the revenue that can no longer be refunded.
-/

namespace EconomyLab

open Foundation Text

/-- One pass over the chain heads, reading a balance just for the accounts that count. -/
def backingTotals (t : LedgerTables) : List AccountRef → BackingTotals → Except Fault BackingTotals
  | [], totals => .ok totals
  | account :: heads, totals =>
    if isCustodialCredit account || isTrustCashShard account then do
      let balance ← t.balance account
      backingTotals t heads (foldBackingAccount totals account balance.minor)
    else backingTotals t heads totals

/-- Reverses `backingRequiredMinor`; both round down. -/
def usdToCredit (usdMinor : Int) (par : Rate) : Except Fault Int :=
  if par.rate = 0 then .ok 0 else mulDiv usdMinor (10 ^ par.scale) par.rate .floor

/-- Trust cash at par minus what is owed to users. -/
def surplusCredit (par : Rate) (heads : List AccountRef) (t : LedgerTables) : Except Fault Int := do
  let totals ← backingTotals t heads ⟨0, 0⟩
  let trustInCredit ← usdToCredit totals.trustCashMinor par
  return trustInCredit - totals.custodialCreditMinor

def maturedByShard (env : Env) (config : Config) : List AccountRef → Txn (List (AccountRef × Int))
  | [] => return []
  | shard :: shards => do
    let now ← Txn.now env
    let matured ← Txn.read fun w => maturedBalance w.ledger.tables shard now config
    let rest ← maturedByShard env config shards
    return (shard, matured.minor) :: rest

def maturedRevenueByShard (env : Env) (config : Config) : Txn (List (AccountRef × Int)) :=
  maturedByShard env config (shardsOf SYSTEM.REVENUE config.platformShards)

/-- The smaller of two ceilings: the cash surplus and the matured revenue. -/
def sweepableCredit (env : Env) (config : Config) (par : Rate) (heads : List AccountRef) : Txn Int := do
  let surplus ← Txn.read fun w => surplusCredit par heads w.ledger.tables
  let byShard ← maturedRevenueByShard env config
  let settledMinor := (byShard.map Prod.snd).sum
  let ceiling := if surplus < settledMinor then surplus else settledMinor
  return if ceiling < 0 then 0 else ceiling

def assertWithinSweepable (amount : Amount) (sweepable : Int) : Except Fault Unit :=
  if amount.minor ≤ sweepable then .ok ()
  else do
    let cap ← toAmount .credit sweepable
    .error (fault .commingling
      ("Sweeping " ++ encodeAmount amount ++ " exceeds the sweepable revenue " ++ encodeAmount cap ++ "."))

/-- Each shard gives what it holds matured, until the amount is drawn. -/
def drainLegsOf (currency : Currency) : List (AccountRef × Int) → Int → Except Fault (List Leg)
  | [], _ => .ok []
  | (shard, maturedMinor) :: shards, remaining =>
    if remaining = 0 then .ok []
    else
      let take := if maturedMinor < remaining then maturedMinor else remaining
      if take > 0 then do
        let taken ← toAmount currency take
        let rest ← drainLegsOf currency shards (remaining - take)
        return debit shard taken :: rest
      else drainLegsOf currency shards remaining

def revenueDrainLegs (env : Env) (config : Config) (amount : Amount) : Txn (List Leg) := do
  let byShard ← maturedRevenueByShard env config
  Txn.lift (drainLegsOf amount.currency byShard amount.minor)

structure FeeSweep where
  amount : Amount
  key : Option String

inductive FeeSweepResult
  | duplicate (swept : Amount)
  | realized (swept : Amount) (transaction : Transaction)

/-- The credit entry and the cash entry are coupled by the par rate that both name. -/
def sweepPostings (env : Env) (config : Config) (par : Rate) (heads : List AccountRef) (amount : Amount) :
    Txn Transaction := do
  let sweepable ← sweepableCredit env config par heads
  Txn.lift (assertWithinSweepable amount sweepable)
  let usd ← Txn.lift (convertFloor amount par .usd)
  let txnId ← Txn.mint env "txn"
  let drained ← revenueDrainLegs env config amount
  let issued ← Txn.lift (credit SYSTEM.STORED_VALUE amount)
  let transaction ← Txn.postEntry env ⟨txnId, drained ++ [issued],
    [("kind", .string "treasury.fee_sweep"), ("amount", .string (encodeAmount amount)),
      ("rateId", .string par.rateId)]⟩
  let cashId ← Txn.mint env "txn"
  let paid ← Txn.lift (credit SYSTEM.TRUST_CASH usd)
  let _ ← Txn.postEntry env ⟨cashId, [debit SYSTEM.USD_CLEARING usd, paid],
    [("kind", .string "treasury.fee_sweep.cash"), ("amount", .string (encodeAmount usd)),
      ("rateId", .string par.rateId)]⟩
  return transaction

def feesSwept (amount : Amount) (transaction : Transaction) : Txn.EventDraft where
  type := "economy.fees.swept"
  subject := transaction.id
  data := [("swept", .string (encodeAmount amount))]
  audience := "internal"

def sweepEvent (env : Env) (amount : Amount) (transaction : Transaction) : Txn FeeSweepResult := do
  Txn.emit env (feesSwept amount transaction)
  return .realized amount transaction

/-- The claim comes before any read or posting, so that a retry stops there. -/
def sweepWork (env : Env) (config : Config) (par : Rate) (heads : List AccountRef) (input : FeeSweep) :
    Txn FeeSweepResult :=
  match input.key with
  | none => do
    let transaction ← sweepPostings env config par heads input.amount
    sweepEvent env input.amount transaction
  | some key =>
    Txn.claiming env ("sweep:" ++ key) (fun _ => return .duplicate (zero .credit))
      (do
        let transaction ← sweepPostings env config par heads input.amount
        return .inl (transaction, ()))
      fun transaction _ => sweepEvent env input.amount transaction

def sweepFees (env : Env) (config : Config) (par : Rate) (heads : List AccountRef) (input : FeeSweep)
    (w : World) :
    Except Fault FeeSweepResult × World :=
  if input.amount.minor ≤ 0 then (.error (fault .invalidAmount "A fee sweep amount must be positive."), w)
  else transaction (sweepWork env config par heads input) w

end EconomyLab

import EconomyLab.Foundation.Table
import EconomyLab.Foundation.UndoLog
import EconomyLab.Ledger.Posting

/-!
# The in-memory ledger

The log and the four indexes kept beside it: balances, chain heads, lot positions and
delta columns. Every write records the reverser that a rollback runs.
-/

namespace EconomyLab

open Foundation

structure StoredPosting where
  txnId : String
  legs : List Leg
  fields : Meta
  postedAt : Int
  seq : Nat
  links : List Link

def StoredPosting.posting (row : StoredPosting) : Posting := ⟨row.txnId, row.legs, row.fields⟩

/-- What a transaction can roll back; the registered accounts never change. -/
structure LedgerTables where
  log : List StoredPosting
  balances : Table AccountRef Int
  heads : Table AccountRef String
  lotIndexByAccount : Table AccountRef (List Nat)
  deltaColumns : Table AccountRef (Table Currency (List Int))

def LedgerTables.empty : LedgerTables :=
  ⟨[], Table.empty, Table.empty, Table.empty, Table.empty⟩

/-- `seq` sits outside the journal: a rolled-back append burns its value. -/
structure MemoryLedger where
  book : Journaled LedgerTables
  seq : Nat

def createLedgerStore : MemoryLedger := ⟨⟨LedgerTables.empty, none⟩, 0⟩

def MemoryLedger.tables (l : MemoryLedger) : LedgerTables := l.book.rows

def isKnownAccount (account : AccountRef) : Bool :=
  SYSTEM.values.contains (baseOf account) || (walletKindOf account).isSome

def LedgerTables.balanceOf (t : LedgerTables) (account : AccountRef) : Int :=
  (t.balances.get account).getD 0

def LedgerTables.balance (t : LedgerTables) (account : AccountRef) : Except Fault Amount :=
  toAmount (currency account) (t.balanceOf account)

def LedgerTables.findPosting (t : LedgerTables) (txnId : String) : Option Posting :=
  (t.log.find? (·.txnId = txnId)).map StoredPosting.posting

def headOf (heads : Table AccountRef String) (account : AccountRef) : String :=
  (heads.get account).getD GENESIS_HEX

def hashBytes (hex : String) : Except Fault (List UInt8) :=
  if hex = GENESIS_HEX then .ok GENESIS else fromHex hex

def advanceLink (digest : Digest) (heads : Table AccountRef String) (posting : Posting)
    (account : AccountRef) : Except Fault Link := do
  let accountPrevHash ← hashBytes (headOf heads account)
  let hash ← chainHash digest accountPrevHash account posting
  return ⟨account, headOf heads account, hash⟩

def advanceChain (digest : Digest) (heads : Table AccountRef String) (posting : Posting) :
    Except Fault (List Link) :=
  (distinctAccounts posting.legs).mapM (advanceLink digest heads posting)

def lottedAccounts (legs : List Leg) : List AccountRef :=
  distinctAccounts (legs.filter (0 < ·.delta))

/-- Range-checks every running balance before anything is written. -/
def nextBalances : Table AccountRef Int → List Leg → Except Fault (Table AccountRef Int)
  | balances, [] => .ok balances
  | balances, leg :: legs => do
    let delta ← balanceDelta leg
    let next ← toAmount leg.amount.currency ((balances.get leg.account).getD 0 + delta.minor)
    nextBalances (balances.set leg.account next.minor) legs

abbrev LotIndex := Table AccountRef (List Nat)

def pushLot (index : Nat) (lots : LotIndex) (account : AccountRef) : LotIndex :=
  lots.set account ((lots.get account).getD [] ++ [index])

abbrev Columns := Table AccountRef (Table Currency (List Int))

def appendDelta (columns : Columns) (leg : Leg) : Columns :=
  let byCurrency := (columns.get leg.account).getD Table.empty
  let column := (byCurrency.get leg.amount.currency).getD []
  columns.set leg.account (byCurrency.set leg.amount.currency (column ++ [leg.delta]))

structure PostingUndo where
  priorHeads : List (AccountRef × Option String)
  created : List AccountRef
  lotted : List AccountRef

/-! ## Undoing -/

def popLot (lots : LotIndex) (account : AccountRef) : LotIndex :=
  match lots.get account with
  | none => lots
  | some positions =>
    if positions.dropLast = [] then lots.delete account else lots.set account positions.dropLast

def undoBalance (created : List AccountRef) (balances : Table AccountRef Int) (leg : Leg) :
    Table AccountRef Int :=
  let next := (balances.get leg.account).getD 0 - leg.delta
  if next = 0 ∧ leg.account ∈ created then balances.delete leg.account
  else balances.set leg.account next

def emptyRow (byCurrency : Table Currency (List Int)) : Bool :=
  !byCurrency.has .credit && !byCurrency.has .usd

def popDelta (columns : Columns) (leg : Leg) : Columns :=
  match columns.get leg.account with
  | none => columns
  | some byCurrency =>
    match byCurrency.get leg.amount.currency with
    | none => columns
    | some column =>
      if column.dropLast = [] then
        let rest := byCurrency.delete leg.amount.currency
        if emptyRow rest then columns.delete leg.account else columns.set leg.account rest
      else columns.set leg.account (byCurrency.set leg.amount.currency column.dropLast)

def undoPosting (stored : StoredPosting) (undo : PostingUndo) (t : LedgerTables) : LedgerTables where
  log := t.log.dropLast
  lotIndexByAccount := undo.lotted.foldl popLot t.lotIndexByAccount
  heads := undo.priorHeads.foldl (fun heads p => heads.restore p.1 p.2) t.heads
  balances := stored.legs.foldl (undoBalance undo.created) t.balances
  deltaColumns := stored.legs.foldl popDelta t.deltaColumns

def postingUndo (t : LedgerTables) (stored : StoredPosting) : PostingUndo where
  priorHeads := stored.links.map fun link => (link.account, t.heads.get link.account)
  created := (stored.legs.filter fun leg => !t.balances.has leg.account).map Leg.account
  lotted := lottedAccounts stored.legs

def applyPosting (t : LedgerTables) (stored : StoredPosting) (balances : Table AccountRef Int) :
    LedgerTables where
  log := t.log ++ [stored]
  lotIndexByAccount := (lottedAccounts stored.legs).foldl (pushLot t.log.length) t.lotIndexByAccount
  heads := stored.links.foldl (fun heads link => heads.set link.account link.hash) t.heads
  balances := balances
  deltaColumns := stored.legs.foldl appendDelta t.deltaColumns

def commitPosting (book : Journaled LedgerTables) (stored : StoredPosting) :
    Except Fault (Journaled LedgerTables) := do
  let balances ← nextBalances book.rows.balances stored.legs
  return book.write (applyPosting book.rows stored balances)
    (undoPosting stored (postingUndo book.rows stored))

/-- The chain is advanced first, then the sequence value is taken, then the row is committed. -/
def append (digest : Digest) (now : Int) (posting : Posting) (l : MemoryLedger) :
    Except Fault Transaction × MemoryLedger :=
  match advanceChain digest l.tables.heads posting with
  | .error e => (.error e, l)
  | .ok links =>
    let seq := l.seq + 1
    let stored : StoredPosting := ⟨posting.txnId, posting.legs, posting.fields, now, seq, links⟩
    match commitPosting l.book stored with
    | .error e => (.error e, { l with seq })
    | .ok book => (.ok ⟨stored.txnId, now, stored.legs, links, stored.fields⟩, ⟨book, seq⟩)

def lotsOfLog (log : List StoredPosting) : LotIndex :=
  log.zipIdx.foldl (fun lots row => (lottedAccounts row.1.legs).foldl (pushLot row.2) lots)
    Table.empty

def columnsOfLog (log : List StoredPosting) : Columns :=
  log.foldl (fun columns row => row.legs.foldl appendDelta columns) Table.empty

def pruneFromLog (txnIds : List String) (l : MemoryLedger) : MemoryLedger :=
  let prior := l.tables
  let kept := prior.log.filter (·.txnId ∉ txnIds)
  if kept.length = prior.log.length then l
  else
    let pruned : LedgerTables :=
      { prior with log := kept, lotIndexByAccount := lotsOfLog kept, deltaColumns := columnsOfLog kept }
    { l with
      book := l.book.write pruned fun t =>
        { t with
          log := prior.log
          lotIndexByAccount := prior.lotIndexByAccount
          deltaColumns := prior.deltaColumns } }

/-- Zero legs are dropped first, then the four checks run, then the row is appended. -/
def postEntry (digest : Digest) (now : Int) (posting : Posting) (l : MemoryLedger) :
    Except Fault Transaction × MemoryLedger :=
  let cleaned := dropZeroLegs posting
  let checks : Except Fault Unit := do
    assertSingleCurrencyPerLeg cleaned
    assertBalanced cleaned
    assertKnownAccounts isKnownAccount cleaned
    assertNoOverdraft l.tables.balance cleaned
  match checks with
  | .error e => (.error e, l)
  | .ok () => append digest now cleaned l

end EconomyLab

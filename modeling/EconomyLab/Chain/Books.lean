import EconomyLab.Chain.Seal

/-!
# The books of one store

The ledger with the checkpoint store beside it and the cold store postings are moved to.
The heads a ledger lists are those of the accounts ever posted to, archived or not.
-/

namespace EconomyLab

open Foundation

/-- `accounts` are the keys of the ledger's head and balance maps, in the order they came. -/
structure Books where
  ledger : MemoryLedger
  accounts : List AccountRef
  checkpoints : CheckpointStore
  sink : List StoredPosting

def Books.start : Books := ⟨createLedgerStore, [], createCheckpointStore, []⟩

def rawAmounts (legs : List Leg) : List (AccountRef × Int) :=
  legs.map fun leg => (leg.account, leg.amount.minor)

/-- An account's raw signed leg total, debit positive. -/
def rawSum (rows : List StoredPosting) (account : AccountRef) : Int :=
  total (rawAmounts (legsOf rows)) account

namespace Books

def log (s : Books) : List StoredPosting := s.ledger.tables.log

def heads (s : Books) : List (AccountRef × String) :=
  sortHeads (s.accounts.filterMap fun account =>
    (s.ledger.tables.heads.get account).map fun head => (account, head))

def headSums (s : Books) : List SealHead :=
  s.heads.map fun p => ⟨p.1, p.2, rawSum s.log p.1⟩

/-- The ledger as the provers read it. -/
def view (s : Books) : ChainView := ⟨s.heads, s.headSums, lineageOf s.log⟩

def post (digest : Digest) (now : Int) (posting : Posting) (s : Books) :
    Except Fault Transaction × Books :=
  match postEntry digest now posting s.ledger with
  | (.error e, ledger) => (.error e, { s with ledger })
  | (.ok txn, ledger) =>
    let fresh := (distinctAccounts txn.legs).filter (· ∉ s.accounts)
    (.ok txn, { s with ledger, accounts := s.accounts ++ fresh })

/-- `recordCheckpoint` over these books; a fault leaves them as they were. -/
def record (digest : Digest) (signer : Signer) (now : Int) (id : String) (crashed : Bool) (s : Books) :
    Books :=
  match recordCheckpoint digest signer s.view s.checkpoints now id crashed with
  | .error _ => s
  | .ok (_, checkpoints) => { s with checkpoints }

end Books

@[simp] theorem rawAmounts_nil : rawAmounts [] = [] := rfl

@[simp] theorem rawAmounts_append (legs legs' : List Leg) :
    rawAmounts (legs ++ legs') = rawAmounts legs ++ rawAmounts legs' := by
  simp [rawAmounts]

@[simp] theorem rawSum_nil (account : AccountRef) : rawSum [] account = 0 := rfl

@[simp] theorem rawSum_append (rows rows' : List StoredPosting) (account : AccountRef) :
    rawSum (rows ++ rows') account = rawSum rows account + rawSum rows' account := by
  simp [rawSum]

theorem rawSum_eq_zero {rows : List StoredPosting} {account : AccountRef}
    (h : account ∉ (legsOf rows).map Leg.account) : rawSum rows account = 0 := by
  apply total_eq_zero
  simpa [rawAmounts] using h

/-- A raw sum is a balance with the sign of the account's normal side. -/
theorem rawSum_eq_deltas (rows : List StoredPosting) (account : AccountRef) :
    rawSum rows account =
      (if isDebitNormal account then 1 else -1) * total (deltas (legsOf rows)) account := by
  unfold rawSum
  induction legsOf rows with
  | nil => simp
  | cons leg legs ih =>
    rw [deltas_cons, total_cons, mul_add, ← ih]
    have hleg : rawAmounts (leg :: legs) = (leg.account, leg.amount.minor) :: rawAmounts legs := rfl
    rw [hleg, total_cons]
    congr 1
    by_cases ha : leg.account = account
    · subst ha
      by_cases hd : isDebitNormal leg.account = true <;> simp [Leg.delta, hd]
    · simp [ha]

end EconomyLab

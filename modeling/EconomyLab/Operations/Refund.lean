import EconomyLab.Operations.Corrections

/-!
# Refunds

The buyer gets back what the sale took, and every account the sale raised gives back what it still
holds; the rest is owed to the platform. Under the accrual split the seller side goes by the
order's rows: a pending share is taken out of its shard, a drained one becomes debt of the seller.
-/

namespace EconomyLab

open Foundation Text

def requireOrderId (orderId : String) : Except Fault Unit :=
  if isBlank orderId then .error (fault .malformedOperation "refund.orderId must not be blank.")
  else .ok ()

/-- The posting a sales row names, re-proved against its links. -/
def salePosting (digest : Digest) (t : LedgerTables) (sale : Sale) : Except Fault Posting := do
  match ← verifiedPosting digest t sale.txnId with
  | none => .error (fault .chainBroken
      "A sales row names a posting the ledger does not hold; refusing to reverse unverifiable history.")
  | some posting => .ok posting

def legKey (leg : Leg) : String :=
  leg.account ++ "|" ++ leg.amount.currency.text ++ "|" ++ toString leg.amount.minor

/-- The row and its posting hold the same legs, in whatever order. -/
def assertSaleMatchesPosting (sale : Sale) (posting : Posting) : Except Fault Unit :=
  if sortStrings (posting.legs.map legKey) = sortStrings (sale.legs.map legKey) then .ok ()
  else .error (fault .chainBroken
    "A sales row no longer matches its verified posting; refusing to reverse tampered history.")

structure AccountDelta where
  account : AccountRef
  delta : Int
  currency : Currency

def currencyOn (legs : List Leg) (account : AccountRef) : Currency :=
  ((legs.find? (·.account = account)).map (·.amount.currency)).getD .credit

/-- The lines summed per account, in the order the accounts come. -/
def foldDeltas (legs : List Leg) : Except Fault (List AccountDelta) := do
  let effects ← legs.mapM fun leg => do return (leg.account, (← balanceDelta leg).minor)
  return (tally effects).map fun moved => ⟨moved.1, moved.2, currencyOn legs moved.1⟩

def raiseLeg (account : AccountRef) (currency : Currency) (minor : Int) : Except Fault Leg := do
  let amount ← toAmount currency minor
  return ⟨account, ← toAmount currency (amount.minor * if isDebitNormal account then 1 else -1)⟩

def lowerLeg (account : AccountRef) (currency : Currency) (minor : Int) : Except Fault Leg := do
  let amount ← toAmount currency minor
  return ⟨account, ← toAmount currency (amount.minor * if isDebitNormal account then -1 else 1)⟩

/-- What is raised in full, what is taken back as far as it is there, and what is missing. -/
structure Coverage where
  uncapped : List AccountDelta
  capped : List AccountDelta
  shortfall : Int

/-- How much of a clawback the account can give. -/
def coveredOf (balance : AccountRef → Except Fault Amount) (d : AccountDelta) : Except Fault Int := do
  let onHand := (← balance d.account).minor
  return if onHand < d.delta then (if onHand > 0 then onHand else 0) else d.delta

def coverageOf (balance : AccountRef → Except Fault Amount) : List AccountDelta → Except Fault Coverage
  | [] => .ok ⟨[], [], 0⟩
  | d :: deltas =>
    if d.delta = 0 then coverageOf balance deltas
    else if d.delta < 0 then do
      let rest ← coverageOf balance deltas
      return { rest with uncapped := { d with delta := -d.delta } :: rest.uncapped }
    else do
      let covered ← coveredOf balance d
      let rest ← coverageOf balance deltas
      return { rest with
        capped := if covered > 0 then { d with delta := covered } :: rest.capped else rest.capped
        shortfall := (d.delta - covered) + rest.shortfall }

def receivableLegs (minor : Int) : Except Fault (List Leg) :=
  if minor > 0 then do return [← raiseLeg SYSTEM.RECEIVABLE .credit minor] else .ok []

def reversalLegs (coverage : Coverage) : Except Fault (List Leg) := do
  let raised ← coverage.uncapped.mapM fun u => raiseLeg u.account u.currency u.delta
  let lowered ← coverage.capped.mapM fun c => lowerLeg c.account c.currency c.delta
  return raised ++ lowered ++ (← receivableLegs coverage.shortfall)

/-! ## A sale with accrual rows -/

/-- Every row a charge created is an original share: seq 0, and the amount sealed in its posting. -/
def rowMatchesShare (posting : Posting) (row : AccrualRow) : Except Fault Bool :=
  match posting.fields.lookup "shares" with
  | some (.object shares) =>
    match metaText shares row.sellerId with
    | some expected =>
      if row.seq = 0 then do return decide ((← bigIntOf expected) = row.amount.minor) else .ok false
    | none => .ok false
  | _ => .ok false

def assertRowsMatchShares (rows : List AccrualRow) (posting : Posting) : Except Fault Unit := do
  if ← rows.allM (rowMatchesShare posting) then .ok ()
  else .error (fault .chainBroken
    ("An accrual row does not match the share map sealed in its posting; refusing to reverse tampered " ++
      "history."))

def isShare (status : AccrualStatus) (row : AccrualRow) : Bool :=
  row.status = status && 0 < row.amount.minor

def loweredLegs (d : AccountDelta) (covered : Int) : Except Fault (List Leg) :=
  if covered > 0 then do return [← lowerLeg d.account d.currency covered] else .ok []

/-- The lines of the house and of the buyer; the accrual shards go by their rows. -/
def houseLegs (balance : AccountRef → Except Fault Amount) :
    List AccountDelta → Except Fault (List Leg × Int)
  | [] => .ok ([], 0)
  | d :: deltas =>
    if d.delta = 0 then houseLegs balance deltas
    else if d.delta < 0 then do
      let leg ← raiseLeg d.account d.currency (-d.delta)
      let rest ← houseLegs balance deltas
      return (leg :: rest.1, rest.2)
    else if baseOf d.account = SYSTEM.SETTLEMENT_ACCRUAL then houseLegs balance deltas
    else do
      let covered ← coveredOf balance d
      let lowered ← loweredLegs d covered
      let rest ← houseLegs balance deltas
      return (lowered ++ rest.1, (d.delta - covered) + rest.2)

def clawedAccounts (deltas : List AccountDelta) : List AccountRef :=
  (deltas.filter fun d => 0 < d.delta).map AccountDelta.account

def accrualReversalLegs (deltas : List AccountDelta) (pending drained : List AccrualRow)
    (balance : AccountRef → Except Fault Amount) : Except Fault (List Leg) := do
  let house ← houseLegs balance deltas
  let parked ← pending.mapM fun row => lowerLeg row.shard row.amount.currency row.amount.minor
  let paid ← receivableLegs (drained.map (·.amount.minor)).sum
  return house.1 ++ parked ++ paid ++ (← receivableLegs house.2)

def AccrualRow.place (row : AccrualRow) : String × String × Nat := (row.orderId, row.sellerId, row.seq)

/-- The first free `seq` of an order and a seller. -/
def nextSeq (rows : List AccrualRow) (orderId sellerId : String) : Nat :=
  ((rows.filter fun row => row.orderId ++ "::" ++ row.sellerId = orderId ++ "::" ++ sellerId).map
    (·.seq + 1)).foldl max 0

/-- One negative row for each drained share, past the rows that are there. -/
def recoveryRowsOf (txnId : String) (now : Int) : List AccrualRow → List AccrualRow →
    Except Fault (List AccrualRow)
  | _, [] => .ok []
  | claimed, row :: drained => do
    let recovery : AccrualRow := { row with
      seq := nextSeq claimed row.orderId row.sellerId
      amount := ← toAmount .credit (-row.amount.minor)
      status := .pending
      txnId := txnId
      settledTxnId := none
      recordedAt := now }
    return recovery :: (← recoveryRowsOf txnId now (claimed ++ [recovery]) drained)

/-- The lines of a reversal, and what each seller owes for a share that was drained. -/
structure Reversal where
  legs : List Leg
  recovered : List AccrualRow

def refundMeta (operation : RefundOperation) (sale : Sale) (recovered : List AccrualRow) : Meta :=
  [("kind", .string "refund"), ("orderId", .string operation.orderId),
    ("reversedTxnId", .string sale.txnId)] ++ textField "reason" operation.reason ++
  if recovered = [] then []
  else [("recovered", .object
    ((recovered.foldl (fun (shares : OrderedTable String Json) row =>
      shares.set row.sellerId (.string (toString row.amount.minor))) OrderedTable.empty).entries))]

def rowsOfOrder (w : World) (orderId : String) : List AccrualRow :=
  (w.accruals.rows.order.filterMap w.accruals.rows.rows.get).filter (·.orderId = orderId)

def saleRowsOf (sale : Sale) (claimed : List AccrualRow) : List AccrualRow :=
  claimed.filter (·.txnId = sale.txnId)

def reverseSale (posting : Posting) : Work Reversal := do
  let deltas ← Work.lift (foldDeltas posting.legs)
  let coverage ← Work.reading (clawedAccounts deltas) (coverageOf · deltas)
  let legs ← Work.lift (reversalLegs coverage)
  return ⟨legs, []⟩

def reverseParked (env : Env) (posting : Posting) (claimed saleRows : List AccrualRow) (txnId : String) :
    Work Reversal := do
  Work.lift (assertRowsMatchShares saleRows posting)
  let pending := saleRows.filter (isShare .pending)
  let drained := saleRows.filter (isShare .drained)
  let deltas ← Work.lift (foldDeltas posting.legs)
  let legs ← Work.reading (clawedAccounts deltas) (accrualReversalLegs deltas pending drained)
  Work.markAccruals (pending.map AccrualRow.place) .refunded txnId
  if drained = [] then return ⟨legs, []⟩
  else do
    let now ← Work.now env
    let rows ← Work.lift (recoveryRowsOf txnId now claimed drained)
    Work.putAccruals rows
    return ⟨legs, drained⟩

/-- From the claim of the reversal key on. The sale's rows decide, not the accrual setting. -/
def reverseOrder (env : Env) (operation : RefundOperation) (sale : Sale) (posting : Posting) :
    Work Transaction := do
  let txnId ← Work.mint env "txn"
  let claimed ← Work.read (fun w => .ok (rowsOfOrder w sale.orderId)) fun _ => rfl
  let saleRows := saleRowsOf sale claimed
  let reversal ← if saleRows = [] then reverseSale posting
    else reverseParked env posting claimed saleRows txnId
  Work.postEntry env ⟨txnId, reversal.legs, refundMeta operation sale reversal.recovered⟩

def refund (env : Env) (operation : RefundOperation) : Work Outcome := do
  Work.lift (requireOrderId operation.orderId)
  match ← Work.findSale operation.orderId with
  | none => return .rejected (.unknownOrder operation.orderId)
  | some sale => do
    let posting ← Work.read (fun w => salePosting env.digest w.ledger.tables sale) fun _ => rfl
    Work.lift (assertSaleMatchesPosting sale posting)
    Work.lockAll (posting.legs.map Leg.account)
    Work.claiming env (reversalKey operation.orderId) (reversalKey_reversal _) answerDuplicate
      (do
        let transaction ← reverseOrder env operation sale posting
        return .inl transaction)
      fun transaction => do
        Work.entitlement (.revoke (sale.recipientId.getD sale.buyerId) sale.sku)
        return .committed transaction

variable {minor : Int} {legs : List Leg}

theorem raiseLeg_account {account : AccountRef} {currency : Currency} {leg : Leg}
    (h : raiseLeg account currency minor = .ok leg) : leg.account = account := by
  obtain ⟨_, -, h⟩ := except_bind_ok.mp h
  obtain ⟨_, -, h⟩ := except_bind_ok.mp h
  exact (except_pure_ok.mp h) ▸ rfl

theorem lowerLeg_account {account : AccountRef} {currency : Currency} {leg : Leg}
    (h : lowerLeg account currency minor = .ok leg) : leg.account = account := by
  obtain ⟨_, -, h⟩ := except_bind_ok.mp h
  obtain ⟨_, -, h⟩ := except_bind_ok.mp h
  exact (except_pure_ok.mp h) ▸ rfl

theorem receivableLegs_accounts (h : receivableLegs minor = .ok legs) :
    ∀ leg ∈ legs, leg.account = SYSTEM.RECEIVABLE := by
  unfold receivableLegs at h
  split at h
  · obtain ⟨line, hline, h⟩ := except_bind_ok.mp h
    obtain rfl := except_pure_ok.mp h
    intro leg hleg
    obtain rfl := List.mem_singleton.mp hleg
    exact raiseLeg_account hline
  · obtain rfl := Except.ok.inj h
    exact fun leg hleg => absurd hleg List.not_mem_nil

theorem foldDeltas_accounts {folded : List AccountDelta} (h : foldDeltas legs = .ok folded) :
    ∀ d ∈ folded, d.account ∈ legs.map Leg.account := by
  obtain ⟨effects, heffects, h⟩ := except_bind_ok.mp h
  obtain rfl := except_pure_ok.mp h
  intro d hd
  obtain ⟨moved, hmoved, rfl⟩ := List.mem_map.mp hd
  have hkey : moved.1 ∈ effects.map Prod.fst :=
    (tally_keys effects moved.1).mp (List.mem_map_of_mem hmoved)
  obtain ⟨effect, heffect, hfst⟩ := List.mem_map.mp hkey
  obtain ⟨leg, hleg, hline⟩ := mem_mapM_ok heffects effect heffect
  obtain ⟨_, -, hline⟩ := except_bind_ok.mp hline
  obtain rfl := except_pure_ok.mp hline
  exact List.mem_map.mpr ⟨leg, hleg, hfst⟩

section Legs

variable {balance : AccountRef → Except Fault Amount} {folded : List AccountDelta}

theorem coverageOf_accounts {coverage : Coverage} (h : coverageOf balance folded = .ok coverage) :
    ∀ d ∈ coverage.uncapped ++ coverage.capped, d.account ∈ folded.map AccountDelta.account := by
  induction folded generalizing coverage with
  | nil =>
    obtain rfl := Except.ok.inj h
    exact fun d hd => absurd hd List.not_mem_nil
  | cons first folded ih =>
    unfold coverageOf at h
    split at h
    · exact fun d hd => List.mem_cons_of_mem _ (ih h d hd)
    · split at h
      · obtain ⟨rest, hrest, h⟩ := except_bind_ok.mp h
        obtain rfl := except_pure_ok.mp h
        intro d hd
        rcases List.mem_cons.mp hd with rfl | hd
        · exact List.mem_cons_self
        · exact List.mem_cons_of_mem _ (ih hrest d hd)
      · obtain ⟨covered, -, h⟩ := except_bind_ok.mp h
        obtain ⟨rest, hrest, h⟩ := except_bind_ok.mp h
        obtain rfl := except_pure_ok.mp h
        intro d hd
        rcases List.mem_append.mp hd with hd | hd
        · exact List.mem_cons_of_mem _ (ih hrest d (List.mem_append_left _ hd))
        · simp only at hd
          split at hd
          · rcases List.mem_cons.mp hd with rfl | hd
            · exact List.mem_cons_self
            · exact List.mem_cons_of_mem _ (ih hrest d (List.mem_append_right _ hd))
          · exact List.mem_cons_of_mem _ (ih hrest d (List.mem_append_right _ hd))

theorem reversalLegs_accounts {coverage : Coverage} (h : reversalLegs coverage = .ok legs) :
    ∀ leg ∈ legs, leg.account ∈ (coverage.uncapped ++ coverage.capped).map AccountDelta.account ∨
      leg.account = SYSTEM.RECEIVABLE := by
  obtain ⟨raised, hraised, h⟩ := except_bind_ok.mp h
  obtain ⟨lowered, hlowered, h⟩ := except_bind_ok.mp h
  obtain ⟨owed, howed, h⟩ := except_bind_ok.mp h
  obtain rfl := except_pure_ok.mp h
  intro leg hleg
  simp only [List.mem_append] at hleg
  rcases hleg with (hleg | hleg) | hleg
  · obtain ⟨d, hd, hline⟩ := mem_mapM_ok hraised leg hleg
    exact Or.inl (List.mem_map.mpr ⟨d, List.mem_append_left _ hd, (raiseLeg_account hline).symm⟩)
  · obtain ⟨d, hd, hline⟩ := mem_mapM_ok hlowered leg hleg
    exact Or.inl (List.mem_map.mpr ⟨d, List.mem_append_right _ hd, (lowerLeg_account hline).symm⟩)
  · exact Or.inr (receivableLegs_accounts howed leg hleg)

theorem loweredLegs_accounts {d : AccountDelta} {covered : Int}
    (h : loweredLegs d covered = .ok legs) : ∀ leg ∈ legs, leg.account = d.account := by
  unfold loweredLegs at h
  split at h
  · obtain ⟨line, hline, h⟩ := except_bind_ok.mp h
    obtain rfl := except_pure_ok.mp h
    intro leg hleg
    obtain rfl := List.mem_singleton.mp hleg
    exact lowerLeg_account hline
  · obtain rfl := Except.ok.inj h
    exact fun leg hleg => absurd hleg List.not_mem_nil

theorem houseLegs_accounts {house : List Leg × Int} (h : houseLegs balance folded = .ok house) :
    ∀ leg ∈ house.1, leg.account ∈ folded.map AccountDelta.account := by
  induction folded generalizing house with
  | nil =>
    obtain rfl := Except.ok.inj h
    exact fun leg hleg => absurd hleg List.not_mem_nil
  | cons first folded ih =>
    unfold houseLegs at h
    split at h
    · exact fun leg hleg => List.mem_cons_of_mem _ (ih h leg hleg)
    · split at h
      · obtain ⟨line, hline, h⟩ := except_bind_ok.mp h
        obtain ⟨rest, hrest, h⟩ := except_bind_ok.mp h
        obtain rfl := except_pure_ok.mp h
        intro leg hleg
        rcases List.mem_cons.mp hleg with rfl | hleg
        · exact List.mem_cons.mpr (Or.inl (raiseLeg_account hline))
        · exact List.mem_cons_of_mem _ (ih hrest leg hleg)
      · split at h
        · exact fun leg hleg => List.mem_cons_of_mem _ (ih h leg hleg)
        · obtain ⟨covered, -, h⟩ := except_bind_ok.mp h
          obtain ⟨lowered, hlowered, h⟩ := except_bind_ok.mp h
          obtain ⟨rest, hrest, h⟩ := except_bind_ok.mp h
          obtain rfl := except_pure_ok.mp h
          intro leg hleg
          rcases List.mem_append.mp hleg with hleg | hleg
          · exact List.mem_cons.mpr (Or.inl (loweredLegs_accounts hlowered leg hleg))
          · exact List.mem_cons_of_mem _ (ih hrest leg hleg)

/-- The lines of an accrual reversal are on accounts of the sale, on the receivable, or on shards
that pending rows name. -/
theorem accrualReversalLegs_accounts {pending drained : List AccrualRow}
    (h : accrualReversalLegs folded pending drained balance = .ok legs) :
    ∀ leg ∈ legs, leg.account ∈ folded.map AccountDelta.account ∨ leg.account = SYSTEM.RECEIVABLE ∨
      ∃ row ∈ pending, leg.account = row.shard := by
  obtain ⟨house, hhouse, h⟩ := except_bind_ok.mp h
  obtain ⟨parked, hparked, h⟩ := except_bind_ok.mp h
  obtain ⟨paid, hpaid, h⟩ := except_bind_ok.mp h
  obtain ⟨owed, howed, h⟩ := except_bind_ok.mp h
  obtain rfl := except_pure_ok.mp h
  intro leg hleg
  simp only [List.mem_append] at hleg
  rcases hleg with ((hleg | hleg) | hleg) | hleg
  · exact Or.inl (houseLegs_accounts hhouse leg hleg)
  · obtain ⟨row, hrow, hline⟩ := mem_mapM_ok hparked leg hleg
    exact Or.inr (Or.inr ⟨row, hrow, lowerLeg_account hline⟩)
  · exact Or.inr (Or.inl (receivableLegs_accounts hpaid leg hleg))
  · exact Or.inr (Or.inl (receivableLegs_accounts howed leg hleg))

end Legs

theorem refund_calm (env : Env) (operation : RefundOperation) :
    Work.Yields (refund env operation) Calm := by
  apply Work.Yields.bind
  intro _
  apply Work.Yields.bind
  intro found
  cases found with
  | none => exact Work.Yields.pure (by exact nofun)
  | some sale =>
    apply Work.Yields.bind
    intro posting
    apply Work.Yields.bind
    intro _
    apply Work.Yields.bind
    intro _
    apply Work.Yields.claiming
    · exact fun transaction => Work.Yields.pure (calm_duplicate transaction)
    · apply Work.Yields.bind
      intro transaction
      apply Work.Yields.pure
      exact fun outcome h => absurd h Sum.inl_ne_inr
    · intro transaction
      apply Work.Yields.bind
      exact fun _ => Work.Yields.pure (calm_committed transaction)

end EconomyLab

import EconomyLab.Chain.Resealing

/-!
# Proving the economy

The prover re-derives every balance from the archived baseline and the legs left in the log, and
compares it with the stored one. Conservation is read off the legs that are left; backing and
overdraft off the stored balances.
-/

namespace EconomyLab

open Foundation

def FOLD_MIN_LEGS : Nat := 256

/-- Every value and every running total must be storable. -/
def foldRef (values : List Int) : Except Fault Int :=
  values.foldlM (fun sum value => do
    let value ← checkI64 value
    checkI64 (sum + value)) 0

/-- Short columns are summed in a plain loop, long ones by a fold that checks on its way. -/
def foldColumn (column : List Int) : Except Fault Int :=
  if column.length < FOLD_MIN_LEGS then .ok column.sum
  else
    match foldRef column with
    | .ok sum => .ok sum
    | .error _ => .error (fault .amountOverflow
      "Re-derived balance leaves the 64-bit range the ledger stores.")

def LedgerTables.derivedBalances (t : LedgerTables) (account : AccountRef) : Except Fault (List Amount) :=
  match t.deltaColumns.get account with
  | none => .ok []
  | some columns =>
    ([Currency.credit, Currency.usd].filterMap fun cur =>
      (columns.get cur).map fun column => (cur, column)).mapM fun p => do
        toAmount p.1 (← foldColumn p.2)

structure BackingTotals where
  custodialCreditMinor : Int
  trustCashMinor : Int

def isCustodialCredit (account : AccountRef) : Bool :=
  classify account = .custodial && currency account = .credit

def isTrustCashShard (account : AccountRef) : Bool := baseOf account = SYSTEM.TRUST_CASH

def foldBackingAccount (totals : BackingTotals) (account : AccountRef) (balanceMinor : Int) :
    BackingTotals where
  custodialCreditMinor := totals.custodialCreditMinor + if isCustodialCredit account then
    balanceMinor else 0
  trustCashMinor := totals.trustCashMinor + if isTrustCashShard account then balanceMinor else 0

def backingRequiredMinor (custodialCreditMinor : Int) (par : Rate) : Except Fault Int := do
  let custodial ← toAmount .credit custodialCreditMinor
  return (← convertFloor custodial par .usd).minor

def backingShortfallMinor (requiredMinor trustCashMinor : Int) : Int :=
  if trustCashMinor < requiredMinor then requiredMinor - trustCashMinor else 0

/-! ## One pass over the ledger -/

structure Drift where
  account : AccountRef
  materialized : Amount
  derived : Amount

structure LedgerFold where
  signedByCurrency : OrderedTable Currency Int
  backing : BackingTotals
  anyUserNegative : Bool
  drift : List Drift

/-- Archived raw sums with the sign of the account's normal side. -/
def balanceBaselines : Option ArchiveBoundary → OrderedTable AccountRef Int
  | none => OrderedTable.empty
  | some boundary => OrderedTable.empty.setAll (boundary.rawSums.entries.map fun p =>
      (p.1, p.2 * if isDebitNormal p.1 then 1 else -1))

/-- The derived balance, and the conservation totals with its raw amounts added. -/
def accumulateLegs (t : LedgerTables) (account : AccountRef)
    (signedByCurrency : OrderedTable Currency Int) :
    Except Fault (Int × OrderedTable Currency Int) := do
  let sign : Int := if isDebitNormal account then 1 else -1
  let balances ← t.derivedBalances account
  return balances.foldl (fun acc derived => (acc.1 + derived.minor,
    acc.2.set derived.currency ((acc.2.get derived.currency).getD 0 + derived.minor * sign)))
      (0, signedByCurrency)

def pushIfDrifted (account : AccountRef) (materialized : Amount) (derivedMinor : Int)
    (drift : List Drift) :
    Except Fault (List Drift) :=
  if materialized.minor ≠ derivedMinor then do
    return drift ++ [⟨account, materialized, ← toAmount (currency account) derivedMinor⟩]
  else .ok drift

def LedgerFold.stored (fold : LedgerFold) (account : AccountRef) (balance : Amount) : LedgerFold :=
  { fold with
    backing := foldBackingAccount fold.backing account balance.minor
    anyUserNegative := fold.anyUserNegative || (isWalletAccount account && balance.minor < 0) }

def foldHead (t : LedgerTables) (baselines : OrderedTable AccountRef Int) (fold : LedgerFold)
    (account : AccountRef) : Except Fault LedgerFold := do
  let (legsMinor, signedByCurrency) ← accumulateLegs t account fold.signedByCurrency
  let balance ← t.balance account
  let drift ← pushIfDrifted account balance ((baselines.get account).getD 0 + legsMinor) fold.drift
  return { fold with signedByCurrency, drift }.stored account balance

/-- A balance row without a head. -/
def foldUnvisited (t : LedgerTables) (baselines : OrderedTable AccountRef Int) (fold : LedgerFold)
    (account : AccountRef) : Except Fault LedgerFold := do
  let balance ← t.balance account
  let drift ← pushIfDrifted account balance ((baselines.get account).getD 0) fold.drift
  let fold := { fold with drift }
  return if baselines.has account then fold.stored account balance else fold

def Books.balanceAccounts (s : Books) : List AccountRef :=
  Text.sortStrings (s.accounts.filter fun account => s.ledger.tables.balances.has account)

def foldLedger (s : Books) (baselines : OrderedTable AccountRef Int) : Except Fault LedgerFold := do
  let seen := s.heads.map Prod.fst
  let fold ← seen.foldlM (foldHead s.ledger.tables baselines) ⟨OrderedTable.empty, ⟨0, 0⟩, false, []⟩
  (s.balanceAccounts.filter (· ∉ seen)).foldlM (foldUnvisited s.ledger.tables baselines) fold

def everyCurrencyBalances (signedByCurrency : OrderedTable Currency Int) : Bool :=
  signedByCurrency.values.all (· = 0)

structure ProveReport where
  conserved : Bool
  backed : Bool
  noOverdraft : Bool
  chainIntact : Bool
  consistent : Bool
  drift : List Drift
  shortfall : Amount

def proveBoundary (digest : Digest) (signer : Option Signer) (store : CheckpointStore) :
    Except Fault (Option ArchiveBoundary) :=
  match signer with
  | some signer => loadArchiveBoundary digest signer store
  | none =>
    if store.archive.isSome then
      .error (fault .configInvalid ("This store has an archived prefix but the prover was built without " ++
        "a signer; the boundary cannot be authenticated."))
    else .ok none

def proveEconomy (digest : Digest) (signer : Option Signer) (par : Rate) (s : Books) :
    Except Fault ProveReport := do
  let boundary ← proveBoundary digest signer s.checkpoints
  let fold ← foldLedger s (balanceBaselines boundary)
  let required ← backingRequiredMinor fold.backing.custodialCreditMinor par
  let shortfallMinor := backingShortfallMinor required fold.backing.trustCashMinor
  let chain ← proveChain digest boundary s.view
  return {
    conserved := everyCurrencyBalances fold.signedByCurrency
    backed := shortfallMinor = 0
    noOverdraft := !fold.anyUserNegative
    chainIntact := chain.intact
    consistent := fold.drift.isEmpty
    drift := fold.drift
    shortfall := ← toAmount .usd shortfallMinor }

/-! ## Columns that fold -/

/-- A column whose sum is storable, and its running totals where they are checked. -/
def FoldFits (column : List Int) : Prop :=
  I64 column.sum ∧ (FOLD_MIN_LEGS ≤ column.length → ∀ n, I64 (column.take n).sum)

theorem foldRef_ok {values : List Int} (hv : ∀ v ∈ values, I64 v) (ht : ∀ n, I64 (values.take n).sum) :
    foldRef values = .ok values.sum := by
  have key : ∀ start : Int, (∀ n, I64 (start + (values.take n).sum)) →
      values.foldlM (fun sum value => do
        let value ← checkI64 value
        checkI64 (sum + value)) start = .ok (start + values.sum) := by
    clear ht
    induction values with
    | nil => intro start _; simp [pure, Except.pure]
    | cons value values ih =>
      intro start ht
      have hvalue : checkI64 value = .ok value := checkI64_eq_ok.mpr ⟨hv value List.mem_cons_self, rfl⟩
      have hnext : checkI64 (start + value) = .ok (start + value) := by
        apply checkI64_eq_ok.mpr
        refine ⟨?_, rfl⟩
        simpa using ht 1
      rw [List.foldlM_cons, hvalue]
      simp only [bind, Except.bind, hnext]
      have hrest := ih (fun v hm => hv v (List.mem_cons_of_mem _ hm)) (start + value) (by
        intro n
        have htail := ht (n + 1)
        rwa [List.take_succ_cons, List.sum_cons, ← add_assoc] at htail)
      rw [List.sum_cons, ← add_assoc]
      exact hrest
  have hzero := key 0 (by simpa using ht)
  rwa [zero_add] at hzero

theorem foldColumn_ok {column : List Int} (hv : ∀ v ∈ column, I64 v) (h : FoldFits column) :
    foldColumn column = .ok column.sum := by
  unfold foldColumn
  split
  · rfl
  · rename_i hlong
    rw [foldRef_ok hv (h.2 (not_lt.mp hlong))]

/-- The raw amounts of the legs in one currency, each under its account. -/
def currencyRaw (legs : List Leg) (c : Currency) : List (AccountRef × Int) :=
  (legs.filter fun leg => leg.amount.currency = c).map fun leg => (leg.account, leg.amount.minor)

theorem currencyRaw_sum (legs : List Leg) (c : Currency) :
    ((currencyRaw legs c).map Prod.snd).sum = total (currencyAmounts legs) c := by
  induction legs with
  | nil => rfl
  | cons leg legs ih =>
    have hcur : currencyAmounts (leg :: legs) =
        (leg.amount.currency, leg.amount.minor) :: currencyAmounts legs := rfl
    rw [hcur, total_cons, ← ih]
    by_cases hc : leg.amount.currency = c <;> simp [currencyRaw, hc]

/-- A column holds the account's raw amounts with the sign of its normal side. -/
theorem columnDeltas_raw (legs : List Leg) (a : AccountRef) (c : Currency) :
    (columnDeltas legs a c).sum * (if isDebitNormal a then 1 else -1) = total (currencyRaw legs c) a := by
  induction legs with
  | nil => simp [currencyRaw]
  | cons leg legs ih =>
    rw [columnDeltas_cons, List.sum_append, add_mul, ih]
    by_cases hc : leg.amount.currency = c
    · by_cases ha : leg.account = a
      · subst ha
        have hraw : currencyRaw (leg :: legs) c =
            (leg.account, leg.amount.minor) :: currencyRaw legs c := by
          simp [currencyRaw, hc]
        rw [hraw, total_cons, if_pos rfl]
        by_cases hd : isDebitNormal leg.account = true <;> simp [columnDeltas, hc, Leg.delta, hd]
      · have hraw : currencyRaw (leg :: legs) c =
            (leg.account, leg.amount.minor) :: currencyRaw legs c := by
          simp [currencyRaw, hc]
        rw [hraw, total_cons, if_neg ha]
        simp [columnDeltas, ha]
    · have hraw : currencyRaw (leg :: legs) c = currencyRaw legs c := by
        simp [currencyRaw, hc]
      rw [hraw]
      simp [columnDeltas, hc]

theorem columnDeltas_total (legs : List Leg) (a : AccountRef) :
    (columnDeltas legs a .credit).sum + (columnDeltas legs a .usd).sum = total (deltas legs) a := by
  induction legs with
  | nil => rfl
  | cons leg legs ih =>
    rw [columnDeltas_cons leg legs a .credit, columnDeltas_cons leg legs a .usd, List.sum_append,
      List.sum_append, deltas_cons, total_cons, ← ih]
    by_cases ha : leg.account = a
    · cases hc : leg.amount.currency <;> simp [columnDeltas, ha, hc] <;> ring
    · simp [columnDeltas, ha]

def ColumnsFit (s : Books) : Prop := ∀ account c, FoldFits (columnDeltas (legsOf s.log) account c)

/-- What the amounts read for one account add to the totals. -/
theorem foldl_signed (sign : Int) (amounts : List Amount) {minor : Int}
    {signed : OrderedTable Currency Int}
    (hkeys : signed.keys.Nodup) {result : Int × OrderedTable Currency Int}
    (h : amounts.foldl (fun acc derived => (acc.1 + derived.minor,
      acc.2.set derived.currency ((acc.2.get derived.currency).getD 0 + derived.minor * sign)))
        (minor, signed) = result) :
    result.1 = minor + (amounts.map Amount.minor).sum ∧ result.2.keys.Nodup ∧
      ∀ c, (result.2.get c).getD 0 =
        (signed.get c).getD 0 + total (amounts.map fun d => (d.currency, d.minor * sign)) c := by
  induction amounts generalizing minor signed with
  | nil =>
    subst h
    simp [hkeys]
  | cons amount amounts ih =>
    rw [List.foldl_cons] at h
    obtain ⟨hminor, hkeys', hget⟩ := ih (OrderedTable.nodup_keys_set hkeys _ _) h
    refine ⟨?_, hkeys', ?_⟩
    · rw [hminor, List.map_cons, List.sum_cons, add_assoc]
    · intro c
      rw [hget, OrderedTable.get_set, List.map_cons, total_cons]
      by_cases hc : c = amount.currency
      · subst hc
        simp only [if_true, Option.getD_some]
        ring
      · rw [if_neg hc, if_neg fun he => hc he.symm, zero_add]

section Accumulating

variable {digest : Digest} {s : Books} {appended : List StoredPosting}

/-- The columns of an account are read as one amount a currency that it has legs in. -/
theorem derivedBalances_ok (hs : Faithful digest s appended) (hv : ∀ leg ∈ legsOf s.log, I64 leg.delta)
    (hfit : ColumnsFit s) (account : AccountRef) : ∃ present : Currency → Bool,
      (∀ c, present c = false → columnDeltas (legsOf s.log) account c = []) ∧
      s.ledger.tables.derivedBalances account = .ok (([Currency.credit, .usd].filter present).map fun c =>
        ⟨c, (columnDeltas (legsOf s.log) account c).sum, (hfit account c).1⟩) := by
  have hcolumns := hs.honest.indexes.columns
  unfold LedgerTables.derivedBalances
  cases hc : s.ledger.tables.deltaColumns.get account with
  | none =>
    refine ⟨fun _ => false, ?_, rfl⟩
    intro c _
    rw [← hcolumns]
    simp [columnEntries, hc]
  | some columns =>
    have hentries : ∀ c, (columns.get c).getD [] = columnDeltas (legsOf s.log) account c := by
      intro c
      rw [← hcolumns]
      simp [columnEntries, hc]
    refine ⟨fun c => (columns.get c).isSome, ?_, ?_⟩
    · intro c hnone
      rw [← hentries]
      cases hg : columns.get c with
      | none => rfl
      | some column => simp [hg] at hnone
    · have hread : ∀ c, (do toAmount c (← foldColumn (columnDeltas (legsOf s.log) account c))) =
          .ok ⟨c, (columnDeltas (legsOf s.log) account c).sum, (hfit account c).1⟩ := by
        intro c
        have hvalues : ∀ v ∈ columnDeltas (legsOf s.log) account c, I64 v := by
          intro v hm
          obtain ⟨leg, hl, rfl⟩ := List.mem_map.mp hm
          exact hv leg (List.mem_filter.mp hl).1
        rw [foldColumn_ok hvalues (hfit account c)]
        exact toAmount_ok (hfit account c).1
      have hpairs : ∀ cs : List Currency,
          (cs.filterMap fun cur => (columns.get cur).map fun column => (cur, column)) =
            (cs.filter fun c => (columns.get c).isSome).map fun c =>
              (c, columnDeltas (legsOf s.log) account c) := by
        intro cs
        induction cs with
        | nil => rfl
        | cons c cs ih =>
          have he := hentries c
          cases hg : columns.get c with
          | none => simp [hg, ih]
          | some column =>
            rw [hg, Option.getD_some] at he
            simp [hg, ih, he]
      simp only [hpairs]
      apply mapM_ok.mpr
      rw [List.forall₂_map_left_iff, List.forall₂_map_right_iff]
      exact List.forall₂_same.mpr fun c _ => hread c

/-- What the columns of an account come to: its derived balance and its raw amounts. -/
theorem accumulateLegs_ok (hs : Faithful digest s appended) (hv : ∀ leg ∈ legsOf s.log, I64 leg.delta)
    (hfit : ColumnsFit s) (account : AccountRef) {signed : OrderedTable Currency Int}
    (hkeys : signed.keys.Nodup) :
    ∃ signed', accumulateLegs s.ledger.tables account signed =
        .ok (total (deltas (legsOf s.log)) account, signed') ∧ signed'.keys.Nodup ∧
      ∀ c, (signed'.get c).getD 0 = (signed.get c).getD 0 + total (currencyRaw (legsOf s.log) c)
        account := by
  obtain ⟨present, habsent, hread⟩ := derivedBalances_ok hs hv hfit account
  unfold accumulateLegs
  rw [hread]
  obtain ⟨hminor, hkeys', hget⟩ := foldl_signed (if isDebitNormal account then 1 else -1)
    (([Currency.credit, .usd].filter present).map fun c =>
      ⟨c, (columnDeltas (legsOf s.log) account c).sum, (hfit account c).1⟩) hkeys rfl
  refine ⟨_, congrArg Except.ok (Prod.ext ?_ rfl), hkeys', ?_⟩
  · rw [hminor, ← columnDeltas_total]
    cases hcr : present .credit <;> cases hus : present .usd <;> simp [hcr, hus, habsent]
  · intro c
    rw [hget, ← columnDeltas_raw]
    cases hcr : present .credit <;> cases hus : present .usd <;> cases c <;>
      simp [hcr, hus, habsent, total_cons]

end Accumulating

def storedStep (t : LedgerTables) (acc : BackingTotals × Bool) (account : AccountRef) :
    BackingTotals × Bool :=
  (foldBackingAccount acc.1 account (t.balanceOf account),
    acc.2 || (isWalletAccount account && t.balanceOf account < 0))

/-- What is left of the verdict when nothing drifted and the chain holds: the stored balances
decide it. -/
def clearVerdict (par : Rate) (t : LedgerTables) (accounts : List AccountRef) : Except Fault ProveReport :=
  do
  let stored := accounts.foldl (storedStep t) (⟨0, 0⟩, false)
  let required ← backingRequiredMinor stored.1.custodialCreditMinor par
  let shortfallMinor := backingShortfallMinor required stored.1.trustCashMinor
  return {
    conserved := true
    backed := shortfallMinor = 0
    noOverdraft := !stored.2
    chainIntact := true
    consistent := true
    drift := []
    shortfall := ← toAmount .usd shortfallMinor }

section Verdict

variable {digest : Digest} {signer : Signer} {s : Books} {cut kept : List StoredPosting}

theorem Faithful.balanceOf {appended : List StoredPosting} (hs : Faithful digest s appended)
    (account : AccountRef) :
    s.ledger.tables.balanceOf account = total (deltas (legsOf appended)) account := by
  unfold LedgerTables.balanceOf
  rw [hs.honest.indexes.balances]
  split
  · rfl
  · rename_i hn
    symm
    apply total_eq_zero
    simpa [deltas] using hn

variable {boundary : Option ArchiveBoundary}

theorem CutAt.baseline (h : CutAt digest signer s cut kept)
    (hboundary : loadArchiveBoundary digest signer s.checkpoints = .ok boundary) (account : AccountRef) :
    ((balanceBaselines boundary).get account).getD 0 = total (deltas (legsOf cut)) account := by
  have hsign : ∀ x : Int, (if isDebitNormal account then 1 else -1) * x *
      (if isDebitNormal account then 1 else -1) = x := by
    intro x
    by_cases hd : isDebitNormal account = true <;> simp [hd]
  rcases loadArchiveBoundary_ok hboundary with ⟨hnone, rfl⟩ | ⟨-, rfl⟩
  · rw [h.fresh hnone]
    rfl
  · have hkeys : ((boundaryOf s.checkpoints.archiveHeads).rawSums.entries.map fun p =>
        (p.1, p.2 * if isDebitNormal p.1 then 1 else -1)).map Prod.fst =
          (boundaryOf s.checkpoints.archiveHeads).rawSums.keys := by
      simp [OrderedTable.keys, Function.comp_def]
    have hnodup : (boundaryOf s.checkpoints.archiveHeads).rawSums.keys.Nodup :=
      OrderedTable.nodup_keys_setAll (by simp) _
    have hget := boundaryOf_rawSums h.rows.keys account
    simp only [balanceBaselines]
    rw [OrderedTable.get_setAll (hkeys ▸ hnodup), OrderedTable.get_empty, Option.or_none]
    have hlookup := OrderedTable.lookup_map (fun a sum => sum * if isDebitNormal a then (1 : Int) else -1)
      account (boundaryOf s.checkpoints.archiveHeads).rawSums.entries
    rw [hlookup]
    have hrow : OrderedTable.lookup account (boundaryOf s.checkpoints.archiveHeads).rawSums.entries =
        (s.checkpoints.archiveHeadRows.get account).map HeadSum.sum := hget
    rw [hrow, h.rows.get]
    by_cases ha : account ∈ (legsOf cut).map Leg.account
    · rw [if_pos ha]
      simp only [Option.map_some, Option.getD_some, rawSum_eq_deltas, hsign]
    · rw [if_neg ha]
      symm
      apply total_eq_zero
      simpa [deltas] using ha

theorem foldHead_ok (h : CutAt digest signer s cut kept) (hs : Faithful digest s (cut ++ kept))
    (hv : ∀ leg ∈ legsOf s.log, I64 leg.delta) (hfit : ColumnsFit s)
    (hboundary : loadArchiveBoundary digest signer s.checkpoints = .ok boundary) {fold : LedgerFold}
    (hkeys : fold.signedByCurrency.keys.Nodup) (account : AccountRef) :
    ∃ next, foldHead s.ledger.tables (balanceBaselines boundary) fold account = .ok next ∧
      next.drift = fold.drift ∧
      (next.backing, next.anyUserNegative) =
        storedStep s.ledger.tables (fold.backing, fold.anyUserNegative) account ∧
      next.signedByCurrency.keys.Nodup ∧ ∀ c, (next.signedByCurrency.get c).getD 0 =
        (fold.signedByCurrency.get c).getD 0 + total (currencyRaw (legsOf s.log) c) account := by
  obtain ⟨signed, hlegs, hkeys', hget⟩ := accumulateLegs_ok hs hv hfit account hkeys
  have hbalance : s.ledger.tables.balance account =
      .ok ⟨currency account, s.ledger.tables.balanceOf account, hs.honest.inRange account⟩ := toAmount_ok _
  have hderived : s.ledger.tables.balanceOf account =
      ((balanceBaselines boundary).get account).getD 0 + total (deltas (legsOf s.log)) account := by
    rw [hs.balanceOf, h.baseline hboundary, h.log, legsOf_append]
    simp [deltas]
  have hclear : pushIfDrifted account ⟨currency account, s.ledger.tables.balanceOf account,
    hs.honest.inRange account⟩
      (((balanceBaselines boundary).get account).getD 0 + total (deltas (legsOf s.log)) account)
        fold.drift =
        .ok fold.drift := if_neg (not_not.mpr hderived)
  refine ⟨{ fold with signedByCurrency := signed }.stored account
    ⟨currency account, s.ledger.tables.balanceOf account, hs.honest.inRange account⟩, ?_, rfl, rfl,
      hkeys', hget⟩
  unfold foldHead
  simp only [hlegs, hbalance, hclear, bind, Except.bind]
  rfl

theorem foldHeads_ok (h : CutAt digest signer s cut kept) (hs : Faithful digest s (cut ++ kept))
    (hv : ∀ leg ∈ legsOf s.log, I64 leg.delta) (hfit : ColumnsFit s)
    (hboundary : loadArchiveBoundary digest signer s.checkpoints = .ok boundary)
    (accounts : List AccountRef) (fold : LedgerFold) (hkeys : fold.signedByCurrency.keys.Nodup) :
    ∃ next, accounts.foldlM (foldHead s.ledger.tables (balanceBaselines boundary)) fold = .ok next ∧
      next.drift = fold.drift ∧
      (next.backing, next.anyUserNegative) =
        accounts.foldl (storedStep s.ledger.tables) (fold.backing, fold.anyUserNegative) ∧
      next.signedByCurrency.keys.Nodup ∧ ∀ c, (next.signedByCurrency.get c).getD 0 =
        (fold.signedByCurrency.get c).getD
          0 + (accounts.map (total (currencyRaw (legsOf s.log) c))).sum := by
  induction accounts generalizing fold with
  | nil => exact ⟨fold, rfl, rfl, rfl, hkeys, fun c => by simp⟩
  | cons account accounts ih =>
    obtain ⟨next, hnext, hdrift, hstored, hkeys', hget⟩ := foldHead_ok h hs hv hfit hboundary hkeys account
    obtain ⟨last, hlast, hdrift', hstored', hkeys'', hget'⟩ := ih next hkeys'
    refine ⟨last, ?_, hdrift'.trans hdrift, ?_, hkeys'', ?_⟩
    · rw [List.foldlM_cons, hnext]
      exact hlast
    · rw [hstored', hstored, List.foldl_cons]
    · intro c
      rw [hget', hget, List.map_cons, List.sum_cons, add_assoc]

/-- On honest books the pass finds no drift, balanced currencies and the stored figures. -/
theorem foldLedger_ok (h : CutAt digest signer s cut kept) (hs : Faithful digest s (cut ++ kept))
    (hv : ∀ leg ∈ legsOf s.log, I64 leg.delta) (hfit : ColumnsFit s)
    (hboundary : loadArchiveBoundary digest signer s.checkpoints = .ok boundary) :
    ∃ fold, foldLedger s (balanceBaselines boundary) = .ok fold ∧ fold.drift = [] ∧
      everyCurrencyBalances fold.signedByCurrency = true ∧ (fold.backing, fold.anyUserNegative) =
        (s.heads.map Prod.fst).foldl (storedStep s.ledger.tables) (⟨0, 0⟩, false) := by
  obtain ⟨fold, hfold, hdrift, hstored, hkeys, hget⟩ := foldHeads_ok h hs hv hfit hboundary
    (s.heads.map Prod.fst) ⟨OrderedTable.empty, ⟨0, 0⟩, false, []⟩ List.nodup_nil
  have hvisited : s.balanceAccounts.filter (· ∉ s.heads.map Prod.fst) = [] := by
    rw [List.filter_eq_nil_iff]
    intro account ha
    have hm : account ∈ s.accounts := by
      unfold Books.balanceAccounts Text.sortStrings at ha
      rw [List.mem_insertionSort] at ha
      exact (List.mem_filter.mp ha).1
    simpa using hs.mem_headAccounts.mpr ((hs.covers account).mp hm)
  refine ⟨fold, ?_, hdrift, ?_, hstored⟩
  · unfold foldLedger
    simp only [hfold, bind, Except.bind, hvisited]
    rfl
  · have hzero : ∀ c, (fold.signedByCurrency.get c).getD 0 = 0 := by
      intro c
      have hlegs : ZeroSum (legsOf s.log) := by
        apply zeroSum_legsOf
        intro row hr
        exact hs.honest.indexes.zeroSum row (hs.honest.indexes.kept.subset hr)
      rw [hget, sum_totals hs.heads_distinct, currencyRaw_sum, hlegs]
      · rfl
      · intro x hx
        obtain ⟨leg, hl, rfl⟩ := List.mem_map.mp hx
        have hleg : leg ∈ legsOf s.log := (List.mem_filter.mp hl).1
        apply hs.mem_headAccounts.mpr
        obtain ⟨row, hr, hl⟩ := List.mem_flatMap.mp hleg
        exact List.mem_map_of_mem (List.mem_flatMap.mpr ⟨row, hs.honest.indexes.kept.subset hr, hl⟩)
    unfold everyCurrencyBalances
    rw [List.all_eq_true]
    intro v hm
    obtain ⟨⟨c, v⟩, hentry, rfl⟩ := List.mem_map.mp hm
    have hv' := hzero c
    rw [(OrderedTable.get_eq_some hkeys).mpr hentry] at hv'
    exact decide_eq_true hv'

/-- While the hot columns fold, archived books get the verdict of their stored balances. -/
theorem proveEconomy_clear (h : CutAt digest signer s cut kept) (hs : Faithful digest s (cut ++ kept))
    (hv : ∀ leg ∈ legsOf s.log, I64 leg.delta) (hfit : ColumnsFit s) (par : Rate) :
    proveEconomy digest (some signer) par s =
      clearVerdict par s.ledger.tables (s.heads.map Prod.fst) := by
  obtain ⟨boundary, hboundary⟩ := h.loads
  obtain ⟨fold, hfold, hdrift, hbalanced, hstored⟩ := foldLedger_ok h hs hv hfit hboundary
  obtain ⟨chain, hchain, hintact⟩ := h.intact hs hboundary
  unfold proveEconomy clearVerdict
  simp only [proveBoundary, hboundary, hfold, bind, Except.bind, ← hstored, hchain, hbalanced,
    hintact, hdrift]
  rfl

end Verdict

end EconomyLab

import EconomyLab.Chain.Columns
import EconomyLab.Ledger.Acceptance

/-!
# Re-deriving what was posted

Every running total of an account's column was its balance once, so it fits. While nothing is pruned the
columns fold without an overflow, to the balance that is stored.
-/

namespace EconomyLab

open Foundation

def accountDeltas (legs : List Leg) (a : AccountRef) : List Int :=
  (legs.filter fun leg => leg.account = a).map Leg.delta

theorem accountDeltas_append (legs more : List Leg) (a : AccountRef) :
    accountDeltas (legs ++ more) a = accountDeltas legs a ++ accountDeltas more a := by
  simp [accountDeltas]

theorem accountDeltas_sum (legs : List Leg) (a : AccountRef) :
    (accountDeltas legs a).sum = total (deltas legs) a := by
  induction legs with
  | nil => rfl
  | cons leg legs ih =>
    rw [deltas_cons, total_cons, ← ih]
    by_cases ha : leg.account = a
    · simp [accountDeltas, ha]
    · simp [accountDeltas, ha]

variable {legs : List Leg} {h : History} (digest : Digest)

/-- Legs that fit on top of a balance keep fitting leg by leg. -/
theorem BalancesFit.take {b : AccountRef → Int} (h : BalancesFit b legs) {a : AccountRef}
    (hb : I64 (b a)) (n : Nat) : I64 (b a + ((accountDeltas legs a).take n).sum) := by
  induction legs generalizing b n with
  | nil => simpa [accountDeltas] using hb
  | cons leg legs ih =>
    obtain ⟨-, hnext, hrest⟩ := h
    by_cases ha : leg.account = a
    · subst ha
      have hdeltas : accountDeltas (leg :: legs) leg.account =
          leg.delta :: accountDeltas legs leg.account := by
        simp [accountDeltas]
      have hupdated : Function.update b leg.account (b leg.account + leg.delta) leg.account =
          b leg.account + leg.delta := Function.update_self ..
      rw [hdeltas]
      cases n with
      | zero => simpa using hb
      | succ n =>
        have hstep := ih hrest (by rw [hupdated]; exact hnext) n
        rw [hupdated] at hstep
        rwa [List.take_succ_cons, List.sum_cons, ← add_assoc]
    · have hdeltas : accountDeltas (leg :: legs) a = accountDeltas legs a := by
        simp [accountDeltas, ha]
      have hsame : Function.update b leg.account (b leg.account + leg.delta) a = b a :=
        Function.update_of_ne (Ne.symm ha) ..
      have hstep := ih hrest (hsame ▸ hb) n
      rw [hsame] at hstep
      rwa [hdeltas]

/-- Every running total of every account fits, in the account's own currency. -/
structure History.Running (h : History) : Prop where
  fits : ∀ a n, I64 ((accountDeltas (legsOf h.appended) a).take n).sum
  deltas : ∀ leg ∈ legsOf h.appended, I64 leg.delta
  native : ∀ leg ∈ legsOf h.appended, leg.amount.currency = currency leg.account

theorem History.Running.append {t : LedgerTables} (hh : Honest t h) (hr : h.Running)
    {row : StoredPosting} {next : Table AccountRef Int} (hc : Checked t row.posting)
    (hnext : nextBalances t.balances row.legs = .ok next) : (h.append row).Running := by
  have hfit : BalancesFit t.balanceOf row.legs := nextBalances_ok_iff.mp ⟨next, hnext⟩
  have hnative := assertSingleCurrencyPerLeg_ok_iff.mp hc.singleCurrency
  have hlegs : legsOf (h.append row).appended = legsOf h.appended ++ row.legs := by
    rw [History.append, legsOf_append, legsOf_singleton]
  constructor
  · intro a n
    rw [hlegs, accountDeltas_append]
    by_cases hn : n ≤ (accountDeltas (legsOf h.appended) a).length
    · rw [List.take_append_of_le_length hn]
      exact hr.fits a n
    · have hbalance : t.balanceOf a = (accountDeltas (legsOf h.appended) a).sum := by
        rw [hh.indexes.balanceOf, accountDeltas_sum]
      rw [List.take_append, List.take_of_length_le (by omega), List.sum_append, ← hbalance]
      exact hfit.take (hh.inRange a) _
  · intro leg hleg
    rw [hlegs] at hleg
    rcases List.mem_append.mp hleg with hleg | hleg
    · exact hr.deltas leg hleg
    · exact hfit.delta leg hleg
  · intro leg hleg
    rw [hlegs] at hleg
    rcases List.mem_append.mp hleg with hleg | hleg
    · exact hr.native leg hleg
    · exact hnative leg hleg

theorem Write.observe_running (w : Write) {o : Observed} (h : o.Exact)
    (hr : o.history.All History.Running) : (w.observe digest o).All History.Running := by
  cases w with
  | entry now posting =>
    simp only [Write.observe, Write.run]
    rcases postEntry_row digest now posting o.ledger with
      ⟨e, hres, -⟩ | ⟨row, next, hc, -, -, hnext, -, -, happ⟩
    · rw [hres]
      exact hr
    · have hlast : (postEntry digest now posting o.ledger).2.tables.log.getLast? = some row := by
        simp [MemoryLedger.tables, happ, Journaled.write, Journaled.record, applyPosting]
      rw [hlast, happ]
      exact hr.write (hr.1.append h.rows hc hnext)
  | prune txnIds =>
    simp only [Write.observe]
    split
    · exact hr
    · exact hr.write ⟨hr.1.fits, hr.1.deltas, hr.1.native⟩
  | rollbackTo mark => exact hr.rollbackTo mark

theorem Command.step_running {o : Observed} (h : o.Exact)
    (hr : o.history.All History.Running) (c : Command) :
    (c.step digest o).history.All History.Running := by
  cases c with
  | write w => exact w.observe_running digest h hr
  | begin => exact hr.begin
  | commit => exact hr.commit
  | rollback => exact hr.rollback

theorem runLedger_running (cmds : List Command) : (runLedger digest cmds).history.rows.Running := by
  have hrun : (runLedger digest cmds).history.All History.Running := by
    unfold runLedger runFrom
    induction cmds using List.reverseRecOn with
    | nil =>
      refine ⟨⟨?_, ?_, ?_⟩, by simp [Observed.start]⟩
      · intro a n
        simp [Observed.start, History.empty, legsOf, accountDeltas, I64]
      · intro leg hleg
        cases hleg
      · intro leg hleg
        cases hleg
    | append_singleton cmds c ih =>
      rw [List.foldl_append]
      exact c.step_running digest (runLedger_exact digest cmds) ih
  exact hrun.1

theorem columnDeltas_native
    (h : ∀ leg ∈ legs, leg.amount.currency = currency leg.account) (a : AccountRef) :
    columnDeltas legs a (currency a) = accountDeltas legs a := by
  unfold columnDeltas accountDeltas
  congr 1
  apply List.filter_congr
  intro leg hleg
  by_cases ha : leg.account = a
  · simp [ha, h leg hleg]
  · simp [ha]

theorem columnDeltas_foreign
    (h : ∀ leg ∈ legs, leg.amount.currency = currency leg.account) {a : AccountRef} {c : Currency}
    (hc : c ≠ currency a) : columnDeltas legs a c = [] := by
  unfold columnDeltas
  rw [List.map_eq_nil_iff, List.filter_eq_nil_iff]
  intro leg hleg hboth
  obtain ⟨rfl, hcurrency⟩ := of_decide_eq_true hboth
  exact hc (hcurrency.symm.trans (h leg hleg))

theorem columns_native {t : LedgerTables} (hi : Indexes t h) (hkept : h.kept = h.appended)
    (hr : h.Running) {a : AccountRef} {columns : Table Currency (List Int)}
    (hcolumns : t.deltaColumns.get a = some columns) :
    columns.get (currency a) = some (accountDeltas (legsOf h.appended) a) ∧
      ∀ c, c ≠ currency a → columns.get c = none := by
  have hentries : ∀ c, (columns.get c).getD [] = columnDeltas (legsOf h.appended) a c := by
    intro c
    rw [← hkept, ← hi.columns]
    simp [columnEntries, hcolumns]
  have hrow : ∀ c, columns.get c = nonEmpty (columnDeltas (legsOf h.appended) a c) := by
    intro c
    rw [nonEmpty_of_getD (hi.compact.column a columns hcolumns c), hentries]
  have hforeign : ∀ c, c ≠ currency a → columns.get c = none := by
    intro c hc
    rw [hrow, columnDeltas_foreign hr.native hc]
    rfl
  refine ⟨?_, hforeign⟩
  have hsome : columns.get (currency a) ≠ none := by
    intro hnone
    have hempty : emptyRow columns = true := by
      rw [emptyRow_iff]
      intro c
      by_cases hc : c = currency a
      · rw [hc]
        exact hnone
      · exact hforeign c hc
    rw [hi.compact.row a columns hcolumns] at hempty
    cases hempty
  rw [hrow, columnDeltas_native hr.native] at hsome ⊢
  unfold nonEmpty at hsome ⊢
  split at hsome
  · exact absurd rfl hsome
  · rename_i hne
    rw [if_neg hne]

theorem foldColumn_running (hr : h.Running) (a : AccountRef) :
    foldColumn (accountDeltas (legsOf h.appended) a) = .ok (accountDeltas (legsOf h.appended) a).sum ∧
      I64 (accountDeltas (legsOf h.appended) a).sum := by
  have hwhole : I64 (accountDeltas (legsOf h.appended) a).sum := by
    have htake := hr.fits a (accountDeltas (legsOf h.appended) a).length
    rwa [List.take_length] at htake
  refine ⟨foldColumn_ok ?_ ⟨hwhole, fun _ => hr.fits a⟩, hwhole⟩
  intro value hv
  obtain ⟨leg, hleg, rfl⟩ := List.mem_map.mp hv
  exact hr.deltas leg (List.mem_filter.mp hleg).1

theorem onlyColumn {columns : Table Currency (List Int)} {own : Currency} {column : List Int}
    (hown : columns.get own = some column) (hforeign : ∀ c, c ≠ own → columns.get c = none) :
    ([Currency.credit, .usd].filterMap fun cur => (columns.get cur).map fun column => (cur, column)) =
      [(own, column)] := by
  cases own with
  | credit => simp [hown, hforeign .usd (by decide)]
  | usd => simp [hown, hforeign .credit (by decide)]

/-- In a run without prunes a derived balance is never refused, and it is the one that is stored. -/
theorem rederived_exact (digest : Digest) {cmds : List Command} (hunpruned : ∀ c ∈ cmds, c.isPrune = false)
    (a : AccountRef) :
    ∃ amounts, (runLedger digest cmds).ledger.tables.derivedBalances a = .ok amounts ∧
      (amounts.map Amount.minor).sum = (runLedger digest cmds).ledger.tables.balanceOf a ∧
      ∀ amount ∈ amounts, amount.currency = currency a := by
  have hi := (runLedger_exact digest cmds).rows.indexes
  have hr := runLedger_running digest cmds
  have hkept := (runLedger_unpruned digest hunpruned).1
  have hbalance := hi.balanceOf a
  obtain ⟨hfold, hfits⟩ := foldColumn_running hr a
  rw [← accountDeltas_sum] at hbalance
  unfold LedgerTables.derivedBalances
  have hcolumns : MemoryLedger.tables (runLedger digest cmds).ledger =
    (runLedger digest cmds).ledger.book.rows := rfl
  rw [hcolumns] at *
  cases hget : (runLedger digest cmds).ledger.book.rows.deltaColumns.get a with
  | none =>
    have hnone : accountDeltas (legsOf (runLedger digest cmds).history.rows.appended) a = [] := by
      rw [← columnDeltas_native hr.native, ← hkept, ← hi.columns]
      simp [columnEntries, hget]
    rw [hnone] at hbalance
    exact ⟨[], rfl, hbalance.symm, fun _ hm => by cases hm⟩
  | some columns =>
    obtain ⟨hown, hforeign⟩ := columns_native hi hkept hr hget
    have hread : (do toAmount (currency a) (← foldColumn (accountDeltas (legsOf
        (runLedger digest cmds).history.rows.appended) a))) = .ok (⟨currency a, _, hfits⟩ : Amount) := by
      rw [hfold]
      exact toAmount_ok hfits
    refine ⟨[⟨currency a, _, hfits⟩], ?_, ?_, ?_⟩
    · simp only [onlyColumn hown hforeign]
      rw [List.mapM_cons, List.mapM_nil, hread]
      rfl
    · rw [hbalance]
      simp
    · intro amount hm
      rw [List.mem_singleton.mp hm]

theorem rederived_exact_issued :
    let issue : Posting := ⟨"txn_1", [⟨SYSTEM.STORED_VALUE, ⟨.credit, 10, .ten⟩⟩,
      ⟨spendable "usr_a", ⟨.credit, -10, .neg_ten⟩⟩], []⟩
    ∃ amounts, (runLedger id [.write (.entry 0 issue)]).ledger.tables.derivedBalances (spendable "usr_a") =
        .ok amounts ∧ (amounts.map Amount.minor).sum = 10 := by
  intro issue
  have hunpruned : ∀ c ∈ [Command.write (.entry 0 issue)], c.isPrune = false := by simp [Command.isPrune]
  obtain ⟨amounts, hread, hsum, -⟩ := rederived_exact id hunpruned (spendable "usr_a")
  exact ⟨amounts, hread, hsum.trans (by rfl)⟩

end EconomyLab

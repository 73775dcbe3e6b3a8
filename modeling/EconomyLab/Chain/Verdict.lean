import EconomyLab.Chain.Integrity
import EconomyLab.Ledger.Acceptance

/-!
# Archiving and the verdict

The prover says of archived books what it would say had nothing been archived, as long as no run
dies between its boundary and its prune and the legs that are left still fold.
-/

namespace EconomyLab

open Foundation

/-- What committed legs have passed: their account's currency, and every running balance in range. -/
structure Committed (rows : List StoredPosting) : Prop where
  currencies : ∀ leg ∈ legsOf rows, leg.amount.currency = currency leg.account
  running : BalancesFit (fun _ => 0) (legsOf rows)

theorem balancesFit_append {b : AccountRef → Int} {legs more : List Leg} :
    BalancesFit b (legs ++ more) ↔
      BalancesFit b legs ∧ BalancesFit (fun a => b a + total (deltas legs) a) more := by
  induction legs generalizing b with
  | nil => simp [BalancesFit]
  | cons leg legs ih =>
    have hstep : (fun a => Function.update b leg.account (b leg.account + leg.delta) a +
        total (deltas legs) a) = fun a => b a + total (deltas (leg :: legs)) a := by
      funext a
      rw [deltas_cons, total_cons]
      by_cases ha : leg.account = a
      · subst ha
        simp only [Function.update_self, if_true]
        ring
      · rw [Function.update_of_ne fun he => ha he.symm, if_neg ha, zero_add]
    rw [List.cons_append, BalancesFit, BalancesFit, ih, hstep]
    tauto

theorem BalancesFit.running {b : AccountRef → Int} {legs : List Leg} (h : BalancesFit b legs)
    {a : AccountRef} (ha : I64 (b a)) (n : Nat) :
    I64 (b a + (((legs.filter (·.account = a)).map Leg.delta).take n).sum) := by
  induction legs generalizing b n with
  | nil => simpa using ha
  | cons leg legs ih =>
    obtain ⟨-, hnext, hrest⟩ := h
    by_cases hl : leg.account = a
    · subst hl
      cases n with
      | zero => simpa using ha
      | succ n =>
        have htail := ih hrest (by rwa [Function.update_self]) n
        rw [Function.update_self] at htail
        simpa [add_assoc] using htail
    · have htail := ih hrest (by rwa [Function.update_of_ne fun he => hl he.symm]) n
      rw [Function.update_of_ne fun he => hl he.symm] at htail
      simpa [hl] using htail

theorem Committed.fits {rows : List StoredPosting} (h : Committed rows) (account : AccountRef)
    (c : Currency) :
    FoldFits (columnDeltas (legsOf rows) account c) := by
  have hzero : I64 0 := by decide
  have hrunning : ∀ n, I64 ((((legsOf rows).filter (·.account = account)).map Leg.delta).take n).sum := by
    intro n
    have hn := @BalancesFit.running (fun _ => 0) (legsOf rows) h.running account hzero n
    rwa [zero_add] at hn
  by_cases hc : c = currency account
  · have hcolumn : columnDeltas (legsOf rows) account c =
        ((legsOf rows).filter (·.account = account)).map Leg.delta := by
      unfold columnDeltas
      congr 1
      apply List.filter_congr
      intro leg hl
      have hcur := h.currencies leg hl
      by_cases ha : leg.account = account
      · simp [ha, hc, hcur]
      · simp [ha]
    rw [hcolumn]
    refine ⟨?_, fun _ n => hrunning n⟩
    have hall := hrunning ((legsOf rows).filter (·.account = account)).length
    rwa [List.take_of_length_le (by simp)] at hall
  · have hnil : columnDeltas (legsOf rows) account c = [] := by
      unfold columnDeltas
      rw [List.map_eq_nil_iff, List.filter_eq_nil_iff]
      intro leg hl
      have hcur := h.currencies leg hl
      simp only [decide_eq_true_eq, not_and]
      rintro rfl he
      exact hc (he.symm.trans hcur)
    rw [hnil]
    refine ⟨by decide, ?_⟩
    intro hlong
    simp [FOLD_MIN_LEGS] at hlong

variable {digest : Digest} {signer : Signer}

theorem ChainStep.step_committed {k : Chronicle}
    (hk : Faithful digest k.books k.appended) (h : Committed k.appended) (c : ChainStep) :
    Committed (c.step digest signer k).appended := by
  cases c with
  | post now posting =>
    simp only [ChainStep.step]
    rcases Books.post_cases digest now posting k.books with ⟨e, ledger, hpost, -⟩ |
      ⟨row, next, ledger, -, -, -, hc, -, hnext, htables, -, hpost⟩
    · rw [hpost]
      exact h
    · have hlast : ledger.tables.log.getLast? = some row := by
        rw [htables]
        simp [applyPosting]
      rw [hpost]
      simp only [Books.log, hlast, Option.toList_some]
      have hcurrency : ∀ leg ∈ row.legs, leg.amount.currency = currency leg.account := by
        have hsingle := hc.singleCurrency
        unfold assertSingleCurrencyPerLeg at hsingle
        split at hsingle
        · rename_i hall
          intro leg hl
          exact of_decide_eq_true (List.all_eq_true.mp hall leg hl)
        · cases hsingle
      have hbalances : (fun a => (k.books.ledger.tables.balances.get a).getD 0) =
          fun a => 0 + total (deltas (legsOf k.appended)) a := by
        funext a
        rw [zero_add]
        exact hk.balanceOf a
      constructor
      · rw [legsOf_append, legsOf_singleton]
        intro leg hl
        rcases List.mem_append.mp hl with hl | hl
        · exact h.currencies leg hl
        · exact hcurrency leg hl
      · rw [legsOf_append, legsOf_singleton, balancesFit_append, ← hbalances]
        exact ⟨h.running, nextBalances_ok_iff.mp ⟨next, hnext⟩⟩
  | checkpoint now id crashed =>
    simp only [ChainStep.step]
    split <;> exact h
  | archive input stop => exact h

theorem runBooks_committed (digest : Digest) (signer : Signer) (steps : List ChainStep) :
    Committed (runBooks digest signer steps).appended := by
  have key : ∀ k : Chronicle, Faithful digest k.books k.appended → Committed k.appended →
      Committed (steps.foldl (ChainStep.step digest signer) k).appended := by
    induction steps with
    | nil => exact fun _ _ h => h
    | cons c steps ih => exact fun k hk h => ih _ (c.step_faithful hk) (c.step_committed hk h)
  exact key _ (Faithful.start digest) ⟨by simp [Chronicle.start, legsOf], trivial⟩

structure KeepsLog (k : Chronicle) : Prop where
  log : k.books.log = k.appended
  archive : k.books.checkpoints.archive = none
  rows : k.books.checkpoints.archiveHeadRows = OrderedTable.empty
  sink : k.books.sink = []

theorem ChainStep.step_keepsLog {k : Chronicle} (h : KeepsLog k)
    {c : ChainStep} (hc : c.archives = false) : KeepsLog (c.step digest signer k) := by
  cases c with
  | post now posting =>
    simp only [ChainStep.step]
    rcases Books.post_cases digest now posting k.books with ⟨e, ledger, hpost, hbook, -⟩ |
      ⟨row, next, ledger, -, -, -, -, -, -, htables, -, hpost⟩
    · rw [hpost]
      refine ⟨?_, h.archive, h.rows, h.sink⟩
      simp only [Books.log, MemoryLedger.tables, hbook]
      exact h.log
    · have hlog : ledger.tables.log = k.books.log ++ [row] := by
        rw [htables]
        rfl
      rw [hpost]
      refine ⟨?_, h.archive, h.rows, h.sink⟩
      simp [Books.log, hlog, ← h.log]
  | checkpoint now id crashed =>
    simp only [ChainStep.step]
    cases hsign : signCheckpoint digest signer k.books.view k.books.checkpoints now id with
    | error e => exact h
    | ok signed =>
      obtain ⟨checkpoint, plan, leaves⟩ := signed
      simp only [Books.record_ok hsign crashed]
      exact ⟨h.log, h.archive, h.rows, h.sink⟩
  | archive input stop => cases hc

theorem runBooks_keepsLog (digest : Digest) (signer : Signer) {steps : List ChainStep}
    (h : ∀ c ∈ steps, c.archives = false) : KeepsLog (runBooks digest signer steps) := by
  have key : ∀ k : Chronicle, KeepsLog k → KeepsLog (steps.foldl (ChainStep.step digest signer) k) := by
    induction steps with
    | nil => exact fun _ hk => hk
    | cons c steps ih =>
      intro k hk
      exact ih (fun c' hc => h c' (List.mem_cons_of_mem _ hc))
        _ (c.step_keepsLog hk (h c List.mem_cons_self))
  exact key _ ⟨rfl, rfl, rfl, rfl⟩

theorem KeepsLog.cutAt {k : Chronicle} (h : KeepsLog k) :
    CutAt digest signer k.books [] k.appended where
  log := h.log
  rows := by
    rw [h.rows]
    exact HoldsLeaves.empty
  fresh := fun _ => rfl
  mark := by
    intro state hstate
    rw [h.archive] at hstate
    cases hstate
  copied := by simp
  copies := by simp [h.sink]

theorem SameHistoryOf.heads {k k' : Chronicle} (h : SameHistoryOf k k')
    (hk : Faithful digest k.books k.appended) (hk' : Faithful digest k'.books k'.appended) :
    k.books.heads = k'.books.heads := by
  have hperm : k.books.accounts.Perm k'.books.accounts := by
    apply (List.perm_ext_iff_of_nodup hk.accounts hk'.accounts).mpr
    intro account
    rw [hk.covers, hk'.covers, h.appended]
  have hrows : (k.books.accounts.filterMap fun account =>
      (k.books.ledger.tables.heads.get account).map fun head => (account, head)).Perm
        (k'.books.accounts.filterMap fun account =>
          (k'.books.ledger.tables.heads.get account).map fun head => (account, head)) := by
    rw [(h.tables hk hk').1]
    exact hperm.filterMap _
  unfold Books.heads sortHeads
  apply Text.sortByKey_perm Prod.fst hrows
  intro p hp q hq he
  have hmem : ∀ p : AccountRef × String, p ∈ k.books.accounts.filterMap (fun account =>
      (k.books.ledger.tables.heads.get account).map fun head => (account, head)) →
        k.books.ledger.tables.heads.get p.1 = some p.2 := by
    intro p hp
    obtain ⟨account, -, hrow⟩ := List.mem_filterMap.mp hp
    obtain ⟨head, hhead, rfl⟩ := Option.map_eq_some_iff.mp hrow
    exact hhead
  have hsame := hmem p hp
  rw [he, hmem q hq] at hsame
  exact Prod.ext he (Option.some.inj hsame).symm

/-- Every committed row is in the log or gone from it and in the sink, and none up to the reported
watermark is in the log. -/
structure MovedOut (appended : List StoredPosting) (summary : ArchiveSummary) (s : Books) : Prop where
  held : ∀ row ∈ appended, row ∈ s.log ∨ (row ∉ s.log ∧ row ∈ s.sink)
  through : ∀ seq, summary.throughSeq = some seq → ∀ row ∈ appended, row.seq ≤ seq → row ∉ s.log

theorem CutAt.movedOut {s : Books} {cut kept : List StoredPosting} (h : CutAt digest signer s cut kept)
    (hordered : (cut ++ kept).Pairwise fun row later => row.seq < later.seq) {summary : ArchiveSummary}
    (hthrough : ∀ seq, summary.throughSeq = some seq → cut.getLast?.map StoredPosting.seq = some seq) :
    MovedOut (cut ++ kept) summary s := by
  constructor
  · intro row hr
    by_cases hlog : row ∈ s.log
    · exact Or.inl hlog
    · rcases List.mem_append.mp hr with hr | hr
      · exact Or.inr ⟨hlog, h.copied row hr⟩
      · exact absurd (h.log ▸ hr) hlog
  · intro seq hseq row hr hle hlog
    obtain ⟨last, hlast, rfl⟩ := Option.map_eq_some_iff.mp (hthrough seq hseq)
    rw [h.log] at hlog
    have hlt := (List.pairwise_append.mp hordered).2.2 last (List.mem_of_getLast? hlast) row hlog
    omega

/-- While no run dies between boundary and prune, the prover says what it would say had nothing
been archived, as long as the hot columns fold; and a run that finishes has lost no posting. -/
theorem archiving_keeps_verdict (digest : Digest) (signer : Signer)
    (hsigner : ∀ bytes, signer.verify bytes (signer.sign bytes) = true) (steps : List ChainStep)
    (hids : ((runBooks digest signer steps).appended.map StoredPosting.txnId).Nodup)
    (hwhole : ∀ c ∈ steps, c.tearsBoundary = false) :
    let k := runBooks digest signer steps
    let bare := runBooks digest signer (steps.filter fun c => !c.archives)
    (∀ par, ColumnsFit k.books →
      proveEconomy digest (some signer) par k.books = proveEconomy digest (some signer) par bare.books) ∧
    (∀ input summary s, archiveSealedPrefix digest signer input none k.books = (.done summary, s) →
      summary.finished = true → MovedOut k.appended summary s) := by
  intro k bare
  have hk : Faithful digest k.books k.appended := runBooks_faithful digest signer steps
  have hbare : Faithful digest bare.books bare.appended := runBooks_faithful digest signer _
  obtain ⟨cut, kept, happended, hcut⟩ : ArchivedTo digest signer k :=
    runBooks_archivedTo hsigner hids hwhole
  constructor
  · intro par hfit
    have hsame : SameHistoryOf k bare := by
      apply runBooks_history digest signer steps
      intro c hc
      cases c with
      | post now posting => rfl
      | checkpoint now id crashed => rfl
      | archive input stop => cases hc
    have hcommitted : Committed k.appended := runBooks_committed digest signer steps
    have hkeeps : KeepsLog bare := by
      apply runBooks_keepsLog
      intro c hc
      simpa using (List.mem_filter.mp hc).2
    have hbareFit : ColumnsFit bare.books := by
      intro account c
      rw [hkeeps.log, ← hsame.appended]
      exact hcommitted.fits account c
    have hdeltas : ∀ rows : List StoredPosting, rows.Sublist k.appended → ∀ leg ∈ legsOf rows,
        I64 leg.delta := by
      intro rows hsub leg hl
      obtain ⟨row, hr, hl⟩ := List.mem_flatMap.mp hl
      exact hcommitted.running.delta leg (List.mem_flatMap.mpr ⟨row, hsub.subset hr, hl⟩)
    have hone : proveEconomy digest (some signer) par k.books =
        clearVerdict par k.books.ledger.tables (k.books.heads.map Prod.fst) :=
      proveEconomy_clear hcut (happended ▸ hk) (hdeltas _ hk.honest.indexes.kept) hfit par
    have htwo : proveEconomy digest (some signer) par bare.books =
        clearVerdict par bare.books.ledger.tables (bare.books.heads.map Prod.fst) := by
      apply proveEconomy_clear hkeeps.cutAt hbare ?_ hbareFit par
      apply hdeltas
      rw [hkeeps.log, ← hsame.appended]
    have hbalances : k.books.ledger.tables.balanceOf = bare.books.ledger.tables.balanceOf := by
      funext account
      unfold LedgerTables.balanceOf
      rw [(hsame.tables hk hbare).2]
    have hstep : storedStep k.books.ledger.tables = storedStep bare.books.ledger.tables := by
      funext acc account
      unfold storedStep
      rw [hbalances]
    rw [hone, htwo, hsame.heads hk hbare]
    unfold clearVerdict
    rw [hstep]
  · intro input summary s hrun _
    have hafter := @archiveSealedPrefix_cut digest signer hsigner input none (by
      simp) k.books k.appended cut kept
      hk hids happended hcut
    rw [hrun] at hafter
    obtain ⟨cut', kept', happended', hcut', hthrough⟩ := hafter.cut
    have hordered := hk.ordered
    rw [happended'] at hordered ⊢
    exact hcut'.movedOut hordered (hthrough summary rfl)

theorem archiving_keeps_verdict_archived :
    proveEconomy weighDigest (some echoSigner) ⟨1, 0, "par"⟩
      (runBooks weighDigest echoSigner sampleArchived).books =
      proveEconomy weighDigest (some echoSigner) ⟨1, 0, "par"⟩
        (runBooks weighDigest echoSigner (sampleArchived.filter fun c => !c.archives)).books := by
  have hlog : (runBooks weighDigest echoSigner sampleArchived).books.log.length = 0 := by
    decide +kernel
  have hfit : ColumnsFit (runBooks weighDigest echoSigner sampleArchived).books := by
    intro account c
    rw [List.eq_nil_of_length_eq_zero hlog]
    have hzero : I64 0 := by decide
    refine ⟨hzero, ?_⟩
    intro hlong
    simp [FOLD_MIN_LEGS, legsOf] at hlong
  exact (archiving_keeps_verdict weighDigest echoSigner (by
    simp [echoSigner]) sampleArchived sampleArchived_ids
    (by simp [sampleArchived, ChainStep.tearsBoundary])).1 _ hfit

/-- The archive run dies after it stored the boundary of its only page. -/
def sampleTorn : List ChainStep :=
  [.post 0 (sampleTopUp "txn_1" "usr_a"), .checkpoint 1 "chk_1" false,
    .archive ⟨0, 10, 2⟩ (some (0, .afterBoundary))]

/-- The page then counts twice, in the baseline and in the legs that are left. -/
theorem torn_boundary_drifts :
    (proveEconomy weighDigest (some echoSigner) ⟨1, 0, "par"⟩
      (runBooks weighDigest echoSigner sampleTorn).books).toOption.map ProveReport.consistent =
        some false ∧
    (proveEconomy weighDigest (some echoSigner) ⟨1, 0, "par"⟩
      (runBooks weighDigest echoSigner (sampleTorn.filter fun c => !c.archives)).books).toOption.map
        ProveReport.consistent = some true := by
  constructor <;> decide +kernel

end EconomyLab

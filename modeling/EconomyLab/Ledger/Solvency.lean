import EconomyLab.Ledger.Acceptance

/-!
# No guarded account is overdrawn

Every posting of the program goes through `postEntry`. Its guard reads the balances the
posting meets, so no guarded account falls below zero, whatever legs an operation, a
sweep or a settlement builds.
-/

namespace EconomyLab

open Foundation Text

/-! ## Which accounts the guard covers -/

theorem includes_wallet (owner : String) (kind : AccountKind) : includes (wallet owner kind) ':' := by
  simp [includes, wallet]

theorem isUserGuarded_wallet {owner : String} {kind : AccountKind}
    (h : traitsOf (wallet owner kind) = none) : isUserGuarded (wallet owner kind) = true := by
  have hc : classify (wallet owner kind) = .custodial ∨ classify (wallet owner kind) = .excluded := by
    unfold classify
    rw [h]
    cases kind <;> simp
  simpa [isUserGuarded, includes_wallet] using hc

/-- An id that goes on after a `:` starts like the platform's only when its first part does. -/
theorem startsWith_platform_append {userId rest : String}
    (h : startsWith (userId ++ ":" ++ rest) "platform:" = true) :
    startsWith userId "platform:" = true ∨ userId = "platform" := by
  have hplatform : "platform:".toList = "platform".toList ++ [':'] := by decide
  have hcolon : ":".toList = [':'] := by decide
  simp only [startsWith, List.isPrefixOf_iff_prefix, String.toList_append, hcolon] at h ⊢
  have huser : userId.toList ++ [':'] <+: userId.toList ++ [':'] ++ rest.toList :=
    List.prefix_append _ _
  have hends : userId.toList ++ [':'] = "platform".toList ++ [':'] → userId = "platform" := by
    intro he
    exact String.toList_inj.mp (List.append_cancel_right he)
  rcases List.prefix_or_prefix_of_prefix h huser with hp | hp
  · rcases List.prefix_concat_iff.mp hp with he | hp
    · exact Or.inr (hends (he.symm.trans hplatform))
    · exact Or.inl hp
  · rw [hplatform] at hp
    rcases List.prefix_concat_iff.mp hp with he | hp
    · exact Or.inr (hends he)
    · have hmem : ':' ∈ "platform".toList :=
        hp.subset (List.mem_append_right _ (List.mem_singleton.mpr rfl))
      exact absurd hmem (by decide)

/-- The rows no posting may overdraw. The escrow of a user named `platform` can carry the id of a
shard of one of the platform's own accounts, and then it is none of them. -/
inductive Protected : AccountRef → Prop
  | user (userId : String) (kind : AccountKind) (h : ¬startsWith userId "platform:" = true) :
      Protected (wallet userId kind)
  | escrow (userId sessionId : String) (h : ¬startsWith userId "platform:" = true)
      (hp : userId = "platform" → traitsOf (sessionEscrow userId sessionId) = none) :
      Protected (sessionEscrow userId sessionId)
  | reserve {ref : AccountRef} (h : baseOf ref = SYSTEM.PAYOUT_RESERVE) : Protected ref
  | accrual {ref : AccountRef} (h : baseOf ref = SYSTEM.SETTLEMENT_ACCRUAL) : Protected ref
  | clearing {ref : AccountRef} (h : baseOf ref = SYSTEM.NETTING_CLEARING) : Protected ref

variable {ref : AccountRef} (digest : Digest) {o : Observed}

theorem traitsOf_none (h : ¬startsWith ref "platform:" = true) : traitsOf ref = none := by
  cases ht : traitsOf ref with
  | none => rfl
  | some traits => exact absurd (startsWith_of_traits ht) h

theorem includes_of_startsWith (h : startsWith ref "platform:" = true) : includes ref ':' = true := by
  simp only [startsWith, List.isPrefixOf_iff_prefix] at h
  simpa [includes] using h.subset (show ':' ∈ "platform:".toList by decide)

theorem startsWith_of_baseOf {ref base : AccountRef} (h : baseOf ref = base)
    (hb : startsWith base "platform:" = true) : startsWith ref "platform:" = true := by
  by_contra hn
  rw [baseOf, if_neg hn] at h
  exact hn (h ▸ hb)

theorem Protected.guarded (h : Protected ref) : isUserGuarded ref = true := by
  have hexcluded : ∀ {ref base : AccountRef}, baseOf ref = base → startsWith base "platform:" = true →
      SYSTEM_TRAITS.lookup base = some ⟨.credit, false, .excluded⟩ → isUserGuarded ref = true := by
    intro ref base hb hs hl
    have hc : classify ref = .excluded := by
      simp only [classify, traitsOf, hb, hl]
    simp [isUserGuarded, hc, includes_of_startsWith (startsWith_of_baseOf hb hs)]
  cases h with
  | user userId kind h =>
    apply isUserGuarded_wallet
    by_cases hp : userId = "platform"
    · subst hp
      cases kind <;> decide
    · apply traitsOf_none
      intro hs
      rcases startsWith_platform_append hs with hs | he
      · exact h hs
      · exact hp he
  | escrow userId sessionId h hp =>
    apply isUserGuarded_wallet
    by_cases he : userId = "platform"
    · exact hp he
    apply traitsOf_none
    intro hs
    have hid : wallet (userId ++ ":" ++ sessionId) .escrow =
        userId ++ ":" ++ (sessionId ++ ":" ++ AccountKind.escrow.text) := by
      simp only [wallet, String.append_assoc]
    rw [hid] at hs
    rcases startsWith_platform_append hs with hs | hs
    · exact h hs
    · exact he hs
  | reserve h => exact hexcluded h (by decide) (by decide)
  | accrual h => exact hexcluded h (by decide) (by decide)
  | clearing h =>
    have hs := startsWith_of_baseOf h (by decide)
    have ht : traitsOf ref = none := by
      rw [traitsOf, h]
      decide
    have hc : classify ref = .custodial ∨ classify ref = .excluded := by
      unfold classify
      rw [ht]
      split
      · rename_i he
        cases he
      · split <;> simp
    simpa [isUserGuarded, includes_of_startsWith hs] using hc

def History.Solvent (h : History) : Prop :=
  ∀ a, isUserGuarded a = true → 0 ≤ total (deltas (legsOf h.appended)) a

theorem History.Solvent.append {t : LedgerTables} {h : History} (hh : Honest t h) (hs : h.Solvent)
    {row : StoredPosting} {next : Table AccountRef Int} (hc : Checked t row.posting)
    (hnext : nextBalances t.balances row.legs = .ok next) : (h.append row).Solvent := by
  have hfit : BalancesFit t.balanceOf row.legs := nextBalances_ok_iff.mp ⟨next, hnext⟩
  have hcov : Covered t.balanceOf row.legs :=
    (@assertNoOverdraft_ok_iff t hh.inRange row.posting hfit).mp hc.covered
  intro a ha
  have hprior := hs a ha
  rw [History.append, legsOf_append, legsOf_singleton, deltas_append, total_append]
  by_cases hneg : total (deltas row.legs) a < 0
  · have hcovered := hcov a ha hneg
    rw [hh.indexes.balanceOf] at hcovered
    exact hcovered
  · omega

theorem Write.observe_solvent (w : Write) (h : o.Exact)
    (hs : o.history.All History.Solvent) : (w.observe digest o).All History.Solvent := by
  cases w with
  | entry now posting =>
    simp only [Write.observe, Write.run]
    rcases postEntry_row digest now posting o.ledger with
      ⟨e, hres, -⟩ | ⟨row, next, hc, -, -, hnext, -, -, happ⟩
    · rw [hres]
      exact hs
    · have hlast : (postEntry digest now posting o.ledger).2.tables.log.getLast? = some row := by
        simp [MemoryLedger.tables, happ, Journaled.write, Journaled.record, applyPosting]
      rw [hlast, happ]
      exact hs.write (hs.1.append h.rows hc hnext)
  | prune txnIds =>
    simp only [Write.observe]
    split
    · exact hs
    · exact hs.write hs.1
  | rollbackTo mark => exact hs.rollbackTo mark

theorem Command.step_solvent (h : o.Exact) (hs : o.history.All History.Solvent) (c : Command) :
    (c.step digest o).history.All History.Solvent := by
  cases c with
  | write w => exact w.observe_solvent digest h hs
  | begin => exact hs.begin
  | commit => exact hs.commit
  | rollback => exact hs.rollback

theorem runFrom_solvent (h : o.Exact) (hs : o.history.All History.Solvent) (cmds : List Command) :
    (runFrom digest o cmds).history.All History.Solvent := by
  induction cmds generalizing o with
  | nil => exact hs
  | cons c cmds ih => exact ih (c.step_exact digest h) (c.step_solvent digest h hs)

/-- In every run of entries, prunes, transactions and savepoints no guarded balance is negative. -/
theorem runLedger_solvent (cmds : List Command) {a : AccountRef}
    (ha : isUserGuarded a = true) : 0 ≤ (runLedger digest cmds).ledger.tables.balanceOf a := by
  have hstart : Observed.start.history.All History.Solvent := by
    refine ⟨?_, by simp [Observed.start]⟩
    intro b _
    simp [Observed.start, History.empty, legsOf]
  have hrun := runFrom_solvent digest Observed.start_exact hstart cmds
  have hbalance := (runLedger_exact digest cmds).rows.indexes.balanceOf a
  exact le_of_le_of_eq (hrun.1 a ha) hbalance.symm

end EconomyLab

import EconomyLab.Netting.Outage

/-!
# Worlds that differ in dates

Netting reads the clock to date its rows and its postings, and never reads a date back. Two
worlds alike in everything it reads stay alike through every posting, release and append.
-/

namespace EconomyLab

open Foundation

/-! ## Without their dates -/

def Movement.undated (m : Movement) : Movement := { m with recordedAt := 0 }

def StoredPosting.undated (row : StoredPosting) : Posting × List Link := (row.posting, row.links)

def undated (ms : List Movement) : List Movement := ms.map Movement.undated

theorem bySession_undated (sessionId : String) (log : List Movement) :
    undated (bySession sessionId log) = bySession sessionId (undated log) := by
  unfold bySession undated
  rw [List.map_insertionSort _ (fun a b : Movement => a.seq ≤ b.seq)]
  · rw [List.filter_map]
    rfl
  · exact fun a _ b _ => Iff.rfl

theorem verifyChain_undated (digest : Digest) (prev : String) (ms : List Movement) :
    verifyChain digest prev (undated ms) = verifyChain digest prev ms := by
  induction ms generalizing prev with
  | nil => rfl
  | cons m ms ih =>
    simp only [undated, List.map_cons, verifyChain]
    rw [← ih]
    rfl

theorem flatMap_legs_undated (ms : List Movement) :
    (undated ms).flatMap Movement.legs = ms.flatMap Movement.legs := by
  unfold undated
  rw [List.flatMap_map]
  rfl

theorem walletDeltas_undated (ms : List Movement) : walletDeltas (undated ms) = walletDeltas ms := by
  unfold walletDeltas
  rw [flatMap_legs_undated]

theorem positionsOf_undated (ms : List Movement) : positionsOf (undated ms) = positionsOf ms := by
  unfold positionsOf movementAmounts undated
  rw [List.flatMap_map]
  rfl

theorem appendMovements_undated (batch log : List Movement) :
    appendMovements (undated batch) (undated log) = (appendMovements batch log).map undated := by
  have hfind : (undated batch).find? (fun m => (undated log).any fun row =>
        row.idempotencyKey = m.idempotencyKey || (row.sessionId = m.sessionId && row.seq = m.seq)) =
      (batch.find? fun m => log.any fun row => row.idempotencyKey = m.idempotencyKey ||
        (row.sessionId = m.sessionId && row.seq = m.seq)).map Movement.undated := by
    unfold undated
    rw [List.find?_map]
    simp only [List.any_map]
    rfl
  unfold appendMovements
  rw [hfind]
  cases batch.find? fun m => log.any fun row => row.idempotencyKey = m.idempotencyKey ||
      (row.sessionId = m.sessionId && row.seq = m.seq) with
  | none => simp [Except.map, undated]
  | some m =>
    simp only [Option.map_some, undated, List.any_map]
    rfl

/-- Worlds in which netting reads the same. -/
structure Twin (w w' : World) : Prop where
  ready : w.Ready ∧ w'.Ready
  balances : w'.ledger.tables.balances = w.ledger.tables.balances
  heads : w'.ledger.tables.heads = w.ledger.tables.heads
  log : w'.ledger.tables.log.map StoredPosting.undated = w.ledger.tables.log.map StoredPosting.undated
  movements : undated w'.movements = undated w.movements
  pending : ∀ a, w'.pendingOf a = w.pendingOf a

section Twins

variable {w w' : World}

theorem Twin.balanceOf (h : Twin w w') : w'.balanceOf = w.balanceOf := by
  funext a
  simp only [World.balanceOf, LedgerTables.balanceOf, h.balances]

theorem findPosting_undated (t : LedgerTables) (txnId : String) : t.findPosting txnId =
    ((t.log.map StoredPosting.undated).find? (·.1.txnId = txnId)).map Prod.fst := by
  unfold LedgerTables.findPosting
  rw [List.find?_map, Option.map_map]
  rfl

theorem Twin.findPosting (h : Twin w w') (txnId : String) :
    w'.ledger.tables.findPosting txnId = w.ledger.tables.findPosting txnId := by
  rw [findPosting_undated, findPosting_undated, h.log]

theorem Twin.bySession (h : Twin w w') (sessionId : String) :
    undated (bySession sessionId w'.movements) = undated (bySession sessionId w.movements) := by
  rw [bySession_undated, bySession_undated, h.movements]

/-- What an entry does to the tables: the checks, the links, the balances, the row. -/
def entryTables (digest : Digest) (now : Int) (seq : Nat) (posting : Posting) (t : LedgerTables) :
    Except Fault LedgerTables := do
  let cleaned := dropZeroLegs posting
  assertSingleCurrencyPerLeg cleaned
  assertBalanced cleaned
  assertKnownAccounts isKnownAccount cleaned
  assertNoOverdraft t.balance cleaned
  let links ← advanceChain digest t.heads cleaned
  let next ← nextBalances t.balances cleaned.legs
  return applyPosting t ⟨cleaned.txnId, cleaned.legs, cleaned.fields, now, seq, links⟩ next

theorem postEntry_entryTables (digest : Digest) (now : Int) (posting : Posting) (l : MemoryLedger) :
    match entryTables digest now (l.seq + 1) posting l.tables with
    | .error e => (postEntry digest now posting l).1 = .error e
    | .ok t => (∃ txn, (postEntry digest now posting l).1 = .ok txn) ∧
        (postEntry digest now posting l).2.tables = t := by
  unfold entryTables postEntry append commitPosting
  simp only [bind, Except.bind, pure, Except.pure]
  cases assertSingleCurrencyPerLeg (dropZeroLegs posting) with
  | error e => rfl
  | ok u =>
    cases assertBalanced (dropZeroLegs posting) with
    | error e => rfl
    | ok u =>
      cases assertKnownAccounts isKnownAccount (dropZeroLegs posting) with
      | error e => rfl
      | ok u =>
        cases assertNoOverdraft l.tables.balance (dropZeroLegs posting) with
        | error e => rfl
        | ok u =>
          cases advanceChain digest l.tables.heads (dropZeroLegs posting) with
          | error e => rfl
          | ok links =>
            simp only
            cases hn : nextBalances l.tables.balances (dropZeroLegs posting).legs with
            | error e => simp only [MemoryLedger.tables] at hn; simp only [hn]
            | ok next =>
              simp only [MemoryLedger.tables] at hn
              simp only [hn]
              exact ⟨⟨_, rfl⟩, rfl⟩

/-- Dates and storage positions decide nothing. -/
theorem entryTables_undated {t t' : LedgerTables} (hbal : t'.balances = t.balances)
    (hheads : t'.heads = t.heads)
    (hlog : t'.log.map StoredPosting.undated = t.log.map StoredPosting.undated) (digest : Digest)
    (now now' : Int) (seq seq' : Nat) (posting : Posting) :
    (∃ e, entryTables digest now seq posting t = .error e ∧
      entryTables digest now' seq' posting t' = .error e) ∨
    (∃ u u', entryTables digest now seq posting t = .ok u ∧
      entryTables digest now' seq' posting t' = .ok u' ∧ u'.balances = u.balances ∧
      u'.heads = u.heads ∧ u'.log.map StoredPosting.undated = u.log.map StoredPosting.undated) := by
  have hread : t'.balance = t.balance := by
    funext a
    simp only [LedgerTables.balance, LedgerTables.balanceOf, hbal]
  unfold entryTables
  rw [hread, hheads, hbal]
  simp only [bind, Except.bind, pure, Except.pure]
  cases assertSingleCurrencyPerLeg (dropZeroLegs posting) with
  | error e => exact Or.inl ⟨e, rfl, rfl⟩
  | ok u =>
    cases assertBalanced (dropZeroLegs posting) with
    | error e => exact Or.inl ⟨e, rfl, rfl⟩
    | ok u =>
      cases assertKnownAccounts isKnownAccount (dropZeroLegs posting) with
      | error e => exact Or.inl ⟨e, rfl, rfl⟩
      | ok u =>
        cases assertNoOverdraft t.balance (dropZeroLegs posting) with
        | error e => exact Or.inl ⟨e, rfl, rfl⟩
        | ok u =>
          cases advanceChain digest t.heads (dropZeroLegs posting) with
          | error e => exact Or.inl ⟨e, rfl, rfl⟩
          | ok links =>
            simp only
            cases nextBalances t.balances (dropZeroLegs posting).legs with
            | error e => exact Or.inl ⟨e, rfl, rfl⟩
            | ok next =>
              refine Or.inr ⟨_, _, rfl, rfl, rfl, ?_, ?_⟩
              · simp only [applyPosting, hheads]
              · simp only [applyPosting, List.map_append, hlog, List.map_cons, List.map_nil]
                rfl

theorem transaction_postOnce_tables (env : Env) (posting : Posting) (hw : w.Ready) :
    ∃ now seq, match w.ledger.tables.findPosting posting.txnId with
      | some _ => (transaction (postOnce env posting) w).1 = .ok () ∧
          (transaction (postOnce env posting) w).2.ledger.tables = w.ledger.tables
      | none =>
        match entryTables env.digest now seq posting w.ledger.tables with
        | .error e => (transaction (postOnce env posting) w).1 = .error e ∧
            (transaction (postOnce env posting) w).2.ledger.tables = w.ledger.tables
        | .ok t => (transaction (postOnce env posting) w).1 = .ok () ∧
            (transaction (postOnce env posting) w).2.ledger.tables = t := by
  refine ⟨env.clock w.ticks, w.ledger.seq + 1, ?_⟩
  have hrun : (postOnce env posting).run w.opened =
      match w.ledger.tables.findPosting posting.txnId with
      | some _ => (.ok (), w.opened)
      | none => match (postEntry env.digest (env.clock w.ticks) posting w.opened.ledger).1 with
        | .ok _ => (.ok (), { w.opened with
            ledger := (postEntry env.digest (env.clock w.ticks) posting w.opened.ledger).2
            ticks := w.ticks + 1 })
        | .error e => (.error e, { w.opened with
            ledger := (postEntry env.digest (env.clock w.ticks) posting w.opened.ledger).2
            ticks := w.ticks + 1 }) := by
    unfold postOnce Txn.findPosting
    rw [Txn.run_bind, Txn.run_read]
    have hfound : w.opened.ledger.tables.findPosting posting.txnId =
        w.ledger.tables.findPosting posting.txnId := rfl
    rw [hfound]
    cases w.ledger.tables.findPosting posting.txnId with
    | some found => rfl
    | none =>
      simp only [Txn.run_bind, Txn.postEntry, World.opened]
      split <;> rename_i heq <;> simp only [Prod.mk.injEq] at heq <;> simp [heq.1, ← heq.2]
  have hentry := postEntry_entryTables env.digest (env.clock w.ticks) posting w.opened.ledger
  have htables : w.opened.ledger.tables = w.ledger.tables := rfl
  have hseq : w.opened.ledger.seq = w.ledger.seq := rfl
  rw [htables, hseq] at hentry
  rcases transaction_cases (postOnce env posting) hw.closed hw.sound with
    ⟨a, w₁, hr, ht⟩ | ⟨e, w₁, hr, ht, hsame⟩
  · rw [ht]
    rw [hrun] at hr
    cases hf : w.ledger.tables.findPosting posting.txnId with
    | some found =>
      rw [hf] at hr
      obtain ⟨-, rfl⟩ := Prod.mk.inj hr
      exact ⟨rfl, rfl⟩
    | none =>
      simp only [hf] at hr
      cases hp : entryTables env.digest (env.clock w.ticks) (w.ledger.seq + 1) posting w.ledger.tables with
      | error e =>
        simp only [hp] at hentry
        simp only [hentry] at hr
        cases (Prod.mk.inj hr).1
      | ok t =>
        simp only [hp] at hentry
        obtain ⟨⟨txn, htxn⟩, htables⟩ := hentry
        simp only [htxn] at hr
        obtain ⟨-, rfl⟩ := Prod.mk.inj hr
        exact ⟨rfl, htables⟩
  · rw [ht]
    have hback : w₁.rollbackAll.ledger.tables = w.ledger.tables := congrArg Journaled.rows hsame.ledger
    rw [hrun] at hr
    cases hf : w.ledger.tables.findPosting posting.txnId with
    | some found =>
      rw [hf] at hr
      cases (Prod.mk.inj hr).1
    | none =>
      simp only [hf] at hr
      cases hp : entryTables env.digest (env.clock w.ticks) (w.ledger.seq + 1) posting w.ledger.tables with
      | error e' =>
        simp only [hp] at hentry
        simp only [hentry] at hr
        obtain ⟨he, -⟩ := Prod.mk.inj hr
        exact ⟨he.symm, hback⟩
      | ok t =>
        simp only [hp] at hentry
        obtain ⟨⟨txn, htxn⟩, -⟩ := hentry
        simp only [htxn] at hr
        cases (Prod.mk.inj hr).1

theorem Twin.postOnce (h : Twin w w') {env env' : Env} (hdigest : env'.digest = env.digest)
    (posting : Posting) :
    (transaction (postOnce env' posting) w').1 = (transaction (postOnce env posting) w).1 ∧
      Twin (transaction (postOnce env posting) w).2 (transaction (postOnce env' posting) w').2 := by
  obtain ⟨now, seq, hw⟩ := transaction_postOnce_tables env posting h.ready.1
  obtain ⟨now', seq', hw'⟩ := transaction_postOnce_tables env' posting h.ready.2
  have hgrows := (transaction_postOnce_grows env posting h.ready.1).1
  have hgrows' := (transaction_postOnce_grows env' posting h.ready.2).1
  have hframe : ∀ {t t' : LedgerTables},
    (transaction (EconomyLab.postOnce env posting) w).2.ledger.tables = t →
      (transaction (EconomyLab.postOnce env' posting) w').2.ledger.tables = t' →
      t'.balances = t.balances → t'.heads = t.heads →
      t'.log.map StoredPosting.undated = t.log.map StoredPosting.undated →
      Twin (transaction (EconomyLab.postOnce env posting) w).2
        (transaction (EconomyLab.postOnce env' posting) w').2 := by
    rintro t t' rfl rfl hb hh hl
    refine ⟨⟨hgrows.ready, hgrows'.ready⟩, hb, hh, hl, ?_, ?_⟩
    · rw [hgrows.movements, hgrows'.movements]
      exact h.movements
    · intro a
      simp only [World.pendingOf, hgrows.reservations, hgrows'.reservations]
      exact h.pending a
  rw [h.findPosting, hdigest] at hw'
  cases hf : w.ledger.tables.findPosting posting.txnId with
  | some found =>
    simp only [hf] at hw hw'
    exact ⟨hw'.1.trans hw.1.symm, hframe hw.2 hw'.2 h.balances h.heads h.log⟩
  | none =>
    simp only [hf] at hw hw'
    rcases entryTables_undated h.balances h.heads h.log env.digest now now' seq seq' posting with
      ⟨e, he, he'⟩ | ⟨u, u', hu, hu', hb, hh, hl⟩
    · simp only [he] at hw
      simp only [he'] at hw'
      exact ⟨hw'.1.trans hw.1.symm, hframe hw.2 hw'.2 h.balances h.heads h.log⟩
    · simp only [hu] at hw
      simp only [hu'] at hw'
      exact ⟨hw'.1.trans hw.1.symm, hframe hw.2 hw'.2 hb hh hl⟩

end Twins

end EconomyLab

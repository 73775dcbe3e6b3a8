import EconomyLab.Ledger.Indexes

/-!
# Runs of the in-memory ledger

Every run of entries, prunes, transactions and savepoints keeps the indexes exact, and
rolling back returns every table to what it was.
-/

namespace EconomyLab

open Foundation

variable (digest : Digest) (now : Int) (posting : Posting) (l : MemoryLedger)

theorem append_cases : (∃ e, (append digest now posting l).1 = .error e ∧
      (append digest now posting l).2.book = l.book) ∨
    (∃ row next, advanceChain digest l.tables.heads posting = .ok row.links ∧
      nextBalances l.tables.balances row.legs = .ok next ∧ row.posting = posting ∧
      row.postedAt = now ∧ row.seq = l.seq + 1 ∧
      append digest now posting l =
        (.ok ⟨row.txnId, now, row.legs, row.links, row.fields⟩,
          ⟨l.book.write (applyPosting l.tables row next) (undoPosting row (postingUndo l.tables row)),
            l.seq + 1⟩)) := by
  cases hlinks : advanceChain digest l.tables.heads posting with
  | error e =>
    left
    exact ⟨e, by simp [append, hlinks], by simp [append, hlinks]⟩
  | ok links =>
    cases hnext : nextBalances l.book.rows.balances posting.legs with
    | error e =>
      left
      refine ⟨e, ?_, ?_⟩ <;>
        simp [append, hlinks, commitPosting, hnext, bind, Except.bind]
    | ok next =>
      right
      refine ⟨⟨posting.txnId, posting.legs, posting.fields, now, l.seq + 1, links⟩, next, rfl, hnext,
        rfl, rfl, rfl, ?_⟩
      simp only [append, hlinks]
      simp [commitPosting, hnext, bind, Except.bind, pure, Except.pure, MemoryLedger.tables]

/-- The four checks a posting passed on its way to `append`. -/
structure Checked (t : LedgerTables) (posting : Posting) : Prop where
  singleCurrency : assertSingleCurrencyPerLeg posting = .ok ()
  balanced : assertBalanced posting = .ok ()
  known : assertKnownAccounts isKnownAccount posting = .ok ()
  covered : assertNoOverdraft t.balance posting = .ok ()

theorem postEntry_cases : (∃ e, postEntry digest now posting l = (.error e, l)) ∨
    (Checked l.tables (dropZeroLegs posting) ∧
      postEntry digest now posting l = append digest now (dropZeroLegs posting) l) := by
  cases h1 : assertSingleCurrencyPerLeg (dropZeroLegs posting) with
  | error e => exact Or.inl ⟨e, by simp [postEntry, h1, bind, Except.bind]⟩
  | ok u1 =>
    cases h2 : assertBalanced (dropZeroLegs posting) with
    | error e => exact Or.inl ⟨e, by simp [postEntry, h1, h2, bind, Except.bind]⟩
    | ok u2 =>
      cases h3 : assertKnownAccounts isKnownAccount (dropZeroLegs posting) with
      | error e => exact Or.inl ⟨e, by simp [postEntry, h1, h2, h3, bind, Except.bind]⟩
      | ok u3 =>
        cases h4 : assertNoOverdraft l.tables.balance (dropZeroLegs posting) with
        | error e => exact Or.inl ⟨e, by simp [postEntry, h1, h2, h3, h4, bind, Except.bind]⟩
        | ok u4 =>
          right
          exact ⟨⟨h1, h2, h3, h4⟩, by simp [postEntry, h1, h2, h3, h4, bind, Except.bind]⟩

theorem postEntry_row : (∃ e, (postEntry digest now posting l).1 = .error e ∧
      (postEntry digest now posting l).2.book = l.book) ∨
    (∃ row next, Checked l.tables row.posting ∧ row.posting = dropZeroLegs posting ∧
      advanceChain digest l.tables.heads row.posting = .ok row.links ∧
      nextBalances l.tables.balances row.legs = .ok next ∧
      row.postedAt = now ∧ row.seq = l.seq + 1 ∧
      postEntry digest now posting l =
        (.ok ⟨row.txnId, now, row.legs, row.links, row.fields⟩,
          ⟨l.book.write (applyPosting l.tables row next) (undoPosting row (postingUndo l.tables row)),
            l.seq + 1⟩)) := by
  rcases postEntry_cases digest now posting l with ⟨e, h⟩ | ⟨hc, h⟩
  · exact Or.inl ⟨e, by rw [h], by rw [h]⟩
  · rw [h]
    rcases append_cases digest now (dropZeroLegs posting) l with h' | h'
    · exact Or.inl h'
    · obtain ⟨row, next, hlinks, hnext, hrow, hat, hseq, happ⟩ := h'
      right
      rw [← hrow] at hc hlinks
      exact ⟨row, next, hc, hrow, hlinks, hnext, hat, hseq, happ⟩

theorem postEntry_book : (∃ e, (postEntry digest now posting l).1 = .error e ∧
      (postEntry digest now posting l).2.book = l.book) ∨
    (∃ txn row next, ZeroSum row.legs ∧ (∀ link ∈ row.links, link.Hex) ∧
      nextBalances l.tables.balances row.legs = .ok next ∧ row.posting = dropZeroLegs posting ∧
      (postEntry digest now posting l).1 = .ok txn ∧
      (postEntry digest now posting l).2.book =
        l.book.write (applyPosting l.tables row next) (undoPosting row (postingUndo l.tables row))) := by
  rcases postEntry_row digest now posting l with h | h
  · exact Or.inl h
  · obtain ⟨row, next, hc, hrow, hlinks, hnext, -, -, happ⟩ := h
    right
    rw [happ]
    exact ⟨_, row, next, assertBalanced_zeroSum hc.balanced, advanceChain_hex hlinks, hnext, hrow,
      rfl, rfl⟩

/-! ## Runs -/

/-- What may happen inside a transaction; a savepoint is a mark its holder rolls back to. -/
inductive Write
  | entry (now : Int) (posting : Posting)
  | prune (txnIds : List String)
  | rollbackTo (mark : Nat)

inductive Command
  | write (w : Write)
  | begin
  | commit
  | rollback

/-- The ledger beside the history its callers have seen. -/
structure Observed where
  ledger : MemoryLedger
  history : Versioned History

def Observed.start : Observed := ⟨createLedgerStore, ⟨History.empty, none⟩⟩

def Write.run (digest : Digest) (w : Write) (l : MemoryLedger) : MemoryLedger :=
  match w with
  | .entry now posting => (postEntry digest now posting l).2
  | .prune txnIds => pruneFromLog txnIds l
  | .rollbackTo mark => { l with book := l.book.rollbackTo mark }

/-- A committed entry enters the history as the row it left at the end of the log. -/
def Write.observe (digest : Digest) (w : Write) (o : Observed) : Versioned History :=
  match w with
  | .entry now posting =>
    match (postEntry digest now posting o.ledger).1, (w.run digest o.ledger).tables.log.getLast? with
    | .ok _, some row => o.history.write (o.history.rows.append row)
    | _, _ => o.history
  | .prune txnIds =>
    let pruned := o.history.rows.prune txnIds
    if pruned.kept.length = o.history.rows.kept.length then o.history else o.history.write pruned
  | .rollbackTo mark => o.history.rollbackTo mark

def Command.step (digest : Digest) (o : Observed) : Command → Observed
  | .write w => ⟨w.run digest o.ledger, w.observe digest o⟩
  | .begin => ⟨{ o.ledger with book := o.ledger.book.begin.getD o.ledger.book },
      o.history.begin.getD o.history⟩
  | .commit => ⟨{ o.ledger with book := o.ledger.book.commit }, o.history.commit⟩
  | .rollback => ⟨{ o.ledger with book := o.ledger.book.rollback }, o.history.rollback⟩

def runFrom (digest : Digest) (o : Observed) (cmds : List Command) : Observed :=
  cmds.foldl (Command.step digest) o

def runLedger (digest : Digest) (cmds : List Command) : Observed := runFrom digest Observed.start cmds

theorem runLedger_append (cmds more : List Command) :
    runLedger digest (cmds ++ more) = runFrom digest (runLedger digest cmds) more :=
  List.foldl_append

def Command.isPrune : Command → Bool
  | .write (.prune _) => true
  | _ => false

/-- The journaled tables index the observed history, version by version. -/
def Observed.Exact (o : Observed) : Prop := Simulates Honest o.ledger.book o.history

theorem Observed.start_exact : Observed.start.Exact := ⟨Honest.empty, trivial⟩

variable {o : Observed}

theorem Write.run_exact (w : Write) (h : o.Exact) :
    Simulates Honest (w.run digest o.ledger).book (w.observe digest o) := by
  cases w with
  | entry now posting =>
    simp only [Write.run, Write.observe]
    rcases postEntry_book digest now posting o.ledger with
      ⟨e, hres, hbook⟩ | ⟨txn, row, next, hz, hlinks, hnext, -, hres, hbook⟩
    · rw [hres, hbook]
      exact h
    · have hlast : (postEntry digest now posting o.ledger).2.tables.log.getLast? = some row := by
        simp [MemoryLedger.tables, hbook, Journaled.write, Journaled.record, applyPosting]
      rw [hres, hlast, hbook]
      exact h.write (h.rows.applyPosting hz hlinks hnext)
        (undoPosting_applyPosting h.rows.indexes.noEmptyLots h.rows.indexes.compact hnext)
  | prune txnIds =>
    have hlog : o.ledger.book.rows.log = o.history.rows.kept := h.rows.indexes.log
    simp only [Write.run, Write.observe, pruneFromLog, MemoryLedger.tables, History.prune, hlog]
    by_cases hlen : (o.history.rows.kept.filter (·.txnId ∉ txnIds)).length =
        o.history.rows.kept.length
    · simp only [hlen, if_true]
      exact h
    · have hp := h.rows.prune txnIds
      rw [hlog] at hp
      simp only [hlen, if_false]
      refine h.write hp ?_
      simp [← hlog]
  | rollbackTo mark => exact h.rollbackTo mark

theorem Command.step_exact (h : o.Exact) (c : Command) : (c.step digest o).Exact := by
  cases c with
  | write w => exact w.run_exact digest h
  | begin => exact Simulates.begin h
  | commit => exact Simulates.commit h
  | rollback => exact Simulates.rollback h

theorem runFrom_exact (h : o.Exact) (cmds : List Command) : (runFrom digest o cmds).Exact := by
  induction cmds generalizing o with
  | nil => exact h
  | cons c cmds ih => exact ih (c.step_exact digest h)

theorem runLedger_exact (cmds : List Command) : (runLedger digest cmds).Exact :=
  runFrom_exact digest Observed.start_exact cmds

theorem Observed.Exact.tables_eq {o o' : Observed} (h : o.Exact) (h' : o'.Exact)
    (hh : o.history.rows = o'.history.rows) : o.ledger.tables = o'.ledger.tables :=
  h.rows.indexes.unique (hh ▸ h'.rows.indexes)

theorem Write.observe_versionAt {w : Write} {m : Nat} {v : History}
    (h : o.history.versionAt m = some v) (hw : ∀ n, w = .rollbackTo n → m ≤ n) :
    (w.observe digest o).versionAt m = some v := by
  cases w with
  | entry now posting =>
    simp only [Write.observe]
    split
    · exact Versioned.versionAt_write h _
    · exact h
  | prune txnIds =>
    simp only [Write.observe]
    split
    · exact h
    · exact Versioned.versionAt_write h _
  | rollbackTo n => exact Versioned.versionAt_rollbackTo h (hw n rfl)

theorem runFrom_versionAt {ws : List Write} {m : Nat} {v : History}
    (h : o.history.versionAt m = some v) (hw : ∀ n, Write.rollbackTo n ∈ ws → m ≤ n) :
    (runFrom digest o (ws.map Command.write)).history.versionAt m = some v := by
  induction ws generalizing o with
  | nil => exact h
  | cons w ws ih =>
    refine ih (o := Command.step digest o (.write w)) ?_ ?_
    · refine w.observe_versionAt digest h ?_
      intro n hn
      exact hw n (hn ▸ List.mem_cons_self)
    · intro n hn
      exact hw n (List.mem_cons_of_mem _ hn)

theorem begin_versionAt (hclosed : o.history.recording = false) (digest : Digest) :
    (Command.begin.step digest o).history.versionAt 0 = some o.history.rows := by
  obtain ⟨l, ⟨rows, past⟩⟩ := o
  cases past with
  | none => simp [Command.step, Versioned.begin, Versioned.versionAt, Versioned.popTo]
  | some past => simp [Versioned.recording] at hclosed

theorem rollback_restores (h : o.Exact) (hclosed : o.ledger.book.recording = false) (ws : List Write) :
    (runFrom digest o (.begin :: ws.map Command.write ++ [.rollback])).ledger.tables =
      o.ledger.tables := by
  refine (runFrom_exact digest h _).tables_eq h ?_
  rw [h.recording_eq] at hclosed
  have hv := runFrom_versionAt digest (begin_versionAt hclosed digest)
    fun n (_ : Write.rollbackTo n ∈ ws) => Nat.zero_le n
  simp only [runFrom, List.cons_append, List.foldl_cons, List.foldl_append, List.foldl_nil]
  exact Versioned.rollback_rows hv

theorem rollbackTo_restores (h : o.Exact) (hopen : o.ledger.book.recording = true) {ws : List Write}
    (hw : ∀ m, Write.rollbackTo m ∈ ws → o.ledger.book.mark ≤ m) :
    (runFrom digest o
      (ws.map Command.write ++ [.write (.rollbackTo o.ledger.book.mark)])).ledger.tables =
      o.ledger.tables := by
  refine (runFrom_exact digest h _).tables_eq h ?_
  rw [h.recording_eq] at hopen
  rw [h.mark_eq] at hw ⊢
  have hv := runFrom_versionAt digest (Versioned.versionAt_mark hopen) hw
  simp only [runFrom, List.foldl_append, List.foldl_cons, List.foldl_nil]
  exact Versioned.rollbackTo_rows hv

/-- In every version of the history nothing is missing from the log. -/
def Unpruned (v : Versioned History) : Prop :=
  v.rows.kept = v.rows.appended ∧ ∀ past, v.past = some past → ∀ h ∈ past, h.kept = h.appended

theorem unpruned_iff {v : Versioned History} : Unpruned v ↔ v.All fun h => h.kept = h.appended :=
  Iff.rfl

theorem Command.step_unpruned (h : Unpruned o.history) {c : Command}
    (hc : c.isPrune = false) : Unpruned (c.step digest o).history := by
  rw [unpruned_iff] at h ⊢
  cases c with
  | write w =>
    cases w with
    | entry now posting =>
      simp only [Command.step, Write.observe]
      split
      · refine h.write ?_
        simp [History.append, h.1]
      · exact h
    | prune txnIds => cases hc
    | rollbackTo mark => exact h.rollbackTo mark
  | begin => exact h.begin
  | commit => exact h.commit
  | rollback => exact h.rollback

theorem runLedger_unpruned {cmds : List Command}
    (h : ∀ c ∈ cmds, c.isPrune = false) : Unpruned (runLedger digest cmds).history := by
  have key : ∀ {o : Observed}, Unpruned o.history → Unpruned (runFrom digest o cmds).history := by
    induction cmds with
    | nil => exact fun ho => ho
    | cons c cmds ih =>
      intro o ho
      exact ih (fun c' hc' => h c' (List.mem_cons_of_mem _ hc'))
        (c.step_unpruned digest ho (h c List.mem_cons_self))
  exact key ⟨rfl, by simp [Observed.start]⟩

/-- Every run keeps the five indexes exact; a rollback and a return to a savepoint put every
table back. -/
theorem ledger_indexes_exact (digest : Digest) (cmds : List Command) :
    let o := runLedger digest cmds
    let t := o.ledger.tables
    let h := o.history.rows
    Indexes t h ∧
    (h.kept = h.appended → ∀ a, t.balanceOf a = total (deltas (legsOf t.log)) a) ∧
    ((∀ c ∈ cmds, c.isPrune = false) → h.kept = h.appended) ∧
    (o.ledger.book.recording = false → ∀ ws : List Write,
      (runLedger digest (cmds ++ (.begin :: ws.map Command.write ++ [.rollback]))).ledger.tables = t) ∧
    (o.ledger.book.recording = true → ∀ ws : List Write,
      (∀ m, Write.rollbackTo m ∈ ws → o.ledger.book.mark ≤ m) →
      (runLedger digest (cmds ++ (ws.map Command.write ++
        [.write (.rollbackTo o.ledger.book.mark)]))).ledger.tables = t) := by
  intro o t h
  have hexact : o.Exact := runLedger_exact digest cmds
  refine ⟨hexact.rows.indexes, ?_, ?_, ?_, ?_⟩
  · intro hkept a
    have hlog : t.log = h.appended := hexact.rows.indexes.log.trans hkept
    rw [hlog]
    exact hexact.rows.indexes.balanceOf a
  · intro hp
    exact (runLedger_unpruned digest hp).1
  · intro hclosed ws
    rw [runLedger_append]
    exact rollback_restores digest hexact hclosed ws
  · intro hopen ws hw
    rw [runLedger_append]
    exact rollbackTo_restores digest hexact hopen hw

/-- A two-leg entry, a multi-leg one and a prune inside a transaction are all taken back. -/
theorem ledger_indexes_exact_rolled_back :
    let ten : Amount := ⟨.credit, 10, by decide⟩
    let minusTen : Amount := ⟨.credit, -10, by decide⟩
    let five : Amount := ⟨.credit, 5, by decide⟩
    let minusFive : Amount := ⟨.credit, -5, by decide⟩
    let issue : Posting := ⟨"txn_1", [⟨SYSTEM.STORED_VALUE, ten⟩, ⟨spendable "usr_a", minusTen⟩], []⟩
    let split : Posting := ⟨"txn_2", [⟨spendable "usr_a", five⟩, ⟨spendable "usr_a", five⟩,
      ⟨spendable "usr_b", minusFive⟩, ⟨spendable "usr_b", minusFive⟩], []⟩
    let ws : List Write := [.entry 0 issue, .entry 1 split, .prune ["txn_1"], .rollbackTo 2]
    (runLedger id (.begin :: ws.map Command.write ++ [.rollback])).ledger.tables =
        LedgerTables.empty ∧
      (runLedger id (.begin :: (ws.map Command.write ++ [.write (.rollbackTo 0)]))).ledger.tables =
        LedgerTables.empty ∧
      (runLedger id []).history.rows.kept = (runLedger id []).history.rows.appended := by
  intro ten minusTen five minusFive issue split ws
  refine ⟨?_, ?_, ?_⟩
  · exact (ledger_indexes_exact id []).2.2.2.1 rfl ws
  · refine (ledger_indexes_exact id [.begin]).2.2.2.2 rfl ws ?_
    intro m _
    exact Nat.zero_le m
  · exact (ledger_indexes_exact id []).2.2.1 (by simp)

end EconomyLab

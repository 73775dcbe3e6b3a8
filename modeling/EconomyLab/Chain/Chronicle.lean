import EconomyLab.Chain.Archive
import EconomyLab.Chain.Lineage

/-!
# Runs of the books

Postings, seals and archive runs in any order, each possibly cut short by a crash. Beside
the books stands what a keeper would remember: every row ever committed and the leaves of
the last checkpoint.
-/

namespace EconomyLab

open Foundation

inductive ChainStep
  | post (now : Int) (posting : Posting)
  | checkpoint (now : Int) (id : String) (crashed : Bool)
  | archive (input : ArchiveSweepInput) (stop : Option (Nat × ArchiveStop))

/-- `interrupted` says that a crash followed the last `put`. -/
structure Chronicle where
  books : Books
  appended : List StoredPosting
  signed : List SealHead
  interrupted : Bool

def Chronicle.start : Chronicle := ⟨Books.start, [], [], false⟩

def ChainStep.step (digest : Digest) (signer : Signer) (k : Chronicle) : ChainStep → Chronicle
  | .post now posting =>
    match k.books.post digest now posting with
    | (.error _, books) => { k with books }
    | (.ok _, books) => { k with books, appended := k.appended ++ books.log.getLast?.toList }
  | .checkpoint now id crashed =>
    match signCheckpoint digest signer k.books.view k.books.checkpoints now id with
    | .error _ => k
    | .ok (_, _, leaves) =>
      { k with
        books := k.books.record digest signer now id crashed
        signed := leaves
        interrupted := crashed }
  | .archive input stop => { k with books := (archiveSealedPrefix digest signer input stop k.books).2 }

def runBooks (digest : Digest) (signer : Signer) (steps : List ChainStep) : Chronicle :=
  steps.foldl (ChainStep.step digest signer) Chronicle.start

/-! ## What every run keeps -/

variable (digest : Digest) (signer : Signer) (now : Int)

theorem postEntry_seq_le (posting : Posting) (l : MemoryLedger) :
    l.seq ≤ (postEntry digest now posting l).2.seq := by
  rcases postEntry_cases digest now posting l with ⟨e, h⟩ | ⟨-, h⟩
  · rw [h]
  · rw [h]
    unfold append
    split
    · exact le_rfl
    · simp only
      split <;> exact Nat.le_succ _

theorem pruneFromLog_honest {l : MemoryLedger} {h : History} (hh : Honest l.tables h)
    (txnIds : List String) : Honest (pruneFromLog txnIds l).tables (h.prune txnIds) := by
  have hlog : l.tables.log = h.kept := hh.indexes.log
  unfold pruneFromLog
  simp only
  split
  · rename_i hlen
    have hsame : h.kept.filter (·.txnId ∉ txnIds) = h.kept := by
      rw [← hlog]
      exact List.filter_sublist.eq_of_length hlen
    unfold History.prune
    rw [hsame]
    exact hh
  · exact hh.prune txnIds

/-- The rows ever committed, in order, with the ledger's tables and accounts to match. -/
structure Faithful (digest : Digest) (s : Books) (appended : List StoredPosting) : Prop where
  honest : Honest s.ledger.tables ⟨appended, s.log⟩
  chained : Chained digest appended
  accounts : s.accounts.Nodup
  covers : ∀ a, a ∈ s.accounts ↔ a ∈ (legsOf appended).map Leg.account
  ordered : appended.Pairwise fun row later => row.seq < later.seq
  bounded : ∀ row ∈ appended, row.seq ≤ s.ledger.seq

theorem Faithful.start : Faithful digest Books.start [] where
  honest := Honest.empty
  chained := Chained.nil digest
  accounts := List.nodup_nil
  covers := by simp [Books.start, legsOf]
  ordered := List.Pairwise.nil
  bounded := by simp

theorem Books.post_cases (posting : Posting) (s : Books) :
    (∃ e ledger, s.post digest now posting = (.error e, { s with ledger }) ∧
      ledger.book = s.ledger.book ∧ s.ledger.seq ≤ ledger.seq) ∨
    (∃ row next ledger, row.posting = dropZeroLegs posting ∧ row.postedAt = now ∧
      row.seq = s.ledger.seq + 1 ∧
      Checked s.ledger.tables row.posting ∧ advanceChain digest s.ledger.tables.heads row.posting =
        .ok row.links ∧
      nextBalances s.ledger.tables.balances row.legs = .ok next ∧
      ledger.tables = applyPosting s.ledger.tables row next ∧ ledger.seq = row.seq ∧
      s.post digest now posting = (.ok ⟨row.txnId, now, row.legs, row.links, row.fields⟩, { s with
        ledger
        accounts := s.accounts ++ (distinctAccounts row.legs).filter (· ∉ s.accounts) })) := by
  have hseq := postEntry_seq_le digest now posting s.ledger
  rcases postEntry_row digest now posting s.ledger with ⟨e, hres, hbook⟩ |
    ⟨row, next, hc, hrow, hlinks, hnext, hat, hrseq, happ⟩
  · left
    refine ⟨e, (postEntry digest now posting s.ledger).2, ?_, hbook, hseq⟩
    unfold Books.post
    split
    · rename_i e' ledger hpost
      rw [hpost] at hres ⊢
      cases hres
      rfl
    · rename_i txn ledger hpost
      rw [hpost] at hres
      cases hres
  · right
    have hpost : s.post digest now posting =
      (.ok ⟨row.txnId, now, row.legs, row.links, row.fields⟩, { s with
        ledger := (postEntry digest now posting s.ledger).2
        accounts := s.accounts ++ (distinctAccounts row.legs).filter (· ∉ s.accounts) }) := by
      unfold Books.post
      rw [happ]
    refine ⟨row, next, _, hrow, hat, hrseq, hc, hlinks, hnext, ?_, ?_, hpost⟩
    · rw [happ]
      rfl
    · rw [happ]
      exact hrseq.symm

theorem Faithful.post {digest : Digest} {s : Books} {appended : List StoredPosting}
    (h : Faithful digest s appended) {row : StoredPosting} {next : Table AccountRef Int}
    {ledger : MemoryLedger} (hseq : row.seq = s.ledger.seq + 1)
    (hc : Checked s.ledger.tables row.posting)
    (hlinks : advanceChain digest s.ledger.tables.heads row.posting = .ok row.links)
    (hnext : nextBalances s.ledger.tables.balances row.legs = .ok next)
    (htables : ledger.tables = applyPosting s.ledger.tables row next) (hlast : ledger.seq = row.seq) :
    Faithful digest { s with
      ledger
      accounts := s.accounts ++ (distinctAccounts row.legs).filter (· ∉ s.accounts) }
      (appended ++ [row]) where
  honest := by
    have hlog : ledger.tables.log = s.log ++ [row] := by
      rw [htables]
      rfl
    have happ := h.honest.applyPosting (assertBalanced_zeroSum hc.balanced) (advanceChain_hex hlinks) hnext
    unfold Books.log
    rw [hlog, htables]
    exact happ
  chained := h.chained.append (advanceChain_linked h.honest.indexes.heads hlinks)
  accounts := by
    rw [List.nodup_append]
    refine ⟨h.accounts, (distinctAccounts_nodup _).filter _, ?_⟩
    rintro a ha b hb rfl
    simpa [ha] using (List.mem_filter.mp hb).2
  covers := by
    intro a
    have ha := h.covers a
    rw [List.mem_append, List.mem_filter, mem_distinctAccounts, legsOf_append, List.map_append,
      List.mem_append, legsOf_singleton, ← ha, decide_eq_true_eq]
    tauto
  ordered := by
    rw [List.pairwise_append]
    refine ⟨h.ordered, List.pairwise_singleton _ _, ?_⟩
    intro r hr r' hr'
    rw [List.mem_singleton] at hr'
    have hle := h.bounded r hr
    rw [hr', hseq]
    omega
  bounded := by
    intro r hr
    rcases List.mem_append.mp hr with hr | hr
    · have hle := h.bounded r hr
      simp only [hlast, hseq]
      omega
    · rw [List.mem_singleton] at hr
      simp only [hlast, hr, le_refl]

theorem Faithful.of_ledger {digest : Digest} {s s' : Books} {appended : List StoredPosting}
    (h : Faithful digest s appended) (hledger : s'.ledger = s.ledger)
    (haccounts : s'.accounts = s.accounts) :
    Faithful digest s' appended where
  honest := by
    unfold Books.log
    rw [hledger]
    exact h.honest
  chained := h.chained
  accounts := haccounts ▸ h.accounts
  covers := by
    rw [haccounts]
    exact h.covers
  ordered := h.ordered
  bounded := by
    rw [hledger]
    exact h.bounded

theorem Faithful.prune {digest : Digest} {s : Books} {appended : List StoredPosting}
    (h : Faithful digest s appended) (page : List StoredPosting) :
    Faithful digest (s.prune page) appended where
  honest := by
    have hp := pruneFromLog_honest h.honest (page.map StoredPosting.txnId)
    have hlog : (s.prune page).log =
      (History.prune ⟨appended, s.log⟩ (page.map StoredPosting.txnId)).kept :=
      hp.indexes.log
    rw [hlog]
    exact hp
  chained := h.chained
  accounts := h.accounts
  covers := h.covers
  ordered := h.ordered
  bounded := by
    intro row hr
    have hseq : (s.prune page).ledger.seq = s.ledger.seq := by
      unfold Books.prune pruneFromLog
      simp only
      split <;> rfl
    rw [hseq]
    exact h.bounded row hr

/-- A seal writes to the checkpoint store only. -/
theorem Books.record_ledger (id : String)
    (crashed : Bool) (s : Books) : (s.record digest signer now id crashed).ledger = s.ledger ∧
      (s.record digest signer now id crashed).accounts = s.accounts ∧
      (s.record digest signer now id crashed).sink = s.sink := by
  unfold Books.record
  split <;> exact ⟨rfl, rfl, rfl⟩

theorem ChainStep.step_faithful {digest : Digest} {signer : Signer} {k : Chronicle}
    (h : Faithful digest k.books k.appended) (c : ChainStep) :
    Faithful digest (c.step digest signer k).books (c.step digest signer k).appended := by
  cases c with
  | post now posting =>
    simp only [ChainStep.step]
    rcases Books.post_cases digest now posting k.books with ⟨e, ledger, hpost, hbook, hle⟩ |
      ⟨row, next, ledger, -, -, hseq, hc, hlinks, hnext, htables, hlast, hpost⟩
    · rw [hpost]
      refine ⟨?_, h.chained, h.accounts, h.covers, h.ordered, fun r hr => (h.bounded r hr).trans hle⟩
      simp only [Books.log, MemoryLedger.tables, hbook]
      exact h.honest
    · rw [hpost]
      have hrow : ledger.tables.log.getLast? = some row := by
        rw [htables]
        simp [applyPosting]
      simp only [Books.log, hrow]
      exact h.post hseq hc hlinks hnext htables hlast
  | checkpoint now id crashed =>
    simp only [ChainStep.step]
    split
    · exact h
    · obtain ⟨hledger, haccounts, -⟩ := Books.record_ledger digest signer now id crashed k.books
      exact h.of_ledger hledger haccounts
  | archive input stop =>
    apply archiveSealedPrefix_keeps (P := fun s => Faithful digest s k.appended)
    · exact fun s page hs => hs.of_ledger rfl rfl
    · exact fun s checkpoints hs => hs.of_ledger rfl rfl
    · exact fun s page hs => hs.prune page
    · exact h

theorem runBooks_faithful (steps : List ChainStep) :
    Faithful digest (runBooks digest signer steps).books (runBooks digest signer steps).appended := by
  have key : ∀ k : Chronicle, Faithful digest k.books k.appended →
      Faithful digest (steps.foldl (ChainStep.step digest signer) k).books
        (steps.foldl (ChainStep.step digest signer) k).appended := by
    induction steps with
    | nil => exact fun k h => h
    | cons c steps ih => exact fun k h => ih _ (c.step_faithful h)
  exact key Chronicle.start (Faithful.start digest)

/-- An entry reads the balances, the heads and the sequence, never the log. -/
theorem postEntry_congr (posting : Posting) {l l' : MemoryLedger}
    (hheads : l.tables.heads = l'.tables.heads) (hbalances : l.tables.balances = l'.tables.balances)
    (hseq : l.seq = l'.seq) :
    (postEntry digest now posting l).1 = (postEntry digest now posting l').1 ∧
      (postEntry digest now posting l).2.seq = (postEntry digest now posting l').2.seq := by
  have hbalance : l.tables.balance = l'.tables.balance := by
    funext account
    simp only [LedgerTables.balance, LedgerTables.balanceOf, hbalances]
  have happend : ∀ cleaned, (append digest now cleaned l).1 = (append digest now cleaned l').1 ∧
      (append digest now cleaned l).2.seq = (append digest now cleaned l').2.seq := by
    intro cleaned
    unfold append commitPosting
    simp only [MemoryLedger.tables] at hheads hbalances
    simp only [MemoryLedger.tables, hheads, hbalances, hseq]
    cases advanceChain digest l'.book.rows.heads cleaned with
    | error e => exact ⟨rfl, hseq⟩
    | ok links =>
      cases hnext : nextBalances l'.book.rows.balances cleaned.legs with
      | error e => simp [bind, Except.bind]
      | ok next => simp [bind, Except.bind, pure, Except.pure]
  unfold postEntry
  simp only [hbalance]
  split
  · exact ⟨rfl, hseq⟩
  · exact happend _

structure SameHistoryOf (k k' : Chronicle) : Prop where
  appended : k.appended = k'.appended
  seq : k.books.ledger.seq = k'.books.ledger.seq

theorem SameHistoryOf.tables {digest : Digest} {k k' : Chronicle} (h : SameHistoryOf k k')
    (hk : Faithful digest k.books k.appended) (hk' : Faithful digest k'.books k'.appended) :
    k.books.ledger.tables.heads = k'.books.ledger.tables.heads ∧
      k.books.ledger.tables.balances = k'.books.ledger.tables.balances := by
  constructor
  · ext1 account
    rw [hk.honest.indexes.heads, hk'.honest.indexes.heads, h.appended]
  · ext1 account
    rw [hk.honest.indexes.balances, hk'.honest.indexes.balances, h.appended]

theorem SameHistoryOf.post {digest : Digest} {signer : Signer} {k k' : Chronicle} (h : SameHistoryOf k k')
    (hk : Faithful digest k.books k.appended) (hk' : Faithful digest k'.books k'.appended) (now : Int)
    (posting : Posting) : SameHistoryOf ((ChainStep.post now posting).step digest signer k)
      ((ChainStep.post now posting).step digest signer k') := by
  obtain ⟨hheads, hbalances⟩ := h.tables hk hk'
  obtain ⟨hresult, hseq⟩ := postEntry_congr digest now posting hheads hbalances h.seq
  have hanswer : ∀ s : Books, (s.post digest now posting).1 = (postEntry digest now posting s.ledger).1 ∧
      (s.post digest now posting).2.ledger = (postEntry digest now posting s.ledger).2 := by
    intro s
    unfold Books.post
    split
    · rename_i hpost
      simp [hpost]
    · rename_i hpost
      simp [hpost]
  have hone := (hanswer k.books).1.trans (hresult.trans (hanswer k'.books).1.symm)
  have htwo : (k.books.post digest now posting).2.ledger.seq =
      (k'.books.post digest now posting).2.ledger.seq := by
    rw [(hanswer k.books).2, (hanswer k'.books).2, hseq]
  rcases Books.post_cases digest now posting k.books with ⟨e, ledger, hpost, -, -⟩ |
    ⟨row, next, ledger, -, hat, hrseq, -, -, -, htables, -, hpost⟩
  · rcases Books.post_cases digest now posting k'.books with ⟨e', ledger', hpost', -, -⟩ |
      ⟨row', next', ledger', -, -, -, -, -, -, -, -, hpost'⟩
    · rw [hpost, hpost'] at htwo
      simp only [ChainStep.step, hpost, hpost']
      exact ⟨h.appended, htwo⟩
    · rw [hpost, hpost'] at hone
      cases hone
  · rcases Books.post_cases digest now posting k'.books with ⟨e', ledger', hpost', -, -⟩ |
      ⟨row', next', ledger', -, hat', hrseq', -, -, -, htables', -, hpost'⟩
    · rw [hpost, hpost'] at hone
      cases hone
    · rw [hpost, hpost'] at hone htwo
      have hrow : row = row' := by
        obtain ⟨txnId, legs, fields, postedAt, seq, links⟩ := row
        obtain ⟨txnId', legs', fields', postedAt', seq', links'⟩ := row'
        simp only [Except.ok.injEq, Transaction.mk.injEq, true_and] at hone
        simp only at hat hat' hrseq hrseq'
        obtain ⟨rfl, rfl, rfl, rfl⟩ := hone
        rw [hat, hat', hrseq, hrseq', h.seq]
      have hlast : ledger.tables.log.getLast? = some row := by
        rw [htables]
        simp [applyPosting]
      have hlast' : ledger'.tables.log.getLast? = some row' := by
        rw [htables']
        simp [applyPosting]
      simp only [ChainStep.step, hpost, hpost', Books.log, hlast, hlast']
      exact ⟨by rw [h.appended, hrow], htwo⟩

def ChainStep.posts : ChainStep → Bool
  | .post _ _ => true
  | _ => false

theorem ChainStep.step_history (k : Chronicle) {c : ChainStep}
    (hc : c.posts = false) : SameHistoryOf (c.step digest signer k) k := by
  cases c with
  | post now posting => cases hc
  | checkpoint now id crashed =>
    simp only [ChainStep.step]
    split
    · exact ⟨rfl, rfl⟩
    · exact ⟨rfl, congrArg MemoryLedger.seq (Books.record_ledger digest signer now id crashed k.books).1⟩
  | archive input stop =>
    refine ⟨rfl, ?_⟩
    apply archiveSealedPrefix_keeps (P := fun s => s.ledger.seq = k.books.ledger.seq)
    · exact fun s page hs => hs
    · exact fun s checkpoints hs => hs
    · intro s page hs
      unfold Books.prune pruneFromLog
      simp only
      split <;> exact hs
    · rfl

theorem runBooks_history (steps : List ChainStep)
    {kept : ChainStep → Bool} (hkept : ∀ c, c.posts = true → kept c = true) :
    SameHistoryOf (runBooks digest signer steps) (runBooks digest signer (steps.filter kept)) := by
  have trans : ∀ {k k' k'' : Chronicle}, SameHistoryOf k k' → SameHistoryOf k' k'' → SameHistoryOf k k'' :=
    fun h h' => ⟨h.appended.trans h'.appended, h.seq.trans h'.seq⟩
  have key : ∀ k k' : Chronicle, Faithful digest k.books k.appended →
    Faithful digest k'.books k'.appended →
      SameHistoryOf k k' → SameHistoryOf (steps.foldl (ChainStep.step digest signer) k)
        ((steps.filter kept).foldl (ChainStep.step digest signer) k') := by
    induction steps with
    | nil => exact fun k k' _ _ h => h
    | cons c steps ih =>
      intro k k' hk hk' h
      rw [List.foldl_cons, List.filter_cons]
      cases hc : c.posts with
      | true =>
        rw [if_pos (hkept c hc), List.foldl_cons]
        apply ih _ _ (c.step_faithful hk) (c.step_faithful hk')
        cases c with
        | post now posting => exact h.post hk hk' now posting
        | checkpoint now id crashed => cases hc
        | archive input stop => cases hc
      | false =>
        have hleft := trans (c.step_history digest signer k hc) h
        split
        · rw [List.foldl_cons]
          have hright := c.step_history digest signer k' hc
          exact ih _ _ (c.step_faithful hk) (c.step_faithful hk')
            (trans hleft ⟨hright.appended.symm, hright.seq.symm⟩)
        · exact ih _ _ (c.step_faithful hk) hk' hleft
  exact key _ _ (Faithful.start digest) (Faithful.start digest) ⟨rfl, rfl⟩

end EconomyLab

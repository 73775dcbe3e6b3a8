import EconomyLab.Chain.Preimage
import EconomyLab.Ledger.Runs

/-!
# Links and lineages

Every row of an honest ledger extends, for each account it touches, the head the rows
before it left. A lineage is one account's links in commit order.
-/

namespace EconomyLab

open Foundation Text

/-- What `lineage` yields: a posting with the link it added to one account. -/
structure StoredLink where
  txnId : String
  legs : List Leg
  fields : Meta
  prevHash : String
  hash : String

def StoredLink.posting (link : StoredLink) : Posting := ⟨link.txnId, link.legs, link.fields⟩

def StoredPosting.linkOf (row : StoredPosting) (account : AccountRef) : Option StoredLink :=
  (row.links.find? (·.account = account)).map fun link =>
    ⟨row.txnId, row.legs, row.fields, link.prevHash, link.hash⟩

/-- The links of one account; with `sinceHash`, only those after the link that carries it. -/
def lineageOf : List StoredPosting → AccountRef → Option String → List StoredLink
  | [], _, _ => []
  | row :: log, account, since =>
    match row.linkOf account, since with
    | none, since => lineageOf log account since
    | some link, none => link :: lineageOf log account none
    | some link, some sinceHash =>
      lineageOf log account (if link.hash = sinceHash then none else some sinceHash)

def recomputeLink (digest : Digest) (account : AccountRef) (link : StoredLink) :
    Except Fault String := do
  chainHash digest (← fromHex link.prevHash) account link.posting

/-! ## Heads of a history -/

theorem toHex_GENESIS : toHex GENESIS = GENESIS_HEX := by
  decide

/-- Genesis reads as 32 zero bytes through `fromHex` as well. -/
theorem hashBytes_eq (hex : String) : hashBytes hex = fromHex hex := by
  unfold hashBytes
  split
  · rename_i h
    rw [h, ← toHex_GENESIS, fromHex_toHex]
  · rfl

def chainHead (rows : List StoredPosting) (account : AccountRef) : String :=
  ((lastLink rows account).map Link.hash).getD GENESIS_HEX

structure Extends (digest : Digest) (before : List StoredPosting) (posting : Posting) (link : Link) :
    Prop where
  prev : link.prevHash = chainHead before link.account
  hash : ∃ bytes, fromHex link.prevHash = .ok bytes ∧
    chainHash digest bytes link.account posting = .ok link.hash

structure RowLinked (digest : Digest) (before : List StoredPosting) (row : StoredPosting) : Prop where
  accounts : row.links.map Link.account = distinctAccounts row.legs
  links : ∀ link ∈ row.links, Extends digest before row.posting link

def Chained (digest : Digest) (rows : List StoredPosting) : Prop :=
  ∀ before row after, rows = before ++ row :: after → RowLinked digest before row

theorem Chained.nil (digest : Digest) : Chained digest [] := by
  intro before row after h
  simp at h

variable {digest : Digest} {rows : List StoredPosting}

theorem Chained.append {row : StoredPosting}
    (h : Chained digest rows) (hr : RowLinked digest rows row) : Chained digest (rows ++ [row]) := by
  intro before row' after he
  rcases List.eq_nil_or_concat after with rfl | ⟨init, last, rfl⟩
  · obtain ⟨rfl, hrow⟩ := List.append_inj' he rfl
    rw [List.singleton_inj] at hrow
    exact hrow ▸ hr
  · rw [List.concat_eq_append, ← List.cons_append, ← List.append_assoc] at he
    exact h before row' init (List.append_inj' he rfl).1

theorem Chained.prefix {rows more : List StoredPosting}
    (h : Chained digest (rows ++ more)) : Chained digest rows := by
  intro before row after he
  exact h before row (after ++ more) (by simp [he])

theorem Chained.of_mem (h : Chained digest rows)
    {row : StoredPosting} (hm : row ∈ rows) : ∃ before, RowLinked digest before row := by
  obtain ⟨before, after, he⟩ := List.append_of_mem hm
  exact ⟨before, h before row after he⟩

theorem advanceLink_extends {heads : Table AccountRef String} {posting : Posting} {account : AccountRef}
    {link : Link} (hheads : ∀ a, heads.get a = (lastLink rows a).map Link.hash)
    (h : advanceLink digest heads posting account = .ok link) :
    link.account = account ∧ Extends digest rows posting link := by
  unfold advanceLink at h
  obtain ⟨prev, hprev, h⟩ := except_bind_ok.mp h
  obtain ⟨hash, hhash, h⟩ := except_bind_ok.mp h
  rw [except_pure_ok] at h
  subst h
  rw [hashBytes_eq] at hprev
  refine ⟨rfl, ?_, prev, hprev, hhash⟩
  simp [headOf, chainHead, hheads]

theorem advanceChain_linked {heads : Table AccountRef String} {row : StoredPosting}
    (hheads : ∀ a, heads.get a = (lastLink rows a).map Link.hash)
    (h : advanceChain digest heads row.posting = .ok row.links) : RowLinked digest rows row := by
  have key : ∀ (accounts : List AccountRef) (links : List Link),
      accounts.mapM (advanceLink digest heads row.posting) = .ok links →
      links.map Link.account = accounts ∧ ∀ link ∈ links, Extends digest rows row.posting link := by
    intro accounts
    induction accounts with
    | nil =>
      intro links hl
      simp only [List.mapM_nil, pure, Except.pure, Except.ok.injEq] at hl
      simp [← hl]
    | cons a accounts ih =>
      intro links hl
      rw [List.mapM_cons] at hl
      obtain ⟨link, hlink, hl⟩ := except_bind_ok.mp hl
      obtain ⟨rest, hrest, hl⟩ := except_bind_ok.mp hl
      rw [except_pure_ok] at hl
      subst hl
      obtain ⟨hacc, hext⟩ := advanceLink_extends hheads hlink
      obtain ⟨haccs, hexts⟩ := ih rest hrest
      refine ⟨by rw [List.map_cons, hacc, haccs], ?_⟩
      intro link' hm
      rcases List.mem_cons.mp hm with rfl | hm
      · exact hext
      · exact hexts link' hm
  obtain ⟨haccounts, hlinks⟩ := key _ _ h
  exact ⟨haccounts, hlinks⟩

def ChainedVersions (digest : Digest) (v : Versioned History) : Prop :=
  v.All fun h => Chained digest h.appended

theorem Command.step_chained {o : Observed} (he : o.Exact)
    (h : ChainedVersions digest o.history) (c : Command) :
    ChainedVersions digest (c.step digest o).history := by
  cases c with
  | write w =>
    cases w with
    | entry now posting =>
      simp only [Command.step, Write.observe, Write.run]
      rcases postEntry_row digest now posting o.ledger with ⟨e, hres, -⟩ |
          ⟨row, next, -, -, hlinks, -, -, -, happ⟩
      · rw [hres]
        exact h
      · have hlast : (postEntry digest now posting o.ledger).2.tables.log.getLast? = some row := by
          rw [happ]
          simp [MemoryLedger.tables, Journaled.write, Journaled.record, applyPosting]
        rw [hlast, happ]
        exact h.write (h.1.append (advanceChain_linked he.rows.indexes.heads hlinks))
    | prune txnIds =>
      simp only [Command.step, Write.observe]
      split
      · exact h
      · exact h.write h.1
    | rollbackTo mark => exact h.rollbackTo mark
  | begin => exact h.begin
  | commit => exact h.commit
  | rollback => exact h.rollback

theorem runLedger_chained (digest : Digest) (cmds : List Command) :
    ChainedVersions digest (runLedger digest cmds).history := by
  have key : ∀ {o : Observed}, o.Exact → ChainedVersions digest o.history →
      ChainedVersions digest (runFrom digest o cmds).history := by
    induction cmds with
    | nil => exact fun _ h => h
    | cons c cmds ih => exact fun he h => ih (c.step_exact digest he) (c.step_chained he h)
  exact key Observed.start_exact ⟨Chained.nil digest, by simp [Observed.start]⟩

end EconomyLab

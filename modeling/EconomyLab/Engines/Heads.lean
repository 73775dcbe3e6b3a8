import EconomyLab.Foundation.Overwrites
import EconomyLab.Ledger.Memory

/-!
# The chain heads a SQL transaction captures

A lock returns the head of each row with it, and the heads are kept for the transaction. An
append links onto captured heads, or queries them when one is missing; what it wrote is then
captured. The undo journal of the heads follows the savepoints of the database.
-/

namespace EconomyLab.Engines

open Foundation

/-- What is captured, with the journal of its overwrites. -/
abbrev TxHeads := Overwrites AccountRef String

/-- The links of a posting; an account without a head is at genesis. -/
def chainLinksFor (digest : Digest) (posting : Posting) (heads : Table AccountRef String) :
    Except Fault (List Link) :=
  (distinctAccounts posting.legs).mapM fun account => do
    let prevHex := (heads.get account).getD GENESIS_HEX
    let accountPrevHash ← hashBytes prevHex
    let hash ← chainHash digest accountPrevHash account posting
    return ⟨account, prevHex, hash⟩

/-- What one `append` or `appendAll` wrote. -/
abbrev Appended := List (Posting × List Link)

def advanceCapturedHeads (heads : TxHeads) (transactions : Appended) : TxHeads :=
  transactions.foldl (fun heads transaction =>
    transaction.2.foldl (fun heads link => heads.set link.account link.hash) heads) heads

/-- What the database answers to a statement. A refused call may leave rows half written. -/
inductive Answer
  | accepted
  | refused (left : Table AccountRef String)
  | conflict

/-- `post_entry` and `post_entries`: each account's last link hash becomes its `head_hash`. -/
def postRows (rows : Table AccountRef String) (links : List Link) : Table AccountRef String :=
  links.foldl (fun rows link => rows.set link.account link.hash) rows

def postAllRows (rows : Table AccountRef String) (transactions : Appended) : Table AccountRef String :=
  transactions.foldl (fun rows transaction => postRows rows transaction.2) rows

/-- The row of an account that has none, with a genesis head. -/
def plant (known : AccountRef → Bool) (rows : Table AccountRef String) (account : AccountRef) :
    Table AccountRef String :=
  if known account || rows.has account then rows else rows.set account GENESIS_HEX

/-! ## The transaction -/

/-- The heads that were given to one derivation of links, and the heads of the rows then. -/
structure HeadRead where
  posting : Posting
  given : Table AccountRef String
  view : Table AccountRef String

structure TxState where
  rows : Table AccountRef String
  heads : TxHeads
  written : Appended
  reads : List HeadRead

def TxState.start (committed : Table AccountRef String) : TxState := ⟨committed, Overwrites.empty, [], []⟩

def headsOf (source : AccountRef → Option String) (accounts : List AccountRef) : Table AccountRef String :=
  accounts.foldl (fun heads account => (source account).elim heads (heads.set account)) Table.empty

def headsForAccounts (st : TxState) (accounts : List AccountRef) : Table AccountRef String :=
  if accounts.all st.heads.has then headsOf st.heads.get accounts else headsOf st.rows.get accounts

def plantAndLock (known : AccountRef → Bool) (st : TxState) (accounts : List AccountRef) : TxState :=
  let rows := accounts.foldl (plant known) st.rows
  { st with
    rows
    heads := accounts.foldl (fun heads account => heads.set account ((rows.get account).getD GENESIS_HEX))
      st.heads }

/-- The heads thread forward, so that a later posting links onto an earlier one. -/
def threadLinks (digest : Digest) : Table AccountRef String → List Posting → Except Fault Appended
  | _, [] => .ok []
  | heads, posting :: postings => do
    let links ← chainLinksFor digest posting heads
    let rest ← threadLinks digest (postRows heads links) postings
    return (posting, links) :: rest

/-- Each posting with the heads it is given, and the heads of the rows with the postings before it. -/
def readsOf (digest : Digest) :
    Table AccountRef String → Table AccountRef String → List Posting → List HeadRead
  | _, _, [] => []
  | given, view, posting :: postings =>
    ⟨posting, given, view⟩ ::
      match chainLinksFor digest posting given with
      | .ok links => readsOf digest (postRows given links) (postRows view links) postings
      | .error _ => []

inductive Raised
  | fault
  | conflict
deriving DecidableEq

/-- The call of the procedure; the heads advance when it went through. -/
def post (st : TxState) (transactions : Appended) : Answer → Option Raised × TxState
  | .accepted => (none, { st with
      rows := postAllRows st.rows transactions
      heads := advanceCapturedHeads st.heads transactions
      written := st.written ++ transactions })
  | .refused left => (some .fault, { st with rows := left })
  | .conflict => (some .conflict, st)

def insertPosting (digest : Digest) (st : TxState) (posting : Posting) (answer : Answer) :
    Option Raised × TxState :=
  let heads := headsForAccounts st (distinctAccounts posting.legs)
  let st := { st with reads := st.reads ++ [⟨posting, heads, st.rows⟩] }
  match chainLinksFor digest posting heads with
  | .error _ => (some .fault, st)
  | .ok links => post st [(posting, links)] answer

def appendPostings (digest : Digest) (st : TxState) (postings : List Posting) (answer : Answer) :
    Option Raised × TxState :=
  let heads := headsForAccounts st (distinctAccounts (postings.flatMap Posting.legs))
  let st := { st with reads := st.reads ++ readsOf digest heads st.rows postings }
  match threadLinks digest heads postings with
  | .error _ => (some .fault, st)
  | .ok transactions => post st transactions answer

inductive SqlAct
  | lockMany (accounts : List AccountRef) (answer : Answer)
  | append (posting : Posting) (answer : Answer)
  | appendAll (postings : List Posting) (answer : Answer)

def SqlAct.run (digest : Digest) (known : AccountRef → Bool) (st : TxState) :
    SqlAct → Option Raised × TxState
  | .lockMany accounts .accepted => (none, plantAndLock known st accounts)
  | .lockMany _ (.refused left) => (some .fault, { st with rows := left })
  | .lockMany _ .conflict => (some .conflict, st)
  | .append posting answer => insertPosting digest st posting answer
  | .appendAll postings answer => appendPostings digest st postings answer

/-- A work of the batch: what it does to the ledger, and whether it throws after that. -/
structure BatchWork where
  acts : List SqlAct
  throws : Bool

def runActs (digest : Digest) (known : AccountRef → Bool) : List SqlAct → TxState → Option Raised × TxState
  | [], st => (none, st)
  | act :: acts, st =>
    match act.run digest known st with
    | (none, st') => runActs digest known acts st'
    | (some thrown, st') => (some thrown, st')

def BatchWork.run (digest : Digest) (known : AccountRef → Bool) (work : BatchWork) (st : TxState) :
    Option Raised × TxState :=
  match runActs digest known work.acts st with
  | (none, st') => (if work.throws then some .fault else none, st')
  | (some thrown, st') => (some thrown, st')

/-- `ROLLBACK TO SAVEPOINT` restores the rows; the captured heads are rolled back beside it. -/
def TxState.rollbackTo (saved st : TxState) : TxState where
  rows := saved.rows
  heads := st.heads.rollbackTo saved.heads.mark
  written := saved.written
  reads := st.reads

/-- A work that throws is rolled back alone; a conflict ends the batch. -/
def runSavepointed (digest : Digest) (known : AccountRef → Bool) :
    List BatchWork → TxState → Option Raised × TxState
  | [], st => (none, st)
  | work :: works, st =>
    match work.run digest known st with
    | (none, st') => runSavepointed digest known works st'
    | (some .fault, st') => runSavepointed digest known works (st.rollbackTo st')
    | (some .conflict, st') => (some .conflict, st')

/-- Each posting is appended alone, onto the heads that the one before it left. -/
def appendEach (digest : Digest) : Table AccountRef String → List Posting →
    Except Fault (List (List Link) × Table AccountRef String)
  | heads, [] => .ok ([], heads)
  | heads, posting :: postings => do
    let links ← advanceChain digest heads posting
    let rest ← appendEach digest (postRows heads links) postings
    return (links :: rest.1, rest.2)

/-- The reference of a transaction: the heads, the postings that are left, and every derivation made with
the heads it was made from. -/
structure Serial where
  view : Table AccountRef String
  postings : List Posting
  derived : List (Posting × Table AccountRef String)

namespace Serial

def start (committed : Table AccountRef String) : Serial := ⟨committed, [], []⟩

/-- The derivations of postings appended one by one, up to the first that fails. -/
def derivations (digest : Digest) : Table AccountRef String → List Posting →
    List (Posting × Table AccountRef String)
  | _, [] => []
  | view, posting :: postings =>
    (posting, view) ::
      match advanceChain digest view posting with
      | .ok links => derivations digest (postRows view links) postings
      | .error _ => []

def append (digest : Digest) (s : Serial) (postings : List Posting) (answer : Answer) :
    Option Raised × Serial :=
  let derived := s.derived ++ derivations digest s.view postings
  match appendEach digest s.view postings, answer with
  | .error _, _ => (some .fault, { s with derived })
  | .ok (_, view), .accepted => (none, ⟨view, s.postings ++ postings, derived⟩)
  | .ok _, .refused _ => (some .fault, { s with derived })
  | .ok _, .conflict => (some .conflict, { s with derived })

/-- A lock moves no head. -/
def act (digest : Digest) (s : Serial) : SqlAct → Option Raised × Serial
  | .lockMany _ .accepted => (none, s)
  | .lockMany _ (.refused _) => (some .fault, s)
  | .lockMany _ .conflict => (some .conflict, s)
  | .append posting answer => s.append digest [posting] answer
  | .appendAll postings answer => s.append digest postings answer

def acts (digest : Digest) : List SqlAct → Serial → Option Raised × Serial
  | [], s => (none, s)
  | a :: rest, s =>
    match s.act digest a with
    | (none, s') => acts digest rest s'
    | (some thrown, s') => (some thrown, s')

def work (digest : Digest) (w : BatchWork) (s : Serial) : Option Raised × Serial :=
  match acts digest w.acts s with
  | (none, s') => (if w.throws then some .fault else none, s')
  | (some thrown, s') => (some thrown, s')

/-- A work that throws appends nothing: the next one starts from the heads it started from. -/
def works (digest : Digest) : List BatchWork → Serial → Option Raised × Serial
  | [], s => (none, s)
  | w :: rest, s =>
    match s.work digest w with
    | (none, s') => works digest rest s'
    | (some .fault, s') => works digest rest { s with derived := s'.derived }
    | (some .conflict, s') => (some .conflict, s')

end Serial

/-! ## Heads that agree -/

variable {heads rows heads' view : Table AccountRef String} (known : AccountRef → Bool)
  (digest : Digest) {postings : List Posting} {links : List (List Link)}

theorem chainLinksFor_eq (posting : Posting) (heads : Table AccountRef String) :
    chainLinksFor digest posting heads = advanceChain digest heads posting := rfl

def AgreeOn (accounts : List AccountRef) (heads heads' : Table AccountRef String) : Prop :=
  ∀ account ∈ accounts, headOf heads account = headOf heads' account

theorem AgreeOn.subset {accounts fewer : List AccountRef}
    (h : AgreeOn accounts heads heads') (hsub : fewer ⊆ accounts) : AgreeOn fewer heads heads' :=
  fun account hmem => h account (hsub hmem)

theorem mapM_congr {ε α β : Type} {f g : α → Except ε β} {xs : List α} (h : ∀ x ∈ xs, f x = g x) :
    xs.mapM f = xs.mapM g := by
  induction xs with
  | nil => simp only [List.mapM_nil]
  | cons x xs ih =>
    rw [List.mapM_cons, List.mapM_cons, h x List.mem_cons_self, ih fun y hy =>
      h y (List.mem_cons_of_mem _ hy)]

/-- The links of a posting depend on the heads of its accounts only. -/
theorem AgreeOn.advanceChain {posting : Posting}
    (h : AgreeOn (distinctAccounts posting.legs) heads heads') (digest : Digest) :
    advanceChain digest heads posting = advanceChain digest heads' posting := by
  unfold EconomyLab.advanceChain
  apply mapM_congr
  intro account hmem
  unfold advanceLink
  rw [h account hmem]

theorem AgreeOn.set {accounts : List AccountRef}
    (h : AgreeOn accounts heads heads') (account : AccountRef) (hash : String) :
    AgreeOn accounts (heads.set account hash) (heads'.set account hash) := by
  intro a hmem
  unfold headOf
  rw [Table.get_set, Table.get_set]
  by_cases hsame : a = account
  · rw [if_pos hsame, if_pos hsame]
  · rw [if_neg hsame, if_neg hsame]
    exact h a hmem

theorem AgreeOn.postRows {accounts : List AccountRef}
    (h : AgreeOn accounts heads heads') (links : List Link) :
    AgreeOn accounts (postRows heads links) (postRows heads' links) := by
  unfold Engines.postRows
  induction links generalizing heads heads' with
  | nil => exact h
  | cons link links ih => exact ih (h.set link.account link.hash)

theorem AgreeOn.postAllRows {accounts : List AccountRef}
    (h : AgreeOn accounts heads heads') (transactions : Appended) :
    AgreeOn accounts (postAllRows heads transactions) (postAllRows heads' transactions) := by
  unfold Engines.postAllRows
  induction transactions generalizing heads heads' with
  | nil => exact h
  | cons transaction transactions ih => exact ih (h.postRows transaction.2)

theorem distinctAccounts_subset_left (legs later : List Leg) :
    distinctAccounts legs ⊆ distinctAccounts (legs ++ later) := by
  intro account h
  rw [mem_distinctAccounts] at h ⊢
  rw [List.map_append]
  exact List.mem_append_left _ h

theorem distinctAccounts_subset_right (legs later : List Leg) :
    distinctAccounts later ⊆ distinctAccounts (legs ++ later) := by
  intro account h
  rw [mem_distinctAccounts] at h ⊢
  rw [List.map_append]
  exact List.mem_append_right _ h

theorem threadLinks_eq {given view : Table AccountRef String}
    (hagree : AgreeOn (distinctAccounts (postings.flatMap Posting.legs)) given view) :
    threadLinks digest given postings = (appendEach digest view postings).map fun done =>
      postings.zip done.1 := by
  induction postings generalizing given view with
  | nil => rfl
  | cons posting postings ih =>
    have hhere := hagree.subset (distinctAccounts_subset_left posting.legs (postings.flatMap Posting.legs))
    have hlater := hagree.subset (distinctAccounts_subset_right posting.legs
      (postings.flatMap Posting.legs))
    unfold threadLinks appendEach
    rw [chainLinksFor_eq, hhere.advanceChain digest]
    cases advanceChain digest view posting with
    | error e => rfl
    | ok links =>
      change (threadLinks digest (postRows given links) postings >>= _) =
        Except.map _ (appendEach digest (postRows view links) postings >>= _)
      rw [ih (hlater.postRows links)]
      cases appendEach digest (postRows view links) postings with
      | error e => rfl
      | ok rest => rfl

theorem appendEach_length {digest : Digest} (h : appendEach digest heads postings = .ok (links, view)) :
    links.length = postings.length := by
  induction postings generalizing heads links with
  | nil =>
    obtain ⟨rfl, rfl⟩ := Prod.mk.inj (Except.ok.inj h)
    rfl
  | cons posting postings ih =>
    obtain ⟨first, -, h⟩ := except_bind_ok.mp h
    obtain ⟨rest, hrest, h⟩ := except_bind_ok.mp h
    obtain ⟨rfl, rfl⟩ := Prod.mk.inj (except_pure_ok.mp h)
    exact congrArg Nat.succ (ih hrest)

/-- Appending one by one leaves the heads that the links of the call leave in the rows. -/
theorem appendEach_view {digest : Digest} (h : appendEach digest heads postings = .ok (links, view)) :
    view = postAllRows heads (postings.zip links) := by
  induction postings generalizing heads links with
  | nil =>
    obtain ⟨rfl, rfl⟩ := Prod.mk.inj (Except.ok.inj h)
    rfl
  | cons posting postings ih =>
    obtain ⟨first, -, h⟩ := except_bind_ok.mp h
    obtain ⟨rest, hrest, h⟩ := except_bind_ok.mp h
    obtain ⟨rfl, rfl⟩ := Prod.mk.inj (except_pure_ok.mp h)
    exact ih hrest

/-- A derivation of the transaction is one of the reference, from the same heads of its accounts. -/
structure HeadRead.Of (read : HeadRead) (derivation : Posting × Table AccountRef String) : Prop where
  posting : read.posting = derivation.1
  given : AgreeOn (distinctAccounts read.posting.legs) read.given derivation.2
  view : ∀ account, headOf read.view account = headOf derivation.2 account

theorem postRows_head
    (h : ∀ account, headOf rows account = headOf view account) (links : List Link) (account : AccountRef) :
    headOf (postRows rows links) account = headOf (postRows view links) account := by
  have hone : AgreeOn [account] rows view := fun a _ => h a
  exact hone.postRows links account (List.mem_singleton.mpr rfl)

/-- The derivations of a call are those of the reference, if the first heads given agree. -/
theorem readsOf_derivations {given rows view : Table AccountRef String}
    (hagree : AgreeOn (distinctAccounts (postings.flatMap Posting.legs)) given view)
    (hrows : ∀ account, headOf rows account = headOf view account) :
    List.Forall₂ HeadRead.Of (readsOf digest given rows postings)
      (Serial.derivations digest view postings) := by
  induction postings generalizing given rows view with
  | nil => exact .nil
  | cons posting postings ih =>
    have hhere := hagree.subset (distinctAccounts_subset_left posting.legs (postings.flatMap Posting.legs))
    have hlater := hagree.subset (distinctAccounts_subset_right posting.legs
      (postings.flatMap Posting.legs))
    apply List.Forall₂.cons ⟨rfl, hhere, hrows⟩
    rw [chainLinksFor_eq, hhere.advanceChain digest]
    cases advanceChain digest view posting with
    | error e => exact .nil
    | ok links => exact ih (hlater.postRows links) (postRows_head hrows links)

theorem appendEach_append {digest : Digest} {postings more : List Posting}
    (h : appendEach digest heads postings = .ok (links, view)) :
    appendEach digest heads (postings ++ more) =
      (appendEach digest view more).map fun rest => (links ++ rest.1, rest.2) := by
  induction postings generalizing heads links with
  | nil =>
    obtain ⟨rfl, rfl⟩ := Prod.mk.inj (Except.ok.inj h)
    cases hmore : appendEach digest heads more with
    | error e => exact hmore
    | ok rest => exact hmore
  | cons posting postings ih =>
    obtain ⟨first, hfirst, h⟩ := except_bind_ok.mp h
    obtain ⟨rest, hrest, h⟩ := except_bind_ok.mp h
    obtain ⟨rfl, rfl⟩ := Prod.mk.inj (except_pure_ok.mp h)
    rw [List.cons_append, appendEach, hfirst]
    change (appendEach digest (postRows heads first) (postings ++ more) >>= _) = _
    rw [ih hrest]
    cases appendEach digest rest.2 more with
    | error e => rfl
    | ok last => rfl

theorem headsOf_get (source : AccountRef → Option String) (accounts : List AccountRef)
    (account : AccountRef) :
    (headsOf source accounts).get account = if account ∈ accounts then source account else none := by
  have hfold : ∀ heads : Table AccountRef String,
      (accounts.foldl (fun heads account => (source account).elim heads (heads.set account)) heads).get
        account =
        if account ∈ accounts then (source account).or (heads.get account) else heads.get account := by
    induction accounts with
    | nil => exact fun _ => rfl
    | cons first accounts ih =>
      intro heads
      rw [List.foldl_cons, ih]
      have hnext : ((source first).elim heads (heads.set first)).get account =
          if account = first then (source account).or (heads.get account) else heads.get account := by
        by_cases hsame : account = first
        · rw [if_pos hsame, hsame]
          cases source first with
          | none => rfl
          | some hash => exact Table.get_set_self heads first hash
        · rw [if_neg hsame]
          cases source first with
          | none => rfl
          | some hash => exact Table.get_set_of_ne heads hash hsame
      rw [hnext]
      by_cases hsame : account = first
      · simp only [hsame, List.mem_cons, true_or, if_true]
        cases source first with
        | none => simp only [Option.none_or, ite_self]
        | some hash => simp only [Option.some_or, ite_self]
      · simp only [hsame, List.mem_cons, false_or, if_false]
  unfold headsOf
  rw [hfold]
  simp only [Table.get_empty, Option.or_none]

def TxState.Captured (st : TxState) : Prop :=
  ∀ account hash, st.heads.get account = some hash → headOf st.rows account = hash

theorem TxState.Captured.set {heads : TxHeads}
    (h : ∀ account hash, heads.get account = some hash → headOf rows account = hash) (account : AccountRef)
    (hash : String) :
    ∀ a h', (heads.set account hash).get a = some h' → headOf (rows.set account hash) a = h' := by
  intro a h' hget
  rw [Overwrites.get_set] at hget
  unfold headOf
  rw [Table.get_set]
  by_cases hsame : a = account
  · rw [if_pos hsame] at hget ⊢
    exact Option.some.inj hget
  · rw [if_neg hsame] at hget ⊢
    exact h a h' hget

/-- Whatever the capture covers, the heads that an append is given are those of the rows. -/
theorem headsForAccounts_agree {st : TxState} (h : st.Captured) (accounts : List AccountRef) :
    AgreeOn accounts (headsForAccounts st accounts) st.rows := by
  intro account hmem
  unfold headsForAccounts
  split
  · rename_i hcovered
    obtain ⟨hash, hhash⟩ := Option.isSome_iff_exists.mp (List.all_eq_true.mp hcovered account hmem)
    have hcaptured : st.heads.get account = some hash := hhash
    rw [h account hash hcaptured]
    unfold headOf
    rw [headsOf_get, if_pos hmem, hcaptured]
    rfl
  · unfold headOf
    rw [headsOf_get, if_pos hmem]

/-! ## What a transaction keeps -/

/-- The transaction holds what its reference holds: the postings that are left, their links as appending
them one by one from the committed heads makes them, and the heads. -/
structure TxState.Exact (digest : Digest) (committed : Table AccountRef String) (st : TxState)
    (s : Serial) :
    Prop where
  captured : st.Captured
  postings : st.written.map Prod.fst = s.postings
  appended : appendEach digest committed s.postings = .ok (st.written.map Prod.snd, s.view)
  heads : ∀ account, headOf st.rows account = headOf s.view account

/-- Every derivation so far was made by the reference too. -/
def TxState.ReadsExact (st : TxState) (s : Serial) : Prop := List.Forall₂ HeadRead.Of st.reads s.derived

/-- What holds after acts that threw or went through, and after the same acts of the reference. -/
structure Leads (digest : Digest) (committed : Table AccountRef String) (st : TxState)
    (done : Option Raised × TxState) (reference : Option Raised × Serial) : Prop where
  raised : done.1 = reference.1
  reads : done.2.ReadsExact reference.2
  since : st.heads.Since done.2.heads
  exact_ : done.1 ≠ some .fault → done.2.Exact digest committed reference.2

namespace TxState.Exact

variable {digest : Digest} {committed : Table AccountRef String} {st : TxState} {s : Serial}

theorem start (digest : Digest) (committed : Table AccountRef String) :
    (TxState.start committed).Exact digest committed (.start committed) where
  captured := fun _ _ h => by cases h
  postings := rfl
  appended := rfl
  heads := fun _ => rfl

theorem plant_head (rows : Table AccountRef String) (planted account : AccountRef) :
    headOf (plant known rows planted) account = headOf rows account := by
  unfold plant
  split
  · rfl
  · rename_i hmissing
    simp only [Bool.or_eq_true, not_or] at hmissing
    unfold headOf
    rw [Table.get_set]
    by_cases hsame : account = planted
    · have hnone : rows.get planted = none := Option.not_isSome_iff_eq_none.mp hmissing.2
      rw [if_pos hsame, hsame, hnone]
      rfl
    · rw [if_neg hsame]

theorem plantAll_head (rows : Table AccountRef String)
    (accounts : List AccountRef) (account : AccountRef) :
    headOf (accounts.foldl (plant known) rows) account = headOf rows account := by
  induction accounts generalizing rows with
  | nil => rfl
  | cons planted accounts ih =>
    exact (ih (plant known rows planted)).trans (plant_head known rows planted account)

/-- What is captured from the rows agrees with them. -/
theorem capture {heads : TxHeads}
    (h : ∀ account hash, heads.get account = some hash → headOf rows account = hash)
    (accounts : List AccountRef) :
    ∀ account hash, (accounts.foldl (fun heads account =>
      heads.set account ((rows.get account).getD GENESIS_HEX))
      heads).get account = some hash → headOf rows account = hash := by
  induction accounts generalizing heads with
  | nil => exact h
  | cons locked accounts ih =>
    apply ih
    intro account hash hget
    rw [Overwrites.get_set] at hget
    by_cases hsame : account = locked
    · rw [if_pos hsame] at hget
      rw [hsame]
      exact Option.some.inj hget
    · rw [if_neg hsame] at hget
      exact h account hash hget

/-- A lock plants rows at genesis, and captures the heads as they are. -/
theorem plantAndLock (h : st.Exact digest committed s) (known : AccountRef → Bool)
    (accounts : List AccountRef) :
    (plantAndLock known st accounts).Exact digest committed s := by
  have hheads := plantAll_head known st.rows accounts
  refine ⟨?_, h.postings, h.appended, fun account => (hheads account).trans (h.heads account)⟩
  apply capture
  intro account hash hget
  exact (hheads account).trans (h.captured account hash hget)

theorem advance {heads : TxHeads}
    (h : ∀ account hash, heads.get account = some hash → headOf rows account = hash)
    (transactions : Appended) :
    ∀ account hash, (advanceCapturedHeads heads transactions).get account = some hash →
      headOf (postAllRows rows transactions) account = hash := by
  have hlinks : ∀ (links : List Link) (rows : Table AccountRef String) (heads : TxHeads),
      (∀ account hash, heads.get account = some hash → headOf rows account = hash) →
      ∀ account hash, (links.foldl (fun heads link => heads.set link.account link.hash) heads).get
        account = some hash →
        headOf (postRows rows links) account = hash := by
    intro links
    induction links with
    | nil => exact fun _ _ h => h
    | cons link links ih =>
      exact fun rows heads h => ih _ _ (TxState.Captured.set h link.account link.hash)
  induction transactions generalizing rows heads with
  | nil => exact h
  | cons transaction transactions ih => exact ih (hlinks transaction.2 rows heads h)

theorem advance_since (heads : TxHeads) (transactions : Appended) :
    heads.Since (advanceCapturedHeads heads transactions) := by
  have hfold : ∀ heads' : TxHeads, heads.Since heads' →
      heads.Since (advanceCapturedHeads heads' transactions) := by
    induction transactions with
    | nil => exact fun _ h => h
    | cons transaction transactions ih =>
      exact fun heads' h => ih _ (h.foldl_set Link.account Link.hash transaction.2)
  exact hfold heads (Overwrites.Since.refl heads)

theorem postAll_head
    (h : ∀ account, headOf rows account = headOf view account) (transactions : Appended)
    (account : AccountRef) :
    headOf (postAllRows rows transactions) account = headOf (postAllRows view transactions) account := by
  have hone : AgreeOn [account] rows view := fun a _ => h a
  exact hone.postAllRows transactions account (List.mem_singleton.mpr rfl)

theorem accept (h : st.Exact digest committed s)
    (heach : appendEach digest s.view postings = .ok (links, view)) (reads : List HeadRead)
    (derived : List (Posting × Table AccountRef String)) :
    TxState.Exact digest committed
      { rows := postAllRows st.rows (postings.zip links)
        heads := advanceCapturedHeads st.heads (postings.zip links)
        written := st.written ++ postings.zip links
        reads } ⟨view, s.postings ++ postings, derived⟩ where
  captured := advance h.captured _
  postings := by
    have hlength := appendEach_length heach
    change (st.written ++ postings.zip links).map Prod.fst = _
    rw [List.map_append, h.postings, List.map_fst_zip (Nat.le_of_eq hlength.symm)]
  appended := by
    have hlength := appendEach_length heach
    change appendEach digest committed (s.postings ++ postings) =
      .ok ((st.written ++ postings.zip links).map Prod.snd, view)
    rw [appendEach_append h.appended, heach, List.map_append, List.map_snd_zip (Nat.le_of_eq hlength)]
    rfl
  heads := by
    intro account
    rw [appendEach_view heach]
    exact postAll_head h.heads _ account

theorem of_reads (h : st.Exact digest committed s) (reads : List HeadRead)
    (derived : List (Posting × Table AccountRef String)) :
    TxState.Exact digest committed { st with reads } { s with derived } :=
      ⟨h.captured, h.postings, h.appended, h.heads⟩

/-- A call goes as it goes in the reference, and one that does not go through ends the work. -/
theorem appendPostings (h : st.Exact digest committed s) (hreads : st.ReadsExact s)
    (postings : List Posting) (answer : Answer) :
    Leads digest committed st (appendPostings digest st postings answer)
      (s.append digest postings answer) := by
  have hagree : AgreeOn (distinctAccounts (postings.flatMap Posting.legs))
      (headsForAccounts st (distinctAccounts (postings.flatMap Posting.legs))) s.view := by
    intro account hmem
    exact (headsForAccounts_agree h.captured _ account hmem).trans (h.heads account)
  have hall : List.Forall₂ HeadRead.Of
      (st.reads ++ readsOf digest (headsForAccounts st (distinctAccounts (postings.flatMap Posting.legs)))
        st.rows
        postings)
      (s.derived ++ Serial.derivations digest s.view postings) :=
    List.rel_append hreads (readsOf_derivations digest hagree h.heads)
  have hthread := threadLinks_eq digest hagree
  unfold Engines.appendPostings Serial.append
  simp only [hthread]
  cases heach : appendEach digest s.view postings with
  | error e => exact ⟨rfl, hall, Overwrites.Since.refl _, fun hfault => absurd rfl hfault⟩
  | ok done =>
    obtain ⟨links, view⟩ := done
    cases answer with
    | accepted => exact ⟨rfl, hall, advance_since st.heads _, fun _ => h.accept heach _ _⟩
    | refused left => exact ⟨rfl, hall, Overwrites.Since.refl _, fun hfault => absurd rfl hfault⟩
    | conflict => exact ⟨rfl, hall, Overwrites.Since.refl _, fun _ => h.of_reads _ _⟩

end TxState.Exact

theorem insertPosting_eq (st : TxState) (posting : Posting) (answer : Answer) :
    insertPosting digest st posting answer = appendPostings digest st [posting] answer := by
  have hlegs : [posting].flatMap Posting.legs = posting.legs := List.flatMap_singleton _ _
  unfold insertPosting appendPostings
  rw [hlegs]
  simp only [threadLinks, readsOf]
  cases hlinks : chainLinksFor digest posting (headsForAccounts st (distinctAccounts posting.legs)) with
  | error e => rfl
  | ok links => rfl

section Run

variable {digest : Digest} {committed : Table AccountRef String} {st : TxState} {s : Serial}

theorem SqlAct.run_leads (act : SqlAct) (h : st.Exact digest committed s) (hreads : st.ReadsExact s) :
    Leads digest committed st (act.run digest known st) (s.act digest act) := by
  cases act with
  | lockMany accounts answer =>
    cases answer with
    | accepted =>
      exact ⟨rfl, hreads, (Overwrites.Since.refl st.heads).foldl_set id _ accounts,
        fun _ => h.plantAndLock known accounts⟩
    | refused left => exact ⟨rfl, hreads, Overwrites.Since.refl _, fun hfault => absurd rfl hfault⟩
    | conflict => exact ⟨rfl, hreads, Overwrites.Since.refl _, fun _ => h⟩
  | append posting answer =>
    have happend := h.appendPostings hreads [posting] answer
    rw [← insertPosting_eq] at happend
    exact happend
  | appendAll postings answer => exact h.appendPostings hreads postings answer

theorem runActs_leads (acts : List SqlAct) (h : st.Exact digest committed s)
    (hreads : st.ReadsExact s) :
    Leads digest committed st (runActs digest known acts st) (s.acts digest acts) := by
  induction acts generalizing st s with
  | nil => exact ⟨rfl, hreads, Overwrites.Since.refl _, fun _ => h⟩
  | cons act acts ih =>
    have hact := act.run_leads known h hreads
    unfold runActs Serial.acts
    rcases hrun : act.run digest known st with ⟨raised, st'⟩
    rcases hserial : s.act digest act with ⟨raised', s'⟩
    rw [hrun, hserial] at hact
    obtain rfl : raised = raised' := hact.raised
    cases raised with
    | some raised => exact hact
    | none =>
      have hrest := ih (hact.exact_ nofun) hact.reads
      exact ⟨hrest.raised, hrest.reads, hact.since.trans hrest.since, hrest.exact_⟩

theorem BatchWork.run_leads (work : BatchWork)
    (h : st.Exact digest committed s) (hreads : st.ReadsExact s) :
    Leads digest committed st (work.run digest known st) (s.work digest work) := by
  have hacts := runActs_leads known work.acts h hreads
  unfold BatchWork.run Serial.work
  rcases hrun : runActs digest known work.acts st with ⟨raised, st'⟩
  rcases hserial : s.acts digest work.acts with ⟨raised', s'⟩
  rw [hrun, hserial] at hacts
  obtain rfl : raised = raised' := hacts.raised
  cases raised with
  | some raised => exact hacts
  | none => exact ⟨rfl, hacts.reads, hacts.since, fun _ => hacts.exact_ nofun⟩

/-- A rollback to the savepoint gives the rows, the captured heads and the links of the savepoint. -/
theorem TxState.rollbackTo_exact {st' : TxState} (h : st.Exact digest committed s)
    (hsince : st.heads.Since st'.heads) (derived : List (Posting × Table AccountRef String)) :
    (st.rollbackTo st').Exact digest committed { s with derived } := by
  have hheads : (st.rollbackTo st').heads = st.heads := hsince.rollbackTo_mark
  refine ⟨?_, h.postings, h.appended, h.heads⟩
  intro account hash hget
  rw [hheads] at hget
  exact h.captured account hash hget

theorem runSavepointed_exact (works : List BatchWork)
    (h : st.Exact digest committed s) (hreads : st.ReadsExact s) :
    (runSavepointed digest known works st).1 = (s.works digest works).1 ∧
      (runSavepointed digest known works st).2.Exact digest committed (s.works digest works).2 ∧
      (runSavepointed digest known works st).2.ReadsExact (s.works digest works).2 := by
  induction works generalizing st s with
  | nil => exact ⟨rfl, h, hreads⟩
  | cons work works ih =>
    have hwork := work.run_leads known h hreads
    unfold runSavepointed Serial.works
    rcases hrun : work.run digest known st with ⟨raised, st'⟩
    rcases hserial : s.work digest work with ⟨raised', s'⟩
    rw [hrun, hserial] at hwork
    obtain rfl : raised = raised' := hwork.raised
    cases raised with
    | none => exact ih (hwork.exact_ nofun) hwork.reads
    | some raised =>
      cases raised with
      | fault => exact ih (TxState.rollbackTo_exact h hwork.since _) hwork.reads
      | conflict => exact ⟨rfl, hwork.exact_ nofun, hwork.reads⟩

end Run

/-- The run ends as the reference does, and leaves the reference's postings. At every append the captured
heads are the heads of the rows and those of the reference, and the links that are left are those of
appending the surviving postings one by one from the committed heads. -/
theorem captured_heads_exact (digest : Digest) (known : AccountRef → Bool) (works : List BatchWork)
    (committed : Table AccountRef String) :
    let done := runSavepointed digest known works (.start committed)
    let reference := (Serial.start committed).works digest works
    (∀ read ∈ done.2.reads, ∀ account ∈ distinctAccounts read.posting.legs,
      headOf read.given account = headOf read.view account) ∧
    done.1 = reference.1 ∧
    done.2.written.map Prod.fst = reference.2.postings ∧
    List.Forall₂ HeadRead.Of done.2.reads reference.2.derived ∧
    ∃ view, appendEach digest committed (done.2.written.map Prod.fst) =
      .ok (done.2.written.map Prod.snd, view) ∧
      (∀ account, headOf done.2.rows account = headOf view account) ∧
      ∀ account hash, done.2.heads.get account = some hash → headOf view account = hash := by
  intro done reference
  have hstart := TxState.Exact.start digest committed
  obtain ⟨hraised, hexact, hreads⟩ := runSavepointed_exact known works hstart .nil
  refine ⟨?_, hraised, hexact.postings, hreads, reference.2.view, ?_, hexact.heads, ?_⟩
  · intro read hread account hmem
    obtain ⟨n, rfl⟩ := List.mem_iff_get.mp hread
    have hof := hreads.get n.isLt (Nat.lt_of_lt_of_eq n.isLt hreads.length_eq)
    exact (hof.given account hmem).trans (hof.view account).symm
  · rw [hexact.postings]
    exact hexact.appended
  · intro account hash hget
    exact (hexact.heads account).symm.trans (hexact.captured account hash hget)

/-- The second of three works throws after its append: the third one links onto the first. -/
theorem captured_heads_exact_rolledBack :
    let pay := fun (txnId user : String) => (⟨txnId, [⟨SYSTEM.STORED_VALUE, ⟨.credit, 10, .ten⟩⟩,
      ⟨spendable user, ⟨.credit, -10, .neg_ten⟩⟩], []⟩ : Posting)
    let works : List BatchWork :=
      [⟨[.lockMany [SYSTEM.STORED_VALUE] .accepted, .append (pay "txn_1" "usr_a") .accepted], false⟩,
        ⟨[.append (pay "txn_2" "usr_a") .accepted], true⟩,
        ⟨[.appendAll [pay "txn_3" "usr_a", pay "txn_4" "usr_b"] .accepted], false⟩]
    let done := runSavepointed (fun bytes => [bytes.foldl (· + ·) 0]) (fun _ => false) works
      (.start Table.empty)
    (done.2.written.map Prod.fst).map Posting.txnId = ["txn_1", "txn_3", "txn_4"] ∧
    done.2.reads.length = 4 ∧
    ∀ read ∈ done.2.reads, ∀ account ∈ distinctAccounts read.posting.legs,
      headOf read.given account = headOf read.view account := by
  intro pay works done
  obtain ⟨hreads, -, hwritten, hderived, -⟩ :=
    captured_heads_exact (fun bytes => [bytes.foldl (· + ·) 0]) (fun _ => false) works Table.empty
  have hleft : ((Serial.start Table.empty).works (fun bytes => [bytes.foldl (· + ·) 0])
    works).2.postings.map
      Posting.txnId = ["txn_1", "txn_3", "txn_4"] := by decide +kernel
  have hmade : ((Serial.start Table.empty).works (fun bytes => [bytes.foldl (· + ·) 0])
      works).2.derived.length = 4 := by
    decide +kernel
  exact ⟨(congrArg (List.map Posting.txnId) hwritten).trans hleft, hderived.length_eq.trans hmade, hreads⟩

end EconomyLab.Engines

import EconomyLab.Chain.Export

/-!
# Sealing checkpoints

`recordCheckpoint` proves the chain, signs the root over every head and sum and saves it.
With an authenticated snapshot of the last seal's leaves only the tails since it are walked.
-/

namespace EconomyLab

open Foundation

/-! ## The checkpoint store -/

structure HeadSum where
  head : String
  sum : Int
deriving DecidableEq

/-- How far archiving has come, under a signed root over the archived heads. -/
structure ArchiveState where
  throughSeq : Nat
  cursor : Option Nat
  root : String
  signature : String
  checkpointId : String
  takenAt : Int

abbrev HeadRows := OrderedTable AccountRef HeadSum

structure CheckpointStore where
  rows : List Checkpoint
  heads : HeadRows
  archiveHeadRows : HeadRows
  archive : Option ArchiveState

def createCheckpointStore : CheckpointStore := ⟨[], OrderedTable.empty, OrderedTable.empty, none⟩

def leavesOf (rows : HeadRows) : List SealHead :=
  rows.entries.map fun p => ⟨p.1, p.2.head, p.2.sum⟩

def rowOf (leaf : SealHead) : AccountRef × HeadSum := (leaf.account, ⟨leaf.head, leaf.sum⟩)

namespace CheckpointStore

def put (store : CheckpointStore) (checkpoint : Checkpoint) : CheckpointStore :=
  { store with rows := store.rows ++ [checkpoint] }

def latest (store : CheckpointStore) : Option Checkpoint := store.rows.getLast?

def putSealHeads (store : CheckpointStore) (leaves : List SealHead) (replaceAll : Bool) :
    CheckpointStore :=
  let prior := if replaceAll then OrderedTable.empty else store.heads
  { store with heads := prior.setAll (leaves.map rowOf) }

def sealHeads (store : CheckpointStore) : List SealHead := leavesOf store.heads

def archiveHeads (store : CheckpointStore) : List SealHead := leavesOf store.archiveHeadRows

def putArchiveBoundary (store : CheckpointStore) (state : ArchiveState) (rows : List SealHead) :
    CheckpointStore :=
  { store with archive := some state, archiveHeadRows := store.archiveHeadRows.setAll (rows.map rowOf) }

end CheckpointStore

def ARCHIVE_DOMAIN : List UInt8 := Text.utf8 "economy-lab:archive-heads:v1"

def archivePayload (root : RootNode) : Except Fault (List UInt8) := do
  return ARCHIVE_DOMAIN ++ (← sumRootPayload root)

def verifyArchiveHeads (digest : Digest) (signer : Signer) (heads : List SealHead)
    (state : ArchiveState) : Except Fault Bool := do
  let root ← merkleSumRoot digest heads
  if toHex root.hash ≠ state.root then return false
  else return signer.verify (← archivePayload root) (← fromHex state.signature)

def boundaryOf (rows : List SealHead) : ArchiveBoundary where
  anchors := OrderedTable.empty.setAll (rows.map fun row => (row.account, row.head))
  rawSums := OrderedTable.empty.setAll (rows.map fun row => (row.account, row.sum))

/-- Unauthenticated rows are an anchor an attacker can move, so nothing proceeds over them. -/
def loadArchiveBoundary (digest : Digest) (signer : Signer) (store : CheckpointStore) :
    Except Fault (Option ArchiveBoundary) :=
  match store.archive with
  | none => .ok none
  | some state => do
    if ← verifyArchiveHeads digest signer store.archiveHeads state then
      return some (boundaryOf store.archiveHeads)
    else .error (fault .chainBroken
      ("The archive heads failed authentication against their signed root; refusing to prove or seal " ++
        "over a tampered boundary."))

/-- Live accounts gain their archived portion; fully archived ones come back with their head. -/
def mergeArchiveSums (live : List SealHead) : Option ArchiveBoundary → List SealHead
  | none => live
  | some boundary =>
    let merged := live.map fun leaf =>
      { leaf with sum := leaf.sum + (boundary.rawSums.get leaf.account).getD 0 }
    let gone := boundary.rawSums.entries.filter fun p => p.1 ∉ live.map SealHead.account
    merged ++ gone.map fun p => ⟨p.1, (boundary.anchors.get p.1).getD "", p.2⟩

/-! ## Choosing what to prove -/

inductive SealPlan
  | full
  | incremental (dirty : List SealHead) (since : OrderedTable AccountRef String)

/-- The snapshot is trusted only under the latest checkpoint's root, sum and signature. -/
def authenticates (digest : Digest) (signer : Signer) (snapshot : List SealHead)
    (latest : Checkpoint) : Except Fault Bool := do
  let root ← merkleSumRoot digest snapshot
  if toHex root.hash ≠ latest.root ∨ some root.sum ≠ latest.sum then return false
  else return signer.verify (← sumRootPayload root) (← fromHex latest.signature)

def sinceHeads (snapshot : List SealHead) : OrderedTable AccountRef String :=
  OrderedTable.empty.setAll (snapshot.map fun row => (row.account, row.head))

def dirtyLeaves (since : OrderedTable AccountRef String) (liveLeaves : List SealHead) : List SealHead :=
  liveLeaves.filter fun leaf => since.get leaf.account ≠ some leaf.head

def planSeal (digest : Digest) (signer : Signer) (store : CheckpointStore)
    (liveLeaves : List SealHead) : Except Fault SealPlan :=
  let snapshot := store.sealHeads
  match store.latest with
  | none => .ok .full
  | some latest =>
    if snapshot = [] ∨ latest.v ≠ .v2 ∨ latest.sum = none then .ok .full
    else do
      if !(← authenticates digest signer snapshot latest) then return .full
      else
        let since := sinceHeads snapshot
        if since.keys.all fun account => account ∈ liveLeaves.map SealHead.account then
          return .incremental (dirtyLeaves since liveLeaves) since
        else .error (fault .chainBroken
          "A sealed account has vanished from the live heads; refusing to sign over a truncated ledger.")

def walkTail (digest : Digest) (account : AccountRef) (liveHead : String) :
    List StoredLink → String → Bool → Except Fault (Option ChainBreak)
  | [], prev, reached =>
    if reached then .ok none else .ok (some ⟨account, "", .brokenLink, liveHead, prev⟩)
  | link :: links, prev, reached =>
    if link.prevHash ≠ prev then .ok (some ⟨account, link.txnId, .brokenLink, prev, link.prevHash⟩)
    else do
      let recomputed ← recomputeLink digest account link
      if recomputed ≠ link.hash then
        return some ⟨account, link.txnId, .tamperedHash, recomputed, link.hash⟩
      else walkTail digest account liveHead links link.hash (reached || link.hash == liveHead)

def proveDirtyTails (digest : Digest) (view : ChainView) (since : OrderedTable AccountRef String) :
    List SealHead → Except Fault (Option ChainBreak)
  | [] => .ok none
  | ⟨account, liveHead, _⟩ :: dirty => do
    let sinceHash := since.get account
    let links := view.lineage account sinceHash
    match ← walkTail digest account liveHead links (sinceHash.getD GENESIS_HEX) false with
    | some broken => return some broken
    | none => proveDirtyTails digest view since dirty

def SealPlan.firstBreak (digest : Digest) (boundary : Option ArchiveBoundary) (view : ChainView) :
    SealPlan → Except Fault (Option ChainBreak)
  | .incremental dirty since => proveDirtyTails digest view since dirty
  | .full => do return (← proveChain digest boundary view).firstBreak

/-- `recordCheckpoint` up to its first write. -/
def signCheckpoint (digest : Digest) (signer : Signer) (view : ChainView) (store : CheckpointStore)
    (now : Int) (id : String) : Except Fault (Checkpoint × SealPlan × List SealHead) := do
  let boundary ← loadArchiveBoundary digest signer store
  let leaves := mergeArchiveSums view.headSums boundary
  let plan ← planSeal digest signer store leaves
  match ← plan.firstBreak digest boundary view with
  | some _ => .error (fault .chainBroken
    "The hash chain failed to re-derive; refusing to sign a checkpoint over a tampered ledger.")
  | none =>
    let root ← merkleSumRoot digest leaves
    if root.sum ≠ 0 then
      .error (fault .ledgerUnbalanced
        "The ledger sums to a nonzero total; refusing to sign a checkpoint over unbalanced books.")
    else
      let signature := signer.sign (← sumRootPayload root)
      return (⟨id, toHex root.hash, toHex signature, leaves.length, now, .v2, some root.sum, signer.kid⟩,
        plan, leaves)

/-- Incremental upserts the dirty leaves; the full path replaces the whole table. -/
def CheckpointStore.snapshot (store : CheckpointStore) (leaves : List SealHead) :
    SealPlan → CheckpointStore
  | .incremental dirty _ => store.putSealHeads dirty false
  | .full => store.putSealHeads leaves true

/-- With `crashed` the process stops between `put` and `putSealHeads`. -/
def recordCheckpoint (digest : Digest) (signer : Signer) (view : ChainView) (store : CheckpointStore)
    (now : Int) (id : String) (crashed : Bool) : Except Fault (Checkpoint × CheckpointStore) := do
  let (checkpoint, plan, leaves) ← signCheckpoint digest signer view store now id
  let recorded := store.put checkpoint
  return (checkpoint, if crashed then recorded else recorded.snapshot leaves plan)

/-- There is a snapshot that the latest checkpoint may vouch for. -/
structure Snapshotted (store : CheckpointStore) (latest : Checkpoint) : Prop where
  last : store.latest = some latest
  rows : store.sealHeads ≠ []
  v2 : latest.v = .v2
  sum : latest.sum ≠ none

variable {digest : Digest} {signer : Signer} {view : ChainView} {store : CheckpointStore}
  {leaves : List SealHead}

theorem planSeal_unsnapshotted (h : ∀ latest, ¬ Snapshotted store latest) :
    planSeal digest signer store leaves = .ok .full := by
  unfold planSeal
  simp only
  split
  · rfl
  · rename_i latest hlatest
    apply if_pos
    by_contra hnone
    push Not at hnone
    exact h latest ⟨hlatest, hnone.1, hnone.2.1, hnone.2.2⟩

theorem planSeal_snapshotted {latest : Checkpoint} (h : Snapshotted store latest) :
    planSeal digest signer store leaves = (do
      if !(← authenticates digest signer store.sealHeads latest) then return .full
      else if (sinceHeads store.sealHeads).keys.all fun account =>
        account ∈ leaves.map SealHead.account then
        return .incremental (dirtyLeaves (sinceHeads store.sealHeads) leaves) (sinceHeads store.sealHeads)
      else .error (fault .chainBroken
    "A sealed account has vanished from the live heads; refusing to sign over a truncated ledger.")) := by
  have hno : ¬ (store.sealHeads = [] ∨ latest.v ≠ .v2 ∨ latest.sum = none) := by
    rintro (hs | hv | hs)
    · exact h.rows hs
    · exact hv h.v2
    · exact h.sum hs
  unfold planSeal
  simp only [h.last, if_neg hno]

theorem planSeal_incremental {leaves dirty : List SealHead} {since : OrderedTable AccountRef String} :
    planSeal digest signer store leaves = .ok (.incremental dirty since) ↔
      ∃ latest, Snapshotted store latest ∧ authenticates digest signer store.sealHeads latest = .ok true ∧
        since = sinceHeads store.sealHeads ∧ dirty = dirtyLeaves since leaves ∧
        ∀ account ∈ since.keys, account ∈ leaves.map SealHead.account := by
  constructor
  · intro h
    by_cases hs : ∃ latest, Snapshotted store latest
    · obtain ⟨latest, hs⟩ := hs
      rw [planSeal_snapshotted hs] at h
      obtain ⟨ok, hok, h⟩ := except_bind_ok.mp h
      cases ok with
      | false => cases h
      | true =>
        simp only [Bool.not_true, Bool.false_eq_true, if_false] at h
        split at h
        · rename_i hall
          cases h
          exact ⟨latest, hs, hok, rfl, rfl, by simpa using hall⟩
        · cases h
    · push Not at hs
      rw [planSeal_unsnapshotted hs] at h
      cases h
  · rintro ⟨latest, hs, hok, rfl, rfl, hlive⟩
    have hall : ((sinceHeads store.sealHeads).keys.all fun account =>
        account ∈ leaves.map SealHead.account) = true := by
      simpa using hlive
    rw [planSeal_snapshotted hs]
    refine except_bind_ok.mpr ⟨true, hok, ?_⟩
    simp only [Bool.not_true, Bool.false_eq_true, if_false, hall, if_true]
    rfl

theorem planSeal_full : planSeal digest signer store leaves = .ok .full ↔
      ∀ latest, Snapshotted store latest → authenticates digest signer store.sealHeads latest =
        .ok false := by
  constructor
  · intro h latest hs
    rw [planSeal_snapshotted hs] at h
    obtain ⟨ok, hok, h⟩ := except_bind_ok.mp h
    cases ok with
    | false => exact hok
    | true =>
      simp only [Bool.not_true, Bool.false_eq_true, if_false] at h
      split at h <;> cases h
  · intro h
    by_cases hs : ∃ latest, Snapshotted store latest
    · obtain ⟨latest, hs⟩ := hs
      rw [planSeal_snapshotted hs, h latest hs]
      rfl
    · push Not at hs
      exact planSeal_unsnapshotted hs

theorem walkTail_ok {account : AccountRef} {liveHead : String}
    {links : List StoredLink} {prev : String} {reached : Bool} :
    walkTail digest account liveHead links prev reached = .ok none ↔
      Rederives digest account prev links ∧ (reached = true ∨ ∃ link ∈ links, link.hash = liveHead) := by
  induction links generalizing prev reached with
  | nil => cases reached <;> simp [walkTail, Rederives]
  | cons link links ih =>
    by_cases hprev : link.prevHash = prev
    · cases hr : recomputeLink digest account link with
      | error e => simp [walkTail, Rederives, hprev, hr, bind, Except.bind]
      | ok recomputed =>
        by_cases hh : recomputed = link.hash
        · have hstep : walkTail digest account liveHead (link :: links) prev reached =
              walkTail digest account liveHead links link.hash (reached || link.hash == liveHead) := by
            simp [walkTail, hprev, hr, hh, bind, Except.bind]
          rw [hstep, ih]
          simp [Rederives, hprev, hr, hh, or_assoc]
        · simp [walkTail, Rederives, hprev, hr, hh, bind, Except.bind, pure, Except.pure]
    · simp [walkTail, Rederives, hprev]

structure TailProved (digest : Digest) (view : ChainView) (since : OrderedTable AccountRef String)
    (leaf : SealHead) : Prop where
  rederives : Rederives digest leaf.account ((since.get leaf.account).getD GENESIS_HEX)
    (view.lineage leaf.account (since.get leaf.account))
  reached : ∃ link ∈ view.lineage leaf.account (since.get leaf.account), link.hash = leaf.head

theorem proveDirtyTails_ok {since : OrderedTable AccountRef String}
    {dirty : List SealHead} : proveDirtyTails digest view since dirty = .ok none ↔
      ∀ leaf ∈ dirty, TailProved digest view since leaf := by
  induction dirty with
  | nil => simp [proveDirtyTails]
  | cons leaf dirty ih =>
    obtain ⟨account, liveHead, sum⟩ := leaf
    have hleaf : walkTail digest account liveHead (view.lineage account (since.get account))
        ((since.get account).getD GENESIS_HEX) false = .ok none ↔
        TailProved digest view since ⟨account, liveHead, sum⟩ := by
      rw [walkTail_ok]
      constructor
      · rintro ⟨hd, h⟩
        exact ⟨hd, h.resolve_left (by simp)⟩
      · rintro ⟨hd, h⟩
        exact ⟨hd, Or.inr h⟩
    rw [List.forall_mem_cons, ← ih, ← hleaf]
    cases hw : walkTail digest account liveHead (view.lineage account (since.get account))
        ((since.get account).getD GENESIS_HEX) false with
    | error e => simp [proveDirtyTails, hw, bind, Except.bind]
    | ok broken =>
      cases broken with
      | none => simp [proveDirtyTails, hw, bind, Except.bind]
      | some broken => simp [proveDirtyTails, hw, bind, Except.bind, pure, Except.pure]

def SealPlan.Proved (digest : Digest) (boundary : Option ArchiveBoundary) (view : ChainView) :
    SealPlan → Prop
  | .incremental dirty since => ∀ leaf ∈ dirty, TailProved digest view since leaf
  | .full => Intact digest boundary view

theorem proveChain_firstBreak {boundary : Option ArchiveBoundary}
    {report : ChainReport} (h : proveChain digest boundary view = .ok report) :
    report.firstBreak = none ↔ report.intact = true := by
  unfold proveChain at h
  obtain ⟨broken, -, h⟩ := except_bind_ok.mp h
  cases broken with
  | none =>
    cases h
    simp
  | some broken =>
    cases h
    simp

theorem SealPlan.firstBreak_ok {boundary : Option ArchiveBoundary} {plan : SealPlan} :
    plan.firstBreak digest boundary view = .ok none ↔ plan.Proved digest boundary view := by
  cases plan with
  | incremental dirty since => exact proveDirtyTails_ok
  | full =>
    unfold firstBreak Proved Intact
    rw [except_bind_ok]
    constructor
    · rintro ⟨report, hreport, h⟩
      rw [except_pure_ok] at h
      exact ⟨report, hreport, (proveChain_firstBreak hreport).mp h⟩
    · rintro ⟨report, hreport, h⟩
      exact ⟨report, hreport, except_pure_ok.mpr ((proveChain_firstBreak hreport).mpr h)⟩

def sealedCheckpoint (signer : Signer) (leaves : List SealHead) (root : RootNode) (now : Int)
    (id : String) : Checkpoint :=
  ⟨id, toHex root.hash, toHex (signer.sign (root.hash ++ int64Bytes root.sum)), leaves.length, now, .v2,
    some root.sum, signer.kid⟩

theorem sumRootPayload_ok {root : RootNode} {payload : List UInt8} :
    sumRootPayload root = .ok payload ↔ I64 root.sum ∧ payload = root.hash ++ int64Bytes root.sum := by
  unfold sumRootPayload toInt64BE
  split <;> rename_i h <;> simp [h, bind, Except.bind, pure, Except.pure, eq_comm]

theorem sumRootPayload_zero {root : RootNode} (h : root.sum = 0) :
    sumRootPayload root = .ok (root.hash ++ int64Bytes root.sum) :=
  sumRootPayload_ok.mpr ⟨h ▸ by decide, rfl⟩

/-- A signature is given exactly when the plan is proved and the leaves have a root of sum zero. -/
theorem signCheckpoint_ok {now : Int} {id : String} {checkpoint : Checkpoint} {plan : SealPlan} :
    signCheckpoint digest signer view store now id = .ok (checkpoint, plan, leaves) ↔
      ∃ boundary root, loadArchiveBoundary digest signer store = .ok boundary ∧
        leaves = mergeArchiveSums view.headSums boundary ∧
        planSeal digest signer store leaves = .ok plan ∧ plan.Proved digest boundary view ∧
        merkleSumRoot digest leaves = .ok root ∧ root.sum = 0 ∧
        checkpoint = sealedCheckpoint signer leaves root now id := by
  unfold signCheckpoint
  rw [except_bind_ok]
  constructor
  · rintro ⟨boundary, hboundary, h⟩
    obtain ⟨plan', hplan, h⟩ := except_bind_ok.mp h
    obtain ⟨broken, hbroken, h⟩ := except_bind_ok.mp h
    cases broken with
    | some broken => cases h
    | none =>
      obtain ⟨root, hroot, h⟩ := except_bind_ok.mp h
      by_cases hz : root.sum = 0
      · simp only [hz, ne_eq, not_true_eq_false, if_false, sumRootPayload_zero hz] at h
        cases h
        refine ⟨boundary, root, hboundary, rfl, hplan, SealPlan.firstBreak_ok.mp hbroken, hroot, hz, ?_⟩
        simp [sealedCheckpoint, hz]
      · rw [if_pos hz] at h
        cases h
  · rintro ⟨boundary, root, hboundary, rfl, hplan, hproved, hroot, hz, rfl⟩
    refine ⟨boundary, hboundary, except_bind_ok.mpr ⟨plan, hplan, except_bind_ok.mpr ⟨none, ?_, ?_⟩⟩⟩
    · exact SealPlan.firstBreak_ok.mpr hproved
    · refine except_bind_ok.mpr ⟨root, hroot, ?_⟩
      simp only [hz, ne_eq, not_true_eq_false, if_false, sumRootPayload_zero hz]
      simp [sealedCheckpoint, hz, bind, Except.bind]

end EconomyLab

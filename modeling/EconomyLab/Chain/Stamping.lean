import EconomyLab.Chain.Resealing
import EconomyLab.Foundation.Runs

/-!
# Seals that take time

A seal reads its leaves first and the clock last, and postings land in between. What an
archive run moves is picked by its stamp, so it may lie past the head that was sealed.
-/

namespace EconomyLab

open Foundation

/-- Every row ever committed beside the books, and those of them that were committed when
the leaves in the seal-head table were read. -/
structure Timeline where
  books : Books
  appended : List StoredPosting
  covered : List StoredPosting

/-- How many of the postings that land during a seal each of its later reads sees. -/
structure SealReads where
  heads : Nat
  walk : AccountRef → Nat

inductive SealStep
  | post (now : Int) (posting : Posting)
  | checkpoint (arrivals : List (Int × Posting)) (reads : SealReads) (now : Int) (id : String)
    (crashed : Bool)
  | archive (input : ArchiveSweepInput) (stop : Option (Nat × ArchiveStop))

namespace Timeline

def start : Timeline := ⟨Books.start, [], []⟩

def post (digest : Digest) (now : Int) (posting : Posting) (k : Timeline) : Timeline :=
  match k.books.post digest now posting with
  | (.error _, books) => { k with books }
  | (.ok _, books) => { k with books, appended := k.appended ++ books.log.getLast?.toList }

def arrive (digest : Digest) (arrivals : List (Int × Posting)) (k : Timeline) : Timeline :=
  arrivals.foldl (fun k arrival => k.post digest arrival.1 arrival.2) k

/-- The leaves are read before any of the postings, in one statement; the walks come later. -/
def readView (digest : Digest) (arrivals : List (Int × Posting)) (reads : SealReads) (k : Timeline) :
    ChainView where
  heads := (k.arrive digest (arrivals.take reads.heads)).books.heads
  headSums := k.books.headSums
  lineage := fun account since =>
    (k.arrive digest (arrivals.take (reads.walk account))).books.view.lineage account since

/-- With `crashed` the process stops before `putSealHeads`, and the table keeps the older leaves. -/
def checkpoint (digest : Digest) (signer : Signer) (arrivals : List (Int × Posting)) (reads : SealReads)
    (now : Int) (id : String) (crashed : Bool) (k : Timeline) : Timeline :=
  let after := k.arrive digest arrivals
  match recordCheckpoint digest signer (k.readView digest arrivals reads) k.books.checkpoints now
    id crashed with
  | .error _ => after
  | .ok (_, checkpoints) =>
    { after with
      books := { after.books with checkpoints }
      covered := if crashed then k.covered else k.appended }

end Timeline

def SealStep.step (digest : Digest) (signer : Signer) (k : Timeline) : SealStep → Timeline
  | .post now posting => k.post digest now posting
  | .checkpoint arrivals reads now id crashed => k.checkpoint digest signer arrivals reads now id crashed
  | .archive input stop => { k with books := (archiveSealedPrefix digest signer input stop k.books).2 }

def runSeals (digest : Digest) (signer : Signer) (steps : List SealStep) : Timeline :=
  steps.foldl (SealStep.step digest signer) Timeline.start

/-- The run passes its gate under this checkpoint and authenticates its leaves. -/
structure ArchivesUnder (digest : Digest) (signer : Signer) (store : CheckpointStore)
    (input : ArchiveSweepInput) (checkpoint : Checkpoint) : Prop where
  eligible : eligibleCheckpoint store input = .inl checkpoint
  authentic : authenticateSeal digest signer store checkpoint = .ok ()

/-- The row's link stands on the account's chain at or before the head of the account's leaf. -/
def AtOrBefore (appended : List StoredPosting) (leaves : List SealHead) (row : StoredPosting)
    (account : AccountRef) : Prop :=
  ∃ leaf ∈ leaves, leaf.account = account ∧ ∃ upTo after link,
    lineageOf appended account none = upTo ++ after ∧ row.linkOf account = some link ∧ link ∈ upTo ∧
      upTo.getLast?.map StoredLink.hash = some leaf.head

/-- The rows a run hands to the sink: all that one which was empty is left with. -/
def archiveSent (digest : Digest) (signer : Signer) (input : ArchiveSweepInput)
    (stop : Option (Nat × ArchiveStop)) (s : Books) : List StoredPosting :=
  (archiveSealedPrefix digest signer input stop { s with sink := [] }).2.sink

/-- Every row the step copies or prunes lies within the leaves that the run authenticated. -/
def SealStep.MovesSealed (digest : Digest) (signer : Signer) (k : Timeline) : SealStep → Prop
  | .archive input stop =>
    ∀ row, row ∈ archiveSent digest signer input stop k.books ∨
        (row ∈ k.books.log ∧ row ∉ (archiveSealedPrefix digest signer input stop k.books).2.log) →
      ∃ checkpoint, ArchivesUnder digest signer k.books.checkpoints input checkpoint ∧
        ∀ link ∈ row.links, AtOrBefore k.appended k.books.checkpoints.sealHeads row link.account
  | _ => True

variable {digest : Digest} {k : Timeline} {input : ArchiveSweepInput}

theorem eligibleCheckpoint_latest {store : CheckpointStore}
    {checkpoint : Checkpoint} (h : eligibleCheckpoint store input = .inl checkpoint) :
    store.latest = some checkpoint := by
  unfold eligibleCheckpoint at h
  split at h
  · cases h
  · rename_i latest hlatest
    rw [hlatest]
    split_ifs at h
    cases h
    rfl

def resumeCursor (store : CheckpointStore) : Option Nat :=
  (store.archive.bind ArchiveState.cursor).or (store.archive.map ArchiveState.throughSeq)

def pastCursor (cursor : Option Nat) (log : List StoredPosting) : List StoredPosting :=
  log.filter fun row => cursor.all fun seq => seq < row.seq

/-- No row that is not covered is reached before one is that was stamped later. -/
def StampedApart (covered : List StoredPosting) (takenAt : Int) (rows : List StoredPosting) : Prop :=
  ∀ front late rest, rows = front ++ late :: rest → late ∉ covered →
    ∃ row ∈ front ++ [late], takenAt < row.postedAt

/-- A run that passes its gate finds the stamps apart past the cursor it resumes at. -/
def SealStep.Apart (digest : Digest) (signer : Signer) (k : Timeline) : SealStep → Prop
  | .archive input _ => ∀ checkpoint, ArchivesUnder digest signer k.books.checkpoints input checkpoint →
    0 < input.limit → StampedApart k.covered checkpoint.takenAt
      (pastCursor (resumeCursor k.books.checkpoints) k.books.log)
  | _ => True

/-! ## What every run keeps -/

theorem Timeline.post_eq (digest : Digest) (signer : Signer) (now : Int) (posting : Posting)
    (k : Timeline) :
    k.post digest now posting =
      { books := ((ChainStep.post now posting).step digest signer ⟨k.books, k.appended, [], false⟩).books
        appended := ((ChainStep.post now posting).step digest signer ⟨k.books, k.appended, [],
          false⟩).appended
        covered := k.covered } := by
  unfold Timeline.post
  simp only [ChainStep.step]
  rcases Books.post digest now posting k.books with ⟨answer, books⟩
  cases answer with
  | error e => rfl
  | ok u => rfl

/-- The seal-head table has one row an account of the rows, with the account's head. -/
structure HoldsHeads (table : HeadRows) (rows : List StoredPosting) : Prop where
  keys : table.keys.Nodup
  get : ∀ account, (table.get account).map HeadSum.head =
    if account ∈ (legsOf rows).map Leg.account then some (chainHead rows account) else none

/-- What is remembered fits the books, and the seal-head table stands for the covered rows. -/
structure Tracked (digest : Digest) (k : Timeline) : Prop where
  faithful : Faithful digest k.books k.appended
  boundary : BoundaryRows k.books k.appended
  covered : k.covered <+: k.appended
  table : HoldsHeads k.books.checkpoints.heads k.covered

theorem Tracked.start (digest : Digest) : Tracked digest Timeline.start where
  faithful := Faithful.start digest
  boundary := ⟨List.nodup_nil, fun a ha => by cases ha⟩
  covered := List.prefix_refl []
  table := ⟨List.nodup_nil, fun account => by simp [Timeline.start, legsOf]; rfl⟩

theorem Timeline.post_checkpoints (digest : Digest) (now : Int) (posting : Posting) (k : Timeline) :
    (k.post digest now posting).books.checkpoints = k.books.checkpoints ∧
      (k.post digest now posting).covered = k.covered := by
  unfold Timeline.post
  rcases Books.post_cases digest now posting k.books with ⟨e, ledger, hpost, -⟩ |
    ⟨row, next, ledger, -, -, -, -, -, -, -, -, hpost⟩
  · simp only [hpost, and_self]
  · simp only [hpost, and_self]

theorem Tracked.post {digest : Digest} {k : Timeline} (h : Tracked digest k) (now : Int)
    (posting : Posting) :
    Tracked digest (k.post digest now posting) := by
  obtain ⟨hstore, hcovered⟩ := k.post_checkpoints digest now posting
  obtain ⟨more, hmore⟩ := (ChainStep.post now posting).step_appended digest ⟨id, fun _ _ => true, none⟩
    ⟨k.books, k.appended, [], false⟩
  have heq := k.post_eq digest ⟨id, fun _ _ => true, none⟩ now posting
  constructor
  · rw [heq]
    exact ChainStep.step_faithful h.faithful (.post now posting)
  · rw [heq]
    exact ChainStep.step_boundaryRows h.faithful h.boundary (.post now posting)
  · rw [hcovered, heq]
    simp only [hmore]
    exact h.covered.trans (List.prefix_append _ _)
  · rw [hstore, hcovered]
    exact h.table

theorem Tracked.arrive (h : Tracked digest k)
    (arrivals : List (Int × Posting)) : Tracked digest (k.arrive digest arrivals) ∧
      (k.arrive digest arrivals).books.checkpoints = k.books.checkpoints ∧
      (k.arrive digest arrivals).covered = k.covered ∧
        k.appended <+: (k.arrive digest arrivals).appended := by
  induction arrivals generalizing k with
  | nil => exact ⟨h, rfl, rfl, List.prefix_refl _⟩
  | cons arrival arrivals ih =>
    obtain ⟨hstore, hcovered⟩ := k.post_checkpoints digest arrival.1 arrival.2
    obtain ⟨htracked, hstore', hcovered', happended⟩ := ih (h.post arrival.1 arrival.2)
    refine ⟨htracked, hstore'.trans hstore, hcovered'.trans hcovered, ?_⟩
    obtain ⟨more, hmore⟩ := (ChainStep.post arrival.1 arrival.2).step_appended digest
      ⟨id, fun _ _ => true, none⟩ ⟨k.books, k.appended, [], false⟩
    have heq := k.post_eq digest ⟨id, fun _ _ => true, none⟩ arrival.1 arrival.2
    apply List.IsPrefix.trans ?_ happended
    rw [heq]
    simp only [hmore]
    exact List.prefix_append _ _

/-- A seal that went through leaves each leaf's head in the table, written or still there. -/
theorem headsAfter_heads {store : CheckpointStore} (hkeys : store.heads.keys.Nodup)
    {leaves : List SealHead}
    (hd : DistinctAccounts leaves) {plan : SealPlan}
    (hplan : ∀ dirty since, plan = .incremental dirty since → since = sinceHeads store.sealHeads ∧
      dirty = dirtyLeaves since leaves ∧ ∀ account ∈ since.keys, account ∈ leaves.map SealHead.account)
    (account : AccountRef) : ((store.headsAfter leaves plan).get account).map HeadSum.head =
      (OrderedTable.lookup account (leaves.map rowOf)).map HeadSum.head := by
  cases plan with
  | full =>
    simp only [CheckpointStore.headsAfter, get_setAll_rowOf hd, OrderedTable.get_empty, Option.or_none]
  | incremental dirty since =>
    obtain ⟨rfl, rfl, hlive⟩ := hplan dirty since rfl
    have hdd : DistinctAccounts (dirtyLeaves (sinceHeads store.sealHeads) leaves) :=
      dirtyLeaves_distinct hd
    simp only [CheckpointStore.headsAfter, get_setAll_rowOf hdd]
    have hsince := sinceHeads_get hkeys account
    cases hwritten : OrderedTable.lookup account
        ((dirtyLeaves (sinceHeads store.sealHeads) leaves).map rowOf) with
    | some row =>
      have hleaf := (mem_dirtyLeaves.mp ((lookup_rowOf hdd).mp hwritten)).1
      rw [(lookup_rowOf hd).mpr hleaf, Option.some_or]
    | none =>
      rw [Option.none_or, ← hsince]
      cases hleaf : OrderedTable.lookup account (leaves.map rowOf) with
      | some row =>
        have hm := (lookup_rowOf hd).mp hleaf
        by_contra hne
        have hdirty := (lookup_rowOf hdd).mpr (mem_dirtyLeaves.mpr ⟨hm, hne⟩)
        rw [hwritten] at hdirty
        cases hdirty
      | none =>
        rw [Option.map_none, ← Option.not_isSome_iff_eq_none, OrderedTable.get_isSome]
        intro hkey
        obtain ⟨leaf, hm, rfl⟩ := List.mem_map.mp (hlive _ hkey)
        have hsome : OrderedTable.lookup leaf.account (leaves.map rowOf) = some ⟨leaf.head, leaf.sum⟩ :=
          (lookup_rowOf hd).mpr hm
        rw [hleaf] at hsome
        cases hsome

/-- A seal that went through stores the heads of the rows its leaves were read over. -/
theorem Tracked.headsAfter {signer : Signer} (h : Tracked digest k)
    {arrivals : List (Int × Posting)} {reads : SealReads} {now : Int} {id : String}
    {checkpoint : Checkpoint}
    {plan : SealPlan} {leaves : List SealHead}
    (hsign : signCheckpoint digest signer (k.readView digest arrivals reads) k.books.checkpoints now id =
      .ok (checkpoint, plan, leaves)) :
    HoldsHeads (k.books.checkpoints.headsAfter leaves plan) k.appended := by
  obtain ⟨boundary, root, hboundary, hleaves, hplan, -⟩ := signCheckpoint_ok.mp hsign
  have hmerged : leaves = _ := hleaves.trans (sealed_leaves h.faithful h.boundary hboundary)
  have hd : DistinctAccounts leaves := by
    have haccounts : leaves.map SealHead.account = k.books.headSums.map SealHead.account := by
      rw [hmerged]
      simp [Function.comp_def]
    unfold DistinctAccounts
    rw [haccounts]
    exact h.faithful.headSums_distinct
  have hinc : ∀ dirty since, plan = .incremental dirty since →
      since = sinceHeads k.books.checkpoints.sealHeads ∧ dirty = dirtyLeaves since leaves ∧
        ∀ account ∈ since.keys, account ∈ leaves.map SealHead.account := by
    rintro dirty since rfl
    obtain ⟨latest, -, -, hsince, hdirty, hlive⟩ := planSeal_incremental.mp hplan
    exact ⟨hsince, hdirty, hlive⟩
  constructor
  · cases plan with
    | full => exact OrderedTable.nodup_keys_setAll (by simp) _
    | incremental dirty since => exact OrderedTable.nodup_keys_setAll h.table.keys _
  · intro account
    rw [headsAfter_heads h.table.keys hd hinc]
    split
    · rename_i ha
      have hlisted : ⟨account, chainHead k.appended account, rawSum k.books.log account⟩ ∈
        k.books.headSums :=
        h.faithful.mem_headSums.mpr ⟨ha, rfl⟩
      have hm : ⟨account, chainHead k.appended account,
          rawSum k.books.log account + archivedSum k.books.checkpoints account⟩ ∈ leaves := by
        rw [hmerged]
        exact List.mem_map.mpr ⟨_, hlisted, rfl⟩
      have hrow : OrderedTable.lookup account (leaves.map rowOf) = some ⟨chainHead k.appended account,
          rawSum k.books.log account + archivedSum k.books.checkpoints account⟩ := (lookup_rowOf hd).mpr hm
      rw [hrow]
      rfl
    · rename_i ha
      cases hleaf : OrderedTable.lookup account (leaves.map rowOf) with
      | none => rfl
      | some row =>
        have hm := (lookup_rowOf hd).mp hleaf
        rw [hmerged] at hm
        obtain ⟨listed, hlisted, heq⟩ := List.mem_map.mp hm
        have haccount : listed.account = account := congrArg SealHead.account heq
        exact absurd (haccount ▸ (h.faithful.mem_headSums.mp hlisted).1) ha

theorem Tracked.checkpoint (h : Tracked digest k) (signer : Signer)
    (arrivals : List (Int × Posting)) (reads : SealReads) (now : Int) (id : String) (crashed : Bool) :
    Tracked digest (k.checkpoint digest signer arrivals reads now id crashed) := by
  obtain ⟨harrived, hstore, hcovered, happended⟩ := h.arrive arrivals
  unfold Timeline.checkpoint
  simp only
  cases hsign : signCheckpoint digest signer (k.readView digest arrivals reads)
    k.books.checkpoints now id with
  | error e =>
    have hrecord : recordCheckpoint digest signer (k.readView digest arrivals reads)
      k.books.checkpoints now id
        crashed = .error e := by
      unfold recordCheckpoint
      rw [hsign]
      rfl
    rw [hrecord]
    exact harrived
  | ok signed =>
    obtain ⟨checkpoint, plan, leaves⟩ := signed
    rw [recordCheckpoint_signed hsign]
    cases crashed with
    | true =>
      refine ⟨harrived.faithful.of_ledger rfl rfl, ⟨h.boundary.keys, ?_⟩,
        h.covered.trans happended, h.table⟩
      have htouched := harrived.boundary.touched
      rw [hstore] at htouched
      exact htouched
    | false =>
      refine ⟨harrived.faithful.of_ledger rfl rfl, ⟨h.boundary.keys, ?_⟩, happended, h.headsAfter hsign⟩
      have htouched := harrived.boundary.touched
      rw [hstore] at htouched
      exact htouched

theorem SealStep.step_tracked (h : Tracked digest k) (signer : Signer)
    (c : SealStep) : Tracked digest (c.step digest signer k) := by
  cases c with
  | post now posting => exact h.post now posting
  | checkpoint arrivals reads now id crashed => exact h.checkpoint signer arrivals reads now id crashed
  | archive input stop =>
    refine ⟨?_, archiveSealedPrefix_boundaryRows h.faithful h.boundary, h.covered, ?_⟩
    · exact ChainStep.step_faithful (k := ⟨k.books, k.appended, [], false⟩) h.faithful
        (.archive input stop)
    · have hheads := (archiveSealedPrefix_seals digest signer input stop k.books).1
      simp only [SealStep.step, hheads]
      exact h.table

theorem runSeals_tracked (digest : Digest) (signer : Signer) (steps : List SealStep) :
    Tracked digest (runSeals digest signer steps) := by
  have key : ∀ k : Timeline, Tracked digest k →
      Tracked digest (steps.foldl (SealStep.step digest signer) k) := by
    induction steps with
    | nil => exact fun k h => h
    | cons c steps ih => exact fun k h => ih _ (c.step_tracked h signer)
  exact key _ (Tracked.start digest)

variable {cursor : Option Nat} {takenAt : Int} {s : Books}

theorem archivePage_postings {log : List StoredPosting} {limit : Nat}
    {page : ArchivePage} (h : archivePage log cursor limit = .ok page) :
    page.postings = (pastCursor cursor log).take limit := by
  unfold archivePage at h
  simp only at h
  split at h
  · split at h
    · cases h
    · cases h
      rfl
  · cases h
    rfl

/-- Of stamps that are apart the front that is not stamped later is covered. -/
theorem StampedApart.front {covered eligible rest : List StoredPosting}
    (h : StampedApart covered takenAt (eligible ++ rest))
    (hstamped : ∀ row ∈ eligible, row.postedAt ≤ takenAt) :
    ∀ row ∈ eligible, row ∈ covered := by
  intro row hr
  by_contra hlate
  obtain ⟨front, back, rfl⟩ := List.append_of_mem hr
  obtain ⟨later, hlater, hafter⟩ := h front row (back ++ rest) (by simp) hlate
  have hwithin : later ∈ front ++ row :: back := by
    rw [List.append_cons]
    exact List.mem_append_left _ hlater
  exact absurd (hstamped later hwithin) (not_le.mpr hafter)

theorem StampedApart.rest {covered eligible rest : List StoredPosting}
    (h : StampedApart covered takenAt (eligible ++ rest))
    (hstamped : ∀ row ∈ eligible, row.postedAt ≤ takenAt) :
    StampedApart covered takenAt rest := by
  rintro front late back rfl hlate
  obtain ⟨later, hlater, hafter⟩ := h (eligible ++ front) late back (by simp) hlate
  rw [List.append_assoc, List.mem_append] at hlater
  rcases hlater with hlater | hlater
  · exact absurd (hstamped later hlater) (not_le.mpr hafter)
  · exact ⟨later, hlater, hafter⟩

/-- A page is a front of the rows past the cursor, none of them stamped later than the checkpoint. -/
theorem PageMoves.front {checkpoint : Checkpoint} {heads advanced : HeadRows}
    {eligible : List StoredPosting} {last : StoredPosting} {mark : ArchiveMark}
    (h : PageMoves digest checkpoint input cursor heads s eligible last advanced mark) :
    0 < input.limit ∧ eligible <+: pastCursor cursor s.log ∧
      ∀ row ∈ eligible, row.postedAt ≤ checkpoint.takenAt := by
  obtain ⟨page, hpage, heligible⟩ := h.page
  have hpostings := archivePage_postings hpage
  have hfront : eligible <+: page.postings := heligible ▸ sealedPrefix_front _ _
  refine ⟨?_, ?_, ?_⟩
  · by_contra hzero
    have hlast := List.mem_of_getLast? h.ends
    have hnone := hfront.subset hlast
    rw [hpostings, Nat.eq_zero_of_not_pos hzero, List.take_zero] at hnone
    cases hnone
  · rw [hpostings] at hfront
    exact hfront.trans (List.take_prefix _ _)
  · intro row hr
    rw [heligible] at hr
    exact of_decide_eq_true (List.mem_takeWhile_imp (p := fun row : StoredPosting => row.postedAt ≤ _) hr)

theorem pastCursor_prune {eligible rest : List StoredPosting}
    {last : StoredPosting} (hordered : s.log.Pairwise fun row later => row.seq < later.seq)
    (hids : (s.log.map StoredPosting.txnId).Nodup) (hpast : pastCursor cursor s.log = eligible ++ rest)
    (hlast : eligible.getLast? = some last) :
    pastCursor (some last.seq) (s.prune eligible).log = rest := by
  have hsub : (eligible ++ rest).Sublist s.log := hpast ▸ List.filter_sublist
  have horder := hordered.sublist hsub
  have hcursor : cursor.all (fun seq => seq < last.seq) = true := by
    have hm : last ∈ pastCursor cursor s.log := by
      rw [hpast]
      exact List.mem_append_left _ (List.mem_of_getLast? hlast)
    exact (List.mem_filter.mp hm).2
  have hbeyond : s.log.filter (fun row => last.seq < row.seq) = rest := by
    have hskip : s.log.filter (fun row => last.seq < row.seq) =
        (pastCursor cursor s.log).filter fun row => last.seq < row.seq := by
      unfold pastCursor
      rw [List.filter_filter]
      apply List.filter_congr
      intro row _
      cases cursor with
      | none => simp
      | some seq =>
        simp only [Option.all_some, decide_eq_true_eq] at hcursor ⊢
        by_cases hrow : last.seq < row.seq
        · have hseq : seq < row.seq := hcursor.trans hrow
          simp [hrow, hseq]
        · simp [hrow]
    obtain ⟨init, rfl⟩ := List.getLast?_eq_some_iff.mp hlast
    rw [List.append_assoc, List.singleton_append, List.pairwise_append] at horder
    obtain ⟨-, htail, hacross⟩ := horder
    rw [List.pairwise_cons] at htail
    have hbefore : (init ++ [last]).filter (fun row => last.seq < row.seq) = [] := by
      rw [List.filter_eq_nil_iff]
      intro row hr
      rw [decide_eq_true_eq, not_lt]
      rcases List.mem_append.mp hr with hr | hr
      · exact (hacross row hr last List.mem_cons_self).le
      · exact (congrArg StoredPosting.seq (List.mem_singleton.mp hr)).le
    have hafter : rest.filter (fun row => last.seq < row.seq) = rest := by
      rw [List.filter_eq_self]
      intro row hr
      exact decide_eq_true (htail.1 row hr)
    rw [hskip, hpast, List.filter_append, hbefore, hafter, List.nil_append]
  have hkept : rest.filter (fun row => row.txnId ∉ eligible.map StoredPosting.txnId) = rest := by
    have hnodup : ((eligible ++ rest).map StoredPosting.txnId).Nodup := (hsub.map _).nodup hids
    rw [List.map_append, List.nodup_append] at hnodup
    rw [List.filter_eq_self]
    intro row hr
    apply decide_eq_true
    intro hm
    exact hnodup.2.2 _ hm _ (List.mem_map_of_mem hr) rfl
  unfold pastCursor
  simp only [Option.all_some]
  rw [Books.prune_log, List.filter_comm, hbeyond, hkept]

/-! ## What a run moves -/

/-- In front of every page: what was copied or pruned so far is covered, and the stamps of what
lies past the cursor are apart. -/
structure Covering (k : Timeline) (input : ArchiveSweepInput) (takenAt : Int) (sink : List StoredPosting)
    (cursor : Option Nat) (s : Books) : Prop where
  log : s.log.Sublist k.appended
  copied : ∀ row ∈ s.sink, row ∈ sink ∨ row ∈ k.covered
  pruned : ∀ row ∈ k.books.log, row ∈ s.log ∨ row ∈ k.covered
  apart : 0 < input.limit → StampedApart k.covered takenAt (pastCursor cursor s.log)

structure OnlyCovered (k : Timeline) (sink : List StoredPosting) (s : Books) : Prop where
  copied : ∀ row ∈ s.sink, row ∈ sink ∨ row ∈ k.covered
  pruned : ∀ row ∈ k.books.log, row ∈ s.log ∨ row ∈ k.covered

section Pages

variable {digest : Digest} {k : Timeline} {checkpoint : Checkpoint} {input : ArchiveSweepInput}
  {sink : List StoredPosting} {cursor : Option Nat} {heads advanced : HeadRows} {s : Books}
  {eligible : List StoredPosting} {last : StoredPosting} {mark : ArchiveMark}

theorem Covering.only (h : Covering k input takenAt sink cursor s) : OnlyCovered k sink s :=
  ⟨h.copied, h.pruned⟩

theorem Covering.page (h : Covering k input checkpoint.takenAt sink cursor s)
    (hmoves : PageMoves digest checkpoint input cursor heads s eligible last advanced mark) :
    ∀ row ∈ eligible, row ∈ k.covered := by
  obtain ⟨hlimit, ⟨rest, hrest⟩, hstamped⟩ := hmoves.front
  have hapart := h.apart hlimit
  rw [← hrest] at hapart
  exact hapart.front hstamped

theorem Covering.sent (h : Covering k input checkpoint.takenAt sink cursor s)
    (hmoves : PageMoves digest checkpoint input cursor heads s eligible last advanced mark) :
    ∀ row ∈ sinkPut s.sink eligible, row ∈ sink ∨ row ∈ k.covered := by
  intro row hr
  rcases List.mem_append.mp hr with hr | hr
  · exact h.copied row hr
  · exact Or.inr (h.page hmoves row (List.mem_filter.mp hr).1)

theorem Covering.prune (hk : Tracked digest k) (hids : (k.appended.map StoredPosting.txnId).Nodup)
    (h : Covering k input checkpoint.takenAt sink cursor s)
    (hmoves : PageMoves digest checkpoint input cursor heads s eligible last advanced mark)
    (checkpoints : CheckpointStore) : Covering k input checkpoint.takenAt sink (some last.seq)
      (Books.prune { s with sink := sinkPut s.sink eligible, checkpoints } eligible) := by
  obtain ⟨hlimit, ⟨rest, hrest⟩, hstamped⟩ := hmoves.front
  have hlog : Books.log { s with sink := sinkPut s.sink eligible, checkpoints } = s.log := rfl
  have hpage := h.page hmoves
  constructor
  · rw [Books.prune_log, hlog]
    exact List.filter_sublist.trans h.log
  · exact h.sent hmoves
  · intro row hr
    rcases h.pruned row hr with hr | hr
    · rw [Books.prune_log, hlog, List.mem_filter, decide_eq_true_eq]
      by_cases hm : row.txnId ∈ eligible.map StoredPosting.txnId
      · obtain ⟨copy, hcopy, hid⟩ := List.mem_map.mp hm
        have hboth := List.inj_on_of_nodup_map hids (h.log.subset (hmoves.subset copy hcopy))
          (h.log.subset hr) hid
        exact Or.inr (hboth ▸ hpage copy hcopy)
      · exact Or.inl ⟨hr, hm⟩
    · exact Or.inr hr
  · have hpast := pastCursor_prune (s := { s with sink := sinkPut s.sink eligible, checkpoints })
      (hk.faithful.ordered.sublist h.log) ((h.log.map _).nodup hids) hrest.symm hmoves.ends
    have hapart := h.apart hlimit
    rw [← hrest] at hapart
    rw [hpast]
    exact fun _ => hapart.rest hstamped

end Pages

/-- A run that starts with the stamps apart moves only covered rows, wherever it stops. -/
theorem archiveSealedPrefix_covered {signer : Signer}
    (hk : Tracked digest k) (hids : (k.appended.map StoredPosting.txnId).Nodup)
    {stop : Option (Nat × ArchiveStop)} (hapart : SealStep.Apart digest signer k (.archive input stop))
    (sink : List StoredPosting) :
    OnlyCovered k sink (archiveSealedPrefix digest signer input stop { k.books with sink }).2 := by
  have hstill : OnlyCovered k sink { k.books with sink } := ⟨fun _ hr => Or.inl hr, fun _ hr => Or.inl hr⟩
  have rule : ∀ checkpoint : Checkpoint, PageRule digest signer checkpoint input stop
      (fun _ cursor _ s => Covering k input checkpoint.takenAt sink cursor s)
      (fun _ s => OnlyCovered k sink s) := by
    intro checkpoint
    constructor
    · exact fun h => h.only
    · exact fun _ h => h.only
    · exact fun _ h hmoves _ => ⟨h.sent hmoves, h.pruned⟩
    · exact fun h hmoves _ _ => ⟨h.sent hmoves, h.pruned⟩
    · exact fun h hmoves _ => h.prune hk hids hmoves _
    · exact fun h => h.only
  apply PageRule.run rule (fun _ _ => hstill) fun _ => hstill
  intro checkpoint heads hcheckpoint hseal _
  exact ⟨hk.faithful.honest.indexes.kept, hstill.copied, hstill.pruned,
    hapart checkpoint ⟨hcheckpoint, hseal⟩⟩

/-- Nothing moves unless the run passes its gate. -/
theorem archiveSealedPrefix_refused {signer : Signer} {stop : Option (Nat × ArchiveStop)}
    (h : ∀ checkpoint, ¬ ArchivesUnder digest signer s.checkpoints input checkpoint) :
    (archiveSealedPrefix digest signer input stop s).2 = s := by
  unfold archiveSealedPrefix
  split
  · rfl
  · rename_i checkpoint hcheckpoint
    split
    · rename_i hseal _
      exact absurd ⟨hcheckpoint, hseal⟩ (h checkpoint)
    · rfl
    · rfl

/-- A covered row stands on each of its chains at or before the head in the table. -/
theorem Tracked.atOrBefore (h : Tracked digest k) {row : StoredPosting}
    (hr : row ∈ k.covered) {link : Link} (hl : link ∈ row.links) :
    AtOrBefore k.appended k.books.checkpoints.sealHeads row link.account := by
  obtain ⟨more, happended⟩ := h.covered
  have hchained := h.faithful.chained
  rw [← happended] at hchained
  have hbefore : Chained digest k.covered := hchained.prefix
  obtain ⟨before, hlinked⟩ := hbefore.of_mem hr
  have hleg : link.account ∈ row.legs.map Leg.account := by
    rw [← mem_distinctAccounts, ← hlinked.accounts]
    exact List.mem_map_of_mem hl
  obtain ⟨stored, hstored⟩ := Option.isSome_iff_exists.mp ((hlinked.touches link.account).mpr hleg)
  have haccount : link.account ∈ (legsOf k.covered).map Leg.account := by
    obtain ⟨leg, hm, he⟩ := List.mem_map.mp hleg
    exact List.mem_map.mpr ⟨leg, List.mem_flatMap.mpr ⟨row, hr, hm⟩, he⟩
  have hget := h.table.get link.account
  rw [if_pos haccount, Option.map_eq_some_iff] at hget
  obtain ⟨held, hheld, hhead⟩ := hget
  have hmem : stored ∈ lineageOf k.covered link.account none := by
    rw [lineageOf_none]
    exact List.mem_filterMap.mpr ⟨row, hr, hstored⟩
  refine ⟨⟨link.account, held.head, held.sum⟩, (mem_leavesOf h.table.keys).mpr hheld, rfl,
    lineageOf k.covered link.account none, lineageOf more link.account none, stored, ?_, hstored, hmem, ?_⟩
  · rw [← happended, lineageOf_append]
  · obtain ⟨init, last, hends⟩ := List.eq_nil_or_concat _ |>.resolve_left (List.ne_nil_of_mem hmem)
    have hlast := (hbefore.lineage link.account).2
    rw [hends, List.concat_eq_append, lastHash_append] at hlast
    rw [hends, List.concat_eq_append, List.getLast?_concat, Option.map_some, hhead, ← hlast]
    rfl

theorem SealStep.Apart.movesSealed {signer : Signer}
    (hk : Tracked digest k) (hids : (k.appended.map StoredPosting.txnId).Nodup) {c : SealStep}
    (h : c.Apart digest signer k) :
    c.MovesSealed digest signer k := by
  cases c with
  | post now posting => trivial
  | checkpoint arrivals reads now id crashed => trivial
  | archive input stop =>
    intro row hmoved
    have hcovered : row ∈ k.covered := by
      rcases hmoved with hsent | ⟨hlog, hgone⟩
      · rcases (archiveSealedPrefix_covered hk hids h []).copied row hsent with hnone | hr
        · cases hnone
        · exact hr
      · exact ((archiveSealedPrefix_covered hk hids h k.books.sink).pruned row hlog).resolve_left hgone
    have hunder : ∃ checkpoint, ArchivesUnder digest signer k.books.checkpoints input checkpoint := by
      by_contra hnone
      push Not at hnone
      rcases hmoved with hsent | ⟨hlog, hgone⟩
      · unfold archiveSent at hsent
        rw [archiveSealedPrefix_refused (s := { k.books with sink := [] }) hnone] at hsent
        cases hsent
      · rw [archiveSealedPrefix_refused hnone] at hgone
        exact hgone hlog
    obtain ⟨checkpoint, hcheckpoint⟩ := hunder
    exact ⟨checkpoint, hcheckpoint, fun link hl => hk.atOrBefore hcovered hl⟩

theorem SealStep.step_appended (h : Tracked digest k) (signer : Signer)
    (c : SealStep) : k.appended <+: (c.step digest signer k).appended := by
  cases c with
  | post now posting => exact (h.arrive [(now, posting)]).2.2.2
  | checkpoint arrivals reads now id crashed =>
    obtain ⟨-, -, -, happended⟩ := h.arrive arrivals
    simp only [SealStep.step, Timeline.checkpoint]
    split
    · exact happended
    · exact happended
  | archive input stop => exact List.prefix_refl _

/-- In a run whose stamps are apart wherever an archive run starts, only sealed history moves. -/
theorem archive_moves_sealed (digest : Digest) (signer : Signer) (steps : List SealStep)
    (hids : ((runSeals digest signer steps).appended.map StoredPosting.txnId).Nodup)
    (hapart : RunMeets (SealStep.step digest signer) (SealStep.Apart digest signer) Timeline.start steps) :
    RunMeets (SealStep.step digest signer) (SealStep.MovesSealed digest signer) Timeline.start steps := by
  have grows : ∀ (post : List SealStep) (k : Timeline), Tracked digest k →
      k.appended <+: (post.foldl (SealStep.step digest signer) k).appended := by
    intro post
    induction post with
    | nil => exact fun k _ => List.prefix_refl _
    | cons c post ih => exact fun k h => (c.step_appended h signer).trans (ih _ (c.step_tracked h signer))
  apply RunMeets.of_before
  intro pre c post hrun
  have hk : Tracked digest (pre.foldl (SealStep.step digest signer) Timeline.start) :=
    runSeals_tracked digest signer pre
  have hsofar := grows (c :: post) _ hk
  rw [← List.foldl_append, ← hrun] at hsofar
  exact (hapart.at_step hrun).movesSealed hk ((hsofar.sublist.map _).nodup hids)

/-- The second posting is stamped after the seal was. -/
def sampleTimely : List SealStep :=
  [.post 1 (sampleTopUp "txn_1" "usr_a"), .checkpoint [] ⟨0, fun _ => 0⟩ 2 "chk_1" false,
    .post 3 (sampleTopUp "txn_2" "usr_b")]

theorem sampleTimely_apart (input : ArchiveSweepInput) (stop : Option (Nat × ArchiveStop)) :
    SealStep.Apart weighDigest echoSigner (runSeals weighDigest echoSigner sampleTimely)
      (.archive input stop) := by
  have hk := runSeals_tracked weighDigest echoSigner sampleTimely
  have hrun : (runSeals weighDigest echoSigner sampleTimely).covered.length = 1 ∧
      (runSeals weighDigest echoSigner sampleTimely).appended.map StoredPosting.postedAt = [1, 3] ∧
      (runSeals weighDigest echoSigner sampleTimely).books.checkpoints.latest.map Checkpoint.takenAt =
        some 2 := by
    decide +kernel
  generalize runSeals weighDigest echoSigner sampleTimely = k at hk hrun ⊢
  obtain ⟨hcovered, hstamps, htaken⟩ := hrun
  obtain ⟨more, happended⟩ := hk.covered
  intro checkpoint hunder _
  have hafter : ∀ row ∈ more, 2 < row.postedAt := by
    have hmore : more.map StoredPosting.postedAt = [3] := by
      have hdrop := congrArg (List.drop 1) hstamps
      rw [← happended, List.map_append, List.drop_left' (by simpa using hcovered)] at hdrop
      exact hdrop
    intro row hr
    have hm := List.mem_map_of_mem (f := StoredPosting.postedAt) hr
    rw [hmore, List.mem_singleton] at hm
    omega
  have hcheckpoint : checkpoint.takenAt = 2 := by
    rw [eligibleCheckpoint_latest hunder.eligible, Option.map_some] at htaken
    exact Option.some.inj htaken
  intro front late rest hsplit hlate
  have hm : late ∈ k.books.log := by
    have hpast : late ∈ pastCursor (resumeCursor k.books.checkpoints) k.books.log := by
      rw [hsplit]
      simp
    exact (List.mem_filter.mp hpast).1
  have hin := hk.faithful.honest.indexes.kept.subset hm
  simp only [← happended, List.mem_append] at hin
  refine ⟨late, by simp, ?_⟩
  rw [hcheckpoint]
  exact hafter late (hin.resolve_left hlate)

theorem archive_moves_sealed_timely :
    (archiveSent weighDigest echoSigner ⟨10, 10, 100⟩ none
      (runSeals weighDigest echoSigner sampleTimely).books).map StoredPosting.txnId = ["txn_1"] ∧
    RunMeets (SealStep.step weighDigest echoSigner) (SealStep.MovesSealed weighDigest echoSigner)
      Timeline.start (sampleTimely ++ [.archive ⟨10, 10, 100⟩ none]) := by
  have hids : ((runSeals weighDigest echoSigner
    (sampleTimely ++ [.archive ⟨10, 10, 100⟩ none])).appended.map
      StoredPosting.txnId).Nodup := by
    decide +kernel
  refine ⟨by decide +kernel, archive_moves_sealed weighDigest echoSigner _ hids ?_⟩
  exact RunMeets.snoc ⟨trivial, trivial, trivial, trivial⟩ (sampleTimely_apart _ _)

/-- The second posting lands after the leaves were read and before the clock is. -/
def sampleLate : List SealStep :=
  [.post 1 (sampleTopUp "txn_1" "usr_a"),
    .checkpoint [(2, sampleTopUp "txn_2" "usr_b")] ⟨1, fun _ => 1⟩ 3 "chk_1" false]

/-- It is archived under a seal that has no leaf for its account. -/
theorem late_posting_moves : ¬ RunMeets (SealStep.step weighDigest echoSigner)
    (SealStep.MovesSealed weighDigest echoSigner) Timeline.start
    (sampleLate ++ [.archive ⟨10, 10, 100⟩ none]) := by
  intro h
  have hmoves : SealStep.MovesSealed weighDigest echoSigner (runSeals weighDigest echoSigner sampleLate)
      (.archive ⟨10, 10, 100⟩ none) := by
    have hsplit : sampleLate ++ [SealStep.archive ⟨10, 10, 100⟩ none] =
        sampleLate ++ SealStep.archive ⟨10, 10, 100⟩ none :: [] := rfl
    exact h.at_step hsplit
  have hrun : (archiveSent weighDigest echoSigner ⟨10, 10, 100⟩ none
      (runSeals weighDigest echoSigner sampleLate).books).any (fun row => row.links.any fun link =>
        link.account ∉ (runSeals weighDigest echoSigner sampleLate).books.checkpoints.sealHeads.map
          SealHead.account) = true := by
    decide +kernel
  generalize runSeals weighDigest echoSigner sampleLate = k at hmoves hrun
  obtain ⟨row, hrow, hlinks⟩ := List.any_eq_true.mp hrun
  obtain ⟨link, hlink, hnone⟩ := List.any_eq_true.mp hlinks
  obtain ⟨checkpoint, -, hwithin⟩ := hmoves row (Or.inl hrow)
  obtain ⟨leaf, hleaf, haccount, -⟩ := hwithin link hlink
  exact of_decide_eq_true hnone (List.mem_map.mpr ⟨leaf, hleaf, haccount⟩)

end EconomyLab

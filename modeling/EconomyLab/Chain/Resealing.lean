import EconomyLab.Chain.Pruning
import EconomyLab.Chain.SealedExport
import EconomyLab.Chain.Vouched

/-!
# Sealing an archived ledger

The full path starts at the archived heads, which a prune keeps. The incremental one starts at
the heads sealed last, and the links that carry them may be gone: then nothing can be sealed.
-/

namespace EconomyLab

open Foundation Text

section Merged

variable {digest : Digest} {signer : Signer} {s : Books} {appended cut kept : List StoredPosting}

theorem CutAt.loads (h : CutAt digest signer s cut kept) :
    ∃ boundary, loadArchiveBoundary digest signer s.checkpoints = .ok boundary := by
  cases ha : s.checkpoints.archive with
  | none => exact ⟨none, by simp [loadArchiveBoundary, ha]⟩
  | some state =>
    obtain ⟨-, -, hverify⟩ := h.mark state ha
    refine ⟨some (boundaryOf s.checkpoints.archiveHeads), ?_⟩
    simp only [loadArchiveBoundary, ha, hverify, bind, Except.bind]
    rfl

theorem CutAt.boundaryRows (h : CutAt digest signer s cut kept) : BoundaryRows s (cut ++ kept) := by
  refine ⟨h.rows.keys, ?_⟩
  intro account ha
  rw [← OrderedTable.get_isSome, h.rows.get] at ha
  rw [legsOf_append, List.map_append, List.mem_append]
  by_contra hn
  rw [if_neg fun hm => hn (Or.inl hm)] at ha
  cases ha

theorem CutAt.archivedSum (h : CutAt digest signer s cut kept) (account : AccountRef) :
    archivedSum s.checkpoints account = rawSum cut account := by
  unfold EconomyLab.archivedSum
  split
  · rename_i hnone
    rw [h.fresh hnone]
    rfl
  · rw [h.rows.get]
    split
    · rfl
    · rename_i hn
      exact (rawSum_eq_zero hn).symm

/-- The boundary puts back what the log has lost, so a seal covers the whole history. -/
theorem CutAt.merged (h : CutAt digest signer s cut kept) (hs : Faithful digest s (cut ++ kept))
    {boundary : Option ArchiveBoundary}
    (hboundary : loadArchiveBoundary digest signer s.checkpoints = .ok boundary) :
    (mergeArchiveSums s.headSums boundary).Perm (historyLeaves (cut ++ kept)) := by
  have hmerged := sealed_leaves hs h.boundaryRows hboundary
  have haccounts : (mergeArchiveSums s.headSums boundary).map SealHead.account =
      s.headSums.map SealHead.account := by
    rw [hmerged]
    simp [Function.comp_def]
  apply leaves_perm
  · unfold DistinctAccounts
    rw [haccounts]
    exact hs.headSums_distinct
  · exact historyLeaves_distinct _
  · intro leaf
    rw [hmerged, List.mem_map, mem_historyLeaves]
    constructor
    · rintro ⟨live, hl, rfl⟩
      obtain ⟨ha, he⟩ := hs.mem_headSums.mp hl
      have hhead : live.head = chainHead (cut ++ kept) live.account := congrArg SealHead.head he
      have hsum : live.sum = rawSum s.log live.account := congrArg SealHead.sum he
      refine ⟨ha, SealHead.ext rfl hhead ?_⟩
      simp only [historyLeaf, rawSum_append, h.archivedSum, hsum, h.log]
      ring
    · rintro ⟨ha, he⟩
      refine ⟨⟨leaf.account, chainHead (cut ++ kept) leaf.account, rawSum s.log leaf.account⟩,
        hs.mem_headSums.mpr ⟨ha, rfl⟩, SealHead.ext rfl (congrArg SealHead.head he).symm ?_⟩
      have hsum : leaf.sum = rawSum (cut ++ kept) leaf.account := congrArg SealHead.sum he
      simp only [h.archivedSum, h.log, hsum, rawSum_append]
      ring

theorem CutAt.hotLinks (h : CutAt digest signer s cut kept) (hs : Faithful digest s (cut ++ kept))
    (account : AccountRef) :
    Rederives digest account (chainHead cut account) (lineageOf s.log account none) ∧
      lastHash (chainHead cut account) (lineageOf s.log account none) =
        chainHead (cut ++ kept) account := by
  rw [h.log]
  exact hs.chained.tail account

/-- Behind its boundary the whole log proves. -/
theorem CutAt.intact (h : CutAt digest signer s cut kept) (hs : Faithful digest s (cut ++ kept))
    {boundary : Option ArchiveBoundary}
    (hboundary : loadArchiveBoundary digest signer s.checkpoints = .ok boundary) :
    Intact digest boundary s.view := by
  have hanchor : ∀ account, (boundary.bind fun b => b.anchors.get account) =
      if account ∈ (legsOf cut).map Leg.account then some (chainHead cut account) else none := by
    intro account
    rcases loadArchiveBoundary_ok hboundary with ⟨hnone, rfl⟩ | ⟨-, rfl⟩
    · rw [h.fresh hnone]
      rfl
    · simp only [Option.bind_some, CheckpointStore.archiveHeads,
        boundaryOf_anchors h.rows.keys, h.rows.get]
      split <;> rfl
  apply intact_iff.mpr
  intro p hp
  obtain ⟨hd, -⟩ := h.hotLinks hs p.1
  have hchained : Chained digest cut := hs.chained.prefix
  unfold AcceptedLineage
  rw [hanchor]
  by_cases ha : p.1 ∈ (legsOf cut).map Leg.account
  · rw [if_pos ha]
    intro link rest he
    have hlinks : s.view.lineage p.1 none = lineageOf s.log p.1 none := rfl
    rw [hlinks] at he ⊢
    rw [he] at hd ⊢
    have hfirst : link.prevHash = chainHead cut p.1 := hd.1
    exact ⟨hfirst ▸ hd, Or.inl hfirst⟩
  · rw [if_neg ha]
    rw [hchained.head_of_untouched ha] at hd
    exact hd

end Merged

/-- The snapshot names only accounts that were posted to, and the latest checkpoint is one that
was sealed with sum zero. -/
structure SnapshotRows (signer : Signer) (s : Books) (appended : List StoredPosting) : Prop where
  keys : s.checkpoints.heads.keys.Nodup
  touched : ∀ a ∈ s.checkpoints.heads.keys, a ∈ (legsOf appended).map Leg.account
  latest : ∀ checkpoint, s.checkpoints.latest = some checkpoint →
    ∃ leaves root now id, root.sum = 0 ∧ checkpoint = sealedCheckpoint signer leaves root now id

theorem mem_keys_setAll_rowOf {table : HeadRows} {leaves : List SealHead} (hd : DistinctAccounts leaves)
    {account : AccountRef} (h : account ∈ (table.setAll (leaves.map rowOf)).keys) :
    account ∈ table.keys ∨ account ∈ leaves.map SealHead.account := by
  rw [← OrderedTable.get_isSome, get_setAll_rowOf hd, Option.isSome_or, Bool.or_eq_true] at h
  rcases h with h | h
  · obtain ⟨row, hrow⟩ := Option.isSome_iff_exists.mp h
    exact Or.inr (List.mem_map.mpr ⟨_, (lookup_rowOf hd).mp hrow, rfl⟩)
  · exact Or.inl (OrderedTable.get_isSome.mp h)

variable {digest : Digest} {signer : Signer} {s : Books}

theorem SnapshotRows.checkpoint
    {appended : List StoredPosting} (h : SnapshotRows signer s appended) (hs : Faithful digest s appended)
    (hb : BoundaryRows s appended) {now : Int} {id : String} {checkpoint : Checkpoint} {plan : SealPlan}
    {leaves : List SealHead}
    (hsign : signCheckpoint digest signer s.view s.checkpoints now id = .ok (checkpoint, plan, leaves))
    (crashed : Bool) : SnapshotRows signer (s.record digest signer now id crashed) appended := by
  obtain ⟨boundary, root, hboundary, hleaves, hplan, -, -, hzero, hcheckpoint⟩ :=
    signCheckpoint_ok.mp hsign
  have hmerged := hleaves.trans (sealed_leaves hs hb hboundary)
  have haccounts : leaves.map SealHead.account = s.headSums.map SealHead.account := by
    rw [hmerged]
    simp [Function.comp_def]
  have hd : DistinctAccounts leaves := by
    unfold DistinctAccounts
    rw [haccounts]
    exact hs.headSums_distinct
  have htouched : ∀ account ∈ leaves.map SealHead.account, account ∈ (legsOf appended).map
      Leg.account := by
    intro account ha
    rw [haccounts, hs.headSums_accounts] at ha
    exact ha
  rw [Books.record_ok hsign crashed]
  refine ⟨?_, ?_, ?_⟩
  · cases crashed with
    | true => exact h.keys
    | false =>
      cases plan with
      | full => exact OrderedTable.nodup_keys_setAll (by simp) _
      | incremental dirty since => exact OrderedTable.nodup_keys_setAll h.keys _
  · intro account ha
    cases crashed with
    | true => exact h.touched account ha
    | false =>
      cases plan with
      | full =>
        rcases mem_keys_setAll_rowOf hd ha with ha | ha
        · simp at ha
        · exact htouched account ha
      | incremental dirty since =>
        obtain ⟨-, -, -, -, rfl, -⟩ := planSeal_incremental.mp hplan
        rcases mem_keys_setAll_rowOf (dirtyLeaves_distinct hd) ha with ha | ha
        · exact h.touched account ha
        · obtain ⟨leaf, hl, rfl⟩ := List.mem_map.mp ha
          exact htouched _ (List.mem_map_of_mem (mem_dirtyLeaves.mp hl).1)
  · intro c hc
    simp only [CheckpointStore.latest, List.getLast?_append, List.getLast?_singleton, Option.some_or,
      Option.some.injEq] at hc
    exact ⟨leaves, root, now, id, hzero, hc ▸ hcheckpoint⟩

/-- Archiving writes neither checkpoints nor snapshot rows. -/
theorem archiveSealedPrefix_seals (digest : Digest) (signer : Signer) (input : ArchiveSweepInput)
    (stop : Option (Nat × ArchiveStop)) (s : Books) :
    (archiveSealedPrefix digest signer input stop s).2.checkpoints.heads = s.checkpoints.heads ∧
      (archiveSealedPrefix digest signer input stop s).2.checkpoints.rows = s.checkpoints.rows := by
  have rule : ArchiveRule digest signer input stop
      (fun _ _ _ s' => s'.checkpoints.heads = s.checkpoints.heads ∧ s'.checkpoints.rows =
        s.checkpoints.rows)
      (fun _ s' => s'.checkpoints.heads = s.checkpoints.heads ∧ s'.checkpoints.rows =
        s.checkpoints.rows) := by
    constructor
    · exact fun h => h
    · exact fun _ h => h
    · exact fun _ h _ _ => h
    · intro _ _ _ _ _ _ _ _ _ _ h _ hsign _
      obtain ⟨root, -, -, rfl⟩ := signBoundary_ok hsign
      exact h
    · intro _ _ _ _ _ _ _ _ _ _ h _ hsign
      obtain ⟨root, -, -, rfl⟩ := signBoundary_ok hsign
      exact h
    · exact fun h => h
  exact rule.run (fun _ _ => ⟨rfl, rfl⟩) (fun _ => ⟨rfl, rfl⟩) (fun _ _ => ⟨rfl, rfl⟩)

theorem ChainStep.step_snapshotRows {k : Chronicle}
    (hk : Faithful digest k.books k.appended) (hb : BoundaryRows k.books k.appended)
    (h : SnapshotRows signer k.books k.appended) (c : ChainStep) :
    SnapshotRows signer (c.step digest signer k).books (c.step digest signer k).appended := by
  cases c with
  | post now posting =>
    simp only [ChainStep.step]
    rcases Books.post_cases digest now posting k.books with ⟨e, ledger, hpost, -⟩ |
      ⟨row, next, ledger, -, -, -, -, -, -, -, -, hpost⟩
    · rw [hpost]
      exact ⟨h.keys, h.touched, h.latest⟩
    · rw [hpost]
      refine ⟨h.keys, ?_, h.latest⟩
      intro account ha
      rw [legsOf_append, List.map_append, List.mem_append]
      exact Or.inl (h.touched account ha)
  | checkpoint now id crashed =>
    simp only [ChainStep.step]
    cases hsign : signCheckpoint digest signer k.books.view k.books.checkpoints now id with
    | error e => exact h
    | ok signed => exact h.checkpoint hk hb hsign crashed
  | archive input stop =>
    obtain ⟨hheads, hrows⟩ := archiveSealedPrefix_seals digest signer input stop k.books
    refine ⟨?_, ?_, ?_⟩
    · simp only [ChainStep.step, hheads]
      exact h.keys
    · simp only [ChainStep.step, hheads]
      exact h.touched
    · simp only [ChainStep.step, CheckpointStore.latest, hrows]
      exact h.latest

theorem runBooks_snapshotRows (digest : Digest) (signer : Signer) (steps : List ChainStep) :
    SnapshotRows signer (runBooks digest signer steps).books (runBooks digest signer steps).appended := by
  have key : ∀ k : Chronicle, Faithful digest k.books k.appended → BoundaryRows k.books k.appended →
      SnapshotRows signer k.books k.appended →
      SnapshotRows signer (steps.foldl (ChainStep.step digest signer) k).books
        (steps.foldl (ChainStep.step digest signer) k).appended := by
    induction steps with
    | nil => exact fun _ _ _ h => h
    | cons c steps ih =>
      exact fun k hk hb h => ih _ (c.step_faithful hk) (c.step_boundaryRows hk hb)
        (c.step_snapshotRows hk hb h)
  apply key _ (Faithful.start digest)
  · exact ⟨List.nodup_nil, fun a ha => by cases ha⟩
  · refine ⟨List.nodup_nil, ?_, ?_⟩
    · intro a ha
      cases ha
    · intro checkpoint h
      cases h

def Moved (s : Books) (account : AccountRef) (head : String) : Prop :=
  (s.checkpoints.heads.get account).map HeadSum.head ≠ some head

/-- The log still has the link that was sealed last, or the first link of an account without one. -/
def TailHot (s : Books) (account : AccountRef) : Prop :=
  match (s.checkpoints.heads.get account).map HeadSum.head with
  | some hash => ∃ link ∈ lineageOf s.log account none, link.hash = hash
  | none => ∃ link rest, lineageOf s.log account none = link :: rest ∧ link.prevHash = GENESIS_HEX

/-- The sums stay in range, and where the snapshot is taken for the last seal every account that
moved since still has its tail in the log. -/
structure Sealable (digest : Digest) (signer : Signer) (k : Chronicle) : Prop where
  fits : RootFits (historyLeaves k.appended)
  snapshot : ∀ latest, Snapshotted k.books.checkpoints latest → RootFits k.books.checkpoints.sealHeads
  hot : ∀ latest, Snapshotted k.books.checkpoints latest →
    authenticates digest signer k.books.checkpoints.sealHeads latest = .ok true →
    ∀ account head, (account, head) ∈ k.books.heads → Moved k.books account head → TailHot k.books account

/-- A lineage that ends at a moved head proves from the sealed head exactly while it is hot. -/
theorem tailProved_iff {since : OrderedTable AccountRef String} {leaf : SealHead} {start : String}
    (hsince : since.get leaf.account = (s.checkpoints.heads.get leaf.account).map HeadSum.head)
    (hd : Rederives digest leaf.account start (lineageOf s.log leaf.account none))
    (hlast : lastHash start (lineageOf s.log leaf.account none) = leaf.head)
    (hmoved : Moved s leaf.account leaf.head) :
    TailProved digest s.view since leaf ↔ TailHot s leaf.account := by
  have hends : ∀ {prev : String} {links : List StoredLink}, lastHash prev links = leaf.head →
      prev ≠ leaf.head → ∃ link ∈ links, link.hash = leaf.head := by
    intro prev links he hne
    rcases List.eq_nil_or_concat links with rfl | ⟨init, last, rfl⟩
    · exact absurd he hne
    · rw [List.concat_eq_append, lastHash_append] at he
      exact ⟨last, by simp, he⟩
  have htail : ∀ hash, s.view.lineage leaf.account (some hash) =
      linksSince hash (lineageOf s.log leaf.account none) := fun hash => lineageOf_some _ _ _
  unfold Moved at hmoved
  unfold TailHot
  cases hrow : (s.checkpoints.heads.get leaf.account).map HeadSum.head with
  | some hash =>
    rw [hrow] at hsince hmoved
    constructor
    · intro h
      obtain ⟨link, hl, -⟩ := h.reached
      rw [hsince, htail] at hl
      exact linksSince_found (List.ne_nil_of_mem hl)
    · intro hhot
      obtain ⟨hre, hreach⟩ := hd.since hhot
      refine ⟨?_, ?_⟩
      · rw [hsince, htail]
        exact hre
      · rw [hsince, htail]
        exact hends (hreach.trans hlast) fun he => hmoved (congrArg some he)
  | none =>
    rw [hrow] at hsince
    have hall : s.view.lineage leaf.account none = lineageOf s.log leaf.account none := rfl
    constructor
    · intro h
      have hre := h.rederives
      obtain ⟨link, hl, -⟩ := h.reached
      rw [hsince, hall] at hre hl
      cases hlinks : lineageOf s.log leaf.account none with
      | nil =>
        rw [hlinks] at hl
        cases hl
      | cons first rest =>
        rw [hlinks] at hre
        exact ⟨first, rest, rfl, hre.1⟩
    · rintro ⟨first, rest, hlinks, hfirst⟩
      rw [hlinks] at hd hlast
      refine ⟨?_, ?_⟩
      · rw [hsince, hall, hlinks]
        exact ⟨hfirst, hd.2⟩
      · rw [hsince, hall, hlinks]
        rw [lastHash_cons] at hlast
        by_cases hhead : first.hash = leaf.head
        · exact ⟨first, List.mem_cons_self, hhead⟩
        · obtain ⟨link, hl, he⟩ := hends hlast hhead
          exact ⟨link, List.mem_cons_of_mem _ hl, he⟩

theorem authenticates_total {digest : Digest} {signer : Signer} {snapshot leaves : List SealHead}
    {root : RootNode} {now : Int} {id : String} (hfits : RootFits snapshot) (hzero : root.sum = 0) :
    ∃ ok, authenticates digest signer snapshot (sealedCheckpoint signer leaves root now id) = .ok ok := by
  obtain ⟨found, hfound⟩ := (@exists_merkleSumRoot digest snapshot).mpr hfits
  unfold authenticates
  rw [hfound]
  by_cases hsame : toHex found.hash ≠ (sealedCheckpoint signer leaves root now id).root ∨
      some found.sum ≠ (sealedCheckpoint signer leaves root now id).sum
  · exact ⟨false, by simp only [bind, Except.bind, if_pos hsame]; rfl⟩
  · have hsum : found.sum = 0 := by
      push Not at hsame
      exact (Option.some.inj hsame.2).trans hzero
    refine ⟨signer.verify (found.hash ++ int64Bytes found.sum)
      (signer.sign (root.hash ++ int64Bytes root.sum)), ?_⟩
    simp only [bind, Except.bind, sumRootPayload_zero hsum, sealedCheckpoint, fromHex_toHex]
    exact if_neg hsame

/-- A plan is found and proved exactly when the snapshot has a root and the moved tails are hot. -/
theorem planSeal_proved_iff {cut kept : List StoredPosting}
    (h : CutAt digest signer s cut kept) (hs : Faithful digest s (cut ++ kept))
    (hsnap : SnapshotRows signer s (cut ++ kept)) {boundary : Option ArchiveBoundary}
    (hboundary : loadArchiveBoundary digest signer s.checkpoints = .ok boundary) :
    (∃ plan, planSeal digest signer s.checkpoints (mergeArchiveSums s.headSums boundary) = .ok plan ∧
      plan.Proved digest boundary s.view) ↔
    (∀ latest, Snapshotted s.checkpoints latest → RootFits s.checkpoints.sealHeads) ∧
    (∀ latest, Snapshotted s.checkpoints latest →
      authenticates digest signer s.checkpoints.sealHeads latest = .ok true →
      ∀ account head, (account, head) ∈ s.heads → Moved s account head → TailHot s account) := by
  have hleaf : ∀ leaf, leaf ∈ mergeArchiveSums s.headSums boundary ↔
      leaf.account ∈ (legsOf (cut ++ kept)).map Leg.account ∧ leaf =
        historyLeaf (cut ++ kept) leaf.account :=
    fun leaf => (h.merged hs hboundary).mem_iff.trans mem_historyLeaves
  have hget := fun account => sinceHeads_get hsnap.keys account
  have htail : ∀ leaf ∈ mergeArchiveSums s.headSums boundary, Moved s leaf.account leaf.head →
      (TailProved digest s.view (sinceHeads s.checkpoints.sealHeads) leaf ↔ TailHot s leaf.account) := by
    intro leaf hl hmoved
    obtain ⟨hd, hlast⟩ := h.hotLinks hs leaf.account
    have hhead : leaf.head = chainHead (cut ++ kept) leaf.account :=
      congrArg SealHead.head ((hleaf leaf).mp hl).2
    exact tailProved_iff (hget leaf.account) hd (hlast.trans hhead.symm) hmoved
  have hheads : ∀ leaf ∈ mergeArchiveSums s.headSums boundary, (leaf.account, leaf.head) ∈ s.heads := by
    intro leaf hl
    obtain ⟨ha, he⟩ := (hleaf leaf).mp hl
    exact hs.mem_heads.mpr ⟨ha, congrArg SealHead.head he⟩
  have hmovedLeaf : ∀ account head, (account, head) ∈ s.heads →
      historyLeaf (cut ++ kept) account ∈ mergeArchiveSums s.headSums boundary ∧
        head = (historyLeaf (cut ++ kept) account).head := by
    intro account head hm
    obtain ⟨ha, hhead⟩ := hs.mem_heads.mp hm
    exact ⟨(hleaf _).mpr ⟨ha, rfl⟩, hhead⟩
  constructor
  · rintro ⟨plan, hplan, hproved⟩
    constructor
    · intro latest hlatest
      rw [planSeal_snapshotted hlatest] at hplan
      obtain ⟨ok, hok, -⟩ := except_bind_ok.mp hplan
      obtain ⟨root, hroot, -⟩ := except_bind_ok.mp hok
      exact exists_merkleSumRoot.mp ⟨root, hroot⟩
    · intro latest hlatest hauth account head hm hmoved
      obtain ⟨hl, hhead⟩ := hmovedLeaf account head hm
      cases plan with
      | full =>
        have hfalse := planSeal_full.mp hplan latest hlatest
        rw [hauth] at hfalse
        cases hfalse
      | incremental dirty since =>
        obtain ⟨-, -, -, rfl, rfl, -⟩ := planSeal_incremental.mp hplan
        rw [hhead] at hmoved
        have hdirty := mem_dirtyLeaves.mpr ⟨hl, (hget account).trans_ne hmoved⟩
        exact (htail _ hl hmoved).mp (hproved _ hdirty)
  · rintro ⟨hfits, hhot⟩
    by_cases hex : ∃ latest, Snapshotted s.checkpoints latest
    · obtain ⟨latest, hlatest⟩ := hex
      obtain ⟨leaves, root, now, id, hzero, hsealed⟩ := hsnap.latest latest hlatest.last
      obtain ⟨ok, hok⟩ := @authenticates_total digest signer _ leaves root now id
        (hfits latest hlatest) hzero
      rw [← hsealed] at hok
      cases ok with
      | false =>
        refine ⟨.full, planSeal_full.mpr ?_, h.intact hs hboundary⟩
        intro latest' hlatest'
        obtain rfl := Option.some.inj (hlatest.last.symm.trans hlatest'.last)
        exact hok
      | true =>
        refine ⟨_, planSeal_incremental.mpr ⟨latest, hlatest, hok, rfl, rfl, ?_⟩, ?_⟩
        · intro account ha
          rw [← OrderedTable.get_isSome, hget, Option.isSome_map, OrderedTable.get_isSome] at ha
          exact List.mem_map.mpr ⟨historyLeaf (cut ++ kept) account,
            (hleaf _).mpr ⟨hsnap.touched account ha, rfl⟩, rfl⟩
        · intro leaf hm
          obtain ⟨hl, hdirty⟩ := mem_dirtyLeaves.mp hm
          have hmoved : Moved s leaf.account leaf.head := by
            unfold Moved
            rw [← hget]
            exact hdirty
          exact (htail leaf hl hmoved).mpr
            (hhot latest hlatest hok leaf.account leaf.head (hheads leaf hl) hmoved)
    · push Not at hex
      exact ⟨.full, planSeal_unsnapshotted hex, h.intact hs hboundary⟩

/-- In a run without crashes `recordCheckpoint` succeeds exactly while the books are sealable. -/
theorem sealing_survives_iff (digest : Digest) (signer : Signer)
    (hsigner : ∀ bytes, signer.verify bytes (signer.sign bytes) = true) (steps : List ChainStep)
    (hwhole : ∀ c ∈ steps, c.crashes = false)
    (hids : ((runBooks digest signer steps).appended.map StoredPosting.txnId).Nodup) (now : Int)
    (id : String) :
    let k := runBooks digest signer steps
    (∃ recorded, recordCheckpoint digest signer k.books.view k.books.checkpoints now id false =
      .ok recorded) ↔
      Sealable digest signer k := by
  intro k
  have htorn : ∀ c ∈ steps, c.tearsBoundary = false := by
    intro c hc
    have hcrash := hwhole c hc
    cases c with
    | post now posting => rfl
    | checkpoint now id crashed => rfl
    | archive input stop =>
      cases stop with
      | none => rfl
      | some at_ => cases hcrash
  obtain ⟨cut, kept, happended, hcut⟩ : ArchivedTo digest signer k :=
    runBooks_archivedTo hsigner hids htorn
  have hs : Faithful digest k.books (cut ++ kept) := happended ▸ runBooks_faithful digest signer steps
  have hsnap : SnapshotRows signer k.books (cut ++ kept) :=
    happended ▸ runBooks_snapshotRows digest signer steps
  obtain ⟨boundary, hboundary⟩ := hcut.loads
  have hplan := planSeal_proved_iff hcut hs hsnap hboundary
  have hperm := hcut.merged hs hboundary
  have hfits : RootFits (mergeArchiveSums k.books.headSums boundary) ↔
      RootFits (historyLeaves k.appended) := by
    rw [happended]
    apply RootFits.perm ?_ hperm
    have haccounts := (hperm.map SealHead.account).nodup_iff
    exact haccounts.mpr (historyLeaves_distinct _)
  have hsigns : (∃ recorded, recordCheckpoint digest signer k.books.view k.books.checkpoints now id false =
      .ok recorded) ↔ ∃ checkpoint plan leaves,
        signCheckpoint digest signer k.books.view k.books.checkpoints now id =
          .ok (checkpoint, plan, leaves) := by
    unfold recordCheckpoint
    constructor
    · rintro ⟨recorded, h⟩
      obtain ⟨⟨checkpoint, plan, leaves⟩, hsign, -⟩ := except_bind_ok.mp h
      exact ⟨checkpoint, plan, leaves, hsign⟩
    · rintro ⟨checkpoint, plan, leaves, hsign⟩
      exact ⟨_, except_bind_ok.mpr ⟨_, hsign, rfl⟩⟩
  rw [hsigns]
  constructor
  · rintro ⟨checkpoint, plan, leaves, hsign⟩
    obtain ⟨found, root, hfound, rfl, hplanned, hproved, hroot, -, -⟩ := signCheckpoint_ok.mp hsign
    obtain rfl := Except.ok.inj (hboundary.symm.trans hfound)
    obtain ⟨hsnapshot, hhot⟩ := hplan.mp ⟨plan, hplanned, hproved⟩
    exact ⟨hfits.mp (exists_merkleSumRoot.mp ⟨root, hroot⟩), hsnapshot, hhot⟩
  · intro h
    obtain ⟨plan, hplanned, hproved⟩ := hplan.mpr ⟨h.snapshot, h.hot⟩
    obtain ⟨root, hroot⟩ := exists_merkleSumRoot.mpr (hfits.mpr h.fits)
    have hzero : root.sum = 0 := by
      rw [merkleSumRoot_sum hroot, (hperm.map SealHead.sum).sum_eq]
      apply historyLeaves_sum
      exact fun row hr => hs.honest.indexes.zeroSum row hr
    exact ⟨_, plan, _, signCheckpoint_ok.mpr
      ⟨boundary, root, hboundary, rfl, hplanned, hproved, hroot, hzero, rfl⟩⟩

theorem sampleArchived_ids :
    ((runBooks weighDigest echoSigner sampleArchived).appended.map StoredPosting.txnId).Nodup := by
  have hposts := runBooks_history weighDigest echoSigner sampleArchived fun _ hc => hc
  rw [hposts.appended]
  decide +kernel

theorem sealing_survives_archived :
    Sealable weighDigest echoSigner (runBooks weighDigest echoSigner sampleArchived) := by
  have hrun : (recordCheckpoint weighDigest echoSigner
      (runBooks weighDigest echoSigner sampleArchived).books.view
      (runBooks weighDigest echoSigner sampleArchived).books.checkpoints 3 "chk_2"
        false).toOption.isSome := by
    decide +kernel
  obtain ⟨recorded, hsome⟩ := Option.isSome_iff_exists.mp hrun
  exact (sealing_survives_iff weighDigest echoSigner (by simp [echoSigner]) sampleArchived
    (by simp [sampleArchived, ChainStep.crashes]) sampleArchived_ids 3 "chk_2").mp
      ⟨recorded, except_toOption.mp hsome⟩

def samplePostedOn : List ChainStep := sampleArchived ++ [.post 3 (sampleTopUp "txn_2" "usr_a")]

/-- A posting to an account whose sealed link was archived can never be sealed. -/
theorem posted_on_archived_unsealable : recordCheckpoint weighDigest echoSigner
    (runBooks weighDigest echoSigner samplePostedOn).books.view
    (runBooks weighDigest echoSigner samplePostedOn).books.checkpoints 4 "chk_2" false =
      .error (fault .chainBroken
        "The hash chain failed to re-derive; refusing to sign a checkpoint over a tampered ledger.") := by
  have hrun : (match recordCheckpoint weighDigest echoSigner
      (runBooks weighDigest echoSigner samplePostedOn).books.view
      (runBooks weighDigest echoSigner samplePostedOn).books.checkpoints 4 "chk_2" false with
    | .error e => decide (e = fault .chainBroken
      "The hash chain failed to re-derive; refusing to sign a checkpoint over a tampered ledger.")
    | .ok _ => false) = true := by
    decide +kernel
  split at hrun
  · rename_i e he
    rw [he, of_decide_eq_true hrun]
  · cases hrun

end EconomyLab

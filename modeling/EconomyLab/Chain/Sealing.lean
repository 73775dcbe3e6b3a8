import EconomyLab.Chain.Leaves
import EconomyLab.Chain.Offline

/-!
# Incremental seals are full seals

On runs of postings and seals the snapshot rows are leaves of earlier histories, so an
incremental seal, which writes only the leaves that moved, leaves the table a full seal
would have written.
-/

namespace EconomyLab

open Foundation

def chainTexts (rows : List StoredPosting) : Set (List UInt8) :=
  {text | ∃ account, text ∈ linkTexts account (lineageOf rows account none)}

/-- What the chain relies on of a digest over these rows, as SHA-256 has it. -/
structure ChainDigest (digest : Digest) (rows : List StoredPosting) : Prop where
  width : FixedWidth digest
  genesis : AvoidsGenesis digest
  free : CollisionFree digest (chainTexts rows)

def AllFramed (rows : List StoredPosting) : Prop := ∀ row ∈ rows, row.posting.Framed

theorem chainTexts_prefix {rows more : List StoredPosting} :
    chainTexts rows ⊆ chainTexts (rows ++ more) := by
  rintro text ⟨account, ht⟩
  refine ⟨account, linkTexts_mono ?_ ht⟩
  intro link hl
  rw [lineageOf_append]
  exact List.mem_append_left _ hl

variable {digest : Digest} {rows : List StoredPosting} {steps : List ChainStep}
  {store : CheckpointStore} {account : AccountRef} {signer : Signer} {leaves : List SealHead}
  {plan : SealPlan}

theorem ChainDigest.prefix {rows more : List StoredPosting}
    (h : ChainDigest digest (rows ++ more)) : ChainDigest digest rows :=
  ⟨h.width, h.genesis, h.free.mono chainTexts_prefix⟩

theorem mem_lineageOf {link : StoredLink}
    (h : link ∈ lineageOf rows account none) : ∃ row ∈ rows, row.linkOf account = some link := by
  rw [lineageOf_none, List.mem_filterMap] at h
  exact h

theorem AllFramed.links (h : AllFramed rows)
    {link : StoredLink} (hl : link ∈ lineageOf rows account none) : link.posting.Framed := by
  obtain ⟨row, hm, hrow⟩ := mem_lineageOf hl
  obtain ⟨-, -, rfl⟩ := StoredPosting.linkOf_eq_some.mp hrow
  exact h row hm

theorem ownSum_same {links links' : List StoredLink}
    (h : List.Forall₂ (SameEntry account) links links') :
    ownSum account links = ownSum account links' := by
  induction h with
  | nil => rfl
  | cons hab _ ih =>
    have hsum := (hab.amounts.map Amount.minor).sum_eq
    simp only [ownSum, List.map_cons, List.sum_cons] at ih ⊢
    rw [hsum, ih]

theorem rawSum_of_head {rows more : List StoredPosting}
    (hd : ChainDigest digest (rows ++ more)) (hf : AllFramed (rows ++ more))
    (hc : Chained digest (rows ++ more))
    (heq : chainHead rows account = chainHead (rows ++ more) account) :
    rawSum rows account = rawSum (rows ++ more) account := by
  obtain ⟨hr, hlast⟩ := hc.prefix.lineage account
  obtain ⟨hr', hlast'⟩ := hc.lineage account
  have hframed : ∀ link ∈ lineageOf rows account none, link.posting.Framed :=
    fun link hl => AllFramed.links (fun row hm => hf row (List.mem_append_left _ hm)) hl
  have htexts : linkTexts account (lineageOf rows account none) ⊆ chainTexts (rows ++ more) :=
    fun text ht => chainTexts_prefix ⟨account, ht⟩
  have hsame := rederives_same hd.width hd.genesis hd.free hr hr' hframed (fun link hl => hf.links hl)
    htexts (fun text ht => ⟨account, ht⟩) (by rw [hlast, hlast', heq])
  have hbefore : EachLinked digest rows := hc.eachLinked (List.sublist_append_left _ _)
  have hall : EachLinked digest (rows ++ more) := hc.eachLinked (List.Sublist.refl _)
  rw [← hbefore.ownSum, ← hall.ownSum, ownSum_same hsame]

/-! ## What a seal writes -/

theorem lookup_rowOf (h : DistinctAccounts leaves)
    {row : HeadSum} : OrderedTable.lookup account (leaves.map rowOf) = some row ↔
      ⟨account, row.head, row.sum⟩ ∈ leaves := by
  have hkeys : (OrderedTable.mk (leaves.map rowOf)).keys.Nodup := by
    have hmap : (OrderedTable.mk (leaves.map rowOf)).keys = leaves.map SealHead.account := by
      simp [OrderedTable.keys, rowOf, Function.comp_def]
    rw [hmap]
    exact h
  have hget := OrderedTable.get_eq_some hkeys (k := account) (v := row)
  unfold OrderedTable.get at hget
  rw [hget, List.mem_map]
  constructor
  · rintro ⟨leaf, hm, he⟩
    cases he
    exact hm
  · exact fun hm => ⟨_, hm, rfl⟩

theorem get_setAll_rowOf {table : HeadRows} (h : DistinctAccounts leaves)
    (account : AccountRef) : (table.setAll (leaves.map rowOf)).get account =
      (OrderedTable.lookup account (leaves.map rowOf)).or (table.get account) := by
  apply OrderedTable.get_setAll
  have hmap : (leaves.map rowOf).map Prod.fst = leaves.map SealHead.account := by
    simp [rowOf, Function.comp_def]
  rw [hmap]
  exact h

theorem sinceHeads_get (h : store.heads.keys.Nodup) (account : AccountRef) :
    (sinceHeads store.sealHeads).get account = (store.heads.get account).map HeadSum.head :=
  get_leavesOf h HeadSum.head account

theorem mem_dirtyLeaves {since : OrderedTable AccountRef String} {leaf : SealHead} :
    leaf ∈ dirtyLeaves since leaves ↔ leaf ∈ leaves ∧ since.get leaf.account ≠ some leaf.head := by
  simp [dirtyLeaves]

theorem dirtyLeaves_distinct {since : OrderedTable AccountRef String}
    (h : DistinctAccounts leaves) : DistinctAccounts (dirtyLeaves since leaves) :=
  (List.filter_sublist.map SealHead.account).nodup h

def CheckpointStore.headsAfter (store : CheckpointStore) (leaves : List SealHead) : SealPlan → HeadRows
  | .incremental dirty _ => store.heads.setAll (dirty.map rowOf)
  | .full => OrderedTable.empty.setAll (leaves.map rowOf)

theorem recordCheckpoint_signed {view : ChainView} {now : Int} {id : String} {checkpoint : Checkpoint}
    (h : signCheckpoint digest signer view store now id = .ok (checkpoint, plan, leaves))
    (crashed : Bool) :
    recordCheckpoint digest signer view store now id crashed = .ok (checkpoint, { store with
      rows := store.rows ++ [checkpoint]
      heads := if crashed then store.heads else store.headsAfter leaves plan }) := by
  unfold recordCheckpoint
  apply except_bind_ok.mpr
  refine ⟨(checkpoint, plan, leaves), h, ?_⟩
  cases crashed with
  | true => rfl
  | false => cases plan <;> rfl

theorem Books.record_ok {now : Int} {id : String} {s : Books} {checkpoint : Checkpoint}
    (h : signCheckpoint digest signer s.view s.checkpoints now id = .ok (checkpoint, plan, leaves))
    (crashed : Bool) : s.record digest signer now id crashed = { s with checkpoints := { s.checkpoints with
      rows := s.checkpoints.rows ++ [checkpoint]
      heads := if crashed then s.checkpoints.heads else s.checkpoints.headsAfter leaves plan } } := by
  unfold Books.record
  rw [recordCheckpoint_signed h]

def EarlierLeaves (heads : HeadRows) (appended : List StoredPosting) : Prop :=
  ∀ account row, heads.get account = some row → ∃ before after, appended = before ++ after ∧
    account ∈ (legsOf before).map Leg.account ∧ row = ⟨chainHead before account, rawSum before account⟩

theorem EarlierLeaves.append {heads : HeadRows} {appended : List StoredPosting}
    (h : EarlierLeaves heads appended) (more : List StoredPosting) :
    EarlierLeaves heads (appended ++ more) := by
  intro account row hget
  obtain ⟨before, after, rfl, ha, hrow⟩ := h account row hget
  exact ⟨before, after ++ more, by simp, ha, hrow⟩

theorem EarlierLeaves.headsAfter {appended : List StoredPosting}
    (h : EarlierLeaves store.heads appended) (hd : DistinctAccounts leaves)
    (hl : ∀ leaf ∈ leaves, leaf ∈ historyLeaves appended)
    (hplan : ∀ dirty since, plan = .incremental dirty since → dirty = dirtyLeaves since leaves) :
    EarlierLeaves (store.headsAfter leaves plan) appended := by
  have hleaf : ∀ leaf ∈ leaves, ∃ before after, appended = before ++ after ∧
      leaf.account ∈ (legsOf before).map Leg.account ∧
      (⟨leaf.head, leaf.sum⟩ : HeadSum) = ⟨chainHead before leaf.account, rawSum before leaf.account⟩ := by
    intro leaf hm
    obtain ⟨ha, he⟩ := mem_historyLeaves.mp (hl leaf hm)
    have hhead : leaf.head = chainHead appended leaf.account := congrArg SealHead.head he
    have hsum : leaf.sum = rawSum appended leaf.account := congrArg SealHead.sum he
    exact ⟨appended, [], by simp, ha, by rw [hhead, hsum]⟩
  intro account row hget
  cases plan with
  | full =>
    simp only [CheckpointStore.headsAfter, get_setAll_rowOf hd, OrderedTable.get_empty,
      Option.or_none] at hget
    exact hleaf _ ((lookup_rowOf hd).mp hget)
  | incremental dirty since =>
    obtain rfl := hplan dirty since rfl
    have hdd : DistinctAccounts (dirtyLeaves since leaves) := dirtyLeaves_distinct hd
    simp only [CheckpointStore.headsAfter, get_setAll_rowOf hdd] at hget
    rcases Option.or_eq_some_iff.mp hget with hget | ⟨-, hget⟩
    · have hm := (lookup_rowOf hdd).mp hget
      exact hleaf _ (mem_dirtyLeaves.mp hm).1
    · exact h account row hget

/-- Upserting the leaves that moved gives the table a full rewrite gives. -/
theorem headsAfter_perm {appended : List StoredPosting}
    (hkeys : store.heads.keys.Nodup) (h : EarlierLeaves store.heads appended)
    (hdigest : ChainDigest digest appended) (hframed : AllFramed appended)
    (hchained : Chained digest appended) (hd : DistinctAccounts leaves)
    (hl : ∀ leaf ∈ leaves, leaf ∈ historyLeaves appended)
    (hplan : ∀ dirty since, plan = .incremental dirty since → since = sinceHeads store.sealHeads ∧
      dirty = dirtyLeaves since leaves ∧ ∀ account ∈ since.keys, account ∈ leaves.map SealHead.account) :
    (leavesOf (store.headsAfter leaves plan)).Perm leaves := by
  have hkeys' : (store.headsAfter leaves plan).keys.Nodup := by
    cases plan with
    | full => exact OrderedTable.nodup_keys_setAll (by simp) _
    | incremental dirty since => exact OrderedTable.nodup_keys_setAll hkeys _
  apply leaves_perm (leavesOf_distinct hkeys') hd
  intro leaf
  rw [mem_leavesOf hkeys']
  cases plan with
  | full =>
    simp only [CheckpointStore.headsAfter, get_setAll_rowOf hd, OrderedTable.get_empty, Option.or_none]
    exact lookup_rowOf hd
  | incremental dirty since =>
    obtain ⟨rfl, rfl, hlive⟩ := hplan dirty since rfl
    have hdd : DistinctAccounts (dirtyLeaves (sinceHeads store.sealHeads) leaves) :=
      dirtyLeaves_distinct hd
    -- a row whose head did not move has the sum of the leaf it stands for
    have hkept : ∀ live ∈ leaves, ∀ row, store.heads.get live.account = some row →
        row.head = live.head → row = ⟨live.head, live.sum⟩ := by
      intro live hm row hget hhead
      obtain ⟨before, after, rfl, ha, rfl⟩ := h _ row hget
      obtain ⟨-, he⟩ := mem_historyLeaves.mp (hl live hm)
      have hlhead : live.head = chainHead (before ++ after) live.account := congrArg SealHead.head he
      have hlsum : live.sum = rawSum (before ++ after) live.account := congrArg SealHead.sum he
      have hsum := rawSum_of_head hdigest hframed hchained (hhead.trans hlhead)
      rw [hlsum, ← hsum, ← hhead]
    simp only [CheckpointStore.headsAfter, get_setAll_rowOf hdd]
    constructor
    · intro hget
      rcases Option.or_eq_some_iff.mp hget with hget | ⟨hclean, hget⟩
      · have hm := (lookup_rowOf hdd).mp hget
        exact (mem_dirtyLeaves.mp hm).1
      · have hsince := sinceHeads_get hkeys leaf.account
        rw [hget, Option.map_some] at hsince
        have hkey : leaf.account ∈ (sinceHeads store.sealHeads).keys := by
          rw [← OrderedTable.get_isSome, hsince]
          rfl
        obtain ⟨live, hm, haccount⟩ := List.mem_map.mp (hlive _ hkey)
        have hstill : (sinceHeads store.sealHeads).get live.account = some live.head := by
          by_contra hne
          have hdirty : OrderedTable.lookup live.account
              ((dirtyLeaves (sinceHeads store.sealHeads) leaves).map rowOf) = some ⟨live.head, live.sum⟩ :=
            (lookup_rowOf hdd).mpr (mem_dirtyLeaves.mpr ⟨hm, hne⟩)
          rw [haccount, hclean] at hdirty
          cases hdirty
        rw [haccount, hsince, Option.some.injEq] at hstill
        have hrow := hkept live hm ⟨leaf.head, leaf.sum⟩ (by rw [haccount, hget]) hstill
        obtain ⟨hhead, hsum⟩ := HeadSum.mk.inj hrow
        have hleaf : leaf = live := SealHead.ext haccount.symm hhead hsum
        exact hleaf ▸ hm
    · intro hm
      by_cases hstill : (sinceHeads store.sealHeads).get leaf.account = some leaf.head
      · have hclean : OrderedTable.lookup leaf.account
            ((dirtyLeaves (sinceHeads store.sealHeads) leaves).map rowOf) = none := by
          rw [Option.eq_none_iff_forall_not_mem]
          intro row hrow
          have hdirty := mem_dirtyLeaves.mp ((lookup_rowOf hdd).mp hrow)
          have hsame := hd.eq_of_account hdirty.1 hm rfl
          exact hdirty.2 (by rw [← hsame] at hstill; exact hstill)
        rw [sinceHeads_get hkeys, Option.map_eq_some_iff] at hstill
        obtain ⟨row, hget, hhead⟩ := hstill
        rw [hclean, hget, hkept leaf hm row hget hhead]
        rfl
      · have hdirty : OrderedTable.lookup leaf.account
            ((dirtyLeaves (sinceHeads store.sealHeads) leaves).map rowOf) = some ⟨leaf.head, leaf.sum⟩ :=
          (lookup_rowOf hdd).mpr (mem_dirtyLeaves.mpr ⟨hm, hstill⟩)
        rw [hdirty]
        rfl

section Unpruned

variable {digest : Digest} {s : Books} {appended : List StoredPosting}

theorem Faithful.intact (h : Faithful digest s appended) (hlog : s.log = appended) :
    Intact digest none s.view := by
  apply intact_iff.mpr
  intro p hp
  have hview : s.view.lineage p.1 none = lineageOf appended p.1 none := by
    rw [← hlog]
    rfl
  rw [hview]
  exact (h.chained.lineage p.1).1

/-- The store as a seal finds it before the first snapshot: it has to take the full path. -/
def CheckpointStore.withoutSnapshot (store : CheckpointStore) : CheckpointStore :=
  { store with heads := OrderedTable.empty }

theorem planSeal_withoutSnapshot (digest : Digest) (signer : Signer) (store : CheckpointStore)
    (leaves : List SealHead) : planSeal digest signer store.withoutSnapshot leaves = .ok .full :=
  planSeal_unsnapshotted fun _ hs => hs.rows rfl

theorem Faithful.full_signs (h : Faithful digest s appended) (hlog : s.log = appended)
    (harchive : s.checkpoints.archive = none) {now : Int} {id : String} {checkpoint : Checkpoint}
    (hsign : signCheckpoint digest signer s.view s.checkpoints now id = .ok (checkpoint, plan, leaves)) :
    signCheckpoint digest signer s.view s.checkpoints.withoutSnapshot now id =
      .ok (checkpoint, .full, leaves) := by
  obtain ⟨boundary, root, hboundary, hleaves, -, -, hroot, hzero, hcheckpoint⟩ :=
    signCheckpoint_ok.mp hsign
  have hnone : boundary = none := by
    simp only [loadArchiveBoundary, harchive, Except.ok.injEq] at hboundary
    exact hboundary.symm
  subst hnone
  refine signCheckpoint_ok.mpr ⟨none, root, ?_, hleaves, planSeal_withoutSnapshot _ _ _ _, ?_,
    hroot, hzero,
    hcheckpoint⟩
  · simp [loadArchiveBoundary, CheckpointStore.withoutSnapshot, harchive]
  · exact h.intact hlog

end Unpruned

/-! ## The snapshot over runs -/

def ChainStep.crashes : ChainStep → Bool
  | .post _ _ => false
  | .checkpoint _ _ crashed => crashed
  | .archive _ stop => stop.isSome

theorem runBooks_uninterrupted (digest : Digest) (signer : Signer)
    (h : ∀ c ∈ steps, c.crashes = false) : (runBooks digest signer steps).interrupted = false := by
  have key : ∀ k : Chronicle, k.interrupted = false →
      (steps.foldl (ChainStep.step digest signer) k).interrupted = false := by
    induction steps with
    | nil => exact fun k hk => hk
    | cons c steps ih =>
      intro k hk
      apply ih (fun c' hc => h c' (List.mem_cons_of_mem _ hc))
      have hc := h c List.mem_cons_self
      cases c with
      | post now posting =>
        simp only [ChainStep.step]
        split <;> exact hk
      | checkpoint now id crashed =>
        simp only [ChainStep.step]
        split
        · exact hk
        · exact hc
      | archive input stop => exact hk
  exact key _ rfl

def ChainStep.archives : ChainStep → Bool
  | .archive _ _ => true
  | _ => false

structure SignedOver (digest : Digest) (leaves : List SealHead) (checkpoint : Checkpoint) : Prop where
  root : ∃ root, merkleSumRoot digest leaves = .ok root ∧ checkpoint.root = toHex root.hash ∧
    checkpoint.sum = some root.sum
  count : checkpoint.count = leaves.length

/-- What seals leave behind on a ledger that nothing is archived from. -/
structure Sealing (digest : Digest) (k : Chronicle) : Prop where
  log : k.books.log = k.appended
  archive : k.books.checkpoints.archive = none
  keys : k.books.checkpoints.heads.keys.Nodup
  earlier : EarlierLeaves k.books.checkpoints.heads k.appended
  table : k.interrupted = false → k.books.checkpoints.sealHeads.Perm k.signed
  latest : ∀ checkpoint, k.books.checkpoints.latest = some checkpoint →
    SignedOver digest k.signed checkpoint

theorem Sealing.start (digest : Digest) : Sealing digest Chronicle.start where
  log := rfl
  archive := rfl
  keys := List.nodup_nil
  earlier := by
    intro account row h
    cases h
  table := fun _ => List.Perm.refl _
  latest := by
    intro checkpoint h
    cases h

theorem ChainStep.step_appended (digest : Digest) (signer : Signer) (k : Chronicle) (c : ChainStep) :
    ∃ more, (c.step digest signer k).appended = k.appended ++ more := by
  cases c with
  | post now posting =>
    simp only [ChainStep.step]
    split
    · exact ⟨[], by simp⟩
    · exact ⟨_, rfl⟩
  | checkpoint now id crashed =>
    simp only [ChainStep.step]
    split <;> exact ⟨[], by simp⟩
  | archive input stop => exact ⟨[], by simp [ChainStep.step]⟩

theorem foldl_appended (digest : Digest) (signer : Signer) (steps : List ChainStep) (k : Chronicle) :
    ∃ more, (steps.foldl (ChainStep.step digest signer) k).appended = k.appended ++ more := by
  induction steps generalizing k with
  | nil => exact ⟨[], by simp⟩
  | cons c steps ih =>
    obtain ⟨more, hmore⟩ := c.step_appended digest signer k
    obtain ⟨rest, hrest⟩ := ih (c.step digest signer k)
    exact ⟨more ++ rest, by rw [List.foldl_cons, hrest, hmore, List.append_assoc]⟩

theorem Sealing.post {digest : Digest} {signer : Signer} {k : Chronicle} (h : Sealing digest k)
    (now : Int) (posting : Posting) :
    Sealing digest ((ChainStep.post now posting).step digest signer k) := by
  simp only [ChainStep.step]
  rcases Books.post_cases digest now posting k.books with ⟨e, ledger, hpost, hbook, -⟩ |
    ⟨row, next, ledger, -, -, -, -, -, -, htables, -, hpost⟩
  · rw [hpost]
    refine ⟨?_, h.archive, h.keys, h.earlier, h.table, h.latest⟩
    simp only [Books.log, MemoryLedger.tables, hbook]
    exact h.log
  · rw [hpost]
    have hlog : ledger.tables.log = k.books.log ++ [row] := by
      rw [htables]
      rfl
    refine ⟨?_, h.archive, h.keys, h.earlier.append _, h.table, h.latest⟩
    simp [Books.log, hlog, ← h.log]

theorem signedOver_sealed {root : RootNode}
    (h : merkleSumRoot digest leaves = .ok root) (now : Int) (id : String) :
    SignedOver digest leaves (sealedCheckpoint signer leaves root now id) :=
  ⟨⟨root, h, rfl, rfl⟩, rfl⟩

theorem Sealing.checkpoint {k : Chronicle} (h : Sealing digest k)
    (hk : Faithful digest k.books k.appended) (hdigest : ChainDigest digest k.appended)
    (hframed : AllFramed k.appended) (now : Int) (id : String) (crashed : Bool) :
    Sealing digest ((ChainStep.checkpoint now id crashed).step digest signer k) := by
  simp only [ChainStep.step]
  cases hsign : signCheckpoint digest signer k.books.view k.books.checkpoints now id with
  | error e => exact h
  | ok signed =>
    obtain ⟨checkpoint, plan, leaves⟩ := signed
    obtain ⟨boundary, root, hboundary, hleaves, hplan, -, hroot, -, hcheckpoint⟩ :=
      signCheckpoint_ok.mp hsign
    have hnone : boundary = none := by
      simp only [loadArchiveBoundary, h.archive, Except.ok.injEq] at hboundary
      exact hboundary.symm
    subst hnone
    have hsums : leaves = k.books.headSums := hleaves
    have hd : DistinctAccounts leaves := hsums ▸ hk.headSums_distinct
    have hl : ∀ leaf ∈ leaves, leaf ∈ historyLeaves k.appended := by
      intro leaf hm
      rw [hsums] at hm
      exact (hk.headSums_perm h.log).mem_iff.mp hm
    have hinc : ∀ dirty since, plan = .incremental dirty since →
        since = sinceHeads k.books.checkpoints.sealHeads ∧ dirty = dirtyLeaves since leaves ∧
          ∀ account ∈ since.keys, account ∈ leaves.map SealHead.account := by
      rintro dirty since rfl
      obtain ⟨latest, -, -, hsince, hdirty, hlive⟩ := planSeal_incremental.mp hplan
      exact ⟨hsince, hdirty, hlive⟩
    have hearlier := h.earlier.headsAfter hd hl fun dirty since he => (hinc dirty since he).2.1
    have hperm := headsAfter_perm h.keys h.earlier hdigest hframed hk.chained hd hl hinc
    simp only [Books.record_ok hsign crashed]
    have hlatest : ∀ c, (some checkpoint : Option Checkpoint) = some c → SignedOver digest leaves c := by
      rintro c hc
      cases hc
      exact hcheckpoint ▸ signedOver_sealed hroot now id
    cases crashed with
    | true =>
      refine ⟨h.log, h.archive, h.keys, h.earlier, by simp, ?_⟩
      simpa [CheckpointStore.latest] using hlatest checkpoint rfl
    | false =>
      refine ⟨h.log, h.archive, ?_, hearlier, fun _ => hperm, ?_⟩
      · cases plan with
        | full => exact OrderedTable.nodup_keys_setAll (by simp) _
        | incremental dirty since => exact OrderedTable.nodup_keys_setAll h.keys _
      · simpa [CheckpointStore.latest] using hlatest checkpoint rfl

theorem foldl_sealing (honly : ∀ c ∈ steps, c.archives = false) {k : Chronicle} (h : Sealing digest k)
    (hk : Faithful digest k.books k.appended)
    (hdigest : ChainDigest digest (steps.foldl (ChainStep.step digest signer) k).appended)
    (hframed : AllFramed (steps.foldl (ChainStep.step digest signer) k).appended) :
    Sealing digest (steps.foldl (ChainStep.step digest signer) k) := by
  induction steps generalizing k with
  | nil => exact h
  | cons c steps ih =>
    -- the digest is sound for the rows of the whole run, so for those appended so far
    obtain ⟨more, hmore⟩ := foldl_appended digest signer (c :: steps) k
    rw [hmore] at hdigest hframed
    have hsofar : AllFramed k.appended := fun row hm => hframed row (List.mem_append_left _ hm)
    have hstep : Sealing digest (c.step digest signer k) := by
      cases c with
      | post now posting => exact h.post now posting
      | checkpoint now id crashed => exact h.checkpoint hk hdigest.prefix hsofar now id crashed
      | archive input stop => exact absurd (honly _ List.mem_cons_self) (by simp [ChainStep.archives])
    rw [← hmore] at hdigest hframed
    exact ih (fun c' hc => honly c' (List.mem_cons_of_mem _ hc)) hstep (c.step_faithful hk) hdigest hframed

/-- An incremental seal signs what the full path would have signed, and unless a crash followed
the last put the snapshot is the leaves of the latest checkpoint. -/
theorem incremental_seals_full (digest : Digest) (signer : Signer) (steps : List ChainStep)
    (honly : ∀ c ∈ steps, c.archives = false)
    (hdigest : ChainDigest digest (runBooks digest signer steps).appended)
    (hframed : AllFramed (runBooks digest signer steps).appended) :
    let k := runBooks digest signer steps
    (∀ now id checkpoint dirty since leaves,
      signCheckpoint digest signer k.books.view k.books.checkpoints now id =
        .ok (checkpoint, .incremental dirty since, leaves) →
      signCheckpoint digest signer k.books.view k.books.checkpoints.withoutSnapshot now id =
        .ok (checkpoint, .full, leaves)) ∧
    (∀ checkpoint, k.books.checkpoints.latest = some checkpoint → SignedOver digest k.signed checkpoint) ∧
    (k.interrupted = false → k.books.checkpoints.sealHeads.Perm k.signed) := by
  intro k
  have hk : Faithful digest k.books k.appended := runBooks_faithful digest signer steps
  have h : Sealing digest k :=
    foldl_sealing honly (Sealing.start digest) (Faithful.start digest) hdigest hframed
  refine ⟨?_, h.latest, h.table⟩
  intro now id checkpoint dirty since leaves hsign
  exact hk.full_signs h.log h.archive hsign

/-! ## Two seals with a posting between them -/

def rowTexts (rows : List StoredPosting) : List (List UInt8) :=
  rows.flatMap fun row => row.links.flatMap fun link =>
    match fromHex link.prevHash with
    | .error _ => []
    | .ok prev => (chainPreimage prev link.account row.posting).toOption.toList

theorem chainTexts_rowTexts {text : List UInt8} (h : text ∈ chainTexts rows) :
    text ∈ rowTexts rows := by
  obtain ⟨account, link, hm, prev, hprev, htext⟩ := h
  obtain ⟨row, hrow, hlink⟩ := mem_lineageOf hm
  obtain ⟨stored, hfind, rfl⟩ := StoredPosting.linkOf_eq_some.mp hlink
  have hacc : stored.account = account := by simpa using List.find?_some hfind
  subst hacc
  refine List.mem_flatMap.mpr ⟨row, hrow,
    List.mem_flatMap.mpr ⟨stored, List.mem_of_find?_eq_some hfind, ?_⟩⟩
  simp only at hprev
  rw [hprev]
  have htext' : chainPreimage prev stored.account row.posting = .ok text := htext
  simp [htext', Except.toOption]

theorem lengthDigest_free (h : ((rowTexts rows).map fun text => UInt8.ofNat text.length).Nodup) :
    CollisionFree lengthDigest (chainTexts rows) := by
  intro x hx y hy heq
  have hlast : UInt8.ofNat x.length = UInt8.ofNat y.length := by
    simpa [lengthDigest] using heq
  exact List.inj_on_of_nodup_map h (chainTexts_rowTexts hx) (chainTexts_rowTexts hy) hlast

theorem appended_posted (digest : Digest) (signer : Signer)
    {row : StoredPosting} (h : row ∈ (runBooks digest signer steps).appended) :
    ∃ now posting, .post now posting ∈ steps ∧ row.posting = dropZeroLegs posting := by
  unfold runBooks at h
  induction steps using List.reverseRecOn with
  | nil => cases h
  | append_singleton steps c ih =>
    rw [List.foldl_append, List.foldl_cons, List.foldl_nil] at h
    generalize hk : steps.foldl (ChainStep.step digest signer) Chronicle.start = k at h ih
    have hold : row ∈ k.appended →
        ∃ now posting, .post now posting ∈ steps ++ [c] ∧ row.posting = dropZeroLegs posting := by
      intro hm
      obtain ⟨now, posting, hstep, hrow⟩ := ih hm
      exact ⟨now, posting, List.mem_append_left _ hstep, hrow⟩
    cases c with
    | post now posting =>
      simp only [ChainStep.step] at h
      rcases Books.post_cases digest now posting k.books with ⟨e, ledger, hpost, -⟩ |
        ⟨added, next, ledger, hadded, -, -, -, -, -, htables, -, hpost⟩
      · rw [hpost] at h
        exact hold h
      · have hlast : ledger.tables.log.getLast? = some added := by
          rw [htables]
          simp [applyPosting]
        rw [hpost] at h
        simp only [Books.log, hlast, Option.toList_some, List.mem_append, List.mem_singleton] at h
        rcases h with h | rfl
        · exact hold h
        · exact ⟨now, posting, by simp, hadded⟩
    | checkpoint now id crashed =>
      simp only [ChainStep.step] at h
      split at h <;> exact hold h
    | archive input stop => exact hold h

def echoSigner : Signer := ⟨id, fun bytes signature => bytes == signature, none⟩

def sampleTopUp (txnId userId : String) : Posting :=
  ⟨txnId, [⟨SYSTEM.REVENUE, ⟨.credit, 5, .five⟩⟩, ⟨spendable userId, ⟨.credit, -5, .neg_five⟩⟩], []⟩

/-- The ids differ in length, so that `lengthDigest` tells the rows apart. -/
def sampleSeals : List ChainStep :=
  [.post 0 (sampleTopUp "txn_1" "usr_a"), .checkpoint 1 "chk_1" false,
    .post 2 (sampleTopUp "txn_002" "usr_b"), .checkpoint 3 "chk_2" false]

theorem sampleTopUp_framed {txnId userId : String} (h : EconomyLab.Framed (Text.utf8 txnId))
    (hamounts : ∀ account ∈ (sampleTopUp txnId userId).legs.map Leg.account,
      EconomyLab.Framed (Text.utf8 ("\u0000".intercalate
        (ownAmounts account (sampleTopUp txnId userId).legs)))) :
    (dropZeroLegs (sampleTopUp txnId userId)).Framed := by
  have hmeta : EconomyLab.Framed (Text.utf8 (Json.object []).text) := by decide +kernel
  exact Posting.framed_of h hamounts hmeta

theorem sampleSeals_framed : AllFramed (runBooks lengthDigest echoSigner sampleSeals).appended := by
  intro row hm
  obtain ⟨now, posting, hstep, hrow⟩ := appended_posted lengthDigest echoSigner hm
  rw [hrow]
  simp only [sampleSeals, List.mem_cons, ChainStep.post.injEq, reduceCtorEq, List.not_mem_nil, or_false,
    false_or] at hstep
  rcases hstep with ⟨-, rfl⟩ | ⟨-, rfl⟩
  · exact sampleTopUp_framed (by decide +kernel) (by decide +kernel)
  · exact sampleTopUp_framed (by decide +kernel) (by decide +kernel)

theorem lengthDigest_genesis : AvoidsGenesis lengthDigest := by
  intro text h
  cases h

theorem sampleSeals_digest (h : steps.filter ChainStep.posts = sampleSeals.filter ChainStep.posts) :
    ChainDigest lengthDigest (runBooks lengthDigest echoSigner steps).appended := by
  have hposts := runBooks_history lengthDigest echoSigner steps fun _ hc => hc
  have hlengths : (rowTexts (runBooks lengthDigest echoSigner
      (sampleSeals.filter ChainStep.posts)).appended).map (fun text => UInt8.ofNat text.length) =
        [66, 67, 68, 69] := by
    decide +kernel
  refine ⟨fun _ => rfl, lengthDigest_genesis, lengthDigest_free ?_⟩
  rw [hposts.appended, h, hlengths]
  decide

theorem incremental_seals_full_resumed :
    (runBooks lengthDigest echoSigner sampleSeals).books.checkpoints.sealHeads.Perm
      (runBooks lengthDigest echoSigner sampleSeals).signed := by
  have hdone : (runBooks lengthDigest echoSigner sampleSeals).interrupted = false :=
    runBooks_uninterrupted lengthDigest echoSigner (by simp [sampleSeals, ChainStep.crashes])
  have honly : ∀ c ∈ sampleSeals, c.archives = false := by
    simp [sampleSeals, ChainStep.archives]
  exact (incremental_seals_full lengthDigest echoSigner sampleSeals honly (sampleSeals_digest rfl)
    sampleSeals_framed).2.2 hdone

end EconomyLab

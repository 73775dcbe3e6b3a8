import EconomyLab.Chain.Sealing

/-!
# Verifying a fresh seal

The sealer merges the archive boundary into the sums it signs; the live and the offline
verifier read the remaining postings alone. The three agree exactly while no link has been
deleted and the boundary adds nothing.
-/

namespace EconomyLab

open Foundation Text

/-! ## Exporting the ledger -/

def exportLedger (s : Books) : List ExportLine :=
  .header EXPORT_FORMAT ::
    s.heads.flatMap (fun p => (lineageOf s.log p.1 none).map fun link => .link p.1 link) ++
    s.checkpoints.latest.toList.map fun checkpoint => .checkpoint checkpoint

def ParsedExport.addLinks (file : ParsedExport) (account : AccountRef) (links : List StoredLink) :
    ParsedExport :=
  links.foldl (fun file link => file.addLink account link) file

theorem parseRows_links (account : AccountRef) (links : List StoredLink) (lines : List ExportLine)
    (file : ParsedExport) :
    parseRows (links.map (fun link => ExportLine.link account link) ++ lines) file =
      parseRows lines (file.addLinks account links) := by
  induction links generalizing file with
  | nil => rfl
  | cons link links ih => exact ih (file.addLink account link)

theorem addLinks_get (file : ParsedExport) (account : AccountRef) (links : List StoredLink)
    (b : AccountRef) : (file.addLinks account links).lineage.get b =
      if b = account ∧ links ≠ [] then some ((file.lineage.get account).getD [] ++ links)
      else file.lineage.get b := by
  induction links generalizing file with
  | nil => simp [ParsedExport.addLinks]
  | cons link links ih =>
    have hstep : file.addLinks account (link :: links) = (file.addLink account link).addLinks
      account links :=
      rfl
    rw [hstep, ih]
    by_cases hb : b = account
    · subst hb
      cases links <;> simp [ParsedExport.addLink]
    · simp [ParsedExport.addLink, hb]

def linesOf (log : List StoredPosting) (heads : List (AccountRef × String)) (file : ParsedExport) :
    ParsedExport :=
  heads.foldl (fun file p => file.addLinks p.1 (lineageOf log p.1 none)) file

theorem parseRows_heads (log : List StoredPosting) (heads : List (AccountRef × String))
    (lines : List ExportLine) (file : ParsedExport) :
    parseRows (heads.flatMap (fun p => (lineageOf log p.1 none).map fun link =>
      ExportLine.link p.1 link) ++ lines) file = parseRows lines (linesOf log heads file) := by
  induction heads generalizing file with
  | nil => rfl
  | cons p heads ih =>
    rw [List.flatMap_cons, List.append_assoc, parseRows_links, ih]
    rfl

theorem linesOf_get {log : List StoredPosting} {heads : List (AccountRef × String)}
    (hd : (heads.map Prod.fst).Nodup) {file : ParsedExport}
    (hfile : ∀ p ∈ heads, file.lineage.get p.1 = none) (account : AccountRef) :
    (linesOf log heads file).lineage.get account =
      if account ∈ heads.map Prod.fst ∧ lineageOf log account none ≠ []
      then some (lineageOf log account none) else file.lineage.get account := by
  induction heads generalizing file with
  | nil => simp [linesOf]
  | cons p heads ih =>
    rw [List.map_cons, List.nodup_cons] at hd
    have hne : ∀ q ∈ heads, q.1 ≠ p.1 := by
      intro q hq he
      exact hd.1 (List.mem_map.mpr ⟨q, hq, he⟩)
    have hfile' : ∀ q ∈ heads, (file.addLinks p.1 (lineageOf log p.1 none)).lineage.get q.1 = none := by
      intro q hq
      rw [addLinks_get, if_neg (fun h => hne q hq h.1)]
      exact hfile q (List.mem_cons_of_mem _ hq)
    have hstep : linesOf log (p :: heads) file =
        linesOf log heads (file.addLinks p.1 (lineageOf log p.1 none)) := rfl
    rw [hstep, ih hd.2 hfile', addLinks_get, hfile p List.mem_cons_self]
    by_cases ha : account = p.1
    · subst ha
      by_cases hl : lineageOf log p.1 none = [] <;> simp [hl, hd.1]
    · have hm : account ∈ (p :: heads).map Prod.fst ↔ account ∈ heads.map Prod.fst := by
        simp [ha]
      simp only [hm, ha, false_and, if_false]

def exportedFile (s : Books) : ParsedExport :=
  { linesOf s.log s.heads ParsedExport.empty with
    checkpoint := s.checkpoints.latest.or (linesOf s.log s.heads ParsedExport.empty).checkpoint }

theorem parseExport_exportLedger (s : Books) : parseExport (exportLedger s) = .ok (exportedFile s) := by
  have hparse : parseExport (exportLedger s) =
      parseRows (s.checkpoints.latest.toList.map fun checkpoint => .checkpoint checkpoint)
        (linesOf s.log s.heads ParsedExport.empty) := by
    rw [← parseRows_heads]
    simp [exportLedger, parseExport]
  rw [hparse]
  unfold exportedFile
  cases s.checkpoints.latest <;> rfl

section Exported

variable {digest : Digest} {s : Books} {appended : List StoredPosting}

theorem Faithful.heads_distinct (h : Faithful digest s appended) : (s.heads.map Prod.fst).Nodup := by
  have hmap : s.headSums.map SealHead.account = s.heads.map Prod.fst := by
    simp [Books.headSums, Function.comp_def]
  rw [← hmap]
  exact h.headSums_distinct

theorem Faithful.mem_headAccounts (h : Faithful digest s appended) {account : AccountRef} :
    account ∈ s.heads.map Prod.fst ↔ account ∈ (legsOf appended).map Leg.account := by
  rw [List.mem_map]
  constructor
  · rintro ⟨⟨a, head⟩, hm, rfl⟩
    exact (h.mem_heads.mp hm).1
  · exact fun ha => ⟨(account, chainHead appended account), h.mem_heads.mpr ⟨ha, rfl⟩, rfl⟩

/-- What the rows left in the log say of an account. -/
theorem Faithful.lineage_sublist (h : Faithful digest s appended) (account : AccountRef) :
    (lineageOf s.log account none).Sublist (lineageOf appended account none) := by
  rw [lineageOf_none, lineageOf_none]
  exact h.honest.indexes.kept.filterMap _

theorem Faithful.exported_get (h : Faithful digest s appended) (account : AccountRef) :
    (exportedFile s).lineage.get account =
      if lineageOf s.log account none ≠ [] then some (lineageOf s.log account none) else none := by
  have hempty : ∀ p ∈ s.heads, ParsedExport.empty.lineage.get p.1 = none :=
    fun p _ => OrderedTable.get_empty p.1
  have hget := @linesOf_get s.log _ h.heads_distinct _ hempty account
  have htouch : lineageOf s.log account none ≠ [] → account ∈ s.heads.map Prod.fst := by
    intro hne
    rw [h.mem_headAccounts]
    by_contra hn
    have hnil := h.chained.lineage_nil.mpr hn
    have hsub := h.lineage_sublist account
    rw [hnil, List.sublist_nil] at hsub
    exact hne hsub
  change (linesOf s.log s.heads ParsedExport.empty).lineage.get account = _
  rw [hget]
  by_cases hne : lineageOf s.log account none ≠ []
  · rw [if_pos ⟨htouch hne, hne⟩, if_pos hne]
  · rw [if_neg (fun hb => hne hb.2), if_neg hne]
    rfl

theorem exportedFile_wellFormed (s : Books) : (exportedFile s).WellFormed :=
  parseExport_wellFormed (parseExport_exportLedger s)

theorem Faithful.mem_exported (h : Faithful digest s appended) {account : AccountRef}
    {links : List StoredLink} : (account, links) ∈ (exportedFile s).lineage.entries ↔
      links ≠ [] ∧ links = lineageOf s.log account none := by
  rw [← OrderedTable.get_eq_some (exportedFile_wellFormed s).keys, h.exported_get]
  split
  · rename_i hne
    constructor
    · intro he
      exact ⟨Option.some.inj he ▸ hne, (Option.some.inj he).symm⟩
    · rintro ⟨-, rfl⟩
      rfl
  · rename_i hnil
    constructor
    · intro he
      cases he
    · rintro ⟨hne, rfl⟩
      exact absurd hne hnil

/-- The leaves a file reports are the last hashes and the sums of the links it carries. -/
theorem Faithful.mem_exportedSums (h : Faithful digest s appended) {leaf : SealHead} :
    leaf ∈ (fileLedger (exportedFile s)).headSums ↔ lineageOf s.log leaf.account none ≠ [] ∧
      leaf.head = lastHash GENESIS_HEX (lineageOf s.log leaf.account none) ∧
      leaf.sum = rawSum s.log leaf.account := by
  have hsum := (h.chained.eachLinked h.honest.indexes.kept).ownSum
  simp only [fileLedger, List.mem_map]
  constructor
  · rintro ⟨⟨account, links⟩, hm, rfl⟩
    obtain ⟨hne, rfl⟩ := h.mem_exported.mp hm
    exact ⟨hne, lastHash_congr hne _ _, hsum account⟩
  · rintro ⟨hne, hhead, hsums⟩
    refine ⟨(leaf.account, lineageOf s.log leaf.account none), h.mem_exported.mpr ⟨hne, rfl⟩, ?_⟩
    apply SealHead.ext
    · rfl
    · exact (lastHash_congr hne _ _).trans hhead.symm
    · exact (hsum leaf.account).trans hsums.symm

theorem exportedSums_distinct (s : Books) : DistinctAccounts (fileLedger (exportedFile s)).headSums := by
  have hmap : (fileLedger (exportedFile s)).headSums.map SealHead.account =
      (exportedFile s).lineage.keys := by
    simp [fileLedger, OrderedTable.keys, Function.comp_def]
  unfold DistinctAccounts
  rw [hmap]
  exact (exportedFile_wellFormed s).keys

end Exported

/-- The boundary names only accounts that were posted to, and nothing before the first run. -/
structure BoundaryRows (s : Books) (appended : List StoredPosting) : Prop where
  keys : s.checkpoints.archiveHeadRows.keys.Nodup
  touched : ∀ a ∈ s.checkpoints.archiveHeadRows.keys, a ∈ (legsOf appended).map Leg.account

variable {digest : Digest} {signer : Signer}

theorem archiveSealedPrefix_boundaryRows {input : ArchiveSweepInput}
    {stop : Option (Nat × ArchiveStop)} {s : Books} {appended : List StoredPosting}
    (hs : Faithful digest s appended) (h : BoundaryRows s appended) :
    BoundaryRows (archiveSealedPrefix digest signer input stop s).2 appended := by
  have put : ∀ {s : Books} {advanced : HeadRows} {mark : ArchiveMark} {checkpoints : CheckpointStore},
      BoundaryRows s appended → advanced.keys.Nodup →
      (∀ a ∈ advanced.keys, a ∈ (legsOf appended).map Leg.account) →
      signBoundary digest signer advanced mark s.checkpoints = .ok checkpoints →
      BoundaryRows { s with checkpoints } appended := by
    intro s advanced mark checkpoints hb hkeys htouched hsign
    obtain ⟨root, -, -, rfl⟩ := signBoundary_ok hsign
    constructor
    · exact OrderedTable.nodup_keys_setAll hb.keys _
    · intro a ha
      have hget : (s.checkpoints.archiveHeadRows.setAll advanced.entries).get a =
          (advanced.get a).or (s.checkpoints.archiveHeadRows.get a) := get_setAll_entries hkeys a
      simp only [CheckpointStore.putArchiveBoundary, map_rowOf_leavesOf] at ha
      rw [← OrderedTable.get_isSome, hget, Option.isSome_or, Bool.or_eq_true, OrderedTable.get_isSome,
        OrderedTable.get_isSome] at ha
      rcases ha with ha | ha
      · exact htouched a ha
      · exact hb.touched a ha
  have advances : ∀ {checkpoint cursor} {heads advanced : HeadRows} {s eligible last mark},
      Faithful digest s appended → (heads.keys.Nodup ∧ ∀ a ∈ heads.keys, a ∈ (legsOf appended).map
        Leg.account) →
      PageMoves digest checkpoint input cursor heads s eligible last advanced mark →
      advanced.keys.Nodup ∧ ∀ a ∈ advanced.keys, a ∈ (legsOf appended).map Leg.account := by
    intro checkpoint cursor heads advanced s eligible last mark hs hheads hmoves
    apply verifyPage_keys hmoves.verified ?_ hheads
    intro row hr link hl
    have hrow : row ∈ appended := hs.honest.indexes.kept.subset (hmoves.subset row hr)
    obtain ⟨before, hlinked⟩ := hs.chained.of_mem hrow
    have hleg : link.account ∈ row.legs.map Leg.account := by
      rw [← mem_distinctAccounts, ← hlinked.accounts]
      exact List.mem_map.mpr ⟨link, hl, rfl⟩
    obtain ⟨leg, hm, he⟩ := List.mem_map.mp hleg
    exact List.mem_map.mpr ⟨leg, List.mem_flatMap.mpr ⟨row, hrow, hm⟩, he⟩
  have rule : ArchiveRule digest signer input stop
      (fun _ _ heads s => Faithful digest s appended ∧ BoundaryRows s appended ∧
        heads.keys.Nodup ∧ ∀ a ∈ heads.keys, a ∈ (legsOf appended).map Leg.account)
      (fun _ s => BoundaryRows s appended) := by
    constructor
    · exact fun hp => hp.2.1
    · exact fun _ hp => hp.2.1
    · exact fun _ hp _ _ => ⟨hp.2.1.keys, hp.2.1.touched⟩
    · intro _ _ _ _ _ _ _ _ _ _ hp hmoves hsign _
      obtain ⟨hkeys, htouched⟩ := advances hp.1 hp.2.2 hmoves
      have hput := put hp.2.1 hkeys htouched hsign
      exact ⟨hput.keys, hput.touched⟩
    · intro _ _ _ _ _ _ _ _ _ _ hp hmoves hsign
      obtain ⟨hkeys, htouched⟩ := advances hp.1 hp.2.2 hmoves
      have hput := put hp.2.1 hkeys htouched hsign
      refine ⟨?_, ⟨hput.keys, hput.touched⟩, hkeys, htouched⟩
      apply Faithful.prune
      exact hp.1.of_ledger rfl rfl
    · exact fun hp => hp.2.1
  apply rule.run (fun _ _ => h) (fun _ => h)
  intro heads hheads
  refine ⟨hs, h, ?_⟩
  rcases resumeBoundary_ok hheads with ⟨-, rfl⟩ | ⟨prior, -, -, rfl⟩
  · exact ⟨List.nodup_nil, fun a ha => by cases ha⟩
  · rw [CheckpointStore.archiveHeads, map_rowOf_leavesOf]
    refine ⟨OrderedTable.nodup_keys_setAll (by simp) _, ?_⟩
    intro a ha
    apply h.touched a
    rw [← OrderedTable.get_isSome, get_setAll_entries h.keys] at ha
    rw [← OrderedTable.get_isSome]
    simpa using ha

theorem ChainStep.step_boundaryRows {k : Chronicle}
    (hk : Faithful digest k.books k.appended) (h : BoundaryRows k.books k.appended) (c : ChainStep) :
    BoundaryRows (c.step digest signer k).books (c.step digest signer k).appended := by
  have grow : ∀ more, BoundaryRows k.books (k.appended ++ more) := by
    intro more
    refine ⟨h.keys, ?_⟩
    intro a ha
    rw [legsOf_append, List.map_append, List.mem_append]
    exact Or.inl (h.touched a ha)
  cases c with
  | post now posting =>
    simp only [ChainStep.step]
    rcases Books.post_cases digest now posting k.books with ⟨e, ledger, hpost, -⟩ |
      ⟨row, next, ledger, -, -, -, -, -, -, -, -, hpost⟩
    · rw [hpost]
      exact ⟨h.keys, h.touched⟩
    · rw [hpost]
      exact ⟨h.keys, (grow _).touched⟩
  | checkpoint now id crashed =>
    simp only [ChainStep.step]
    cases hsign : signCheckpoint digest signer k.books.view k.books.checkpoints now id with
    | error e => exact h
    | ok signed =>
      obtain ⟨checkpoint, plan, leaves⟩ := signed
      simp only [Books.record_ok hsign crashed]
      exact ⟨h.keys, h.touched⟩
  | archive input stop => exact archiveSealedPrefix_boundaryRows hk h

theorem runBooks_boundaryRows (digest : Digest) (signer : Signer) (steps : List ChainStep) :
    BoundaryRows (runBooks digest signer steps).books (runBooks digest signer steps).appended := by
  have key : ∀ k : Chronicle, Faithful digest k.books k.appended → BoundaryRows k.books k.appended →
      BoundaryRows (steps.foldl (ChainStep.step digest signer) k).books
        (steps.foldl (ChainStep.step digest signer) k).appended := by
    induction steps with
    | nil => exact fun _ _ h => h
    | cons c steps ih => exact fun k hk h => ih _ (c.step_faithful hk) (c.step_boundaryRows hk h)
  apply key _ (Faithful.start digest)
  exact ⟨List.nodup_nil, fun a ha => by cases ha⟩

/-- A sealed checkpoint checks out over leaves of its root, no fewer than it counts. -/
theorem verifyCheckpoint_sealed
    {verify : List UInt8 → List UInt8 → Bool} {view : ChainView} {leaves : List SealHead} {root : RootNode}
    (hzero : root.sum = 0) {now : Int} {id : String} :
    verifyCheckpoint digest verify view (sealedCheckpoint signer leaves root now id) = .ok true ↔
      leaves.length ≤ view.headSums.length ∧ merkleSumRoot digest view.headSums = .ok root ∧
        verify (root.hash ++ int64Bytes root.sum) (signer.sign (root.hash ++ int64Bytes root.sum)) =
          true := by
  unfold verifyCheckpoint sealedCheckpoint
  simp only
  by_cases hshort : view.headSums.length < leaves.length
  · simp [hshort]
  · rw [if_neg hshort, except_bind_ok]
    constructor
    · rintro ⟨found, hfound, h⟩
      by_cases hhash : toHex found.hash = toHex root.hash
      · by_cases hsum : some root.sum = some found.sum
        · have hsame : found = root := by
            obtain ⟨hash, sum⟩ := found
            have heq : hash = root.hash := toHex_inj hhash
            have hroot : root.sum = sum := Option.some.inj hsum
            cases root
            simp_all only
          subst hsame
          simp only [ne_eq, not_true_eq_false, if_false, sumRootPayload_zero hzero, fromHex_toHex] at h
          exact ⟨not_lt.mp hshort, hfound, Except.ok.inj h⟩
        · rw [if_neg (not_not.mpr hhash), if_pos hsum] at h
          cases h
      · rw [if_pos hhash] at h
        cases h
    · rintro ⟨-, hroot, hverify⟩
      refine ⟨root, hroot, ?_⟩
      simp only [ne_eq, not_true_eq_false, if_false, sumRootPayload_zero hzero, fromHex_toHex]
      exact congrArg Except.ok hverify

theorem loadArchiveBoundary_ok {store : CheckpointStore}
    {boundary : Option ArchiveBoundary} (h : loadArchiveBoundary digest signer store = .ok boundary) :
    (store.archive = none ∧ boundary = none) ∨
    (store.archive ≠ none ∧ boundary = some (boundaryOf store.archiveHeads)) := by
  unfold loadArchiveBoundary at h
  cases ha : store.archive with
  | none =>
    rw [ha] at h
    exact Or.inl ⟨rfl, (Except.ok.inj h).symm⟩
  | some state =>
    rw [ha] at h
    obtain ⟨ok, -, h⟩ := except_bind_ok.mp h
    cases ok with
    | false => cases h
    | true => exact Or.inr ⟨by simp, (Except.ok.inj h).symm⟩

def archivedSum (store : CheckpointStore) (account : AccountRef) : Int :=
  if store.archive = none then 0 else ((store.archiveHeadRows.get account).map HeadSum.sum).getD 0

/-- The leaves a seal signs: the listed ones with the archived sums added. -/
theorem sealed_leaves {s : Books} {appended : List StoredPosting}
    (hs : Faithful digest s appended) (hb : BoundaryRows s appended) {boundary : Option ArchiveBoundary}
    (h : loadArchiveBoundary digest signer s.checkpoints = .ok boundary) :
    mergeArchiveSums s.headSums boundary =
      s.headSums.map fun leaf =>
        { leaf with sum := leaf.sum + archivedSum s.checkpoints leaf.account } := by
  rcases loadArchiveBoundary_ok h with ⟨hnone, rfl⟩ | ⟨hsome, rfl⟩
  · simp [mergeArchiveSums, archivedSum, hnone]
  · have hlisted : ∀ account ∈ (boundaryOf s.checkpoints.archiveHeads).rawSums.keys,
        account ∈ s.headSums.map SealHead.account := by
      intro account ha
      rw [hs.headSums_accounts]
      apply hb.touched
      rw [← OrderedTable.get_isSome, CheckpointStore.archiveHeads, boundaryOf_rawSums hb.keys,
        Option.isSome_map] at ha
      exact OrderedTable.get_isSome.mp ha
    rw [mergeArchiveSums_listed hlisted]
    simp [archivedSum, hsome, CheckpointStore.archiveHeads, boundaryOf_rawSums hb.keys]

/-! ## When the three agree -/

/-- The live and the offline verifier both accept the checkpoint. -/
structure SealVerifies (ed25519 : String → List UInt8 → List UInt8 → Bool) (digest : Digest)
    (signer : Signer) (publicKeysHex : List String) (s : Books) (checkpoint : Checkpoint) : Prop where
  live : verifyCheckpoint digest signer.verify s.view checkpoint = .ok true
  offline : ∃ report, verifyExport ed25519 digest publicKeysHex (exportLedger s) = .ok report ∧
    report.chainIntact = true ∧ report.checkpoint.verified = some true

/-- No link has been deleted, and the archive boundary adds to no sum. -/
structure Unarchived (k : Chronicle) : Prop where
  links : ∀ account, lineageOf k.books.log account none = lineageOf k.appended account none
  sums : ∀ account, archivedSum k.books.checkpoints account = 0

/-- What `verifyExport` reports when the embedded checkpoint is checked. -/
theorem verifyExport_verified {ed25519 : String → List UInt8 → List UInt8 → Bool} {digest : Digest}
    {publicKeysHex : List String} {lines : List ExportLine} {file : ParsedExport} {row : Checkpoint}
    (hparse : parseExport lines = .ok file) (hrow : file.checkpoint = some row)
    (hkeys : publicKeysHex ≠ []) :
    (∃ report, verifyExport ed25519 digest publicKeysHex lines = .ok report ∧
      report.chainIntact = true ∧ report.checkpoint.verified = some true) ↔
    Intact digest none (fileLedger file) ∧
      verifyCheckpoint digest (fun bytes signature => publicKeysHex.any fun key =>
        ed25519 key bytes signature)
        (fileLedger file) row = .ok true := by
  have hempty : publicKeysHex.isEmpty = false := by
    simpa using hkeys
  unfold verifyExport Intact
  rw [hparse]
  cases hchain : proveChain digest none (fileLedger file) with
  | error e => simp [hchain, bind, Except.bind]
  | ok chain =>
    cases hv : verifyCheckpoint digest (fun bytes signature => publicKeysHex.any fun key =>
        ed25519 key bytes signature) (fileLedger file) row with
    | error e => simp [hchain, hrow, hempty, hv, bind, Except.bind]
    | ok verified => simp [hchain, hrow, hempty, hv, bind, Except.bind, pure, Except.pure]

def sealTexts (digest : Digest) (s : Books) (leaves : List SealHead) : Set (List UInt8) :=
  rootTexts digest leaves ∪ rootTexts digest s.headSums ∪
    rootTexts digest (fileLedger (exportedFile s)).headSums

section Agreement

variable {digest : Digest} {s : Books} {appended : List StoredPosting}

theorem Faithful.pureHead (h : Faithful digest s appended) (hwidth : FixedWidth digest)
    (hgen : AvoidsGenesis digest) (account : AccountRef) : ':' ∉ (chainHead appended account).toList := by
  obtain ⟨hd, hlast⟩ := h.chained.lineage account
  obtain ⟨bytes, -, hhead, -⟩ := lastHash_bytes hwidth hgen hd
  rw [← hlast, hhead]
  exact not_colon_toHex bytes

/-- With every link in the log the export carries the leaves the ledger lists. -/
theorem Faithful.exportedSums_perm (h : Faithful digest s appended)
    (hlinks : ∀ account, lineageOf s.log account none = lineageOf appended account none) :
    (fileLedger (exportedFile s)).headSums.Perm s.headSums := by
  apply leaves_perm (exportedSums_distinct s) h.headSums_distinct
  intro leaf
  rw [h.mem_exportedSums, h.mem_headSums, hlinks, (h.chained.lineage leaf.account).2, ne_eq,
    h.chained.lineage_nil, not_not]
  constructor
  · rintro ⟨ha, hhead, hsum⟩
    exact ⟨ha, SealHead.ext rfl hhead hsum⟩
  · rintro ⟨ha, he⟩
    exact ⟨ha, congrArg SealHead.head he, congrArg SealHead.sum he⟩

theorem Faithful.export_intact (h : Faithful digest s appended)
    (hlinks : ∀ account, lineageOf s.log account none = lineageOf appended account none) :
    Intact digest none (fileLedger (exportedFile s)) := by
  apply intact_iff.mpr
  intro p hp
  obtain ⟨⟨account, links⟩, hm, rfl⟩ := List.mem_map.mp hp
  obtain ⟨-, rfl⟩ := h.mem_exported.mp hm
  have hfile : (fileLedger (exportedFile s)).lineage account none = lineageOf s.log account none := by
    simp [fileLedger, (OrderedTable.get_eq_some (exportedFile_wellFormed s).keys).mpr hm]
  simp only [AcceptedLineage, Option.bind_none, hfile, hlinks]
  exact (h.chained.lineage account).1

/-- An intact export that ends at an account's head carries all of its links. -/
theorem Faithful.links_of_export (h : Faithful digest s appended) (hdigest : ChainDigest digest appended)
    (hframed : AllFramed appended) (hintact : Intact digest none (fileLedger (exportedFile s)))
    {account : AccountRef} (hne : lineageOf s.log account none ≠ [])
    (hhead : chainHead appended account = lastHash GENESIS_HEX (lineageOf s.log account none)) :
    lineageOf s.log account none = lineageOf appended account none := by
  have hsub := h.lineage_sublist account
  have hmem : ∀ link ∈ lineageOf s.log account none, link ∈ lineageOf appended account none :=
    fun link hl => hsub.subset hl
  have hexported : Rederives digest account GENESIS_HEX (lineageOf s.log account none) :=
    (exportedFile_wellFormed s).rederives hintact (h.mem_exported.mpr ⟨hne, rfl⟩)
  obtain ⟨hfull, hlast⟩ := h.chained.lineage account
  have htexts : linkTexts account (lineageOf appended account none) ⊆ chainTexts appended :=
    fun _ ht => ⟨account, ht⟩
  have hsame := rederives_same hdigest.width hdigest.genesis hdigest.free hexported hfull
    (fun link hl => hframed.links (hmem link hl)) (fun link hl => hframed.links hl)
    ((linkTexts_mono hmem).trans htexts) htexts (by rw [hlast, hhead])
  exact hsub.eq_of_length hsame.length_eq

end Agreement

/-- A seal changes nothing that the provers read. -/
theorem Books.record_view (digest : Digest) (signer : Signer) (now : Int) (id : String) (crashed : Bool)
    (s : Books) : (s.record digest signer now id crashed).view = s.view := by
  unfold Books.record
  split <;> rfl

/-- A fresh seal verifies, live and offline, while no link has been deleted and the archive
boundary adds nothing; otherwise one of the verifiers refuses it. -/
theorem seal_verifies_iff (ed25519 : String → List UInt8 → List UInt8 → Bool) (digest : Digest)
    (signer : Signer) (publicKeysHex : List String)
    (hsigner : ∀ bytes, signer.verify bytes (signer.sign bytes) = true)
    (hkeys : ∀ bytes, publicKeysHex.any (fun key => ed25519 key bytes (signer.sign bytes)) = true)
    (steps : List ChainStep) (now : Int) (id : String) (checkpoint : Checkpoint) (plan : SealPlan)
    (leaves : List SealHead)
    (hsign : signCheckpoint digest signer (runBooks digest signer steps).books.view
      (runBooks digest signer steps).books.checkpoints now id = .ok (checkpoint, plan, leaves)) :
    let k := runBooks digest signer steps
    let sealed := k.books.record digest signer now id false
    (Unarchived k → SealVerifies ed25519 digest signer publicKeysHex sealed checkpoint) ∧
    (ChainDigest digest k.appended → AllFramed k.appended →
      CollisionFree digest (sealTexts digest sealed leaves) →
      SealVerifies ed25519 digest signer publicKeysHex sealed checkpoint → Unarchived k) := by
  intro k sealed
  have hk : Faithful digest k.books k.appended := runBooks_faithful digest signer steps
  have hb : BoundaryRows k.books k.appended := runBooks_boundaryRows digest signer steps
  have hrecord : sealed = { k.books with checkpoints := { k.books.checkpoints with
      rows := k.books.checkpoints.rows ++ [checkpoint]
      heads := k.books.checkpoints.headsAfter leaves plan } } := Books.record_ok hsign false
  have hs : Faithful digest sealed k.appended := by
    rw [hrecord]
    exact hk.of_ledger rfl rfl
  have hlog : sealed.log = k.books.log := by
    rw [hrecord]
    rfl
  have hsums : sealed.headSums = k.books.headSums :=
    congrArg ChainView.headSums (Books.record_view digest signer now id false k.books)
  have hrow : (exportedFile sealed).checkpoint = some checkpoint := by
    rw [hrecord]
    simp [exportedFile, CheckpointStore.latest]
  obtain ⟨boundary, root, hboundary, hleaves, -, -, hroot, hzero, rfl⟩ := signCheckpoint_ok.mp hsign
  have hmerged : leaves = k.books.headSums.map fun leaf =>
      { leaf with sum := leaf.sum + archivedSum k.books.checkpoints leaf.account } :=
    hleaves.trans (sealed_leaves hk hb hboundary)
  have hne : publicKeysHex ≠ [] := by
    rintro rfl
    exact absurd (hkeys []) (by simp)
  have hfile := @verifyExport_verified ed25519 digest _ _ _ _
    (parseExport_exportLedger sealed) hrow hne
  constructor
  · intro hun
    have hlinks : ∀ account, lineageOf sealed.log account none = lineageOf k.appended account none := by
      rw [hlog]
      exact hun.links
    have hsame : leaves = sealed.headSums := by
      rw [hmerged, hsums]
      simp [hun.sums]
    have hperm := hs.exportedSums_perm hlinks
    constructor
    · apply (verifyCheckpoint_sealed hzero).mpr
      rw [hsame] at hroot ⊢
      exact ⟨le_refl _, hroot, hsigner _⟩
    · apply hfile.mpr
      refine ⟨hs.export_intact hlinks, (verifyCheckpoint_sealed hzero).mpr ⟨?_, ?_, hkeys _⟩⟩
      · rw [hsame, hperm.length_eq]
      · rw [merkleSumRoot_perm digest (exportedSums_distinct sealed) hperm, ← hsame]
        exact hroot
  · intro hdigest hframed hfree hverifies
    obtain ⟨-, hlive, -⟩ := (verifyCheckpoint_sealed hzero).mp hverifies.live
    obtain ⟨hintact, hoffline⟩ := hfile.mp hverifies.offline
    obtain ⟨-, hfileRoot, -⟩ := (verifyCheckpoint_sealed hzero).mp hoffline
    have hpureLive : ∀ leaf ∈ sealed.headSums, PureHead leaf := by
      intro leaf hm
      obtain ⟨-, he⟩ := hs.mem_headSums.mp hm
      rw [he]
      exact hs.pureHead hdigest.width hdigest.genesis leaf.account
    have hpure : ∀ leaf ∈ leaves, PureHead leaf := by
      rw [hmerged, ← hsums]
      intro leaf hm
      obtain ⟨live, hl, rfl⟩ := List.mem_map.mp hm
      exact hpureLive live hl
    have hliveSame : leaves.Perm sealed.headSums :=
      merkleSumRoot_binds hdigest.width hdigest.genesis hroot hlive hfree
        (fun _ hx => Or.inl (Or.inl hx)) (fun _ hx => Or.inl (Or.inr hx)) hpure hpureLive rfl
    have hfileSame : sealed.headSums.Perm (fileLedger (exportedFile sealed)).headSums :=
      merkleSumRoot_binds hdigest.width hdigest.genesis hlive hfileRoot hfree
        (fun _ hx => Or.inl (Or.inr hx)) (fun _ hx => Or.inr hx) hpureLive
        ((exportedFile_wellFormed sealed).pureHeads hintact) rfl
    constructor
    · intro account
      by_cases ha : account ∈ (legsOf k.appended).map Leg.account
      · have hleaf : (⟨account, chainHead k.appended account, rawSum sealed.log account⟩ : SealHead) ∈
            sealed.headSums := hs.mem_headSums.mpr ⟨ha, rfl⟩
        obtain ⟨hexported, hhead, -⟩ := hs.mem_exportedSums.mp (hfileSame.mem_iff.mp hleaf)
        rw [← hlog]
        exact hs.links_of_export hdigest hframed hintact hexported hhead
      · have hnil := hk.chained.lineage_nil.mpr ha
        have hsub := hk.lineage_sublist account
        rw [hnil] at hsub ⊢
        exact List.sublist_nil.mp hsub
    · intro account
      by_cases ha : account ∈ (legsOf k.appended).map Leg.account
      · have hleaf : (⟨account, chainHead k.appended account, rawSum k.books.log account⟩ : SealHead) ∈
            k.books.headSums := hk.mem_headSums.mpr ⟨ha, rfl⟩
        have hsealed : (⟨account, chainHead k.appended account,
            rawSum k.books.log account + archivedSum k.books.checkpoints account⟩ :
              SealHead) ∈ leaves := by
          rw [hmerged]
          exact List.mem_map.mpr ⟨_, hleaf, rfl⟩
        obtain ⟨-, he⟩ := hs.mem_headSums.mp (hliveSame.mem_iff.mp hsealed)
        have hsum := congrArg SealHead.sum he
        rw [hlog] at hsum
        exact add_eq_left.mp hsum
      · have hnone : k.books.checkpoints.archiveHeadRows.get account = none := by
          rw [← Option.not_isSome_iff_eq_none, OrderedTable.get_isSome]
          exact fun hm => ha (hb.touched account hm)
        simp [archivedSum, hnone]

theorem sampleSeal_signs : (signCheckpoint lengthDigest echoSigner
    (runBooks lengthDigest echoSigner [.post 0 (sampleTopUp "txn_1" "usr_a")]).books.view
    (runBooks lengthDigest echoSigner [.post 0 (sampleTopUp "txn_1" "usr_a")]).books.checkpoints 1
    "chk_1").toOption.isSome := by
  decide +kernel

theorem seal_verifies_unarchived : ∃ checkpoint,
    SealVerifies (fun _ bytes signature => bytes == signature) lengthDigest echoSigner ["key"]
      ((runBooks lengthDigest echoSigner [.post 0 (sampleTopUp "txn_1" "usr_a")]).books.record
        lengthDigest echoSigner 1 "chk_1" false) checkpoint := by
  obtain ⟨⟨checkpoint, plan, leaves⟩, hsome⟩ := Option.isSome_iff_exists.mp sampleSeal_signs
  have hsign := except_toOption.mp hsome
  refine ⟨checkpoint, (seal_verifies_iff _ lengthDigest echoSigner ["key"] (by simp [echoSigner])
    (by simp [echoSigner]) _ 1 "chk_1" checkpoint plan leaves hsign).1 ?_⟩
  have h : Sealing lengthDigest (runBooks lengthDigest echoSigner
    [.post 0 (sampleTopUp "txn_1" "usr_a")]) :=
    @Sealing.post lengthDigest echoSigner _ (Sealing.start lengthDigest) 0 (sampleTopUp "txn_1" "usr_a")
  exact ⟨fun account => by rw [h.log], fun account => by simp [archivedSum, h.archive]⟩

def sampleArchived : List ChainStep :=
  [.post 0 (sampleTopUp "txn_1" "usr_a"), .checkpoint 1 "chk_1" false, .archive ⟨0, 10, 2⟩ none]

/-- Once its posting is archived a fresh seal no longer verifies. -/
theorem archived_seal_refused : ∃ checkpoint plan leaves,
    signCheckpoint weighDigest echoSigner (runBooks weighDigest echoSigner sampleArchived).books.view
      (runBooks weighDigest echoSigner sampleArchived).books.checkpoints 3 "chk_2" =
        .ok (checkpoint, plan, leaves) ∧
    verifyCheckpoint weighDigest echoSigner.verify
      ((runBooks weighDigest echoSigner sampleArchived).books.record weighDigest echoSigner 3 "chk_2"
        false).view checkpoint = .ok false := by
  have hrun : ((signCheckpoint weighDigest echoSigner
      (runBooks weighDigest echoSigner sampleArchived).books.view
      (runBooks weighDigest echoSigner sampleArchived).books.checkpoints 3 "chk_2").toOption.map
        fun signed => (verifyCheckpoint weighDigest echoSigner.verify
          (runBooks weighDigest echoSigner sampleArchived).books.view signed.1).toOption) =
      some (some false) := by
    decide +kernel
  obtain ⟨⟨checkpoint, plan, leaves⟩, hsome, hverify⟩ := Option.map_eq_some_iff.mp hrun
  have hsign := except_toOption.mp hsome
  refine ⟨checkpoint, plan, leaves, hsign, ?_⟩
  rw [Books.record_view]
  exact except_toOption.mp hverify

end EconomyLab

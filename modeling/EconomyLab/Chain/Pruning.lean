import EconomyLab.Chain.Sealing

/-!
# Where the archive ends

While no run dies between its boundary and its prune the committed rows are cut in two: the
rows up to the cut are in the sink and in the boundary, the rows past it are the log.
-/

namespace EconomyLab

open Foundation Text

variable {digest : Digest} {heads advanced : HeadRows}

theorem advanceHead_fold {row : StoredPosting} {links : List Link}
    (hd : (links.map Link.account).Nodup) (hkeys : heads.keys.Nodup)
    (h : links.foldlM (advanceHead row) heads = .ok advanced) : advanced.keys.Nodup ∧
      ∀ account, advanced.get account = ((links.find? (·.account = account)).map fun link =>
        (⟨link.hash, ((heads.get account).map HeadSum.sum).getD 0 + legTotal row.legs account⟩ :
          HeadSum)).or
          (heads.get account) := by
  induction links generalizing heads with
  | nil =>
    rw [List.foldlM_nil, except_pure_ok] at h
    subst h
    exact ⟨hkeys, fun account => by simp⟩
  | cons link links ih =>
    rw [List.map_cons, List.nodup_cons] at hd
    rw [List.foldlM_cons] at h
    obtain ⟨next, hnext, h⟩ := except_bind_ok.mp h
    obtain ⟨-, rfl⟩ := advanceHead_ok.mp hnext
    obtain ⟨hkeys', hget⟩ := ih hd.2 (OrderedTable.nodup_keys_set hkeys _ _) h
    refine ⟨hkeys', fun account => ?_⟩
    rw [hget, OrderedTable.get_set]
    by_cases ha : account = link.account
    · subst ha
      have hnone : links.find? (·.account = link.account) = none := by
        rw [List.find?_eq_none]
        intro l hl hla
        exact hd.1 (List.mem_map.mpr ⟨l, hl, of_decide_eq_true hla⟩)
      simp [hnone]
    · have hne : ¬ link.account = account := fun he => ha he.symm
      simp [ha, hne]

/-- A verified row moves the heads to the leaves of the rows up to it. -/
theorem HoldsLeaves.advanceRow {before : List StoredPosting} {row : StoredPosting}
    (h : HoldsLeaves heads before) (hlinked : RowLinked digest before row)
    (hadvance : row.links.foldlM (advanceHead row) heads = .ok advanced) :
    HoldsLeaves advanced (before ++ [row]) := by
  obtain ⟨hkeys, hget⟩ := advanceHead_fold hlinked.nodup h.keys hadvance
  refine ⟨hkeys, fun account => ?_⟩
  have hhead := lastHash_linkOf hlinked account
  have htouch := hlinked.touches account
  have hsum : rawSum [row] account = legTotal row.legs account := by
    simp [rawSum, legTotal]
  have hmem : account ∈ (legsOf (before ++ [row])).map Leg.account ↔
      account ∈ (legsOf before).map Leg.account ∨ (row.linkOf account).isSome := by
    rw [legsOf_append, List.map_append, List.mem_append, legsOf_singleton, ← htouch]
  rw [hget, h.get]
  simp only [hmem, hhead, rawSum_append, hsum]
  unfold StoredPosting.linkOf
  cases hf : row.links.find? (·.account = account) with
  | none =>
    have hzero : legTotal row.legs account = 0 := by
      rw [← hsum]
      apply rawSum_eq_zero
      rw [legsOf_singleton, ← htouch]
      simp [StoredPosting.linkOf, hf]
    simp [hzero]
  | some link =>
    by_cases ha : account ∈ (legsOf before).map Leg.account
    · simp [ha]
    · simp [ha, rawSum_eq_zero ha]

theorem HoldsLeaves.advancePage {before eligible : List StoredPosting} (h : HoldsLeaves heads before)
    (hchained : Chained digest (before ++ eligible))
    (hadvance : eligible.foldlM (fun heads row => row.links.foldlM (advanceHead row) heads) heads =
      .ok advanced) : HoldsLeaves advanced (before ++ eligible) := by
  induction eligible generalizing before heads with
  | nil =>
    rw [List.foldlM_nil, except_pure_ok] at hadvance
    rw [← hadvance, List.append_nil]
    exact h
  | cons row eligible ih =>
    rw [List.foldlM_cons] at hadvance
    obtain ⟨next, hnext, hadvance⟩ := except_bind_ok.mp hadvance
    rw [List.append_cons] at hchained ⊢
    exact ih (h.advanceRow hchained.prefix.last hnext) hchained hadvance

/-- Behind a cursor that every row of the log has passed a page is the front of the log. -/
theorem archivePage_front {log : List StoredPosting} {cursor : Option Nat} {limit : Nat}
    {page : ArchivePage} (hpast : ∀ row ∈ log, cursor.all fun seq => seq < row.seq)
    (h : archivePage log cursor limit = .ok page) : page.postings <+: log := by
  have hall : log.filter (fun row => cursor.all fun seq => seq < row.seq) = log := by
    rw [List.filter_eq_self]
    exact hpast
  unfold archivePage at h
  simp only [hall] at h
  split at h
  · split at h
    · cases h
    · cases h
      exact List.take_prefix _ _
  · cases h
    exact List.take_prefix _ _

theorem sealedPrefix_front (postings : List StoredPosting) (sealAt : Int) :
    sealedPrefix postings sealAt <+: postings := List.takeWhile_prefix _

theorem Books.prune_log (s : Books) (page : List StoredPosting) :
    (s.prune page).log = s.log.filter fun row => row.txnId ∉ page.map StoredPosting.txnId := by
  unfold Books.prune pruneFromLog
  simp only
  split
  · rename_i hlen
    exact (List.filter_sublist.eq_of_length hlen).symm
  · rfl

/-- Pruning the front of the log leaves the rest, as long as no id is used twice. -/
theorem prune_front {eligible rest : List StoredPosting}
    (h : ((eligible ++ rest).map StoredPosting.txnId).Nodup) :
    (eligible ++ rest).filter (fun row => row.txnId ∉ eligible.map StoredPosting.txnId) = rest := by
  rw [List.map_append, List.nodup_append] at h
  have hgone : eligible.filter (fun row => row.txnId ∉ eligible.map StoredPosting.txnId) = [] := by
    rw [List.filter_eq_nil_iff]
    intro row hr
    simpa using ⟨row, hr, rfl⟩
  have hleft : rest.filter (fun row => row.txnId ∉ eligible.map StoredPosting.txnId) = rest := by
    rw [List.filter_eq_self]
    intro row hr
    apply decide_eq_true
    intro hm
    exact h.2.2 _ hm _ (List.mem_map_of_mem hr) rfl
  rw [List.filter_append, hgone, hleft, List.nil_append]

/-- The sink holds a copy of every row it was sent, as long as no id is used twice. -/
theorem mem_sinkPut {appended sink page : List StoredPosting}
    (hids : (appended.map StoredPosting.txnId).Nodup) (hsink : ∀ row ∈ sink, row ∈ appended)
    (hpage : ∀ row ∈ page, row ∈ appended) {row : StoredPosting} :
    row ∈ sinkPut sink page ↔ row ∈ sink ∨ row ∈ page := by
  unfold sinkPut
  rw [List.mem_append, List.mem_filter, decide_eq_true_eq]
  constructor
  · rintro (hr | ⟨hr, -⟩)
    · exact Or.inl hr
    · exact Or.inr hr
  · rintro (hr | hr)
    · exact Or.inl hr
    · by_cases hsent : row.txnId ∈ sink.map StoredPosting.txnId
      · obtain ⟨copy, hcopy, hid⟩ := List.mem_map.mp hsent
        have hsame : copy = row := List.inj_on_of_nodup_map hids (hsink copy hcopy) (hpage row hr) hid
        exact Or.inl (hsame ▸ hcopy)
      · exact Or.inr ⟨hr, hsent⟩

/-! ## The cut -/

/-- The rows up to the cut are in the boundary and the sink, the rows past it are the log. -/
structure CutAt (digest : Digest) (signer : Signer) (s : Books) (cut kept : List StoredPosting) :
    Prop where
  log : s.log = kept
  rows : HoldsLeaves s.checkpoints.archiveHeadRows cut
  fresh : s.checkpoints.archive = none → cut = []
  mark : ∀ state, s.checkpoints.archive = some state →
    cut.getLast?.map StoredPosting.seq = some state.throughSeq ∧
    (state.cursor = none ∨ state.cursor = some state.throughSeq) ∧
    verifyArchiveHeads digest signer s.checkpoints.archiveHeads state = .ok true
  copied : ∀ row ∈ cut, row ∈ s.sink
  copies : ∀ row ∈ s.sink, row ∈ cut ++ kept

theorem CutAt.start (digest : Digest) (signer : Signer) : CutAt digest signer Books.start [] [] where
  log := rfl
  rows := HoldsLeaves.empty
  fresh := fun _ => rfl
  mark := by
    intro state h
    cases h
  copied := by simp
  copies := by simp [Books.start]

theorem CutAt.signed {signer : Signer} {s : Books}
    {cut kept eligible : List StoredPosting} (h : CutAt digest signer s cut kept)
    (hsigner : ∀ bytes, signer.verify bytes (signer.sign bytes) = true)
    (hadvanced : HoldsLeaves advanced (cut ++ eligible)) {mark : ArchiveMark}
    {checkpoints : CheckpointStore}
    (hsign : signBoundary digest signer advanced mark s.checkpoints = .ok checkpoints) :
    HoldsLeaves checkpoints.archiveHeadRows (cut ++ eligible) ∧ ∃ state, checkpoints.archive = some state ∧
      state.throughSeq = mark.throughSeq ∧ state.cursor = mark.cursor ∧
      verifyArchiveHeads digest signer checkpoints.archiveHeads state = .ok true := by
  obtain ⟨root, hroot, hzero, rfl⟩ := signBoundary_ok hsign
  have hrows : HoldsLeaves (s.checkpoints.archiveHeadRows.setAll ((leavesOf advanced).map rowOf))
      (cut ++ eligible) := by
    rw [map_rowOf_leavesOf]
    apply hadvanced.of_get (OrderedTable.nodup_keys_setAll h.rows.keys _)
    intro account
    rw [get_setAll_entries hadvanced.keys, hadvanced.get, h.rows.get]
    by_cases ha : account ∈ (legsOf (cut ++ eligible)).map Leg.account
    · rw [if_pos ha, Option.some_or]
    · have hcut : account ∉ (legsOf cut).map Leg.account := by
        intro hm
        apply ha
        rw [legsOf_append, List.map_append, List.mem_append]
        exact Or.inl hm
      rw [if_neg ha, if_neg hcut, Option.none_or]
  refine ⟨hrows, _, rfl, rfl, rfl, ?_⟩
  have hperm := hrows.leaves.trans hadvanced.leaves.symm
  have hsame : merkleSumRoot digest (leavesOf (s.checkpoints.archiveHeadRows.setAll
      ((leavesOf advanced).map rowOf))) = .ok root := by
    rw [merkleSumRoot_perm digest (leavesOf_distinct hrows.keys) hperm]
    exact hroot
  have hpayload : archivePayload root = .ok (ARCHIVE_DOMAIN ++ (root.hash ++ int64Bytes root.sum)) := by
    simp [archivePayload, sumRootPayload_zero hzero, bind, Except.bind, pure, Except.pure]
  simp only [CheckpointStore.archiveHeads, CheckpointStore.putArchiveBoundary, verifyArchiveHeads,
    ArchiveMark.signed, hsame, hpayload, fromHex_toHex, bind, Except.bind, pure, Except.pure, ne_eq,
    not_true_eq_false, if_false, hsigner]

section Moves

variable {digest : Digest} {signer : Signer} {s : Books} {appended cut kept : List StoredPosting}

/-- Every row of the log lies past the last row of the cut. -/
theorem CutAt.past (h : CutAt digest signer s cut kept) (hs : Faithful digest s (cut ++ kept)) :
    ∀ row ∈ s.log, (cut.getLast?.map StoredPosting.seq).all fun seq => seq < row.seq := by
  intro row hr
  rw [h.log] at hr
  cases hl : cut.getLast? with
  | none => rfl
  | some last =>
    simp only [Option.map_some, Option.all_some, decide_eq_true_eq]
    exact (List.pairwise_append.mp hs.ordered).2.2 last (List.mem_of_getLast? hl) row hr

/-- What a page moves is the front of the log, and it advances the heads to the new cut. -/
theorem CutAt.moves (h : CutAt digest signer s cut kept) (hs : Faithful digest s (cut ++ kept))
    {checkpoint : Checkpoint} {input : ArchiveSweepInput} {cursor : Option Nat}
    {eligible : List StoredPosting} {last : StoredPosting} {mark : ArchiveMark}
    (hcursor : cursor = cut.getLast?.map StoredPosting.seq) (hheads : HoldsLeaves heads cut)
    (hmoves : PageMoves digest checkpoint input cursor heads s eligible last advanced mark) :
    ∃ rest, kept = eligible ++ rest ∧ HoldsLeaves advanced (cut ++ eligible) := by
  obtain ⟨page, hpage, heligible⟩ := hmoves.page
  have hfront : eligible <+: s.log := by
    rw [heligible]
    apply (sealedPrefix_front _ _).trans (archivePage_front ?_ hpage)
    rw [hcursor]
    exact h.past hs
  obtain ⟨rest, hrest⟩ := hfront
  rw [h.log] at hrest
  refine ⟨rest, hrest.symm, ?_⟩
  have hchained := hs.chained
  rw [← hrest, ← List.append_assoc] at hchained
  exact hheads.advancePage hchained.prefix (verifyPage_ok hmoves.verified)

theorem CutAt.copy (h : CutAt digest signer s cut kept)
    (hids : ((cut ++ kept).map StoredPosting.txnId).Nodup) {page : List StoredPosting}
    (hpage : ∀ row ∈ page, row ∈ cut ++ kept) :
    CutAt digest signer { s with sink := sinkPut s.sink page } cut kept := by
  have hsink := @mem_sinkPut _ _ _ hids h.copies hpage
  refine ⟨h.log, h.rows, h.fresh, h.mark, ?_, ?_⟩
  · intro row hr
    exact hsink.mpr (Or.inl (h.copied row hr))
  · intro row hr
    rcases hsink.mp hr with hr | hr
    · exact h.copies row hr
    · exact hpage row hr

theorem CutAt.prune {eligible rest : List StoredPosting} (h : CutAt digest signer s cut (eligible ++ rest))
    (hids : ((cut ++ (eligible ++ rest)).map StoredPosting.txnId).Nodup) {last : StoredPosting}
    (hlast : eligible.getLast? = some last) {checkpoints : CheckpointStore}
    (hrows : HoldsLeaves checkpoints.archiveHeadRows (cut ++ eligible)) {state : ArchiveState}
    (hstate : checkpoints.archive = some state) (hthrough : state.throughSeq = last.seq)
    (hcursor : state.cursor = none ∨ state.cursor = some last.seq)
    (hverify : verifyArchiveHeads digest signer checkpoints.archiveHeads state = .ok true) :
    CutAt digest signer (Books.prune { s with sink := sinkPut s.sink eligible, checkpoints } eligible)
      (cut ++ eligible) rest := by
  have hsink := @mem_sinkPut _ _ eligible hids h.copies fun row hr =>
    List.mem_append_right _ (List.mem_append_left _ hr)
  have hrest : ((eligible ++ rest).map StoredPosting.txnId).Nodup := by
    rw [List.map_append] at hids
    exact (List.nodup_append.mp hids).2.1
  constructor
  · rw [Books.prune_log]
    have hlog : Books.log { s with sink := sinkPut s.sink eligible, checkpoints } =
      eligible ++ rest := h.log
    rw [hlog]
    exact prune_front hrest
  · exact hrows
  · intro hnone
    simp only [Books.prune] at hnone
    rw [hstate] at hnone
    cases hnone
  · intro found hfound
    simp only [Books.prune] at hfound
    obtain rfl := Option.some.inj (hstate.symm.trans hfound)
    rw [List.getLast?_append, hlast, hthrough]
    exact ⟨rfl, hcursor, hverify⟩
  · intro row hr
    apply hsink.mpr
    rcases List.mem_append.mp hr with hr | hr
    · exact Or.inl (h.copied row hr)
    · exact Or.inr hr
  · intro row hr
    rw [List.append_assoc]
    rcases hsink.mp hr with hr | hr
    · exact h.copies row hr
    · exact List.mem_append_right _ (List.mem_append_left _ hr)

end Moves

structure CutAfter (digest : Digest) (signer : Signer) (appended : List StoredPosting)
    (outcome : ArchiveOutcome) (s : Books) : Prop where
  cut : ∃ cut kept, appended = cut ++ kept ∧ CutAt digest signer s cut kept ∧
    ∀ summary, outcome = .done summary → ∀ seq, summary.throughSeq = some seq →
      cut.getLast?.map StoredPosting.seq = some seq

theorem archiveSealedPrefix_cut {digest : Digest} {signer : Signer}
    (hsigner : ∀ bytes, signer.verify bytes (signer.sign bytes) = true) {input : ArchiveSweepInput}
    {stop : Option (Nat × ArchiveStop)} (hstop : stop.map Prod.snd ≠ some .afterBoundary) {s : Books}
    {appended cut kept : List StoredPosting} (hs : Faithful digest s appended)
    (hids : (appended.map StoredPosting.txnId).Nodup) (happended : appended = cut ++ kept)
    (h : CutAt digest signer s cut kept) :
    CutAfter digest signer appended (archiveSealedPrefix digest signer input stop s).1
      (archiveSealedPrefix digest signer input stop s).2 := by
  have rule : ArchiveRule digest signer input stop
      (fun summary cursor heads s => Faithful digest s appended ∧ ∃ cut kept, appended = cut ++ kept ∧
        CutAt digest signer s cut kept ∧ HoldsLeaves heads cut ∧
        cursor = cut.getLast?.map StoredPosting.seq ∧ summary.throughSeq = cursor)
      (CutAfter digest signer appended) := by
    constructor
    · rintro summary cursor heads s ⟨-, cut, kept, happended, hcut, -, hcursor, hthrough⟩
      refine ⟨cut, kept, happended, hcut, ?_⟩
      intro found hfound seq hseq
      cases hfound
      rw [← hcursor, ← hthrough]
      exact hseq
    · rintro summary cursor heads s e ⟨-, cut, kept, happended, hcut, -⟩
      refine ⟨cut, kept, happended, hcut, ?_⟩
      intro found hfound
      cases hfound
    · rintro checkpoint summary cursor heads s eligible last advanced mark outcome
        ⟨hs, cut, kept, rfl, hcut, -⟩ hmoves hout
      refine ⟨cut, kept, rfl, hcut.copy hids ?_, ?_⟩
      · intro row hr
        have hlog := hmoves.subset row hr
        rw [hcut.log] at hlog
        exact List.mem_append_right _ hlog
      · rintro found rfl
        rcases hout with hout | ⟨e, hout⟩ <;> cases hout
    · intro _ _ _ _ _ _ _ _ _ _ _ _ _ htorn
      exact absurd htorn hstop
    · rintro checkpoint summary cursor heads s eligible last advanced mark checkpoints
        ⟨hs, cut, kept, rfl, hcut, hheads, hcursor, -⟩ hmoves hsign
      obtain ⟨rest, rfl, hadvanced⟩ := hcut.moves hs hcursor hheads hmoves
      obtain ⟨hrows, state, hstate, hthrough, hmark, hverify⟩ := hcut.signed hsigner hadvanced hsign
      refine ⟨?_, cut ++ eligible, rest, (List.append_assoc _ _ _).symm, ?_, hadvanced, ?_, rfl⟩
      · apply Faithful.prune
        exact hs.of_ledger rfl rfl
      · apply hcut.prune hids hmoves.ends hrows hstate (hthrough.trans hmoves.through) ?_ hverify
        rw [hmark]
        exact hmoves.cursor
      · rw [List.getLast?_append, hmoves.ends]
        rfl
    · rintro summary cursor heads s ⟨-, cut, kept, happended, hcut, -⟩
      refine ⟨cut, kept, happended, hcut, ?_⟩
      intro found hfound
      cases hfound
  apply rule.run
  · intro summary hgate
    refine ⟨cut, kept, happended, h, ?_⟩
    intro found hfound seq hseq
    cases hfound
    unfold eligibleCheckpoint at hgate
    split at hgate
    · cases hgate
      cases hseq
    · split at hgate
      · cases hgate
        cases hseq
      · split at hgate
        · cases hgate
          cases hseq
        · cases hgate
  · intro e
    refine ⟨cut, kept, happended, h, ?_⟩
    intro found hfound
    cases hfound
  · intro heads hheads
    refine ⟨hs, cut, kept, happended, h, ?_, ?_⟩
    · rcases resumeBoundary_ok hheads with ⟨hnone, rfl⟩ | ⟨prior, -, -, rfl⟩
      · rw [h.fresh hnone]
        exact HoldsLeaves.empty
      · exact h.rows.reset
    · cases ha : s.checkpoints.archive with
      | none =>
        rw [h.fresh ha]
        exact ⟨rfl, rfl⟩
      | some state =>
        obtain ⟨hlast, hcursor, -⟩ := h.mark state ha
        rw [hlast]
        rcases hcursor with hcursor | hcursor <;> simp [hcursor]

/-- The process dies between the boundary it signed and the prune. -/
def ChainStep.tearsBoundary : ChainStep → Bool
  | .archive _ stop => stop.map Prod.snd = some .afterBoundary
  | _ => false

/-- The rows of a chronicle are cut between boundary and log. -/
def ArchivedTo (digest : Digest) (signer : Signer) (k : Chronicle) : Prop :=
  ∃ cut kept, k.appended = cut ++ kept ∧ CutAt digest signer k.books cut kept

theorem ChainStep.step_archivedTo {signer : Signer}
    (hsigner : ∀ bytes, signer.verify bytes (signer.sign bytes) = true) {k : Chronicle}
    (hk : Faithful digest k.books k.appended) (hids : (k.appended.map StoredPosting.txnId).Nodup)
    (h : ArchivedTo digest signer k) {c : ChainStep} (hc : c.tearsBoundary = false) :
    ArchivedTo digest signer (c.step digest signer k) := by
  obtain ⟨cut, kept, happended, hcut⟩ := h
  cases c with
  | post now posting =>
    simp only [ChainStep.step]
    rcases Books.post_cases digest now posting k.books with ⟨e, ledger, hpost, hbook, -⟩ |
      ⟨row, next, ledger, -, -, -, -, -, -, htables, -, hpost⟩
    · rw [hpost]
      refine ⟨cut, kept, happended, ?_, hcut.rows, hcut.fresh, hcut.mark, hcut.copied, hcut.copies⟩
      simp only [Books.log, MemoryLedger.tables, hbook]
      exact hcut.log
    · rw [hpost]
      have hlog : ledger.tables.log = k.books.log ++ [row] := by
        rw [htables]
        rfl
      refine ⟨cut, kept ++ [row], ?_, ?_, hcut.rows, hcut.fresh, hcut.mark, hcut.copied, ?_⟩
      · simp [Books.log, hlog, happended]
      · simp [Books.log, hlog, ← hcut.log]
      · intro copy hr
        rw [← List.append_assoc]
        exact List.mem_append_left _ (hcut.copies copy hr)
  | checkpoint now id crashed =>
    simp only [ChainStep.step]
    cases hsign : signCheckpoint digest signer k.books.view k.books.checkpoints now id with
    | error e => exact ⟨cut, kept, happended, hcut⟩
    | ok signed =>
      obtain ⟨checkpoint, plan, leaves⟩ := signed
      simp only [Books.record_ok hsign crashed]
      exact ⟨cut, kept, happended, hcut.log, hcut.rows, hcut.fresh, hcut.mark, hcut.copied, hcut.copies⟩
  | archive input stop =>
    have hstop : stop.map Prod.snd ≠ some .afterBoundary := of_decide_eq_false hc
    have hrun : CutAfter digest signer k.appended
        (archiveSealedPrefix digest signer input stop k.books).1
        (archiveSealedPrefix digest signer input stop k.books).2 :=
      archiveSealedPrefix_cut hsigner hstop hk hids happended hcut
    obtain ⟨cut', kept', happended', hcut', -⟩ := hrun.cut
    exact ⟨cut', kept', happended', hcut'⟩

theorem runBooks_archivedTo {signer : Signer}
    (hsigner : ∀ bytes, signer.verify bytes (signer.sign bytes) = true) {steps : List ChainStep}
    (hids : ((runBooks digest signer steps).appended.map StoredPosting.txnId).Nodup)
    (hwhole : ∀ c ∈ steps, c.tearsBoundary = false) :
    ArchivedTo digest signer (runBooks digest signer steps) := by
  have key : ∀ k : Chronicle, Faithful digest k.books k.appended → ArchivedTo digest signer k →
      ((steps.foldl (ChainStep.step digest signer) k).appended.map StoredPosting.txnId).Nodup →
      ArchivedTo digest signer (steps.foldl (ChainStep.step digest signer) k) := by
    clear hids
    induction steps with
    | nil => exact fun k _ h _ => h
    | cons c steps ih =>
      intro k hk h hids
      have hsofar : (k.appended.map StoredPosting.txnId).Nodup := by
        obtain ⟨more, hmore⟩ := foldl_appended digest signer (c :: steps) k
        rw [hmore, List.map_append] at hids
        exact (List.nodup_append.mp hids).1
      exact ih (fun c' hc => hwhole c' (List.mem_cons_of_mem _ hc)) _ (c.step_faithful hk)
        (c.step_archivedTo hsigner hk hsofar h (hwhole c List.mem_cons_self)) hids
  exact key _ (Faithful.start digest) ⟨[], [], rfl, CutAt.start digest signer⟩ hids

end EconomyLab

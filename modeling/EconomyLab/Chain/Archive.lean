import EconomyLab.Chain.Books

/-!
# Archiving the sealed prefix

A run verifies a page of the oldest postings, copies it to the sink, signs the advanced
boundary and prunes the page, until nothing sealed is left. A process may stop between any
two of these writes.
-/

namespace EconomyLab

open Foundation

structure ArchivePage where
  postings : List StoredPosting
  cursor : Option Nat

/-- An empty page of a log with rows left reads the `seq` of a row it does not have. -/
def archivePage (log : List StoredPosting) (cursor : Option Nat) (limit : Nat) :
    Except Fault ArchivePage :=
  let eligible := log.filter fun row => cursor.all fun seq => seq < row.seq
  let page := eligible.take limit
  if page.length < eligible.length then
    match page.getLast? with
    | none => .error (plainError "Cannot read properties of undefined (reading 'seq')")
    | some last => .ok ⟨page, some last.seq⟩
  else .ok ⟨page, none⟩

def sealedPrefix (postings : List StoredPosting) (sealAt : Int) : List StoredPosting :=
  postings.takeWhile fun posting => posting.postedAt ≤ sealAt

structure ArchiveSweepInput where
  checkpointOlderThanMs : Int
  limit : Nat
  now : Int

structure ArchiveSummary where
  moved : Nat
  throughSeq : Option Nat
  finished : Bool
  skipped : Bool
  reason : Option String

def eligibleCheckpoint (store : CheckpointStore) (input : ArchiveSweepInput) :
    Checkpoint ⊕ ArchiveSummary :=
  match store.latest with
  | none => .inr ⟨0, none, false, true, some "no v2 sum-carrying checkpoint to archive under"⟩
  | some checkpoint =>
    if checkpoint.v ≠ .v2 then
      .inr ⟨0, none, false, true, some "no v2 sum-carrying checkpoint to archive under"⟩
    else if input.now - checkpoint.takenAt < input.checkpointOlderThanMs then
      .inr ⟨0, none, true, false, some ("the latest checkpoint is " ++
        toString (input.now - checkpoint.takenAt) ++
        "ms old; archival waits for one older than the checkpointOlderThanMs bound (" ++
        toString input.checkpointOlderThanMs ++ "ms)")⟩
    else .inl checkpoint

def unverifiedSeal : Fault :=
  fault .chainBroken ("The seal-head snapshot failed authentication against the signed checkpoint; " ++
    "refusing to archive under an unverified seal.")

def authenticateSeal (digest : Digest) (signer : Signer) (store : CheckpointStore)
    (checkpoint : Checkpoint) : Except Fault Unit := do
  let root ← merkleSumRoot digest store.sealHeads
  if toHex root.hash ≠ checkpoint.root ∨ store.sealHeads.length ≠ checkpoint.count then
    .error unverifiedSeal
  else if signer.verify (← sumRootPayload root) (← fromHex checkpoint.signature) then return ()
  else .error unverifiedSeal

/-- The signed archive heads are the continuity baseline. -/
def resumeBoundary (digest : Digest) (signer : Signer) (store : CheckpointStore) :
    Except Fault HeadRows :=
  match store.archive with
  | none => .ok OrderedTable.empty
  | some prior => do
    if ← verifyArchiveHeads digest signer store.archiveHeads prior then
      return OrderedTable.empty.setAll (store.archiveHeads.map rowOf)
    else .error (fault .chainBroken
      ("The archive heads failed authentication against their signed root; refusing to archive over a " ++
        "tampered boundary."))

def legTotal (legs : List Leg) (account : AccountRef) : Int := total (rawAmounts legs) account

def advanceHead (posting : StoredPosting) (heads : HeadRows) (link : Link) : Except Fault HeadRows :=
  let prior := heads.get link.account
  if link.prevHash ≠ (prior.map HeadSum.head).getD GENESIS_HEX then
    .error (fault .chainBroken ("An archival page does not extend the signed archive boundary; " ++
      "refusing to move discontinuous history."))
  else .ok (heads.set link.account
    ⟨link.hash, (prior.map HeadSum.sum).getD 0 + legTotal posting.legs link.account⟩)

def reproveLinks (digest : Digest) : List (AccountRef × StoredLink) → Except Fault (Option ChainBreak)
  | [] => .ok none
  | (account, link) :: links => do
    let recomputed ← recomputeLink digest account link
    if recomputed ≠ link.hash then
      return some ⟨account, link.txnId, .tamperedHash, recomputed, link.hash⟩
    else reproveLinks digest links

def pageLinks (eligible : List StoredPosting) : List (AccountRef × StoredLink) :=
  eligible.flatMap fun row => row.links.map fun link =>
    (link.account, ⟨row.txnId, row.legs, row.fields, link.prevHash, link.hash⟩)

def verifyPage (digest : Digest) (eligible : List StoredPosting) (heads : HeadRows) :
    Except Fault HeadRows := do
  let advanced ← eligible.foldlM (fun heads row => row.links.foldlM (advanceHead row) heads) heads
  match ← reproveLinks digest (pageLinks eligible) with
  | none => return advanced
  | some _ => .error (fault .chainBroken
    "An archival page failed to re-derive from its own content; refusing to move edited history.")

/-! ## Moving a page -/

inductive ArchiveStop
  | afterSinkPut
  | afterBoundary
  | afterPrune
deriving DecidableEq, Repr

inductive ArchiveOutcome
  | done (summary : ArchiveSummary)
  | failed (e : Fault)
  | stopped

/-- The sink keeps one copy a transaction, however often a page is sent. -/
def sinkPut (sink page : List StoredPosting) : List StoredPosting :=
  sink ++ page.filter fun posting => posting.txnId ∉ sink.map StoredPosting.txnId

/-- The state of a boundary before its heads are signed. -/
structure ArchiveMark where
  throughSeq : Nat
  cursor : Option Nat
  checkpointId : String
  takenAt : Int

def ArchiveMark.signed (mark : ArchiveMark) (root signature : String) : ArchiveState :=
  ⟨mark.throughSeq, mark.cursor, root, signature, mark.checkpointId, mark.takenAt⟩

/-- `sealAndPrune` up to the prune: the advanced heads are signed and stored. -/
def signBoundary (digest : Digest) (signer : Signer) (heads : HeadRows) (mark : ArchiveMark)
    (store : CheckpointStore) : Except Fault CheckpointStore := do
  let root ← merkleSumRoot digest (leavesOf heads)
  if root.sum ≠ 0 then
    .error (fault .ledgerUnbalanced
      "The archive-head sums do not net to zero; refusing to prune under an unbalanced boundary.")
  else
    let signature := toHex (signer.sign (← archivePayload root))
    return store.putArchiveBoundary (mark.signed (toHex root.hash) signature) (leavesOf heads)

def Books.prune (s : Books) (page : List StoredPosting) : Books :=
  { s with ledger := pruneFromLog (page.map StoredPosting.txnId) s.ledger }

/-- The writes of one page, in order. -/
def sealAndPrune (digest : Digest) (signer : Signer) (heads : HeadRows) (eligible : List StoredPosting)
    (mark : ArchiveMark) (stop : Option ArchiveStop) (s : Books) : Option ArchiveOutcome × Books :=
  let copied := { s with sink := sinkPut s.sink eligible }
  if stop = some .afterSinkPut then (some .stopped, copied)
  else
    match signBoundary digest signer heads mark s.checkpoints with
    | .error e => (some (.failed e), copied)
    | .ok checkpoints =>
      let signed := { copied with checkpoints }
      if stop = some .afterBoundary then (some .stopped, signed)
      else
        let pruned := signed.prune eligible
        if stop = some .afterPrune then (some .stopped, pruned) else (none, pruned)

/-- The loop, with the pages that may still come as fuel; `stop` counts the pages before it. -/
def archivePages (digest : Digest) (signer : Signer) (checkpoint : Checkpoint)
    (input : ArchiveSweepInput) :
    Nat → Option (Nat × ArchiveStop) → ArchiveSummary → Option Nat → HeadRows → Books →
    ArchiveOutcome × Books
  | 0, _, _, _, _, s => (.failed (plainError "out of pages"), s)
  | fuel + 1, stop, summary, cursor, heads, s =>
    match archivePage s.log cursor input.limit with
    | .error e => (.failed e, s)
    | .ok page =>
      let eligible := sealedPrefix page.postings checkpoint.takenAt
      match eligible.getLast? with
      | none => (.done { summary with finished := true }, s)
      | some last =>
        match verifyPage digest eligible heads with
        | .error e => (.failed e, s)
        | .ok advanced =>
          let short := page.cursor.isNone || eligible.length < page.postings.length
          let mark : ArchiveMark :=
            ⟨last.seq, if short then none else some last.seq, checkpoint.id, input.now⟩
          let here := (stop.filter fun at_ => at_.1 = 0).map Prod.snd
          match sealAndPrune digest signer advanced eligible mark here s with
          | (some outcome, s') => (outcome, s')
          | (none, s') =>
            let moved := { summary with
              moved := summary.moved + eligible.length
              throughSeq := some last.seq }
            if short then (.done { moved with finished := true }, s')
            else archivePages digest signer checkpoint input fuel
              (stop.map fun at_ => (at_.1 - 1, at_.2)) moved (some last.seq) advanced s'

/-- One run; `stop` says after how many pages and where in the next one the process dies. -/
def archiveSealedPrefix (digest : Digest) (signer : Signer) (input : ArchiveSweepInput)
    (stop : Option (Nat × ArchiveStop)) (s : Books) : ArchiveOutcome × Books :=
  match eligibleCheckpoint s.checkpoints input with
  | .inr summary => (.done summary, s)
  | .inl checkpoint =>
    match authenticateSeal digest signer s.checkpoints checkpoint,
        resumeBoundary digest signer s.checkpoints with
    | .ok (), .ok heads =>
      let prior := s.checkpoints.archive
      let throughSeq := prior.map ArchiveState.throughSeq
      let cursor := (prior.bind ArchiveState.cursor).or throughSeq
      archivePages digest signer checkpoint input (s.log.length + 1) stop
        ⟨0, throughSeq, false, false, none⟩ cursor heads s
    | .error e, _ => (.failed e, s)
    | .ok (), .error e => (.failed e, s)

theorem foldlM_keeps {ε α β : Type} {f : β → α → Except ε β} {P : β → Prop} {xs : List α} {b b' : β}
    (hstep : ∀ b a b', a ∈ xs → P b → f b a = .ok b' → P b') (h : xs.foldlM f b = .ok b') (hb : P b) :
    P b' := by
  induction xs generalizing b with
  | nil =>
    rw [List.foldlM_nil, except_pure_ok] at h
    exact h ▸ hb
  | cons x xs ih =>
    rw [List.foldlM_cons] at h
    obtain ⟨next, hnext, h⟩ := except_bind_ok.mp h
    apply ih (fun b a b' ha => hstep b a b' (List.mem_cons_of_mem _ ha)) h
    exact hstep b x next List.mem_cons_self hb hnext

variable {digest : Digest} {signer : Signer} {heads advanced : HeadRows}

theorem advanceHead_ok {posting : StoredPosting} {link : Link} :
    advanceHead posting heads link = .ok advanced ↔
      link.prevHash = ((heads.get link.account).map HeadSum.head).getD GENESIS_HEX ∧
      advanced = heads.set link.account ⟨link.hash,
        ((heads.get link.account).map HeadSum.sum).getD 0 + legTotal posting.legs link.account⟩ := by
  unfold advanceHead
  simp only
  split
  · rename_i hne
    simp [hne]
  · rename_i heq
    simp only [ne_eq, not_not] at heq
    simp [heq, eq_comm]

variable {input : ArchiveSweepInput} {cursor : Option Nat} {eligible : List StoredPosting}
  {s : Books}

theorem verifyPage_ok (h : verifyPage digest eligible heads = .ok advanced) :
    eligible.foldlM (fun heads row => row.links.foldlM (advanceHead row) heads) heads = .ok advanced := by
  unfold verifyPage at h
  obtain ⟨reached, hreached, h⟩ := except_bind_ok.mp h
  obtain ⟨broken, -, h⟩ := except_bind_ok.mp h
  cases broken with
  | some broken => cases h
  | none =>
    rw [except_pure_ok] at h
    exact h ▸ hreached

theorem verifyPage_keys (h : verifyPage digest eligible heads = .ok advanced) {P : AccountRef → Prop}
    (hlinks : ∀ row ∈ eligible, ∀ link ∈ row.links, P link.account)
    (hheads : heads.keys.Nodup ∧ ∀ a ∈ heads.keys, P a) :
    advanced.keys.Nodup ∧ ∀ a ∈ advanced.keys, P a := by
  apply foldlM_keeps (P := fun t : HeadRows => t.keys.Nodup ∧ ∀ a ∈ t.keys, P a) ?_
    (verifyPage_ok h) hheads
  intro rows row next hrow hrows hnext
  apply foldlM_keeps (P := fun t : HeadRows => t.keys.Nodup ∧ ∀ a ∈ t.keys, P a) ?_ hnext hrows
  intro t link t' hlink ht ht'
  obtain ⟨-, rfl⟩ := advanceHead_ok.mp ht'
  refine ⟨OrderedTable.nodup_keys_set ht.1 _ _, ?_⟩
  intro a ha
  rcases OrderedTable.mem_keys_set.mp ha with rfl | ha
  · exact hlinks row hrow link hlink
  · exact ht.2 a ha

theorem signBoundary_ok {mark : ArchiveMark}
    {store signed : CheckpointStore} (h : signBoundary digest signer heads mark store = .ok signed) :
    ∃ root, merkleSumRoot digest (leavesOf heads) = .ok root ∧ root.sum = 0 ∧
      signed = store.putArchiveBoundary (mark.signed (toHex root.hash)
        (toHex (signer.sign (ARCHIVE_DOMAIN ++ (root.hash ++ int64Bytes root.sum)))))
          (leavesOf heads) := by
  unfold signBoundary at h
  obtain ⟨root, hroot, h⟩ := except_bind_ok.mp h
  by_cases hz : root.sum = 0
  · have hpayload : archivePayload root = .ok (ARCHIVE_DOMAIN ++ (root.hash ++ int64Bytes root.sum)) := by
      simp [archivePayload, sumRootPayload_zero hz, bind, Except.bind, pure, Except.pure]
    rw [if_neg (not_not.mpr hz), hpayload] at h
    exact ⟨root, hroot, hz, (Except.ok.inj h).symm⟩
  · rw [if_pos hz] at h
    cases h

theorem resumeBoundary_ok {store : CheckpointStore}
    (h : resumeBoundary digest signer store = .ok heads) :
    (store.archive = none ∧ heads = OrderedTable.empty) ∨
    (∃ prior, store.archive = some prior ∧
      verifyArchiveHeads digest signer store.archiveHeads prior = .ok true ∧
      heads = OrderedTable.empty.setAll (store.archiveHeads.map rowOf)) := by
  unfold resumeBoundary at h
  cases ha : store.archive with
  | none =>
    rw [ha] at h
    exact Or.inl ⟨rfl, (Except.ok.inj h).symm⟩
  | some prior =>
    rw [ha] at h
    obtain ⟨ok, hok, h⟩ := except_bind_ok.mp h
    cases ok with
    | false => cases h
    | true => exact Or.inr ⟨prior, rfl, hok, (Except.ok.inj h).symm⟩

theorem sealedPrefix_sublist (postings : List StoredPosting) (sealAt : Int) :
    (sealedPrefix postings sealAt).Sublist postings := List.takeWhile_sublist _

theorem archivePage_sublist {log : List StoredPosting} {limit : Nat}
    {page : ArchivePage} (h : archivePage log cursor limit = .ok page) : page.postings.Sublist log := by
  unfold archivePage at h
  simp only at h
  split at h
  · split at h
    · cases h
    · cases h
      exact (List.take_sublist _ _).trans List.filter_sublist
  · cases h
    exact (List.take_sublist _ _).trans List.filter_sublist

structure PageMoves (digest : Digest) (checkpoint : Checkpoint) (input : ArchiveSweepInput)
    (cursor : Option Nat) (heads : HeadRows) (s : Books) (eligible : List StoredPosting)
    (last : StoredPosting) (advanced : HeadRows) (mark : ArchiveMark) : Prop where
  page : ∃ page, archivePage s.log cursor input.limit = .ok page ∧
    eligible = sealedPrefix page.postings checkpoint.takenAt
  ends : eligible.getLast? = some last
  verified : verifyPage digest eligible heads = .ok advanced
  through : mark.throughSeq = last.seq
  cursor : mark.cursor = none ∨ mark.cursor = some last.seq

/-- `P` is what holds in front of every page, `Q` what holds wherever the run ends. -/
structure ArchiveRule (digest : Digest) (signer : Signer) (input : ArchiveSweepInput)
    (stop : Option (Nat × ArchiveStop)) (P : ArchiveSummary → Option Nat → HeadRows → Books → Prop)
    (Q : ArchiveOutcome → Books → Prop) : Prop where
  done : ∀ {summary cursor heads s}, P summary cursor heads s →
    Q (.done { summary with finished := true }) s
  failed : ∀ {summary cursor heads s} e, P summary cursor heads s → Q (.failed e) s
  copied : ∀ {checkpoint summary cursor heads s eligible last advanced mark} outcome,
    P summary cursor heads s →
    PageMoves digest checkpoint input cursor heads s eligible last advanced mark →
    (outcome = .stopped ∨ ∃ e, outcome = .failed e) → Q outcome { s with sink := sinkPut s.sink eligible }
  signed : ∀ {checkpoint summary cursor heads s eligible last advanced mark checkpoints},
    P summary cursor heads s →
    PageMoves digest checkpoint input cursor heads s eligible last advanced mark →
    signBoundary digest signer advanced mark s.checkpoints = .ok checkpoints →
    stop.map Prod.snd = some .afterBoundary →
    Q .stopped { s with sink := sinkPut s.sink eligible, checkpoints }
  pruned : ∀ {checkpoint summary cursor heads s eligible last advanced mark checkpoints},
    P summary cursor heads s →
    PageMoves digest checkpoint input cursor heads s eligible last advanced mark →
    signBoundary digest signer advanced mark s.checkpoints = .ok checkpoints →
    P { summary with moved := summary.moved + eligible.length, throughSeq := some last.seq }
      (some last.seq)
      advanced (Books.prune { s with sink := sinkPut s.sink eligible, checkpoints } eligible)
  stopped : ∀ {summary cursor heads s}, P summary cursor heads s → Q .stopped s

/-- Where the writes of one page can end. -/
theorem sealAndPrune_cases (digest : Digest) (signer : Signer) (heads : HeadRows)
    (eligible : List StoredPosting) (mark : ArchiveMark) (stop : Option ArchiveStop) (s : Books) :
    (∃ outcome, (outcome = .stopped ∨ ∃ e, outcome = .failed e) ∧
      sealAndPrune digest signer heads eligible mark stop s =
        (some outcome, { s with sink := sinkPut s.sink eligible })) ∨
    (∃ checkpoints, signBoundary digest signer heads mark s.checkpoints = .ok checkpoints ∧
      ((stop = some .afterBoundary ∧ sealAndPrune digest signer heads eligible mark stop s =
          (some .stopped, { s with sink := sinkPut s.sink eligible, checkpoints })) ∨
        ∃ outcome, (outcome = none ∨ outcome = some .stopped) ∧
          sealAndPrune digest signer heads eligible mark stop s =
            (outcome, Books.prune { s with sink := sinkPut s.sink eligible, checkpoints } eligible))) := by
  by_cases hsink : stop = some .afterSinkPut
  · exact Or.inl ⟨.stopped, Or.inl rfl, by simp [sealAndPrune, hsink]⟩
  · cases hsign : signBoundary digest signer heads mark s.checkpoints with
    | error e => exact Or.inl ⟨.failed e, Or.inr ⟨e, rfl⟩, by simp [sealAndPrune, hsink, hsign]⟩
    | ok checkpoints =>
      refine Or.inr ⟨checkpoints, rfl, ?_⟩
      by_cases hboundary : stop = some .afterBoundary
      · exact Or.inl ⟨hboundary, by simp [sealAndPrune, hboundary, hsign]⟩
      · right
        by_cases hprune : stop = some .afterPrune
        · exact ⟨some .stopped, Or.inr rfl, by simp [sealAndPrune, hprune, hsign]⟩
        · exact ⟨none, Or.inl rfl, by simp [sealAndPrune, hsink, hboundary, hprune, hsign]⟩

theorem PageMoves.subset {checkpoint : Checkpoint} {last : StoredPosting} {mark : ArchiveMark}
    (h : PageMoves digest checkpoint input cursor heads s eligible last advanced mark) :
    ∀ row ∈ eligible, row ∈ s.log := by
  obtain ⟨page, hpage, rfl⟩ := h.page
  exact fun row hr => (archivePage_sublist hpage).subset ((sealedPrefix_sublist _ _).subset hr)

/-- `ArchiveRule` for the pages of one checkpoint. -/
structure PageRule (digest : Digest) (signer : Signer) (checkpoint : Checkpoint)
    (input : ArchiveSweepInput) (stop : Option (Nat × ArchiveStop))
    (P : ArchiveSummary → Option Nat → HeadRows → Books → Prop) (Q : ArchiveOutcome → Books → Prop) :
    Prop where
  done : ∀ {summary cursor heads s}, P summary cursor heads s →
    Q (.done { summary with finished := true }) s
  failed : ∀ {summary cursor heads s} e, P summary cursor heads s → Q (.failed e) s
  copied : ∀ {summary cursor heads s eligible last advanced mark} outcome, P summary cursor heads s →
    PageMoves digest checkpoint input cursor heads s eligible last advanced mark →
    (outcome = .stopped ∨ ∃ e, outcome = .failed e) → Q outcome { s with sink := sinkPut s.sink eligible }
  signed : ∀ {summary cursor heads s eligible last advanced mark checkpoints}, P summary cursor heads s →
    PageMoves digest checkpoint input cursor heads s eligible last advanced mark →
    signBoundary digest signer advanced mark s.checkpoints = .ok checkpoints →
    stop.map Prod.snd = some .afterBoundary →
    Q .stopped { s with sink := sinkPut s.sink eligible, checkpoints }
  pruned : ∀ {summary cursor heads s eligible last advanced mark checkpoints}, P summary cursor heads s →
    PageMoves digest checkpoint input cursor heads s eligible last advanced mark →
    signBoundary digest signer advanced mark s.checkpoints = .ok checkpoints →
    P { summary with moved := summary.moved + eligible.length, throughSeq := some last.seq }
      (some last.seq)
      advanced (Books.prune { s with sink := sinkPut s.sink eligible, checkpoints } eligible)
  stopped : ∀ {summary cursor heads s}, P summary cursor heads s → Q .stopped s

theorem ArchiveRule.under
    {stop : Option (Nat × ArchiveStop)} {P : ArchiveSummary → Option Nat → HeadRows → Books → Prop}
    {Q : ArchiveOutcome → Books → Prop} (rule : ArchiveRule digest signer input stop P Q)
    (checkpoint : Checkpoint) : PageRule digest signer checkpoint input stop P Q :=
  ⟨rule.done, rule.failed, rule.copied, rule.signed, rule.pruned, rule.stopped⟩

theorem PageRule.pages
    {P : ArchiveSummary → Option Nat → HeadRows → Books → Prop} {Q : ArchiveOutcome → Books → Prop}
    {stop₀ : Option (Nat × ArchiveStop)} {checkpoint : Checkpoint}
    (rule : PageRule digest signer checkpoint input stop₀ P Q) (fuel : Nat)
    {stop : Option (Nat × ArchiveStop)} (hstop : stop.map Prod.snd = stop₀.map Prod.snd)
    {summary : ArchiveSummary}
    (h : P summary cursor heads s) :
    Q (archivePages digest signer checkpoint input fuel stop summary cursor heads s).1
      (archivePages digest signer checkpoint input fuel stop summary cursor heads s).2 := by
  induction fuel generalizing stop summary cursor heads s with
  | zero => exact rule.failed _ h
  | succ fuel ih =>
    unfold archivePages
    split
    · exact rule.failed _ h
    · rename_i page hpage
      simp only
      split
      · exact rule.done h
      · rename_i last hlast
        split
        · exact rule.failed _ h
        · rename_i advanced hverify
          generalize (page.cursor.isNone ||
            (sealedPrefix page.postings checkpoint.takenAt).length < page.postings.length) = short
          have hmoves : PageMoves digest checkpoint input cursor heads s
              (sealedPrefix page.postings checkpoint.takenAt) last advanced
              ⟨last.seq, if short then none else some last.seq, checkpoint.id, input.now⟩ := by
            refine ⟨⟨page, hpage, rfl⟩, hlast, hverify, rfl, ?_⟩
            cases short <;> simp
          rcases sealAndPrune_cases digest signer advanced (sealedPrefix page.postings checkpoint.takenAt)
            ⟨last.seq, if short then none else some last.seq, checkpoint.id, input.now⟩
            ((stop.filter fun at_ => at_.1 = 0).map Prod.snd) s with
            ⟨outcome, hout, hres⟩ | ⟨checkpoints, hsign, ⟨hboundary, hres⟩ | ⟨outcome, rfl | rfl, hres⟩⟩
          · rw [hres]
            exact rule.copied outcome h hmoves hout
          · rw [hres]
            apply rule.signed h hmoves hsign
            obtain ⟨at_, hat, hkind⟩ := Option.map_eq_some_iff.mp hboundary
            rw [← hstop, (Option.filter_eq_some_iff.mp hat).1, Option.map_some, hkind]
          · have hpruned := rule.pruned h hmoves hsign
            rw [hres]
            cases short with
            | true => exact rule.done hpruned
            | false =>
              apply ih ?_ hpruned
              rw [← hstop]
              cases stop <;> rfl
          · rw [hres]
            exact rule.stopped (rule.pruned h hmoves hsign)

/-- The rule for a whole run: what the gate answers, what a fault leaves, and the first page. -/
theorem PageRule.run {digest : Digest} {signer : Signer} {input : ArchiveSweepInput}
    {P : Checkpoint → ArchiveSummary → Option Nat → HeadRows → Books → Prop}
    {Q : ArchiveOutcome → Books → Prop}
    {stop : Option (Nat × ArchiveStop)} {s : Books}
    (rule : ∀ checkpoint, PageRule digest signer checkpoint input stop (P checkpoint) Q)
    (hgate : ∀ summary, eligibleCheckpoint s.checkpoints input = .inr summary → Q (.done summary) s)
    (hfault : ∀ e, Q (.failed e) s)
    (hstart : ∀ checkpoint heads, eligibleCheckpoint s.checkpoints input = .inl checkpoint →
      authenticateSeal digest signer s.checkpoints checkpoint = .ok () →
      resumeBoundary digest signer s.checkpoints = .ok heads →
      P checkpoint ⟨0, s.checkpoints.archive.map ArchiveState.throughSeq, false, false, none⟩
        ((s.checkpoints.archive.bind ArchiveState.cursor).or
          (s.checkpoints.archive.map ArchiveState.throughSeq)) heads s) :
    Q (archiveSealedPrefix digest signer input stop s).1
      (archiveSealedPrefix digest signer input stop s).2 := by
  unfold archiveSealedPrefix
  split
  · rename_i summary hsummary
    exact hgate summary hsummary
  · rename_i checkpoint hcheckpoint
    split
    · rename_i heads hauth hheads
      exact (rule checkpoint).pages _ rfl (hstart checkpoint heads hcheckpoint hauth hheads)
    · exact hfault _
    · exact hfault _

theorem ArchiveRule.run {digest : Digest} {signer : Signer} {input : ArchiveSweepInput}
    {P : ArchiveSummary → Option Nat → HeadRows → Books → Prop} {Q : ArchiveOutcome → Books → Prop}
    {stop : Option (Nat × ArchiveStop)} (rule : ArchiveRule digest signer input stop P Q) {s : Books}
    (hgate : ∀ summary, eligibleCheckpoint s.checkpoints input = .inr summary → Q (.done summary) s)
    (hfault : ∀ e, Q (.failed e) s)
    (hstart : ∀ heads, resumeBoundary digest signer s.checkpoints = .ok heads →
      P ⟨0, s.checkpoints.archive.map ArchiveState.throughSeq, false, false, none⟩
        ((s.checkpoints.archive.bind ArchiveState.cursor).or
          (s.checkpoints.archive.map ArchiveState.throughSeq)) heads s) :
    Q (archiveSealedPrefix digest signer input stop s).1
      (archiveSealedPrefix digest signer input stop s).2 :=
  PageRule.run (fun checkpoint => rule.under checkpoint) hgate hfault fun _ heads _ _ hheads =>
    hstart heads hheads

/-- A property that no write of the mover can break holds after a run, wherever it stops. -/
theorem archiveSealedPrefix_keeps {P : Books → Prop} (digest : Digest) (signer : Signer)
    (hsink : ∀ s page, P s → P { s with sink := sinkPut s.sink page })
    (hsigned : ∀ s checkpoints, P s → P { s with checkpoints })
    (hprune : ∀ s page, P s → P (s.prune page)) (input : ArchiveSweepInput)
    (stop : Option (Nat × ArchiveStop)) (h : P s) :
    P (archiveSealedPrefix digest signer input stop s).2 := by
  have rule : ArchiveRule digest signer input stop (fun _ _ _ s => P s) (fun _ s => P s) := by
    constructor
    · exact fun hs => hs
    · exact fun _ hs => hs
    · exact fun _ hs _ _ => hsink _ _ hs
    · exact fun hs _ _ _ => hsigned _ _ (hsink _ _ hs)
    · exact fun hs _ _ => hprune _ _ (hsigned _ _ (hsink _ _ hs))
    · exact fun hs => hs
  exact rule.run (fun _ _ => h) (fun _ => h) (fun _ _ => h)

end EconomyLab

import EconomyLab.Ledger.Exact

/-!
# What the indexes say about the log

A history is what the ledger is for: the postings committed and not rolled back, and
those of them that no prune removed. Every index is a function of the history, so the
ledger simulates a value that only keeps histories.
-/

namespace EconomyLab

open Foundation

/-- The postings that stand, and the ones still in the log. -/
structure History where
  appended : List StoredPosting
  kept : List StoredPosting

def History.empty : History := ⟨[], []⟩

def History.append (h : History) (row : StoredPosting) : History :=
  ⟨h.appended ++ [row], h.kept ++ [row]⟩

def History.prune (h : History) (txnIds : List String) : History :=
  { h with kept := h.kept.filter (·.txnId ∉ txnIds) }

def legsOf (rows : List StoredPosting) : List Leg := rows.flatMap StoredPosting.legs

@[simp] theorem legsOf_append (rows rows' : List StoredPosting) :
    legsOf (rows ++ rows') = legsOf rows ++ legsOf rows' := by
  simp [legsOf]

@[simp] theorem legsOf_singleton (row : StoredPosting) : legsOf [row] = row.legs := by
  simp [legsOf]

def lastLink (rows : List StoredPosting) (a : AccountRef) : Option Link :=
  ((rows.flatMap StoredPosting.links).filter (·.account = a)).getLast?

def raises (legs : List Leg) (a : AccountRef) : Bool :=
  legs.any fun leg => leg.account = a && 0 < leg.delta

def raisingPositions (log : List StoredPosting) (a : AccountRef) : List Nat :=
  (log.zipIdx.filter fun row => raises row.1.legs a).map Prod.snd

structure Indexes (t : LedgerTables) (h : History) : Prop where
  log : t.log = h.kept
  kept : h.kept.Sublist h.appended
  zeroSum : ∀ row ∈ h.appended, ZeroSum row.legs
  balances : ∀ a, t.balances.get a = if a ∈ (legsOf h.appended).map Leg.account
    then some (total (deltas (legsOf h.appended)) a) else none
  heads : ∀ a, t.heads.get a = (lastLink h.appended a).map Link.hash
  lots : ∀ a, t.lotIndexByAccount.get a = nonEmpty (raisingPositions h.kept a)
  columns : ∀ a c, columnEntries t.deltaColumns a c = columnDeltas (legsOf h.kept) a c
  compact : CompactColumns t.deltaColumns

variable {t : LedgerTables} {h : History}

theorem Indexes.noEmptyLots (hi : Indexes t h) : NoEmptyLots t.lotIndexByAccount := by
  intro a
  rw [hi.lots]
  exact nonEmpty_ne_nil _

theorem Indexes.empty : Indexes LedgerTables.empty History.empty where
  log := rfl
  kept := List.Sublist.refl _
  zeroSum := by simp [History.empty]
  balances := by simp [LedgerTables.empty, History.empty, legsOf]
  heads := by simp [LedgerTables.empty, History.empty, lastLink]
  lots := by simp [LedgerTables.empty, History.empty, raisingPositions]
  columns := by simp [LedgerTables.empty, History.empty, columnEntries, columnDeltas, legsOf]
  compact := ⟨by simp [LedgerTables.empty], by simp [LedgerTables.empty]⟩

theorem Indexes.unique {t t' : LedgerTables} (hi : Indexes t h) (hi' : Indexes t' h) : t = t' := by
  obtain ⟨log, balances, heads, lots, columns⟩ := t
  obtain ⟨log', balances', heads', lots', columns'⟩ := t'
  congr 1
  · exact hi.log.trans hi'.log.symm
  · ext1 a
    exact (hi.balances a).trans (hi'.balances a).symm
  · ext1 a
    exact (hi.heads a).trans (hi'.heads a).symm
  · ext1 a
    exact (hi.lots a).trans (hi'.lots a).symm
  · exact hi.compact.ext hi'.compact fun a c => (hi.columns a c).trans (hi'.columns a c).symm

theorem Indexes.balanceOf (hi : Indexes t h) (a : AccountRef) :
    t.balanceOf a = total (deltas (legsOf h.appended)) a := by
  unfold LedgerTables.balanceOf
  rw [hi.balances]
  split
  · rfl
  · rename_i hn
    exact (total_eq_zero (mt mem_deltas_account.mp hn)).symm

/-! ## Appending a posting -/

theorem lastLink_append (rows : List StoredPosting) (row : StoredPosting) (a : AccountRef) :
    lastLink (rows ++ [row]) a =
      ((row.links.filter (·.account = a)).getLast?).or (lastLink rows a) := by
  simp [lastLink, List.getLast?_append]

theorem foldl_setHead (links : List Link) (heads : Table AccountRef String) (a : AccountRef) :
    (links.foldl (fun heads link => heads.set link.account link.hash) heads).get a =
      (((links.filter (·.account = a)).getLast?).map Link.hash).or (heads.get a) := by
  induction links generalizing heads with
  | nil => simp
  | cons link links ih =>
    rw [List.foldl_cons, ih]
    by_cases ha : link.account = a
    · subst ha
      cases hl : (links.filter (·.account = link.account)).getLast? with
      | none =>
        rw [List.getLast?_eq_none_iff] at hl
        simp [hl]
      | some last => simp [List.getLast?_cons, hl]
    · simp [ha, Ne.symm ha]

theorem mem_lottedAccounts {legs : List Leg} {a : AccountRef} :
    a ∈ lottedAccounts legs ↔ raises legs a = true := by
  simp only [lottedAccounts, mem_distinctAccounts, List.mem_map, List.mem_filter, raises,
    List.any_eq_true, Bool.and_eq_true, decide_eq_true_eq]
  constructor
  · rintro ⟨leg, ⟨hm, hpos⟩, rfl⟩
    exact ⟨leg, hm, rfl, hpos⟩
  · rintro ⟨leg, hm, rfl, hpos⟩
    exact ⟨leg, ⟨hm, hpos⟩, rfl⟩

theorem count_lottedAccounts (legs : List Leg) (a : AccountRef) :
    (lottedAccounts legs).count a = if raises legs a then 1 else 0 := by
  have hnd : (lottedAccounts legs).Nodup := distinctAccounts_nodup _
  split
  · rename_i h
    exact List.count_eq_one_of_mem hnd (mem_lottedAccounts.mpr h)
  · rename_i h
    exact List.count_eq_zero_of_not_mem (mt mem_lottedAccounts.mp h)

variable (log : List StoredPosting)

theorem raisingPositions_append (row : StoredPosting) (a : AccountRef) :
    raisingPositions (log ++ [row]) a =
      raisingPositions log a ++ List.replicate ((lottedAccounts row.legs).count a) log.length := by
  rw [count_lottedAccounts]
  unfold raisingPositions
  rw [List.zipIdx_append, List.filter_append, List.map_append]
  congr 1
  by_cases h : raises row.legs a <;> simp [h]

theorem columnDeltas_append (legs legs' : List Leg) (a : AccountRef) (c : Currency) :
    columnDeltas (legs ++ legs') a c = columnDeltas legs a c ++ columnDeltas legs' a c := by
  simp [columnDeltas]

theorem Indexes.applyPosting (hi : Indexes t h)
    {row : StoredPosting} {next : Table AccountRef Int} (hz : ZeroSum row.legs)
    (hnext : nextBalances t.balances row.legs = .ok next) :
    Indexes (applyPosting t row next) (h.append row) where
  log := congrArg (· ++ [row]) hi.log
  kept := hi.kept.append (List.Sublist.refl _)
  zeroSum := by
    intro r hr
    rcases List.mem_append.mp hr with hr | hr
    · exact hi.zeroSum r hr
    · rw [List.mem_singleton] at hr
      exact hr ▸ hz
  balances := by
    intro a
    have hprior : (t.balances.get a).getD 0 = total (deltas (legsOf h.appended)) a :=
      hi.balanceOf a
    have hlegs : legsOf (h.append row).appended = legsOf h.appended ++ row.legs := by
      simp [History.append]
    simp only [EconomyLab.applyPosting, hlegs, deltas_append, total_append, List.map_append,
      List.mem_append]
    rw [nextBalances_get hnext, hprior, hi.balances]
    by_cases ha : a ∈ row.legs.map Leg.account
    · rw [if_pos ha, if_pos (Or.inr ha)]
    · rw [if_neg ha, total_eq_zero (mt mem_deltas_account.mp ha), add_zero]
      simp only [ha, or_false]
  heads := by
    intro a
    simp only [EconomyLab.applyPosting, History.append]
    rw [foldl_setHead, hi.heads, lastLink_append, Option.map_or]
  lots := by
    intro a
    obtain ⟨hne, he⟩ := foldl_pushLot hi.noEmptyLots t.log.length (lottedAccounts row.legs)
    have hrow := nonEmpty_of_getD (hne a)
    have hold : lotEntries t.lotIndexByAccount a = raisingPositions h.kept a := by
      rw [lotEntries, hi.lots, nonEmpty_getD]
    simp only [EconomyLab.applyPosting, History.append]
    rw [hrow, raisingPositions_append, ← hold, ← hi.log]
    exact congrArg nonEmpty (he a)
  columns := by
    intro a c
    simp only [EconomyLab.applyPosting, History.append]
    rw [(foldl_appendDelta hi.compact row.legs).2, hi.columns, legsOf_append, legsOf_singleton,
      columnDeltas_append]
  compact := (foldl_appendDelta hi.compact row.legs).1

theorem lotsOfLog_spec :
    NoEmptyLots (lotsOfLog log) ∧ ∀ a, lotEntries (lotsOfLog log) a = raisingPositions log a := by
  induction log using List.reverseRecOn with
  | nil => exact ⟨by simp [NoEmptyLots, lotsOfLog], by simp [lotEntries, lotsOfLog, raisingPositions]⟩
  | append_singleton log row ih =>
    have hfold : lotsOfLog (log ++ [row]) =
        (lottedAccounts row.legs).foldl (pushLot log.length) (lotsOfLog log) := by
      simp [lotsOfLog, List.zipIdx_append]
    obtain ⟨hne, he⟩ := foldl_pushLot ih.1 log.length (lottedAccounts row.legs)
    rw [hfold]
    refine ⟨hne, ?_⟩
    intro a
    rw [he, ih.2, raisingPositions_append]

theorem columnsOfLog_spec : CompactColumns (columnsOfLog log) ∧
      ∀ a c, columnEntries (columnsOfLog log) a c = columnDeltas (legsOf log) a c := by
  have hfold : columnsOfLog log = (legsOf log).foldl appendDelta Table.empty := by
    simp [columnsOfLog, legsOf, List.foldl_flatMap]
  have hempty : CompactColumns Table.empty := ⟨by simp, by simp⟩
  obtain ⟨hc, he⟩ := foldl_appendDelta hempty (legsOf log)
  rw [hfold]
  refine ⟨hc, ?_⟩
  intro a c
  rw [he]
  simp [columnEntries]

theorem Indexes.prune (hi : Indexes t h) (txnIds : List String) : Indexes { t with
        log := t.log.filter (·.txnId ∉ txnIds)
        lotIndexByAccount := lotsOfLog (t.log.filter (·.txnId ∉ txnIds))
        deltaColumns := columnsOfLog (t.log.filter (·.txnId ∉ txnIds)) }
      (h.prune txnIds) where
  log := congrArg (·.filter (·.txnId ∉ txnIds)) hi.log
  kept := List.filter_sublist.trans hi.kept
  zeroSum := hi.zeroSum
  balances := hi.balances
  heads := hi.heads
  lots := by
    intro a
    obtain ⟨hne, he⟩ := lotsOfLog_spec (t.log.filter (·.txnId ∉ txnIds))
    have hrow := nonEmpty_of_getD (hne a)
    simp only [History.prune]
    rw [hrow, ← hi.log]
    exact congrArg nonEmpty (he a)
  columns := by
    intro a c
    simp only [History.prune]
    rw [(columnsOfLog_spec _).2, hi.log]
  compact := (columnsOfLog_spec _).1

def Link.Hex (link : Link) : Prop := ∃ bytes, link.hash = toHex bytes

/-- The indexes of a history, with every balance in range and every head in hex. -/
structure Honest (t : LedgerTables) (h : History) : Prop where
  indexes : Indexes t h
  inRange : ∀ a, I64 (t.balanceOf a)
  hexHeads : ∀ a head, t.heads.get a = some head → ∃ bytes, head = toHex bytes

theorem Honest.empty : Honest LedgerTables.empty History.empty :=
  ⟨Indexes.empty, fun _ => (by decide : I64 0), fun _ _ h => by cases h⟩

theorem nextBalances_inRange {legs : List Leg} {balances next : Table AccountRef Int}
    (h : nextBalances balances legs = .ok next) (hr : ∀ a, I64 ((balances.get a).getD 0))
    (a : AccountRef) :
    I64 ((next.get a).getD 0) := by
  induction legs generalizing balances with
  | nil =>
    cases h
    exact hr a
  | cons leg legs ih =>
    unfold nextBalances at h
    cases hd : balanceDelta leg with
    | error e => simp [hd, bind, Except.bind] at h
    | ok d =>
      cases ht : toAmount leg.amount.currency ((balances.get leg.account).getD 0 + d.minor) with
      | error e => simp [hd, ht, bind, Except.bind] at h
      | ok n =>
        simp only [hd, ht, bind, Except.bind] at h
        apply ih h
        intro b
        by_cases hb : b = leg.account
        · simpa [hb] using n.inRange
        · simpa [hb] using hr b

theorem Honest.applyPosting (hi : Honest t h)
    {row : StoredPosting} {next : Table AccountRef Int} (hz : ZeroSum row.legs)
    (hlinks : ∀ link ∈ row.links, link.Hex) (hnext : nextBalances t.balances row.legs = .ok next) :
    Honest (EconomyLab.applyPosting t row next) (h.append row) where
  indexes := hi.indexes.applyPosting hz hnext
  inRange := nextBalances_inRange hnext hi.inRange
  hexHeads := by
    intro a head ha
    simp only [EconomyLab.applyPosting] at ha
    rw [foldl_setHead] at ha
    cases hl : (row.links.filter (·.account = a)).getLast? with
    | none =>
      rw [hl] at ha
      exact hi.hexHeads a head ha
    | some link =>
      rw [hl] at ha
      simp only [Option.map_some, Option.some_or, Option.some.injEq] at ha
      have hm := List.mem_of_getLast? hl
      rw [← ha]
      exact hlinks link (List.mem_filter.mp hm).1

theorem Honest.prune (hi : Honest t h) (txnIds : List String) : Honest { t with
        log := t.log.filter (·.txnId ∉ txnIds)
        lotIndexByAccount := lotsOfLog (t.log.filter (·.txnId ∉ txnIds))
        deltaColumns := columnsOfLog (t.log.filter (·.txnId ∉ txnIds)) }
      (h.prune txnIds) :=
  ⟨hi.indexes.prune txnIds, hi.inRange, hi.hexHeads⟩

theorem advanceChain_hex {digest : Digest} {heads : Table AccountRef String} {posting : Posting}
    {links : List Link} (h : advanceChain digest heads posting = .ok links) :
    ∀ link ∈ links, link.Hex := by
  unfold advanceChain at h
  generalize distinctAccounts posting.legs = accounts at h
  induction accounts generalizing links with
  | nil =>
    simp only [List.mapM_nil, pure, Except.pure, Except.ok.injEq] at h
    simp [← h]
  | cons a accounts ih =>
    rw [List.mapM_cons] at h
    obtain ⟨link, hl, h⟩ := except_bind_ok.mp h
    obtain ⟨rest, hr, h⟩ := except_bind_ok.mp h
    rw [except_pure_ok] at h
    subst h
    intro link' hm
    rcases List.mem_cons.mp hm with rfl | hm
    · unfold advanceLink at hl
      obtain ⟨prev, -, hl⟩ := except_bind_ok.mp hl
      obtain ⟨hash, hh, hl⟩ := except_bind_ok.mp hl
      unfold chainHash at hh
      obtain ⟨bytes, -, hh⟩ := except_bind_ok.mp hh
      rw [except_pure_ok] at hl hh
      exact ⟨digest bytes, by rw [← hl, ← hh]⟩
    · exact ih hr link' hm

end EconomyLab

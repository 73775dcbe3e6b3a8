import EconomyLab.Chain.Chronicle

/-!
# The leaves of a history

A history fixes one leaf an account: its head and its raw sum. What a ledger lists, what a
boundary holds and what a merge of the two gives are all compared with those leaves.
-/

namespace EconomyLab

open Foundation

def historyLeaf (rows : List StoredPosting) (account : AccountRef) : SealHead :=
  ⟨account, chainHead rows account, rawSum rows account⟩

def historyLeaves (rows : List StoredPosting) : List SealHead :=
  (distinctAccounts (legsOf rows)).map (historyLeaf rows)

variable {table : HeadRows} {rows : List StoredPosting}

theorem mem_historyLeaves {leaf : SealHead} : leaf ∈ historyLeaves rows ↔
      leaf.account ∈ (legsOf rows).map Leg.account ∧ leaf = historyLeaf rows leaf.account := by
  unfold historyLeaves
  rw [List.mem_map]
  constructor
  · rintro ⟨account, ha, rfl⟩
    exact ⟨mem_distinctAccounts.mp ha, rfl⟩
  · rintro ⟨ha, he⟩
    exact ⟨leaf.account, mem_distinctAccounts.mpr ha, he.symm⟩

theorem historyLeaves_distinct (rows : List StoredPosting) : DistinctAccounts (historyLeaves rows) := by
  have hmap : (historyLeaves rows).map SealHead.account = distinctAccounts (legsOf rows) := by
    simp [historyLeaves, historyLeaf, Function.comp_def]
  unfold DistinctAccounts
  rw [hmap]
  exact distinctAccounts_nodup _

theorem ZeroSum.rawAmounts {legs : List Leg} (h : ZeroSum legs) :
    ((rawAmounts legs).map Prod.snd).sum = 0 := by
  have hsum : ∀ legs : List Leg, ((EconomyLab.rawAmounts legs).map Prod.snd).sum =
      total (currencyAmounts legs) .credit + total (currencyAmounts legs) .usd := by
    intro legs
    induction legs with
    | nil => rfl
    | cons leg legs ih =>
      have hraw : EconomyLab.rawAmounts (leg :: legs) =
          (leg.account, leg.amount.minor) :: EconomyLab.rawAmounts legs := rfl
      have hcur : currencyAmounts (leg :: legs) =
          (leg.amount.currency, leg.amount.minor) :: currencyAmounts legs := rfl
      rw [hraw, hcur, total_cons, total_cons, List.map_cons, List.sum_cons, ih]
      cases leg.amount.currency <;> simp <;> ring
  rw [hsum, h, h, add_zero]

theorem zeroSum_legsOf (h : ∀ row ∈ rows, ZeroSum row.legs) : ZeroSum (legsOf rows) := by
  intro c
  induction rows with
  | nil => rfl
  | cons row rows ih =>
    have hlegs : currencyAmounts (legsOf (row :: rows)) =
        currencyAmounts row.legs ++ currencyAmounts (legsOf rows) := by
      simp [legsOf, currencyAmounts]
    rw [hlegs, total_append, h row List.mem_cons_self c, ih fun r hr => h r (List.mem_cons_of_mem _ hr)]
    rfl

theorem historyLeaves_sum (h : ∀ row ∈ rows, ZeroSum row.legs) :
    ((historyLeaves rows).map SealHead.sum).sum = 0 := by
  have hzero : ZeroSum (legsOf rows) := zeroSum_legsOf h
  have hmap : (historyLeaves rows).map SealHead.sum =
      (distinctAccounts (legsOf rows)).map (total (rawAmounts (legsOf rows))) := by
    simp [historyLeaves, historyLeaf, rawSum, Function.comp_def]
  rw [hmap, sum_totals (distinctAccounts_nodup _), hzero.rawAmounts]
  intro x hx
  obtain ⟨leg, hl, rfl⟩ := List.mem_map.mp hx
  exact mem_distinctAccounts.mpr (List.mem_map_of_mem hl)

theorem DistinctAccounts.nodup {leaves : List SealHead} (h : DistinctAccounts leaves) : leaves.Nodup :=
  List.Nodup.of_map _ h

/-- Leaf lists with one leaf an account are the same leaves when they have the same members. -/
theorem leaves_perm {leaves leaves' : List SealHead} (h : DistinctAccounts leaves)
    (h' : DistinctAccounts leaves') (hm : ∀ leaf, leaf ∈ leaves ↔ leaf ∈ leaves') : leaves.Perm leaves' :=
  (List.perm_ext_iff_of_nodup h.nodup h'.nodup).mpr hm

/-! ## Head tables -/

structure HoldsLeaves (table : HeadRows) (rows : List StoredPosting) : Prop where
  keys : table.keys.Nodup
  get : ∀ account, table.get account = if account ∈ (legsOf rows).map Leg.account
    then some ⟨chainHead rows account, rawSum rows account⟩ else none

theorem leavesOf_distinct (h : table.keys.Nodup) : DistinctAccounts (leavesOf table) := by
  have hmap : (leavesOf table).map SealHead.account = table.keys := by
    simp [leavesOf, OrderedTable.keys, Function.comp_def]
  unfold DistinctAccounts
  rw [hmap]
  exact h

theorem mem_leavesOf (h : table.keys.Nodup) {leaf : SealHead} :
    leaf ∈ leavesOf table ↔ table.get leaf.account = some ⟨leaf.head, leaf.sum⟩ := by
  rw [OrderedTable.get_eq_some h]
  unfold leavesOf
  rw [List.mem_map]
  constructor
  · rintro ⟨⟨account, head, sum⟩, hm, rfl⟩
    exact hm
  · exact fun hm => ⟨_, hm, rfl⟩

theorem HoldsLeaves.leaves (h : HoldsLeaves table rows) :
    (leavesOf table).Perm (historyLeaves rows) := by
  apply leaves_perm (leavesOf_distinct h.keys) (historyLeaves_distinct rows)
  intro leaf
  rw [mem_leavesOf h.keys, h.get, mem_historyLeaves]
  obtain ⟨account, head, sum⟩ := leaf
  simp only [historyLeaf, SealHead.mk.injEq, true_and]
  split
  · rename_i ha
    simp [ha, eq_comm]
  · rename_i ha
    simp [ha]

theorem HoldsLeaves.empty : HoldsLeaves OrderedTable.empty [] where
  keys := by simp
  get := by simp [legsOf]

theorem map_rowOf_leavesOf (table : HeadRows) : (leavesOf table).map rowOf = table.entries := by
  simp [leavesOf, rowOf, Function.comp_def]

theorem HoldsLeaves.of_get {table table' : HeadRows}
    (h : HoldsLeaves table rows) (hkeys : table'.keys.Nodup)
    (hget : ∀ account, table'.get account = table.get account) :
    HoldsLeaves table' rows :=
  ⟨hkeys, fun account => (hget account).trans (h.get account)⟩

theorem get_setAll_entries {V : Type} {t table : OrderedTable AccountRef V} (h : table.keys.Nodup)
    (account : AccountRef) :
    (t.setAll table.entries).get account = (table.get account).or (t.get account) :=
  OrderedTable.get_setAll h account

theorem HoldsLeaves.reset (h : HoldsLeaves table rows) :
    HoldsLeaves (OrderedTable.empty.setAll ((leavesOf table).map rowOf)) rows := by
  rw [map_rowOf_leavesOf]
  apply h.of_get (OrderedTable.nodup_keys_setAll (by simp) _)
  intro account
  rw [get_setAll_entries h.keys]
  simp

section Listing

variable {digest : Digest} {s : Books} {appended : List StoredPosting}

theorem Faithful.head (h : Faithful digest s appended) (account : AccountRef) :
    s.ledger.tables.heads.get account = if account ∈ (legsOf appended).map Leg.account
      then some (chainHead appended account) else none := by
  have hget := h.honest.indexes.heads account
  have hlast : (lastLink appended account).isSome ↔ account ∈ (legsOf appended).map Leg.account :=
    lastLink_isSome h.chained
  rw [hget]
  unfold chainHead
  simp only
  split
  · rename_i ha
    obtain ⟨link, hl⟩ := Option.isSome_iff_exists.mp (hlast.mpr ha)
    simp [hl]
  · rename_i ha
    have hnone : lastLink appended account = none := by
      rw [← Option.not_isSome_iff_eq_none]
      exact mt hlast.mp ha
    simp [hnone]

theorem Faithful.mem_heads (h : Faithful digest s appended) {account : AccountRef} {head : String} :
    (account, head) ∈ s.heads ↔
      account ∈ (legsOf appended).map Leg.account ∧ head = chainHead appended account := by
  unfold Books.heads sortHeads
  rw [(List.perm_insertionSort _ _).mem_iff, List.mem_filterMap]
  simp only [Option.map_eq_some_iff, Prod.mk.injEq, h.head, h.covers]
  constructor
  · rintro ⟨a, ha, found, hfound, rfl, rfl⟩
    rw [if_pos ha] at hfound
    exact ⟨ha, (Option.some.inj hfound).symm⟩
  · rintro ⟨ha, rfl⟩
    exact ⟨account, ha, chainHead appended account, if_pos ha, rfl, rfl⟩

theorem Faithful.mem_headSums (h : Faithful digest s appended) {leaf : SealHead} :
    leaf ∈ s.headSums ↔ leaf.account ∈ (legsOf appended).map Leg.account ∧
      leaf = ⟨leaf.account, chainHead appended leaf.account, rawSum s.log leaf.account⟩ := by
  unfold Books.headSums
  rw [List.mem_map]
  constructor
  · rintro ⟨⟨account, head⟩, hm, rfl⟩
    obtain ⟨ha, hhead⟩ := h.mem_heads.mp hm
    exact ⟨ha, by rw [hhead]⟩
  · rintro ⟨ha, he⟩
    exact ⟨(leaf.account, chainHead appended leaf.account), h.mem_heads.mpr ⟨ha, rfl⟩, he.symm⟩

theorem Faithful.headSums_accounts (h : Faithful digest s appended) (account : AccountRef) :
    account ∈ s.headSums.map SealHead.account ↔ account ∈ (legsOf appended).map Leg.account := by
  rw [List.mem_map]
  constructor
  · rintro ⟨leaf, hm, rfl⟩
    exact (h.mem_headSums.mp hm).1
  · intro ha
    exact ⟨⟨account, chainHead appended account, rawSum s.log account⟩, h.mem_headSums.mpr ⟨ha, rfl⟩, rfl⟩

theorem Faithful.headSums_distinct (h : Faithful digest s appended) : DistinctAccounts s.headSums := by
  have hperm : (s.headSums.map SealHead.account).Perm (s.accounts.filterMap fun account =>
      (s.ledger.tables.heads.get account).map fun _ => account) := by
    have hmap : s.headSums.map SealHead.account = s.heads.map Prod.fst := by
      simp [Books.headSums, Function.comp_def]
    rw [hmap]
    unfold Books.heads sortHeads
    refine ((List.perm_insertionSort _ _).map Prod.fst).trans ?_
    rw [List.map_filterMap]
    simp [Option.map_map, Function.comp_def]
  unfold DistinctAccounts
  rw [hperm.nodup_iff]
  apply List.Nodup.filterMap ?_ h.accounts
  intro a a' b hb hb'
  simp only [Option.mem_def, Option.map_eq_some_iff] at hb hb'
  obtain ⟨-, -, rfl⟩ := hb
  obtain ⟨-, -, rfl⟩ := hb'
  rfl

/-- With every row in the log the heads and sums a ledger lists are its history's leaves. -/
theorem Faithful.headSums_perm (h : Faithful digest s appended) (hlog : s.log = appended) :
    s.headSums.Perm (historyLeaves appended) := by
  apply leaves_perm h.headSums_distinct (historyLeaves_distinct appended)
  intro leaf
  rw [h.mem_headSums, mem_historyLeaves, hlog]
  rfl

end Listing

theorem get_leavesOf {V : Type} (h : table.keys.Nodup) (f : HeadSum → V) (account : AccountRef) :
    (OrderedTable.empty.setAll ((leavesOf table).map fun row =>
      (row.account, f ⟨row.head, row.sum⟩))).get account = (table.get account).map f := by
  have hrows : (leavesOf table).map (fun row => (row.account, f ⟨row.head, row.sum⟩)) =
      table.entries.map fun p => (p.1, f p.2) := by
    simp [leavesOf, Function.comp_def]
  have hkeys : (table.entries.map fun p => (p.1, f p.2)).map Prod.fst = table.keys := by
    simp [OrderedTable.keys, Function.comp_def]
  rw [hrows, OrderedTable.get_setAll (hkeys ▸ h), OrderedTable.lookup_map fun _ =>
    f, OrderedTable.get_empty,
    Option.or_none]
  rfl

theorem boundaryOf_anchors (h : table.keys.Nodup) (account : AccountRef) :
    (boundaryOf (leavesOf table)).anchors.get account = (table.get account).map HeadSum.head :=
  get_leavesOf h HeadSum.head account

theorem boundaryOf_rawSums (h : table.keys.Nodup) (account : AccountRef) :
    (boundaryOf (leavesOf table)).rawSums.get account = (table.get account).map HeadSum.sum :=
  get_leavesOf h HeadSum.sum account

/-- Every archived account is still listed, so merging only adds the archived sums. -/
theorem mergeArchiveSums_listed {live : List SealHead} {boundary : ArchiveBoundary}
    (h : ∀ account ∈ boundary.rawSums.keys, account ∈ live.map SealHead.account) :
    mergeArchiveSums live (some boundary) =
      live.map fun leaf => { leaf with sum := leaf.sum + (boundary.rawSums.get leaf.account).getD 0 } := by
  have hgone : boundary.rawSums.entries.filter (fun p => p.1 ∉ live.map SealHead.account) = [] := by
    rw [List.filter_eq_nil_iff]
    intro p hp
    simpa using h p.1 (List.mem_map.mpr ⟨p, hp, rfl⟩)
  simp only [mergeArchiveSums, hgone, List.map_nil, List.append_nil]

end EconomyLab

import Mathlib.Data.List.DropRight
import EconomyLab.Ledger.Memory

/-!
# The undo of a posting is exact

Each index is followed through the writes of a posting and through their reversers, one
account at a time. Lots and columns never keep an empty row, so a row is known by its
entries.
-/

namespace EconomyLab

open Foundation

def nonEmpty {α : Type} (xs : List α) : Option (List α) := if xs = [] then none else some xs

variable {columns : Columns} {α : Type} {lots : LotIndex} (xs : List α)

@[simp] theorem nonEmpty_nil : nonEmpty ([] : List α) = none := rfl

@[simp] theorem nonEmpty_getD : (nonEmpty xs).getD [] = xs := by
  unfold nonEmpty
  split <;> simp_all

theorem nonEmpty_of_getD {row : Option (List α)} (h : row ≠ some []) :
    row = nonEmpty (row.getD []) := by
  cases row with
  | none => rfl
  | some xs =>
    have hx : xs ≠ [] := fun hx => h (congrArg some hx)
    simp [nonEmpty, hx]

theorem nonEmpty_ne_nil : nonEmpty xs ≠ some [] := by
  unfold nonEmpty
  split <;> simp_all

theorem rdrop_rdrop (m n : Nat) : (xs.rdrop m).rdrop n = xs.rdrop (m + n) := by
  simp only [List.rdrop, List.length_take, List.take_take]
  congr 1
  omega

theorem rdrop_one : xs.rdrop 1 = xs.dropLast := by
  simp [List.rdrop, List.dropLast_eq_take]

theorem nextBalances_get {legs : List Leg} {balances next : Table AccountRef Int}
    (h : nextBalances balances legs = .ok next) (a : AccountRef) :
    next.get a = if a ∈ legs.map Leg.account
      then some ((balances.get a).getD 0 + total (deltas legs) a) else balances.get a := by
  induction legs generalizing balances with
  | nil =>
    cases h
    simp
  | cons leg legs ih =>
    unfold nextBalances at h
    cases hd : balanceDelta leg with
    | error e => simp [hd, bind, Except.bind] at h
    | ok d =>
      have hm := (balanceDelta_minor hd).2
      cases ht : toAmount leg.amount.currency ((balances.get leg.account).getD 0 + d.minor) with
      | error e => simp [hd, ht, bind, Except.bind] at h
      | ok n =>
        simp only [hd, ht, bind, Except.bind] at h
        have hn := (toAmount_eq_ok.mp ht).2
        rw [ih h, deltas_cons, total_cons]
        by_cases ha : a = leg.account
        · subst ha
          by_cases hl : leg.account ∈ legs.map Leg.account
          · rw [if_pos hl]
            simp [hn, hm, add_assoc]
          · have ht0 : total (deltas legs) _ = 0 := total_eq_zero (mt mem_deltas_account.mp hl)
            rw [if_neg hl]
            simp [hn, hm, ht0]
        · simp [ha, Ne.symm ha]

theorem foldl_undoBalance_get (created : List AccountRef) (legs : List Leg)
    (balances : Table AccountRef Int) (a : AccountRef) :
    (legs.foldl (undoBalance created) balances).get a =
      if a ∈ legs.map Leg.account then
        (if (balances.get a).getD 0 - total (deltas legs) a = 0 ∧ a ∈ created then none
          else some ((balances.get a).getD 0 - total (deltas legs) a))
      else balances.get a := by
  induction legs generalizing balances with
  | nil => simp
  | cons leg legs ih =>
    rw [List.foldl_cons, ih, deltas_cons, total_cons]
    by_cases ha : a = leg.account
    · subst ha
      have hget : ((undoBalance created balances leg).get leg.account).getD 0 =
          (balances.get leg.account).getD 0 - leg.delta := by
        simp only [undoBalance]
        split
        · rename_i hz
          simp [hz.1]
        · simp
      have hrow : (undoBalance created balances leg).get leg.account =
          if (balances.get leg.account).getD 0 - leg.delta = 0 ∧ leg.account ∈ created then none
          else some ((balances.get leg.account).getD 0 - leg.delta) := by
        simp only [undoBalance]
        split <;> simp
      by_cases hl : leg.account ∈ legs.map Leg.account
      · rw [if_pos hl, hget]
        simp [sub_sub]
      · have ht0 : total (deltas legs) _ = 0 := total_eq_zero (mt mem_deltas_account.mp hl)
        rw [if_neg hl, hrow]
        simp [ht0]
    · have hget : (undoBalance created balances leg).get a = balances.get a := by
        simp only [undoBalance]
        split <;> simp [ha]
      rw [hget]
      simp [ha, Ne.symm ha]

theorem undo_balances {t : LedgerTables} {legs : List Leg} {next : Table AccountRef Int}
    (h : nextBalances t.balances legs = .ok next) :
    legs.foldl (undoBalance ((legs.filter fun leg => !t.balances.has leg.account).map Leg.account))
      next = t.balances := by
  ext1 a
  rw [foldl_undoBalance_get, nextBalances_get h]
  by_cases ha : a ∈ legs.map Leg.account
  · rw [if_pos ha, if_pos ha]
    have hcreated : a ∈ (legs.filter fun leg => !t.balances.has leg.account).map Leg.account ↔
        t.balances.get a = none := by
      constructor
      · intro hc
        obtain ⟨leg, hleg, rfl⟩ := List.mem_map.mp hc
        simpa [Table.has] using (List.mem_filter.mp hleg).2
      · intro hn
        obtain ⟨leg, hleg, rfl⟩ := List.mem_map.mp ha
        exact List.mem_map.mpr ⟨leg, List.mem_filter.mpr ⟨hleg, by simp [Table.has, hn]⟩, rfl⟩
    simp only [hcreated]
    cases hb : t.balances.get a <;> simp
  · rw [if_neg ha, if_neg ha]

theorem foldl_setHead_of_not_mem {links : List Link} {heads : Table AccountRef String}
    {a : AccountRef} (h : a ∉ links.map Link.account) :
    (links.foldl (fun heads link => heads.set link.account link.hash) heads).get a =
      heads.get a := by
  induction links generalizing heads with
  | nil => rfl
  | cons link links ih =>
    rw [List.map_cons, List.mem_cons, not_or] at h
    rw [List.foldl_cons, ih h.2, Table.get_set_of_ne _ _ h.1]

theorem foldl_restore_get (accounts : List AccountRef) (prior heads : Table AccountRef String)
    (a : AccountRef) :
    ((accounts.map fun b => (b, prior.get b)).foldl (fun heads p => heads.restore p.1 p.2)
      heads).get a = if a ∈ accounts then prior.get a else heads.get a := by
  induction accounts generalizing heads with
  | nil => rfl
  | cons b accounts ih =>
    rw [List.map_cons, List.foldl_cons, ih]
    by_cases hab : a = b
    · subst hab
      simp
    · simp [hab]

theorem undo_heads (links : List Link) (heads : Table AccountRef String) :
    (links.map fun link => (link.account, heads.get link.account)).foldl
      (fun heads p => heads.restore p.1 p.2)
      (links.foldl (fun heads link => heads.set link.account link.hash) heads) = heads := by
  have hmap : (links.map fun link => (link.account, heads.get link.account)) =
      (links.map Link.account).map fun b => (b, heads.get b) := by
    simp
  ext1 a
  rw [hmap, foldl_restore_get]
  split
  · rfl
  · rename_i h
    exact foldl_setHead_of_not_mem h

def NoEmptyLots (lots : LotIndex) : Prop := ∀ a, lots.get a ≠ some []

def lotEntries (lots : LotIndex) (a : AccountRef) : List Nat := (lots.get a).getD []

theorem NoEmptyLots.ext {lots lots' : LotIndex} (h : NoEmptyLots lots) (h' : NoEmptyLots lots')
    (he : ∀ a, lotEntries lots a = lotEntries lots' a) : lots = lots' := by
  ext1 a
  rw [nonEmpty_of_getD (h a), nonEmpty_of_getD (h' a)]
  exact congrArg nonEmpty (he a)

theorem pushLot_noEmpty (h : NoEmptyLots lots) (index : Nat) (b : AccountRef) :
    NoEmptyLots (pushLot index lots b) := by
  intro a
  by_cases ha : a = b
  · subst ha
    simp [pushLot]
  · simpa [pushLot, ha] using h a

theorem lotEntries_pushLot (lots : LotIndex) (index : Nat) (a b : AccountRef) :
    lotEntries (pushLot index lots b) a =
      lotEntries lots a ++ List.replicate ([b].count a) index := by
  by_cases ha : a = b
  · subst ha
    simp [lotEntries, pushLot]
  · simp [lotEntries, pushLot, ha, Ne.symm ha]

theorem foldl_pushLot (h : NoEmptyLots lots) (index : Nat) (accounts : List AccountRef) :
    NoEmptyLots (accounts.foldl (pushLot index) lots) ∧
      ∀ a, lotEntries (accounts.foldl (pushLot index) lots) a =
        lotEntries lots a ++ List.replicate (accounts.count a) index := by
  induction accounts generalizing lots with
  | nil => exact ⟨h, by simp⟩
  | cons b accounts ih =>
    obtain ⟨hne, he⟩ := ih (pushLot_noEmpty h index b)
    refine ⟨hne, ?_⟩
    intro a
    rw [List.foldl_cons, he, lotEntries_pushLot, List.append_assoc, ← List.replicate_add,
      ← List.count_append]
    rfl

theorem popLot_noEmpty (h : NoEmptyLots lots) (b : AccountRef) : NoEmptyLots (popLot lots b) := by
  intro a
  unfold popLot
  split
  · exact h a
  · split
    · by_cases ha : a = b
      · simp [ha]
      · simpa [ha] using h a
    · rename_i hne
      by_cases ha : a = b
      · simpa [ha] using hne
      · simpa [ha] using h a

theorem lotEntries_popLot (lots : LotIndex) (a b : AccountRef) :
    lotEntries (popLot lots b) a = (lotEntries lots a).rdrop ([b].count a) := by
  unfold popLot lotEntries
  by_cases ha : a = b
  · subst ha
    cases hg : lots.get a with
    | none => simp [hg]
    | some positions =>
      simp only [Option.getD_some, List.count_singleton_self]
      have hr := rdrop_one positions
      split
      · rename_i hnil
        simp [hr, hnil]
      · simp [hr]
  · cases hg : lots.get b with
    | none => simp [Ne.symm ha]
    | some positions =>
      simp only
      split <;> simp [ha, Ne.symm ha]

theorem foldl_popLot (h : NoEmptyLots lots) (accounts : List AccountRef) :
    NoEmptyLots (accounts.foldl popLot lots) ∧
      ∀ a, lotEntries (accounts.foldl popLot lots) a =
        (lotEntries lots a).rdrop (accounts.count a) := by
  induction accounts generalizing lots with
  | nil => exact ⟨h, by simp⟩
  | cons b accounts ih =>
    obtain ⟨hne, he⟩ := ih (popLot_noEmpty h b)
    refine ⟨hne, ?_⟩
    intro a
    rw [List.foldl_cons, he, lotEntries_popLot, rdrop_rdrop, ← List.count_append]
    rfl

theorem undo_lots (h : NoEmptyLots lots) (index : Nat) (accounts : List AccountRef) :
    accounts.foldl popLot (accounts.foldl (pushLot index) lots) = lots := by
  obtain ⟨hpush, hentries⟩ := foldl_pushLot h index accounts
  obtain ⟨hpop, hback⟩ := foldl_popLot hpush accounts
  refine hpop.ext h ?_
  intro a
  have hlen : accounts.count a = (List.replicate (accounts.count a) index).length := by simp
  rw [hback, hentries, hlen, List.length_replicate]
  nth_rewrite 2 [hlen]
  exact List.rdrop_append_length

/-! ## Delta columns -/

def columnEntries (columns : Columns) (a : AccountRef) (c : Currency) : List Int :=
  ((columns.get a).bind fun byCurrency => byCurrency.get c).getD []

structure CompactColumns (columns : Columns) : Prop where
  column : ∀ a byCurrency, columns.get a = some byCurrency → ∀ c, byCurrency.get c ≠ some []
  row : ∀ a byCurrency, columns.get a = some byCurrency → emptyRow byCurrency = false

theorem emptyRow_iff (byCurrency : Table Currency (List Int)) :
    emptyRow byCurrency = true ↔ ∀ c, byCurrency.get c = none := by
  constructor
  · intro h c
    simp only [emptyRow, Table.has, Bool.and_eq_true, Bool.not_eq_true',
      Option.isSome_eq_false_iff, Option.isNone_iff_eq_none] at h
    cases c
    · exact h.1
    · exact h.2
  · intro h
    simp [emptyRow, Table.has, h]

theorem CompactColumns.ext {columns columns' : Columns} (h : CompactColumns columns)
    (h' : CompactColumns columns') (he : ∀ a c, columnEntries columns a c = columnEntries columns' a c) :
    columns = columns' := by
  have present : ∀ {columns : Columns}, CompactColumns columns → ∀ {a byCurrency},
      columns.get a = some byCurrency → ∃ c, columnEntries columns a c ≠ [] := by
    intro columns hc a byCurrency hg
    by_contra hnone
    push Not at hnone
    have hrow := hc.row a byCurrency hg
    rw [(emptyRow_iff byCurrency).mpr] at hrow
    · cases hrow
    · intro c
      rw [nonEmpty_of_getD (hc.column a byCurrency hg c)]
      have hn := hnone c
      simp only [columnEntries, hg, Option.bind_some] at hn
      simp [hn]
  ext1 a
  cases hg : columns.get a with
  | none =>
    cases hg' : columns'.get a with
    | none => rfl
    | some byCurrency' =>
      obtain ⟨c, hc⟩ := present h' hg'
      rw [← he] at hc
      simp [columnEntries, hg] at hc
  | some byCurrency =>
    cases hg' : columns'.get a with
    | none =>
      obtain ⟨c, hc⟩ := present h hg
      rw [he] at hc
      simp [columnEntries, hg'] at hc
    | some byCurrency' =>
      congr 1
      ext1 c
      rw [nonEmpty_of_getD (h.column a byCurrency hg c),
        nonEmpty_of_getD (h'.column a byCurrency' hg' c)]
      have hec := he a c
      simp only [columnEntries, hg, hg', Option.bind_some] at hec
      rw [hec]

def columnDeltas (legs : List Leg) (a : AccountRef) (c : Currency) : List Int :=
  (legs.filter fun leg => leg.account = a ∧ leg.amount.currency = c).map Leg.delta

@[simp] theorem columnDeltas_nil (a : AccountRef) (c : Currency) : columnDeltas [] a c = [] := rfl

theorem columnDeltas_cons (leg : Leg) (legs : List Leg) (a : AccountRef) (c : Currency) :
    columnDeltas (leg :: legs) a c = columnDeltas [leg] a c ++ columnDeltas legs a c := by
  simp only [columnDeltas, ← List.map_append, ← List.filter_append]
  rfl

theorem CompactColumns.set (h : CompactColumns columns) {b : AccountRef}
    {row : Table Currency (List Int)} (hcol : ∀ c, row.get c ≠ some []) (hrow : emptyRow row = false) :
    CompactColumns (columns.set b row) := by
  constructor
  · intro a byCurrency hg c
    by_cases ha : a = b
    · simp only [ha, Table.get_set_self, Option.some.injEq] at hg
      exact hg ▸ hcol c
    · exact h.column a byCurrency (by simpa [ha] using hg) c
  · intro a byCurrency hg
    by_cases ha : a = b
    · simp only [ha, Table.get_set_self, Option.some.injEq] at hg
      exact hg ▸ hrow
    · exact h.row a byCurrency (by simpa [ha] using hg)

theorem CompactColumns.delete (h : CompactColumns columns) (b : AccountRef) :
    CompactColumns (columns.delete b) := by
  constructor
  · intro a byCurrency hg c
    by_cases ha : a = b
    · simp [ha] at hg
    · exact h.column a byCurrency (by simpa [ha] using hg) c
  · intro a byCurrency hg
    by_cases ha : a = b
    · simp [ha] at hg
    · exact h.row a byCurrency (by simpa [ha] using hg)

theorem emptyRow_set (row : Table Currency (List Int)) (c : Currency) (column : List Int) :
    emptyRow (row.set c column) = false := by
  rw [Bool.eq_false_iff]
  intro he
  have hnone := (emptyRow_iff _).mp he c
  simp at hnone

theorem set_column_ne_nil {row : Table Currency (List Int)} (h : ∀ c, row.get c ≠ some [])
    (c : Currency) {column : List Int} (hc : column ≠ []) (d : Currency) :
    (row.set c column).get d ≠ some [] := by
  by_cases hd : d = c
  · simpa [hd] using hc
  · simpa [hd] using h d

theorem appendDelta_compact (h : CompactColumns columns) (leg : Leg) :
    CompactColumns (appendDelta columns leg) := by
  refine h.set (set_column_ne_nil ?_ _ (by simp)) (emptyRow_set _ _ _)
  intro c
  cases hg : columns.get leg.account with
  | none => simp
  | some byCurrency => exact h.column _ _ hg c

theorem columnEntries_appendDelta (columns : Columns) (leg : Leg) (a : AccountRef) (c : Currency) :
    columnEntries (appendDelta columns leg) a c =
      columnEntries columns a c ++ columnDeltas [leg] a c := by
  by_cases ha : a = leg.account
  · subst ha
    by_cases hc : c = leg.amount.currency
    · subst hc
      cases hg : columns.get leg.account <;> simp [columnEntries, appendDelta, columnDeltas, hg]
    · cases hg : columns.get leg.account <;>
        simp [columnEntries, appendDelta, columnDeltas, hg, hc, Ne.symm hc]
  · simp [columnEntries, appendDelta, columnDeltas, ha, Ne.symm ha]

theorem foldl_appendDelta (h : CompactColumns columns) (legs : List Leg) :
    CompactColumns (legs.foldl appendDelta columns) ∧
      ∀ a c, columnEntries (legs.foldl appendDelta columns) a c =
        columnEntries columns a c ++ columnDeltas legs a c := by
  induction legs generalizing columns with
  | nil => exact ⟨h, by simp⟩
  | cons leg legs ih =>
    obtain ⟨hc, he⟩ := ih (appendDelta_compact h leg)
    refine ⟨hc, ?_⟩
    intro a c
    rw [List.foldl_cons, he, columnEntries_appendDelta, List.append_assoc, ← columnDeltas_cons]

theorem popDelta_compact (h : CompactColumns columns) (leg : Leg) :
    CompactColumns (popDelta columns leg) := by
  unfold popDelta
  split
  · exact h
  · rename_i byCurrency hg
    have hcol := h.column _ _ hg
    split
    · exact h
    · rename_i column hb
      by_cases hnil : column.dropLast = []
      · by_cases hempty : emptyRow (byCurrency.delete leg.amount.currency) = true
        · simpa [hnil, hempty] using h.delete leg.account
        · have hrow : emptyRow (byCurrency.delete leg.amount.currency) = false := by
            simpa using hempty
          simp only [hnil, if_true, hrow, Bool.false_eq_true, if_false]
          refine h.set ?_ hrow
          intro c
          by_cases hc : c = leg.amount.currency
          · simp [hc]
          · simpa [hc] using hcol c
      · simpa [hnil] using h.set (set_column_ne_nil hcol _ hnil) (emptyRow_set _ _ _)

theorem columnDeltas_length (leg : Leg) (a : AccountRef) (c : Currency) :
    (columnDeltas [leg] a c).length =
      if leg.account = a ∧ leg.amount.currency = c then 1 else 0 := by
  by_cases h : leg.account = a ∧ leg.amount.currency = c
  · simp [columnDeltas, h.1, h.2]
  · rw [if_neg h, columnDeltas, List.length_map, List.length_eq_zero_iff]
    simpa using h

theorem columnEntries_set (columns : Columns) (b : AccountRef) (row : Table Currency (List Int))
    (a : AccountRef) (c : Currency) :
    columnEntries (columns.set b row) a c =
      if a = b then (row.get c).getD [] else columnEntries columns a c := by
  by_cases ha : a = b <;> simp [columnEntries, ha]

theorem columnEntries_delete (columns : Columns) (b a : AccountRef) (c : Currency) :
    columnEntries (columns.delete b) a c = if a = b then [] else columnEntries columns a c := by
  by_cases ha : a = b <;> simp [columnEntries, ha]

theorem columnEntries_popDelta (columns : Columns) (leg : Leg) (a : AccountRef) (c : Currency) :
    columnEntries (popDelta columns leg) a c =
      (columnEntries columns a c).rdrop (columnDeltas [leg] a c).length := by
  rw [columnDeltas_length]
  by_cases ha : leg.account = a
  · subst ha
    unfold popDelta
    split
    · rename_i hg
      simp [columnEntries, hg]
    · rename_i byCurrency hg
      have hrow : ∀ d, columnEntries columns leg.account d = (byCurrency.get d).getD [] := by
        intro d
        simp [columnEntries, hg]
      by_cases hc : leg.amount.currency = c
      · subst hc
        split
        · rename_i hb
          simp [hrow, hb]
        · rename_i column hb
          by_cases hnil : column.dropLast = []
          · by_cases hempty : emptyRow (byCurrency.delete leg.amount.currency) = true <;>
              simp [hnil, hempty, columnEntries_set, columnEntries_delete, hrow, hb, rdrop_one]
          · simp [hnil, columnEntries_set, hrow, hb, rdrop_one]
      · split
        · simp [hc]
        · rename_i column hb
          by_cases hnil : column.dropLast = []
          · by_cases hempty : emptyRow (byCurrency.delete leg.amount.currency) = true
            · have hnone := (emptyRow_iff _).mp hempty c
              rw [Table.get_delete_of_ne _ (Ne.symm hc)] at hnone
              simp [hnil, hempty, columnEntries_delete, hrow, hnone, hc]
            · simp [hnil, hempty, columnEntries_set, hrow, hc, Ne.symm hc]
          · simp [hnil, columnEntries_set, hrow, hc, Ne.symm hc]
  · have hne : ¬ a = leg.account := Ne.symm ha
    unfold popDelta
    split
    · simp [ha]
    · split
      · simp [ha]
      · rw [if_neg (mt And.left ha), List.rdrop_zero]
        split
        · simp only
          split <;> simp [columnEntries_set, columnEntries_delete, hne]
        · simp [columnEntries_set, hne]

theorem foldl_popDelta (h : CompactColumns columns) (legs : List Leg) :
    CompactColumns (legs.foldl popDelta columns) ∧
      ∀ a c, columnEntries (legs.foldl popDelta columns) a c =
        (columnEntries columns a c).rdrop (columnDeltas legs a c).length := by
  induction legs generalizing columns with
  | nil => exact ⟨h, by simp⟩
  | cons leg legs ih =>
    obtain ⟨hc, he⟩ := ih (popDelta_compact h leg)
    refine ⟨hc, ?_⟩
    intro a c
    rw [List.foldl_cons, he, columnEntries_popDelta, rdrop_rdrop, columnDeltas_cons leg legs,
      List.length_append]

theorem undo_columns (h : CompactColumns columns) (legs : List Leg) :
    legs.foldl popDelta (legs.foldl appendDelta columns) = columns := by
  obtain ⟨hpush, hentries⟩ := foldl_appendDelta h legs
  obtain ⟨hpop, hback⟩ := foldl_popDelta hpush legs
  refine hpop.ext h ?_
  intro a c
  rw [hback, hentries]
  exact List.rdrop_append_length

theorem undoPosting_applyPosting {t : LedgerTables} {stored : StoredPosting}
    {next : Table AccountRef Int} (hlots : NoEmptyLots t.lotIndexByAccount)
    (hcolumns : CompactColumns t.deltaColumns)
    (hnext : nextBalances t.balances stored.legs = .ok next) :
    undoPosting stored (postingUndo t stored) (applyPosting t stored next) = t := by
  obtain ⟨log, balances, heads, lots, columns⟩ := t
  simp only [undoPosting, postingUndo, applyPosting, List.dropLast_concat]
  rw [undo_lots hlots, undo_heads, undo_columns hcolumns]
  congr 1
  exact undo_balances (t := ⟨log, balances, heads, lots, columns⟩) hnext

end EconomyLab

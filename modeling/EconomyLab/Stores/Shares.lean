import EconomyLab.Stores.Writes

/-!
# The accrual rows as a list

The table keeps its rows under their keys and lists the keys in the order they came. A mark
changes rows where they stand, and a put adds one at the end.
-/

namespace EconomyLab

open Foundation

/-- The rows of the table in insertion order. -/
def AccrualTables.listed (t : AccrualTables) : List AccrualRow := t.order.filterMap t.rows.get

/-- Every row is listed once, under its own key. -/
structure AccrualTables.Filed (t : AccrualTables) : Prop where
  nodup : t.order.Nodup
  keyed : ∀ key row, t.rows.get key = some row → row.key = key
  covers : ∀ key, key ∈ t.order ↔ (t.rows.get key).isSome

namespace AccrualTables

theorem Filed.empty : Filed ⟨OrderedTable.empty, []⟩ where
  nodup := List.nodup_nil
  keyed := fun _ _ hget => by cases hget
  covers := fun _ => ⟨fun h => absurd h List.not_mem_nil, fun h => by cases h⟩

variable {t : AccrualTables}

theorem Filed.of_entries (horder : t.order = t.rows.keys) (hnodup : t.rows.keys.Nodup)
    (hkeyed : ∀ entry ∈ t.rows.entries, entry.2.key = entry.1) : t.Filed where
  nodup := horder ▸ hnodup
  keyed := fun key row hget => hkeyed (key, row) ((OrderedTable.get_eq_some hnodup).mp hget)
  covers := fun _ => horder ▸ OrderedTable.get_isSome.symm

variable {key : String} {j : Journaled AccrualTables} {row row' : AccrualRow}

theorem Filed.mem_listed (h : t.Filed) : row ∈ t.listed ↔ t.rows.get row.key = some row := by
  constructor
  · intro hrow
    obtain ⟨key, -, hkey⟩ := List.mem_filterMap.mp hrow
    rw [h.keyed key row hkey]
    exact hkey
  · intro hrow
    have hlisted : row.key ∈ t.order := (h.covers row.key).mpr (by rw [hrow]; rfl)
    exact List.mem_filterMap.mpr ⟨row.key, hlisted, hrow⟩

theorem Filed.keys_listed (h : t.Filed) : t.listed.map AccrualRow.key = t.order := by
  have hcovers := h.covers
  have hall : ∀ key ∈ t.order, (t.rows.get key).isSome := fun key hkey => (hcovers key).mp hkey
  unfold listed
  generalize t.order = order at hall
  induction order with
  | nil => rfl
  | cons key order ih =>
    obtain ⟨row, hrow⟩ := Option.isSome_iff_exists.mp (hall key List.mem_cons_self)
    rw [List.filterMap_cons_some hrow, List.map_cons, h.keyed key row hrow,
      ih fun k hk => hall k (List.mem_cons_of_mem _ hk)]

theorem Filed.nodup_keys (h : t.Filed) : (t.listed.map AccrualRow.key).Nodup := h.keys_listed ▸ h.nodup

theorem Filed.nodup_listed (h : t.Filed) : t.listed.Nodup := .of_map _ h.nodup_keys

theorem Filed.eq_of_key (h : t.Filed) (hrow : row ∈ t.listed)
    (hrow' : row' ∈ t.listed) (hkey : row.key = row'.key) : row = row' := by
  have hget := h.mem_listed.mp hrow
  rw [hkey, h.mem_listed.mp hrow'] at hget
  exact (Option.some.inj hget).symm

/-! ## What the writes do to the list -/

theorem Filed.replace (h : t.Filed) (hget : t.rows.get key = some row) (hkey : row'.key = key) :
    Filed { t with rows := t.rows.set key row' } := by
  refine ⟨h.nodup, ?_, ?_⟩
  · intro k r hk
    rw [OrderedTable.get_set] at hk
    split at hk
    · rename_i hsame
      cases hk
      exact hkey.trans hsame.symm
    · exact h.keyed k r hk
  · intro k
    rw [OrderedTable.get_set]
    split
    · rename_i hsame
      have hlisted : key ∈ t.order := (h.covers key).mpr (by rw [hget]; rfl)
      exact iff_of_true (hsame ▸ hlisted) rfl
    · exact h.covers k

theorem Filed.listed_replace (h : t.Filed) (hhas : (t.rows.get key).isSome) :
    listed { t with rows := t.rows.set key row' } = t.listed.map fun row => if row.key =
      key then row' else row := by
  unfold listed
  rw [List.map_filterMap]
  apply List.filterMap_congr
  intro k _
  rw [OrderedTable.get_set]
  split
  · rename_i hsame
    obtain ⟨row, hrow⟩ := Option.isSome_iff_exists.mp hhas
    rw [hsame, hrow, Option.map_some, if_pos (h.keyed key row hrow)]
  · rename_i hother
    cases hk : t.rows.get k with
    | none => rfl
    | some row => rw [Option.map_some, if_neg (h.keyed k row hk ▸ hother)]

theorem Filed.add (h : t.Filed) (hfree : t.rows.get row.key = none) :
    Filed ⟨t.rows.set row.key row, t.order ++ [row.key]⟩ := by
  have hfresh : row.key ∉ t.order := by
    rw [h.covers, hfree]
    exact nofun
  refine ⟨?_, ?_, ?_⟩
  · apply List.nodup_append.mpr
    refine ⟨h.nodup, List.nodup_singleton _, ?_⟩
    rintro a ha b hb rfl
    exact hfresh (List.mem_singleton.mp hb ▸ ha)
  · intro k r hk
    rw [OrderedTable.get_set] at hk
    split at hk
    · rename_i hsame
      cases hk
      exact hsame.symm
    · exact h.keyed k r hk
  · intro k
    rw [OrderedTable.get_set, List.mem_append, List.mem_singleton, h.covers]
    split
    · rename_i hsame
      exact iff_of_true (Or.inr hsame) rfl
    · rename_i hother
      exact or_iff_left hother

theorem Filed.listed_add (h : t.Filed) (hfree : t.rows.get row.key = none) :
    listed ⟨t.rows.set row.key row, t.order ++ [row.key]⟩ = t.listed ++ [row] := by
  unfold listed
  rw [List.filterMap_append]
  congr 1
  · apply List.filterMap_congr
    intro k hk
    have hother : k ≠ row.key := by
      rintro rfl
      rw [h.covers, hfree] at hk
      cases hk
    exact OrderedTable.get_set_of_ne _ _ hother
  · rw [List.filterMap_cons_some (OrderedTable.get_set_self _ _ _)]
    rfl

def settledRow (keys : List String) (status : AccrualStatus) (settledTxnId : String) (row : AccrualRow) :
    AccrualRow :=
  if row.key ∈ keys ∧ row.status = .pending then
    { row with status, settledTxnId := some settledTxnId } else row

@[simp] theorem settledRow_key (keys : List String) (status : AccrualStatus) (settledTxnId : String)
    (row : AccrualRow) : (settledRow keys status settledTxnId row).key = row.key := by
  unfold settledRow
  split <;> rfl

theorem settledRow_cons {keys : List String} {status : AccrualStatus}
    (hstatus : status ≠ .pending) {settledTxnId : String} :
    settledRow (key :: keys) status settledTxnId row =
      settledRow keys status settledTxnId (settledRow [key] status settledTxnId row) := by
  by_cases hhere : row.key = key ∧ row.status = .pending
  · have hfirst : settledRow [key] status settledTxnId row =
      { row with status, settledTxnId := some settledTxnId } :=
      if_pos ⟨List.mem_singleton.mpr hhere.1, hhere.2⟩
    have hlater : ¬ (({ row with status, settledTxnId := some settledTxnId } : AccrualRow).key ∈ keys ∧
        status = .pending) := fun h => hstatus h.2
    rw [hfirst, settledRow, settledRow, if_pos ⟨List.mem_cons.mpr (Or.inl hhere.1), hhere.2⟩,
      if_neg hlater]
  · have hfirst : settledRow [key] status settledTxnId row = row :=
      if_neg fun h => hhere ⟨List.mem_singleton.mp h.1, h.2⟩
    rw [hfirst, settledRow, settledRow]
    by_cases hpending : row.status = .pending
    · have hne : row.key ≠ key := fun hkey => hhere ⟨hkey, hpending⟩
      simp only [List.mem_cons, hne, false_or]
    · rw [if_neg fun h => hpending h.2, if_neg fun h => hpending h.2]

theorem markOne_listed (h : j.rows.Filed) (status : AccrualStatus)
    (settledTxnId : String) (key : String × String × Nat) :
    (markOne status settledTxnId j key).rows.Filed ∧
      (markOne status settledTxnId j key).rows.listed =
        j.rows.listed.map (settledRow [accrualKey key.1 key.2.1 key.2.2] status settledTxnId) := by
  have hsame : (∀ row, j.rows.rows.get (accrualKey key.1 key.2.1 key.2.2) = some row →
    row.status ≠ .pending) →
      j.rows.listed = j.rows.listed.map
        (settledRow [accrualKey key.1 key.2.1 key.2.2] status settledTxnId) := by
    intro hnone
    have hid : ∀ row ∈ j.rows.listed,
        settledRow [accrualKey key.1 key.2.1 key.2.2] status settledTxnId row = row := by
      intro row hrow
      apply if_neg
      rintro ⟨hkey, hpending⟩
      have hget := h.mem_listed.mp hrow
      rw [List.mem_singleton.mp hkey] at hget
      exact hnone row hget hpending
    rw [List.map_congr_left hid, List.map_id']
  unfold markOne
  simp only
  cases hget : j.rows.rows.get (accrualKey key.1 key.2.1 key.2.2) with
  | none =>
    refine ⟨h, hsame fun row hrow => ?_⟩
    rw [hget] at hrow
    cases hrow
  | some row =>
    have hkey := h.keyed _ _ hget
    simp only
    split
    · rename_i hpending
      refine ⟨h.replace hget hkey, ?_⟩
      have hhas : (j.rows.rows.get (accrualKey key.1 key.2.1 key.2.2)).isSome := by
        rw [hget]
        rfl
      apply (h.listed_replace hhas).trans
      apply List.map_congr_left
      intro r hr
      by_cases hhere : r.key = accrualKey key.1 key.2.1 key.2.2
      · obtain rfl : row = r := by
          have hgetr := h.mem_listed.mp hr
          rw [hhere, hget] at hgetr
          exact Option.some.inj hgetr
        rw [if_pos hhere, settledRow, if_pos ⟨List.mem_singleton.mpr hhere, hpending⟩]
      · rw [if_neg hhere, settledRow, if_neg fun hmem => hhere (List.mem_singleton.mp hmem.1)]
    · rename_i hsettled
      refine ⟨h, hsame fun r hr => ?_⟩
      obtain rfl : row = r := Option.some.inj (hget.symm.trans hr)
      exact hsettled

theorem mark_listed {status : AccrualStatus} (hstatus : status ≠ .pending) (settledTxnId : String)
    (keys : List (String × String × Nat)) (h : j.rows.Filed) :
    ((AccrualWrite.mark keys status settledTxnId).run j).rows.Filed ∧
      ((AccrualWrite.mark keys status settledTxnId).run j).rows.listed =
        j.rows.listed.map (settledRow (keys.map fun key => accrualKey key.1 key.2.1 key.2.2) status
          settledTxnId) := by
  simp only [AccrualWrite.run]
  induction keys generalizing j with
  | nil =>
    refine ⟨h, ?_⟩
    have hid : ∀ row ∈ j.rows.listed, settledRow [] status settledTxnId row = row :=
      fun row _ => if_neg fun hmem => absurd hmem.1 List.not_mem_nil
    rw [List.map_nil, List.map_congr_left hid, List.map_id']
    rfl
  | cons key keys ih =>
    obtain ⟨hfiled, hlisted⟩ := markOne_listed h status settledTxnId key
    obtain ⟨hfiled', hlisted'⟩ := ih hfiled
    refine ⟨hfiled', hlisted'.trans ?_⟩
    rw [hlisted, List.map_map, List.map_cons]
    apply List.map_congr_left
    intro row _
    exact (settledRow_cons hstatus).symm

/-- A put adds rows at the end, up to the first whose key is taken. -/
theorem put_filed (batch : List AccrualRow) (h : j.rows.Filed) : (put batch j).rows.Filed := by
  induction batch generalizing j with
  | nil => exact h
  | cons row batch ih =>
    unfold put
    cases hget : j.rows.rows.get row.key with
    | some taken => exact h
    | none => exact ih (h.add hget)

theorem putOne_listed {j : Journaled AccrualTables} (h : j.rows.Filed) {row : AccrualRow}
    (hfree : j.rows.rows.get row.key = none) : (put [row] j).rows.listed = j.rows.listed ++ [row] := by
  unfold put
  simp only [hfree, put]
  exact h.listed_add hfree

end AccrualTables

theorem AccrualWrite.run_filed {j : Journaled AccrualTables} (h : j.rows.Filed) (w : AccrualWrite) :
    (w.run j).rows.Filed := by
  cases w with
  | put batch => exact AccrualTables.put_filed batch h
  | mark keys status settledTxnId =>
    simp only [AccrualWrite.run]
    induction keys generalizing j with
    | nil => exact h
    | cons key keys ih => exact ih (AccrualTables.markOne_listed h status settledTxnId key).1

end EconomyLab

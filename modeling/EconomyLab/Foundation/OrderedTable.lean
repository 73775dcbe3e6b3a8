import Mathlib.Data.List.Nodup

/-!
# Keyed rows in insertion order

A map whose rows are also listed: writing an existing key keeps its place, a new key
goes to the end. Putting back what a write replaced is exact, order included.
-/

namespace EconomyLab.Foundation

universe u v

structure OrderedTable (K : Type u) (V : Type v) where
  entries : List (K × V)

namespace OrderedTable

variable {K : Type u} {V : Type v} [DecidableEq K]

def empty : OrderedTable K V := ⟨[]⟩

def lookup (k : K) : List (K × V) → Option V
  | [] => none
  | (k', v) :: rows => if k' = k then some v else lookup k rows

def put (k : K) (v : V) : List (K × V) → List (K × V)
  | [] => [(k, v)]
  | (k', v') :: rows => if k' = k then (k, v) :: rows else (k', v') :: put k v rows

def get (t : OrderedTable K V) (k : K) : Option V := lookup k t.entries

def has (t : OrderedTable K V) (k : K) : Bool := (t.get k).isSome

def set (t : OrderedTable K V) (k : K) (v : V) : OrderedTable K V := ⟨put k v t.entries⟩

def delete (t : OrderedTable K V) (k : K) : OrderedTable K V := ⟨t.entries.filter (·.1 ≠ k)⟩

omit [DecidableEq K] in
def values (t : OrderedTable K V) : List V := t.entries.map Prod.snd

/-- `had ? rows.set(key, prior) : rows.delete(key)`. -/
def restore (t : OrderedTable K V) (k : K) (prior : Option V) : OrderedTable K V :=
  match prior with
  | some v => t.set k v
  | none => t.delete k

theorem get_set (t : OrderedTable K V) (k k' : K) (v : V) :
    (t.set k v).get k' = if k' = k then some v else t.get k' := by
  obtain ⟨rows⟩ := t
  simp only [get, set]
  induction rows with
  | nil => by_cases h : k' = k <;> simp [put, lookup, h, Ne.symm]
  | cons row rows ih =>
    obtain ⟨j, w⟩ := row
    by_cases hj : j = k
    · subst hj
      by_cases h : k' = j
      · simp [put, lookup, h]
      · simp [put, lookup, h, Ne.symm h]
    · by_cases hjk : j = k'
      · subst hjk
        simp [put, lookup, hj]
      · simp [put, lookup, hj, hjk, ih]

@[simp] theorem get_set_self (t : OrderedTable K V) (k : K) (v : V) :
    (t.set k v).get k = some v := by
  simp [get_set]

@[simp] theorem get_set_of_ne (t : OrderedTable K V) {k k' : K} (v : V) (h : k' ≠ k) :
    (t.set k v).get k' = t.get k' := by
  simp [get_set, h]

theorem get_delete (t : OrderedTable K V) (k k' : K) :
    (t.delete k).get k' = if k' = k then none else t.get k' := by
  obtain ⟨rows⟩ := t
  simp only [get, delete]
  induction rows with
  | nil => simp [lookup]
  | cons row rows ih =>
    obtain ⟨j, w⟩ := row
    by_cases hj : j = k
    · subst hj
      by_cases h : k' = j
      · simpa [lookup, h] using ih
      · simpa [lookup, h, Ne.symm h] using ih
    · by_cases hjk : j = k'
      · subst hjk
        simp [lookup, hj]
      · simpa [lookup, hj, hjk] using ih

theorem restore_put (k : K) (v : V) (rows : List (K × V)) :
    (OrderedTable.mk (put k v rows)).restore k (lookup k rows) = ⟨rows⟩ := by
  cases hl : lookup k rows with
  | some prior =>
    simp only [restore, set]
    congr 1
    induction rows with
    | nil => cases hl
    | cons row rows ih =>
      obtain ⟨j, w⟩ := row
      by_cases hj : j = k
      · subst hj
        simp only [lookup, if_true, Option.some.injEq] at hl
        simp [put, hl]
      · simp only [lookup, hj, if_false] at hl
        simp [put, hj, ih hl]
  | none =>
    simp only [restore, delete]
    congr 1
    induction rows with
    | nil => simp [put]
    | cons row rows ih =>
      obtain ⟨j, w⟩ := row
      by_cases hj : j = k
      · simp [lookup, hj] at hl
      · simp only [lookup, hj, if_false] at hl
        simpa [put, hj] using ih hl

theorem restore_set (t : OrderedTable K V) (k : K) (v : V) :
    (t.set k v).restore k (t.get k) = t :=
  restore_put k v t.entries

omit [DecidableEq K] in
def keys (t : OrderedTable K V) : List K := t.entries.map Prod.fst

theorem keys_put (k : K) (v : V) (rows : List (K × V)) :
    (put k v rows).map Prod.fst =
      if k ∈ rows.map Prod.fst then rows.map Prod.fst else rows.map Prod.fst ++ [k] := by
  induction rows with
  | nil => simp [put]
  | cons row rows ih =>
    obtain ⟨j, w⟩ := row
    by_cases hj : j = k
    · simp [put, hj]
    · by_cases hm : k ∈ rows.map Prod.fst
      · rw [if_pos hm] at ih
        have hm' : k ∈ ((j, w) :: rows).map Prod.fst := List.mem_cons_of_mem _ hm
        rw [if_pos hm', put, if_neg hj, List.map_cons, ih, List.map_cons]
      · rw [if_neg hm] at ih
        have hn : k ∉ ((j, w) :: rows).map Prod.fst := by
          simpa [Ne.symm hj] using hm
        rw [if_neg hn, put, if_neg hj, List.map_cons, ih, List.map_cons, List.cons_append]

variable {t : OrderedTable K V}

theorem mem_keys_set {k k' : K} {v : V} : k' ∈ (t.set k v).keys ↔ k' = k ∨ k' ∈ t.keys := by
  unfold keys set
  rw [keys_put]
  split
  · rename_i hm
    constructor
    · exact Or.inr
    · rintro (rfl | h)
      · exact hm
      · exact h
  · simp [or_comm]

theorem nodup_keys_set (h : t.keys.Nodup) (k : K) (v : V) : (t.set k v).keys.Nodup := by
  unfold keys set
  rw [keys_put]
  split
  · exact h
  · rename_i hn
    rw [List.nodup_append]
    refine ⟨h, by simp, ?_⟩
    intro a ha b hb hab
    rw [List.mem_singleton] at hb
    exact hn (hb ▸ hab ▸ ha)

theorem get_eq_some (h : t.keys.Nodup) {k : K} {v : V} : t.get k = some v ↔ (k, v) ∈ t.entries := by
  obtain ⟨rows⟩ := t
  simp only [get, keys] at h ⊢
  induction rows with
  | nil => simp [lookup]
  | cons row rows ih =>
    obtain ⟨j, w⟩ := row
    rw [List.map_cons, List.nodup_cons] at h
    by_cases hj : j = k
    · subst hj
      simp only [lookup, if_true, Option.some.injEq, List.mem_cons, Prod.mk.injEq, true_and]
      constructor
      · exact fun he => Or.inl he.symm
      · rintro (he | hm)
        · exact he.symm
        · exact absurd (List.mem_map.mpr ⟨_, hm, rfl⟩) h.1
    · simp only [lookup, hj, if_false, ih h.2, List.mem_cons, Prod.mk.injEq, Ne.symm hj, false_and,
        false_or]

theorem get_isSome {k : K} : (t.get k).isSome ↔ k ∈ t.keys := by
  obtain ⟨rows⟩ := t
  simp only [get, keys]
  induction rows with
  | nil => simp [lookup]
  | cons row rows ih =>
    obtain ⟨j, w⟩ := row
    by_cases hj : j = k
    · simp [lookup, hj]
    · simp only [lookup, hj, if_false, ih, List.map_cons, List.mem_cons, Ne.symm hj, false_or]

/-- `for (const [key, value] of rows) table.set(key, value)`. -/
def setAll (t : OrderedTable K V) (rows : List (K × V)) : OrderedTable K V :=
  rows.foldl (fun t row => t.set row.1 row.2) t

theorem nodup_keys_setAll (h : t.keys.Nodup) (rows : List (K × V)) : (t.setAll rows).keys.Nodup := by
  unfold setAll
  induction rows generalizing t with
  | nil => exact h
  | cons row rows ih => exact ih (nodup_keys_set h row.1 row.2)

theorem get_setAll {rows : List (K × V)} (h : (rows.map Prod.fst).Nodup) (k : K) :
    (t.setAll rows).get k = (lookup k rows).or (t.get k) := by
  unfold setAll
  induction rows generalizing t with
  | nil => rfl
  | cons row rows ih =>
    obtain ⟨j, w⟩ := row
    rw [List.map_cons, List.nodup_cons] at h
    rw [List.foldl_cons, ih h.2]
    by_cases hj : j = k
    · subst hj
      have hnone : lookup j rows = none := by
        have hn := mt (get_isSome (t := ⟨rows⟩)).mp h.1
        exact Option.not_isSome_iff_eq_none.mp hn
      simp [lookup, hnone]
    · simp [lookup, hj, Ne.symm hj]

theorem lookup_map {W : Type v} (f : K → V → W) (k : K) (rows : List (K × V)) :
    lookup k (rows.map fun row => (row.1, f row.1 row.2)) = (lookup k rows).map (f k) := by
  induction rows with
  | nil => rfl
  | cons row rows ih =>
    by_cases hk : row.1 = k
    · subst hk
      simp [lookup]
    · simp [lookup, hk, ih]

theorem put_map {W : Type v} (f : K → V → W) (k : K) (v : V) (rows : List (K × V)) :
    (put k v rows).map (fun row => (row.1, f row.1 row.2)) =
      put k (f k v) (rows.map fun row => (row.1, f row.1 row.2)) := by
  induction rows with
  | nil => rfl
  | cons row rows ih =>
    by_cases hk : row.1 = k
    · simp [put, hk]
    · simp [put, hk, ih]

omit [DecidableEq K] in
@[simp] theorem keys_empty : (empty : OrderedTable K V).keys = [] := rfl

@[simp] theorem get_empty (k : K) : (empty : OrderedTable K V).get k = none := rfl

theorem mem_keys_delete {k k' : K} : k' ∈ (t.delete k).keys ↔ k' ≠ k ∧ k' ∈ t.keys := by
  rw [← get_isSome, ← get_isSome, get_delete]
  by_cases hk : k' = k
  · simp only [hk, if_true, Option.isSome_none, ne_eq, not_true, false_and, Bool.false_eq_true]
  · simp only [hk, if_false, ne_eq, not_false_eq_true, true_and]

theorem nodup_keys_delete (h : t.keys.Nodup) (k : K) : (t.delete k).keys.Nodup :=
  List.Nodup.sublist (List.filter_sublist.map _) h

theorem entries_set_absent {k : K} (h : k ∉ t.keys) (v : V) :
    (t.set k v).entries = t.entries ++ [(k, v)] := by
  obtain ⟨rows⟩ := t
  change put k v rows = rows ++ [(k, v)]
  induction rows with
  | nil => rfl
  | cons row rows ih =>
    have hne : row.1 ≠ k := fun heq => h (heq ▸ List.mem_cons_self)
    have hrest : k ∉ (OrderedTable.mk rows).keys := fun hmem => h (List.mem_cons_of_mem _ hmem)
    change (if row.1 = k then _ else _) = _
    rw [if_neg hne, ih hrest, List.cons_append]

end OrderedTable

end EconomyLab.Foundation

import EconomyLab.Foundation.OrderedTable
import Mathlib.Algebra.BigOperators.Group.List.Basic
import Mathlib.Tactic.Abel

/-!
# What the rows of a table hold

Every row weighs something, and a table holds the sum. A write exchanges the weight of the row it
replaces for that of the row it puts.
-/

namespace EconomyLab.Foundation

universe u v

namespace OrderedTable

variable {K : Type u} {V : Type v} [DecidableEq K] {M : Type*} [AddCommGroup M] (weight : V → M)

omit [DecidableEq K] in
def held (t : OrderedTable K V) : M := (t.values.map weight).sum

omit [DecidableEq K] in
@[simp] theorem held_empty : held weight (empty : OrderedTable K V) = 0 := List.sum_nil

/-- What the row of a key weighs, if there is one. -/
def heldAt (t : OrderedTable K V) (k : K) : M := ((t.get k).map weight).getD 0

variable {t : OrderedTable K V} {k : K}

theorem heldAt_of_get {v : V} (h : t.get k = some v) : t.heldAt weight k = weight v := by
  rw [heldAt, h]
  rfl

theorem heldAt_of_absent (h : t.get k = none) : t.heldAt weight k = 0 := by
  rw [heldAt, h]
  rfl

theorem held_set (t : OrderedTable K V) (k : K) (v : V) :
    (t.set k v).held weight = t.held weight - t.heldAt weight k + weight v := by
  obtain ⟨rows⟩ := t
  simp only [set, held, heldAt, get, values, List.map_map]
  induction rows with
  | nil => simp [put, lookup]
  | cons row rows ih =>
    obtain ⟨k', v'⟩ := row
    by_cases hk : k' = k
    · simp [put, lookup, hk, add_comm]
    · simp only [put, lookup, if_neg hk, List.map_cons, List.sum_cons, Function.comp_apply]
      rw [ih]
      abel

theorem held_set_absent (h : t.get k = none) (v : V) :
    (t.set k v).held weight = t.held weight + weight v := by
  rw [held_set, heldAt_of_absent weight h, sub_zero]

theorem held_set_same {v v' : V} (h : t.get k = some v)
    (hweight : weight v' = weight v) : (t.set k v').held weight = t.held weight := by
  rw [held_set, heldAt_of_get weight h, hweight, sub_add_cancel]

theorem held_set_released {v v' : V} (h : t.get k = some v)
    (hweight : weight v' = 0) : (t.set k v').held weight = t.held weight - weight v := by
  rw [held_set, heldAt_of_get weight h, hweight, add_zero]

end OrderedTable

end EconomyLab.Foundation

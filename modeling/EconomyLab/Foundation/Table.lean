import Mathlib.Data.List.Basic

/-!
# Keyed tables

A keyed table is known through its lookups. Two tables with the same lookups are
equal, so "restored exactly" is an equation between tables.
-/

namespace EconomyLab.Foundation

universe u v

structure Table (K : Type u) (V : Type v) where
  get : K → Option V

namespace Table

variable {K : Type u} {V : Type v}

@[ext] theorem ext {t t' : Table K V} (h : ∀ k, t.get k = t'.get k) : t = t' := by
  cases t
  cases t'
  congr
  exact funext h

def empty : Table K V := ⟨fun _ => none⟩

def has (t : Table K V) (k : K) : Bool := (t.get k).isSome

variable (t : Table K V) (k : K)

@[simp] theorem get_empty : (empty : Table K V).get k = none := rfl

@[simp] theorem has_empty : (empty : Table K V).has k = false := rfl

variable [DecidableEq K]

def set (t : Table K V) (k : K) (v : V) : Table K V :=
  ⟨fun k' => if k' = k then some v else t.get k'⟩

def delete (t : Table K V) (k : K) : Table K V :=
  ⟨fun k' => if k' = k then none else t.get k'⟩

theorem get_set (k k' : K) (v : V) : (t.set k v).get k' = if k' = k then some v else t.get k' := rfl

theorem get_delete (k k' : K) : (t.delete k).get k' = if k' = k then none else t.get k' := rfl

@[simp] theorem get_set_self (v : V) : (t.set k v).get k = some v := by
  simp [get_set]

@[simp] theorem get_set_of_ne {k k' : K} (v : V) (h : k' ≠ k) : (t.set k v).get k' = t.get k' := by
  simp [get_set, h]

@[simp] theorem get_delete_self : (t.delete k).get k = none := by
  simp [get_delete]

@[simp] theorem get_delete_of_ne {k k' : K} (h : k' ≠ k) : (t.delete k).get k' = t.get k' := by
  simp [get_delete, h]

/-- Put a remembered lookup back: the row itself, or its absence. -/
def restore (t : Table K V) (k : K) (prior : Option V) : Table K V :=
  match prior with
  | some v => t.set k v
  | none => t.delete k

theorem get_restore (k k' : K) (prior : Option V) :
    (t.restore k prior).get k' = if k' = k then prior else t.get k' := by
  cases prior <;> simp [restore, get_set, get_delete]

@[simp] theorem get_restore_self (prior : Option V) : (t.restore k prior).get k = prior := by
  simp [get_restore]

@[simp] theorem get_restore_of_ne {k k' : K} (prior : Option V) (h : k' ≠ k) :
    (t.restore k prior).get k' = t.get k' := by
  simp [get_restore, h]

end Table

end EconomyLab.Foundation

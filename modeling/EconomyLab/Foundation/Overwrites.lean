import EconomyLab.Foundation.Table

/-!
# A table that remembers what it overwrites

Each write journals what the key held before it. Undoing the journal back to a mark gives the
table that was there at the mark, whatever was written since.
-/

namespace EconomyLab.Foundation

universe u v

structure Overwrites (K : Type u) (V : Type v) where
  map : Table K V
  journal : List (K × Option V)

namespace Overwrites

variable {K : Type u} {V : Type v} [DecidableEq K]

def empty : Overwrites K V := ⟨Table.empty, []⟩

def get (t : Overwrites K V) (k : K) : Option V := t.map.get k

def has (t : Overwrites K V) (k : K) : Bool := t.map.has k

def set (t : Overwrites K V) (k : K) (v : V) : Overwrites K V :=
  ⟨t.map.set k v, t.journal ++ [(k, t.map.get k)]⟩

def mark (t : Overwrites K V) : Nat := t.journal.length

/-- The last overwrite is undone first. -/
def undo (map : Table K V) (entries : List (K × Option V)) : Table K V :=
  entries.foldr (fun entry map => map.restore entry.1 entry.2) map

def rollbackTo (t : Overwrites K V) (mark : Nat) : Overwrites K V :=
  ⟨undo t.map (t.journal.drop mark), t.journal.take mark⟩

@[simp] theorem get_set_self (t : Overwrites K V) (k : K) (v : V) : (t.set k v).get k = some v :=
  Table.get_set_self t.map k v

theorem get_set (t : Overwrites K V) (k k' : K) (v : V) :
    (t.set k v).get k' = if k' = k then some v else t.get k' := Table.get_set t.map k k' v

/-- What was written since `t` is undone by undoing the new end of the journal. -/
def Since (t t' : Overwrites K V) : Prop := ∃ new, t'.journal = t.journal ++ new ∧ undo t'.map new = t.map

namespace Since

variable {t t' t'' : Overwrites K V}

theorem refl (t : Overwrites K V) : t.Since t := ⟨[], (List.append_nil _).symm, rfl⟩

theorem restore_set (map : Table K V) (k : K) (v : V) : (map.set k v).restore k (map.get k) = map := by
  apply Table.ext
  intro k'
  rw [Table.get_restore]
  by_cases hsame : k' = k
  · rw [if_pos hsame, hsame]
  · rw [if_neg hsame]
    exact Table.get_set_of_ne map v hsame

theorem set (h : t.Since t') (k : K) (v : V) : t.Since (t'.set k v) := by
  obtain ⟨new, hjournal, hundo⟩ := h
  refine ⟨new ++ [(k, t'.map.get k)], ?_, ?_⟩
  · change t'.journal ++ _ = _
    rw [hjournal, List.append_assoc]
  · unfold undo at hundo ⊢
    rw [List.foldr_append]
    change List.foldr _ ((t'.map.set k v).restore k (t'.map.get k)) new = _
    rw [restore_set]
    exact hundo

theorem foldl_set {α : Type*} (h : t.Since t') (key : α → K) (value : α → V) (xs : List α) :
    t.Since (xs.foldl (fun t x => t.set (key x) (value x)) t') := by
  induction xs generalizing t' with
  | nil => exact h
  | cons x xs ih => exact ih (h.set (key x) (value x))

theorem trans (h : t.Since t') (h' : t'.Since t'') : t.Since t'' := by
  obtain ⟨new, hjournal, hundo⟩ := h
  obtain ⟨later, hjournal', hundo'⟩ := h'
  refine ⟨new ++ later, ?_, ?_⟩
  · rw [hjournal', hjournal, List.append_assoc]
  · unfold undo at hundo hundo' ⊢
    rw [List.foldr_append, hundo']
    exact hundo

theorem rollbackTo_mark (h : t.Since t') : t'.rollbackTo t.mark = t := by
  obtain ⟨new, hjournal, hundo⟩ := h
  unfold rollbackTo mark
  rw [hjournal, List.drop_left, List.take_left, hundo]

end Since

end Overwrites

end EconomyLab.Foundation

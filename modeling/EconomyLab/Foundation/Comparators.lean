import Mathlib.Data.Int.Order.Basic
import Mathlib.Data.List.Sort

/-!
# Comparators

A comparator says with the sign of a number which of two values comes first. Comparators are
chained, the next one deciding where the first sees no difference, and a list sorted by a chain
that tells its items apart does not remember the order it had before.
-/

namespace EconomyLab.Foundation

universe u

variable {α : Type u} {f g : α → α → Int}

structure Comparator (f : α → α → Int) : Prop where
  swap : ∀ a b, 0 ≤ f b a ↔ f a b ≤ 0
  trans : ∀ a b c, f a b ≤ 0 → f b c ≤ 0 → f a c ≤ 0

/-- `||` on numbers. -/
def orElse (a b : Int) : Int := if a ≠ 0 then a else b

namespace Comparator

theorem total (h : Comparator f) (a b : α) : f a b ≤ 0 ∨ f b a ≤ 0 := by
  rcases Int.le_total (f a b) 0 with hab | hba
  · exact Or.inl hab
  · exact Or.inr ((h.swap b a).mp hba)

theorem eq_zero_comm (h : Comparator f) {a b : α} (hab : f a b = 0) : f b a = 0 := by
  have hle := (h.swap b a).mp hab.ge
  have hge := (h.swap a b).mpr hab.le
  exact Int.le_antisymm hle hge

theorem eq_zero_of_le (h : Comparator f) {a b : α} (hab : f a b ≤ 0) (hba : f b a ≤ 0) : f a b = 0 :=
  Int.le_antisymm hab ((h.swap b a).mpr hba)

theorem eq_zero_between (h : Comparator f) {a b c : α} (hab : f a b ≤ 0) (hbc : f b c ≤ 0)
    (hac : f a c = 0) :
    f a b = 0 ∧ f b c = 0 := by
  have hca := (h.eq_zero_comm hac).le
  exact ⟨h.eq_zero_of_le hab (h.trans b c a hbc hca), h.eq_zero_of_le hbc (h.trans c a b hca hab)⟩

theorem orElse_le_zero {a b : Int} : orElse a b ≤ 0 ↔ a ≤ 0 ∧ (a = 0 → b ≤ 0) := by
  unfold orElse
  split <;> omega

theorem zero_le_orElse {a b : Int} : 0 ≤ orElse a b ↔ 0 ≤ a ∧ (a = 0 → 0 ≤ b) := by
  unfold orElse
  split <;> omega

theorem orElse_eq_zero {a b : Int} : orElse a b = 0 ↔ a = 0 ∧ b = 0 := by
  unfold orElse
  split <;> omega

theorem chain (hf : Comparator f) (hg : Comparator g) : Comparator fun a b => orElse (f a b) (g a b) where
  swap a b := by
    rw [orElse_le_zero, zero_le_orElse, hf.swap, hg.swap]
    have hzero : f b a = 0 ↔ f a b = 0 := ⟨hf.eq_zero_comm, hf.eq_zero_comm⟩
    rw [hzero]
  trans a b c hab hbc := by
    rw [orElse_le_zero] at hab hbc ⊢
    refine ⟨hf.trans a b c hab.1 hbc.1, ?_⟩
    intro hac
    obtain ⟨hzab, hzbc⟩ := hf.eq_zero_between hab.1 hbc.1 hac
    exact hg.trans a b c (hab.2 hzab) (hbc.2 hzbc)

theorem comap {β : Type*} (h : Comparator f) (key : β → α) : Comparator fun a b => f (key a) (key b) :=
  ⟨fun a b => h.swap (key a) (key b), fun a b c => h.trans (key a) (key b) (key c)⟩

/-- Two orders of the same items are sorted alike when the comparator tells the items apart. -/
theorem sort_perm (h : Comparator f) {xs ys : List α} (hperm : xs.Perm ys)
    (hapart : ∀ a ∈ xs, ∀ b ∈ xs, f a b = 0 → a = b) :
    xs.insertionSort (fun a b => f a b ≤ 0) = ys.insertionSort fun a b => f a b ≤ 0 := by
  let r : α → α → Prop := fun a b => f a b ≤ 0
  have total : Std.Total r := ⟨h.total⟩
  have trans : IsTrans α r := ⟨h.trans⟩
  have hsorted : (xs.insertionSort r).Perm (ys.insertionSort r) :=
    (List.perm_insertionSort r xs).trans (hperm.trans (List.perm_insertionSort r ys).symm)
  apply hsorted.eq_of_pairwise _ (List.pairwise_insertionSort r xs) (List.pairwise_insertionSort r ys)
  intro a b ha hb hab hba
  rw [List.mem_insertionSort] at ha hb
  exact hapart a ha b (hperm.mem_iff.mpr hb) (h.eq_zero_of_le hab hba)

end Comparator

end EconomyLab.Foundation

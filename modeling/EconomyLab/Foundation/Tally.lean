import Mathlib.Algebra.BigOperators.Group.List.Basic
import Mathlib.Data.List.Nodup
import Mathlib.Tactic.Ring

/-!
# Tallies

Amounts accumulated per key in a map that keeps first-insertion order. A tally holds
each key once, with the total of its amounts.
-/

namespace EconomyLab.Foundation

universe u
variable {K : Type u} [DecidableEq K]

/-- The amounts under one key, summed. -/
def total (xs : List (K × Int)) (k : K) : Int := ((xs.filter (·.1 = k)).map Prod.snd).sum

namespace Tally

def bump (k : K) (v : Int) : List (K × Int) → List (K × Int)
  | [] => [(k, v)]
  | (k', w) :: t => if k' = k then (k', w + v) :: t else (k', w) :: bump k v t

end Tally

def tally (xs : List (K × Int)) : List (K × Int) :=
  xs.foldl (fun t x => Tally.bump x.1 x.2 t) []

variable (xs : List (K × Int)) (k : K)

@[simp] theorem total_nil : total [] k = 0 := rfl

theorem total_cons (x : K × Int) (xs : List (K × Int)) (k : K) :
    total (x :: xs) k = (if x.1 = k then x.2 else 0) + total xs k := by
  by_cases h : x.1 = k <;> simp [total, h]

@[simp] theorem total_append (xs ys : List (K × Int)) (k : K) :
    total (xs ++ ys) k = total xs k + total ys k := by
  simp [total]

theorem total_eq_zero {xs : List (K × Int)} {k : K} (h : k ∉ xs.map Prod.fst) : total xs k = 0 := by
  induction xs with
  | nil => rfl
  | cons x xs ih =>
    rw [List.map_cons, List.mem_cons, not_or] at h
    rw [total_cons, if_neg (Ne.symm h.1), ih h.2, zero_add]

theorem total_of_mem {xs : List (K × Int)} (hnd : (xs.map Prod.fst).Nodup) {k : K} {v : Int}
    (h : (k, v) ∈ xs) : total xs k = v := by
  induction xs with
  | nil => cases h
  | cons x xs ih =>
    rw [List.map_cons, List.nodup_cons] at hnd
    rw [total_cons]
    rcases List.mem_cons.mp h with rfl | h
    · simp [total_eq_zero hnd.1]
    · have hne : x.1 ≠ k := by
        rintro rfl
        exact hnd.1 (List.mem_map.mpr ⟨_, h, rfl⟩)
      rw [if_neg hne, ih hnd.2 h, zero_add]

namespace Tally

theorem total_bump (k k' : K) (v : Int) (t : List (K × Int)) :
    total (bump k v t) k' = total t k' + if k = k' then v else 0 := by
  induction t with
  | nil => simp [bump, total_cons]
  | cons x t ih =>
    obtain ⟨j, w⟩ := x
    by_cases hj : j = k
    · subst hj
      by_cases hk : j = k'
      · subst hk
        simp only [bump, if_true, total_cons]
        ring
      · simp [bump, total_cons, hk]
    · simp only [bump, hj, if_false, total_cons, ih]
      ring

theorem mem_keys_bump (k k' : K) (v : Int) (t : List (K × Int)) :
    k' ∈ (bump k v t).map Prod.fst ↔ k' = k ∨ k' ∈ t.map Prod.fst := by
  induction t with
  | nil => simp [bump]
  | cons x t ih =>
    obtain ⟨j, w⟩ := x
    by_cases hj : j = k
    · subst hj
      simp [bump]
    · simp only [bump, hj, if_false, List.map_cons, List.mem_cons, ih]
      exact or_left_comm

theorem nodup_bump (v : Int) {t : List (K × Int)} (h : (t.map Prod.fst).Nodup) :
    ((bump k v t).map Prod.fst).Nodup := by
  induction t with
  | nil => simp [bump]
  | cons x t ih =>
    obtain ⟨j, w⟩ := x
    rw [List.map_cons, List.nodup_cons] at h
    by_cases hj : j = k
    · subst hj
      simpa [bump] using h
    · simp only [bump, hj, if_false, List.map_cons, List.nodup_cons]
      refine ⟨?_, ih h.2⟩
      rw [mem_keys_bump]
      rintro (rfl | hm)
      · exact hj rfl
      · exact h.1 hm

end Tally

theorem foldl_bump_total (xs t : List (K × Int)) (k : K) :
    total (xs.foldl (fun t x => Tally.bump x.1 x.2 t) t) k = total t k + total xs k := by
  induction xs generalizing t with
  | nil => simp
  | cons x xs ih =>
    rw [List.foldl_cons, ih, Tally.total_bump, total_cons]
    ring

theorem foldl_bump_keys (xs t : List (K × Int)) (k : K) :
    k ∈ (xs.foldl (fun t x => Tally.bump x.1 x.2 t) t).map Prod.fst ↔
      k ∈ t.map Prod.fst ∨ k ∈ xs.map Prod.fst := by
  induction xs generalizing t with
  | nil => simp
  | cons x xs ih =>
    rw [List.foldl_cons, ih, Tally.mem_keys_bump, List.map_cons, List.mem_cons]
    tauto

theorem foldl_bump_nodup {t : List (K × Int)} (h : (t.map Prod.fst).Nodup) :
    ((xs.foldl (fun t x => Tally.bump x.1 x.2 t) t).map Prod.fst).Nodup := by
  induction xs generalizing t with
  | nil => exact h
  | cons x xs ih => exact ih (Tally.nodup_bump _ _ h)

theorem tally_total : total (tally xs) k = total xs k := by
  simp [tally, foldl_bump_total]

theorem tally_keys : k ∈ (tally xs).map Prod.fst ↔ k ∈ xs.map Prod.fst := by
  simp [tally, foldl_bump_keys]

theorem tally_nodup : ((tally xs).map Prod.fst).Nodup :=
  foldl_bump_nodup xs (by simp)

theorem mem_tally {xs : List (K × Int)} {k : K} {v : Int} :
    (k, v) ∈ tally xs ↔ k ∈ xs.map Prod.fst ∧ v = total xs k := by
  constructor
  · intro h
    refine ⟨(tally_keys xs k).mp (List.mem_map.mpr ⟨_, h, rfl⟩), ?_⟩
    rw [← tally_total, total_of_mem (tally_nodup xs) h]
  · rintro ⟨hk, rfl⟩
    obtain ⟨⟨k', v⟩, hm, rfl⟩ := List.mem_map.mp ((tally_keys xs k).mpr hk)
    rwa [← tally_total, total_of_mem (tally_nodup xs) hm]

theorem sum_foldl_bump (xs t : List (K × Int)) :
    ((xs.foldl (fun t x => Tally.bump x.1 x.2 t) t).map Prod.snd).sum =
      (t.map Prod.snd).sum + (xs.map Prod.snd).sum := by
  have bump_sum : ∀ (k : K) (v : Int) (t : List (K × Int)),
      ((Tally.bump k v t).map Prod.snd).sum = (t.map Prod.snd).sum + v := by
    intro k v t
    induction t with
    | nil => simp [Tally.bump]
    | cons x t ih =>
      obtain ⟨j, w⟩ := x
      by_cases hj : j = k
      · simp only [Tally.bump, hj, if_true, List.map_cons, List.sum_cons]
        ring
      · simp only [Tally.bump, hj, if_false, List.map_cons, List.sum_cons, ih]
        ring
  induction xs generalizing t with
  | nil => simp
  | cons x xs ih =>
    rw [List.foldl_cons, ih, bump_sum, List.map_cons, List.sum_cons]
    ring

theorem sum_tally : ((tally xs).map Prod.snd).sum = (xs.map Prod.snd).sum := by
  simp [tally, sum_foldl_bump]

theorem sum_map_change {α : Type u} {xs : List α} (hnd : xs.Nodup) {k : α} (hk : k ∈ xs) {f g : α → Int}
    (hfg : ∀ x ∈ xs, x ≠ k → g x = f x) : (xs.map g).sum = (xs.map f).sum + (g k - f k) := by
  induction xs with
  | nil => cases hk
  | cons x xs ih =>
    rw [List.nodup_cons] at hnd
    rw [List.map_cons, List.map_cons, List.sum_cons, List.sum_cons]
    rcases List.mem_cons.mp hk with rfl | hk
    · have hrest : xs.map g = xs.map f := by
        apply List.map_congr_left
        intro x hx
        exact hfg x (List.mem_cons_of_mem _ hx) fun he => hnd.1 (he ▸ hx)
      rw [hrest]
      ring
    · have hne : x ≠ k := fun he => hnd.1 (he ▸ hk)
      rw [ih hnd.2 hk fun y hy => hfg y (List.mem_cons_of_mem _ hy), hfg x List.mem_cons_self hne]
      ring

/-- Every value is counted under exactly one key. -/
theorem sum_totals {xs : List (K × Int)} {ks : List K} (hnd : ks.Nodup) (hk : ∀ x ∈ xs, x.1 ∈ ks) :
    (ks.map (total xs)).sum = (xs.map Prod.snd).sum := by
  induction xs with
  | nil =>
    apply List.sum_eq_zero
    intro v hv
    obtain ⟨k, -, rfl⟩ := List.mem_map.mp hv
    rfl
  | cons x xs ih =>
    have hother : ∀ k ∈ ks, k ≠ x.1 → total (x :: xs) k = total xs k := by
      intro k _ hne
      rw [total_cons, if_neg fun he => hne he.symm, zero_add]
    rw [sum_map_change hnd (hk x List.mem_cons_self) hother, ih fun y hy =>
      hk y (List.mem_cons_of_mem _ hy),
      List.map_cons, List.sum_cons, total_cons, if_pos rfl]
    ring

theorem sum_map_set {α : Type u} {xs : List α} {i : Nat} {x y : α} (f : α → Int) (hi : xs[i]? = some x) :
    ((xs.set i y).map f).sum = (xs.map f).sum - f x + f y := by
  induction xs generalizing i with
  | nil => simp at hi
  | cons z xs ih =>
    cases i with
    | zero =>
      simp only [List.getElem?_cons_zero, Option.some.injEq] at hi
      subst hi
      simp only [List.set_cons_zero, List.map_cons, List.sum_cons]
      ring
    | succ i =>
      simp only [List.getElem?_cons_succ] at hi
      simp only [List.set_cons_succ, List.map_cons, List.sum_cons, ih hi]
      ring

end EconomyLab.Foundation

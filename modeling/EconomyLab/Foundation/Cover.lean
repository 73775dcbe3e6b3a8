import Mathlib.Algebra.BigOperators.Group.List.Basic
import Mathlib.Data.Int.Order.Basic
import Mathlib.Tactic.Linarith

/-!
# Covering a need

Items of positive size are taken in order until their sizes cover a need; the last one is
taken in part. What is taken of one list after another, when none of the items of a kind is
reached, and what draining the other end first leaves.
-/

namespace EconomyLab.Foundation

universe u

variable {α : Type u} (size : α → Int)

/-- The items taken with how much of each is. -/
def cover : Int → List α → List (α × Int)
  | _, [] => []
  | need, x :: xs => if need ≤ 0 then [] else (x, min (size x) need) :: cover (need - size x) xs

def totalSize (xs : List α) : Int := (xs.map size).sum

def taken (kind : α → Bool) (need : Int) (xs : List α) : Int :=
  (((cover size need xs).filter fun p => kind p.1).map Prod.snd).sum

/-- Every item of the kind comes when the need is already covered. -/
def Unreached (kind : α → Bool) (need : Int) (xs : List α) : Prop :=
  ∀ before x after, xs = before ++ x :: after → kind x = true → need ≤ totalSize size before

variable {size}

@[simp] theorem cover_nil (need : Int) : cover size need [] = [] := rfl

theorem cover_cons (need : Int) (x : α) (xs : List α) :
    cover size need (x :: xs) =
      if need ≤ 0 then [] else (x, min (size x) need) :: cover size (need - size x) xs := rfl

theorem cover_met {need : Int} (h : need ≤ 0) (xs : List α) : cover size need xs = [] := by
  cases xs with
  | nil => rfl
  | cons x xs => rw [cover_cons, if_pos h]

@[simp] theorem totalSize_nil : totalSize size [] = 0 := rfl

@[simp] theorem totalSize_cons (x : α) (xs : List α) :
    totalSize size (x :: xs) = size x + totalSize size xs := by
  simp [totalSize]

variable {xs : List α}

theorem totalSize_nonneg (h : ∀ x ∈ xs, 0 < size x) : 0 ≤ totalSize size xs := by
  induction xs with
  | nil => exact le_rfl
  | cons x xs ih =>
    have hx := h x List.mem_cons_self
    have hxs := ih fun y hy => h y (List.mem_cons_of_mem _ hy)
    rw [totalSize_cons]
    omega

theorem cover_append (h : ∀ x ∈ xs, 0 < size x) (need : Int) (ys : List α) :
    cover size need (xs ++ ys) = cover size need xs ++ cover size (need - totalSize size xs) ys := by
  induction xs generalizing need with
  | nil => simp
  | cons x xs ih =>
    have hxs : ∀ y ∈ xs, 0 < size y := fun y hy => h y (List.mem_cons_of_mem _ hy)
    have hx := h x List.mem_cons_self
    have hsum := totalSize_nonneg hxs
    rw [List.cons_append, cover_cons, cover_cons, totalSize_cons]
    by_cases hn : need ≤ 0
    · have hmet : need - (size x + totalSize size xs) ≤ 0 := by omega
      simp only [if_pos hn, cover_met hmet, List.append_nil]
    · have hneed : need - size x - totalSize size xs = need - (size x + totalSize size xs) := by omega
      simp only [if_neg hn, ih hxs, List.cons_append, hneed]

theorem taken_append (h : ∀ x ∈ xs, 0 < size x) (kind : α → Bool) (need : Int) (ys : List α) :
    taken size kind need (xs ++ ys) =
      taken size kind need xs + taken size kind (need - totalSize size xs) ys := by
  simp only [taken, cover_append h, List.filter_append, List.map_append, List.sum_append]

@[simp] theorem taken_nil (kind : α → Bool) (need : Int) : taken size kind need [] = 0 := rfl

theorem taken_met {need : Int} (h : need ≤ 0) (kind : α → Bool) (xs : List α) :
    taken size kind need xs = 0 := by
  rw [taken, cover_met h]
  rfl

theorem taken_cons {need : Int} (h : 0 < need) (kind : α → Bool) (x : α) (xs : List α) :
    taken size kind need (x :: xs) =
      (if kind x then min (size x) need else 0) + taken size kind (need - size x) xs := by
  unfold taken
  rw [cover_cons, if_neg (not_le_of_gt h), List.filter_cons]
  by_cases hk : kind x = true
  · simp [hk]
  · simp [hk]

theorem taken_nonneg (h : ∀ x ∈ xs, 0 < size x) (kind : α → Bool) (need : Int) :
    0 ≤ taken size kind need xs := by
  induction xs generalizing need with
  | nil => exact le_rfl
  | cons x xs ih =>
    by_cases hn : need ≤ 0
    · exact (taken_met hn kind (x :: xs)).ge
    · have hx := h x List.mem_cons_self
      have hxs := ih (fun y hy => h y (List.mem_cons_of_mem _ hy)) (need - size x)
      rw [taken_cons (lt_of_not_ge hn)]
      split
      · have hmin : 0 ≤ min (size x) need := le_min hx.le (le_of_not_ge hn)
        omega
      · omega

theorem taken_mono (h : ∀ x ∈ xs, 0 < size x) {kind kind' : α → Bool}
    (himp : ∀ x ∈ xs, kind x = true → kind' x = true) (need : Int) :
    taken size kind need xs ≤ taken size kind' need xs := by
  induction xs generalizing need with
  | nil => exact le_rfl
  | cons x xs ih =>
    by_cases hn : need ≤ 0
    · rw [taken_met hn, taken_met hn]
    · have hx := h x List.mem_cons_self
      have hrest := ih (fun y hy => h y (List.mem_cons_of_mem _ hy))
        (fun y hy => himp y (List.mem_cons_of_mem _ hy)) (need - size x)
      have hmin : 0 ≤ min (size x) need := le_min hx.le (le_of_not_ge hn)
      rw [taken_cons (lt_of_not_ge hn), taken_cons (lt_of_not_ge hn)]
      by_cases hk : kind x = true
      · rw [if_pos hk, if_pos (himp x List.mem_cons_self hk)]
        omega
      · rw [if_neg hk]
        split
        · omega
        · omega

theorem taken_le (h : ∀ x ∈ xs, 0 < size x) (kind : α → Bool) {need : Int}
    (hn : 0 ≤ need) : taken size kind need xs ≤ need := by
  induction xs generalizing need with
  | nil => exact hn
  | cons x xs ih =>
    rcases hn.eq_or_lt with rfl | hn
    · exact (taken_met le_rfl kind (x :: xs)).le
    · have hx := h x List.mem_cons_self
      have hxs : ∀ y ∈ xs, 0 < size y := fun y hy => h y (List.mem_cons_of_mem _ hy)
      rw [taken_cons hn]
      rcases le_total (size x) need with hle | hle
      · have hrest := ih hxs (sub_nonneg.mpr hle)
        split
        · rw [min_eq_left hle]
          omega
        · omega
      · have hrest : taken size kind (need - size x) xs = 0 := taken_met (by omega) kind xs
        split
        · rw [min_eq_right hle]
          omega
        · omega

theorem unreached_cons {kind : α → Bool} {need : Int} {x : α} : Unreached size kind need (x :: xs) ↔
      (kind x = true → need ≤ 0) ∧ Unreached size kind (need - size x) xs := by
  constructor
  · intro h
    refine ⟨fun hk => h [] x xs rfl hk, ?_⟩
    intro before y after hsplit hk
    have hy := h (x :: before) y after (by rw [hsplit, List.cons_append]) hk
    rw [totalSize_cons] at hy
    omega
  · rintro ⟨hx, hxs⟩ before y after hsplit hk
    cases before with
    | nil =>
      cases hsplit
      exact hx hk
    | cons z before =>
      cases hsplit
      have hy := hxs before y after rfl hk
      rw [totalSize_cons]
      omega

/-- Nothing is taken of a kind exactly when the need never reaches one of its items. -/
theorem taken_eq_zero_iff (h : ∀ x ∈ xs, 0 < size x) (kind : α → Bool) (need : Int) :
    taken size kind need xs = 0 ↔ Unreached size kind need xs := by
  induction xs generalizing need with
  | nil =>
    refine iff_of_true rfl ?_
    intro before x after hsplit
    exact absurd hsplit.symm (by simp)
  | cons x xs ih =>
    have hxs : ∀ y ∈ xs, 0 < size y := fun y hy => h y (List.mem_cons_of_mem _ hy)
    have hx := h x List.mem_cons_self
    rw [unreached_cons, ← ih hxs]
    by_cases hn : need ≤ 0
    · have hrest : taken size kind (need - size x) xs = 0 := taken_met (by omega) kind xs
      rw [taken_met hn]
      exact iff_of_true rfl ⟨fun _ => hn, hrest⟩
    · have hpos := taken_nonneg hxs kind (need - size x)
      rw [taken_cons (lt_of_not_ge hn)]
      by_cases hk : kind x = true
      · have hmin : 0 < min (size x) need := lt_min hx (lt_of_not_ge hn)
        simp only [hk, if_true]
        constructor
        · intro hz
          omega
        · rintro ⟨hz, -⟩
          exact absurd (hz trivial) hn
      · simp [hk]

variable (size) in
/-- What is left of the items once the need is drained from the first ones; one may be split. -/
def undrained : Int → List α → List (α × Int)
  | _, [] => []
  | need, x :: xs =>
    if need ≤ 0 then (x, size x) :: undrained need xs
    else if size x ≤ need then undrained (need - size x) xs
    else (x, size x - need) :: undrained 0 xs

variable (size) in
/-- How much is left of the items of a kind. -/
def undrainedOf (kind : α → Bool) (need : Int) (xs : List α) : Int :=
  (((undrained size need xs).filter fun p => kind p.1).map Prod.snd).sum

theorem undrained_met {need : Int} (h : need ≤ 0) (xs : List α) :
    undrained size need xs = xs.map fun x => (x, size x) := by
  induction xs with
  | nil => rfl
  | cons x xs ih =>
    rw [undrained, if_pos h, ih]
    rfl

theorem undrained_append (h : ∀ x ∈ xs, 0 < size x) (need : Int) (ys : List α) :
    undrained size need (xs ++ ys) = undrained size need xs ++ undrained size
      (need - totalSize size xs) ys := by
  induction xs generalizing need with
  | nil => simp [undrained]
  | cons x xs ih =>
    have hxs : ∀ y ∈ xs, 0 < size y := fun y hy => h y (List.mem_cons_of_mem _ hy)
    have hx := h x List.mem_cons_self
    have hsum := totalSize_nonneg hxs
    have hnone : ∀ {n n' : Int}, n ≤ 0 → n' ≤ 0 → undrained size n ys = undrained size n' ys := by
      intro n n' hn hn'
      rw [undrained_met hn, undrained_met hn']
    rw [List.cons_append, undrained, undrained, totalSize_cons]
    by_cases hn : need ≤ 0
    · rw [if_pos hn, if_pos hn, ih hxs, List.cons_append]
      have hleft : undrained size (need - totalSize size xs) ys =
          undrained size (need - (size x + totalSize size xs)) ys :=
        hnone (by omega) (by omega)
      rw [hleft]
    · rw [if_neg hn, if_neg hn]
      by_cases hall : size x ≤ need
      · have hneed : need - size x - totalSize size xs = need - (size x + totalSize size xs) := by omega
        rw [if_pos hall, if_pos hall, ih hxs, hneed]
      · have hleft : undrained size (0 - totalSize size xs) ys =
            undrained size (need - (size x + totalSize size xs)) ys :=
          hnone (by omega) (by omega)
        rw [if_neg hall, if_neg hall, ih hxs, List.cons_append, hleft]

theorem undrainedOf_append (h : ∀ x ∈ xs, 0 < size x) (kind : α → Bool) (need : Int) (ys : List α) :
    undrainedOf size kind need (xs ++ ys) =
      undrainedOf size kind need xs + undrainedOf size kind (need - totalSize size xs) ys := by
  simp only [undrainedOf, undrained_append h, List.filter_append, List.map_append, List.sum_append]

theorem undrainedOf_met {need : Int} (h : need ≤ 0) (kind : α → Bool) (xs : List α) :
    undrainedOf size kind need xs = totalSize size (xs.filter kind) := by
  have hfilter : (xs.map fun x => (x, size x)).filter (fun p => kind p.1) =
      (xs.filter kind).map fun x => (x, size x) := by
    rw [List.filter_map]
    rfl
  rw [undrainedOf, undrained_met h, hfilter, List.map_map]
  rfl

theorem totalSize_filter_of_eq {kind : α → Bool} {k : Bool} (hkind : ∀ x ∈ xs, kind x = k) :
    totalSize size (xs.filter kind) = if k then totalSize size xs else 0 := by
  cases k with
  | true => rw [List.filter_eq_self.mpr hkind, if_pos rfl]
  | false =>
    have hnone : xs.filter kind = [] := List.filter_eq_nil_iff.mpr fun x hx => by
      rw [hkind x hx]; exact nofun
    rw [hnone]
    rfl

theorem taken_of_eq (h : ∀ x ∈ xs, 0 < size x) {kind : α → Bool} {k : Bool}
    (hkind : ∀ x ∈ xs, kind x = k) (need : Int) :
    taken size kind need xs = if k then min (totalSize size xs) (max 0 need) else 0 := by
  induction xs generalizing need with
  | nil => cases k <;> simp
  | cons x xs ih =>
    have hxs : ∀ y ∈ xs, 0 < size y := fun y hy => h y (List.mem_cons_of_mem _ hy)
    have hx := h x List.mem_cons_self
    have hsum := totalSize_nonneg hxs
    have hrest := ih hxs (fun y hy => hkind y (List.mem_cons_of_mem _ hy)) (need - size x)
    by_cases hn : need ≤ 0
    · have hsumx := totalSize_nonneg h
      have hmin : min (totalSize size (x :: xs)) (max 0 need) = 0 := by omega
      rw [taken_met hn, hmin, ite_self]
    · rw [taken_cons (lt_of_not_ge hn), hrest, hkind x List.mem_cons_self, totalSize_cons]
      cases k with
      | true =>
        simp only [if_true]
        omega
      | false => rfl

theorem undrainedOf_of_eq (h : ∀ x ∈ xs, 0 < size x) {kind : α → Bool} {k : Bool}
    (hkind : ∀ x ∈ xs, kind x = k) (need : Int) :
    undrainedOf size kind need xs = if k then totalSize size xs - min (totalSize size xs)
      (max 0 need) else 0 := by
  induction xs generalizing need with
  | nil => cases k <;> simp [undrainedOf, undrained]
  | cons x xs ih =>
    have hxs : ∀ y ∈ xs, 0 < size y := fun y hy => h y (List.mem_cons_of_mem _ hy)
    have hkinds : ∀ y ∈ xs, kind y = k := fun y hy => hkind y (List.mem_cons_of_mem _ hy)
    have hx := h x List.mem_cons_self
    have hsum := totalSize_nonneg hxs
    by_cases hn : need ≤ 0
    · have hmin : min (totalSize size (x :: xs)) (max 0 need) = 0 := by
        have hsumx := totalSize_nonneg h
        omega
      rw [undrainedOf_met hn, totalSize_filter_of_eq hkind, hmin, Int.sub_zero]
    · have hleft : undrainedOf size kind need (x :: xs) =
          (if k then size x - min (size x) need else 0) + undrainedOf size kind (need - size x) xs := by
        rw [undrainedOf, undrained, if_neg hn]
        by_cases hall : size x ≤ need
        · have hzero : (if k then size x - min (size x) need else 0) = 0 := by
            rw [min_eq_left hall, sub_self, ite_self]
          rw [if_pos hall, hzero, Int.zero_add]
          rfl
        · have hsame : undrainedOf size kind (need - size x) xs = undrainedOf size kind 0 xs := by
            rw [undrainedOf_met (by omega), undrainedOf_met le_rfl]
          have hmin : min (size x) need = need := min_eq_right (le_of_not_ge hall)
          rw [if_neg hall, hsame, List.filter_cons, hmin]
          simp only [hkind x List.mem_cons_self]
          cases k with
          | true =>
            rw [if_pos rfl, if_pos rfl, List.map_cons, List.sum_cons]
            rfl
          | false =>
            rw [if_neg Bool.false_ne_true, if_neg Bool.false_ne_true, Int.zero_add]
            rfl
      rw [hleft, ih hxs hkinds, totalSize_cons]
      cases k with
      | true =>
        simp only [if_true]
        omega
      | false => rfl

/-- Draining the oldest blocks first leaves of each kind what is taken from the newest on, when the
items of a block are of one kind. -/
theorem undrainedOf_flatten {blocks : List (List α)} (h : ∀ block ∈ blocks, ∀ x ∈ block, 0 < size x)
    {kind : α → Bool}
    (hkind : ∀ block ∈ blocks, ∃ k, ∀ x ∈ block, kind x = k) (need : Int) :
    undrainedOf size kind (totalSize size blocks.flatten - need) blocks.flatten =
      taken size kind need blocks.reverse.flatten := by
  induction blocks with
  | nil => rfl
  | cons block blocks ih =>
    have hblock := h block List.mem_cons_self
    have hblocks : ∀ b ∈ blocks, ∀ x ∈ b, 0 < size x := fun b hb => h b (List.mem_cons_of_mem _ hb)
    have hrest := ih hblocks fun b hb => hkind b (List.mem_cons_of_mem _ hb)
    obtain ⟨k, hk⟩ := hkind block List.mem_cons_self
    have hpos : ∀ x ∈ blocks.reverse.flatten, 0 < size x := by
      intro x hx
      obtain ⟨b, hb, hx⟩ := List.mem_flatten.mp hx
      exact hblocks b (List.mem_reverse.mp hb) x hx
    have htotal : totalSize size (block :: blocks).flatten = totalSize size block + totalSize size
        blocks.flatten := by
      rw [List.flatten_cons]
      simp only [totalSize, List.map_append, List.sum_append]
    have hreverse : totalSize size blocks.reverse.flatten = totalSize size blocks.flatten := by
      have hperm : (blocks.reverse.flatten.map size).Perm (blocks.flatten.map size) :=
        (List.reverse_perm blocks).flatten.map size
      exact hperm.sum_eq
    have hneed : totalSize size block + totalSize size blocks.flatten - need - totalSize size block =
        totalSize size blocks.flatten - need := by omega
    have hsum := totalSize_nonneg hblock
    rw [htotal, List.flatten_cons, undrainedOf_append hblock, hneed, hrest, List.reverse_cons,
      List.flatten_append, List.flatten_singleton, taken_append hpos, hreverse, undrainedOf_of_eq hblock
      hk, taken_of_eq hblock hk]
    cases k with
    | true =>
      simp only [if_true]
      omega
    | false =>
      simp only [Bool.false_eq_true, if_false]
      omega

end EconomyLab.Foundation

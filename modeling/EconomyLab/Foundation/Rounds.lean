import EconomyLab.Foundation.Runs
import Mathlib.Data.Nat.Basic

/-!
# Rounds over a capped prefix

A round looks at the first few elements of a list and drops those that are due. What is not
due keeps its place, so an element is reached just when fewer than the cap of those stand
before it.
-/

namespace EconomyLab.Foundation

universe u
variable {α : Type u}

def dropDue (limit : Nat) (due : α → Bool) (xs : List α) : List α :=
  (xs.take limit).filter (!due ·) ++ xs.drop limit

section Round

variable {limit : Nat} {due : α → Bool}

theorem dropDue_sublist (xs : List α) : (dropDue limit due xs).Sublist xs := by
  have h : (dropDue limit due xs).Sublist (xs.take limit ++ xs.drop limit) :=
    List.Sublist.append List.filter_sublist (List.Sublist.refl _)
  rwa [List.take_append_drop] at h

theorem dropDue_append_far {xs ys : List α} (h : limit ≤ xs.length) :
    dropDue limit due (xs ++ ys) = dropDue limit due xs ++ ys := by
  unfold dropDue
  rw [List.take_append_of_le_length h, List.drop_append_of_le_length h, List.append_assoc]

theorem dropDue_append_near {xs ys : List α} (h : xs.length ≤ limit) :
    dropDue limit due (xs ++ ys) = dropDue limit due xs ++ dropDue (limit - xs.length) due ys := by
  unfold dropDue
  rw [List.take_append, List.drop_append, List.take_of_length_le h, List.drop_of_length_le h,
    List.filter_append, List.append_nil, List.nil_append, List.append_assoc]

theorem dropDue_cons (a : α) (xs : List α) :
    dropDue (limit + 1) due (a :: xs) = if due a then dropDue limit due xs else a :: dropDue
      limit due xs := by
  unfold dropDue
  rw [List.take_succ_cons, List.drop_succ_cons, List.filter_cons]
  cases due a <;> rfl

/-- An element keeps its place behind what stood before it, unless it is within the limit and due. -/
theorem dropDue_keeps (before : List α) (a : α) (after : List α) :
    ∃ after', after'.Sublist after ∧ dropDue limit due (before ++ a :: after) = dropDue limit due before ++
      if before.length < limit ∧ due a = true then after' else a :: after' := by
  by_cases hnear : before.length < limit
  · obtain ⟨rest, hrest⟩ : ∃ rest, limit - before.length = rest + 1 := ⟨limit - before.length - 1, by
      omega⟩
    refine ⟨dropDue rest due after, dropDue_sublist after, ?_⟩
    rw [dropDue_append_near (Nat.le_of_lt hnear), hrest, dropDue_cons]
    by_cases hdue : due a = true
    · rw [if_pos hdue, if_pos ⟨hnear, hdue⟩]
    · rw [if_neg hdue, if_neg fun h => hdue h.2]
  · refine ⟨after, List.Sublist.refl after, ?_⟩
    rw [dropDue_append_far (Nat.le_of_not_lt hnear), if_neg fun h => hnear h.1]

theorem dropDue_length_lt {xs : List α} (h : ∃ a ∈ xs.take limit, due a = true) :
    (dropDue limit due xs).length < xs.length := by
  obtain ⟨a, hmem, hdue⟩ := h
  have hfewer : ((xs.take limit).filter (!due ·)).length < (xs.take limit).length := by
    apply List.length_filter_lt_length_iff_exists.mpr
    exact ⟨a, hmem, by rw [hdue]; exact Bool.false_ne_true⟩
  have hlength := congrArg List.length (List.take_append_drop limit xs)
  rw [List.length_append] at hlength
  unfold dropDue
  rw [List.length_append]
  omega

theorem dropDue_filter {keep : α → Bool} (h : ∀ a, keep a = true → due a = false) (xs : List α) :
    (dropDue limit due xs).filter keep = xs.filter keep := by
  have hsame : ((xs.take limit).filter (!due ·)).filter keep = (xs.take limit).filter keep := by
    rw [List.filter_filter]
    apply List.filter_congr
    intro a _
    cases hkeep : keep a with
    | false => rfl
    | true => rw [h a hkeep]; rfl
  unfold dropDue
  rw [List.filter_append, hsame, ← List.filter_append, List.take_append_drop]

theorem dropDue_congr {due' : α → Bool} {xs : List α} (h : ∀ a ∈ xs, due a = due' a) :
    dropDue limit due xs = dropDue limit due' xs := by
  have hnear : (xs.take limit).filter (!due ·) = (xs.take limit).filter (!due' ·) := by
    apply List.filter_congr
    intro a ha
    rw [h a (List.mem_of_mem_take ha)]
  unfold dropDue
  rw [hnear]

/-- Of distinct elements, a round keeps those beyond the limit and those that are not due. -/
theorem dropDue_eq_filter [DecidableEq α] {xs : List α} (hnodup : xs.Nodup) :
    dropDue limit due xs = xs.filter fun a => !(decide (a ∈ xs.take limit) && due a) := by
  have hsplit := List.take_append_drop limit xs
  have hapart := (List.nodup_append.mp (hsplit.symm ▸ hnodup)).2.2
  have hnear : (xs.take limit).filter (fun a => !(decide (a ∈ xs.take limit) && due a)) =
      (xs.take limit).filter (!due ·) := by
    apply List.filter_congr
    intro a ha
    rw [decide_eq_true ha, Bool.true_and]
  have hfar : (xs.drop limit).filter (fun a => !(decide (a ∈ xs.take limit) && due a)) =
      xs.drop limit := by
    apply List.filter_eq_self.mpr
    intro a ha
    have hnot : a ∉ xs.take limit := fun hin => hapart a hin a ha rfl
    rw [decide_eq_false hnot]
    rfl
  unfold dropDue
  rw [← hnear]
  conv_lhs => rw [← hfar]
  rw [← List.filter_append, hsplit]

end Round

section Rounds

variable {limit : Nat} {due : Nat → α → Bool} {s : Nat → List α}

theorem rounds_sublist (hround : ∀ n, s (n + 1) = dropDue limit (due n) (s n)) {m n : Nat} (h : m ≤ n) :
    (s n).Sublist (s m) := by
  induction n, h using Nat.le_induction with
  | base => exact List.Sublist.refl _
  | succ n _ ih =>
    rw [hround]
    exact (dropDue_sublist _).trans ih

theorem due_later (hmono : ∀ n a, due n a = true → due (n + 1) a = true) {m n : Nat} (h : m ≤ n) {a : α}
    (hdue : due m a = true) : due n a = true := by
  induction n, h using Nat.le_induction with
  | base => exact hdue
  | succ n _ ih => exact hmono n a ih

theorem all_due (hmono : ∀ n a, due n a = true → due (n + 1) a = true) (xs : List α) :
    ∃ start, ∀ a ∈ xs, (∃ n, due n a = true) → due start a = true := by
  induction xs with
  | nil => exact ⟨0, fun a h => absurd h List.not_mem_nil⟩
  | cons x xs ih =>
    obtain ⟨start, hall⟩ := ih
    by_cases hx : ∃ n, due n x = true
    · obtain ⟨n, hn⟩ := hx
      refine ⟨max start n, ?_⟩
      intro a hmem hever
      rcases List.mem_cons.mp hmem with rfl | hmem
      · exact due_later hmono (le_max_right _ _) hn
      · exact due_later hmono (le_max_left _ _) (hall a hmem hever)
    · refine ⟨start, ?_⟩
      intro a hmem hever
      rcases List.mem_cons.mp hmem with rfl | hmem
      · exact absurd hever hx
      · exact hall a hmem hever

open Classical in
noncomputable def stays (due : Nat → α → Bool) (a : α) : Bool := decide (∀ n, due n a = false)

theorem stays_iff {a : α} : stays due a = true ↔ ∀ n, due n a = false := by
  unfold stays
  exact @decide_eq_true_iff _ (Classical.propDecidable _)

theorem rounds_stays (hround : ∀ n, s (n + 1) = dropDue limit (due n) (s n)) (n : Nat) :
    (s n).filter (stays due) = (s 0).filter (stays due) := by
  induction n with
  | zero => rfl
  | succ n ih =>
    rw [hround, dropDue_filter fun a h => stays_iff.mp h n]
    exact ih

/-- A list gets shorter than the limit just when fewer of its elements stay. -/
theorem rounds_short_iff (hround : ∀ n, s (n + 1) = dropDue limit (due n) (s n))
    (hmono : ∀ n a, due n a = true → due (n + 1) a = true) :
    (∃ start, ∀ n, start ≤ n → (s n).length < limit) ↔ ((s 0).filter (stays due)).length < limit := by
  constructor
  · rintro ⟨start, hshort⟩
    have hle := (List.filter_sublist (p := stays due) (l := s start)).length_le
    rw [rounds_stays hround] at hle
    exact lt_of_le_of_lt hle (hshort start (le_refl _))
  · intro hfew
    obtain ⟨start, hdue⟩ := all_due hmono (s 0)
    have hlower : ∀ n, (∃ a ∈ (s (start + n)).take limit, due (start + n) a = true) →
        (s (start + (n + 1))).length < (s (start + n)).length := by
      intro n hleft
      have hstep := hround (start + n)
      rw [Nat.add_assoc] at hstep
      rw [hstep]
      exact dropDue_length_lt hleft
    obtain ⟨n, -, hdone⟩ := @exists_done (List α) (fun n => s (start + n))
      (fun xs => ∃ a ∈ xs.take limit, ∃ n, due n a = true) List.length (fun n hleft => by
        obtain ⟨a, hmem, hever⟩ := hleft
        apply hlower
        have hof := (rounds_sublist hround (Nat.zero_le (start + n))).subset (List.mem_of_mem_take hmem)
        exact ⟨a, hmem, due_later hmono (Nat.le_add_right _ _) (hdue a hof hever)⟩)
    have hshort : (s (start + n)).length < limit := by
      by_contra hlong
      have hstay : ((s (start + n)).take limit).filter (stays due) = (s (start + n)).take limit := by
        apply List.filter_eq_self.mpr
        intro a hmem
        rw [stays_iff]
        intro k
        cases hk : due k a with
        | false => rfl
        | true => exact absurd ⟨a, hmem, k, hk⟩ hdone
      have hsub := (List.take_sublist limit (s (start + n))).filter (stays due)
      rw [hstay, rounds_stays hround] at hsub
      have hlength := hsub.length_le
      rw [List.length_take] at hlength
      omega
    refine ⟨start + n, ?_⟩
    intro m hm
    exact lt_of_le_of_lt (rounds_sublist hround hm).length_le hshort

/-- An element is dropped just when it is ever due and fewer than the limit of those before it stay. -/
theorem dropped_iff (hround : ∀ n, s (n + 1) = dropDue limit (due n) (s n))
    (hmono : ∀ n a, due n a = true → due (n + 1) a = true) {before after : List α} {a : α}
    (hs : s 0 = before ++ a :: after) (hnodup : (s 0).Nodup) :
    (∃ n, a ∉ s n) ↔ (∃ n, due n a = true) ∧ (before.filter (stays due)).length < limit := by
  let front : Nat → List α := fun n => n.rec before fun n xs => dropDue limit (due n) xs
  have hfront : ∀ n, front (n + 1) = dropDue limit (due n) (front n) := fun n => rfl
  have hplace : ∀ n, a ∈ s n → ∃ rest, s n = front n ++ a :: rest := by
    intro n
    induction n with
    | zero => exact fun _ => ⟨after, hs⟩
    | succ n ih =>
      intro hmem
      obtain ⟨rest, hrest⟩ := ih ((rounds_sublist hround (Nat.le_succ n)).subset hmem)
      obtain ⟨rest', hsub, hkept⟩ := @dropDue_keeps α limit (due n) (front n) a rest
      rw [hround, hrest, hkept, ← hfront] at hmem
      rw [hround, hrest, hkept, ← hfront]
      split at hmem
      · exfalso
        have hnodup' : (front n ++ a :: rest).Nodup :=
          hrest ▸ (rounds_sublist hround (Nat.zero_le n)).nodup hnodup
        rw [List.nodup_append] at hnodup'
        obtain ⟨-, hrestNodup, hdisjoint⟩ := hnodup'
        rcases List.mem_append.mp hmem with hin | hin
        · rw [hfront] at hin
          exact hdisjoint a ((dropDue_sublist _).subset hin) a List.mem_cons_self rfl
        · exact (List.nodup_cons.mp hrestNodup).1 (hsub.subset hin)
      · rename_i hstill
        rw [if_neg hstill]
        exact ⟨rest', rfl⟩
  have hstep : ∀ n, a ∈ s n → (a ∈ s (n + 1) ↔ ¬ ((front n).length < limit ∧ due n a = true)) := by
    intro n hmem
    obtain ⟨rest, hrest⟩ := hplace n hmem
    obtain ⟨rest', hsub, hkept⟩ := @dropDue_keeps α limit (due n) (front n) a rest
    constructor
    · intro hnext hdropped
      obtain ⟨later, hlater⟩ := hplace (n + 1) hnext
      rw [hround, hrest, hkept, if_pos hdropped, ← hfront] at hlater
      have hnext' := List.append_cancel_left hlater
      have hnodup' : (front n ++ a :: rest).Nodup :=
        hrest ▸ (rounds_sublist hround (Nat.zero_le n)).nodup hnodup
      have hnot := (List.nodup_cons.mp (List.nodup_append.mp hnodup').2.1).1
      exact hnot (hsub.subset (hnext' ▸ List.mem_cons_self))
    · intro hkeeps
      rw [hround, hrest, hkept, if_neg hkeeps]
      exact List.mem_append_right _ List.mem_cons_self
  have hshort := @rounds_short_iff α limit due front hfront hmono
  constructor
  · rintro ⟨n, hgone⟩
    obtain ⟨k, hk, hnear, hdue⟩ : ∃ k, a ∈ s k ∧ (front k).length < limit ∧ due k a = true := by
      by_contra hnone
      push Not at hnone
      have hall : ∀ k, a ∈ s k := by
        intro k
        induction k with
        | zero =>
          rw [hs]
          exact List.mem_append_right _ List.mem_cons_self
        | succ k ih => exact (hstep k ih).mpr fun h => hnone k ih h.1 h.2
      exact hgone (hall n)
    refine ⟨⟨k, hdue⟩, hshort.mp ⟨k, ?_⟩⟩
    intro m hm
    exact lt_of_le_of_lt (rounds_sublist hfront hm).length_le hnear
  · rintro ⟨⟨k, hdue⟩, hfew⟩
    obtain ⟨start, hlater⟩ := hshort.mpr hfew
    by_cases hmem : a ∈ s (max start k)
    · refine ⟨max start k + 1, ?_⟩
      rw [hstep _ hmem]
      exact not_not.mpr ⟨hlater _ (le_max_left _ _), due_later hmono (le_max_right _ _) hdue⟩
    · exact ⟨_, hmem⟩

end Rounds

end EconomyLab.Foundation

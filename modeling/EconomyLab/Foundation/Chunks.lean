import Mathlib.Algebra.BigOperators.Group.List.Basic
import Mathlib.Data.List.Basic

/-!
# Cutting a list into chunks

Consecutive pieces of at most a given width. A positive width cuts the whole list.
-/

namespace EconomyLab.Foundation

universe u
variable {α : Type u}

def chunksFrom (width : Nat) : Nat → List α → List (List α)
  | 0, _ => []
  | _ + 1, [] => []
  | fuel + 1, x :: xs => (x :: xs).take width :: chunksFrom width fuel ((x :: xs).drop width)

/-- The pieces `xs.slice(i, i + width)` for `i = 0, width, 2 * width, …`. -/
def chunksOf (width : Nat) (xs : List α) : List (List α) := chunksFrom width xs.length xs

theorem flatten_chunksFrom {width : Nat} (hw : 0 < width) {fuel : Nat} {xs : List α}
    (h : xs.length ≤ fuel) : (chunksFrom width fuel xs).flatten = xs := by
  induction fuel generalizing xs with
  | zero =>
    have hx : xs = [] := List.eq_nil_of_length_eq_zero (Nat.le_zero.mp h)
    simp [chunksFrom, hx]
  | succ fuel ih =>
    cases xs with
    | nil => rfl
    | cons x xs =>
      have hlen : ((x :: xs).drop width).length ≤ fuel := by
        rw [List.length_drop]
        omega
      rw [chunksFrom, List.flatten_cons, ih hlen, List.take_append_drop]

theorem flatten_chunksOf {width : Nat} (hw : 0 < width) (xs : List α) :
    (chunksOf width xs).flatten = xs :=
  flatten_chunksFrom hw (Nat.le_refl _)

end EconomyLab.Foundation

import Mathlib

/-!
# Highest weights

The heaviest element of a list is the first one of the greatest weight. It stays the heaviest in every
part of the list that keeps it, and without ties it does not depend on the order at all. Weights that
are mixed out of a word by shifts and odd factors tie only where the words are equal.
-/

namespace EconomyLab.Foundation

universe u v

section Heaviest

variable {α : Type u} {β : Type v} [LinearOrder β]

/-- All before it are lighter, and none after it is heavier. -/
def Heaviest (weight : α → β) (xs : List α) (a : α) : Prop :=
  ∃ before after, xs = before ++ a :: after ∧ (∀ b ∈ before, weight b < weight a) ∧
    ∀ b ∈ after, weight b ≤ weight a

namespace Heaviest

variable {weight : α → β} {xs ys : List α} {a b : α}

theorem mem (h : Heaviest weight xs a) : a ∈ xs := by
  obtain ⟨before, after, rfl, -, -⟩ := h
  exact List.mem_append_right _ List.mem_cons_self

theorem le (h : Heaviest weight xs a) (hb : b ∈ xs) : weight b ≤ weight a := by
  obtain ⟨before, after, rfl, hbefore, hafter⟩ := h
  rcases List.mem_append.mp hb with hb | hb
  · exact le_of_lt (hbefore b hb)
  · rcases List.mem_cons.mp hb with rfl | hb
    · exact le_refl _
    · exact hafter b hb

theorem single (weight : α → β) (a : α) : Heaviest weight [a] a := by
  refine ⟨[], [], rfl, ?_, ?_⟩
  · intro b hb
    cases hb
  · intro b hb
    cases hb

/-- One more element takes over exactly when it is heavier. -/
theorem snoc (h : Heaviest weight xs a) (b : α) :
    Heaviest weight (xs ++ [b]) (if weight a < weight b then b else a) := by
  by_cases hlt : weight a < weight b
  · rw [if_pos hlt]
    refine ⟨xs, [], rfl, ?_, ?_⟩
    · intro c hc
      exact lt_of_le_of_lt (h.le hc) hlt
    · intro c hc
      cases hc
  · rw [if_neg hlt]
    obtain ⟨before, after, rfl, hbefore, hafter⟩ := h
    refine ⟨before, after ++ [b], by simp, hbefore, ?_⟩
    intro c hc
    rcases List.mem_append.mp hc with hc | hc
    · exact hafter c hc
    · rw [List.mem_singleton.mp hc]
      exact not_lt.mp hlt

/-- Where no two elements of either list tie, two lists that each know the other's heaviest have one and
the same. -/
theorem agree (hties : ∀ c d, c ∈ xs ∨ c ∈ ys → d ∈ xs ∨ d ∈ ys → weight c = weight d → c = d)
    (ha : Heaviest weight xs a) (hb : Heaviest weight ys b) (hay : a ∈ ys) (hbx : b ∈ xs) : a = b := by
  apply hties a b (Or.inl ha.mem) (Or.inr hb.mem)
  exact le_antisymm (hb.le hay) (ha.le hbx)

end Heaviest

end Heaviest

section Mixing

variable {w : Nat}

/-- Shifting a word by at least half its width into itself is undone by doing it again. -/
theorem xorShift_twice {k : Nat} (hk : w ≤ 2 * k) (x : BitVec w) :
    (x ^^^ (x >>> k)) ^^^ ((x ^^^ (x >>> k)) >>> k) = x := by
  have hgone : (x >>> k) >>> k = 0#w := by
    apply BitVec.eq_of_getLsbD_eq
    intro i hi
    rw [BitVec.getLsbD_ushiftRight, BitVec.getLsbD_ushiftRight, BitVec.getLsbD_zero]
    exact BitVec.getLsbD_of_ge x _ (by omega)
  rw [BitVec.ushiftRight_xor_distrib, hgone, BitVec.xor_zero, BitVec.xor_assoc, BitVec.xor_self,
    BitVec.xor_zero]

theorem xorShift_injective {k : Nat} (hk : w ≤ 2 * k) :
    Function.Injective fun x : BitVec w => x ^^^ (x >>> k) := by
  intro x y h
  have hback := congrArg (fun z : BitVec w => z ^^^ (z >>> k)) h
  simpa only [xorShift_twice hk] using hback

theorem mul_injective {c d : BitVec w} (hcd : c * d = 1#w) :
    Function.Injective fun x : BitVec w => x * c := by
  intro x y h
  have hback := congrArg (fun z : BitVec w => z * d) h
  simpa only [BitVec.mul_assoc, hcd, BitVec.mul_one] using hback

theorem xor_injective (c : BitVec w) : Function.Injective fun x : BitVec w => x ^^^ c := by
  intro x y h
  have hback := congrArg (fun z : BitVec w => z ^^^ c) h
  simpa only [BitVec.xor_assoc, BitVec.xor_self, BitVec.xor_zero] using hback

theorem foldl_injective {σ ι : Type u} {step : σ → ι → σ} (h : ∀ i, Function.Injective fun s => step s i)
    (inputs : List ι) : Function.Injective fun s => inputs.foldl step s := by
  induction inputs with
  | nil => exact fun _ _ heq => heq
  | cons i inputs ih => exact fun s t heq => h i (ih heq)

end Mixing

end EconomyLab.Foundation
